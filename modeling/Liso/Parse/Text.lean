import Liso.Parse.ByLine
import Liso.Parse.StartLine
import Liso.Lib.Words

/-!
# What the parser reads off a line

The words of a request line and the key and the value of a header line are functions of the line's
text. The pointers of `req_parse` that run through the line find them: each `proceed_inline` stops
behind the next word (`proceedInline_word`), and the search for the colon stops behind the key. So
the two steps of the parser are stated here without pointers: `parseStart_text` for the request
line, and `parseLine_text` for the lines behind it.
-/

namespace Liso

open Cut (IsLine)
open Words (words)

variable {r : Req} {d : Cur} {l : List Byte} {b : Byte}

/-! ## Pointers into a line -/

/-- The pointer stands in the line `l`, which `b` precedes. -/
def Cur.In (d : Cur) (b : Byte) (l : List Byte) : Prop :=
  ∃ front, front ++ d.rest = l ∧ d.prev = front.getLastD b

/-- A line begins with its first byte. -/
theorem Cur.in_start (b : Byte) (l : List Byte) : (Cur.mk b l).In b l := ⟨[], rfl, rfl⟩

/-- In front of a cursor inside a line is an end of the line. -/
theorem Cur.In.suffix (h : d.In b l) : d.rest <:+ l := by
  obtain ⟨front, hl, -⟩ := h
  exact ⟨front, hl⟩

/-- A skip stays in the line. -/
theorem Cur.In.skip (h : d.In b l) (f : Byte → Bool) : (d.skip f).In b l := by
  obtain ⟨front, hl, hp⟩ := h
  refine ⟨front ++ d.rest.takeWhile f, ?_, ?_⟩
  · rw [List.append_assoc, Cur.skip_rest, List.takeWhile_append_dropWhile, hl]
  · show (d.rest.takeWhile f).getLastD d.prev = _
    rw [hp]
    rcases List.eq_nil_or_concat' (d.rest.takeWhile f) with he | ⟨ts, t, he⟩
    · simp [he]
    · rw [he, ← List.append_assoc, List.getLastD_concat, List.getLastD_concat]

/-- `proceed_inline` stays in the line. -/
theorem proceedInline_in (h : d.In b l) : (proceedInline d).1.In b l ∧ (proceedInline d).2.In b l :=
  ⟨h.skip _, (h.skip _).skip _⟩

/-- A search moves over the bytes that it skips. -/
theorem Cur.dist_skip (d : Cur) (f : Byte → Bool) :
    d.dist (d.skip f) = (d.rest.takeWhile f).length := by
  have hlen := congrArg List.length (List.takeWhile_append_dropWhile (p := f) (l := d.rest))
  rw [List.length_append] at hlen
  rw [Cur.dist, Cur.skip_rest]
  omega

/-- A word is a part of the line. -/
theorem mem_of_mem_word {c : Byte} {n : ℕ} (h : c ∈ (words isspace l).getD n []) : c ∈ l := by
  have hword : (words isspace l).getD n [] ∈ words isspace l := by
    rw [List.getD_eq_getElem?_getD] at h ⊢
    cases hn : (words isspace l)[n]? with
    | none => simp [hn] at h
    | some w => exact List.mem_of_getElem? hn
  exact Words.mem_of_mem hword h

/-- What stands between the two ends of a search. -/
theorem Cur.take_dist (d : Cur) (f : Byte → Bool) :
    d.rest.take (d.dist (d.skip f)) = d.rest.takeWhile f := by
  rw [Cur.dist_skip]
  exact (List.prefix_iff_eq_take.1 (List.takeWhile_prefix _)).symm

/-- A copy with two bounds is that of a text that is cut at one of them. -/
theorem strncpy0_min (s : List Byte) (n m : ℕ) : strncpy0 s (min n m) = strncpy0 (s.take m) n := by
  rw [strncpy0, strncpy0, List.take_take]

/-- The end of the line is all that is left where neither a space nor a word is. -/
theorem rest_eq_lf (hl : IsLine LF l) {bs : List Byte} (hs : bs <:+ l) (hmem : LF ∈ bs)
    (hsp : bs.takeWhile issp = []) (hw : bs.takeWhile (fun c => !isspace c) = []) : bs = [LF] := by
  obtain ⟨c, cs, rfl⟩ := List.exists_cons_of_ne_nil (List.ne_nil_of_mem hmem)
  have hc : c = LF := by
    cases hi : issp c with
    | true => simp [hi] at hsp
    | false =>
      by_contra hne
      have : isspace c = false := by simp [isspace, hi, hne]
      simp [this] at hw
  subst hc
  have := line_suffix hl hs hmem
  rwa [List.dropWhile_cons_of_neg (by simp)] at this

/-- `proceed_inline` stops around the next word, or at the end of the line. -/
theorem proceedInline_word (hl : IsLine LF l) (hd : d.In b l) (hmem : LF ∈ d.rest) :
    (proceedInline d).1.rest.take ((proceedInline d).1.dist (proceedInline d).2) =
      (words isspace d.rest).headD [] ∧
      words isspace (proceedInline d).2.rest = (words isspace d.rest).tail ∧
      (words isspace d.rest = [] → (proceedInline d).1.rest = [LF]) := by
  have hwords : words isspace d.rest = words isspace (d.rest.dropWhile issp) := by
    have hblank : ∀ c ∈ d.rest.takeWhile issp, isspace c = true := by
      intro c hc
      have : issp c = true := List.mem_takeWhile_imp hc
      simp [isspace, this]
    have h := Words.words_append hblank (d.rest.dropWhile issp)
    rwa [List.takeWhile_append_dropWhile] at h
  have hp : (proceedInline d).1.rest = d.rest.dropWhile issp := rfl
  have hd2 : (proceedInline d).2.rest = (d.rest.dropWhile issp).dropWhile fun c => !isspace c := rfl
  have hin := (proceedInline_in hd).1.suffix
  have hmem1 : LF ∈ d.rest.dropWhile issp := mem_dropWhile issp_LF hmem
  have hmem2 : LF ∈ (d.rest.dropWhile issp).dropWhile fun c => !isspace c :=
    mem_dropWhile (by decide) hmem1
  rw [show (proceedInline d).2 = (proceedInline d).1.skip fun c => !isspace c from rfl,
    Cur.take_dist, Cur.skip_rest, hp,
    hwords]
  rw [hp] at hin
  have hnosp : (d.rest.dropWhile issp).takeWhile issp = [] := by
    rcases hc : d.rest.dropWhile issp with _ | ⟨c, cs⟩
    · rfl
    · have := List.head_dropWhile_not (p := issp) (l := d.rest) (by simp [hc])
      simp only [hc, List.head_cons] at this
      simp [this]
  generalize d.rest.dropWhile issp = bs at hin hmem1 hmem2 hnosp
  by_cases hw : bs.takeWhile (fun c => !isspace c) = []
  · have hbs := rest_eq_lf hl hin hmem1 hnosp hw
    have hlf : isspace LF = true := by decide
    rw [hbs]
    simp [hlf, Words.words_sep hlf]
  · rw [Words.words_skip hw (List.ne_nil_of_mem hmem2)]
    exact ⟨rfl, rfl, fun h => absurd h (List.cons_ne_nil _ _)⟩

/-! ## The request line -/

/-- The method that a word names. -/
def methodWord (w : List Byte) : Option Method :=
  if strcaseeq w (str "GET") then some .get
  else if strcaseeq w (str "HEAD") then some .head
  else if strcaseeq w (str "POST") then some .post
  else none

/-- The method that the first word of a line names, if a space follows it. -/
def lineMethod (l : List Byte) : Option Method :=
  if issp ((l.dropWhile issp).getD ((words isspace l).headD []).length 0) then methodWord
    ((words isspace l).headD [])
  else none

/-- A line that ends in a carriage return and a line feed. -/
def Ended (l : List Byte) : Prop := [CR, LF] <:+ l

/-- `Ended` is decidable. -/
instance (l : List Byte) : Decidable (Ended l) := inferInstanceAs (Decidable (_ <:+ _))

/-- A text without NUL is a C string as a whole. -/
theorem cstr_eq_self {s : List Byte} (h : 0 ∉ s) : cstr s = s := by
  rw [cstr, List.takeWhile_eq_self_iff]
  intro c hc
  have hne : c ≠ 0 := fun he => h (he ▸ hc)
  simpa using hne

/-- `strncpy0` takes the front of a text without NUL. -/
theorem strncpy0_eq_take {s : List Byte} (h : 0 ∉ s) (n : ℕ) : strncpy0 s n = s.take n :=
  cstr_eq_self fun hmem => h (List.mem_of_mem_take hmem)

/-- The comparison of a method's name, together with the test of the byte behind it, compares a
whole word. -/
theorem strncaseeq_word {s w : List Byte} {n : ℕ} (hw : w.length = n) (hn : n ≤ 8) :
    (strncaseeq ((s.takeWhile fun c => !isspace c).take 8) w n && issp (s.getD n 0)) =
      (issp (s.getD (s.takeWhile fun c => !isspace c).length 0) &&
        strcaseeq (s.takeWhile fun c => !isspace c) w) := by
  rw [Bool.eq_iff_iff]
  simp only [Bool.and_eq_true]
  have hsplit := List.takeWhile_append_dropWhile (p := fun c => !isspace c) (l := s)
  have hrun : ∀ c ∈ s.takeWhile fun c => !isspace c, issp c = false := by
    intro c hc
    have := List.mem_takeWhile_imp hc
    cases hi : issp c with
    | false => rfl
    | true => simp [isspace, hi] at this
  generalize s.takeWhile (fun c => !isspace c) = t at hsplit hrun
  rw [← hsplit]
  have hsame : t.length = n → strncaseeq (t.take 8) w n = strcaseeq t w := fun ht => by
    rw [strncaseeq, List.take_take, List.take_of_length_le (by omega),
      List.take_of_length_le (by omega)]
  constructor
  · rintro ⟨hcmp, hsp⟩
    have hle := le_of_strncaseeq hw hcmp
    rw [List.length_take] at hle
    have ht : t.length = n := by
      by_contra hne
      have hlt : n < t.length := by omega
      rw [List.getD_append _ _ _ _ hlt, List.getD_eq_getElem _ _ hlt, hrun _ (List.getElem_mem hlt)]
        at hsp
      exact Bool.noConfusion hsp
    rw [ht]
    exact ⟨hsp, hsame ht ▸ hcmp⟩
  · rintro ⟨hsp, hcmp⟩
    have ht : t.length = n := by
      have := congrArg List.length (eq_of_beq hcmp)
      rwa [List.length_map, List.length_map, hw] at this
    rw [ht] at hsp
    exact ⟨(hsame ht).symm ▸ hcmp, hsp⟩

/-- A cursor in front of a line has a line feed in front of it. -/
theorem lf_mem_start (hl : IsLine LF l) : LF ∈ (Cur.mk b l).rest := lf_mem_line hl

/-- The method of a request line. -/
theorem methodAt_text (hl : IsLine LF l) (hnul : 0 ∉ l) (b : Byte) :
    methodAt ⟨b, l⟩ = lineMethod l := by
  obtain ⟨hword, -, -⟩ := proceedInline_word hl (Cur.in_start b l) (lf_mem_start hl)
  have hp : (proceedInline ⟨b, l⟩).1.rest = l.dropWhile issp := rfl
  have htake : ((proceedInline ⟨b, l⟩).1.rest.take
      ((proceedInline ⟨b, l⟩).1.dist (proceedInline ⟨b, l⟩).2)) =
        (l.dropWhile issp).takeWhile fun c => !isspace c := Cur.take_dist _ _
  have hclean : 0 ∉ (l.dropWhile issp).takeWhile fun c => !isspace c := fun h =>
    hnul ((List.dropWhile_suffix _).subset ((List.takeWhile_prefix _).subset h))
  unfold methodAt lineMethod
  dsimp only
  rw [strncpy0_min, htake, strncpy0_eq_take hclean]
  rw [htake] at hword
  rw [← hword]
  unfold methodOf methodWord
  rw [hp, strncaseeq_word (by decide) (by decide), strncaseeq_word (by decide) (by decide),
    strncaseeq_word (by decide) (by decide)]
  generalize (l.dropWhile issp).takeWhile (fun c => !isspace c) = t
  cases hsp : issp ((l.dropWhile issp).getD t.length 0) with
  | false => simp
  | true =>
    cases t with
    | nil => simp [strcaseeq, str]
    | cons c cs => simp

/-- A request line without a word. -/
theorem parseStart_words (hl : IsLine LF l) (hw : words isspace l = []) (r : Req) (b : Byte) :
    parseStart r ⟨b, l⟩ = refuse r 400 := by
  obtain ⟨hword, -, -⟩ := proceedInline_word hl (Cur.in_start b l) (lf_mem_start hl)
  unfold parseStart
  dsimp only
  rw [strncpy0_min, hword, hw]
  exact if_pos rfl

/-- A request line without a method. -/
theorem parseStart_method (hl : IsLine LF l) (hnul : 0 ∉ l) (hw : words isspace l ≠ [])
    (hm : lineMethod l = none) (r : Req) (b : Byte) : parseStart r ⟨b, l⟩ = refuse r 501 := by
  have hnone := (methodAt_text hl hnul b).trans hm
  obtain ⟨hword, -, -⟩ := proceedInline_word hl (Cur.in_start b l) (lf_mem_start hl)
  obtain ⟨w, ws, hcons⟩ := List.exists_cons_of_ne_nil hw
  have hmem : w ∈ words isspace l := by simp [hcons]
  have hne : w ≠ [] := by simpa using (List.mem_filter.1 hmem).2
  have hlen : ¬ (strncpy0 (proceedInline ⟨b, l⟩).1.rest
      (min 8 ((proceedInline ⟨b, l⟩).1.dist (proceedInline ⟨b, l⟩).2))).length = 0 := by
    have hclean : 0 ∉ w := by
      intro h
      rw [hcons] at hword
      have hword : _ = w := hword
      rw [← hword] at h
      exact hnul ((List.dropWhile_suffix issp).subset (List.mem_of_mem_take h))
    rw [strncpy0_min, hword, hcons, strncpy0_eq_take (by exact hclean), List.length_take]
    have hpos := List.length_pos_of_ne_nil hne
    simp only [List.headD_cons]
    omega
  unfold methodAt at hnone
  dsimp only at hnone
  rw [if_neg hlen] at hnone
  unfold parseStart
  dsimp only
  rw [if_neg hlen, hnone]

/-- `proceed_inline` goes from one word of the line to the next. -/
theorem proceedInline_next (hl : IsLine LF l) (hd : d.In b l) (hmem : LF ∈ d.rest) :
    (proceedInline d).2.In b l ∧ LF ∈ (proceedInline d).2.rest ∧
      words isspace (proceedInline d).2.rest = (words isspace d.rest).tail :=
  ⟨(proceedInline_in hd).2, mem_dropWhile (by decide) (mem_dropWhile issp_LF hmem),
    (proceedInline_word hl hd hmem).2.1⟩

/-- The target of a request line. -/
theorem targetAt_text (hl : IsLine LF l) (b : Byte) :
    targetAt ⟨b, l⟩ = strncpy0 ((words isspace l).getD 1 []) REQ_URISZ := by
  obtain ⟨hd, hmem, hnext⟩ := proceedInline_next hl (Cur.in_start b l) (lf_mem_start hl)
  obtain ⟨hword, -, -⟩ := proceedInline_word hl hd hmem
  unfold targetAt
  dsimp only
  rw [strncpy0_min, hword, hnext]
  rcases words isspace l with _ | ⟨w, _ | ⟨w', ws⟩⟩ <;> rfl

/-- The version of a request line. -/
theorem versionAt_text (hl : IsLine LF l) (b : Byte) :
    versionAt ⟨b, l⟩ = strncpy0 ((words isspace l).getD 2 []) REQ_VERSZ := by
  obtain ⟨hd, hmem, hnext⟩ := proceedInline_next hl (Cur.in_start b l) (lf_mem_start hl)
  obtain ⟨hd', hmem', hnext'⟩ := proceedInline_next hl hd hmem
  obtain ⟨hword, -, -⟩ := proceedInline_word hl hd' hmem'
  unfold versionAt
  dsimp only
  rw [strncpy0_min, hword, hnext', hnext]
  rcases words isspace l with _ | ⟨w, _ | ⟨w', _ | ⟨w'', ws⟩⟩⟩ <;> rfl

/-- The byte in front of the end of the line. -/
theorem Cur.In.prev_eq_CR (h : d.In b l) (hd : d.rest = [LF]) (hb : b ≠ CR) :
    d.prev = CR ↔ Ended l := by
  obtain ⟨front, rfl, hp⟩ := h
  rw [hd, hp]
  rcases List.eq_nil_or_concat' front with rfl | ⟨text, c, rfl⟩
  · refine ⟨fun he => absurd he hb, fun he => ?_⟩
    have := he.length_le
    simp at this
  · rw [List.getLastD_concat, Ended, List.append_assoc]
    constructor
    · rintro rfl
      exact ⟨text, rfl⟩
    · rintro ⟨t, ht⟩
      have h := (List.append_inj' ht rfl).2
      exact (List.cons.inj h).1.symm

/-- The end of a request line: at most three words, and both bytes of the line's end. -/
theorem endAt_text (hl : IsLine LF l) (hw : words isspace l ≠ []) (b : Byte) :
    endAt ⟨b, l⟩ = if (words isspace l).length ≤ 3 ∧ Ended l then some ⟨LF, []⟩ else none := by
  obtain ⟨hd1, hmem1, hnext1⟩ := proceedInline_next hl (Cur.in_start b l) (lf_mem_start hl)
  obtain ⟨hd2, hmem2, hnext2⟩ := proceedInline_next hl hd1 hmem1
  obtain ⟨hd3, hmem3, hnext3⟩ := proceedInline_next hl hd2 hmem2
  obtain ⟨hword, -, hlast⟩ := proceedInline_word hl hd3 hmem3
  have hin := (proceedInline_in hd3).1
  have hwords : words isspace (proceedInline (proceedInline (proceedInline ⟨b, l⟩).2).2).2.rest =
      (words isspace l).drop 3 := by
    rw [hnext3, hnext2, hnext1]
    rcases words isspace l with _ | ⟨w, _ | ⟨w', _ | ⟨w'', ws⟩⟩⟩ <;> rfl
  -- The line is not blank, so that the byte in front of its end belongs to it.
  have hprev : ∀ p : Cur, p.In b l → p.rest = [LF] → (p.prev = CR ↔ Ended l) := by
    rintro p ⟨front, hfront, hp⟩ hrest
    rw [hrest] at hfront
    rcases List.eq_nil_or_concat' front with rfl | ⟨text, c, rfl⟩
    · rw [List.nil_append] at hfront
      rw [← hfront, Words.words_sep (by decide)] at hw
      exact absurd Words.words_nil hw
    · have hin' : p.In LF l :=
        ⟨text ++ [c], by rw [hrest]; exact hfront, by rw [hp, List.getLastD_concat,
          List.getLastD_concat]⟩
      exact hin'.prev_eq_CR hrest (by decide)
  unfold endAt
  dsimp only
  rw [hwords] at hword hlast
  generalize (proceedInline (proceedInline (proceedInline ⟨b, l⟩).2).2).2 = d3 at hword hlast hin ⊢
  rw [show (proceedInline d3).2 = (proceedInline d3).1.skip fun c => !isspace c from rfl] at hword ⊢
  generalize (proceedInline d3).1 = p at hword hlast hin ⊢
  by_cases hlen : (words isspace l).length ≤ 3
  · have hrest := hlast (List.drop_eq_nil_of_le hlen)
    have hend : (p.skip fun c => !isspace c).rest = [LF] := by
      rw [Cur.skip_rest, hrest]
      rfl
    have heol : eol p (p.skip fun c => !isspace c) = true ↔ Ended l := by
      rw [← hprev p hin hrest, eol, hend, hrest]
      simp
    by_cases he : Ended l
    · rw [if_pos (heol.2 he), if_pos ⟨hlen, he⟩, succ_line hend]
    · rw [if_neg fun h => he (heol.1 h), if_neg fun h => he h.2]
  · rw [if_neg (show ¬ (_ ∧ Ended l) from fun h => hlen h.1), if_neg]
    intro heol
    -- A fourth word stands between the two pointers.
    obtain ⟨w, ws, hcons⟩ := List.exists_cons_of_ne_nil
      (show (words isspace l).drop 3 ≠ [] by rw [Ne, List.drop_eq_nil_iff]; exact hlen)
    have hne : w ≠ [] := by
      have hmem : w ∈ words isspace l := List.mem_of_mem_drop (i := 3) (by simp [hcons])
      simpa using (List.mem_filter.1 hmem).2
    simp only [eol, Bool.and_eq_true, beq_iff_eq] at heol
    have hdist : p.dist (p.skip fun c => !isspace c) = 0 := by
      rw [Cur.dist]
      omega
    rw [hdist, hcons] at hword
    exact hne hword.symm

/-! ## Trimmed strings -/

/-- A string between spaces is what `strstrip` leaves. -/
theorem strstrip_mid {a v c : List Byte} (ha : ∀ x ∈ a, isspace x = true)
    (hv : ∀ x ∈ v, isspace x = false) (hc : ∀ x ∈ c, isspace x = true) :
    strstrip (a ++ v ++ c) = v := by
  have hkeep : ∀ {s t : List Byte}, s ≠ [] → (∀ x ∈ s, isspace x = false) →
    (s ++ t).dropWhile isspace = s ++ t := by
    intro s t hs hall
    obtain ⟨x, s, rfl⟩ := List.exists_cons_of_ne_nil hs
    exact List.dropWhile_cons_of_neg (by simp [hall x (by simp)])
  have hfront : (a ++ v ++ c).dropWhile isspace = (v ++ c).dropWhile isspace := by
    rw [List.append_assoc, List.dropWhile_append_of_pos ha]
  rw [strstrip, hfront]
  by_cases hne : v = []
  · rw [hne, List.nil_append, List.dropWhile_eq_nil_iff.2 hc]
    rfl
  · rw [hkeep hne hv, List.reverse_append, List.dropWhile_append_of_pos (by simpa using hc)]
    have hback := hkeep (s := v.reverse) (t := []) (by simpa using hne) (by simpa using hv)
    rw [List.append_nil] at hback
    rw [hback, List.reverse_reverse]

/-- What `strstrip` takes away, on both sides, is space. -/
theorem strstrip_split (s : List Byte) :
    ∃ a c, s = a ++ strstrip s ++ c ∧ (∀ x ∈ a, isspace x = true) ∧ ∀ x ∈ c, isspace x = true := by
  refine ⟨s.takeWhile isspace, ((s.dropWhile isspace).reverse.takeWhile isspace).reverse, ?_,
    fun x hx => List.mem_takeWhile_imp hx,
      fun x hx => List.mem_takeWhile_imp (List.mem_reverse.1 hx)⟩
  have hback := congrArg List.reverse
    (List.takeWhile_append_dropWhile (p := isspace) (l := (s.dropWhile isspace).reverse))
  rw [List.reverse_append, List.reverse_reverse] at hback
  rw [strstrip, List.append_assoc, hback, List.takeWhile_append_dropWhile]

/-- The bytes of a trimmed text are bytes of the text. -/
theorem strstrip_subset (s : List Byte) : strstrip s ⊆ s := by
  obtain ⟨a, c, hs, -, -⟩ := strstrip_split s
  intro x hx
  rw [hs]
  simp [hx]

/-- A trimmed text is not longer than the text. -/
theorem strstrip_length_le (s : List Byte) : (strstrip s).length ≤ s.length := by
  obtain ⟨a, c, hs, -, -⟩ := strstrip_split s
  have := congrArg List.length hs
  rw [List.length_append, List.length_append] at this
  omega

/-! ## The lines of the header -/

/-- The key of a header line, as it stands there. -/
def keyRaw (l : List Byte) : List Byte := (l.dropWhile issp).takeWhile (· != COLON)

/-- The value of a header line, as it stands there. -/
def valRaw (l : List Byte) : List Byte := ((l.dropWhile issp).dropWhile (· != COLON)).tail.dropLast

/-- The key that the parser reads. -/
def keyOf (l : List Byte) : List Byte := strstrip (strncpy0 (keyRaw l) HDR_KEYSZ)

/-- The value that the parser reads. -/
def valOf (l : List Byte) : List Byte := strstrip (strncpy0 (valRaw l) HDR_VALSZ)

/-- A key has no NUL. -/
theorem keyOf_clean (l : List Byte) : 0 ∉ keyOf l := fun h => cstr_clean _ (strstrip_subset _ h)

/-- A value has no NUL. -/
theorem valOf_clean (l : List Byte) : 0 ∉ valOf l := fun h => cstr_clean _ (strstrip_subset _ h)

/-- The line has a colon, and something other than spaces in front of it. -/
def Keyed (l : List Byte) : Prop := COLON ∈ l ∧ (l.dropWhile issp).head? ≠ some COLON

/-- `Keyed` is decidable. -/
instance (l : List Byte) : Decidable (Keyed l) := inferInstanceAs (Decidable (_ ∧ _))

/-- A blank line: there are spaces only. -/
def blank (l : List Byte) : Bool := l.dropWhile issp == [LF]

/-- The pointers around a line behind the request line. -/
theorem proceedLine_rest (hl : IsLine LF l) (b : Byte) :
    (proceedLine ⟨b, l⟩).1.rest = l.dropWhile issp ∧ (proceedLine ⟨b, l⟩).2.rest = [LF] :=
  ⟨rfl, line_suffix hl (List.dropWhile_suffix _) (mem_dropWhile issp_LF (lf_mem_line hl))⟩

/-- The test for the end of the head. -/
theorem eol_text (hl : IsLine LF l) (b : Byte) :
    eol (proceedLine ⟨b, l⟩).1 (proceedLine ⟨b, l⟩).2 =
      (blank l && l.dropLast.getLastD b == CR) := by
  obtain ⟨hp, hd⟩ := proceedLine_rest hl b
  obtain ⟨front, hfront, hprev⟩ := (Cur.in_start b l).skip issp
  have hprev : (proceedLine ⟨b, l⟩).1.prev = front.getLastD b := hprev
  have hfront : front ++ l.dropWhile issp = l := hfront
  rw [eol, hp, hd, hprev]
  cases hb : blank l with
  | true =>
    have hrest : l.dropWhile issp = [LF] := eq_of_beq hb
    rw [hrest] at hfront ⊢
    rw [← hfront, List.dropLast_concat]
    simp
  | false =>
    have hrest : l.dropWhile issp ≠ [LF] := by simpa [blank] using hb
    rw [Bool.false_and, Bool.and_eq_false_iff, Bool.and_eq_false_iff]
    by_contra hall
    simp only [not_or, Bool.not_eq_false, beq_iff_eq] at hall
    obtain ⟨c, hc⟩ := List.length_eq_one_iff.1 hall.1.1
    rw [hc, List.head?_cons] at hall
    rw [hc, Option.some.inj hall.2] at hrest
    exact hrest rfl

/-- A line has a colon if the search for it ends before the line does. -/
theorem colon_dropWhile (hl : IsLine LF l) {bs : List Byte} (hs : bs <:+ l) (hmem : LF ∈ bs) :
    (COLON ∈ bs → (bs.takeWhile fun c => c != COLON && c != LF) = bs.takeWhile (· != COLON) ∧
        (bs.dropWhile fun c => c != COLON && c != LF) = bs.dropWhile (· != COLON) ∧
        (bs.dropWhile (· != COLON)).head? = some COLON) ∧
      (COLON ∉ bs → (bs.dropWhile fun c => c != COLON && c != LF).head? = some LF) := by
  obtain ⟨text, ht, hno⟩ := hl
  obtain ⟨front, hfront⟩ := hs
  obtain ⟨text', rfl⟩ : ∃ text', bs = text' ++ [LF] := by
    rcases List.eq_nil_or_concat' bs with rfl | ⟨text', c, rfl⟩
    · simp at hmem
    · rw [← List.append_assoc, ht] at hfront
      exact ⟨text', by rw [(List.append_inj' hfront rfl).2]⟩
  have hno' : LF ∉ text' := fun h => hno (by
    rw [← List.append_assoc, ht] at hfront
    exact (List.append_inj' hfront rfl).1 ▸ List.mem_append_right _ h)
  clear hmem hfront ht hno
  induction text' with
  | nil => exact ⟨fun h => by simp [COLON, LF] at h, fun _ => rfl⟩
  | cons c cs ih =>
    rw [List.mem_cons, not_or] at hno'
    have hc : (c != LF) = true := by simpa using Ne.symm hno'.1
    by_cases hcolon : c = COLON
    · subst hcolon
      simp
    · have hc' : (c != COLON) = true := by simpa using hcolon
      have hmem : COLON ∈ c :: cs ++ [LF] ↔ COLON ∈ cs ++ [LF] := by simp [Ne.symm hcolon]
      obtain ⟨ih1, ih2⟩ := ih hno'.2
      rw [hmem]
      simp only [List.cons_append, List.takeWhile_cons, List.dropWhile_cons, hc,
        hc', Bool.and_self, if_true,
        List.cons.injEq, true_and]
      exact ⟨ih1, ih2⟩

/-- A header line, with its key and its value. -/
theorem parseHeader_text (hl : IsLine LF l) (r : Req) (b : Byte) :
    parseHeader r (proceedLine ⟨b, l⟩).1 (proceedLine ⟨b, l⟩).2 =
      if Keyed l then
        match parseField r (keyOf l) (valOf l) with
        | some r' => (.ok ⟨LF, []⟩, r')
        | none => refuse r 400
      else refuse r 400 := by
  obtain ⟨hp, hd⟩ := proceedLine_rest hl b
  have hmem : LF ∈ l.dropWhile issp := mem_dropWhile issp_LF (lf_mem_line hl)
  obtain ⟨hyes, hno⟩ := colon_dropWhile hl (List.dropWhile_suffix issp) hmem
  -- The blanks in front of the key have no colon.
  have hcolon : COLON ∈ l.dropWhile issp ↔ COLON ∈ l := by
    refine ⟨fun h => (List.dropWhile_suffix _).subset h, fun h => ?_⟩
    rw [← List.takeWhile_append_dropWhile (p := issp) (l := l), List.mem_append] at h
    refine h.resolve_left fun ht => ?_
    exact absurd (List.mem_takeWhile_imp ht) (by decide)
  have hq : ((proceedLine ⟨b, l⟩).1.skip fun c => c != COLON && c != LF).rest =
      (l.dropWhile issp).dropWhile fun c => c != COLON && c != LF := rfl
  unfold parseHeader
  dsimp only
  rw [succ_line hd, strncpy0_min, strncpy0_min, Cur.take_dist, Cur.dist_skip, Cur.dist, hq, hd, hp]
  by_cases hc : COLON ∈ l
  · obtain ⟨htake, hdrop, hhead⟩ := hyes (hcolon.2 hc)
    have hval : ((l.dropWhile issp).dropWhile (· != COLON)).tail.take
        (((l.dropWhile issp).dropWhile (· != COLON)).length - [LF].length - 1) = valRaw l := by
      rw [valRaw, List.dropLast_eq_take, List.length_tail]
      rfl
    have hkey : keyRaw l = [] ↔ (l.dropWhile issp).head? = some COLON := by
      obtain ⟨c, cs, hcons⟩ := List.exists_cons_of_ne_nil (List.ne_nil_of_mem hmem)
      rw [keyRaw, hcons]
      by_cases hcol : c = COLON <;> simp [hcol]
    rw [htake, hdrop, hhead, hval, show (l.dropWhile issp).takeWhile (· != COLON) =
      keyRaw l from rfl]
    by_cases hk : keyRaw l = []
    · rw [if_pos (by simp [hk]), if_neg fun h : Keyed l => h.2 (hkey.1 hk)]
    · rw [if_neg (by simp [hk]), if_pos ⟨hc, fun h => hk (hkey.2 h)⟩, keyOf, valOf]
      cases parseField r (strstrip (strncpy0 (keyRaw l) HDR_KEYSZ))
        (strstrip (strncpy0 (valRaw l) HDR_VALSZ)) <;> rfl
  · rw [if_neg fun h : Keyed l => hc h.1, if_pos]
    rw [hno fun h => hc (hcolon.1 h)]
    simp [COLON, LF]

/-- No key stands in a blank line. -/
theorem not_keyed_of_blank (hb : blank l = true) : ¬ Keyed l := by
  have hrest : l.dropWhile issp = [LF] := eq_of_beq hb
  rintro ⟨hmem, -⟩
  rw [← List.takeWhile_append_dropWhile (p := issp) (l := l), hrest, List.mem_append] at hmem
  rcases hmem with h | h
  · exact absurd (List.mem_takeWhile_imp h) (by decide)
  · simp [COLON, LF] at h

/-- A line behind the request line. -/
theorem parseLine_text (hl : IsLine LF l) (r : Req) (b : Byte) :
    parseLine r ⟨b, l⟩ =
      if blank l then
        if l.dropLast.getLastD b = CR then parseEnd r ⟨CR, [LF]⟩ else refuse r 400
      else if Keyed l then
        match parseField r (keyOf l) (valOf l) with
        | some r' => (.ok ⟨LF, []⟩, r')
        | none => refuse r 400
      else refuse r 400 := by
  have hend : ∀ d d' : Cur, d.rest = [LF] → d'.rest = [LF] → parseEnd r d = parseEnd r d' :=
    fun d d' h h' => by
    rw [parseEnd, parseEnd, succ_line h, succ_line h']
  rw [parseLine, eol_text hl, parseHeader_text hl]
  cases hb : blank l with
  | true =>
    have hno := not_keyed_of_blank hb
    by_cases hcr : l.dropLast.getLastD b = CR
    · rw [if_pos (by rw [hcr]; rfl), if_pos rfl, if_pos hcr,
        hend _ ⟨CR, [LF]⟩ (proceedLine_rest hl b).2 rfl]
    · rw [if_neg (by simpa using hcr), if_pos rfl, if_neg hcr, if_neg hno]
  | false => rw [Bool.false_and, if_neg Bool.false_ne_true, if_neg Bool.false_ne_true]

/-! ## One line more -/

/-- A line that is not blank is parsed as a field, or refused. -/
theorem Head.feed_field (hl : IsLine LF l) (hr : r.phase = .header) (hb : blank l = false) (u : ℕ)
    (b : Byte) :
    Head.feedFrom ⟨none, r, u⟩ b l =
      match (if Keyed l then parseField r (keyOf l) (valOf l) else none) with
      | some r' => ⟨none, r', u + l.length⟩
      | none => ⟨some 400, { r with phase := .abort }, u + l.length⟩ := by
  rw [Head.feedFrom, if_pos (show Head.Open ⟨none, r, u⟩ from ⟨rfl, .inr hr⟩),
    parsePhases_header hr hl,
    parseLine_text hl, hb, if_neg Bool.false_ne_true]
  split_ifs
  · cases parseField r (keyOf l) (valOf l) <;> rfl
  · rfl

/-- A blank line ends the head, or is refused when its line feed is alone. -/
theorem Head.feed_end (hl : IsLine LF l) (hr : r.phase = .header) (hb : blank l = true) (u : ℕ)
    (b : Byte) :
    Head.feedFrom ⟨none, r, u⟩ b l =
      if l.dropLast.getLastD b ≠ CR then ⟨some 400, { r with phase := .abort }, u + l.length⟩
      else if r.method = .post ∧
        r.clen < 0 then ⟨some 411, { r with phase := .abort }, u + l.length⟩
      else ⟨none, { r with phase := .body, clen := max r.clen 0, rsize := max r.clen 0 },
        u + l.length⟩ := by
  rw [Head.feedFrom, if_pos (show Head.Open ⟨none, r, u⟩ from ⟨rfl, .inr hr⟩),
    parsePhases_header hr hl,
    parseLine_text hl, hb, if_pos rfl]
  by_cases hcr : l.dropLast.getLastD b = CR
  · rw [if_pos hcr, if_neg (not_not.2 hcr), parseEnd]
    dsimp only
    by_cases hc : r.clen < 0
    · rw [if_pos hc, max_eq_right hc.le]
      by_cases hm : r.method = .post
      · rw [if_pos hm, if_pos ⟨hm, hc⟩]
        rfl
      · rw [if_neg hm, if_neg fun h => hm h.1]
    · rw [if_neg hc, if_neg fun h => hc h.2, max_eq_left (not_lt.1 hc)]
  · rw [if_neg hcr, if_pos hcr]
    rfl

/-- The byte in front of the end of a line behind another. -/
theorem ended_iff (hl : IsLine LF l) : l.dropLast.getLastD LF = CR ↔ Ended l := by
  obtain ⟨text, rfl, -⟩ := hl
  rw [List.dropLast_concat, ← Cur.In.prev_eq_CR (d := ⟨text.getLastD LF, [LF]⟩) ⟨text,
    rfl, rfl⟩ rfl (by decide)]

end Liso
