import Liso.Parse.Text

/-!
# The grammar of a request head

`headGrammar` reads a buffer line by line: its request line by the words in it, the lines behind it
by their keys and values, up to a blank line. It says what `req_parse` returns and the phase that it
leaves (`reqParse_outcome`), as long as no host goes over the fields behind it.
-/

namespace Liso

open Cut (IsLine lines)
open Words (words)

variable {r r' : Req} {key val l : List Byte} {ls : List (List Byte)} {b : Byte}

/-! ## The grammar -/

/-- The key of a header line: its first `HDR_KEYSZ` bytes, trimmed. -/
def keyText (l : List Byte) : List Byte := strstrip ((keyRaw l).take HDR_KEYSZ)

/-- The value of a header line: its first `HDR_VALSZ` bytes, trimmed. -/
def valText (l : List Byte) : List Byte := strstrip ((valRaw l).take HDR_VALSZ)

/-- The lines behind the request line. `post` is whether the method is POST, `clen` the length of
the body as far as it is known, and `used` the number of bytes before. -/
def fieldsGrammar (post : Prop) [Decidable post] : ℤ → ℕ → List (List Byte) → ℤ × ReqPhase
  | _, used, [] => (used, .header)
  | clen, used, l :: ls =>
    if blank l then
      if ¬ Ended l then (-400, .abort)
      else if post ∧ clen < 0 then (-411, .abort)
      else (used + l.length, .body)
    else if ¬ Keyed l then (-400, .abort)
    else if ¬ strcaseeq (keyText l) (str "Content-Length") then fieldsGrammar post clen
      (used + l.length) ls
    else if ¬ isnum (valText l) then (-400, .abort)
    else fieldsGrammar post (atoi (valText l)) (used + l.length) ls

/-- What `req_parse` returns for a buffer, and the phase behind it; `clen` is the length of the body
as far as it is known before. -/
def headGrammar (clen : ℤ) (buf : List Byte) : ℤ × ReqPhase :=
  match lines LF buf with
  | [] => (0, .start)
  | l :: ls =>
    if words isspace l = [] then (-400, .abort)
    else match lineMethod l with
      | none => (-501, .abort)
      | some m =>
        if 3 < (words isspace l).length ∨ ¬ Ended l then (-400, .abort)
        else fieldsGrammar (m = .post) clen l.length ls

/-! ## The fields of a header -/

/-- A `Content-Length` is taken when it has digits only. -/
theorem parseField_length (h : strcaseeq key (str "Content-Length") = true) (r : Req)
    (val : List Byte) :
    parseField r key val = if isnum val then some { r with clen := atoi val } else none := by
  have hhost : strcaseeq key (str "Host") = false := by
    have hmap : key.map tolower = (str "Content-Length").map tolower := eq_of_beq h
    rw [strcaseeq, hmap]
    decide +kernel
  rw [parseField, hhost, h]
  rfl

/-- Any other field leaves the length, the method and the phase. -/
theorem parseField_other (h : strcaseeq key (str "Content-Length") = false) (r : Req)
    (val : List Byte) :
    ∃ r', parseField r key val = some r' ∧ r'.clen = r.clen ∧ r'.method = r.method ∧
      r'.phase = r.phase := by
  unfold parseField
  rw [h, if_neg (Bool.false_ne_true)]
  split_ifs <;> exact ⟨_, rfl, rfl, rfl, rfl⟩

/-- A field is refused for its key and its value. -/
theorem parseField_isSome (r : Req) (key val : List Byte) :
    (parseField r key val).isSome =
      (strcaseeq key (str "Host") || !strcaseeq key (str "Content-Length") || isnum val) := by
  unfold parseField
  split_ifs <;> simp_all

/-- Only a `Host` field is copied without a bound. -/
theorem parseField_overrun {r' : Req} (h : parseField r key val = some r') :
    r'.overrun =
      (r.overrun || (strcaseeq key (str "Host") && decide (REQ_HOSTSZ < val.length))) := by
  unfold parseField at h
  split_ifs at h with hhost
  · rw [← Option.some.inj h, hhost]
    rfl
  all_goals
    rw [← Option.some.inj h]
    try split_ifs
    all_goals simp [hhost]

/-- Without a null byte, the parser reads the whole key and the whole value. -/
theorem keyOf_text (hnul : 0 ∉ l) : keyOf l = keyText l ∧ valOf l = valText l := by
  have hkey : 0 ∉ keyRaw l :=
    fun h => hnul ((List.dropWhile_suffix _).subset ((List.takeWhile_prefix _).subset h))
  have hval : 0 ∉ valRaw l := fun h => hnul ((List.dropWhile_suffix _).subset
    ((List.dropWhile_suffix _).subset (List.mem_of_mem_tail (List.mem_of_mem_dropLast h))))
  rw [keyOf, valOf, strncpy0_eq_take hkey, strncpy0_eq_take hval]
  exact ⟨rfl, rfl⟩

/-! ## The parser follows the grammar -/

/-- What `req_parse` returns, and the phase behind it. -/
def Head.outcome (h : Head) : ℤ × ReqPhase := (h.parsed.1, h.parsed.2.phase)

/-- What is behind a head that is over does not change its outcome. -/
theorem Head.outcome_closed {h : Head} (hc : ¬ h.Open) (ls : List (List Byte)) :
    (ls.foldl Head.feed h).outcome = h.outcome := by rw [Head.feed_closed hc]

/-- The outcome of the header lines is that of their grammar. -/
theorem fields_outcome (hls : ∀ l ∈ ls, IsLine LF l ∧ 0 ∉ l) (hr : r.phase = .header) (u : ℕ) :
    (ls.foldl Head.feed ⟨none, r, u⟩).outcome = fieldsGrammar (r.method = .post) r.clen u ls := by
  induction ls generalizing r u with
  | nil =>
    rw [List.foldl_nil, Head.outcome, Head.parsed, fieldsGrammar, hr]
  | cons l ls ih =>
    obtain ⟨hl, hnul⟩ := hls l (by simp)
    have ih := fun {r} => ih (r := r) fun l hl => hls l (List.mem_cons_of_mem _ hl)
    obtain ⟨hkey, hval⟩ := keyOf_text hnul
    -- A head that is complete or refused takes no more lines.
    have hrefuse : ∀ st : ℤ,
      (ls.foldl Head.feed ⟨some st, { r with phase := .abort }, u + l.length⟩).outcome =
        (-st, .abort) := fun st => Head.outcome_closed (fun h => by simp [Head.Open] at h) ls
    rw [List.foldl_cons, Head.feed, fieldsGrammar]
    cases hb : blank l with
    | true =>
      rw [Head.feed_end hl hr hb, if_pos rfl]
      by_cases he : Ended l
      · rw [if_neg (not_not.2 ((ended_iff hl).2 he)), if_neg (not_not.2 he)]
        split
        · exact hrefuse 411
        · rw [Head.outcome_closed fun h => by simp [Head.Open] at h, Head.outcome, Head.parsed]
          simp
      · rw [if_pos fun h => he ((ended_iff hl).1 h), if_pos he]
        exact hrefuse 400
    | false =>
      rw [Head.feed_field hl hr hb, hkey, hval, if_neg Bool.false_ne_true]
      by_cases hk : Keyed l
      · rw [if_pos hk, if_neg (not_not.2 hk)]
        cases hc : strcaseeq (keyText l) (str "Content-Length") with
        | true =>
          have hset := parseField_length hc r (valText l)
          rw [if_neg (not_not.2 rfl)]
          generalize atoi (valText l) = n at hset ⊢
          cases hn : isnum (valText l) with
          | true =>
            rw [hn, if_pos rfl] at hset
            rw [hset, if_neg (not_not.2 rfl)]
            exact ih (r := { r with clen := n }) hr _
          | false =>
            rw [hn, if_neg Bool.false_ne_true] at hset
            rw [hset, if_pos Bool.false_ne_true]
            exact hrefuse 400
        | false =>
          obtain ⟨r', hr', hclen, hmethod, hphase⟩ := parseField_other hc r (valText l)
          rw [hr', if_pos Bool.false_ne_true, ← hclen, ← hmethod]
          exact ih (hphase.trans hr) _
      · rw [if_neg hk, if_pos hk]
        exact hrefuse 400

/-- What the parser returns and the phase that it leaves are those of the grammar. -/
theorem reqParse_outcome (b : Byte) {r : Req} {buf : List Byte} (hr : r.phase = .start)
    (hnul : 0 ∉ buf) (hend : buf.getLast? = some LF) :
    ((reqParse b r buf).1, (reqParse b r buf).2.phase) = headGrammar r.clen buf := by
  have hbuf := Cut.flatten_lines_of_last hend
  have hls : ∀ l ∈ lines LF buf, IsLine LF l ∧ 0 ∉ l := fun l hl =>
    ⟨Cut.isLine_of_mem hl, fun h => hnul (hbuf ▸ List.mem_flatten.2 ⟨l, hl, h⟩)⟩
  have hne : lines LF buf ≠ [] := Cut.lines_ne_nil hend
  have hout : ((reqParse b r buf).1, (reqParse b r buf).2.phase) =
      ((lines LF buf).foldl Head.feed ⟨none, r, 0⟩).outcome := by
    have hparse := reqParse_lines (fun l hl => (hls l hl).1) hne (.inl hr) (b := b) (.inl hr)
    rw [hbuf] at hparse
    rw [hparse, Head.outcome]
  rw [hout, headGrammar]
  obtain ⟨l, ls, hcons⟩ := List.exists_cons_of_ne_nil hne
  rw [hcons] at hls ⊢
  obtain ⟨hl, hnull⟩ := hls l (by simp)
  -- What stands behind a refused line changes nothing.
  have hrefuse : ∀ (r' : Req) (st : ℤ) (u : ℕ),
    (ls.foldl Head.feed ⟨some st, { r' with phase := .abort }, u⟩).outcome =
      (-st, .abort) := fun r' st u => Head.outcome_closed (fun h => by simp [Head.Open] at h) ls
  rw [List.foldl_cons, Head.feed, Head.feedFrom,
    if_pos (show Head.Open ⟨none, r, 0⟩ from ⟨rfl, .inl hr⟩),
    parsePhases_start hr hl]
  dsimp only
  by_cases hw : words isspace l = []
  · rw [if_pos hw, parseStart_words hl hw]
    exact hrefuse r 400 _
  · rw [if_neg hw]
    cases hm : lineMethod l with
    | none =>
      rw [parseStart_method hl hnull hw hm]
      exact hrefuse r 501 _
    | some m =>
      rw [parseStart_some ((methodAt_text hl hnull LF).trans hm), endAt_text hl hw]
      dsimp only
      by_cases he : (words isspace l).length ≤ 3 ∧ Ended l
      · rw [if_pos he, if_neg (not_or.2 ⟨not_lt.2 he.1, not_not.2 he.2⟩)]
        have hline := Req.line_eq r m (targetAt ⟨LF, l⟩)
        generalize (r.named m (targetAt ⟨LF, l⟩)).absolute.split = r1 at hline ⊢
        have hmethod : r1.method = m := by rw [hline]
        have hclen : r1.clen = r.clen := by rw [hline]
        rw [← hmethod, ← hclen, Nat.zero_add]
        exact fields_outcome (r := { r1 with version := versionAt ⟨LF, l⟩, phase := .header })
          (fun l hl => hls l (List.mem_cons_of_mem _ hl)) rfl l.length
      · rw [if_neg he, if_pos (by rwa [not_and_or, not_le] at he)]
        exact hrefuse _ 400 _

/-- A head that the grammar accepts has a length. -/
theorem headGrammar_nonneg {clen : ℤ} {buf : List Byte} (h : (headGrammar clen buf).2 = .body) :
    0 ≤ (headGrammar clen buf).1 := by
  have hfields : ∀ (post : Prop) [Decidable post] (ls : List (List Byte)) (clen : ℤ) (used : ℕ),
      (fieldsGrammar post clen used ls).2 = .body → 0 ≤ (fieldsGrammar post clen used ls).1 := by
    intro post _ ls
    induction ls with
    | nil => intro clen used h; simp [fieldsGrammar] at h
    | cons l ls ih =>
      intro clen used h
      unfold fieldsGrammar at h ⊢
      split_ifs at h ⊢
      · dsimp only
        omega
      · exact ih _ _ h
      · exact ih _ _ h
  unfold headGrammar at h ⊢
  cases hls : lines LF buf with
  | nil => simp
  | cons l ls =>
    rw [hls] at h
    dsimp only at h ⊢
    split_ifs at h ⊢
    · cases hm : lineMethod l <;> simp [hm] at h
    · cases hm : lineMethod l with
      | none => simp [hm] at h
      | some m =>
        rw [hm] at h
        exact hfields _ _ _ _ h

end Liso
