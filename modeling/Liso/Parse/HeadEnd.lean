import Liso.Parse.Incremental
import Liso.Parse.Text

/-!
# Where the head ends

The head of a stream is what stands in front of the end of its first blank line (`headOf`). When
every line feed of the head has a carriage return in front of it, the parser agrees: it goes on
while the lines are not blank, and a blank line behind the request line is the last one that it
reads (`scanHead_used`).
-/

namespace Liso

open Cut (IsLine lines rest whole)

variable {r : Req} {x y : List Byte} {l : List Byte} {ls : List (List Byte)}

/-- The lines up to the first blank one. -/
def headLines : List (List Byte) → List (List Byte)
  | [] => []
  | l :: ls => if blank l then [l] else l :: headLines ls

/-- The head of a stream: the bytes through the first blank line, or the whole stream if there is
none. -/
def headOf (stream : List Byte) : List Byte :=
  if (lines LF stream).any blank then (headLines (lines LF stream)).flatten else stream

/-- Every line feed has a carriage return in front of it. -/
def Crlf (bs : List Byte) : Prop := ∀ a b, bs = a ++ LF :: b → a.getLast? = some CR

/-- The line feeds are looked up one by one. -/
theorem crlf_iff (bs : List Byte) :
    Crlf bs ↔ ∀ i < bs.length, bs[i]? = some LF → (bs.take i).getLast? = some CR := by
  constructor
  · intro h i hi hget
    obtain ⟨_, hget⟩ := List.getElem?_eq_some_iff.1 hget
    exact h (bs.take i) (bs.drop (i + 1))
      (by rw [← hget, ← List.drop_eq_getElem_cons, List.take_append_drop])
  · rintro h a b rfl
    have := h a.length (by simp) (by simp)
    rwa [List.take_left] at this

/-- `Crlf` is decidable. -/
instance (bs : List Byte) : Decidable (Crlf bs) := decidable_of_iff _ (crlf_iff bs).symm

/-! ## The lines of the head -/

/-- The complete lines of such a stream. -/
theorem Crlf.ended (h : Crlf ls.flatten) (hls : ∀ l ∈ ls, IsLine LF l) : ∀ l ∈ ls, Ended l := by
  intro l hl
  obtain ⟨front, back, rfl⟩ := List.append_of_mem hl
  obtain ⟨text, rfl, -⟩ := hls l hl
  have hlast := h (front.flatten ++ text) back.flatten (by simp)
  rcases List.eq_nil_or_concat' text with rfl | ⟨text', b, rfl⟩
  · -- The line before ends in a line feed.
    rw [List.append_nil] at hlast
    rcases List.eq_nil_or_concat' front with rfl | ⟨front', l', rfl⟩
    · simp at hlast
    · obtain ⟨text', rfl, -⟩ := hls l' (by simp)
      rw [List.flatten_append, List.flatten_singleton, ← List.append_assoc, List.getLast?_concat]
        at hlast
      exact absurd (Option.some.inj hlast) (by decide)
  · rw [← List.append_assoc, List.getLast?_concat, Option.some.injEq] at hlast
    exact ⟨text', by rw [hlast, List.append_assoc]; rfl⟩

/-- A prefix of such a stream is one too. -/
theorem Crlf.prefix (h : Crlf y) (hx : x <+: y) : Crlf x := by
  obtain ⟨t, rfl⟩ := hx
  intro a b hab
  exact h a (b ++ t) (by rw [hab, List.append_assoc]; rfl)

/-- The lines of the head are the first ones. -/
theorem headLines_begins (ls : List (List Byte)) : headLines ls <+: ls := by
  induction ls with
  | nil => exact List.prefix_rfl
  | cons l ls ih =>
    rw [headLines]
    split
    · exact ⟨ls, rfl⟩
    · exact List.cons_prefix_cons.2 ⟨rfl, ih⟩

/-- Lines that are not blank do not end the head. -/
theorem headLines_append {ls ls' : List (List Byte)} (h : ∀ l ∈ ls, blank l = false) :
    headLines (ls ++ ls') = ls ++ headLines ls' := by
  induction ls with
  | nil => rfl
  | cons l ls ih =>
    rw [List.cons_append, headLines, if_neg (by simp [h l (by simp)]),
      ih fun l hl => h l (List.mem_cons_of_mem _ hl)]
    rfl

/-- The lines of the head are the same for the stream and for its head. -/
theorem headLines_flatten_begins (stream : List Byte) :
    (headLines (lines LF stream)).flatten <+: headOf stream := by
  unfold headOf
  split
  · exact List.prefix_rfl
  · refine List.IsPrefix.trans (List.IsPrefix.flatten (headLines_begins _)) ?_
    exact ⟨rest LF stream, Cut.flatten_lines LF stream⟩

/-- In a stream whose head has only complete line ends, the lines of the head end in both bytes. -/
theorem Crlf.head (h : Crlf (headOf x)) : ∀ l ∈ headLines (lines LF x), Ended l := by
  have hpre := h.prefix (headLines_flatten_begins x)
  exact hpre.ended fun l hl => Cut.isLine_of_mem ((headLines_begins _).subset hl)

/-- The lines of the head that were received. -/
theorem headLines_subset (ls ls' : List (List Byte)) : headLines ls ⊆ headLines (ls ++ ls') := by
  induction ls with
  | nil => exact List.nil_subset _
  | cons l ls ih =>
    rw [List.cons_append, headLines, headLines]
    split
    · exact List.Subset.refl _
    · exact List.cons_subset_cons l ih

/-- The head's lines that were received of such a stream end in both bytes too. -/
theorem Crlf.head_left (h : Crlf (headOf (x ++ y))) : ∀ l ∈ headLines (lines LF x), Ended l := by
  intro l hl
  refine h.head l ?_
  rw [Cut.lines_append]
  exact headLines_subset _ _ hl

/-! ## The parser on a line of the head -/

/-- Such a line does not begin with the line feed. -/
theorem Ended.head_ne (h : Ended l) (hl : IsLine LF l) : l.head? ≠ some LF := by
  obtain ⟨text, rfl⟩ := h
  obtain ⟨text', ht, hno⟩ := hl
  cases text with
  | nil => decide
  | cons b text =>
    rintro hb
    rw [List.cons_append, List.head?_cons, Option.some.injEq] at hb
    have hmem : LF ∈ text' := by
      have hsplit : (b :: text) ++ [CR] ++ [LF] = text' ++ [LF] := by
        rw [← ht, List.append_assoc]; rfl
      rw [← (List.append_inj' hsplit rfl).1, hb]
      simp
    exact hno hmem

/-- The test for the end of the head. -/
theorem eol_eq_blank (h : Ended l) (hl : IsLine LF l) (b : Byte) :
    eol (proceedLine ⟨b, l⟩).1 (proceedLine ⟨b, l⟩).2 = blank l := by
  obtain ⟨text, rfl⟩ := h
  have hlast : (text ++ [CR, LF]).dropLast.getLastD b = CR := by
    rw [show text ++ [CR, LF] = text ++ [CR] ++ [LF] by rw [List.append_assoc]; rfl,
      List.dropLast_concat,
      List.getLastD_concat]
  rw [eol_text hl, hlast]
  exact Bool.and_true _

/-- A blank line is no request line. -/
theorem parseStart_blank (h : blank l = true) (r : Req) (b : Byte) :
    ∃ r', parseStart r ⟨b, l⟩ = (.error 400, r') := by
  have hdrop : l.dropWhile issp = [LF] := eq_of_beq h
  have hp : (proceedInline ⟨b, l⟩).1.rest = [LF] := hdrop
  have hd : (proceedInline ⟨b, l⟩).2.rest = [LF] := by
    show (l.dropWhile issp).dropWhile (fun c => !isspace c) = [LF]
    rw [hdrop]
    decide
  refine ⟨{ r with phase := .abort }, ?_⟩
  unfold parseStart
  dsimp only
  rw [Cur.dist, hp, hd]
  rfl

/-- The parser goes on behind lines that are not blank, and a blank line is the last one. -/
theorem Head.feed_blank {h : Head} (ho : h.Open) (he : Ended l) (hl : IsLine LF l) :
    ((h.feed l).Open → blank l = false) ∧
      ((h.feed l).status = none → (h.feed l).req.phase = .body → blank l = true) := by
  rw [Head.feed, Head.feedFrom, if_pos ho]
  rcases ho.2 with hstart | hheader
  · rw [parsePhases_start hstart hl]
    rcases hline : parseStart h.req ⟨LF, l⟩ with ⟨st | d, r'⟩
    · exact ⟨fun h => by simp [Head.Open] at h, fun h => by simp at h⟩
    · refine ⟨fun _ => ?_, fun _ hbody => ?_⟩
      · cases hb : blank l with
        | false => rfl
        | true =>
          obtain ⟨r1, hr1⟩ := parseStart_blank hb h.req LF
          rw [hr1] at hline
          simp at hline
      · rw [(parseStart_ok hl hline).2] at hbody
        simp at hbody
  · rw [parsePhases_header hheader hl, parseLine, eol_eq_blank he hl]
    cases hb : blank l with
    | true =>
      rw [if_pos rfl]
      refine ⟨fun hopen => ?_, fun _ _ => rfl⟩
      rcases hend : parseEnd h.req (proceedLine ⟨LF, l⟩).2 with ⟨st | d, r'⟩ <;> rw [hend] at hopen
      · simp [Head.Open] at hopen
      · simp [Head.Open, (parseEnd_ok hend).2] at hopen
    | false =>
      rw [if_neg (by simp)]
      refine ⟨fun _ => rfl, ?_⟩
      rcases hhdr :
        parseHeader h.req (proceedLine ⟨LF, l⟩).1 (proceedLine ⟨LF, l⟩).2 with ⟨st | d, r'⟩
      · simp
      · simp [(parseHeader_ok hhdr).2, hheader]

/-- The parser has not met a blank line while the head is open. -/
theorem Head.foldl_open {h : Head} (he : ∀ l ∈ headLines ls, Ended l) (hls : ∀ l ∈ ls, IsLine LF l)
    (ho : (ls.foldl Head.feed h).Open) : ∀ l ∈ ls, blank l = false := by
  induction ls generalizing h with
  | nil => simp
  | cons l ls ih =>
    rw [List.foldl_cons] at ho
    have hfeed : (h.feed l).Open := by
      by_contra hc
      rw [Head.feed_closed hc] at ho
      exact hc ho
    have hopen : h.Open := by
      by_contra hc
      rw [Head.feed, Head.feedFrom, if_neg hc] at hfeed
      exact hc hfeed
    have hl : Ended l := by
      refine he l ?_
      rw [headLines]
      split <;> simp
    have hb := (Head.feed_blank hopen hl (hls l (by simp))).1 hfeed
    rw [headLines, if_neg (by simp [hb])] at he
    intro l' hl'
    rcases List.mem_cons.1 hl' with rfl | hl'
    · exact hb
    · exact ih (fun l h => he l (by simp [h])) (fun l h => hls l (by simp [h])) ho l' hl'

/-- When the parser stands in the body, it has read the lines through the first blank one. -/
theorem Head.foldl_body {h : Head} (hopen : h.Open) (he : ∀ l ∈ headLines ls, Ended l)
    (hls : ∀ l ∈ ls, IsLine LF l) (hs : (ls.foldl Head.feed h).status = none)
    (hb : (ls.foldl Head.feed h).req.phase = .body) :
    ls.any blank = true ∧ (ls.foldl Head.feed h).used = h.used + (headLines ls).flatten.length := by
  induction ls generalizing h with
  | nil => rcases hopen.2 with hp | hp <;> rw [List.foldl_nil, hp] at hb <;> simp at hb
  | cons l ls ih =>
    rw [List.foldl_cons] at hs hb ⊢
    have hl : Ended l := by
      refine he l ?_
      rw [headLines]
      split <;> simp
    have hfeed := Head.feed_blank hopen hl (hls l (by simp))
    have hused : (h.feed l).used = h.used + l.length := by
      rw [Head.feed, Head.feedFrom, if_pos hopen]
      split <;> rfl
    by_cases ho : (h.feed l).Open
    · have hnb := hfeed.1 ho
      rw [headLines, if_neg (by simp [hnb])] at he ⊢
      obtain ⟨hany, hlen⟩ :=
        ih ho (fun l h => he l (by simp [h])) (fun l h => hls l (by simp [h])) hs hb
      rw [hlen, hused, List.flatten_cons, List.length_append]
      exact ⟨by simp [hany], by omega⟩
    · rw [Head.feed_closed ho] at hs hb ⊢
      have hbl := hfeed.2 hs hb
      rw [headLines, if_pos hbl]
      exact ⟨by simp [hbl], by simp [hused]⟩

/-! ## The parser on a stream -/

/-- The parser has read the head, and nothing behind it. -/
theorem scanHead_used (hr : r.phase = .start) (h : Crlf (headOf x))
    (hs : (scanHead r x).status = none) (hb : (scanHead r x).req.phase = .body) :
    (scanHead r x).used = (headOf x).length := by
  obtain ⟨hany, hlen⟩ :=
    Head.foldl_body ⟨rfl, .inl hr⟩ h.head (fun l hl => Cut.isLine_of_mem hl) hs hb
  rw [headOf, if_pos hany]
  rw [Nat.zero_add] at hlen
  exact hlen

/-- The line that the next chunk completes has both bytes of its end. -/
theorem clean_of_crlf {z : List Byte} (h : Crlf (headOf (x ++ y ++ z))) (ho : (scanHead r x).Open) :
    Clean x y := by
  intro l hl hhead
  obtain ⟨ls, hcons⟩ : ∃ ls, lines LF (rest LF x ++ y) = l :: ls := by
    cases hls : lines LF (rest LF x ++ y) with
    | nil => simp [hls] at hl
    | cons l' ls => exact ⟨ls, by rw [hls, List.head?_cons, Option.mem_some_iff] at hl; rw [hl]⟩
  have hline : IsLine LF l :=
    Cut.isLine_of_mem (show l ∈ lines LF (rest LF x ++ y) by rw [hcons]; simp)
  have hnb : ∀ l ∈ lines LF x, blank l = false := by
    rw [List.append_assoc] at h
    exact Head.foldl_open h.head_left (fun l hl => Cut.isLine_of_mem hl) ho
  refine Ended.head_ne (h.head_left l ?_) hline hhead
  rw [Cut.lines_append, headLines_append hnb, hcons, List.mem_append]
  refine .inr ?_
  rw [headLines]
  split <;> simp

end Liso
