import Liso.Parse.Grammar
import Liso.Stale

/-!
# Heads in several chunks

`parseChunks` parses a head that arrives in several chunks of lines, each with some byte in front of
it. It is the fold of the parser's steps over the lines (`parseChunks_fold`), and the request that
it leaves behind a head that it accepts is read off the head's lines (`parseChunks_accepted`): the
request line sets the request up, and each header line adds a field.
-/

namespace Liso

open Cut (IsLine lines)
open Words (words)

variable {r r' : Req} {b : Byte} {l : List Byte} {chunks : List (Byte × List Byte)}
  {ps : List (Byte × List Byte)}

/-! ## The lines of the chunks -/

/-- The lines of a chunk, each with the byte in front of it. -/
def linesFrom (chunk : Byte × List Byte) : List (Byte × List Byte) :=
  match lines LF chunk.2 with
  | [] => []
  | l :: ls => (chunk.1, l) :: ls.map fun l => (LF, l)

/-- One line more. -/
def Head.feedPair (h : Head) (p : Byte × List Byte) : Head := h.feedFrom p.1 p.2

/-- A head without the count of its bytes. -/
def Head.view (h : Head) : Option ℤ × Req := (h.status, h.req)

/-- The count of bytes does not matter to a step. -/
theorem Head.feedPair_view {h h' : Head} (hv : h.view = h'.view) (ps : List (Byte × List Byte)) :
    (ps.foldl Head.feedPair h).view = (ps.foldl Head.feedPair h').view := by
  induction ps generalizing h h' with
  | nil => exact hv
  | cons p ps ih =>
    refine ih ?_
    obtain ⟨st, r, u⟩ := h
    obtain ⟨st', r', u'⟩ := h'
    obtain ⟨rfl, rfl⟩ : st = st' ∧ r = r' := Prod.mk.inj hv
    unfold Head.feedPair Head.feedFrom
    by_cases ho : Head.Open ⟨st, r, u⟩
    · rw [if_pos ho, if_pos (show Head.Open ⟨st, r, u'⟩ from ho)]
      dsimp only
      rcases parsePhases r ⟨p.1, p.2⟩ with ⟨st | d, r1⟩ <;> rfl
    · rw [if_neg ho, if_neg (show ¬ Head.Open ⟨st, r, u'⟩ from ho)]
      rfl

/-- A head that is over takes no more lines. -/
theorem Head.feedPair_closed {h : Head} (hc : ¬ h.Open) (ps : List (Byte × List Byte)) :
    ps.foldl Head.feedPair h = h := by
  induction ps with
  | nil => rfl
  | cons p ps ih => rw [List.foldl_cons, Head.feedPair, Head.feedFrom, if_neg hc, ih]

/-- The lines of a chunk, one after the other. -/
theorem foldl_linesFrom (b : Byte) (buf : List Byte) (r : Req) :
    (linesFrom (b, buf)).foldl Head.feedPair ⟨none, r, 0⟩ = Head.scan b r (lines LF buf) := by
  unfold linesFrom
  dsimp only
  cases lines LF buf with
  | nil => rfl
  | cons l ls =>
    dsimp only
    rw [List.foldl_cons, List.foldl_map]
    rfl

/-- A request behind its head takes no more lines. -/
theorem reqParse_body (hr : r.phase = .body) (b : Byte) (buf : List Byte) :
    reqParse b r buf = (0, r) := by
  simp [reqParse, parsePhases, hr]

/-- The parser on chunks of lines is the fold of its steps on the lines. -/
theorem parseChunks_fold (hchunks : ∀ chunk ∈ chunks, chunk.2.getLast? = some LF)
    (hr : r.phase = .start ∨ r.phase = .header ∨ r.phase = .body) (u : ℕ) :
    parseChunks r chunks = ((chunks.flatMap linesFrom).foldl Head.feedPair ⟨none, r, u⟩).view := by
  induction chunks generalizing r u with
  | nil => rfl
  | cons chunk chunks ih =>
    obtain ⟨b, buf⟩ := chunk
    have hend : buf.getLast? = some LF := hchunks (b, buf) (by simp)
    have ih := fun {r} => ih (r := r) fun chunk h => hchunks chunk (List.mem_cons_of_mem _ h)
    rw [List.flatMap_cons, List.foldl_append, parseChunks]
    by_cases hbody : r.phase = .body
    · rw [reqParse_body hbody,
        Head.feedPair_closed fun h : Head.Open ⟨none, r, u⟩ => by simp [Head.Open, hbody] at h]
      exact ih hr u
    · have hr' : r.phase = .start ∨ r.phase = .header := by tauto
      have hparse :=
        reqParse_scan (fun l hl => Cut.isLine_of_mem hl)
          (hr'.imp_left fun h => ⟨h, Cut.lines_ne_nil hend⟩) b
      rw [Cut.flatten_lines_of_last hend] at hparse
      have hview0 : (Head.mk none r u).view = (Head.mk none r 0).view := rfl
      have hview := Head.feedPair_view hview0 (linesFrom (b, buf))
      rw [foldl_linesFrom] at hview
      have hsound := Head.scan_sound hr' b (lines LF buf)
      rw [hparse, Head.feedPair_view hview]
      rcases hscan : Head.scan b r (lines LF buf) with ⟨_ | st, r1, n⟩ <;> rw [hscan] at hsound
      · rw [show (Head.mk none r1 n).parsed = ((n : ℤ), r1) from rfl]
        dsimp only
        rw [if_neg (by omega)]
        exact ih (hsound.phase rfl) n
      · have hst := hsound.status st rfl
        rw [show (Head.mk (some st) r1 n).parsed = (-st, r1) from rfl]
        dsimp only
        rw [if_pos (by omega), neg_neg, Head.feedPair_closed fun h => by simp [Head.Open] at h]
        rfl

/-- A head in a single chunk is parsed by one call. -/
theorem parseChunks_single {buf : List Byte} (h : 0 ≤ (reqParse b r buf).1) :
    parseChunks r [(b, buf)] = (none, (reqParse b r buf).2) := by
  unfold parseChunks
  dsimp only
  rw [if_neg (by omega)]
  rfl

/-- The lines of chunks of lines are those of the whole. -/
theorem lines_chunks (hchunks : ∀ chunk ∈ chunks, chunk.2.getLast? = some LF) :
    (chunks.flatMap linesFrom).map Prod.snd = lines LF (chunks.flatMap Prod.snd) := by
  induction chunks with
  | nil => rfl
  | cons chunk chunks ih =>
    have hend := hchunks chunk (by simp)
    have hone : (linesFrom chunk).map Prod.snd = lines LF chunk.2 := by
      unfold linesFrom
      cases lines LF chunk.2 <;> simp
    have hlines : ∀ l ∈ lines LF chunk.2, IsLine LF l := fun l hl => Cut.isLine_of_mem hl
    have hcut := Cut.lines_flatten hlines (chunks.flatMap Prod.snd)
    rw [Cut.flatten_lines_of_last hend] at hcut
    rw [List.flatMap_cons, List.flatMap_cons, List.map_append, hone,
      ih fun c h => hchunks c (List.mem_cons_of_mem _ h),
      hcut]

/-! ## An accepted head -/

/-- The request line of a text. -/
def startLine (text : List Byte) : List Byte := (lines LF text).headD []

/-- The header lines of a text: those between the request line and the first blank line behind
it. -/
def fieldLines (text : List Byte) : List (List Byte) :=
  (lines LF text).tail.takeWhile fun l => !blank l

/-- The request behind a request line. -/
def Req.begun (r : Req) (m : Method) (l : List Byte) : Req :=
  { (r.named m (strncpy0 ((words isspace l).getD 1 []) REQ_URISZ)).absolute.split with
    version := strncpy0 ((words isspace l).getD 2 []) REQ_VERSZ
    phase := .header }

/-- The request with one field more. -/
def Req.addField (r : Req) (l : List Byte) : Req := (parseField r (keyOf l) (valOf l)).getD r

/-- The request behind the head. -/
def Req.complete (r : Req) : Req :=
  { r with phase := .body, clen := max r.clen 0, rsize := max r.clen 0 }

/-- The lines of the header up to the blank one add their fields. -/
theorem fields_accepted (hps : ∀ p ∈ ps, IsLine LF p.2) (hr : r.phase = .header) (u : ℕ)
    (hs : (ps.foldl Head.feedPair ⟨none, r, u⟩).status = none)
    (hb : (ps.foldl Head.feedPair ⟨none, r, u⟩).req.phase = .body) :
    (ps.foldl Head.feedPair ⟨none, r, u⟩).req =
        (((ps.map Prod.snd).takeWhile fun l => !blank l).foldl Req.addField r).complete ∧
      ∀ l ∈ (ps.map Prod.snd).takeWhile fun l => !blank l, Keyed l ∧
        ∀ r, (parseField r (keyOf l) (valOf l)).isSome := by
  induction ps generalizing r u with
  | nil =>
    rw [List.foldl_nil, hr] at hb
    simp at hb
  | cons p ps ih =>
    obtain ⟨b, l⟩ := p
    have hl : IsLine LF l := hps (b, l) (by simp)
    have hfeed : Head.feedPair ⟨none, r, u⟩ (b, l) = Head.feedFrom ⟨none, r, u⟩ b l := rfl
    rw [List.foldl_cons, hfeed] at hs hb ⊢
    rw [List.map_cons]
    -- A head that is complete or refused stays so.
    have hclosed : ∀ h : Head, ¬ h.Open → ps.foldl Head.feedPair h = h :=
      fun h hc => Head.feedPair_closed hc ps
    cases hbl : blank l with
    | true =>
      rw [List.takeWhile_cons_of_neg (by simp [hbl])]
      rw [Head.feed_end hl hr hbl] at hs hb ⊢
      split_ifs at hs hb ⊢
      · rw [hclosed _ fun h => by simp [Head.Open] at h] at hs
        simp at hs
      · rw [hclosed _ fun h => by simp [Head.Open] at h] at hs
        simp at hs
      · rw [hclosed _ fun h => by simp [Head.Open] at h]
        exact ⟨rfl, by simp⟩
    | false =>
      rw [List.takeWhile_cons_of_pos (by simp [hbl]), List.foldl_cons]
      rw [Head.feed_field hl hr hbl] at hs hb ⊢
      by_cases hk : Keyed l
      · rw [if_pos hk] at hs hb ⊢
        have hsome := parseField_isSome r (keyOf l) (valOf l)
        rcases hf : parseField r (keyOf l) (valOf l) with _ | r1 <;> rw [hf] at hs hb
        · dsimp only at hs
          rw [hclosed _ fun h => by simp [Head.Open] at h] at hs
          simp at hs
        · obtain ⟨hreq, hall⟩ :=
            ih (fun p hp => hps p (List.mem_cons_of_mem _ hp)) ((parseField_phase hf).trans hr) _ hs
              hb
          have hadd : r.addField l = r1 := by rw [Req.addField, hf]; rfl
          rw [hadd]
          refine ⟨hreq, fun l' hl' => ?_⟩
          rcases List.mem_cons.1 hl' with rfl | hl'
          · refine ⟨hk, fun r2 => ?_⟩
            rw [parseField_isSome, ← hsome, hf]
            rfl
          · exact hall l' hl'
      · rw [if_neg hk] at hs
        dsimp only at hs
        rw [hclosed _ fun h => by simp [Head.Open] at h] at hs
        simp at hs

/-- The request behind a head that is accepted. -/
theorem parseChunks_accepted (hchunks : ∀ chunk ∈ chunks, chunk.2.getLast? = some LF)
    (hr : r.phase = .start) (hs : (parseChunks r chunks).1 = none)
    (hb : (parseChunks r chunks).2.phase = .body) :
    (∃ m, methodAt ⟨LF, startLine (chunks.flatMap Prod.snd)⟩ = some m ∧
        (parseChunks r chunks).2 = ((fieldLines (chunks.flatMap Prod.snd)).foldl Req.addField
          (r.begun m (startLine (chunks.flatMap Prod.snd)))).complete) ∧
      ∀ l ∈ fieldLines (chunks.flatMap Prod.snd), Keyed l ∧
        ∀ r, (parseField r (keyOf l) (valOf l)).isSome := by
  have hmap := lines_chunks hchunks
  have hps : ∀ p ∈ chunks.flatMap linesFrom, IsLine LF p.2 := fun p hp =>
    Cut.isLine_of_mem (hmap ▸ List.mem_map_of_mem hp)
  rw [parseChunks_fold hchunks (.inl hr) 0] at hs hb ⊢
  rw [fieldLines, startLine, ← hmap]
  generalize chunks.flatMap linesFrom = pairs at hs hb hps ⊢
  rcases pairs with _ | ⟨⟨b, l⟩, ps⟩
  · simp [Head.view, hr] at hb
  have hl : IsLine LF l := hps (b, l) (by simp)
  have hfeed : Head.feedPair ⟨none, r, 0⟩ (b, l) = Head.feedFrom ⟨none, r, 0⟩ b l := rfl
  rw [List.foldl_cons, hfeed, Head.feedFrom,
    if_pos (show Head.Open ⟨none, r, 0⟩ from ⟨rfl, .inl hr⟩),
    parsePhases_start hr hl] at hs hb ⊢
  -- A head that was refused at its first line stays refused, so it was not.
  have hclosed : ∀ (st : ℤ) (r : Req) (u : ℕ), ps.foldl Head.feedPair ⟨some st, r, u⟩ =
    ⟨some st, r, u⟩ := fun st r u =>
    Head.feedPair_closed (fun h => by simp [Head.Open] at h) ps
  cases hm : methodAt ⟨b, l⟩ with
  | none =>
    obtain ⟨status, he⟩ := parseStart_none hm
    rw [he] at hs
    simp only [refuse, hclosed] at hs
    simp [Head.view] at hs
  | some m =>
    rw [parseStart_some hm] at hs hb ⊢
    dsimp only at hs hb ⊢
    cases hend : endAt ⟨b, l⟩ with
    | none =>
      rw [hend] at hs
      simp only [refuse, hclosed] at hs
      simp [Head.view] at hs
    | some d =>
      rw [hend] at hs hb
      dsimp only at hs hb ⊢
      obtain ⟨hreq, hall⟩ :=
        fields_accepted (fun p hp => hps p (List.mem_cons_of_mem _ hp)) rfl _ hs hb
      refine ⟨⟨m, hm, ?_⟩, hall⟩
      rw [Req.begun, List.map_cons, List.headD_cons,
        List.tail_cons, ← targetAt_text hl b, ← versionAt_text hl b]
      exact hreq

end Liso
