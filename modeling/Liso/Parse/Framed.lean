import Liso.Parse.Body

/-!
# A stream of requests

`Framed` is what the text of a request says about where it ends: a request line, header lines, a
blank line, and as many bytes behind it as the header lines announce. Whatever follows such a
request in a stream, the parser stops at the end of its head: it has refused the request then, or it
counts a body that ends with the request (`Framed.closed`, `Framed.total`). So the parser's state
after a part of the stream is either inside the first request's head, or what the request alone
determines (`Framed.scan`). `WellFormed` adds the grammar, with which no request is refused.
-/

namespace Liso

open Cut (IsLine lines rest)

variable {r : Req} {x z t : List Byte}

/-! ## Requests -/

/-- The text of a request, to its last byte. -/
structure Framed (x : List Byte) : Prop where
  /-- The head ends. -/
  ends : (lines LF x).any blank = true
  /-- It begins with a request line. -/
  begins : blank (startLine x) = false
  /-- Every line feed of the head has a carriage return in front of it. -/
  crlf : Crlf (headOf x)
  /-- The rest is the body. -/
  sized : (behindHead x).length = bodySize x

/-- `Framed` is decidable. -/
instance (x : List Byte) : Decidable (Framed x) :=
  decidable_of_iff ((lines LF x).any blank = true ∧ blank (startLine x) = false ∧ Crlf (headOf x) ∧
      (behindHead x).length = bodySize x)
    ⟨fun h => ⟨h.1, h.2.1, h.2.2.1, h.2.2.2⟩, fun h => ⟨h.ends, h.begins, h.crlf, h.sized⟩⟩

/-- A request that the parser accepts. -/
structure WellFormed (x : List Byte) : Prop where
  /-- It ends where its text says. -/
  framed : Framed x
  /-- No byte of the head is null. -/
  nul : 0 ∉ headOf x
  /-- The head fits into the buffer. -/
  fits : (headOf x).length ≤ BUFSZ
  /-- The grammar accepts the head. -/
  grammar : (headGrammar (-1) (headOf x)).2 = .body

/-- `WellFormed` is decidable. -/
instance (x : List Byte) : Decidable (WellFormed x) :=
  decidable_of_iff (Framed x ∧ 0 ∉ headOf x ∧ (headOf x).length ≤ BUFSZ ∧
    (headGrammar (-1) (headOf x)).2 = .body)
    ⟨fun h => ⟨h.1, h.2.1, h.2.2.1, h.2.2.2⟩, fun h => ⟨h.framed, h.nul, h.fits, h.grammar⟩⟩

/-- The bytes of a request are those of its head and of its body. -/
theorem Framed.length (h : Framed x) : x.length = (headOf x).length + bodySize x := by
  have hle := headOf_length_le x
  have hbehind : (behindHead x).length = x.length - (headOf x).length := List.length_drop
  rw [← h.sized]
  omega

/-- A framed request has a whole head. -/
theorem Framed.headed (h : Framed x) : Headed x := by
  obtain ⟨l, hl, hbl⟩ := List.any_eq_true.1 h.ends
  have hsplit := List.takeWhile_append_dropWhile (p := fun l => !blank l) (l := lines LF x)
  -- The first blank line, and the lines in front of it.
  obtain ⟨l', post, hdrop⟩ : ∃ l' post, (lines LF x).dropWhile (fun l => !blank l) =
    l' :: post := by
    refine List.exists_cons_of_ne_nil fun hnil => ?_
    have hall := List.dropWhile_eq_nil_iff.1 hnil l hl
    simp [hbl] at hall
  have hbl' : blank l' = true := by
    have hhead := List.head?_dropWhile_not (fun l => !blank l) (lines LF x)
    rw [hdrop] at hhead
    simpa using hhead
  rw [hdrop] at hsplit
  refine ⟨(lines LF x).takeWhile fun l => !blank l, l', post.flatten ++ rest LF x, ?_,
    fun l1 hl1 => ?_, fun hnil => ?_,
    fun l1 hl1 => ?_, hbl'⟩
  · calc x = (lines LF x).flatten ++ rest LF x := (Cut.flatten_lines LF x).symm
      _ = ((lines LF x).takeWhile (fun l => !blank l) ++ l' :: post).flatten ++ rest LF x := by
        rw [hsplit]
      _ = _ := by simp
  · have hmem : l1 ∈ lines LF x := by
      rw [← hsplit, List.append_cons]
      exact List.mem_append_left _ hl1
    exact Cut.isLine_of_mem hmem
  · -- The request line is not blank.
    rw [hnil, List.nil_append] at hsplit
    have hstart : startLine x = l' := by rw [startLine, ← hsplit, List.headD_cons]
    have := h.begins
    rw [hstart, hbl'] at this
    simp at this
  · simpa using List.mem_takeWhile_imp hl1

/-! ## The parser -/

/-- A request that was not received yet. -/
structure Req.Fresh (r : Req) : Prop where
  /-- It was reset. -/
  reset : reqReset r = r
  /-- Nothing is kept. -/
  last : r.last_buf.data = []

/-- A fresh request waits for a request line. -/
theorem Req.Fresh.phase (h : r.Fresh) : r.phase = .start := by
  rw [← h.reset]
  rfl

/-- A fresh request has no length yet. -/
theorem Req.Fresh.clen (h : r.Fresh) : r.clen = -1 := by
  rw [← h.reset]
  rfl

/-- A request that was just reset, with nothing kept, is fresh. -/
theorem Req.Fresh.of_reset (r' : Req) (h : reqReset r' = r) (hlast : r.last_buf.data = []) :
    r.Fresh := by
  refine ⟨?_, hlast⟩
  rw [← h]
  simp [reqReset, storeStr]

/-- Behind a blank line, the head is not open. -/
theorem Headed.closed (h : Headed x) (hcrlf : Crlf (headOf x)) (r : Req) :
    ¬ (scanHead r x).Open := by
  intro ho
  obtain ⟨pre, l, y, rfl, hls, -, -, hbl⟩ := h
  have hnb := Head.foldl_open hcrlf.head (fun l hl => Cut.isLine_of_mem hl) ho l
  rw [Cut.lines_flatten hls, hbl] at hnb
  simpa using hnb (by simp)

/-- The parser does not read behind the head. -/
theorem Headed.scan (h : Headed x) (hcrlf : Crlf (headOf x)) (r : Req) :
    scanHead r x = scanHead r (headOf x) := by
  obtain ⟨hheaded, hhead, ⟨y, hy⟩, -⟩ := h.head
  have hclosed := hheaded.closed (hhead.symm ▸ hcrlf) r
  calc scanHead r x = scanHead r (headOf x ++ y) := by rw [hy]
    _ = scanHead r (headOf x) := scanHead_closed hclosed y

/-- Where the parser stands behind the lines of a text. -/
theorem scanHead_reads (hr : r.Fresh) (x : List Byte) : (scanHead r x).Reads [] (lines LF x) := by
  have hscan : scanHead r x = Head.scan LF r (lines LF x) := by
    unfold scanHead Head.scan
    cases lines LF x <;> rfl
  have hstart : Head.Reads [] [] ⟨none, r, 0⟩ :=
    .amid rfl (.inl ⟨hr.phase, rfl⟩) (by simp) rfl hr.clen
  rw [hscan]
  exact hstart.scan (fun l hl => Cut.isLine_of_mem hl) LF

/-- A framed request has the end of its head. -/
theorem Framed.closed (h : Framed x) (r : Req) : ¬ (scanHead r x).Open := h.headed.closed h.crlf r

/-- A request that is not refused ends with the body that the parser counts. -/
theorem Framed.total (h : Framed x) (hr : r.Fresh) (hs : (scanHead r x).status = none) :
    (scanHead r x).req.phase = .body ∧ (scanHead r x).used = (headOf x).length ∧
      (scanHead r x).used + (scanHead r x).req.clen.toNat = x.length := by
  have hsound := scanHead_sound hr.phase x
  have hb : (scanHead r x).req.phase = .body := by
    rcases hsound.phase hs with hp | hp | hp
    · exact absurd ⟨hs, .inl hp⟩ (h.closed r)
    · exact absurd ⟨hs, .inr hp⟩ (h.closed r)
    · exact hp
  have hused := scanHead_used hr.phase h.crlf hs hb
  refine ⟨hb, hused, ?_⟩
  rw [hused, h.length]
  congr 1
  -- The lines in front of the first blank one give the length.
  have hclen := hsound.sized hb
  cases scanHead_reads hr x with
  | refused hs' => exact absurd hs hs'
  | amid _ hp => rcases hp with ⟨hp, -⟩ | ⟨hp, -⟩ <;> simp [hb] at hp
  | behind _ _ pre l post hls hne hb' hbl _ hrsize =>
    have hlines : ∀ l' ∈ pre ++ [l], IsLine LF l' := fun l' hl' => by
      have hmem : l' ∈ lines LF x := by
        rw [hls, List.append_cons]
        exact List.mem_append_left _ hl'
      exact Cut.isLine_of_mem hmem
    have hx : x = (pre ++ [l]).flatten ++ (post.flatten ++ rest LF x) := by
      calc x = (lines LF x).flatten ++ rest LF x := (Cut.flatten_lines LF x).symm
        _ = _ := by rw [hls]; simp
    have hfields := (headOf_blank hlines hne hb' hbl (post.flatten ++ rest LF x)).2
    rw [← hx] at hfields
    rw [bodySize, hfields]
    simp only [List.nil_append] at hrsize
    omega

/-- In a stream that begins with a request, the parser is inside its head, or where the request
alone brings it. -/
theorem Framed.scan (h : Framed x) (hz : z <+: x ++ t) :
    (scanHead r z).Open ∧ z <+: x ∧ z.length < (headOf x).length ∨ scanHead r z = scanHead r x := by
  by_cases ho : (scanHead r z).Open
  · -- The whole head would have closed it.
    have hhead : headOf x <+: x ++ t := h.headed.head.2.2.1.trans (List.prefix_append x t)
    have hshort : ¬ headOf x <+: z := by
      rintro ⟨y, rfl⟩
      rw [scanHead_closed (h.headed.head.1.closed (h.headed.head.2.1.symm ▸ h.crlf) r)] at ho
      exact h.headed.head.1.closed (h.headed.head.2.1.symm ▸ h.crlf) r ho
    have hpre : z <+: headOf x := (List.prefix_or_prefix_of_prefix hz hhead).resolve_right hshort
    refine .inl ⟨ho, hpre.trans h.headed.head.2.2.1, ?_⟩
    refine lt_of_le_of_ne hpre.length_le fun hlen => hshort ?_
    rw [hpre.eq_of_length hlen]
  · refine .inr ?_
    rcases List.prefix_or_prefix_of_prefix hz (List.prefix_append x t) with ⟨y, rfl⟩ | ⟨y, rfl⟩
    · exact (scanHead_closed ho y).symm
    · exact scanHead_closed (h.closed r) y

/-- Whatever follows the request, its head is the head of the stream. -/
theorem Framed.crlf_append (h : Framed x) (t : List Byte) : Crlf (headOf (x ++ t)) := by
  rw [(h.headed.append t).2.1]
  exact h.crlf

/-- A request that the grammar accepts is not refused. -/
theorem WellFormed.accepted (h : WellFormed x) (hr : r.Fresh) : (scanHead r x).status = none := by
  have hend := h.framed.headed.head.2.2.2
  have hout := reqParse_outcome LF hr.phase h.nul hend
  rw [hr.clen] at hout
  have hls : ∀ l ∈ lines LF (headOf x), IsLine LF l := fun l hl => Cut.isLine_of_mem hl
  have hparse := reqParse_lines hls (Cut.lines_ne_nil hend) (.inl hr.phase) (b := LF)
    (.inl hr.phase)
  rw [Cut.flatten_lines_of_last hend] at hparse
  have hrc := headGrammar_nonneg h.grammar
  rw [← hout, hparse] at hrc
  rw [h.framed.headed.scan h.framed.crlf]
  exact (scanHead_sound hr.phase (headOf x)).status_eq hrc

end Liso
