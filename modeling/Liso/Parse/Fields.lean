import Liso.Request

/-!
# What the parser leaves alone

`Parses r r'` says which fields of a request a call of `req_parse` cannot change, and in which
direction it can change the type and the overrun mark. Each part of the parser satisfies it.
-/

namespace Liso

/-- The request `r'` results from parsing on from `r`. -/
structure Parses (r r' : Req) : Prop where
  /-- `last_buf`. -/
  last_buf : r'.last_buf = r.last_buf
  /-- `addr`. -/
  addr : r'.addr = r.addr
  /-- `port`. -/
  port : r'.port = r.port
  /-- `scheme`. -/
  scheme : r'.scheme = r.scheme
  /-- The type becomes dynamic only. -/
  type : r'.type = .static → r.type = .static
  /-- The mark stays. -/
  overrun : r.overrun = true → r'.overrun = true

/-- A request results from parsing nothing. -/
theorem Parses.refl (r : Req) : Parses r r := ⟨rfl, rfl, rfl, rfl, id, id⟩

/-- Parsing on twice is parsing on. -/
theorem Parses.trans {r r' r'' : Req} (h : Parses r r') (h' : Parses r' r'') : Parses r r'' :=
  ⟨h'.last_buf.trans h.last_buf, h'.addr.trans h.addr, h'.port.trans h.port,
    h'.scheme.trans h.scheme, fun ht => h.type (h'.type ht), fun ho => h'.overrun (h.overrun ho)⟩

/-- The copy into `host` leaves `last_buf`, the address of the client and the type alone. -/
theorem setHost_parses (r : Req) (s : List Byte) : Parses r (setHost r s) :=
  ⟨rfl, rfl, rfl, rfl, id, fun h => by simp [setHost, h]⟩

/-- A refusal leaves `last_buf`, the address of the client and the type alone. -/
theorem refuse_parses (r : Req) (status : ℤ) : Parses r (refuse r status).2 :=
  ⟨rfl, rfl, rfl, rfl, id, id⟩

/-- Of these fields, the target may change the type, to a dynamic one. -/
theorem parseUri_parses (r : Req) (p d : Cur) : Parses r (parseUri r p d) := by
  unfold parseUri
  extract_lets r1 host_start r2 r3 uri path
  have h1 : Parses r r1 := ⟨rfl, rfl, rfl, rfl, id, id⟩
  have h2 : Parses r1 r2 := by
    simp only [r2]
    cases host_start with
    | none => exact .refl _
    | some k =>
      dsimp only
      split_ifs
      · exact .refl _
      · exact (setHost_parses r1 _).trans ⟨rfl, rfl, rfl, rfl, id, id⟩
  have h3 : Parses r2 r3 := by
    simp only [r3]
    split_ifs
    · exact ⟨rfl, rfl, rfl, rfl, fun h => by simp at h, id⟩
    · exact .refl _
  refine (h1.trans (h2.trans h3)).trans ?_
  split_ifs
  · exact ⟨rfl, rfl, rfl, rfl, id, id⟩
  · exact ⟨rfl, rfl, rfl, rfl, id, id⟩

/-- Of these fields, a request line may change the type, to a dynamic one. -/
theorem parseStart_parses (r : Req) (d : Cur) : Parses r (parseStart r d).2 := by
  unfold parseStart
  dsimp only
  split
  · exact refuse_parses _ _
  · split
    · exact refuse_parses _ _
    · rename_i m _
      have h1 : Parses r { r with method := m } := ⟨rfl, rfl, rfl, rfl, id, id⟩
      have h2 := parseUri_parses { r with method := m } (proceedInline (proceedInline d).2).1
        (proceedInline (proceedInline d).2).2
      generalize parseUri _ _ _ = r2 at h2 ⊢
      split
      · exact h1.trans (h2.trans ⟨rfl, rfl, rfl, rfl, id, id⟩)
      · exact h1.trans (h2.trans ⟨rfl, rfl, rfl, rfl, id, id⟩)

/-- A header field touches none of these fields. -/
theorem parseField_parses {r r' : Req} {key val : List Byte} (h : parseField r key val = some r') :
    Parses r r' := by
  unfold parseField at h
  split_ifs at h
  · exact Option.some.inj h ▸ setHost_parses _ _
  all_goals
    rw [← Option.some.inj h]
    try split_ifs
    all_goals exact ⟨rfl, rfl, rfl, rfl, id, id⟩

/-- The end of a head touches none of these fields. -/
theorem parseEnd_parses (r : Req) (d : Cur) : Parses r (parseEnd r d).2 := by
  unfold parseEnd
  dsimp only
  split_ifs <;> exact ⟨rfl, rfl, rfl, rfl, id, id⟩

/-- A header line touches none of these fields. -/
theorem parseHeader_parses (r : Req) (p d : Cur) : Parses r (parseHeader r p d).2 := by
  unfold parseHeader
  dsimp only
  split_ifs
  · exact refuse_parses _ _
  · split
    · exact refuse_parses _ _
    · exact parseField_parses (by assumption)

/-- Header lines touch none of these fields. -/
theorem parseHeaders_parses (n : ℕ) (r : Req) (d : Cur) : Parses r (parseHeaders n r d).2 := by
  induction n generalizing r d with
  | zero => exact .refl _
  | succ n ih =>
    unfold parseHeaders
    dsimp only
    split_ifs
    · exact .refl _
    · exact parseEnd_parses _ _
    · have h := parseHeader_parses r (proceedLine d).1 (proceedLine d).2
      split
      · rename_i d' r' he
        rw [he] at h
        exact h.trans (ih r' d')
      · rename_i st r' he
        rw [he] at h
        exact h

/-- The phases of `req_parse` parse on from the request. -/
theorem parsePhases_parses (r : Req) (d : Cur) : Parses r (parsePhases r d).2 := by
  have h := parseStart_parses r d
  unfold parsePhases
  split_ifs
  · split
    · rename_i d' r' he
      rw [he] at h
      exact h.trans (parseHeaders_parses _ r' d')
    · rename_i st r' he
      rw [he] at h
      exact h
  · exact parseHeaders_parses _ _ _
  · exact .refl _

/-- A call of `req_parse` parses on from the request. -/
theorem reqParse_parses (before : Byte) (r : Req) (lines : List Byte) :
    Parses r (reqParse before r lines).2 := by
  have h := parsePhases_parses r ⟨before, lines⟩
  unfold reqParse
  split
  all_goals
    rename_i he
    rw [he] at h
    exact h

/-! ## Phases -/

/-- A part of the parser that did not refuse the request stands in the header or behind it; a status
is positive. -/
def Parsed.Phased (out : Parsed) : Prop :=
  match out.1 with
  | .ok _ => out.2.phase = .header ∨ out.2.phase = .body
  | .error status => 0 < status

/-- A refusal has a positive status. -/
theorem refuse_phased (r : Req) {status : ℤ} (h : 0 < status) : (refuse r status).Phased := h

/-- A header field leaves the phase alone. -/
theorem parseField_phase {r r' : Req} {key val : List Byte} (h : parseField r key val = some r') :
    r'.phase = r.phase := by
  unfold parseField at h
  split_ifs at h
  all_goals
    rw [← Option.some.inj h]
    try split_ifs
    all_goals rfl

/-- Behind a request line, the parser waits for header lines, or has refused. -/
theorem parseStart_phased (r : Req) (d : Cur) : (parseStart r d).Phased := by
  unfold parseStart
  dsimp only
  split
  · exact refuse_phased _ (by norm_num)
  · split
    · exact refuse_phased _ (by norm_num)
    · split
      · exact .inl rfl
      · exact refuse_phased _ (by norm_num)

/-- Behind the blank line, it waits for the body, or has refused. -/
theorem parseEnd_phased (r : Req) (d : Cur) : (parseEnd r d).Phased := by
  unfold parseEnd
  dsimp only
  split_ifs
  · exact refuse_phased _ (by norm_num)
  · exact .inr rfl
  · exact .inr rfl

/-- Behind a header line, it waits for more, or has refused. -/
theorem parseHeader_phased (r : Req) (p d : Cur) (h : r.phase = .header) :
    (parseHeader r p d).Phased := by
  unfold parseHeader
  dsimp only
  split
  · exact refuse_phased _ (by norm_num)
  · split
    · exact refuse_phased _ (by norm_num)
    · rename_i r' hr'
      exact .inl ((parseField_phase hr').trans h)

/-- Behind the header lines, it waits for more or for the body, or has refused. -/
theorem parseHeaders_phased (n : ℕ) (r : Req) (d : Cur) (h : r.phase = .header) :
    (parseHeaders n r d).Phased := by
  induction n generalizing r d with
  | zero => exact .inl h
  | succ n ih =>
    unfold parseHeaders
    dsimp only
    split
    · exact .inl h
    · split
      · exact parseEnd_phased _ _
      · have hp := parseHeader_phased r (proceedLine d).1 (proceedLine d).2 h
        have hok : ∀ d' r', parseHeader r (proceedLine d).1 (proceedLine d).2 = (.ok d', r') →
            r'.phase = .header := by
          intro d' r' he
          unfold parseHeader at he
          dsimp only at he
          split at he
          · simp [refuse] at he
          · split at he
            · simp [refuse] at he
            · rename_i r'' hr''
              rw [Prod.mk.injEq] at he
              rw [← he.2, parseField_phase hr'', h]
        split
        · rename_i d' r' he
          exact ih r' d' (hok d' r' he)
        · rename_i st r' he
          rw [he] at hp
          exact hp

/-- A call that begins inside a head ends inside it or behind it, or has refused. -/
theorem parsePhases_phased (r : Req) (d : Cur) (h : r.phase = .start ∨ r.phase = .header) :
    (parsePhases r d).Phased := by
  have hs := parseStart_phased r d
  have hok : ∀ d' r', parseStart r d = (.ok d', r') → r'.phase = .header := by
    intro d' r' he
    unfold parseStart at he
    dsimp only at he
    split at he
    · simp [refuse] at he
    · split at he
      · simp [refuse] at he
      · split at he
        · rw [Prod.mk.injEq] at he
          rw [← he.2]
        · simp [refuse] at he
  unfold parsePhases
  split
  · split
    · rename_i d' r' he
      exact parseHeaders_phased _ _ _ (hok d' r' he)
    · rename_i st r' he
      rw [he] at hs
      exact hs
  · rename_i hne
    rw [if_pos (h.resolve_left hne)]
    exact parseHeaders_phased _ _ _ (h.resolve_left hne)

/-- A chunk that is not refused leaves the parser in the header or behind it. -/
theorem reqParse_phase {before : Byte} {r : Req} {lines : List Byte}
    (h : r.phase = .start ∨ r.phase = .header) (hrc : ¬ (reqParse before r lines).1 < 0) :
    (reqParse before r lines).2.phase = .header ∨ (reqParse before r lines).2.phase = .body := by
  have hp := parsePhases_phased r ⟨before, lines⟩ h
  unfold reqParse at hrc ⊢
  split
  · rename_i d r' he
    rw [he] at hp
    exact hp
  · rename_i st r' he
    rw [he] at hp hrc
    have hst : 0 < st := hp
    exact absurd (by simpa using hst) hrc

/-- No more bytes are parsed than the chunk holds. -/
theorem reqParse_le (before : Byte) {r : Req} (lines : List Byte)
    (h : r.phase = .start ∨ r.phase = .header) :
    (reqParse before r lines).1 ≤ lines.length := by
  have hp := parsePhases_phased r ⟨before, lines⟩ h
  rcases hout : parsePhases r ⟨before, lines⟩ with ⟨st | d, r'⟩ <;> simp only [reqParse, hout]
  · rw [hout] at hp
    have hst : 0 < st := hp
    omega
  · omega

/-! ## The size of a body -/

/-- In the body, the number of bytes to come is not negative. -/
def Req.Counts (r : Req) : Prop := r.phase = .body → 0 ≤ r.rsize

/-- At the start of the body, it is the length that the head gives. -/
def Req.Sized (r : Req) : Prop := r.phase = .body → r.rsize = r.clen ∧ 0 ≤ r.clen

/-- A refused request is in no body. -/
theorem refuse_sized (r : Req) (status : ℤ) : (refuse r status).2.Sized :=
  fun h => by simp [refuse] at h

/-- A request line does not lead to a body. -/
theorem parseStart_sized (r : Req) (d : Cur) : (parseStart r d).2.Sized := by
  unfold parseStart
  dsimp only
  split
  · exact refuse_sized _ _
  · split
    · exact refuse_sized _ _
    · split
      · exact fun h => by simp at h
      · exact refuse_sized _ _

/-- At the end of a head, `rsize` is the length that was given, or zero. -/
theorem parseEnd_sized (r : Req) (d : Cur) : (parseEnd r d).2.Sized := by
  unfold parseEnd
  dsimp only
  split
  · split
    · exact refuse_sized _ _
    · exact fun _ => ⟨rfl, le_rfl⟩
  · rename_i h
    exact fun _ => ⟨rfl, not_lt.1 h⟩

/-- A header line does not lead to a body. -/
theorem parseHeader_sized (r : Req) (p d : Cur) (h : r.phase ≠ .body) :
    (parseHeader r p d).2.Sized := by
  unfold parseHeader
  dsimp only
  split
  · exact refuse_sized _ _
  · split
    · exact refuse_sized _ _
    · rename_i r' hr'
      exact fun hp => absurd ((parseField_phase hr').symm.trans hp) h

/-- When the header lines of a call lead to a body, `rsize` is its length. -/
theorem parseHeaders_sized (n : ℕ) (r : Req) (d : Cur) (h : r.phase ≠ .body) :
    (parseHeaders n r d).2.Sized := by
  induction n generalizing r d with
  | zero => exact fun hp => absurd hp h
  | succ n ih =>
    unfold parseHeaders
    dsimp only
    split
    · exact fun hp => absurd hp h
    · split
      · exact parseEnd_sized _ _
      · have hc := parseHeader_sized r (proceedLine d).1 (proceedLine d).2 h
        split
        · rename_i d' r' he
          refine ih r' d' ?_
          unfold parseHeader at he
          dsimp only at he
          split at he
          · simp [refuse] at he
          · split at he
            · simp [refuse] at he
            · rename_i r'' hr''
              rw [Prod.mk.injEq] at he
              rw [← he.2, parseField_phase hr'']
              exact h
        · rename_i st r' he
          rw [he] at hc
          exact hc

/-- A chunk of the head sets the number of bytes to come. -/
theorem reqParse_sized (before : Byte) (lines : List Byte) {r : Req} (h : r.phase ≠ .body) :
    (reqParse before r lines).2.Sized := by
  have hp : (parsePhases r ⟨before, lines⟩).2.Sized := by
    have hs := parseStart_sized r ⟨before, lines⟩
    unfold parsePhases
    split
    · split
      · rename_i d' r' he
        refine parseHeaders_sized _ _ _ ?_
        -- The request line does not end the head.
        unfold parseStart at he
        dsimp only at he
        split at he
        · simp [refuse] at he
        · split at he
          · simp [refuse] at he
          · split at he
            · rw [Prod.mk.injEq] at he
              rw [← he.2]
              simp
            · simp [refuse] at he
      · rename_i st r' he
        rw [he] at hs
        exact hs
    · split
      · exact parseHeaders_sized _ _ _ h
      · exact fun hb => absurd hb h
  unfold reqParse
  split
  all_goals
    rename_i he
    rw [he] at hp
    exact hp

/-- A chunk of the head leaves the number of bytes to come in order. -/
theorem reqParse_counts (before : Byte) (lines : List Byte) {r : Req} (h : r.phase ≠ .body) :
    (reqParse before r lines).2.Counts := by
  intro hb
  obtain ⟨hsize, hpos⟩ := reqParse_sized before lines h hb
  rwa [hsize]

end Liso
