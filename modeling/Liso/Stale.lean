import Liso.Parse.StartLine
import Liso.Loop.Sample

/-!
# What a reset leaves behind

`req_reset` clears the first byte of the array `uri` and no other. The parser stores the target of a
request line in the array with a terminator, and reads it as a string from then on, except in the
branch for an absolute target: there it looks at the string that begins at a fixed position, and for
a target that is just `http://` or `https://` this position is behind the terminator. `reset_as_new`
says that a request after a reset is parsed like one in a new array if and only if that branch finds
no slash in the bytes left over.
-/

namespace Liso

variable {r r' : Req}

/-! ## The header does not look at the target -/

/-- A request without the array `uri`, and without what no part of the parser reads. -/
def Req.core (r : Req) : Req := { r with uri := [], last_buf := bufNew, overrun := false }

/-- Two requests with one core differ in `uri`, `last_buf` and the mark only. -/
theorem Req.eq_of_core (h : r.core = r'.core) :
    r' = { r with uri := r'.uri, last_buf := r'.last_buf, overrun := r'.overrun } := by
  cases r
  cases r'
  simp only [Req.core, Req.mk.injEq, true_and, and_true] at h ⊢
  simp [h]

/-- A header field makes the same of two requests that agree. -/
theorem parseField_core (key val : List Byte) (h : r.core = r'.core) :
    (parseField r key val).map Req.core = (parseField r' key val).map Req.core := by
  rw [Req.eq_of_core h]
  unfold parseField
  split_ifs <;> rfl

/-- The outcomes of a part of the parser agree, apart from the array. -/
def Parsed.Agree (out out' : Parsed) : Prop := out.1 = out'.1 ∧ out.2.core = out'.2.core

/-- Two requests that agree are refused alike. -/
theorem refuse_agree (status : ℤ) (h : r.core = r'.core) :
    (refuse r status).Agree (refuse r' status) := by
  rw [Req.eq_of_core h]
  exact ⟨rfl, rfl⟩

/-- The heads of two requests that agree end alike. -/
theorem parseEnd_agree (d : Cur) (h : r.core = r'.core) : (parseEnd r d).Agree (parseEnd r' d) := by
  rw [Req.eq_of_core h]
  unfold parseEnd
  dsimp only
  split_ifs <;> exact ⟨rfl, rfl⟩

/-- A header line is parsed alike for two requests that agree. -/
theorem parseHeader_agree (p d : Cur) (h : r.core = r'.core) :
    (parseHeader r p d).Agree (parseHeader r' p d) := by
  unfold parseHeader
  dsimp only
  split
  · exact refuse_agree 400 h
  · generalize strstrip (strncpy0 p.rest _) = key
    generalize strstrip (strncpy0 (p.skip _).rest.tail _) = val
    have hf := parseField_core key val h
    cases hr : parseField r key val <;> cases hr' : parseField r' key val <;> rw [hr, hr'] at hf
    · exact refuse_agree 400 h
    · simp at hf
    · simp at hf
    · exact ⟨rfl, by simpa using hf⟩

/-- Header lines are parsed alike for two requests that agree. -/
theorem parseHeaders_agree (n : ℕ) (d : Cur) (h : r.core = r'.core) :
    (parseHeaders n r d).Agree (parseHeaders n r' d) := by
  induction n generalizing r r' d with
  | zero => exact ⟨rfl, h⟩
  | succ n ih =>
    unfold parseHeaders
    dsimp only
    split
    · exact ⟨rfl, h⟩
    · split
      · exact parseEnd_agree _ h
      · obtain ⟨h1, h2⟩ := parseHeader_agree (proceedLine d).1 (proceedLine d).2 h
        rcases hr : parseHeader r (proceedLine d).1 (proceedLine d).2 with ⟨st | d1, r1⟩ <;>
          rcases hr' : parseHeader r' (proceedLine d).1 (proceedLine d).2 with ⟨st' | d1', r1'⟩ <;>
          rw [hr, hr'] at h1 h2
        · exact ⟨h1, h2⟩
        · simp at h1
        · simp at h1
        · rw [Except.ok.injEq] at h1
          subst h1
          exact ih d1 h2

/-- No header line changes the target. -/
theorem parseField_target {key val : List Byte} (h : parseField r key val = some r') :
    r'.uri = r.uri ∧ r'.params = r.params := by
  unfold parseField at h
  split_ifs at h
  all_goals
    rw [← Option.some.inj h]
    try split_ifs
    all_goals exact ⟨rfl, rfl⟩

/-- Header lines leave the target. -/
theorem parseHeaders_target (n : ℕ) (r : Req) (d : Cur) :
    (parseHeaders n r d).2.uri = r.uri ∧ (parseHeaders n r d).2.params = r.params := by
  induction n generalizing r d with
  | zero => exact ⟨rfl, rfl⟩
  | succ n ih =>
    unfold parseHeaders
    dsimp only
    split
    · exact ⟨rfl, rfl⟩
    · split
      · unfold parseEnd
        dsimp only
        split_ifs <;> exact ⟨rfl, rfl⟩
      · have hone : (parseHeader r (proceedLine d).1 (proceedLine d).2).2.uri = r.uri ∧
            (parseHeader r (proceedLine d).1 (proceedLine d).2).2.params = r.params := by
          unfold parseHeader
          dsimp only
          split
          · exact ⟨rfl, rfl⟩
          · split
            · exact ⟨rfl, rfl⟩
            · exact parseField_target (by assumption)
        split
        · rename_i d' r1 he
          rw [he] at hone
          exact ⟨(ih r1 d').1.trans hone.1, (ih r1 d').2.trans hone.2⟩
        · rename_i st r1 he
          rw [he] at hone
          exact hone

/-! ## Two arrays -/

/-- Two requests that differ in the bytes behind the strings of their arrays only. -/
structure Alike (r r' : Req) : Prop where
  /-- Everything but the array. -/
  core : r.core = r'.core
  /-- The target. -/
  uri : cstr r.uri = cstr r'.uri
  /-- The parameters. -/
  params : (r.params.map fun k => cstr (r.uri.drop k)) = r'.params.map fun k => cstr (r'.uri.drop k)

/-- The type and the parameters come from the string in the array. -/
theorem Req.split_alike (h : r.core = r'.core) (hu : cstr r.uri = cstr r'.uri) :
    Alike r.split r'.split := by
  refine ⟨?_, by rw [Req.split_uri, Req.split_uri, hu], by rw [Req.split_params,
    Req.split_params, hu]⟩
  rw [Req.split_eq, Req.split_eq, ← hu, Req.eq_of_core h]
  rfl

/-- The request lines read nothing behind a terminator. -/
theorem parseStart_alike (d : Cur) (h : Alike r r')
    (hr : (methodAt d).isSome → ¬ r.Reads (targetAt d))
    (hr' : (methodAt d).isSome → ¬ r'.Reads (targetAt d)) :
    (parseStart r d).1 = (parseStart r' d).1 ∧ Alike (parseStart r d).2 (parseStart r' d).2 := by
  cases hm : methodAt d with
  | none =>
    obtain ⟨status, he⟩ := parseStart_none hm
    rw [he, he]
    refine ⟨rfl, (refuse_agree status h.core).2, h.uri, h.params⟩
  | some m =>
    have habs : ∀ r1 : Req, ¬ r1.Reads (targetAt d) →
        (r1.named m (targetAt d)).absolute = r1.named m (targetAt d) := fun r1 h1 =>
      Req.absolute_eq (r := { r1 with method := m }) (targetAt_clean d) h1
    have hs : Alike (r.named m (targetAt d)).split (r'.named m (targetAt d)).split := by
      refine Req.split_alike ?_ ?_
      · rw [Req.eq_of_core h.core]; rfl
      · exact (cstr_storeStr (targetAt_clean d) _).trans (cstr_storeStr (targetAt_clean d) _).symm
    rw [parseStart_some hm, parseStart_some hm]
    dsimp only
    rw [habs r (hr (by simp [hm])), habs r' (hr' (by simp [hm]))]
    generalize (r.named m (targetAt d)).split = r1 at hs
    generalize (r'.named m (targetAt d)).split = r1' at hs
    have hcore : ∀ ph, ({ r1 with version := versionAt d, phase := ph } : Req).core =
        ({ r1' with version := versionAt d, phase := ph } : Req).core := fun ph => by
      rw [Req.eq_of_core hs.core]; rfl
    cases endAt d with
    | some d => exact ⟨rfl, hcore .header, hs.uri, hs.params⟩
    | none => exact ⟨rfl, hcore .abort, hs.uri, hs.params⟩

/-! ## Whole streams -/

/-- The phases leave two alike requests alike. -/
theorem parsePhases_alike (d : Cur) (h : Alike r r')
    (hr : r.phase = .start → (methodAt d).isSome → ¬ r.Reads (targetAt d) ∧
      ¬ r'.Reads (targetAt d)) :
    (parsePhases r d).1 = (parsePhases r' d).1 ∧
      Alike (parsePhases r d).2 (parsePhases r' d).2 := by
  have hheaders : ∀ (r r' : Req) (n : ℕ) (d : Cur), Alike r r' →
    (parseHeaders n r d).1 = (parseHeaders n r' d).1 ∧
      Alike (parseHeaders n r d).2 (parseHeaders n r' d).2 := by
    intro r r' n d h
    obtain ⟨h1, h2⟩ := parseHeaders_agree n d h.core
    obtain ⟨hu, hp⟩ := parseHeaders_target n r d
    obtain ⟨hu', hp'⟩ := parseHeaders_target n r' d
    refine ⟨h1, h2, ?_, ?_⟩
    · rw [hu, hu']; exact h.uri
    · rw [hu, hu', hp, hp']; exact h.params
  have hphase : r'.phase = r.phase := by rw [Req.eq_of_core h.core]
  unfold parsePhases
  rw [hphase]
  split
  · rename_i hstart
    obtain ⟨h1, h2⟩ := parseStart_alike d h (fun hm => (hr hstart hm).1) fun hm => (hr hstart hm).2
    rcases hs : parseStart r d with ⟨st | d1, r1⟩ <;> rcases hs' :
      parseStart r' d with ⟨st' | d1', r1'⟩ <;>
      rw [hs, hs'] at h1 h2
    · exact ⟨h1, h2⟩
    · simp at h1
    · simp at h1
    · rw [Except.ok.injEq] at h1
      subst h1
      exact hheaders _ _ _ _ h2
  · split
    · exact hheaders _ _ _ _ h
    · exact ⟨rfl, h⟩

/-- A chunk of lines leaves two alike requests alike. -/
theorem reqParse_alike (before : Byte) (lines : List Byte) (h : Alike r r')
    (hr : r.phase = .start → (methodAt ⟨before, lines⟩).isSome →
      ¬ r.Reads (targetAt ⟨before, lines⟩) ∧ ¬ r'.Reads (targetAt ⟨before, lines⟩)) :
    (reqParse before r lines).1 = (reqParse before r' lines).1 ∧
      Alike (reqParse before r lines).2 (reqParse before r' lines).2 := by
  obtain ⟨h1, h2⟩ := parsePhases_alike ⟨before, lines⟩ h hr
  unfold reqParse
  rcases hs : parsePhases r ⟨before, lines⟩ with ⟨st | d1, r1⟩ <;>
    rcases hs' : parsePhases r' ⟨before, lines⟩ with ⟨st' | d1', r1'⟩ <;> rw [hs, hs'] at h1 h2
  · rw [Except.error.injEq] at h1
    exact ⟨by rw [h1], h2⟩
  · simp at h1
  · simp at h1
  · rw [Except.ok.injEq] at h1
    exact ⟨by rw [h1], h2⟩

/-- The request line is behind a chunk that is not refused. -/
theorem reqParse_ne_start {before : Byte} {lines : List Byte}
    (h : ¬ (reqParse before r lines).1 < 0) :
    (reqParse before r lines).2.phase ≠ .start := by
  by_cases hp : r.phase = .start ∨ r.phase = .header
  · rcases reqParse_phase hp h with hp' | hp' <;> simp [hp']
  · have he : reqParse before r lines = ((lines.length : ℤ) - lines.length, r) := by
      rw [not_or] at hp
      simp only [reqParse, parsePhases, hp.1, hp.2, if_false]
    rw [he]
    exact fun hs => hp (.inl hs)

/-- The array stays as it is behind the request line. -/
theorem reqParse_uri (before : Byte) (lines : List Byte) (hp : r.phase ≠ .start) :
    (reqParse before r lines).2.uri = r.uri := by
  have hphases : (parsePhases r ⟨before, lines⟩).2.uri = r.uri := by
    unfold parsePhases
    rw [if_neg hp]
    split
    · exact (parseHeaders_target _ _ _).1
    · rfl
  unfold reqParse
  split
  all_goals
    rename_i he
    rw [he] at hphases
    exact hphases

/-- Parsing the lines of a request that arrive in several chunks, each with the byte in front of it:
the status with which it is refused, if it is, and the request. -/
def parseChunks : Req → List (Byte × List Byte) → Option ℤ × Req
  | r, [] => (none, r)
  | r, (before, lines) :: chunks =>
    let (rc, r) := reqParse before r lines
    if rc < 0 then (some (-rc), r) else parseChunks r chunks

/-- Behind the first line, the chunks are parsed alike. -/
theorem parseChunks_alike (chunks : List (Byte × List Byte)) (h : Alike r r')
    (hp : r.phase ≠ .start) :
    (parseChunks r chunks).1 = (parseChunks r' chunks).1 ∧
      Alike (parseChunks r chunks).2 (parseChunks r' chunks).2 := by
  induction chunks generalizing r r' with
  | nil => exact ⟨rfl, h⟩
  | cons chunk chunks ih =>
    obtain ⟨before, lines⟩ := chunk
    obtain ⟨h1, h2⟩ := reqParse_alike before lines h fun hs => absurd hs hp
    unfold parseChunks
    dsimp only
    rw [← h1]
    split
    · exact ⟨rfl, h2⟩
    · rename_i hrc
      exact ih h2 (reqParse_ne_start hrc)

/-- The array stays as it is behind the first line. -/
theorem parseChunks_uri (chunks : List (Byte × List Byte)) (hp : r.phase ≠ .start) :
    (parseChunks r chunks).2.uri = r.uri := by
  induction chunks generalizing r with
  | nil => rfl
  | cons chunk chunks ih =>
    obtain ⟨before, lines⟩ := chunk
    have hone := reqParse_uri before lines hp
    unfold parseChunks
    dsimp only
    split
    · exact hone
    · rename_i hrc
      rw [ih (reqParse_ne_start hrc), hone]

/-- What the rest of the server sees of a request. -/
def Req.seen (r : Req) :
    Method × List Byte × Option (List Byte) × List Byte × List Byte × ℤ × Bool × ReqType ×
    List Hdr :=
  (r.method, cstr r.uri, r.params.map fun k => cstr (r.uri.drop k), r.version, r.host,
    r.clen, r.alive, r.type, r.hdrs)

/-- A new request on a connection: the array is zeroed. -/
def Req.anew (r : Req) : Req :=
  { reqNew (List.replicate (REQ_URISZ + 1) 0) with addr := r.addr,
                                                   port := r.port, scheme := r.scheme }

/-- The stream begins with a request line whose target is `http://` or `https://`, and the string
behind the terminator of the target in the array of the request has a slash. -/
def Req.Leaks (r : Req) : List (Byte × List Byte) → Prop
  | [] => False
  | (before, lines) :: _ => (methodAt ⟨before, lines⟩).isSome ∧ r.Reads (targetAt ⟨before, lines⟩)

/-- The array after the first line of a stream, for a request line with a method. -/
theorem parseChunks_first {before : Byte} {lines : List Byte} {m : Method}
    (chunks : List (Byte × List Byte)) (hr : r.phase = .start)
    (hm : methodAt ⟨before, lines⟩ = some m) :
    (parseChunks r ((before, lines) :: chunks)).2.uri =
      (r.named m (targetAt ⟨before, lines⟩)).absolute.split.uri := by
  have hstart := parseStart_uri hm r
  have hphases : (parsePhases r ⟨before, lines⟩).2.uri = (parseStart r ⟨before, lines⟩).2.uri := by
    unfold parsePhases
    rw [if_pos hr]
    split
    · rename_i d r1 he
      rw [he]
      exact (parseHeaders_target _ _ _).1
    · rename_i st r1 he
      rw [he]
  have hone : (reqParse before r lines).2.uri =
    (r.named m (targetAt ⟨before, lines⟩)).absolute.split.uri := by
    rw [← hstart, ← hphases]
    unfold reqParse
    split
    all_goals
      rename_i he
      rw [he]
  unfold parseChunks
  dsimp only
  split
  · exact hone
  · rename_i hrc
    rw [parseChunks_uri chunks (reqParse_ne_start hrc), hone]

/-- A zeroed array has no slash. -/
theorem anew_not_reads (r : Req) (target : List Byte) : ¬ r.anew.Reads target := by
  rintro ⟨k, -, hmem⟩
  have huri : r.anew.uri = 0 :: List.replicate REQ_URISZ 0 := rfl
  have hzero : ∀ n k, 47 ∉ cstr ((List.replicate n (0 : Byte)).drop k) := by
    intro n k hmem
    rw [List.drop_replicate] at hmem
    exact absurd (List.eq_of_mem_replicate ((List.takeWhile_prefix _).subset hmem)) (by decide)
  rw [huri, ← List.replicate_succ] at hmem
  exact hzero _ _ hmem

/-- The string in the array after a reset. -/
theorem reset_reads (target : List Byte) : (reqReset r).Reads target ↔ r.Reads target := by
  have hsame : ∀ k, schemeEnd target = some k → (reqReset r).uri.drop k = r.uri.drop k :=
    fun k hk =>
    storeStr_drop (by rw [schemeEnd_length hk]; simp)
  constructor
  · rintro ⟨k, hk, hmem⟩
    exact ⟨k, hk, by rwa [hsame k hk] at hmem⟩
  · rintro ⟨k, hk, hmem⟩
    exact ⟨k, hk, by rwa [hsame k hk]⟩

/-- After a reset, a stream is parsed like in a new request if and only if it does not read the
bytes left over. -/
theorem reset_as_new (s : Srv) (c : Conn) (chunks : List (Byte × List Byte)) :
    ((parseChunks (plResetConn s c).1.req chunks).1 = (parseChunks c.req.anew chunks).1 ∧
      (parseChunks (plResetConn s c).1.req chunks).2.seen =
        (parseChunks c.req.anew chunks).2.seen) ↔
    ¬ c.req.Leaks chunks := by
  show ((parseChunks (reqReset c.req) chunks).1 = _ ∧
    (parseChunks (reqReset c.req) chunks).2.seen = _) ↔ _
  generalize c.req = r
  have halike : Alike (reqReset r) r.anew := ⟨rfl, rfl, rfl⟩
  have hseen : ∀ r r' : Req, Alike r r' → r.seen = r'.seen := by
    intro r r' h
    have huri := h.uri
    have hparams := h.params
    rw [Req.eq_of_core h.core] at huri hparams ⊢
    simp only [Req.seen, Prod.mk.injEq, true_and, and_true]
    exact ⟨huri, hparams⟩
  cases chunks with
  | nil => exact ⟨fun _ h => h, fun _ => ⟨rfl, hseen _ _ halike⟩⟩
  | cons chunk chunks =>
    obtain ⟨before, lines⟩ := chunk
    constructor
    · -- The target that the parser makes up begins with a slash, and the one received does not.
      rintro ⟨-, h⟩ ⟨hm, hreads⟩
      obtain ⟨m, hm⟩ := Option.isSome_iff_exists.1 hm
      have huri : cstr (parseChunks (reqReset r) ((before, lines) :: chunks)).2.uri =
          cstr (parseChunks r.anew ((before, lines) :: chunks)).2.uri :=
            (Prod.mk.inj (Prod.mk.inj h).2).1
      rw [parseChunks_first chunks rfl hm, parseChunks_first chunks rfl hm,
        Req.split_uri, Req.split_uri] at huri
      have hclean := targetAt_clean ⟨before, lines⟩
      obtain ⟨t, ht⟩ :=
        Req.absolute_ne (r := { reqReset r with method := m }) hclean ((reset_reads _).2 hreads)
      obtain ⟨k, hk, -⟩ := hreads
      obtain ⟨b, t', ht', h47, h63⟩ := schemeEnd_head hk
      have hkeep : (r.anew.named m (targetAt ⟨before, lines⟩)).absolute =
        r.anew.named m (targetAt ⟨before, lines⟩) :=
        Req.absolute_eq (r := { r.anew with method := m }) hclean (anew_not_reads r _)
      have hstr : cstr (r.anew.named m (targetAt ⟨before, lines⟩)).uri = targetAt ⟨before, lines⟩ :=
        cstr_storeStr hclean _
      have ht : cstr ((reqReset r).named m (targetAt ⟨before, lines⟩)).absolute.uri = 47 :: t := ht
      rw [hkeep, hstr, ht, ht'] at huri
      have h47' : (47 : Byte) ≠ 63 := by decide
      simp only [List.takeWhile_cons, bne_iff_ne, ne_eq, h47', h63, not_false_eq_true,
        if_true, List.cons.injEq] at huri
      exact h47 huri.1.symm
    · intro hno
      -- Only the first chunk can have a request line, and it reads nothing that was left over.
      obtain ⟨h1, h2⟩ := reqParse_alike before lines halike fun _ hm =>
        ⟨fun hreads => hno ⟨hm, (reset_reads _).1 hreads⟩, anew_not_reads r _⟩
      unfold parseChunks
      dsimp only
      rw [← h1]
      split
      · exact ⟨rfl, hseen _ _ h2⟩
      · rename_i hrc
        obtain ⟨h3, h4⟩ := parseChunks_alike chunks h2 (reqParse_ne_start hrc)
        exact ⟨h3, hseen _ _ h4⟩

/-! ## The path of an earlier request -/

/-- A request for `/aaaaaaa/b`, as the parser leaves it. -/
def earlier : Req :=
  (reqParse 0 (reqNew (List.replicate (REQ_URISZ + 1) 0))
    (str "GET /aaaaaaa/b HTTP/1.1\r\n\r\n")).2

/-- The target `http://` of the next request becomes `/b`. -/
theorem reset_leaks : ¬ ∀ (s : Srv) (c : Conn) (chunks : List (Byte × List Byte)),
    (parseChunks (plResetConn s c).1.req chunks).1 = (parseChunks c.req.anew chunks).1 ∧
      (parseChunks (plResetConn s c).1.req chunks).2.seen =
        (parseChunks c.req.anew chunks).2.seen := by
  intro h
  have huri := (Prod.mk.inj (Prod.mk.inj (h Sample.start.srv { cnNew 5 0 [] 0 with req := earlier }
    [(0, str "GET http:// HTTP/1.1\r\n\r\n")]).2).2).1
  exact absurd huri (by decide +kernel)

end Liso
