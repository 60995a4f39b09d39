import Liso.Parse.Grammar

/-!
# What the parser stores

`reqParseStores` lists the strings that a call of `req_parse` copies, each with the number of
characters that its destination is declared for. Two of the copies, both into `host`, are not
bounded by it. The mark `overrun` says whether a copy is too long (`reqParse_stores`), and
`HostsFit` reads off the lines of the chunk whether one is (`strings_fit`). Behind such a copy the
parser goes on with other values of the fields that it went over (`Req.inMemory`), and accepts what
its grammar refuses (`reqParse_grammar`).
-/

namespace Liso

open Cut (IsLine lines)

variable {r : Req} {b : Byte} {l : List Byte} {ls : List (List Byte)}

/-! ## The copies -/

/-- A copy of a string. -/
structure Store where
  /-- The string. -/
  text : List Byte
  /-- The number of characters that the destination is declared for; it has one byte more, for the
  terminator. -/
  room : ℕ

/-- The copy stays inside its array. -/
def Store.Fits (st : Store) : Prop := st.text.length ≤ st.room

/-- `Store.Fits` is decidable. -/
instance (st : Store) : Decidable st.Fits := inferInstanceAs (Decidable (_ ≤ _))

/-- The copies of the part that handles the target. -/
def parseUriStores (req : Req) (p d : Cur) : List Store :=
  let uri := strncpy0 p.rest (min REQ_URISZ (p.dist d))
  let req := { req with uri := storeStr req.uri 0 uri }
  ⟨uri, REQ_URISZ⟩ :: match schemeEnd (cstr req.uri) with
    | none => []
    | some k =>
      let s := cstr (req.uri.drop k)
      let host := s.takeWhile (· != 47)
      if host.length = s.length then []
      else [⟨host, REQ_HOSTSZ⟩, ⟨s.drop host.length, REQ_URISZ⟩]

/-- The copies for a request line. -/
def parseStartStores (req : Req) (d : Cur) : List Store :=
  let (p, d) := proceedInline d
  let method := strncpy0 p.rest (min 8 (p.dist d))
  ⟨method, 8⟩ ::
    if method.length = 0 then []
    else match methodOf method p with
      | none => []
      | some _ =>
        let (p, d) := proceedInline d
        let stores := parseUriStores req p d
        let (p, d) := proceedInline d
        stores ++ [⟨strncpy0 p.rest (min REQ_VERSZ (p.dist d)), REQ_VERSZ⟩]

/-- The copies of a key and a value. -/
def parseFieldStores (key val : List Byte) : List Store :=
  if strcaseeq key (str "Host") then [⟨val, REQ_HOSTSZ⟩]
  else if strcaseeq key (str "Content-Length") then []
  else if strcaseeq key (str "Connection") then []
  else [⟨(hdrNew key val).key, HDR_KEYSZ⟩, ⟨(hdrNew key val).val, HDR_VALSZ⟩]

/-- The copies for a header line. -/
def parseHeaderStores (p d : Cur) : List Store :=
  let q := p.skip fun c => c != COLON && c != LF
  if p.dist q = 0 || q.rest.head? != some COLON then []
  else
    let key := strncpy0 p.rest (min HDR_KEYSZ (p.dist q))
    let val := strncpy0 q.rest.tail (min HDR_VALSZ (q.dist d - 1))
    ⟨key, HDR_KEYSZ⟩ :: ⟨val, HDR_VALSZ⟩ :: parseFieldStores (strstrip key) (strstrip val)

/-- The copies of the loop in phase `REQ_HEADER`. -/
def parseHeadersStores : ℕ → Req → Cur → List Store
  | 0, _, _ => []
  | n + 1, req, d =>
    if d.rest = [] then []
    else
      let (p, d) := proceedLine d
      if eol p d then []
      else parseHeaderStores p d ++ match parseHeader req p d with
        | (.ok d, req) => parseHeadersStores n req d
        | (.error _, _) => []

/-- The copies of a call of `req_parse`. -/
def reqParseStores (before : Byte) (req : Req) (lines : List Byte) : List Store :=
  let d : Cur := ⟨before, lines⟩
  if req.phase = .start then
    parseStartStores req d ++ match parseStart req d with
      | (.ok d, req) => parseHeadersStores d.rest.length req d
      | (.error _, _) => []
  else if req.phase = .header then parseHeadersStores d.rest.length req d
  else []

/-! ## The mark -/

/-- Some copy is too long. -/
def Overruns (stores : List Store) : Bool := stores.any fun st => !decide st.Fits

/-- Without stores there is no overrun. -/
@[simp] theorem overruns_nil : Overruns [] = false := rfl

/-- Two lists of stores overrun when one of them does. -/
@[simp] theorem overruns_append (s t : List Store) :
    Overruns (s ++ t) = (Overruns s || Overruns t) := List.any_append

/-- A store more overruns when it does not fit. -/
@[simp] theorem overruns_cons (st : Store) (s : List Store) :
    Overruns (st :: s) = (!decide st.Fits || Overruns s) := rfl

/-- A bounded copy fits. -/
theorem strncpy0_fits (s : List Byte) (n : ℕ) {k : ℕ} (h : n ≤ k) :
    (Store.mk (strncpy0 s n) k).Fits :=
  ((List.takeWhile_prefix _).length_le.trans (List.length_take_le _ _)).trans h

/-- A copy that does not fit. -/
theorem not_fits (s : List Byte) (k : ℕ) :
    (!decide (Store.mk s k).Fits) = decide (k < s.length) := by
  rw [← decide_not]
  exact decide_eq_decide.2 not_le

/-- The mark behind the target is that of its stores. -/
theorem parseUri_stores (hr : r.uri.length = REQ_URISZ + 1) (p d : Cur) :
    (parseUri r p d).overrun = (r.overrun || Overruns (parseUriStores r p d)) := by
  have huri := strncpy0_fits p.rest (min REQ_URISZ (p.dist d)) (min_le_left _ _)
  rw [parseUri_eq, Req.split_eq]
  unfold parseUriStores Req.absolute Req.stored
  dsimp only
  have hfits := huri
  generalize strncpy0 p.rest (min REQ_URISZ (p.dist d)) = target at hfits ⊢
  rw [overruns_cons, decide_eq_true hfits, Bool.not_true, Bool.false_or]
  cases hk : schemeEnd (cstr (storeStr r.uri 0 target)) with
  | none => simp
  | some k =>
    dsimp only
    split
    · simp
    · -- The string from the slash on is shorter than the array.
      have hshort :
        ∀ n, (Store.mk ((cstr ((storeStr r.uri 0 target).drop k)).drop n) REQ_URISZ).Fits := by
        intro n
        have hlen : (storeStr r.uri 0 target).length = REQ_URISZ + 1 := by
          have hle : target.length ≤ REQ_URISZ := hfits
          simp only [storeStr, List.take_zero, List.nil_append, List.length_append,
            List.length_cons, List.length_drop, hr]
          omega
        have h8 : 8 ≤ k := by
          unfold schemeEnd at hk
          split_ifs at hk
          · exact (Option.some.inj hk).le
          · exact (by decide : 8 ≤ 9).trans (Option.some.inj hk).le
        have hle : (cstr ((storeStr r.uri 0 target).drop k)).length ≤
          (storeStr r.uri 0 target).length - k :=
          (List.takeWhile_prefix _).length_le.trans List.length_drop.le
        show (List.drop n _).length ≤ REQ_URISZ
        rw [List.length_drop]
        omega
      -- So the copy of the host is the only one that can be too long.
      rw [overruns_cons, overruns_cons, decide_eq_true (hshort _), not_fits]
      simp [setHost]

/-- Of the copies of a field, only that of a host is not bounded. -/
theorem parseField_stores (key val : List Byte) : Overruns (parseFieldStores key val) =
    (strcaseeq key (str "Host") && decide (REQ_HOSTSZ < val.length)) := by
  have hkey := strncpy0_fits key HDR_KEYSZ le_rfl
  have hval := strncpy0_fits val HDR_VALSZ le_rfl
  unfold parseFieldStores
  cases hh : strcaseeq key (str "Host") with
  | true =>
    rw [if_pos rfl, overruns_cons, overruns_nil, Bool.or_false, Bool.true_and, not_fits]
  | false =>
    rw [if_neg Bool.false_ne_true, Bool.false_and]
    split_ifs
    · rfl
    · rfl
    · simp [hdrNew, hkey, hval]

/-- The mark behind a header line is that of its stores. -/
theorem parseHeader_stores (r : Req) (p d : Cur) :
    (parseHeader r p d).2.overrun = (r.overrun || Overruns (parseHeaderStores p d)) := by
  unfold parseHeader parseHeaderStores
  dsimp only
  split
  · simp [refuse]
  · have hkey :=
      strncpy0_fits p.rest (min HDR_KEYSZ (p.dist (p.skip fun c => c != COLON && c != LF)))
        (min_le_left _ _)
    have hval := strncpy0_fits (p.skip fun c => c != COLON && c != LF).rest.tail
      (min HDR_VALSZ ((p.skip fun c => c != COLON && c != LF).dist d - 1)) (min_le_left _ _)
    rw [overruns_cons, overruns_cons, decide_eq_true hkey, decide_eq_true hval, parseField_stores]
    generalize strstrip (strncpy0 p.rest _) = key
    generalize strstrip (strncpy0 (p.skip _).rest.tail _) = val
    have hsome := parseField_isSome r key val
    cases hf : parseField r key val with
    | some r' => simpa using parseField_overrun hf
    | none =>
      -- The field is a length, which is not copied.
      rw [hf] at hsome
      have hhost : strcaseeq key (str "Host") = false := by
        cases hh : strcaseeq key (str "Host") with
        | false => rfl
        | true => simp [hh] at hsome
      simp [refuse, hhost]

/-- The mark behind the header lines is that of their stores. -/
theorem parseHeaders_stores (n : ℕ) (r : Req) (d : Cur) :
    (parseHeaders n r d).2.overrun = (r.overrun || Overruns (parseHeadersStores n r d)) := by
  induction n generalizing r d with
  | zero => simp [parseHeaders, parseHeadersStores]
  | succ n ih =>
    unfold parseHeaders parseHeadersStores
    dsimp only
    split
    · simp
    · split
      · unfold parseEnd
        dsimp only
        split_ifs <;> simp [refuse]
      · have hone := parseHeader_stores r (proceedLine d).1 (proceedLine d).2
        rcases hout : parseHeader r (proceedLine d).1 (proceedLine d).2 with ⟨st | d', r'⟩
          <;> rw [hout] at hone
        · simpa using hone
        · dsimp only at hone ⊢
          rw [ih, hone, overruns_append, Bool.or_assoc]

/-- The mark behind the request line is that of its stores. -/
theorem parseStart_stores (hr : r.uri.length = REQ_URISZ + 1) (d : Cur) :
    (parseStart r d).2.overrun = (r.overrun || Overruns (parseStartStores r d)) := by
  unfold parseStart parseStartStores
  dsimp only
  have hmethod :=
    strncpy0_fits (proceedInline d).1.rest (min 8 ((proceedInline d).1.dist (proceedInline d).2))
    (min_le_left _ _)
  rw [overruns_cons, decide_eq_true hmethod]
  split
  · simp [refuse]
  · cases methodOf _ (proceedInline d).1 with
    | none => simp [refuse]
    | some m =>
      dsimp only
      have huri :=
        parseUri_stores (r := { r with method := m }) hr (proceedInline (proceedInline d).2).1
        (proceedInline (proceedInline d).2).2
      generalize (proceedInline (proceedInline d).2).2 = d2 at huri ⊢
      have hversion := strncpy0_fits (proceedInline d2).1.rest
        (min REQ_VERSZ ((proceedInline d2).1.dist (proceedInline d2).2)) (min_le_left _ _)
      have hstores : parseUriStores r (proceedInline (proceedInline d).2).1 d2 =
          parseUriStores { r with method := m } (proceedInline (proceedInline d).2).1 d2 := rfl
      rw [hstores, overruns_append, overruns_cons, decide_eq_true hversion]
      split
      · simpa using huri
      · simpa [refuse] using huri

/-- The mark is set if and only if some copy is too long. -/
theorem reqParse_stores (hr : r.uri.length = REQ_URISZ + 1) (b : Byte) (buf : List Byte) :
    (reqParse b r buf).2.overrun = (r.overrun || Overruns (reqParseStores b r buf)) := by
  have hphases : (parsePhases r ⟨b, buf⟩).2.overrun =
    (r.overrun || Overruns (reqParseStores b r buf)) := by
    unfold parsePhases reqParseStores
    dsimp only
    split
    · have hstart := parseStart_stores hr ⟨b, buf⟩
      rcases hout : parseStart r ⟨b, buf⟩ with ⟨st | d, r'⟩ <;> rw [hout] at hstart
      · simpa using hstart
      · dsimp only at hstart ⊢
        rw [parseHeaders_stores, hstart, overruns_append, Bool.or_assoc]
    · split
      · exact parseHeaders_stores _ _ _
      · simp
  rw [← hphases, reqParse]
  rcases parsePhases r ⟨b, buf⟩ with ⟨st | d, r'⟩ <;> rfl

/-! ## What a copy goes over -/

/-- The bytes of a number that has room in them give the number back. -/
theorem ofBytes_toBytes (n : ℕ) {z : ℤ} (hlo : -256 ^ n ≤ 2 * z) (hhi : 2 * z < 256 ^ n) :
    ofBytes (toBytes n z) = z := by
  have hlen : ∀ (n : ℕ) (z : ℤ), (toBytes n z).length = n := by
    intro n
    induction n with
    | zero => exact fun _ => rfl
    | succ n ih => exact fun z => congrArg (· + 1) (ih (z / 256))
  have hval : ∀ (n : ℕ) (z : ℤ),
      (((toBytes n z).foldr (fun b n => b.toNat + 256 * n) 0 : ℕ) : ℤ) = z % 256 ^ n := by
    intro n
    induction n with
    | zero => exact fun z => (Int.emod_one z).symm
    | succ n ih =>
      intro z
      have hbyte : ((z % 256).toNat.toUInt8.toNat : ℤ) = z % 256 := by
        rw [Nat.toUInt8, UInt8.toNat_ofNat', Nat.mod_eq_of_lt (by omega)]
        omega
      rw [toBytes, List.foldr_cons, Nat.cast_add, Nat.cast_mul, ih, hbyte,
        pow_succ', Nat.cast_ofNat,
        Int.emod_def z, Int.emod_def (z / 256), Int.emod_def z,
        Int.ediv_ediv_of_nonneg (by norm_num)]
      ring
  unfold ofBytes
  dsimp only
  have hv := hval n z
  rw [hlen]
  generalize (toBytes n z).foldr _ 0 = v at hv
  rcases lt_or_ge z 0 with hneg | hpos
  · have hv : (v : ℤ) = z + 256 ^ n := by
      rw [hv, ← Int.add_emod_right, Int.emod_eq_of_lt] <;> omega
    rw [if_neg (by zify; omega), hv]
    ring
  · have hv : (v : ℤ) = z := hv.trans (Int.emod_eq_of_lt hpos (by omega))
    rw [if_pos (by zify; omega), hv]

/-- Bytes behind the end of the string and its terminator stay. -/
theorem behindHost_fits {host : List Byte} {off : ℕ} (h : host.length < off) (old : List Byte) :
    behindHost host off old = old := by
  unfold behindHost
  rw [List.drop_eq_nil_of_le (by rw [List.length_append]; exact h), List.take_nil]
  rfl

/-- Behind a host that fits, the fields are what they were. -/
theorem Req.inMemory_fits {req : Req} (h : req.host.length ≤ REQ_HOSTSZ)
    (hclen : -2 ^ 63 ≤ req.clen ∧ req.clen < 2 ^ 63)
    (hrsize : -2 ^ 63 ≤ req.rsize ∧ req.rsize < 2 ^ 63) : req.inMemory = req := by
  have hoff : ∀ off old, REQ_HOSTSZ < off → behindHost req.host off old = old :=
    fun off old hlt => behindHost_fits (h.trans_lt hlt) old
  have hphase : ReqPhase.ofCode (ofBytes (toBytes 4 req.phase.code)) = some req.phase := by
    cases req.phase <;> decide
  have halive : (ofBytes (toBytes 1 (if req.alive then 1 else 0)) ≠ 0 : Bool) = req.alive := by
    cases req.alive <;> decide
  unfold Req.inMemory
  rw [hoff 264 _ (by decide), hoff 272 _ (by decide), hoff 288 _ (by decide),
    hoff 296 _ (by decide), ofBytes_toBytes 8 (by omega) (by omega),
    ofBytes_toBytes 8 (by omega) (by omega), hphase, halive]
  rfl

/-! ## The lines -/

/-- The host in a header line fits. -/
def HostFits (l : List Byte) : Prop :=
  strcaseeq (keyOf l) (str "Host") = true → (valOf l).length ≤ REQ_HOSTSZ

/-- The parser goes on behind a header line. -/
def Passes (l : List Byte) : Prop :=
  Keyed l ∧
    (strcaseeq (keyOf l) (str "Host") || !strcaseeq (keyOf l) (str "Content-Length")
      || isnum (valOf l)) = true

/-- The hosts fit in the header lines up to a blank one or one that is refused. -/
def FieldsFit : List (List Byte) → Prop
  | [] => True
  | l :: ls => blank l = false → Passes l → HostFits l ∧ FieldsFit ls

/-- `HostFits` is decidable. -/
instance (l : List Byte) : Decidable (HostFits l) := inferInstanceAs (Decidable (_ → _))

/-- `Passes` is decidable. -/
instance (l : List Byte) : Decidable (Passes l) := inferInstanceAs (Decidable (_ ∧ _))

/-- `FieldsFit` is decided along the lines. -/
def decFieldsFit : (ls : List (List Byte)) → Decidable (FieldsFit ls)
  | [] => isTrue trivial
  | l :: ls =>
    have : Decidable (FieldsFit ls) := decFieldsFit ls
    inferInstanceAs (Decidable (blank l = false → Passes l → HostFits l ∧ FieldsFit ls))

/-- `FieldsFit` is decidable. -/
instance (ls : List (List Byte)) : Decidable (FieldsFit ls) := decFieldsFit ls

/-- The string behind a target that is a scheme alone, up to the slash in it, fits. -/
def TargetFits (uri target : List Byte) : Prop :=
  ∀ k ∈ schemeEnd target, 47 ∈ cstr (uri.drop k) →
    ((cstr (uri.drop k)).takeWhile (· != 47)).length ≤ REQ_HOSTSZ

/-- `TargetFits` is decidable. -/
instance (uri target : List Byte) : Decidable (TargetFits uri target) :=
  inferInstanceAs (Decidable (∀ k ∈ schemeEnd target, _ → _))

/-- The hosts in a chunk fit. -/
def HostsFit (r : Req) (buf : List Byte) : Prop :=
  if r.phase = .start then
    match lines LF buf with
    | [] => True
    | l :: ls =>
      (methodAt ⟨LF, l⟩).isSome → TargetFits r.uri (targetAt ⟨LF, l⟩) ∧
        ((endAt ⟨LF, l⟩).isSome → FieldsFit ls)
  else if r.phase = .header then FieldsFit (lines LF buf)
  else True

/-- Of a request line, its target is read, and the header lines behind it. -/
theorem hostsFit_start (hr : r.phase = .start) (buf : List Byte) :
    HostsFit r buf ↔ ∀ l ∈ (lines LF buf).head?, (methodAt ⟨LF, l⟩).isSome →
      TargetFits r.uri (targetAt ⟨LF, l⟩) ∧
        ((endAt ⟨LF, l⟩).isSome → FieldsFit (lines LF buf).tail) := by
  rw [HostsFit, if_pos hr]
  cases lines LF buf <;> simp

/-- `HostsFit` is decidable. -/
instance (r : Req) (buf : List Byte) : Decidable (HostsFit r buf) :=
  if hr : r.phase = .start then decidable_of_iff _ (hostsFit_start hr buf).symm
  else decidable_of_iff (r.phase = .header → FieldsFit (lines LF buf))
    (by rw [HostsFit, if_neg hr]; split <;> simp [*])

/-- A header line either ends the head or its hosts are copied. -/
theorem feed_hosts (hl : IsLine LF l) (hr : r.phase = .header) (u : ℕ) (b : Byte) :
    (¬ (Head.feedFrom ⟨none, r, u⟩ b l).Open ∧
      (Head.feedFrom ⟨none, r, u⟩ b l).req.overrun = r.overrun ∧
        (blank l = false → ¬ Passes l)) ∨
      ∃ r', Head.feedFrom ⟨none, r, u⟩ b l = ⟨none, r', u + l.length⟩ ∧ r'.phase = .header ∧
        blank l = false ∧
        Passes l ∧ (r'.overrun = false ↔ r.overrun = false ∧ HostFits l) := by
  cases hb : blank l with
  | true =>
    left
    rw [Head.feed_end hl hr hb]
    split_ifs <;> simp [Head.Open]
  | false =>
    rw [Head.feed_field hl hr hb]
    by_cases hk : Keyed l
    · rw [if_pos hk]
      have hsome := parseField_isSome r (keyOf l) (valOf l)
      rcases hf : parseField r (keyOf l) (valOf l) with _ | r'
      · rw [hf] at hsome
        refine .inl ⟨fun h => by simp [Head.Open] at h, rfl, fun _ hp => ?_⟩
        rw [hp.2] at hsome
        simp at hsome
      · rw [hf] at hsome
        refine .inr ⟨r', rfl, (parseField_phase hf).trans hr, rfl, ⟨hk, hsome.symm⟩, ?_⟩
        rw [parseField_overrun hf, HostFits]
        simp
    · rw [if_neg hk]
      exact .inl ⟨fun h => by simp [Head.Open] at h, rfl, fun _ hp => hk hp.1⟩

/-- The header lines make no copy that is too long if and only if their hosts fit. -/
theorem fields_overrun (hls : ∀ l ∈ ls, IsLine LF l) (hr : r.phase = .header) (u : ℕ) :
    (ls.foldl Head.feed ⟨none, r, u⟩).req.overrun = false ↔ r.overrun = false ∧ FieldsFit ls := by
  induction ls generalizing r u with
  | nil => simp [FieldsFit]
  | cons l ls ih =>
    rw [List.foldl_cons, FieldsFit, Head.feed]
    rcases feed_hosts (hls l (by simp)) hr u LF with ⟨hc, hsame, hno⟩ | ⟨r', he, hr', hb, hp, hfit⟩
    · rw [Head.feed_closed hc, hsame]
      exact ⟨fun h => ⟨h, fun hb hp => absurd hp (hno hb)⟩, And.left⟩
    · rw [he, ih (fun l hl => hls l (List.mem_cons_of_mem _ hl)) hr', hfit]
      exact ⟨fun h => ⟨h.1.1, fun _ _ => ⟨h.1.2, h.2⟩⟩,
        fun h => ⟨⟨h.1, (h.2 hb hp).1⟩, (h.2 hb hp).2⟩⟩

/-- The target makes no copy that is too long if and only if what it takes for the host fits. -/
theorem Req.absolute_overrun {target : List Byte} (ht : 0 ∉ target) :
    (r.stored target).absolute.overrun = false ↔ r.overrun = false ∧ TargetFits r.uri target := by
  by_cases h : r.Reads target
  · obtain ⟨k, hk, hmem⟩ := h
    have hstr : cstr (r.stored target).uri = target := cstr_storeStr ht _
    have hne : ((cstr (r.uri.drop k)).takeWhile (· != 47)).length ≠
      (cstr (r.uri.drop k)).length := by
      intro hlen
      have hall :=
        (List.takeWhile_prefix (p := (· != 47)) (l := cstr (r.uri.drop k))).eq_of_length hlen
      rw [List.takeWhile_eq_self_iff] at hall
      have := hall 47 hmem
      simp at this
    unfold Req.absolute
    rw [hstr, Option.mem_def.1 hk]
    dsimp only
    rw [Req.stored_drop hk, if_neg hne]
    simp only [setHost, Bool.or_eq_false_iff, decide_eq_false_iff_not, not_lt]
    refine and_congr Iff.rfl ⟨fun hle k' hk' _ => ?_, fun hfit => hfit k hk hmem⟩
    obtain rfl : k = k' := Option.mem_unique hk hk'
    exact hle
  · rw [Req.absolute_eq ht h]
    exact ⟨fun ho => ⟨ho, fun k hk hmem => absurd ⟨k, hk, hmem⟩ h⟩, And.left⟩

/-- The request line makes no copy that is too long if and only if its target fits, once its method
is accepted. -/
theorem parseStart_overrun (r : Req) (d : Cur) :
    (parseStart r d).2.overrun = false ↔
      r.overrun = false ∧ ((methodAt d).isSome → TargetFits r.uri (targetAt d)) := by
  cases hm : methodAt d with
  | none =>
    obtain ⟨status, he⟩ := parseStart_none hm
    rw [he]
    simp [refuse]
  | some m =>
    have habs : (r.named m (targetAt d)).absolute.overrun = false ↔ r.overrun = false ∧
      TargetFits r.uri (targetAt d) :=
      Req.absolute_overrun (r := { r with method := m }) (targetAt_clean d)
    have hout : (parseStart r d).2.overrun = (r.named m (targetAt d)).absolute.split.overrun := by
      rw [parseStart_some hm]
      generalize (r.named m (targetAt d)).absolute.split = r1
      cases endAt d <;> rfl
    have hsplit : (r.named m (targetAt d)).absolute.split.overrun =
      (r.named m (targetAt d)).absolute.overrun := by
      rw [Req.split_eq]
    rw [hout, hsplit, habs]
    simp

/-- Behind a chunk of lines, the mark says whether the hosts in it fit. -/
theorem reqParse_overrun (hr : r.phase = .start ∨ r.phase = .header) (b : Byte) {buf : List Byte}
    (hend : buf.getLast? = some LF) :
    (reqParse b r buf).2.overrun = false ↔ r.overrun = false ∧ HostsFit r buf := by
  have hne := Cut.lines_ne_nil hend
  have hparse := reqParse_scan (fun l hl => Cut.isLine_of_mem hl) (hr.imp_left fun h => ⟨h, hne⟩) b
  rw [Cut.flatten_lines_of_last hend] at hparse
  have hls : ∀ l ∈ lines LF buf, IsLine LF l := fun l hl => Cut.isLine_of_mem hl
  rw [hparse, Head.parsed_req, HostsFit]
  obtain ⟨l, ls, hcons⟩ := List.exists_cons_of_ne_nil hne
  rw [hcons] at hls ⊢
  have hl := hls l (by simp)
  have hls' : ∀ l ∈ ls, IsLine LF l := fun l hl => hls l (List.mem_cons_of_mem _ hl)
  rw [Head.scan_cons]
  rcases hr with hr | hr
  · rw [if_pos hr, Head.feedFrom, if_pos (show Head.Open ⟨none, r, 0⟩ from ⟨rfl, .inl hr⟩),
      parsePhases_start hr hl,
      parseStart_prev r b LF l]
    dsimp only
    have hover := parseStart_overrun r ⟨LF, l⟩
    -- A request line that is refused closes the head, and no later host is copied.
    have hclosed : ∀ (st : ℤ) (r : Req) (u : ℕ), ls.foldl Head.feed ⟨some st, r, u⟩ =
      ⟨some st, r, u⟩ := fun st r u =>
      Head.feed_closed (fun h => by simp [Head.Open] at h) ls
    cases hm : methodAt ⟨LF, l⟩ with
    | none =>
      obtain ⟨status, he⟩ := parseStart_none hm
      rw [he]
      simp [refuse, hclosed]
    | some m =>
      rw [hm] at hover
      rcases hout : parseStart r ⟨LF, l⟩ with ⟨st | d, r'⟩ <;> rw [hout] at hover
      · -- The line does not end behind its version.
        have hend : endAt ⟨LF, l⟩ = none := by
          rw [parseStart_some hm] at hout
          cases he : endAt ⟨LF, l⟩ with
          | none => rfl
          | some d => simp [he] at hout
        dsimp only at hover ⊢
        rw [hclosed, hover, hend]
        simp
      · have hend : (endAt ⟨LF, l⟩).isSome = true := by
          rw [parseStart_some hm] at hout
          cases he : endAt ⟨LF, l⟩ with
          | none => simp [he, refuse] at hout
          | some d => rfl
        dsimp only at hover ⊢
        rw [fields_overrun hls' (parseStart_ok hl hout).2, hover, hend]
        simp [and_assoc]
  · rw [if_neg (by simp [hr]), if_pos hr, FieldsFit]
    -- The first line of the chunk is a header line: it ends the head, or a field is stored.
    rcases feed_hosts hl hr 0 b with ⟨hc, hsame, hno⟩ | ⟨r', he, hr', hb, hp, hfit⟩
    · rw [Head.feed_closed hc, hsame]
      exact ⟨fun h => ⟨h, fun hb hp => absurd hp (hno hb)⟩, And.left⟩
    · rw [he, fields_overrun hls' hr', hfit]
      exact ⟨fun h => ⟨h.1.1, fun _ _ => ⟨h.1.2, h.2⟩⟩,
        fun h => ⟨⟨h.1, (h.2 hb hp).1⟩, (h.2 hb hp).2⟩⟩

/-- The strings that the parser stores fit their arrays if and only if the hosts do. -/
theorem strings_fit (b : Byte) (r : Req) (buf : List Byte) (huri : r.uri.length = REQ_URISZ + 1)
    (hover : r.overrun = false) (hend : buf.getLast? = some LF) :
    (∀ st ∈ reqParseStores b r buf, st.Fits) ↔ HostsFit r buf := by
  by_cases hr : r.phase = .start ∨ r.phase = .header
  · have hstores := reqParse_stores huri b buf
    have hfits := reqParse_overrun hr b hend
    rw [hstores, hover, Bool.false_or] at hfits
    rw [← true_and (HostsFit r buf), ← eq_self (false : Bool), ← hfits, Overruns, List.any_eq_false]
    simp
  · rw [not_or] at hr
    simp [reqParseStores, HostsFit, hr.1, hr.2]

/-- A request in a zeroed array. -/
def zeroed : Req := reqNew (List.replicate (REQ_URISZ + 1) 0)

/-- A head with a host of so many bytes. -/
def hostHead (n : ℕ) : List Byte :=
  str "GET / HTTP/1.1\r\nHost: " ++ List.replicate n 97 ++ str "\r\n\r\n"

/-- A host of one byte fits. -/
theorem strings_fit_host :
    (∀ st ∈ reqParseStores 0 zeroed (hostHead 1), st.Fits) ↔ HostsFit zeroed (hostHead 1) :=
  strings_fit 0 zeroed (hostHead 1) (by simp [zeroed, reqNew, reqReset, storeStr])
    rfl (by decide +kernel)

/-- A host of one byte more than there is room for. -/
theorem host_overruns :
    ¬ ∀ (b : Byte) (r : Req) (buf : List Byte), r.uri.length = REQ_URISZ + 1 → r.overrun = false →
    buf.length ≤ BUFSZ → buf.getLast? = some LF → ∀ st ∈ reqParseStores b r buf, st.Fits := by
  intro h
  have hall :=
    h 0 zeroed (hostHead (REQ_HOSTSZ + 1)) (by simp [zeroed, reqNew, reqReset, storeStr]) rfl
    (by decide +kernel) (by decide +kernel)
  exact absurd hall (by decide +kernel)

/-! ## The grammar -/

/-- The parser accepts its grammar and nothing else, and no copy into `host` is too long, if and
only if the hosts in the chunk fit. -/
theorem reqParse_grammar (b : Byte) (r : Req) (buf : List Byte) (hr : r.phase = .start)
    (hover : r.overrun = false) (hnul : 0 ∉ buf) (hend : buf.getLast? = some LF) :
    (((reqParse b r buf).1, (reqParse b r buf).2.phase) = headGrammar r.clen buf ∧
        (reqParse b r buf).2.overrun = false) ↔ HostsFit r buf := by
  rw [reqParse_overrun (.inl hr) b hend, reqParse_outcome b hr hnul hend]
  simp [hover]

/-- A head, and a byte behind it that is not read. -/
theorem reqParse_grammar_get :
    ((((reqParse 0 (reqNew []) (str "GET / HTTP/1.1\r\nHost: a\r\n\r\n\n")).1,
          (reqParse 0 (reqNew []) (str "GET / HTTP/1.1\r\nHost: a\r\n\r\n\n")).2.phase) =
        headGrammar (reqNew []).clen (str "GET / HTTP/1.1\r\nHost: a\r\n\r\n\n") ∧
      (reqParse 0 (reqNew []) (str "GET / HTTP/1.1\r\nHost: a\r\n\r\n\n")).2.overrun = false) ↔
        HostsFit (reqNew []) (str "GET / HTTP/1.1\r\nHost: a\r\n\r\n\n")) ∧
    headGrammar (reqNew []).clen (str "GET / HTTP/1.1\r\nHost: a\r\n\r\n\n") = (27, .body) :=
  ⟨reqParse_grammar 0 (reqNew []) _ rfl rfl (by decide +kernel) (by decide +kernel),
    by decide +kernel⟩

/-- `req_parse` on lines `pre` whose last one is that of a host, and on those behind them, where it
goes on with what the copy of the host has left in memory. -/
def reqParseOver (b : Byte) (r : Req) (pre post : List Byte) : ℤ × Req :=
  let out := reqParse LF (reqParse b r pre).2.inMemory post
  if out.1 < 0 then out else ((reqParse b r pre).1 + out.1, out.2)

/-- The 272 bytes of a host reach the length, which is taken for one that was given. -/
theorem grammar_overrun : ¬ ∀ (b : Byte) (r : Req) (pre post : List Byte), r.phase = .start →
    r.overrun = false → 0 ∉ pre ++ post → (pre ++ post).length ≤ BUFSZ →
    pre.getLast? = some LF → post.getLast? = some LF → 0 ≤ (reqParse b r pre).1 →
    ((reqParseOver b r pre post).1, (reqParseOver b r pre post).2.phase) =
      headGrammar r.clen (pre ++ post) := by
  intro h
  have := h 0 (reqNew []) (str "POST / HTTP/1.1\r\nHost: " ++ List.replicate 272 97 ++ str "\r\n")
    (str "\r\n") rfl rfl (by decide +kernel) (by decide +kernel) (by decide +kernel)
    (by decide +kernel) (by decide +kernel)
  revert this
  decide +kernel

end Liso
