import Liso.Parse.Stores

/-!
# The length of the body

A `Content-Length` line sets `clen` to what `atoi` makes of its value, whatever an earlier line set
it to. `length_kept` says for which lines the length of the request is the number that each of them
denotes: the numbers are below `2 ^ 31`, their digits are not cut off, and they do not differ, while
the values that are no number are refused only if a byte that the parser reads tells.
-/

namespace Liso

open Cut (IsLine lines)

variable {r : Req} {l : List Byte} {b : Byte}

/-! ## Numbers -/

/-- More digits do not make a number smaller. -/
theorem decimal_append_le (s t : List Byte) : decimal s ≤ decimal (s ++ t) := by
  have hfold : ∀ (t : List Byte) (n : ℕ), n ≤ t.foldl (fun n c => 10 * n + (c.toNat - 48)) n := by
    intro t
    induction t with
    | nil => exact fun n => le_rfl
    | cons c t ih => exact fun n => (show n ≤ 10 * n + (c.toNat - 48) by omega).trans (ih _)
  rw [decimal, decimal, List.foldl_append]
  exact hfold _ _

/-- `atoi` gives a number below `2 ^ 31`. -/
theorem atoi_eq {s : List Byte} (h : decimal s < 2 ^ 31) : atoi s = decimal s := by
  generalize hn : decimal s = n at h
  have hle : n ≤ 2 ^ 63 - 1 := by omega
  unfold atoi
  rw [hn, Nat.min_eq_left hle, Int.bmod_eq_of_le]
  · omega
  · omega

/-- What `atoi` gives is below `2 ^ 31`. -/
theorem atoi_lt (s : List Byte) : atoi s < 2 ^ 31 := by
  have := Int.bmod_lt (x := ((min (decimal s) (2 ^ 63 - 1) : ℕ) : ℤ)) (m := 2 ^ 32) (by norm_num)
  exact this

/-- `atoi` on a part of the digits gives the number that all of them denote. -/
theorem atoi_prefix_iff {s t : List Byte} (h : s <+: t) :
    atoi s = decimal t ↔ decimal t < 2 ^ 31 ∧ decimal s = decimal t := by
  obtain ⟨u, rfl⟩ := h
  have hle := decimal_append_le s u
  constructor
  · intro he
    have hlt := atoi_lt s
    rw [he] at hlt
    have hsmall : decimal (s ++ u) < 2 ^ 31 := by exact_mod_cast hlt
    rw [atoi_eq (by omega)] at he
    exact ⟨hsmall, by exact_mod_cast he⟩
  · rintro ⟨hlt, he⟩
    rw [atoi_eq (by omega), he]

/-! ## Cut values -/

/-- A digit is neither a blank nor NUL. -/
theorem isdigit_not_space {x : Byte} (h : isdigit x = true) : isspace x = false ∧ x ≠ 0 := by
  revert x
  decide +kernel

/-- What is left of a number when its line is cut. -/
theorem strstrip_take_begins {s : List Byte} (h : isnum (strstrip s) = true) (n : ℕ) :
    strstrip (strncpy0 s n) <+: strstrip s := by
  obtain ⟨a, c, hs, ha, hc⟩ := strstrip_split s
  generalize strstrip s = v at h hs
  subst hs
  have hv : ∀ x ∈ v, isspace x = false ∧ x ≠ 0 :=
    fun x hx => isdigit_not_space (List.all_eq_true.1 h x hx)
  have hspace : ∀ x : Byte, isspace x = true → x ≠ 0 := by decide +kernel
  have hclean : 0 ∉ a ++ v ++ c := by
    intro h0
    rcases List.mem_append.1 h0 with h0 | h0
    · rcases List.mem_append.1 h0 with h0 | h0
      · exact hspace 0 (ha 0 h0) rfl
      · exact (hv 0 h0).2 rfl
    · exact hspace 0 (hc 0 h0) rfl
  rw [strncpy0_eq_take hclean, List.take_append, List.take_append,
    strstrip_mid (fun x hx => ha x (List.mem_of_mem_take hx))
      (fun x hx => (hv x (List.mem_of_mem_take hx)).1)
      (fun x hx => hc x (List.mem_of_mem_take hx))]
  exact List.take_prefix _ _

/-! ## The lines of the header -/

/-- A `Content-Length` line. -/
def IsLength (l : List Byte) : Prop := Keyed l ∧ strcaseeq (keyOf l) (str "Content-Length") = true

/-- The value of a header line, trimmed and not cut. -/
def wholeVal (l : List Byte) : List Byte := strstrip (valRaw l)

/-- The value is a number. -/
def Numeric (l : List Byte) : Prop := wholeVal l ≠ [] ∧ isnum (wholeVal l) = true

/-- `Numeric` is decidable. -/
instance (l : List Byte) : Decidable (Numeric l) := inferInstanceAs (Decidable (_ ∧ _))

/-- What `req_parse` makes of the `Content-Length` line `l` at the end of a chunk: it refuses the
request with 400, or sets the length to the number that the value of the line is. -/
def LengthKept (l : List Byte) (out : ℤ × Req) : Prop :=
  out.1 = -400 ∨ Numeric l ∧ out.2.clen = decimal (wholeVal l)

/-- The parser gets to the `Content-Length` line `l` of the chunk `buf`, behind the lines `pre`. -/
def MeetsLength (b : Byte) (r : Req) (buf : List Byte) (pre : List (List Byte)) (l : List Byte) :
    Prop :=
  pre ++ [l] <+: lines LF buf ∧ 0 ≤ (reqParse b r pre.flatten).1 ∧
    (reqParse b r pre.flatten).2.phase = .header ∧
    IsLength l

/-- A number is below `2 ^ 31` and does not change when the value is cut. Any other value keeps a
byte that is no digit. -/
def LengthSound (l : List Byte) : Prop :=
  (Numeric l → decimal (wholeVal l) < 2 ^ 31 ∧ decimal (valOf l) = decimal (wholeVal l)) ∧
    (¬ Numeric l → isnum (valOf l) = false)

/-- `LengthSound` is decidable. -/
instance (l : List Byte) : Decidable (LengthSound l) :=
  inferInstanceAs (Decidable ((_ → _ ∧ _) ∧ (_ → _)))

/-- A prefix of a number is a number, or empty. -/
theorem isnum_prefix {s t : List Byte} (h : s <+: t) (ht : isnum t = true) : isnum s = true :=
  List.all_eq_true.2 fun x hx => List.all_eq_true.1 ht x (h.subset hx)

/-- A number is taken for one, however it is cut. -/
theorem Numeric.isnum (h : Numeric l) : isnum (valOf l) = true :=
  isnum_prefix (strstrip_take_begins h.2 _) h.2

/-- A number that is sound is taken for the number that it denotes. -/
theorem LengthSound.atoi (h : LengthSound l) (hn : Numeric l) :
    atoi (valOf l) = decimal (wholeVal l) :=
  (atoi_prefix_iff (strstrip_take_begins hn.2 _)).2 (h.1 hn)

/-- A `Content-Length` line in the header. -/
theorem feed_length (hl : IsLine LF l) (hr : r.phase = .header) (hlen : IsLength l) (u : ℕ)
    (b : Byte) :
    Head.feedFrom ⟨none, r, u⟩ b l =
      if isnum (valOf l) then ⟨none, { r with clen := atoi (valOf l) }, u + l.length⟩
      else ⟨some 400, { r with phase := .abort }, u + l.length⟩ := by
  have hb : blank l = false := by
    cases hb : blank l with
    | false => rfl
    | true => exact absurd hlen.1 (not_keyed_of_blank hb)
  rw [Head.feed_field hl hr hb, if_pos hlen.1, parseField_length hlen.2]
  split_ifs <;> rfl

/-- The value of a line is kept if and only if it is sound. -/
theorem kept_iff (hl : IsLine LF l) (hr : r.phase = .header) (hlen : IsLength l) (u : ℕ)
    (b : Byte) :
    LengthKept l (Head.feedFrom ⟨none, r, u⟩ b l).parsed ↔ LengthSound l := by
  rw [feed_length hl hr hlen]
  by_cases hnum : Numeric l
  · rw [if_pos hnum.isnum]
    have hset : LengthKept l (Head.mk none { r with clen := atoi (valOf l) } (u + l.length)).parsed
      ↔
        atoi (valOf l) = decimal (wholeVal l) := by
      simp only [LengthKept, Head.parsed, hnum, true_and]
      refine ⟨fun h => h.resolve_left (by omega), .inr⟩
    have hcut : valOf l <+: wholeVal l := strstrip_take_begins hnum.2 _
    rw [hset, atoi_prefix_iff hcut]
    exact ⟨fun h => ⟨fun _ => h, fun h => absurd hnum h⟩, fun h => h.1 hnum⟩
  · split
    · rename_i hn
      refine ⟨fun h => ?_, fun h => by simp [h.2 hnum] at hn⟩
      rcases h with h | h
      · simp only [Head.parsed] at h
        omega
      · exact absurd h.1 hnum
    · rename_i hn
      exact ⟨fun _ => ⟨fun h => absurd h hnum, fun _ => by simpa using hn⟩, fun _ => .inl rfl⟩

/-- The parser behind the lines in front of one that it gets to. -/
theorem MeetsLength.scan {buf : List Byte} {pre : List (List Byte)}
    (hr : r.phase = .start ∨ r.phase = .header) (h : MeetsLength b r buf pre l) :
    IsLine LF l ∧ (∀ l ∈ pre, IsLine LF l) ∧ (r.phase = .start ∧ pre ≠ [] ∨ r.phase = .header) ∧
      ∃ r' u, Head.scan b r pre = ⟨none, r', u⟩ ∧ r'.phase = .header := by
  obtain ⟨hpre, hrc, hphase, -⟩ := h
  have hls : ∀ l' ∈ pre ++ [l], IsLine LF l' := fun l' hl' => Cut.isLine_of_mem (hpre.subset hl')
  have hlines : ∀ l ∈ pre, IsLine LF l := fun l hl => hls l (by simp [hl])
  have hr' : r.phase = .start ∧ pre ≠ [] ∨ r.phase = .header := by
    refine hr.imp_left fun hs => ⟨hs, ?_⟩
    rintro rfl
    -- Nothing is left for a request line.
    have hout : (reqParse b r []).2.phase = .abort := by
      rw [reqParse, parsePhases, if_pos hs]
      rfl
    rw [List.flatten_nil, hout] at hphase
    simp at hphase
  rw [reqParse_scan hlines hr'] at hrc hphase
  have hnone := (Head.scan_sound hr b pre).status_eq hrc
  refine ⟨hls l (by simp), hlines, hr', ?_⟩
  rcases hscan : Head.scan b r pre with ⟨st, r', u⟩
  rw [hscan] at hnone hphase
  dsimp only at hnone
  subst hnone
  exact ⟨r', u, rfl, hphase⟩

/-- Which lines the parser gets to. -/
theorem meets_of_scan {buf : List Byte} {pre : List (List Byte)} {r' : Req} {u : ℕ}
    (hr : r.phase = .start ∨ r.phase = .header) (hpre : pre ++ [l] <+: lines LF buf)
    (hscan : Head.scan b r pre = ⟨none, r', u⟩) (hphase : r'.phase = .header) (hlen : IsLength l) :
    MeetsLength b r buf pre l := by
  have hr' : r.phase = .start ∧ pre ≠ [] ∨ r.phase = .header := by
    refine hr.imp_left fun hs => ⟨hs, ?_⟩
    rintro rfl
    rw [← show r = r' from congrArg Head.req hscan, hs] at hphase
    simp at hphase
  have hparse :=
    reqParse_scan (fun l hl => Cut.isLine_of_mem (hpre.subset (List.mem_append_left _ hl))) hr' b
  rw [hscan] at hparse
  refine ⟨hpre, ?_, ?_, hlen⟩
  · rw [hparse]
    simp [Head.parsed]
  · rw [hparse]
    exact hphase

/-- What `req_parse` makes of the line. -/
theorem MeetsLength.kept_iff {buf : List Byte} {pre : List (List Byte)}
    (hr : r.phase = .start ∨ r.phase = .header) (h : MeetsLength b r buf pre l) :
    LengthKept l (reqParse b r (pre ++ [l]).flatten) ↔ LengthSound l := by
  obtain ⟨hl, hlines, hr', r', u, hscan, hphase⟩ := h.scan hr
  obtain ⟨b', hconcat⟩ := Head.scan_concat b r pre
  rw [reqParse_scan (by simpa [or_imp, forall_and] using ⟨hlines, hl⟩)
    (hr'.imp_left fun h => ⟨h.1, by simp⟩), hconcat,
    hscan, Liso.kept_iff hl hphase h.2.2.2]

/-- A head is not refused at a line with a number. -/
theorem MeetsLength.numeric {buf : List Byte} {pre : List (List Byte)}
    (hr : r.phase = .start ∨ r.phase = .header) (h : MeetsLength b r buf pre l) (hn : Numeric l) :
    (reqParse b r (pre ++ [l]).flatten).1 ≠ -400 := by
  obtain ⟨hl, hlines, hr', r', u, hscan, hphase⟩ := h.scan hr
  obtain ⟨b', hconcat⟩ := Head.scan_concat b r pre
  rw [reqParse_scan (by simpa [or_imp, forall_and] using ⟨hlines, hl⟩)
    (hr'.imp_left fun h => ⟨h.1, by simp⟩), hconcat, hscan, feed_length hl hphase h.2.2.2,
    if_pos hn.isnum]
  generalize atoi (valOf l) = n
  simp only [Head.parsed]
  omega

/-! ## The whole head -/

/-- The head is refused with 400, or it has the length `n`. -/
structure LengthHeld (n : ℤ) (h : Head) : Prop where
  /-- It is not refused for the want of a length. -/
  status : h.status ≠ some 411
  /-- The length. -/
  clen : h.status ≠ some 400 → h.req.clen = n

/-- What `req_parse` returns for such a head. -/
theorem LengthHeld.parsed {n : ℤ} {h : Head} (hk : LengthHeld n h) (hs : h.Sound) :
    (h.parsed.1 = -400 ∨ h.parsed.2.clen = n) ∧ h.parsed.1 ≠ -411 := by
  obtain ⟨_ | st, r', u⟩ := h
  · exact ⟨.inr (hk.clen (by simp)), by simp only [Head.parsed]; omega⟩
  · have hst := hs.status st rfl
    have h411 : st ≠ 411 := fun he => hk.status (congrArg some he)
    refine ⟨?_, by simp only [Head.parsed]; omega⟩
    by_cases h400 : st = 400
    · exact .inl (congrArg Neg.neg h400)
    · exact .inr (hk.clen fun he => h400 (Option.some.inj he))

/-- The length is kept with every line more, when no other number stands in a `Content-Length` line
that the parser gets to. -/
theorem LengthHeld.feed {buf : List Byte} {pre : List (List Byte)} {n : ℤ} (h0 : 0 ≤ n)
    (hr : r.phase = .start ∨ r.phase = .header)
    (hs : ∀ pre l, MeetsLength b r buf pre l →
      LengthSound l ∧ (Numeric l → (decimal (wholeVal l) : ℤ) = n))
    (hpre : pre ++ [l] <+: lines LF buf) (hk : LengthHeld n (Head.scan b r pre)) :
    LengthHeld n (Head.scan b r (pre ++ [l])) := by
  obtain ⟨b', hconcat⟩ := Head.scan_concat b r pre
  have hl : IsLine LF l := Cut.isLine_of_mem (hpre.subset (by simp))
  rw [hconcat]
  by_cases ho : (Head.scan b r pre).Open
  case neg => rw [Head.feedFrom, if_neg ho]; exact hk
  rcases hscan : Head.scan b r pre with ⟨st, r', u⟩
  rw [hscan] at hk ho
  obtain ⟨hst, hphase⟩ := ho
  obtain rfl : st = none := hst
  have hclen : r'.clen = n := hk.clen (by simp)
  have hrefuse : ∀ (r : Req) (u : ℕ), LengthHeld n ⟨some 400, r, u⟩ := fun r u =>
    ⟨by simp, fun h => absurd rfl h⟩
  rcases hphase with hstart | hheader
  · -- The request line says nothing of a length.
    have hkeep := parseStart_clen r' ⟨b', l⟩
    rw [Head.feedFrom, if_pos ⟨rfl, .inl hstart⟩, parsePhases_start hstart hl]
    rcases hline : parseStart r' ⟨b', l⟩ with ⟨st | d, r1⟩ <;> rw [hline] at hkeep
    · exact ⟨by simpa using hkeep.2, fun _ => hkeep.1.trans hclen⟩
    · exact ⟨by simp, fun _ => hkeep.1.trans hclen⟩
  cases hb : blank l with
  | true =>
    -- The blank line: a number that was kept is not negative, so it stays.
    rw [Head.feed_end hl hheader hb]
    split_ifs with hcr hpost
    · exact hrefuse _ _
    · exact absurd hpost.2 (not_lt.2 (hclen ▸ h0))
    · exact ⟨by simp, fun _ => (max_eq_left (hclen ▸ h0)).trans hclen⟩
  | false =>
    by_cases hlen : IsLength l
    · -- A Content-Length line, whose number is the one that is held.
      have hmeets := hs pre l (meets_of_scan hr hpre hscan hheader hlen)
      rw [feed_length hl hheader hlen]
      split_ifs with hnum
      · have hn : Numeric l := by
          by_contra hno
          simp [hmeets.1.2 hno] at hnum
        have hval := (hmeets.1.atoi hn).trans (hmeets.2 hn)
        generalize atoi (valOf l) = m at hval
        exact ⟨by simp, fun _ => hval⟩
      · exact hrefuse _ _
    · rw [Head.feed_field hl hheader hb]
      by_cases hkeyed : Keyed l
      · -- Another field leaves the length alone.
        have hother : strcaseeq (keyOf l) (str "Content-Length") = false := by
          simpa using fun h => hlen ⟨hkeyed, h⟩
        obtain ⟨r1, hr1, hkeep, -, -⟩ := parseField_other hother r' (valOf l)
        rw [if_pos hkeyed, hr1]
        exact ⟨by simp, fun _ => hkeep.trans hclen⟩
      · rw [if_neg hkeyed]
        exact hrefuse _ _

/-- A length that is held is held behind any number of sound lines more. -/
theorem LengthHeld.scan {buf : List Byte} {pre ls : List (List Byte)} {n : ℤ} (h0 : 0 ≤ n)
    (hr : r.phase = .start ∨ r.phase = .header)
    (hs : ∀ pre l, MeetsLength b r buf pre l →
      LengthSound l ∧ (Numeric l → (decimal (wholeVal l) : ℤ) = n))
    (hk : LengthHeld n (Head.scan b r pre)) (hpre : pre ++ ls <+: lines LF buf) :
    LengthHeld n (Head.scan b r (pre ++ ls)) := by
  induction ls using List.reverseRecOn with
  | nil => rwa [List.append_nil]
  | append_singleton ls l ih =>
    rw [← List.append_assoc] at hpre ⊢
    exact (ih ((List.prefix_append _ _).trans hpre)).feed h0 hr hs hpre

/-- From each `Content-Length` line that the parser gets to, up to the end of the chunk, the request
is refused with 400 or has the number in that line as its length, and is not taken for one without a
length; and so it is with a length that is known from an earlier chunk. -/
structure LengthsKept (b : Byte) (r : Req) (buf : List Byte) : Prop where
  /-- From a line on. -/
  kept : ∀ pre l, MeetsLength b r buf pre l → ∀ ls, pre ++ [l] <+: ls → ls <+: lines LF buf →
    LengthKept l (reqParse b r ls.flatten) ∧ (reqParse b r ls.flatten).1 ≠ -411
  /-- From an earlier chunk on. -/
  known : 0 ≤ r.clen → ∀ ls, ls ≠ [] → ls <+: lines LF buf →
    ((reqParse b r ls.flatten).1 = -400 ∨ (reqParse b r ls.flatten).2.clen = r.clen) ∧
      (reqParse b r ls.flatten).1 ≠ -411

/-- The `Content-Length` lines that the parser gets to are sound, and no two of them denote
different numbers; nor does one denote another number than the length that is known from an earlier
chunk. -/
structure LengthsSound (b : Byte) (r : Req) (buf : List Byte) : Prop where
  /-- Each of them. -/
  sound : ∀ pre l, MeetsLength b r buf pre l → LengthSound l
  /-- Two of them. -/
  same : ∀ pre l pre' l', MeetsLength b r buf pre l → MeetsLength b r buf pre' l' → Numeric l →
    Numeric l' → decimal (wholeVal l) = decimal (wholeVal l')
  /-- A length that is known. -/
  known : 0 ≤ r.clen → ∀ pre l, MeetsLength b r buf pre l → Numeric l →
    (decimal (wholeVal l) : ℤ) = r.clen

/-- Lengths that are all kept are sound. -/
theorem LengthsKept.sound {buf : List Byte} (hr : r.phase = .start ∨ r.phase = .header)
    (h : LengthsKept b r buf) : LengthsSound b r buf := by
  -- Behind the line of a number, the length is that number.
  have hat : ∀ pre l, MeetsLength b r buf pre l → Numeric l → ∀ pre' l',
      MeetsLength b r buf pre' l' → Numeric l' → pre ++ [l] <+: pre' ++ [l'] →
      decimal (wholeVal l) = decimal (wholeVal l') := by
    intro pre l hm hn pre' l' hm' hn' hle
    have hne := hm'.numeric hr hn'
    obtain ⟨-, hfst⟩ := (h.kept pre l hm _ hle hm'.1).1.resolve_left hne
    obtain ⟨-, hsnd⟩ := (h.kept pre' l' hm' _ List.prefix_rfl hm'.1).1.resolve_left hne
    omega
  refine ⟨fun pre l hm => (hm.kept_iff hr).1 (h.kept pre l hm _ List.prefix_rfl hm.1).1, ?_, ?_⟩
  · intro pre l pre' l' hm hm' hn hn'
    rcases List.prefix_or_prefix_of_prefix hm.1 hm'.1 with hle | hle
    · exact hat pre l hm hn pre' l' hm' hn' hle
    · exact (hat pre' l' hm' hn' pre l hm hn hle).symm
  · intro h0 pre l hm hn
    have hne := hm.numeric hr hn
    obtain ⟨-, hval⟩ := (h.kept pre l hm _ List.prefix_rfl hm.1).1.resolve_left hne
    exact hval.symm.trans ((h.known h0 _ (by simp) hm.1).1.resolve_left hne)

/-- Lengths that are sound are all kept. -/
theorem LengthsSound.kept {buf : List Byte} (hr : r.phase = .start ∨ r.phase = .header)
    (h : LengthsSound b r buf) : LengthsKept b r buf := by
  have hparse : ∀ ls, ls ≠ [] → ls <+: lines LF buf →
      reqParse b r ls.flatten = (Head.scan b r ls).parsed := fun ls hne hls =>
    reqParse_scan (fun l hl => Cut.isLine_of_mem (hls.subset hl)) (hr.imp_left fun h => ⟨h, hne⟩) b
  have hscan : ∀ ls, (Head.scan b r ls).Sound := Head.scan_sound hr b
  refine ⟨fun pre l hm ls hle hls => ?_, fun h0 ls hne hls => ?_⟩
  · obtain ⟨more, rfl⟩ := hle
    rw [hparse _ (by simp) hls]
    obtain ⟨hl, -, -, r', u, hpre, hphase⟩ := hm.scan hr
    obtain ⟨b', hconcat⟩ := Head.scan_concat b r pre
    have hline := hconcat l
    rw [hpre, feed_length hl hphase hm.2.2.2] at hline
    by_cases hn : Numeric l
    · -- The number that the line denotes is kept.
      have hval := (h.sound pre l hm).atoi hn
      rw [if_pos hn.isnum] at hline
      generalize atoi (valOf l) = m at hval hline
      have hk : LengthHeld (decimal (wholeVal l)) (Head.scan b r (pre ++ [l])) := by
        rw [hline]
        exact ⟨by simp, fun _ => hval⟩
      have hend := (hk.scan (Int.natCast_nonneg _) hr (fun pre' l' hm' => ⟨h.sound pre' l' hm',
        fun hn' => congrArg _ (h.same pre' l' pre l hm' hm hn' hn)⟩) hls).parsed (hscan _)
      exact ⟨hend.1.imp_right fun hc => ⟨hn, hc⟩, hend.2⟩
    · rw [if_neg (by simp [(h.sound pre l hm).2 hn])] at hline
      rw [Head.scan_append b r (by simp), hline,
        Head.feed_closed (by simp [Head.Open])]
      exact ⟨.inl rfl, fun h => by simp [Head.parsed] at h⟩
  · rw [hparse ls hne hls]
    have hnil : LengthHeld r.clen (Head.scan b r []) := ⟨by simp [Head.scan], fun _ => rfl⟩
    exact (hnil.scan h0 hr (fun pre l hm => ⟨h.sound pre l hm, h.known h0 pre l hm⟩) hls).parsed
      (hscan _)

/-- Every `Content-Length` line is taken at face value or refused, up to the end of the head, if and
only if the values meet the condition and the hosts fit. -/
theorem length_kept (b : Byte) (r : Req) (buf : List Byte)
    (hr : r.phase = .start ∨ r.phase = .header) (hover : r.overrun = false)
    (hend : buf.getLast? = some LF) :
    (LengthsKept b r buf ∧ (reqParse b r buf).2.overrun = false) ↔
      LengthsSound b r buf ∧ HostsFit r buf := by
  rw [reqParse_overrun hr b hend]
  simp only [hover, true_and]
  exact and_congr_left' ⟨fun h => h.sound hr, fun h => h.kept hr⟩

/-! ## A number that wraps around -/

/-- A request line, and a body of `2 ^ 32 + 5` bytes. -/
def wrapped : List (List Byte) := [str "POST / HTTP/1.1\r\n", str "Content-Length: 4294967301\r\n"]

/-- The length of a body of `2 ^ 32 + 5` bytes becomes 5. -/
theorem length_wraps :
    ¬ ∀ (b : Byte) (r : Req) (buf : List Byte), r.phase = .start ∨ r.phase = .header →
      buf.getLast? = some LF → LengthsKept b r buf := by
  intro h
  have hkept := (h 0 (reqNew []) wrapped.flatten (.inl rfl) (by decide +kernel)).kept
    [str "POST / HTTP/1.1\r\n"] (str "Content-Length: 4294967301\r\n")
    ⟨by decide +kernel, by decide +kernel, by decide +kernel, by decide +kernel, by decide +kernel⟩
    _ List.prefix_rfl (by decide +kernel)
  rcases hkept.1 with he | ⟨-, he⟩ <;> exact absurd he (by decide +kernel)

/-- The length of a body of five bytes is kept. -/
theorem length_kept_small :
    (LengthsKept 0 (reqNew []) (str "POST / HTTP/1.1\r\nContent-Length: 5\r\n\r\n") ∧
        (reqParse 0 (reqNew [])
          (str "POST / HTTP/1.1\r\nContent-Length: 5\r\n\r\n")).2.overrun = false) ↔
      LengthsSound 0 (reqNew []) (str "POST / HTTP/1.1\r\nContent-Length: 5\r\n\r\n") ∧
        HostsFit (reqNew []) (str "POST / HTTP/1.1\r\nContent-Length: 5\r\n\r\n") :=
  length_kept 0 (reqNew []) (str "POST / HTTP/1.1\r\nContent-Length: 5\r\n\r\n") (.inl rfl) rfl
    (by decide +kernel)

end Liso
