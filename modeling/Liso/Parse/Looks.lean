import Liso.Parse.ByLine

/-!
# What the parser looks at

`reqParseLooks` lists the ranges of bytes that a call of `req_parse` inspects, in the order of the
source, each as an offset from the start of the chunk and a size. A loop inspects the byte that it
stops at, a copy the bytes up to its bound or a null byte, and `eol` the byte in front of its
pointer. For a chunk that ends in a line feed all of them lie inside the chunk, unless the call
resumes a header and the chunk begins with a line feed: then `eol` looks at the byte in front of it
(`looks_iff`).
-/

namespace Liso

variable {r : Req} {b : Byte} {p d : Cur} {n : ℕ} {f : Byte → Bool}

/-! ## The ranges -/

/-- A range of bytes that is inspected. -/
structure Look where
  /-- The start, as an offset from the start of the chunk. -/
  off : ℤ
  /-- The number of bytes. -/
  len : ℕ

/-- The range lies inside a chunk of `n` bytes. -/
def Look.Inside (n : ℕ) (k : Look) : Prop := k.len = 0 ∨ 0 ≤ k.off ∧ k.off + k.len ≤ n

/-- `Look.Inside` is decidable. -/
instance (n : ℕ) (k : Look) : Decidable (k.Inside n) := inferInstanceAs (Decidable (_ ∨ _))

/-- A pointer into a chunk of `n` bytes as an offset. -/
def Cur.off (n : ℕ) (d : Cur) : ℤ := n - d.rest.length

/-- `p[i]`. -/
def Cur.look (n : ℕ) (p : Cur) (i : ℤ) : Look := ⟨p.off n + i, 1⟩

/-- A loop that moves `d` while it stays inside the chunk and its byte satisfies `f`. -/
def skipLook (n : ℕ) (f : Byte → Bool) (d : Cur) : Look :=
  ⟨d.off n, min ((d.rest.takeWhile f).length + 1) d.rest.length⟩

/-- A copy of `k` bytes at most, which ends behind a null byte. -/
def copyLook (n : ℕ) (p : Cur) (k : ℕ) : Look := ⟨p.off n, min k ((strncpy0 p.rest k).length + 1)⟩

/-- `proceed_inline`. -/
def proceedInlineLooks (n : ℕ) (d : Cur) : List Look :=
  [skipLook n issp d, skipLook n (fun c => !isspace c) (proceedInline d).1]

/-- `proceed_line`. -/
def proceedLineLooks (n : ℕ) (d : Cur) : List Look :=
  [skipLook n issp d, skipLook n (· != LF) (proceedLine d).1]

/-- `eol`. -/
def eolLooks (n : ℕ) (p d : Cur) : List Look :=
  if p.rest.length = d.rest.length ∧ p.rest ≠ [] then p.look n (-1) :: if p.prev =
    CR then [p.look n 0] else [] else []

/-- The bytes behind the name of a method; the names exclude each other. -/
def methodOfLooks (n : ℕ) (method : List Byte) (p : Cur) : List Look :=
  (if strncaseeq method (str "GET") 3 then [p.look n 3] else []) ++
  (if strncaseeq method (str "HEAD") 4 then [p.look n 4] else []) ++
  if strncaseeq method (str "POST") 4 then [p.look n 4] else []

/-- The request line behind the method. -/
def parseTargetLooks (n : ℕ) (d : Cur) : List Look :=
  let looks := proceedInlineLooks n d
  let (p, d) := proceedInline d
  let looks := looks ++ copyLook n p (min REQ_URISZ (p.dist d)) :: proceedInlineLooks n d
  let (p, d) := proceedInline d
  let looks := looks ++ copyLook n p (min REQ_VERSZ (p.dist d)) :: proceedInlineLooks n d
  let (p, d) := proceedInline d
  looks ++ eolLooks n p d

/-- The request line. -/
def parseStartLooks (n : ℕ) (d : Cur) : List Look :=
  let looks := proceedInlineLooks n d
  let (p, d) := proceedInline d
  let method := strncpy0 p.rest (min 8 (p.dist d))
  let looks := looks ++ [copyLook n p (min 8 (p.dist d))]
  if method.length = 0 then looks
  else looks ++ methodOfLooks n method p ++ match methodOf method p with
    | none => []
    | some _ => parseTargetLooks n d

/-- The header line `[p, d)`: the search for the colon, the test behind it, and the copies. -/
def parseHeaderLooks (n : ℕ) (p d : Cur) : List Look :=
  let q := p.skip fun c => c != COLON && c != LF
  ⟨p.off n, min (p.dist q + 1) (p.dist d)⟩ :: (if p.dist q = 0 then [] else [q.look n 0]) ++
    if p.dist q = 0 || q.rest.head? != some COLON then []
    else [copyLook n p (min HDR_KEYSZ (p.dist q)), copyLook n q.succ (min HDR_VALSZ (q.dist d - 1))]

/-- One pass of the loop in phase `REQ_HEADER`. -/
def parseLineLooks (n : ℕ) (d : Cur) : List Look :=
  let looks := proceedLineLooks n d
  let (p, d) := proceedLine d
  looks ++ eolLooks n p d ++ if eol p d then [] else parseHeaderLooks n p d

/-- The loop in phase `REQ_HEADER`. -/
def parseHeadersLooks (n : ℕ) : ℕ → Req → Cur → List Look
  | 0, _, _ => []
  | m + 1, req, d =>
    if d.rest = [] then []
    else parseLineLooks n d ++
      let (p, d) := proceedLine d
      if eol p d then []
      else match parseHeader req p d with
        | (.ok d, req) => parseHeadersLooks n m req d
        | (.error _, _) => []

/-- A call of `req_parse`. -/
def reqParseLooks (before : Byte) (req : Req) (lines : List Byte) : List Look :=
  let d : Cur := ⟨before, lines⟩
  if req.phase = .start then
    parseStartLooks lines.length d ++ match parseStart req d with
      | (.ok d, req) => parseHeadersLooks lines.length d.rest.length req d
      | (.error _, _) => []
  else if req.phase = .header then parseHeadersLooks lines.length lines.length req d
  else []

/-! ## Pointers into the chunk -/

/-- The pointer is in front of a line feed that ends the chunk. -/
structure Cur.Before (n : ℕ) (d : Cur) : Prop where
  /-- It is in the chunk. -/
  le : d.rest.length ≤ n
  /-- The chunk ends in a line feed. -/
  last : d.rest.getLast? = some LF

/-- A cursor in front of the last line feed has a byte to read. -/
theorem Cur.Before.pos (h : d.Before n) : 0 < d.rest.length := by
  have := h.last
  cases hd : d.rest with
  | nil => simp [hd] at this
  | cons b bs => simp

/-- A skip that stops at the line feed stays in front of it. -/
theorem Cur.Before.skip (h : d.Before n) (hf : f LF = false) : (d.skip f).Before n := by
  have hle : (d.rest.dropWhile f).length ≤ d.rest.length := (List.dropWhile_suffix f).length_le
  refine ⟨hle.trans h.le, ?_⟩
  have hmem : LF ∈ d.rest := List.mem_of_getLast? h.last
  have hne : d.rest.dropWhile f ≠ [] := List.ne_nil_of_mem (mem_dropWhile hf hmem)
  have hlast := h.last
  rw [← List.takeWhile_append_dropWhile (p := f) (l := d.rest),
    List.getLast?_append_of_ne_nil _ hne] at hlast
  exact hlast

/-- A skip does not go to the left. -/
theorem Cur.skip_le (d : Cur) (f : Byte → Bool) : (d.skip f).rest.length ≤ d.rest.length :=
  (List.dropWhile_suffix f).length_le

/-- A byte at the pointer or behind it. -/
theorem look_inside (hle : p.rest.length ≤ n) {i : ℕ} (hi : i < p.rest.length) :
    (p.look n i).Inside n := by
  refine .inr ⟨?_, ?_⟩
  · show 0 ≤ p.off n + i
    unfold Cur.off
    omega
  · show p.off n + i + (1 : ℕ) ≤ n
    unfold Cur.off
    omega

/-- A range from a pointer inside the chunk is inside the chunk if it is not too long. -/
theorem range_inside (hle : p.rest.length ≤ n) {len : ℕ} (hlen : len ≤ p.rest.length) :
    (Look.mk (p.off n) len).Inside n := by
  refine .inr ⟨?_, ?_⟩
  · show 0 ≤ p.off n
    unfold Cur.off
    omega
  · show p.off n + len ≤ n
    unfold Cur.off
    omega

/-- A copy of bytes in front of `d`. -/
theorem copy_inside (hle : p.rest.length ≤ n) (d : Cur) {k : ℕ} (hk : k ≤ p.dist d) :
    (copyLook n p k).Inside n :=
  range_inside hle ((min_le_left _ _).trans (hk.trans (p.dist_le d)))

/-- A loop stays inside the chunk. -/
theorem skip_inside (hle : d.rest.length ≤ n) (f : Byte → Bool) : (skipLook n f d).Inside n :=
  range_inside hle (min_le_right _ _)

/-- `proceed_inline` stays in front of the last line feed. -/
theorem proceedInline_before (h : d.Before n) :
    (proceedInline d).1.Before n ∧ (proceedInline d).2.Before n := by
  have hp : (proceedInline d).1.Before n := h.skip issp_LF
  exact ⟨hp, hp.skip (by decide)⟩

/-- `proceed_inline` looks at bytes of the chunk only. -/
theorem proceedInline_inside (h : d.Before n) : ∀ k ∈ proceedInlineLooks n d, k.Inside n := by
  simp only [proceedInlineLooks, List.forall_mem_cons, List.not_mem_nil,
    false_implies, implies_true, and_true]
  exact ⟨skip_inside h.le _, skip_inside (proceedInline_before h).1.le _⟩

/-- The pointers of `proceed_inline` only move forward. -/
theorem proceedInline_le (d : Cur) :
    (proceedInline d).1.rest.length ≤ d.rest.length ∧
      (proceedInline d).2.rest.length ≤ (proceedInline d).1.rest.length :=
  ⟨d.skip_le _, (proceedInline d).1.skip_le _⟩

/-- `eol` looks in front of its pointer. -/
theorem eol_inside (h : p.Before n) :
    (∀ k ∈ eolLooks n p d, k.Inside n) ↔ (p.rest.length = d.rest.length → p.rest.length < n) := by
  have hpos := h.pos
  have hne : p.rest ≠ [] := List.ne_nil_of_length_pos hpos
  have hprev : (p.look n (-1)).Inside n ↔ p.rest.length < n := by
    have hle := h.le
    simp only [Look.Inside, Cur.look, Cur.off]
    omega
  have h0 : (p.look n 0).Inside n := look_inside h.le hpos
  unfold eolLooks
  by_cases he : p.rest.length = d.rest.length
  · rw [if_pos ⟨he, hne⟩, List.forall_mem_cons, hprev]
    refine ⟨fun h _ => h.1, fun h => ⟨h he, ?_⟩⟩
    split_ifs <;> simp [h0]
  · rw [if_neg fun h => he h.1]
    simp [he]

/-! ## The request line -/

/-- The bytes behind the name of a method. -/
theorem methodOf_inside (hp : p.Before n) (hd : d.Before n) :
    ∀ k ∈ methodOfLooks n (strncpy0 p.rest (min 8 (p.dist d))) p, k.Inside n := by
  have hpos := hd.pos
  -- A name that matches lies in front of `d`, and so does the byte behind it or it is at `d`.
  have hroom : ∀ (w : List Byte) (m : ℕ), w.length = m →
    strncaseeq (strncpy0 p.rest (min 8 (p.dist d))) w m = true →
      m < p.rest.length := by
    intro w m hw h
    have hle := le_of_strncaseeq hw h
    have hcopy : (strncpy0 p.rest (min 8 (p.dist d))).length ≤ p.dist d :=
      ((List.takeWhile_prefix _).length_le.trans (List.length_take_le _ _)).trans (min_le_right _ _)
    have hdist : p.dist d = p.rest.length - d.rest.length := rfl
    have hp := hp.pos
    omega
  intro k hk
  simp only [methodOfLooks, List.mem_append] at hk
  rcases hk with (hk | hk) | hk
  · split_ifs at hk with h
    · rw [List.mem_singleton.1 hk]
      exact look_inside hp.le (i := 3) (hroom _ 3 rfl h)
    · simp at hk
  · split_ifs at hk with h
    · rw [List.mem_singleton.1 hk]
      exact look_inside hp.le (i := 4) (hroom _ 4 rfl h)
    · simp at hk
  · split_ifs at hk with h
    · rw [List.mem_singleton.1 hk]
      exact look_inside hp.le (i := 4) (hroom _ 4 rfl h)
    · simp at hk

/-- The request line behind the method: `eol` looks at a byte behind the method, too. -/
theorem parseTarget_inside (h : d.Before n) (hlt : d.rest.length < n) :
    ∀ k ∈ parseTargetLooks n d, k.Inside n := by
  obtain ⟨hp1, hd1⟩ := proceedInline_before h
  obtain ⟨hp2, hd2⟩ := proceedInline_before hd1
  obtain ⟨hp3, hd3⟩ := proceedInline_before hd2
  have hle1 := proceedInline_le d
  have hle2 := proceedInline_le (proceedInline d).2
  have hle3 := proceedInline_le (proceedInline (proceedInline d).2).2
  simp only [parseTargetLooks, List.forall_mem_append, List.forall_mem_cons]
  refine ⟨⟨⟨proceedInline_inside h, ?_, proceedInline_inside hd1⟩, ?_, proceedInline_inside hd2⟩,
    ?_⟩
  · exact copy_inside hp1.le _ (min_le_right _ _)
  · exact copy_inside hp2.le _ (min_le_right _ _)
  · exact (eol_inside hp3).2 fun _ => by omega

/-- The request line is parsed by looks inside the chunk. -/
theorem parseStart_inside (h : d.Before n) : ∀ k ∈ parseStartLooks n d, k.Inside n := by
  obtain ⟨hp, hd⟩ := proceedInline_before h
  have hmethod := methodOf_inside hp hd
  have hcopy := copy_inside hp.le (proceedInline d).2 (min_le_right 8 _)
  have hinline := proceedInline_inside h
  unfold parseStartLooks
  dsimp only
  split
  · exact List.forall_mem_append.2 ⟨hinline, List.forall_mem_singleton.2 hcopy⟩
  · rename_i hne
    -- The method is not empty, so the pointer behind it is not at the start of the chunk.
    have hlt : (proceedInline d).2.rest.length < n := by
      have hle := hp.le
      have hdist : (proceedInline d).1.dist (proceedInline d).2 =
          (proceedInline d).1.rest.length - (proceedInline d).2.rest.length := rfl
      have hpos : 0 < (proceedInline d).1.dist (proceedInline d).2 := by
        by_contra h0
        rw [Nat.eq_zero_of_not_pos h0] at hne
        exact hne rfl
      omega
    rw [List.forall_mem_append, List.forall_mem_append, List.forall_mem_append]
    refine ⟨⟨⟨hinline, List.forall_mem_singleton.2 hcopy⟩, hmethod⟩, ?_⟩
    cases methodOf _ (proceedInline d).1 with
    | none => simp
    | some m => exact parseTarget_inside hd hlt

/-- A call goes on from the pointer behind a line feed. -/
structure Cur.Behind (n : ℕ) (d : Cur) : Prop where
  /-- Some bytes of the chunk are behind it. -/
  lt : d.rest.length < n
  /-- The chunk ends there, or in a line feed. -/
  last : d.rest = [] ∨ d.rest.getLast? = some LF

/-- A cursor behind a line that is not the last is in front of a line feed. -/
theorem Cur.Behind.before (h : d.Behind n) (hd : d.rest ≠ []) : d.Before n :=
  ⟨h.lt.le, h.last.resolve_left hd⟩

/-- Behind the line feed at the pointer. -/
theorem Cur.Before.succ (h : d.Before n) (hd : d.rest.head? = some LF) : d.succ.Behind n := by
  have hle := h.le
  have hlast := h.last
  unfold Cur.succ
  cases hr : d.rest with
  | nil => simp [hr] at hd
  | cons c bs =>
    rw [hr] at hle hlast
    refine ⟨hle, ?_⟩
    cases bs with
    | nil => exact .inl rfl
    | cons c' bs => exact .inr (by simpa using hlast)

/-- Behind a request line, the cursor is behind its line feed. -/
theorem parseStart_behind {d' : Cur} {r' : Req} (h : d.Before n)
    (hout : parseStart r d = (.ok d', r')) :
    d'.Behind n ∧ r'.phase = .header := by
  have hd3 := (proceedInline_before (proceedInline_before (proceedInline_before h).2).2).2
  unfold parseStart at hout
  dsimp only at hout
  generalize (proceedInline (proceedInline (proceedInline d).2).2).2 = d3 at hd3 hout
  obtain ⟨hp4, hd4⟩ := proceedInline_before hd3
  have hskip : (proceedInline d3).2 = (proceedInline d3).1.skip fun c => !isspace c := rfl
  split at hout
  · simp [refuse] at hout
  split at hout
  · simp [refuse] at hout
  split at hout
  · rename_i he
    obtain ⟨h1, rfl⟩ := Prod.mk.inj hout
    refine ⟨?_, rfl⟩
    have hhead : (proceedInline d3).1.rest.head? = some LF := by
      simp only [eol, Bool.and_eq_true, beq_iff_eq] at he
      exact he.2
    rw [← Except.ok.inj h1]
    refine hd4.succ ?_
    -- The pointer is at a line feed, where no token begins.
    rw [hskip, Cur.skip_rest]
    cases hr : (proceedInline d3).1.rest with
    | nil => simp [hr] at hhead
    | cons c bs =>
      rw [hr, List.head?_cons, Option.some.injEq] at hhead
      subst hhead
      rfl
  · simp [refuse] at hout

/-! ## The header -/

/-- `proceed_line` stops at the line feed, in front of the end. -/
theorem proceedLine_before (h : d.Before n) :
    (proceedLine d).1.Before n ∧ (proceedLine d).2.Before n ∧
      (proceedLine d).2.rest.head? = some LF := by
  have hp : (proceedLine d).1.Before n := h.skip issp_LF
  have hd : (proceedLine d).2.Before n := hp.skip (by decide)
  have hne : (proceedLine d).2.rest ≠ [] := List.ne_nil_of_length_pos hd.pos
  have hstop : ((proceedLine d).2.rest.head hne != LF) = false :=
    List.head_dropWhile_not (· != LF) hne
  refine ⟨hp, hd, ?_⟩
  rw [List.head?_eq_some_head hne]
  simpa using hstop

/-- A header line is parsed by looks inside the chunk. -/
theorem parseHeader_inside (hp : p.Before n) (d : Cur) :
    ∀ k ∈ parseHeaderLooks n p d, k.Inside n := by
  have hq : (p.skip fun c => c != COLON && c != LF).Before n := hp.skip (by decide)
  have hdist := p.dist_le d
  unfold parseHeaderLooks
  dsimp only
  rw [List.cons_append, List.forall_mem_cons, List.forall_mem_append]
  generalize p.skip (fun c => c != COLON && c != LF) = q at hq ⊢
  refine ⟨range_inside hp.le ((min_le_right _ _).trans hdist), ?_, ?_⟩
  · split
    · simp
    · exact List.forall_mem_singleton.2 (look_inside hq.le hq.pos)
  · split
    · simp
    · have hle := hq.le
      have hval : q.succ.rest.length ≤ n ∧ q.dist d - 1 ≤ q.succ.rest.length := by
        have htail : q.succ.rest.length = q.rest.length - 1 := List.length_tail
        have := q.dist_le d
        omega
      rw [List.forall_mem_cons, List.forall_mem_singleton]
      refine ⟨copy_inside hp.le q (min_le_right _ _), range_inside hval.1 ?_⟩
      exact (min_le_left _ _).trans ((min_le_right _ _).trans hval.2)

/-- In one pass of the loop, only a line feed at the start of the chunk makes the parser look in
front of it. -/
theorem parseLine_inside (h : d.Before n) :
    (∀ k ∈ parseLineLooks n d, k.Inside n) ↔ ¬ (d.rest.length = n ∧ d.rest.head? = some LF) := by
  obtain ⟨hp, hd, -⟩ := proceedLine_before h
  have hline : ∀ k ∈ proceedLineLooks n d, k.Inside n := by
    simp only [proceedLineLooks, List.forall_mem_cons, List.not_mem_nil,
      false_implies, implies_true, and_true]
    exact ⟨skip_inside h.le _, skip_inside hp.le _⟩
  have hheader : ∀ k ∈ if eol (proceedLine d).1 (proceedLine d).2 then [] else
      parseHeaderLooks n (proceedLine d).1 (proceedLine d).2, k.Inside n := by
    split
    · simp
    · exact parseHeader_inside hp _
  have heol : ((proceedLine d).1.rest.length = (proceedLine d).2.rest.length →
    (proceedLine d).1.rest.length < n) ↔
      ¬ (d.rest.length = n ∧ d.rest.head? = some LF) := by
    have hp1 : (proceedLine d).1.rest = d.rest.dropWhile issp := rfl
    have hp2 : (proceedLine d).2.rest = (d.rest.dropWhile issp).dropWhile (· != LF) := rfl
    rw [hp1, hp2]
    have hle := h.le
    constructor
    · rintro hlt ⟨hn, hhead⟩
      cases hr : d.rest with
      | nil => simp [hr] at hhead
      | cons c bs =>
        rw [hr, List.head?_cons, Option.some.injEq] at hhead
        subst hhead
        rw [hr, List.dropWhile_cons_of_neg (by simp [issp_LF]),
          List.dropWhile_cons_of_neg (by simp)] at hlt
        have := hlt rfl
        rw [← hr] at this
        omega
    · intro hno hlen
      by_contra hge
      -- Nothing is skipped, so that the line feed is the first byte.
      have hlen1 : (d.rest.dropWhile issp).length ≤ d.rest.length :=
        (List.dropWhile_suffix _).length_le
      have hsame : d.rest.dropWhile issp = d.rest :=
        (List.dropWhile_suffix _).eq_of_length (by omega)
      rw [hsame] at hlen
      have hstay : d.rest.dropWhile (· != LF) = d.rest :=
        (List.dropWhile_suffix _).eq_of_length hlen.symm
      refine hno ⟨by rw [hsame] at hge; omega, ?_⟩
      have hne : d.rest.dropWhile (· != LF) ≠ [] := by
        rw [hstay]
        exact List.ne_nil_of_length_pos h.pos
      have hstop := List.head_dropWhile_not (· != LF) hne
      rw [← hstay, List.head?_eq_some_head hne]
      simpa using hstop
  unfold parseLineLooks
  dsimp only
  rw [List.forall_mem_append, List.forall_mem_append, eol_inside hp, heol]
  exact ⟨fun h => h.1.2, fun h => ⟨⟨hline, h⟩, hheader⟩⟩

/-- The loop goes on behind a line. -/
theorem parseHeader_behind {p d' : Cur} {r' : Req} (h : d.Before n)
    (hout : parseHeader r p (proceedLine d).2 = (.ok d', r')) : d'.Behind n := by
  obtain ⟨-, hd, hhead⟩ := proceedLine_before h
  rw [(parseHeader_ok hout).1]
  exact hd.succ hhead

/-- Behind the first line the loop stays inside the chunk. -/
theorem parseHeaders_inside (m : ℕ) (h : d.Behind n) :
    ∀ k ∈ parseHeadersLooks n m r d, k.Inside n := by
  induction m generalizing r d with
  | zero => simp [parseHeadersLooks]
  | succ m ih =>
    unfold parseHeadersLooks
    dsimp only
    split
    · simp
    · rename_i hd
      have hlt := h.lt
      have hb := h.before hd
      rw [List.forall_mem_append]
      refine ⟨(parseLine_inside hb).2 fun hn => by omega, ?_⟩
      split
      · simp
      · rcases hout : parseHeader r (proceedLine d).1 (proceedLine d).2 with ⟨st | d', r'⟩
        · simp
        · exact ih (parseHeader_behind hb hout)

/-- What a call looks at lies inside its chunk, unless it resumes a header at a line feed. -/
theorem looks_iff (b : Byte) (r : Req) {buf : List Byte} (hend : buf.getLast? = some LF) :
    (∀ k ∈ reqParseLooks b r buf, k.Inside buf.length) ↔
      ¬ (r.phase = .header ∧ buf.head? = some LF) := by
  have hd : (Cur.mk b buf).Before buf.length := ⟨le_rfl, hend⟩
  unfold reqParseLooks
  dsimp only
  by_cases hs : r.phase = .start
  · rw [if_pos hs, List.forall_mem_append]
    refine iff_of_true ⟨parseStart_inside hd, ?_⟩ fun h => by simp [hs] at h
    rcases hout : parseStart r ⟨b, buf⟩ with ⟨st | d', r'⟩
    · simp
    · exact parseHeaders_inside _ (parseStart_behind hd hout).1
  · by_cases hh : r.phase = .header
    · rw [if_neg hs, if_pos hh]
      -- The first line, which may begin in front of a line feed, and the others.
      obtain ⟨m, hm⟩ : ∃ m, buf.length = m + 1 :=
        ⟨buf.length - 1, by have := hd.pos; simp only at this; omega⟩
      have hne : buf ≠ [] := List.ne_nil_of_length_pos hd.pos
      have hrest : ∀ k ∈ (if eol (proceedLine ⟨b, buf⟩).1 (proceedLine ⟨b, buf⟩).2 then [] else
          match parseHeader r (proceedLine ⟨b, buf⟩).1 (proceedLine ⟨b, buf⟩).2 with
          | (.ok d, r) => parseHeadersLooks buf.length m r d
          | (.error _, _) => []), k.Inside buf.length := by
        split
        · simp
        · rcases hout :
            parseHeader r (proceedLine ⟨b, buf⟩).1 (proceedLine ⟨b, buf⟩).2 with ⟨st | d', r'⟩
          · simp
          · exact parseHeaders_inside _ (parseHeader_behind hd hout)
      have hfirst := parseLine_inside hd
      have hloop : parseHeadersLooks buf.length buf.length r ⟨b, buf⟩ = parseHeadersLooks buf.length
        (m + 1) r ⟨b, buf⟩ := by
        rw [← hm]
      rw [hloop, parseHeadersLooks, if_neg hne, List.forall_mem_append, hfirst]
      simp only [hh, true_and]
      exact ⟨fun h => h.1, fun h => ⟨h, hrest⟩⟩
    · rw [if_neg hs, if_neg hh]
      simp [hh]

end Liso
