import Liso.Parse.Fields
import Liso.Lib.Cut

/-!
# The parser reads line by line

Every pointer of `req_parse` stays in front of the line feed of the line it reads, so that what
stands behind a complete line does not matter to it (`parsePhases_line`). The parser on a chunk of
complete lines is therefore the fold of its steps on single lines (`reqParse_lines`), and the state
that it is in after a stream depends on the stream alone, not on how the stream was cut into chunks:
`scanHead` computes it.
-/

namespace Liso

variable {r : Req} {p d : Cur} {y : List Byte} {f : Byte → Bool}

/-! ## More bytes behind the line -/

/-- The chunk goes on with `y`. -/
def Cur.ext (d : Cur) (y : List Byte) : Cur := ⟨d.prev, d.rest ++ y⟩

/-- The pointer, if there is one, into the chunk that goes on with `y`. -/
def Parsed.ext (out : Parsed) (y : List Byte) : Parsed := (out.1.map (·.ext y), out.2)

/-- More bytes at the end leave the byte behind the cursor alone. -/
@[simp] theorem Cur.ext_prev (d : Cur) (y : List Byte) : (d.ext y).prev = d.prev := rfl

/-- More bytes at the end stand behind those that the cursor has in front of it. -/
@[simp] theorem Cur.ext_rest (d : Cur) (y : List Byte) : (d.ext y).rest = d.rest ++ y := rfl

/-- What is left when the bytes with `f` are skipped. -/
@[simp] theorem Cur.skip_rest (f : Byte → Bool) (d : Cur) : (d.skip f).rest = d.rest.dropWhile f :=
    rfl

/-- A search that the line feed ends leaves it in front. -/
theorem mem_dropWhile {bs : List Byte} (hf : f LF = false) (h : LF ∈ bs) : LF ∈ bs.dropWhile f := by
  rw [← List.takeWhile_append_dropWhile (p := f) (l := bs), List.mem_append] at h
  refine h.resolve_left fun hmem => ?_
  have := List.mem_takeWhile_imp hmem
  rw [hf] at this
  exact Bool.noConfusion this

/-- A skip that stops at the line feed does not see more bytes. -/
theorem Cur.skip_ext (hf : f LF = false) (h : LF ∈ d.rest) :
    (d.ext y).skip f = (d.skip f).ext y := by
  have hmem := mem_dropWhile hf h
  have hne : ¬ (d.rest.dropWhile f).isEmpty := by
    cases hd : d.rest.dropWhile f with
    | nil => simp [hd] at hmem
    | cons _ _ => simp
  have hlen : (d.rest.takeWhile f).length ≠ d.rest.length := by
    intro he
    have hsum := congrArg List.length (List.takeWhile_append_dropWhile (p := f) (l := d.rest))
    rw [List.length_append, he] at hsum
    have := List.length_pos_of_mem hmem
    omega
  simp only [Cur.skip, Cur.ext, List.takeWhile_append, List.dropWhile_append,
    if_neg hne, if_neg hlen]

/-- A skip that stops at the line feed leaves it in front of the cursor. -/
theorem Cur.skip_mem (hf : f LF = false) (h : LF ∈ d.rest) : LF ∈ (d.skip f).rest :=
  mem_dropWhile hf h

/-- The distance of two cursors does not depend on the bytes behind them. -/
theorem Cur.dist_ext (p d : Cur) (y : List Byte) : (p.ext y).dist (d.ext y) = p.dist d := by
  simp only [Cur.dist, Cur.ext_rest, List.length_append]
  omega

/-- The distance of two cursors is not longer than what is in front of the first one. -/
theorem Cur.dist_le (p d : Cur) : p.dist d ≤ p.rest.length := Nat.sub_le _ _

/-- What is copied from `[p, d)`. -/
theorem Cur.take_ext (p d : Cur) (y : List Byte) {n : ℕ} (h : n ≤ p.dist d) :
    (p.ext y).rest.take n = p.rest.take n :=
  List.take_append_of_le_length (h.trans (p.dist_le d))

/-- A step to the right does not see more bytes, in front of a line feed. -/
theorem Cur.succ_ext (h : LF ∈ d.rest) : (d.ext y).succ = d.succ.ext y := by
  obtain ⟨prev, rest⟩ := d
  cases rest with
  | nil => simp at h
  | cons b bs => rfl

/-- A line feed is no blank. -/
theorem issp_LF : issp LF = false := by decide

/-- `proceed_inline` does not see what is behind the line. -/
theorem proceedInline_ext (h : LF ∈ d.rest) :
    proceedInline (d.ext y) = ((proceedInline d).1.ext y, (proceedInline d).2.ext y) ∧
      LF ∈ (proceedInline d).1.rest ∧ LF ∈ (proceedInline d).2.rest := by
  have hf : (fun c => !isspace c) LF = false := by decide
  have h1 := Cur.skip_mem issp_LF h
  refine ⟨?_, h1, Cur.skip_mem hf h1⟩
  rw [proceedInline, Cur.skip_ext issp_LF h]
  exact congrArg (Prod.mk _) (Cur.skip_ext hf h1)

/-- `proceed_line` does not see what is behind the line. -/
theorem proceedLine_ext (h : LF ∈ d.rest) :
    proceedLine (d.ext y) = ((proceedLine d).1.ext y, (proceedLine d).2.ext y) ∧
      LF ∈ (proceedLine d).1.rest ∧ LF ∈ (proceedLine d).2.rest := by
  have hf : (fun c : Byte => c != LF) LF = false := by decide
  have h1 := Cur.skip_mem issp_LF h
  refine ⟨?_, h1, Cur.skip_mem hf h1⟩
  rw [proceedLine, Cur.skip_ext issp_LF h]
  exact congrArg (Prod.mk _) (Cur.skip_ext hf h1)

/-- `eol` does not see what is behind the line. -/
theorem eol_ext (h : LF ∈ p.rest) : eol (p.ext y) (d.ext y) = eol p d := by
  have hlen : ((p.rest ++ y).length == (d.rest ++ y).length) =
    (p.rest.length == d.rest.length) := by
    rw [Bool.eq_iff_iff]
    simp
  have hhead : (p.rest ++ y).head? = p.rest.head? := by
    cases hr : p.rest with
    | nil => simp [hr] at h
    | cons b bs => rfl
  rw [eol, Cur.ext_rest, Cur.ext_rest, hlen, hhead]
  rfl

/-- The target is parsed inside of the line. -/
theorem parseUri_ext (r : Req) (p d : Cur) (y : List Byte) :
    parseUri r (p.ext y) (d.ext y) = parseUri r p d := by
  have h : strncpy0 (p.ext y).rest (min REQ_URISZ ((p.ext y).dist (d.ext y))) =
      strncpy0 p.rest (min REQ_URISZ (p.dist d)) := by
    rw [Cur.dist_ext, strncpy0, Cur.take_ext p d y (min_le_right _ _)]
    rfl
  unfold parseUri
  rw [h]

/-- A method's name has as many bytes as are compared. -/
theorem le_of_strncaseeq {s w : List Byte} {n : ℕ} (hw : w.length = n)
    (h : strncaseeq s w n = true) : n ≤ s.length := by
  unfold strncaseeq strcaseeq at h
  have hlen := congrArg List.length (eq_of_beq h)
  simp only [List.length_map, List.length_take] at hlen
  omega

/-- The method is read inside of the line. -/
theorem methodOf_ext (hp : LF ∈ p.rest) (h : LF ∈ d.rest) (y : List Byte) :
    methodOf (strncpy0 p.rest (min 8 (p.dist d))) (p.ext y) =
      methodOf (strncpy0 p.rest (min 8 (p.dist d))) p := by
  -- The byte behind the name belongs to the line.
  have hget : ∀ (w : List Byte) (n : ℕ), w.length = n →
      (strncaseeq (strncpy0 p.rest (min 8 (p.dist d))) w n && issp ((p.ext y).rest.getD n 0)) =
        (strncaseeq (strncpy0 p.rest (min 8 (p.dist d))) w n && issp (p.rest.getD n 0)) := by
    intro w n hw
    cases hm : strncaseeq (strncpy0 p.rest (min 8 (p.dist d))) w n with
    | false => rfl
    | true =>
      have hn := le_of_strncaseeq hw hm
      have hcopy : (strncpy0 p.rest (min 8 (p.dist d))).length ≤ p.dist d := by
        refine ((List.takeWhile_prefix _).length_le.trans (List.length_take_le _ _)).trans ?_
        exact min_le_right _ _
      have hpos := List.length_pos_of_mem h
      have hpos' := List.length_pos_of_mem hp
      have hlt : n < p.rest.length := by
        have hdist : p.dist d = p.rest.length - d.rest.length := rfl
        omega
      rw [Cur.ext_rest, List.getD_append _ _ _ _ hlt]
  unfold methodOf
  rw [hget _ 3 (by decide), hget _ 4 (by decide), hget _ 4 (by decide)]

/-- The request line is parsed without what is behind it. -/
theorem parseStart_ext (h : LF ∈ d.rest) : parseStart r (d.ext y) = (parseStart r d).ext y := by
  obtain ⟨he1, hp1, hd1⟩ := proceedInline_ext (y := y) h
  unfold parseStart
  rw [he1]
  rcases hpd : proceedInline d with ⟨p1, d1⟩
  rw [hpd] at hp1 hd1
  dsimp only at hp1 hd1 ⊢
  obtain ⟨he2, hp2, hd2⟩ := proceedInline_ext (y := y) hd1
  -- The method is copied out of the line, so what is behind it does not matter.
  have hcopy : strncpy0 (p1.rest ++ y) (min 8 ((p1.ext y).dist (d1.ext y))) =
    strncpy0 p1.rest (min 8 (p1.dist d1)) := by
    rw [Cur.dist_ext, strncpy0, ← Cur.ext_rest, Cur.take_ext p1 d1 y (min_le_right _ _)]
    rfl
  rw [Cur.ext_rest, hcopy, methodOf_ext hp1 hd1, he2]
  split
  · rfl
  cases methodOf (strncpy0 p1.rest (min 8 (p1.dist d1))) p1 with
  | none => rfl
  | some m =>
    dsimp only
    rcases hpd : proceedInline d1 with ⟨p2, d2⟩
    rw [hpd] at hp2 hd2
    dsimp only at hp2 hd2 ⊢
    obtain ⟨he3, hp3, hd3⟩ := proceedInline_ext (y := y) hd2
    rw [parseUri_ext, he3]
    rcases hpd : proceedInline d2 with ⟨p3, d3⟩
    rw [hpd] at hp3 hd3
    dsimp only at hp3 hd3 ⊢
    obtain ⟨he4, hp4, hd4⟩ := proceedInline_ext (y := y) hd3
    -- So is the version.
    have hvers : strncpy0 (p3.rest ++ y) (min REQ_VERSZ ((p3.ext y).dist (d3.ext y))) =
        strncpy0 p3.rest (min REQ_VERSZ (p3.dist d3)) := by
      rw [Cur.dist_ext, strncpy0, ← Cur.ext_rest, Cur.take_ext p3 d3 y (min_le_right _ _)]
      rfl
    rw [Cur.ext_rest, hvers, he4]
    rcases hpd : proceedInline d3 with ⟨p4, d4⟩
    rw [hpd] at hp4 hd4
    dsimp only at hp4 hd4 ⊢
    rw [eol_ext hp4, Cur.succ_ext hd4]
    split <;> rfl

/-- The end of the head is parsed without what is behind it. -/
theorem parseEnd_ext (h : LF ∈ d.rest) : parseEnd r (d.ext y) = (parseEnd r d).ext y := by
  unfold parseEnd
  dsimp only
  rw [Cur.succ_ext h]
  split_ifs <;> rfl

/-- A header line is parsed without what is behind it. -/
theorem parseHeader_ext (hp : LF ∈ p.rest) (hd : LF ∈ d.rest) :
    parseHeader r (p.ext y) (d.ext y) = (parseHeader r p d).ext y := by
  have hf : (fun c : Byte => c != COLON && c != LF) LF = false := by decide
  have hq := Cur.skip_mem (f := fun c => c != COLON && c != LF) hf hp
  unfold parseHeader
  rw [Cur.skip_ext (f := fun c => c != COLON && c != LF) hf hp]
  generalize p.skip (fun c => c != COLON && c != LF) = q at hq ⊢
  dsimp only
  have hhead : (q.rest ++ y).head? = q.rest.head? := by
    cases hr : q.rest with
    | nil => simp [hr] at hq
    | cons b bs => rfl
  have hkey : strncpy0 (p.rest ++ y) (min HDR_KEYSZ (p.dist q)) =
    strncpy0 p.rest (min HDR_KEYSZ (p.dist q)) := by
    rw [strncpy0, ← Cur.ext_rest, Cur.take_ext p q y (min_le_right _ _)]
    rfl
  have hval : strncpy0 (q.rest ++ y).tail (min HDR_VALSZ (q.dist d - 1)) =
      strncpy0 q.rest.tail (min HDR_VALSZ (q.dist d - 1)) := by
    have htail : (q.rest ++ y).tail = q.rest.tail ++ y := by
      cases hr : q.rest with
      | nil => simp [hr] at hq
      | cons b bs => rfl
    have hle := q.dist_le d
    rw [htail, strncpy0, List.take_append_of_le_length (by rw [List.length_tail]; omega)]
    rfl
  rw [Cur.dist_ext, Cur.dist_ext, Cur.ext_rest, Cur.ext_rest, hhead, hkey, hval, Cur.succ_ext hd]
  split
  · rfl
  · cases parseField r (strstrip (strncpy0 p.rest (min HDR_KEYSZ (p.dist q))))
      (strstrip (strncpy0 q.rest.tail (min HDR_VALSZ (q.dist d - 1)))) with
    | none => rfl
    | some r' => rfl

/-! ## One line -/

/-- The parser on a line behind the request line. -/
def parseLine (r : Req) (d : Cur) : Parsed :=
  if eol (proceedLine d).1 (proceedLine d).2 then parseEnd r (proceedLine d).2
  else parseHeader r (proceedLine d).1 (proceedLine d).2

/-- A header line that is accepted ends at the cursor, and leaves the phase. -/
theorem parseHeader_ok {d' : Cur} {r' : Req} (h : parseHeader r p d = (.ok d', r')) :
    d' = d.succ ∧ r'.phase = r.phase := by
  unfold parseHeader at h
  dsimp only at h
  split at h
  · simp [refuse] at h
  · split at h
    · simp [refuse] at h
    · rename_i r1 hr1
      obtain ⟨h1, h2⟩ := Prod.mk.inj h
      exact ⟨(Except.ok.inj h1).symm, h2 ▸ parseField_phase hr1⟩

/-- The blank line ends the head. -/
theorem parseEnd_ok {d' : Cur} {r' : Req} (h : parseEnd r d = (.ok d', r')) :
    d' = d.succ ∧ r'.phase = .body := by
  unfold parseEnd at h
  dsimp only at h
  split_ifs at h
  · simp [refuse] at h
  all_goals
    obtain ⟨h1, rfl⟩ := Prod.mk.inj h
    exact ⟨(Except.ok.inj h1).symm, rfl⟩

/-- The loop of the parser, line by line. -/
theorem parseHeaders_succ (n : ℕ) {r : Req} (hr : r.phase = .header) {d : Cur} (hd : d.rest ≠ []) :
    parseHeaders (n + 1) r d =
      match parseLine r d with
      | (.ok d', r') => if r'.phase = .body then (.ok d', r') else parseHeaders n r' d'
      | (.error status, r') => (.error status, r') := by
  rw [parseHeaders, if_neg hd, parseLine]
  dsimp only
  split
  · rcases hend : parseEnd r (proceedLine d).2 with ⟨st | d', r'⟩
    · rfl
    · dsimp only
      rw [if_pos (parseEnd_ok hend).2]
  · rcases hhdr : parseHeader r (proceedLine d).1 (proceedLine d).2 with ⟨st | d', r'⟩
    · rfl
    · dsimp only
      rw [if_neg]
      rw [(parseHeader_ok hhdr).2, hr]
      simp

/-- What the parser does with a line does not depend on what is behind it. -/
theorem parseLine_ext (h : LF ∈ d.rest) : parseLine r (d.ext y) = (parseLine r d).ext y := by
  obtain ⟨he, hp, hd⟩ := proceedLine_ext (y := y) h
  unfold parseLine
  rw [he]
  dsimp only
  rw [eol_ext hp, parseEnd_ext hd, parseHeader_ext hp hd]
  split <;> rfl

open Cut (IsLine)

/-- A part of a line that has the line feed: from there on, it is all that is left. -/
theorem line_suffix {l bs : List Byte} (hl : IsLine LF l) (hs : bs <:+ l) (h : LF ∈ bs) :
    bs.dropWhile (· != LF) = [LF] := by
  obtain ⟨text, rfl, hno⟩ := hl
  obtain ⟨front, hfront⟩ := hs
  obtain ⟨text', rfl⟩ : ∃ text', bs = text' ++ [LF] := by
    rcases List.eq_nil_or_concat' bs with rfl | ⟨text', b, rfl⟩
    · simp at h
    · rw [← List.append_assoc] at hfront
      exact ⟨text', by rw [(List.append_inj' hfront rfl).2]⟩
  have hsub : ∀ b ∈ text', (b != LF) = true := by
    intro b hb
    rw [← List.append_assoc] at hfront
    have hmem : b ∈ text := (List.append_inj' hfront rfl).1 ▸ List.mem_append_right _ hb
    simpa using fun he : b = LF => hno (he ▸ hmem)
  rw [List.dropWhile_append, List.dropWhile_eq_nil_iff.2 hsub]
  rfl

/-- The pointer behind a line feed that is all that is left. -/
theorem succ_line {d : Cur} (h : d.rest = [LF]) : d.succ = ⟨LF, []⟩ := by
  rw [Cur.succ, h]
  rfl

/-- A line has a line feed. -/
theorem lf_mem_line {l : List Byte} (hl : IsLine LF l) : LF ∈ l := by
  obtain ⟨text, rfl, -⟩ := hl
  simp

/-- A line behind the request line is read to its end. -/
theorem parseLine_ok {b : Byte} {l : List Byte} (hl : IsLine LF l) {d' : Cur} {r' : Req}
    (h : parseLine r ⟨b, l⟩ = (.ok d', r')) : d' = ⟨LF, []⟩ := by
  have hmem : LF ∈ (Cur.mk b l).rest := lf_mem_line hl
  have hend : (proceedLine ⟨b, l⟩).2.succ = ⟨LF, []⟩ :=
    succ_line (line_suffix hl (List.dropWhile_suffix _) (Cur.skip_mem issp_LF hmem))
  unfold parseLine at h
  split at h
  · rw [(parseEnd_ok h).1, hend]
  · rw [(parseHeader_ok h).1, hend]

/-- A request line that is accepted is used up, and the header lines follow. -/
theorem parseStart_ok {b : Byte} {l : List Byte} (hl : IsLine LF l) {d' : Cur} {r' : Req}
    (h : parseStart r ⟨b, l⟩ = (.ok d', r')) : d' = ⟨LF, []⟩ ∧ r'.phase = .header := by
  have hsuf : ∀ d : Cur, (proceedInline d).2.rest <:+ d.rest := fun d =>
    (List.dropWhile_suffix _).trans (List.dropWhile_suffix _)
  unfold parseStart at h
  dsimp only at h
  have hs3 := (hsuf _).trans ((hsuf _).trans (hsuf ⟨b, l⟩))
  generalize (proceedInline (proceedInline (proceedInline ⟨b, l⟩).2).2).2 = d3 at h hs3
  have hp4 : (proceedInline d3).1.rest <:+ l := (List.dropWhile_suffix _).trans hs3
  have hd4 : (proceedInline d3).2 = (proceedInline d3).1.skip fun c => !isspace c := rfl
  generalize (proceedInline d3).1 = p4 at h hp4 hd4
  split at h
  · simp [refuse] at h
  split at h
  · simp [refuse] at h
  split at h
  · rename_i m _ he
    obtain ⟨h1, rfl⟩ := Prod.mk.inj h
    refine ⟨?_, rfl⟩
    rw [← Except.ok.inj h1]
    -- The pointer is at a line feed, which is the last byte.
    have hhead : p4.rest.head? = some LF := by
      simp only [eol, Bool.and_eq_true, beq_iff_eq] at he
      exact he.2
    obtain ⟨bs, hbs⟩ : ∃ bs, p4.rest = LF :: bs := by
      cases hr : p4.rest with
      | nil => simp [hr] at hhead
      | cons c bs => exact ⟨bs, by rw [hr, List.head?_cons, Option.some.injEq] at hhead; rw [hhead]⟩
    have hp : p4.rest = [LF] := by
      have := line_suffix hl hp4 (by simp [hbs])
      rwa [hbs, List.dropWhile_cons_of_neg (by simp), ← hbs] at this
    refine succ_line ?_
    rw [hd4, Cur.skip_rest, hp]
    rfl
  · simp [refuse] at h

/-! ## The byte in front of a chunk -/

/-- A search that moves forgets the byte in front of its start. -/
theorem Cur.skip_prev {l : List Byte} (h : l.takeWhile f ≠ []) (b b' : Byte) :
    Cur.skip f ⟨b, l⟩ = Cur.skip f ⟨b', l⟩ := by
  unfold Cur.skip
  dsimp only
  cases hl : l.takeWhile f with
  | nil => exact absurd hl h
  | cons c cs => rfl

/-- The request line does not look at it. -/
theorem parseStart_prev (r : Req) (b b' : Byte) (l : List Byte) :
    parseStart r ⟨b, l⟩ = parseStart r ⟨b', l⟩ := by
  unfold parseStart
  dsimp only
  have hp : (proceedInline ⟨b, l⟩).1.rest = (proceedInline ⟨b', l⟩).1.rest := rfl
  have hdist : (proceedInline ⟨b, l⟩).1.dist (proceedInline ⟨b, l⟩).2 =
      (proceedInline ⟨b', l⟩).1.dist (proceedInline ⟨b', l⟩).2 := rfl
  have hmethod : ∀ m, methodOf m (proceedInline ⟨b, l⟩).1 = methodOf m (proceedInline ⟨b', l⟩).1 :=
    fun _ => rfl
  rw [hp, hdist, hmethod]
  split
  · rfl
  · rename_i hlen
    -- There is a method, and the pointer behind it has moved.
    have hmove : (proceedInline ⟨b', l⟩).1.rest.takeWhile (fun c => !isspace c) ≠ [] := by
      intro hnil
      refine hlen ?_
      have hrest := List.takeWhile_append_dropWhile (p := fun c => !isspace c)
        (l := (proceedInline ⟨b', l⟩).1.rest)
      rw [hnil, List.nil_append] at hrest
      have hzero : (proceedInline ⟨b', l⟩).1.dist (proceedInline ⟨b', l⟩).2 = 0 := by
        rw [Cur.dist]
        exact Nat.sub_eq_zero_of_le (congrArg List.length hrest).ge
      rw [hzero]
      rfl
    have hd : (proceedInline ⟨b, l⟩).2 = (proceedInline ⟨b', l⟩).2 := Cur.skip_prev hmove _ _
    rw [hd]

/-- A line behind the request line looks at it only if it begins with the line feed. -/
theorem parseLine_prev (r : Req) (b b' : Byte) {l : List Byte} (hne : l ≠ [])
    (hl : l.head? ≠ some LF) :
    parseLine r ⟨b, l⟩ = parseLine r ⟨b', l⟩ := by
  by_cases hsp : l.takeWhile issp = []
  · have hrest : l.dropWhile issp = l := by
      have h := List.takeWhile_append_dropWhile (p := issp) (l := l)
      rwa [hsp] at h
    have hskip : ∀ x, Cur.skip issp ⟨x, l⟩ = ⟨x, l⟩ := fun x => by
      rw [Cur.skip, hrest, hsp]
      rfl
    have hmove : l.takeWhile (· != LF) ≠ [] := by
      obtain ⟨c, cs, rfl⟩ := List.exists_cons_of_ne_nil hne
      have hc : (c != LF) = true := by simpa using hl
      simp [hc]
    have heol : ∀ x d, eol ⟨x, l⟩ d = false := by
      intro x d
      have hhead : (l.head? == some LF) = false := beq_eq_false_iff_ne.2 hl
      simp [eol, hhead]
    have hd := Cur.skip_prev (f := (· != LF)) hmove b b'
    unfold parseLine proceedLine
    dsimp only
    rw [hskip, hskip, heol, heol, hd]
    rfl
  · have hd := Cur.skip_prev (f := issp) hsp b b'
    unfold parseLine proceedLine
    rw [hd]

/-! ## The head of a stream -/

/-- The parser after some lines: the status with which it refused the request, if it did, the
request, and the number of bytes it has read. -/
structure Head where
  /-- The status. -/
  status : Option ℤ
  /-- The request. -/
  req : Req
  /-- The number of bytes. -/
  used : ℕ

/-- The head is not complete. -/
def Head.Open (h : Head) : Prop := h.status = none ∧ (h.req.phase = .start ∨ h.req.phase = .header)

/-- `Head.Open` is decidable. -/
instance (h : Head) : Decidable h.Open := inferInstanceAs (Decidable (_ ∧ _))

/-- One more line, with the byte in front of it. -/
def Head.feedFrom (h : Head) (b : Byte) (line : List Byte) : Head :=
  if h.Open then
    match parsePhases h.req ⟨b, line⟩ with
    | (.ok _, r) => ⟨none, r, h.used + line.length⟩
    | (.error status, r) => ⟨some status, r, h.used + line.length⟩
  else h

/-- One more line, behind another. -/
def Head.feed (h : Head) (line : List Byte) : Head := h.feedFrom LF line

/-- The parser after the lines of a stream. -/
def scanHead (r : Req) (stream : List Byte) : Head :=
  (Cut.lines LF stream).foldl Head.feed ⟨none, r, 0⟩

/-- What `req_parse` returns for it. -/
def Head.parsed (h : Head) : ℤ × Req :=
  match h.status with
  | none => (h.used, h.req)
  | some status => (-status, h.req)

/-- The request of a parsed head. -/
@[simp] theorem Head.parsed_req (h : Head) : h.parsed.2 = h.req := by
  rcases h with ⟨_ | st, r, n⟩ <;> rfl

/-- With no bytes left, the loop ends. -/
theorem parseHeaders_nil (n : ℕ) (r : Req) {d : Cur} (hd : d.rest = []) :
    parseHeaders n r d = (.ok d, r) := by
  cases n with
  | zero => rfl
  | succ n => rw [parseHeaders, if_pos hd]

/-- Every line takes a byte at least. -/
theorem parseLine_shorter {d d' : Cur} {r' : Req} (hd : d.rest ≠ [])
    (h : parseLine r d = (.ok d', r')) :
    d'.rest.length < d.rest.length := by
  have hle : (proceedLine d).2.rest.length ≤ d.rest.length :=
    ((List.dropWhile_suffix _).trans (List.dropWhile_suffix _)).length_le
  have hpos := List.length_pos_of_ne_nil hd
  have hend : d' = (proceedLine d).2.succ := by
    unfold parseLine at h
    split at h
    · exact (parseEnd_ok h).1
    · exact (parseHeader_ok h).1
  rw [hend, Cur.succ, List.length_tail]
  omega

/-- Behind a header line that is accepted, the parser stands inside the head or behind it. -/
theorem parseLine_phase {d d' : Cur} {r' : Req} (hr : r.phase = .header)
    (h : parseLine r d = (.ok d', r')) :
    r'.phase = .header ∨ r'.phase = .body := by
  unfold parseLine at h
  split at h
  · exact .inr (parseEnd_ok h).2
  · exact .inl ((parseHeader_ok h).2.trans hr)

/-- As many passes as there are bytes are enough. -/
theorem parseHeaders_fuel {n m : ℕ} {r : Req} (hr : r.phase = .header) {d : Cur}
    (hn : d.rest.length ≤ n) (hm : d.rest.length ≤ m) :
    parseHeaders n r d = parseHeaders m r d := by
  induction n generalizing m r d with
  | zero =>
    have hd : d.rest = [] := List.length_eq_zero_iff.1 (by omega)
    rw [parseHeaders_nil _ _ hd, parseHeaders_nil _ _ hd]
  | succ n ih =>
    by_cases hd : d.rest = []
    · rw [parseHeaders_nil _ _ hd, parseHeaders_nil _ _ hd]
    have hpos := List.length_pos_of_ne_nil hd
    obtain ⟨m, rfl⟩ : ∃ k, m = k + 1 := ⟨m - 1, by omega⟩
    rw [parseHeaders_succ n hr hd, parseHeaders_succ m hr hd]
    rcases hline : parseLine r d with ⟨st | d', r'⟩
    · rfl
    · dsimp only
      have hlt := parseLine_shorter hd hline
      split
      · rfl
      · rename_i hb
        exact ih ((parseLine_phase hr hline).resolve_right hb) (by omega) (by omega)

/-- A complete line of the header, parsed alone. -/
theorem parsePhases_header {r : Req} (hr : r.phase = .header) {b : Byte} {l : List Byte}
    (hl : IsLine LF l) :
    parsePhases r ⟨b, l⟩ = parseLine r ⟨b, l⟩ := by
  have hne : (Cur.mk b l).rest ≠ [] := List.ne_nil_of_mem (lf_mem_line hl)
  obtain ⟨n, hn⟩ : ∃ n, l.length = n + 1 :=
    ⟨l.length - 1, by have := List.length_pos_of_ne_nil hne; simp only at this; omega⟩
  rw [parsePhases, if_neg (by simp [hr]), if_pos hr]
  simp only [hn]
  rw [parseHeaders_succ n hr hne]
  rcases hline : parseLine r ⟨b, l⟩ with ⟨st | d', r'⟩
  · rfl
  · dsimp only
    rw [parseHeaders_nil n r' (by rw [parseLine_ok hl hline]), ite_self]

/-- A request line alone is parsed by the first phase only. -/
theorem parsePhases_start {r : Req} (hr : r.phase = .start) {b : Byte} {l : List Byte}
    (hl : IsLine LF l) :
    parsePhases r ⟨b, l⟩ = parseStart r ⟨b, l⟩ := by
  rw [parsePhases, if_pos hr]
  rcases hline : parseStart r ⟨b, l⟩ with ⟨st | d', r'⟩
  · rfl
  · dsimp only
    rw [parseHeaders_nil _ r' (by rw [(parseStart_ok hl hline).1])]

/-- A complete line, and more bytes behind it. -/
theorem parsePhases_line {r : Req} (hr : r.phase = .start ∨ r.phase = .header) {b : Byte}
    {l : List Byte} (hl : IsLine LF l) (y : List Byte) :
    parsePhases r ⟨b, l ++ y⟩ =
      match parsePhases r ⟨b, l⟩ with
      | (.ok _, r') => if r'.phase = .body then (.ok ⟨LF, y⟩, r') else parsePhases r' ⟨LF, y⟩
      | (.error status, r') => (.error status, r') := by
  have hmem : LF ∈ (Cur.mk b l).rest := lf_mem_line hl
  have hne : l ≠ [] := List.ne_nil_of_mem hmem
  rcases hr with hr | hr
  · have hext := parseStart_ext (r := r) (y := y) hmem
    rw [parsePhases_start hr hl, parsePhases, if_pos hr]
    rw [show (⟨b, l ++ y⟩ : Cur) = (Cur.mk b l).ext y from rfl, hext]
    rcases hline : parseStart r ⟨b, l⟩ with ⟨st | d', r'⟩
    · rfl
    · obtain ⟨rfl, hh⟩ := parseStart_ok hl hline
      dsimp only [Parsed.ext, Except.map, Cur.ext, List.nil_append]
      rw [if_neg (by simp [hh]), parsePhases, if_neg (by simp [hh]), if_pos hh]
  · have hext := parseLine_ext (r := r) (y := y) hmem
    have hpos := List.length_pos_of_ne_nil hne
    obtain ⟨n, hn⟩ : ∃ n, (l ++ y).length = n + 1 :=
      ⟨(l ++ y).length - 1, by rw [List.length_append]; omega⟩
    rw [parsePhases_header hr hl, parsePhases, if_neg (by simp [hr]), if_pos hr]
    simp only [hn]
    rw [parseHeaders_succ n hr (by simp [hne]), show (⟨b, l ++ y⟩ : Cur) =
      (Cur.mk b l).ext y from rfl, hext]
    rcases hline : parseLine r ⟨b, l⟩ with ⟨st | d', r'⟩
    · rfl
    · have hd := parseLine_ok hl hline
      subst hd
      dsimp only [Parsed.ext, Except.map, Cur.ext, List.nil_append]
      split
      · rfl
      · rename_i hbody
        have hh := (parseLine_phase hr hline).resolve_right hbody
        rw [parsePhases, if_neg (by simp [hh]), if_pos hh]
        rw [List.length_append] at hn
        exact parseHeaders_fuel hh (by simp only; omega) le_rfl

/-- The byte in front matters only to a header line that is a lone line feed. -/
theorem parsePhases_prev {r : Req} (hr : r.phase = .start ∨ r.phase = .header) {l : List Byte}
    (hl : IsLine LF l) (h : r.phase = .start ∨ l.head? ≠ some LF) (b b' : Byte) :
    parsePhases r ⟨b, l⟩ = parsePhases r ⟨b', l⟩ := by
  have hne : l ≠ [] := List.ne_nil_of_mem (lf_mem_line hl)
  by_cases hs : r.phase = .start
  · rw [parsePhases_start hs hl, parsePhases_start hs hl, parseStart_prev r b b' l]
  · have hh := hr.resolve_left hs
    rw [parsePhases_header hh hl, parsePhases_header hh hl,
      parseLine_prev r b b' hne (h.resolve_left hs)]

/-- A head that is complete or refused takes no more lines. -/
theorem Head.feed_closed {h : Head} (hc : ¬ h.Open) (ls : List (List Byte)) :
    ls.foldl Head.feed h = h := by
  induction ls with
  | nil => rfl
  | cons l ls ih => rw [List.foldl_cons, Head.feed, Head.feedFrom, if_neg hc, ih]

/-- The parser on several complete lines, with the number of bytes read before. -/
theorem parsePhases_lines {ls : List (List Byte)} (hls : ∀ l ∈ ls, IsLine LF l) {r : Req}
    (hr : (r.phase = .start ∧ ls ≠ []) ∨ r.phase = .header) (u : ℕ) :
    match parsePhases r ⟨LF, ls.flatten⟩ with
    | (.ok d, r') => d.rest.length ≤ ls.flatten.length ∧
        ls.foldl Head.feed ⟨none, r, u⟩ = ⟨none, r', u + (ls.flatten.length - d.rest.length)⟩
    | (.error status, r') => ∃ n, ls.foldl Head.feed ⟨none, r, u⟩ = ⟨some status, r', n⟩ := by
  induction ls generalizing r u with
  | nil =>
    have hr := hr.resolve_left fun h => h.2 rfl
    rw [parsePhases, if_neg (by simp [hr]), if_pos hr, parseHeaders_nil _ r rfl]
    simp
  | cons l ls ih =>
    have hphase : r.phase = .start ∨ r.phase = .header := hr.imp_left And.left
    have hopen : Head.Open ⟨none, r, u⟩ := ⟨rfl, hphase⟩
    have hl := hls l (by simp)
    rw [List.flatten_cons, parsePhases_line hphase hl, List.foldl_cons, Head.feed,
      Head.feedFrom, if_pos hopen]
    rcases hline : parsePhases r ⟨LF, l⟩ with ⟨st | d', r'⟩
    · -- The line is refused.
      exact ⟨_, Head.feed_closed (fun h => by simp [Head.Open] at h) ls⟩
    dsimp only
    by_cases hbody : r'.phase = .body
    · -- It ends the head.
      rw [if_pos hbody, Head.feed_closed (fun h => by simp [Head.Open, hbody] at h) ls]
      dsimp only
      rw [List.length_append]
      exact ⟨by omega, by rw [Nat.add_sub_cancel]⟩
    · rw [if_neg hbody]
      have hphased := parsePhases_phased r ⟨LF, l⟩ hphase
      rw [hline] at hphased
      have hh : r'.phase = .header := Or.resolve_right hphased hbody
      have ih' := ih (fun l hl => hls l (List.mem_cons_of_mem _ hl)) (.inr hh) (u + l.length)
      rcases hrest : parsePhases r' ⟨LF, ls.flatten⟩ with ⟨st | d, r''⟩ <;> rw [hrest] at ih'
      · exact ih'
      · obtain ⟨hle, he⟩ := ih'
        dsimp only
        rw [he, List.length_append]
        exact ⟨by omega, by congr 1; omega⟩

/-- The parser after the lines of a chunk: the first one is read with the byte in front of the
chunk, each of the others with the line feed of the line before. -/
def Head.scan (b : Byte) (r : Req) : List (List Byte) → Head
  | [] => ⟨none, r, 0⟩
  | l :: ls => ls.foldl Head.feed (Head.feedFrom ⟨none, r, 0⟩ b l)

/-- The first line sees the byte in front of the chunk, and the others do not. -/
theorem Head.scan_cons (b : Byte) (r : Req) (l : List Byte) (ls : List (List Byte)) :
    Head.scan b r (l :: ls) = ls.foldl Head.feed (Head.feedFrom ⟨none, r, 0⟩ b l) := rfl

/-- One line more, with the byte in front of it. -/
theorem Head.scan_concat (b : Byte) (r : Req) (ls : List (List Byte)) :
    ∃ b', ∀ l, Head.scan b r (ls ++ [l]) = (Head.scan b r ls).feedFrom b' l := by
  cases ls with
  | nil => exact ⟨b, fun l => rfl⟩
  | cons l' ls =>
    exact ⟨LF, fun l => by rw [List.cons_append, Head.scan_cons, List.foldl_append]; rfl⟩

/-- Behind the first lines, the scan feeds the others one by one. -/
theorem Head.scan_append (b : Byte) (r : Req) {ls : List (List Byte)} (hne : ls ≠ [])
    (ls' : List (List Byte)) :
    Head.scan b r (ls ++ ls') = ls'.foldl Head.feed (Head.scan b r ls) := by
  obtain ⟨l, ls, rfl⟩ := List.exists_cons_of_ne_nil hne
  rw [List.cons_append, Head.scan_cons, List.foldl_append]
  rfl

/-- On complete lines, `req_parse` scans them one by one. -/
theorem reqParse_chunk {l : List Byte} {ls : List (List Byte)}
    (hls : ∀ l' ∈ l :: ls, IsLine LF l') {r : Req} (hr : r.phase = .start ∨ r.phase = .header)
    (b : Byte) :
    reqParse b r (l :: ls).flatten = (Head.scan b r (l :: ls)).parsed := by
  have hopen : Head.Open ⟨none, r, 0⟩ := ⟨rfl, hr⟩
  unfold reqParse
  rw [List.flatten_cons, parsePhases_line hr (hls l (by simp)), Head.scan_cons,
    Head.feedFrom, if_pos hopen]
  dsimp only
  rcases hline : parsePhases r ⟨b, l⟩ with ⟨st | d', r'⟩
  · dsimp only
    rw [Head.feed_closed (fun h => by simp [Head.Open] at h) ls]
    rfl
  dsimp only
  by_cases hbody : r'.phase = .body
  · rw [if_pos hbody, Head.feed_closed (fun h => by simp [Head.Open, hbody] at h) ls]
    simp only [Head.parsed, List.length_append, Nat.cast_add, Nat.zero_add, add_sub_cancel_right]
  · rw [if_neg hbody]
    have hphased := parsePhases_phased r ⟨b, l⟩ hr
    rw [hline] at hphased
    have hh : r'.phase = .header := Or.resolve_right hphased hbody
    have h := parsePhases_lines (fun l' hl => hls l' (List.mem_cons_of_mem _ hl)) (.inr hh)
      (0 + l.length)
    rcases hrest : parsePhases r' ⟨LF, ls.flatten⟩ with ⟨st | d, r''⟩ <;> rw [hrest] at h
    · obtain ⟨n, he⟩ := h
      rw [he]
      rfl
    · obtain ⟨hle, he⟩ := h
      rw [he]
      simp only [Head.parsed, List.length_append, Nat.zero_add, Prod.mk.injEq, and_true]
      omega

/-- `req_parse` on complete lines is the fold of its steps, unless a header begins with a lone line
feed. -/
theorem reqParse_lines {ls : List (List Byte)} (hls : ∀ l ∈ ls, IsLine LF l) (hne : ls ≠ [])
    {r : Req} (hr : r.phase = .start ∨ r.phase = .header) {b : Byte}
    (hb : r.phase = .start ∨ ∀ l ∈ ls.head?, l.head? ≠ some LF) :
    reqParse b r ls.flatten = (ls.foldl Head.feed ⟨none, r, 0⟩).parsed := by
  obtain ⟨l, ls, rfl⟩ := List.exists_cons_of_ne_nil hne
  have hprev := parsePhases_prev hr (hls l (by simp)) (hb.imp_right fun h => h l (by simp)) b LF
  rw [reqParse_chunk hls hr, Head.scan_cons, List.foldl_cons, Head.feed,
    Head.feedFrom, Head.feedFrom, hprev]

/-- What the parser can have come to. -/
structure Head.Sound (h : Head) : Prop where
  /-- A status is positive. -/
  status : ∀ st ∈ h.status, 0 < st
  /-- The phase. -/
  phase : h.status = none → h.req.phase = .start ∨ h.req.phase = .header ∨ h.req.phase = .body
  /-- The body has a size. -/
  sized : h.req.Sized

/-- The state of the scan stays sound with the first line. -/
theorem Head.feedFrom_sound {h : Head} (hs : h.Sound) (b : Byte) (line : List Byte) :
    (h.feedFrom b line).Sound := by
  unfold Head.feedFrom
  split
  · rename_i ho
    have hp := parsePhases_phased h.req ⟨b, line⟩ ho.2
    have hc := reqParse_sized b line (r := h.req) (by rcases ho.2 with h | h <;> simp [h])
    unfold reqParse at hc
    split
    · rename_i d r' he
      rw [he] at hp hc
      exact ⟨by simp, fun _ => .inr hp, hc⟩
    · rename_i st r' he
      rw [he] at hp hc
      refine ⟨fun st' hst => ?_, fun hn => by simp at hn, hc⟩
      rw [Option.mem_some_iff] at hst
      exact hst ▸ hp
  · exact hs

/-- The state of the scan stays sound with more lines. -/
theorem Head.foldl_sound {h : Head} (hs : h.Sound) (ls : List (List Byte)) :
    (ls.foldl Head.feed h).Sound := by
  induction ls generalizing h with
  | nil => exact hs
  | cons l ls ih => exact ih (h.feedFrom_sound hs LF l)

/-- The state of the scan is sound behind a chunk. -/
theorem Head.scan_sound {r : Req} (hr : r.phase = .start ∨ r.phase = .header) (b : Byte)
    (ls : List (List Byte)) :
    (Head.scan b r ls).Sound := by
  have hnew : Head.Sound ⟨none, r, 0⟩ :=
    ⟨by simp, fun _ => hr.imp_right .inl, fun hp => by rcases hr with h | h <;> simp [h] at hp⟩
  cases ls with
  | nil => exact hnew
  | cons l ls => exact Head.foldl_sound (Head.feedFrom_sound hnew b l) ls

/-- A head that is not refused. -/
theorem Head.Sound.status_eq {h : Head} (hs : h.Sound) (hrc : 0 ≤ h.parsed.1) :
    h.status = none := by
  rcases h with ⟨_ | st, r, n⟩
  · rfl
  · have := hs.status st rfl
    simp only [Head.parsed] at hrc
    omega

/-- In the header, the parser has read nothing of an empty chunk. -/
theorem reqParse_scan {ls : List (List Byte)} (hls : ∀ l ∈ ls, IsLine LF l) {r : Req}
    (hr : (r.phase = .start ∧ ls ≠ []) ∨ r.phase = .header) (b : Byte) :
    reqParse b r ls.flatten = (Head.scan b r ls).parsed := by
  cases ls with
  | nil =>
    have hr := hr.resolve_left fun h => h.2 rfl
    rw [reqParse, parsePhases, if_neg (by simp [hr]), if_pos hr, List.flatten_nil,
      parseHeaders_nil _ r rfl]
    simp [Head.scan, Head.parsed]
  | cons l ls => exact reqParse_chunk hls (hr.imp_left And.left) b

end Liso
