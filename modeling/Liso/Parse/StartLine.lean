import Liso.Parse.Fields

/-!
# The request line

The target of a request line is stored in the array `uri` with a terminator, and read as a string
from then on, except in the branch for an absolute target (`Req.absolute`), which looks at the
string behind the terminator. `parseStart_some` gives the request behind a request line by its
method, its target, its version, and its end.
-/

namespace Liso

variable {r r' : Req}

/-! ## Strings in an array -/

/-- A C string has no NUL. -/
theorem cstr_clean (mem : List Byte) : 0 ∉ cstr mem := fun h => by
  have := List.mem_takeWhile_imp h
  simp at this

/-- A string behind which its terminator stands. -/
theorem cstr_append_zero {s : List Byte} (h : 0 ∉ s) (mem : List Byte) :
    cstr (s ++ 0 :: mem) = s := by
  unfold cstr
  rw [List.takeWhile_append_of_pos]
  · simp
  · intro b hb
    have hne : b ≠ 0 := fun he => h (he ▸ hb)
    simpa using hne

/-- The end of a string is a string. -/
theorem cstr_drop {mem : List Byte} {n : ℕ} (h : n ≤ (cstr mem).length) :
    cstr (mem.drop n) = (cstr mem).drop n := by
  induction mem generalizing n with
  | nil => simp [cstr]
  | cons b mem ih =>
    cases n with
    | zero => rfl
    | succ n =>
      by_cases hb : b = 0
      · simp [cstr, hb] at h
      · have hcons : cstr (b :: mem) = b :: cstr mem := by simp [cstr, hb]
        rw [hcons, List.length_cons] at h
        rw [hcons, List.drop_succ_cons, List.drop_succ_cons]
        exact ih (by omega)

/-- A terminator that is stored in a string ends it. -/
theorem cstr_set {mem : List Byte} {n : ℕ} (h : n < (cstr mem).length) :
    cstr (mem.set n 0) = (cstr mem).take n := by
  induction mem generalizing n with
  | nil => simp [cstr] at h
  | cons b mem ih =>
    by_cases hb : b = 0
    · simp [cstr, hb] at h
    have hcons : ∀ mem, cstr (b :: mem) = b :: cstr mem := fun mem => by simp [cstr, hb]
    cases n with
    | zero => simp [cstr]
    | succ n =>
      rw [hcons, List.length_cons] at h
      rw [List.set_cons_succ, hcons, hcons, List.take_succ_cons, ih (by omega)]

/-- The string in an array after it was stored at the start. -/
theorem cstr_storeStr {s : List Byte} (h : 0 ∉ s) (mem : List Byte) :
    cstr (storeStr mem 0 s) = s := by
  simpa [storeStr] using cstr_append_zero h (mem.drop (0 + s.length + 1))

/-- The bytes behind the terminator stay. -/
theorem storeStr_drop {s mem : List Byte} {n : ℕ} (h : s.length < n) :
    (storeStr mem 0 s).drop n = mem.drop n := by
  obtain ⟨k, rfl⟩ : ∃ k, n = s.length + 1 + k := ⟨n - (s.length + 1), by omega⟩
  rw [storeStr, List.take_zero, List.nil_append, List.append_cons, ← List.drop_drop,
    List.drop_left' (by simp), List.drop_drop]
  congr 1
  omega

/-! ## The target -/

/-- The position from which the parser reads the host of a target that is a scheme alone. -/
def schemeEnd (target : List Byte) : Option ℕ :=
  if strcaseeq target (str "http://") then some 8
  else if strcaseeq target (str "https://") then some 9
  else none

/-- The request with a target in the array. -/
def Req.stored (r : Req) (target : List Byte) : Req := { r with uri := storeStr r.uri 0 target }

/-- The branch for an absolute target. -/
def Req.absolute (r : Req) : Req :=
  match schemeEnd (cstr r.uri) with
  | none => r
  | some k =>
    let s := cstr (r.uri.drop k)
    let host := s.takeWhile (· != 47)
    if host.length = s.length then r
    else { setHost r host with uri := storeStr r.uri 0 (s.drop host.length) }

/-- The type of the request, and its parameters. -/
def Req.split (r : Req) : Req :=
  let r := if strstartswith (cstr r.uri) (str "/cgi/") then { r with type := .dynamic } else r
  let uri := cstr r.uri
  let path := uri.takeWhile (· != 63)
  if path.length = uri.length then { r with params := none }
  else { r with uri := r.uri.set path.length 0, params := some (path.length + 1) }

/-- The parts of the target's parser. -/
theorem parseUri_eq (r : Req) (p d : Cur) :
    parseUri r p d = (r.stored (strncpy0 p.rest (min REQ_URISZ (p.dist d)))).absolute.split := rfl

/-- The branch reads a string with a slash behind the terminator of the target. -/
def Req.Reads (r : Req) (target : List Byte) : Prop :=
  ∃ k ∈ schemeEnd target, 47 ∈ cstr (r.uri.drop k)

/-- A target that is not a scheme alone is read from the request line only. -/
theorem Req.not_reads {target : List Byte} (h : schemeEnd target = none) (r : Req) :
    ¬ r.Reads target := by
  rintro ⟨k, hk, -⟩
  rw [h] at hk
  exact absurd hk (by simp)

/-- The terminator stands right in front of the position. -/
theorem schemeEnd_length {target : List Byte} {k : ℕ} (h : schemeEnd target = some k) :
    k = target.length + 1 := by
  have hlen : ∀ {a b : List Byte}, strcaseeq a b = true → a.length = b.length := fun {a b} hab => by
    have := congrArg List.length (eq_of_beq hab)
    rwa [List.length_map, List.length_map] at this
  unfold schemeEnd at h
  split_ifs at h with h1 h2
  · rw [hlen h1, ← Option.some.inj h]; simp [str]
  · rw [hlen h2, ← Option.some.inj h]; simp [str]

/-- A target that is a scheme does not begin with a slash or a question mark. -/
theorem schemeEnd_head {target : List Byte} {k : ℕ} (h : schemeEnd target = some k) :
    ∃ b t, target = b :: t ∧ b ≠ 47 ∧ b ≠ 63 := by
  have hhead : ∀ {s : List Byte}, strcaseeq target s = true → s.head? = some 104 →
      ∃ b t, target = b :: t ∧ tolower b = 104 := by
    intro s hs h104
    have hmap : target.map tolower = s.map tolower := eq_of_beq hs
    cases target with
    | nil => cases s <;> simp at hmap h104
    | cons b t =>
      cases s with
      | nil => simp at h104
      | cons x s =>
        rw [List.head?_cons, Option.some.injEq] at h104
        subst h104
        refine ⟨b, t, rfl, ?_⟩
        have := (List.cons.inj hmap).1
        rw [this]
        decide
  obtain ⟨b, t, ht, hb⟩ : ∃ b t, target = b :: t ∧ tolower b = 104 := by
    unfold schemeEnd at h
    split_ifs at h with h1 h2
    · exact hhead h1 (by simp [str])
    · exact hhead h2 (by simp [str])
  refine ⟨b, t, ht, ?_, ?_⟩ <;> rintro rfl <;> exact absurd hb (by decide)

/-- The string that the branch looks at was in the array before. -/
theorem Req.stored_drop {target : List Byte} {k : ℕ} (h : schemeEnd target = some k) :
    (r.stored target).uri.drop k = r.uri.drop k := storeStr_drop (by rw [schemeEnd_length h]; omega)

/-- The branch does nothing where there is no slash. -/
theorem Req.absolute_eq {target : List Byte} (ht : 0 ∉ target) (h : ¬ r.Reads target) :
    (r.stored target).absolute = r.stored target := by
  have hstr : cstr (r.stored target).uri = target := cstr_storeStr ht _
  unfold Req.absolute
  rw [hstr]
  cases hk : schemeEnd target with
  | none => rfl
  | some k =>
    dsimp only
    rw [Req.stored_drop hk]
    refine if_pos ?_
    have hno : 47 ∉ cstr (r.uri.drop k) := fun hmem => h ⟨k, hk, hmem⟩
    rw [List.takeWhile_eq_self_iff.2]
    intro b hb
    have hne : b ≠ 47 := fun he => hno (he ▸ hb)
    simpa using hne

/-- The target that `uri` holds behind the branch for an absolute one: the string from the slash on
that the branch reads, or the target itself. -/
def Req.heldTarget (r : Req) (target : List Byte) : List Byte :=
  match schemeEnd target with
  | none => target
  | some k =>
    if 47 ∈ cstr (r.uri.drop k) then (cstr (r.uri.drop k)).dropWhile (· != 47) else target

/-- Where there is a slash, the string from the slash on becomes the target. -/
theorem Req.absolute_uri {target : List Byte} (ht : 0 ∉ target) :
    cstr (r.stored target).absolute.uri = r.heldTarget target := by
  have hstr : cstr (r.stored target).uri = target := cstr_storeStr ht _
  by_cases h : r.Reads target
  case neg =>
    rw [Req.absolute_eq ht h, hstr]
    unfold Req.heldTarget
    cases hk : schemeEnd target with
    | none => rfl
    | some k => exact (if_neg fun hmem => h ⟨k, hk, hmem⟩).symm
  obtain ⟨k, hk, hmem⟩ := h
  have hk := Option.mem_def.1 hk
  rw [Req.heldTarget, hk]
  unfold Req.absolute
  rw [hstr, hk]
  dsimp only
  rw [Req.stored_drop hk, if_pos hmem]
  have hclean := cstr_clean (r.uri.drop k)
  generalize cstr (r.uri.drop k) = s at hmem hclean
  have hsplit := List.takeWhile_append_dropWhile (p := fun b : Byte => b != 47) (l := s)
  have hrest : s.drop (s.takeWhile (· != 47)).length = s.dropWhile (· != 47) := by
    have hdropped := congrArg (List.drop (s.takeWhile (· != 47)).length) hsplit
    rw [List.drop_left' rfl] at hdropped
    exact hdropped.symm
  rw [if_neg, hrest]
  · refine cstr_storeStr (fun h0 => hclean ?_) _
    rw [← hsplit]
    exact List.mem_append_right _ h0
  · intro hlen
    have hall := (List.takeWhile_prefix (p := fun b : Byte => b != 47) (l := s)).eq_of_length hlen
    have := List.takeWhile_eq_self_iff.1 hall 47 hmem
    simp at this

/-- What is read behind a scheme begins with the slash. -/
theorem Req.absolute_ne {target : List Byte} (ht : 0 ∉ target) (h : r.Reads target) :
    ∃ t, cstr (r.stored target).absolute.uri = 47 :: t := by
  rw [Req.absolute_uri ht]
  obtain ⟨k, hk, hmem⟩ := h
  rw [Req.heldTarget, Option.mem_def.1 hk]
  dsimp only
  rw [if_pos hmem]
  generalize cstr (r.uri.drop k) = s at hmem
  cases hd : s.dropWhile (· != 47) with
  | nil =>
    have := List.dropWhile_eq_nil_iff.1 hd 47 hmem
    simp at this
  | cons b t =>
    have hb := List.head_dropWhile_not (p := fun b : Byte => b != 47) (l := s) (by simp [hd])
    simp only [hd, List.head_cons, bne_eq_false_iff_eq] at hb
    exact ⟨t, by rw [hb]⟩

/-- The length of a target without its parameters. -/
def pathLength (target : List Byte) : ℕ := (target.takeWhile (· != 63)).length

/-- The part in front of a question mark is not longer than the target. -/
theorem pathLength_le (target : List Byte) : pathLength target ≤ target.length :=
  (List.takeWhile_prefix _).length_le

/-- The part in front of a question mark, as the bytes up to it. -/
theorem take_pathLength (target : List Byte) :
    target.take (pathLength target) = target.takeWhile (· != 63) :=
  (List.prefix_iff_eq_take.1 (List.takeWhile_prefix _)).symm

/-- The fields that the type and the parameters are kept in. -/
theorem Req.split_eq (r : Req) : r.split = { r with
    type := if strstartswith (cstr r.uri) (str "/cgi/") then .dynamic else r.type
    uri := if pathLength (cstr r.uri) = (cstr r.uri).length then r.uri
      else r.uri.set (pathLength (cstr r.uri)) 0
    params := if pathLength (cstr r.uri) = (cstr r.uri).length then none
      else some (pathLength (cstr r.uri) + 1) } := by
  unfold Req.split pathLength
  by_cases hd : strstartswith (cstr r.uri) (str "/cgi/") = true <;>
    by_cases hl : ((cstr r.uri).takeWhile (· != 63)).length = (cstr r.uri).length <;>
    simp [hd, hl]

/-- The string in the array after the parameters were cut off. -/
theorem Req.split_uri (r : Req) : cstr r.split.uri = (cstr r.uri).takeWhile (· != 63) := by
  have hle := pathLength_le (cstr r.uri)
  rw [Req.split_eq]
  dsimp only
  rw [← take_pathLength]
  split
  · rename_i he
    rw [he, List.take_length]
  · rw [cstr_set (by omega)]

/-- The part of a target behind the first question mark. -/
def paramsOf (target : List Byte) : Option (List Byte) :=
  if 63 ∈ target then some (target.dropWhile (· != 63)).tail else none

/-- The parameters in the array are what stands behind the question mark. -/
theorem Req.split_params (r : Req) :
    (r.split.params.map fun k => cstr (r.split.uri.drop k)) = paramsOf (cstr r.uri) := by
  have hle := pathLength_le (cstr r.uri)
  have hmem : pathLength (cstr r.uri) = (cstr r.uri).length ↔ 63 ∉ cstr r.uri := by
    rw [pathLength]
    constructor
    · intro he hmem
      have hall := (List.takeWhile_prefix (p := (· != 63)) (l := cstr r.uri)).eq_of_length he
      rw [List.takeWhile_eq_self_iff] at hall
      have := hall 63 hmem
      simp at this
    · intro hno
      rw [List.takeWhile_eq_self_iff.2]
      intro c hc
      have hne : c ≠ 63 := fun he => hno (he ▸ hc)
      simpa using hne
  have htail : (cstr r.uri).drop (pathLength (cstr r.uri) + 1) =
    ((cstr r.uri).dropWhile (· != 63)).tail := by
    have hsplit := List.takeWhile_append_dropWhile (p := fun c : Byte => c != 63) (l := cstr r.uri)
    have hdrop : (cstr r.uri).drop (pathLength (cstr r.uri)) =
      (cstr r.uri).dropWhile (· != 63) := by
      rw [pathLength]
      exact (congrArg (List.drop _) hsplit.symm).trans List.drop_left
    rw [← List.tail_drop, hdrop]
  rw [Req.split_eq, paramsOf]
  dsimp only
  by_cases h63 : 63 ∈ cstr r.uri
  · have hne : pathLength (cstr r.uri) ≠ (cstr r.uri).length := fun he => hmem.1 he h63
    rw [if_neg hne, if_neg hne, if_pos h63, Option.map_some, List.drop_set_of_lt (by omega),
      cstr_drop (by omega), htail]
  · rw [if_pos (hmem.2 h63), if_pos (hmem.2 h63), if_neg h63]
    rfl

/-! ## The words of the line -/

/-- The method that a request line begins with, unless it is refused. -/
def methodAt (d : Cur) : Option Method :=
  let (p, d) := proceedInline d
  let method := strncpy0 p.rest (min 8 (p.dist d))
  if method.length = 0 then none else methodOf method p

/-- The parser knows three methods. -/
theorem methodAt_ne_other {d : Cur} {m : Method} (h : methodAt d = some m) : m ≠ .other := by
  unfold methodAt methodOf at h
  dsimp only at h
  split_ifs at h
  all_goals
    rw [← Option.some.inj h]
    simp

/-- The target of a request line. -/
def targetAt (d : Cur) : List Byte :=
  let (p, d) := proceedInline (proceedInline d).2
  strncpy0 p.rest (min REQ_URISZ (p.dist d))

/-- A request line without a method is refused with the same status whatever the request is. -/
theorem parseStart_none {d : Cur} (h : methodAt d = none) :
    ∃ status, ∀ r, parseStart r d = refuse r status := by
  unfold methodAt at h
  by_cases hlen : (strncpy0 (proceedInline d).1.rest
      (min 8 ((proceedInline d).1.dist (proceedInline d).2))).length = 0
  · exact ⟨400, fun r => by unfold parseStart; dsimp only; rw [if_pos hlen]⟩
  · dsimp only at h
    rw [if_neg hlen] at h
    refine ⟨501, fun r => ?_⟩
    unfold parseStart
    dsimp only
    rw [if_neg hlen, h]

/-- The request with the method and the target of a request line. -/
def Req.named (r : Req) (m : Method) (target : List Byte) : Req :=
  ({ r with method := m } : Req).stored target

/-- What the branch for an absolute target sets. -/
theorem Req.absolute_rest (r : Req) :
    r.absolute = { r with uri := r.absolute.uri, host := r.absolute.host,
                          overrun := r.absolute.overrun } := by
  unfold Req.absolute
  split
  · rfl
  · dsimp only
    split <;> rfl

/-- What a request line sets, but for its version. -/
theorem Req.line_eq (r : Req) (m : Method) (target : List Byte) :
    (r.named m target).absolute.split = { r with
      method := m
      uri := (r.named m target).absolute.split.uri
      params := (r.named m target).absolute.split.params
      host := (r.named m target).absolute.split.host
      type := (r.named m target).absolute.split.type
      overrun := (r.named m target).absolute.split.overrun } := by
  rw [Req.split_eq, Req.absolute_rest]
  rfl

/-- The version of a request line. -/
def versionAt (d : Cur) : List Byte :=
  let (p, d) := proceedInline (proceedInline (proceedInline d).2).2
  strncpy0 p.rest (min REQ_VERSZ (p.dist d))

/-- The pointer behind a request line, if nothing follows the version. -/
def endAt (d : Cur) : Option Cur :=
  let (p, d) := proceedInline (proceedInline (proceedInline (proceedInline d).2).2).2
  if eol p d then some d.succ else none

/-- A request line with a method: the target is parsed, and the rest does not depend on it. -/
theorem parseStart_some {d : Cur} {m : Method} (h : methodAt d = some m) (r : Req) :
    parseStart r d =
      let r := { (r.named m (targetAt d)).absolute.split with version := versionAt d }
      match endAt d with
      | some d => (.ok d, { r with phase := .header })
      | none => refuse r 400 := by
  unfold methodAt at h
  dsimp only at h
  split at h
  · simp at h
  rename_i hlen
  unfold parseStart endAt
  dsimp only
  rw [if_neg hlen, h]
  dsimp only
  rw [parseUri_eq]
  split <;> rfl

/-- The array after a request line is that after its target, and so is the host. -/
theorem parseStart_host {d : Cur} {m : Method} (h : methodAt d = some m) (r : Req) :
    (parseStart r d).2.uri = (r.named m (targetAt d)).absolute.split.uri ∧
      (parseStart r d).2.host = (r.named m (targetAt d)).absolute.split.host := by
  rw [parseStart_some h]
  generalize (r.named m (targetAt d)).absolute.split = r1
  cases endAt d <;> exact ⟨rfl, rfl⟩

/-- What a request line makes of `uri`. -/
theorem parseStart_uri {d : Cur} {m : Method} (h : methodAt d = some m) (r : Req) :
    (parseStart r d).2.uri = (r.named m (targetAt d)).absolute.split.uri := (parseStart_host h r).1

/-- A target is a string. -/
theorem targetAt_clean (d : Cur) : 0 ∉ targetAt d := cstr_clean _

/-- The request line says nothing about the length of the body. -/
theorem parseStart_clen (r : Req) (d : Cur) :
    (parseStart r d).2.clen = r.clen ∧ (parseStart r d).1 ≠ .error 411 := by
  cases hm : methodAt d with
  | none =>
    unfold methodAt at hm
    dsimp only at hm
    unfold parseStart
    dsimp only
    split
    · exact ⟨rfl, by simp [refuse]⟩
    · rename_i hlen
      rw [if_neg hlen] at hm
      rw [hm]
      exact ⟨rfl, by simp [refuse]⟩
  | some m =>
    have hline := Req.line_eq r m (targetAt d)
    rw [parseStart_some hm]
    generalize (r.named m (targetAt d)).absolute.split = r1 at hline ⊢
    have hclen : r1.clen = r.clen := by rw [hline]
    cases endAt d with
    | some d' => exact ⟨hclen, by simp⟩
    | none => exact ⟨hclen, by simp [refuse]⟩

end Liso
