import Mathlib

/-!
# Tables of handles

A process names the objects that it holds open by small numbers. `Table` maps each number in use to
the serial number of its object, so that a number which is closed and handed out again names another
object. A `Picker` is an allocator's choice: for every set of numbers in use it names one that is
not. The lowest free number, which POSIX requires, is one of them. A table that was only added to
`Extends` the one before.
-/

namespace Handles

/-- The open numbers, each with the serial number of its object, and the next serial number. -/
structure Table where
  /-- Pairs of an open number and its object. -/
  entries : List (ℕ × ℕ)
  /-- The serial number of the next object. -/
  next : ℕ
  deriving DecidableEq

/-- The numbers in use. -/
def Table.dom (t : Table) : List ℕ := t.entries.map Prod.fst

/-- The object that a number names. -/
def Table.obj (t : Table) (d : ℕ) : Option ℕ := t.entries.lookup d

/-- A choice of an unused number for every list of numbers in use. -/
structure Picker where
  /-- The choice. -/
  pick : List ℕ → ℕ
  /-- The number chosen is not in use. -/
  fresh : ∀ l, pick l ∉ l

/-- Open a new object under the number that `p` picks. -/
def Table.alloc (t : Table) (p : Picker) : ℕ × Table :=
  (p.pick t.dom, ⟨(p.pick t.dom, t.next) :: t.entries, t.next + 1⟩)

/-- Close a number. -/
def Table.free (t : Table) (d : ℕ) : Table := { t with entries := t.entries.filter (·.1 != d) }

/-- `dup2`: `new` names the object of `old`, and what it named before is closed. -/
def Table.dup2 (t : Table) (old new : ℕ) : Table :=
  match t.obj old with
  | none => t
  | some o => { t with entries := (new, o) :: (t.free new).entries }

/-- The lowest number that is not in a list; `n` bounds the search. -/
def lowestFrom (l : List ℕ) : ℕ → ℕ → ℕ
  | 0, d => d
  | n + 1, d => if d ∈ l then lowestFrom l n (d + 1) else d

/-- The search stops at a free number when the bound exceeds the numbers that are left. -/
theorem lowestFrom_notMem (l : List ℕ) : ∀ (n d : ℕ), (l.filter (d ≤ ·)).length ≤ n →
    lowestFrom l n d ∉ l
  | 0, d, h => by
    intro hd
    have hmem : d ∈ l.filter (d ≤ ·) := by simpa [lowestFrom] using hd
    have := List.length_pos_of_mem hmem
    omega
  | n + 1, d, h => by
    unfold lowestFrom
    split_ifs with hd
    · refine lowestFrom_notMem l n (d + 1) ?_
      have hlt : (l.filter (d + 1 ≤ ·)).length < (l.filter (d ≤ ·)).length := by
        have hsplit : l.filter (d + 1 ≤ ·) = (l.filter (d ≤ ·)).filter (d + 1 ≤ ·) := by
          rw [List.filter_filter]
          refine List.filter_congr fun x _ => ?_
          by_cases hx : d + 1 ≤ x
          · simp [hx, Nat.le_of_succ_le hx]
          · simp [hx]
        rw [hsplit]
        refine lt_of_le_of_ne (List.length_filter_le _ _) fun heq => ?_
        have := List.length_filter_eq_length_iff.1 heq d (by simpa using hd)
        simp at this
      omega
    · exact hd

/-- The allocator that always returns the lowest free number. -/
def Picker.lowest : Picker where
  pick l := lowestFrom l l.length 0
  fresh l := lowestFrom_notMem l _ _ (List.length_filter_le _ _)

/-- Below the number that the search returns everything is in use, from the place where it began. -/
theorem lowestFrom_least (l : List ℕ) : ∀ (n d x : ℕ), d ≤ x → x < lowestFrom l n d → x ∈ l
  | 0, d, x, hd, hx => absurd hx (not_lt.2 hd)
  | n + 1, d, x, hd, hx => by
    unfold lowestFrom at hx
    split_ifs at hx with hmem
    · obtain rfl | hlt := Nat.eq_or_lt_of_le hd
      · exact hmem
      · exact lowestFrom_least l n (d + 1) x hlt hx
    · exact absurd hx (not_lt.2 hd)

/-- The lowest free number has only numbers in use below it. -/
theorem Picker.lowest_least (l : List ℕ) {x : ℕ} (hx : x < Picker.lowest.pick l) : x ∈ l :=
  lowestFrom_least l l.length 0 x (Nat.zero_le x) hx

/-- A new descriptor is open, with those that were open before. -/
@[simp] theorem Table.dom_alloc (t : Table) (p : Picker) :
    (t.alloc p).2.dom = p.pick t.dom :: t.dom := rfl

/-- The number of a new descriptor is the one that the picker picks. -/
@[simp] theorem Table.alloc_fst (t : Table) (p : Picker) : (t.alloc p).1 = p.pick t.dom := rfl

/-- Behind a close, all others are open as before. -/
@[simp] theorem Table.mem_dom_free (t : Table) (d e : ℕ) :
    e ∈ (t.free d).dom ↔ e ∈ t.dom ∧ e ≠ d := by
  simp only [dom, free, List.mem_map, List.mem_filter, bne_iff_ne, ne_eq]
  constructor
  · rintro ⟨x, ⟨hx, hne⟩, rfl⟩
    exact ⟨⟨x, hx, rfl⟩, hne⟩
  · rintro ⟨⟨x, hx, rfl⟩, hne⟩
    exact ⟨x, ⟨hx, hne⟩, rfl⟩

/-- The number that `alloc` returns was not in use. -/
theorem Table.alloc_fresh (t : Table) (p : Picker) : (t.alloc p).1 ∉ t.dom := p.fresh _

/-- A number in use keeps its object when another one is opened. -/
theorem Table.obj_alloc (t : Table) (p : Picker) {d : ℕ} (h : d ∈ t.dom) :
    (t.alloc p).2.obj d = t.obj d := by
  have hne : (d == p.pick t.dom) = false := beq_eq_false_iff_ne.2 fun he => p.fresh _ (he ▸ h)
  simp only [obj, alloc, List.lookup_cons, hne]

/-- Looking a key up passes over the entries of another key. -/
theorem lookup_filter_ne {d e : ℕ} (h : e ≠ d) : ∀ l : List (ℕ × ℕ),
    (l.filter (·.1 != d)).lookup e = l.lookup e
  | [] => rfl
  | x :: xs => by
    rw [List.filter_cons, List.lookup_cons]
    split_ifs with hx
    · rw [List.lookup_cons, lookup_filter_ne h xs]
    · have hxd : x.1 = d := by simpa using hx
      have hb : (e == x.1) = false := by simp [hxd, h]
      rw [hb, lookup_filter_ne h xs]

/-- A number keeps its object when another one is closed. -/
theorem Table.obj_free (t : Table) {d e : ℕ} (h : e ≠ d) : (t.free d).obj e = t.obj e :=
  lookup_filter_ne h t.entries

/-- A number is in use exactly when it names an object. -/
theorem Table.obj_isSome (t : Table) (d : ℕ) : (t.obj d).isSome ↔ d ∈ t.dom := by
  simp only [obj, dom]
  induction t.entries with
  | nil => simp
  | cons x xs ih =>
    rw [List.lookup_cons, List.map_cons, List.mem_cons]
    by_cases hx : d = x.1
    · simp [hx]
    · have hb : (d == x.1) = false := by simp [hx]
      simp [hx, hb, ih]

/-- A number that was closed names nothing. -/
theorem Table.obj_free_self (t : Table) (d : ℕ) : (t.free d).obj d = none := by
  have h : d ∉ (t.free d).dom := by simp
  rw [← Table.obj_isSome] at h
  simpa using h

/-- What the numbers name after one was closed. -/
theorem Table.obj_free_eq (t : Table) (d e : ℕ) :
    (t.free d).obj e = if e = d then none else t.obj e := by
  split_ifs with h
  · rw [h, Table.obj_free_self]
  · exact Table.obj_free t h

/-- What the numbers name after an open number was duplicated. -/
theorem Table.obj_dup2 (t : Table) {old : ℕ} (new : ℕ) (h : old ∈ t.dom) (d : ℕ) :
    (t.dup2 old new).obj d = if d = new then t.obj old else t.obj d := by
  obtain ⟨o, ho⟩ := Option.isSome_iff_exists.1 ((t.obj_isSome old).2 h)
  simp only [dup2, ho]
  simp only [obj, List.lookup_cons]
  by_cases hd : d = new
  · simp [hd]
  · have hb : (d == new) = false := beq_eq_false_iff_ne.2 hd
    rw [hb, if_neg hd]
    exact t.obj_free hd

/-- A new object goes by the number that it was given. -/
theorem Table.obj_alloc_self (t : Table) (p : Picker) :
    (t.alloc p).2.obj (p.pick t.dom) = some t.next := by
  simp [obj, alloc]

/-- `t'` has everything that `t` has, and else only newer objects. -/
structure Table.Extends (t t' : Table) : Prop where
  /-- The numbers in use. -/
  kept : ∀ d ∈ t.dom, t'.obj d = t.obj d
  /-- The others. -/
  newer : ∀ d, d ∉ t.dom → ∀ o ∈ t'.obj d, t.next ≤ o
  /-- The serial numbers go on. -/
  next : t.next ≤ t'.next

/-- Every table extends itself. -/
theorem Table.Extends.refl (t : Table) : t.Extends t where
  kept _ _ := rfl
  newer d hd _ ho := absurd ((t.obj_isSome d).1 (Option.isSome_of_mem ho)) hd
  next := le_rfl

/-- The numbers in use stay in use. -/
theorem Table.Extends.dom {t t' : Table} (h : t.Extends t') {d : ℕ} (hd : d ∈ t.dom) :
    d ∈ t'.dom := by
  rw [← Table.obj_isSome, h.kept d hd, Table.obj_isSome]
  exact hd

/-- A table that extends another one does so with one more object. -/
theorem Table.Extends.alloc {t t' : Table} (h : t.Extends t') (p : Picker) :
    t.Extends (t'.alloc p).2 where
  kept d hd := by
    rw [t'.obj_alloc p (h.dom hd), h.kept d hd]
  newer d hd o ho := by
    by_cases hp : d = p.pick t'.dom
    · rw [hp, Table.obj_alloc_self] at ho
      cases ho
      exact h.next
    · have hne : (d == p.pick t'.dom) = false := beq_eq_false_iff_ne.2 hp
      refine h.newer d hd o ?_
      simpa only [obj, Table.alloc, List.lookup_cons, hne] using ho
  next := h.next.trans (Nat.le_succ _)

end Handles
