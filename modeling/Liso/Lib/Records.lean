import Mathlib

/-!
# Record locks

The exclusive record locks of POSIX on the bytes of one file, as `lockf` takes them. A process locks
the bytes from a place on without an end, and waits as long as another process holds one of them; it
gives back the bytes from a place on, and keeps those below. What it holds when it ends is dropped.
`Table` is the list of what was locked; everything else is said of `Owns`, and of `Blocks`, which is
between processes.

A process that waits can hold bytes itself, so processes can wait for each other. `waitsFor_acyclic`
and `exists_runner` are the rules against deadlock: when whatever a waiting process holds lies below
the place it waits for, then no process waits for itself through others, and the processes that wait
for one another end with one that can go on.
-/

namespace Records

/-- The bytes from `lo` on, up to `hi` when there is one. -/
structure Range where
  /-- The first byte. -/
  lo : ℕ
  /-- The byte behind the last one. -/
  hi : Option ℕ
  deriving DecidableEq

/-- A byte lies in the range. -/
def Range.Mem (r : Range) (x : ℕ) : Prop := r.lo ≤ x ∧ ∀ h ∈ r.hi, x < h

/-- `Range.Mem` is decidable. -/
instance (r : Range) (x : ℕ) : Decidable (r.Mem x) := inferInstanceAs (Decidable (_ ∧ _))

/-- Some byte of the range lies at `lo` or above. -/
def Range.Reaches (r : Range) (lo : ℕ) : Prop := ∀ h ∈ r.hi, max r.lo lo < h

/-- `Range.Reaches` is decidable. -/
instance (r : Range) (lo : ℕ) : Decidable (r.Reaches lo) := inferInstanceAs (Decidable (∀ _ ∈ _, _))

/-- The bytes of the range below `lo`. -/
def Range.cut (r : Range) (lo : ℕ) : Range := ⟨r.lo, some (min lo (r.hi.getD lo))⟩

/-- What is left of a range that is cut. -/
theorem Range.mem_cut (r : Range) (lo x : ℕ) : (r.cut lo).Mem x ↔ r.Mem x ∧ x < lo := by
  cases h : r.hi with
  | none => simp [Mem, cut, h]
  | some hi =>
    simp only [Mem, cut, h, Option.getD_some, Option.mem_def, Option.some.injEq, forall_eq']
    omega

/-- A range reaches a byte when it has one from there on. -/
theorem Range.reaches_iff (r : Range) (lo : ℕ) : r.Reaches lo ↔ ∃ x, lo ≤ x ∧ r.Mem x := by
  constructor
  · intro h
    exact ⟨max r.lo lo, le_max_right _ _, le_max_left _ _, h⟩
  · rintro ⟨x, hlo, hx, hhi⟩ h hh
    exact lt_of_le_of_lt (max_le hx hlo) (hhi h hh)

variable {P : Type*}

/-- What the processes have locked. -/
abbrev Table (P : Type*) := List (P × Range)

/-- The process `p` holds the byte `x`. -/
def Owns (t : Table P) (p : P) (x : ℕ) : Prop := ∃ e ∈ t, e.1 = p ∧ e.2.Mem x

/-- `q` keeps `p` from locking the bytes from `lo` on. -/
def Blocks (t : Table P) (q p : P) (lo : ℕ) : Prop := q ≠ p ∧ ∃ x, lo ≤ x ∧ Owns t q x

/-- `p` waits for `q`, when `waits` has the places from which the processes that wait want to
lock. -/
def WaitsFor (t : Table P) (waits : P → Option ℕ) (p q : P) : Prop :=
  ∃ lo ∈ waits p, Blocks t q p lo

/-- No byte is held by two processes. -/
def Exclusive (t : Table P) : Prop := ∀ p q x, Owns t p x → Owns t q x → p = q

/-- Lock the bytes from `lo` on. -/
def lock (t : Table P) (p : P) (lo : ℕ) : Table P := (p, ⟨lo, none⟩) :: t

section

variable [DecidableEq P]

/-- `Owns` is decidable. -/
instance (t : Table P) (p : P) (x : ℕ) : Decidable (Owns t p x) :=
  inferInstanceAs (Decidable (∃ e ∈ t, _))

/-- The bytes from `lo` on can be locked at once: nobody else holds one of them. -/
def Free (t : Table P) (p : P) (lo : ℕ) : Prop := ∀ e ∈ t, e.1 = p ∨ ¬e.2.Reaches lo

/-- `Free` is decidable. -/
instance (t : Table P) (p : P) (lo : ℕ) : Decidable (Free t p lo) :=
  inferInstanceAs (Decidable (∀ e ∈ t, _))

/-- Give back the bytes from `lo` on. -/
def unlock (t : Table P) (p : P) (lo : ℕ) : Table P :=
  t.map fun e => if e.1 = p then (e.1, e.2.cut lo) else e

/-- Give back everything, as a process does that ends or closes the file. -/
def drop (t : Table P) (p : P) : Table P := t.filter fun e => e.1 ≠ p

end

/-- Nobody owns a byte of an empty table. -/
@[simp] theorem owns_nil (p : P) (x : ℕ) : ¬Owns [] p x := fun ⟨_, h, _⟩ => List.not_mem_nil h

/-- A lock gives its owner all bytes from `lo` on, and nobody else any. -/
@[simp] theorem owns_lock (t : Table P) (p q : P) (lo x : ℕ) :
    Owns (lock t p lo) q x ↔ q = p ∧ lo ≤ x ∨ Owns t q x := by
  simp [Owns, lock, Range.Mem, eq_comm]

/-- What blocks a waiting process and waits itself waits for a higher place. -/
theorem Blocks.lt {t : Table P} {p q : P} {lo lo' : ℕ} (h : Blocks t q p lo)
    (hlow : ∀ x, Owns t q x → x < lo') : lo < lo' := by
  obtain ⟨-, x, hlo, hx⟩ := h
  exact lt_of_le_of_lt hlo (hlow x hx)

/-- Along a chain of processes that wait for one another the places rise. -/
theorem waitsFor_lt {t : Table P} {waits : P → Option ℕ}
    (hlow : ∀ p x, Owns t p x → ∀ lo ∈ waits p, x < lo) {p q : P}
    (h : Relation.TransGen (WaitsFor t waits) p q) : ∀ lo ∈ waits p, ∀ lo' ∈ waits q, lo < lo' := by
  induction h with
  | single h =>
    rintro lo hlo lo' hlo'
    obtain ⟨l, hl, hb⟩ := h
    cases Option.mem_unique hlo hl
    exact hb.lt fun x hx => hlow _ x hx lo' hlo'
  | tail _ h ih =>
    rintro lo hlo lo' hlo'
    obtain ⟨l, hl, hb⟩ := h
    exact (ih lo hlo l hl).trans (hb.lt fun x hx => hlow _ x hx lo' hlo')

/-- No process waits for itself through others, when whatever a waiting process holds lies below the
place it waits for. -/
theorem waitsFor_acyclic {t : Table P} {waits : P → Option ℕ}
    (hlow : ∀ p x, Owns t p x → ∀ lo ∈ waits p, x < lo) (p : P) :
    ¬Relation.TransGen (WaitsFor t waits) p p := by
  intro h
  obtain ⟨q, ⟨lo, hlo, -⟩, -⟩ := Relation.TransGen.head'_iff.1 h
  exact lt_irrefl lo (waitsFor_lt hlow h lo hlo lo hlo)

variable [DecidableEq P]

/-- An unlock takes the bytes from `lo` on from its process, and from nobody else. -/
@[simp] theorem owns_unlock (t : Table P) (p q : P) (lo x : ℕ) :
    Owns (unlock t p lo) q x ↔ Owns t q x ∧ (q = p → x < lo) := by
  constructor
  · rintro ⟨e', he', rfl, hx⟩
    obtain ⟨e, he, rfl⟩ := List.mem_map.1 he'
    split_ifs at hx ⊢ with hp
    · rw [Range.mem_cut] at hx
      exact ⟨⟨e, he, rfl, hx.1⟩, fun _ => hx.2⟩
    · exact ⟨⟨e, he, rfl, hx⟩, fun h => absurd h hp⟩
  · rintro ⟨⟨e, he, rfl, hx⟩, hlt⟩
    refine ⟨_, List.mem_map.2 ⟨e, he, rfl⟩, ?_⟩
    split_ifs with hp
    · exact ⟨rfl, (e.2.mem_cut lo x).2 ⟨hx, hlt hp⟩⟩
    · exact ⟨rfl, hx⟩

/-- A close takes all bytes from its process, and from nobody else. -/
@[simp] theorem owns_drop (t : Table P) (p q : P) (x : ℕ) : Owns (drop t p) q x ↔
    Owns t q x ∧ q ≠ p := by
  constructor
  · rintro ⟨e, he, rfl, hx⟩
    obtain ⟨het, hne⟩ := List.mem_filter.1 he
    exact ⟨⟨e, het, rfl, hx⟩, by simpa using hne⟩
  · rintro ⟨⟨e, he, rfl, hx⟩, hne⟩
    exact ⟨e, List.mem_filter.2 ⟨he, by simpa using hne⟩, rfl, hx⟩

/-- A lock can be had at once exactly when nobody blocks it. -/
theorem free_iff (t : Table P) (p : P) (lo : ℕ) : Free t p lo ↔ ∀ q, ¬Blocks t q p lo := by
  constructor
  · rintro h q ⟨hne, x, hlo, e, he, rfl, hx⟩
    exact (h e he).elim hne fun hr => hr ((e.2.reaches_iff lo).2 ⟨x, hlo, hx⟩)
  · intro h e he
    by_contra hc
    obtain ⟨hne, hr⟩ := not_or.1 hc
    obtain ⟨x, hlo, hx⟩ := (e.2.reaches_iff lo).1 (not_not.1 hr)
    exact h e.1 ⟨hne, x, hlo, e, he, rfl, hx⟩

/-- Whoever holds a byte above `lo` is the one that may lock from `lo` on. -/
theorem Free.eq {t : Table P} {p q : P} {lo x : ℕ} (h : Free t p lo) (hlo : lo ≤ x)
    (hq : Owns t q x) : q = p := by
  by_contra hne
  exact (free_iff t p lo).1 h q ⟨hne, x, hlo, hq⟩

/-- A lock that can be had keeps the table exclusive. -/
theorem Exclusive.lock {t : Table P} {p : P} {lo : ℕ} (h : Exclusive t) (hf : Free t p lo) :
    Exclusive (lock t p lo) := by
  intro a b x ha hb
  rw [owns_lock] at ha hb
  obtain ⟨rfl, hlo⟩ | ha := ha
  · obtain ⟨rfl, -⟩ | hb := hb
    · rfl
    · exact (hf.eq hlo hb).symm
  · obtain ⟨rfl, hlo⟩ | hb := hb
    · exact hf.eq hlo ha
    · exact h a b x ha hb

/-- Giving bytes back keeps the table exclusive. -/
theorem Exclusive.unlock {t : Table P} (h : Exclusive t) (p : P) (lo : ℕ) :
    Exclusive (unlock t p lo) :=
  fun a b x ha hb => h a b x ((owns_unlock ..).1 ha).1 ((owns_unlock ..).1 hb).1

/-- Dropping the locks of a process leaves the table exclusive. -/
theorem Exclusive.drop {t : Table P} (h : Exclusive t) (p : P) : Exclusive (drop t p) :=
  fun a b x ha hb => h a b x ((owns_drop ..).1 ha).1 ((owns_drop ..).1 hb).1

/-- The processes that wait for one another, from any that waits for one, end with a process that
can go on: it does not wait, or nobody blocks it. The bound `n` on the places ends the search. -/
theorem exists_runner {t : Table P} {waits : P → Option ℕ} {n : ℕ}
    (hn : ∀ p, ∀ lo ∈ waits p, lo ≤ n) (hlow : ∀ p x, Owns t p x → ∀ lo ∈ waits p, x < lo)
    {p q : P} (h : WaitsFor t waits p q) :
    ∃ r, Relation.TransGen (WaitsFor t waits) p r ∧ ∀ lo ∈ waits r, Free t r lo := by
  obtain ⟨lo, hlo, hb⟩ := h
  generalize hk : n - lo = k
  induction k using Nat.strong_induction_on generalizing p q lo with
  | _ k ih =>
    by_cases hrun : ∀ lo' ∈ waits q, Free t q lo'
    · exact ⟨q, .single ⟨lo, hlo, hb⟩, hrun⟩
    · push Not at hrun
      obtain ⟨lo', hlo', hf⟩ := hrun
      rw [free_iff] at hf
      push Not at hf
      obtain ⟨q', hq'⟩ := hf
      have hlt : lo < lo' := hb.lt fun x hx => hlow q x hx lo' hlo'
      have hle : lo' ≤ n := hn q lo' hlo'
      obtain ⟨r, hr, hrun⟩ := ih (n - lo') (by omega) lo' hlo' hq' rfl
      exact ⟨r, .head ⟨lo, hlo, hb⟩ hr, hrun⟩

end Records
