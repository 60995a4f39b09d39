import Liso.Lib.Runs

/-!
# Progress of a run

Nothing is due forever in a run that makes enough progress. `owes s k` says that something is due in
the state `s`, at most `k` steps away; it is never due in no steps. A step ends it, or leaves it
due, and a step that counts brings it nearer. Then a run in which `k` steps count has ended it
(`Along.meets`). What the steps do that do not count does not matter, and there may be any number of
them. The other way round, `done s k` says that `k` has been achieved in the state `s`: no step
takes any of it away, and a step that counts adds to it, so that a run has achieved as much as it
has steps that count (`Along.climbs`).
-/

namespace Runs

variable {σ ι : Type*} {next : σ → ι → σ} {ok p g : σ → ι → Prop} {owes done : σ → ℕ → Prop} {s : σ}
  {is : List ι} {k : ℕ}

/-- Some step of the execution is one of `p`. -/
def Meets (next : σ → ι → σ) (p : σ → ι → Prop) : σ → List ι → Prop
  | _, [] => False
  | s, i :: is => p s i ∨ Meets next p (next s i) is

/-- The number of steps of the execution that are ones of `g`. -/
def count (next : σ → ι → σ) (g : σ → ι → Prop) [∀ s i, Decidable (g s i)] : σ → List ι → ℕ
  | _, [] => 0
  | s, i :: is => (if g s i then 1 else 0) + count next g (next s i) is

/-- The rule: what is due ends when enough steps count. -/
theorem Along.meets [∀ s i, Decidable (g s i)] (hpos : ∀ s, ¬ owes s 0)
    (hstep : ∀ s i k, ok s i → owes s k → p s i ∨ ∃ k', owes (next s i) k' ∧
      k' + (if g s i then 1 else 0) ≤ k)
    (hok : Along next ok s is) (h : owes s k) (hk : k ≤ count next g s is) : Meets next p s is := by
  induction is generalizing s k with
  | nil =>
    rw [count, Nat.le_zero] at hk
    exact (hpos s (hk ▸ h)).elim
  | cons i is ih =>
    rcases hstep s i k hok.1 h with h | ⟨k', h', hle⟩
    · exact .inl h
    · refine .inr (ih hok.2 h' ?_)
      rw [count] at hk
      omega

/-- The rule for what is achieved. -/
theorem Along.climbs [∀ s i, Decidable (g s i)]
    (hstep : ∀ s i k, ok s i → done s k → ∃ k', done (next s i) k' ∧
      k + (if g s i then 1 else 0) ≤ k')
    (hok : Along next ok s is) (h : done s k) :
    ∃ k', done (exec next s is) k' ∧ k + count next g s is ≤ k' := by
  induction is generalizing s k with
  | nil => exact ⟨k, h, le_rfl⟩
  | cons i is ih =>
    obtain ⟨k₁, h₁, hle₁⟩ := hstep s i k hok.1 h
    obtain ⟨k', h', hle⟩ := ih hok.2 h₁
    refine ⟨k', h', ?_⟩
    rw [count]
    omega

end Runs
