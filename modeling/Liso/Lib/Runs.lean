import Mathlib

/-!
# Runs of a system that an outside world drives

A system here is a set of initial states and a function from a state and an input to the next
state; everything that the system does not decide itself is part of the input. `Reach` is the
set of states of its runs. Each step of a run may be restricted by a condition `ok` on the state
before the step and on the input, so that a property that holds only of some runs is a theorem
about `Reach` at the condition that those runs meet. `Reach.induct` is the one induction over
runs: the step case may use every invariant already known of reachable states.
-/

namespace Runs

variable {σ ι : Type*} {init : σ → Prop} {next : σ → ι → σ} {ok ok' : σ → ι → Prop}

/-- The states reached from `init` by steps that all satisfy `ok`. -/
inductive Reach (init : σ → Prop) (next : σ → ι → σ) (ok : σ → ι → Prop) : σ → Prop
  | start {s : σ} : init s → Reach init next ok s
  | step {s : σ} (i : ι) : Reach init next ok s → ok s i → Reach init next ok (next s i)

/-- The state after a list of inputs. -/
def exec (next : σ → ι → σ) (s : σ) (is : List ι) : σ := is.foldl next s

/-- Any condition: the steps of an unrestricted run. -/
def any : σ → ι → Prop := fun _ _ => True

/-- A run under a stronger condition is a run under a weaker one. -/
theorem Reach.mono (h : ∀ s i, ok s i → ok' s i) {s : σ} (hs : Reach init next ok s) :
    Reach init next ok' s := by
  induction hs with
  | start h0 => exact .start h0
  | step i _ hi ih => exact .step i ih (h _ _ hi)

/-- Forgetting the condition of a run. -/
theorem Reach.weaken {s : σ} (hs : Reach init next ok s) : Reach init next any s :=
  hs.mono fun _ _ _ => trivial

/-- An inductive invariant, with the run so far at hand in the step. -/
theorem Reach.induct {P : σ → Prop} (h0 : ∀ s, init s → P s)
    (hstep : ∀ s i, Reach init next ok s → ok s i → P s → P (next s i)) {s : σ}
    (hs : Reach init next ok s) : P s := by
  induction hs with
  | start h => exact h0 _ h
  | step i hr hi ih => exact hstep _ _ hr hi ih

/-- Executing inputs from a reachable state reaches a state, when no condition is imposed. -/
theorem Reach.exec {s : σ} (hs : Reach init next any s) (is : List ι) :
    Reach init next any (Runs.exec next s is) := by
  induction is generalizing s with
  | nil => exact hs
  | cons i is ih => exact ih (.step i hs trivial)

/-- Every step of an execution meets the condition. -/
def Along (next : σ → ι → σ) (ok : σ → ι → Prop) : σ → List ι → Prop
  | _, [] => True
  | s, i :: is => ok s i ∧ Along next ok (next s i) is

/-- A condition that can be tested can be tested along an execution. -/
instance Along.decidable [∀ s i, Decidable (ok s i)] : ∀ s is, Decidable (Along next ok s is)
  | _, [] => isTrue trivial
  | s, i :: is => @instDecidableAnd _ _ _ (Along.decidable (next s i) is)

/-- A condition on the states, and one on the inputs. -/
theorem Along.and {p : ι → Prop} {s : σ} {is : List ι} (h : Along next ok s is)
    (h' : ∀ i ∈ is, p i) :
    Along next (fun s i => ok s i ∧ p i) s is := by
  induction is generalizing s with
  | nil => exact trivial
  | cons i is ih => exact ⟨⟨h.1, h' i List.mem_cons_self⟩, ih h.2 fun j hj =>
    h' j (List.mem_cons_of_mem i hj)⟩

/-- An execution whose steps meet the condition leads from a reachable state to a reachable one. -/
theorem Reach.along {s : σ} (hs : Reach init next ok s) (is : List ι) (h : Along next ok s is) :
    Reach init next ok (Runs.exec next s is) := by
  induction is generalizing s with
  | nil => exact hs
  | cons i is ih => exact ih (.step i hs h.1) h.2

/-- What the condition implies in every reachable state holds along an execution that meets it. -/
theorem Reach.along_imp {p : σ → ι → Prop}
    (himp : ∀ s i, Reach init next ok s → ok s i → p s i) {s : σ} (hs : Reach init next ok s)
    (is : List ι) (h : Along next ok s is) : Along next p s is := by
  induction is generalizing s with
  | nil => exact trivial
  | cons i is ih => exact ⟨himp s i hs h.1, ih (.step i hs h.1) h.2⟩

end Runs
