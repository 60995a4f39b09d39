import Liso.Main

/-!
# What a handler leaves behind

A handler either keeps its connection and returns a code that is not negative, or frees it and
returns a negative one. `Ret.Post` states the two outcomes with a predicate for each, and the lemmas
below are the rules for it: weakening, conjunction, and one handler after the other. The loop relies
on the agreement of the code with the outcome, and so does every invariant of the later modules.
-/

namespace Liso

/-- The connection is alive and `A` holds, or it was freed and `G` holds. -/
def Ret.Post (r : Ret) (A : Conn → Srv → Prop) (G : Srv → Prop) : Prop :=
  match r.conn with
  | some c => 0 ≤ r.rc ∧ A c r.srv
  | none => r.rc < 0 ∧ G r.srv

variable {A A' B : Conn → Srv → Prop} {G G' : Srv → Prop} {r : Ret}

/-- A handler that returns its connection. -/
@[simp] theorem Ret.post_some (c : Conn) (s : Srv) : (⟨1, some c, s⟩ : Ret).Post A G ↔ A c s := by
  simp [Ret.Post]

/-- Both predicates on an outcome may be weakened. -/
theorem Ret.Post.mono (h : r.Post A G) (hA : ∀ c s, A c s → A' c s) (hG : ∀ s, G s → G' s) :
    r.Post A' G' := by
  obtain ⟨rc, c, s⟩ := r
  cases c with
  | none => exact ⟨h.1, hG _ h.2⟩
  | some c => exact ⟨h.1, hA _ _ h.2⟩

/-- Two descriptions of one outcome hold together. -/
theorem Ret.Post.and (h : r.Post A G) (h' : r.Post A' G') :
    r.Post (fun c s => A c s ∧ A' c s) (fun s => G s ∧ G' s) := by
  obtain ⟨rc, c, s⟩ := r
  cases c with
  | none => exact ⟨h.1, h.2, h'.2⟩
  | some c => exact ⟨h.1, h.2, h'.2⟩

/-- What holds behind one handler is what the next one starts with. -/
theorem Ret.Post.andThen {f : Conn → Srv → Ret} (h : r.Post A G)
    (hf : ∀ c, r.conn = some c → A c r.srv → (f c r.srv).Post B G) : (r.andThen f).Post B G := by
  obtain ⟨rc, c, s⟩ := r
  cases c with
  | none =>
    have hrc : rc < 0 := h.1
    simp only [Ret.andThen, hrc, if_true]
    exact h
  | some c =>
    have hrc : ¬ rc < 0 := not_lt.2 h.1
    simp only [Ret.andThen, hrc, if_false]
    exact hf c rfl h.2

/-- What holds of a connection that a handler returned. -/
theorem Ret.Post.of_some {c : Conn} (h : r.Post A G) (hc : r.conn = some c) :
    0 ≤ r.rc ∧ A c r.srv := by
  unfold Ret.Post at h
  rw [hc] at h
  exact h

/-- What holds after a handler freed its connection. -/
theorem Ret.Post.of_none (h : r.Post A G) (hc : r.conn = none) : r.rc < 0 ∧ G r.srv := by
  unfold Ret.Post at h
  rw [hc] at h
  exact h

/-- The inner loop after a visit. -/
theorem Ret.Post.afterVisit (h : r.Post A G) (i max_fd : ℕ) :
    (∃ c, A c r.srv ∧ afterVisit i max_fd r =
      ⟨{ r.srv with pool := { r.srv.pool with conns := r.srv.pool.conns.set i c } },
        .serve (i + 1) (maintainMaxFd max_fd c)⟩) ∨
    (G r.srv ∧ afterVisit i max_fd r = ⟨r.srv, .serve i max_fd⟩) := by
  obtain ⟨rc, c, s⟩ := r
  cases c with
  | none =>
    have hrc : rc < 0 := h.1
    exact .inr ⟨h.2, by simp only [Liso.afterVisit, hrc, if_true]⟩
  | some c =>
    have hrc : ¬ rc < 0 := not_lt.2 h.1
    exact .inl ⟨c, h.2, by simp only [Liso.afterVisit, hrc, if_false]⟩

/-! ## Callbacks that report -/

/-- The success callback ran. -/
def noteEnd : EndCb := fun c s => ⟨0, some c, s⟩

/-- The fatal callback ran. -/
def noteFail : EndCb := fun _ s => ⟨-1, none, s⟩

/-- The connection and the server with which a handler that was given `noteEnd` called it. -/
def Ret.ended (r : Ret) : Option (Conn × Srv) :=
  if r.rc = 0 then r.conn.map fun c => (c, r.srv) else none

end Liso
