import Liso.Logging

/-!
# The locks of the log

`Log.Locked` is the invariant of the locks: a process between its `lock` and its `unlock` holds
every byte from the offset on, so there is one such process at most. After its `unlock` a process
still holds the bytes that it wrote, since the offset has moved. Both consequences of that are here:
a process that waits for those bytes waits as long as the other one lives and no signal makes it
look at the offset again (`log_waits_on`), and yet the processes cannot wait for each other in a
circle (`log_deadlock_free`), since the places for which they wait rise along the way.
-/

namespace Liso

open Records (Owns Blocks Free Exclusive)

/-! ## The invariant -/

/-- The next call is one that a log function makes between its `lock` and its `unlock`, or the
`unlock`. -/
def inside : List Call → Bool
  | .write _ :: _ | .unlock :: _ => true
  | _ => false

/-- A log function under way, or what `teardown` has left of it. -/
def Shaped : List Call → Prop
  | [] => True
  | .lock :: cs => inside cs = true ∧ Shaped cs
  | .write _ :: cs => inside cs = true ∧ Shaped cs
  | .unlock :: cs => cs = [] ∨ cs = [.close]
  | .close :: cs => cs = []

/-- Every log function locks once, and unlocks behind its writes. -/
theorem Func.shaped (f : Func) : Shaped f.calls := by
  cases f <;> simp [Func.calls, logLine, logErrln, logRaw, Shaped, inside]

/-- Before its first call, it is outside of the locked section. -/
theorem Func.outside (f : Func) : inside f.calls = false := by
  cases f <;> rfl

/-- The calls of `teardown` have this shape too. -/
theorem teardownLog_shaped (dt : List Byte) : Shaped (teardownLog dt) := by
  simp [teardownLog, logLine, logStop, Shaped, inside]

/-- A process with nothing left to do, or with the close alone, is outside of the section. -/
theorem Shaped.outside {cs : List Call} (h : cs = [] ∨ cs = [.close]) :
    Shaped cs ∧ inside cs = false := by
  obtain rfl | rfl := h <;> simp [Shaped, inside]

/-- The locks and the places of the processes in the log functions agree. -/
structure Log.Locked (s : Log) : Prop where
  /-- No byte is held twice. -/
  exclusive : Exclusive s.locks
  /-- What is held is held by a process. -/
  living : ∀ p x, Owns s.locks p x → s.procs p ≠ none
  /-- Whoever holds a byte behind the offset holds all of them. -/
  above : ∀ p x y, Owns s.locks p x → s.offset ≤ x → s.offset ≤ y → Owns s.locks p y
  /-- The calls left. -/
  shaped : ∀ p r, s.procs p = some r → Shaped r.calls
  /-- A process between its `lock` and its `unlock` holds the bytes behind the offset. -/
  inside : ∀ p r, s.procs p = some r → inside r.calls = true → Owns s.locks p s.offset
  /-- A process that waits does so in `lock`, from a place that the log has reached, and holds only
  bytes below it. -/
  waits : ∀ p r, s.procs p = some r → ∀ lo ∈ r.waits,
    lo ≤ s.offset ∧ (∃ cs, r.calls = .lock :: cs) ∧ ∀ x, Owns s.locks p x → x < lo
  /-- Only the handler closes the log. -/
  ending : ∀ p r, s.procs p = some r → .close ∈ r.calls → r.ending = true

section

variable {α : Type*} {procs : ℕ → Option α} {p : ℕ} {P : ℕ → α → Prop}

/-- A property of all processes when one of them changed. -/
theorem forall_update {r' : α} (h : P p r') (ho : ∀ q r, q ≠ p → procs q = some r → P q r) :
    ∀ q r, Function.update procs p (some r') q = some r → P q r := by
  intro q r hq
  by_cases hqp : q = p
  · subst hqp
    rw [Function.update_self] at hq
    cases hq
    exact h
  · rw [Function.update_of_ne hqp] at hq
    exact ho q r hqp hq

/-- What holds of all processes but one holds of all when that one ended. -/
theorem forall_update_none (ho : ∀ q r, q ≠ p → procs q = some r → P q r) :
    ∀ q r, Function.update procs p none q = some r → P q r := by
  intro q r hq
  by_cases hqp : q = p
  · simp [hqp] at hq
  · rw [Function.update_of_ne hqp] at hq
    exact ho q r hqp hq

end

namespace Log.Locked

variable {s : Log} {p : ℕ} {r : Proc}

/-- At most one process is between its `lock` and its `unlock`. -/
theorem unique (h : s.Locked) {q : ℕ} {rq : Proc} (hp : s.procs p = some r)
    (hq : s.procs q = some rq) (hi : Liso.inside r.calls = true)
    (hj : Liso.inside rq.calls = true) : p = q :=
  h.exclusive p q s.offset (h.inside p r hp hi) (h.inside q rq hq hj)

/-- A process that changes nothing but what it is to call next, outside of the lock. -/
theorem turn (h : s.Locked) {r' : Proc} (hsh : Shaped r'.calls)
    (hin : Liso.inside r'.calls = false)
    (hw : ∀ lo ∈ r'.waits, lo ≤ s.offset ∧ (∃ cs, r'.calls = .lock :: cs) ∧
      ∀ x, Owns s.locks p x → x < lo)
    (he : .close ∈ r'.calls → r'.ending = true) :
    Log.Locked { s with procs := Function.update s.procs p (some r') } where
  exclusive := h.exclusive
  living q x hx := by
    by_cases hqp : q = p
    · simp [hqp]
    · simpa [Function.update_of_ne hqp] using h.living q x hx
  above := h.above
  shaped := forall_update hsh fun q r _ => h.shaped q r
  inside := forall_update (fun hi => absurd hi (by simp [hin])) fun q r _ => h.inside q r
  waits := forall_update hw fun q r _ => h.waits q r
  ending := forall_update he fun q r _ => h.ending q r

/-- A process waits only for bytes that it does not hold. -/
theorem waiting (h : s.Locked) (hp : s.procs p = some r)
    (hf : ¬Free s.locks p (r.waits.getD s.offset)) :
    r.waits.getD s.offset ≤ s.offset ∧ ∀ x, Owns s.locks p x → x < r.waits.getD s.offset := by
  cases hw : r.waits with
  | some lo =>
    obtain ⟨hlo, -, hlow⟩ := h.waits p r hp lo hw
    exact ⟨hlo, hlow⟩
  | none =>
    simp only [hw, Option.getD_none] at hf ⊢
    refine ⟨le_rfl, fun x hx => ?_⟩
    by_contra hge
    rw [Records.free_iff] at hf
    push Not at hf
    obtain ⟨q, hne, y, hy, hq⟩ := hf
    exact hne (h.exclusive q p x (h.above q y x hq hy (not_lt.1 hge)) hx)

/-- A process that takes the lock keeps the agreement. -/
theorem lock (h : s.Locked) (hp : s.procs p = some r) {cs : List Call} (hc : r.calls = .lock :: cs)
    (hf : Free s.locks p (r.waits.getD s.offset)) (es : List Entry) :
    Log.Locked { s with
      locks := Records.lock s.locks p (r.waits.getD s.offset)
      procs := Function.update s.procs p (some { r with calls := cs, waits := none })
      entries := es } := by
  have hlo : r.waits.getD s.offset ≤ s.offset := by
    cases hw : r.waits with
    | some lo => exact (h.waits p r hp lo hw).1
    | none => exact le_rfl
  have hsh : Liso.inside cs = true ∧ Shaped cs := by simpa [hc, Shaped] using h.shaped p r hp
  refine ⟨h.exclusive.lock hf, ?_, ?_, ?_, ?_, ?_, ?_⟩
  · intro q x hx
    obtain ⟨rfl, -⟩ | hx := (Records.owns_lock ..).1 hx
    · simp
    · by_cases hqp : q = p
      · simp [hqp]
      · simpa [Function.update_of_ne hqp] using h.living q x hx
  · intro q x y hx hlx hly
    rw [Records.owns_lock] at hx ⊢
    exact hx.imp (fun hx => ⟨hx.1, hlo.trans hly⟩) fun hx => h.above q x y hx hlx hly
  · exact forall_update hsh.2 fun q r _ => h.shaped q r
  · exact forall_update (fun _ => (Records.owns_lock ..).2 (.inl ⟨rfl, hlo⟩)) fun q rq _ hq hi =>
      (Records.owns_lock ..).2 (.inr (h.inside q rq hq hi))
  · refine forall_update (fun lo hw => by simp at hw) fun q rq hqp hq lo hw => ?_
    obtain ⟨hle, hcs, hlow⟩ := h.waits q rq hq lo hw
    refine ⟨hle, hcs, fun x hx => ?_⟩
    obtain ⟨rfl, -⟩ | hx := (Records.owns_lock ..).1 hx
    · exact absurd rfl hqp
    · exact hlow x hx
  · exact forall_update (fun hm => h.ending p r hp (by rw [hc]; exact List.mem_cons_of_mem _ hm))
      fun q r _ =>
      h.ending q r

/-- A write that its process makes inside the section keeps the locks. -/
theorem write (h : s.Locked) (hp : s.procs p = some r) {data : List Byte} {cs : List Call}
    (hc : r.calls = .write data :: cs) (file : List Byte) (n : ℕ) (es : List Entry) :
    Log.Locked { s with
      file := file
      offset := s.offset + n
      procs := Function.update s.procs p (some { r with calls := cs })
      entries := es } := by
  have hi : Liso.inside r.calls = true := by rw [hc]; rfl
  have hheld := h.inside p r hp hi
  have hsh : Liso.inside cs = true ∧ Shaped cs := by simpa [hc, Shaped] using h.shaped p r hp
  refine ⟨h.exclusive, ?_, ?_, ?_, ?_, ?_, ?_⟩
  · intro q x hx
    by_cases hqp : q = p
    · simp [hqp]
    · simpa [Function.update_of_ne hqp] using h.living q x hx
  · intro q x y hx hlx hly
    exact h.above q x y hx (by simp only at hlx; omega) (by simp only at hly; omega)
  · exact forall_update hsh.2 fun q r _ => h.shaped q r
  · exact forall_update (fun _ => h.above p _ _ hheld le_rfl (Nat.le_add_right _ _))
      fun q rq hqp hq hj =>
      absurd (h.unique hq hp hj hi) hqp
  · refine forall_update (fun lo hw => ?_) fun q rq _ hq lo hw => ?_
    · obtain ⟨-, ⟨cs', hcs⟩, -⟩ := h.waits p r hp lo hw
      simp [hc] at hcs
    · obtain ⟨hle, hcs, hlow⟩ := h.waits q rq hq lo hw
      exact ⟨hle.trans (Nat.le_add_right _ _), hcs, hlow⟩
  · exact forall_update (fun hm => h.ending p r hp (by rw [hc]; exact List.mem_cons_of_mem _ hm))
      fun q r _ =>
      h.ending q r

/-- A process that gives the lock back keeps the agreement. -/
theorem unlock (h : s.Locked) (hp : s.procs p = some r) {cs : List Call}
    (hc : r.calls = .unlock :: cs) (es : List Entry) :
    Log.Locked { s with
      locks := Records.unlock s.locks p s.offset
      procs := Function.update s.procs p (some { r with calls := cs })
      entries := es } := by
  have hi : Liso.inside r.calls = true := by rw [hc]; rfl
  obtain ⟨hsh, hout⟩ := Shaped.outside (by simpa [hc, Shaped] using h.shaped p r hp)
  refine ⟨h.exclusive.unlock p _, ?_, ?_, ?_, ?_, ?_, ?_⟩
  · intro q x hx
    by_cases hqp : q = p
    · simp [hqp]
    · simpa [Function.update_of_ne hqp] using h.living q x ((Records.owns_unlock ..).1 hx).1
  · intro q x y hx hlx hly
    obtain ⟨hx, hlt⟩ := (Records.owns_unlock ..).1 hx
    exact (Records.owns_unlock ..).2 ⟨h.above q x y hx hlx hly,
      fun hqp => absurd (hlt hqp) (not_lt.2 hlx)⟩
  · exact forall_update hsh fun q r _ => h.shaped q r
  · exact forall_update (fun hj => absurd hj (by simp [hout])) fun q rq hqp hq hj =>
      absurd (h.unique hq hp hj hi) hqp
  · refine forall_update (fun lo hw => ?_) fun q rq _ hq lo hw => ?_
    · obtain ⟨-, ⟨cs', hcs⟩, -⟩ := h.waits p r hp lo hw
      simp [hc] at hcs
    · obtain ⟨hle, hcs, hlow⟩ := h.waits q rq hq lo hw
      exact ⟨hle, hcs, fun x hx => hlow x ((Records.owns_unlock ..).1 hx).1⟩
  · exact forall_update (fun hm => h.ending p r hp (by rw [hc]; exact List.mem_cons_of_mem _ hm))
      fun q r _ =>
      h.ending q r

/-- The end of a process keeps the locks of the others. -/
theorem leave (h : s.Locked) (p : ℕ) : (s.leave p).Locked := by
  refine ⟨h.exclusive.drop p, ?_, ?_, ?_, ?_, ?_, ?_⟩
  · intro q x hx
    obtain ⟨hx, hne⟩ := (Records.owns_drop ..).1 hx
    simpa [Log.leave, Function.update_of_ne hne] using h.living q x hx
  · intro q x y hx hlx hly
    obtain ⟨hx, hne⟩ := (Records.owns_drop ..).1 hx
    exact (Records.owns_drop ..).2 ⟨h.above q x y hx hlx hly, hne⟩
  · exact forall_update_none fun q r _ => h.shaped q r
  · exact forall_update_none fun q r hne hq hi => (Records.owns_drop ..).2 ⟨h.inside q r hq hi, hne⟩
  · refine forall_update_none fun q r _ hq lo hw => ?_
    obtain ⟨hle, hcs, hlow⟩ := h.waits q r hq lo hw
    exact ⟨hle, hcs, fun x hx => hlow x ((Records.owns_drop ..).1 hx).1⟩
  · exact forall_update_none fun q r _ => h.ending q r

/-- A process outside of the log functions loses its locks. -/
theorem serve (h : s.Locked) (hp : s.procs p = some .idle) :
    Log.Locked { s with locks := Records.drop s.locks p } := by
  refine ⟨h.exclusive.drop p, fun q x hx => h.living q x ((Records.owns_drop ..).1 hx).1, ?_,
    h.shaped, ?_, ?_,
    h.ending⟩
  · intro q x y hx hlx hly
    obtain ⟨hx, hne⟩ := (Records.owns_drop ..).1 hx
    exact (Records.owns_drop ..).2 ⟨h.above q x y hx hlx hly, hne⟩
  · intro q r hq hi
    refine (Records.owns_drop ..).2 ⟨h.inside q r hq hi, ?_⟩
    rintro rfl
    cases hp.symm.trans hq
    simp [Proc.idle, Liso.inside] at hi
  · intro q r hq lo hw
    obtain ⟨hle, hcs, hlow⟩ := h.waits q r hq lo hw
    exact ⟨hle, hcs, fun x hx => hlow x ((Records.owns_drop ..).1 hx).1⟩

/-- The agreement does not depend on the history. -/
theorem noted (h : s.Locked) (es : List Entry) : Log.Locked { s with entries := es } :=
  ⟨h.1, h.2, h.3, h.4, h.5, h.6, h.7⟩

/-- A process makes its next call. -/
theorem call (h : s.Locked) (hp : s.procs p = some r) (n : ℕ) : (s.call p r n).Locked := by
  unfold Log.call
  split
  · exact h
  · rename_i cs hc
    dsimp only
    split_ifs with hf
    · exact h.lock hp hc hf _
    · obtain ⟨hle, hlow⟩ := h.waiting hp hf
      refine h.turn (h.shaped p r hp) (by simp [hc, Liso.inside]) ?_ (h.ending p r hp)
      rintro lo hlo
      cases hlo
      exact ⟨hle, ⟨cs, hc⟩, hlow⟩
  · rename_i data cs hc
    exact h.write hp hc _ _ _
  · rename_i cs hc
    exact h.unlock hp hc _
  · exact h.leave p

/-- A handled signal changes nothing but the place of a process that waits. -/
theorem handled (h : s.Locked) (p : ℕ) : s.next (.handled p) = s ∨
    ∃ r, s.procs p = some r ∧ Liso.inside r.calls = false ∧
      s.next (.handled p) =
        { s with procs := Function.update s.procs p (some { r with waits := none }) } := by
  simp only [Log.next]
  split
  case h_2 => exact .inl rfl
  rename_i r hp
  cases hw : r.waits with
  | none =>
    left
    have hr : ({ r with waits := none } : Proc) = r := by rw [← hw]
    rw [hr, ← hp, Function.update_eq_self]
  | some lo =>
    obtain ⟨-, ⟨cs, hcs⟩, -⟩ := h.waits p r hp lo hw
    exact .inr ⟨r, hp, by rw [hcs]; rfl, rfl⟩

/-- Every move keeps the agreement. -/
theorem next (h : s.Locked) (m : Move) : (s.next m).Locked := by
  cases m with
  | enter p f =>
    simp only [Log.next]
    split_ifs with hp
    · refine h.turn f.shaped f.outside (fun lo hlo => by simp at hlo) fun hm => ?_
      simp [Func.calls_eq] at hm
    · exact h
  | call p n =>
    simp only [Log.next]
    split
    · rename_i r hp
      exact h.call hp n
    · exact h
  | fork p q =>
    simp only [Log.next]
    split_ifs with hp
    · exact h.turn trivial rfl (fun lo hlo => by simp [Proc.idle] at hlo)
        (fun hm => by simp [Proc.idle] at hm)
    · exact h
  | serve p =>
    simp only [Log.next]
    split_ifs with hp
    · exact h.serve hp
    · exact h
  | exit p => exact h.leave p
  | term p dt =>
    simp only [Log.next]
    split
    · split_ifs
      · exact h
      · exact (h.turn (teardownLog_shaped dt) rfl (fun lo hlo => by simp at hlo) fun _ => rfl).noted
          _
    · exact h
  | handled p =>
    rcases h.handled p with he | ⟨r, hp, hi, he⟩ <;> rw [he]
    · exact h
    · exact h.turn (h.shaped p r hp) hi (fun lo hlo => by simp at hlo) (h.ending p r hp)

end Log.Locked

/-- The locks and the places of the processes agree in every state of the log. -/
theorem logged_locked {s : Log} (h : Logged s) : s.Locked := by
  refine h.induct (P := Log.Locked) ?_ fun s m _ _ ih => ih.next m
  rintro _ ⟨p, rfl⟩
  have hidle : ∀ q r, (logInit p).procs q = some r → r = .idle :=
    forall_update rfl fun q r _ hq => by simp at hq
  refine ⟨?_, ?_, ?_, ?_, ?_, ?_, ?_⟩
  · intro a b x ha
    exact absurd ha (by simp [logInit])
  · intro a x ha
    exact absurd ha (by simp [logInit])
  · intro a x y ha
    exact absurd ha (by simp [logInit])
  all_goals
    intro q r hq
    cases hidle q r hq
    simp [Proc.idle, Shaped, inside]

/-! ## Waiting -/

/-- The waiting processes hold only bytes below the places that they wait for. -/
theorem Log.Locked.waits_low {s : Log} (h : s.Locked) (p x : ℕ) (hx : Owns s.locks p x) :
    ∀ lo ∈ s.waits p, x < lo := by
  intro lo hlo
  obtain ⟨r, hp, hw⟩ := Option.bind_eq_some_iff.1 hlo
  exact (h.waits p r hp lo hw).2.2 x hx

/-- The places for which processes wait have been reached by the log. -/
theorem Log.Locked.waits_le {s : Log} (h : s.Locked) (p : ℕ) : ∀ lo ∈ s.waits p, lo ≤ s.offset := by
  intro lo hlo
  obtain ⟨r, hp, hw⟩ := Option.bind_eq_some_iff.1 hlo
  exact (h.waits p r hp lo hw).1

/-- No process waits for itself through others, so `lockf` finds no deadlock; and the processes that
wait for one another end with one that can go on. -/
theorem log_deadlock_free {s : Log} (h : Logged s) :
    (∀ p, ¬Relation.TransGen (Records.WaitsFor s.locks s.waits) p p) ∧
    ∀ p q, Records.WaitsFor s.locks s.waits p q →
      ∃ r, Relation.TransGen (Records.WaitsFor s.locks s.waits) p r ∧
      s.procs r ≠ none ∧ ∀ lo ∈ s.waits r, Free s.locks r lo := by
  have hl := logged_locked h
  refine ⟨Records.waitsFor_acyclic hl.waits_low, fun p q hpq => ?_⟩
  obtain ⟨r, hr, hrun⟩ := Records.exists_runner hl.waits_le hl.waits_low hpq
  obtain ⟨q', -, lo, -, -, x, -, hx⟩ := Relation.TransGen.tail'_iff.1 hr
  exact ⟨r, hr, hl.living r x hx, hrun⟩

/-- The server, 1, is in `log_line` and has the lock, and the child 2 that it forked is in
`log_errln`. -/
def twoLog : List Move :=
  [.fork 1 2, .enter 1 (.line (str "12:00") (str "a")), .call 1 0,
    .enter 2 (.errln (str "12:00") (str "b")), .call 2 0]

/-- Every list of moves is a run of the log. -/
theorem logged_exec (ms : List Move) : Logged (Runs.exec Log.next (logInit 1) ms) :=
  (Runs.Reach.start ⟨1, rfl⟩).exec ms

/-- The child waits for the server, which can go on. -/
theorem log_deadlock_free_two :
    ∃ r, Relation.TransGen (Records.WaitsFor (Runs.exec Log.next (logInit 1) twoLog).locks
        (Runs.exec Log.next (logInit 1) twoLog).waits) 2 r ∧
          (Runs.exec Log.next (logInit 1) twoLog).procs r ≠ none ∧
      ∀ lo ∈ (Runs.exec Log.next (logInit 1) twoLog).waits r,
        Free (Runs.exec Log.next (logInit 1) twoLog).locks r lo :=
  (log_deadlock_free (logged_exec twoLog)).2 2 1 ⟨0, by decide, by decide, 0, le_rfl, by decide⟩

/-- What a call leaves as it was: the other processes, and the locks below the offset, unless it
closes the log. -/
theorem Log.call_keeps (s : Log) (p n : ℕ) {r : Proc} (hp : s.procs p = some r) :
    s.offset ≤ (s.call p r n).offset ∧
    (∀ q, q ≠ p → (s.call p r n).procs q = s.procs q) ∧
    (∀ q x, Owns s.locks q x → x < s.offset → (q = p → .close ∉ r.calls) →
      Owns (s.call p r n).locks q x) ∧
    (.close ∉ r.calls → ∃ r', (s.call p r n).procs p = some r' ∧ r'.ending = r.ending) := by
  unfold Log.call
  split
  · exact ⟨le_rfl, fun q _ => rfl, fun q x hx _ _ => hx, fun _ => ⟨r, hp, rfl⟩⟩
  · dsimp only
    split_ifs
    · exact ⟨le_rfl, fun q hq => Function.update_of_ne hq ..,
        fun q x hx _ _ => (Records.owns_lock ..).2 (.inr hx),
        fun _ => ⟨_, Function.update_self .., rfl⟩⟩
    · exact ⟨le_rfl, fun q hq => Function.update_of_ne hq .., fun q x hx _ _ => hx,
        fun _ => ⟨_, Function.update_self .., rfl⟩⟩
  · exact ⟨Nat.le_add_right _ _, fun q hq => Function.update_of_ne hq .., fun q x hx _ _ => hx,
      fun _ => ⟨_, Function.update_self .., rfl⟩⟩
  · exact ⟨le_rfl, fun q hq => Function.update_of_ne hq ..,
      fun q x hx hlt _ => (Records.owns_unlock ..).2 ⟨hx, fun _ => hlt⟩,
        fun _ => ⟨_, Function.update_self .., rfl⟩⟩
  · rename_i cs hc
    have hm : .close ∈ r.calls := by rw [hc]; exact List.mem_cons_self
    exact ⟨le_rfl, fun q hq => Function.update_of_ne hq ..,
      fun q x hx _ hcl => (Records.owns_drop ..).2 ⟨hx, fun he => hcl he hm⟩,
        fun hn => absurd hm hn⟩

/-- The move neither ends the process `p`, nor is a `SIGTERM` for it, nor makes it serve the log. -/
def Move.Spares (p : ℕ) : Move → Prop
  | .serve q => q ≠ p
  | .exit q => q ≠ p
  | .term q _ => q ≠ p
  | _ => True

/-- `Move.Spares` is decidable. -/
instance (p : ℕ) : (m : Move) → Decidable (m.Spares p)
  | .serve q => inferInstanceAs (Decidable (q ≠ p))
  | .exit q => inferInstanceAs (Decidable (q ≠ p))
  | .term q _ => inferInstanceAs (Decidable (q ≠ p))
  | .enter .. => isTrue trivial
  | .call .. => isTrue trivial
  | .fork .. => isTrue trivial
  | .handled .. => isTrue trivial

/-- The process `p` waits from `lo` on, behind a byte of the log that `q` holds. -/
structure Log.Behind (s : Log) (p : ℕ) (r : Proc) (lo q : ℕ) : Prop where
  /-- It waits. -/
  waits : s.procs p = some r ∧ r.waits = some lo
  /-- The other one lives. -/
  holder : q ≠ p ∧ ∃ rq, s.procs q = some rq ∧ rq.ending = false
  /-- The byte. -/
  held : ∃ x, lo ≤ x ∧ x < s.offset ∧ Owns s.locks q x

/-- A process that waits behind the offset stays there whatever happens next, unless one of the two
ends or serves the log, or the one that waits handles a signal. -/
theorem Log.Behind.next {s : Log} {p q lo : ℕ} {r : Proc} (hb : s.Behind p r lo q) (hl : s.Locked)
    {m : Move} (hmp : m.Spares p) (hmq : m.Spares q) (hms : m ≠ .handled p) :
    (s.next m).Behind p r lo q := by
  obtain ⟨⟨hp, hw⟩, ⟨hne, rq, hq, hend⟩, x, hlo, hx, hheld⟩ := hb
  -- A waiting process is in a call, so no move that starts one is its own.
  have hpidle : s.procs p ≠ some .idle := fun hi => by
    rw [hp] at hi
    cases hi
    simp [Proc.idle] at hw
  cases m with
  | enter a f =>
    simp only [Log.next]
    split_ifs with ha
    · have hpa : p ≠ a := fun he => hpidle (he ▸ ha)
      refine ⟨⟨by simpa [Function.update_of_ne hpa] using hp, hw⟩, ⟨hne, ?_⟩, x, hlo, hx, hheld⟩
      by_cases hqa : q = a
      · exact ⟨⟨f.calls, none, false⟩, by simp [hqa], rfl⟩
      · exact ⟨rq, by simpa [Function.update_of_ne hqa] using hq, hend⟩
    · exact ⟨⟨hp, hw⟩, ⟨hne, rq, hq, hend⟩, x, hlo, hx, hheld⟩
  | fork a b =>
    simp only [Log.next]
    split_ifs with ha
    · have hpb : p ≠ b := fun he => by rw [← he, hp] at ha; simp at ha
      have hqb : q ≠ b := fun he => by rw [← he, hq] at ha; simp at ha
      exact ⟨⟨by simpa [Function.update_of_ne hpb] using hp, hw⟩,
        ⟨hne, rq, by simpa [Function.update_of_ne hqb] using hq, hend⟩, x, hlo, hx, hheld⟩
    · exact ⟨⟨hp, hw⟩, ⟨hne, rq, hq, hend⟩, x, hlo, hx, hheld⟩
  | serve a =>
    have hqa : q ≠ a := Ne.symm hmq
    simp only [Log.next]
    split_ifs
    · exact ⟨⟨hp, hw⟩, ⟨hne, rq, hq, hend⟩, x, hlo, hx, (Records.owns_drop ..).2 ⟨hheld, hqa⟩⟩
    · exact ⟨⟨hp, hw⟩, ⟨hne, rq, hq, hend⟩, x, hlo, hx, hheld⟩
  | exit a =>
    have hpa : p ≠ a := Ne.symm hmp
    have hqa : q ≠ a := Ne.symm hmq
    exact ⟨⟨by simpa [Log.next, Log.leave, Function.update_of_ne hpa] using hp, hw⟩,
      ⟨hne, rq, by simpa [Log.next, Log.leave, Function.update_of_ne hqa] using hq, hend⟩,
      x, hlo, hx, (Records.owns_drop ..).2 ⟨hheld, hqa⟩⟩
  | term a dt =>
    have hpa : p ≠ a := Ne.symm hmp
    have hqa : q ≠ a := Ne.symm hmq
    simp only [Log.next]
    split
    · split_ifs
      · exact ⟨⟨hp, hw⟩, ⟨hne, rq, hq, hend⟩, x, hlo, hx, hheld⟩
      · exact ⟨⟨by simpa [Function.update_of_ne hpa] using hp, hw⟩,
          ⟨hne, rq, by simpa [Function.update_of_ne hqa] using hq, hend⟩, x, hlo, hx, hheld⟩
    · exact ⟨⟨hp, hw⟩, ⟨hne, rq, hq, hend⟩, x, hlo, hx, hheld⟩
  | handled a =>
    have hpa : p ≠ a := fun he => hms (he ▸ rfl)
    simp only [Log.next]
    split
    · rename_i ra ha
      refine ⟨⟨by simpa [Function.update_of_ne hpa] using hp, hw⟩, ⟨hne, ?_⟩, x, hlo, hx, hheld⟩
      by_cases hqa : q = a
      · subst hqa
        cases hq.symm.trans ha
        exact ⟨{ rq with waits := none }, by simp, hend⟩
      · exact ⟨rq, by simpa [Function.update_of_ne hqa] using hq, hend⟩
    · exact ⟨⟨hp, hw⟩, ⟨hne, rq, hq, hend⟩, x, hlo, hx, hheld⟩
  | call a n =>
    simp only [Log.next]
    split
    · rename_i ra ha
      by_cases hpa : p = a
      · -- The waiting process tries again, and is still blocked.
        subst hpa
        cases hp.symm.trans ha
        obtain ⟨-, ⟨cs, hcs⟩, -⟩ := hl.waits p r hp lo hw
        have hf : ¬Free s.locks p lo := fun hf => hne (hf.eq hlo hheld)
        have he : s.call p r n = s := by
          have hr : ({ r with waits := some lo } : Proc) = r := by rw [← hw]
          simp only [Log.call, hcs, hw, Option.getD_some, if_neg hf]
          rw [← hcs, hr, ← hp, Function.update_eq_self]
        rw [he]
        exact ⟨⟨hp, hw⟩, ⟨hne, rq, hq, hend⟩, x, hlo, hx, hheld⟩
      · -- A call of another process moves the offset only forward, and the holder keeps its bytes.
        obtain ⟨hoff, hothers, hlocks, hself⟩ := s.call_keeps a n ha
        have hopen : q = a → .close ∉ ra.calls := by
          rintro rfl hm
          cases hq.symm.trans ha
          simp [hl.ending q rq hq hm] at hend
        refine ⟨⟨(hothers p hpa).trans hp, hw⟩, ⟨hne, ?_⟩, x, hlo, hx.trans_le hoff,
          hlocks q x hheld hx hopen⟩
        by_cases hqa : q = a
        · subst hqa
          cases hq.symm.trans ha
          obtain ⟨r', hr', he⟩ := hself (hopen rfl)
          exact ⟨r', hr', he.trans hend⟩
        · exact ⟨rq, (hothers q hqa).trans hq, hend⟩
    · exact ⟨⟨hp, hw⟩, ⟨hne, rq, hq, hend⟩, x, hlo, hx, hheld⟩

/-- A process that waits behind the offset stays there in every run in which none of the two ends or
serves the log, and the one that waits handles no signal. -/
theorem Log.Behind.exec {s : Log} {p q lo : ℕ} {r : Proc} (hb : s.Behind p r lo q) (hl : s.Locked)
    (ms : List Move) (hms : ∀ m ∈ ms, m.Spares p ∧ m.Spares q ∧ m ≠ .handled p) :
    (Runs.exec Log.next s ms).Behind p r lo q := by
  induction ms generalizing s with
  | nil => exact hb
  | cons m ms ih =>
    obtain ⟨hmp, hmq, hm⟩ := hms m List.mem_cons_self
    exact ih (hb.next hl hmp hmq hm) (hl.next m) fun m' hm' => hms m' (List.mem_cons_of_mem m hm')

/-- A process that waits while another one, between its `lock` and its `unlock`, writes at least one
byte waits as long as the two live, the other one does not serve the log, and no signal is handled
in the one that waits: the lock is given back from behind what was written, and not from the place
where the process waits. -/
theorem log_waits_on {s : Log} (h : Logged s) {p q lo n : ℕ} {r rq : Proc} {data : List Byte}
    {cs : List Call} (hp : s.procs p = some r) (hw : r.waits = some lo) (hne : q ≠ p)
    (hq : s.procs q = some rq) (hend : rq.ending = false) (hc : rq.calls = .write data :: cs)
    (hn : 0 < (data.take n).length) (ms : List Move)
    (hms : ∀ m ∈ ms, m.Spares p ∧ m.Spares q ∧ m ≠ .handled p) :
    (Runs.exec Log.next s (.call q n :: ms)).procs p = some r := by
  have hl := logged_locked h
  have hheld : Owns s.locks q s.offset := hl.inside q rq hq (by rw [hc]; rfl)
  obtain ⟨hle, -, -⟩ := hl.waits p r hp lo hw
  have hnext : s.next (.call q n) = s.call q rq n := by simp only [Log.next, hq]
  have hb : (s.next (.call q n)).Behind p r lo q := by
    have hpq : p ≠ q := Ne.symm hne
    rw [hnext]
    simp only [Log.call, hc]
    exact ⟨⟨by simpa [Function.update_of_ne hpq] using hp, hw⟩,
      ⟨hne, _, Function.update_self .., hend⟩, s.offset, hle,
      Nat.lt_add_of_pos_right hn, hheld⟩
  exact (hb.exec (hl.next _) ms hms).waits.1

/-- The server writes its line and unlocks, and the child tries again: it waits for byte 0, which
the server keeps. -/
theorem log_waits_on_two :
    (Runs.exec Log.next (Runs.exec Log.next (logInit 1) twoLog)
      [.call 1 100, .call 1 0, .call 2 0]).procs 2 =
      some ⟨logErrln (str "12:00") (str "b"), some 0, false⟩ :=
  log_waits_on (logged_exec twoLog) (q := 1) rfl rfl (by decide) rfl rfl rfl (by decide) _
    (by decide)

/-- When `SIGCHLD` comes to the waiting child, it locks from where the offset is by then, and gets
the lock while the server lives. -/
theorem log_waits_restarted :
    ¬ ∀ (s : Log) (p q lo n : ℕ) (r rq : Proc) (data : List Byte) (cs : List Call) (ms : List Move),
      Logged s → s.procs p = some r → r.waits = some lo → q ≠ p → s.procs q = some rq →
      rq.ending = false → rq.calls = .write data :: cs → 0 < (data.take n).length →
      (∀ m ∈ ms, m.Spares p ∧ m.Spares q) →
      (Runs.exec Log.next s (.call q n :: ms)).procs p = some r := by
  intro h
  have := h _ 2 1 0 100 _ _ _ _ [.call 1 0, .handled 2, .call 2 0] (logged_exec twoLog) rfl rfl
    (by decide) rfl rfl rfl (by decide) (by decide)
  revert this
  decide

end Liso
