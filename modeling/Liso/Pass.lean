import Liso.Joint
import Liso.Places

/-!
# A pass over the pool

The inner loop walks the array with an index while its handlers delete connections, each of which is
replaced by the last one. When a handler reports that the connection is gone, the loop visits the
same place again. Two things make every pass visit every connection once: the handlers' codes mean
the same on every path (`Reports`), and a deletion leaves behind the index exactly the connections
that were still to come (`Slots.swapRemove_drop_perm`). A connection is identified by its socket,
since nothing is accepted during a pass.
-/

namespace Liso

variable {conf : Conf} {ok : Loop → Ev → Prop} {l : Loop} {c c' : Conn} {s s' : Srv} {e : Env}
  {A : Set ℕ} {G : ℕ × Option ℕ → Prop} {T : Prop}

/-! ## The handlers -/

/-- A handler either frees the connection in the place `i`, takes it out of the pool, and returns a
negative code, or leaves the pool's connections and returns a code that is not negative. -/
def Reports (s : Srv) (i : ℕ) (r : Ret) : Prop :=
  (r.rc < 0 ∧ r.conn = none ∧ r.srv.pool.conns = moveLast s.pool.conns i) ∨
  (0 ≤ r.rc ∧ r.conn.isSome = true ∧ r.srv.pool.conns = s.pool.conns)

/-- What a part of a visit does to descriptors tells what it does to the pool. -/
theorem Ret.Post.reports {r : Ret} {i : ℕ}
    (h : r.Post (fun c' s' => Held T A c' s' ∧ Moves A G c s c' s') (Gone T A G c s))
    (hidx : c.idx = i) :
    Reports s i r := by
  cases hc : r.conn with
  | none =>
    obtain ⟨hrc, hG⟩ := h.of_none hc
    exact .inl ⟨hrc, hc, hidx ▸ hG.conns⟩
  | some c' =>
    obtain ⟨hrc, -, hM⟩ := h.of_some hc
    exact .inr ⟨hrc, by simp [hc], hM.conns⟩

/-- The three handlers that a visit runs and that may free its connection: `liso_recv`,
`liso_serve_dynamic`, and `liso_serve_static`, with the sections around them. Each is run on the
connection that the one before it returned. -/
structure Handlers (conf : Conf) (e : Env) (i : ℕ) (c : Conn) (s : Srv) : Prop where
  /-- `liso_recv`. -/
  recv : Reports s i (stepRecv e c s)
  /-- `liso_serve_dynamic`. -/
  dynamic : ∀ p ∈ afterMiddle conf e c s, Reports s i (stepDynamic e p.1 p.2)
  /-- `liso_serve_static`. -/
  static : ∀ p ∈ afterMiddle conf e c s, ∀ c' ∈ (stepDynamic e p.1 p.2).conn,
    Reports s i (stepStatic conf e c' (stepDynamic e p.1 p.2).srv)

/-- A part of a visit that keeps the connection and the array, before another one. -/
theorem Reports.after {r : Ret} {i : ℕ} (h : Reports s' i r) (he : s'.pool.conns = s.pool.conns) :
    Reports s i r := by
  rw [Reports, he] at h
  exact h

/-- The handlers' codes agree with what they do, on every path. -/
theorem Held.handlers (conf : Conf) (e : Env) (hH : Held False A c s) {i : ℕ} (hidx : c.idx = i) :
    Handlers conf e i c s := by
  have hany : ∀ c s, FdActs (fun _ => True) c s := fun _ _ _ => trivial
  have hrecv := stepRecv_frame (G := fun _ => True) e c s hH (hany _ _)
  -- After the streaming to the CGI the connection is in its place and the array is the same.
  have hmid : ∀ p ∈ afterMiddle conf e c s,
      Held False A p.1 p.2 ∧ p.1.idx = i ∧ p.2.pool.conns = s.pool.conns := by
    intro p hp
    obtain ⟨q, hq, rfl⟩ := Option.map_eq_some_iff.1 hp
    obtain ⟨c1, hc1, rfl⟩ := Option.map_eq_some_iff.1 hq
    obtain ⟨-, hH1, hM1⟩ := hrecv.of_some hc1
    obtain ⟨hH2, hM2⟩ := stepMiddle_frame (G := fun _ => True) conf e c1 (stepRecv e c s).srv
      (fun f => f.elim) (fun _ _ _ => trivial) hH1 (hany _ _)
    exact ⟨hH2, by rw [hM2.idx, hM1.idx, hidx], hM2.conns.trans hM1.conns⟩
  refine ⟨hrecv.reports hidx, fun p hp => ?_, fun p hp c' hc' => ?_⟩
  all_goals
    obtain ⟨hH2, hidx2, hconns2⟩ := hmid p hp
    have hdyn := stepDynamic_frame (G := fun _ => True) e p.1 p.2 (fun _ _ _ _ _ _ _ => trivial)
      hH2 (hany _ _)
  · exact (hdyn.reports hidx2).after hconns2
  · obtain ⟨-, hH3, hM3⟩ := hdyn.of_some hc'
    have hstat := stepStatic_frame (G := fun _ => True) conf e c' (stepDynamic e p.1 p.2).srv
      hH3 (hany _ _)
    exact (hstat.reports (hM3.idx.trans hidx2)).after (hM3.conns.trans hconns2)

/-! ## The walk -/

/-- The connection that the next step visits, by its socket. -/
def Loop.visiting (l : Loop) : Option ℕ :=
  match l.pc with
  | .serve i _ => l.srv.pool.conns[i]?.map Conn.fd
  | .select => none
  | .accept => none
  | .accept_ssl => none

/-- The connections visited while the outside world gives some answers, in order. -/
def visits (conf : Conf) : Loop → List Ev → List ℕ
  | _, [] => []
  | l, ev :: evs => l.visiting.toList ++ visits conf (step conf l ev) evs

/-- The connections still to come at a place of the inner loop. -/
def Loop.coming (l : Loop) (i : ℕ) : List ℕ := (l.srv.pool.conns.drop i).map Conn.fd

/-- One step of the walk: the visited connection is the next one, and those behind it are still to
come. -/
theorem walk_step (h : Reach conf ok l) (ev : Ev) {i m : ℕ} (hpc : l.pc = .serve i m)
    (hlt : i < l.srv.pool.conns.length) :
    ∃ j m', (step conf l ev).pc = .serve j m' ∧ j ≤ (step conf l ev).srv.pool.conns.length ∧
      (step conf l ev).srv.pool.conns.length - j + 1 = l.srv.pool.conns.length - i ∧
      (l.visiting.toList ++ (step conf l ev).coming j).Perm (l.coming i) := by
  obtain ⟨c, hc⟩ : ∃ c, l.srv.pool.conns[i]? = some c := ⟨_, List.getElem?_eq_getElem hlt⟩
  have hinv := (loop_inv h).pool
  have hidx := hinv.idx i c hc
  have hvisit : l.visiting = some c.fd := by
    unfold Loop.visiting
    rw [hpc]
    simp only [hc, Option.map_some]
  have hstep : step conf l ev = afterVisit i m (visit conf ev.env c l.srv) := by
    unfold step
    rw [hpc]
    simp only [hc]
  have hcoming : l.coming i = c.fd :: (l.srv.pool.conns.drop (i + 1)).map Conn.fd := by
    have hget : l.srv.pool.conns[i] = c := by
      rw [List.getElem?_eq_getElem hlt, Option.some.injEq] at hc
      exact hc
    rw [Loop.coming, List.drop_eq_getElem_cons hlt, List.map_cons, hget]
  rw [hvisit, hcoming, hstep]
  have hframe := visit_frame_any conf ev.env c l.srv (hinv.held i c hc)
  rcases hframe.afterVisit i m with ⟨c', ⟨-, hM⟩, he⟩ | ⟨hG, he⟩ <;> rw [he]
  · have hconns : (visit conf ev.env c l.srv).srv.pool.conns = l.srv.pool.conns := hM.conns
    -- The connection stays, and the walk goes on behind it.
    refine ⟨i + 1, _, rfl, ?_, ?_, ?_⟩
    · show i + 1 ≤ ((visit conf ev.env c l.srv).srv.pool.conns.set i c').length
      rw [List.length_set, hconns]
      omega
    · show ((visit conf ev.env c l.srv).srv.pool.conns.set i c').length - (i + 1) + 1 = _
      rw [List.length_set, hconns]
      omega
    · show (c.fd :: (((visit conf ev.env c l.srv).srv.pool.conns.set i c').drop (i + 1)).map
        Conn.fd).Perm _
      rw [hconns, List.drop_set_of_lt (by omega)]
  · have hconns : (visit conf ev.env c l.srv).srv.pool.conns = moveLast l.srv.pool.conns i := by
      rw [hG.conns, hidx]
    -- The last connection takes its place, and is visited there next.
    have hlen : (moveLast l.srv.pool.conns i).length = l.srv.pool.conns.length - 1 := by
      have := (Slots.swapRemove_perm Conn.fd_put hlt).length_eq
      rw [← moveLast_eq, List.length_map,
        List.length_eraseIdx_of_lt (by rw [List.length_map]; exact hlt),
        List.length_map] at this
      exact this
    refine ⟨i, _, rfl, ?_, ?_, ?_⟩
    · show i ≤ (visit conf ev.env c l.srv).srv.pool.conns.length
      rw [hconns, hlen]
      omega
    · show (visit conf ev.env c l.srv).srv.pool.conns.length - i + 1 = _
      rw [hconns, hlen]
      omega
    · show (c.fd :: ((visit conf ev.env c l.srv).srv.pool.conns.drop i).map Conn.fd).Perm _
      rw [hconns, moveLast_eq]
      exact (Slots.swapRemove_drop_perm Conn.fd_put hlt).cons _

/-- The walk from a place of the inner loop to its end. -/
theorem walk (h : Reach conf Runs.any l) {i m : ℕ} (hpc : l.pc = .serve i m)
    (hle : i ≤ l.srv.pool.conns.length) (evs : List Ev)
    (hlen : evs.length = l.srv.pool.conns.length - i) :
    (visits conf l evs).Perm (l.coming i) ∧
      ∃ j m', (Runs.exec (step conf) l evs).pc = .serve j m' ∧
        (Runs.exec (step conf) l evs).srv.pool.conns.length = j := by
  induction evs generalizing l i m with
  | nil =>
    have hi : l.srv.pool.conns.length = i := by
      rw [List.length_nil] at hlen
      omega
    refine ⟨?_, i, m, hpc, hi⟩
    rw [Loop.coming, List.drop_eq_nil_of_le hi.le]
    exact .refl _
  | cons ev evs ih =>
    rw [List.length_cons] at hlen
    obtain ⟨j, m', hpc', hle', hlen', hperm⟩ := walk_step h ev hpc (by omega)
    obtain ⟨hrest, hend⟩ := ih (h.step ev trivial) hpc' hle' (by omega)
    exact ⟨(hrest.append_left _).trans hperm, hend⟩

/-- In every reachable state, whatever the outside world answers: each handler of a visit removes
its connection from the pool if and only if it returns a negative code; a pass visits each
connection that is in the pool at its start exactly once and then ends; and no freed connection was
used. -/
theorem pass_once (h : Reach conf Runs.any l) :
    (∀ (i m : ℕ) (c : Conn) (e : Env), l.pc = .serve i m → l.srv.pool.conns[i]? = some c →
      Handlers conf e i c l.srv) ∧
    (∀ (m : ℕ) (evs : List Ev), l.pc = .serve 0 m → evs.length = l.srv.pool.conns.length →
      (visits conf l evs).Perm (l.srv.pool.conns.map Conn.fd) ∧ (visits conf l evs).Nodup ∧
      ∀ ev, (step conf (Runs.exec (step conf) l evs) ev).pc = .select) ∧
    l.srv.bad_ptr = false := by
  have hinv := (loop_inv h).pool
  refine ⟨fun i m c e _ hc => (hinv.held i c hc).handlers conf e (hinv.idx i c hc),
    fun m evs hpc hlen => ?_,
    (sound_inv h).2⟩
  obtain ⟨hperm, j, m', hpc', hend⟩ := walk h hpc (Nat.zero_le _) evs hlen
  refine ⟨hperm, ?_, fun ev => ?_⟩
  · rw [hperm.nodup_iff]
    rw [Loop.coming, List.drop_zero, List.nodup_iff_pairwise_ne, List.pairwise_map,
      List.pairwise_iff_getElem]
    intro i j hi hj hij he
    refine hinv.disjoint (by omega) (List.getElem?_eq_getElem hi) (List.getElem?_eq_getElem hj)
      (Conn.fd_mem_owned _) ?_
    rw [he]
    exact Conn.fd_mem_owned _
  · generalize Runs.exec (step conf) l evs = l' at hpc' hend
    unfold step
    rw [hpc']
    simp only
    rw [List.getElem?_eq_none (by omega)]

/-- The start of the inner loop with the connections 5 and 6 in the pool, of which 5 is readable. -/
def twoConns : Loop :=
  Runs.exec (step Sample.conf) Sample.start (Sample.connect ++ Sample.select {3, 5} ∅)

/-- The client of 5 has closed the connection, so that 6 takes its place and is visited there. -/
theorem pass_once_drop :
    (visits Sample.conf twoConns [Sample.recv "", Sample.next]).Perm
      (twoConns.srv.pool.conns.map Conn.fd) ∧
    (visits Sample.conf twoConns [Sample.recv "", Sample.next]).Nodup ∧
    ∀ ev, (step Sample.conf (Runs.exec (step Sample.conf) twoConns [Sample.recv "", Sample.next])
      ev).pc = .select :=
  (pass_once (Sample.reach _)).2.1 4 [Sample.recv "", Sample.next] (by decide +kernel)
    (by decide +kernel)

example : visits Sample.conf twoConns [Sample.recv "", Sample.next] = [5, 6] := by decide +kernel

end Liso
