import Liso.Loop.Invariant
import Liso.Loop.Sample

/-!
# What select watches

The two `fd_set`s and `max_fd` are all that `select` is given. `PoolInv` says where their bits come
from; this module adds that of the descriptors from before the main loop only the listeners have a
bit, and that `max_fd`, which the inner loop computes anew while it drops and moves connections,
bounds what every connection may watch. The bound on the loop's variable grows with the places
already visited: `Bounded` is that invariant.
-/

namespace Liso

open Handles (Table Picker)

variable {conf : Conf} {ok : Loop → Ev → Prop} {l : Loop} {c c' : Conn} {s s' : Srv} {e : Env}
  {A : Set ℕ} {G : ℕ × Option ℕ → Prop} {T : Prop}

/-- The descriptors that a connection may put into the sets: its socket, and those of the two pipes
that are open. -/
def Conn.watched (c : Conn) : List ℕ := c.fd :: [c.cgi.srv_in, c.cgi.srv_err].filterMap id

/-- The list of the descriptors that a connection watches. -/
theorem Conn.mem_watched (c : Conn) (d : ℕ) : d ∈ c.watched ↔ c.Watches d := by
  simp [Conn.watched, Conn.Watches, eq_comm]

/-- They are among those that it owns. -/
theorem Conn.watched_sublist (c : Conn) : c.watched.Sublist c.owned := by
  refine List.Sublist.cons_cons _ (List.Sublist.filterMap id ?_)
  exact (List.sublist_append_left [c.cgi.srv_in, c.cgi.srv_err]
    [c.cgi.cgi_in, c.cgi.cgi_out, c.cgi.cgi_err]).cons c.cgi.srv_out

/-! ## The listeners -/

/-- Of the descriptors from before the main loop, the listeners are watched for reading. -/
def Listening (conf : Conf) (s : Srv) : Prop :=
  ∀ d ∈ conf.base, d ∈ s.pool.read_set ↔ d = conf.sock ∨ d = conf.ssl_sock

/-- A visit keeps the bits of the descriptors that its connection does not own. -/
theorem Listening.keeps (h : Listening conf s) {i : ℕ} (hk : Keeps (s.others conf i) s s') :
    Listening conf s' := by
  intro d hd
  rw [hk.read d (.inl hd)]
  exact h d hd

/-- The server after the test of the listener `d`. -/
def Srv.listen (conf : Conf) (s : Srv) (d : ℕ) (a : Accept) (ssl : Bool) : Srv :=
  if (s.probe d).readReady d then lisoAcceptConn conf a ssl (s.probe d) else s.probe d

/-- Accepting a connection sets the bit of a new descriptor. -/
theorem Listening.accept (h : Listening conf s) (hP : PoolInv T conf s) (d : ℕ) (a : Accept)
    (ssl : Bool) :
    Listening conf (s.listen conf d a ssl) ∧
      (s.listen conf d a ssl).pool.min_max_fd = s.pool.min_max_fd := by
  have hP' : PoolInv T conf (s.probe d) := hP.congr rfl rfl rfl (fun _ _ => rfl) fun _ h => h
  unfold Srv.listen
  split
  · rcases lisoAcceptConn_cases conf a ssl (s.probe d) hP'.size with ⟨t, he, -, -⟩ |
      ⟨c, -, hfd, -, -, -, -, he⟩ <;> rw [he]
    · exact ⟨h, rfl⟩
    · refine ⟨fun x hx => ?_, rfl⟩
      have hne : x ≠ c.fd := by
        rintro rfl
        exact (s.probe d).fds.alloc_fresh a.pick (hfd ▸ hP'.base _ hx)
      rw [← h x hx]
      simp [Srv.join, hne]
  · exact ⟨h, rfl⟩

/-- The listeners are watched in every reachable state. -/
theorem listening (h : Reach conf ok l) :
    Listening conf l.srv ∧ conf.sock ∈ conf.base ∧ conf.ssl_sock ∈ conf.base ∧
      conf.sock ≠ conf.ssl_sock ∧
      l.srv.pool.min_max_fd = max conf.sock conf.ssl_sock := by
  refine Runs.Reach.induct (P := fun l => Listening conf l.srv ∧ conf.sock ∈ conf.base ∧
    conf.ssl_sock ∈ conf.base ∧ conf.sock ≠ conf.ssl_sock ∧
    l.srv.pool.min_max_fd = max conf.sock conf.ssl_sock) (fun l h0 => ?_) (fun l ev hl _ ih => ?_) h
  · obtain ⟨-, hpool, -, -, hs, hss, hne, -⟩ := h0
    refine ⟨fun d _ => ?_, hs, hss, hne, ?_⟩
    · rw [hpool]
      simp [plNew]
    · rw [hpool]
      rfl
  obtain ⟨hlist, hs, hss, hne, hmin⟩ := ih
  have hinv := loop_inv hl
  suffices hstep : Listening conf (step conf l ev).srv ∧
      (step conf l ev).srv.pool.min_max_fd = l.srv.pool.min_max_fd from
    ⟨hstep.1, hs, hss, hne, hstep.2.trans hmin⟩
  unfold step
  split
  · split
    · exact ⟨hlist, rfl⟩
    · exact ⟨hlist, rfl⟩
  · exact hlist.accept hinv.pool conf.sock ev.acc false
  · exact hlist.accept hinv.pool conf.ssl_sock ev.acc true
  · rename_i i m hpc
    split
    · exact ⟨hlist, rfl⟩
    · rename_i c hc
      have hframe := visit_frame_any conf ev.env c l.srv (hinv.pool.held i c hc)
      rcases hframe.afterVisit i m with ⟨c', ⟨-, hM⟩, he⟩ | ⟨hG, he⟩ <;> rw [he]
      · have hkept : Listening conf (visit conf ev.env c l.srv).srv := hlist.keeps hM.keeps
        exact ⟨hkept, hM.min_max_fd⟩
      · exact ⟨hlist.keeps hG.keeps, hG.min_max_fd⟩

/-! ## The bound -/

/-- What the variable `max_fd` bounds at each place of the loop: in the inner loop, the listeners
and the connections already visited. -/
def Bounded (l : Loop) : Prop :=
  match l.pc with
  | .select => l.srv.pool.min_max_fd ≤ l.srv.pool.max_fd ∧
      ∀ c ∈ l.srv.pool.conns, ∀ d, c.Watches d → d ≤ l.srv.pool.max_fd
  | .accept => True
  | .accept_ssl => True
  | .serve i m => l.srv.pool.min_max_fd ≤ m ∧
      ∀ (j : ℕ) (c : Conn), j < i → l.srv.pool.conns[j]? = some c → ∀ d, c.Watches d → d ≤ m

/-- The new value bounds the old one, and the connection just visited. -/
theorem le_maintainMaxFd (m : ℕ) (c : Conn) :
    m ≤ maintainMaxFd m c ∧ ∀ d, c.Watches d → d ≤ maintainMaxFd m c := by
  unfold maintainMaxFd
  refine ⟨by omega, fun d hd => ?_⟩
  rcases hd with rfl | hd | hd
  · omega
  · rw [hd, Option.getD_some]
    omega
  · rw [hd, Option.getD_some]
    omega

/-- A visit moves no connection that was visited before. -/
theorem Bounded.visit {i m : ℕ} (hb : Bounded l) (hpc : l.pc = .serve i m)
    (hi : l.srv.pool.conns[i]? = some c) (hidx : c.idx = i) {r : Ret}
    (hr : r.Post (fun c' s' => Held T A c' s' ∧ Moves A G c l.srv c' s') (Gone T A G c l.srv)) :
    Bounded (afterVisit i m r) := by
  have hlt : i < l.srv.pool.conns.length := (List.getElem?_eq_some_iff.1 hi).1
  rw [Bounded, hpc] at hb
  obtain ⟨hmin, hall⟩ := hb
  rcases hr.afterVisit i m with ⟨c', ⟨-, hM⟩, he⟩ | ⟨hG, he⟩ <;> rw [he]
  · obtain ⟨hle, hnew⟩ := le_maintainMaxFd m c'
    refine ⟨?_, fun j cj hj hcj d hd => ?_⟩
    · show r.srv.pool.min_max_fd ≤ _
      rw [hM.min_max_fd]
      omega
    have hcj : (r.srv.pool.conns.set i c')[j]? = some cj := hcj
    rw [hM.conns] at hcj
    by_cases hji : j = i
    · rw [hji, List.getElem?_set_self hlt, Option.some.injEq] at hcj
      exact hnew d (hcj ▸ hd)
    · rw [List.getElem?_set_ne (Ne.symm hji)] at hcj
      have := hall j cj (by omega) hcj d hd
      omega
  · refine ⟨hG.min_max_fd ▸ hmin, fun j cj hj hcj d hd => ?_⟩
    have hcj : r.srv.pool.conns[j]? = some cj := hcj
    rw [hG.conns, hidx] at hcj
    rcases moveLast_getElem? hlt hcj with ⟨-, hcj⟩ | ⟨hji, -⟩
    · exact hall j cj hj hcj d hd
    · omega

/-- The bound holds in every reachable state. -/
theorem bounded_inv (h : Reach conf ok l) : Bounded l := by
  refine Runs.Reach.induct (fun l h0 => ?_) (fun l ev hl _ ih => ?_) h
  · obtain ⟨hpc, hpool, -⟩ := h0
    rw [Bounded, hpc]
    dsimp only
    rw [hpool]
    exact ⟨le_rfl, by simp [plNew]⟩
  have hinv := loop_inv hl
  unfold step
  split
  · rename_i hpc
    split
    · exact ih
    · trivial
  · trivial
  · -- The inner loop begins, and no connection is visited yet.
    have hmin := ((listening hl).1.accept hinv.pool conf.ssl_sock ev.acc true).2
    exact ⟨hmin.le, fun j c hj => by omega⟩
  · rename_i i m hpc
    split
    · rename_i hnone
      rw [Bounded, hpc] at ih
      refine ⟨ih.1, fun c hc d hd => ?_⟩
      obtain ⟨j, hj⟩ := List.mem_iff_getElem?.1 hc
      have hji : j < i := by
        have := (List.getElem?_eq_some_iff.1 hj).1
        rw [List.getElem?_eq_none_iff] at hnone
        have hlen : l.srv.pool.conns.length ≤ i := hnone
        have hlt : j < l.srv.pool.conns.length := this
        omega
      exact ih.2 j c hji hj d hd
    · rename_i c hc
      exact ih.visit hpc hc (hinv.pool.idx i c hc)
        (visit_frame_any conf ev.env c l.srv (hinv.pool.held i c hc))

/-! ## The sets -/

/-- The sets that `select` is given. -/
structure Watching (conf : Conf) (s : Srv) : Prop where
  /-- The listeners are watched for reading. -/
  listeners : conf.sock ∈ s.pool.read_set ∧ conf.ssl_sock ∈ s.pool.read_set
  /-- Every other bit is on an open descriptor that exactly one connection may watch. -/
  owned : ∀ d, d ∈ s.pool.read_set ∨ d ∈ s.pool.write_set → d = conf.sock ∨ d = conf.ssl_sock ∨
    d ∈ s.fds.dom ∧ ∃ (i : ℕ) (c : Conn), s.pool.conns[i]? = some c ∧ d ∈ c.watched ∧
      ∀ (j : ℕ) (c' : Conn), s.pool.conns[j]? = some c' → d ∈ c'.watched → j = i
  /-- The listeners and the descriptors of the connections are distinct. -/
  distinct : (conf.sock :: conf.ssl_sock :: s.pool.conns.flatMap Conn.watched).Nodup
  /-- No bit is behind `max_fd`. -/
  bound : ∀ d, d ∈ s.pool.read_set ∨ d ∈ s.pool.write_set → d ≤ s.pool.max_fd

/-- The descriptors of different connections are distinct. -/
theorem PoolInv.watched_nodup (h : PoolInv T conf s) :
    (s.pool.conns.flatMap Conn.watched).Nodup := by
  rw [List.nodup_flatMap]
  refine ⟨fun c hc => ?_, ?_⟩
  · obtain ⟨i, hi⟩ := List.mem_iff_getElem?.1 hc
    exact (h.held i c hi).nodup.sublist c.watched_sublist
  · rw [List.pairwise_iff_getElem]
    intro i j hi hj hij d hd hd'
    exact h.disjoint (by omega) (List.getElem?_eq_getElem hi) (List.getElem?_eq_getElem hj)
      (Conn.watched_sublist _ |>.subset hd) (Conn.watched_sublist _ |>.subset hd')

/-- The descriptors of a connection are not from before the main loop. -/
theorem PoolInv.watched_notMem_base (h : PoolInv T conf s) {d : ℕ}
    (hd : d ∈ s.pool.conns.flatMap Conn.watched) :
    d ∉ conf.base := by
  obtain ⟨c, hc, hd⟩ := List.mem_flatMap.1 hd
  obtain ⟨i, hi⟩ := List.mem_iff_getElem?.1 hc
  exact fun hb => (h.held i c hi).apart d (c.watched_sublist.subset hd) (.inl hb)

/-- At every call of `select` its sets are sound. -/
theorem select_sound (h : Reach conf Runs.any l) (hpc : l.pc = .select) : Watching conf l.srv := by
  have hP := (loop_inv h).pool
  obtain ⟨hlist, hs, hss, hne, hmin⟩ := listening h
  have hb := bounded_inv h
  rw [Bounded, hpc] at hb
  obtain ⟨hmax, hall⟩ := hb
  -- A bit is on a listener or on a descriptor of some connection.
  have hfrom : ∀ d, d ∈ l.srv.pool.read_set ∨ d ∈ l.srv.pool.write_set →
      d = conf.sock ∨ d = conf.ssl_sock ∨ ∃ c ∈ l.srv.pool.conns, c.Watches d := by
    rintro d (hd | hd)
    · rcases hP.read d hd with hbase | hw
      · exact ((hlist d hbase).1 hd).imp_right .inl
      · exact .inr (.inr hw)
    · obtain ⟨c, hc, hw⟩ := hP.write d hd
      exact .inr (.inr ⟨c, hc, .inl hw⟩)
  refine ⟨⟨(hlist _ hs).2 (.inl rfl), (hlist _ hss).2 (.inr rfl)⟩,
    fun d hd => ?_, ?_, fun d hd => ?_⟩
  · refine (hfrom d hd).imp_right fun hd' => hd'.imp_right ?_
    rintro ⟨c, hc, hw⟩
    obtain ⟨i, hi⟩ := List.mem_iff_getElem?.1 hc
    refine ⟨hP.bits_open hd, i, c, hi, (c.mem_watched d).2 hw, fun j c' hj hd' => ?_⟩
    by_contra hji
    exact hP.disjoint (Ne.symm hji) hi hj hw.mem_owned (c'.watched_sublist.subset hd')
  · have hsock : ∀ d ∈ conf.base, d ∉ l.srv.pool.conns.flatMap Conn.watched := fun d hd hmem =>
      hP.watched_notMem_base hmem hd
    refine List.nodup_cons.2 ⟨?_, List.nodup_cons.2 ⟨hsock _ hss, hP.watched_nodup⟩⟩
    rw [List.mem_cons, not_or]
    exact ⟨hne, hsock _ hs⟩
  · rcases hfrom d hd with rfl | rfl | ⟨c, hc, hw⟩
    · omega
    · omega
    · exact hall c hc d hw

/-- The CGI of a connection has ended, and the next request is complete. -/
theorem select_sound_cgi : Watching Sample.conf
    (Runs.exec (step Sample.conf) Sample.start (Sample.cgi "GET /x HTTP/1.1\r\n\r\n")).srv :=
  select_sound (Sample.reach _) (by decide +kernel)

end Liso
