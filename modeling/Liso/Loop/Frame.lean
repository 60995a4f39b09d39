import Liso.Loop.Outcome

/-!
# What a visit does to descriptors

One visit works on one connection, and this module says what it can do to the descriptors of the
others. `A` is a set of open descriptors that the visited connection does not own: the listeners and
the other connections' sockets and pipes. `Held` is what the visit relies on: the connection owns
its descriptors exclusively, they are open, and every bit of the two `fd_set`s that is not on one of
`A`'s is on its socket or on one of the two pipes that the server reads. `Keeps` is what the visit
does not touch: the bits and the objects of the descriptors in `A`. `visit_frame` is the result: a
visit keeps `A` and leaves the connection `Held` again, or frees it with every descriptor it owned.

The accounting in the other direction, that nothing else is open, fails in two functions when a
system call fails. It is a field of `Held` that a proposition `T` guards, so that one proof serves
both.
-/

namespace Liso

open Handles (Table Picker)

/-- The descriptors in `A` have the same bits and name the same objects. -/
structure Keeps (A : Set ℕ) (s s' : Srv) : Prop where
  /-- The read set. -/
  read : ∀ d ∈ A, d ∈ s'.pool.read_set ↔ d ∈ s.pool.read_set
  /-- The write set. -/
  write : ∀ d ∈ A, d ∈ s'.pool.write_set ↔ d ∈ s.pool.write_set
  /-- The table. -/
  obj : ∀ d ∈ A, s'.fds.obj d = s.fds.obj d

/-- The descriptors whose bits a connection may set in the read set. -/
def Conn.Watches (c : Conn) (d : ℕ) : Prop :=
  d = c.fd ∨ c.cgi.srv_in = some d ∨ c.cgi.srv_err = some d

/-- No CGI was started for the request. -/
def Conn.Quiet (c : Conn) : Prop :=
  c.req.type = .static ∨ c.cgi.phase = .idle ∨ c.cgi.phase = .ready

/-- The connection `c` holds its descriptors apart from those in `A`. -/
structure Held (T : Prop) (A : Set ℕ) (c : Conn) (s : Srv) : Prop where
  /-- The connection has a place in the pool. -/
  idx : c.idx < s.pool.conns.length
  /-- Its descriptors are distinct. -/
  nodup : c.owned.Nodup
  /-- They are open. -/
  own : ∀ d ∈ c.owned, d ∈ s.fds.dom
  /-- Those in `A` are open. -/
  others : ∀ d ∈ A, d ∈ s.fds.dom
  /-- The two kinds are disjoint. -/
  apart : ∀ d ∈ c.owned, d ∉ A
  /-- The bits of the read set. -/
  read : ∀ d ∈ s.pool.read_set, d ∈ A ∨ c.Watches d
  /-- The bits of the write set. -/
  write : ∀ d ∈ s.pool.write_set, d ∈ A ∨ d = c.fd
  /-- Nothing else is open. -/
  tight : T → ∀ d ∈ s.fds.dom, d ∈ A ∨ d ∈ c.owned
  /-- There are no pipes without a CGI. -/
  quiet : c.Quiet → c.cgi.pipes = []

/-- What stays the same while a visit keeps its connection. -/
structure Moves (A : Set ℕ) (G : ℕ × Option ℕ → Prop) (c : Conn) (s : Srv) (c' : Conn) (s' : Srv) :
    Prop where
  /-- `fd`. -/
  fd : c'.fd = c.fd
  /-- `idx`. -/
  idx : c'.idx = c.idx
  /-- The number. -/
  id : c'.wire.id = c.wire.id
  /-- The socket. -/
  sock : s'.fds.obj c.fd = s.fds.obj c.fd
  /-- The descriptors in `A`. -/
  keeps : Keeps A s s'
  /-- The pool's connections. -/
  conns : s'.pool.conns = s.pool.conns
  /-- The bits that `select` returned. -/
  read_ready : s'.pool.read_ready = s.pool.read_ready
  /-- The bits that `select` returned. -/
  write_ready : s'.pool.write_ready = s.pool.write_ready
  /-- `min_max_fd`. -/
  min_max_fd : s'.pool.min_max_fd = s.pool.min_max_fd
  /-- The table at the last `select`. -/
  snap : s'.snap = s.snap
  /-- The number of connections accepted. -/
  accepted : s'.accepted = s.accepted
  /-- The ready bits acted on. -/
  acts : ∀ x ∈ s'.acts, x ∈ s.acts ∨ G x

/-- What a visit leaves that freed its connection. -/
structure Gone (T : Prop) (A : Set ℕ) (G : ℕ × Option ℕ → Prop) (c : Conn) (s : Srv) (s' : Srv) :
    Prop where
  /-- The descriptors in `A`. -/
  keeps : Keeps A s s'
  /-- The last connection took the place of the one freed. -/
  conns : s'.pool.conns = moveLast s.pool.conns c.idx
  /-- The bits that `select` returned. -/
  read_ready : s'.pool.read_ready = s.pool.read_ready
  /-- The bits that `select` returned. -/
  write_ready : s'.pool.write_ready = s.pool.write_ready
  /-- `min_max_fd`. -/
  min_max_fd : s'.pool.min_max_fd = s.pool.min_max_fd
  /-- The table at the last `select`. -/
  snap : s'.snap = s.snap
  /-- The number of connections accepted. -/
  accepted : s'.accepted = s.accepted
  /-- The ready bits acted on. -/
  acts : ∀ x ∈ s'.acts, x ∈ s.acts ∨ G x
  /-- No bit is left of the connection. -/
  read : ∀ d ∈ s'.pool.read_set, d ∈ A
  /-- No bit is left of the connection. -/
  write : ∀ d ∈ s'.pool.write_set, d ∈ A
  /-- No descriptor is left of the connection. -/
  tight : T → ∀ d ∈ s'.fds.dom, d ∈ A

variable {T : Prop} {A : Set ℕ} {G : ℕ × Option ℕ → Prop} {c c' : Conn} {s s' s'' : Srv} {e : Env}
  {conf : Conf}

/-! ## `Keeps` -/

/-- A state keeps its own descriptors. -/
theorem Keeps.refl (A : Set ℕ) (s : Srv) : Keeps A s s :=
  ⟨fun _ _ => Iff.rfl, fun _ _ => Iff.rfl, fun _ _ => rfl⟩

/-- What two visits keep, both together keep. -/
theorem Keeps.trans (h : Keeps A s s') (h' : Keeps A s' s'') : Keeps A s s'' :=
  ⟨fun d hd => (h'.read d hd).trans (h.read d hd), fun d hd => (h'.write d hd).trans (h.write d hd),
    fun d hd => (h'.obj d hd).trans (h.obj d hd)⟩

/-- What keeps some descriptors keeps fewer of them. -/
theorem Keeps.mono {B : Set ℕ} (h : Keeps A s s') (hB : ∀ d ∈ B, d ∈ A) : Keeps B s s' :=
  ⟨fun d hd => h.read d (hB d hd), fun d hd => h.write d (hB d hd), fun d hd => h.obj d (hB d hd)⟩

/-- A change of the marks, of the ready bits, or of the connections keeps everything. -/
theorem Keeps.of_eq (hr : s'.pool.read_set = s.pool.read_set)
    (hw : s'.pool.write_set = s.pool.write_set) (hf : s'.fds = s.fds) : Keeps A s s' := by
  refine ⟨fun d _ => ?_, fun d _ => ?_, fun d _ => ?_⟩
  · rw [hr]
  · rw [hw]
  · rw [hf]

/-- The descriptors kept stay open. -/
theorem Keeps.dom (h : Keeps A s s') {d : ℕ} (hd : d ∈ A) : d ∈ s'.fds.dom ↔ d ∈ s.fds.dom := by
  rw [← Table.obj_isSome, ← Table.obj_isSome, h.obj d hd]

/-! ## Descriptors of a connection -/

/-- The pipe ends are the values of the six fields. -/
theorem Cgi.mem_pipes (g : Cgi) (d : ℕ) :
    d ∈ g.pipes ↔ g.srv_out = some d ∨ g.srv_in = some d ∨ g.srv_err = some d ∨ g.cgi_in = some d ∨
      g.cgi_out = some d ∨ g.cgi_err = some d := by
  simp [Cgi.pipes, eq_comm]

/-- A connection owns its socket and its pipes. -/
theorem Conn.mem_owned (c : Conn) (d : ℕ) : d ∈ c.owned ↔ d = c.fd ∨ d ∈ c.cgi.pipes := by
  simp [Conn.owned]

/-- Its socket is one of them. -/
theorem Conn.fd_mem_owned (c : Conn) : c.fd ∈ c.owned := by simp [Conn.owned]

/-- The descriptors watched are among those owned. -/
theorem Conn.Watches.mem_owned {d : ℕ} (h : c.Watches d) : d ∈ c.owned := by
  rw [Conn.mem_owned, Cgi.mem_pipes]
  rcases h with h | h | h
  · exact .inl h
  · exact .inr (.inr (.inl h))
  · exact .inr (.inr (.inr (.inl h)))

/-- A pipe end is not the socket. -/
theorem Held.pipe_ne_fd (h : Held T A c s) {d : ℕ} (hd : d ∈ c.cgi.pipes) : d ≠ c.fd := by
  have := h.nodup
  rw [Conn.owned, List.nodup_cons] at this
  rintro rfl
  exact this.1 hd

/-- The socket is not in `A`. -/
theorem Held.fd_notMem (h : Held T A c s) : c.fd ∉ A := h.apart _ c.fd_mem_owned

/-- A pipe end is not in `A`. -/
theorem Held.pipe_notMem (h : Held T A c s) {d : ℕ} (hd : d ∈ c.cgi.pipes) : d ∉ A :=
  h.apart d ((c.mem_owned d).2 (.inr hd))

/-! ## Composition -/

/-- If the socket of the connection is ready, acting on its bit is good. -/
def FdActs (G : ℕ × Option ℕ → Prop) (c : Conn) (s : Srv) : Prop :=
  c.fd ∈ s.pool.read_ready ∨ c.fd ∈ s.pool.write_ready → G (c.fd, s.fds.obj c.fd)

/-- A step from one point of a visit to a later one. -/
def Frame (T : Prop) (A : Set ℕ) (G : ℕ × Option ℕ → Prop) (c : Conn) (s : Srv) (c' : Conn)
    (s' : Srv) :
    Prop :=
  Held T A c s → FdActs G c s → Held T A c' s' ∧ Moves A G c s c' s'

/-- A connection that stays as it is moves nothing. -/
theorem Moves.refl (A : Set ℕ) (c : Conn) (s : Srv) : Moves A G c s c s :=
  ⟨rfl, rfl, rfl, rfl, .refl A s, rfl, rfl, rfl, rfl, rfl, rfl, fun _ h => .inl h⟩

/-- Two moves, one behind the other, are one. -/
theorem Moves.trans {c'' : Conn} (h : Moves A G c s c' s') (h' : Moves A G c' s' c'' s'') :
    Moves A G c s c'' s'' where
  fd := h'.fd.trans h.fd
  idx := h'.idx.trans h.idx
  id := h'.id.trans h.id
  sock := by rw [← h.sock, ← h.fd, h'.sock]
  keeps := h.keeps.trans h'.keeps
  conns := h'.conns.trans h.conns
  read_ready := h'.read_ready.trans h.read_ready
  write_ready := h'.write_ready.trans h.write_ready
  min_max_fd := h'.min_max_fd.trans h.min_max_fd
  snap := h'.snap.trans h.snap
  accepted := h'.accepted.trans h.accepted
  acts x hx := (h'.acts x hx).elim (h.acts x) .inr

/-- The socket is the same one all through the visit. -/
theorem Moves.fdActs (h : Moves A G c s c' s') (hG : FdActs G c s) : FdActs G c' s' := by
  intro hr
  rw [h.fd, h.read_ready, h.write_ready] at hr
  rw [h.fd, h.sock]
  exact hG hr

/-- Doing nothing is framed. -/
theorem Frame.refl (c : Conn) (s : Srv) : Frame T A G c s c s := fun h _ => ⟨h, .refl A c s⟩

/-- Two framed steps, one behind the other, are framed. -/
theorem Frame.trans {c'' : Conn} (h : Frame T A G c s c' s') (h' : Frame T A G c' s' c'' s'') :
    Frame T A G c s c'' s'' := by
  intro hH hG
  obtain ⟨hH', hM⟩ := h hH hG
  obtain ⟨hH'', hM'⟩ := h' hH' (hM.fdActs hG)
  exact ⟨hH'', hM.trans hM'⟩

/-- The end of a visit after a step: what was freed is the connection at the start of the step. -/
theorem Moves.gone (h : Moves A G c s c' s') (hg : Gone T A G c' s' s'') : Gone T A G c s s'' where
  keeps := h.keeps.trans hg.keeps
  conns := by rw [hg.conns, h.conns, h.idx]
  read_ready := hg.read_ready.trans h.read_ready
  write_ready := hg.write_ready.trans h.write_ready
  min_max_fd := hg.min_max_fd.trans h.min_max_fd
  snap := hg.snap.trans h.snap
  accepted := hg.accepted.trans h.accepted
  acts x hx := (hg.acts x hx).elim (h.acts x) .inr
  read := hg.read
  write := hg.write
  tight := hg.tight

/-! ## The steps that leave the table alone -/

/-- What identifies a connection and its descriptors. -/
def Conn.ends (c : Conn) : ℕ × ℕ × ℕ × List ℕ × Option ℕ × Option ℕ :=
  (c.fd, c.idx, c.wire.id, c.cgi.pipes, c.cgi.srv_in, c.cgi.srv_err)

/-- The server without its other marks. -/
def Srv.core (s : Srv) : Pool × Table × Table × ℕ × List (ℕ × Option ℕ) :=
  (s.pool, s.fds, s.snap, s.accepted, s.acts)

/-- A change of data: the connection's descriptors, the pool, and the table stay. -/
theorem Frame.data (hquiet : c'.Quiet → c.Quiet) (hc : c'.ends = c.ends) (hs : s'.core = s.core) :
    Frame T A G c s c' s' := by
  intro h _
  simp only [Conn.ends, Srv.core, Prod.mk.injEq] at hc hs
  obtain ⟨hfd, hidx, hid, hp, hin, herr⟩ := hc
  obtain ⟨hpool, hfds, hsnap, hacc, hacts⟩ := hs
  have hown : c'.owned = c.owned := by rw [Conn.owned, Conn.owned, hfd, hp]
  have hwatch : ∀ d, c'.Watches d ↔ c.Watches d := by
    intro d
    rw [Conn.Watches, Conn.Watches, hfd, hin, herr]
  refine ⟨⟨?_, ?_, ?_, ?_, ?_, ?_, ?_, ?_, ?_⟩,
    ⟨hfd, hidx, hid, ?_, ?_, ?_, ?_, ?_, ?_, hsnap, hacc, ?_⟩⟩
  · rw [hpool, hidx]; exact h.idx
  · rw [hown]; exact h.nodup
  · rw [hown, hfds]; exact h.own
  · rw [hfds]; exact h.others
  · rw [hown]; exact h.apart
  · rw [hpool]; exact fun d hd => (h.read d hd).imp_right (hwatch d).2
  · rw [hpool, hfd]; exact h.write
  · rw [hown, hfds]; exact h.tight
  · rw [hp]; exact fun hq => h.quiet (hquiet hq)
  · rw [hfds]
  · exact .of_eq (by rw [hpool]) (by rw [hpool]) hfds
  iterate 4 rw [hpool]
  · rw [hacts]; exact fun _ h => .inl h

/-- A change of the bits of the descriptors that the connection watches. -/
theorem Frame.sets (hr : ∀ d, ¬ c.Watches d → (d ∈ s'.pool.read_set ↔ d ∈ s.pool.read_set))
    (hw : ∀ d, d ≠ c.fd → (d ∈ s'.pool.write_set ↔ d ∈ s.pool.write_set))
    (hconns : s'.pool.conns = s.pool.conns) (hrr : s'.pool.read_ready = s.pool.read_ready)
    (hwr : s'.pool.write_ready = s.pool.write_ready) (hmin : s'.pool.min_max_fd = s.pool.min_max_fd)
    (hfds : s'.fds = s.fds) (hsnap : s'.snap = s.snap) (hacc : s'.accepted = s.accepted)
    (hacts : s'.acts = s.acts) : Frame T A G c s c s' := by
  intro h _
  have hA : ∀ d ∈ A, ¬ c.Watches d := fun d hd hw => h.apart d hw.mem_owned hd
  refine ⟨⟨?_, h.nodup, ?_, ?_, h.apart, ?_, ?_, ?_, h.quiet⟩,
    ⟨rfl, rfl, rfl, ?_, ?_, hconns, hrr, hwr, hmin, hsnap, hacc, ?_⟩⟩
  · rw [hconns]; exact h.idx
  · rw [hfds]; exact h.own
  · rw [hfds]; exact h.others
  · intro d hd
    by_cases hwd : c.Watches d
    · exact .inr hwd
    · exact h.read d ((hr d hwd).1 hd)
  · intro d hd
    by_cases hfd : d = c.fd
    · exact .inr hfd
    · exact h.write d ((hw d hfd).1 hd)
  · rw [hfds]; exact h.tight
  · rw [hfds]
  · refine ⟨fun d hd => hr d (hA d hd), fun d hd => hw d ?_, fun d _ => by rw [hfds]⟩
    rintro rfl
    exact h.fd_notMem hd
  · rw [hacts]; exact fun _ h => .inl h

/-- A connection may set its own bits in the read set. -/
theorem Frame.setRead {d : ℕ} (hd : c.Watches d) : Frame T A G c s c (s.setRead d) := by
  refine .sets (fun x hx => ?_) (fun _ _ => Iff.rfl) rfl rfl rfl rfl rfl rfl rfl rfl
  have hne : x ≠ d := fun h => hx (h ▸ hd)
  simp [Srv.setRead, hne]

/-- A connection may clear its own bits in the read set. -/
theorem Frame.clrRead {d : ℕ} (hd : c.Watches d) : Frame T A G c s c (s.clrRead d) := by
  refine .sets (fun x hx => ?_) (fun _ _ => Iff.rfl) rfl rfl rfl rfl rfl rfl rfl rfl
  have hne : x ≠ d := fun h => hx (h ▸ hd)
  simp [Srv.clrRead, hne]

/-- A connection may set its own bit in the write set. -/
theorem Frame.setWrite : Frame T A G c s c (s.setWrite c.fd) := by
  refine .sets (fun _ _ => Iff.rfl) (fun x hx => ?_) rfl rfl rfl rfl rfl rfl rfl rfl
  simp [Srv.setWrite, hx]

/-- A connection may clear its own bit in the write set. -/
theorem Frame.clrWrite : Frame T A G c s c (s.clrWrite c.fd) := by
  refine .sets (fun _ _ => Iff.rfl) (fun x hx => ?_) rfl rfl rfl rfl rfl rfl rfl rfl
  simp [Srv.clrWrite, hx]

/-- `FD_SET` on a field of the connection's that the server reads. -/
theorem Frame.setReadField {f : Option ℕ} (hf : f = c.cgi.srv_in ∨ f = c.cgi.srv_err) :
    Frame T A G c s c (s.setReadField f) := by
  cases f with
  | none => exact .data id rfl rfl
  | some d => exact .setRead (hf.elim (fun h => .inr (.inl h.symm)) fun h => .inr (.inr h.symm))

/-! ## The steps that close and open descriptors -/

/-- What the numbers name after `close_pipe`. -/
theorem closePipe_obj (f : Option ℕ) (t : Table) (d : ℕ) :
    (closePipe f t).obj d = if f = some d then none else t.obj d := by
  cases f with
  | none => simp [closePipe]
  | some e =>
    rw [closePipe, Table.obj_free_eq]
    simp [eq_comm]

/-- A change of the table: the connection closes some of its pipes, and opens new ones. -/
theorem Frame.table (hfd : c'.fd = c.fd) (hidx : c'.idx = c.idx) (hid : c'.wire.id = c.wire.id)
    (hpool : s'.pool.conns = s.pool.conns) (hrr : s'.pool.read_ready = s.pool.read_ready)
    (hwr : s'.pool.write_ready = s.pool.write_ready) (hmin : s'.pool.min_max_fd = s.pool.min_max_fd)
    (hsnap : s'.snap = s.snap) (hacc : s'.accepted = s.accepted) (hacts : s'.acts = s.acts)
    (hnodup : c.owned.Nodup → c'.owned.Nodup)
    (hobj : ∀ d ∈ s.fds.dom, d ∉ c.cgi.pipes → s'.fds.obj d = s.fds.obj d)
    (hown : ∀ d ∈ c'.cgi.pipes, (d ∈ c.cgi.pipes ∧ s'.fds.obj d = s.fds.obj d) ∨
      (d ∉ s.fds.dom ∧ d ∈ s'.fds.dom))
    (hread : ∀ d ∈ s'.pool.read_set, d ∈ s.pool.read_set ∧ (c.Watches d → c'.Watches d))
    (hkeep : ∀ d ∈ s.pool.read_set, ¬ c.Watches d → d ∈ s'.pool.read_set)
    (hwrite : s'.pool.write_set = s.pool.write_set)
    (htight : T → ∀ d ∈ s'.fds.dom, (d ∈ s.fds.dom ∧ d ∉ c.cgi.pipes) ∨ d ∈ c'.cgi.pipes)
    (hquiet : c'.Quiet → c'.cgi.pipes = []) : Frame T A G c s c' s' := by
  intro h _
  have hfdp : c.fd ∉ c.cgi.pipes := fun hd => h.pipe_ne_fd hd rfl
  have hsock : s'.fds.obj c.fd = s.fds.obj c.fd := hobj _ (h.own _ c.fd_mem_owned) hfdp
  -- What the others own is neither closed nor opened.
  have hA : ∀ d ∈ A, s'.fds.obj d = s.fds.obj d := fun d hd =>
    hobj d (h.others d hd) fun hp => h.pipe_notMem hp hd
  refine ⟨⟨?_, hnodup h.nodup, ?_, ?_, ?_, ?_, ?_, ?_, hquiet⟩,
    ⟨hfd, hidx, hid, hsock, ?_, hpool, hrr, hwr, hmin, hsnap, hacc, ?_⟩⟩
  · rw [hpool, hidx]; exact h.idx
  · intro d hd
    rcases (c'.mem_owned d).1 hd with rfl | hp
    · rw [hfd, ← Table.obj_isSome, hsock, Table.obj_isSome]
      exact h.own _ c.fd_mem_owned
    · rcases hown d hp with ⟨hp, ho⟩ | ⟨-, ho⟩
      · rw [← Table.obj_isSome, ho, Table.obj_isSome]
        exact h.own d ((c.mem_owned d).2 (.inr hp))
      · exact ho
  · intro d hd
    rw [← Table.obj_isSome, hA d hd, Table.obj_isSome]
    exact h.others d hd
  · intro d hd
    rcases (c'.mem_owned d).1 hd with rfl | hp
    · rw [hfd]; exact h.fd_notMem
    · rcases hown d hp with ⟨hp, -⟩ | ⟨hn, -⟩
      · exact h.pipe_notMem hp
      · exact fun hd => hn (h.others d hd)
  · intro d hd
    obtain ⟨hd', hw⟩ := hread d hd
    exact (h.read d hd').imp_right hw
  · rw [hwrite, hfd]; exact h.write
  · intro hT d hd
    rcases htight hT d hd with ⟨hd', hp⟩ | hp
    · refine (h.tight hT d hd').imp_right fun ho => (c'.mem_owned d).2 (.inl ?_)
      rw [hfd]
      exact ((c.mem_owned d).1 ho).resolve_right hp
    · exact .inr ((c'.mem_owned d).2 (.inr hp))
  · refine ⟨fun d hd => ⟨fun hd' => (hread d hd').1, fun hd' => hkeep d hd' ?_⟩, fun d _ => ?_, hA⟩
    · exact fun hw => h.apart d hw.mem_owned hd
    · rw [hwrite]
  · rw [hacts]; exact fun _ h => .inl h

/-- `dropPipe` takes the pipe's bit and the pipe away. -/
theorem dropPipe_eq (s : Srv) (f : Option ℕ) :
    (dropPipe s f).pool = { s.pool with read_set := s.pool.read_set.filter (f ≠ some ·) } ∧
      (dropPipe s f).fds = closePipe f s.fds ∧ (dropPipe s f).snap = s.snap ∧
      (dropPipe s f).accepted = s.accepted ∧ (dropPipe s f).acts = s.acts := by
  cases f with
  | none => simp [dropPipe, closePipe]
  | some d =>
    refine ⟨?_, rfl, rfl, rfl, rfl⟩
    have : s.pool.read_set.erase d = s.pool.read_set.filter (some d ≠ some ·) := by
      ext x
      simp [and_comm, eq_comm]
    simp only [dropPipe, Srv.clrRead, this]

/-- The marks stay, that of a bad number if `F` holds. -/
structure SameMarks (F : Prop) (s s' : Srv) : Prop where
  /-- The exchanges served. -/
  served : s'.served = s.served
  /-- No bad pointer. -/
  bad_ptr : s'.bad_ptr = s.bad_ptr
  /-- No bad number. -/
  bad_fd : F → s'.bad_fd = s.bad_fd

/-- The descriptors that a connection may put into an `fd_set` fit into it. -/
def Conn.Fits (c : Conn) : Prop := ∀ d, c.Watches d → d < FD_SETSIZE

/-- The marks of a state are its own. -/
theorem SameMarks.refl (F : Prop) (s : Srv) : SameMarks F s s := ⟨rfl, rfl, fun _ => rfl⟩

/-- Marks that two steps leave alone, both together do. -/
theorem SameMarks.trans {F F' : Prop} (h : SameMarks F s s') (h' : SameMarks F' s' s'') :
    SameMarks (F ∧ F') s s'' :=
  ⟨h'.served.trans h.served, h'.bad_ptr.trans h.bad_ptr,
    fun f => (h'.bad_fd f.2).trans (h.bad_fd f.1)⟩

/-- The marks stay under a stronger condition on the numbers too. -/
theorem SameMarks.mono {F F' : Prop} (h : SameMarks F s s') (hF : F' → F) : SameMarks F' s s' :=
  ⟨h.served, h.bad_ptr, fun f => h.bad_fd (hF f)⟩

/-- One number is put into an `fd_set`, or taken out, or tested. -/
theorem SameMarks.of_probe (s : Srv) (d : ℕ) (p : Pool) (fds : Table) (acts : List (ℕ × Option ℕ)) :
    SameMarks (d < FD_SETSIZE) s { s.probe d with pool := p, fds := fds, acts := acts } :=
  ⟨rfl, rfl, fun h => by simp [Srv.probe, not_le.2 h]⟩

/-- Dropping a pipe leaves the marks alone when its number is below `FD_SETSIZE`. -/
theorem dropPipe_marks (s : Srv) (f : Option ℕ) :
    SameMarks (∀ d, f = some d → d < FD_SETSIZE) s (dropPipe s f) := by
  cases f with
  | none => exact .refl _ _
  | some d => exact (SameMarks.of_probe s d _ _ _).mono fun h => h d rfl

/-- The part of `pl_reset_conn` that closes the pipes. -/
def dropPipes (s : Srv) (c : Conn) : Cgi × Srv :=
  let s := dropPipe s c.cgi.srv_in
  let s := dropPipe s c.cgi.srv_err
  let (cgi, fds) := cgiReset { c.cgi with srv_in := none, srv_err := none } s.fds
  (cgi, { s with fds := fds })

/-- What `pl_reset_conn` makes of a connection, with the pipes dropped. -/
theorem plResetConn_eq (s : Srv) (c : Conn) :
    plResetConn s c =
      ({ c with
          buf := bufReset c.buf, req := reqReset c.req, resp := respReset c.resp,
          cgi := (dropPipes ((s.setRead c.fd).clrWrite c.fd) c).1,
          wire := { c.wire with cur := Exchange.empty } },
        (dropPipes ((s.setRead c.fd).clrWrite c.fd) c).2) := rfl

/-- Of a CGI whose pipes are dropped, only the number of the process is left. -/
theorem dropPipes_cgi (s : Srv) (c : Conn) :
    (dropPipes s c).1 = { cgiNew with pid := c.cgi.pid } := rfl

/-- What the numbers name after the pipes were closed. -/
theorem dropPipes_obj (s : Srv) (c : Conn) (d : ℕ) :
    (dropPipes s c).2.fds.obj d = if d ∈ c.cgi.pipes then none else s.fds.obj d := by
  obtain ⟨-, h1, -⟩ := dropPipe_eq s c.cgi.srv_in
  obtain ⟨-, h2, -⟩ := dropPipe_eq (dropPipe s c.cgi.srv_in) c.cgi.srv_err
  simp only [dropPipes, cgiReset, closePipe_obj, h1, h2, Cgi.mem_pipes]
  grind

/-- Dropping the pipes takes their bits from the read set, and nothing else from the pool. -/
theorem dropPipes_pool (s : Srv) (c : Conn) :
    (dropPipes s c).2.pool = { s.pool with
      read_set := s.pool.read_set.filter fun d => c.cgi.srv_in ≠ some d ∧
        c.cgi.srv_err ≠ some d } := by
  obtain ⟨h1, -⟩ := dropPipe_eq s c.cgi.srv_in
  obtain ⟨h2, -⟩ := dropPipe_eq (dropPipe s c.cgi.srv_in) c.cgi.srv_err
  simp only [dropPipes, h2, h1, Finset.filter_filter]

/-- Dropping the pipes leaves the rest of the server alone. -/
theorem dropPipes_marks (s : Srv) (c : Conn) :
    (dropPipes s c).2.snap = s.snap ∧ (dropPipes s c).2.accepted = s.accepted ∧
      (dropPipes s c).2.acts = s.acts ∧ SameMarks c.Fits s (dropPipes s c).2 := by
  obtain ⟨-, -, h1⟩ := dropPipe_eq s c.cgi.srv_in
  obtain ⟨-, -, h2⟩ := dropPipe_eq (dropPipe s c.cgi.srv_in) c.cgi.srv_err
  have hm :=
    (dropPipe_marks s c.cgi.srv_in).trans (dropPipe_marks (dropPipe s c.cgi.srv_in) c.cgi.srv_err)
  refine ⟨?_, ?_, ?_, ⟨hm.served, hm.bad_ptr, fun h => hm.bad_fd ⟨fun d hd => ?_, fun d hd => ?_⟩⟩⟩
  · simp only [dropPipes, h2, h1]
  · simp only [dropPipes, h2, h1]
  · simp only [dropPipes, h2, h1]
  · exact h d (.inr (.inl hd))
  · exact h d (.inr (.inr hd))

/-- `pl_reset_conn` leaves no marks. -/
theorem plResetConn_marks (s : Srv) (c : Conn) : SameMarks c.Fits s (plResetConn s c).2 := by
  rw [plResetConn_eq]
  have h1 : SameMarks (c.fd < FD_SETSIZE) s (s.setRead c.fd) := .of_probe s c.fd _ _ _
  have h2 : SameMarks (c.fd < FD_SETSIZE) (s.setRead c.fd) ((s.setRead c.fd).clrWrite c.fd) :=
    .of_probe (s.setRead c.fd) c.fd _ _ _
  have h3 := (dropPipes_marks ((s.setRead c.fd).clrWrite c.fd) c).2.2.2
  refine ((h1.trans h2).trans h3).mono fun h => ⟨⟨?_, ?_⟩, h⟩
  · exact h _ (.inl rfl)
  · exact h _ (.inl rfl)

/-- `pl_reset_conn` closes the pipes, and nothing else. -/
theorem Frame.reset (s : Srv) (c : Conn) :
    Frame T A G c s (plResetConn s c).1 (plResetConn s c).2 := by
  refine (Frame.setRead (.inl rfl)).trans (Frame.clrWrite.trans ?_)
  rw [plResetConn_eq]
  generalize (s.setRead c.fd).clrWrite c.fd = s
  have hp := dropPipes_pool s c
  obtain ⟨hsnap, hacc, hacts, -⟩ := dropPipes_marks s c
  refine .table rfl rfl rfl (by rw [hp]) (by rw [hp]) (by rw [hp]) (by rw [hp]) hsnap hacc hacts
    ?_ ?_ ?_ ?_ ?_
    (by rw [hp]) ?_ ?_
  · intro _
    simp [Conn.owned, dropPipes_cgi, cgiNew, Cgi.pipes]
  · intro d _ hd
    rw [dropPipes_obj, if_neg hd]
  · intro d hd
    simp [dropPipes_cgi, cgiNew, Cgi.pipes] at hd
  · intro d hd
    simp only [hp, Finset.mem_filter] at hd
    refine ⟨hd.1, fun hw => .inl (hw.resolve_right ?_)⟩
    rintro (h | h)
    · exact hd.2.1 h
    · exact hd.2.2 h
  · intro d hd hw
    simp only [hp, Finset.mem_filter]
    exact ⟨hd, fun h => hw (.inr (.inl h)), fun h => hw (.inr (.inr h))⟩
  · intro _ d hd
    rw [← Table.obj_isSome, dropPipes_obj] at hd
    split_ifs at hd with hp
    · simp at hd
    · exact .inl ⟨(Table.obj_isSome _ _).1 hd, hp⟩
  · intro _
    simp [dropPipes_cgi, cgiNew, Cgi.pipes]

/-- In a list of fields whose values are distinct, the value of one field is not that of another. -/
theorem notMem_of_nodup_filterMap {l l' : List (Option ℕ)} {f : Option ℕ} {d : ℕ}
    (h : ((l ++ f :: l').filterMap id).Nodup) (hd : some d ∈ l ++ l') : f ≠ some d := by
  rintro rfl
  have hsome : (some d :: l').filterMap id = d :: l'.filterMap id := by simp
  rw [List.filterMap_append, hsome, List.nodup_middle, List.nodup_cons] at h
  refine h.1 ?_
  rw [← List.filterMap_append, List.mem_filterMap]
  exact ⟨some d, hd, rfl⟩

/-- The values of all fields but one are those that differ from the value of that one. -/
theorem mem_filterMap_of_nodup {l l' : List (Option ℕ)} {f : Option ℕ}
    (h : ((l ++ f :: l').filterMap id).Nodup) (d : ℕ) :
    d ∈ (l ++ l').filterMap id ↔ d ∈ (l ++ f :: l').filterMap id ∧ f ≠ some d := by
  simp only [List.mem_filterMap, id_eq, exists_eq_right]
  constructor
  · intro hd
    refine ⟨?_, notMem_of_nodup_filterMap h hd⟩
    rw [List.mem_append] at hd ⊢
    exact hd.imp_right (List.mem_cons_of_mem _)
  · rintro ⟨hd, hne⟩
    rw [List.mem_append] at hd ⊢
    exact hd.imp_right fun hd => (List.mem_cons.1 hd).resolve_left (Ne.symm hne)

/-- Closing one of the pipes, whose bit is taken away. -/
theorem Frame.close (l l' : List (Option ℕ)) (f : Option ℕ) (g : Cgi)
    (hl : c.cgi.pipes = (l ++ f :: l').filterMap id) (hg : g.pipes = (l ++ l').filterMap id)
    (hw : ∀ d, c.Watches d → f ≠ some d → Conn.Watches { c with cgi := g } d)
    (hread : Held T A c s → ∀ d, d ∈ s'.pool.read_set ↔ d ∈ s.pool.read_set ∧ f ≠ some d)
    (hpool : s'.pool = { s.pool with read_set := s'.pool.read_set })
    (hfds : s'.fds = closePipe f s.fds) (hsnap : s'.snap = s.snap) (hacc : s'.accepted = s.accepted)
    (hacts : s'.acts = s.acts) (hquiet : Conn.Quiet { c with cgi := g } → c.Quiet) :
    Frame T A G c s { c with cgi := g } s' := by
  intro hH hG
  have hnd : ((l ++ f :: l').filterMap id).Nodup := hl ▸ (List.nodup_cons.1 hH.nodup).2
  -- Every pipe has its own number, so only the closed one is missing.
  have hmem : ∀ d, d ∈ g.pipes ↔ d ∈ c.cgi.pipes ∧ f ≠ some d := by
    rw [hg, hl]
    exact mem_filterMap_of_nodup hnd
  refine Frame.table rfl rfl rfl (by rw [hpool]) (by rw [hpool]) (by rw [hpool])
    (by rw [hpool]) hsnap
    hacc hacts ?_ ?_ ?_ ?_ ?_ (by rw [hpool]) ?_ ?_ hH hG
  · refine List.Nodup.sublist ?_
    rw [Conn.owned, Conn.owned, hg, hl]
    exact List.Sublist.cons_cons _
      (List.Sublist.filterMap id (List.Sublist.append_left (List.sublist_cons_self f l') l))
  · intro d _ hd
    rw [hfds, closePipe_obj, if_neg]
    intro hf
    exact hd (by rw [hl, hf]; simp)
  · intro d hd
    obtain ⟨hd, hne⟩ := (hmem d).1 hd
    refine .inl ⟨hd, ?_⟩
    rw [hfds, closePipe_obj, if_neg hne]
  · intro d hd
    obtain ⟨hd, hne⟩ := (hread hH d).1 hd
    exact ⟨hd, fun h => hw d h hne⟩
  · intro d hd hwd
    refine (hread hH d).2 ⟨hd, fun hf => hwd ((hH.read d hd).resolve_left fun hA => ?_)⟩
    exact hH.pipe_notMem (by rw [hl, hf]; simp) hA
  · intro _ d hd
    rw [hfds, ← Table.obj_isSome, closePipe_obj] at hd
    split_ifs at hd with he
    · simp at hd
    · by_cases hp : d ∈ c.cgi.pipes
      · exact .inr ((hmem d).2 ⟨hp, he⟩)
      · exact .inl ⟨(Table.obj_isSome _ _).1 hd, hp⟩
  · intro hq
    rw [List.eq_nil_iff_forall_not_mem]
    intro d hd
    have := ((hmem d).1 hd).1
    rw [hH.quiet (hquiet hq)] at this
    simp at this

/-- Closing the CGI's stdin at the end of the body. -/
theorem Frame.closeOut (hq : ¬ c.Quiet) :
    Frame T A G c s { c with cgi := { c.cgi with srv_out := none, phase := .cgiToSrv } }
      { s with fds := closePipe c.cgi.srv_out s.fds } := by
  refine .close [] _ c.cgi.srv_out _ rfl (by simp [Cgi.pipes]) (fun _ h _ => h) ?_
    rfl rfl rfl rfl rfl ?_
  · intro h d
    refine ⟨fun hd => ⟨hd, fun hf => ?_⟩, fun hd => hd.1⟩
    have hp : d ∈ c.cgi.pipes := (Cgi.mem_pipes _ _).2 (.inl hf)
    have hnd : (([] ++ c.cgi.srv_out :: [c.cgi.srv_in, c.cgi.srv_err, c.cgi.cgi_in, c.cgi.cgi_out,
      c.cgi.cgi_err]).filterMap id).Nodup := (List.nodup_cons.1 h.nodup).2
    rcases (h.read d hd).resolve_left (h.pipe_notMem hp) with hw | hw | hw
    · exact h.pipe_ne_fd hp hw
    · exact notMem_of_nodup_filterMap hnd (by simp [hw]) hf
    · exact notMem_of_nodup_filterMap hnd (by simp [hw]) hf
  · rintro (h | h | h)
    · exact absurd (.inl h) hq
    · simp at h
    · simp at h

/-- Closing the CGI's stdout at its end. -/
theorem Frame.dropIn (hq : ¬ c.Quiet) :
    Frame T A G c s { c with cgi := { c.cgi with srv_in := none } } (dropPipe s c.cgi.srv_in) := by
  obtain ⟨hpool, hfds, hsnap, hacc, hacts⟩ := dropPipe_eq s c.cgi.srv_in
  refine .close [c.cgi.srv_out] _ c.cgi.srv_in _ rfl ?_ ?_ ?_ (by rw [hpool]) hfds hsnap hacc hacts
    (fun h => absurd h hq)
  · cases h : c.cgi.srv_out <;> simp [Cgi.pipes, h]
  · rintro d (h | h | h) hne
    · exact .inl h
    · exact absurd h hne
    · exact .inr (.inr h)
  · intro _ d
    simp [hpool]

/-- `pipe` opens two numbers that were not in use, and leaves the others. -/
theorem newPipe_spec (p : Picker) (t : Table) :
    (newPipe p t).1 ∉ t.dom ∧ (newPipe p t).2.1 ∉ t.dom ∧ (newPipe p t).1 ≠ (newPipe p t).2.1 ∧
      (newPipe p t).2.2.dom = (newPipe p t).2.1 :: (newPipe p t).1 :: t.dom ∧
      ∀ d ∈ t.dom, (newPipe p t).2.2.obj d = t.obj d := by
  have hr := t.alloc_fresh p
  have hw := (t.alloc p).2.alloc_fresh p
  rw [Table.dom_alloc, List.mem_cons, not_or] at hw
  refine ⟨hr, hw.2, fun h => hw.1 h.symm, rfl, fun d hd => ?_⟩
  rw [newPipe, Table.obj_alloc _ _ (by rw [Table.dom_alloc]; exact List.mem_cons_of_mem _ hd),
    Table.obj_alloc _ _ hd]

/-- `cgi_init` on a structure without pipes: the pipes it records are new and distinct, the open
descriptors stay, and nothing else is left open unless a second or third pipe failed. -/
theorem cgiInit_table (e : Env) (cgi : Cgi) (t : Table) (hnil : cgi.pipes = []) :
    (cgiInit e cgi t).2.1.pipes.Nodup ∧
      (∀ d ∈ (cgiInit e cgi t).2.1.pipes, d ∉ t.dom ∧ d ∈ (cgiInit e cgi t).2.2.dom) ∧
      (∀ d ∈ t.dom, (cgiInit e cgi t).2.2.obj d = t.obj d) ∧
      ((e.pipe_in = true → e.pipe_out = true ∧ e.pipe_err = true) →
        ∀ d ∈ (cgiInit e cgi t).2.2.dom, d ∈ t.dom ∨ d ∈ (cgiInit e cgi t).2.1.pipes) := by
  rcases he1 : newPipe e.pick t with ⟨in0, in1, t1⟩
  rcases he2 : newPipe e.pick t1 with ⟨out0, out1, t2⟩
  rcases he3 : newPipe e.pick t2 with ⟨err0, err1, t3⟩
  obtain ⟨h1, h2, h3, hd1, ho1⟩ := he1 ▸ newPipe_spec e.pick t
  obtain ⟨h4, h5, h6, hd2, ho2⟩ := he2 ▸ newPipe_spec e.pick t1
  obtain ⟨h7, h8, h9, hd3, ho3⟩ := he3 ▸ newPipe_spec e.pick t2
  simp only at h1 h2 h3 h4 h5 h6 h7 h8 h9 hd1 hd2 hd3 ho1 ho2 ho3
  rw [hd1] at h4 h5 hd2 ho2
  rw [hd2] at h7 h8 hd3 ho3
  simp only [cgiInit, he1, he2, he3]
  simp only [List.mem_cons, not_or] at h4 h5 h7 h8
  have ho2' : ∀ d ∈ t.dom, t2.obj d = t.obj d := fun d hd => by
    rw [ho2 d (by simp [hd]), ho1 d hd]
  have ho3' : ∀ d ∈ t.dom, t3.obj d = t.obj d := fun d hd => by
    rw [ho3 d (by simp [hd]), ho2' d hd]
  by_cases hin : e.pipe_in = true
  case neg => simp [hin, hnil]
  by_cases hout : e.pipe_out = true
  case neg => simpa [hin, hout, hnil] using ho1
  by_cases herr : e.pipe_err = true
  case neg => simpa [hin, hout, herr, hnil] using ho2'
  simp only [hin, hout, herr, Bool.not_true, if_false, Bool.false_eq_true]
  -- The structure that records all six ends.
  have hsix : ([in1, out0, err0, in0, out1, err1] : List ℕ).Nodup ∧
      ∀ d ∈ ([in1, out0, err0, in0, out1, err1] : List ℕ), d ∉ t.dom ∧ d ∈ t3.dom := by
    constructor
    · simp only [List.nodup_cons, List.mem_cons, not_or, List.not_mem_nil, not_false_eq_true,
        List.nodup_nil, and_true]
      grind
    · rw [hd3]
      grind
  have hdom : ∀ d ∈ t3.dom, d ∈ t.dom ∨ d ∈ ([in1, out0, err0, in0, out1, err1] : List ℕ) := by
    rw [hd3]
    grind
  split_ifs with hbig
  · exact ⟨hsix.1, hsix.2, ho3', fun _ => hdom⟩
  · cases e.fork with
    | none => exact ⟨hsix.1, hsix.2, ho3', fun _ => hdom⟩
    | some pid =>
      -- The process closes the ends that belong to the child.
      have hobj : ∀ d, (closePipe (some err1) (closePipe (some out1) (closePipe (some in0) t3))).obj
        d =
          if d = err1 ∨ d = out1 ∨ d = in0 then none else t3.obj d := by
        intro d
        simp only [closePipe_obj, Option.some.injEq]
        grind
      have hthree : ∀ d ∈ ([in1, out0, err0] : List ℕ), d ≠ err1 ∧ d ≠ out1 ∧ d ≠ in0 := by
        have := hsix.1
        simp only [List.nodup_cons, List.mem_cons, not_or, List.not_mem_nil, not_false_eq_true,
          List.nodup_nil, and_true] at this
        grind
      refine ⟨?_, ?_, ?_, ?_⟩
      · exact hsix.1.sublist (List.sublist_append_left [in1, out0, err0] [in0, out1, err1])
      · intro d hd
        have hd' : d ∈ ([in1, out0, err0] : List ℕ) := hd
        have hd6 : d ∈ ([in1, out0, err0, in0, out1, err1] : List ℕ) := by grind
        obtain ⟨ha, hb, hc⟩ := hthree d hd'
        refine ⟨(hsix.2 d hd6).1, ?_⟩
        rw [← Table.obj_isSome, hobj, if_neg (by simp [ha, hb, hc]), Table.obj_isSome]
        exact (hsix.2 d hd6).2
      · intro d hd
        have hne : ¬ (d = err1 ∨ d = out1 ∨ d = in0) := by
          rintro (rfl | rfl | rfl)
          · exact (hsix.2 _ (by simp)).1 hd
          · exact (hsix.2 _ (by simp)).1 hd
          · exact (hsix.2 _ (by simp)).1 hd
        rw [hobj, if_neg hne, ho3' d hd]
      · intro _ d hd
        rw [← Table.obj_isSome, hobj] at hd
        split_ifs at hd with hne
        · simp at hd
        · refine (hdom d ((Table.obj_isSome _ _).1 hd)).imp_right fun h6 => ?_
          show d ∈ ([in1, out0, err0] : List ℕ)
          grind

/-- Starting a CGI; the new phase is not that of a connection without one. -/
theorem Frame.initCgi (phase : CgiPhase) (hq : c.Quiet)
    (hq' : ¬ Conn.Quiet { c with cgi := { (cgiInit e c.cgi s.fds).2.1 with phase := phase } })
    (hT : T → e.pipe_in = true → e.pipe_out = true ∧ e.pipe_err = true) :
    Frame T A G c s { c with cgi := { (cgiInit e c.cgi s.fds).2.1 with phase := phase } }
      { s with fds := (cgiInit e c.cgi s.fds).2.2 } := by
  intro hH hG
  have hnil := hH.quiet hq
  obtain ⟨hnodup, hfresh, hobj, htight⟩ := cgiInit_table e c.cgi s.fds hnil
  have hwatch : ∀ d, c.Watches d → d = c.fd := by
    intro d hw
    refine ((c.mem_owned d).1 hw.mem_owned).resolve_right ?_
    simp [hnil]
  refine Frame.table rfl rfl rfl rfl rfl rfl rfl rfl rfl rfl ?_ ?_ ?_ ?_ ?_ rfl ?_ ?_ hH hG
  · intro _
    refine List.nodup_cons.2 ⟨fun hd => (hfresh _ hd).1 ?_, hnodup⟩
    exact hH.own _ c.fd_mem_owned
  · exact fun d hd _ => hobj d hd
  · exact fun d hd => .inr (hfresh d hd)
  · exact fun d hd => ⟨hd, fun hw => .inl (hwatch d hw)⟩
  · exact fun d hd _ => hd
  · intro t d hd
    refine (htight (hT t) d hd).imp_left fun hd => ⟨hd, ?_⟩
    simp [hnil]
  · exact fun h => absurd h hq'

/-- Whether `resp_mmap` gets as far as opening a file. -/
def Fs.openable (fs : Fs) (path : List Byte) : Bool :=
  match fs.stat path with
  | none => false
  | some st => !st.dir && fs.opens path

/-- `resp_mmap` leaves the open descriptors as they were, unless it opens a file that cannot be
mapped. -/
theorem respMmap_table (fs : Fs) (pick : Picker) (resp : Resp) (path : List Byte) (t : Table) :
    (∀ d ∈ t.dom, (respMmap fs pick resp path t).2.2.obj d = t.obj d) ∧
      ((fs.openable path = true → fs.mmap path ≠ none) →
        ∀ d ∈ (respMmap fs pick resp path t).2.2.dom, d ∈ t.dom) ∧
      (fs.openable path = true → fs.mmap path ≠ none →
        (respMmap fs pick resp path t).1.isSome = true) := by
  unfold respMmap Fs.openable mmbufNew
  cases hst : fs.stat path with
  | none => simp
  | some st =>
    cases hdir : st.dir
    case true => simp [hdir]
    cases hop : fs.opens path
    case false => simp [hdir]
    have halloc : ∀ d ∈ t.dom, (t.alloc pick).2.obj d = t.obj d := fun d hd => t.obj_alloc pick hd
    cases hm : fs.mmap path with
    | none => simpa [hdir, hm] using halloc
    | some bytes =>
      simp only [hdir, Bool.not_true, Bool.false_eq_true, if_false, Option.map_some, reduceCtorEq,
        Bool.not_false, Bool.and_true, ne_eq, not_false_eq_true, imp_self, Option.isSome_some,
          and_true]
      constructor
      · intro d hd
        have hne : d ≠ (t.alloc pick).1 := fun h => t.alloc_fresh pick (h ▸ hd)
        rw [Table.obj_free _ hne, halloc d hd]
      · intro _ d hd
        rw [Table.mem_dom_free, Table.dom_alloc, List.mem_cons] at hd
        exact hd.1.resolve_left hd.2

/-- Of the paths that `resp_build` tries in turn, the first that can be opened decides what stays
open. -/
theorem respTry_table (fs : Fs) (pick : Picker) (resp : Resp) (paths : List (List Byte))
    (t : Table) :
    (∀ d ∈ t.dom, (respTry fs pick resp paths t).2.2.obj d = t.obj d) ∧
      ((∀ path, paths.find? fs.openable = some path → fs.mmap path ≠ none) →
        ∀ d ∈ (respTry fs pick resp paths t).2.2.dom, d ∈ t.dom) := by
  induction paths generalizing resp t with
  | nil => simp [respTry]
  | cons path paths ih =>
    obtain ⟨hobj, htight, hstop⟩ := respMmap_table fs pick resp path t
    unfold respTry
    rcases he : respMmap fs pick resp path t with ⟨st, resp', t'⟩
    rw [he] at hobj htight hstop
    cases st with
    | some st =>
      refine ⟨hobj, fun h => htight fun ho => h path ?_⟩
      rw [List.find?_cons_of_pos ho]
    | none =>
      obtain ⟨hobj', htight'⟩ := ih resp' t'
      refine ⟨fun d hd => ?_, fun h d hd => ?_⟩
      · have hd' : d ∈ t'.dom := by
          rw [← Table.obj_isSome, hobj d hd, Table.obj_isSome]
          exact hd
        rw [hobj' d hd', hobj d hd]
      · have hno : ¬ fs.openable path = true := by
          intro ho
          have := hstop ho (h path (List.find?_cons_of_pos ho))
          simp at this
        refine htight (fun ho => absurd ho hno) d (htight' (fun p hp => h p ?_) d hd)
        rw [List.find?_cons_of_neg hno]
        exact hp

/-- `resp_build` touches no descriptor of the others; under `T` it leaves none open. -/
theorem Frame.respBuild (resp : Resp) (req : Req)
    (hT : T → ∀ path, (respPaths req conf).find? e.fs.openable = some path →
      e.fs.mmap path ≠ none) :
    Frame T A G c s { c with resp := resp }
      { s with fds := (Liso.respBuild e.fs e.pick c.resp req conf s.fds).2.2 } := by
  obtain ⟨hobj, htight⟩ := respTry_table e.fs e.pick { c.resp with alive := req.alive }
    (respPaths req conf) s.fds
  have hfds : (Liso.respBuild e.fs e.pick c.resp req conf s.fds).2.2 =
      (respTry e.fs e.pick { c.resp with alive := req.alive } (respPaths req conf) s.fds).2.2 := by
    unfold Liso.respBuild
    dsimp only
    split <;> rename_i he <;> rw [he]
  intro hH hG
  refine Frame.table rfl rfl rfl rfl rfl rfl rfl rfl rfl rfl id ?_ ?_ ?_ ?_ rfl ?_ hH.quiet hH hG
  · intro d hd _
    rw [hfds, hobj d hd]
  · refine fun d hd => .inl ⟨hd, ?_⟩
    rw [hfds, hobj d (hH.own d ((c.mem_owned d).2 (.inr hd)))]
  · exact fun d hd => ⟨hd, id⟩
  · exact fun d hd _ => hd
  · intro t d hd
    rw [hfds] at hd
    have hd := htight (hT t) d hd
    by_cases hp : d ∈ c.cgi.pipes
    · exact .inr hp
    · exact .inl ⟨hd, hp⟩

/-! ## Freeing the connection -/

/-- `liso_drop_conn` frees the connection, and its descriptors are gone. -/
theorem lisoDropConn_frame (h : Held T A c s) (hG : FdActs G c s) :
    (lisoDropConn c s).Post (fun _ _ => False) (Gone T A G c s) := by
  obtain ⟨hH, hM⟩ := Frame.reset s c h hG
  have hidx := h.idx
  unfold lisoDropConn plDelConn
  rw [if_neg (by omega)]
  rcases hr : plResetConn s c with ⟨c', s'⟩
  rw [hr] at hH hM
  -- Behind the reset, the connection owns its socket alone.
  have hpipes : c'.cgi.pipes = [] := by
    refine hH.quiet (.inl ?_)
    have : c' = (plResetConn s c).1 := by rw [hr]
    rw [this]
    rfl
  refine ⟨by norm_num, ?_⟩
  have hw : ∀ d, c'.Watches d → d = c'.fd := by
    intro d hd
    refine ((c'.mem_owned d).1 hd.mem_owned).resolve_right ?_
    simp [hpipes]
  have hwrite : s'.pool.write_set = s.pool.write_set.erase c.fd := by
    have : s' = (plResetConn s c).2 := by rw [hr]
    rw [this, plResetConn_eq, dropPipes_pool]
    rfl
  refine ⟨?_, ?_, hM.read_ready, hM.write_ready, hM.min_max_fd, hM.snap,
    hM.accepted, hM.acts, ?_, ?_, ?_⟩
  · refine hM.keeps.trans ⟨fun d hd => ?_, fun _ _ => Iff.rfl, fun d hd => ?_⟩
    · have hne : d ≠ c'.fd := fun he => hH.fd_notMem (he ▸ hd)
      simp [Srv.clrRead, hne]
    · have hne : d ≠ c'.fd := fun he => hH.fd_notMem (he ▸ hd)
      exact Table.obj_free _ hne
  · show moveLast s'.pool.conns c'.idx = _
    rw [hM.conns, hM.idx]
  · intro d hd
    have hd : d ∈ s'.pool.read_set.erase c'.fd := hd
    rw [Finset.mem_erase] at hd
    exact (hH.read d hd.2).resolve_right fun hwd => hd.1 (hw d hwd)
  · intro d hd
    have hd : d ∈ s'.pool.write_set := hd
    refine (hH.write d hd).resolve_right fun hfd => ?_
    rw [hwrite, Finset.mem_erase, hfd, hM.fd] at hd
    exact hd.1 rfl
  · intro t d hd
    have hd : d ∈ (s'.fds.free c'.fd).dom := hd
    rw [Table.mem_dom_free] at hd
    refine (hH.tight t d hd.1).resolve_right fun ho => ?_
    refine hd.2 (((c'.mem_owned d).1 ho).resolve_right ?_)
    simp [hpipes]

end Liso
