import Liso.Loop.Sample
import Liso.Lib.Slots

/-!
# The pool is a set of connections

The pool keeps its connections in an array whose entries know their place, and `pl_del_conn` moves
the last entry into the hole (`Lib/Slots.lean`). Here the three operations run in any order on any
connections of the pool, beside a plain account of what was added and not deleted (`tally`): a list
in which the place of a connection plays no part and whose order does not matter. `pool_represents`
says that the array is always that account.
-/

namespace Liso

variable {s s' : Srv} {c c' : Conn}

/-! ## Operations -/

/-- A call on the pool. A connection in the pool is named by its socket. -/
inductive PoolOp
  /-- `pl_add_conn`. -/
  | add (c : Conn)
  /-- `pl_del_conn`. -/
  | del (fd : ℕ)
  /-- `pl_reset_conn`. -/
  | reset (fd : ℕ)

/-- The connection with a socket. -/
def Srv.find (s : Srv) (fd : ℕ) : Option Conn := s.pool.conns.find? (·.fd = fd)

/-- A call. `pl_reset_conn` changes the connection that the array points to. -/
def poolStep (s : Srv) : PoolOp → Srv
  | .add c => (plAddConn s c).2
  | .del fd => match s.find fd with
    | some c => (plDelConn s c).srv
    | none => s
  | .reset fd => match s.find fd with
    | some c =>
      let (c', s) := plResetConn s c
      { s with pool := { s.pool with conns := s.pool.conns.map fun x => if x.fd =
                                       fd then c' else x } }
    | none => s

/-- A call that the server can make: a connection is added with a socket of its own, as `accept`
returns it, and the other calls are on a connection in the pool. -/
def CanCall (s : Srv) : PoolOp → Prop
  | .add c => c.fd ∉ s.pool.conns.map Conn.fd
  | .del fd => fd ∈ s.pool.conns.map Conn.fd
  | .reset fd => fd ∈ s.pool.conns.map Conn.fd

/-- `CanCall` is decidable. -/
instance (s : Srv) : ∀ op, Decidable (CanCall s op)
  | .add c => inferInstanceAs (Decidable (c.fd ∉ s.pool.conns.map Conn.fd))
  | .del fd => inferInstanceAs (Decidable (fd ∈ s.pool.conns.map Conn.fd))
  | .reset fd => inferInstanceAs (Decidable (fd ∈ s.pool.conns.map Conn.fd))

/-- A connection but for its place. -/
def Conn.unplaced (c : Conn) : Conn := { c with idx := 0 }

/-- A connection without its place does not see that it was moved. -/
theorem Conn.unplaced_put (i : ℕ) (c : Conn) : Conn.unplaced { c with idx := i } = c.unplaced := rfl

/-- A connection that was moved has the same socket. -/
theorem Conn.fd_put (i : ℕ) (c : Conn) : Conn.fd { c with idx := i } = c.fd := rfl

/-- What `pl_reset_conn` makes of a connection. -/
def Conn.renewed (c : Conn) : Conn := { c with
  buf := bufReset c.buf, req := reqReset c.req, resp := respReset c.resp,
  cgi := { cgiNew with pid := c.cgi.pid },
  wire := { c.wire with cur := Exchange.empty } }

/-- The connections added and not deleted, as they are now, but for their places. -/
def tally (conns : List Conn) : PoolOp → List Conn
  | .add c => if conns.length < MAX_CONNS then c.unplaced :: conns else conns
  | .del fd => conns.filter (·.fd ≠ fd)
  | .reset fd => conns.map fun c => if c.fd = fd then c.renewed else c

/-- The server beside the account. -/
abbrev Pooled : Type := Srv × List Conn

/-- A call, on both. -/
def pooledStep (x : Pooled) (op : PoolOp) : Pooled := (poolStep x.1 op, tally x.2 op)

/-- An empty pool. -/
def PooledInit (x : Pooled) : Prop := x.1.pool.conns = [] ∧ x.2 = []

/-- The states after sequences of calls. -/
abbrev PoolReach : Pooled → Prop := Runs.Reach PooledInit pooledStep fun x => CanCall x.1

/-! ## What the calls do to the array -/

/-- `pl_del_conn` removes by a swap with the last entry. -/
theorem moveLast_eq (conns : List Conn) (i : ℕ) :
    moveLast conns i = Slots.swapRemove (fun i (c : Conn) => { c with idx := i }) conns i := by
  unfold moveLast Slots.swapRemove
  cases conns.getLast? <;> rfl

/-- `pl_add_conn` appends, unless the pool is full. -/
theorem plAddConn_conns (s : Srv) (c : Conn) :
    (MAX_CONNS ≤ s.pool.conns.length ∧ plAddConn s c = (-1, s)) ∨
    (s.pool.conns.length < MAX_CONNS ∧ (plAddConn s c).1 = 1 ∧
      (plAddConn s c).2.pool.conns = s.pool.conns ++ [{ c with idx := s.pool.conns.length }]) := by
  unfold plAddConn
  by_cases h : MAX_CONNS ≤ s.pool.conns.length
  · exact .inl ⟨h, if_pos h⟩
  · rw [if_neg h]
    exact .inr ⟨not_le.1 h, rfl, rfl⟩

/-- `pl_reset_conn` renews the connection, and leaves the array. -/
theorem plResetConn_renewed (s : Srv) (c : Conn) :
    (plResetConn s c).1 = c.renewed ∧ (plResetConn s c).2.pool.conns = s.pool.conns := by
  refine ⟨rfl, ?_⟩
  unfold plResetConn dropPipe
  dsimp only
  cases c.cgi.srv_in <;> cases c.cgi.srv_err <;> rfl

/-- `pl_del_conn` on a connection with a place in the array moves the last entry there. -/
theorem plDelConn_conns (h : c.idx < s.pool.conns.length) :
    (plDelConn s c).rc = 1 ∧ (plDelConn s c).conn = none ∧
      (plDelConn s c).srv.pool.conns = moveLast s.pool.conns c.idx := by
  unfold plDelConn
  rw [if_neg (not_le.2 h)]
  refine ⟨rfl, rfl, ?_⟩
  obtain ⟨hc, hconns⟩ := plResetConn_renewed s c
  rcases hr : plResetConn s c with ⟨c', s'⟩
  rw [hr] at hc hconns
  have hidx : c'.idx = c.idx := by
    have hc : c' = c.renewed := hc
    rw [hc]
    rfl
  show moveLast s'.pool.conns c'.idx = _
  rw [hidx, hconns]

/-- A socket of the pool belongs to a connection that knows its place. -/
theorem find_eq (hplaced : Slots.Placed Conn.idx s.pool.conns) {fd : ℕ}
    (h : fd ∈ s.pool.conns.map Conn.fd) :
    ∃ c, s.find fd = some c ∧ c.fd = fd ∧ s.pool.conns[c.idx]? = some c := by
  have hsome : (s.find fd).isSome = true := by
    obtain ⟨c, hc, rfl⟩ := List.mem_map.1 h
    exact List.find?_isSome.2 ⟨c, hc, by simp⟩
  obtain ⟨c, hc⟩ := Option.isSome_iff_exists.1 hsome
  obtain ⟨i, hi⟩ := List.mem_iff_getElem?.1 (List.mem_of_find?_eq_some hc)
  exact ⟨c, hc, by simpa using List.find?_some hc, by rw [hplaced i c hi]; exact hi⟩

/-! ## The invariant -/

/-- The array of the pool and the account. -/
structure Filed (x : Pooled) : Prop where
  /-- The bound. -/
  size : x.1.pool.conns.length ≤ MAX_CONNS
  /-- Every connection knows its place. -/
  placed : Slots.Placed Conn.idx x.1.pool.conns
  /-- No two entries are the same connection. -/
  nodup : (x.1.pool.conns.map Conn.fd).Nodup
  /-- The array holds the connections of the account. -/
  account : (x.1.pool.conns.map Conn.unplaced).Perm x.2

variable {x : Pooled}

/-- A new connection takes the place behind the last one. -/
theorem Filed.add (h : Filed x) (hfd : c.fd ∉ x.1.pool.conns.map Conn.fd) :
    Filed (pooledStep x (.add c)) := by
  have hlen : x.2.length = x.1.pool.conns.length := by rw [← h.account.length_eq, List.length_map]
  rcases plAddConn_conns x.1 c with ⟨hfull, he⟩ | ⟨hlt, -, hconns⟩
  · have hx : pooledStep x (.add c) = x := by
      have htally : tally x.2 (.add c) = x.2 := if_neg (by omega)
      simp only [pooledStep, poolStep, he, htally]
    rw [hx]
    exact h
  have hconns : (pooledStep x (.add c)).1.pool.conns =
      x.1.pool.conns ++ [{ c with idx := x.1.pool.conns.length }] := hconns
  have hacc : (pooledStep x (.add c)).2 = c.unplaced :: x.2 := if_pos (by omega)
  refine ⟨?_, ?_, ?_, ?_⟩
  · rw [hconns, List.length_append, List.length_singleton]
    omega
  · rw [hconns]
    exact h.placed.concat rfl
  · rw [hconns, List.map_append, List.map_singleton, List.nodup_append_comm]
    exact List.nodup_cons.2 ⟨hfd, h.nodup⟩
  · rw [hconns, hacc, List.map_append, List.map_singleton]
    exact (List.perm_append_singleton _ _).trans (h.account.cons _)

/-- The removal of one connection leaves the others. -/
theorem Filed.removed (h : Filed x) (hc : x.1.pool.conns[c.idx]? = some c) :
    ((moveLast x.1.pool.conns c.idx).map Conn.unplaced).Perm (x.2.filter (·.fd ≠ c.fd)) := by
  have hlt : c.idx < x.1.pool.conns.length := (List.getElem?_eq_some_iff.1 hc).1
  have hkeys : ((x.1.pool.conns.map Conn.unplaced).map Conn.fd).Nodup := by
    rw [List.map_map]
    exact h.nodup
  have hget : (x.1.pool.conns.map Conn.unplaced)[c.idx]? = some c.unplaced := by
    rw [List.getElem?_map, hc, Option.map_some]
  have herase := Slots.eraseIdx_eq_filter hkeys hget
  have hperm := Slots.swapRemove_perm Conn.unplaced_put hlt
  rw [moveLast_eq]
  refine hperm.trans ?_
  rw [herase]
  exact h.account.filter _

/-- The last entry takes the place of the connection deleted. -/
theorem Filed.del (h : Filed x) {fd : ℕ} (hfd : fd ∈ x.1.pool.conns.map Conn.fd) :
    Filed (pooledStep x (.del fd)) := by
  obtain ⟨c, hfind, rfl, hc⟩ := find_eq h.placed hfd
  have hlt : c.idx < x.1.pool.conns.length := (List.getElem?_eq_some_iff.1 hc).1
  have hstep : poolStep x.1 (.del c.fd) = (plDelConn x.1 c).srv := by
    simp only [poolStep, hfind]
  have hconns : (pooledStep x (.del c.fd)).1.pool.conns = moveLast x.1.pool.conns c.idx := by
    show (poolStep x.1 (.del c.fd)).pool.conns = _
    rw [hstep]
    exact (plDelConn_conns hlt).2.2
  have hperm := h.removed hc
  have hfds := Slots.swapRemove_perm Conn.fd_put hlt
  rw [← moveLast_eq] at hfds
  refine ⟨?_, ?_, ?_, ?_⟩
  · have hlen := hfds.length_eq
    rw [List.length_map] at hlen
    rw [hconns, hlen]
    refine (List.length_eraseIdx_le _ _).trans ?_
    rw [List.length_map]
    exact h.size
  · rw [hconns, moveLast_eq]
    exact h.placed.swapRemove (fun _ _ => rfl) _
  · rw [hconns, hfds.nodup_iff]
    exact h.nodup.sublist (List.eraseIdx_sublist _ _)
  · rw [hconns]
    exact hperm

/-- A connection is reset in its place. -/
theorem Filed.reset (h : Filed x) {fd : ℕ} (hfd : fd ∈ x.1.pool.conns.map Conn.fd) :
    Filed (pooledStep x (.reset fd)) := by
  obtain ⟨c, hfind, rfl, hc⟩ := find_eq h.placed hfd
  have hconns : (pooledStep x (.reset c.fd)).1.pool.conns =
      x.1.pool.conns.map fun y => if y.fd = c.fd then y.renewed else y := by
    show (poolStep x.1 (.reset c.fd)).pool.conns = _
    simp only [poolStep, hfind]
    show (plResetConn x.1 c).2.pool.conns.map
      (fun y => if y.fd = c.fd then (plResetConn x.1 c).1 else y) = _
    rw [(plResetConn_renewed x.1 c).1, (plResetConn_renewed x.1 c).2]
    refine List.map_congr_left fun y hy => ?_
    split_ifs with he
    · -- There is one connection with the socket.
      have hmem : c ∈ x.1.pool.conns := List.mem_of_getElem? hc
      rw [List.inj_on_of_nodup_map h.nodup hy hmem he]
    · rfl
  have hfd : ∀ y : Conn, (if y.fd = c.fd then y.renewed else y).fd = y.fd := fun y => by
    split_ifs <;> rfl
  have hidx : ∀ y : Conn, (if y.fd = c.fd then y.renewed else y).idx = y.idx := fun y => by
    split_ifs <;> rfl
  refine ⟨?_, ?_, ?_, ?_⟩
  · rw [hconns, List.length_map]
    exact h.size
  · rw [hconns]
    exact h.placed.map hidx
  · rw [hconns, List.map_map]
    have : Conn.fd ∘ (fun y => if y.fd = c.fd then y.renewed else y) = Conn.fd := funext hfd
    rw [this]
    exact h.nodup
  · -- The account is reset in the same place.
    have hcomm : (x.1.pool.conns.map fun y => if y.fd = c.fd then y.renewed else y).map
      Conn.unplaced =
        (x.1.pool.conns.map Conn.unplaced).map fun y => if y.fd = c.fd then y.renewed else y := by
      rw [List.map_map, List.map_map]
      refine List.map_congr_left fun y _ => ?_
      show Conn.unplaced (if y.fd = c.fd then y.renewed else y) =
        if y.unplaced.fd = c.fd then y.unplaced.renewed else y.unplaced
      have : y.unplaced.fd = y.fd := rfl
      rw [this]
      split_ifs <;> rfl
    rw [hconns, hcomm]
    exact h.account.map _

/-- The invariant holds after every sequence of calls. -/
theorem filed_inv (h : PoolReach x) : Filed x := by
  refine Runs.Reach.induct (fun x h0 => ?_) (fun x op _ hok ih => ?_) h
  · obtain ⟨hconns, hacc⟩ := h0
    refine ⟨?_, ?_, ?_, ?_⟩
    · rw [hconns]; simp
    · rw [hconns]; exact Slots.placed_nil
    · rw [hconns]; simp
    · rw [hconns, hacc]; exact .refl _
  · cases op with
    | add c => exact ih.add hok
    | del fd => exact ih.del hok
    | reset fd => exact ih.reset hok

/-- After every sequence of calls: the pool is not overfull, every entry knows its place, the
entries are distinct, and they are the connections added and not deleted. The deletion of any of
them removes that one and no other, and an addition to a full pool changes nothing. -/
theorem pool_represents (h : PoolReach x) :
    x.1.pool.conns.length ≤ MAX_CONNS ∧
    (∀ (i : ℕ) (c : Conn), x.1.pool.conns[i]? = some c → c.idx = i) ∧
    (x.1.pool.conns.map Conn.fd).Nodup ∧
    (x.1.pool.conns.map Conn.unplaced).Perm x.2 ∧
    (∀ c ∈ x.1.pool.conns, (plDelConn x.1 c).rc = 1 ∧
      ((plDelConn x.1 c).srv.pool.conns.map Conn.unplaced).Perm (x.2.filter (·.fd ≠ c.fd))) ∧
    (x.1.pool.conns.length = MAX_CONNS → ∀ c, plAddConn x.1 c = (-1, x.1)) := by
  have hinv := filed_inv h
  refine ⟨hinv.size, hinv.placed, hinv.nodup, hinv.account, fun c hc => ?_, fun hfull c => ?_⟩
  · obtain ⟨i, hi⟩ := List.mem_iff_getElem?.1 hc
    have hget : x.1.pool.conns[c.idx]? = some c := by rw [hinv.placed i c hi]; exact hi
    obtain ⟨hrc, -, hconns⟩ := plDelConn_conns (List.getElem?_eq_some_iff.1 hget).1
    rw [hconns]
    exact ⟨hrc, hinv.removed hget⟩
  · rcases plAddConn_conns x.1 c with ⟨-, he⟩ | ⟨hlt, -⟩
    · exact he
    · omega

/-- Calls on three connections: the first is deleted, so that the last takes its place, then the
last one. -/
def threeCalls : List PoolOp :=
  [.add (cnNew 5 0 [] 0), .add (cnNew 6 1 [] 1), .add (cnNew 7 2 [] 2), .del 5, .reset 7, .del 6]

/-- After three calls the pool has, in their places, the connections that were added and not
deleted. -/
theorem pool_represents_three :
    (Runs.exec pooledStep (Sample.start.srv, []) threeCalls).1.pool.conns.length ≤ MAX_CONNS ∧
    (∀ (i : ℕ) (c : Conn),
      (Runs.exec pooledStep (Sample.start.srv, []) threeCalls).1.pool.conns[i]? = some c →
      c.idx = i) ∧
    ((Runs.exec pooledStep (Sample.start.srv, []) threeCalls).1.pool.conns.map Conn.fd).Nodup ∧
    ((Runs.exec pooledStep (Sample.start.srv, []) threeCalls).1.pool.conns.map Conn.unplaced).Perm
      (Runs.exec pooledStep (Sample.start.srv, []) threeCalls).2 ∧
    (∀ c ∈ (Runs.exec pooledStep (Sample.start.srv, []) threeCalls).1.pool.conns,
      (plDelConn (Runs.exec pooledStep (Sample.start.srv, []) threeCalls).1 c).rc = 1 ∧
      ((plDelConn (Runs.exec pooledStep (Sample.start.srv, []) threeCalls).1 c).srv.pool.conns.map
        Conn.unplaced).Perm
          ((Runs.exec pooledStep (Sample.start.srv, []) threeCalls).2.filter (·.fd ≠ c.fd))) ∧
    ((Runs.exec pooledStep (Sample.start.srv, []) threeCalls).1.pool.conns.length = MAX_CONNS →
      ∀ c, plAddConn (Runs.exec pooledStep (Sample.start.srv, []) threeCalls).1 c =
        (-1, (Runs.exec pooledStep (Sample.start.srv, []) threeCalls).1)) :=
  pool_represents ((Runs.Reach.start ⟨rfl, rfl⟩).along threeCalls (by decide +kernel))

end Liso
