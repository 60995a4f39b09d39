import Liso.Request
import Liso.Response

/-!
# CGI descriptors and the connection pool (`cgi.c`, `pool.c`)

The `fd_set` macros go through `setRead`, `clrRead`, `setWrite`, `clrWrite`, and `probe`, which also
mark a number outside the sets. The connection that a function works on is an argument; its entry in
`conns` is brought up to date by the loop.
-/

namespace Liso

open Handles (Table Picker)

/-! ## The `fd_set` macros -/

/-- `FD_ISSET(d, ..)` leaves the sets alone. -/
def Srv.probe (s : Srv) (d : ℕ) : Srv := { s with bad_fd := s.bad_fd || decide (FD_SETSIZE ≤ d) }

/-- `FD_SET(d, &pool->read_set)`, of a number below `FD_SETSIZE`. With another one the program
changes a bit behind the set, which may be one of another set of `pool_t`; the model does not follow
that, and only marks it (`Srv.probe`). -/
def Srv.setRead (s : Srv) (d : ℕ) : Srv :=
  { s.probe d with pool := { s.pool with read_set := insert d s.pool.read_set } }

/-- `FD_CLR(d, &pool->read_set)`, of a number below `FD_SETSIZE`, as in `setRead`. With another one,
which may be a bit of the write set, the change is marked and not followed. -/
def Srv.clrRead (s : Srv) (d : ℕ) : Srv :=
  { s.probe d with pool := { s.pool with read_set := s.pool.read_set.erase d } }

/-- `FD_SET(d, &pool->write_set)`, of a number below `FD_SETSIZE`; another one is marked and not
followed. -/
def Srv.setWrite (s : Srv) (d : ℕ) : Srv :=
  { s.probe d with pool := { s.pool with write_set := insert d s.pool.write_set } }

/-- `FD_CLR(d, &pool->write_set)`, of a number below `FD_SETSIZE`; another one is marked and not
followed. -/
def Srv.clrWrite (s : Srv) (d : ℕ) : Srv :=
  { s.probe d with pool := { s.pool with write_set := s.pool.write_set.erase d } }

/-- `FD_SET` on the read set for a field that may be `-1`. -/
def Srv.setReadField (s : Srv) : Option ℕ → Srv
  | some d => s.setRead d
  | none => { s with bad_fd := true }

section Sets

variable (s : Srv) (d x : ℕ) (f : Option ℕ)

/-- `FD_SET` on the read set adds its number. -/
@[simp] theorem Srv.mem_read_setRead :
    x ∈ (s.setRead d).pool.read_set ↔ x = d ∨ x ∈ s.pool.read_set := Finset.mem_insert

/-- `FD_CLR` on the read set removes its number. -/
@[simp] theorem Srv.mem_read_clrRead :
    x ∈ (s.clrRead d).pool.read_set ↔ x ≠ d ∧ x ∈ s.pool.read_set := Finset.mem_erase

/-- `FD_SET` on the write set adds its number. -/
@[simp] theorem Srv.mem_write_setWrite :
    x ∈ (s.setWrite d).pool.write_set ↔ x = d ∨ x ∈ s.pool.write_set := Finset.mem_insert

/-- `FD_CLR` on the write set removes its number. -/
@[simp] theorem Srv.mem_write_clrWrite :
    x ∈ (s.clrWrite d).pool.write_set ↔ x ≠ d ∧ x ∈ s.pool.write_set := Finset.mem_erase

/-- `FD_SET` on the read set leaves the write set. -/
@[simp] theorem Srv.write_setRead : (s.setRead d).pool.write_set = s.pool.write_set := rfl

/-- `FD_CLR` on the read set leaves the write set. -/
@[simp] theorem Srv.write_clrRead : (s.clrRead d).pool.write_set = s.pool.write_set := rfl

/-- `FD_SET` on the write set leaves the read set. -/
@[simp] theorem Srv.read_setWrite : (s.setWrite d).pool.read_set = s.pool.read_set := rfl

/-- `FD_CLR` on the write set leaves the read set. -/
@[simp] theorem Srv.read_clrWrite : (s.clrWrite d).pool.read_set = s.pool.read_set := rfl

/-- `FD_ISSET` leaves the pool. -/
@[simp] theorem Srv.pool_probe : (s.probe d).pool = s.pool := rfl

/-- A field that holds a descriptor adds it to the read set. -/
@[simp] theorem Srv.mem_read_setReadField :
    x ∈ (s.setReadField f).pool.read_set ↔ f = some x ∨ x ∈ s.pool.read_set := by
  cases f with
  | none => simp [Srv.setReadField]
  | some y => simp [Srv.setReadField, eq_comm]

/-- A field that is added to the read set leaves the write set. -/
@[simp] theorem Srv.write_setReadField : (s.setReadField f).pool.write_set = s.pool.write_set := by
  cases f <;> rfl

end Sets

/-! ## Closing pipes -/

/-- `close_pipe`: the table afterwards; the field is `-1` then. -/
def closePipe (fd : Option ℕ) (fds : Table) : Table :=
  match fd with
  | some d => fds.free d
  | none => fds

/-- `cgi_new`. -/
def cgiNew : Cgi :=
  { phase := .idle, pid := 0, srv_out := none, srv_in := none, srv_err := none, cgi_in := none,
    cgi_out := none, cgi_err := none, buf_phase := .recv }

/-- `cgi_reset`. -/
def cgiReset (cgi : Cgi) (fds : Table) : Cgi × Table :=
  let fds := closePipe cgi.srv_out fds
  let fds := closePipe cgi.srv_in fds
  let fds := closePipe cgi.cgi_in fds
  let fds := closePipe cgi.cgi_out fds
  let fds := closePipe cgi.srv_err fds
  let fds := closePipe cgi.cgi_err fds
  ({ cgi with
      phase := .idle, srv_out := none, srv_in := none, cgi_in := none, cgi_out := none,
      srv_err := none, cgi_err := none, buf_phase := .recv }, fds)

/-- `pipe`: the read end, the write end, and the table. -/
def newPipe (pick : Picker) (fds : Table) : ℕ × ℕ × Table :=
  let (r, fds) := fds.alloc pick
  let (w, fds) := fds.alloc pick
  (r, w, fds)

/-- `cgi_init` in the server process: whether it succeeds, the structure, and the table. A failing
second or third `pipe` leaves the earlier pipes open and recorded nowhere. -/
def cgiInit (e : Env) (cgi : Cgi) (fds : Table) : Bool × Cgi × Table :=
  if !e.pipe_in then (false, cgi, fds)
  else
    let (in0, in1, fds) := newPipe e.pick fds
    if !e.pipe_out then (false, cgi, fds)
    else
      let (out0, out1, fds) := newPipe e.pick fds
      if !e.pipe_err then (false, cgi, fds)
      else
        let (err0, err1, fds) := newPipe e.pick fds
        let cgi := { cgi with
          cgi_in := some in0, srv_out := some in1, cgi_out := some out1, srv_in := some out0,
          cgi_err := some err1, srv_err := some err0 }
        -- Checked behind the assignments, which keep the numbers of the pipes.
        if FD_SETSIZE ≤ out0 ∨ FD_SETSIZE ≤ err0 then (false, cgi, fds)
        else match e.fork with
          | none => (false, { cgi with pid := -1 }, fds)
          | some pid =>
            -- The ends of the CGI are closed in the server.
            let fds := closePipe cgi.cgi_in fds
            let fds := closePipe cgi.cgi_out fds
            let fds := closePipe cgi.cgi_err fds
            (true, { cgi with
                pid := pid, cgi_in := none, cgi_out := none, cgi_err := none,
                phase := .srvToCgi }, fds)

/-! ## The pool -/

/-- `pl_new`. -/
def plNew (sock ssl_sock : ℕ) : Pool :=
  { conns := [], min_max_fd := max sock ssl_sock, max_fd := max sock ssl_sock,
    read_set := {sock, ssl_sock}, write_set := ∅, read_ready := ∅, write_ready := ∅ }

/-- `pl_add_conn`. -/
def plAddConn (s : Srv) (c : Conn) : ℤ × Srv :=
  if MAX_CONNS ≤ s.pool.conns.length then (-1, s)
  else
    let s := s.setRead c.fd
    let c := { c with idx := s.pool.conns.length }
    (1, { s with pool := { s.pool with conns := s.pool.conns ++ [c] } })

/-- Take the bit of a pipe out of the read set and close the pipe, if it is open. -/
def dropPipe (s : Srv) : Option ℕ → Srv
  | some d => { s.clrRead d with fds := s.fds.free d }
  | none => s

/-- `pl_reset_conn`. The exchange under way is forgotten. -/
def plResetConn (s : Srv) (c : Conn) : Conn × Srv :=
  let s := (s.setRead c.fd).clrWrite c.fd
  let s := dropPipe s c.cgi.srv_in
  let s := dropPipe s c.cgi.srv_err
  let (cgi, fds) := cgiReset { c.cgi with srv_in := none, srv_err := none } s.fds
  ({ c with
      buf := bufReset c.buf, req := reqReset c.req, resp := respReset c.resp, cgi := cgi,
      wire := { c.wire with cur := Exchange.empty } }, { s with fds := fds })

/-- The array of `pl_del_conn` after the last entry took the place of the entry `i`. -/
def moveLast (conns : List Conn) (i : ℕ) : List Conn :=
  match conns.getLast? with
  | some last => (conns.set i { last with idx := i }).dropLast
  | none => []

/-- `pl_del_conn`: the code, the connection unless it was freed, and the server. -/
def plDelConn (s : Srv) (c : Conn) : Ret :=
  if s.pool.conns.length ≤ c.idx then ⟨-1, some c, s⟩
  else
    let (c, s) := plResetConn s c
    let s := s.clrRead c.fd
    -- `pl_del_conn` closes the socket, too.
    let s := { s with fds := s.fds.free c.fd }
    ⟨1, none, { s with pool := { s.pool with conns := moveLast s.pool.conns c.idx } }⟩

end Liso
