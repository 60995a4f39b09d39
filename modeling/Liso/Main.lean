import Liso.Conn
import Liso.Lib.Runs

/-!
# The server (`lisod.c`)

The main loop is a system in the sense of `Lib/Runs.lean`. Its state is the server and the place in
the loop; its steps are the call of `select`, the two tests of the listener sockets, the body of the
inner `for` for one connection (`visit`), and the end of that `for`. What the outside world answers
to the system calls of a step is the step's input (`Ev`): which of the descriptors watched are
ready, what `accept` returns, and the `Env` of a visit.
-/

namespace Liso

open Handles (Table Picker)

/-! ## Callbacks -/

/-- `liso_drop_conn`. -/
def lisoDropConn (c : Conn) (s : Srv) : Ret := { plDelConn s c with rc := -1 }

/-- `liso_conn_err`. -/
def lisoConnErr (c : Conn) (status : ℤ) (s : Srv) : Conn × Srv :=
  ({ c with
      req := { c.req with phase := .abort }
      resp := { c.resp with phase := .abort, status := status } }, s.setWrite c.fd)

/-- The hand-over of `liso_reset_or_close`: the bytes kept in `last_buf` become the buffer of the
connection that was just reset, and are parsed. -/
def handOver (e : Env) (c : Conn) (s : Srv) : Conn × Srv :=
  let data := c.req.last_buf.data
  let c : Conn := { c with
    buf := { c.buf with data := data }
    req := { c.req with last_buf := bufReset c.req.last_buf }
    wire := { c.wire with cur := { c.wire.cur with inp := data } } }
  let (c, s) := cnParseReq e lisoConnErr c 0 s
  if c.req.phase = .done then (c, (s.clrRead c.fd).setWrite c.fd) else (c, s)

/-- The exchange that ended goes into the history. -/
def Conn.archive (c : Conn) : Conn :=
  { c with wire := { c.wire with past := c.wire.past ++ [c.wire.cur] } }

/-- `liso_reset_or_close`. -/
def lisoResetOrClose (e : Env) (c : Conn) (s : Srv) : Ret :=
  let s : Srv := { s with served := ⟨c.wire.id, c.cgi.phase, c.wire.cur⟩ :: s.served }
  if c.req.alive then
    -- The reset keeps `last_buf`.
    let (c, s) := plResetConn s c.archive
    if c.req.last_buf.sz ≠ 0 then
      let (c, s) := handOver e c s
      ⟨1, some c, s⟩
    else ⟨1, some c, s⟩
  else lisoDropConn c s

/-- `liso_cgi_inited`. -/
def lisoCgiInited (c : Conn) (s : Srv) : Conn × Srv := (c, s.setReadField c.cgi.srv_err)

/-! ## The body of the inner loop -/

/-- Go on after a handler: a negative code ends the visit, and a freed connection must not be
used. -/
def Ret.andThen (r : Ret) (f : Conn → Srv → Ret) : Ret :=
  if r.rc < 0 then r
  else match r.conn with
    | some c => f c r.srv
    | none => { r with srv := { r.srv with bad_ptr := true } }

/-- A mark: the loop acts on the ready bit of `d`. -/
def Srv.act (s : Srv) (d : ℕ) : Srv := { s with acts := (d, s.fds.obj d) :: s.acts }

/-- `FD_ISSET(d, &pool->read_ready)`. -/
def Srv.readReady (s : Srv) (d : ℕ) : Bool := d ∈ s.pool.read_ready

/-- `FD_ISSET(d, &pool->write_ready)`. -/
def Srv.writeReady (s : Srv) (d : ℕ) : Bool := d ∈ s.pool.write_ready

/-- The section `recv`. -/
def stepRecv (e : Env) (c : Conn) (s : Srv) : Ret :=
  let s := s.probe c.fd
  if s.readReady c.fd then cnRecv e lisoConnErr lisoDropConn c (s.act c.fd) else ⟨1, some c, s⟩

/-- The section `handle cgi err`: `cgi_logerr` reads the pipe and writes the log. -/
def stepLogerr (c : Conn) (s : Srv) : Srv :=
  match c.cgi.srv_err with
  | none => s
  | some d =>
    let s := s.probe d
    if s.readReady d then s.act d else s

/-- The first transition: build the response of a complete static request. -/
def stepPrepare (conf : Conf) (e : Env) (c : Conn) (s : Srv) : Conn × Srv :=
  if c.req.type = .static ∧ c.req.phase = .done ∧ c.resp.phase = .ready then
    cnPrepareStaticHeader conf e lisoConnErr c s
  else (c, s)

/-- The second transition: start the CGI of a dynamic request. -/
def stepInitCgi (e : Env) (c : Conn) (s : Srv) : Conn × Srv :=
  if c.req.type = .dynamic ∧ c.cgi.phase = .ready then
    cnInitCgi e lisoCgiInited lisoConnErr c s
  else (c, s)

/-- The section `prepare for select`. -/
def stepSelect (c : Conn) (s : Srv) : Srv :=
  if c.req.phase = .done then
    let s := s.clrRead c.fd
    if c.req.type = .static then s.setWrite c.fd else s
  else s

/-- The streaming of the body to the CGI, and the transition that follows it. -/
def stepStream (e : Env) (c : Conn) (s : Srv) : Conn × Srv :=
  if c.req.type = .dynamic ∧ c.cgi.phase = .srvToCgi then
    let (c, s) := cnStreamToCgi e lisoConnErr c s
    if c.req.phase = .done then
      -- The CGI has the whole body: close its stdin, and wait for its output.
      let s : Srv := { s with fds := closePipe c.cgi.srv_out s.fds }
      ({ c with cgi := { c.cgi with srv_out := none, phase := .cgiToSrv } },
        s.setReadField c.cgi.srv_in)
    else (c, s)
  else (c, s)

/-- The section `stream from cgi`. -/
def stepFromCgi (e : Env) (c : Conn) (s : Srv) : Conn × Srv :=
  match c.cgi.srv_in with
  | none => (c, s)
  | some d =>
    if d = 0 then (c, s)
    else
      let s := s.probe d
      if s.readReady d ∧ c.cgi.phase = .cgiToSrv ∧ c.cgi.buf_phase = .recv then
        let (c, s) := cnStreamFromCgi e lisoConnErr c (s.act d)
        let s := if c.cgi.buf_phase = .send then s.setWrite c.fd else s
        if c.cgi.phase = .done then
          -- The CGI has ended: its stdout is watched no more.
          ({ c with cgi := { c.cgi with srv_in := none } }, dropPipe s c.cgi.srv_in)
        else (c, s)
      else (c, s)

/-- The sending of a CGI's output. -/
def stepToClient (e : Env) (c : Conn) (s : Srv) : Ret :=
  let s := s.probe c.fd
  if s.writeReady c.fd ∧ c.cgi.buf_phase = .send then
    (cnServeDynamic e (lisoResetOrClose e) lisoDropConn c (s.act c.fd)).andThen fun c s =>
      -- Clear the write set to prevent busy waiting.
      if c.cgi.buf_phase = .recv ∧ 0 < c.fd then ⟨1, some c, s.clrWrite c.fd⟩ else ⟨1, some c, s⟩
  else ⟨1, some c, s⟩

/-- The section `serve` of a dynamic request. -/
def stepDynamic (e : Env) (c : Conn) (s : Srv) : Ret :=
  if c.req.type = .dynamic then
    let (c, s) := stepFromCgi e c s
    stepToClient e c s
  else ⟨1, some c, s⟩

/-- The last section: static responses and error pages. -/
def stepStatic (conf : Conf) (e : Env) (c : Conn) (s : Srv) : Ret :=
  let s := s.probe c.fd
  if s.writeReady c.fd ∧ c.resp.phase ≠ .disabled then
    cnServeStatic conf e (lisoResetOrClose e) lisoDropConn c (s.act c.fd)
  else ⟨1, some c, s⟩

/-- The sections between the receipt and the serving: the transitions and the streaming to the
CGI. -/
def stepMiddle (conf : Conf) (e : Env) (c : Conn) (s : Srv) : Conn × Srv :=
  let s := stepLogerr c s
  let (c, s) := stepPrepare conf e c s
  let (c, s) := stepInitCgi e c s
  let s := stepSelect c s
  stepStream e c s

/-- The body of the inner loop, up to the maintenance of `max_fd`. -/
def visit (conf : Conf) (e : Env) (c : Conn) (s : Srv) : Ret :=
  (stepRecv e c s).andThen fun c s =>
    let (c, s) := stepMiddle conf e c s
    (stepDynamic e c s).andThen fun c s => stepStatic conf e c s

/-! ## Accepting -/

/-- `liso_accept_conn` on one of the listener sockets; `ssl` is whether a context is passed. -/
def lisoAcceptConn (conf : Conf) (a : Accept) (ssl : Bool) (s : Srv) : Srv :=
  if !a.ok then s
  else
    let (fd, fds) := s.fds.alloc a.pick
    let s : Srv := { s with fds := fds }
    if FD_SETSIZE ≤ fd then { s with fds := s.fds.free fd }
    else if s.pool.conns.length = MAX_CONNS then { s with fds := s.fds.free fd }
    else
      -- The array has room, so `pl_add_conn` does not fail.
      let c := cnNew fd s.pool.conns.length a.mem s.accepted
      let c : Conn := { c with req := { c.req with
        addr := a.addr, port := if ssl then conf.https_port else conf.http_port } }
      if ssl then
        if a.ssl_new && a.ssl_set_fd then
          let c : Conn := { c with ssl := true, req := { c.req with scheme := .https } }
          { (plAddConn s c).2 with accepted := s.accepted + 1 }
        else { s with fds := s.fds.free fd }
      else { (plAddConn s c).2 with accepted := s.accepted + 1 }

/-! ## The main loop -/

/-- A place in the main loop. -/
inductive Pc
  /-- Before the call of `select`. -/
  | select
  /-- Before the test of the HTTP listener. -/
  | accept
  /-- Before the test of the HTTPS listener. -/
  | accept_ssl
  /-- Before the test of the inner loop, with its variables `i` and `max_fd`. -/
  | serve (i max_fd : ℕ)
  deriving DecidableEq

/-- The main loop at one of its places. -/
structure Loop where
  /-- The server. -/
  srv : Srv
  /-- The place. -/
  pc : Pc
  deriving DecidableEq

/-- What the outside world answers in one step; a step uses the part that its place asks for. -/
structure Ev where
  /-- `select`: the descriptors ready for reading and for writing, or a failure. -/
  ready : Option (Finset ℕ × Finset ℕ)
  /-- `accept` and what follows it. -/
  acc : Accept
  /-- The system calls of a visit. -/
  env : Env

/-- The new value of `max_fd` after a visit. -/
def maintainMaxFd (max_fd : ℕ) (c : Conn) : ℕ :=
  max (max (max max_fd c.fd) (c.cgi.srv_in.getD 0)) (c.cgi.srv_err.getD 0)

/-- `pl_ready` and a successful `select`. -/
def selectReady (s : Srv) (r w : Finset ℕ) : Srv :=
  { s with
    pool := { s.pool with
      read_ready := s.pool.read_set ∩ r, write_ready := s.pool.write_set ∩ w }
    snap := s.fds
    acts := [] }

/-- The inner loop after the visit to the connection `i`. -/
def afterVisit (i max_fd : ℕ) (r : Ret) : Loop :=
  if r.rc < 0 then ⟨r.srv, .serve i max_fd⟩
  else match r.conn with
    | some c =>
      -- The changed connection goes back into the array.
      ⟨{ r.srv with pool := { r.srv.pool with conns := r.srv.pool.conns.set i c } },
        .serve (i + 1) (maintainMaxFd max_fd c)⟩
    | none => ⟨{ r.srv with bad_ptr := true }, .serve (i + 1) max_fd⟩

/-- One step of the main loop. -/
def step (conf : Conf) (l : Loop) (ev : Ev) : Loop :=
  match l.pc with
  | .select =>
    match ev.ready with
    | none => l
    | some (r, w) => ⟨selectReady l.srv r w, .accept⟩
  | .accept =>
    let s := l.srv.probe conf.sock
    ⟨if s.readReady conf.sock then lisoAcceptConn conf ev.acc false s else s, .accept_ssl⟩
  | .accept_ssl =>
    let s := l.srv.probe conf.ssl_sock
    ⟨if s.readReady conf.ssl_sock then lisoAcceptConn conf ev.acc true s else s,
      .serve 0 l.srv.pool.min_max_fd⟩
  | .serve i max_fd =>
    -- The array may have shrunk, so its size is read again at each turn.
    match l.srv.pool.conns[i]? with
    | none => ⟨{ l.srv with pool := { l.srv.pool with max_fd := max_fd } }, .select⟩
    | some c => afterVisit i max_fd (visit conf ev.env c l.srv)

/-- The states in which the process enters the main loop: an empty pool over the two listeners, and
a table of open descriptors that has no connection yet. Descriptor 0 is open, since `daemonize`
opens `/dev/null` on it. -/
def Init (conf : Conf) (l : Loop) : Prop :=
  l.pc = .select ∧ l.srv.pool = plNew conf.sock conf.ssl_sock ∧ l.srv.fds.dom = conf.base ∧
    0 ∈ conf.base ∧ conf.sock ∈ conf.base ∧ conf.ssl_sock ∈ conf.base ∧ conf.sock ≠ conf.ssl_sock ∧
    conf.sock < FD_SETSIZE ∧ conf.ssl_sock < FD_SETSIZE ∧
    l.srv.acts = [] ∧ l.srv.served = [] ∧ l.srv.accepted = 0 ∧
    l.srv.bad_fd = false ∧ l.srv.bad_ptr = false

/-- The reachable states of the main loop, in runs whose steps all satisfy `ok`. -/
abbrev Reach (conf : Conf) (ok : Loop → Ev → Prop) : Loop → Prop :=
  Runs.Reach (Init conf) (step conf) ok

end Liso
