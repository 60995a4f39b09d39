import Liso.Pool

/-!
# Connections (`conn.c`)

The handlers take the callbacks as arguments, as the source does. A handler that never frees its
connection returns the connection and the server; one that may returns a `Ret`.
-/

namespace Liso

/-- The type of `ErrCb`: mark the connection with a status. -/
abbrev ErrCb := Conn → ℤ → Srv → Conn × Srv

/-- The type of `SuccCb` and `FatCb` where they may free the connection. -/
abbrev EndCb := Conn → Srv → Ret

/-- `cn_new`; `mem` is what `malloc` left in the array `uri`. -/
def cnNew (fd idx : ℕ) (mem : List Byte) (id : ℕ) : Conn :=
  { fd := fd, idx := idx, buf := bufNew, req := reqNew mem, resp := respNew,
    cgi := cgiNew, ssl := false,
    ssl_accepted := false,
    wire := { id := id, got := [], ignored := [], cur := Exchange.empty, past := [] } }

/-- `smart_send` of `data`, to which the socket answers `rc`: the code, and the bytes taken. -/
def smartSend (data : List Byte) (rc : ℤ) : ℤ × List Byte :=
  let rc := min rc data.length
  (rc, data.take rc.toNat)

/-- A send to the client goes into the history. -/
def Conn.logSent (c : Conn) (data : List Byte) : Conn :=
  { c with wire := { c.wire with cur := { c.wire.cur with sent := c.wire.cur.sent ++ data } } }

/-- A write to the CGI goes into the history. -/
def Conn.logIn (c : Conn) (data : List Byte) : Conn :=
  { c with wire := { c.wire with cur := { c.wire.cur with cgi_in := c.wire.cur.cgi_in ++ data } } }

/-- `recv_ignore`. -/
def recvIgnore (e : Env) (fatCb : EndCb) (c : Conn) (s : Srv) : Ret :=
  match e.recv.map (·.take BUFSZ) with
  | none => fatCb c s
  | some data =>
    -- The bytes overwrite the start of the buffer, whose size stays.
    let c : Conn := { c with
      buf := { c.buf with data := data.take c.buf.data.length ++ c.buf.data.drop data.length }
      wire := { c.wire with got := c.wire.got ++ data, ignored := c.wire.ignored ++ data } }
    if data = [] then fatCb c s else ⟨1, some c, s⟩

/-- The scan of `cn_parse_req`: the position behind the last line feed from position `p` on, or
`q`. -/
def scanLines : List Byte → ℕ → Option ℕ → Option ℕ
  | [], _, q => q
  | b :: bs, p, q => scanLines bs (p + 1) (if b = LF then some (p + 1) else q)

/-- The first part of `cn_parse_req`: parse the complete lines, if there are new ones. The Boolean
is whether the handler returns early with a bad header. -/
def cnParseLines (e : Env) (errCb : ErrCb) (c : Conn) (last_recv_end : ℕ) (s : Srv) :
    Bool × Conn × Srv :=
  if c.req.phase = .start ∨ c.req.phase = .header then
    let last_parsed_end := c.buf.data_p
    -- No new line: go on with the body, or wait for more.
    match scanLines (c.buf.data.drop last_recv_end) last_recv_end none with
    | none => (false, c, s)
    | some q =>
      if q ≤ last_parsed_end then (false, c, s)
      else
        let lines := (c.buf.data.take q).drop last_parsed_end
        let (rc, req) := reqParse e.before c.req lines
        -- While the callback runs, the cursor is behind the lines.
        let c : Conn := { c with req := req, buf := { c.buf with data_p := q } }
        if rc < 0 then
          let (c, s) := errCb c (-rc) s
          (true, c, s)
        else (false, { c with buf := { c.buf with data_p := last_parsed_end + rc.toNat } }, s)
  else (false, c, s)

/-- The second part of `cn_parse_req`: prepare for the transitions, and count the body. -/
def cnCountBody (c : Conn) : Conn :=
  if c.req.phase = .body then
    let c : Conn :=
      if c.req.type = .static then { c with cgi := { c.cgi with phase := .disabled } }
      else { c with
        resp := { c.resp with phase := .disabled }
        cgi := { c.cgi with phase := if c.cgi.phase = .idle then .ready else c.cgi.phase } }
    -- What is in the buffer is counted, whether it was counted before or not.
    let size := c.buf.rsize
    let rsize := c.req.rsize - size
    let c : Conn := { c with req := { c.req with rsize := rsize } }
    let c : Conn :=
      if rsize = 0 then { c with req := { c.req with phase := .done } }
      else if rsize < 0 then
        -- The buffer holds more than the body: the rest belongs to the next request.
        let rest_sz := -rsize
        let keep := (c.buf.sz - rest_sz).toNat
        let last_buf := { bufReset c.req.last_buf with data := c.buf.data.drop keep }
        { c with
          req := { c.req with phase := .done, last_buf := last_buf }
          buf := { c.buf with data := c.buf.data.take keep } }
      else c
    if c.req.type = .static then { c with buf := bufReset c.buf } else c
  else c

/-- The bytes of the body that are still to come after those in the buffer, which is negative when
the buffer holds more than the body. -/
def Conn.left (c : Conn) : ℤ := c.req.rsize - c.buf.rsize

/-- The number of bytes in the buffer up to the end of the body. -/
def Conn.keep (c : Conn) : ℕ := (c.buf.sz - -c.left).toNat

/-- The request after the bytes in the buffer were counted. -/
def Conn.counted (c : Conn) : Req :=
  { c.req with
    rsize := c.left
    phase := if c.left ≤ 0 then .done else .body
    last_buf := if c.left < 0 then { bufReset c.req.last_buf with data := c.buf.data.drop c.keep }
      else c.req.last_buf }

/-- Outside of a body nothing is counted. -/
theorem cnCountBody_other {c : Conn} (h : c.req.phase ≠ .body) : cnCountBody c = c := by
  rw [cnCountBody, if_neg h]

/-- The body of a request for a file is thrown away. -/
theorem cnCountBody_static {c : Conn} (h : c.req.phase = .body) (ht : c.req.type = .static) :
    cnCountBody c =
      { c with cgi := { c.cgi with phase := .disabled }, req := c.counted,
               buf := bufReset c.buf } := by
  have hl : c.left = c.req.rsize - c.buf.rsize := rfl
  rcases lt_trichotomy c.left 0 with h0 | h0 | h0
  · simp [cnCountBody, Conn.counted, Conn.keep, h, ht, ← hl, h0, h0.ne, h0.le, bufReset]
  · simp [cnCountBody, Conn.counted, h, ht, ← hl, h0, bufReset]
  · simp [cnCountBody, Conn.counted, h, ht, ← hl, h0.ne', h0.not_gt, h0.not_ge, bufReset]

/-- The body of a request for a CGI stays in the buffer, without what follows it. -/
theorem cnCountBody_dynamic {c : Conn} (h : c.req.phase = .body) (ht : c.req.type = .dynamic) :
    cnCountBody c =
      { c with
        resp := { c.resp with phase := .disabled }
        cgi := { c.cgi with phase := if c.cgi.phase = .idle then .ready else c.cgi.phase }
        req := c.counted
        buf := if c.left < 0 then { c.buf with data := c.buf.data.take c.keep } else c.buf } := by
  have hl : c.left = c.req.rsize - c.buf.rsize := rfl
  rcases lt_trichotomy c.left 0 with h0 | h0 | h0
  · simp [cnCountBody, Conn.counted, Conn.keep, h, ht, ← hl, h0, h0.ne, h0.le]
  · simp [cnCountBody, Conn.counted, h, ht, ← hl, h0]
  · simp [cnCountBody, Conn.counted, h, ht, ← hl, h0.ne', h0.not_gt, h0.not_ge]

/-- `cn_parse_req`. -/
def cnParseReq (e : Env) (errCb : ErrCb) (c : Conn) (last_recv_end : ℕ) (s : Srv) : Conn × Srv :=
  match cnParseLines e errCb c last_recv_end s with
  | (true, c, s) => (c, s)
  | (false, c, s) => (cnCountBody c, s)

/-- `cn_recv`. -/
def cnRecv (e : Env) (errCb : ErrCb) (fatCb : EndCb) (c : Conn) (s : Srv) : Ret :=
  if c.ssl && !c.ssl_accepted then
    -- The handshake; a negative result means that the client would block.
    if e.ssl_accept = 0 then fatCb { c with ssl := false } s
    else if e.ssl_accept < 0 then ⟨1, some c, s⟩
    else ⟨1, some { c with ssl_accepted := true }, s⟩
  else if c.req.phase = .abort then recvIgnore e fatCb c s
  else
    let rsize := BUFSZ - c.buf.sz
    if rsize ≤ 0 then
      -- The head is too large for the buffer.
      let (c, s) := errCb c 400 s
      recvIgnore e fatCb c s
    else
      let last_recv_end := c.buf.data.length
      -- A negative result is taken for an error, with either transport.
      match e.recv.map (·.take rsize.toNat) with
      | none => fatCb { c with req := { c.req with phase := .abort } } s
      | some data =>
        let c : Conn := { c with
          buf := { c.buf with data := c.buf.data ++ data }
          wire := { c.wire with
            got := c.wire.got ++ data, cur := { c.wire.cur with inp := c.wire.cur.inp ++ data } } }
        if data = [] then fatCb { c with req := { c.req with phase := .abort } } s
        else
          let (c, s) := cnParseReq e errCb c last_recv_end s
          ⟨1, some c, s⟩

/-- `cn_prepare_static_header`. -/
def cnPrepareStaticHeader (conf : Conf) (e : Env) (errCb : ErrCb) (c : Conn) (s : Srv) :
    Conn × Srv :=
  let (built, resp, fds) := respBuild e.fs e.pick c.resp c.req conf s.fds
  let c : Conn := { c with resp := resp }
  let s : Srv := { s with fds := fds }
  if built = 0 then errCb c c.resp.status s
  else
    let resp : Resp := { c.resp with phase := .header }
    ({ c with resp := resp, buf := { bufReset c.buf with data := respHdr resp conf e.time } }, s)

/-- `cn_send_error_page`. It builds the whole page anew at every call. -/
def cnSendErrorPage (conf : Conf) (e : Env) (succCb fatCb : EndCb) (c : Conn) (s : Srv) : Ret :=
  let msg := respMsg c.resp.status
  let resp := { c.resp with alive := c.req.alive, clen := msg.length }
  let buf : Buf := { bufReset c.buf with data := respHdr resp conf e.time_err ++ msg }
  let (rc, data) := smartSend buf.rest e.send_static
  let c : Conn := { c with resp := resp, buf := buf }
  if rc ≤ 0 then fatCb c s
  else
    -- The cursor is lost when the page is built again.
    let buf : Buf := { buf with data_p := buf.data_p + rc.toNat }
    let c := ({ c with buf := buf } : Conn).logSent data
    if buf.rsize ≤ 0 then succCb c s else ⟨1, some c, s⟩

/-- `cn_serve_static`. -/
def cnServeStatic (conf : Conf) (e : Env) (succCb fatCb : EndCb) (c : Conn) (s : Srv) : Ret :=
  match c.resp.phase with
  | .abort => cnSendErrorPage conf e succCb fatCb c s
  | .header =>
    let rsize := c.buf.rsize
    let (rc, data) := smartSend c.buf.rest e.send_static
    if rc ≤ 0 then fatCb c s
    else
      let c : Conn := { c with
        buf := { c.buf with data_p := c.buf.data_p + rc.toNat }
        resp := { c.resp with phase := if rc = rsize then .body else .header } }
      let c := c.logSent data
      -- For HEAD, any part of the header is enough.
      if c.req.method = .head then succCb c s
      else match c.resp.mmbuf with
        | none => ⟨1, some c, { s with bad_ptr := true }⟩
        | some m => if m.rsize ≤ 0 then succCb c s else ⟨1, some c, s⟩
  | .body =>
    match c.resp.mmbuf with
    | none => ⟨1, some c, { s with bad_ptr := true }⟩
    | some m =>
      -- At most `BUFSZ` bytes of the file at a time.
      let (rc, data) := smartSend (m.rest.take BUFSZ) e.send_static
      if rc ≤ 0 then fatCb c s
      else
        let m : Buf := { m with data_p := m.data_p + rc.toNat }
        let c := ({ c with resp := { c.resp with mmbuf := some m } } : Conn).logSent data
        if m.rsize ≤ 0 then succCb c s else ⟨1, some c, s⟩
  | .ready => ⟨1, some c, s⟩
  | .disabled => ⟨1, some c, s⟩

/-- `cn_init_cgi`. -/
def cnInitCgi (e : Env) (succCb : Conn → Srv → Conn × Srv) (errCb : ErrCb) (c : Conn) (s : Srv) :
    Conn × Srv :=
  match cgiInit e c.cgi s.fds with
  | (true, cgi, fds) =>
    succCb { c with cgi := { cgi with phase := .srvToCgi } } { s with fds := fds }
  | (false, cgi, fds) =>
    errCb { c with cgi := { cgi with phase := .abort }, resp := { c.resp with phase := .abort } }
      500
      { s with fds := fds }

/-- The write loop of `cn_stream_to_cgi`: the `k`th write, with `rsize` bytes still counted; whether
it ends without an error, and the bytes the pipe took. Every write starts at `data_p`. Each takes a
byte at least, so that the bytes counted are enough fuel. -/
def writeLoop (data : List Byte) (results : ℕ → ℤ) : ℕ → ℕ → ℤ → Bool × List Byte
  | 0, _, _ => (true, [])
  | n + 1, k, rsize =>
    if rsize ≤ 0 then (true, [])
    else
      let sz := min (results k) rsize
      -- A write that gives 0 is an error, too.
      if sz ≤ 0 then (false, [])
      else
        let (ok, rest) := writeLoop data results n (k + 1) (rsize - sz)
        (ok, data.take sz.toNat ++ rest)

/-- `cn_stream_to_cgi`. -/
def cnStreamToCgi (e : Env) (errCb : ErrCb) (c : Conn) (s : Srv) : Conn × Srv :=
  let rsize := c.buf.rsize
  let (ok, data) := writeLoop c.buf.rest e.write rsize.toNat 0 rsize
  let c := c.logIn data
  if ok then ({ c with buf := bufReset c.buf }, s) else errCb c 500 s

/-- `cn_stream_from_cgi`. -/
def cnStreamFromCgi (e : Env) (errCb : ErrCb) (c : Conn) (s : Srv) : Conn × Srv :=
  match e.read.map (·.take BUFSZ) with
  | none =>
    errCb { c with buf := { c.buf with data := [], bad := true },
                   cgi := { c.cgi with phase := .abort } }
      500 s
  | some data =>
    -- Nothing read means that the CGI has closed its stdout.
    ({ c with
        buf := { c.buf with data := data, bad := false }
        cgi := { c.cgi with
          phase := if data = [] then .done else c.cgi.phase
          buf_phase := .send }
        wire := { c.wire with
          cur := { c.wire.cur with cgi_out := c.wire.cur.cgi_out ++ data } } }, s)

/-- `cn_serve_dynamic`. A short send moves no cursor. -/
def cnServeDynamic (e : Env) (succCb fatCb : EndCb) (c : Conn) (s : Srv) : Ret :=
  let rsize := c.buf.rsize
  if rsize = 0 ∧ c.cgi.phase = .done then succCb c s
  else
    let (rc, data) := smartSend c.buf.rest e.send_dynamic
    if rc ≤ 0 then fatCb c s
    else
      let c := c.logSent data
      -- `rsize` is a local variable, and `data_p` stays where it is.
      let rsize := rsize - rc
      ⟨1, some { c with
          cgi := { c.cgi with buf_phase := if rsize = 0 then .recv else c.cgi.buf_phase } }, s⟩

end Liso
