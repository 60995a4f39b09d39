import Liso.Utils
import Liso.Lib.Handles

/-!
# The data of the server

The structures of `buffer.h`, `request.h`, `response.h`, `cgi.h`, `conn.h`, and `pool.h`, and what
the outside world answers to the system calls of one step (`Env`, `Accept`).

A pointer into an array is an offset, a null or negative value is `none`, a pointer to a structure
that has one owner is the structure itself, and an `fd_set` is a set of numbers. `Conn` has one
field that `conn_t` does not have: `wire` is the history of what went over the connection's
channels. Likewise `Srv` is the pool together with the kernel's table of the process's descriptors
and with marks of what happened; no function of the model reads the history or the marks.
-/

namespace Liso

open Handles (Table Picker)

/-! ## Buffers -/

/-- `BUFSZ`. -/
def BUFSZ : ℕ := 8192

/-- `buf_t`. The bytes behind `data + sz` are never read, so `data` lists those of
`[data, data + sz)`, and `sz` is their number, except that a failed `read` stores `-1` in it. -/
structure Buf where
  /-- The bytes of `[data, data + sz)`. -/
  data : List Byte
  /-- `data_p`, as an offset from `data`. -/
  data_p : ℕ
  /-- A failed read left `-1` in `sz`. -/
  bad : Bool
  deriving DecidableEq

/-- `buf_new`. -/
def bufNew : Buf := ⟨[], 0, false⟩

/-- `sz`. -/
def Buf.sz (b : Buf) : ℤ := if b.bad then -1 else b.data.length

/-- `buf_rsize`, which is also `buf_end(buf) - buf->data_p`. -/
def Buf.rsize (b : Buf) : ℤ := b.sz - b.data_p

/-- The bytes of `[data_p, buf_end)`. -/
def Buf.rest (b : Buf) : List Byte := b.data.drop b.data_p

/-- `buf_reset`. -/
def bufReset (b : Buf) : Buf := { b with data := [], data_p := 0, bad := false }

/-! ## Requests -/

/-- `REQ_URISZ`. -/
def REQ_URISZ : ℕ := 2048

/-- `REQ_VERSZ`. -/
def REQ_VERSZ : ℕ := 32

/-- `REQ_HOSTSZ`. -/
def REQ_HOSTSZ : ℕ := 256

/-- `method`. -/
inductive Method
  | get | head | post | other
  deriving DecidableEq

/-- `scheme`. -/
inductive Scheme
  | http | https
  deriving DecidableEq

/-- `req->phase`. -/
inductive ReqPhase
  | start | header | body | done | abort
  deriving DecidableEq

/-- The number of a phase: the enumeration starts at 1. -/
def ReqPhase.code : ReqPhase → ℤ
  | .start => 1
  | .header => 2
  | .body => 3
  | .done => 4
  | .abort => 5

/-- The phase with a number. -/
def ReqPhase.ofCode : ℤ → Option ReqPhase
  | 1 => some .start
  | 2 => some .header
  | 3 => some .body
  | 4 => some .done
  | 5 => some .abort
  | _ => none

/-- `req->type`. -/
inductive ReqType
  | static | dynamic
  deriving DecidableEq

/-- `req_t`. -/
structure Req where
  /-- `addr`. -/
  addr : List Byte
  /-- `port`. -/
  port : ℤ
  /-- `method`. -/
  method : Method
  /-- `version`. -/
  version : List Byte
  /-- `scheme`. -/
  scheme : Scheme
  /-- The whole array `uri`: the absolute-URI branch of the parser reads behind the terminator. -/
  uri : List Byte
  /-- `params`, as an offset into `uri`. -/
  params : Option ℕ
  /-- `host`. -/
  host : List Byte
  /-- `clen`. -/
  clen : ℤ
  /-- `alive`. -/
  alive : Bool
  /-- `hdrs`, newest first. -/
  hdrs : List Hdr
  /-- `rsize`. -/
  rsize : ℤ
  /-- `phase`. -/
  phase : ReqPhase
  /-- `last_buf`. -/
  last_buf : Buf
  /-- `type`. -/
  type : ReqType
  /-- A mark: some copy into `host` was longer than `REQ_HOSTSZ`. The C program has overwritten the
  fields behind `host` then (`setHost`). -/
  overrun : Bool
  deriving DecidableEq

/-! ## Responses -/

/-- `resp->phase`. -/
inductive RespPhase
  | ready | header | body | abort | disabled
  deriving DecidableEq

/-- `resp_t`. -/
structure Resp where
  /-- `phase`. -/
  phase : RespPhase
  /-- `status`. -/
  status : ℤ
  /-- `clen`. -/
  clen : ℤ
  /-- `alive`. -/
  alive : Bool
  /-- `hdrs`, newest first. -/
  hdrs : List Hdr
  /-- `mmbuf`. -/
  mmbuf : Option Buf
  deriving DecidableEq

/-! ## CGI -/

/-- `cgi->phase`. -/
inductive CgiPhase
  | idle | ready | srvToCgi | cgiToSrv | done | abort | disabled
  deriving DecidableEq

/-- `cgi->buf_phase`. -/
inductive BufPhase
  | recv | send
  deriving DecidableEq

/-- `cgi_t`. -/
structure Cgi where
  /-- `phase`. -/
  phase : CgiPhase
  /-- `pid`. -/
  pid : ℤ
  /-- `srv_out`. -/
  srv_out : Option ℕ
  /-- `srv_in`. -/
  srv_in : Option ℕ
  /-- `srv_err`. -/
  srv_err : Option ℕ
  /-- `cgi_in`. -/
  cgi_in : Option ℕ
  /-- `cgi_out`. -/
  cgi_out : Option ℕ
  /-- `cgi_err`. -/
  cgi_err : Option ℕ
  /-- `buf_phase`. -/
  buf_phase : BufPhase
  deriving DecidableEq

/-- The pipe ends that the structure records. -/
def Cgi.pipes (g : Cgi) : List ℕ :=
  [g.srv_out, g.srv_in, g.srv_err, g.cgi_in, g.cgi_out, g.cgi_err].filterMap id

/-! ## Connections -/

/-- What went over the channels of a connection for one request, from the reset before it to the
success callback after its response. -/
structure Exchange where
  /-- The bytes put into `conn->buf` for the request: what `last_buf` held, then what was
  received. -/
  inp : List Byte
  /-- The bytes that the client socket took. -/
  sent : List Byte
  /-- The bytes that the CGI's stdin pipe took. -/
  cgi_in : List Byte
  /-- The bytes read from the CGI's stdout pipe. -/
  cgi_out : List Byte
  deriving DecidableEq

/-- An exchange before any byte. -/
def Exchange.empty : Exchange := ⟨[], [], [], []⟩

/-- The history of a connection. -/
structure Wire where
  /-- The number of the connection among all that were ever accepted. -/
  id : ℕ
  /-- All bytes received from the client, in order. -/
  got : List Byte
  /-- Those that `recv_ignore` received. -/
  ignored : List Byte
  /-- The exchange under way. -/
  cur : Exchange
  /-- The exchanges that ended in the success callback, oldest first. -/
  past : List Exchange
  deriving DecidableEq

/-- `conn_t`. `ssl` is whether the pointer is non-null. -/
structure Conn where
  /-- `fd`. -/
  fd : ℕ
  /-- `idx`. -/
  idx : ℕ
  /-- `buf`. -/
  buf : Buf
  /-- `req`. -/
  req : Req
  /-- `resp`. -/
  resp : Resp
  /-- `cgi`. -/
  cgi : Cgi
  /-- `ssl`. -/
  ssl : Bool
  /-- `ssl_accepted`. -/
  ssl_accepted : Bool
  /-- The history. -/
  wire : Wire
  deriving DecidableEq

/-- The descriptors that a connection records. -/
def Conn.owned (c : Conn) : List ℕ := c.fd :: c.cgi.pipes

/-! ## The pool and the server -/

/-- An exchange that ended in the success callback. -/
structure Served where
  /-- The number of the connection. -/
  conn : ℕ
  /-- `cgi->phase` when the callback ran: `CGI_DONE` after the response of a CGI. -/
  cgi : CgiPhase
  /-- The exchange. -/
  ex : Exchange
  deriving DecidableEq

/-- `FD_SETSIZE`. -/
def FD_SETSIZE : ℕ := 1024

/-- `MAX_CONNS`. -/
def MAX_CONNS : ℕ := FD_SETSIZE - 10

/-- `pool_t`; `n_conns` is the length of `conns`. -/
structure Pool where
  /-- `conns`. -/
  conns : List Conn
  /-- `min_max_fd`. -/
  min_max_fd : ℕ
  /-- `max_fd`. -/
  max_fd : ℕ
  /-- `read_set`. -/
  read_set : Finset ℕ
  /-- `write_set`. -/
  write_set : Finset ℕ
  /-- `read_ready`. -/
  read_ready : Finset ℕ
  /-- `write_ready`. -/
  write_ready : Finset ℕ
  deriving DecidableEq

/-- The server process: the pool, the kernel's table of the open descriptors, and marks. -/
structure Srv where
  /-- The connection pool. -/
  pool : Pool
  /-- The descriptors that the process has open. -/
  fds : Table
  /-- The same table when `select` returned last. -/
  snap : Table
  /-- The descriptors whose ready bit the loop acted on since then, with what each denoted at that
  moment. -/
  acts : List (ℕ × Option ℕ)
  /-- The exchanges that ended in the success callback, newest first. -/
  served : List Served
  /-- The number of connections accepted so far. -/
  accepted : ℕ
  /-- An `FD_SET`, `FD_CLR`, or `FD_ISSET` was applied outside an `fd_set`. -/
  bad_fd : Bool
  /-- A null `mmbuf` was dereferenced, or a freed connection was used. -/
  bad_ptr : Bool
  deriving DecidableEq

/-- The result of a handler that may free its connection: the code it returns, the connection unless
it was freed, and the server. -/
structure Ret where
  /-- The code returned. -/
  rc : ℤ
  /-- The connection, unless it was freed. -/
  conn : Option Conn
  /-- The server. -/
  srv : Srv
  deriving DecidableEq

/-- `conf_t`, with the two listener sockets, the descriptors open when the process enters the main
loop, and `strftime(fmt_time, localtime(..))`. -/
structure Conf where
  /-- `http_port`. -/
  http_port : ℤ
  /-- `https_port`. -/
  https_port : ℤ
  /-- `www`. -/
  www : List Byte
  /-- The socket listening on the HTTP port. -/
  sock : ℕ
  /-- The socket listening on the HTTPS port. -/
  ssl_sock : ℕ
  /-- The descriptors open at the start of the main loop. -/
  base : List ℕ
  /-- A time as the header fields print it. -/
  strftime : ℤ → List Byte

/-! ## The outside world -/

/-- What the code reads of a `struct stat`. -/
structure Stat where
  /-- `S_ISDIR(st_mode)`. -/
  dir : Bool
  /-- `st_size`. -/
  size : ℕ
  /-- `st_mtime`. -/
  mtime : ℤ
  deriving DecidableEq

/-- The file system as one visit finds it. -/
structure Fs where
  /-- `stat`; `none` is a failure. -/
  stat : List Byte → Option Stat
  /-- Whether `open` succeeds. -/
  opens : List Byte → Bool
  /-- `mmap` of the open file; `none` is a failure. -/
  mmap : List Byte → Option (List Byte)

/-- The answers to the system calls of one visit to a connection. A count or a chunk that exceeds
what the call asks for is cut to it, so that every `Env` is a possible behaviour. -/
structure Env where
  /-- `SSL_accept`. -/
  ssl_accept : ℤ
  /-- `recv` or `SSL_read` on the client socket: `none` is a negative result, `[]` the end of
  file. -/
  recv : Option (List Byte)
  /-- The byte in front of the parser's copy of the lines. -/
  before : Byte
  /-- The file system. -/
  fs : Fs
  /-- The clock when a file's header is built. -/
  time : ℤ
  /-- The clock when an error page is built. -/
  time_err : ℤ
  /-- Whether `pipe(stdin_pipe)` succeeds. -/
  pipe_in : Bool
  /-- Whether `pipe(stdout_pipe)` succeeds. -/
  pipe_out : Bool
  /-- Whether `pipe(stderr_pipe)` succeeds. -/
  pipe_err : Bool
  /-- `fork`: the child's pid, or a failure. -/
  fork : Option ℕ
  /-- The results of the successive writes to the CGI. -/
  write : ℕ → ℤ
  /-- `read` on the CGI's stdout: `none` is a failure, `[]` the end of file. -/
  read : Option (List Byte)
  /-- The result of the send in `cn_serve_dynamic`. -/
  send_dynamic : ℤ
  /-- The result of the send in `cn_serve_static`. -/
  send_static : ℤ
  /-- The descriptors that `open` and `pipe` return. -/
  pick : Picker

/-- The answers to the system calls of one `liso_accept_conn`. -/
structure Accept where
  /-- Whether `accept` succeeds. -/
  ok : Bool
  /-- The descriptor that `accept` returns. -/
  pick : Picker
  /-- The client's address as `inet_ntop` prints it. -/
  addr : List Byte
  /-- The bytes of the new request's array `uri`. -/
  mem : List Byte
  /-- Whether `SSL_new` succeeds. -/
  ssl_new : Bool
  /-- Whether `SSL_set_fd` succeeds. -/
  ssl_set_fd : Bool

end Liso
