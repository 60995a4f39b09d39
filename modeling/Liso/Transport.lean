import Liso.Loop.Receive

/-!
# The server over another transport

What the main loop does to a connection depends on its TLS flags only where `cn_recv` asks for the
handshake, and on the port and the scheme of its requests nowhere. `Conn.overHttp` makes of the
connection with the number `k` the one that `liso_accept_conn` would have made on the HTTP port, and
leaves the others as they are. The handlers, the sections of the inner loop, and the accepting
commute with it, and so does a step of the main loop once the handshake of that connection is over
(`step_overHttp`): the same bytes lead to the same requests and the same answers.
-/

namespace Liso

open Handles (Table Picker)

/-- The request of a connection on the HTTP port, if `b` is set. -/
def Req.overHttp (conf : Conf) (b : Bool) (r : Req) : Req :=
  { r with port := bif b then conf.http_port else r.port, scheme := bif b then .http else r.scheme }

variable {conf : Conf} {k : ℕ} {b : Bool}

/-! ## The parser -/

/-- The branch for an absolute target leaves the port and the scheme alone. -/
theorem Req.absolute_overHttp (r : Req) :
    (r.overHttp conf b).absolute = r.absolute.overHttp conf b := by
  have huri : (r.overHttp conf b).uri = r.uri := rfl
  unfold Req.absolute
  rw [huri]
  cases schemeEnd (cstr r.uri) with
  | none => rfl
  | some n =>
    simp only [apply_ite (Req.overHttp conf b)]
    rfl

/-- The type and the parameters do not depend on the port and the scheme. -/
theorem Req.split_overHttp (r : Req) :
    (r.overHttp conf b).split = r.split.overHttp conf b := by
  have huri : (r.overHttp conf b).uri = r.uri := rfl
  by_cases hcgi : strstartswith (cstr r.uri) (str "/cgi/") = true
  · simp only [Req.split, huri, if_pos hcgi, apply_ite (Req.overHttp conf b)]
    rfl
  · simp only [Req.split, huri, if_neg hcgi, apply_ite (Req.overHttp conf b)]
    rfl

/-- The target does not depend on them. -/
theorem parseUri_overHttp (conf : Conf) (b : Bool) (r : Req) (p d : Cur) :
    parseUri (r.overHttp conf b) p d = (parseUri r p d).overHttp conf b := by
  rw [parseUri_eq, parseUri_eq, ← Req.split_overHttp, ← Req.absolute_overHttp]
  rfl

/-- The outcome of a part of the parser on a connection on the HTTP port. -/
def Parsed.overHttp (conf : Conf) (b : Bool) (x : Parsed) : Parsed := (x.1, x.2.overHttp conf b)

/-- The request line is parsed alike on both ports. -/
theorem parseStart_overHttp (r : Req) (d : Cur) :
    parseStart (r.overHttp conf b) d = (parseStart r d).overHttp conf b := by
  unfold parseStart
  dsimp only
  generalize strncpy0 _ _ = method
  by_cases h0 : method.length = 0
  · rw [if_pos h0, if_pos h0]
    rfl
  rw [if_neg h0, if_neg h0]
  cases methodOf method _ with
  | none => rfl
  | some m =>
    dsimp only
    have hu := parseUri_overHttp conf b { r with method := m }
    have he : ({ r.overHttp conf b with method := m } : Req) =
      ({ r with method := m } : Req).overHttp conf b := rfl
    rw [he, hu]
    generalize parseUri _ _ _ = r'
    split <;> rfl

/-- The fields of a header are stored alike on both ports. -/
theorem parseField_overHttp (r : Req) (key val : List Byte) :
    parseField (r.overHttp conf b) key val =
      (parseField r key val).map (Req.overHttp conf b) := by
  unfold parseField
  generalize atoi val = n
  simp only [apply_ite (Option.map (Req.overHttp conf b)), Option.map_some, Option.map_none,
    apply_ite (Req.overHttp conf b)]
  rfl

/-- The head ends alike on both ports. -/
theorem parseEnd_overHttp (r : Req) (d : Cur) :
    parseEnd (r.overHttp conf b) d = (parseEnd r d).overHttp conf b := by
  unfold parseEnd
  simp only [apply_ite (Parsed.overHttp conf b)]
  rfl

/-- A header line is parsed alike on both ports. -/
theorem parseHeader_overHttp (r : Req) (p d : Cur) :
    parseHeader (r.overHttp conf b) p d = (parseHeader r p d).overHttp conf b := by
  unfold parseHeader
  dsimp only
  split
  · rfl
  · rw [parseField_overHttp]
    cases parseField r _ _ <;> rfl

/-- The header lines are parsed alike on both ports. -/
theorem parseHeaders_overHttp (n : ℕ) (r : Req) (d : Cur) :
    parseHeaders n (r.overHttp conf b) d = (parseHeaders n r d).overHttp conf b := by
  induction n generalizing r d with
  | zero => rfl
  | succ n ih =>
    rw [parseHeaders, parseHeaders]
    split
    · rfl
    · dsimp only
      split
      · exact parseEnd_overHttp r _
      · rw [parseHeader_overHttp]
        rcases parseHeader r _ _ with ⟨_ | d', r'⟩
        · rfl
        · exact ih r' d'

/-- The two parts of the parser work alike on both ports. -/
theorem parsePhases_overHttp (r : Req) (d : Cur) :
    parsePhases (r.overHttp conf b) d = (parsePhases r d).overHttp conf b := by
  unfold parsePhases
  have hp : (r.overHttp conf b).phase = r.phase := rfl
  rw [hp]
  split
  · rw [parseStart_overHttp]
    rcases parseStart r d with ⟨_ | d', r'⟩
    · rfl
    · exact parseHeaders_overHttp _ r' d'
  · split
    · exact parseHeaders_overHttp _ r d
    · rfl

/-- `req_parse` works alike on both ports. -/
theorem reqParse_overHttp (conf : Conf) (b : Bool) (before : Byte) (r : Req) (lines : List Byte) :
    reqParse before (r.overHttp conf b) lines =
      ((reqParse before r lines).1, (reqParse before r lines).2.overHttp conf b) := by
  unfold reqParse
  rw [parsePhases_overHttp]
  rcases parsePhases r ⟨before, lines⟩ with ⟨_ | d', r'⟩ <;> rfl

/-! ## Connections -/

/-- The connection as `liso_accept_conn` would have made it on the HTTP port, if its number is
`k`. -/
def Conn.overHttp (conf : Conf) (k : ℕ) (c : Conn) : Conn :=
  { c with
    ssl := c.ssl && c.wire.id != k
    ssl_accepted := c.ssl_accepted && c.wire.id != k
    req := c.req.overHttp conf (c.wire.id == k) }

/-- The server in which the connection with the number `k` is one on the HTTP port. -/
def Srv.overHttp (conf : Conf) (k : ℕ) (s : Srv) : Srv :=
  { s with pool := { s.pool with conns := s.pool.conns.map (Conn.overHttp conf k) } }

/-- The result of a handler in that server. -/
def Ret.overHttp (conf : Conf) (k : ℕ) (r : Ret) : Ret :=
  ⟨r.rc, r.conn.map (Conn.overHttp conf k), r.srv.overHttp conf k⟩

/-- The result of a handler that keeps its connection, in that server. -/
def pairOverHttp (conf : Conf) (k : ℕ) (p : Conn × Srv) : Conn × Srv :=
  (p.1.overHttp conf k, p.2.overHttp conf k)

section Handlers

variable {c : Conn} {s : Srv} {e : Env}

/-- A pipe is closed alike. -/
theorem dropPipe_overHttp (conf : Conf) (k : ℕ) (s : Srv) (f : Option ℕ) :
    dropPipe (s.overHttp conf k) f = (dropPipe s f).overHttp conf k := by
  cases f <;> rfl

/-- `pl_reset_conn` works alike on both ports. -/
theorem plResetConn_overHttp (s : Srv) (c : Conn) :
    plResetConn (s.overHttp conf k) (c.overHttp conf k) =
      pairOverHttp conf k (plResetConn s c) := by
  unfold plResetConn
  have hs : ((s.overHttp conf k).setRead c.fd).clrWrite c.fd =
    ((s.setRead c.fd).clrWrite c.fd).overHttp conf k := rfl
  dsimp only [Conn.overHttp]
  rw [hs, dropPipe_overHttp, dropPipe_overHttp]
  rfl

/-- The last entry takes the place of the removed one. -/
theorem moveLast_overHttp (conf : Conf) (k : ℕ) (conns : List Conn) (i : ℕ) :
    moveLast (conns.map (Conn.overHttp conf k)) i =
      (moveLast conns i).map (Conn.overHttp conf k) := by
  unfold moveLast
  rw [List.getLast?_map]
  cases conns.getLast? with
  | none => rfl
  | some last =>
    dsimp only [Option.map_some]
    rw [List.map_dropLast, List.map_set]
    rfl

/-- `pl_del_conn` works alike on both ports. -/
theorem plDelConn_overHttp (s : Srv) (c : Conn) :
    plDelConn (s.overHttp conf k) (c.overHttp conf k) = (plDelConn s c).overHttp conf k := by
  unfold plDelConn
  have hlen : (s.overHttp conf k).pool.conns.length = s.pool.conns.length := List.length_map _
  rw [hlen, plResetConn_overHttp, apply_ite (Ret.overHttp conf k)]
  rcases plResetConn s c with ⟨c', s'⟩
  have hmove := moveLast_overHttp conf k s'.pool.conns c'.idx
  refine congrArg (ite _ _) ?_
  exact congrArg (fun l => (⟨1, none, { s'.clrRead c'.fd with
    fds := s'.fds.free c'.fd, pool := { (s'.clrRead c'.fd).pool with conns := l } }⟩ : Ret)) hmove

/-- `liso_drop_conn` works alike on both ports. -/
theorem lisoDropConn_overHttp (c : Conn) (s : Srv) :
    lisoDropConn (c.overHttp conf k) (s.overHttp conf k) = (lisoDropConn c s).overHttp conf k := by
  unfold lisoDropConn
  rw [plDelConn_overHttp]
  rfl

/-- The complete lines are parsed alike on both ports. -/
theorem cnParseLines_overHttp (e : Env) (c : Conn) (n : ℕ) (s : Srv) :
    cnParseLines e lisoConnErr (c.overHttp conf k) n (s.overHttp conf k) =
      ((cnParseLines e lisoConnErr c n s).1,
        pairOverHttp conf k (cnParseLines e lisoConnErr c n s).2) := by
  unfold cnParseLines
  have hph : (c.overHttp conf k).req.phase = c.req.phase := rfl
  have hbuf : (c.overHttp conf k).buf = c.buf := rfl
  rw [hph, hbuf]
  by_cases hp : c.req.phase = .start ∨ c.req.phase = .header
  · rw [if_pos hp, if_pos hp]
    dsimp only
    cases scanLines (c.buf.data.drop n) n none with
    | none => rfl
    | some q =>
      dsimp only
      by_cases hq : q ≤ c.buf.data_p
      · rw [if_pos hq, if_pos hq]
        rfl
      · rw [if_neg hq, if_neg hq]
        have hreq := reqParse_overHttp conf (c.wire.id == k) e.before c.req
          ((c.buf.data.take q).drop c.buf.data_p)
        have hr : (c.overHttp conf k).req = c.req.overHttp conf (c.wire.id == k) := rfl
        rw [hr, hreq]
        rcases reqParse e.before c.req ((c.buf.data.take q).drop c.buf.data_p) with ⟨rc, req⟩
        dsimp only
        by_cases hrc : rc < 0
        · rw [if_pos hrc, if_pos hrc]
          rfl
        · rw [if_neg hrc, if_neg hrc]
          rfl
  · rw [if_neg hp, if_neg hp]
    rfl

/-- The body is counted alike on both ports. -/
theorem cnCountBody_overHttp (c : Conn) :
    cnCountBody (c.overHttp conf k) = (cnCountBody c).overHttp conf k := by
  by_cases hp : c.req.phase = .body
  · cases ht : c.req.type with
    | static =>
      rw [cnCountBody_static hp ht, cnCountBody_static (c := c.overHttp conf k) hp ht]
      rfl
    | dynamic =>
      rw [cnCountBody_dynamic hp ht, cnCountBody_dynamic (c := c.overHttp conf k) hp ht]
      rfl
  · rw [cnCountBody_other hp, cnCountBody_other (c := c.overHttp conf k) hp]

/-- `cn_parse_req` works alike on both ports. -/
theorem cnParseReq_overHttp (conf : Conf) (k : ℕ) (e : Env) (c : Conn) (n : ℕ) (s : Srv) :
    cnParseReq e lisoConnErr (c.overHttp conf k) n (s.overHttp conf k) =
      pairOverHttp conf k (cnParseReq e lisoConnErr c n s) := by
  unfold cnParseReq
  rw [cnParseLines_overHttp]
  rcases cnParseLines e lisoConnErr c n s with ⟨_ | _, c', s'⟩
  · dsimp only [pairOverHttp]
    rw [cnCountBody_overHttp]
  · rfl

/-- `recv_ignore` works alike on both ports. -/
theorem recvIgnore_overHttp (e : Env) (c : Conn) (s : Srv) :
    recvIgnore e lisoDropConn (c.overHttp conf k) (s.overHttp conf k) =
      (recvIgnore e lisoDropConn c s).overHttp conf k := by
  unfold recvIgnore
  cases e.recv.map (·.take BUFSZ) with
  | none => exact lisoDropConn_overHttp c s
  | some data =>
    dsimp only
    by_cases hd : data = []
    · rw [if_pos hd, if_pos hd, ← lisoDropConn_overHttp]
      rfl
    · rw [if_neg hd, if_neg hd]
      rfl

/-- `cn_recv` works alike on both ports, once the handshake is over. -/
theorem cnRecv_overHttp (h : c.wire.id = k → c.ssl = true → c.ssl_accepted = true) (e : Env)
    (s : Srv) :
    cnRecv e lisoConnErr lisoDropConn (c.overHttp conf k) (s.overHttp conf k) =
      (cnRecv e lisoConnErr lisoDropConn c s).overHttp conf k := by
  unfold cnRecv
  have hssl : ((c.overHttp conf k).ssl && !(c.overHttp conf k).ssl_accepted) =
      (c.ssl && !c.ssl_accepted) := by
    by_cases hk : c.wire.id = k
    · have hsec := h hk
      cases hs : c.ssl with
      | false => simp [Conn.overHttp, hs]
      | true => simp [Conn.overHttp, hs, hk, hsec hs]
    · have hne : (c.wire.id != k) = true := by simpa using hk
      simp [Conn.overHttp, hne]
  have hph : (c.overHttp conf k).req.phase = c.req.phase := rfl
  have hbuf : (c.overHttp conf k).buf = c.buf := rfl
  rw [hssl, hph, hbuf]
  by_cases hopen : (c.ssl && !c.ssl_accepted) = true
  · rw [if_pos hopen, if_pos hopen]
    by_cases h0 : e.ssl_accept = 0
    · rw [if_pos h0, if_pos h0, ← lisoDropConn_overHttp]
      rfl
    rw [if_neg h0, if_neg h0]
    by_cases h1 : e.ssl_accept < 0
    · rw [if_pos h1, if_pos h1]
      rfl
    · rw [if_neg h1, if_neg h1]
      -- The handshake that ends here is that of another connection.
      by_cases hk : c.wire.id = k
      · rw [Bool.and_eq_true, Bool.not_eq_true'] at hopen
        exact absurd (h hk hopen.1) (by simp [hopen.2])
      · simp [Ret.overHttp, Conn.overHttp, hk]
  rw [if_neg hopen, if_neg hopen]
  by_cases hp : c.req.phase = .abort
  · rw [if_pos hp, if_pos hp]
    exact recvIgnore_overHttp e c s
  rw [if_neg hp, if_neg hp]
  by_cases hfull : BUFSZ - c.buf.sz ≤ 0
  · rw [if_pos hfull, if_pos hfull]
    exact recvIgnore_overHttp e (lisoConnErr c 400 s).1 (lisoConnErr c 400 s).2
  rw [if_neg hfull, if_neg hfull]
  dsimp only
  cases e.recv.map (·.take (BUFSZ - c.buf.sz).toNat) with
  | none =>
    dsimp only
    rw [← lisoDropConn_overHttp]
    rfl
  | some data =>
    dsimp only
    by_cases hd : data = []
    · rw [if_pos hd, if_pos hd, ← lisoDropConn_overHttp]
      rfl
    · rw [if_neg hd, if_neg hd]
      have hparse := cnParseReq_overHttp conf k e (c.received data)
        c.buf.data.length s
      unfold Conn.received at hparse
      refine Eq.trans ?_ (congrArg (fun p : Conn × Srv => (⟨1, some p.1, p.2⟩ : Ret)) hparse)
      rfl

/-- The hand-over works alike on both ports. -/
theorem handOver_overHttp (e : Env) (c : Conn) (s : Srv) :
    handOver e (c.overHttp conf k) (s.overHttp conf k) = pairOverHttp conf k (handOver e c s) := by
  have hparse := cnParseReq_overHttp conf k e c.handed 0 s
  have heq : ∀ c s, handOver e c s =
      (if (cnParseReq e lisoConnErr c.handed 0 s).1.req.phase = .done then
        ((cnParseReq e lisoConnErr c.handed 0 s).1,
          ((cnParseReq e lisoConnErr c.handed 0 s).2.clrRead
            (cnParseReq e lisoConnErr c.handed 0 s).1.fd).setWrite
              (cnParseReq e lisoConnErr c.handed 0 s).1.fd)
      else cnParseReq e lisoConnErr c.handed 0 s) := fun _ _ => rfl
  have hhand : (c.overHttp conf k).handed = c.handed.overHttp conf k := rfl
  rw [heq, heq, hhand, hparse, apply_ite (pairOverHttp conf k)]
  rfl

/-- `liso_reset_or_close` works alike on both ports. -/
theorem lisoResetOrClose_overHttp (e : Env) (c : Conn) (s : Srv) :
    lisoResetOrClose e (c.overHttp conf k) (s.overHttp conf k) =
      (lisoResetOrClose e c s).overHttp conf k := by
  have heq : ∀ c s, lisoResetOrClose e c s = if c.req.alive then
      if (plResetConn (s.serve c) c.archive).1.req.last_buf.sz ≠ 0 then
        ⟨1, some
          (handOver e (plResetConn (s.serve c) c.archive).1
            (plResetConn (s.serve c) c.archive).2).1,
          (handOver e (plResetConn (s.serve c) c.archive).1
            (plResetConn (s.serve c) c.archive).2).2⟩
      else ⟨1, some (plResetConn (s.serve c) c.archive).1, (plResetConn (s.serve c) c.archive).2⟩
      else lisoDropConn c (s.serve c) := fun _ _ => rfl
  have hserve : (s.overHttp conf k).serve (c.overHttp conf k) = (s.serve c).overHttp conf k := rfl
  have harch : (c.overHttp conf k).archive = c.archive.overHttp conf k := rfl
  rw [heq, heq, hserve, harch, plResetConn_overHttp, lisoDropConn_overHttp]
  rcases plResetConn (s.serve c) c.archive with ⟨c', s'⟩
  dsimp only [pairOverHttp]
  rw [handOver_overHttp]
  simp only [apply_ite (Ret.overHttp conf k)]
  rfl

/-- `cn_prepare_static_header` works alike on both ports. -/
theorem cnPrepareStaticHeader_overHttp (e : Env) (c : Conn) (s : Srv) :
    cnPrepareStaticHeader conf e lisoConnErr (c.overHttp conf k) (s.overHttp conf k) =
      pairOverHttp conf k (cnPrepareStaticHeader conf e lisoConnErr c s) := by
  have hbuilt : respBuild e.fs e.pick (c.overHttp conf k).resp (c.overHttp conf k).req conf
      (s.overHttp conf k).fds = respBuild e.fs e.pick c.resp c.req conf s.fds := rfl
  unfold cnPrepareStaticHeader
  rw [hbuilt]
  rcases respBuild e.fs e.pick c.resp c.req conf s.fds with ⟨built, resp, fds⟩
  simp only [apply_ite (pairOverHttp conf k)]
  rfl

/-- `cn_send_error_page` works alike on both ports. -/
theorem cnSendErrorPage_overHttp (e : Env) (c : Conn) (s : Srv) :
    cnSendErrorPage conf e (lisoResetOrClose e) lisoDropConn (c.overHttp conf k)
        (s.overHttp conf k) =
      (cnSendErrorPage conf e (lisoResetOrClose e) lisoDropConn c s).overHttp conf k := by
  unfold cnSendErrorPage
  simp only [apply_ite (Ret.overHttp conf k), ← lisoDropConn_overHttp, ← lisoResetOrClose_overHttp]
  rfl

/-- `cn_serve_static` works alike on both ports. -/
theorem cnServeStatic_overHttp (e : Env) (c : Conn) (s : Srv) :
    cnServeStatic conf e (lisoResetOrClose e) lisoDropConn (c.overHttp conf k)
        (s.overHttp conf k) =
      (cnServeStatic conf e (lisoResetOrClose e) lisoDropConn c s).overHttp conf k := by
  have hmeth : (c.overHttp conf k).req.method = c.req.method := rfl
  have hresp : (c.overHttp conf k).resp = c.resp := rfl
  have hbuf : (c.overHttp conf k).buf = c.buf := rfl
  unfold cnServeStatic
  rw [hresp, hbuf]
  cases c.resp.phase with
  | abort => exact cnSendErrorPage_overHttp e c s
  | ready => rfl
  | disabled => rfl
  | header =>
    dsimp only [Conn.logSent]
    by_cases hrc : (smartSend c.buf.rest e.send_static).1 ≤ 0
    · rw [if_pos hrc, if_pos hrc]
      exact lisoDropConn_overHttp c s
    rw [if_neg hrc, if_neg hrc, hmeth]
    by_cases hhead : c.req.method = .head
    · rw [if_pos hhead, if_pos hhead, ← lisoResetOrClose_overHttp]
      rfl
    rw [if_neg hhead, if_neg hhead]
    cases c.resp.mmbuf with
    | none => rfl
    | some m =>
      dsimp only
      by_cases hm : m.rsize ≤ 0
      · rw [if_pos hm, if_pos hm, ← lisoResetOrClose_overHttp]
        rfl
      · rw [if_neg hm, if_neg hm]
        rfl
  | body =>
    dsimp only [Conn.logSent]
    cases c.resp.mmbuf with
    | none => rfl
    | some m =>
      dsimp only
      simp only [apply_ite (Ret.overHttp conf k), ← lisoDropConn_overHttp,
        ← lisoResetOrClose_overHttp]
      rfl

/-- `cn_serve_dynamic` works alike on both ports. -/
theorem cnServeDynamic_overHttp (e : Env) (c : Conn) (s : Srv) :
    cnServeDynamic e (lisoResetOrClose e) lisoDropConn (c.overHttp conf k) (s.overHttp conf k) =
      (cnServeDynamic e (lisoResetOrClose e) lisoDropConn c s).overHttp conf k := by
  unfold cnServeDynamic
  simp only [apply_ite (Ret.overHttp conf k), ← lisoDropConn_overHttp, ← lisoResetOrClose_overHttp]
  rfl

/-- `cn_init_cgi` works alike on both ports. -/
theorem cnInitCgi_overHttp (e : Env) (c : Conn) (s : Srv) :
    cnInitCgi e lisoCgiInited lisoConnErr (c.overHttp conf k) (s.overHttp conf k) =
      pairOverHttp conf k (cnInitCgi e lisoCgiInited lisoConnErr c s) := by
  have hinit : cgiInit e (c.overHttp conf k).cgi (s.overHttp conf k).fds = cgiInit e c.cgi s.fds :=
    rfl
  unfold cnInitCgi
  rw [hinit]
  rcases cgiInit e c.cgi s.fds with ⟨_ | _, cgi, fds⟩
  · rfl
  · dsimp only [lisoCgiInited]
    cases cgi.srv_err <;> rfl

/-- `cn_stream_to_cgi` works alike on both ports. -/
theorem cnStreamToCgi_overHttp (e : Env) (c : Conn) (s : Srv) :
    cnStreamToCgi e lisoConnErr (c.overHttp conf k) (s.overHttp conf k) =
      pairOverHttp conf k (cnStreamToCgi e lisoConnErr c s) := by
  unfold cnStreamToCgi
  simp only [apply_ite (pairOverHttp conf k)]
  rfl

/-- `cn_stream_from_cgi` works alike on both ports. -/
theorem cnStreamFromCgi_overHttp (e : Env) (c : Conn) (s : Srv) :
    cnStreamFromCgi e lisoConnErr (c.overHttp conf k) (s.overHttp conf k) =
      pairOverHttp conf k (cnStreamFromCgi e lisoConnErr c s) := by
  unfold cnStreamFromCgi
  cases e.read.map (·.take BUFSZ) <;> rfl

/-! ## The sections -/

/-- Two handlers in a row work alike when each of them does. -/
theorem Ret.andThen_overHttp {f g : Conn → Srv → Ret} (r : Ret)
    (hf : ∀ c s, r.conn = some c → r.srv = s →
      g (c.overHttp conf k) (s.overHttp conf k) = (f c s).overHttp conf k) :
    (r.overHttp conf k).andThen g = (r.andThen f).overHttp conf k := by
  unfold Ret.andThen
  have hrc : (r.overHttp conf k).rc = r.rc := rfl
  rw [hrc]
  by_cases h : r.rc < 0
  · rw [if_pos h, if_pos h]
  · rw [if_neg h, if_neg h]
    cases hc : r.conn with
    | none =>
      have hc' : (r.overHttp conf k).conn = none := by rw [Ret.overHttp, hc]; rfl
      rw [hc']
      simp only [Ret.overHttp, hc]
      rfl
    | some c =>
      have hc' : (r.overHttp conf k).conn = some (c.overHttp conf k) := by
        rw [Ret.overHttp, hc]; rfl
      rw [hc']
      exact hf c r.srv hc rfl

/-- The section `recv` works alike on both ports, once the handshake is over. -/
theorem stepRecv_overHttp (h : c.wire.id = k → c.ssl = true → c.ssl_accepted = true) (e : Env)
    (s : Srv) :
    stepRecv e (c.overHttp conf k) (s.overHttp conf k) = (stepRecv e c s).overHttp conf k := by
  have hready : ((s.overHttp conf k).probe (c.overHttp conf k).fd).readReady (c.overHttp conf k).fd
      = (s.probe c.fd).readReady c.fd := rfl
  unfold stepRecv
  dsimp only
  rw [hready]
  by_cases hr : (s.probe c.fd).readReady c.fd = true
  · rw [if_pos hr, if_pos hr]
    exact cnRecv_overHttp h e ((s.probe c.fd).act c.fd)
  · rw [if_neg hr, if_neg hr]
    rfl

/-- The section `handle cgi err` works alike on both ports. -/
theorem stepLogerr_overHttp (c : Conn) (s : Srv) :
    stepLogerr (c.overHttp conf k) (s.overHttp conf k) = (stepLogerr c s).overHttp conf k := by
  unfold stepLogerr
  have hcgi : (c.overHttp conf k).cgi = c.cgi := rfl
  rw [hcgi]
  cases c.cgi.srv_err with
  | none => rfl
  | some d =>
    dsimp only
    rw [apply_ite (Srv.overHttp conf k)]
    rfl

/-- The first transition works alike on both ports. -/
theorem stepPrepare_overHttp (e : Env) (c : Conn) (s : Srv) :
    stepPrepare conf e (c.overHttp conf k) (s.overHttp conf k) =
      pairOverHttp conf k (stepPrepare conf e c s) := by
  unfold stepPrepare
  rw [apply_ite (pairOverHttp conf k), ← cnPrepareStaticHeader_overHttp]
  rfl

/-- The second transition works alike on both ports. -/
theorem stepInitCgi_overHttp (e : Env) (c : Conn) (s : Srv) :
    stepInitCgi e (c.overHttp conf k) (s.overHttp conf k) =
      pairOverHttp conf k (stepInitCgi e c s) := by
  unfold stepInitCgi
  rw [apply_ite (pairOverHttp conf k), ← cnInitCgi_overHttp]
  rfl

/-- The section `prepare for select` works alike on both ports. -/
theorem stepSelect_overHttp (c : Conn) (s : Srv) :
    stepSelect (c.overHttp conf k) (s.overHttp conf k) = (stepSelect c s).overHttp conf k := by
  unfold stepSelect
  simp only [apply_ite (Srv.overHttp conf k)]
  rfl

/-- A field of the connection is watched alike on both ports. -/
theorem setReadField_overHttp (conf : Conf) (k : ℕ) (s : Srv) (f : Option ℕ) :
    (s.overHttp conf k).setReadField f = (s.setReadField f).overHttp conf k := by
  cases f <;> rfl

/-- The streaming to the CGI works alike on both ports. -/
theorem stepStream_overHttp (e : Env) (c : Conn) (s : Srv) :
    stepStream e (c.overHttp conf k) (s.overHttp conf k) =
      pairOverHttp conf k (stepStream e c s) := by
  unfold stepStream
  rw [cnStreamToCgi_overHttp]
  rcases cnStreamToCgi e lisoConnErr c s with ⟨c', s'⟩
  have hset := setReadField_overHttp conf k
    { s' with fds := closePipe c'.cgi.srv_out s'.fds } c'.cgi.srv_in
  simp only [apply_ite (pairOverHttp conf k)]
  simp only [pairOverHttp, ← hset]
  rfl

/-- The section `stream from cgi` works alike on both ports. -/
theorem stepFromCgi_overHttp (e : Env) (c : Conn) (s : Srv) :
    stepFromCgi e (c.overHttp conf k) (s.overHttp conf k) =
      pairOverHttp conf k (stepFromCgi e c s) := by
  have hcgi : (c.overHttp conf k).cgi = c.cgi := rfl
  have hact : ∀ d, ((s.overHttp conf k).probe d).act d = ((s.probe d).act d).overHttp conf k :=
    fun _ => rfl
  unfold stepFromCgi
  rw [hcgi]
  cases c.cgi.srv_in with
  | none => rfl
  | some d =>
    dsimp only
    by_cases h0 : d = 0
    · rw [if_pos h0, if_pos h0]
      rfl
    rw [if_neg h0, if_neg h0, hact, cnStreamFromCgi_overHttp]
    rcases cnStreamFromCgi e lisoConnErr c ((s.probe d).act d) with ⟨c', s'⟩
    have hdrop := dropPipe_overHttp conf k
      (if c'.cgi.buf_phase = .send then s'.setWrite c'.fd else s') c'.cgi.srv_in
    simp only [apply_ite (pairOverHttp conf k)]
    simp only [pairOverHttp, ← hdrop, apply_ite (Srv.overHttp conf k)]
    rfl

/-- The sending of a CGI's output works alike on both ports. -/
theorem stepToClient_overHttp (e : Env) (c : Conn) (s : Srv) :
    stepToClient e (c.overHttp conf k) (s.overHttp conf k) =
      (stepToClient e c s).overHttp conf k := by
  unfold stepToClient
  have hact : ((s.overHttp conf k).probe (c.overHttp conf k).fd).act (c.overHttp conf k).fd =
    ((s.probe c.fd).act c.fd).overHttp conf k := rfl
  dsimp only
  rw [hact, cnServeDynamic_overHttp, apply_ite (Ret.overHttp conf k), ← Ret.andThen_overHttp]
  · rfl
  · intro c s _ _
    rw [apply_ite (Ret.overHttp conf k)]
    rfl

/-- The section `serve` of a dynamic request works alike on both ports. -/
theorem stepDynamic_overHttp (e : Env) (c : Conn) (s : Srv) :
    stepDynamic e (c.overHttp conf k) (s.overHttp conf k) =
      (stepDynamic e c s).overHttp conf k := by
  unfold stepDynamic
  rw [stepFromCgi_overHttp]
  rcases stepFromCgi e c s with ⟨c', s'⟩
  dsimp only [pairOverHttp]
  rw [stepToClient_overHttp, apply_ite (Ret.overHttp conf k)]
  rfl

/-- The last section works alike on both ports. -/
theorem stepStatic_overHttp (e : Env) (c : Conn) (s : Srv) :
    stepStatic conf e (c.overHttp conf k) (s.overHttp conf k) =
      (stepStatic conf e c s).overHttp conf k := by
  unfold stepStatic
  rw [apply_ite (Ret.overHttp conf k), ← cnServeStatic_overHttp]
  rfl

/-- The sections between the receipt and the serving work alike on both ports. -/
theorem stepMiddle_overHttp (e : Env) (c : Conn) (s : Srv) :
    stepMiddle conf e (c.overHttp conf k) (s.overHttp conf k) =
      pairOverHttp conf k (stepMiddle conf e c s) := by
  unfold stepMiddle
  rw [stepLogerr_overHttp]
  dsimp only
  rw [stepPrepare_overHttp]
  rcases stepPrepare conf e c (stepLogerr c s) with ⟨c1, s1⟩
  dsimp only [pairOverHttp]
  rw [stepInitCgi_overHttp]
  rcases stepInitCgi e c1 s1 with ⟨c2, s2⟩
  dsimp only [pairOverHttp]
  rw [stepSelect_overHttp, stepStream_overHttp]
  rfl

/-- A visit is alike on both ports, once the handshake is over. -/
theorem visit_overHttp (conf : Conf) (h : c.wire.id = k → c.ssl = true → c.ssl_accepted = true)
    (e : Env) (s : Srv) :
    visit conf e (c.overHttp conf k) (s.overHttp conf k) = (visit conf e c s).overHttp conf k := by
  unfold visit
  rw [stepRecv_overHttp h]
  refine Ret.andThen_overHttp _ fun c1 s1 _ _ => ?_
  rw [stepMiddle_overHttp]
  rcases stepMiddle conf e c1 s1 with ⟨c2, s2⟩
  dsimp only [pairOverHttp]
  rw [stepDynamic_overHttp]
  exact Ret.andThen_overHttp _ fun c3 s3 _ _ => stepStatic_overHttp e c3 s3

end Handlers

/-! ## The main loop -/

/-- The main loop in which the connection with the number `k` is one on the HTTP port. -/
def Loop.overHttp (conf : Conf) (k : ℕ) (l : Loop) : Loop := ⟨l.srv.overHttp conf k, l.pc⟩

/-- The other connections stay as they are. -/
theorem Conn.overHttp_other (conf : Conf) {c : Conn} (h : c.wire.id ≠ k) :
    c.overHttp conf k = c := by
  have hne : (c.wire.id != k) = true := by simpa using h
  have heq : (c.wire.id == k) = false := by simpa using h
  simp [Conn.overHttp, Req.overHttp, hne, heq]

/-- `pl_add_conn` of another connection works alike. -/
theorem plAddConn_overHttp {c : Conn} (h : c.wire.id ≠ k) (s : Srv) :
    plAddConn (s.overHttp conf k) c =
      ((plAddConn s c).1, (plAddConn s c).2.overHttp conf k) := by
  have hlen : (s.overHttp conf k).pool.conns.length = s.pool.conns.length := List.length_map _
  unfold plAddConn
  rw [hlen]
  by_cases hfull : MAX_CONNS ≤ s.pool.conns.length
  · rw [if_pos hfull, if_pos hfull]
  · rw [if_neg hfull, if_neg hfull]
    have hnew := Conn.overHttp_other conf (c := { c with idx := s.pool.conns.length }) h
    have hconns : s.pool.conns.map (Conn.overHttp conf k) ++
        [{ c with idx := (s.pool.conns.map (Conn.overHttp conf k)).length }] =
        (s.pool.conns ++ [{ c with idx := s.pool.conns.length }]).map (Conn.overHttp conf k) := by
      rw [List.map_append, List.map_singleton, hnew, List.length_map]
    exact congrArg (fun l => ((1 : ℤ), { s.setRead c.fd with
      pool := { (s.setRead c.fd).pool with conns := l } })) hconns

/-- Once the connection was accepted, `liso_accept_conn` works alike. -/
theorem lisoAcceptConn_overHttp (a : Accept) (ssl : Bool) {s : Srv} (h : k < s.accepted) :
    lisoAcceptConn conf a ssl (s.overHttp conf k) =
      (lisoAcceptConn conf a ssl s).overHttp conf k := by
  have hlen : (s.overHttp conf k).pool.conns.length = s.pool.conns.length := List.length_map _
  have hfds : (s.overHttp conf k).fds = s.fds := rfl
  -- The new connection has another number.
  have hadd : ∀ (t : Table) (c : Conn), c.wire.id = s.accepted →
      { (plAddConn { s.overHttp conf k with fds := t } c).2 with accepted := s.accepted + 1 } =
        ({ (plAddConn { s with fds := t } c).2 with accepted := s.accepted + 1 } : Srv).overHttp
          conf k := fun t c hc =>
    congrArg (fun p : ℤ × Srv => { p.2 with accepted := s.accepted + 1 })
      (plAddConn_overHttp (by omega) { s with fds := t })
  unfold lisoAcceptConn
  rw [hfds]
  by_cases hok : (!a.ok) = true
  · rw [if_pos hok, if_pos hok]
  rw [if_neg hok, if_neg hok]
  rcases s.fds.alloc a.pick with ⟨fd, t⟩
  dsimp only
  rw [hlen]
  by_cases hbig : FD_SETSIZE ≤ fd
  · rw [if_pos hbig, if_pos hbig]
    rfl
  rw [if_neg hbig, if_neg hbig]
  by_cases hfull : s.pool.conns.length = MAX_CONNS
  · rw [if_pos hfull, if_pos hfull]
    rfl
  rw [if_neg hfull, if_neg hfull]
  cases ssl with
  | false => exact hadd t _ rfl
  | true =>
    rw [if_pos rfl, if_pos rfl]
    by_cases hssl : (a.ssl_new && a.ssl_set_fd) = true
    · rw [if_pos hssl, if_pos hssl]
      exact hadd t _ rfl
    · rw [if_neg hssl, if_neg hssl]
      rfl

/-- The inner loop goes on alike. -/
theorem afterVisit_overHttp (i m : ℕ) (r : Ret) :
    afterVisit i m (r.overHttp conf k) = (afterVisit i m r).overHttp conf k := by
  unfold afterVisit
  have hrc : (r.overHttp conf k).rc = r.rc := rfl
  rw [hrc]
  by_cases h : r.rc < 0
  · rw [if_pos h, if_pos h]
    rfl
  · rw [if_neg h, if_neg h]
    rcases r with ⟨rc, _ | c, s⟩
    · rfl
    · have hset : (s.pool.conns.map (Conn.overHttp conf k)).set i (c.overHttp conf k) =
        (s.pool.conns.set i c).map (Conn.overHttp conf k) := List.map_set.symm
      exact congrArg
        (fun l => (⟨{ s with pool := { s.pool with conns := l } },
          .serve (i + 1) (maintainMaxFd m c)⟩ : Loop)) hset

/-- A step of the main loop is alike on both ports, once the handshake of the connection is over. -/
theorem step_overHttp {l : Loop} (hk : k < l.srv.accepted)
    (hsec : ∀ c ∈ l.srv.pool.conns, c.wire.id = k → c.ssl = true → c.ssl_accepted = true)
    (ev : Ev) :
    step conf (l.overHttp conf k) ev = (step conf l ev).overHttp conf k := by
  have haccept : ∀ (d : ℕ) (ssl : Bool), (if ((l.srv.overHttp conf k).probe d).readReady d then
      lisoAcceptConn conf ev.acc ssl ((l.srv.overHttp conf k).probe d)
      else (l.srv.overHttp conf k).probe d) =
    (if (l.srv.probe d).readReady d then lisoAcceptConn conf ev.acc ssl (l.srv.probe d)
      else l.srv.probe d).overHttp conf k := by
    intro d ssl
    have hprobe : (l.srv.overHttp conf k).probe d = (l.srv.probe d).overHttp conf k := rfl
    rw [hprobe, lisoAcceptConn_overHttp ev.acc ssl (s := l.srv.probe d) hk,
      apply_ite (Srv.overHttp conf k)]
    rfl
  unfold step
  have hpc : (l.overHttp conf k).pc = l.pc := rfl
  rw [hpc]
  cases l.pc with
  | select => cases ev.ready <;> rfl
  | accept => exact congrArg (Loop.mk · .accept_ssl) (haccept conf.sock false)
  | accept_ssl =>
    exact congrArg (Loop.mk · (.serve 0 l.srv.pool.min_max_fd)) (haccept conf.ssl_sock true)
  | serve i m =>
    have hget : (l.overHttp conf k).srv.pool.conns[i]? =
      l.srv.pool.conns[i]?.map (Conn.overHttp conf k) := List.getElem?_map
    dsimp only
    rw [hget]
    cases hc : l.srv.pool.conns[i]? with
    | none => rfl
    | some c =>
      have hvisit := visit_overHttp conf (hsec c (List.mem_of_getElem? hc)) ev.env l.srv
      dsimp only [Option.map_some]
      rw [← afterVisit_overHttp, ← hvisit]
      rfl

end Liso
