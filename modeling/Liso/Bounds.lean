import Liso.Loop.Calls
import Liso.Loop.Sample

/-!
# The bounds of the buffers

`recv`, `read`, `send`, `write`, `memcpy`, and the writing of a header are given ranges of
`conn->buf`, of `last_buf`, and of the parser's copy of the lines. The first part of the module
lists the ranges that each handler uses, as `Span`s, in the order of the source. `Within` is what
keeps them in place: it holds at every point of a visit, and `buffers_hold` says that every range
used in every visit lies inside its buffer, in the runs in which the hosts fit. A host that does not
can make the size of the body negative while its request is parsed (`buffers_overrun`).

Two things come from outside: `st_size` is an `off_t` (`Fs.Sized`), and `strftime` returns a string
that fits the array it is given (`TimesFit`).
-/

namespace Liso

variable {conf : Conf} {l : Loop} {c c' : Conn} {s s' : Srv} {e : Env} {W : Prop} {A : Set ℕ}

/-! ## The ranges -/

/-- A range of bytes that a call is given. -/
structure Span where
  /-- The buffer, as it is right before the call. -/
  buf : Buf
  /-- The start, as an offset from `data`. -/
  off : ℤ
  /-- The size. -/
  len : ℤ
  /-- The buffer is `conn->buf`, and the range was computed from its `data_p` and `sz`. -/
  taken : Bool

/-- A range inside the `BUFSZ + 1` bytes of its buffer; `data_p` and `sz` are in order if it was
computed from them. -/
structure Span.Fits (r : Span) : Prop where
  /-- It does not begin in front of the buffer. -/
  off : 0 ≤ r.off
  /-- Its size is not negative. -/
  len : 0 ≤ r.len
  /-- It does not end behind the buffer. -/
  fin : r.off + r.len ≤ BUFSZ + 1
  /-- The cursor and the size. -/
  taken : r.taken = true → (r.buf.data_p : ℤ) ≤ r.buf.sz ∧ r.buf.sz ≤ BUFSZ

/-- `Span.Fits` is decidable. -/
instance (r : Span) : Decidable r.Fits :=
  decidable_of_iff (0 ≤ r.off ∧ 0 ≤ r.len ∧ r.off + r.len ≤ BUFSZ + 1 ∧
      (r.taken = true → (r.buf.data_p : ℤ) ≤ r.buf.sz ∧ r.buf.sz ≤ BUFSZ))
    ⟨fun h => ⟨h.1, h.2.1, h.2.2.1, h.2.2.2⟩, fun h => ⟨h.off, h.len, h.fin, h.taken⟩⟩

/-- `recv_ignore`: the whole buffer. -/
def recvIgnoreSpans (c : Conn) : List Span := [⟨c.buf, 0, BUFSZ, false⟩]

/-- `cn_parse_req`, first part: the copy of the complete lines. -/
def cnParseLinesSpans (c : Conn) (last_recv_end : ℕ) : List Span :=
  if c.req.phase = .start ∨ c.req.phase = .header then
    match scanLines (c.buf.data.drop last_recv_end) last_recv_end none with
    | none => []
    | some q =>
      if q ≤ c.buf.data_p then []
      else [⟨c.buf, c.buf.data_p, q - c.buf.data_p, true⟩, ⟨bufNew, 0, q - c.buf.data_p, false⟩]
  else []

/-- `cn_parse_req`, second part: the copy of what follows the body to `last_buf`. -/
def cnCountBodySpans (c : Conn) : List Span :=
  if c.req.phase = .body ∧ c.left < 0 then
    [⟨c.buf, c.buf.sz - -c.left, -c.left, true⟩, ⟨bufReset c.req.last_buf, 0, -c.left, false⟩]
  else []

/-- `cn_parse_req`. -/
def cnParseReqSpans (e : Env) (c : Conn) (last_recv_end : ℕ) (s : Srv) : List Span :=
  cnParseLinesSpans c last_recv_end ++
    match cnParseLines e lisoConnErr c last_recv_end s with
    | (true, _, _) => []
    | (false, c, _) => cnCountBodySpans c

/-- `cn_recv`: the free space of the buffer, and what parsing uses. -/
def cnRecvSpans (e : Env) (c : Conn) (s : Srv) : List Span :=
  if c.ssl && !c.ssl_accepted then []
  else if c.req.phase = .abort then recvIgnoreSpans c
  else
    let rsize := BUFSZ - c.buf.sz
    if rsize ≤ 0 then recvIgnoreSpans c
    else
      ⟨c.buf, c.buf.sz, rsize, true⟩ :: match e.recv.map (·.take rsize.toNat) with
        | none => []
        | some data =>
          if data = [] then [] else cnParseReqSpans e (c.received data) c.buf.data.length s

/-- `cn_prepare_static_header`: the header with its terminator. -/
def cnPrepareStaticHeaderSpans (conf : Conf) (e : Env) (c : Conn) (s : Srv) : List Span :=
  let (built, resp, _) := respBuild e.fs e.pick c.resp c.req conf s.fds
  if built = 0 then []
  else [⟨bufReset c.buf, 0, (respHdr { resp with phase := .header } conf e.time).length + 1, false⟩]

/-- `liso_reset_or_close`: the copy of `last_buf`, and what parsing uses. -/
def lisoResetOrCloseSpans (e : Env) (c : Conn) (s : Srv) : List Span :=
  if c.req.alive then
    let (c, s) := plResetConn s c.archive
    if c.req.last_buf.sz ≠ 0 then
      [⟨c.req.last_buf, 0, c.req.last_buf.sz, false⟩, ⟨c.buf, 0, c.req.last_buf.sz, false⟩] ++
        cnParseReqSpans e c.handed 0 s
    else []
  else []

/-- `cn_send_error_page`: the header with its terminator, the text behind it, and the send of
both. -/
def cnSendErrorPageSpans (conf : Conf) (e : Env) (c : Conn) : List Span :=
  let msg := respMsg c.resp.status
  let hdr := respHdr { c.resp with alive := c.req.alive, clen := msg.length } conf e.time_err
  let buf : Buf := { bufReset c.buf with data := hdr }
  let page : Buf := { bufReset c.buf with data := hdr ++ msg }
  [⟨bufReset c.buf, 0, hdr.length + 1, false⟩, ⟨buf, buf.sz, msg.length, true⟩,
    ⟨page, page.data_p, page.rsize, true⟩]

/-- `cn_serve_static`: an error page, or the send of a header, and what the success callback uses.
The body is sent from the file. -/
def cnServeStaticSpans (conf : Conf) (e : Env) (c : Conn) (s : Srv) : List Span :=
  (match c.resp.phase with
    | .abort => cnSendErrorPageSpans conf e c
    | .header => [⟨c.buf, c.buf.data_p, c.buf.rsize, true⟩]
    | .body => []
    | .ready => []
    | .disabled => []) ++
  (cnServeStatic conf e noteEnd noteFail c s).ended.toList.flatMap fun p =>
    lisoResetOrCloseSpans e p.1 p.2

/-- The writes of `cn_stream_to_cgi`. Every one starts at `data_p`. -/
def writeSpans (buf : Buf) (results : ℕ → ℤ) : ℕ → ℕ → ℤ → List Span
  | 0, _, _ => []
  | n + 1, k, rsize =>
    if rsize ≤ 0 then []
    else
      let sz := min (results k) rsize
      ⟨buf, buf.data_p, rsize, true⟩ :: if sz ≤ 0 then [] else writeSpans buf results n (k + 1)
        (rsize - sz)

/-- `cn_stream_to_cgi`. -/
def cnStreamToCgiSpans (e : Env) (c : Conn) : List Span :=
  writeSpans c.buf e.write c.buf.rsize.toNat 0 c.buf.rsize

/-- `cn_stream_from_cgi`: the whole buffer. -/
def cnStreamFromCgiSpans (c : Conn) : List Span := [⟨c.buf, 0, BUFSZ, false⟩]

/-- `cn_serve_dynamic`: what the success callback uses, or the send. -/
def cnServeDynamicSpans (e : Env) (c : Conn) (s : Srv) : List Span :=
  if c.buf.rsize = 0 ∧ c.cgi.phase = .done then lisoResetOrCloseSpans e c s
  else [⟨c.buf, c.buf.data_p, c.buf.rsize, true⟩]

/-! ## The ranges of a visit -/

/-- The section `recv`. -/
def stepRecvSpans (e : Env) (c : Conn) (s : Srv) : List Span :=
  if s.readReady c.fd then cnRecvSpans e c s else []

/-- The transitions and the streaming to the CGI. -/
def stepMiddleSpans (conf : Conf) (e : Env) (c : Conn) (s : Srv) : List Span :=
  let s := stepLogerr c s
  (if c.req.type = .static ∧ c.req.phase = .done ∧ c.resp.phase = .ready then
    cnPrepareStaticHeaderSpans conf e c s else []) ++
  let (c, s) := stepPrepare conf e c s
  let (c, _) := stepInitCgi e c s
  if c.req.type = .dynamic ∧ c.cgi.phase = .srvToCgi then cnStreamToCgiSpans e c else []

/-- The section `stream from cgi`. -/
def stepFromCgiSpans (c : Conn) (s : Srv) : List Span :=
  match c.cgi.srv_in with
  | none => []
  | some d =>
    if d = 0 then []
    else if s.readReady d ∧ c.cgi.phase = .cgiToSrv ∧
      c.cgi.buf_phase = .recv then cnStreamFromCgiSpans c
    else []

/-- The sending of a CGI's output. -/
def stepToClientSpans (e : Env) (c : Conn) (s : Srv) : List Span :=
  if s.writeReady c.fd ∧ c.cgi.buf_phase = .send then cnServeDynamicSpans e c s else []

/-- The last section. -/
def stepStaticSpans (conf : Conf) (e : Env) (c : Conn) (s : Srv) : List Span :=
  if s.writeReady c.fd ∧ c.resp.phase ≠ .disabled then cnServeStaticSpans conf e c s else []

/-- Every range that a visit uses. -/
def visitSpans (conf : Conf) (e : Env) (c : Conn) (s : Srv) : List Span :=
  stepRecvSpans e c s ++
  ((afterRecv e c s).toList.flatMap fun p => stepMiddleSpans conf e p.1 p.2) ++
  (((afterMiddle conf e c s).filter fun p => p.1.req.type = .dynamic).toList.flatMap fun p =>
    stepFromCgiSpans p.1 p.2) ++
  ((beforeSend conf e c s).toList.flatMap fun p => stepToClientSpans e p.1 p.2) ++
  ((beforeStatic conf e c s).toList.flatMap fun p => stepStaticSpans conf e p.1 p.2)

/-! ## The length of a header -/

/-- `DATESZ`. -/
def DATESZ : ℕ := 64

/-- What `strftime` prints fits the array with its terminator. -/
def TimesFit (conf : Conf) : Prop := ∀ t, (conf.strftime t).length < DATESZ

/-- `st_size` is an `off_t`. -/
def Fs.Sized (fs : Fs) : Prop := ∀ path, ∀ st ∈ fs.stat path, st.size < 2 ^ 63

/-- The bytes that the fields of a response beyond those that every response has make up. -/
def Resp.fields (resp : Resp) : List Byte := resp.hdrs.flatMap fun h => hdrLine h.key h.val

/-- A printed number of 64 bits. -/
theorem dec_length {n : ℤ} (h : n.natAbs < 2 ^ 63) : (dec n).length ≤ 20 := by
  have hdigits := Nat.toDigits_length 10 n.natAbs 19 (by norm_num) (lt_trans h (by norm_num))
  have hsign : (if n < 0 then str "-" else []).length ≤ 1 := by
    split <;> decide
  unfold dec
  rw [List.length_append, List.length_map]
  omega

/-- The longest title has 25 bytes. -/
theorem respTitle_length (code : ℤ) : (respTitle code).length ≤ 25 := by
  unfold respTitle
  split_ifs <;> simp [str]

/-- No message is longer than the array for it. -/
theorem respMsg_length (code : ℤ) : (respMsg code).length ≤ 256 := by
  unfold respMsg
  split_ifs <;> decide +kernel

/-- The longest type has 22 bytes. -/
theorem fillCtype_length (path : List Byte) : (fillCtype path).length ≤ 22 := by
  unfold fillCtype
  split_ifs <;> simp [str]

/-- The line `key: val` has four bytes more than the key and the value. -/
theorem hdrLine_length (key val : List Byte) :
    (hdrLine key val).length = key.length + val.length + 4 := by
  have h : (str ": ").length = 2 ∧ (str "\r\n").length = 2 := by simp [str]
  simp only [hdrLine, List.length_append, h]
  omega

/-- A header is not longer than its fields and 256 bytes. -/
theorem respHdr_length (hconf : TimesFit conf) (resp : Resp) (t : ℤ)
    (h : resp.clen.natAbs < 2 ^ 63) :
    (respHdr resp conf t).length ≤ 256 + resp.fields.length := by
  have hdate := hconf t
  have htitle := respTitle_length resp.status
  have hdec := dec_length h
  have halive : (if resp.alive then str "keep-alive" else str "close").length ≤ 10 := by
    split <;> simp [str]
  have hlit : (str "HTTP/1.1 ").length = 9 ∧ (str "\r\n").length = 2 ∧ (str "Date").length = 4 ∧
      (str "Server").length = 6 ∧ VERSION.length = 8 ∧ (str "Connection").length = 10 ∧
      (str "Content-Length").length = 14 := by simp [VERSION, str]
  unfold DATESZ at hdate
  unfold respHdr Resp.fields
  simp only [List.length_append, hdrLine_length, hlit]
  omega

/-- The bytes that the two fields of a file make up. -/
theorem fields_length (hconf : TimesFit conf) (path : List Byte) (t : ℤ) :
    (hdrLine (str "Last-Modified") (conf.strftime t) ++
      hdrLine (str "Content-Type") (fillCtype path)).length ≤ 128 := by
  have hdate := hconf t
  have htype := fillCtype_length path
  have hlit : (str "Last-Modified").length = 13 ∧ (str "Content-Type").length = 12 := by simp [str]
  unfold DATESZ at hdate
  simp only [List.length_append, hdrLine_length, hlit]
  omega

/-- What `resp_mmap` makes of a response. -/
theorem respMmap_resp (fs : Fs) (pick : Handles.Picker) (resp : Resp) (path : List Byte)
    (t : Handles.Table) :
    (∃ m, (respMmap fs pick resp path t).2.1 = { resp with mmbuf := m }) ∧
      ∀ st ∈ (respMmap fs pick resp path t).1, fs.stat path = some st := by
  unfold respMmap
  cases hst : fs.stat path with
  | none => exact ⟨⟨resp.mmbuf, rfl⟩, by simp⟩
  | some st =>
    dsimp only
    split_ifs
    · exact ⟨⟨resp.mmbuf, rfl⟩, by simp⟩
    · exact ⟨⟨resp.mmbuf, rfl⟩, by simp⟩
    · exact ⟨⟨_, rfl⟩, by simp⟩
    · exact ⟨⟨_, rfl⟩, by simp⟩

/-- The search for a file changes `mmbuf` alone, and the size that it gives is that of the file it
found. -/
theorem respTry_resp (fs : Fs) (pick : Handles.Picker) (resp : Resp) (paths : List (List Byte))
    (t : Handles.Table) :
    (∃ m, (respTry fs pick resp paths t).2.1 = { resp with mmbuf := m }) ∧
      ∀ x ∈ (respTry fs pick resp paths t).1, fs.stat x.2 = some x.1 := by
  induction paths generalizing resp t with
  | nil => exact ⟨⟨resp.mmbuf, rfl⟩, by simp [respTry]⟩
  | cons path paths ih =>
    have hone := respMmap_resp fs pick resp path t
    unfold respTry
    rcases hout : respMmap fs pick resp path t with ⟨st, resp', t'⟩
    rw [hout] at hone
    obtain ⟨⟨m, rfl⟩, hst⟩ := hone
    cases st with
    | none => exact ih _ _
    | some st => exact ⟨⟨m, rfl⟩, by simpa using hst⟩

/-- What `resp_build` makes of a response without fields: a file's size is a number of 64 bits, and
the fields are short. -/
theorem respBuild_fields (hconf : TimesFit conf) {fs : Fs} (hfs : fs.Sized)
    (pick : Handles.Picker) {resp : Resp} (req : Req) (t : Handles.Table) (hresp : resp.hdrs = []) :
    (respBuild fs pick resp req conf t).2.1.fields.length ≤ 128 ∧
      ((respBuild fs pick resp req conf t).1 ≠ 0 →
        (respBuild fs pick resp req conf t).2.1.clen.natAbs < 2 ^ 63) := by
  have htry := respTry_resp fs pick { resp with alive := req.alive } (respPaths req conf) t
  unfold respBuild
  dsimp only
  rcases hout : respTry fs pick { resp with alive := req.alive } (respPaths req conf)
    t with ⟨found, resp', t'⟩
  rw [hout] at htry
  obtain ⟨⟨m, rfl⟩, hst⟩ := htry
  cases found with
  | none => exact ⟨by simp [Resp.fields, hresp], fun h => absurd rfl h⟩
  | some x =>
    have hsize := hfs _ _ (hst x rfl)
    dsimp only
    split
    · refine ⟨?_, fun _ => by simpa using hsize⟩
      have hlen := fields_length hconf x.2 x.1.mtime
      simpa [Resp.fields, hresp, hdrInsert] using hlen
    · exact ⟨by simp [Resp.fields, hresp], fun _ => by simpa using hsize⟩

/-! ## What keeps the ranges in place -/

/-- The sizes and the cursor of a connection's buffers. -/
structure Within (c : Conn) : Prop where
  /-- The buffer is not too long. -/
  size : c.buf.data.length ≤ BUFSZ
  /-- The cursor is inside it. -/
  cursor : c.buf.data_p ≤ c.buf.data.length
  /-- Only a failed read of a CGI's output leaves `-1` in `sz`. -/
  good : c.buf.bad = true → c.req.phase = .abort ∧ c.cgi.phase = .abort
  /-- `last_buf`. -/
  last : c.req.last_buf.data.length ≤ BUFSZ ∧ c.req.last_buf.bad = false
  /-- The number of bytes of the body that are to come. -/
  body : c.req.Counts
  /-- A CGI's output is read to the start of the buffer. -/
  relay : c.cgi.phase = .cgiToSrv → c.buf.data_p = 0
  /-- A response that is not built has no fields. -/
  ready : c.resp.phase = .ready → c.resp.hdrs = []
  /-- The fields of a response are short. -/
  fields : c.resp.fields.length ≤ 128

/-- A buffer whose bytes lie in order. -/
theorem Buf.sz_eq {b : Buf} (hb : b.bad = false) : b.sz = b.data.length := by simp [Buf.sz, hb]

/-- The connection's buffer is good unless the request failed. -/
theorem Within.buf_good (h : Within c) (hp : c.req.phase ≠ .abort) : c.buf.bad = false := by
  cases hb : c.buf.bad with
  | false => rfl
  | true => exact absurd (h.good hb).1 hp

/-- The range from the cursor to the end of the buffer, or a part of it. -/
theorem Within.span (h : Within c) (hb : c.buf.bad = false) {off len : ℤ} (ho : 0 ≤ off)
    (hl : 0 ≤ len) (hfin : off + len ≤ BUFSZ + 1) : (⟨c.buf, off, len, true⟩ : Span).Fits := by
  refine ⟨ho, hl, hfin, fun _ => ?_⟩
  have hsz := Buf.sz_eq hb
  have hsize := h.size
  have hcursor := h.cursor
  dsimp only
  omega

/-- What is behind the cursor lies inside the buffer. -/
theorem Within.rest_span (h : Within c) (hb : c.buf.bad = false) :
    (⟨c.buf, c.buf.data_p, c.buf.rsize, true⟩ : Span).Fits := by
  have hsz := Buf.sz_eq hb
  have hsize := h.size
  have hcursor := h.cursor
  refine h.span hb (by omega) ?_ ?_ <;> rw [Buf.rsize] <;> omega

/-- The range of the whole buffer fits. -/
theorem whole_span (b : Buf) : (⟨b, 0, BUFSZ, false⟩ : Span).Fits :=
  ⟨le_rfl, by simp, by simp, fun h => by simp at h⟩

/-- A range at the start of some buffer. -/
theorem start_span (b : Buf) {len : ℤ} (h : 0 ≤ len) (hle : len ≤ BUFSZ + 1) :
    (⟨b, 0, len, false⟩ : Span).Fits :=
  ⟨le_rfl, h, by simpa using hle, fun h => by simp at h⟩

/-! ## Parsing -/

/-- The scan finds a position in the bytes that it looks at. -/
theorem scanLines_le {bs : List Byte} {p r : ℕ} {q : Option ℕ} (h : scanLines bs p q = some r)
    (hq : ∀ x ∈ q, x ≤ p) : r ≤ p + bs.length := by
  induction bs generalizing p q with
  | nil =>
    have hr := hq r h
    simpa using hr
  | cons b bs ih =>
    have hrest := ih (p := p + 1) h fun x hx => by
      split at hx
      · have : p + 1 = x := by simpa using hx
        omega
      · exact le_trans (hq x hx) (Nat.le_succ p)
    rw [List.length_cons]
    omega

/-- The complete lines end inside the buffer. -/
theorem lines_le {c : Conn} {n q : ℕ} (hn : n ≤ c.buf.data.length)
    (h : scanLines (c.buf.data.drop n) n none = some q) : q ≤ c.buf.data.length := by
  have := scanLines_le h (by simp)
  rw [List.length_drop] at this
  omega

/-- Counting the body copies what lies behind it. -/
theorem cnCountBody_spans (h : Within c) (hb : c.buf.bad = false) :
    ∀ r ∈ cnCountBodySpans c, r.Fits := by
  unfold cnCountBodySpans
  split
  case isFalse => simp
  rename_i hcond
  obtain ⟨hp, hleft⟩ := hcond
  have hrsize := h.body hp
  have hsz := Buf.sz_eq hb
  have hsize := h.size
  have hcursor := h.cursor
  have heq : c.left = c.req.rsize - (c.buf.sz - c.buf.data_p) := rfl
  intro r hr
  rcases List.mem_pair.1 hr with rfl | rfl
  · exact h.span hb (by omega) (by omega) (by omega)
  · exact start_span _ (by omega) (by omega)

/-- Counting the body keeps the buffers in order. -/
theorem cnCountBody_within (h : Within c) (hb : c.buf.bad = false) : Within (cnCountBody c) := by
  by_cases hp : c.req.phase = .body
  case neg => rw [cnCountBody_other hp]; exact h
  have hsz := Buf.sz_eq hb
  have hsize := h.size
  have hcursor := h.cursor
  have hrsize := h.body hp
  have heq : c.left = c.req.rsize - (c.buf.sz - c.buf.data_p) := rfl
  -- What is behind the body is a part of the buffer.
  have hlast : c.counted.last_buf.data.length ≤ BUFSZ ∧ c.counted.last_buf.bad = false := by
    unfold Conn.counted
    dsimp only
    split
    · refine ⟨?_, rfl⟩
      rw [List.length_drop]
      omega
    · exact h.last
  -- A body that is not complete has bytes left.
  have hbody : c.counted.Counts := by
    intro hphase
    show 0 ≤ c.left
    by_contra hneg
    have : c.counted.phase = .done := if_pos (by omega)
    simp [this] at hphase
  cases ht : c.req.type with
  | static =>
    rw [cnCountBody_static hp ht]
    exact ⟨Nat.zero_le _, le_rfl, fun h => by simp [bufReset] at h, hlast,
      hbody, fun h => by simp at h,
      h.ready, h.fields⟩
  | dynamic =>
    rw [cnCountBody_dynamic hp ht]
    refine ⟨?_, ?_, fun hbad => ?_, hlast, hbody, fun hg => ?_, fun h => by simp at h, h.fields⟩
    · dsimp only
      split
      · rw [List.length_take]; omega
      · exact hsize
    · dsimp only
      split
      · have hkeep : c.keep = (c.buf.sz - -c.left).toNat := rfl
        rw [List.length_take]
        dsimp only
        omega
      · exact hcursor
    · dsimp only at hbad
      split at hbad <;> simp [hb] at hbad
    · dsimp only at hg ⊢
      have hg : c.cgi.phase = .cgiToSrv := by
        split_ifs at hg
        exact hg
      split
      · exact h.relay hg
      · exact h.relay hg

/-- A request that fails keeps its buffers within their bounds. -/
theorem lisoConnErr_within (status : ℤ) (h : Within c)
    (hg : c.buf.bad = true → c.cgi.phase = .abort) :
    Within (lisoConnErr c status s).1 :=
  ⟨h.size, h.cursor, fun hb => ⟨rfl, hg hb⟩, h.last, fun hp => by simp [lisoConnErr] at hp, h.relay,
    fun hr => by simp [lisoConnErr] at hr, h.fields⟩

/-- The connection after a chunk was parsed. -/
theorem Within.parsed (h : Within c) (hb : c.buf.bad = false) (hg : c.cgi.phase ≠ .cgiToSrv)
    {req : Req} {q : ℕ} (hq : q ≤ c.buf.data.length) (hlast : req.last_buf = c.req.last_buf)
    (hreq : req.Counts) :
    Within { c with req := req, buf := { c.buf with data_p := q } } :=
  ⟨h.size, hq, fun hbad => by simp [hb] at hbad, hlast ▸ h.last, hreq, fun hg' => absurd hg' hg,
    h.ready, h.fields⟩

/-- `cn_parse_req`, while no CGI runs or the head is complete. -/
theorem cnParseReq_within (e : Env) {n : ℕ} (s : Srv) (h : Within c) (hb : c.buf.bad = false)
    (hn : n ≤ c.buf.data.length)
    (hg : c.req.phase = .start ∨ c.req.phase = .header → c.cgi.phase ≠ .cgiToSrv) :
    Within (cnParseReq e lisoConnErr c n s).1 ∧ ∀ r ∈ cnParseReqSpans e c n s, r.Fits := by
  unfold cnParseReq cnParseReqSpans cnParseLines cnParseLinesSpans
  by_cases hp : c.req.phase = .start ∨ c.req.phase = .header
  case neg =>
    rw [if_neg hp, if_neg hp]
    exact ⟨cnCountBody_within h hb, cnCountBody_spans h hb⟩
  rw [if_pos hp, if_pos hp]
  cases hscan : scanLines (c.buf.data.drop n) n none with
  | none => exact ⟨cnCountBody_within h hb, cnCountBody_spans h hb⟩
  | some q =>
    have hq := lines_le hn hscan
    dsimp only
    by_cases hle : q ≤ c.buf.data_p
    · rw [if_pos hle, if_pos hle]
      exact ⟨cnCountBody_within h hb, cnCountBody_spans h hb⟩
    · rw [if_neg hle, if_neg hle]
      have hsize := h.size
      -- The lines are copied to the buffer of `req_parse`, which has the same size.
      have hcopy : ∀ r ∈ [(⟨c.buf, c.buf.data_p, q - c.buf.data_p, true⟩ : Span),
          ⟨bufNew, 0, q - c.buf.data_p, false⟩], r.Fits := by
        intro r hr
        rcases List.mem_pair.1 hr with rfl | rfl
        · exact h.span hb (by omega) (by omega) (by omega)
        · exact start_span _ (by omega) (by omega)
      have hbody : c.req.phase ≠ .body := by rcases hp with hp | hp <;> simp [hp]
      have hcounts := reqParse_counts e.before ((c.buf.data.take q).drop c.buf.data_p) hbody
      have hlast :=
        (reqParse_parses e.before c.req ((c.buf.data.take q).drop c.buf.data_p)).last_buf
      -- The parser consumes no more than it was given.
      have hrc : (reqParse e.before c.req ((c.buf.data.take q).drop c.buf.data_p)).1 ≤
          ((c.buf.data.take q).drop c.buf.data_p).length := reqParse_le _ _ hp
      rw [List.length_drop, List.length_take] at hrc
      generalize reqParse e.before c.req ((c.buf.data.take q).drop c.buf.data_p) =
        out at hcounts hlast hrc
      obtain ⟨rc, req⟩ := out
      dsimp only at hcounts hlast hrc ⊢
      by_cases hneg : rc < 0
      · simp only [if_pos hneg, List.append_nil]
        exact ⟨lisoConnErr_within _ (h.parsed hb (hg hp) hq hlast hcounts)
          fun hbad => by simp [hb] at hbad, hcopy⟩
      · have hw :
          Within { c with req := req, buf := { c.buf with data_p := c.buf.data_p + rc.toNat } } :=
          h.parsed hb (hg hp) (by omega) hlast hcounts
        simp only [if_neg hneg]
        refine ⟨cnCountBody_within hw hb, fun r hr => ?_⟩
        rcases List.mem_append.1 hr with hr | hr
        · exact hcopy r hr
        · exact cnCountBody_spans hw hb r hr

/-! ## The next request -/

/-- No CGI runs right after `pl_reset_conn`. -/
theorem plResetConn_idle (s : Srv) (c : Conn) : (plResetConn s c).1.cgi.phase = .idle := by
  rw [plResetConn_eq]
  rfl

/-- A connection that is reset has its buffers within their bounds. -/
theorem plResetConn_within (h : Within c) : Within (plResetConn s c).1 := by
  have hcgi := plResetConn_idle s c
  exact ⟨Nat.zero_le _, le_rfl, fun hb => by simp [plResetConn, bufReset] at hb, h.last,
    fun hp => by simp [plResetConn, reqReset] at hp, fun hg => by simp [hcgi] at hg, fun _ => rfl,
    by simp [plResetConn, respReset, Resp.fields]⟩

/-- The success callback keeps the buffers within their bounds, and copies inside of them. -/
theorem lisoResetOrClose_within (e : Env) (hidx : c.idx < s.pool.conns.length) (h : Within c) :
    (lisoResetOrClose e c s).Post (fun c' _ => Within c') (fun _ => True) ∧
      ∀ r ∈ lisoResetOrCloseSpans e c s, r.Fits := by
  have harch : Within c.archive :=
    ⟨h.size, h.cursor, h.good, h.last, h.body, h.relay, h.ready, h.fields⟩
  have hfresh : ∀ s, Within (plResetConn s c.archive).1 := fun s => plResetConn_within harch
  -- The bytes kept in `last_buf` are parsed by the connection that was reset.
  have hhanded : ∀ s, Within (plResetConn s c.archive).1.handed := by
    intro s
    have hf := hfresh s
    exact ⟨h.last.1, Nat.zero_le _, hf.good, ⟨Nat.zero_le _, rfl⟩, hf.body,
      fun _ => rfl, hf.ready, hf.fields⟩
  have hparse : ∀ s s',
      Within (cnParseReq e lisoConnErr (plResetConn s c.archive).1.handed 0 s').1 ∧
      ∀ r ∈ cnParseReqSpans e (plResetConn s c.archive).1.handed 0 s', r.Fits := fun s s' =>
    cnParseReq_within e s' (hhanded s) rfl (Nat.zero_le _) fun _ => by
      have hidle : (plResetConn s c.archive).1.handed.cgi.phase = .idle :=
        plResetConn_idle s c.archive
      simp [hidle]
  constructor
  · rcases lisoResetOrClose_cases e c s with ⟨-, he⟩ | ⟨-, -, he⟩ | ⟨-, -, he⟩ <;> rw [he]
    · exact lisoDropConn_gone (c := c) (s := s.serve c) hidx
    · exact (Ret.post_some _ _).2 (hfresh _)
    · rw [Ret.post_some, handOver_conn]
      exact (hparse _ _).1
  · unfold lisoResetOrCloseSpans
    split
    case isFalse => simp
    dsimp only
    split
    case isFalse => simp
    intro r hr
    rcases List.mem_append.1 hr with hr | hr
    · have hlast : c.req.last_buf.data.length ≤ BUFSZ ∧ c.req.last_buf.bad = false := h.last
      have hsz : c.req.last_buf.sz = c.req.last_buf.data.length := Buf.sz_eq hlast.2
      have hkept : (plResetConn s c.archive).1.req.last_buf = c.req.last_buf := rfl
      rw [hkept] at hr
      rcases List.mem_pair.1 hr with rfl | rfl
      · exact start_span _ (by omega) (by omega)
      · exact start_span _ (by omega) (by omega)
    · exact (hparse _ _).2 r hr

/-! ## Receiving -/

/-- A connection that received what its buffer has room for. -/
theorem Within.received (h : Within c) (hb : c.buf.bad = false) (data : List Byte)
    (hlen : c.buf.data.length + data.length ≤ BUFSZ) : Within (c.received data) := by
  have hcursor := h.cursor
  refine ⟨?_, ?_, fun hbad => ?_, h.last, h.body, h.relay, h.ready, h.fields⟩
  · show (c.buf.data ++ data).length ≤ BUFSZ
    rwa [List.length_append]
  · show c.buf.data_p ≤ (c.buf.data ++ data).length
    rw [List.length_append]
    omega
  · have hbad : c.buf.bad = true := hbad
    simp [hb] at hbad

/-- `recv_ignore` overwrites the buffer within its bounds, or drops the connection. -/
theorem recvIgnore_within (e : Env) (hidx : c.idx < s.pool.conns.length) (h : Within c) :
    (recvIgnore e lisoDropConn c s).Post (fun c' _ => Within c') (fun _ => True) := by
  unfold recvIgnore
  split
  · exact lisoDropConn_gone hidx
  rename_i data _
  dsimp only
  split
  · exact lisoDropConn_gone hidx
  have hlen : (data.take c.buf.data.length ++ c.buf.data.drop data.length).length =
    c.buf.data.length := by
    rw [List.length_append, List.length_take, List.length_drop]
    omega
  refine (Ret.post_some _ _).2 ⟨?_, ?_, h.good, h.last, h.body, h.relay, h.ready, h.fields⟩
  · exact hlen.le.trans h.size
  · exact h.cursor.trans hlen.ge

/-- `cn_recv` keeps the buffers within their bounds, and uses them inside of these. -/
theorem cnRecv_within (e : Env) (hidx : c.idx < s.pool.conns.length) (hs : Shape c) (h : Within c) :
    (cnRecv e lisoConnErr lisoDropConn c s).Post (fun c' _ => Within c') (fun _ => True) ∧
      ∀ r ∈ cnRecvSpans e c s, r.Fits := by
  have hignore : ∀ r ∈ recvIgnoreSpans c, r.Fits := by
    intro r hr
    rw [recvIgnoreSpans, List.mem_singleton] at hr
    exact hr ▸ whole_span _
  unfold cnRecv cnRecvSpans
  by_cases hssl : (c.ssl && !c.ssl_accepted) = true
  · rw [if_pos hssl, if_pos hssl]
    refine ⟨?_, by simp⟩
    split
    · exact lisoDropConn_gone hidx
    · split
      · exact (Ret.post_some _ _).2 h
      · exact (Ret.post_some _ _).2 ⟨h.size, h.cursor, h.good, h.last, h.body,
          h.relay, h.ready, h.fields⟩
  rw [if_neg hssl, if_neg hssl]
  by_cases hp : c.req.phase = .abort
  · rw [if_pos hp, if_pos hp]
    exact ⟨recvIgnore_within e hidx h, hignore⟩
  rw [if_neg hp, if_neg hp]
  have hb := h.buf_good hp
  have hsz := Buf.sz_eq hb
  have hsize := h.size
  dsimp only
  by_cases hfull : (BUFSZ : ℤ) - c.buf.sz ≤ 0
  · rw [if_pos hfull, if_pos hfull]
    exact ⟨recvIgnore_within e hidx (lisoConnErr_within 400 h fun hbad => by simp [hb] at hbad),
      hignore⟩
  rw [if_neg hfull, if_neg hfull]
  -- What is asked for is the room behind the data.
  have hspan : (⟨c.buf, c.buf.sz, BUFSZ - c.buf.sz, true⟩ : Span).Fits :=
    h.span hb (by omega) (by omega) (by omega)
  cases hdata : e.recv.map (·.take ((BUFSZ : ℤ) - c.buf.sz).toNat) with
  | none => exact ⟨lisoDropConn_gone hidx, by simpa using hspan⟩
  | some data =>
    have hlen : data.length ≤ ((BUFSZ : ℤ) - c.buf.sz).toNat := by
      obtain ⟨bytes, -, rfl⟩ := Option.map_eq_some_iff.1 hdata
      exact List.length_take_le _ _
    dsimp only
    by_cases hnil : data = []
    · rw [if_pos hnil, if_pos hnil]
      exact ⟨lisoDropConn_gone hidx, by simpa using hspan⟩
    rw [if_neg hnil, if_neg hnil]
    have hparse := cnParseReq_within e s (h.received hb data (by omega)) hb (n := c.buf.data.length)
      (by simp [Conn.received]) fun hhead => by
        have hhead : c.req.phase = .start ∨ c.req.phase = .header := hhead
        show c.cgi.phase ≠ .cgiToSrv
        cases hs with
        | head _ hg => simp [hg]
        | bodyStatic hp' | bodyReady hp' | bodyStream hp' | doneStatic hp' | doneReady hp'
        | doneStream hp'
        | relay hp' | relayEnd hp' | abort hp' => rcases hhead with h | h <;> simp [h] at hp'
    refine ⟨(Ret.post_some _ _).2 hparse.1, fun r hr => ?_⟩
    rcases List.mem_cons.1 hr with rfl | hr
    · exact hspan
    · exact hparse.2 r hr

/-- The section `recv` keeps the buffers within their bounds, and uses them inside of these. -/
theorem stepRecv_within (e : Env) (hidx : c.idx < s.pool.conns.length) (hs : Shape c)
    (h : Within c) :
    (stepRecv e c s).Post (fun c' _ => Within c') (fun _ => True) ∧ ∀ r ∈ stepRecvSpans e c s,
      r.Fits := by
  constructor
  · unfold stepRecv
    dsimp only
    split
    · exact (cnRecv_within (s := (s.probe c.fd).act c.fd) e hidx hs h).1
    · exact (Ret.post_some _ _).2 h
  · unfold stepRecvSpans
    split
    · exact (cnRecv_within e hidx hs h).2
    · simp

/-! ## The transitions and the streaming -/

/-- The preparation of a response keeps the buffers within their bounds, and writes a header that
fits. -/
theorem stepPrepare_within (hconf : TimesFit conf) (hfs : e.fs.Sized) (h : Within c) :
    Within (stepPrepare conf e c s).1 ∧
      ∀ r ∈ (if c.req.type = .static ∧ c.req.phase = .done ∧ c.resp.phase = .ready then
        cnPrepareStaticHeaderSpans conf e c s else []), r.Fits := by
  unfold stepPrepare
  by_cases hcond : c.req.type = .static ∧ c.req.phase = .done ∧ c.resp.phase = .ready
  case neg =>
    rw [if_neg hcond, if_neg hcond]
    exact ⟨h, by simp⟩
  rw [if_pos hcond, if_pos hcond]
  obtain ⟨ht, hp, hr⟩ := hcond
  have hb := h.buf_good (by simp [hp])
  obtain ⟨hfields, hclen⟩ := respBuild_fields hconf hfs e.pick c.req s.fds (h.ready hr)
  unfold cnPrepareStaticHeader cnPrepareStaticHeaderSpans
  generalize respBuild e.fs e.pick c.resp c.req conf s.fds = out at hfields hclen
  obtain ⟨built, resp, t⟩ := out
  dsimp only at hfields hclen ⊢
  by_cases hbuilt : built = 0
  · rw [if_pos hbuilt, if_pos hbuilt]
    exact ⟨⟨h.size, h.cursor, fun hbad => by simp [lisoConnErr, hb] at hbad, h.last,
      fun hp' => by simp [lisoConnErr] at hp', h.relay, fun hr' => by simp [lisoConnErr] at hr',
        hfields⟩, by simp⟩
  · rw [if_neg hbuilt, if_neg hbuilt]
    have hlen := respHdr_length hconf { resp with phase := .header } e.time (hclen hbuilt)
    have hfields' : ({ resp with phase := .header } : Resp).fields.length ≤ 128 := hfields
    have hsize : (respHdr { resp with phase := .header } conf e.time).length ≤ BUFSZ := by
      unfold BUFSZ
      omega
    refine ⟨⟨hsize, Nat.zero_le _, fun hbad => by simp [bufReset] at hbad,
      h.last, h.body, fun _ => rfl,
      fun hr' => by simp at hr', hfields⟩, fun r hr => ?_⟩
    rw [List.mem_singleton] at hr
    exact hr ▸ start_span _ (by omega) (by omega)

/-- The start of a CGI keeps the buffers within their bounds. -/
theorem stepInitCgi_within (e : Env) (s : Srv) (h : Within c) : Within (stepInitCgi e c s).1 := by
  have hb : c.cgi.phase = .ready → c.buf.bad = false := by
    intro hg
    cases hbad : c.buf.bad with
    | false => rfl
    | true => simp [(h.good hbad).2] at hg
  rcases stepInitCgi_cases e c s with ⟨-, he⟩ | ⟨-, hg, -, he⟩ | ⟨-, hg, -, he⟩ <;> rw [he]
  · exact h
  · exact ⟨h.size, h.cursor, fun hbad => by simp [hb hg] at hbad, h.last, h.body,
      fun hg' => by simp at hg',
      h.ready, h.fields⟩
  · exact ⟨h.size, h.cursor, fun hbad => by simp [lisoConnErr, hb hg] at hbad, h.last,
      fun hp => by simp [lisoConnErr] at hp, fun hg' => by simp [lisoConnErr] at hg',
      fun hr => by simp [lisoConnErr] at hr, h.fields⟩

/-- The writes to a CGI take their bytes from inside of the buffer. -/
theorem writeSpans_fit (results : ℕ → ℤ) (h : Within c) (hb : c.buf.bad = false) (n k : ℕ)
    {rsize : ℤ} (hle : rsize ≤ c.buf.rsize) : ∀ r ∈ writeSpans c.buf results n k rsize, r.Fits := by
  induction n generalizing k rsize with
  | zero => simp [writeSpans]
  | succ n ih =>
    unfold writeSpans
    split
    · simp
    rename_i hpos
    have hsz := Buf.sz_eq hb
    have hsize := h.size
    have hrsize : c.buf.rsize = c.buf.sz - c.buf.data_p := rfl
    have hhead : (⟨c.buf, c.buf.data_p, rsize, true⟩ : Span).Fits :=
      h.span hb (by omega) (by omega) (by omega)
    dsimp only
    intro r hr
    rcases List.mem_cons.1 hr with rfl | hr
    · exact hhead
    · split at hr
      · simp at hr
      · exact ih (k + 1) (by omega) r hr

/-- The streaming to the CGI keeps the buffers within their bounds, and takes its bytes from inside
of these. -/
theorem stepStream_within (e : Env) (s : Srv) (h : Within c) :
    Within (stepStream e c s).1 ∧
      ∀ r ∈ (if c.req.type = .dynamic ∧ c.cgi.phase = .srvToCgi then cnStreamToCgiSpans e c
        else []), r.Fits := by
  have hb : c.cgi.phase = .srvToCgi → c.buf.bad = false := by
    intro hg
    cases hbad : c.buf.bad with
    | false => rfl
    | true => simp [(h.good hbad).2] at hg
  constructor
  · have hfree : ∀ cgi : Cgi, Within { c.logIn (c.writes e).2 with buf := bufReset c.buf,
                                                                   cgi := cgi } := fun cgi =>
      ⟨Nat.zero_le _, le_rfl, fun hbad => by simp [bufReset] at hbad, h.last,
        h.body, fun _ => rfl, h.ready,
        h.fields⟩
    rcases stepStream_cases e c s with ⟨-, he⟩ | ⟨-, hg, -, he⟩ | ⟨-, -, -, -, he⟩
      | ⟨-, -, -, -, he⟩ <;> rw [he]
    · exact h
    · have hlog : Within (c.logIn (c.writes e).2) :=
        ⟨h.size, h.cursor, h.good, h.last, h.body, h.relay, h.ready, h.fields⟩
      refine lisoConnErr_within 500 hlog fun hbad => ?_
      have hbad : c.buf.bad = true := hbad
      simp [hb hg] at hbad
    · exact hfree c.cgi
    · exact hfree _
  · split
    · rename_i hcond
      exact writeSpans_fit e.write h (hb hcond.2) _ 0 le_rfl
    · simp

/-- The transitions and the streaming to the CGI. -/
theorem stepMiddle_within (hconf : TimesFit conf) (hfs : e.fs.Sized) (h : Within c) :
    Within (stepMiddle conf e c s).1 ∧ ∀ r ∈ stepMiddleSpans conf e c s, r.Fits := by
  obtain ⟨hw1, hs1⟩ := stepPrepare_within (s := stepLogerr c s) hconf hfs h
  unfold stepMiddleSpans
  rcases h1 : stepPrepare conf e c (stepLogerr c s) with ⟨c1, s1⟩
  rw [h1] at hw1
  have hw2 := stepInitCgi_within e s1 hw1
  rcases h2 : stepInitCgi e c1 s1 with ⟨c2, s2⟩
  rw [h2] at hw2
  obtain ⟨hw3, hs3⟩ := stepStream_within e (stepSelect c2 s2) hw2
  rw [stepMiddle_eq h1 h2]
  dsimp only
  rw [h1]
  dsimp only
  rw [h2]
  refine ⟨hw3, fun r hr => ?_⟩
  rcases List.mem_append.1 hr with hr | hr
  · exact hs1 r hr
  · exact hs3 r hr

/-! ## Serving -/

/-- The reading of a CGI's output keeps the buffers within their bounds, and writes inside of these.
-/
theorem stepFromCgi_within (e : Env) (h : Within c) :
    Within (stepFromCgi e c s).1 ∧ ∀ r ∈ stepFromCgiSpans c s, r.Fits := by
  constructor
  · rcases stepFromCgi_cases e c s with ⟨s', he, -⟩ | ⟨d, -, -, hg, -, hout⟩
    · rw [he]; exact h
    have hcur := h.relay hg
    rcases hout with ⟨-, he⟩ | ⟨data, hdata, -, he⟩ | ⟨-, he⟩ <;> rw [he]
    · exact ⟨Nat.zero_le _, hcur.le, fun _ => ⟨rfl, rfl⟩, h.last,
        fun hp => by simp [lisoConnErr] at hp,
        fun hg' => by simp [lisoConnErr] at hg', fun hr => by simp [lisoConnErr] at hr, h.fields⟩
    · have hlen : data.length ≤ BUFSZ := by
        obtain ⟨bytes, -, rfl⟩ := Option.map_eq_some_iff.1 hdata
        exact List.length_take_le _ _
      exact ⟨hlen, hcur.le.trans (Nat.zero_le _), fun hbad => by simp [Conn.fed] at hbad,
        h.last, h.body,
        fun _ => hcur, h.ready, h.fields⟩
    · exact ⟨Nat.zero_le _, hcur.le, fun hbad => by simp [Conn.fed] at hbad, h.last, h.body,
        fun hg' => by simp at hg', h.ready, h.fields⟩
  · unfold stepFromCgiSpans
    split
    · simp
    · split_ifs
      · simp
      · intro r hr
        rw [cnStreamFromCgiSpans, List.mem_singleton] at hr
        exact hr ▸ whole_span _
      · simp

/-- The sending of a CGI's output. -/
theorem stepToClient_within (e : Env) (h0 : 0 < c.fd) (hidx : c.idx < s.pool.conns.length)
    (hs : Shape c) (h : Within c) :
    (stepToClient e c s).Post (fun c' _ => Within c') (fun _ => True) ∧
      ∀ r ∈ stepToClientSpans e c s, r.Fits := by
  constructor
  · rcases stepToClient_cases e c s h0 with ⟨-, he⟩ | ⟨-, -, ⟨-, -, he⟩ | ⟨-, ⟨-, he⟩ | ⟨-, he⟩⟩⟩
      <;> rw [he]
    · exact (Ret.post_some _ _).2 h
    · refine (lisoResetOrClose_within (s := (s.probe c.fd).act c.fd) e hidx h).1.andThen
        fun c1 _ h1 => ?_
      split
      · exact (Ret.post_some _ _).2 h1
      · exact (Ret.post_some _ _).2 h1
    · exact lisoDropConn_gone hidx
    · exact (Ret.post_some _ _).2 ⟨h.size, h.cursor, h.good, h.last, h.body,
        h.relay, h.ready, h.fields⟩
  · unfold stepToClientSpans
    split
    case isFalse => simp
    rename_i hcond
    unfold cnServeDynamicSpans
    split
    · exact (lisoResetOrClose_within e hidx h).2
    · intro r hr
      rw [List.mem_singleton] at hr
      exact hr ▸ h.rest_span (h.buf_good (by simp [(hs.of_send hcond.2).1]))

/-- The header and the text of an error page. -/
theorem page_length (hconf : TimesFit conf) (e : Env) (h : Within c) :
    (respHdr { c.resp with alive := c.req.alive, clen := (respMsg c.resp.status).length }
      conf e.time_err).length +
      (respMsg c.resp.status).length ≤ BUFSZ := by
  have hmsg := respMsg_length c.resp.status
  have hhdr := respHdr_length hconf
    { c.resp with alive := c.req.alive, clen := (respMsg c.resp.status).length } e.time_err (by
      simp only [Int.natAbs_natCast]
      omega)
  have hfields : ({ c.resp with alive := c.req.alive, clen := (respMsg c.resp.status).length } :
    Resp).fields.length ≤
      128 := h.fields
  unfold BUFSZ
  omega

/-- The ranges of an error page. -/
theorem cnSendErrorPage_spans (hconf : TimesFit conf) (e : Env) (h : Within c) :
    ∀ r ∈ cnSendErrorPageSpans conf e c, r.Fits := by
  have hlen := page_length hconf e h
  unfold cnSendErrorPageSpans
  dsimp only
  generalize respHdr _ conf e.time_err = hdr at hlen
  generalize respMsg c.resp.status = msg at hlen
  intro r hr
  simp only [List.mem_cons, List.not_mem_nil, or_false] at hr
  rcases hr with rfl | rfl | rfl
  · exact start_span _ (by omega) (by omega)
  · refine ⟨?_, by simp, ?_, fun _ => ⟨?_, ?_⟩⟩ <;> simp [Buf.sz, bufReset] <;> omega
  · refine ⟨by simp [bufReset], ?_, ?_, fun _ => ⟨?_, ?_⟩⟩ <;> simp [Buf.rsize, Buf.sz, bufReset]
      <;> omega

/-- The sending of a static response, whatever its callbacks do. -/
theorem cnServeStatic_within {succCb fatCb : EndCb} {P : Conn → Srv → Prop}
    (hconf : TimesFit conf) (e : Env) (hs : Shape c) (h : Within c)
    (hsucc : ∀ c1, Within c1 → c1.idx = c.idx → (succCb c1 s).Post P (fun _ => True))
    (hfat : ∀ c1, c1.idx = c.idx → (fatCb c1 s).Post P (fun _ => True))
    (hstay : ∀ c1 b, Within c1 → c1.idx = c.idx → P c1 { s with bad_ptr := b }) :
    (cnServeStatic conf e succCb fatCb c s).Post P (fun _ => True) := by
  unfold cnServeStatic
  cases hr : c.resp.phase with
  | abort =>
    -- The page is built anew in the buffer, from its start.
    have hlen := page_length hconf e h
    have hg : c.cgi.phase ≠ .cgiToSrv := by
      cases hs with
      | abort _ _ _ hg => exact hg
      | head _ _ hr' | bodyStatic _ _ _ hr' | bodyReady _ _ _ hr' | bodyStream _ _ _ hr'
      | doneReady _ _ _ hr'
      | doneStream _ _ _ hr' | relay _ _ _ hr' | relayEnd _ _ _ hr' => simp [hr] at hr'
      | doneStatic _ _ _ hr' => simp [hr] at hr'
    unfold cnSendErrorPage
    dsimp only
    generalize hpage : respHdr _ conf e.time_err ++ respMsg c.resp.status = page
    have hpl : page.length ≤ BUFSZ := by
      rw [← hpage, List.length_append]
      exact hlen
    have hsent : ∀ data q, q ≤ page.length → Within (({ c with
        resp := { c.resp with alive := c.req.alive, clen := (respMsg c.resp.status).length }
        buf := { bufReset c.buf with data := page, data_p := q } } : Conn).logSent data) :=
          fun data q hq =>
      ⟨hpl, hq, fun hbad => by simp [Conn.logSent, bufReset] at hbad, h.last, h.body,
        fun hg' => absurd hg' hg,
        fun hr' => by simp [Conn.logSent, hr] at hr', h.fields⟩
    have hrc := smartSend_le page e.send_static
    split
    · exact hfat _ rfl
    have hq : (bufReset c.buf).data_p + (smartSend page e.send_static).1.toNat ≤ page.length := by
      simp only [bufReset]
      omega
    split
    · exact hsucc _ (hsent _ _ hq) rfl
    · exact (Ret.post_some _ _).2 (hstay _ s.bad_ptr (hsent _ _ hq) rfl)
  | header =>
    have hb : c.req.phase = .done ∧ c.cgi.phase = .disabled := by
      cases hs with
      | doneStatic hp _ hg => exact ⟨hp, hg⟩
      | head _ _ hr' | bodyStatic _ _ _ hr' | bodyReady _ _ _ hr' | bodyStream _ _ _ hr'
      | doneReady _ _ _ hr'
      | doneStream _ _ _ hr' | relay _ _ _ hr' | relayEnd _ _ _ hr'
      | abort _ hr' => simp [hr] at hr'
    -- The rest of the header is offered, and a send takes no more than that.
    have hgood := h.buf_good (by simp [hb.1])
    have hrc := smartSend_le c.buf.rest e.send_static
    have hcursor := h.cursor
    rw [Buf.rest, List.length_drop] at hrc
    dsimp only
    split
    · exact hfat c rfl
    rename_i hpos
    have hw : ∀ ph data, ph ≠ RespPhase.ready → Within (({ c with
        buf := { c.buf with data_p := c.buf.data_p + (smartSend c.buf.rest e.send_static).1.toNat }
        resp := { c.resp with phase := ph } } : Conn).logSent data) := fun ph data hph =>
      ⟨h.size, by simp only [Conn.logSent, Buf.rest]; omega,
        fun hbad => by simp [Conn.logSent, hgood] at hbad, h.last,
        h.body, fun hg' => by simp [Conn.logSent, hb.2] at hg', fun hr' => absurd hr' hph, h.fields⟩
    generalize hc : Conn.logSent _ _ = c1
    have hw1 : Within c1 := by
      rw [← hc]
      refine hw _ _ ?_
      split <;> simp
    have hi1 : c1.idx = c.idx := by rw [← hc]; rfl
    split
    · exact hsucc c1 hw1 hi1
    split
    · exact (Ret.post_some _ _).2 (hstay c1 true hw1 hi1)
    · split
      · exact hsucc c1 hw1 hi1
      · exact (Ret.post_some _ _).2 (hstay c1 s.bad_ptr hw1 hi1)
  | body =>
    -- The body is sent out of the mapped file; the buffer stays as it is.
    have hw : ∀ m data,
      Within (({ c with resp := { c.resp with mmbuf := m } } : Conn).logSent data) := fun m data =>
      ⟨h.size, h.cursor, h.good, h.last, h.body, h.relay, h.ready, h.fields⟩
    dsimp only
    split
    · exact (Ret.post_some _ _).2 (hstay c true h rfl)
    · split_ifs
      · exact hfat c rfl
      · exact hsucc _ (hw _ _) rfl
      · exact (Ret.post_some _ _).2 (hstay _ s.bad_ptr (hw _ _) rfl)
  | ready => exact (Ret.post_some _ _).2 (hstay c s.bad_ptr h rfl)
  | disabled => exact (Ret.post_some _ _).2 (hstay c s.bad_ptr h rfl)

/-- The section that serves files and pages keeps the buffers within their bounds, and uses them
inside of these. -/
theorem stepStatic_within (hconf : TimesFit conf) (e : Env) (hidx : c.idx < s.pool.conns.length)
    (hs : Shape c) (h : Within c) :
    (stepStatic conf e c s).Post (fun c' _ => Within c') (fun _ => True) ∧
      ∀ r ∈ stepStaticSpans conf e c s, r.Fits := by
  constructor
  · unfold stepStatic
    dsimp only
    split
    · exact cnServeStatic_within hconf e hs h
        (fun c1 h1 hi => (lisoResetOrClose_within e (by rw [hi]; exact hidx) h1).1)
        (fun c1 hi => lisoDropConn_gone (by rw [hi]; exact hidx)) fun c1 _ h1 _ => h1
    · exact (Ret.post_some _ _).2 h
  · unfold stepStaticSpans
    split
    case isFalse => simp
    unfold cnServeStaticSpans
    intro r hr
    rcases List.mem_append.1 hr with hr | hr
    · split at hr
      · exact cnSendErrorPage_spans hconf e h r hr
      · rename_i hphase
        rw [List.mem_singleton] at hr
        -- Only an aborted request may have a buffer that is not in order, and it gets a page.
        refine hr ▸ h.rest_span (h.buf_good fun hp => ?_)
        cases hs with
        | abort _ hr' => simp [hphase] at hr'
        | head hp' => rcases hp' with hp' | hp' <;> simp [hp] at hp'
        | bodyStatic hp' | bodyReady hp' | bodyStream hp' | doneStatic hp' | doneReady hp'
        | doneStream hp'
        | relay hp' | relayEnd hp' => simp [hp] at hp'
      all_goals simp at hr
    · -- What the success callback is called with.
      obtain ⟨p, hp, hr⟩ := List.mem_flatMap.1 hr
      have hnote : (cnServeStatic conf e noteEnd noteFail c s).Post
          (fun c' s' => Within c' ∧ c'.idx < s'.pool.conns.length) (fun _ => True) :=
            cnServeStatic_within hconf e hs h
        (fun c1 h1 hi => ⟨le_rfl, h1, by rw [hi]; exact hidx⟩)
          (fun _ _ => ⟨neg_one_lt_zero, trivial⟩)
        fun c1 _ h1 hi => ⟨h1, by rw [hi]; exact hidx⟩
      rw [Option.mem_toList, Ret.ended] at hp
      split at hp
      · obtain ⟨c1, hc1, rfl⟩ := Option.map_eq_some_iff.1 hp
        obtain ⟨-, h1, hidx1⟩ := hnote.of_some hc1
        exact (lisoResetOrClose_within e hidx1 h1).2 r hr
      · simp at hp

/-! ## Every run -/

/-- A new connection's buffers are empty. -/
theorem Accepted.within (h : Accepted c) : Within c := by
  obtain ⟨fd, idx, mem, id, addr, port, scheme, ssl, rfl⟩ := h
  exact ⟨Nat.zero_le _, le_rfl, fun hb => by simp [cnNew, bufNew] at hb, ⟨Nat.zero_le _, rfl⟩,
    fun hp => by simp [reqNew, reqReset] at hp, fun hg => by simp [cnNew, cgiNew] at hg,
      fun _ => rfl,
    Nat.zero_le _⟩

/-- The ranges of a visit, and the buffers after it. -/
theorem visit_within (hconf : TimesFit conf) (hfs : e.fs.Sized) (h0 : c.fd ≠ 0)
    (hH : Held False A c s) (hready : Ready c s) (hR : Rest False c s) (h : Within c) :
    (visit conf e c s).Post (fun c' s' => Rest False c' s' ∧ Within c') (fun _ => True) ∧
      ∀ r ∈ visitSpans conf e c s, r.Fits := by
  let I : Conn → Srv → Prop := fun c _ => Within c
  have hrecv : (stepRecv e c s).Post I (fun _ => True) := (stepRecv_within e hH.idx hR.shape h).1
  have hmid : ∀ p ∈ afterRecv e c s, Held False A p.1 p.2 → Recvd False p.1 p.2 → I p.1 p.2 →
      I (stepMiddle conf e p.1 p.2).1 (stepMiddle conf e p.1 p.2).2 := fun p _ _ _ hp =>
    (stepMiddle_within hconf hfs hp).1
  have hstatic : ∀ p ∈ afterMiddle conf e c s, Rest False p.1 p.2 → p.1.req.type = .static →
    I p.1 p.2 →
      I p.1 p.2 := fun _ _ _ _ hp => hp
  have hfrom : ∀ p ∈ afterMiddle conf e c s, Held False A p.1 p.2 → Rest False p.1 p.2 →
      p.1.req.type = .dynamic → I p.1 p.2 → I (stepFromCgi e p.1 p.2).1 (stepFromCgi e p.1 p.2).2 :=
    fun p _ _ _ _ hp => (stepFromCgi_within e hp).1
  have hsend : ∀ p ∈ beforeSend conf e c s, 0 < p.1.fd → Held False A p.1 p.2 → Rest False p.1 p.2 →
    I p.1 p.2 →
      (stepToClient e p.1 p.2).Post I (fun _ => True) := fun p _ hfd hH hR hp =>
    (stepToClient_within e hfd hH.idx hR.shape hp).1
  have hlast : ∀ p ∈ beforeStatic conf e c s, Held False A p.1 p.2 → Rest False p.1 p.2 →
    I p.1 p.2 →
      (stepStatic conf e p.1 p.2).Post I (fun _ => True) := fun p _ hH hR hp =>
    (stepStatic_within hconf e hH.idx hR.shape hp).1
  refine ⟨visit_stages h0 hH hready hR (fun f => f.elim) hrecv hmid hstatic hfrom hsend hlast, ?_⟩
  have hat1 := afterRecv_at hH hready hR hrecv
  have hat2 := afterMiddle_at hH hready hR hrecv hmid
  have hat3 := beforeSend_at hat2 hfrom
  have hat4 := beforeStatic_at (stepDynamic_at h0 (fun f => f.elim) hat2 hstatic hfrom hsend)
  intro r hr
  simp only [visitSpans, List.mem_append, List.mem_flatMap, Option.mem_toList] at hr
  rcases hr with (((hr | ⟨p, hp, hr⟩) | ⟨p, hp, hr⟩) | ⟨p, hp, hr⟩) | ⟨p, hp, hr⟩
  · exact (stepRecv_within e hH.idx hR.shape h).2 r hr
  · exact (stepMiddle_within hconf hfs (hat1 p hp).2.2).2 r hr
  · exact (stepFromCgi_within e (hat2 p (Option.mem_filter_iff.1 hp).1).2.2).2 r hr
  · obtain ⟨⟨hHp, hfd⟩, hRp, hwp⟩ := hat3 p hp
    exact (stepToClient_within e (by omega) hHp.idx hRp.shape hwp).2 r hr
  · obtain ⟨hHp, hRp, hwp⟩ := hat4 p hp
    exact (stepStatic_within hconf e hHp.idx hRp.shape hwp).2 r hr

/-- Every connection's buffers are in order in every reachable state. -/
theorem within_inv (hconf : TimesFit conf) (h : Reach conf (fun _ ev => ev.env.fs.Sized) l) :
    ∀ c ∈ l.srv.pool.conns, Rest False c l.srv ∧ Within c := by
  refine (reach_local (L := fun c s => Rest False c s ∧ Within c)
    (S := fun _ => True) ?_ trivial ?_ ?_ h).1
  · exact ⟨fun c s i h => ⟨Rest.stable.idx c s i h.1,
      ⟨h.2.size, h.2.cursor, h.2.good, h.2.last, h.2.body, h.2.relay,
      h.2.ready, h.2.fields⟩⟩, fun c s s' h hk => ⟨Rest.stable.keep c s s' h.1 hk, h.2⟩⟩
  · exact fun c s ha _ hr hw => ⟨ha.rest hr hw, ha.within⟩
  · intro l ev i m c hl hok hpc hc hH hready hL _
    have h0 : c.fd ≠ 0 := fun he => hH.fd_notMem (he ▸ .inl hl.zero_mem)
    exact (visit_within hconf hok h0 hH hready hL.1 hL.2).1.mono (fun _ _ h => ⟨h, trivial⟩)
      fun _ h => h

/-- In every visit of the runs in which the hosts fit, every range that the handlers use lies inside
its buffer; `last_buf` is never longer than `BUFSZ`, and no copy of a host was too long. -/
theorem buffers_hold (hconf : TimesFit conf)
    (h : Reach conf (fun l ev => Visiting (Hosted conf) l ev ∧ ev.env.fs.Sized) l) :
    (∀ c ∈ l.srv.pool.conns,
      (0 ≤ c.req.last_buf.sz ∧ c.req.last_buf.sz ≤ BUFSZ) ∧ c.Unmarked) ∧
    ∀ ev : Ev, Visiting (Hosted conf) l ev → ev.env.fs.Sized →
      Visiting (fun e c s => ∀ r ∈ visitSpans conf e c s, r.Fits) l ev := by
  have hall := within_inv hconf (Runs.Reach.mono (fun _ _ h => h.2) h)
  have hmark := unmarked_inv (Runs.Reach.mono (fun _ _ h => h.1) h)
  refine ⟨fun c hc => ⟨?_, hmark c hc⟩, fun ev _ hfs i m hpc c hc => ?_⟩
  · obtain ⟨hlen, hgood⟩ := (hall c hc).2.last
    rw [Buf.sz_eq hgood]
    omega
  · have hany := h.weaken
    have hinv := loop_inv hany
    have hH := hinv.pool.held i c hc
    have hready := hinv.ready i c (by rw [hpc]; exact le_rfl) hc
    have h0 : c.fd ≠ 0 := fun he => hH.fd_notMem (he ▸ .inl (Reach.zero_mem hany))
    obtain ⟨hR, hw⟩ := hall c (List.mem_of_getElem? hc)
    exact (visit_within hconf hfs h0 hH hready hR hw).2

/-- The files of the sample file system are small. -/
theorem sized_sample : Sample.env.fs.Sized := by
  intro path st hst
  have hst : some ⟨false, 3, 0⟩ = some st := hst
  rw [← Option.some.inj hst]
  norm_num

/-- A connection is accepted, and is about to receive. -/
def receiving : Loop :=
  Runs.exec (step Sample.conf) Sample.start (Sample.connect ++ Sample.select {5} ∅)

/-- The connection that receives is reached in a run that sees only small files. -/
theorem receiving_reach : Reach Sample.conf
    (fun l ev => Visiting (Hosted Sample.conf) l ev ∧ ev.env.fs.Sized) receiving := by
  refine (Runs.Reach.start Sample.start_init).along _ (Runs.Along.and (by decide +kernel) ?_)
  intro ev hev
  have hfs : ev.env = Sample.env := by
    simp only [Sample.connect, Sample.select, Sample.next, Sample.visit,
      List.mem_append, List.mem_cons,
      List.not_mem_nil, or_false] at hev
    rcases hev with ((rfl | rfl | rfl) | rfl | rfl) | rfl | rfl | rfl <;> rfl
  rw [hfs]
  exact sized_sample

/-- The ranges of the visit in which it receives a request. -/
theorem buffers_hold_recv :
    (∀ c ∈ receiving.srv.pool.conns,
      (0 ≤ c.req.last_buf.sz ∧ c.req.last_buf.sz ≤ BUFSZ) ∧ c.Unmarked) ∧
    ∀ ev : Ev, Visiting (Hosted Sample.conf) receiving ev → ev.env.fs.Sized →
      Visiting (fun e c s => ∀ r ∈ visitSpans Sample.conf e c s, r.Fits) receiving ev :=
  buffers_hold (fun _ => show (str "now").length < DATESZ by decide) receiving_reach

/-- The ranges of `cn_parse_req` when its second part finds what the copy of a host in the first has
left of the request in memory. -/
def cnParseReqSpansOver (e : Env) (c : Conn) (last_recv_end : ℕ) (s : Srv) : List Span :=
  cnParseLinesSpans c last_recv_end ++
    match cnParseLines e lisoConnErr c last_recv_end s with
    | (true, _, _) => []
    | (false, c, _) => cnCountBodySpans { c with req := c.req.inMemory }

/-- A host of 288 bytes, eight bytes of a negative size, and the number of `REQ_BODY`: what is
copied to `last_buf` has no bounds. -/
theorem buffers_overrun : ¬ ∀ l (ev : Ev), Reach Sample.conf (fun _ ev => ev.env.fs.Sized) l →
    ev.env.fs.Sized → Visiting (fun e c s => c.req.phase ≠ .abort → c.ssl = false →
      ∀ data ∈ e.recv, data.length ≤ BUFSZ - c.buf.sz →
        ∀ r ∈ cnParseReqSpansOver e (c.received data) c.buf.data.length s, r.Fits) l ev := by
  intro h
  have := h receiving
    (Sample.visit { Sample.env with
      recv := some (str "GET / HTTP/1.1\r\nHost: " ++ List.replicate 288 97 ++
        List.replicate 8 128 ++ [3] ++ str "\r\n") })
    (Runs.Reach.mono (fun _ _ h => h.2) receiving_reach) sized_sample
  revert this
  decide +kernel

end Liso
