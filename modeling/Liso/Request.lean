import Liso.State

/-!
# Requests: the parser and the packer (`request.c`)

A pointer into the chunk being parsed is a `Cur`: the byte in front of it and the bytes from it to
the end of the chunk. So `p[-1]`, `p[0]`, and `p[3]` are read off a `Cur`, two pointers are compared
by the bytes left behind them, and the byte in front of the whole chunk, which `eol` reads when a
resumed parse meets a bare line feed first, is an argument (`before`).
-/

namespace Liso

/-- `req_reset`. The bytes of `uri` behind its first one stay. -/
def reqReset (req : Req) : Req :=
  { req with
    method := .other
    uri := storeStr req.uri 0 []
    params := none
    version := []
    host := []
    clen := -1
    rsize := 0
    alive := true
    hdrs := []
    phase := .start
    type := .static }

/-- `req_new`; `mem` is what `malloc` left in the array `uri`. -/
def reqNew (mem : List Byte) : Req :=
  reqReset
    { addr := [], port := 0, method := .other, version := [], scheme := .http,
      uri := mem, params := none,
      host := [], clen := -1, alive := true, hdrs := [], rsize := 0, phase := .start,
      last_buf := bufNew,
      type := .static, overrun := false }

/-- A pointer into a chunk. -/
structure Cur where
  /-- The byte in front of the pointer. -/
  prev : Byte
  /-- The bytes from the pointer to the end of the chunk. -/
  rest : List Byte
  deriving DecidableEq

/-- Move a pointer over the bytes that satisfy `f`. -/
def Cur.skip (f : Byte → Bool) (d : Cur) : Cur :=
  ⟨(d.rest.takeWhile f).getLastD d.prev, d.rest.dropWhile f⟩

/-- `data_p++`. -/
def Cur.succ (d : Cur) : Cur := ⟨d.rest.headD d.prev, d.rest.tail⟩

/-- The number of bytes of `[p, d)`. -/
def Cur.dist (p d : Cur) : ℕ := p.rest.length - d.rest.length

/-- `proceed_inline`: the new `p` and `data_p`, around a token of the line. -/
def proceedInline (d : Cur) : Cur × Cur :=
  let p := d.skip issp
  (p, p.skip fun c => !isspace c)

/-- `proceed_line`: the new `p` and `data_p`, around the line without its leading spaces. -/
def proceedLine (d : Cur) : Cur × Cur :=
  let p := d.skip issp
  (p, p.skip (· != LF))

/-- `eol`. -/
def eol (p d : Cur) : Bool :=
  p.rest.length == d.rest.length && p.prev == CR && p.rest.head? == some LF

/-- `strcpy0(req->host, s)`, also for the `strncpy0` of a host in a target. Neither asks for the
size of the array: a string of more than `REQ_HOSTSZ` bytes goes over what stands behind `host` in
`req_t`, with which the parse goes on (`Req.inMemory`), and then over `last_buf` and `type`. The
model keeps the string whole and those fields as they were, and sets the mark `overrun`: from there
on it does not follow the program any more. So what is said about heads and about runs is said of
the calls of the parser in which every host fits (`HostsFit`), and that the mark is unset is a part
of it. -/
def setHost (req : Req) (s : List Byte) : Req :=
  { req with host := s, overrun := req.overrun || decide (REQ_HOSTSZ < s.length) }

/-- The bytes of a field of `req_t` that stood there as `old`, `off` bytes behind the start of
`host`, after the string `host` and its terminator were stored. -/
def behindHost (host : List Byte) (off : ℕ) (old : List Byte) : List Byte :=
  let new := ((host ++ [0]).drop off).take old.length
  new ++ old.drop new.length

/-- The fields behind `host` as the program reads them right after the copy into `host`, where an
`ssize_t` and a pointer have eight bytes, and an `enum` four, the lowest one first. A number that is
none of the phases leaves the phase as it was. -/
def Req.inMemory (req : Req) : Req :=
  { req with
    clen := ofBytes (behindHost req.host 264 (toBytes 8 req.clen))
    alive := ofBytes (behindHost req.host 272 (toBytes 1 (if req.alive then 1 else 0))) ≠ 0
    rsize := ofBytes (behindHost req.host 288 (toBytes 8 req.rsize))
    phase := (ReqPhase.ofCode
      (ofBytes (behindHost req.host 296 (toBytes 4 req.phase.code)))).getD req.phase }

/-- The part of the parser that handles the target of a request line: `[p, d)`, cut at `REQ_URISZ`.
The scheme test compares the whole target, and the offsets pass the scheme by one. The copy of the
path to the start of `uri` is between two regions of one array that may overlap, which C leaves
undefined for `strcpy`; the model takes the copy from the first byte to the last. -/
def parseUri (req : Req) (p d : Cur) : Req :=
  let req := { req with uri := storeStr req.uri 0 (strncpy0 p.rest (min REQ_URISZ (p.dist d))) }
  let host_start :=
    if strcaseeq (cstr req.uri) (str "http://") then some 8
    else if strcaseeq (cstr req.uri) (str "https://") then some 9
    else none
  let req := match host_start with
    | none => req
    | some k =>
      let s := cstr (req.uri.drop k)
      let host := s.takeWhile (· != 47)
      -- `host_end` is null when the string has no slash.
      if host.length = s.length then req
      else { setHost req host with uri := storeStr req.uri 0 (s.drop host.length) }
  -- The type is never set back to `REQ_STATIC` here.
  let req := if strstartswith (cstr req.uri) (str "/cgi/") then { req with type := .dynamic }
    else req
  let uri := cstr req.uri
  let path := uri.takeWhile (· != 63)
  -- The question mark becomes the terminator of the path.
  if path.length = uri.length then { req with params := none }
  else { req with uri := req.uri.set path.length 0, params := some (path.length + 1) }

/-- The outcome of a part of the parser: a status to refuse the request with, or the pointer to go
on from; and the request. -/
abbrev Parsed := Except ℤ Cur × Req

/-- The request after `req->phase = REQ_ABORT; return -status`. -/
def refuse (req : Req) (status : ℤ) : Parsed := (.error status, { req with phase := .abort })

/-- The method that the token `[p, ..)` with the text `method` names. -/
def methodOf (method : List Byte) (p : Cur) : Option Method :=
  if strncaseeq method (str "GET") 3 && issp (p.rest.getD 3 0) then some .get
  else if strncaseeq method (str "HEAD") 4 && issp (p.rest.getD 4 0) then some .head
  else if strncaseeq method (str "POST") 4 && issp (p.rest.getD 4 0) then some .post
  else none

/-- `req_parse` in phase `REQ_START`: the request line. -/
def parseStart (req : Req) (d : Cur) : Parsed :=
  let (p, d) := proceedInline d
  let method := strncpy0 p.rest (min 8 (p.dist d))
  if method.length = 0 then refuse req 400
  else match methodOf method p with
    | none => refuse req 501
    | some m =>
      let req := { req with method := m }
      let (p, d) := proceedInline d
      -- The target.
      let req := parseUri req p d
      let (p, d) := proceedInline d
      let req := { req with version := strncpy0 p.rest (min REQ_VERSZ (p.dist d)) }
      let (p, d) := proceedInline d
      -- Nothing may stand between the version and the end of the line.
      if eol p d then (.ok d.succ, { req with phase := .header })
      else refuse req 400

/-- What the parser does with the key and the value of a header line. -/
def parseField (req : Req) (key val : List Byte) : Option Req :=
  if strcaseeq key (str "Host") then some (setHost req val)
  else if strcaseeq key (str "Content-Length") then
    if isnum val then some { req with clen := atoi val } else none
  else if strcaseeq key (str "Connection") then
    some (if strcaseeq val (str "close") then { req with alive := false } else req)
  else some { req with hdrs := hdrInsert req.hdrs (hdrNew key val) }

/-- The end of the head. -/
def parseEnd (req : Req) (d : Cur) : Parsed :=
  let req := { req with phase := .body }
  if req.clen < 0 then
    if req.method = .post then refuse req 411
    -- Without a length there is no body, unless it is a POST.
    else (.ok d.succ, { req with clen := 0, rsize := 0 })
  else (.ok d.succ, { req with rsize := req.clen })

/-- The header line `[p, d)`. -/
def parseHeader (req : Req) (p d : Cur) : Parsed :=
  let q := p.skip fun c => c != COLON && c != LF
  -- A key and a colon are needed; the value may be empty.
  if p.dist q = 0 || q.rest.head? != some COLON then refuse req 400
  else
    let key := strstrip (strncpy0 p.rest (min HDR_KEYSZ (p.dist q)))
    let val := strstrip (strncpy0 q.rest.tail (min HDR_VALSZ (q.dist d - 1)))
    match parseField req key val with
    | none => refuse req 400
    | some req => (.ok d.succ, req)

/-- The loop of `req_parse` in phase `REQ_HEADER`. Every pass moves the pointer forward, so the
number of bytes left is enough fuel. -/
def parseHeaders : ℕ → Req → Cur → Parsed
  | 0, req, d => (.ok d, req)
  | n + 1, req, d =>
    if d.rest = [] then (.ok d, req)
    else
      let (p, d) := proceedLine d
      -- An empty line ends the head, and the parser does not look behind it.
      if eol p d then parseEnd req d
      else match parseHeader req p d with
        | (.ok d, req) => parseHeaders n req d
        | (.error status, req) => (.error status, req)

/-- The two parts of `req_parse`, from a pointer to the end of the chunk. -/
def parsePhases (req : Req) (d : Cur) : Parsed :=
  if req.phase = .start then
    match parseStart req d with
    | (.ok d, req) => parseHeaders d.rest.length req d
    | (.error status, req) => (.error status, req)
  else if req.phase = .header then parseHeaders d.rest.length req d
  else (.ok d, req)

/-- `req_parse` on the chunk `lines`: the number of bytes parsed or the negated status, and the
request. -/
def reqParse (before : Byte) (req : Req) (lines : List Byte) : ℤ × Req :=
  match parsePhases req ⟨before, lines⟩ with
  | (.ok d, req) => (lines.length - d.rest.length, req)
  | (.error status, req) => (-status, req)

/-! ## The packer

`req_pack` writes a request back into a buffer. Each string is copied behind the ones before it
without its terminator, so the buffer holds them one after the other. -/

/-- `req_method`. -/
def reqMethod (req : Req) : List Byte :=
  match req.method with
  | .get => str "GET"
  | .head => str "HEAD"
  | .post => str "POST"
  | .other => str "OTHER"

/-- The line of a header: `hdr->key`, a colon and a space, and `hdr->val`. -/
def packHdr (hdr : Hdr) : List Byte := hdr.key ++ str ": " ++ hdr.val ++ str "\r\n"

/-- `req_pack`: the bytes of `[data, data + sz)`. -/
def reqPack (req : Req) : List Byte :=
  reqMethod req ++ str " " ++ cstr req.uri ++ str " " ++ req.version ++ str "\r\n" ++
    (str "Host:" ++ str " " ++ req.host ++ str "\r\n") ++
    (str "Content-Length:" ++ str " " ++ dec req.clen ++ str "\r\n") ++
    req.hdrs.flatMap packHdr ++
    str "\r\n"

end Liso
