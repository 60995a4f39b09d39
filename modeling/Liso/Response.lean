import Liso.State

/-!
# Responses (`response.c`, `mmbuf_new` of `buffer.c`)
-/

namespace Liso

open Handles (Table Picker)

/-- `VERSION`. -/
def VERSION : List Byte := str "Liso/1.0"

/-- `resp_reset`. -/
def respReset (resp : Resp) : Resp :=
  { resp with phase := .ready, status := 200, clen := 0, alive := true, mmbuf := none, hdrs := [] }

/-- `resp_new`. -/
def respNew : Resp :=
  respReset { phase := .ready, status := 200, clen := 0, alive := true, hdrs := [], mmbuf := none }

/-- The shape that the six error pages share, around the rest of the title's line and of the
heading's line. -/
def errorPage (title heading : List Byte) : List Byte :=
  str "<html>\r\n<head><title>" ++ title ++ str "\r\n<body bgcolor=\"white\">\r\n<center><h1>" ++
    heading ++ str "\r\n</body>\r\n</html>\r\n"

/-- `msg400`. -/
def msg400 : List Byte :=
  errorPage (str "400 Bad Request</title></head>") (str "400 Bad Request</h1></center>")

/-- `msg404`. -/
def msg404 : List Byte :=
  errorPage (str "404 Not Found</title></head>") (str "404 Not Found</h1></center>")

/-- `msg411`. -/
def msg411 : List Byte :=
  errorPage (str "411 Length Required</title></head>") (str "411 Length Required</h1></center>")

/-- `msg500`. -/
def msg500 : List Byte :=
  errorPage (str "500 Internal Server Error</title></head>")
    (str "500 Internal Server Error</h1></center>")

/-- `msg501`. -/
def msg501 : List Byte :=
  errorPage (str "501 Not Implemented</title>title></head>head>")
    (str "501 Not Implemented</h1>h1></center>center>")

/-- `msg503`. -/
def msg503 : List Byte :=
  errorPage (str "503 Service Temporarily Unavailable</title>title></head>head>")
    (str "503 Service Temporarily Unavailable</h1>h1></center>center>")

/-- `resp_title`. -/
def respTitle (code : ℤ) : List Byte :=
  if code = 200 then str "200 OK"
  else if code = 400 then str "400 Bad Request"
  else if code = 404 then str "404 Not Found"
  else if code = 411 then str "411 Length Required"
  else if code = 500 then str "500 Internal Server Error"
  else if code = 501 then str "501 Not Implemented"
  else if code = 503 then str "503 Service Unavailable"
  else str "500 Internal Server Error"

/-- `resp_msg`. -/
def respMsg (code : ℤ) : List Byte :=
  if code = 400 then msg400
  else if code = 404 then msg404
  else if code = 411 then msg411
  else if code = 500 then msg500
  else if code = 501 then msg501
  else if code = 503 then msg503
  else msg500

/-- `fill_ctype`. -/
def fillCtype (path : List Byte) : List Byte :=
  if caseendswith path (str ".html") || caseendswith path (str ".htm") then str "text/html"
  else if caseendswith path (str ".css") then str "text/css"
  else if caseendswith path (str ".js") then str "application/javascript"
  else if caseendswith path (str "png") then str "image/png"
  else if caseendswith path (str ".jpg") || caseendswith path (str ".jpeg") then str "image/jpeg"
  else if caseendswith path (str ".gif") then str "image/gif"
  else str "text/plain"

/-- `default_pages`. -/
def defaultPages : List (List Byte) := [str "index.html", str "index.htm"]

/-- `mmbuf_new` on an open file of which `mmap` gives `file`: a mapping of exactly `sz` bytes. -/
def mmbufNew (file : Option (List Byte)) (sz : ℕ) : Option Buf :=
  file.map fun bytes => ⟨bytes.takeD sz 0, 0, false⟩

/-- `resp_mmap`: the file's `stat` if it was mapped, the response, and the open descriptors. A
descriptor whose file cannot be mapped stays open. -/
def respMmap (fs : Fs) (pick : Picker) (resp : Resp) (path : List Byte) (fds : Table) :
    Option Stat × Resp × Table :=
  match fs.stat path with
  | none => (none, resp, fds)
  | some st =>
    if st.dir then (none, resp, fds)
    else if !fs.opens path then (none, resp, fds)
    else
      -- From here on the file is open; only the last branch closes it.
      let (fd, fds) := fds.alloc pick
      let resp := { resp with mmbuf := mmbufNew (fs.mmap path) st.size }
      if resp.mmbuf = none then (none, resp, fds)
      else (some st, resp, fds.free fd)

/-- The first of some paths that `resp_mmap` maps. -/
def respTry (fs : Fs) (pick : Picker) : Resp → List (List Byte) → Table →
    Option (Stat × List Byte) × Resp × Table
  | resp, [], fds => (none, resp, fds)
  | resp, path :: paths, fds =>
    match respMmap fs pick resp path fds with
    | (some st, resp, fds) => (some (st, path), resp, fds)
    | (none, resp, fds) => respTry fs pick resp paths fds

/-- The paths that `resp_build` tries: the target under the `www` folder, then each default page. -/
def respPaths (req : Req) (conf : Conf) : List (List Byte) :=
  let path := strncpy0 conf.www REQ_URISZ ++ strncpy0 (cstr req.uri) REQ_URISZ
  let dir := if path.getLast? = some 47 then path else path ++ [47]
  path :: defaultPages.map fun page => dir ++ page

/-- `resp_build`: the code that it returns as a `bool`, which is the file's size cut to 32 bits, the
response, and the open descriptors. -/
def respBuild (fs : Fs) (pick : Picker) (resp : Resp) (req : Req) (conf : Conf) (fds : Table) :
    ℕ × Resp × Table :=
  let resp := { resp with alive := req.alive }
  match respTry fs pick resp (respPaths req conf) fds with
  | (none, resp, fds) => (0, { resp with status := 404 }, fds)
  | (some (st, path), resp, fds) =>
    let resp := { resp with clen := st.size }
    let resp :=
      if req.method = .get ∨ req.method = .head then
        let hdrs := hdrInsert resp.hdrs ⟨str "Content-Type", fillCtype path⟩
        { resp with hdrs := hdrInsert hdrs ⟨str "Last-Modified", conf.strftime st.mtime⟩ }
      else resp
    -- `bool` is an enumeration in the source, and keeps 32 bits of the size.
    (st.size % 2 ^ 32, resp, fds)

/-- The line `key: val` of a header. -/
def hdrLine (key val : List Byte) : List Byte := key ++ str ": " ++ val ++ str "\r\n"

/-- `resp_hdr` at the time `t`. -/
def respHdr (resp : Resp) (conf : Conf) (t : ℤ) : List Byte :=
  str "HTTP/1.1 " ++ respTitle resp.status ++ str "\r\n" ++
    hdrLine (str "Date") (conf.strftime t) ++
    hdrLine (str "Server") VERSION ++
    hdrLine (str "Connection") (if resp.alive then str "keep-alive" else str "close") ++
    hdrLine (str "Content-Length") (dec resp.clen) ++
    resp.hdrs.flatMap (fun h => hdrLine h.key h.val) ++
    str "\r\n"

end Liso
