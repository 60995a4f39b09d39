import Liso.Joint
import Liso.Lib.Lines

/-!
# HEAD and GET

A response to HEAD should be the head of the response to GET. The server builds and sends a file and
an error page by different functions, and only the one for a file looks at the method:
`cn_send_error_page` sends the page's text to everybody (`head_differs`). `head_agrees` says for
every target that the two responses are related as they should be if and only if the target resolves
to a file that `resp_build` accepts.

The handlers take their callbacks as arguments. Here they are run with callbacks that only report
which of them was called: the bytes sent when the success callback runs are the complete response.
-/

namespace Liso

open Handles (Table Picker)
open Lines (headSection IsLine)

variable {conf : Conf} {e : Env} {c c' : Conn} {s s' : Srv} {bytes : List Byte}

/-! ## Complete responses -/

/-- The outside world, when the next send takes all the bytes that it is offered: the header, an
error page, or a chunk of a file. -/
def Env.takesAll (conf : Conf) (e : Env) (c : Conn) : Env :=
  { e with send_static := max BUFSZ (max c.buf.data.length (c.page conf e).length : ℕ) }

/-- Sending in up to `n` visits: the bytes sent, if the response is complete then. -/
def serveAll (conf : Conf) (e : Env) : ℕ → Conn → Srv → Option (List Byte)
  | 0, _, _ => none
  | n + 1, c, s =>
    let r := cnServeStatic conf (e.takesAll conf c) noteEnd noteFail c s
    r.conn.bind fun c' => if r.rc = 0 then some c'.wire.cur.sent else serveAll conf e n c' r.srv

/-- The complete response that the sending gives. -/
def Serves (conf : Conf) (e : Env) (c : Conn) (s : Srv) (bytes : List Byte) : Prop :=
  ∃ n, serveAll conf e n c s = some bytes

/-- The complete response to a complete static request. -/
def Responds (conf : Conf) (e : Env) (c : Conn) (s : Srv) (bytes : List Byte) : Prop :=
  Serves conf e (cnPrepareStaticHeader conf e lisoConnErr c s).1
    (cnPrepareStaticHeader conf e lisoConnErr c s).2 bytes

/-- A complete static request whose response is not begun. -/
structure Due (c : Conn) : Prop where
  /-- The request. -/
  phase : c.req.phase = .done
  /-- It is for a file. -/
  type : c.req.type = .static
  /-- The response. -/
  resp : c.resp = respReset c.resp
  /-- Nothing was sent. -/
  sent : c.wire.cur.sent = []

/-- The same request with another method. -/
def Conn.ask (c : Conn) (m : Method) : Conn := { c with req := { c.req with method := m } }

/-- A response is complete after one visit of the sending, or after more. -/
theorem serves_iff : Serves conf e c s bytes ↔
    ∃ c', (cnServeStatic conf (e.takesAll conf c) noteEnd noteFail c s).conn = some c' ∧
      if (cnServeStatic conf (e.takesAll conf c) noteEnd noteFail c s).rc =
        0 then c'.wire.cur.sent = bytes
      else Serves conf e c' (cnServeStatic conf (e.takesAll conf c) noteEnd noteFail c s).srv
        bytes := by
  constructor
  · rintro ⟨n, hn⟩
    cases n with
    | zero => simp [serveAll] at hn
    | succ n =>
      obtain ⟨c', hc', h⟩ := Option.bind_eq_some_iff.1 hn
      refine ⟨c', hc', ?_⟩
      split_ifs at h ⊢
      · exact Option.some.inj h
      · exact ⟨n, h⟩
  · rintro ⟨c', hc', h⟩
    split_ifs at h with hrc
    · exact ⟨1, Option.bind_eq_some_iff.2 ⟨c', hc', by rw [if_pos hrc, h]⟩⟩
    · obtain ⟨n, hn⟩ := h
      exact ⟨n + 1, Option.bind_eq_some_iff.2 ⟨c', hc', by rw [if_neg hrc, hn]⟩⟩

/-- A send that takes everything returns the number of all bytes. -/
theorem smartSend_all {data : List Byte} {rc : ℤ} (h : (data.length : ℤ) ≤ rc) :
    smartSend data rc = ((data.length : ℤ), data) := by
  rw [smartSend, min_eq_right h, Int.toNat_natCast, List.take_length]

/-- The size of what a buffer still holds is that of the bytes behind the cursor. -/
theorem Buf.rsize_eq (b : Buf) (hb : b.bad = false) : b.rsize = (b.data.length : ℤ) - b.data_p := by
  simp [Buf.rsize, Buf.sz, hb]

/-- The number of bytes behind the cursor. -/
theorem Buf.rest_length (b : Buf) : b.rest.length = b.data.length - b.data_p := by
  rw [Buf.rest, List.length_drop]

/-! ## The file -/

/-- The sending of a file that is not sent to its end yet: the rest of it follows. -/
theorem serves_body {m : Buf} (hr : c.resp.phase = .body) (hm : c.resp.mmbuf = some m)
    (hbad : m.bad = false) (hrest : m.rest ≠ []) :
    Serves conf e c s bytes ↔ bytes = c.wire.cur.sent ++ m.rest := by
  induction hk : m.rest.length using Nat.strong_induction_on generalizing c s m with
  | _ k ih =>
    subst hk
    -- The chunk of this visit, and the connection after it.
    have hchunk : smartSend (m.rest.take BUFSZ) (e.takesAll conf c).send_static =
        (((m.rest.take BUFSZ).length : ℤ), m.rest.take BUFSZ) := by
      refine smartSend_all (le_trans ?_ (le_max_left _ _))
      rw [List.length_take]
      omega
    have hpos : 0 < (m.rest.take BUFSZ).length := by
      have hlen : 0 < m.rest.length := List.length_pos_of_ne_nil hrest
      rw [List.length_take]
      unfold BUFSZ
      omega
    generalize hchunk' : m.rest.take BUFSZ = chunk at hchunk hpos
    set m1 : Buf := { m with data_p := m.data_p + chunk.length } with hm1
    have hrest1 : m1.rest = m.rest.drop chunk.length := by
      rw [Buf.rest, Buf.rest, List.drop_drop]
    have hjoin : chunk ++ m1.rest = m.rest := by
      rw [hrest1, ← hchunk', List.length_take]
      rcases le_total BUFSZ m.rest.length with h | h
      · rw [min_eq_left h, List.take_append_drop]
      · rw [min_eq_right h, List.take_of_length_le h, List.drop_length, List.append_nil]
    have hdone : m1.rsize ≤ 0 ↔ m1.rest = [] := by
      rw [Buf.rsize_eq m1 hbad, ← List.length_eq_zero_iff, Buf.rest_length]
      omega
    have hvisit : cnServeStatic conf (e.takesAll conf c) noteEnd noteFail c s =
        if m1.rsize ≤
          0 then ⟨0,
            some (({ c with resp := { c.resp with mmbuf := some m1 } } : Conn).logSent chunk), s⟩
        else ⟨1, some (({ c with resp := { c.resp with mmbuf := some m1 } } : Conn).logSent chunk),
          s⟩ := by
      have hrc : ¬ ((chunk.length : ℤ) ≤ 0) := by omega
      simp only [cnServeStatic, hr, hm, hchunk', hchunk, hrc, if_false, Int.toNat_natCast, noteEnd]
      rfl
    rw [serves_iff, hvisit]
    by_cases hend : m1.rest = []
    · rw [if_pos (hdone.2 hend)]
      rw [hend, List.append_nil] at hjoin
      simp only [Option.some.injEq, exists_eq_left', if_true, Conn.logSent, hjoin]
      exact eq_comm
    · rw [if_neg (fun h => hend (hdone.1 h))]
      simp only [Option.some.injEq, exists_eq_left', one_ne_zero, if_false]
      have hlt : m1.rest.length < m.rest.length := by
        rw [← hjoin, List.length_append]
        omega
      rw [ih _ hlt (c := ({ c with resp := { c.resp with mmbuf := some m1 } } : Conn).logSent chunk)
        hr rfl hbad
        hend rfl, ← hjoin, ← List.append_assoc]
      rfl

/-! ## The head of a response -/

/-- The times that are printed hold no carriage return. -/
def CleanTimes (conf : Conf) : Prop := ∀ t, 13 ∉ conf.strftime t

/-- The lines of `resp_hdr`. -/
def hdrLines (resp : Resp) (conf : Conf) (t : ℤ) : List (List Byte) :=
  [str "HTTP/1.1 " ++ respTitle resp.status,
    str "Date" ++ str ": " ++ conf.strftime t,
    str "Server" ++ str ": " ++ VERSION,
    str "Connection" ++ str ": " ++ (if resp.alive then str "keep-alive" else str "close"),
    str "Content-Length" ++ str ": " ++ dec resp.clen] ++
  resp.hdrs.map fun h => h.key ++ str ": " ++ h.val

/-- `resp_hdr` writes a block of lines and an empty line. -/
theorem respHdr_eq (resp : Resp) (conf : Conf) (t : ℤ) :
    respHdr resp conf t = Lines.block (hdrLines resp conf t) ++ Lines.crlf := by
  have hcrlf : str "\r\n" = Lines.crlf := by simp [str, Lines.crlf]
  simp only [respHdr, hdrLine, hdrLines, Lines.block, hcrlf, List.flatMap_append, List.flatMap_map,
    List.flatMap_cons, List.flatMap_nil, List.append_assoc, List.append_nil]

/-- A line with a name in front and a value without a carriage return. -/
theorem isLine_append {name val : List Byte} (h : IsLine name) (hval : 13 ∉ val) :
    IsLine (name ++ val) := by
  refine ⟨fun he => h.1 (List.append_eq_nil_iff.1 he).1, fun hmem => ?_⟩
  rcases List.mem_append.1 hmem with hmem | hmem
  · exact h.2 hmem
  · exact hval hmem

/-- A printed number is made of digits and a sign. -/
theorem dec_clean (n : ℤ) : 13 ∉ dec n := by
  unfold dec
  rw [List.mem_append, not_or]
  constructor
  · split <;> decide
  · intro hmem
    obtain ⟨ch, hch, he⟩ := List.mem_map.1 hmem
    have hdigit := Nat.isDigit_of_mem_toDigits (by decide) (by decide) hch
    simp only [Char.isDigit, Bool.and_eq_true, decide_eq_true_eq] at hdigit
    have h1 : 48 ≤ ch.toNat := hdigit.1
    have h2 : ch.toNat ≤ 57 := hdigit.2
    have hnat : ch.toNat.toUInt8.toNat = ch.toNat := by
      rw [Nat.toUInt8, UInt8.toNat_ofNat']
      omega
    rw [he] at hnat
    have h13 : (13 : Byte).toNat = 13 := rfl
    omega

/-- A title has no CR. -/
theorem respTitle_clean (code : ℤ) : 13 ∉ respTitle code := by
  unfold respTitle
  split_ifs <;> simp [str]

/-- A type has no CR. -/
theorem fillCtype_clean (path : List Byte) : 13 ∉ fillCtype path := by
  unfold fillCtype
  split_ifs <;> simp [str]

/-- The fields that a response carries beyond those that every response has make lines. -/
def Resp.Clean (resp : Resp) : Prop := ∀ h ∈ resp.hdrs, IsLine (h.key ++ str ": ") ∧ 13 ∉ h.val

/-- The lines of a response are lines. -/
theorem hdrLines_isLine (hclean : CleanTimes conf) {resp : Resp} (t : ℤ) (h : resp.Clean) :
    ∀ line ∈ hdrLines resp conf t, IsLine line := by
  intro line hline
  rcases List.mem_append.1 hline with hline | hline
  · simp only [List.mem_cons, List.not_mem_nil, or_false] at hline
    rcases hline with rfl | rfl | rfl | rfl | rfl
    · exact isLine_append (by simp [IsLine, str]) (respTitle_clean _)
    · exact isLine_append (by simp [IsLine, str]) (hclean t)
    · exact isLine_append (by simp [IsLine, str]) (by simp [VERSION, str])
    · refine isLine_append (by simp [IsLine, str]) ?_
      split <;> simp [str]
    · exact isLine_append (by simp [IsLine, str]) (dec_clean _)
  · obtain ⟨x, hx, rfl⟩ := List.mem_map.1 hline
    exact isLine_append (h x hx).1 (h x hx).2

/-- The receiver finds the head of a response, whatever follows it. -/
theorem headSection_respHdr (hclean : CleanTimes conf) {resp : Resp} (t : ℤ) (h : resp.Clean)
    (bs : List Byte) :
    headSection (respHdr resp conf t ++ bs) = respHdr resp conf t := by
  rw [respHdr_eq, List.append_assoc]
  exact Lines.headSection_block _ (by simp [hdrLines]) (hdrLines_isLine hclean t h) bs

/-! ## The target -/

/-- `resp_mmap` succeeds on a path. -/
def Fs.mappable (fs : Fs) (path : List Byte) : Bool := fs.openable path && (fs.mmap path).isSome

/-- The target resolves to a file: the first of the paths tried that can be mapped has a size that
`resp_build` does not take for a failure. -/
def Resolves (conf : Conf) (fs : Fs) (req : Req) : Prop :=
  ∃ path ∈ (respPaths req conf).find? fs.mappable, ∃ st ∈ fs.stat path, st.size % 2 ^ 32 ≠ 0

/-- `resp_mmap` touches nothing of the response but the file, and maps a path if it can. -/
theorem respMmap_eq (fs : Fs) (pick : Picker) (resp : Resp) (path : List Byte) (t : Table) :
    (fs.mappable path = true ∧ ∃ st file, fs.stat path = some st ∧ fs.mmap path = some file ∧
      (respMmap fs pick resp path t).1 = some st ∧
      (respMmap fs pick resp path t).2.1 =
        { resp with mmbuf := some ⟨List.takeD st.size file 0, 0, false⟩ }) ∨
    (fs.mappable path = false ∧ (respMmap fs pick resp path t).1 = none ∧
      ∃ m, (respMmap fs pick resp path t).2.1 = { resp with mmbuf := m }) := by
  unfold respMmap Fs.mappable Fs.openable mmbufNew
  cases hst : fs.stat path with
  | none => exact .inr ⟨rfl, rfl, resp.mmbuf, rfl⟩
  | some st =>
    cases hdir : st.dir
    case true => exact .inr ⟨by simp [hdir], by simp [hdir], resp.mmbuf, by simp [hdir]⟩
    cases hop : fs.opens path
    case false => exact .inr ⟨by simp [hdir], by simp [hdir], resp.mmbuf, by simp [hdir]⟩
    cases hm : fs.mmap path with
    | none => exact .inr ⟨by simp [hdir], by simp [hdir], none, by simp [hdir]⟩
    | some file => exact .inl ⟨by simp [hdir], st, file, rfl, rfl, by simp [hdir], by simp [hdir]⟩

/-- `resp_build` maps the first path that can be mapped. -/
theorem respTry_eq (fs : Fs) (pick : Picker) (resp : Resp) (paths : List (List Byte)) (t : Table) :
    (∃ path st file, paths.find? fs.mappable = some path ∧ fs.stat path = some st ∧
      fs.mmap path = some file ∧
      (respTry fs pick resp paths t).1 = some (st, path) ∧
      (respTry fs pick resp paths t).2.1 =
        { resp with mmbuf := some ⟨List.takeD st.size file 0, 0, false⟩ }) ∨
    (paths.find? fs.mappable = none ∧ (respTry fs pick resp paths t).1 = none ∧
      ∃ m, (respTry fs pick resp paths t).2.1 = { resp with mmbuf := m }) := by
  induction paths generalizing resp t with
  | nil => exact .inr ⟨rfl, rfl, resp.mmbuf, rfl⟩
  | cons path paths ih =>
    have hone := respMmap_eq fs pick resp path t
    unfold respTry
    rcases hout : respMmap fs pick resp path t with ⟨found, resp', t'⟩
    rw [hout] at hone
    rcases hone with ⟨hmap, st, file, hst, hfile, hfound, hresp⟩ | ⟨hmap, hfound, m, hresp⟩
    · have hfound : found = some st := hfound
      subst hfound
      exact .inl ⟨path, st, file, List.find?_cons_of_pos hmap, hst, hfile, rfl, hresp⟩
    · have hfound : found = none := hfound
      have hresp : resp' = { resp with mmbuf := m } := hresp
      subst hfound hresp
      rw [List.find?_cons_of_neg (by simp [hmap])]
      exact ih _ _

/-- The fields that `resp_build` adds for a file. -/
theorem clean_fields (hclean : CleanTimes conf) (path : List Byte) (t : ℤ) (resp : Resp)
    (h : resp.hdrs = [⟨str "Last-Modified", conf.strftime t⟩,
      ⟨str "Content-Type", fillCtype path⟩]) :
    resp.Clean := by
  intro x hx
  rw [h, List.mem_cons, List.mem_singleton] at hx
  have hnames : IsLine (str "Last-Modified" ++ str ": ") ∧
    IsLine (str "Content-Type" ++ str ": ") := by
    simp [IsLine, str]
  rcases hx with rfl | rfl
  · exact ⟨hnames.1, hclean t⟩
  · exact ⟨hnames.2, fillCtype_clean path⟩

/-- `resp_build` for GET and HEAD: a file that is not empty, or a failure. -/
theorem respBuild_eq (hclean : CleanTimes conf) (fs : Fs) (pick : Picker) (resp : Resp)
    (req : Req) (t : Table) (hresp : resp.hdrs = []) (hm : req.method = .get ∨ req.method = .head) :
    (respBuild fs pick resp req conf t).2.1.Clean ∧
    ((respBuild fs pick resp req conf t).1 ≠ 0 ↔ Resolves conf fs req) ∧
    ((respBuild fs pick resp req conf t).1 ≠ 0 → ∃ m : Buf,
      (respBuild fs pick resp req conf t).2.1.mmbuf = some m ∧ m.bad = false ∧ m.rest ≠ []) := by
  have htry := respTry_eq fs pick { resp with alive := req.alive } (respPaths req conf) t
  unfold respBuild
  dsimp only
  rcases hout : respTry fs pick { resp with alive := req.alive } (respPaths req conf)
    t with ⟨found, resp', t'⟩
  rw [hout] at htry
  rcases htry with ⟨path, st, file, hfind, hst, -, hfound, hresp'⟩ | ⟨hfind, hfound, m, hresp'⟩
  · have hfound : found = some (st, path) := hfound
    have hresp' : resp' = { resp with
        alive := req.alive, mmbuf := some ⟨List.takeD st.size file 0, 0, false⟩ } := hresp'
    subst hfound hresp'
    simp only [hm, if_true]
    refine ⟨clean_fields hclean path st.mtime _ (by simp [hresp, hdrInsert]), ?_, fun hsize => ?_⟩
    · constructor
      · exact fun h => ⟨path, hfind, st, hst, h⟩
      · rintro ⟨path', hpath', st', hst', h⟩
        -- The file that was found is the one that the target resolves to.
        rw [hfind, Option.mem_some_iff] at hpath'
        subst hpath'
        rw [hst, Option.mem_some_iff] at hst'
        exact hst' ▸ h
    · refine ⟨_, rfl, rfl, fun hnil => hsize ?_⟩
      have hlen := congrArg List.length hnil
      rw [Buf.rest_length, List.length_nil] at hlen
      have htake : (List.takeD st.size file (0 : Byte)).length = st.size := List.takeD_length _ _ _
      have hzero : st.size = 0 := by
        rw [← htake]
        exact hlen
      simp [hzero]
  · have hfound : found = none := hfound
    have hresp' : resp' = { resp with alive := req.alive, mmbuf := m } := hresp'
    subst hfound hresp'
    refine ⟨fun x hx => by simp [hresp] at hx, ⟨fun h => absurd rfl h, ?_⟩, fun h => absurd rfl h⟩
    rintro ⟨path, hpath, -⟩
    rw [hfind] at hpath
    simp at hpath

/-- `resp_build` does the same for GET and HEAD. -/
theorem respBuild_ask (conf : Conf) (fs : Fs) (pick : Picker) (resp : Resp) (c : Conn) (t : Table) :
    respBuild fs pick resp (c.ask .get).req conf t = respBuild fs pick resp (c.ask .head).req conf
      t := by
  simp only [respBuild, Conn.ask]
  rfl

/-! ## The responses -/

/-- An error page is sent in one visit, text and all. -/
theorem serves_page (hr : c.resp.phase = .abort) :
    Serves conf e c s bytes ↔ bytes = c.wire.cur.sent ++ c.page conf e := by
  have hall : smartSend (c.page conf e) (e.takesAll conf c).send_static =
      (((c.page conf e).length : ℤ), c.page conf e) := by
    refine smartSend_all (le_trans ?_ (le_max_right _ _))
    exact_mod_cast le_max_right _ _
  have hpos : ¬ (((c.page conf e).length : ℤ) ≤ 0) := by
    have : c.page conf e ≠ [] := by simp [Conn.page, respHdr, str]
    have := List.length_pos_of_ne_nil this
    omega
  -- The page is built in the buffer, and the buffer is sent.
  have hvisit : ∃ c', c'.wire.cur.sent = c.wire.cur.sent ++ c.page conf e ∧
      cnServeStatic conf (e.takesAll conf c) noteEnd noteFail c s = ⟨0, some c', s⟩ := by
    have hbuf : ∀ buf : Buf, buf = { bufReset c.buf with data := c.page conf e } →
      buf.rest = c.page conf e ∧
        Buf.rsize { buf with data_p := buf.data_p + (c.page conf e).length } ≤ 0 := by
      rintro buf rfl
      exact ⟨rfl, by simp [Buf.rsize, Buf.sz, bufReset]⟩
    unfold cnServeStatic cnSendErrorPage
    rw [hr]
    dsimp only
    obtain ⟨hrest, hsize⟩ := hbuf _ rfl
    rw [show respHdr _ conf (e.takesAll conf c).time_err ++ respMsg c.resp.status =
      c.page conf e from rfl, hrest, hall]
    dsimp only
    rw [if_neg hpos, Int.toNat_natCast, if_pos hsize]
    exact ⟨_, rfl, rfl⟩
  obtain ⟨c', hsent, he⟩ := hvisit
  rw [serves_iff, he]
  simp only [Option.some.injEq, exists_eq_left', if_true, hsent]
  exact eq_comm

/-- A header that was built and not sent, for a file that is not empty: HEAD gets the header, and
GET the file behind it. -/
theorem serves_header {m : Buf} (hr : c.resp.phase = .header) (hbad : c.buf.bad = false)
    (hp : c.buf.data_p = 0) (hdata : c.buf.data ≠ []) (hm : c.resp.mmbuf = some m)
    (hmbad : m.bad = false) (hrest : m.rest ≠ []) :
    (c.req.method = .head → (Serves conf e c s bytes ↔ bytes = c.wire.cur.sent ++ c.buf.data)) ∧
    (c.req.method = .get →
      (Serves conf e c s bytes ↔ bytes = c.wire.cur.sent ++ c.buf.data ++ m.rest)) := by
  have hwhole : c.buf.rest = c.buf.data := by rw [Buf.rest, hp, List.drop_zero]
  have hsize : c.buf.rsize = c.buf.data.length := by rw [Buf.rsize_eq _ hbad, hp]; simp
  -- The socket takes the whole header.
  have hall : smartSend c.buf.rest (e.takesAll conf c).send_static =
    ((c.buf.data.length : ℤ), c.buf.data) := by
    rw [hwhole]
    refine smartSend_all (le_trans ?_ (le_max_right _ _))
    exact_mod_cast le_max_left _ _
  have hpos : ¬ ((c.buf.data.length : ℤ) ≤ 0) := by
    have := List.length_pos_of_ne_nil hdata
    omega
  set c1 : Conn := ({ c with
    buf := { c.buf with data_p := c.buf.data_p + c.buf.data.length }
    resp := { c.resp with phase := .body } } : Conn).logSent c.buf.data with hc1
  have hsent : c1.wire.cur.sent = c.wire.cur.sent ++ c.buf.data := rfl
  -- The callback runs behind the header of HEAD; for GET the file is sent.
  have hvisit : cnServeStatic conf (e.takesAll conf c) noteEnd noteFail c s =
      if c.req.method = .head ∨ m.rsize ≤ 0 then noteEnd c1 s else ⟨1, some c1, s⟩ := by
    unfold cnServeStatic
    rw [hr]
    dsimp only
    rw [hall]
    dsimp only
    rw [if_neg hpos, hsize, if_pos rfl, Int.toNat_natCast]
    by_cases hhead : c.req.method = .head
    · exact (if_pos hhead).trans (if_pos (Or.inl hhead)).symm
    · refine (if_neg hhead).trans ?_
      rw [show c1.resp.mmbuf = some m from hm]
      simp only [hhead, false_or]
      rfl
  have hm1 : c1.resp.mmbuf = some m := hm
  refine ⟨fun hhead => ?_, fun hget => ?_⟩
  · rw [if_pos (.inl hhead)] at hvisit
    rw [serves_iff, hvisit]
    simp only [noteEnd, Option.some.injEq, exists_eq_left', if_true, hsent]
    exact eq_comm
  · have hfile : ¬ m.rsize ≤ 0 := by
      have hlen := List.length_pos_of_ne_nil hrest
      rw [Buf.rest_length] at hlen
      rw [Buf.rsize_eq m hmbad]
      omega
    rw [if_neg (by simp [hget, hfile])] at hvisit
    rw [serves_iff, hvisit]
    simp only [Option.some.injEq, exists_eq_left', one_ne_zero, if_false]
    rw [serves_body (c := c1) rfl hm1 hmbad hrest, hsent]

/-- A complete static request gets a complete response with either method. If the target resolves to
a file, the response to GET is a header and the file, and that to HEAD is the header; if not, both
are the same page. -/
theorem responds_iff (hclean : CleanTimes conf) (hc : Due c) :
    (Resolves conf e.fs c.req ∧ ∃ (resp : Resp) (file : List Byte), resp.Clean ∧
      (∀ bytes, Responds conf e (c.ask .head) s bytes ↔ bytes = respHdr resp conf e.time) ∧
      (∀ bytes, Responds conf e (c.ask .get) s bytes ↔ bytes = respHdr resp conf e.time ++ file)) ∨
    (¬ Resolves conf e.fs c.req ∧ ∃ (resp : Resp) (page : List Byte), resp.Clean ∧ page ≠ [] ∧
      (∀ bytes, Responds conf e (c.ask .head) s bytes ↔
        bytes = respHdr resp conf e.time_err ++ page) ∧
      (∀ bytes, Responds conf e (c.ask .get) s bytes ↔
        bytes = respHdr resp conf e.time_err ++ page)) := by
  have hhdrs : c.resp.hdrs = [] := by rw [hc.resp]; rfl
  obtain ⟨hfields, hresolves, hfile⟩ :=
    respBuild_eq hclean e.fs e.pick c.resp (c.ask .head).req s.fds hhdrs (.inr rfl)
  have hsame := respBuild_ask conf e.fs e.pick c.resp c s.fds
  have hprep : ∀ m, m = .get ∨ m = .head → cnPrepareStaticHeader conf e lisoConnErr (c.ask m) s =
      let out := respBuild e.fs e.pick c.resp (c.ask .head).req conf s.fds
      if out.1 = 0 then lisoConnErr { c.ask m with resp := out.2.1 } out.2.1.status
        { s with fds := out.2.2 }
      else ({ c.ask m with
        resp := { out.2.1 with phase := .header }
        buf := { bufReset c.buf with
          data := respHdr { out.2.1 with phase := .header } conf e.time } },
        { s with fds := out.2.2 }) := by
    rintro m (rfl | rfl)
    · rw [← hsame]
      rfl
    · rfl
  have hres : Resolves conf e.fs (c.ask .head).req ↔ Resolves conf e.fs c.req := Iff.rfl
  rw [hres] at hresolves
  generalize respBuild e.fs e.pick c.resp (c.ask .head).req conf s.fds =
    out at hprep hfields hresolves hfile
  dsimp only at hprep
  by_cases hbuilt : out.1 = 0
  · -- The page's header carries the request's `Connection` and the length of the text.
    refine .inr ⟨fun hr => hresolves.2 hr hbuilt, { out.2.1 with
      phase := .abort, alive := c.req.alive, clen := (respMsg out.2.1.status).length },
        respMsg out.2.1.status,
      hfields, ?_, fun bytes => ?_, fun bytes => ?_⟩
    · unfold respMsg
      split_ifs <;> decide +kernel
    all_goals
      unfold Responds
      rw [hprep _ (by simp), if_pos hbuilt, serves_page rfl]
      show bytes = c.wire.cur.sent ++ _ ↔ _
      rw [hc.sent, List.nil_append]
      rfl
  · -- The header is the same for both; behind it, GET gets the file.
    obtain ⟨m, hm, hbad, hrest⟩ := hfile hbuilt
    have hne : respHdr { out.2.1 with phase := .header } conf e.time ≠ [] := by simp [respHdr, str]
    refine .inl ⟨hresolves.1 hbuilt, { out.2.1 with phase := .header }, m.rest,
      hfields, fun bytes => ?_,
      fun bytes => ?_⟩
    all_goals
      unfold Responds
      rw [hprep _ (by simp), if_neg hbuilt]
    · rw [(serves_header rfl rfl rfl hne hm hbad hrest).1 rfl]
      show bytes = c.wire.cur.sent ++ _ ↔ _
      rw [hc.sent, List.nil_append]
    · rw [(serves_header rfl rfl rfl hne hm hbad hrest).2 rfl]
      show bytes = c.wire.cur.sent ++ _ ++ _ ↔ _
      rw [hc.sent, List.nil_append]

/-- The response to HEAD is the head of the response to GET if and only if the target resolves to a
file. -/
theorem head_agrees (hclean : CleanTimes conf) (hc : Due c) :
    (∃ g, Responds conf e (c.ask .get) s g) ∧ (∃ h, Responds conf e (c.ask .head) s h) ∧
    ∀ g h, Responds conf e (c.ask .get) s g → Responds conf e (c.ask .head) s h →
      (h = headSection g ↔ Resolves conf e.fs c.req) := by
  rcases responds_iff (e := e) (s := s) hclean hc with ⟨hres, resp, file, hresp, hhead, hget⟩ |
    ⟨hres, resp, page, hresp, hpage, hhead, hget⟩
  all_goals
    refine ⟨⟨_, (hget _).2 rfl⟩, ⟨_, (hhead _).2 rfl⟩, fun g h hg hh => ?_⟩
    rw [(hget g).1 hg, (hhead h).1 hh, headSection_respHdr hclean _ hresp]
  · exact ⟨fun _ => hres, fun _ => rfl⟩
  · refine ⟨fun h => absurd ?_ hpage, fun h => absurd h hres⟩
    exact List.append_right_eq_self.1 h

/-! ## A missing file -/

/-- A connection that has received a request. -/
def requested : Conn :=
  ((cnRecv { Sample.env with recv := some (str "GET /x HTTP/1.1\r\n\r\n") } lisoConnErr lisoDropConn
    (cnNew 5 0 [] 0) Sample.start.srv).conn).getD (cnNew 5 0 [] 0)

/-- The request is complete, and nothing was sent. -/
theorem requested_due : Due requested := by
  refine ⟨?_, ?_, ?_, ?_⟩ <;> decide +kernel

/-- The dates of the sample have no CR and no LF. -/
theorem clean_sample : CleanTimes Sample.conf := fun _ => by
  show 13 ∉ str "now"
  simp [str]

/-- For a request whose target is a file, the answer to HEAD is the header of the one to GET. -/
theorem head_agrees_file :
    (∃ g, Responds Sample.conf Sample.env (requested.ask .get) Sample.start.srv g) ∧
    (∃ h, Responds Sample.conf Sample.env (requested.ask .head) Sample.start.srv h) ∧
    ∀ g h, Responds Sample.conf Sample.env (requested.ask .get) Sample.start.srv g →
      Responds Sample.conf Sample.env (requested.ask .head) Sample.start.srv h →
      (h = headSection g ↔ Resolves Sample.conf Sample.env.fs requested.req) :=
  head_agrees clean_sample requested_due

/-- The answers with a file system in which nothing exists. -/
def noFiles : Env := { Sample.env with fs := { Sample.fs with stat := fun _ => none } }

/-- The header of the page for a missing file. -/
def missing : List Byte :=
  str ("HTTP/1.1 404 Not Found\r\nDate: now\r\nServer: Liso/1.0\r\n" ++
    "Connection: keep-alive\r\nContent-Length: 134\r\n\r\n")

/-- The page for a missing file has its text also for HEAD. -/
theorem head_differs :
    ¬ ∀ g h, Responds Sample.conf noFiles (requested.ask .get) Sample.start.srv g →
    Responds Sample.conf noFiles (requested.ask .head) Sample.start.srv h → h = headSection g := by
  intro hall
  -- The page is the whole response to both, sent in one visit.
  have hone : ∀ m, m = .get ∨ m = .head →
    Responds Sample.conf noFiles (requested.ask m) Sample.start.srv
      (missing ++ msg404) := by
    rintro m (rfl | rfl)
    · exact ⟨1, by decide +kernel⟩
    · exact ⟨1, by decide +kernel⟩
  exact absurd (hall _ _ (hone .get (.inl rfl)) (hone .head (.inr rfl))) (by decide +kernel)

end Liso
