import Liso.Aligned
import Liso.Parse.Alone
import Liso.Pieces
import Liso.Relay

/-!
# What the requests of a stream mean, and what they get

Each request of a stream is understood as its own text says (`requests_understood`). `answer` is the
response that the code makes of the text of one request, with nothing in front of it and nothing
behind it, when the request is refused or for a file; a request for a CGI gets what the CGI writes,
and `failure` when the CGI fails. `Replying` says what the client was sent of it, and the sections
of a visit up to the serving keep it.
-/

namespace Liso

open Handles (Table Picker)
open Cut (lines rest whole)

variable {conf : Conf} {l : Loop} {c c' : Conn} {s s' : Srv} {e : Env} {V W : Prop}
  {A : Set ℕ} {r : Req}
  {x y z : List Byte} {rs : List (List Byte)} {n : ℕ} {fs : Fs} {F : Set Fs}

/-! ## The meaning of a request -/

/-- Behind the head, the request is the parser's. -/
theorem Aligned.request (hrs : ∀ x ∈ rs, Framed x) (h : Aligned W rs c)
    (hp : c.req.phase = .body ∨ c.req.phase = .done) :
    ∃ x r, rs[c.wire.past.length]? = some x ∧ r.Fresh ∧ (scanHead r x).status = none ∧
      ∃ rsize phase last,
      c.req = { (scanHead r x).req with rsize := rsize, phase := phase, last_buf := last } := by
  obtain ⟨r, hr, hplace⟩ := h.place
  have hscan : (scanHead r c.wire.cur.inp).status = none →
    (scanHead r c.wire.cur.inp).req.phase = .body →
      ∃ x, rs[c.wire.past.length]? = some x ∧ scanHead r c.wire.cur.inp = scanHead r x := by
    intro hs hb
    rcases stream_scan hr hrs h.begins with ⟨ho, -⟩ | hx
    · rcases ho.2 with ho | ho <;> simp [hb] at ho
    · exact hx
  cases hplace with
  | head h => have hp' := h.phase; rcases hp' with hp' | hp' <;> simp [hp'] at hp
  | body hs hb hlt hreq =>
    obtain ⟨x, hx, he⟩ := hscan hs hb
    rw [he] at hs hreq
    exact ⟨x, r, hx, hr, hs, _, _, _, hreq⟩
  | done hs hb hle last hreq =>
    obtain ⟨x, hx, he⟩ := hscan hs hb
    rw [he] at hs hreq
    exact ⟨x, r, hx, hr, hs, _, _, _, hreq⟩
  | failed hp' => simp [hp'] at hp

/-- Each request of the stream is understood as its text says, when its parts fit, whatever was
received before it, however the stream was cut, and whatever the other connections do. -/
theorem requests_understood (hrs : ∀ x ∈ rs, Framed x)
    (h : Reach conf (Visiting (Steady False conf n rs)) l) :
    ∀ c ∈ l.srv.pool.conns, c.Unmarked ∧
      (c.wire.id = n → c.req.phase = .body ∨ c.req.phase = .done →
        ∃ x, rs[c.wire.past.length]? = some x ∧
          (0 ∉ headOf x → HeadFits x → Understood x c.req)) := by
  refine fun c hc => ⟨unmarked_inv (h.visiting fun _ _ _ h => h.1) c hc, fun hid hp => ?_⟩
  have ha := ((aligned_inv hrs (fun w => w.elim) h c hc).2 hid).1
  obtain ⟨x, r, hx, hr, hs, rsize, phase, last, hreq⟩ := ha.request hrs hp
  refine ⟨x, hx, fun hnul hfits => ?_⟩
  have hu := (hrs x (List.mem_of_getElem? hx)).understood hr hs hnul hfits
  rw [hreq]
  exact ⟨hu.method, ⟨hu.parts.uri, hu.parts.params, hu.parts.type, hu.parts.version,
    hu.parts.host, hu.parts.alive,
    hu.parts.hdrs⟩, hu.clen⟩

/-- A request that is refused, and two for one file. -/
def threeRequests : List (List Byte) :=
  [str "PUT / HTTP/1.1\r\n\r\n", str "GET /x HTTP/1.1\r\n\r\n", str "HEAD /x HTTP/1.1\r\n\r\n"]

/-- The last two arrive at once, and the first send of the second answer takes a few bytes. -/
def threeRun : List Ev :=
  Sample.connect ++ Sample.select {5} ∅ ++ [Sample.recv "PUT / HTTP/1.1\r\n\r\n", Sample.next] ++
    Sample.select ∅ {5} ++ [Sample.next, Sample.next] ++
    Sample.select {5} ∅ ++ [Sample.recv "GET /x HTTP/1.1\r\n\r\nHEAD /x HTTP/1.1\r\n\r\n",
      Sample.next] ++
    Sample.select ∅ {5} ++ [Sample.visit { Sample.env with send_static := 7 }, Sample.next] ++
    Sample.select ∅ {5} ++ [Sample.next, Sample.next] ++ Sample.select ∅ {5} ++
      [Sample.next, Sample.next] ++
    Sample.select ∅ {5} ++ [Sample.next, Sample.next]

/-- The run up to the receipt of the second request meets the conditions. -/
theorem secondRun_steady : (∀ x ∈ threeRequests, Framed x) ∧
    Runs.Along (step Sample.conf) (Visiting (Steady False Sample.conf 0 threeRequests)) Sample.start
      (threeRun.take 19) ∧
    (∃ c ∈ (Runs.exec (step Sample.conf) Sample.start (threeRun.take 19)).srv.pool.conns,
      c.wire.id = 0 ∧
      c.req.phase = .done ∧ c.wire.past.length = 1) ∧
    0 ∉ headOf (str "GET /x HTTP/1.1\r\n\r\n") := by decide +kernel

/-- The second request is understood behind one that was refused. -/
theorem requests_understood_second :
    ∃ c ∈ (Runs.exec (step Sample.conf) Sample.start (threeRun.take 19)).srv.pool.conns,
      c.wire.past.length = 1 ∧
      Understood (str "GET /x HTTP/1.1\r\n\r\n") c.req := by
  obtain ⟨hrs, hrun, ⟨c, hc, hid, hdone, hpast⟩, hnul⟩ := secondRun_steady
  have hfits : HeadFits (str "GET /x HTTP/1.1\r\n\r\n") :=
    ⟨by decide, by decide, by decide, by decide, by decide⟩
  obtain ⟨x, hx, hu⟩ := (requests_understood hrs
    ((Runs.Reach.start Sample.start_init).along _ hrun) c hc).2 hid (.inr hdone)
  rw [hpast] at hx
  obtain rfl : str "GET /x HTTP/1.1\r\n\r\n" = x := Option.some.inj hx
  exact ⟨c, hc, hpast, hu hnul hfits⟩

/-! ## The answer to one request -/

/-- The page for a response. -/
def Resp.page (conf : Conf) (t : ℤ) (alive : Bool) (resp : Resp) : List Byte :=
  respHdr { resp with alive := alive, clen := (respMsg resp.status).length } conf t ++
    respMsg resp.status

/-- The response to a request that the parser is done with, on an idle server. -/
def reply (conf : Conf) (fs : Fs) (t : ℤ) (h : Head) : List Byte :=
  match h.status with
  | some status => ({ respNew with status := status } : Resp).page conf t h.req.alive
  | none =>
    let (built, resp, _) := respBuild fs Picker.lowest respNew h.req conf ⟨[], 0⟩
    if built = 0 then resp.page conf t h.req.alive
    else respHdr resp conf t ++ if h.req.method = .head then []
      else (resp.mmbuf.map Buf.data).getD []

/-- The response to a request by its text. -/
def answer (conf : Conf) (fs : Fs) (t : ℤ) (x : List Byte) : List Byte :=
  reply conf fs t (scanHead (reqNew []) x)

/-- The server has a file for the request. -/
def Found (conf : Conf) (fs : Fs) (x : List Byte) : Prop :=
  (scanHead (reqNew []) x).status = none ∧
    (respBuild fs Picker.lowest respNew (scanHead (reqNew []) x).req conf ⟨[], 0⟩).1 ≠ 0

/-- `Found` is decidable. -/
instance (conf : Conf) (fs : Fs) (x : List Byte) : Decidable (Found conf fs x) :=
  inferInstanceAs (Decidable (_ ∧ _))

/-- The descriptor that `open` returns makes no difference, nor does what is open besides. -/
theorem respTry_idle (fs : Fs) (pick pick' : Picker) (resp : Resp) (paths : List (List Byte))
    (t t' : Table) :
    (respTry fs pick resp paths t).1 = (respTry fs pick' resp paths t').1 ∧
      (respTry fs pick resp paths t).2.1 = (respTry fs pick' resp paths t').2.1 := by
  have hone : ∀ (resp : Resp) (path : List Byte) (t t' : Table),
      (respMmap fs pick resp path t).1 = (respMmap fs pick' resp path t').1 ∧
        (respMmap fs pick resp path t).2.1 = (respMmap fs pick' resp path t').2.1 := by
    intro resp path t t'
    unfold respMmap
    split
    · exact ⟨rfl, rfl⟩
    · split
      · exact ⟨rfl, rfl⟩
      · split
        · exact ⟨rfl, rfl⟩
        · dsimp only
          split <;> exact ⟨rfl, rfl⟩
  induction paths generalizing resp t t' with
  | nil => exact ⟨rfl, rfl⟩
  | cons path paths ih =>
    obtain ⟨h1, h2⟩ := hone resp path t t'
    unfold respTry
    rcases hout : respMmap fs pick resp path t with ⟨_ | st, resp1, t1⟩ <;>
      rcases hout' : respMmap fs pick' resp path t' with ⟨_ | st', resp1', t1'⟩
        <;> rw [hout, hout'] at h1 h2
    · have h2 : resp1 = resp1' := h2
      rw [h2]
      exact ih _ _ _
    · simp at h1
    · simp at h1
    · have h1 : st = st' := Option.some.inj h1
      have h2 : resp1 = resp1' := h2
      rw [h1, h2]
      exact ⟨rfl, rfl⟩

/-- The response depends on the method, the target, and the `Connection` fields. -/
theorem respBuild_idle (fs : Fs) (pick : Picker) (resp : Resp) {req req' : Req} (t : Table)
    (hm : req.method = req'.method) (ha : req.alive = req'.alive)
    (hu : cstr req.uri = cstr req'.uri) :
    (respBuild fs pick resp req conf t).1 = (respBuild fs Picker.lowest resp req' conf ⟨[], 0⟩).1 ∧
      (respBuild fs pick resp req conf t).2.1 =
        (respBuild fs Picker.lowest resp req' conf ⟨[], 0⟩).2.1 := by
  have hpaths : respPaths req conf = respPaths req' conf := by rw [respPaths, respPaths, hu]
  obtain ⟨h1, h2⟩ := respTry_idle fs pick Picker.lowest { resp with alive := req'.alive }
    (respPaths req' conf) t ⟨[], 0⟩
  unfold respBuild
  rw [hm, ha, hpaths]
  dsimp only
  rcases hout : respTry fs pick { resp with alive := req'.alive } (respPaths req' conf)
    t with ⟨_ | ⟨st, path⟩, resp1, t1⟩ <;>
    rcases hout' : respTry fs Picker.lowest { resp with alive := req'.alive }
      (respPaths req' conf) ⟨[], 0⟩ with
      ⟨_ | ⟨st', path'⟩, resp1', t1'⟩ <;> rw [hout, hout'] at h1 h2
  · have h2 : resp1 = resp1' := h2
    rw [h2]
    exact ⟨rfl, rfl⟩
  · simp at h1
  · simp at h1
  · obtain ⟨rfl, rfl⟩ := Prod.mk.inj (Option.some.inj h1)
    have h2 : resp1 = resp1' := h2
    rw [h2]
    exact ⟨rfl, rfl⟩

/-- Two outcomes of the parser with one answer. -/
theorem reply_congr {h h' : Head} (hs : h.status = h'.status) (hm : h.req.method = h'.req.method)
    (ha : h.req.alive = h'.req.alive) (hu : cstr h.req.uri = cstr h'.req.uri) (conf : Conf)
    (fs : Fs) (t : ℤ) :
    reply conf fs t h = reply conf fs t h' := by
  obtain ⟨h1, h2⟩ := @respBuild_idle conf fs Picker.lowest respNew _ _ ⟨[], 0⟩ hm ha hu
  unfold reply
  rw [hs, ha, hm]
  split
  · rfl
  · dsimp only
    rw [h1, h2]

/-- A request of a stream of requests for files. -/
structure Plain (x : List Byte) : Prop where
  /-- It ends where its text says. -/
  framed : Framed x
  /-- The head fits into the buffer. -/
  fits : (headOf x).length ≤ BUFSZ
  /-- The target is not a scheme alone. -/
  scheme : schemeEnd (strncpy0 (targetOf x) REQ_URISZ) = none
  /-- If it is accepted, it is for a file. -/
  static : (scanHead (reqNew []) x).status = none → (scanHead (reqNew []) x).req.type = .static

/-- `Plain` is decidable. -/
instance (x : List Byte) : Decidable (Plain x) :=
  decidable_of_iff (Framed x ∧ (headOf x).length ≤ BUFSZ ∧
    schemeEnd (strncpy0 (targetOf x) REQ_URISZ) = none ∧
      ((scanHead (reqNew []) x).status = none → (scanHead (reqNew []) x).req.type = .static))
    ⟨fun h => ⟨h.1, h.2.1, h.2.2.1, h.2.2.2⟩, fun h => ⟨h.framed, h.fits, h.scheme, h.static⟩⟩

/-- A request that was just created is fresh. -/
theorem reqNew_fresh : (reqNew []).Fresh := ⟨by simp [reqNew, reqReset, storeStr], rfl⟩

/-- A request of a stream of requests for files and for CGIs. -/
structure Proper (x : List Byte) : Prop where
  /-- It ends where its text says. -/
  framed : Framed x
  /-- The head fits into the buffer. -/
  fits : (headOf x).length ≤ BUFSZ
  /-- The target is not a scheme alone. -/
  scheme : schemeEnd (strncpy0 (targetOf x) REQ_URISZ) = none

/-- `Proper` is decidable. -/
instance (x : List Byte) : Decidable (Proper x) :=
  decidable_of_iff (Framed x ∧ (headOf x).length ≤ BUFSZ ∧
    schemeEnd (strncpy0 (targetOf x) REQ_URISZ) = none)
    ⟨fun h => ⟨h.1, h.2.1, h.2.2⟩, fun h => ⟨h.framed, h.fits, h.scheme⟩⟩

/-- An accepted request for a CGI. -/
def ForCgi (x : List Byte) : Prop :=
  (scanHead (reqNew []) x).status = none ∧ (scanHead (reqNew []) x).req.type = .dynamic

/-- A request for a file is one of the mixed streams. -/
theorem Plain.proper (h : Plain x) : Proper x := ⟨h.framed, h.fits, h.scheme⟩

/-- A request for a file is not for a CGI. -/
theorem Plain.not_forCgi (h : Plain x) : ¬ ForCgi x := fun hx => by
  have ht := h.static hx.1
  simp [hx.2] at ht

/-- The answer to a request by what the parser made of it. -/
theorem Proper.answer (h : Proper x) (hr : r.Fresh) (conf : Conf) (fs : Fs) (t : ℤ) :
    answer conf fs t x = reply conf fs t (scanHead r x) := by
  have ha := scanHead_alone hr reqNew_fresh x h.scheme
  obtain ⟨hm, halive, -⟩ := ha.req.asks
  exact (reply_congr ha.status hm halive ha.req.uri conf fs t).symm

/-- Whether there is a file for a request, by what the parser made of it. -/
theorem Proper.found (h : Proper x) (hr : r.Fresh) :
    Found conf fs x ↔ (scanHead r x).status = none ∧
      (respBuild fs Picker.lowest respNew (scanHead r x).req conf ⟨[], 0⟩).1 ≠ 0 := by
  have ha := scanHead_alone hr reqNew_fresh x h.scheme
  obtain ⟨hm, halive, -⟩ := ha.req.asks
  rw [Found, ← ha.status,
    (@respBuild_idle conf fs Picker.lowest respNew _ _ ⟨[], 0⟩ hm halive ha.req.uri).1]
  exact Iff.rfl

/-- Whether a request is for a CGI is read from its text alone. -/
theorem Proper.forCgi (h : Proper x) (hr : r.Fresh) :
    ForCgi x ↔ (scanHead r x).status = none ∧ (scanHead r x).req.type = .dynamic := by
  have ha := scanHead_alone hr reqNew_fresh x h.scheme
  have ht : (scanHead r x).req.type = (scanHead (reqNew []) x).req.type := ha.req.asks.2.2
  rw [ForCgi, ← ht, ← ha.status]

/-- `Connection` is read from the text of a request alone, whatever the connection had before. -/
theorem Proper.alive (h : Proper x) (hr : r.Fresh) :
    (scanHead r x).req.alive = (scanHead (reqNew []) x).req.alive :=
  (scanHead_alone hr reqNew_fresh x h.scheme).req.asks.2.1

/-- The page for a request whose CGI failed. -/
def failure (conf : Conf) (t : ℤ) (x : List Byte) : List Byte :=
  ({ respNew with status := 500 } : Resp).page conf t (scanHead (reqNew []) x).req.alive

/-! ## What was sent of an answer -/

/-- The answer under way, from the files `F`. Under `V` the client has what the CGI wrote. -/
inductive Replying (V : Prop) (conf : Conf) (F : Set Fs) (rs : List (List Byte)) (c : Conn) : Prop
  /-- The response is not built yet. -/
  | waiting (hp : c.req.phase ≠ .abort)
      (ht : c.req.phase = .body ∨ c.req.phase = .done → c.req.type = .static)
      (hresp : c.resp = respNew) (hsent : c.wire.cur.sent = []) (hout : c.wire.cur.cgi_out = [])
  /-- The page is due. -/
  | page (hp : c.req.phase = .abort) (hg : c.cgi.phase ≠ .ready ∧ c.cgi.phase ≠ .srvToCgi)
      (hsent : c.wire.cur.sent = []) (x : List Byte) (hx : rs[c.wire.past.length]? = some x)
      (hno : ¬ ForCgi x) (fs : Fs) (hfs : fs ∈ F) (hmiss : ¬ Found conf fs x)
      (hpage : ∀ t, c.resp.page conf t c.req.alive = answer conf fs t x)
  /-- The file is sent. -/
  | file (hp : c.req.phase = .done) (ht : c.req.type = .static) (x : List Byte)
      (hx : rs[c.wire.past.length]? = some x) (hno : ¬ ForCgi x) (hdr bytes : List Byte) (n : ℕ)
      (t : ℤ) (hsend : Sending [] hdr bytes n c) (hne : bytes ≠ [])
      (hhead : c.req.method = .head → n < hdr.length) (fs : Fs) (hfs : fs ∈ F)
      (hfull : hdr ++ (if c.req.method = .head then [] else bytes) = answer conf fs t x)
  /-- A CGI answers, once it has the body. -/
  | gateway (hp : c.req.phase = .body ∨ c.req.phase = .done) (ht : c.req.type = .dynamic)
      (hresp : c.resp = { respNew with phase := .disabled })
      (hquiet : c.cgi.phase = .ready ∨ c.cgi.phase = .srvToCgi → c.wire.cur.sent = [] ∧
        c.wire.cur.cgi_out = [])
  /-- The CGI failed, and the page is due behind what was relayed. -/
  | failed (hp : c.req.phase = .abort) (hg : c.cgi.phase ≠ .ready)
      (hsent : V → c.wire.cur.sent = c.wire.cur.cgi_out) (x : List Byte)
      (hx : rs[c.wire.past.length]? = some x) (hcgi : ForCgi x)
      (halive : c.req.alive = (scanHead (reqNew []) x).req.alive)
      (hresp : c.resp = { respNew with phase := .abort, status := 500 })

/-- The answer under way depends on the request, the response, the CGI, what was sent and read, and
on the buffer behind a complete request. -/
theorem Replying.congr (h : Replying V conf F rs c) (hreq : c'.req = c.req)
    (hresp : c'.resp = c.resp) (hsent : c'.wire.cur.sent = c.wire.cur.sent)
    (hout : c'.wire.cur.cgi_out = c.wire.cur.cgi_out) (hpast : c'.wire.past = c.wire.past)
    (hg : c'.cgi = c.cgi) (hbuf : c.req.phase = .done → c'.buf = c.buf) :
    Replying V conf F rs c' := by
  cases h with
  | waiting hp ht hr hs ho =>
    exact .waiting (hreq ▸ hp) (hreq ▸ ht) (hresp.trans hr) (hsent.trans hs) (hout.trans ho)
  | page hp hg' hs x hx hno fs hfs hmiss hpage =>
    exact .page (hreq ▸ hp) (hg ▸ hg') (hsent.trans hs) x (by rw [hpast]; exact hx) hno fs hfs
      hmiss (by rw [hreq, hresp]; exact hpage)
  | file hp ht x hx hno hdr bytes n t hsend hne hhead fs hfs hfull =>
    refine .file (hreq ▸ hp) (hreq ▸ ht) x (by rw [hpast]; exact hx) hno hdr bytes n t
      ⟨hsent ▸ hsend.sent, ?_⟩ hne
      (by rw [hreq]; exact hhead) fs hfs (by rw [hreq]; exact hfull)
    rw [hresp, hbuf hp]
    exact hsend.place
  | gateway hp ht hr hq =>
    exact .gateway (hreq ▸ hp) (hreq ▸ ht) (hresp.trans hr) (by rw [hg, hsent, hout]; exact hq)
  | failed hp hg' hs x hx hcgi ha hr =>
    exact .failed (hreq ▸ hp) (hg ▸ hg') (by rw [hsent, hout]; exact hs) x (by rw [hpast]; exact hx)
      hcgi (by rw [hreq]; exact ha)
      (hresp.trans hr)

/-- An accepted request for a CGI is for one by its text. -/
theorem Aligned.forCgi (hrs : ∀ x ∈ rs, Proper x) (h : Aligned W rs c)
    (hp : c.req.phase = .body ∨ c.req.phase = .done) (ht : c.req.type = .dynamic) :
    ∃ x, rs[c.wire.past.length]? = some x ∧ ForCgi x ∧
      c.req.alive = (scanHead (reqNew []) x).req.alive := by
  obtain ⟨x, r, hx, hr, hs, rsize, phase, last, hreq⟩ :=
    h.request (fun x hx => (hrs x hx).framed) hp
  have hproper := hrs x (List.mem_of_getElem? hx)
  refine ⟨x, hx, (hproper.forCgi hr).2 ⟨hs, ?_⟩, ?_⟩
  · rw [hreq] at ht
    exact ht
  · rw [hreq]
    exact hproper.alive hr

/-- An accepted request for a file is for one by its text. -/
theorem Aligned.not_forCgi (hrs : ∀ x ∈ rs, Proper x) (h : Aligned W rs c)
    (hp : c.req.phase = .body ∨ c.req.phase = .done) (ht : c.req.type = .static) {x : List Byte}
    (hx : rs[c.wire.past.length]? = some x) : ¬ ForCgi x := by
  obtain ⟨x', r, hx', hr, hs, rsize, phase, last, hreq⟩ :=
    h.request (fun x hx => (hrs x hx).framed) hp
  obtain rfl : x' = x := by simpa [hx] using hx'.symm
  intro hcgi
  have hd := (((hrs x' (List.mem_of_getElem? hx')).forCgi hr).1 hcgi).2
  rw [hreq] at ht
  simp [hd] at ht

/-! ## Receiving -/

/-- Counting the body leaves the response to a file alone, and the one to a CGI is disabled. -/
theorem cnCountBody_reply (c : Conn) :
    (cnCountBody c).req.type = c.req.type ∧
      (c.req.phase = .body →
        (cnCountBody c).req.phase = .body ∨ (cnCountBody c).req.phase = .done) ∧
      (cnCountBody c).resp = if c.req.phase = .body ∧
        c.req.type = .dynamic then { c.resp with phase := .disabled } else c.resp := by
  have hcount : c.counted.phase = .body ∨ c.counted.phase = .done := by
    unfold Conn.counted
    dsimp only
    split <;> simp
  by_cases hb : c.req.phase = .body
  · cases ht : c.req.type with
    | static =>
      rw [cnCountBody_static hb ht]
      exact ⟨ht, fun _ => hcount, by simp⟩
    | dynamic =>
      rw [cnCountBody_dynamic hb ht]
      exact ⟨ht, fun _ => hcount, by simp [hb]⟩
  · rw [cnCountBody_other hb]
    exact ⟨rfl, fun hb' => absurd hb' hb, by simp [hb]⟩

/-- What the parsing of `y` behind `z` comes to. -/
theorem cnParseReq_reply {c₀ : Conn} (hr : r.Fresh) (h : Parsing r z c₀) (hreq : c.req = c₀.req)
    (hbuf : c.buf = ⟨z ++ y, whole LF z, false⟩) (hclean : Clean z y) (e : Env) (s : Srv) :
    (∃ status, (scanHead r (z ++ y)).status = some status ∧
      (cnParseReq e lisoConnErr c z.length s).1.req.phase = .abort ∧
        (cnParseReq e lisoConnErr c z.length s).1.req.alive = (scanHead r (z ++ y)).req.alive ∧
        (cnParseReq e lisoConnErr c z.length s).1.resp = { c.resp with phase := .abort,
                                                                       status := status } ∧
        (cnParseReq e lisoConnErr c z.length s).1.cgi = c.cgi) ∨
      (scanHead r (z ++ y)).status = none ∧
        (((scanHead r (z ++ y)).req.phase = .start ∨ (scanHead r (z ++ y)).req.phase = .header) ∧
            (cnParseReq e lisoConnErr c z.length s).1.req = (scanHead r (z ++ y)).req ∧
            (cnParseReq e lisoConnErr c z.length s).1.resp = c.resp ∨
          (scanHead r (z ++ y)).req.phase = .body ∧
            ((cnParseReq e lisoConnErr c z.length s).1.req.phase = .body ∨
              (cnParseReq e lisoConnErr c z.length s).1.req.phase = .done) ∧
            (cnParseReq e lisoConnErr c z.length s).1.req.type = (scanHead r (z ++ y)).req.type ∧
            (cnParseReq e lisoConnErr c z.length s).1.resp =
              if (scanHead r (z ++ y)).req.type = .dynamic then { c.resp with phase := .disabled }
                else c.resp) := by
  have hsound := scanHead_sound hr.phase (z ++ y)
  unfold cnParseReq
  rw [cnParseLines_eq h hreq hbuf hclean]
  cases hstatus : (scanHead r (z ++ y)).status with
  | some status => exact .inl ⟨status, rfl, rfl, rfl, rfl, rfl⟩
  | none =>
    refine .inr ⟨rfl, ?_⟩
    dsimp only
    rcases or_assoc.2 (hsound.phase hstatus) with hp | hp
    · rw [cnCountBody_other (by rcases hp with hp | hp <;> simp [hp])]
      exact .inl ⟨hp, rfl, rfl⟩
    · obtain ⟨htype, hphase, hresp⟩ := cnCountBody_reply { c with
        req := (scanHead r (z ++ y)).req, buf := ⟨z ++ y, (scanHead r (z ++ y)).used, false⟩ }
      refine .inr ⟨hp, hphase hp, htype, hresp.trans ?_⟩
      simp [hp]

/-- The answer under way behind a parsing. -/
theorem Replying.parsed {c₀ : Conn} (hr : r.Fresh) (h : Parsing r z c₀) (hreq : c.req = c₀.req)
    (hbuf : c.buf = ⟨z ++ y, whole LF z, false⟩) (hrs : ∀ x ∈ rs, Proper x)
    (hbegins : z ++ y <+: (rs.drop c.wire.past.length).flatten) (hresp : c.resp = respNew)
    (hsent : c.wire.cur.sent = []) (hout : c.wire.cur.cgi_out = []) (hg : c.cgi.phase = .idle)
    (hfs : fs ∈ F) (e : Env) (s : Srv) :
    Replying V conf F rs (cnParseReq e lisoConnErr c z.length s).1 := by
  have hframed : ∀ x ∈ rs, Framed x := fun x hx => (hrs x hx).framed
  have hscan := stream_scan hr hframed hbegins
  obtain ⟨hwire, -⟩ := cnParseReq_wire e c z.length s
  rcases cnParseReq_reply hr h hreq hbuf (stream_clean hframed hbegins h.open) e s with
    ⟨status, hs, hp, halive, hresp', hcgi⟩ | ⟨hs, ⟨hp, hreq', hresp'⟩ | ⟨hb, hp, htype, hresp'⟩⟩
  · -- Behind its head, the parser is where the request alone brings it.
    obtain ⟨x, hx, he⟩ := hscan.resolve_left fun ho => by
      have hnone := ho.1.1
      simp [hs] at hnone
    have hproper := hrs x (List.mem_of_getElem? hx)
    have hno : ¬ ForCgi x := fun hcgi => by
      have hnone := ((hproper.forCgi hr).1 hcgi).1
      rw [← he, hs] at hnone
      cases hnone
    have hmiss : ¬ Found conf fs x := fun hf => by
      have hnone := ((hproper.found hr).1 hf).1
      rw [← he, hs] at hnone
      cases hnone
    refine .page hp (by rw [hcgi, hg]; simp) (by rw [hwire]; exact hsent) x
      (by rw [hwire]; exact hx) hno fs hfs hmiss fun t => ?_
    rw [hproper.answer hr, reply, ← he, hs, halive, hresp', hresp]
    rfl
  · refine .waiting ?_ (fun hbd => ?_) (hresp'.trans hresp) (by rw [hwire]; exact hsent)
      (by rw [hwire]; exact hout)
    · rw [hreq']
      rcases hp with hp | hp <;> simp [hp]
    · rw [hreq'] at hbd
      rcases hp with hp | hp <;> simp [hp] at hbd
  · cases ht : (scanHead r (z ++ y)).req.type with
    | static =>
      rw [if_neg (by simp [ht])] at hresp'
      exact .waiting (by rcases hp with hp | hp <;> simp [hp]) (fun _ => htype.trans ht)
        (hresp'.trans hresp)
        (by rw [hwire]; exact hsent) (by rw [hwire]; exact hout)
    | dynamic =>
      rw [if_pos ht, hresp] at hresp'
      exact .gateway hp (htype.trans ht) hresp' fun _ => by rw [hwire]; exact ⟨hsent, hout⟩

/-- What the section `recv` takes from the socket leaves the answer under way as it is, or makes a
page due. -/
theorem Receipt.replying (hreceipt : Receipt e c s c') (hrs : ∀ x ∈ rs, Proper x)
    (h : Aligned W rs c) (hs : Shape c) (hsp : c.Spare) (hsend : Sends rs e c s)
    (hfs : fs ∈ F) (hdone : c.req.phase ≠ .done) (hreply : Replying V conf F rs c) :
    Replying V conf F rs c' := by
  have hframed : ∀ x ∈ rs, Framed x := fun x hx => (hrs x hx).framed
  cases hreceipt with
  | idle hc => exact hc ▸ hreply
  | handshake _ hc => exact hc ▸ hreply.congr rfl rfl rfl rfl rfl rfl fun _ => rfl
  | ignored data hp hc => exact hc ▸ hreply.congr rfl rfl rfl rfl rfl rfl fun hd => absurd hd hdone
  | full data bytes hready hp hfull hsome hne hc =>
    have ho := c.open_of hp hdone
    exact absurd hfull (not_le.2 (h.not_full hframed (fun x hx => (hrs x hx).fits) hsp ho))
  | parsed data bytes hready hp hfit hsome hpre hne hc =>
    obtain ⟨s', rfl⟩ := hc
    have hbegins : c.wire.cur.inp ++ data <+: (rs.drop c.wire.past.length).flatten := by
      have hstream :=
        ((List.prefix_append_right_inj c.wire.got).2 hpre).trans (hsend hready bytes hsome)
      have hsplit : rs.flatten = (rs.take c.wire.past.length).flatten ++
        (rs.drop c.wire.past.length).flatten := by
        rw [← List.flatten_append, List.take_append_drop]
      rw [h.got (.inr hp), hsplit, List.append_assoc] at hstream
      exact (List.prefix_append_right_inj _).1 hstream
    obtain ⟨r, hr, hplace⟩ := h.place
    cases hplace with
    | head hz =>
      have hp' := hz.phase
      -- Nothing is built before the request is complete.
      obtain ⟨hresp, hsent, hout⟩ : c.resp = respNew ∧ c.wire.cur.sent = [] ∧
        c.wire.cur.cgi_out = [] := by
        cases hreply with
        | waiting _ _ hresp hsent hout => exact ⟨hresp, hsent, hout⟩
        | page hp'' | failed hp'' => exact absurd hp'' hp
        | file hd => exact absurd hd hdone
        | gateway hbd => rcases hp' with hp' | hp' <;> simp [hp'] at hbd
      have hbuf :
        (c.received data).buf = ⟨c.wire.cur.inp ++ data, whole LF c.wire.cur.inp, false⟩ := by
        simp only [Conn.received, hz.buf]
      have hlen : c.buf.data.length = c.wire.cur.inp.length := by rw [hz.buf]
      have hg : c.cgi.phase = .idle := by
        cases hs with
        | head _ hg => exact hg
        | bodyStatic hp'' | bodyReady hp'' | bodyStream hp'' | doneStatic hp'' | doneReady hp''
        | doneStream hp'' | relay hp''
        | relayEnd hp'' | abort hp'' => rcases hp' with hp' | hp' <;> simp [hp''] at hp'
      rw [hlen]
      exact Replying.parsed (c := c.received data) hr hz rfl hbuf hrs hbegins hresp
        hsent hout hg hfs e s'
    | body hs' hb hlt hreq =>
      have hpb : c.req.phase = .body := by rw [hreq]; exact hb
      have hpb' : (c.received data).req.phase = .body := hpb
      obtain ⟨hwire, -⟩ := cnParseReq_wire e (c.received data) c.buf.data.length s'
      rw [cnParseReq_tail e _ _ _ (by simp [hpb'])] at hwire ⊢
      obtain ⟨htype, hphase, hresp'⟩ := cnCountBody_reply (c.received data)
      cases hreply with
      | waiting _ ht hresp hsent hout =>
        have ht' : (c.received data).req.type = .static := ht (.inl hpb)
        rw [if_neg (by simp [ht'])] at hresp'
        exact .waiting (by rcases hphase hpb' with hp | hp <;> simp [hp]) (fun _ => htype.trans ht')
          (hresp'.trans hresp)
          (by rw [hwire]; exact hsent) (by rw [hwire]; exact hout)
      | gateway _ ht hresp hquiet =>
        rw [if_pos ⟨hpb', ht⟩] at hresp'
        refine .gateway (hphase hpb') (htype.trans ht) (hresp'.trans ?_) fun _ => ?_
        · show { c.resp with phase := .disabled } = _
          rw [hresp]
        · rw [hwire]
          cases hs with
          | bodyReady _ _ hg => exact hquiet (.inl hg)
          | bodyStream _ _ hg => exact hquiet (.inr hg)
          | bodyStatic _ ht' => simp [ht] at ht'
          | head hp' => rcases hp' with hp' | hp' <;> simp [hpb] at hp'
          | doneStatic hp' | doneReady hp' | doneStream hp' | relay hp' | relayEnd hp'
          | abort hp' => simp [hpb] at hp'
      | page hp'' | failed hp'' => exact absurd hp'' hp
      | file hd => exact absurd hd hdone
    | done hs' hb hle last hreq => exact absurd (by rw [hreq]) hdone
    | failed hp' => exact absurd hp' hp

/-! ## Building the answer -/

/-- The preparation of a response begins the answer that the text of the request asks for. -/
theorem stepPrepare_replying (conf : Conf) (s : Srv) (hfs : e.fs ∈ F) (hs : Shape c)
    (hrs : ∀ x ∈ rs, Proper x) (h : Aligned W rs c) (hreply : Replying V conf F rs c) :
    Replying V conf F rs (stepPrepare conf e c s).1 := by
  unfold stepPrepare
  split
  case isFalse => exact hreply
  rename_i hcond
  obtain ⟨ht, hp, hr⟩ := hcond
  obtain ⟨hresp, hsent⟩ : c.resp = respNew ∧ c.wire.cur.sent = [] := by
    cases hreply with
    | waiting _ _ hresp hsent _ => exact ⟨hresp, hsent⟩
    | page hp' | failed hp' => simp [hp] at hp'
    | file _ _ _ _ _ _ _ _ _ hsend =>
      rcases hsend.place with ⟨-, hr', -⟩ | ⟨-, -, hr', -⟩ <;> simp [hr] at hr'
    | gateway _ ht' => simp [ht] at ht'
  -- The answer is built from what the parser made of the request.
  obtain ⟨x, r, hx, hfresh, hstatus, rsize, phase, last, hreq⟩ :=
    h.request (fun x hx => (hrs x hx).framed) (.inr hp)
  have hanswer := fun t => (hrs x (List.mem_of_getElem? hx)).answer hfresh conf e.fs t
  have hno := h.not_forCgi hrs (.inr hp) ht hx
  obtain ⟨hbuilt, hbresp⟩ := @respBuild_idle conf e.fs e.pick respNew c.req (scanHead r x).req s.fds
    (by rw [hreq]) (by rw [hreq]) (by rw [hreq])
  by_cases hb : (respBuild e.fs e.pick c.resp c.req conf s.fds).1 = 0
  · have hout : (cnPrepareStaticHeader conf e lisoConnErr c s).1 = (lisoConnErr
        { c with resp := (respBuild e.fs e.pick c.resp c.req conf s.fds).2.1 }
        (respBuild e.fs e.pick c.resp c.req conf s.fds).2.1.status s).1 := by
      unfold cnPrepareStaticHeader
      dsimp only
      rw [if_pos hb]
      rfl
    rw [hout]
    refine .page rfl ?_ hsent x hx hno e.fs hfs (fun hf => ?_) fun t => ?_
    · show c.cgi.phase ≠ .ready ∧ c.cgi.phase ≠ .srvToCgi
      cases hs with
      | doneStatic _ _ hg => simp [hg]
      | head hp' => rcases hp' with hp' | hp' <;> simp [hp] at hp'
      | bodyReady _ ht' | bodyStream _ ht' | doneReady _ ht' | doneStream _ ht' | relay _ ht'
      | relayEnd _ ht' =>
        simp [ht] at ht'
      | bodyStatic hp' | abort hp' => simp [hp] at hp'
    · rw [hresp, hbuilt] at hb
      exact (((hrs x (List.mem_of_getElem? hx)).found hfresh).1 hf).2 hb
    · rw [hresp] at hb ⊢
      rw [hbuilt] at hb
      rw [hanswer, reply, hstatus]
      dsimp only
      rw [if_pos hb, ← hbresp]
      show Resp.page conf t c.req.alive _ = _
      rw [hreq]
      rfl
  · obtain ⟨path, st, bytes, -, -, -, -, -, hne, -, hsend⟩ := prepared_sending (s := s) hb
    have hout : ∃ buf, c.prepared conf e s = { c with
        resp := { (respBuild e.fs e.pick c.resp c.req conf s.fds).2.1 with phase := .header },
        buf := buf } := by
      refine ⟨(c.prepared conf e s).buf, ?_⟩
      unfold Conn.prepared cnPrepareStaticHeader
      dsimp only
      rw [if_neg hb]
    obtain ⟨buf, hout⟩ := hout
    rw [hsent] at hsend
    show Replying V conf F rs (c.prepared conf e s)
    refine .file (by rw [hout]; exact hp) (by rw [hout]; exact ht) x (by rw [hout]; exact hx) hno _
      _ 0 e.time hsend hne (fun _ => respHdr_pos _ _ _) e.fs hfs ?_
    rw [hout, hanswer, reply, hstatus]
    rw [hresp] at hb ⊢
    rw [hbuilt] at hb
    dsimp only
    rw [if_neg hb, ← hbresp, hreq]
    rfl

/-- A request for a CGI that fails. -/
theorem Replying.fails (hrs : ∀ x ∈ rs, Proper x) (h : Aligned W rs c)
    (hp : c.req.phase = .body ∨ c.req.phase = .done) (ht : c.req.type = .dynamic)
    (hresp : c.resp = { respNew with phase := .disabled })
    (hsent : V → c.wire.cur.sent = c.wire.cur.cgi_out) (hreq : c'.req = c.req)
    (hresp' : ∃ phase, c'.resp = { c.resp with phase := phase }) (hg : c'.cgi.phase ≠ .ready)
    (hpast : c'.wire.past = c.wire.past) (hsent' : c'.wire.cur.sent = c.wire.cur.sent)
    (hout : c'.wire.cur.cgi_out = c.wire.cur.cgi_out) (s : Srv) :
    Replying V conf F rs (lisoConnErr c' 500 s).1 := by
  obtain ⟨x, hx, hcgi, halive⟩ := h.forCgi hrs hp ht
  obtain ⟨phase, hresp'⟩ := hresp'
  refine .failed rfl hg (fun v => ?_) x (by rw [← hpast] at hx; exact hx) hcgi ?_ ?_
  · show c'.wire.cur.sent = c'.wire.cur.cgi_out
    rw [hsent', hout, hsent v]
  · show c'.req.alive = _
    rw [hreq, halive]
  · show { c'.resp with phase := .abort, status := 500 } = _
    rw [hresp', hresp]

/-- The start of a CGI leaves the answer to the CGI, or makes a page due. -/
theorem stepInitCgi_replying (s : Srv) (hs : Shape c) (hrs : ∀ x ∈ rs, Proper x)
    (h : Aligned W rs c) (hreply : Replying V conf F rs c) :
    Replying V conf F rs (stepInitCgi e c s).1 := by
  rcases stepInitCgi_cases e c s with ⟨-, he⟩ | ⟨ht, hg, -, he⟩ | ⟨ht, hg, -, he⟩ <;> rw [he]
  · exact hreply
  all_goals
    obtain ⟨hp, hresp, hsent, hout⟩ : (c.req.phase = .body ∨ c.req.phase = .done) ∧
        c.resp = { respNew with phase := .disabled } ∧ c.wire.cur.sent = [] ∧
          c.wire.cur.cgi_out = [] := by
      cases hreply with
      | gateway hp _ hresp hquiet => exact ⟨hp, hresp, hquiet (.inl hg)⟩
      | waiting _ ht' =>
        cases hs with
        | bodyReady hp | doneReady hp => simp [ht' (by simp [hp])] at ht
        | head _ hg' | bodyStatic _ _ hg' | bodyStream _ _ hg' | doneStatic _ _ hg'
        | doneStream _ _ hg' | relay _ _ hg'
        | relayEnd _ _ hg' => simp [hg] at hg'
        | abort hp => contradiction
      | page _ hg' => exact absurd hg hg'.1
      | file _ ht' => simp [ht] at ht'
      | failed _ hg' => exact absurd hg hg'
  · exact .gateway hp ht hresp fun _ => ⟨hsent, hout⟩
  · refine .fails hrs h hp ht hresp (fun _ => hsent.trans hout.symm) ?_ ⟨.abort, ?_⟩ ?_ ?_ ?_ ?_ _
    · rfl
    · rfl
    · simp
    · rfl
    · rfl
    · rfl

/-- The streaming to the CGI leaves the answer to the CGI, or makes a page due. -/
theorem stepStream_replying (s : Srv) (hs : Shape c) (hrs : ∀ x ∈ rs, Proper x) (h : Aligned W rs c)
    (hreply : Replying V conf F rs c) : Replying V conf F rs (stepStream e c s).1 := by
  by_cases hcond : c.req.type = .dynamic ∧ c.cgi.phase = .srvToCgi
  case neg =>
    rw [show stepStream e c s = (c, s) from if_neg hcond]
    exact hreply
  obtain ⟨ht, hg⟩ := hcond
  -- Either the CGI of an accepted request is fed, or it failed.
  cases hreply with
  | waiting hp ht' =>
    cases hs with
    | bodyStream hp' | doneStream hp' => simp [ht' (by simp [hp'])] at ht
    | head _ hg' | bodyStatic _ _ hg' | bodyReady _ _ hg' | doneStatic _ _ hg' | doneReady _ _ hg'
    | relay _ _ hg'
    | relayEnd _ _ hg' => simp [hg] at hg'
    | abort hp' => exact absurd hp' hp
  | page _ hg' => exact absurd hg hg'.2
  | file _ ht' => simp [ht] at ht'
  | gateway hp _ hresp hquiet =>
    obtain ⟨hsent, hout⟩ := hquiet (.inr hg)
    rcases stepStream_cases e c s with ⟨hno, -⟩ | ⟨-, -, -, he⟩ | ⟨-, -, -, -, he⟩
      | ⟨-, -, -, -, he⟩
    · exact absurd ⟨ht, hg⟩ hno
    · rw [he]
      refine .fails hrs h hp ht hresp (fun _ => hsent.trans hout.symm) ?_ ⟨c.resp.phase, ?_⟩ ?_ ?_
        ?_ ?_ _
      · rfl
      · rfl
      · simp [Conn.logIn, hg]
      · rfl
      · rfl
      · rfl
    · rw [he]
      exact .gateway hp ht hresp fun _ => ⟨hsent, hout⟩
    · rw [he]
      exact .gateway hp ht hresp fun _ => ⟨hsent, hout⟩
  | failed hp hg' hsent x hx hcgi halive hresp =>
    rcases stepStream_cases e c s with ⟨hno, -⟩ | ⟨-, -, -, he⟩ | ⟨-, -, -, -, he⟩
      | ⟨-, -, -, hp', -⟩
    · exact absurd ⟨ht, hg⟩ hno
    · rw [he]
      refine .failed rfl hg' hsent x hx hcgi halive ?_
      show { c.resp with phase := .abort, status := 500 } = _
      rw [hresp]
    · rw [he]
      exact .failed hp hg' hsent x hx hcgi halive hresp
    · simp [hp] at hp'

/-- The preparation of a response leaves the history alone, the socket, and the type of the
request. -/
theorem stepPrepare_keeps (conf : Conf) (e : Env) (c : Conn) (s : Srv) :
    (stepPrepare conf e c s).1.wire = c.wire ∧ (stepPrepare conf e c s).1.fd = c.fd ∧
      (stepPrepare conf e c s).1.req.type = c.req.type := by
  unfold stepPrepare
  split
  · unfold cnPrepareStaticHeader
    dsimp only
    split <;> exact ⟨rfl, rfl, rfl⟩
  · exact ⟨rfl, rfl, rfl⟩

/-- The sections between the receipt and the serving end no exchange, and send nothing. -/
theorem stepMiddle_history (conf : Conf) (e : Env) (c : Conn) (s : Srv) :
    (stepMiddle conf e c s).1.wire.past = c.wire.past ∧
      (stepMiddle conf e c s).1.wire.cur.sent = c.wire.cur.sent := by
  rw [stepMiddle_eq_transit, ← (stepPrepare_keeps conf e c (stepLogerr c s)).1]
  unfold stepTransit
  generalize stepPrepare conf e c (stepLogerr c s) = q
  have h2 : (stepInitCgi e q.1 q.2).1.wire = q.1.wire := by
    rcases stepInitCgi_cases e q.1 q.2 with ⟨-, he⟩ | ⟨-, -, -, he⟩ | ⟨-, -, -, he⟩
      <;> rw [he]
    rfl
  rw [← h2]
  generalize stepInitCgi e q.1 q.2 = q'
  rcases stepStream_cases e q'.1 (stepSelect q'.1 q'.2) with ⟨-, he⟩ | ⟨-, -, -, he⟩
    | ⟨-, -, -, -, he⟩ | ⟨-, -, -, -, he⟩ <;> rw [he] <;> exact ⟨rfl, rfl⟩

/-- The sections between the receipt and the serving. -/
theorem stepMiddle_replying (conf : Conf) (hfs : e.fs ∈ F) (hR : Recvd False c s)
    (hrs : ∀ x ∈ rs, Proper x) (h : Aligned False rs c) (hreply : Replying V conf F rs c) :
    Replying V conf F rs (stepMiddle conf e c s).1 := by
  have hprep := stepPrepare_recvd conf e (stepLogerr_recvd hR)
  have hinit := (stepInitCgi_recvd e hprep).1
  have h1 := stepPrepare_aligned conf e (stepLogerr c s) h
  have h2 := stepInitCgi_aligned e (stepPrepare conf e c (stepLogerr c s)).2 h1 fun w => w.elim
  have hreply1 := stepPrepare_replying conf (stepLogerr c s) hfs hR.shape hrs h hreply
  rw [stepMiddle_eq_transit]
  exact stepStream_replying _ hinit.shape hrs h2 (stepInitCgi_replying _ hprep.shape hrs h1 hreply1)

/-- The section `stream from cgi`, when all that was read before is at the client. -/
theorem stepFromCgi_replying (s : Srv) (hs : Shape c) (hrs : ∀ x ∈ rs, Proper x)
    (h : Aligned W rs c) (hreply : Replying V conf F rs c)
    (hrelay : V → c.cgi.phase = .cgiToSrv → c.cgi.buf_phase = .recv →
      c.wire.cur.sent = c.wire.cur.cgi_out) :
    Replying V conf F rs (stepFromCgi e c s).1 ∧ (stepFromCgi e c s).1.wire.past = c.wire.past := by
  rcases stepFromCgi_cases e c s with ⟨s', he, -⟩ | ⟨d, -, -, hg, hb, hout⟩
  · rw [he]
    exact ⟨hreply, rfl⟩
  obtain ⟨hp, ht⟩ : c.req.phase = .done ∧ c.req.type = .dynamic := by
    cases hs with
    | relay hp ht => exact ⟨hp, ht⟩
    | abort _ _ _ hg' => exact absurd hg hg'
    | head _ hg' | bodyStatic _ _ hg' | bodyReady _ _ hg' | bodyStream _ _ hg' | doneStatic _ _ hg'
    | doneReady _ _ hg'
    | doneStream _ _ hg' | relayEnd _ _ hg' => simp [hg] at hg'
  have hresp : c.resp = { respNew with phase := .disabled } := by
    cases hreply with
    | gateway _ _ hresp => exact hresp
    | waiting _ ht' =>
      have ht' := ht' (.inr hp)
      simp [ht] at ht'
    | file _ ht' => simp [ht] at ht'
    | page hp' | failed hp' => simp [hp] at hp'
  rcases hout with ⟨-, he⟩ | ⟨data, -, -, he⟩ | ⟨-, he⟩ <;> rw [he]
  · refine ⟨.fails hrs h (.inr hp) ht hresp (fun v => hrelay v hg hb) ?_ ⟨c.resp.phase, ?_⟩ ?_
      ?_ ?_ ?_ _, rfl⟩
    · rfl
    · rfl
    · simp
    · rfl
    · rfl
    · rfl
  · exact ⟨.gateway (.inr hp) ht hresp fun hg' => by simp [Conn.fed, hg] at hg', rfl⟩
  · exact ⟨.gateway (.inr hp) ht hresp fun hg' => by simp at hg', rfl⟩

end Liso
