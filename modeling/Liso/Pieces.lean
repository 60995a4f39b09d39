import Liso.Head

/-!
# Responses that are sent in pieces

A send may take a part of the bytes that it is offered, and the handler is called again when the
socket is ready. Here the handlers that send a file and an error page are called again and again,
each time with other answers of the outside world and with callbacks that only report. A file
arrives whole, unless the method is HEAD and the first send does not take the whole header: the
success callback runs all the same (`static_delivered`). An error page is built and sent from its
first byte in every call, so that it arrives once if and only if the first send takes all of it
(`page_delivered`).
-/

namespace Liso

open Handles (Table Picker)

variable {conf : Conf} {e : Env} {c c' : Conn} {s s' : Srv} {hdr bytes before : List Byte} {n : ℕ}
  {calls : List (Env × Srv)}

/-- The connection after some calls of a handler, and whether the success callback ran in the last
of them; nothing if the connection was dropped. Every call has its own answers of the outside world,
and the server as the other connections left it. -/
def afterCalls (f : Env → Conn → Srv → Ret) : List (Env × Srv) → Conn → Option (Bool × Conn)
  | [], c => some (false, c)
  | (e, s) :: calls, c =>
    (f e c s).conn.bind fun c' => if (f e c s).rc = 0 then some (true, c')
      else afterCalls f calls c'

/-- The client has received a prefix of `full` behind `before`, and all of it when the success
callback ran. -/
def Delivers (before full : List Byte) (out : Option (Bool × Conn)) : Prop :=
  ∃ ended c sent, out = some (ended, c) ∧ c.wire.cur.sent = before ++ sent ∧ sent <+: full ∧
    (ended = true → sent = full)

/-! ## A file -/

/-- The bytes of the file that is being sent. -/
def Conn.file (c : Conn) : List Byte := (c.resp.mmbuf.map Buf.data).getD []

/-- The connection once the header of its response is built. -/
def Conn.prepared (conf : Conf) (e : Env) (c : Conn) (s : Srv) : Conn :=
  (cnPrepareStaticHeader conf e lisoConnErr c s).1

/-- The whole response: the header, and the file unless the method is HEAD. -/
def Conn.response (conf : Conf) (t : ℤ) (c : Conn) : List Byte :=
  respHdr c.resp conf t ++ if c.req.method = .head then [] else c.file

/-- A send that is offered bytes takes some of them. -/
theorem smartSend_some {data : List Byte} {rc : ℤ} (hrc : 0 < rc) (hdata : data ≠ []) :
    ∃ k : ℕ, 0 < k ∧ (k : ℤ) = min rc data.length ∧ smartSend data rc = ((k : ℤ), data.take k) := by
  have hlen := List.length_pos_of_ne_nil hdata
  refine ⟨(min rc data.length).toNat, by omega, by omega, ?_⟩
  rw [smartSend, Int.toNat_of_nonneg (by omega)]

/-- The connection after a send took `k` bytes of its header. -/
def Conn.headSent (c : Conn) (k : ℕ) : Conn :=
  ({ c with
      buf := { c.buf with data_p := c.buf.data_p + k }
      resp := { c.resp with phase := if (k : ℤ) = c.buf.rsize then .body else .header } } :
        Conn).logSent
    (c.buf.rest.take k)

/-- The connection after a send took `k` bytes of its file. -/
def Conn.fileSent (c : Conn) (m : Buf) (k : ℕ) : Conn :=
  ({ c with resp := { c.resp with mmbuf := some { m with data_p := m.data_p + k } } } :
    Conn).logSent
    ((m.rest.take BUFSZ).take k)

/-- A call that sends the header. -/
theorem serve_header {m : Buf} {k : ℕ} (conf : Conf) (s : Srv) (hr : c.resp.phase = .header)
    (hm : c.resp.mmbuf = some m) (hk : 0 < k)
    (hsend : smartSend c.buf.rest e.send_static = ((k : ℤ), c.buf.rest.take k)) :
    cnServeStatic conf e noteEnd noteFail c s =
      if c.req.method = .head ∨ m.rsize ≤ 0 then ⟨0, some (c.headSent k), s⟩
        else ⟨1, some (c.headSent k), s⟩ := by
  unfold cnServeStatic
  rw [hr]
  dsimp only
  rw [hsend]
  dsimp only
  rw [if_neg (by omega), Int.toNat_natCast]
  by_cases hhead : c.req.method = .head
  · exact (if_pos hhead).trans (if_pos (.inl hhead)).symm
  · refine (if_neg hhead).trans ?_
    split
    · rename_i hnone
      exact absurd (hm.symm.trans hnone) (by simp)
    · rename_i m' hm'
      obtain rfl : m = m' := Option.some.inj (hm.symm.trans hm')
      simp only [hhead, false_or]
      rfl

/-- A call that sends a chunk of the file. -/
theorem serve_file {m : Buf} {k : ℕ} (conf : Conf) (s : Srv) (hr : c.resp.phase = .body)
    (hm : c.resp.mmbuf = some m) (hk : 0 < k)
    (hsend : smartSend (m.rest.take BUFSZ) e.send_static = ((k : ℤ), (m.rest.take BUFSZ).take k)) :
    cnServeStatic conf e noteEnd noteFail c s =
      if Buf.rsize { m with data_p := m.data_p + k } ≤ 0 then ⟨0, some (c.fileSent m k), s⟩
      else ⟨1, some (c.fileSent m k), s⟩ := by
  unfold cnServeStatic
  rw [hr]
  dsimp only
  rw [hm]
  dsimp only
  rw [hsend]
  dsimp only
  rw [if_neg (by omega), Int.toNat_natCast]
  rfl

/-- The header and the file have been sent up to the byte `n`, which one of the two cursors points
at. -/
structure Sending (before hdr bytes : List Byte) (n : ℕ) (c : Conn) : Prop where
  /-- The bytes sent. -/
  sent : c.wire.cur.sent = before ++ (hdr ++ bytes).take n
  /-- The header is sent from the buffer, and the file from its own. -/
  place : n < hdr.length ∧ c.resp.phase = .header ∧ c.buf = ⟨hdr, n, false⟩ ∧
    c.resp.mmbuf = some ⟨bytes, 0, false⟩ ∨
    hdr.length ≤ n ∧ n < (hdr ++ bytes).length ∧ c.resp.phase = .body ∧
      c.resp.mmbuf = some ⟨bytes, n - hdr.length, false⟩

/-- A call while the header is being sent. -/
theorem Sending.header (h : Sending before hdr bytes n c) (hn : n < hdr.length)
    (hbytes : bytes ≠ []) (hpos : 0 < e.send_static) (conf : Conf) (s : Srv) :
    ∃ k : ℕ, (k : ℤ) = min e.send_static (hdr.length - n) ∧
      cnServeStatic conf e noteEnd noteFail c s =
        (if c.req.method = .head then ⟨0, some (c.headSent k), s⟩
          else ⟨1, some (c.headSent k), s⟩) ∧
      Sending before hdr bytes (n + k) (c.headSent k) := by
  obtain ⟨hphase, hbuf, hmm⟩ : c.resp.phase = .header ∧ c.buf = ⟨hdr, n, false⟩ ∧
    c.resp.mmbuf = some ⟨bytes, 0, false⟩ := by
    rcases h.place with h | h
    · exact h.2
    · omega
  have hlen := List.length_pos_of_ne_nil hbytes
  have htotal : (hdr ++ bytes).length = hdr.length + bytes.length := List.length_append
  have hrest : c.buf.rest = hdr.drop n := by rw [hbuf]; rfl
  have hsize : c.buf.rsize = (hdr.length : ℤ) - n := by rw [hbuf]; exact Buf.rsize_eq _ rfl
  have hfile : ¬ Buf.rsize ⟨bytes, 0, false⟩ ≤ 0 := by
    rw [Buf.rsize_eq _ rfl]
    dsimp only
    omega
  have hne : c.buf.rest ≠ [] := by simp [hrest, hn]
  obtain ⟨k, hk, hcount, hsend⟩ := smartSend_some hpos hne
  rw [hrest, List.length_drop] at hcount
  have hle : k ≤ hdr.length - n := by omega
  refine ⟨k, by omega, ?_, ?_, ?_⟩
  · rw [serve_header conf s hphase hmm hk hsend]
    simp only [hfile, or_false]
  · -- The bytes taken follow those sent before.
    have hdata : (hdr.drop n).take k = ((hdr ++ bytes).drop n).take k := by
      rw [List.drop_append_of_le_length hn.le,
        List.take_append_of_le_length (by rw [List.length_drop]; exact hle)]
    show c.wire.cur.sent ++ c.buf.rest.take k = _
    rw [h.sent, hrest, hdata, List.append_assoc, ← List.take_add]
  · by_cases hall : (k : ℤ) = c.buf.rsize
    · refine .inr ⟨by omega, by omega, if_pos hall, ?_⟩
      show c.resp.mmbuf = _
      rw [hmm, show n + k - hdr.length = 0 by omega]
    · refine .inl ⟨by omega, if_neg hall, ?_, hmm⟩
      show ({ c.buf with data_p := c.buf.data_p + k } : Buf) = _
      rw [hbuf]

/-- A call while the file is being sent takes some bytes of it. -/
theorem Sending.takes (h : Sending before hdr bytes n c) (hn : hdr.length ≤ n)
    (hpos : 0 < e.send_static) (conf : Conf) (s : Srv) :
    ∃ k m, 0 < k ∧ (c.fileSent m k).wire.cur.sent = before ++ (hdr ++ bytes).take (n + k) ∧
      (n + k = (hdr ++ bytes).length ∧ cnServeStatic conf e noteEnd noteFail c s =
        ⟨0, some (c.fileSent m k), s⟩ ∨
        cnServeStatic conf e noteEnd noteFail c s = ⟨1, some (c.fileSent m k), s⟩ ∧
          Sending before hdr bytes (n + k) (c.fileSent m k)) := by
  obtain ⟨hlt, hphase, hmm⟩ : n < (hdr ++ bytes).length ∧ c.resp.phase = .body ∧
      c.resp.mmbuf = some ⟨bytes, n - hdr.length, false⟩ := by
    rcases h.place with h | h
    · omega
    · exact h.2
  have htotal : (hdr ++ bytes).length = hdr.length + bytes.length := List.length_append
  -- What is offered is the part of header and file behind the first `n` bytes.
  have hrest : Buf.rest ⟨bytes, n - hdr.length, false⟩ = (hdr ++ bytes).drop n := by
    rw [List.drop_append, List.drop_of_length_le hn, List.nil_append]
    rfl
  have hne : (Buf.rest ⟨bytes, n - hdr.length, false⟩).take BUFSZ ≠ [] := by
    apply List.ne_nil_of_length_pos
    rw [hrest, List.length_take, List.length_drop]
    exact lt_min (by decide) (by omega)
  obtain ⟨k, hk, hcount, hsend⟩ := smartSend_some hpos hne
  rw [hrest, List.length_take, List.length_drop] at hcount
  have hend : Buf.rsize ⟨bytes, n - hdr.length + k, false⟩ ≤ 0 ↔ n + k = (hdr ++ bytes).length := by
    rw [Buf.rsize_eq _ rfl]
    dsimp only
    omega
  have hsent : (c.fileSent ⟨bytes, n - hdr.length, false⟩ k).wire.cur.sent = before ++
    (hdr ++ bytes).take (n + k) := by
    show c.wire.cur.sent ++ ((Buf.rest ⟨bytes, n - hdr.length, false⟩).take BUFSZ).take k = _
    rw [h.sent, hrest, List.take_take, min_eq_left (by omega), List.append_assoc, ← List.take_add]
  refine ⟨k, _, hk, hsent, ?_⟩
  rw [serve_file conf s hphase hmm hk hsend]
  by_cases hfin : n + k = (hdr ++ bytes).length
  · exact .inl ⟨hfin, if_pos (hend.2 hfin)⟩
  · refine .inr ⟨if_neg fun h => hfin (hend.1 h), hsent, .inr ⟨by omega, by omega, hphase, ?_⟩⟩
    show some _ = some _
    rw [show n + k - hdr.length = n - hdr.length + k by omega]

/-- A call while the file is being sent. -/
theorem Sending.file (h : Sending before hdr bytes n c) (hn : hdr.length ≤ n)
    (hpos : 0 < e.send_static) (conf : Conf) (s : Srv) :
    ∃ k m, (c.fileSent m k).wire.cur.sent = before ++ (hdr ++ bytes).take (n + k) ∧
      (n + k = (hdr ++ bytes).length ∧ cnServeStatic conf e noteEnd noteFail c s =
        ⟨0, some (c.fileSent m k), s⟩ ∨
        cnServeStatic conf e noteEnd noteFail c s = ⟨1, some (c.fileSent m k), s⟩ ∧
          Sending before hdr bytes (n + k) (c.fileSent m k)) := by
  obtain ⟨k, m, -, hsent, hout⟩ := h.takes hn hpos conf s
  exact ⟨k, m, hsent, hout⟩

/-- Any number of calls for a method that gets the file. -/
theorem Sending.delivers (h : Sending before hdr bytes n c) (hm : c.req.method ≠ .head)
    (hbytes : bytes ≠ []) (hpos : ∀ call ∈ calls, 0 < call.1.send_static) (conf : Conf) :
    Delivers before (hdr ++ bytes)
    (afterCalls (fun e c s => cnServeStatic conf e noteEnd noteFail c s) calls c) := by
  induction calls generalizing n c with
  | nil => exact ⟨false, c, _, rfl, h.sent, List.take_prefix _ _, by simp⟩
  | cons call calls ih =>
    obtain ⟨e, s⟩ := call
    have he : 0 < e.send_static := hpos (e, s) (by simp)
    have hrest : ∀ call ∈ calls, 0 < call.1.send_static :=
      fun call hcall => hpos call (List.mem_cons_of_mem _ hcall)
    unfold afterCalls
    rcases lt_or_ge n hdr.length with hn | hn
    · obtain ⟨k, -, hout, hnext⟩ := h.header hn hbytes he conf s
      rw [if_neg hm] at hout
      rw [hout]
      exact ih hnext hm hrest
    · obtain ⟨k, m, hsent, ⟨hfin, hout⟩ | ⟨hout, hnext⟩⟩ := h.file hn he conf s
      · rw [hout]
        refine ⟨true, _, hdr ++ bytes, rfl, ?_, List.prefix_rfl, fun _ => rfl⟩
        rw [hsent, hfin, List.take_length]
      · rw [hout]
        exact ih hnext hm hrest

/-- `resp_build` accepts a file that is not empty, and announces its size. -/
theorem respBuild_file {fs : Fs} {resp : Resp} {req : Req} {t : Table} (pick : Picker)
    (hb : (respBuild fs pick resp req conf t).1 ≠ 0) :
    ∃ path st bytes, (respPaths req conf).find? fs.mappable = some path ∧ fs.stat path = some st ∧
      fs.mmap path = some bytes ∧ 0 < st.size ∧
        (respBuild fs pick resp req conf t).2.1.clen = st.size ∧
      (respBuild fs pick resp req conf t).2.1.mmbuf = some ⟨bytes.takeD st.size 0, 0, false⟩ := by
  have htry := respTry_eq fs pick { resp with alive := req.alive } (respPaths req conf) t
  unfold respBuild at hb ⊢
  dsimp only at hb ⊢
  rcases hout : respTry fs pick { resp with alive := req.alive } (respPaths req conf)
    t with ⟨found, resp', t'⟩
  rw [hout] at htry hb
  rcases htry with ⟨path, st, bytes, hfind, hst, hmap, hfound, hresp⟩ | ⟨-, hfound, -⟩
  · obtain rfl : found = some (st, path) := hfound
    have hresp : resp'.mmbuf = some ⟨bytes.takeD st.size 0, 0, false⟩ := by
      rw [show resp' = _ from hresp]
    have hb : st.size % 2 ^ 32 ≠ 0 := hb
    have hsize : 0 < st.size := Nat.pos_of_ne_zero fun h0 => hb (by rw [h0]; rfl)
    refine ⟨path, st, bytes, hfind, hst, hmap, hsize, ?_, ?_⟩
    · dsimp only
      split <;> rfl
    · dsimp only
      split <;> exact hresp
  · obtain rfl : found = none := hfound
    exact absurd rfl hb

/-- A header is not empty. -/
theorem respHdr_pos (resp : Resp) (conf : Conf) (t : ℤ) : 0 < (respHdr resp conf t).length :=
  List.length_pos_of_ne_nil (by simp [respHdr, str])

/-- The connection whose header is built. -/
theorem prepared_sending (hb : (respBuild e.fs e.pick c.resp c.req conf s.fds).1 ≠ 0) :
    ∃ path st bytes, (respPaths c.req conf).find? e.fs.mappable = some path ∧
      e.fs.stat path = some st ∧
      e.fs.mmap path = some bytes ∧ (c.prepared conf e s).file = bytes.takeD st.size 0 ∧
      (c.prepared conf e s).resp.clen = (c.prepared conf e s).file.length ∧
        (c.prepared conf e s).file ≠ [] ∧
      (c.prepared conf e s).req = c.req ∧
      Sending c.wire.cur.sent (respHdr (c.prepared conf e s).resp conf e.time)
      (c.prepared conf e s).file 0
        (c.prepared conf e s) := by
  obtain ⟨path, st, bytes, hfind, hst, hmap, hsize, hclen, hmm⟩ := respBuild_file e.pick hb
  have hout : ∃ resp : Resp,
    resp = { (respBuild e.fs e.pick c.resp c.req conf s.fds).2.1 with phase := .header } ∧
      c.prepared conf e s = { c with resp := resp,
                                     buf := { bufReset c.buf with data := respHdr resp conf e.time }
                                       } := by
    refine ⟨_, rfl, ?_⟩
    unfold Conn.prepared cnPrepareStaticHeader
    dsimp only
    rw [if_neg hb]
  obtain ⟨resp, hresp, hout⟩ := hout
  have hmm : resp.mmbuf = some ⟨bytes.takeD st.size 0, 0, false⟩ := by rw [hresp, ← hmm]
  have hclen : resp.clen = st.size := by rw [hresp, ← hclen]
  -- The mapping has the size that `stat` gave.
  have hlen : (bytes.takeD st.size 0).length = st.size := List.takeD_length _ _ _
  have hfile : (c.prepared conf e s).file = bytes.takeD st.size 0 := by
    rw [hout, Conn.file]
    simp only [hmm, Option.map_some, Option.getD_some]
  refine ⟨path, st, bytes, hfind, hst, hmap, hfile, ?_, ?_, ?_, ?_⟩
  · rw [hfile, hlen, ← hclen, hout]
  · rw [hfile]
    exact List.ne_nil_of_length_pos (by omega)
  · rw [hout]
  · refine ⟨by rw [hout]; simp,
      .inl ⟨respHdr_pos _ _ _, by rw [hout, hresp], by rw [hout]; rfl, ?_⟩⟩
    rw [hfile, hout]
    exact hmm

/-- A file arrives whole if and only if the method is not HEAD or the first send takes the whole
header. -/
theorem static_delivered (conf : Conf) (e : Env) (c : Conn) (s : Srv)
    (hb : (respBuild e.fs e.pick c.resp c.req conf s.fds).1 ≠ 0) (calls : List (Env × Srv))
    (hpos : ∀ call ∈ calls, 0 < call.1.send_static) :
    (∃ path st bytes, (respPaths c.req conf).find? e.fs.mappable = some path ∧
      e.fs.stat path = some st ∧
        e.fs.mmap path = some bytes ∧ (c.prepared conf e s).file = bytes.takeD st.size 0 ∧
        (c.prepared conf e s).resp.clen = (c.prepared conf e s).file.length) ∧
      (Delivers c.wire.cur.sent ((c.prepared conf e s).response conf e.time)
          (afterCalls (fun e c s => cnServeStatic conf e noteEnd noteFail c s)
            calls (c.prepared conf e s)) ↔
        (c.req.method = .head → ∀ call ∈ calls.head?,
          (respHdr (c.prepared conf e s).resp conf e.time).length ≤ call.1.send_static)) := by
  obtain ⟨path, st, bytes, hfind, hst, hmap, hfile, hclen, hne, hreq, hsend⟩ := prepared_sending hb
  refine ⟨⟨path, st, bytes, hfind, hst, hmap, hfile, hclen⟩, ?_⟩
  rw [Conn.response, hreq]
  have hhdr := respHdr_pos (c.prepared conf e s).resp conf e.time
  generalize respHdr (c.prepared conf e s).resp conf e.time = hdr at hsend hhdr ⊢
  by_cases hm : c.req.method = .head
  · rw [if_pos hm, List.append_nil]
    cases calls with
    | nil =>
      refine iff_of_true ⟨false, _, [], rfl, ?_, List.nil_prefix, by simp⟩ (by simp)
      simpa using hsend.sent
    | cons call calls =>
      obtain ⟨e1, s1⟩ := call
      -- The first call runs the callback, however much of the header is taken.
      have he1 : 0 < e1.send_static := hpos (e1, s1) (by simp)
      obtain ⟨k, hk, hout, hnext⟩ := hsend.header hhdr hne he1 conf s1
      rw [if_pos (by rw [hreq]; exact hm)] at hout
      have hk1 : k ≤ hdr.length := by omega
      have hsent := hnext.sent
      rw [Nat.zero_add, List.take_append_of_le_length hk1] at hsent
      unfold afterCalls
      rw [hout]
      simp only [hm, forall_true_left, List.head?_cons, Option.mem_some_iff, forall_eq',
        Option.bind_some, if_true]
      constructor
      · rintro ⟨ended, c', sent, hc', hs', -, hend⟩
        obtain ⟨rfl, rfl⟩ := Prod.mk.inj (Option.some.inj hc')
        rw [hsent, hend rfl] at hs'
        have hlen := congrArg List.length (List.append_cancel_left hs')
        rw [List.length_take] at hlen
        show (hdr.length : ℤ) ≤ e1.send_static
        omega
      · intro hle
        have hle : (hdr.length : ℤ) ≤ e1.send_static := hle
        refine ⟨true, _, hdr, rfl, ?_, List.prefix_rfl, fun _ => rfl⟩
        rw [hsent, List.take_of_length_le (by omega)]
  · rw [if_neg hm]
    exact iff_of_true (hsend.delivers (by rwa [hreq]) hne hpos conf) fun h => absurd h hm

/-! ## An error page -/

/-- A pass over a connection that waits for its error page: input is ignored when there is any, and
the page is sent. -/
def errorPass (conf : Conf) (e : Env) (c : Conn) (s : Srv) : Ret :=
  (if s.readReady c.fd then recvIgnore e noteFail c s else ⟨1, some c, s⟩).andThen fun c s =>
    cnSendErrorPage conf e noteEnd noteFail c s

/-- When the success callback has run, the client has received one page, and before that fewer bytes
than the page that was begun has. -/
def PageDelivered (conf : Conf) (c : Conn) (calls : List (Env × Srv)) : Prop :=
  ∀ ended c', afterCalls (errorPass conf) calls c = some (ended, c') →
    ∃ sent, c'.wire.cur.sent = c.wire.cur.sent ++ sent ∧
      (ended = true → ∃ call ∈ calls, sent = c.page conf call.1) ∧
      (ended = false → ∀ call ∈ calls.head?, sent.length < (c.page conf call.1).length)

/-- The client has not closed the connection: input that is ready is there. -/
def Unclosed (e : Env) (c : Conn) (s : Srv) : Prop :=
  s.readReady c.fd = true → ∃ data ∈ e.recv, data ≠ []

/-- A page is not empty. -/
theorem page_ne_nil (conf : Conf) (e : Env) (c : Conn) : c.page conf e ≠ [] := by
  simp [Conn.page, respHdr, str]

/-- The connection after a send took `k` bytes of its error page. -/
def Conn.pageSent (conf : Conf) (e : Env) (c : Conn) (k : ℕ) : Conn :=
  ({ c with
      resp := { c.resp with alive := c.req.alive, clen := (respMsg c.resp.status).length }
      buf := { bufReset c.buf with data := c.page conf e, data_p := k } } :
        Conn).logSent ((c.page conf e).take k)

/-- A call that sends the page. -/
theorem send_page {k : ℕ} (s : Srv) (hk : 0 < k)
    (hsend : smartSend (c.page conf e) e.send_static = ((k : ℤ), (c.page conf e).take k)) :
    cnSendErrorPage conf e noteEnd noteFail c s =
      if (c.page conf e).length ≤ k then ⟨0, some (c.pageSent conf e k), s⟩
        else ⟨1, some (c.pageSent conf e k), s⟩ := by
  have hbuf : ∀ buf : Buf, buf = { bufReset c.buf with data := c.page conf e } →
    buf.rest = c.page conf e ∧
      (Buf.rsize { buf with data_p := buf.data_p + k } ≤ 0 ↔ (c.page conf e).length ≤ k) := by
    rintro buf rfl
    refine ⟨rfl, ?_⟩
    rw [Buf.rsize_eq _ rfl]
    simp [bufReset]
  obtain ⟨hrest, hsize⟩ := hbuf _ rfl
  unfold cnSendErrorPage
  dsimp only
  rw [show respHdr _ conf e.time_err ++ respMsg c.resp.status = c.page conf e from rfl, hrest,
    hsend]
  dsimp only
  rw [if_neg (by omega), Int.toNat_natCast]
  simp only [hsize]
  rw [Conn.pageSent, show (bufReset c.buf).data_p + k = k from Nat.zero_add k]
  rfl

/-- Ignoring input leaves everything but the buffer. -/
theorem ignore_open (hopen : Unclosed e c s) :
    ∃ c', (if s.readReady c.fd then recvIgnore e noteFail c s else ⟨1, some c, s⟩) =
      ⟨1, some c', s⟩ ∧
      c'.req = c.req ∧ c'.resp = c.resp ∧ c'.wire.cur = c.wire.cur ∧ c'.fd = c.fd := by
  split
  · rename_i hready
    obtain ⟨data, hdata, hne⟩ := hopen hready
    have hsome : data.take BUFSZ ≠ [] := by
      apply List.ne_nil_of_length_pos
      rw [List.length_take]
      exact lt_min (by decide) (List.length_pos_of_ne_nil hne)
    unfold recvIgnore
    rw [Option.mem_def.1 hdata, Option.map_some]
    dsimp only
    rw [if_neg hsome]
    exact ⟨_, rfl, rfl, rfl, rfl, rfl⟩
  · exact ⟨c, rfl, rfl, rfl, rfl, rfl⟩

/-- A pass sends the page from its first byte. -/
theorem errorPass_sends (h0 : 0 < e.send_static) (hopen : Unclosed e c s) (conf : Conf) :
    ∃ (k : ℕ) (c' : Conn), (k : ℤ) = min e.send_static (c.page conf e).length ∧
      c'.wire.cur.sent = c.wire.cur.sent ++ (c.page conf e).take k ∧
        (∀ e', c'.page conf e' = c.page conf e') ∧
      c'.fd = c.fd ∧
      errorPass conf e c s = if (c.page conf e).length ≤ k then ⟨0, some c', s⟩
        else ⟨1, some c', s⟩ := by
  obtain ⟨c1, hignore, hreq, hresp, hcur, hfd⟩ := ignore_open hopen
  have hpage : ∀ e', c1.page conf e' = c.page conf e' :=
    fun e' => by rw [Conn.page, Conn.page, hreq, hresp]
  obtain ⟨k, hk, hcount, hsend⟩ := smartSend_some h0 (page_ne_nil conf e c1)
  rw [hpage] at hcount
  refine ⟨k, c1.pageSent conf e k, hcount, ?_, fun e' => ?_, hfd, ?_⟩
  · show c1.wire.cur.sent ++ (c1.page conf e).take k = _
    rw [hcur, hpage]
  · rw [← hpage]
    rfl
  · rw [errorPass, hignore, ← hpage]
    exact send_page s hk hsend

/-- The client gets one error page, whatever happens after the first send, if and only if that takes
the whole page. -/
theorem page_delivered (conf : Conf) (c : Conn) (e : Env) (s : Srv) (h0 : 0 < e.send_static)
    (hopen : Unclosed e c s) :
    (∀ calls : List (Env × Srv), (∀ call ∈ calls, 0 < call.1.send_static) →
      PageDelivered conf c ((e, s) :: calls)) ↔
      ((c.page conf e).length : ℤ) ≤ e.send_static := by
  obtain ⟨k, c1, hk, hsent, hpage, hfd, hout⟩ := errorPass_sends h0 hopen conf
  have hpos := List.length_pos_of_ne_nil (page_ne_nil conf e c)
  constructor
  · intro h
    by_contra hlt
    rw [if_neg (by omega)] at hout
    -- The next send takes as many bytes as are missing.
    obtain ⟨e2, he2, hsend2⟩ : ∃ e2 : Env, e2.time_err = e.time_err ∧
      e2.send_static = (c.page conf e).length - k :=
      ⟨{ e with send_static := (c.page conf e).length - k }, rfl, rfl⟩
    obtain ⟨s2, hs2⟩ : ∃ s2 : Srv, s2.readReady c1.fd = false :=
      ⟨{ s with pool := { s.pool with read_ready := ∅ } }, by simp [Srv.readReady]⟩
    obtain ⟨k2, c2, hk2, hsent2, -, -, hout2⟩ :=
      errorPass_sends (e := e2) (c := c1) (s := s2) (by omega)
      (fun hr => by simp [hs2] at hr) conf
    have hpage2 : c1.page conf e2 = c.page conf e := by rw [hpage, Conn.page, Conn.page, he2]
    rw [hpage2] at hk2 hsent2 hout2
    rw [if_neg (by omega)] at hout2
    have hafter : afterCalls (errorPass conf) [(e, s), (e2, s2)] c = some (false, c2) := by
      unfold afterCalls afterCalls afterCalls
      rw [hout, Option.bind_some, if_neg one_ne_zero, hout2]
      rfl
    obtain ⟨sent, hs, -, hend⟩ :=
      h [(e2, s2)] (by simpa using (by omega : 0 < e2.send_static)) false c2 hafter
    have hlt : sent.length < (c.page conf e).length := hend rfl (e, s) rfl
    rw [hsent2, hsent, List.append_assoc, List.append_cancel_left_eq] at hs
    rw [← hs, List.length_append, List.length_take, List.length_take] at hlt
    omega
  · intro hle calls _ ended c' hafter
    rw [if_pos (by omega)] at hout
    unfold afterCalls at hafter
    rw [hout] at hafter
    obtain ⟨rfl, rfl⟩ : true = ended ∧ c1 = c' := by simpa using hafter
    refine ⟨c.page conf e, ?_, fun _ => ⟨(e, s), by simp, rfl⟩, by simp⟩
    rw [hsent, List.take_of_length_le (by omega)]

/-! ## Short sends -/

/-- A HEAD request for a file. -/
def headRequest : Conn := { cnNew 5 0 [] 0 with req := { reqNew [] with method := .head } }

/-- A connection that waits for the page for 404. -/
def unfound : Conn := (lisoConnErr (cnNew 5 0 [] 0) 404 Sample.start.srv).1

/-- A send that takes one byte. -/
def shortSend : Env := { Sample.env with send_static := 1 }

/-- A GET request for a file, whose header is sent in two pieces. -/
theorem static_delivered_get :
    Delivers []
    (((cnNew 5 0 [] 0).prepared Sample.conf Sample.env Sample.start.srv).response Sample.conf 0)
      (afterCalls (fun e c s => cnServeStatic Sample.conf e noteEnd noteFail c s)
        [(shortSend, Sample.start.srv), (Sample.env, Sample.start.srv)]
        ((cnNew 5 0 [] 0).prepared Sample.conf Sample.env Sample.start.srv)) :=
  (static_delivered Sample.conf Sample.env (cnNew 5 0 [] 0) Sample.start.srv (by decide +kernel)
    [(shortSend, Sample.start.srv), (Sample.env, Sample.start.srv)] (by decide +kernel)).2.2
      (by decide +kernel)

/-- A HEAD request for a file: the callback runs when the client has one byte of the header. -/
theorem head_cut : ¬ ∀ (conf : Conf) (e : Env) (c : Conn) (s : Srv),
    (respBuild e.fs e.pick c.resp c.req conf s.fds).1 ≠ 0 → ∀ calls : List (Env × Srv),
    (∀ call ∈ calls, 0 < call.1.send_static) →
    Delivers c.wire.cur.sent ((c.prepared conf e s).response conf e.time)
      (afterCalls (fun e c s => cnServeStatic conf e noteEnd noteFail c s) calls
        (c.prepared conf e s)) := by
  intro h
  obtain ⟨ended, c', sent, hout, hsent, -, hend⟩ :=
    h Sample.conf Sample.env headRequest Sample.start.srv
    (by decide +kernel) [(shortSend, Sample.start.srv)] (by decide +kernel)
  have hone :
    (afterCalls (fun e c s => cnServeStatic Sample.conf e noteEnd noteFail c s)
      [(shortSend, Sample.start.srv)]
      (headRequest.prepared Sample.conf Sample.env Sample.start.srv)).map
        (fun out => (out.1, out.2.wire.cur.sent)) =
      some (true, str "H") := by decide +kernel
  rw [hout, Option.map_some, Option.some.injEq, Prod.mk.injEq] at hone
  rw [hone.2, hend hone.1] at hsent
  exact absurd hsent (by decide +kernel)

/-- The first send takes the page for 404. -/
theorem page_delivered_once :
    (∀ calls : List (Env × Srv), (∀ call ∈ calls, 0 < call.1.send_static) →
        PageDelivered Sample.conf unfound ((Sample.env, Sample.start.srv) :: calls)) ↔
      ((unfound.page Sample.conf Sample.env).length : ℤ) ≤ Sample.env.send_static :=
  page_delivered Sample.conf unfound Sample.env Sample.start.srv (by decide) fun h =>
    absurd h (by decide)

/-- The first send takes one byte, and the second one begins again: the client gets one byte more
than the page. -/
theorem page_repeated : ¬ ∀ (conf : Conf) (c : Conn) (calls : List (Env × Srv)),
    (∀ call ∈ calls, 0 < call.1.send_static) → PageDelivered conf c calls := by
  intro h
  have hpage :=
    h Sample.conf unfound [(shortSend, Sample.start.srv), (Sample.env, Sample.start.srv)]
      (by decide +kernel)
  rcases hout : afterCalls (errorPass Sample.conf) [(shortSend, Sample.start.srv),
    (Sample.env, Sample.start.srv)] unfound
    with _ | ⟨ended, c'⟩
  · exact absurd hout (by decide +kernel)
  · have hone :
      (afterCalls (errorPass Sample.conf) [(shortSend, Sample.start.srv),
        (Sample.env, Sample.start.srv)]
        unfound).map (fun out => (out.1, out.2.wire.cur.sent)) =
        some (true, str "H" ++ unfound.page Sample.conf Sample.env) := by decide +kernel
    rw [hout, Option.map_some, Option.some.injEq, Prod.mk.injEq] at hone
    obtain ⟨sent, hsent, hwhole, -⟩ := hpage ended c' hout
    obtain ⟨call, hcall, rfl⟩ := hwhole hone.1
    rw [hone.2] at hsent
    clear hwhole
    revert call
    decide +kernel

end Liso
