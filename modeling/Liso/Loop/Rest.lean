import Liso.Loop.Phases

/-!
# A connection at rest

The second half of a visit sends, and at the end of a response the connection is reset and the next
request may be taken from `last_buf`. `visit_rest` says that the connection is at rest again then,
and `rest_inv` says so of every connection in every reachable state.

One section can lose a write bit: it clears the bit after the success callback has handed the next
request over. `Calls` names the connections for which the callback is about to run there, and the
write bits are kept when what such a connection takes over needs none.
-/

namespace Liso

variable {conf : Conf} {ok : Loop → Ev → Prop} {l : Loop} {c c' : Conn} {s s' : Srv}
  {e : Env} {T : Prop}
  {A : Set ℕ} {W : Prop}

/-! ## The next request -/

/-- A connection right after `pl_reset_conn`. -/
structure Fresh (c : Conn) (s : Srv) : Prop where
  /-- The request. -/
  phase : c.req.phase = .start
  /-- The response. -/
  resp : c.resp.phase = .ready
  /-- The CGI. -/
  cgi : c.cgi.phase = .idle
  /-- The use of the buffer. -/
  recv : c.cgi.buf_phase = .recv
  /-- The read bit. -/
  read : c.fd ∈ s.pool.read_set
  /-- The write bit. -/
  write : c.fd ∉ s.pool.write_set

/-- `pl_reset_conn` makes a connection fresh. -/
theorem plResetConn_fresh (hH : Held T A c s) : Fresh (plResetConn s c).1 (plResetConn s c).2 := by
  rw [plResetConn_eq]
  have hne : ∀ f, f = c.cgi.srv_in ∨ f = c.cgi.srv_err → f ≠ some c.fd := by
    rintro f (rfl | rfl) hf
    · exact hH.pipe_ne_fd ((Cgi.mem_pipes _ _).2 (.inr (.inl hf))) rfl
    · exact hH.pipe_ne_fd ((Cgi.mem_pipes _ _).2 (.inr (.inr (.inl hf)))) rfl
  refine ⟨rfl, rfl, rfl, rfl, ?_, ?_⟩
  · rw [dropPipes_pool, Finset.mem_filter]
    refine ⟨?_, hne _ (.inl rfl), hne _ (.inr rfl)⟩
    simp
  · rw [dropPipes_pool]
    simp

/-- A fresh connection has the shape of one that waits for a head. -/
theorem Fresh.shape (h : Fresh c s) : Shape c := .head (.inl h.phase) h.cgi h.resp h.recv

/-- A fresh connection has the bits of one that waits for a head. -/
theorem Fresh.bits (h : Fresh c s) : Bits c s :=
  ⟨fun _ => ⟨h.read, h.write⟩, fun hg => by simp [h.cgi] at hg, fun hb => by simp [h.recv] at hb⟩

/-- A fresh connection is at rest. -/
theorem Fresh.rest (h : Fresh c s) : Rest W c s :=
  ⟨h.shape, h.bits, fun hp => by simp [h.phase] at hp, fun hp => by simp [h.phase] at hp,
    fun _ hw => by simp [h.phase] at hw⟩

/-- No CGI is started by `cn_parse_req`. -/
theorem cnParseReq_idle (e : Env) (n : ℕ) (s : Srv)
    (hp : c.req.phase = .start ∨ c.req.phase = .header) (hg : c.cgi.phase = .idle) :
    ((cnParseReq e lisoConnErr c n s).1.cgi.phase = .idle ∨
        (cnParseReq e lisoConnErr c n s).1.cgi.phase = .disabled ∨
        (cnParseReq e lisoConnErr c n s).1.cgi.phase = .ready) ∧
      (cnParseReq e lisoConnErr c n s).1.cgi.buf_phase = c.cgi.buf_phase := by
  have hcount : ∀ c1 : Conn, c1.cgi = c.cgi →
      ((cnCountBody c1).cgi.phase = .idle ∨ (cnCountBody c1).cgi.phase = .disabled ∨
        (cnCountBody c1).cgi.phase = .ready) ∧
          (cnCountBody c1).cgi.buf_phase = c.cgi.buf_phase := by
    intro c1 he
    by_cases hb : c1.req.phase = .body
    case neg => rw [cnCountBody_other hb, he]; exact ⟨.inl hg, rfl⟩
    cases ht : c1.req.type with
    | static => rw [cnCountBody_static hb ht, he]; exact ⟨.inr (.inl rfl), rfl⟩
    | dynamic => rw [cnCountBody_dynamic hb ht, he]; exact ⟨.inr (.inr (if_pos hg)), rfl⟩
  rcases cnParseReq_head e c n s hp with ⟨-, h⟩ | ⟨lines, -, -, q, h⟩ | ⟨lines, -, -, h⟩ <;> rw [h]
  · exact ⟨.inl hg, rfl⟩
  · exact ⟨.inl hg, rfl⟩
  · exact hcount _ rfl

/-- The connection that `liso_reset_or_close` parses the bytes kept in `last_buf` on. -/
def Conn.handed (c : Conn) : Conn := { c with
  buf := { c.buf with data := c.req.last_buf.data }
  req := { c.req with last_buf := bufReset c.req.last_buf }
  wire := { c.wire with cur := { c.wire.cur with inp := c.req.last_buf.data } } }

/-- Between the requests, no CGI is started, and the buffer is free. -/
def Conn.Calm (c : Conn) : Prop :=
  (c.cgi.phase = .idle ∨ c.cgi.phase = .disabled ∨ c.cgi.phase = .ready) ∧ c.cgi.buf_phase = .recv

/-- A fresh connection that takes over what `last_buf` holds is at rest. -/
theorem handOver_rest (e : Env) (h : Fresh c s) :
    Rest W (handOver e c s).1 (handOver e c s).2 ∧ (handOver e c s).1.Calm := by
  have hf : Fresh c.handed s := ⟨h.phase, h.resp, h.cgi, h.recv, h.read, h.write⟩
  have hR : Recvd W _ _ := cnParseReq_recvd e 0 hf.shape hf.bits (.inl hf.phase)
  obtain ⟨hg, hb⟩ := cnParseReq_idle e 0 s (.inl hf.phase) hf.cgi
  have hb := hb.trans hf.recv
  have he : handOver e c s = if (cnParseReq e lisoConnErr c.handed 0 s).1.req.phase = .done then
      ((cnParseReq e lisoConnErr c.handed 0 s).1,
        ((cnParseReq e lisoConnErr c.handed 0 s).2.clrRead
          (cnParseReq e lisoConnErr c.handed 0 s).1.fd).setWrite
          (cnParseReq e lisoConnErr c.handed 0 s).1.fd)
      else ((cnParseReq e lisoConnErr c.handed 0 s).1, (cnParseReq e lisoConnErr c.handed 0 s).2) :=
        rfl
  rw [he]
  generalize cnParseReq e lisoConnErr c.handed 0 s = out at hR hg hb
  obtain ⟨c1, s1⟩ := out
  dsimp only at hR hg hb ⊢
  split
  · rename_i hp
    refine ⟨⟨hR.shape, ⟨fun ho => ?_, fun hg' => ?_, fun hb' => ?_⟩,
      fun _ => by simp, fun _ hg' => ?_,
      fun _ _ => by simp⟩, hg, hb⟩
    · rcases ho with ho | ho | ho <;> simp [hp] at ho
    · rcases hg with hg | hg | hg <;> simp [hg] at hg'
    · simp [hb] at hb'
    · rcases hg with hg | hg | hg <;> simp [hg] at hg'
  · rename_i hp
    refine ⟨⟨hR.shape, hR.bits, fun hp' => absurd hp' hp, fun hp' => absurd hp' hp, fun w hw => ?_⟩,
      hg, hb⟩
    rcases hw with hw | ⟨hp', -⟩
    · exact hR.wake w hw
    · exact absurd hp' hp

/-- The connection of the hand-over is that of the parsing. -/
theorem handOver_conn (e : Env) (c : Conn) (s : Srv) :
    (handOver e c s).1 = (cnParseReq e lisoConnErr c.handed 0 s).1 := by
  show (if (cnParseReq e lisoConnErr c.handed 0 s).1.req.phase = .done then _ else _ : Conn × Srv).1
    = _
  split <;> rfl

/-- The mark of an exchange that ended. -/
def Srv.serve (s : Srv) (c : Conn) : Srv :=
  { s with served := ⟨c.wire.id, c.cgi.phase, c.wire.cur⟩ :: s.served }

/-- The success callback frees the connection, or resets it, and then hands `last_buf` over if it
holds bytes. -/
theorem lisoResetOrClose_cases (e : Env) (c : Conn) (s : Srv) :
    (c.req.alive = false ∧ lisoResetOrClose e c s = lisoDropConn c (s.serve c)) ∨
    (c.req.alive = true ∧ c.req.last_buf.sz = 0 ∧ lisoResetOrClose e c s =
      ⟨1, some (plResetConn (s.serve c) c.archive).1, (plResetConn (s.serve c) c.archive).2⟩) ∨
    (c.req.alive = true ∧ c.req.last_buf.sz ≠ 0 ∧ lisoResetOrClose e c s =
      ⟨1, some
        (handOver e (plResetConn (s.serve c) c.archive).1 (plResetConn (s.serve c) c.archive).2).1,
        (handOver e (plResetConn (s.serve c) c.archive).1
          (plResetConn (s.serve c) c.archive).2).2⟩) := by
  have he : lisoResetOrClose e c s = if c.req.alive then
      if c.req.last_buf.sz ≠ 0 then
        ⟨1, some
          (handOver e (plResetConn (s.serve c) c.archive).1
            (plResetConn (s.serve c) c.archive).2).1,
          (handOver e (plResetConn (s.serve c) c.archive).1
            (plResetConn (s.serve c) c.archive).2).2⟩
      else ⟨1, some (plResetConn (s.serve c) c.archive).1, (plResetConn (s.serve c) c.archive).2⟩
      else lisoDropConn c (s.serve c) := rfl
  rw [he]
  cases ha : c.req.alive with
  | false => exact .inl ⟨rfl, rfl⟩
  | true =>
    by_cases hz : c.req.last_buf.sz = 0
    · exact .inr (.inl ⟨rfl, hz, if_neg (not_not.2 hz)⟩)
    · exact .inr (.inr ⟨rfl, hz, if_pos hz⟩)

/-- The success callback leaves the connection at rest, with every bit that it needs. -/
theorem lisoResetOrClose_rest (e : Env) (hH : Held False A c s) :
    (lisoResetOrClose e c s).Post (fun c' s' => Rest W c' s' ∧ c'.Calm) (fun _ => True) := by
  have hdata : Frame False A (fun _ => True) c s c.archive (s.serve c) := .data id rfl rfl
  have hH' := hdata.held hH
  have hf := plResetConn_fresh hH'
  rcases lisoResetOrClose_cases e c s with ⟨-, he⟩ | ⟨-, -, he⟩ | ⟨-, -, he⟩ <;> rw [he]
  · exact lisoDropConn_gone hH.idx
  · exact (Ret.post_some _ _).2 ⟨hf.rest, .inl hf.cgi, hf.recv⟩
  · exact (Ret.post_some _ _).2 (handOver_rest e hf)

/-- The hand-over keeps the history of the exchange before it. -/
theorem handOver_keeps (e : Env) (c : Conn) (s : Srv) :
    RecvKeeps c s (handOver e c s).1 (handOver e c s).2 := by
  have hh : RecvKeeps c s c.handed s :=
    ⟨rfl, rfl, rfl, .refl _ _, rfl, .inl rfl, .inl ⟨rfl, rfl⟩, id⟩
  have hk := hh.trans (cnParseReq_keeps e c.handed 0 s)
  have he : handOver e c s = if (cnParseReq e lisoConnErr c.handed 0 s).1.req.phase = .done then
      ((cnParseReq e lisoConnErr c.handed 0 s).1,
        ((cnParseReq e lisoConnErr c.handed 0 s).2.clrRead
          (cnParseReq e lisoConnErr c.handed 0 s).1.fd).setWrite
          (cnParseReq e lisoConnErr c.handed 0 s).1.fd)
      else ((cnParseReq e lisoConnErr c.handed 0 s).1, (cnParseReq e lisoConnErr c.handed 0 s).2) :=
        rfl
  rw [he]
  generalize cnParseReq e lisoConnErr c.handed 0 s = out at hk
  obtain ⟨c1, s1⟩ := out
  dsimp only at hk ⊢
  split
  · refine hk.trans ⟨rfl, rfl, rfl, ?_, rfl, .inl rfl, .inl ⟨rfl, rfl⟩, id⟩
    have h1 : SameMarks (c1.fd < FD_SETSIZE) s1 (s1.clrRead c1.fd) := .of_probe s1 c1.fd _ _ _
    have h2 : SameMarks (c1.fd < FD_SETSIZE) (s1.clrRead c1.fd)
      ((s1.clrRead c1.fd).setWrite c1.fd) :=
      .of_probe (s1.clrRead c1.fd) c1.fd _ _ _
    exact (h1.trans h2).mono fun h => ⟨h _ (.inl rfl), h _ (.inl rfl)⟩
  · exact hk

/-- The success callback adds the exchange that ended, and begins an empty one. -/
theorem lisoResetOrClose_served (e : Env) (hidx : c.idx < s.pool.conns.length) :
    (lisoResetOrClose e c s).Post
      (fun c' s' => c'.outs = ([], [], []) ∧ SameMarks c.Fits (s.serve c) s')
      (SameMarks c.Fits (s.serve c)) := by
  rcases lisoResetOrClose_cases e c s with ⟨-, he⟩ | ⟨-, -, he⟩ | ⟨-, -, he⟩ <;> rw [he]
  · exact lisoDropConn_post (c := c) (s := s.serve c) hidx
  · exact (Ret.post_some _ _).2 ⟨rfl, plResetConn_marks (s.serve c) c.archive⟩
  · have hr := plResetConn_marks (s.serve c) c.archive
    have hk :=
      handOver_keeps e (plResetConn (s.serve c) c.archive).1 (plResetConn (s.serve c) c.archive).2
    refine (Ret.post_some _ _).2 ⟨hk.outs, (hr.trans hk.marks).mono fun hf => ⟨hf, fun d hd => ?_⟩⟩
    -- The connection has no pipes any more.
    rcases hd with hd | hd | hd
    · exact hf d (.inl hd)
    · simp [plResetConn_eq, dropPipes_cgi, cgiNew] at hd
    · simp [plResetConn_eq, dropPipes_cgi, cgiNew] at hd

/-- What holds of every exchange served, and of the one that ends, holds of every exchange behind
the callback. -/
theorem lisoResetOrClose_all {P : Served → Prop} (e : Env) (hidx : c.idx < s.pool.conns.length)
    (hs : ∀ x ∈ s.served, P x) (hx : P ⟨c.wire.id, c.cgi.phase, c.wire.cur⟩) :
    (lisoResetOrClose e c s).Post (fun _ s' => ∀ x ∈ s'.served, P x)
    (fun s' => ∀ x ∈ s'.served, P x) := by
  have hadd : ∀ s' : Srv, SameMarks c.Fits (s.serve c) s' → ∀ x ∈ s'.served, P x := by
    intro s' hs' x hmem
    rw [hs'.served] at hmem
    rcases List.mem_cons.1 hmem with rfl | hmem
    · exact hx
    · exact hs x hmem
  exact (lisoResetOrClose_served e hidx).mono (fun _ s' h => hadd s' h.2) hadd

/-! ## What the next request needs -/

/-- The write bits that `Rest` speaks of under `W`. -/
def Conn.Wakes (c : Conn) (s : Srv) : Prop :=
  c.req.phase = .abort ∨ c.req.phase = .done ∧ (c.req.type = .static ∨ c.cgi.phase = .ready) →
    c.fd ∈ s.pool.write_set

/-- A connection at rest that has the write bit it needs is so under `W`. -/
theorem Rest.wakes (h : Rest False c s) (hw : W → c.Wakes s) : Rest W c s :=
  ⟨h.shape, h.bits, h.done, h.streamed, hw⟩

/-- A connection at rest is so without the condition on the write bit. -/
theorem Rest.forget (h : Rest W c s) : Rest False c s :=
  ⟨h.shape, h.bits, h.done, h.streamed, fun f => f.elim⟩

/-- The buffer and the request with which `last_buf` is parsed once the connection is reset. -/
def Conn.next (c : Conn) : Conn := { c with
  buf := ⟨c.req.last_buf.data, 0, false⟩
  req := { reqReset c.req with last_buf := bufReset c.req.last_buf } }

/-- The page that is sent for a status. -/
def pageBytes (conf : Conf) (e : Env) (alive : Bool) (status : ℤ) : List Byte :=
  respHdr { respNew with status := status, alive := alive, clen := (respMsg status).length } conf
    e.time_err ++ respMsg status

/-- What `last_buf` holds needs no write bit: it does not begin with a complete request, and if it
begins with a request that is refused, the send of the error page fails or takes all of it. -/
def Conn.NextOpen (conf : Conf) (e : Env) (c : Conn) : Prop :=
  ∀ lines ∈ c.next.chunk 0,
    ((reqParse e.before c.next.req lines).1 < 0 →
      e.send_static ≤ 0 ∨ ((pageBytes conf e (reqParse e.before c.next.req lines).2.alive
        (-(reqParse e.before c.next.req lines).1)).length : ℤ) ≤ e.send_static) ∧
    (0 ≤ (reqParse e.before c.next.req lines).1 →
      (reqParse e.before c.next.req lines).2.phase = .body →
      c.req.last_buf.data.length - (reqParse e.before c.next.req lines).1 <
        (reqParse e.before c.next.req lines).2.rsize)

/-- `Conn.NextOpen` is decidable. -/
instance (c : Conn) : Decidable (c.NextOpen conf e) :=
  inferInstanceAs (Decidable (∀ lines ∈ c.next.chunk 0, (_ → _) ∧ (_ → _ → _)))

/-- The error page of a connection. -/
def Conn.page (conf : Conf) (e : Env) (c : Conn) : List Byte :=
  respHdr { c.resp with alive := c.req.alive, clen := (respMsg c.resp.status).length }
    conf e.time_err ++
    respMsg c.resp.status

/-- The connection failed, and the send of its page fails or takes all of it. -/
def Conn.Paged (conf : Conf) (e : Env) (c : Conn) (s : Srv) : Prop :=
  c.fd ∈ s.pool.write_ready ∧ c.req.phase = .abort ∧
    (e.send_static ≤ 0 ∨ ((c.page conf e).length : ℤ) ≤ e.send_static)

/-- The hand-over, when what it takes over needs no write bit. -/
theorem handOver_open (conf : Conf) (e : Env) (s₀ : Srv) (c₀ : Conn) (hn : c₀.NextOpen conf e)
    (hc : c = (plResetConn s₀ c₀.archive).1) :
    (handOver e c s).1.Open ∨ (handOver e c s).1.req.phase = .abort ∧
      (e.send_static ≤ 0 ∨ (((handOver e c s).1.page conf e).length : ℤ) ≤ e.send_static) := by
  have hbuf : c.handed.buf = c₀.next.buf := by rw [hc]; rfl
  have hreq : c.handed.req = c₀.next.req := by rw [hc]; rfl
  have hhdrs : c.handed.resp.hdrs = [] := by rw [hc]; rfl
  have hchunk : c.handed.chunk 0 = c₀.next.chunk 0 := by unfold Conn.chunk; rw [hbuf]
  have hstart : c.handed.req.phase = .start := by rw [hreq]; rfl
  rw [handOver_conn]
  rcases cnParseReq_head e c.handed 0 s (.inl hstart) with ⟨-, h⟩ | ⟨lines, hl, hrc, q, h⟩
    | ⟨lines, hl, hrc, h⟩
  all_goals rw [h]
  · exact .inl (.inl hstart)
  · rw [hreq] at hrc ⊢
    -- The next request is refused: its page is taken whole, or not at all.
    refine .inr ⟨rfl, ?_⟩
    have hp := (hn lines (hchunk ▸ hl)).1 hrc
    have hpage : Conn.page conf e (lisoConnErr { c.handed with
        req := (reqParse e.before c₀.next.req lines).2, buf := { c.handed.buf with data_p := q } }
        (-(reqParse e.before c₀.next.req lines).1) s).1 =
        pageBytes conf e (reqParse e.before c₀.next.req lines).2.alive
          (-(reqParse e.before c₀.next.req lines).1) := by
      simp only [Conn.page, pageBytes, lisoConnErr, respHdr, hhdrs]
      rfl
    rw [hpage]
    exact hp
  · rw [hreq] at hrc ⊢
    rcases reqParse_phase (.inl (hreq ▸ hstart)) hrc with hp | hp
    · rw [cnCountBody_other (by simp [hp])]
      exact .inl (.inr (.inl hp))
    · -- More bytes of the body are due than the buffer holds.
      refine .inl (.inr (.inr ?_))
      have hlt := (hn lines (hchunk ▸ hl)).2 (not_lt.1 hrc) hp
      generalize hc1 : ({ c.handed with
        req := (reqParse e.before c₀.next.req lines).2, buf := _ } : Conn) = c1
      have hp1 : c1.req.phase = .body := by rw [← hc1]; exact hp
      have hleft : 0 < c1.left := by
        have hsz : c1.buf.rsize =
            c₀.req.last_buf.data.length - (reqParse e.before c₀.next.req lines).1.toNat := by
          rw [← hc1, hbuf]
          simp [Buf.rsize, Buf.sz, Conn.next]
        have hr : c1.req.rsize = (reqParse e.before c₀.next.req lines).2.rsize := by rw [← hc1]
        rw [Conn.left, hsz, hr]
        omega
      have hcount : c1.counted.phase = .body := by simp [Conn.counted, not_le.2 hleft]
      cases ht : c1.req.type with
      | static => rw [cnCountBody_static hp1 ht]; exact hcount
      | dynamic => rw [cnCountBody_dynamic hp1 ht]; exact hcount

/-! ## Serving -/

/-- A connection after `data` was read from its CGI. -/
def Conn.fed (c : Conn) (data : List Byte) : Conn := { c with
  buf := { c.buf with data := data, bad := false }
  cgi := { c.cgi with buf_phase := .send }
  wire := { c.wire with cur := { c.wire.cur with cgi_out := c.wire.cur.cgi_out ++ data } } }

/-- The section `stream from cgi` does nothing, or reads from the CGI's stdout while the buffer is
free: the read fails, or gives bytes, or finds the end of the file. -/
theorem stepFromCgi_cases (e : Env) (c : Conn) (s : Srv) :
    (∃ s', stepFromCgi e c s = (c, s') ∧ (s' = s ∨ ∃ d, c.cgi.srv_in = some d ∧ s' = s.probe d)) ∨
    ∃ d, c.cgi.srv_in = some d ∧ d ∈ s.pool.read_ready ∧ c.cgi.phase = .cgiToSrv ∧
      c.cgi.buf_phase = .recv ∧
      ((e.read = none ∧ stepFromCgi e c s = lisoConnErr { c with
          buf := { c.buf with data := [], bad := true }, cgi := { c.cgi with phase := .abort } } 500
          ((s.probe d).act d)) ∨
        (∃ data, e.read.map (·.take BUFSZ) = some data ∧ data ≠ [] ∧
          stepFromCgi e c s = (c.fed data, ((s.probe d).act d).setWrite c.fd)) ∨
        (e.read.map (·.take BUFSZ) = some [] ∧ stepFromCgi e c s =
          ({ c.fed [] with cgi := { c.cgi with phase := .done,
                                               buf_phase := .send, srv_in := none } },
            dropPipe (((s.probe d).act d).setWrite c.fd) (some d)))) := by
  unfold stepFromCgi
  cases hin : c.cgi.srv_in with
  | none => exact .inl ⟨s, rfl, .inl rfl⟩
  | some d =>
    dsimp only
    by_cases h0 : d = 0
    · exact .inl ⟨s, if_pos h0, .inl rfl⟩
    rw [if_neg h0]
    by_cases hcond : (s.probe d).readReady d ∧ c.cgi.phase = .cgiToSrv ∧ c.cgi.buf_phase = .recv
    case neg => exact .inl ⟨s.probe d, if_neg hcond, .inr ⟨d, rfl, rfl⟩⟩
    rw [if_pos hcond]
    obtain ⟨hr, hg, hb⟩ := hcond
    refine .inr ⟨d, rfl, of_decide_eq_true hr, hg, hb, ?_⟩
    unfold cnStreamFromCgi
    cases hread : e.read with
    | none => refine .inl ⟨rfl, ?_⟩; simp [lisoConnErr, hb]
    | some bytes =>
      by_cases hdata : bytes.take BUFSZ = []
      · refine .inr (.inr ⟨by simp [hdata], ?_⟩)
        simp [hdata, hin, Conn.fed]
      · refine .inr (.inl ⟨_, rfl, hdata, ?_⟩)
        simp [hdata, hg, Conn.fed]

/-- The reading of a CGI's output leaves no marks. -/
theorem stepFromCgi_marks (e : Env) (c : Conn) (s : Srv) :
    SameMarks c.Fits s (stepFromCgi e c s).2 := by
  have hprobe : ∀ d, c.cgi.srv_in = some d → SameMarks c.Fits s (s.probe d) := fun d hd =>
    (SameMarks.of_probe s d _ _ _).mono fun h => h d (.inr (.inl hd))
  rcases stepFromCgi_cases e c s with ⟨s', he, rfl | ⟨d, hd, rfl⟩⟩ | ⟨d, hd, -, -, -, hout⟩
  · rw [he]; exact .refl _ _
  · rw [he]; exact hprobe d hd
  have hact : SameMarks c.Fits s ((s.probe d).act d) := ⟨rfl, rfl, (hprobe d hd).bad_fd⟩
  have hset : SameMarks c.Fits s (((s.probe d).act d).setWrite c.fd) :=
    (hact.trans (SameMarks.of_probe ((s.probe d).act d) c.fd _ _ _)).mono fun h =>
      ⟨h, h _ (.inl rfl)⟩
  rcases hout with ⟨-, he⟩ | ⟨data, -, -, he⟩ | ⟨-, he⟩ <;> rw [he]
  · exact hset
  · exact hset
  · exact (hset.trans (dropPipe_marks _ (some d))).mono fun h =>
      ⟨h, fun x hx => h x (.inr (.inl (hd.trans hx)))⟩

/-- A connection that relays is at rest after the section. -/
theorem stepFromCgi_rest (e : Env) (h : Rest W c s) :
    Rest W (stepFromCgi e c s).1 (stepFromCgi e c s).2 := by
  rcases stepFromCgi_cases e c s with ⟨s', he, rfl | ⟨d, -, rfl⟩⟩ | ⟨d, hd, -, hg, hb, hout⟩
  · rw [he]; exact h
  · rw [he]; exact h.congr rfl rfl rfl
  have hrelay : c.req.phase = .done ∧ c.req.type = .dynamic ∧ c.resp.phase = .disabled := by
    cases h.shape with
    | relay hp ht _ hr => exact ⟨hp, ht, hr⟩
    | head _ hg' | bodyStatic _ _ hg' | bodyReady _ _ hg' | bodyStream _ _ hg' | doneStatic _ _ hg'
    | doneReady _ _ hg' | doneStream _ _ hg' | relayEnd _ _ hg' => simp [hg] at hg'
    | abort _ _ _ hg' => exact absurd hg hg'
  obtain ⟨hp, ht, hr⟩ := hrelay
  have hopen : ¬ c.Open := by
    rintro (ho | ho | ho) <;> simp [hp] at ho
  rcases hout with ⟨-, he⟩ | ⟨data, -, -, he⟩ | ⟨-, he⟩ <;> rw [he]
  · have hbad : ∀ (c1 : Conn) (s1 : Srv), c1.cgi.buf_phase = .recv → c1.cgi.phase = .abort →
        Rest W (lisoConnErr c1 500 s1).1 (lisoConnErr c1 500 s1).2 := fun c1 s1 hb1 hg1 =>
      (lisoConnErr_recvd 500 hb1 (by simp [hg1]) (by simp [hg1])).rest_abort rfl
    exact hbad _ _ hb rfl
  · refine ⟨.relay hp ht hg hr (by simp [Conn.fed, hd]),
      ⟨fun ho => absurd ho hopen, fun _ x hx => ?_,
      fun _ => by simp [Conn.fed]⟩, fun _ => h.done hp, fun _ => by simp [Conn.fed, hg],
        fun _ hw => ?_⟩
    · exact h.bits.relay hg x hx
    · simp [Conn.fed, hp, ht, hg] at hw
  · have hpool := (dropPipe_eq (((s.probe d).act d).setWrite c.fd) (some d)).1
    refine ⟨.relayEnd hp ht rfl hr,
      ⟨fun ho => absurd ho hopen, fun hg' => by simp at hg', fun _ => ?_⟩,
      fun _ hread => ?_, fun _ => by simp, fun _ hw => ?_⟩
    · rw [hpool]
      simp [Conn.fed]
    · rw [hpool, Finset.mem_filter] at hread
      exact h.done hp hread.1
    · simp [Conn.fed, hp, ht] at hw

/-- The success callback is about to run at the end of a CGI's output. -/
def Calls (c : Conn) (s : Srv) : Prop :=
  c.fd ∈ s.pool.write_ready ∧ c.cgi.buf_phase = .send ∧ c.cgi.phase = .done ∧ c.buf.rsize = 0 ∧
    c.req.alive = true

/-- A connection from which a chunk of its CGI's output was sent. -/
def Conn.relayed (e : Env) (c : Conn) : Conn :=
  { c.logSent (smartSend c.buf.rest e.send_dynamic).2 with
    cgi := { c.cgi with
      buf_phase := if c.buf.rsize - (smartSend c.buf.rest e.send_dynamic).1 = 0 then .recv
        else .send } }

/-- The sending of a CGI's output does nothing, or runs the success callback at the end, or drops
the connection when the send fails, or sends; the write bit is cleared when the buffer is free. -/
theorem stepToClient_cases (e : Env) (c : Conn) (s : Srv) (h0 : 0 < c.fd) :
    (¬ (c.fd ∈ s.pool.write_ready ∧ c.cgi.buf_phase = .send) ∧
      stepToClient e c s = ⟨1, some c, s.probe c.fd⟩) ∨
    (c.fd ∈ s.pool.write_ready ∧ c.cgi.buf_phase = .send ∧
      ((c.buf.rsize = 0 ∧ c.cgi.phase = .done ∧
        stepToClient e c s = (lisoResetOrClose e c ((s.probe c.fd).act c.fd)).andThen fun c s =>
          if c.cgi.buf_phase = .recv ∧ 0 < c.fd then ⟨1, some c, s.clrWrite c.fd⟩
            else ⟨1, some c, s⟩) ∨
      (¬ (c.buf.rsize = 0 ∧ c.cgi.phase = .done) ∧
        ((smartSend c.buf.rest e.send_dynamic).1 ≤ 0 ∧
            stepToClient e c s = lisoDropConn c ((s.probe c.fd).act c.fd) ∨
          0 < (smartSend c.buf.rest e.send_dynamic).1 ∧
            stepToClient e c s = ⟨1, some (c.relayed e),
              if (c.relayed e).cgi.buf_phase = .recv then ((s.probe c.fd).act c.fd).clrWrite c.fd
              else (s.probe c.fd).act c.fd⟩)))) := by
  unfold stepToClient
  by_cases hcond : (s.probe c.fd).writeReady c.fd ∧ c.cgi.buf_phase = .send
  case neg =>
    refine .inl ⟨fun h => hcond ⟨decide_eq_true h.1, h.2⟩, if_neg hcond⟩
  refine .inr ⟨of_decide_eq_true hcond.1, hcond.2, ?_⟩
  dsimp only
  rw [if_pos hcond]
  unfold cnServeDynamic
  by_cases hend : c.buf.rsize = 0 ∧ c.cgi.phase = .done
  · exact .inl ⟨hend.1, hend.2, by rw [if_pos hend]⟩
  refine .inr ⟨hend, ?_⟩
  dsimp only
  rw [if_neg hend]
  by_cases hrc : (smartSend c.buf.rest e.send_dynamic).1 ≤ 0
  · refine .inl ⟨hrc, ?_⟩
    rw [if_pos hrc]
    rfl
  · refine .inr ⟨not_le.1 hrc, ?_⟩
    rw [if_neg hrc]
    by_cases hz : c.buf.rsize - (smartSend c.buf.rest e.send_dynamic).1 = 0
    · simp [Ret.andThen, Conn.relayed, Conn.logSent, hz, h0]
    · simp [Ret.andThen, Conn.relayed, Conn.logSent, hz, hcond.2]

/-- The phases of a connection that relays bytes. -/
theorem Shape.of_send (h : Shape c) (hb : c.cgi.buf_phase = .send) :
    c.req.phase = .done ∧ c.req.type = .dynamic ∧ c.resp.phase = .disabled ∧
      (c.cgi.phase = .cgiToSrv ∧ c.cgi.srv_in ≠ none ∨ c.cgi.phase = .done) := by
  cases h with
  | relay hp ht hg hr hin => exact ⟨hp, ht, hr, .inl ⟨hg, hin⟩⟩
  | relayEnd hp ht hg hr => exact ⟨hp, ht, hr, .inr hg⟩
  | head _ _ _ hb' | bodyStatic _ _ _ _ hb' | bodyReady _ _ _ _ hb' | bodyStream _ _ _ _ hb'
  | doneStatic _ _ _ _ hb' | doneReady _ _ _ _ hb' | doneStream _ _ _ _ hb' | abort _ _ hb' =>
    simp [hb] at hb'

/-- A connection whose write bit is cleared while nothing is relayed needs it for an error page or
for a complete request only. -/
theorem Rest.clrWrite (h : Rest False c s) (hb : c.cgi.buf_phase = .recv) :
    Rest False c (s.clrWrite c.fd) := by
  refine ⟨h.shape, ⟨fun ho => ?_, h.bits.relay, fun hs => by simp [hb] at hs⟩, h.done, h.streamed,
    fun f => f.elim⟩
  exact ⟨(h.bits.opened ho).1, by simp⟩

/-- The clearing of the write bit behind the success callback. -/
theorem clear_rest (conf : Conf) (e : Env) (h : Rest False c s)
    (hw : W → c.Open ∨ c.Paged conf e s) :
    (if c.cgi.buf_phase = .recv ∧ 0 < c.fd then (⟨1, some c, s.clrWrite c.fd⟩ : Ret)
      else ⟨1, some c, s⟩).Post
      (fun c' s' => Rest False c' s' ∧ (W → c'.Wakes s' ∨ c'.Paged conf e s')) (fun _ => True) := by
  have hwake : ∀ s' : Srv, c.Open → c.Wakes s' := by
    rintro s' ho hp
    rcases ho with ho | ho | ho <;> simp [ho] at hp
  split
  · rename_i hb
    exact (Ret.post_some _ _).2 ⟨h.clrWrite hb.1, fun w => (hw w).imp (hwake _) id⟩
  · exact (Ret.post_some _ _).2 ⟨h, fun w => (hw w).imp (hwake _) id⟩

/-- The sending of a CGI's output. -/
theorem stepToClient_rest (conf : Conf) (e : Env) (h0 : 0 < c.fd) (hH : Held False A c s)
    (h : Rest W c s) (hW : W → Calls c s → c.NextOpen conf e) :
    (stepToClient e c s).Post
      (fun c' s' => Rest False c' s' ∧ (W → c'.Wakes s' ∨ c'.Paged conf e s')) (fun _ => True) := by
  have hH' := hH.acted c.fd
  have hR : Rest W c ((s.probe c.fd).act c.fd) := h.congr rfl rfl rfl
  rcases stepToClient_cases e c s h0 with ⟨-, he⟩ | ⟨hready, hb, hout⟩
  · rw [he]
    exact (Ret.post_some _ _).2 ⟨h.forget.congr rfl rfl rfl, fun w => .inl (h.wake w)⟩
  obtain ⟨hp, ht, hr, hg⟩ := h.shape.of_send hb
  have hready : c.fd ∈ ((s.probe c.fd).act c.fd).pool.write_ready := hready
  rcases hout with ⟨hz, hd, he⟩ | ⟨-, ⟨-, he⟩ | ⟨-, he⟩⟩ <;> rw [he]
  · -- The output was sent: the callback runs, and behind it the write bit may be cleared.
    have hW : W → c.req.alive = true → c.NextOpen conf e :=
      fun w ha => hW w ⟨hready, hb, hd, hz, ha⟩
    generalize (s.probe c.fd).act c.fd = s at hH' hready
    have hframe : Frame False A (fun _ => True) c s c.archive (s.serve c) := .data id rfl rfl
    obtain ⟨hHa, hM⟩ := hframe hH' fun _ => trivial
    have hf := plResetConn_fresh hHa
    obtain ⟨hHr, hMr⟩ := Frame.reset (G := fun _ => True) (s.serve c) c.archive hHa fun _ => trivial
    rcases lisoResetOrClose_cases e c s with ⟨-, he⟩ | ⟨ha, -, he⟩ | ⟨ha, -, he⟩ <;> rw [he]
    · exact (lisoDropConn_gone (B := fun _ _ => False) (c := c) (s := s.serve c) hH'.idx).andThen
        fun _ _ h => h.elim
    · exact clear_rest conf e hf.rest fun _ => .inl (.inl hf.phase)
    · refine clear_rest conf e (handOver_rest e hf).1 fun w => ?_
      refine (handOver_open conf e _ c (hW w ha) rfl).imp id fun hpage => ⟨?_, hpage⟩
      obtain ⟨-, hMh⟩ := handOver_frame (G := fun _ => True) e _ _ hHr fun _ => trivial
      rw [hMh.write_ready, hMh.fd, hMr.write_ready, hMr.fd]
      exact hready
  · exact lisoDropConn_gone hH'.idx
  · -- A chunk was sent: the connection goes on relaying.
    have hopen : ¬ c.Open := by
      rintro (ho | ho | ho) <;> simp [hp] at ho
    have hshape : Shape (c.relayed e) := by
      rcases hg with ⟨hg, hin⟩ | hg
      · exact .relay hp ht hg hr hin
      · exact .relayEnd hp ht hg hr
    have hbits : ∀ s', s'.pool.read_set = s.pool.read_set →
        ((c.relayed e).cgi.buf_phase = .send → c.fd ∈ s'.pool.write_set) →
          Bits (c.relayed e) s' := by
      intro s' hread hw
      refine ⟨fun ho => absurd ho hopen, fun hg' x hx => ?_, hw⟩
      rw [hread]
      exact h.bits.relay hg' x hx
    have hdone : ∀ s', s'.pool.read_set = s.pool.read_set → Bits (c.relayed e) s' →
      Rest W (c.relayed e) s' := by
      intro s' hread hbits'
      refine ⟨hshape, hbits', fun _ => ?_, h.streamed, fun _ hw => ?_⟩
      · rw [hread]; exact h.done hp
      · have hw : c.req.phase = .abort ∨ c.req.phase = .done ∧
          (c.req.type = .static ∨ c.cgi.phase = .ready) := hw
        rcases hg with ⟨hg, -⟩ | hg <;> simp [hp, ht, hg] at hw
    have hrest : Rest W (c.relayed e) (if (c.relayed e).cgi.buf_phase = .recv then
        ((s.probe c.fd).act c.fd).clrWrite c.fd else (s.probe c.fd).act c.fd) := by
      split
      · rename_i hb'
        exact hdone _ rfl (hbits _ rfl fun hs => by simp [hb'] at hs)
      · exact hdone _ rfl (hbits _ rfl fun _ => h.bits.send hb)
    exact (Ret.post_some _ _).2 ⟨hrest.forget, fun w => .inl (hrest.wake w)⟩

/-- The sending of an error page. -/
theorem cnSendErrorPage_rest (conf : Conf) (e : Env) (hH : Held False A c s) (h : Rest False c s)
    (hw : W → c.Wakes s ∨ e.send_static ≤ 0 ∨ ((c.page conf e).length : ℤ) ≤ e.send_static) :
    (cnSendErrorPage conf e (lisoResetOrClose e) lisoDropConn c s).Post (Rest W)
    (fun _ => True) := by
  unfold cnSendErrorPage
  dsimp only
  split
  · exact lisoDropConn_gone hH.idx
  split
  · rename_i hrc _
    generalize hc : Conn.logSent _ _ = c1
    have hF : Frame False A (fun _ => True) c s c1 s := hc ▸ .data id rfl rfl
    exact (lisoResetOrClose_rest e (hF.held hH)).mono (fun _ _ h => h.1) fun _ _ => trivial
  · rename_i hrc hrest
    refine (Ret.post_some _ _).2 (Rest.congr (c := c) (s := s) ?_ rfl rfl rfl)
    refine h.wakes fun w => (hw w).resolve_right fun hall => hrest ?_
    have hpos : ¬ e.send_static ≤ 0 := fun hle => hrc (le_trans (min_le_left _ _) hle)
    have hle := hall.resolve_left hpos
    -- The socket took the whole page.
    have hlen : (smartSend (c.page conf e) e.send_static).1 = (c.page conf e).length :=
      min_eq_right hle
    have hbuf : ∀ data : List Byte, data = c.page conf e →
        (⟨data, 0 + (smartSend (Buf.rest ⟨data, 0, false⟩) e.send_static).1.toNat, false⟩ :
          Buf).rsize ≤ 0 := by
      rintro data rfl
      simp only [Buf.rest, List.drop_zero, hlen, Buf.rsize, Buf.sz]
      simp
    exact hbuf _ rfl

/-- The sending of a file or a page leaves the connection at rest, or drops it. -/
theorem cnServeStatic_rest (conf : Conf) (e : Env) (hH : Held False A c s) (h : Rest False c s)
    (hw : W → c.Wakes s ∨ c.req.phase = .abort ∧
      (e.send_static ≤ 0 ∨ ((c.page conf e).length : ℤ) ≤ e.send_static)) :
    (cnServeStatic conf e (lisoResetOrClose e) lisoDropConn c s).Post (Rest W) (fun _ => True) := by
  have hwake : c.req.phase ≠ .abort → W → c.Wakes s := fun hp w =>
    (hw w).resolve_right fun hp' => hp hp'.1
  -- A file is sent for a complete static request only.
  have hfile : c.resp.phase = .header ∨ c.resp.phase = .body →
      c.req.phase = .done ∧ c.req.type = .static ∧ c.cgi.phase = .disabled ∧
        c.cgi.buf_phase = .recv := by
    intro hr
    cases h.shape with
    | doneStatic hp ht hg _ hb => exact ⟨hp, ht, hg, hb⟩
    | head _ _ hr' | bodyStatic _ _ _ hr' | bodyReady _ _ _ hr' | bodyStream _ _ _ hr'
    | doneReady _ _ _ hr'
    | doneStream _ _ _ hr' | relay _ _ _ hr' | relayEnd _ _ _ hr' | abort _ hr' =>
      rcases hr with hr | hr <;> simp [hr] at hr'
  have hstay : ∀ (c1 : Conn) (s1 : Srv), c.req.phase = .done ∧ c.req.type = .static ∧
    c.cgi.phase = .disabled ∧
      c.cgi.buf_phase = .recv → c1.fd = c.fd → c1.req = c.req → c1.cgi = c.cgi →
      c1.resp.phase = .header ∨ c1.resp.phase = .body → s1.pool = s.pool → Rest W c1 s1 := by
    intro c1 s1 ⟨hp, ht, hg, hb⟩ hfd hreq hcgi hr hpool
    refine ⟨.doneStatic (hreq ▸ hp) (hreq ▸ ht) (hcgi ▸ hg) (.inr hr) (hcgi ▸ hb),
      ⟨fun ho => ?_, fun hg' => ?_,
      fun hs => ?_⟩, fun _ => ?_, fun _ hg' => ?_, fun w hw' => ?_⟩
    · rcases ho with ho | ho | ho <;> simp [hreq, hp] at ho
    · simp [hcgi, hg] at hg'
    · simp [hcgi, hb] at hs
    · rw [hfd, hpool]; exact h.done hp
    · simp [hcgi, hg] at hg'
    · rw [hfd, hpool]
      exact hwake (by simp [hp]) w (by rwa [hreq, hcgi] at hw')
  have hcall : ∀ (c1 : Conn), Frame False A (fun _ => True) c s c1 s →
      (lisoResetOrClose e c1 s).Post (Rest W) (fun _ => True) := fun c1 hF =>
    (lisoResetOrClose_rest e (hF.held hH)).mono (fun _ _ h => h.1) fun _ _ => trivial
  have hdrop : (lisoDropConn c s).Post (Rest W) (fun _ => True) := lisoDropConn_gone hH.idx
  have hidle : c.resp.phase ≠ .abort → Rest W c s := by
    intro hr
    refine h.wakes (hwake fun hp => ?_)
    cases h.shape with
    | abort _ hr' => exact hr hr'
    | head hp' => rcases hp' with hp' | hp' <;> simp [hp] at hp'
    | bodyStatic hp' | bodyReady hp' | bodyStream hp' | doneStatic hp' | doneReady hp'
    | doneStream hp'
    | relay hp' | relayEnd hp' => simp [hp] at hp'
  unfold cnServeStatic
  split
  · exact cnSendErrorPage_rest conf e hH h fun w => (hw w).imp_right And.right
  · rename_i hr
    have hd := hfile (.inl hr)
    dsimp only
    split
    · exact hdrop
    · generalize hc : Conn.logSent _ _ = c1
      have hF : Frame False A (fun _ => True) c s c1 s := hc ▸ .data id rfl rfl
      have hr1 : c1.resp.phase = .header ∨ c1.resp.phase = .body := by
        rw [← hc]
        simp only [Conn.logSent]
        split
        · exact .inr rfl
        · exact .inl rfl
      split
      · exact hcall c1 hF
      · split
        · exact (Ret.post_some _ _).2 (hstay c1 _ hd (by rw [← hc]; rfl) (by rw [← hc]; rfl)
            (by rw [← hc]; rfl) hr1 rfl)
        · split
          · exact hcall c1 hF
          · exact (Ret.post_some _ _).2 (hstay c1 _ hd (by rw [← hc]; rfl) (by rw [← hc]; rfl)
              (by rw [← hc]; rfl) hr1 rfl)
  · rename_i hr
    have hd := hfile (.inr hr)
    split
    · exact (Ret.post_some _ _).2 (hstay c _ hd rfl rfl rfl (.inr hr) rfl)
    · dsimp only
      split
      · exact hdrop
      · split
        · exact hcall _ (.data id rfl rfl)
        · exact (Ret.post_some _ _).2 (hstay _ _ hd rfl rfl rfl (.inr hr) rfl)
  · rename_i hr
    exact (Ret.post_some _ _).2 (hidle (by simp [hr]))
  · rename_i hr
    exact (Ret.post_some _ _).2 (hidle (by simp [hr]))

/-- The connections that the sending of a static response makes of `c`: the request, the CGI, and
what was received stay. -/
def Conn.Sent (c c' : Conn) : Prop :=
  ∃ buf resp data, c' = { c.logSent data with buf := buf, resp := resp }

/-- A send takes at most what it is given. -/
theorem smartSend_le (data : List Byte) (rc : ℤ) : (smartSend data rc).1 ≤ data.length :=
  min_le_right _ _

/-- What a send takes has a byte, unless it fails. -/
theorem smartSend_ne {data : List Byte} {rc : ℤ} (h : ¬ (smartSend data rc).1 ≤ 0) :
    (smartSend data rc).2 ≠ [] := by
  have hle := smartSend_le data rc
  have hlen : (smartSend data rc).2.length = min (smartSend data rc).1.toNat data.length :=
    List.length_take
  refine fun hnil => ?_
  rw [hnil, List.length_nil] at hlen
  omega

/-- The sending of a static response drops the connection, or runs the success callback behind some
bytes that were sent, or goes on, whatever the two callbacks and the server are. -/
theorem cnServeStatic_cases (conf : Conf) (e : Env) (c : Conn) :
    ∃ c', c.Sent c' ∧
      ((∀ succCb fatCb s, cnServeStatic conf e succCb fatCb c s = fatCb c' s) ∨
        (c'.wire.cur.sent ≠ [] ∧
          ∀ succCb fatCb s, cnServeStatic conf e succCb fatCb c s = succCb c' s) ∨
        ∃ b : Bool → Bool, ∀ succCb fatCb s, cnServeStatic conf e succCb fatCb c s =
          ⟨1, some c', { s with bad_ptr := b s.bad_ptr }⟩) := by
  have hself : c.Sent c := ⟨c.buf, c.resp, [], by simp [Conn.logSent]⟩
  have hsent : ∀ buf resp data, c.Sent { c.logSent data with buf := buf, resp := resp } :=
    fun buf resp data => ⟨buf, resp, data, rfl⟩
  have hbare : ∀ buf resp, c.Sent { c with buf := buf, resp := resp } := fun buf resp =>
    ⟨buf, resp, [], by simp [Conn.logSent]⟩
  -- What a successful send takes is not empty.
  have hne : ∀ {data rc}, ¬ (smartSend data rc).1 ≤ 0 →
      c.wire.cur.sent ++ (smartSend data rc).2 ≠ [] :=
    fun h => List.append_ne_nil_of_right_ne_nil _ (smartSend_ne h)
  unfold cnServeStatic
  cases c.resp.phase with
  | ready | disabled => exact ⟨c, hself, .inr (.inr ⟨id, fun _ _ _ => rfl⟩)⟩
  | abort =>
    unfold cnSendErrorPage
    dsimp only
    split
    · exact ⟨_, hbare _ _, .inl fun _ _ _ => rfl⟩
    rename_i hrc
    split
    · exact ⟨_, hsent _ _ _, .inr (.inl ⟨hne hrc, fun _ _ _ => rfl⟩)⟩
    · exact ⟨_, hsent _ _ _, .inr (.inr ⟨id, fun _ _ _ => rfl⟩)⟩
  | header =>
    dsimp only
    split
    · exact ⟨c, hself, .inl fun _ _ _ => rfl⟩
    rename_i hrc
    have hne := hne hrc
    generalize hc : Conn.logSent _ _ = c1
    have hs : c.Sent c1 := ⟨_, _, _, hc.symm⟩
    have hne : c1.wire.cur.sent ≠ [] := hc ▸ hne
    split
    · exact ⟨c1, hs, .inr (.inl ⟨hne, fun _ _ _ => rfl⟩)⟩
    split
    · exact ⟨c1, hs, .inr (.inr ⟨fun _ => true, fun _ _ _ => rfl⟩)⟩
    split
    · exact ⟨c1, hs, .inr (.inl ⟨hne, fun _ _ _ => rfl⟩)⟩
    · exact ⟨c1, hs, .inr (.inr ⟨id, fun _ _ _ => rfl⟩)⟩
  | body =>
    dsimp only
    split
    · exact ⟨c, hself, .inr (.inr ⟨fun _ => true, fun _ _ _ => rfl⟩)⟩
    split
    · exact ⟨c, hself, .inl fun _ _ _ => rfl⟩
    rename_i hrc
    split
    · exact ⟨_, hsent _ _ _, .inr (.inl ⟨hne hrc, fun _ _ _ => rfl⟩)⟩
    · exact ⟨_, hsent _ _ _, .inr (.inr ⟨id, fun _ _ _ => rfl⟩)⟩

/-- The last section does nothing, or, while a response is sent, drops the connection, or runs the
success callback, or goes on. -/
theorem stepStatic_cases (conf : Conf) (e : Env) (c : Conn) (s : Srv) :
    (∃ s', stepStatic conf e c s = ⟨1, some c, s'⟩ ∧
      (s' = s.probe c.fd ∨ s' = (s.probe c.fd).act c.fd)) ∨
    (c.resp.phase = .header ∨ c.resp.phase = .body ∨ c.resp.phase = .abort) ∧ ∃ c', c.Sent c' ∧
      (stepStatic conf e c s = lisoDropConn c' ((s.probe c.fd).act c.fd) ∨
        stepStatic conf e c s = lisoResetOrClose e c' ((s.probe c.fd).act c.fd) ∨
        ∃ b, stepStatic conf e c s =
          ⟨1, some c', { (s.probe c.fd).act c.fd with bad_ptr := b }⟩) := by
  unfold stepStatic
  dsimp only
  split
  case isFalse => exact .inl ⟨_, rfl, .inl rfl⟩
  by_cases hr : c.resp.phase = .header ∨ c.resp.phase = .body ∨ c.resp.phase = .abort
  · obtain ⟨c', hsent, hout⟩ := cnServeStatic_cases conf e c
    exact .inr ⟨hr, c', hsent, hout.imp (· _ _ _) (.imp (·.2 _ _ _) fun ⟨b, hb⟩ => ⟨_, hb _ _ _⟩)⟩
  · left
    refine ⟨_, ?_, .inr rfl⟩
    unfold cnServeStatic
    cases h : c.resp.phase with
    | ready | disabled => rfl
    | header | body | abort => simp [h] at hr

/-! ## A visit -/

/-- The section that serves files and pages leaves the connection at rest, or drops it. -/
theorem stepStatic_rest (conf : Conf) (e : Env) (hH : Held False A c s) (h : Rest False c s)
    (hw : W → c.Wakes s ∨ c.Paged conf e s) :
    (stepStatic conf e c s).Post (Rest W) (fun _ => True) := by
  unfold stepStatic
  dsimp only
  split
  · exact cnServeStatic_rest conf e (hH.acted c.fd) (h.congr rfl rfl rfl) fun w =>
      (hw w).imp_right And.right
  · rename_i hcond
    refine (Ret.post_some _ _).2 (Rest.congr (c := c) (s := s) (h.wakes fun w => ?_) rfl rfl rfl)
    refine (hw w).resolve_right fun hp => hcond ⟨decide_eq_true hp.1, ?_⟩
    have habort := hp.2.1
    cases h.shape with
    | abort _ hr => simp [hr]
    | head hp' => rcases hp' with hp' | hp' <;> simp [habort] at hp'
    | bodyStatic hp' | bodyReady hp' | bodyStream hp' | doneStatic hp' | doneReady hp'
    | doneStream hp'
    | relay hp' | relayEnd hp' => simp [habort] at hp'

/-- The connection and the server of a visit after the section `recv`, unless the connection was
freed. -/
def afterRecv (e : Env) (c : Conn) (s : Srv) : Option (Conn × Srv) :=
  (stepRecv e c s).conn.map fun c' => (c', (stepRecv e c s).srv)

/-- The same after the streaming to the CGI. -/
def afterMiddle (conf : Conf) (e : Env) (c : Conn) (s : Srv) : Option (Conn × Srv) :=
  (afterRecv e c s).map fun p => stepMiddle conf e p.1 p.2

/-- The same before the output of a CGI is sent, in the visits that get there. -/
def beforeSend (conf : Conf) (e : Env) (c : Conn) (s : Srv) : Option (Conn × Srv) :=
  ((afterMiddle conf e c s).filter fun p => p.1.req.type = .dynamic).map fun p =>
    stepFromCgi e p.1 p.2

/-- When a visit reaches the success callback at the end of a CGI's output, what the connection
takes over needs no write bit. -/
def CallsOpen (conf : Conf) (e : Env) (c : Conn) (s : Srv) : Prop :=
  ∀ p ∈ beforeSend conf e c s, Calls p.1 p.2 → p.1.NextOpen conf e

/-- `Calls` is decidable. -/
instance (c : Conn) (s : Srv) : Decidable (Calls c s) :=
  inferInstanceAs (Decidable (_ ∧ _ ∧ _ ∧ _ ∧ _))

/-- `CallsOpen` is decidable. -/
instance (c : Conn) (s : Srv) : Decidable (CallsOpen conf e c s) :=
  inferInstanceAs (Decidable (∀ p ∈ beforeSend conf e c s, Calls p.1 p.2 → p.1.NextOpen conf e))

/-- The same before the last section. -/
def beforeStatic (conf : Conf) (e : Env) (c : Conn) (s : Srv) : Option (Conn × Srv) :=
  (afterMiddle conf e c s).bind fun p =>
    (stepDynamic e p.1 p.2).conn.map fun c' => (c', (stepDynamic e p.1 p.2).srv)

/-- What the section for a CGI's output leaves of a connection reaches the last section. -/
theorem mem_beforeStatic {p : Conn × Srv} (hp : p ∈ afterMiddle conf e c s)
    (hc' : (stepDynamic e p.1 p.2).conn = some c') :
    (c', (stepDynamic e p.1 p.2).srv) ∈ beforeStatic conf e c s :=
  Option.bind_eq_some_iff.2 ⟨p, hp, Option.map_eq_some_iff.2 ⟨c', hc', rfl⟩⟩

section Stages

variable {R M D B L : Conn → Srv → Prop} {G : Srv → Prop}

/-- The section `recv`, with an assertion `R` about its end. -/
theorem afterRecv_at (hH : Held False A c s) (hready : Ready c s) (h : Rest W c s)
    (hrecv : (stepRecv e c s).Post R G) :
    ∀ p ∈ afterRecv e c s, (Held False A p.1 p.2 ∧ p.1.fd = c.fd) ∧ Recvd W p.1 p.2 ∧
      R p.1 p.2 := by
  intro p hp
  obtain ⟨c1, hc1, rfl⟩ := Option.map_eq_some_iff.1 hp
  have hall := ((stepRecv_recvd e hH.idx h hready).and
    (stepRecv_frame (G := fun _ => True) e c s hH fun _ => trivial)).and hrecv
  obtain ⟨-, ⟨hR, hH1, hM⟩, hr⟩ := hall.of_some hc1
  exact ⟨⟨hH1, hM.fd⟩, hR, hr⟩

/-- The transitions and the streaming to the CGI, with an assertion `M`. -/
theorem afterMiddle_at (hH : Held False A c s) (hready : Ready c s) (h : Rest W c s)
    (hrecv : (stepRecv e c s).Post R G)
    (hmid : ∀ p ∈ afterRecv e c s, Held False A p.1 p.2 → Recvd W p.1 p.2 → R p.1 p.2 →
      M (stepMiddle conf e p.1 p.2).1 (stepMiddle conf e p.1 p.2).2) :
    ∀ p ∈ afterMiddle conf e c s, (Held False A p.1 p.2 ∧ p.1.fd = c.fd) ∧ Rest W p.1 p.2 ∧
      M p.1 p.2 := by
  intro p hp
  obtain ⟨p1, hp1, rfl⟩ := Option.map_eq_some_iff.1 hp
  obtain ⟨⟨hH1, hfd⟩, hR, hr⟩ := afterRecv_at hH hready h hrecv p1 hp1
  obtain ⟨hH2, hM2⟩ := stepMiddle_frame (G := fun _ => True) conf e p1.1 p1.2 (fun f => f.elim)
    (fun _ _ _ => trivial) hH1 fun _ => trivial
  exact ⟨⟨hH2, hM2.fd.trans hfd⟩, stepMiddle_rest conf e hH1 hR, hmid p1 hp1 hH1 hR hr⟩

/-- The section `stream from cgi`, with an assertion `D`. -/
theorem beforeSend_at
    (hmid : ∀ p ∈ afterMiddle conf e c s, (Held False A p.1 p.2 ∧ p.1.fd = c.fd) ∧
      Rest W p.1 p.2 ∧ M p.1 p.2)
    (hfrom : ∀ p ∈ afterMiddle conf e c s, Held False A p.1 p.2 → Rest W p.1 p.2 →
      p.1.req.type = .dynamic → M p.1 p.2 → D (stepFromCgi e p.1 p.2).1 (stepFromCgi e p.1 p.2).2) :
    ∀ p ∈ beforeSend conf e c s, (Held False A p.1 p.2 ∧ p.1.fd = c.fd) ∧ Rest W p.1 p.2 ∧
      D p.1 p.2 := by
  intro p hp
  obtain ⟨p2, hp2, rfl⟩ := Option.map_eq_some_iff.1 hp
  obtain ⟨hp2, ht⟩ := Option.mem_filter_iff.1 hp2
  have ht := of_decide_eq_true ht
  obtain ⟨⟨hH2, hfd⟩, hR, hm⟩ := hmid p2 hp2
  obtain ⟨hH3, hM3⟩ := stepFromCgi_frame (T := False) (A := A) (G := fun _ => True) e p2.1 p2.2 ht
    (fun _ _ _ _ _ _ => trivial) hH2 fun _ => trivial
  exact ⟨⟨hH3, hM3.fd.trans hfd⟩, stepFromCgi_rest e hR, hfrom p2 hp2 hH2 hR ht hm⟩

/-- The section `serve` of a dynamic request, with an assertion `B`. -/
theorem stepDynamic_at (h0 : c.fd ≠ 0) (hW : W → CallsOpen conf e c s)
    (hmid : ∀ p ∈ afterMiddle conf e c s, (Held False A p.1 p.2 ∧ p.1.fd = c.fd) ∧
      Rest W p.1 p.2 ∧ M p.1 p.2)
    (hstatic : ∀ p ∈ afterMiddle conf e c s, Rest W p.1 p.2 → p.1.req.type = .static →
      M p.1 p.2 → B p.1 p.2)
    (hfrom : ∀ p ∈ afterMiddle conf e c s, Held False A p.1 p.2 → Rest W p.1 p.2 →
      p.1.req.type = .dynamic → M p.1 p.2 → D (stepFromCgi e p.1 p.2).1 (stepFromCgi e p.1 p.2).2)
    (hsend : ∀ p ∈ beforeSend conf e c s, 0 < p.1.fd → Held False A p.1 p.2 → Rest W p.1 p.2 →
      D p.1 p.2 → (stepToClient e p.1 p.2).Post B G) :
    ∀ p ∈ afterMiddle conf e c s, (stepDynamic e p.1 p.2).Post
      (fun c' s' => Held False A c' s' ∧
        (Rest False c' s' ∧ (W → c'.Wakes s' ∨ c'.Paged conf e s')) ∧ B c' s')
      G := by
  intro p hp
  obtain ⟨⟨hH, hfd⟩, hR, hm⟩ := hmid p hp
  have hframe := stepDynamic_frame (G := fun _ => True) e p.1 p.2 (fun _ _ _ _ _ _ _ => trivial) hH
    fun _ => trivial
  have hserve : (stepDynamic e p.1 p.2).Post
      (fun c' s' => (Rest False c' s' ∧ (W → c'.Wakes s' ∨ c'.Paged conf e s')) ∧ B c' s') G := by
    unfold stepDynamic
    split
    · rename_i ht
      -- The state in front of the sending.
      have hp3 : stepFromCgi e p.1 p.2 ∈ beforeSend conf e c s := by
        refine Option.mem_map_of_mem _ (a := p) ?_
        rw [Option.mem_filter_iff]
        exact ⟨hp, decide_eq_true ht⟩
      obtain ⟨⟨hH3, hfd3⟩, hR3, hd⟩ := beforeSend_at hmid hfrom _ hp3
      have hpos : 0 < (stepFromCgi e p.1 p.2).1.fd := by
        rw [hfd3]
        omega
      exact ((stepToClient_rest conf e hpos hH3 hR3 fun w => hW w _ hp3).and
        (hsend _ hp3 hpos hH3 hR3 hd)).mono
        (fun _ _ h => h) fun _ h => h.2
    · rename_i ht
      have ht : p.1.req.type = .static := by
        cases h : p.1.req.type with
        | static => rfl
        | dynamic => exact absurd h ht
      exact (Ret.post_some _ _).2 ⟨⟨hR.forget, fun w => .inl (hR.wake w)⟩, hstatic _ hp hR ht hm⟩
  exact (hframe.and hserve).mono (fun _ _ h => ⟨h.1.1, h.2⟩) fun _ h => h.2

/-- What holds at the end of the section for a CGI's output holds in front of the last section. -/
theorem beforeStatic_at
    (hdyn : ∀ p ∈ afterMiddle conf e c s,
      (stepDynamic e p.1 p.2).Post (fun c' s' => Held False A c' s' ∧
        (Rest False c' s' ∧ (W → c'.Wakes s' ∨ c'.Paged conf e s')) ∧ B c' s') G) :
    ∀ p ∈ beforeStatic conf e c s, Held False A p.1 p.2 ∧ Rest False p.1 p.2 ∧ B p.1 p.2 := by
  intro p hp
  obtain ⟨p2, hp2, hp⟩ := Option.bind_eq_some_iff.1 hp
  obtain ⟨c', hc', rfl⟩ := Option.map_eq_some_iff.1 hp
  obtain ⟨-, hH, ⟨hR, -⟩, hb⟩ := (hdyn p2 hp2).of_some hc'
  exact ⟨hH, hR, hb⟩

/-- The rule for a property of one connection: an assertion for each place between two sections of a
visit, and what each section does to them. The connection holds its descriptors and is at rest all
along. -/
theorem visit_stages (h0 : c.fd ≠ 0) (hH : Held False A c s) (hready : Ready c s) (h : Rest W c s)
    (hW : W → CallsOpen conf e c s) (hrecv : (stepRecv e c s).Post R G)
    (hmid : ∀ p ∈ afterRecv e c s, Held False A p.1 p.2 → Recvd W p.1 p.2 → R p.1 p.2 →
      M (stepMiddle conf e p.1 p.2).1 (stepMiddle conf e p.1 p.2).2)
    (hstatic : ∀ p ∈ afterMiddle conf e c s, Rest W p.1 p.2 → p.1.req.type = .static →
      M p.1 p.2 → B p.1 p.2)
    (hfrom : ∀ p ∈ afterMiddle conf e c s, Held False A p.1 p.2 → Rest W p.1 p.2 →
      p.1.req.type = .dynamic → M p.1 p.2 → D (stepFromCgi e p.1 p.2).1 (stepFromCgi e p.1 p.2).2)
    (hsend : ∀ p ∈ beforeSend conf e c s, 0 < p.1.fd → Held False A p.1 p.2 → Rest W p.1 p.2 →
      D p.1 p.2 → (stepToClient e p.1 p.2).Post B G)
    (hlast : ∀ p ∈ beforeStatic conf e c s, Held False A p.1 p.2 → Rest False p.1 p.2 → B p.1 p.2 →
      (stepStatic conf e p.1 p.2).Post L G) :
    (visit conf e c s).Post (fun c' s' => Rest W c' s' ∧ L c' s') G := by
  have hat := afterMiddle_at hH hready h hrecv hmid
  have hdyn := stepDynamic_at h0 hW hat hstatic hfrom hsend
  refine hrecv.andThen fun c1 hc1 _ => ?_
  have hp1 : (c1, (stepRecv e c s).srv) ∈ afterRecv e c s := by
    rw [afterRecv, hc1]
    rfl
  have hp2 : stepMiddle conf e c1 (stepRecv e c s).srv ∈ afterMiddle conf e c s :=
    Option.mem_map_of_mem _ hp1
  refine (hdyn _ hp2).andThen fun c3 hc3 h3 => ?_
  obtain ⟨hH3, ⟨hR3, hw3⟩, hb3⟩ := h3
  have hlast := hlast _ (mem_beforeStatic hp2 hc3)
  generalize (stepDynamic e _ _).srv = s3 at *
  exact ((stepStatic_rest conf e hH3 hR3 hw3).and (hlast hH3 hR3 hb3)).mono (fun _ _ h => h)
    fun _ h => h.2

/-- The same assertions hold in front of the two sections that can end an exchange. -/
theorem visit_points (h0 : c.fd ≠ 0) (hH : Held False A c s) (hready : Ready c s) (h : Rest W c s)
    (hW : W → CallsOpen conf e c s) (hrecv : (stepRecv e c s).Post R G)
    (hmid : ∀ p ∈ afterRecv e c s, Held False A p.1 p.2 → Recvd W p.1 p.2 → R p.1 p.2 →
      M (stepMiddle conf e p.1 p.2).1 (stepMiddle conf e p.1 p.2).2)
    (hstatic : ∀ p ∈ afterMiddle conf e c s, Rest W p.1 p.2 → p.1.req.type = .static →
      M p.1 p.2 → B p.1 p.2)
    (hfrom : ∀ p ∈ afterMiddle conf e c s, Held False A p.1 p.2 → Rest W p.1 p.2 →
      p.1.req.type = .dynamic → M p.1 p.2 → D (stepFromCgi e p.1 p.2).1 (stepFromCgi e p.1 p.2).2)
    (hsend : ∀ p ∈ beforeSend conf e c s, 0 < p.1.fd → Held False A p.1 p.2 → Rest W p.1 p.2 →
      D p.1 p.2 → (stepToClient e p.1 p.2).Post B G) :
    (∀ p ∈ beforeSend conf e c s, Rest W p.1 p.2 ∧ D p.1 p.2) ∧
      ∀ p ∈ beforeStatic conf e c s, Held False A p.1 p.2 ∧ Rest False p.1 p.2 ∧ B p.1 p.2 := by
  have hat := afterMiddle_at hH hready h hrecv hmid
  exact ⟨fun p hp => (beforeSend_at hat hfrom p hp).2,
    beforeStatic_at (stepDynamic_at h0 hW hat hstatic hfrom hsend)⟩

/-- The rule when the assertions are about the connection alone, and something holds of every
exchange that was served: only the last two sections serve one. -/
theorem visit_serves {R M D B L : Conn → Prop} {P : Served → Prop} (h0 : c.fd ≠ 0)
    (hH : Held False A c s) (hready : Ready c s) (h : Rest W c s) (hW : W → CallsOpen conf e c s)
    (hS : ∀ x ∈ s.served, P x) (hrecv : (stepRecv e c s).Post (fun c' _ => R c') (fun _ => True))
    (hmid : ∀ p ∈ afterRecv e c s, Recvd W p.1 p.2 → R p.1 → M (stepMiddle conf e p.1 p.2).1)
    (hstatic : ∀ p ∈ afterMiddle conf e c s, Rest W p.1 p.2 → p.1.req.type = .static →
      M p.1 → B p.1)
    (hfrom : ∀ p ∈ afterMiddle conf e c s, Rest W p.1 p.2 → p.1.req.type = .dynamic → M p.1 →
      D (stepFromCgi e p.1 p.2).1)
    (hsend : ∀ p ∈ beforeSend conf e c s, 0 < p.1.fd → Held False A p.1 p.2 → Rest W p.1 p.2 →
      D p.1 → (∀ x ∈ p.2.served, P x) → (stepToClient e p.1 p.2).Post (fun c' s' => B c' ∧
        ∀ x ∈ s'.served, P x) (fun s' => ∀ x ∈ s'.served, P x))
    (hlast : ∀ c' s', Held False A c' s' → Rest False c' s' → B c' → (∀ x ∈ s'.served, P x) →
      (stepStatic conf e c' s').Post (fun c'' s'' => L c'' ∧ ∀ x ∈ s''.served, P x)
      (fun s'' => ∀ x ∈ s''.served, P x)) :
    (visit conf e c s).Post (fun c' s' => Rest W c' s' ∧ L c' ∧ ∀ x ∈ s'.served, P x)
      (fun s' => ∀ x ∈ s'.served, P x) := by
  refine visit_stages (R := fun c s => R c ∧ ∀ x ∈ s.served, P x) (M := fun c s => M c ∧
    ∀ x ∈ s.served, P x)
    (D := fun c s => D c ∧ ∀ x ∈ s.served, P x) (B := fun c s => B c ∧ ∀ x ∈ s.served, P x)
    (L := fun c s => L c ∧ ∀ x ∈ s.served, P x) h0 hH hready h hW ?_ ?_ ?_ ?_ ?_ ?_
  · refine (hrecv.and (stepRecv_keeps e hH.idx)).mono (fun c' s' h => ⟨h.1, ?_⟩) fun s' h => ?_
    · rw [h.2.marks.served]
      exact hS
    · rw [h.2.served]
      exact hS
  · intro p hp _ hR hr
    refine ⟨hmid p hp hR hr.1, ?_⟩
    rw [(stepMiddle_marks conf e p.1 p.2).served]
    exact hr.2
  · exact fun p hp hR ht hm => ⟨hstatic p hp hR ht hm.1, hm.2⟩
  · intro p hp _ hR ht hm
    refine ⟨hfrom p hp hR ht hm.1, ?_⟩
    rw [(stepFromCgi_marks e p.1 p.2).served]
    exact hm.2
  · exact fun p hp hpos hH' hR hd => hsend p hp hpos hH' hR hd.1 hd.2
  · exact fun p _ hH' hR hb => hlast p.1 p.2 hH' hR hb.1 hb.2

end Stages

/-- A visit leaves its connection at rest. -/
theorem visit_rest (conf : Conf) (e : Env) (h0 : c.fd ≠ 0) (hH : Held False A c s)
    (hready : Ready c s) (h : Rest W c s) (hW : W → CallsOpen conf e c s) :
    (visit conf e c s).Post (Rest W) (fun _ => True) := by
  refine (visit_stages (R := fun _ _ => True) (M := fun _ _ => True) (D := fun _ _ => True)
    (B := fun _ _ => True) (L := fun _ _ => True) (G := fun _ => True) h0 hH hready h hW ?_
    (fun _ _ _ _ _ => trivial) (fun _ _ _ _ _ => trivial) (fun _ _ _ _ _ _ => trivial) ?_ ?_).mono
    (fun _ _ h => h.1) fun _ _ => trivial
  · exact (stepRecv_recvd e hH.idx h hready).mono (fun _ _ _ => trivial) fun _ h => h
  · exact fun p _ hp hH' hR _ =>
      (stepToClient_rest (W := False) conf e hp hH' hR.forget fun f => f.elim).mono
      (fun _ _ _ => trivial) fun _ h => h
  · exact fun p _ hH' hR _ => (stepStatic_rest (W := False) conf e hH' hR fun f => f.elim).mono
      (fun _ _ _ => trivial) fun _ h => h

/-- A connection at rest depends on nothing but its own descriptors. -/
theorem Rest.stable : Stable (Rest W) where
  idx _ _ _ h := h.congr rfl rfl rfl
  keep c s s' h hk := by
    have hfd : c.fd ∈ {d | d ∈ c.owned} := c.fd_mem_owned
    refine ⟨h.shape, ⟨fun ho => ?_, fun hg d hd => ?_, fun hb => ?_⟩, fun hp => ?_,
      h.streamed, fun w hw => ?_⟩
    · rw [hk.read _ hfd, hk.write _ hfd]
      exact h.bits.opened ho
    · have hin : c.Watches d := .inr (.inl hd)
      rw [hk.read _ hin.mem_owned]
      exact h.bits.relay hg d hd
    · rw [hk.write _ hfd]; exact h.bits.send hb
    · rw [hk.read _ hfd]; exact h.done hp
    · rw [hk.write _ hfd]; exact h.wake w hw

/-- A new connection is at rest. -/
theorem Accepted.rest (h : Accepted c) (hr : c.fd ∈ s.pool.read_set)
    (hw : c.fd ∉ s.pool.write_set) :
    Rest W c s := by
  obtain ⟨fd, idx, mem, id, addr, port, scheme, ssl, rfl⟩ := h
  have hf : Fresh _ s := ⟨rfl, rfl, rfl, rfl, hr, hw⟩
  exact hf.rest

/-- Every connection in every reachable state is at rest, with all its write bits in the runs that
keep them. -/
theorem rest_inv (hok : W → ∀ l ev, ok l ev → Visiting (CallsOpen conf) l ev)
    (h : Reach conf ok l) : ∀ c ∈ l.srv.pool.conns, Rest W c l.srv := by
  refine (reach_local (S := fun _ => True) Rest.stable trivial
    (fun c s ha _ hr hw => ha.rest hr hw) ?_ h).1
  intro l ev i m c hl hev hpc hc hH hready hR _
  have h0 : c.fd ≠ 0 := fun he => hH.fd_notMem (he ▸ .inl hl.zero_mem)
  exact (visit_rest conf ev.env h0 hH hready hR fun w => hok w l ev hev i m hpc c hc).mono
    (fun _ _ h => ⟨h, trivial⟩) fun _ h => h

end Liso
