import Liso.Loop.Rest
import Liso.Loop.Sample

/-!
# The output of a CGI

`cn_stream_from_cgi` puts a chunk of the CGI's output into the buffer, and `cn_serve_dynamic` sends
the buffer. A send that takes a part of the chunk moves no cursor, so that the next one starts at
the chunk's first byte again and the client receives bytes twice (`relayed_twice`). In every run
whose sends take the whole chunk, the client has received a prefix of the output at every point, and
all of it when the success callback runs.
-/

namespace Liso

variable {conf : Conf} {l : Loop} {c c' : Conn} {s s' : Srv} {e : Env} {W : Prop}

/-- A send of a CGI's output that takes any byte takes all the bytes that it is offered. -/
def WholeSend (conf : Conf) (e : Env) (c : Conn) (s : Srv) : Prop :=
  ∀ p ∈ beforeSend conf e c s, p.1.fd ∈ p.2.pool.write_ready → p.1.cgi.buf_phase = .send →
    0 < e.send_dynamic → p.1.buf.rsize ≤ e.send_dynamic

/-- `WholeSend` is decidable. -/
instance (c : Conn) (s : Srv) : Decidable (WholeSend conf e c s) :=
  inferInstanceAs (Decidable (∀ p ∈ beforeSend conf e c s, _ → _ → _ → _))

/-- Where the bytes of the CGI's output are: at the client, or at the client and in the buffer. -/
structure Relaying (c : Conn) : Prop where
  /-- Before the CGI has the whole body. -/
  before : c.req.phase ≠ .abort → c.cgi.phase = .idle ∨ c.cgi.phase = .ready ∨
    c.cgi.phase = .srvToCgi →
    c.wire.cur.sent = [] ∧ c.wire.cur.cgi_out = []
  /-- The cursor is at the start of the buffer. -/
  cursor : c.cgi.phase = .cgiToSrv ∨ c.cgi.phase = .done → c.buf.data_p = 0 ∧ c.buf.bad = false
  /-- The buffer is free. -/
  recv : c.cgi.phase = .cgiToSrv ∨ c.cgi.phase = .done → c.cgi.buf_phase = .recv →
    c.wire.cur.sent = c.wire.cur.cgi_out
  /-- The buffer holds the last chunk. -/
  send : c.cgi.phase = .cgiToSrv ∨ c.cgi.phase = .done → c.cgi.buf_phase = .send →
    c.wire.cur.sent ++ c.buf.data = c.wire.cur.cgi_out
  /-- The last chunk of all is empty. -/
  ended : c.cgi.phase = .done → c.buf.data = []

/-- A CGI that neither runs nor is about to run relays nothing. -/
theorem Relaying.of_phase
    (h : c.cgi.phase = .disabled ∨ c.cgi.phase = .abort ∨ c.req.phase = .abort ∧
      c.cgi.phase ≠ .cgiToSrv ∧ c.cgi.phase ≠ .done) :
    Relaying c := by
  have hlate : ¬ (c.cgi.phase = .cgiToSrv ∨ c.cgi.phase = .done) := by
    rintro (hg | hg) <;> rcases h with h | h | ⟨-, h1, h2⟩ <;> simp_all
  refine ⟨fun hp hg => ?_, fun hg => absurd hg hlate, fun hg => absurd hg hlate,
    fun hg => absurd hg hlate,
    fun hg => absurd (.inr hg) hlate⟩
  rcases h with h | h | h
  · simp [h] at hg
  · simp [h] at hg
  · exact absurd h.1 hp

/-- Nothing was sent before the CGI has the whole body. -/
theorem Relaying.of_outs (h : c.outs = ([], [], [])) (hg : c.cgi.phase ≠ .cgiToSrv)
    (hg' : c.cgi.phase ≠ .done) :
    Relaying c := by
  have hlate : ¬ (c.cgi.phase = .cgiToSrv ∨ c.cgi.phase = .done) := by
    rintro (h | h) <;> contradiction
  simp only [Conn.outs, Prod.mk.injEq] at h
  exact ⟨fun _ _ => ⟨h.1, h.2.2⟩, fun hg => absurd hg hlate, fun hg => absurd hg hlate,
    fun hg => absurd hg hlate, fun hg => absurd (.inr hg) hlate⟩

/-! ## The sections of a visit -/

/-- A request that is being received. -/
theorem Relaying.recv_keeps (h : Relaying c) (hk : RecvKeeps c s c' s')
    (hg : c.cgi.phase ≠ .cgiToSrv) (hg' : c.cgi.phase ≠ .done) : Relaying c' := by
  have hlate : ¬ (c'.cgi.phase = .cgiToSrv ∨ c'.cgi.phase = .done) := by
    rcases hk.cgi with h | ⟨-, h⟩ | h <;> simp [h, hg, hg']
  refine ⟨fun hp hphase => ?_, fun hg => absurd hg hlate, fun hg => absurd hg hlate,
    fun hg => absurd hg hlate, fun hg => absurd (.inr hg) hlate⟩
  have hearly : c.cgi.phase = .idle ∨ c.cgi.phase = .ready ∨ c.cgi.phase = .srvToCgi := by
    rcases hk.cgi with he | ⟨he, -⟩ | he
    · exact he ▸ hphase
    · exact .inl he
    · simp [he] at hphase
  have hout := h.before (fun hp' => hp (hk.abort hp')) hearly
  have houts := hk.outs
  simp only [Conn.outs, Prod.mk.injEq] at houts
  rw [houts.1, houts.2.2]
  exact hout

/-- The section `recv` leaves alone what is relayed. -/
theorem stepRecv_relaying (e : Env) (hidx : c.idx < s.pool.conns.length) (hR : Rest W c s)
    (hready : Ready c s) (h : Relaying c) :
    (stepRecv e c s).Post (fun c' _ => Relaying c') (fun _ => True) := by
  by_cases hp : c.req.phase = .done
  · rw [stepRecv_done e hR hready hp]
    exact (Ret.post_some _ _).2 h
  · have hg : c.cgi.phase ≠ .cgiToSrv ∧ c.cgi.phase ≠ .done := by
      cases hR.shape with
      | head _ hg | bodyStatic _ _ hg | bodyReady _ _ hg | bodyStream _ _ hg => simp [hg]
      | abort _ _ _ hg hg' => exact ⟨hg, hg'⟩
      | doneStatic hp' | doneReady hp' | doneStream hp' | relay hp'
      | relayEnd hp' => exact absurd hp' hp
    exact (stepRecv_keeps e hidx).mono (fun _ _ hk => h.recv_keeps hk hg.1 hg.2) fun _ _ => trivial

/-- The transitions and the streaming to the CGI. -/
theorem stepMiddle_relaying (conf : Conf) (e : Env) (hR : Recvd W c s) (h : Relaying c) :
    Relaying (stepMiddle conf e c s).1 := by
  rcases h1 : stepPrepare conf e c (stepLogerr c s) with ⟨c1, s1⟩
  rcases h2 : stepInitCgi e c1 s1 with ⟨c2, s2⟩
  rw [stepMiddle_eq h1 h2]
  -- A complete request for a CGI is not prepared like a file.
  have hr1 : Relaying c1 ∧ (c1.req.phase = .done → c1.req.type = .dynamic → c1 = c) := by
    unfold stepPrepare at h1
    split at h1
    · rename_i hcond
      have hg : c.cgi.phase = .disabled := by
        rcases hR.shape.of_done hcond.2.1 with ⟨-, hg⟩ | ⟨ht, -⟩
        · exact hg
        · simp [hcond.1] at ht
      have hc1 : c1.cgi = c.cgi ∧ c1.req.type = c.req.type := by
        unfold cnPrepareStaticHeader at h1
        dsimp only at h1
        split at h1 <;> (rw [Prod.mk.injEq] at h1; rw [← h1.1]; exact ⟨rfl, rfl⟩)
      refine ⟨.of_phase (.inl (by rw [hc1.1, hg])), fun _ ht => ?_⟩
      rw [hc1.2, hcond.1] at ht
      simp at ht
    · rw [Prod.mk.injEq] at h1
      exact ⟨h1.1 ▸ h, fun _ _ => h1.1.symm⟩
  have hr2 : Relaying c2 := by
    rcases stepInitCgi_cases e c1 s1 with ⟨-, he⟩ | ⟨-, hg, -, he⟩ | ⟨-, -, -, he⟩ <;>
      (rw [h2, Prod.mk.injEq] at he; rw [he.1])
    · exact hr1.1
    · exact ⟨fun hp _ => hr1.1.before hp (.inr (.inl hg)), fun hg' => by simp at hg',
        fun hg' => by simp at hg',
        fun hg' => by simp at hg', fun hg' => by simp at hg'⟩
    · exact .of_phase (.inr (.inl rfl))
  rcases stepStream_cases e c2 (stepSelect c2 s2) with ⟨-, he⟩ | ⟨-, hg, -, he⟩
    | ⟨-, hg, -, hp, he⟩ | ⟨-, hg, -, hp, he⟩ <;> rw [he]
  · exact hr2
  · exact .of_phase
      (.inr (.inr
        ⟨rfl, by simp [lisoConnErr, Conn.logIn, hg], by simp [lisoConnErr, Conn.logIn, hg]⟩))
  · have hlate : ¬ (c2.cgi.phase = .cgiToSrv ∨ c2.cgi.phase = .done) := by simp [hg]
    exact ⟨fun hp' _ => hr2.before hp' (.inr (.inr hg)), fun hg' => absurd hg' hlate,
      fun hg' => absurd hg' hlate,
      fun hg' => absurd hg' hlate, fun hg' => absurd (.inr hg') hlate⟩
  · -- The CGI has the whole body, and the buffer is free.
    have hout := hr2.before (by simp [hp]) (.inr (.inr hg))
    refine ⟨fun _ hg' => by simp at hg', fun _ => ⟨rfl, rfl⟩, fun _ _ => ?_,
      fun _ _ => ?_, fun _ => rfl⟩
    · exact hout.1.trans hout.2.symm
    · show c2.wire.cur.sent ++ [] = c2.wire.cur.cgi_out
      rw [hout.1, hout.2, List.append_nil]

/-- What the CGI writes is what is to be relayed. -/
theorem stepFromCgi_relaying (e : Env) (h : Relaying c) : Relaying (stepFromCgi e c s).1 := by
  rcases stepFromCgi_cases e c s with ⟨s', he, -⟩ | ⟨d, -, -, hg, hb, hout⟩
  · rw [he]; exact h
  have hcur := h.cursor (.inl hg)
  have heq := h.recv (.inl hg) hb
  rcases hout with ⟨-, he⟩ | ⟨data, -, -, he⟩ | ⟨-, he⟩ <;> rw [he]
  · exact .of_phase (.inr (.inl rfl))
  · refine ⟨fun _ hg' => ?_, fun _ => ⟨hcur.1, rfl⟩, fun _ hb' => ?_, fun _ _ => ?_, fun hg' => ?_⟩
    · have hg' : c.cgi.phase = .idle ∨ c.cgi.phase = .ready ∨ c.cgi.phase = .srvToCgi := hg'
      simp [hg] at hg'
    · simp [Conn.fed] at hb'
    · show c.wire.cur.sent ++ data = c.wire.cur.cgi_out ++ data
      rw [heq]
    · have hg' : c.cgi.phase = .done := hg'
      simp [hg] at hg'
  · refine ⟨fun _ hg' => by simp at hg', fun _ => ⟨hcur.1, rfl⟩, fun _ hb' => by simp at hb',
      fun _ _ => ?_,
      fun _ => rfl⟩
    show c.wire.cur.sent ++ [] = c.wire.cur.cgi_out ++ []
    rw [heq]

/-- What is served at the end of a CGI's output is all of it. -/
def Complete (served : List Served) : Prop := ∀ x ∈ served, x.cgi = .done → x.ex.sent = x.ex.cgi_out

/-- The success callback records a complete exchange, and begins the next one with nothing relayed.
-/
theorem lisoResetOrClose_relaying (e : Env) (hH : Held False A c s) (hs : Complete s.served)
    (hx : c.cgi.phase = .done → c.wire.cur.sent = c.wire.cur.cgi_out) :
    (lisoResetOrClose e c s).Post (fun c' s' => Relaying c' ∧ Complete s'.served)
    (fun s' => Complete s'.served) := by
  refine (((lisoResetOrClose_served e hH.idx).and (lisoResetOrClose_rest (W := False) e hH)).and
    (lisoResetOrClose_all e hH.idx hs hx)).mono ?_ fun _ h => h.2
  rintro c' s' ⟨⟨⟨hout, -⟩, -, hcalm, -⟩, hall⟩
  refine ⟨.of_outs hout ?_ ?_, hall⟩ <;> rcases hcalm with h | h | h <;> simp [h]

/-- The sending of a CGI's output, when it takes the whole chunk. -/
theorem stepToClient_relaying (e : Env) (h0 : 0 < c.fd) (hH : Held False A c s) (hR : Rest W c s)
    (h : Relaying c) (hs : Complete s.served)
    (hwhole : c.fd ∈ s.pool.write_ready → c.cgi.buf_phase = .send → 0 < e.send_dynamic →
      c.buf.rsize ≤ e.send_dynamic) :
    (stepToClient e c s).Post (fun c' s' => Relaying c' ∧ Complete s'.served)
    (fun s' => Complete s'.served) := by
  have hH' := hH.acted c.fd
  rcases stepToClient_cases e c s h0 with ⟨-, he⟩ | ⟨hready, hb, hout⟩
  · rw [he]
    exact (Ret.post_some _ _).2 ⟨h, hs⟩
  obtain ⟨-, -, -, hg⟩ := hR.shape.of_send hb
  have hg : c.cgi.phase = .cgiToSrv ∨ c.cgi.phase = .done := hg.imp_left And.left
  obtain ⟨hcur, hbad⟩ := h.cursor hg
  have heq := h.send hg hb
  rcases hout with ⟨-, hd, he⟩ | ⟨hend, ⟨-, he⟩ | ⟨hrc, he⟩⟩ <;> rw [he]
  · -- The CGI has ended and its output was sent: the exchange is complete.
    have hx : c.wire.cur.sent = c.wire.cur.cgi_out := by
      rw [h.ended hd, List.append_nil] at heq
      exact heq
    refine (lisoResetOrClose_relaying e hH' hs fun _ => hx).andThen fun c1 _ h1 => ?_
    split
    · exact (Ret.post_some _ _).2 h1
    · exact (Ret.post_some _ _).2 h1
  · exact (lisoDropConn_post (c := c) hH'.idx).mono (fun _ _ h => h) fun s' hs' => by
      rw [hs'.served]; exact hs
  · -- The whole chunk was sent.
    have hrest : c.buf.rest = c.buf.data := by rw [Buf.rest, hcur, List.drop_zero]
    have hsize : c.buf.rsize = c.buf.data.length := by simp [Buf.rsize, Buf.sz, hcur, hbad]
    have hpos : 0 < e.send_dynamic := lt_of_lt_of_le hrc (min_le_left _ _)
    have hall : (smartSend c.buf.rest e.send_dynamic) = (c.buf.rsize, c.buf.data) := by
      have hle := hwhole hready hb hpos
      rw [hrest, smartSend, hsize] at *
      rw [min_eq_right hle]
      simp
    have hfree : (c.relayed e).cgi.buf_phase = .recv := by
      simp [Conn.relayed, hall]
    have hsent : (c.relayed e).wire.cur.sent = c.wire.cur.sent ++ c.buf.data := by
      simp [Conn.relayed, Conn.logSent, hall]
    refine (Ret.post_some _ _).2
      ⟨⟨fun hp hg' => ?_, fun _ => ⟨hcur, hbad⟩, fun _ _ => ?_, fun _ hb' => ?_,
      h.ended⟩, ?_⟩
    · have hg' : c.cgi.phase = .idle ∨ c.cgi.phase = .ready ∨ c.cgi.phase = .srvToCgi := hg'
      rcases hg with hg | hg <;> simp [hg] at hg'
    · rw [hsent]
      exact heq
    · simp [hfree] at hb'
    · rw [hfree, if_pos rfl]
      exact hs

/-- The last section serves no CGI's output. -/
theorem stepStatic_relaying (conf : Conf) (e : Env) (hH : Held False A c s) (hR : Rest W c s)
    (h : Relaying c) (hs : Complete s.served) :
    (stepStatic conf e c s).Post (fun c' s' => Relaying c' ∧ Complete s'.served)
    (fun s' => Complete s'.served) := by
  rcases stepStatic_cases conf e c s with ⟨s', he, rfl | rfl⟩ | ⟨hr, c', hsent, hout⟩
  · rw [he]; exact (Ret.post_some _ _).2 ⟨h, hs⟩
  · rw [he]; exact (Ret.post_some _ _).2 ⟨h, hs⟩
  have hg : c.cgi.phase = .disabled ∨ c.req.phase = .abort ∧ c.cgi.phase ≠ .cgiToSrv ∧
    c.cgi.phase ≠ .done := by
    cases hR.shape with
    | doneStatic _ _ hg => exact .inl hg
    | abort hp _ _ hg hg' => exact .inr ⟨hp, hg, hg'⟩
    | head _ _ hr' | bodyStatic _ _ _ hr' | bodyReady _ _ _ hr' | bodyStream _ _ _ hr'
    | doneReady _ _ _ hr'
    | doneStream _ _ _ hr' | relay _ _ _ hr' | relayEnd _ _ _ hr' =>
      rcases hr with hr | hr | hr <;> simp [hr] at hr'
  obtain ⟨buf, resp, data, rfl⟩ := hsent
  have hH' := (hH.acted c.fd).sent data buf resp
  have hstay : Relaying { c.logSent data with buf := buf, resp := resp } :=
    .of_phase (hg.imp_right .inr)
  rcases hout with he | he | ⟨b, he⟩ <;> rw [he]
  · exact (lisoDropConn_post hH'.idx).mono (fun _ _ h => h) fun s' hs' => by
      rw [hs'.served]; exact hs
  · refine lisoResetOrClose_relaying e hH' hs fun hd => ?_
    have hd : c.cgi.phase = .done := hd
    rcases hg with hg | ⟨-, -, hg⟩
    · simp [hd] at hg
    · exact absurd hd hg
  · exact (Ret.post_some _ _).2 ⟨hstay, hs⟩

/-! ## Every run -/

/-- In the runs whose sends of a CGI's output take the whole chunk, the client has received a prefix
of what the CGI wrote, and all of it when the success callback runs. -/
theorem relayed_in_order (h : Reach conf (Visiting (WholeSend conf)) l) :
    (∀ c ∈ l.srv.pool.conns, c.cgi.phase = .cgiToSrv ∨ c.cgi.phase = .done →
      c.wire.cur.sent <+: c.wire.cur.cgi_out) ∧
    ∀ x ∈ l.srv.served, x.cgi = .done → x.ex.sent = x.ex.cgi_out := by
  have hall :=
    reach_local (L := fun c s => Rest False c s ∧ Relaying c) (S := fun m => Complete m.1) ?_ ?_ ?_
      ?_ h
  · refine ⟨fun c hc hg => ?_, hall.2⟩
    have hr := (hall.1 c hc).2
    cases hb : c.cgi.buf_phase with
    | recv => rw [hr.recv hg hb]
    | send => rw [← hr.send hg hb]; exact List.prefix_append _ _
  · exact ⟨fun c s i h => ⟨Rest.stable.idx c s i h.1,
      ⟨h.2.before, h.2.cursor, h.2.recv, h.2.send, h.2.ended⟩⟩,
      fun c s s' h hk => ⟨Rest.stable.keep c s s' h.1 hk, h.2⟩⟩
  · exact fun x hx => by simp at hx
  · intro c s ha _ hr hw
    refine ⟨ha.rest hr hw, ?_⟩
    obtain ⟨fd, idx, mem, id, addr, port, scheme, ssl, rfl⟩ := ha
    exact .of_outs rfl (by simp [cnNew, cgiNew]) (by simp [cnNew, cgiNew])
  · intro l ev i m c hl hok hpc hc hH hready hL hS
    have h0 : c.fd ≠ 0 := fun he => hH.fd_notMem (he ▸ .inl hl.zero_mem)
    have hwhole := hok i m hpc c hc
    refine (visit_serves (R := Relaying) (M := Relaying) (D := Relaying) (B := Relaying)
      (L := Relaying) h0 hH hready hL.1
      (fun f => f.elim) hS ?_ ?_ ?_ ?_ ?_ ?_).mono (fun _ _ h => ⟨⟨h.1, h.2.1⟩, h.2.2⟩) fun _ h => h
    · exact stepRecv_relaying ev.env hH.idx hL.1 hready hL.2
    · exact fun p _ hR hr => stepMiddle_relaying conf ev.env hR hr
    · exact fun p _ _ _ hr => hr
    · exact fun p _ _ _ hr => stepFromCgi_relaying ev.env hr
    · exact fun p hp hpos hH' hR hr hs => stepToClient_relaying ev.env hpos hH' hR hr
        hs (hwhole p hp)
    · exact fun c' s' hH' hR hr hs => stepStatic_relaying conf ev.env hH' hR hr hs

/-- The run of a request for a CGI that writes `abc`, of which the first send takes `n` bytes. -/
def outputRun (n : ℤ) : List Ev :=
  Sample.connect ++ Sample.select {5} ∅ ++
    [Sample.recv "POST /cgi/x HTTP/1.1\r\nContent-Length:0\r\n\r\n", Sample.next] ++
    Sample.select {8} ∅ ++ [Sample.visit { Sample.env with read := some (str "abc") }, Sample.next]
      ++
    Sample.select ∅ {5} ++ [Sample.visit { Sample.env with send_dynamic := n }, Sample.next]

/-- The first send takes all three bytes; the CGI's output ends, and the callback runs. -/
theorem relayed_whole :
    (∀ c ∈ (Runs.exec (step Sample.conf) Sample.start (outputRun 3 ++ Sample.select {8} {5} ++
        [Sample.next, Sample.next] ++ Sample.select ∅ {5} ++
          [Sample.next, Sample.next])).srv.pool.conns,
      c.cgi.phase = .cgiToSrv ∨ c.cgi.phase = .done → c.wire.cur.sent <+: c.wire.cur.cgi_out) ∧
    ∀ x ∈ (Runs.exec (step Sample.conf) Sample.start (outputRun 3 ++ Sample.select {8} {5} ++
        [Sample.next, Sample.next] ++ Sample.select ∅ {5} ++
          [Sample.next, Sample.next])).srv.served,
      x.cgi = .done → x.ex.sent = x.ex.cgi_out :=
  relayed_in_order ((Runs.Reach.start Sample.start_init).along _ (by decide +kernel))

/-- The first send takes one byte, and the second one starts at the same byte: the client has
received `aabc`. -/
theorem relayed_twice : ¬ ∀ l, Reach Sample.conf Runs.any l →
    (∀ c ∈ l.srv.pool.conns, c.cgi.phase = .cgiToSrv ∨ c.cgi.phase = .done →
      c.wire.cur.sent <+: c.wire.cur.cgi_out) ∧
    ∀ x ∈ l.srv.served, x.cgi = .done → x.ex.sent = x.ex.cgi_out := by
  intro h
  have := (h _ (Sample.reach (outputRun 1 ++ Sample.select ∅ {5} ++ [Sample.next]))).1
  revert this
  decide +kernel

end Liso
