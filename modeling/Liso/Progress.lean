import Liso.Turnover
import Liso.Exchanges
import Liso.Lib.Progress

/-!
# Answers come to their end

Behind the header of a file there are so many bytes to send, and every visit that finds the socket
writable sends one at least. So the response is over after as many such visits (`answer_ends`),
whatever else happens in the run: the success callback runs, and the bytes sent are the response.
`tracked_inv` is the invariant behind it: in every reachable state the two cursors of a response
under way are where the bytes sent have brought them.
-/

namespace Liso

open Handles (Table Picker)

variable {conf : Conf} {ok : Loop → Ev → Prop} {l : Loop} {ev : Ev} {evs : List Ev} {c c' : Conn}
  {s s' : Srv} {e : Env} {A : Set ℕ}
  {W : Prop}

/-! ## The cursors of a response under way -/

/-- A file is being sent. -/
def Conn.Files (c : Conn) : Prop := c.resp.phase = .header ∨ c.resp.phase = .body

/-- `Conn.Files` is decidable. -/
instance (c : Conn) : Decidable c.Files := inferInstanceAs (Decidable (_ ∨ _))

/-- The file that is being sent, and how much of it was sent. -/
def Tracked (c : Conn) : Prop :=
  c.Files → ∃ before hdr bytes k, Sending before hdr bytes k c ∧ bytes ≠ []

/-- What sends no file needs no tracking. -/
theorem Tracked.of_not (h : ¬ c.Files) : Tracked c := fun hf => absurd hf h

/-- The tracking depends on the response, what was sent, and the buffer while a file is sent. -/
theorem Tracked.congr (h : Tracked c) (hresp : c'.resp = c.resp)
    (hsent : c'.wire.cur.sent = c.wire.cur.sent) (hbuf : c.Files → c'.buf = c.buf) :
    Tracked c' := by
  intro hf
  have hf : c.Files := by rwa [Conn.Files, hresp] at hf
  obtain ⟨before, hdr, bytes, k, hsend, hne⟩ := h hf
  refine ⟨before, hdr, bytes, k, ⟨hsent.trans hsend.sent, ?_⟩, hne⟩
  rw [hresp, hbuf hf]
  exact hsend.place

/-- A file is sent to a complete static request. -/
theorem Shape.files (h : Shape c) (hf : c.Files) :
    c.req.phase = .done ∧ c.req.type = .static ∧ c.cgi.phase = .disabled ∧
      c.cgi.buf_phase = .recv := by
  cases h with
  | doneStatic hp ht hg _ hb => exact ⟨hp, ht, hg, hb⟩
  | head _ _ hr | bodyStatic _ _ _ hr | bodyReady _ _ _ hr | bodyStream _ _ _ hr
  | doneReady _ _ _ hr | doneStream _ _ _ hr
  | relay _ _ _ hr | relayEnd _ _ _ hr | abort _ hr => rcases hf with hf | hf <;> simp [hr] at hf

/-- A request for a CGI sends no file. -/
theorem Shape.not_files (h : Shape c) (ht : c.req.type = .dynamic) : ¬ c.Files := fun hf => by
  simp [(h.files hf).2.1] at ht

/-- What is received begins no response. -/
theorem RecvKeeps.not_files (h : RecvKeeps c s c' s') (hno : ¬ c.Files) : ¬ c'.Files := by
  rcases h.resp with ⟨hr, -⟩ | hr | hr
  · rwa [Conn.Files, hr]
  · simp [Conn.Files, hr]
  · simp [Conn.Files, hr]

/-- The success callback begins no response. -/
theorem lisoResetOrClose_files (e : Env) (hidx : c.idx < s.pool.conns.length) :
    (lisoResetOrClose e c s).Post (fun c' _ => ¬ c'.Files) (fun _ => True) := by
  rcases lisoResetOrClose_cases e c s with ⟨-, he⟩ | ⟨-, -, he⟩ | ⟨-, -, he⟩ <;> rw [he]
  · exact lisoDropConn_gone hidx
  · exact (Ret.post_some _ _).2 (by simp [Conn.Files, plResetConn_eq, respReset])
  · refine (Ret.post_some _ _).2 ?_
    refine (handOver_keeps e (plResetConn (s.serve c) c.archive).1
      (plResetConn (s.serve c) c.archive).2).not_files ?_
    simp [Conn.Files, plResetConn_eq, respReset]

/-! ## The sections of a visit -/

/-- The sections between the receipt and the serving. -/
theorem stepMiddle_tracked (conf : Conf) (hR : Recvd W c s) (h : Tracked c) :
    Tracked (stepMiddle conf e c s).1 := by
  have hprep := stepPrepare_recvd conf e (stepLogerr_recvd hR)
  have h1 : Tracked (stepPrepare conf e c (stepLogerr c s)).1 := by
    unfold stepPrepare
    split
    case isFalse => exact h
    by_cases hb : (respBuild e.fs e.pick c.resp c.req conf (stepLogerr c s).fds).1 = 0
    · refine .of_not ?_
      unfold cnPrepareStaticHeader
      dsimp only
      rw [if_pos hb]
      simp [Conn.Files, lisoConnErr]
    · obtain ⟨_, _, bytes, -, -, -, -, -, hne, -, hsend⟩ := prepared_sending hb
      exact fun _ => ⟨_, _, _, _, hsend, hne⟩
  rw [stepMiddle_eq_transit]
  unfold stepTransit
  generalize stepPrepare conf e c (stepLogerr c s) = q at hprep h1 ⊢
  obtain ⟨hinit, -⟩ := stepInitCgi_recvd e hprep
  have h2 : Tracked (stepInitCgi e q.1 q.2).1 := by
    rcases stepInitCgi_cases e q.1 q.2 with ⟨-, he⟩ | ⟨-, -, -, he⟩ | ⟨-, -, -, he⟩ <;> rw [he]
    · exact h1
    · exact h1.congr rfl rfl fun _ => rfl
    · exact .of_not (by simp [Conn.Files, lisoConnErr])
  generalize stepInitCgi e q.1 q.2 = q' at hinit h2 ⊢
  rcases stepStream_cases e q'.1 (stepSelect q'.1 q'.2) with ⟨-, he⟩ | ⟨-, -, -, he⟩
    | ⟨ht, -, -, -, he⟩ | ⟨ht, -, -, -, he⟩ <;>
    rw [he]
  · exact h2
  · exact .of_not (by simp [Conn.Files, lisoConnErr])
  · exact .of_not (hinit.shape.not_files ht)
  · exact .of_not (hinit.shape.not_files ht)

/-- The relaying of a CGI's output begins no response. -/
theorem stepFromCgi_files (e : Env) (s : Srv) (hno : ¬ c.Files) :
    ¬ (stepFromCgi e c s).1.Files := by
  rcases stepFromCgi_cases e c s with ⟨s', he, -⟩
    | ⟨d, -, -, -, -, ⟨-, he⟩ | ⟨data, -, -, he⟩ | ⟨-, he⟩⟩ <;> rw [he]
  · exact hno
  · simp [Conn.Files, lisoConnErr]
  · exact hno
  · exact hno

/-- Behind the sending of a CGI's output, no file is sent yet. -/
theorem stepToClient_files (e : Env) (h0 : 0 < c.fd) (hidx : c.idx < s.pool.conns.length)
    (hno : ¬ c.Files) :
    (stepToClient e c s).Post (fun c' _ => ¬ c'.Files) (fun _ => True) := by
  rcases stepToClient_cases e c s h0 with ⟨-, he⟩ | ⟨-, -, ⟨-, -, he⟩ | ⟨-, ⟨-, he⟩ | ⟨-, he⟩⟩⟩
    <;> rw [he]
  · exact (Ret.post_some _ _).2 hno
  · refine (lisoResetOrClose_files (s := (s.probe c.fd).act c.fd) e hidx).andThen fun c1 _ h1 => ?_
    split
    · exact (Ret.post_some _ _).2 h1
    · exact (Ret.post_some _ _).2 h1
  · exact lisoDropConn_gone hidx
  · exact (Ret.post_some _ _).2 hno

/-- The section that serves files and pages keeps track of what was sent. -/
theorem stepStatic_tracked (conf : Conf) (e : Env) (hidx : c.idx < s.pool.conns.length)
    (h : Tracked c) :
    (stepStatic conf e c s).Post (fun c' _ => Tracked c') (fun _ => True) := by
  unfold stepStatic
  dsimp only
  split
  case isFalse => exact (Ret.post_some _ _).2 h
  have hidx₁ : c.idx < ((s.probe c.fd).act c.fd).pool.conns.length := hidx
  generalize (s.probe c.fd).act c.fd = s₁ at hidx₁ ⊢
  obtain ⟨hend, hgo⟩ := cnServeStatic_calls conf e (lisoResetOrClose e) lisoDropConn c s₁
  -- A callback leaves a request whose response is not built yet.
  have hended : ∀ c' : Conn, c'.idx = c.idx →
    (lisoResetOrClose e c' s₁).Post (fun c' _ => Tracked c') (fun _ => True) :=
    fun c' hi => (lisoResetOrClose_files e (by rw [hi]; exact hidx₁)).mono (fun _ _ h => .of_not h)
      fun _ h => h
  have hfail : e.send_static ≤ 0 → c.resp.phase = .header ∨ c.resp.phase = .abort ∨
    c.resp.phase = .body ∧ c.resp.mmbuf ≠ none →
      (cnServeStatic conf e (lisoResetOrClose e) lisoDropConn c s₁).Post (fun c' _ => Tracked c')
        (fun _ => True) := by
    intro h0 hr
    obtain ⟨c', hi, he⟩ := cnServeStatic_fails conf (lisoResetOrClose e) lisoDropConn s₁ h0 hr
    rw [he]
    exact lisoDropConn_gone (by rw [hi]; exact hidx₁)
  by_cases hf : c.Files
  · obtain ⟨before, hdr, bytes, k, hsend, hne⟩ := h hf
    rcases le_or_gt e.send_static 0 with h0 | h0
    · refine hfail h0 ?_
      rcases hsend.place with ⟨-, hr, -⟩ | ⟨-, -, hr, hm⟩
      · exact .inl hr
      · exact .inr (.inr ⟨hr, by simp [hm]⟩)
    · -- The send takes from the header, or from the file behind it.
      rcases lt_or_ge k hdr.length with hk | hk
      · obtain ⟨k', -, hout, hnext⟩ := hsend.header hk hne h0 conf s₁
        by_cases hm : c.req.method = .head
        · rw [if_pos hm] at hout
          rw [hend _ hout]
          exact hended _ rfl
        · rw [if_neg hm] at hout
          rw [hgo _ hout]
          exact (Ret.post_some _ _).2 fun _ => ⟨_, _, _, _, hnext, hne⟩
      · obtain ⟨k', m, -, ⟨-, hout⟩ | ⟨hout, hnext⟩⟩ := hsend.file hk h0 conf s₁
        · rw [hend _ hout]
          exact hended _ rfl
        · rw [hgo _ hout]
          exact (Ret.post_some _ _).2 fun _ => ⟨_, _, _, _, hnext, hne⟩
  · cases hr : c.resp.phase with
    | header => exact absurd (.inl hr) hf
    | body => exact absurd (.inr hr) hf
    | ready | disabled =>
      have hout : cnServeStatic conf e noteEnd noteFail c s₁ = ⟨1, some c, s₁⟩ := by
        unfold cnServeStatic
        rw [hr]
      rw [hgo c hout]
      exact (Ret.post_some _ _).2 h
    | abort =>
      rcases le_or_gt e.send_static 0 with h0 | h0
      · exact hfail h0 (.inr (.inl hr))
      · obtain ⟨k, hk, -, hsend⟩ := smartSend_some h0 (page_ne_nil conf e c)
        have hout : cnServeStatic conf e noteEnd noteFail c s₁ = cnSendErrorPage conf e noteEnd
          noteFail c s₁ := by
          unfold cnServeStatic
          rw [hr]
        rw [send_page s₁ hk hsend] at hout
        split at hout
        · rw [hend _ hout]
          exact hended _ rfl
        · rw [hgo _ hout]
          exact (Ret.post_some _ _).2
            (.of_not (by simp [Conn.Files, Conn.pageSent, Conn.logSent, hr]))

/-- A visit keeps track of what was sent of a file. -/
theorem visit_tracked (conf : Conf) (e : Env) (h0 : c.fd ≠ 0) (hH : Held False A c s)
    (hready : Ready c s) (hR : Rest False c s) (h : Tracked c) :
    (visit conf e c s).Post (fun c' s' => Rest False c' s' ∧ Tracked c') (fun _ => True) := by
  refine visit_stages (R := fun c _ => Tracked c) (M := fun c _ => Tracked c)
    (D := fun c _ => ¬ c.Files)
    (B := fun c _ => Tracked c) (L := fun c _ => Tracked c) h0 hH hready hR (fun f => f.elim) ?_
      ?_ ?_ ?_ ?_ ?_
  · by_cases hf : c.Files
    · rw [stepRecv_done e hR hready (hR.shape.files hf).1]
      exact (Ret.post_some _ _).2 h
    · exact (stepRecv_keeps e hH.idx).mono (fun _ _ hk => .of_not (hk.not_files hf)) fun _ _ =>
        trivial
  · exact fun p _ _ hRp hp => stepMiddle_tracked conf hRp hp
  · exact fun p _ _ _ hp => hp
  · exact fun p _ _ hRp ht _ => stepFromCgi_files e p.2 (hRp.shape.not_files ht)
  · exact fun p _ hpos hHp _ hp => (stepToClient_files e hpos hHp.idx hp).mono
      (fun _ _ h => .of_not h) fun _ h => h
  · exact fun p _ hHp _ hp => stepStatic_tracked conf e hHp.idx hp

/-- The cursors of the responses under way, in every reachable state. -/
theorem tracked_inv (h : Reach conf ok l) :
    ∀ c ∈ l.srv.pool.conns, Rest False c l.srv ∧ Tracked c := by
  refine (reach_local (L := fun c s => Rest False c s ∧ Tracked c)
    (S := fun _ => True) ?_ trivial ?_ ?_ h).1
  · refine ⟨fun c s i h => ⟨Rest.stable.idx c s i h.1, h.2.congr rfl rfl fun _ => rfl⟩,
      fun c s s' h hk =>
      ⟨Rest.stable.keep c s s' h.1 hk, h.2⟩⟩
  · intro c s ha _ hr hw
    refine ⟨ha.rest hr hw, .of_not ?_⟩
    obtain ⟨fd, idx, mem, id, addr, port, scheme, ssl, rfl⟩ := ha
    simp [Conn.Files, cnNew, respNew, respReset]
  · intro l ev i m c hl _ _ _ hH hready hL _
    have h0 : c.fd ≠ 0 := fun he => hH.fd_notMem (he ▸ .inl hl.zero_mem)
    exact (visit_tracked conf ev.env h0 hH hready hL.1 hL.2).mono (fun _ _ h => ⟨h, trivial⟩)
      fun _ _ => trivial

/-! ## Bytes that are still to be sent -/

/-- The bytes of the response that were not sent yet. -/
def Conn.unsent (c : Conn) : List Byte :=
  (if c.resp.phase = .header then c.buf.rest else []) ++ (c.resp.mmbuf.map Buf.rest).getD []

/-- What is not sent yet is the end of the response. -/
theorem Sending.unsent {before hdr bytes : List Byte} {k : ℕ} (h : Sending before hdr bytes k c) :
    c.unsent = (hdr ++ bytes).drop k ∧ c.wire.cur.sent ++ c.unsent = before ++ (hdr ++ bytes) := by
  have hdrop : c.unsent = (hdr ++ bytes).drop k := by
    rcases h.place with ⟨hk, hr, hbuf, hm⟩ | ⟨hk, -, hr, hm⟩
    · rw [Conn.unsent, if_pos hr, hbuf, hm, List.drop_append_of_le_length hk.le]
      rfl
    · rw [Conn.unsent, if_neg (by simp [hr]), hm, List.drop_append, List.drop_of_length_le hk]
      rfl
  refine ⟨hdrop, ?_⟩
  rw [h.sent, hdrop, List.append_assoc, List.take_append_drop]

/-- In a visit to a complete request for a file only the preparation of the response comes before
the last section. -/
theorem visit_static (conf : Conf) (e : Env) (hH : Held False A c s) (hready : Ready c s)
    (hR : Rest False c s) (hp : c.req.phase = .done) (ht : c.req.type = .static) :
    ∃ s', beforeStatic conf e c s =
        some ((stepPrepare conf e c (stepLogerr c (s.probe c.fd))).1, s') ∧
      visit conf e c s = stepStatic conf e (stepPrepare conf e c (stepLogerr c (s.probe c.fd))).1
        s' ∧
      Held False A (stepPrepare conf e c (stepLogerr c (s.probe c.fd))).1 s' ∧
      s'.served = s.served ∧ s'.pool.write_ready = s.pool.write_ready := by
  have hrecv := stepRecv_done e hR hready hp
  obtain ⟨hH1, hM1⟩ := probe_frame (G := fun _ => True) c s c.fd hH fun _ => trivial
  obtain ⟨hH2, hM2⟩ := stepMiddle_frame (G := fun _ => True) conf e c (s.probe c.fd)
    (fun f => f.elim)
    (fun _ _ _ => trivial) hH1 fun _ => trivial
  have hmarks := stepMiddle_marks conf e c (s.probe c.fd)
  have htype := (stepPrepare_keeps conf e c (stepLogerr c (s.probe c.fd))).2.2.trans ht
  -- A request for a file passes the sections for a CGI.
  have hmid : (stepMiddle conf e c (s.probe c.fd)).1 =
      (stepPrepare conf e c (stepLogerr c (s.probe c.fd))).1 := by
    rw [stepMiddle_eq_transit]
    unfold stepTransit
    generalize stepPrepare conf e c (stepLogerr c (s.probe c.fd)) = q at htype ⊢
    have hinit : stepInitCgi e q.1 q.2 = q := if_neg fun hcond => by simp [htype] at hcond
    have hstream : stepStream e q.1 (stepSelect q.1 q.2) = (q.1, stepSelect q.1 q.2) :=
      if_neg fun hcond => by simp [htype] at hcond
    rw [hinit, hstream]
  have hdyn : stepDynamic e (stepMiddle conf e c (s.probe c.fd)).1
      (stepMiddle conf e c (s.probe c.fd)).2 =
        ⟨1, some (stepMiddle conf e c (s.probe c.fd)).1,
          (stepMiddle conf e c (s.probe c.fd)).2⟩ :=
    if_neg (by rw [hmid, htype]; simp)
  rw [← hmid]
  refine ⟨_, ?_, ?_, hH2, hmarks.served, hM2.write_ready.trans hM1.write_ready⟩
  · rw [beforeStatic, afterMiddle, afterRecv, hrecv]
    show ((stepDynamic e (stepMiddle conf e c (s.probe c.fd)).1
      (stepMiddle conf e c (s.probe c.fd)).2).conn.map _) = _
    rw [hdyn]
    rfl
  · unfold visit
    rw [hrecv]
    show ((stepDynamic e (stepMiddle conf e c (s.probe c.fd)).1
      (stepMiddle conf e c (s.probe c.fd)).2).andThen fun c s => stepStatic conf e c s) = _
    rw [hdyn]
    rfl

/-- The sections before the last one leave a connection alone that a file is sent to. -/
theorem visit_files (conf : Conf) (e : Env) (hH : Held False A c s) (hready : Ready c s)
    (hR : Rest False c s) (hf : c.Files) :
    ∃ s', visit conf e c s = stepStatic conf e c s' ∧ Held False A c s' ∧ s'.served = s.served ∧
      s'.pool.write_ready = s.pool.write_ready := by
  obtain ⟨hp, ht, -⟩ := hR.shape.files hf
  have hprep : stepPrepare conf e c (stepLogerr c (s.probe c.fd)) =
    (c, stepLogerr c (s.probe c.fd)) :=
    if_neg fun hcond => by rcases hf with hf | hf <;> simp [hf] at hcond
  obtain ⟨s', -, hvisit⟩ := visit_static conf e hH hready hR hp ht
  rw [hprep] at hvisit
  exact ⟨s', hvisit⟩

/-- A send that takes bytes of a response ends the exchange, or leaves fewer bytes. -/
theorem stepStatic_sends (conf : Conf) (h : Tracked c) (hf : c.Files) (h0 : 0 < e.send_static)
    (hready : c.fd ∈ s.pool.write_ready) :
    (∃ c', c.Sent c' ∧ c.wire.cur.sent.length < c'.wire.cur.sent.length ∧
        (c.req.method ≠ .head → c'.wire.cur.sent = c.wire.cur.sent ++ c.unsent) ∧
        stepStatic conf e c s = lisoResetOrClose e c' ((s.probe c.fd).act c.fd)) ∨
      ∃ c', c.Sent c' ∧ c'.Files ∧
        c'.wire.cur.sent ++ c'.unsent = c.wire.cur.sent ++ c.unsent ∧
          c'.unsent.length < c.unsent.length ∧
        stepStatic conf e c s = ⟨1, some c', (s.probe c.fd).act c.fd⟩ := by
  have hstep : stepStatic conf e c s =
      cnServeStatic conf e (lisoResetOrClose e) lisoDropConn c ((s.probe c.fd).act c.fd) := by
    refine if_pos ⟨decide_eq_true hready, ?_⟩
    rcases hf with hf | hf <;> simp [hf]
  rw [hstep]
  generalize (s.probe c.fd).act c.fd = s₁
  obtain ⟨hend, hgo⟩ := cnServeStatic_calls conf e (lisoResetOrClose e) lisoDropConn c s₁
  obtain ⟨before, hdr, bytes, k, hsend, hne⟩ := h hf
  obtain ⟨hunsent, hall⟩ := hsend.unsent
  have hfiles : ∀ {c' : Conn} {k : ℕ}, Sending before hdr bytes k c' → c'.Files := by
    intro c' k hs
    rcases hs.place with ⟨-, hr, -⟩ | ⟨-, -, hr, -⟩
    · exact .inl hr
    · exact .inr hr
  have hbound : k < (hdr ++ bytes).length := by
    rcases hsend.place with ⟨hk, -⟩ | ⟨-, hk, -⟩
    · rw [List.length_append]
      omega
    · exact hk
  -- What is left shrinks by what was taken, and sent and left stay the whole response.
  have hless : ∀ {c' : Conn} {k' : ℕ}, 0 < k' → Sending before hdr bytes (k + k') c' →
      c'.wire.cur.sent ++ c'.unsent = c.wire.cur.sent ++ c.unsent ∧
        c'.unsent.length < c.unsent.length := by
    intro c' k' hk' hs
    obtain ⟨hu, ha⟩ := hs.unsent
    refine ⟨ha.trans hall.symm, ?_⟩
    rw [hu, hunsent, List.length_drop, List.length_drop]
    omega
  have hmore : ∀ {c' : Conn} {k' : ℕ}, 0 < k' →
      c'.wire.cur.sent = before ++ (hdr ++ bytes).take (k + k') →
        c.wire.cur.sent.length < c'.wire.cur.sent.length := by
    intro c' k' hk' hs
    rw [hs, hsend.sent, List.length_append, List.length_append, List.length_take, List.length_take]
    omega
  -- The send takes from the header, or from the file behind it.
  rcases lt_or_ge k hdr.length with hk | hk
  · obtain ⟨k', hk', hout, hnext⟩ := hsend.header hk hne h0 conf s₁
    by_cases hm : c.req.method = .head
    · rw [if_pos hm] at hout
      exact .inl ⟨c.headSent k', ⟨_, _, _, rfl⟩, hmore (by omega) hnext.sent,
        fun hno => absurd hm hno, hend _ hout⟩
    · rw [if_neg hm] at hout
      obtain ⟨hsame, hlt⟩ := hless (by omega) hnext
      exact .inr ⟨c.headSent k', ⟨_, _, _, rfl⟩, hfiles hnext, hsame, hlt, hgo _ hout⟩
  · obtain ⟨k', m, hk', hsent, ⟨hfin, hout⟩ | ⟨hout, hnext⟩⟩ := hsend.takes hk h0 conf s₁
    · refine .inl ⟨c.fileSent m k', ⟨_, _, _, rfl⟩, hmore hk' hsent, fun _ => ?_, hend _ hout⟩
      rw [hsent, hfin, List.take_length, hall]
    · obtain ⟨hsame, hlt⟩ := hless hk' hnext
      exact .inr ⟨c.fileSent m k', ⟨_, _, _, rfl⟩, hfiles hnext, hsame, hlt, hgo _ hout⟩

/-! ## Every run -/

/-- The step visits the connection `n`, whose socket is writable. -/
def writable (n : ℕ) (l : Loop) : Bool :=
  match l.pc with
  | .serve i _ => l.srv.pool.conns[i]?.any fun c => c.wire.id = n ∧ c.fd ∈ l.srv.pool.write_ready
  | .select => false
  | .accept => false
  | .accept_ssl => false

/-- A visit is writable when it is one to the connection, and `select` found its socket ready for
writing. -/
theorem writable_iff {n : ℕ} : writable n l = true ↔ ∃ (i m : ℕ) (c : Conn), l.pc = .serve i m ∧
    l.srv.pool.conns[i]? = some c ∧ c.wire.id = n ∧ c.fd ∈ l.srv.pool.write_ready := by
  unfold writable
  cases l.pc with
  | serve i m =>
    cases hi : l.srv.pool.conns[i]? with
    | none => simp [hi]
    | some c => simp [hi]
  | select | accept | accept_ssl => simp

/-- The step runs the success callback for the connection `n`, at the end of an exchange of which
`P` holds. -/
def Completes (conf : Conf) (n : ℕ) (P : Exchange → Prop) (l : Loop) (ev : Ev) : Prop :=
  ∃ m : Served, (step conf l ev).srv.served = m :: l.srv.served ∧ m.conn = n ∧ P m.ex

/-- The connection `n` is sent a file; `full` is the whole response, and `k` bytes of it are
missing. -/
structure Owes (conf : Conf) (n : ℕ) (m : Method) (full : List Byte) (l : Loop) (k : ℕ) : Prop where
  /-- The state is reachable. -/
  reach : Reach conf Runs.any l
  /-- The connection. -/
  due : ∃ c ∈ l.srv.pool.conns, c.wire.id = n ∧ c.Files ∧ c.req.method = m ∧
    c.wire.cur.sent ++ c.unsent = full ∧
    c.unsent.length = k

/-- A response that is under way owes at least one byte. -/
theorem Owes.pos {n : ℕ} {m : Method} {full : List Byte} : ¬ Owes conf n m full l 0 := by
  rintro ⟨h, c, hc, -, hf, -, -, hlen⟩
  obtain ⟨before, hdr, bytes, k, hsend, hne⟩ := (tracked_inv h c hc).2 hf
  have hpos := List.length_pos_of_ne_nil hne
  rw [hsend.unsent.1, List.length_drop, List.length_append] at hlen
  rcases hsend.place with ⟨hk, -⟩ | ⟨-, hk, -⟩
  · omega
  · rw [List.length_append] at hk
    omega

/-- One step: the visits to the other connections, and those that do not find the socket writable,
leave the response as it is, and every other visit sends some of it. -/
theorem Owes.step {n k : ℕ} {m : Method} {full : List Byte} (h : Owes conf n m full l k)
    (h0 : writable n l = true → 0 < ev.env.send_static) :
    Completes conf n (fun ex => m ≠ .head → ex.sent = full) l ev ∨
      ∃ k', Owes conf n m full (step conf l ev) k' ∧ k' + (if writable n l then 1 else 0) ≤ k := by
  obtain ⟨hreach, c, hc, hid, hf, hm, hfull, hlen⟩ := h
  have hnext : Reach conf Runs.any (Liso.step conf l ev) := .step ev hreach trivial
  obtain ⟨j, hj⟩ := List.mem_iff_getElem?.1 hc
  have hinv := loop_inv hreach
  by_cases hpc : ∃ max_fd, l.pc = .serve j max_fd
  case neg =>
    -- The connection is not visited, and no other has its number.
    rw [not_exists] at hpc
    obtain ⟨i, hi⟩ := (turnover hreach ev).bystander hj hpc
    have hno : ¬ writable n l = true := by
      intro hw
      obtain ⟨i', max_fd, c', hpc', hi', hid', -⟩ := writable_iff.1 hw
      have hij := (numbers_inv hreach).unique hi' hj (hid'.trans hid.symm)
      exact hpc max_fd (hij ▸ hpc')
    exact .inr ⟨k, ⟨hnext, _, hi, hid, hf, hm, hfull, hlen⟩, by rw [if_neg hno]; exact le_rfl⟩
  obtain ⟨max_fd, hpc⟩ := hpc
  have hready := hinv.ready j c (by rw [hpc]; exact le_rfl) hj
  obtain ⟨hR, htrack⟩ := tracked_inv hreach c hc
  obtain ⟨s', hvisit, hH', hserved, hwrite⟩ :=
    visit_files conf ev.env (hinv.pool.held j c hj) hready hR hf
  have hstep : Liso.step conf l ev = afterVisit j max_fd (stepStatic conf ev.env c s') := by
    simp only [Liso.step, hpc, hj, hvisit]
  have hidx : j < s'.pool.conns.length := by
    rw [← hinv.pool.idx j c hj]
    exact hH'.idx
  -- The connection that the last section returns is put into its place.
  have hput : ∀ (c' : Conn) (s'' : Srv), stepStatic conf ev.env c s' = ⟨1, some c', s''⟩ →
    s''.pool.conns = s'.pool.conns →
      c' ∈ (Liso.step conf l ev).srv.pool.conns := by
    intro c' s'' he hsame
    rw [hstep, he]
    show c' ∈ s''.pool.conns.set j c'
    rw [hsame]
    exact List.mem_set hidx c'
  by_cases hw : c.fd ∈ l.srv.pool.write_ready
  case neg =>
    have hno : ¬ writable n l = true := by
      intro hw'
      obtain ⟨i', max_fd', c', hpc', hi', -, hw'⟩ := writable_iff.1 hw'
      obtain ⟨rfl, -⟩ := Pc.serve.inj (hpc'.symm.trans hpc)
      rw [hj, Option.some.injEq] at hi'
      exact hw (hi' ▸ hw')
    have hout : stepStatic conf ev.env c s' = ⟨1, some c, s'.probe c.fd⟩ :=
      if_neg fun hcond => hw (hwrite ▸ of_decide_eq_true hcond.1)
    exact .inr ⟨k,
      ⟨hnext, c, hput c _ hout rfl, hid, hf, hm, hfull, hlen⟩, by rw [if_neg hno]; exact le_rfl⟩
  have h0 := h0 (writable_iff.2 ⟨j, max_fd, c, hpc, hj, hid, hw⟩)
  rcases stepStatic_sends conf htrack hf h0 (hwrite.symm ▸ hw) with
    ⟨c', hc', -, hsent, hout⟩ | ⟨c', hc', hf', hsame, hless, hout⟩
  · left
    obtain ⟨hid', hidx'⟩ : c'.wire.id = c.wire.id ∧ c'.idx = c.idx := by
      obtain ⟨buf, resp, data, rfl⟩ := hc'
      exact ⟨rfl, rfl⟩
    have hmark := lisoResetOrClose_served (s := (s'.probe c.fd).act c.fd) ev.env (c := c')
      (by rw [hidx']; exact hH'.idx)
    have hsrv : (Liso.step conf l ev).srv.served = ⟨c'.wire.id, c'.cgi.phase, c'.wire.cur⟩ ::
      l.srv.served := by
      rw [hstep, hout, ← hserved]
      rcases hmark.afterVisit j max_fd with ⟨c'', ⟨-, hs⟩, he⟩ | ⟨hs, he⟩ <;> rw [he]
      · exact hs.served
      · exact hs.served
    refine ⟨_, hsrv, hid'.trans hid, fun hno => ?_⟩
    rw [← hfull]
    exact hsent (hm ▸ hno)
  · obtain ⟨hid', hreq⟩ : c'.wire.id = c.wire.id ∧ c'.req = c.req := by
      obtain ⟨buf, resp, data, rfl⟩ := hc'
      exact ⟨rfl, rfl⟩
    exact .inr ⟨_, ⟨hnext, c', hput c' _ hout rfl, hid'.trans hid, hf', by rw [hreq]; exact hm,
      hsame.trans hfull, rfl⟩, by split <;> omega⟩

/-- A response is over after as many writable visits as there are bytes left, in each of which the
send takes something: in one of them the success callback runs, and then the client was sent what
was built, to the last byte, unless it asked for the head alone. -/
theorem answer_ends (h : Reach conf ok l) (hc : c ∈ l.srv.pool.conns) (hf : c.Files)
    (hpos : Runs.Along (step conf)
      (fun l ev => writable c.wire.id l = true → 0 < ev.env.send_static) l evs)
    (hcount : c.unsent.length ≤ Runs.count (step conf) (fun l _ => writable c.wire.id l) l evs) :
    Runs.Meets (step conf)
      (Completes conf c.wire.id fun ex => c.req.method ≠ .head →
        ex.sent = c.wire.cur.sent ++ c.unsent) l evs := by
  have howes : Owes conf c.wire.id c.req.method (c.wire.cur.sent ++ c.unsent) l c.unsent.length :=
    ⟨h.weaken, c, hc, rfl, hf, rfl, rfl, rfl⟩
  exact Runs.Along.meets (fun _ => Owes.pos) (fun _ _ _ h0 h => h.step h0) hpos howes hcount

/-- The header of a file was sent. -/
def headerSent : Loop :=
  Runs.exec (step Sample.conf) Sample.start (Sample.connect ++ Sample.select {5} ∅ ++
    [Sample.recv "GET /x HTTP/1.1\r\n\r\n", Sample.next] ++ Sample.select ∅ {5} ++
      [Sample.next, Sample.next])

/-- The three bytes of the file are sent one by one. -/
def oneByOne : List Ev :=
  (List.replicate 3
    (Sample.select ∅ {5} ++ [Sample.visit { Sample.env with send_static := 1 },
      Sample.next])).flatten

/-- The file has three bytes to be sent, and the run has as many visits for them. -/
theorem headerSent_due :
    (∃ c ∈ headerSent.srv.pool.conns, c.wire.id = 0 ∧ c.Files ∧ c.unsent = str "xyz" ∧
      c.unsent.length ≤ Runs.count (step Sample.conf) (fun l _ => writable c.wire.id l)
        headerSent oneByOne) ∧
    Runs.Along (step Sample.conf) (fun l ev => writable 0 l = true → 0 < ev.env.send_static)
      headerSent oneByOne := by decide +kernel

/-- A file that is sent byte by byte comes to its end. -/
theorem answer_ends_bytewise :
    ∃ c ∈ headerSent.srv.pool.conns, c.unsent = str "xyz" ∧
      Runs.Meets (step Sample.conf)
        (Completes Sample.conf c.wire.id fun ex => c.req.method ≠ .head →
          ex.sent = c.wire.cur.sent ++ c.unsent)
        headerSent oneByOne := by
  obtain ⟨⟨c, hc, hid, hf, hunsent, hcount⟩, hpos⟩ := headerSent_due
  exact ⟨c, hc, hunsent, answer_ends (Sample.reach _) hc hf (hid ▸ hpos) hcount⟩

end Liso
