import Liso.Lib.Channel
import Liso.Loop.Calls
import Liso.Loop.Sample
import Liso.Transport
import Liso.Turnover

/-!
# The server on the HTTPS port

Each connection on the HTTPS port has a session: the SSL object at the receiving end of the client's
stream, which comes in records. `tlsStep` is a step of the main loop in which `SSL_read` answers out
of the session and `select` sees no more of it than the bytes in the socket. In the source, a record
that has not arrived as a whole makes `SSL_read` fail, and the connection is dropped; and a record
longer than the room in the buffer leaves text in the SSL object that `select` does not see. In the
runs where neither happens (`Timely`), a connection on the HTTPS port is treated like one on the
HTTP port that receives the same bytes, its stream arrives without a loss, and the loop does not
wait while a part of an unfinished request is pending (`tls_transparent`).
-/

namespace Liso

open Channels (Channel Packet texts)
open Handles (Picker)

/-! ## Sessions -/

/-- A TLS record carries at most 2^14 bytes. One without text stands for the end of the stream: it
is the alert that closes the session, or the end behind the last record, and `SSL_read` gives 0. -/
abbrev Record := Packet Byte 16384

/-- The receiving end of an SSL object and its socket. -/
abbrev Session := Channel Byte 16384

/-- The main loop, and the session of each connection by its number. -/
structure TlsLoop where
  /-- The main loop. -/
  loop : Loop
  /-- The sessions. -/
  ssl : ℕ → Session

/-- What the outside world answers in one step, and how many bytes arrive in the sockets before
it. -/
structure TlsEv where
  /-- The answers. `SSL_read` answers out of the session instead. -/
  ev : Ev
  /-- The bytes that arrive for each connection. -/
  arrive : ℕ → ℕ

/-- The number of bytes for which `cn_recv` asks `smart_recv`. -/
def Conn.asked (c : Conn) : ℕ :=
  if c.req.phase = .abort ∨ BUFSZ - c.buf.sz ≤ 0 then BUFSZ else (BUFSZ - c.buf.sz).toNat

/-- The records arrive in the sockets. -/
def TlsLoop.arrived (t : TlsLoop) (i : TlsEv) : TlsLoop :=
  { t with ssl := fun n => (t.ssl n).deliver (i.arrive n) }

/-- The handshake of a connection on the HTTPS port is over. -/
def Conn.Shaken (c : Conn) : Prop := c.ssl = true ∧ c.ssl_accepted = true

/-- `Conn.Shaken` is decidable. -/
instance (c : Conn) : Decidable c.Shaken := inferInstanceAs (Decidable (_ ∧ _))

/-- The connection for which the next step calls `SSL_read`. -/
def TlsLoop.reader (t : TlsLoop) : Option Conn :=
  match t.loop.pc with
  | .serve i _ =>
    t.loop.srv.pool.conns[i]?.filter fun c => c.Shaken && t.loop.srv.readReady c.fd
  | _ => none

/-- `select` finds a socket ready only if bytes stand in it. -/
def TlsLoop.Sees (t : TlsLoop) (d : ℕ) : Prop :=
  ∀ c ∈ t.loop.srv.pool.conns, c.fd = d → c.Shaken → (t.ssl c.wire.id).raw ≠ 0

/-- `TlsLoop.Sees` is decidable. -/
instance (t : TlsLoop) (d : ℕ) : Decidable (t.Sees d) :=
  inferInstanceAs (Decidable (∀ c ∈ _, _ → _ → _))

/-- The answers as the main loop gets them. -/
def TlsLoop.seen (t : TlsLoop) (ev : Ev) : Ev :=
  { ev with
    ready := ev.ready.map fun p => (p.1.filter t.Sees, p.2)
    env := match t.reader with
      | some c => { ev.env with recv := ((t.ssl c.wire.id).read c.asked).1 }
      | none => ev.env }

/-- The sessions behind the next step. -/
def TlsLoop.sessions (t : TlsLoop) : ℕ → Session :=
  match t.reader with
  | some c => Function.update t.ssl c.wire.id ((t.ssl c.wire.id).read c.asked).2
  | none => t.ssl

/-- One step of the main loop with the sessions. -/
def tlsStep (conf : Conf) (t : TlsLoop) (i : TlsEv) : TlsLoop :=
  ⟨step conf t.loop ((t.arrived i).seen i.ev), (t.arrived i).sessions⟩

/-- The process enters the main loop; `recs n` is what the client of the connection `n` is going to
send. -/
def TlsInit (conf : Conf) (recs : ℕ → List Record) (t : TlsLoop) : Prop :=
  Init conf t.loop ∧ ∀ n, t.ssl n = Channel.start (recs n)

/-- The states reached when the clients send the records, in runs whose steps all satisfy `ok`. -/
abbrev TlsReach (conf : Conf) (recs : ℕ → List Record) (ok : TlsLoop → TlsEv → Prop) :
    TlsLoop → Prop :=
  Runs.Reach (TlsInit conf recs) (tlsStep conf) ok

/-- The answers that the main loop gets in a run. -/
def tlsAnswers (conf : Conf) : TlsLoop → List TlsEv → List Ev
  | _, [] => []
  | t, i :: is => (t.arrived i).seen i.ev :: tlsAnswers conf (tlsStep conf t i) is

variable {conf : Conf} {recs : ℕ → List Record} {k : ℕ} {c c' : Conn} {s : Srv} {e : Env}

/-! ## What a visit leaves of the transport -/

/-- The TLS flags, and what was received. -/
def Conn.link (c : Conn) : Bool × Bool × List Byte := (c.ssl, c.ssl_accepted, c.wire.got)

/-- What was received is a part of it. -/
theorem got_of_link (h : c'.link = c.link) : c'.wire.got = c.wire.got :=
  congrArg (fun x : Bool × Bool × List Byte => x.2.2) h

/-- The same behind the section `recv`. -/
def Conn.heard (c : Conn) (e : Env) (s : Srv) : Bool × Bool × List Byte :=
  if s.readReady c.fd then
    if c.ssl && !c.ssl_accepted then (c.ssl, decide (0 < e.ssl_accept), c.wire.got)
    else (c.ssl, c.ssl_accepted, c.wire.got ++ (e.recv.getD []).take c.asked)
  else c.link

/-- `cn_parse_req` leaves the transport alone. -/
theorem cnParseReq_link (e : Env) (c : Conn) (n : ℕ) (s : Srv) :
    (cnParseReq e lisoConnErr c n s).1.link = c.link := by
  have hcount : ∀ c : Conn, (cnCountBody c).link = c.link := by
    intro c
    by_cases hp : c.req.phase = .body
    · cases ht : c.req.type with
      | static => rw [cnCountBody_static hp ht]; rfl
      | dynamic => rw [cnCountBody_dynamic hp ht]; rfl
    · rw [cnCountBody_other hp]
  by_cases hp : c.req.phase = .start ∨ c.req.phase = .header
  · rcases cnParseReq_head e c n s hp with ⟨-, he⟩ | ⟨lines, -, -, q, he⟩ | ⟨lines, -, -, he⟩
      <;> rw [he]
    · rfl
    · exact hcount _
  · rw [cnParseReq_tail e c n s hp]
    exact hcount c

/-- `recv_ignore` receives what was asked for. -/
theorem recvIgnore_link (e : Env) (h : c.idx < s.pool.conns.length) :
    (recvIgnore e lisoDropConn c s).Post (fun c' _ => c'.link =
      (c.ssl, c.ssl_accepted, c.wire.got ++ (e.recv.getD []).take BUFSZ)) (fun _ => True) := by
  unfold recvIgnore
  cases hrecv : e.recv with
  | none => exact lisoDropConn_gone h
  | some bytes =>
    dsimp only [Option.map_some]
    split
    · exact lisoDropConn_gone h
    · exact (Ret.post_some _ _).2 rfl

/-- The section `recv` drops the connection, or receives what was asked for. -/
theorem stepRecv_link (e : Env) (h : c.idx < s.pool.conns.length) :
    (stepRecv e c s).Post (fun c' _ => c'.link = c.heard e s) (fun _ => True) := by
  unfold stepRecv Conn.heard
  have hready : (s.probe c.fd).readReady c.fd = s.readReady c.fd := rfl
  dsimp only
  rw [hready]
  by_cases hr : s.readReady c.fd = true
  case neg =>
    rw [if_neg hr, if_neg hr]
    exact (Ret.post_some _ _).2 rfl
  rw [if_pos hr, if_pos hr]
  unfold cnRecv
  by_cases hssl : (c.ssl && !c.ssl_accepted) = true
  · rw [if_pos hssl, if_pos hssl]
    rw [Bool.and_eq_true, Bool.not_eq_true'] at hssl
    split
    · exact lisoDropConn_gone h
    split
    · rename_i hneg
      refine (Ret.post_some _ _).2 ?_
      rw [Conn.link, hssl.2, decide_eq_false (not_lt.2 hneg.le)]
    · rename_i h0 hneg
      refine (Ret.post_some _ _).2 ?_
      rw [Conn.link, decide_eq_true (by omega)]
  rw [if_neg hssl, if_neg hssl]
  -- What is asked for depends on the branch.
  by_cases hp : c.req.phase = .abort
  · rw [if_pos hp, Conn.asked, if_pos (.inl hp)]
    exact recvIgnore_link e h
  rw [if_neg hp]
  dsimp only
  by_cases hfull : BUFSZ - c.buf.sz ≤ 0
  · rw [if_pos hfull, Conn.asked, if_pos (.inr hfull)]
    exact recvIgnore_link (c := (lisoConnErr c 400 s).1) e h
  rw [if_neg hfull, Conn.asked, if_neg (not_or.2 ⟨hp, hfull⟩)]
  cases hrecv : e.recv with
  | none => exact lisoDropConn_gone h
  | some bytes =>
    dsimp only [Option.map_some]
    split
    · exact lisoDropConn_gone h
    · exact (Ret.post_some _ _).2 (cnParseReq_link e (c.received _) _ _)

/-- The sections between the receipt and the serving leave the transport alone. -/
theorem stepMiddle_link (conf : Conf) (e : Env) (c : Conn) (s : Srv) :
    (stepMiddle conf e c s).1.link = c.link := by
  have hprep : (stepPrepare conf e c (stepLogerr c s)).1.link = c.link := by
    unfold stepPrepare
    split
    · unfold cnPrepareStaticHeader
      dsimp only
      split <;> rfl
    · rfl
  unfold stepMiddle
  dsimp only
  rw [← hprep]
  generalize stepPrepare conf e c (stepLogerr c s) = q
  have hinit : (stepInitCgi e q.1 q.2).1.link = q.1.link := by
    rcases stepInitCgi_cases e q.1 q.2 with ⟨-, he⟩ | ⟨-, -, -, he⟩ | ⟨-, -, -, he⟩ <;> rw [he]
    all_goals rfl
  rw [← hinit]
  generalize stepInitCgi e q.1 q.2 = q'
  rcases stepStream_cases e q'.1 (stepSelect q'.1 q'.2) with ⟨-, he⟩ | ⟨-, -, -, he⟩
    | ⟨-, -, -, -, he⟩ | ⟨-, -, -, -, he⟩ <;> rw [he]
  all_goals rfl

/-- The reading of a CGI's output leaves the transport alone. -/
theorem stepFromCgi_link (e : Env) (c : Conn) (s : Srv) :
    (stepFromCgi e c s).1.link = c.link := by
  rcases stepFromCgi_cases e c s with ⟨s', he, -⟩ | ⟨d, -, -, -, -, ⟨-, he⟩ | ⟨data, -, -, he⟩
    | ⟨-, he⟩⟩ <;> rw [he]
  all_goals rfl

/-- The success callback leaves the transport alone. -/
theorem lisoResetOrClose_link (e : Env) (hidx : c.idx < s.pool.conns.length) :
    (lisoResetOrClose e c s).Post (fun c' _ => c'.link = c.link) (fun _ => True) := by
  rcases lisoResetOrClose_cases e c s with ⟨-, he⟩ | ⟨-, -, he⟩ | ⟨-, -, he⟩ <;> rw [he]
  · exact lisoDropConn_gone hidx
  · exact (Ret.post_some _ _).2 rfl
  · refine (Ret.post_some _ _).2 ?_
    rw [handOver_conn]
    exact cnParseReq_link e _ 0 _

/-- The sending of a CGI's output leaves the transport alone. -/
theorem stepToClient_link (e : Env) (h0 : 0 < c.fd) (hidx : c.idx < s.pool.conns.length) :
    (stepToClient e c s).Post (fun c' _ => c'.link = c.link) (fun _ => True) := by
  rcases stepToClient_cases e c s h0 with ⟨-, he⟩ | ⟨-, -, ⟨-, -, he⟩ | ⟨-, ⟨-, he⟩ | ⟨-, he⟩⟩⟩
    <;> rw [he]
  · exact (Ret.post_some _ _).2 rfl
  · refine (lisoResetOrClose_link (s := (s.probe c.fd).act c.fd) e hidx).andThen fun c1 _ h1 => ?_
    split
    · exact (Ret.post_some _ _).2 h1
    · exact (Ret.post_some _ _).2 h1
  · exact lisoDropConn_gone hidx
  · exact (Ret.post_some _ _).2 rfl

/-- The sending of a static response leaves the transport alone. -/
theorem stepStatic_link (conf : Conf) (e : Env) (hidx : c.idx < s.pool.conns.length) :
    (stepStatic conf e c s).Post (fun c' _ => c'.link = c.link) (fun _ => True) := by
  unfold stepStatic
  dsimp only
  split
  case isFalse => exact (Ret.post_some _ _).2 rfl
  obtain ⟨c₁, ⟨buf, resp, data, rfl⟩, hout | ⟨-, hout⟩ | ⟨b, hout⟩⟩ :=
    cnServeStatic_cases conf e c <;> rw [hout]
  · exact lisoDropConn_gone hidx
  · exact lisoResetOrClose_link (s := (s.probe c.fd).act c.fd) e hidx
  · exact (Ret.post_some _ _).2 rfl

/-- A visit drops the connection, or receives what was asked for. -/
theorem visit_link (conf : Conf) (e : Env) (h0 : c.fd ≠ 0) {A : Set ℕ} (hH : Held False A c s)
    (hready : Ready c s) (hR : Rest False c s) :
    (visit conf e c s).Post (fun c' _ => c'.link = c.heard e s) (fun _ => True) := by
  refine (visit_stages (R := fun c' _ => c'.link = c.heard e s)
    (M := fun c' _ => c'.link = c.heard e s) (D := fun c' _ => c'.link = c.heard e s)
    (B := fun c' _ => c'.link = c.heard e s) (L := fun c' _ => c'.link = c.heard e s)
    h0 hH hready hR (fun f => f.elim) (stepRecv_link e hH.idx) ?_ ?_ ?_ ?_ ?_).mono
      (fun _ _ h => h.2) fun _ h => h
  · exact fun p _ _ _ hr => (stepMiddle_link conf e p.1 p.2).trans hr
  · exact fun p _ _ _ hm => hm
  · exact fun p _ _ _ _ hm => (stepFromCgi_link e p.1 p.2).trans hm
  · exact fun p _ hpos hH' _ hd =>
      (stepToClient_link e hpos hH'.idx).mono (fun _ _ h => h.trans hd) fun _ h => h
  · exact fun p _ hH' _ hb =>
      (stepStatic_link conf e hH'.idx).mono (fun _ _ h => h.trans hb) fun _ h => h

/-! ## Before anything was received -/

/-- The connection is as `liso_accept_conn` made it, but for the handshake. -/
def Conn.Untouched (c : Conn) : Prop := Accepted { c with ssl_accepted := false }

/-- The fields of such a connection. -/
theorem Conn.Untouched.fields (h : c.Untouched) :
    c.req.phase = .start ∧ c.req.type = .static ∧ c.cgi = cgiNew ∧ c.resp = respNew ∧
      c.buf = bufNew ∧ c.wire.got = [] := by
  obtain ⟨fd, idx, mem, id, addr, port, scheme, ssl, he⟩ := h
  simp only [Conn.mk.injEq] at he
  obtain ⟨-, -, hbuf, hreq, hresp, hcgi, -, -, hwire⟩ := he
  rw [hbuf, hreq, hresp, hcgi, hwire]
  exact ⟨rfl, rfl, rfl, rfl, rfl, rfl⟩

/-- The section `recv` leaves such a connection so until something is received. -/
theorem stepRecv_untouched (e : Env) (hidx : c.idx < s.pool.conns.length)
    (h : c.wire.got = [] → c.Untouched) :
    (stepRecv e c s).Post (fun c' _ => c'.wire.got = [] → c'.Untouched) (fun _ => True) := by
  refine ((stepRecv_receipt e hidx).and (stepRecv_link e hidx)).mono ?_ fun _ _ => trivial
  rintro c' s' ⟨hrec, hlink⟩ hgot
  -- What was received before is still there.
  have hnil : c.wire.got = [] := by
    unfold Conn.heard at hlink
    split at hlink
    · split at hlink
      · simp only [Conn.link, Prod.mk.injEq] at hlink
        exact hlink.2.2 ▸ hgot
      · simp only [Conn.link, Prod.mk.injEq] at hlink
        rw [hlink.2.2] at hgot
        exact (List.append_eq_nil_iff.1 hgot).1
    · simp only [Conn.link, Prod.mk.injEq] at hlink
      exact hlink.2.2 ▸ hgot
  obtain ⟨hp, -, -, -, hbuf, -⟩ := (h hnil).fields
  cases hrec with
  | idle he => rw [he]; exact h hnil
  | handshake _ he => rw [he]; exact h hnil
  | ignored data hp' => simp [hp] at hp'
  | full data bytes _ _ hfull => simp [hbuf, Buf.sz, bufNew, BUFSZ] at hfull
  | parsed data bytes _ _ _ _ _ hne he =>
    obtain ⟨s₁, he⟩ := he
    have hparse := cnParseReq_link e (c.received data) c.buf.data.length s₁
    rw [← he] at hparse
    simp only [Conn.link, Prod.mk.injEq] at hparse
    rw [hparse.2.2] at hgot
    exact absurd (List.append_eq_nil_iff.1 hgot).2 hne

/-- The later sections leave such a connection alone. -/
theorem Conn.Untouched.rest (h : c.Untouched) (conf : Conf) (e : Env) (s : Srv) :
    (stepMiddle conf e c s).1 = c ∧ (stepFromCgi e c s).1 = c ∧
      (∃ s', stepToClient e c s = ⟨1, some c, s'⟩) ∧
        ∃ s', stepStatic conf e c s = ⟨1, some c, s'⟩ := by
  obtain ⟨hp, ht, hcgi, hresp, -, -⟩ := h.fields
  have hphase : c.resp.phase = .ready := by rw [hresp]; rfl
  refine ⟨?_, ?_, ?_, ?_⟩
  · unfold stepMiddle
    have hprep : stepPrepare conf e c (stepLogerr c s) = (c, stepLogerr c s) :=
      if_neg fun h => by simp [hp] at h
    have hinit : stepInitCgi e c (stepLogerr c s) = (c, stepLogerr c s) :=
      if_neg fun h => by simp [ht] at h
    dsimp only
    rw [hprep]
    dsimp only
    rw [hinit]
    exact congrArg Prod.fst (if_neg fun h => by simp [ht] at h)
  · unfold stepFromCgi
    rw [hcgi]
    rfl
  · refine ⟨_, if_neg fun h => ?_⟩
    simp [hcgi, cgiNew] at h
  · unfold stepStatic
    dsimp only
    split
    · unfold cnServeStatic
      rw [hphase]
      exact ⟨_, rfl⟩
    · exact ⟨_, rfl⟩

/-- A handler that leaves the transport alone, and such a connection as it is. -/
theorem Ret.Post.untouched {r : Ret}
    (hlink : r.Post (fun c' _ => c'.link = c.link) (fun _ => True))
    (hself : c.Untouched → ∃ s', r = ⟨1, some c, s'⟩) (h : c.wire.got = [] → c.Untouched) :
    r.Post (fun c' _ => c'.wire.got = [] → c'.Untouched) (fun _ => True) := by
  by_cases hgot : c.wire.got = []
  · obtain ⟨s', he⟩ := hself (h hgot)
    rw [he]
    exact (Ret.post_some _ _).2 fun _ => h hgot
  · -- What was received before is not taken back.
    exact hlink.mono (fun c' _ he hgot' => absurd ((got_of_link he).symm.trans hgot') hgot)
      fun _ h => h

/-- A visit leaves such a connection so until something is received. -/
theorem visit_untouched (conf : Conf) (e : Env) (h0 : c.fd ≠ 0) {A : Set ℕ}
    (hH : Held False A c s) (hready : Ready c s) (hR : Rest False c s)
    (h : c.wire.got = [] → c.Untouched) :
    (visit conf e c s).Post (fun c' _ => c'.wire.got = [] → c'.Untouched) (fun _ => True) := by
  refine (visit_stages (R := fun c' _ => c'.wire.got = [] → c'.Untouched)
    (M := fun c' _ => c'.wire.got = [] → c'.Untouched)
    (D := fun c' _ => c'.wire.got = [] → c'.Untouched)
    (B := fun c' _ => c'.wire.got = [] → c'.Untouched)
    (L := fun c' _ => c'.wire.got = [] → c'.Untouched) h0 hH hready hR (fun f => f.elim)
    (stepRecv_untouched e hH.idx h) ?_ ?_ ?_ ?_ ?_).mono (fun _ _ h => h.2) fun _ h => h
  · intro p _ _ _ hr hgot
    have hgot' := (got_of_link (stepMiddle_link conf e p.1 p.2)).symm.trans hgot
    rw [((hr hgot').rest conf e p.2).1]
    exact hr hgot'
  · exact fun _ _ _ _ hm => hm
  · intro p _ _ _ _ hm hgot
    have hgot' := (got_of_link (stepFromCgi_link e p.1 p.2)).symm.trans hgot
    rw [((hm hgot').rest conf e p.2).2.1]
    exact hm hgot'
  · exact fun p _ hpos hH' _ hd => (stepToClient_link e hpos hH'.idx).untouched
      (fun hu => (hu.rest conf e p.2).2.2.1) hd
  · exact fun p _ hH' _ hb => (stepStatic_link conf e hH'.idx).untouched
      (fun hu => (hu.rest conf e p.2).2.2.2) hb

/-! ## Runs -/

section Invariants

variable {ok : TlsLoop → TlsEv → Prop} {ok' : Loop → Ev → Prop} {l : Loop} {ev : Ev} {t : TlsLoop}
  {i : TlsEv}

/-- A run with sessions is a run of the main loop. -/
theorem TlsReach.loop (h : TlsReach conf recs ok t)
    (hok : ∀ t i, ok t i → ok' t.loop ((t.arrived i).seen i.ev)) : Reach conf ok' t.loop :=
  Runs.Reach.induct (P := fun t => Reach conf ok' t.loop) (fun _ h0 => .start h0.1)
    (fun t i _ hi ih => .step _ ih (hok t i hi)) h

/-- What a visit leaves of the transport, in a run. -/
theorem visited_link (h : Reach conf ok' l) {j m : ℕ} (hpc : l.pc = .serve j m)
    (hj : l.srv.pool.conns[j]? = some c) (hret : (visit conf e c l.srv).conn = some c') :
    c'.link = c.heard e l.srv := by
  have hinv := loop_inv h
  have hH := hinv.pool.held j c hj
  have hready := hinv.ready j c (by rw [hpc]; exact le_refl j) hj
  have h0 : c.fd ≠ 0 := fun he => hH.fd_notMem (he ▸ .inl h.zero_mem)
  have hR := rest_inv (W := False) (fun f => f.elim) h c (List.mem_of_getElem? hj)
  exact ((visit_link conf e h0 hH hready hR).of_some hret).2

/-- The connection that is read from is the one visited. -/
theorem TlsLoop.reader_eq {j m : ℕ} (hpc : t.loop.pc = .serve j m)
    (hj : t.loop.srv.pool.conns[j]? = some c) :
    t.reader = if c.Shaken ∧ t.loop.srv.readReady c.fd then some c else none := by
  unfold TlsLoop.reader
  rw [hpc]
  dsimp only
  rw [hj]
  by_cases hr : c.Shaken ∧ t.loop.srv.readReady c.fd = true
  · rw [if_pos hr, Option.filter_some, if_pos (by simpa using hr)]
  · rw [if_neg hr, Option.filter_some, if_neg (by simpa using hr)]

/-- The step reads from the connection that it visits. -/
theorem TlsLoop.reader_mem (h : c ∈ t.reader) :
    ∃ j m, t.loop.pc = .serve j m ∧ t.loop.srv.pool.conns[j]? = some c ∧ c.Shaken := by
  unfold TlsLoop.reader at h
  split at h
  · rename_i j m hpc
    obtain ⟨hj, hr⟩ := Option.filter_eq_some_iff.1 h
    exact ⟨j, m, hpc, hj, (by simpa using hr : c.Shaken ∧ _).1⟩
  · cases h

/-- The sessions of the connections that are not read from stay as they are. -/
theorem TlsLoop.sessions_other {n : ℕ} (h : ∀ c ∈ t.reader, c.wire.id ≠ n) :
    t.sessions n = t.ssl n := by
  unfold TlsLoop.sessions
  cases hr : t.reader with
  | none => rfl
  | some c => exact Function.update_of_ne (Ne.symm (h c hr)) _ _

/-- What was received on the HTTPS port and what is still to be handed out are the stream. -/
structure Linked (recs : ℕ → List Record) (t : TlsLoop) : Prop where
  /-- The connections in the pool. -/
  stream : ∀ c ∈ t.loop.srv.pool.conns, c.ssl = true →
    c.wire.got ++ (t.ssl c.wire.id).stream = texts (recs c.wire.id)
  /-- The connections to come. -/
  unread : ∀ n, t.loop.srv.accepted ≤ n → (t.ssl n).stream = texts (recs n)

/-- What a visit hands to the connection is taken out of its session. -/
theorem heard_stream {j m : ℕ} (hpc : t.loop.pc = .serve j m)
    (hj : t.loop.srv.pool.conns[j]? = some c)
    (hlink : c'.link = c.heard (t.seen ev).env t.loop.srv) (hssl : c'.ssl = true) :
    c.ssl = true ∧
      c'.wire.got ++ (t.sessions c.wire.id).stream = c.wire.got ++ (t.ssl c.wire.id).stream := by
  have hreader := TlsLoop.reader_eq hpc hj
  unfold Conn.heard at hlink
  by_cases hready : t.loop.srv.readReady c.fd = true
  case neg =>
    rw [if_neg hready] at hlink
    simp only [Conn.link, Prod.mk.injEq] at hlink
    rw [if_neg fun h => hready h.2] at hreader
    rw [TlsLoop.sessions_other (by simp [hreader]), hlink.2.2]
    exact ⟨hlink.1 ▸ hssl, rfl⟩
  rw [if_pos hready] at hlink
  by_cases hopen : (c.ssl && !c.ssl_accepted) = true
  · -- The handshake takes nothing out of the session.
    rw [if_pos hopen] at hlink
    simp only [Conn.link, Prod.mk.injEq] at hlink
    rw [Bool.and_eq_true, Bool.not_eq_true'] at hopen
    rw [if_neg fun h => by simp [Conn.Shaken, hopen.2] at h] at hreader
    rw [TlsLoop.sessions_other (by simp [hreader]), hlink.2.2]
    exact ⟨hopen.1, rfl⟩
  rw [if_neg hopen] at hlink
  simp only [Conn.link, Prod.mk.injEq] at hlink
  obtain ⟨hs, -, hgot⟩ := hlink
  have hs : c.ssl = true := hs ▸ hssl
  have hshaken : c.Shaken := ⟨hs, by simpa [hs] using hopen⟩
  rw [if_pos ⟨hshaken, hready⟩] at hreader
  -- The read is out of the session, and takes no more than was asked for.
  have hrecv : (t.seen ev).env.recv = ((t.ssl c.wire.id).read c.asked).1 := by
    simp only [TlsLoop.seen, hreader]
  have hsess : t.sessions c.wire.id = ((t.ssl c.wire.id).read c.asked).2 := by
    simp only [TlsLoop.sessions, hreader, Function.update_self]
  have htake : (((t.ssl c.wire.id).read c.asked).1.getD []).take c.asked =
      ((t.ssl c.wire.id).read c.asked).1.getD [] := by
    cases hread : ((t.ssl c.wire.id).read c.asked).1 with
    | none => exact List.take_nil
    | some as => exact List.take_of_length_le (Channel.length_read _ _ hread)
  rw [hgot, hrecv, htake, hsess, List.append_assoc, Channel.stream_read]
  exact ⟨hs, rfl⟩

/-- A step keeps the account of the streams. -/
theorem Linked.step (h : Linked recs t) (hl : Reach conf ok' t.loop) (i : TlsEv) :
    Linked recs (tlsStep conf t i) := by
  have hn := numbers_inv hl
  have harr : Linked recs (t.arrived i) := ⟨h.stream, h.unread⟩
  have hturn := turnover hl ((t.arrived i).seen i.ev)
  constructor
  · intro c₁ hc₁ hssl
    show c₁.wire.got ++ ((t.arrived i).sessions c₁.wire.id).stream = _
    rcases hturn.origin hn hc₁ with ⟨hacc, hid⟩ | ⟨j, m, c, hpc, hj, hret, hid⟩
      | ⟨c, idx, hc, rfl, hne⟩
    · -- A new connection has received nothing.
      rw [TlsLoop.sessions_other fun c hc => ?_, harr.unread _ hid.ge]
      · obtain ⟨fd, idx, mem, id, addr, port, scheme, ssl, rfl⟩ := hacc
        exact List.nil_append _
      · obtain ⟨j, m, -, hj, -⟩ := TlsLoop.reader_mem hc
        have hlt := hn.below c (List.mem_of_getElem? hj)
        omega
    · -- The visited connection: what it received came out of its session.
      obtain ⟨hs, hstream⟩ := heard_stream (t := t.arrived i) hpc hj
        (visited_link hl hpc hj hret) hssl
      rw [hid, hstream]
      exact harr.stream c (List.mem_of_getElem? hj) hs
    · rw [TlsLoop.sessions_other fun cv hcv => ?_]
      · exact harr.stream c hc hssl
      · obtain ⟨j, m, hpc, hj, -⟩ := TlsLoop.reader_mem hcv
        exact hne j m cv hpc hj
  · intro n hn'
    have hmono : t.loop.srv.accepted ≤ n := by
      refine le_trans ?_ hn'
      show _ ≤ (Liso.step conf t.loop _).srv.accepted
      cases hturn with
      | idle _ _ hacc | visited _ _ _ _ _ _ _ _ _ hacc | freed _ _ _ _ _ _ _ hacc => exact hacc.ge
      | joined _ _ _ _ _ hacc => omega
    show ((t.arrived i).sessions n).stream = _
    rw [TlsLoop.sessions_other fun c hc => ?_]
    · exact harr.unread n hmono
    · obtain ⟨j, m, -, hj, -⟩ := TlsLoop.reader_mem hc
      have hlt := hn.below c (List.mem_of_getElem? hj)
      exact fun he => absurd hlt (by omega)

/-- The account of the streams, in every reachable state. -/
theorem linked_inv (h : TlsReach conf recs ok t) : Linked recs t := by
  refine Runs.Reach.induct (P := Linked recs) (fun t h0 => ?_) (fun t i ht _ ih => ?_) h
  · obtain ⟨hinit, hssl⟩ := h0
    have hnil : t.loop.srv.pool.conns = [] := by rw [hinit.2.1]; rfl
    exact ⟨by simp [hnil], fun n _ => by rw [hssl n]; exact List.nil_append _⟩
  · have hl : Reach conf Runs.any t.loop := TlsReach.loop ht fun _ _ _ => trivial
    exact ih.step hl i

/-- Once the handshake of a connection is over, it stays so. -/
structure Handshaken (k : ℕ) (l : Loop) : Prop where
  /-- The connection was accepted. -/
  below : k < l.srv.accepted
  /-- Its handshake is over. -/
  shaken : ∀ c ∈ l.srv.pool.conns, c.wire.id = k → c.Shaken

/-- A step keeps it. -/
theorem Handshaken.step (h : Handshaken k l) (hl : Reach conf ok' l) (ev : Ev) :
    Handshaken k (Liso.step conf l ev) := by
  have hturn := turnover hl ev
  refine ⟨?_, fun c₁ hc₁ hid => ?_⟩
  · have hbelow := h.below
    cases hturn with
    | idle _ _ hacc | visited _ _ _ _ _ _ _ _ _ hacc | freed _ _ _ _ _ _ _ hacc
    | joined _ _ _ _ _ hacc => omega
  · rcases hturn.origin (numbers_inv hl) hc₁ with ⟨-, hnew⟩ | ⟨j, m, c, hpc, hj, hret, hold⟩
      | ⟨c, idx, hc, rfl, -⟩
    · exact absurd h.below (by omega)
    · obtain ⟨hs, ha⟩ := h.shaken c (List.mem_of_getElem? hj) (hold ▸ hid)
      have hlink := visited_link hl hpc hj hret
      -- `SSL_accept` is not called again.
      have hopen : ¬ (c.ssl && !c.ssl_accepted) = true := by simp [ha]
      unfold Conn.heard at hlink
      rw [if_neg hopen] at hlink
      split at hlink <;>
        · simp only [Conn.link, Prod.mk.injEq] at hlink
          exact ⟨hlink.1.trans hs, hlink.2.1.trans ha⟩
    · exact h.shaken c hc hid

/-- The server in which the connection is on the HTTP port gets the same answers and is in the same
state, up to that. -/
theorem exec_overHttp (is : List TlsEv) {t : TlsLoop} (h : Handshaken k t.loop)
    (hl : Reach conf Runs.any t.loop) :
    Handshaken k (Runs.exec (tlsStep conf) t is).loop ∧
      Runs.exec (step conf) (t.loop.overHttp conf k) (tlsAnswers conf t is) =
        (Runs.exec (tlsStep conf) t is).loop.overHttp conf k := by
  -- Both servers get the answers of the first one, so each step keeps them alike.
  induction is generalizing t with
  | nil => exact ⟨h, rfl⟩
  | cons i is ih =>
    have hstep : step conf (t.loop.overHttp conf k) ((t.arrived i).seen i.ev) =
        (tlsStep conf t i).loop.overHttp conf k :=
      step_overHttp h.below (fun c hc hid _ => (h.shaken c hc hid).2) _
    obtain ⟨hend, hsame⟩ := ih (t := tlsStep conf t i) (h.step hl _) (.step _ hl trivial)
    rw [← hstep] at hsame
    exact ⟨hend, hsame⟩

/-! ## Transparency -/

/-- The condition on the step of a run: when the loop reads from the connection, a record has
arrived as a whole, or text is pending; a record that is opened fits into the room in the buffer, or
more bytes have arrived behind it; and the hosts fit. -/
def Timely (conf : Conf) (k : ℕ) (t : TlsLoop) (i : TlsEv) : Prop :=
  (∀ c ∈ (t.arrived i).reader, c.wire.id = k → ((t.arrived i).ssl k).Safe c.asked) ∧
    Visiting (Hosted conf) t.loop ((t.arrived i).seen i.ev)

/-- `Timely` is decidable. -/
instance (t : TlsLoop) (i : TlsEv) : Decidable (Timely conf k t i) :=
  inferInstanceAs (Decidable (_ ∧ _))

/-- The step drops the connection because no record has arrived as a whole. -/
def Severs (conf : Conf) (k : ℕ) (t : TlsLoop) (i : TlsEv) : Prop :=
  (∃ c ∈ (t.arrived i).reader, c.wire.id = k ∧ (((t.arrived i).ssl k).read c.asked).1 = none) ∧
    ∀ c ∈ (tlsStep conf t i).loop.srv.pool.conns, c.wire.id ≠ k

/-- `Severs` is decidable. -/
instance (t : TlsLoop) (i : TlsEv) : Decidable (Severs conf k t i) :=
  inferInstanceAs (Decidable (_ ∧ _))

/-- The text that is pending can be seen by `select`. -/
theorem visible_inv (h : TlsReach conf recs (Timely conf k) t) : (t.ssl k).Visible := by
  refine Runs.Reach.induct (P := fun t => (t.ssl k).Visible) (fun t h0 => ?_)
    (fun t i _ hi ih => ?_) h
  · rw [h0.2 k]
    exact fun hne => absurd rfl hne
  · have harr : ((t.arrived i).ssl k).Visible := ih.deliver _
    show ((t.arrived i).sessions k).Visible
    by_cases hr : ∃ c ∈ (t.arrived i).reader, c.wire.id = k
    · obtain ⟨c, hc, hid⟩ := hr
      have hsess : (t.arrived i).sessions k = (((t.arrived i).ssl k).read c.asked).2 := by
        simp only [TlsLoop.sessions, Option.mem_def.1 hc, hid, Function.update_self]
      rw [hsess]
      exact ((Channel.safe_iff harr).1 (hi.1 c hc hid)).2
    · rw [TlsLoop.sessions_other fun c hc hid => hr ⟨c, hc, hid⟩]
      exact harr

/-- Until something is received, a connection is as it was accepted. -/
theorem untouched_inv (h : Reach conf ok' l) :
    ∀ c ∈ l.srv.pool.conns, c.wire.got = [] → c.Untouched := by
  refine fun c hc => ((reach_local (L := fun c s => Rest False c s ∧
    (c.wire.got = [] → c.Untouched)) (S := fun _ => True) ?_ trivial ?_ ?_ h).1 c hc).2
  · refine ⟨fun c s i h => ⟨Rest.stable.idx c s i h.1, fun hgot => ?_⟩,
      fun c s s' h hk => ⟨Rest.stable.keep c s s' h.1 hk, h.2⟩⟩
    obtain ⟨fd, idx, mem, id, addr, port, scheme, ssl, he⟩ := h.2 hgot
    exact ⟨fd, i, mem, id, addr, port, scheme, ssl,
      congrArg (fun c : Conn => { c with idx := i }) he⟩
  · rintro c s ha - hr hw
    refine ⟨ha.rest hr hw, fun _ => ?_⟩
    obtain ⟨fd, idx, mem, id, addr, port, scheme, ssl, rfl⟩ := ha
    exact ⟨fd, idx, mem, id, addr, port, scheme, ssl, rfl⟩
  · intro l ev j m c hl _ hpc hc hH hready hL _
    have h0 : c.fd ≠ 0 := fun he => hH.fd_notMem (he ▸ .inl hl.zero_mem)
    have hrest := visit_rest conf ev.env h0 hH hready hL.1 fun f => f.elim
    exact (hrest.and (visit_untouched conf ev.env h0 hH hready hL.1 hL.2)).mono
      (fun _ _ h => ⟨h, trivial⟩) fun _ h => h.1

/-- As long as nothing was received, the connection on the HTTP port is the one that
`liso_accept_conn` makes there. -/
theorem overHttp_accepted (h : c.Untouched) (hid : c.wire.id = k) :
    ∃ fd idx mem addr, c.overHttp conf k = { cnNew fd idx mem k with
      req := { reqNew mem with addr := addr, port := conf.http_port } } := by
  obtain ⟨fd, idx, mem, id, addr, port, scheme, ssl, he⟩ := h
  have hover : c.overHttp conf k = ({ c with ssl_accepted := false } : Conn).overHttp conf k := by
    simp [Conn.overHttp, hid]
  have hnum : id = k := by
    rw [← hid]
    exact congrArg (fun c : Conn => c.wire.id) he.symm
  subst hnum
  refine ⟨fd, idx, mem, addr, ?_⟩
  rw [hover, he]
  simp [Conn.overHttp, Req.overHttp, cnNew, reqNew, reqReset]

/-- A run from `t₀` treats the connection with the number `k`, whose handshake is over there, like
one on the HTTP port. -/
structure Transparent (conf : Conf) (recs : List Record) (k : ℕ) (t₀ : TlsLoop)
    (is : List TlsEv) : Prop where
  /-- Before anything was received, the connection that it is compared with is the one that
  `liso_accept_conn` makes on the HTTP port. -/
  fresh : ∀ c ∈ t₀.loop.srv.pool.conns, c.wire.id = k → c.wire.got = [] →
    ∃ fd idx mem addr, c.overHttp conf k = { cnNew fd idx mem k with
      req := { reqNew mem with addr := addr, port := conf.http_port } }
  /-- With the same answers, the server with that connection does the same: it parses the same
  requests, and answers them alike. -/
  same : Runs.exec (step conf) (t₀.loop.overHttp conf k) (tlsAnswers conf t₀ is) =
    (Runs.exec (tlsStep conf) t₀ is).loop.overHttp conf k
  /-- No incomplete record drops the connection. -/
  kept : Runs.Along (tlsStep conf) (fun t i => ¬ Severs conf k t i) t₀ is
  /-- What was received is the beginning of the client's stream, and the session has the rest. -/
  stream : ∀ c ∈ (Runs.exec (tlsStep conf) t₀ is).loop.srv.pool.conns, c.wire.id = k →
    c.wire.got ++ ((Runs.exec (tlsStep conf) t₀ is).ssl k).stream = texts recs
  /-- When the loop is about to wait for more of an unfinished request while text is pending,
  `select` watches the socket, and finds bytes in it. -/
  awake : (Runs.exec (tlsStep conf) t₀ is).loop.pc = .select →
    ∀ c ∈ (Runs.exec (tlsStep conf) t₀ is).loop.srv.pool.conns, c.wire.id = k → c.Open →
      ((Runs.exec (tlsStep conf) t₀ is).ssl k).pending ≠ [] →
        c.fd ∈ (Runs.exec (tlsStep conf) t₀ is).loop.srv.pool.read_set ∧
          ((Runs.exec (tlsStep conf) t₀ is).ssl k).raw ≠ 0
  /-- No copy into a `host` was too long. -/
  unmarked : ∀ c ∈ (Runs.exec (tlsStep conf) t₀ is).loop.srv.pool.conns, c.Unmarked

/-- In the runs in which the loop reads from a connection on the HTTPS port only when a record has
arrived as a whole or text is pending, and in which a record that is opened fits into the room in
the buffer or has more bytes behind it, the connection is treated like one on the HTTP port: no
incomplete record drops it, nothing of its stream is lost, and nothing stays pending while the loop
waits. -/
theorem tls_transparent {t₀ : TlsLoop} {c₀ : Conn} {is : List TlsEv}
    (h : TlsReach conf recs (Timely conf k) t₀) (hc : c₀ ∈ t₀.loop.srv.pool.conns)
    (hid : c₀.wire.id = k) (hshaken : c₀.Shaken)
    (his : Runs.Along (tlsStep conf) (Timely conf k) t₀ is) :
    Transparent conf (recs k) k t₀ is := by
  have hl : Reach conf Runs.any t₀.loop := TlsReach.loop h fun _ _ _ => trivial
  have hn := numbers_inv hl
  -- No other connection has the number `k`.
  have hset : Handshaken k t₀.loop := by
    refine ⟨hid ▸ hn.below c₀ hc, fun c hc' hid' => ?_⟩
    obtain ⟨j, hj⟩ := List.mem_iff_getElem?.1 hc
    obtain ⟨j', hj'⟩ := List.mem_iff_getElem?.1 hc'
    obtain rfl := hn.unique hj hj' (hid.trans hid'.symm)
    obtain rfl : c₀ = c := Option.some.inj (hj.symm.trans hj')
    exact hshaken
  obtain ⟨hover, hsame⟩ := exec_overHttp is hset hl
  have hend := h.along is his
  have hend' : Reach conf (Visiting (Hosted conf)) (Runs.exec (tlsStep conf) t₀ is).loop :=
    TlsReach.loop hend fun _ _ hi => hi.2
  refine ⟨fun c hc hid hgot => ?_, hsame, ?_, fun c hc hid => ?_, fun _ c hc _ ho hp => ?_,
    unmarked_inv hend'⟩
  · exact overHttp_accepted (untouched_inv hl c hc hgot) hid
  · refine Runs.Reach.along_imp (fun t i ht hi => ?_) h is his
    rintro ⟨⟨c, hc, hid, hnone⟩, -⟩
    have harr : ((t.arrived i).ssl k).Visible := (visible_inv ht).deliver _
    exact ((Channel.safe_iff harr).1 (hi.1 c hc hid)).1 hnone
  · rw [← hid]
    exact (linked_inv hend).stream c hc (hover.shaken c hc hid).1
  · exact ⟨((rest_inv (W := False) (fun f => f.elim) hend' c hc).bits.opened ho).1,
      visible_inv hend hp⟩

end Invariants

/-! ## Two runs -/

/-- The sample server, whose clients are going to send the records. -/
def tlsStart (rs : List Record) : TlsLoop := ⟨Sample.start, fun _ => Channel.start rs⟩

/-- Steps in which no byte arrives. -/
def hushed (evs : List Ev) : List TlsEv := evs.map fun ev => ⟨ev, fun _ => 0⟩

/-- A pass with one connection, whose socket is ready for reading; `n` bytes arrive before it. -/
def tlsPass (n : ℕ) : List TlsEv :=
  hushed (Sample.select {5} ∅ ++ [Sample.next, Sample.next]) |>.modifyHead fun i =>
    { i with arrive := fun _ => n }

/-- The sample server behind the handshake of its only connection. -/
def tlsShaken (rs : List Record) : TlsLoop :=
  Runs.exec (tlsStep Sample.conf) (tlsStart rs)
    (hushed (Sample.select {4} ∅ ++ [Sample.next, Sample.next]) ++ tlsPass 0)

/-- A request in two records. -/
def twoRecords : List Record :=
  [⟨str "GET /a HTTP/1.1\r\n", 46, by decide, by decide⟩, ⟨str "\r\n", 31, by decide, by decide⟩]

/-- A request in two records, which arrive together. -/
theorem tls_transparent_together :
    Transparent Sample.conf twoRecords 0 (tlsShaken twoRecords) (tlsPass 77 ++ tlsPass 0) := by
  have hreach : TlsReach Sample.conf (fun _ => twoRecords) (Timely Sample.conf 0)
      (tlsShaken twoRecords) :=
    (Runs.Reach.start ⟨Sample.start_init, fun _ => rfl⟩).along _ (by decide +kernel)
  have hconn : ∃ c ∈ (tlsShaken twoRecords).loop.srv.pool.conns, c.wire.id = 0 ∧ c.Shaken := by
    decide +kernel
  obtain ⟨c, hc, hid, hshaken⟩ := hconn
  have halong : Runs.Along (tlsStep Sample.conf) (Timely Sample.conf 0) (tlsShaken twoRecords)
      (tlsPass 77 ++ tlsPass 0) := by decide +kernel
  exact tls_transparent hreach hc hid hshaken halong

/-- The first ten bytes of a record arrive, and the connection is dropped. -/
theorem record_drops : ¬ ∀ (conf : Conf) (recs : ℕ → List Record) (k : ℕ) (t₀ : TlsLoop)
    (c₀ : Conn) (is : List TlsEv), TlsReach conf recs Runs.any t₀ →
      c₀ ∈ t₀.loop.srv.pool.conns → c₀.wire.id = k → c₀.Shaken →
        Transparent conf (recs k) k t₀ is := by
  intro h
  have hconn : ∃ c ∈ (tlsShaken twoRecords).loop.srv.pool.conns, c.wire.id = 0 ∧ c.Shaken := by
    decide +kernel
  obtain ⟨c, hc, hid, hshaken⟩ := hconn
  have hreach : TlsReach Sample.conf (fun _ => twoRecords) Runs.any (tlsShaken twoRecords) :=
    (Runs.Reach.start ⟨Sample.start_init, fun _ => rfl⟩).exec _
  have hkept := (h Sample.conf (fun _ => twoRecords) 0 _ c (tlsPass 10) hreach hc hid hshaken).kept
  exact absurd hkept (by decide +kernel)

end Liso
