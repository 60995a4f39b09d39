import Liso.Loop.Sample

/-!
# The phases of a connection

A connection carries five phases: of its request, of its response, of its CGI, of the CGI's use of
the buffer, and the type of the request. `Shape` lists the combinations that occur, and `Rest` adds
the bits of the two `fd_set`s that they come with between two visits. This module follows a visit up
to the point where responses are sent; `Rest.lean` goes on from there. The later modules do a case
analysis on the shape, and each case leaves few branches of the handlers.

The write bit of a connection that waits for its error page or whose request is complete is not part
of `Rest`: it can be lost, which is the subject of `WakeUp.lean`.
-/

namespace Liso

variable {conf : Conf} {l : Loop} {c c' : Conn} {s s' : Srv} {e : Env} {T : Prop} {A : Set ℕ}

/-! ## What `cn_parse_req` does -/

/-- The chunk that `cn_parse_req` hands to the parser: the complete lines behind `data_p`, if the
scan from `n` on found a line feed behind it. -/
def Conn.chunk (c : Conn) (n : ℕ) : Option (List Byte) :=
  match scanLines (c.buf.data.drop n) n none with
  | none => none
  | some q => if q ≤ c.buf.data_p then none else some ((c.buf.data.take q).drop c.buf.data_p)

/-- In the head, `cn_parse_req` does nothing, or refuses a chunk, or parses one and counts the
body. -/
theorem cnParseReq_head (e : Env) (c : Conn) (n : ℕ) (s : Srv)
    (h : c.req.phase = .start ∨ c.req.phase = .header) :
    (c.chunk n = none ∧ cnParseReq e lisoConnErr c n s = (c, s)) ∨
    (∃ lines, c.chunk n = some lines ∧ (reqParse e.before c.req lines).1 < 0 ∧ ∃ q,
      cnParseReq e lisoConnErr c n s = lisoConnErr
        { c with req := (reqParse e.before c.req lines).2, buf := { c.buf with data_p := q } }
        (-(reqParse e.before c.req lines).1) s) ∨
    (∃ lines, c.chunk n = some lines ∧ ¬ (reqParse e.before c.req lines).1 < 0 ∧
      cnParseReq e lisoConnErr c n s = (cnCountBody
        { c with
          req := (reqParse e.before c.req lines).2
          buf := { c.buf with data_p := c.buf.data_p + (reqParse e.before c.req lines).1.toNat } },
            s)) := by
  have hb : c.req.phase ≠ .body := by rcases h with h | h <;> simp [h]
  unfold cnParseReq cnParseLines Conn.chunk
  rw [if_pos h]
  cases scanLines (c.buf.data.drop n) n none with
  | none => simp [cnCountBody_other hb]
  | some q =>
    dsimp only
    by_cases hq : q ≤ c.buf.data_p
    · simp [hq, cnCountBody_other hb]
    · simp only [hq, if_false]
      by_cases hrc : (reqParse e.before c.req ((c.buf.data.take q).drop c.buf.data_p)).1 < 0
      · refine .inr (.inl ⟨_, rfl, hrc, q, ?_⟩)
        rw [if_pos hrc]
      · refine .inr (.inr ⟨_, rfl, hrc, ?_⟩)
        rw [if_neg hrc]

/-- Behind the head, `cn_parse_req` only counts the body. -/
theorem cnParseReq_tail (e : Env) (c : Conn) (n : ℕ) (s : Srv)
    (h : ¬ (c.req.phase = .start ∨ c.req.phase = .header)) :
    cnParseReq e lisoConnErr c n s = (cnCountBody c, s) := by
  unfold cnParseReq cnParseLines
  rw [if_neg h]

/-! ## Shapes -/

/-- The combinations of phases. -/
inductive Shape (c : Conn) : Prop
  /-- The head of a request is being received. -/
  | head (hp : c.req.phase = .start ∨ c.req.phase = .header) (hg : c.cgi.phase = .idle)
      (hr : c.resp.phase = .ready) (hb : c.cgi.buf_phase = .recv)
  /-- The body of a static request is being received. -/
  | bodyStatic (hp : c.req.phase = .body) (ht : c.req.type = .static) (hg : c.cgi.phase = .disabled)
      (hr : c.resp.phase = .ready) (hb : c.cgi.buf_phase = .recv)
  /-- The body of a dynamic request is being received, and the CGI is not started yet. -/
  | bodyReady (hp : c.req.phase = .body) (ht : c.req.type = .dynamic) (hg : c.cgi.phase = .ready)
      (hr : c.resp.phase = .disabled) (hb : c.cgi.buf_phase = .recv)
  /-- The body of a dynamic request is being received and streamed to the CGI. -/
  | bodyStream (hp : c.req.phase = .body) (ht : c.req.type = .dynamic)
      (hg : c.cgi.phase = .srvToCgi) (hr : c.resp.phase = .disabled) (hb : c.cgi.buf_phase = .recv)
      (hin : c.cgi.srv_in ≠ none)
  /-- A static request is complete. -/
  | doneStatic (hp : c.req.phase = .done) (ht : c.req.type = .static) (hg : c.cgi.phase = .disabled)
      (hr : c.resp.phase = .ready ∨ c.resp.phase = .header ∨ c.resp.phase = .body)
      (hb : c.cgi.buf_phase = .recv)
  /-- A dynamic request is complete, and the CGI is not started yet. -/
  | doneReady (hp : c.req.phase = .done) (ht : c.req.type = .dynamic) (hg : c.cgi.phase = .ready)
      (hr : c.resp.phase = .disabled) (hb : c.cgi.buf_phase = .recv)
  /-- A dynamic request is complete, and the rest of its body is not streamed yet. -/
  | doneStream (hp : c.req.phase = .done) (ht : c.req.type = .dynamic)
      (hg : c.cgi.phase = .srvToCgi) (hr : c.resp.phase = .disabled) (hb : c.cgi.buf_phase = .recv)
      (hin : c.cgi.srv_in ≠ none)
  /-- The CGI's output is relayed. -/
  | relay (hp : c.req.phase = .done) (ht : c.req.type = .dynamic) (hg : c.cgi.phase = .cgiToSrv)
      (hr : c.resp.phase = .disabled) (hin : c.cgi.srv_in ≠ none)
  /-- The CGI's output has ended. -/
  | relayEnd (hp : c.req.phase = .done) (ht : c.req.type = .dynamic) (hg : c.cgi.phase = .done)
      (hr : c.resp.phase = .disabled)
  /-- The request failed, and an error page is due. -/
  | abort (hp : c.req.phase = .abort) (hr : c.resp.phase = .abort) (hb : c.cgi.buf_phase = .recv)
      (hg : c.cgi.phase ≠ .cgiToSrv) (hg' : c.cgi.phase ≠ .done)

/-- What was sent to the client, and what went to and came from the CGI. -/
def Conn.outs (c : Conn) : List Byte × List Byte × List Byte :=
  (c.wire.cur.sent, c.wire.cur.cgi_in, c.wire.cur.cgi_out)

/-- The data that the phases consist of. -/
def Conn.phases (c : Conn) :
    ℕ × ReqPhase × ReqType × RespPhase × CgiPhase × BufPhase × Option ℕ :=
  (c.fd, c.req.phase, c.req.type, c.resp.phase, c.cgi.phase, c.cgi.buf_phase, c.cgi.srv_in)

/-- The shape of a connection depends on its phases only. -/
theorem Shape.congr (h : Shape c) (he : c'.phases = c.phases) : Shape c' := by
  simp only [Conn.phases, Prod.mk.injEq] at he
  obtain ⟨-, ep, et, er, eg, eb, ein⟩ := he
  cases h with
  | head hp hg hr hb => exact .head (ep ▸ hp) (eg ▸ hg) (er ▸ hr) (eb ▸ hb)
  | bodyStatic hp ht hg hr hb => exact .bodyStatic (ep ▸ hp) (et ▸ ht) (eg ▸ hg) (er ▸ hr) (eb ▸ hb)
  | bodyReady hp ht hg hr hb => exact .bodyReady (ep ▸ hp) (et ▸ ht) (eg ▸ hg) (er ▸ hr) (eb ▸ hb)
  | bodyStream hp ht hg hr hb hin =>
    exact .bodyStream (ep ▸ hp) (et ▸ ht) (eg ▸ hg) (er ▸ hr) (eb ▸ hb) (ein ▸ hin)
  | doneStatic hp ht hg hr hb => exact .doneStatic (ep ▸ hp) (et ▸ ht) (eg ▸ hg) (er ▸ hr) (eb ▸ hb)
  | doneReady hp ht hg hr hb => exact .doneReady (ep ▸ hp) (et ▸ ht) (eg ▸ hg) (er ▸ hr) (eb ▸ hb)
  | doneStream hp ht hg hr hb hin =>
    exact .doneStream (ep ▸ hp) (et ▸ ht) (eg ▸ hg) (er ▸ hr) (eb ▸ hb) (ein ▸ hin)
  | relay hp ht hg hr hin => exact .relay (ep ▸ hp) (et ▸ ht) (eg ▸ hg) (er ▸ hr) (ein ▸ hin)
  | relayEnd hp ht hg hr => exact .relayEnd (ep ▸ hp) (et ▸ ht) (eg ▸ hg) (er ▸ hr)
  | abort hp hr hb hg hg' => exact .abort (ep ▸ hp) (er ▸ hr) (eb ▸ hb) (eg ▸ hg) (eg ▸ hg')

/-- Nothing is relayed before the CGI has the whole body. -/
theorem Shape.buf_recv (h : Shape c) (hg : c.cgi.phase ≠ .cgiToSrv) (hg' : c.cgi.phase ≠ .done) :
    c.cgi.buf_phase = .recv := by
  cases h with
  | head _ _ _ hb | bodyStatic _ _ _ _ hb | bodyReady _ _ _ _ hb | bodyStream _ _ _ _ hb
  | doneStatic _ _ _ _ hb | doneReady _ _ _ _ hb | doneStream _ _ _ _ hb | abort _ _ hb => exact hb
  | relay _ _ h => exact absurd h hg
  | relayEnd _ _ h => exact absurd h hg'

/-- A complete request is in one of five shapes. -/
theorem Shape.of_done (h : Shape c) (hp : c.req.phase = .done) :
    (c.req.type = .static ∧ c.cgi.phase = .disabled) ∨
    (c.req.type = .dynamic ∧ c.resp.phase = .disabled ∧ (c.cgi.phase = .ready ∨
      (c.cgi.phase = .srvToCgi ∨ c.cgi.phase = .cgiToSrv) ∧ c.cgi.srv_in ≠ none ∨
        c.cgi.phase = .done)) := by
  cases h with
  | doneStatic _ ht hg => exact .inl ⟨ht, hg⟩
  | doneReady _ ht hg hr => exact .inr ⟨ht, hr, .inl hg⟩
  | doneStream _ ht hg hr _ hin => exact .inr ⟨ht, hr, .inr (.inl ⟨.inl hg, hin⟩)⟩
  | relay _ ht hg hr hin => exact .inr ⟨ht, hr, .inr (.inl ⟨.inr hg, hin⟩)⟩
  | relayEnd _ ht hg hr => exact .inr ⟨ht, hr, .inr (.inr hg)⟩
  | head hp' => rcases hp' with hp' | hp' <;> simp [hp] at hp'
  | bodyStatic hp' | bodyReady hp' | bodyStream hp' | abort hp' => simp [hp] at hp'

/-- The CGI of a request is about to be started in three shapes. -/
theorem Shape.of_ready (h : Shape c) (hg : c.cgi.phase = .ready) :
    (c.resp.phase = .disabled ∧ (c.req.phase = .body ∨ c.req.phase = .done)) ∨
      (c.resp.phase = .abort ∧ c.req.phase = .abort) := by
  cases h with
  | bodyReady hp _ _ hr => exact .inl ⟨hr, .inl hp⟩
  | doneReady hp _ _ hr => exact .inl ⟨hr, .inr hp⟩
  | abort hp hr => exact .inr ⟨hr, hp⟩
  | head _ hg' | bodyStatic _ _ hg' | bodyStream _ _ hg' | doneStatic _ _ hg' | doneStream _ _ hg'
  | relay _ _ hg' | relayEnd _ _ hg' => simp [hg] at hg'

/-- The request is still being received. -/
def Conn.Open (c : Conn) : Prop :=
  c.req.phase = .start ∨ c.req.phase = .header ∨ c.req.phase = .body

/-- A request is received until it is complete or fails. -/
theorem Conn.open_of (c : Conn) (hp : c.req.phase ≠ .abort) (hd : c.req.phase ≠ .done) :
    c.Open := by
  cases hph : c.req.phase with
  | start => exact .inl hph
  | header => exact .inr (.inl hph)
  | body => exact .inr (.inr hph)
  | done => exact absurd hph hd
  | abort => exact absurd hph hp

/-- The bits that hold at every point of a visit. -/
structure Bits (c : Conn) (s : Srv) : Prop where
  /-- A connection that receives is watched for reading, and not for writing. -/
  opened : c.Open → c.fd ∈ s.pool.read_set ∧ c.fd ∉ s.pool.write_set
  /-- The stdout of a CGI is watched while it is relayed. -/
  relay : c.cgi.phase = .cgiToSrv → ∀ d, c.cgi.srv_in = some d → d ∈ s.pool.read_set
  /-- A connection that relays bytes is watched for writing. -/
  send : c.cgi.buf_phase = .send → c.fd ∈ s.pool.write_set

/-- A connection after the section `recv`. Under `W` the write bit of a failed request counts as
well. -/
structure Recvd (W : Prop) (c : Conn) (s : Srv) : Prop where
  /-- The phases. -/
  shape : Shape c
  /-- The bits. -/
  bits : Bits c s
  /-- The write bit of a failed request. -/
  wake : W → c.req.phase = .abort → c.fd ∈ s.pool.write_set

/-- A connection between two visits. Under `W` the write bits of a failed request, of a complete
static one, and of one whose CGI is not started count as well. -/
structure Rest (W : Prop) (c : Conn) (s : Srv) : Prop where
  /-- The phases. -/
  shape : Shape c
  /-- The bits. -/
  bits : Bits c s
  /-- A complete request is not received any more. -/
  done : c.req.phase = .done → c.fd ∉ s.pool.read_set
  /-- The body that was received has been streamed. -/
  streamed : c.req.phase = .done → c.cgi.phase ≠ .srvToCgi
  /-- The write bits. -/
  wake : W → c.req.phase = .abort ∨ c.req.phase = .done ∧
    (c.req.type = .static ∨ c.cgi.phase = .ready) →
    c.fd ∈ s.pool.write_set

variable {W : Prop}

/-- What holds at rest holds behind the section `recv` too. -/
theorem Rest.recvd (h : Rest W c s) : Recvd W c s :=
  ⟨h.shape, h.bits, fun w hp => h.wake w (.inl hp)⟩

/-- The bits depend on the phases and on the two sets. -/
theorem Bits.congr (h : Bits c s) (he : c'.phases = c.phases)
    (hr : s'.pool.read_set = s.pool.read_set) (hw : s'.pool.write_set = s.pool.write_set) :
    Bits c' s' := by
  simp only [Conn.phases, Prod.mk.injEq] at he
  obtain ⟨efd, ep, -, -, eg, eb, ein⟩ := he
  refine ⟨fun ho => ?_, fun hg d hd => ?_, fun hb => ?_⟩
  · rw [hr, hw, efd]; exact h.opened (by rwa [Conn.Open, ep] at ho)
  · rw [hr]; exact h.relay (eg ▸ hg) d (ein ▸ hd)
  · rw [hw, efd]; exact h.send (eb ▸ hb)

/-- `Recvd` depends on the phases and the two sets. -/
theorem Recvd.congr (h : Recvd W c s) (he : c'.phases = c.phases)
    (hr : s'.pool.read_set = s.pool.read_set) (hw : s'.pool.write_set = s.pool.write_set) :
    Recvd W c' s' := by
  refine ⟨h.shape.congr he, h.bits.congr he hr hw, fun w hp => ?_⟩
  simp only [Conn.phases, Prod.mk.injEq] at he
  rw [hw, he.1]
  exact h.wake w (he.2.1 ▸ hp)

/-- `Rest` depends on the phases and the two sets. -/
theorem Rest.congr (h : Rest W c s) (he : c'.phases = c.phases)
    (hr : s'.pool.read_set = s.pool.read_set) (hw : s'.pool.write_set = s.pool.write_set) :
    Rest W c' s' := by
  have hR := h.recvd.congr he hr hw
  simp only [Conn.phases, Prod.mk.injEq] at he
  obtain ⟨efd, ep, et, -, eg, -, -⟩ := he
  refine ⟨hR.shape, hR.bits, fun hp => ?_, fun hp => ?_, fun w hp => ?_⟩
  · rw [hr, efd]; exact h.done (ep ▸ hp)
  · rw [eg]; exact h.streamed (ep ▸ hp)
  · rw [hw, efd]
    rw [ep, et, eg] at hp
    exact h.wake w hp

/-! ## Receiving -/

/-- The phase of the request after the body was counted. -/
theorem Conn.counted_phase (c : Conn) : c.counted.phase = .done ∨ c.counted.phase = .body := by
  by_cases h : c.left ≤ 0 <;> simp [Conn.counted, h]

/-- Counting the body of a static request. -/
theorem cnCountBody_shape_static (hp : c.req.phase = .body) (ht : c.req.type = .static)
    (hr : c.resp.phase = .ready) (hb : c.cgi.buf_phase = .recv) : Shape (cnCountBody c) := by
  rw [cnCountBody_static hp ht]
  rcases c.counted_phase with h | h
  · exact .doneStatic h ht rfl (.inl hr) hb
  · exact .bodyStatic h ht rfl hr hb

/-- Counting the body of a dynamic request. -/
theorem cnCountBody_shape_dynamic (hp : c.req.phase = .body) (ht : c.req.type = .dynamic)
    (hg : c.cgi.phase = .idle ∨ c.cgi.phase = .ready ∨ c.cgi.phase = .srvToCgi ∧
      c.cgi.srv_in ≠ none)
    (hb : c.cgi.buf_phase = .recv) : Shape (cnCountBody c) := by
  rw [cnCountBody_dynamic hp ht]
  have hready : c.cgi.phase = .idle ∨ c.cgi.phase = .ready →
      (if c.cgi.phase = .idle then CgiPhase.ready else c.cgi.phase) = .ready := by
    rintro (h | h) <;> simp [h]
  rcases c.counted_phase with h | h
  · rcases hg with hg | hg | ⟨hg, hin⟩
    · exact .doneReady h ht (hready (.inl hg)) rfl hb
    · exact .doneReady h ht (hready (.inr hg)) rfl hb
    · exact .doneStream h ht (by simp [hg]) rfl hb hin
  · rcases hg with hg | hg | ⟨hg, hin⟩
    · exact .bodyReady h ht (hready (.inl hg)) rfl hb
    · exact .bodyReady h ht (hready (.inr hg)) rfl hb
    · exact .bodyStream h ht (by simp [hg]) rfl hb hin

/-- Counting the body keeps the socket and the pipes, and does not make a connection one that
receives. -/
theorem cnCountBody_ends (c : Conn) : (cnCountBody c).ends = c.ends ∧
    (cnCountBody c).cgi.buf_phase = c.cgi.buf_phase ∧ ((cnCountBody c).Open → c.Open) ∧
    ((cnCountBody c).cgi.phase = .cgiToSrv → c.cgi.phase = .cgiToSrv) ∧
    ((cnCountBody c).req.phase = .abort → c.req.phase = .abort) := by
  by_cases hp : c.req.phase = .body
  case neg => rw [cnCountBody_other hp]; exact ⟨rfl, rfl, id, id, id⟩
  have habort : c.counted.phase ≠ .abort := by
    rcases c.counted_phase with h | h <;> simp [h]
  cases ht : c.req.type with
  | static =>
    rw [cnCountBody_static hp ht]
    exact ⟨rfl, rfl, fun _ => .inr (.inr hp), fun h => by simp at h, fun h => absurd h habort⟩
  | dynamic =>
    rw [cnCountBody_dynamic hp ht]
    refine ⟨rfl, rfl, fun _ => .inr (.inr hp), fun h => ?_, fun h => absurd h habort⟩
    dsimp only at h
    split_ifs at h
    exact h

/-- The bits after the body was counted. -/
theorem Bits.count (h : Bits c s) : Bits (cnCountBody c) s := by
  obtain ⟨he, hb, ho, hg, -⟩ := cnCountBody_ends c
  simp only [Conn.ends, Prod.mk.injEq] at he
  refine ⟨fun hopen => ?_, fun hc d hd => ?_, fun hs => ?_⟩
  · rw [he.1]; exact h.opened (ho hopen)
  · exact h.relay (hg hc) d (he.2.2.2.2.1 ▸ hd)
  · rw [he.1]; exact h.send (hb ▸ hs)

/-- A request that fails while nothing is relayed. -/
theorem lisoConnErr_recvd (status : ℤ) (hb : c.cgi.buf_phase = .recv)
    (hg : c.cgi.phase ≠ .cgiToSrv) (hg' : c.cgi.phase ≠ .done) :
    Recvd W (lisoConnErr c status s).1 (lisoConnErr c status s).2 := by
  have habort : (lisoConnErr c status s).1.req.phase = .abort := rfl
  refine ⟨.abort rfl rfl hb hg hg', ⟨fun ho => ?_, fun h => absurd h hg, fun h => ?_⟩,
    fun _ _ => ?_⟩
  · rcases ho with ho | ho | ho <;> simp [habort] at ho
  · have h : c.cgi.buf_phase = .send := h
    rw [hb] at h
    simp at h
  · simp [lisoConnErr]

/-- `cn_parse_req` on a connection that receives. -/
theorem cnParseReq_recvd (e : Env) (n : ℕ) (hs : Shape c) (hbits : Bits c s) (ho : c.Open) :
    Recvd W (cnParseReq e lisoConnErr c n s).1 (cnParseReq e lisoConnErr c n s).2 := by
  -- Counting the body opens no bit, and ends the request only when the body is complete.
  have hcount : ∀ c1 : Conn, c1.Open → Shape (cnCountBody c1) → Bits c1 s →
      Recvd W (cnCountBody c1) s := by
    intro c1 ho1 hs1 hb1
    refine ⟨hs1, hb1.count, fun _ h => ?_⟩
    have := (cnCountBody_ends c1).2.2.2.2 h
    rcases ho1 with h1 | h1 | h1 <;> simp [h1] at this
  cases hs with
  | head hp hg hr hb =>
    rcases cnParseReq_head e c n s hp with ⟨-, h⟩ | ⟨lines, -, -, q, h⟩ | ⟨lines, -, hrc, h⟩
    · rw [h]
      refine ⟨.head hp hg hr hb, hbits, fun _ h => ?_⟩
      rcases hp with hp | hp <;> simp [hp] at h
    · rw [h]
      exact lisoConnErr_recvd _ hb (by simp [hg]) (by simp [hg])
    · rw [h]
      have hphase := reqParse_phase hp hrc
      generalize hc1 : ({ c with req := (reqParse e.before c.req lines).2, buf := _ } : Conn) = c1
      have hp1 : c1.req.phase = .header ∨ c1.req.phase = .body := by rw [← hc1]; exact hphase
      have hg1 : c1.cgi = c.cgi := by rw [← hc1]
      have hr1 : c1.resp = c.resp := by rw [← hc1]
      have hf1 : c1.fd = c.fd := by rw [← hc1]
      have ho1 : c1.Open := .inr hp1
      have hb1 : Bits c1 s := by
        refine ⟨fun _ => by rw [hf1]; exact hbits.opened ho, fun h => ?_, fun h => ?_⟩
        · rw [hg1, hg] at h; simp at h
        · rw [hg1, hb] at h; simp at h
      refine hcount c1 ho1 ?_ hb1
      rcases hp1 with hp1 | hp1
      · rw [cnCountBody_other (by simp [hp1])]
        exact .head (.inr hp1) (by rw [hg1, hg]) (by rw [hr1, hr]) (by rw [hg1, hb])
      · cases ht : c1.req.type with
        | static => exact cnCountBody_shape_static hp1 ht (by rw [hr1, hr]) (by rw [hg1, hb])
        | dynamic => exact cnCountBody_shape_dynamic hp1 ht (by simp [hg1, hg]) (by rw [hg1, hb])
  | bodyStatic hp ht hg hr hb =>
    rw [cnParseReq_tail e c n s (by simp [hp])]
    exact hcount c ho (cnCountBody_shape_static hp ht hr hb) hbits
  | bodyReady hp ht hg hr hb =>
    rw [cnParseReq_tail e c n s (by simp [hp])]
    exact hcount c ho (cnCountBody_shape_dynamic hp ht (by simp [hg]) hb) hbits
  | bodyStream hp ht hg hr hb hin =>
    rw [cnParseReq_tail e c n s (by simp [hp])]
    exact hcount c ho (cnCountBody_shape_dynamic hp ht (.inr (.inr ⟨hg, hin⟩)) hb) hbits
  | doneStatic hp | doneReady hp | doneStream hp | relay hp | relayEnd hp | abort hp =>
    rcases ho with ho | ho | ho <;> simp [hp] at ho

/-- `liso_drop_conn` frees the connection and leaves no marks. -/
theorem lisoDropConn_post {B : Conn → Srv → Prop} (h : c.idx < s.pool.conns.length) :
    (lisoDropConn c s).Post B (SameMarks c.Fits s) := by
  unfold lisoDropConn plDelConn
  rw [if_neg (not_le.2 h)]
  refine ⟨by norm_num, ?_⟩
  have h1 := plResetConn_marks s c
  have h2 := SameMarks.of_probe (plResetConn s c).2 c.fd
  refine (h1.trans (h2 _ _ _)).mono fun hf => ⟨hf, ?_⟩
  exact hf _ (.inl rfl)

/-- `liso_drop_conn` frees the connection. -/
theorem lisoDropConn_gone {B : Conn → Srv → Prop} (h : c.idx < s.pool.conns.length) :
    (lisoDropConn c s).Post B (fun _ => True) :=
  (lisoDropConn_post h).mono (fun _ _ h => h) fun _ _ => trivial

/-- `recv_ignore` changes no phase. -/
theorem recvIgnore_recvd (e : Env) (hidx : c.idx < s.pool.conns.length) (h : Recvd W c s) :
    (recvIgnore e lisoDropConn c s).Post (Recvd W) (fun _ => True) := by
  unfold recvIgnore
  split
  · exact lisoDropConn_gone hidx
  · dsimp only
    split
    · exact lisoDropConn_gone hidx
    · exact (Ret.post_some _ _).2 (h.congr rfl rfl rfl)

/-- `cn_recv` on a connection whose request is not complete. -/
theorem cnRecv_recvd (e : Env) (hidx : c.idx < s.pool.conns.length) (h : Recvd W c s)
    (hdone : c.req.phase ≠ .done) :
    (cnRecv e lisoConnErr lisoDropConn c s).Post (Recvd W) (fun _ => True) := by
  unfold cnRecv
  dsimp only
  split
  · split
    · exact lisoDropConn_gone hidx
    · split
      · exact (Ret.post_some _ _).2 h
      · exact (Ret.post_some _ _).2 (h.congr rfl rfl rfl)
  split
  · exact recvIgnore_recvd e hidx h
  rename_i hp
  have ho := c.open_of hp hdone
  have hphases : c.cgi.buf_phase = .recv ∧ c.cgi.phase ≠ .cgiToSrv ∧ c.cgi.phase ≠ .done := by
    cases h.shape with
    | head _ hg _ hb => simp [hg, hb]
    | bodyStatic _ _ hg _ hb => simp [hg, hb]
    | bodyReady _ _ hg _ hb => simp [hg, hb]
    | bodyStream _ _ hg _ hb => simp [hg, hb]
    | abort hp' => exact absurd hp' hp
    | doneStatic hp' | doneReady hp' | doneStream hp' | relay hp' | relayEnd hp' =>
      exact absurd hp' hdone
  split
  · exact recvIgnore_recvd e hidx (lisoConnErr_recvd _ hphases.1 hphases.2.1 hphases.2.2)
  split
  · exact lisoDropConn_gone hidx
  split
  · exact lisoDropConn_gone hidx
  · rw [Ret.post_some]
    exact cnParseReq_recvd _ _ (h.shape.congr rfl) (h.bits.congr rfl rfl rfl) ho

/-- The section `recv` leaves a connection whose phases and bits agree, or drops it. -/
theorem stepRecv_recvd (e : Env) (hidx : c.idx < s.pool.conns.length) (h : Rest W c s)
    (hready : Ready c s) :
    (stepRecv e c s).Post (Recvd W) (fun _ => True) := by
  unfold stepRecv
  dsimp only
  split
  · rename_i hr
    have hset := (hready.read c.fd (.inl rfl) (of_decide_eq_true hr)).1
    refine cnRecv_recvd (s := (s.probe c.fd).act c.fd) e hidx (h.recvd.congr rfl rfl rfl) fun hd =>
      ?_
    exact h.done hd hset
  · exact (Ret.post_some _ _).2 (h.recvd.congr rfl rfl rfl)

/-- What the receiving part of a visit leaves alone. -/
structure RecvKeeps (c : Conn) (s : Srv) (c' : Conn) (s' : Srv) : Prop where
  /-- The descriptors. -/
  ends : c'.ends = c.ends
  /-- The table. -/
  fds : s'.fds = s.fds
  /-- The bits that `select` returned. -/
  read_ready : s'.pool.read_ready = s.pool.read_ready
  /-- The marks. -/
  marks : SameMarks c.Fits s s'
  /-- What was sent to the client, and what went to and came from the CGI. -/
  outs : c'.outs = c.outs
  /-- The CGI's phase, unless the request turns out to have a body. -/
  cgi : c'.cgi.phase = c.cgi.phase ∨ c.cgi.phase = .idle ∧ c'.cgi.phase = .ready ∨
    c'.cgi.phase = .disabled
  /-- The response, unless the CGI or an error page takes its place. -/
  resp : c'.resp.phase = c.resp.phase ∧ c'.resp.mmbuf = c.resp.mmbuf ∨ c'.resp.phase = .disabled ∨
    c'.resp.phase = .abort
  /-- A failure. -/
  abort : c.req.phase = .abort → c'.req.phase = .abort

/-- Doing nothing keeps all of it. -/
theorem RecvKeeps.refl (c : Conn) (s : Srv) : RecvKeeps c s c s :=
  ⟨rfl, rfl, rfl, .refl _ _, rfl, .inl rfl, .inl ⟨rfl, rfl⟩, id⟩

/-- Two connections with the same descriptors fit alike. -/
theorem Conn.fits_congr (h : c'.ends = c.ends) : c'.Fits ↔ c.Fits := by
  simp only [Conn.ends, Prod.mk.injEq] at h
  obtain ⟨hfd, -, -, -, hin, herr⟩ := h
  simp only [Conn.Fits, Conn.Watches, hfd, hin, herr]

/-- What two receipts keep, both together keep. -/
theorem RecvKeeps.trans {c'' : Conn} {s'' : Srv} (h : RecvKeeps c s c' s')
    (h' : RecvKeeps c' s' c'' s'') :
    RecvKeeps c s c'' s'' where
  ends := h'.ends.trans h.ends
  fds := h'.fds.trans h.fds
  read_ready := h'.read_ready.trans h.read_ready
  marks := (h.marks.trans h'.marks).mono fun hf => ⟨hf, (Conn.fits_congr h.ends).2 hf⟩
  outs := h'.outs.trans h.outs
  cgi := by
    rcases h'.cgi with h1 | ⟨h1, h2⟩ | h1
    · rw [h1]; exact h.cgi
    · rcases h.cgi with h3 | ⟨h3, h4⟩ | h3
      · exact .inr (.inl ⟨h3 ▸ h1, h2⟩)
      · simp [h1] at h4
      · simp [h1] at h3
    · exact .inr (.inr h1)
  resp := by
    rcases h'.resp with ⟨h1, h2⟩ | h1
    · rw [h1, h2]; exact h.resp
    · exact .inr h1
  abort ha := h'.abort (h.abort ha)

/-- Counting the body keeps the history. -/
theorem cnCountBody_keeps (c : Conn) (s : Srv) : RecvKeeps c s (cnCountBody c) s := by
  by_cases hb : c.req.phase = .body
  case neg => rw [cnCountBody_other hb]; exact .refl c s
  cases ht : c.req.type with
  | static =>
    rw [cnCountBody_static hb ht]
    exact ⟨rfl, rfl, rfl, .refl _ _, rfl, .inr (.inr rfl), .inl ⟨rfl, rfl⟩,
      fun hp => by simp [hb] at hp⟩
  | dynamic =>
    rw [cnCountBody_dynamic hb ht]
    refine ⟨rfl, rfl, rfl, .refl _ _, rfl, ?_, .inr (.inl rfl), fun hp => by simp [hb] at hp⟩
    by_cases hg : c.cgi.phase = .idle
    · exact .inr (.inl ⟨hg, if_pos hg⟩)
    · exact .inl (if_neg hg)

/-- The error callback keeps the descriptors, the marks and what was sent. -/
theorem lisoConnErr_keeps (c : Conn) (status : ℤ) (s : Srv) :
    RecvKeeps c s (lisoConnErr c status s).1 (lisoConnErr c status s).2 :=
  ⟨rfl, rfl, rfl, (SameMarks.of_probe s c.fd _ _ _).mono fun h => h _ (.inl rfl), rfl, .inl rfl,
    .inr (.inr rfl), fun _ => rfl⟩

/-- `cn_parse_req` keeps the descriptors, the marks and what was sent. -/
theorem cnParseReq_keeps (e : Env) (c : Conn) (n : ℕ) (s : Srv) :
    RecvKeeps c s (cnParseReq e lisoConnErr c n s).1 (cnParseReq e lisoConnErr c n s).2 := by
  by_cases hp : c.req.phase = .start ∨ c.req.phase = .header
  · have habort : c.req.phase ≠ .abort := by rcases hp with hp | hp <;> simp [hp]
    -- The parser changes data of the request, and moves the cursor.
    have hdata : ∀ req q, RecvKeeps c s { c with req := req, buf := { c.buf with data_p := q } }
      s := fun req q =>
      ⟨rfl, rfl, rfl, .refl _ _, rfl, .inl rfl, .inl ⟨rfl, rfl⟩, fun h => absurd h habort⟩
    rcases cnParseReq_head e c n s hp with ⟨-, h⟩ | ⟨lines, -, -, q, h⟩ | ⟨lines, -, -, h⟩
      <;> rw [h]
    · exact .refl c s
    · exact (hdata _ q).trans (lisoConnErr_keeps _ _ s)
    · exact (hdata _ _).trans (cnCountBody_keeps _ s)
  · rw [cnParseReq_tail e c n s hp]
    exact cnCountBody_keeps c s

/-- `recv_ignore` keeps the descriptors, the marks and what was sent, or drops the connection. -/
theorem recvIgnore_keeps (e : Env) (h : c.idx < s.pool.conns.length) :
    (recvIgnore e lisoDropConn c s).Post (RecvKeeps c s) (SameMarks c.Fits s) := by
  unfold recvIgnore
  split
  · exact lisoDropConn_post h
  · dsimp only
    split
    · exact lisoDropConn_post h
    · exact (Ret.post_some _ _).2 ⟨rfl, rfl, rfl, .refl _ _, rfl, .inl rfl, .inl ⟨rfl, rfl⟩, id⟩

/-- `cn_recv` keeps the connection's descriptors and its history, or frees the connection. -/
theorem cnRecv_keeps (e : Env) (h : c.idx < s.pool.conns.length) :
    (cnRecv e lisoConnErr lisoDropConn c s).Post (RecvKeeps c s) (SameMarks c.Fits s) := by
  unfold cnRecv
  dsimp only
  split
  · split
    · exact lisoDropConn_post h
    · split
      · exact (Ret.post_some _ _).2 (.refl _ _)
      · exact (Ret.post_some _ _).2 ⟨rfl, rfl, rfl, .refl _ _, rfl, .inl rfl, .inl ⟨rfl, rfl⟩, id⟩
  split
  · exact recvIgnore_keeps e h
  rename_i habort
  split
  · have hk := lisoConnErr_keeps c 400 s
    refine (recvIgnore_keeps (c := (lisoConnErr c 400 s).1) (s := (lisoConnErr c 400 s).2) e h).mono
      (fun _ _ h => hk.trans h) fun _ h => (hk.marks.trans h).mono fun hf => ⟨hf, hf⟩
  split
  · exact lisoDropConn_post h
  split
  · exact lisoDropConn_post h
  · rw [Ret.post_some]
    refine RecvKeeps.trans ?_ (cnParseReq_keeps e _ _ s)
    exact ⟨rfl, rfl, rfl, .refl _ _, rfl, .inl rfl, .inl ⟨rfl, rfl⟩, id⟩

/-- The section `recv` keeps the descriptors, the marks and what was sent, or drops the connection.
-/
theorem stepRecv_keeps (e : Env) (h : c.idx < s.pool.conns.length) :
    (stepRecv e c s).Post (RecvKeeps c s) (SameMarks c.Fits s) := by
  have hm : SameMarks c.Fits s (s.probe c.fd) :=
    (SameMarks.of_probe s c.fd _ _ _).mono fun h => h _ (.inl rfl)
  have hp : RecvKeeps c s c (s.probe c.fd) :=
    ⟨rfl, rfl, rfl, hm, rfl, .inl rfl, .inl ⟨rfl, rfl⟩, id⟩
  unfold stepRecv
  dsimp only
  split
  · have ha : RecvKeeps c (s.probe c.fd) c ((s.probe c.fd).act c.fd) :=
      ⟨rfl, rfl, rfl, ⟨rfl, rfl, fun _ => rfl⟩, rfl, .inl rfl, .inl ⟨rfl, rfl⟩, id⟩
    exact (cnRecv_keeps (s := (s.probe c.fd).act c.fd) e h).mono
      (fun _ _ h => (hp.trans ha).trans h)
      fun _ h => ((hp.trans ha).marks.trans h).mono fun hf => ⟨hf, hf⟩
  · exact (Ret.post_some _ _).2 hp

/-- Nothing is received behind a complete request. -/
theorem stepRecv_done (e : Env) (h : Rest W c s) (hready : Ready c s) (hp : c.req.phase = .done) :
    stepRecv e c s = ⟨1, some c, s.probe c.fd⟩ :=
  if_neg fun hr => h.done hp (hready.read c.fd (.inl rfl) (of_decide_eq_true hr)).1

/-! ## The transitions -/

/-- A request that fails; the bits come from the error callback. -/
theorem Recvd.err (h : Recvd W c s) (status : ℤ) (hg : c.cgi.phase ≠ .cgiToSrv)
    (hg' : c.cgi.phase ≠ .done) : Recvd W (lisoConnErr c status s).1 (lisoConnErr c status s).2 :=
  lisoConnErr_recvd status (h.shape.buf_recv hg hg') hg hg'

/-- A failed request is at rest. -/
theorem Recvd.rest_abort (h : Recvd W c s) (hp : c.req.phase = .abort) : Rest W c s :=
  ⟨h.shape, h.bits, fun hp' => by simp [hp] at hp', fun hp' => by simp [hp] at hp', fun w hw => by
    rcases hw with hw | ⟨hw, -⟩
    · exact h.wake w hw
    · simp [hp] at hw⟩

/-- The section `handle cgi err` touches no bit. -/
theorem stepLogerr_recvd (h : Recvd W c s) : Recvd W c (stepLogerr c s) := by
  unfold stepLogerr
  split
  · exact h
  · dsimp only
    split
    · exact h.congr rfl rfl rfl
    · exact h.congr rfl rfl rfl

/-- The first transition keeps the connection's phases in order. -/
theorem stepPrepare_recvd (conf : Conf) (e : Env) (h : Recvd W c s) :
    Recvd W (stepPrepare conf e c s).1 (stepPrepare conf e c s).2 := by
  unfold stepPrepare
  split
  case isFalse => exact h
  rename_i hcond
  obtain ⟨ht, hp, hr⟩ := hcond
  have hg : c.cgi.phase = .disabled := by
    rcases h.shape.of_done hp with ⟨-, hg⟩ | ⟨ht', -⟩
    · exact hg
    · simp [ht] at ht'
  have hb := h.shape.buf_recv (by simp [hg]) (by simp [hg])
  unfold cnPrepareStaticHeader
  dsimp only
  split
  · exact lisoConnErr_recvd _ hb (by simp [hg]) (by simp [hg])
  · refine ⟨.doneStatic hp ht hg (.inr (.inl rfl)) hb, ⟨fun ho => ?_, fun hg' => ?_, fun hb' => ?_⟩,
      fun _ hp' => ?_⟩
    · rcases ho with ho | ho | ho <;> simp [hp] at ho
    · simp [hg] at hg'
    · simp [hb] at hb'
    · simp [hp] at hp'

/-- What `cgi_init` does to the phases. -/
theorem cgiInit_phases (e : Env) (g : Cgi) (t : Handles.Table) :
    (cgiInit e g t).2.1.buf_phase = g.buf_phase ∧
      ((cgiInit e g t).1 = true → (cgiInit e g t).2.1.srv_in ≠ none) := by
  unfold cgiInit
  dsimp only
  split_ifs
  all_goals try exact ⟨rfl, fun h => by simp at h⟩
  split
  · exact ⟨rfl, fun h => by simp at h⟩
  · exact ⟨rfl, fun _ => by simp⟩

/-- The second transition does nothing, or starts the CGI, or marks the request as failed. -/
theorem stepInitCgi_cases (e : Env) (c : Conn) (s : Srv) :
    (¬ (c.req.type = .dynamic ∧ c.cgi.phase = .ready) ∧ stepInitCgi e c s = (c, s)) ∨
    (c.req.type = .dynamic ∧ c.cgi.phase = .ready ∧ (cgiInit e c.cgi s.fds).1 = true ∧
      stepInitCgi e c s =
        ({ c with cgi := { (cgiInit e c.cgi s.fds).2.1 with phase := .srvToCgi } },
        { s with fds := (cgiInit e c.cgi s.fds).2.2 }.setReadField
          (cgiInit e c.cgi s.fds).2.1.srv_err)) ∨
    (c.req.type = .dynamic ∧ c.cgi.phase = .ready ∧ (cgiInit e c.cgi s.fds).1 = false ∧
      stepInitCgi e c s = lisoConnErr { c with
          cgi := { (cgiInit e c.cgi s.fds).2.1 with phase := .abort },
          resp := { c.resp with phase := .abort } } 500
            { s with fds := (cgiInit e c.cgi s.fds).2.2 }) := by
  unfold stepInitCgi
  by_cases hcond : c.req.type = .dynamic ∧ c.cgi.phase = .ready
  case neg => exact .inl ⟨hcond, if_neg hcond⟩
  rw [if_pos hcond]
  refine .inr ?_
  unfold cnInitCgi
  generalize cgiInit e c.cgi s.fds = out
  obtain ⟨ok, g, t⟩ := out
  cases ok with
  | true => exact .inl ⟨hcond.1, hcond.2, rfl, rfl⟩
  | false => exact .inr ⟨hcond.1, hcond.2, rfl, rfl⟩

/-- The second transition starts the CGI, or the request fails. -/
theorem stepInitCgi_recvd (e : Env) (h : Recvd W c s) :
    Recvd W (stepInitCgi e c s).1 (stepInitCgi e c s).2 ∧
      ((stepInitCgi e c s).1.cgi.phase = .ready → (stepInitCgi e c s).1.req.phase ≠ .done) := by
  obtain ⟨hbp, hin⟩ := cgiInit_phases e c.cgi s.fds
  rcases stepInitCgi_cases e c s with ⟨hcond, he⟩ | ⟨ht, hg, hok, he⟩ | ⟨ht, hg, -, he⟩ <;> rw [he]
  · refine ⟨h, fun hg hp => ?_⟩
    have hg : c.cgi.phase = .ready := hg
    rcases h.shape.of_done hp with ⟨-, hg'⟩ | ⟨ht, -⟩
    · simp [hg] at hg'
    · exact hcond ⟨ht, hg⟩
  · have hb := hbp.trans (h.shape.buf_recv (by simp [hg]) (by simp [hg]))
    refine ⟨⟨?_, ⟨fun ho => ?_, fun h => by simp at h, fun h => ?_⟩, fun w hp => ?_⟩,
      fun h => by simp at h⟩
    · rcases h.shape.of_ready hg with ⟨hr, hp | hp⟩ | ⟨hr, hp⟩
      · exact .bodyStream hp ht rfl hr hb (hin hok)
      · exact .doneStream hp ht rfl hr hb (hin hok)
      · exact .abort hp hr hb (by simp) (by simp)
    · have := h.bits.opened ho
      simp only [Srv.mem_read_setReadField, Srv.write_setReadField]
      exact ⟨.inr this.1, this.2⟩
    · have h : (cgiInit e c.cgi s.fds).2.1.buf_phase = .send := h
      simp [hb] at h
    · simp only [Srv.write_setReadField]
      exact h.wake w hp
  · have hb := hbp.trans (h.shape.buf_recv (by simp [hg]) (by simp [hg]))
    exact ⟨lisoConnErr_recvd _ hb (by simp) (by simp), fun h => by simp [lisoConnErr] at h⟩

/-- The writes of `cn_stream_to_cgi`: whether they end without an error, and the bytes taken. -/
def Conn.writes (e : Env) (c : Conn) : Bool × List Byte :=
  writeLoop c.buf.rest e.write c.buf.rsize.toNat 0 c.buf.rsize

/-- The streaming to the CGI does nothing, or fails, or takes the bytes in the buffer; behind the
last ones the CGI's stdin is closed. -/
theorem stepStream_cases (e : Env) (c : Conn) (s : Srv) :
    (¬ (c.req.type = .dynamic ∧ c.cgi.phase = .srvToCgi) ∧ stepStream e c s = (c, s)) ∨
    (c.req.type = .dynamic ∧ c.cgi.phase = .srvToCgi ∧ (c.writes e).1 = false ∧
      stepStream e c s = lisoConnErr (c.logIn (c.writes e).2) 500 s) ∨
    (c.req.type = .dynamic ∧ c.cgi.phase = .srvToCgi ∧ (c.writes e).1 = true ∧ c.req.phase ≠ .done ∧
      stepStream e c s = ({ c.logIn (c.writes e).2 with buf := bufReset c.buf }, s)) ∨
    (c.req.type = .dynamic ∧ c.cgi.phase = .srvToCgi ∧ (c.writes e).1 = true ∧ c.req.phase = .done ∧
      stepStream e c s = ({ c.logIn (c.writes e).2 with
          buf := bufReset c.buf, cgi := { c.cgi with srv_out := none, phase := .cgiToSrv } },
        { s with fds := closePipe c.cgi.srv_out s.fds }.setReadField c.cgi.srv_in)) := by
  unfold stepStream
  by_cases hcond : c.req.type = .dynamic ∧ c.cgi.phase = .srvToCgi
  case neg => exact .inl ⟨hcond, if_neg hcond⟩
  rw [if_pos hcond]
  refine .inr ?_
  cases hw : (c.writes e).1 with
  | false =>
    have hout : cnStreamToCgi e lisoConnErr c s = lisoConnErr (c.logIn (c.writes e).2) 500 s := by
      unfold Conn.writes at hw
      simp only [cnStreamToCgi, hw, Conn.writes, Bool.false_eq_true, if_false]
    refine .inl ⟨hcond.1, hcond.2, rfl, ?_⟩
    rw [hout]
    exact if_neg (by simp)
  | true =>
    have hout : cnStreamToCgi e lisoConnErr c s =
        ({ c.logIn (c.writes e).2 with buf := bufReset c.buf }, s) := by
      unfold Conn.writes at hw
      simp only [cnStreamToCgi, hw, Conn.writes, if_true]
      rfl
    rw [hout]
    by_cases hp : c.req.phase = .done
    · exact .inr (.inr ⟨hcond.1, hcond.2, rfl, hp, if_pos hp⟩)
    · exact .inr (.inl ⟨hcond.1, hcond.2, rfl, hp, if_neg hp⟩)

/-- The section `prepare for select` and the streaming to the CGI. -/
theorem stepStream_rest (e : Env) (hH : Held T A c s) (h : Recvd W c s)
    (hready : c.cgi.phase = .ready → c.req.phase ≠ .done) :
    Rest W (stepStream e c (stepSelect c s)).1 (stepStream e c (stepSelect c s)).2 := by
  -- The bits after `prepare for select`.
  have hsel : Recvd W c (stepSelect c s) ∧
    (c.req.phase = .done → c.fd ∉ (stepSelect c s).pool.read_set) ∧
      (c.req.phase = .done → c.req.type = .static → c.fd ∈ (stepSelect c s).pool.write_set) := by
    unfold stepSelect
    split
    case isFalse => rename_i hp; exact ⟨h, fun hp' => absurd hp' hp, fun hp' => absurd hp' hp⟩
    rename_i hp
    have hrelay : ∀ d, c.cgi.srv_in = some d → d ≠ c.fd := fun d hd =>
      hH.pipe_ne_fd ((Cgi.mem_pipes _ _).2 (.inr (.inl hd)))
    have hopen : ¬ c.Open := by
      rintro (ho | ho | ho) <;> simp [hp] at ho
    dsimp only
    split
    · refine ⟨⟨h.shape, ⟨fun ho => absurd ho hopen, fun hg d hd => ?_, fun hb => ?_⟩,
        fun _ hp' => ?_⟩,
        fun _ => by simp, fun _ _ => by simp⟩
      · simp only [Srv.read_setWrite, Srv.mem_read_clrRead]
        exact ⟨hrelay d hd, h.bits.relay hg d hd⟩
      · simp
      · simp [hp] at hp'
    · rename_i ht
      refine ⟨⟨h.shape, ⟨fun ho => absurd ho hopen, fun hg d hd => ?_, fun hb => ?_⟩,
        fun _ hp' => ?_⟩,
        fun _ => by simp, fun _ ht' => absurd ht' ht⟩
      · simp only [Srv.mem_read_clrRead]
        exact ⟨hrelay d hd, h.bits.relay hg d hd⟩
      · simpa using h.bits.send hb
      · simp [hp] at hp'
  clear h
  obtain ⟨h, hdone, hwrite⟩ := hsel
  generalize stepSelect c s = s at h hdone hwrite
  have hkeep : ¬ (c.req.type = .dynamic ∧ c.cgi.phase = .srvToCgi) → Rest W c s := by
    intro hcond
    refine ⟨h.shape, h.bits, hdone, fun hp hg => ?_, fun w hp => ?_⟩
    · rcases h.shape.of_done hp with ⟨-, hg'⟩ | ⟨ht, -⟩
      · simp [hg] at hg'
      · exact hcond ⟨ht, hg⟩
    · rcases hp with hp | ⟨hp, ht | hg⟩
      · exact h.wake w hp
      · exact hwrite hp ht
      · exact absurd hp (hready hg)
  rcases stepStream_cases e c s with ⟨hcond, he⟩ | ⟨ht, hg, -, he⟩ | ⟨ht, hg, -, hp, he⟩ |
    ⟨ht, hg, -, hp, he⟩ <;> rw [he]
  · exact hkeep hcond
  · -- A write failed, so that the request is not complete any more.
    have herr := h.err 500 (by simp [hg]) (by simp [hg])
    exact (herr.rest_abort rfl).congr rfl rfl rfl
  · refine Rest.congr (c := c) (s := s) ⟨h.shape, h.bits, hdone, fun hp' => absurd hp' hp, ?_⟩
      rfl rfl rfl
    rintro w (hw | ⟨hp', -⟩)
    · exact h.wake w hw
    · exact absurd hp' hp
  · have hb := h.shape.buf_recv (by simp [hg]) (by simp [hg])
    have hcgi : c.resp.phase = .disabled ∧ c.cgi.srv_in ≠ none := by
      rcases h.shape.of_done hp with ⟨-, hg'⟩ | ⟨-, hr, hg' | ⟨-, hin⟩ | hg'⟩
      · simp [hg] at hg'
      · simp [hg] at hg'
      · exact ⟨hr, hin⟩
      · simp [hg] at hg'
    obtain ⟨hr, hin⟩ := hcgi
    refine ⟨.relay hp ht rfl hr hin, ⟨fun ho => ?_, fun _ x hx => ?_, fun hs => ?_⟩, fun _ hd => ?_,
      fun _ => by simp, fun w hw => ?_⟩
    · rcases ho with ho | ho | ho <;> simp [Conn.logIn, hp] at ho
    · exact (Srv.mem_read_setReadField _ _ _).2 (.inl hx)
    · have hs : c.cgi.buf_phase = .send := hs
      simp [hb] at hs
    · rcases (Srv.mem_read_setReadField _ _ _).1 hd with hd | hd
      · exact hH.pipe_ne_fd ((Cgi.mem_pipes _ _).2 (.inr (.inl hd))) rfl
      · exact hdone hp hd
    · simp [Conn.logIn, hp, ht] at hw

/-- The sections between the receipt and the serving, one after the other. -/
theorem stepMiddle_eq {conf : Conf} {c1 c2 : Conn} {s1 s2 : Srv}
    (h1 : stepPrepare conf e c (stepLogerr c s) = (c1, s1)) (h2 : stepInitCgi e c1 s1 = (c2, s2)) :
    stepMiddle conf e c s = stepStream e c2 (stepSelect c2 s2) := by
  simp only [stepMiddle, h1, h2]

/-- The transitions and the streaming to the CGI leave no marks, but perhaps that of a bad
number. -/
theorem stepMiddle_marks (conf : Conf) (e : Env) (c : Conn) (s : Srv) :
    SameMarks False s (stepMiddle conf e c s).2 := by
  have hfield : ∀ (s : Srv) f, SameMarks False s (s.setReadField f) := fun s f => by
    cases f <;> exact ⟨rfl, rfl, fun f => f.elim⟩
  have hlog : SameMarks False s (stepLogerr c s) := by
    unfold stepLogerr
    split
    · exact .refl _ _
    · dsimp only; split <;> exact ⟨rfl, rfl, fun f => f.elim⟩
  have hprep : ∀ s, SameMarks False s (stepPrepare conf e c s).2 := by
    intro s
    unfold stepPrepare cnPrepareStaticHeader
    split
    · dsimp only; split <;> exact ⟨rfl, rfl, fun f => f.elim⟩
    · exact .refl _ _
  have hinit : ∀ c s, SameMarks False s (stepInitCgi e c s).2 := by
    intro c s
    rcases stepInitCgi_cases e c s with ⟨-, h⟩ | ⟨-, -, -, h⟩ | ⟨-, -, -, h⟩ <;> rw [h]
    · exact .refl _ _
    · have :=
        hfield { s with fds := (cgiInit e c.cgi s.fds).2.2 } (cgiInit e c.cgi s.fds).2.1.srv_err
      exact ⟨this.served, this.bad_ptr, fun f => f.elim⟩
    · exact ⟨rfl, rfl, fun f => f.elim⟩
  have hsel : ∀ c s, SameMarks False s (stepSelect c s) := by
    intro c s
    unfold stepSelect
    split
    · dsimp only; split <;> exact ⟨rfl, rfl, fun f => f.elim⟩
    · exact .refl _ _
  have hstream : ∀ c s, SameMarks False s (stepStream e c s).2 := by
    intro c s
    rcases stepStream_cases e c s with ⟨-, h⟩ | ⟨-, -, -, h⟩ | ⟨-, -, -, -, h⟩
      | ⟨-, -, -, -, h⟩ <;> rw [h]
    · exact .refl _ _
    · exact ⟨rfl, rfl, fun f => f.elim⟩
    · exact .refl _ _
    · have := hfield { s with fds := closePipe c.cgi.srv_out s.fds } c.cgi.srv_in
      exact ⟨this.served, this.bad_ptr, fun f => f.elim⟩
  -- The sections one behind the other.
  rcases h1 : stepPrepare conf e c (stepLogerr c s) with ⟨c1, s1⟩
  rcases h2 : stepInitCgi e c1 s1 with ⟨c2, s2⟩
  have hs1 := hprep (stepLogerr c s)
  have hs2 := hinit c1 s1
  rw [h1] at hs1
  rw [h2] at hs2
  rw [stepMiddle_eq h1 h2]
  exact ((((hlog.trans hs1).trans hs2).trans (hsel c2 s2)).trans (hstream c2 _)).mono fun f =>
    f.elim

/-- A part of a visit that keeps to the connection's own descriptors leaves it in possession of
them. -/
theorem Frame.held (h : Frame T A (fun _ => True) c s c' s') (hH : Held T A c s) : Held T A c' s' :=
  (h hH fun _ => trivial).1

/-- A bit that was found set and is acted on. -/
theorem Held.acted (h : Held T A c s) (d : ℕ) : Held T A c ((s.probe d).act d) :=
  (act_frame c (s.probe d) fun _ => trivial).held ((probe_frame c s d).held h)

/-- What the sending of a static response changes of its connection. -/
theorem Held.sent (h : Held T A c s) (data : List Byte) (buf : Buf) (resp : Resp) :
    Held T A { c.logSent data with buf := buf, resp := resp } s := by
  have hframe : Frame T A (fun _ => True) c s { c.logSent data with buf := buf, resp := resp } s :=
    .data id rfl rfl
  exact hframe.held h

/-- The sections between the receipt and the serving. -/
theorem stepMiddle_rest (conf : Conf) (e : Env) (hH : Held False A c s) (h : Recvd W c s) :
    Rest W (stepMiddle conf e c s).1 (stepMiddle conf e c s).2 := by
  have hprep := stepPrepare_recvd conf e (stepLogerr_recvd h)
  obtain ⟨hinit, hready⟩ := stepInitCgi_recvd e hprep
  have hHl : Held False A c (stepLogerr c s) := (stepLogerr_frame c s fun _ _ _ => trivial).held hH
  have hHp := (stepPrepare_frame conf e c (stepLogerr c s) fun f => f.elim).held hHl
  have hHi :=
    (stepInitCgi_frame e _ (stepPrepare conf e c (stepLogerr c s)).2 fun f => f.elim).held hHp
  exact stepStream_rest e hHi hinit hready

end Liso
