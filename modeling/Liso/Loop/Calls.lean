import Liso.Loop.Receive
import Liso.Parse.Stores

/-!
# The calls of the parser in a visit

`visitCalls` lists the calls of `req_parse` in a visit: one when something is received, and one when
a response ends and the next request is handed over. A copy into `host` that is too long leaves the
parser with a request that the model does not follow (`setHost`), so a property of runs is one of
those in which the hosts fit in every call, `Hosted` in every visit; `unmarked_inv` says that no
such copy was made in them.
-/

namespace Liso

variable {conf : Conf} {l : Loop} {c c' : Conn} {s s' : Srv} {e : Env}
  {A : Set ℕ} {n : ℕ}

/-! ## The calls -/

/-- A call of `req_parse`. -/
structure ParseCall where
  /-- The byte that stands in front of the chunk. -/
  before : Byte
  /-- The request before the call. -/
  req : Req
  /-- The chunk `buf_lines`. -/
  lines : List Byte

/-- `cn_parse_req`. -/
def cnParseReqCalls (e : Env) (c : Conn) (last_recv_end : ℕ) : List ParseCall :=
  if c.req.phase = .start ∨ c.req.phase = .header then
    (c.chunk last_recv_end).toList.map fun lines => ⟨e.before, c.req, lines⟩
  else []

/-- `cn_recv`. -/
def cnRecvCalls (e : Env) (c : Conn) : List ParseCall :=
  if c.ssl && !c.ssl_accepted then []
  else if c.req.phase = .abort then []
  else
    let rsize := BUFSZ - c.buf.sz
    if rsize ≤ 0 then []
    else match e.recv.map (·.take rsize.toNat) with
      | none => []
      | some data => if data = [] then [] else cnParseReqCalls e (c.received data) c.buf.data.length

/-- `liso_reset_or_close`. -/
def lisoResetOrCloseCalls (e : Env) (c : Conn) (s : Srv) : List ParseCall :=
  if c.req.alive then
    let (c, _) := plResetConn s c.archive
    if c.req.last_buf.sz ≠ 0 then cnParseReqCalls e c.handed 0 else []
  else []

/-- `cn_serve_static`. -/
def cnServeStaticCalls (conf : Conf) (e : Env) (c : Conn) (s : Srv) : List ParseCall :=
  (cnServeStatic conf e noteEnd noteFail c s).ended.toList.flatMap fun p =>
    lisoResetOrCloseCalls e p.1 p.2

/-- `cn_serve_dynamic`. -/
def cnServeDynamicCalls (e : Env) (c : Conn) (s : Srv) : List ParseCall :=
  if c.buf.rsize = 0 ∧ c.cgi.phase = .done then lisoResetOrCloseCalls e c s else []

/-- Every call in a visit. -/
def visitCalls (conf : Conf) (e : Env) (c : Conn) (s : Srv) : List ParseCall :=
  (if s.readReady c.fd then cnRecvCalls e c else []) ++
  ((beforeSend conf e c s).toList.flatMap fun p =>
    if p.2.writeReady p.1.fd ∧ p.1.cgi.buf_phase = .send then cnServeDynamicCalls e p.1 p.2
      else []) ++
  (beforeStatic conf e c s).toList.flatMap fun p =>
    if p.2.writeReady p.1.fd ∧ p.1.resp.phase ≠ .disabled then cnServeStaticCalls conf e p.1 p.2
      else []

/-! ## The mark -/

/-- The hosts fit in every call of a visit. -/
def Hosted (conf : Conf) (e : Env) (c : Conn) (s : Srv) : Prop :=
  ∀ k ∈ visitCalls conf e c s, HostsFit k.req k.lines

/-- `Hosted` is decidable. -/
instance (c : Conn) (s : Srv) : Decidable (Hosted conf e c s) :=
  inferInstanceAs (Decidable (∀ k ∈ visitCalls conf e c s, HostsFit k.req k.lines))

/-- No copy into the `host` of the request was too long. -/
def Conn.Unmarked (c : Conn) : Prop := c.req.overrun = false

/-- The counting of the body leaves the mark alone. -/
theorem cnCountBody_overrun (c : Conn) : (cnCountBody c).req.overrun = c.req.overrun := by
  by_cases hp : c.req.phase = .body
  · cases ht : c.req.type with
    | static => rw [cnCountBody_static hp ht]; rfl
    | dynamic => rw [cnCountBody_dynamic hp ht]; rfl
  · rw [cnCountBody_other hp]

/-- `cn_parse_req` makes no copy that is too long. -/
theorem cnParseReq_unmarked (e : Env) (s : Srv) (h : c.Unmarked)
    (hfit : ∀ k ∈ cnParseReqCalls e c n, HostsFit k.req k.lines) :
    (cnParseReq e lisoConnErr c n s).1.Unmarked := by
  by_cases hp : c.req.phase = .start ∨ c.req.phase = .header
  · have hcall : ∀ lines, c.chunk n = some lines →
        (reqParse e.before c.req lines).2.overrun = false := by
      intro lines hl
      refine (reqParse_overrun hp e.before (chunk_last hl)).2 ⟨h, ?_⟩
      exact hfit ⟨e.before, c.req, lines⟩ (by simp [cnParseReqCalls, hp, hl])
    rcases cnParseReq_head e c n s hp with ⟨-, he⟩ | ⟨lines, hl, -, q, he⟩ | ⟨lines, hl, -, he⟩
      <;> rw [he]
    · exact h
    · exact hcall lines hl
    · exact (cnCountBody_overrun _).trans (hcall lines hl)
  · rw [cnParseReq_tail e c n s hp]
    exact (cnCountBody_overrun c).trans h

/-- The section `recv` makes no copy that is too long. -/
theorem stepRecv_unmarked (hidx : c.idx < s.pool.conns.length) (h : c.Unmarked)
    (hfit : s.readReady c.fd → ∀ k ∈ cnRecvCalls e c, HostsFit k.req k.lines) :
    (stepRecv e c s).Post (fun c' _ => c'.Unmarked) (fun _ => True) := by
  have hignore : ∀ (c₁ : Conn) (s₁ : Srv), c₁.idx < s₁.pool.conns.length → c₁.Unmarked →
      (recvIgnore e lisoDropConn c₁ s₁).Post (fun c' _ => c'.Unmarked) (fun _ => True) := by
    intro c₁ s₁ hidx h
    refine (recvIgnore_post e hidx).mono ?_ fun _ h => h
    rintro c' - ⟨data, -, -, -, rfl⟩
    exact h
  unfold stepRecv
  dsimp only
  split
  case isFalse => exact (Ret.post_some _ _).2 h
  rename_i hready
  -- The calls of `req_parse` follow the branches of `cn_recv`.
  have hcalls := hfit hready
  unfold cnRecvCalls at hcalls
  unfold cnRecv
  split
  · split
    · exact lisoDropConn_gone hidx
    split
    · exact (Ret.post_some _ _).2 h
    · exact (Ret.post_some _ _).2 h
  rename_i hssl
  rw [if_neg hssl] at hcalls
  split
  · exact hignore _ _ hidx h
  rename_i hp
  rw [if_neg hp] at hcalls
  dsimp only at hcalls ⊢
  split
  · exact hignore _ _ hidx h
  rename_i hfull
  rw [if_neg hfull] at hcalls
  split
  · exact lisoDropConn_gone hidx
  rename_i data hdata
  rw [hdata] at hcalls
  dsimp only at hcalls
  split
  · exact lisoDropConn_gone hidx
  rename_i hne
  rw [if_neg hne] at hcalls
  exact (Ret.post_some _ _).2 (cnParseReq_unmarked e _ h hcalls)

/-- The sections behind it do not touch the request, apart from its phase. -/
theorem stepMiddle_overrun (conf : Conf) (e : Env) (c : Conn) (s : Srv) :
    (stepMiddle conf e c s).1.req.overrun = c.req.overrun := by
  have hprep : (stepPrepare conf e c (stepLogerr c s)).1.req.overrun = c.req.overrun := by
    unfold stepPrepare
    split
    · unfold cnPrepareStaticHeader
      dsimp only
      split <;> rfl
    · rfl
  unfold stepMiddle
  dsimp only
  rw [← hprep]
  generalize stepPrepare conf e c (stepLogerr c s) = q
  have hinit : (stepInitCgi e q.1 q.2).1.req.overrun = q.1.req.overrun := by
    rcases stepInitCgi_cases e q.1 q.2 with ⟨-, he⟩ | ⟨-, -, -, he⟩ | ⟨-, -, -, he⟩ <;> rw [he]
    rfl
  rw [← hinit]
  generalize stepInitCgi e q.1 q.2 = q'
  rcases stepStream_cases e q'.1 (stepSelect q'.1 q'.2) with ⟨-, he⟩ | ⟨-, -, -, he⟩
    | ⟨-, -, -, -, he⟩ | ⟨-, -, -, -, he⟩ <;> rw [he]
  all_goals rfl

/-- The reading of a CGI's output leaves the mark alone. -/
theorem stepFromCgi_overrun (e : Env) (c : Conn) (s : Srv) :
    (stepFromCgi e c s).1.req.overrun = c.req.overrun := by
  rcases stepFromCgi_cases e c s with ⟨s', he, -⟩ | ⟨d, -, -, -, -, ⟨-, he⟩ | ⟨data, -, -, he⟩
    | ⟨-, he⟩⟩ <;> rw [he]
  all_goals rfl

/-- The success callback makes no copy that is too long. -/
theorem lisoResetOrClose_unmarked (e : Env) (hidx : c.idx < s.pool.conns.length) (h : c.Unmarked)
    (s₁ : Srv) (hfit : ∀ k ∈ lisoResetOrCloseCalls e c s₁, HostsFit k.req k.lines) :
    (lisoResetOrClose e c s).Post (fun c' _ => c'.Unmarked) (fun _ => True) := by
  rcases lisoResetOrClose_cases e c s with ⟨-, he⟩ | ⟨-, -, he⟩ | ⟨ha, hz, he⟩ <;> rw [he]
  · exact lisoDropConn_gone hidx
  · exact (Ret.post_some _ _).2 h
  · have hcalls : lisoResetOrCloseCalls e c s₁ =
        cnParseReqCalls e (plResetConn (s.serve c) c.archive).1.handed 0 := by
      unfold lisoResetOrCloseCalls
      rw [if_pos ha]
      exact if_pos hz
    refine (Ret.post_some _ _).2 ?_
    unfold Conn.Unmarked
    rw [handOver_conn]
    exact cnParseReq_unmarked e _ h (hcalls ▸ hfit)

/-- The sending of a CGI's output makes no copy that is too long. -/
theorem stepToClient_unmarked (e : Env) (h0 : 0 < c.fd) (hidx : c.idx < s.pool.conns.length)
    (h : c.Unmarked)
    (hfit : s.writeReady c.fd ∧ c.cgi.buf_phase = .send →
      ∀ k ∈ cnServeDynamicCalls e c s, HostsFit k.req k.lines) :
    (stepToClient e c s).Post (fun c' _ => c'.Unmarked) (fun _ => True) := by
  rcases stepToClient_cases e c s h0 with ⟨-, he⟩ | ⟨hw, hb, ⟨hz, hg, he⟩ | ⟨-, ⟨-, he⟩ | ⟨-, he⟩⟩⟩
    <;> rw [he]
  · exact (Ret.post_some _ _).2 h
  · have hcalls := hfit ⟨decide_eq_true hw, hb⟩
    rw [cnServeDynamicCalls, if_pos ⟨hz, hg⟩] at hcalls
    refine (lisoResetOrClose_unmarked (s := (s.probe c.fd).act c.fd) e hidx h s hcalls).andThen
      fun c1 _ h1 => ?_
    split
    · exact (Ret.post_some _ _).2 h1
    · exact (Ret.post_some _ _).2 h1
  · exact lisoDropConn_gone hidx
  · exact (Ret.post_some _ _).2 h

/-- The sending of a static response makes no copy that is too long. -/
theorem stepStatic_unmarked (conf : Conf) (e : Env) (hidx : c.idx < s.pool.conns.length)
    (h : c.Unmarked)
    (hfit : s.writeReady c.fd ∧ c.resp.phase ≠ .disabled →
      ∀ k ∈ cnServeStaticCalls conf e c s, HostsFit k.req k.lines) :
    (stepStatic conf e c s).Post (fun c' _ => c'.Unmarked) (fun _ => True) := by
  unfold stepStatic
  dsimp only
  split
  case isFalse => exact (Ret.post_some _ _).2 h
  rename_i hcond
  have hcalls := hfit hcond
  -- The callback is given the connection that one that only reports is given.
  obtain ⟨c₁, ⟨buf, resp, data, rfl⟩, hout | ⟨-, hout⟩ | ⟨b, hout⟩⟩ :=
    cnServeStatic_cases conf e c <;> rw [hout]
  · exact lisoDropConn_gone hidx
  · refine lisoResetOrClose_unmarked (s := (s.probe c.fd).act c.fd) e hidx h s fun k hk => ?_
    refine hcalls k (List.mem_flatMap.2 ⟨(_, s), ?_, hk⟩)
    rw [hout, noteEnd, Ret.ended]
    simp
  · exact (Ret.post_some _ _).2 h

/-- A visit in which the hosts fit makes no copy that is too long. -/
theorem visit_unmarked (h0 : c.fd ≠ 0) (hH : Held False A c s) (hready : Ready c s)
    (hR : Rest False c s) (h : c.Unmarked) (hfit : Hosted conf e c s) :
    (visit conf e c s).Post (fun c' s' => Rest False c' s' ∧ c'.Unmarked) (fun _ => True) := by
  have hrecv := stepRecv_unmarked (e := e) hH.idx h fun hr k hk => hfit k <| by
    simp only [visitCalls, List.mem_append]
    exact .inl (.inl (by rw [if_pos hr]; exact hk))
  refine visit_stages (R := fun c _ => c.Unmarked) (M := fun c _ => c.Unmarked)
    (D := fun c _ => c.Unmarked) (B := fun c _ => c.Unmarked) (L := fun c _ => c.Unmarked)
    h0 hH hready hR (fun f => f.elim) hrecv ?_ ?_ ?_ ?_ ?_
  · exact fun p _ _ _ hr => (stepMiddle_overrun conf e p.1 p.2).trans hr
  · exact fun p _ _ _ hm => hm
  · exact fun p _ _ _ _ hm => (stepFromCgi_overrun e p.1 p.2).trans hm
  · refine fun p hp hpos hH' _ hd => stepToClient_unmarked e hpos hH'.idx hd fun hs k hk => ?_
    refine hfit k ?_
    simp only [visitCalls, List.mem_append, List.mem_flatMap]
    exact .inl (.inr ⟨p, Option.mem_toList.2 hp, by rw [if_pos hs]; exact hk⟩)
  · refine fun p hp hH' _ hb => stepStatic_unmarked conf e hH'.idx hb fun hs k hk => ?_
    refine hfit k ?_
    simp only [visitCalls, List.mem_append, List.mem_flatMap]
    exact .inr ⟨p, Option.mem_toList.2 hp, by rw [if_pos hs]; exact hk⟩

/-- No copy into a `host` was too long in the runs in which the hosts fit. -/
theorem unmarked_inv (h : Reach conf (Visiting (Hosted conf)) l) :
    ∀ c ∈ l.srv.pool.conns, c.Unmarked := by
  refine fun c hc => ((reach_local (L := fun c s => Rest False c s ∧ c.Unmarked)
    (S := fun _ => True) ?_ trivial ?_ ?_ h).1 c hc).2
  · exact ⟨fun c s i h => ⟨Rest.stable.idx c s i h.1, h.2⟩,
      fun c s s' h hk => ⟨Rest.stable.keep c s s' h.1 hk, h.2⟩⟩
  · rintro c s ha - hr hw
    refine ⟨ha.rest hr hw, ?_⟩
    obtain ⟨fd, idx, mem, id, addr, port, scheme, ssl, rfl⟩ := ha
    rfl
  · intro l ev i m c hl hok hpc hc hH hready hL _
    have h0 : c.fd ≠ 0 := fun he => hH.fd_notMem (he ▸ .inl hl.zero_mem)
    exact (visit_unmarked h0 hH hready hL.1 hL.2 (hok i m hpc c hc)).mono
      (fun _ _ h => ⟨h, trivial⟩) fun _ h => h

end Liso
