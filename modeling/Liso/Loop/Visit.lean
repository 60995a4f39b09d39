import Liso.Loop.Frame
import Liso.Parse.Fields

/-!
# Every handler respects the other connections

`Went` is what a part of a visit does to descriptors: it keeps those of the other connections, and
the connection holds its own again or is gone. The lemmas follow `conn.c` and the main loop,
function by function; `visit_frame` is the one that the later modules use.
-/

namespace Liso

variable {T : Prop} {A : Set ℕ} {G : ℕ × Option ℕ → Prop} {c c' : Conn} {s s' : Srv} {e : Env}
  {conf : Conf}

/-- A part of a visit, from the connection `c` and the server `s` to the outcome `r`. -/
def Went (T : Prop) (A : Set ℕ) (G : ℕ × Option ℕ → Prop) (c : Conn) (s : Srv) (r : Ret) : Prop :=
  Held T A c s → FdActs G c s →
    r.Post (fun c' s' => Held T A c' s' ∧ Moves A G c s c' s') (Gone T A G c s)

/-- The part that a step begins. -/
theorem Went.after {r : Ret} (hr : Went T A G c' s' r) (h : Frame T A G c s c' s') :
    Went T A G c s r := by
  intro hH hG
  obtain ⟨hH', hM⟩ := h hH hG
  exact (hr hH' (hM.fdActs hG)).mono (fun _ _ h => ⟨h.1, hM.trans h.2⟩) fun _ h => hM.gone h

/-- A handler that returns its connection after a step. -/
theorem Frame.ret (h : Frame T A G c s c' s') : Went T A G c s ⟨1, some c', s'⟩ :=
  fun hH hG => (Ret.post_some c' s').2 (h hH hG)

/-- A connection that is dropped went. -/
theorem Went.drop (c : Conn) (s : Srv) : Went T A G c s (lisoDropConn c s) :=
  fun hH hG => (lisoDropConn_frame hH hG).mono (fun _ _ h => h.elim) fun _ h => h

/-- Two parts of a visit went when the first did, and the second did from there. -/
theorem Went.andThen {r : Ret} {f : Conn → Srv → Ret} (h : Went T A G c s r)
    (hf : ∀ c', r.conn = some c' → Went T A G c' r.srv (f c' r.srv)) :
    Went T A G c s (r.andThen f) := by
  intro hH hG
  refine (h hH hG).andThen fun c' hc h' => ?_
  exact (hf c' hc h'.1 (h'.2.fdActs hG)).mono (fun _ _ h => ⟨h.1, h'.2.trans h.2⟩) fun _ h =>
    h'.2.gone h

/-! ## Callbacks and parsing -/

/-- `liso_conn_err` touches the bits of the connection's own socket only. -/
theorem lisoConnErr_frame (c : Conn) (status : ℤ) (s : Srv) :
    Frame T A G c s (lisoConnErr c status s).1 (lisoConnErr c status s).2 := by
  have h : Frame T A G c s (lisoConnErr c status s).1 s := .data id rfl rfl
  exact h.trans .setWrite

/-- The parsing touches no descriptors, but the bits of the socket when the head is refused. -/
theorem cnParseLines_frame (e : Env) (c : Conn) (n : ℕ) (s : Srv) :
    Frame T A G c s (cnParseLines e lisoConnErr c n s).2.1
      (cnParseLines e lisoConnErr c n s).2.2 := by
  unfold cnParseLines
  dsimp only
  split
  · split
    · exact .refl _ _
    · split
      · exact .refl _ _
      · rename_i q _ _
        have hp := reqParse_parses e.before c.req ((c.buf.data.take q).drop c.buf.data_p)
        generalize reqParse e.before c.req ((c.buf.data.take q).drop c.buf.data_p) = out at hp ⊢
        have hq : ∀ buf, Conn.Quiet { c with req := out.2, buf := buf } → c.Quiet := fun buf h =>
          Or.imp_left hp.type h
        have hd : ∀ buf, Frame T A G c s { c with req := out.2, buf := buf } s := fun buf =>
          .data (hq buf) rfl rfl
        split
        · exact (hd _).trans (lisoConnErr_frame _ _ _)
        · exact hd _
  · exact .refl _ _

/-- The counting of the body touches the connection only. -/
theorem cnCountBody_frame (c : Conn) (s : Srv) : Frame T A G c s (cnCountBody c) s := by
  by_cases h : c.req.phase = .body
  case neg => rw [cnCountBody_other h]; exact .refl _ _
  cases ht : c.req.type with
  | static =>
    rw [cnCountBody_static h ht]
    exact .data (fun _ => .inl ht) rfl rfl
  | dynamic =>
    rw [cnCountBody_dynamic h ht]
    refine .data (fun hq => .inr ?_) rfl rfl
    rcases hq with hq | hq | hq
    · rw [Conn.counted] at hq
      simp [ht] at hq
    · dsimp only at hq
      split_ifs at hq with hi
      exact absurd hq hi
    · dsimp only at hq
      split_ifs at hq with hi
      · exact .inl hi
      · exact .inr hq

/-- `cn_parse_req` touches nothing of the others. -/
theorem cnParseReq_frame (e : Env) (c : Conn) (n : ℕ) (s : Srv) :
    Frame T A G c s (cnParseReq e lisoConnErr c n s).1 (cnParseReq e lisoConnErr c n s).2 := by
  have h := cnParseLines_frame (T := T) (A := A) (G := G) e c n s
  unfold cnParseReq
  generalize cnParseLines e lisoConnErr c n s = out at h
  obtain ⟨early, c', s'⟩ := out
  cases early with
  | true => exact h
  | false => exact h.trans (cnCountBody_frame _ _)

/-- The taking over of what `last_buf` holds touches nothing of the others. -/
theorem handOver_frame (e : Env) (c : Conn) (s : Srv) :
    Frame T A G c s (handOver e c s).1 (handOver e c s).2 := by
  unfold handOver
  dsimp only
  generalize hc : ({ c with
    buf := { c.buf with data := c.req.last_buf.data }
    req := { c.req with last_buf := bufReset c.req.last_buf }
    wire := { c.wire with cur := { c.wire.cur with inp := c.req.last_buf.data } } } : Conn) = c1
  have h1 : Frame T A G c s c1 s := hc ▸ .data id rfl rfl
  have h2 := h1.trans (cnParseReq_frame e c1 0 s)
  generalize cnParseReq e lisoConnErr c1 0 s = out at h2 ⊢
  split
  · exact h2.trans (Frame.trans (.clrRead (.inl rfl)) .setWrite)
  · exact h2

/-- `liso_reset_or_close` keeps the connection, or drops it with its descriptors. -/
theorem lisoResetOrClose_frame (e : Env) (c : Conn) (s : Srv) :
    Went T A G c s (lisoResetOrClose e c s) := by
  unfold lisoResetOrClose
  dsimp only
  have h1 : ∀ x, Frame T A G c s c { s with served := x } := fun _ =>
    .data id rfl rfl
  split
  · have h2 : Frame T A G c { s with served := ⟨c.wire.id, c.cgi.phase, c.wire.cur⟩ :: s.served }
        c.archive { s with served := ⟨c.wire.id, c.cgi.phase, c.wire.cur⟩ :: s.served } :=
      .data id rfl rfl
    have h3 := ((h1 _).trans h2).trans (.reset _ _)
    split
    · exact (h3.trans (handOver_frame e _ _)).ret
    · exact h3.ret
  · exact (Went.drop _ _).after (h1 _)

/-! ## Handlers -/

/-- `recv_ignore` keeps the connection, or drops it. -/
theorem recvIgnore_frame (e : Env) (c : Conn) (s : Srv) :
    Went T A G c s (recvIgnore e lisoDropConn c s) := by
  unfold recvIgnore
  split
  · exact .drop _ _
  · dsimp only
    split
    · exact (Went.drop _ _).after (.data id rfl rfl)
    · exact Frame.ret (.data id rfl rfl)

/-- `cn_recv` keeps the connection, or drops it. -/
theorem cnRecv_frame (e : Env) (c : Conn) (s : Srv) :
    Went T A G c s (cnRecv e lisoConnErr lisoDropConn c s) := by
  unfold cnRecv
  dsimp only
  split
  · split
    · exact (Went.drop _ _).after (.data id rfl rfl)
    · split
      · exact Frame.ret (.refl _ _)
      · exact Frame.ret (.data id rfl rfl)
  · split
    · exact recvIgnore_frame _ _ _
    · split
      · exact (recvIgnore_frame _ _ _).after (lisoConnErr_frame _ _ _)
      · split
        · exact (Went.drop _ _).after (.data id rfl rfl)
        · split
          · exact (Went.drop _ _).after (.data id rfl rfl)
          · refine Frame.ret (Frame.trans ?_ (cnParseReq_frame _ _ _ _))
            exact .data id rfl rfl

/-- No file of those that building a response to `req` tries is opened without being mapped. -/
def NoFileLeak (conf : Conf) (e : Env) (req : Req) : Prop :=
  ∀ path, (respPaths req conf).find? e.fs.openable = some path → e.fs.mmap path ≠ none

/-- `NoFileLeak` is decidable. -/
instance (req : Req) : Decidable (NoFileLeak conf e req) :=
  inferInstanceAs
    (Decidable (∀ path ∈ (respPaths req conf).find? e.fs.openable, e.fs.mmap path ≠ none))

/-- A CGI that gets its first pipe gets all three. -/
def NoPipeLeak (e : Env) : Prop := e.pipe_in = true → e.pipe_out = true ∧ e.pipe_err = true

/-- `NoPipeLeak` is decidable. -/
instance : Decidable (NoPipeLeak e) := inferInstanceAs (Decidable (_ → _))

/-- `cn_prepare_static_header` touches nothing of the others; under `T` it opens nothing that stays
open. -/
theorem cnPrepareStaticHeader_frame (conf : Conf) (e : Env) (c : Conn) (s : Srv)
    (hT : T → NoFileLeak conf e c.req) :
    Frame T A G c s (cnPrepareStaticHeader conf e lisoConnErr c s).1
      (cnPrepareStaticHeader conf e lisoConnErr c s).2 := by
  have h :=
    Frame.respBuild (A := A) (G := G) (s := s) (c := c)
      (respBuild e.fs e.pick c.resp c.req conf s.fds).2.1
    c.req hT
  unfold cnPrepareStaticHeader
  dsimp only
  split
  · exact h.trans (lisoConnErr_frame _ _ _)
  · exact h.trans (.data id rfl rfl)

/-- `cn_send_error_page` keeps the connection, or drops it. -/
theorem cnSendErrorPage_frame (conf : Conf) (e : Env) (c : Conn) (s : Srv) :
    Went T A G c s (cnSendErrorPage conf e (lisoResetOrClose e) lisoDropConn c s) := by
  unfold cnSendErrorPage
  dsimp only
  split
  · exact (Went.drop _ _).after (.data id rfl rfl)
  · split
    · exact (lisoResetOrClose_frame _ _ _).after (.data id rfl rfl)
    · exact Frame.ret (.data id rfl rfl)

/-- `cn_serve_static` keeps the connection, or drops it. -/
theorem cnServeStatic_frame (conf : Conf) (e : Env) (c : Conn) (s : Srv) :
    Went T A G c s (cnServeStatic conf e (lisoResetOrClose e) lisoDropConn c s) := by
  unfold cnServeStatic
  split
  · exact cnSendErrorPage_frame _ _ _ _
  · dsimp only
    split
    · exact .drop _ _
    · generalize hc : Conn.logSent _ _ = c1
      have h : Frame T A G c s c1 s := hc ▸ .data id rfl rfl
      split
      · exact (lisoResetOrClose_frame _ _ _).after h
      · split
        · exact Frame.ret (h.trans (.data id rfl rfl))
        · split
          · exact (lisoResetOrClose_frame _ _ _).after h
          · exact Frame.ret h
  · split
    · exact Frame.ret (.data id rfl rfl)
    · dsimp only
      split
      · exact .drop _ _
      · split
        · exact (lisoResetOrClose_frame _ _ _).after (.data id rfl rfl)
        · exact Frame.ret (.data id rfl rfl)
  · exact Frame.ret (.refl _ _)
  · exact Frame.ret (.refl _ _)

/-- `cn_init_cgi` opens pipes for the connection; under `T` it leaves no others open. -/
theorem cnInitCgi_frame (e : Env) (c : Conn) (s : Srv) (ht : c.req.type = .dynamic)
    (hg : c.cgi.phase = .ready) (hT : T → NoPipeLeak e) :
    Frame T A G c s (cnInitCgi e lisoCgiInited lisoConnErr c s).1
      (cnInitCgi e lisoCgiInited lisoConnErr c s).2 := by
  have h : ∀ p, p ≠ .idle → p ≠ .ready → Frame T A G c s
      { c with cgi := { (cgiInit e c.cgi s.fds).2.1 with phase := p } }
      { s with fds := (cgiInit e c.cgi s.fds).2.2 } := fun p h1 h2 =>
    .initCgi p (.inr (.inr hg)) (by simp [Conn.Quiet, ht, h1, h2]) hT
  have h1 := h .srvToCgi (by simp) (by simp)
  have h2 := h .abort (by simp) (by simp)
  unfold cnInitCgi
  generalize cgiInit e c.cgi s.fds = out at h1 h2
  obtain ⟨ok, g, t⟩ := out
  cases ok with
  | true => exact h1.trans (.setReadField (.inr rfl))
  | false =>
    refine Frame.trans (h2.trans ?_) (lisoConnErr_frame _ _ _)
    exact .data id rfl rfl

/-- `cn_stream_to_cgi` touches nothing of the others. -/
theorem cnStreamToCgi_frame (e : Env) (c : Conn) (s : Srv) :
    Frame T A G c s (cnStreamToCgi e lisoConnErr c s).1 (cnStreamToCgi e lisoConnErr c s).2 := by
  unfold cnStreamToCgi
  dsimp only
  split
  · exact .data id rfl rfl
  · refine Frame.trans ?_ (lisoConnErr_frame _ _ _)
    exact .data id rfl rfl

/-- `cn_stream_from_cgi` touches nothing of the others. -/
theorem cnStreamFromCgi_frame (e : Env) (c : Conn) (s : Srv) :
    Frame T A G c s (cnStreamFromCgi e lisoConnErr c s).1
      (cnStreamFromCgi e lisoConnErr c s).2 := by
  unfold cnStreamFromCgi
  split
  · refine Frame.trans ?_ (lisoConnErr_frame _ _ _)
    refine .data (fun hq => ?_) rfl rfl
    rcases hq with hq | hq | hq
    · exact .inl hq
    · simp at hq
    · simp at hq
  · refine .data (fun hq => ?_) rfl rfl
    rcases hq with hq | hq | hq
    · exact .inl hq
    all_goals
      dsimp only at hq
      split_ifs at hq
      simp [Conn.Quiet, hq]

/-- `cn_serve_dynamic` keeps the connection, or drops it. -/
theorem cnServeDynamic_frame (e : Env) (c : Conn) (s : Srv) :
    Went T A G c s (cnServeDynamic e (lisoResetOrClose e) lisoDropConn c s) := by
  unfold cnServeDynamic
  dsimp only
  split
  · exact lisoResetOrClose_frame _ _ _
  · split
    · exact .drop _ _
    · exact Frame.ret (.data id rfl rfl)

/-! ## The sections of a visit -/

/-- To look at a bit changes the mark only. -/
theorem probe_frame (c : Conn) (s : Srv) (d : ℕ) : Frame T A G c s c (s.probe d) := .data id rfl rfl

/-- Acting on a bit that is good to act on. -/
theorem act_frame (c : Conn) (s : Srv) {d : ℕ} (hd : FdActs G c s → G (d, s.fds.obj d)) :
    Frame T A G c s c (s.act d) := by
  intro hH hG
  have h : ∀ x ∈ (s.act d).acts, x ∈ s.acts ∨ G x := by
    intro x hx
    rcases List.mem_cons.1 hx with rfl | hx
    · exact .inr (hd hG)
    · exact .inl hx
  exact ⟨⟨hH.idx, hH.nodup, hH.own, hH.others, hH.apart, hH.read, hH.write, hH.tight, hH.quiet⟩,
    ⟨rfl, rfl, rfl, rfl, .of_eq rfl rfl rfl, rfl, rfl, rfl, rfl, rfl, rfl, h⟩⟩

/-- The section `recv` keeps the connection, or drops it. -/
theorem stepRecv_frame (e : Env) (c : Conn) (s : Srv) : Went T A G c s (stepRecv e c s) := by
  unfold stepRecv
  dsimp only
  split
  · rename_i h
    exact (cnRecv_frame _ _ _).after ((probe_frame _ _ _).trans
      (act_frame _ _ fun hG => hG (.inl (of_decide_eq_true h))))
  · exact Frame.ret (probe_frame _ _ _)

/-- The section that logs the CGI's errors acts on the connection's own pipe only. -/
theorem stepLogerr_frame (c : Conn) (s : Srv)
    (herr : ∀ d, c.cgi.srv_err = some d → d ∈ s.pool.read_ready → G (d, s.fds.obj d)) :
    Frame T A G c s c (stepLogerr c s) := by
  unfold stepLogerr
  split
  · exact .refl _ _
  · rename_i d hd
    dsimp only
    split
    · rename_i h
      exact (probe_frame _ _ _).trans
        (act_frame _ _ fun _ => herr d hd (of_decide_eq_true h))
    · exact probe_frame _ _ _

/-- The calls of `resp_mmap` and `cgi_init` in one visit leave no descriptor behind. -/
structure NoLeak (conf : Conf) (e : Env) (c : Conn) : Prop where
  /-- The files. -/
  file : c.req.type = .static → c.req.phase = .done → c.resp.phase = .ready →
    NoFileLeak conf e c.req
  /-- The pipes. -/
  pipe : c.req.type = .dynamic → c.cgi.phase = .ready → NoPipeLeak e

/-- `NoLeak` is decidable. -/
instance : Decidable (NoLeak conf e c) :=
  decidable_of_iff ((c.req.type = .static → c.req.phase = .done → c.resp.phase = .ready →
      NoFileLeak conf e c.req) ∧ (c.req.type = .dynamic → c.cgi.phase = .ready → NoPipeLeak e))
    ⟨fun h => ⟨h.1, h.2⟩, fun h => ⟨h.file, h.pipe⟩⟩

/-- The first transition touches nothing of the others. -/
theorem stepPrepare_frame (conf : Conf) (e : Env) (c : Conn) (s : Srv) (hT : T → NoLeak conf e c) :
    Frame T A G c s (stepPrepare conf e c s).1 (stepPrepare conf e c s).2 := by
  unfold stepPrepare
  split
  · rename_i h
    exact cnPrepareStaticHeader_frame _ _ _ _ fun t => (hT t).file h.1 h.2.1 h.2.2
  · exact .refl _ _

/-- The start of the CGI touches nothing of the others. -/
theorem stepInitCgi_frame (e : Env) (c : Conn) (s : Srv)
    (hT : T → c.req.type = .dynamic → c.cgi.phase = .ready → NoPipeLeak e) :
    Frame T A G c s (stepInitCgi e c s).1 (stepInitCgi e c s).2 := by
  unfold stepInitCgi
  split
  · rename_i h
    exact cnInitCgi_frame e c s h.1 h.2 fun t => hT t h.1 h.2
  · exact .refl _ _

/-- The watching of the CGI's output touches the bits of the connection's own pipe. -/
theorem stepSelect_frame (c : Conn) (s : Srv) : Frame T A G c s c (stepSelect c s) := by
  unfold stepSelect
  split
  · dsimp only
    split
    · exact Frame.trans (.clrRead (.inl rfl)) .setWrite
    · exact .clrRead (.inl rfl)
  · exact .refl _ _

/-- Streaming to the CGI does not change which request is served. -/
theorem cnStreamToCgi_kind (e : Env) (c : Conn) (s : Srv) :
    (cnStreamToCgi e lisoConnErr c s).1.req.type = c.req.type ∧
      (cnStreamToCgi e lisoConnErr c s).1.cgi = c.cgi := by
  unfold cnStreamToCgi
  dsimp only
  split <;> exact ⟨rfl, rfl⟩

/-- The streaming to the CGI touches nothing of the others. -/
theorem stepStream_frame (e : Env) (c : Conn) (s : Srv) :
    Frame T A G c s (stepStream e c s).1 (stepStream e c s).2 := by
  unfold stepStream
  split
  · rename_i h
    have hF := cnStreamToCgi_frame (T := T) (A := A) (G := G) e c s
    obtain ⟨ht, hg⟩ := cnStreamToCgi_kind e c s
    generalize cnStreamToCgi e lisoConnErr c s = out at hF ht hg ⊢
    obtain ⟨c1, s1⟩ := out
    dsimp only at hF ht hg ⊢
    split
    · have hq : ¬ c1.Quiet := by simp [Conn.Quiet, ht, hg, h.1, h.2]
      exact hF.trans ((Frame.closeOut hq).trans (.setReadField (.inl rfl)))
    · exact hF
  · exact .refl _ _

/-- Streaming from the CGI does not change which request is served. -/
theorem cnStreamFromCgi_kind (e : Env) (c : Conn) (s : Srv) :
    (cnStreamFromCgi e lisoConnErr c s).1.req.type = c.req.type ∧
      (cnStreamFromCgi e lisoConnErr c s).1.fd = c.fd := by
  unfold cnStreamFromCgi
  split <;> exact ⟨rfl, rfl⟩

/-- The reading of the CGI's output acts on the connection's own pipe only. -/
theorem stepFromCgi_frame (e : Env) (c : Conn) (s : Srv) (ht : c.req.type = .dynamic)
    (hin : ∀ d, c.cgi.srv_in = some d → d ≠ 0 → d ∈ s.pool.read_ready → c.cgi.phase = .cgiToSrv →
      c.cgi.buf_phase = .recv → G (d, s.fds.obj d)) :
    Frame T A G c s (stepFromCgi e c s).1 (stepFromCgi e c s).2 := by
  unfold stepFromCgi
  split
  · exact .refl _ _
  · split
    · exact .refl _ _
    · rename_i d hd h0
      dsimp only
      split
      · rename_i h
        have hact : Frame T A G c (s.probe d) c ((s.probe d).act d) :=
          act_frame _ _ fun _ => hin d hd h0 (of_decide_eq_true h.1) h.2.1 h.2.2
        have hF := (probe_frame _ _ _).trans
          (hact.trans (cnStreamFromCgi_frame e c ((s.probe d).act d)))
        obtain ⟨ht', -⟩ := cnStreamFromCgi_kind e c ((s.probe d).act d)
        generalize cnStreamFromCgi e lisoConnErr c ((s.probe d).act d) = out at hF ht' ⊢
        obtain ⟨c1, s1⟩ := out
        dsimp only at hF ht' ⊢
        have hF' :
          Frame T A G c s c1 (if c1.cgi.buf_phase = .send then s1.setWrite c1.fd else s1) := by
          split
          · exact hF.trans .setWrite
          · exact hF
        split
        · rename_i hdone
          exact hF'.trans (.dropIn (by simp [Conn.Quiet, ht', ht, hdone]))
        · exact hF'
      · exact probe_frame _ _ _

/-- The sending of the CGI's output keeps the connection, or drops it. -/
theorem stepToClient_frame (e : Env) (c : Conn) (s : Srv) :
    Went T A G c s (stepToClient e c s) := by
  unfold stepToClient
  dsimp only
  split
  · rename_i h
    refine (Went.andThen (cnServeDynamic_frame _ _ _) fun c' _ => ?_).after
      ((probe_frame _ _ _).trans
      (act_frame _ _ fun hG => hG (.inr (of_decide_eq_true h.1))))
    split
    · exact Frame.ret .clrWrite
    · exact Frame.ret (.refl _ _)
  · exact Frame.ret (probe_frame _ _ _)

/-- The section for a CGI's output keeps the connection, or drops it. -/
theorem stepDynamic_frame (e : Env) (c : Conn) (s : Srv)
    (hin : c.req.type = .dynamic → ∀ d, c.cgi.srv_in = some d → d ≠ 0 → d ∈ s.pool.read_ready →
      c.cgi.phase = .cgiToSrv → c.cgi.buf_phase = .recv → G (d, s.fds.obj d)) :
    Went T A G c s (stepDynamic e c s) := by
  unfold stepDynamic
  split
  · rename_i h
    exact (stepToClient_frame _ _ _).after (stepFromCgi_frame _ _ _ h (hin h))
  · exact Frame.ret (.refl _ _)

/-- The section that serves files and pages keeps the connection, or drops it. -/
theorem stepStatic_frame (conf : Conf) (e : Env) (c : Conn) (s : Srv) :
    Went T A G c s (stepStatic conf e c s) := by
  unfold stepStatic
  dsimp only
  split
  · rename_i h
    exact (cnServeStatic_frame _ _ _ _).after ((probe_frame _ _ _).trans
      (act_frame _ _ fun hG => hG (.inr (of_decide_eq_true h.1))))
  · exact Frame.ret (probe_frame _ _ _)

/-- The sections in between touch nothing of the others. -/
theorem stepMiddle_frame (conf : Conf) (e : Env) (c : Conn) (s : Srv) (hT : T → NoLeak conf e c)
    (herr : ∀ d, c.cgi.srv_err = some d → d ∈ s.pool.read_ready → G (d, s.fds.obj d)) :
    Frame T A G c s (stepMiddle conf e c s).1 (stepMiddle conf e c s).2 := by
  have h1 := stepPrepare_frame (A := A) (G := G) conf e c (stepLogerr c s) hT
  have hpipe : T → (stepPrepare conf e c (stepLogerr c s)).1.req.type = .dynamic →
      (stepPrepare conf e c (stepLogerr c s)).1.cgi.phase = .ready → NoPipeLeak e := by
    intro t
    unfold stepPrepare
    split
    · rename_i h
      intro ht
      have : c.req.type = .dynamic := by
        rw [← ht]
        unfold cnPrepareStaticHeader
        dsimp only
        split <;> rfl
      simp [h.1] at this
    · exact (hT t).pipe
  unfold stepMiddle
  exact (stepLogerr_frame _ _ herr).trans (h1.trans ((stepInitCgi_frame _ _ _ hpipe).trans
    ((stepSelect_frame _ _).trans (stepStream_frame _ _ _))))

/-- The bits of the CGI's pipes that a visit acts on are good: the one of its stderr, after the
section `recv`, and the one of its stdout, after the transitions. -/
structure PipeActs (G : ℕ × Option ℕ → Prop) (conf : Conf) (e : Env) (c : Conn) (s : Srv) :
    Prop where
  /-- The stderr pipe. -/
  err : ∀ d, c.cgi.srv_err = some d → d ∈ s.pool.read_ready → G (d, s.fds.obj d)
  /-- The stdout pipe. -/
  out : (stepMiddle conf e c s).1.req.type = .dynamic →
    ∀ d, (stepMiddle conf e c s).1.cgi.srv_in = some d → d ≠ 0 →
      d ∈ (stepMiddle conf e c s).2.pool.read_ready →
        (stepMiddle conf e c s).1.cgi.phase = .cgiToSrv →
    (stepMiddle conf e c s).1.cgi.buf_phase = .recv → G (d, (stepMiddle conf e c s).2.fds.obj d)

/-- A visit. The functions that can leave a descriptor open run after the section `recv`. -/
theorem visit_frame (conf : Conf) (e : Env) (c : Conn) (s : Srv)
    (hT : T → ∀ c', (stepRecv e c s).conn = some c' → NoLeak conf e c')
    (hG : ∀ c', (stepRecv e c s).conn = some c' → PipeActs G conf e c' (stepRecv e c s).srv) :
    Went T A G c s (visit conf e c s) := by
  refine Went.andThen (stepRecv_frame _ _ _) fun c1 hc1 => ?_
  have hP := hG c1 hc1
  refine Went.after ?_ (stepMiddle_frame conf e c1 _ (fun t => hT t c1 hc1) hP.err)
  exact Went.andThen (stepDynamic_frame _ _ _ hP.out) fun c2 _ => stepStatic_frame _ _ _ _

/-- A visit keeps the descriptors of the others, whatever it opens and acts on. -/
theorem visit_frame_any (conf : Conf) (e : Env) (c : Conn) (s : Srv) (h : Held False A c s) :
    (visit conf e c s).Post (fun c' s' => Held False A c' s' ∧ Moves A (fun _ => True) c s c' s')
      (Gone False A (fun _ => True) c s) :=
  visit_frame conf e c s (fun f => f.elim)
    (fun _ _ => ⟨fun _ _ _ => trivial, fun _ _ _ _ _ _ _ => trivial⟩) h fun _ => trivial

end Liso
