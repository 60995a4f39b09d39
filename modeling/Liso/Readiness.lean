import Liso.Loop.Phases
import Liso.Loop.Sample

/-!
# Readiness bits and recycled descriptors

The bits that `select` returned are used all through the pass, while connections are freed and pipes
are made. Every bit that a visit acts on is that of a descriptor which the connection held when
`select` looked at it, with one exception. A request that is complete when its CGI is started is
streamed to it and read from in the same visit, so that the fresh stdout pipe meets the old bit of
its number, and that number may belong to a connection freed earlier in the pass (`acts_recycled`).
-/

namespace Liso

open Handles (Table)

variable {conf : Conf} {l : Loop} {c : Conn} {s : Srv} {e : Env} {T : Prop} {A : Set ℕ}

/-- The bit of a descriptor is used for the object that `select` examined, and the descriptor is
open. -/
def Current (snap : Table) (x : ℕ × Option ℕ) : Prop := x.2.isSome = true ∧ x.2 = snap.obj x.1

/-- `Current` is decidable. -/
instance (snap : Table) (x : ℕ × Option ℕ) : Decidable (Current snap x) :=
  inferInstanceAs (Decidable (_ ∧ _))

/-- `pipe` returns, for the stdout of a CGI that is started for a complete request and takes its
body, a number whose read bit is still set. -/
def Recycled (e : Env) (c : Conn) (s : Srv) : Prop :=
  c.req.type = .dynamic ∧ c.req.phase = .done ∧ c.cgi.phase = .ready ∧
    (cgiInit e c.cgi s.fds).1 = true ∧
    (c.writes e).1 = true ∧ ∃ d ∈ (cgiInit e c.cgi s.fds).2.1.srv_in, d ∈ s.pool.read_ready

/-- `Recycled` is decidable. -/
instance (c : Conn) (s : Srv) : Decidable (Recycled e c s) :=
  inferInstanceAs (Decidable (_ ∧ _ ∧ _ ∧ _ ∧ _ ∧ ∃ d ∈ (cgiInit e c.cgi s.fds).2.1.srv_in, _))

/-- In a visit, after the section `recv`, the stdout pipe of a complete request gets no number whose
read bit is set. -/
def FreshPipes (e : Env) (c : Conn) (s : Srv) : Prop :=
  ∀ c' ∈ (stepRecv e c s).conn, ¬ Recycled e c' (stepRecv e c s).srv

/-- `FreshPipes` is decidable. -/
instance (c : Conn) (s : Srv) : Decidable (FreshPipes e c s) :=
  inferInstanceAs (Decidable (∀ c' ∈ (stepRecv e c s).conn, ¬ Recycled e c' (stepRecv e c s).srv))

/-! ## The bits of a connection -/

/-- The bits of a connection mean the same after the receiving part. -/
theorem Ready.recv {c' : Conn} {s' : Srv} (h : Ready c s) (hk : RecvKeeps c s c' s') {d : ℕ}
    (hd : c'.Watches d) (hr : d ∈ s'.pool.read_ready) : s'.fds.obj d = s.snap.obj d := by
  have hends := hk.ends
  simp only [Conn.ends, Prod.mk.injEq] at hends
  obtain ⟨efd, -, -, -, ein, eerr⟩ := hends
  rw [hk.fds]
  refine (h.read d ?_ (hk.read_ready ▸ hr)).2
  rwa [Conn.Watches, ← efd, ← ein, ← eerr]

/-! ## The transitions -/

/-- The transitions of a static request. -/
theorem stepMiddle_static (conf : Conf) (e : Env) (s : Srv) (ht : c.req.type = .static) :
    (stepMiddle conf e c s).1.req.type = .static := by
  have hprep : (stepPrepare conf e c (stepLogerr c s)).1.req.type = .static := by
    unfold stepPrepare
    split
    · unfold cnPrepareStaticHeader
      dsimp only
      split <;> exact ht
    · exact ht
  rcases hout : stepPrepare conf e c (stepLogerr c s) with ⟨c1, s1⟩
  rw [hout] at hprep
  have hprep : c1.req.type = .static := hprep
  have hinit : stepInitCgi e c1 s1 = (c1, s1) := if_neg (by simp [hprep])
  have hstream : stepStream e c1 (stepSelect c1 s1) = (c1, stepSelect c1 s1) :=
    if_neg (by simp [hprep])
  rw [stepMiddle_eq hout hinit, hstream]
  exact hprep

/-- `cgi_logerr` and `prepare for select` keep the table and the ready bits. -/
theorem stepSelect_logerr_keeps (c c' : Conn) (s : Srv) :
    (stepLogerr c s).fds = s.fds ∧ (stepLogerr c s).pool.read_ready = s.pool.read_ready ∧
      (stepSelect c' s).fds = s.fds ∧ (stepSelect c' s).pool.read_ready = s.pool.read_ready := by
  refine ⟨?_, ?_, ?_, ?_⟩
  · unfold stepLogerr
    split
    · rfl
    · dsimp only; split <;> rfl
  · unfold stepLogerr
    split
    · rfl
    · dsimp only; split <;> rfl
  · unfold stepSelect
    split
    · dsimp only; split <;> rfl
    · rfl
  · unfold stepSelect
    split
    · dsimp only; split <;> rfl
    · rfl

/-- The stdout of a CGI that is about to be read was recorded before the transitions, and names the
same object as then, unless it is recycled. -/
theorem stepMiddle_out (conf : Conf) (hH : Held T A c s) (hfresh : ¬ Recycled e c s)
    (ht : (stepMiddle conf e c s).1.req.type = .dynamic) {d : ℕ}
    (hd : (stepMiddle conf e c s).1.cgi.srv_in = some d)
    (hr : d ∈ (stepMiddle conf e c s).2.pool.read_ready)
    (hg : (stepMiddle conf e c s).1.cgi.phase = .cgiToSrv) :
    c.cgi.srv_in = some d ∧ d ∈ s.pool.read_ready ∧
      (stepMiddle conf e c s).2.fds.obj d = s.fds.obj d := by
  have htc : c.req.type = .dynamic := by
    cases htc : c.req.type with
    | static => rw [stepMiddle_static conf e s htc] at ht; simp at ht
    | dynamic => rfl
  have hprep : stepPrepare conf e c (stepLogerr c s) = (c, stepLogerr c s) := if_neg (by simp [htc])
  have hmid : stepMiddle conf e c s = stepStream e (stepInitCgi e c (stepLogerr c s)).1
      (stepSelect (stepInitCgi e c (stepLogerr c s)).1 (stepInitCgi e c (stepLogerr c s)).2) :=
    stepMiddle_eq hprep rfl
  rw [hmid] at hd hr hg ⊢
  clear hmid ht
  -- Neither logging nor the preparation for `select` touches the table or the ready bits.
  obtain ⟨hlf, hlr, -, -⟩ := stepSelect_logerr_keeps c c s
  generalize stepLogerr c s = s0 at hd hr hg hlf hlr ⊢
  rcases stepInitCgi_cases e c s0 with ⟨-, hi⟩ | ⟨-, hgc, hok, hi⟩ | ⟨-, -, -, hi⟩
    <;> rw [hi] at hd hr hg ⊢ <;>
    clear hi
  · -- The CGI was running before the visit.
    obtain ⟨-, -, hsf, hsr⟩ := stepSelect_logerr_keeps c c s0
    generalize stepSelect c s0 = s1 at hd hr hg hsf hsr ⊢
    rcases stepStream_cases e c s1 with ⟨-, he⟩ | ⟨-, hgc, -, he⟩ | ⟨-, hgc, -, -, he⟩
      | ⟨-, hgc, -, -, he⟩ <;>
      rw [he] at hd hr hg ⊢
    · exact ⟨hd, by rw [← hlr, ← hsr]; exact hr, by rw [hsf, hlf]⟩
    · have hg : c.cgi.phase = .cgiToSrv := hg
      simp [hgc] at hg
    · have hg : c.cgi.phase = .cgiToSrv := hg
      simp [hgc] at hg
    · have hd : c.cgi.srv_in = some d := hd
      have hr : d ∈ (({ s1 with fds := closePipe c.cgi.srv_out s1.fds }.setReadField
        c.cgi.srv_in)).pool.read_ready := hr
      rw [hd] at hr
      have hobj : (({ s1 with fds := closePipe c.cgi.srv_out s1.fds }.setReadField
          c.cgi.srv_in)).fds.obj d = (closePipe c.cgi.srv_out s1.fds).obj d := by rw [hd]; rfl
      refine ⟨hd, by rw [← hlr, ← hsr]; exact hr, ?_⟩
      have hnd : (([] ++ c.cgi.srv_out :: [c.cgi.srv_in, c.cgi.srv_err, c.cgi.cgi_in, c.cgi.cgi_out,
        c.cgi.cgi_err]).filterMap id).Nodup := (List.nodup_cons.1 hH.nodup).2
      have hne : c.cgi.srv_out ≠ some d := notMem_of_nodup_filterMap hnd (by simp [hd])
      rw [hobj, closePipe_obj, if_neg hne, hsf, hlf]
  · -- The CGI was started in this visit, so that its stdout is fresh.
    refine absurd ?_ hfresh
    rw [hlf] at hok hd hr hg
    generalize hc1 :
      ({ c with cgi := { (cgiInit e c.cgi s.fds).2.1 with phase := .srvToCgi } } : Conn) = c1
      at hd hr hg
    obtain ⟨-, -, -, hsr⟩ := stepSelect_logerr_keeps c1 c1
      ({ s0 with fds := (cgiInit e c.cgi s.fds).2.2 }.setReadField
        (cgiInit e c.cgi s.fds).2.1.srv_err)
    have hrf : (({ s0 with fds := (cgiInit e c.cgi s.fds).2.2 } : Srv).setReadField
        (cgiInit e c.cgi s.fds).2.1.srv_err).pool.read_ready = s0.pool.read_ready := by
      cases (cgiInit e c.cgi s.fds).2.1.srv_err <;> rfl
    rw [hrf, hlr] at hsr
    generalize stepSelect c1 _ = s1 at hd hr hg hsr
    have hwrites : c1.writes e = c.writes e := by rw [← hc1]; rfl
    have hphase : c1.cgi.phase = .srvToCgi := by rw [← hc1]
    have hin : c1.cgi.srv_in = (cgiInit e c.cgi s.fds).2.1.srv_in := by rw [← hc1]
    have hp1 : c1.req.phase = c.req.phase := by rw [← hc1]
    rcases stepStream_cases e c1 s1 with ⟨-, he⟩ | ⟨-, -, -, he⟩ | ⟨-, -, -, -, he⟩
      | ⟨-, -, hw, hp, he⟩ <;>
      rw [he] at hd hr hg
    · simp [hphase] at hg
    · have hg : c1.cgi.phase = .cgiToSrv := hg
      simp [hphase] at hg
    · have hg : c1.cgi.phase = .cgiToSrv := hg
      simp [hphase] at hg
    · have hd : c1.cgi.srv_in = some d := hd
      refine ⟨htc, hp1 ▸ hp, hgc, hok, hwrites ▸ hw, d, hin ▸ hd, ?_⟩
      rw [← hsr]
      have hr : d ∈ ({ s1 with fds := closePipe c1.cgi.srv_out s1.fds }.setReadField
        c1.cgi.srv_in).pool.read_ready := hr
      rwa [hd] at hr
  · rw [stepStream, if_neg (by simp [lisoConnErr])] at hg
    simp [lisoConnErr] at hg

/-! ## Every pass -/

/-- The ready bits that a visit acts on are current. -/
theorem visit_current (conf : Conf) (e : Env) (hH : Held False A c s) (hready : Ready c s)
    (hfresh : FreshPipes e c s) :
    (visit conf e c s).Post (fun c' s' => Held False A c' s' ∧ Moves A (Current s.snap) c s c' s')
      (Gone False A (Current s.snap) c s) := by
  have hopen : ∀ {t : Table} {d : ℕ}, d ∈ t.dom → t.obj d = s.snap.obj d →
    Current s.snap (d, t.obj d) :=
    fun hd ho => ⟨(Table.obj_isSome _ _).2 hd, ho⟩
  refine visit_frame conf e c s (fun f => f.elim) (fun c1 hc1 => ?_) hH fun hr => ?_
  · have hk := ((stepRecv_keeps e hH.idx).of_some hc1).2
    have hH1 := (((stepRecv_frame (G := fun _ => True) e c s) hH fun _ => trivial).of_some hc1).2.1
    generalize hs1 : (stepRecv e c s).srv = s1 at hk hH1 ⊢
    have hw : ∀ {d}, c1.Watches d → d ∈ s1.pool.read_ready → Current s.snap (d, s1.fds.obj d) :=
      fun hd hr => hopen (hH1.own _ hd.mem_owned) (hready.recv hk hd hr)
    refine ⟨fun d hd hr => hw (.inr (.inr hd)) hr, fun ht d hd _ hr hg _ => ?_⟩
    obtain ⟨hin, hr, ho⟩ := stepMiddle_out conf hH1 (hs1 ▸ hfresh c1 hc1) ht hd hr hg
    rw [ho]
    exact hw (.inr (.inl hin)) hr
  · refine hopen (hH.own _ c.fd_mem_owned) ?_
    rcases hr with hr | hr
    · exact (hready.read _ (.inl rfl) hr).2
    · exact (hready.write hr).2

/-- In the runs in which the stdout pipe of a complete request gets no number whose read bit is set,
every ready bit that a pass acts on is that of the object which `select` examined at its start. -/
theorem acts_current (h : Reach conf (Visiting FreshPipes) l) :
    ∀ x ∈ l.srv.acts, Current l.srv.snap x := by
  refine Runs.Reach.induct (P := fun l => ∀ x ∈ l.srv.acts, Current l.srv.snap x) (fun l h0 => ?_)
    (fun l ev hl hok ih => ?_) h
  · obtain ⟨-, -, -, -, -, -, -, -, -, hacts, -⟩ := h0
    rw [hacts]
    simp
  have hinv := loop_inv hl
  have haccept : ∀ (d : ℕ) (a : Accept) (ssl : Bool),
      ∀ x ∈ (if (l.srv.probe d).readReady d then lisoAcceptConn conf a ssl (l.srv.probe d)
        else l.srv.probe d).acts, Current (if (l.srv.probe d).readReady d then
          lisoAcceptConn conf a ssl (l.srv.probe d) else l.srv.probe d).snap x := by
    intro d a ssl
    split
    · rcases lisoAcceptConn_cases conf a ssl (l.srv.probe d) hinv.pool.size with ⟨t, he, -⟩ |
        ⟨c, -, -, -, -, -, -, he⟩
      · rw [he]; exact ih
      · rw [he]; exact ih
    · exact ih
  unfold Liso.step
  split
  · split
    · exact ih
    · intro x hx
      simp [selectReady] at hx
  · exact haccept _ _ _
  · exact haccept _ _ _
  · rename_i i m hpc
    split
    · exact ih
    · rename_i c hc
      have hH := hinv.pool.held i c hc
      have hR := hinv.ready i c (by rw [hpc]; show i ≤ i; omega) hc
      -- The bits that a visit acts on are current in its frame.
      have hvisit := visit_current conf ev.env hH hR (hok i m hpc c hc)
      rcases hvisit.afterVisit i m with ⟨c', ⟨-, hM⟩, he⟩ | ⟨hG, he⟩
      · rw [he]
        intro x hx
        show Current (visit conf ev.env c l.srv).srv.snap x
        rw [hM.snap]
        exact (hM.acts x hx).elim (ih x) id
      · rw [he]
        intro x hx
        show Current (visit conf ev.env c l.srv).srv.snap x
        rw [hG.snap]
        exact (hG.acts x hx).elim (ih x) id

/-- A request for a CGI: the bits of the socket and of the stdout pipe are acted on. -/
theorem acts_current_cgi :
    (Runs.exec (step Sample.conf) Sample.start (Sample.cgi "")).srv.acts ≠ [] ∧
      ∀ x ∈ (Runs.exec (step Sample.conf) Sample.start (Sample.cgi "")).srv.acts,
        Current (Runs.exec (step Sample.conf) Sample.start (Sample.cgi "")).srv.snap x :=
  ⟨by decide +kernel,
    acts_current ((Runs.Reach.start Sample.start_init).along _ (by decide +kernel))⟩

/-- Four connections are ready. Three of them are closed, and the request of the fourth starts a
CGI, whose stdout gets the number 8 of one that was closed. The read would block, and is answered
with 500. -/
theorem acts_recycled :
    ¬ ∀ l, Reach Sample.conf Runs.any l → ∀ x ∈ l.srv.acts, Current l.srv.snap x := by
  intro h
  have := h _
    (Sample.reach (Sample.connect ++ Sample.select {3} ∅ ++
      [Sample.next, Sample.next, Sample.next] ++
    Sample.select {3} ∅ ++ [Sample.next, Sample.next, Sample.next, Sample.next] ++
    Sample.select {3} ∅ ++ [Sample.next, Sample.next, Sample.next, Sample.next, Sample.next] ++
    Sample.select {5, 6, 7, 8} ∅ ++ [Sample.recv "", Sample.recv "", Sample.recv "",
      Sample.visit { Sample.env with
        recv := some (str "POST /cgi/x HTTP/1.1\r\nContent-Length:0\r\n\r\n"), read := none }]))
  revert this
  decide +kernel

end Liso
