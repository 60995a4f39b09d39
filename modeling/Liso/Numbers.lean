import Liso.Select
import Liso.Loop.Rest

/-!
# The numbers fit into an `fd_set`

An `fd_set` has room for the numbers below `FD_SETSIZE`. The server checks the numbers of client
sockets, which it closes if they are too high, and those of the two pipes that it reads, which it
does not: `cgi_init` refuses the request and leaves the numbers in the structure, where the loop and
the reset find them (`numbers_high`). In every run whose pipes get numbers that fit, `Conn.Fits`
holds of every connection, every use of a set stays inside it, and so does `max_fd`.
-/

namespace Liso

open Handles (Table Picker)

variable {conf : Conf} {ok : Loop → Ev → Prop} {l : Loop} {c c' : Conn} {s s' : Srv}
  {e : Env} {A : Set ℕ}
  {W : Prop}

/-- The read ends of the second and the third pipe made from a table. -/
def pipeEnds (pick : Picker) (fds : Table) : ℕ × ℕ :=
  let fds := (newPipe pick fds).2.2
  ((newPipe pick fds).1, (newPipe pick (newPipe pick fds).2.2).1)

/-- Three pipes made from a table have the ends that the server reads below `FD_SETSIZE`. -/
def LowPipes (e : Env) (fds : Table) : Prop :=
  e.pipe_in = true → e.pipe_out = true → e.pipe_err = true →
    (pipeEnds e.pick fds).1 < FD_SETSIZE ∧ (pipeEnds e.pick fds).2 < FD_SETSIZE

/-- `LowPipes` is decidable. -/
instance (fds : Table) : Decidable (LowPipes e fds) :=
  inferInstanceAs (Decidable (_ → _ → _ → _ ∧ _))

/-- In a visit, the pipes of a CGI that is started have low numbers. -/
def PipesFit (e : Env) (c : Conn) (s : Srv) : Prop :=
  ∀ c' ∈ (stepRecv e c s).conn, c'.req.type = .dynamic → c'.cgi.phase = .ready →
    LowPipes e (stepRecv e c s).srv.fds

/-- `PipesFit` is decidable. -/
instance (c : Conn) (s : Srv) : Decidable (PipesFit e c s) :=
  inferInstanceAs (Decidable (∀ c' ∈ (stepRecv e c s).conn, _ → _ →
    LowPipes e (stepRecv e c s).srv.fds))

/-! ## Connections -/

/-- What a connection watches depends on three numbers. -/
theorem Conn.Fits.congr (h : c.Fits) (hfd : c'.fd = c.fd) (hin : c'.cgi.srv_in = c.cgi.srv_in)
    (herr : c'.cgi.srv_err = c.cgi.srv_err) : c'.Fits := by
  intro d hd
  rw [Conn.Watches, hfd, hin, herr] at hd
  exact h d hd

/-- `cgi_init` records low numbers, and that of the stderr pipe if it succeeds. -/
theorem cgiInit_fits (e : Env) (c : Conn) (t : Table) (h : c.Fits) (hlow : LowPipes e t) :
    (∀ d, (cgiInit e c.cgi t).2.1.srv_in = some d ∨ (cgiInit e c.cgi t).2.1.srv_err = some d →
      d < FD_SETSIZE) ∧
    ((cgiInit e c.cgi t).1 = true → (cgiInit e c.cgi t).2.1.srv_err ≠ none) := by
  have hold : ∀ d, c.cgi.srv_in = some d ∨ c.cgi.srv_err = some d → d < FD_SETSIZE :=
    fun d hd => h d (.inr hd)
  by_cases hin : e.pipe_in = true
  case neg => simpa [cgiInit, hin] using hold
  by_cases hout : e.pipe_out = true
  case neg => simpa [cgiInit, hin, hout] using hold
  by_cases herr : e.pipe_err = true
  case neg => simpa [cgiInit, hin, hout, herr] using hold
  obtain ⟨h1, h2⟩ := hlow hin hout herr
  have hnew : ∀ d, some (pipeEnds e.pick t).1 = some d ∨ some (pipeEnds e.pick t).2 = some d →
    d < FD_SETSIZE := by
    rintro d (hd | hd)
    · exact Option.some.inj hd ▸ h1
    · exact Option.some.inj hd ▸ h2
  have hboth : ¬ (FD_SETSIZE ≤ (newPipe e.pick (newPipe e.pick t).2.2).1 ∨
      FD_SETSIZE ≤ (newPipe e.pick (newPipe e.pick (newPipe e.pick t).2.2).2.2).1) :=
    not_or.2 ⟨not_le.2 h1, not_le.2 h2⟩
  simp only [cgiInit, hin, hout, herr, Bool.not_true, Bool.false_eq_true, if_false, hboth]
  cases e.fork with
  | none => exact ⟨hnew, fun h => by simp at h⟩
  | some pid => exact ⟨hnew, fun _ => by simp⟩

/-- Everything that a connection watches fits, and every use of a set was inside it. -/
def Inside (c : Conn) (s : Srv) : Prop := c.Fits ∧ s.bad_fd = false

/-- A use of a set for the connection's socket. -/
theorem Inside.sock (h : Inside c s) (p : Pool) (fds : Table) (acts : List (ℕ × Option ℕ)) :
    Inside c { s.probe c.fd with pool := p, fds := fds, acts := acts } :=
  ⟨h.1, ((SameMarks.of_probe s c.fd p fds acts).bad_fd (h.1 _ (.inl rfl))).trans h.2⟩

/-- A use of a set for a pipe of the connection's. -/
theorem Inside.pipe (h : Inside c s) {d : ℕ} (hd : c.Watches d) (p : Pool) (fds : Table)
    (acts : List (ℕ × Option ℕ)) :
    Inside c { s.probe d with pool := p, fds := fds, acts := acts } :=
  ⟨h.1, ((SameMarks.of_probe s d p fds acts).bad_fd (h.1 _ hd)).trans h.2⟩

/-- `FD_SET` on a field of the connection's that is a number. -/
theorem Inside.setReadField (h : Inside c s) {f : Option ℕ}
    (hf : f = c.cgi.srv_in ∨ f = c.cgi.srv_err) (hne : f ≠ none) : Inside c (s.setReadField f) := by
  obtain ⟨d, rfl⟩ := Option.ne_none_iff_exists'.1 hne
  exact h.pipe (hf.elim (fun h => .inr (.inl h.symm)) fun h => .inr (.inr h.symm)) _ _ _

/-- `Inside` depends on the numbers that the connection watches and on the mark. -/
theorem Inside.congr (h : Inside c s) (hfd : c'.fd = c.fd) (hin : c'.cgi.srv_in = c.cgi.srv_in)
    (herr : c'.cgi.srv_err = c.cgi.srv_err) (hs : s'.bad_fd = s.bad_fd) : Inside c' s' :=
  ⟨h.1.congr hfd hin herr, hs.trans h.2⟩

/-! ## The sections of a visit -/

/-- The section that logs the CGI's errors uses the two sets inside their bounds. -/
theorem stepLogerr_inside (h : Inside c s) : Inside c (stepLogerr c s) := by
  unfold stepLogerr
  split
  · exact h
  · rename_i d hd
    dsimp only
    split
    · exact h.pipe (.inr (.inr hd)) _ _ _
    · exact h.pipe (.inr (.inr hd)) _ _ _

/-- The first transition uses the two sets inside their bounds. -/
theorem stepPrepare_inside (conf : Conf) (e : Env) (h : Inside c s) :
    Inside (stepPrepare conf e c s).1 (stepPrepare conf e c s).2 := by
  unfold stepPrepare cnPrepareStaticHeader
  split
  · dsimp only
    split
    · exact (h.sock _ _ _).congr rfl rfl rfl rfl
    · exact h.congr rfl rfl rfl rfl
  · exact h

/-- The start of a CGI whose pipes have low numbers. -/
theorem stepInitCgi_inside (e : Env) (h : Inside c s)
    (hlow : c.req.type = .dynamic → c.cgi.phase = .ready → LowPipes e s.fds) :
    Inside (stepInitCgi e c s).1 (stepInitCgi e c s).2 := by
  rcases stepInitCgi_cases e c s with ⟨-, he⟩ | ⟨ht, hg, hok, he⟩ | ⟨ht, hg, -, he⟩ <;> rw [he]
  · exact h
  all_goals
    obtain ⟨hnew, herr⟩ := cgiInit_fits e c s.fds h.1 (hlow ht hg)
    have hfits : ∀ p r resp, Conn.Fits { c with
        cgi := { (cgiInit e c.cgi s.fds).2.1 with phase := p }, req := r, resp := resp } := by
      rintro p r resp d (hd | hd)
      · exact h.1 d (.inl hd)
      · exact hnew d hd
  · have hin : Inside { c with cgi := { (cgiInit e c.cgi s.fds).2.1 with phase := .srvToCgi } }
        { s with fds := (cgiInit e c.cgi s.fds).2.2 } := ⟨hfits _ _ _, h.2⟩
    exact hin.setReadField (.inr rfl) (herr hok)
  · exact ⟨hfits _ _ _, (h.sock _ _ _).2⟩

/-- The watching of the CGI's output uses the two sets inside their bounds. -/
theorem stepSelect_inside (h : Inside c s) : Inside c (stepSelect c s) := by
  unfold stepSelect
  split
  · have hclr : Inside c (s.clrRead c.fd) := h.sock _ _ _
    dsimp only
    split
    · exact hclr.sock _ _ _
    · exact hclr
  · exact h

/-- The streaming to the CGI: at its end the stdout pipe is there. -/
theorem stepStream_inside (e : Env) (hs : Shape c) (h : Inside c s) :
    Inside (stepStream e c s).1 (stepStream e c s).2 := by
  rcases stepStream_cases e c s with ⟨-, he⟩ | ⟨-, -, -, he⟩ | ⟨-, -, -, -, he⟩ | ⟨-, hg, -, hp, he⟩
    <;> rw [he]
  · exact h
  · exact (h.sock _ _ _).congr rfl rfl rfl rfl
  · exact h.congr rfl rfl rfl rfl
  · have hin : c.cgi.srv_in ≠ none := by
      rcases hs.of_done hp with ⟨-, hg'⟩ | ⟨-, -, hg' | ⟨-, hin⟩ | hg'⟩
      · simp [hg] at hg'
      · simp [hg] at hg'
      · exact hin
      · simp [hg] at hg'
    have h' : Inside c { s with fds := closePipe c.cgi.srv_out s.fds } := h
    exact (h'.setReadField (.inl rfl) hin).congr rfl rfl rfl rfl

/-- The transitions and the streaming to the CGI. -/
theorem stepMiddle_inside (conf : Conf) (e : Env) (hR : Recvd W c s) (h : Inside c s)
    (hlow : c.req.type = .dynamic → c.cgi.phase = .ready → LowPipes e s.fds) :
    Inside (stepMiddle conf e c s).1 (stepMiddle conf e c s).2 := by
  have hlog := stepLogerr_inside h
  have hprep := stepPrepare_inside conf e hlog
  have hRl : Recvd W c (stepLogerr c s) := by
    refine hR.congr rfl ?_ ?_
    all_goals
      unfold stepLogerr
      split
      · rfl
      · dsimp only
        split <;> rfl
  have hRp := stepPrepare_recvd conf e hRl
  -- A dynamic request goes through the first transition unchanged, with the table.
  have hlow' : (stepPrepare conf e c (stepLogerr c s)).1.req.type = .dynamic →
      (stepPrepare conf e c (stepLogerr c s)).1.cgi.phase = .ready →
      LowPipes e (stepPrepare conf e c (stepLogerr c s)).2.fds := by
    have hfds : (stepLogerr c s).fds = s.fds := by
      unfold stepLogerr
      split
      · rfl
      · dsimp only
        split <;> rfl
    unfold stepPrepare
    split
    · rename_i hcond
      intro ht _
      have : c.req.type = .dynamic := by
        rw [← ht]
        unfold cnPrepareStaticHeader
        dsimp only
        split <;> rfl
      simp [hcond.1] at this
    · rw [hfds]
      exact hlow
  rcases h1 : stepPrepare conf e c (stepLogerr c s) with ⟨c1, s1⟩
  rw [h1] at hprep hRp hlow'
  have hinit := stepInitCgi_inside e hprep hlow'
  have hRi := (stepInitCgi_recvd e hRp).1
  rcases h2 : stepInitCgi e c1 s1 with ⟨c2, s2⟩
  rw [h2] at hinit hRi
  rw [stepMiddle_eq h1 h2]
  exact stepStream_inside e hRi.shape (stepSelect_inside hinit)

/-- The reading of a CGI's output uses the two sets inside their bounds. -/
theorem stepFromCgi_inside (e : Env) (h : Inside c s) :
    Inside (stepFromCgi e c s).1 (stepFromCgi e c s).2 := by
  refine ⟨?_, ((stepFromCgi_marks e c s).bad_fd h.1).trans h.2⟩
  rcases stepFromCgi_cases e c s with ⟨s', he, -⟩
    | ⟨d, hd, -, -, -, ⟨-, he⟩ | ⟨data, -, -, he⟩ | ⟨-, he⟩⟩ <;> rw [he]
  · exact h.1
  · exact h.1.congr rfl rfl rfl
  · exact h.1.congr rfl rfl rfl
  · rintro x (hx | hx | hx)
    · exact h.1 x (.inl hx)
    · simp at hx
    · exact h.1 x (.inr (.inr hx))

/-- The success callback uses the two sets inside their bounds. -/
theorem lisoResetOrClose_inside (e : Env) (hidx : c.idx < s.pool.conns.length) (h : Inside c s) :
    (lisoResetOrClose e c s).Post Inside (fun s' => s'.bad_fd = false) := by
  have hreset : (plResetConn (s.serve c) c.archive).1.Fits := by
    rintro d (hd | hd | hd)
    · exact h.1 d (.inl hd)
    · simp [plResetConn_eq, dropPipes_cgi, cgiNew] at hd
    · simp [plResetConn_eq, dropPipes_cgi, cgiNew] at hd
  have hfits : (lisoResetOrClose e c s).Post (fun c' _ => c'.Fits) (fun _ => True) := by
    rcases lisoResetOrClose_cases e c s with ⟨-, he⟩ | ⟨-, -, he⟩ | ⟨-, -, he⟩ <;> rw [he]
    · exact lisoDropConn_gone (c := c) (s := s.serve c) hidx
    · exact (Ret.post_some _ _).2 hreset
    · exact (Ret.post_some _ _).2 ((Conn.fits_congr (handOver_keeps e _ _).ends).2 hreset)
  refine (hfits.and (lisoResetOrClose_served e hidx)).mono (fun c' s' hp => ⟨hp.1, ?_⟩) fun s' hp =>
    ?_
  · exact (hp.2.2.bad_fd h.1).trans h.2
  · exact (hp.2.bad_fd h.1).trans h.2

/-- The end of a connection uses the two sets inside their bounds. -/
theorem lisoDropConn_inside {B : Conn → Srv → Prop} (hidx : c.idx < s.pool.conns.length)
    (h : Inside c s) :
    (lisoDropConn c s).Post B (fun s' => s'.bad_fd = false) :=
  (lisoDropConn_post hidx).mono (fun _ _ h => h) fun _ hp => (hp.bad_fd h.1).trans h.2

/-- The sending of a CGI's output. -/
theorem stepToClient_inside (e : Env) (h0 : 0 < c.fd) (hidx : c.idx < s.pool.conns.length)
    (h : Inside c s) :
    (stepToClient e c s).Post Inside (fun s' => s'.bad_fd = false) := by
  have hact : Inside c ((s.probe c.fd).act c.fd) := h.sock _ _ _
  rcases stepToClient_cases e c s h0 with ⟨-, he⟩ | ⟨-, -, ⟨-, -, he⟩ | ⟨-, ⟨-, he⟩ | ⟨-, he⟩⟩⟩
    <;> rw [he]
  · exact (Ret.post_some _ _).2 (h.sock _ _ _)
  · refine (lisoResetOrClose_inside (s := (s.probe c.fd).act c.fd) e hidx hact).andThen
      fun c1 _ h1 => ?_
    split
    · exact (Ret.post_some _ _).2 (h1.sock _ _ _)
    · exact (Ret.post_some _ _).2 h1
  · exact lisoDropConn_inside hidx hact
  · refine (Ret.post_some _ _).2 ?_
    split
    · exact (hact.sock _ _ _).congr rfl rfl rfl rfl
    · exact hact.congr rfl rfl rfl rfl

/-- The section that serves files and pages uses the two sets inside their bounds. -/
theorem stepStatic_inside (conf : Conf) (e : Env) (hidx : c.idx < s.pool.conns.length)
    (h : Inside c s) :
    (stepStatic conf e c s).Post Inside (fun s' => s'.bad_fd = false) := by
  have hact : Inside c ((s.probe c.fd).act c.fd) := h.sock _ _ _
  rcases stepStatic_cases conf e c s with ⟨s', he, rfl | rfl⟩
    | ⟨-, c', ⟨buf, resp, data, rfl⟩, he | he | ⟨b, he⟩⟩ <;>
    rw [he]
  · exact (Ret.post_some _ _).2 (h.sock _ _ _)
  · exact (Ret.post_some _ _).2 hact
  · exact lisoDropConn_inside hidx (hact.congr rfl rfl rfl rfl)
  · exact lisoResetOrClose_inside (s := (s.probe c.fd).act c.fd) e hidx (hact.congr rfl rfl rfl rfl)
  · exact (Ret.post_some _ _).2 (hact.congr rfl rfl rfl rfl)

/-! ## Every run -/

/-- In the runs whose pipes have low numbers, everything that a connection watches fits, and every
use of a set was inside it. -/
theorem fits_inv (h : Reach conf (Visiting PipesFit) l) :
    (∀ c ∈ l.srv.pool.conns, Rest False c l.srv ∧ c.Fits) ∧ l.srv.bad_fd = false := by
  refine reach_local (L := fun c s => Rest False c s ∧ c.Fits) (S := fun m => m.2.1 = false)
    ?_ rfl ?_ ?_ h
  · exact ⟨fun c s i h => ⟨Rest.stable.idx c s i h.1, h.2⟩,
      fun c s s' h hk => ⟨Rest.stable.keep c s s' h.1 hk, h.2⟩⟩
  · intro c s ha hlt hr hw
    refine ⟨ha.rest hr hw, fun d hd => ?_⟩
    rw [ha.watches hd]
    exact hlt
  · intro l ev i m c hl hok hpc hc hH hready hL hS
    have h0 : c.fd ≠ 0 := fun he => hH.fd_notMem (he ▸ .inl hl.zero_mem)
    have hlow := hok i m hpc c hc
    refine (visit_stages (R := Inside) (M := Inside) (D := Inside) (B := Inside) (L := Inside)
      (G := fun s => s.bad_fd = false) h0 hH hready hL.1 (fun f => f.elim) ?_ ?_ ?_ ?_ ?_ ?_).mono
      (fun _ _ h => ⟨⟨h.1, h.2.1⟩, h.2.2⟩) fun _ h => h
    · refine (stepRecv_keeps ev.env hH.idx (c := c)).mono
        (fun c' s' hk => ⟨(Conn.fits_congr hk.ends).2 hL.2, ?_⟩)
        fun s' hk => ?_
      · exact (hk.marks.bad_fd hL.2).trans hS
      · exact (hk.bad_fd hL.2).trans hS
    · intro p hp _ hR hr
      refine stepMiddle_inside conf ev.env hR hr ?_
      obtain ⟨c1, hc1, rfl⟩ := Option.map_eq_some_iff.1 hp
      exact hlow c1 hc1
    · exact fun _ _ _ _ hr => hr
    · exact fun _ _ _ _ _ hr => stepFromCgi_inside ev.env hr
    · exact fun _ _ h0 hH' _ hr => stepToClient_inside ev.env h0 hH'.idx hr
    · exact fun _ _ hH' _ hr => stepStatic_inside conf ev.env hH'.idx hr

/-- The variable `max_fd` of the inner loop, and the one of the pool when the loop is left, are
below `FD_SETSIZE`. -/
def Low (l : Loop) : Prop :=
  match l.pc with
  | .select => l.srv.pool.max_fd < FD_SETSIZE
  | .accept => True
  | .accept_ssl => True
  | .serve _ m => m < FD_SETSIZE

/-- `max_fd` is the maximum of numbers that fit. -/
theorem low_inv (h : Reach conf (Visiting PipesFit) l) : Low l := by
  refine Runs.Reach.induct (fun l h0 => ?_) (fun l ev hl hok ih => ?_) h
  · obtain ⟨hpc, hpool, -, -, -, -, -, hs, hss, -⟩ := h0
    rw [Low, hpc]
    dsimp only
    rw [hpool]
    exact max_lt hs hss
  -- The numbers in the pool behind the step fit.
  have hnext := fits_inv (hl.step ev hok)
  have hinv := loop_inv hl
  unfold step at hnext ⊢
  split
  · rename_i hpc
    split
    · exact ih
    · trivial
  · trivial
  · show l.srv.pool.min_max_fd < FD_SETSIZE
    rw [(listening hl).2.2.2.2]
    exact max_lt (Reach.socks hl).1 (Reach.socks hl).2
  · rename_i i m hpc
    rw [Low, hpc] at ih
    rw [hpc] at hnext
    split
    · exact ih
    · rename_i c hc
      have hlt : i < l.srv.pool.conns.length := (List.getElem?_eq_some_iff.1 hc).1
      have hframe := visit_frame_any conf ev.env c l.srv (hinv.pool.held i c hc)
      dsimp only at hnext
      rw [hc] at hnext
      rcases hframe.afterVisit i m with ⟨c', ⟨-, hM⟩, he⟩ | ⟨-, he⟩
      · -- The connection just visited is in the pool, where every number fits.
        dsimp only at hnext
        rw [he] at hnext ⊢
        have hc' : c' ∈ (visit conf ev.env c l.srv).srv.pool.conns.set i c' := by
          refine List.mem_of_getElem? (i := i) ?_
          rw [hM.conns, List.getElem?_set_self hlt]
        have hfits := (hnext.1 c' hc').2
        refine max_lt (max_lt (max_lt ih (hfits _ (.inl rfl))) ?_) ?_
        · cases hin : c'.cgi.srv_in with
          | none => exact Nat.lt_of_le_of_lt (Nat.zero_le _) ih
          | some d => exact hfits d (.inr (.inl hin))
        · cases herr : c'.cgi.srv_err with
          | none => exact Nat.lt_of_le_of_lt (Nat.zero_le _) ih
          | some d => exact hfits d (.inr (.inr herr))
      · rw [he]
        exact ih

/-- In the runs whose CGI pipes have low numbers, every number put into a set, taken out, or tested
is below `FD_SETSIZE`, and `select` is given at most `FD_SETSIZE` numbers. -/
theorem numbers_fit (h : Reach conf (Visiting PipesFit) l) :
    l.srv.bad_fd = false ∧ (l.pc = .select → l.srv.pool.max_fd + 1 ≤ FD_SETSIZE) := by
  refine ⟨(fits_inv h).2, fun hpc => ?_⟩
  have hlow := low_inv h
  rw [Low, hpc] at hlow
  exact hlow

/-- A CGI is started whose pipes have the numbers 6 to 11. -/
theorem numbers_fit_cgi :
    (Runs.exec (step Sample.conf) Sample.start (Sample.cgi "")).srv.bad_fd = false ∧
      ((Runs.exec (step Sample.conf) Sample.start (Sample.cgi "")).pc = .select →
        (Runs.exec (step Sample.conf) Sample.start (Sample.cgi "")).srv.pool.max_fd + 1 ≤
          FD_SETSIZE) :=
  numbers_fit ((Runs.Reach.start Sample.start_init).along _ (by decide +kernel))

/-! ## High numbers -/

/-- The allocator that returns the number of the descriptors in use, where that is free. In a
process whose descriptors are the first numbers it is the lowest free one. -/
def countPicker : Picker where
  pick l := if l.length ∈ l then Picker.lowest.pick l else l.length
  fresh l := by
    split
    · exact Picker.lowest.fresh l
    · assumption

/-- The configuration of a process that has the first 1019 descriptors open when it enters the main
loop. -/
def crowdedConf : Conf := { Sample.conf with base := List.range 1019 }

/-- Entering the main loop with these descriptors. -/
def crowded : Loop :=
  { Sample.start with srv := { Sample.start.srv with fds := ⟨(List.range 1019).map fun d => (d, d),
    1019⟩ } }

/-- A connection is accepted as the descriptor 1019 and asks for a CGI, whose stderr pipe gets the
numbers 1024 and 1025. -/
def crowdedRun : List Ev :=
  [⟨some ({3}, ∅), { Sample.acc with pick := countPicker }, Sample.env⟩,
    ⟨none, { Sample.acc with pick := countPicker }, Sample.env⟩, Sample.next, Sample.next,
      Sample.next] ++
  Sample.select {1019} ∅ ++
  [Sample.visit { Sample.env with
    recv := some (str "POST /cgi/x HTTP/1.1\r\nContent-Length:0\r\n\r\n"),
    pick := countPicker }, Sample.next]

/-- The server with 1,020 descriptors is in an initial state. -/
theorem crowded_init : Init crowdedConf crowded := by
  refine ⟨rfl, rfl, ?_, ?_, ?_, ?_, ?_, ?_, ?_, rfl, rfl, rfl, rfl, rfl⟩ <;> decide +kernel

/-- `cgi_init` refuses the request, the number 1024 stays in the structure, and `select` is given
1025 numbers. -/
theorem numbers_high : ¬ ∀ l, Reach crowdedConf Runs.any l →
    l.srv.bad_fd = false ∧ (l.pc = .select → l.srv.pool.max_fd + 1 ≤ FD_SETSIZE) := by
  intro h
  have := (h _ ((Runs.Reach.start crowded_init).exec crowdedRun)).2 (by decide +kernel)
  revert this
  decide +kernel

end Liso
