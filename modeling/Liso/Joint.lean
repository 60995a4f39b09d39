import Liso.Loop.Calls
import Liso.Loop.Sample

/-!
# The phases agree

The request, the response, the CGI, and the CGI's use of the buffer have a phase each, and a dozen
functions set them one at a time. `Shape` is the list of the combinations that occur between two
visits. What `Shape` does not say is that a response being sent has its file mapped: `Mapped` is
carried through the sections of a visit beside it, together with the mark for a null pointer, and
`phases_joint` reads both off for every connection in every state of a run in which the hosts fit. A
host that does not can put any number into the phase of its request (`phases_overrun`).
-/

namespace Liso

variable {conf : Conf} {ok : Loop → Ev → Prop} {l : Loop} {c c' : Conn} {s s' : Srv}
  {e : Env} {W : Prop}
  {A : Set ℕ}

/-- A file that is being sent is mapped. -/
def Mapped (c : Conn) : Prop := c.resp.phase = .header ∨ c.resp.phase = .body → c.resp.mmbuf ≠ none

/-- A response that is not being sent needs no file. -/
theorem Mapped.of_phase
    (h : c.resp.phase = .ready ∨ c.resp.phase = .disabled ∨ c.resp.phase = .abort) :
    Mapped c := by
  rintro (hr | hr) <;> rcases h with h | h | h <;> simp [h] at hr

/-- The phase and the file are all that matters. -/
theorem Mapped.congr (h : Mapped c) (hp : c'.resp.phase = c.resp.phase)
    (hm : c'.resp.mmbuf = c.resp.mmbuf) :
    Mapped c' := by
  rw [Mapped, hp, hm]
  exact h

/-- The section `recv` builds no response. -/
theorem Mapped.recv_keeps (h : Mapped c) (hk : RecvKeeps c s c' s') : Mapped c' := by
  rcases hk.resp with ⟨hp, hm⟩ | hr | hr
  · exact h.congr hp hm
  · exact .of_phase (.inr (.inl hr))
  · exact .of_phase (.inr (.inr hr))

/-! ## Building a response -/

/-- A path that `resp_mmap` reports is mapped. -/
theorem respMmap_mapped {fs : Fs} {pick : Handles.Picker} {resp : Resp} {path : List Byte}
    {t : Handles.Table} (h : (respMmap fs pick resp path t).1 ≠ none) :
    (respMmap fs pick resp path t).2.1.mmbuf ≠ none := by
  unfold respMmap at h ⊢
  cases hst : fs.stat path with
  | none => simp [hst] at h
  | some st =>
    simp only [hst] at h ⊢
    split_ifs at h ⊢ with h1 h2 h3
    all_goals first | exact absurd rfl h | exact h3

/-- A file that was found is mapped. -/
theorem respTry_mapped {fs : Fs} {pick : Handles.Picker} {resp : Resp} {paths : List (List Byte)}
    {t : Handles.Table} (h : (respTry fs pick resp paths t).1 ≠ none) :
    (respTry fs pick resp paths t).2.1.mmbuf ≠ none := by
  induction paths generalizing resp t with
  | nil => exact absurd rfl h
  | cons path paths ih =>
    have hone := @respMmap_mapped fs pick resp path t
    unfold respTry at h ⊢
    rcases hm : respMmap fs pick resp path t with ⟨st, resp', t'⟩
    rw [hm] at h hone
    cases st with
    | none => exact ih h
    | some st => exact hone (by simp)

/-- A response that `resp_build` reports as built has its file mapped. -/
theorem respBuild_mapped {fs : Fs} {pick : Handles.Picker} {resp : Resp} {req : Req}
    {t : Handles.Table} (h : (respBuild fs pick resp req conf t).1 ≠ 0) :
    (respBuild fs pick resp req conf t).2.1.mmbuf ≠ none := by
  have htry := @respTry_mapped fs pick { resp with alive := req.alive } (respPaths req conf) t
  unfold respBuild at h ⊢
  dsimp only at h ⊢
  rcases ht : respTry fs pick { resp with alive := req.alive } (respPaths req conf)
    t with ⟨found, resp', t'⟩
  rw [ht] at h htry
  cases found with
  | none => exact absurd rfl h
  | some x =>
    have hm : resp'.mmbuf ≠ none := htry (by simp)
    dsimp only
    split
    · exact hm
    · exact hm

/-! ## The sections of a visit -/

/-- The transitions and the streaming to the CGI. -/
theorem stepMiddle_mapped (conf : Conf) (e : Env) (h : Mapped c) :
    Mapped (stepMiddle conf e c s).1 := by
  rcases h1 : stepPrepare conf e c (stepLogerr c s) with ⟨c1, s1⟩
  rcases h2 : stepInitCgi e c1 s1 with ⟨c2, s2⟩
  rw [stepMiddle_eq h1 h2]
  have hm1 : Mapped c1 := by
    unfold stepPrepare cnPrepareStaticHeader at h1
    dsimp only at h1
    split_ifs at h1 with hcond hb <;> rw [Prod.mk.injEq] at h1 <;> rw [← h1.1]
    · exact .of_phase (.inr (.inr rfl))
    · exact fun _ => respBuild_mapped hb
    · exact h
  have hm2 : Mapped c2 := by
    rcases stepInitCgi_cases e c1 s1 with ⟨-, he⟩ | ⟨-, -, -, he⟩ | ⟨-, -, -, he⟩ <;>
      (rw [h2, Prod.mk.injEq] at he; rw [he.1])
    · exact hm1
    · exact hm1.congr rfl rfl
    · exact .of_phase (.inr (.inr rfl))
  rcases stepStream_cases e c2 (stepSelect c2 s2) with ⟨-, he⟩ | ⟨-, -, -, he⟩ | ⟨-, -, -, -, he⟩ |
    ⟨-, -, -, -, he⟩ <;> rw [he]
  · exact hm2
  · exact .of_phase (.inr (.inr rfl))
  · exact hm2.congr rfl rfl
  · exact hm2.congr rfl rfl

/-- The reading of a CGI's output leaves a file that is sent mapped. -/
theorem stepFromCgi_mapped (e : Env) (h : Mapped c) : Mapped (stepFromCgi e c s).1 := by
  rcases stepFromCgi_cases e c s with ⟨s', he, -⟩
    | ⟨d, -, -, -, -, ⟨-, he⟩ | ⟨data, -, -, he⟩ | ⟨-, he⟩⟩ <;>
    rw [he]
  · exact h
  · exact .of_phase (.inr (.inr rfl))
  · exact h.congr rfl rfl
  · exact h.congr rfl rfl

/-- The file of a response being sent is mapped, and no null pointer was dereferenced. -/
def Sound (c : Conn) (s : Srv) : Prop := Mapped c ∧ s.bad_ptr = false

/-- The success callback forgets the file, and the next request has no response yet. -/
theorem lisoResetOrClose_sound (e : Env) (hidx : c.idx < s.pool.conns.length)
    (hs : s.bad_ptr = false) :
    (lisoResetOrClose e c s).Post Sound (fun s' => s'.bad_ptr = false) := by
  have hmap : (lisoResetOrClose e c s).Post (fun c' _ => Mapped c') (fun _ => True) := by
    rcases lisoResetOrClose_cases e c s with ⟨-, he⟩ | ⟨-, -, he⟩ | ⟨-, -, he⟩ <;> rw [he]
    · exact lisoDropConn_gone (c := c) (s := s.serve c) hidx
    · exact (Ret.post_some _ _).2 (.of_phase (.inl rfl))
    · have hready : Mapped (plResetConn (s.serve c) c.archive).1 := .of_phase (.inl rfl)
      exact (Ret.post_some _ _).2 (hready.recv_keeps (handOver_keeps e _ _))
  refine (hmap.and (lisoResetOrClose_served e hidx)).mono (fun c' s' h => ⟨h.1, ?_⟩) fun s' h => ?_
  · rw [h.2.2.bad_ptr]; exact hs
  · rw [h.2.bad_ptr]; exact hs

/-- A connection that is dropped dereferences nothing. -/
theorem lisoDropConn_sound {B : Conn → Srv → Prop} (hidx : c.idx < s.pool.conns.length)
    (hs : s.bad_ptr = false) : (lisoDropConn c s).Post B (fun s' => s'.bad_ptr = false) :=
  (lisoDropConn_post hidx).mono (fun _ _ h => h) fun s' h => by rw [h.bad_ptr]; exact hs

/-- The sending of a CGI's output. -/
theorem stepToClient_sound (e : Env) (h0 : 0 < c.fd) (hidx : c.idx < s.pool.conns.length)
    (h : Sound c s) :
    (stepToClient e c s).Post Sound (fun s' => s'.bad_ptr = false) := by
  rcases stepToClient_cases e c s h0 with ⟨-, he⟩ | ⟨-, -, ⟨-, -, he⟩ | ⟨-, ⟨-, he⟩ | ⟨-, he⟩⟩⟩
    <;> rw [he]
  · exact (Ret.post_some _ _).2 h
  · refine (lisoResetOrClose_sound (s := (s.probe c.fd).act c.fd) e hidx h.2).andThen fun c1 _ h1 =>
      ?_
    split
    · exact (Ret.post_some _ _).2 h1
    · exact (Ret.post_some _ _).2 h1
  · exact lisoDropConn_sound hidx h.2
  · refine (Ret.post_some _ _).2 ⟨h.1.congr rfl rfl, ?_⟩
    split
    · exact h.2
    · exact h.2

/-- The sending of a file or of an error page: the file is there when the code looks at it. -/
theorem cnServeStatic_sound (conf : Conf) (e : Env) (hidx : c.idx < s.pool.conns.length)
    (h : Sound c s) :
    (cnServeStatic conf e (lisoResetOrClose e) lisoDropConn c s).Post Sound
      (fun s' => s'.bad_ptr = false) := by
  have hcall : ∀ c1 : Conn, c1.idx = c.idx →
      (lisoResetOrClose e c1 s).Post Sound (fun s' => s'.bad_ptr = false) := fun c1 hi =>
    lisoResetOrClose_sound e (hi ▸ hidx) h.2
  have hdrop : ∀ c1 : Conn, c1.idx = c.idx →
      (lisoDropConn c1 s).Post Sound (fun s' => s'.bad_ptr = false) := fun c1 hi =>
    lisoDropConn_sound (hi ▸ hidx) h.2
  unfold cnServeStatic
  cases hr : c.resp.phase with
  | abort =>
    unfold cnSendErrorPage
    dsimp only
    split_ifs
    · exact hdrop _ rfl
    · exact hcall _ rfl
    · exact (Ret.post_some _ _).2 ⟨.of_phase (.inr (.inr hr)), h.2⟩
  | header =>
    dsimp only
    split
    · exact hdrop c rfl
    -- Behind its header, the file is still mapped.
    generalize hc : Conn.logSent _ _ = c1
    have hm1 : c1.resp.mmbuf = c.resp.mmbuf := by rw [← hc]; rfl
    have hi1 : c1.idx = c.idx := by rw [← hc]; rfl
    split
    · exact hcall c1 hi1
    split
    · rename_i hnone
      exact absurd (hm1.symm.trans hnone) (h.1 (.inl hr))
    · split
      · exact hcall c1 hi1
      · exact (Ret.post_some _ _).2 ⟨fun _ => hm1 ▸ h.1 (.inl hr), h.2⟩
  | body =>
    dsimp only
    split
    · rename_i hnone
      exact absurd hnone (h.1 (.inr hr))
    · split_ifs
      · exact hdrop c rfl
      · exact hcall _ rfl
      · exact (Ret.post_some _ _).2 ⟨fun _ => by simp [Conn.logSent], h.2⟩
  | ready => exact (Ret.post_some _ _).2 h
  | disabled => exact (Ret.post_some _ _).2 h

/-- The serving of files and pages dereferences no null pointer, and keeps what it serves mapped. -/
theorem stepStatic_sound (conf : Conf) (e : Env) (hidx : c.idx < s.pool.conns.length)
    (h : Sound c s) :
    (stepStatic conf e c s).Post Sound (fun s' => s'.bad_ptr = false) := by
  unfold stepStatic
  dsimp only
  split
  · exact cnServeStatic_sound (s := (s.probe c.fd).act c.fd) conf e hidx h
  · exact (Ret.post_some _ _).2 h

/-! ## Every run -/

/-- Every file being sent is mapped in every reachable state, and no null pointer was
dereferenced. -/
theorem sound_inv (h : Reach conf ok l) :
    (∀ c ∈ l.srv.pool.conns, Rest False c l.srv ∧ Mapped c) ∧ l.srv.bad_ptr = false := by
  refine reach_local (L := fun c s => Rest False c s ∧ Mapped c) (S := fun m => m.2.2 = false)
    ?_ rfl ?_ ?_ h
  · exact ⟨fun c s i h => ⟨Rest.stable.idx c s i h.1, h.2⟩,
      fun c s s' h hk => ⟨Rest.stable.keep c s s' h.1 hk, h.2⟩⟩
  · intro c s ha _ hr hw
    refine ⟨ha.rest hr hw, ?_⟩
    obtain ⟨fd, idx, mem, id, addr, port, scheme, ssl, rfl⟩ := ha
    exact .of_phase (.inl rfl)
  · intro l ev i m c hl _ hpc hc hH hready hL hS
    have h0 : c.fd ≠ 0 := fun he => hH.fd_notMem (he ▸ .inl hl.zero_mem)
    refine (visit_stages (R := Sound) (M := Sound) (D := Sound) (B := Sound) (L := Sound)
      (G := fun s => s.bad_ptr = false) h0 hH hready hL.1 (fun f => f.elim) ?_ ?_ ?_ ?_ ?_ ?_).mono
      (fun _ _ h => ⟨⟨h.1, h.2.1⟩, h.2.2⟩) fun _ h => h
    · refine (stepRecv_keeps ev.env hH.idx (c := c)).mono (fun c' s' hk => ⟨hL.2.recv_keeps hk, ?_⟩)
        fun s' hk => ?_
      · rw [hk.marks.bad_ptr]; exact hS
      · rw [hk.bad_ptr]; exact hS
    · exact fun p _ _ _ hr => ⟨stepMiddle_mapped conf ev.env hr.1, by
        rw [(stepMiddle_marks conf ev.env p.1 p.2).bad_ptr]; exact hr.2⟩
    · exact fun _ _ _ _ hr => hr
    · exact fun p _ _ _ _ hr => ⟨stepFromCgi_mapped ev.env hr.1, by
        rw [(stepFromCgi_marks ev.env p.1 p.2).bad_ptr]; exact hr.2⟩
    · exact fun p _ h0 hH' _ hr => stepToClient_sound ev.env h0 hH'.idx hr
    · exact fun p _ hH' _ hr => stepStatic_sound conf ev.env hH'.idx hr

/-- The phases of a connection agree. -/
structure Joint (c : Conn) : Prop where
  /-- In the head. -/
  head : c.req.phase = .start ∨ c.req.phase = .header → c.resp.phase = .ready ∧ c.cgi.phase = .idle
  /-- In the body of a static request. -/
  body_static : c.req.phase = .body → c.req.type = .static → c.resp.phase = .ready ∧
    c.cgi.phase = .disabled
  /-- In the body of a dynamic request. -/
  body_dynamic : c.req.phase = .body → c.req.type = .dynamic →
    c.resp.phase = .disabled ∧ (c.cgi.phase = .ready ∨ c.cgi.phase = .srvToCgi)
  /-- Behind a static request. -/
  done_static : c.req.phase = .done → c.req.type = .static → c.cgi.phase = .disabled ∧
    (c.resp.phase = .ready ∨ (c.resp.phase = .header ∨ c.resp.phase = .body) ∧ c.resp.mmbuf ≠ none)
  /-- Behind a dynamic request. -/
  done_dynamic : c.req.phase = .done → c.req.type = .dynamic → c.resp.phase = .disabled ∧
    (c.cgi.phase = .ready ∨ c.cgi.phase = .cgiToSrv ∨ c.cgi.phase = .done)
  /-- A failed request. -/
  abort : c.req.phase = .abort ↔ c.resp.phase = .abort
  /-- A chunk of a CGI's output in the buffer. -/
  send : c.cgi.buf_phase = .send → c.req.phase = .done ∧ c.req.type = .dynamic ∧
    (c.cgi.phase = .cgiToSrv ∨ c.cgi.phase = .done)
  /-- The tests of the two senders exclude each other. -/
  senders : ¬ ((c.req.type = .dynamic ∧ c.cgi.buf_phase = .send) ∧ c.resp.phase ≠ .disabled)

/-- The shape of a connection, its bits at rest, and its file. -/
theorem Rest.joint (h : Rest False c s) (hm : Mapped c) : Joint c := by
  have hstream := h.streamed
  refine ⟨?_, ?_, ?_, ?_, ?_, ?_, fun hb => ?_, fun hs => ?_⟩
  case refine_7 =>
    obtain ⟨hp, ht, -, hg⟩ := h.shape.of_send hb
    exact ⟨hp, ht, hg.imp_left And.left⟩
  case refine_8 => exact hs.2 (h.shape.of_send hs.1.2).2.2.1
  all_goals
    unfold Mapped at hm
    cases h.shape with
    | head hp hg hr hb => rcases hp with hp | hp <;> simp [hp, hg, hr]
    | bodyStatic hp ht hg hr hb | bodyReady hp ht hg hr hb | bodyStream hp ht hg hr hb hin
    | doneReady hp ht hg hr hb | relay hp ht hg hr hin
    | relayEnd hp ht hg hr => simp [hp, ht, hg, hr]
    | doneStatic hp ht hg hr hb =>
      rcases hr with hr | hr | hr <;> simp [hr] at hm <;> simp [hp, ht, hg, hr, hm]
    | doneStream hp ht hg hr hb hin => exact absurd hg (hstream hp)
    | abort hp hr hb hg hg' => simp [hp, hr]

/-- In the runs in which the hosts fit, the phases of every connection agree in every state, no copy
of a host was too long, and `cn_serve_static` has dereferenced no null pointer. -/
theorem phases_joint (h : Reach conf (Visiting (Hosted conf)) l) :
    (∀ c ∈ l.srv.pool.conns, Joint c ∧ c.Unmarked) ∧ l.srv.bad_ptr = false := by
  obtain ⟨hall, hptr⟩ := sound_inv h.weaken
  exact ⟨fun c hc => ⟨(hall c hc).1.joint (hall c hc).2, unmarked_inv h c hc⟩, hptr⟩

/-- A request for a file is taken over when the response of a CGI ends. -/
theorem phases_joint_cgi :
    (∀ c ∈ (Runs.exec (step Sample.conf) Sample.start
        (Sample.cgi "GET /x HTTP/1.1\r\n\r\n")).srv.pool.conns,
      Joint c ∧ c.Unmarked) ∧
    (Runs.exec (step Sample.conf) Sample.start (Sample.cgi "GET /x HTTP/1.1\r\n\r\n")).srv.bad_ptr =
      false :=
  phases_joint ((Runs.Reach.start Sample.start_init).along _ (by decide +kernel))

/-- The connection with what the copy of its host has left of the request in memory. -/
def Conn.inMemory (c : Conn) : Conn := { c with req := c.req.inMemory }

/-- The run in which a client sends a host of 296 bytes and one more with the number of `REQ_ABORT`,
and then nothing. -/
def overrunRun : List Ev :=
  Sample.connect ++ Sample.select {5} ∅ ++
    [Sample.visit { Sample.env with
        recv := some
          (str "GET / HTTP/1.1\r\nHost: " ++ List.replicate 296 97 ++ [5] ++ str "\r\n") },
      Sample.next]

/-- The byte reaches the phase of the request, behind the other fields, and no error page is due. -/
theorem phases_overrun : ¬ ∀ l, Reach Sample.conf Runs.any l → l.pc = .select →
    ∀ c ∈ l.srv.pool.conns, Joint c.inMemory := by
  intro h
  have habort := fun c hc => (h _ (Sample.reach overrunRun) (by decide +kernel) c hc).abort
  revert habort
  decide +kernel

end Liso
