import Liso.Loop.Rest
import Liso.Select

/-!
# What a CGI inherits

`fork` copies the table of descriptors, and nothing in the server marks a descriptor close-on-exec.
Before `execve` the child of `cgi_init` closes the server's ends of its own three pipes and puts its
own ends on the standard streams; it knows of no other descriptor. `child_table` computes its table,
and `child_inherits` says what that is in any reachable state: its own channels on the standard
streams, and behind them both listeners, the socket of every connection, and the pipes of every
other CGI.
-/

namespace Liso

open Handles (Table Picker)

variable {conf : Conf} {ok : Loop → Ev → Prop} {l : Loop} {c : Conn} {s : Srv} {e : Env}
  {cgi : Cgi} {t : Table}

/-- `STDIN_FILENO`. -/
def STDIN : ℕ := 0

/-- `STDOUT_FILENO`. -/
def STDOUT : ℕ := 1

/-- `STDERR_FILENO`. -/
def STDERR : ℕ := 2

/-- The structure and the table at the `fork` of `cgi_init`: both processes go on with them. -/
def cgiFork (e : Env) (cgi : Cgi) (fds : Table) : Cgi × Table :=
  let (in0, in1, fds) := newPipe e.pick fds
  let (out0, out1, fds) := newPipe e.pick fds
  let (err0, err1, fds) := newPipe e.pick fds
  ({ cgi with
      cgi_in := some in0, srv_out := some in1, cgi_out := some out1, srv_in := some out0,
      cgi_err := some err1, srv_err := some err0 }, fds)

/-- `dup2` on a field of the structure; it fails on `-1`. -/
def dupPipe (f : Option ℕ) (new : ℕ) (fds : Table) : Table :=
  match f with
  | some d => fds.dup2 d new
  | none => fds

/-- `cgi_init` in the child: its table when it calls `execve`. -/
def cgiChild (e : Env) (cgi : Cgi) (fds : Table) : Table :=
  let (cgi, fds) := cgiFork e cgi fds
  let fds := closePipe cgi.srv_in fds
  let fds := closePipe cgi.srv_out fds
  let fds := closePipe cgi.srv_err fds
  let fds := dupPipe cgi.cgi_in STDIN fds
  let fds := dupPipe cgi.cgi_out STDOUT fds
  dupPipe cgi.cgi_err STDERR fds

/-- The connection and the server of a visit when `cgi_init` is called, in the visits that call
it. -/
def beforeInit (conf : Conf) (e : Env) (c : Conn) (s : Srv) : Option (Conn × Srv) :=
  ((afterRecv e c s).map fun p => stepPrepare conf e p.1 (stepLogerr p.1 p.2)).filter fun p =>
    p.1.req.type = .dynamic ∧ p.1.cgi.phase = .ready

/-- The descriptors that the CGI of the connection in the place `i` has no use for: the listeners,
the sockets of all connections, and the pipes of the others. -/
def Srv.foreign (conf : Conf) (s : Srv) (i : ℕ) : Set ℕ :=
  {d | d = conf.sock ∨ d = conf.ssl_sock ∨ (∃ c ∈ s.pool.conns, d = c.fd) ∨
    ∃ (j : ℕ) (c : Conn), j ≠ i ∧ s.pool.conns[j]? = some c ∧ d ∈ c.cgi.pipes}

/-! ## The table of the child -/

/-- The server goes on with the structure and the table of the fork, and closes the child's ends. -/
theorem cgiInit_fork (h : (cgiInit e cgi t).1 = true) :
    ∃ pid, e.fork = some pid ∧
      (cgiInit e cgi t).2.1 = { (cgiFork e cgi t).1 with
        pid := pid, cgi_in := none, cgi_out := none, cgi_err := none, phase := .srvToCgi } ∧
      (cgiInit e cgi t).2.2 = closePipe (cgiFork e cgi t).1.cgi_err
        (closePipe (cgiFork e cgi t).1.cgi_out
        (closePipe (cgiFork e cgi t).1.cgi_in (cgiFork e cgi t).2)) := by
  unfold cgiInit at h ⊢
  unfold cgiFork
  dsimp only at h ⊢
  split_ifs at h ⊢ with h1 h2 h3 h4
  cases hf : e.fork with
  | none => simp [hf] at h
  | some pid => exact ⟨pid, rfl, rfl, rfl⟩

/-- The six ends are new and distinct, and the descriptors from before stay. -/
theorem cgiFork_spec (e : Env) (cgi : Cgi) (t : Table) :
    ∃ in0 in1 out0 out1 err0 err1 : ℕ,
      (cgiFork e cgi t).1 = { cgi with
        cgi_in := some in0, srv_out := some in1, cgi_out := some out1, srv_in := some out0,
        cgi_err := some err1, srv_err := some err0 } ∧
      [in0, in1, out0, out1, err0, err1].Nodup ∧
      (∀ d ∈ [in0, in1, out0, out1, err0, err1], d ∉ t.dom ∧ d ∈ (cgiFork e cgi t).2.dom) ∧
      ∀ d ∈ t.dom, (cgiFork e cgi t).2.obj d = t.obj d := by
  rcases he1 : newPipe e.pick t with ⟨in0, in1, t1⟩
  rcases he2 : newPipe e.pick t1 with ⟨out0, out1, t2⟩
  rcases he3 : newPipe e.pick t2 with ⟨err0, err1, t3⟩
  obtain ⟨h1, h2, h3, hd1, ho1⟩ := he1 ▸ newPipe_spec e.pick t
  obtain ⟨h4, h5, h6, hd2, ho2⟩ := he2 ▸ newPipe_spec e.pick t1
  obtain ⟨h7, h8, h9, hd3, ho3⟩ := he3 ▸ newPipe_spec e.pick t2
  simp only at h1 h2 h3 h4 h5 h6 h7 h8 h9 hd1 hd2 hd3 ho1 ho2 ho3
  rw [hd1] at h4 h5 hd2 ho2
  rw [hd2] at h7 h8 hd3 ho3
  simp only [cgiFork, he1, he2, he3]
  refine ⟨in0, in1, out0, out1, err0, err1, rfl, ?_, ?_, fun d hd => ?_⟩
  · simp only [List.mem_cons, not_or] at h4 h5 h7 h8
    simp only [List.nodup_cons, List.mem_cons, not_or, List.not_mem_nil, not_false_eq_true,
      List.nodup_nil, and_true]
    grind
  · rw [hd3]
    simp only [List.mem_cons, not_or] at h4 h5 h7 h8
    grind
  · rw [ho3 d (by simp [hd]), ho2 d (by simp [hd]), ho1 d hd]

/-- The table of the child, if the first two standard streams were open: the standard streams are
its own channels, the server's ends of its pipes are closed, and every other number names what it
named at the fork. -/
theorem child_table (e : Env) (cgi : Cgi) (h0 : STDIN ∈ t.dom) (h1 : STDOUT ∈ t.dom) (d : ℕ) :
    (cgiChild e cgi t).obj d =
      if d = STDERR then (cgiFork e cgi t).1.cgi_err.bind (cgiFork e cgi t).2.obj
      else if d = STDOUT then (cgiFork e cgi t).1.cgi_out.bind (cgiFork e cgi t).2.obj
      else if d = STDIN then (cgiFork e cgi t).1.cgi_in.bind (cgiFork e cgi t).2.obj
      else if some d ∈ [(cgiFork e cgi t).1.srv_in, (cgiFork e cgi t).1.srv_out,
        (cgiFork e cgi t).1.srv_err] then none
      else (cgiFork e cgi t).2.obj d := by
  obtain ⟨in0, in1, out0, out1, err0, err1, hg, hnd, hnew, -⟩ := cgiFork_spec e cgi t
  unfold cgiChild
  rcases hf : cgiFork e cgi t with ⟨g, u⟩
  rw [hf] at hg hnew
  dsimp only at hg hnew ⊢
  subst hg
  dsimp only [dupPipe, Option.bind_some]
  generalize hv : closePipe (some err0) (closePipe (some in1) (closePipe (some out0) u)) = v
  have hobj : ∀ x, v.obj x = if x = err0 ∨ x = in1 ∨ x = out0 then none else u.obj x := by
    intro x
    rw [← hv]
    simp only [closePipe_obj, Option.some.injEq]
    grind
  -- The ends that the child keeps differ from those it closes, and from the numbers it overwrites
  -- before it duplicates them.
  have hkeep : ∀ x ∈ [in0, out1, err1], x ∈ v.dom ∧ v.obj x = u.obj x ∧ x ≠ STDIN ∧ x ≠ STDOUT := by
    intro x hx
    have hx6 : x ∈ [in0, in1, out0, out1, err0, err1] := by grind
    have hne : ¬ (x = err0 ∨ x = in1 ∨ x = out0) := by
      simp only [List.nodup_cons, List.mem_cons, not_or, List.not_mem_nil, not_false_eq_true,
        List.nodup_nil, and_true] at hnd
      grind
    have ho := hobj x
    rw [if_neg hne] at ho
    refine ⟨?_, ho, ?_, ?_⟩
    · rw [← Table.obj_isSome, ho, Table.obj_isSome]
      exact (hnew x hx6).2
    · exact fun he => (hnew x hx6).1 (he ▸ h0)
    · exact fun he => (hnew x hx6).1 (he ▸ h1)
  obtain ⟨hin, hino, -, -⟩ := hkeep in0 (by simp)
  obtain ⟨hout, houto, hout0, -⟩ := hkeep out1 (by simp)
  obtain ⟨herr, -, herr0, herr1⟩ := hkeep err1 (by simp)
  have hv1 := v.obj_dup2 STDIN hin
  generalize v.dup2 in0 STDIN = v1 at hv1 ⊢
  have hout' : out1 ∈ v1.dom := by
    rw [← Table.obj_isSome, hv1, if_neg hout0, Table.obj_isSome]
    exact hout
  have hv2 := v1.obj_dup2 STDOUT hout'
  generalize v1.dup2 out1 STDOUT = v2 at hv2 ⊢
  have herr' : err1 ∈ v2.dom := by
    rw [← Table.obj_isSome, hv2, if_neg herr1, hv1, if_neg herr0, Table.obj_isSome]
    exact herr
  rw [v2.obj_dup2 STDERR herr', hv2, if_neg herr1, hv1, if_neg herr0, hv2,
    hv1, if_neg hout0, hv1, hobj]
  simp only [hino, houto, List.mem_cons, Option.some.injEq, List.not_mem_nil, or_false]
  grind

/-! ## Every CGI of a run -/

/-- Apart from the connection's own socket, the descriptors that its CGI has no use for belong to
the others. -/
theorem foreign_cases (hs : conf.sock ∈ conf.base) (hss : conf.ssl_sock ∈ conf.base) {i : ℕ}
    (hc : s.pool.conns[i]? = some c) {d : ℕ} (hd : d ∈ s.foreign conf i) :
    d ∈ s.others conf i ∨ d = c.fd := by
  rcases hd with rfl | rfl | ⟨c', hc', rfl⟩ | ⟨j, c', hj, hc', hd⟩
  · exact .inl (.inl hs)
  · exact .inl (.inl hss)
  · obtain ⟨j, hj⟩ := List.mem_iff_getElem?.1 hc'
    by_cases hji : j = i
    · subst hji
      rw [hc, Option.some.injEq] at hj
      exact .inr (hj ▸ rfl)
    · exact .inl (.inr ⟨j, c', hji, hj, c'.fd_mem_owned⟩)
  · exact .inl (.inr ⟨j, c', hj, hc', (c'.mem_owned d).2 (.inr hd)⟩)

/-- The call of `cgi_init` finds the descriptors of the connection and those of the others as they
were. -/
theorem beforeInit_at {A : Set ℕ} (hH : Held False A c s) {p : Conn × Srv}
    (hp : p ∈ beforeInit conf e c s) :
    (∀ d ∈ A, d ∈ p.2.fds.dom ∧ p.2.fds.obj d = s.fds.obj d) ∧
      c.fd ∈ p.2.fds.dom ∧ p.2.fds.obj c.fd = s.fds.obj c.fd := by
  obtain ⟨hp, -⟩ := Option.mem_filter_iff.1 hp
  obtain ⟨q, hq, rfl⟩ := Option.map_eq_some_iff.1 hp
  obtain ⟨c1, hc1, rfl⟩ := Option.map_eq_some_iff.1 hq
  have hrecv := stepRecv_frame (G := fun _ => True) e c s hH fun _ => trivial
  obtain ⟨-, hH1, hM1⟩ := hrecv.of_some hc1
  obtain ⟨hH2, hM2⟩ := (stepLogerr_frame c1 (stepRecv e c s).srv fun _ _ _ => trivial).trans
    (stepPrepare_frame (A := A) (G := fun _ => True) conf e c1 _ fun f => f.elim) hH1 fun _ =>
      trivial
  have hM := hM1.trans hM2
  refine ⟨fun d hd => ⟨hH2.others d hd, hM.keeps.obj d hd⟩, ?_, hM.sock⟩
  rw [← hM.fd]
  exact hH2.own _ (Conn.fd_mem_owned _)

/-- A CGI of a reachable server, when its process calls `execve`. Its standard streams are the ends
of its own pipes, and the server's ends of these are closed in it. Everything else that the server
had open when it called `cgi_init` is open in it, and so are both listeners, the sockets of all
connections, and the pipes of the other CGIs, unless the number is that of a standard stream.
`daemonize` opens standard output. -/
theorem child_inherits (h1 : STDOUT ∈ conf.base) (h : Reach conf ok l) {i : ℕ}
    (hc : l.srv.pool.conns[i]? = some c) {p : Conn × Srv} (hp : p ∈ beforeInit conf e c l.srv)
    (hinit : (cgiInit e p.1.cgi p.2.fds).1 = true) :
    let fork := cgiFork e p.1.cgi p.2.fds
    let child := cgiChild e p.1.cgi p.2.fds
    (child.obj STDIN = fork.1.cgi_in.bind fork.2.obj ∧
      child.obj STDOUT = fork.1.cgi_out.bind fork.2.obj ∧
        child.obj STDERR = fork.1.cgi_err.bind fork.2.obj) ∧
      (∀ d ∈ (cgiInit e p.1.cgi p.2.fds).2.1.pipes, d ≠ STDERR → child.obj d = none) ∧
      (∀ d ∈ p.2.fds.dom, d ∉ [STDIN, STDOUT, STDERR] → child.obj d = p.2.fds.obj d) ∧
      ∀ d ∈ l.srv.foreign conf i, d ∉ [STDIN, STDOUT, STDERR] →
        d ∈ l.srv.fds.dom ∧ child.obj d = l.srv.fds.obj d := by
  have hinv := (loop_inv h).pool
  obtain ⟨hothers, hsock⟩ := beforeInit_at (hinv.held i c hc) hp
  have hbase : ∀ d ∈ conf.base, d ∈ p.2.fds.dom := fun d hd => (hothers d (.inl hd)).1
  have htable := child_table e p.1.cgi (hbase STDIN (Reach.zero_mem h)) (hbase STDOUT h1)
  obtain ⟨in0, in1, out0, out1, err0, err1, hg, -, hnew, hold⟩ := cgiFork_spec e p.1.cgi p.2.fds
  -- What was open before the pipes were made is none of their ends, so it is not closed.
  have hkept : ∀ d ∈ p.2.fds.dom, d ∉ [STDIN, STDOUT, STDERR] →
      (cgiChild e p.1.cgi p.2.fds).obj d = p.2.fds.obj d := by
    intro d hd hstd
    simp only [List.mem_cons, List.not_mem_nil, or_false, not_or] at hstd
    have hends :
      some d ∉ [(cgiFork e p.1.cgi p.2.fds).1.srv_in, (cgiFork e p.1.cgi p.2.fds).1.srv_out,
        (cgiFork e p.1.cgi p.2.fds).1.srv_err] := by
      rw [hg]
      simp only [List.mem_cons, Option.some.injEq, List.not_mem_nil, or_false]
      rintro (rfl | rfl | rfl)
      · exact (hnew _ (by simp)).1 hd
      · exact (hnew _ (by simp)).1 hd
      · exact (hnew _ (by simp)).1 hd
    rw [htable, if_neg hstd.2.2, if_neg hstd.2.1, if_neg hstd.1, if_neg hends]
    exact hold d hd
  refine ⟨⟨?_, ?_, ?_⟩, fun d hd herr => ?_, hkept, fun d hd hstd => ?_⟩
  · rw [htable]
    rfl
  · rw [htable]
    rfl
  · rw [htable]
    rfl
  · -- The ends that the server keeps are those that the child closes.
    obtain ⟨pid, -, hg', -⟩ := cgiInit_fork hinit
    have hd : d ∈ [in1, out0, err0] := by
      rw [hg', hg] at hd
      exact hd
    have hne : ∀ x ∈ p.2.fds.dom, d ≠ x := by
      rintro x hx rfl
      exact (hnew d (by grind)).1 hx
    have hends :
      some d ∈ [(cgiFork e p.1.cgi p.2.fds).1.srv_in, (cgiFork e p.1.cgi p.2.fds).1.srv_out,
        (cgiFork e p.1.cgi p.2.fds).1.srv_err] := by
      rw [hg]
      simp only [List.mem_cons, Option.some.injEq, List.not_mem_nil, or_false] at hd ⊢
      grind
    rw [htable, if_neg herr, if_neg (hne _ (hbase STDOUT h1)),
      if_neg (hne _ (hbase STDIN (Reach.zero_mem h))),
      if_pos hends]
  · obtain ⟨hopen, hobj⟩ : d ∈ p.2.fds.dom ∧ p.2.fds.obj d = l.srv.fds.obj d := by
      rcases foreign_cases (listening h).2.1 (listening h).2.2.1 hc hd with hd | rfl
      · exact hothers d hd
      · exact hsock
    refine ⟨?_, (hkept d hopen hstd).trans hobj⟩
    rw [← Table.obj_isSome, ← hobj, Table.obj_isSome]
    exact hopen

/-! ## Two CGIs at a time -/

/-- Two connections are accepted, and the first one sends a part of a body to a CGI. -/
def overlap : List Ev :=
  Sample.connect ++ Sample.select {3, 5} ∅ ++
    [Sample.recv "POST /cgi/x HTTP/1.1\r\nContent-Length:4\r\n\r\nab", Sample.next, Sample.next] ++
    Sample.select {6} ∅ ++ [Sample.next]

/-- The server after that, before it visits the second connection. -/
def overlapped : Loop := Runs.exec (step Sample.conf) Sample.start overlap

/-- The answers in the visit to the second connection: a request for a CGI arrives. -/
def second : Env :=
  { Sample.env with recv := some (str "POST /cgi/y HTTP/1.1\r\nContent-Length:0\r\n\r\n") }

/-- The CGI of the second connection holds the listeners, both sockets, and the pipes of the first
one, among them the end that the server is still writing to. -/
theorem child_shares :
    Reach Sample.conf Runs.any overlapped ∧ overlapped.srv.pool.conns.length = 2 ∧
      ∀ first ∈ overlapped.srv.pool.conns[0]?, first.cgi.srv_out.isSome ∧
        ∀ c ∈ overlapped.srv.pool.conns[1]?,
          (beforeInit Sample.conf second c overlapped.srv).isSome ∧
          ∀ p ∈ beforeInit Sample.conf second c overlapped.srv,
            (cgiInit second p.1.cgi p.2.fds).1 = true ∧
            ∀ d ∈ [Sample.conf.sock, Sample.conf.ssl_sock, first.fd, c.fd] ++ first.cgi.pipes,
              (overlapped.srv.fds.obj d).isSome ∧
                (cgiChild second p.1.cgi p.2.fds).obj d = overlapped.srv.fds.obj d :=
  ⟨Sample.reach overlap, by decide +kernel⟩

/-- What the CGI of the second connection inherits. -/
theorem child_inherits_second :
    ∃ c p, overlapped.srv.pool.conns[1]? = some c ∧
      p ∈ beforeInit Sample.conf second c overlapped.srv ∧
      ∀ d ∈ overlapped.srv.foreign Sample.conf 1, d ∉ [STDIN, STDOUT, STDERR] →
        d ∈ overlapped.srv.fds.dom ∧ (cgiChild second p.1.cgi p.2.fds).obj d =
          overlapped.srv.fds.obj d := by
  have hc : (overlapped.srv.pool.conns[1]?).isSome := by decide +kernel
  obtain ⟨c, hc⟩ := Option.isSome_iff_exists.1 hc
  have hall : ∀ c ∈ overlapped.srv.pool.conns[1]?,
    (beforeInit Sample.conf second c overlapped.srv).isSome ∧
      ∀ p ∈ beforeInit Sample.conf second c overlapped.srv,
        (cgiInit second p.1.cgi p.2.fds).1 = true := by
    decide +kernel
  obtain ⟨hsome, hinit⟩ := hall c hc
  obtain ⟨p, hp⟩ := Option.isSome_iff_exists.1 hsome
  refine ⟨c, p, hc, hp, ?_⟩
  exact (child_inherits (by decide) (Sample.reach overlap) hc hp (hinit p hp)).2.2.2

end Liso
