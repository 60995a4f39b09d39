import Liso.Select
import Liso.Inherit
import Liso.Loop.Sample

/-!
# From `exec` to the main loop (`lisod.c`, `daemon.c`, `logging.c`)

What `main` does before its loop, over the table of descriptors with which the process was started.
Each of `socket`, `open` and the rest of the calls that open something returns the lowest free
number, and what they answer besides is in `Boot`. `startup_listens` is the property of all runs
that comes of it, and says what the numbers in `main`'s variables name: `daemonize` closes the
descriptors 0 and 1 whatever they are, and they are the listeners when the server was started
without its standard input or output.
-/

namespace Liso

open Handles (Table Picker)

/-! ## The code -/

/-- What the calls in `open_listener_socket` answer. -/
structure Listen where
  /-- `socket` succeeds. -/
  socket : Bool
  /-- `bind` succeeds. -/
  bind : Bool
  /-- `listen` succeeds. -/
  listen : Bool

/-- What the calls before the main loop answer. -/
structure Boot where
  /-- The listener of the HTTP port. -/
  http : Listen
  /-- The listener of the HTTPS port. -/
  https : Listen
  /-- `fork` succeeds in `daemonize`, and this is the child. -/
  fork : Bool
  /-- The lock file can be opened. -/
  lock_open : Bool
  /-- The lock file can be locked. -/
  lock_free : Bool
  /-- `/dev/null` can be opened for reading. -/
  null_in : Bool
  /-- `/dev/null` can be opened for writing. -/
  null_out : Bool
  /-- `SSL_CTX_new` succeeds. -/
  ctx : Bool
  /-- The private key can be used. -/
  key : Bool
  /-- The certificate can be used. -/
  crt : Bool
  /-- The number of descriptors that the TLS library keeps open. -/
  kept : ℕ
  /-- The log can be opened. -/
  log_open : Bool
  /-- Nobody has locked the log. -/
  log_free : Bool

/-- `open_listener_socket`; `none` is the end of the process. -/
def openListenerSocket (a : Listen) (t : Table) : Option (ℕ × Table) :=
  if !a.socket then none
  else
    let (sock, t) := t.alloc .lowest
    if !a.bind then none
    else if !a.listen then none
    else some (sock, t)

/-- `open("/dev/null", ..)`, whose failure is not noticed. -/
def openNull (ok : Bool) (t : Table) : Table := if ok then (t.alloc .lowest).2 else t

/-- `daemonize`, in the child: the descriptor of the lock file. The first parent ends. -/
def daemonize (b : Boot) (t : Table) : Option (ℕ × Table) :=
  if !b.fork then none
  else if !b.lock_open then none
  else
    let (lfp, t) := t.alloc .lowest
    if !b.lock_free then none
    else
      -- Close stdin and stdout for the pipes, and stub them.
      let t := (t.free STDIN).free STDOUT
      some (lfp, openNull b.null_out (openNull b.null_in t))

/-- The descriptors that a library keeps. -/
def keep : ℕ → Table → Table
  | 0, t => t
  | n + 1, t => keep n (t.alloc .lowest).2

/-- `new_ssl_ctx`. A key that does not fit the certificate is only reported. -/
def newSslCtx (b : Boot) (t : Table) : Option Table :=
  if !b.ctx then none
  else if !b.key then none
  else if !b.crt then none
  else some (keep b.kept t)

/-- `log_init`: the descriptor of the log. -/
def openLog (b : Boot) (t : Table) : Option (ℕ × Table) :=
  if !b.log_open then none
  else
    let (fd, t) := t.alloc .lowest
    if !b.log_free then none else some (fd, t)

/-- What the process has when it enters the main loop. -/
structure Started where
  /-- The configuration with the listeners. -/
  conf : Conf
  /-- `lfp`, the descriptor of the lock file. -/
  lfp : ℕ
  /-- The descriptor of the log. -/
  log : ℕ
  /-- The main loop. -/
  loop : Loop

/-- `pl_new` with its marks, over the open descriptors. -/
def enter (sock ssl_sock : ℕ) (t : Table) : Loop :=
  { srv :=
      { pool := plNew sock ssl_sock, fds := t, snap := ⟨[], 0⟩, acts := [],
        served := [], accepted := 0,
        bad_fd := decide (FD_SETSIZE ≤ sock) || decide (FD_SETSIZE ≤ ssl_sock), bad_ptr := false }
    pc := .select }

/-- `main` up to the loop, with the arguments in `conf`. -/
def startup (b : Boot) (conf : Conf) (t : Table) : Option Started := do
  let (sock, t) ← openListenerSocket b.http t
  let (ssl_sock, t) ← openListenerSocket b.https t
  let (lfp, t) ← daemonize b t
  let t ← newSslCtx b t
  let (log, t) ← openLog b t
  return ⟨{ conf with sock := sock, ssl_sock := ssl_sock, base := t.dom }, lfp,
    log, enter sock ssl_sock t⟩

/-! ## What is open -/

/-- A listener that was opened has the lowest number. -/
theorem openListenerSocket_some {a : Listen} {t : Table} {x : ℕ × Table}
    (h : openListenerSocket a t = some x) :
    x = t.alloc .lowest := by
  unfold openListenerSocket at h
  split_ifs at h
  exact (Option.some.inj h).symm

/-- A log that was opened has the lowest number. -/
theorem openLog_some {b : Boot} {t : Table} {x : ℕ × Table} (h : openLog b t = some x) :
    x = t.alloc .lowest := by
  unfold openLog at h
  split_ifs at h
  exact (Option.some.inj h).symm

/-- `daemonize` opens the lock file, and closes 0 and 1. -/
theorem daemonize_some {b : Boot} {t : Table} {x : ℕ × Table} (h : daemonize b t = some x) :
    x.1 = (t.alloc .lowest).1 ∧ (((t.alloc .lowest).2.free STDIN).free STDOUT).Extends x.2 := by
  unfold daemonize at h
  split_ifs at h
  cases h
  refine ⟨rfl, ?_⟩
  unfold openNull
  split_ifs
  · exact ((Table.Extends.refl _).alloc _).alloc _
  · exact (Table.Extends.refl _).alloc _
  · exact (Table.Extends.refl _).alloc _
  · exact Table.Extends.refl _

/-- Descriptors that a library keeps leave the others open. -/
theorem keep_extends {t t' : Table} (h : t.Extends t') (n : ℕ) : t.Extends (keep n t') := by
  induction n generalizing t' with
  | zero => exact h
  | succ n ih => exact ih (h.alloc _)

/-- `new_ssl_ctx` leaves all descriptors open. -/
theorem newSslCtx_extends {b : Boot} {t t' t'' : Table} (h : t.Extends t')
    (hs : newSslCtx b t' = some t'') :
    t.Extends t'' := by
  unfold newSslCtx at hs
  split_ifs at hs
  cases hs
  exact keep_extends h _

/-- What the process has open when it enters the loop, by the numbers that `main` keeps. -/
theorem startup_some {b : Boot} {conf : Conf} {t : Table} {st : Started}
    (h : startup b conf t = some st) :
    let t1 := (t.alloc .lowest).2
    let t2 := (t1.alloc .lowest).2
    let t3 := (t2.alloc .lowest).2
    st.conf.sock = (t.alloc .lowest).1 ∧ st.conf.ssl_sock = (t1.alloc .lowest).1 ∧
      st.lfp = (t2.alloc .lowest).1 ∧
      st.conf.base = st.loop.srv.fds.dom ∧
        st.loop = enter st.conf.sock st.conf.ssl_sock st.loop.srv.fds ∧
      ∃ t', ((t3.free STDIN).free STDOUT).Extends t' ∧ st.log = (t'.alloc .lowest).1 ∧
        st.loop.srv.fds = (t'.alloc .lowest).2 := by
  simp only [startup, Option.bind_eq_bind, Option.bind_eq_some_iff] at h
  obtain ⟨x1, h1, x2, h2, x3, h3, t4, h4, x5, h5, hst⟩ := h
  cases openListenerSocket_some h1
  cases openListenerSocket_some h2
  obtain ⟨hlfp, hext⟩ := daemonize_some h3
  cases openLog_some h5
  cases hst
  exact ⟨rfl, rfl, hlfp, rfl, rfl, t4, newSslCtx_extends hext h4, rfl, rfl⟩

/-- Two objects later the descriptors 0 and 1 are in use, whatever the process was started with. -/
theorem low_open (t : Table) :
    0 ∈ ((t.alloc .lowest).2.alloc .lowest).2.dom ∧
      1 ∈ ((t.alloc .lowest).2.alloc .lowest).2.dom := by
  have hzero : 0 ∈ (t.alloc .lowest).2.dom := by
    by_contra h
    rw [Table.dom_alloc, List.mem_cons, not_or] at h
    exact h.2 (Picker.lowest_least t.dom (Nat.pos_of_ne_zero (Ne.symm h.1)))
  refine ⟨List.mem_cons_of_mem _ hzero, ?_⟩
  by_contra h
  rw [Table.dom_alloc _ .lowest, List.mem_cons, not_or] at h
  have hfresh := (t.alloc .lowest).2.alloc_fresh .lowest
  rw [Table.alloc_fst] at hfresh
  have hne : Picker.lowest.pick (t.alloc .lowest).2.dom ≠ 0 := fun h0 => hfresh (h0 ▸ hzero)
  exact h.2 (Picker.lowest_least _ (by omega))

/-- The two listeners avoid the descriptors 0 and 1 exactly when these were in use before. -/
theorem listeners_high (t : Table) :
    (2 ≤ (t.alloc .lowest).1 ∧ 2 ≤ ((t.alloc .lowest).2.alloc .lowest).1) ↔ 0 ∈ t.dom ∧
      1 ∈ t.dom := by
  have hsock := t.alloc_fresh .lowest
  have hssl := (t.alloc .lowest).2.alloc_fresh .lowest
  constructor
  · rintro ⟨h, -⟩
    exact ⟨Picker.lowest_least t.dom (lt_of_lt_of_le Nat.two_pos h), Picker.lowest_least t.dom h⟩
  · rintro ⟨h0, h1⟩
    have high : ∀ (x : ℕ) (l : List ℕ), 0 ∈ l → 1 ∈ l → x ∉ l → 2 ≤ x := by
      intro x l h0 h1 hx
      have hx0 : x ≠ 0 := fun h => hx (h ▸ h0)
      have hx1 : x ≠ 1 := fun h => hx (h ▸ h1)
      omega
    exact ⟨high _ _ h0 h1 hsock, high _ _ (List.mem_cons_of_mem _ h0)
      (List.mem_cons_of_mem _ h1) hssl⟩

/-- After `daemonize` a number that was in use names what it did, unless it is 0 or 1, which name
something newer. -/
theorem stubbed {t t' : Table} (h : ((t.free STDIN).free STDOUT).Extends t') (d : ℕ) :
    (2 ≤ d → d ∈ t.dom → t'.obj d = t.obj d) ∧ (d < 2 → ∀ o ∈ t'.obj d, t.next ≤ o) := by
  constructor
  · intro hd hmem
    have h0 : d ≠ STDIN := by simp only [STDIN]; omega
    have h1 : d ≠ STDOUT := by simp only [STDOUT]; omega
    rw [h.kept d (by simp [hmem, h0, h1]), Table.obj_free _ h1, Table.obj_free _ h0]
  · intro hd
    refine h.newer d ?_
    have : d = STDIN ∨ d = STDOUT := by simp only [STDIN, STDOUT]; omega
    simp only [Table.mem_dom_free, not_and_or, not_not]
    exact this.imp_left .inr

/-- The numbers of the listeners name the sockets, which are the first two objects that the process
opened. -/
def Named (st : Started) (t : Table) (s : Srv) : Prop :=
  s.fds.obj st.conf.sock = some t.next ∧ s.fds.obj st.conf.ssl_sock = some (t.next + 1)

section

variable {b : Boot} {conf : Conf} {t : Table} {st : Started}

/-- When the process enters the loop, its variables name the listeners exactly when it was started
with the descriptors 0 and 1 open; the lock file and the log are named in any case. -/
theorem startup_named (h : startup b conf t = some st) :
    (Named st t st.loop.srv ↔ 0 ∈ t.dom ∧ 1 ∈ t.dom) ∧ 0 ∈ st.conf.base ∧
      (2 ≤ st.lfp ∧ st.loop.srv.fds.obj st.lfp = some (t.next + 2)) ∧ st.log ∈ st.conf.base := by
  obtain ⟨hsock, hssl, hlfp, hbase, -, t', hext, hlog, hfds⟩ := startup_some h
  set t1 := (t.alloc .lowest).2 with ht1
  set t2 := (t1.alloc .lowest).2 with ht2
  set t3 := (t2.alloc .lowest).2 with ht3
  have hall : ((t3.free STDIN).free STDOUT).Extends st.loop.srv.fds := hfds ▸ hext.alloc .lowest
  have hst := stubbed hall
  have hlow : 0 ∈ t2.dom ∧ 1 ∈ t2.dom := low_open t
  -- The three objects, before the two descriptors are closed.
  have hs1 : st.conf.sock ∈ t1.dom := hsock ▸ List.mem_cons_self
  have hs2 : st.conf.ssl_sock ∈ t2.dom := hssl ▸ List.mem_cons_self
  have hs3 : st.lfp ∈ t3.dom := hlfp ▸ List.mem_cons_self
  have ho1 : t3.obj st.conf.sock = some t.next := by
    rw [ht3, t2.obj_alloc _ (List.mem_cons_of_mem _ hs1), ht2, t1.obj_alloc _ hs1, hsock]
    exact t.obj_alloc_self .lowest
  have ho2 : t3.obj st.conf.ssl_sock = some (t.next + 1) := by
    rw [ht3, t2.obj_alloc _ hs2, hssl]
    exact t1.obj_alloc_self .lowest
  have ho3 : t3.obj st.lfp = some (t.next + 2) := by
    rw [hlfp]
    exact t2.obj_alloc_self .lowest
  have hnext : t3.next = t.next + 3 := rfl
  refine ⟨?_, ?_, ?_, ?_⟩
  · rw [← listeners_high t, ← hsock, ← hssl]
    constructor
    · rintro ⟨h1, h2⟩
      constructor <;> by_contra hlt
      · have := (hst _).2 (not_le.1 hlt) _ h1
        omega
      · have := (hst _).2 (not_le.1 hlt) _ h2
        omega
    · rintro ⟨h1, h2⟩
      exact ⟨((hst _).1 h1 (List.mem_cons_of_mem _ (List.mem_cons_of_mem _ hs1))).trans ho1,
        ((hst _).1 h2 (List.mem_cons_of_mem _ hs2)).trans ho2⟩
  · -- The log is opened last, and takes the number 0 if nothing else has.
    rw [hbase, hfds, Table.dom_alloc, List.mem_cons]
    by_contra hc
    rw [not_or] at hc
    exact hc.2 (Picker.lowest_least t'.dom (Nat.pos_of_ne_zero (Ne.symm hc.1)))
  · have hfresh := t2.alloc_fresh .lowest
    rw [← hlfp] at hfresh
    have h0 : st.lfp ≠ 0 := fun he => hfresh (he ▸ hlow.1)
    have h1 : st.lfp ≠ 1 := fun he => hfresh (he ▸ hlow.2)
    have h2 : 2 ≤ st.lfp := by omega
    exact ⟨h2, ((hst _).1 h2 hs3).trans ho3⟩
  · rw [hbase, hfds, hlog]
    exact List.mem_cons_self

/-- The lowest free number is at most the number of those in use. -/
theorem lowest_le (l : List ℕ) : Picker.lowest.pick l ≤ l.length := by
  have hsub : Finset.range (Picker.lowest.pick l) ⊆ l.toFinset := fun x hx =>
    List.mem_toFinset.2 (Picker.lowest_least l (Finset.mem_range.1 hx))
  calc Picker.lowest.pick l = (Finset.range (Picker.lowest.pick l)).card :=
        (Finset.card_range _).symm
    _ ≤ l.toFinset.card := Finset.card_le_card hsub
    _ ≤ l.length := l.toFinset_card_le

/-- A process that was started with the descriptors 0 and 1 open, and not too many others, enters
the main loop in one of its initial states. -/
theorem startup_init (h : startup b conf t = some st) (h0 : 0 ∈ t.dom) (h1 : 1 ∈ t.dom)
    (hlen : t.dom.length + 1 < FD_SETSIZE) : Init st.conf st.loop := by
  obtain ⟨hsock, hssl, -, hbase, hloop, -⟩ := startup_some h
  obtain ⟨hnamed, hzero, -, -⟩ := startup_named h
  obtain ⟨hn1, hn2⟩ := hnamed.2 ⟨h0, h1⟩
  have hfd1 : st.conf.sock < FD_SETSIZE := by
    rw [hsock]
    exact (lowest_le t.dom).trans_lt (by omega)
  have hfd2 : st.conf.ssl_sock < FD_SETSIZE := by
    rw [hssl]
    exact (lowest_le (t.alloc .lowest).2.dom).trans_lt hlen
  have hne : st.conf.sock ≠ st.conf.ssl_sock := by
    intro he
    rw [he, hn2] at hn1
    simp at hn1
  rw [hloop]
  refine ⟨rfl, rfl, hbase.symm, hzero, ?_, ?_, hne, hfd1, hfd2, rfl, rfl, rfl, ?_, rfl⟩
  · rw [hbase, ← Table.obj_isSome, hn1]
    rfl
  · rw [hbase, ← Table.obj_isSome, hn2]
    rfl
  · simp [enter, hfd1, hfd2]

end

/-! ## The runs -/

/-- A step of the loop keeps what the descriptors name that were open before the loop. -/
theorem base_obj {conf : Conf} {l : Loop} (h : Reach conf Runs.any l) (ev : Ev) {d : ℕ}
    (hd : d ∈ conf.base) :
    (step conf l ev).srv.fds.obj d = l.srv.fds.obj d := by
  have hinv := loop_inv h
  have hmem : d ∈ l.srv.fds.dom := hinv.pool.base d hd
  have haccept : ∀ (x : ℕ) (ssl : Bool),
      (if (l.srv.probe x).readReady x then lisoAcceptConn conf ev.acc ssl (l.srv.probe x)
        else l.srv.probe x).fds.obj d = l.srv.fds.obj d := by
    intro x ssl
    split_ifs
    · rcases lisoAcceptConn_cases conf ev.acc ssl (l.srv.probe x)
        hinv.pool.size with ⟨t, he, hobj, -⟩ |
        ⟨c, -, -, -, -, -, -, he⟩ <;> rw [he]
      · exact hobj d hmem
      · exact (l.srv.probe x).fds.obj_alloc ev.acc.pick hmem
    · rfl
  unfold step
  split
  · split <;> rfl
  · exact haccept _ _
  · exact haccept _ _
  · rename_i i m hpc
    split
    · rfl
    · rename_i c hc
      have hframe := visit_frame_any conf ev.env c l.srv (hinv.pool.held i c hc)
      rcases hframe.afterVisit i m with ⟨c', ⟨-, hM⟩, he⟩ | ⟨hG, he⟩ <;> rw [he]
      · exact hM.keeps.obj d (.inl hd)
      · exact hG.keeps.obj d (.inl hd)

/-- Every run leaves alone what the descriptors from before the loop name. -/
theorem base_obj_exec {conf : Conf} {l : Loop} (h : Reach conf Runs.any l) (evs : List Ev) {d : ℕ}
    (hd : d ∈ conf.base) : (Runs.exec (step conf) l evs).srv.fds.obj d = l.srv.fds.obj d := by
  induction evs generalizing l with
  | nil => rfl
  | cons ev evs ih => exact (ih (.step ev h trivial)).trans (base_obj h ev hd)

/-- A server that was started with the descriptors 0 and 1 open, and not too many others, listens in
every run: the numbers of the listeners name the sockets that were bound to the two ports, `select`
watches them, and the lock file stays open, so that its lock is kept. Started without 0 or 1, with
however many others, it has lost a listener before the loop. -/
theorem startup_listens {b : Boot} {conf : Conf} {t : Table} {st : Started}
    (h : startup b conf t = some st) :
    (Named st t st.loop.srv ↔ 0 ∈ t.dom ∧ 1 ∈ t.dom) ∧
    (t.dom.length + 1 < FD_SETSIZE → 0 ∈ t.dom → 1 ∈ t.dom → ∀ evs : List Ev,
      Reach st.conf Runs.any (Runs.exec (step st.conf) st.loop evs) ∧
      Named st t (Runs.exec (step st.conf) st.loop evs).srv ∧
      st.conf.sock ∈ (Runs.exec (step st.conf) st.loop evs).srv.pool.read_set ∧
      st.conf.ssl_sock ∈ (Runs.exec (step st.conf) st.loop evs).srv.pool.read_set ∧
      (Runs.exec (step st.conf) st.loop evs).srv.fds.obj st.lfp = some (t.next + 2)) := by
  obtain ⟨hnamed, -, ⟨-, hlfp⟩, -⟩ := startup_named h
  refine ⟨hnamed, fun hlen h0 h1 evs => ?_⟩
  have hstart : Reach st.conf Runs.any st.loop := .start (startup_init h h0 h1 hlen)
  obtain ⟨hn1, hn2⟩ := hnamed.2 ⟨h0, h1⟩
  obtain ⟨-, -, -, hbase, -⟩ := startup_some h
  have hrun := hstart.exec evs
  obtain ⟨hlist, hs, hss, -⟩ := listening hrun
  have hmem : st.lfp ∈ st.conf.base := by
    rw [hbase, ← Table.obj_isSome, hlfp]
    rfl
  exact ⟨hrun, ⟨(base_obj_exec hstart evs hs).trans hn1, (base_obj_exec hstart evs hss).trans hn2⟩,
    (hlist _ hs).2 (.inl rfl), (hlist _ hss).2 (.inr rfl),
      (base_obj_exec hstart evs hmem).trans hlfp⟩

/-- Everything succeeds. -/
def boot : Boot :=
  { http := ⟨true, true, true⟩, https := ⟨true, true, true⟩, fork := true,
    lock_open := true, lock_free := true,
    null_in := true, null_out := true, ctx := true, key := true, crt := true, kept := 0,
    log_open := true,
    log_free := true }

/-- The descriptors of a process that a shell started. -/
def shell : Table := ⟨[(0, 0), (1, 1), (2, 2)], 3⟩

/-- The table at the start of its loop. -/
def shellTable : Table := ⟨[(6, 8), (1, 7), (0, 6), (5, 5), (4, 4), (3, 3), (2, 2)], 9⟩

/-- The server that it becomes. -/
def started : Started := ⟨{ Sample.conf with base := shellTable.dom }, 5, 6, enter 3 4 shellTable⟩

/-- Started by a shell, the server gets to its loop. -/
theorem startup_shell : startup boot Sample.conf shell = some started := rfl

/-- Started by a shell, the server listens behind its first connection too. -/
theorem startup_listens_shell :
    startup boot Sample.conf shell = some started ∧
      Named started shell (Runs.exec (step started.conf) started.loop Sample.connect).srv :=
  ⟨startup_shell,
    ((startup_listens startup_shell).2 (by decide) (by decide) (by decide) _).2.1⟩

end Liso
