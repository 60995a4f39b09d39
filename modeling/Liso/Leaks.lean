import Liso.Loop.Sample

/-!
# No descriptor is lost

`resp_mmap` closes the file that it opened only after the file was mapped, and `cgi_init` records
the ends of its pipes only after the third pipe was made. So a file that cannot be mapped, and a
second or third `pipe` that fails, leave descriptors open that nothing records (`descriptors_leak`).
In every run without such a call the descriptors opened in the main loop are those of the
connections in the pool.
-/

namespace Liso

variable {conf : Conf} {l : Loop}

/-- In a visit, after the section `recv`: the first file that `resp_mmap` opens for a request can be
mapped, and a call of `cgi_init` that gets its first pipe gets all three. -/
def Leakless (conf : Conf) (e : Env) (c : Conn) (s : Srv) : Prop :=
  ∀ c' ∈ (stepRecv e c s).conn, NoLeak conf e c'

/-- `Leakless` is decidable. -/
instance (e : Env) (c : Conn) (s : Srv) : Decidable (Leakless conf e c s) :=
  inferInstanceAs (Decidable (∀ c' ∈ (stepRecv e c s).conn, NoLeak conf e c'))

/-- The whole invariant, with the accounting of every open descriptor. -/
theorem loop_inv_tight (h : Reach conf (Visiting (Leakless conf)) l) : LoopInv True conf l :=
  Runs.Reach.induct (fun _ h0 => .init h0)
    (fun _ ev _ hok ih => ih.step ev fun _ i m c hpc hc => hok i m hpc c hc) h

/-- The descriptors opened since the process entered the main loop and not closed are those that the
connections in the pool record. -/
theorem descriptors_owned (h : Reach conf (Visiting (Leakless conf)) l) (d : ℕ) :
    (d ∈ l.srv.fds.dom ∧ d ∉ conf.base) ↔ ∃ c ∈ l.srv.pool.conns, d ∈ c.owned := by
  have hinv := (loop_inv_tight h).pool
  constructor
  · rintro ⟨hd, hb⟩
    exact (hinv.tight trivial d hd).resolve_left hb
  · rintro ⟨c, hc, hd⟩
    obtain ⟨i, hi⟩ := List.mem_iff_getElem?.1 hc
    exact ⟨(hinv.held i c hi).own d hd, fun hb => (hinv.held i c hi).apart d hd (.inl hb)⟩

/-- A file is served: the descriptor of the file is closed, and the socket 5 is left. -/
theorem descriptors_owned_file :
    (5 ∈ (Runs.exec (step Sample.conf) Sample.start (Sample.connect ++ Sample.select {5} ∅ ++
        [Sample.recv "GET /x HTTP/1.1\r\n\r\n", Sample.next])).srv.fds.dom ∧ 5 ∉ Sample.conf.base) ↔
      ∃ c ∈ (Runs.exec (step Sample.conf) Sample.start (Sample.connect ++ Sample.select {5} ∅ ++
        [Sample.recv "GET /x HTTP/1.1\r\n\r\n", Sample.next])).srv.pool.conns, 5 ∈ c.owned :=
  descriptors_owned ((Runs.Reach.start Sample.start_init).along _ (by decide +kernel)) 5

/-- A file that can be opened and not mapped stays open as the descriptor 6, which no connection
records. -/
theorem descriptors_leak : ¬ ∀ l, Reach Sample.conf Runs.any l → l.pc = .select →
    ∀ d, (d ∈ l.srv.fds.dom ∧ d ∉ Sample.conf.base) ↔ ∃ c ∈ l.srv.pool.conns, d ∈ c.owned := by
  intro h
  have := h _
    (Sample.reach (Sample.connect ++ Sample.select {5} ∅ ++ [Sample.visit { Sample.env with
    recv := some (str "GET /x HTTP/1.1\r\n\r\n"), fs := { Sample.fs with mmap := fun _ => none } },
    Sample.next])) (by decide +kernel) 6
  revert this
  decide +kernel

end Liso
