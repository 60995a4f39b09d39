import Liso.RoundTrip
import Liso.Locks

/-!
# One server at a time (`daemon.c`)

Servers that were started with the same lock file, each after the `fork` of its `daemonize`. The
file is locked from its first byte on, and the process that gets the lock writes its number over the
beginning of what the file had before. The lock is lost when a process closes the file under any
descriptor, so a server that is asked for its lock file as a page loses it, and goes on.
-/

namespace Liso

open Records (Owns Free Exclusive)

/-- How far a server is. -/
inductive Daemon
  /-- The lock file is open. -/
  | opened
  /-- The lock file is locked. -/
  | locked
  /-- `daemonize` has returned; whether the lock file was served since then. -/
  | running (served : Bool)
  deriving DecidableEq

/-- The servers and their lock file. -/
structure Servers where
  /-- The text of the lock file. -/
  file : List Byte
  /-- The locks on it. -/
  locks : Records.Table ℕ
  /-- The servers. -/
  procs : ℕ → Option Daemon

/-- `"%d\\n"`. -/
def pidLine (p : ℕ) : List Byte := dec p ++ str "\n"

/-- The server `p` ends: by itself, by a signal, or in `release_lock`. -/
def Servers.leave (s : Servers) (p : ℕ) : Servers :=
  { s with locks := Records.drop s.locks p, procs := Function.update s.procs p none }

/-- What happens next. -/
inductive Turn
  /-- A server is started, and opens the lock file. -/
  | start (p : ℕ)
  /-- A server goes on in `daemonize`; a `write` takes at most `n` bytes. -/
  | daemonize (p n : ℕ)
  /-- A running server opens and closes the lock file, as `resp_mmap` does for a page. -/
  | serve (p : ℕ)
  /-- A server ends. -/
  | exit (p : ℕ)
  deriving DecidableEq

/-- One turn. A turn that cannot happen changes nothing. -/
def Servers.next (s : Servers) : Turn → Servers
  | .start p =>
    if s.procs p = none then { s with procs := Function.update s.procs p (some .opened) } else s
  | .daemonize p n =>
    match s.procs p with
    | some .opened =>
      -- `lockf(lfp, F_TLOCK, 0)`; the process ends when it fails.
      if Free s.locks p 0 then
        { s with locks := Records.lock s.locks p 0,
                 procs := Function.update s.procs p (some .locked) }
      else s.leave p
    | some .locked =>
      { s with
        -- The result of `write` is ignored, and the file is not cut.
        file := overwrite s.file 0 ((pidLine p).take n)
        procs := Function.update s.procs p (some (.running false)) }
    | _ => s
  | .serve p =>
    match s.procs p with
    | some (.running _) =>
      { s with locks := Records.drop s.locks p,
               procs := Function.update s.procs p (some (.running true)) }
    | _ => s
  | .exit p => s.leave p

/-- The lock file before the first server, with what it happens to have in it. -/
def Servers.Fresh (s : Servers) : Prop := s.locks = [] ∧ ∀ p, s.procs p = none

/-- The process numbers fit, and are written whole. -/
def Turn.Whole (_ : Servers) : Turn → Prop
  | .start p => p < 2 ^ 31
  | .daemonize p n => (pidLine p).length ≤ n
  | _ => True

/-! ## The servers exclude each other -/

/-- The server got the lock, and has not lost it. -/
def Daemon.Owner (r : Daemon) : Prop := r = .locked ∨ r = .running false

/-- The lock and the places of the servers agree, and under `W` the text of the file too. -/
structure Servers.Ruled (W : Prop) (s : Servers) : Prop where
  /-- No byte is held twice. -/
  exclusive : Exclusive s.locks
  /-- A server that got the lock has it. -/
  owner : ∀ p r, s.procs p = some r → r.Owner → Owns s.locks p 0
  /-- The file begins with the number of the server that runs and has the lock. -/
  file : ∀ p r, s.procs p = some r → r = .running false → W → pidLine p <+: s.file
  /-- The numbers fit. -/
  small : ∀ p r, s.procs p = some r → W → p < 2 ^ 31

namespace Servers.Ruled

variable {W : Prop} {s : Servers} {p : ℕ} {r : Daemon}

/-- There is one owner at most. -/
theorem unique (h : s.Ruled W) {q : ℕ} {rq : Daemon} (hp : s.procs p = some r)
    (hq : s.procs q = some rq) (ho : r.Owner) (hoq : rq.Owner) : p = q :=
  h.exclusive p q 0 (h.owner p r hp ho) (h.owner q rq hq hoq)

/-- The agreement survives the end of a server: its locks go, and nobody else's. -/
theorem leave (h : s.Ruled W) (p : ℕ) : (s.leave p).Ruled W where
  exclusive := h.exclusive.drop p
  owner := forall_update_none fun q r hne hq ho => (Records.owns_drop ..).2 ⟨h.owner q r hq ho, hne⟩
  file := forall_update_none fun q r _ => h.file q r
  small := forall_update_none fun q r _ => h.small q r

/-- A server gets the lock: nobody else has it. -/
theorem lock (h : s.Ruled W) (hp : s.procs p = some r) (hf : Free s.locks p 0) :
    Ruled W { s with locks := Records.lock s.locks p 0,
                     procs := Function.update s.procs p (some .locked) } where
  exclusive := h.exclusive.lock hf
  owner := forall_update (fun _ => (Records.owns_lock ..).2 (.inl ⟨rfl, le_rfl⟩))
    fun q rq _ hq ho =>
    (Records.owns_lock ..).2 (.inr (h.owner q rq hq ho))
  file := forall_update (fun hr => by simp at hr) fun q r _ => h.file q r
  small := forall_update (h.small p r hp) fun q r _ => h.small q r

/-- The owner writes its number, and no other owner's number stood there. -/
theorem record (h : s.Ruled W) (hp : s.procs p = some .locked) {n : ℕ}
    (hn : W → (pidLine p).length ≤ n) :
    Ruled W { s with
      file := overwrite s.file 0 ((pidLine p).take n)
      procs := Function.update s.procs p (some (.running false)) } where
  exclusive := h.exclusive
  owner := forall_update (fun _ => h.owner p _ hp (.inl rfl)) fun q r _ => h.owner q r
  file := by
    refine forall_update (fun _ hW => ?_) fun q r hne hq hr => ?_
    · rw [List.take_of_length_le (hn hW)]
      exact ⟨s.file.drop (0 + (pidLine p).length), by simp [overwrite]⟩
    · exact absurd (h.unique hq hp (.inr hr) (.inl rfl)) hne
  small := forall_update (h.small p _ hp) fun q r _ => h.small q r

/-- A server that serves the lock file is no owner any more. -/
theorem serve (h : s.Ruled W) (hp : s.procs p = some r) :
    Ruled W { s with locks := Records.drop s.locks p,
                     procs := Function.update s.procs p (some (.running true)) } where
  exclusive := h.exclusive.drop p
  owner := forall_update (fun ho => by simp [Daemon.Owner] at ho) fun q rq hne hq ho =>
    (Records.owns_drop ..).2 ⟨h.owner q rq hq ho, hne⟩
  file := forall_update (fun hr => by simp at hr) fun q r _ => h.file q r
  small := forall_update (h.small p r hp) fun q r _ => h.small q r

/-- Every turn keeps the agreement. -/
theorem next (h : s.Ruled W) (m : Turn) (hm : W → m.Whole s) : (s.next m).Ruled W := by
  cases m with
  | start p =>
    simp only [Servers.next]
    split_ifs with hp
    · exact ⟨h.exclusive, forall_update (fun ho => by simp [Daemon.Owner] at ho)
        fun q r _ => h.owner q r,
        forall_update (fun hr => by simp at hr) fun q r _ => h.file q r,
          forall_update hm fun q r _ => h.small q r⟩
    · exact h
  | daemonize p n =>
    simp only [Servers.next]
    split
    · rename_i hp
      split_ifs with hf
      · exact h.lock hp hf
      · exact h.leave p
    · rename_i hp
      exact h.record hp hm
    · exact h
  | serve p =>
    simp only [Servers.next]
    split
    · rename_i hp
      exact h.serve hp
    · exact h
  | exit p => exact h.leave p

end Servers.Ruled

/-- The number in front of the file is read back. -/
theorem pid_read {p : ℕ} {file : List Byte} (h : pidLine p <+: file) (hp : p < 2 ^ 31) :
    atoi (file.takeWhile (· != LF)) = p := by
  obtain ⟨rest, rfl⟩ := h
  obtain ⟨hnum, hatoi⟩ := atoi_dec (Int.natCast_nonneg p) (by exact_mod_cast hp)
  have hdigits : ∀ c ∈ dec p, (c != LF) = true := by
    intro c hc
    have hd : isdigit c = true := List.all_eq_true.1 hnum c hc
    rw [bne_iff_ne]
    rintro rfl
    simp [isdigit, LF] at hd
  have hline : (pidLine p ++ rest).takeWhile (· != LF) = dec p := by
    rw [pidLine, List.append_assoc, List.takeWhile_append_of_pos hdigits]
    simp [str, LF]
  rw [hline, hatoi]

/-- Of the servers on one lock file one at most has got the lock and not lost it, whatever the order
in which they start, go on and end, whatever the file had in it and whatever the writes take; and a
server that runs holds the first byte as long as it has not served the lock file as a page. Under
`W`, which asks that every number is written whole, the file begins with its number meanwhile. -/
theorem one_server {W : Prop} {s : Servers}
    (h : Runs.Reach Servers.Fresh Servers.next (fun s m => W → Turn.Whole s m) s) :
    (∀ p q rp rq, s.procs p = some rp → s.procs q = some rq → rp.Owner → rq.Owner → p = q) ∧
      (∀ p r, s.procs p = some r → r.Owner → Owns s.locks p 0) ∧
      (W → ∀ p, s.procs p = some (.running false) →
        atoi (s.file.takeWhile (· != LF)) = p) := by
  have hr : s.Ruled W := by
    refine h.induct (P := Servers.Ruled W) ?_ fun s m _ hm ih => ih.next m hm
    rintro s ⟨hlocks, hprocs⟩
    refine ⟨fun p q x hp => absurd hp (by simp [hlocks]), ?_, ?_, ?_⟩ <;> intro p r hp
      <;> simp [hprocs p] at hp
  exact ⟨fun p q rp rq hp hq ho hoq => hr.unique hp hq ho hoq, hr.owner,
    fun hW p hp => pid_read (hr.file p _ hp rfl hW) (hr.small p _ hp hW)⟩

/-- A lock file that a server left behind. -/
def leftBehind : Servers := ⟨str "31415\n", [], fun _ => none⟩

/-- The server 12 finds 7 running; 13 is started after 7 ended. -/
def twoServers : List Turn :=
  [.start 7, .daemonize 7 9, .daemonize 7 9, .start 12, .daemonize 12 9, .exit 7,
    .start 13, .daemonize 13 9,
    .daemonize 13 9]

/-- The server 13 has the lock, and its number stands in front of what is left of the old one. -/
theorem one_server_two :
    (Runs.exec Servers.next leftBehind twoServers).file = str "13\n15\n" ∧
      atoi ((Runs.exec Servers.next leftBehind twoServers).file.takeWhile (· != LF)) = 13 :=
  ⟨by decide, (one_server (W := True) (.along (.start ⟨rfl, fun _ => rfl⟩) twoServers
    (by simp only [Runs.Along, twoServers, Turn.Whole]; decide))).2.2 trivial 13 rfl⟩

/-- A server that serves its lock file as a page does not keep others from running. -/
example :
    (Runs.exec Servers.next leftBehind [.start 7, .daemonize 7 9,
      .daemonize 7 9, .serve 7, .start 12,
      .daemonize 12 9, .daemonize 12 9]).procs 7 = some (.running true) ∧
    (Runs.exec Servers.next leftBehind [.start 7, .daemonize 7 9,
      .daemonize 7 9, .serve 7, .start 12,
      .daemonize 12 9, .daemonize 12 9]).procs 12 = some (.running false) := by decide

end Liso
