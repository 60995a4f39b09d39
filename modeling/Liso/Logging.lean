import Liso.Utils
import Liso.Lib.Runs
import Liso.Lib.Records

/-!
# The log (`logging.c`)

The server and the children that it forks write to one open file: they share its offset, and each
log function locks the file from the offset on, writes, and unlocks it from the offset on, which has
moved by then. Who may run is not up to the server, so the log is a system in the sense of
`Lib/Runs.lean` whose inputs are the steps of the processes in any order, with forks, ends and
signals in between. The history `entries`, which the code does not keep, has one entry for each log
function that took the lock.

The text of a line is formatted before anything of the above happens, and is an argument here, as
the date is; `fsync` changes neither the file nor the locks, and is left out. `lockf` is taken to
fail for none of the reasons that lie outside of the log.
-/

namespace Liso

open Records (Owns Blocks Free Exclusive)

/-! ## The functions -/

/-- A system call on the log. -/
inductive Call
  /-- `lockf(fd, F_LOCK, 0)`. -/
  | lock
  /-- `write(fd, data, n)`. -/
  | write (data : List Byte)
  /-- `lockf(fd, F_ULOCK, 0)`. -/
  | unlock
  /-- `close(fd)`. -/
  | close
  deriving DecidableEq

/-- `log_line`, with the date `dt`. -/
def logLine (dt line : List Byte) : List Call :=
  [.lock, .write (dt ++ str " - " ++ line ++ str "\n"), .unlock]

/-- `log_errln`, with the date `dt`. -/
def logErrln (dt line : List Byte) : List Call :=
  [.lock, .write (dt ++ str " !!! ERROR !!! " ++ line ++ str "\n"), .unlock]

/-- `log_raw`. -/
def logRaw (data : List Byte) : List Call := [.lock, .write data, .write (str "\n"), .unlock]

/-- `log_stop`. -/
def logStop : List Call := [.close]

/-- What `teardown` does with the log. -/
def teardownLog (dt : List Byte) : List Call :=
  logLine dt (str "-------- Liso Server stops --------") ++ logStop

/-- A log function with its arguments. -/
inductive Func
  /-- `log_line`. -/
  | line (dt s : List Byte)
  /-- `log_errln`. -/
  | errln (dt s : List Byte)
  /-- `log_raw`. -/
  | raw (data : List Byte)
  deriving DecidableEq

/-- The system calls of a log function. -/
def Func.calls : Func → List Call
  | .line dt s => logLine dt s
  | .errln dt s => logErrln dt s
  | .raw data => logRaw data

/-- The writes of a log function. -/
def Func.parts : Func → List (List Byte)
  | .line dt s => [dt ++ str " - " ++ s ++ str "\n"]
  | .errln dt s => [dt ++ str " !!! ERROR !!! " ++ s ++ str "\n"]
  | .raw data => [data, str "\n"]

/-- The text that a log function is to write. -/
def Func.text (f : Func) : List Byte := f.parts.flatten

/-- Every log function locks the file, writes, and unlocks it. -/
theorem Func.calls_eq (f : Func) : f.calls = .lock :: (f.parts.map .write ++ [.unlock]) := by
  cases f <;> rfl

/-- The text of the writes that follow. -/
def text : List Call → List Byte
  | .write d :: cs => d ++ text cs
  | _ => []

/-- The text of some writes and an unlock is what they write. -/
@[simp] theorem text_append (ws : List (List Byte)) (cs : List Call) :
    text (ws.map .write ++ .unlock :: cs) = ws.flatten := by
  induction ws with
  | nil => rfl
  | cons w ws ih => simp [text, ih]

/-- The text that a log function writes is that of its calls. -/
theorem Func.text_calls (f : Func) : Liso.text f.calls.tail = f.text := by
  simp [f.calls_eq, Func.text]

/-! ## The processes and the file -/

/-- A process that has the log open. -/
structure Proc where
  /-- The calls that are left of the log function under way. -/
  calls : List Call
  /-- The place from which a `lockf` that has not returned locks. -/
  waits : Option ℕ
  /-- The process runs the handler of `SIGTERM`. -/
  ending : Bool
  deriving DecidableEq

/-- A process outside of the log functions. -/
def Proc.idle : Proc := ⟨[], none, false⟩

/-- What became of a log function that took the lock. -/
inductive Fate
  /-- It has the lock. -/
  | going
  /-- It returned. -/
  | done
  /-- Its process ended, or left it for the handler of `SIGTERM`. -/
  | cut
  deriving DecidableEq

/-- A log function that took the lock. -/
structure Entry where
  /-- The process. -/
  pid : ℕ
  /-- What it is to write. -/
  text : List Byte
  /-- What it wrote. -/
  written : List Byte
  /-- What became of it. -/
  fate : Fate
  /-- A `write` took less than it was given. -/
  short : Bool
  deriving DecidableEq

/-- The log and the processes that have it open. -/
structure Log where
  /-- The text of the file. -/
  file : List Byte
  /-- The offset, which the processes share. -/
  offset : ℕ
  /-- The locks. -/
  locks : Records.Table ℕ
  /-- The processes that have the log open. -/
  procs : ℕ → Option Proc
  /-- The log functions that took the lock, in the order in which they did. -/
  entries : List Entry

/-- The file after `data` was written at `pos`. -/
def overwrite (file : List Byte) (pos : ℕ) (data : List Byte) : List Byte :=
  file.take pos ++ List.replicate (pos - file.length) 0 ++ data ++ file.drop (pos + data.length)

/-- The places from which the processes that wait want to lock. -/
def Log.waits (s : Log) (p : ℕ) : Option ℕ := (s.procs p).bind Proc.waits

/-- Change what the history says of the log function in which `p` has the lock. -/
def note (es : List Entry) (p : ℕ) (f : Entry → Entry) : List Entry :=
  es.map fun e => if e.pid = p ∧ e.fate = .going then f e else e

/-- What a `write` of which `n` bytes were taken adds to an entry. -/
def Entry.wrote (data : List Byte) (n : ℕ) (e : Entry) : Entry :=
  { e with written := e.written ++ data.take n, short := e.short || decide (n < data.length) }

/-- The process `p` ends. -/
def Log.leave (s : Log) (p : ℕ) : Log :=
  { s with
    locks := Records.drop s.locks p
    procs := Function.update s.procs p none
    entries := note s.entries p fun e => { e with fate := .cut } }

/-- The process `p` makes its next call, or goes on waiting in it; a `write` takes at most `n`
bytes. -/
def Log.call (s : Log) (p : ℕ) (r : Proc) (n : ℕ) : Log :=
  match r.calls with
  | [] => s
  | .lock :: cs =>
    -- A process that waits has its place from before.
    let lo := r.waits.getD s.offset
    if Free s.locks p lo then
      { s with
        locks := Records.lock s.locks p lo
        procs := Function.update s.procs p (some { r with calls := cs, waits := none })
        entries := s.entries ++ [⟨p, text cs, [], .going, false⟩] }
    else { s with procs := Function.update s.procs p (some { r with waits := some lo }) }
  | .write data :: cs =>
    { s with
      file := overwrite s.file s.offset (data.take n)
      offset := s.offset + (data.take n).length
      procs := Function.update s.procs p (some { r with calls := cs })
      entries := note s.entries p (Entry.wrote data n) }
  | .unlock :: cs =>
    { s with
      locks := Records.unlock s.locks p s.offset
      procs := Function.update s.procs p (some { r with calls := cs })
      entries := note s.entries p fun e => { e with fate := .done } }
  | .close :: _ => s.leave p

/-- What happens next. -/
inductive Move
  /-- A process calls a log function. -/
  | enter (p : ℕ) (f : Func)
  /-- A process makes its next call, of which a `write` takes at most `n` bytes. -/
  | call (p n : ℕ)
  /-- The process `p` forks `q`. -/
  | fork (p q : ℕ)
  /-- A process opens the file of the log once more and closes it, as `resp_mmap` does when a client
  asks for that file. -/
  | serve (p : ℕ)
  /-- A process ends. -/
  | exit (p : ℕ)
  /-- A process gets `SIGTERM`, whose handler calls `teardown`. -/
  | term (p : ℕ) (dt : List Byte)
  /-- A process gets `SIGCHLD` or `SIGHUP`, whose handler does nothing to the log. -/
  | handled (p : ℕ)
  deriving DecidableEq

/-- One move. A process that forks, calls a log function or opens a file is in no log function; a
move that cannot happen changes nothing. -/
def Log.next (s : Log) : Move → Log
  | .enter p f =>
    if s.procs p = some .idle then
      { s with procs := Function.update s.procs p (some ⟨f.calls, none, false⟩) }
    else s
  | .call p n =>
    match s.procs p with
    | some r => s.call p r n
    | none => s
  | .fork p q =>
    if s.procs p = some .idle ∧ s.procs q = none then
      { s with procs := Function.update s.procs q (some .idle) }
    else s
  | .serve p =>
    -- To close a file drops the locks that the process has on it, under whatever descriptor it took
    -- them.
    if s.procs p = some .idle then { s with locks := Records.drop s.locks p } else s
  | .exit p => s.leave p
  | .term p dt =>
    match s.procs p with
    | some r =>
      -- The signal is blocked while its handler runs.
      if r.ending then s
      else
        { s with
          procs := Function.update s.procs p (some ⟨teardownLog dt, none, true⟩)
          entries := note s.entries p fun e => { e with fate := .cut } }
    | none => s
  | .handled p =>
    -- `signal` restarts a call behind the handler: a `lockf` that waits looks at the offset again.
    match s.procs p with
    | some r => { s with procs := Function.update s.procs p (some { r with waits := none }) }
    | none => s

/-- The log after `log_init` in the server `p`. -/
def logInit (p : ℕ) : Log :=
  ⟨[], 0, [], Function.update (fun _ => none) p (some .idle), []⟩

/-- The states of the log. -/
abbrev Logged : Log → Prop := Runs.Reach (fun s => ∃ p, s = logInit p) Log.next Runs.any

end Liso
