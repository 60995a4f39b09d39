import Liso.Loop.Invariant

/-!
# A concrete server

A configuration, a state in which the process enters the main loop, and answers of the outside world
with which nothing fails. The later modules run the server on them where a property fails, and where
a theorem's hypotheses are to be met. The descriptors 0 to 4 are open at the start, and `accept`,
`open`, and `pipe` return the lowest free one.
-/

namespace Liso.Sample

open Handles (Table Picker)

/-- The configuration: the listeners are 3 and 4. -/
def conf : Conf :=
  { http_port := 80, https_port := 443, www := str "www", sock := 3,
    ssl_sock := 4, base := [0, 1, 2, 3, 4],
    strftime := fun _ => str "now" }

/-- Entering the main loop. -/
def start : Loop :=
  { srv :=
      { pool := plNew 3 4, fds := ⟨[(0, 0), (1, 1), (2, 2), (3, 3), (4, 4)], 5⟩,
        snap := ⟨[], 0⟩, acts := [],
        served := [], accepted := 0, bad_fd := false, bad_ptr := false }
    pc := .select }

/-- The sample is an initial state. -/
theorem start_init : Init conf start := by
  refine ⟨rfl, rfl, rfl, ?_, ?_, ?_, ?_, ?_, ?_, rfl, rfl, rfl, rfl, rfl⟩ <;> decide

/-- A state that the server reaches from there. -/
theorem reach (evs : List Ev) : Reach conf Runs.any (Runs.exec (step conf) start evs) :=
  (Runs.Reach.start start_init).exec evs

/-- A file system in which every path is a file with the text `xyz`. -/
def fs : Fs :=
  { stat := fun _ => some ⟨false, 3, 0⟩, opens := fun _ => true,
    mmap := fun _ => some (str "xyz") }

/-- The answers in a visit; nothing can be received. -/
def env : Env :=
  { ssl_accept := 1, recv := none, before := 0, fs := fs, time := 0, time_err := 0, pipe_in := true,
    pipe_out := true, pipe_err := true, fork := some 7, write := fun _ => BUFSZ, read := some [],
    send_dynamic := BUFSZ, send_static := BUFSZ, pick := Picker.lowest }

/-- The answers when a connection is accepted. -/
def acc : Accept :=
  { ok := true, pick := Picker.lowest, addr := [], mem := List.replicate (REQ_URISZ + 1) 0,
    ssl_new := true,
    ssl_set_fd := true }

/-- The call of `select` and the tests of the listeners, when the descriptors in `r` are ready for
reading and those in `w` for writing. -/
def select (r w : Finset ℕ) : List Ev :=
  [⟨some (r, w), acc, env⟩, ⟨none, acc, env⟩, ⟨none, acc, env⟩]

/-- A visit with the answers `e`. -/
def visit (e : Env) : Ev := ⟨none, acc, e⟩

/-- A visit in which `data` is received. -/
def recv (data : String) : Ev := visit { env with recv := some (str data) }

/-- The end of a pass. -/
def next : Ev := visit env

/-- A pass in which a connection is accepted on the HTTP port, with no other one in the pool. -/
def connect : List Ev := select {3} ∅ ++ [next, next]

/-- The run of a request for a CGI, with `more` right behind it: the CGI is started, writes nothing,
and ends, and its response ends. -/
def cgi (more : String) : List Ev :=
  connect ++ select {5} ∅ ++
    [recv ("POST /cgi/x HTTP/1.1\r\nContent-Length:0\r\n\r\n" ++ more), next] ++
    select {8} ∅ ++ [next, next] ++ select ∅ {5} ++ [next, next]

end Liso.Sample
