import Liso.Loop.Calls
import Liso.Loop.Sample
import Liso.Parse.Looks

/-!
# The chunks that the parser is given

`visitCalls` lists the calls of `req_parse` in a visit: one when something is received, and one when
a response ends and the next request is handed over. Every chunk ends in a line feed, so by
`looks_iff` the parser stays inside it, unless the call resumes a header and the first byte of the
chunk is a line feed (`looks_inside`). A client that sends a line feed alone behind a complete
header line makes it so (`looks_outside`).
-/

namespace Liso

variable {c : Conn} {s : Srv} {e : Env} {n : ℕ}

/-- Every byte that the call inspects lies inside its chunk. -/
def ParseCall.Inside (k : ParseCall) : Prop :=
  ∀ look ∈ reqParseLooks k.before k.req k.lines, look.Inside k.lines.length

/-- `ParseCall.Inside` is decidable. -/
instance (k : ParseCall) : Decidable k.Inside := inferInstanceAs (Decidable (∀ _ ∈ _, _))

/-- The call resumes a header, and its chunk begins with a line feed. -/
def ParseCall.Bare (k : ParseCall) : Prop := k.req.phase = .header ∧ k.lines.head? = some LF

/-! ## What the calls look at -/

/-- The call of `req_parse` in `cn_parse_req` looks inside its chunk if and only if it is not bare.
-/
theorem cnParseReqCalls_iff (e : Env) (c : Conn) (n : ℕ) :
    ∀ k ∈ cnParseReqCalls e c n, (k.Inside ↔ ¬ k.Bare) := by
  intro k hk
  unfold cnParseReqCalls at hk
  split at hk
  · obtain ⟨lines, hlines, rfl⟩ := List.mem_map.1 hk
    exact looks_iff _ _ (chunk_last (Option.mem_toList.1 hlines))
  · simp at hk

/-- A call of `req_parse` in `cn_recv` looks inside its chunk if and only if it is not bare. -/
theorem cnRecvCalls_iff (e : Env) (c : Conn) : ∀ k ∈ cnRecvCalls e c, (k.Inside ↔ ¬ k.Bare) := by
  unfold cnRecvCalls
  dsimp only
  split_ifs
  · simp
  · simp
  · simp
  · cases e.recv.map (·.take (BUFSZ - c.buf.sz).toNat) with
    | none => simp
    | some data =>
      dsimp only
      split_ifs
      · simp
      · exact cnParseReqCalls_iff _ _ _

/-- The call of `req_parse` in `liso_reset_or_close` looks inside its chunk if and only if it is not
bare. -/
theorem lisoResetOrCloseCalls_iff (e : Env) (c : Conn) (s : Srv) :
    ∀ k ∈ lisoResetOrCloseCalls e c s, (k.Inside ↔ ¬ k.Bare) := by
  unfold lisoResetOrCloseCalls
  dsimp only
  split_ifs
  · exact cnParseReqCalls_iff _ _ _
  · simp
  · simp

/-- In every visit of every run, what a call of the parser inspects lies inside its chunk if and
only if the call does not resume a header at a line feed. -/
theorem looks_inside (conf : Conf) (l : Loop) (ev : Ev) :
    Visiting (fun e c s => ∀ k ∈ visitCalls conf e c s, (k.Inside ↔ ¬ k.Bare)) l ev := by
  intro i m _ c _ k hk
  simp only [visitCalls, List.mem_append, List.mem_flatMap] at hk
  rcases hk with (hk | ⟨p, -, hk⟩) | ⟨p, -, hk⟩
  · split at hk
    · exact cnRecvCalls_iff _ _ k hk
    · simp at hk
  · split at hk
    · unfold cnServeDynamicCalls at hk
      split at hk
      · exact lisoResetOrCloseCalls_iff _ _ _ k hk
      · simp at hk
    · simp at hk
  · split at hk
    · obtain ⟨p', -, hk⟩ := List.mem_flatMap.1 hk
      exact lisoResetOrCloseCalls_iff _ _ _ k hk
    · simp at hk

/-- The request line has been received, and a line feed is next. -/
def bareRun :
    List Ev :=
  Sample.connect ++ Sample.select {5} ∅ ++ [Sample.recv "GET / HTTP/1.1\r\n", Sample.next] ++
  Sample.select {5} ∅

/-- The parser looks at the byte in front of its chunk. -/
theorem looks_outside : ¬ ∀ (conf : Conf) (l : Loop) (ev : Ev), Reach conf Runs.any l →
    Visiting (fun e c s => ∀ k ∈ visitCalls conf e c s, k.Inside) l ev := by
  intro h
  have hall := h Sample.conf _ (Sample.recv "\n") (Sample.reach bareRun)
  revert hall
  decide +kernel

end Liso
