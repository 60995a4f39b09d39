import Liso.Loop.Sample
import Liso.Parse.HeadEnd
import Liso.Parse.Stores
import Liso.Stale

/-!
# One request in several segments

A freshly reset connection receives a stream in segments, and the loop hands what is in the buffer
of a dynamic request to the CGI after each of them (`receive`). `At` is the state of the connection
as a function of the bytes received so far, and a segment takes the state of the bytes before it to
the state of the bytes with it (`At.recv`), so that the outcome does not depend on how the stream is
cut (`At.ends`): the request is the one that `scanHead` computes, and what is left of the stream
when the request is complete is what follows its head and its body.

The exception is a copy into `host`, which is not bounded: a longer host overwrites the fields
behind it, among them the phase, and from there on the source does not determine what the two runs
do. `segments_agree` says that two ways of cutting agree if and only if every host in the head fits.
-/

namespace Liso

open Cut (IsLine lines rest whole)

variable {r : Req} {z : List Byte} {c : Conn} {s : Srv} {e : Env} {es : List Env}

/-! ## Receiving a stream -/

/-- The buffer is handed to the CGI. -/
def drain (e : Env) (c : Conn) (s : Srv) : Conn × Srv :=
  if c.req.type = .dynamic ∧ (c.cgi.phase = .ready ∨ c.cgi.phase = .srvToCgi) then
    cnStreamToCgi e lisoConnErr { c with cgi := { c.cgi with phase := .srvToCgi } } s
  else (c, s)

/-- The request is complete or refused. -/
def Conn.Settled (c : Conn) : Prop := c.req.phase = .done ∨ c.req.phase = .abort

/-- `Conn.Settled` is decidable. -/
instance (c : Conn) : Decidable c.Settled := inferInstanceAs (Decidable (_ ∨ _))

/-- The bytes that the answers bring. -/
def Env.chunk (e : Env) : List Byte := e.recv.getD []

/-- The bytes that a list of answers brings. -/
def incoming (es : List Env) : List Byte := es.flatMap Env.chunk

/-- A segment arrives: the connection behind it, unless it is dropped. -/
def segment (e : Env) (c : Conn) (s : Srv) : Option (Conn × Srv) :=
  match cnRecv e lisoConnErr lisoDropConn c s with
  | ⟨_, some c, s⟩ => some (drain e c s)
  | ⟨_, none, _⟩ => none

/-- The connection `c` receives segments until its request is settled: the connection then, unless
it was dropped, and the segments that are left. -/
def receive : List Env → Conn → Srv → Option Conn × List Env
  | [], c, _ => (some c, [])
  | e :: es, c, s =>
    if c.Settled then (some c, e :: es)
    else
      match segment e c s with
      | some (c, s) => receive es c s
      | none => (none, es)

/-- Each segment, up to the one that settles the request, has a byte and fits into the free space of
the buffer. -/
def Fitting : List Env → Conn → Srv → Prop
  | [], _, _ => True
  | e :: es, c, s =>
    c.Settled ∨ e.chunk ≠ [] ∧ (e.chunk.length : ℤ) ≤ BUFSZ - c.buf.sz ∧ ∀ p ∈ segment e c s,
      Fitting es p.1 p.2

/-- `Fitting` is decided along the segments. -/
def decFitting : (es : List Env) → (c : Conn) → (s : Srv) → Decidable (Fitting es c s)
  | [], _, _ => isTrue trivial
  | e :: es, c, s =>
    have (p : Conn × Srv) : Decidable (Fitting es p.1 p.2) := decFitting es p.1 p.2
    inferInstanceAs (Decidable (c.Settled ∨ e.chunk ≠ [] ∧ (e.chunk.length : ℤ) ≤ BUFSZ - c.buf.sz ∧
      ∀ p ∈ segment e c s, Fitting es p.1 p.2))

/-- `Fitting` is decidable. -/
instance (es : List Env) (c : Conn) (s : Srv) : Decidable (Fitting es c s) := decFitting es c s

/-! ## The state after some bytes -/

/-- The number of bytes up to the end of the body. -/
def Head.total (h : Head) : ℕ := h.used + h.req.clen.toNat

/-- The request of a connection whose body is received; `z` is what arrived so far. -/
def Head.inBody (h : Head) (z : List Byte) : Req := { h.req with rsize := (h.total : ℤ) - z.length }

/-- The connection after the bytes `z`; `r` is the request before them. -/
inductive At (r : Req) (z : List Byte) (c : Conn) : Prop
  /-- The head is not complete. -/
  | head (h : Parsing r z c) (hg : c.cgi.phase = .idle) : At r z c
  /-- The request is refused. -/
  | refused (st : ℤ) (hs : (scanHead r z).status = some st)
      (hreq : c.req = { (scanHead r z).req with phase := .abort }) (hresp : c.resp.status = st) :
      At r z c
  /-- The body is not complete. -/
  | body (hs : (scanHead r z).status = none) (hb : (scanHead r z).req.phase = .body)
      (hlt : z.length < (scanHead r z).total) (hreq : c.req = (scanHead r z).inBody z)
      (hbuf : c.buf = ⟨[], 0, false⟩) (hg : c.req.type = .dynamic → c.cgi.phase = .srvToCgi) :
      At r z c
  /-- The request is complete. -/
  | done (hs : (scanHead r z).status = none) (hb : (scanHead r z).req.phase = .body)
      (hle : (scanHead r z).total ≤ z.length) (last : Buf)
      (hreq : c.req = { (scanHead r z).inBody z with phase := .done, last_buf := last })
      (hlast : last.data = z.drop (scanHead r z).total) : At r z c

/-- The handshake, if there is one, is over. -/
def Conn.Secured (c : Conn) : Prop := c.ssl = true → c.ssl_accepted = true

/-- Writes that each take a byte do not fail. -/
theorem writeLoop_ok {results : ℕ → ℤ} (hw : ∀ k, 0 < results k) (data : List Byte) (n k : ℕ)
    (rsize : ℤ) :
    (writeLoop data results n k rsize).1 = true := by
  induction n generalizing k rsize with
  | zero => rfl
  | succ n ih =>
    rw [writeLoop]
    by_cases h0 : rsize ≤ 0
    · rw [if_pos h0]
    · -- The next write takes a byte.
      have hk := hw k
      rw [if_neg h0, if_neg (by omega)]
      exact ih (k + 1) (rsize - min (results k) rsize)

/-- What the drain does when no write fails. -/
theorem drain_eq (hw : ∀ k, 0 < e.write k) (c : Conn) (s : Srv) :
    drain e c s = (if c.req.type = .dynamic ∧ (c.cgi.phase = .ready ∨ c.cgi.phase = .srvToCgi) then
      { c.logIn (writeLoop c.buf.rest e.write c.buf.rsize.toNat 0 c.buf.rsize).2 with
        cgi := { c.cgi with phase := .srvToCgi }, buf := bufReset c.buf } else c, s) := by
  have hok := writeLoop_ok hw c.buf.rest c.buf.rsize.toNat 0 c.buf.rsize
  unfold drain
  split
  · unfold cnStreamToCgi
    dsimp only
    rw [hok]
    rfl
  · rfl

/-- What the parser leaves alone in the head. -/
theorem scanHead_parses (r : Req) (z : List Byte) : Parses r (scanHead r z).req := by
  have hfold : ∀ (ls : List (List Byte)) (h : Head), Parses h.req (ls.foldl Head.feed h).req := by
    intro ls
    induction ls with
    | nil => exact fun h => .refl _
    | cons l ls ih =>
      intro h
      refine Parses.trans ?_ (ih (h.feed l))
      have hp := parsePhases_parses h.req ⟨LF, l⟩
      unfold Head.feed Head.feedFrom
      split
      · split <;> (rename_i he; rw [he] at hp; exact hp)
      · exact .refl _
  exact hfold _ ⟨none, r, 0⟩

/-- At the end of the head, the whole body is to come. -/
theorem Head.inBody_used {h : Head} (hs : h.req.rsize = h.req.clen ∧ 0 ≤ h.req.clen)
    {front : List Byte} (hf : front.length = h.used) : h.inBody front = h.req := by
  have hsize : (h.total : ℤ) - front.length = h.req.rsize := by
    rw [Head.total, hf, hs.1]
    omega
  rw [Head.inBody, hsize]

/-- The request after the bytes in the buffer were counted: its body is still open, or it is
complete. -/
theorem counted_inBody {front : List Byte} (hb : (scanHead r z).req.phase = .body)
    (hreq : c.req = (scanHead r z).inBody front) (hz : z = front ++ c.buf.rest)
    (hbad : c.buf.bad = false) (hcur : c.buf.data_p ≤ c.buf.data.length)
    (hT : front.length ≤ (scanHead r z).total) (hlast : c.req.last_buf.data = []) :
    c.left = ((scanHead r z).total : ℤ) - z.length ∧
      (0 < c.left → c.counted = (scanHead r z).inBody z) ∧
      (c.left ≤ 0 →
        c.counted = { (scanHead r z).inBody z with phase := .done,
                                                   last_buf := c.counted.last_buf } ∧
          c.counted.last_buf.data = z.drop (scanHead r z).total) := by
  obtain ⟨hleft, hrest⟩ := counted_eq hz hbad hcur (by rw [hreq]; rfl) hT
  refine ⟨hleft, fun h0 => ?_, fun h0 => ?_⟩
  · rw [Conn.counted, if_neg (by omega), if_neg (by omega), hleft, hreq, ← hb]
    rfl
  · have hc : c.counted = { c.req with rsize := c.left, phase := .done,
                                       last_buf := c.counted.last_buf } := by
      simp only [Conn.counted, if_pos h0]
    refine ⟨hc.trans (by rw [hleft, hreq]; rfl), ?_⟩
    by_cases hneg : c.left < 0
    · rw [Conn.counted, if_pos hneg]
      exact (hrest (by omega)).1
    · rw [Conn.counted, if_neg hneg, hlast, List.drop_eq_nil_of_le (by omega)]

/-- The bytes in the buffer are counted and handed over. -/
theorem At.count (hw : ∀ k, 0 < e.write k) {front : List Byte} (hs : (scanHead r z).status = none)
    (hb : (scanHead r z).req.phase = .body) (hreq : c.req = (scanHead r z).inBody front)
    (hz : z = front ++ c.buf.rest) (hbad : c.buf.bad = false)
    (hcur : c.buf.data_p ≤ c.buf.data.length) (hT : front.length ≤ (scanHead r z).total)
    (hlast : c.req.last_buf.data = [])
    (hg : c.req.type = .dynamic → c.cgi.phase = .idle ∨ c.cgi.phase = .srvToCgi) (s : Srv) :
    At r z (drain e (cnCountBody c) s).1 := by
  have hphase : c.req.phase = .body := by rw [hreq]; exact hb
  obtain ⟨hleft, hopen, hdone⟩ := counted_inBody hb hreq hz hbad hcur hT hlast
  -- What the drain leaves of the connection.
  obtain ⟨c2, hc2, hreq2, hbuf2, hg2⟩ : ∃ c2, (drain e (cnCountBody c) s).1 = c2 ∧
    c2.req = c.counted ∧
      c2.buf = ⟨[], 0, false⟩ ∧ (c.req.type = .dynamic → c2.cgi.phase = .srvToCgi) := by
    cases ht : c.req.type with
    | static =>
      refine ⟨_, rfl, ?_⟩
      rw [cnCountBody_static hphase ht, drain, if_neg (by simp [Conn.counted, ht])]
      exact ⟨rfl, rfl, fun h => by simp at h⟩
    | dynamic =>
      refine ⟨_, rfl, ?_⟩
      rw [drain_eq hw, cnCountBody_dynamic hphase ht]
      have hcgi : (if c.cgi.phase = .idle then CgiPhase.ready else c.cgi.phase) = .ready ∨
          (if c.cgi.phase = .idle then CgiPhase.ready else c.cgi.phase) = .srvToCgi := by
        rcases hg ht with h | h <;> simp [h]
      rw [if_pos ⟨ht, hcgi⟩]
      exact ⟨rfl, rfl, fun _ => rfl⟩
  rw [hc2]
  by_cases h0 : 0 < c.left
  · have htype : c2.req.type = c.req.type := by rw [hreq2]; rfl
    exact .body hs hb (by omega) (hreq2.trans (hopen h0)) hbuf2 fun ht => hg2 (htype ▸ ht)
  · obtain ⟨h1, h2⟩ := hdone (by omega)
    exact .done hs hb (by omega) c.counted.last_buf (hreq2.trans h1) h2

/-- Parsing and draining leave the TLS fields. -/
theorem Conn.Secured.parse (h : c.Secured) (n : ℕ) (s : Srv) :
    (cnParseReq e lisoConnErr c n s).1.Secured := by
  have hlines : (cnParseLines e lisoConnErr c n s).2.1.Secured := by
    unfold cnParseLines
    split
    · split
      · exact h
      · dsimp only
        split
        · exact h
        · split <;> exact h
    · exact h
  unfold cnParseReq
  rcases hout : cnParseLines e lisoConnErr c n s with ⟨ok, c1, s1⟩
  rw [hout] at hlines
  cases ok with
  | true => exact hlines
  | false =>
    by_cases hb : c1.req.phase = .body
    · cases ht : c1.req.type with
      | static => simp only [cnCountBody_static hb ht]; exact hlines
      | dynamic => simp only [cnCountBody_dynamic hb ht]; exact hlines
    · simp only [cnCountBody_other hb]
      exact hlines

/-- The draining leaves a TLS connection accepted. -/
theorem Conn.Secured.drain (h : c.Secured) (e : Env) (s : Srv) : (drain e c s).1.Secured := by
  unfold Liso.drain cnStreamToCgi
  dsimp only
  split
  · split <;> exact h
  · exact h

/-- A chunk is what was received. -/
theorem Env.recv_eq (h : e.chunk ≠ []) : e.recv = some e.chunk := by
  unfold Env.chunk at h ⊢
  cases hrecv : e.recv with
  | none => simp [hrecv] at h
  | some data => rfl

/-- A segment takes the state of the bytes before it to the state of the bytes with it. -/
theorem At.segment (hr : r.phase = .start) (hlast : r.last_buf.data = []) (h : At r z c)
    (hopen : ¬ c.Settled) (hsec : c.Secured) (hclean : (scanHead r z).Open → Clean z e.chunk)
    (hne : e.chunk ≠ []) (hfit : (e.chunk.length : ℤ) ≤ BUFSZ - c.buf.sz)
    (hw : ∀ k, 0 < e.write k) (s : Srv) :
    ∃ c1 s1, segment e c s = some (c1, s1) ∧ At r (z ++ e.chunk) c1 ∧ c1.Secured := by
  have hp : c.req.phase ≠ .abort := fun hp => hopen (.inr hp)
  have hrecv := cnRecv_chunk (s := s) lisoDropConn hsec hp hne hfit (Env.recv_eq hne) lisoConnErr
  refine ⟨_, _, by rw [Liso.segment, hrecv], ?_, ?_⟩
  · have hlast' : ∀ x, (scanHead r x).req.last_buf.data = [] := fun x => by
      rw [(scanHead_parses r x).last_buf, hlast]
    unfold cnParseReq
    cases h with
    | head h hg =>
      have hlen : c.buf.data.length = z.length := by rw [h.buf]
      have hsound := scanHead_sound hr (z ++ e.chunk)
      have hle := scanHead_used_le r (z ++ e.chunk)
      have hwhole := Cut.whole_add_rest LF (z ++ e.chunk)
      rw [hlen,
        cnParseLines_eq (c := c.received e.chunk) h rfl (by simp only [Conn.received, h.buf])
          (hclean h.open)]
      -- All that is parsed of the head is what the whole text so far parses to.
      cases hstatus : (scanHead r (z ++ e.chunk)).status with
      | some st =>
        dsimp only
        rw [drain, if_neg]
        · exact .refused st hstatus rfl rfl
        · simp [lisoConnErr, Conn.received, hg]
      | none =>
        dsimp only
        rcases or_assoc.2 (hsound.phase hstatus) with hphase | hphase
        · have ho : (scanHead r (z ++ e.chunk)).Open := ⟨hstatus, hphase⟩
          have hused := scanHead_used_of_open ho
          rw [cnCountBody_other (by rcases hphase with h | h <;> simp [h]), drain,
            if_neg (by simp [Conn.received, hg])]
          refine .head ⟨by rw [hused], ?_, hphase⟩ hg
          dsimp only
          rw [← hused, ← hstatus]
        · have hfront : ((z ++ e.chunk).take (scanHead r (z ++ e.chunk)).used).length =
            (scanHead r (z ++ e.chunk)).used := by
            rw [List.length_take]
            omega
          refine At.count (c := { c.received e.chunk with
              req := (scanHead r (z ++ e.chunk)).req,
              buf := ⟨z ++ e.chunk, (scanHead r (z ++ e.chunk)).used, false⟩ })
            hw hstatus hphase (Head.inBody_used (hsound.sized hphase) hfront).symm
              (List.take_append_drop _ _).symm rfl
            (hle.trans (by dsimp only; omega)) ?_ (hlast' _) (fun _ => .inl hg) _
          rw [hfront, Head.total]
          exact Nat.le_add_right _ _
    | refused st hs hreq hresp => exact absurd (by rw [hreq]) hp
    | body hs hb hlt hreq hbuf hg =>
      -- The head is over, so the segment is all body.
      have hphase : c.req.phase = .body := by rw [hreq]; exact hb
      have hclosed : ¬ (scanHead r z).Open := fun ho => by simp [Head.Open, hb] at ho
      have hscan := scanHead_closed hclosed e.chunk
      have hskip : cnParseLines e lisoConnErr (c.received e.chunk) c.buf.data.length s =
          (false, c.received e.chunk, s) := by
        rw [cnParseLines, if_neg]
        simp [Conn.received, hphase]
      rw [hskip]
      have hrecvd : (c.received e.chunk).buf = ⟨e.chunk, 0, false⟩ := by
        simp only [Conn.received, hbuf, List.nil_append]
      have hreq' : (c.received e.chunk).req = (scanHead r (z ++ e.chunk)).inBody z := by
        rw [hscan]; exact hreq
      refine At.count hw (by rw [hscan]; exact hs) (by rw [hscan]; exact hb) hreq'
        (by rw [hrecvd]; rfl)
        (by rw [hrecvd]) (by rw [hrecvd]; exact Nat.zero_le _) (by rw [hscan]; omega) ?_
          (fun ht => .inr (hg ht)) _
      show c.req.last_buf.data = []
      rw [hreq]
      exact hlast' z
    | done hs hb hle last hreq hlast' => exact absurd (.inl (by rw [hreq])) hopen
  · exact (Conn.Secured.parse (c := c.received e.chunk) hsec _ _).drain _ _

/-! ## The whole run -/

/-- A run leads to the state of the bytes received, and it ends with the request settled or the
stream received. -/
theorem receive_at (hr : r.phase = .start) (hlast : r.last_buf.data = []) (h : At r z c)
    (hsec : c.Secured) (hcrlf : Crlf (headOf (z ++ incoming es))) (hfit : Fitting es c s)
    (hw : ∀ e ∈ es, ∀ k, 0 < e.write k) :
    ∃ c' es' z', receive es c s = (some c', es') ∧ At r z' c' ∧
      z ++ incoming es = z' ++ incoming es' ∧
      (c'.Settled ∨ es' = []) := by
  induction es generalizing c s z with
  | nil => exact ⟨c, [], z, rfl, h, rfl, .inr rfl⟩
  | cons e es ih =>
    rw [receive]
    by_cases hset : c.Settled
    · rw [if_pos hset]
      exact ⟨c, e :: es, z, rfl, h, rfl, .inl hset⟩
    · obtain ⟨hne, hroom, hfit⟩ := hfit.resolve_left hset
      have hstream : z ++ incoming (e :: es) = z ++ e.chunk ++ incoming es := by
        rw [incoming, List.flatMap_cons, ← List.append_assoc]
        rfl
      rw [hstream] at hcrlf
      -- The segment is received, and the rest of the stream behind it.
      obtain ⟨c1, s1, hseg, hat, hsec⟩ :=
        h.segment hr hlast hset hsec (clean_of_crlf hcrlf) hne hroom (hw e (by simp)) s
      obtain ⟨c', es', z', hrun, hat, hz, hend⟩ :=
        ih hat hsec hcrlf (hfit _ hseg) fun e he => hw e (by simp [he])
      rw [if_neg hset, hseg, hstream]
      exact ⟨c', es', z', hrun, hat, hz, hend⟩

/-- The phase in which a stream of `n` bytes leaves the request. -/
def Head.endPhase (h : Head) (n : ℕ) : ReqPhase :=
  if h.status.isSome then .abort else if h.req.phase = .body ∧
    h.total ≤ n then .done else h.req.phase

/-- A request that is left aborted has been refused. -/
theorem Head.Sound.endPhase_abort {h : Head} (hs : h.Sound) {n : ℕ} (ha : h.endPhase n = .abort) :
    ∃ st, st ∈ h.status := by
  cases hst : h.status with
  | some st => exact ⟨st, rfl⟩
  | none =>
    have hphase := hs.phase hst
    rw [Head.endPhase, hst, if_neg (by simp)] at ha
    split at ha
    · simp at ha
    · simp [ha] at hphase

/-- A request that is left complete has a complete head. -/
theorem Head.Sound.endPhase_done {h : Head} (hs : h.Sound) {n : ℕ} (hd : h.endPhase n = .done) :
    h.status = none ∧ h.req.phase = .body := by
  cases hst : h.status with
  | some st => simp [Head.endPhase, hst] at hd
  | none =>
    have hphase := hs.phase hst
    rw [Head.endPhase, hst, if_neg (by simp)] at hd
    split at hd
    · rename_i hb
      exact ⟨rfl, hb.1⟩
    · simp [hd] at hphase

/-- How the request is left when nothing more is received of the stream: what of it depends on the
stream alone. -/
structure Ends (h : Head) (stream : List Byte) (c : Conn) (left : List Byte) : Prop where
  /-- The phase. -/
  phase : c.req.phase = h.endPhase stream.length
  /-- The request. -/
  seen : c.req.seen = h.req.seen
  /-- Whether a store went past its array. -/
  overrun : c.req.overrun = h.req.overrun
  /-- The answer to a request that is refused. -/
  status : ∀ st ∈ h.status, c.resp.status = st
  /-- What is left of the stream behind a complete request. -/
  remains : c.req.phase = .done → c.req.last_buf.data ++ left = stream.drop h.total
  /-- No complete line of the head was missed. -/
  lines : c.req.phase = .start ∨ c.req.phase = .header → LF ∉ c.buf.rest

/-- The state at the end of a run. -/
theorem At.ends (h : At r z c) (left : List Byte) (hend : c.Settled ∨ left = []) :
    Ends (scanHead r (z ++ left)) (z ++ left) c left := by
  cases h with
  | head h hg =>
    -- The head is still open, so the stream is at its end.
    have hphase := h.phase
    have hopen : ¬ c.Settled := by
      rintro (hp | hp) <;> simp [hp] at hphase
    obtain rfl := hend.resolve_left hopen
    rw [List.append_nil, h.head]
    refine ⟨?_, rfl, rfl, by simp, fun hd => absurd (.inl hd) hopen, fun _ => ?_⟩
    · rcases hphase with hp | hp <;> simp [Head.endPhase, hp]
    · rw [Buf.rest, h.buf]
      have hrest : z.drop (whole LF z) = rest LF z := Cut.drop_whole LF z
      rw [hrest]
      exact Cut.sep_notMem_rest LF z
  | refused st hs hreq hresp =>
    -- What is left does not change a closed head.
    have hscan := scanHead_closed (r := r) (x := z) (fun ho => by simp [Head.Open, hs] at ho) left
    rw [hscan]
    refine ⟨?_, ?_, ?_, ?_, ?_, ?_⟩
    · rw [hreq, Head.endPhase, hs]
      rfl
    · rw [hreq]
      rfl
    · rw [hreq]
    · rw [hs]
      rintro st' ⟨⟩
      exact hresp
    · intro hp
      simp [hreq] at hp
    · intro hp
      simp [hreq] at hp
  | body hs hb hlt hreq hbuf hg =>
    have hphase : c.req.phase = .body := by rw [hreq]; exact hb
    obtain rfl := hend.resolve_left (by rintro (hp | hp) <;> simp [hphase] at hp)
    rw [List.append_nil]
    refine ⟨?_, ?_, ?_, ?_, ?_, ?_⟩
    · rw [hphase, Head.endPhase, hs, hb, if_neg (by simp), if_neg (by omega)]
    · rw [hreq]
      rfl
    · rw [hreq]
      rfl
    · simp [hs]
    · simp [hphase]
    · simp [hphase]
  | done hs hb hle last hreq hlast =>
    have hscan := scanHead_closed (r := r) (x := z) (fun ho => by simp [Head.Open, hb] at ho) left
    have hphase : c.req.phase = .done := by rw [hreq]
    rw [hscan]
    refine ⟨?_, ?_, ?_, ?_, ?_, ?_⟩
    · rw [hphase, Head.endPhase, hs, if_neg (by simp),
        if_pos ⟨hb, by rw [List.length_append]; omega⟩]
    · rw [hreq]
      rfl
    · rw [hreq]
      rfl
    · simp [hs]
    · intro _
      rw [hreq, List.drop_append_of_le_length hle]
      exact congrArg (· ++ left) hlast
    · simp [hphase]

/-- The mark of the head of a stream says whether the hosts in it fit. -/
theorem scanHead_overrun (hr : r.phase = .start) (stream : List Byte) :
    (scanHead r stream).req.overrun = false ↔ r.overrun = false ∧ HostsFit r stream := by
  by_cases hne : lines LF stream = []
  · rw [scanHead, HostsFit, if_pos hr, hne]
    simp
  · have hls : ∀ l ∈ lines LF stream, IsLine LF l := fun l hl => Cut.isLine_of_mem hl
    have hfits := reqParse_overrun (.inl hr) LF (Cut.getLast?_lines hne)
    have hsame := Cut.lines_flatten hls []
    rw [List.append_nil, Cut.lines_nil, List.append_nil] at hsame
    rw [reqParse_lines hls hne (.inl hr) (.inl hr), Head.parsed_req, HostsFit, hsame] at hfits
    exact hfits

/-! ## Two ways of cutting a stream -/

/-- Two runs over `stream` stop alike, at `c` and `c'` with the segments `es` and `es'` left. -/
structure Agree (stream : List Byte) (c c' : Conn) (es es' : List Env) : Prop where
  /-- No store went past its array, so that the source determines what the runs do. -/
  defined : c.req.overrun = false ∧ c'.req.overrun = false
  /-- The request is settled, or the stream is received. -/
  ended : c.Settled ∨ es = [] ∧ es' = []
  /-- The phase. -/
  phase : c.req.phase = c'.req.phase
  /-- The method, the target, the version, the host, the headers, and what follows from them. -/
  seen : c.req.seen = c'.req.seen
  /-- The answer to a request that is refused. -/
  status : c.req.phase = .abort → c.resp.status = c'.resp.status
  /-- Behind a complete request, there remains what follows its head and its body. -/
  remains : c.req.phase = .done →
    c.req.last_buf.data ++ incoming es = stream.drop ((headOf stream).length + c.req.clen.toNat) ∧
      c'.req.last_buf.data ++ incoming es' = stream.drop ((headOf stream).length + c.req.clen.toNat)
  /-- No complete line of the head is left in the buffer. -/
  lines : c.req.phase = .start ∨ c.req.phase = .header → LF ∉ c.buf.rest ∧ LF ∉ c'.buf.rest

/-- Two runs over `stream` keep their connections, and stop alike. -/
def Agrees (stream : List Byte) (p p' : Option Conn × List Env) : Prop :=
  ∃ c c', p.1 = some c ∧ p'.1 = some c' ∧ Agree stream c c' p.2 p'.2

/-- Two ways of cutting a stream agree if and only if the hosts in its head fit. -/
theorem segments_agree {c₀ : Conn} {s₀ s s' : Srv} {stream : List Byte} {es es' : List Env}
    (hlast : c₀.req.last_buf.data = []) (hover : c₀.req.overrun = false) (hsec : c₀.Secured)
    (hcrlf : Crlf (headOf stream)) (hes : incoming es = stream) (hes' : incoming es' = stream)
    (hfit : Fitting es (plResetConn s₀ c₀).1 s) (hfit' : Fitting es' (plResetConn s₀ c₀).1 s')
    (hw : ∀ e ∈ es, ∀ k, 0 < e.write k) (hw' : ∀ e ∈ es', ∀ k, 0 < e.write k) :
    Agrees stream (receive es (plResetConn s₀ c₀).1 s) (receive es' (plResetConn s₀ c₀).1 s') ↔
      HostsFit (plResetConn s₀ c₀).1.req stream := by
  have hr : (plResetConn s₀ c₀).1.req.phase = .start := rfl
  have hstart : At (plResetConn s₀ c₀).1.req [] (plResetConn s₀ c₀).1 :=
    .head ⟨rfl, rfl, .inl hr⟩ rfl
  have hover' : (plResetConn s₀ c₀).1.req.overrun = false := hover
  have hlast' : (plResetConn s₀ c₀).1.req.last_buf.data = [] := hlast
  have hsec' : (plResetConn s₀ c₀).1.Secured := hsec
  have hfits := scanHead_overrun hr stream
  have hsound := scanHead_sound hr stream
  have hused := scanHead_used hr hcrlf
  generalize (plResetConn s₀ c₀).1 = c at *
  -- Where the runs end.
  have hrun : ∀ {es s}, incoming es = stream → Fitting es c s → (∀ e ∈ es, ∀ k, 0 < e.write k) →
      ∃ c' es', receive es c s = (some c', es') ∧
        Ends (scanHead c.req stream) stream c' (incoming es') ∧
        (c'.Settled ∨ es' = []) := by
    intro es s hes hfit hw
    obtain ⟨c', es', z, hrun, hat, hz, hend⟩ :=
      receive_at hr hlast' hstart hsec' (by rwa [List.nil_append, hes]) hfit hw
    have hends := hat.ends (incoming es') (hend.imp_right fun h => by rw [h]; rfl)
    rw [← hz, List.nil_append, hes] at hends
    exact ⟨c', es', hrun, hends, hend⟩
  obtain ⟨c1, es1, hrun1, hends1, hstop1⟩ := hrun hes hfit hw
  obtain ⟨c2, es2, hrun2, hends2, hstop2⟩ := hrun hes' hfit' hw'
  rw [hrun1, hrun2]
  constructor
  · rintro ⟨c1', c2', h1, -, hagree⟩
    obtain rfl := Option.some.inj h1
    have hdefined := hagree.defined.1
    rw [hends1.overrun, hfits] at hdefined
    exact hdefined.2
  · intro hhosts
    have hmark := hfits.2 ⟨hover', hhosts⟩
    have hphase := hends1.phase.trans hends2.phase.symm
    have hseen := hends1.seen.trans hends2.seen.symm
    have hclen : c1.req.clen = (scanHead c.req stream).req.clen :=
      congrArg (fun v => v.2.2.2.2.2.1) hends1.seen
    refine ⟨c1, c2, rfl, rfl, ⟨?_, ?_, hphase, hseen, ?_, ?_, ?_⟩⟩
    · exact ⟨hends1.overrun.trans hmark, hends2.overrun.trans hmark⟩
    · by_cases hset : c1.Settled
      · exact .inl hset
      · have hset2 : ¬ c2.Settled := by rwa [Conn.Settled, ← hphase]
        exact .inr ⟨hstop1.resolve_left hset, hstop2.resolve_left hset2⟩
    · intro ha
      obtain ⟨st, hst⟩ := hsound.endPhase_abort (hends1.phase.symm.trans ha)
      exact (hends1.status st hst).trans (hends2.status st hst).symm
    · intro hd
      obtain ⟨hs, hb⟩ := hsound.endPhase_done (hends1.phase.symm.trans hd)
      have htotal : (scanHead c.req stream).total = (headOf stream).length + c1.req.clen.toNat := by
        rw [Head.total, hused hs hb, hclen]
      rw [← htotal]
      exact ⟨hends1.remains hd, hends2.remains (hphase.symm.trans hd)⟩
    · exact fun hp => ⟨hends1.lines hp, hends2.lines (hphase ▸ hp)⟩

/-- A connection that was just reset. -/
def renewed : Conn :=
  (plResetConn Sample.start.srv (cnNew 5 0 (List.replicate (REQ_URISZ + 1) 0) 0)).1

/-- The answers that bring the texts. -/
def segments (texts : List (List Byte)) : List Env :=
  texts.map fun text => { Sample.env with recv := some text }

/-- The CGI takes something at each write. -/
theorem segments_write (texts : List (List Byte)) : ∀ e ∈ segments texts, ∀ k, 0 < e.write k := by
  intro e he k
  obtain ⟨text, -, rfl⟩ := List.mem_map.1 he
  exact (by decide : (0 : ℤ) < BUFSZ)

/-- A request for a CGI with the beginning of the next one behind it, in one segment and in six. -/
theorem segments_agree_post :
    Agrees (str "POST /cgi/x HTTP/1.1\r\nContent-Length:3\r\n\r\nabcGET")
        (receive (segments [str "POST /cgi/x HTTP/1.1\r\nContent-Length:3\r\n\r\nabcGET"])
          renewed Sample.start.srv)
        (receive (segments [str "POST /cgi/x HTTP/1.1\r", str "\nContent-Le",
          str "ngth:3\r\n\r", str "\na", str "bcG",
          str "ET"]) renewed Sample.start.srv) ↔
      HostsFit renewed.req (str "POST /cgi/x HTTP/1.1\r\nContent-Length:3\r\n\r\nabcGET") :=
  segments_agree rfl rfl (fun h => absurd h (by decide)) (by decide +kernel) (by decide +kernel)
    (by decide +kernel)
    (by decide +kernel) (by decide +kernel) (segments_write _) (segments_write _)

/-- A host of 300 bytes reaches the phase behind it; the blank line comes with it, or in a segment
of its own. -/
theorem segments_differ : ¬ ∀ (c₀ : Conn) (s₀ s s' : Srv) (stream : List Byte) (es es' : List Env),
    c₀.req.last_buf.data = [] → c₀.req.overrun = false → c₀.Secured → Crlf (headOf stream) →
    (headOf stream).length ≤ BUFSZ → incoming es = stream → incoming es' = stream →
    Fitting es (plResetConn s₀ c₀).1 s → Fitting es' (plResetConn s₀ c₀).1 s' →
    (∀ e ∈ es, ∀ k, 0 < e.write k) → (∀ e ∈ es', ∀ k, 0 < e.write k) →
    Agrees stream (receive es (plResetConn s₀ c₀).1 s) (receive es' (plResetConn s₀ c₀).1 s') := by
  intro h
  obtain ⟨c, _, hc, -, hagree⟩ :=
    h (cnNew 5 0 (List.replicate (REQ_URISZ + 1) 0) 0) Sample.start.srv Sample.start.srv
    Sample.start.srv (hostHead 300) (segments [hostHead 300])
    (segments [str "GET / HTTP/1.1\r\nHost: " ++ List.replicate 300 97 ++ str "\r\n", str "\r\n"])
      rfl rfl
    (fun h => absurd h (by decide)) (by decide +kernel) (by decide +kernel) (by decide +kernel)
      (by decide +kernel)
    (by decide +kernel) (by decide +kernel) (segments_write _) (segments_write _)
  have hmark : ∀ c ∈ (receive (segments [hostHead 300]) renewed Sample.start.srv).1,
    c.req.overrun = true := by
    decide +kernel
  have hdefined := hagree.defined.1
  rw [hmark c hc] at hdefined
  cases hdefined

end Liso
