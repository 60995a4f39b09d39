import Liso.Exchanges
import Liso.Loop.Calls

/-!
# Where requests start

A request that is refused leaves the parser inside it. The buffer is reset with its page: what was
received behind the line that was refused is lost, and what arrives later, be it the rest of its
head, its body or the next request, is parsed as the start of a request. In the runs in which all of
the refused request was received by then and nothing behind it, the connection stays in step: each
exchange is about its own request, and every call of `req_parse` that starts a request starts at the
first byte of one (`requests_aligned`).
-/

namespace Liso

open Cut (lines rest whole)

variable {conf : Conf} {l : Loop} {c c' : Conn} {s s' : Srv} {e : Env} {A : Set ℕ}
  {r : Req} {W : Prop} {k : ParseCall}
  {z : List Byte} {rs : List (List Byte)} {n : ℕ} {F : Set Fs}

/-! ## The calls -/

/-- The parser that is to start a request has parsed nothing. -/
theorem Parsing.started (h : Parsing r z c) (hr : r.Fresh) (hp : c.req.phase = .start) :
    whole LF z = 0 := by
  have hreads := scanHead_reads hr z
  rw [h.head] at hreads
  cases hreads with
  | refused hs => exact absurd rfl hs
  | amid _ hp' =>
    obtain ⟨-, hnil⟩ := hp'.resolve_right fun hh => by simp [hp] at hh
    rw [whole, show lines LF z = [] from hnil]
    rfl
  | behind _ hp' => simp [hp] at hp'

/-- What `cn_recv` starts is the request whose turn it is. -/
theorem cnRecvCalls_starts (h : Aligned W rs c) (hsend : Sends rs e c s)
    (hready : c.fd ∈ s.pool.read_ready) (hk : k ∈ cnRecvCalls e c) (hp : k.req.phase = .start) :
    k.lines <+: (rs.drop c.wire.past.length).flatten := by
  unfold cnRecvCalls at hk
  split at hk
  · simp at hk
  split at hk
  · simp at hk
  rename_i hna
  dsimp only at hk
  split at hk
  · simp at hk
  split at hk
  · simp at hk
  rename_i data hsome
  split at hk
  · simp at hk
  obtain ⟨bytes, hbytes, rfl⟩ := Option.map_eq_some_iff.1 hsome
  -- What was received continues the stream.
  generalize hdata : bytes.take _ = data at hk
  have hpre : data <+: bytes := hdata ▸ List.take_prefix _ _
  have hbegins := h.extends_ hna
    (((List.prefix_append_right_inj _).2 hpre).trans (hsend hready bytes hbytes))
  unfold cnParseReqCalls at hk
  split at hk
  case isFalse => simp at hk
  obtain ⟨lines, hlines, rfl⟩ := List.mem_map.1 hk
  have hp : c.req.phase = .start := hp
  obtain ⟨r, hr, hplace⟩ := h.place
  cases hplace with
  | head hz =>
    have hrest : (c.received data).buf.rest = c.wire.cur.inp ++ data := by
      simp only [Conn.received, hz.buf, Buf.rest, hz.started hr hp, List.drop_zero]
    exact (hrest ▸ chunk_begins (Option.mem_toList.1 hlines)).trans hbegins
  | body _ hb _ hreq => rw [hreq] at hp; exact absurd (hb.symm.trans hp) (by simp)
  | done _ _ _ _ hreq => simp [hreq] at hp
  | failed hp' => simp [hp] at hp'

/-- What the success callback starts is the request behind the one that ends. -/
theorem lisoResetOrCloseCalls_starts (h : Aligned W rs c) (hres : c.req.alive = true → Resumes rs c)
    (hk : k ∈ lisoResetOrCloseCalls e c s) :
    k.lines <+: (rs.drop (c.wire.past.length + 1)).flatten := by
  unfold lisoResetOrCloseCalls at hk
  split at hk
  case isFalse => simp at hk
  rename_i ha
  dsimp only at hk
  split at hk
  case isFalse => simp at hk
  unfold cnParseReqCalls at hk
  split at hk
  case isFalse => simp at hk
  obtain ⟨lines, hlines, rfl⟩ := List.mem_map.1 hk
  exact (chunk_begins (Option.mem_toList.1 hlines)).trans (h.next (hres ha))

/-- When the page was taken whole, it ends the exchange. -/
theorem cnServeStatic_ended (hp : c.resp.phase = .abort)
    (h : (c', s') ∈ (cnServeStatic conf e noteEnd noteFail c s).ended) :
    ((c.page conf e).length : ℤ) ≤ e.send_static := by
  by_cases h0 : 0 < e.send_static
  · obtain ⟨m, hm, hcount, hsend⟩ := smartSend_some h0 (page_ne_nil conf e c)
    have hout : cnServeStatic conf e noteEnd noteFail c s =
        cnSendErrorPage conf e noteEnd noteFail c s := by
      unfold cnServeStatic
      rw [hp]
    rw [hout, send_page s hm hsend] at h
    split at h
    · omega
    · simp [Ret.ended] at h
  · obtain ⟨c₁, -, hout⟩ :=
      cnServeStatic_fails conf noteEnd noteFail s (not_lt.1 h0) (.inr (.inl hp))
    rw [hout] at h
    simp [noteFail, Ret.ended] at h

/-- A response that ends answers a request that is complete or failed, and if it is a page, it was
taken whole. -/
theorem Shape.ended (hs : Shape c)
    (h : (c', s') ∈ (cnServeStatic conf e noteEnd noteFail c s).ended) :
    c.Settled ∧ c.Sent c' ∧
      (c.req.phase = .abort → ((c.page conf e).length : ℤ) ≤ e.send_static) := by
  have hsent : c.Sent c' := by
    obtain ⟨c₁, hsent, hout | ⟨-, hout⟩ | ⟨b, hout⟩⟩ := cnServeStatic_cases conf e c <;>
      rw [hout] at h
    · simp [noteFail, Ret.ended] at h
    · obtain rfl : c₁ = c' := by
        simp only [noteEnd, Ret.ended, if_pos, Option.map_some, Option.mem_some_iff,
          Prod.mk.injEq] at h
        exact h.1
      exact hsent
    · simp [Ret.ended] at h
  have hquiet : c.resp.phase ≠ .ready ∧ c.resp.phase ≠ .disabled := by
    constructor <;> intro hr <;>
    · unfold cnServeStatic at h
      rw [hr] at h
      simp [Ret.ended] at h
  cases hs with
  | abort hp hr => exact ⟨.inr hp, hsent, fun _ => cnServeStatic_ended hr h⟩
  | doneStatic hp => exact ⟨.inl hp, hsent, fun hp' => by simp [hp] at hp'⟩
  | head _ _ hr | bodyStatic _ _ _ hr => exact absurd hr hquiet.1
  | bodyReady _ _ _ hr | bodyStream _ _ _ hr | doneReady _ _ _ hr | doneStream _ _ _ hr
  | relay _ _ _ hr | relayEnd _ _ _ hr => exact absurd hr hquiet.2

/-- What is started behind a file or a page is the request behind the one that was answered. -/
theorem cnServeStaticCalls_starts (hrs : ∀ x ∈ rs, Framed x) (h : Aligned W rs c) (hs : Shape c)
    (hready : c.fd ∈ s.pool.write_ready)
    (hres : c.Answered conf e s → Resumes rs c) (hk : k ∈ cnServeStaticCalls conf e c s) :
    k.lines <+: (rs.drop (c.wire.past.length + 1)).flatten := by
  obtain ⟨⟨c', s'⟩, hended, hk⟩ := List.mem_flatMap.1 hk
  obtain ⟨hset, hc', hpage⟩ := hs.ended (Option.mem_toList.1 hended)
  obtain ⟨h', hreq, hresumes, hpast⟩ : Aligned W rs c' ∧ c'.req = c.req ∧
      (Resumes rs c → Resumes rs c') ∧ c'.wire.past = c.wire.past := by
    obtain ⟨buf, resp, data, rfl⟩ := hc'
    exact ⟨h.congr rfl (.inl hset) rfl, rfl, id, rfl⟩
  rw [← hpast]
  refine lisoResetOrCloseCalls_starts h' (fun ha => hresumes ?_) hk
  rcases hset with hp | hp
  · exact (h.complete hrs (.inl hp)).1
  · exact hres ⟨hp, hreq ▸ ha, hready, hpage hp⟩

/-- What is started behind the output of a CGI is the request behind the one that was answered. -/
theorem cnServeDynamicCalls_starts (hrs : ∀ x ∈ rs, Framed x) (h : Aligned W rs c) (hs : Shape c)
    (hb : c.cgi.buf_phase = .send) (hk : k ∈ cnServeDynamicCalls e c s) :
    k.lines <+: (rs.drop (c.wire.past.length + 1)).flatten := by
  unfold cnServeDynamicCalls at hk
  split at hk
  case isFalse => simp at hk
  exact lisoResetOrCloseCalls_starts h
    (fun _ => (h.complete hrs (.inl (hs.of_send hb).1)).1) hk

/-- In a visit to a connection that is in step, every call that starts a request starts one of the
stream. -/
theorem visitCalls_starts (h0 : c.fd ≠ 0) (hH : Held False A c s) (hready : Ready c s)
    (hR : Rest False c s) (hrs : ∀ x ∈ rs, Framed x) (hid : c.wire.id = n)
    (hok : Steady False conf n rs e c s) (h : Aligned False rs c ∧ c.Spare)
    (hk : k ∈ visitCalls conf e c s) (hp : k.req.phase = .start) :
    ∃ i, k.lines <+: (rs.drop i).flatten := by
  obtain ⟨hsend, hstatic⟩ := points_aligned h0 hH hready hR hrs (fun w => w.elim) hid hok h
  obtain ⟨hsends, -, -, hres⟩ := hok.2 hid
  rcases List.mem_append.1 hk with hk | hk
  · rcases List.mem_append.1 hk with hk | hk
    · split at hk
      · rename_i hr
        exact ⟨_, cnRecvCalls_starts h.1 hsends (of_decide_eq_true hr) hk hp⟩
      · simp at hk
    · obtain ⟨p, hp', hk⟩ := List.mem_flatMap.1 hk
      split at hk
      · rename_i hw
        obtain ⟨hRp, ha⟩ := hsend p (Option.mem_toList.1 hp')
        exact ⟨_, cnServeDynamicCalls_starts hrs ha hRp.shape hw.2 hk⟩
      · simp at hk
  · obtain ⟨p, hp', hk⟩ := List.mem_flatMap.1 hk
    split at hk
    · rename_i hw
      have hp' := Option.mem_toList.1 hp'
      obtain ⟨hRp, ha⟩ := hstatic p hp'
      exact ⟨_, cnServeStaticCalls_starts hrs ha hRp.shape (of_decide_eq_true hw.1)
        (fun ha' => (hres p hp' ha').resolve_left id) hk⟩
    · simp at hk

/-! ## Every run -/

/-- The exchanges of the connection are about the requests of the stream, in their order. -/
structure InStep (rs : List (List Byte)) (c : Conn) : Prop where
  /-- The exchanges that ended began with their requests. -/
  past : ∀ i, ∀ ex ∈ c.wire.past[i]?, ex.inp <+: (rs.drop i).flatten
  /-- So does the exchange under way. -/
  begins : c.wire.cur.inp <+: (rs.drop c.wire.past.length).flatten
  /-- Nothing was received between the requests. -/
  got : c.req.phase ≠ .abort → c.wire.got = (rs.take c.wire.past.length).flatten ++ c.wire.cur.inp
  /-- The buffer holds the head from its first byte. -/
  head : c.req.phase = .start ∨ c.req.phase = .header → c.buf.data = c.wire.cur.inp
  /-- What is kept behind a complete request begins with the next one. -/
  done : c.req.phase = .done → ∃ x, rs[c.wire.past.length]? = some x ∧
    c.wire.cur.inp = x ++ c.req.last_buf.data

/-- A connection that is aligned with its stream is in step with it. -/
theorem Aligned.inStep (hrs : ∀ x ∈ rs, Framed x) (h : Aligned W rs c) : InStep rs c := by
  constructor
  · exact fun i ex hex => (h.past i ex hex).1
  · exact h.begins
  · exact fun hp => h.got (.inr hp)
  · intro hp
    obtain ⟨r, -, hplace⟩ := h.place
    cases hplace with
    | head hz => rw [hz.buf]
    | body hs hb hlt hreq =>
      have hp' : c.req.phase = .body := by rw [hreq]; exact hb
      rcases hp with hp | hp <;> simp [hp'] at hp
    | done hs hb hle last hreq => rcases hp with hp | hp <;> simp [hreq] at hp
    | failed hp' => rcases hp with hp | hp <;> simp [hp'] at hp
  · exact fun hp => (h.complete hrs (.inl hp)).2

/-- Every call that starts a request on the connection `n` starts one of its stream. -/
def Starts (conf : Conf) (n : ℕ) (rs : List (List Byte)) (e : Env) (c : Conn) (s : Srv) : Prop :=
  c.wire.id = n → ∀ k ∈ visitCalls conf e c s, k.req.phase = .start →
    ∃ i, k.lines <+: (rs.drop i).flatten

/-- A request that is refused does not bring the connection out of step, in the runs in which the
page is behind the last byte of the request that it answers: each exchange is about its own request,
and each visit that comes next starts requests at their first bytes. When the pages and the headers
for HEAD are taken whole as well, each request for a file and each refused one got its one
answer. -/
theorem requests_aligned (hrs : ∀ x ∈ rs, Framed x)
    (h : Reach conf (Visiting (Steady False conf n rs)) l) :
    (∀ c ∈ l.srv.pool.conns, c.Unmarked ∧ (c.wire.id = n → InStep rs c)) ∧
    (∀ ev, Visiting (Steady False conf n rs) l ev → Visiting (Starts conf n rs) l ev) ∧
    ((∀ x ∈ rs, Proper x) → Reach conf (Visiting (Serving conf n rs)) l →
      ∀ c ∈ l.srv.pool.conns, c.wire.id = n → ∀ i : ℕ, ∀ ex ∈ c.wire.past[i]?, ∃ x ∈ rs[i]?,
        ¬ ForCgi x → ∃ fs t, ex.sent = answer conf fs t x) := by
  have hinv := aligned_inv hrs (fun w => w.elim) h
  refine ⟨fun c hc => ⟨unmarked_inv (h.visiting fun _ _ _ h => h.1) c hc, fun hid => ?_⟩, ?_, ?_⟩
  · exact ((hinv c hc).2 hid).1.inStep hrs
  · intro ev hok i m hpc c hc hid k hk hp
    have hloop := loop_inv h
    have hH := hloop.pool.held i c hc
    have hready := hloop.ready i c (by rw [hpc]; exact le_rfl) hc
    have h0 : c.fd ≠ 0 := fun he => hH.fd_notMem (he ▸ .inl h.zero_mem)
    obtain ⟨hR, ha⟩ := hinv c (List.mem_of_getElem? hc)
    exact visitCalls_starts h0 hH hready hR hrs hid (hok i m hpc c hc) (ha hid) hk hp
  · intro hproper h c hc hid i ex hex
    have hrun : Reach conf (fun l ev => Visiting (Attending False conf n rs) l ev ∧
        ev.env.fs ∈ Set.univ) l := reach_attending (h.mono fun _ _ h => ⟨h, trivial⟩)
    obtain ⟨x, hx, hserves⟩ := ((answering_inv hproper hrun c hc).2 hid).past i ex hex
    refine ⟨x, hx, fun hno => ?_⟩
    cases hserves fun hcgi => absurd hcgi hno with
    | answer _ fs _ t hsent => exact ⟨fs, t, hsent⟩
    | relayed hcgi | failed hcgi => exact absurd hcgi hno

/-- A request with a method that is not supported, and the next one. -/
def refusedThen : List (List Byte) := [str "PUT / HTTP/1.1\r\n\r\n", str "GET / HTTP/1.1\r\n\r\n"]

/-- The second request arrives behind the page for the first one. -/
def refusedRun : List Ev :=
  Sample.connect ++ Sample.select {5} ∅ ++ [Sample.recv "PUT / HTTP/1.1\r\n\r\n", Sample.next] ++
    Sample.select ∅ {5} ++ [Sample.next, Sample.next] ++ Sample.select {5} ∅ ++
      [Sample.recv "GET / HT", Sample.next]

/-- The run and its requests meet the conditions. -/
theorem refusedRun_serving : (∀ x ∈ refusedThen, Proper x) ∧
    Runs.Along (step Sample.conf) (Visiting (Serving Sample.conf 0 refusedThen))
      Sample.start refusedRun ∧
    ∃ c ∈ (Runs.exec (step Sample.conf) Sample.start refusedRun).srv.pool.conns, c.wire.id = 0 ∧
      c.wire.past.length = 1 ∧ c.buf.data = str "GET / HT" := by decide +kernel

/-- Behind the page for the first request, the connection receives the second. -/
theorem requests_aligned_refused :
    ∃ c ∈ (Runs.exec (step Sample.conf) Sample.start refusedRun).srv.pool.conns,
      c.buf.data = str "GET / HT" ∧ InStep refusedThen c ∧
      ∃ ex ∈ c.wire.past[0]?, ∃ x ∈ refusedThen[0]?,
        ¬ ForCgi x → ∃ fs t, ex.sent = answer Sample.conf fs t x := by
  obtain ⟨hrs, hrun, c, hc, hid, hpast, hbuf⟩ := refusedRun_serving
  have hserving : Reach Sample.conf (Visiting (Serving Sample.conf 0 refusedThen))
    (Runs.exec (step Sample.conf) Sample.start refusedRun) :=
    (Runs.Reach.start Sample.start_init).along _ hrun
  obtain ⟨hin, -, hone⟩ := requests_aligned (fun x hx => (hrs x hx).framed)
    (hserving.visiting fun _ _ _ h => h.1)
  have hlt : 0 < c.wire.past.length := by omega
  exact ⟨c, hc, hbuf, (hin c hc).2 hid, c.wire.past[0], List.getElem?_eq_getElem hlt,
    hone hrs hserving c hc hid 0 _ (List.getElem?_eq_getElem hlt)⟩

/-- A request whose method is not supported and that has a header line, and the next one. -/
def hostThen : List (List Byte) :=
  [str "PUT / HTTP/1.1\r\nHost: a\r\n\r\n", str "GET / HTTP/1.1\r\n\r\n"]

/-- The first line is refused, and the header line arrives behind the page for it. -/
def splitRun : List Ev :=
  Sample.connect ++ Sample.select {5} ∅ ++ [Sample.recv "PUT / HTTP/1.1\r\n", Sample.next] ++
    Sample.select ∅ {5} ++ [Sample.next, Sample.next] ++ Sample.select {5} ∅

/-- The header line of the refused request is parsed as the start of a request. -/
theorem starts_inside : (∀ x ∈ hostThen, Proper x) ∧
    ¬ ∀ l, Reach Sample.conf (Visiting fun e c s => Hosted Sample.conf e c s ∧
      Sends hostThen e c s ∧ Drained e c s ∧
        ∀ p ∈ beforeStatic Sample.conf e c s, p.1.Whole Sample.conf e p.2) l →
      ∀ ev, Visiting (Sends hostThen) l ev → Visiting (Starts Sample.conf 0 hostThen) l ev := by
  refine ⟨by decide +kernel, fun h => ?_⟩
  have hstarts := h _ ((Runs.Reach.start Sample.start_init).along splitRun (by decide +kernel))
    (Sample.recv "Host: a\r\n\r\n") (by decide +kernel)
  have hpc : (Runs.exec (step Sample.conf) Sample.start splitRun).pc = .serve 0 4 := by
    decide +kernel
  have hcall : ∃ c ∈ (Runs.exec (step Sample.conf) Sample.start splitRun).srv.pool.conns[0]?,
      c.wire.id = 0 ∧ ∃ k ∈ visitCalls Sample.conf (Sample.recv "Host: a\r\n\r\n").env c
        (Runs.exec (step Sample.conf) Sample.start splitRun).srv, k.req.phase = .start ∧
          k.lines = str "Host: a\r\n\r\n" := by decide +kernel
  obtain ⟨c, hc, hid, k, hk, hp, hlines⟩ := hcall
  obtain ⟨i, hi⟩ := hstarts 0 4 hpc c hc hid k hk hp
  rw [hlines] at hi
  match i with
  | 0 | 1 => revert hi; decide
  | n + 2 => simp [hostThen, str] at hi

end Liso
