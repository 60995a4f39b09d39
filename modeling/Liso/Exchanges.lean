import Liso.Answers

/-!
# The exchanges of a connection

In the runs in which answers are sent as they are built, each exchange that ended on a connection
served its own request of the stream (`Exchange.Serves`): it sent the answer to a request for a file
or to one that is refused; it gave the body of a request for a CGI to the CGI and sent what the CGI
wrote; or the CGI failed, and the page is behind what was relayed of its output. `answers_in_order`
is about streams without requests for a CGI, and `exchanges_served` about all.
-/

namespace Liso

open Handles (Table Picker)
open Cut (lines rest whole)

variable {conf : Conf} {l : Loop} {c c' : Conn} {s s' : Srv} {e : Env} {A : Set ℕ}
  {r : Req} {V W : Prop}
  {x y z : List Byte} {rs : List (List Byte)} {n : ℕ} {fs : Fs} {F : Set Fs}

/-! ## The exchanges that ended -/

/-- The exchange served the request, from the files `F`. -/
inductive Exchange.Serves (conf : Conf) (F : Set Fs) (x : List Byte) (ex : Exchange) : Prop
  /-- It sent the answer. -/
  | answer (hno : ¬ ForCgi x) (fs : Fs) (hfs : fs ∈ F) (t : ℤ) (hsent :
    ex.sent = answer conf fs t x)
  /-- The CGI got the body, and the client what the CGI wrote. -/
  | relayed (hcgi : ForCgi x) (hin : ex.cgi_in = behindHead x) (hout : ex.sent = ex.cgi_out)
  /-- The CGI failed. -/
  | failed (hcgi : ForCgi x) (t : ℤ) (hsent : ex.sent = ex.cgi_out ++ failure conf t x)

/-- The exchanges that ended have served the requests in their order; of those for a CGI this is
said under `V`. -/
def Pasts (V : Prop) (conf : Conf) (F : Set Fs) (rs : List (List Byte)) (past : List Exchange) :
    Prop :=
  ∀ i : ℕ, ∀ ex ∈ past[i]?, ∃ x ∈ rs[i]?, (ForCgi x → V) → ex.Serves conf F x

/-- When one more exchange ends that served its request, all have. -/
theorem Pasts.concat {past : List Exchange} {ex : Exchange} (h : Pasts V conf F rs past)
    (hex : ∃ x ∈ rs[past.length]?, (ForCgi x → V) → ex.Serves conf F x) :
    Pasts V conf F rs (past ++ [ex]) := by
  intro i ex' hex'
  by_cases hi : i < past.length
  · rw [List.getElem?_append_left hi] at hex'
    exact h i ex' hex'
  · rw [List.getElem?_append_right (not_lt.1 hi)] at hex'
    obtain ⟨hlt, hget⟩ := List.getElem?_eq_some_iff.1 hex'
    obtain rfl : i = past.length := by
      rw [List.length_singleton] at hlt
      omega
    rw [List.getElem_singleton] at hget
    exact hget ▸ hex

/-- What is kept behind a request that ends begins with the next one. -/
theorem Aligned.next (h : Aligned W rs c) (hres : Resumes rs c) :
    c.req.last_buf.data <+: (rs.drop (c.wire.past.length + 1)).flatten := by
  have hstream := h.stream
  have hsplit : rs.flatten = (rs.take (c.wire.past.length + 1)).flatten ++
    (rs.drop (c.wire.past.length + 1)).flatten := by
    rw [← List.flatten_append, List.take_append_drop]
  rw [hres, hsplit] at hstream
  exact (List.prefix_append_right_inj _).1 hstream

/-- The success callback ends an exchange that served its request, and takes over the next request
of the stream. -/
theorem lisoResetOrClose_replying (e : Env) (hH : Held False A c s) (hrs : ∀ x ∈ rs, Proper x)
    (h : Aligned False rs c) (hfs : e.fs ∈ F) (hres : c.req.alive = true → Resumes rs c)
    (hpast : Pasts V conf F rs c.wire.past)
    (hserves : ∃ x ∈ rs[c.wire.past.length]?, (ForCgi x → V) → c.wire.cur.Serves conf F x) :
    (lisoResetOrClose e c s).Post (fun c' _ => Replying V conf F rs c' ∧
      Pasts V conf F rs c'.wire.past) (fun _ => True) := by
  have hpast' := hpast.concat hserves
  rcases lisoResetOrClose_cases e c s with ⟨-, he⟩ | ⟨-, -, he⟩ | ⟨ha, -, he⟩ <;> rw [he]
  · exact lisoDropConn_gone hH.idx
  · refine (Ret.post_some _ _).2 ⟨.waiting (by simp [plResetConn_eq, reqReset])
      (fun hp => ?_) rfl rfl rfl, hpast'⟩
    simp [plResetConn_eq, reqReset] at hp
  · refine (Ret.post_some _ _).2 ?_
    rw [handOver_conn]
    generalize hc₁ : (plResetConn (s.serve c) c.archive).1.handed = c₁
    have hwire : c₁.wire.past = c.wire.past ++ [c.wire.cur] ∧ c₁.wire.cur.sent = [] ∧
      c₁.wire.cur.cgi_out = [] := by
      rw [← hc₁]
      exact ⟨rfl, rfl, rfl⟩
    have hresp : c₁.resp = respNew ∧ c₁.cgi.phase = .idle := by
      rw [← hc₁]
      exact ⟨rfl, rfl⟩
    have hbuf : c₁.buf = ⟨c.req.last_buf.data, 0, false⟩ := by rw [← hc₁]; rfl
    have hr : c₁.req.Fresh := by
      rw [← hc₁]
      exact .of_reset { c.req with last_buf := bufReset c.req.last_buf } rfl rfl
    have hstart : Parsing c₁.req [] { c₁ with buf := ⟨[], 0, false⟩ } := ⟨rfl, rfl, .inl hr.phase⟩
    refine ⟨Replying.parsed (c := c₁) hr hstart rfl hbuf hrs ?_ hresp.1 hwire.2.1
      hwire.2.2 hresp.2 hfs e _, ?_⟩
    · rw [hwire.1, List.length_append, List.length_singleton, List.nil_append]
      exact h.next (hres ha)
    · rw [(cnParseReq_wire e c₁ 0 _).1, hwire.1]
      exact hpast'

/-- What `cn_serve_static` does up to its callback does not depend on the callback. -/
theorem cnServeStatic_calls (conf : Conf) (e : Env) (succCb fatCb : EndCb) (c : Conn) (s : Srv) :
    (∀ c', cnServeStatic conf e noteEnd noteFail c s = ⟨0, some c', s⟩ →
      cnServeStatic conf e succCb fatCb c s = succCb c' s) ∧
      ∀ c', cnServeStatic conf e noteEnd noteFail c s = ⟨1, some c', s⟩ →
        cnServeStatic conf e succCb fatCb c s = ⟨1, some c', s⟩ := by
  obtain ⟨c1, -, hout | ⟨-, hout⟩ | ⟨b, hout⟩⟩ := cnServeStatic_cases conf e c
  · simp [hout, noteFail]
  · simp [hout, noteEnd]
  · simp only [hout, Ret.mk.injEq, one_ne_zero, false_and, IsEmpty.forall_iff, implies_true,
      true_and, imp_self, and_self]

/-- The page for a failed request is due. -/
theorem Shape.resp_abort (h : Shape c) (hp : c.req.phase = .abort) : c.resp.phase = .abort := by
  cases h with
  | abort _ hr => exact hr
  | head hp' => rcases hp' with hp' | hp' <;> simp [hp] at hp'
  | bodyStatic hp' | bodyReady hp' | bodyStream hp' | doneStatic hp' | doneReady hp'
  | doneStream hp' | relay hp'
  | relayEnd hp' => simp [hp] at hp'

/-- A send that fails ends the connection. -/
theorem cnServeStatic_fails (conf : Conf) (succCb fatCb : EndCb) (s : Srv)
    (h0 : e.send_static ≤ 0)
    (hr : c.resp.phase = .header ∨ c.resp.phase = .abort ∨ c.resp.phase = .body ∧
      c.resp.mmbuf ≠ none) :
    ∃ c', c'.idx = c.idx ∧ cnServeStatic conf e succCb fatCb c s = fatCb c' s := by
  have hsend : ∀ data, (smartSend data e.send_static).1 ≤ 0 :=
    fun data => (min_le_left _ _).trans h0
  unfold cnServeStatic
  rcases hr with hr | hr | ⟨hr, hm⟩ <;> rw [hr]
  · dsimp only
    rw [if_pos (hsend _)]
    exact ⟨c, rfl, rfl⟩
  · unfold cnSendErrorPage
    dsimp only
    rw [if_pos (hsend _)]
    refine ⟨_, ?_, rfl⟩
    rfl
  · obtain ⟨m, hm⟩ := Option.ne_none_iff_exists'.1 hm
    rw [hm]
    dsimp only
    rw [if_pos (hsend _)]
    exact ⟨c, rfl, rfl⟩

/-- A send that takes any byte of a page takes all of it, and so does the first send of a header
that is all of a response. -/
def Conn.Whole (conf : Conf) (e : Env) (c : Conn) (s : Srv) : Prop :=
  c.fd ∈ s.pool.write_ready → 0 < e.send_static →
    (c.req.phase = .abort → ((c.page conf e).length : ℤ) ≤ e.send_static) ∧
    (c.resp.phase = .header → c.req.method = .head → (c.buf.rest.length : ℤ) ≤ e.send_static)

/-- `Conn.Whole` is decidable. -/
instance (c : Conn) (s : Srv) : Decidable (c.Whole conf e s) :=
  inferInstanceAs (Decidable (_ → _ → (_ → _) ∧ (_ → _ → _)))

/-- A send of the response changes only the buffer, the response and what was sent. -/
theorem Aligned.sent (h : Aligned False rs c) (hH : Held False A c s) (hset : c.Settled)
    (hc' : c.Sent c') : Held False A c' s ∧ Aligned False rs c' ∧ c'.req = c.req ∧
      (Resumes rs c → Resumes rs c') ∧ c'.wire.past = c.wire.past := by
  obtain ⟨buf, resp, data, rfl⟩ := hc'
  exact ⟨hH.sent data buf resp, h.congr rfl (.inl hset) rfl, rfl, id, rfl⟩

/-- Nothing is sent while the response is not built. -/
theorem cnServeStatic_waiting (conf : Conf) (e : Env) (s : Srv) (hresp : c.resp = respNew) :
    cnServeStatic conf e noteEnd noteFail c s = ⟨1, some c, s⟩ := by
  unfold cnServeStatic
  rw [hresp]
  rfl

/-- When the send fails, the connection is dropped, unless nothing is to be sent. -/
theorem cnServeStatic_unsent (hH : Held False A c s) (hs : Shape c)
    (hreply : Replying V conf F rs c) (hpast : Pasts V conf F rs c.wire.past)
    (hdis : c.resp.phase ≠ .disabled) (h0 : e.send_static ≤ 0) :
    (cnServeStatic conf e (lisoResetOrClose e) lisoDropConn c s).Post
      (fun c' _ => Replying V conf F rs c' ∧ Pasts V conf F rs c'.wire.past) (fun _ => True) := by
  have hdrop : c.resp.phase = .header ∨ c.resp.phase = .abort ∨ c.resp.phase = .body ∧
    c.resp.mmbuf ≠ none →
      (cnServeStatic conf e (lisoResetOrClose e) lisoDropConn c s).Post
        (fun c' _ => Replying V conf F rs c' ∧ Pasts V conf F rs c'.wire.past) (fun _ => True) := by
    intro hphase
    obtain ⟨c', hidx, he⟩ :=
      cnServeStatic_fails conf (lisoResetOrClose e) lisoDropConn s h0 hphase
    rw [he]
    exact lisoDropConn_gone (hidx ▸ hH.idx)
  cases hreply with
  | waiting hp ht hresp hsent hout =>
    rw [(cnServeStatic_calls conf e _ _ c s).2 c (cnServeStatic_waiting conf e s hresp)]
    exact (Ret.post_some _ _).2 ⟨.waiting hp ht hresp hsent hout, hpast⟩
  | page hp | failed hp => exact hdrop (.inr (.inl (hs.resp_abort hp)))
  | file _ _ _ _ _ _ _ _ _ hsend =>
    rcases hsend.place with ⟨-, hr, -⟩ | ⟨-, -, hr, hm⟩
    · exact hdrop (.inl hr)
    · exact hdrop (.inr (.inr ⟨hr, by simp [hm]⟩))
  | gateway _ _ hresp => exact absurd (by rw [hresp]) hdis

/-- A page that is taken whole ends its exchange, and serves the request if the page does behind
what was sent before. -/
theorem cnServeStatic_page (hH : Held False A c s) (hs : Shape c) (hrs : ∀ x ∈ rs, Proper x)
    (h : Aligned False rs c) (hfs : e.fs ∈ F) (hpast : Pasts V conf F rs c.wire.past)
    (h0 : 0 < e.send_static) (hp : c.req.phase = .abort)
    (hlen : ((c.page conf e).length : ℤ) ≤ e.send_static)
    (hres : c.req.alive = true → Resumes rs c)
    (hserves : ∀ t, ∃ x ∈ rs[c.wire.past.length]?, (ForCgi x → V) →
      Exchange.Serves conf F x { c.wire.cur with sent := c.wire.cur.sent ++
                                                   c.resp.page conf t c.req.alive }) :
    (cnServeStatic conf e (lisoResetOrClose e) lisoDropConn c s).Post
      (fun c' _ => Replying V conf F rs c' ∧ Pasts V conf F rs c'.wire.past) (fun _ => True) := by
  obtain ⟨k, hk, hcount, hsend⟩ := smartSend_some h0 (page_ne_nil conf e c)
  have hout : cnServeStatic conf e noteEnd noteFail c s = ⟨0, some (c.pageSent conf e k), s⟩ := by
    rw [cnServeStatic, hs.resp_abort hp]
    dsimp only
    rw [send_page s hk hsend, if_pos (by omega)]
  have hpage : c.Sent (c.pageSent conf e k) := ⟨_, _, _, rfl⟩
  obtain ⟨hH', h', hreq, hresumes, hpast'⟩ := h.sent hH (.inr hp) hpage
  rw [(cnServeStatic_calls conf e _ _ c s).1 _ hout]
  refine lisoResetOrClose_replying e hH' hrs h' hfs (fun ha => hresumes (hres (hreq ▸ ha)))
    (hpast' ▸ hpast) ?_
  obtain ⟨x, hx, hx'⟩ := hserves e.time_err
  refine ⟨x, by rw [hpast']; exact hx, ?_⟩
  have hcur : (c.pageSent conf e k).wire.cur =
      { c.wire.cur with sent := c.wire.cur.sent ++ c.resp.page conf e.time_err c.req.alive } := by
    show { c.wire.cur with sent := c.wire.cur.sent ++ (c.page conf e).take k } = _
    rw [List.take_of_length_le (by omega)]
    rfl
  rw [hcur]
  exact hx'

/-- A file is sent on, or its exchange ends with the whole answer. -/
theorem cnServeStatic_file (hH : Held False A c s) (hrs : ∀ x ∈ rs, Proper x)
    (h : Aligned False rs c) (hfs : e.fs ∈ F) (hpast : Pasts V conf F rs c.wire.past)
    (h0 : 0 < e.send_static) (hhead' : c.resp.phase = .header → c.req.method = .head →
      (c.buf.rest.length : ℤ) ≤ e.send_static)
    (hp : c.req.phase = .done) (ht : c.req.type = .static) (hx : rs[c.wire.past.length]? = some x)
    (hno : ¬ ForCgi x) {hdr bytes : List Byte} {t : ℤ} (hsend : Sending [] hdr bytes n c)
    (hne : bytes ≠ []) (hhead : c.req.method = .head → n < hdr.length) (hfs' : fs ∈ F)
    (hfull : hdr ++ (if c.req.method = .head then [] else bytes) = answer conf fs t x) :
    (cnServeStatic conf e (lisoResetOrClose e) lisoDropConn c s).Post
      (fun c' _ => Replying V conf F rs c' ∧ Pasts V conf F rs c'.wire.past) (fun _ => True) := by
  obtain ⟨hend, hgo⟩ := cnServeStatic_calls conf e (lisoResetOrClose e) lisoDropConn c s
  -- The success callback, when all of the answer was sent.
  have hall : ∀ c', c.Sent c' → c'.wire.cur.sent = answer conf fs t x →
    (lisoResetOrClose e c' s).Post
      (fun c' _ => Replying V conf F rs c' ∧ Pasts V conf F rs c'.wire.past) (fun _ => True) := by
    intro c' hc' hfin
    obtain ⟨hH', h', hreq, hresumes, hpast'⟩ := h.sent hH (.inl hp) hc'
    exact lisoResetOrClose_replying e hH' hrs h' hfs
      (fun _ => hresumes (h.complete (fun x hx => (hrs x hx).framed) (.inl hp)).1) (hpast' ▸ hpast)
      ⟨x, by rw [hpast']; exact hx, fun _ => .answer hno fs hfs' t hfin⟩
  by_cases hn : n < hdr.length
  · obtain ⟨k, hk, hout, hnext⟩ := hsend.header hn hne h0 conf s
    by_cases hm : c.req.method = .head
    · -- The header is all, and is taken whole.
      obtain ⟨hphase, hbuf⟩ : c.resp.phase = .header ∧ c.buf = ⟨hdr, n, false⟩ := by
        rcases hsend.place with ⟨-, hr, hb, -⟩ | ⟨hle, -⟩
        · exact ⟨hr, hb⟩
        · omega
      have hlen := hhead' hphase hm
      rw [hbuf, Buf.rest, List.length_drop] at hlen
      dsimp only at hlen
      rw [if_pos hm] at hout hfull
      rw [hend _ hout]
      refine hall _ ⟨_, _, _, rfl⟩ ?_
      rw [hnext.sent, List.nil_append, ← hfull, List.append_nil, show n + k = hdr.length by omega,
        List.take_left]
    · rw [if_neg hm] at hout
      rw [hgo _ hout]
      exact (Ret.post_some _ _).2
        ⟨.file hp ht x hx hno hdr bytes (n + k) t hnext hne (fun hm' => absurd hm' hm)
          fs hfs' hfull,
          hpast⟩
  · obtain ⟨k, m, hsent', ⟨hfin, hout⟩ | ⟨hout, hnext⟩⟩ := hsend.file (not_lt.1 hn) h0 conf s
    · rw [if_neg fun hm => hn (hhead hm)] at hfull
      rw [hend _ hout]
      refine hall _ ⟨_, _, _, rfl⟩ ?_
      rw [hsent', hfin, List.take_length, List.nil_append, hfull]
    · rw [hgo _ hout]
      exact (Ret.post_some _ _).2
        ⟨.file hp ht x hx hno hdr bytes (n + k) t hnext hne (fun hm => absurd (hhead hm) hn) fs hfs'
          hfull, hpast⟩

/-- The section that serves files and pages sends on what the request is answered with, or ends the
exchange with it. -/
theorem stepStatic_replying (conf : Conf) (e : Env) (hH : Held False A c s) (hs : Shape c)
    (hrs : ∀ x ∈ rs, Proper x) (h : Aligned False rs c) (hfs : e.fs ∈ F)
    (hreply : Replying V conf F rs c) (hpast : Pasts V conf F rs c.wire.past)
    (hwhole : c.Whole conf e s) (hres : c.Answered conf e s → Resumes rs c) :
    (stepStatic conf e c s).Post (fun c' _ => Replying V conf F rs c' ∧
      Pasts V conf F rs c'.wire.past) (fun _ => True) := by
  have hH₁ := hH.acted c.fd
  unfold stepStatic
  dsimp only
  split
  case isFalse => exact (Ret.post_some _ _).2 ⟨hreply, hpast⟩
  rename_i hcond
  have hready : c.fd ∈ s.pool.write_ready := of_decide_eq_true hcond.1
  have hwhole := hwhole hready
  generalize (s.probe c.fd).act c.fd = s₁ at hH₁ ⊢
  by_cases h0 : 0 < e.send_static
  case neg => exact cnServeStatic_unsent hH₁ hs hreply hpast hcond.2 (not_lt.1 h0)
  obtain ⟨hpage', hhead'⟩ := hwhole h0
  -- A page is taken whole.
  have hpageWhole : c.req.phase = .abort → (∀ t, ∃ x ∈ rs[c.wire.past.length]?, (ForCgi x → V) →
        Exchange.Serves conf F x { c.wire.cur with sent := c.wire.cur.sent ++
                                                      c.resp.page conf t c.req.alive }) →
      (cnServeStatic conf e (lisoResetOrClose e) lisoDropConn c s₁).Post
        (fun c' _ => Replying V conf F rs c' ∧ Pasts V conf F rs c'.wire.past) (fun _ => True) :=
    fun hp => cnServeStatic_page hH₁ hs hrs h hfs hpast h0 hp (hpage' hp)
      fun ha => hres ⟨hp, ha, hready, hpage' hp⟩
  cases hreply with
  | waiting hp ht hresp hsent hout =>
    rw [(cnServeStatic_calls conf e _ _ c s₁).2 c (cnServeStatic_waiting conf e s₁ hresp)]
    exact (Ret.post_some _ _).2 ⟨.waiting hp ht hresp hsent hout, hpast⟩
  | page hp hg hsent x hx hno fs hfs' _ hpage =>
    refine hpageWhole hp fun t => ⟨x, hx, fun _ => .answer hno fs hfs' t ?_⟩
    show c.wire.cur.sent ++ _ = _
    rw [hsent, List.nil_append, hpage]
  | gateway _ _ hresp => exact absurd (by rw [hresp]) hcond.2
  | failed hp hg hsent x hx hcgi halive hresp =>
    refine hpageWhole hp fun t => ⟨x, hx, fun v => .failed hcgi t ?_⟩
    show c.wire.cur.sent ++ _ = _
    rw [hsent (v hcgi), hresp, halive]
    rfl
  | file hp ht x hx hno hdr bytes n t hsend hne hhead fs hfs' hfull =>
    exact cnServeStatic_file hH₁ hrs h hfs hpast h0 hhead' hp ht hx hno hsend hne hhead hfs' hfull

/-! ## The CGI -/

/-- The CGI gets the body of its request, and the client what the CGI writes. -/
structure Conn.Piping (c : Conn) : Prop where
  /-- The body. -/
  feeding : Feeding True False c
  /-- The output. -/
  relaying : Relaying c

/-- The body of a request, whatever was received behind it. -/
theorem Framed.body_append (h : Framed x) (y : List Byte) : bodyOf (x ++ y) = behindHead x := by
  have hsized := h.sized
  obtain ⟨pre, l, z, rfl, hls, hne, hb, hbl⟩ := h.headed
  obtain ⟨hhead, hfields⟩ := headOf_blank hls hne hb hbl z
  obtain ⟨hhead', hfields'⟩ := headOf_blank hls hne hb hbl (z ++ y)
  have hbehind : behindHead ((pre ++ [l]).flatten ++ z) = z := by
    rw [behindHead, hhead, List.drop_left]
  have hsize : bodySize ((pre ++ [l]).flatten ++ (z ++ y)) = z.length := by
    rw [hbehind] at hsized
    rw [hsized, bodySize, bodySize, hfields, hfields']
  rw [hbehind, List.append_assoc, bodyOf, hsize, behindHead, hhead', List.drop_left, List.take_left]

/-- As much of a body as was received with its head is a prefix of it. -/
theorem Framed.body_prefix (h : Framed x) (hz : Headed z) (hpre : z <+: x ++ y) :
    bodyOf z <+: behindHead x := by
  rcases List.prefix_or_prefix_of_prefix hpre (List.prefix_append x y) with ⟨w, rfl⟩ | ⟨w, rfl⟩
  · obtain ⟨pre, l, z, rfl, hls, hne, hb, hbl⟩ := hz
    have hhead := (headOf_blank hls hne hb hbl z).1
    have hhead' := (headOf_blank hls hne hb hbl (z ++ w)).1
    rw [bodyOf, behindHead, hhead, List.drop_left, List.append_assoc,
      behindHead, hhead', List.drop_left]
    exact (List.take_prefix _ _).trans (List.prefix_append _ _)
  · rw [h.body_append]

/-- Behind the success callback, the CGI of the next request has received nothing yet. -/
theorem lisoResetOrClose_piping (e : Env) (hH : Held False A c s) :
    (lisoResetOrClose e c s).Post (fun c' _ => c'.Piping) (fun _ => True) := by
  have hfeed := lisoResetOrClose_feeding (W := True) (V := False) e hH (fun _ _ _ v => v.elim)
    fun _ v => v.elim
  refine ((hfeed.and (lisoResetOrClose_served e hH.idx)).and
    (lisoResetOrClose_rest (W := False) e hH)).mono ?_
    fun _ _ => trivial
  rintro c' s' ⟨⟨⟨⟨hf, -⟩, -⟩, houts, -⟩, -, hcalm, -⟩
  refine ⟨hf, .of_outs houts ?_ ?_⟩ <;> rcases hcalm with h | h | h <;> simp [h]

/-- A chunk is sent whole. -/
theorem Relaying.chunk (h : Relaying c) (hg : c.cgi.phase = .cgiToSrv ∨ c.cgi.phase = .done)
    (hb : c.cgi.buf_phase = .send) (hle : c.buf.rsize ≤ e.send_dynamic) :
    Relaying (c.relayed e) := by
  obtain ⟨hcur, hbad⟩ := h.cursor hg
  have hrest : c.buf.rest = c.buf.data := by rw [Buf.rest, hcur, List.drop_zero]
  have hsize : c.buf.rsize = c.buf.data.length := by simp [Buf.rsize, Buf.sz, hcur, hbad]
  have hall : smartSend c.buf.rest e.send_dynamic = (c.buf.rsize, c.buf.data) := by
    rw [hsize] at hle ⊢
    rw [hrest, smartSend, min_eq_right hle]
    simp
  have hsent : (c.relayed e).wire.cur.sent = c.wire.cur.cgi_out := by
    rw [← h.send hg hb]
    simp [Conn.relayed, Conn.logSent, hall]
  have hfree : (c.relayed e).cgi.buf_phase = .recv := by simp [Conn.relayed, hall]
  refine ⟨fun hp hg' => ?_, fun _ => ⟨hcur, hbad⟩, fun _ _ => hsent, fun _ hb' => ?_, h.ended⟩
  · have hg' : c.cgi.phase = .idle ∨ c.cgi.phase = .ready ∨ c.cgi.phase = .srvToCgi := hg'
    rcases hg with hg | hg <;> simp [hg] at hg'
  · simp [hfree] at hb'

/-- The sending of a CGI's output, when it takes the whole chunk. -/
theorem stepToClient_piping (e : Env) (h0 : 0 < c.fd) (hH : Held False A c s) (hs : Shape c)
    (h : c.Piping) (he : c.Emptied)
    (hwhole : c.fd ∈ s.pool.write_ready → c.cgi.buf_phase = .send → 0 < e.send_dynamic →
      c.buf.rsize ≤ e.send_dynamic) :
    (stepToClient e c s).Post (fun c' _ => c'.Piping) (fun _ => True) := by
  have hfeed := stepToClient_feeding (W := True) (V := False) e h0 hH hs ⟨h.feeding, he⟩
    fun _ _ _ v => v.elim
  suffices hrelay : (stepToClient e c s).Post (fun c' _ => Relaying c') (fun _ => True) from
    (hfeed.and hrelay).mono (fun _ _ h => ⟨h.1.1.1, h.2⟩) fun _ _ => trivial
  have hH' := hH.acted c.fd
  rcases stepToClient_cases e c s h0 with ⟨-, he⟩ | ⟨hready, hb, hout⟩
  · rw [he]
    exact (Ret.post_some _ _).2 h.relaying
  obtain ⟨-, -, -, hg⟩ := hs.of_send hb
  have hg : c.cgi.phase = .cgiToSrv ∨ c.cgi.phase = .done := hg.imp_left And.left
  rcases hout with ⟨-, -, he⟩ | ⟨-, ⟨-, he⟩ | ⟨hrc, he⟩⟩ <;> rw [he]
  · refine (lisoResetOrClose_piping e hH').andThen fun c1 _ h1 => ?_
    split
    · exact (Ret.post_some _ _).2 h1.relaying
    · exact (Ret.post_some _ _).2 h1.relaying
  · exact lisoDropConn_gone hH'.idx
  · exact (Ret.post_some _ _).2
      (h.relaying.chunk hg hb (hwhole hready hb (lt_of_lt_of_le hrc (min_le_left _ _))))

/-- The section that serves files and pages leaves alone what the CGI has received and sent. -/
theorem stepStatic_piping (conf : Conf) (e : Env) (hH : Held False A c s) (hs : Shape c)
    (h : c.Piping) (he : c.Emptied) :
    (stepStatic conf e c s).Post (fun c' _ => c'.Piping) (fun _ => True) := by
  have hfeed := stepStatic_feeding (W := True) (V := False) conf e hH hs ⟨h.feeding, he⟩
    fun _ _ _ v => v.elim
  suffices hrelay : (stepStatic conf e c s).Post (fun c' _ => Relaying c') (fun _ => True) from
    (hfeed.and hrelay).mono (fun _ _ h => ⟨h.1.1.1, h.2⟩) fun _ _ => trivial
  rcases stepStatic_cases conf e c s with ⟨s', he, -⟩ | ⟨hr, c', hsent, hout⟩
  · rw [he]
    exact (Ret.post_some _ _).2 h.relaying
  -- No CGI's output is relayed.
  have hg : c.cgi.phase = .disabled ∨ c.req.phase = .abort ∧ c.cgi.phase ≠ .cgiToSrv ∧
    c.cgi.phase ≠ .done := by
    cases hs with
    | doneStatic _ _ hg => exact .inl hg
    | abort hp _ _ hg hg' => exact .inr ⟨hp, hg, hg'⟩
    | head _ _ hr' | bodyStatic _ _ _ hr' | bodyReady _ _ _ hr' | bodyStream _ _ _ hr'
    | doneReady _ _ _ hr'
    | doneStream _ _ _ hr' | relay _ _ _ hr' | relayEnd _ _ _ hr' =>
      rcases hr with hr | hr | hr <;> simp [hr] at hr'
  obtain ⟨buf, resp, data, rfl⟩ := hsent
  have hH' := (hH.acted c.fd).sent data buf resp
  rcases hout with he | he | ⟨b, he⟩ <;> rw [he]
  · exact lisoDropConn_gone hH'.idx
  · exact (lisoResetOrClose_piping e hH').mono (fun _ _ h => h.relaying) fun _ h => h
  · exact (Ret.post_some _ _).2 (.of_phase (hg.imp_right .inr))

/-- The CGI has the body of its request before its output is read. -/
theorem Conn.Piping.fed (h : c.Piping) (hrs : ∀ x ∈ rs, Proper x) (ha : Aligned W rs c)
    (hp : c.req.phase = .done) (ht : c.req.type = .dynamic)
    (hg : c.cgi.phase = .cgiToSrv ∨ c.cgi.phase = .done) {x : List Byte}
    (hx : rs[c.wire.past.length]? = some x) : c.wire.cur.cgi_in = behindHead x := by
  obtain ⟨-, x', hx', hinp⟩ := ha.complete (fun x hx => (hrs x hx).framed) (.inl hp)
  obtain rfl : x' = x := by simpa [hx] using hx'.symm
  have hfed := h.feeding.fed trivial ht (.inr hp)
  have hdue : c.due = [] := if_neg (by rcases hg with hg | hg <;> simp [hg])
  calc c.wire.cur.cgi_in = bodyOf c.wire.cur.inp := by rw [← hfed, hdue, List.append_nil]
    _ = behindHead x' := by rw [hinp, (hrs x' (List.mem_of_getElem? hx')).framed.body_append]

/-- The end of a CGI's output. -/
theorem Conn.Piping.serves (h : c.Piping) (hrs : ∀ x ∈ rs, Proper x) (ha : Aligned W rs c)
    (hp : c.req.phase = .done) (ht : c.req.type = .dynamic) (hg : c.cgi.phase = .done)
    (hb : c.cgi.buf_phase = .send) (hx : rs[c.wire.past.length]? = some x) (hcgi : ForCgi x) :
    c.wire.cur.Serves conf F x := by
  refine .relayed hcgi (h.fed hrs ha hp ht (.inr hg) hx) ?_
  have hsent := h.relaying.send (.inr hg) hb
  rw [h.relaying.ended hg, List.append_nil] at hsent
  exact hsent

/-- The sending of a CGI's output. -/
theorem stepToClient_replying (e : Env) (h0 : 0 < c.fd) (hH : Held False A c s) (hs : Shape c)
    (hrs : ∀ x ∈ rs, Proper x) (h : Aligned False rs c) (hfs : e.fs ∈ F)
    (hreply : Replying V conf F rs c) (hpast : Pasts V conf F rs c.wire.past)
    (hpipe : V → c.Piping) :
    (stepToClient e c s).Post (fun c' _ => Replying V conf F rs c' ∧ Pasts V conf F rs c'.wire.past)
    (fun _ => True) := by
  have hH' := hH.acted c.fd
  rcases stepToClient_cases e c s h0 with ⟨-, he⟩ | ⟨hready, hb, hout⟩
  · rw [he]
    exact (Ret.post_some _ _).2 ⟨hreply, hpast⟩
  obtain ⟨hp, ht, -, hg⟩ := hs.of_send hb
  rcases hout with ⟨-, hd, he⟩ | ⟨-, ⟨-, he⟩ | ⟨hrc, he⟩⟩ <;> rw [he]
  · obtain ⟨x, hx, hcgi, -⟩ := h.forCgi hrs (.inr hp) ht
    refine (lisoResetOrClose_replying e hH' hrs h hfs
      (fun _ => (h.complete (fun x hx => (hrs x hx).framed) (.inl hp)).1) hpast
      ⟨x, hx, fun v => (hpipe (v hcgi)).serves hrs h hp ht hd hb hx hcgi⟩).andThen fun c1 _ h1 => ?_
    split
    · exact (Ret.post_some _ _).2 h1
    · exact (Ret.post_some _ _).2 h1
  · exact lisoDropConn_gone hH'.idx
  · refine (Ret.post_some _ _).2 ⟨?_, hpast⟩
    cases hreply with
    | gateway _ _ hresp hquiet =>
      refine .gateway (.inr hp) ht hresp fun hg' => ?_
      have hg' : c.cgi.phase = .ready ∨ c.cgi.phase = .srvToCgi := hg'
      rcases hg with ⟨hg, -⟩ | hg <;> simp [hg] at hg'
    | waiting _ ht' =>
      have ht' := ht' (.inr hp)
      simp [ht] at ht'
    | file _ ht' => simp [ht] at ht'
    | page hp' | failed hp' => simp [hp] at hp'

/-! ## Every run -/

/-- The condition on a visit: the hosts fit, and if it is one to the connection `n`, its client
sends the stream, it is reset behind the last byte of a refused request only, nothing is received
while bytes of a body wait for the start of a CGI, and pages are sent whole. -/
def Serving (conf : Conf) (n : ℕ) (rs : List (List Byte)) (e : Env) (c : Conn) (s : Srv) : Prop :=
  Steady False conf n rs e c s ∧
    (c.wire.id = n → ∀ p ∈ beforeStatic conf e c s, p.1.Whole conf e p.2)

/-- `Serving` is decidable. -/
instance (c : Conn) (s : Srv) : Decidable (Serving conf n rs e c s) :=
  inferInstanceAs (Decidable (_ ∧ (_ → ∀ p ∈ beforeStatic conf e c s, p.1.Whole conf e p.2)))

/-- Under `V` the CGI takes what it is offered, and the client what the CGI wrote, as well. -/
def Attending (V : Prop) (conf : Conf) (n : ℕ) (rs : List (List Byte)) (e : Env) (c : Conn)
    (s : Srv) : Prop :=
  Serving conf n rs e c s ∧ (V → c.wire.id = n → WholeWrites conf e c s ∧ WholeSend conf e c s)

/-- `Attending` is decidable. -/
instance [Decidable V] (c : Conn) (s : Srv) : Decidable (Attending V conf n rs e c s) :=
  inferInstanceAs (Decidable (_ ∧ (_ → _ → _ ∧ _)))

/-- The exchanges that ended, the one under way, and its answer. -/
structure Answering (V : Prop) (conf : Conf) (F : Set Fs) (rs : List (List Byte)) (c : Conn) :
    Prop where
  /-- The bytes received. -/
  aligned : Aligned False rs c
  /-- The buffer at rest. -/
  spare : c.Spare
  /-- The answer under way. -/
  reply : Replying V conf F rs c
  /-- The answers before. -/
  past : Pasts V conf F rs c.wire.past
  /-- The CGI. -/
  piping : V → c.Piping

/-- What two assertions say of a handler, one of them under `V`. -/
theorem Ret.Post.and_of {r : Ret} {P Q : Conn → Srv → Prop} (h : r.Post P fun _ => True)
    (h' : V → r.Post Q fun _ => True) :
    r.Post (fun c s => P c s ∧ (V → Q c s)) fun _ => True := by
  by_cases v : V
  · exact (h.and (h' v)).mono (fun _ _ h => ⟨h.1, fun _ => h.2⟩) fun _ _ => trivial
  · exact h.mono (fun _ _ h => ⟨h, fun v' => absurd v' v⟩) fun _ h => h

/-- A receipt ends no exchange. -/
theorem Receipt.past (h : Receipt e c s c') : c'.wire.past = c.wire.past := by
  cases h with
  | idle hc => rw [hc]
  | handshake _ hc => rw [hc]
  | ignored data hp hc => rw [hc]; rfl
  | full data bytes hready hp hfull hsome hne hc => rw [hc]; rfl
  | parsed data bytes hready hp hfit hsome hpre hne hc =>
    obtain ⟨s', rfl⟩ := hc
    rw [(cnParseReq_wire e (c.received data) c.buf.data.length s').1]
    rfl

/-- The section `recv`, for the CGI. -/
theorem stepRecv_piping (e : Env) (hidx : c.idx < s.pool.conns.length) (hR : Rest False c s)
    (hready : Ready c s) (h : c.Piping) (he : c.Emptied) (hd : Drained e c s) :
    (stepRecv e c s).Post (fun c' _ => c'.Piping) fun _ => True :=
  ((stepRecv_feeding hidx hR hready ⟨h.feeding, he⟩ hd).and
    (stepRecv_relaying e hidx hR hready h.relaying)).mono
    (fun _ _ h => ⟨h.1, h.2⟩) fun _ _ => trivial

/-- The section `recv` leaves a connection at the answer to its own request, or drops it. -/
theorem stepRecv_answering (hH : Held False A c s) (hready : Ready c s) (hR : Rest False c s)
    (hrs : ∀ x ∈ rs, Proper x) (hsend : Sends rs e c s) (hdrained : Drained e c s) (hfs : e.fs ∈ F)
    (h : Answering V conf F rs c) :
    (stepRecv e c s).Post (fun c' _ => (Aligned False rs c' ∧ Replying V conf F rs c' ∧
      Pasts V conf F rs c'.wire.past) ∧ (V → c'.Piping)) (fun _ => True) := by
  have hframed : ∀ x ∈ rs, Framed x := fun x hx => (hrs x hx).framed
  refine Ret.Post.and_of ?_ fun v => stepRecv_piping e hH.idx hR hready (h.piping v) h.spare.1
    hdrained
  by_cases hp : c.req.phase = .done
  · rw [stepRecv_done e hR hready hp]
    exact (Ret.post_some _ _).2 ⟨h.aligned, h.reply, h.past⟩
  · exact ((stepRecv_receipt e hH.idx).and (stepRecv_got e hH.idx)).mono (fun _ _ hr =>
      ⟨hr.1.aligned hr.2 hframed (fun w => w.elim) h.aligned hR.shape h.spare hsend
        hdrained (fun w => w.elim) hp,
        hr.1.replying hrs h.aligned hR.shape h.spare hsend hfs hp h.reply,
          hr.1.past ▸ h.past⟩) fun _ _ => trivial

/-- So do the sections behind it, up to the serving. -/
theorem afterRecv_answering (hrs : ∀ x ∈ rs, Proper x) (hfs : e.fs ∈ F)
    (hwrite : V → WholeWrites conf e c s) {p : Conn × Srv} (hp : p ∈ afterRecv e c s)
    (hR : Recvd False p.1 p.2)
    (h : (Aligned False rs p.1 ∧ Replying V conf F rs p.1 ∧ Pasts V conf F rs p.1.wire.past) ∧
      (V → p.1.Piping)) :
    Answering V conf F rs (stepMiddle conf e p.1 p.2).1 := by
  obtain ⟨⟨ha, hreply, hpast⟩, hpiping⟩ := h
  obtain ⟨ha', hsp⟩ := stepMiddle_aligned conf e hR ha fun w => w.elim
  refine ⟨ha', hsp, stepMiddle_replying conf hfs hR hrs ha hreply,
    (stepMiddle_history conf e p.1 p.2).1.symm ▸ hpast, fun v => ?_⟩
  have hmem : stepTransit conf e p.1 p.2 ∈ beforeStream conf e c s := Option.mem_map_of_mem _ hp
  exact ⟨(stepMiddle_feeding conf e hR (hpiping v).feeding (fun _ => hwrite v _ hmem)
    fun v => v.elim).1, stepMiddle_relaying conf e hR (hpiping v).relaying⟩

/-- So does the section `stream from cgi`. -/
theorem stepFromCgi_answering (e : Env) (s : Srv) (hs : Shape c) (hrs : ∀ x ∈ rs, Proper x)
    (h : Answering V conf F rs c) : Answering V conf F rs (stepFromCgi e c s).1 := by
  obtain ⟨ha, hsp⟩ := stepFromCgi_aligned e s hs ⟨h.aligned, h.spare⟩
  obtain ⟨hreply, hpast⟩ :=
    stepFromCgi_replying s hs hrs h.aligned h.reply fun v hg hb =>
      (h.piping v).relaying.recv (.inl hg) hb
  exact ⟨ha, hsp, hreply, hpast ▸ h.past, fun v =>
    ⟨stepFromCgi_feeding e s (h.piping v).feeding hs,
      stepFromCgi_relaying e (h.piping v).relaying⟩⟩

/-- So does the sending of a CGI's output. -/
theorem stepToClient_answering (e : Env) (h0 : 0 < c.fd) (hH : Held False A c s) (hs : Shape c)
    (hrs : ∀ x ∈ rs, Proper x) (hfs : e.fs ∈ F)
    (hwhole : V → c.fd ∈ s.pool.write_ready → c.cgi.buf_phase = .send → 0 < e.send_dynamic →
      c.buf.rsize ≤ e.send_dynamic) (h : Answering V conf F rs c) :
    (stepToClient e c s).Post (fun c' _ => Answering V conf F rs c') (fun _ => True) :=
  ((stepToClient_aligned e h0 hH hs (fun x hx => (hrs x hx).framed) (fun w => w.elim)
    ⟨h.aligned, h.spare⟩).and
    ((stepToClient_replying e h0 hH hs hrs h.aligned hfs h.reply h.past h.piping).and_of fun v =>
      stepToClient_piping e h0 hH hs (h.piping v) h.spare.1 (hwhole v))).mono
    (fun _ _ h => ⟨h.1.1, h.1.2, h.2.1.1, h.2.1.2, h.2.2⟩) fun _ _ => trivial

/-- A visit to the connection leaves it at the answer to its own request, or drops it. -/
theorem visit_answering (h0 : c.fd ≠ 0) (hH : Held False A c s) (hready : Ready c s)
    (hR : Rest False c s) (hrs : ∀ x ∈ rs, Proper x) (hid : c.wire.id = n)
    (hok : Attending V conf n rs e c s) (hfs : e.fs ∈ F) (h : Answering V conf F rs c) :
    (visit conf e c s).Post (fun c' s' => Rest False c' s' ∧ Answering V conf F rs c')
    (fun _ => True) := by
  obtain ⟨⟨hsteady, hwhole⟩, hcgi⟩ := hok
  obtain ⟨hsend, hdrained, -, hres⟩ := hsteady.2 hid
  let J : Conn → Srv → Prop := fun c _ => Answering V conf F rs c
  refine visit_stages (R := fun c _ => (Aligned False rs c ∧ Replying V conf F rs c ∧
    Pasts V conf F rs c.wire.past) ∧ (V → c.Piping)) (M := J) (D := J) (B := J) (L := J) h0 hH
    hready hR (fun f => f.elim) (stepRecv_answering hH hready hR hrs hsend hdrained hfs h) ?_ ?_ ?_
      ?_ ?_
  · exact fun p hp _ hRp hr => afterRecv_answering hrs hfs (fun v => (hcgi v hid).1) hp hRp hr
  · exact fun p _ _ _ hr => hr
  · exact fun p _ _ hRp _ hr => stepFromCgi_answering e p.2 hRp.shape hrs hr
  · exact fun p hp hpos hHp hRp hr =>
      stepToClient_answering e hpos hHp hRp.shape hrs hfs (fun v => (hcgi v hid).2 p hp) hr
  · intro p hp hHp hRp hr
    refine ((stepStatic_aligned conf e hHp hRp.shape (fun x hx => (hrs x hx).framed)
      (fun w => w.elim) ⟨hr.aligned, hr.spare⟩ (hres p hp)).and
      ((stepStatic_replying conf e hHp hRp.shape hrs hr.aligned hfs hr.reply
        hr.past (hwhole hid p hp)
        fun ha => (hres p hp ha).resolve_left id).and_of fun v =>
          stepStatic_piping conf e hHp hRp.shape (hr.piping v) hr.spare.1)).mono
      (fun _ _ h => ⟨h.1.1, h.1.2, h.2.1.1, h.2.1.2, h.2.2⟩) fun _ _ => trivial

/-- So does it stand in front of the two sections that can end an exchange. -/
theorem points_answering (h0 : c.fd ≠ 0) (hH : Held False A c s) (hready : Ready c s)
    (hR : Rest False c s) (hrs : ∀ x ∈ rs, Proper x) (hsend : Sends rs e c s)
    (hdrained : Drained e c s) (hcgi : V → WholeWrites conf e c s ∧ WholeSend conf e c s)
    (hfs : e.fs ∈ F) (h : Answering V conf F rs c) :
    (∀ p ∈ beforeSend conf e c s, Rest False p.1 p.2 ∧ Answering V conf F rs p.1) ∧
      ∀ p ∈ beforeStatic conf e c s, Held False A p.1 p.2 ∧ Rest False p.1 p.2 ∧
        Answering V conf F rs p.1 := by
  let J : Conn → Srv → Prop := fun c _ => Answering V conf F rs c
  exact visit_points (R := fun c _ => (Aligned False rs c ∧ Replying V conf F rs c ∧
    Pasts V conf F rs c.wire.past) ∧ (V → c.Piping)) (M := J) (D := J) (B := J) h0 hH hready hR
    (fun f => f.elim) (stepRecv_answering hH hready hR hrs hsend hdrained hfs h)
      (fun p hp _ hRp hr => afterRecv_answering hrs hfs (fun v => (hcgi v).1) hp hRp hr)
      (fun p _ _ _ hr => hr)
      (fun p _ _ hRp _ hr => stepFromCgi_answering e p.2 hRp.shape hrs hr)
      fun p hp hpos hHp hRp hr =>
        stepToClient_answering e hpos hHp hRp.shape hrs hfs (fun v => (hcgi v).2 p hp) hr

/-- The exchanges of the connection, in every reachable state. -/
theorem answering_inv (hrs : ∀ x ∈ rs, Proper x)
    (h : Reach conf (fun l ev => Visiting (Attending V conf n rs) l ev ∧ ev.env.fs ∈ F) l) :
    ∀ c ∈ l.srv.pool.conns, Rest False c l.srv ∧ (c.wire.id = n → Answering V conf F rs c) := by
  refine (reach_local (L := fun c s => Rest False c s ∧ (c.wire.id = n → Answering V conf F rs c))
    (S := fun _ => True)
    ?_ trivial ?_ ?_ h).1
  · refine ⟨fun c s i h => ⟨Rest.stable.idx c s i h.1, fun hid => ?_⟩, fun c s s' h hk =>
      ⟨Rest.stable.keep c s s' h.1 hk, h.2⟩⟩
    have ha := h.2 hid
    refine ⟨ha.aligned.congr rfl (.inr rfl) rfl, ha.spare,
      ha.reply.congr rfl rfl rfl rfl rfl rfl fun _ => rfl, ha.past,
      fun v => ?_⟩
    obtain ⟨hf, hr⟩ := ha.piping v
    exact ⟨hf.congr rfl rfl rfl rfl rfl, ⟨hr.before, hr.cursor, hr.recv, hr.send, hr.ended⟩⟩
  · intro c s ha _ hr hw
    obtain ⟨hal, hsp⟩ : Aligned False rs c ∧ c.Spare := ha.aligned
    obtain ⟨hf, -⟩ : Feeding True False c ∧ c.Emptied := ha.feeding
    refine ⟨ha.rest hr hw, fun _ => ⟨hal, hsp, ?_, ?_, fun _ => ⟨hf, ?_⟩⟩⟩ <;>
      obtain ⟨fd, idx, mem, id, addr, port, scheme, ssl, rfl⟩ := ha
    · refine .waiting (by simp [reqNew, reqReset]) (fun hp => ?_) rfl rfl rfl
      simp [reqNew, reqReset] at hp
    · exact fun i ex hex => by simp [cnNew] at hex
    · exact .of_outs rfl (by simp [cnNew, cgiNew]) (by simp [cnNew, cgiNew])
  · rintro l ev i m c hl ⟨hok, hfs⟩ hpc hc hH hready hL -
    have h0 : c.fd ≠ 0 := fun he => hH.fd_notMem (he ▸ .inl hl.zero_mem)
    have hframe := visit_frame_any conf ev.env c l.srv hH
    by_cases hid : c.wire.id = n
    · exact (visit_answering h0 hH hready hL.1 hrs hid (hok i m hpc c hc) hfs (hL.2 hid)).mono
        (fun _ _ h => ⟨⟨h.1, fun _ => h.2⟩, trivial⟩) fun _ _ => trivial
    · refine ((visit_rest (W := False) conf ev.env h0 hH hready hL.1 fun f => f.elim).and
        hframe).mono
        (fun c' s' h => ⟨⟨h.1, fun hid' => ?_⟩, trivial⟩) fun _ _ => trivial
      exact absurd (h.2.2.id.symm.trans hid') hid

/-- The answers on a connection, in the order of the requests. -/
structure InOrder (conf : Conf) (F : Set Fs) (rs : List (List Byte)) (c : Conn) : Prop where
  /-- Each exchange that ended sent the answer to its request. -/
  past : ∀ i : ℕ, ∀ ex ∈ c.wire.past[i]?, ∃ x ∈ rs[i]?, ∃ fs ∈ F, ∃ t, ex.sent = answer conf fs t x
  /-- The exchange under way has sent a part of the answer to its own. -/
  cur : c.wire.cur.sent = [] ∨ ∃ x ∈ rs[c.wire.past.length]?, ∃ fs ∈ F, ∃ t,
    c.wire.cur.sent <+: answer conf fs t x

/-- Without requests for a CGI, each exchange sends an answer. -/
theorem Answering.inOrder (h : Answering V conf F rs c) (hrs : ∀ x ∈ rs, Plain x) :
    InOrder conf F rs c := by
  constructor
  · intro i ex hex
    obtain ⟨x, hx, hserves⟩ := h.past i ex hex
    have hno := (hrs x (List.mem_of_getElem? hx)).not_forCgi
    cases hserves fun hcgi => absurd hcgi hno with
    | answer _ fs hfs t hsent => exact ⟨x, hx, fs, hfs, t, hsent⟩
    | relayed hcgi | failed hcgi => exact absurd hcgi hno
  · cases h.reply with
    | waiting _ _ _ hsent => exact .inl hsent
    | page _ _ hsent => exact .inl hsent
    | file hp ht x hx hno hdr bytes n t hsend hne hhead fs hfs hfull =>
      refine .inr ⟨x, hx, fs, hfs, t, ?_⟩
      rw [hsend.sent, List.nil_append, ← hfull]
      by_cases hm : c.req.method = .head
      · rw [if_pos hm, List.append_nil, List.take_append_of_le_length (hhead hm).le]
        exact List.take_prefix _ _
      · rw [if_neg hm]
        exact List.take_prefix _ _
    | gateway hp ht =>
      obtain ⟨x, hx, hcgi, -⟩ := h.aligned.forCgi (fun x hx => (hrs x hx).proper) hp ht
      exact absurd hcgi (hrs x (List.mem_of_getElem? hx)).not_forCgi
    | failed _ _ _ x hx hcgi => exact absurd hcgi (hrs x (List.mem_of_getElem? hx)).not_forCgi

/-- The runs of a stream without requests for a CGI. -/
theorem reach_attending
    (h : Reach conf (fun l ev => Visiting (Serving conf n rs) l ev ∧ ev.env.fs ∈ F) l) :
    Reach conf (fun l ev => Visiting (Attending False conf n rs) l ev ∧ ev.env.fs ∈ F) l :=
  h.mono fun _ _ hok => ⟨fun i m hpc c hc => ⟨hok.1 i m hpc c hc, fun v => v.elim⟩, hok.2⟩

/-- No copy of a host is too long in them. -/
theorem attending_unmarked
    (h : Reach conf (fun l ev => Visiting (Attending V conf n rs) l ev ∧ ev.env.fs ∈ F) l) :
    ∀ c ∈ l.srv.pool.conns, c.Unmarked :=
  unmarked_inv (h.mono fun _ _ hok i m hpc c hc => (hok.1 i m hpc c hc).1.1.1)

/-- The responses on a connection are the answers to its requests, in their order: those that are
refused, those for a file that does not exist, and those for a file, which may be sent in any
pieces. -/
theorem answers_in_order (hrs : ∀ x ∈ rs, Plain x)
    (h : Reach conf (fun l ev => Visiting (Serving conf n rs) l ev ∧ ev.env.fs ∈ F) l) :
    ∀ c ∈ l.srv.pool.conns, c.Unmarked ∧ (c.wire.id = n → InOrder conf F rs c) := by
  refine fun c hc => ⟨attending_unmarked (reach_attending h) c hc, fun hid => ?_⟩
  have ha :=
    (answering_inv (fun x hx => (hrs x hx).proper) (reach_attending h) c hc).2 hid
  exact ha.inOrder hrs

/-- The run and its requests meet the conditions, and all answers are sent. -/
theorem threeRun_serving : (∀ x ∈ threeRequests, Plain x) ∧
    Runs.Along (step Sample.conf) (Visiting (Serving Sample.conf 0 threeRequests))
      Sample.start threeRun ∧
    ∃ c ∈ (Runs.exec (step Sample.conf) Sample.start threeRun).srv.pool.conns, c.wire.id = 0 ∧
      c.wire.past.length = 3 := by decide +kernel

/-- The three answers are sent in their order. -/
theorem answers_in_order_three :
    ∃ c ∈ (Runs.exec (step Sample.conf) Sample.start threeRun).srv.pool.conns,
      c.wire.past.length = 3 ∧
      InOrder Sample.conf {Sample.fs} threeRequests c := by
  obtain ⟨hrs, hrun, c, hc, hid, hpast⟩ := threeRun_serving
  have hfs : ∀ ev ∈ threeRun, ev.env.fs = Sample.fs := by
    simp [threeRun, Sample.connect, Sample.select, Sample.recv, Sample.next,
      Sample.visit, Sample.env]
  exact ⟨c, hc, hpast,
    (answers_in_order hrs ((Runs.Reach.start Sample.start_init).along _ (hrun.and hfs)) c hc).2
      hid⟩

/-- The exchanges of a connection, and the one under way. -/
structure Attended (conf : Conf) (F : Set Fs) (rs : List (List Byte)) (c : Conn) : Prop where
  /-- Each exchange that ended served its request. -/
  past : ∀ i : ℕ, ∀ ex ∈ c.wire.past[i]?, ∃ x ∈ rs[i]?, ex.Serves conf F x
  /-- A CGI under way got a part of the body of its request, and all of it before its output is
  read; and the client got a part of that. -/
  cur : c.req.type = .dynamic → c.req.phase = .body ∨ c.req.phase = .done →
    ∃ x ∈ rs[c.wire.past.length]?, ForCgi x ∧
    c.wire.cur.cgi_in <+: behindHead x ∧ c.wire.cur.sent <+: c.wire.cur.cgi_out ∧
    (c.cgi.phase = .cgiToSrv ∨ c.cgi.phase = .done → c.wire.cur.cgi_in = behindHead x)

/-- In the runs in which the CGI of a request takes what it is offered, and the client what the CGI
wrote, each exchange serves its own request, also among requests for files and requests that are
refused. -/
theorem exchanges_served (hrs : ∀ x ∈ rs, Proper x)
    (h : Reach conf (fun l ev => Visiting (Attending True conf n rs) l ev ∧ ev.env.fs ∈ F) l) :
    ∀ c ∈ l.srv.pool.conns, c.Unmarked ∧ (c.wire.id = n → Attended conf F rs c) := by
  refine fun c hc => ⟨attending_unmarked h c hc, fun hid => ?_⟩
  obtain ⟨hR, ha⟩ := answering_inv hrs h c hc
  have ha := ha hid
  refine ⟨fun i ex hex => ?_, fun ht hp => ?_⟩
  · obtain ⟨x, hx, hserves⟩ := ha.past i ex hex
    exact ⟨x, hx, hserves fun _ => trivial⟩
  obtain ⟨x, hx, hcgi, -⟩ := ha.aligned.forCgi hrs hp ht
  have hpipe := ha.piping trivial
  -- The output of a CGI is read when its request is complete.
  have hlate : c.cgi.phase = .cgiToSrv ∨ c.cgi.phase = .done → c.req.phase = .done := by
    intro hg
    cases hR.shape with
    | relay hp' | relayEnd hp' => exact hp'
    | abort _ _ _ hg1 hg2 => exact absurd hg (not_or.2 ⟨hg1, hg2⟩)
    | head _ hg' | bodyStatic _ _ hg' | bodyReady _ _ hg' | bodyStream _ _ hg' | doneStatic _ _ hg'
    | doneReady _ _ hg'
    | doneStream _ _ hg' => simp [hg'] at hg
  refine ⟨x, hx, hcgi, ?_, ?_, fun hg => hpipe.fed hrs ha.aligned (hlate hg) ht hg hx⟩
  · have hbegins := ha.aligned.begins
    rw [drop_getElem? hx, List.flatten_cons] at hbegins
    have hbody :=
      (hrs x (List.mem_of_getElem? hx)).framed.body_prefix (hpipe.feeding.counted ht hp).headed
        hbegins
    rw [← hpipe.feeding.fed trivial ht hp] at hbody
    exact (List.prefix_append _ _).trans hbody
  · by_cases hg : c.cgi.phase = .cgiToSrv ∨ c.cgi.phase = .done
    · cases hb : c.cgi.buf_phase with
      | recv => rw [hpipe.relaying.recv hg hb]
      | send => exact ⟨_, hpipe.relaying.send hg hb⟩
    · -- Nothing is read from the CGI, and nothing sent.
      have hquiet : c.cgi.phase = .ready ∨ c.cgi.phase = .srvToCgi := by
        cases hR.shape with
        | bodyReady _ _ hg' | doneReady _ _ hg' => exact .inl hg'
        | bodyStream _ _ hg' | doneStream _ _ hg' => exact .inr hg'
        | relay _ _ hg' => exact absurd (.inl hg') hg
        | relayEnd _ _ hg' => exact absurd (.inr hg') hg
        | bodyStatic _ ht' | doneStatic _ ht' => simp [ht] at ht'
        | head hp' => rcases hp' with hp' | hp' <;> simp [hp'] at hp
        | abort hp' => simp [hp'] at hp
      obtain ⟨hsent, -⟩ :=
        hpipe.relaying.before (by rcases hp with hp | hp <;> simp [hp]) (.inr hquiet)
      rw [hsent]
      exact List.nil_prefix

/-- A request for a CGI with a body, and one for a file. -/
def mixedRequests : List (List Byte) :=
  [str "POST /cgi/x HTTP/1.1\r\nContent-Length:3\r\n\r\nabc", str "GET /x HTTP/1.1\r\n\r\n"]

/-- Both arrive at once; the CGI writes `out` and ends, and then the file is sent, one pass later
than it could be: the write bit that the second request needs is cleared behind the first one. -/
def mixedRun : List Ev :=
  Sample.connect ++ Sample.select {5} ∅ ++
    [Sample.visit { Sample.env with recv := some mixedRequests.flatten }, Sample.next] ++
    Sample.select {8} ∅ ++ [Sample.visit { Sample.env with read := some (str "out") }, Sample.next]
      ++
    Sample.select ∅ {5} ++ [Sample.next, Sample.next] ++ Sample.select {8} ∅ ++
      [Sample.next, Sample.next] ++
    Sample.select ∅ {5} ++ [Sample.next, Sample.next] ++ Sample.select ∅ {5} ++
      [Sample.next, Sample.next] ++
    Sample.select ∅ {5} ++ [Sample.next, Sample.next] ++ Sample.select ∅ {5} ++
      [Sample.next, Sample.next]

/-- The run and its requests meet the conditions, and both exchanges end. -/
theorem mixedRun_attending : (∀ x ∈ mixedRequests, Proper x) ∧
    Runs.Along (step Sample.conf) (Visiting (Attending True Sample.conf 0 mixedRequests))
      Sample.start mixedRun ∧
    ∃ c ∈ (Runs.exec (step Sample.conf) Sample.start mixedRun).srv.pool.conns, c.wire.id = 0 ∧
      c.wire.past.map Exchange.cgi_in = [str "abc", []] ∧ c.wire.past.length = 2 := by
  decide +kernel

/-- The CGI got its body, and the file was sent behind its output. -/
theorem exchanges_served_mixed :
    ∃ c ∈ (Runs.exec (step Sample.conf) Sample.start mixedRun).srv.pool.conns,
      c.wire.past.map Exchange.cgi_in = [str "abc", []] ∧
        Attended Sample.conf {Sample.fs} mixedRequests c := by
  obtain ⟨hrs, hrun, c, hc, hid, hin, -⟩ := mixedRun_attending
  have hfs : ∀ ev ∈ mixedRun, ev.env.fs = Sample.fs := by
    simp [mixedRun, Sample.connect, Sample.select, Sample.next, Sample.visit, Sample.env]
  exact ⟨c, hc, hin,
    (exchanges_served hrs ((Runs.Reach.start Sample.start_init).along _ (hrun.and hfs)) c hc).2
      hid⟩

end Liso
