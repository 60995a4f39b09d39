import Liso.Framing
import Liso.Progress

/-!
# Pipelined requests for files

A client pipelines requests for files that the server has, however it cuts the stream. When each
send takes something, and the first one of a header for HEAD all of it, no request fails and the
connection is kept. The bytes sent are then the answers to the requests, one behind the other: at
every moment a part of them, and all of them once the stream was received and the loop does not wait
for the socket to become writable any more (`piped_answered`). Every visit that finds the socket
writable sends some of them, so that the loop does not wait forever.
-/

namespace Liso

open Handles (Picker)

variable {conf : Conf} {l : Loop} {ev : Ev} {evs : List Ev} {c c' : Conn} {s : Srv} {e : Env}
  {A : Set ℕ} {x : List Byte} {rs : List (List Byte)} {n : ℕ} {F : Set Fs}

/-! ## The requests -/

/-- A target that is a path is not a scheme. -/
theorem schemeEnd_path {t : List Byte} (h : t.head? = some 47) (k : ℕ) :
    schemeEnd (strncpy0 t k) = none := by
  cases t with
  | nil => simp at h
  | cons b t =>
    obtain rfl : b = 47 := by simpa using h
    cases k <;> simp [strncpy0, cstr, schemeEnd, strcaseeq, tolower, str]

/-- A request for a file that the server has in each of the file trees `F`, and that keeps its
connection. -/
structure Offered (conf : Conf) (F : Set Fs) (x : List Byte) : Prop where
  /-- It ends where its text says. -/
  framed : Framed x
  /-- No byte of the head is null. -/
  nul : 0 ∉ headOf x
  /-- The head fits into the buffer. -/
  fits : (headOf x).length ≤ BUFSZ
  /-- The target is a path. -/
  path : (targetOf x).head? = some 47
  /-- It is for a file. -/
  static : (scanHead (reqNew []) x).req.type = .static
  /-- It keeps the connection. -/
  alive : (scanHead (reqNew []) x).req.alive = true
  /-- The server has the file. -/
  built : ∀ fs ∈ F,
    (respBuild fs Picker.lowest respNew (scanHead (reqNew []) x).req conf ⟨[], 0⟩).1 ≠ 0

/-- Such a request that the parser accepts. -/
structure Piped (conf : Conf) (F : Set Fs) (x : List Byte) : Prop extends Offered conf F x where
  /-- The grammar accepts the head. -/
  grammar : (headGrammar (-1) (headOf x)).2 = .body

/-- `Offered` is decidable for one file tree. -/
instance (fs : Fs) (x : List Byte) : Decidable (Offered conf {fs} x) :=
  decidable_of_iff (Framed x ∧ 0 ∉ headOf x ∧ (headOf x).length ≤ BUFSZ ∧
    (targetOf x).head? = some 47 ∧ (scanHead (reqNew []) x).req.type = .static ∧
    (scanHead (reqNew []) x).req.alive = true ∧
    (respBuild fs Picker.lowest respNew (scanHead (reqNew []) x).req conf ⟨[], 0⟩).1 ≠ 0)
    ⟨fun h => ⟨h.1, h.2.1, h.2.2.1, h.2.2.2.1, h.2.2.2.2.1, h.2.2.2.2.2.1,
      fun _ hfs => hfs ▸ h.2.2.2.2.2.2⟩,
      fun h => ⟨h.framed, h.nul, h.fits, h.path, h.static, h.alive, h.built fs rfl⟩⟩

/-- `Piped` is decidable for one file tree. -/
instance (fs : Fs) (x : List Byte) : Decidable (Piped conf {fs} x) :=
  decidable_of_iff (Offered conf {fs} x ∧ (headGrammar (-1) (headOf x)).2 = .body)
    ⟨fun h => ⟨h.1, h.2⟩, fun h => ⟨h.toOffered, h.grammar⟩⟩

/-- It is well-formed. -/
theorem Piped.wellFormed (h : Piped conf F x) : WellFormed x :=
  ⟨h.framed, h.nul, h.fits, h.grammar⟩

/-- It gets the file. -/
theorem Piped.found (h : Piped conf F x) : ∀ fs ∈ F, Found conf fs x :=
  fun fs hfs => ⟨h.wellFormed.accepted reqNew_fresh, h.built fs hfs⟩

/-- Such a request is one of those that get answers in order. -/
theorem Piped.plain (h : Piped conf F x) : Plain x :=
  ⟨h.framed, h.fits, schemeEnd_path h.path _, fun _ => h.static⟩

/-- No request of the stream fails. -/
theorem Replying.intact (h : Replying False conf F rs c) (hrs : ∀ x ∈ rs, Piped conf F x) :
    c.req.phase ≠ .abort := by
  cases h with
  | waiting hp => exact hp
  | page _ _ _ x hx _ fs hfs hmiss =>
    exact absurd ((hrs x (List.mem_of_getElem? hx)).found fs hfs) hmiss
  | file hp => simp [hp]
  | gateway hp => rcases hp with hp | hp <;> simp [hp]
  | failed _ _ _ x hx hcgi =>
    exact absurd hcgi (hrs x (List.mem_of_getElem? hx)).plain.not_forCgi

/-- A request of the stream is for a file. -/
theorem Answering.static (h : Answering False conf F rs c) (hrs : ∀ x ∈ rs, Piped conf F x)
    (hp : c.req.phase = .body ∨ c.req.phase = .done) : c.req.type = .static := by
  cases ht : c.req.type with
  | static => rfl
  | dynamic =>
    obtain ⟨x, hx, hcgi, -⟩ := h.aligned.forCgi (fun x hx => (hrs x hx).plain.proper) hp ht
    exact absurd hcgi (hrs x (List.mem_of_getElem? hx)).plain.not_forCgi

/-- A complete request of the stream keeps its connection. -/
theorem Answering.alive (h : Answering False conf F rs c) (hrs : ∀ x ∈ rs, Piped conf F x)
    (hp : c.req.phase = .done) : c.req.alive = true := by
  obtain ⟨x, r, hx, hr, -, rsize, phase, last, hreq⟩ :=
    h.aligned.request (fun x hx => (hrs x hx).framed) (.inr hp)
  have hpiped := hrs x (List.mem_of_getElem? hx)
  calc c.req.alive = (scanHead r x).req.alive := by rw [hreq]
    _ = (scanHead (reqNew []) x).req.alive := hpiped.plain.proper.alive hr
    _ = true := hpiped.alive

/-- No output of a CGI is sent. -/
theorem Answering.unrelayed (h : Answering False conf F rs c) (hrs : ∀ x ∈ rs, Piped conf F x)
    (hs : Shape c) : c.cgi.buf_phase ≠ .send := by
  intro hb
  obtain ⟨hp, ht, -⟩ := hs.of_send hb
  rw [h.static hrs (.inr hp)] at ht
  cases ht

/-! ## The condition on the runs -/

/-- What the client does arrives: the handshake does not fail, and a socket that is ready for
reading has bytes. -/
def Arrives (e : Env) (c : Conn) (s : Srv) : Prop :=
  c.fd ∈ s.pool.read_ready →
    if c.ssl && !c.ssl_accepted then e.ssl_accept ≠ 0 else e.recv ≠ none ∧ e.recv ≠ some []

/-- `Arrives` is decidable. -/
instance (c : Conn) (s : Srv) : Decidable (Arrives e c s) := inferInstanceAs (Decidable (_ → _))

/-- A send takes something, and the first one of a header for HEAD all of it. -/
def Conn.Takes (e : Env) (c : Conn) (s : Srv) : Prop :=
  c.fd ∈ s.pool.write_ready → 0 < e.send_static ∧
    (c.resp.phase = .header → c.req.method = .head → (c.buf.rest.length : ℤ) ≤ e.send_static)

/-- `Conn.Takes` is decidable. -/
instance (c : Conn) (s : Srv) : Decidable (c.Takes e s) :=
  inferInstanceAs (Decidable (_ → _ ∧ (_ → _ → _)))

/-- The condition on a visit: the hosts fit, and if it is one to the connection `n`, its client
sends the stream, which arrives, and takes what it is sent. -/
def Flowing (conf : Conf) (n : ℕ) (rs : List (List Byte)) (e : Env) (c : Conn) (s : Srv) : Prop :=
  Hosted conf e c s ∧ (c.wire.id = n → Sends rs e c s ∧ Arrives e c s ∧
    ∀ p ∈ beforeStatic conf e c s, p.1.Takes e p.2)

/-- `Flowing` is decidable. -/
instance (c : Conn) (s : Srv) : Decidable (Flowing conf n rs e c s) :=
  inferInstanceAs (Decidable (_ ∧ (_ → _ ∧ _ ∧ ∀ p ∈ beforeStatic conf e c s, p.1.Takes e p.2)))

/-- The runs: every visit meets the condition, and the file trees are among `F`. -/
def Flow (conf : Conf) (F : Set Fs) (n : ℕ) (rs : List (List Byte)) (l : Loop) (ev : Ev) : Prop :=
  Visiting (Flowing conf n rs) l ev ∧ ev.env.fs ∈ F

/-! ## A visit -/

/-- No bytes of a body wait for a CGI. -/
theorem Answering.drained (h : Answering False conf F rs c) (hrs : ∀ x ∈ rs, Piped conf F x)
    (hs : Shape c) (e : Env) (s : Srv) : Drained e c s := by
  intro hp hg
  have ht := h.static hrs (.inl hp)
  cases hs with
  | bodyStatic _ _ hg' => simp [hg] at hg'
  | bodyReady _ ht' | bodyStream _ ht' => simp [ht] at ht'
  | head hp' => rcases hp' with hp' | hp' <;> simp [hp] at hp'
  | doneStatic hp' | doneReady hp' | doneStream hp' | relay hp' | relayEnd hp' | abort hp' =>
    simp [hp] at hp'

/-- The section `recv` keeps a connection that has room and on which something arrives. -/
theorem stepRecv_stays (h : Arrives e c s) (hna : c.req.phase ≠ .abort) (hroom : c.buf.sz < BUFSZ) :
    (stepRecv e c s).Post (fun _ _ => True) (fun _ => False) := by
  unfold stepRecv
  dsimp only
  split
  case isFalse => exact (Ret.post_some _ _).2 trivial
  rename_i hready
  have h := h (of_decide_eq_true hready)
  generalize (s.probe c.fd).act c.fd = s₁
  unfold cnRecv
  split
  · rename_i hssl
    rw [if_pos hssl] at h
    rw [if_neg h]
    split <;> exact (Ret.post_some _ _).2 trivial
  rename_i hssl
  rw [if_neg hssl] at h
  dsimp only
  rw [if_neg (by omega)]
  obtain ⟨bytes, hbytes⟩ := Option.ne_none_iff_exists'.1 h.1
  have hne : bytes.take (BUFSZ - c.buf.sz).toNat ≠ [] := by
    intro hnil
    rcases List.take_eq_nil_iff.1 hnil with hz | hz
    · omega
    · exact h.2 (hbytes.trans (congrArg some hz))
  rw [hbytes, Option.map_some]
  dsimp only
  rw [if_neg hne]
  exact (Ret.post_some _ _).2 trivial

/-- The success callback keeps a connection that its request keeps. -/
theorem lisoResetOrClose_stays (e : Env) (s : Srv) (ha : c.req.alive = true) :
    (lisoResetOrClose e c s).Post (fun _ _ => True) (fun _ => False) := by
  rcases lisoResetOrClose_cases e c s with ⟨ha', -⟩ | ⟨-, -, he⟩ | ⟨-, -, he⟩
  · simp [ha] at ha'
  · rw [he]
    exact (Ret.post_some _ _).2 trivial
  · rw [he]
    exact (Ret.post_some _ _).2 trivial

/-- The bytes that were sent on the connection. -/
def Conn.replied (c : Conn) : List Byte :=
  (c.wire.past.map Exchange.sent).flatten ++ c.wire.cur.sent

/-- What was sent depends on the exchanges. -/
theorem Conn.replied_congr (hpast : c'.wire.past = c.wire.past)
    (hsent : c'.wire.cur.sent = c.wire.cur.sent) : c'.replied = c.replied := by
  rw [Conn.replied, Conn.replied, hpast, hsent]

/-- The success callback sends nothing. -/
theorem lisoResetOrClose_replied (e : Env) (hidx : c.idx < s.pool.conns.length) :
    (lisoResetOrClose e c s).Post (fun c' _ => c'.replied = c.replied) (fun _ => True) := by
  have harchive : (c.wire.past ++ [c.wire.cur]).map Exchange.sent =
      c.wire.past.map Exchange.sent ++ [c.wire.cur.sent] := by
    rw [List.map_append, List.map_singleton]
  rcases lisoResetOrClose_cases e c s with ⟨-, he⟩ | ⟨-, -, he⟩ | ⟨-, -, he⟩ <;> rw [he]
  · exact lisoDropConn_gone hidx
  · refine (Ret.post_some _ _).2 ?_
    show ((c.wire.past ++ [c.wire.cur]).map Exchange.sent).flatten ++ [] = _
    rw [harchive, List.flatten_append, List.append_nil, List.flatten_singleton, Conn.replied]
  · refine (Ret.post_some _ _).2 ?_
    rw [handOver_conn, Conn.replied, (cnParseReq_wire e _ _ _).1]
    show ((c.wire.past ++ [c.wire.cur]).map Exchange.sent).flatten ++ [] = _
    rw [harchive, List.flatten_append, List.append_nil, List.flatten_singleton, Conn.replied]

/-- The section `stream from cgi` ends no exchange, and sends nothing. -/
theorem stepFromCgi_history (e : Env) (c : Conn) (s : Srv) :
    (stepFromCgi e c s).1.wire.past = c.wire.past ∧
      (stepFromCgi e c s).1.wire.cur.sent = c.wire.cur.sent := by
  rcases stepFromCgi_cases e c s with ⟨s', he, -⟩
    | ⟨d, -, -, -, -, ⟨-, he⟩ | ⟨data, -, -, he⟩ | ⟨-, he⟩⟩ <;> rw [he] <;> exact ⟨rfl, rfl⟩

/-- A built response is not waited for any more. -/
theorem stepPrepare_built (conf : Conf) (e : Env) (s : Srv) (hp : c.req.phase = .done)
    (ht : c.req.type = .static) : (stepPrepare conf e c s).1.resp.phase ≠ .ready := by
  unfold stepPrepare
  split
  · unfold cnPrepareStaticHeader
    dsimp only
    split <;> simp [lisoConnErr]
  · rename_i hno
    exact fun hr => hno ⟨ht, hp, hr⟩

/-- The last section keeps the connection, and sends something of a file when the socket is
writable. -/
theorem stepStatic_flows (conf : Conf) (e : Env) (hH : Held False A c s)
    (hrs : ∀ x ∈ rs, Piped conf F x) (h : Answering False conf F rs c) (htakes : c.Takes e s) :
    (stepStatic conf e c s).Post (fun c' _ => c.replied.length +
      (if c.Files ∧ c.fd ∈ s.pool.write_ready then 1 else 0) ≤ c'.replied.length)
      (fun _ => False) := by
  -- Without a file, or a writable socket, nothing is sent.
  have hidle : ¬ (c.Files ∧ c.fd ∈ s.pool.write_ready) →
      (∃ s', stepStatic conf e c s = ⟨1, some c, s'⟩) →
      (stepStatic conf e c s).Post (fun c' _ => c.replied.length +
        (if c.Files ∧ c.fd ∈ s.pool.write_ready then 1 else 0) ≤ c'.replied.length)
        (fun _ => False) := by
    rintro hno ⟨s', he⟩
    rw [he, if_neg hno]
    exact (Ret.post_some _ _).2 le_rfl
  by_cases hw : c.fd ∈ s.pool.write_ready
  case neg =>
    exact hidle (fun hf => hw hf.2) ⟨_, if_neg fun hcond => hw (of_decide_eq_true hcond.1)⟩
  cases h.reply with
  | waiting _ _ hresp =>
    refine hidle (fun hf => ?_) ⟨(s.probe c.fd).act c.fd, ?_⟩
    · rcases hf.1 with hf | hf <;> simp [hresp, respNew, respReset] at hf
    · have hstep : stepStatic conf e c s =
          cnServeStatic conf e (lisoResetOrClose e) lisoDropConn c ((s.probe c.fd).act c.fd) :=
        if_pos ⟨decide_eq_true hw, by simp [hresp, respNew, respReset]⟩
      rw [hstep]
      exact (cnServeStatic_calls conf e _ _ c _).2 c (cnServeStatic_waiting conf e _ hresp)
  | gateway _ _ hresp =>
    refine hidle (fun hf => ?_) ⟨_, if_neg fun hcond => hcond.2 (by rw [hresp])⟩
    rcases hf.1 with hf | hf <;> simp [hresp] at hf
  | page hp | failed hp => exact absurd hp (h.reply.intact hrs)
  | file hp _ _ _ _ _ _ _ _ hsend hne =>
    have hf : c.Files := by
      rcases hsend.place with ⟨-, hr, -⟩ | ⟨-, -, hr, -⟩
      · exact .inl hr
      · exact .inr hr
    rw [if_pos ⟨hf, hw⟩]
    rcases stepStatic_sends conf (fun _ => ⟨_, _, _, _, hsend, hne⟩) hf (htakes hw).1 hw with
      ⟨c', hc', hmore, -, he⟩ | ⟨c', hc', -, hsame, hless, he⟩ <;> rw [he]
    · -- The exchange ends, and the connection is reset.
      obtain ⟨halive, hpast, hidx⟩ : c'.req.alive = c.req.alive ∧ c'.wire.past = c.wire.past ∧
          c'.idx = c.idx := by
        obtain ⟨buf, resp, data, rfl⟩ := hc'
        exact ⟨rfl, rfl, rfl⟩
      have hstays := lisoResetOrClose_stays (c := c') e ((s.probe c.fd).act c.fd)
        (halive.trans (h.alive hrs hp))
      have hreplied := lisoResetOrClose_replied (c := c') (s := (s.probe c.fd).act c.fd) e
        (by rw [hidx]; exact hH.idx)
      refine (hstays.and hreplied).mono (fun c'' _ hc'' => ?_) fun _ h => h.1
      rw [hc''.2, Conn.replied, Conn.replied, hpast, List.length_append, List.length_append]
      omega
    · refine (Ret.post_some _ _).2 ?_
      have hpast : c'.wire.past = c.wire.past := by
        obtain ⟨buf, resp, data, rfl⟩ := hc'
        rfl
      have hlen := congrArg List.length hsame
      rw [List.length_append, List.length_append] at hlen
      rw [Conn.replied, Conn.replied, hpast, List.length_append, List.length_append]
      omega

/-- In front of the two sections that can end an exchange, the connection is at the answer to its
own request. -/
theorem points_piped (h0 : c.fd ≠ 0) (hH : Held False A c s) (hready : Ready c s)
    (hR : Rest False c s) (hrs : ∀ x ∈ rs, Piped conf F x) (hid : c.wire.id = n)
    (hok : Flowing conf n rs e c s) (hfs : e.fs ∈ F) (h : Answering False conf F rs c) :
    (∀ p ∈ beforeSend conf e c s, Rest False p.1 p.2 ∧ Answering False conf F rs p.1) ∧
      ∀ p ∈ beforeStatic conf e c s, Held False A p.1 p.2 ∧ Rest False p.1 p.2 ∧
        Answering False conf F rs p.1 :=
  points_answering h0 hH hready hR (fun x hx => (hrs x hx).plain.proper) (hok.2 hid).1
    (h.drained hrs hR.shape e s) (fun v => v.elim) hfs h

/-- The visit meets the condition for answers in order. -/
theorem Flowing.attending (hok : Flowing conf n rs e c s) (h0 : c.fd ≠ 0) (hH : Held False A c s)
    (hready : Ready c s) (hR : Rest False c s) (hrs : ∀ x ∈ rs, Piped conf F x) (hfs : e.fs ∈ F)
    (h : c.wire.id = n → Answering False conf F rs c) : Attending False conf n rs e c s := by
  refine ⟨⟨⟨hok.1, fun hid => ?_⟩, fun hid p hp hw _ => ?_⟩, fun v => v.elim⟩
  · obtain ⟨-, hstatic⟩ := points_piped h0 hH hready hR hrs hid hok hfs (h hid)
    refine ⟨(hok.2 hid).1, (h hid).drained hrs hR.shape e s, fun w => w.elim, fun p hp ha => ?_⟩
    exact absurd ha.1 ((hstatic p hp).2.2.reply.intact hrs)
  · obtain ⟨-, hstatic⟩ := points_piped h0 hH hready hR hrs hid hok hfs (h hid)
    exact ⟨fun ha => absurd ha ((hstatic p hp).2.2.reply.intact hrs), ((hok.2 hid).2.2 p hp hw).2⟩

/-- A visit keeps the connection. When it finds the socket writable, it sends a part of the
answers. -/
theorem visit_flows (h0 : c.fd ≠ 0) (hH : Held False A c s) (hready : Ready c s)
    (hR : Rest False c s) (hrs : ∀ x ∈ rs, Piped conf F x) (hid : c.wire.id = n)
    (hok : Flowing conf n rs e c s) (hfs : e.fs ∈ F) (h : Answering False conf F rs c) :
    (visit conf e c s).Post (fun c' _ => c.replied.length +
      (if c.fd ∈ s.pool.write_ready then 1 else 0) ≤ c'.replied.length) (fun _ => False) := by
  have hproper : ∀ x ∈ rs, Proper x := fun x hx => (hrs x hx).plain.proper
  obtain ⟨hsend, hstatic⟩ := points_piped h0 hH hready hR hrs hid hok hfs h
  obtain ⟨hsends, harrives, htakes⟩ := hok.2 hid
  have hna := h.reply.intact hrs
  by_cases hw : c.fd ∈ s.pool.write_ready
  · -- The request is complete, and its answer is built.
    have hp : c.req.phase = .done := by
      by_contra hp
      exact (hR.bits.opened (c.open_of hna hp)).2 (hready.write hw).1
    have ht := h.static hrs (.inr hp)
    obtain ⟨s', hmem, hvisit, -, -, hwrite⟩ := visit_static conf e hH hready hR hp ht
    obtain ⟨hwire, hfd, -⟩ := stepPrepare_keeps conf e c (stepLogerr c (s.probe c.fd))
    have hbuilt := stepPrepare_built conf e (stepLogerr c (s.probe c.fd)) hp ht
    rw [hvisit]
    generalize (stepPrepare conf e c (stepLogerr c (s.probe c.fd))).1 = q at *
    obtain ⟨hHq, -, hq⟩ : Held False A q s' ∧ Rest False q s' ∧ Answering False conf F rs q :=
      hstatic (q, s') hmem
    have hf : q.Files := by
      cases hq.reply with
      | waiting _ _ hresp => exact absurd (by rw [hresp]; rfl) hbuilt
      | page hp' | failed hp' => exact absurd hp' (hq.reply.intact hrs)
      | file _ _ _ _ _ _ _ _ _ hsend =>
        rcases hsend.place with ⟨-, hr, -⟩ | ⟨-, -, hr, -⟩
        · exact .inl hr
        · exact .inr hr
      | gateway hp' ht' =>
        rw [hq.static hrs hp'] at ht'
        cases ht'
    have hsame : q.replied = c.replied := Conn.replied_congr (by rw [hwire]) (by rw [hwire])
    have hflows := stepStatic_flows conf e hHq hrs hq (htakes (q, s') hmem)
    rw [if_pos ⟨hf, by rw [hfd, hwrite]; exact hw⟩, hsame] at hflows
    rwa [if_pos hw]
  · rw [if_neg hw]
    -- Without a write-ready socket, no section before the last one changes what was sent.
    let J : Conn → Srv → Prop := fun c' _ => c'.replied = c.replied
    refine (visit_stages (W := False) (R := J) (M := J) (D := J) (B := J)
      (L := fun c' _ => c.replied.length ≤ c'.replied.length) (G := fun _ => False) h0 hH hready hR
      (fun f => f.elim) ?_ ?_ ?_ ?_ ?_ ?_).mono (fun _ _ h => by simpa using h.2) fun _ h => h
    · by_cases hp : c.req.phase = .done
      · rw [stepRecv_done e hR hready hp]
        exact (Ret.post_some _ _).2 rfl
      · have hroom := h.aligned.not_full (fun x hx => (hproper x hx).framed)
          (fun x hx => (hproper x hx).fits) h.spare (c.open_of hna hp)
        exact (((stepRecv_stays harrives hna hroom).and (stepRecv_keeps e hH.idx)).and
          (stepRecv_receipt e hH.idx)).mono (fun _ _ hr =>
            Conn.replied_congr hr.2.past (congrArg Prod.fst hr.1.2.outs)) fun _ h => h.1.1
    · intro p _ _ _ hr
      obtain ⟨hpast, hsent⟩ := stepMiddle_history conf e p.1 p.2
      exact (Conn.replied_congr hpast hsent).trans hr
    · exact fun p _ _ _ hr => hr
    · intro p _ _ _ _ hr
      obtain ⟨hpast, hsent⟩ := stepFromCgi_history e p.1 p.2
      exact (Conn.replied_congr hpast hsent).trans hr
    · intro p hp hpos _ _ hr
      obtain ⟨hRp, hap⟩ := hsend p hp
      rcases stepToClient_cases e p.1 p.2 hpos with ⟨-, he⟩ | ⟨-, hb, -⟩
      · rw [he]
        exact (Ret.post_some _ _).2 hr
      · exact absurd hb (hap.unrelayed hrs hRp.shape)
    · intro p hp hHp _ hr
      refine (stepStatic_flows conf e hHp hrs (hstatic p hp).2.2 (htakes p hp)).mono
        (fun c' _ hle => ?_) fun _ h => h
      rw [hr] at hle
      omega

/-! ## Every run -/

/-- The runs are among those with answers in order. -/
theorem flow_attending (hrs : ∀ x ∈ rs, Piped conf F x) (h : Reach conf (Flow conf F n rs) l) :
    Reach conf (fun l ev => Visiting (Attending False conf n rs) l ev ∧ ev.env.fs ∈ F) l := by
  refine Runs.Reach.induct (P := fun l => Reach conf (fun l ev =>
    Visiting (Attending False conf n rs) l ev ∧ ev.env.fs ∈ F) l) (fun l h0 => .start h0)
    (fun l ev hl hok ih => .step ev ih ⟨fun i m hpc c hc => ?_, hok.2⟩) h
  have hloop := loop_inv hl
  have hH := hloop.pool.held i c hc
  have hready := hloop.ready i c (by rw [hpc]; exact le_rfl) hc
  have h0 : c.fd ≠ 0 := fun he => hH.fd_notMem (he ▸ .inl (Reach.zero_mem hl))
  obtain ⟨hR, ha⟩ :=
    answering_inv (fun x hx => (hrs x hx).plain.proper) ih c (List.mem_of_getElem? hc)
  exact (hok.1 i m hpc c hc).attending h0 hH hready hR hrs hok.2 ha

/-- The connection has the write bit that it needs, in every reachable state. -/
theorem flow_rest (hrs : ∀ x ∈ rs, Piped conf F x) (h : Reach conf (Flow conf F n rs) l) :
    ∀ c ∈ l.srv.pool.conns, c.wire.id = n → Rest True c l.srv := by
  refine fun c hc => ((reach_local (L := fun c s => Rest False c s ∧ (c.wire.id = n →
    Rest True c s)) (S := fun _ => True) ?_ trivial ?_ ?_ h).1 c hc).2
  · exact ⟨fun c s i h => ⟨Rest.stable.idx c s i h.1, fun hid => Rest.stable.idx c s i (h.2 hid)⟩,
      fun c s s' h hk => ⟨Rest.stable.keep c s s' h.1 hk,
        fun hid => Rest.stable.keep c s s' (h.2 hid) hk⟩⟩
  · exact fun c s ha _ hr hw => ⟨ha.rest hr hw, fun _ => ha.rest hr hw⟩
  · intro l ev i m c hl hok hpc hc hH hready hL _
    have h0 : c.fd ≠ 0 := fun he => hH.fd_notMem (he ▸ .inl hl.zero_mem)
    have hrest := visit_rest (W := False) conf ev.env h0 hH hready hL.1 fun f => f.elim
    have hframe := visit_frame_any conf ev.env c l.srv hH
    by_cases hid : c.wire.id = n
    · have ha := (answering_inv (fun x hx => (hrs x hx).plain.proper) (flow_attending hrs hl) c
        (List.mem_of_getElem? hc)).2 hid
      obtain ⟨hsend, -⟩ :=
        points_piped h0 hH hready hL.1 hrs hid (hok.1 i m hpc c hc) hok.2 ha
      -- No CGI is served, so that no callback at the end of its output can lack the bit.
      have hopen : CallsOpen conf ev.env c l.srv := fun p hp hcalls =>
        absurd hcalls.2.1 ((hsend p hp).2.unrelayed hrs (hsend p hp).1.shape)
      exact (hrest.and (visit_rest (W := True) conf ev.env h0 hH hready (hL.2 hid)
        fun _ => hopen)).mono (fun _ _ h => ⟨⟨h.1, fun _ => h.2⟩, trivial⟩) fun _ _ => trivial
    · refine (hrest.and hframe).mono (fun c' s' h => ⟨⟨h.1, fun hid' => ?_⟩, trivial⟩)
        fun _ _ => trivial
      exact absurd (h.2.2.id.symm.trans hid') hid

/-- When the stream was received and the loop does not wait for the socket to become writable, each
request has its exchange. -/
theorem Answering.quiet (h : Answering False conf F rs c) (hrs : ∀ x ∈ rs, Piped conf F x)
    (hR : Rest True c s) (hgot : c.wire.got = rs.flatten) (hw : c.fd ∉ s.pool.write_set) :
    rs.length ≤ c.wire.past.length := by
  have hframed : ∀ x ∈ rs, Framed x := fun x hx => (hrs x hx).framed
  have hna := h.reply.intact hrs
  have hnd : c.req.phase ≠ .done := fun hp =>
    hw (hR.wake trivial (.inr ⟨hp, .inl (h.static hrs (.inr hp))⟩))
  -- What was received of the request under way is the rest of the stream.
  have hinp : c.wire.cur.inp = (rs.drop c.wire.past.length).flatten := by
    have hsplit : rs.flatten = (rs.take c.wire.past.length).flatten ++
        (rs.drop c.wire.past.length).flatten := by
      rw [← List.flatten_append, List.take_append_drop]
    rw [h.aligned.got (.inr hna), hsplit] at hgot
    exact List.append_cancel_left hgot
  by_contra hlt
  rw [not_le] at hlt
  obtain ⟨x, hx⟩ : ∃ x, rs[c.wire.past.length]? = some x :=
    ⟨_, List.getElem?_eq_getElem hlt⟩
  have hxf := hframed x (List.mem_of_getElem? hx)
  have hlen : x.length ≤ c.wire.cur.inp.length := by
    rw [hinp, drop_getElem? hx, List.flatten_cons, List.length_append]
    exact Nat.le_add_right _ _
  have hle := headOf_length_le x
  obtain ⟨r, hr, hplace⟩ := h.aligned.place
  rcases stream_scan hr hframed h.aligned.begins with ⟨-, hshort⟩ | ⟨x', hx', he⟩
  · have := hshort x hx
    omega
  obtain rfl : x' = x := by simpa [hx] using hx'.symm
  cases hplace with
  | head hz =>
    have ho := hz.open
    rw [he] at ho
    exact hxf.closed r ho
  | body hs hb hlt' hreq =>
    rw [he] at hs hlt'
    have htotal : (scanHead r x').total = x'.length := (hxf.total hr hs).2.2
    omega
  | done hs hb hle last hreq => exact hnd (by rw [hreq])
  | failed hp => exact hna hp

/-- The connection `n` is there, and `k` bytes were sent on it. -/
def Replied (conf : Conf) (F : Set Fs) (n : ℕ) (rs : List (List Byte)) (l : Loop) (k : ℕ) : Prop :=
  Reach conf (Flow conf F n rs) l ∧
    ∃ c ∈ l.srv.pool.conns, c.wire.id = n ∧ c.replied.length = k

/-- One step: the connection stays, what was sent stays sent, and a visit that finds the socket
writable sends more. -/
theorem Replied.step {k : ℕ} (hrs : ∀ x ∈ rs, Piped conf F x) (h : Replied conf F n rs l k)
    (hok : Flow conf F n rs l ev) :
    ∃ k', Replied conf F n rs (step conf l ev) k' ∧ k + (if writable n l then 1 else 0) ≤ k' := by
  obtain ⟨hreach, c, hc, hid, hk⟩ := h
  have hnext : Reach conf (Flow conf F n rs) (Liso.step conf l ev) := .step ev hreach hok
  obtain ⟨j, hj⟩ := List.mem_iff_getElem?.1 hc
  have hturn := turnover hreach ev
  by_cases hpc : ∃ m, l.pc = .serve j m
  case neg =>
    rw [not_exists] at hpc
    obtain ⟨i, hi⟩ := hturn.bystander hj hpc
    have hno : ¬ writable n l = true := fun hw => by
      obtain ⟨i', m, c', hpc', hi', hid', -⟩ := writable_iff.1 hw
      have hij := (numbers_inv hreach).unique hi' hj (hid'.trans hid.symm)
      exact hpc m (hij ▸ hpc')
    exact ⟨k, ⟨hnext, _, hi, hid, hk⟩, by rw [if_neg hno]; exact le_rfl⟩
  obtain ⟨m, hpc⟩ := hpc
  have hloop := loop_inv hreach
  have hH := hloop.pool.held j c hj
  have hready := hloop.ready j c (by rw [hpc]; exact le_rfl) hj
  have h0 : c.fd ≠ 0 := fun he => hH.fd_notMem (he ▸ .inl (Reach.zero_mem hreach))
  obtain ⟨hR, ha⟩ :=
    answering_inv (fun x hx => (hrs x hx).plain.proper) (flow_attending hrs hreach) c hc
  have hflows := visit_flows h0 hH hready hR hrs hid (hok.1 j m hpc c hj) hok.2 (ha hid)
  -- A writable visit of the connection is a visit in which its bit is found set.
  have hcount : (if writable n l then 1 else 0) ≤ if c.fd ∈ l.srv.pool.write_ready then 1
    else 0 := by
    by_cases hw : writable n l = true
    · obtain ⟨j', m', c', hpc', hj', -, hw'⟩ := writable_iff.1 hw
      obtain ⟨rfl, -⟩ := Pc.serve.inj (hpc'.symm.trans hpc)
      obtain rfl : c' = c := by simpa [hj] using hj'.symm
      rw [if_pos hw, if_pos hw']
    · rw [if_neg hw]
      exact Nat.zero_le _
  cases hturn with
  | idle hno => simp [hno j m hpc] at hj
  | joined _ _ _ hno => exact absurd hpc (hno j m)
  | visited i m' c₀ c' hpc' hi hret hid' hconns =>
    obtain ⟨rfl, -⟩ := Pc.serve.inj (hpc'.symm.trans hpc)
    obtain rfl : c₀ = c := by simpa [hj] using hi.symm
    have hmem : c' ∈ (Liso.step conf l ev).srv.pool.conns := by
      rw [hconns]
      exact List.mem_set (List.getElem?_eq_some_iff.1 hj).1 c'
    have hle := (hflows.of_some hret).2
    exact ⟨_, ⟨hnext, c', hmem, hid'.trans hid, rfl⟩, by omega⟩
  | freed i m' c₀ hpc' hi hret =>
    obtain ⟨rfl, -⟩ := Pc.serve.inj (hpc'.symm.trans hpc)
    obtain rfl : c₀ = c := by simpa [hj] using hi.symm
    exact (hflows.of_none hret).2.elim

/-- Once it was accepted, the connection is never dropped. -/
theorem flow_kept (hrs : ∀ x ∈ rs, Piped conf F x) (h : Reach conf (Flow conf F n rs) l) :
    n < l.srv.accepted → ∃ c ∈ l.srv.pool.conns, c.wire.id = n := by
  refine Runs.Reach.induct (P := fun l => n < l.srv.accepted →
    ∃ c ∈ l.srv.pool.conns, c.wire.id = n)
    (fun l h0 hlt => ?_) (fun l ev hl hok ih hlt => ?_) h
  · obtain ⟨-, -, -, -, -, -, -, -, -, -, -, hacc, -⟩ := h0
    omega
  by_cases hold : n < l.srv.accepted
  · obtain ⟨c, hc, hid⟩ := ih hold
    obtain ⟨k', ⟨-, c', hc', hid', -⟩, -⟩ := Replied.step hrs ⟨hl, c, hc, hid, rfl⟩ hok
    exact ⟨c', hc', hid'⟩
  · -- The connection is accepted in this step.
    cases turnover hl ev with
    | idle _ _ hacc | visited _ _ _ _ _ _ _ _ _ hacc | freed _ _ _ _ _ _ _ hacc => omega
    | joined c _ hid _ hconns hacc =>
      exact ⟨c, by rw [hconns]; exact List.mem_append_right _ (List.mem_singleton_self c), by omega⟩

/-- The bytes are answers to the requests, one behind the other. -/
def AnswersTo (conf : Conf) (F : Set Fs) (rs : List (List Byte)) (bytes : List Byte) : Prop :=
  ∃ as, List.Forall₂ (fun a x => ∃ fs ∈ F, ∃ t, a = answer conf fs t x) as rs ∧ bytes = as.flatten

/-- Pipelined requests for files are answered in their order. The connection is kept. Each exchange
sent the answer to its own request, and the one under way a part of it; once the stream was received
and the loop does not wait for the socket to become writable, the bytes sent are the answers to all
requests, one behind the other. And in every continuation as many bytes are sent at least as there
are visits that find the socket writable. -/
theorem piped_answered (hrs : ∀ x ∈ rs, Piped conf F x) (h : Reach conf (Flow conf F n rs) l) :
    (n < l.srv.accepted → ∃ c ∈ l.srv.pool.conns, c.wire.id = n) ∧
      ∀ c ∈ l.srv.pool.conns, c.Unmarked ∧ (c.wire.id = n →
        InOrder conf F rs c ∧
        (c.wire.got = rs.flatten → c.fd ∉ l.srv.pool.write_set →
          AnswersTo conf F rs c.replied) ∧
        ∀ evs, Runs.Along (step conf) (Flow conf F n rs) l evs →
          ∃ c' ∈ (Runs.exec (step conf) l evs).srv.pool.conns, c'.wire.id = n ∧
            c.replied.length + Runs.count (step conf) (fun l _ => writable n l) l evs ≤
              c'.replied.length) := by
  have hattending := flow_attending hrs h
  refine ⟨flow_kept hrs h, fun c hc => ⟨attending_unmarked hattending c hc, fun hid => ?_⟩⟩
  have ha := (answering_inv (fun x hx => (hrs x hx).plain.proper) hattending c hc).2 hid
  have hin := ha.inOrder fun x hx => (hrs x hx).plain
  refine ⟨hin, fun hgot hw => ?_, fun evs hevs => ?_⟩
  · have hlen := le_antisymm hin.length_le (ha.quiet hrs (flow_rest hrs h c hc hid) hgot hw)
    have hall := hin.forall₂
    rw [hlen, List.take_length] at hall
    have hsent : c.wire.cur.sent = [] := hin.cur.resolve_right fun hcur => by
      obtain ⟨x, hx, -⟩ := hcur
      rw [hlen, Option.mem_def, List.getElem?_eq_none le_rfl] at hx
      cases hx
    refine ⟨c.wire.past.map Exchange.sent, List.forall₂_map_left_iff.2 hall, ?_⟩
    rw [Conn.replied, hsent, List.append_nil]
  · have hclimbs : ∃ k, Replied conf F n rs (Runs.exec (step conf) l evs) k ∧
        c.replied.length + Runs.count (step conf) (fun l _ => writable n l) l evs ≤ k :=
      hevs.climbs (fun _ _ _ hok hdone => Replied.step hrs hdone hok) ⟨h, c, hc, hid, rfl⟩
    obtain ⟨k, ⟨-, c', hc', hid', rfl⟩, hle⟩ := hclimbs
    exact ⟨c', hc', hid', hle⟩

/-- Three requests for one file: the file, the file again with a body that is thrown away, and its
header alone. -/
def pipedRequests : List (List Byte) :=
  [str "GET /x HTTP/1.1\r\n\r\n", str "POST /x HTTP/1.1\r\nContent-Length: 2\r\n\r\nab",
    str "HEAD /x HTTP/1.1\r\n\r\n"]

/-- They arrive in two segments, cut inside the head of the second; the first send takes a few
bytes. -/
def pipedRun : List Ev :=
  Sample.connect ++ Sample.select {5} ∅ ++
    [Sample.recv "GET /x HTTP/1.1\r\n\r\nPOST /x HTTP/1.1\r\nContent-", Sample.next] ++
    Sample.select ∅ {5} ++ [Sample.visit { Sample.env with send_static := 7 }, Sample.next] ++
    Sample.select ∅ {5} ++ [Sample.next, Sample.next] ++
    Sample.select ∅ {5} ++ [Sample.next, Sample.next] ++
    Sample.select {5} ∅ ++ [Sample.recv "Length: 2\r\n\r\nabHEAD /x HTTP/1.1\r\n\r\n",
      Sample.next] ++
    Sample.select ∅ {5} ++ [Sample.next, Sample.next] ++
    Sample.select ∅ {5} ++ [Sample.next, Sample.next] ++
    Sample.select ∅ {5} ++ [Sample.next, Sample.next]

/-- The run and its requests meet the conditions, and all was received and is sent. -/
theorem pipedRun_flowing : (∀ x ∈ pipedRequests, Piped Sample.conf {Sample.fs} x) ∧
    Runs.Along (step Sample.conf) (Visiting (Flowing Sample.conf 0 pipedRequests))
      Sample.start pipedRun ∧
    ∃ c ∈ (Runs.exec (step Sample.conf) Sample.start pipedRun).srv.pool.conns, c.wire.id = 0 ∧
      c.wire.got = pipedRequests.flatten ∧
      c.fd ∉ (Runs.exec (step Sample.conf) Sample.start pipedRun).srv.pool.write_set ∧
      c.wire.past.length = 3 := by decide +kernel

/-- The three answers are sent, one behind the other. -/
theorem piped_answered_three :
    ∃ c ∈ (Runs.exec (step Sample.conf) Sample.start pipedRun).srv.pool.conns,
      c.wire.past.length = 3 ∧ AnswersTo Sample.conf {Sample.fs} pipedRequests c.replied := by
  obtain ⟨hrs, hrun, c, hc, hid, hgot, hw, hpast⟩ := pipedRun_flowing
  have hfs : ∀ ev ∈ pipedRun, ev.env.fs = Sample.fs := by
    simp [pipedRun, Sample.connect, Sample.select, Sample.recv, Sample.next, Sample.visit,
      Sample.env]
  obtain ⟨-, hall⟩ := piped_answered hrs
    ((Runs.Reach.start Sample.start_init).along pipedRun (hrun.and hfs))
  exact ⟨c, hc, hpast, ((hall c hc).2 hid).2.1 hgot hw⟩

/-- A POST without a body, and so without a length, and the next request. -/
def lengthlessThen : List (List Byte) :=
  [str "POST /x HTTP/1.1\r\n\r\n", str "GET /x HTTP/1.1\r\n\r\n"]

/-- Both arrive at once, and the page for the first one is sent. -/
def lengthlessRun : List Ev :=
  Sample.connect ++ Sample.select {5} ∅ ++
    [Sample.recv "POST /x HTTP/1.1\r\n\r\nGET /x HTTP/1.1\r\n\r\n", Sample.next] ++
    Sample.select ∅ {5} ++ [Sample.next, Sample.next]

/-- The run and its requests meet the conditions, but for the length. -/
theorem lengthlessRun_flowing : (∀ x ∈ lengthlessThen, Offered Sample.conf {Sample.fs} x) ∧
    Runs.Along (step Sample.conf) (Visiting (Flowing Sample.conf 0 lengthlessThen))
      Sample.start lengthlessRun ∧
    ∃ c ∈ (Runs.exec (step Sample.conf) Sample.start lengthlessRun).srv.pool.conns, c.wire.id = 0 ∧
      c.wire.got = lengthlessThen.flatten ∧
      c.fd ∉ (Runs.exec (step Sample.conf) Sample.start lengthlessRun).srv.pool.write_set ∧
      c.replied.length <
        (lengthlessThen.map fun x => (answer Sample.conf Sample.fs 0 x).length).sum := by
  decide +kernel

/-- The dates of the sample are all the same. -/
theorem answer_sample (t : ℤ) (x : List Byte) :
    answer Sample.conf Sample.fs t x = answer Sample.conf Sample.fs 0 x := by
  unfold answer reply
  split <;> rfl

/-- The page for the request without a length is all that is sent, and the next request, which stood
behind it, has no answer. -/
theorem answers_missing : (∀ x ∈ lengthlessThen, Offered Sample.conf {Sample.fs} x) ∧
    ¬ ∀ l, Reach Sample.conf (Flow Sample.conf {Sample.fs} 0 lengthlessThen) l →
      ∀ c ∈ l.srv.pool.conns, c.wire.id = 0 → c.wire.got = lengthlessThen.flatten →
        c.fd ∉ l.srv.pool.write_set →
          AnswersTo Sample.conf {Sample.fs} lengthlessThen c.replied := by
  obtain ⟨hrs, hrun, c, hc, hid, hgot, hw, hlt⟩ := lengthlessRun_flowing
  refine ⟨hrs, fun h => ?_⟩
  have hfs : ∀ ev ∈ lengthlessRun, ev.env.fs = Sample.fs := by
    simp [lengthlessRun, Sample.connect, Sample.select, Sample.recv, Sample.next, Sample.visit,
      Sample.env]
  obtain ⟨as, hall, hbytes⟩ :=
    h _ ((Runs.Reach.start Sample.start_init).along lengthlessRun (hrun.and hfs)) c hc hid hgot hw
  have hone : List.Forall₂ (fun a x => a = answer Sample.conf Sample.fs 0 x) as lengthlessThen := by
    refine hall.imp fun a x ha => ?_
    obtain ⟨fs, hfs, t, ha⟩ := ha
    rw [ha, Set.mem_singleton_iff.1 hfs, answer_sample]
  have has : as = lengthlessThen.map fun x => answer Sample.conf Sample.fs 0 x := by
    rw [← List.forall₂_eq_eq_eq, List.forall₂_map_right_iff]
    exact hone
  rw [hbytes, List.length_flatten, has, List.map_map] at hlt
  exact lt_irrefl _ hlt

end Liso
