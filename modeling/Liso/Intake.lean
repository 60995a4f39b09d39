import Liso.Loop.Receive
import Liso.Parse.Body

/-!
# The bytes of a connection

What a connection receives is either ignored or put into the buffer for the exchange under way, and
what that exchange leaves behind is the beginning of the next one. `Conn.Traced` says so of the
whole history: the bytes received, without those that were ignored, are what the exchanges that
ended used, one behind the other, and then the bytes of the exchange under way. An exchange that a
CGI served used the head and the body of its request.
-/

namespace Liso

variable {c c' : Conn} {s s' : Srv} {e : Env} {n : ℕ}

/-! ## Received, ignored, and taken -/

/-- The bytes received are those that were ignored and those that were taken, in their order. -/
inductive Splits : List Byte → List Byte → List Byte → Prop
  /-- Nothing was received. -/
  | nil : Splits [] [] []
  /-- Some bytes more are ignored. -/
  | ignore {got ignored taken : List Byte} (h : Splits got ignored taken) (data : List Byte) :
      Splits (got ++ data) (ignored ++ data) taken
  /-- Some bytes more are taken. -/
  | take {got ignored taken : List Byte} (h : Splits got ignored taken) (data : List Byte) :
      Splits (got ++ data) ignored (taken ++ data)

/-! ## What the exchanges used -/

/-- A CGI served the exchange: its output was read, or the exchange ended without a byte of it. -/
def Exchange.ByCgi (ex : Exchange) : Prop := ex.cgi_out ≠ [] ∨ ex.sent = []

/-- Of its bytes, an exchange that ended used `own`, and left the rest to the next one. -/
def Exchange.Used (ex : Exchange) (own : List Byte) : Prop :=
  own <+: ex.inp ∧ (ex.ByCgi → own = headOf ex.inp ++ bodyOf ex.inp)

/-- The bytes received, without those that were ignored, are those that the exchanges that ended
used, one behind the other, and those of the exchange under way. -/
def Conn.Traced (c : Conn) : Prop :=
  ∃ owns, List.Forall₂ Exchange.Used c.wire.past owns ∧
    Splits c.wire.got c.wire.ignored (owns.flatten ++ c.wire.cur.inp)

/-- What is kept in `last_buf` follows the head and the body of the request under way. -/
def Conn.Behind (c : Conn) : Prop :=
  Headed c.wire.cur.inp ∧
    c.req.last_buf.data = (behindHead c.wire.cur.inp).drop (bodySize c.wire.cur.inp)

/-- Where the bytes of a connection are. -/
structure Tracing (c : Conn) : Prop where
  /-- The history. -/
  traced : c.Traced
  /-- What is kept is the end of what was taken. -/
  last : c.req.last_buf.data <:+ c.wire.cur.inp
  /-- While a request is received, the buffer holds the end of it, and nothing is kept. -/
  open_ : c.Open → c.buf.data <:+ c.wire.cur.inp ∧ c.req.last_buf.data = [] ∧
    c.wire.cur.cgi_out = []
  /-- When output of the CGI was read, the request is complete. -/
  read : c.wire.cur.cgi_out ≠ [] → c.Behind

/-- The account of the bytes depends on what was received, kept and read, and on the buffer while a
request is received. -/
theorem Tracing.congr (h : Tracing c) (hlast : c'.req.last_buf = c.req.last_buf)
    (hin : c'.wire.cur.inp = c.wire.cur.inp) (hout : c'.wire.cur.cgi_out = c.wire.cur.cgi_out)
    (hpast : c'.wire.past = c.wire.past) (hgot : c'.wire.got = c.wire.got)
    (hign : c'.wire.ignored = c.wire.ignored)
    (hopen : c'.Open → c.Open ∧ (c'.buf.data = c.buf.data ∨ c'.buf.data = [])) : Tracing c' := by
  constructor
  · rw [Conn.Traced, hpast, hgot, hign, hin]
    exact h.traced
  · rw [hlast, hin]
    exact h.last
  · intro ho
    obtain ⟨ho, hbuf⟩ := hopen ho
    obtain ⟨hsuf, hl, hcgi⟩ := h.open_ ho
    refine ⟨?_, hlast ▸ hl, hout.trans hcgi⟩
    rcases hbuf with hbuf | hbuf <;> rw [hbuf, hin]
    · exact hsuf
    · exact List.nil_suffix
  · rw [hout, Conn.Behind, hlast, hin]
    exact h.read

/-! ## The sections -/

/-- The counting of the body keeps what stands behind it. -/
theorem cnCountBody_tracing (h : Tracing c) : Tracing (cnCountBody c) := by
  by_cases hp : c.req.phase = .body
  case neg => rw [cnCountBody_other hp]; exact h
  obtain ⟨hbuf, hlast, hout⟩ := h.open_ (.inr (.inr hp))
  have hcounted : c.counted.last_buf.data <:+ c.wire.cur.inp := by
    unfold Conn.counted
    dsimp only
    split
    · exact (List.drop_suffix _ _).trans hbuf
    · exact h.last
  -- The request is still open only if nothing stands behind it.
  have hkeep : (c.counted.phase = .start ∨ c.counted.phase = .header ∨ c.counted.phase = .body) →
      ¬ c.left < 0 ∧ c.counted.last_buf.data = [] := by
    intro ho
    have hleft : ¬ c.left < 0 := fun hneg => by
      have hdone : c.counted.phase = .done := if_pos hneg.le
      rcases ho with ho | ho | ho <;> simp [hdone] at ho
    exact ⟨hleft, by rw [Conn.counted, if_neg hleft]; exact hlast⟩
  cases ht : c.req.type with
  | static =>
    rw [cnCountBody_static hp ht]
    exact ⟨h.traced, hcounted, fun ho => ⟨List.nil_suffix, (hkeep ho).2, hout⟩,
      fun hne => absurd hout hne⟩
  | dynamic =>
    rw [cnCountBody_dynamic hp ht]
    refine ⟨h.traced, hcounted, fun ho => ⟨?_, (hkeep ho).2, hout⟩, fun hne => absurd hout hne⟩
    rw [if_neg (hkeep ho).1]
    exact hbuf

/-- A request that failed is not received any more. -/
theorem not_open_of_abort (hp : c.req.phase = .abort) : ¬ c.Open := by
  rintro (ho | ho | ho) <;> simp [hp] at ho

/-- A request that fails keeps its bytes. -/
theorem Tracing.err (h : Tracing c) (status : ℤ) (s : Srv) :
    Tracing (lisoConnErr c status s).1 :=
  h.congr rfl rfl rfl rfl rfl rfl fun ho => absurd ho (not_open_of_abort rfl)

/-- `cn_parse_req` loses no byte of what was received. -/
theorem cnParseReq_tracing (e : Env) (n : ℕ) (s : Srv) (h : Tracing c) :
    Tracing (cnParseReq e lisoConnErr c n s).1 := by
  by_cases hp : c.req.phase = .start ∨ c.req.phase = .header
  case neg => rw [cnParseReq_tail e c n s hp]; exact cnCountBody_tracing h
  have ho : c.Open := hp.imp_right .inl
  have hparsed : ∀ lines q, Tracing { c with
      req := (reqParse e.before c.req lines).2, buf := { c.buf with data_p := q } } :=
    fun lines q => h.congr (reqParse_parses _ _ _).last_buf rfl rfl rfl rfl rfl
      fun _ => ⟨ho, .inl rfl⟩
  rcases cnParseReq_head e c n s hp with ⟨-, he⟩ | ⟨lines, -, -, q, he⟩ | ⟨lines, -, -, he⟩
    <;> rw [he]
  · exact h
  · exact (hparsed lines q).err _ _
  · exact cnCountBody_tracing (hparsed lines _)

/-- What the section `recv` takes from the socket belongs to the exchange under way, or is ignored.
-/
theorem Receipt.tracing (hr : Receipt e c s c') (h : Tracing c) (hdone : c.req.phase ≠ .done) :
    Tracing c' := by
  have hignored : ∀ (c₁ : Conn) (data : List Byte), Tracing c₁ → c₁.req.phase = .abort →
      Tracing (c₁.overwritten data) := by
    rintro c₁ data ⟨⟨owns, hused, hsplit⟩, hlast, -, hread⟩ hp
    exact ⟨⟨owns, hused, hsplit.ignore data⟩, hlast, fun ho => absurd ho (not_open_of_abort hp),
      hread⟩
  cases hr with
  | idle hc => exact hc ▸ h
  | handshake _ hc => exact hc ▸ h.congr rfl rfl rfl rfl rfl rfl fun ho => ⟨ho, .inl rfl⟩
  | ignored data hp hc => exact hc ▸ hignored c data h hp
  | full data _ _ _ _ _ _ hc => exact hc ▸ hignored _ data (h.err 400 s) rfl
  | parsed data _ _ hp _ _ _ _ hc =>
    obtain ⟨s', rfl⟩ := hc
    have ho := c.open_of hp hdone
    obtain ⟨hbuf, hlast, hout⟩ := h.open_ ho
    obtain ⟨owns, hused, hsplit⟩ := h.traced
    obtain ⟨pre, hpre⟩ := hbuf
    refine cnParseReq_tracing e _ s' ⟨⟨owns, hused, ?_⟩, ?_, fun _ => ⟨⟨pre, ?_⟩, hlast, hout⟩,
      fun hne => absurd hout hne⟩
    · exact List.append_assoc .. ▸ hsplit.take data
    · exact hlast ▸ List.nil_suffix
    · show pre ++ (c.buf.data ++ data) = c.wire.cur.inp ++ data
      rw [← List.append_assoc, hpre]

/-- The transitions and the streaming to the CGI take nothing. -/
theorem stepMiddle_tracing (conf : Conf) (e : Env) (s : Srv) (h : Tracing c) :
    Tracing (stepMiddle conf e c s).1 := by
  have hprep : Tracing (stepPrepare conf e c (stepLogerr c s)).1 := by
    unfold stepPrepare
    split
    · rename_i hcond
      unfold cnPrepareStaticHeader
      dsimp only
      split
      · exact h.congr rfl rfl rfl rfl rfl rfl fun ho => absurd ho (not_open_of_abort rfl)
      · refine h.congr rfl rfl rfl rfl rfl rfl fun ho => ?_
        have ho : c.Open := ho
        rcases ho with ho | ho | ho <;> simp [ho] at hcond
    · exact h
  unfold stepMiddle
  dsimp only
  generalize stepPrepare conf e c (stepLogerr c s) = q at hprep
  have hinit : Tracing (stepInitCgi e q.1 q.2).1 := by
    rcases stepInitCgi_cases e q.1 q.2 with ⟨-, he⟩ | ⟨-, -, -, he⟩ | ⟨-, -, -, he⟩ <;> rw [he]
    · exact hprep
    · exact hprep.congr rfl rfl rfl rfl rfl rfl fun ho => ⟨ho, .inl rfl⟩
    · exact hprep.congr rfl rfl rfl rfl rfl rfl fun ho => absurd ho (not_open_of_abort rfl)
  generalize stepInitCgi e q.1 q.2 = q' at hinit
  rcases stepStream_cases e q'.1 (stepSelect q'.1 q'.2) with ⟨-, he⟩ | ⟨-, -, -, he⟩
    | ⟨-, -, -, -, he⟩ | ⟨-, -, -, -, he⟩ <;> rw [he]
  · exact hinit
  · exact hinit.congr rfl rfl rfl rfl rfl rfl fun ho => absurd ho (not_open_of_abort rfl)
  · exact hinit.congr rfl rfl rfl rfl rfl rfl fun ho => ⟨ho, .inr rfl⟩
  · exact hinit.congr rfl rfl rfl rfl rfl rfl fun ho => ⟨ho, .inr rfl⟩

/-- When the CGI's output is read, the request is complete. -/
theorem stepFromCgi_tracing (e : Env) (s : Srv) (h : Tracing c)
    (hread : c.cgi.phase = .cgiToSrv → ¬ c.Open ∧ c.Behind) : Tracing (stepFromCgi e c s).1 := by
  rcases stepFromCgi_cases e c s with ⟨s', he, -⟩ | ⟨d, -, -, hg, -, hout⟩
  · rw [he]; exact h
  have hno := (hread hg).1
  have hfed : ∀ data, Tracing (c.fed data) := fun data =>
    ⟨h.traced, h.last, fun ho => absurd ho hno, fun _ => (hread hg).2⟩
  rcases hout with ⟨-, he⟩ | ⟨data, -, -, he⟩ | ⟨-, he⟩ <;> rw [he]
  · exact h.congr rfl rfl rfl rfl rfl rfl fun ho => absurd ho (not_open_of_abort rfl)
  · exact hfed data
  · exact (hfed []).congr rfl rfl rfl rfl rfl rfl fun ho => ⟨ho, .inl rfl⟩

/-- The success callback: the exchange used what is not kept. -/
theorem lisoResetOrClose_tracing (e : Env) (hidx : c.idx < s.pool.conns.length) (h : Tracing c)
    (hbehind : c.wire.cur.ByCgi → c.Behind) :
    (lisoResetOrClose e c s).Post (fun c' _ => Tracing c') (fun _ => True) := by
  obtain ⟨own, hown⟩ := h.last
  obtain ⟨owns, hused, hsplit⟩ := h.traced
  have huse : c.wire.cur.Used own := by
    refine ⟨⟨_, hown⟩, fun hcgi => ?_⟩
    obtain ⟨hheaded, hlast⟩ := hbehind hcgi
    have hbeh : headOf c.wire.cur.inp ++ behindHead c.wire.cur.inp = c.wire.cur.inp :=
      List.prefix_iff_eq_append.1 hheaded.head.2.2.1
    have hall : own ++ c.req.last_buf.data =
        (headOf c.wire.cur.inp ++ bodyOf c.wire.cur.inp) ++ c.req.last_buf.data := by
      rw [hown, hlast, bodyOf, List.append_assoc, List.take_append_drop, hbeh]
    exact List.append_cancel_right hall
  have hpast : List.Forall₂ Exchange.Used (c.wire.past ++ [c.wire.cur]) (owns ++ [own]) :=
    List.rel_append hused (.cons huse .nil)
  have hnext : Splits c.wire.got c.wire.ignored
      ((owns ++ [own]).flatten ++ c.req.last_buf.data) := by
    rw [List.flatten_append, List.flatten_singleton, List.append_assoc, hown]
    exact hsplit
  rcases lisoResetOrClose_cases e c s with ⟨-, he⟩ | ⟨-, hz, he⟩ | ⟨-, -, he⟩ <;> rw [he]
  · exact lisoDropConn_gone hidx
  · -- Nothing is kept, so that the next exchange begins without a byte.
    have hnil : c.req.last_buf.data = [] := by
      unfold Buf.sz at hz
      split at hz
      · simp at hz
      · exact List.eq_nil_of_length_eq_zero (by omega)
    rw [hnil] at hnext
    refine (Ret.post_some _ _).2 ⟨⟨_, hpast, hnext⟩, ?_, fun _ => ⟨List.nil_suffix, hnil, rfl⟩,
      fun hne => absurd rfl hne⟩
    exact ⟨[], hnil⟩
  · refine (Ret.post_some _ _).2 ?_
    rw [handOver_conn]
    exact cnParseReq_tracing e 0 _ ⟨⟨_, hpast, hnext⟩, List.nil_suffix,
      fun _ => ⟨List.suffix_rfl, rfl, rfl⟩, fun hne => absurd rfl hne⟩

/-- The sending of a CGI's output. -/
theorem stepToClient_tracing (e : Env) (h0 : 0 < c.fd) (hidx : c.idx < s.pool.conns.length)
    (h : Tracing c) (hbehind : c.cgi.phase = .done → c.Behind) :
    (stepToClient e c s).Post (fun c' _ => Tracing c') (fun _ => True) := by
  rcases stepToClient_cases e c s h0 with ⟨-, he⟩ | ⟨-, -, ⟨-, hg, he⟩ | ⟨-, ⟨-, he⟩ | ⟨-, he⟩⟩⟩
    <;> rw [he]
  · exact (Ret.post_some _ _).2 h
  · refine (lisoResetOrClose_tracing (s := (s.probe c.fd).act c.fd) e hidx h fun _ =>
      hbehind hg).andThen fun c1 _ h1 => ?_
    split
    · exact (Ret.post_some _ _).2 h1
    · exact (Ret.post_some _ _).2 h1
  · exact lisoDropConn_gone hidx
  · exact (Ret.post_some _ _).2
      (h.congr rfl rfl rfl rfl rfl rfl fun ho => ⟨ho, .inl rfl⟩)

/-- The sending of a static response, or of an error page. -/
theorem stepStatic_tracing (conf : Conf) (e : Env) (hidx : c.idx < s.pool.conns.length)
    (h : Tracing c) (hidle : c.Open → c.resp.phase = .ready ∨ c.resp.phase = .disabled) :
    (stepStatic conf e c s).Post (fun c' _ => Tracing c') (fun _ => True) := by
  unfold stepStatic
  dsimp only
  split
  case isFalse => exact (Ret.post_some _ _).2 h
  by_cases hno : c.Open
  · unfold cnServeStatic
    rcases hidle hno with hr | hr <;> rw [hr] <;> exact (Ret.post_some _ _).2 h
  obtain ⟨c₁, ⟨buf, resp, data, rfl⟩, hout | ⟨hsent, hout⟩ | ⟨b, hout⟩⟩ :=
    cnServeStatic_cases conf e c <;> rw [hout]
  · exact lisoDropConn_gone hidx
  · refine lisoResetOrClose_tracing (s := (s.probe c.fd).act c.fd) e hidx
      (h.congr rfl rfl rfl rfl rfl rfl fun ho => absurd ho hno) fun hcgi => ?_
    exact h.read (hcgi.resolve_right hsent)
  · exact (Ret.post_some _ _).2 (h.congr rfl rfl rfl rfl rfl rfl fun ho => absurd ho hno)

/-- A connection that was just accepted. -/
theorem Accepted.tracing (h : Accepted c) : Tracing c := by
  obtain ⟨fd, idx, mem, id, addr, port, scheme, ssl, rfl⟩ := h
  exact ⟨⟨[], .nil, .nil⟩, List.nil_suffix, fun _ => ⟨List.nil_suffix, rfl, rfl⟩,
    fun hne => absurd rfl hne⟩

end Liso
