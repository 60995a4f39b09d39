import Liso.Loop.Calls
import Liso.Loop.Sample
import Liso.Intake

/-!
# The body on its way to the CGI

`cn_parse_req` counts the bytes of a body each time it is called, all those from the cursor to the
end of the buffer, and `cn_stream_to_cgi` empties the buffer into the CGI. `Feeding` says where the
bytes of a body are at each point of a visit: at the CGI, and then in the buffer, and behind the
body in `last_buf`.

Three things go wrong with it. The bytes that a request took over from `last_buf` are still in the
buffer when the next ones are received, and are counted again. A write that takes a part of the
bytes moves no cursor, so that the next one starts at the first byte again. And behind a failed
write the CGI is still fed, from whatever the buffer holds then. `Drained`, `WholeWrites` and
`Broken` are the conditions under which none of the three happens. In the runs that satisfy the
first, a body is counted once (`body_counted`), and in those that satisfy all three, the CGI
receives a prefix of the body, and all of it before its stdin is closed (`fed_prefix`). In both the
hosts must fit, and the bytes of the body are those that the connection received (`Conn.Traced`).
-/

namespace Liso

variable {conf : Conf} {l : Loop} {ev : Ev} {c c' : Conn} {s s' : Srv}
  {e : Env} {W V : Prop}
  {A : Set ℕ} {n : ℕ}

/-! ## The conditions -/

/-- The two transitions, which stand between the receipt and the streaming to the CGI. -/
def stepTransit (conf : Conf) (e : Env) (c : Conn) (s : Srv) : Conn × Srv :=
  stepInitCgi e (stepPrepare conf e c (stepLogerr c s)).1 (stepPrepare conf e c (stepLogerr c s)).2

/-- The sections in between are the transitions and the streaming. -/
theorem stepMiddle_eq_transit (conf : Conf) (e : Env) (c : Conn) (s : Srv) :
    stepMiddle conf e c s =
      stepStream e (stepTransit conf e c s).1
        (stepSelect (stepTransit conf e c s).1 (stepTransit conf e c s).2) := rfl

/-- The connection and the server before the streaming to the CGI, unless the connection was
freed. -/
def beforeStream (conf : Conf) (e : Env) (c : Conn) (s : Srv) : Option (Conn × Srv) :=
  (afterRecv e c s).map fun p => stepTransit conf e p.1 p.2

/-- The loop is about to offer bytes to the CGI. -/
def Conn.Offers (c : Conn) : Prop :=
  c.req.type = .dynamic ∧ c.cgi.phase = .srvToCgi ∧ 0 < c.buf.rsize

/-- `Conn.Offers` is decidable. -/
instance (c : Conn) : Decidable c.Offers := inferInstanceAs (Decidable (_ ∧ _ ∧ _))

/-- Nothing is received while bytes of the body wait for the start of the CGI. -/
def Drained (e : Env) (c : Conn) (s : Srv) : Prop :=
  c.req.phase = .body → c.cgi.phase = .ready → c.buf.rest ≠ [] → c.fd ∈ s.pool.read_ready →
    ∀ data ∈ e.recv, data = []

/-- `Drained` is decidable. -/
instance (c : Conn) (s : Srv) : Decidable (Drained e c s) :=
  inferInstanceAs (Decidable (_ → _ → _ → _ → ∀ data ∈ e.recv, data = []))

/-- Behind a write that takes only a part of the bytes, the next one fails. -/
def WholeWrites (conf : Conf) (e : Env) (c : Conn) (s : Srv) : Prop :=
  ∀ p ∈ beforeStream conf e c s, p.1.Offers → p.1.req.phase ≠ .abort → 0 < e.write 0 →
    p.1.buf.rsize ≤ e.write 0 ∨ e.write 1 ≤ 0

/-- `WholeWrites` is decidable. -/
instance (c : Conn) (s : Srv) : Decidable (WholeWrites conf e c s) :=
  inferInstanceAs (Decidable (∀ p ∈ beforeStream conf e c s, _ → _ → _ → (_ ∨ _)))

/-- The pipe of a failed request takes no bytes. -/
def Broken (conf : Conf) (e : Env) (c : Conn) (s : Srv) : Prop :=
  ∀ p ∈ beforeStream conf e c s, p.1.Offers → p.1.req.phase = .abort → e.write 0 ≤ 0

/-- `Broken` is decidable. -/
instance (c : Conn) (s : Srv) : Decidable (Broken conf e c s) :=
  inferInstanceAs (Decidable (∀ p ∈ beforeStream conf e c s, _ → _ → _))

/-! ## Where the bytes are -/

/-- The bytes of the body that wait in the buffer for the CGI. -/
def Conn.due (c : Conn) : List Byte :=
  if c.cgi.phase = .ready ∨ c.cgi.phase = .srvToCgi then c.buf.rest else []

/-- The bytes behind the head are counted, and those behind the body are kept. -/
structure Conn.Counted (c : Conn) : Prop where
  /-- The head is whole. -/
  headed : Headed c.wire.cur.inp
  /-- It gives the length. -/
  clen : c.req.clen = bodySize c.wire.cur.inp
  /-- Every byte behind it is counted once. -/
  rsize : c.req.rsize = bodySize c.wire.cur.inp - (behindHead c.wire.cur.inp).length
  /-- What follows the body. -/
  last : c.req.last_buf.data = (behindHead c.wire.cur.inp).drop (bodySize c.wire.cur.inp)

/-- Where the bytes of a request are; under `W` those that went to the CGI count as well, and under
`V` those of a request that failed. -/
structure Feeding (W V : Prop) (c : Conn) : Prop where
  /-- In the head, the buffer holds everything. -/
  head : c.req.phase = .start ∨ c.req.phase = .header → c.buf.data = c.wire.cur.inp ∧
    c.buf.bad = false ∧
    Amid c.wire.cur.inp c.buf.data_p c.req
  /-- Nothing is kept before the end of the body. -/
  last : c.Open → c.req.last_buf.data = []
  /-- The CGI has received nothing before it is started. -/
  quiet : c.req.phase ≠ .abort → c.cgi.phase = .idle ∨ c.cgi.phase = .disabled →
    c.wire.cur.cgi_in = []
  /-- The cursor is inside the buffer. -/
  buf : c.req.phase ≠ .abort → c.cgi.phase = .ready ∨ c.cgi.phase = .srvToCgi →
    c.buf.bad = false ∧ c.buf.data_p ≤ c.buf.data.length
  /-- Behind the head. -/
  counted : c.req.type = .dynamic → c.req.phase = .body ∨ c.req.phase = .done → c.Counted
  /-- The body is due. -/
  body : c.req.type = .dynamic → c.req.phase = .body → 0 < c.req.rsize
  /-- The body is complete. -/
  done : c.req.type = .dynamic → c.req.phase = .done → c.req.rsize ≤ 0
  /-- The CGI has what is not due any more. -/
  fed : W → c.req.type = .dynamic → c.req.phase = .body ∨ c.req.phase = .done →
    c.wire.cur.cgi_in ++ c.due = bodyOf c.wire.cur.inp
  /-- The CGI of a failed request. -/
  failed : W → V → c.req.phase = .abort → c.wire.cur.cgi_in <+: bodyOf c.wire.cur.inp

/-- Of a request that failed, only what the CGI has received counts. -/
theorem Feeding.of_abort (hp : c.req.phase = .abort)
    (h : W → V → c.wire.cur.cgi_in <+: bodyOf c.wire.cur.inp) :
    Feeding W V c := by
  refine ⟨fun hh => ?_, fun ho => ?_, fun hp' => absurd hp hp', fun hp' => absurd hp hp',
    fun _ hh => ?_, fun _ hh => ?_,
    fun _ hh => ?_, fun _ _ hh => ?_, fun w v _ => h w v⟩
  · rcases hh with hh | hh <;> simp [hp] at hh
  · rcases ho with hh | hh | hh <;> simp [hp] at hh
  · rcases hh with hh | hh <;> simp [hp] at hh
  · simp [hp] at hh
  · simp [hp] at hh
  · rcases hh with hh | hh <;> simp [hp] at hh

/-- A request whose head is being received. -/
theorem Feeding.of_head (hp : c.req.phase = .start ∨ c.req.phase = .header)
    (hg : c.cgi.phase = .idle)
    (h : c.buf.data = c.wire.cur.inp ∧ c.buf.bad = false ∧ Amid c.wire.cur.inp c.buf.data_p c.req)
    (hlast : c.req.last_buf.data = []) (hin : c.wire.cur.cgi_in = []) : Feeding W V c := by
  refine ⟨fun _ => h, fun _ => hlast, fun _ _ => hin, fun _ hg' => ?_, fun _ hh => ?_,
    fun _ hh => ?_, fun _ hh => ?_,
    fun _ _ hh => ?_, fun _ _ hh => ?_⟩
  · rcases hg' with hg' | hg' <;> simp [hg] at hg'
  · rcases hp with hp | hp <;> simp [hp] at hh
  · rcases hp with hp | hp <;> simp [hp] at hh
  · rcases hp with hp | hp <;> simp [hp] at hh
  · rcases hp with hp | hp <;> simp [hp] at hh
  · rcases hp with hp | hp <;> simp [hp] at hh

/-- A static request behind its head. -/
theorem Feeding.of_static (hp : c.req.phase = .body ∨ c.req.phase = .done)
    (ht : c.req.type = .static) (hg : c.cgi.phase = .disabled)
    (hlast : c.req.phase = .body → c.req.last_buf.data = []) (hin : c.wire.cur.cgi_in = []) :
    Feeding W V c := by
  refine ⟨fun hh => ?_, fun ho => hlast ?_, fun _ _ => hin, fun _ hg' => ?_, fun ht' => ?_,
    fun ht' => ?_, fun ht' => ?_,
    fun _ ht' => ?_, fun _ _ hh => ?_⟩
  · rcases hp with hp | hp <;> simp [hp] at hh
  · rcases hp with hp | hp
    · exact hp
    · rcases ho with ho | ho | ho <;> simp [hp] at ho
  · rcases hg' with hg' | hg' <;> simp [hg] at hg'
  · simp [ht] at ht'
  · simp [ht] at ht'
  · simp [ht] at ht'
  · simp [ht] at ht'
  · rcases hp with hp | hp <;> simp [hp] at hh

/-- A dynamic request behind its head. -/
theorem Feeding.of_dynamic
    (hg : c.cgi.phase = .ready ∨ c.cgi.phase = .srvToCgi ∨ c.cgi.phase = .cgiToSrv ∨
      c.cgi.phase = .done)
    (hp : c.req.phase = .body ∧ 0 < c.req.rsize ∨ c.req.phase = .done ∧ c.req.rsize ≤ 0)
    (hbuf : c.cgi.phase = .ready ∨ c.cgi.phase = .srvToCgi → c.buf.bad = false ∧
      c.buf.data_p ≤ c.buf.data.length)
    (hc : c.Counted) (hfed : W → c.wire.cur.cgi_in ++ c.due = bodyOf c.wire.cur.inp) :
    Feeding W V c := by
  refine ⟨fun hh => ?_, fun ho => ?_, fun _ hg' => ?_, fun _ => hbuf, fun _ _ => hc,
    fun _ hb => ?_, fun _ hd => ?_,
    fun w _ _ => hfed w, fun _ _ ha => ?_⟩
  · rcases hp with ⟨hp, -⟩ | ⟨hp, -⟩ <;> simp [hp] at hh
  · rcases hp with ⟨hp, hpos⟩ | ⟨hp, -⟩
    · rw [hc.last]
      have := hc.rsize
      exact List.drop_eq_nil_of_le (by omega)
    · rcases ho with ho | ho | ho <;> simp [hp] at ho
  · rcases hg with hg | hg | hg | hg <;> simp [hg] at hg'
  · rcases hp with ⟨-, hpos⟩ | ⟨hp, -⟩
    · exact hpos
    · simp [hp] at hb
  · rcases hp with ⟨hp, -⟩ | ⟨-, hle⟩
    · simp [hp] at hd
    · exact hle
  · rcases hp with ⟨hp, -⟩ | ⟨hp, -⟩ <;> simp [hp] at ha

/-- The account of a body depends on the request, the buffer, the phase of the CGI, and what was
received and written. -/
theorem Feeding.congr (h : Feeding W V c) (hreq : c'.req = c.req) (hbuf : c'.buf = c.buf)
    (hg : c'.cgi.phase = c.cgi.phase) (hinp : c'.wire.cur.inp = c.wire.cur.inp)
    (hin : c'.wire.cur.cgi_in = c.wire.cur.cgi_in) : Feeding W V c' := by
  have hdue : c'.due = c.due := by rw [Conn.due, Conn.due, hg, hbuf]
  constructor
  · rw [hreq, hbuf, hinp]; exact h.head
  · rw [Conn.Open, hreq]; exact h.last
  · rw [hreq, hg, hin]; exact h.quiet
  · rw [hreq, hbuf, hg]; exact h.buf
  · intro ht hp
    rw [hreq] at ht hp
    have hc := h.counted ht hp
    refine ⟨?_, ?_, ?_, ?_⟩
    · rw [hinp]; exact hc.headed
    · rw [hreq, hinp]; exact hc.clen
    · rw [hreq, hinp]; exact hc.rsize
    · rw [hreq, hinp]; exact hc.last
  · rw [hreq]; exact h.body
  · rw [hreq]; exact h.done
  · rw [hreq, hin, hdue, hinp]; exact h.fed
  · rw [hreq, hin, hinp]; exact h.failed

/-- The CGI has a prefix of the body. -/
theorem Feeding.begins (h : Feeding W V c) (hs : Shape c) (w : W) (v : V) :
    c.wire.cur.cgi_in <+: bodyOf c.wire.cur.inp := by
  have hquiet : c.wire.cur.cgi_in = [] → c.wire.cur.cgi_in <+: bodyOf c.wire.cur.inp := fun he =>
    he ▸ List.nil_prefix
  have hdyn : c.req.type = .dynamic → c.req.phase = .body ∨ c.req.phase = .done →
      c.wire.cur.cgi_in <+: bodyOf c.wire.cur.inp := fun ht hp => ⟨c.due, h.fed w ht hp⟩
  cases hs with
  | head hp hg => exact hquiet (h.quiet (by rcases hp with hp | hp <;> simp [hp]) (.inl hg))
  | bodyStatic hp _ hg | doneStatic hp _ hg => exact hquiet (h.quiet (by simp [hp]) (.inr hg))
  | bodyReady hp ht | bodyStream hp ht => exact hdyn ht (.inl hp)
  | doneReady hp ht | doneStream hp ht | relay hp ht | relayEnd hp ht => exact hdyn ht (.inr hp)
  | abort hp => exact h.failed w v hp

/-! ## Counting -/

/-- The bytes in the buffer are counted, when those in front of them are. -/
theorem cnCountBody_feeding (front : List Byte) (hp : c.req.phase = .body)
    (ht : c.req.type = .dynamic)
    (hg : c.cgi.phase = .idle ∨ c.cgi.phase = .ready ∨ c.cgi.phase = .srvToCgi)
    (hheaded : Headed c.wire.cur.inp)
    (hbuf : c.buf.bad = false ∧ c.buf.data_p ≤ c.buf.data.length)
    (hz : behindHead c.wire.cur.inp = front ++ c.buf.rest)
    (hr : c.req.rsize = (bodySize c.wire.cur.inp : ℤ) - front.length)
    (hT : front.length ≤ bodySize c.wire.cur.inp) (hclen : c.req.clen = bodySize c.wire.cur.inp)
    (hlast : c.req.last_buf.data = []) (hin : W → c.wire.cur.cgi_in = front) :
    Feeding W V (cnCountBody c) := by
  obtain ⟨hleft, hkeep⟩ := counted_eq hz hbuf.1 hbuf.2 hr hT
  have hgate : (if c.cgi.phase = .idle then CgiPhase.ready else c.cgi.phase) = .ready ∨
      (if c.cgi.phase = .idle then CgiPhase.ready else c.cgi.phase) = .srvToCgi := by
    rcases hg with hg | hg | hg <;> simp [hg]
  rw [cnCountBody_dynamic hp ht]
  refine .of_dynamic (hgate.imp_right .inl) ?_ (fun _ => ?_) ⟨hheaded, hclen, hleft, ?_⟩ fun w => ?_
  · show c.counted.phase = .body ∧ 0 < c.left ∨ c.counted.phase = .done ∧ c.left ≤ 0
    by_cases h0 : c.left ≤ 0
    · exact .inr ⟨if_pos h0, h0⟩
    · exact .inl ⟨if_neg h0, not_le.1 h0⟩
  · show (if c.left < 0 then { c.buf with data := c.buf.data.take c.keep } else c.buf : Buf).bad =
      false ∧ _
    split
    · rename_i hneg
      refine ⟨hbuf.1, ?_⟩
      have hk : c.keep = (c.buf.sz - -c.left).toNat := rfl
      have hsz : c.buf.sz = c.buf.data.length := by rw [Buf.sz, hbuf.1]; rfl
      have hrest : c.buf.rest.length = c.buf.data.length - c.buf.data_p := List.length_drop
      have hlen := congrArg List.length hz
      rw [List.length_append] at hlen
      show c.buf.data_p ≤ (c.buf.data.take c.keep).length
      rw [List.length_take]
      omega
    · exact hbuf
  · show c.counted.last_buf.data = _
    unfold Conn.counted
    dsimp only
    split
    · -- The body ends in the buffer, and `last_buf` gets what is behind it.
      exact (hkeep (by omega)).1
    · rw [hlast, List.drop_eq_nil_of_le (by omega)]
  · -- The buffer holds the rest of the body.
    show c.wire.cur.cgi_in ++
      (if _ then (if c.left < 0 then { c.buf with data := c.buf.data.take c.keep } else c.buf :
      Buf).rest else []) = bodyOf c.wire.cur.inp
    rw [if_pos hgate, hin w, bodyOf]
    split
    · have hrest : (c.buf.data.take c.keep).drop c.buf.data_p =
          ((behindHead c.wire.cur.inp).take (bodySize c.wire.cur.inp)).drop front.length :=
            (hkeep (by omega)).2
      show front ++ (c.buf.data.take c.keep).drop c.buf.data_p = _
      rw [hrest]
      refine List.prefix_iff_eq_append.1 ?_
      rw [hz]
      exact List.prefix_take_iff.2 ⟨List.prefix_append _ _, hT⟩
    · rw [List.take_of_length_le (by omega), hz]

/-- The body of a static request is dropped. -/
theorem cnCountBody_feeding_static (hp : c.req.phase = .body) (ht : c.req.type = .static)
    (hlast : c.req.last_buf.data = []) (hin : c.wire.cur.cgi_in = []) :
    Feeding W V (cnCountBody c) := by
  rw [cnCountBody_static hp ht]
  refine .of_static c.counted_phase.symm ht rfl (fun hb => ?_) hin
  have hleft : ¬ c.left < 0 := by
    intro hneg
    have hdone : c.counted.phase = .done := if_pos hneg.le
    have hb : c.counted.phase = .body := hb
    simp [hdone] at hb
  show (if c.left < 0 then _ else c.req.last_buf : Buf).data = []
  rw [if_neg hleft, hlast]

/-- A head that `cn_parse_req` completes has the bytes behind it counted once. -/
theorem cnParseReq_feeding (e : Env) (s : Srv) (hp : c.req.phase = .start ∨ c.req.phase = .header)
    (hg : c.cgi.phase = .idle)
    (h : c.buf.data = c.wire.cur.inp ∧ c.buf.bad = false ∧ Amid c.wire.cur.inp c.buf.data_p c.req)
    (hlast : c.req.last_buf.data = []) (hin : c.wire.cur.cgi_in = []) :
    Feeding W V (cnParseReq e lisoConnErr c n s).1 := by
  rcases cnParseReq_head e c n s hp with ⟨-, he⟩ | ⟨lines, -, -, q, he⟩ | ⟨lines, hl, hrc, he⟩
    <;> rw [he]
  · exact .of_head hp hg h hlast hin
  · exact .of_abort rfl fun _ _ => by
      show c.wire.cur.cgi_in <+: _
      rw [hin]
      exact List.nil_prefix
  obtain ⟨hdata, hbad, hamid⟩ := h
  have hbegins : lines <+: c.wire.cur.inp.drop c.buf.data_p := hdata ▸ chunk_begins hl
  have hparses := reqParse_parses e.before c.req lines
  rcases hamid.parse hbegins (chunk_last hl) hrc with ⟨hph, hamid'⟩ | ⟨hph, hbehind⟩
  · rw [cnCountBody_other (by simp [hph])]
    exact .of_head (.inr hph) hg ⟨hdata, hbad, hamid'⟩ (hparses.last_buf ▸ hlast) hin
  · have hlast' : (reqParse e.before c.req lines).2.last_buf.data = [] := hparses.last_buf ▸ hlast
    generalize (reqParse e.before c.req lines).1.toNat = k at hbehind ⊢
    cases ht : (reqParse e.before c.req lines).2.type with
    | static => exact cnCountBody_feeding_static hph ht hlast' hin
    | dynamic =>
      -- Nothing behind the head was counted before.
      refine cnCountBody_feeding [] hph ht (.inl hg) hbehind.headed ⟨hbad, ?_⟩ ?_ ?_
        (Nat.zero_le _) ?_ hlast'
        fun _ => hin
      · show c.buf.data_p + k ≤ c.buf.data.length
        rw [hdata, ← hbehind.length]
        exact headOf_length_le _
      · show behindHead c.wire.cur.inp = c.buf.data.drop (c.buf.data_p + k)
        rw [behindHead, hbehind.length, hdata]
      · show (reqParse e.before c.req lines).2.rsize = _
        rw [hbehind.rsize]
        simp
      · rw [← hbehind.rsize]
        exact (reqParse_sized e.before lines (by rcases hp with hp | hp <;> simp [hp]) hph).1.symm

/-! ## Receiving -/

/-- A CGI that is being fed has all bytes that were received. -/
def Conn.Emptied (c : Conn) : Prop :=
  c.req.phase = .body → c.cgi.phase = .srvToCgi → c.buf.rest = []

/-- Bytes of a body that were received. -/
theorem Feeding.received {data : List Byte} (h : Feeding W V c) (hp : c.req.phase = .body)
    (ht : c.req.type = .dynamic) (hg : c.cgi.phase = .ready ∨ c.cgi.phase = .srvToCgi)
    (hrest : c.buf.rest = []) :
    Feeding W V (cnCountBody (c.received data)) := by
  have hc := h.counted ht (.inl hp)
  have hpos := h.body ht hp
  have hbuf := h.buf (by simp [hp]) hg
  have hsize := hc.rsize
  obtain ⟨hheaded, -, hbody⟩ := hc.headed.append data
  refine cnCountBody_feeding (behindHead c.wire.cur.inp) hp ht (.inr hg) hheaded ⟨hbuf.1, ?_⟩ ?_ ?_
    ?_
    (hc.clen.trans (by rw [← hbody]; rfl)) (h.last (.inr (.inr hp))) fun w => ?_
  · show c.buf.data_p ≤ (c.buf.data ++ data).length
    rw [List.length_append]
    exact le_add_right hbuf.2
  · show behindHead (c.wire.cur.inp ++ data) = behindHead c.wire.cur.inp ++
      (c.buf.data ++ data).drop c.buf.data_p
    rw [hc.headed.behindHead_append, List.drop_append_of_le_length hbuf.2]
    show _ = _ ++ (c.buf.rest ++ data)
    rw [hrest, List.nil_append]
  · show c.req.rsize = (bodySize (c.wire.cur.inp ++ data) : ℤ) - _
    rw [hbody, hsize]
  · show _ ≤ bodySize (c.wire.cur.inp ++ data)
    rw [hbody]
    omega
  · have hfed := h.fed w ht (.inl hp)
    rw [Conn.due, if_pos hg, hrest, List.append_nil, bodyOf, List.take_of_length_le (by omega)]
      at hfed
    exact hfed

/-- What the section `recv` takes from the socket is counted once, when no bytes wait for the start
of the CGI. -/
theorem Receipt.feeding (hr : Receipt e c s c') (h : Feeding W V c) (hs : Shape c)
    (he : c.Emptied) (hd : Drained e c s) (hdone : c.req.phase ≠ .done) : Feeding W V c' := by
  cases hr with
  | idle hc => exact hc ▸ h
  | handshake _ hc => exact hc ▸ h.congr rfl rfl rfl rfl rfl
  | ignored data hp hc =>
    rw [hc]
    exact .of_abort hp fun w v => h.failed w v hp
  | full data bytes _ _ _ _ _ hc =>
    rw [hc]
    exact .of_abort rfl fun w v => h.begins hs w v
  | parsed data bytes hready hp _ hsome hpre hne hc =>
    obtain ⟨s', rfl⟩ := hc
    have htail : c.req.phase = .body → Feeding W V (cnCountBody (c.received data)) →
        Feeding W V (cnParseReq e lisoConnErr (c.received data) c.buf.data.length s').1 := by
      intro hb hcount
      have hb' : (c.received data).req.phase = .body := hb
      rw [cnParseReq_tail e _ _ _ (by simp [hb'])]
      exact hcount
    cases hs with
    | head hhead hg =>
      obtain ⟨hdata, hbad, hamid⟩ := h.head hhead
      exact cnParseReq_feeding e s' hhead hg ⟨congrArg (· ++ data) hdata, hbad, hamid.append data⟩
        (h.last (hhead.imp_right .inl)) (h.quiet hp (.inl hg))
    | bodyStatic hb ht hg =>
      exact htail hb
        (cnCountBody_feeding_static hb ht (h.last (.inr (.inr hb))) (h.quiet hp (.inr hg)))
    | bodyReady hb ht hg =>
      refine htail hb (h.received hb ht (.inl hg) ?_)
      -- Bytes of the body that still waited would be counted twice.
      by_contra hrest
      have hnil := hd hb hg hrest hready bytes hsome
      rw [hnil] at hpre
      exact hne (List.prefix_nil.1 hpre)
    | bodyStream hb ht hg => exact htail hb (h.received hb ht (.inr hg) (he hb hg))
    | doneStatic hp' | doneReady hp' | doneStream hp' | relay hp'
    | relayEnd hp' => exact absurd hp' hdone
    | abort hp' => exact absurd hp' hp

/-! ## The transitions and the streaming -/

/-- The preparation of a response leaves the bytes of a body where they are. -/
theorem stepPrepare_feeding (conf : Conf) (e : Env) (s : Srv) (h : Feeding W V c) (hs : Shape c) :
    Feeding W V (stepPrepare conf e c s).1 := by
  unfold stepPrepare
  split
  case isFalse => exact h
  rename_i hcond
  obtain ⟨ht, hp, -⟩ := hcond
  have hg : c.cgi.phase = .disabled := by
    rcases hs.of_done hp with ⟨-, hg⟩ | ⟨ht', -⟩
    · exact hg
    · simp [ht] at ht'
  unfold cnPrepareStaticHeader
  dsimp only
  split
  · exact .of_abort rfl fun w v => h.begins hs w v
  · exact .of_static (.inr hp) ht hg (fun hb => by simp [hp] at hb)
      (h.quiet (by simp [hp]) (.inr hg))

/-- The start of a CGI leaves the bytes of a body where they are. -/
theorem stepInitCgi_feeding (e : Env) (s : Srv) (h : Feeding W V c) (hs : Shape c) :
    Feeding W V (stepInitCgi e c s).1 := by
  rcases stepInitCgi_cases e c s with ⟨-, he⟩ | ⟨ht, hg, -, he⟩ | ⟨-, -, -, he⟩ <;> rw [he]
  · exact h
  · have hdyn : c.req.phase ≠ .abort →
      (c.req.phase = .body ∧ 0 < c.req.rsize ∨ c.req.phase = .done ∧ c.req.rsize ≤ 0) →
        Feeding W V { c with cgi := { (cgiInit e c.cgi s.fds).2.1 with phase := .srvToCgi } } := by
      intro hna hp
      have hp' : c.req.phase = .body ∨ c.req.phase = .done := hp.imp And.left And.left
      have hc := h.counted ht hp'
      refine .of_dynamic (.inr (.inl rfl)) hp (fun _ => h.buf hna (.inl hg)) ⟨hc.headed, hc.clen,
        hc.rsize, hc.last⟩ fun w => ?_
      have hfed := h.fed w ht hp'
      rw [Conn.due, if_pos (.inl hg)] at hfed
      exact hfed
    rcases hs.of_ready hg with ⟨-, hp | hp⟩ | ⟨-, hp⟩
    · exact hdyn (by simp [hp]) (.inl ⟨hp, h.body ht hp⟩)
    · exact hdyn (by simp [hp]) (.inr ⟨hp, h.done ht hp⟩)
    · exact .of_abort hp fun w v => h.failed w v hp
  · exact .of_abort rfl fun w v => h.begins hs w v

/-- Nothing is written if nothing is offered, or if the first write fails. -/
theorem writes_none (h : c.buf.rsize ≤ 0 ∨ e.write 0 ≤ 0) : (c.writes e).2 = [] := by
  unfold Conn.writes
  cases hn : c.buf.rsize.toNat with
  | zero => rfl
  | succ n =>
    have hpos : ¬ c.buf.rsize ≤ 0 := by omega
    have hw := h.resolve_left hpos
    rw [writeLoop, if_neg hpos]
    dsimp only
    rw [if_pos (by omega)]

/-- When no write follows one that took a part of the bytes, a prefix of the bytes is written, and
all of them unless a write failed. -/
theorem writes_whole (hbuf : c.buf.bad = false ∧ c.buf.data_p ≤ c.buf.data.length)
    (hw : 0 < c.buf.rsize → 0 < e.write 0 → c.buf.rsize ≤ e.write 0 ∨ e.write 1 ≤ 0) :
    (c.writes e).2 <+: c.buf.rest ∧ ((c.writes e).1 = true → (c.writes e).2 = c.buf.rest) := by
  -- The code counts what is left; the model has the bytes themselves.
  have hsize : c.buf.rsize = c.buf.rest.length := by
    have hrest : c.buf.rest.length = c.buf.data.length - c.buf.data_p := List.length_drop
    have hsz : c.buf.sz = c.buf.data.length := by rw [Buf.sz, hbuf.1]; rfl
    rw [Buf.rsize, hsz]
    omega
  unfold Conn.writes
  cases hn : c.buf.rsize.toNat with
  | zero =>
    have hnil : c.buf.rest = [] := List.eq_nil_of_length_eq_zero (by omega)
    rw [hnil]
    exact ⟨List.nil_prefix, fun _ => rfl⟩
  | succ n =>
    have hpos : 0 < c.buf.rsize := by omega
    rw [writeLoop, if_neg (not_le.2 hpos)]
    dsimp only
    by_cases hfail : e.write 0 ≤ 0
    · rw [if_pos (by omega)]
      exact ⟨List.nil_prefix, fun h => by simp at h⟩
    · rw [if_neg (by omega)]
      by_cases hall : c.buf.rsize ≤ e.write 0
      · -- The first write takes everything.
        have hloop : writeLoop c.buf.rest e.write n 1 (c.buf.rsize - min (e.write 0) c.buf.rsize) =
          (true, []) := by
          rw [min_eq_right hall, sub_self]
          cases n <;> rfl
        rw [hloop, min_eq_right hall, hsize, Int.toNat_natCast, List.take_length, List.append_nil]
        exact ⟨List.prefix_rfl, fun _ => rfl⟩
      · -- The first write takes a part, and the second one fails.
        have hnext := (hw hpos (not_le.1 hfail)).resolve_left hall
        have hloop : writeLoop c.buf.rest e.write n 1 (c.buf.rsize - min (e.write 0) c.buf.rsize) =
          (false, []) := by
          rw [min_eq_left (not_le.1 hall).le]
          cases n with
          | zero => omega
          | succ n =>
            rw [writeLoop, if_neg (by omega)]
            dsimp only
            rw [if_pos (by omega)]
        rw [hloop, List.append_nil]
        exact ⟨List.take_prefix _ _, fun h => by simp at h⟩

/-- The streaming to the CGI moves bytes of the body from the buffer to the CGI, when it takes them
whole. -/
theorem stepStream_feeding (e : Env) (s : Srv) (h : Feeding W V c) (hs : Shape c)
    (hw : W → c.Offers → c.req.phase ≠ .abort → 0 < e.write 0 → c.buf.rsize ≤ e.write 0 ∨
      e.write 1 ≤ 0)
    (hv : V → c.Offers → c.req.phase = .abort → e.write 0 ≤ 0) :
    Feeding W V (stepStream e c s).1 ∧ (stepStream e c s).1.Emptied := by
  -- Nothing is written for a request that failed.
  have hfailed : c.req.type = .dynamic → c.cgi.phase = .srvToCgi → c.req.phase = .abort → W → V →
      c.wire.cur.cgi_in ++ (c.writes e).2 <+: bodyOf c.wire.cur.inp := by
    intro ht hg hp w v
    rw [writes_none, List.append_nil]
    · exact h.failed w v hp
    · by_contra hno
      rw [not_or, not_le, not_le] at hno
      exact absurd (hv v ⟨ht, hg, hno.1⟩ hp) (not_le.2 hno.2)
  have hlive : c.req.type = .dynamic → c.cgi.phase = .srvToCgi → c.req.phase = .body ∨
    c.req.phase = .done → W →
      (c.writes e).2 <+: c.buf.rest ∧ ((c.writes e).1 = true → (c.writes e).2 = c.buf.rest) ∧
        c.wire.cur.cgi_in ++ c.buf.rest = bodyOf c.wire.cur.inp := by
    intro ht hg hp w
    have hna : c.req.phase ≠ .abort := by rcases hp with hp | hp <;> simp [hp]
    have hwhole := writes_whole (h.buf hna (.inr hg)) fun hpos => hw w ⟨ht, hg, hpos⟩ hna
    have hfed := h.fed w ht hp
    rw [Conn.due, if_pos (.inr hg)] at hfed
    exact ⟨hwhole.1, hwhole.2, hfed⟩
  have hphase : c.cgi.phase = .srvToCgi → c.req.phase = .body ∨ c.req.phase = .done ∨
    c.req.phase = .abort := by
    intro hg
    cases hs with
    | bodyStream hp => exact .inl hp
    | doneStream hp => exact .inr (.inl hp)
    | abort hp => exact .inr (.inr hp)
    | head _ hg' | bodyStatic _ _ hg' | bodyReady _ _ hg' | doneStatic _ _ hg' | doneReady _ _ hg'
    | relay _ _ hg'
    | relayEnd _ _ hg' => simp [hg] at hg'
  rcases stepStream_cases e c s with ⟨hno, he⟩ | ⟨ht, hg, -, he⟩ | ⟨ht, hg, hok, hp, he⟩
    | ⟨ht, hg, hok, hp, he⟩ <;>
    rw [he]
  · refine ⟨h, fun hp hg => absurd ⟨?_, hg⟩ hno⟩
    have hp : c.req.phase = .body := hp
    have hg : c.cgi.phase = .srvToCgi := hg
    cases hs with
    | bodyReady _ ht | bodyStream _ ht | doneReady _ ht | doneStream _ ht | relay _ ht
    | relayEnd _ ht => exact ht
    | head hp' => rcases hp' with hp' | hp' <;> simp [hp] at hp'
    | bodyStatic _ _ hg' => simp [hg] at hg'
    | doneStatic hp' | abort hp' => simp [hp] at hp'
  · refine ⟨.of_abort rfl fun w v => ?_, fun hp => by simp [lisoConnErr] at hp⟩
    show c.wire.cur.cgi_in ++ (c.writes e).2 <+: bodyOf c.wire.cur.inp
    rcases hphase hg with hp | hp | hp
    · obtain ⟨hpre, -, hfed⟩ := hlive ht hg (.inl hp) w
      exact hfed ▸ (List.prefix_append_right_inj _).2 hpre
    · obtain ⟨hpre, -, hfed⟩ := hlive ht hg (.inr hp) w
      exact hfed ▸ (List.prefix_append_right_inj _).2 hpre
    · exact hfailed ht hg hp w v
  · refine ⟨?_, fun _ _ => rfl⟩
    rcases hphase hg with hb | hb | hb
    · have hc := h.counted ht (.inl hb)
      refine .of_dynamic (.inr (.inl hg)) (.inl ⟨hb, h.body ht hb⟩) (fun _ => ⟨rfl, le_rfl⟩)
        ⟨hc.headed, hc.clen, hc.rsize, hc.last⟩ fun w => ?_
      obtain ⟨-, hall, hfed⟩ := hlive ht hg (.inl hb) w
      rw [Conn.due, if_pos (.inr hg)]
      show c.wire.cur.cgi_in ++ (c.writes e).2 ++ [] = _
      rw [List.append_nil, hall hok, hfed]
      rfl
    · exact absurd hb hp
    · exact .of_abort hb fun w v => hfailed ht hg hb w v
  · refine ⟨?_, fun hb => ?_⟩
    · have hc := h.counted ht (.inr hp)
      refine .of_dynamic (.inr (.inr (.inl rfl))) (.inr ⟨hp, h.done ht hp⟩)
        (fun hg' => by simp at hg')
        ⟨hc.headed, hc.clen, hc.rsize, hc.last⟩ fun w => ?_
      obtain ⟨-, hall, hfed⟩ := hlive ht hg (.inr hp) w
      show c.wire.cur.cgi_in ++ (c.writes e).2 ++ [] = _
      rw [List.append_nil, hall hok, hfed]
      rfl
    · have hb : c.req.phase = .body := hb
      simp [hp] at hb

/-- The transitions and the streaming keep the account of the body. -/
theorem stepMiddle_feeding (conf : Conf) (e : Env) (hR : Recvd False c s) (h : Feeding W V c)
    (hw : W → (stepTransit conf e c s).1.Offers → (stepTransit conf e c s).1.req.phase ≠ .abort →
      0 < e.write 0 → (stepTransit conf e c s).1.buf.rsize ≤ e.write 0 ∨ e.write 1 ≤ 0)
    (hv : V → (stepTransit conf e c s).1.Offers → (stepTransit conf e c s).1.req.phase = .abort →
      e.write 0 ≤ 0) :
    Feeding W V (stepMiddle conf e c s).1 ∧ (stepMiddle conf e c s).1.Emptied := by
  have hprep := stepPrepare_recvd conf e (stepLogerr_recvd hR)
  have hshape : Shape (stepTransit conf e c s).1 := (stepInitCgi_recvd e hprep).1.shape
  have hfeed : Feeding W V (stepTransit conf e c s).1 :=
    stepInitCgi_feeding e _ (stepPrepare_feeding conf e _ h hR.shape) hprep.shape
  rw [stepMiddle_eq_transit]
  exact stepStream_feeding e _ hfeed hshape hw hv

/-! ## The CGI's output -/

/-- While the CGI's output is relayed, the body is at the CGI. -/
theorem Feeding.relay (h : Feeding W V c) (ht : c.req.type = .dynamic) (hp : c.req.phase = .done)
    (hg : c.cgi.phase = .cgiToSrv ∨ c.cgi.phase = .done) (hreq : c'.req = c.req)
    (hg' : c'.cgi.phase = .cgiToSrv ∨ c'.cgi.phase = .done)
    (hinp : c'.wire.cur.inp = c.wire.cur.inp) (hin : c'.wire.cur.cgi_in = c.wire.cur.cgi_in) :
    Feeding W V c' := by
  have hc := h.counted ht (.inr hp)
  have hdue : ∀ c : Conn, c.cgi.phase = .cgiToSrv ∨ c.cgi.phase = .done → c.due = [] := by
    intro c hg
    rw [Conn.due, if_neg]
    rcases hg with hg | hg <;> simp [hg]
  refine .of_dynamic (.inr (.inr hg')) (.inr ⟨hreq ▸ hp, hreq ▸ h.done ht hp⟩) (fun hg'' => ?_)
    ⟨?_, ?_, ?_, ?_⟩ fun w => ?_
  · rcases hg' with hg' | hg' <;> simp [hg'] at hg''
  · rw [hinp]; exact hc.headed
  · rw [hreq, hinp]; exact hc.clen
  · rw [hreq, hinp]; exact hc.rsize
  · rw [hreq, hinp]; exact hc.last
  · have hfed := h.fed w ht (.inr hp)
    rw [hdue c hg] at hfed
    rw [hdue c' hg', hinp, hin]
    exact hfed

/-- While the output of a CGI is read, and behind its end, the request is complete. -/
theorem Shape.of_relay (hs : Shape c) (hg : c.cgi.phase = .cgiToSrv ∨ c.cgi.phase = .done) :
    c.req.type = .dynamic ∧ c.req.phase = .done := by
  cases hs with
  | relay hp ht | relayEnd hp ht => exact ⟨ht, hp⟩
  | abort _ _ _ hg1 hg2 => exact absurd hg (not_or.2 ⟨hg1, hg2⟩)
  | head _ hg' | bodyStatic _ _ hg' | bodyReady _ _ hg' | bodyStream _ _ hg' | doneStatic _ _ hg'
  | doneReady _ _ hg' | doneStream _ _ hg' => simp [hg'] at hg

/-- While a request is received, no response is sent. -/
theorem Shape.of_open (hs : Shape c) (ho : c.Open) :
    c.resp.phase = .ready ∨ c.resp.phase = .disabled := by
  cases hs with
  | head _ _ hr | bodyStatic _ _ _ hr => exact .inl hr
  | bodyReady _ _ _ hr | bodyStream _ _ _ hr | doneReady _ _ _ hr | doneStream _ _ _ hr
  | relay _ _ _ hr | relayEnd _ _ _ hr => exact .inr hr
  | doneStatic hp => rcases ho with ho | ho | ho <;> simp [hp] at ho
  | abort hp => exact absurd ho (not_open_of_abort hp)

/-- Behind a CGI that has its whole body, `last_buf` holds what follows the body. -/
theorem Feeding.behind (h : Feeding W V c) (hs : Shape c)
    (hg : c.cgi.phase = .cgiToSrv ∨ c.cgi.phase = .done) : ¬ c.Open ∧ c.Behind := by
  obtain ⟨ht, hp⟩ := hs.of_relay hg
  have hc := h.counted ht (.inr hp)
  exact ⟨fun ho => by rcases ho with ho | ho | ho <;> simp [hp] at ho, hc.headed, hc.last⟩

/-- The reading of a CGI's output changes nothing of it. -/
theorem stepFromCgi_feeding (e : Env) (s : Srv) (h : Feeding W V c) (hs : Shape c) :
    Feeding W V (stepFromCgi e c s).1 := by
  rcases stepFromCgi_cases e c s with ⟨s', he, -⟩ | ⟨d, -, -, hg, -, hout⟩
  · rw [he]; exact h
  have hrelay := hs.of_relay (.inl hg)
  rcases hout with ⟨-, he⟩ | ⟨data, -, -, he⟩ | ⟨-, he⟩ <;> rw [he]
  · exact .of_abort rfl fun w v => h.begins hs w v
  · exact h.relay hrelay.1 hrelay.2 (.inl hg) rfl (.inl hg) rfl rfl
  · exact h.relay hrelay.1 hrelay.2 (.inl hg) rfl (.inr rfl) rfl rfl

/-! ## The next request -/

/-- The CGI has received a prefix of the body that the head of the request says, and all of it if
its stdin is closed. -/
def Exchange.Fed (ex : Exchange) (g : CgiPhase) : Prop :=
  ex.cgi_in <+: saidBody ex.inp ∧
    (g = .cgiToSrv ∨ g = .done → ex.cgi_in = saidBody ex.inp ∧
      (saidBody ex.inp).length = saidSize ex.inp)

/-- `Exchange.Fed` is decidable. -/
instance (ex : Exchange) (g : CgiPhase) : Decidable (ex.Fed g) :=
  inferInstanceAs (Decidable (_ ∧ (_ ∨ _ → _ ∧ _)))

/-- When the bytes of a body are where `Feeding` says, and the lengths in the head are sound, the
CGI is fed. -/
theorem Feeding.ex_fed (h : Feeding W V c) (hs : Shape c) (w : W) (v : V)
    (hsaid : Said c.wire.cur.inp) : c.wire.cur.Fed c.cgi.phase := by
  refine ⟨hsaid.bodyOf ▸ h.begins hs w v, fun hg => ?_⟩
  have hrelay := hs.of_relay hg
  have hfed := h.fed w hrelay.1 (.inr hrelay.2)
  rw [Conn.due, if_neg (by rcases hg with hg | hg <;> simp [hg]), List.append_nil] at hfed
  have hsize := (h.counted hrelay.1 (.inr hrelay.2)).rsize
  have hdone := h.done hrelay.1 hrelay.2
  rw [hsaid.bodySize] at hsize
  refine ⟨hfed.trans hsaid.bodyOf, ?_⟩
  rw [saidBody, List.length_take]
  omega

/-- So it was for the requests that are served. -/
def AllFed (W V : Prop) (served : List Served) : Prop :=
  ∀ x ∈ served, W → V → Said x.ex.inp → x.ex.Fed x.cgi

/-- The bytes of a body that are taken over from `last_buf` are counted once. -/
theorem handOver_feeding (e : Env) (s : Srv) (hp : c.req.phase = .start) (hc : c.req.clen = -1)
    (hg : c.cgi.phase = .idle) (hbuf : c.buf.data_p = 0 ∧ c.buf.bad = false)
    (hin : c.wire.cur.cgi_in = []) :
    Feeding W V (handOver e c s).1 := by
  rw [handOver_conn]
  refine cnParseReq_feeding e s (.inl hp) hg ⟨rfl, hbuf.2, ?_⟩ rfl hin
  show Amid _ c.buf.data_p _
  rw [hbuf.1]
  exact .start hp hc _

/-- The success callback ends an exchange whose CGI was fed, and counts what it takes over. -/
theorem lisoResetOrClose_feeding (e : Env) (hH : Held False A c s) (hs : AllFed W V s.served)
    (hx : W → V → Said c.wire.cur.inp → c.wire.cur.Fed c.cgi.phase) :
    (lisoResetOrClose e c s).Post (fun c' s' => (Feeding W V c' ∧ c'.Emptied) ∧
      AllFed W V s'.served)
      (fun s' => AllFed W V s'.served) := by
  have hdata : Frame False A (fun _ => True) c s c.archive (s.serve c) := .data id rfl rfl
  have hf := plResetConn_fresh (hdata.held hH)
  have hfeed : (lisoResetOrClose e c s).Post (fun c' _ => Feeding W V c') (fun _ => True) := by
    rcases lisoResetOrClose_cases e c s with ⟨-, he⟩ | ⟨-, hz, he⟩ | ⟨-, -, he⟩ <;> rw [he]
    · exact lisoDropConn_gone hH.idx
    · refine (Ret.post_some _ _).2
        (.of_head (.inl hf.phase) hf.cgi ⟨rfl, rfl, .start rfl rfl _⟩ ?_ rfl)
      show c.req.last_buf.data = []
      unfold Buf.sz at hz
      split at hz
      · simp at hz
      · exact List.eq_nil_of_length_eq_zero (by omega)
    · exact (Ret.post_some _ _).2 (handOver_feeding e _ hf.phase rfl hf.cgi ⟨rfl, rfl⟩ rfl)
  refine ((hfeed.and (lisoResetOrClose_rest (W := False) e hH)).and
    (lisoResetOrClose_all e hH.idx hs hx)).mono ?_
    fun _ h => h.2
  rintro c' s' ⟨⟨hc, -, hcalm, -⟩, hall⟩
  refine ⟨⟨hc, fun _ hg => ?_⟩, hall⟩
  rcases hcalm with h | h | h <;> simp [h] at hg

/-- The sending of a CGI's output. -/
theorem stepToClient_feeding (e : Env) (h0 : 0 < c.fd) (hH : Held False A c s) (hs : Shape c)
    (h : Feeding W V c ∧ c.Emptied) (hserved : AllFed W V s.served) :
    (stepToClient e c s).Post (fun c' s' => (Feeding W V c' ∧ c'.Emptied) ∧ AllFed W V s'.served)
      (fun s' => AllFed W V s'.served) := by
  have hH' := hH.acted c.fd
  rcases stepToClient_cases e c s h0 with ⟨-, he⟩ | ⟨-, hb, hout⟩
  · rw [he]
    exact (Ret.post_some _ _).2 ⟨h, hserved⟩
  obtain ⟨hp, ht, -, hg⟩ := hs.of_send hb
  have hg : c.cgi.phase = .cgiToSrv ∨ c.cgi.phase = .done := hg.imp_left And.left
  rcases hout with ⟨-, -, he⟩ | ⟨-, ⟨-, he⟩ | ⟨-, he⟩⟩ <;> rw [he]
  · refine (lisoResetOrClose_feeding e hH' hserved fun w v => h.1.ex_fed hs w v).andThen
      fun c1 _ h1 => ?_
    split
    · exact (Ret.post_some _ _).2 h1
    · exact (Ret.post_some _ _).2 h1
  · exact (lisoDropConn_post (c := c) hH'.idx).mono (fun _ _ h => h) fun s' hs' => by
      rw [hs'.served]; exact hserved
  · refine (Ret.post_some _ _).2 ⟨⟨h.1.relay ht hp hg rfl hg rfl rfl, fun hb' => ?_⟩, ?_⟩
    · have hb' : c.req.phase = .body := hb'
      simp [hp] at hb'
    · split <;> exact hserved

/-- The section that serves files and pages leaves the bytes of a body where they are, and ends
exchanges whose CGI was fed. -/
theorem stepStatic_feeding (conf : Conf) (e : Env) (hH : Held False A c s) (hs : Shape c)
    (h : Feeding W V c ∧ c.Emptied) (hserved : AllFed W V s.served) :
    (stepStatic conf e c s).Post (fun c' s' => (Feeding W V c' ∧ c'.Emptied) ∧ AllFed W V s'.served)
      (fun s' => AllFed W V s'.served) := by
  rcases stepStatic_cases conf e c s with ⟨s', he, rfl | rfl⟩ | ⟨hr, c', hsent, hout⟩
  · rw [he]; exact (Ret.post_some _ _).2 ⟨h, hserved⟩
  · rw [he]; exact (Ret.post_some _ _).2 ⟨h, hserved⟩
  obtain ⟨buf, resp, data, rfl⟩ := hsent
  have hH' := (hH.acted c.fd).sent data buf resp
  have hstay : Feeding W V { c.logSent data with buf := buf, resp := resp } ∧
      Conn.Emptied { c.logSent data with buf := buf, resp := resp } := by
    cases hs with
    | doneStatic hp ht hg =>
      refine ⟨.of_static (.inr hp) ht hg (fun hb => ?_) (h.1.quiet (by simp [hp]) (.inr hg)),
        fun hb => ?_⟩ <;>
        (have hb : c.req.phase = .body := hb
         simp [hp] at hb)
    | abort hp =>
      refine ⟨.of_abort hp fun w v => h.1.failed w v hp, fun hb => ?_⟩
      have hb : c.req.phase = .body := hb
      simp [hp] at hb
    | head _ _ hr' | bodyStatic _ _ _ hr' | bodyReady _ _ _ hr' | bodyStream _ _ _ hr'
    | doneReady _ _ _ hr'
    | doneStream _ _ _ hr' | relay _ _ _ hr' | relayEnd _ _ _ hr' =>
      rcases hr with hr | hr | hr <;> simp [hr] at hr'
  rcases hout with he | he | ⟨b, he⟩ <;> rw [he]
  · exact (lisoDropConn_post hH'.idx).mono (fun _ _ h => h) fun s' hs' => by
      rw [hs'.served]; exact hserved
  · exact lisoResetOrClose_feeding e hH' hserved fun w v => h.1.ex_fed hs w v
  · exact (Ret.post_some _ _).2 ⟨hstay, hserved⟩

/-! ## Every run -/

/-- The condition on a visit: under `W` on its writes, and under `V` on those of a failed
request. -/
def Feeds (conf : Conf) (W V : Prop) (e : Env) (c : Conn) (s : Srv) : Prop :=
  Drained e c s ∧ (W → WholeWrites conf e c s) ∧ (V → Broken conf e c s)

/-- `Feeds` is decidable. -/
instance [Decidable W] [Decidable V] (c : Conn) (s : Srv) : Decidable (Feeds conf W V e c s) :=
  inferInstanceAs (Decidable (_ ∧ (W → _) ∧ (V → _)))

/-- The section `recv` keeps the account of the body, in the state that a visit finds. -/
theorem stepRecv_feeding (hidx : c.idx < s.pool.conns.length) (hR : Rest False c s)
    (hready : Ready c s) (h : Feeding W V c ∧ c.Emptied) (hd : Drained e c s) :
    (stepRecv e c s).Post (fun c' _ => Feeding W V c') (fun _ => True) := by
  by_cases hp : c.req.phase = .done
  · rw [stepRecv_done e hR hready hp]
    exact (Ret.post_some _ _).2 h.1
  · exact (stepRecv_receipt e hidx).mono (fun _ _ hr => hr.feeding h.1 hR.shape h.2 hd hp)
      fun _ h => h

/-- The section `recv` loses no byte of what was received, or drops the connection. -/
theorem stepRecv_tracing (hidx : c.idx < s.pool.conns.length) (hR : Rest False c s)
    (hready : Ready c s) (h : Tracing c) :
    (stepRecv e c s).Post (fun c' _ => Tracing c') (fun _ => True) := by
  by_cases hp : c.req.phase = .done
  · rw [stepRecv_done e hR hready hp]
    exact (Ret.post_some _ _).2 h
  · exact (stepRecv_receipt e hidx).mono (fun _ _ hr => hr.tracing h hp) fun _ h => h

/-- The sections behind `recv` keep the account of the body, in the state that they find. -/
theorem Feeds.middle (hok : Feeds conf W V e c s) {p : Conn × Srv} (hp : p ∈ afterRecv e c s)
    (hR : Recvd False p.1 p.2) (h : Feeding W V p.1) :
    Feeding W V (stepMiddle conf e p.1 p.2).1 ∧ (stepMiddle conf e p.1 p.2).1.Emptied := by
  have hmem : stepTransit conf e p.1 p.2 ∈ beforeStream conf e c s := Option.mem_map_of_mem _ hp
  exact stepMiddle_feeding conf e hR h (fun w => hok.2.1 w _ hmem) fun v => hok.2.2 v _ hmem

/-- A connection that was just accepted. -/
theorem Accepted.feeding (h : Accepted c) : Feeding W V c ∧ c.Emptied := by
  obtain ⟨fd, idx, mem, id, addr, port, scheme, ssl, rfl⟩ := h
  exact ⟨.of_head (.inl rfl) rfl ⟨rfl, rfl, .start rfl rfl _⟩ rfl rfl, fun hp => nomatch hp⟩

/-- Where the bytes of every request and of every connection are, in every reachable state. -/
theorem feeding_inv (h : Reach conf (Visiting (Feeds conf W V)) l) :
    (∀ c ∈ l.srv.pool.conns, Rest False c l.srv ∧ (Feeding W V c ∧ c.Emptied) ∧ Tracing c) ∧
      AllFed W V l.srv.served := by
  refine reach_local
    (L := fun c s => Rest False c s ∧ (Feeding W V c ∧ c.Emptied) ∧ Tracing c)
    (S := fun m => AllFed W V m.1)
    ?_ ?_ ?_ ?_ h
  · exact ⟨fun c s i h => ⟨Rest.stable.idx c s i h.1, ⟨h.2.1.1.congr rfl rfl rfl rfl rfl, h.2.1.2⟩,
      h.2.2.congr rfl rfl rfl rfl rfl rfl fun ho => ⟨ho, .inl rfl⟩⟩,
      fun c s s' h hk => ⟨Rest.stable.keep c s s' h.1 hk, h.2⟩⟩
  · exact fun x hx => by simp at hx
  · exact fun c s ha _ hr hw => ⟨ha.rest hr hw, ha.feeding, ha.tracing⟩
  · intro l ev i m c hl hok hpc hc hH hready hL hS
    have h0 : c.fd ≠ 0 := fun he => hH.fd_notMem (he ▸ .inl hl.zero_mem)
    have hfeeds := hok i m hpc c hc
    obtain ⟨hR, hfed, htr⟩ := hL
    let J : Conn → Prop := fun c => (Feeding W V c ∧ c.Emptied) ∧ Tracing c
    refine (visit_serves (R := fun c => Feeding W V c ∧ Tracing c) (M := J) (D := J) (B := J)
      (L := J) h0 hH hready hR (fun f => f.elim) hS
      ?_ ?_ ?_ ?_ ?_ ?_).mono (fun _ _ h => ⟨⟨h.1, h.2.1⟩, h.2.2⟩) fun _ h => h
    · exact ((stepRecv_feeding hH.idx hR hready hfed hfeeds.1).and
        (stepRecv_tracing hH.idx hR hready htr)).mono (fun _ _ h => h) fun _ _ => trivial
    · exact fun p hp hR hr => ⟨hfeeds.middle hp hR hr.1, stepMiddle_tracing conf ev.env p.2 hr.2⟩
    · exact fun p _ _ _ hr => hr
    · intro p _ hR ht hr
      refine ⟨⟨stepFromCgi_feeding ev.env p.2 hr.1.1 hR.shape, fun hb hg => ?_⟩,
        stepFromCgi_tracing ev.env p.2 hr.2 fun hg => hr.1.1.behind hR.shape (.inl hg)⟩
      -- No CGI is fed while its output is read.
      rcases stepFromCgi_cases ev.env p.1 p.2 with ⟨s', he, -⟩ | ⟨d, -, -, hg', -, hout⟩
      · rw [he] at hb hg ⊢
        exact hr.1.2 hb hg
      · rcases hout with ⟨-, he⟩ | ⟨data, -, -, he⟩ | ⟨-, he⟩ <;> rw [he] at hb hg
        · simp [lisoConnErr] at hb
        · have hg : p.1.cgi.phase = .srvToCgi := hg
          simp [hg'] at hg
        · simp at hg
    · intro p _ hpos hH' hR hr hs
      exact ((stepToClient_feeding ev.env hpos hH' hR.shape hr.1 hs).and
        (stepToClient_tracing ev.env hpos hH'.idx hr.2 fun hg =>
          (hr.1.1.behind hR.shape (.inr hg)).2)).mono (fun _ _ h => ⟨⟨h.1.1, h.2⟩, h.1.2⟩)
        fun _ h => h.1
    · intro c' s' hH' hR hr hs
      exact ((stepStatic_feeding conf ev.env hH' hR.shape hr.1 hs).and
        (stepStatic_tracing conf ev.env hH'.idx hr.2 hR.shape.of_open)).mono
        (fun _ _ h => ⟨⟨h.1.1, h.2⟩, h.1.2⟩) fun _ h => h.1

/-- In the runs in which nothing is received while a body waits for its CGI, and in which the hosts
fit, the bytes of each connection are those that it received, and each byte behind the head of a
dynamic request is counted once; when the body is complete, `last_buf` starts behind it, and if no
write follows a short one, what the CGI has received and what waits for it are the body. -/
theorem body_counted
    (h : Reach conf (Visiting fun e c s => Feeds conf W False e c s ∧ Hosted conf e c s) l) :
    ∀ c ∈ l.srv.pool.conns, c.Unmarked ∧ c.Traced ∧
      (c.req.type = .dynamic → c.req.phase = .body ∨ c.req.phase = .done →
        (c.req.clen = bodySize c.wire.cur.inp ∧
          c.req.rsize = c.req.clen - (behindHead c.wire.cur.inp).length) ∧
        (c.req.phase = .done → c.req.clen ≤ (behindHead c.wire.cur.inp).length ∧
          c.req.last_buf.data = (behindHead c.wire.cur.inp).drop (bodySize c.wire.cur.inp) ∧
          (W → c.wire.cur.cgi_in ++ c.due = bodyOf c.wire.cur.inp))) := by
  intro c hc
  obtain ⟨-, ⟨hf, -⟩, htr⟩ := (feeding_inv (h.visiting fun _ _ _ h => h.1)).1 c hc
  have hmark := unmarked_inv (h.visiting fun _ _ _ h => h.2) c hc
  refine ⟨hmark, htr.traced, fun ht hp => ?_⟩
  have hcount := hf.counted ht hp
  have hclen := hcount.clen
  have hrsize := hcount.rsize
  refine ⟨⟨hclen, by omega⟩, fun hd => ⟨?_, hcount.last, fun w => hf.fed w ht hp⟩⟩
  have hle := hf.done ht hd
  omega

/-- The run of a request for a CGI that ends, with another one behind it whose body has four bytes;
two of them arrive with its head, and are in the buffer when the third one is received. -/
def waitingRun : List Ev :=
  Sample.cgi "POST /cgi/x HTTP/1.1\r\nContent-Length:4\r\n\r\nab" ++ Sample.select {5} ∅

/-- The second request waits for its CGI with two bytes of its body. -/
theorem body_counted_waiting :
    (∃ c ∈ (Runs.exec (step Sample.conf) Sample.start waitingRun).srv.pool.conns,
      c.req.type = .dynamic ∧
      c.req.phase = .body ∧ behindHead c.wire.cur.inp = str "ab") ∧
    ∀ c ∈ (Runs.exec (step Sample.conf) Sample.start waitingRun).srv.pool.conns,
      c.Unmarked ∧ c.Traced ∧
      (c.req.type = .dynamic → c.req.phase = .body ∨ c.req.phase = .done →
        (c.req.clen = bodySize c.wire.cur.inp ∧
          c.req.rsize = c.req.clen - (behindHead c.wire.cur.inp).length) ∧
        (c.req.phase = .done → c.req.clen ≤ (behindHead c.wire.cur.inp).length ∧
          c.req.last_buf.data = (behindHead c.wire.cur.inp).drop (bodySize c.wire.cur.inp) ∧
          (True → c.wire.cur.cgi_in ++ c.due = bodyOf c.wire.cur.inp))) :=
  ⟨by decide +kernel,
    body_counted ((Runs.Reach.start Sample.start_init).along _ (by decide +kernel))⟩

/-- The two bytes are counted again with the third one: the body ends behind them, and the third
byte is kept for a request that follows. -/
theorem body_counted_twice : ¬ ∀ l, Reach Sample.conf (Visiting fun e c s =>
      WholeWrites Sample.conf e c s ∧ Hosted Sample.conf e c s) l →
    ∀ c ∈ l.srv.pool.conns, c.req.type = .dynamic → c.req.phase = .body ∨ c.req.phase = .done →
      (c.req.clen = bodySize c.wire.cur.inp ∧
        c.req.rsize = c.req.clen - (behindHead c.wire.cur.inp).length) ∧
      (c.req.phase = .done → c.req.clen ≤ (behindHead c.wire.cur.inp).length ∧
        c.req.last_buf.data = (behindHead c.wire.cur.inp).drop (bodySize c.wire.cur.inp) ∧
        c.wire.cur.cgi_in ++ c.due = bodyOf c.wire.cur.inp) := by
  intro h
  have := h _ ((Runs.Reach.start Sample.start_init).along (waitingRun ++ [Sample.recv "c"])
    (by decide +kernel))
  revert this
  decide +kernel

/-- Nothing is written for a request that failed before. -/
theorem stepMiddle_failed (conf : Conf) (e : Env) (s : Srv) (hp : c.req.phase = .abort)
    (hv : (stepTransit conf e c s).1.Offers → (stepTransit conf e c s).1.req.phase = .abort →
      e.write 0 ≤ 0) :
    (stepMiddle conf e c s).1.wire.cur.cgi_in = c.wire.cur.cgi_in := by
  have hprep : ∀ s, stepPrepare conf e c s = (c, s) := fun s => if_neg fun h => by simp [hp] at h
  have htransit : (stepTransit conf e c s).1.req.phase = .abort ∧
    (stepTransit conf e c s).1.wire = c.wire := by
    rw [stepTransit, hprep]
    rcases stepInitCgi_cases e c (stepLogerr c s) with ⟨-, he⟩ | ⟨-, -, -, he⟩
      | ⟨-, -, -, he⟩ <;> rw [he]
    · exact ⟨hp, rfl⟩
    · exact ⟨hp, rfl⟩
    · exact ⟨rfl, rfl⟩
  rw [stepMiddle_eq_transit, ← htransit.2]
  generalize stepTransit conf e c s = q at hv htransit
  obtain ⟨c1, s1⟩ := q
  dsimp only at hv htransit ⊢
  have hnone : c1.req.type = .dynamic → c1.cgi.phase = .srvToCgi →
      c1.wire.cur.cgi_in ++ (c1.writes e).2 = c1.wire.cur.cgi_in := by
    intro ht hg
    rw [writes_none, List.append_nil]
    by_contra hno
    rw [not_or, not_le, not_le] at hno
    exact absurd (hv ⟨ht, hg, hno.1⟩ htransit.1) (not_le.2 hno.2)
  rcases stepStream_cases e c1 (stepSelect c1 s1) with ⟨-, he⟩ | ⟨ht, hg, -, he⟩
    | ⟨ht, hg, -, -, he⟩ | ⟨-, -, -, hd, -⟩
  · rw [he]
  · rw [he]
    exact hnone ht hg
  · rw [he]
    exact hnone ht hg
  · simp [htransit.1] at hd

/-- In the runs in which nothing is received while a body waits for its CGI, no write follows a
short one, the pipe of a failed request takes nothing, and the hosts fit, the CGI has received a
prefix of the body at every point, and the whole body once its stdin is closed, when the lengths in
the head of the request are sound; nothing more is written for a request that failed, and the bytes
of each connection are those that it received. -/
theorem fed_prefix
    (h : Reach conf (Visiting fun e c s => Feeds conf True True e c s ∧ Hosted conf e c s) l)
    (hok : Visiting (fun e c s => Feeds conf True True e c s ∧ Hosted conf e c s) l ev) :
    (∀ c ∈ l.srv.pool.conns, c.Unmarked ∧ c.Traced ∧
      (Said c.wire.cur.inp → c.wire.cur.Fed c.cgi.phase)) ∧
      (∀ x ∈ l.srv.served, Said x.ex.inp → x.ex.Fed x.cgi) ∧
      ∀ i m, l.pc = .serve i m → ∀ c ∈ l.srv.pool.conns[i]?, ∀ p ∈ afterMiddle conf ev.env c l.srv,
        (Said p.1.wire.cur.inp → p.1.wire.cur.Fed p.1.cgi.phase) ∧
          (c.req.phase = .abort → p.1.wire.cur.cgi_in = c.wire.cur.cgi_in) := by
  obtain ⟨hconns, hserved⟩ := feeding_inv (h.visiting fun _ _ _ h => h.1)
  have hmark := unmarked_inv (h.visiting fun _ _ _ h => h.2)
  refine ⟨fun c hc => ?_, fun x hx => hserved x hx trivial trivial, fun i m hpc c hc p hp => ?_⟩
  · obtain ⟨hR, ⟨hf, -⟩, htr⟩ := hconns c hc
    exact ⟨hmark c hc, htr.traced, hf.ex_fed hR.shape trivial trivial⟩
  have hinv := loop_inv h
  have hH := hinv.pool.held i c hc
  have hready := hinv.ready i c (by rw [hpc]; exact le_rfl) hc
  obtain ⟨hR, hf, -⟩ := hconns c (List.mem_of_getElem? hc)
  have hfeeds := (hok i m hpc c hc).1
  constructor
  · have hat : ∀ p ∈ afterMiddle conf ev.env c l.srv,
      (Held False (l.srv.others conf i) p.1 p.2 ∧ p.1.fd = c.fd) ∧
        Rest False p.1 p.2 ∧ Feeding True True p.1 :=
      afterMiddle_at (M := fun c _ => Feeding True True c) hH hready hR
        (stepRecv_feeding hH.idx hR hready hf hfeeds.1) fun p hp _ hR hr =>
          (hfeeds.middle hp hR hr).1
    obtain ⟨-, hR', hf'⟩ := hat p hp
    exact hf'.ex_fed hR'.shape trivial trivial
  · intro habort
    obtain ⟨q, hq, rfl⟩ := Option.map_eq_some_iff.1 hp
    obtain ⟨c1, hc1, rfl⟩ := Option.map_eq_some_iff.1 hq
    have hmem : stepTransit conf ev.env c1 (stepRecv ev.env c l.srv).srv ∈
      beforeStream conf ev.env c l.srv :=
      Option.mem_map_of_mem _ hq
    -- What a failed request receives is thrown away, and not counted.
    have hkeep : c1.req.phase = .abort ∧ c1.wire.cur = c.wire.cur := by
      cases ((stepRecv_receipt ev.env hH.idx).of_some hc1).2 with
      | idle hc | handshake _ hc | ignored _ _ hc => rw [hc]; exact ⟨habort, rfl⟩
      | full _ _ _ hp' => exact absurd habort hp'
      | parsed _ _ _ hp' => exact absurd habort hp'
    rw [stepMiddle_failed conf ev.env _ hkeep.1 (hfeeds.2.2 trivial _ hmem), hkeep.2]

/-- The run of a request for a CGI with the body `abc`, of which two bytes have arrived when the
third one is received; the first write to the CGI takes `n` bytes, and the ones behind it take
all. -/
def feedRun (n : ℤ) : List Ev :=
  Sample.connect ++ Sample.select {5} ∅ ++
    [Sample.visit { Sample.env with
        recv := some (str "POST /cgi/x HTTP/1.1\r\nContent-Length:3\r\n\r\nab")
        write := fun k => if k = 0 then n else BUFSZ },
      Sample.next] ++
    Sample.select {5} ∅

/-- The first write takes both bytes that it is offered, and the third one is received. -/
theorem fed_whole :
    (∀ c ∈ (Runs.exec (step Sample.conf) Sample.start (feedRun 2)).srv.pool.conns,
      c.Unmarked ∧ c.Traced ∧ (Said c.wire.cur.inp → c.wire.cur.Fed c.cgi.phase)) ∧
      (∀ x ∈ (Runs.exec (step Sample.conf) Sample.start (feedRun 2)).srv.served,
        Said x.ex.inp → x.ex.Fed x.cgi) ∧
      ∀ i m, (Runs.exec (step Sample.conf) Sample.start (feedRun 2)).pc = .serve i m →
        ∀ c ∈ (Runs.exec (step Sample.conf) Sample.start (feedRun 2)).srv.pool.conns[i]?,
        ∀ p ∈ afterMiddle Sample.conf (Sample.recv "c").env c
          (Runs.exec (step Sample.conf) Sample.start (feedRun 2)).srv,
          (Said p.1.wire.cur.inp → p.1.wire.cur.Fed p.1.cgi.phase) ∧
            (c.req.phase = .abort → p.1.wire.cur.cgi_in = c.wire.cur.cgi_in) :=
  fed_prefix ((Runs.Reach.start Sample.start_init).along _ (by decide +kernel)) (by decide +kernel)

/-- The first write takes one byte of two, and the next one starts at the same byte; and behind a
failed write, the two bytes are written when the next one is received. -/
theorem fed_twice :
    (¬ ∀ l, Reach Sample.conf Runs.any l → ∀ c ∈ l.srv.pool.conns,
      Said c.wire.cur.inp → c.wire.cur.Fed c.cgi.phase) ∧
      ¬ ∀ l (ev : Ev), Reach Sample.conf Runs.any l → ∀ i m, l.pc = .serve i m →
        ∀ c ∈ l.srv.pool.conns[i]?,
        ∀ p ∈ afterMiddle Sample.conf ev.env c l.srv,
          c.req.phase = .abort → p.1.wire.cur.cgi_in = c.wire.cur.cgi_in := by
  constructor
  · intro h
    have := h _ (Sample.reach (feedRun 1))
    revert this
    decide +kernel
  · intro h
    have := h _ (Sample.recv "c") (Sample.reach (feedRun 0)) 0 4 (by decide +kernel)
    revert this
    decide +kernel

end Liso
