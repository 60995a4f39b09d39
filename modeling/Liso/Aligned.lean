import Liso.Parse.Framed
import Liso.Segments
import Liso.ToCgi

/-!
# The requests of a stream

A client sends a stream of requests, one behind the other. `Place` says where the bytes are that a
connection has received for one of them: in the buffer while its head is parsed, counted while its
body is received, and behind its end in `last_buf`. `Aligned` adds that the bytes of the exchange
under way begin where those of the exchanges before it end.
-/

namespace Liso

open Cut (lines rest whole)

variable {conf : Conf} {l : Loop} {c c' : Conn} {s s' : Srv} {e : Env} {W : Prop}
  {A : Set ℕ} {r : Req}
  {z y : List Byte} {rs : List (List Byte)} {n : ℕ}

/-! ## Where the bytes of a request are -/

/-- The connection has received `z`, and `r` was its request before. Under `W` a request fails only
when it is complete. -/
inductive Place (W : Prop) (r : Req) (z : List Byte) (c : Conn) : Prop
  /-- The head is not complete. -/
  | head (h : Parsing r z c) : Place W r z c
  /-- The body is not complete. -/
  | body (hs : (scanHead r z).status = none) (hb : (scanHead r z).req.phase = .body)
      (hlt : z.length < (scanHead r z).total) (hreq : c.req = (scanHead r z).inBody z)
      (hbuf : c.buf.bad = false ∧ c.buf.data_p ≤ c.buf.data.length)
      (hstat : c.req.type = .static → c.buf = ⟨[], 0, false⟩) : Place W r z c
  /-- The request is complete. -/
  | done (hs : (scanHead r z).status = none) (hb : (scanHead r z).req.phase = .body)
      (hle : (scanHead r z).total ≤ z.length) (last : Buf)
      (hreq : c.req = { (scanHead r z).inBody z with phase := .done, last_buf := last })
      (hlast : last.data = z.drop (scanHead r z).total) : Place W r z c
  /-- The request failed, before anything was kept or when it was complete. -/
  | failed (hp : c.req.phase = .abort)
      (h : (¬ W ∧ c.req.last_buf.data = []) ∨
        ((scanHead r z).status = none ∧ (scanHead r z).req.phase = .body ∧
          (scanHead r z).total ≤ z.length ∧ c.req.last_buf.data = z.drop (scanHead r z).total)) :
      Place W r z c

/-- The buffer does not matter any more when the request is settled. -/
theorem Place.congr (h : Place W r z c) (hreq : c'.req = c.req)
    (hbuf : c.Settled ∨ c'.buf = c.buf) : Place W r z c' := by
  have hkeep : ¬ c.Settled → c'.buf = c.buf := hbuf.resolve_left
  cases h with
  | head h =>
    have hb := hkeep fun hset => by
      have hp := h.phase
      rcases hset with hset | hset <;> simp [hset] at hp
    exact .head ⟨hb.trans h.buf, hreq ▸ h.head, hreq ▸ h.phase⟩
  | body hs hb hlt hr hbuf' hstat =>
    have hp : c.req.phase = .body := by rw [hr]; exact hb
    have he := hkeep fun hset => by rcases hset with hset | hset <;> simp [hp] at hset
    exact .body hs hb hlt (hreq.trans hr) (he ▸ hbuf') (by rw [hreq, he]; exact hstat)
  | done hs hb hle last hr hlast => exact .done hs hb hle last (hreq.trans hr) hlast
  | failed hp h => exact .failed (hreq ▸ hp) (hreq ▸ h)

/-- Nothing is kept before the end of the body. -/
theorem Place.last (h : Place W r z c) (hr : r.Fresh) (ho : c.Open) : c.req.last_buf.data = [] := by
  have hlast : (scanHead r z).req.last_buf.data = [] := by
    rw [(scanHead_parses r z).last_buf, hr.last]
  cases h with
  | head h => rwa [h.head] at hlast
  | body hs hb hlt hreq => rw [hreq]; exact hlast
  | done hs hb hle last hreq => rcases ho with ho | ho | ho <;> simp [hreq] at ho
  | failed hp => rcases ho with ho | ho | ho <;> simp [hp] at ho

/-- The bytes in the buffer are counted. -/
theorem Place.count (front : List Byte) (hs : (scanHead r z).status = none)
    (hb : (scanHead r z).req.phase = .body) (hreq : c.req = (scanHead r z).inBody front)
    (hz : z = front ++ c.buf.rest) (hbad : c.buf.bad = false)
    (hcur : c.buf.data_p ≤ c.buf.data.length) (hT : front.length ≤ (scanHead r z).total)
    (hlast : c.req.last_buf.data = []) : Place W r z (cnCountBody c) := by
  have hphase : c.req.phase = .body := by rw [hreq]; exact hb
  obtain ⟨hleft, hopen, hdone⟩ := counted_inBody hb hreq hz hbad hcur hT hlast
  -- What becomes of the request and of the buffer.
  obtain ⟨hreq', hbuf', hstat'⟩ : (cnCountBody c).req = c.counted ∧
      (0 < c.left → (cnCountBody c).buf.bad = false ∧
        (cnCountBody c).buf.data_p ≤ (cnCountBody c).buf.data.length) ∧
      (c.req.type = .static → (cnCountBody c).buf = ⟨[], 0, false⟩) := by
    cases ht : c.req.type with
    | static =>
      rw [cnCountBody_static hphase ht]
      exact ⟨rfl, fun _ => ⟨rfl, le_rfl⟩, fun _ => rfl⟩
    | dynamic =>
      rw [cnCountBody_dynamic hphase ht]
      refine ⟨rfl, fun h0 => ?_, fun h => by simp at h⟩
      dsimp only
      rw [if_neg (by omega)]
      exact ⟨hbad, hcur⟩
  by_cases h0 : 0 < c.left
  · have htype : (cnCountBody c).req.type = c.req.type := by rw [hreq']; rfl
    exact .body hs hb (by omega) (hreq'.trans (hopen h0)) (hbuf' h0) (htype ▸ hstat')
  · obtain ⟨h1, h2⟩ := hdone (by omega)
    exact .done hs hb (by omega) c.counted.last_buf (hreq'.trans h1) h2

/-- The bytes `y` are parsed behind `z`. -/
theorem Place.parse {c₀ : Conn} (hr : r.Fresh) (h : Parsing r z c₀) (hreq : c.req = c₀.req)
    (hbuf : c.buf = ⟨z ++ y, whole LF z, false⟩) (hclean : Clean z y)
    (hW : W → (scanHead r (z ++ y)).status = none) (e : Env) (s : Srv) :
    Place W r (z ++ y) (cnParseReq e lisoConnErr c z.length s).1 := by
  have hsound := scanHead_sound hr.phase (z ++ y)
  have hle := scanHead_used_le r (z ++ y)
  have hwhole := Cut.whole_add_rest LF (z ++ y)
  unfold cnParseReq
  rw [cnParseLines_eq h hreq hbuf hclean]
  cases hstatus : (scanHead r (z ++ y)).status with
  | some st =>
    refine .failed rfl (.inl ⟨fun w => ?_, ?_⟩)
    · have := hW w
      rw [hstatus] at this
      simp at this
    · show (scanHead r (z ++ y)).req.last_buf.data = []
      rw [(scanHead_parses r (z ++ y)).last_buf, hr.last]
  | none =>
    dsimp only
    rcases or_assoc.2 (hsound.phase hstatus) with hphase | hphase
    · have hused := scanHead_used_of_open ⟨hstatus, hphase⟩
      rw [cnCountBody_other (by rcases hphase with h | h <;> simp [h])]
      refine .head ⟨by rw [hused], ?_, hphase⟩
      dsimp only
      rw [← hused, ← hstatus]
    · have hfront : ((z ++ y).take (scanHead r (z ++ y)).used).length =
        (scanHead r (z ++ y)).used := by
        rw [List.length_take]
        omega
      refine Place.count ((z ++ y).take (scanHead r (z ++ y)).used) hstatus hphase
        (Head.inBody_used (hsound.sized hphase) hfront).symm (List.take_append_drop _ _).symm rfl
        (hle.trans (by dsimp only; omega)) ?_ ?_
      · rw [hfront, Head.total]
        exact Nat.le_add_right _ _
      · show (scanHead r (z ++ y)).req.last_buf.data = []
        rw [(scanHead_parses r (z ++ y)).last_buf, hr.last]

/-! ## A part of the stream -/

/-- The rest of a stream begins with its next request. -/
theorem drop_getElem? {k : ℕ} {x : List Byte} (h : rs[k]? = some x) :
    rs.drop k = x :: rs.drop (k + 1) := by
  obtain ⟨hlt, hx⟩ := List.getElem?_eq_some_iff.1 h
  rw [List.drop_eq_getElem_cons hlt, hx]

/-- The parser on what was received since the `k`th request began. -/
theorem stream_scan {k : ℕ} (hr : r.Fresh) (hrs : ∀ x ∈ rs, Framed x)
    (hz : z <+: (rs.drop k).flatten) :
    ((scanHead r z).Open ∧ ∀ x ∈ rs[k]?, z.length < (headOf x).length) ∨
      ∃ x, rs[k]? = some x ∧ scanHead r z = scanHead r x := by
  cases hx : rs[k]? with
  | none =>
    rw [List.getElem?_eq_none_iff] at hx
    rw [List.drop_eq_nil_of_le hx, List.flatten_nil, List.prefix_nil] at hz
    exact .inl ⟨hz ▸ ⟨rfl, .inl hr.phase⟩, by simp⟩
  | some x =>
    rw [drop_getElem? hx, List.flatten_cons] at hz
    rcases (hrs x (List.mem_of_getElem? hx)).scan hz with ⟨ho, -, hlt⟩ | he
    · exact .inl ⟨ho, fun x' hx' => Option.mem_some_iff.1 hx' ▸ hlt⟩
    · exact .inr ⟨x, rfl, he⟩

/-- No line of a head begins with its line feed. -/
theorem stream_clean {k : ℕ} (hrs : ∀ x ∈ rs, Framed x) (hz : z ++ y <+: (rs.drop k).flatten)
    (ho : (scanHead r z).Open) : Clean z y := by
  obtain ⟨w, hw⟩ := hz
  refine clean_of_crlf (z := w) (r := r) ?_ ho
  rw [hw]
  cases hx : rs[k]? with
  | none =>
    rw [List.getElem?_eq_none_iff] at hx
    rw [List.drop_eq_nil_of_le hx]
    exact fun a b hab => by simp [headOf] at hab
  | some x =>
    rw [drop_getElem? hx, List.flatten_cons]
    exact (hrs x (List.mem_of_getElem? hx)).crlf_append _

/-- A request that is complete, and what was received behind it. -/
theorem stream_behind {k : ℕ} (hr : r.Fresh) (hrs : ∀ x ∈ rs, Framed x)
    (hz : z <+: (rs.drop k).flatten) (hs : (scanHead r z).status = none)
    (hb : (scanHead r z).req.phase = .body) (hle : (scanHead r z).total ≤ z.length) :
    ∃ x, rs[k]? = some x ∧ (scanHead r z).total = x.length ∧
      z = x ++ z.drop (scanHead r z).total := by
  rcases stream_scan hr hrs hz with ⟨ho, -⟩ | ⟨x, hx, he⟩
  · rcases ho.2 with ho | ho <;> simp [hb] at ho
  · have htotal := ((hrs x (List.mem_of_getElem? hx)).total hr (he ▸ hs)).2.2
    rw [he] at hle ⊢
    have htotal : (scanHead r x).total = x.length := htotal
    rw [drop_getElem? hx, List.flatten_cons] at hz
    rw [htotal] at hle ⊢
    refine ⟨x, hx, rfl, ?_⟩
    obtain ⟨w, rfl⟩ := List.prefix_of_prefix_length_le (List.prefix_append x _) hz hle
    rw [List.drop_left]

/-- Requests that the grammar accepts are not refused. -/
theorem stream_accepted {k : ℕ} (hr : r.Fresh) (hrs : ∀ x ∈ rs, WellFormed x)
    (hz : z <+: (rs.drop k).flatten) :
    (scanHead r z).status = none := by
  rcases stream_scan hr (fun x hx => (hrs x hx).framed) hz with ⟨ho, -⟩ | ⟨x, hx, he⟩
  · exact ho.1
  · rw [he]
    exact (hrs x (List.mem_of_getElem? hx)).accepted hr

/-! ## The exchanges of a connection -/

/-- What `last_buf` holds is all that was received behind the request under way. -/
def Resumes (rs : List (List Byte)) (c : Conn) : Prop :=
  c.wire.got = (rs.take (c.wire.past.length + 1)).flatten ++ c.req.last_buf.data

/-- `Resumes` is decidable. -/
instance (rs : List (List Byte)) (c : Conn) : Decidable (Resumes rs c) :=
  inferInstanceAs (Decidable (_ = _))

/-- What a connection received, and what became of it. -/
def Conn.intake (c : Conn) : List Byte × List Byte × List Byte × List Exchange :=
  (c.wire.cur.inp, c.wire.got, c.wire.ignored, c.wire.past)

/-- The exchange under way, which has the number `c.wire.past.length`, is about the request with
that number. Under `W` nothing is lost. -/
structure Aligned (W : Prop) (rs : List (List Byte)) (c : Conn) : Prop where
  /-- Where the bytes of the request are. -/
  place : ∃ r : Req, r.Fresh ∧ Place W r c.wire.cur.inp c
  /-- They begin with the request. -/
  begins : c.wire.cur.inp <+: (rs.drop c.wire.past.length).flatten
  /-- They follow the requests before it. -/
  got : W ∨ c.req.phase ≠ .abort → c.wire.got = (rs.take c.wire.past.length).flatten ++
    c.wire.cur.inp
  /-- The client sends the stream. -/
  stream : c.wire.got <+: rs.flatten
  /-- No byte was ignored. -/
  ignored : W → c.wire.ignored = []
  /-- The exchanges that ended were about the requests in their order. -/
  past : ∀ i, ∀ ex ∈ c.wire.past[i]?, ex.inp <+: (rs.drop i).flatten ∧
    (W → ∀ x ∈ rs[i]?, x <+: ex.inp)
  /-- What is kept leaves room in the buffer. -/
  room : c.req.last_buf.data.length < BUFSZ

/-- The alignment depends on the request, on the bytes received, and on the buffer while it is in
use. -/
theorem Aligned.congr (h : Aligned W rs c) (hreq : c'.req = c.req)
    (hbuf : c.Settled ∨ c'.buf = c.buf) (hin : c'.intake = c.intake) : Aligned W rs c' := by
  simp only [Conn.intake, Prod.mk.injEq] at hin
  obtain ⟨hinp, hgot, hign, hpast⟩ := hin
  obtain ⟨r, hr, hplace⟩ := h.place
  constructor
  · exact ⟨r, hr, hinp ▸ hplace.congr hreq hbuf⟩
  · rw [hinp, hpast]; exact h.begins
  · rw [hinp, hgot, hpast, hreq]; exact h.got
  · rw [hgot]; exact h.stream
  · rw [hign]; exact h.ignored
  · rw [hpast]; exact h.past
  · rw [hreq]; exact h.room

/-- A request that is complete, and all that was received behind it. -/
theorem Aligned.complete (hrs : ∀ x ∈ rs, Framed x) (h : Aligned W rs c)
    (hp : c.req.phase = .done ∨ c.req.phase = .abort ∧ W) :
    Resumes rs c ∧ ∃ x, rs[c.wire.past.length]? = some x ∧
      c.wire.cur.inp = x ++ c.req.last_buf.data := by
  obtain ⟨r, hr, hplace⟩ := h.place
  have hgot := h.got (hp.symm.imp And.right fun hp => by simp [hp])
  obtain ⟨hs, hb, hle, hlast⟩ : (scanHead r c.wire.cur.inp).status = none ∧
      (scanHead r c.wire.cur.inp).req.phase = .body ∧
        (scanHead r c.wire.cur.inp).total ≤ c.wire.cur.inp.length ∧
      c.req.last_buf.data = c.wire.cur.inp.drop (scanHead r c.wire.cur.inp).total := by
    cases hplace with
    | head h => have hp' := h.phase; rcases hp' with hp' | hp' <;> simp [hp'] at hp
    | body hs hb hlt hreq =>
      have hp' : c.req.phase = .body := by rw [hreq]; exact hb
      simp [hp'] at hp
    | done hs hb hle last hreq hlast => exact ⟨hs, hb, hle, by rw [hreq]; exact hlast⟩
    | failed hp' hw =>
      have w := (hp.resolve_left fun hp => by simp [hp'] at hp).2
      exact hw.resolve_left fun hno => hno.1 w
  obtain ⟨x, hx, -, hsplit⟩ := stream_behind hr hrs h.begins hs hb hle
  rw [← hlast] at hsplit
  refine ⟨?_, x, hx, hsplit⟩
  calc c.wire.got = (rs.take c.wire.past.length).flatten ++ (x ++ c.req.last_buf.data) := by
        rw [hgot, ← hsplit]
    _ = (rs.take (c.wire.past.length + 1)).flatten ++ c.req.last_buf.data := by
      rw [List.take_add_one, hx, List.flatten_append, List.append_assoc]
      simp

/-- A request that fails leaves its connection in step; under `W` it is complete. -/
theorem Aligned.abort (h : Aligned W rs c) (hW : W → c.req.phase = .done ∨ c.req.phase = .abort)
    (hreq : c'.req = { c.req with phase := .abort }) (hin : c'.intake = c.intake) :
    Aligned W rs c' := by
  simp only [Conn.intake, Prod.mk.injEq] at hin
  obtain ⟨hinp, hgot, hign, hpast⟩ := hin
  obtain ⟨r, hr, hplace⟩ := h.place
  have hlast : c'.req.last_buf = c.req.last_buf := by rw [hreq]
  constructor
  · refine ⟨r, hr, .failed (by rw [hreq]) ?_⟩
    rw [hinp, hlast]
    have hnone : c.Open → ¬ W ∧ c.req.last_buf.data = [] := fun ho =>
      ⟨fun w => by rcases ho with ho | ho | ho <;> simpa [ho] using hW w, hplace.last hr ho⟩
    cases hplace with
    | head h => exact .inl (hnone (h.phase.imp_right .inl))
    | body hs hb hlt hreq' => exact .inl (hnone (.inr (.inr (by rw [hreq']; exact hb))))
    | done hs hb hle last hreq' hlast' => exact .inr ⟨hs, hb, hle, by rw [hreq']; exact hlast'⟩
    | failed _ hw => exact hw
  · rw [hinp, hpast]; exact h.begins
  · rw [hinp, hgot, hpast]
    intro hw
    exact h.got (.inl (hw.resolve_right (by simp [hreq])))
  · rw [hgot]; exact h.stream
  · rw [hign]; exact h.ignored
  · rw [hpast]; exact h.past
  · rw [hlast]; exact h.room

/-! ## The next request -/

/-- `cn_parse_req` adds nothing to the history, and no byte to the buffer. -/
theorem cnParseReq_wire (e : Env) (c : Conn) (n : ℕ) (s : Srv) :
    (cnParseReq e lisoConnErr c n s).1.wire = c.wire ∧
      (cnParseReq e lisoConnErr c n s).1.buf.data.length ≤ c.buf.data.length := by
  have hcount : ∀ c1 : Conn, c1.wire = c.wire → c1.buf.data = c.buf.data →
      (cnCountBody c1).wire = c.wire ∧ (cnCountBody c1).buf.data.length ≤ c.buf.data.length := by
    intro c1 hw hd
    by_cases hb : c1.req.phase = .body
    · cases ht : c1.req.type with
      | static =>
        rw [cnCountBody_static hb ht]
        exact ⟨hw, Nat.zero_le _⟩
      | dynamic =>
        rw [cnCountBody_dynamic hb ht]
        refine ⟨hw, ?_⟩
        dsimp only
        split
        · rw [List.length_take, hd]
          exact Nat.min_le_right _ _
        · rw [hd]
    · rw [cnCountBody_other hb]
      exact ⟨hw, by rw [hd]⟩
  by_cases hp : c.req.phase = .start ∨ c.req.phase = .header
  · rcases cnParseReq_head e c n s hp with ⟨-, he⟩ | ⟨lines, -, -, q, he⟩ | ⟨lines, -, -, he⟩
      <;> rw [he]
    · exact ⟨rfl, le_rfl⟩
    · exact ⟨rfl, le_rfl⟩
    · exact hcount _ rfl rfl
  · rw [cnParseReq_tail e c n s hp]
    exact hcount c rfl rfl

/-- What is kept is shorter than the buffer. -/
theorem Place.room (h : Place W r z c) (hr : r.Fresh)
    (hlen : (scanHead r z).status = none → (scanHead r z).req.phase = .body →
      z.length < (scanHead r z).total + BUFSZ) :
    c.req.last_buf.data.length < BUFSZ := by
  have hnone : c.Open → c.req.last_buf.data.length < BUFSZ := fun ho => by
    rw [h.last hr ho]
    exact (by decide : 0 < BUFSZ)
  cases h with
  | head h => exact hnone (h.phase.imp_right .inl)
  | body hs hb hlt hreq => exact hnone (.inr (.inr (by rw [hreq]; exact hb)))
  | done hs hb hle last hreq hlast =>
    have hlast' : c.req.last_buf = last := by rw [hreq]
    have := hlen hs hb
    rw [hlast', hlast, List.length_drop]
    omega
  | failed hp hw =>
    rcases hw with ⟨-, hnil⟩ | ⟨hs, hb, hle, hlast⟩
    · rw [hnil]
      exact (by decide : 0 < BUFSZ)
    · have := hlen hs hb
      rw [hlast, List.length_drop]
      omega

/-- At rest, the bytes of a body that waits for its CGI leave room in the buffer, and a CGI that is
being fed has all bytes. -/
def Conn.Spare (c : Conn) : Prop :=
  c.Emptied ∧ (c.req.phase = .body → c.buf.data.length < BUFSZ)

/-- The exchanges with the one that ends. -/
theorem Aligned.past_archive (hrs : ∀ x ∈ rs, Framed x) (h : Aligned W rs c)
    (hp : c.req.phase = .done ∨ c.req.phase = .abort) :
    ∀ i, ∀ ex ∈ (c.wire.past ++ [c.wire.cur])[i]?, ex.inp <+: (rs.drop i).flatten ∧
      (W → ∀ x ∈ rs[i]?, x <+: ex.inp) := by
  intro i ex hex
  by_cases hi : i < c.wire.past.length
  · rw [List.getElem?_append_left hi] at hex
    exact h.past i ex hex
  · rw [List.getElem?_append_right (not_lt.1 hi)] at hex
    obtain ⟨hlt, hget⟩ := List.getElem?_eq_some_iff.1 hex
    obtain rfl : i = c.wire.past.length := by
      rw [List.length_singleton] at hlt
      omega
    rw [List.getElem_singleton] at hget
    rw [← hget]
    refine ⟨h.begins, fun w x hx => ?_⟩
    obtain ⟨-, x', hx', hinp⟩ := h.complete hrs (hp.imp_right fun hp => ⟨hp, w⟩)
    rw [Option.mem_def, hx', Option.some.injEq] at hx
    exact ⟨c.req.last_buf.data, by rw [hinp, hx]⟩

/-- The success callback leaves a connection in step: what it takes over is the beginning of the
next request. -/
theorem lisoResetOrClose_aligned (e : Env) (hH : Held False A c s) (hrs : ∀ x ∈ rs, Framed x)
    (hW : W → ∀ x ∈ rs, WellFormed x) (h : Aligned W rs c)
    (hp : c.req.phase = .done ∨ c.req.phase = .abort) (hres : c.req.alive = true → Resumes rs c) :
    (lisoResetOrClose e c s).Post (fun c' _ => Aligned W rs c' ∧ c'.Spare) (fun _ => True) := by
  have hdata : Frame False A (fun _ => True) c s c.archive (s.serve c) := .data id rfl rfl
  have hf := plResetConn_fresh (hdata.held hH)
  have hpast := h.past_archive hrs hp
  have hlen : (c.wire.past ++ [c.wire.cur]).length = c.wire.past.length + 1 := by simp
  have hcalm := lisoResetOrClose_rest (W := False) e hH
  -- What was kept is the rest of what was received.
  have hbegins : c.req.alive = true →
    c.req.last_buf.data <+: (rs.drop (c.wire.past.length + 1)).flatten := by
    intro ha
    have hstream := h.stream
    have hsplit : rs.flatten = (rs.take (c.wire.past.length + 1)).flatten ++
      (rs.drop (c.wire.past.length + 1)).flatten := by
      rw [← List.flatten_append, List.take_append_drop]
    rw [hres ha, hsplit] at hstream
    exact (List.prefix_append_right_inj _).1 hstream
  suffices hnext : (lisoResetOrClose e c s).Post
      (fun c' _ => Aligned W rs c' ∧ c'.buf.data.length < BUFSZ) (fun _ => True) from
    (hnext.and hcalm).mono (fun c' s' h => ⟨h.1.1, fun _ hg => by
      rcases h.2.2.1 with h' | h' | h' <;> simp [h'] at hg, fun _ => h.1.2⟩) fun _ h => h.1
  rcases lisoResetOrClose_cases e c s with ⟨-, he⟩ | ⟨ha, hz, he⟩ | ⟨ha, -, he⟩ <;> rw [he]
  · exact lisoDropConn_gone hH.idx
  · -- Nothing was kept.
    have hnil : c.req.last_buf.data = [] := by
      unfold Buf.sz at hz
      split at hz
      · simp at hz
      · exact List.eq_nil_of_length_eq_zero (by omega)
    refine (Ret.post_some _ _).2
      ⟨⟨⟨reqReset c.req, .of_reset _ rfl hnil, .head ⟨rfl, rfl, .inl rfl⟩⟩,
        List.nil_prefix, fun _ => ?_,
      h.stream, h.ignored, hpast, h.room⟩, (by decide : 0 < BUFSZ)⟩
    show c.wire.got = (rs.take (c.wire.past ++ [c.wire.cur]).length).flatten ++ []
    rw [hlen, hres ha, hnil]
  · refine (Ret.post_some _ _).2 ?_
    rw [handOver_conn]
    generalize hc₁ : (plResetConn (s.serve c) c.archive).1.handed = c₁
    -- The parser finds what was kept in the buffer, and nothing was parsed yet.
    have hinp : c₁.wire.cur.inp = c.req.last_buf.data := by rw [← hc₁]; rfl
    have hwire : c₁.wire.got = c.wire.got ∧ c₁.wire.ignored = c.wire.ignored ∧
        c₁.wire.past = c.wire.past ++ [c.wire.cur] := by
      rw [← hc₁]
      exact ⟨rfl, rfl, rfl⟩
    have hbuf : c₁.buf = ⟨c.req.last_buf.data, 0, false⟩ := by rw [← hc₁]; rfl
    have hr : c₁.req.Fresh := by
      rw [← hc₁]
      exact .of_reset { c.req with last_buf := bufReset c.req.last_buf } rfl rfl
    have hstart : Parsing c₁.req [] { c₁ with buf := ⟨[], 0, false⟩ } := ⟨rfl, rfl, .inl hr.phase⟩
    have hplace :
      Place W c₁.req ([] ++ c.req.last_buf.data)
        (cnParseReq e lisoConnErr c₁ ([] : List Byte).length _).1 :=
      .parse (c := c₁) hr hstart rfl hbuf (stream_clean hrs (hbegins ha) hstart.open)
        (fun w => stream_accepted hr (hW w) (hbegins ha)) e (plResetConn (s.serve c) c.archive).2
    obtain ⟨hw, hle⟩ :=
      cnParseReq_wire e c₁ ([] : List Byte).length (plResetConn (s.serve c) c.archive).2
    rw [List.nil_append] at hplace
    rw [List.length_nil] at hplace hw hle
    generalize (cnParseReq e lisoConnErr c₁ 0 (plResetConn (s.serve c) c.archive).2).1 =
      c₂ at hplace hw hle
    rw [hbuf] at hle
    refine ⟨⟨⟨c₁.req, hr, ?_⟩, ?_, fun _ => ?_, ?_, ?_, ?_, hplace.room hr fun _ _ => ?_⟩, ?_⟩
    · rw [hw, hinp]; exact hplace
    · rw [hw, hinp, hwire.2.2, hlen]; exact hbegins ha
    · rw [hw, hinp, hwire.1, hwire.2.2, hlen]; exact hres ha
    · rw [hw, hwire.1]; exact h.stream
    · rw [hw, hwire.2.1]; exact h.ignored
    · rw [hw, hwire.2.2]; exact hpast
    · have := h.room
      omega
    · exact lt_of_le_of_lt hle h.room

/-! ## Receiving -/

/-- What the section `recv` adds to the bytes received. -/
theorem stepRecv_got (e : Env) (h : c.idx < s.pool.conns.length) :
    (stepRecv e c s).Post (fun c' _ => c'.wire.got = c.wire.got ∨ c.fd ∈ s.pool.read_ready ∧
      ∃ data, (∃ bytes ∈ e.recv, data <+: bytes) ∧ data ≠ [] ∧
        c'.wire.got = c.wire.got ++ data) (fun _ => True) := by
  -- `recv_ignore` notes what it throws away, too.
  have hignore : ∀ (c₁ : Conn) (s₁ : Srv), c₁.idx < s₁.pool.conns.length →
      (recvIgnore e lisoDropConn c₁ s₁).Post (fun c' _ => ∃ data,
        (∃ bytes ∈ e.recv, data <+: bytes) ∧ data ≠ [] ∧
        c'.wire.got = c₁.wire.got ++ data) (fun _ => True) := by
    intro c₁ s₁ h₁
    unfold recvIgnore
    split
    · exact lisoDropConn_gone h₁
    · rename_i data hdata
      obtain ⟨bytes, hbytes, rfl⟩ := Option.map_eq_some_iff.1 hdata
      dsimp only
      split
      · exact lisoDropConn_gone h₁
      · rename_i hne
        exact (Ret.post_some _ _).2 ⟨_, ⟨bytes, hbytes, List.take_prefix _ _⟩, hne, rfl⟩
  unfold stepRecv
  dsimp only
  split
  case isFalse => exact (Ret.post_some _ _).2 (.inl rfl)
  rename_i hready
  have hready : c.fd ∈ s.pool.read_ready := of_decide_eq_true hready
  have h' : c.idx < ((s.probe c.fd).act c.fd).pool.conns.length := h
  generalize (s.probe c.fd).act c.fd = s₁ at h'
  unfold cnRecv
  split
  · split
    · exact lisoDropConn_gone h'
    split
    · exact (Ret.post_some _ _).2 (.inl rfl)
    · exact (Ret.post_some _ _).2 (.inl rfl)
  split
  · exact (hignore c s₁ h').mono (fun _ _ h => .inr ⟨hready, h⟩) fun _ h => h
  dsimp only
  split
  · exact (hignore (lisoConnErr c 400 s₁).1 (lisoConnErr c 400 s₁).2 h').mono
      (fun _ _ h => .inr ⟨hready, h⟩) fun _ h => h
  split
  · exact lisoDropConn_gone h'
  · rename_i data hdata
    obtain ⟨bytes, hbytes, rfl⟩ := Option.map_eq_some_iff.1 hdata
    split
    · exact lisoDropConn_gone h'
    · rename_i hne
      refine (Ret.post_some _ _).2
        (.inr ⟨hready, _, ⟨bytes, hbytes, List.take_prefix _ _⟩, hne, ?_⟩)
      rw [(cnParseReq_wire e _ _ _).1]

/-- What the client of the connection sends is the stream. -/
def Sends (rs : List (List Byte)) (e : Env) (c : Conn) (s : Srv) : Prop :=
  c.fd ∈ s.pool.read_ready → ∀ bytes ∈ e.recv, c.wire.got ++ bytes <+: rs.flatten

/-- `Sends` is decidable. -/
instance (rs : List (List Byte)) (c : Conn) (s : Srv) : Decidable (Sends rs e c s) :=
  inferInstanceAs (Decidable (_ → ∀ bytes ∈ e.recv, _))

/-- Nothing is received on a connection whose request failed. -/
def Hushed (e : Env) (c : Conn) (s : Srv) : Prop :=
  c.req.phase = .abort → c.fd ∈ s.pool.read_ready → ∀ bytes ∈ e.recv, bytes = []

/-- `Hushed` is decidable. -/
instance (c : Conn) (s : Srv) : Decidable (Hushed e c s) :=
  inferInstanceAs (Decidable (_ → _ → ∀ bytes ∈ e.recv, _))

/-- More bytes of the stream go on with the request under way. -/
theorem Aligned.extends_ {data : List Byte} (h : Aligned W rs c) (hna : c.req.phase ≠ .abort)
    (hstream : c.wire.got ++ data <+: rs.flatten) :
    c.wire.cur.inp ++ data <+: (rs.drop c.wire.past.length).flatten := by
  have hsplit : rs.flatten = (rs.take c.wire.past.length).flatten ++
    (rs.drop c.wire.past.length).flatten := by
    rw [← List.flatten_append, List.take_append_drop]
  rw [h.got (.inr hna), hsplit, List.append_assoc] at hstream
  exact (List.prefix_append_right_inj _).1 hstream

/-- The exchange under way stays in step when it has more bytes of the stream, once they are in
their place. -/
theorem Aligned.received {data : List Byte} (h : Aligned W rs c) (hna : c.req.phase ≠ .abort)
    (hstream : c.wire.got ++ data <+: rs.flatten) (hwire : c'.wire = (c.received data).wire)
    (hr : r.Fresh) (hplace : Place W r (c.wire.cur.inp ++ data) c')
    (hlen : (scanHead r (c.wire.cur.inp ++ data)).status = none →
      (scanHead r (c.wire.cur.inp ++ data)).req.phase = .body →
        (c.wire.cur.inp ++ data).length < (scanHead r (c.wire.cur.inp ++ data)).total + BUFSZ) :
    Aligned W rs c' := by
  have hgot := h.got (.inr hna)
  have hinp : c'.wire.cur.inp = c.wire.cur.inp ++ data := by rw [hwire]; rfl
  have hgot' : c'.wire.got = c.wire.got ++ data := by rw [hwire]; rfl
  have hpast : c'.wire.past = c.wire.past := by rw [hwire]; rfl
  constructor
  · exact ⟨r, hr, hinp ▸ hplace⟩
  · rw [hinp, hpast]
    exact h.extends_ hna hstream
  · intro _
    rw [hgot', hpast, hinp, hgot, List.append_assoc]
  · exact hgot' ▸ hstream
  · have hign : c'.wire.ignored = c.wire.ignored := by rw [hwire]; rfl
    exact hign ▸ h.ignored
  · exact hpast ▸ h.past
  · exact hplace.room hr hlen

/-- A request has a byte. -/
theorem Framed.pos {x : List Byte} (h : Framed x) : 0 < x.length := by
  have hlast := h.headed.head.2.2.2
  have hle := headOf_length_le x
  have hne : headOf x ≠ [] := fun hnil => by simp [hnil] at hlast
  have := List.length_pos_of_ne_nil hne
  omega

/-- The buffer is not full while a request is received whose head fits into it. -/
theorem Aligned.not_full (hrs : ∀ x ∈ rs, Framed x) (hfits : ∀ x ∈ rs, (headOf x).length ≤ BUFSZ)
    (h : Aligned W rs c) (hsp : c.Spare) (ho : c.Open) : c.buf.sz < BUFSZ := by
  obtain ⟨r, hr, hplace⟩ := h.place
  cases hplace with
  | head hz =>
    have hsz : c.buf.sz = c.wire.cur.inp.length := by rw [hz.buf]; rfl
    rw [hsz, Nat.cast_lt]
    rcases stream_scan hr hrs h.begins with ⟨-, hlt⟩ | ⟨x, hx, he⟩
    · cases hx : rs[c.wire.past.length]? with
      | none =>
        have hnil := h.begins
        rw [List.drop_eq_nil_of_le (List.getElem?_eq_none_iff.1 hx),
          List.flatten_nil, List.prefix_nil] at hnil
        rw [hnil]
        decide
      | some x => exact (hlt x hx).trans_le (hfits x (List.mem_of_getElem? hx))
    · exact absurd (he ▸ hz.open) ((hrs x (List.mem_of_getElem? hx)).closed r)
  | body hs hb hlt hreq hbuf =>
    have hp : c.req.phase = .body := by rw [hreq]; exact hb
    rw [Buf.sz, hbuf.1]
    exact Nat.cast_lt.2 (hsp.2 hp)
  | done hs hb hle last hreq => rcases ho with ho | ho | ho <;> simp [hreq] at ho
  | failed hp => rcases ho with ho | ho | ho <;> simp [hp] at ho

/-- The bytes that `recv_ignore` takes behind a request that failed change nothing; under `W` there
are none. -/
theorem Aligned.ignore {data : List Byte} (h : Aligned W rs c) (hp : c.req.phase = .abort)
    (hnil : W → data = []) (hstream : (c.overwritten data).wire.got <+: rs.flatten) :
    Aligned W rs (c.overwritten data) := by
  obtain ⟨r, hr, hplace⟩ := h.place
  refine ⟨⟨r, hr, hplace.congr rfl (.inl (.inr hp))⟩, h.begins, fun hw => ?_, hstream,
    fun w => ?_, h.past, h.room⟩
  · have w := hw.resolve_right fun hna => hna hp
    show c.wire.got ++ data = _
    rw [hnil w, List.append_nil]
    exact h.got (.inl w)
  · show c.wire.ignored ++ data = []
    rw [hnil w, h.ignored w]
    rfl

/-- A request that does not fit into the buffer fails; under `W` each fits. -/
theorem Aligned.fill {data : List Byte} (h : Aligned W rs c) (ho : c.Open) (hno : ¬ W) (s : Srv)
    (hstream : ((lisoConnErr c 400 s).1.overwritten data).wire.got <+: rs.flatten) :
    Aligned W rs ((lisoConnErr c 400 s).1.overwritten data) := by
  obtain ⟨r, hr, hplace⟩ := h.place
  exact ⟨⟨r, hr, .failed rfl (.inl ⟨hno, hplace.last hr ho⟩)⟩, h.begins,
    fun hw => absurd rfl (hw.resolve_left hno), hstream, fun w => absurd w hno, h.past, h.room⟩

/-- A chunk that is received inside a head, or with the first bytes behind it. -/
theorem Aligned.parse_head {data : List Byte} (h : Aligned W rs c) (hrs : ∀ x ∈ rs, Framed x)
    (hW : W → ∀ x ∈ rs, WellFormed x) (hp : c.req.phase ≠ .abort) (hr : r.Fresh)
    (hz : Parsing r c.wire.cur.inp c) (hfit : (data.length : ℤ) ≤ BUFSZ - c.buf.sz)
    (hstream : c.wire.got ++ data <+: rs.flatten) (e : Env) (s : Srv) :
    Aligned W rs (cnParseReq e lisoConnErr (c.received data) c.buf.data.length s).1 := by
  obtain ⟨hwire, -⟩ := cnParseReq_wire e (c.received data) c.buf.data.length s
  have hbegins := h.extends_ hp hstream
  have hbuf :
    (c.received data).buf = ⟨c.wire.cur.inp ++ data, whole LF c.wire.cur.inp, false⟩ := by
    simp only [Conn.received, hz.buf]
  have hlen : c.buf.data.length = c.wire.cur.inp.length := by rw [hz.buf]
  have hsz : c.buf.sz = c.wire.cur.inp.length := by rw [hz.buf]; rfl
  refine h.received hp hstream hwire hr ?_ fun hs hb => ?_
  · rw [hlen]
    exact Place.parse (c := c.received data) hr hz rfl hbuf (stream_clean hrs hbegins hz.open)
      (fun w => stream_accepted hr (hW w) hbegins) e s
  · -- The head and the bytes behind it are in the buffer.
    rw [List.length_append]
    rcases stream_scan hr hrs hbegins with ⟨ho, -⟩ | ⟨x, hx, he⟩
    · rcases ho.2 with ho | ho <;> simp [hb] at ho
    · have hx' := hrs x (List.mem_of_getElem? hx)
      have htotal : (scanHead r x).total = x.length := (hx'.total hr (he ▸ hs)).2.2
      have := hx'.pos
      rw [he]
      omega

/-- A chunk that is received inside a body, when no bytes of the body wait in the buffer. -/
theorem Aligned.parse_body {data : List Byte} (h : Aligned W rs c) (hp : c.req.phase = .body)
    (hrest : c.buf.rest = []) (hfit : (data.length : ℤ) ≤ BUFSZ - c.buf.sz)
    (hstream : c.wire.got ++ data <+: rs.flatten) (e : Env) (s : Srv) :
    Aligned W rs (cnParseReq e lisoConnErr (c.received data) c.buf.data.length s).1 := by
  have hna : c.req.phase ≠ .abort := by simp [hp]
  obtain ⟨hwire, -⟩ := cnParseReq_wire e (c.received data) c.buf.data.length s
  have htail : cnParseReq e lisoConnErr (c.received data) c.buf.data.length s =
    (cnCountBody (c.received data), s) := by
    have hp' : (c.received data).req.phase = .body := hp
    rw [cnParseReq_tail e _ _ _ (by simp [hp'])]
  rw [htail] at hwire ⊢
  obtain ⟨r, hr, hplace⟩ := h.place
  have hlast := hplace.last hr (.inr (.inr hp))
  cases hplace with
  | head hz => rcases hz.phase with ho | ho <;> simp [hp] at ho
  | body hs hb hlt hreq hbuf =>
    have hclosed : ¬ (scanHead r c.wire.cur.inp).Open := fun ho => by simp [Head.Open, hb] at ho
    have hscan := scanHead_closed hclosed data
    refine h.received hna hstream hwire hr ?_ fun _ _ => ?_
    · refine Place.count c.wire.cur.inp (by rw [hscan]; exact hs) (by rw [hscan]; exact hb)
        (by rw [hscan]; exact hreq) ?_ hbuf.1 ?_ (by rw [hscan]; exact hlt.le) hlast
      · show c.wire.cur.inp ++ data = c.wire.cur.inp ++ (c.buf.data ++ data).drop c.buf.data_p
        rw [List.drop_append_of_le_length hbuf.2]
        show _ = _ ++ (c.buf.rest ++ data)
        rw [hrest, List.nil_append]
      · show c.buf.data_p ≤ (c.buf.data ++ data).length
        rw [List.length_append]
        exact le_add_right hbuf.2
    · have hsz : 0 ≤ c.buf.sz := by rw [Buf.sz, hbuf.1]; simp
      rw [hscan, List.length_append]
      omega
  | done hs hb hle last hreq => simp [hreq] at hp
  | failed hp' => exact absurd hp' hna

/-- While a body is received, the buffer is empty behind the cursor, unless its bytes wait for the
start of the CGI. -/
theorem Aligned.body_rest (h : Aligned W rs c) (hs : Shape c) (hsp : c.Spare)
    (hp : c.req.phase = .body)
    (hg : c.req.type = .dynamic → c.cgi.phase = .ready → c.buf.rest = []) :
    c.buf.rest = [] := by
  cases hs with
  | bodyStatic _ ht =>
    obtain ⟨r, hr, hplace⟩ := h.place
    cases hplace with
    | head hz => rcases hz.phase with ho | ho <;> simp [hp] at ho
    | body hs hb hlt hreq hbuf hstat => rw [Buf.rest, hstat ht, List.drop_nil]
    | done hs hb hle last hreq => simp [hreq] at hp
    | failed hp' => simp [hp] at hp'
  | bodyReady _ ht hg' => exact hg ht hg'
  | bodyStream _ ht hg' => exact hsp.1 hp hg'
  | head hp' => rcases hp' with hp' | hp' <;> simp [hp] at hp'
  | doneStatic hp' | doneReady hp' | doneStream hp' | relay hp' | relayEnd hp'
  | abort hp' => simp [hp] at hp'

/-- What the section `recv` takes from the socket leaves a connection in step with its stream. -/
theorem Receipt.aligned (hreceipt : Receipt e c s c')
    (harrived : c'.wire.got = c.wire.got ∨ c.fd ∈ s.pool.read_ready ∧
      ∃ data, (∃ bytes ∈ e.recv, data <+: bytes) ∧ data ≠ [] ∧ c'.wire.got = c.wire.got ++ data)
    (hrs : ∀ x ∈ rs, Framed x) (hW : W → ∀ x ∈ rs, WellFormed x) (h : Aligned W rs c)
    (hs : Shape c) (hsp : c.Spare) (hsend : Sends rs e c s) (hd : Drained e c s)
    (hh : W → Hushed e c s) (hdone : c.req.phase ≠ .done) :
    Aligned W rs c' := by
  -- All bytes received are of the stream.
  have hstream : c'.wire.got <+: rs.flatten := by
    rcases harrived with he | ⟨hready, data, ⟨bytes, hbytes, hpre⟩, -, he⟩ <;> rw [he]
    · exact h.stream
    · exact ((List.prefix_append_right_inj _).2 hpre).trans (hsend hready bytes hbytes)
  cases hreceipt with
  | idle hc => exact hc ▸ h
  | handshake _ hc => exact hc ▸ h.congr rfl (.inr rfl) rfl
  | ignored data hp hc =>
    subst hc
    refine h.ignore hp (fun w => ?_) hstream
    rcases harrived with he | ⟨hready, data', ⟨bytes, hbytes, hpre⟩, hne, -⟩
    · exact List.append_right_eq_self.1 he
    · rw [hh w hp hready bytes hbytes] at hpre
      exact absurd (List.prefix_nil.1 hpre) hne
  | full data bytes hready hp hfull hsome hne hc =>
    subst hc
    have ho := c.open_of hp hdone
    exact h.fill ho (fun w => absurd hfull
      (not_le.2 (h.not_full hrs (fun x hx => (hW w x hx).fits) hsp ho))) s hstream
  | parsed data bytes hready hp hfit hsome hpre hne hc =>
    obtain ⟨s', rfl⟩ := hc
    have hstream' : c.wire.got ++ data <+: rs.flatten :=
      ((List.prefix_append_right_inj _).2 hpre).trans (hsend hready bytes hsome)
    obtain ⟨r, hr, hplace⟩ := h.place
    cases hplace with
    | head hz => exact h.parse_head hrs hW hp hr hz hfit hstream' e s'
    | body hs' hb hlt hreq =>
      have hpb : c.req.phase = .body := by rw [hreq]; exact hb
      refine h.parse_body hpb (h.body_rest hs hsp hpb fun ht hg => ?_) hfit hstream' e s'
      -- Bytes of the body that still waited would be counted twice.
      by_contra hrest
      rw [hd hpb hg hrest hready bytes hsome] at hpre
      exact hne (List.prefix_nil.1 hpre)
    | done hs' hb hle last hreq => exact absurd (by rw [hreq]) hdone
    | failed hp' => exact absurd hp' hp

/-! ## The transitions and the streaming -/

/-- The CGI of a request is started, and takes what it is offered. -/
def CgiServes (conf : Conf) (e : Env) (c : Conn) (s : Srv) : Prop :=
  ∀ p ∈ beforeStream conf e c s, p.1.cgi.phase ≠ .abort ∧ (p.1.Offers → (p.1.writes e).1 = true)

/-- `CgiServes` is decidable. -/
instance (c : Conn) (s : Srv) : Decidable (CgiServes conf e c s) :=
  inferInstanceAs (Decidable (∀ p ∈ beforeStream conf e c s, _ ∧ (_ → _)))

/-- The preparation of a response leaves a connection in step. -/
theorem stepPrepare_aligned (conf : Conf) (e : Env) (s : Srv) (h : Aligned W rs c) :
    Aligned W rs (stepPrepare conf e c s).1 := by
  unfold stepPrepare
  split
  case isFalse => exact h
  rename_i hcond
  have hp : c.req.phase = .done := hcond.2.1
  unfold cnPrepareStaticHeader
  dsimp only
  split
  · exact h.abort (fun _ => .inl hp) rfl rfl
  · exact h.congr rfl (.inl (.inl hp)) rfl

/-- The start of a CGI leaves a connection in step; under `W` it does not fail. -/
theorem stepInitCgi_aligned (e : Env) (s : Srv) (h : Aligned W rs c)
    (hcgi : W → (stepInitCgi e c s).1.cgi.phase ≠ .abort) : Aligned W rs (stepInitCgi e c s).1 := by
  rcases stepInitCgi_cases e c s with ⟨-, he⟩ | ⟨-, -, -, he⟩ | ⟨-, -, -, he⟩ <;> rw [he] at hcgi ⊢
  · exact h
  · exact h.congr rfl (.inr rfl) rfl
  · exact h.abort (fun w => absurd rfl (hcgi w)) rfl rfl

/-- The streaming to the CGI leaves a connection in step; under `W` the CGI takes what it is
offered. -/
theorem stepStream_aligned (e : Env) (s : Srv) (h : Aligned W rs c) (hs : Shape c)
    (hready : ¬ (c.req.type = .dynamic ∧ c.cgi.phase = .ready))
    (hcgi : W → c.Offers → (c.writes e).1 = true) :
    Aligned W rs (stepStream e c s).1 ∧ (stepStream e c s).1.Spare := by
  rcases stepStream_cases e c s with ⟨hno, he⟩ | ⟨ht, hg, hfail, he⟩ | ⟨ht, hg, -, hp, he⟩
    | ⟨-, -, -, hp, he⟩ <;> rw [he]
  · -- Only the body of a static request is still received, and it waits nowhere.
    have hstatic : c.req.phase = .body → c.req.type = .static := by
      intro hb
      cases hs with
      | bodyStatic _ ht => exact ht
      | bodyReady _ ht hg => exact absurd ⟨ht, hg⟩ hready
      | bodyStream _ ht hg => exact absurd ⟨ht, hg⟩ hno
      | head hp => rcases hp with hp | hp <;> simp [hb] at hp
      | doneStatic hp | doneReady hp | doneStream hp | relay hp | relayEnd hp
      | abort hp => simp [hb] at hp
    have hbuf : c.req.phase = .body → c.buf = ⟨[], 0, false⟩ := by
      intro hb
      obtain ⟨r, -, hplace⟩ := h.place
      cases hplace with
      | head hz => have hp := hz.phase; rcases hp with hp | hp <;> simp [hb] at hp
      | body _ _ _ _ _ hstat => exact hstat (hstatic hb)
      | done _ _ _ _ hreq => simp [hreq] at hb
      | failed hp => simp [hb] at hp
    refine ⟨h, fun hb hg => ?_, fun hb => ?_⟩
    · rw [Buf.rest, hbuf hb]
      rfl
    · rw [hbuf hb]
      exact (by decide : 0 < BUFSZ)
  · refine ⟨h.abort (fun w => ?_) rfl rfl, fun hb => by simp [lisoConnErr] at hb,
      fun hb => by simp [lisoConnErr] at hb⟩
    -- A failed write was offered a byte.
    have hoffers : c.Offers := by
      refine ⟨ht, hg, ?_⟩
      by_contra hle
      have hzero : c.buf.rsize.toNat = 0 := by omega
      rw [Conn.writes, hzero] at hfail
      simp [writeLoop] at hfail
    rw [hcgi w hoffers] at hfail
    simp at hfail
  · refine ⟨?_, fun _ _ => rfl, fun _ => (by decide : 0 < BUFSZ)⟩
    obtain ⟨r, hr, hplace⟩ := h.place
    refine ⟨⟨r, hr, ?_⟩, h.begins, h.got, h.stream, h.ignored, h.past, h.room⟩
    cases hplace with
    | head hz =>
      cases hs with
      | head _ hg' => simp [hg] at hg'
      | bodyStatic hp' | bodyReady hp' | bodyStream hp' | doneStatic hp' | doneReady hp'
      | doneStream hp' | relay hp'
      | relayEnd hp' | abort hp' =>
        have hp := hz.phase
        rcases hp with hp | hp <;> simp [hp'] at hp
    | body hs hb hlt hreq => exact .body hs hb hlt hreq ⟨rfl, le_rfl⟩ fun _ => rfl
    | done hs hb hle last hreq => exact absurd (by rw [hreq]) hp
    | failed hp hw => exact .failed hp hw
  · exact ⟨h.congr rfl (.inl (.inl hp)) rfl, fun hb => by
      have hb : c.req.phase = .body := hb
      simp [hp] at hb, fun hb => by
      have hb : c.req.phase = .body := hb
      simp [hp] at hb⟩

/-- The sections between the receipt and the serving. -/
theorem stepMiddle_aligned (conf : Conf) (e : Env) (hR : Recvd False c s) (h : Aligned W rs c)
    (hcgi : W → (stepTransit conf e c s).1.cgi.phase ≠ .abort ∧
      ((stepTransit conf e c s).1.Offers → ((stepTransit conf e c s).1.writes e).1 = true)) :
    Aligned W rs (stepMiddle conf e c s).1 ∧ (stepMiddle conf e c s).1.Spare := by
  have hprep := stepPrepare_recvd conf e (stepLogerr_recvd hR)
  have hinit := (stepInitCgi_recvd e hprep).1
  have h1 := stepPrepare_aligned conf e (stepLogerr c s) h
  rw [stepMiddle_eq_transit]
  unfold stepTransit at hcgi ⊢
  generalize stepPrepare conf e c (stepLogerr c s) = q at *
  -- A CGI that was ready is started, or the request fails.
  have hready : ¬ ((stepInitCgi e q.1 q.2).1.req.type = .dynamic ∧
    (stepInitCgi e q.1 q.2).1.cgi.phase = .ready) := by
    rcases stepInitCgi_cases e q.1 q.2 with ⟨hno, he⟩ | ⟨-, -, -, he⟩ | ⟨-, -, -, he⟩ <;> rw [he]
    · exact hno
    · simp
    · simp [lisoConnErr]
  exact stepStream_aligned e _ (stepInitCgi_aligned e q.2 h1 fun w => (hcgi w).1) hinit.shape hready
    fun w => (hcgi w).2

/-! ## The serving -/

/-- The reading of a CGI's output leaves a connection in step, with room in its buffer. -/
theorem stepFromCgi_aligned (e : Env) (s : Srv) (hs : Shape c) (h : Aligned W rs c ∧ c.Spare) :
    Aligned W rs (stepFromCgi e c s).1 ∧ (stepFromCgi e c s).1.Spare := by
  rcases stepFromCgi_cases e c s with ⟨s', he, -⟩ | ⟨d, -, -, hg, -, hout⟩
  · rw [he]; exact h
  have hp : c.req.phase = .done := by
    cases hs with
    | relay hp => exact hp
    | abort _ _ _ hg' => exact absurd hg hg'
    | head _ hg' | bodyStatic _ _ hg' | bodyReady _ _ hg' | bodyStream _ _ hg' | doneStatic _ _ hg'
    | doneReady _ _ hg'
    | doneStream _ _ hg' | relayEnd _ _ hg' => simp [hg] at hg'
  have hspare : ∀ c' : Conn, c'.req.phase ≠ .body → c'.Spare := fun c' hc' =>
    ⟨fun hb => absurd hb hc', fun hb => absurd hb hc'⟩
  rcases hout with ⟨-, he⟩ | ⟨data, -, -, he⟩ | ⟨-, he⟩ <;> rw [he]
  · exact ⟨h.1.abort (fun _ => .inl hp) rfl rfl, hspare _ (by simp [lisoConnErr])⟩
  · exact ⟨h.1.congr rfl (.inl (.inl hp)) rfl, hspare _ (by simp [Conn.fed, hp])⟩
  · exact ⟨h.1.congr rfl (.inl (.inl hp)) rfl, hspare _ (by simp [Conn.fed, hp])⟩

/-- The sending of a CGI's output. -/
theorem stepToClient_aligned (e : Env) (h0 : 0 < c.fd) (hH : Held False A c s) (hs : Shape c)
    (hrs : ∀ x ∈ rs, Framed x) (hW : W → ∀ x ∈ rs, WellFormed x) (h : Aligned W rs c ∧ c.Spare) :
    (stepToClient e c s).Post (fun c' _ => Aligned W rs c' ∧ c'.Spare) (fun _ => True) := by
  have hH' := hH.acted c.fd
  rcases stepToClient_cases e c s h0 with ⟨-, he⟩ | ⟨-, hb, hout⟩
  · rw [he]
    exact (Ret.post_some _ _).2 h
  obtain ⟨hp, -⟩ := hs.of_send hb
  rcases hout with ⟨-, -, he⟩ | ⟨-, ⟨-, he⟩ | ⟨-, he⟩⟩ <;> rw [he]
  · refine (lisoResetOrClose_aligned e hH' hrs hW h.1 (.inl hp)
      fun _ => (h.1.complete hrs (.inl hp)).1).andThen
      fun c1 _ h1 => ?_
    split
    · exact (Ret.post_some _ _).2 h1
    · exact (Ret.post_some _ _).2 h1
  · exact (lisoDropConn_post (c := c) hH'.idx).mono (fun _ _ h => h) fun _ _ => trivial
  · refine (Ret.post_some _ _).2 ⟨h.1.congr rfl (.inr rfl) rfl, fun hb => ?_, fun hb => ?_⟩ <;>
      (have hb : c.req.phase = .body := hb
       simp [hp] at hb)

/-- The page of a failed request is taken whole, and the connection is kept. -/
def Conn.Answered (conf : Conf) (e : Env) (c : Conn) (s : Srv) : Prop :=
  c.req.phase = .abort ∧ c.req.alive = true ∧ c.fd ∈ s.pool.write_ready ∧
    ((c.page conf e).length : ℤ) ≤ e.send_static

/-- `Conn.Answered` is decidable. -/
instance (c : Conn) (s : Srv) : Decidable (c.Answered conf e s) :=
  inferInstanceAs (Decidable (_ ∧ _ ∧ _ ∧ _))

/-- The last section, on a failed request: the connection waits, is dropped, or is reset behind the
page. -/
theorem stepStatic_page (conf : Conf) (e : Env) (c : Conn) (s : Srv) (hr : c.resp.phase = .abort) :
    (∃ c' s', (c' = c ∨ c.Sent c') ∧ stepStatic conf e c s = ⟨1, some c', s'⟩) ∨
      (∃ c', stepStatic conf e c s = lisoDropConn c' ((s.probe c.fd).act c.fd) ∧ c'.idx = c.idx) ∨
      (c.fd ∈ s.pool.write_ready ∧ ((c.page conf e).length : ℤ) ≤ e.send_static ∧
        ∃ c', c.Sent c' ∧
          stepStatic conf e c s = lisoResetOrClose e c' ((s.probe c.fd).act c.fd)) := by
  unfold stepStatic
  dsimp only
  split
  case isFalse => exact .inl ⟨c, _, .inl rfl, rfl⟩
  rename_i hcond
  have hready : c.fd ∈ s.pool.write_ready := of_decide_eq_true hcond.1
  have hserve : cnServeStatic conf e (lisoResetOrClose e) lisoDropConn c ((s.probe c.fd).act c.fd) =
      cnSendErrorPage conf e (lisoResetOrClose e) lisoDropConn c ((s.probe c.fd).act c.fd) := by
    unfold cnServeStatic
    rw [hr]
  rw [hserve]
  generalize (s.probe c.fd).act c.fd = s₁
  unfold cnSendErrorPage smartSend
  dsimp only
  split
  · exact .inr (.inl ⟨_, rfl, rfl⟩)
  rename_i hrc
  -- The page is offered from its start.
  have hrest : (Buf.rest { bufReset c.buf with data := c.page conf e }).length =
    (c.page conf e).length := by
    simp [Buf.rest, bufReset]
  split
  · rename_i hend
    refine .inr (.inr ⟨hready, ?_, _, ⟨_, _, _, rfl⟩, rfl⟩)
    change Buf.rsize { Buf.mk (c.page conf e) 0 false with
      data_p :=
        0 + (min e.send_static
          (Buf.rest { bufReset c.buf with data := c.page conf e }).length).toNat } ≤ 0 at hend
    change ¬ min e.send_static (Buf.rest { bufReset c.buf with data := c.page conf e }).length ≤
      0 at hrc
    rw [hrest] at hend hrc
    simp only [Buf.rsize, Buf.sz] at hend
    rw [if_neg (by simp)] at hend
    push_cast at hend
    omega
  · exact .inl ⟨_, _, .inr ⟨_, _, _, rfl⟩, rfl⟩

/-- The section that serves files and pages leaves a connection in step with its stream. -/
theorem stepStatic_aligned (conf : Conf) (e : Env) (hH : Held False A c s) (hs : Shape c)
    (hrs : ∀ x ∈ rs, Framed x) (hW : W → ∀ x ∈ rs, WellFormed x) (h : Aligned W rs c ∧ c.Spare)
    (hres : c.Answered conf e s → W ∨ Resumes rs c) :
    (stepStatic conf e c s).Post (fun c' _ => Aligned W rs c' ∧ c'.Spare) (fun _ => True) := by
  have hH₁ := hH.acted c.fd
  -- What a send changes.
  have hsent : ∀ c' : Conn, c.Sent c' → c.Settled →
      Held False A c' ((s.probe c.fd).act c.fd) ∧ Aligned W rs c' ∧ c'.Spare := by
    rintro c' ⟨buf, resp, data, rfl⟩ hset
    refine ⟨hH₁.sent data buf resp, h.1.congr rfl (.inl hset) rfl, fun hb => ?_, fun hb => ?_⟩ <;>
      (have hb : c.req.phase = .body := hb
       rcases hset with hset | hset <;> simp [hb] at hset)
  by_cases hp : c.req.phase = .abort
  · have hr : c.resp.phase = .abort := by
      cases hs with
      | abort _ hr => exact hr
      | head hp' => rcases hp' with hp' | hp' <;> simp [hp] at hp'
      | bodyStatic hp' | bodyReady hp' | bodyStream hp' | doneStatic hp' | doneReady hp'
      | doneStream hp' | relay hp'
      | relayEnd hp' => simp [hp] at hp'
    rcases stepStatic_page conf e c s hr with ⟨c', s', hc', he⟩ | ⟨c', he, hidx⟩
      | ⟨hready, hlen, c', hc', he⟩ <;> rw [he]
    · rcases hc' with rfl | hc'
      · exact (Ret.post_some _ _).2 h
      · exact (Ret.post_some _ _).2 (hsent c' hc' (.inr hp)).2
    · exact lisoDropConn_gone (hidx ▸ hH₁.idx)
    · obtain ⟨hH', h', -⟩ := hsent c' hc' (.inr hp)
      have hreq : c'.req = c.req := by obtain ⟨buf, resp, data, rfl⟩ := hc'; rfl
      have hresumes : Resumes rs c → Resumes rs c' := by
        obtain ⟨buf, resp, data, rfl⟩ := hc'
        exact id
      refine lisoResetOrClose_aligned e hH' hrs hW h' (.inr (hreq ▸ hp)) fun ha => hresumes ?_
      rcases hres ⟨hp, hreq ▸ ha, hready, hlen⟩ with w | hres
      · exact (h.1.complete hrs (.inr ⟨hp, w⟩)).1
      · exact hres
  · rcases stepStatic_cases conf e c s with ⟨s', he, -⟩ | ⟨hr, c', hc', hout⟩
    · rw [he]
      exact (Ret.post_some _ _).2 h
    have hdone : c.req.phase = .done := by
      cases hs with
      | doneStatic hp => exact hp
      | abort hp' => exact absurd hp' hp
      | head _ _ hr' | bodyStatic _ _ _ hr' | bodyReady _ _ _ hr' | bodyStream _ _ _ hr'
      | doneReady _ _ _ hr'
      | doneStream _ _ _ hr' | relay _ _ _ hr' | relayEnd _ _ _ hr' =>
        rcases hr with hr | hr | hr <;> simp [hr] at hr'
    obtain ⟨hH', h', hspare⟩ := hsent c' hc' (.inl hdone)
    have hdone' : c'.req.phase = .done := by obtain ⟨buf, resp, data, rfl⟩ := hc'; exact hdone
    rcases hout with he | he | ⟨b, he⟩ <;> rw [he]
    · exact lisoDropConn_gone hH'.idx
    · exact lisoResetOrClose_aligned e hH' hrs hW h' (.inl hdone') fun _ =>
        (h'.complete hrs (.inl hdone')).1
    · exact (Ret.post_some _ _).2 ⟨h', hspare⟩

/-! ## Every run -/

/-- The condition on a visit: the hosts fit, and if it is one to the connection `n`, the client
sends the stream, and nothing is received while bytes of a body wait for the start of a CGI. Under
`W` nothing is received behind a request that failed, and no CGI fails; otherwise such a connection
is reset when all is received of its request that the client has sent. -/
def Steady (W : Prop) (conf : Conf) (n : ℕ) (rs : List (List Byte)) (e : Env) (c : Conn) (s : Srv) :
    Prop :=
  Hosted conf e c s ∧
    (c.wire.id = n → Sends rs e c s ∧ Drained e c s ∧
      (W → Hushed e c s ∧ CgiServes conf e c s) ∧
      ∀ p ∈ beforeStatic conf e c s, p.1.Answered conf e p.2 → W ∨ Resumes rs p.1)

/-- `Steady` is decidable. -/
instance [Decidable W] (c : Conn) (s : Srv) : Decidable (Steady W conf n rs e c s) :=
  inferInstanceAs
    (Decidable (_ ∧ (_ → _ ∧ _ ∧ (W → _) ∧ ∀ p ∈ beforeStatic conf e c s, _ → W ∨ _)))

/-- A connection that was just accepted. -/
theorem Accepted.aligned (h : Accepted c) : Aligned W rs c ∧ c.Spare := by
  obtain ⟨fd, idx, mem, id, addr, port, scheme, ssl, rfl⟩ := h
  refine ⟨⟨⟨_, ⟨by simp [reqNew, reqReset, storeStr], rfl⟩, .head ⟨rfl, rfl, .inl rfl⟩⟩,
    List.nil_prefix, fun _ => rfl, List.nil_prefix, fun _ => rfl,
    fun i ex hex => by simp [cnNew] at hex, (by decide : 0 < BUFSZ)⟩, ?_, ?_⟩
  · intro hp
    cases hp
  · intro hp
    cases hp

/-- The section `recv` leaves a connection in step with its stream, or drops it. -/
theorem stepRecv_aligned (hH : Held False A c s) (hready : Ready c s) (hR : Rest False c s)
    (hrs : ∀ x ∈ rs, Framed x) (hW : W → ∀ x ∈ rs, WellFormed x) (hid : c.wire.id = n)
    (hok : Steady W conf n rs e c s) (h : Aligned W rs c ∧ c.Spare) :
    (stepRecv e c s).Post (fun c' _ => Aligned W rs c') (fun _ => True) := by
  obtain ⟨hsend, hdrained, hcalm, -⟩ := hok.2 hid
  by_cases hp : c.req.phase = .done
  · rw [stepRecv_done e hR hready hp]
    exact (Ret.post_some _ _).2 h.1
  · exact ((stepRecv_receipt e hH.idx).and (stepRecv_got e hH.idx)).mono (fun _ _ hr =>
      hr.1.aligned hr.2 hrs hW h.1 hR.shape h.2 hsend hdrained (fun w => (hcalm w).1) hp)
        fun _ _ => trivial

/-- The sections behind it, up to the serving, leave a connection in step. -/
theorem afterRecv_aligned (hid : c.wire.id = n) (hok : Steady W conf n rs e c s)
    {p : Conn × Srv} (hp : p ∈ afterRecv e c s) (hR : Recvd False p.1 p.2)
    (h : Aligned W rs p.1) :
    Aligned W rs (stepMiddle conf e p.1 p.2).1 ∧ (stepMiddle conf e p.1 p.2).1.Spare := by
  have hmem : stepTransit conf e p.1 p.2 ∈ beforeStream conf e c s := Option.mem_map_of_mem _ hp
  exact stepMiddle_aligned conf e hR h fun w => ((hok.2 hid).2.2.1 w).2 _ hmem

/-- A visit to the connection leaves it in step with its stream, or drops it. -/
theorem visit_aligned (h0 : c.fd ≠ 0) (hH : Held False A c s) (hready : Ready c s)
    (hR : Rest False c s) (hrs : ∀ x ∈ rs, Framed x) (hW : W → ∀ x ∈ rs, WellFormed x)
    (hid : c.wire.id = n) (hok : Steady W conf n rs e c s) (h : Aligned W rs c ∧ c.Spare) :
    (visit conf e c s).Post (fun c' s' => Rest False c' s' ∧ Aligned W rs c' ∧ c'.Spare)
    (fun _ => True) := by
  let J : Conn → Srv → Prop := fun c _ => Aligned W rs c ∧ c.Spare
  refine visit_stages (R := fun c _ => Aligned W rs c) (M := J) (D := J) (B := J)
    (L := J) h0 hH hready hR
    (fun f => f.elim) (stepRecv_aligned hH hready hR hrs hW hid hok h) ?_ ?_ ?_ ?_ ?_
  · exact fun p hp _ hRp hr => afterRecv_aligned hid hok hp hRp hr
  · exact fun p _ _ _ hr => hr
  · exact fun p _ _ hRp _ hr => stepFromCgi_aligned e p.2 hRp.shape hr
  · exact fun p _ hpos hHp hRp hr => stepToClient_aligned e hpos hHp hRp.shape hrs hW hr
  · exact fun p hp hHp hRp hr =>
      stepStatic_aligned conf e hHp hRp.shape hrs hW hr ((hok.2 hid).2.2.2 p hp)

/-- So does it stand in front of the two sections that can end an exchange. -/
theorem points_aligned (h0 : c.fd ≠ 0) (hH : Held False A c s) (hready : Ready c s)
    (hR : Rest False c s) (hrs : ∀ x ∈ rs, Framed x) (hW : W → ∀ x ∈ rs, WellFormed x)
    (hid : c.wire.id = n) (hok : Steady W conf n rs e c s) (h : Aligned W rs c ∧ c.Spare) :
    (∀ p ∈ beforeSend conf e c s, Rest False p.1 p.2 ∧ Aligned W rs p.1) ∧
      ∀ p ∈ beforeStatic conf e c s, Rest False p.1 p.2 ∧ Aligned W rs p.1 := by
  let J : Conn → Srv → Prop := fun c _ => Aligned W rs c ∧ c.Spare
  obtain ⟨hsend, hstatic⟩ := visit_points (R := fun c _ => Aligned W rs c) (M := J) (D := J)
    (B := J) h0 hH hready hR (fun f => f.elim) (stepRecv_aligned hH hready hR hrs hW hid hok h)
      (fun p hp _ hRp hr => afterRecv_aligned hid hok hp hRp hr) (fun p _ _ _ hr => hr)
      (fun p _ _ hRp _ hr => stepFromCgi_aligned e p.2 hRp.shape hr)
      fun p _ hpos hHp hRp hr => stepToClient_aligned e hpos hHp hRp.shape hrs hW hr
  exact ⟨fun p hp => ⟨(hsend p hp).1, (hsend p hp).2.1⟩,
    fun p hp => ⟨(hstatic p hp).2.1, (hstatic p hp).2.2.1⟩⟩

/-- The exchanges of the connection are about the requests of the stream, in every reachable
state. -/
theorem aligned_inv (hrs : ∀ x ∈ rs, Framed x) (hW : W → ∀ x ∈ rs, WellFormed x)
    (h : Reach conf (Visiting (Steady W conf n rs)) l) :
    ∀ c ∈ l.srv.pool.conns, Rest False c l.srv ∧ (c.wire.id = n → Aligned W rs c ∧ c.Spare) := by
  refine (reach_local (L := fun c s => Rest False c s ∧ (c.wire.id = n → Aligned W rs c ∧ c.Spare))
    (S := fun _ => True) ?_ trivial ?_ ?_ h).1
  · refine ⟨fun c s i h => ⟨Rest.stable.idx c s i h.1, fun hid => ?_⟩, fun c s s' h hk =>
      ⟨Rest.stable.keep c s s' h.1 hk, h.2⟩⟩
    exact ⟨(h.2 hid).1.congr rfl (.inr rfl) rfl, (h.2 hid).2⟩
  · exact fun c s ha _ hr hw => ⟨ha.rest hr hw, fun _ => ha.aligned⟩
  · intro l ev i m c hl hok hpc hc hH hready hL _
    have h0 : c.fd ≠ 0 := fun he => hH.fd_notMem (he ▸ .inl hl.zero_mem)
    have hframe := visit_frame_any conf ev.env c l.srv hH
    by_cases hid : c.wire.id = n
    · exact (visit_aligned h0 hH hready hL.1 hrs hW hid (hok i m hpc c hc) (hL.2 hid)).mono
        (fun _ _ h => ⟨⟨h.1, fun _ => h.2⟩, trivial⟩) fun _ _ => trivial
    · -- Another connection keeps its number.
      refine ((visit_rest (W := False) conf ev.env h0 hH hready hL.1 fun f => f.elim).and
        hframe).mono
        (fun c' s' h => ⟨⟨h.1, fun hid' => ?_⟩, trivial⟩) fun _ _ => trivial
      exact absurd (h.2.2.id.symm.trans hid') hid

/-! ## What is received -/

/-- Every byte received is of a request that was or is served, or kept for one that follows. -/
structure Kept (rs : List (List Byte)) (c : Conn) : Prop where
  /-- No byte was ignored. -/
  ignored : c.wire.ignored = []
  /-- The bytes of the requests before, and those of the exchange under way. -/
  got : c.wire.got = (rs.take c.wire.past.length).flatten ++ c.wire.cur.inp
  /-- The exchanges that ended had their requests whole. -/
  past : ∀ i : ℕ, ∀ ex ∈ c.wire.past[i]?, ∀ x ∈ rs[i]?, x <+: ex.inp
  /-- Behind a request that is complete or failed all bytes are kept. -/
  last : c.req.phase = .done ∨ c.req.phase = .abort →
    ∃ x, rs[c.wire.past.length]? = some x ∧ c.wire.cur.inp = x ++ c.req.last_buf.data

/-- In the runs in which nothing is received while a page is sent and no CGI fails, no byte of a
stream of well-formed requests is thrown away, whatever the status of each response. -/
theorem nothing_lost (hrs : ∀ x ∈ rs, WellFormed x)
    (h : Reach conf (Visiting (Steady True conf n rs)) l) :
    ∀ c ∈ l.srv.pool.conns, c.Unmarked ∧ (c.wire.id = n → Kept rs c) := by
  have hframed : ∀ x ∈ rs, Framed x := fun x hx => (hrs x hx).framed
  refine fun c hc => ⟨unmarked_inv (h.visiting fun _ _ _ h => h.1) c hc, fun hid => ?_⟩
  have ha := ((aligned_inv hframed (fun _ => hrs) h c hc).2 hid).1
  exact ⟨ha.ignored trivial, ha.got (.inl trivial), fun i ex hex => (ha.past i ex hex).2 trivial,
    fun hp => (ha.complete hframed (hp.imp_right fun hp => ⟨hp, trivial⟩)).2⟩

/-- A request for a file that does not exist, and the next one. -/
def missingThen : List (List Byte) := [str "GET /y HTTP/1.1\r\n\r\n", str "GET /x HTTP/1.1\r\n\r\n"]

/-- Both arrive at once. -/
def missingRun : List Ev :=
  Sample.connect ++ Sample.select {5} ∅ ++
    [Sample.visit { Sample.env with
      recv := some missingThen.flatten, fs := { Sample.fs with stat := fun _ => none } },
        Sample.next] ++
    Sample.select ∅ {5} ++ [Sample.next, Sample.next]

/-- The run and its requests meet the conditions. -/
theorem missingRun_steady : (∀ x ∈ missingThen, WellFormed x) ∧
    Runs.Along (step Sample.conf) (Visiting (Steady True Sample.conf 0 missingThen))
      Sample.start missingRun ∧
    ∃ c ∈ (Runs.exec (step Sample.conf) Sample.start missingRun).srv.pool.conns, c.wire.id = 0 ∧
      c.wire.past.length = 1 ∧ c.req.phase = .done := by decide +kernel

/-- Behind the page for the missing file, the second request is complete. -/
theorem nothing_lost_missing :
    ∃ c ∈ (Runs.exec (step Sample.conf) Sample.start missingRun).srv.pool.conns,
      c.wire.past.length = 1 ∧
      c.req.phase = .done ∧ Kept missingThen c := by
  obtain ⟨hrs, hrun, c, hc, hid, hpast, hdone⟩ := missingRun_steady
  exact ⟨c, hc, hpast, hdone,
    (nothing_lost hrs ((Runs.Reach.start Sample.start_init).along _ hrun) c hc).2 hid⟩

/-- The second request arrives before the page for the first one is sent. -/
def lateRun : List Ev :=
  Sample.connect ++ Sample.select {5} ∅ ++
    [Sample.visit { Sample.env with
      recv := some (str "GET /y HTTP/1.1\r\n\r\n"),
      fs := { Sample.fs with stat := fun _ => none } }, Sample.next] ++
    Sample.select {5} {5} ++ [Sample.recv "GET /x HTTP/1.1\r\n\r\n", Sample.next]

/-- The first request is complete, and answered with a page; the second one is received in the same
visit before that and ignored, so that it has no answer. -/
theorem lost_behind_missing : (∀ x ∈ missingThen, WellFormed x) ∧
    ¬ ∀ l, Reach Sample.conf (Visiting fun e c s => Hosted Sample.conf e c s ∧
      Sends missingThen e c s ∧ Drained e c s ∧ CgiServes Sample.conf e c s) l →
        ∀ c ∈ l.srv.pool.conns, Kept missingThen c := by
  refine ⟨by decide +kernel, fun h => ?_⟩
  have hkept := h _ ((Runs.Reach.start Sample.start_init).along lateRun (by decide +kernel))
  have hlost : ∃ c ∈ (Runs.exec (step Sample.conf) Sample.start lateRun).srv.pool.conns,
      c.wire.ignored ≠ [] := by decide +kernel
  obtain ⟨c, hc, hne⟩ := hlost
  exact hne (hkept c hc).ignored

end Liso
