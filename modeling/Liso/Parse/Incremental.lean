import Liso.Parse.Stores
import Liso.Conn

/-!
# Parsing what was received

`cn_parse_req` looks for the end of a line from `last_recv_end` on, and hands all complete lines to
the parser at once. Nothing is missed: in front of `last_recv_end` there is no line feed that was
not handed over before. `Parsing` says so, and that the request is the one that `scanHead` computes
from all that was received; `cnParseLines_parsing` proves that it stays so.
-/

namespace Liso

open Cut (IsLine lines rest whole)

variable {r : Req} {x y : List Byte} {c : Conn} {s : Srv} {e : Env}

/-! ## The head of a longer stream -/

/-- The scan goes on with the lines that the next chunk completes. -/
theorem scanHead_append (r : Req) (x y : List Byte) :
    scanHead r (x ++ y) = (lines LF (rest LF x ++ y)).foldl Head.feed (scanHead r x) := by
  rw [scanHead, Cut.lines_append, List.foldl_append]
  rfl

/-- A head that is complete or refused stays what it is. -/
theorem scanHead_closed (h : ¬ (scanHead r x).Open) (y : List Byte) :
    scanHead r (x ++ y) = scanHead r x := by
  rw [scanHead_append, Head.feed_closed h]

/-- The scan of a stream is sound. -/
theorem scanHead_sound (hr : r.phase = .start) (x : List Byte) : (scanHead r x).Sound :=
  Head.foldl_sound ⟨by simp, fun _ => .inl hr, fun hp => by simp [hr] at hp⟩ _

/-- Where the count of bytes starts does not matter. -/
theorem Head.feed_add (h : Head) (k : ℕ) (ls : List (List Byte)) :
    ls.foldl Head.feed { h with used := h.used + k } =
      { ls.foldl Head.feed h with used := (ls.foldl Head.feed h).used + k } := by
  induction ls generalizing h with
  | nil => rfl
  | cons l ls ih =>
    have hone : Head.feed { h with used := h.used + k } l =
      { h.feed l with used := (h.feed l).used + k } := by
      unfold Head.feed Head.feedFrom
      by_cases ho : h.Open
      · rw [if_pos ho, if_pos (show Head.Open { h with used := h.used + k } from ho)]
        dsimp only
        rcases parsePhases h.req ⟨LF, l⟩ with ⟨st | d, r'⟩ <;> simp only [Head.mk.injEq, true_and]
          <;> omega
      · rw [if_neg ho, if_neg (show ¬ Head.Open { h with used := h.used + k } from ho)]
    rw [List.foldl_cons, List.foldl_cons, hone, ih]

/-- An open head has read all lines. -/
theorem Head.used_of_open {h : Head} {ls : List (List Byte)} (ho : (ls.foldl Head.feed h).Open) :
    (ls.foldl Head.feed h).used = h.used + ls.flatten.length := by
  induction ls generalizing h with
  | nil => rfl
  | cons l ls ih =>
    have hopen : h.Open := by
      by_contra hc
      rw [Head.feed_closed hc] at ho
      exact hc ho
    rw [List.foldl_cons] at ho ⊢
    rw [ih ho, List.flatten_cons, List.length_append, Head.feed, Head.feedFrom, if_pos hopen]
    split <;> simp only <;> omega

/-- The scan uses no more than the lines it is fed. -/
theorem Head.used_le (h : Head) (ls : List (List Byte)) :
    (ls.foldl Head.feed h).used ≤ h.used + ls.flatten.length := by
  induction ls generalizing h with
  | nil => exact le_rfl
  | cons l ls ih =>
    have hone : (h.feed l).used ≤ h.used + l.length := by
      unfold Head.feed Head.feedFrom
      split
      · split <;> exact le_rfl
      · exact Nat.le_add_right _ _
    rw [List.foldl_cons, List.flatten_cons, List.length_append]
    exact (ih _).trans (by omega)

/-- A head that is not over has used all whole lines. -/
theorem scanHead_used_of_open (h : (scanHead r x).Open) : (scanHead r x).used = whole LF x := by
  have := Head.used_of_open h
  rwa [Nat.zero_add] at this

/-- The scan does not use more than them. -/
theorem scanHead_used_le (r : Req) (x : List Byte) : (scanHead r x).used ≤ whole LF x := by
  have := Head.used_le ⟨none, r, 0⟩ (lines LF x)
  rwa [Nat.zero_add] at this

/-- Where the host leaves the fields behind it alone, that is one call of the parser. -/
theorem reqParseOver_eq {b : Byte} {pre post : List Byte} (hr : r.phase = .start)
    (hpre : pre.getLast? = some LF) (hpost : post.getLast? = some LF)
    (hrc : 0 ≤ (reqParse b r pre).1)
    (hhead : (reqParse b r pre).2.phase = .header)
    (hmem : (reqParse b r pre).2.inMemory = (reqParse b r pre).2) :
    reqParseOver b r pre post = reqParse b r (pre ++ post) := by
  have hls : ∀ x, ∀ l ∈ lines LF x, IsLine LF l := fun x l hl => Cut.isLine_of_mem hl
  have hflat : ∀ {x : List Byte}, x.getLast? = some LF → (lines LF x).flatten = x :=
    fun h => Cut.flatten_lines_of_last h
  have hne := Cut.lines_ne_nil hpre
  have hfirst := reqParse_scan (hls pre) (.inl ⟨hr, hne⟩) b
  rw [hflat hpre] at hfirst
  have hnone := (Head.scan_sound (.inl hr) b (lines LF pre)).status_eq (hfirst ▸ hrc)
  have hboth : lines LF (pre ++ post) = lines LF pre ++ lines LF post := by
    conv_lhs => rw [← hflat hpre]
    exact Cut.lines_flatten (hls pre) post
  have hwhole := reqParse_scan (r := r) (hls (pre ++ post))
    (.inl ⟨hr, by rw [hboth]; simp [hne]⟩) b
  rw [Cut.flatten_lines_of_last (by rw [List.getLast?_append, hpost]; rfl), hboth] at hwhole
  unfold reqParseOver
  rw [hmem, hwhole]
  generalize hs : Head.scan b r (lines LF pre) = h at hfirst hnone
  obtain ⟨st, r1, u⟩ := h
  obtain rfl : st = none := hnone
  rw [hfirst, Head.parsed_req] at hhead ⊢
  have hsecond := reqParse_scan (hls post) (r := r1) (.inr hhead) LF
  rw [hflat hpost] at hsecond
  -- The lines of the second call go on from where the first one stopped.
  have happ : Head.scan b r (lines LF pre ++ lines LF post) =
      (lines LF post).foldl Head.feed ⟨none, r1, 0 + u⟩ := by
    rw [Nat.zero_add, ← hs, Head.scan_append b r hne]
  have hstart : Head.scan LF r1 (lines LF post) =
      (lines LF post).foldl Head.feed ⟨none, r1, 0⟩ := by
    cases lines LF post <;> rfl
  have hsound := Head.scan_sound (.inr hhead) LF (lines LF post)
  dsimp only
  rw [hsecond, happ, Head.feed_add ⟨none, r1, 0⟩, ← hstart]
  dsimp only
  generalize Head.scan LF r1 (lines LF post) = h at hsound
  obtain ⟨_ | st, r2, n⟩ := h
  · rw [if_neg (by simp [Head.parsed])]
    simp [Head.parsed, add_comm]
  · have := hsound.status st rfl
    rw [if_pos (by simp only [Head.parsed]; omega)]
    rfl

/-! ## The scan -/

/-- The scan finds the end of the last complete line. -/
theorem scanLines_eq (bs : List Byte) (p : ℕ) (q : Option ℕ) :
    scanLines bs p q = if lines LF bs = [] then q else some (p + whole LF bs) := by
  induction bs generalizing p q with
  | nil => rfl
  | cons b bs ih =>
    rw [scanLines, ih]
    by_cases hb : b = LF
    · subst hb
      rw [if_pos rfl, Cut.lines_sep, if_neg (List.cons_ne_nil _ _), whole, whole,
        Cut.lines_sep, List.flatten_cons,
        List.length_append, List.length_singleton]
      split
      · rename_i hnil
        rw [hnil]
        simp
      · rw [Nat.add_assoc]
    · rw [if_neg hb]
      rcases hl : lines LF bs with _ | ⟨l, ls⟩
      · rw [(Cut.cut_cons_nil hb hl).1]
        rfl
      · rw [if_neg (List.cons_ne_nil _ _), (Cut.cut_cons_cons hb hl).1,
          if_neg (List.cons_ne_nil _ _), whole, whole,
          (Cut.cut_cons_cons hb hl).1, hl]
        simp only [List.flatten_cons, List.length_append, List.length_cons, Option.some.injEq]
        omega

/-- The parser stands in the head of a request, of which it has received `x`; `r` is the request
before. All complete lines were parsed, and the buffer holds everything. -/
structure Parsing (r : Req) (x : List Byte) (c : Conn) : Prop where
  /-- The buffer. -/
  buf : c.buf = ⟨x, whole LF x, false⟩
  /-- The request. -/
  head : scanHead r x = ⟨none, c.req, whole LF x⟩
  /-- The phase. -/
  phase : c.req.phase = .start ∨ c.req.phase = .header

/-- While a head is parsed, it is not over. -/
theorem Parsing.open (h : Parsing r x c) : (scanHead r x).Open := by
  rw [h.head]
  exact ⟨rfl, h.phase⟩

/-- The first line that the next chunk completes is not a lone line feed. -/
def Clean (x y : List Byte) : Prop := ∀ l ∈ (lines LF (rest LF x ++ y)).head?, l.head? ≠ some LF

/-- The first part of `cn_parse_req`, when `y` was received behind `x`. -/
theorem cnParseLines_eq {c₀ : Conn} (h : Parsing r x c₀) (hreq : c.req = c₀.req)
    (hbuf : c.buf = ⟨x ++ y, whole LF x, false⟩) (hy : Clean x y) (errCb : ErrCb) :
    cnParseLines e errCb c x.length s =
      match (scanHead r (x ++ y)).status with
      | some st =>
        let p :=
          errCb { c with req := (scanHead r (x ++ y)).req,
                         buf := ⟨x ++ y, whole LF (x ++ y), false⟩ } st s
        (true, p.1, p.2)
      | none =>
        (false, { c with
          req := (scanHead r (x ++ y)).req, buf := ⟨x ++ y, (scanHead r (x ++ y)).used, false⟩ },
            s) := by
  have hphase : c.req.phase = .start ∨ c.req.phase = .header := hreq ▸ h.phase
  have hle := Cut.whole_add_rest LF x
  rw [cnParseLines, if_pos hphase, hbuf]
  dsimp only
  rw [List.drop_left, scanLines_eq]
  by_cases hl : lines LF y = []
  · -- No line is complete.
    have hscan : scanHead r (x ++ y) = ⟨none, c.req, whole LF x⟩ := by
      rw [scanHead_append, Cut.lines_rest_eq_nil x hl, List.foldl_nil, h.head, hreq]
    rw [if_pos hl, hscan]
    dsimp only
    rw [← hbuf]
  · rw [if_neg hl]
    dsimp only
    have hwhole := Cut.whole_append_of_lines x hl
    have hpos : 0 < whole LF y := by
      obtain ⟨l, ls, hcons⟩ := List.exists_cons_of_ne_nil hl
      obtain ⟨text, rfl, -⟩ := Cut.isLine_of_mem (show l ∈ lines LF y by rw [hcons]; simp)
      rw [whole, hcons]
      simp
    rw [if_neg (by omega), ← hwhole, Cut.take_whole, Cut.lines_append, List.flatten_append]
    have hdrop : ((lines LF x).flatten ++ (lines LF (rest LF x ++ y)).flatten).drop (whole LF x) =
        (lines LF (rest LF x ++ y)).flatten := List.drop_left
    rw [hdrop]
    -- The lines that are complete now.
    have hne : lines LF (rest LF x ++ y) ≠ [] := by
      obtain ⟨l, ls, hcons⟩ := List.exists_cons_of_ne_nil hl
      rw [(Cut.cut_front (Cut.sep_notMem_rest LF x) hcons).1]
      exact List.cons_ne_nil _ _
    have hscan : scanHead r (x ++ y) =
        { (lines LF (rest LF x ++ y)).foldl Head.feed ⟨none, c.req, 0⟩ with
          used := ((lines LF (rest LF x ++ y)).foldl Head.feed ⟨none, c.req, 0⟩).used +
            whole LF x } := by
      rw [scanHead_append, h.head, ← Head.feed_add, hreq, Nat.zero_add]
    have hsound : ((lines LF (rest LF x ++ y)).foldl Head.feed ⟨none, c.req, 0⟩).Sound :=
      Head.foldl_sound ⟨by simp, fun _ => hphase.imp_right .inl, fun hp => by
        rcases hphase with h | h <;> simp [h] at hp⟩ _
    rw [reqParse_lines (fun l hl => Cut.isLine_of_mem hl) hne hphase (.inr hy), hscan]
    generalize (lines LF (rest LF x ++ y)).foldl Head.feed ⟨none, c.req, 0⟩ = out at hsound
    obtain ⟨status, r', n⟩ := out
    cases status with
    | none =>
      rw [show (Head.mk none r' n).parsed = ((n : ℤ), r') from rfl]
      dsimp only
      rw [if_neg (by omega), Int.toNat_natCast, Nat.add_comm]
    | some st =>
      have hst := hsound.status st rfl
      rw [show (Head.mk (some st) r' n).parsed = (-st, r') from rfl]
      dsimp only
      rw [if_pos (by omega), neg_neg]

/-! ## What `cn_recv` does with a chunk -/

/-- A connection that has received `data`. -/
def Conn.received (c : Conn) (data : List Byte) : Conn := { c with
  buf := { c.buf with data := c.buf.data ++ data }
  wire := { c.wire with
    got := c.wire.got ++ data, cur := { c.wire.cur with inp := c.wire.cur.inp ++ data } } }

/-- A chunk that fits into the buffer is received whole, and parsed. -/
theorem cnRecv_chunk {chunk : List Byte} (fatCb : EndCb)
    (hssl : c.ssl = true → c.ssl_accepted = true) (hp : c.req.phase ≠ .abort) (hne : chunk ≠ [])
    (hfit : (chunk.length : ℤ) ≤ BUFSZ - c.buf.sz) (hrecv : e.recv = some chunk) (errCb : ErrCb) :
    cnRecv e errCb fatCb c s =
      ⟨1, some (cnParseReq e errCb (c.received chunk) c.buf.data.length s).1,
        (cnParseReq e errCb (c.received chunk) c.buf.data.length s).2⟩ := by
  have hpos := List.length_pos_of_ne_nil hne
  have hno : ¬ ((c.ssl && !c.ssl_accepted) = true) := by
    cases hs : c.ssl with
    | false => simp
    | true => simp [hssl hs]
  have htake : chunk.take (BUFSZ - c.buf.sz).toNat = chunk := List.take_of_length_le (by omega)
  unfold cnRecv
  rw [if_neg hno, if_neg hp]
  dsimp only
  rw [if_neg (by omega), hrecv, Option.map_some, htake]
  dsimp only
  rw [if_neg hne]
  rfl

/-- The bytes in the buffer are counted: `z` is what was received of the request and what follows
it, `front` the part in front of the buffer's bytes, and the body ends at `T`. -/
theorem counted_eq {z front : List Byte} {T : ℕ} (hz : z = front ++ c.buf.rest)
    (hbad : c.buf.bad = false) (hcur : c.buf.data_p ≤ c.buf.data.length)
    (hr : c.req.rsize = (T : ℤ) - front.length) (hT : front.length ≤ T) :
    c.left = (T : ℤ) - z.length ∧
      (T < z.length → c.buf.data.drop c.keep = z.drop T ∧
        (c.buf.data.take c.keep).drop c.buf.data_p =
        (z.take T).drop front.length) := by
  have hrest : c.buf.rest.length = c.buf.data.length - c.buf.data_p := List.length_drop
  have hlen := congrArg List.length hz
  rw [List.length_append, hrest] at hlen
  have hsz : c.buf.sz = c.buf.data.length := by rw [Buf.sz, hbad]; rfl
  have hleft : c.left = (T : ℤ) - z.length := by
    rw [Conn.left, hr, Buf.rsize, hsz]
    omega
  refine ⟨hleft, fun hlt => ?_⟩
  have hkeep : c.keep = c.buf.data_p + (T - front.length) := by
    rw [Conn.keep, hleft, hsz]
    omega
  rw [hkeep, hz]
  constructor
  · rw [← List.drop_drop, List.drop_append, List.drop_eq_nil_of_le hT, List.nil_append]
    rfl
  · rw [List.take_append, List.drop_take, List.take_of_length_le hT,
      List.drop_left, Nat.add_sub_cancel_left]
    rfl

end Liso
