import Liso.Loop.Rest
import Liso.Parse.Incremental

/-!
# What the section `recv` does

`Receipt` lists what the section `recv` can make of a connection that it keeps: nothing, a step of
the TLS handshake, a receipt whose bytes are ignored, and one whose bytes go to the parser. The
chunk that goes to the parser is a part of the buffer behind the cursor, and ends in a line feed.
-/

namespace Liso

variable {c c' : Conn} {s s' : Srv} {e : Env} {n : ℕ}

/-! ## The chunk -/

/-- The scan stops behind a line feed. -/
theorem scanLines_lf {bs : List Byte} {p r : ℕ} {q : Option ℕ} (h : scanLines bs p q = some r) :
    q = some r ∨ p < r ∧ bs[r - 1 - p]? = some LF := by
  induction bs generalizing p q with
  | nil => exact .inl h
  | cons b bs ih =>
    rcases ih h with hq | ⟨hlt, hget⟩
    · split at hq
      · rename_i hb
        obtain rfl : p + 1 = r := Option.some.inj hq
        exact .inr ⟨Nat.lt_succ_self p, by simp [hb]⟩
      · exact .inl hq
    · refine .inr ⟨by omega, ?_⟩
      rw [show r - 1 - p = (r - 1 - (p + 1)) + 1 by omega, List.getElem?_cons_succ]
      exact hget

/-- The chunk that is parsed ends in a line feed. -/
theorem chunk_last {lines : List Byte} (h : lines ∈ c.chunk n) : lines.getLast? = some LF := by
  unfold Conn.chunk at h
  cases hscan : scanLines (c.buf.data.drop n) n none with
  | none => simp [hscan] at h
  | some q =>
    rw [hscan] at h
    dsimp only at h
    split at h
    · simp at h
    · rename_i hq
      rw [← Option.some.inj h]
      obtain ⟨hlt, hget⟩ := (scanLines_lf hscan).resolve_left (by simp)
      rw [List.getElem?_drop, show n + (q - 1 - n) = q - 1 by omega] at hget
      obtain ⟨hle, -⟩ := List.getElem?_eq_some_iff.1 hget
      rw [List.getLast?_drop, if_neg (by rw [List.length_take]; omega),
        List.getLast?_take, if_neg (by omega), hget]
      rfl

/-- The chunk that is parsed begins at the cursor. -/
theorem chunk_begins {lines : List Byte} (h : lines ∈ c.chunk n) : lines <+: c.buf.rest := by
  unfold Conn.chunk at h
  split at h
  · simp at h
  · rename_i q _
    split at h
    · simp at h
    · rw [← Option.some.inj h, List.drop_take]
      exact List.take_prefix _ _

/-! ## The receipt -/

/-- A connection on which `recv_ignore` received `data`. -/
def Conn.overwritten (c : Conn) (data : List Byte) : Conn := { c with
  buf := { c.buf with data := data.take c.buf.data.length ++ c.buf.data.drop data.length }
  wire := { c.wire with got := c.wire.got ++ data, ignored := c.wire.ignored ++ data } }

/-- What the section `recv` makes of a connection. -/
inductive Receipt (e : Env) (c : Conn) (s : Srv) (c' : Conn) : Prop
  /-- Nothing was received. -/
  | idle (h : c' = c)
  /-- The TLS handshake is complete. -/
  | handshake (ha : c.ssl = true ∧ c.ssl_accepted = false)
      (h : c' = { c with ssl_accepted := true })
  /-- The request failed before. -/
  | ignored (data : List Byte) (hp : c.req.phase = .abort) (h : c' = c.overwritten data)
  /-- The buffer is full, and the request fails. -/
  | full (data bytes : List Byte) (hready : c.fd ∈ s.pool.read_ready) (hp : c.req.phase ≠ .abort)
      (hfull : BUFSZ ≤ c.buf.sz) (hsome : e.recv = some bytes) (hne : bytes ≠ [])
      (h : c' = (lisoConnErr c 400 s).1.overwritten data)
  /-- The bytes go to the parser. -/
  | parsed (data bytes : List Byte) (hready : c.fd ∈ s.pool.read_ready) (hp : c.req.phase ≠ .abort)
      (hfit : (data.length : ℤ) ≤ BUFSZ - c.buf.sz) (hsome : e.recv = some bytes)
      (hpre : data <+: bytes) (hne : data ≠ [])
      (h : ∃ s', c' = (cnParseReq e lisoConnErr (c.received data) c.buf.data.length s').1)

/-- `recv_ignore` drops the connection, or overwrites its buffer. -/
theorem recvIgnore_post (e : Env) (h : c.idx < s.pool.conns.length) :
    (recvIgnore e lisoDropConn c s).Post
      (fun c' _ => ∃ data bytes, e.recv = some bytes ∧ bytes ≠ [] ∧ c' = c.overwritten data)
      (fun _ => True) := by
  unfold recvIgnore
  split
  · exact lisoDropConn_gone h
  · rename_i data hdata
    obtain ⟨bytes, hbytes, rfl⟩ := Option.map_eq_some_iff.1 hdata
    dsimp only
    split
    · exact lisoDropConn_gone h
    · rename_i hne
      exact (Ret.post_some _ _).2 ⟨_, bytes, hbytes, fun hnil => hne (by rw [hnil, List.take_nil]),
        rfl⟩

/-- `cn_recv`, on a socket that is ready. -/
theorem cnRecv_receipt (e : Env) (h : c.idx < s.pool.conns.length) {s₀ : Srv}
    (hready : c.fd ∈ s₀.pool.read_ready) :
    (cnRecv e lisoConnErr lisoDropConn c s).Post (fun c' _ => Receipt e c s₀ c')
    (fun _ => True) := by
  unfold cnRecv
  split
  · rename_i hssl
    rw [Bool.and_eq_true, Bool.not_eq_true'] at hssl
    split
    · exact lisoDropConn_gone h
    split
    · exact (Ret.post_some _ _).2 (.idle rfl)
    · exact (Ret.post_some _ _).2 (.handshake hssl rfl)
  split
  · rename_i hp
    refine (recvIgnore_post e h).mono ?_ fun _ h => h
    rintro c' - ⟨data, -, -, -, rfl⟩
    exact .ignored data hp rfl
  rename_i hp
  dsimp only
  split
  · rename_i hfull
    refine (recvIgnore_post (c := (lisoConnErr c 400 s).1) (s := (lisoConnErr c 400 s).2) e h).mono
      ?_ fun _ h => h
    rintro c' - ⟨data, bytes, hsome, hne, rfl⟩
    exact .full data bytes hready hp (by omega) hsome hne rfl
  · split
    · exact lisoDropConn_gone h
    · rename_i data hdata
      -- At most the room in the buffer was asked for.
      obtain ⟨bytes, hbytes, rfl⟩ := Option.map_eq_some_iff.1 hdata
      split
      · exact lisoDropConn_gone h
      · rename_i hfull hne
        refine (Ret.post_some _ _).2
          (.parsed _ bytes hready hp ?_ hbytes (List.take_prefix _ _) hne ⟨s, rfl⟩)
        rw [List.length_take]
        omega

/-- The section `recv` makes of a connection what `Receipt` says, or drops it. -/
theorem stepRecv_receipt (e : Env) (h : c.idx < s.pool.conns.length) :
    (stepRecv e c s).Post (fun c' _ => Receipt e c s c') (fun _ => True) := by
  unfold stepRecv
  dsimp only
  split
  · rename_i hready
    exact cnRecv_receipt (s := (s.probe c.fd).act c.fd) e h (of_decide_eq_true hready)
  · exact (Ret.post_some _ _).2 (.idle rfl)

end Liso
