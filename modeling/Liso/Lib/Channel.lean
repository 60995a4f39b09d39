import Mathlib

/-!
# Streams in packets

A sender cuts a stream into packets, and a byte transport delivers them in any portions; a packet
takes more bytes there than it carries. A `Channel` is the receiving end. It takes bytes out of the
transport until it has one whole packet, hands out the text of that packet in portions of at most
the size asked for, and keeps the rest of it. Whatever is read, what was handed out and what is
still to be handed out are the stream (`Channel.stream_read`). Who watches the transport alone does
not see the text that was kept. It is enough when bytes stand in the transport whenever text was
kept (`Channel.Visible`), and `Channel.safe_iff` says which reads leave it so.
-/

namespace Channels

variable {α : Type*} {limit : ℕ}

/-- A packet: a part of a stream, of at most `limit` elements, and the number of bytes that it takes
in the transport. -/
structure Packet (α : Type*) (limit : ℕ) where
  /-- What it carries. -/
  text : List α
  /-- The bytes in the transport. -/
  size : ℕ
  /-- It carries no more than the limit. -/
  text_le : text.length ≤ limit
  /-- The bytes in the transport are more than those carried. -/
  text_lt : text.length < size

/-- The receiving end of a stream in packets. -/
structure Channel (α : Type*) (limit : ℕ) where
  /-- What is left of the text of the packet that was opened last. -/
  pending : List α
  /-- The bytes of the next packet that were taken out of the transport. -/
  held : ℕ
  /-- The bytes that stand in the transport. -/
  raw : ℕ
  /-- The packets that were not opened yet. -/
  rest : List (Packet α limit)

/-- The text of some packets. -/
def texts (ps : List (Packet α limit)) : List α := ps.flatMap Packet.text

/-- Before anything arrived. -/
def Channel.start (ps : List (Packet α limit)) : Channel α limit := ⟨[], 0, 0, ps⟩

/-- What is still to be handed out. -/
def Channel.stream (z : Channel α limit) : List α := z.pending ++ texts z.rest

/-- At most `n` bytes arrive: as many as are still to come. -/
def Channel.deliver (z : Channel α limit) (n : ℕ) : Channel α limit :=
  { z with raw := z.raw + min n ((z.rest.map Packet.size).sum - (z.held + z.raw)) }

/-- Read at most `len` elements: what is handed out, or nothing when no packet is complete, and the
channel. Text that was kept is handed out first, without a look at the transport. -/
def Channel.read (z : Channel α limit) (len : ℕ) : Option (List α) × Channel α limit :=
  match z.pending, z.rest with
  | a :: as, _ => (some ((a :: as).take len), { z with pending := (a :: as).drop len })
  | [], [] => (none, { z with held := z.held + z.raw, raw := 0 })
  | [], p :: ps =>
    if p.size ≤ z.held + z.raw then
      (some (p.text.take len), ⟨p.text.drop len, 0, z.held + z.raw - p.size, ps⟩)
    else (none, { z with held := z.held + z.raw, raw := 0 })

/-- When text was kept, bytes stand in the transport. -/
def Channel.Visible (z : Channel α limit) : Prop := z.pending ≠ [] → z.raw ≠ 0

/-- A packet that has to be opened has arrived as a whole, and its text is read at once, or there
are more bytes behind it. -/
def Channel.Safe (z : Channel α limit) (len : ℕ) : Prop :=
  z.pending = [] → ∃ p ∈ z.rest.head?, p.size ≤ z.held + z.raw ∧
    (p.text.length ≤ len ∨ p.size < z.held + z.raw)

/-- `Channel.Safe` is decidable. -/
instance [DecidableEq α] (z : Channel α limit) (len : ℕ) : Decidable (z.Safe len) :=
  inferInstanceAs (Decidable (_ → _))

section Read

variable (z : Channel α limit) (len : ℕ)

/-- Text that was kept is handed out. -/
theorem Channel.read_pending (h : z.pending ≠ []) :
    z.read len = (some (z.pending.take len), { z with pending := z.pending.drop len }) := by
  obtain ⟨_ | ⟨a, as⟩, held, raw, rest⟩ := z
  · exact absurd rfl h
  · rfl

/-- Otherwise the next packet is opened, if it is complete. -/
theorem Channel.read_packet {p : Packet α limit} {ps : List (Packet α limit)}
    (h : z.pending = []) (hrest : z.rest = p :: ps) :
    z.read len = if p.size ≤ z.held + z.raw then
        (some (p.text.take len), ⟨p.text.drop len, 0, z.held + z.raw - p.size, ps⟩)
      else (none, { z with held := z.held + z.raw, raw := 0 }) := by
  obtain ⟨pending, held, raw, rest⟩ := z
  obtain rfl : pending = [] := h
  obtain rfl : rest = p :: ps := hrest
  rfl

/-- Without a packet to come, nothing is handed out. -/
theorem Channel.read_end (h : z.pending = []) (hrest : z.rest = []) :
    z.read len = (none, { z with held := z.held + z.raw, raw := 0 }) := by
  obtain ⟨pending, held, raw, rest⟩ := z
  obtain rfl : pending = [] := h
  obtain rfl : rest = [] := hrest
  rfl

/-- No more is handed out than was asked for. -/
theorem Channel.length_read {as : List α} (h : as ∈ (z.read len).1) : as.length ≤ len := by
  by_cases hp : z.pending = []
  case neg =>
    rw [z.read_pending len hp, Option.mem_some_iff] at h
    rw [← h]
    exact List.length_take_le len z.pending
  cases hrest : z.rest with
  | nil => simp [z.read_end len hp hrest] at h
  | cons p ps =>
    rw [z.read_packet len hp hrest] at h
    split at h
    · rw [Option.mem_some_iff] at h
      rw [← h]
      exact List.length_take_le len p.text
    · simp at h

/-- What is handed out is the beginning of what was to be handed out, and nothing is lost when a
read fails. -/
theorem Channel.stream_read : (z.read len).1.getD [] ++ (z.read len).2.stream = z.stream := by
  unfold Channel.stream
  by_cases hp : z.pending = []
  case neg =>
    rw [z.read_pending len hp]
    show z.pending.take len ++ (z.pending.drop len ++ texts z.rest) = _
    rw [← List.append_assoc, List.take_append_drop]
  cases hrest : z.rest with
  | nil =>
    rw [z.read_end len hp hrest]
    exact congrArg (z.pending ++ texts ·) hrest
  | cons p ps =>
    rw [z.read_packet len hp hrest, hp]
    split
    · show p.text.take len ++ (p.text.drop len ++ texts ps) = [] ++ (p.text ++ texts ps)
      rw [← List.append_assoc, List.take_append_drop, List.nil_append]
    · show [] ++ ([] ++ texts z.rest) = _
      rw [hrest, List.nil_append]

end Read

variable {z : Channel α limit} {len : ℕ}

/-- Arriving bytes can be seen. -/
theorem Channel.Visible.deliver (h : z.Visible) (n : ℕ) : (z.deliver n).Visible := by
  intro hp
  have hraw : z.raw ≠ 0 := h hp
  show z.raw + _ ≠ 0
  omega

/-- The safe reads are those that succeed and keep no text that cannot be seen. -/
theorem Channel.safe_iff (h : z.Visible) :
    z.Safe len ↔ (z.read len).1 ≠ none ∧ (z.read len).2.Visible := by
  by_cases hp : z.pending = []
  case neg =>
    rw [z.read_pending len hp]
    exact ⟨fun _ => ⟨by simp, fun _ => h hp⟩, fun _ hp' => absurd hp' hp⟩
  cases hrest : z.rest with
  | nil =>
    rw [z.read_end len hp hrest]
    constructor
    · intro hs
      obtain ⟨p, hmem, -⟩ := hs hp
      rw [hrest] at hmem
      simp at hmem
    · rintro ⟨hne, -⟩
      exact absurd rfl hne
  | cons p ps =>
    have hsafe : z.Safe len ↔ p.size ≤ z.held + z.raw ∧
        (p.text.length ≤ len ∨ p.size < z.held + z.raw) := by
      simp [Channel.Safe, hp, hrest]
    rw [hsafe, z.read_packet len hp hrest]
    by_cases hsize : p.size ≤ z.held + z.raw
    · -- The packet is opened; what is left of its text is seen by the bytes behind it.
      rw [if_pos hsize]
      have hvis : (⟨p.text.drop len, 0, z.held + z.raw - p.size, ps⟩ : Channel α limit).Visible ↔
          (len < p.text.length → z.held + z.raw - p.size ≠ 0) := by
        rw [Channel.Visible, ne_eq, List.drop_eq_nil_iff, not_le]
      rw [hvis]
      simp only [ne_eq, reduceCtorEq, not_false_eq_true, true_and, hsize]
      omega
    · rw [if_neg hsize]
      exact ⟨fun hs => absurd hs.1 hsize, fun hs => absurd rfl hs.1⟩

end Channels
