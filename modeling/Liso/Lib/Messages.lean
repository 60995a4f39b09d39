import Liso.Lib.Lines

/-!
# Messages that follow one another

A message is a head of lines, a blank line, and a body whose length the head tells (`size`). A
receiver reads it from the front of a stream: it searches the blank line, cuts the head into lines,
and takes as many bytes behind it as they say. When the lines are what they should be and tell the
length of the body, the receiver gets the message that the sender wrote and what follows it
(`readMessage_bytes`), and so a whole sequence of messages (`readAll_bytes`). What a message's
length follows from may differ from one message to the next, as it does for responses, whose bodies
depend on the request.
-/

namespace Lines

variable {line bs rest : List UInt8}

/-- A message. -/
structure Message where
  /-- The lines of the head, without their ends. -/
  lines : List (List UInt8)
  /-- The body. -/
  body : List UInt8
  deriving DecidableEq

/-- What the sender writes. -/
def Message.bytes (m : Message) : List UInt8 := block m.lines ++ crlf ++ m.body

/-- The lines of a head, each without its end; `acc` is the line read so far, the last byte
first. -/
def cutLines : List UInt8 → List UInt8 → List (List UInt8)
  | _, [] => []
  | acc, b :: bs =>
    if b = 10 ∧ acc.head? = some 13 then acc.tail.reverse :: cutLines [] bs
      else cutLines (b :: acc) bs

/-- A message from the front of a stream, and the rest; nothing when the stream does not begin with
a whole one. -/
def readMessage (size : List (List UInt8) → Option ℕ) (bs : List UInt8) :
    Option (Message × List UInt8) :=
  let lines := cutLines [] (headSection bs)
  if lines.getLast? = some [] then
    (size lines.dropLast).bind fun n =>
      let rest := bs.drop (headSection bs).length
      if n ≤ rest.length then some (⟨lines.dropLast, rest.take n⟩, rest.drop n) else none
  else none

/-- As many messages as there are lengths. -/
def readAll : List (List (List UInt8) → Option ℕ) → List UInt8 → Option (List Message × List UInt8)
  | [], bs => some ([], bs)
  | size :: sizes, bs =>
    (readMessage size bs).bind fun p => (readAll sizes p.2).map fun q => (p.1 :: q.1, q.2)

/-- A message as its receiver expects it. -/
structure Message.Sized (size : List (List UInt8) → Option ℕ) (m : Message) : Prop where
  /-- There is a line. -/
  nonempty : m.lines ≠ []
  /-- The lines are lines. -/
  lines : ∀ line ∈ m.lines, IsLine line
  /-- They tell the length of the body. -/
  body : size m.lines = some m.body.length

/-! ## Lines -/

/-- A line is read to its end. -/
theorem cutLines_line (h : 13 ∉ line) (acc : List UInt8) (hacc : 13 ∉ acc) :
    cutLines acc (line ++ crlf ++ bs) = (acc.reverse ++ line) :: cutLines [] bs := by
  induction line generalizing acc with
  | nil =>
    have hlf : ¬ ((13 : UInt8) = 10 ∧ acc.head? = some 13) := by simp
    show cutLines acc (13 :: 10 :: bs) = _
    rw [cutLines, if_neg hlf, cutLines, if_pos (by simp)]
    simp
  | cons b line ih =>
    rw [List.mem_cons, not_or] at h
    have hno : ¬ (b = 10 ∧ acc.head? = some 13) := fun hb => hacc (List.mem_of_head? hb.2)
    rw [List.cons_append, List.cons_append, cutLines, if_neg hno,
      ih h.2 (b :: acc) (by simp [h.1, hacc])]
    simp

/-- A block is cut into its lines. -/
theorem cutLines_block (lines : List (List UInt8)) (h : ∀ line ∈ lines, 13 ∉ line) :
    cutLines [] (block lines ++ crlf) = lines ++ [[]] := by
  induction lines with
  | nil => rfl
  | cons line lines ih =>
    have hcons : block (line :: lines) ++ crlf = line ++ crlf ++ (block lines ++ crlf) := by
      simp [block]
    rw [hcons, cutLines_line (h line (by simp)) [] (by simp),
      ih fun l hl => h l (List.mem_cons_of_mem _ hl)]
    rfl

/-! ## Messages -/

/-- The receiver gets the message that was written, and what follows it. -/
theorem readMessage_bytes {size : List (List UInt8) → Option ℕ} {m : Message} (h : m.Sized size)
    (rest : List UInt8) :
    readMessage size (m.bytes ++ rest) = some (m, rest) := by
  have hhead : headSection (m.bytes ++ rest) = block m.lines ++ crlf := by
    rw [Message.bytes, List.append_assoc, List.append_assoc]
    exact headSection_block m.lines h.nonempty h.lines _
  have hdrop : (m.bytes ++ rest).drop (block m.lines ++ crlf).length = m.body ++ rest := by
    rw [Message.bytes, List.append_assoc, List.drop_left]
  unfold readMessage
  rw [hhead, cutLines_block m.lines fun line hl => (h.lines line hl).2, hdrop]
  dsimp only
  rw [if_pos (by simp), List.dropLast_concat, h.body, Option.bind_some, if_pos (by simp),
    List.take_left, List.drop_left]

/-- The receiver gets all messages. -/
theorem readAll_bytes (ms : List ((List (List UInt8) → Option ℕ) × Message))
    (h : ∀ p ∈ ms, p.2.Sized p.1) (rest : List UInt8) :
    readAll (ms.map Prod.fst) ((ms.map fun p => p.2.bytes).flatten ++ rest) =
      some (ms.map Prod.snd, rest) := by
  induction ms with
  | nil => rfl
  | cons p ms ih =>
    have hih := ih fun q hq => h q (List.mem_cons_of_mem _ hq)
    rw [List.map_cons, List.map_cons, List.map_cons, List.flatten_cons, List.append_assoc, readAll,
      readMessage_bytes (h p (by simp)), Option.bind_some, hih]
    rfl

end Lines
