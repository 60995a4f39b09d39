import Mathlib

/-!
# Heads of messages

A message in the style of HTTP begins with lines that end in a carriage return and a line feed; an
empty line ends the head, and what follows is the body. `headSection` is the head of a message as
its receiver finds it, by a search for the first blank line. When the lines are what they should be
(not empty, and without a carriage return inside), the receiver finds the head that the sender
wrote, whatever the body is.
-/

namespace Lines

variable {line bs : List UInt8}

/-- The end of a line. -/
def crlf : List UInt8 := [13, 10]

/-- A message up to its first blank line, which is included; the whole message if there is none. -/
def headSection : List UInt8 → List UInt8
  | [] => []
  | b :: bs => if crlf ++ crlf <+: b :: bs then crlf ++ crlf else b :: headSection bs

/-- The text of a line: it is not empty and has no carriage return inside. -/
def IsLine (line : List UInt8) : Prop := line ≠ [] ∧ 13 ∉ line

/-- The lines of a head, each with its end. -/
def block (lines : List (List UInt8)) : List UInt8 := lines.flatMap (· ++ crlf)

/-- Another byte than a carriage return does not begin the blank line. -/
theorem headSection_cons {b : UInt8} (h : b ≠ 13) (bs : List UInt8) :
    headSection (b :: bs) = b :: headSection bs := by
  rw [headSection, if_neg]
  rintro ⟨t, ht⟩
  simp only [crlf, List.cons_append, List.cons.injEq] at ht
  exact h ht.1.symm

/-- The text of a line does not end the head. -/
theorem headSection_append (h : 13 ∉ line) (bs : List UInt8) :
    headSection (line ++ bs) = line ++ headSection bs := by
  induction line with
  | nil => rfl
  | cons b line ih =>
    rw [List.mem_cons, not_or] at h
    rw [List.cons_append, headSection_cons (Ne.symm h.1), ih h.2, List.cons_append]

/-- The end of a line that another line follows. -/
theorem headSection_crlf {b : UInt8} (h : b ≠ 13) (bs : List UInt8) :
    headSection (crlf ++ b :: bs) = crlf ++ headSection (b :: bs) := by
  have hno : ¬ (crlf ++ crlf <+: 13 :: 10 :: b :: bs) := by
    rintro ⟨t, ht⟩
    simp only [crlf, List.cons_append, List.nil_append, List.cons.injEq] at ht
    exact h ht.2.2.1.symm
  show headSection (13 :: 10 :: b :: bs) = 13 :: 10 :: headSection (b :: bs)
  rw [headSection, if_neg hno, headSection_cons (by decide)]

/-- The end of the last line, with the blank line behind it. -/
theorem headSection_blank (bs : List UInt8) :
    headSection (crlf ++ (crlf ++ bs)) = crlf ++ crlf := by
  show headSection (13 :: 10 :: 13 :: 10 :: bs) = _
  rw [headSection, if_pos ⟨bs, rfl⟩]

/-- The receiver finds the head that was written. -/
theorem headSection_block (lines : List (List UInt8)) (hne : lines ≠ [])
    (h : ∀ line ∈ lines, IsLine line) (bs : List UInt8) :
    headSection (block lines ++ (crlf ++ bs)) = block lines ++ crlf := by
  induction lines with
  | nil => exact absurd rfl hne
  | cons line lines ih =>
    have hline := (h line (by simp)).2
    have hrest : headSection (crlf ++ (block lines ++ (crlf ++ bs))) = crlf ++
      (block lines ++ crlf) := by
      cases lines with
      | nil => exact headSection_blank bs
      | cons next lines =>
        have hih := ih (by simp) fun l hl => h l (List.mem_cons_of_mem _ hl)
        obtain ⟨hnext, hclean⟩ := h next (by simp)
        -- The next line begins with another byte than a carriage return.
        obtain ⟨b, next, rfl⟩ := List.exists_cons_of_ne_nil hnext
        rw [List.mem_cons, not_or] at hclean
        have hcons : block ((b :: next) :: lines) = b :: (next ++ crlf ++ block lines) := rfl
        rw [hcons, List.cons_append] at hih ⊢
        rw [headSection_crlf (Ne.symm hclean.1), hih, List.cons_append]
    have hcons : block (line :: lines) = line ++ (crlf ++ block lines) := by
      simp only [block, List.flatMap_cons, List.append_assoc]
    rw [hcons, List.append_assoc, List.append_assoc, headSection_append hline,
      hrest, List.append_assoc,
      List.append_assoc]

end Lines
