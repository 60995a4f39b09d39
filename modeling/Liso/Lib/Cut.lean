import Mathlib

/-!
# Cutting a stream at line ends

`cut` divides a list at every occurrence of a separator: the complete lines, each with the separator
at its end, and what is left behind the last one. A receiver that gets the list in pieces finds the
same lines, since only the part behind the last separator has to wait for the next piece
(`cut_append`).
-/

namespace Cut

variable {α : Type*} [DecidableEq α] {sep : α} {xs ys : List α}

/-- The complete lines of a list, and what is left. -/
def cut (sep : α) : List α → List (List α) × List α
  | [] => ([], [])
  | b :: bs =>
    if b = sep then ([b] :: (cut sep bs).1, (cut sep bs).2)
    else match (cut sep bs).1 with
      | [] => ([], b :: (cut sep bs).2)
      | l :: ls => ((b :: l) :: ls, (cut sep bs).2)

/-- The complete lines. -/
def lines (sep : α) (xs : List α) : List (List α) := (cut sep xs).1

/-- What is left behind the last separator. -/
def rest (sep : α) (xs : List α) : List α := (cut sep xs).2

/-- The number of elements in the complete lines. -/
def whole (sep : α) (xs : List α) : ℕ := (lines sep xs).flatten.length

/-- A complete line: the separator is at its end and nowhere else. -/
def IsLine (sep : α) (l : List α) : Prop := ∃ text, l = text ++ [sep] ∧ sep ∉ text

/-- The empty text has no lines. -/
@[simp] theorem lines_nil : lines sep ([] : List α) = [] := rfl

/-- The empty text has nothing behind its lines. -/
@[simp] theorem rest_nil : rest sep ([] : List α) = [] := rfl

/-- A separator in front is a line of its own. -/
theorem lines_sep (bs : List α) : lines sep (sep :: bs) = [sep] :: lines sep bs := by
  simp [lines, cut]

/-- A separator in front does not change what is behind the lines. -/
theorem rest_sep (bs : List α) : rest sep (sep :: bs) = rest sep bs := by simp [rest, cut]

/-- An element in front of a list without complete lines. -/
theorem cut_cons_nil {b : α} (hb : b ≠ sep) (h : lines sep xs = []) :
    lines sep (b :: xs) = [] ∧ rest sep (b :: xs) = b :: rest sep xs := by
  have h : (cut sep xs).1 = [] := h
  simp [lines, rest, cut, hb, h]

/-- An element in front of the first line. -/
theorem cut_cons_cons {b : α} {l : List α} {ls : List (List α)} (hb : b ≠ sep)
    (h : lines sep xs = l :: ls) :
    lines sep (b :: xs) = (b :: l) :: ls ∧ rest sep (b :: xs) = rest sep xs := by
  have h : (cut sep xs).1 = l :: ls := h
  simp [lines, rest, cut, hb, h]

/-- The lines of a text and its rest make up the text. -/
theorem flatten_lines (sep : α) (xs : List α) : (lines sep xs).flatten ++ rest sep xs = xs := by
  induction xs with
  | nil => rfl
  | cons b xs ih =>
    by_cases hb : b = sep
    · subst hb
      rw [lines_sep, rest_sep, List.flatten_cons, List.append_assoc, ih]
      rfl
    · rcases hl : lines sep xs with _ | ⟨l, ls⟩
      · obtain ⟨h1, h2⟩ := cut_cons_nil hb hl
        rw [hl] at ih
        rw [h1, h2, List.flatten_nil, List.nil_append]
        exact congrArg (b :: ·) ih
      · obtain ⟨h1, h2⟩ := cut_cons_cons hb hl
        rw [hl] at ih
        rw [h1, h2]
        exact congrArg (b :: ·) ih

/-- No separator is left. -/
theorem sep_notMem_rest (sep : α) (xs : List α) : sep ∉ rest sep xs := by
  induction xs with
  | nil => simp
  | cons b xs ih =>
    by_cases hb : b = sep
    · rw [hb, rest_sep]
      exact ih
    · rcases hl : lines sep xs with _ | ⟨l, ls⟩
      · rw [(cut_cons_nil hb hl).2, List.mem_cons, not_or]
        exact ⟨Ne.symm hb, ih⟩
      · rw [(cut_cons_cons hb hl).2]
        exact ih

/-- The lines are complete. -/
theorem isLine_of_mem {l : List α} (h : l ∈ lines sep xs) : IsLine sep l := by
  induction xs generalizing l with
  | nil => simp at h
  | cons b xs ih =>
    by_cases hb : b = sep
    · subst hb
      rw [lines_sep, List.mem_cons] at h
      rcases h with rfl | h
      · exact ⟨[], rfl, by simp⟩
      · exact ih h
    · rcases hl : lines sep xs with _ | ⟨l', ls⟩
      · rw [(cut_cons_nil hb hl).1] at h
        simp at h
      · rw [(cut_cons_cons hb hl).1, List.mem_cons] at h
        rcases h with rfl | h
        · obtain ⟨text, rfl, hsep⟩ := ih (l := l') (by simp [hl])
          exact ⟨b :: text, rfl, by simp [Ne.symm hb, hsep]⟩
        · exact ih (by simp [hl, h])

/-- The number of elements behind the complete lines. -/
theorem whole_add_rest (sep : α) (xs : List α) :
    whole sep xs + (rest sep xs).length = xs.length := by
  have h := congrArg List.length (flatten_lines sep xs)
  rwa [List.length_append] at h

/-- The front of a text up to its last separator is its lines. -/
theorem take_whole (sep : α) (xs : List α) : xs.take (whole sep xs) = (lines sep xs).flatten :=
  calc xs.take (whole sep xs)
      = ((lines sep xs).flatten ++ rest sep xs).take (lines sep xs).flatten.length := by
        rw [flatten_lines]
        rfl
    _ = (lines sep xs).flatten := List.take_left

/-- What is behind the last separator is the rest. -/
theorem drop_whole (sep : α) (xs : List α) : xs.drop (whole sep xs) = rest sep xs :=
  calc xs.drop (whole sep xs)
      = ((lines sep xs).flatten ++ rest sep xs).drop (lines sep xs).flatten.length := by
        rw [flatten_lines]
        rfl
    _ = rest sep xs := List.drop_left

/-- A list that ends in the separator is the list of its lines. -/
theorem flatten_lines_of_last (h : xs.getLast? = some sep) : (lines sep xs).flatten = xs := by
  have hall := flatten_lines sep xs
  have hrest : rest sep xs = [] := by
    rcases List.eq_nil_or_concat' (rest sep xs) with he | ⟨bs, b, he⟩
    · exact he
    · rw [← hall, he, ← List.append_assoc, List.getLast?_concat, Option.some.injEq] at h
      have hno := sep_notMem_rest sep xs
      rw [he, h] at hno
      simp at hno
  rwa [hrest, List.append_nil] at hall

/-- Such a list has a line. -/
theorem lines_ne_nil (h : xs.getLast? = some sep) : lines sep xs ≠ [] := by
  intro hnil
  have hall := flatten_lines_of_last h
  rw [hnil, List.flatten_nil] at hall
  rw [← hall] at h
  simp at h

/-- The complete lines end in the separator. -/
theorem getLast?_lines (h : lines sep xs ≠ []) : (lines sep xs).flatten.getLast? = some sep := by
  obtain ⟨text, hlast, -⟩ := isLine_of_mem (List.getLast_mem h)
  rw [← List.dropLast_append_getLast h, List.flatten_append, List.flatten_singleton,
    hlast, ← List.append_assoc,
    List.getLast?_concat]

/-- A list without separators has no complete line. -/
theorem lines_eq_nil (h : sep ∉ xs) : lines sep xs = [] := by
  induction xs with
  | nil => rfl
  | cons b xs ih =>
    rw [List.mem_cons, not_or] at h
    exact (cut_cons_nil (Ne.symm h.1) (ih h.2)).1

/-- The complete lines do not change when more arrives, and what was left waits for it. -/
theorem cut_append (xs ys : List α) :
    lines sep (xs ++ ys) = lines sep xs ++ lines sep (rest sep xs ++ ys) ∧
      rest sep (xs ++ ys) = rest sep (rest sep xs ++ ys) := by
  induction xs with
  | nil => exact ⟨rfl, rfl⟩
  | cons b xs ih =>
    rw [List.cons_append]
    by_cases hb : b = sep
    · subst hb
      rw [lines_sep, rest_sep, lines_sep, rest_sep, ih.1, ih.2]
      exact ⟨rfl, rfl⟩
    · rcases hl : lines sep xs with _ | ⟨l, ls⟩
      · -- What was left is the whole list.
        have hxs : rest sep xs = xs := by
          have h := flatten_lines sep xs
          rwa [hl] at h
        obtain ⟨h1, h2⟩ := cut_cons_nil hb hl
        rw [h1, h2, hxs]
        exact ⟨rfl, rfl⟩
      · obtain ⟨h1, h2⟩ := cut_cons_cons hb hl
        rw [hl] at ih
        obtain ⟨h3, h4⟩ := cut_cons_cons hb ih.1
        rw [h1, h2, h3, h4, ih.2]
        exact ⟨rfl, rfl⟩

/-- The lines of a text that is continued: its own ones, and those of its rest with the
continuation. -/
theorem lines_append (xs ys : List α) :
    lines sep (xs ++ ys) = lines sep xs ++ lines sep (rest sep xs ++ ys) :=
  (cut_append xs ys).1

/-- What has no separator belongs to the first line behind it. -/
theorem cut_front {l : List α} {ls : List (List α)} (h : sep ∉ xs) (hy : lines sep ys = l :: ls) :
    lines sep (xs ++ ys) = (xs ++ l) :: ls ∧ rest sep (xs ++ ys) = rest sep ys := by
  induction xs with
  | nil => exact ⟨hy, rfl⟩
  | cons b xs ih =>
    rw [List.mem_cons, not_or] at h
    obtain ⟨h1, h2⟩ := ih h.2
    obtain ⟨h3, h4⟩ := cut_cons_cons (Ne.symm h.1) h1
    exact ⟨h3, h4.trans h2⟩

/-- The number of bytes in the lines of a text that is continued. -/
theorem whole_append (sep : α) (xs ys : List α) :
    whole sep (xs ++ ys) = whole sep xs + whole sep (rest sep xs ++ ys) := by
  rw [whole, lines_append, List.flatten_append, List.length_append]
  rfl

/-- Where the last complete line ends, when what arrived has a separator. -/
theorem whole_append_of_lines (xs : List α) (h : lines sep ys ≠ []) :
    whole sep (xs ++ ys) = xs.length + whole sep ys := by
  obtain ⟨l, ls, hl⟩ := List.exists_cons_of_ne_nil h
  have hsum := whole_add_rest sep xs
  have hfront : whole sep (rest sep xs ++ ys) = (rest sep xs).length + whole sep ys := by
    rw [whole, (cut_front (sep_notMem_rest sep xs) hl).1, whole, hl,
      List.flatten_cons, List.flatten_cons,
      List.append_assoc, List.length_append]
  rw [whole_append, hfront]
  omega

/-- Without a separator there is no new line. -/
theorem lines_rest_eq_nil (xs : List α) (h : lines sep ys = []) :
    lines sep (rest sep xs ++ ys) = [] := by
  refine lines_eq_nil fun hmem => ?_
  rcases List.mem_append.1 hmem with hx | hy
  · exact sep_notMem_rest sep xs hx
  · have hrest := flatten_lines sep ys
    rw [h, List.flatten_nil, List.nil_append] at hrest
    rw [← hrest] at hy
    exact sep_notMem_rest sep ys hy

/-- The lines of a list of complete lines. -/
theorem lines_flatten {ls : List (List α)} (h : ∀ l ∈ ls, IsLine sep l) (ys : List α) :
    lines sep (ls.flatten ++ ys) = ls ++ lines sep ys := by
  have hone : ∀ text zs : List α, sep ∉ text →
      lines sep (text ++ sep :: zs) = (text ++ [sep]) :: lines sep zs := by
    intro text
    induction text with
    | nil => exact fun zs _ => lines_sep zs
    | cons b text ih =>
      intro zs hb
      rw [List.mem_cons, not_or] at hb
      exact (cut_cons_cons (Ne.symm hb.1) (ih zs hb.2)).1
  induction ls with
  | nil => rfl
  | cons l ls ih =>
    obtain ⟨text, rfl, hsep⟩ := h l (by simp)
    rw [List.flatten_cons, List.append_assoc, List.append_assoc, List.singleton_append,
      hone _ _ hsep,
      ih fun l hl => h l (List.mem_cons_of_mem _ hl)]
    rfl

end Cut
