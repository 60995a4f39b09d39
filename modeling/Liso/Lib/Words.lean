import Mathlib

/-!
# The words of a list

`words f xs` are the maximal runs of elements of `xs` that do not satisfy `f`, in order. A scanner
that skips the elements that satisfy `f`, and then takes those that do not, finds them one after the
other (`words_skip`).
-/

namespace Words

variable {α : Type*} {f : α → Bool} {xs : List α}

/-- The maximal runs of elements that do not satisfy `f`. -/
def words (f : α → Bool) (xs : List α) : List (List α) := (xs.splitOnP f).filter fun w => !w.isEmpty

/-- The empty text has no words. -/
@[simp] theorem words_nil : words f [] = [] := by simp [words]

/-- An element between words does not change the words behind it. -/
theorem words_sep {b : α} (hb : f b = true) (xs : List α) : words f (b :: xs) = words f xs := by
  rw [words, List.splitOnP_cons_eq_if_modifyHead, if_pos hb]
  rfl

/-- A list without words in front. -/
theorem words_append {ys : List α} (h : ∀ b ∈ ys, f b = true) (xs : List α) :
    words f (ys ++ xs) = words f xs := by
  induction ys with
  | nil => rfl
  | cons b ys ih =>
    rw [List.cons_append, words_sep (h b (by simp))]
    exact ih fun b hb => h b (List.mem_cons_of_mem _ hb)

/-- A word at the front is the first of the words. -/
theorem words_word {w : List α} {b : α} (hw : w ≠ []) (h : ∀ c ∈ w, f c = false) (hb : f b = true)
    (xs : List α) :
    words f (w ++ b :: xs) = w :: words f (b :: xs) := by
  rw [words_sep hb, words, List.splitOnP_append_cons_of_forall_mem h b hb, List.filter_cons_of_pos]
  · rfl
  · simpa using hw

/-- A word is a part of the list. -/
theorem mem_of_mem {w : List α} (hw : w ∈ words f xs) {c : α} (hc : c ∈ w) : c ∈ xs := by
  have hsplit : ∀ (xs : List α) (w : List α), w ∈ xs.splitOnP f → ∀ c ∈ w, c ∈ xs := by
    intro xs
    induction xs with
    | nil =>
      intro w hw c hc
      rw [List.splitOnP_nil, List.mem_singleton] at hw
      exact hw ▸ hc
    | cons b xs ih =>
      intro w hw c hc
      rw [List.splitOnP_cons_eq_if_modifyHead] at hw
      split at hw
      · rcases List.mem_cons.1 hw with rfl | hw
        · simp at hc
        · exact List.mem_cons_of_mem _ (ih w hw c hc)
      · obtain ⟨w', ws, hcons⟩ := List.exists_cons_of_ne_nil (List.splitOnP_ne_nil f xs)
        rw [hcons, List.modifyHead_cons] at hw
        rcases List.mem_cons.1 hw with rfl | hw
        · rcases List.mem_cons.1 hc with rfl | hc
          · simp
          · exact List.mem_cons_of_mem _ (ih w' (by simp [hcons]) c hc)
        · exact List.mem_cons_of_mem _ (ih w (by simp [hcons, hw]) c hc)
  exact hsplit xs w (List.mem_filter.1 hw).1 c hc

/-- No element of a word separates words. -/
theorem not_of_mem {w : List α} (hw : w ∈ words f xs) {c : α} (hc : c ∈ w) : f c = false := by
  have hsplit : ∀ (xs : List α) (w : List α), w ∈ xs.splitOnP f → ∀ c ∈ w, f c = false := by
    intro xs
    induction xs with
    | nil =>
      intro w hw c hc
      rw [List.splitOnP_nil, List.mem_singleton] at hw
      rw [hw] at hc
      exact absurd hc (by simp)
    | cons b xs ih =>
      intro w hw c hc
      rw [List.splitOnP_cons_eq_if_modifyHead] at hw
      split at hw
      · rcases List.mem_cons.1 hw with rfl | hw
        · simp at hc
        · exact ih w hw c hc
      · rename_i hb
        obtain ⟨w', ws, hcons⟩ := List.exists_cons_of_ne_nil (List.splitOnP_ne_nil f xs)
        rw [hcons, List.modifyHead_cons] at hw
        rcases List.mem_cons.1 hw with rfl | hw
        · rcases List.mem_cons.1 hc with rfl | hc
          · simpa using hb
          · exact ih w' (by simp [hcons]) c hc
        · exact ih w (by simp [hcons, hw]) c hc
  exact hsplit xs w (List.mem_filter.1 hw).1 c hc

/-- The word that a scanner finds, when the list does not end in it. -/
theorem words_skip (hw : xs.takeWhile (fun c => !f c) ≠ [])
    (hne : xs.dropWhile (fun c => !f c) ≠ []) :
    words f xs = xs.takeWhile (fun c => !f c) :: words f (xs.dropWhile fun c => !f c) := by
  obtain ⟨b, ys, hd⟩ := List.exists_cons_of_ne_nil hne
  have hb : f b = true := by
    have := List.head_dropWhile_not (p := fun c => !f c) (l := xs) hne
    simpa [hd] using this
  have hrun : ∀ c ∈ xs.takeWhile (fun c => !f c), f c = false := by
    intro c hc
    simpa using List.mem_takeWhile_imp hc
  calc words f xs
      = words f (xs.takeWhile (fun c => !f c) ++ b :: ys) := by
        rw [← hd, List.takeWhile_append_dropWhile]
    _ = xs.takeWhile (fun c => !f c) :: words f (xs.dropWhile fun c => !f c) := by
      rw [words_word hw hrun hb, hd]

end Words
