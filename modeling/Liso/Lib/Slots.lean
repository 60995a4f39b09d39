import Mathlib

/-!
# Arrays whose entries know their place

An array of entries each of which records its own position, so that an entry can be removed without
a search: the last entry takes its place, and its record is brought up to date. `swapRemove` is that
removal, for any type of entries with a function `put` that updates the record. As far as everything
but the record is concerned it is the removal of one entry (`swapRemove_perm`), also when the entry
is the last one, which is moved onto itself first.
-/

namespace Slots

variable {α β : Type*} {place : α → ℕ} {put : ℕ → α → α} {f : α → β} {l : List α} {i : ℕ} {x : α}

/-- Every entry records its position. -/
def Placed (place : α → ℕ) (l : List α) : Prop := ∀ i x, l[i]? = some x → place x = i

/-- Remove the entry `i`: the last one takes its place. -/
def swapRemove (put : ℕ → α → α) (l : List α) (i : ℕ) : List α :=
  match l.getLast? with
  | some last => (l.set i (put i last)).dropLast
  | none => []

/-- The removal on an array that ends in `x`. -/
theorem swapRemove_concat (l : List α) (x : α) (i : ℕ) :
    swapRemove put (l ++ [x]) i = if i < l.length then l.set i (put i x) else l := by
  unfold swapRemove
  rw [List.getLast?_concat]
  dsimp only
  split_ifs with h
  · rw [List.set_append_left _ _ h, List.dropLast_concat]
  · rw [List.set_append_right _ _ (not_lt.1 h)]
    cases hk : i - l.length with
    | zero => rw [List.set_cons_zero, List.dropLast_concat]
    | succ k => rw [List.set_cons_succ, List.set_nil, List.dropLast_concat]

/-- In the empty array every entry knows its place. -/
theorem placed_nil : Placed place [] := fun i x h => by simp at h

/-- A new entry at the end that records the length. -/
theorem Placed.concat (h : Placed place l) (hx : place x = l.length) : Placed place (l ++ [x]) := by
  intro i y hy
  rcases lt_trichotomy i l.length with hi | hi | hi
  · rw [List.getElem?_append_left hi] at hy
    exact h i y hy
  · rw [hi, List.getElem?_concat_length, Option.some.injEq] at hy
    rw [← hy, hx, hi]
  · rw [List.getElem?_eq_none (by simp only [List.length_append, List.length_singleton]; omega)]
      at hy
    simp at hy

/-- Without its last entry, every entry of the array knows its place, and the last one knew its own.
-/
theorem Placed.of_concat (h : Placed place (l ++ [x])) : Placed place l ∧ place x = l.length := by
  refine ⟨fun i y hy => h i y ?_, h _ x ?_⟩
  · rw [List.getElem?_append_left (List.getElem?_eq_some_iff.1 hy).1]
    exact hy
  · exact List.getElem?_concat_length

/-- A change of entries that keeps their records. -/
theorem Placed.map (h : Placed place l) {g : α → α} (hg : ∀ x, place (g x) = place x) :
    Placed place (l.map g) := by
  intro i y hy
  rw [List.getElem?_map, Option.map_eq_some_iff] at hy
  obtain ⟨x, hx, rfl⟩ := hy
  rw [hg, h i x hx]

/-- The entry that takes another's place records it. -/
theorem Placed.swapRemove (h : Placed place l) (hput : ∀ i x, place (put i x) = i) (i : ℕ) :
    Placed place (swapRemove put l i) := by
  rcases List.eq_nil_or_concat l with rfl | ⟨l, x, rfl⟩
  · exact placed_nil
  rw [List.concat_eq_append] at h ⊢
  rw [swapRemove_concat]
  obtain ⟨hl, -⟩ := h.of_concat
  split_ifs with hi
  · intro j y hy
    by_cases hj : j = i
    · rw [hj, List.getElem?_set_self hi, Option.some.injEq] at hy
      rw [← hy, hput, hj]
    · rw [List.getElem?_set_ne (Ne.symm hj)] at hy
      exact hl j y hy
  · exact hl

/-- Up to the order and the records of the places, the removal removes the entry `i`. -/
theorem swapRemove_perm (hf : ∀ i x, f (put i x) = f x) (hi : i < l.length) :
    ((swapRemove put l i).map f).Perm ((l.map f).eraseIdx i) := by
  rcases List.eq_nil_or_concat l with rfl | ⟨l, x, rfl⟩
  · simp at hi
  rw [List.concat_eq_append] at hi ⊢
  rw [swapRemove_concat, List.map_append, List.map_singleton]
  split_ifs with hl
  · have hlen : i < (l.map f).length := by rw [List.length_map]; exact hl
    rw [List.map_set, hf, List.eraseIdx_append_of_lt_length hlen]
    exact (List.set_perm_cons_eraseIdx hlen (f x)).trans (List.perm_append_singleton _ _).symm
  · have hlen : i = (l.map f).length := by
      rw [List.length_append, List.length_singleton] at hi
      rw [List.length_map]
      omega
    rw [List.eraseIdx_append_of_length_le hlen.ge, hlen, Nat.sub_self, List.eraseIdx_cons_zero,
      List.append_nil]

/-- The entries from the place `i` on, after the removal of the entry `i`, are those that came
behind it. -/
theorem swapRemove_drop_perm (hf : ∀ i x, f (put i x) = f x) (hi : i < l.length) :
    (((swapRemove put l i).drop i).map f).Perm ((l.drop (i + 1)).map f) := by
  rcases List.eq_nil_or_concat l with rfl | ⟨l, x, rfl⟩
  · simp at hi
  rw [List.concat_eq_append] at hi ⊢
  rw [List.length_append, List.length_singleton] at hi
  rw [swapRemove_concat]
  split_ifs with hl
  · rw [List.drop_append_of_le_length (by omega), List.map_append, List.map_singleton,
      List.drop_eq_getElem_cons (by rw [List.length_set]; exact hl), List.getElem_set_self,
      List.drop_set_of_lt (by omega), List.map_cons, hf]
    exact (List.perm_append_singleton _ _).symm
  · rw [List.drop_eq_nil_of_le (by omega), List.drop_eq_nil_of_le
      (by rw [List.length_append, List.length_singleton]; omega)]

/-- An entry whose key no other entry has is removed by its key. -/
theorem eraseIdx_eq_filter [DecidableEq β] (h : (l.map f).Nodup) (hx : l[i]? = some x) :
    l.eraseIdx i = l.filter (f · ≠ f x) := by
  induction l generalizing i with
  | nil => rfl
  | cons y l ih =>
    rw [List.map_cons, List.nodup_cons] at h
    cases i with
    | zero =>
      rw [List.getElem?_cons_zero, Option.some.injEq] at hx
      subst hx
      rw [List.eraseIdx_cons_zero, List.filter_cons_of_neg (by simp), List.filter_eq_self.2]
      intro z hz
      have hne : f z ≠ f y := fun he => h.1 (he ▸ List.mem_map_of_mem hz)
      simpa using hne
    | succ i =>
      rw [List.getElem?_cons_succ] at hx
      have hne : f y ≠ f x := fun he => h.1 (he ▸ List.mem_map_of_mem (List.mem_of_getElem? hx))
      rw [List.eraseIdx_cons_succ, List.filter_cons_of_pos (by simpa using hne), ih h.2 hx]

end Slots
