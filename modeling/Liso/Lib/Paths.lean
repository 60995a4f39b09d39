import Mathlib

/-!
# Paths

A path is a list of characters, which a separator cuts into components. `locate` resolves the
components lexically: an empty component and a single dot stay, two dots go to the parent, and
everything else goes to the entry of that name. A path that does not begin with the separator is
relative to an unknown directory, whose ancestors are counted.

The question answered here is when a text `t`, put behind a folder `w`, denotes a location in that
folder. `Paths.under_of_stays` gives a condition on `t` that is enough for every folder, and
`Paths.exists_not_under` shows that no weaker one is.
-/

namespace Paths

variable {ν : Type*}

/-! ## Locations -/

/-- A component that leads elsewhere. -/
inductive Part (ν : Type*)
  /-- To the parent. -/
  | up
  /-- To the entry with a name. -/
  | name (n : ν)

/-- A location: the entries passed on the way from the root, or from an ancestor of an unknown
directory. -/
structure Loc (ν : Type*) where
  /-- The way starts at the root. -/
  abs : Bool
  /-- The number of the ancestor otherwise. -/
  ups : ℕ
  /-- The entries, the last one first. -/
  names : List ν

/-- One component further. The root is its own parent. -/
def Loc.go (l : Loc ν) : Part ν → Loc ν
  | .name n => { l with names := n :: l.names }
  | .up => match l.names with
    | _ :: names => { l with names := names }
    | [] => if l.abs then l else { l with ups := l.ups + 1 }

/-- Several components further. -/
def Loc.walk (l : Loc ν) (parts : List (Part ν)) : Loc ν := parts.foldl Loc.go l

/-- The location lies in the folder `w`. -/
def Loc.Under (l w : Loc ν) : Prop := l.abs = w.abs ∧ l.ups = w.ups ∧ w.names <:+ l.names

/-- On no part of the way that begins `d` levels deep are there more steps up than down. -/
def Stays : ℕ → List (Part ν) → Prop
  | _, [] => True
  | d, .name _ :: parts => Stays (d + 1) parts
  | 0, .up :: _ => False
  | d + 1, .up :: parts => Stays d parts

/-- It can be decided. -/
instance Stays.decidable : ∀ (d : ℕ) (parts : List (Part ν)), Decidable (Stays d parts)
  | _, [] => isTrue trivial
  | d, .name _ :: parts => Stays.decidable (d + 1) parts
  | 0, .up :: _ => isFalse id
  | d + 1, .up :: parts => Stays.decidable d parts

/-- A path without parts leads nowhere else. -/
@[simp] theorem Loc.walk_nil (l : Loc ν) : l.walk [] = l := rfl

/-- A path is walked part by part. -/
theorem Loc.walk_append (l : Loc ν) (parts parts' : List (Part ν)) :
    l.walk (parts ++ parts') = (l.walk parts).walk parts' := List.foldl_append

/-- Every location is below itself. -/
theorem Loc.Under.refl (w : Loc ν) : w.Under w := ⟨rfl, rfl, List.suffix_refl _⟩

/-- Deeper down there is more room. -/
theorem Stays.mono {parts : List (Part ν)} {d k : ℕ} (h : Stays d parts) (hd : d ≤ k) :
    Stays k parts := by
  induction parts generalizing d k with
  | nil => trivial
  | cons p parts ih =>
    cases p with
    | name n => exact ih (d := d + 1) (k := k + 1) h (by omega)
    | up =>
      cases d with
      | zero => exact h.elim
      | succ d =>
        obtain ⟨j, rfl⟩ : ∃ j, k = j + 1 := ⟨k - 1, by omega⟩
        exact ih (d := d) (k := j) h (by omega)

/-- A way that stays below its start stays in the folder. -/
theorem Loc.Under.walk {l w : Loc ν} (h : l.Under w) {parts : List (Part ν)} (hs : Stays 0 parts) :
    (l.walk parts).Under w := by
  -- `down` is how the location was reached from the folder.
  have hdown : ∀ (parts : List (Part ν)) (down : List ν), Stays down.length parts →
      ((⟨w.abs, w.ups, down ++ w.names⟩ : Loc ν).walk parts).Under w := by
    intro parts
    induction parts with
    | nil => exact fun down _ => ⟨rfl, rfl, List.suffix_append _ _⟩
    | cons p parts ih =>
      intro down hs
      cases p with
      | name n => exact ih (n :: down) hs
      | up =>
        cases down with
        | nil => exact hs.elim
        | cons n down => exact ih down hs
  obtain ⟨abs, ups, names⟩ := l
  obtain ⟨rfl, rfl, down, rfl⟩ := h
  exact hdown parts down (hs.mono (Nat.zero_le _))

/-- Without the entry `n`, the folder `n` is not reached from outside. -/
theorem Loc.not_under_walk {l : Loc ν} {n : ν} (h : 0 < l.ups ∨ n ∉ l.names) {parts : List (Part ν)}
    (hn : Part.name n ∉ parts) : ¬ (l.walk parts).Under ⟨false, 0, [n]⟩ := by
  induction parts generalizing l with
  | nil =>
    rintro ⟨-, hups, hnames⟩
    have hups : l.ups = 0 := hups
    exact h.elim (by omega) fun h => h (hnames.subset (List.mem_singleton.2 rfl))
  | cons p parts ih =>
    rw [List.mem_cons, not_or] at hn
    refine ih ?_ hn.2
    cases p with
    | name m =>
      refine h.imp id fun h hmem => ?_
      rcases List.mem_cons.1 hmem with rfl | hmem
      · exact hn.1 rfl
      · exact h hmem
    | up =>
      obtain ⟨abs, ups, names⟩ := l
      cases names with
      | cons m names => exact h.imp id fun h hmem => h (List.mem_cons_of_mem m hmem)
      | nil => cases abs <;> simp [Loc.go]

/-- A way that leaves the folder `n` does not come back to it without its name. -/
theorem Loc.not_under_of_not_stays {n : ν} {parts : List (Part ν)} (hs : ¬ Stays 0 parts)
    (hn : Part.name n ∉ parts) :
    ¬ ((⟨false, 0, [n]⟩ : Loc ν).walk parts).Under ⟨false, 0, [n]⟩ := by
  have hdown : ∀ (parts : List (Part ν)) (down : List ν), ¬ Stays down.length parts →
    Part.name n ∉ parts →
      ¬ ((⟨false, 0, down ++ [n]⟩ : Loc ν).walk parts).Under ⟨false, 0, [n]⟩ := by
    intro parts
    induction parts with
    | nil => exact fun down hs _ => absurd trivial hs
    | cons p parts ih =>
      intro down hs hn
      rw [List.mem_cons, not_or] at hn
      cases p with
      | name m => exact ih (m :: down) hs hn.2
      | up =>
        cases down with
        | cons m down => exact ih down hs hn.2
        | nil => exact Loc.not_under_walk (l := ⟨false, 0, []⟩) (.inr (by simp)) hn.2
  exact hdown parts [] hs hn

/-! ## Texts -/

variable {α : Type*} [DecidableEq α] (sep dot : α)

/-- What a component does. -/
def part (c : List α) : Option (Part (List α)) :=
  if c = [] ∨ c = [dot] then none
  else if c = [dot, dot] then some .up
  else some (.name c)

/-- The components of a text. -/
def parts (s : List α) : List (Part (List α)) := (s.splitOn sep).filterMap (part dot)

/-- The location that a text denotes. -/
def locate (s : List α) : Loc (List α) :=
  (⟨s.head? = some sep, 0, []⟩ : Loc (List α)).walk (parts sep dot s)

/-- The empty path has no parts. -/
@[simp] theorem parts_nil : parts sep dot [] = [] := by simp [parts, part, List.splitOn_nil]

/-- A separator ends a component. -/
theorem parts_append (s t : List α) :
    parts sep dot (s ++ sep :: t) = parts sep dot s ++ parts sep dot t := by
  rw [parts, List.splitOn_append_cons_self, List.filterMap_append]
  rfl

/-- The components behind a path are walked from where it leads. -/
theorem locate_append {s : List α} (hs : s ≠ []) (t : List α) :
    locate sep dot (s ++ sep :: t) = (locate sep dot s).walk (parts sep dot t) := by
  unfold locate
  rw [parts_append, Loc.walk_append, List.head?_append_of_ne_nil _ hs]

/-- The entry of a folder, which may be written with a separator at its end. -/
theorem locate_entry {s : List α} (hs : s ≠ []) (t : List α) :
    locate sep dot ((if s.getLast? = some sep then s else s ++ [sep]) ++ t) =
      (locate sep dot s).walk (parts sep dot t) := by
  split
  · rename_i hlast
    obtain ⟨s, rfl⟩ := List.getLast?_eq_some_iff.1 hlast
    have hhead : ∀ t, ((s ++ [sep]) ++ t).head? = (s ++ [sep]).head? := fun t => by
      rw [List.head?_append_of_ne_nil _ hs]
    unfold locate
    rw [hhead, List.append_assoc, List.singleton_append, parts_append, parts_append,
      parts_nil, List.append_nil,
      Loc.walk_append]
  · rw [List.append_assoc, List.singleton_append, locate_append sep dot hs]

/-- A text that leads into every folder that it is put behind. -/
def Descends (t : List α) : Prop := t = [] ∨ ∃ b, t = sep :: b ∧ Stays 0 (parts sep dot b)

/-- A path that never goes up more than down stays below the folder. -/
theorem under_of_stays {t w : List α} (h : Descends sep dot t) (hw : w ≠ []) :
    (locate sep dot (w ++ t)).Under (locate sep dot w) := by
  rcases h with rfl | ⟨b, rfl, hs⟩
  · rw [List.append_nil]
    exact .refl _
  · rw [locate_append sep dot hw]
    exact (Loc.Under.refl _).walk hs

/-- A component is not longer than the text. -/
theorem length_le_of_mem_splitOn {s c : List α} (h : c ∈ s.splitOn sep) : c.length ≤ s.length := by
  induction s generalizing c with
  | nil =>
    rw [List.splitOn_nil, List.mem_singleton] at h
    rw [h]
  | cons x s ih =>
    rw [List.splitOn_cons_eq_if_modifyHead] at h
    split at h
    · rcases List.mem_cons.1 h with rfl | h
      · exact Nat.zero_le _
      · exact (ih h).trans (Nat.le_succ _)
    · obtain ⟨a, as, has⟩ := List.exists_cons_of_ne_nil (List.splitOn_ne_nil sep s)
      rw [has, List.modifyHead_cons] at h
      rcases List.mem_cons.1 h with rfl | h
      · exact Nat.succ_le_succ (ih (has ▸ List.mem_cons_self))
      · exact (ih (has ▸ List.mem_cons_of_mem a h)).trans (Nat.le_succ _)

/-- A name is one of the components. -/
theorem mem_splitOn_of_name {s c : List α} (h : Part.name c ∈ parts sep dot s) :
    c ∈ s.splitOn sep := by
  obtain ⟨x, hx, hp⟩ := List.mem_filterMap.1 h
  unfold part at hp
  split_ifs at hp
  · simp at hp
  · rw [Option.some.injEq, Part.name.injEq] at hp
    exact hp ▸ hx

/-- The condition is needed: behind a folder with a name that the text does not mention, any other
text leads elsewhere. -/
theorem exists_not_under {v : α} (hsep : v ≠ sep) (hdot : v ≠ dot) {t : List α}
    (h : ¬ Descends sep dot t) :
    ¬ (locate sep dot (List.replicate t.length v ++ t)).Under
      (locate sep dot (List.replicate t.length v)) := by
  unfold Descends at h
  rw [not_or] at h
  obtain ⟨hne, hsep'⟩ := h
  have hlen : 0 < t.length := List.length_pos_of_ne_nil hne
  -- The folder's name is longer than the components of the text behind a separator.
  generalize hw : List.replicate t.length v = w
  have hwlen : w.length = t.length := by rw [← hw, List.length_replicate]
  have hwne : w ≠ [] := List.ne_nil_of_length_pos (by omega)
  have hnosep : sep ∉ w := fun hmem => hsep (List.eq_of_mem_replicate (hw ▸ hmem)).symm
  have hhead : ∀ s, (w ++ s).head? = some v := fun s => by
    rw [← hw, List.head?_append_of_ne_nil _ (hw ▸ hwne), List.head?_replicate, if_neg (by omega)]
  have hname : ∀ s, sep ∉ s → parts sep dot (w ++ s) = [.name (w ++ s)] := by
    intro s hs
    have hpart : part dot (w ++ s) = some (.name (w ++ s)) := by
      have hfirst := hhead s
      unfold part
      rw [if_neg, if_neg]
      · intro he
        rw [he, List.head?_cons, Option.some.injEq] at hfirst
        exact hdot hfirst.symm
      · rintro (he | he)
        · simp [he] at hfirst
        · rw [he, List.head?_cons, Option.some.injEq] at hfirst
          exact hdot hfirst.symm
    rw [parts, List.splitOn_eq_singleton (by simp [hnosep, hs]), List.filterMap_cons,
      hpart, List.filterMap_nil]
  have hloc : locate sep dot w = ⟨false, 0, [w]⟩ := by
    have hw0 := hname [] (by simp)
    have hh := hhead []
    rw [List.append_nil] at hw0 hh
    simp [locate, hw0, hh, hsep, Loc.walk, Loc.go]
  rw [hloc]
  by_cases hfirst : t.head? = some sep
  · obtain ⟨b, rfl⟩ := List.head?_eq_some_iff.1 hfirst
    rw [locate_append sep dot hwne, hloc]
    refine Loc.not_under_of_not_stays (fun hs => hsep' ⟨b, rfl, hs⟩) fun hmem => ?_
    have := length_le_of_mem_splitOn sep (mem_splitOn_of_name sep dot hmem)
    rw [List.length_cons] at hwlen
    omega
  · -- The first component of the text becomes a part of another name.
    have hnone : Part.name w ∉ parts sep dot (w ++ t) := by
      intro hmem
      have hmem := mem_splitOn_of_name sep dot hmem
      by_cases hin : sep ∈ t
      · obtain ⟨a, b, rfl, ha⟩ := List.eq_append_cons_of_mem hin
        rw [List.length_append, List.length_cons] at hwlen
        rw [← List.append_assoc, List.splitOn_append_cons_self_of_not_mem (by simp [hnosep, ha])]
          at hmem
        rcases List.mem_cons.1 hmem with he | hmem
        · have ha : a = [] := List.append_right_eq_self.1 he.symm
          exact hfirst (by rw [ha]; rfl)
        · have := length_le_of_mem_splitOn sep hmem
          omega
      · rw [List.splitOn_eq_singleton (by simp [hnosep, hin]), List.mem_singleton] at hmem
        have := congrArg List.length hmem
        rw [List.length_append] at this
        omega
    refine Loc.not_under_walk (.inr ?_) hnone
    simp

end Paths
