import Liso.Loop.Visit

/-!
# The pool in every reachable state

`PoolInv` says of the pool what `Held` says of one connection: every connection has its place, holds
its descriptors apart from those of all the others, and no bit of the two `fd_set`s is on anything
else. `LoopInv` adds what the bits that `select` returned mean to the connections that the current
pass has not visited yet. `loop_inv` proves both of every reachable state, and `reach_local` is the
rule by which the later modules lift a property of one connection from its visits to all runs: the
other connections' visits only have to keep its descriptors.
-/

namespace Liso

open Handles (Table Picker)

variable {T : Prop} {G : ℕ × Option ℕ → Prop} {conf : Conf} {s s' : Srv} {c c' : Conn} {l : Loop}
  {ok : Loop → Ev → Prop}

/-- The descriptors that the connection in the place `i` does not own. -/
def Srv.others (conf : Conf) (s : Srv) (i : ℕ) : Set ℕ :=
  {d | d ∈ conf.base ∨ ∃ (j : ℕ) (c : Conn), j ≠ i ∧ s.pool.conns[j]? = some c ∧ d ∈ c.owned}

/-- The invariant of the pool. -/
structure PoolInv (T : Prop) (conf : Conf) (s : Srv) : Prop where
  /-- `MAX_CONNS`. -/
  size : s.pool.conns.length ≤ MAX_CONNS
  /-- Every connection knows its place. -/
  idx : ∀ (i : ℕ) (c : Conn), s.pool.conns[i]? = some c → c.idx = i
  /-- Every connection holds its descriptors. -/
  held : ∀ (i : ℕ) (c : Conn), s.pool.conns[i]? = some c → Held T (s.others conf i) c s
  /-- The descriptors from before the main loop are open. -/
  base : ∀ d ∈ conf.base, d ∈ s.fds.dom
  /-- The bits of the read set. -/
  read : ∀ d ∈ s.pool.read_set, d ∈ conf.base ∨ ∃ c ∈ s.pool.conns, c.Watches d
  /-- The bits of the write set. -/
  write : ∀ d ∈ s.pool.write_set, ∃ c ∈ s.pool.conns, d = c.fd
  /-- Nothing else is open. -/
  tight : T → ∀ d ∈ s.fds.dom, d ∈ conf.base ∨ ∃ c ∈ s.pool.conns, d ∈ c.owned

/-- The bits that `select` returned for a connection were asked for, and the descriptors still name
what they named then. -/
structure Ready (c : Conn) (s : Srv) : Prop where
  /-- The read bits. -/
  read : ∀ d, c.Watches d → d ∈ s.pool.read_ready → d ∈ s.pool.read_set ∧ s.fds.obj d = s.snap.obj d
  /-- The write bit. -/
  write : c.fd ∈ s.pool.write_ready → c.fd ∈ s.pool.write_set ∧ s.fds.obj c.fd = s.snap.obj c.fd

/-- The connections whose visit is still to come in the current pass. -/
def Pc.Pending : Pc → ℕ → Prop
  | .select, _ => False
  | .accept, _ => True
  | .accept_ssl, _ => True
  | .serve m _, i => m ≤ i

/-- The invariant of the main loop. -/
structure LoopInv (T : Prop) (conf : Conf) (l : Loop) : Prop where
  /-- The pool. -/
  pool : PoolInv T conf l.srv
  /-- The connections not yet visited. -/
  ready : ∀ (i : ℕ) (c : Conn), l.pc.Pending i → l.srv.pool.conns[i]? = some c → Ready c l.srv
  /-- While new connections are accepted, every ready descriptor is still open. -/
  opened : l.pc = .accept ∨ l.pc = .accept_ssl →
    ∀ d, d ∈ l.srv.pool.read_ready ∨ d ∈ l.srv.pool.write_ready → d ∈ l.srv.fds.dom

/-! ## The places of the array -/

/-- The entries of the array after a removal: those in other places, and the last one. -/
theorem moveLast_getElem? {conns : List Conn} {i j : ℕ} (hi : i < conns.length)
    (h : (moveLast conns i)[j]? = some c') :
    (j ≠ i ∧ conns[j]? = some c') ∨
      (j = i ∧ i ≠ conns.length - 1 ∧ ∃ c, conns[conns.length - 1]? = some c ∧
        c' = { c with idx := i }) := by
  have hne : conns ≠ [] := by
    rintro rfl
    simp at hi
  have hlast := List.getLast?_eq_getElem? (l := conns)
  unfold moveLast at h
  rw [List.getLast?_eq_getLast_of_ne_nil hne] at h hlast
  simp only [List.getElem?_dropLast, List.length_set] at h
  split_ifs at h with hj
  by_cases hij : j = i
  · subst hij
    rw [List.getElem?_set_self hi, Option.some.injEq] at h
    exact .inr ⟨rfl, by omega, _, hlast.symm, h.symm⟩
  · rw [List.getElem?_set_ne (Ne.symm hij)] at h
    exact .inl ⟨hij, h⟩

/-- The array is shorter by one. -/
theorem length_moveLast {conns : List Conn} {i : ℕ} (hi : i < conns.length) :
    (moveLast conns i).length = conns.length - 1 := by
  have hne : conns ≠ [] := by
    rintro rfl
    simp at hi
  rw [moveLast, List.getLast?_eq_getLast_of_ne_nil hne]
  simp

/-- Every entry but the one removed is still in the array. -/
theorem moveLast_mem {conns : List Conn} {i j : ℕ} (hi : i < conns.length) (hji : j ≠ i)
    (h : conns[j]? = some c) :
    ∃ j' : ℕ, (moveLast conns i)[j']? = some c ∨
      (moveLast conns i)[j']? = some { c with idx := i } := by
  have hne : conns ≠ [] := by
    rintro rfl
    simp at hi
  have hlast := List.getLast?_eq_getElem? (l := conns)
  have hjl : j < conns.length := (List.getElem?_eq_some_iff.1 h).1
  unfold moveLast
  rw [List.getLast?_eq_getLast_of_ne_nil hne] at hlast ⊢
  simp only [List.getElem?_dropLast, List.length_set]
  by_cases hj : j = conns.length - 1
  · refine ⟨i, .inr ?_⟩
    rw [if_pos (by omega), List.getElem?_set_self hi]
    rw [← hj, h, Option.some.injEq] at hlast
    rw [hlast]
  · refine ⟨j, .inl ?_⟩
    rw [if_pos (by omega), List.getElem?_set_ne (Ne.symm hji)]
    exact h

/-! ## The pool -/

/-- What one connection owns, no other one does. -/
theorem PoolInv.disjoint (h : PoolInv T conf s) {i j : ℕ} (hij : i ≠ j)
    (hi : s.pool.conns[i]? = some c) (hj : s.pool.conns[j]? = some c') {d : ℕ} (hd : d ∈ c.owned) :
    d ∉ c'.owned :=
  fun hd' => (h.held i c hi).apart d hd (.inr ⟨j, c', Ne.symm hij, hj, hd'⟩)

/-- The rest of the pool after a visit to the connection in the place `i` that kept the other
descriptors: each connection `c'` in another place still holds its descriptors, apart from a set `B`
of those it was held apart from before and others that are not its own. -/
theorem PoolInv.held_other (h : PoolInv T conf s) {i j : ℕ} (hij : j ≠ i)
    (hj : s.pool.conns[j]? = some c') {B : Set ℕ}
    (hk : Keeps (s.others conf i) s s') (hidx : c'.idx < s'.pool.conns.length)
    (hB : ∀ d ∈ s.others conf i, d ∈ s.others conf j → d ∈ B)
    (hopen : ∀ d ∈ B, d ∈ s'.fds.dom) (hapart : ∀ d ∈ c'.owned, d ∉ B)
    (hread : ∀ d ∈ s'.pool.read_set, d ∈ s.others conf i ∨ d ∈ B)
    (hwrite : ∀ d ∈ s'.pool.write_set, d ∈ s.others conf i ∨ d ∈ B)
    (htight : T → ∀ d ∈ s'.fds.dom, d ∈ s.others conf i ∨ d ∈ B) : Held T B c' s' := by
  have hH := h.held j c' hj
  have hmem : ∀ d ∈ c'.owned, d ∈ s.others conf i := fun d hd => .inr ⟨j, c', hij, hj, hd⟩
  have hsplit : ∀ d ∈ s.others conf i, d ∈ s.others conf j ∨ d ∈ c'.owned := by
    rintro d (hd | ⟨m, cm, hm, hcm, hd⟩)
    · exact .inl (.inl hd)
    · by_cases hmj : m = j
      · subst hmj
        rw [hj, Option.some.injEq] at hcm
        exact .inr (hcm ▸ hd)
      · exact .inl (.inr ⟨m, cm, hmj, hcm, hd⟩)
  refine ⟨hidx, hH.nodup, fun d hd => (hk.dom (hmem d hd)).2 (hH.own d hd),
    hopen, hapart, ?_, ?_, ?_,
    hH.quiet⟩
  · intro d hd
    rcases hread d hd with hA | hd
    · exact (hH.read d ((hk.read d hA).1 hd)).imp_left (hB d hA)
    · exact .inl hd
  · intro d hd
    rcases hwrite d hd with hA | hd
    · exact (hH.write d ((hk.write d hA).1 hd)).imp_left (hB d hA)
    · exact .inl hd
  · intro t d hd
    rcases htight t d hd with hA | hd
    · rcases hsplit d hA with hA' | ho
      · exact .inl (hB d hA hA')
      · exact .inr ho
    · exact .inl hd

/-- A bit of the read set that the connection in the place `i` does not own was one of the others'
before the visit. -/
theorem PoolInv.read_other (h : PoolInv T conf s) {i : ℕ} (hi : s.pool.conns[i]? = some c)
    {d : ℕ} (hA : d ∈ s.others conf i) (hd : d ∈ s.pool.read_set) :
    d ∈ conf.base ∨ ∃ (j : ℕ) (cj : Conn), j ≠ i ∧ s.pool.conns[j]? = some cj ∧ cj.Watches d := by
  rcases h.read d hd with hb | ⟨cj, hcj, hw⟩
  · exact .inl hb
  · obtain ⟨j, hj⟩ := List.mem_iff_getElem?.1 hcj
    refine .inr ⟨j, cj, ?_, hj, hw⟩
    rintro rfl
    rw [hi, Option.some.injEq] at hj
    exact (h.held j c hi).apart d (hj ▸ hw.mem_owned) hA

/-- A bit of the write set that the connection in the place `i` does not own was one of the others'
before the visit. -/
theorem PoolInv.write_other (h : PoolInv T conf s) {i : ℕ} (hi : s.pool.conns[i]? = some c)
    {d : ℕ} (hA : d ∈ s.others conf i) (hd : d ∈ s.pool.write_set) :
    ∃ (j : ℕ) (cj : Conn), j ≠ i ∧ s.pool.conns[j]? = some cj ∧ d = cj.fd := by
  obtain ⟨cj, hcj, hw⟩ := h.write d hd
  obtain ⟨j, hj⟩ := List.mem_iff_getElem?.1 hcj
  refine ⟨j, cj, ?_, hj, hw⟩
  rintro rfl
  rw [hi, Option.some.injEq] at hj
  refine (h.held j c hi).apart d ?_ hA
  rw [hw, ← hj]
  exact c.fd_mem_owned

/-! ## A visit that keeps its connection -/

section Replace

variable {i j : ℕ} {cj : Conn} {d : ℕ}

/-- The others of the place whose connection was visited are the same. -/
theorem others_set_self (hconns : s'.pool.conns = s.pool.conns.set i c') :
    s'.others conf i = s.others conf i := by
  ext d
  refine or_congr Iff.rfl (exists_congr fun j => exists_congr fun cj => ?_)
  refine and_congr_right fun hj => ?_
  rw [hconns, List.getElem?_set_ne (Ne.symm hj)]

/-- The others of another place were so before, or are owned by the visited connection. -/
theorem others_set (hi : i < s.pool.conns.length) (hconns : s'.pool.conns = s.pool.conns.set i c')
    (hd : d ∈ s'.others conf j) :
    (d ∈ s.others conf i ∧ d ∈ s.others conf j) ∨ d ∈ c'.owned := by
  rcases hd with hd | ⟨m, cm, hm, hcm, hd⟩
  · exact .inl ⟨.inl hd, .inl hd⟩
  rw [hconns] at hcm
  by_cases hmi : m = i
  · subst hmi
    rw [List.getElem?_set_self hi, Option.some.injEq] at hcm
    exact .inr (hcm ▸ hd)
  · rw [List.getElem?_set_ne (Ne.symm hmi)] at hcm
    exact .inl ⟨.inr ⟨m, cm, hmi, hcm, hd⟩, .inr ⟨m, cm, hm, hcm, hd⟩⟩

/-- What the visited connection owns is one of the others of every other place. -/
theorem owned_others_set (hi : i < s.pool.conns.length)
    (hconns : s'.pool.conns = s.pool.conns.set i c') (hij : j ≠ i) (hd : d ∈ c'.owned) :
    d ∈ s'.others conf j :=
  .inr ⟨i, c', Ne.symm hij, by rw [hconns, List.getElem?_set_self hi], hd⟩

/-- What is one of the others of both places before the visit is one of the others of the second
place behind it. -/
theorem PoolInv.others_set_both (h : PoolInv T conf s)
    (hconns : s'.pool.conns = s.pool.conns.set i c') (hj : s.pool.conns[j]? = some cj)
    (hdi : d ∈ s.others conf i) (hdj : d ∈ s.others conf j) : d ∈ s'.others conf j := by
  rcases hdi with hd | ⟨m, cm, hm, hcm, hd⟩
  · exact .inl hd
  · refine .inr ⟨m, cm, ?_, by rw [hconns, List.getElem?_set_ne (Ne.symm hm)]; exact hcm, hd⟩
    rintro rfl
    rw [hj, Option.some.injEq] at hcm
    exact (h.held m cj hj).apart d (hcm ▸ hd) hdj

/-- A connection in another place holds its descriptors behind the visit. -/
theorem PoolInv.held_set (h : PoolInv T conf s) (hi : i < s.pool.conns.length)
    (hconns : s'.pool.conns = s.pool.conns.set i c') (hk : Keeps (s.others conf i) s s')
    (hH : Held T (s.others conf i) c' s') (hij : j ≠ i) (hj : s.pool.conns[j]? = some cj) :
    Held T (s'.others conf j) cj s' := by
  have hown : ∀ d ∈ c'.owned, d ∈ s'.others conf j := fun d => owned_others_set hi hconns hij
  refine h.held_other hij hj hk ?_ ?_ ?_ ?_ ?_ ?_ ?_
  · rw [hconns, List.length_set, h.idx j cj hj]
    exact (List.getElem?_eq_some_iff.1 hj).1
  · exact fun d hdi hdj => h.others_set_both hconns hj hdi hdj
  · intro d hd
    rcases others_set hi hconns hd with hd | hd
    · exact hH.others d hd.1
    · exact hH.own d hd
  · intro d hd hdB
    rcases others_set hi hconns hdB with hd' | hd'
    · exact (h.held j cj hj).apart d hd hd'.2
    · exact hH.apart d hd' (.inr ⟨j, cj, hij, hj, hd⟩)
  · exact fun d hd => (hH.read d hd).imp_right fun hw => hown d hw.mem_owned
  · intro d hd
    refine (hH.write d hd).imp_right fun hw => hown d ?_
    rw [hw]
    exact c'.fd_mem_owned
  · exact fun t d hd => (hH.tight t d hd).imp_right (hown d)

/-- A visit that keeps its connection keeps the invariant. -/
theorem PoolInv.replace (h : PoolInv T conf s) {i : ℕ} (hi : s.pool.conns[i]? = some c)
    (hH : Held T (s.others conf i) c' s') (hM : Moves (s.others conf i) G c s c' s') :
    PoolInv T conf { s' with pool := { s'.pool with conns := s'.pool.conns.set i c' } } := by
  set s'' : Srv := { s' with pool := { s'.pool with conns := s'.pool.conns.set i c' } } with hs''
  have hlt : i < s.pool.conns.length := (List.getElem?_eq_some_iff.1 hi).1
  have hconns : s''.pool.conns = s.pool.conns.set i c' := by rw [← hM.conns]
  have hself : s''.pool.conns[i]? = some c' := by rw [hconns, List.getElem?_set_self hlt]
  have hother : ∀ j, j ≠ i → s''.pool.conns[j]? = s.pool.conns[j]? := fun j hj => by
    rw [hconns, List.getElem?_set_ne (Ne.symm hj)]
  have hc' : c' ∈ s''.pool.conns := List.mem_of_getElem? hself
  have hmem : ∀ j cj, j ≠ i → s.pool.conns[j]? = some cj → cj ∈ s''.pool.conns := fun j cj hj hcj =>
    List.mem_of_getElem? ((hother j hj).trans hcj)
  have hk : Keeps (s.others conf i) s s'' := hM.keeps.trans (.of_eq rfl rfl rfl)
  have hH'' : Held T (s.others conf i) c' s'' := by
    refine ⟨?_, hH.nodup, hH.own, hH.others, hH.apart, hH.read, hH.write, hH.tight, hH.quiet⟩
    rw [hconns, List.length_set, hM.idx, h.idx i c hi]
    exact hlt
  -- Each field for the connection at its place, and for the others as before.
  refine ⟨?_, ?_, ?_, fun d hd => hH.others d (.inl hd), ?_, ?_, ?_⟩
  · rw [hconns, List.length_set]
    exact h.size
  · intro j cj hcj
    by_cases hj : j = i
    · subst hj
      rw [hself, Option.some.injEq] at hcj
      rw [← hcj, hM.idx, h.idx j c hi]
    · rw [hother j hj] at hcj
      exact h.idx j cj hcj
  · intro j cj hcj
    by_cases hj : j = i
    · subst hj
      rw [hself, Option.some.injEq] at hcj
      rw [← hcj, others_set_self hconns]
      exact hH''
    · exact h.held_set hlt hconns hk hH'' hj ((hother j hj).symm.trans hcj)
  · intro d hd
    rcases hH.read d hd with hA | hw
    · refine (h.read_other hi hA ((hM.keeps.read d hA).1 hd)).imp_right ?_
      rintro ⟨j, cj, hj, hcj, hw⟩
      exact ⟨cj, hmem j cj hj hcj, hw⟩
    · exact .inr ⟨c', hc', hw⟩
  · intro d hd
    rcases hH.write d hd with hA | hw
    · obtain ⟨j, cj, hj, hcj, hw⟩ := h.write_other hi hA ((hM.keeps.write d hA).1 hd)
      exact ⟨cj, hmem j cj hj hcj, hw⟩
    · exact ⟨c', hc', hw⟩
  · intro t d hd
    rcases hH.tight t d hd with (hb | ⟨j, cj, hj, hcj, hd⟩) | ho
    · exact .inl hb
    · exact .inr ⟨cj, hmem j cj hj hcj, hd⟩
    · exact .inr ⟨c', hc', ho⟩

end Replace

/-! ## A visit that frees its connection -/

section Remove

variable {i j m : ℕ} {cj cm : Conn} {d : ℕ}

/-- An entry of the array after a removal has its new place, and was in another one than `i`: in the
last one if it is in the place `i` now, else where it is. -/
theorem PoolInv.moveLast_from (h : PoolInv T conf s) (hi : i < s.pool.conns.length)
    (hconns : s'.pool.conns = moveLast s.pool.conns i) (hj : s'.pool.conns[j]? = some cj) :
    ∃ m cm, m ≠ i ∧ s.pool.conns[m]? = some cm ∧ cj = { cm with idx := j } ∧
      m = if j = i then s.pool.conns.length - 1 else j := by
  rw [hconns] at hj
  rcases moveLast_getElem? hi hj with ⟨hji, hcj⟩ | ⟨rfl, hne, cm, hcm, rfl⟩
  · exact ⟨j, cj, hji, hcj, by rw [← h.idx j cj hcj], by rw [if_neg hji]⟩
  · exact ⟨_, cm, Ne.symm hne, hcm, rfl, by rw [if_pos rfl]⟩

/-- Every entry in another place than `i` is still there, and knows its new place. -/
theorem PoolInv.moveLast_to (h : PoolInv T conf s) (hi : i < s.pool.conns.length)
    (hconns : s'.pool.conns = moveLast s.pool.conns i) (hm : m ≠ i)
    (hcm : s.pool.conns[m]? = some cm) : ∃ j, s'.pool.conns[j]? = some { cm with idx := j } := by
  obtain ⟨j, hj | hj⟩ := moveLast_mem hi hm hcm
  · rw [← hconns] at hj
    obtain ⟨_, _, -, -, he, -⟩ := h.moveLast_from hi hconns hj
    exact ⟨j, by rw [hj, he]⟩
  · rw [← hconns] at hj
    obtain ⟨_, _, -, -, he, -⟩ := h.moveLast_from hi hconns hj
    have hji : j = i := (congrArg Conn.idx he).symm
    exact ⟨j, by rw [hj, hji]⟩

/-- The others of a place, after a removal, are others of the place before and of `i`. -/
theorem PoolInv.others_moveLast (h : PoolInv T conf s) (hi : i < s.pool.conns.length)
    (hconns : s'.pool.conns = moveLast s.pool.conns i) (hj : s'.pool.conns[j]? = some cj)
    (hmj : m = if j = i then s.pool.conns.length - 1 else j) (hd : d ∈ s'.others conf j) :
    d ∈ s.others conf i ∧ d ∈ s.others conf m := by
  have hlen : s'.pool.conns.length = s.pool.conns.length - 1 := by
    rw [hconns, length_moveLast hi]
  rcases hd with hd | ⟨j', cj', hj', hcj', hd⟩
  · exact ⟨.inl hd, .inl hd⟩
  · obtain ⟨n, cn, hn, hcn, rfl, hnj⟩ := h.moveLast_from hi hconns hcj'
    refine ⟨.inr ⟨n, cn, hn, hcn, hd⟩, .inr ⟨n, cn, ?_, hcn, hd⟩⟩
    have hlt' : j < s'.pool.conns.length := (List.getElem?_eq_some_iff.1 hj).1
    have hlt'' : j' < s'.pool.conns.length := (List.getElem?_eq_some_iff.1 hcj').1
    split_ifs at hmj hnj <;> omega

/-- What is one of the others of both places before the removal is one of the others behind it. -/
theorem PoolInv.others_moveLast_both (h : PoolInv T conf s) (hi : i < s.pool.conns.length)
    (hconns : s'.pool.conns = moveLast s.pool.conns i) (hcm : s.pool.conns[m]? = some cm)
    (hj : s'.pool.conns[j]? = some { cm with idx := j }) (hdi : d ∈ s.others conf i)
    (hdm : d ∈ s.others conf m) : d ∈ s'.others conf j := by
  rcases hdi with hd | ⟨n, cn, hn, hcn, hd⟩
  · exact .inl hd
  · obtain ⟨j', hj'⟩ := h.moveLast_to hi hconns hn hcn
    refine .inr ⟨j', _, ?_, hj', hd⟩
    rintro rfl
    rw [hj, Option.some.injEq] at hj'
    have hown : cm.owned = cn.owned := (congrArg Conn.owned hj' :)
    exact (h.held m cm hcm).apart d (hown ▸ hd) hdm

/-- A connection that is left holds its descriptors in its new place. -/
theorem PoolInv.held_moveLast (h : PoolInv T conf s) (hi : s.pool.conns[i]? = some c)
    (hconns : s'.pool.conns = moveLast s.pool.conns i) (hG : Gone T (s.others conf i) G c s s')
    (hj : s'.pool.conns[j]? = some cj) : Held T (s'.others conf j) cj s' := by
  have hlt : i < s.pool.conns.length := (List.getElem?_eq_some_iff.1 hi).1
  obtain ⟨m, cm, hm, hcm, rfl, hmj⟩ := h.moveLast_from hlt hconns hj
  have hB : ∀ d ∈ s'.others conf j, d ∈ s.others conf i ∧ d ∈ s.others conf m :=
    fun d => h.others_moveLast hlt hconns hj hmj
  -- In the old array it holds them by the lemma on the other places.
  have hold :
    Held T (s'.others conf j) cm { s' with pool := { s'.pool with conns := s.pool.conns } } := by
    refine h.held_other hm hcm (hG.keeps.trans (.of_eq rfl rfl rfl)) ?_ ?_ ?_ ?_ ?_ ?_ ?_
    · exact (h.held m cm hcm).idx
    · exact fun d hdi hdm => h.others_moveLast_both hlt hconns hcm hj hdi hdm
    · exact fun d hd => (hG.keeps.dom (hB d hd).1).2 ((h.held i c hi).others d (hB d hd).1)
    · exact fun d hd hdB => (h.held m cm hcm).apart d hd (hB d hdB).2
    · exact fun d hd => .inl (hG.read d hd)
    · exact fun d hd => .inl (hG.write d hd)
    · exact fun t d hd => .inl (hG.tight t d hd)
  exact ⟨(List.getElem?_eq_some_iff.1 hj).1, hold.nodup, hold.own, hold.others, hold.apart,
    hold.read, hold.write, hold.tight, hold.quiet⟩

/-- A visit that frees its connection keeps the invariant. -/
theorem PoolInv.remove (h : PoolInv T conf s) {i : ℕ} (hi : s.pool.conns[i]? = some c)
    (hG : Gone T (s.others conf i) G c s s') : PoolInv T conf s' := by
  have hlt : i < s.pool.conns.length := (List.getElem?_eq_some_iff.1 hi).1
  have hconns : s'.pool.conns = moveLast s.pool.conns i := by rw [hG.conns, h.idx i c hi]
  have hleft : ∀ m cm, m ≠ i → s.pool.conns[m]? = some cm →
      ∃ j, { cm with idx := j } ∈ s'.pool.conns := by
    intro m cm hm hcm
    obtain ⟨j, hj⟩ := h.moveLast_to hlt hconns hm hcm
    exact ⟨j, List.mem_of_getElem? hj⟩
  refine ⟨?_, ?_, fun j cj => h.held_moveLast hi hconns hG, ?_, ?_, ?_, ?_⟩
  · have hsize := h.size
    rw [hconns, length_moveLast hlt]
    omega
  · intro j cj hcj
    obtain ⟨_, _, -, -, rfl, -⟩ := h.moveLast_from hlt hconns hcj
    rfl
  · exact fun d hd => (hG.keeps.dom (.inl hd)).2 (h.base d hd)
  · intro d hd
    have hA := hG.read d hd
    refine (h.read_other hi hA ((hG.keeps.read d hA).1 hd)).imp_right ?_
    rintro ⟨m, cm, hm, hcm, hw⟩
    obtain ⟨j, hj⟩ := hleft m cm hm hcm
    exact ⟨_, hj, hw⟩
  · intro d hd
    have hA := hG.write d hd
    obtain ⟨m, cm, hm, hcm, hw⟩ := h.write_other hi hA ((hG.keeps.write d hA).1 hd)
    obtain ⟨j, hj⟩ := hleft m cm hm hcm
    exact ⟨_, hj, hw⟩
  · intro t d hd
    refine (hG.tight t d hd).imp_right ?_
    rintro ⟨m, cm, hm, hcm, hd⟩
    obtain ⟨j, hj⟩ := hleft m cm hm hcm
    exact ⟨_, hj, hd⟩

end Remove

/-! ## Accepting -/

/-- A connection as `liso_accept_conn` makes it. -/
def Accepted (c : Conn) : Prop :=
  ∃ fd idx mem id addr port scheme ssl, c = { cnNew fd idx mem id with
    ssl := ssl, req := { reqNew mem with addr := addr, port := port, scheme := scheme } }

/-- The server after `liso_accept_conn` added the connection `c`, whose socket `accept` returned
with the table `t`. -/
def Srv.join (s : Srv) (t : Table) (c : Conn) : Srv :=
  { s with
    fds := t
    pool := { s.pool with read_set := insert c.fd s.pool.read_set, conns := s.pool.conns ++ [c] }
    accepted := s.accepted + 1 }

/-- `liso_accept_conn` leaves the open descriptors as they were, or adds a connection with a new
one. -/
theorem lisoAcceptConn_cases (conf : Conf) (a : Accept) (ssl : Bool) (s : Srv)
    (hsize : s.pool.conns.length ≤ MAX_CONNS) :
    (∃ t : Table, lisoAcceptConn conf a ssl s = { s with fds := t } ∧
      (∀ d ∈ s.fds.dom, t.obj d = s.fds.obj d) ∧ ∀ d ∈ t.dom, d ∈ s.fds.dom) ∨
    (∃ c, Accepted c ∧ c.fd = (s.fds.alloc a.pick).1 ∧ c.idx = s.pool.conns.length ∧
      c.wire.id = s.accepted ∧ c.fd < FD_SETSIZE ∧ s.pool.conns.length < MAX_CONNS ∧
      lisoAcceptConn conf a ssl s = s.join (s.fds.alloc a.pick).2 c) := by
  -- A socket that is closed again leaves the table with the same open descriptors.
  have hfree : (∀ d ∈ s.fds.dom, ((s.fds.alloc a.pick).2.free (s.fds.alloc a.pick).1).obj d =
      s.fds.obj d) ∧
      ∀ d ∈ ((s.fds.alloc a.pick).2.free (s.fds.alloc a.pick).1).dom, d ∈ s.fds.dom := by
    constructor
    · intro d hd
      have hne : d ≠ (s.fds.alloc a.pick).1 := fun he => s.fds.alloc_fresh a.pick (he ▸ hd)
      rw [Table.obj_free _ hne, Table.obj_alloc _ _ hd]
    · intro d hd
      rw [Table.mem_dom_free, Table.dom_alloc, List.mem_cons] at hd
      exact hd.1.resolve_left hd.2
  -- With room in the pool, `pl_add_conn` appends the connection.
  have hadd : ∀ c : Conn, c.idx = s.pool.conns.length → c.fd = (s.fds.alloc a.pick).1 →
      (s.fds.alloc a.pick).1 < FD_SETSIZE → s.pool.conns.length < MAX_CONNS →
      { (plAddConn { s with fds := (s.fds.alloc a.pick).2 } c).2 with accepted := s.accepted + 1 } =
        s.join (s.fds.alloc a.pick).2 c := by
    intro c hidx hfd hlt hn
    have hbig : ¬ FD_SETSIZE ≤ c.fd := by rw [hfd]; exact not_le.2 hlt
    have hn' : ¬ MAX_CONNS ≤ c.idx := by rw [hidx]; exact not_le.2 hn
    simp only [plAddConn, ← hidx, hn', if_false, Srv.setRead, Srv.probe, hbig, decide_false,
      Bool.or_false, Srv.join]
  unfold lisoAcceptConn
  dsimp only
  by_cases hok : a.ok
  case neg =>
    rw [if_pos (by simp [hok])]
    exact .inl ⟨s.fds, rfl, fun _ _ => rfl, fun _ hd => hd⟩
  rw [if_neg (by simp [hok])]
  by_cases hbig : FD_SETSIZE ≤ (s.fds.alloc a.pick).1
  · rw [if_pos hbig]
    exact .inl ⟨_, rfl, hfree⟩
  rw [if_neg hbig]
  by_cases hfull : s.pool.conns.length = MAX_CONNS
  · rw [if_pos hfull]
    exact .inl ⟨_, rfl, hfree⟩
  rw [if_neg hfull]
  have hlt : (s.fds.alloc a.pick).1 < FD_SETSIZE := not_le.1 hbig
  have hn : s.pool.conns.length < MAX_CONNS := lt_of_le_of_ne hsize hfull
  cases ssl with
  | false =>
    refine .inr ⟨_, ⟨_, _, _, _, _, _, _, _, rfl⟩, ?_, ?_, ?_, ?_, hn, hadd _ ?_ ?_ hlt hn⟩
    all_goals first | rfl | exact hlt
  | true =>
    by_cases hssl : (a.ssl_new && a.ssl_set_fd) = true
    · rw [if_pos rfl, if_pos hssl]
      refine .inr ⟨_, ⟨_, _, _, _, _, _, _, _, rfl⟩, ?_, ?_, ?_, ?_, hn, hadd _ ?_ ?_ hlt hn⟩
      all_goals first | rfl | exact hlt
    · rw [if_pos rfl, if_neg hssl]
      exact .inl ⟨_, rfl, hfree⟩

/-- The pool's invariant speaks of the connections, of the two sets, and of the table. -/
theorem PoolInv.congr (h : PoolInv T conf s) (hconns : s'.pool.conns = s.pool.conns)
    (hr : s'.pool.read_set = s.pool.read_set) (hw : s'.pool.write_set = s.pool.write_set)
    (hobj : ∀ d ∈ s.fds.dom, s'.fds.obj d = s.fds.obj d) (hdom : ∀ d ∈ s'.fds.dom, d ∈ s.fds.dom) :
    PoolInv T conf s' := by
  have hopen : ∀ d ∈ s.fds.dom, d ∈ s'.fds.dom := by
    intro d hd
    rw [← Table.obj_isSome, hobj d hd, Table.obj_isSome]
    exact hd
  have hoth : ∀ i, s'.others conf i = s.others conf i := fun i => by
    unfold Srv.others
    rw [hconns]
  refine ⟨?_, ?_, ?_, fun d hd => hopen d (h.base d hd), ?_, ?_, ?_⟩
  · rw [hconns]; exact h.size
  · rw [hconns]; exact h.idx
  · rw [hconns]
    intro i c hc
    have hH := h.held i c hc
    refine ⟨by rw [hconns]; exact hH.idx, hH.nodup, fun d hd => hopen d (hH.own d hd), ?_,
      ?_, ?_, ?_, ?_,
      hH.quiet⟩
    · rw [hoth]; exact fun d hd => hopen d (hH.others d hd)
    · rw [hoth]; exact hH.apart
    · rw [hoth, hr]; exact hH.read
    · rw [hoth, hw]; exact hH.write
    · rw [hoth]; exact fun t d hd => hH.tight t d (hdom d hd)
  · rw [hconns, hr]; exact h.read
  · rw [hconns, hw]; exact h.write
  · rw [hconns]; exact fun t d hd => h.tight t d (hdom d hd)

/-- The bits of the two sets are on open descriptors. -/
theorem PoolInv.bits_open (h : PoolInv T conf s) {d : ℕ}
    (hd : d ∈ s.pool.read_set ∨ d ∈ s.pool.write_set) : d ∈ s.fds.dom := by
  rcases hd with hd | hd
  · rcases h.read d hd with hb | ⟨c, hc, hw⟩
    · exact h.base d hb
    · obtain ⟨i, hi⟩ := List.mem_iff_getElem?.1 hc
      exact (h.held i c hi).own d hw.mem_owned
  · obtain ⟨c, hc, rfl⟩ := h.write d hd
    obtain ⟨i, hi⟩ := List.mem_iff_getElem?.1 hc
    exact (h.held i c hi).own _ c.fd_mem_owned

/-- A connection just accepted owns its socket only. -/
theorem Accepted.owned (h : Accepted c) : c.owned = [c.fd] := by
  obtain ⟨fd, idx, mem, id, addr, port, scheme, ssl, rfl⟩ := h
  rfl

/-- A connection just accepted watches its socket only. -/
theorem Accepted.watches (h : Accepted c) {d : ℕ} (hd : c.Watches d) : d = c.fd := by
  have := hd.mem_owned
  rwa [h.owned, List.mem_singleton] at this

section Join

variable {j : ℕ} {cj : Conn} {d : ℕ} {t : Table}

/-- The entries of the array with a connection more. -/
theorem join_getElem? : (s.join t c).pool.conns[j]? = some cj ↔
    s.pool.conns[j]? = some cj ∨ (j = s.pool.conns.length ∧ cj = c) := by
  show (s.pool.conns ++ [c])[j]? = some cj ↔ _
  rcases lt_trichotomy j s.pool.conns.length with hj | hj | hj
  · rw [List.getElem?_append_left hj]
    refine ⟨.inl, ?_⟩
    rintro (h | ⟨h, -⟩)
    · exact h
    · omega
  · subst hj
    simp [eq_comm]
  · rw [List.getElem?_append_right hj.le, List.getElem?_eq_none (by simp; omega),
      List.getElem?_eq_none hj.le]
    simp only [reduceCtorEq, false_or, false_iff]
    omega

/-- The socket of a new connection is one more descriptor of the others of each old one. -/
theorem Accepted.others_old (hc : Accepted c) (hj : j < s.pool.conns.length) :
    d ∈ (s.join t c).others conf j ↔ d = c.fd ∨ d ∈ s.others conf j := by
  constructor
  · rintro (hd | ⟨m, cm, hm, hcm, hd⟩)
    · exact .inr (.inl hd)
    · rcases join_getElem?.1 hcm with hcm | ⟨rfl, rfl⟩
      · exact .inr (.inr ⟨m, cm, hm, hcm, hd⟩)
      · rw [hc.owned, List.mem_singleton] at hd
        exact .inl hd
  · rintro (rfl | hd | ⟨m, cm, hm, hcm, hd⟩)
    · exact .inr ⟨_, c, by omega, join_getElem?.2 (.inr ⟨rfl, rfl⟩), c.fd_mem_owned⟩
    · exact .inl hd
    · exact .inr ⟨m, cm, hm, join_getElem?.2 (.inl hcm), hd⟩

/-- The others of the new connection are all that was there before. -/
theorem others_new : d ∈ (s.join t c).others conf s.pool.conns.length ↔
    d ∈ conf.base ∨ ∃ cj ∈ s.pool.conns, d ∈ cj.owned := by
  refine or_congr_right ⟨?_, ?_⟩
  · rintro ⟨m, cm, hm, hcm, hd⟩
    rcases join_getElem?.1 hcm with hcm | ⟨rfl, rfl⟩
    · exact ⟨cm, List.mem_of_getElem? hcm, hd⟩
    · exact absurd rfl hm
  · rintro ⟨cm, hcm, hd⟩
    obtain ⟨m, hm⟩ := List.mem_iff_getElem?.1 hcm
    have hlt : m < s.pool.conns.length := (List.getElem?_eq_some_iff.1 hm).1
    exact ⟨m, cm, by omega, join_getElem?.2 (.inl hm), hd⟩

/-- The connections of the pool, with the descriptors from before the main loop, own open
descriptors only. -/
theorem PoolInv.owned_open (h : PoolInv T conf s)
    (hd : d ∈ conf.base ∨ ∃ cj ∈ s.pool.conns, d ∈ cj.owned) : d ∈ s.fds.dom := by
  rcases hd with hd | ⟨cj, hcj, hd⟩
  · exact h.base d hd
  · obtain ⟨j, hj⟩ := List.mem_iff_getElem?.1 hcj
    exact (h.held j cj hj).own d hd

/-- An old connection holds its descriptors when one joins. -/
theorem PoolInv.held_join_old (h : PoolInv T conf s) (hc : Accepted c) (hfresh : c.fd ∉ s.fds.dom)
    (hdom : ∀ d, d ∈ t.dom ↔ d = c.fd ∨ d ∈ s.fds.dom) (hj : s.pool.conns[j]? = some cj) :
    Held T ((s.join t c).others conf j) cj (s.join t c) := by
  have hH := h.held j cj hj
  have hlt : j < s.pool.conns.length := (List.getElem?_eq_some_iff.1 hj).1
  have hoth : ∀ d, d ∈ (s.join t c).others conf j ↔ d = c.fd ∨ d ∈ s.others conf j := fun d =>
    hc.others_old hlt
  have hlen : (s.join t c).pool.conns.length = s.pool.conns.length + 1 := List.length_append
  refine ⟨by rw [hlen, h.idx j cj hj]; omega, hH.nodup, ?_, ?_, ?_, ?_, ?_, ?_, hH.quiet⟩
  · exact fun d hd => (hdom d).2 (.inr (hH.own d hd))
  · exact fun d hd => (hdom d).2 (((hoth d).1 hd).imp_right (hH.others d))
  · intro d hd hd'
    rcases (hoth d).1 hd' with rfl | hd'
    · exact hfresh (hH.own _ hd)
    · exact hH.apart d hd hd'
  · intro d hd
    rcases Finset.mem_insert.1 hd with rfl | hd
    · exact .inl ((hoth _).2 (.inl rfl))
    · exact (hH.read d hd).imp_left fun hd => (hoth d).2 (.inr hd)
  · exact fun d hd => (hH.write d hd).imp_left fun hd => (hoth d).2 (.inr hd)
  · intro ht d hd
    rcases (hdom d).1 hd with rfl | hd
    · exact .inl ((hoth _).2 (.inl rfl))
    · exact (hH.tight ht d hd).imp_left fun hd => (hoth d).2 (.inr hd)

/-- The connection that joins holds its socket apart from what the old ones hold. -/
theorem PoolInv.held_join_new (h : PoolInv T conf s) (hc : Accepted c) (hfresh : c.fd ∉ s.fds.dom)
    (hdom : ∀ d, d ∈ t.dom ↔ d = c.fd ∨ d ∈ s.fds.dom) (hidx : c.idx = s.pool.conns.length) :
    Held T ((s.join t c).others conf s.pool.conns.length) c (s.join t c) := by
  have hlen : (s.join t c).pool.conns.length = s.pool.conns.length + 1 := List.length_append
  refine ⟨by rw [hlen, hidx]; omega, by simp [hc.owned], ?_, ?_, ?_, ?_, ?_, ?_, ?_⟩
  · intro d hd
    rw [hc.owned, List.mem_singleton] at hd
    exact (hdom d).2 (.inl hd)
  · exact fun d hd => (hdom d).2 (.inr (h.owned_open (others_new.1 hd)))
  · intro d hd hd'
    rw [hc.owned, List.mem_singleton] at hd
    exact hfresh (hd ▸ h.owned_open (others_new.1 hd'))
  · intro d hd
    rcases Finset.mem_insert.1 hd with rfl | hd
    · exact .inr (.inl rfl)
    · refine .inl (others_new.2 ((h.read d hd).imp_right ?_))
      rintro ⟨cm, hcm, hw⟩
      exact ⟨cm, hcm, hw.mem_owned⟩
  · intro d hd
    obtain ⟨cm, hcm, hw⟩ := h.write d hd
    exact .inl (others_new.2 (.inr ⟨cm, hcm, hw ▸ cm.fd_mem_owned⟩))
  · intro ht d hd
    rcases (hdom d).1 hd with rfl | hd
    · exact .inr c.fd_mem_owned
    · exact .inl (others_new.2 (h.tight ht d hd))
  · intro _
    have howned := hc.owned
    rw [Conn.owned] at howned
    exact (List.cons.inj howned).2

/-- A connection that joins the pool keeps the invariant. -/
theorem PoolInv.join (h : PoolInv T conf s) (hc : Accepted c) (p : Picker)
    (hfd : c.fd = (s.fds.alloc p).1) (hidx : c.idx = s.pool.conns.length)
    (hn : s.pool.conns.length < MAX_CONNS) : PoolInv T conf (s.join (s.fds.alloc p).2 c) := by
  -- The new number was not open before, so it is nobody's.
  have hfresh : c.fd ∉ s.fds.dom := hfd ▸ s.fds.alloc_fresh p
  have hdom : ∀ d, d ∈ (s.fds.alloc p).2.dom ↔ d = c.fd ∨ d ∈ s.fds.dom := by
    intro d
    rw [Table.dom_alloc, List.mem_cons, hfd, Table.alloc_fst]
  have hmem : ∀ cj ∈ s.pool.conns, cj ∈ (s.join (s.fds.alloc p).2 c).pool.conns := fun cj hcj =>
    List.mem_append_left _ hcj
  have hnew : c ∈ (s.join (s.fds.alloc p).2 c).pool.conns := List.mem_append_right _ (by simp)
  refine ⟨?_, ?_, ?_, fun d hd => (hdom d).2 (.inr (h.base d hd)), ?_, ?_, ?_⟩
  · show (s.pool.conns ++ [c]).length ≤ _
    simp only [List.length_append, List.length_singleton]
    omega
  · intro j cj hj
    rcases join_getElem?.1 hj with hj | ⟨rfl, rfl⟩
    · exact h.idx j cj hj
    · exact hidx
  · intro j cj hj
    rcases join_getElem?.1 hj with hj | ⟨rfl, rfl⟩
    · exact h.held_join_old hc hfresh hdom hj
    · exact h.held_join_new hc hfresh hdom hidx
  · intro d hd
    rcases Finset.mem_insert.1 hd with rfl | hd
    · exact .inr ⟨c, hnew, .inl rfl⟩
    · refine (h.read d hd).imp_right ?_
      rintro ⟨cj, hcj, hw⟩
      exact ⟨cj, hmem cj hcj, hw⟩
  · intro d hd
    obtain ⟨cj, hcj, hw⟩ := h.write d hd
    exact ⟨cj, hmem cj hcj, hw⟩
  · intro ht d hd
    rcases (hdom d).1 hd with rfl | hd
    · exact .inr ⟨c, hnew, c.fd_mem_owned⟩
    · refine (h.tight ht d hd).imp_right ?_
      rintro ⟨cj, hcj, hw⟩
      exact ⟨cj, hmem cj hcj, hw⟩

end Join

/-! ## The main loop -/

/-- Another connection's visit leaves the ready bits and what they mean. -/
theorem Ready.keeps {A : Set ℕ} (h : Ready c s) (hk : Keeps A s s') (hA : ∀ d ∈ c.owned, d ∈ A)
    (hr : s'.pool.read_ready = s.pool.read_ready) (hw : s'.pool.write_ready = s.pool.write_ready)
    (hsnap : s'.snap = s.snap) : Ready c s' := by
  refine ⟨fun d hd hrd => ?_, fun hwd => ?_⟩
  · have hdA := hA d hd.mem_owned
    rw [hr] at hrd
    rw [hk.read d hdA, hk.obj d hdA, hsnap]
    exact h.read d hd hrd
  · have hdA := hA _ c.fd_mem_owned
    rw [hw] at hwd
    rw [hk.write _ hdA, hk.obj _ hdA, hsnap]
    exact h.write hwd

/-- The steps at the two listeners. -/
theorem LoopInv.accept (h : LoopInv T conf l) (hpc : l.pc = .accept ∨ l.pc = .accept_ssl)
    (d : ℕ) (a : Accept) (ssl : Bool) (pc : Pc) :
    LoopInv T conf ⟨if (l.srv.probe d).readReady d then lisoAcceptConn conf a ssl (l.srv.probe d)
      else l.srv.probe d, pc⟩ := by
  have hP : PoolInv T conf (l.srv.probe d) := h.pool.congr rfl rfl rfl (fun _ _ => rfl) fun _ h => h
  have hR : ∀ (i : ℕ) (c : Conn), (l.srv.probe d).pool.conns[i]? = some c →
    Ready c (l.srv.probe d) := by
    intro i c hc
    have := h.ready i c (by rcases hpc with hpc | hpc <;> rw [hpc] <;> trivial) hc
    exact ⟨this.read, this.write⟩
  have hO : ∀ x, x ∈ (l.srv.probe d).pool.read_ready ∨ x ∈ (l.srv.probe d).pool.write_ready →
      x ∈ (l.srv.probe d).fds.dom := h.opened hpc
  generalize l.srv.probe d = s at hP hR hO
  split
  · rcases lisoAcceptConn_cases conf a ssl s hP.size with ⟨t, he, hobj, hdom⟩ |
      ⟨c, hc, hfd, hidx, -, -, hn, he⟩
    · rw [he]
      have hopen : ∀ x ∈ s.fds.dom, x ∈ t.dom := by
        intro x hx
        rw [← Table.obj_isSome, hobj x hx, Table.obj_isSome]
        exact hx
      refine ⟨hP.congr rfl rfl rfl hobj hdom, fun i c _ hc => ?_, fun _ x hx => hopen x (hO x hx)⟩
      refine (hR i c hc).keeps (A := {x | x ∈ s.fds.dom}) ?_ (hP.held i c hc).own rfl rfl rfl
      exact ⟨fun _ _ => Iff.rfl, fun _ _ => Iff.rfl, hobj⟩
    · rw [he]
      -- The new number was not open, so no ready bit is set for it.
      have hfresh : c.fd ∉ s.fds.dom := hfd ▸ s.fds.alloc_fresh a.pick
      have hobj : ∀ x ∈ s.fds.dom, (s.fds.alloc a.pick).2.obj x = s.fds.obj x := fun x hx =>
        s.fds.obj_alloc a.pick hx
      refine ⟨hP.join hc a.pick hfd hidx hn, fun i ci _ hci => ?_, fun _ x hx => ?_⟩
      · rcases List.mem_append.1 (List.mem_of_getElem? hci) with hmem | hmem
        · obtain ⟨j, hj⟩ := List.mem_iff_getElem?.1 hmem
          refine (hR j ci hj).keeps (A := {x | x ∈ s.fds.dom}) ?_ (hP.held j ci hj).own rfl rfl rfl
          refine ⟨fun x hx => ?_, fun _ _ => Iff.rfl, hobj⟩
          have hne : x ≠ c.fd := fun hx' => hfresh (hx' ▸ hx)
          simp [Srv.join, hne]
        · rw [List.mem_singleton] at hmem
          subst hmem
          refine ⟨fun x hx hr => ?_, fun hw => ?_⟩
          · exact absurd (hO x (.inl hr)) (hc.watches hx ▸ hfresh)
          · exact absurd (hO _ (.inr hw)) hfresh
      · show x ∈ (s.fds.alloc a.pick).2.dom
        rw [Table.dom_alloc]
        exact List.mem_cons_of_mem _ (hO x hx)
  · exact ⟨hP, fun i c _ hc => hR i c hc, fun _ => hO⟩

/-- A step of the inner loop. -/
theorem LoopInv.serve (h : LoopInv T conf l) {i m : ℕ} (hpc : l.pc = .serve i m)
    (hi : l.srv.pool.conns[i]? = some c) {r : Ret}
    (hr : r.Post (fun c' s' => Held T (l.srv.others conf i) c' s' ∧
      Moves (l.srv.others conf i) G c l.srv c' s') (Gone T (l.srv.others conf i) G c l.srv)) :
    LoopInv T conf (afterVisit i m r) := by
  have hlt : i < l.srv.pool.conns.length := (List.getElem?_eq_some_iff.1 hi).1
  have hmem : ∀ (j : ℕ) (cj : Conn), j ≠ i → l.srv.pool.conns[j]? = some cj → ∀ d ∈ cj.owned,
      d ∈ l.srv.others conf i := fun j cj hj hcj d hd => .inr ⟨j, cj, hj, hcj, hd⟩
  rcases hr.afterVisit i m with ⟨c', ⟨hH, hM⟩, he⟩ | ⟨hG, he⟩
  · rw [he]
    refine ⟨h.pool.replace hi hH hM, fun j cj hj hcj => ?_, fun hpc' => ?_⟩
    · have hj : i + 1 ≤ j := hj
      have hcj : (r.srv.pool.conns.set i c')[j]? = some cj := hcj
      rw [List.getElem?_set_ne (by omega), hM.conns] at hcj
      refine (h.ready j cj (by rw [hpc]; show i ≤ j; omega) hcj).keeps
        (hM.keeps.trans (.of_eq rfl rfl rfl)) (hmem j cj (by omega) hcj) ?_ ?_ ?_
      · exact hM.read_ready
      · exact hM.write_ready
      · exact hM.snap
    · simp at hpc'
  · rw [he]
    refine ⟨h.pool.remove hi hG, fun j cj hj hcj => ?_, fun hpc' => ?_⟩
    · have hj : i ≤ j := hj
      have hcj : r.srv.pool.conns[j]? = some cj := hcj
      rw [hG.conns, h.pool.idx i c hi] at hcj
      rcases moveLast_getElem? hlt hcj with ⟨hji, hcj⟩ | ⟨rfl, hne, cm, hcm, rfl⟩
      · exact (h.ready j cj (by rw [hpc]; exact hj) hcj).keeps hG.keeps (hmem j cj hji hcj)
          hG.read_ready hG.write_ready hG.snap
      · have := (h.ready _ cm (by rw [hpc]; show j ≤ _; omega) hcm).keeps hG.keeps
          (hmem _ cm (Ne.symm hne) hcm) hG.read_ready hG.write_ready hG.snap
        exact ⟨this.read, this.write⟩
    · simp at hpc'

/-- The invariant holds before the first step. -/
theorem LoopInv.init (h : Init conf l) : LoopInv T conf l := by
  obtain ⟨hpc, hpool, hdom, -, hsock, hssl, -⟩ := h
  have hconns : l.srv.pool.conns = [] := by rw [hpool]; rfl
  refine ⟨⟨?_, ?_, ?_, ?_, ?_, ?_, ?_⟩, ?_, ?_⟩
  · rw [hconns]; simp
  · rw [hconns]; simp
  · rw [hconns]; simp
  · rw [hdom]; exact fun _ h => h
  · rw [hpool]
    intro d hd
    have hd : d ∈ ({conf.sock, conf.ssl_sock} : Finset ℕ) := hd
    rw [Finset.mem_insert, Finset.mem_singleton] at hd
    rcases hd with rfl | rfl
    · exact .inl hsock
    · exact .inl hssl
  · rw [hpool]
    intro d hd
    simp [plNew] at hd
  · rw [hdom]; exact fun _ _ h => .inl h
  · rw [hconns]; simp
  · rw [hpc]; simp

/-- The step of `LoopInv`, when the visits meet the condition on leaks. -/
theorem LoopInv.step (h : LoopInv T conf l) (ev : Ev)
    (hT : T → ∀ i m c, l.pc = .serve i m → l.srv.pool.conns[i]? = some c →
      ∀ c', (stepRecv ev.env c l.srv).conn = some c' → NoLeak conf ev.env c') :
    LoopInv T conf (step conf l ev) := by
  unfold Liso.step
  split
  · split
    · exact h
    · rename_i r w _
      refine ⟨h.pool.congr rfl rfl rfl (fun _ _ => rfl) fun _ h => h,
        fun i c _ hc => ?_, fun _ d hd => ?_⟩
      · refine ⟨fun d _ hd => ⟨(Finset.mem_inter.1 hd).1, rfl⟩,
          fun hd => ⟨(Finset.mem_inter.1 hd).1, rfl⟩⟩
      · refine h.pool.bits_open (hd.imp ?_ ?_)
        · exact fun hd => (Finset.mem_inter.1 hd).1
        · exact fun hd => (Finset.mem_inter.1 hd).1
  · rename_i hpc
    exact h.accept (.inl hpc) _ _ _ _
  · rename_i hpc
    exact h.accept (.inr hpc) _ _ _ _
  · rename_i i m hpc
    split
    · refine ⟨h.pool.congr rfl rfl rfl (fun _ _ => rfl) fun _ h => h, ?_, ?_⟩
      · exact fun _ _ h => h.elim
      · simp
    · rename_i c hc
      have hG : ∀ c' s', PipeActs (fun _ => True) conf ev.env c' s' := fun _ _ =>
        ⟨fun _ _ _ => trivial, fun _ _ _ _ _ _ _ => trivial⟩
      exact h.serve hpc hc (visit_frame _ _ _ _ (fun t c' hc' => hT t i m c hpc hc c' hc')
        (fun _ _ => hG _ _) (h.pool.held i c hc) fun _ => trivial)

/-- The invariant of the main loop holds in every reachable state. -/
theorem loop_inv (h : Reach conf ok l) : LoopInv False conf l :=
  Runs.Reach.induct (fun _ h0 => .init h0) (fun _ ev _ _ ih => ih.step ev fun f => f.elim) h

/-- Standard input is one of the descriptors from before the main loop. -/
theorem Reach.zero_mem (h : Reach conf ok l) : 0 ∈ conf.base :=
  Runs.Reach.induct (P := fun _ => 0 ∈ conf.base) (fun _ h0 => h0.2.2.2.1) (fun _ _ _ _ h => h) h

/-! ## Properties of one connection -/

/-- A condition on every visit of a run. -/
def Visiting (P : Env → Conn → Srv → Prop) (l : Loop) (ev : Ev) : Prop :=
  ∀ i m, l.pc = .serve i m → ∀ c ∈ l.srv.pool.conns[i]?, P ev.env c l.srv

/-- A condition on visits that can be tested can be tested of a step. -/
instance Visiting.decidable {P : Env → Conn → Srv → Prop} [∀ e c s, Decidable (P e c s)] (l : Loop)
    (ev : Ev) : Decidable (Visiting P l ev) :=
  match h : l.pc with
  | .serve i _ => decidable_of_iff (∀ c ∈ l.srv.pool.conns[i]?, P ev.env c l.srv)
      ⟨fun hP j m hj => by rw [h, Pc.serve.injEq] at hj; exact hj.1 ▸ hP, fun hP => hP i _ h⟩
  | .select => isTrue fun _ _ hj => by simp [h] at hj
  | .accept => isTrue fun _ _ hj => by simp [h] at hj
  | .accept_ssl => isTrue fun _ _ hj => by simp [h] at hj

/-- A run whose visits meet a condition is one of those whose visits meet a weaker one. -/
theorem Reach.visiting {P Q : Env → Conn → Srv → Prop} (h : Reach conf (Visiting P) l)
    (hPQ : ∀ e c s, P e c s → Q e c s) : Reach conf (Visiting Q) l :=
  Runs.Reach.mono (fun _ _ hok i m hpc c hc => hPQ _ _ _ (hok i m hpc c hc)) h

/-- A property of a connection and of the bits and objects of its own descriptors. -/
structure Stable (L : Conn → Srv → Prop) : Prop where
  /-- The place in the pool does not matter. -/
  idx : ∀ c s i, L c s → L { c with idx := i } s
  /-- Nothing but the connection's descriptors matters. -/
  keep : ∀ c s s', L c s → Keeps {d | d ∈ c.owned} s s' → L c s'

/-- The marks of what happened: the exchanges served, and the two kinds of errors. -/
def Srv.marks (s : Srv) : List Served × Bool × Bool := (s.served, s.bad_fd, s.bad_ptr)

/-- The properties `L` of the connection and `S` of the marks are preserved by the visits of a
run. -/
def Visits (conf : Conf) (ok : Loop → Ev → Prop) (L : Conn → Srv → Prop)
    (S : List Served × Bool × Bool → Prop) :
    Prop :=
  ∀ l ev i m c, Reach conf ok l → ok l ev → l.pc = .serve i m → l.srv.pool.conns[i]? = some c →
    Held False (l.srv.others conf i) c l.srv → Ready c l.srv → L c l.srv → S l.srv.marks →
    (visit conf ev.env c l.srv).Post (fun c' s' => L c' s' ∧ S s'.marks) (fun s' => S s'.marks)

/-- The listeners fit into an `fd_set`. -/
theorem Reach.socks (h : Reach conf ok l) :
    conf.sock < FD_SETSIZE ∧ conf.ssl_sock < FD_SETSIZE := by
  refine Runs.Reach.induct (P := fun _ => conf.sock < FD_SETSIZE ∧ conf.ssl_sock < FD_SETSIZE)
    (fun _ h0 => ?_)
    (fun _ _ _ _ h => h) h
  obtain ⟨-, -, -, -, -, -, -, h1, h2, -⟩ := h0
  exact ⟨h1, h2⟩

/-- Testing a number that fits leaves the marks. -/
theorem Srv.marks_probe (s : Srv) {d : ℕ} (hd : d < FD_SETSIZE) : (s.probe d).marks = s.marks := by
  simp [Srv.marks, Srv.probe, not_le.2 hd]

/-- A property of one connection that a new connection has and that its own visits preserve holds of
every connection in every reachable state, and so does a property of the marks that the visits
preserve. -/
theorem reach_local {L : Conn → Srv → Prop} {S : List Served × Bool × Bool → Prop} (hL : Stable L)
    (hS : S ([], false, false))
    (hnew : ∀ c s, Accepted c → c.fd < FD_SETSIZE → c.fd ∈ s.pool.read_set →
      c.fd ∉ s.pool.write_set → L c s)
    (hvisit : Visits conf ok L S) (h : Reach conf ok l) :
    (∀ c ∈ l.srv.pool.conns, L c l.srv) ∧ S l.srv.marks := by
  refine Runs.Reach.induct (P := fun l => (∀ c ∈ l.srv.pool.conns, L c l.srv) ∧ S l.srv.marks)
    (fun l h0 => ?_) (fun l ev hl hok ih => ?_) h
  · obtain ⟨-, hpool, -, -, -, -, -, -, -, -, hserved, -, hfd, hptr⟩ := h0
    rw [hpool, Srv.marks, hserved, hfd, hptr]
    exact ⟨by simp [plNew], hS⟩
  obtain ⟨ihL, ihP⟩ := ih
  have hinv := loop_inv hl
  have hsame : ∀ s' : Srv, (∀ A, Keeps A l.srv s') → ∀ c ∈ l.srv.pool.conns, L c s' :=
    fun s' hk c hc => hL.keep c _ _ (ihL c hc) (hk _)
  -- Accepting adds at most a new connection, and takes nothing from the others.
  have haccept : ∀ (d : ℕ) (a : Accept) (ssl : Bool), d < FD_SETSIZE →
      (∀ c ∈ (if (l.srv.probe d).readReady d then lisoAcceptConn conf a ssl (l.srv.probe d)
        else l.srv.probe d).pool.conns, L c (if (l.srv.probe d).readReady d then
          lisoAcceptConn conf a ssl (l.srv.probe d) else l.srv.probe d)) ∧
      S (if (l.srv.probe d).readReady d then lisoAcceptConn conf a ssl (l.srv.probe d)
        else l.srv.probe d).marks := by
    intro d a ssl hd
    have hP : PoolInv False conf (l.srv.probe d) :=
      hinv.pool.congr rfl rfl rfl (fun _ _ => rfl) fun _ h => h
    have hLp : ∀ c ∈ (l.srv.probe d).pool.conns, L c (l.srv.probe d) :=
      hsame _ fun _ => .of_eq rfl rfl rfl
    have hPp : S (l.srv.probe d).marks := by rw [Srv.marks_probe _ hd]; exact ihP
    generalize l.srv.probe d = s at hP hLp hPp
    split
    · rcases lisoAcceptConn_cases conf a ssl s hP.size with ⟨t, he, hobj, -⟩ |
        ⟨c, hc, hfd, -, -, hlt, -, he⟩
      · rw [he]
        refine ⟨fun c hc => hL.keep c s _ (hLp c hc) ?_, hPp⟩
        obtain ⟨i, hi⟩ := List.mem_iff_getElem?.1 hc
        exact ⟨fun _ _ => Iff.rfl, fun _ _ => Iff.rfl,
          fun x hx => hobj x ((hP.held i c hi).own x hx)⟩
      · rw [he]
        have hfresh : c.fd ∉ s.fds.dom := hfd ▸ s.fds.alloc_fresh a.pick
        refine ⟨fun ci hci => ?_, hPp⟩
        rcases List.mem_append.1 hci with hci | hci
        · obtain ⟨i, hi⟩ := List.mem_iff_getElem?.1 hci
          have hown := (hP.held i ci hi).own
          refine hL.keep ci s _ (hLp ci hci) ⟨fun x hx => ?_, fun _ _ => Iff.rfl, fun x hx => ?_⟩
          · have hne : x ≠ c.fd := fun hx' => hfresh (hx' ▸ hown x hx)
            simp [Srv.join, hne]
          · exact s.fds.obj_alloc a.pick (hown x hx)
        · rw [List.mem_singleton] at hci
          subst hci
          refine hnew ci _ hc hlt (Finset.mem_insert_self _ _) fun hw => hfresh ?_
          exact hP.bits_open (.inr hw)
    · exact ⟨hLp, hPp⟩
  unfold Liso.step
  split
  · split
    · exact ⟨ihL, ihP⟩
    · exact ⟨hsame _ fun _ => .of_eq rfl rfl rfl, ihP⟩
  · exact haccept _ _ _ (Reach.socks hl).1
  · exact haccept _ _ _ (Reach.socks hl).2
  · rename_i i m hpc
    split
    · exact ⟨hsame _ fun _ => .of_eq rfl rfl rfl, ihP⟩
    · rename_i c hc
      have hlt : i < l.srv.pool.conns.length := (List.getElem?_eq_some_iff.1 hc).1
      have hH := hinv.pool.held i c hc
      have hR := hinv.ready i c (by rw [hpc]; show i ≤ i; omega) hc
      have hpost := hvisit l ev i m c hl hok hpc hc hH hR (ihL c (List.mem_of_getElem? hc)) ihP
      have hframe := visit_frame_any conf ev.env c l.srv hH
      -- The visit leaves what the other connections own alone.
      have hother : ∀ (j : ℕ) (cj : Conn) (s' : Srv), j ≠ i → l.srv.pool.conns[j]? = some cj →
          Keeps (l.srv.others conf i) l.srv s' → L cj s' := fun j cj s' hj hcj hk =>
        hL.keep cj _ _ (ihL cj (List.mem_of_getElem? hcj))
          (hk.mono fun d hd => .inr ⟨j, cj, hj, hcj, hd⟩)
      rcases (hpost.and hframe).afterVisit i m with ⟨c', ⟨⟨hLc, hadd⟩, -, hM⟩, he⟩
        | ⟨⟨hadd, hG⟩, he⟩
      · rw [he]
        -- The visited connection goes back to its place.
        refine ⟨fun cj hcj => ?_, hadd⟩
        obtain ⟨j, hj⟩ := List.mem_iff_getElem?.1 hcj
        have hj : ((visit conf ev.env c l.srv).srv.pool.conns.set i c')[j]? = some cj := hj
        rw [hM.conns] at hj
        by_cases hji : j = i
        · subst hji
          rw [List.getElem?_set_self hlt, Option.some.injEq] at hj
          subst hj
          exact hL.keep c' _ _ hLc (.of_eq rfl rfl rfl)
        · rw [List.getElem?_set_ne (Ne.symm hji)] at hj
          exact hother j cj _ hji hj (hM.keeps.trans (.of_eq rfl rfl rfl))
      · rw [he]
        refine ⟨fun cj hcj => ?_, hadd⟩
        obtain ⟨j, hj⟩ := List.mem_iff_getElem?.1 hcj
        -- The last connection moves to the place of the dropped one.
        rw [hG.conns, hinv.pool.idx i c hc] at hj
        rcases moveLast_getElem? hlt hj with ⟨hji, hj⟩ | ⟨rfl, hne, cm, hcm, rfl⟩
        · exact hother j cj _ hji hj hG.keeps
        · exact hL.idx _ _ _ (hother _ cm _ (Ne.symm hne) hcm hG.keeps)

end Liso
