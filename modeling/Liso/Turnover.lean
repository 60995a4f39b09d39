import Liso.Loop.Rest
import Liso.Places

/-!
# What a step of the loop does to the pool

A step leaves the array of the connections alone, appends a new one, puts a connection back into its
place after a visit, or takes one out (`Turnover`). A connection that is not visited stays as it is,
but for its place (`Turnover.bystander`). Its number is its own in every reachable state
(`numbers_inv`), so that a property of the connection with a certain number is one of a single
client.
-/

namespace Liso

open Handles (Table Picker)

variable {conf : Conf} {ok : Loop → Ev → Prop} {l : Loop} {ev : Ev} {c : Conn}

/-- The array after a step, and the number of connections accepted. -/
inductive Turnover (conf : Conf) (l : Loop) (ev : Ev) : Prop
  /-- No connection is visited. -/
  | idle (hpc : ∀ i m, l.pc = .serve i m → l.srv.pool.conns[i]? = none)
      (hconns : (step conf l ev).srv.pool.conns = l.srv.pool.conns)
      (hacc : (step conf l ev).srv.accepted = l.srv.accepted)
  /-- A connection is accepted. -/
  | joined (c : Conn) (hc : Accepted c) (hid : c.wire.id = l.srv.accepted)
      (hpc : ∀ i m, l.pc ≠ .serve i m)
      (hconns : (step conf l ev).srv.pool.conns = l.srv.pool.conns ++ [c])
      (hacc : (step conf l ev).srv.accepted = l.srv.accepted + 1)
  /-- A visit keeps its connection. -/
  | visited (i m : ℕ) (c c' : Conn) (hpc : l.pc = .serve i m) (hi : l.srv.pool.conns[i]? = some c)
      (hret : (visit conf ev.env c l.srv).conn = some c') (hid : c'.wire.id = c.wire.id)
      (hconns : (step conf l ev).srv.pool.conns = l.srv.pool.conns.set i c')
      (hacc : (step conf l ev).srv.accepted = l.srv.accepted)
  /-- A visit frees its connection. -/
  | freed (i m : ℕ) (c : Conn) (hpc : l.pc = .serve i m) (hi : l.srv.pool.conns[i]? = some c)
      (hret : (visit conf ev.env c l.srv).conn = none)
      (hconns : (step conf l ev).srv.pool.conns = moveLast l.srv.pool.conns i)
      (hacc : (step conf l ev).srv.accepted = l.srv.accepted)

/-- What a step does to the array. -/
theorem turnover (h : Reach conf ok l) (ev : Ev) : Turnover conf l ev := by
  have hinv := loop_inv h
  -- Both accepting steps either add one connection at the end, or none.
  have haccept : ∀ (d : ℕ) (a : Accept) (ssl : Bool) (s' : Srv),
      s' = (if (l.srv.probe d).readReady d then lisoAcceptConn conf a ssl (l.srv.probe d)
        else l.srv.probe d) →
      (s'.pool.conns = l.srv.pool.conns ∧ s'.accepted = l.srv.accepted) ∨
        ∃ c, Accepted c ∧ c.wire.id = l.srv.accepted ∧ s'.pool.conns = l.srv.pool.conns ++ [c] ∧
          s'.accepted = l.srv.accepted + 1 := by
    rintro d a ssl s' rfl
    split
    · rcases lisoAcceptConn_cases conf a ssl (l.srv.probe d) hinv.pool.size with ⟨t, he, -⟩
        | ⟨c, hc, -, -, hid, -, -, he⟩
      · rw [he]
        exact .inl ⟨rfl, rfl⟩
      · rw [he]
        exact .inr ⟨c, hc, hid, rfl, rfl⟩
    · exact .inl ⟨rfl, rfl⟩
  cases hpc : l.pc with
  | select =>
    have hno : ∀ i m, l.pc ≠ .serve i m := fun i m => by simp [hpc]
    cases hev : ev.ready with
    | none =>
      exact .idle (fun i m hm => absurd hm (hno i m)) (by simp [step, hpc, hev])
        (by simp [step, hpc, hev])
    | some p =>
      exact .idle (fun i m hm => absurd hm (hno i m)) (by simp [step, hpc, hev, selectReady])
        (by simp [step, hpc, hev, selectReady])
  | accept =>
    have hno : ∀ i m, l.pc ≠ .serve i m := fun i m => by simp [hpc]
    rcases haccept conf.sock ev.acc false (step conf l ev).srv (by rw [step, hpc]) with ⟨h1, h2⟩
      | ⟨c, hc, hid, h1, h2⟩
    · exact .idle (fun i m hm => absurd hm (hno i m)) h1 h2
    · exact .joined c hc hid hno h1 h2
  | accept_ssl =>
    have hno : ∀ i m, l.pc ≠ .serve i m := fun i m => by simp [hpc]
    rcases haccept conf.ssl_sock ev.acc true (step conf l ev).srv (by rw [step, hpc]) with ⟨h1, h2⟩
      | ⟨c, hc, hid, h1, h2⟩
    · exact .idle (fun i m hm => absurd hm (hno i m)) h1 h2
    · exact .joined c hc hid hno h1 h2
  | serve i m =>
    cases hi : l.srv.pool.conns[i]? with
    | none =>
      refine .idle (fun j k hj => ?_) (by simp [step, hpc, hi]) (by simp [step, hpc, hi])
      obtain ⟨rfl, -⟩ := Pc.serve.inj (hpc.symm.trans hj)
      exact hi
    | some c =>
      have hH := hinv.pool.held i c hi
      have hstep : step conf l ev = afterVisit i m (visit conf ev.env c l.srv) := by
        simp only [step, hpc, hi]
      have hframe := visit_frame_any conf ev.env c l.srv hH
      -- The visited connection goes back to its place, or the last one takes it.
      cases hret : (visit conf ev.env c l.srv).conn with
      | some c' =>
        obtain ⟨hrc, -, hM⟩ := hframe.of_some hret
        rw [afterVisit, if_neg (not_lt.2 hrc), hret] at hstep
        refine .visited i m c c' hpc hi hret hM.id ?_ ?_
        · rw [hstep]
          exact congrArg (·.set i c') hM.conns
        · rw [hstep]
          exact hM.accepted
      | none =>
        obtain ⟨hrc, hG⟩ := hframe.of_none hret
        rw [afterVisit, if_pos hrc] at hstep
        refine .freed i m c hpc hi hret ?_ ?_
        · rw [hstep, hG.conns, hinv.pool.idx i c hi]
        · rw [hstep]
          exact hG.accepted

/-- A connection that is not visited stays in the pool. -/
theorem Turnover.bystander (h : Turnover conf l ev) {j : ℕ} (hj : l.srv.pool.conns[j]? = some c)
    (hno : ∀ m, l.pc ≠ .serve j m) :
    ∃ i, { c with idx := i } ∈ (step conf l ev).srv.pool.conns := by
  have hmem := List.mem_of_getElem? hj
  cases h with
  | idle _ hconns => exact ⟨c.idx, by rw [hconns]; exact hmem⟩
  | joined c' _ _ _ hconns => exact ⟨c.idx, by rw [hconns]; exact List.mem_append_left _ hmem⟩
  | visited i m c₀ c' hpc _ _ _ hconns =>
    have hij : i ≠ j := fun he => hno m (he ▸ hpc)
    exact ⟨c.idx, by rw [hconns]; exact List.mem_of_getElem? ((List.getElem?_set_ne hij).trans hj)⟩
  | freed i m c₀ hpc hi _ hconns =>
    have hij : j ≠ i := fun he => hno m (he ▸ hpc)
    obtain ⟨k, hk | hk⟩ := moveLast_mem (List.getElem?_eq_some_iff.1 hi).1 hij hj
    · exact ⟨c.idx, by rw [hconns]; exact List.mem_of_getElem? hk⟩
    · exact ⟨i, by rw [hconns]; exact List.mem_of_getElem? hk⟩

/-- The numbers of the connections. -/
structure Numbered (s : Srv) : Prop where
  /-- They were given out. -/
  below : ∀ c ∈ s.pool.conns, c.wire.id < s.accepted
  /-- No two connections have the same. -/
  distinct : (s.pool.conns.map fun c => c.wire.id).Nodup

/-- The numbers of the connections, in every reachable state. -/
theorem numbers_inv (h : Reach conf ok l) : Numbered l.srv := by
  refine Runs.Reach.induct (P := fun l => Numbered l.srv) (fun l h0 => ?_)
    (fun l ev hl _ ih => ?_) h
  · have hnil : l.srv.pool.conns = [] := by rw [h0.2.1]; rfl
    exact ⟨by simp [hnil], by simp [hnil]⟩
  cases turnover hl ev with
  | idle _ hconns hacc =>
    exact ⟨by rw [hconns, hacc]; exact ih.below, by rw [hconns]; exact ih.distinct⟩
  | joined c _ hid _ hconns hacc =>
    refine ⟨fun c' hc' => ?_, ?_⟩
    · rw [hconns] at hc'
      rw [hacc]
      rcases List.mem_append.1 hc' with hc' | hc'
      · exact Nat.lt_succ_of_lt (ih.below c' hc')
      · rw [List.mem_singleton.1 hc', hid]
        exact Nat.lt_succ_self _
    · -- The new number was not given out before.
      rw [hconns, List.map_append, List.map_singleton, List.nodup_append]
      refine ⟨ih.distinct, by simp, fun a ha b hb => ?_⟩
      obtain ⟨c', hc', rfl⟩ := List.mem_map.1 ha
      rw [List.mem_singleton.1 hb, hid]
      exact (ih.below c' hc').ne
  | visited i m c c' _ hi _ hid hconns hacc =>
    -- The visited connection keeps its number.
    have hids : (l.srv.pool.conns.set i c').map (fun c => c.wire.id) = l.srv.pool.conns.map fun c =>
      c.wire.id := by
      obtain ⟨hlt, rfl⟩ := List.getElem?_eq_some_iff.1 hi
      rw [List.map_set, hid, ← List.getElem_map (fun c : Conn => c.wire.id)
        (h := by rwa [List.length_map])]
      exact List.set_getElem_self _
    refine ⟨fun c₁ hc₁ => ?_, by rw [hconns, hids]; exact ih.distinct⟩
    rw [hconns] at hc₁
    rw [hacc]
    rcases List.mem_or_eq_of_mem_set hc₁ with hc₁ | rfl
    · exact ih.below c₁ hc₁
    · rw [hid]
      exact ih.below c (List.mem_of_getElem? hi)
  | freed i m c _ hi _ hconns hacc =>
    have hlt := (List.getElem?_eq_some_iff.1 hi).1
    -- Dropping takes one number away, wherever the last connection goes.
    have hperm :
      ((Slots.swapRemove (fun i (c : Conn) => { c with idx := i }) l.srv.pool.conns i).map
        fun c => c.wire.id).Perm ((l.srv.pool.conns.map fun c => c.wire.id).eraseIdx i) :=
      Slots.swapRemove_perm (fun _ _ => rfl) hlt
    rw [← moveLast_eq, ← hconns] at hperm
    refine ⟨fun c₁ hc₁ => ?_, hperm.nodup_iff.2 (ih.distinct.sublist (List.eraseIdx_sublist ..))⟩
    have hmem := hperm.mem_iff.1 (List.mem_map_of_mem (f := fun c : Conn => c.wire.id) hc₁)
    obtain ⟨c₂, hc₂, he⟩ := List.mem_map.1 (List.mem_of_mem_eraseIdx hmem)
    rw [hacc, ← he]
    exact ih.below c₂ hc₂

/-- At most one connection has a number. -/
theorem Numbered.unique {s : Srv} (h : Numbered s) {i j : ℕ} {c c' : Conn}
    (hi : s.pool.conns[i]? = some c) (hj : s.pool.conns[j]? = some c')
    (hid : c.wire.id = c'.wire.id) : i = j := by
  have hlt : i < (s.pool.conns.map fun c => c.wire.id).length := by
    rw [List.length_map]
    exact (List.getElem?_eq_some_iff.1 hi).1
  refine (List.getElem?_inj hlt h.distinct).1 ?_
  rw [List.getElem?_map, List.getElem?_map, hi, hj, Option.map_some, Option.map_some, hid]

/-- Where a connection of the pool comes from: it was accepted in the step, or visited, or it was
there before, with another number than the one visited. -/
theorem Turnover.origin (h : Turnover conf l ev) (hn : Numbered l.srv) {c₁ : Conn}
    (hc₁ : c₁ ∈ (step conf l ev).srv.pool.conns) :
    (Accepted c₁ ∧ c₁.wire.id = l.srv.accepted) ∨
    (∃ i m c, l.pc = .serve i m ∧ l.srv.pool.conns[i]? = some c ∧
      (visit conf ev.env c l.srv).conn = some c₁ ∧ c₁.wire.id = c.wire.id) ∨
    ∃ c idx, c ∈ l.srv.pool.conns ∧ c₁ = { c with idx := idx } ∧
      ∀ i m cv, l.pc = .serve i m → l.srv.pool.conns[i]? = some cv → cv.wire.id ≠ c.wire.id := by
  -- A connection in another place than the one visited has another number.
  have hother : ∀ {i m j : ℕ} {c : Conn}, l.pc = .serve i m → j ≠ i →
      l.srv.pool.conns[j]? = some c → ∀ i m cv, l.pc = .serve i m →
        l.srv.pool.conns[i]? = some cv → cv.wire.id ≠ c.wire.id := by
    intro i m j c hpc hj hc i' m' cv hpc' hcv hid
    obtain ⟨rfl, -⟩ := Pc.serve.inj (hpc'.symm.trans hpc)
    exact hj (hn.unique hc hcv hid.symm)
  cases h with
  | idle hpc hconns =>
    rw [hconns] at hc₁
    refine .inr (.inr ⟨c₁, c₁.idx, hc₁, rfl, fun i m cv hpc' hcv => ?_⟩)
    rw [hpc i m hpc'] at hcv
    cases hcv
  | joined c hc hid hpc hconns =>
    rw [hconns] at hc₁
    rcases List.mem_append.1 hc₁ with hc₁ | hc₁
    · exact .inr (.inr ⟨c₁, c₁.idx, hc₁, rfl, fun i m _ hpc' => absurd hpc' (hpc i m)⟩)
    · rw [List.mem_singleton.1 hc₁]
      exact .inl ⟨hc, hid⟩
  | visited i m c c' hpc hi hret hid hconns =>
    rw [hconns] at hc₁
    obtain ⟨j, hj⟩ := List.mem_iff_getElem?.1 hc₁
    by_cases hij : j = i
    · obtain rfl := hij
      rw [List.getElem?_set_self (List.getElem?_eq_some_iff.1 hi).1] at hj
      obtain rfl := Option.some.inj hj
      exact .inr (.inl ⟨j, m, c, hpc, hi, hret, hid⟩)
    · rw [List.getElem?_set_ne (Ne.symm hij)] at hj
      exact .inr (.inr ⟨c₁, c₁.idx, List.mem_of_getElem? hj, rfl, hother hpc hij hj⟩)
  | freed i m c hpc hi hret hconns =>
    rw [hconns] at hc₁
    obtain ⟨j, hj⟩ := List.mem_iff_getElem?.1 hc₁
    rcases moveLast_getElem? (List.getElem?_eq_some_iff.1 hi).1 hj with ⟨hij, hj⟩
      | ⟨-, hlast, c₀, hc₀, rfl⟩
    · exact .inr (.inr ⟨c₁, c₁.idx, List.mem_of_getElem? hj, rfl, hother hpc hij hj⟩)
    · exact .inr (.inr ⟨c₀, i, List.mem_of_getElem? hc₀, rfl, hother hpc (Ne.symm hlast) hc₀⟩)

end Liso
