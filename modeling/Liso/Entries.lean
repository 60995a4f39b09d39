import Liso.Locks

/-!
# The entries of the log

The text of the file is the concatenation of what the log functions wrote, each in one piece. `Tip`
is what holds the pieces together: while a log function has the lock, its entry is the last of the
history, and nobody else is between its `lock` and its `unlock`.
-/

namespace Liso

open Records (Owns Free)

/-- `rest` is what the log function has still to write, up to what its short writes lost. -/
def Entry.Owes (e : Entry) (rest : List Byte) : Prop :=
  (e.written ++ rest).Sublist e.text ∧ (e.short = false → e.text = e.written ++ rest)

/-- What was written is what a log function writes, up to what its short writes lost and to where it
was cut. -/
def Entry.Faithful (e : Entry) : Prop :=
  (∃ f : Func, e.text = f.text) ∧ e.written.Sublist e.text ∧
    (e.short = false → e.written <+: e.text) ∧
    (e.fate = .done → e.short = false → e.written = e.text)

/-- A write pays a part of what is owed. -/
theorem Entry.Owes.wrote {e : Entry} {data rest : List Byte} (h : e.Owes (data ++ rest)) (n : ℕ) :
    (e.wrote data n).Owes rest := by
  obtain ⟨hsub, heq⟩ := h
  constructor
  · refine List.Sublist.trans ?_ hsub
    simp only [Entry.wrote, List.append_assoc]
    exact List.Sublist.append_left ((List.take_sublist n data).append_right rest) e.written
  · intro hs
    simp only [Entry.wrote, Bool.or_eq_false_iff, decide_eq_false_iff_not, not_lt] at hs ⊢
    rw [heq hs.1, List.take_of_length_le hs.2, List.append_assoc]

/-- While something is owed, the entry is faithful so far. -/
theorem Entry.Owes.faithful {e : Entry} {rest : List Byte} (h : e.Owes rest)
    (hf : ∃ f : Func, e.text = f.text) (hg : e.fate = .done → rest = []) : e.Faithful :=
  ⟨hf, (List.sublist_append_left _ _).trans h.1, fun hs => ⟨rest, (h.2 hs).symm⟩,
    fun hd hs => by rw [h.2 hs, hg hd, List.append_nil]⟩

/-- The history has at most one log function that has the lock. It is the last entry, and that of
the one process between its `lock` and its `unlock`. -/
inductive Tip (es : List Entry) (procs : ℕ → Option Proc) : Prop
  /-- Nobody has the lock. -/
  | quiet : (∀ e ∈ es, e.fate ≠ .going) → (∀ p r, procs p = some r → inside r.calls = false) →
    Tip es procs
  /-- A log function has it. -/
  | going {es' : List Entry} {e : Entry} {r : Proc} :
      es = es' ++ [e] → (∀ e' ∈ es', e'.fate ≠ .going) → e.fate = .going → procs e.pid = some r →
        inside r.calls = true → e.Owes (text r.calls) →
          (∀ p r, procs p = some r → inside r.calls = true → p = e.pid) → Tip es procs

/-- The history is changed in its last entry. -/
theorem note_last {es : List Entry} {e : Entry} (h : ∀ e' ∈ es, e'.fate ≠ .going)
    (he : e.fate = .going) (f : Entry → Entry) : note (es ++ [e]) e.pid f = es ++ [f e] := by
  have hes : note es e.pid f = es := by
    exact (List.map_congr_left fun e' he' => if_neg fun hc => h e' he' hc.2).trans (List.map_id es)
  unfold note at hes ⊢
  rw [List.map_append, hes]
  simp [he]

/-- The history of a process that does not have the lock is not changed. -/
theorem note_none {es : List Entry} {p : ℕ} (h : ∀ e ∈ es, e.fate = .going → e.pid ≠ p)
    (f : Entry → Entry) :
    note es p f = es :=
  (List.map_congr_left fun e he => if_neg fun hc => h e he hc.2 hc.1).trans (List.map_id es)

namespace Tip

variable {es : List Entry} {procs procs' : ℕ → Option Proc} {p : ℕ}

/-- Only the process of the last entry has the lock. -/
theorem pid_ne (h : Tip es procs) (hp : ∀ r, procs p = some r → inside r.calls = false) :
    ∀ e ∈ es, e.fate = .going → e.pid ≠ p := by
  rintro e he hg rfl
  cases h with
  | quiet hq _ => exact hq e he hg
  | going hes hq _ hr hi _ _ =>
    subst hes
    obtain he | he := List.mem_append.1 he
    · exact hq e he hg
    · cases List.mem_singleton.1 he
      simp [hp _ hr] at hi

/-- A process changes that does not have the lock before or after. -/
theorem other (h : Tip es procs) (hp : ∀ r, procs p = some r → inside r.calls = false)
    (hne : ∀ q, q ≠ p → procs' q = procs q)
    (hp' : ∀ r, procs' p = some r → inside r.calls = false) :
    Tip es procs' := by
  cases h with
  | quiet hq hin =>
    refine .quiet hq fun q r hr => ?_
    by_cases hqp : q = p
    · exact hp' r (hqp ▸ hr)
    · exact hin q r (hne q hqp ▸ hr)
  | @going _ e _ hes hq hg hr hi ho hone =>
    have hep : e.pid ≠ p := by
      rintro rfl
      simp [hp _ hr] at hi
    refine .going hes hq hg ((hne _ hep).trans hr) hi ho fun q r hr hi => ?_
    by_cases hqp : q = p
    · simp [hp' r (hqp ▸ hr)] at hi
    · exact hone q r (hne q hqp ▸ hr) hi

/-- A process loses the lock, or did not have it. -/
theorem loses (h : Tip es procs) (hne : ∀ q, q ≠ p → procs' q = procs q)
    (hp' : ∀ r, procs' p = some r → inside r.calls = false) {f : Entry → Entry}
    (hf : ∀ e, (f e).fate ≠ .going) :
    Tip (note es p f) procs' := by
  by_cases hp : ∀ r, procs p = some r → inside r.calls = false
  · rw [note_none (h.pid_ne hp)]
    exact h.other hp hne hp'
  · push Not at hp
    obtain ⟨r, hr, hi⟩ := hp
    cases h with
    | quiet _ hin => exact absurd (hin p r hr) hi
    | @going _ e _ hes hq hg _ _ _ hone =>
      cases hone p r hr (by simpa using hi)
      rw [hes, note_last hq hg]
      refine .quiet (List.forall_mem_append.2 ⟨hq, by simpa using hf e⟩) fun q r' hr' => ?_
      by_cases hqp : q = e.pid
      · exact hp' r' (hqp ▸ hr')
      · by_contra hc
        exact hqp (hone q r' (hne q hqp ▸ hr') (by simpa using hc))

end Tip

/-- The file is what the history says, and the history is faithful to the calls. -/
structure Log.Recorded (s : Log) : Prop where
  /-- The offset is at the end of the file. -/
  offset : s.offset = s.file.length
  /-- The file. -/
  file : s.file = s.entries.flatMap Entry.written
  /-- What is locked next is the section of a log function. -/
  texts : ∀ p r cs, s.procs p = some r → r.calls = .lock :: cs → ∃ f : Func, text cs = f.text
  /-- The entries. -/
  faithful : ∀ e ∈ s.entries, e.Faithful
  /-- The last one. -/
  tip : Tip s.entries s.procs

/-- Changing what became of an entry does not change what it wrote. -/
theorem note_written (es : List Entry) (p : ℕ) {f : Entry → Entry}
    (h : ∀ e, (f e).written = e.written) :
    (note es p f).flatMap Entry.written = es.flatMap Entry.written := by
  induction es with
  | nil => rfl
  | cons e es ih =>
    rw [note, List.map_cons, List.flatMap_cons, List.flatMap_cons]
    refine congrArg₂ _ ?_ ih
    split_ifs
    · exact h e
    · rfl

/-- A log function that is cut is as faithful as it was. -/
theorem Entry.Faithful.cut {e : Entry} (h : e.Faithful) : Entry.Faithful { e with fate := .cut } :=
  ⟨h.1, h.2.1, h.2.2.1, fun hd => by simp at hd⟩

/-- To write at the end of a file is to append. -/
theorem overwrite_end (file data : List Byte) : overwrite file file.length data = file ++ data := by
  simp [overwrite]

namespace Log.Recorded

variable {s : Log} {p : ℕ} {r : Proc}

/-- Entries that are cut are faithful. -/
theorem cut (h : s.Recorded) (p : ℕ) :
    ∀ e ∈ note s.entries p fun e => { e with fate := .cut }, e.Faithful := by
  intro e' he'
  obtain ⟨e, he, rfl⟩ := List.mem_map.1 he'
  split_ifs
  · exact (h.faithful e he).cut
  · exact h.faithful e he

/-- A process changes that does not have the lock before or after. -/
theorem turn (h : s.Recorded) (hp : ∀ r, s.procs p = some r → Liso.inside r.calls = false)
    {r' : Proc} (hin : Liso.inside r'.calls = false)
    (ht : ∀ cs, r'.calls = .lock :: cs → ∃ f : Func, text cs = f.text) :
    Log.Recorded { s with procs := Function.update s.procs p (some r') } where
  offset := h.offset
  file := h.file
  texts q r cs hq hc := forall_update (P := fun _ r => ∀ cs, r.calls = .lock :: cs →
    ∃ f : Func, text cs = f.text)
    ht (fun q r _ hq cs => h.texts q r cs hq) q r hq cs hc
  faithful := h.faithful
  tip := h.tip.other hp (fun q hq => Function.update_of_ne hq ..) fun r hr => by
    cases (Function.update_self p (some r') s.procs).symm.trans hr
    exact hin

/-- The lock is taken: an entry begins. -/
theorem lock (h : s.Recorded) (hl : s.Locked) (hp : s.procs p = some r) {cs : List Call}
    (hc : r.calls = .lock :: cs) (hf : Free s.locks p (r.waits.getD s.offset))
    (t : Records.Table ℕ) :
    Log.Recorded { s with
      locks := t
      procs := Function.update s.procs p (some { r with calls := cs, waits := none })
      entries := s.entries ++ [⟨p, text cs, [], .going, false⟩] } := by
  have hlo : r.waits.getD s.offset ≤ s.offset := by
    cases hw : r.waits with
    | some lo => exact (hl.waits p r hp lo hw).1
    | none => exact le_rfl
  have hsh : Liso.inside cs = true ∧ Shaped cs := by simpa [hc, Shaped] using hl.shaped p r hp
  -- Nobody else has the lock, since the bytes behind the offset are free.
  have hnone : ∀ q rq, s.procs q = some rq → Liso.inside rq.calls = false := by
    intro q rq hq
    by_contra hi
    have hi : Liso.inside rq.calls = true := by simpa using hi
    cases hf.eq hlo (hl.inside q rq hq hi)
    cases hp.symm.trans hq
    simp [hc, Liso.inside] at hi
  have hquiet : ∀ e ∈ s.entries, e.fate ≠ .going := fun e he hg =>
    h.tip.pid_ne (hnone e.pid) e he hg rfl
  refine ⟨h.offset, ?_, ?_, ?_, ?_⟩
  · simpa using h.file
  · intro q rq cs' hq hcs
    refine forall_update (P := fun _ r => ∀ cs, r.calls = .lock :: cs →
      ∃ f : Func, text cs = f.text) ?_
      (fun q r _ hq cs => h.texts q r cs hq) q rq hq cs' hcs
    rintro cs'' rfl
    simp [Liso.inside] at hsh
  · refine List.forall_mem_append.2 ⟨h.faithful, ?_⟩
    intro e he
    cases List.mem_singleton.1 he
    exact ⟨h.texts p r cs hp hc, List.nil_sublist _, fun _ => List.nil_prefix,
      fun hd => by simp at hd⟩
  · refine .going rfl hquiet rfl (Function.update_self ..) hsh.1 ⟨List.Sublist.refl _, fun _ => rfl⟩
      ?_
    exact forall_update (fun _ => rfl) fun q rq _ hq hi => by simp [hnone q rq hq] at hi

/-- The history while `p` has the lock. -/
theorem last (h : s.Recorded) (hp : s.procs p = some r) (hi : Liso.inside r.calls = true) :
    ∃ es e, s.entries = es ++ [e] ∧ (∀ e' ∈ es, e'.fate ≠ .going) ∧ e.fate = .going ∧ e.pid = p ∧
      e.Owes (text r.calls) ∧
      (∀ f, note s.entries p f = es ++ [f e]) ∧ ∀ q rq, s.procs q = some rq →
        Liso.inside rq.calls = true → q = p := by
  cases h.tip with
  | quiet _ hin => simp [hin p r hp] at hi
  | @going es e _ hes hq hg hr _ ho hone =>
    cases hone p r hp hi
    cases hp.symm.trans hr
    exact ⟨es, e, hes, hq, hg, rfl, ho, fun f => by rw [hes, note_last hq hg], hone⟩

/-- Bytes are written, behind those of the entry under way. -/
theorem write (h : s.Recorded) (hl : s.Locked) (hp : s.procs p = some r) {data : List Byte}
    {cs : List Call} (hc : r.calls = .write data :: cs) (n : ℕ) :
    Log.Recorded { s with
      file := overwrite s.file s.offset (data.take n)
      offset := s.offset + (data.take n).length
      procs := Function.update s.procs p (some { r with calls := cs })
      entries := note s.entries p (Entry.wrote data n) } := by
  obtain ⟨es, e, hes, hq, hg, rfl, ho, hnote, hone⟩ := h.last hp (by rw [hc]; rfl)
  have hsh : Liso.inside cs = true ∧ Shaped cs := by simpa [hc, Shaped] using hl.shaped _ r hp
  have hfile : overwrite s.file s.offset (data.take n) = s.file ++ data.take n := by
    rw [h.offset, overwrite_end]
  have ho' : (e.wrote data n).Owes (text cs) := Entry.Owes.wrote (by rwa [hc] at ho) n
  have hcut := h.faithful e (by simp [hes])
  rw [hnote, hfile]
  refine ⟨?_, ?_, ?_, ?_, ?_⟩
  · simp [h.offset]
  · rw [h.file, hes]
    simp [Entry.wrote]
  · intro q rq cs' hq hcs
    refine forall_update (P := fun _ r => ∀ cs, r.calls = .lock :: cs →
      ∃ f : Func, text cs = f.text) ?_
      (fun q r _ hq cs => h.texts q r cs hq) q rq hq cs' hcs
    rintro cs'' rfl
    simp [Liso.inside] at hsh
  · refine List.forall_mem_append.2 ⟨fun e' he' => h.faithful e' (by simp [hes, he']), ?_⟩
    intro e' he'
    cases List.mem_singleton.1 he'
    exact ho'.faithful hcut.1 fun hd => by simp [Entry.wrote, hg] at hd
  · refine .going rfl hq hg (Function.update_self ..) hsh.1 ho' ?_
    exact forall_update (fun _ => rfl) fun q rq _ hq hi => hone q rq hq hi

/-- The lock is given back: the entry is complete. -/
theorem unlock (h : s.Recorded) (hl : s.Locked) (hp : s.procs p = some r) {cs : List Call}
    (hc : r.calls = .unlock :: cs) (t : Records.Table ℕ) :
    Log.Recorded { s with
      locks := t
      procs := Function.update s.procs p (some { r with calls := cs })
      entries := note s.entries p fun e => { e with fate := .done } } := by
  obtain ⟨es, e, hes, hq, hg, rfl, ho, hnote, hone⟩ := h.last hp (by rw [hc]; rfl)
  have hcs : cs = [] ∨ cs = [.close] := by simpa [hc, Shaped] using hl.shaped _ r hp
  have hfile := note_written s.entries e.pid (f := fun e => { e with fate := .done }) fun _ => rfl
  have ho' : Entry.Owes { e with fate := .done } [] := by
    rw [hc] at ho
    exact ho
  refine ⟨h.offset, ?_, ?_, ?_, ?_⟩
  · exact h.file.trans hfile.symm
  · intro q rq cs' hq hcs'
    refine forall_update (P := fun _ r => ∀ cs, r.calls = .lock :: cs →
      ∃ f : Func, text cs = f.text) ?_
      (fun q r _ hq cs => h.texts q r cs hq) q rq hq cs' hcs'
    rintro cs'' rfl
    simp at hcs
  · rw [hnote]
    refine List.forall_mem_append.2 ⟨fun e' he' => h.faithful e' (by simp [hes, he']), ?_⟩
    intro e' he'
    cases List.mem_singleton.1 he'
    exact ho'.faithful (h.faithful e (by simp [hes])).1 fun _ => rfl
  · refine h.tip.loses (fun q hq => Function.update_of_ne hq ..) (fun rq hr => ?_) fun e => by simp
    cases (Function.update_self e.pid (some { r with calls := cs }) s.procs).symm.trans hr
    exact (Shaped.outside hcs).2

/-- A process ends: what it wrote stays. -/
theorem leave (h : s.Recorded) (p : ℕ) : (s.leave p).Recorded where
  offset := h.offset
  file := h.file.trans
    (note_written s.entries p (f := fun e => { e with fate := .cut }) fun _ => rfl).symm
  texts q r cs hq hc := forall_update_none (P := fun _ r => ∀ cs, r.calls = .lock :: cs →
    ∃ f : Func, text cs = f.text)
    (fun q r _ hq cs => h.texts q r cs hq) q r hq cs hc
  faithful := h.cut p
  tip := h.tip.loses (fun q hq => Function.update_of_ne hq ..)
    (fun r hr => by simp [Log.leave] at hr) fun e => by simp

/-- `SIGTERM` cuts the log function under way, and `teardown` begins. -/
theorem term (h : s.Recorded) (p : ℕ) (dt : List Byte) :
    Log.Recorded { s with
      procs := Function.update s.procs p (some ⟨teardownLog dt, none, true⟩)
      entries := note s.entries p fun e => { e with fate := .cut } } where
  offset := h.offset
  file := h.file.trans
    (note_written s.entries p (f := fun e => { e with fate := .cut }) fun _ => rfl).symm
  texts q r cs hq hc := by
    refine forall_update (P := fun _ r => ∀ cs, r.calls = .lock :: cs →
      ∃ f : Func, text cs = f.text) ?_
      (fun q r _ hq cs => h.texts q r cs hq) q r hq cs hc
    rintro cs' hcs'
    cases hcs'
    exact ⟨.line dt (str "-------- Liso Server stops --------"), rfl⟩
  faithful := h.cut p
  tip := h.tip.loses (fun q hq => Function.update_of_ne hq ..) (fun r hr => by
    cases (Function.update_self p (some (⟨teardownLog dt, none, true⟩ : Proc)) s.procs).symm.trans
      hr
    rfl) fun e => by simp

/-- A process makes its next call. -/
theorem call (h : s.Recorded) (hl : s.Locked) (hp : s.procs p = some r) (n : ℕ) :
    (s.call p r n).Recorded := by
  unfold Log.call
  split
  · exact h
  · rename_i cs hc
    dsimp only
    split_ifs with hf
    · exact h.lock hl hp hc hf _
    · have hin : Liso.inside r.calls = false := by rw [hc]; rfl
      refine h.turn (fun r' hr' => ?_) hin fun cs hcs => h.texts p r cs hp hcs
      cases hp.symm.trans hr'
      exact hin
  · rename_i data cs hc
    exact h.write hl hp hc n
  · rename_i cs hc
    exact h.unlock hl hp hc _
  · exact h.leave p

/-- Every move keeps the record. -/
theorem next (h : s.Recorded) (hl : s.Locked) (m : Move) : (s.next m).Recorded := by
  cases m with
  | enter p f =>
    simp only [Log.next]
    split_ifs with hp
    · refine h.turn (fun r hr => ?_) f.outside fun cs hcs => ⟨f, ?_⟩
      · cases hp.symm.trans hr
        rfl
      · rw [← f.text_calls, show f.calls = .lock :: cs from hcs, List.tail_cons]
    · exact h
  | call p n =>
    simp only [Log.next]
    split
    · rename_i r hp
      exact h.call hl hp n
    · exact h
  | fork p q =>
    simp only [Log.next]
    split_ifs with hp
    · exact h.turn (fun r hr => by simp [hp.2] at hr) rfl fun cs hcs => by simp [Proc.idle] at hcs
    · exact h
  | serve p =>
    simp only [Log.next]
    split_ifs with hp
    · exact ⟨h.offset, h.file, h.texts, h.faithful, h.tip⟩
    · exact h
  | exit p => exact h.leave p
  | term p dt =>
    simp only [Log.next]
    split
    · split_ifs
      · exact h
      · exact h.term p dt
    · exact h
  | handled p =>
    rcases hl.handled p with he | ⟨r, hp, hi, he⟩ <;> rw [he]
    · exact h
    · refine h.turn (fun r' hr => ?_) hi fun cs hcs => h.texts p r cs hp hcs
      cases hp.symm.trans hr
      exact hi

end Log.Recorded

/-- The file agrees with the history in every state of the log. -/
theorem logged_recorded {s : Log} (h : Logged s) : s.Recorded := by
  refine h.induct (P := Log.Recorded) ?_ fun s m hr _ ih => ih.next (logged_locked hr) m
  rintro _ ⟨p, rfl⟩
  have hidle : ∀ q r, (logInit p).procs q = some r → r = .idle :=
    forall_update rfl fun q r _ hq => by simp at hq
  refine ⟨rfl, rfl, fun q r cs hq hc => ?_, fun e he => absurd he (by simp [logInit]), ?_⟩
  · cases hidle q r hq
    simp [Proc.idle] at hc
  · refine .quiet (fun e he => absurd he (by simp [logInit])) fun q r hq => ?_
    cases hidle q r hq
    rfl

/-- The log is a sequence of entries, one behind the other, whatever the order in which the
processes run: each is what one log function wrote of its text, all of it when the function returned
and no `write` was short, and a first part of it when its process ended in between. Only the last
entry can be under way. -/
theorem log_entries {s : Log} (h : Logged s) :
    s.file = s.entries.flatMap Entry.written ∧
    (∀ e ∈ s.entries, (∃ f : Func, e.text = f.text) ∧ e.written.Sublist e.text ∧
      (e.short = false → e.written <+: e.text) ∧
        (e.fate = .done → e.short = false → e.written = e.text)) ∧
    (∀ e ∈ s.entries.dropLast, e.fate ≠ .going) ∧
    ∀ p q r rq, s.procs p = some r → s.procs q = some rq → inside r.calls = true →
      inside rq.calls = true → p = q := by
  have hr := logged_recorded h
  refine ⟨hr.file, hr.faithful, ?_,
    fun p q r rq hp hq hi hj => (logged_locked h).unique hp hq hi hj⟩
  cases hr.tip with
  | quiet hq _ => exact fun e he => hq e (List.mem_of_mem_dropLast he)
  | going hes hq _ _ _ _ _ =>
    rw [hes, List.dropLast_concat]
    exact hq

/-- Both write; the child ends behind its line, and the server gets `SIGTERM` in the middle of
`log_raw`. -/
def cutLog : List Move :=
  [.fork 1 2, .enter 2 (.errln (str "12:00") (str "b")), .call 2 0, .enter 1 (.raw (str "out")),
    .call 1 0, .call 2 100,
    .call 2 0, .exit 2, .call 1 0, .call 1 2, .term 1 (str "12:01"), .call 1 0, .call 1 100,
      .call 1 0, .call 1 0]

/-- The child's entry is whole, and the server's is cut in the middle; the last one is that of
`teardown`. -/
theorem log_entries_cut :
    (Runs.exec Log.next (logInit 1) cutLog).file =
        (Runs.exec Log.next (logInit 1) cutLog).entries.flatMap Entry.written ∧
      (Runs.exec Log.next (logInit 1) cutLog).entries.map
        (fun e => (e.pid, e.written, e.fate, e.short)) =
        [(2, str "12:00 !!! ERROR !!! b\n", .done, false), (1, str "ou", .cut, true),
          (1, str "12:01 - -------- Liso Server stops --------\n", .done, false)] :=
  ⟨(log_entries (logged_exec cutLog)).1, by decide +kernel⟩

end Liso
