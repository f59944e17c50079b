import LiteosM.Kernel.Outcomes

/-!
# The critical sections of the IPC calls

Posting and writing wake tasks, pending and reading let the running task wait. A list whose head has null
pointers stops the machine.

* `At.waitsFor`, `At.wakes`: the two things that these sections do to tasks;
* `At.semPend`, `At.muxPost`, `At.queueOperate`, `At.eventWriteLocked` and the others: each section is an
  `Effect`, so it keeps the invariant;
* `wakeReaders_calms`: the loop of `LOS_EventWrite` is a sequence of calm moves.

Premise: the wait list of an event has been initialised where a task goes to wait in it, which the kernel
does not check.
-/

namespace LiteosM.Kernel

open LiteosM.Lib Function List Option Sched

/-! ## Waking -/

namespace View

variable (v : View) {m : Nat → Prop} {w : Node → Prop} {n : Node}

/-- The first node of a list of tasks that is not empty. -/
theorem first_some (hL : v.L n ≠ none) (hn : n ≠ .taskSortLink) (hne : v.s.heap.isEmpty n = false) :
    ∃ t < taskMaxNum, v.s.first n = some t ∧ v.pl t = some n := by
  obtain ⟨l, hl⟩ := ne_none_iff_exists'.mp hL
  cases l with
  | nil => simp [(v.placed.shape.rings.isEmpty_iff hl).mpr rfl] at hne
  | cons x l =>
    have hx : x ∈ v.L.at n := by
      rw [NodeLists.at_of_some hl]
      exact mem_cons_self
    unfold first
    rw [v.placed.shape.rings.next_head hl]
    obtain ⟨t, ht, rfl | rfl⟩ := v.placed.shape.kind n x hx
    · exact ⟨t, ht, rfl, (v.placed.shape.pend t n).mp hx⟩
    · exact absurd ((v.placed.shape.sort t n).mp hx).1 hn

/-- The first task of a wait list waits in it. -/
theorem first_wait (hn : n.isWait = true) (hne : v.s.heap.isEmpty n = false) :
    (v.L n = none ∧ v.s.first n = none) ∨
      ∃ t < taskMaxNum, v.s.first n = some t ∧ v.pl t = some n ∧ (v.s.st t).pend = true := by
  cases hL : v.L n with
  | none =>
    have hhead : n.isHead = true := by
      cases n with
      | semList | muxList | readWriteList | stEventList | joinList => rfl
      | _ => cases hn
    unfold first
    rw [(v.placed.shape.null hhead hL).1]
    exact .inl ⟨rfl, rfl⟩
  | some l =>
    obtain ⟨t, ht, hfirst, hpl⟩ := v.first_some (hL ▸ some_ne_none l) (by rintro rfl; cases hn) hne
    exact .inr ⟨t, ht, hfirst, hpl, (v.placed.task t ht).pend.mpr ⟨n, hpl, hn⟩⟩

/-- A waiting task is woken, after its control block has been changed. -/
theorem wakeTask (hR : RunOk v.s) {f : LosTaskCB → LosTaskCB} (hf : Aside f) {t : Nat}
    (ht : t < taskMaxNum) (hp : (v.s.st t).pend = true) :
    ∃ v', v'.s = (v.s.setTCB t f).taskWake t ∧ Calms m w v v' := by
  obtain ⟨v1, hs1, hcalm1⟩ := v.setTCB (m := m) f hf fun hr => by
    have hnr := (v.placed.task t ht).not_ready_of_pend hp
    unfold st at hr
    rw [hnr] at hr
    cases hr
  have hp1 : (v1.s.st t).pend = true := by
    unfold st
    rwa [hs1, setTCB_self, hf.taskStatus]
  obtain ⟨v2, hs2, hcalm2⟩ := v1.taskWake (hcalm1.runOk hR) ht hp1
  exact ⟨v2, by rw [hs2, hs1], (Calms.one hcalm1).trans (Calms.one hcalm2)⟩

end View

section
variable {k k' : State} {v : View} {n : Node}

/-- The first task of a wait list is woken. -/
theorem wakeFirst_calms (heq : v.s = k.toSched) (hR : RunOk v.s) (hn : n.isWait = true)
    (hne : k.heap.isEmpty n = false) {f : LosTaskCB → LosTaskCB} (hf : Aside f) :
    ∃ v', v'.s = (k.wakeFirst n f).toSched ∧ Calms nobody noList v v' := by
  unfold State.wakeFirst
  rw [← heq] at hne ⊢
  rcases v.first_wait hn hne with ⟨-, hfirst⟩ | ⟨t, ht, hfirst, -, hp⟩ <;> rw [hfirst]
  · obtain ⟨v', hs', hcalm⟩ := v.raise hR (f := .badPointer) (by decide)
    exact ⟨v', by rw [hs', heq]; rfl, Calms.one hcalm⟩
  · obtain ⟨v', hs', hcalms⟩ := v.wakeTask hR hf ht hp
    exact ⟨v', by rw [hs', heq]; rfl, hcalms⟩

theorem wakeFirst_eq (k : State) (n : Node) (f : LosTaskCB → LosTaskCB) :
    ∃ s', k.wakeFirst n f = { k with toSched := s' } := by
  unfold State.wakeFirst
  split
  · exact ⟨_, rfl⟩
  · exact ⟨_, rfl⟩

/-! ### The tables of objects -/

/-- One entry of a table changes. -/
theorem update_field {α β : Type} {f : Nat → α} {i : Nat} {a : α} (g : α → β) (h : g a = g (f i))
    (j : Nat) : g (update f i a j) = g (f j) := by
  by_cases hj : j = i
  · subst hj
    rw [update_self, h]
  · rw [update_of_ne hj]

theorem At.tables_setSem (hA : At k v) (i : Nat) {f : LosSemCB → LosSemCB}
    (hf : ∀ c, (f c).used = c.used) : Tables k (k.setSem i f) :=
  ⟨update_field _ (hf _), fun _ => rfl, fun _ => rfl, rfl, rfl, rfl, hA.ipc.owner, rfl, rfl⟩

theorem At.tables_setQueue (hA : At k v) (q : Nat) {f : LosQueueCB → LosQueueCB}
    (hf : ∀ c, (f c).used = c.used) : Tables k (k.setQueue q f) :=
  ⟨fun _ => rfl, fun _ => rfl, update_field _ (hf _), rfl, rfl, rfl, hA.ipc.owner, rfl, rfl⟩

variable {k1 : State}

/-- One mutex changes, and the scheduler. -/
theorem Tables.mux_set (h : Tables k k1) (s' : Sched) (i : Nat) {f : LosMuxCB → LosMuxCB}
    (hf : ∀ c, (f c).used = c.used)
    (howner : ∀ o, (f (k1.mux i)).owner = some o →
      o ≤ taskMaxNum ∧ (o < taskMaxNum → (f (k1.mux i)).priority < priorityQueueNum)) :
    Tables k ({ k1 with toSched := s' }.setMux i f) := by
  have hself : ({ k1 with toSched := s' }.setMux i f).mux i = f (k1.mux i) := update_self ..
  have hother : ∀ j, j ≠ i → ({ k1 with toSched := s' }.setMux i f).mux j = k1.mux j := fun j hj =>
    update_of_ne hj _ _
  refine { h with mux := fun j => ?_, owner := fun j o ho => ?_ }
  · by_cases hj : j = i
    · rw [hj, hself, hf, h.mux]
    · rw [hother j hj, h.mux]
  by_cases hj : j = i
  · rw [hj, hself] at ho ⊢
    exact howner o ho
  · rw [hother j hj] at ho ⊢
    exact h.owner j o ho

theorem At.tables_setMux (hA : At k v) (i : Nat) {f : LosMuxCB → LosMuxCB}
    (hf : ∀ c, (f c).used = c.used) (howner : ∀ o, (f (k.mux i)).owner = some o →
      o ≤ taskMaxNum ∧ (o < taskMaxNum → (f (k.mux i)).priority < priorityQueueNum)) :
    Tables k (k.setMux i f) :=
  (hA.tables rfl).mux_set k.toSched i hf howner

/-- Only counters change. -/
theorem At.counts (hA : At k v) (htab : Tables k k') (hs : k'.toSched = k.toSched)
    (htodo : k'.todo = k.todo) (e : ErrNo) : Effect nobody k v (k'.done e) v := by
  refine hA.idle (htab.done e) hs plain_nil ?_
  rw [← htodo]
  exact todo_same _ _

/-- What a task does when it comes back from its wait. -/
theorem At.timedOut (hA : At k v) (e : ErrNo) : ∃ v', Effect nobody k v (k.timedOut e) v' := by
  exact hA.moved (v.clearTimeout hA.good.run) (hA.eq ▸ rfl) rfl plain_nil (todo_same _ _)
    fun hm => hm.elim

/-! ## Semaphores -/

theorem plain_wait {c : Sec} (hc : c.WellFormed ∧ c.plain = true) :
    ∀ d ∈ [Sec.schedule, c], d.WellFormed ∧ d.plain = true := by
  intro d hd
  rcases mem_pair.mp hd with rfl | rfl
  · exact ⟨trivial, rfl⟩
  · exact hc

section
variable (hA : At k v)
include hA

/-- The running task waits in list `n`, after it or others may have changed. -/
theorem At.waitsFor (hstart : k.taskScheduled = true) (hlock : k.losTaskLock = 0)
    {v1 : View} {m : Nat → Prop} (hc : Calms m noList v v1) (hm : ¬m k.runTask)
    (hL : v.L n ≠ none) (hn : n.isWait = true) (hjoin : ∀ t, n ≠ .joinList t)
    (huse : k.inUse n ≠ some false) {ticks : Nat} (hs : v1.s.taskWait n ticks = k'.toSched)
    (htab : k'.beside = k.beside) {c : Sec} (hwf : c.WellFormed ∧ c.plain = true)
    (htodo : k'.todo = update k.todo k'.runTask ([.schedule, c] ++ k.todo k'.runTask)) :
    ∃ v', Effect (fun u => m u ∨ u = k.runTask) k v k' v' := by
  obtain ⟨v', hs', hcalms⟩ := hA.waits hstart hc hm hL hn hjoin ticks
  refine ⟨v', hA.effect (hA.tables htab) hcalms (hs'.trans hs) ?_ (plain_wait hwf) htodo
    fun _ => ⟨hlock, rfl⟩⟩
  rintro n rfl
  exact huse

/-- The same for list `n` of an object in use, the running task having noted in its control block
what it waits for. -/
theorem At.waitsAlone (hstart : k.taskScheduled = true) (hlock : k.losTaskLock = 0)
    {f : LosTaskCB → LosTaskCB} (hf : Aside f)
    (hL : v.L n ≠ none) (hn : n.isWait = true) (hjoin : ∀ t, n ≠ .joinList t)
    (huse : k.inUse n ≠ some false) {ticks : Nat}
    (hs : (k.toSched.setTCB k.runTask f).taskWait n ticks = k'.toSched)
    (htab : k'.beside = k.beside) {c : Sec} (hwf : c.WellFormed ∧ c.plain = true)
    (htodo : k'.todo = update k.todo k'.runTask ([.schedule, c] ++ k.todo k'.runTask)) :
    ∃ v', Effect (· = k.runTask) k v k' v' := by
  obtain ⟨v1, hs1, hcalm⟩ := v.setTCB f hf
    fun hr => absurd hr hA.not_ready
  refine Exists.imp (fun _ h => Effect.mono (m := fun u => nobody u ∨ u = k.runTask) h
    fun _ h => h.resolve_left id) ?_
  refine hA.waitsFor hstart hlock (Calms.one hcalm) id hL hn hjoin huse (by rwa [hs1, hA.eq]) htab hwf htodo

/-- `LOS_SemPend` up to its wait. -/
theorem At.semPend (i timeout : Nat) (hw : k.waits (.semPend i timeout) → k.taskScheduled = true) :
    ∃ v', Effect (· = k.runTask) k v (k.semPend i timeout) v' := by
  rcases k.semPend_cases i timeout with ⟨e, -, h⟩ | ⟨-, -, h⟩ | ⟨hwait, h⟩ <;> rw [h]
  · exact hA.fails e
  · refine ⟨v, Effect.mono (m := nobody) ?_ fun _ h => h.elim⟩
    exact hA.counts (hA.tables_setSem i (by intro; rfl)) rfl rfl _
  obtain ⟨hused, hlock⟩ := k.semValidCheck_ok hwait.2.1
  have huse : k.inUse (.semList i) = some true := congrArg some hused
  exact hA.waitsAlone (hw hwait) hlock (f := fun c => { c with taskSem := some i })
    ⟨fun _ => rfl, fun _ => rfl, fun _ => rfl, fun _ => rfl, fun _ => rfl⟩ (hA.ipc.opened _ huse) rfl
    (fun _ => Node.noConfusion) (by rw [huse]; decide) rfl rfl (c := .semPended) ⟨trivial, rfl⟩ rfl

theorem At.semPended : ∃ v', Effect nobody k v k.semPended v' := by
  unfold State.semPended
  split_ifs
  · exact hA.timedOut _
  · exact ⟨v, hA.done _⟩

/-- The first task of a wait list is woken, and the call goes on to `LOS_Schedule`. -/
theorem At.wakes {v1 : View} (htab : Tables k k1)
    (hc : Calms nobody noList v v1) (hs : v1.s = k1.toSched) (htodo : k1.todo = k.todo)
    (hn : n.isWait = true) (hne : k1.heap.isEmpty n = false) {f : LosTaskCB → LosTaskCB}
    (hf : Aside f) : ∃ v', Effect nobody k v (((k1.wakeFirst n f).done .ok).push [.schedule]) v' := by
  obtain ⟨v', hs', hcalms⟩ := wakeFirst_calms hs (hc.good hA.good).run hn hne hf
  obtain ⟨s', heq⟩ := wakeFirst_eq k1 n f
  rw [heq] at hs' ⊢
  refine ⟨v', hA.effect (((htab.sched s').done .ok).push _) (hc.trans hcalms) hs'
    (fun _ hn => hn.elim) plain_schedule ?_ fun hm => hm.elim⟩
  rw [← htodo]
  rfl

/-- `LOS_SemPost`. -/
theorem At.semPost (i : Nat) : ∃ v', Effect nobody k v (k.semPost i) v' := by
  rcases k.semPost_cases i with ⟨e, -, h⟩ | ⟨-, -, ⟨hne, h⟩ | ⟨-, h⟩⟩ <;> rw [h]
  · exact hA.fails e
  · exact hA.wakes (hA.tables rfl) (Calms.refl v) hA.eq rfl rfl hne
      ⟨fun _ => rfl, fun _ => rfl, fun _ => rfl, fun _ => rfl, fun _ => rfl⟩
  · exact ⟨v, hA.counts (hA.tables_setSem i (by intro; rfl)) rfl rfl _⟩

end

/-! ## Mutexes -/

/-- `LOS_MuxPend` on mutex `i` lends its priority to task `u`. -/
def State.boosts (k : State) (i u : Nat) : Prop :=
  (k.mux i).owner = some u ∧ (k.tcb k.runTask).priority < (k.tcb u).priority
  deriving Decidable

/-- `LOS_MuxPend` up to its wait. The owner may get the priority of the task that waits. -/
theorem At.muxPend (hA : At k v) (i timeout : Nat)
    (hw : k.waits (.muxPend i timeout) → k.taskScheduled = true) :
    ∃ v', Effect (fun u => k.boosts i u ∨ u = k.runTask) k v (k.muxPend i timeout) v' := by
  have hcount : ∀ f : LosMuxCB → LosMuxCB, Tables k (k.setMux i f) →
      ∃ v', Effect (fun u => k.boosts i u ∨ u = k.runTask) k v
        ((k.setMux i f).done .ok) v' := fun f htab =>
    ⟨v, (hA.counts htab rfl rfl _).mono fun _ h => h.elim⟩
  have hprio : k.runTask < taskMaxNum → (k.tcb k.runTask).priority < priorityQueueNum := fun ht => by
    have := (v.placed.task _ ht).prio
    rwa [hA.eq] at this
  rcases k.muxPend_cases i timeout with ⟨e, -, h⟩ | ⟨-, -, h⟩ | ⟨-, -, -, h⟩ |
    ⟨hwait, ⟨-, h⟩ | ⟨owner, howner, h⟩⟩ <;> rw [h]
  · exact hA.fails e
  · refine hcount _ (hA.tables_setMux i (by intro; rfl) fun o ho => ?_)
    cases ho
    exact ⟨(hA.eq ▸ hA.good.run).le, hprio⟩
  · exact hcount _ (hA.tables_setMux i (by intro; rfl) fun o ho => hA.ipc.owner i o ho)
  · refine Exists.imp (fun _ h => Effect.mono (m := nobody) h fun _ h => h.elim) ?_
    exact hA.moved (v.raise hA.good.run (f := .badPointer) (by decide)) (hA.eq ▸ rfl) rfl plain_nil
      (todo_same _ _) fun hm => hm.elim
  obtain ⟨hused, hlock⟩ := k.muxValidCheck_ok hwait.2.1
  have hown := hwait.2.2.2.1
  have huse : k.inUse (.muxList i) = some true := congrArg some hused
  have hne : owner ≠ k.runTask := fun hc => hown (hc ▸ howner)
  obtain ⟨v1, hs1, hcalm1⟩ := v.setTCB (t := k.runTask) (m := k.boosts i)
    (fun c => { c with taskMux := some i })
    ⟨fun _ => rfl, fun _ => rfl, fun _ => rfl, fun _ => rfl, fun _ => rfl⟩ fun hr => by
      rw [← show v.s.runTask = k.runTask from congrArg runTask hA.eq] at hr
      exact absurd hr hA.not_ready
  rw [hA.eq] at hs1
  -- the owner inherits the priority
  obtain ⟨s2, hk2, v2, hs2, hcalms2⟩ : ∃ s2, k.lent i owner = { k with toSched := s2 } ∧
      ∃ v2 : View, v2.s = s2 ∧ Calms (k.boosts i) noList v v2 := by
    unfold State.lent
    dsimp only
    split_ifs with hlow
    · have hboost : k.boosts i owner := by
        refine ⟨howner, ?_⟩
        have hsame : (k.toSched.setTCB k.runTask fun c => { c with taskMux := some i }).tcb owner =
            k.tcb owner := setTCB_of_ne hne _
        rwa [← hsame]
      obtain ⟨v2, hs2, hcalm2⟩ := v1.modifyTaskSchedParam (hcalm1.runOk hA.good.run)
        (hA.ipc.owner i owner howner).1 (fun _ => hprio (hA.run (hw hwait)).1) fun _ => hboost
      exact ⟨_, rfl, v2, by rw [hs2, hs1]; rfl, (Calms.one hcalm1).trans (Calms.one hcalm2)⟩
    · exact ⟨_, rfl, v1, hs1, Calms.one hcalm1⟩
  rw [State.muxWaits, hk2]
  exact hA.waitsFor (hw hwait) hlock hcalms2 (fun hc => hown hc.1) (hA.ipc.opened _ huse) rfl
    (fun _ => Node.noConfusion) (by rw [huse]; decide) (by rw [hs2]; rfl) rfl (c := .muxPended)
    ⟨trivial, rfl⟩ rfl

theorem At.muxPended (hA : At k v) : ∃ v', Effect nobody k v k.muxPended v' := by
  unfold State.muxPended
  split_ifs
  · exact hA.timedOut _
  · exact ⟨v, hA.done _⟩

/-- `LOS_MuxPost`: the running task is not ready, so that its own priority can be set without
touching a queue. -/
theorem At.muxPost (hA : At k v) (i : Nat) : ∃ v', Effect nobody k v (k.muxPost i) v' := by
  refine effect_ite (fun _ => hA.fails _) fun _ => effect_ite (fun _ => hA.fails _) fun hown => ?_
  rw [not_or, not_not] at hown
  have hself : (k.setMux i fun c => { c with muxCount := c.muxCount - 1 }).mux i =
      { k.mux i with muxCount := (k.mux i).muxCount - 1 } := update_self ..
  have htab1 : Tables k (k.setMux i fun c => { c with muxCount := c.muxCount - 1 }) :=
    hA.tables_setMux i (by intro; rfl) (hA.ipc.owner i)
  generalize hk1 : (k.setMux i fun c => { c with muxCount := c.muxCount - 1 }) = k1 at hself htab1
  have hs1 : k1.toSched = k.toSched := by rw [← hk1]; rfl
  have htodo1 : k1.todo = k.todo := by rw [← hk1]; rfl
  refine effect_ite (fun _ => ⟨v, hA.counts htab1 hs1 htodo1 _⟩) fun _ => ?_
  -- the owner gets back the priority it had
  obtain ⟨s2, hk2, v2, hs2, hcalms2⟩ : ∃ s2,
      (if (k1.tcb k1.runTask).priority ≠ (k1.mux i).priority then
        k1.onSched (·.modifyTaskSchedParam k1.runTask (k1.mux i).priority) else k1) =
        { k1 with toSched := s2 } ∧ ∃ v2 : View, v2.s = s2 ∧ Calms nobody noList v v2 := by
    have hprio : v.s.runTask < taskMaxNum → (k1.mux i).priority < priorityQueueNum := by
      rw [hself, hA.eq]
      exact (hA.ipc.owner i _ hown.2).2
    split_ifs
    · obtain ⟨v2, hs2, hcalm2⟩ := v.modifyTaskSchedParam hA.good.run
        hA.good.run.le hprio fun hr => absurd hr hA.not_ready
      refine ⟨_, rfl, v2, ?_, Calms.one hcalm2⟩
      rw [hs2, hA.eq.trans hs1.symm]
    · exact ⟨k1.toSched, rfl, v, hA.eq.trans hs1.symm, Calms.refl v⟩
  rw [hk2]
  by_cases hempty : s2.heap.isEmpty (.muxList i) = true
  · rw [if_neg (by rw [hempty]; exact Bool.false_ne_true)]
    refine ⟨v2, hA.effect ?_ hcalms2 hs2 (fun _ hn => hn.elim) plain_nil ?_ fun hm => hm.elim⟩
    · exact (htab1.mux_set s2 i (by intro; rfl) fun o ho => by cases ho).done _
    · rw [← htodo1]
      exact todo_same _ _
  rw [if_pos (by simpa using hempty)]
  have hempty' : s2.heap.isEmpty (.muxList i) = false := by simpa using hempty
  have hG2 := hcalms2.good hA.good
  rw [← hs2] at hempty' ⊢
  rcases v2.first_wait rfl hempty' with ⟨-, hfirst⟩ | ⟨t, ht, hfirst, -, -⟩ <;> rw [hfirst]
  · obtain ⟨v', hs', hcalm⟩ := v2.raise hG2.run (f := .badPointer) (by decide)
    refine ⟨v', hA.effect (htab1.sched _) (hcalms2.trans (Calms.one hcalm)) hs'
      (fun _ hn => hn.elim) plain_nil ?_ fun hm => hm.elim⟩
    rw [← htodo1]
    exact todo_same _ _
  have htab := htab1.mux_set v2.s i
    (f := fun c => { c with muxCount := 1, owner := some t, priority := (v2.s.tcb t).priority })
    (by intro; rfl) fun o ho => by
      cases ho
      exact ⟨ht.le, fun _ => (v2.placed.task t ht).prio⟩
  exact hA.wakes htab hcalms2 rfl htodo1 rfl hempty'
    ⟨fun _ => rfl, fun _ => rfl, fun _ => rfl, fun _ => rfl, fun _ => rfl⟩

/-! ## Queues -/

theorem At.queueFinish (hA : At k v) (htab : Tables k k1)
    (hs : k1.toSched = k.toSched) (htodo : k1.todo = k.todo) (q : Nat) (rw : ReadWrite) :
    ∃ v', Effect nobody k v (k1.queueFinish q rw) v' := by
  unfold State.queueFinish
  split_ifs with hempty
  · exact hA.wakes htab (Calms.refl v) (hA.eq.trans hs.symm) htodo rfl (by simpa using hempty)
      ⟨fun _ => rfl, fun _ => rfl, fun _ => rfl, fun _ => rfl, fun _ => rfl⟩
  have htab' : Tables k (k1.setQueue q fun c =>
      c.setCnt rw.other ((c.readWriteableCnt rw.other + 1) % 2 ^ 16)) := by
    refine { htab with queue := fun j => ?_ }
    rw [← htab.queue j]
    refine update_field (fun c : LosQueueCB => c.used) ?_ j
    cases rw <;> rfl
  exact ⟨v, hA.counts htab' hs htodo _⟩

/-- `OsQueueOperate` up to its wait. -/
theorem At.queueOperate (hA : At k v) (q : Nat) (rw : ReadWrite) (size timeout : Nat)
    (hw : k.waits (.queueOperate q rw size timeout) → k.taskScheduled = true) :
    ∃ v', Effect (· = k.runTask) k v (k.queueOperate q rw size timeout) v' := by
  rcases k.queueOperate_cases q rw size timeout with ⟨e, -, h⟩ | ⟨-, -, h⟩ | ⟨hwait, h⟩ <;> rw [h]
  · exact hA.fails e
  · obtain ⟨v', h⟩ := hA.queueFinish (hA.tables_setQueue q (f := fun c =>
      c.setCnt rw (c.readWriteableCnt rw - 1)) (by intro; cases rw <;> rfl)) rfl rfl q rw
    exact ⟨v', h.mono fun _ h => h.elim⟩
  have huse : k.inUse (.readWriteList q rw) = some true :=
    congrArg some (k.queueParamCheck_used hwait.1)
  refine Exists.imp (fun _ h => Effect.mono (m := fun u => nobody u ∨ u = k.runTask) h
    fun _ h => h.resolve_left id) ?_
  exact hA.waitsFor (hw hwait) hwait.2.2.2 (Calms.refl v) id (hA.ipc.opened _ huse) rfl
    (fun _ => Node.noConfusion) (by rw [huse]; decide) (by rw [hA.eq]; rfl) rfl
    (c := .queuePended q rw) ⟨trivial, rfl⟩ rfl

theorem At.queuePended (hA : At k v) (q : Nat) (rw : ReadWrite) :
    ∃ v', Effect nobody k v (k.queuePended q rw) v' := by
  unfold State.queuePended
  split_ifs
  · exact hA.timedOut _
  · exact hA.queueFinish (hA.tables rfl) rfl rfl q rw

/-! ## Events -/

/-- The loop of `LOS_EventWrite` from a node of the list on, or from its head. -/
theorem wakeReaders_calms (hn : n.isWait = true) (events event : BitVec 32) (fuel : Nat) :
    ∀ (v : View) (x : Node), RunOk v.s → (x = n ∨ ∃ t, x = .pendList t ∧ v.pl t = some n) →
      ∃ v', v'.s = (v.s.wakeReaders n events event fuel (some x)).1 ∧ Calms nobody noList v v' := by
  induction fuel with
  | zero =>
    intro v x _ _
    exact ⟨v, rfl, Calms.refl v⟩
  | succ fuel ih =>
    rintro v x hR (rfl | ⟨t, rfl, hpl⟩)
    · refine ⟨v, ?_, Calms.refl v⟩
      cases x with
      | semList | muxList | readWriteList | stEventList | joinList => simp [wakeReaders]
      | _ => cases hn
    have ht := v.placed.shape.lt_of_pl hpl
    obtain ⟨y, hnext, hy⟩ := v.placed.shape.rings.next_mem ((v.placed.shape.pend t n).mpr hpl)
    -- the node read before the task is woken is still in the list afterwards
    have hy' : y = n ∨ ∃ u, y = .pendList u ∧ v.pl u = some n ∧ u ≠ t := by
      refine hy.imp_right fun ⟨hmem, hne⟩ => ?_
      obtain ⟨u, -, rfl | rfl⟩ := v.placed.shape.kind n y hmem
      · exact ⟨u, rfl, (v.placed.shape.pend u n).mp hmem, fun hc => hne (hc ▸ rfl)⟩
      · rw [((v.placed.shape.sort u n).mp hmem).1] at hn
        cases hn
    unfold wakeReaders
    rw [hnext]
    split_ifs with hears
    · obtain ⟨v1, hs1, hcalm⟩ := v.taskWake hR ht ((v.placed.task t ht).pend.mpr ⟨n, hpl, hn⟩)
      obtain ⟨v2, hs2, hcalms⟩ := ih v1 y (hcalm.runOk hR) (hy'.imp_right fun ⟨u, hu, hplu, hne⟩ =>
        ⟨u, hu, (hcalm.pl u hne).trans hplu⟩)
      refine ⟨v2, ?_, (Calms.one hcalm).trans hcalms⟩
      rw [hs2, hs1]
      rfl
    · exact ih v y hR (hy'.imp_right fun ⟨u, hu, hplu, _⟩ => ⟨u, hu, hplu⟩)

section
variable (hA : At k v)
include hA

section
variable (e : Nat) (mask mode : BitVec 32)
include e mask mode

/-- `LOS_EventRead` up to its critical section. -/
theorem At.eventRead (timeout : Nat) : Effect nobody k v (k.eventRead e mask mode timeout) v := by
  unfold State.eventRead
  split
  · split_ifs
    · exact hA.done _
    · refine hA.idle (hA.tables rfl) rfl (fun c hc => ?_) rfl
      rw [mem_singleton.mp hc]
      exact ⟨trivial, rfl⟩
  · exact hA.done _

theorem At.eventPoll : Effect nobody k v (k.eventPoll e mask mode) v := by
  unfold State.eventPoll
  dsimp only
  split_ifs
  · exact hA.idle (hA.tables rfl) rfl plain_nil (todo_same _ _)
  · exact hA.idle (hA.tables rfl) rfl plain_nil (todo_same _ _)

/-- The critical section of `LOS_EventRead` up to its wait, the event block not being destroyed. -/
theorem At.eventReadLocked (timeout : Nat) (hw : k.waits (.eventReadLocked e mask mode timeout) →
      k.taskScheduled = true ∧ k.heap.next (.stEventList e) ≠ none) :
    ∃ v', Effect (· = k.runTask) k v (k.eventReadLocked e mask mode timeout) v' := by
  rcases k.eventReadLocked_cases e mask mode timeout with ⟨-, h⟩ | h | ⟨hwait, h⟩ <;> rw [h]
  · exact ⟨v, (hA.eventPoll e mask mode).mono fun _ h => h.elim⟩
  · exact hA.fails _
  obtain ⟨hstart, hinit⟩ := hw hwait
  have hL : v.L (.stEventList e) ≠ none := by
    intro hc
    have := (v.placed.shape.null rfl hc).1
    rw [hA.eq] at this
    exact hinit this
  exact hA.waitsAlone hstart hwait.2.2 (f := fun c => { c with eventMask := mask, eventMode := mode })
    ⟨fun _ => rfl, fun _ => rfl, fun _ => rfl, fun _ => rfl, fun _ => rfl⟩ hL rfl
    (fun _ => Node.noConfusion) nofun rfl rfl (c := .eventPended e mask mode) ⟨trivial, rfl⟩ rfl

theorem At.eventPended : ∃ v', Effect nobody k v (k.eventPended e mask mode) v' := by
  unfold State.eventPended
  split_ifs
  · exact hA.timedOut _
  · exact ⟨v, hA.eventPoll e mask mode⟩

end

/-- `LOS_EventWrite` up to its critical section. -/
theorem At.eventWrite (e : Nat) (events : BitVec 32) :
    Effect nobody k v (k.eventWrite e events) v := by
  unfold State.eventWrite
  split_ifs
  · exact hA.done _
  · exact hA.done _
  · refine hA.idle (hA.tables rfl) rfl (fun c hc => ?_) rfl
    rw [mem_singleton.mp hc]
    exact ⟨trivial, rfl⟩

/-- The critical section of `LOS_EventWrite`. -/
theorem At.eventWriteLocked (e : Nat) (events : BitVec 32) :
    ∃ v', Effect nobody k v (k.eventWriteLocked e events) v' := by
  unfold State.eventWriteLocked
  by_cases hempty : (!k.heap.isEmpty (.stEventList e)) = true
  · rw [if_pos hempty]
    obtain ⟨v', hs', hcalms⟩ : ∃ v' : View, v'.s = (k.toSched.wakeReaders (.stEventList e) events
        (update k.event e (k.event e ||| events) e) taskMaxNum
        (k.heap.next (.stEventList e))).1 ∧ Calms nobody noList v v' := by
      rw [← hA.eq] at hempty ⊢
      cases hL : v.L (.stEventList e) with
      | none =>
        rw [(v.placed.shape.null rfl hL).1]
        obtain ⟨v', hs', hcalm⟩ := v.raise hA.good.run (f := .badPointer) (by decide)
        exact ⟨v', hs', Calms.one hcalm⟩
      | some l =>
        cases l with
        | nil => simp [(v.placed.shape.rings.isEmpty_iff hL).mpr rfl] at hempty
        | cons x l =>
          have hx : x ∈ v.L.at (.stEventList e) := by
            rw [NodeLists.at_of_some hL]
            exact mem_cons_self
          rw [v.placed.shape.rings.next_head hL]
          refine wakeReaders_calms rfl _ _ _ v x hA.good.run (.inr ?_)
          obtain ⟨t, -, rfl | rfl⟩ := v.placed.shape.kind _ x hx
          · exact ⟨t, rfl, (v.placed.shape.pend t _).mp hx⟩
          · cases ((v.placed.shape.sort t _).mp hx).1
    exact ⟨v', hA.effect (hA.tables rfl) hcalms hs'
      (fun _ hn => hn.elim) plain_ite rfl fun hm => hm.elim⟩
  · rw [if_neg hempty]
    exact ⟨v, hA.idle (hA.tables rfl) rfl plain_nil (todo_same _ _)⟩

/-- `LOS_EventClear`. -/
theorem At.eventClear (e : Nat) (mask : BitVec 32) : Effect nobody k v (k.eventClear e mask) v :=
  hA.idle (hA.tables rfl) rfl plain_nil (todo_same _ _)

end

end

end LiteosM.Kernel
