import LiteosM.Kernel.Invariant

/-!
# The critical sections that only move tasks

Most calls do nothing but move tasks between the lists: they wake, suspend, resume or delay a task, set its
priority, or let the running task wait. `Effect m k v k' v'` says that the code that takes `k` to `k'` is of
this kind and keeps the invariant. `m` are the tasks it may take out of the ready queues or stop.

* `Tables`: the tables that such code leaves alone;
* `At.moved`, `At.run`: a move of one task, and a whole section, as an `Effect`;
* `Effect.tame`: what the other modules use of it (`Tame`);
* `At.taskSuspend`, `At.taskResume`, `At.taskDelay`, `At.taskPriSet`, `At.taskJoin` and the like: the task
  calls.

Pieces that create or end a task are in `Kernel.Lifetime` and `Kernel.Deletion`, those of the IPC calls in
`Kernel.IpcSections`.
-/

namespace LiteosM.Kernel

open LiteosM.Lib Function

/-- Pieces of code that have no control block and no stack in hand. -/
def Sec.plain : Sec → Bool
  | .memFree _ | .newTaskInit _ _ _ | .insertTCBToFreeList _ | .createEnQueue _ => false
  | _ => true

theorem Sec.holds_of_plain {c : Sec} (h : c.plain = true) : c.holds = none := by
  cases c with
  | newTaskInit => cases h
  | _ => rfl

/-- What is neither the scheduler's nor what the tasks are doing. -/
def State.beside (k : State) :=
  (k.sem, k.mux, k.queue, k.unusedSem, k.unusedMux, k.freeQueue, k.allocated, k.freed)

/-- What `k` and `k'` keep besides the scheduler and what the tasks are doing. -/
structure Tables (k k' : State) : Prop where
  sem : ∀ i, (k'.sem i).used = (k.sem i).used
  mux : ∀ i, (k'.mux i).used = (k.mux i).used
  queue : ∀ q, (k'.queue q).used = (k.queue q).used
  unusedSem : k'.unusedSem = k.unusedSem
  unusedMux : k'.unusedMux = k.unusedMux
  freeQueue : k'.freeQueue = k.freeQueue
  owner : ∀ i o, (k'.mux i).owner = some o →
    o ≤ taskMaxNum ∧ (o < taskMaxNum → (k'.mux i).priority < priorityQueueNum)
  allocated : k'.allocated = k.allocated
  freed : k'.freed = k.freed

variable {k k' : State}

theorem Tables.inUse (h : Tables k k') (n : Node) : k'.inUse n = k.inUse n := by
  cases n with
  | semList i => exact congrArg some (h.sem i)
  | muxList i => exact congrArg some (h.mux i)
  | readWriteList q rw => exact congrArg some (h.queue q)
  | _ => rfl

namespace Tables

variable {k k1 : State}

theorem sched (h : Tables k k1) (s' : Sched) : Tables k { k1 with toSched := s' } :=
  { h with }

theorem done (h : Tables k k1) (e : ErrNo) : Tables k (k1.done e) :=
  { h with }

theorem push (h : Tables k k1) (l : List Sec) : Tables k (k1.push l) :=
  { h with }

end Tables

/-- The code makes calm moves, pushes plain pieces, and keeps the tables and the invariant. -/
structure Effect (m : Nat → Prop) (k : State) (v : View) (k' : State) (v' : View) : Prop where
  inv : Inv k' v'
  calms : ∃ w, Calms m w v v'
  todo : ∃ l, (∀ c ∈ l, c.plain = true) ∧
    k'.todo = update k.todo k.runTask (l ++ k.todo k.runTask)
  tables : Tables k k'

theorem Effect.mono {m m' : Nat → Prop} {v v' : View} (h : Effect m k v k' v')
    (hm : ∀ t, m t → m' t) : Effect m' k v k' v' := by
  obtain ⟨w, hw⟩ := h.calms
  exact ⟨h.inv, ⟨w, hw.mono hm fun _ => id⟩, h.todo, h.tables⟩

/-- What the code keeps that leaves alone what each task is, which control blocks and stacks are
free, and the order of the tasks in the ready queues, those in `m` aside. -/
structure Tame (m : Nat → Prop) (k : State) (v : View) (k' : State) (v' : View) : Prop where
  inv : Inv k' v'
  runTask : k'.runTask = k.runTask
  life : ∀ u, (v'.s.tcb u).life = (v.s.tcb u).life
  unused : ∀ u, (v.s.st u).unused = true → v'.pl u = v.pl u
  queued : ∀ u p, ¬m u → v.pl u = some (.priQueue p) → v'.pl u = some (.priQueue p)
  ahead : ∀ p a r, ¬m a → ¬m r → Ahead v.L p a r → Ahead v'.L p a r
  todo : ∃ l, (∀ c ∈ l, c.plain = true) ∧
    k'.todo = update k.todo k.runTask (l ++ k.todo k.runTask)
  allocated : k'.allocated = k.allocated
  freed : k'.freed = k.freed
  fixed : v'.s.idleTaskID = v.s.idleTaskID ∧ v'.s.taskScheduled = v.s.taskScheduled
  there : ∀ u n, v'.pl u = some n → v.L n ≠ none

theorem Effect.tame {m : Nat → Prop} {v v' : View} (h : Effect m k v k' v')
    (heq : v.s = k.toSched) : Tame m k v k' v' := by
  obtain ⟨w, hw⟩ := h.calms
  have hctl : k'.toSched.ctl = k.toSched.ctl := by rw [← h.inv.1.eq, ← heq, hw.ctl]
  exact { h with
      runTask := congrArg Ctl.runTask hctl
      life := hw.life
      unused := fun _ => hw.pl_unused
      queued := fun _ _ hm hu => hw.untouched hu hm
      ahead := fun _ _ _ => hw.ahead
      allocated := h.tables.allocated
      freed := h.tables.freed
      fixed := ⟨congrArg Ctl.idleTaskID hw.ctl, congrArg Ctl.taskScheduled hw.ctl⟩
      there := fun u n hu hL => by
        have hsome := v'.placed.shape.some_of_pl hu
        rw [(hw.heads n).mpr hL] at hsome
        cases hsome }

/-- The piece of code lets the running task wait. -/
def State.waits (k : State) : Sec → Prop
  | .taskDelay tick => k.losTaskLock = 0 ∧ (k.st k.runTask).systemTask = false ∧ tick ≠ 0
  | .taskJoin t => k.checkTaskIDValid t = .ok ∧ k.losTaskLock = 0 ∧ t ≠ (k.tcb k.runTask).taskID ∧
    (k.st t).unused = false ∧ (k.st t).exit = false ∧ (k.st t).joinable = true ∧
    k.heap.isEmpty (.joinList t) = true
  | .semPend i timeout => i < semLimit ∧ k.semValidCheck i = .ok ∧ (k.sem i).semCount = 0 ∧ timeout ≠ 0
  | .muxPend i timeout => i < muxLimit ∧ k.muxValidCheck i = .ok ∧ (k.mux i).muxCount ≠ 0 ∧
    (k.mux i).owner ≠ some k.runTask ∧ timeout ≠ 0
  | .queueOperate q rw size timeout => k.queueParamCheck q rw size = .ok ∧
    (k.queue q).readWriteableCnt rw = 0 ∧ timeout ≠ 0 ∧ k.losTaskLock = 0
  | .eventReadLocked e mask mode timeout => pollEvent (k.event e) mask mode = 0 ∧ timeout ≠ 0 ∧
    k.losTaskLock = 0
  | _ => False

instance (k : State) (c : Sec) : Decidable (k.waits c) := by
  unfold State.waits
  split <;> infer_instance

/-- No task is taken out of a ready queue or stopped. -/
def nobody (_ : Nat) : Prop := False

/-- No wait list is entered. -/
def noList (_ : Node) : Prop := False

section
variable {k k' : State} {v v' : View} {m : Nat → Prop} {w : Node → Prop}

theorem At.tables (hA : At k v) (h : k'.beside = k.beside) : Tables k k' := by
  simp only [State.beside, Prod.mk.injEq] at h
  obtain ⟨hsem, hmux, hqueue, h1, h2, h3, h4, h5⟩ := h
  refine ⟨fun i => by rw [hsem], fun i => by rw [hmux], fun q => by rw [hqueue], h1, h2, h3, ?_,
    h4, h5⟩
  rw [hmux]
  exact hA.ipc.owner

variable {l : List Sec}

/-- The parts of an effect. -/
theorem At.effect (hA : At k v) (htab : Tables k k') (h : Calms m w v v') (hs : v'.s = k'.toSched)
    (hw : ∀ n, w n → k.inUse n ≠ some false)
    (hl : ∀ c ∈ l, c.WellFormed ∧ c.plain = true)
    (htodo : k'.todo = update k.todo k'.runTask (l ++ k.todo k'.runTask))
    (hgo : m k.runTask → k.losTaskLock = 0 ∧ l.head? = some .schedule) : Effect m k v k' v' := by
  have hctl : k'.toSched.ctl = k.toSched.ctl := by rw [← hs, ← hA.eq, h.ctl]
  have hlock : k'.losTaskLock = k.losTaskLock := congrArg Ctl.losTaskLock hctl
  rw [show k'.runTask = k.runTask from congrArg Ctl.runTask hctl] at htodo
  refine ⟨hA.calm h hs ?_ (fun c hc => ⟨(hl c hc).1, Sec.holds_of_plain (hl c hc).2⟩) htodo ?_,
    ⟨w, h⟩, ⟨l, fun c hc => (hl c hc).2, htodo⟩, htab⟩
  · exact hA.ipc.calms h htab.inUse htab.unusedSem htab.unusedMux htab.freeQueue hw htab.owner
  · rwa [hlock]

/-- Nothing happens to a task. -/
theorem At.idle (hA : At k v) (htab : Tables k k') (hs : k'.toSched = k.toSched)
    (hl : ∀ c ∈ l, c.WellFormed ∧ c.plain = true)
    (htodo : k'.todo = update k.todo k'.runTask (l ++ k.todo k'.runTask)) :
    Effect nobody k v k' v :=
  hA.effect htab (Calms.refl (w := noList) v) (hA.eq.trans hs.symm) (fun _ hn => hn.elim) hl htodo
    fun hm => hm.elim

theorem todo_same (f : Nat → List Sec) (t : Nat) : f = update f t ([] ++ f t) := by
  rw [List.nil_append, update_eq_self]

/-- The call returns an error code. -/
theorem At.done (hA : At k v) (e : ErrNo) : Effect nobody k v (k.done e) v :=
  hA.idle (hA.tables rfl) rfl (l := []) (fun _ hc => by cases hc) (todo_same _ _)

/-- The same, whatever else the call may do. -/
theorem At.fails (hA : At k v) (e : ErrNo) : ∃ v', Effect m k v (k.done e) v' :=
  ⟨v, (hA.done e).mono fun _ h => h.elim⟩

/-- A check. -/
theorem effect_ite {p : Prop} [Decidable p] {k1 k2 : State} (h1 : p → ∃ v', Effect m k v k1 v')
    (h2 : ¬p → ∃ v', Effect m k v k2 v') : ∃ v', Effect m k v (if p then k1 else k2) v' := by
  split_ifs with hp
  · exact h1 hp
  · exact h2 hp

/-- One task is moved. -/
theorem At.moved (hA : At k v) {s' : Sched} {t : Nat} (h : ∃ v', v'.s = s' ∧ Calm m noList t v v')
    (hs : s' = k'.toSched) (htab : k'.beside = k.beside)
    (hl : ∀ c ∈ l, c.WellFormed ∧ c.plain = true)
    (htodo : k'.todo = update k.todo k'.runTask (l ++ k.todo k'.runTask))
    (hgo : m k.runTask → k.losTaskLock = 0 ∧ l.head? = some .schedule) : ∃ v', Effect m k v k' v' := by
  obtain ⟨v', hs', hcalm⟩ := h
  exact ⟨v', hA.effect (hA.tables htab) (Calms.one hcalm) (hs'.trans hs) (fun _ hn => hn.elim) hl htodo hgo⟩

theorem At.run (hA : At k v) (hstart : k.taskScheduled = true) :
    k.runTask < taskMaxNum ∧ (k.st k.runTask).running = true := by
  have hstop := (TaskStatus.stops_eq_false (hA.goes hstart)).2.2.2.2.2
  have hR := hA.good.run
  rw [hA.eq] at hR
  have hlt : k.runTask < taskMaxNum := by
    refine Nat.lt_of_le_of_ne hR.le fun heq => ?_
    simp [heq, hR.ghost.1] at hstop
  exact ⟨hlt, (hR.onCpu hstart hlt).1⟩

end

/-! ## Tasks -/

section
variable {k : State} {v : View}

theorem plain_schedule : ∀ c ∈ [Sec.schedule], c.WellFormed ∧ c.plain = true := by
  intro c hc
  rw [List.mem_singleton.mp hc]
  exact ⟨trivial, rfl⟩

theorem plain_nil : ∀ c ∈ ([] : List Sec), c.WellFormed ∧ c.plain = true := fun _ hc => by cases hc

theorem plain_ite {b : Prop} [Decidable b] :
    ∀ c ∈ (if b then [Sec.schedule] else []), c.WellFormed ∧ c.plain = true := by
  split_ifs
  · exact plain_schedule
  · exact plain_nil

/-- After the start the running task is a task; before it, `main` is none. -/
theorem Core.started (hA : Core k v) (ht : k.runTask < taskMaxNum) : k.taskScheduled = true := by
  by_contra hc
  have hR := hA.good.run
  rw [hA.eq] at hR
  rw [(hR.before (by simpa using hc)).1] at ht
  exact absurd ht (Nat.lt_irrefl _)

/-- `LOS_TaskResume` of a task that has not ended. -/
theorem At.taskResume (hA : At k v) (t : Nat)
    (he : t < taskMaxNum → (k.st t).unused = false → (k.st t).suspend = true →
      (k.st t).exit = false) : ∃ v', Effect nobody k v (k.taskResume t) v' := by
  unfold State.taskResume
  split_ifs with hlt hu hs
  · exact ⟨v, hA.done _⟩
  · exact ⟨v, hA.done _⟩
  · exact ⟨v, hA.done _⟩
  have ht : t < taskMaxNum := Nat.lt_of_not_le hlt
  have hu' : (v.s.st t).unused = false := by rw [hA.eq]; simpa using hu
  have hs' : (v.s.st t).suspend = true := by rw [hA.eq]; simpa using hs
  have he' : (v.s.st t).exit = false := by
    have := he ht (by simpa using hu) (by simpa using hs)
    rw [hA.eq]
    exact this
  have hcpu : v.s.runTask ≠ t := by
    rintro rfl
    rw [hA.eq] at ht hs'
    simp [(TaskStatus.stops_eq_false (hA.goes (hA.started ht))).2.2.2.1] at hs'
  exact hA.moved (v.resume ht hs' hu' he' hcpu) (by rw [hA.eq]; rfl) rfl plain_ite rfl fun hm => hm.elim

/-- The running task, having moved other tasks, waits in the list of an object. -/
theorem At.waits (hA : At k v) (hstart : k.taskScheduled = true) {v1 : View} {m : Nat → Prop}
    (hc : Calms m noList v v1) (hm : ¬m k.runTask) {n : Node} (hL : v.L n ≠ none)
    (hn : n.isWait = true) (hjoin : ∀ t, n ≠ .joinList t) (ticks : Nat) :
    ∃ v', v'.s = v1.s.taskWait n ticks ∧ Calms (fun u => m u ∨ u = k.runTask) (· = n) v v' := by
  have hrun : v1.s.runTask = k.runTask := by
    rw [show v1.s.runTask = v.s.runTask from congrArg Ctl.runTask hc.ctl, hA.eq]
  have hgo : (v1.s.st v1.s.runTask).stops = false := by
    rw [hrun]
    exact hc.stop (hA.eq ▸ hA.goes hstart) hm
  have hmay : MayWait v1 n := by
    refine ⟨hn, ?_, fun t ht => absurd ht (hjoin t)⟩
    rwa [show v1.s.taskScheduled = v.s.taskScheduled from congrArg Ctl.taskScheduled hc.ctl, hA.eq]
  have hidle : v1.s.runTask ≠ v1.s.idleTaskID := by
    rw [hrun, show v1.s.idleTaskID = v.s.idleTaskID from congrArg Ctl.idleTaskID hc.ctl, hA.eq]
    exact hA.busy
  obtain ⟨v', hs', hcalm⟩ := v1.taskWait (m := fun u => m u ∨ u = k.runTask) (w := (· = n))
    (hrun ▸ (hA.run hstart).1) (fun h => hL ((hc.heads n).mp h)) hmay rfl hgo hidle
    (.inr hrun) ticks
  exact ⟨v', hs', (hc.mono (fun _ => .inl) fun _ h => h.elim).trans (Calms.one hcalm)⟩

theorem checkTaskIDValid_cases (k : State) (t : Nat) :
    (k.checkTaskIDValid t = .ok ∧ t ≠ k.idleTaskID ∧ t < taskMaxNum) ∨
      k.checkTaskIDValid t = .tskOperateSystemTask ∨ k.checkTaskIDValid t = .tskIdInvalid := by
  unfold State.checkTaskIDValid
  split_ifs with hidle hlt
  · exact .inr (.inl rfl)
  · exact .inr (.inr rfl)
  · exact .inl ⟨rfl, hidle, Nat.lt_of_not_le hlt⟩

section
variable (hA : At k v)
include hA

/-- `LOS_TaskSuspend`. -/
theorem At.taskSuspend (t : Nat) : ∃ v', Effect (· = t) k v (k.taskSuspend t) v' := by
  unfold State.taskSuspend
  rcases checkTaskIDValid_cases k t with ⟨h, hidle, ht⟩ | h | h <;> rw [h]
  · refine effect_ite (fun _ => hA.fails _) fun hu => effect_ite (fun _ => hA.fails _) fun _ => ?_
    refine effect_ite (fun _ => hA.fails _) fun _ => effect_ite (fun _ => hA.fails _) fun hlock => ?_
    refine hA.moved (v.suspend ht (by rw [hA.eq]; simpa using hu) (by rwa [hA.eq]) rfl)
      (by rw [hA.eq]; rfl) rfl plain_ite rfl fun hm => ?_
    -- a task that suspends itself
    subst hm
    have hT := (v.placed.task _ ht).taskID
    rw [hA.eq] at hT
    rw [(hA.run (hA.started ht)).2] at hlock
    refine ⟨by simpa using hlock, ?_⟩
    rw [hT, if_pos rfl]
    rfl
  · exact hA.fails _
  · exact hA.fails _

/-- `LOS_TaskJoin` up to its wait. -/
theorem At.taskJoin (t : Nat) (hw : k.waits (.taskJoin t) → k.taskScheduled = true) :
    ∃ v', Effect (· = k.runTask) k v (k.taskJoin t) v' := by
  unfold State.taskJoin
  rcases checkTaskIDValid_cases k t with ⟨h, hidle, ht⟩ | h | h <;> rw [h]
  · have hl : ∀ c ∈ [Sec.schedule, .joinFree t], c.WellFormed ∧ c.plain = true := by
      intro c hc
      rcases List.mem_pair.mp hc with rfl | rfl
      · exact ⟨trivial, rfl⟩
      · exact ⟨ht, rfl⟩
    split_ifs with hlock hself hu he hj
    · exact hA.fails _
    · exact hA.fails _
    · exact hA.fails _
    · refine ⟨v, Effect.mono (m := nobody) ?_ fun _ h => h.elim⟩
      exact hA.idle (hA.tables rfl) rfl hl rfl
    · simp only [bne_iff_ne, not_not] at hlock
      simp only [Bool.and_eq_true] at hj
      have hu' : (k.st t).unused = false := by simpa using hu
      have he' : (k.st t).exit = false := by simpa using he
      have hstart := hw ⟨h, hlock, hself, hu', he', hj.1, hj.2⟩
      have hinit := hA.good.join.init t ht (hA.eq ▸ hj.1)
      have hempty := (v.placed.shape.rings.isEmpty_iff (NodeLists.some_of_ne_none hinit)).mp
        (hA.eq ▸ hj.2)
      have hmay : MayWait v (.joinList t) := by
        refine ⟨rfl, by rwa [hA.eq], fun u hu => ?_⟩
        obtain rfl : t = u := by simpa using hu
        rw [hA.eq]
        refine ⟨ht, hj.1, he', hu', fun u hpl => ?_⟩
        have := (v.placed.shape.pend u _).mpr hpl
        simp [hempty] at this
      obtain ⟨hlt, -⟩ := hA.run hstart
      have heq := hA.eq
      obtain ⟨v', hs', hcalm⟩ := v.taskWait (m := (· = k.runTask)) (w := (· = .joinList t))
        (by rwa [heq]) hinit hmay rfl (heq ▸ hA.goes hstart)
        (heq ▸ hA.busy) (by rw [heq]) waitForever
      refine ⟨v', hA.effect (hA.tables rfl) (Calms.one hcalm) ?_ ?_ hl rfl
        fun _ => ⟨hlock, rfl⟩⟩
      · rw [hs', heq]
        rfl
      · rintro n rfl hc
        cases hc
    · exact hA.fails _
  · exact hA.fails _
  · exact hA.fails _

/-- The running task is not ready. -/
theorem At.not_ready : (v.s.st v.s.runTask).ready ≠ true := v.not_ready_runTask hA.good.run

/-- `LOS_TaskYield`. -/
theorem At.taskYield : ∃ v', Effect nobody k v k.taskYield v' := by
  refine hA.moved (v.setTCB (fun c => { c with timeSlice := 0 })
    ⟨fun _ => rfl, fun _ => rfl, fun _ => rfl, fun _ => rfl, fun _ => rfl⟩ fun hr => absurd hr hA.not_ready)
    (hA.eq ▸ rfl) rfl plain_schedule rfl fun hm => hm.elim

/-- `LOS_TaskDelay`. -/
theorem At.taskDelay (tick : Nat) (hw : k.waits (.taskDelay tick) → k.taskScheduled = true) :
    ∃ v', Effect (· = k.runTask) k v (k.taskDelay tick) v' := by
  unfold State.taskDelay
  split_ifs with hlock hsys htick
  · exact hA.fails _
  · exact hA.fails _
  · obtain ⟨v', h⟩ := hA.taskYield
    exact ⟨v', h.mono fun _ h => h.elim⟩
  simp only [bne_iff_ne, not_not] at hlock
  have hstart := hw ⟨hlock, by simpa using hsys, htick⟩
  have heq := hA.eq
  exact hA.moved (v.delay (heq ▸ (hA.run hstart).1) (heq ▸ hA.goes hstart)
    (heq ▸ hA.busy) (by rw [heq]) tick) (heq ▸ rfl) rfl plain_schedule rfl
    fun _ => ⟨hlock, rfl⟩

/-- `LOS_TaskPriSet`. -/
theorem At.taskPriSet (t prio : Nat) : ∃ v', Effect (· = t) k v (k.taskPriSet t prio) v' := by
  refine effect_ite (fun _ => hA.fails _) fun hprio => effect_ite (fun _ => hA.fails _) fun _ => ?_
  refine effect_ite (fun _ => hA.fails _) fun hlt => effect_ite (fun _ => hA.fails _) fun _ => ?_
  refine effect_ite (fun _ => hA.fails _) fun _ => ?_
  have hp : prio < priorityQueueNum := Nat.lt_succ_of_le (Nat.not_lt.mp hprio)
  refine Exists.imp (fun _ h => Effect.mono (m := fun u => u = t ∧ u ≠ k.runTask) h fun _ h => h.1) ?_
  refine hA.moved (v.modifyTaskSchedParam hA.good.run (Nat.lt_of_not_le hlt).le (fun _ => hp)
    fun hr => ⟨rfl, fun hc => ?_⟩) (by rw [hA.eq]; rfl) rfl plain_ite rfl fun hm => absurd rfl hm.2
  rw [hc, ← show v.s.runTask = k.runTask from congrArg Sched.runTask hA.eq] at hr
  exact hA.not_ready hr

/-- `LOS_TaskCreate` up to its first critical section. -/
theorem At.taskCreate (p : TskInitParam) (enqueue : Bool) :
    Effect nobody k v (k.taskCreate p enqueue) v := by
  unfold State.taskCreate
  split
  · rename_i hok
    refine hA.idle (hA.tables rfl) rfl (fun c hc => ?_) rfl
    rcases List.mem_pair.mp hc with rfl | rfl
    · exact ⟨trivial, rfl⟩
    refine ⟨?_, rfl⟩
    unfold TskInitParam.check at hok
    dsimp only at hok
    split_ifs at hok with h1 h2 h3
    all_goals exact Nat.lt_succ_of_le (Nat.not_lt.mp h3)
  · exact hA.done _

end

end

end LiteosM.Kernel
