import LiteosM.Kernel.Placement
import Mathlib.Data.Bool.Basic

/-!
# What the scheduler leaves alone

The priority of a task, the bit that tells it that its wait timed out, and the events it waits for
(`LosTaskCB.held`) are written in a few places only: `State.run_held` and `State.run_told`.

A task waits with a timeout while `OS_TASK_STATUS_PEND_TIME` is set, and is told that the time was
up by `OS_TASK_STATUS_TIMEOUT`. The pair (`LosTaskCB.alarm`) is lowered in many places, but the
first is raised in four only, where a call begins to wait, and the second by the tick alone:
`State.run_alarm`.

The functions of the scheduler sink: they leave the first as it is and raise nothing of the second
(`Sched.Sinks`). What a section does besides is listed once, in `State.Spares`, and the three results
are read off `State.run_keeps`.
-/

namespace LiteosM.Kernel

open LiteosM.Lib Sched

/-- The priority of a task and its `OS_TASK_STATUS_TIMEOUT`. -/
def LosTaskCB.kept (c : LosTaskCB) : Nat × Bool := (c.priority, c.taskStatus.timeout)

/-- The same for task `u`. -/
def Sched.kept (s : Sched) (u : Nat) : Nat × Bool := (s.tcb u).kept

/-- The events a task waits for, and how. -/
def LosTaskCB.wish (c : LosTaskCB) : BitVec 32 × BitVec 32 := (c.eventMask, c.eventMode)

/-- The same for task `u`. -/
def Sched.wish (s : Sched) (u : Nat) : BitVec 32 × BitVec 32 := (s.tcb u).wish

/-- Both. -/
def LosTaskCB.held (c : LosTaskCB) : (Nat × Bool) × BitVec 32 × BitVec 32 := (c.kept, c.wish)

/-- The same for task `u`. -/
def Sched.held (s : Sched) (u : Nat) : (Nat × Bool) × BitVec 32 × BitVec 32 := (s.tcb u).held

variable {s s' : Sched}

theorem Sched.kept_of_held (h : s'.held = s.held) : s'.kept = s.kept :=
  funext fun u => congrArg Prod.fst (congrFun h u)

theorem Sched.wish_of_held (h : s'.held = s.held) : s'.wish = s.wish :=
  funext fun u => congrArg Prod.snd (congrFun h u)

/-- The timeout bit and the events waited for. -/
def LosTaskCB.told (c : LosTaskCB) : Bool × BitVec 32 × BitVec 32 := (c.taskStatus.timeout, c.wish)

/-- The same for task `u`. -/
def Sched.told (s : Sched) (u : Nat) : Bool × BitVec 32 × BitVec 32 := (s.tcb u).told

/-- `OS_TASK_STATUS_PEND_TIME` and `OS_TASK_STATUS_TIMEOUT` of a task. -/
def LosTaskCB.alarm (c : LosTaskCB) : Bool × Bool := (c.taskStatus.pendTime, c.taskStatus.timeout)

/-- The same for task `u`. -/
def Sched.alarm (s : Sched) (u : Nat) : Bool × Bool := (s.tcb u).alarm

/-- Every priority, timeout bit and wish is as before, and no bit of an alarm is raised. -/
structure Sched.Sinks (s' s : Sched) : Prop where
  held : s'.held = s.held
  alarm : s'.alarm ≤ s.alarm

namespace Sched

section
variable {s s' s'' : Sched} {t : Nat}

theorem Sinks.same (h : s'.tcb = s.tcb) : s'.Sinks s :=
  ⟨congrArg (fun tcb u => (tcb u).held) h, le_of_eq (congrArg (fun tcb u => (tcb u).alarm) h)⟩

theorem Sinks.trans (h : s''.Sinks s') (h' : s'.Sinks s) : s''.Sinks s :=
  ⟨h.held.trans h'.held, h.alarm.trans h'.alarm⟩

theorem Sinks.tcb (h : s'.Sinks s) (htcb : s''.tcb = s'.tcb) : s''.Sinks s := (Sinks.same htcb).trans h

theorem Sinks.ite {p : Prop} [Decidable p] (h : s'.Sinks s) (h' : s''.Sinks s) :
    (if p then s' else s'').Sinks s := by
  split_ifs
  · exact h
  · exact h'

theorem Sinks.setTCB {f : LosTaskCB → LosTaskCB} (h : s'.Sinks s)
    (hf : ∀ c, (f c).held = c.held ∧ (f c).alarm ≤ c.alarm) : (s'.setTCB t f).Sinks s := by
  refine Sinks.trans ⟨funext fun u => ?_, fun u => ?_⟩ h
  all_goals
    by_cases hu : u = t
    · subst hu
      simp only [Sched.held, Sched.alarm, setTCB_self, hf]
    · simp only [Sched.held, Sched.alarm, setTCB_of_ne hu, le_refl]

theorem Sinks.setSt {f : TaskStatus → TaskStatus} (h : s'.Sinks s)
    (hf : ∀ st, (f st).timeout = st.timeout ∧ (f st).pendTime ≤ st.pendTime) : (s'.setSt t f).Sinks s :=
  h.setTCB fun c => ⟨congrArg (fun b => ((c.priority, b), c.wish)) (hf c.taskStatus).1,
    (hf c.taskStatus).2, (hf c.taskStatus).1.le⟩

end

variable (s : Sched) (t : Nat)

theorem sinks_timeSliceUpdate (time : Nat) : (s.timeSliceUpdate t time).Sinks s :=
  .setTCB (.same rfl) fun _ => ⟨rfl, le_rfl⟩

theorem sinks_setNextExpireTime (responseID taskEndTime : Nat) :
    (s.setNextExpireTime responseID taskEndTime).Sinks s :=
  .ite (.same rfl) (.same rfl)

theorem sinks_updateExpireTime : s.updateExpireTime.Sinks s :=
  .ite (.same rfl) (sinks_setNextExpireTime s _ _)

theorem sinks_addNode2SortLink : (s.addNode2SortLink t).Sinks s := by
  unfold Sched.addNode2SortLink
  split <;> exact .same rfl

theorem sinks_add2SortLink (startTime waitTicks : Nat) : (s.add2SortLink t startTime waitTicks).Sinks s :=
  (sinks_addNode2SortLink _ t).trans (.setTCB (.same rfl) fun _ => ⟨rfl, le_rfl⟩)

theorem sinks_deleteNodeSortLink : (s.deleteNodeSortLink t).Sinks s :=
  .setTCB (.same rfl) fun _ => ⟨rfl, le_rfl⟩

theorem sinks_deleteSortLink : (s.deleteSortLink t).Sinks s :=
  .ite ((sinks_deleteNodeSortLink _ t).trans (.ite (.same rfl) (.same rfl))) (.same rfl)

theorem sinks_taskEnQueue : (s.taskEnQueue t).Sinks s := by
  refine .ite (.same rfl) (.setSt (.ite (.ite (.same rfl) ?_) (.same rfl)) fun _ => ⟨rfl, Bool.false_le _⟩)
  have hslice : (s.setTCB t fun c => { c with timeSlice := s.schedTimeSlice }).Sinks s :=
    .setTCB (.same rfl) fun _ => ⟨rfl, le_rfl⟩
  exact hslice.tcb rfl

theorem sinks_taskDeQueue : (s.taskDeQueue t).Sinks s :=
  .ite (.setSt (.ite (.same rfl) (.same rfl)) fun _ => ⟨rfl, le_rfl⟩) (.same rfl)

theorem sinks_endWait : (s.endWait t).Sinks s := by
  have hpend : ((s.setHeap (s.heap.delete (.pendList t))).setSt t fun st => { st with pend := false }).Sinks s :=
    .setSt (.same rfl) fun _ => ⟨rfl, le_rfl⟩
  exact .ite (.setSt ((sinks_deleteSortLink _ t).trans hpend) fun _ => ⟨rfl, Bool.false_le _⟩) hpend

theorem sinks_taskWake : (s.taskWake t).Sinks s :=
  .ite ((sinks_taskEnQueue _ t).trans (sinks_endWait s t)) (sinks_endWait s t)

theorem sinks_suspend : (s.suspend t).Sinks s :=
  .setSt (.ite (sinks_taskDeQueue s t) (.same rfl)) fun _ => ⟨rfl, le_rfl⟩

theorem sinks_resume : (s.resume t).Sinks s := by
  have hset : (s.setSt t fun st => { st with suspend := false }).Sinks s :=
    .setSt (.same rfl) fun _ => ⟨rfl, le_rfl⟩
  exact .ite ((sinks_taskEnQueue _ t).trans hset) hset

theorem sinks_yield : s.yield.Sinks s := .setTCB (.same rfl) fun _ => ⟨rfl, le_rfl⟩

theorem sinks_delay (tick : Nat) : (s.delay tick).Sinks s := .setTCB (.same rfl) fun _ => ⟨rfl, le_rfl⟩

theorem sinks_taskExit : (s.taskExit t).Sinks s := by
  have hqueue : (s.leaveQueue t).Sinks s :=
    .ite (sinks_taskDeQueue s t) (.ite (.setSt (.same rfl) fun _ => ⟨rfl, le_rfl⟩) (.same rfl))
  refine .setSt (.ite (.setSt ?_ fun _ => ⟨rfl, Bool.false_le _⟩) hqueue) fun _ => ⟨rfl, le_rfl⟩
  exact (sinks_deleteSortLink _ t).trans hqueue

theorem sinks_taskJoinPost : (s.taskJoinPost t).Sinks s := by
  refine .ite ?_ (.same rfl)
  split
  · exact sinks_taskWake s _
  · exact .same rfl

theorem sinks_wakeReaders (n : Node) (events event : BitVec 32) (fuel : Nat) :
    ∀ (s : Sched) (y : Option Node), (s.wakeReaders n events event fuel y).1.Sinks s := by
  induction fuel with
  | zero =>
    intro s y
    exact .same rfl
  | succ fuel ih =>
    intro s y
    cases y with
    | none => exact .same rfl
    | some x =>
      cases x with
      | pendList t =>
        unfold wakeReaders
        split_ifs
        · exact (ih _ _).trans (sinks_taskWake s t)
        · exact ih s _
      | _ =>
        unfold wakeReaders
        split_ifs <;> exact .same rfl

/-! ## The switch -/

theorem sinks_putRunTask : s.putRunTask.Sinks s := by
  have hslice := sinks_timeSliceUpdate s s.runTask s.currTime
  exact .ite ((sinks_add2SortLink _ _ _ _).trans hslice) (.ite ((sinks_taskEnQueue _ _).trans hslice) hslice)

theorem sinks_takeNewTask (new : Nat) : (s.takeNewTask new).1.Sinks s := by
  have hset : ({ s with newTask := new }.setSt s.runTask fun st => { st with running := false }).Sinks s :=
    .setSt (.same rfl) fun _ => ⟨rfl, le_rfl⟩
  have hnew : { s with newTask := new }.Sinks s := .same rfl
  have hdeq := (sinks_taskDeQueue _ new).trans
    (.ite (p := s.runTask ≠ new) (hset.setTCB (t := new) (f := fun c =>
      { c with taskStatus := { c.taskStatus with running := true }, startTime := (s.tcb s.runTask).startTime })
        fun _ => ⟨rfl, le_rfl⟩) hnew)
  exact (sinks_setNextExpireTime _ _ _).trans (.ite (hdeq.tcb rfl) hdeq)

theorem sinks_archTaskSchedule : s.archTaskSchedule.Sinks s := by
  have hswitch : s.taskSwitch.1.Sinks s := by
    unfold taskSwitch
    split_ifs
    · exact .same rfl
    dsimp only
    split
    · exact (sinks_takeNewTask _ _).trans (sinks_putRunTask s)
    · exact (sinks_putRunTask s).tcb rfl
  exact .ite (hswitch.tcb rfl) hswitch

theorem sinks_schedule : s.schedule.Sinks s := .ite (sinks_archTaskSchedule s) (.same rfl)

end Sched

/-! ## Every piece of code -/

/-- The tasks of which a piece of code writes the priority or the timeout bit. -/
def State.writes (k : State) : Sec → Nat → Prop
  | .semPended | .muxPended | .queuePended _ _ | .eventPended _ _ _ | .muxPost _ => (· = k.runTask)
  | .muxPend i _ => fun u => (k.mux i).owner = some u ∧ (k.tcb k.runTask).priority < (k.tcb u).priority
  | .taskPriSet t _ | .newTaskInit t _ _ | .insertTCBToFreeList t | .joinFree t => (· = t)
  | .taskDelete t => fun u => u = t ∨ u = taskMaxNum
  | .recycleFinishedTask => fun u => k.first .taskRecycleList = some u
  | _ => fun _ => False

/-- The code that notes in a control block which events its task waits for. -/
def Sec.reads : Sec → Bool
  | .eventReadLocked _ _ _ _ => true
  | _ => false

/-- The tasks of which a piece of code writes the timeout bit. -/
def State.clears (k : State) : Sec → Nat → Prop
  | .semPended | .muxPended | .queuePended _ _ | .eventPended _ _ _ => (· = k.runTask)
  | .newTaskInit t _ _ | .insertTCBToFreeList t | .joinFree t => (· = t)
  | .taskDelete t => fun u => u = t ∨ u = taskMaxNum
  | .recycleFinishedTask => fun u => k.first .taskRecycleList = some u
  | _ => fun _ => False

/-- The code with which a task may begin to wait with a timeout. -/
def Sec.times : Sec → Bool
  | .semPend _ _ | .muxPend _ _ | .queueOperate _ _ _ _ | .eventReadLocked _ _ _ _ => true
  | _ => false

/-- A relation of a control block to what it was before that allows whatever sinks. -/
structure Steady (R : LosTaskCB → LosTaskCB → Prop) : Prop where
  trans : ∀ {a b c}, R a b → R b c → R a c
  sinks : ∀ {c c' : LosTaskCB}, c'.held = c.held → c'.alarm ≤ c.alarm → R c' c

/-- The relation allows every priority. -/
def Ranks (R : LosTaskCB → LosTaskCB → Prop) : Prop := ∀ c p, R { c with priority := p } c

/-- The relation allows the begin of a wait with a timeout. -/
def Waits (R : LosTaskCB → LosTaskCB → Prop) : Prop :=
  ∀ (c : LosTaskCB) ticks, R { c with taskStatus := { c.taskStatus with pendTime := true }, waitTimes := ticks } c

/-- The relation allows whatever raises no bit of the alarm. -/
def Lowers (R : LosTaskCB → LosTaskCB → Prop) : Prop := ∀ c c' : LosTaskCB, c'.alarm ≤ c.alarm → R c' c

/-- The writes of a section that do not sink are those of another task or are allowed. -/
def State.Spares (k : State) (R : LosTaskCB → LosTaskCB → Prop) (u : Nat) : Sec → Prop
  | .semPended | .muxPended | .queuePended _ _ | .eventPended _ _ _ => u ≠ k.runTask ∨ Lowers R
  | .semPend _ _ | .queueOperate _ _ _ _ => u ≠ k.runTask ∨ Waits R
  | .muxPend i _ => (u ≠ k.runTask ∨ Waits R) ∧
      (¬((k.mux i).owner = some u ∧ (k.tcb k.runTask).priority < (k.tcb u).priority) ∨ Ranks R)
  | .eventReadLocked _ _ _ _ => u ≠ k.runTask
  | .muxPost _ => u ≠ k.runTask ∨ Ranks R
  | .taskPriSet t _ => u ≠ t ∨ Ranks R
  | .newTaskInit t _ _ | .insertTCBToFreeList t | .joinFree t => u ≠ t ∨ Lowers R
  | .taskDelete t => u ≠ taskMaxNum ∧ (u ≠ t ∨ Lowers R)
  | .recycleFinishedTask => k.first .taskRecycleList ≠ some u ∨ Lowers R
  | _ => True

/-- The control block of `u` in `s'` is related to that in `s`. -/
def Sched.Keeps (R : LosTaskCB → LosTaskCB → Prop) (u : Nat) (s s' : Sched) : Prop := R (s'.tcb u) (s.tcb u)

section
variable {R : LosTaskCB → LosTaskCB → Prop} {u : Nat}

theorem Steady.sunk (hR : Steady R) (h : s'.Sinks s) : s.Keeps R u s' :=
  hR.sinks (congrFun h.held u) (h.alarm u)

theorem Steady.same (hR : Steady R) (h : s'.tcb = s.tcb) : s.Keeps R u s' := hR.sunk (.same h)

theorem Sched.keeps_ite {s : Sched} {p : Prop} [Decidable p] {k k' : State} (h : s.Keeps R u k.toSched)
    (h' : s.Keeps R u k'.toSched) : s.Keeps R u (if p then k else k').toSched := by
  split_ifs
  · exact h
  · exact h'

namespace Sched

variable (hR : Steady R) {s s' s'' : Sched} {t : Nat}
include hR

theorem Keeps.sunk (h : s.Keeps R u s') (hs : s''.Sinks s') : s.Keeps R u s'' :=
  hR.trans (hR.sunk hs (u := u)) h

theorem Keeps.setTCB {f : LosTaskCB → LosTaskCB} (h : s.Keeps R u s') (hf : u ≠ t ∨ ∀ c, R (f c) c) :
    s.Keeps R u (s'.setTCB t f) := by
  by_cases hu : u = t
  · subst hu
    unfold Keeps
    rw [setTCB_self]
    exact hR.trans (hf.resolve_left (not_not.mpr rfl) _) h
  · unfold Keeps
    rwa [setTCB_of_ne hu]

theorem Keeps.taskWait (h : s.Keeps R u s') (n : Node) (ticks : Nat)
    (hw : (u ≠ s'.runTask ∨ Waits R) ∨ ticks = waitForever) : s.Keeps R u (s'.taskWait n ticks) := by
  have hset : (s'.setSt s'.runTask fun st => { st with pend := true }).Sinks s' :=
    .setSt (.same rfl) fun _ => ⟨rfl, le_rfl⟩
  have hpend : s.Keeps R u ((s'.setSt s'.runTask fun st => { st with pend := true }).setHeap
      (s'.heap.tailInsert n (.pendList s'.runTask))) := h.sunk hR (hset.tcb rfl)
  unfold Sched.taskWait
  split_ifs with hticks
  · exact hpend.setTCB hR ((hw.resolve_right hticks).imp_right fun hwaits c => hwaits c ticks)
  · exact hpend

theorem Keeps.modifyTaskSchedParam (h : s.Keeps R u s') (p : Nat) (hp : u ≠ t ∨ Ranks R) :
    s.Keeps R u (s'.modifyTaskSchedParam t p) := by
  have hp' : u ≠ t ∨ ∀ c : LosTaskCB, R { c with priority := p } c := hp.imp_right fun hranks c => hranks c p
  unfold Sched.modifyTaskSchedParam
  split_ifs
  · exact ((h.sunk hR (sinks_taskDeQueue s' t)).setTCB hR hp').sunk hR (sinks_taskEnQueue _ t)
  · exact h.setTCB hR hp'

theorem Keeps.insertTCBToFreeList (h : s.Keeps R u s') (ht : u ≠ t ∨ Lowers R) :
    s.Keeps R u (s'.insertTCBToFreeList t) := by
  unfold Sched.insertTCBToFreeList
  refine Keeps.setTCB hR (h.sunk hR (.same rfl)) (ht.imp_right fun hlowers c => hlowers c _ ?_)
  exact ⟨Bool.false_le _, Bool.false_le _⟩

theorem Keeps.runningTaskDelete (h : s.Keeps R u s') (hmax : u ≠ taskMaxNum) :
    s.Keeps R u (s'.runningTaskDelete t) := by
  unfold Sched.runningTaskDelete
  exact Keeps.setTCB hR (h.sunk hR (.same rfl)) (.inl hmax)

theorem Keeps.recycleTaskResources (h : s.Keeps R u s') (ht : u ≠ t ∨ Lowers R) :
    s.Keeps R u (s'.recycleTaskResources t) := by
  have hstack : s.Keeps R u (s'.setTCB t fun c =>
      { c with topOfStack := .null, taskStatus := { c.taskStatus with stackFree := false } }) :=
    h.sunk hR (.setTCB (.same rfl) fun _ => ⟨rfl, le_rfl⟩)
  unfold Sched.recycleTaskResources
  dsimp only
  split_ifs
  · exact hstack.insertTCBToFreeList hR ht
  · exact hstack
  · exact h.insertTCBToFreeList hR ht
  · exact h

end Sched

namespace State

variable (k : State)

theorem sinks_wakeFirst (n : Node) {f : LosTaskCB → LosTaskCB}
    (hf : ∀ c, (f c).held = c.held ∧ (f c).alarm ≤ c.alarm) : (k.wakeFirst n f).Sinks k.toSched := by
  unfold wakeFirst
  split
  · exact (sinks_taskWake _ _).trans (.setTCB (.same rfl) hf)
  · exact .same rfl

theorem sinks_queueFinish (q : Nat) (rw : ReadWrite) : (k.queueFinish q rw).Sinks k.toSched := by
  unfold queueFinish
  split_ifs
  · exact k.sinks_wakeFirst _ fun _ => ⟨rfl, le_rfl⟩
  · exact .same rfl

theorem sinks_eventPoll (e : Nat) (mask mode : BitVec 32) : (k.eventPoll e mask mode).Sinks k.toSched := by
  unfold eventPoll
  dsimp only
  split_ifs <;> exact .same rfl

variable (hR : Steady R)
include hR

/-- Behind its wait a call writes at most the timeout bit of its own task. -/
theorem keeps_pended (hu : u ≠ k.runTask ∨ Lowers R) {b : Bool} {e : ErrNo} {m : State}
    (hm : m.Sinks k.toSched) : k.Keeps R u (if b then k.timedOut e else m).toSched := by
  refine keeps_ite ?_ (hR.sunk hm)
  change k.Keeps R u (k.toSched.setSt k.runTask fun st => { st with timeout := false })
  refine Keeps.setTCB hR (hR.same rfl) (hu.imp_right fun hlowers c => hlowers c _ ?_)
  exact ⟨le_rfl, Bool.false_le _⟩

theorem keeps_lent (i owner : Nat)
    (hu : ¬(u = owner ∧ (k.tcb k.runTask).priority < (k.tcb u).priority) ∨ Ranks R) :
    k.Keeps R u (k.lent i owner).toSched := by
  have hset : (k.toSched.setTCB k.runTask fun c => { c with taskMux := some i }).Sinks k.toSched :=
    .setTCB (.same rfl) fun _ => ⟨rfl, le_rfl⟩
  unfold lent
  dsimp only
  split_ifs with hlow
  · refine Keeps.modifyTaskSchedParam hR (hR.sunk hset) _ (hu.imp_left fun hne hc => hne ⟨hc, ?_⟩)
    rw [hc, ← show ((k.toSched.setTCB k.runTask fun c => { c with taskMux := some i }).held owner).1.1 =
      (k.tcb owner).priority by rw [hset.held]; rfl]
    exact hlow
  · exact hR.sunk hset

theorem keeps_muxPend (i timeout : Nat) (hwait : u ≠ k.runTask ∨ Waits R)
    (hu : ¬((k.mux i).owner = some u ∧ (k.tcb k.runTask).priority < (k.tcb u).priority) ∨ Ranks R) :
    k.Keeps R u (k.muxPend i timeout).toSched := by
  rcases k.muxPend_cases i timeout with ⟨e, -, h⟩ | ⟨-, -, h⟩ | ⟨-, -, -, h⟩ | ⟨-, ⟨-, h⟩ | ⟨o, ho, h⟩⟩
  · exact h ▸ hR.same rfl
  · exact h ▸ hR.same rfl
  · exact h ▸ hR.same rfl
  · exact h ▸ hR.same rfl
  · rw [h]
    have hlent := k.keeps_lent hR i o (hu.imp_left fun hne hc => hne ⟨by rw [hc.1, ho], hc.2⟩)
    exact hlent.taskWait hR _ _ (.inl (by rwa [k.lent_runTask i o]))

theorem keeps_muxPost (i : Nat) (hu : u ≠ k.runTask ∨ Ranks R) : k.Keeps R u (k.muxPost i).toSched := by
  rcases k.muxPost_cases i with ⟨e, -, h⟩ | ⟨-, -, -, ⟨-, h⟩ | ⟨-, h⟩⟩
  · exact h ▸ hR.same rfl
  · exact h ▸ hR.same rfl
  have hreleased : k.Keeps R u (k.released i).toSched := hR.same rfl
  have hrestored : k.Keeps R u ((k.released i).restored i).toSched :=
    keeps_ite (hreleased.modifyTaskSchedParam hR _ hu) hreleased
  rw [h]
  unfold muxGiven
  dsimp only
  split_ifs
  · split
    · exact hrestored.sunk hR (sinks_wakeFirst _ _ fun _ => ⟨rfl, le_rfl⟩)
    · exact hrestored
  · exact hrestored

theorem keeps_taskDelete (t : Nat) (hmax : u ≠ taskMaxNum) (hu : u ≠ t ∨ Lowers R) :
    k.Keeps R u (k.taskDelete t).toSched := by
  have hexited : ∀ lock, k.Keeps R u (k.toSched.exited t lock) := by
    intro lock
    have hexit : k.Keeps R u (({ k.toSched with losTaskLock := lock }.taskJoinPost t).taskExit t) :=
      hR.sunk ((sinks_taskExit _ t).trans ((sinks_taskJoinPost _ t).trans (.same rfl)))
    exact hexit.setTCB hR (hu.imp_right fun hlowers c => hlowers c _ le_rfl)
  rcases k.taskDelete_eq t with ⟨-, heq⟩ | ⟨-, e, heq⟩
  · rw [heq]
    unfold buried
    split_ifs
    · -- the control block behind the last task stands for the task that is gone
      have hgone : ((k.toSched.exited t (k.lockFor t)).setSt t fun st => { st with unused := true }).Sinks
          (k.toSched.exited t (k.lockFor t)) := .setSt (.same rfl) fun _ => ⟨rfl, le_rfl⟩
      exact ((hexited (k.lockFor t)).sunk hR hgone).runningTaskDelete hR hmax
    · exact hexited _
    · exact (hexited _).recycleTaskResources hR hu
  · exact heq ▸ hR.same rfl

/-- **What a section does besides sinking is allowed for the tasks it spares.** -/
theorem run_keeps (c : Sec) (h : k.Spares R u c) : k.Keeps R u (k.run c).toSched := by
  have hrefl : k.Keeps R u k.toSched := hR.same rfl
  have hdone : ∀ e, k.Keeps R u (k.done e).toSched := fun e => hR.same rfl
  cases c with
  | taskLock | eventInit | eventClear => exact hR.same rfl
  | taskUnlock | eventDestroy | memFree => exact keeps_ite (hR.same rfl) (hR.same rfl)
  | semDelete | muxDelete | eventWrite =>
    exact keeps_ite (hR.same rfl) (keeps_ite (hR.same rfl) (hR.same rfl))
  | taskCreate | muxCreate =>
    dsimp only [run, taskCreate, muxCreate]
    split <;> exact hR.same rfl
  | semCreate | createTake =>
    refine keeps_ite (hR.same rfl) ?_
    split <;> exact hR.same rfl
  | queueCreate =>
    iterate 4 refine keeps_ite (hR.same rfl) ?_
    split <;> exact hR.same rfl
  | queueDelete =>
    dsimp only [run, queueDelete]
    split_ifs <;> exact hR.same rfl
  | eventRead =>
    dsimp only [run, eventRead]
    split
    · exact keeps_ite (hR.same rfl) (hR.same rfl)
    · exact hR.same rfl
  | recycleFinishedTask =>
    refine keeps_ite hrefl ?_
    split
    · rename_i t ht
      exact Keeps.recycleTaskResources hR (hR.same rfl) (h.imp_left fun hne hc => hne (hc ▸ ht))
    · exact hR.same rfl
  | taskResume t =>
    exact keeps_ite (hdone _) (keeps_ite (hdone _) (keeps_ite (hdone _)
      (hR.sunk (sinks_resume k.toSched t))))
  | taskSuspend t =>
    dsimp only [run, taskSuspend]
    split
    · iterate 4 refine keeps_ite (hdone _) ?_
      exact hR.sunk (sinks_suspend k.toSched t)
    · exact hdone _
  | taskJoin t =>
    dsimp only [run, taskJoin]
    split
    · iterate 3 refine keeps_ite (hdone _) ?_
      refine keeps_ite (hR.same rfl) (keeps_ite ?_ (hdone _))
      exact hrefl.taskWait hR _ _ (.inr rfl)
    · exact hdone _
  | taskDetach t =>
    dsimp only [run, taskDetach]
    split
    · refine keeps_ite (hdone _) (keeps_ite (hR.same rfl) (keeps_ite ?_ (hdone _)))
      have hset : ((k.toSched.setHeap (k.heap.delete (.joinList t))).setSt t
          fun st => { st with joinable := false }).Sinks k.toSched := .setSt (.same rfl) fun _ => ⟨rfl, le_rfl⟩
      exact keeps_ite (hR.sunk hset) (hdone _)
    · exact hdone _
  | taskDelete t => exact k.keeps_taskDelete hR t h.1 h.2
  | taskDelay tick =>
    exact keeps_ite (hdone _) (keeps_ite (hdone _) (keeps_ite
      (hR.sunk (sinks_yield k.toSched)) (hR.sunk (sinks_delay k.toSched tick))))
  | taskYield => exact hR.sunk (sinks_yield k.toSched)
  | taskPriSet t prio =>
    iterate 5 refine keeps_ite (hdone _) ?_
    exact hrefl.modifyTaskSchedParam hR prio h
  | semPend i timeout =>
    change k.Keeps R u (k.semPend i timeout).toSched
    rcases k.semPend_cases i timeout with ⟨e, -, heq⟩ | ⟨-, -, heq⟩ | ⟨-, heq⟩
    · exact heq ▸ hdone e
    · exact heq ▸ hR.same rfl
    rw [heq]
    have hset : (k.toSched.setTCB k.runTask fun c => { c with taskSem := some i }).Sinks k.toSched :=
      .setTCB (.same rfl) fun _ => ⟨rfl, le_rfl⟩
    exact Keeps.taskWait hR (hR.sunk hset) _ _ (.inl h)
  | semPost i =>
    change k.Keeps R u (k.semPost i).toSched
    rcases k.semPost_cases i with ⟨e, -, heq⟩ | ⟨-, -, ⟨-, heq⟩ | ⟨-, heq⟩⟩
    · exact heq ▸ hdone e
    · rw [heq]
      exact hR.sunk (k.sinks_wakeFirst _ fun _ => ⟨rfl, le_rfl⟩)
    · exact heq ▸ hR.same rfl
  | semPended | muxPended => exact k.keeps_pended hR h (.same rfl)
  | muxPend i timeout => exact k.keeps_muxPend hR i timeout h.1 h.2
  | muxPost i => exact k.keeps_muxPost hR i h
  | queueOperate q rw size timeout =>
    change k.Keeps R u (k.queueOperate q rw size timeout).toSched
    rcases k.queueOperate_cases q rw size timeout with ⟨e, -, heq⟩ | ⟨-, -, heq⟩ | ⟨-, heq⟩
    · exact heq ▸ hdone e
    · rw [heq]
      exact hR.sunk (((k.queueTaken q rw).sinks_queueFinish q rw).trans (.same rfl))
    · rw [heq]
      exact hrefl.taskWait hR _ _ (.inl h)
  | queuePended q rw => exact k.keeps_pended hR h (k.sinks_queueFinish q rw)
  | eventReadLocked e mask mode timeout =>
    refine keeps_ite (hR.sunk (k.sinks_eventPoll e mask mode)) (keeps_ite (hdone _) ?_)
    exact (hrefl.setTCB hR (.inl h)).taskWait hR _ _ (.inl (.inl h))
  | eventPended e mask mode => exact k.keeps_pended hR h (k.sinks_eventPoll e mask mode)
  | eventWriteLocked e events =>
    dsimp only [run, eventWriteLocked]
    split_ifs
    · exact hR.sunk (sinks_wakeReaders _ _ _ _ _ _)
    · exact hR.sunk (sinks_wakeReaders _ _ _ _ _ _)
    · exact hR.same rfl
  | schedule => exact hR.sunk (sinks_schedule k.toSched)
  | newTaskInit t p enqueue =>
    change k.Keeps R u (k.newTaskInit t p enqueue).toSched
    rw [k.newTaskInit_toSched]
    refine (hrefl.setTCB hR (f := fun c => c.created p k.allocated) ?_).sunk hR (.same rfl)
    exact h.imp_right fun hlowers c => hlowers c _ ⟨Bool.false_le _, Bool.false_le _⟩
  | insertTCBToFreeList t => exact hrefl.insertTCBToFreeList hR h
  | createEnQueue t => exact hR.sunk (sinks_taskEnQueue k.toSched t)
  | joinFree t =>
    have hset : k.Keeps R u (k.toSched.setSt t fun st => { st with joinable := false }) :=
      hR.sunk (.setSt (.same rfl) fun _ => ⟨rfl, le_rfl⟩)
    exact hset.recycleTaskResources hR h

omit hR

/-- Only the code listed writes the priority, the timeout bit or the wish of a task. -/
theorem run_held (c : Sec) {u : Nat} (hu : ¬k.writes c u) (hread : c.reads = true → u ≠ k.runTask) :
    (k.run c).held u = k.held u := by
  have hR : Steady fun c' c => c'.held = c.held := ⟨Eq.trans, fun h _ => h⟩
  refine k.run_keeps hR c ?_
  cases c with
  | taskDelete t => exact ⟨fun hc => hu (.inr hc), .inl fun hc => hu (.inl hc)⟩
  | muxPend i timeout => exact ⟨.inr fun _ _ => rfl, .inl hu⟩
  | eventReadLocked => exact hread rfl
  | semPend | queueOperate => exact .inr fun _ _ => rfl
  | recycleFinishedTask | semPended | muxPended | queuePended | eventPended | muxPost | taskPriSet | newTaskInit
  | insertTCBToFreeList | joinFree => exact .inl hu
  | _ => trivial

/-- Task 1 is given another priority, and task 2 keeps its own. -/
theorem run_held_taskPriSet : ∃ k, exec step (boot 1000000 0xffffff) (createTask 5 ++ createTask 6 ++ [.start]) = some k ∧
    ((k.run (.taskPriSet 1 9)).tcb 1).priority = 9 ∧ (k.run (.taskPriSet 1 9)).held 2 = k.held 2 := by
  obtain ⟨k, hk, hprio⟩ : ∃ k, exec step (boot 1000000 0xffffff) (createTask 5 ++ createTask 6 ++ [.start]) = some k ∧
      ((k.run (.taskPriSet 1 9)).tcb 1).priority = 9 := by
    decide +kernel
  exact ⟨k, hk, hprio, run_held _ _ (show ¬2 = 1 by decide) nofun⟩

/-- **Every piece of code keeps the timeout bits of the other tasks, and what they wait for.** -/
theorem run_told (c : Sec) {u : Nat} (hu : ¬k.clears c u) (hread : c.reads = true → u ≠ k.runTask) :
    (k.run c).told u = k.told u := by
  have hR : Steady fun c' c => c'.told = c.told := ⟨Eq.trans, fun h _ =>
    congrArg (fun p : (Nat × Bool) × BitVec 32 × BitVec 32 => (p.1.2, p.2)) h⟩
  refine k.run_keeps hR c ?_
  cases c with
  | taskDelete t => exact ⟨fun hc => hu (.inr hc), .inl fun hc => hu (.inl hc)⟩
  | muxPend i timeout => exact ⟨.inr fun _ _ => rfl, .inr fun _ _ => rfl⟩
  | eventReadLocked => exact hread rfl
  | semPend | queueOperate | muxPost | taskPriSet => exact .inr fun _ _ => rfl
  | recycleFinishedTask | semPended | muxPended | queuePended | eventPended | newTaskInit
  | insertTCBToFreeList | joinFree => exact .inl hu
  | _ => trivial

/-- **Only a call that begins to wait with a timeout raises a bit of the pair, and only of its own
task.** -/
theorem run_alarm (c : Sec) {u : Nat} (hu : u ≠ taskMaxNum) (hc : c.times = true → u ≠ k.runTask) :
    (k.run c).alarm u ≤ k.alarm u := by
  have hR : Steady fun c' c => c'.alarm ≤ c.alarm := ⟨le_trans, fun _ h => h⟩
  have hlowers : Lowers fun c' c => c'.alarm ≤ c.alarm := fun _ _ h => h
  refine k.run_keeps hR c ?_
  cases c with
  | taskDelete t => exact ⟨hu, .inr hlowers⟩
  | muxPend i timeout => exact ⟨.inl (hc rfl), .inr fun _ _ => le_rfl⟩
  | eventReadLocked => exact hc rfl
  | semPend | queueOperate => exact .inl (hc rfl)
  | muxPost | taskPriSet => exact .inr fun _ _ => le_rfl
  | recycleFinishedTask | semPended | muxPended | queuePended | eventPended | newTaskInit
  | insertTCBToFreeList | joinFree => exact .inr hlowers
  | _ => trivial

end State

end

end LiteosM.Kernel
