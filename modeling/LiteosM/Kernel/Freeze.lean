import LiteosM.Kernel.Placement

/-!
# Suspension in a low-power mode

With `LOSCFG_KERNEL_PM`, a task that waits for a time and is suspended while `OsIsPmMode()` holds is
frozen: it leaves the sort link, but keeps its status and its `responseTime`, from which
`LOS_TaskResume` finds out how long it still has to wait. This module follows one task through wakes,
its deletion, suspensions and resumptions, while the clock and the power mode change.

* **`frozen_task_safe`**: as long as the task is not woken or deleted while it is frozen, no node is
  unlinked that is not linked, and a resumption links a frozen task iff its time has not come;
* `frozen_task_woken`: the wake of a frozen task follows a null pointer.
-/

namespace LiteosM.Kernel

open LiteosM.Lib Function Option Bool Sched

/-! ## The source -/

/-- The scheduler with `OS_TASK_FLAG_FREEZE` of each task, and what `OsIsPmMode` returns. -/
structure PmSched extends Sched where
  freeze : Nat → Bool
  pmMode : Bool

namespace PmSched

variable (p : PmSched) (t : Nat)

/-- Changes what is no freeze. -/
def onSched (f : Sched → Sched) : PmSched := { p with toSched := f p.toSched }

/-- Sets the `OS_TASK_STATUS_FREEZE` of task `t`. -/
def setFreeze (b : Bool) : PmSched := { p with freeze := update p.freeze t b }

/-- `OsSchedFreezeTask`. -/
def freezeTask : PmSched :=
  let responseTime := (p.tcb t).responseTime
  let p := p.onSched (·.deleteSortLink t)
  let p := p.onSched (·.setTCB t fun c => { c with responseTime := responseTime })
  p.setFreeze t true

/-- The ticks that `OsSchedUnfreezeTask` finds left, a 32-bit number. -/
def remainTick : Nat :=
  let cyclePerTick := p.sysClock / tickPerSecond
  ((p.tcb t).responseTime - p.currTime + cyclePerTick - 1) % 2 ^ 64 / cyclePerTick % 2 ^ 32

/-- `OsSchedUnfreezeTask`. -/
def unfreezeTask : PmSched :=
  let p := p.setFreeze t false
  if (p.tcb t).responseTime > p.currTime then p.onSched (·.add2SortLink t p.currTime (p.remainTick t))
  else
    let p := p.onSched (·.setTCB t fun c => { c with responseTime := invalidTime })
    let p := if (p.st t).pend then p.onSched fun s => s.setHeap (s.heap.delete (.pendList t)) else p
    p.onSched (·.setSt t fun st => { st with delay := false, pendTime := false, pend := false })

/-- `OsSchedSuspend`. -/
def suspend : PmSched :=
  let p := if (p.st t).ready then p.onSched (·.taskDeQueue t) else p
  let p := if ((p.st t).pendTime || (p.st t).delay) && p.pmMode then p.freezeTask t else p
  p.onSched (·.setSt t fun st => { st with suspend := true })

/-- `OsSchedResume`: behind the first test it is the function without low-power modes. -/
def resume : PmSched :=
  let p := if p.freeze t then p.unfreezeTask t else p
  p.onSched (·.resume t)

/-- `LOS_TaskSuspend` of a task that is not running. -/
def taskSuspend : PmSched :=
  if t = p.idleTaskID ∨ t ≥ taskMaxNum then p
  else if (p.st t).unused then p
  else if (p.st t).systemTask then p
  else if (p.st t).suspend then p
  else p.suspend t

/-- `LOS_TaskResume` does something. -/
def resumable : Bool := t < taskMaxNum && !(p.st t).unused && (p.st t).suspend

/-- `LOS_TaskResume`. -/
def taskResume : PmSched := if p.resumable t then p.resume t else p

/-- `LOS_TaskDelete` of a task that is not running. `OsInsertTCBToFreeList` clears the flag with the
rest of the status. -/
def taskDelete : PmSched :=
  if t = p.idleTaskID ∨ t ≥ taskMaxNum then p
  else if (p.st t).systemTask then p
  else if (p.st t).unused then p
  else if (p.st t).exit then p
  else
    let p := p.onSched fun s => (s.exited t s.losTaskLock).recycleTaskResources t
    if (p.st t).unused then p.setFreeze t false else p

end PmSched

/-- What can happen to the task. -/
inductive PmLabel where
  /-- `OsSchedTaskWake` by a post or a write. -/
  | wake
  | delete
  | resume
  | suspend
  | clock (time : Nat)
  | power (pmMode : Bool)
  deriving DecidableEq, Repr

/-- A post or a write wakes a task it finds in its wait list; nothing happens after a null pointer. -/
def PmSched.step (t : Nat) (p : PmSched) (l : PmLabel) : Option PmSched :=
  if p.heap.crashed then none
  else
    match l with
    | .wake => if (p.st t).pend then some (p.onSched (·.taskWake t)) else none
    | .delete => some (p.taskDelete t)
    | .resume => some (p.taskResume t)
    | .suspend => some (p.taskSuspend t)
    | .clock time => if time < 2 ^ 64 then some (p.onSched ({ · with currTime := time })) else none
    | .power pmMode => some { p with pmMode := pmMode }

/-- The task is neither woken nor deleted while it is frozen, and its new time is none that marks a
node as unlinked. -/
def PmSched.Sensible (t : Nat) (p : PmSched) : PmLabel → Prop
  | .wake | .delete => p.freeze t = false
  | .resume => p.freeze t = true → (p.tcb t).responseTime > p.currTime →
      p.responseTimeAt p.currTime (p.remainTick t) ≠ invalidTime
  | _ => True

instance PmSched.decidableSensible (t : Nat) (p : PmSched) (l : PmLabel) : Decidable (p.Sensible t l) := by
  unfold Sensible
  repeat' split
  all_goals infer_instance

/-! ## A frozen task, without its time -/

/-- What is left of a control block when the time it waits for is taken away. -/
def LosTaskCB.untimed (c : LosTaskCB) : LosTaskCB :=
  { c with
    responseTime := invalidTime
    taskStatus := { c.taskStatus with delay := false, pendTime := false } }

namespace TaskOk

variable {idle t : Nat} {c : LosTaskCB} {pl : Option Node} {sl cpu : Bool}

/-- Out of the sort link. -/
theorem untimed (h : TaskOk idle t c pl sl cpu) (hu : c.taskStatus.unused = false) :
    TaskOk idle t c.untimed pl false cpu where
  __ := h
  free hc := absurd hc (h.not_free hu)
  sort := by simp [LosTaskCB.untimed]
  time _ := by simp [LosTaskCB.untimed]
  readyX hr := by
    obtain ⟨h1, -, h3, h4, h5⟩ := h.readyX hr
    exact ⟨h1, rfl, h3, h4, h5⟩
  timed hc := by cases hc
  pendX hc := ⟨rfl, (h.pendX hc).2⟩
  delayX hc := by cases hc
  idleX hc := by
    obtain ⟨h1, h2, h3, -, h5⟩ := h.idleX hc
    exact ⟨h1, h2, h3, rfl, h5⟩

/-- Back into the sort link, with the time it waits for. -/
theorem retimed (h : TaskOk idle t c.untimed pl false false) (hr : c.taskStatus.ready = false)
    (hu : c.taskStatus.unused = false) (he : c.taskStatus.exit = false) (hidle : t ≠ idle)
    (hd : c.taskStatus.delay = true ∨ c.taskStatus.pendTime = true)
    (hp : c.taskStatus.pendTime = true → c.taskStatus.pend = true)
    (hx : c.taskStatus.pend = true → c.taskStatus.delay = false) {time : Nat}
    (htime : time ≠ invalidTime) : TaskOk idle t { c with responseTime := time } pl true false where
  __ := h
  free hc := absurd hc (h.not_free hu)
  sort := iff_of_true rfl ⟨rfl, hd⟩
  time _ := iff_of_true rfl htime
  readyX hc := by
    cases hr.symm.trans hc
  timed := hp
  pendX hc := ⟨hx hc, he, hu⟩
  delayX _ := ⟨he, hu⟩
  idleX hc := absurd hc hidle

/-- A task that has ended and is in no list could as well be one that has not. -/
theorem unexit (h : TaskOk idle t c none sl cpu) (he : c.taskStatus.exit = true) :
    TaskOk idle t { c with taskStatus := { c.taskStatus with exit := false } } none sl cpu := by
  obtain ⟨hr, hp, hd, hpt⟩ := h.of_exit he
  exact
    { h with
      free := fun hc => by cases hc
      recycled := fun hc => by cases hc
      listed := fun _ hc => by cases hc
      readyX := fun hc => by cases hr.symm.trans hc
      pendX := fun hc => by cases hp.symm.trans hc
      delayX := fun hc => by cases hd.symm.trans hc
      idleX := fun hc => by
        rw [(h.idleX hc).2.1] at he
        cases he }

end TaskOk

/-- Out of the sort link, the control block is as if the task had never waited for a time. -/
theorem Placed.leaveSortLink {s : Sched} {L : NodeLists Node} {pl : Nat → Option Node} {sl : Nat → Bool}
    {cpu : Option Nat} {t : Nat} (hP : Placed s L pl sl cpu) (ht : t < taskMaxNum)
    (hu : (s.st t).unused = false) :
    Moved t s (s.leaveSortLink t) L pl sl (pl t) false (s.tcb t).life cpu ∧
      (s.leaveSortLink t).tcb t = (s.tcb t).untimed := by
  have hT := hP.task t ht
  obtain ⟨L', hup, hW, htcb, hctl⟩ := hP.wired.leaveSortLink (hT.time hu) hT.sl_false
  have hself : (s.leaveSortLink t).tcb t = (s.tcb t).untimed := by
    rw [htcb, update_self]
    rfl
  refine ⟨hP.moved hup ?_ hW.bits (fun u hut => ?_) hctl ?_ fun _ => ?_, hself⟩
  · rw [update_eq_self]
    exact hW.shape
  · rw [htcb, update_of_ne hut]
  · rw [hself]
    rfl
  · rw [hself]
    exact hT.untimed hu

section
variable {s s' : Sched} {v : View} {t : Nat}

/-- Who is on the CPU does not change when no task begins or ends to run. -/
theorem RunOk.of_life (hR : RunOk s) (hstart : s.taskScheduled = true) (hctl : s'.ctl = s.ctl)
    (hlife : ∀ u, (s'.tcb u).life = (s.tcb u).life) (hghost : s'.tcb taskMaxNum = s.tcb taskMaxNum) :
    RunOk s' := by
  have hrun : s'.runTask = s.runTask := congrArg Ctl.runTask hctl
  have hrunning : ∀ u, (s'.st u).running = (s.st u).running := fun u => congrArg Life.running (hlife u)
  have hunused : ∀ u, (s'.st u).unused = (s.st u).unused := fun u => congrArg Life.unused (hlife u)
  constructor
  · rw [show s'.idleTaskID = s.idleTaskID from congrArg Ctl.idleTaskID hctl]
    exact hR.idle
  · rw [hrun]
    exact hR.le
  · rw [hrun, hrunning, hunused]
    exact fun _ => hR.onCpu hstart
  · intro u hu
    rw [hrun, hrunning, hunused]
    exact hR.running u hu
  · intro hc
    simp [show s'.taskScheduled = s.taskScheduled from congrArg Ctl.taskScheduled hctl, hstart] at hc
  · unfold st
    rw [hghost]
    exact hR.ghost
  · exact fault_ne_of_ctl (congrArg Ctl.asserted hctl) hR.sound

/-- A move of a task that does not begin to wait for another's end. -/
theorem Good.moved (hG : Good v) (hstart : v.s.taskScheduled = true) (ht : t < taskMaxNum)
    {x : Option Node} {y : Bool}
    (h : Moved t v.s s' v.L v.pl v.sl x y (v.s.tcb t).life (some v.s.runTask))
    (hx : ∀ j, x = some (.joinList j) → v.pl t = some (.joinList j)) :
    ∃ v', v'.s = s' ∧ Good v' ∧ v'.pl t = x ∧ v'.sl t = y ∧ (s'.tcb t).life = (v.s.tcb t).life ∧
      s'.ctl = v.s.ctl := by
  obtain ⟨v', rfl, hchange, hpl, hsl, hlife, hheads⟩ := v.change_of_moved h
  have hall : ∀ u, (v'.s.tcb u).life = (v.s.tcb u).life := by
    intro u
    by_cases hut : u = t
    · rwa [hut]
    · rw [hchange.tcb u hut]
  refine ⟨v', rfl, ⟨hG.run.of_life hstart hchange.ctl hall (hchange.tcb _ (Nat.ne_of_gt ht)), ?_⟩, hpl, hsl,
    hlife, hchange.ctl⟩
  refine hchange.joinOk hG.join (fun j hj => hx j (hpl ▸ hj)) (.inr ?_) fun hj => ?_
  · exact ⟨congrArg Life.joinable hlife, congrArg Life.exit hlife, congrArg Life.unused hlife⟩
  · have hj' : (v.s.st t).joinable = true := (congrArg Life.joinable hlife).symm.trans hj
    exact fun hc => hG.join.init t ht hj' ((hheads _).mp hc)

end

namespace Sched

variable {s : Sched} {t : Nat} {f g : LosTaskCB → LosTaskCB}

theorem setTCB_congr (h : f (s.tcb t) = g (s.tcb t)) : s.setTCB t f = s.setTCB t g := by
  unfold setTCB
  rw [h]

/-- `OsSchedSuspend` and `OsSchedResume` do not look at `OS_TASK_STATUS_EXIT`. -/
def unexit (s : Sched) (t : Nat) : Sched := s.setSt t fun st => { st with exit := false }

section
variable (s : Sched) (t : Nat)

theorem st_unexit : (s.unexit t).st t = { s.st t with exit := false } := setSt_st _

theorem unexit_setSt (f : TaskStatus → TaskStatus)
    (hf : ∀ st : TaskStatus, f { st with exit := false } = { f st with exit := false }) :
    (s.setSt t f).unexit t = (s.unexit t).setSt t f := by
  unfold unexit setSt
  rw [setTCB_setTCB, setTCB_setTCB]
  refine setTCB_congr ?_
  rw [hf]

theorem unexit_taskDeQueue : (s.taskDeQueue t).unexit t = (s.unexit t).taskDeQueue t := by
  have htcb : (s.unexit t).tcb t =
      { s.tcb t with taskStatus := { (s.tcb t).taskStatus with exit := false } } := setSt_self _
  unfold taskDeQueue
  rw [st_unexit]
  dsimp only
  rw [htcb, show (s.unexit t).idleTaskID = s.idleTaskID from rfl]
  by_cases hr : (s.st t).ready = true
  · split_ifs with hid
    · exact unexit_setSt _ t _ fun _ => rfl
    · exact unexit_setSt _ t _ fun _ => rfl
  · rw [if_neg hr, if_neg hr]

theorem unexit_taskEnQueue : (s.taskEnQueue t).unexit t = (s.unexit t).taskEnQueue t := by
  have htcb : (s.unexit t).tcb t =
      { s.tcb t with taskStatus := { (s.tcb t).taskStatus with exit := false } } := setSt_self _
  unfold taskEnQueue
  rw [st_unexit]
  dsimp only
  rw [htcb, show (s.unexit t).idleTaskID = s.idleTaskID from rfl,
    show (s.unexit t).schedTimeSliceMin = s.schedTimeSliceMin from rfl]
  by_cases hr : (s.st t).ready = true
  · rw [if_pos hr, if_pos hr]
    rfl
  rw [if_neg hr, if_neg hr]
  by_cases hid : (s.tcb t).taskID ≠ s.idleTaskID
  · split_ifs with hslice
    · exact unexit_setSt _ t _ fun _ => rfl
    · unfold unexit setSt priQueueEnTail setTCB
      simp only [update_self, update_idem]
  · rw [if_neg hid, if_neg hid]
    exact unexit_setSt _ t _ fun _ => rfl

theorem unexit_suspend : (s.suspend t).unexit t = (s.unexit t).suspend t := by
  unfold suspend
  rw [unexit_setSt _ t _ fun _ => rfl, st_unexit]
  split_ifs with hr
  · rw [unexit_taskDeQueue]
  · rfl

theorem unexit_resume : (s.resume t).unexit t = (s.unexit t).resume t := by
  unfold resume
  dsimp only
  rw [← unexit_setSt s t (fun st => { st with suspend := false }) fun _ => rfl]
  generalize (s.setSt t fun st => { st with suspend := false }) = s1
  have hgo : (s1.unexit t).resumes t = s1.resumes t := by
    unfold resumes
    rw [st_unexit]
  rw [hgo]
  split_ifs with hres
  · rw [unexit_taskEnQueue]
  · rfl

theorem st_taskDeQueue : (s.taskDeQueue t).st t = { s.st t with ready := false } := by
  unfold st
  rw [taskDeQueue_tcb, update_self]

theorem st_suspend : (s.suspend t).st t = { s.st t with ready := false, suspend := true } := by
  unfold suspend
  rw [setSt_st]
  by_cases hr : (s.st t).ready = true
  · rw [if_pos hr, st_taskDeQueue]
  · have hr' : (s.st t).ready = false := by simpa using hr
    rw [if_neg hr, ← hr']

/-- A resumption keeps the end of a task, and it does not begin a wait. -/
theorem st_resume : ((s.resume t).st t).exit = (s.st t).exit ∧
      ((s.st t).pend = false → ((s.resume t).st t).pend = false) ∧
      ((s.st t).delay = false → ((s.resume t).st t).delay = false) := by
  have hself := @setSt_st s t fun st => { st with suspend := false }
  unfold resume
  dsimp only
  split_ifs with hgo
  · generalize (s.setSt t fun st => { st with suspend := false }) = s1 at hself
    unfold taskEnQueue
    dsimp only
    split_ifs with hr hid hslice
    · rw [show (s1.raise .readyAssert).st t = s1.st t from rfl, hself]
      exact ⟨rfl, id, id⟩
    all_goals
      unfold st at hself ⊢
      simp [hself]
  · rw [hself]
    exact ⟨rfl, id, id⟩

end

theorem suspend_of_not_ready (h : (s.st t).ready = false) :
    s.suspend t = s.setSt t fun st => { st with suspend := true } := by
  unfold suspend
  rw [h]
  rfl

end Sched

/-! ## The task that is followed -/

/-- The four things the task can be. A frozen task is seen without the time it waits for, and a task
that has ended but can still be joined as if it had not. -/
inductive Mode (t : Nat) (p : PmSched) : Prop where
  | live (v : View) (good : Good v) (eq : v.s = p.toSched) (thawed : p.freeze t = false)
      (used : (p.st t).unused = false) (lives : (p.st t).exit = false)
  | frozen (v : View) (good : Good v) (eq : v.s = p.toSched.setTCB t LosTaskCB.untimed)
      (frozen : p.freeze t = true) (used : (p.st t).unused = false) (lives : (p.st t).exit = false)
      (suspended : (p.st t).suspend = true)
      (waits : (p.st t).delay = true ∨ (p.st t).pendTime = true)
      (timed : (p.st t).pendTime = true → (p.st t).pend = true)
      (delayed : (p.st t).pend = true → (p.st t).delay = false)
  | ended (v : View) (eq : v.s = p.toSched.unexit t)
      (thawed : p.freeze t = false) (used : (p.st t).unused = false) (ended : (p.st t).exit = true)
      (pend : (p.st t).pend = false) (delay : (p.st t).delay = false)
  | gone (v : View) (eq : v.s = p.toSched) (unused : (p.st t).unused = true) (thawed : p.freeze t = false)

/-- Task `t`, which is not running and not the idle task, is in one of the modes. -/
structure Followed (t : Nat) (p : PmSched) : Prop where
  lt : t < taskMaxNum
  away : p.runTask ≠ t
  notIdle : t ≠ p.idleTaskID
  started : p.taskScheduled = true
  mode : Mode t p

namespace Followed

variable {t : Nat} {p p' : PmSched}

section
variable (h : Followed t p)
include h

/-- The step has changed nothing of the scheduler but tasks. -/
theorem next (hctl : p'.toSched.ctl = p.toSched.ctl) (hmode : Mode t p') : Followed t p' := by
  refine ⟨h.lt, ?_, ?_, ?_, hmode⟩
  · rw [show p'.runTask = p.runTask from congrArg Ctl.runTask hctl]
    exact h.away
  · rw [show p'.idleTaskID = p.idleTaskID from congrArg Ctl.idleTaskID hctl]
    exact h.notIdle
  · rw [show p'.taskScheduled = p.taskScheduled from congrArg Ctl.taskScheduled hctl]
    exact h.started

theorem not_crashed : p.heap.crashed = false := by
  cases h.mode with
  | live v _ eq | frozen v _ eq | ended v eq | gone v eq =>
    exact (congrArg (·.heap.crashed) eq).symm.trans v.placed.shape.rings.ok

/-- A move of a task that is not frozen. -/
theorem live_moved {s' : Sched} {v : View} (good : Good v) (eq : v.s = p.toSched)
    (thawed : p.freeze t = false) (used : (p.st t).unused = false) (lives : (p.st t).exit = false)
    {x : Option Node} {y : Bool}
    (hm : Moved t v.s s' v.L v.pl v.sl x y (v.s.tcb t).life (some v.s.runTask))
    (hx : ∀ j, x = some (.joinList j) → v.pl t = some (.joinList j)) :
    Followed t { p with toSched := s' } ∧ ∃ v' : View, v'.s = s' ∧ v'.sl t = y := by
  obtain ⟨v', hs', good', -, hsl, hlife, hctl⟩ := good.moved (eq ▸ h.started) h.lt hm hx
  rw [eq] at hctl hlife
  refine ⟨h.next hctl (.live v' good' hs' thawed ?_ ?_), v', hs', hsl⟩
  · exact (congrArg Life.unused hlife).trans used
  · exact (congrArg Life.exit hlife).trans lives

theorem not_cpu {v : View} (eq : v.s = p.toSched) : some v.s.runTask ≠ some t := by
  rw [eq, ne_eq, some_inj]
  exact h.away

theorem wake (hp : (p.st t).pend = true) (hok : p.freeze t = false) :
    Followed t (p.onSched (·.taskWake t)) := by
  cases h.mode with
  | live v good eq thawed used lives =>
    obtain ⟨x, hx, hm⟩ := v.placed.taskWake h.lt (by rwa [eq]) fun hc => absurd hc (h.not_cpu eq)
    have hlive := h.live_moved good eq thawed used lives hm (by rintro j rfl; rcases hx with hx | hx <;> cases hx)
    rw [eq] at hlive
    exact hlive.1
  | frozen v good eq frozen => simp [hok] at frozen
  | ended v eq thawed used ended pend => simp [pend] at hp
  | gone v eq unused =>
    have hT := v.placed.task t h.lt
    rw [eq] at hT
    unfold st at hp unused
    simp [(hT.pendX hp).2.2] at unused

end

theorem suspend_thawed (hgo : (((p.st t).pendTime || (p.st t).delay) && p.pmMode) = false) :
    p.suspend t = p.onSched (·.suspend t) := by
  unfold PmSched.suspend suspend
  dsimp only
  by_cases hr : (p.st t).ready = true
  · rw [if_pos hr]
    unfold PmSched.onSched
    dsimp only
    rw [st_taskDeQueue, if_neg, if_pos hr]
    rw [hgo]
    exact false_ne_true
  rw [if_neg hr, if_neg (hgo ▸ false_ne_true)]
  unfold PmSched.onSched
  dsimp only
  rw [if_neg hr]

/-- The scheduler behind a suspension that freezes. -/
theorem freezes_eq (hr : (p.st t).ready = false)
    (hwait : (p.st t).delay = true ∨ (p.st t).pendTime = true) (hpm : p.pmMode = true) :
    p.suspend t =
      { p with
        toSched := ((p.toSched.deleteSortLink t).setTCB t fun c =>
          { c with responseTime := (p.tcb t).responseTime }).setSt t fun st => { st with suspend := true }
        freeze := update p.freeze t true } := by
  unfold PmSched.suspend
  rw [hr]
  dsimp only
  rw [if_pos (by rcases hwait with h | h <;> simp [h, hpm])]
  rfl

variable {v : View}

/-- The suspension of a task that waits for a time, in a low-power mode. -/
theorem suspend_freezes (h : Followed t p) (good : Good v) (eq : v.s = p.toSched)
    (used : (p.st t).unused = false) (lives : (p.st t).exit = false)
    (hwait : (p.st t).delay = true ∨ (p.st t).pendTime = true) (hpm : p.pmMode = true) :
    Followed t (p.suspend t) := by
  have hT := v.placed.task t h.lt
  rw [eq] at hT
  have hr : (p.st t).ready = false := by
    rw [eq_false_iff]
    intro hr
    rcases hwait with hd | hp
    · cases hd.symm.trans ((hT.readyX hr).2.1)
    · cases hp.symm.trans (hT.not_pendTime (hT.not_pend_of_ready hr))
  have hused : (v.s.st t).unused = false := by rw [eq]; exact used
  have hstart : v.s.taskScheduled = true := by rw [eq]; exact h.started
  -- without its time the task is out of the sort link and suspended
  obtain ⟨hm, htcb⟩ := v.placed.leaveSortLink h.lt hused
  obtain ⟨v1, hs1, good1, -, -, hlife1, hctl1⟩ := good.moved hstart h.lt hm fun _ => id
  have hst1 : v1.s.st t = (v.s.tcb t).untimed.taskStatus := by
    unfold st
    rw [hs1, htcb]
  have hr1 : (v1.s.st t).ready = false := by
    rwa [hst1, eq]
  obtain ⟨x, hx, hm1⟩ := v1.placed.suspend h.lt (by rwa [hst1]) (by
    rw [hs1, show (v.s.leaveSortLink t).idleTaskID = v.s.idleTaskID from congrArg Ctl.idleTaskID hctl1, eq]
    exact h.notIdle)
  obtain ⟨v2, hs2, good2, -, -, -, hctl2⟩ := good1.moved (by
    rw [hs1, show (v.s.leaveSortLink t).taskScheduled = v.s.taskScheduled from
      congrArg Ctl.taskScheduled hctl1]
    exact hstart) h.lt hm1 (by
      rintro j rfl
      rcases hx with hx | hx
      · cases hx
      · exact hx.symm)
  have hv := v.placed.task t h.lt
  obtain ⟨-, -, -, hdel, hctl⟩ := v.placed.wired.deleteSortLink (hv.time hused)
  rw [eq] at hdel hctl
  have hD : (p.toSched.deleteSortLink t).tcb t = { p.tcb t with responseTime := invalidTime } := by
    rw [hdel, update_self]
  have hst : (((p.toSched.deleteSortLink t).setTCB t fun c =>
      { c with responseTime := (p.tcb t).responseTime }).setSt t fun st =>
        { st with suspend := true }).st t = { p.st t with suspend := true } := by
    rw [setSt_st, setTCB_st, hD]
    rfl
  rw [freezes_eq hr hwait hpm]
  refine h.next hctl (.frozen v2 good2 ?_ (update_self ..) ?_ ?_ ?_ ?_ ?_ ?_)
  · have hon : (p.toSched.st t).delay || (p.toSched.st t).pendTime := by
      rcases hwait with hd | hp
      · simp [hd]
      · simp [hp]
    rw [hs2, suspend_of_not_ready hr1, hs1, eq, leaveSortLink, if_pos hon]
    unfold setSt
    rw [setTCB_setTCB, setTCB_setTCB, setTCB_setTCB]
    refine setTCB_congr ?_
    rw [hD]
    rfl
  all_goals
    rw [hst]
  · exact used
  · exact lives
  · exact hwait
  · exact hT.timed
  · exact fun hp => (hT.pendX hp).1

/-- A move of a task that has ended. -/
theorem ended_moved {s' : Sched} (h : Followed t p) (eq : v.s = p.toSched.unexit t)
    (thawed : p.freeze t = false) (used : (p.st t).unused = false) {x : Option Node} {y : Bool}
    (hm : Moved t v.s (s'.unexit t) v.L v.pl v.sl x y (v.s.tcb t).life (some v.s.runTask))
    (hexit : (s'.st t).exit = true) (hpend : (s'.st t).pend = false) (hdelay : (s'.st t).delay = false) :
    Followed t { p with toSched := s' } := by
  obtain ⟨v', hs', -, -, -, hlife, -⟩ := v.change_of_moved hm
  have hctl : s'.ctl = p.toSched.ctl := by
    have hctl := hm.ctl
    rwa [eq] at hctl
  refine h.next hctl (.ended v' hs' thawed ?_ hexit hpend hdelay)
  have hun : ((s'.unexit t).tcb t).life.unused = (v.s.tcb t).life.unused :=
    congrArg Life.unused (hs' ▸ hlife)
  rw [eq] at hun
  have hs : ((s'.unexit t).st t).unused = (s'.st t).unused := by rw [st_unexit]
  have hp : ((p.toSched.unexit t).st t).unused = (p.st t).unused := by rw [st_unexit]
  exact hs.symm.trans (hun.trans (hp.trans used))

theorem suspend (h : Followed t p) : Followed t (p.taskSuspend t) := by
  unfold PmSched.taskSuspend
  iterate 4
    split
    · exact h
  rename_i hun _ hsusp
  cases h.mode with
  | live v good eq thawed used lives =>
    cases hgo : ((p.st t).pendTime || (p.st t).delay) && p.pmMode with
    | true =>
      rw [and_eq_true, or_eq_true] at hgo
      exact h.suspend_freezes good eq used lives hgo.1.symm hgo.2
    | false =>
      rw [suspend_thawed hgo]
      obtain ⟨x, hx, hm⟩ := v.placed.suspend h.lt (eq ▸ used) (eq ▸ h.notIdle)
      have hlive := h.live_moved good eq thawed used lives hm (by
        rintro j rfl
        rcases hx with hx | hx
        · cases hx
        · exact hx.symm)
      rw [eq] at hlive
      exact hlive.1
  | frozen v good eq frozen used lives suspended => exact absurd suspended hsusp
  | ended v eq thawed used ended pend delay =>
    have hst : v.s.st t = { p.st t with exit := false } := by rw [eq, st_unexit]
    have hpt : (p.st t).pendTime = false := by
      have hpt := (v.placed.task t h.lt).not_pendTime
      rw [show (v.s.tcb t).taskStatus = { p.st t with exit := false } from hst] at hpt
      exact hpt pend
    rw [suspend_thawed (by rw [hpt, delay]; rfl)]
    obtain ⟨x, -, hm⟩ := v.placed.suspend h.lt (hst ▸ used) (eq ▸ h.notIdle)
    have hm' : Moved t v.s ((p.toSched.suspend t).unexit t) v.L v.pl v.sl x (v.sl t) (v.s.tcb t).life
        (some v.s.runTask) := by
      rwa [unexit_suspend, ← eq]
    have hst' := st_suspend p.toSched t
    refine h.ended_moved eq thawed used hm' ?_ ?_ ?_ <;> rw [hst']
    · exact ended
    · exact pend
    · exact delay
  | gone v eq unused => exact absurd unused hun

theorem linked_iff (heq : v.s.heap = p.heap) :
    Linked p.heap (.sortList t) .taskSortLink ↔ v.sl t = true := by
  rw [← heq, v.placed.shape.linked_iff rfl, v.placed.shape.sort]
  exact and_iff_right rfl

/-- Time is left: the task goes back into the sort link. -/
theorem unfreeze_linked (h : Followed t p) (good : Good v)
    (eq : v.s = p.toSched.setTCB t LosTaskCB.untimed) (used : (p.st t).unused = false)
    (lives : (p.st t).exit = false) (suspended : (p.st t).suspend = true)
    (waits : (p.st t).delay = true ∨ (p.st t).pendTime = true)
    (timed : (p.st t).pendTime = true → (p.st t).pend = true)
    (delayed : (p.st t).pend = true → (p.st t).delay = false) {startTime ticks : Nat}
    (htime : p.responseTimeAt startTime ticks ≠ invalidTime) :
    ∃ v', v'.s = p.toSched.add2SortLink t startTime ticks ∧ Good v' ∧ v'.sl t = true ∧
      v'.s.ctl = p.toSched.ctl ∧
      v'.s.tcb t = { p.tcb t with responseTime := p.responseTimeAt startTime ticks } := by
  have hT := v.placed.task t h.lt
  have hself : v.s.tcb t = (p.tcb t).untimed := by rw [eq, setTCB_self]
  have hcpu : some v.s.runTask ≠ some t := by
    rw [eq, ne_eq, some_inj]
    exact h.away
  have hr : (p.st t).ready = false := by
    rw [eq_false_iff]
    intro hc
    have hsus : (p.tcb t).taskStatus.suspend = false := by
      have hx := hT.readyX
      rw [hself] at hx
      exact (hx hc).1
    simp [show (p.st t).suspend = false from hsus] at suspended
  have hsl : v.sl t = false := hT.sl_false (hself ▸ rfl) (hself ▸ rfl)
  rw [hsl, hself, decide_eq_false hcpu] at hT
  have hW : Wired (p.toSched.setTCB t fun c =>
      { c with responseTime := p.responseTimeAt startTime ticks }) v.L v.pl v.sl := by
    refine ⟨?_, ?_⟩
    · have hshape := v.placed.shape
      rwa [eq] at hshape
    · have hbits := v.placed.bits
      rwa [eq] at hbits
  obtain ⟨L', hup, hW', htcb, hctl⟩ := hW.addNode2SortLink v.placed.pl_ne_sortLink h.lt hsl
  have hself' : (p.toSched.add2SortLink t startTime ticks).tcb t =
      { p.tcb t with responseTime := p.responseTimeAt startTime ticks } := by
    unfold add2SortLink
    rw [htcb, setTCB_self]
  have hm : Moved t v.s (p.toSched.add2SortLink t startTime ticks) v.L v.pl v.sl (v.pl t) true
      (v.s.tcb t).life (some v.s.runTask) := by
    refine v.placed.moved hup ?_ hW'.bits (fun u hu => ?_) ?_ ?_ fun _ => ?_
    · rw [update_eq_self]
      exact hW'.shape
    · unfold add2SortLink
      rw [htcb, setTCB_of_ne hu, eq, setTCB_of_ne hu]
    · rwa [eq]
    · rw [hself', hself]
      rfl
    · rw [hself', decide_eq_false hcpu]
      have hidle : t ≠ v.s.idleTaskID := by rw [eq]; exact h.notIdle
      exact hT.retimed hr used lives hidle waits timed delayed htime
  obtain ⟨v', hs', good', -, hsl', -, hctl'⟩ := good.moved (eq ▸ h.started) h.lt hm fun _ => id
  refine ⟨v', hs', good', hsl', ?_, ?_⟩
  · rw [hs', hctl', eq]
    rfl
  · rw [hs', hself']

/-- The time is over: what is left is the end of a wait without a time. -/
theorem unfreeze_late (hlate : ¬(p.tcb t).responseTime > p.currTime) : (p.unfreezeTask t).toSched =
      if (p.st t).pend then (p.toSched.setTCB t LosTaskCB.untimed).endWait t
      else p.toSched.setTCB t LosTaskCB.untimed := by
  have hst : ((p.toSched.setTCB t fun c => { c with responseTime := invalidTime }).st t) = p.st t := setTCB_st _
  unfold PmSched.unfreezeTask PmSched.setFreeze PmSched.onSched
  rw [if_neg hlate]
  dsimp only
  rw [hst]
  by_cases hp : (p.st t).pend = true
  · have hpt : (((p.toSched.setTCB t LosTaskCB.untimed).setHeap
        (p.heap.delete (.pendList t))).setSt t fun st => { st with pend := false }).st t =
        { (p.tcb t).untimed.taskStatus with pend := false } := by
      rw [setSt_st, st, setHeap_tcb, setTCB_self]
    rw [if_pos hp, if_pos hp]
    unfold endWait
    dsimp only
    rw [show (p.toSched.setTCB t LosTaskCB.untimed).heap = p.heap from rfl, hpt,
      if_neg (by exact false_ne_true)]
    unfold setSt setHeap setTCB
    dsimp only
    rw [update_self, update_self, update_idem, update_idem]
    rfl
  have hp' : (p.st t).pend = false := by simpa using hp
  rw [if_neg hp, if_neg hp]
  unfold setSt
  rw [setTCB_setTCB]
  refine setTCB_congr ?_
  have hp'' : (p.tcb t).taskStatus.pend = false := hp'
  unfold LosTaskCB.untimed
  rw [← hp'']

theorem unfreeze_expired (h : Followed t p) (good : Good v)
    (eq : v.s = p.toSched.setTCB t LosTaskCB.untimed)
    (hlate : ¬(p.tcb t).responseTime > p.currTime) :
    ∃ v', v'.s = (p.unfreezeTask t).toSched ∧ Good v' ∧ v'.sl t = false ∧
      v'.s.ctl = p.toSched.ctl ∧ (v'.s.tcb t).life = (p.tcb t).life ∧
      (v'.s.st t).suspend = (p.st t).suspend := by
  have hT := v.placed.task t h.lt
  have hself : v.s.tcb t = (p.tcb t).untimed := by rw [eq, setTCB_self]
  have hctl : v.s.ctl = p.toSched.ctl := by rw [eq]; rfl
  have hlife : (v.s.tcb t).life = (p.tcb t).life := by rw [hself]; rfl
  have hstart : v.s.taskScheduled = true := by rw [eq]; exact h.started
  rw [unfreeze_late hlate, ← eq]
  split_ifs with hp
  · obtain ⟨hm, htcb⟩ := v.placed.endWait h.lt (by unfold st; rw [hself]; exact hp)
    obtain ⟨v', hs', good', -, hsl', hlife', hctl'⟩ := good.moved hstart h.lt hm nofun
    refine ⟨v', hs', good', hsl', ?_, ?_, ?_⟩
    · rw [hs', hctl', hctl]
    · rw [hs', hlife', hlife]
    · unfold st
      rw [hs', htcb, hself]
      rfl
  refine ⟨v, rfl, good, hT.sl_false (hself ▸ rfl) (hself ▸ rfl), hctl, hlife, ?_⟩
  unfold st
  rw [hself]
  rfl

theorem freeze_unfreezeTask (p : PmSched) (t : Nat) : (p.unfreezeTask t).freeze t = false := by
  unfold PmSched.unfreezeTask
  dsimp only
  split_ifs <;> exact update_self ..

section
variable (h : Followed t p)
include h

variable {v : View}

/-- The resumption of a task that is not frozen. -/
theorem resume_live (good : Good v) (eq : v.s = p.toSched)
    (thawed : p.freeze t = false) (used : (p.st t).unused = false) (lives : (p.st t).exit = false)
    (suspended : (p.st t).suspend = true) : Followed t (p.onSched (·.resume t)) ∧
      (Linked (p.onSched (·.resume t)).heap (.sortList t) .taskSortLink ↔ v.sl t = true) := by
  obtain ⟨x, hx, hm⟩ := v.placed.resume h.lt (eq ▸ suspended) (eq ▸ used)
    (eq ▸ lives) (h.not_cpu eq)
  obtain ⟨hnext, v', hs', hsl'⟩ := h.live_moved good eq thawed used lives hm (by
    rintro j rfl
    rcases hx with hx | hx
    · exact hx.symm
    · cases hx)
  rw [eq] at hnext hs'
  refine ⟨hnext, ?_⟩
  rw [← hsl']
  exact linked_iff (p := p.onSched (·.resume t)) (congrArg heap hs')

/-- A frozen task is as before once it is unfrozen, in the sort link iff its time has not come. -/
theorem unfreeze (hok : p.Sensible t .resume) (good : Good v)
    (eq : v.s = p.toSched.setTCB t LosTaskCB.untimed) (frozen : p.freeze t = true)
    (used : (p.st t).unused = false) (lives : (p.st t).exit = false)
    (suspended : (p.st t).suspend = true) (waits : (p.st t).delay = true ∨ (p.st t).pendTime = true)
    (timed : (p.st t).pendTime = true → (p.st t).pend = true)
    (delayed : (p.st t).pend = true → (p.st t).delay = false) :
    ∃ v', v'.s = (p.unfreezeTask t).toSched ∧ Good v' ∧
      (v'.sl t = true ↔ (p.tcb t).responseTime > p.currTime) ∧ v'.s.ctl = p.toSched.ctl ∧
      (v'.s.tcb t).life = (p.tcb t).life ∧ (v'.s.st t).suspend = (p.st t).suspend := by
  by_cases htime : (p.tcb t).responseTime > p.currTime
  · have heq : p.unfreezeTask t = { p.setFreeze t false with
        toSched := p.toSched.add2SortLink t p.currTime (p.remainTick t) } := by
      unfold PmSched.unfreezeTask
      exact if_pos htime
    obtain ⟨v', hs', good', hsl', hctl', htcb'⟩ := h.unfreeze_linked good eq used lives suspended waits
      timed delayed (hok frozen htime)
    rw [heq]
    refine ⟨v', hs', good', iff_of_true hsl' htime, hctl', ?_, ?_⟩
    · rw [htcb']
      rfl
    · unfold st
      rw [htcb']
  obtain ⟨v', hs', good', hsl', hctl', hlife', hsusp'⟩ := h.unfreeze_expired good eq htime
  refine ⟨v', hs', good', iff_of_false ?_ htime, hctl', hlife', hsusp'⟩
  rw [hsl']
  exact false_ne_true

/-- The resumption of a task that has ended. -/
theorem resume_ended (eq : v.s = p.toSched.unexit t)
    (thawed : p.freeze t = false) (used : (p.st t).unused = false) (ended : (p.st t).exit = true)
    (pend : (p.st t).pend = false) (delay : (p.st t).delay = false)
    (suspended : (p.st t).suspend = true) : Followed t (p.onSched (·.resume t)) ∧
      (Linked (p.onSched (·.resume t)).heap (.sortList t) .taskSortLink ↔ v.sl t = true) := by
  have hst : v.s.st t = { p.st t with exit := false } := by rw [eq, st_unexit]
  have hcpu : some v.s.runTask ≠ some t := by
    rw [eq, ne_eq, some_inj]
    exact h.away
  obtain ⟨x, -, hm⟩ := v.placed.resume h.lt (hst ▸ suspended) (hst ▸ used)
    (by rw [hst]) hcpu
  have hm' : Moved t v.s ((p.toSched.resume t).unexit t) v.L v.pl v.sl x (v.sl t) (v.s.tcb t).life
      (some v.s.runTask) := by
    rwa [unexit_resume, ← eq]
  obtain ⟨hexit, hpend, hdelay⟩ := p.toSched.st_resume t
  refine ⟨h.ended_moved eq thawed used hm' (hexit.trans ended) (hpend pend) (hdelay delay), ?_⟩
  obtain ⟨v', hs', -, -, hsl', -⟩ := v.change_of_moved hm'
  have hheap : v'.s.heap = (p.onSched (·.resume t)).heap := by
    rw [hs']
    rfl
  rw [← hsl']
  exact linked_iff hheap

theorem resume (hok : p.Sensible t .resume) (hres : p.resumable t = true) :
    Followed t (p.resume t) ∧ (Linked (p.resume t).heap (.sortList t) .taskSortLink ↔
        if p.freeze t then (p.tcb t).responseTime > p.currTime
        else Linked p.heap (.sortList t) .taskSortLink) := by
  unfold PmSched.resumable at hres
  simp only [and_eq_true, not_eq_true'] at hres
  obtain ⟨⟨-, hunused⟩, hsusp⟩ := hres
  unfold PmSched.resume
  cases h.mode with
  | live v good eq thawed used lives =>
    rw [thawed, if_neg Bool.false_ne_true, if_neg Bool.false_ne_true,
      linked_iff (congrArg heap eq)]
    exact h.resume_live good eq thawed used lives hsusp
  | frozen v good eq frozen used lives suspended waits timed delayed =>
    rw [frozen]
    obtain ⟨v', hs', good', hsl', hctl', hlife', hsusp'⟩ := h.unfreeze hok good eq frozen used lives
      suspended waits timed delayed
    have hthaw := freeze_unfreezeTask p t
    rw [hs'] at hctl' hlife' hsusp'
    have hused : ((p.unfreezeTask t).st t).unused = false := (congrArg Life.unused hlife').trans used
    have hlives : ((p.unfreezeTask t).st t).exit = false := (congrArg Life.exit hlife').trans lives
    have hlive : Followed t (p.unfreezeTask t) := h.next hctl' (.live v' good' hs' hthaw hused hlives)
    rw [← hsl']
    exact hlive.resume_live good' hs' hthaw hused hlives (hsusp'.trans suspended)
  | ended v eq thawed used ended pend delay =>
    have hheap : v.s.heap = p.heap := by
      rw [eq]
      rfl
    rw [thawed, linked_iff hheap]
    exact h.resume_ended eq thawed used ended pend delay hsusp
  | gone v eq unused => simp [hunused] at unused

theorem delete_joinable {v2 : View} (hex : Exits t v v2)
    (eq : v.s = p.toSched) (hused : (v2.s.st t).unused = false)
    (hj : (v2.s.st t).joinable = true) (thawed : p.freeze t = false) :
    Followed t { p with toSched := v2.s.recycleTaskResources t } ∧
      ((v2.s.recycleTaskResources t).st t).unused = false := by
  have hT := v2.placed.task t h.lt
  have hexit : (v2.s.st t).exit = true := congrArg Life.exit hex.self
  obtain ⟨-, hp, hd, -⟩ := hT.of_exit hexit
  rw [hex.pl] at hT
  have hstrip := hT.stripped nofun
  have hbits : (v2.s.tcb t).stripped.taskStatus.exit = true ∧
      (v2.s.tcb t).stripped.taskStatus.unused = false ∧
      (v2.s.tcb t).stripped.taskStatus.pend = false ∧ (v2.s.tcb t).stripped.taskStatus.delay = false := by
    unfold LosTaskCB.stripped
    split_ifs
    · exact ⟨hexit, hused, hp, hd⟩
    · exact ⟨hexit, hused, hp, hd⟩
  obtain ⟨v3, hs3, -⟩ := v2.change_of_moved (v2.placed.setTCB
    (fun c => { c.stripped with taskStatus := { c.stripped.taskStatus with exit := false } }) fun _ => by
      rw [hex.pl]
      exact hstrip.unexit hbits.1)
  rw [recycleTaskResources_joinable v2.s t hj]
  have hst : (v2.s.setTCB t LosTaskCB.stripped).st t = _ := setTCB_st _
  refine ⟨⟨h.lt, ?_, ?_, ?_, .ended v3 ?_ thawed ?_ ?_ ?_ ?_⟩, hst ▸ hbits.2.1⟩
  · show v2.s.runTask ≠ t
    rw [hex.run, eq]
    exact h.away
  · show t ≠ v2.s.idleTaskID
    rw [hex.idle, eq]
    exact h.notIdle
  · show v2.s.taskScheduled = true
    rw [hex.start, eq]
    exact h.started
  · rw [hs3]
    unfold unexit setSt
    rw [setTCB_setTCB]
  all_goals
    rw [hst]
  · exact hbits.2.1
  · exact hbits.1
  · exact hbits.2.2.1
  · exact hbits.2.2.2

theorem delete_freed {v2 : View} (hex : Exits t v v2)
    (eq : v.s = p.toSched) (hj : (v2.s.st t).joinable = false) :
    Followed t { p with
      toSched := v2.s.recycleTaskResources t
      freeze := update p.freeze t false } ∧
      ((v2.s.recycleTaskResources t).st t).unused = true := by
  have hidle : t ≠ v2.s.idleTaskID := by
    rw [hex.idle, eq]
    exact h.notIdle
  obtain ⟨v3, hs3, hchange, hw⟩ := v2.wipe h.lt hex.pl hex.sl (v2.at_nil rfl hex.join) hidle
  rw [recycleTaskResources_eq v2.s t hj, ← hs3]
  have hun : (v3.s.st t).unused = true := by
    unfold st
    rw [hw.tcb]
    rfl
  refine ⟨⟨h.lt, ?_, ?_, ?_, .gone v3 rfl hun (update_self ..)⟩, hun⟩
  · rw [hchange.runTask, hex.run, eq]
    exact h.away
  · rwa [hchange.idleTaskID]
  · rw [hchange.taskScheduled, hex.start, eq]
    exact h.started

theorem delete (hok : p.freeze t = false) : Followed t (p.taskDelete t) := by
  unfold PmSched.taskDelete
  iterate 4
    split
    · exact h
  rename_i hun hexit
  cases h.mode with
  | live v good eq thawed used lives =>
    have hused : (v.s.st t).unused = false := by rw [eq]; exact used
    obtain ⟨v2, hs2, -, hex⟩ := v.exited good h.lt hused (eq ▸ h.notIdle) v.s.losTaskLock
    rw [eq] at hs2
    unfold PmSched.onSched
    dsimp only
    rw [← hs2]
    cases hj : (v2.s.st t).joinable with
    | true =>
      have hused2 : (v2.s.st t).unused = false := (congrArg Life.unused hex.self).trans hused
      obtain ⟨hnext, hun'⟩ := h.delete_joinable hex eq hused2 hj thawed
      rwa [hun']
    | false =>
      obtain ⟨hnext, hun'⟩ := h.delete_freed hex eq hj
      rwa [if_pos hun']
  | frozen v good eq frozen => simp [hok] at frozen
  | ended v eq thawed used ended => exact absurd ended hexit
  | gone v eq unused => exact absurd unused hun

/-- The clock moves, or the power mode changes. -/
theorem clock (time : Nat) (pmMode : Bool) :
    Followed t { p with currTime := time, pmMode := pmMode } := by
  refine ⟨h.lt, h.away, h.notIdle, h.started, ?_⟩
  cases h.mode with
  | live v good eq thawed used lives =>
    obtain ⟨v', hs', hfrozen, -⟩ := v.setClock time
    rw [eq] at hs'
    exact .live v' (hfrozen.good good) hs' thawed used lives
  | frozen v good eq frozen used lives suspended waits timed delayed =>
    obtain ⟨v', hs', hfrozen, -⟩ := v.setClock time
    rw [eq] at hs'
    exact .frozen v' (hfrozen.good good) hs' frozen used lives suspended waits timed delayed
  | ended v eq thawed used ended pend delay =>
    obtain ⟨v', hs', -⟩ := v.setClock time
    rw [eq] at hs'
    exact .ended v' hs' thawed used ended pend delay
  | gone v eq unused thawed =>
    obtain ⟨v', hs', -⟩ := v.setClock time
    rw [eq] at hs'
    exact .gone v' hs' unused thawed

theorem step {l : PmLabel} (hok : p.Sensible t l) (hstep : p.step t l = some p') : Followed t p' := by
  unfold PmSched.step at hstep
  rw [h.not_crashed] at hstep
  cases l with
  | wake =>
    obtain ⟨hp, rfl⟩ := guarded_inj hstep
    exact h.wake hp hok
  | delete =>
    cases hstep
    exact h.delete hok
  | resume =>
    cases hstep
    unfold PmSched.taskResume
    by_cases hres : p.resumable t = true
    · rw [if_pos hres]
      exact (h.resume hok hres).1
    · rwa [if_neg hres]
  | suspend =>
    cases hstep
    exact h.suspend
  | clock time =>
    obtain ⟨-, rfl⟩ := guarded_inj hstep
    exact h.clock time p.pmMode
  | power pmMode =>
    cases hstep
    exact h.clock p.currTime pmMode

end

end Followed

/-- A task that waits for a time, in any state the kernel gets into without low-power modes. -/
theorem followed_of_reached {k : State} {v : View} {t : Nat} {pmMode : Bool} (hR : Reached k v)
    (ht : t < taskMaxNum) (haway : k.runTask ≠ t)
    (hwait : (k.st t).delay = true ∨ (k.st t).pendTime = true) :
    Followed t ⟨k.toSched, fun _ => false, pmMode⟩ := by
  obtain ⟨hC, -⟩ := hR
  have hT := v.placed.task t ht
  rw [hC.eq] at hT
  have hlive : (k.st t).unused = false ∧ (k.st t).exit = false ∧ t ≠ k.idleTaskID ∧
      ((k.st t).pend = true ∨ (k.st t).delay = true) := by
    rcases hwait with hd | hp
    · refine ⟨(hT.delayX hd).2, (hT.delayX hd).1, fun hc => ?_, .inr hd⟩
      cases hd.symm.trans ((hT.idleX hc).2.2.2.1)
    · have hp' := hT.timed hp
      exact ⟨(hT.pendX hp').2.2, (hT.pendX hp').2.1, hT.ne_idle_of_pend hp', .inl hp'⟩
  obtain ⟨hu, he, hidle, hblocked⟩ := hlive
  refine ⟨ht, haway, hidle, ?_, .live v hC.good hC.eq rfl hu he⟩
  -- before the scheduler is started no task waits
  by_contra hstart
  have hbefore := (hC.good.run.before (by rw [hC.eq]; simpa using hstart)).2 t ht
  rw [hC.eq] at hbefore
  rcases hblocked with hp | hd
  · cases hp.symm.trans hbefore.2.1
  · cases hd.symm.trans hbefore.2.2

/-- **A task that is left alone while it is frozen is safe**: from every state that a careful run of
the kernel reaches, no step on a task that waits for a time unlinks a node that is not linked, and
after each resumption a frozen task is in the sort link iff its time has not come. -/
theorem frozen_task_safe {sysClock tickPeriodMax : Nat} {run : List Label} {k : State} {t : Nat}
    (hcare : Guarded LiteosM.Kernel.step State.Careful (boot sysClock tickPeriodMax) run)
    (hrun : exec LiteosM.Kernel.step (boot sysClock tickPeriodMax) run = some k)
    (ht : t < taskMaxNum) (haway : k.runTask ≠ t)
    (hwait : (k.st t).delay = true ∨ (k.st t).pendTime = true) (pmMode : Bool)
    {steps : List PmLabel} {p : PmSched}
    (hok : Guarded (PmSched.step t) (PmSched.Sensible t) ⟨k.toSched, fun _ => false, pmMode⟩ steps)
    (hsteps : exec (PmSched.step t) ⟨k.toSched, fun _ => false, pmMode⟩ steps = some p) :
    p.heap.crashed = false ∧ (p.Sensible t .resume → p.resumable t = true →
        (Linked (p.taskResume t).heap (.sortList t) .taskSortLink ↔
          if p.freeze t then (p.tcb t).responseTime > p.currTime
          else Linked p.heap (.sortList t) .taskSortLink)) := by
  obtain ⟨v, hR⟩ := reached_of_careful hcare hrun
  have h : Followed t p := exec_inv_guarded (fun _ _ _ h hok hstep => Followed.step h hok hstep)
    (followed_of_reached hR ht haway hwait) hok hsteps
  refine ⟨h.not_crashed, fun hsens hres => ?_⟩
  unfold PmSched.taskResume
  rw [if_pos hres]
  exact (h.resume hsens hres).2

/-- Task 1 waits for a semaphore with a timeout of ten ticks, and task 2 runs. -/
def timedWait : List Label :=
  createTask 5 ++ createTask 6 ++
    [.start, .call (.semCreate 0 1), .call (.semPend 0 10), .cont]

/-- Frozen, and resumed in time, the task is in the sort link again. -/
theorem frozen_task_safe_resumed : ∃ k p, exec LiteosM.Kernel.step (boot 1000000 0xffffff) timedWait = some k ∧
    exec (PmSched.step 1) ⟨k.toSched, fun _ => false, true⟩ [.suspend] = some p ∧ p.freeze 1 = true ∧
      Linked (p.taskResume 1).heap (.sortList 1) .taskSortLink := by
  have hcare : Guarded LiteosM.Kernel.step State.Careful (boot 1000000 0xffffff) timedWait := by
    decide +kernel
  obtain ⟨k, hk, hrun, hwait, hok, p, hp, hfreeze, hsens, hres, htime⟩ : ∃ k,
      exec LiteosM.Kernel.step (boot 1000000 0xffffff) timedWait = some k ∧ k.runTask = 2 ∧
      (k.st 1).pendTime = true ∧
      Guarded (PmSched.step 1) (PmSched.Sensible 1) ⟨k.toSched, fun _ => false, true⟩ [.suspend] ∧
      ∃ p, exec (PmSched.step 1) ⟨k.toSched, fun _ => false, true⟩ [.suspend] = some p ∧
        p.freeze 1 = true ∧ p.Sensible 1 .resume ∧ p.resumable 1 = true ∧
        (p.tcb 1).responseTime > p.currTime := by decide +kernel
  have hsafe := frozen_task_safe hcare hk (by decide) (by rw [hrun]; decide) (.inr hwait) true hok hp
  refine ⟨k, p, hk, hp, hfreeze, ?_⟩
  rwa [hsafe.2 hsens hres, hfreeze, if_pos rfl]

/-- **A frozen task must not be woken**: the post finds it in the wait list, and its node is unlinked
from a sort link it is not in. -/
theorem frozen_task_woken : ∃ k p, exec LiteosM.Kernel.step (boot 1000000 0xffffff) timedWait = some k ∧
    exec (PmSched.step 1) ⟨k.toSched, fun _ => false, true⟩ [.suspend, .wake] = some p ∧
      p.heap.crashed = true := by
  simp only [exists_and_left]
  decide +kernel

end LiteosM.Kernel
