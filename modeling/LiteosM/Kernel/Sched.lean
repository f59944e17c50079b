import LiteosM.Kernel.Data
import LiteosM.Kernel.SortLink
import Mathlib.Algebra.Group.Int.Defs

/-!
# The scheduler

`los_sched.c` and `los_sortlink.c`, function by function. `LOS_ASSERT` stops the machine (`Sched.raise`):
`ArchTaskSchedule` and the tick handler test the assertion on the time first and do nothing else when it
fails.

The clock is read once in each function: `OsGetCurrSchedTimeCycle` is the variable `currTime`, which the
environment sets. 64-bit sums are reduced modulo `2 ^ 64`, `timeSlice` is a signed 32-bit number. The two
loops run at most `taskMaxNum` times, once for each task that can be in the sort link.

The functions are in the order of the source: the sort link, the time slice, the ready queues, the
operations on one task, the switch, the tick. Out of scope: `OsSchedSetNextExpireTime` with the software
timers (`Kernel.NextExpire`), the low-power branches (`Kernel.Freeze`) and the hooks.
-/

namespace LiteosM.Kernel

open LiteosM.Lib

/-- `CLZ`: the position of the first bit set, counted from the most significant one. -/
def clz (b : BitVec 32) : Nat := ((List.range priorityQueueNum).find? fun p => b.getMsbD p).getD 32

/-- `PRIQUEUE_PRIOR0_BIT >> priority`. -/
def priorityBit (p : Nat) : BitVec 32 := (0x80000000#32) >>> p

namespace Sched

variable (s : Sched)

/-! ## Time -/

/-- `OsSchedResetSchedResponseTime`. -/
def resetSchedResponseTime (responseTime : Nat) : Sched :=
  if responseTime ≤ s.schedResponseTime then { s with schedResponseTime := invalidTime } else s

/-- `OsTimeSliceUpdate`, behind its assertion. -/
def timeSliceUpdate (t : Nat) (currTime : Nat) : Sched :=
  s.setTCB t fun c =>
    { c with
      timeSlice := if c.taskID ≠ s.idleTaskID then
          Int.bmod (c.timeSlice - (currTime - c.startTime : Int)) (2 ^ 32)
        else c.timeSlice
      startTime := currTime }

/-- `GetSortLinkNextExpireTime`, which is `OsGetNextExpireTime` without software timers. -/
def getNextExpireTime (startTime : Nat) : Nat :=
  if s.heap.isEmpty .taskSortLink then invalidTime - s.tickResponsePrecision
  else
    match s.heap.next .taskSortLink with
    | some (.sortList t) =>
      let soon := (startTime + s.tickResponsePrecision) % 2 ^ 64
      if (s.tcb t).responseTime ≤ soon then soon else (s.tcb t).responseTime
    | _ => 0

/-- `OsSchedSetNextExpireTime`; `SysTickReload` cuts the period to `periodMax`. -/
def setNextExpireTime (responseID taskEndTime : Nat) : Sched :=
  let currTime := s.currTime
  let expire := s.getNextExpireTime currTime
  let isTimeSlice := expire > taskEndTime && expire - taskEndTime > s.schedTickMinPeriod
  let nextExpireTime := if isTimeSlice then taskEndTime else expire
  if s.schedResponseTime ≤ nextExpireTime ∨
      s.schedResponseTime - nextExpireTime < s.tickResponsePrecision then s
  else
    let wait := (nextExpireTime + 2 ^ 64 - currTime) % 2 ^ 64
    let wait := if wait < s.tickResponsePrecision then s.tickResponsePrecision else wait
    { s with
      schedResponseID := if isTimeSlice then responseID else osInvalid
      schedResponseTime := (currTime + min wait s.tickPeriodMax) % 2 ^ 64 }

/-- `startTime + timeSlice` of a 64-bit and a signed 32-bit number. -/
def endTime (startTime : Nat) (timeSlice : Int) : Nat := ((startTime + timeSlice) % 2 ^ 64).toNat

/-- `OsSchedUpdateExpireTime`. -/
def updateExpireTime : Sched :=
  if !s.taskScheduled then s
  else
    let c := s.tcb s.runTask
    let taskEndTime :=
      if c.taskID ≠ s.idleTaskID then
        endTime c.startTime (if c.timeSlice ≤ s.schedTimeSliceMin then s.schedTimeSlice else c.timeSlice)
      else invalidTime - s.tickResponsePrecision
    s.setNextExpireTime c.taskID taskEndTime

/-! ## The sort link -/

/-- The times in the sort link, where a node that is no task's is taken for later than task `t`. -/
def linkTime (t : Nat) : Node → Nat
  | .sortList u => (s.tcb u).responseTime
  | _ => (s.tcb t).responseTime + 1

/-- `OsAddNode2SortLink` on `g_taskSortLink`. -/
def addNode2SortLink (t : Nat) : Sched :=
  match SortLink.addNode2SortLink (s.linkTime t) s.heap taskMaxNum .taskSortLink (.sortList t) with
  | some h => s.setHeap h
  | none => s.raise .badPointer

/-- `startTime + OS_SYS_TICK_TO_CYCLE(waitTicks)`. -/
def responseTimeAt (startTime waitTicks : Nat) : Nat :=
  (startTime + waitTicks * s.sysClock / tickPerSecond) % 2 ^ 64

/-- `OsAdd2SortLink`. -/
def add2SortLink (t startTime waitTicks : Nat) : Sched :=
  (s.setTCB t fun c => { c with responseTime := s.responseTimeAt startTime waitTicks }).addNode2SortLink t

/-- `OsDeleteNodeSortLink`. -/
def deleteNodeSortLink (t : Nat) : Sched :=
  (s.setHeap (s.heap.delete (.sortList t))).setTCB t fun c => { c with responseTime := invalidTime }

/-- `OsDeleteSortLink`. -/
def deleteSortLink (t : Nat) : Sched :=
  if (s.tcb t).responseTime ≠ invalidTime then
    (s.resetSchedResponseTime (s.tcb t).responseTime).deleteNodeSortLink t
  else s

/-! ## The ready queues -/

/-- `OsSchedPriQueueEnHead`. -/
def priQueueEnHead (t p : Nat) : Sched :=
  { s with
    queueBitmap := if s.heap.isEmpty (.priQueue p) then s.queueBitmap ||| priorityBit p else s.queueBitmap
    heap := s.heap.add (.priQueue p) (.pendList t) }

/-- `OsSchedPriQueueEnTail`. -/
def priQueueEnTail (t p : Nat) : Sched :=
  { s with
    queueBitmap := if s.heap.isEmpty (.priQueue p) then s.queueBitmap ||| priorityBit p else s.queueBitmap
    heap := s.heap.tailInsert (.priQueue p) (.pendList t) }

/-- `OsSchedPriQueueDelete`. -/
def priQueueDelete (t p : Nat) : Sched :=
  let h := s.heap.delete (.pendList t)
  { s with
    heap := h
    queueBitmap := if h.isEmpty (.priQueue p) then s.queueBitmap &&& ~~~priorityBit p else s.queueBitmap }

@[simp] theorem priQueueEnHead_tcb (t p : Nat) : (s.priQueueEnHead t p).tcb = s.tcb := rfl

@[simp] theorem priQueueEnTail_tcb (t p : Nat) : (s.priQueueEnTail t p).tcb = s.tcb := rfl

@[simp] theorem priQueueDelete_tcb (t p : Nat) : (s.priQueueDelete t p).tcb = s.tcb := rfl

/-- `OsSchedTaskEnQueue`. -/
def taskEnQueue (t : Nat) : Sched :=
  if (s.st t).ready then s.raise .readyAssert
  else
    let c := s.tcb t
    let s :=
      if c.taskID ≠ s.idleTaskID then
        if c.timeSlice > s.schedTimeSliceMin then s.priQueueEnHead t c.priority
        else (s.setTCB t fun c => { c with timeSlice := s.schedTimeSlice }).priQueueEnTail t c.priority
      else s
    s.setSt t fun st =>
      { st with pend := false, suspend := false, delay := false, pendTime := false, ready := true }

/-- `OsSchedTaskDeQueue`. -/
def taskDeQueue (t : Nat) : Sched :=
  if (s.st t).ready then
    let c := s.tcb t
    let s := if c.taskID ≠ s.idleTaskID then s.priQueueDelete t c.priority else s
    s.setSt t fun st => { st with ready := false }
  else s

/-! ## What happens to a task -/

/-- The first part of `OsSchedTaskExit`: out of the ready queue or the wait list. -/
def leaveQueue (t : Nat) : Sched :=
  if (s.st t).ready then s.taskDeQueue t
  else if (s.st t).pend then
    (s.setHeap (s.heap.delete (.pendList t))).setSt t fun st => { st with pend := false }
  else s

/-- The second part of `OsSchedTaskExit`: out of the sort link. -/
def leaveSortLink (t : Nat) : Sched :=
  if (s.st t).delay || (s.st t).pendTime then
    (s.deleteSortLink t).setSt t fun st => { st with delay := false, pendTime := false }
  else s

/-- `OsSchedTaskExit`. -/
def taskExit (t : Nat) : Sched :=
  ((s.leaveQueue t).leaveSortLink t).setSt t fun st => { st with exit := true }

/-- `OsSchedYield`. -/
def yield : Sched := s.setTCB s.runTask fun c => { c with timeSlice := 0 }

/-- `OsSchedDelay` of the running task. -/
def delay (tick : Nat) : Sched :=
  s.setTCB s.runTask fun c =>
    { c with taskStatus := { c.taskStatus with delay := true }, waitTimes := tick }

/-- `OsSchedTaskWait`. -/
def taskWait (list : Node) (ticks : Nat) : Sched :=
  let run := s.runTask
  let s := s.setSt run fun st => { st with pend := true }
  let s := s.setHeap (s.heap.tailInsert list (.pendList run))
  if ticks ≠ waitForever then
    s.setTCB run fun c =>
      { c with taskStatus := { c.taskStatus with pendTime := true }, waitTimes := ticks }
  else s

/-- The first part of `OsSchedTaskWake`: out of the wait list and the sort link. -/
def endWait (t : Nat) : Sched :=
  let s := (s.setHeap (s.heap.delete (.pendList t))).setSt t fun st => { st with pend := false }
  if (s.st t).pendTime then (s.deleteSortLink t).setSt t fun st => { st with pendTime := false } else s

/-- `OsSchedTaskWake`. -/
def taskWake (t : Nat) : Sched :=
  let s := s.endWait t
  if !(s.st t).suspend && !(s.st t).running then s.taskEnQueue t else s

/-- `OsSchedSuspend`, never in a low-power mode. -/
def suspend (t : Nat) : Sched :=
  (if (s.st t).ready then s.taskDeQueue t else s).setSt t fun st => { st with suspend := true }

/-- Whether `OsSchedResume` makes the task ready. -/
def resumes (t : Nat) : Bool := !((s.st t).delay || (s.st t).pend)

/-- `OsSchedResume`. -/
def resume (t : Nat) : Sched :=
  let s := s.setSt t fun st => { st with suspend := false }
  if s.resumes t then s.taskEnQueue t else s

/-- `OsSchedModifyTaskSchedParam`. -/
def modifyTaskSchedParam (t priority : Nat) : Sched :=
  if (s.st t).ready then
    ((s.taskDeQueue t).setTCB t fun c => { c with priority := priority }).taskEnQueue t
  else s.setTCB t fun c => { c with priority := priority }

/-- What `OsSchedModifyTaskSchedParam` returns. -/
def modifyNeedsSchedule (t : Nat) : Bool := (s.st t).ready || (s.st t).running

/-! ## The tick -/

/-- The first part of `OsSchedWakePendTimeTask`: the wait or delay is over. -/
def timeOut (t : Nat) : Sched :=
  let old := s.st t
  let s := s.setSt t fun st => { st with pend := false, pendTime := false, delay := false }
  if old.pend then
    ((s.setHeap (s.heap.delete (.pendList t))).setTCB t fun c =>
      { c with taskStatus := { c.taskStatus with timeout := true }, taskMux := none, taskSem := none })
  else s

/-- `OsSchedWakePendTimeTask`. -/
def wakePendTimeTask (t : Nat) : Sched :=
  let old := s.st t
  if old.pend || old.delay then
    let s := s.timeOut t
    if !old.suspend then s.taskEnQueue t else s
  else s

/-- The loop of `OsSchedScanTimerList`: the head of the sort link, while its time has come. -/
def scanLoop : Nat → Sched → Sched
  | 0, s => s
  | fuel + 1, s =>
    if s.heap.isEmpty .taskSortLink then s
    else
      match s.heap.next .taskSortLink with
      | some (.sortList t) =>
        if (s.tcb t).responseTime ≤ s.currTime then
          scanLoop fuel ((s.deleteNodeSortLink t).wakePendTimeTask t)
        else s
      | _ => s.raise .badPointer

/-- `OsSchedScanTimerList`. -/
def scanTimerList : Sched := scanLoop taskMaxNum s

/-! ## The choice of the next task -/

/-- `OsGetTopTask`; `none` when the bitmap leads to a queue without a task. -/
def getTopTask : Option Nat :=
  if s.queueBitmap ≠ 0 then
    match s.heap.next (.priQueue (clz s.queueBitmap)) with
    | some (.pendList t) => some t
    | _ => none
  else some s.idleTaskID

/-- The first half of `OsSchedTaskSwitch`: the outgoing task goes where it belongs. -/
def putRunTask : Sched :=
  let run := s.runTask
  let s := s.timeSliceUpdate run s.currTime
  let st := s.st run
  if st.pendTime || st.delay then s.add2SortLink run (s.tcb run).startTime (s.tcb run).waitTimes
  else if !st.blocked then s.taskEnQueue run
  else s

/-- The second half of `OsSchedTaskSwitch`: `new` becomes the running task. The flag says whether
that is a switch. -/
def takeNewTask (new : Nat) : Sched × Bool :=
  let run := s.runTask
  let s := { s with newTask := new }
  let s :=
    if run ≠ new then
      ((s.setSt run fun st => { st with running := false }).setTCB new fun c =>
        { c with
          taskStatus := { c.taskStatus with running := true }
          startTime := (s.tcb run).startTime })
    else s
  let s := s.taskDeQueue new
  let c := s.tcb new
  let taskEndTime :=
    if c.taskID ≠ s.idleTaskID then endTime c.startTime c.timeSlice
    else invalidTime - s.tickResponsePrecision
  let s :=
    if s.schedResponseID = (s.tcb run).taskID then { s with schedResponseTime := invalidTime } else s
  (s.setNextExpireTime c.taskID taskEndTime, run ≠ new)

/-- `OsSchedTaskSwitch`; it returns whether another task was chosen. -/
def taskSwitch : Sched × Bool :=
  if s.currTime < (s.tcb s.runTask).startTime then (s.raise .timeAssert, false)
  else
    let s := s.putRunTask
    match s.getTopTask with
    | some new => s.takeNewTask new
    | none => (s.raise .badPointer, false)

/-- `ArchTaskSchedule`; the host threads that `Pthread_Schedule` switches are the port's. -/
def archTaskSchedule : Sched :=
  let (s, isSwitch) := s.taskSwitch
  if isSwitch then { s with runTask := s.newTask } else s

/-- `LOS_Schedule`. -/
def schedule : Sched := if s.taskScheduled && s.losTaskLock == 0 then s.archTaskSchedule else s

/-- `LOS_SchedTickHandler`. -/
def schedTickHandler : Sched :=
  if !s.taskScheduled then s
  else
    let s := if s.schedResponseID = osInvalid then s.scanTimerList else s
    if s.currTime < (s.tcb s.runTask).startTime then s.raise .timeAssert
    else
      let s := s.timeSliceUpdate s.runTask s.currTime
      let s := { s with schedResponseTime := invalidTime }
      if s.losTaskLock == 0 then s.archTaskSchedule else s.updateExpireTime

/-- `OsSchedStart`. -/
def start : Sched :=
  match s.getTopTask with
  | none => s.raise .badPointer
  | some new =>
    let s := s.setTCB new fun c =>
      { c with taskStatus := { c.taskStatus with running := true }, startTime := s.currTime }
    let s := { s with newTask := new, runTask := new }
    let s := s.taskDeQueue new
    let s :=
      { s with taskScheduled := true, schedResponseTime := invalidTime, schedResponseID := osInvalid }
    s.setNextExpireTime (s.tcb new).taskID (endTime (s.tcb new).startTime (s.tcb new).timeSlice)

/-- `HalStartToRun` of `LiteOS_RTOS_FE.c`. -/
def halStartToRun : Sched := s.setSt s.newTask fun _ => { TaskStatus.zero with running := true }

end Sched

end LiteosM.Kernel
