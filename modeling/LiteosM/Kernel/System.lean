import LiteosM.Kernel.Ipc
import LiteosM.Lib.Run

/-!
# The running kernel

The kernel as a transition system. A step is one piece of code: the running task starts a call or goes on
with the one it is in, the tick interrupt comes, the clock moves, or the scheduler is started. Before that
the code that runs is `main`, on the control block behind the last task; after it every task makes any calls
in any order, except the idle task, whose code (`OsIdleTask`) only recycles finished tasks. A failed
assertion or a null pointer stops the machine.

`step` is the step function of all runs over the kernel. Out of scope: interrupts other than the tick, which
could make calls of their own.
-/

namespace LiteosM.Kernel

open LiteosM.Lib

/-- `LOSCFG_BASE_CORE_TIMESLICE_TIMEOUT`. -/
def timesliceTimeout : Nat := 20000

namespace State

variable (k : State)

/-- One piece of code of the running task. -/
def run : Sec → State
  | .taskCreate p enqueue => k.taskCreate p enqueue
  | .recycleFinishedTask => k.recycleFinishedTask
  | .taskResume t => k.taskResume t
  | .taskSuspend t => k.taskSuspend t
  | .taskJoin t => k.taskJoin t
  | .taskDetach t => k.taskDetach t
  | .taskDelete t => k.taskDelete t
  | .taskDelay tick => k.taskDelay tick
  | .taskYield => k.taskYield
  | .taskPriSet t prio => k.taskPriSet t prio
  | .taskLock => k.taskLock
  | .taskUnlock => k.taskUnlock
  | .semCreate count maxCount => k.semCreate count maxCount
  | .semDelete i => k.semDelete i
  | .semPend i timeout => k.semPend i timeout
  | .semPost i => k.semPost i
  | .muxCreate => k.muxCreate
  | .muxDelete i => k.muxDelete i
  | .muxPend i timeout => k.muxPend i timeout
  | .muxPost i => k.muxPost i
  | .queueCreate len maxMsgSize memory => k.queueCreate len maxMsgSize memory
  | .queueDelete q => k.queueDelete q
  | .queueOperate q rw size timeout => k.queueOperate q rw size timeout
  | .eventInit e => k.eventInit e
  | .eventRead e mask mode timeout => k.eventRead e mask mode timeout
  | .eventWrite e events => k.eventWrite e events
  | .eventDestroy e => k.eventDestroy e
  | .eventClear e mask => k.eventClear e mask
  | .schedule => k.onSched (·.schedule)
  | .memFree p => k.memFree p
  | .createTake p enqueue => k.createTake p enqueue
  | .newTaskInit t p enqueue => k.newTaskInit t p enqueue
  | .insertTCBToFreeList t => k.onSched (·.insertTCBToFreeList t)
  | .createEnQueue t => k.createEnQueue t
  | .joinFree t => k.joinFree t
  | .semPended => k.semPended
  | .muxPended => k.muxPended
  | .queuePended q rw => k.queuePended q rw
  | .eventReadLocked e mask mode timeout => k.eventReadLocked e mask mode timeout
  | .eventPended e mask mode => k.eventPended e mask mode
  | .eventWriteLocked e events => k.eventWriteLocked e events

/-- A failed assertion or a null pointer. -/
def halted : Bool := k.fault.isSome || k.heap.crashed

end State

/-- The steps of the running task, of the tick and of the hardware. -/
inductive Label where
  /-- The running task starts a call. -/
  | call (c : Sec)
  /-- It goes on with the call it is in. -/
  | cont
  | tick
  | clock (time : Nat)
  /-- `LOS_Start`. -/
  | start
  deriving DecidableEq, Repr

/-- The piece of code a step executes, if it executes one of a task's. -/
def State.secOf (k : State) : Label → Option Sec
  | .call c => some c
  | .cont => (k.todo k.runTask).head?
  | _ => none

/-- Calls are made when nothing is left of the last one, and by the idle task only to recycle. -/
def State.mayCall (k : State) (c : Sec) : Bool :=
  c.isCall && (k.todo k.runTask).isEmpty && (k.runTask != k.idleTaskID || c == .recycleFinishedTask)

/-- One step; `none` when it cannot be made. -/
def step (k : State) (l : Label) : Option State :=
  if k.halted then none
  else
    match l with
    | .call c => if k.mayCall c then some (k.run c) else none
    | .cont =>
      match k.todo k.runTask with
      | [] => none
      | c :: rest => some ((k.setTodo k.runTask rest).run c)
    | .tick => some (k.onSched (·.schedTickHandler))
    | .clock time => if time < 2 ^ 64 then some (k.onSched ({ · with currTime := time })) else none
    | .start =>
      if k.taskScheduled || !(k.todo k.runTask).isEmpty then none
      else some (k.onSched fun s => s.start.halStartToRun)

/-! ## Boot -/

/-- The variables before `LOS_KernelInit`, the clock running at `sysClock`. -/
def State.zero (sysClock tickPeriodMax : Nat) : State where
  heap := ⟨fun _ => none, fun _ => none, false⟩
  tcb := fun _ => LosTaskCB.zero
  queueBitmap := 0
  idleTaskID := osInvalid
  runTask := taskMaxNum
  newTask := taskMaxNum
  losTaskLock := 0
  taskScheduled := false
  currTime := 0
  sysClock := sysClock
  tickPeriodMax := tickPeriodMax
  schedTimeSlice := Int.bmod (sysClock * timesliceTimeout / 1000000 : Nat) (2 ^ 32)
  schedTimeSliceMin := Int.bmod (sysClock * 50 / 1000000 : Nat) (2 ^ 32)
  schedTickMinPeriod := sysClock / 1000
  tickResponsePrecision := sysClock / 1000 * 75 / 100
  schedResponseID := 0
  schedResponseTime := invalidTime
  fault := none
  sem := fun _ => ⟨false, 0, 0⟩
  unusedSem := List.range semLimit
  mux := fun _ => ⟨false, 0, none, 0⟩
  unusedMux := List.range muxLimit
  queue := fun _ => ⟨false, 0, 0, 0, 0⟩
  freeQueue := List.range queueLimit
  event := fun _ => 0
  todo := fun _ => []
  ret := fun _ => .code .ok
  allocated := 0
  freed := []

/-- The loop of `OsTaskInit` from control block `i` on, for `n` blocks. -/
def Sched.freeTasks (s : Sched) (n : Nat) : Sched :=
  (List.range n).foldl (fun s i =>
    (s.setTCB i fun c =>
      { c with taskID := i, taskStatus := { c.taskStatus with unused := true } }).setHeap
        (s.heap.tailInsert .losFreeTask (.pendList i))) s

/-- `OsTaskInit` with `OsSchedInit`. -/
def Sched.taskInit (s : Sched) : Sched :=
  let s := s.setHeap ((s.heap.init .losFreeTask).init .taskRecycleList)
  let s := s.freeTasks taskMaxNum
  let s := s.setTCB taskMaxNum fun c =>
    { c with
      taskID := taskMaxNum
      taskStatus := { TaskStatus.zero with unused := true, running := true }
      priority := taskPriorityLowest + 1 }
  let s := s.setHeap ((List.range priorityQueueNum).foldl (fun h p => h.init (.priQueue p)) s.heap)
  s.setHeap (s.heap.init .taskSortLink)

/-- The parameters of `OsIdleTaskCreate`. -/
def idleParam : TskInitParam where
  named := true
  entry := true
  idleEntry := true
  usTaskPrio := taskPriorityLowest
  uwStackSize := 0x180
  stackAddr := 0
  joinable := false
  memory := true

/-- `OsIdleTaskCreate`: `LOS_TaskCreateOnly` takes the first control block of the free list. -/
def State.idleTaskCreate (k : State) : State :=
  let k := (k.onSched (·.pop 0)).newTaskInit 0 idleParam false
  k.onSched fun s => { s with idleTaskID := 0 }.taskEnQueue 0

/-- The kernel when `LOS_KernelInit` returns. -/
def boot (sysClock tickPeriodMax : Nat) : State :=
  ((State.zero sysClock tickPeriodMax).onSched (·.taskInit)).idleTaskCreate

end LiteosM.Kernel
