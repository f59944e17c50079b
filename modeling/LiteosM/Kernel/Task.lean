import LiteosM.Kernel.Sched

/-!
# The task calls

`los_task.c`, cut where another task can get in between: at the end of each critical section, and where the
code works outside of one. A function here is what runs up to the next such point; the rest of the call is
pushed on the caller's `todo` list. Tests made before a critical section on values only the running task can
change (`g_losTaskLock`, its own attributes) are made in it.

`OsNewTaskInit` runs outside of a critical section, on a control block taken from the free list, and is one
piece. A stack address given by the caller is not aligned here.

Out of scope: `LOS_TaskInfoGet` and the other calls that only read, `LOS_TaskStatusGet`, the hooks, and the
return value that `LOS_TaskJoin` hands on.
-/

namespace LiteosM.Kernel

open LiteosM.Lib Function

/-- `OsTaskInitParamCheck`. -/
def TskInitParam.check (p : TskInitParam) : ErrNo :=
  let size := if p.uwStackSize = 0 then tskDefaultStackSize else p.uwStackSize
  if !p.named then .tskNameEmpty
  else if !p.entry then .tskEntryNull
  else if p.usTaskPrio > taskPriorityLowest then .tskPriorError
  else if p.usTaskPrio = taskPriorityLowest ∧ !p.idleEntry then .tskPriorError
  else if p.uwStackSize > sysHeapSize then .tskStkszTooLarge
  else if size < tskMinStackSize then .tskStkszTooSmall
  else .ok

/-- The task whose `pendList` is first in a list. -/
def Sched.first (s : Sched) (n : Node) : Option Nat :=
  match s.heap.next n with
  | some (.pendList t) => some t
  | _ => none

/-- `LOS_ListDelete(LOS_DL_LIST_FIRST(list))`. -/
def Sched.pop (s : Sched) (t : Nat) : Sched := s.setHeap (s.heap.delete (.pendList t))

/-- `OsInsertTCBToFreeList`: `memset_s` clears the pointers of the control block's nodes too. -/
def Sched.insertTCBToFreeList (s : Sched) (t : Nat) : Sched :=
  let h := ((s.heap.clear (.pendList t)).clear (.sortList t)).clear (.joinList t)
  (s.setHeap (h.add .losFreeTask (.pendList t))).setTCB t fun c =>
    { LosTaskCB.zero with taskID := c.taskID, taskStatus := .onlyUnused }

/-- What `OsRecycleTaskResources` stores through `stackPtr`. -/
def LosTaskCB.stackToFree (c : LosTaskCB) : StackPtr :=
  if c.taskStatus.stackFree then c.topOfStack else .null

/-- `OsRecycleTaskResources`. -/
def Sched.recycleTaskResources (s : Sched) (t : Nat) : Sched :=
  let s :=
    if (s.tcb t).stackToFree ≠ .null then
      s.setTCB t fun c =>
        { c with topOfStack := .null, taskStatus := { c.taskStatus with stackFree := false } }
    else s
  if !(s.st t).joinable then s.insertTCBToFreeList t else s

/-- `OsTaskJoinPostUnsafe`. -/
def Sched.taskJoinPost (s : Sched) (t : Nat) : Sched :=
  if (s.st t).joinable && !s.heap.isEmpty (.joinList t) then
    match s.first (.joinList t) with
    | some u => s.taskWake u
    | none => s.raise .badPointer
  else s

/-- `OsRunningTaskDelete`. -/
def Sched.runningTaskDelete (s : Sched) (t : Nat) : Sched :=
  let s := s.setHeap (s.heap.tailInsert .taskRecycleList (.pendList t))
  let c := s.tcb t
  { s with runTask := taskMaxNum }.setTCB taskMaxNum fun p =>
    { p with
      taskID := t
      taskStatus := { c.taskStatus with running := true }
      topOfStack := c.topOfStack }

/-- The fields `OsNewTaskInit` sets before it looks for a stack. -/
def LosTaskCB.newTask (c : LosTaskCB) (p : TskInitParam) : LosTaskCB :=
  { c with
    taskStatus := { TaskStatus.zero with suspend := true, joinable := p.joinable }
    priority := p.usTaskPrio
    timeSlice := 0
    waitTimes := 0
    responseTime := invalidTime
    taskSem := none
    taskMux := none
    eventMask := 0 }

namespace State

variable (k : State)

/-- Changes the scheduler's part. -/
def onSched (f : Sched → Sched) : State := { k with toSched := f k.toSched }

/-- The running task goes on with `l`, then with what is left. -/
def push (l : List Sec) : State :=
  { k with todo := update k.todo k.runTask (l ++ k.todo k.runTask) }

/-- Replaces what task `t` still has to run. -/
def setTodo (t : Nat) (l : List Sec) : State := { k with todo := update k.todo t l }

@[simp] theorem setTodo_self (t : Nat) (l : List Sec) : (k.setTodo t l).todo t = l :=
  update_self ..

theorem setTodo_of_ne {t u : Nat} (h : u ≠ t) (l : List Sec) : (k.setTodo t l).todo u = k.todo u :=
  update_of_ne h ..

/-- The value the call of the running task returns. -/
def done (e : ErrNo) : State := { k with ret := update k.ret k.runTask (.code e) }

/-! ## Creation -/

/-- One round of `OsRecycleFinishedTask`. -/
def recycleFinishedTask : State :=
  if k.heap.isEmpty .taskRecycleList then k
  else
    match k.first .taskRecycleList with
    | some t =>
      let k := k.onSched (·.pop t)
      let p := (k.tcb t).stackToFree
      (k.onSched (·.recycleTaskResources t)).push [.memFree p, .recycleFinishedTask]
    | none => k.onSched (·.raise .badPointer)

/-- `LOS_MemFree` of a stack; a null pointer is ignored. -/
def memFree (p : StackPtr) : State := if p = .null then k else { k with freed := p :: k.freed }

/-- `LOS_TaskCreate`, and `LOS_TaskCreateOnly` when the task is not to be enqueued. -/
def taskCreate (p : TskInitParam) (enqueue : Bool) : State :=
  match p.check with
  | .ok => k.push [.recycleFinishedTask, .createTake p enqueue]
  | e => k.done e

/-- The section of `LOS_TaskCreateOnly` that takes a control block. -/
def createTake (p : TskInitParam) (enqueue : Bool) : State :=
  if k.heap.isEmpty .losFreeTask then k.done .tskTcbUnavailable
  else
    match k.first .losFreeTask with
    | some t => (k.onSched (·.pop t)).push [.newTaskInit t p enqueue]
    | none => k.onSched (·.raise .badPointer)

/-- `OsNewTaskInit` and the end of `LOS_TaskCreateOnly`: the control block goes back when there is
no memory for a stack; otherwise the task exists, its code not yet begun. -/
def newTaskInit (t : Nat) (p : TskInitParam) (enqueue : Bool) : State :=
  let k := k.onSched (·.setTCB t (·.newTask p))
  let k := if p.joinable then k.onSched fun s => s.setHeap (s.heap.init (.joinList t)) else k
  if p.stackAddr = 0 ∧ !p.memory then
    ((k.onSched (·.setTCB t fun c => { c with topOfStack := .null })).done .tskNoMemory).push
      [.insertTCBToFreeList t]
  else
    let k :=
      if p.stackAddr = 0 then
        { k.onSched (·.setTCB t fun c =>
            { c with
              topOfStack := .heap k.allocated
              taskStatus := { c.taskStatus with stackFree := true } }) with
          allocated := k.allocated + 1 }
      else k.onSched (·.setTCB t fun c => { c with topOfStack := .user p.stackAddr })
    ((k.setTodo t []).done .ok).push (if enqueue then [.createEnQueue t] else [])

/-- The section of `LOS_TaskCreate` that makes the task ready. -/
def createEnQueue (t : Nat) : State := (k.onSched (·.taskEnQueue t)).push [.schedule]

/-! ## Suspension -/

/-- `LOS_TaskResume`. -/
def taskResume (t : Nat) : State :=
  if t ≥ taskMaxNum then k.done .tskIdInvalid
  else if (k.st t).unused then k.done .tskNotCreated
  else if !(k.st t).suspend then k.done .tskNotSuspended
  else
    let needSched := k.resumes t && k.taskScheduled
    ((k.onSched (·.resume t)).done .ok).push (if needSched then [.schedule] else [])

/-- `OsCheckTaskIDValid`; `LOS_ERRNO_TSK_OPERATE_IDLE` is the code for system tasks. -/
def checkTaskIDValid (t : Nat) : ErrNo :=
  if t = k.idleTaskID then .tskOperateSystemTask
  else if t ≥ taskMaxNum then .tskIdInvalid
  else .ok

/-- `LOS_TaskSuspend`. -/
def taskSuspend (t : Nat) : State :=
  match k.checkTaskIDValid t with
  | .ok =>
    if (k.st t).unused then k.done .tskNotCreated
    else if (k.st t).systemTask then k.done .tskOperateSystemTask
    else if (k.st t).suspend then k.done .tskAlreadySuspended
    else if (k.st t).running && k.losTaskLock != 0 then k.done .tskSuspendLocked
    else
      ((k.onSched (·.suspend t)).done .ok).push
        (if t = (k.tcb k.runTask).taskID then [.schedule] else [])
  | e => k.done e

/-! ## The end of a task -/

/-- `LOS_TaskJoin` up to its wait. -/
def taskJoin (t : Nat) : State :=
  match k.checkTaskIDValid t with
  | .ok =>
    if k.losTaskLock != 0 then k.done .tskSchedLocked
    else if t = (k.tcb k.runTask).taskID then k.done .tskNotJoinSelf
    else if (k.st t).unused then k.done .tskNotCreated
    else if (k.st t).exit then k.push [.schedule, .joinFree t]
    else if (k.st t).joinable && k.heap.isEmpty (.joinList t) then
      (k.onSched (·.taskWait (.joinList t) waitForever)).push [.schedule, .joinFree t]
    else k.done .nok
  | e => k.done e

/-- `LOS_TaskJoin` behind its wait. -/
def joinFree (t : Nat) : State :=
  let k := k.onSched (·.setSt t fun st => { st with joinable := false })
  let p := (k.tcb t).stackToFree
  ((k.onSched (·.recycleTaskResources t)).done .ok).push [.memFree p]

/-- `LOS_TaskDetach`. -/
def taskDetach (t : Nat) : State :=
  match k.checkTaskIDValid t with
  | .ok =>
    if (k.st t).unused then k.done .tskNotCreated
    else if (k.st t).exit then k.push [.taskJoin t]
    else if (k.st t).joinable then
      if k.heap.isEmpty (.joinList t) then
        (k.onSched fun s =>
          (s.setHeap (s.heap.delete (.joinList t))).setSt t fun st => { st with joinable := false }).done .ok
      else k.done .tskNotJoin
    else k.done .nok
  | e => k.done e

/-- `LOS_TaskDelete`. What the task still had to do is dropped. -/
def taskDelete (t : Nat) : State :=
  match k.checkTaskIDValid t with
  | .ok =>
    if (k.st t).systemTask then k.done .tskOperateSystemTask
    else if (k.st t).unused then k.done .tskNotCreated
    else if (k.st t).exit then k.done .tskAlreadyExit
    else
      let k :=
        if (k.st t).running && k.losTaskLock != 0 then k.onSched ({ · with losTaskLock := 0 }) else k
      let k := k.onSched (·.taskJoinPost t)
      let k := k.onSched (·.taskExit t)
      let k := k.onSched (·.setTCB t fun c => { c with eventMask := 0 })
      let k := k.setTodo t []
      if (k.st t).running then
        let k :=
          if !(k.st t).joinable then
            k.onSched fun s => (s.setSt t fun st => { st with unused := true }).runningTaskDelete t
          else k
        k.setTodo k.runTask [.schedule]
      else
        let p := (k.tcb t).stackToFree
        ((k.onSched (·.recycleTaskResources t)).done .ok).push [.memFree p]
  | e => k.done e

/-! ## The running task -/

/-- `LOS_TaskYield`. -/
def taskYield : State := ((k.onSched (·.yield)).done .ok).push [.schedule]

/-- `LOS_TaskDelay`. -/
def taskDelay (tick : Nat) : State :=
  if k.losTaskLock != 0 then k.done .tskDelayInLock
  else if (k.st k.runTask).systemTask then k.done .tskOperateSystemTask
  else if tick = 0 then k.taskYield
  else ((k.onSched (·.delay tick)).done .ok).push [.schedule]

/-- `LOS_TaskPriSet`. -/
def taskPriSet (t prio : Nat) : State :=
  if prio > taskPriorityLowest then k.done .tskPriorError
  else if t = k.idleTaskID then k.done .tskOperateSystemTask
  else if t ≥ taskMaxNum then k.done .tskIdInvalid
  else if (k.st t).unused then k.done .tskNotCreated
  else if (k.st t).systemTask then k.done .tskOperateSystemTask
  else
    let isReady := k.modifyNeedsSchedule t
    ((k.onSched (·.modifyTaskSchedParam t prio)).done .ok).push (if isReady then [.schedule] else [])

/-- `LOS_TaskLock`; `g_losTaskLock` is a 16-bit counter. -/
def taskLock : State := k.onSched fun s => { s with losTaskLock := (s.losTaskLock + 1) % 2 ^ 16 }

/-- `LOS_TaskUnlock`. -/
def taskUnlock : State :=
  if k.losTaskLock > 0 then
    (k.onSched fun s => { s with losTaskLock := s.losTaskLock - 1 }).push
      (if k.losTaskLock = 1 then [.schedule] else [])
  else k

end State

end LiteosM.Kernel
