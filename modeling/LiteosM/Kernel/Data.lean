import Mathlib.Algebra.Group.Nat.Defs
import LiteosM.Lib.Ring

/-!
# The kernel's data

The control blocks and global variables that the scheduler (`los_sched.c`, `los_sortlink.c`), the
task calls (`los_task.c`) and the IPC calls (`los_sem.c`, `los_mux.c`, `los_queue.c`,
`los_event.c`) work on. A pointer to a control block is its index. `LOS_DL_LIST` nodes and heads
are `Node`s of one pointer heap, so that a node in the wrong list, in two lists or unlinked twice
shows in the heap as it does in memory.

The unused semaphores, mutexes and queues are kept as plain lists of indices: those nodes never
meet a task's. Left out: the fields nothing here reads (names, entry functions, arguments, stack
pointers, `joinRetval`, `msg`), the event block inside each task control block (only the CMSIS
layer hands it to `LOS_EventRead`), the bytes of queue messages, and, with `LOSCFG_KERNEL_PM` and
`LOSCFG_KERNEL_SIGNAL` off, the freeze and signal flags.

The constants are those of the board's `target_config.h`.
-/

namespace LiteosM.Kernel

open LiteosM.Lib Function

/-! ## Configuration -/

/-- `g_taskMaxNum`, that is `LOSCFG_BASE_CORE_TSK_LIMIT + 1`. The task control block of this index
is the one `g_losTask.runTask` points to while no task runs. -/
def taskMaxNum : Nat := 25

/-- `OS_PRIORITY_QUEUE_NUM`. -/
def priorityQueueNum : Nat := 32

/-- `OS_TASK_PRIORITY_LOWEST`. -/
def taskPriorityLowest : Nat := 31

/-- `LOSCFG_BASE_IPC_SEM_LIMIT`. -/
def semLimit : Nat := 48

/-- `LOSCFG_BASE_IPC_MUX_LIMIT`. -/
def muxLimit : Nat := 24

/-- `LOSCFG_BASE_IPC_QUEUE_LIMIT`. -/
def queueLimit : Nat := 24

/-- `SECUREC_MEM_MAX_LEN`: `memset_s` and `memcpy_s` refuse a larger buffer. -/
def securecMemMaxLen : Nat := 0x7FFFFFFF

/-- `LOSCFG_BASE_CORE_TICK_PER_SECOND`. -/
def tickPerSecond : Nat := 100

/-- `LOSCFG_SYS_HEAP_SIZE`. -/
def sysHeapSize : Nat := 0x40000

/-- `LOSCFG_BASE_CORE_TSK_DEFAULT_STACK_SIZE`. -/
def tskDefaultStackSize : Nat := 0x1000

/-- `LOSCFG_BASE_CORE_TSK_MIN_STACK_SIZE`. -/
def tskMinStackSize : Nat := 0x130

/-- `OS_SORT_LINK_INVALID_TIME`, `OS_SORT_LINK_UINT64_MAX` and `OS_SCHED_MAX_RESPONSE_TIME`. -/
def invalidTime : Nat := 2 ^ 64 - 1

/-- `OS_INVALID`. -/
def osInvalid : Nat := 2 ^ 32 - 1

/-- `LOS_WAIT_FOREVER`; `LOS_NO_WAIT` is 0. -/
def waitForever : Nat := 2 ^ 32 - 1

/-! ## Lists -/

/-- `OS_QUEUE_READ` and `OS_QUEUE_WRITE`. -/
inductive ReadWrite where
  | read
  | write
  deriving DecidableEq, Repr

/-- `!readWrite`. -/
def ReadWrite.other : ReadWrite → ReadWrite
  | .read => .write
  | .write => .read

/-- The `LOS_DL_LIST` fields and variables: list heads first, then the two nodes of a task. -/
inductive Node where
  | priQueue (p : Nat)
  | losFreeTask
  | taskRecycleList
  | taskSortLink
  | semList (i : Nat)
  | muxList (i : Nat)
  | readWriteList (q : Nat) (rw : ReadWrite)
  | stEventList (e : Nat)
  | joinList (t : Nat)
  | pendList (t : Nat)
  | sortList (t : Nat)
  deriving DecidableEq, Repr

/-- The lists a task waits in: of an IPC object, or for the end of a task. -/
def Node.isWait : Node → Bool
  | .semList _ | .muxList _ | .readWriteList _ _ | .stEventList _ | .joinList _ => true
  | _ => false

/-- The node is the head of a list, not an element. -/
def Node.isHead : Node → Bool
  | .pendList _ | .sortList _ => false
  | _ => true

/-! ## Control blocks -/

/-- The bits of `taskStatus`: `OS_TASK_STATUS_*`, then the attributes `OS_TASK_FLAG_*`. -/
structure TaskStatus where
  unused : Bool
  suspend : Bool
  ready : Bool
  pend : Bool
  running : Bool
  delay : Bool
  timeout : Bool
  pendTime : Bool
  exit : Bool
  joinable : Bool
  stackFree : Bool
  systemTask : Bool
  deriving DecidableEq, Repr

/-- No bit set. -/
def TaskStatus.zero : TaskStatus :=
  ⟨false, false, false, false, false, false, false, false, false, false, false, false⟩

/-- `OS_TASK_STATUS_UNUSED` alone, the status of a control block in the free list. -/
def TaskStatus.onlyUnused : TaskStatus := { TaskStatus.zero with unused := true }

/-- `OS_TASK_BLOCKED_STATUS`. -/
def TaskStatus.blocked (st : TaskStatus) : Bool := st.pend || st.suspend || st.exit || st.unused

/-- A stack address: null, given by the caller, or from `LOS_MemAllocAlign`, whose results are
numbered in the order they are handed out. -/
inductive StackPtr where
  | null
  | user (addr : Nat)
  | heap (n : Nat)
  deriving DecidableEq, Repr

/-- `LosTaskCB`. -/
structure LosTaskCB where
  taskStatus : TaskStatus
  priority : Nat
  timeSlice : Int
  waitTimes : Nat
  /-- `sortList.responseTime`. -/
  responseTime : Nat
  startTime : Nat
  topOfStack : StackPtr
  taskID : Nat
  taskSem : Option Nat
  taskMux : Option Nat
  eventMask : BitVec 32
  eventMode : BitVec 32
  deriving DecidableEq, Repr

/-- A control block as `memset_s` leaves it. -/
def LosTaskCB.zero : LosTaskCB :=
  ⟨.zero, 0, 0, 0, 0, 0, .null, 0, none, none, 0, 0⟩

/-- `LosSemCB`. -/
structure LosSemCB where
  /-- `semStat == OS_SEM_USED`. -/
  used : Bool
  semCount : Nat
  maxSemCount : Nat
  deriving DecidableEq, Repr

/-- `LosMuxCB`. -/
structure LosMuxCB where
  used : Bool
  muxCount : Nat
  owner : Option Nat
  priority : Nat
  deriving DecidableEq, Repr

/-- `LosQueueCB`, without the buffer. -/
structure LosQueueCB where
  used : Bool
  queueLen : Nat
  queueSize : Nat
  /-- `readWriteableCnt[OS_QUEUE_READ]`. -/
  readable : Nat
  /-- `readWriteableCnt[OS_QUEUE_WRITE]`. -/
  writeable : Nat
  deriving DecidableEq, Repr

/-- `readWriteableCnt[rw]`. -/
def LosQueueCB.readWriteableCnt (q : LosQueueCB) : ReadWrite → Nat
  | .read => q.readable
  | .write => q.writeable

/-- Writes `readWriteableCnt[rw]`. -/
def LosQueueCB.setCnt (q : LosQueueCB) : ReadWrite → Nat → LosQueueCB
  | .read, n => { q with readable := n }
  | .write, n => { q with writeable := n }

/-- `TSK_INIT_PARAM_S`, with what the two null tests and the comparison with `OS_IDLE_TASK_ENTRY`
see of the name and the entry function; `memory` says whether the heap can give a stack. -/
structure TskInitParam where
  named : Bool
  entry : Bool
  idleEntry : Bool
  usTaskPrio : Nat
  uwStackSize : Nat
  stackAddr : Nat
  joinable : Bool
  memory : Bool
  deriving DecidableEq, Repr

/-! ## Results of the calls -/

/-- The error codes, by the names of the source. -/
inductive ErrNo where
  | ok
  | nok
  | tskNoMemory
  | tskNameEmpty
  | tskEntryNull
  | tskPriorError
  | tskStkszTooLarge
  | tskStkszTooSmall
  | tskTcbUnavailable
  | tskIdInvalid
  | tskNotCreated
  | tskNotSuspended
  | tskAlreadySuspended
  | tskSuspendLocked
  | tskOperateSystemTask
  | tskSchedLocked
  | tskNotJoin
  | tskNotJoinSelf
  | tskAlreadyExit
  | tskDelayInLock
  | semInvalid
  | semOverflow
  | semAllBusy
  | semPended
  | semPendInLock
  | semPendInSystemTask
  | semUnavailable
  | semTimeout
  | muxInvalid
  | muxAllBusy
  | muxPended
  | muxPendInLock
  | muxPendInSystemTask
  | muxUnavailable
  | muxTimeout
  | queueSizeTooBig
  | queueParaIszero
  | queueCreateNoMemory
  | queueCbUnavailable
  | queueInvalid
  | queueNotFound
  | queueNotCreate
  | queueWriteSizeTooBig
  | queueBufferSizeTooBig
  | queueReadsizeIszero
  | queueWritesizeIszero
  | queueIsempty
  | queueIsfull
  | queuePendInLock
  | queueTimeout
  | queueInTskuse
  | queueInTskwrite
  | queueReadPtrNull
  | queueWritePtrNull
  | queueMailHandleInvalid
  | queueMailPtrInvalid
  | queueMailFreeError
  | eventNotInitialized
  | eventEventmaskInvalid
  | eventSetbitInvalid
  | eventFlagsInvalid
  | eventReadInSystemTask
  | eventReadInLock
  | eventReadTimeout
  | eventShouldNotDestroyed
  deriving DecidableEq, Repr

/-- What a call returns: an error code, or the events `LOS_EventRead` found. -/
inductive Ret where
  | code (e : ErrNo)
  | events (mask : BitVec 32)
  deriving DecidableEq, Repr

/-! ## Pieces of code

What a task executes without another task getting in between: one critical section, or what lies
between two of them. -/

/-- The critical sections. -/
inductive Sec where
  -- the calls
  | taskCreate (param : TskInitParam) (enqueue : Bool)
  | recycleFinishedTask
  | taskResume (t : Nat)
  | taskSuspend (t : Nat)
  | taskJoin (t : Nat)
  | taskDetach (t : Nat)
  | taskDelete (t : Nat)
  | taskDelay (tick : Nat)
  | taskYield
  | taskPriSet (t : Nat) (prio : Nat)
  | taskLock
  | taskUnlock
  | semCreate (count maxCount : Nat)
  | semDelete (i : Nat)
  | semPend (i : Nat) (timeout : Nat)
  | semPost (i : Nat)
  | muxCreate
  | muxDelete (i : Nat)
  | muxPend (i : Nat) (timeout : Nat)
  | muxPost (i : Nat)
  | queueCreate (len maxMsgSize : Nat) (memory : Bool)
  | queueDelete (q : Nat)
  | queueOperate (q : Nat) (rw : ReadWrite) (size : Nat) (timeout : Nat)
  | eventInit (e : Nat)
  | eventRead (e : Nat) (mask mode : BitVec 32) (timeout : Nat)
  | eventWrite (e : Nat) (events : BitVec 32)
  | eventDestroy (e : Nat)
  | eventClear (e : Nat) (mask : BitVec 32)
  -- what is left of a call
  | schedule
  | memFree (p : StackPtr)
  | createTake (param : TskInitParam) (enqueue : Bool)
  | newTaskInit (t : Nat) (param : TskInitParam) (enqueue : Bool)
  | insertTCBToFreeList (t : Nat)
  | createEnQueue (t : Nat)
  | joinFree (t : Nat)
  | semPended
  | muxPended
  | queuePended (q : Nat) (rw : ReadWrite)
  | eventReadLocked (e : Nat) (mask mode : BitVec 32) (timeout : Nat)
  | eventPended (e : Nat) (mask mode : BitVec 32)
  | eventWriteLocked (e : Nat) (events : BitVec 32)
  deriving DecidableEq, Repr

/-- The pieces a call starts with. -/
def Sec.isCall : Sec → Bool
  | .schedule | .memFree _ | .createTake _ _ | .newTaskInit _ _ _ | .insertTCBToFreeList _
  | .createEnQueue _ | .joinFree _ | .semPended | .muxPended | .queuePended _ _
  | .eventReadLocked _ _ _ _ | .eventPended _ _ _ | .eventWriteLocked _ _ => false
  | _ => true

/-! ## The state -/

/-- Why the machine stopped. -/
inductive Fault where
  /-- `LOS_ASSERT(!(taskCB->taskStatus & OS_TASK_STATUS_READY))`. -/
  | readyAssert
  /-- `LOS_ASSERT(currTime >= taskCB->startTime)`. -/
  | timeAssert
  /-- A pointer that points to no control block. -/
  | badPointer
  deriving DecidableEq, Repr

/-- The variables of the scheduler. -/
structure Sched where
  heap : Heap Node
  /-- `g_taskCBArray`. -/
  tcb : Nat → LosTaskCB
  queueBitmap : BitVec 32
  idleTaskID : Nat
  runTask : Nat
  newTask : Nat
  losTaskLock : Nat
  taskScheduled : Bool
  /-- What `OsGetCurrSchedTimeCycle` returns. -/
  currTime : Nat
  sysClock : Nat
  /-- `periodMax` of the tick timer. -/
  tickPeriodMax : Nat
  schedTimeSlice : Int
  schedTimeSliceMin : Int
  schedTickMinPeriod : Nat
  tickResponsePrecision : Nat
  schedResponseID : Nat
  schedResponseTime : Nat
  fault : Option Fault

/-- The whole kernel. -/
structure State extends Sched where
  sem : Nat → LosSemCB
  unusedSem : List Nat
  mux : Nat → LosMuxCB
  unusedMux : List Nat
  queue : Nat → LosQueueCB
  freeQueue : List Nat
  /-- `uwEventID` of the event control blocks. -/
  event : Nat → BitVec 32
  /-- What is left of the call each task is in. -/
  todo : Nat → List Sec
  /-- What the last call of each task returned. -/
  ret : Nat → Ret
  /-- How many stacks `LOS_MemAllocAlign` has handed out. -/
  allocated : Nat
  /-- The stacks given to `LOS_MemFree`, last first. -/
  freed : List StackPtr

namespace Sched

variable (s : Sched) (t : Nat)

/-- `taskCB->taskStatus`. -/
def st : TaskStatus := (s.tcb t).taskStatus

/-- Changes the control block of task `t`. -/
def setTCB (f : LosTaskCB → LosTaskCB) : Sched :=
  { s with tcb := update s.tcb t (f (s.tcb t)) }

/-- Changes the status of task `t`. -/
def setSt (f : TaskStatus → TaskStatus) : Sched :=
  s.setTCB t fun c => { c with taskStatus := f c.taskStatus }

/-- Replaces the lists. -/
def setHeap (h : Heap Node) : Sched := { s with heap := h }

/-- The code has gone wrong with `f`. -/
def raise (f : Fault) : Sched := { s with fault := some f }

@[simp] theorem setHeap_tcb (h : Heap Node) : (s.setHeap h).tcb = s.tcb := rfl

variable {s t} {u : Nat}

@[simp] theorem setTCB_self (f : LosTaskCB → LosTaskCB) : (s.setTCB t f).tcb t = f (s.tcb t) :=
  update_self ..

theorem setTCB_of_ne (h : u ≠ t) (f : LosTaskCB → LosTaskCB) : (s.setTCB t f).tcb u = s.tcb u :=
  update_of_ne h ..

@[simp] theorem setSt_self (f : TaskStatus → TaskStatus) :
    (s.setSt t f).tcb t = { s.tcb t with taskStatus := f (s.tcb t).taskStatus } :=
  update_self ..

theorem setTCB_st (f : LosTaskCB → LosTaskCB) : (s.setTCB t f).st t = (f (s.tcb t)).taskStatus :=
  congrArg _ (setTCB_self f)

theorem setSt_st (f : TaskStatus → TaskStatus) : (s.setSt t f).st t = f (s.st t) := congrArg _ (setSt_self f)

theorem setSt_of_ne (h : u ≠ t) (f : TaskStatus → TaskStatus) : (s.setSt t f).tcb u = s.tcb u :=
  update_of_ne h ..

end Sched

end LiteosM.Kernel
