import LiteosM.Port.Interrupt
import LiteosM.Port.Slots
import LiteosM.Lib.Run

/-!
# The host threads of the port

The back end `RTOS_BE.c` runs every kernel task on a host thread of its own and lets one of them go
at a time, by three mutexes, the signals `SIG_SUSPEND`, `SIG_RESUME` and `SIG_TICK`, and the
busy-wait flag `creat_not_done`. Here each host thread is a process with a list of atomic
instructions still to execute (`Thread.code`); the empty list is task or kernel code, from which
the thread may call the back end. Functions that search the slot table are instructions of their
own, which read the table when they are executed and put the rest of the function in front of the
code.

What is assumed of POSIX:
* a mutex is taken only when it is free, and an unlock frees it whoever calls it;
* a signal a thread sends to itself and does not block is handled before `pthread_kill` returns;
* a signal sent to another thread is outstanding until it arrives. It is taken by `sigwait` if the
  thread waits there, and else runs the thread's handler, which for `SIG_RESUME` does nothing.
  While the thread blocks the signal it stays outstanding;
* a handler runs with every signal blocked and restores the mask at its end.

Task code that is cancelled (`pthread_cancel`) ends; the clean-up it would run is not part of
this machine, where no slot is ever invalidated.
-/

namespace LiteosM.Port

open Function

/-- The mutexes of `RTOS_BE.c`. -/
inductive Mutex where
  | scheduler
  | systick
  | singleCore
  deriving DecidableEq, Repr

/-- The signals a thread blocks. -/
structure Mask where
  tick : Bool
  resume : Bool
  suspend : Bool
  deriving DecidableEq, Repr

/-- Nothing blocked. -/
def Mask.empty : Mask := ⟨false, false, false⟩

/-- `sigfillset`. -/
def Mask.full : Mask := ⟨true, true, true⟩

/-- The calls of `pthread_mutex_unlock(&systick_mutex)`. -/
inductive UnlockSite where
  /-- The end of `PMCU_BE_Task_Create`. -/
  | create
  /-- `Pthread_Schedule` called from task code. -/
  | scheduleTask
  /-- `Pthread_Schedule` called from the tick handler. -/
  | scheduleHandler
  /-- The end of `Systick_Signal_Handler`. -/
  | handlerEnd
  /-- The end of a `Systick_Signal_Handler` in which `Pthread_Schedule` went past its unlock. -/
  | handlerEndSwitched
  deriving DecidableEq, Repr

/-- What a host thread executes in one step. -/
inductive Instr where
  | disableIrq
  | enableIrq
  /-- `PMCU_BE_Thread_Disable_Tick`. -/
  | disableTick
  /-- `PMCU_BE_Thread_Enable_Tick`. -/
  | enableTick
  | lock (m : Mutex)
  /-- An unlock of `scheduler_mutex` or `single_core_mutex`. -/
  | unlock (m : Mutex)
  | unlockSystick (site : UnlockSite)
  /-- `creat_not_done = v`. -/
  | setCreat (v : Bool)
  /-- `while (creat_not_done) sleep(0);`. -/
  | waitCreat
  /-- `pthread_kill(pthread_self(), SIG_SUSPEND)`. -/
  | killSuspend
  /-- `ResumeThread(t)`. -/
  | resumeThread (t : Tid)
  /-- The way into `sigwait`. -/
  | enterSigwait
  /-- Waiting in `sigwait` for `SIG_RESUME`. -/
  | sigwait
  /-- The `first_time` test of `PMCU_BE_Task_Create` for task `id`. -/
  | createSetup (id : Nat)
  /-- `Setup_Signal_Handler` after its lock, and `first_time = 0`. -/
  | setupSlots
  /-- The slot search of `PMCU_BE_Task_Create`. -/
  | createSlot (id : Nat)
  /-- `valid = 1` and `pthread_create` for slot `i`. -/
  | createThread (i : Nat)
  /-- `Setup_Ticker`. -/
  | setupTicker
  /-- The search of `Start_Scheduler`. -/
  | startSearch (id : Nat)
  /-- The end of `Start_Scheduler`: the thread destroys the mutexes and ends. -/
  | teardown
  /-- `Pthread_Schedule(new, run)` up to its first search and test. -/
  | scheduleNew (new run : Nat) (inTick : Bool)
  /-- The second search of `Pthread_Schedule`. -/
  | scheduleRun (run : Nat)
  /-- `pthread_exit(0)`. -/
  | exitThread
  /-- `pthread_cancel(t)`. -/
  | cancelThread (t : Tid)
  /-- The `interrupt_flag` test of `Systick_Signal_Handler`; `sw` is the switch the kernel's tick
  handler will ask for. -/
  | tickCheck (sw : Option (Nat × Nat))
  /-- `pthread_mutex_trylock(&systick_mutex)` and the handler behind it. -/
  | tickTrylock (sw : Option (Nat × Nat))
  /-- Return from a signal handler. -/
  | sigreturn (mask : Mask)
  deriving DecidableEq, Repr

/-! ## The code of `RTOS_BE.c` -/

/-- `Suspend_Thread_Self`. -/
@[simp] def suspendThreadSelf : List Instr :=
  [.disableIrq, .disableTick, .unlock .singleCore, .enterSigwait, .sigwait, .lock .singleCore,
    .enableTick, .enableIrq]

/-- `Suspend_Thread(pthread_self())`. -/
def suspendThread : List Instr :=
  [.lock .scheduler, .setCreat true, .unlock .scheduler, .killSuspend, .waitCreat]

/-- `Suspend_Signal_Handler`. -/
@[simp] def suspendSignalHandler : List Instr :=
  [.setCreat false, .unlock .singleCore, .enterSigwait, .sigwait, .lock .singleCore, .enableIrq]

/-- `Thread_Wrapper` up to the call of the task's entry function. -/
def threadWrapper : List Instr := .lock .singleCore :: suspendThread

/-- `PMCU_BE_Task_Create`, up to its slot search. -/
def pmcuBeTaskCreate (id : Nat) : List Instr :=
  [.disableIrq, .lock .systick, .createSetup id]

/-- `PMCU_BE_Task_Create` after its slot search. -/
def createTail (i : Nat) : List Instr :=
  [.createThread i, .setCreat true, .unlock .singleCore, .waitCreat, .lock .singleCore, .enableIrq,
    .unlockSystick .create]

/-- `Start_Scheduler`. -/
def startScheduler (id : Nat) : List Instr := [.setupTicker, .startSearch id]

/-- `Pthread_Schedule` after it has found the thread `t` to resume. -/
def scheduleTail (t : Tid) (run : Nat) (inTick : Bool) : List Instr :=
  [.resumeThread t, .unlockSystick (if inTick then .scheduleHandler else .scheduleTask), .enableIrq,
    .scheduleRun run]

/-- `Systick_Signal_Handler` after its `trylock` has succeeded. -/
def systickBody (sw : Option (Nat × Nat)) : List Instr :=
  .disableIrq :: (sw.elim [] fun p => [.scheduleNew p.1 p.2 true]) ++
    [.unlockSystick .handlerEnd, .enableIrq]

/-- The rest of a tick handler once `Pthread_Schedule` has released the lock inside it. -/
def markSwitched : List Instr → List Instr
  | .unlockSystick .handlerEnd :: rest => .unlockSystick .handlerEndSwitched :: rest
  | c => c

/-! ## States -/

/-- A host thread. `holdsCore` says that it has locked `single_core_mutex` and has not unlocked it
since. -/
structure Thread where
  code : List Instr
  mask : Mask
  resumePending : Bool
  suspendPending : Bool
  holdsCore : Bool
  alive : Bool
  deriving DecidableEq, Repr

/-- A thread number not in use. -/
@[simp] def Thread.absent : Thread := ⟨[], .empty, false, false, false, false⟩

/-- The globals of `RTOS_BE.c` and the host threads. `aborted` is a failed `assert`. -/
structure Machine where
  irq : Irq
  slots : Slots
  firstTime : Bool
  creatNotDone : Bool
  tickerOn : Bool
  owner : Mutex → Option Tid
  thread : Tid → Thread
  nextTid : Tid
  aborted : Bool

/-- The initial thread. -/
def initThread : Tid := 1

/-- The start of the program: the initial thread alone, in kernel code. -/
def Machine.boot : Machine where
  irq := Irq.init
  slots := Slots.zero
  firstTime := true
  creatNotDone := false
  tickerOn := false
  owner := fun _ => none
  thread := update (fun _ => Thread.absent) initThread { Thread.absent with alive := true }
  nextTid := 2
  aborted := false

namespace Machine

/-- Thread `t` with `f` applied to it. -/
@[simp] def modify (m : Machine) (t : Tid) (f : Thread → Thread) : Machine :=
  { m with thread := update m.thread t (f (m.thread t)) }

/-- Thread `t` goes on with `c`. -/
@[simp] def goto (m : Machine) (t : Tid) (c : List Instr) : Machine :=
  m.modify t fun th => { th with code := c }

/-- `assert(0)`. -/
def abort (m : Machine) : Machine := { m with aborted := true }

/-- Thread `t` has taken mutex `mu`. -/
@[simp] def take (m : Machine) (t : Tid) (mu : Mutex) : Machine :=
  { m.modify t fun th => { th with holdsCore := th.holdsCore || mu == Mutex.singleCore } with
    owner := update m.owner mu (some t) }

/-- Thread `t` has unlocked mutex `mu`. -/
@[simp] def release (m : Machine) (t : Tid) (mu : Mutex) : Machine :=
  { m.modify t fun th => { th with holdsCore := th.holdsCore && mu != Mutex.singleCore } with
    owner := update m.owner mu none }

/-- Thread `t` enters a signal handler with code `h`. -/
def handle (m : Machine) (t : Tid) (h : List Instr) (rest : List Instr) : Machine :=
  m.modify t fun th => { th with code := h ++ .sigreturn th.mask :: rest, mask := .full }

/-- Thread `t` executes `i` and goes on with `rest`; `none` while it has to wait. -/
def instr (m : Machine) (t : Tid) (i : Instr) (rest : List Instr) : Option Machine :=
  match i with
  | .disableIrq => some { m.goto t rest with irq := (pmcuBeDisableIrq m.irq).2 }
  | .enableIrq => some { m.goto t rest with irq := (pmcuBeEnableIrq m.irq).2 }
  | .disableTick => some (m.modify t fun th =>
      { th with code := rest, mask := { th.mask with tick := true } })
  | .enableTick => some (m.modify t fun th =>
      { th with code := rest, mask := { th.mask with tick := false } })
  | .lock mu => if m.owner mu = none then some ((m.take t mu).goto t rest) else none
  | .unlock mu => some ((m.release t mu).goto t rest)
  | .unlockSystick _ => some ((m.release t .systick).goto t rest)
  | .setCreat v => some { m.goto t rest with creatNotDone := v }
  | .waitCreat => if m.creatNotDone then none else some (m.goto t rest)
  | .killSuspend =>
    if (m.thread t).mask.suspend then
      some (m.modify t fun th => { th with code := rest, suspendPending := true })
    else some (m.handle t suspendSignalHandler rest)
  | .resumeThread u =>
    if u = t then some (m.goto t rest)
    else some ((m.modify u fun th => { th with resumePending := true }).goto t rest)
  | .enterSigwait => some (m.goto t rest)
  | .sigwait =>
    if (m.thread t).resumePending then
      some (m.modify t fun th => { th with code := rest, resumePending := false })
    else none
  | .createSetup id =>
    some (m.goto t (if m.firstTime then .lock .singleCore :: .setupSlots :: .createSlot id :: rest
      else .createSlot id :: rest))
  | .setupSlots => some { m.goto t rest with slots := Slots.zero, firstTime := false }
  | .createSlot id =>
    match m.slots.findFree with
    | none => some m.abort
    | some i => some { m.goto t (createTail i ++ rest) with
        slots := m.slots.modify i fun s => { s with criticalNesting := 0, taskid := id } }
  | .createThread i =>
    some { m.goto t rest with
      slots := m.slots.modify i fun s => { s with valid := true, thread := m.nextTid }
      thread := update (m.goto t rest).thread m.nextTid
        { Thread.absent with code := threadWrapper, mask := (m.thread t).mask, alive := true }
      nextTid := m.nextTid + 1 }
  | .setupTicker => some { m.goto t rest with tickerOn := true }
  | .startSearch id =>
    match m.slots.findValid id with
    | none => some (m.goto t (.teardown :: rest))
    | some i =>
      some (m.goto t (.resumeThread (m.slots.at i).thread :: suspendThread ++ .teardown :: rest))
  | .teardown => some (m.modify t fun th => { th with code := [], alive := false })
  | .scheduleNew new run inTick =>
    if new = run then some (m.goto t rest)
    else match m.slots.findValid new with
      | none => some m.abort
      | some i =>
        if (m.slots.at i).thread = t then some (m.goto t rest)
        else some (m.goto t (scheduleTail (m.slots.at i).thread run inTick ++
          (if inTick then markSwitched rest else rest)))
  | .scheduleRun run =>
    match m.slots.findTask run with
    | none => some (m.goto t rest)
    | some j =>
      if (m.slots.at j).valid then some (m.goto t (suspendThreadSelf ++ rest))
      else
        -- both branches for a slot that is not valid end by clearing it
        let cleared := { m with
          slots := m.slots.modify j fun s => { s with taskid := noTask, thread := 0 } }
        if (m.slots.at j).thread = t then
          some (cleared.goto t (.unlock .singleCore :: .exitThread :: rest))
        else some (cleared.goto t (.cancelThread (m.slots.at j).thread :: rest))
  | .exitThread => some (m.modify t fun th => { th with code := [], alive := false })
  | .cancelThread u =>
    some ((m.goto t rest).modify u fun th => { th with code := [], alive := false })
  | .tickCheck sw =>
    some (m.goto t (if m.irq.interruptFlag = 0 then rest else .tickTrylock sw :: rest))
  | .tickTrylock sw =>
    if m.owner .systick = none then some ((m.take t .systick).goto t (systickBody sw ++ rest))
    else some (m.goto t rest)
  | .sigreturn mask => some (m.modify t fun th => { th with code := rest, mask := mask })

end Machine

/-! ## Steps -/

/-- The functions of the back end that task or kernel code calls. -/
inductive Call where
  | create (id : Nat)
  | start (id : Nat)
  | schedule (new run : Nat)
  deriving DecidableEq, Repr

/-- The steps of the machine. -/
inductive Label where
  /-- Thread `t` executes its next instruction. -/
  | exec (t : Tid)
  /-- Thread `t`, in task or kernel code, calls the back end. -/
  | call (t : Tid) (c : Call)
  /-- An outstanding `SIG_RESUME` arrives at a thread that is not in `sigwait`. -/
  | resumeArrives (t : Tid)
  /-- An outstanding `SIG_SUSPEND` arrives. -/
  | suspendArrives (t : Tid)
  /-- `SIG_TICK` arrives at thread `t`; `sw` is the switch the kernel's tick handler asks for, any
  one at all: the kernel's running task may already be another one than `t`'s. -/
  | tick (t : Tid) (sw : Option (Nat × Nat))
  deriving DecidableEq, Repr

/-- Thread `t` executes its next `n` instructions. -/
def execs (t : Tid) (n : Nat) : List Label := List.replicate n (.exec t)

namespace Machine

/-- `run` is the ID of the task that thread `t` was created for. -/
def ownTask (m : Machine) (t : Tid) (run : Nat) : Bool :=
  m.slots.any fun s => s.thread == t && s.taskid == run

/-- Who may call what: any thread creates tasks, the initial thread starts the scheduler, and a
task's thread switches from its own task to another. -/
def mayCall (m : Machine) (t : Tid) : Call → Bool
  | .create _ => true
  | .start _ => t == initThread
  | .schedule _ run => m.ownTask t run

/-- The code of a call. -/
@[simp] def callCode : Call → List Instr
  | .create id => pmcuBeTaskCreate id
  | .start id => startScheduler id
  | .schedule new run => [.scheduleNew new run false]

/-- One step; `none` when the label is not enabled. -/
def step (m : Machine) (l : Label) : Option Machine :=
  if m.aborted then none
  else match l with
    | .exec t =>
      match (m.thread t).alive, (m.thread t).code with
      | true, i :: rest => m.instr t i rest
      | _, _ => none
    | .call t c =>
      if (m.thread t).alive && (m.thread t).code.isEmpty && m.mayCall t c then
        some (m.goto t (callCode c))
      else none
    | .resumeArrives t =>
      if (m.thread t).alive && (m.thread t).resumePending && !(m.thread t).mask.resume &&
          (m.thread t).code.head? != some .sigwait then
        some (m.modify t fun th => { th with resumePending := false })
      else none
    | .suspendArrives t =>
      if (m.thread t).alive && (m.thread t).suspendPending && !(m.thread t).mask.suspend then
        some ((m.modify t fun th => { th with suspendPending := false }).handle t
          suspendSignalHandler (m.thread t).code)
      else none
    | .tick t sw =>
      if m.tickerOn && (m.thread t).alive && !(m.thread t).mask.tick then
        some (m.handle t [.tickCheck sw] (m.thread t).code)
      else none

section Mutex

variable {m : Machine} {t : Tid} {c : List Instr} {mu : Mutex}

theorem take_goto_thread :
    ((m.take t mu).goto t c).thread = update m.thread t
      { m.thread t with code := c, holdsCore := (m.thread t).holdsCore || mu == .singleCore } := by
  simp only [take, goto, modify, update_self, update_idem]

theorem release_goto_thread :
    ((m.release t mu).goto t c).thread = update m.thread t
      { m.thread t with code := c, holdsCore := (m.thread t).holdsCore && mu != .singleCore } := by
  simp only [release, goto, modify, update_self, update_idem]

end Mutex

/-- What a step does. -/
theorem step_cases {m m' : Machine} {l : Label} (hs : m.step l = some m') : match l with
    | .exec t => ∃ i rest, (m.thread t).alive = true ∧ (m.thread t).code = i :: rest ∧ m.instr t i rest = some m'
    | .call t c => (m.thread t).alive = true ∧ (m.thread t).code = [] ∧ m.mayCall t c = true ∧ m.goto t (callCode c) = m'
    | .resumeArrives t => (m.thread t).alive = true ∧ (m.thread t).resumePending = true ∧
        m.modify t (fun th => { th with resumePending := false }) = m'
    | .suspendArrives t => (m.thread t).alive = true ∧ (m.thread t).suspendPending = true ∧
        (m.modify t fun th => { th with suspendPending := false }).handle t suspendSignalHandler (m.thread t).code = m'
    | .tick t sw => (m.thread t).alive = true ∧ m.handle t [.tickCheck sw] (m.thread t).code = m' := by
  unfold step at hs
  split_ifs at hs
  cases l with
  | exec t =>
    dsimp only at hs
    split at hs
    · rename_i i rest ha hc
      exact ⟨i, rest, ha, hc, hs⟩
    · cases hs
  | call | resumeArrives | suspendArrives | tick =>
    simp only [Option.ite_none_right_eq_some, Option.some.injEq, Bool.and_eq_true, List.isEmpty_iff] at hs
    simp only [hs, and_self]

/-- The ways through the first search of `Pthread_Schedule`. -/
theorem instr_scheduleNew {m m' : Machine} {t : Tid} {new run : Nat} {inTick : Bool} {rest : List Instr}
    (hi : m.instr t (.scheduleNew new run inTick) rest = some m') :
    m' = m.goto t rest ∨ m' = m.abort ∨
      ∃ j, m.slots.findValid new = some j ∧ (m.slots.at j).thread ≠ t ∧
        m' = m.goto t (scheduleTail (m.slots.at j).thread run inTick ++
          (if inTick then markSwitched rest else rest)) := by
  simp only [instr] at hi
  split at hi
  · exact .inl (Option.some.inj hi).symm
  cases hj : m.slots.findValid new with
  | none =>
    simp only [hj, Option.some.injEq] at hi
    exact .inr (.inl hi.symm)
  | some j =>
    simp only [hj] at hi
    split at hi
    · exact .inl (Option.some.inj hi).symm
    · rename_i hself
      exact .inr (.inr ⟨j, rfl, hself, (Option.some.inj hi).symm⟩)

end Machine

end LiteosM.Port
