import LiteosM.Kernel.Placed

/-!
# Signals

Model of `los_signal.c`. The calls come from tasks. Each critical section is one step; between two of them
another task may get the processor, unless the scheduler is locked. A task has the frames of its calls and
handlers on a stack, and a handler may call what a task may call. `ArchSignalContextInit` puts `SignalEntry`
on the stack of its task.

Of the scheduler the model has the bits of `taskStatus`, the list that `pendList` is linked in, and the
functions of `los_sched.c` that change them. Priorities are left out: they decide who runs, and here any
ready task may. The tasks wait for other objects as well, and are suspended and resumed.

Recorded beside the state are the signals that become pending (`accepted`), those that a `LOS_SignalWait`
returns (`consumed`) and those a handler is called for (`handled`), and whether the wait of a task has been
ended, by a signal or by its timeout (`ended`).
-/

namespace LiteosM.Components

open LiteosM.Lib LiteosM.Kernel Function

/-- `LOS_SIGNAL_SUPPORT_MAX`. -/
def signalSupportMax : Nat := 31

/-- `LOS_SIGNAL_MASK`. The shift by -1, for the number 0, counts modulo the width. -/
def signalMaskOf (sigNo : Nat) : BitVec 32 := 1#32 <<< ((sigNo + 31) % 32)

/-- `OS_SIGNAL_VALID`. -/
def signalValid (sigNo : Nat) : Bool := 0 < sigNo && sigNo ≤ signalSupportMax

/-- The signal that `CLZ` finds in a set. -/
def topSignal (flag : BitVec 32) : Nat := signalSupportMax - clz flag + 1

/-- A signal is in a set. -/
def inSet (flag : BitVec 32) (sigNo : Nat) : Bool := flag &&& signalMaskOf sigNo ≠ 0

/-- `SIG_IGN`, `SIG_DFL` or a function. -/
inductive SigHandler where
  | ign
  | dfl
  | fn (f : Nat)
  deriving DecidableEq, Repr

/-- `SIG_BLOCK`, `SIG_SETMASK`, `SIG_UNBLOCK` or another number. -/
inductive SigHow where
  | block
  | setmask
  | unblock
  | other
  deriving DecidableEq, Repr

/-- What the calls return. -/
inductive SigRet where
  | ok
  | invalid
  | noMemory
  | noSet
  | timeout
  | sigErr
  | signal (sigNo : Nat)
  deriving DecidableEq, Repr

/-- `OsSigCB`. Of a `siginfo_t` only `si_signo` varies; a handler that is `none` is `NULL`, and 0 is
`SignalDefaultHandler`. -/
structure OsSigCB where
  sigSetFlag : BitVec 32
  sigPendFlag : BitVec 32
  sigWaitFlag : BitVec 32
  sigInfo : Nat
  sigHandlers : Nat → Option Nat
  sigInfoList : List Nat
  /-- `sigStatus & OS_SIGNAL_STATUS_WAIT`. -/
  sigWait : Bool

namespace OsSigCB

variable (cb : OsSigCB)

/-- What `SignalCBInit` makes. -/
def init : OsSigCB := ⟨0, 0, 0, 0, fun _ => some 0, [], false⟩

/-- `DeleteSigInfoFromList`. -/
def deleteSigInfo (sigNo : Nat) : OsSigCB :=
  if sigNo ∈ cb.sigInfoList then { cb with sigInfoList := cb.sigInfoList.erase sigNo, sigInfo := sigNo } else cb

/-- A signal is pending. -/
def pending (sigNo : Nat) : Bool := inSet cb.sigPendFlag sigNo

end OsSigCB

/-- The list that a `pendList` is linked in: `g_waitSignalList`, a ready queue or that of another object. -/
inductive PendList where
  | waitSignal
  | ready
  | other
  deriving DecidableEq, Repr

/-- Where a task is, one for each call on its stack. -/
inductive SigFrame where
  /-- Between the two sections of `LOS_SignalSend`. -/
  | send (target sigNo : Nat)
  /-- In the `LOS_Schedule` of `SignalTimedWait`. -/
  | waiting
  /-- At the test of the loop of `SignalHandle`, the first time or `again`. -/
  | handle (cleanStatus again : Bool)
  /-- In a handler. -/
  | handler (sigNo : Nat)
  /-- At the end of `SignalEntry`. -/
  | entryEnd
  /-- In a wait for another object. -/
  | blocked
  deriving DecidableEq, Repr

/-- What the signals read and write of a task. -/
structure SigTask where
  ready : Bool
  pend : Bool
  pendTime : Bool
  suspend : Bool
  running : Bool
  timeout : Bool
  /-- `OS_TASK_FLAG_SIGNAL`. -/
  signal : Bool
  pendList : Option PendList
  sig : Option OsSigCB
  stack : List SigFrame
  ret : SigRet

/-- The tasks, the scheduler lock and, for each task and number, what became of the signals. -/
structure Signals where
  task : Nat → SigTask
  runTask : Nat
  losTaskLock : Nat
  accepted : Nat → Nat → Nat
  consumed : Nat → Nat → Nat
  handled : Nat → Nat → Nat
  ended : Nat → Bool
  /-- `OsSchedTaskWake` was applied to a task that is not in `g_waitSignalList`. -/
  badWake : Bool
  /-- The assertion of `OsSchedTaskEnQueue` has failed. -/
  assertFailed : Bool

/-- One more for a task and a signal. -/
def count (f : Nat → Nat → Nat) (t sigNo : Nat) : Nat → Nat → Nat :=
  fun u n => if u = t ∧ n = sigNo then f u n + 1 else f u n

namespace Signals

variable (s : Signals)

/-- Changes task `t`. -/
def setTask (t : Nat) (f : SigTask → SigTask) : Signals :=
  { s with task := update s.task t (f (s.task t)) }

/-- The call on top of the stack of `t` is over, or its first section was all of it. -/
def returns (t : Nat) (stack : List SigFrame) (ret : SigRet) : Signals :=
  s.setTask t fun c => { c with stack := stack, ret := ret }

/-- The control block that `SignalCBInit` finds or makes. -/
def signalCBInit (t : Nat) (alloc : Bool) : Option OsSigCB :=
  match (s.task t).sig with
  | some cb => some cb
  | none => if alloc then some .init else none

/-- Gives task `t` this `OsSigCB`. -/
def setCB (t : Nat) (cb : OsSigCB) : Signals := s.setTask t fun c => { c with sig := some cb }

/-! ## The scheduler -/

/-- `OsSchedTaskEnQueue`. -/
def taskEnQueue (t : Nat) : Signals :=
  { s with assertFailed := s.assertFailed || (s.task t).ready }.setTask t fun c =>
    { c with pendList := some .ready, pend := false, suspend := false, pendTime := false, ready := true }

/-- `OsSchedTaskDeQueue`. -/
def taskDeQueue (t : Nat) : Signals :=
  if (s.task t).ready then s.setTask t fun c => { c with pendList := none, ready := false } else s

/-- `OsSchedTaskWait` of the running task. -/
def taskWait (list : PendList) (forever : Bool) : Signals :=
  s.setTask s.runTask fun c =>
    { c with pend := true, pendList := some list, pendTime := c.pendTime || !forever }

/-- `OsSchedTaskWake`. -/
def taskWake (t : Nat) : Signals :=
  let s := s.setTask t fun c => { c with pendList := none, pend := false, pendTime := false }
  if !(s.task t).suspend && !(s.task t).running then s.taskEnQueue t else s

/-- `OsSchedWakePendTimeTask` of a task that waits. -/
def wakePendTimeTask (t : Nat) : Signals :=
  let s := { s with ended := update s.ended t true }.setTask t fun c =>
    { c with pend := false, pendTime := false, pendList := none, timeout := true }
  if !(s.task t).suspend then s.taskEnQueue t else s

/-- The running task goes back to its ready queue, unless it is blocked. -/
def putRunTask : Signals :=
  let t := s.runTask
  let s := s.setTask t fun c => { c with running := false }
  if (s.task t).pend || (s.task t).suspend then s else s.taskEnQueue t

/-- A switch to the task `t`. -/
def switch (t : Nat) : Signals :=
  { (s.putRunTask.taskDeQueue t).setTask t fun c => { c with running := true } with runTask := t }

/-! ## The calls of the running task -/

/-- `LOS_SignalSet`. -/
def signalSet (sigNo : Nat) (handler : SigHandler) (alloc : Bool) : Signals :=
  let t := s.runTask
  if !signalValid sigNo then s.returns t (s.task t).stack .sigErr
  else
    match s.signalCBInit t alloc with
    | none => s.returns t (s.task t).stack .sigErr
    | some cb =>
      let mask := signalMaskOf sigNo
      let cb :=
        match handler with
        | .ign =>
          { cb with sigHandlers := update cb.sigHandlers sigNo none,
                    sigSetFlag := cb.sigSetFlag &&& ~~~mask }
        | .dfl =>
          { cb with sigHandlers := update cb.sigHandlers sigNo (some 0),
                    sigSetFlag := cb.sigSetFlag ||| mask }
        | .fn f =>
          { cb with sigHandlers := update cb.sigHandlers sigNo (some f),
                    sigSetFlag := cb.sigSetFlag ||| mask }
      (s.setCB t cb).returns t (s.task t).stack .ok

/-- `LOS_SignalMask`. -/
def signalMask (how : SigHow) (set : Option (BitVec 32)) (alloc : Bool) : Signals :=
  let t := s.runTask
  match s.signalCBInit t alloc with
  | none => s.returns t (s.task t).stack .noMemory
  | some cb =>
    match set with
    | none => (s.setCB t cb).returns t (s.task t).stack .invalid
    | some set =>
      let flag :=
        match how with
        | .block => cb.sigSetFlag &&& ~~~set
        | .setmask => set
        | .unblock => cb.sigSetFlag ||| set
        | .other => cb.sigSetFlag
      (s.setCB t { cb with sigSetFlag := flag }).returns t (s.task t).stack .ok

/-- The first section of `LOS_SignalSend`. -/
def signalSend (target sigNo : Nat) (alloc allocInfo : Bool) : Signals :=
  let t := s.runTask
  if target ≥ taskMaxNum ∨ !signalValid sigNo then s.returns t (s.task t).stack .invalid
  else
    match s.signalCBInit target alloc with
    | none => s.returns t (s.task t).stack .noMemory
    | some cb =>
      let s := s.setCB target cb
      if !inSet cb.sigSetFlag sigNo then s.returns t (s.task t).stack .noSet
      else if sigNo ∈ cb.sigInfoList then s.returns t (.send target sigNo :: (s.task t).stack) .ok
      else if allocInfo then
        (s.setCB target { cb with sigInfoList := sigNo :: cb.sigInfoList }).returns t
          (.send target sigNo :: (s.task t).stack) .ok
      else s.returns t (s.task t).stack .noMemory

/-- `SignalSend`, which is the second section of `LOS_SignalSend`. -/
def signalSend2 (target sigNo : Nat) (stack : List SigFrame) : Signals :=
  let t := s.runTask
  match (s.task target).sig with
  | none => s.returns t stack .ok
  | some cb =>
    let s := if cb.pending sigNo then s else { s with accepted := count s.accepted target sigNo }
    let cb := { cb with sigPendFlag := cb.sigPendFlag ||| signalMaskOf sigNo }
    let s := s.setCB target cb
    if target = t then
      (s.setTask t fun c => { c with signal := true }).returns t (.handle true false :: stack) .ok
    else if cb.sigWait then
      if inSet cb.sigWaitFlag sigNo then
        -- The wait of the target ends, if it has not ended yet.
        let s := s.setCB target (cb.deleteSigInfo sigNo)
        let s := { s with
          ended := update s.ended target true
          badWake := s.badWake || decide ((s.task target).pendList ≠ some PendList.waitSignal) }
        ((s.taskWake target).setTask target fun c => { c with signal := true }).returns t stack .ok
      else s.returns t stack .ok
    else if !(s.task target).signal then
      (s.setTask target fun c =>
        { c with signal := true, stack := .handle false false :: .entryEnd :: c.stack }).returns t stack .ok
    else s.returns t stack .ok

/-- `LOS_SignalWait` up to its end or its `LOS_Schedule`. -/
def signalWait (set : Option (BitVec 32)) (timeout : Nat) (alloc : Bool) : Signals :=
  let t := s.runTask
  match set with
  | none => s.returns t (s.task t).stack .invalid
  | some set =>
    if set = 0 then s.returns t (s.task t).stack .invalid
    else
      match s.signalCBInit t alloc with
      | none => s.returns t (s.task t).stack .noMemory
      | some cb =>
        let sigFlag := cb.sigPendFlag &&& set
        if sigFlag ≠ 0 then
          let sigNo := topSignal sigFlag
          let cb := { cb with sigPendFlag := cb.sigPendFlag ^^^ sigFlag }.deleteSigInfo sigNo
          ({ s with consumed := count s.consumed t sigNo }.setCB t cb).returns t (s.task t).stack (.signal sigNo)
        else if timeout = 0 then (s.setCB t cb).returns t (s.task t).stack .invalid
        else
          let cb := { cb with sigWaitFlag := cb.sigWaitFlag ||| set, sigWait := true }
          (({ s with ended := update s.ended t false }.setCB t cb).taskWait .waitSignal
            (timeout = waitForever)).returns t (.waiting :: (s.task t).stack) .ok

/-- The rest of `SignalTimedWait`. -/
def signalWaited (stack : List SigFrame) : Signals :=
  let t := s.runTask
  match (s.task t).sig with
  | none => s
  | some cb =>
    let s := s.setTask t fun c => { c with signal := false }
    let cb := { cb with sigWait := false, sigWaitFlag := 0 }
    if (s.task t).timeout then
      ((s.setCB t cb).setTask t fun c => { c with timeout := false }).returns t stack .timeout
    else
      let sigNo := cb.sigInfo
      let cb := { cb with sigPendFlag := cb.sigPendFlag &&& ~~~signalMaskOf sigNo }
      ({ s with consumed := count s.consumed t sigNo }.setCB t cb).returns t stack (.signal sigNo)

/-- One round of the loop of `SignalHandle`, up to the call of the handler. -/
def signalHandle (cleanStatus again : Bool) (stack : List SigFrame) : Signals :=
  let t := s.runTask
  match (s.task t).sig with
  | none => s.returns t stack (s.task t).ret
  | some cb =>
    let s := if cleanStatus && again then s.setTask t fun c => { c with signal := false } else s
    let sigFlag := cb.sigPendFlag &&& cb.sigSetFlag
    if sigFlag = 0 then s.returns t stack (s.task t).ret
    else
      let sigNo := topSignal sigFlag
      let cb := cb.deleteSigInfo sigNo
      let handler := cb.sigHandlers sigNo
      let s := s.setCB t { cb with sigPendFlag := cb.sigPendFlag &&& ~~~signalMaskOf sigNo }
      match handler with
      | none => s.returns t (.handle cleanStatus true :: stack) (s.task t).ret
      | some _ =>
        { s with handled := count s.handled t sigNo }.returns t
          (.handler sigNo :: .handle cleanStatus true :: stack) (s.task t).ret

/-- The next section of the running task. -/
def runSection : Option Signals :=
  let t := s.runTask
  match (s.task t).stack with
  | .send target sigNo :: stack => some (s.signalSend2 target sigNo stack)
  | .waiting :: stack => some (s.signalWaited stack)
  | .handle cleanStatus again :: stack => some (s.signalHandle cleanStatus again stack)
  | .handler _ :: stack => some (s.returns t stack (s.task t).ret)
  | .entryEnd :: stack => some ((s.setTask t fun c => { c with signal := false }).returns t stack (s.task t).ret)
  | .blocked :: stack => some ((s.setTask t fun c => { c with timeout := false }).returns t stack (s.task t).ret)
  | [] => none

/-- The running task is in code of its own or in a handler. -/
def mayCall : Bool :=
  match (s.task s.runTask).stack with
  | [] | .handler _ :: _ => true
  | _ => false

/-- The running task goes on: it is not blocked, or `LOS_Schedule` does not switch. -/
def goesOn : Bool :=
  (!(s.task s.runTask).pend && !(s.task s.runTask).suspend) || s.losTaskLock ≠ 0

end Signals

/-- A call of the running task, its next section, a switch or the tick. -/
inductive SigLabel where
  | set (sigNo : Nat) (handler : SigHandler) (alloc : Bool)
  | mask (how : SigHow) (set : Option (BitVec 32)) (alloc : Bool)
  | send (target sigNo : Nat) (alloc allocInfo : Bool)
  | wait (set : Option (BitVec 32)) (timeout : Nat) (alloc : Bool)
  /-- The next section of the running task, or the return of its handler. -/
  | run
  | switch (t : Nat)
  /-- A timeout. -/
  | expire (t : Nat)
  | suspend (t : Nat)
  | resume (t : Nat)
  /-- The running task waits for another object. -/
  | block (forever : Bool)
  /-- A task that waits for another object gets it. -/
  | wake (t : Nat)
  | lock
  | unlock
  deriving DecidableEq

namespace Signals

variable (s : Signals)

/-- One step; only the running task calls and goes on. -/
def step : SigLabel → Option Signals
  | .set sigNo handler alloc => if s.goesOn ∧ s.mayCall then some (s.signalSet sigNo handler alloc) else none
  | .mask how set alloc => if s.goesOn ∧ s.mayCall then some (s.signalMask how set alloc) else none
  | .send target sigNo alloc allocInfo =>
    if s.goesOn ∧ s.mayCall then some (s.signalSend target sigNo alloc allocInfo) else none
  | .wait set timeout alloc => if s.goesOn ∧ s.mayCall then some (s.signalWait set timeout alloc) else none
  | .run => if s.goesOn then s.runSection else none
  | .switch t => if s.losTaskLock = 0 ∧ (s.task t).ready then some (s.switch t) else none
  | .expire t =>
    if (s.task t).pend ∧ (s.task t).pendTime ∧ !(s.task t).running then some (s.wakePendTimeTask t) else none
  | .suspend t =>
    if s.goesOn ∧ s.mayCall ∧ !(s.task t).suspend ∧ (t = s.runTask → s.losTaskLock = 0) then
      some ((s.taskDeQueue t).setTask t fun c => { c with suspend := true })
    else none
  | .resume t =>
    if s.goesOn ∧ s.mayCall ∧ (s.task t).suspend then
      let s := s.setTask t fun c => { c with suspend := false }
      some (if (s.task t).pend then s else s.taskEnQueue t)
    else none
  | .block forever =>
    if s.goesOn ∧ s.mayCall ∧ s.losTaskLock = 0 then
      some ((s.taskWait .other forever).returns s.runTask (.blocked :: (s.task s.runTask).stack)
        (s.task s.runTask).ret)
    else none
  | .wake t => if s.goesOn ∧ s.mayCall ∧ (s.task t).pendList = some .other then some (s.taskWake t) else none
  | .lock => if s.goesOn ∧ s.mayCall then some { s with losTaskLock := (s.losTaskLock + 1) % 2 ^ 16 } else none
  | .unlock =>
    if s.goesOn ∧ s.mayCall ∧ s.losTaskLock ≠ 0 then some { s with losTaskLock := s.losTaskLock - 1 } else none

/-- All tasks are ready but one, which runs. -/
def init : Signals where
  task t := ⟨t ≠ 0, false, false, false, t = 0, false, false, if t = 0 then none else some .ready, none, [], .ok⟩
  runTask := 0
  losTaskLock := 0
  accepted := fun _ _ => 0
  consumed := fun _ _ => 0
  handled := fun _ _ => 0
  ended := fun _ => true
  badWake := false
  assertFailed := false

end Signals

end LiteosM.Components
