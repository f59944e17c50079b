import LiteosM.Kernel.Data
import LiteosM.Kernel.SortLink
import LiteosM.Lib.Chain
import LiteosM.Lib.Run

/-!
# Software timers

`los_swtmr.c`, with the part of `los_sortlink.c` that it uses; `LOSCFG_BASE_CORE_SWTMR_ALIGN` is off.
An expiry is handled in two places: the tick interrupt (`OsSwtmrScan`) takes the timer out of the
sort link and copies its handler into a queue, and a task (`OsSwtmrTask`) reads the queue, compares
the ID of the item with that of the control block, gives a one-shot timer back and calls the handler.

The steps are whole calls of the API, the rounds of the loop of `OsSwtmrScan`, and what `OsSwtmrTask`
does between two points where it can be interrupted. The handler queue is a list of at most
`OS_SWTMR_HANDLE_QUEUE_SIZE` items: only `OsSwtmrTask` reads it, and the interrupt writes it without
waiting.

Premise: a call is not interrupted. `LOS_SwtmrStart`, `LOS_SwtmrStop` and `LOS_SwtmrDelete` lock interrupts
from their tests on; `LOS_SwtmrCreate` takes its block under the lock and fills it after
`LOS_IntRestore`, and what another step does to the block in between is out of scope.

* `Swtmr.swtmrScan_eq_exec`: a scan is a sequence of rounds.
-/

namespace LiteosM.Kernel

open LiteosM.Lib

/-- `LOSCFG_BASE_CORE_SWTMR_LIMIT`, which is also `OS_SWTMR_HANDLE_QUEUE_SIZE`. -/
def swtmrLimit : Nat := 48

/-- `OS_SWTMR_MAX_TIMERID`. -/
def swtmrMaxTimerID : Nat := 0xFFFFFFFF / swtmrLimit * swtmrLimit

/-- `LOS_SWTMR_MODE_ONCE`, `_PERIOD` and `_NO_SELFDELETE`. -/
inductive SwtmrMode where
  | once
  | period
  | noSelfDelete
  deriving DecidableEq, Repr

/-- `OS_SWTMR_STATUS_UNUSED`, `_CREATED` and `_TICKING`. -/
inductive SwtmrStatus where
  | unused
  | created
  | ticking
  deriving DecidableEq, Repr

/-- What is linked in `g_swtmrSortLink`: its head, and `stSortList` of the control blocks. -/
inductive SwtmrNode where
  | sortLink
  | timer (i : Nat)
  deriving DecidableEq, Repr

/-- `SWTMR_CTRL_S`. A pointer to the block with index `i` is the number `i + 1`, and 0 is `NULL`. -/
structure SwtmrCtrl where
  pstNext : Nat
  state : SwtmrStatus
  mode : SwtmrMode
  overrun : Nat
  timerID : Nat
  interval : UInt32
  arg : Nat
  handler : Nat
  /-- `stSortList.responseTime`. -/
  responseTime : Nat
  startTime : Nat
  deriving DecidableEq, Repr

/-- `SwtmrHandlerItem`, with the timer it came from. -/
structure SwtmrHandlerItem where
  handler : Nat
  arg : Nat
  swtmrID : Nat
  deriving DecidableEq, Repr

/-- Where `OsSwtmrTask` is. -/
inductive SwtmrPc where
  /-- In or before `LOS_QueueReadCopy`. -/
  | reading
  /-- It has read an item. -/
  | read (item : SwtmrHandlerItem)
  /-- It has compared the IDs and is about to call the handler. -/
  | calling (item : SwtmrHandlerItem)
  deriving DecidableEq, Repr

/-- The timers, their queue and the timer task. -/
structure Swtmr where
  /-- `g_swtmrCBArray`. -/
  cb : Nat → SwtmrCtrl
  freeList : Nat
  heap : Heap SwtmrNode
  /-- `g_swtmrHandlerQueue`. -/
  queue : List SwtmrHandlerItem
  pc : SwtmrPc
  /-- `OsGetCurrSchedTimeCycle()`. -/
  now : Nat
  sysClock : UInt32

/-- What the calls return. -/
inductive SwtmrRet where
  | ok
  | idInvalid
  | notCreated
  | notStarted
  | intervalNotSuited
  | modeInvalid
  | ptrNull
  | retPtrNull
  | maxSize
  deriving DecidableEq, Repr

namespace Swtmr

variable (s : Swtmr)

/-- Changes timer `i`. -/
def setCB (i : Nat) (f : SwtmrCtrl → SwtmrCtrl) : Swtmr :=
  { s with cb := Function.update s.cb i (f (s.cb i)) }

/-- Replaces the lists. -/
def setHeap (h : Heap SwtmrNode) : Swtmr := { s with heap := h }

/-! ## The sort link -/

/-- The times in the sort link, where the head is taken for later than timer `i`. -/
def linkTime (i : Nat) : SwtmrNode → Nat
  | .timer j => (s.cb j).responseTime
  | .sortLink => (s.cb i).responseTime + 1

/-- `OsAddNode2SortLink` on `g_swtmrSortLink`. -/
def addNode2SortLink (i : Nat) : Swtmr :=
  s.setHeap ((SortLink.addNode2SortLink (s.linkTime i) s.heap swtmrLimit .sortLink (.timer i)).getD s.heap.crash)

/-- `OS_SYS_TICK_TO_CYCLE`. -/
def tickToCycle (ticks : UInt32) : Nat := ticks.toNat * s.sysClock.toNat / tickPerSecond

/-- `OsAdd2SortLink`. -/
def add2SortLink (i startTime : Nat) (waitTicks : UInt32) : Swtmr :=
  (s.setCB i fun c => { c with responseTime := (startTime + s.tickToCycle waitTicks) % 2 ^ 64 })
    |>.addNode2SortLink i

/-- `OsDeleteNodeSortLink`. -/
def deleteNodeSortLink (i : Nat) : Swtmr :=
  (s.setHeap (s.heap.delete (.timer i))).setCB i fun c => { c with responseTime := invalidTime }

/-- `OsDeleteSortLink`. -/
def deleteSortLink (i : Nat) : Swtmr :=
  if (s.cb i).responseTime ≠ invalidTime then s.deleteNodeSortLink i else s

/-! ## Timers -/

/-- `OsSwtmrStart`. -/
def swtmrStart (i : Nat) : Swtmr :=
  let s := s.setCB i fun c => { c with state := .ticking }
  s.add2SortLink i (s.cb i).startTime (s.cb i).interval

/-- The ID that `OsSwtmrDelete` gives to a control block. -/
def nextTimerID (id : Nat) : Nat :=
  if id < swtmrMaxTimerID - swtmrLimit then id + swtmrLimit else id % swtmrLimit

/-- `OsSwtmrDelete`. -/
def swtmrDelete (i : Nat) : Swtmr :=
  { s.setCB i fun c => { c with
      timerID := nextTimerID c.timerID, pstNext := s.freeList, state := .unused } with
    freeList := i + 1 }

/-- `OsSwtmrStop`. -/
def swtmrStop (i : Nat) : Swtmr :=
  (s.deleteSortLink i).setCB i fun c => { c with state := .created, overrun := 0 }

/-- `LOS_QueueWriteCopy(g_swtmrHandlerQueue, ..., LOS_NO_WAIT)`, whose result is not looked at. -/
def queueWrite (item : SwtmrHandlerItem) : Swtmr :=
  if s.queue.length < swtmrLimit then { s with queue := s.queue ++ [item] } else s

/-- The item that an expiry of the timer is. -/
def handlerItem (i : Nat) : SwtmrHandlerItem :=
  ⟨(s.cb i).handler, (s.cb i).arg, (s.cb i).timerID⟩

/-- `OsSwtmrTimeoutHandle`. -/
def swtmrTimeoutHandle (i : Nat) : Swtmr :=
  let s := s.queueWrite (s.handlerItem i)
  match (s.cb i).mode with
  | .period => (s.setCB i fun c => { c with overrun := (c.overrun + 1) % 2 ^ 8 }).swtmrStart i
  | .noSelfDelete => s.setCB i fun c => { c with state := .created }
  | .once => s

/-- The timer that the next round of `OsSwtmrScan` handles. -/
def expired : Option Nat :=
  if s.heap.isEmpty .sortLink then none
  else
    match s.heap.next .sortLink with
    | some (.timer i) => if (s.cb i).responseTime ≤ s.now then some i else none
    | _ => none

/-- One round of the loop of `OsSwtmrScan`. -/
def scanRound (i : Nat) : Swtmr :=
  let s := s.setCB i fun c => { c with startTime := c.responseTime }
  (s.deleteNodeSortLink i).swtmrTimeoutHandle i

/-- `OsSwtmrScan`; `none` when `fuel` rounds are not enough. -/
def swtmrScan : Nat → Swtmr → Option Swtmr
  | 0, _ => none
  | fuel + 1, s =>
    match s.expired with
    | none => some s
    | some i => swtmrScan fuel (s.scanRound i)

/-! ## The API -/

/-- `LOS_SwtmrCreate`; `mode` is `none` for a number that is no mode. Returns the ID as well. -/
def swtmrCreate (interval : UInt32) (mode : Option SwtmrMode) (handler arg : Nat) (swtmrId : Bool) :
    Swtmr × SwtmrRet × Nat :=
  if interval = 0 then (s, .intervalNotSuited, 0)
  else
    match mode with
    | none => (s, .modeInvalid, 0)
    | some mode =>
      if handler = 0 then (s, .ptrNull, 0)
      else if !swtmrId then (s, .retPtrNull, 0)
      else if s.freeList = 0 then (s, .maxSize, 0)
      else
        let i := s.freeList - 1
        let s := { s with freeList := (s.cb i).pstNext }
        (s.setCB i fun c =>
          { c with
            handler := handler, mode := mode, interval := interval, pstNext := 0, arg := arg,
            state := .created, overrun := 0, responseTime := invalidTime },
          .ok, (s.cb i).timerID)

/-- The block of an ID, or what the API returns for an ID that no timer has. -/
def lookup (swtmrId : Nat) : Except SwtmrRet Nat :=
  if swtmrId ≥ swtmrMaxTimerID then .error .idInvalid
  else if (s.cb (swtmrId % swtmrLimit)).timerID ≠ swtmrId then .error .notCreated
  else .ok (swtmrId % swtmrLimit)

/-- `LOS_SwtmrStart`. -/
def losSwtmrStart (swtmrId : Nat) : Swtmr × SwtmrRet :=
  match s.lookup swtmrId with
  | .error ret => (s, ret)
  | .ok i =>
    match (s.cb i).state with
    | .unused => (s, .notCreated)
    | .ticking =>
      (((s.swtmrStop i).setCB i fun c => { c with startTime := s.now }).swtmrStart i, .ok)
    | .created => ((s.setCB i fun c => { c with startTime := s.now }).swtmrStart i, .ok)

/-- `LOS_SwtmrStop`. -/
def losSwtmrStop (swtmrId : Nat) : Swtmr × SwtmrRet :=
  match s.lookup swtmrId with
  | .error ret => (s, ret)
  | .ok i =>
    match (s.cb i).state with
    | .unused => (s, .notCreated)
    | .created => (s, .notStarted)
    | .ticking => (s.swtmrStop i, .ok)

/-- `LOS_SwtmrDelete`. -/
def losSwtmrDelete (swtmrId : Nat) : Swtmr × SwtmrRet :=
  match s.lookup swtmrId with
  | .error ret => (s, ret)
  | .ok i =>
    match (s.cb i).state with
    | .unused => (s, .notCreated)
    | .ticking => ((s.swtmrStop i).swtmrDelete i, .ok)
    | .created => (s.swtmrDelete i, .ok)

/-- `OsSwtmrTimeGet`: the ticks up to the expiry of a timer. -/
def swtmrTimeGet (i : Nat) : UInt32 :=
  .ofNat (min (((s.cb i).responseTime - s.now) * tickPerSecond % 2 ^ 64 / s.sysClock.toNat) 0xFFFFFFFF)

/-- `LOS_SwtmrTimeGet` with a pointer that is not `NULL`. -/
def losSwtmrTimeGet (swtmrId : Nat) : Except SwtmrRet UInt32 :=
  match s.lookup swtmrId with
  | .error ret => .error ret
  | .ok i =>
    match (s.cb i).state with
    | .unused => .error .notCreated
    | .created => .error .notStarted
    | .ticking => .ok (s.swtmrTimeGet i)

/-! ## `OsSwtmrTask` -/

/-- `LOS_QueueReadCopy` and the checks on what was read; `none` while the queue is empty. -/
def taskRead : Option Swtmr :=
  match s.pc, s.queue with
  | .reading, item :: queue =>
    some { s with
      queue := queue
      pc := if item.handler = 0 ∨ item.swtmrID ≥ swtmrMaxTimerID then .reading else .read item }
  | _, _ => none

/-- The critical section. -/
def taskCheck : Option Swtmr :=
  match s.pc with
  | .read item =>
    let i := item.swtmrID % swtmrLimit
    if (s.cb i).timerID ≠ item.swtmrID then some { s with pc := .reading }
    else
      let s := if (s.cb i).mode = .once then s.swtmrDelete i else s
      some { s with pc := .calling item }
  | _ => none

/-- The handler is called. What it does are steps of its own, and `OsSwtmrTask` reads on once it has
returned. -/
def taskCall : Option Swtmr :=
  match s.pc with
  | .calling _ => some { s with pc := .reading }
  | _ => none

end Swtmr

/-! ## Runs -/

/-- The steps: the calls, the clock, the scan and the timer task. -/
inductive SwtmrOp where
  | create (interval : UInt32) (mode : Option SwtmrMode) (handler arg : UInt32) (swtmrId : Bool)
  | start (swtmrId : UInt32)
  | stop (swtmrId : UInt32)
  | delete (swtmrId : UInt32)
  /-- Time passes. -/
  | clock (now : Nat)
  /-- One round of `OsSwtmrScan`; nothing happens when no timer has expired. -/
  | scan
  | taskRead
  | taskCheck
  | taskCall
  deriving DecidableEq

namespace Swtmr

/-- One step; `none` when the timer task is not there. -/
def step (s : Swtmr) : SwtmrOp → Option Swtmr
  | .create interval mode handler arg swtmrId =>
    some (s.swtmrCreate interval mode handler.toNat arg.toNat swtmrId).1
  | .start swtmrId => some (s.losSwtmrStart swtmrId.toNat).1
  | .stop swtmrId => some (s.losSwtmrStop swtmrId.toNat).1
  | .delete swtmrId => some (s.losSwtmrDelete swtmrId.toNat).1
  | .clock now => some { s with now := now }
  | .scan => some (match s.expired with | none => s | some i => s.scanRound i)
  | .taskRead => s.taskRead
  | .taskCheck => s.taskCheck
  | .taskCall => s.taskCall

/-- **A scan is a sequence of rounds**, up to the first one that finds no timer. -/
theorem swtmrScan_eq_exec {fuel : Nat} {s s' : Swtmr} (h : swtmrScan fuel s = some s') :
    s'.expired = none ∧ ∃ n, exec step s (List.replicate n .scan) = some s' := by
  induction fuel generalizing s with
  | zero => simp [swtmrScan] at h
  | succ fuel ih =>
    unfold swtmrScan at h
    cases hexp : s.expired with
    | none =>
      rw [hexp] at h
      obtain rfl := Option.some.inj h
      exact ⟨hexp, 0, rfl⟩
    | some i =>
      rw [hexp] at h
      obtain ⟨hend, n, hn⟩ := ih h
      refine ⟨hend, n + 1, ?_⟩
      rw [List.replicate_succ, exec_cons]
      exact ⟨s.scanRound i, by simp [step, hexp], hn⟩

/-- `OsSwtmrInit`. -/
def init (sysClock : UInt32) : Swtmr where
  cb i :=
    { pstNext := if i + 1 < swtmrLimit then i + 2 else 0
      state := .unused, mode := .once, overrun := 0, timerID := i, interval := 0, arg := 0
      handler := 0, responseTime := 0, startTime := 0 }
  freeList := 1
  heap := Heap.init ⟨fun _ => none, fun _ => none, false⟩ .sortLink
  queue := []
  pc := .reading
  now := 0
  sysClock := sysClock

end Swtmr

end LiteosM.Kernel
