import LiteosM.Kernel.Task

/-!
# Semaphores, mutexes, queues and events

`los_sem.c`, `los_mux.c`, `los_queue.c` and `los_event.c`, cut as the task calls are. The message bytes of a
queue are left out: `OsQueueBufferOperate` touches neither a task nor a list. `LOS_EventRead` and
`LOS_EventWrite` look at the pointers of the event block before their critical section, which is why each is
cut there.

A function with a wait in it is two: `semPend` ends with the push of `LOS_Schedule`, and `semPended` is what
runs behind that and looks at the timeout bit of the task. The errors are those of the source, in the order
of its tests. Premises: the calls come from tasks (`OS_INT_ACTIVE` is 0), and no pointer to a result is
NULL.
-/

namespace LiteosM.Kernel

open LiteosM.Lib Function

/-- `OS_NULL_SHORT - sizeof(UINT32)`. -/
def maxMsgSizeMax : Nat := 0xFFFF - 4

/-- `LOS_ERRTYPE_ERROR`. -/
def errtypeError : BitVec 32 := 0x02000000#32

/-- `LOS_WAITMODE_AND`. -/
def waitmodeAnd : BitVec 32 := 4#32

/-- `LOS_WAITMODE_OR`. -/
def waitmodeOr : BitVec 32 := 2#32

/-- `LOS_WAITMODE_CLR`. -/
def waitmodeClr : BitVec 32 := 1#32

/-- What `LOS_EventPoll` returns. -/
def pollEvent (event mask mode : BitVec 32) : BitVec 32 :=
  if mode &&& waitmodeOr ≠ 0 then event &&& mask
  else if mask ≠ 0 ∧ mask = event &&& mask then event &&& mask
  else 0

/-- The test `LOS_EventWrite` makes on a waiting task: with `WAITMODE_OR` it looks at the events
written now, with `WAITMODE_AND` at all that are set. -/
def LosTaskCB.hears (c : LosTaskCB) (events event : BitVec 32) : Bool :=
  (c.eventMode &&& waitmodeOr ≠ 0 && c.eventMask &&& events ≠ 0) ||
    (c.eventMode &&& waitmodeAnd ≠ 0 && c.eventMask &&& event = c.eventMask)

/-- The loop of `LOS_EventWrite` over the waiting tasks, the next one read before the task is
woken. The flag is `exitFlag`. -/
def Sched.wakeReaders (s : Sched) (list : Node) (events event : BitVec 32) :
    Nat → Option Node → Sched × Bool
  | 0, _ => (s, false)
  | fuel + 1, some (.pendList t) =>
    let next := s.heap.next (.pendList t)
    if (s.tcb t).hears events event then
      ((s.taskWake t).wakeReaders list events event fuel next).map id fun _ => true
    else s.wakeReaders list events event fuel next
  | _ + 1, some n => if n = list then (s, false) else (s.raise .badPointer, false)
  | _ + 1, none => (s.raise .badPointer, false)

namespace State

variable (k : State)

/-- Changes semaphore `i`. -/
def setSem (i : Nat) (f : LosSemCB → LosSemCB) : State :=
  { k with sem := update k.sem i (f (k.sem i)) }

/-- Changes mutex `i`. -/
def setMux (i : Nat) (f : LosMuxCB → LosMuxCB) : State :=
  { k with mux := update k.mux i (f (k.mux i)) }

/-- Changes queue `q`. -/
def setQueue (q : Nat) (f : LosQueueCB → LosQueueCB) : State :=
  { k with queue := update k.queue q (f (k.queue q)) }

/-- `LOS_ListInit`. -/
def initList (n : Node) : State := k.onSched fun s => s.setHeap (s.heap.init n)

/-- Wake the first task of a list, after `f` has been done to its control block. -/
def wakeFirst (n : Node) (f : LosTaskCB → LosTaskCB) : State :=
  match k.first n with
  | some t => k.onSched fun s => (s.setTCB t f).taskWake t
  | none => k.onSched (·.raise .badPointer)

/-- What a task does when it comes back from its wait: it returns `e` if its time was up. -/
def timedOut (e : ErrNo) : State :=
  (k.onSched (·.setSt k.runTask fun st => { st with timeout := false })).done e

/-! ## Semaphores -/

/-- `OsSemCreate`. -/
def semCreate (count maxCount : Nat) : State :=
  if count > maxCount then k.done .semOverflow
  else
    match k.unusedSem with
    | [] => k.done .semAllBusy
    | i :: rest =>
      ({ k with unusedSem := rest }.setSem i fun _ => ⟨true, count, maxCount⟩).initList (.semList i)
        |>.done .ok

/-- `LOS_SemDelete`. -/
def semDelete (i : Nat) : State :=
  if i ≥ semLimit ∨ !(k.sem i).used then k.done .semInvalid
  else if !k.heap.isEmpty (.semList i) then k.done .semPended
  else ({ k with unusedSem := i :: k.unusedSem }.setSem i fun c => { c with used := false }).done .ok

/-- `OsSemValidCheck`. -/
def semValidCheck (i : Nat) : ErrNo :=
  if !(k.sem i).used then .semInvalid
  else if k.losTaskLock != 0 then .semPendInLock
  else if (k.st k.runTask).systemTask then .semPendInSystemTask
  else .ok

/-- `LOS_SemPend` up to its wait. -/
def semPend (i timeout : Nat) : State :=
  if i ≥ semLimit then k.done .semInvalid
  else
    match k.semValidCheck i with
    | .ok =>
      if (k.sem i).semCount > 0 then (k.setSem i fun c => { c with semCount := c.semCount - 1 }).done .ok
      else if timeout = 0 then k.done .semUnavailable
      else
        (k.onSched fun s =>
          (s.setTCB s.runTask fun c => { c with taskSem := some i }).taskWait (.semList i) timeout).push
            [.schedule, .semPended]
    | e => k.done e

/-- `LOS_SemPend` behind its wait. -/
def semPended : State :=
  if (k.st k.runTask).timeout then k.timedOut .semTimeout else k.done .ok

/-- `LOS_SemPost`. -/
def semPost (i : Nat) : State :=
  if i ≥ semLimit ∨ !(k.sem i).used then k.done .semInvalid
  else if (k.sem i).maxSemCount = (k.sem i).semCount then k.done .semOverflow
  else if !k.heap.isEmpty (.semList i) then
    ((k.wakeFirst (.semList i) fun c => { c with taskSem := none }).done .ok).push [.schedule]
  else (k.setSem i fun c => { c with semCount := c.semCount + 1 }).done .ok

/-! ## Mutexes -/

/-- `LOS_MuxCreate`. -/
def muxCreate : State :=
  match k.unusedMux with
  | [] => k.done .muxAllBusy
  | i :: rest =>
    ({ k with unusedMux := rest }.setMux i fun _ => ⟨true, 0, none, 0⟩).initList (.muxList i) |>.done .ok

/-- `LOS_MuxDelete`. -/
def muxDelete (i : Nat) : State :=
  if i ≥ muxLimit ∨ !(k.mux i).used then k.done .muxInvalid
  else if !k.heap.isEmpty (.muxList i) ∨ (k.mux i).muxCount ≠ 0 then k.done .muxPended
  else ({ k with unusedMux := i :: k.unusedMux }.setMux i fun c => { c with used := false }).done .ok

/-- `OsMuxValidCheck`. -/
def muxValidCheck (i : Nat) : ErrNo :=
  if !(k.mux i).used then .muxInvalid
  else if k.losTaskLock != 0 then .muxPendInLock
  else if (k.st k.runTask).systemTask then .muxPendInSystemTask
  else .ok

/-- `LOS_MuxPend` up to its wait. -/
def muxPend (i timeout : Nat) : State :=
  if i ≥ muxLimit then k.done .muxInvalid
  else
    match k.muxValidCheck i with
    | .ok =>
      let run := k.tcb k.runTask
      if (k.mux i).muxCount = 0 then
        (k.setMux i fun c =>
          { c with muxCount := 1, owner := some k.runTask, priority := run.priority }).done .ok
      else if (k.mux i).owner = some k.runTask then
        (k.setMux i fun c => { c with muxCount := (c.muxCount + 1) % 2 ^ 16 }).done .ok
      else if timeout = 0 then k.done .muxUnavailable
      else
        match (k.mux i).owner with
        | none => k.onSched (·.raise .badPointer)
        | some owner =>
          let k := k.onSched (·.setTCB k.runTask fun c => { c with taskMux := some i })
          let k :=
            if (k.tcb owner).priority > run.priority then
              k.onSched (·.modifyTaskSchedParam owner run.priority)
            else k
          (k.onSched (·.taskWait (.muxList i) timeout)).push [.schedule, .muxPended]
    | e => k.done e

/-- `LOS_MuxPend` behind its wait. -/
def muxPended : State :=
  if (k.st k.runTask).timeout then k.timedOut .muxTimeout else k.done .ok

/-- `LOS_MuxPost`. -/
def muxPost (i : Nat) : State :=
  if i ≥ muxLimit ∨ !(k.mux i).used then k.done .muxInvalid
  else if (k.mux i).muxCount = 0 ∨ (k.mux i).owner ≠ some k.runTask then k.done .muxInvalid
  else
    let k := k.setMux i fun c => { c with muxCount := c.muxCount - 1 }
    if (k.mux i).muxCount ≠ 0 then k.done .ok
    else
      let k :=
        if (k.tcb k.runTask).priority ≠ (k.mux i).priority then
          k.onSched (·.modifyTaskSchedParam k.runTask (k.mux i).priority)
        else k
      if !k.heap.isEmpty (.muxList i) then
        match k.first (.muxList i) with
        | some t =>
          let k := k.setMux i fun c =>
            { c with muxCount := 1, owner := some t, priority := (k.tcb t).priority }
          ((k.wakeFirst (.muxList i) fun c => { c with taskMux := none }).done .ok).push [.schedule]
        | none => k.onSched (·.raise .badPointer)
      else (k.setMux i fun c => { c with owner := none }).done .ok

/-! ## Queues -/

/-- `OsQueueCreate`; `memory` says whether the heap can give the buffer. -/
def queueCreate (len maxMsgSize : Nat) (memory : Bool) : State :=
  if maxMsgSize > maxMsgSizeMax then k.done .queueSizeTooBig
  else if len = 0 ∨ maxMsgSize = 0 then k.done .queueParaIszero
  else if (2 ^ 32 - 1) / (maxMsgSize + 4) < len then k.done .queueSizeTooBig
  else if !memory then k.done .queueCreateNoMemory
  else
    match k.freeQueue with
    | [] => k.done .queueCbUnavailable
    | q :: rest =>
      (({ k with freeQueue := rest }.setQueue q fun _ => ⟨true, len, maxMsgSize + 4, 0, len⟩).initList
        (.readWriteList q .read)).initList (.readWriteList q .write) |>.done .ok

/-- `LOS_QueueDelete`. -/
def queueDelete (q : Nat) : State :=
  if q ≥ queueLimit then k.done .queueNotFound
  else if !(k.queue q).used then k.done .queueNotCreate
  else if !k.heap.isEmpty (.readWriteList q .read) then k.done .queueInTskuse
  else if !k.heap.isEmpty (.readWriteList q .write) then k.done .queueInTskuse
  else if (k.queue q).writeable + (k.queue q).readable ≠ (k.queue q).queueLen then
    k.done .queueInTskwrite
  else ({ k with freeQueue := q :: k.freeQueue }.setQueue q fun c => { c with used := false }).done .ok

/-- `OsQueueReadParameterCheck`, `OsQueueWriteParameterCheck` and `OsQueueOperateParamCheck`. -/
def queueParamCheck (q : Nat) (rw : ReadWrite) (size : Nat) : ErrNo :=
  if q ≥ queueLimit then .queueInvalid
  else if size = 0 then
    match rw with
    | .read => .queueReadsizeIszero
    | .write => .queueWritesizeIszero
  else if !(k.queue q).used then .queueNotCreate
  else if rw = .write ∧ size > (k.queue q).queueSize - 4 then .queueWriteSizeTooBig
  else if size ≥ securecMemMaxLen then .queueBufferSizeTooBig
  else .ok

/-- The end of `OsQueueOperate`: the slot goes to the first task on the other side, or is counted
there. -/
def queueFinish (q : Nat) (rw : ReadWrite) : State :=
  if !k.heap.isEmpty (.readWriteList q rw.other) then
    ((k.wakeFirst (.readWriteList q rw.other) id).done .ok).push [.schedule]
  else (k.setQueue q fun c => c.setCnt rw.other ((c.readWriteableCnt rw.other + 1) % 2 ^ 16)).done .ok

/-- `OsQueueOperate` up to its wait. -/
def queueOperate (q : Nat) (rw : ReadWrite) (size timeout : Nat) : State :=
  match k.queueParamCheck q rw size with
  | .ok =>
    if (k.queue q).readWriteableCnt rw = 0 then
      if timeout = 0 then
        match rw with
        | .read => k.done .queueIsempty
        | .write => k.done .queueIsfull
      else if k.losTaskLock != 0 then k.done .queuePendInLock
      else (k.onSched (·.taskWait (.readWriteList q rw) timeout)).push [.schedule, .queuePended q rw]
    else (k.setQueue q fun c => c.setCnt rw (c.readWriteableCnt rw - 1)).queueFinish q rw
  | e => k.done e

/-- `OsQueueOperate` behind its wait. -/
def queuePended (q : Nat) (rw : ReadWrite) : State :=
  if (k.st k.runTask).timeout then k.timedOut .queueTimeout else k.queueFinish q rw

/-! ## Events -/

/-- Neither pointer of the event's list is NULL. -/
def eventListInit (e : Nat) : Bool :=
  (k.heap.next (.stEventList e)).isSome && (k.heap.prev (.stEventList e)).isSome

/-- `LOS_EventInit`. -/
def eventInit (e : Nat) : State :=
  { k with event := update k.event e 0 }.initList (.stEventList e) |>.done .ok

/-- `LOS_EventPoll` of the running task: what it finds is returned, and cleared if it asks so. -/
def eventPoll (e : Nat) (mask mode : BitVec 32) : State :=
  let found := pollEvent (k.event e) mask mode
  let k :=
    if found ≠ 0 ∧ mode &&& waitmodeClr ≠ 0 then
      { k with event := update k.event e (k.event e &&& ~~~found) }
    else k
  { k with ret := update k.ret k.runTask (.events found) }

/-- `OsEventReadParamCheck`. -/
def eventReadParamCheck (e : Nat) (mask mode : BitVec 32) : ErrNo :=
  if !k.eventListInit e then .eventNotInitialized
  else if mask = 0 then .eventEventmaskInvalid
  else if mask &&& errtypeError ≠ 0 then .eventSetbitInvalid
  else if (mode &&& waitmodeOr ≠ 0 ∧ mode &&& waitmodeAnd ≠ 0) ∨
      mode &&& ~~~(waitmodeOr ||| waitmodeAnd ||| waitmodeClr) ≠ 0 ∨
      mode &&& (waitmodeOr ||| waitmodeAnd) = 0 then .eventFlagsInvalid
  else .ok

/-- `LOS_EventRead` up to its critical section. -/
def eventRead (e : Nat) (mask mode : BitVec 32) (timeout : Nat) : State :=
  match k.eventReadParamCheck e mask mode with
  | .ok =>
    if (k.st k.runTask).systemTask then k.done .eventReadInSystemTask
    else k.push [.eventReadLocked e mask mode timeout]
  | err => k.done err

/-- The critical section of `LOS_EventRead` up to its wait. -/
def eventReadLocked (e : Nat) (mask mode : BitVec 32) (timeout : Nat) : State :=
  if pollEvent (k.event e) mask mode ≠ 0 ∨ timeout = 0 then k.eventPoll e mask mode
  else if k.losTaskLock != 0 then k.done .eventReadInLock
  else
    (k.onSched fun s =>
      (s.setTCB s.runTask fun c => { c with eventMask := mask, eventMode := mode }).taskWait
        (.stEventList e) timeout).push [.schedule, .eventPended e mask mode]

/-- `LOS_EventRead` behind its wait. -/
def eventPended (e : Nat) (mask mode : BitVec 32) : State :=
  if (k.st k.runTask).timeout then k.timedOut .eventReadTimeout else k.eventPoll e mask mode

/-- `LOS_EventWrite` up to its critical section. -/
def eventWrite (e : Nat) (events : BitVec 32) : State :=
  if !k.eventListInit e then k.done .eventNotInitialized
  else if events &&& errtypeError ≠ 0 then k.done .eventSetbitInvalid
  else k.push [.eventWriteLocked e events]

/-- The critical section of `LOS_EventWrite`. -/
def eventWriteLocked (e : Nat) (events : BitVec 32) : State :=
  let k := { k with event := update k.event e (k.event e ||| events) }
  if !k.heap.isEmpty (.stEventList e) then
    let (s, woken) :=
      k.toSched.wakeReaders (.stEventList e) events (k.event e) taskMaxNum (k.heap.next (.stEventList e))
    ({ k with toSched := s }.done .ok).push (if woken then [.schedule] else [])
  else k.done .ok

/-- `LOS_EventDestroy`. -/
def eventDestroy (e : Nat) : State :=
  if !k.heap.isEmpty (.stEventList e) then k.done .eventShouldNotDestroyed
  else (k.onSched fun s => s.setHeap (s.heap.clear (.stEventList e))).done .ok

/-- `LOS_EventClear`. -/
def eventClear (e : Nat) (mask : BitVec 32) : State :=
  { k with event := update k.event e (k.event e &&& mask) }.done .ok

end State

end LiteosM.Kernel
