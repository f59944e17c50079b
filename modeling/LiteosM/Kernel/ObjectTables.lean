import LiteosM.Kernel.Placement

/-!
# Who writes the control blocks of the IPC objects

Semaphores, mutexes, queues and events are written by their own calls only.

* `State.run_tables`: a piece of code that is none of the calls on an object writes no table;
* `State.run_of_onSem`, `State.run_of_onMux`, `State.run_of_onQueue`: the calls on one kind of object write
  the table of that kind only;
* `State.run_event`: the bits of the events are written by the calls on events.

This is about the control blocks. The wait lists are the matter of `Kernel.WaitStep`.
-/

namespace LiteosM.Kernel

open LiteosM.Lib

/-- The calls on semaphores, up to their wait; behind it they write no semaphore. -/
def Sec.onSem : Sec → Bool
  | .semCreate _ _ | .semDelete _ | .semPend _ _ | .semPost _ => true
  | _ => false

/-- The section is one of a mutex call. -/
def Sec.onMux : Sec → Bool
  | .muxCreate | .muxDelete _ | .muxPend _ _ | .muxPost _ => true
  | _ => false

/-- The section is one of a queue call. -/
def Sec.onQueue : Sec → Bool
  | .queueCreate _ _ _ | .queueDelete _ | .queueOperate _ _ _ _ | .queuePended _ _ => true
  | _ => false

/-- The code that writes the events that are set. -/
def Sec.onEvent : Sec → Bool
  | .eventInit _ | .eventReadLocked _ _ _ _ | .eventPended _ _ _ | .eventWriteLocked _ _
  | .eventClear _ _ => true
  | _ => false

namespace State

variable (k : State)

/-- The control blocks of the IPC objects. -/
def objects : (Nat → LosSemCB) × (Nat → LosMuxCB) × (Nat → LosQueueCB) := (k.sem, k.mux, k.queue)

/-- With the events that are set. -/
def tables : ((Nat → LosSemCB) × (Nat → LosMuxCB) × (Nat → LosQueueCB)) × (Nat → BitVec 32) :=
  (k.objects, k.event)

theorem tables_wakeFirst (n : Node) (f : LosTaskCB → LosTaskCB) : (k.wakeFirst n f).tables = k.tables := by
  unfold wakeFirst
  split <;> rfl

/-- Code that works on no object and no event writes none. -/
theorem run_tables (c : Sec) (hs : c.onSem = false) (hm : c.onMux = false) (hq : c.onQueue = false)
    (he : c.onEvent = false) : (k.run c).tables = k.tables := by
  cases c with
  | semCreate | semDelete | semPend | semPost => cases hs
  | muxCreate | muxDelete | muxPend | muxPost => cases hm
  | queueCreate | queueDelete | queueOperate | queuePended => cases hq
  | eventInit | eventReadLocked | eventPended | eventWriteLocked | eventClear => cases he
  | taskYield | taskLock | schedule | insertTCBToFreeList | createEnQueue
  | joinFree => rfl
  | taskResume | taskDelay | taskPriSet | taskUnlock | semPended | muxPended | eventWrite | eventDestroy | memFree
  | newTaskInit =>
    dsimp only [run, taskResume, taskDelay, taskPriSet, taskUnlock, semPended, muxPended, eventWrite, eventDestroy,
      memFree, newTaskInit]
    split_ifs <;> rfl
  | taskSuspend | taskJoin | taskDetach | eventRead =>
    dsimp only [run, taskSuspend, taskJoin, taskDetach, eventRead]
    split
    · split_ifs <;> rfl
    · rfl
  | taskCreate =>
    dsimp only [run, taskCreate]
    split <;> rfl
  | recycleFinishedTask | createTake =>
    dsimp only [run, recycleFinishedTask, createTake]
    split_ifs
    · rfl
    · split <;> rfl
  | taskDelete t =>
    change (k.taskDelete t).tables = k.tables
    rcases k.taskDelete_eq t with ⟨-, h⟩ | ⟨-, e, h⟩ <;> rw [h]
    · unfold buried
      split_ifs <;> rfl
    · rfl

/-! ## The calls on one kind of object write no other -/

/-- What a call on a semaphore does not write. -/
def butSem : (Nat → LosMuxCB) × (Nat → LosQueueCB) × (Nat → BitVec 32) := (k.mux, k.queue, k.event)

/-- The tables but that of the mutexes. -/
def butMux : (Nat → LosSemCB) × (Nat → LosQueueCB) × (Nat → BitVec 32) := (k.sem, k.queue, k.event)

/-- The tables but that of the queues. -/
def butQueue : (Nat → LosSemCB) × (Nat → LosMuxCB) × (Nat → BitVec 32) := (k.sem, k.mux, k.event)

theorem run_of_onSem (c : Sec) (hc : c.onSem = true) : (k.run c).butSem = k.butSem := by
  cases c with
  | semCreate =>
    dsimp only [run, semCreate]
    split_ifs
    · exact rfl
    · split <;> exact rfl
  | semDelete =>
    dsimp only [run, semDelete]
    split_ifs <;> exact rfl
  | semPend i timeout =>
    change (k.semPend i timeout).butSem = k.butSem
    rcases k.semPend_cases i timeout with ⟨e, -, h⟩ | ⟨-, -, h⟩ | ⟨-, h⟩
    all_goals
      rw [h]
      exact rfl
  | semPost i =>
    change (k.semPost i).butSem = k.butSem
    rcases k.semPost_cases i with ⟨e, -, h⟩ | ⟨-, -, ⟨-, h⟩ | ⟨-, h⟩⟩ <;> rw [h]
    · exact rfl
    · exact congrArg (fun o => (o.1.2.1, o.1.2.2, o.2)) (k.tables_wakeFirst _ _)
    · exact rfl
  | _ => cases hc

theorem run_of_onMux (c : Sec) (hc : c.onMux = true) : (k.run c).butMux = k.butMux := by
  cases c with
  | muxCreate =>
    dsimp only [run, muxCreate]
    split <;> exact rfl
  | muxDelete =>
    dsimp only [run, muxDelete]
    split_ifs <;> exact rfl
  | muxPend i timeout =>
    change (k.muxPend i timeout).butMux = k.butMux
    rcases k.muxPend_cases i timeout with ⟨e, -, h⟩ | ⟨-, -, h⟩ | ⟨-, -, -, h⟩ | ⟨-, ⟨-, h⟩ | ⟨o, -, h⟩⟩ <;> rw [h]
    · exact rfl
    · exact rfl
    · exact rfl
    · exact rfl
    · unfold muxWaits lent
      dsimp only
      split_ifs <;> exact rfl
  | muxPost i =>
    change (k.muxPost i).butMux = k.butMux
    have hrestored : ((k.released i).restored i).butMux = k.butMux := by
      unfold restored
      split_ifs <;> exact rfl
    rcases k.muxPost_cases i with ⟨e, -, h⟩ | ⟨-, -, -, ⟨-, h⟩ | ⟨-, h⟩⟩ <;> rw [h]
    · exact rfl
    · exact rfl
    unfold muxGiven
    dsimp only
    generalize (k.released i).restored i = k1 at hrestored ⊢
    split_ifs
    · split
      · exact (congrArg (fun o => (o.1.1, o.1.2.2, o.2)) (tables_wakeFirst (k1.setMux i _) _ _)).trans hrestored
      · exact hrestored
    · exact hrestored
  | _ => cases hc

theorem run_of_onQueue (c : Sec) (hc : c.onQueue = true) : (k.run c).butQueue = k.butQueue := by
  have hfinish : ∀ (k : State) q rw, (k.queueFinish q rw).butQueue = k.butQueue := by
    intro k q rw
    unfold queueFinish
    split_ifs
    · exact congrArg (fun o => (o.1.1, o.1.2.1, o.2)) (k.tables_wakeFirst _ id)
    · exact rfl
  cases c with
  | queueCreate =>
    dsimp only [run, queueCreate]
    split_ifs
    · exact rfl
    · exact rfl
    · exact rfl
    · exact rfl
    · split <;> exact rfl
  | queueDelete =>
    dsimp only [run, queueDelete]
    split_ifs <;> exact rfl
  | queueOperate q rw size timeout =>
    change (k.queueOperate q rw size timeout).butQueue = k.butQueue
    rcases k.queueOperate_cases q rw size timeout with ⟨e, -, h⟩ | ⟨-, -, h⟩ | ⟨-, h⟩ <;> rw [h]
    · exact rfl
    · exact hfinish (k.queueTaken q rw) q rw
    · exact rfl
  | queuePended q rw =>
    dsimp only [run, queuePended]
    split_ifs
    · exact rfl
    · exact hfinish k q rw
  | _ => cases hc

theorem run_event (c : Sec) (hc : c.onEvent = false) : (k.run c).event = k.event := by
  cases hs : c.onSem with
  | true => exact congrArg (fun o => o.2.2) (k.run_of_onSem c hs)
  | false =>
    cases hm : c.onMux with
    | true => exact congrArg (fun o => o.2.2) (k.run_of_onMux c hm)
    | false =>
      cases hq : c.onQueue with
      | true => exact congrArg (fun o => o.2.2) (k.run_of_onQueue c hq)
      | false => exact congrArg Prod.snd (k.run_tables c hs hm hq hc)

end State

end LiteosM.Kernel
