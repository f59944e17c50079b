import LiteosM.Kernel.Dispatch

/-!
# The invariant of the kernel

What holds between two pieces of code: the scheduler is in a good `View`, the IPC objects in use have their
wait lists (`IpcOk`), what the tasks still have to do makes sense (`TodoOk`), and a running task that has
stopped is about to call `LOS_Schedule` (`Going`).

* `PoolOk.take`, `PoolOk.give`: an object comes into use, or goes out of it;
* `IpcOk.calms`, `TodoOk.push`, `TodoOk.replace`: how the parts are kept;
* `At.calm`: a piece of code that only makes calm moves keeps the whole.

`AtAny` and `At` are the states in which a piece of code begins: in any task, and in one that is not the
idle task.
-/

namespace LiteosM.Kernel

open LiteosM.Lib Function List Option

/-! ## IPC objects -/

/-- Objects handed out of a list of free ones. -/
structure PoolOk (used : Nat → Bool) (free : List Nat) : Prop where
  nodup : free.Nodup
  shut : ∀ i ∈ free, used i = false

namespace PoolOk

variable {used used' : Nat → Bool} {free : List Nat} {i : Nat}

theorem take (h : PoolOk used (i :: free)) (hused : ∀ j, j ≠ i → used' j = used j) :
    PoolOk used' free := by
  obtain ⟨hi, hnd⟩ := nodup_cons.mp h.nodup
  refine ⟨hnd, fun j hj => ?_⟩
  rw [hused j (fun hc => hi (hc ▸ hj))]
  exact h.shut j (mem_cons_of_mem i hj)

theorem give (h : PoolOk used free) (hi : used i = true) (hi' : used' i = false)
    (hused : ∀ j, j ≠ i → used' j = used j) : PoolOk used' (i :: free) := by
  refine ⟨nodup_cons.mpr ⟨fun hc => ?_, h.nodup⟩, fun j hj => ?_⟩
  · simp [h.shut i hc] at hi
  rcases mem_cons.mp hj with rfl | hj
  · exact hi'
  by_cases hji : j = i
  · rwa [hji]
  · rw [hused j hji]
    exact h.shut j hj

end PoolOk

/-- Whether the object a wait list belongs to is in use; event blocks and tasks are no such
objects. -/
def State.inUse (k : State) : Node → Option Bool
  | .semList i => some (k.sem i).used
  | .muxList i => some (k.mux i).used
  | .readWriteList q _ => some (k.queue q).used
  | _ => none

/-- The objects in use have their lists, nobody waits for the others, and what is in a free list is not in use. -/
structure IpcOk (k : State) (v : View) : Prop where
  opened : ∀ n, k.inUse n = some true → v.L n ≠ none
  shut : ∀ n u, k.inUse n = some false → v.pl u ≠ some n
  sems : PoolOk (fun i => (k.sem i).used) k.unusedSem
  muxes : PoolOk (fun i => (k.mux i).used) k.unusedMux
  queues : PoolOk (fun q => (k.queue q).used) k.freeQueue
  owner : ∀ i o, (k.mux i).owner = some o →
    o ≤ taskMaxNum ∧ (o < taskMaxNum → (k.mux i).priority < priorityQueueNum)

/-! ## What is left of the calls -/

/-- The tasks and priorities a piece of code works on exist. -/
def Sec.WellFormed : Sec → Prop
  | .createTake p _ => p.usTaskPrio < priorityQueueNum
  | .newTaskInit t p _ => t < taskMaxNum ∧ p.usTaskPrio < priorityQueueNum
  | .insertTCBToFreeList t | .createEnQueue t | .joinFree t => t < taskMaxNum
  | _ => True

/-- The control block a piece of code has taken from the free list and is about to fill. -/
def Sec.holds : Sec → Option Nat
  | .newTaskInit t _ _ => some t
  | _ => none

/-- What the idle task has to do. -/
def Sec.idles : Sec → Bool
  | .recycleFinishedTask | .memFree _ => true
  | _ => false

/-- What the tasks still have to do: a control block that is about to be filled is in one hand, and nowhere else. -/
structure TodoOk (k : State) (v : View) : Prop where
  wellFormed : ∀ u, ∀ c ∈ k.todo u, c.WellFormed
  tail : ∀ u, ∀ c ∈ (k.todo u).tail, c.holds = none
  held : ∀ u t, ∀ c ∈ k.todo u, c.holds = some t →
    t ≠ k.idleTaskID ∧ (v.s.st t).unused = true ∧ v.pl t = none
  once : ∀ u u' t, ∀ c ∈ k.todo u, ∀ c' ∈ k.todo u', c.holds = some t → c'.holds = some t → u = u'
  idles : ∀ c ∈ k.todo k.idleTaskID, c.idles = true

/-! ## The invariant -/

/-- What every piece of code keeps, `LOS_Schedule` included. -/
structure Core (k : State) (v : View) : Prop where
  eq : v.s = k.toSched
  good : Good v
  ipc : IpcOk k v
  todo : TodoOk k v

/-- A running task that has stopped calls `LOS_Schedule` next, and the scheduler is not locked. -/
def Going (k : State) : Prop :=
  k.taskScheduled = true → (k.st k.runTask).stops = true →
    k.losTaskLock = 0 ∧ (k.todo k.runTask).head? = some .schedule

/-- The invariant of the kernel. -/
def Inv (k : State) (v : View) : Prop := Core k v ∧ Going k

/-- Where a piece of code other than `LOS_Schedule` begins: the running task goes on, and it has
nothing in hand. -/
structure AtAny (k : State) (v : View) : Prop extends Core k v where
  goes : k.taskScheduled = true → (k.st k.runTask).stops = false
  clean : ∀ c ∈ k.todo k.runTask, c.holds = none

/-- The same, in a task other than the idle task. -/
structure At (k : State) (v : View) : Prop extends AtAny k v where
  busy : k.runTask ≠ k.idleTaskID

theorem Calms.pl_wait {m : Nat → Prop} {w : Node → Prop} {v v' : View} (h : Calms m w v v') {u : Nat}
    {n : Node} (hn : n.isWait = true) (hu : v'.pl u = some n) : v.pl u = some n ∨ w n := by
  rcases h.place u with hpl | ⟨-, hpl | ⟨p, hpl⟩⟩ | ⟨n', hpl, hw, -⟩
  · exact .inl (hpl ▸ hu)
  · simp [hpl] at hu
  · rw [hpl, some.injEq] at hu
    rw [← hu] at hn
    cases hn
  · rw [hpl, some.injEq] at hu
    exact .inr (hu ▸ hw)

theorem State.isWait_of_inUse {k : State} {n : Node} {b : Bool} (h : k.inUse n = some b) :
    n.isWait = true := by
  cases n with
  | semList | muxList | readWriteList => rfl
  | _ => cases h

section
variable {k k' : State} {m : Nat → Prop} {w : Node → Prop} {v v' : View}

/-- The objects in use stay in use, and only their lists are entered. -/
theorem IpcOk.calms (hI : IpcOk k v) (h : Calms m w v v')
    (huse : ∀ n, k'.inUse n = k.inUse n) (hsem : k'.unusedSem = k.unusedSem)
    (hmux : k'.unusedMux = k.unusedMux) (hqueue : k'.freeQueue = k.freeQueue)
    (hw : ∀ n, w n → k.inUse n ≠ some false) (howner : ∀ i o, (k'.mux i).owner = some o →
      o ≤ taskMaxNum ∧ (o < taskMaxNum → (k'.mux i).priority < priorityQueueNum)) : IpcOk k' v' := by
  have husem : ∀ i, (k'.sem i).used = (k.sem i).used := fun i => some.inj (huse (.semList i))
  have humux : ∀ i, (k'.mux i).used = (k.mux i).used := fun i => some.inj (huse (.muxList i))
  have huqueue : ∀ q, (k'.queue q).used = (k.queue q).used := fun q =>
    some.inj (huse (.readWriteList q .read))
  refine ⟨fun n hn hc => ?_, fun n u hn hu => ?_, ?_, ?_, ?_, howner⟩
  · rw [huse] at hn
    exact hI.opened n hn ((h.heads n).mp hc)
  · rw [huse] at hn
    rcases h.pl_wait (State.isWait_of_inUse hn) hu with hu' | hu'
    · exact hI.shut n u hn hu'
    · exact hw n hu' hn
  · rw [hsem, funext husem]
    exact hI.sems
  · rw [hmux, funext humux]
    exact hI.muxes
  · rw [hqueue, funext huqueue]
    exact hI.queues

/-- Some tasks have other things to do, none of them with a control block in hand. -/
theorem TodoOk.replace (hT : TodoOk k v) (hidle : k'.idleTaskID = k.idleTaskID)
    (htodo : ∀ u, k'.todo u = k.todo u ∨ ∀ c ∈ k'.todo u,
      c.WellFormed ∧ c.holds = none ∧ (u = k.idleTaskID → c.idles = true))
    (hheld : ∀ u t, ∀ c ∈ k.todo u, c.holds = some t →
      (v'.s.st t).unused = true ∧ v'.pl t = none) : TodoOk k' v' := by
  have hold : ∀ u c t, c ∈ k'.todo u → c.holds = some t → c ∈ k.todo u := by
    intro u c t hc hh
    rcases htodo u with hu | hu
    · exact hu ▸ hc
    · simp [(hu c hc).2.1] at hh
  constructor
  · intro u c hc
    rcases htodo u with hu | hu
    · exact hT.wellFormed u c (hu ▸ hc)
    · exact (hu c hc).1
  · intro u c hc
    rcases htodo u with hu | hu
    · exact hT.tail u c (hu ▸ hc)
    · exact (hu c (mem_of_mem_tail hc)).2.1
  · intro u t c hc hh
    have hc' := hold u c t hc hh
    rw [hidle]
    exact ⟨(hT.held u t c hc' hh).1, hheld u t c hc' hh⟩
  · intro u u' t c hc c' hc' hh hh'
    exact hT.once u u' t c (hold u c t hc hh) c' (hold u' c' t hc' hh') hh hh'
  intro c hc
  rw [hidle] at hc
  rcases htodo k.idleTaskID with hu | hu
  · exact hT.idles c (hu ▸ hc)
  · exact (hu c hc).2.2 rfl

/-- The running task has more to do, none of it with a control block in hand. -/
theorem TodoOk.push (hT : TodoOk k v) (hclean : ∀ c ∈ k.todo k.runTask, c.holds = none)
    {l : List Sec} (hl : ∀ c ∈ l, c.WellFormed ∧ c.holds = none)
    (hl' : k.runTask ≠ k.idleTaskID ∨ ∀ c ∈ l, c.idles = true)
    (htodo : k'.todo = update k.todo k.runTask (l ++ k.todo k.runTask))
    (hidle : k'.idleTaskID = k.idleTaskID) (hheld : ∀ u t, ∀ c ∈ k.todo u, c.holds = some t →
      (v'.s.st t).unused = true ∧ v'.pl t = none) : TodoOk k' v' := by
  refine hT.replace hidle (fun u => ?_) hheld
  by_cases hu : u = k.runTask
  · subst hu
    rw [htodo, update_self]
    refine .inr fun c hc => ?_
    rcases mem_append.mp hc with hc | hc
    · exact ⟨(hl c hc).1, (hl c hc).2, fun hi => (hl'.resolve_left (not_not.mpr hi)) c hc⟩
    · exact ⟨hT.wellFormed _ c hc, hclean c hc, fun hi => hT.idles c (hi ▸ hc)⟩
  · rw [htodo, update_of_ne hu]
    exact .inl rfl

/-- A piece of code that only makes calm moves. -/
theorem At.calm (hA : At k v) (h : Calms m w v v') (hs : v'.s = k'.toSched) (hI : IpcOk k' v')
    {l : List Sec} (hl : ∀ c ∈ l, c.WellFormed ∧ c.holds = none)
    (htodo : k'.todo = update k.todo k.runTask (l ++ k.todo k.runTask))
    (hgo : m k.runTask → k'.losTaskLock = 0 ∧ l.head? = some .schedule) : Inv k' v' := by
  have hctl : k'.toSched.ctl = k.toSched.ctl := by rw [← hs, ← hA.eq, h.ctl]
  refine ⟨⟨hs, h.good hA.good, hI, ?_⟩, fun hstart hstop => ?_⟩
  · refine hA.todo.push hA.clean hl (.inl hA.busy) htodo (congrArg Ctl.idleTaskID hctl)
      fun u t c hc hh => ?_
    obtain ⟨-, hu, hpl⟩ := hA.todo.held u t c hc hh
    exact ⟨(congrArg Life.unused (h.life t)).trans hu, (h.pl_unused hu).trans hpl⟩
  have hrun : k'.runTask = k.runTask := congrArg Ctl.runTask hctl
  have hstart' : k.taskScheduled = true := (congrArg Ctl.taskScheduled hctl).symm.trans hstart
  by_cases hm : m k.runTask
  · obtain ⟨hlock, hhead⟩ := hgo hm
    refine ⟨hlock, ?_⟩
    rw [hrun, htodo, update_self]
    cases l with
    | nil => cases hhead
    | cons c l => exact hhead
  have hgoes := hA.goes hstart'
  rw [← hA.eq] at hgoes
  have := h.stop hgoes (by rwa [hA.eq])
  simp [hs, hA.eq, ← hrun, hstop] at this

end

end LiteosM.Kernel
