import LiteosM.Kernel.WaitList

/-!
# What a piece of code does to a wait list

The wait lists of semaphores, mutexes, queues and events, and the pieces of code that work on them.
A list `n` with the tasks `ts` is left alone by every piece that does not touch its object
(`Next.waiters_other`); the others put the running task at its end, wake its first task, or take a
task out that is deleted or whose time is up. `LOS_EventWrite`, which may wake several tasks, is
left to the module on events.

* `Queued`, `Core.queued`: the tasks that wait for an object, and that they are where the invariant says;
* **`Next.waiters_other`**: a piece of code that does not touch the object leaves them and their order alone

The condition of the last one is a test on the code (`Sec.touches`), so that it is decided once for each piece.
-/

namespace LiteosM.Kernel

open LiteosM.Lib State Sched
open Node (noConfusion)

/-- The code that works on the object a wait list belongs to, or deletes a task. -/
def Sec.touches (n : Node) : Sec → Bool
  | .semPend i _ | .semPost i => n = .semList i
  | .muxPend i _ | .muxPost i => n = .muxList i
  | .queueOperate q _ _ _ | .queuePended q _ => n = .readWriteList q .read || n = .readWriteList q .write
  | .taskDelete _ => true
  | _ => false

/-- The code that works on the list of an event. -/
def Sec.touchesEvent (n : Node) : Sec → Bool
  | .eventInit e | .eventDestroy e | .eventReadLocked e _ _ _ | .eventWriteLocked e _ => n = .stEventList e
  | _ => false

variable {q : Nat}

theorem ne_of_touches {n : Node}
    (h : (decide (n = .readWriteList q .read) || decide (n = .readWriteList q .write)) = false)
    (rw : ReadWrite) : n ≠ .readWriteList q rw := by
  rw [Bool.or_eq_false_iff, decide_eq_false_iff_not, decide_eq_false_iff_not] at h
  cases rw with
  | read => exact h.1
  | write => exact h.2

/-- The tasks `ts` wait in the list `n`, which is that of an event or of an object in use. -/
structure Queued (k : State) (n : Node) (ts : List Nat) : Prop where
  isWait : n.isWait = true
  noJoin : ∀ t, n ≠ .joinList t
  used : k.inUse n ≠ some false
  wait : Waiters k.toSched n ts
  pends : k.toSched.Pends ts
  live : ∀ t ∈ ts, t < taskMaxNum ∧ (k.st t).exit = false ∧ (k.st t).unused = false
  idle : k.idleTaskID ∉ ts

section
variable {k : State} {v : View} {n : Node} {ts : List Nat}

/-- The nodes of a wait list, as tasks. -/
theorem View.waiters (v : View) (hn : n.isWait = true) (hL : v.L n ≠ none) :
    ∃ ts : List Nat, v.L n = some (ts.map .pendList) ∧ ∀ t, t ∈ ts ↔ v.pl t = some n := by
  have hL' := NodeLists.some_of_ne_none hL
  obtain ⟨ts, hts⟩ : ∃ ts : List Nat, v.L.at n = ts.map .pendList := by
    have hkind : ∀ x ∈ v.L.at n, ∃ t, x = .pendList t := by
      intro x hx
      obtain ⟨t, -, rfl | rfl⟩ := v.placed.shape.kind n x hx
      · exact ⟨t, rfl⟩
      · rw [((v.placed.shape.sort t n).mp hx).1] at hn
        cases hn
    generalize v.L.at n = l at hkind
    induction l with
    | nil => exact ⟨[], rfl⟩
    | cons x l ih =>
      obtain ⟨t, rfl⟩ := hkind x List.mem_cons_self
      obtain ⟨ts, rfl⟩ := ih fun y hy => hkind y (List.mem_cons_of_mem _ hy)
      exact ⟨t :: ts, rfl⟩
  refine ⟨ts, hL'.trans (congrArg some hts), fun t => ?_⟩
  rw [← v.placed.shape.pend, hts, List.mem_map]
  exact ⟨fun ht => ⟨t, ht, rfl⟩, fun ⟨u, hu, hut⟩ => Node.pendList.inj hut ▸ hu⟩

/-- Every wait list that is set up, with the tasks in it. -/
theorem Core.queued (hC : Core k v) (hwait : n.isWait = true) (hjoin : ∀ t, n ≠ .joinList t)
    (huse : k.inUse n ≠ some false) (hL : v.L n ≠ none) :
    ∃ ts, Queued k n ts ∧ ∀ t, t ∈ ts ↔ v.pl t = some n := by
  obtain ⟨ts, hts, hpl⟩ := v.waiters hwait hL
  have hlt : ∀ t ∈ ts, t < taskMaxNum := fun t ht => v.placed.shape.lt_of_pl ((hpl t).mp ht)
  have hT : ∀ t ∈ ts, TaskOk k.idleTaskID t (k.tcb t) (some n) (v.sl t)
      (decide (some k.runTask = some t)) := fun t ht => by
    have := v.placed.task t (hlt t ht)
    rwa [(hpl t).mp ht, hC.eq] at this
  have hpend : ∀ t ∈ ts, (k.tcb t).taskStatus.pend = true := fun t ht =>
    (hT t ht).pend.mpr ⟨n, rfl, hwait⟩
  refine ⟨ts, ⟨hwait, hjoin, huse, ?_, fun t ht => ⟨hpend t ht, (hT t ht).not_ready_of_pend (hpend t ht)⟩,
    fun t ht => ⟨hlt t ht, ((hT t ht).pendX (hpend t ht)).2⟩, fun hc => ?_⟩, hpl⟩
  · rw [← hC.eq]
    exact v.placed.shape.rings.owns hts
  · exact (hT _ hc).ne_idle_of_pend (hpend _ hc) rfl

/-- Nothing points to the `pendList` node of a running task that goes on. -/
theorem View.runTask_free (v : View) (hlt : v.s.runTask < taskMaxNum)
    (hu : (v.s.st v.s.runTask).unused = false) (hp : (v.s.st v.s.runTask).pend = false) (y : Node) :
    v.s.heap.next y ≠ some (.pendList v.s.runTask) ∧ v.s.heap.prev y ≠ some (.pendList v.s.runTask) := by
  have hpl := v.placed.pl_runTask hlt hu hp
  have hfree : v.L.Free (.pendList v.s.runTask) := by
    refine ⟨?_, fun m hm => ?_⟩
    · by_contra hne
      cases v.placed.shape.node _ hne
    · simp [(v.placed.shape.pend _ m).mp hm] at hpl
  exact v.placed.shape.rings.unpointed hfree y

variable {c : Sec}

/-- Code of a task runs on a control block of a task, once the scheduler has been started. -/
theorem Next.runTask_lt (hN : Next c k v) (hc : c ≠ .schedule) (hstart : k.taskScheduled = true) :
    k.runTask < taskMaxNum := by
  obtain ⟨-, -, -, -, -, hu⟩ := TaskStatus.stops_eq_false (hN.goes hc hstart)
  have hR : RunOk k.toSched := hN.eq ▸ hN.good.run
  refine Nat.lt_of_le_of_ne hR.le fun heq => ?_
  simp [heq, hR.ghost.1] at hu

namespace Queued

section
variable (h : Queued k n ts)
include h

theorem not_mem_of_exit {t : Nat} (ht : (k.st t).exit = true) : t ∉ ts := by
  intro hc
  simp [(h.live t hc).2.1] at ht

theorem not_mem_of_pend {t : Nat} (ht : (k.st t).pend = false) : t ∉ ts := by
  intro hc
  simp [(h.pends t hc).1] at ht

/-- The running task does not wait while it goes on. -/
theorem runTask_not_mem (hN : Next c k v) (hc : c ≠ .schedule) : k.runTask ∉ ts := by
  intro hmem
  have hstart := hN.toCore.started (h.live _ hmem).1
  have hstop := hN.goes hc hstart
  simp [TaskStatus.stops_of_pend (h.pends _ hmem).1] at hstop

end

/-- The first task of another list is woken. -/
theorem wakeFirst_other (h : Waiters k.toSched n ts) (hn : n.isWait = true) {m : Node} (hm : m ≠ n)
    (hm' : m.isWait = true) (f : LosTaskCB → LosTaskCB) : Waiters (k.wakeFirst m f).toSched n ts := by
  unfold wakeFirst
  split
  · rename_i t ht
    have hnot : t ∉ ts := h.not_mem_of_first hm (by rintro t rfl; cases hm') ht
    have hwake := (h.setTCB t f).taskWake hn t
    rwa [filter_ne_self hnot] at hwake
  · exact h.of_heap rfl

theorem queueFinish_other (h : Waiters k.toSched n ts) (hn : n.isWait = true) {rw : ReadWrite}
    (hm : .readWriteList q rw.other ≠ n) : Waiters (k.queueFinish q rw).toSched n ts := by
  unfold queueFinish
  split_ifs
  · exact wakeFirst_other h hn hm rfl id
  · exact h.of_heap rfl

/-- A list that is set up anew is another one. -/
theorem init_other (h : Queued k n ts) {m : Node} (hm : k.inUse m = some false) :
    Owns (k.heap.init m) n (ts.map .pendList) := by
  refine Owns.init h.wait (outside ?_ ?_)
  · rintro rfl
    exact h.used hm
  · rintro t rfl
    cases hm

/-! ### The calls that touch other objects, or none -/

variable {c : Sec}

section
variable (h : Queued k n ts)
include h

theorem recycleFinishedTask : Waiters k.recycleFinishedTask.toSched n ts := by
  unfold State.recycleFinishedTask
  split_ifs
  · exact h.wait
  split
  · rename_i t ht
    have hout := h.wait.not_mem_of_first (by rintro rfl; cases h.isWait) (fun _ => noConfusion) ht
    exact (h.wait.pop h.isWait hout).recycleTaskResources h.isWait h.noJoin hout
  · exact h.wait.of_heap rfl

theorem createTake (p : TskInitParam) (enqueue : Bool) :
    Waiters (k.createTake p enqueue).toSched n ts := by
  unfold State.createTake
  split_ifs
  · exact h.wait
  split
  · rename_i t ht
    exact h.wait.pop h.isWait
      (h.wait.not_mem_of_first (by rintro rfl; cases h.isWait) (fun _ => noConfusion) ht)
  · exact h.wait.of_heap rfl

theorem newTaskInit (t : Nat) (p : TskInitParam) (enqueue : Bool) :
    Waiters (k.newTaskInit t p enqueue).toSched n ts := by
  have hheap : (k.newTaskInit t p enqueue).heap =
      if p.joinable then k.heap.init (.joinList t) else k.heap := by
    rw [k.newTaskInit_toSched]
    rfl
  unfold Waiters
  rw [hheap]
  split_ifs
  · exact Owns.init h.wait (outside (h.noJoin t).symm fun _ => noConfusion)
  · exact h.wait

theorem joinFree {t : Nat} (ht : (k.st t).exit = true) : Waiters (k.joinFree t).toSched n ts := by
  unfold State.joinFree
  rw [toSched_push, toSched_done, toSched_onSched, toSched_onSched]
  exact (h.wait.setTCB t _).recycleTaskResources h.isWait h.noJoin (h.not_mem_of_exit ht)

theorem taskResume (t : Nat) : Waiters (k.taskResume t).toSched n ts := by
  unfold State.taskResume
  split_ifs
  all_goals first
  | exact h.wait
  | exact h.wait.resume h.isWait h.pends t

theorem taskSuspend (t : Nat) : Waiters (k.taskSuspend t).toSched n ts := by
  unfold State.taskSuspend
  split
  · split_ifs
    all_goals first
    | exact h.wait
    | exact h.wait.suspend h.isWait h.pends t
  · exact h.wait

theorem taskJoin (hrun : k.runTask ∉ ts) (t : Nat) : Waiters (k.taskJoin t).toSched n ts := by
  unfold State.taskJoin
  split
  · split_ifs
    all_goals first
    | exact h.wait
    | exact h.wait.taskWait_other h.isWait (h.noJoin t).symm
        (fun _ => noConfusion) hrun waitForever
  · exact h.wait

theorem taskDetach (t : Nat) : Waiters (k.taskDetach t).toSched n ts := by
  unfold State.taskDetach
  split
  · split_ifs
    all_goals first
    | exact h.wait
    | exact Owns.delete_outside h.wait
        (outside (h.noJoin t).symm fun _ => noConfusion)
  · exact h.wait

theorem taskPriSet (t prio : Nat) : Waiters (k.taskPriSet t prio).toSched n ts := by
  unfold State.taskPriSet
  split_ifs
  all_goals first
  | exact h.wait
  | exact h.wait.modifyTaskSchedParam h.isWait h.pends t prio

theorem semCreate (hC : Core k v) (count maxCount : Nat) :
    Waiters (k.semCreate count maxCount).toSched n ts := by
  unfold State.semCreate
  split_ifs
  · exact h.wait
  split
  · exact h.wait
  · rename_i i rest hfree
    have hshut := hC.ipc.sems.shut i (hfree ▸ List.mem_cons_self)
    exact h.init_other (congrArg some hshut)

theorem muxCreate (hC : Core k v) : Waiters k.muxCreate.toSched n ts := by
  unfold State.muxCreate
  split
  · exact h.wait
  · rename_i i rest hfree
    have hshut := hC.ipc.muxes.shut i (hfree ▸ List.mem_cons_self)
    exact h.init_other (congrArg some hshut)

theorem queueCreate (hC : Core k v) (len maxMsgSize : Nat) (memory : Bool) :
    Waiters (k.queueCreate len maxMsgSize memory).toSched n ts := by
  unfold State.queueCreate
  split_ifs
  · exact h.wait
  · exact h.wait
  · exact h.wait
  · exact h.wait
  split
  · exact h.wait
  rename_i q rest hfree
  have hshut := hC.ipc.queues.shut q (hfree ▸ List.mem_cons_self)
  have hout : ∀ rw : ReadWrite, Node.readWriteList q rw ∉ n :: ts.map .pendList := by
    intro rw
    refine outside ?_ fun _ => noConfusion
    rintro rfl
    exact h.used (congrArg some hshut)
  exact Owns.init (Owns.init h.wait (hout .read)) (hout .write)

variable {i : Nat}

theorem semPend_other (hrun : k.runTask ∉ ts) (hi : n ≠ .semList i)
    (timeout : Nat) : Waiters (k.semPend i timeout).toSched n ts := by
  rcases k.semPend_cases i timeout with ⟨e, -, heq⟩ | ⟨-, -, heq⟩ | ⟨-, heq⟩ <;> rw [heq]
  · exact h.wait
  · exact h.wait
  · exact (h.wait.setTCB k.runTask _).taskWait_other h.isWait hi.symm (fun _ => noConfusion)
      hrun timeout

theorem semPost_other (hi : n ≠ .semList i) : Waiters (k.semPost i).toSched n ts := by
  rcases k.semPost_cases i with ⟨e, -, heq⟩ | ⟨-, -, ⟨-, heq⟩ | ⟨-, heq⟩⟩ <;> rw [heq]
  · exact h.wait
  · exact wakeFirst_other h.wait h.isWait hi.symm rfl _
  · exact h.wait

theorem lent (i owner : Nat) : Waiters (k.lent i owner).toSched n ts := by
  have hpends : (k.toSched.setTCB k.runTask fun c => { c with taskMux := some i }).Pends ts := by
    intro t ht
    have hst : (k.toSched.setTCB k.runTask fun c => { c with taskMux := some i }).st t = k.st t := by
      unfold st
      by_cases htr : t = k.runTask
      · rw [htr, setTCB_self]
      · rw [setTCB_of_ne htr]
    rw [hst]
    exact h.pends t ht
  unfold State.lent
  dsimp only
  split_ifs
  · exact Waiters.modifyTaskSchedParam (h.wait.setTCB k.runTask _) h.isWait hpends owner _
  · exact h.wait.setTCB k.runTask _

theorem muxPend_other (hrun : k.runTask ∉ ts) (hi : n ≠ .muxList i)
    (timeout : Nat) : Waiters (k.muxPend i timeout).toSched n ts := by
  rcases k.muxPend_cases i timeout with ⟨e, -, heq⟩ | ⟨-, -, heq⟩ | ⟨-, -, -, heq⟩ |
    ⟨-, ⟨-, heq⟩ | ⟨o, ho, heq⟩⟩ <;> rw [heq]
  · exact h.wait
  · exact h.wait
  · exact h.wait
  · exact h.wait.of_heap rfl
  · exact (h.lent i o).taskWait_other h.isWait hi.symm (fun _ => noConfusion)
      (by rwa [k.lent_runTask]) timeout

theorem restored (i : Nat) : Waiters ((k.released i).restored i).toSched n ts := by
  unfold State.restored
  split_ifs
  · exact Waiters.modifyTaskSchedParam h.wait h.isWait h.pends _ _
  · exact h.wait

theorem muxPost_other (hi : n ≠ .muxList i) : Waiters (k.muxPost i).toSched n ts := by
  rcases k.muxPost_cases i with ⟨e, -, heq⟩ | ⟨-, -, -, ⟨-, heq⟩ | ⟨-, heq⟩⟩ <;> rw [heq]
  · exact h.wait
  · exact h.wait
  have hres := h.restored i
  unfold muxGiven
  dsimp only
  split_ifs
  · split
    · exact wakeFirst_other (k := setMux _ i _) hres h.isWait hi.symm rfl _
    · exact hres.of_heap rfl
  · exact hres

theorem queueOperate_other (hrun : k.runTask ∉ ts)
    (hq : ∀ rw, n ≠ .readWriteList q rw) (rw : ReadWrite) (size timeout : Nat) :
    Waiters (k.queueOperate q rw size timeout).toSched n ts := by
  rcases k.queueOperate_cases q rw size timeout with ⟨e, -, heq⟩ | ⟨-, -, heq⟩ | ⟨-, heq⟩ <;> rw [heq]
  · exact h.wait
  · exact queueFinish_other (k := k.queueTaken q rw) h.wait h.isWait (hq rw.other).symm
  · exact h.wait.taskWait_other h.isWait (hq rw).symm (fun _ => noConfusion) hrun timeout

theorem queuePended_other (hq : ∀ rw, n ≠ .readWriteList q rw)
    (rw : ReadWrite) : Waiters (k.queuePended q rw).toSched n ts := by
  unfold queuePended
  split_ifs
  · exact h.wait
  · exact queueFinish_other h.wait h.isWait (hq rw.other).symm

variable {e : Nat}

theorem eventInit_other (he : n ≠ .stEventList e) :
    Waiters (k.eventInit e).toSched n ts :=
  Owns.init h.wait (outside he.symm fun _ => noConfusion)

theorem eventDestroy_other (he : n ≠ .stEventList e) :
    Waiters (k.eventDestroy e).toSched n ts := by
  unfold eventDestroy
  split_ifs
  · exact h.wait
  · exact Owns.clear h.wait (outside he.symm fun _ => noConfusion)

theorem eventReadLocked_other (hrun : k.runTask ∉ ts)
    (he : n ≠ .stEventList e) (mask mode : BitVec 32) (timeout : Nat) :
    Waiters (k.eventReadLocked e mask mode timeout).toSched n ts := by
  unfold eventReadLocked eventPoll
  dsimp only
  split_ifs
  all_goals first
  | exact h.wait
  | exact (h.wait.setTCB k.runTask _).taskWait_other h.isWait he.symm (fun _ => noConfusion) hrun
      timeout

theorem eventWriteLocked_other (he : n ≠ .stEventList e)
    (events : BitVec 32) : Waiters (k.eventWriteLocked e events).toSched n ts := by
  have hout : Node.stEventList e ∉ n :: ts.map .pendList := outside he.symm fun _ => noConfusion
  have hwake : ∀ event, Waiters (k.toSched.wakeReaders (.stEventList e) events event taskMaxNum
      (k.heap.next (.stEventList e))).1 n ts := fun event =>
    Waiters.wakeReaders h.isWait h.wait fun x hx => Owns.next_outside h.wait hout hx
  unfold eventWriteLocked
  dsimp only
  split_ifs
  · exact hwake _
  · exact hwake _
  · exact h.wait

end

end Queued

/-! ### The code that touches the object -/

namespace Queued

/-- The first task of the list. -/
theorem first_eq (h : Waiters k.toSched n ts) (hn : n.isWait = true) :
    k.first n = ts.head? ∧ k.heap.isEmpty n = ts.isEmpty := by
  unfold first Heap.isEmpty
  cases ts with
  | nil =>
    rw [Owns.next_nil h]
    cases n with
    | semList | muxList | readWriteList | stEventList | joinList => exact ⟨rfl, decide_eq_true rfl⟩
    | _ => cases hn
  | cons t ts =>
    have hnext : k.heap.next n = some (.pendList t) := Owns.next_head h
    rw [hnext]
    refine ⟨rfl, decide_eq_false fun hc => ?_⟩
    rw [← Option.some.inj hc] at hn
    cases hn

/-- Nothing points to the `pendList` node of the running task. -/
theorem runTask_free (hN : Next c k v) (hc : c ≠ .schedule) (hstart : k.taskScheduled = true)
    (y : Node) :
    k.heap.next y ≠ some (.pendList k.runTask) ∧ k.heap.prev y ≠ some (.pendList k.runTask) := by
  obtain ⟨-, -, hp, -, -, hu⟩ := TaskStatus.stops_eq_false (hN.goes hc hstart)
  have hlt := hN.runTask_lt hc hstart
  rw [← hN.eq] at hp hu hlt ⊢
  exact v.runTask_free hlt hu hp y

/-- The task that is woken because `t` ends waits in another list. -/
theorem taskJoinPost_pends (h : Queued k n ts) (t lock : Nat) :
    ({ k.toSched with losTaskLock := lock }.taskJoinPost t).Pends ts := by
  intro u hu
  have htcb : ({ k.toSched with losTaskLock := lock }.taskJoinPost t).tcb u = k.tcb u := by
    unfold taskJoinPost
    split_ifs
    · split
      · rename_i w hw
        have hw' : k.toSched.first (.joinList t) = some w := hw
        have hne : u ≠ w := fun hc => h.wait.not_mem_of_first (h.noJoin t).symm
          (fun _ => noConfusion) hw' (hc ▸ hu)
        exact taskWake_tcb_of_ne _ w hne
      · rfl
    · rfl
  unfold st
  rw [htcb]
  exact h.pends u hu

theorem taskDelete (h : Queued k n ts) (t : Nat) :
    Waiters (k.taskDelete t).toSched n (if k.deletes t then ts.filter (· ≠ t) else ts) := by
  rcases k.taskDelete_eq t with ⟨hdel, heq⟩ | ⟨hdel, e, heq⟩
  · rw [hdel, if_pos rfl, heq]
    have hout : t ∉ ts.filter (· ≠ t) := by simp
    have hended : Waiters (k.ended t (k.lockFor t)).toSched n (ts.filter (· ≠ t)) := by
      have hlock : Waiters { k.toSched with losTaskLock := k.lockFor t } n ts := h.wait
      have hpost := hlock.taskJoinPost h.isWait h.noJoin t
      have hpends : ({ k.toSched with losTaskLock := k.lockFor t }.taskJoinPost t).Pends ts :=
        h.taskJoinPost_pends t _
      exact (hpost.taskExit h.isWait hpends t).setTCB t _
    generalize k.ended t (k.lockFor t) = k1 at hended ⊢
    unfold buried
    split_ifs
    · exact Owns.tailInsert hended (outside_of_not_wait h.isWait rfl fun _ => noConfusion)
        (pendList_outside h.isWait hout)
    · exact hended
    · exact hended.recycleTaskResources h.isWait h.noJoin hout
  · rw [hdel, heq]
    exact h.wait

end Queued

/-- **A piece of code that does not touch an object leaves its wait list alone.** -/
theorem Next.waiters_other (hN : Next c k v) (hcare : k.CarefulSec c) (h : Queued k n ts)
    (htouch : c.touches n = false) (hevent : c.touchesEvent n = false) :
    Waiters (k.run c).toSched n ts := by
  have hrun : c ≠ .schedule → k.runTask ∉ ts := h.runTask_not_mem hN
  cases c with
  | taskDelete => cases htouch
  | taskDelay | taskUnlock | semDelete | muxDelete | queueDelete | eventWrite | memFree | semPended | muxPended
  | eventPended =>
    refine h.wait.of_heap ?_
    dsimp only [State.run, taskDelay, taskUnlock, semDelete, muxDelete, queueDelete, eventWrite, memFree, semPended,
      muxPended, eventPended, eventPoll]
    split_ifs <;> rfl
  | taskCreate =>
    refine h.wait.of_heap ?_
    dsimp only [State.run, taskCreate]
    split <;> rfl
  | recycleFinishedTask => exact h.recycleFinishedTask
  | taskResume t => exact h.taskResume t
  | taskSuspend t => exact h.taskSuspend t
  | taskJoin t => exact h.taskJoin (hrun Sec.noConfusion) t
  | taskDetach t => exact h.taskDetach t
  | taskYield | taskLock | eventClear => exact h.wait
  | taskPriSet t prio => exact h.taskPriSet t prio
  | semCreate count maxCount => exact h.semCreate hN.toCore count maxCount
  | semPend i timeout => exact h.semPend_other (hrun Sec.noConfusion) (of_decide_eq_false htouch) timeout
  | semPost i => exact h.semPost_other (of_decide_eq_false htouch)
  | muxCreate => exact h.muxCreate hN.toCore
  | muxPend i timeout => exact h.muxPend_other (hrun Sec.noConfusion) (of_decide_eq_false htouch) timeout
  | muxPost i => exact h.muxPost_other (of_decide_eq_false htouch)
  | queueCreate len maxMsgSize memory => exact h.queueCreate hN.toCore len maxMsgSize memory
  | queueOperate q rw size timeout =>
    exact h.queueOperate_other (hrun Sec.noConfusion) (ne_of_touches htouch) rw size timeout
  | queuePended q rw => exact h.queuePended_other (ne_of_touches htouch) rw
  | eventInit e => exact h.eventInit_other (of_decide_eq_false hevent)
  | eventRead =>
    refine h.wait.of_heap ?_
    dsimp only [State.run, eventRead]
    split
    · split_ifs <;> rfl
    · rfl
  | eventDestroy e => exact h.eventDestroy_other (of_decide_eq_false hevent)
  | schedule => exact h.wait.schedule h.isWait h.pends h.idle
  | createTake p enqueue => exact h.createTake p enqueue
  | newTaskInit t p enqueue => exact h.newTaskInit t p enqueue
  | insertTCBToFreeList t =>
    exact h.wait.insertTCBToFreeList h.isWait h.noJoin (h.not_mem_of_pend hcare.1.pend)
  | createEnQueue t => exact h.wait.taskEnQueue h.isWait (h.not_mem_of_pend hcare.pend)
  | joinFree t => exact h.joinFree hcare.1
  | eventReadLocked e mask mode timeout =>
    exact h.eventReadLocked_other (hrun Sec.noConfusion) (of_decide_eq_false hevent) mask mode timeout
  | eventWriteLocked e events => exact h.eventWriteLocked_other (of_decide_eq_false hevent) events

end

end LiteosM.Kernel
