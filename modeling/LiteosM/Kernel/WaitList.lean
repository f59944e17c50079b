import LiteosM.Kernel.Kept
import LiteosM.Lib.Fence

/-!
# One wait list

`Waiters s n ts`: the tasks `ts` wait in the list `n`, in this order. What the functions of the scheduler do
to one such list, and then every piece of code: only the pend and post calls on the object itself, the
deletion of a waiting task and the tick touch it.

* `Waiters.taskWake`, `Waiters.taskWait_self`, `Waiters.taskWait_other` and the like: each function of the
  scheduler;
* `Waiters.archTaskSchedule`: a switch moves nobody in a wait list;
* `Waiters.schedTickHandler`: after a tick the list is a part of what it was, and who has left it was told
  so (`Lapsed`).

The proofs use the fence of `Lib.Fence`: they ask nothing of the lists of other objects.
-/

namespace LiteosM.Kernel

open LiteosM.Lib List Option Sched
open Node (pendList noConfusion)

/-- The `pendList` nodes in the list of `n` are those of the tasks `ts`. -/
def Waiters (s : Sched) (n : Node) (ts : List Nat) : Prop := Owns s.heap n (ts.map .pendList)

/-- The tasks that wait in a list are pending, and not in a ready queue. -/
def Sched.Pends (s : Sched) (ts : List Nat) : Prop :=
  ∀ t ∈ ts, (s.st t).pend = true ∧ (s.st t).ready = false

section
variable {n : Node} {ts : List Nat} {t : Nat}

theorem pendList_outside (hn : n.isWait = true) (ht : t ∉ ts) : .pendList t ∉ n :: ts.map .pendList := by
  rw [mem_cons, List.mem_map, not_or]
  refine ⟨fun hc => ?_, fun ⟨u, hu, hc⟩ => ht (pendList.inj hc ▸ hu)⟩
  rw [← hc] at hn
  cases hn

/-- What is neither the head nor a `pendList` node. -/
theorem outside {m : Node} (hm : m ≠ n) (hp : ∀ t, m ≠ .pendList t) : m ∉ n :: ts.map .pendList := by
  rw [mem_cons, List.mem_map, not_or]
  exact ⟨hm, fun ⟨t, _, hc⟩ => hp t hc.symm⟩

theorem outside_of_not_wait {m : Node} (hn : n.isWait = true) (hm : m.isWait = false)
    (hp : ∀ t, m ≠ .pendList t) : m ∉ n :: ts.map .pendList :=
  outside (fun hc => by rw [hc, hn] at hm; cases hm) hp

theorem filter_map_pendList (t : Nat) (ts : List Nat) :
    (ts.map pendList).filter (· ≠ .pendList t) = (ts.filter (· ≠ t)).map .pendList := by
  rw [List.filter_map]
  congr 2
  funext u
  simp [Function.comp]

theorem filter_ne_self (ht : t ∉ ts) : ts.filter (· ≠ t) = ts :=
  filter_eq_self.mpr fun _ hu => decide_eq_true fun hc => ht (hc ▸ hu)

end

namespace Waiters

variable {s s' : Sched} {n : Node} {ts : List Nat} {t : Nat}

section
variable (h : Waiters s n ts)
include h

theorem of_heap (hs : s'.heap = s.heap) : Waiters s' n ts := by
  unfold Waiters
  rwa [hs]

theorem setTCB (t : Nat) (f : LosTaskCB → LosTaskCB) : Waiters (s.setTCB t f) n ts :=
  h

theorem nodup : ts.Nodup := Nodup.of_map _ (Owns.nodup h)

/-- `LOS_ListDelete(&taskCB->pendList)`. -/
theorem delete (hn : n.isWait = true) (t : Nat) :
    Owns (s.heap.delete (.pendList t)) n ((ts.filter (· ≠ t)).map .pendList) := by
  rw [← filter_map_pendList]
  refine Owns.delete h ?_
  rintro rfl
  cases hn

/-- The first task of another list does not wait in this one. -/
theorem not_mem_of_first {m : Node} (hm : m ≠ n) (hp : ∀ t, m ≠ .pendList t)
    (ht : s.first m = some t) : t ∉ ts := by
  unfold first at ht
  split at ht
  · rename_i u hu
    cases ht
    intro hc
    exact Owns.next_outside h (outside hm hp) hu (mem_cons_of_mem n (mem_map_of_mem hc))
  · cases ht

end

/-! ## The functions of the scheduler -/

section
variable (h : Waiters s n ts)
include h

section
variable (hn : n.isWait = true)
include hn

theorem deleteSortLink (t : Nat) : Waiters (s.deleteSortLink t) n ts := by
  unfold Sched.deleteSortLink
  split_ifs
  · refine of_heap (s := s.setHeap (s.heap.delete (.sortList t))) ?_ ?_
    · exact Owns.delete_outside h (outside_of_not_wait hn rfl fun _ => noConfusion)
    · unfold resetSchedResponseTime
      split_ifs <;> rfl
  · exact h

theorem deleteNodeSortLink (t : Nat) : Waiters (s.deleteNodeSortLink t) n ts :=
  Owns.delete_outside h (outside_of_not_wait hn rfl fun _ => noConfusion)

theorem addNode2SortLink (t : Nat) : Waiters (s.addNode2SortLink t) n ts := by
  have hhead : Node.taskSortLink ∉ n :: ts.map .pendList :=
    outside_of_not_wait hn rfl fun _ => noConfusion
  unfold Sched.addNode2SortLink
  split
  · rename_i h' hadd
    obtain ⟨a, rfl, ha⟩ := SortLink.addNode2SortLink_cases hadd
    refine Owns.add h ?_ (outside_of_not_wait hn rfl fun _ => noConfusion)
    rcases ha with rfl | ha | ha
    · exact hhead
    · exact Owns.next_outside h hhead ha
    · exact Owns.findBack h (fun y hy => Owns.prev_outside h hhead hy) ha
  · exact h.of_heap rfl

theorem taskEnQueue (ht : t ∉ ts) : Waiters (s.taskEnQueue t) n ts := by
  have hq : ∀ p, Node.priQueue p ∉ n :: ts.map .pendList := fun p =>
    outside_of_not_wait hn rfl fun _ => noConfusion
  have hx := pendList_outside hn ht
  unfold Sched.taskEnQueue
  dsimp only
  split_ifs
  · exact h.of_heap rfl
  · exact Owns.add h (hq _) hx
  · exact Owns.tailInsert h (hq _) hx
  · exact h.of_heap rfl

theorem taskDeQueue (ht : (s.st t).ready = true → t ∉ ts) : Waiters (s.taskDeQueue t) n ts := by
  unfold Sched.taskDeQueue
  dsimp only
  split_ifs with hr
  · exact Owns.delete_outside h (pendList_outside hn (ht hr))
  · exact h.of_heap rfl
  · exact h

theorem endWait (t : Nat) : Waiters (s.endWait t) n (ts.filter (· ≠ t)) := by
  have hdel : Waiters ((s.setHeap (s.heap.delete (.pendList t))).setSt t
      fun st => { st with pend := false }) n (ts.filter (· ≠ t)) := h.delete hn t
  unfold Sched.endWait
  dsimp only
  split_ifs
  · exact (hdel.deleteSortLink hn t).of_heap rfl
  · exact hdel

theorem taskWake (t : Nat) : Waiters (s.taskWake t) n (ts.filter (· ≠ t)) := by
  unfold Sched.taskWake
  dsimp only
  split_ifs
  · exact (h.endWait hn t).taskEnQueue hn (by simp)
  · exact h.endWait hn t

theorem taskExit (hp : s.Pends ts) (t : Nat) : Waiters (s.taskExit t) n (ts.filter (· ≠ t)) := by
  have hleave : Waiters (s.leaveQueue t) n (ts.filter (· ≠ t)) := by
    have hready : (s.st t).ready = true → t ∉ ts := fun hr hc => by simp [(hp t hc).2] at hr
    unfold leaveQueue
    split_ifs with hr hpend
    · rw [filter_ne_self (hready hr)]
      exact h.taskDeQueue hn hready
    · exact h.delete hn t
    · have ht : t ∉ ts := fun hc => hpend (hp t hc).1
      rwa [filter_ne_self ht]
  unfold Sched.taskExit Sched.leaveSortLink
  split_ifs
  · exact (hleave.deleteSortLink hn t).of_heap rfl
  · exact hleave.of_heap rfl

theorem suspend (hp : s.Pends ts) (t : Nat) : Waiters (s.suspend t) n ts := by
  unfold Sched.suspend
  split_ifs with hr
  · refine (h.taskDeQueue hn fun _ hc => ?_).of_heap rfl
    simp [(hp t hc).2] at hr
  · exact h.of_heap rfl

theorem resume (hp : s.Pends ts) (t : Nat) : Waiters (s.resume t) n ts := by
  unfold Sched.resume
  dsimp only
  split_ifs with hres
  · refine (h.setTCB t _).taskEnQueue hn fun hc => ?_
    unfold resumes st at hres
    have hpend : (s.tcb t).taskStatus.pend = true := (hp t hc).1
    simp [hpend] at hres
  · exact h.of_heap rfl

theorem modifyTaskSchedParam (hp : s.Pends ts) (t p : Nat) :
    Waiters (s.modifyTaskSchedParam t p) n ts := by
  unfold Sched.modifyTaskSchedParam
  split_ifs with hr
  · have ht : t ∉ ts := fun hc => by simp [(hp t hc).2] at hr
    exact ((h.taskDeQueue hn fun _ => ht).setTCB t _).taskEnQueue hn ht
  · exact h.of_heap rfl

theorem taskWait_other {m : Node} (hm : m ≠ n)
    (hm' : ∀ t, m ≠ .pendList t) (hrun : s.runTask ∉ ts) (ticks : Nat) :
    Waiters (s.taskWait m ticks) n ts := by
  have hins : Waiters ((s.setSt s.runTask fun st => { st with pend := true }).setHeap
      (s.heap.tailInsert m (.pendList s.runTask))) n ts :=
    Owns.tailInsert h (outside hm hm') (pendList_outside hn hrun)
  unfold taskWait
  split_ifs
  · exact hins.of_heap rfl
  · exact hins

/-- The running task, which is in no list, is put behind the tasks that wait. -/
theorem taskWait_self (hrun : s.runTask ∉ ts)
    (hfree : ∀ y, s.heap.next y ≠ some (.pendList s.runTask) ∧ s.heap.prev y ≠ some (.pendList s.runTask))
    (ticks : Nat) : Waiters (s.taskWait n ticks) n (ts ++ [s.runTask]) := by
  have hins : Owns (s.heap.tailInsert n (.pendList s.runTask)) n
      ((ts ++ [s.runTask]).map .pendList) := by
    rw [map_append]
    exact Owns.append h (pendList_outside hn hrun) hfree
  unfold taskWait
  split_ifs
  · exact of_heap (s := s.setHeap _) hins rfl
  · exact hins

theorem insertTCBToFreeList (hj : ∀ t, n ≠ .joinList t)
    (ht : t ∉ ts) : Waiters (s.insertTCBToFreeList t) n ts := by
  have hx := pendList_outside hn ht
  exact Owns.add (Owns.clear (Owns.clear (Owns.clear h hx)
    (outside_of_not_wait hn rfl fun _ => noConfusion)) (outside (hj t).symm fun _ => noConfusion))
    (outside_of_not_wait hn rfl fun _ => noConfusion) hx

theorem recycleTaskResources (hj : ∀ t, n ≠ .joinList t)
    (ht : t ∉ ts) : Waiters (s.recycleTaskResources t) n ts := by
  unfold Sched.recycleTaskResources
  dsimp only
  split_ifs
  · exact (h.of_heap rfl).insertTCBToFreeList hn hj ht
  · exact h.of_heap rfl
  · exact h.insertTCBToFreeList hn hj ht
  · exact h

theorem pop (ht : t ∉ ts) : Waiters (s.pop t) n ts :=
  Owns.delete_outside h (pendList_outside hn ht)

theorem taskJoinPost (hj : ∀ t, n ≠ .joinList t) (t : Nat) : Waiters (s.taskJoinPost t) n ts := by
  unfold Sched.taskJoinPost
  split_ifs
  · split
    · rename_i u hu
      rw [← filter_ne_self (h.not_mem_of_first (hj t).symm (fun _ => noConfusion) hu)]
      exact h.taskWake hn u
    · exact h.of_heap rfl
  · exact h

end

end

theorem wakeReaders {m : Node} {events event : BitVec 32} (hn : n.isWait = true) :
    ∀ {fuel : Nat} {s : Sched} {y : Option Node}, Waiters s n ts →
      (∀ x, y = some x → x ∉ n :: ts.map .pendList) →
      Waiters (s.wakeReaders m events event fuel y).1 n ts
  | 0, s, y, h, hy => by
    unfold Sched.wakeReaders
    exact h
  | fuel + 1, s, none, h, hy => by
    unfold Sched.wakeReaders
    exact h.of_heap rfl
  | fuel + 1, s, some x, h, hy => by
    cases x with
    | pendList t =>
      have ht : t ∉ ts := fun hc => hy _ rfl (mem_cons_of_mem n (mem_map_of_mem hc))
      have hnext : ∀ x, s.heap.next (.pendList t) = some x → x ∉ n :: ts.map .pendList := fun x hx =>
        Owns.next_outside h (hy _ rfl) hx
      unfold Sched.wakeReaders
      dsimp only
      split_ifs
      · have hwake := h.taskWake hn t
        rw [filter_ne_self ht] at hwake
        exact wakeReaders hn hwake hnext
      · exact wakeReaders hn h hnext
    | _ =>
      unfold Sched.wakeReaders
      split_ifs
      · exact h
      · exact h.of_heap rfl

/-! ## The switch -/

theorem putRunTask (h : Waiters s n ts) (hn : n.isWait = true) (hp : s.Pends ts) :
    Waiters s.putRunTask n ts := by
  unfold Sched.putRunTask
  dsimp only
  split_ifs with htime hblock
  · exact ((h.setTCB s.runTask _).setTCB s.runTask _).addNode2SortLink hn _
  · refine (h.setTCB s.runTask _).taskEnQueue hn fun hc => ?_
    have hpend := (hp _ hc).1
    unfold st at hpend
    unfold timeSliceUpdate st at hblock
    simp [TaskStatus.blocked, hpend] at hblock
  · exact h.of_heap rfl

theorem setNextExpireTime_heap (s : Sched) (responseID taskEndTime : Nat) :
    (s.setNextExpireTime responseID taskEndTime).heap = s.heap := by
  unfold setNextExpireTime
  dsimp only
  split_ifs <;> rfl

/-- A task at the head of a ready queue does not wait. -/
theorem not_mem_of_top (h : Waiters s n ts) (hn : n.isWait = true) (hidle : s.idleTaskID ∉ ts)
    {new : Nat} (htop : s.getTopTask = some new) : new ∉ ts := by
  unfold getTopTask at htop
  split_ifs at htop
  · split at htop
    · rename_i u hu
      cases htop
      intro hc
      exact Owns.next_outside h (outside_of_not_wait hn rfl fun _ => noConfusion) hu
        (mem_cons_of_mem n (mem_map_of_mem hc))
    · cases htop
  · exact some.inj htop ▸ hidle

theorem takeNewTask (h : Waiters s n ts) (hn : n.isWait = true) {new : Nat} (hnew : new ∉ ts) :
    Waiters (s.takeNewTask new).1 n ts := by
  refine of_heap ?_ (setNextExpireTime_heap _ _ _)
  split_ifs
  all_goals
    exact taskDeQueue (h.of_heap rfl) hn fun _ => hnew

theorem putRunTask_idleTaskID (s : Sched) : s.putRunTask.idleTaskID = s.idleTaskID := by
  unfold Sched.putRunTask Sched.add2SortLink Sched.addNode2SortLink Sched.taskEnQueue
  dsimp only
  split_ifs
  all_goals first
  | rfl
  | (split <;> rfl)

section
variable (h : Waiters s n ts) (hn : n.isWait = true) (hp : s.Pends ts) (hidle : s.idleTaskID ∉ ts)
include h hn hp hidle

theorem archTaskSchedule : Waiters s.archTaskSchedule n ts := by
  have hswitch : Waiters s.taskSwitch.1 n ts := by
    unfold taskSwitch
    split_ifs
    · exact h.of_heap rfl
    dsimp only
    have hput := h.putRunTask hn hp
    split
    · rename_i new htop
      exact hput.takeNewTask hn (hput.not_mem_of_top hn (by rwa [putRunTask_idleTaskID]) htop)
    · exact hput.of_heap rfl
  unfold Sched.archTaskSchedule
  dsimp only
  split_ifs
  · exact hswitch.of_heap rfl
  · exact hswitch

theorem schedule : Waiters s.schedule n ts := by
  unfold Sched.schedule
  split_ifs
  · exact h.archTaskSchedule hn hp hidle
  · exact h

end

/-! ## The tick -/

theorem wakePendTimeTask (h : Waiters s n ts) (hn : n.isWait = true) (hp : s.Pends ts) (t : Nat) :
    Waiters (s.wakePendTimeTask t) n (ts.filter (· ≠ t)) := by
  have hout : (s.st t).pend ≠ true → ts.filter (· ≠ t) = ts := fun hno =>
    filter_ne_self fun hc => hno (hp t hc).1
  have htime : Waiters (s.timeOut t) n (ts.filter (· ≠ t)) := by
    unfold timeOut
    dsimp only
    split_ifs with hpend
    · exact h.delete hn t
    · rw [hout hpend]
      exact h.of_heap rfl
  unfold Sched.wakePendTimeTask
  dsimp only
  split_ifs with hwait hsus
  · exact htime.taskEnQueue hn (by simp)
  · exact htime
  · rw [Bool.or_eq_true, not_or] at hwait
    rwa [hout hwait.1]

end Waiters

/-! ### What the tick tells the tasks -/

namespace Sched

variable (s : Sched) (t : Nat) {u : Nat}

theorem taskEnQueue_tcb_of_ne (hu : u ≠ t) : (s.taskEnQueue t).tcb u = s.tcb u := by
  unfold taskEnQueue
  dsimp only
  split_ifs
  · rfl
  · rw [setSt_of_ne hu]
    rfl
  · rw [setSt_of_ne hu, priQueueEnTail_tcb, setTCB_of_ne hu]
  · rw [setSt_of_ne hu]

theorem modifyTaskSchedParam_tcb_of_ne (hu : u ≠ t) (p : Nat) :
    (s.modifyTaskSchedParam t p).tcb u = s.tcb u := by
  unfold modifyTaskSchedParam
  split_ifs
  · rw [taskEnQueue_tcb_of_ne _ _ hu, setTCB_of_ne hu, taskDeQueue_tcb, Function.update_of_ne hu]
  · rw [setTCB_of_ne hu]

theorem deleteSortLink_tcb_of_ne (hu : u ≠ t) : (s.deleteSortLink t).tcb u = s.tcb u := by
  unfold deleteSortLink
  split_ifs
  · unfold deleteNodeSortLink
    rw [setTCB_of_ne hu]
    unfold resetSchedResponseTime
    split_ifs <;> rfl
  · rfl

theorem taskWake_tcb_of_ne (hu : u ≠ t) : (s.taskWake t).tcb u = s.tcb u := by
  have hend : (s.endWait t).tcb u = s.tcb u := by
    unfold endWait
    dsimp only
    split_ifs
    · rw [setSt_of_ne hu, deleteSortLink_tcb_of_ne _ t hu, setSt_of_ne hu, setHeap_tcb]
    · rw [setSt_of_ne hu, setHeap_tcb]
  unfold taskWake
  dsimp only
  split_ifs
  · rw [taskEnQueue_tcb_of_ne _ t hu, hend]
  · exact hend

theorem wakePendTimeTask_tcb_of_ne (hu : u ≠ t) : (s.wakePendTimeTask t).tcb u = s.tcb u := by
  have htime : (s.timeOut t).tcb u = s.tcb u := by
    unfold timeOut
    dsimp only
    split_ifs
    · rw [setTCB_of_ne hu, setHeap_tcb, setSt_of_ne hu]
    · rw [setSt_of_ne hu]
  unfold wakePendTimeTask
  dsimp only
  split_ifs
  · rw [taskEnQueue_tcb_of_ne _ t hu, htime]
  · exact htime
  · rfl

/-- `OsSchedWakePendTimeTask` tells a task that waits that its time is up. -/
theorem wakePendTimeTask_self :
    ((s.wakePendTimeTask t).st t).pend = false ∧
      (s.wakePendTimeTask t).kept t = ((s.kept t).1, (s.st t).pend || (s.kept t).2) := by
  have htime : ((s.timeOut t).st t).pend = false ∧
      (s.timeOut t).kept t = ((s.kept t).1, (s.st t).pend || (s.kept t).2) := by
    unfold timeOut kept st
    dsimp only
    split_ifs with hpend
    · rw [setTCB_self, setHeap_tcb, setSt_self, hpend]
      exact ⟨rfl, rfl⟩
    · rw [setSt_self, Bool.eq_false_iff.mpr hpend]
      exact ⟨rfl, rfl⟩
  unfold wakePendTimeTask
  dsimp only
  split_ifs with hwait
  · rw [kept_of_held (sinks_taskEnQueue _ t).held]
    refine ⟨?_, htime.2⟩
    unfold taskEnQueue
    split_ifs
    · exact htime.1
    all_goals
      rw [setSt_st]
  · exact htime
  · rw [Bool.or_eq_true, not_or, Bool.not_eq_true] at hwait
    exact ⟨hwait.1, by rw [hwait.1]; rfl⟩

theorem wish_setTCB {f : LosTaskCB → LosTaskCB} (hf : ∀ c, (f c).wish = c.wish) :
    (s.setTCB t f).wish = s.wish := by
  funext u
  unfold wish
  by_cases hu : u = t
  · rw [hu, setTCB_self, hf]
  · rw [setTCB_of_ne hu]

theorem wish_wakePendTimeTask : (s.wakePendTimeTask t).wish = s.wish := by
  have hst : (s.setSt t fun st => { st with pend := false, pendTime := false, delay := false }).wish =
      s.wish := wish_setTCB s t fun _ => rfl
  have htime : (s.timeOut t).wish = s.wish := by
    unfold timeOut
    dsimp only
    split_ifs
    · exact (wish_setTCB _ t (by intro c; rfl)).trans hst
    · exact hst
  unfold wakePendTimeTask
  dsimp only
  split_ifs
  · rw [wish_of_held (sinks_taskEnQueue _ t).held, htime]
  · exact htime
  · rfl

end Sched

/-- What a tick does to the tasks that wait in a list: some leave it, and are told that their time
was up. -/
structure Lapsed (s s' : Sched) (ts ts' : List Nat) : Prop where
  sub : ts'.Sublist ts
  gone : ∀ u ∈ ts, u ∉ ts' → (s'.kept u).2 = true
  stay : ∀ u, u ∈ ts' ∨ (s.st u).pend = false → s'.kept u = s.kept u
  prio : ∀ u, (s'.kept u).1 = (s.kept u).1
  wish : s'.wish = s.wish

theorem Lapsed.refl {s s' : Sched} (hs : s'.held = s.held) (ts : List Nat) : Lapsed s s' ts ts := by
  have hkept := kept_of_held hs
  exact ⟨.refl ts, fun _ hu hno => absurd hu hno, fun _ _ => by rw [hkept], fun _ => by rw [hkept],
    wish_of_held hs⟩

/-- What happens afterwards and leaves the timeout bits alone. -/
theorem Lapsed.then {s s' s'' : Sched} {ts ts' : List Nat} (h : Lapsed s s' ts ts')
    (hs : s''.held = s'.held) : Lapsed s s'' ts ts' := by
  have hkept := kept_of_held hs
  refine ⟨h.sub, ?_, ?_, ?_, (wish_of_held hs).trans h.wish⟩
  all_goals rw [hkept]
  exacts [h.gone, h.stay, h.prio]

namespace Waiters

variable {s : Sched} {n : Node} {ts : List Nat}

theorem expire (h : Waiters s n ts) (hn : n.isWait = true) (hp : s.Pends ts) (t : Nat) :
    Waiters ((s.deleteNodeSortLink t).wakePendTimeTask t) n (ts.filter (· ≠ t)) ∧
      Lapsed s ((s.deleteNodeSortLink t).wakePendTimeTask t) ts (ts.filter (· ≠ t)) ∧
      (((s.deleteNodeSortLink t).wakePendTimeTask t).st t).pend = false ∧
      ∀ u, u ≠ t → ((s.deleteNodeSortLink t).wakePendTimeTask t).tcb u = s.tcb u := by
  have hst : (s.deleteNodeSortLink t).st t = s.st t := by
    unfold Sched.deleteNodeSortLink Sched.st
    rw [setTCB_self, setHeap_tcb]
  have htcb : ∀ u, u ≠ t → (s.deleteNodeSortLink t).tcb u = s.tcb u := by
    intro u hu
    unfold Sched.deleteNodeSortLink
    rw [setTCB_of_ne hu, setHeap_tcb]
  have hother : ∀ u, u ≠ t → ((s.deleteNodeSortLink t).wakePendTimeTask t).tcb u = s.tcb u :=
    fun u hu => (wakePendTimeTask_tcb_of_ne _ t hu).trans (htcb u hu)
  have hself := wakePendTimeTask_self (s.deleteNodeSortLink t) t
  rw [kept_of_held (sinks_deleteNodeSortLink s t).held, hst] at hself
  have hkept : ∀ u, u ≠ t → ((s.deleteNodeSortLink t).wakePendTimeTask t).kept u = s.kept u := by
    intro u hu
    unfold kept
    rw [hother u hu]
  have hp' : (s.deleteNodeSortLink t).Pends ts := by
    intro u hu
    by_cases hut : u = t
    · rw [hut, hst]
      exact hp t (hut ▸ hu)
    · unfold st
      rw [htcb u hut]
      exact hp u hu
  refine ⟨(h.deleteNodeSortLink hn t).wakePendTimeTask hn hp' t,
    ⟨filter_sublist, fun u hu hout => ?_, fun u hu => ?_, fun u => ?_,
      (wish_wakePendTimeTask _ t).trans (wish_of_held (sinks_deleteNodeSortLink s t).held)⟩,
    hself.1, hother⟩
  · obtain rfl : u = t := by simpa [hu] using hout
    rw [hself.2, (hp u hu).1]
    rfl
  · by_cases hut : u = t
    · subst hut
      have hpend : (s.st u).pend = false := hu.resolve_left (by simp)
      rw [hself.2, hpend]
      rfl
    · exact hkept u hut
  · by_cases hut : u = t
    · rw [hut, hself.2]
    · rw [hkept u hut]

theorem scanLoop (hn : n.isWait = true) (fuel : Nat) : ∀ {s : Sched} {ts : List Nat}, Waiters s n ts →
    s.Pends ts → ∃ ts', Waiters (scanLoop fuel s) n ts' ∧
      Lapsed s (scanLoop fuel s) ts ts' ∧ (scanLoop fuel s).Pends ts' := by
  induction fuel with
  | zero => exact fun {s ts} h hp => ⟨ts, h, .refl (by rfl) ts, hp⟩
  | succ fuel ih =>
    intro s ts h hp
    unfold Sched.scanLoop
    split_ifs
    · exact ⟨ts, h, .refl (by rfl) ts, hp⟩
    split
    · rename_i t _
      split_ifs
      · obtain ⟨h1, hl1, hpend, htcb⟩ := h.expire hn hp t
        generalize (s.deleteNodeSortLink t).wakePendTimeTask t = s1 at h1 hl1 hpend htcb ⊢
        have hp1 : s1.Pends (ts.filter (· ≠ t)) := by
          intro u hu
          obtain ⟨hu, hut⟩ := mem_filter.mp hu
          unfold st
          rw [htcb u (of_decide_eq_true hut)]
          exact hp u hu
        obtain ⟨ts', h', hl', hp'⟩ := ih h1 hp1
        refine ⟨ts', h', ⟨hl'.sub.trans hl1.sub, fun u hu hno => ?_, fun u hu => ?_,
          fun u => (hl'.prio u).trans (hl1.prio u), hl'.wish.trans hl1.wish⟩, hp'⟩
        · by_cases hu1 : u ∈ ts.filter (· ≠ t)
          · exact hl'.gone u hu1 hno
          -- it was the task that has just been taken out, and nothing happens to it any more
          have hut : u = t := by simpa [hu] using hu1
          rw [hl'.stay u (.inr (hut ▸ hpend))]
          exact hl1.gone u hu hu1
        have hu1 : u ∈ ts' ∨ (s1.st u).pend = false := by
          refine hu.imp_right fun hu => ?_
          by_cases hut : u = t
          · exact hut ▸ hpend
          · unfold st
            rwa [htcb u hut]
        rw [hl'.stay u hu1, hl1.stay u (hu.imp_left fun hc => hl'.sub.subset hc)]
      · exact ⟨ts, h, .refl (by rfl) ts, hp⟩
    · exact ⟨ts, h.of_heap rfl, .refl (by rfl) ts, hp⟩

theorem scanLoop_idleTaskID (fuel : Nat) : ∀ s : Sched,
    (Sched.scanLoop fuel s).idleTaskID = s.idleTaskID := by
  have hexpire : ∀ (s : Sched) t, ((s.deleteNodeSortLink t).wakePendTimeTask t).idleTaskID = s.idleTaskID := by
    intro s t
    unfold Sched.wakePendTimeTask Sched.timeOut Sched.taskEnQueue
    dsimp only
    split_ifs <;> rfl
  induction fuel with
  | zero => exact fun _ => rfl
  | succ fuel ih =>
    intro s
    unfold Sched.scanLoop
    split_ifs
    · rfl
    split
    · split_ifs
      · exact (ih _).trans (hexpire s _)
      · rfl
    · rfl

/-- **A tick takes tasks out of a wait list, and tells each that its time was up.** -/
theorem schedTickHandler (h : Waiters s n ts) (hn : n.isWait = true) (hp : s.Pends ts)
    (hidle : s.idleTaskID ∉ ts) :
    ∃ ts', Waiters s.schedTickHandler n ts' ∧ Lapsed s s.schedTickHandler ts ts' := by
  by_cases hstart : s.taskScheduled = true
  · obtain ⟨s1, hs1⟩ : ∃ s1, s1 = if s.schedResponseID = osInvalid then s.scanTimerList else s := ⟨_, rfl⟩
    obtain ⟨ts', h1, hl1, hp1, hidle1⟩ : ∃ ts', Waiters s1 n ts' ∧ Lapsed s s1 ts ts' ∧ s1.Pends ts' ∧
        s1.idleTaskID ∉ ts' := by
      rw [hs1]
      split_ifs
      · obtain ⟨ts', h', hl', hp'⟩ := scanLoop hn taskMaxNum h hp
        refine ⟨ts', h', hl', hp', fun hc => hidle ?_⟩
        rw [show s.scanTimerList.idleTaskID = s.idleTaskID from scanLoop_idleTaskID taskMaxNum s] at hc
        exact hl'.sub.subset hc
      · exact ⟨ts, h, .refl rfl ts, hp, hidle⟩
    rw [schedTickHandler_eq hstart hs1]
    have hheld : s1.ticked.held = s1.held := (sinks_timeSliceUpdate s1 s1.runTask s1.currTime).held
    have hpt : s1.ticked.Pends ts' := by
      intro u hu
      have hst : s1.ticked.st u = s1.st u := by
        unfold ticked timeSliceUpdate st
        by_cases hur : u = s1.runTask
        · rw [hur]
          rw [setTCB_self]
        · rw [setTCB_of_ne hur]
      rw [hst]
      exact hp1 u hu
    split_ifs
    · exact ⟨ts', h1.of_heap rfl, hl1.then rfl⟩
    · refine ⟨ts', Waiters.archTaskSchedule h1 hn hpt hidle1, hl1.then ?_⟩
      rw [(sinks_archTaskSchedule _).held, hheld]
    refine ⟨ts', ?_, hl1.then ?_⟩
    · refine of_heap h1 ?_
      unfold updateExpireTime
      split_ifs <;> first | rfl | exact setNextExpireTime_heap _ _ _
    · rw [(sinks_updateExpireTime _).held, hheld]
  · unfold Sched.schedTickHandler
    rw [if_pos (by simpa using hstart)]
    exact ⟨ts, h, .refl rfl ts⟩

end Waiters

end LiteosM.Kernel
