import Mathlib.Data.List.Perm.Subperm
import LiteosM.Kernel.Moves

/-!
# The switch

`OsSchedTaskSwitch` in two halves: the task on the CPU is put where its status says, then the first task of
the highest non-empty ready queue, or the idle task, comes to the CPU.

* `Placed.putRunTask`: `OsSchedTaskSwitch` up to the choice. A task that waits for a time enters the sort
  link here;
* `Placed.getTopTask`: what is chosen is ready, and of the highest priority, or is the idle task;
* `Placed.takeNewTask`: the rest. The running bit and the CPU go over to the new task.

The CPU is free between the two halves. The expiry time that the switch sets is only looked at for what it
writes (`Quiet`).
-/

namespace LiteosM.Kernel

open LiteosM.Lib Function List Sched

/-- A task that goes to no ready queue when it leaves the CPU. -/
def TaskStatus.stops (st : TaskStatus) : Bool := st.pendTime || st.delay || st.blocked

/-! ## The sort link -/

namespace Wired

variable {s : Sched} {L : NodeLists Node} {pl : Nat → Option Node} {sl : Nat → Bool} {t : Nat}

section
variable (hW : Wired s L pl sl) (hpl : ∀ u, pl u ≠ some .taskSortLink)
include hW hpl

/-- The sort link holds `sortList` nodes. -/
theorem mem_sortLink {x : Node}
    (hx : x ∈ L.at .taskSortLink) : ∃ u < taskMaxNum, x = .sortList u ∧ sl u = true := by
  obtain ⟨u, hu, rfl | rfl⟩ := hW.shape.kind _ _ hx
  · exact absurd ((hW.shape.pend u _).mp hx) (hpl u)
  · exact ⟨u, hu, rfl, ((hW.shape.sort u _).mp hx).2⟩

theorem length_sortLink : (L.at .taskSortLink).length ≤ taskMaxNum := by
  have hsub : L.at .taskSortLink ⊆ (range taskMaxNum).map Node.sortList := by
    intro x hx
    obtain ⟨u, hu, rfl, -⟩ := hW.mem_sortLink hpl hx
    exact mem_map_of_mem (mem_range.mpr hu)
  have hlen := (subperm_of_subset (hW.shape.rings.once _) hsub).length_le
  rwa [length_map, length_range] at hlen

/-- `OsAddNode2SortLink`: in front of the first later node, or at the end. -/
theorem addNode2SortLink (ht : t < taskMaxNum) (hsl : sl t = false) :
    ∃ L', Upto t L L' ∧ Wired (s.addNode2SortLink t) L' pl (update sl t true) ∧
      (s.addNode2SortLink t).tcb = s.tcb ∧ (s.addNode2SortLink t).ctl = s.ctl := by
  have hL := NodeLists.some_of_ne_none (hW.shape.head .taskSortLink rfl)
  have hlist := hW.shape.rings.isList hL
  obtain ⟨l1, a, l2, hl, ha, hadd, -⟩ := @SortLink.addNode2SortLink_spec _ _ (s.linkTime t) _ _ _ (.sortList t) _
    hlist.1 hlist.2 (hW.length_sortLink hpl)
  rw [hl] at hL
  unfold Sched.addNode2SortLink
  rw [hadd]
  exact ⟨_, Shape.upto_linkSort hL, ⟨hW.shape.linkSort hL ha ht hsl,
    hW.bits.update_other (fun _ => Node.noConfusion) _⟩, rfl, rfl⟩

end

end Wired

namespace Placed

variable {s : Sched} {L : NodeLists Node} {pl : Nat → Option Node} {sl : Nat → Bool}
  {cpu : Option Nat} {t : Nat}

theorem pl_ne_sortLink (hP : Placed s L pl sl cpu) (u : Nat) : pl u ≠ some .taskSortLink := by
  intro hu
  exact ((hP.task u (hP.shape.lt_of_pl hu)).listed _ hu).2 rfl

/-! ## The task that leaves the CPU -/

theorem offCpu (hP : Placed s L pl sl (some t))
    (hT : t < taskMaxNum → TaskOk s.idleTaskID t (s.tcb t) (pl t) (sl t) false) :
    Placed s L pl sl none := by
  refine hP.set hP.shape hP.bits rfl (fun _ _ => rfl) (fun _ _ => rfl) (fun _ _ => rfl) ?_ hT
  intro u hu
  simp [Ne.symm hu]

/-- `OsAdd2SortLink` of a task that waits for a time to come. -/
theorem add2SortLink (hP : Placed s L pl sl (some t)) (ht : t < taskMaxNum)
    (hd : (s.st t).delay = true ∨ (s.st t).pendTime = true) {startTime waitTicks : Nat}
    (htime : s.responseTimeAt startTime waitTicks ≠ invalidTime) :
    Moved t s (s.add2SortLink t startTime waitTicks) L pl sl (pl t) true (s.tcb t).life none := by
  have hT := hP.task t ht
  rw [decide_eq_true rfl] at hT
  have hW : Wired (s.setTCB t fun c => { c with responseTime := s.responseTimeAt startTime waitTicks })
      L pl sl := ⟨hP.shape, hP.bits⟩
  obtain ⟨L', hup, hW', htcb, hctl⟩ := hW.addNode2SortLink hP.pl_ne_sortLink ht hT.sl_false_of_cpu
  have hself : (s.add2SortLink t startTime waitTicks).tcb t =
      { s.tcb t with responseTime := s.responseTimeAt startTime waitTicks } := by
    unfold Sched.add2SortLink
    rw [htcb, setTCB_self]
  have hothers : ∀ u, u ≠ t → (s.add2SortLink t startTime waitTicks).tcb u = s.tcb u := by
    intro u hu
    unfold Sched.add2SortLink
    rw [htcb, setTCB_of_ne hu]
  refine ⟨L', hup, ?_, hothers, ?_, hctl⟩
  · rw [update_eq_self]
    refine hP.set hW'.shape hW'.bits (congrArg Ctl.idleTaskID hctl) hothers (fun _ _ => rfl)
      (fun u hu => update_of_ne hu _ _) (fun u hu => by simp [Ne.symm hu]) fun _ => ?_
    rw [update_self, hself]
    exact hT.sortIn hd htime
  · rw [hself]
    rfl

/-- Where a task goes that leaves the CPU: to its ready queue, or it stays in no list or in the wait
list it is in. -/
theorem putRunTask (hP : Placed s L pl sl (some s.runTask)) (ht : s.runTask < taskMaxNum)
    (htime : (s.st s.runTask).delay = true ∨ (s.st s.runTask).pendTime = true →
      s.responseTimeAt s.currTime (s.tcb s.runTask).waitTimes ≠ invalidTime) :
    ∃ x y, (((s.st s.runTask).stops = true ∧ x = pl s.runTask) ∨ ((s.st s.runTask).stops = false ∧
          x = readyPlace s.idleTaskID s.runTask (s.tcb s.runTask).priority)) ∧
      Moved s.runTask s s.putRunTask L pl sl x y (s.tcb s.runTask).life none := by
  have hupd : Moved s.runTask s (s.timeSliceUpdate s.runTask s.currTime) L pl sl (pl s.runTask)
      (sl s.runTask) (s.tcb s.runTask).life (some s.runTask) :=
    hP.setTCB_congr _ (fun _ => rfl) (fun _ => rfl) (fun _ => rfl) fun _ => rfl
  have hself : (s.timeSliceUpdate s.runTask s.currTime).tcb s.runTask = _ :=
    setTCB_self _
  have hst : (s.timeSliceUpdate s.runTask s.currTime).st s.runTask = s.st s.runTask := by
    unfold st
    rw [hself]
  unfold Sched.putRunTask
  dsimp only
  rw [hst]
  split_ifs with hwait hblocked
  · refine ⟨_, true, .inl ⟨by unfold TaskStatus.stops; rw [hwait, Bool.true_or], rfl⟩, hupd.trans fun L' hP' => ?_⟩
    have := hP'.add2SortLink ht (by rw [hst]; simpa [or_comm] using hwait)
      (htime (by simpa [or_comm] using hwait))
    rw [update_self, hupd.life] at this
    rw [hself]
    exact this
  all_goals
    rw [Bool.or_eq_true, not_or, Bool.not_eq_true, Bool.not_eq_true] at hwait
    have hT := hP.task _ ht
    rw [decide_eq_true rfl] at hT
    have hr : (s.tcb s.runTask).taskStatus.ready = false := by
      rw [Bool.eq_false_iff]
      intro hc
      cases (hT.readyX hc).2.2.2.2
    have hoff : ∀ L', Placed (s.timeSliceUpdate s.runTask s.currTime) L'
        (update pl s.runTask (pl s.runTask)) (update sl s.runTask (sl s.runTask))
        (some s.runTask) → Placed (s.timeSliceUpdate s.runTask s.currTime) L'
        (update pl s.runTask (pl s.runTask)) (update sl s.runTask (sl s.runTask))
        none := by
      intro L' hP'
      refine hP'.offCpu fun _ => ?_
      have hT' := hP'.task _ ht
      refine hT'.setCpu ?_ ?_ ?_ _
      · rwa [hself]
      · rw [hself]
        exact hwait.2
      · rw [hself]
        exact hwait.1
  · rw [Bool.not_eq_true'] at hblocked
    have hb : (s.tcb s.runTask).taskStatus.blocked = false := hblocked
    unfold TaskStatus.blocked at hb
    simp only [Bool.or_eq_false_iff] at hb
    obtain ⟨⟨⟨hp, -⟩, he⟩, hu⟩ := hb
    have hpl := hT.pl_none hu hr hp
    have hsl := hT.sl_false hwait.2 hwait.1
    refine ⟨_, false, .inr ⟨by unfold TaskStatus.stops; rw [hwait.1, hwait.2, hblocked]; rfl, rfl⟩, hupd.trans fun L' hP' => ?_⟩
    have henq := (hoff L' hP').taskEnQueue ht ((update_self ..).trans hpl)
      ((update_self ..).trans hsl) (by simp) (by rwa [hst]) (by rwa [hst])
      (by rwa [hst])
    rwa [hupd.life, hself] at henq
  have hstops : (s.st s.runTask).stops = true := by
    unfold TaskStatus.stops
    rw [Bool.not_eq_true', Bool.not_eq_false] at hblocked
    rw [hblocked, Bool.or_true]
  refine ⟨_, sl s.runTask, .inl ⟨hstops, rfl⟩, hupd.trans fun L' hP' => ?_⟩
  have := (hoff L' hP').stay s.runTask
  rwa [update_self, update_self, hupd.life] at this

/-! ## The task that comes to the CPU -/

/-- A ready queue holds `pendList` nodes of ready tasks. -/
theorem mem_priQueue (hP : Placed s L pl sl cpu) {p : Nat} {x : Node} (hx : x ∈ L.at (.priQueue p)) :
    ∃ u < taskMaxNum, x = .pendList u ∧ pl u = some (.priQueue p) ∧ (s.st u).ready = true ∧
      u ≠ s.idleTaskID ∧ (s.tcb u).priority = p := by
  obtain ⟨u, hu, rfl | rfl⟩ := hP.shape.kind _ _ hx
  · have hpl := (hP.shape.pend u _).mp hx
    have hr := (hP.task u hu).queued p hpl
    have hplace := (hP.task u hu).ready hr
    rw [hpl] at hplace
    obtain ⟨hne, heq⟩ := TaskOk.readyPlace_eq.mp hplace.symm
    rw [Node.priQueue.injEq] at heq
    exact ⟨u, hu, rfl, hpl, hr, hne, heq.symm⟩
  · cases ((hP.shape.sort u _).mp hx).1

/-- `OsGetTopTask` finds the first task of the highest ready queue, or the idle task if no other
task is ready. -/
theorem getTopTask (hP : Placed s L pl sl cpu) (hidle : s.idleTaskID < taskMaxNum) :
    ∃ new < taskMaxNum, s.getTopTask = some new ∧ ((new = s.idleTaskID ∧
          ∀ u < taskMaxNum, u ≠ s.idleTaskID → (s.st u).ready = false) ∨
        (new ≠ s.idleTaskID ∧ (s.st new).ready = true ∧
          (∃ l, L.at (.priQueue (s.tcb new).priority) = .pendList new :: l) ∧
          ∀ u < taskMaxNum, u ≠ s.idleTaskID → (s.st u).ready = true →
            (s.tcb new).priority ≤ (s.tcb u).priority)) := by
  have hin : ∀ u < taskMaxNum, u ≠ s.idleTaskID → (s.st u).ready = true →
      .pendList u ∈ L.at (.priQueue (s.tcb u).priority) := fun u hu hne hr =>
    (hP.shape.pend u _).mpr ((hP.task u hu).pl_of_ready hr hne)
  unfold Sched.getTopTask
  by_cases hb : s.queueBitmap = 0
  · rw [if_neg (not_not.mpr hb)]
    refine ⟨_, hidle, rfl, .inl ⟨rfl, fun u hu hne => ?_⟩⟩
    rw [Bool.eq_false_iff]
    intro hr
    have hset := (hP.bits _ (hP.task u hu).prio).mpr (ne_nil_of_mem (hin u hu hne hr))
    rw [hb] at hset
    simp at hset
  obtain ⟨hlt, hset, hmin⟩ := clz_spec hb
  have hne := (hP.bits _ hlt).mp hset
  obtain ⟨x, l, hl⟩ := exists_cons_of_ne_nil hne
  obtain ⟨new, hnew, rfl, -, hr, hni, hprio⟩ := hP.mem_priQueue (hl ▸ mem_cons_self)
  rw [if_pos hb, hP.shape.rings.next_head ((hP.priQueue_some hlt).trans (congrArg some hl))]
  refine ⟨new, hnew, rfl, .inr ⟨hni, hr, ⟨l, by rw [hprio, hl]⟩, fun u hu hu' hur => ?_⟩⟩
  rw [hprio]
  by_contra hlt'
  have hclear := hmin _ (Nat.lt_of_not_le hlt')
  simp [(hP.bits _ (hP.task u hu).prio).mpr (ne_nil_of_mem (hin u hu hu' hur))] at hclear

end Placed

/-- Only the variables of the next tick have changed. -/
structure Quiet (s s' : Sched) : Prop where
  heap : s'.heap = s.heap
  tcb : s'.tcb = s.tcb
  bits : s'.queueBitmap = s.queueBitmap
  ctl : s'.ctl = s.ctl

theorem quiet_setNextExpireTime (s : Sched) (responseID taskEndTime : Nat) :
    Quiet s (s.setNextExpireTime responseID taskEndTime) := by
  unfold setNextExpireTime
  dsimp only
  split_ifs <;> exact ⟨rfl, rfl, rfl, rfl⟩

theorem quiet_updateExpireTime (s : Sched) : Quiet s s.updateExpireTime := by
  unfold updateExpireTime
  split
  · exact ⟨rfl, rfl, rfl, rfl⟩
  · exact quiet_setNextExpireTime s _ _

/-- What a switch to `new` does to the control blocks. -/
structure Switched (s s' : Sched) (new : Nat) : Prop where
  others : ∀ u, u ≠ new → u ≠ s.runTask → s'.tcb u = s.tcb u
  old : s.runTask ≠ new → s'.tcb s.runTask =
    { s.tcb s.runTask with taskStatus := { (s.tcb s.runTask).taskStatus with running := false } }
  new : ∃ z, s'.tcb new = { s.tcb new with
      startTime := z
      taskStatus := { (s.tcb new).taskStatus with ready := false, running := true } }

namespace Placed

variable {s s' : Sched} {L : NodeLists Node} {pl : Nat → Option Node} {sl : Nat → Bool}
  {cpu : Option Nat} {t : Nat}

theorem quiet (hP : Placed s L pl sl cpu) (h : Quiet s s') : Placed s' L pl sl cpu := by
  constructor
  · rw [h.heap]
    exact hP.shape
  · rw [h.bits]
    exact hP.bits
  · rw [h.tcb, show s'.idleTaskID = s.idleTaskID from congrArg Ctl.idleTaskID h.ctl]
    exact hP.task

/-- The control block of a live task changes in the running bit and the start time. -/
theorem setRunning (hP : Placed s L pl sl cpu) (hu : t < taskMaxNum → (s.st t).unused = false)
    (f : LosTaskCB → LosTaskCB) (b : Bool) (z : Nat)
    (hf : f (s.tcb t) = { s.tcb t with
      startTime := z, taskStatus := { (s.tcb t).taskStatus with running := b } }) :
    Placed (s.setTCB t f) L pl sl cpu := by
  refine hP.set hP.shape hP.bits rfl (fun u hu => setTCB_of_ne hu f) (fun _ _ => rfl)
    (fun _ _ => rfl) (fun _ _ => Iff.rfl) fun ht => ?_
  have hT := hP.task t ht
  have hbits : TaskOk s.idleTaskID t
      { s.tcb t with taskStatus := { (s.tcb t).taskStatus with running := b } } (pl t) (sl t)
      (decide (cpu = some t)) :=
    hT.bits (hT.not_free (hu ht)) rfl rfl rfl rfl rfl rfl id .inl
  rw [setTCB_self, hf]
  exact hbits.congr rfl rfl rfl rfl

section
variable (hP : Placed s L pl sl none)
include hP

theorem onCpu (hT : t < taskMaxNum → TaskOk s.idleTaskID t (s.tcb t) (pl t) (sl t) true) :
    Placed s L pl sl (some t) := by
  refine hP.set (t := t) hP.shape hP.bits rfl (fun _ _ => rfl) (fun _ _ => rfl) (fun _ _ => rfl) ?_ ?_
  · intro u hu
    simp [Ne.symm hu]
  · rwa [decide_eq_true rfl]

/-- The chosen task leaves its ready queue and is on the CPU. -/
theorem deQueueNew (ht : t < taskMaxNum)
    (hu : (s.st t).unused = false) (hd : (s.st t).delay = false) (hp : (s.st t).pend = false) :
    Moved t s (s.taskDeQueue t) L pl sl none (sl t) (s.tcb t).life (some t) := by
  have hT := hP.task t ht
  have hdeq : Moved t s (s.taskDeQueue t) L pl sl none (sl t) (s.tcb t).life none := by
    by_cases hr : (s.st t).ready = true
    · exact hP.taskDeQueue ht hr
    have hstay := hP.stay t
    rw [hT.pl_none hu (by simpa [st] using hr) hp] at hstay
    unfold Sched.taskDeQueue
    rwa [if_neg hr]
  obtain ⟨L', hup, hP', hrest⟩ := hdeq
  have hself : (s.taskDeQueue t).tcb t =
      { s.tcb t with taskStatus := { (s.tcb t).taskStatus with ready := false } } := by
    rw [taskDeQueue_tcb, update_self]
  refine ⟨L', hup, hP'.onCpu fun _ => ?_, hrest⟩
  have hT' := hP'.task t ht
  refine hT'.setCpu ?_ ?_ ?_ _
  · rw [hself]
  · rwa [hself]
  · rw [hself]
    exact hT.not_pendTime hp

/-- The running bit goes from the old task to the new one. -/
theorem passRunning {new : Nat} (hu : (s.st new).unused = false)
    (hrun : s.runTask < taskMaxNum → (s.st s.runTask).unused = false)
    (hself : s.runTask = new → (s.st new).running = true) : let s' := if s.runTask ≠ new then
        ((s.setSt s.runTask fun st => { st with running := false }).setTCB new fun c =>
          { c with
            taskStatus := { c.taskStatus with running := true }
            startTime := (s.tcb s.runTask).startTime })
      else s
    Placed s' L pl sl none ∧ s'.ctl = s.ctl ∧ (∀ u, u ≠ new → u ≠ s.runTask → s'.tcb u = s.tcb u) ∧
      (s.runTask ≠ new → s'.tcb s.runTask =
        { s.tcb s.runTask with taskStatus := { (s.tcb s.runTask).taskStatus with running := false } }) ∧
      ∃ z, s'.tcb new = { s.tcb new with
          startTime := z
          taskStatus := { (s.tcb new).taskStatus with running := true } } := by
  intro s'
  by_cases hne : s.runTask = new
  · have hs' : s' = s := if_neg (not_not.mpr hne)
    have hr : (s.tcb new).taskStatus.running = true := hself hne
    rw [hs']
    refine ⟨hP, rfl, fun _ _ _ => rfl, fun h => absurd hne h, (s.tcb new).startTime, ?_⟩
    rw [← hr]
  have hs' : s' = ((s.setSt s.runTask fun st => { st with running := false }).setTCB new fun c =>
        { c with
          taskStatus := { c.taskStatus with running := true }
          startTime := (s.tcb s.runTask).startTime }) := if_pos hne
  have hold : Placed (s.setSt s.runTask fun st => { st with running := false }) L pl sl none :=
    hP.setRunning hrun _ false _ rfl
  have hst : (s.setSt s.runTask fun st => { st with running := false }).tcb new = s.tcb new :=
    setSt_of_ne (Ne.symm hne) _
  rw [hs']
  refine ⟨hold.setRunning (fun _ => ?_) _ true _ rfl, rfl, fun u hu hu' => ?_, fun _ => ?_,
    (s.tcb s.runTask).startTime, ?_⟩
  · unfold st
    rwa [hst]
  · rw [setTCB_of_ne hu, setSt_of_ne hu']
  · rw [setTCB_of_ne hne, setSt_self]
  · rw [setTCB_self, hst]

/-- The second half of the switch. -/
theorem takeNewTask {new : Nat} (ht : new < taskMaxNum)
    (hu : (s.st new).unused = false) (hd : (s.st new).delay = false) (hp : (s.st new).pend = false)
    (hrun : s.runTask < taskMaxNum → (s.st s.runTask).unused = false)
    (hself : s.runTask = new → (s.st new).running = true) :
    ∃ L', Upto new L L' ∧
      Placed (s.takeNewTask new).1 L' (update pl new none) sl (some new) ∧
      Switched s (s.takeNewTask new).1 new ∧
      (s.takeNewTask new).1.ctl = { s.ctl with newTask := new } := by
  have hP0 : Placed { s with newTask := new } L pl sl none := ⟨hP.shape, hP.bits, hP.task⟩
  obtain ⟨hP1, hctl1, hothers, hold, z, hnew⟩ := hP0.passRunning hu hrun hself
  unfold Sched.takeNewTask
  dsimp only at hP1 hctl1 hothers hold hnew ⊢
  generalize hs1 : (if s.runTask ≠ new then _ else _ : Sched) = s1 at hP1 hctl1 hothers hold hnew ⊢
  obtain ⟨L', hup, hP2, htcb2, -, hctl2⟩ := hP1.deQueueNew ht (by unfold st; rw [hnew]; exact hu)
    (by unfold st; rw [hnew]; exact hd) (by unfold st; rw [hnew]; exact hp)
  rw [update_eq_self] at hP2
  generalize hs3 : (if (s1.taskDeQueue new).schedResponseID = _ then _ else _ : Sched) = s3
  have hq3 : Quiet (s1.taskDeQueue new) s3 := by
    rw [← hs3]
    split_ifs <;> exact ⟨rfl, rfl, rfl, rfl⟩
  have hq := quiet_setNextExpireTime s3 ((s1.taskDeQueue new).tcb new).taskID
    (if ((s1.taskDeQueue new).tcb new).taskID ≠ (s1.taskDeQueue new).idleTaskID then
      endTime ((s1.taskDeQueue new).tcb new).startTime ((s1.taskDeQueue new).tcb new).timeSlice
    else invalidTime - (s1.taskDeQueue new).tickResponsePrecision)
  refine ⟨L', hup, (hP2.quiet hq3).quiet hq, ⟨fun u hu hu' => ?_, fun hne => ?_, z, ?_⟩, ?_⟩
  · rw [hq.tcb, hq3.tcb, htcb2 u hu, hothers u hu hu']
  · rw [hq.tcb, hq3.tcb, htcb2 _ hne, hold hne]
  · rw [hq.tcb, hq3.tcb, taskDeQueue_tcb, update_self, hnew]
  · rw [hq.ctl, hq3.ctl, hctl2, hctl1]
    rfl

end

end Placed

end LiteosM.Kernel
