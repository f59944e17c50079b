import LiteosM.Kernel.Placed

/-!
# The operations on one task

`OsSchedTaskWait`, `OsSchedDelay`, `OsSchedSuspend`, `OsSchedResume` and `OsSchedModifyTaskSchedParam`, each
as a move of one task.

* `Placed.taskWait`, `Placed.delay`: the running task goes to wait;
* `Placed.suspend`, `Placed.resume`, `Placed.modifyTaskSchedParam`: any task.

Each says where the nodes of the task are afterwards and which bits of its status have changed; `Placed`
holds again. The suspension in a low-power mode is left to `Kernel.Freeze`.
-/

namespace LiteosM.Kernel

open LiteosM.Lib Function Sched

namespace Placed

variable {s : Sched} {L : NodeLists Node} {pl : Nat → Option Node} {sl : Nat → Bool}
  {cpu : Option Nat} {t : Nat}

/-- The control block of one task changes, and the nodes stay where they are. -/
theorem setTCB (hP : Placed s L pl sl cpu) (f : LosTaskCB → LosTaskCB) (hf : t < taskMaxNum →
      TaskOk s.idleTaskID t (f (s.tcb t)) (pl t) (sl t) (decide (cpu = some t))) :
    Moved t s (s.setTCB t f) L pl sl (pl t) (sl t) (f (s.tcb t)).life cpu := by
  refine hP.moved (Upto.refl t L) ?_ hP.bits (fun u hu => setTCB_of_ne hu f) rfl ?_ fun ht => ?_
  · rw [update_eq_self, update_eq_self]
    exact hP.shape
  · rw [setTCB_self]
  · rw [setTCB_self]
    exact hf ht

/-- Only fields that do not decide where the nodes are change. -/
theorem setTCB_congr (hP : Placed s L pl sl cpu) (f : LosTaskCB → LosTaskCB)
    (hid : ∀ c, (f c).taskID = c.taskID) (hprio : ∀ c, (f c).priority = c.priority)
    (hst : ∀ c, (f c).taskStatus = c.taskStatus)
    (htime : ∀ c, (f c).responseTime = c.responseTime) :
    Moved t s (s.setTCB t f) L pl sl (pl t) (sl t) (f (s.tcb t)).life cpu :=
  hP.setTCB f fun ht => (hP.task t ht).congr (hid _) (hprio _) (hst _) (htime _)

theorem pl_runTask (hP : Placed s L pl sl (some t)) (ht : t < taskMaxNum)
    (hu : (s.st t).unused = false) (hp : (s.st t).pend = false) : pl t = none := by
  have hT := hP.task t ht
  refine hT.pl_none hu ?_ hp
  rw [Bool.eq_false_iff]
  intro hr
  have := (hT.readyX hr).2.2.2.2
  simp at this

section
variable (hP : Placed s L pl sl (some s.runTask)) (ht : s.runTask < taskMaxNum)
include hP ht

/-- `OsSchedTaskWait`: the running task enters a wait list. -/
theorem taskWait {n : Node}
    (hn : n.isWait = true) (hL : L n ≠ none) (hu : (s.st s.runTask).unused = false)
    (he : (s.st s.runTask).exit = false) (hd : (s.st s.runTask).delay = false)
    (hp : (s.st s.runTask).pend = false) (hidle : s.runTask ≠ s.idleTaskID) (ticks : Nat) :
    Moved s.runTask s (s.taskWait n ticks) L pl sl (some n) (sl s.runTask) (s.tcb s.runTask).life
      (some s.runTask) := by
  have hpl := hP.pl_runTask ht hu hp
  have hT := hP.task _ ht
  rw [hpl, decide_eq_true rfl] at hT
  have hpt : (s.tcb s.runTask).taskStatus.pendTime = false := hT.not_pendTime hp
  have hl := NodeLists.some_of_ne_none hL
  have hshape := hP.shape.linkTail hl ht hpl
  have hbits : BitsOk s.queueBitmap (update L n (some (L.at n ++ [.pendList s.runTask]))) :=
    hP.bits.update_other (isWait_ne_priQueue hn) _
  unfold Sched.taskWait
  split_ifs with hticks
  · refine hP.moved (Shape.upto_linkTail hl) ?_ hbits (fun u hu' => ?_) rfl ?_ fun _ => ?_
    · rwa [update_eq_self]
    · rw [setTCB_of_ne hu', setHeap_tcb, setSt_of_ne hu']
    · rw [setTCB_self, setHeap_tcb, setSt_self]
      rfl
    · have hok := hT.wait hu he hd hidle hn ticks true
      rwa [setTCB_self, setHeap_tcb, setSt_self, decide_eq_true rfl]
  refine hP.moved (Shape.upto_linkTail hl) ?_ hbits (fun u hu' => ?_) rfl ?_ fun _ => ?_
  · rwa [update_eq_self]
  · rw [setHeap_tcb, setSt_of_ne hu']
  · rw [setHeap_tcb, setSt_self]
    rfl
  · have hok := hT.wait hu he hd hidle hn (s.tcb s.runTask).waitTimes false
    rw [← hpt] at hok
    rwa [setHeap_tcb, setSt_self, decide_eq_true rfl]

/-- `OsSchedDelay`. -/
theorem delay (hu : (s.st s.runTask).unused = false) (he : (s.st s.runTask).exit = false)
    (hp : (s.st s.runTask).pend = false) (hidle : s.runTask ≠ s.idleTaskID) (tick : Nat) :
    Moved s.runTask s (s.delay tick) L pl sl (pl s.runTask) (sl s.runTask) (s.tcb s.runTask).life
      (some s.runTask) := by
  have hpl := hP.pl_runTask ht hu hp
  have hT := hP.task _ ht
  rw [hpl, decide_eq_true rfl] at hT
  refine hP.setTCB (fun c => { c with
    taskStatus := { c.taskStatus with delay := true }, waitTimes := tick }) fun _ => ?_
  rw [hpl, decide_eq_true rfl]
  exact hT.delay hu he hidle tick

end

section
variable (hP : Placed s L pl sl cpu) (ht : t < taskMaxNum)
include hP ht

/-- `OsSchedSuspend`. -/
theorem suspend (hu : (s.st t).unused = false) (hidle : t ≠ s.idleTaskID) :
    ∃ x, (x = none ∨ x = pl t) ∧ Moved t s (s.suspend t) L pl sl x (sl t) (s.tcb t).life cpu := by
  unfold Sched.suspend
  -- the bit is set on a task that is not ready any more
  have hbit : ∀ (s' : Sched) (L' : NodeLists Node) (pl' : Nat → Option Node) (sl' : Nat → Bool),
      Placed s' L' pl' sl' cpu → s'.idleTaskID = s.idleTaskID → (s'.st t).ready = false →
      (s'.st t).unused = false →
      Moved t s' (s'.setSt t fun st => { st with suspend := true }) L' pl' sl' (pl' t) (sl' t)
        (s'.tcb t).life cpu := by
    intro s' L' pl' sl' hP' hid hr hu'
    have hT := hP'.task t ht
    refine hP'.setTCB _ fun _ => hT.bits (hT.not_free hu') rfl rfl rfl rfl rfl rfl id
      fun _ => .inr ⟨hr, ?_⟩
    rwa [hid]
  split_ifs with hr
  · have hdeq := hP.taskDeQueue ht hr
    refine ⟨none, .inl rfl, hdeq.trans fun L' hP' => ?_⟩
    have hst : (s.taskDeQueue t).st t = { (s.tcb t).taskStatus with ready := false } := by
      unfold st
      rw [taskDeQueue_tcb, update_self]
    have := hbit _ L' _ _ hP' hdeq.idleTaskID (by rw [hst]) (by rwa [hst])
    rwa [update_self, update_self, hdeq.life] at this
  · exact ⟨pl t, .inr rfl, hbit s L pl sl hP rfl (by simpa using hr) hu⟩

/-- `OsSchedResume` of a suspended task that has not ended. -/
theorem resume (hs : (s.st t).suspend = true)
    (hu : (s.st t).unused = false) (he : (s.st t).exit = false) (hcpu : cpu ≠ some t) :
    ∃ x, (x = pl t ∨ x = some (.priQueue (s.tcb t).priority)) ∧
      Moved t s (s.resume t) L pl sl x (sl t) (s.tcb t).life cpu := by
  have hT := hP.task t ht
  have hr : (s.tcb t).taskStatus.ready = false := by
    rw [Bool.eq_false_iff]
    intro hc
    unfold st at hs
    simp [(hT.readyX hc).1] at hs
  have hidle : t ≠ s.idleTaskID := by
    intro hc
    unfold st at hs
    simp [(hT.idleX hc).2.2.2.2] at hs
  have hclear : Moved t s (s.setSt t fun st => { st with suspend := false }) L pl sl (pl t) (sl t)
      (s.tcb t).life cpu := by
    refine hP.setTCB _ fun _ => hT.bits (hT.not_free hu) rfl rfl rfl rfl rfl rfl id ?_
    intro hc
    cases hc
  have hst : (s.setSt t fun st => { st with suspend := false }).st t =
      { (s.tcb t).taskStatus with suspend := false } := setSt_st _
  unfold Sched.resume
  dsimp only
  split_ifs with hgo
  · unfold resumes at hgo
    rw [hst] at hgo
    simp only [Bool.not_or, Bool.and_eq_true, Bool.not_eq_eq_eq_not] at hgo
    have hsl := hT.sl_false hgo.1 (hT.not_pendTime hgo.2)
    have hpl := hT.pl_none hu hr hgo.2
    refine ⟨_, .inr rfl, hclear.trans fun L' hP' => ?_⟩
    have hplace : readyPlace s.idleTaskID t (s.tcb t).priority =
        some (.priQueue (s.tcb t).priority) := if_neg hidle
    have hself : (s.setSt t fun st => { st with suspend := false }).tcb t =
        { s.tcb t with taskStatus := { (s.tcb t).taskStatus with suspend := false } } :=
      setSt_self _
    have henq := hP'.taskEnQueue ht ((update_self ..).trans hpl)
      ((update_self ..).trans hsl) hcpu (by rwa [hst]) (by rwa [hst])
      (by rwa [hst])
    rw [hself] at henq
    rw [← hplace, hsl]
    rwa [hsl] at henq
  · exact ⟨pl t, .inl rfl, hclear⟩

/-- `OsSchedModifyTaskSchedParam`. -/
theorem modifyTaskSchedParam {p : Nat} (hp : p < priorityQueueNum) :
    ∃ x, (x = pl t ∨ ((s.st t).ready = true ∧ x = readyPlace s.idleTaskID t p)) ∧
      Moved t s (s.modifyTaskSchedParam t p) L pl sl x (sl t) (s.tcb t).life cpu := by
  have hT := hP.task t ht
  unfold Sched.modifyTaskSchedParam
  split_ifs with hr
  · obtain ⟨-, hd, he, hu, hcpu⟩ := hT.readyX hr
    have hsl := hT.sl_false hd (hT.not_pendTime (hT.not_pend_of_ready hr))
    have hdeq := hP.taskDeQueue ht hr
    have htcb : (s.taskDeQueue t).tcb t =
        { s.tcb t with taskStatus := { (s.tcb t).taskStatus with ready := false } } := by
      rw [taskDeQueue_tcb, update_self]
    refine ⟨_, .inr ⟨hr, rfl⟩, hdeq.trans fun L1 hP1 => ?_⟩
    have hset : Moved t (s.taskDeQueue t)
        ((s.taskDeQueue t).setTCB t fun c => { c with priority := p }) L1
        (update pl t none) (update sl t (sl t)) none (sl t) (s.tcb t).life cpu := by
      have := hP1.setTCB (fun c => { c with priority := p }) fun _ =>
        (hP1.task t ht).setPriority (by rw [htcb]) hp
      rwa [update_self, update_self, htcb] at this
    refine hset.trans fun L2 hP2 => ?_
    have hself : ((s.taskDeQueue t).setTCB t fun c => { c with priority := p }).tcb t =
        { s.tcb t with
          priority := p
          taskStatus := { (s.tcb t).taskStatus with ready := false } } := by
      rw [setTCB_self, htcb]
    have hst : ((s.taskDeQueue t).setTCB t fun c => { c with priority := p }).st t =
        { (s.tcb t).taskStatus with ready := false } := by
      unfold st
      rw [hself]
    have henq := hP2.taskEnQueue ht (update_self ..) ((update_self ..).trans hsl)
      (of_decide_eq_false hcpu) (by rw [hst]) (by rwa [hst]) (by rwa [hst])
    rw [hself] at henq
    rw [← hdeq.idleTaskID]
    rw [hsl] at henq ⊢
    exact henq
  · refine ⟨pl t, .inl rfl, ?_⟩
    exact hP.setTCB (fun c => { c with priority := p }) fun _ =>
      hT.setPriority (by simpa [st] using hr) hp

end

end Placed

end LiteosM.Kernel
