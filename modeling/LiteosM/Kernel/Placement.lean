import LiteosM.Kernel.Boot

/-!
# Where the tasks are

`Placement` says, of the pointers alone, where the nodes of every task are linked and which bits of
`g_queueBitmap` are set.

* **`placement_of_careful`**: it holds in every state of a run whose steps are all careful, and the
  assertion of `OsSchedTaskEnQueue` does not fail there;
* `enqueued_twice`: a task that `LOS_TaskResume` finds between the two critical sections of
  `LOS_TaskCreate` is made ready twice.
-/

namespace LiteosM.Kernel

open LiteosM.Lib List Option

/-- Node `x` is linked in the list of `n`, once, and in no other list. -/
structure Linked (h : Heap Node) (x n : Node) : Prop where
  once : ∃ l, h.IsList n l ∧ l.count x = 1
  only : ∀ m l, m.isHead = true → h.IsList m l → x ∈ l → m = n

/-- Where a task is, read off its status. -/
structure Placement (s : Sched) : Prop where
  ready : ∀ t < taskMaxNum, t ≠ s.idleTaskID →
    ((s.st t).ready = true ↔ Linked s.heap (.pendList t) (.priQueue (s.tcb t).priority))
  pend : ∀ t < taskMaxNum, t ≠ s.idleTaskID →
    ((s.st t).pend = true ↔ ∃ n, n.isWait = true ∧ Linked s.heap (.pendList t) n)
  sort : ∀ t < taskMaxNum, t ≠ s.idleTaskID → (Linked s.heap (.sortList t) .taskSortLink ↔
      t ≠ s.runTask ∧ ((s.st t).delay = true ∨ (s.st t).pendTime = true))
  bits : ∀ p < priorityQueueNum, s.queueBitmap.getMsbD p = true ↔
    ∃ l, s.heap.IsList (.priQueue p) l ∧ l ≠ []
  sound : s.fault ≠ some .readyAssert

section
variable {h : Heap Node} {L : NodeLists Node} {pl : Nat → Option Node} {sl : Nat → Bool} {n x : Node}

/-- The pointers of a heap with the lists `L` give those lists and no other. -/
theorem Shape.isList_iff (hS : Shape h L pl sl) (hn : n.isHead = true) {l : List Node} :
    h.IsList n l ↔ L n = some l := by
  constructor
  · intro hl
    cases hL : L n with
    | none =>
      -- the ring of `n` begins with a pointer, and an unused head has none
      have hnull := (hS.null hn hL).1
      have hring := hl.1
      unfold Heap.Ring at hring
      obtain ⟨b, d, hd⟩ : ∃ b d, l ++ [n] = b :: d := exists_cons_of_ne_nil (by simp)
      rw [hd, isChain_cons_cons] at hring
      simp [hring.1.1] at hnull
    | some l' => rw [(hS.rings.isList hL).unique hl]
  · exact hS.rings.isList

theorem Shape.linked_iff (hS : Shape h L pl sl) (hn : n.isHead = true) :
    Linked h x n ↔ x ∈ L.at n := by
  constructor
  · rintro ⟨⟨l, hl, hcount⟩, -⟩
    rw [NodeLists.at_of_some ((hS.isList_iff hn).mp hl)]
    exact count_pos_iff.mp (hcount ▸ Nat.one_pos)
  intro hx
  refine ⟨⟨L.at n, (hS.isList_iff hn).mpr (NodeLists.some_of_mem hx),
    count_eq_one_of_mem (hS.rings.once n) hx⟩, fun m l hm hl hxl => ?_⟩
  rw [← NodeLists.at_of_some ((hS.isList_iff hm).mp hl)] at hxl
  exact hS.rings.uniq m n x hxl hx

end

/-- What the abstract lists say, said of the pointers. -/
theorem View.placement (v : View) (hR : RunOk v.s) : Placement v.s := by
  have hS := v.placed.shape
  refine ⟨fun t ht hidle => ?_, fun t ht hidle => ?_, fun t ht hidle => ?_, fun p hp => ?_, hR.sound⟩
  · have hT := v.placed.task t ht
    rw [hS.linked_iff rfl, hS.pend]
    constructor
    · intro hr
      rw [hT.ready hr, TaskOk.readyPlace_eq]
      exact ⟨hidle, rfl⟩
    · exact hT.queued _
  · have hT := v.placed.task t ht
    unfold Sched.st
    rw [hT.pend]
    refine exists_congr fun n => ?_
    by_cases hn : n.isWait = true
    · have hhead : n.isHead = true := by
        cases n with
        | pendList | sortList => cases hn
        | _ => rfl
      rw [hS.linked_iff hhead, hS.pend, and_comm]
    · simp [hn]
  · have hT := v.placed.task t ht
    rw [hS.linked_iff rfl, hS.sort, hT.sort, decide_eq_false_iff_not, some_inj]
    exact ⟨fun h => ⟨Ne.symm h.2.1, h.2.2⟩, fun h => ⟨rfl, Ne.symm h.1, h.2⟩⟩
  rw [v.placed.bits p hp]
  have hL := v.placed.shape.head (.priQueue p) (by simpa [Node.isFixed] using hp)
  constructor
  · intro hne
    exact ⟨_, (hS.isList_iff rfl).mpr (NodeLists.some_of_ne_none hL), hne⟩
  · rintro ⟨l, hl, hne⟩
    rwa [NodeLists.at_of_some ((hS.isList_iff rfl).mp hl)]

/-- **The invariant holds in every state of a careful run.** -/
theorem reached_of_careful {sysClock tickPeriodMax : Nat} {run : List Label} {k : State}
    (hcare : Guarded step State.Careful (boot sysClock tickPeriodMax) run)
    (hrun : exec step (boot sysClock tickPeriodMax) run = some k) : ∃ v, Reached k v := by
  obtain ⟨v, hv⟩ := (boot_booted sysClock tickPeriodMax).inv
  have hstep : ∀ k l k', (∃ v, Reached k v) → k.Careful l → step k l = some k' →
      ∃ v, Reached k' v := by
    rintro k l k' ⟨v, hR⟩ hok hstep
    obtain ⟨v', h⟩ := hR.step hok hstep
    exact ⟨v', h.reached⟩
  exact exec_inv_guarded hstep ⟨v, hv.reached⟩ hcare hrun

/-- **In every run whose steps are all careful every task is where its status says.** -/
theorem placement_of_careful (sysClock tickPeriodMax : Nat) (run : List Label) (k : State)
    (hcare : Guarded step State.Careful (boot sysClock tickPeriodMax) run)
    (hrun : exec step (boot sysClock tickPeriodMax) run = some k) : Placement k.toSched := by
  obtain ⟨v, hC, -⟩ := reached_of_careful hcare hrun
  rw [← hC.eq]
  exact v.placement hC.good.run

/-- `LOS_TaskCreate` with its four pieces of code and the `LOS_Schedule` behind them. -/
def createTask (prio : Nat) : List Label :=
  [.call (.taskCreate ⟨true, true, false, prio, 0, 0, false, true⟩ true), .cont, .cont, .cont, .cont, .cont]

/-- Two tasks are created, and the first one delays itself. -/
theorem placement_of_careful_run : ∃ k, exec step (boot 1000000 0xffffff)
      (createTask 5 ++ createTask 6 ++ [.start, .call (.taskDelay 10), .cont]) = some k ∧
    k.runTask = 2 ∧ Placement k.toSched := by
  have hcare : Guarded step State.Careful (boot 1000000 0xffffff)
      (createTask 5 ++ createTask 6 ++ [.start, .call (.taskDelay 10), .cont]) := by decide +kernel
  obtain ⟨k, hk, hrun⟩ : ∃ k, exec step (boot 1000000 0xffffff)
      (createTask 5 ++ createTask 6 ++ [.start, .call (.taskDelay 10), .cont]) = some k ∧ k.runTask = 2 := by
    decide +kernel
  exact ⟨k, hk, hrun, placement_of_careful _ _ _ k hcare hk⟩

/-- Task 1 creates a task; the time slice ends before it has made it ready, task 2 resumes the new
task, and task 1 goes on. -/
def resumedEarly : List Label :=
  createTask 5 ++ createTask 5 ++
    [.start, .call (.taskCreate ⟨true, true, false, 10, 0, 0, false, true⟩ true), .cont, .cont, .cont,
      .clock 30000, .tick, .call (.taskResume 3), .cont, .call (.taskDelay 10), .cont, .cont]

/-- **The assertion of `OsSchedTaskEnQueue` can fail.** -/
theorem enqueued_twice : ∃ k, exec step (boot 1000000 0xffffff) resumedEarly = some k ∧
    k.fault = some .readyAssert ∧ ¬Placement k.toSched := by
  obtain ⟨k, hk, hf⟩ : ∃ k, exec step (boot 1000000 0xffffff) resumedEarly = some k ∧
      k.fault = some .readyAssert := by decide +kernel
  exact ⟨k, hk, hf, fun h => h.sound hf⟩

/-- Nobody waits for an object that has been deleted, and no object in use is handed out again. -/
theorem waits_in_use {sysClock tickPeriodMax : Nat} {run : List Label} {k : State}
    (hcare : Guarded step State.Careful (boot sysClock tickPeriodMax) run)
    (hrun : exec step (boot sysClock tickPeriodMax) run = some k) :
    (∀ n t, k.inUse n = some false → ¬Linked k.heap (.pendList t) n) ∧
      PoolOk (fun i => (k.sem i).used) k.unusedSem ∧ PoolOk (fun i => (k.mux i).used) k.unusedMux ∧
      PoolOk (fun q => (k.queue q).used) k.freeQueue := by
  obtain ⟨v, hC, -⟩ := reached_of_careful hcare hrun
  have hS := v.placed.shape
  refine ⟨fun n t hn => ?_, hC.ipc.sems, hC.ipc.muxes, hC.ipc.queues⟩
  have hhead : n.isHead = true := by cases n <;> first | rfl | cases hn
  rw [← hC.eq, hS.linked_iff hhead, hS.pend]
  exact hC.ipc.shut n t hn

/-- Task 1 waits for a semaphore, ten ticks at most, and task 2 runs. -/
def semWaiter : List Label :=
  createTask 5 ++ createTask 6 ++ [.start, .call (.semCreate 0 1), .call (.semPend 0 10), .cont]

theorem semWaiter_careful : Guarded step State.Careful (boot 1000000 0xffffff) semWaiter := by decide +kernel

theorem waits_in_use_semWaiter : ∃ k, exec step (boot 1000000 0xffffff) semWaiter = some k ∧ k.runTask = 2 ∧
    (k.st 1).pend = true ∧ ∀ n, k.inUse n = some false → ¬Linked k.heap (.pendList 1) n := by
  obtain ⟨k, hk, hrun, hpend⟩ : ∃ k, exec step (boot 1000000 0xffffff) semWaiter = some k ∧ k.runTask = 2 ∧
      (k.st 1).pend = true := by
    decide +kernel
  exact ⟨k, hk, hrun, hpend, fun n => (waits_in_use semWaiter_careful hk).1 n 1⟩

end LiteosM.Kernel
