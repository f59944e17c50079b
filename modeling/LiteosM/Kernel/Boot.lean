import LiteosM.Kernel.Reach

/-!
# The kernel after `LOS_KernelInit`

The loops of `OsTaskInit` and `OsSchedInit` leave every control block but that of the idle task in
the free list and every other list empty, so that the invariant holds when `main` goes on.

* `Booted`, `boot_booted`: what is left of `LOS_KernelInit`, with the idle task created;
* **`Booted.inv`**: the invariant of the kernel holds in that state.

Of `LOS_KernelInit` the model has what the tasks, the scheduler and the tables of the IPC objects need.
-/

namespace LiteosM.Kernel

open LiteosM.Lib Function List Option Sched State Node

/-! ## The loops -/

variable {L : NodeLists Node} {s : Sched}

/-- The loop of `OsTaskInit`. -/
theorem Sched.freeTasks_heap (hR : Rings s.heap L)
    (hfree : L .losFreeTask = some []) (hout : ∀ t, L.Free (.pendList t)) (n : Nat) :
    Rings (s.freeTasks n).heap (update L .losFreeTask (some ((range n).map .pendList))) := by
  induction n with
  | zero =>
    rwa [range_zero, map_nil, ← hfree, update_eq_self]
  | succ n ih =>
    have hn : (pendList n) ∉ (range n).map pendList := by
      rw [List.mem_map]
      rintro ⟨u, hu, heq⟩
      rw [pendList.injEq] at heq
      rw [heq] at hu
      exact Nat.lt_irrefl n (mem_range.mp hu)
    have hx : NodeLists.Free (update L .losFreeTask (some ((range n).map .pendList)))
        (.pendList n) := by
      refine ⟨(update_of_ne Node.noConfusion ..).trans (hout n).1, fun m hm => ?_⟩
      by_cases hm' : m = .losFreeTask
      · subst hm'
        exact hn hm
      · rw [NodeLists.at_update_of_ne hm'] at hm
        exact (hout n).2 m hm
    have := ih.tailInsert (update_self ..) hx
    rw [update_idem] at this
    unfold freeTasks at this ⊢
    rw [range_succ, foldl_append, map_append]
    exact this

theorem Sched.freeTasks_tcb (s : Sched) (n t : Nat) :
    (s.freeTasks n).tcb t =
      if t < n then
        { s.tcb t with
          taskID := t
          taskStatus := { (s.tcb t).taskStatus with unused := true } }
      else s.tcb t := by
  induction n with
  | zero => rfl
  | succ n ih =>
    have hstep : (s.freeTasks (n + 1)).tcb = ((s.freeTasks n).setTCB n fun c =>
        { c with taskID := n, taskStatus := { c.taskStatus with unused := true } }).tcb := by
      unfold freeTasks
      rw [range_succ, foldl_append]
      rfl
    rw [hstep]
    by_cases ht : t = n
    · subst ht
      rw [setTCB_self, ih, if_neg (Nat.lt_irrefl t), if_pos (Nat.lt_succ_self t)]
    rw [setTCB_of_ne ht, ih]
    by_cases hlt : t < n
    · rw [if_pos hlt, if_pos (Nat.lt_succ_of_lt hlt)]
    · rw [if_neg hlt, if_neg (by omega)]

/-- The loop writes the control blocks and the free list only. -/
theorem Sched.freeTasks_rest (s : Sched) (n : Nat) :
    ∃ h f, s.freeTasks n = { s with heap := h, tcb := f } := by
  induction n with
  | zero => exact ⟨_, _, rfl⟩
  | succ n ih =>
    obtain ⟨h, f, heq⟩ := ih
    unfold freeTasks at heq ⊢
    rw [range_succ, foldl_append, heq]
    exact ⟨_, _, rfl⟩

/-- The lists `L`, and `n` empty ready queues. -/
def withQueues (L : NodeLists Node) (n : Nat) : NodeLists Node
  | .priQueue p => if p < n then some [] else none
  | m => L m

theorem withQueues_zero (hL : ∀ p, L (.priQueue p) = none) : withQueues L 0 = L := by
  funext m
  cases m with
  | priQueue p => exact (hL p).symm
  | _ => rfl

theorem withQueues_succ (L : NodeLists Node) (n : Nat) :
    withQueues L (n + 1) = update (withQueues L n) (.priQueue n) (some []) := by
  funext m
  by_cases hm : m = .priQueue n
  · subst hm
    rw [update_self]
    exact if_pos (Nat.lt_succ_self n)
  rw [update_of_ne hm]
  cases m with
  | priQueue p =>
    have hp : p ≠ n := fun hc => hm (hc ▸ rfl)
    have hlt : p < n + 1 ↔ p < n := by omega
    simp only [withQueues, hlt]
  | _ => rfl

theorem at_withQueues (L : NodeLists Node) (n p : Nat) : (withQueues L n).at (.priQueue p) = [] := by
  unfold NodeLists.at
  simp only [withQueues]
  split_ifs <;> rfl

/-- The loop of `OsSchedInit`. -/
theorem rings_priQueues {h : Heap Node} (hR : Rings h L)
    (hL : ∀ p, L (.priQueue p) = none) (hout : ∀ p m, priQueue p ∉ L.at m) (n : Nat) :
    Rings ((range n).foldl (fun h p => h.init (.priQueue p)) h) (withQueues L n) := by
  induction n with
  | zero =>
    rwa [withQueues_zero hL]
  | succ n ih =>
    rw [range_succ, foldl_append, withQueues_succ]
    refine ih.init (at_withQueues L n n) fun m hm => ?_
    cases m with
    | priQueue p => simp [at_withQueues] at hm
    | _ => exact hout n _ hm

/-! ## The invariant -/

/-- The lists when `LOS_KernelInit` returns. -/
def bootLists : NodeLists Node
  | .losFreeTask => some ((range' 1 (taskMaxNum - 1)).map .pendList)
  | .taskRecycleList | .taskSortLink => some []
  | .priQueue p => if p < priorityQueueNum then some [] else none
  | _ => none

/-- The idle task's control block when `LOS_KernelInit` returns. -/
def LosTaskCB.idle (c : LosTaskCB) (n : Nat) : LosTaskCB :=
  { c.created idleParam n with
    taskStatus := { (c.created idleParam n).taskStatus with suspend := false, ready := true } }

variable {t : Nat}

/-- The idle task is never in a ready queue. -/
theorem Sched.taskEnQueue_idle (hr : (s.st t).ready = false)
    (hid : (s.tcb t).taskID = s.idleTaskID) :
    s.taskEnQueue t = s.setSt t fun st =>
      { st with pend := false, suspend := false, delay := false, pendTime := false, ready := true } := by
  unfold taskEnQueue
  rw [hr, if_neg Bool.false_ne_true]
  dsimp only
  rw [if_neg (not_not.mpr hid)]

theorem State.idleTaskCreate_toSched {k : State} (hid : (k.tcb 0).taskID = 0) :
    k.idleTaskCreate.toSched =
      { (k.toSched.setTCB 0 (·.idle k.allocated)) with
        heap := k.heap.delete (.pendList 0), idleTaskID := 0 } := by
  have hs : ((k.onSched (·.pop 0)).newTaskInit 0 idleParam false).toSched =
      (k.toSched.pop 0).setTCB 0 (·.created idleParam k.allocated) := by
    rw [newTaskInit_toSched]
    rfl
  unfold idleTaskCreate
  dsimp only [onSched] at hs ⊢
  rw [hs, taskEnQueue_idle]
  · unfold setSt setTCB
    simp only [update_idem]
    rfl
  · unfold setTCB
    rfl
  · exact hid

theorem Sched.taskInit_tcb (s : Sched) (hs : ∀ t, s.tcb t = LosTaskCB.zero) (ht : t < taskMaxNum) :
    s.taskInit.tcb t = { LosTaskCB.zero with taskID := t, taskStatus := .onlyUnused } := by
  unfold taskInit
  simp only [setHeap_tcb]
  rw [setTCB_of_ne ht.ne, freeTasks_tcb, if_pos ht]
  simp only [setHeap_tcb, hs]
  rfl

theorem Sched.taskInit_ghost (s : Sched) :
    (s.taskInit.st taskMaxNum) = { TaskStatus.zero with unused := true, running := true } := by
  unfold taskInit st
  simp only [setHeap_tcb]
  rw [setTCB_self]

/-- `OsTaskInit` writes the heap and the control blocks only. -/
theorem Sched.taskInit_rest (s : Sched) : ∃ h f, s.taskInit = { s with heap := h, tcb := f } := by
  unfold taskInit
  dsimp only
  obtain ⟨h, f, heq⟩ := freeTasks_rest
    (s.setHeap ((s.heap.init .losFreeTask).init .taskRecycleList)) taskMaxNum
  rw [heq]
  exact ⟨_, _, rfl⟩

/-- Only `pendList` nodes are in lists. -/
def OnlyTasks (L : NodeLists Node) : Prop := ∀ m x, x ∈ L.at m → ∃ t, x = .pendList t

theorem OnlyTasks.update (h : OnlyTasks L) (n : Node) {l : List Node}
    (hl : ∀ x ∈ l, ∃ t, x = .pendList t) : OnlyTasks (update L n (some l)) := by
  intro m x hx
  by_cases hm : m = n
  · subst hm
    rw [NodeLists.at_update_self] at hx
    exact hl x hx
  · rw [NodeLists.at_update_of_ne hm] at hx
    exact h m x hx

theorem OnlyTasks.not_mem (h : OnlyTasks L) {n : Node} (hn : n.isHead = true) (m : Node) :
    n ∉ L.at m := by
  intro hm
  obtain ⟨t, rfl⟩ := h m n hm
  cases hn

theorem OnlyTasks.withQueues (h : OnlyTasks L) (n : Nat) : OnlyTasks (withQueues L n) := by
  intro m x hx
  cases m with
  | priQueue p => simp [at_withQueues] at hx
  | _ => exact h _ x hx

/-- The two lists `OsTaskInit` starts with. -/
def twoLists : NodeLists Node := update (update (fun _ => none) .losFreeTask (some []))
  .taskRecycleList (some [])

theorem at_twoLists (m : Node) : twoLists.at m = [] := by
  unfold twoLists
  by_cases h1 : m = .taskRecycleList
  · rw [h1]
    rfl
  rw [NodeLists.at_update_of_ne h1]
  by_cases h2 : m = .losFreeTask
  · rw [h2]
    rfl
  rw [NodeLists.at_update_of_ne h2]
  rfl

theorem taskInit_heap (s : Sched) :
    s.taskInit.heap = ((range priorityQueueNum).foldl (fun h p => h.init (.priQueue p))
      ((s.setHeap ((s.heap.init .losFreeTask).init .taskRecycleList)).freeTasks taskMaxNum).heap).init
        .taskSortLink := by
  unfold taskInit
  dsimp only [setHeap, setTCB]

/-- The lists with `n` control blocks and `q` ready queues, before the first block is taken. -/
theorem rings_initial (hok : s.heap.crashed = false)
    (hnull : ∀ n, s.heap.next n = none ∧ s.heap.prev n = none) (n q : Nat) :
    Rings (((range q).foldl (fun h p => h.init (.priQueue p))
        ((s.setHeap ((s.heap.init .losFreeTask).init .taskRecycleList)).freeTasks n).heap).init
          .taskSortLink) (update (withQueues (update twoLists .losFreeTask
        (some ((range n).map .pendList))) q) .taskSortLink (some [])) := by
  have hnone : OnlyTasks fun _ => none := fun _ _ hx => by cases hx
  have h1 := (Rings.zero hok hnull).init (n := .losFreeTask) rfl (hnone.not_mem rfl)
  have o1 := hnone.update .losFreeTask (l := []) (by simp)
  have h2 : Rings ((s.heap.init .losFreeTask).init .taskRecycleList) twoLists :=
    h1.init rfl (o1.not_mem rfl)
  have h3 := freeTasks_heap (s := s.setHeap ((s.heap.init .losFreeTask).init .taskRecycleList))
    h2 rfl (fun t => ⟨rfl, fun m => by rw [at_twoLists]; exact not_mem_nil⟩) n
  have o3 : OnlyTasks (update twoLists .losFreeTask (some ((range n).map .pendList))) :=
    (o1.update .taskRecycleList (by simp)).update .losFreeTask (by simp)
  have h4 := rings_priQueues h3 (fun p => rfl) (fun p => o3.not_mem rfl) q
  exact h4.init rfl ((o3.withQueues q).not_mem rfl)

theorem initialLists_eq (l : List Node) : update (update (withQueues
      (update twoLists .losFreeTask (some l)) priorityQueueNum) .taskSortLink (some []))
    .losFreeTask (some ([] ++ ((range (taskMaxNum - 1)).map Nat.succ).map .pendList)) = bootLists := by
  funext m
  cases m with
  | losFreeTask =>
    unfold bootLists
    rw [range'_eq_map_range, List.map_map, List.map_map]
    refine congrArg some (map_congr_left fun t _ => ?_)
    exact congrArg pendList (Nat.add_comm t 1)
  | _ => rfl

/-- The first control block is taken off the free list. -/
theorem rings_boot (hok : s.heap.crashed = false)
    (hnull : ∀ n, s.heap.next n = none ∧ s.heap.prev n = none) :
    Rings (s.taskInit.heap.delete (.pendList 0)) bootLists := by
  have h := rings_initial hok hnull (taskMaxNum - 1 + 1) priorityQueueNum
  have h' := h.delete (n := .losFreeTask) (show _ = some ([] ++ pendList 0 ::
    ((range (taskMaxNum - 1)).map Nat.succ).map .pendList) from rfl)
  rw [initialLists_eq] at h'
  rwa [taskInit_heap]

/-- Where the tasks are when `LOS_KernelInit` returns. -/
def bootPlace (t : Nat) : Option Node := if 0 < t ∧ t < taskMaxNum then some .losFreeTask else none

theorem mem_bootLists (n x : Node) :
    x ∈ bootLists.at n ↔ n = .losFreeTask ∧ ∃ t, 0 < t ∧ t < taskMaxNum ∧ x = .pendList t := by
  have hfree : bootLists.at .losFreeTask = (range' 1 (taskMaxNum - 1)).map .pendList := rfl
  by_cases hn : n = .losFreeTask
  · subst hn
    rw [hfree, List.mem_map]
    constructor
    · rintro ⟨t, ht, rfl⟩
      rw [mem_range'_1] at ht
      exact ⟨rfl, t, by omega, by unfold taskMaxNum at ht ⊢; omega, rfl⟩
    · rintro ⟨-, t, ht, hlt, rfl⟩
      exact ⟨t, mem_range'_1.mpr ⟨ht, by unfold taskMaxNum at hlt ⊢; omega⟩, rfl⟩
  have hnil : bootLists.at n = [] := by
    cases n with
    | losFreeTask => exact absurd rfl hn
    | priQueue p =>
      unfold NodeLists.at bootLists
      dsimp only
      split_ifs <;> rfl
    | _ => rfl
  rw [hnil]
  simp [hn]

theorem boot_shape {h : Heap Node} (hR : Rings h bootLists) : Shape h bootLists bootPlace fun _ => false where
  rings := hR
  pend t n := by
    rw [mem_bootLists]
    unfold bootPlace
    split_ifs with ht
    · simp [ht, eq_comm]
    simp only [iff_false]
    rintro ⟨-, u, hu, hlt, heq⟩
    rw [pendList.injEq] at heq
    exact ht (heq ▸ ⟨hu, hlt⟩)
  sort t n := by
    rw [mem_bootLists]
    simp
  kind n x hx := by
    obtain ⟨-, t, -, ht, rfl⟩ := (mem_bootLists n x).mp hx
    exact ⟨t, ht, .inl rfl⟩
  head n hn := by
    cases n with
    | priQueue p =>
      unfold bootLists
      dsimp only
      rw [if_pos (by simpa [isFixed] using hn)]
      exact some_ne_none _
    | losFreeTask | taskRecycleList | taskSortLink => exact some_ne_none _
    | _ => cases hn
  node n hn := by
    cases n with
    | pendList | sortList => exact absurd rfl hn
    | _ => rfl

section
variable (sysClock tickPeriodMax : Nat)

theorem boot_toSched :
    (boot sysClock tickPeriodMax).toSched =
      { ((zero sysClock tickPeriodMax).taskInit.setTCB 0 (·.idle 0)) with
        heap := (zero sysClock tickPeriodMax).taskInit.heap.delete (.pendList 0), idleTaskID := 0 } := by
  refine idleTaskCreate_toSched ?_
  change ((zero sysClock tickPeriodMax).taskInit.tcb 0).taskID = 0
  rw [taskInit_tcb _ (fun _ => rfl) (by decide)]

/-- The control blocks when `LOS_KernelInit` returns. -/
theorem boot_tcb (ht : t < taskMaxNum) :
    (boot sysClock tickPeriodMax).tcb t =
      if t = 0 then ({ LosTaskCB.zero with taskID := 0, taskStatus := .onlyUnused }).idle 0
      else { LosTaskCB.zero with taskID := t, taskStatus := .onlyUnused } := by
  have hinit := taskInit_tcb (zero sysClock tickPeriodMax).toSched (fun _ => rfl) ht
  rw [congrArg tcb (boot_toSched sysClock tickPeriodMax)]
  by_cases h0 : t = 0
  · subst h0
    rw [setTCB_self, hinit, if_pos rfl]
  · rw [setTCB_of_ne h0, hinit, if_neg h0]

theorem boot_ghost : (boot sysClock tickPeriodMax).st taskMaxNum =
    { TaskStatus.zero with unused := true, running := true } := by
  unfold st
  rw [congrArg tcb (boot_toSched sysClock tickPeriodMax)]
  rw [setTCB_of_ne (by decide)]
  exact taskInit_ghost _

/-- What `LOS_KernelInit` leaves of the other variables. -/
theorem boot_rest : ∃ h f,
    (boot sysClock tickPeriodMax).toSched =
      { (zero sysClock tickPeriodMax).toSched with heap := h, tcb := f, idleTaskID := 0 } := by
  rw [boot_toSched]
  generalize (zero sysClock tickPeriodMax).toSched = s
  obtain ⟨h, f, heq⟩ := s.taskInit_rest
  rw [heq]
  exact ⟨_, _, rfl⟩

theorem boot_rings : Rings (boot sysClock tickPeriodMax).heap bootLists := by
  have hzero : Rings ((zero sysClock tickPeriodMax).taskInit.heap.delete (.pendList 0)) bootLists :=
    rings_boot rfl fun _ => ⟨rfl, rfl⟩
  rw [congrArg heap (boot_toSched sysClock tickPeriodMax)]
  dsimp only
  exact hzero

end

theorem State.idleTaskCreate_ipc (k : State) : SameIpc k k.idleTaskCreate := by
  have h := newTaskInit_ipc (k.onSched (·.pop 0)) 0 idleParam false
  exact { h with }

theorem State.idleTaskCreate_todo {k : State} (hk : ∀ u, k.todo u = []) (u : Nat) :
    k.idleTaskCreate.todo u = [] := by
  have htodo := newTaskInit_todo (k.onSched (·.pop 0)) 0 idleParam false
  have hupd : update k.todo 0 [] = k.todo := by
    rw [← hk 0, update_eq_self]
  change update (update k.todo 0 []) k.runTask
    ([] ++ update k.todo 0 [] k.runTask) u = []
  rw [hupd, nil_append, update_eq_self]
  exact hk u

/-- What the invariant needs of the kernel that `LOS_KernelInit` leaves. -/
structure Booted (k : State) : Prop where
  rings : Rings k.heap bootLists
  tcb : ∀ t < taskMaxNum, k.tcb t =
    if t = 0 then ({ LosTaskCB.zero with taskID := 0, taskStatus := .onlyUnused }).idle 0
    else { LosTaskCB.zero with taskID := t, taskStatus := .onlyUnused }
  ghost : k.st taskMaxNum = { TaskStatus.zero with unused := true, running := true }
  run : k.runTask = taskMaxNum
  idle : k.idleTaskID = 0
  bits : k.queueBitmap = 0
  start : k.taskScheduled = false
  fault : k.fault = none
  ipc : ∃ sysClock tickPeriodMax, SameIpc (zero sysClock tickPeriodMax) k
  todo : ∀ u, k.todo u = []

theorem boot_booted (sysClock tickPeriodMax : Nat) : Booted (boot sysClock tickPeriodMax) := by
  obtain ⟨h, f, hrest⟩ := boot_rest sysClock tickPeriodMax
  have hipc := ((zero sysClock tickPeriodMax).onSched (·.taskInit)).idleTaskCreate_ipc
  exact
    { rings := boot_rings _ _
      tcb := fun _ => boot_tcb _ _
      ghost := boot_ghost _ _
      run := congrArg runTask hrest
      idle := congrArg idleTaskID hrest
      bits := congrArg queueBitmap hrest
      start := congrArg taskScheduled hrest
      fault := congrArg fault hrest
      ipc := ⟨sysClock, tickPeriodMax, hipc.sem, hipc.mux, hipc.queue, hipc.unusedSem, hipc.unusedMux,
        hipc.freeQueue⟩
      todo := idleTaskCreate_todo fun _ => rfl }

namespace Booted

variable {k : State}

theorem taskOk (hB : Booted k) (ht : t < taskMaxNum) :
    TaskOk 0 t (k.tcb t) (bootPlace t) false false := by
  rw [hB.tcb t ht]
  by_cases h0 : t = 0
  · subst h0
    constructor <;> simp [LosTaskCB.idle, LosTaskCB.created, LosTaskCB.newTask, idleParam, bootPlace,
      TaskStatus.zero, readyPlace, taskPriorityLowest, priorityQueueNum]
  · rw [if_neg h0, bootPlace, if_pos ⟨Nat.pos_of_ne_zero h0, ht⟩]
    exact TaskOk.wiped h0 false

theorem placed (hB : Booted k) :
    Placed k.toSched bootLists bootPlace (fun _ => false) (some k.runTask) := by
  refine ⟨boot_shape hB.rings, fun p hp => ?_, fun t ht => ?_⟩
  · rw [hB.bits]
    refine iff_of_false (by simp) (not_not.mpr ?_)
    unfold NodeLists.at bootLists
    dsimp only
    rw [if_pos hp]
    rfl
  · rw [hB.idle, hB.run, decide_eq_false (fun hc => ht.ne (some.inj hc).symm)]
    exact hB.taskOk ht

theorem st (hB : Booted k) (ht : t < taskMaxNum) : (k.st t).running = false ∧
    (k.st t).pend = false ∧ (k.st t).delay = false ∧ (k.st t).joinable = false := by
  unfold Sched.st
  rw [hB.tcb t ht]
  split_ifs <;> exact ⟨rfl, rfl, rfl, rfl⟩

theorem runOk (hB : Booted k) : RunOk k.toSched := by
  constructor
  · rw [hB.idle]
    decide
  · exact hB.run.le
  · intro hc
    simp [hB.start] at hc
  · intro t ht hr
    simp [(hB.st ht).1] at hr
  · exact fun _ => ⟨hB.run, fun t ht => ⟨(hB.st ht).1, (hB.st ht).2.1, (hB.st ht).2.2.1⟩⟩
  · rw [hB.ghost]
    exact ⟨rfl, rfl, rfl, rfl, rfl⟩
  · rw [hB.fault]
    exact nofun

theorem bootPlace_wait {u : Nat} {n : Node} (hn : n.isWait = true) : bootPlace u ≠ some n := by
  intro hc
  unfold bootPlace at hc
  split_ifs at hc
  cases hc
  cases hn

/-- **The invariant holds when `LOS_KernelInit` returns.** -/
theorem inv (hB : Booted k) : ∃ v, Inv k v := by
  refine ⟨⟨k.toSched, bootLists, bootPlace, fun _ => false, hB.placed⟩, ⟨rfl, ⟨hB.runOk, ?_⟩, ?_, ?_⟩,
    fun hc => ?_⟩
  · refine ⟨fun u t hu => absurd hu (bootPlace_wait rfl), fun u u' t hu => absurd hu (bootPlace_wait rfl),
      fun t ht hj => ?_⟩
    have := (hB.st ht).2.2.2
    simp [show (k.st t).joinable = true from hj] at this
  · obtain ⟨sysClock, tickPeriodMax, hI⟩ := hB.ipc
    refine ⟨fun n hn => ?_, fun n u hn => bootPlace_wait (isWait_of_inUse hn), ?_, ?_, ?_, fun i o ho => ?_⟩
    · cases n with
      | semList i =>
        unfold inUse at hn
        rw [hI.sem] at hn
        cases hn
      | muxList i =>
        unfold inUse at hn
        rw [hI.mux] at hn
        cases hn
      | readWriteList q rw =>
        unfold inUse at hn
        rw [hI.queue] at hn
        cases hn
      | _ => cases hn
    · rw [hI.sem, hI.unusedSem]
      exact ⟨nodup_range, fun _ _ => rfl⟩
    · rw [hI.mux, hI.unusedMux]
      exact ⟨nodup_range, fun _ _ => rfl⟩
    · rw [hI.queue, hI.freeQueue]
      exact ⟨nodup_range, fun _ _ => rfl⟩
    · rw [hI.mux] at ho
      cases ho
  · have hno : ∀ u, ∀ c, c ∉ k.todo u := fun u c => by
      rw [hB.todo u]
      exact not_mem_nil
    exact ⟨fun u c hc => absurd hc (hno u c), fun u c hc => absurd (mem_of_mem_tail hc) (hno u c),
      fun u t c hc => absurd hc (hno u c), fun u u' t c hc => absurd hc (hno u c),
      fun c hc => absurd hc (hno _ c)⟩
  · simp [hB.start] at hc

end Booted

end LiteosM.Kernel
