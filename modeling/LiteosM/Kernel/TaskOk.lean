import LiteosM.Kernel.Shape

/-!
# Where the nodes of one task have to be

`TaskOk` ties the control block of a task to the places of its two nodes: the ready queue of its
priority while it is ready, a wait list while it waits, the free or the recycle list while it is no
task, and the sort link while it waits for a time to come. The lemmas are the changes the scheduler
makes to a control block, each with what it asks of the nodes.

A task on the CPU (`cpu`) is in no ready queue and not in the sort link, whatever its status says: a
task that waits with a timeout enters the sort link when it is switched out.

* `TaskOk.enQueue`, `TaskOk.deQueue`: the ready queues;
* `TaskOk.wait`, `TaskOk.unwait`, `TaskOk.timeUp`, `TaskOk.delay`: waiting, with or without a time;
* `TaskOk.exit`, `TaskOk.setPriority`, `TaskOk.setCpu`, `TaskOk.sortIn`: the rest.

`Life` are the bits and fields that no scheduling operation touches.
-/

namespace LiteosM.Kernel

open LiteosM.Lib Option Bool

/-- What no scheduling operation changes in a control block. -/
structure Life where
  taskID : Nat
  topOfStack : StackPtr
  unused : Bool
  exit : Bool
  running : Bool
  joinable : Bool
  stackFree : Bool
  systemTask : Bool
  deriving DecidableEq

/-- The same of a control block. -/
def LosTaskCB.life (c : LosTaskCB) : Life :=
  ⟨c.taskID, c.topOfStack, c.taskStatus.unused, c.taskStatus.exit, c.taskStatus.running,
    c.taskStatus.joinable, c.taskStatus.stackFree, c.taskStatus.systemTask⟩

/-- The ready queue of a task; the idle task has none. -/
def readyPlace (idle t p : Nat) : Option Node := if t = idle then none else some (.priQueue p)

/-- The control block of task `t` fits where its nodes are. -/
structure TaskOk (idle t : Nat) (c : LosTaskCB) (pl : Option Node) (sl cpu : Bool) : Prop where
  taskID : c.taskID = t
  prio : c.priority < priorityQueueNum
  ready : c.taskStatus.ready = true → pl = readyPlace idle t c.priority
  queued : ∀ p, pl = some (.priQueue p) → c.taskStatus.ready = true
  pend : c.taskStatus.pend = true ↔ ∃ n, pl = some n ∧ n.isWait = true
  free : pl = some .losFreeTask → c.taskStatus = .onlyUnused
  recycled : pl = some .taskRecycleList →
    c.taskStatus.unused = true ∧ c.taskStatus.exit = true ∧ c.taskStatus.joinable = false
  listed : ∀ n, pl = some n → n.isHead = true ∧ n ≠ .taskSortLink
  sort : sl = true ↔ cpu = false ∧ (c.taskStatus.delay = true ∨ c.taskStatus.pendTime = true)
  time : c.taskStatus.unused = false → (sl = true ↔ c.responseTime ≠ invalidTime)
  readyX : c.taskStatus.ready = true → c.taskStatus.suspend = false ∧ c.taskStatus.delay = false ∧
    c.taskStatus.exit = false ∧ c.taskStatus.unused = false ∧ cpu = false
  timed : c.taskStatus.pendTime = true → c.taskStatus.pend = true
  pendX : c.taskStatus.pend = true → c.taskStatus.delay = false ∧ c.taskStatus.exit = false ∧
    c.taskStatus.unused = false
  delayX : c.taskStatus.delay = true → c.taskStatus.exit = false ∧ c.taskStatus.unused = false
  idleX : t = idle → c.taskStatus.unused = false ∧ c.taskStatus.exit = false ∧
    c.taskStatus.pend = false ∧ c.taskStatus.delay = false ∧ c.taskStatus.suspend = false

namespace TaskOk

variable {idle t : Nat} {c : LosTaskCB} {pl : Option Node} {sl cpu : Bool}

theorem readyPlace_eq {p : Nat} {n : Node} :
    readyPlace idle t p = some n ↔ t ≠ idle ∧ n = .priQueue p := by
  unfold readyPlace
  split_ifs with ht
  · simp [ht]
  · simp [ht, eq_comm]

section
variable (h : TaskOk idle t c pl sl cpu)
include h

theorem not_pend_of_ready (hr : c.taskStatus.ready = true) : c.taskStatus.pend = false := by
  rw [eq_false_iff]
  intro hc
  obtain ⟨n, hn, hw⟩ := h.pend.mp hc
  rw [h.ready hr, readyPlace_eq] at hn
  rw [hn.2] at hw
  cases hw

theorem not_ready_of_pend (hp : c.taskStatus.pend = true) : c.taskStatus.ready = false := by
  rw [eq_false_iff]
  intro hc
  simp [h.not_pend_of_ready hc] at hp

theorem not_pendTime (hp : c.taskStatus.pend = false) : c.taskStatus.pendTime = false := by
  rw [eq_false_iff]
  intro hc
  simp [h.timed hc] at hp

theorem ne_idle_of_pend (hp : c.taskStatus.pend = true) : t ≠ idle := by
  intro ht
  simp [(h.idleX ht).2.2.1] at hp

/-- The control block of a task is not in the free list. -/
theorem not_free (hu : c.taskStatus.unused = false) : pl ≠ some .losFreeTask := by
  intro hfree
  rw [h.free hfree] at hu
  cases hu

/-- A live task that is neither ready nor waiting is in no list. -/
theorem pl_none (hu : c.taskStatus.unused = false)
    (hr : c.taskStatus.ready = false) (hp : c.taskStatus.pend = false) : pl = none := by
  by_contra hne
  obtain ⟨n, hn⟩ := ne_none_iff_exists'.mp hne
  have hwait : n.isWait = false := by
    rw [eq_false_iff]
    intro hw
    simp [h.pend.mpr ⟨n, hn, hw⟩] at hp
  obtain ⟨hhead, hsort⟩ := h.listed n hn
  cases n with
  | priQueue p => simp [h.queued p hn] at hr
  | losFreeTask => exact h.not_free hu hn
  | taskRecycleList => simp [(h.recycled hn).1] at hu
  | taskSortLink => exact hsort rfl
  | semList | muxList | readWriteList | stEventList | joinList => cases hwait
  | pendList | sortList => cases hhead

theorem pl_of_ready (hr : c.taskStatus.ready = true)
    (ht : t ≠ idle) : pl = some (.priQueue c.priority) := by
  rw [h.ready hr, readyPlace_eq]
  exact ⟨ht, rfl⟩

theorem sl_false (hd : c.taskStatus.delay = false)
    (hp : c.taskStatus.pendTime = false) : sl = false := by
  rw [eq_false_iff]
  intro hc
  rcases (h.sort.mp hc).2 with h' | h'
  · simp [hd] at h'
  · simp [hp] at h'

end

theorem sl_false_of_cpu (h : TaskOk idle t c pl sl true) : sl = false := by
  rw [eq_false_iff]
  intro hc
  cases (h.sort.mp hc).1

/-! ### What a change of the control block asks of the nodes -/

/-- `OsSchedTaskEnQueue` of a live task that is in no list. -/
theorem enQueue (h : TaskOk idle t c none false false) (hu : c.taskStatus.unused = false)
    (he : c.taskStatus.exit = false) (z : Int) :
    TaskOk idle t
      { c with
        timeSlice := z
        taskStatus := { c.taskStatus with
          pend := false, suspend := false, delay := false, pendTime := false, ready := true } }
      (readyPlace idle t c.priority) false false where
  __ := h
  ready _ := rfl
  queued _ _ := rfl
  pend := by
    refine iff_of_false Bool.false_ne_true ?_
    rintro ⟨n, hn, hw⟩
    rw [(readyPlace_eq.mp hn).2] at hw
    cases hw
  free hf := by cases (readyPlace_eq.mp hf).2
  recycled hf := by cases (readyPlace_eq.mp hf).2
  listed n hn := by
    rw [(readyPlace_eq.mp hn).2]
    exact ⟨rfl, Node.noConfusion⟩
  sort := by simp
  time hu := h.time hu
  readyX _ := ⟨rfl, rfl, he, hu, rfl⟩
  timed hc := by cases hc
  pendX hc := by cases hc
  delayX hc := by cases hc
  idleX ht := ⟨hu, he, rfl, rfl, rfl⟩

section
variable (h : TaskOk idle t c pl sl cpu)
include h

/-- `OsSchedTaskDeQueue` of a ready task. -/
theorem deQueue (hr : c.taskStatus.ready = true) :
    TaskOk idle t { c with taskStatus := { c.taskStatus with ready := false } } none sl cpu where
  __ := h
  ready hc := by cases hc
  queued _ hc := by cases hc
  pend := by
    rw [h.not_pend_of_ready hr]
    simp
  free hc := by cases hc
  recycled hc := by cases hc
  listed _ hc := by cases hc
  readyX hc := by cases hc

/-- The end of a wait: out of the wait list and, if the wait was timed, out of the sort link. -/
theorem unwait (hp : c.taskStatus.pend = true) :
    TaskOk idle t
      { c with
        responseTime := invalidTime
        taskStatus := { c.taskStatus with pend := false, pendTime := false } }
      none false cpu where
  __ := h
  ready hc := by
    have := h.not_ready_of_pend hp
    simp [this] at hc
  queued _ hc := by cases hc
  pend := by simp
  free hc := by cases hc
  recycled hc := by cases hc
  listed _ hc := by cases hc
  sort := by simp [(h.pendX hp).1]
  time _ := by simp
  timed hc := by cases hc
  pendX hc := by cases hc
  idleX ht := ⟨(h.idleX ht).1, (h.idleX ht).2.1, rfl, (h.idleX ht).2.2.2⟩

/-- The end of a timed wait or of a delay, by the tick. -/
theorem timeUp
    (hp : c.taskStatus.pend = true ∨ c.taskStatus.delay = true) (b : Bool) :
    TaskOk idle t
      { c with
        responseTime := invalidTime
        taskStatus := { c.taskStatus with
          pend := false, pendTime := false, delay := false, timeout := b } }
      none false cpu := by
  have hr : c.taskStatus.ready = false := by
    rcases hp with hp | hd
    · exact h.not_ready_of_pend hp
    · rw [eq_false_iff]
      intro hc
      simp [(h.readyX hc).2.1] at hd
  exact
    { h with
      ready := fun hc => by simp [hr] at hc
      queued := fun _ hc => by cases hc
      pend := by simp
      free := fun hc => by cases hc
      recycled := fun hc => by cases hc
      listed := fun _ hc => by cases hc
      sort := by simp
      time := fun _ => by simp
      readyX := fun hc => by simp [hr] at hc
      timed := fun hc => by cases hc
      pendX := fun hc => by cases hc
      delayX := fun hc => by cases hc
      idleX := fun ht => ⟨(h.idleX ht).1, (h.idleX ht).2.1, rfl, rfl, (h.idleX ht).2.2.2.2⟩ }

end

section
variable (h : TaskOk idle t c none sl true) (hu : c.taskStatus.unused = false)
  (he : c.taskStatus.exit = false)
include h hu he

/-- `OsSchedTaskWait` of the task on the CPU. -/
theorem wait (hd : c.taskStatus.delay = false) (ht : t ≠ idle) {n : Node}
    (hw : n.isWait = true) (z : Nat) (b : Bool) :
    TaskOk idle t
      { c with
        waitTimes := z
        taskStatus := { c.taskStatus with pend := true, pendTime := b } }
      (some n) sl true where
  __ := h
  ready hr := by cases (h.readyX hr).2.2.2.2
  queued p hp := by
    rw [some.injEq] at hp
    rw [hp] at hw
    cases hw
  pend := iff_of_true rfl ⟨n, rfl, hw⟩
  free hf := by
    rw [some.injEq] at hf
    rw [hf] at hw
    cases hw
  recycled hf := by
    rw [some.injEq] at hf
    rw [hf] at hw
    cases hw
  listed m hm := by
    cases hm
    cases n with
    | semList | muxList | readWriteList | stEventList | joinList => exact ⟨rfl, Node.noConfusion⟩
    | _ => cases hw
  sort := by simp [h.sl_false_of_cpu]
  readyX hr := by cases (h.readyX hr).2.2.2.2
  timed _ := rfl
  pendX _ := ⟨hd, he, hu⟩
  idleX hc := absurd hc ht

/-- `OsSchedDelay` of the task on the CPU. -/
theorem delay (ht : t ≠ idle) (z : Nat) :
    TaskOk idle t
      { c with waitTimes := z, taskStatus := { c.taskStatus with delay := true } } none sl true where
  __ := h
  free hc := by cases hc
  recycled hc := by cases hc
  sort := by simp [h.sl_false_of_cpu]
  readyX hr := by cases (h.readyX hr).2.2.2.2
  pendX hc := by
    obtain ⟨n, hn, -⟩ := h.pend.mp hc
    cases hn
  delayX _ := ⟨he, hu⟩
  idleX hc := absurd hc ht

end

section
variable (h : TaskOk idle t c pl sl cpu)
include h

/-- Bits that do not decide where the nodes are. -/
theorem bits (hf : pl ≠ some .losFreeTask) {st : TaskStatus}
    (hready : st.ready = c.taskStatus.ready) (hpend : st.pend = c.taskStatus.pend)
    (hdelay : st.delay = c.taskStatus.delay) (htime : st.pendTime = c.taskStatus.pendTime)
    (hexit : st.exit = c.taskStatus.exit) (hunused : st.unused = c.taskStatus.unused)
    (hjoin : st.joinable = true → c.taskStatus.joinable = true)
    (hsusp : st.suspend = true → c.taskStatus.suspend = true ∨ (st.ready = false ∧ t ≠ idle)) :
    TaskOk idle t { c with taskStatus := st } pl sl cpu where
  __ := h
  ready hr := h.ready (hready ▸ hr)
  queued p hp := hready.trans (h.queued p hp)
  pend := by
    rw [← h.pend]
    exact iff_of_eq (congrArg (· = true) hpend)
  free hc := absurd hc hf
  recycled hc := by
    obtain ⟨h1, h2, h3⟩ := h.recycled hc
    refine ⟨hunused.trans h1, hexit.trans h2, ?_⟩
    rw [eq_false_iff]
    intro hj
    simp [hjoin hj] at h3
  sort := by
    rw [hdelay, htime]
    exact h.sort
  time hu := h.time (hunused ▸ hu)
  readyX hr := by
    have hr' : c.taskStatus.ready = true := hready ▸ hr
    obtain ⟨h1, h2, h3, h4, h5⟩ := h.readyX hr'
    refine ⟨?_, hdelay.trans h2, hexit.trans h3, hunused.trans h4, h5⟩
    rw [eq_false_iff]
    intro hs
    rcases hsusp hs with h' | ⟨h', -⟩
    · simp [h1] at h'
    · simp [hready, hr'] at h'
  timed hc := hpend.trans (h.timed (htime ▸ hc))
  pendX hc := by
    obtain ⟨h1, h2, h3⟩ := h.pendX (hpend ▸ hc)
    exact ⟨hdelay.trans h1, hexit.trans h2, hunused.trans h3⟩
  delayX hc := by
    obtain ⟨h1, h2⟩ := h.delayX (hdelay ▸ hc)
    exact ⟨hexit.trans h1, hunused.trans h2⟩
  idleX ht := by
    obtain ⟨h1, h2, h3, h4, h5⟩ := h.idleX ht
    refine ⟨hunused.trans h1, hexit.trans h2, hpend.trans h3, hdelay.trans h4, ?_⟩
    rw [eq_false_iff]
    intro hs
    rcases hsusp hs with h' | ⟨-, h'⟩
    · simp [h5] at h'
    · exact h' ht

/-- Fields that do not decide where the nodes are. -/
theorem congr {c' : LosTaskCB} (hid : c'.taskID = c.taskID)
    (hprio : c'.priority = c.priority) (hst : c'.taskStatus = c.taskStatus)
    (htime : c'.responseTime = c.responseTime) : TaskOk idle t c' pl sl cpu := by
  cases c'
  subst hid hprio hst htime
  exact { h with }

theorem setPriority (hr : c.taskStatus.ready = false) {p : Nat}
    (hp : p < priorityQueueNum) : TaskOk idle t { c with priority := p } pl sl cpu where
  __ := h
  prio := hp
  ready hc := by
    have hc' : c.taskStatus.ready = true := hc
    simp [hr] at hc'

/-- `OsSchedTaskExit`: out of every list. -/
theorem exit (ht : t ≠ idle) :
    TaskOk idle t
      { c with
        responseTime := invalidTime
        taskStatus := { c.taskStatus with
          ready := false, pend := false, delay := false, pendTime := false, exit := true } }
      none false cpu where
  __ := h
  ready hc := by cases hc
  queued _ hc := by cases hc
  pend := by simp
  free hc := by cases hc
  recycled hc := by cases hc
  listed _ hc := by cases hc
  sort := by simp
  time _ := by simp
  readyX hc := by cases hc
  timed hc := by cases hc
  pendX hc := by cases hc
  delayX hc := by cases hc
  idleX hc := absurd hc ht

/-- A task with nothing to wait for in the sort link comes to the CPU or leaves it. -/
theorem setCpu (hr : c.taskStatus.ready = false)
    (hd : c.taskStatus.delay = false) (hp : c.taskStatus.pendTime = false) (b : Bool) :
    TaskOk idle t c pl sl b where
  __ := h
  sort := by simp [h.sl_false hd hp, hd, hp]
  readyX hc := by
    simp [hr] at hc

end

/-- A task that waits with a timeout, or is delayed, leaves the CPU and enters the sort link. -/
theorem sortIn (h : TaskOk idle t c pl sl true)
    (hd : c.taskStatus.delay = true ∨ c.taskStatus.pendTime = true) {time : Nat}
    (htime : time ≠ invalidTime) : TaskOk idle t { c with responseTime := time } pl true false where
  __ := h
  sort := iff_of_true rfl ⟨rfl, hd⟩
  time _ := iff_of_true rfl htime
  readyX hc := by cases (h.readyX hc).2.2.2.2

end TaskOk

end LiteosM.Kernel
