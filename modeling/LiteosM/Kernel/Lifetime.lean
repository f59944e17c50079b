import LiteosM.Kernel.Change

/-!
# The critical sections that create and end tasks

`LOS_TaskCreate` in its pieces, `LOS_TaskDelete`, the end of `LOS_TaskJoin`, `LOS_TaskDetach` and
`OsRecycleFinishedTask`. `Alter t k v k' v'` says that the code that takes `k` to `k'` keeps the invariant
and changes what task `t` is, and nothing of what the others are.

* `At.createTake`, `At.newTaskInit`, `At.insertTCBToFreeList`, `At.createEnQueue`: the pieces of a creation;
* `At.joinFree`, `At.taskDetach`, `AtAny.recycleFinishedTask`: how a control block comes back;
* `State.newTaskInit_toSched`, `State.newTaskInit_todo`: what `OsNewTaskInit` writes.

Premise (`Untouched`): between two pieces of a creation no other task has resumed, suspended or deleted the
new one. The kernel does not see to that, and `Kernel.Placement` has a run in which it goes wrong.
-/

namespace LiteosM.Kernel

open LiteosM.Lib Function List Option Sched State

/-- A step that changes the life of task `t` only. -/
structure Alter (t : Nat) (k : State) (v : View) (k' : State) (v' : View) : Prop where
  inv : Inv k' v'
  life : ∀ u < taskMaxNum, u ≠ t → (v'.s.tcb u).life = (v.s.tcb u).life
  unused : ∀ u, u ≠ t → (v.s.st u).unused = true → v'.pl u = v.pl u
  queued : ∀ u p, u ≠ t → v.pl u = some (.priQueue p) → v'.pl u = some (.priQueue p)
  ahead : ∀ p a r, a ≠ t → r ≠ t → Ahead v.L p a r → Ahead v'.L p a r
  fixed : v'.s.idleTaskID = v.s.idleTaskID ∧ v'.s.taskScheduled = v.s.taskScheduled
  wait : ∀ u n, n.isWait = true → v'.pl u = some n → v.pl u = some n

section
variable {k k' : State} {v v' : View} {t : Nat}

/-- The parts of the invariant behind a change of one task. -/
theorem AtAny.alter (hA : AtAny k v) (h : Change t v v') (hG : Good v') (hs : v'.s = k'.toSched)
    (hipc : SameIpc k k') (hpl : ∀ n, n.isWait = true → v'.pl t = some n → v.pl t = some n)
    (htodo : TodoOk k' v') (hgo : k.taskScheduled = true → (v'.s.st k.runTask).stops = false) :
    Alter t k v k' v' := by
  have hctl : k'.toSched.ctl = k.toSched.ctl := by rw [← hs, ← hA.eq, h.ctl]
  have hwait : ∀ u n, n.isWait = true → v'.pl u = some n → v.pl u = some n := by
    intro u n hn hu
    by_cases hc : u = t
    · subst hc
      exact hpl n hn hu
    · exact h.pl u hc ▸ hu
  refine ⟨⟨⟨hs, hG, hA.ipc.same hipc (fun n hn hL => ?_) hwait, htodo⟩,
    fun hstart hstop => ?_⟩, fun u _ hu => by rw [h.tcb u hu], fun u hu _ => h.pl u hu,
    fun u p hu hpl => by rw [h.pl u hu, hpl], fun p a r ha hr => h.ahead ha hr,
    ⟨h.idleTaskID, h.taskScheduled⟩, hwait⟩
  · refine (h.heads n ?_).mp hL
    rintro rfl
    exact hn rfl
  · have hno := hgo ((congrArg Ctl.taskScheduled hctl).symm.trans hstart)
    simp [hs, ← show k'.runTask = k.runTask from congrArg Ctl.runTask hctl, hstop] at hno

/-- After the start the running task is a task that has not ended. -/
theorem AtAny.used (hA : AtAny k v) (hstart : k.taskScheduled = true) :
    (k.st k.runTask).unused = false ∧ (k.st k.runTask).exit = false := by
  obtain ⟨-, -, -, -, he, hu⟩ := TaskStatus.stops_eq_false (hA.goes hstart)
  exact ⟨hu, he⟩

/-- The running task is not the one that changes. -/
theorem AtAny.still_goes (hA : AtAny k v) (h : Change t v v') (ht : t ≠ k.runTask)
    (hstart : k.taskScheduled = true) : (v'.s.st k.runTask).stops = false := by
  rw [h.st ht.symm, hA.eq]
  exact hA.goes hstart

/-- A control block that is no task, or whose task has ended, is not running. -/
theorem AtAny.ne_runTask (hA : AtAny k v) (ht : t < taskMaxNum)
    (h : (v.s.st t).unused = true ∨ (v.s.st t).exit = true) : t ≠ k.runTask := by
  rintro rfl
  obtain ⟨hu, he⟩ := hA.used (hA.started ht)
  rw [hA.eq, hu, he] at h
  simp at h

/-! ## Creation -/

/-- A control block that is no task is not waited for. -/
theorem Core.joinList_nil (hC : Core k v) (hu : (v.s.st t).unused = true ∨ (v.s.st t).exit = true) :
    v.L.at (.joinList t) = [] := by
  refine v.at_nil rfl fun u hpl => ?_
  obtain ⟨-, -, he, hu'⟩ := hC.good.join.target u t hpl
  rw [he, hu'] at hu
  simp at hu

/-- A task, or a control block in a list, is in nobody's hand. -/
theorem TodoOk.not_held (hT : TodoOk k v) (h : v.pl t ≠ none ∨ (v.s.st t).unused = false) (u : Nat) :
    ∀ c ∈ k.todo u, c.holds ≠ some t := by
  intro c hc hh
  obtain ⟨-, hu, hpl⟩ := hT.held u t c hc hh
  rw [hu, hpl] at h
  simp at h

/-- The running task has control block `t` in hand. -/
theorem TodoOk.take (hT : TodoOk k v) (hclean : ∀ c ∈ k.todo k.runTask, c.holds = none)
    (hbusy : k.runTask ≠ k.idleTaskID) {c : Sec} (hc : c.WellFormed) (hholds : c.holds = some t)
    (htodo : k'.todo = update k.todo k.runTask ([c] ++ k.todo k.runTask))
    (hidle : k'.idleTaskID = k.idleTaskID) (hheld : ∀ u t', ∀ c ∈ k.todo u, c.holds = some t' →
      t' ≠ t ∧ (v'.s.st t').unused = true ∧ v'.pl t' = none)
    (hnew : t ≠ k.idleTaskID ∧ (v'.s.st t).unused = true ∧ v'.pl t = none) : TodoOk k' v' := by
  have hrun : k'.todo k.runTask = c :: k.todo k.runTask := by
    rw [htodo, update_self, singleton_append]
  have hother : ∀ u, u ≠ k.runTask → k'.todo u = k.todo u := fun u hu => by
    rw [htodo, update_of_ne hu]
  -- whoever holds a control block either is the running task, with `t`, or held it before
  have hwho : ∀ u t', ∀ c' ∈ k'.todo u, c'.holds = some t' →
      (u = k.runTask ∧ t' = t) ∨ (u ≠ k.runTask ∧ c' ∈ k.todo u) := by
    intro u t' c' hc' hh
    by_cases hu : u = k.runTask
    · subst hu
      rw [hrun] at hc'
      rcases mem_cons.mp hc' with rfl | hc'
      · rw [hholds] at hh
        exact .inl ⟨rfl, (some.inj hh).symm⟩
      · simp [hclean c' hc'] at hh
    · exact .inr ⟨hu, hother u hu ▸ hc'⟩
  constructor
  · intro u c' hc'
    by_cases hu : u = k.runTask
    · subst hu
      rw [hrun] at hc'
      rcases mem_cons.mp hc' with rfl | hc'
      · exact hc
      · exact hT.wellFormed _ c' hc'
    · exact hT.wellFormed u c' (hother u hu ▸ hc')
  · intro u c' hc'
    by_cases hu : u = k.runTask
    · subst hu
      rw [hrun] at hc'
      exact hclean c' hc'
    · exact hT.tail u c' (hother u hu ▸ hc')
  · intro u t' c' hc' hh
    rw [hidle]
    rcases hwho u t' c' hc' hh with ⟨-, rfl⟩ | ⟨-, hold⟩
    · exact hnew
    · exact ⟨(hT.held u t' c' hold hh).1, (hheld u t' c' hold hh).2⟩
  · intro u u' t' c1 hc1 c2 hc2 hh1 hh2
    rcases hwho u t' c1 hc1 hh1 with ⟨rfl, rfl⟩ | ⟨-, hold1⟩
    · rcases hwho u' _ c2 hc2 hh2 with ⟨rfl, -⟩ | ⟨-, hold2⟩
      · rfl
      · exact absurd rfl (hheld u' _ c2 hold2 hh2).1
    · rcases hwho u' t' c2 hc2 hh2 with ⟨-, rfl⟩ | ⟨-, hold2⟩
      · exact absurd rfl (hheld u _ c1 hold1 hh1).1
      · exact hT.once u u' t' c1 hold1 c2 hold2 hh1 hh2
  · intro c' hc'
    rw [hidle, hother _ hbusy.symm] at hc'
    exact hT.idles c' hc'

/-- The control blocks other tasks have in hand are left alone by a change of one they have not. -/
theorem TodoOk.held_change (hT : TodoOk k v) (h : Change t v v')
    (hfree : ∀ u, ∀ c ∈ k.todo u, c.holds ≠ some t) : ∀ u t', ∀ c ∈ k.todo u, c.holds = some t' →
      t' ≠ t ∧ (v'.s.st t').unused = true ∧ v'.pl t' = none := by
  intro u t' c hc hh
  have hne : t' ≠ t := fun heq => hfree u c hc (heq ▸ hh)
  obtain ⟨-, hu, hpl⟩ := hT.held u t' c hc hh
  rw [h.st hne, h.pl t' hne]
  exact ⟨hne, hu, hpl⟩

/-- The section of `LOS_TaskCreateOnly` that takes a control block. -/
theorem At.createTake (hA : At k v) (p : TskInitParam) (enqueue : Bool)
    (hp : p.usTaskPrio < priorityQueueNum) : Effect nobody k v (k.createTake p enqueue) v ∨
      ∃ t v', k.createTake p enqueue = (k.onSched (·.pop t)).push [.newTaskInit t p enqueue] ∧
        Alter t k v (k.createTake p enqueue) v' ∧ v.pl t = some .losFreeTask ∧ v'.pl t = none := by
  unfold State.createTake
  split_ifs with hempty
  · exact .inl (hA.done _)
  obtain ⟨t, ht, hfirst, hpl⟩ := v.first_some
    (v.placed.shape.head .losFreeTask rfl) Node.noConfusion (by rw [hA.eq]; simpa using hempty)
  rw [hA.eq] at hfirst
  rw [hfirst]
  have hT := v.placed.task t ht
  have hst : v.s.st t = .onlyUnused := hT.free hpl
  have hu : (v.s.st t).unused = true := by rw [hst]; rfl
  have hidle : t ≠ k.idleTaskID := by
    intro hc
    have := (hT.idleX (by rwa [hA.eq])).1
    unfold st at hu
    simp [this] at hu
  obtain ⟨v', hs', hchange, hpl', -⟩ := v.pop hpl (fun _ => Node.noConfusion) hu
  have htcb : v'.s.tcb t = v.s.tcb t := by rw [hs']; rfl
  have hst' : v'.s.st t = v.s.st t := congrArg LosTaskCB.taskStatus htcb
  refine .inr ⟨t, v', rfl, hA.alter hchange ⟨?_, ?_⟩ (by rw [hs', hA.eq]; rfl)
    ⟨rfl, rfl, rfl, rfl, rfl, rfl⟩ (fun n _ hn => ?_) ?_ (hA.still_goes hchange (hA.ne_runTask ht (.inl hu))), hpl, hpl'⟩
  · refine hchange.runOk hA.good.run ht (.inr ?_) ?_ ?_
    all_goals rw [hst']
    · exact ⟨rfl, rfl⟩
    · exact id
    · exact id
  · refine hchange.joinOk hA.good.join (fun j hj => ?_) (.inr ?_) fun hj => ?_
    · simp [hpl'] at hj
    · rw [hst']
      exact ⟨rfl, rfl, rfl⟩
    · rw [hst', hst] at hj
      cases hj
  · simp [hpl'] at hn
  · refine hA.todo.take hA.clean hA.busy (c := .newTaskInit t p enqueue) ⟨ht, hp⟩ rfl rfl rfl
      (hA.todo.held_change hchange (hA.todo.not_held (.inl (hpl ▸ some_ne_none _))))
      ⟨hidle, by rwa [hst'], hpl'⟩

/-- The control block as `OsNewTaskInit` leaves it, the next stack of the heap being number `n`. -/
def LosTaskCB.created (c : LosTaskCB) (p : TskInitParam) (n : Nat) : LosTaskCB :=
  { c.newTask p with
    topOfStack :=
      if p.stackAddr = 0 then (if p.memory then .heap n else .null) else .user p.stackAddr
    taskStatus := { (c.newTask p).taskStatus with stackFree := p.stackAddr = 0 && p.memory } }

theorem Sched.setTCB_setTCB (s : Sched) (t : Nat) (f g : LosTaskCB → LosTaskCB) :
    (s.setTCB t f).setTCB t g = s.setTCB t fun c => g (f c) := by
  unfold setTCB
  dsimp only
  rw [update_self, update_idem]

/-- `OsNewTaskInit` could not get a stack. -/
def TskInitParam.fails (p : TskInitParam) : Bool := p.stackAddr = 0 && !p.memory

theorem State.newTaskInit_toSched (k : State) (t : Nat) (p : TskInitParam) (enqueue : Bool) :
    (k.newTaskInit t p enqueue).toSched = (k.toSched.setTCB t fun c => c.created p k.allocated).setHeap
      (if p.joinable then k.heap.init (.joinList t) else k.heap) := by
  have hset : ∀ (s : Sched) (h : Heap Node) (g : LosTaskCB → LosTaskCB),
      (s.setHeap h).setTCB t g = (s.setTCB t g).setHeap h := fun _ _ _ => rfl
  unfold newTaskInit LosTaskCB.created
  cases hj : p.joinable <;> by_cases ha : p.stackAddr = 0 <;> cases hm : p.memory <;>
    simp [ha, onSched, push, done, setTodo, hset, setTCB_setTCB,
      LosTaskCB.newTask, hj, TaskStatus.zero]
  all_goals rfl

theorem State.newTaskInit_todo (k : State) (t : Nat) (p : TskInitParam) (enqueue : Bool) :
    (k.newTaskInit t p enqueue).todo =
      if p.fails then update k.todo k.runTask ([.insertTCBToFreeList t] ++ k.todo k.runTask)
      else update (update k.todo t []) k.runTask
        ((if enqueue then [.createEnQueue t] else []) ++ update k.todo t [] k.runTask) := by
  unfold newTaskInit TskInitParam.fails
  cases p.joinable <;> by_cases ha : p.stackAddr = 0 <;> cases p.memory <;>
    simp [ha]
  all_goals rfl

theorem State.newTaskInit_ipc (k : State) (t : Nat) (p : TskInitParam) (enqueue : Bool) :
    SameIpc k (k.newTaskInit t p enqueue) := by
  unfold newTaskInit
  split_ifs <;> exact ⟨rfl, rfl, rfl, rfl, rfl, rfl⟩

/-- `OsNewTaskInit`. -/
theorem At.newTaskInit (hA : At k v) (ht : t < taskMaxNum) {p : TskInitParam}
    (hp : p.usTaskPrio < priorityQueueNum) (hidle : t ≠ k.idleTaskID)
    (hu : (v.s.st t).unused = true) (hpl : v.pl t = none)
    (hfree : ∀ u, ∀ c ∈ k.todo u, c.holds ≠ some t) (enqueue : Bool) :
    ∃ v', Alter t k v (k.newTaskInit t p enqueue) v' ∧ v'.pl t = none := by
  have hrun := hA.ne_runTask ht (.inl hu)
  have hT := v.placed.task t ht
  have hidle' : t ≠ v.s.idleTaskID := by
    rwa [hA.eq]
  have hok : TaskOk v.s.idleTaskID t ((v.s.tcb t).created p k.allocated) none false
      (decide (some v.s.runTask = some t)) :=
    TaskOk.fresh (c := (v.s.tcb t).created p k.allocated) hidle' hT.taskID hp rfl rfl rfl rfl rfl _
  obtain ⟨v', hs', hchange, hpl', hL'⟩ := v.fill hpl (v.sl_unused hu) (hA.joinList_nil (.inl hu))
    (·.created p k.allocated) hok p.joinable
  have hst : v'.s.st t = { TaskStatus.zero with
        suspend := true, joinable := p.joinable, stackFree := p.stackAddr = 0 && p.memory } := by
    unfold st
    rw [hs', setHeap_tcb, setTCB_self]
    rfl
  have hheld := hA.todo.held_change hchange hfree
  refine ⟨v', hA.alter hchange ⟨?_, ?_⟩ ?_ (k.newTaskInit_ipc t p enqueue) (fun n _ hn => ?_) ?_
    (hA.still_goes hchange hrun), hpl'⟩
  · refine hchange.runOk hA.good.run ht (.inl ⟨?_, ?_⟩) (fun hc => ?_) fun hc => ?_
    · rw [hst]
      rfl
    · rwa [hA.eq]
    · rw [hst] at hc
      cases hc
    · rw [hst] at hc
      cases hc
  · refine hchange.joinOk hA.good.join (fun j hj => ?_) (.inl fun u hu' => ?_) fun hj => ?_
    · simp [hpl'] at hj
    · simp [(hA.good.join.target u t hu').2.2.2] at hu
    · rw [hst] at hj
      exact hL' hj
  · rw [hs', newTaskInit_toSched, hA.eq]
  · simp [hpl'] at hn
  have hsame : (k.newTaskInit t p enqueue).idleTaskID = k.idleTaskID := by
    rw [show (k.newTaskInit t p enqueue).idleTaskID = (k.newTaskInit t p enqueue).toSched.idleTaskID
      from rfl, newTaskInit_toSched]
    rfl
  have htodo := k.newTaskInit_todo t p enqueue
  split at htodo
  · refine hA.todo.push hA.clean (fun c hc => ?_) (.inl hA.busy) htodo hsame
      fun u t' c hc hh => (hheld u t' c hc hh).2
    rw [mem_singleton.mp hc]
    exact ⟨ht, rfl⟩
  refine hA.todo.replace hsame (fun u => ?_) fun u t' c hc hh => (hheld u t' c hc hh).2
  rw [htodo]
  by_cases hur : u = k.runTask
  · subst hur
    rw [update_self, update_of_ne hrun.symm]
    refine .inr fun c hc => ?_
    rcases mem_append.mp hc with hc | hc
    · split_ifs at hc
      · rw [mem_singleton.mp hc]
        exact ⟨ht, rfl, fun hi => absurd hi hA.busy⟩
      · cases hc
    · exact ⟨hA.todo.wellFormed _ c hc, hA.clean c hc, fun hi => absurd hi hA.busy⟩
  rw [update_of_ne hur]
  by_cases hut : u = t
  · rw [hut, update_self]
    exact .inr fun c hc => by cases hc
  · rw [update_of_ne hut]
    exact .inl rfl

/-! ## The way back to the free list -/

/-- `OsInsertTCBToFreeList` of a control block that has been taken out of its list. -/
theorem AtAny.wipe (hA : AtAny k v) {v1 : View} (h1 : Change t v v1) (ht : t < taskMaxNum)
    (hpl : v1.pl t = none) (hsl : v1.sl t = false)
    (hlive : v.pl t ≠ none ∨ (v.s.st t).unused = false) (hidle : t ≠ k.idleTaskID)
    (hrun : t ≠ k.runTask) (hjoin : ∀ u, v.pl u ≠ some (.joinList t))
    (hs : k'.toSched = v1.s.insertTCBToFreeList t) (hipc : SameIpc k k') {l : List Sec}
    (hl : ∀ c ∈ l, c.WellFormed ∧ c.holds = none)
    (hl' : k.runTask ≠ k.idleTaskID ∨ ∀ c ∈ l, c.idles = true)
    (htodo : k'.todo = update k.todo k.runTask (l ++ k.todo k.runTask)) :
    ∃ v', Alter t k v k' v' ∧ Wiped t v' := by
  have hnil : v1.L.at (.joinList t) = [] := by
    refine v1.at_nil rfl fun u hu => ?_
    by_cases hc : u = t
    · simp [hc, hpl] at hu
    · exact hjoin u (h1.pl u hc ▸ hu)
  have hidle1 : t ≠ v1.s.idleTaskID := by
    rwa [h1.idleTaskID, hA.eq]
  obtain ⟨v', hs', h2, hw⟩ := v1.wipe ht hpl hsl hnil hidle1
  have hpl' := hw.pl
  have hchange := h1.trans h2
  have hst : v'.s.st t = .onlyUnused := congrArg LosTaskCB.taskStatus hw.tcb
  refine ⟨v', hA.alter hchange ⟨?_, ?_⟩ (hs'.trans hs.symm) hipc (fun n hn hn' => ?_) ?_
    (hA.still_goes hchange hrun), hw⟩
  · refine hchange.runOk hA.good.run ht (.inl ⟨?_, ?_⟩) (fun hc => ?_) fun hc => ?_
    · rw [hst]
      rfl
    · rwa [hA.eq]
    · rw [hst] at hc
      cases hc
    · rw [hst] at hc
      cases hc
  · refine hchange.joinOk hA.good.join (fun j hj => ?_) (.inl hjoin) fun hj => ?_
    · simp [hpl'] at hj
    · rw [hst] at hj
      cases hj
  · rw [hpl', some.injEq] at hn'
    rw [← hn'] at hn
    cases hn
  · refine hA.todo.push hA.clean hl hl' htodo ?_ fun u t' c hc hh =>
      (hA.todo.held_change hchange (hA.todo.not_held hlive) u t' c hc hh).2
    rw [hs, ← hs', hchange.idleTaskID, hA.eq]

theorem Change.refl (t : Nat) (v : View) : Change t v v :=
  ⟨fun _ _ => rfl, fun _ _ => rfl, fun _ => rfl, fun _ _ => Iff.rfl, rfl⟩

/-- What was stored in a control block that is cleared is lost. -/
theorem Sched.insertTCBToFreeList_setTCB (s : Sched) (t : Nat) {f : LosTaskCB → LosTaskCB}
    (hf : ∀ c, (f c).taskID = c.taskID) :
    (s.setTCB t f).insertTCBToFreeList t = s.insertTCBToFreeList t := by
  have hset : ∀ h, (s.setTCB t f).setHeap h = (s.setHeap h).setTCB t f := fun _ => rfl
  unfold insertTCBToFreeList
  dsimp only
  rw [hset, setTCB_setTCB]
  simp only [hf]
  rfl

theorem Sched.recycleTaskResources_eq (s : Sched) (t : Nat) (hj : (s.st t).joinable = false) :
    s.recycleTaskResources t = s.insertTCBToFreeList t := by
  have hj' : (s.tcb t).taskStatus.joinable = false := hj
  unfold recycleTaskResources
  dsimp only
  split_ifs with hp hc hc
  · exact insertTCBToFreeList_setTCB s t fun _ => rfl
  · unfold st at hc
    simp [hj'] at hc
  · rfl
  · simp [hj] at hc

/-- The control block a creation gives back has been left alone meanwhile. -/
@[mk_iff] structure Untouched (k : State) (t : Nat) : Prop where
  unused : (k.st t).unused = false
  suspend : (k.st t).suspend = true
  exit : (k.st t).exit = false
  pend : (k.st t).pend = false
  delay : (k.st t).delay = false

section
variable (hA : At k v) (ht : t < taskMaxNum) (h : Untouched k t)
include hA ht h

theorem At.untouched : v.pl t = none ∧ v.sl t = false ∧ t ≠ k.idleTaskID ∧ t ≠ k.runTask := by
  have hT := v.placed.task t ht
  obtain ⟨hu, hs, -, hp, hd⟩ := h
  unfold st at hu hs hp hd
  rw [hA.eq] at hT
  refine ⟨hT.pl_none hu ?_ hp, hT.sl_false hd (hT.not_pendTime hp), fun hc => ?_, fun hc => ?_⟩
  · rw [Bool.eq_false_iff]
    intro hr
    simp [(hT.readyX hr).1] at hs
  · simp [(hT.idleX hc).2.2.2.2] at hs
  have hgo := (TaskStatus.stops_eq_false (hA.goes (hA.started (hc ▸ ht)))).2.2.2.1
  rw [← hc] at hgo
  unfold st at hgo
  simp [hgo] at hs

/-- The end of a creation for which there was no memory. -/
theorem At.insertTCBToFreeList
    (hjoin : (k.st t).joinable = true → k.heap.isEmpty (.joinList t) = true) :
    ∃ v', Alter t k v (k.onSched (·.insertTCBToFreeList t)) v' ∧ v.pl t = none ∧ Wiped t v' := by
  obtain ⟨hpl, hsl, hidle, hrun⟩ := hA.untouched ht h
  have hu : (v.s.st t).unused = false := by
    rw [hA.eq]
    exact h.unused
  have hno : ∀ u, v.pl u ≠ some (.joinList t) := by
    intro u hu
    obtain ⟨-, hj, -⟩ := hA.good.join.target u t hu
    have hmem := (v.placed.shape.pend u _).mpr hu
    rw [(v.placed.shape.rings.isEmpty_iff (NodeLists.some_of_ne_none (hA.good.join.init t ht hj))).mp
      (by rw [hA.eq] at hj ⊢; exact hjoin hj)] at hmem
    cases hmem
  have hs : (k.onSched (·.insertTCBToFreeList t)).toSched = v.s.insertTCBToFreeList t := by
    rw [hA.eq]
    rfl
  obtain ⟨v', halter, hpl'⟩ := hA.wipe (Change.refl t v) ht hpl hsl (.inr hu) hidle hrun hno hs
    ⟨rfl, rfl, rfl, rfl, rfl, rfl⟩ (fun _ hc => by cases hc) (.inl hA.busy) (todo_same _ _)
  exact ⟨v', halter, hpl, hpl'⟩

/-- The section of `LOS_TaskCreate` that makes the task ready. -/
theorem At.createEnQueue : ∃ v', Effect nobody k v (k.createEnQueue t) v' := by
  obtain ⟨hpl, hsl, hidle, hrun⟩ := hA.untouched ht h
  have heq := hA.eq
  have hr : (v.s.st t).ready = false := by
    rw [Bool.eq_false_iff]
    intro hr
    have hs := h.suspend
    rw [← heq] at hs
    unfold st at hs
    simp [((v.placed.task t ht).readyX hr).1] at hs
  have hu : (v.s.st t).unused = false := by rw [heq]; exact h.unused
  have hmoved := v.placed.taskEnQueue ht hpl hsl (by rw [heq]; simpa using hrun.symm) hr hu
    (heq ▸ h.exit)
  have hstop : (v.s.st t).stops = true := by
    have hs : (v.s.st t).suspend = true := by rw [heq]; exact h.suspend
    unfold TaskStatus.stops TaskStatus.blocked
    simp [hs]
  obtain ⟨v', hs', hcalm⟩ := v.calm_task (w := noList) ht hmoved (fun hc => by cases hc)
    hu (.inr (.inr ⟨_, if_neg (by rwa [heq])⟩)) (.inr ⟨hr, hstop⟩)
  refine ⟨v', hA.effect (hA.tables rfl) (Calms.one hcalm) ?_
    (fun _ hn => hn.elim) plain_schedule rfl fun hm => hm.elim⟩
  rw [hs', heq]
  rfl

end

/-- `LOS_MemFree`. -/
theorem AtAny.memFree (hA : AtAny k v) (p : StackPtr) : Inv (k.memFree p) v := by
  have hsame : SameIpc k (k.memFree p) := by
    unfold State.memFree
    split_ifs <;> exact ⟨rfl, rfl, rfl, rfl, rfl, rfl⟩
  have hs : (k.memFree p).toSched = k.toSched := by
    unfold State.memFree
    split_ifs <;> rfl
  have htodo : (k.memFree p).todo = k.todo := by
    unfold State.memFree
    split_ifs <;> rfl
  refine ⟨⟨hA.eq.trans hs.symm, hA.good, hA.ipc.same hsame (fun _ _ => id) fun _ _ _ => id,
    hA.todo.replace (congrArg idleTaskID hs) (fun u => .inl (congrFun htodo u)) fun u t c hc hh =>
      (hA.todo.held u t c hc hh).2⟩, fun hstart hstop => ?_⟩
  have hgo := hA.goes ((congrArg taskScheduled hs).symm.trans hstart)
  rw [← hs] at hgo
  simp [hgo] at hstop

/-- One round of `OsRecycleFinishedTask`. -/
theorem AtAny.recycleFinishedTask (hA : AtAny k v) : k.recycleFinishedTask = k ∨
      ∃ t v', k.recycleFinishedTask = ((k.onSched (·.pop t)).onSched (·.insertTCBToFreeList t)).push
          [.memFree (k.tcb t).stackToFree, .recycleFinishedTask] ∧
        Alter t k v k.recycleFinishedTask v' ∧ v.pl t = some .taskRecycleList ∧ Wiped t v' := by
  unfold State.recycleFinishedTask
  split_ifs with hempty
  · exact .inl rfl
  obtain ⟨t, ht, hfirst, hpl⟩ := v.first_some
    (v.placed.shape.head .taskRecycleList rfl) Node.noConfusion (by rw [hA.eq]; simpa using hempty)
  have heq := hA.eq
  rw [heq] at hfirst
  rw [hfirst]
  dsimp only
  obtain ⟨hu, he, hj⟩ := (v.placed.task t ht).recycled hpl
  obtain ⟨v1, hs1, h1, hpl1, -⟩ := v.pop hpl (fun _ => Node.noConfusion) hu
  have hrun : t ≠ k.runTask := hA.ne_runTask ht (.inl hu)
  have hidle : t ≠ k.idleTaskID := by
    intro hc
    rw [← heq] at hc
    simp [((v.placed.task t ht).idleX hc).1] at hu
  have hno : ∀ u, v.pl u ≠ some (.joinList t) := by
    intro u hu'
    cases hu.symm.trans ((hA.good.join.target u t hu').2.2.2)
  have hk : (((k.onSched (·.pop t)).onSched (·.recycleTaskResources t)).push
      [.memFree ((k.onSched (·.pop t)).tcb t).stackToFree, .recycleFinishedTask]) =
      ((k.onSched (·.pop t)).onSched (·.insertTCBToFreeList t)).push
          [.memFree (k.tcb t).stackToFree, .recycleFinishedTask] := by
    have hrec : (k.toSched.pop t).recycleTaskResources t = (k.toSched.pop t).insertTCBToFreeList t :=
      recycleTaskResources_eq _ t (by rwa [← heq])
    unfold onSched
    dsimp only
    rw [hrec]
    rfl
  rw [hk]
  have hs : (((k.onSched (·.pop t)).onSched (·.insertTCBToFreeList t)).push
      [.memFree (k.tcb t).stackToFree, .recycleFinishedTask]).toSched =
      v1.s.insertTCBToFreeList t := by
    rw [hs1, heq]
    rfl
  have hsl1 : v1.sl t = false := by
    refine v1.sl_unused ?_
    rwa [hs1]
  have hl : ∀ c ∈ [Sec.memFree (k.tcb t).stackToFree, .recycleFinishedTask],
      (c.WellFormed ∧ c.holds = none) ∧ c.idles = true := by
    intro c hc
    rcases mem_pair.mp hc with rfl | rfl <;> exact ⟨⟨trivial, rfl⟩, rfl⟩
  obtain ⟨v', halter, hpl'⟩ := hA.wipe h1 ht hpl1 hsl1 (.inl (hpl ▸ some_ne_none _))
    hidle hrun hno hs ⟨rfl, rfl, rfl, rfl, rfl, rfl⟩ (fun c hc => (hl c hc).1)
    (.inr fun c hc => (hl c hc).2) rfl
  exact .inr ⟨t, v', rfl, halter, hpl, hpl'⟩

/-! ## Joining and detaching -/

/-- The end of `LOS_TaskJoin`, for a task that has ended. -/
theorem At.joinFree (hA : At k v) (ht : t < taskMaxNum) (he : (k.st t).exit = true)
    (hu : (k.st t).unused = false) : k.joinFree t =
        ((k.onSched (·.insertTCBToFreeList t)).done .ok).push [.memFree (k.tcb t).stackToFree] ∧
      ∃ v', Alter t k v (k.joinFree t) v' ∧ v.pl t = none ∧ Wiped t v' := by
  have hk : k.joinFree t =
      ((k.onSched (·.insertTCBToFreeList t)).done .ok).push [.memFree (k.tcb t).stackToFree] := by
    have hrec : (k.toSched.setSt t fun st => { st with joinable := false }).recycleTaskResources t =
        k.toSched.insertTCBToFreeList t := by
      rw [recycleTaskResources_eq, setSt, insertTCBToFreeList_setTCB]
      · exact fun _ => rfl
      · rw [setSt_st]
    have hp : ((k.toSched.setSt t fun st => { st with joinable := false }).tcb t).stackToFree =
        (k.tcb t).stackToFree := by
      rw [setSt_self]
      rfl
    unfold State.joinFree State.onSched
    dsimp only
    rw [hrec, hp]
  refine ⟨hk, ?_⟩
  rw [hk]
  have heq := hA.eq
  rw [← heq] at he hu
  have hT := v.placed.task t ht
  obtain ⟨hr, hp, hd, hpt⟩ := hT.of_exit he
  have hpl := hT.pl_none hu hr hp
  have hidle : t ≠ k.idleTaskID := by
    intro hc
    rw [← heq] at hc
    unfold st at he
    simp [(hT.idleX hc).2.1] at he
  have hno : ∀ u, v.pl u ≠ some (.joinList t) := by
    intro u hu'
    simp [(hA.good.join.target u t hu').2.2.1] at he
  have hs : (((k.onSched (·.insertTCBToFreeList t)).done .ok).push
      [.memFree (k.tcb t).stackToFree]).toSched = v.s.insertTCBToFreeList t := by
    rw [heq]
    rfl
  obtain ⟨v', halter, hpl'⟩ := hA.wipe (Change.refl t v) ht hpl (hT.sl_false hd hpt) (.inr hu) hidle
    (hA.ne_runTask ht (.inr he)) hno hs ⟨rfl, rfl, rfl, rfl, rfl, rfl⟩
    (fun c hc => by rw [mem_singleton.mp hc]; exact ⟨trivial, rfl⟩) (.inl hA.busy) rfl
  exact ⟨v', halter, hpl, hpl'⟩

/-- `LOS_TaskDetach`. -/
theorem At.taskDetach (hA : At k v) (t : Nat) :
    Effect nobody k v (k.taskDetach t) v ∨
      ∃ v', Alter t k v (k.taskDetach t) v' ∧ v'.pl t = v.pl t ∧ (∀ n, v'.L.at n = v.L.at n) ∧
        (v.s.st t).unused = false ∧
        (v'.s.tcb t).life = { (v.s.tcb t).life with joinable := false } ∧
        (k.taskDetach t).runTask = k.runTask ∧ (k.taskDetach t).todo = k.todo ∧
        (k.taskDetach t).allocated = k.allocated ∧ (k.taskDetach t).freed = k.freed := by
  unfold State.taskDetach
  rcases checkTaskIDValid_cases k t with ⟨h, hidle, ht⟩ | h | h <;> rw [h]
  · split_ifs with hu he hj hempty
    · exact .inl (hA.done _)
    · refine .inl (hA.idle (hA.tables rfl) rfl (fun c hc => ?_) rfl)
      rw [mem_singleton.mp hc]
      exact ⟨trivial, rfl⟩
    · right
      have heq := hA.eq
      have hu' : (v.s.st t).unused = false := by rw [heq]; simpa using hu
      have hL := NodeLists.some_of_ne_none (hA.good.join.init t ht (by rwa [heq]))
      have hnil := (v.placed.shape.rings.isEmpty_iff hL).mp (by rwa [heq])
      rw [hnil] at hL
      obtain ⟨v', hs', hchange, hpl', hlists⟩ := v.detach ht hu' hL
      have htcb : v'.s.tcb t =
          { v.s.tcb t with taskStatus := { (v.s.tcb t).taskStatus with joinable := false } } := by
        rw [hs', setSt_self]
        rfl
      have hst : v'.s.st t = { v.s.st t with joinable := false } := congrArg LosTaskCB.taskStatus htcb
      have hheld := hA.todo.held_change hchange (hA.todo.not_held (.inr hu'))
      refine ⟨v', hA.alter hchange ⟨?_, ?_⟩ (by rw [hs', heq]; rfl) ⟨rfl, rfl, rfl, rfl, rfl, rfl⟩
        (fun n _ hn => hpl' ▸ hn) ?_ (fun hstart => ?_), hpl', hlists, hu', by rw [htcb]; rfl, rfl, rfl, rfl,
        rfl⟩
      · refine hchange.runOk hA.good.run ht (.inr ?_) ?_ ?_
        all_goals rw [hst]
        · exact ⟨rfl, rfl⟩
        · exact id
        · exact id
      · refine hchange.joinOk hA.good.join (fun j hj => hpl' ▸ hj) (.inl fun u hu => ?_) fun hj => ?_
        · have := (v.placed.shape.pend u _).mpr hu
          simp [NodeLists.at_of_some hL] at this
        · simp [hst] at hj
      · exact hA.todo.replace rfl (fun _ => .inl rfl) fun u t' c hc hh => (hheld u t' c hc hh).2
      by_cases hc : t = k.runTask
      · have hgo := hA.goes hstart
        rw [← hc, ← heq] at hgo
        rwa [← hc, hst]
      · exact hA.still_goes hchange hc hstart
    · exact .inl (hA.done _)
    · exact .inl (hA.done _)
  · exact .inl (hA.done _)
  · exact .inl (hA.done _)

end

end LiteosM.Kernel
