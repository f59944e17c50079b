import LiteosM.Kernel.Lifetime

/-!
# `LOS_TaskDelete`

A task is deleted in two halves: `OsTaskJoinPostUnsafe` and `OsSchedTaskExit` take it out of every list
(`Exits`), and then its control block goes to the recycle list, stays for a task that will join it, or goes
back to the free list at once.

* `View.exited`, `View.leaves`: the first half, whichever list the task was in;
* `At.deletesSelf`, `At.deletesOther`: the whole, for the running task and for another one;
* **`At.taskDelete`**: a call is refused and changes nothing, or leaves its task in one of the ways of
  `Deleted`.

A task that deletes itself opens the scheduler lock first, as the source does. `ArchTaskSchedule` is a piece
of its own behind these.
-/

namespace LiteosM.Kernel

open LiteosM.Lib Function List Option Sched State

/-- Task `t` has ended: it is in no list, nobody waits for its end, and the other tasks are what they
were. The scheduler lock may have been opened. -/
structure Exits (t : Nat) (v v' : View) : Prop where
  good : Good v'
  life : ∀ u, u ≠ t → (v'.s.tcb u).life = (v.s.tcb u).life
  self : (v'.s.tcb t).life = { (v.s.tcb t).life with exit := true }
  unused : ∀ u, u ≠ t → (v.s.st u).unused = true → v'.pl u = v.pl u
  queued : ∀ u p, u ≠ t → v.pl u = some (.priQueue p) → v'.pl u = some (.priQueue p)
  ahead : ∀ p a r, a ≠ t → r ≠ t → Ahead v.L p a r → Ahead v'.L p a r
  pl : v'.pl t = none
  sl : v'.sl t = false
  join : ∀ u, v'.pl u ≠ some (.joinList t)
  wait : ∀ u n, n.isWait = true → v'.pl u = some n → v.pl u = some n
  heads : ∀ n, v'.L n = none ↔ v.L n = none
  run : v'.s.runTask = v.s.runTask
  idle : v'.s.idleTaskID = v.s.idleTaskID
  start : v'.s.taskScheduled = v.s.taskScheduled
  stop : ∀ u, u ≠ t → (v.s.st u).stops = false → (v'.s.st u).stops = false

/-- What the first half of `LOS_TaskDelete` makes of the scheduler. -/
def Sched.exited (s : Sched) (t lock : Nat) : Sched :=
  (({ s with losTaskLock := lock }.taskJoinPost t).taskExit t).setTCB t fun c => { c with eventMask := 0 }

section
variable {t : Nat}

theorem View.exited (v : View) (hG : Good v) (ht : t < taskMaxNum) (hu : (v.s.st t).unused = false)
    (hidle : t ≠ v.s.idleTaskID) (lock : Nat) :
    ∃ v', v'.s = v.s.exited t lock ∧ v'.s.losTaskLock = lock ∧ Exits t v v' := by
  obtain ⟨v0, hs0, h0, hL0⟩ := v.setLock lock
  obtain ⟨v1, hs1, h1, hjoin⟩ := v0.taskJoinPost (h0.good hG) ht
  have hG1 := h1.good (h0.good hG)
  have hlife1 : ∀ u, (v1.s.tcb u).life = (v.s.tcb u).life := fun u => by rw [h1.life u, h0.tcb]
  have hu1 : (v1.s.st t).unused = false := (congrArg Life.unused (hlife1 t)).trans hu
  have hid1 : v1.s.idleTaskID = v.s.idleTaskID := (congrArg Ctl.idleTaskID h1.ctl).trans h0.idle
  have hrun1 : v1.s.runTask = v.s.runTask := (congrArg Ctl.runTask h1.ctl).trans h0.run
  have hstart1 : v1.s.taskScheduled = v.s.taskScheduled :=
    (congrArg Ctl.taskScheduled h1.ctl).trans h0.start
  obtain ⟨v2, hs2, h2, hpl2, hsl2, hself2, hheads2⟩ := v1.change_of_moved
    (v1.placed.taskExit ht hu1 (by rwa [hid1]))
  obtain ⟨v3, hs3, h3, hpl3, hsl3, hself3, hheads3⟩ := v2.change_of_moved
    (v2.placed.setTCB_congr (fun c => { c with eventMask := 0 }) (fun _ => rfl) (fun _ => rfl)
      (fun _ => rfl) fun _ => rfl)
  have hchange := h2.trans h3
  have hself : (v3.s.tcb t).life = { (v.s.tcb t).life with exit := true } := by
    rw [hself3, ← hlife1 t, ← hself2]
    rfl
  have hexit : (v3.s.st t).exit = true := congrArg Life.exit hself
  have hpl : v3.pl t = none := hpl3.trans hpl2
  have hnot := (v3.placed.task t ht).of_exit hexit
  have hsame : ∀ u, u ≠ t → v3.pl u = v1.pl u := hchange.pl
  refine ⟨v3, ?_, ?_, ⟨?_, ?_⟩, ?_, hself, ?_, ?_, ?_, hpl, hsl3.trans hsl2, ?_, ?_, ?_, ?_, ?_, ?_, ?_⟩
  · rw [hs3, hs2, hs1, hs0]
    rfl
  · have hlock3 : v3.s.losTaskLock = v1.s.losTaskLock := congrArg Ctl.losTaskLock hchange.ctl
    have hlock1 : v1.s.losTaskLock = v0.s.losTaskLock := congrArg Ctl.losTaskLock h1.ctl
    rw [hlock3, hlock1, hs0]
  · refine hchange.runOk hG1.run ht (.inr ⟨?_, ?_⟩) (fun hc => ?_) fun hc => ?_
    · rw [show (v3.s.st t).running = (v.s.st t).running from congrArg Life.running hself]
      exact (congrArg Life.running (hlife1 t)).symm
    · rw [show (v3.s.st t).unused = (v.s.st t).unused from congrArg Life.unused hself]
      exact (congrArg Life.unused (hlife1 t)).symm
    · cases hc.symm.trans hnot.2.1
    · cases hc.symm.trans hnot.2.2.1
  · refine hchange.joinOk hG1.join (fun j hj => ?_) (.inl hjoin) fun hj => ?_
    · simp [hpl] at hj
    · have hj1 : (v1.s.st t).joinable = true :=
        (congrArg Life.joinable (hlife1 t)).trans ((congrArg Life.joinable hself).symm.trans hj)
      exact fun hL => hG1.join.init t ht hj1 ((hheads2 _).mp ((hheads3 _).mp hL))
  · intro u hu'
    rw [hchange.tcb u hu', hlife1]
  · intro u hu' hun
    rw [hsame u hu', h1.pl_unused (by rwa [h0.st]), h0.pl]
  · intro u p hu' hq
    rw [hsame u hu']
    exact h1.untouched (by rwa [h0.pl]) id
  · intro p a r ha hr hahead
    refine hchange.ahead ha hr (h1.ahead id id ?_)
    unfold Ahead
    rwa [h0.lists]
  · intro u hu'
    by_cases hc : u = t
    · simp [hc, hpl] at hu'
    · rw [hsame u hc] at hu'
      exact hjoin u hu'
  · intro u n hn hu'
    by_cases hc : u = t
    · simp [hc, hpl] at hu'
    · rw [hsame u hc] at hu'
      exact h0.pl ▸ (h1.pl_wait hn hu').resolve_right id
  · intro n
    rw [hheads3, hheads2, h1.heads, hL0]
  · rw [hchange.runTask, hrun1]
  · rw [hchange.idleTaskID, hid1]
  · rw [hchange.taskScheduled, hstart1]
  · intro u hu' hgo
    rw [hchange.st hu']
    exact h1.stop (by rwa [h0.st]) id

/-- The second half for a running task that nobody joins: the recycle list. -/
theorem View.leaves (v : View) (hG : Good v) (hstart : v.s.taskScheduled = true)
    (ht : v.s.runTask < taskMaxNum) (he : (v.s.st v.s.runTask).exit = true)
    (hj : (v.s.st v.s.runTask).joinable = false) (hpl : v.pl v.s.runTask = none)
    (hjoin : ∀ u, v.pl u ≠ some (.joinList v.s.runTask)) :
    ∃ v', v'.s = (v.s.setSt v.s.runTask fun st => { st with unused := true }).runningTaskDelete
        v.s.runTask ∧
      Good v' ∧ (∀ u < taskMaxNum, u ≠ v.s.runTask → v'.s.tcb u = v.s.tcb u) ∧
      (v'.s.tcb v.s.runTask).life = { (v.s.tcb v.s.runTask).life with unused := true } ∧
      (∀ u, u ≠ v.s.runTask → v'.pl u = v.pl u) ∧ v'.pl v.s.runTask = some .taskRecycleList ∧
      (∀ n, (v'.L.at n).filter (Node.notOf v.s.runTask) = (v.L.at n).filter (Node.notOf v.s.runTask)) ∧
      (∀ n, v'.L n = none ↔ v.L n = none) ∧ v'.s.runTask = taskMaxNum := by
  generalize hrun : v.s.runTask = t at *
  obtain ⟨v1, hs1, h1, hpl1, hheads1⟩ := v.toRecycle ht hpl he hj
  have hself1 : v1.s.tcb t =
      { v.s.tcb t with taskStatus := { (v.s.tcb t).taskStatus with unused := true } } := by
    rw [hs1, setHeap_tcb, setSt_self]
  have hst1 : v1.s.st t = { v.s.st t with unused := true } := congrArg LosTaskCB.taskStatus hself1
  have hrun1 : v1.s.runTask = t := h1.runTask.trans hrun
  obtain ⟨v', hs', hL', hpl'⟩ := v1.toGhost (fun p =>
    { p with
      taskID := t
      taskStatus := { (v1.s.tcb t).taskStatus with running := true }
      topOfStack := (v1.s.tcb t).topOfStack }) (by rwa [hrun1, hst1])
  have hne : ∀ u < taskMaxNum, u ≠ taskMaxNum := fun u hu => Nat.ne_of_lt hu
  have htcb : ∀ u < taskMaxNum, v'.s.tcb u = v1.s.tcb u := fun u hu => by
    rw [hs', setTCB_of_ne (hne u hu)]
  have hst : ∀ u < taskMaxNum, v'.s.st u = v1.s.st u := fun u hu =>
    congrArg LosTaskCB.taskStatus (htcb u hu)
  have hghost : v'.s.st taskMaxNum = { v1.s.st t with running := true } := by
    unfold st
    rw [hs', setTCB_self]
  have hno := (v.placed.task t ht).of_exit he
  have hR := hG.run
  refine ⟨v', ?_, ⟨?_, ?_⟩, fun u hu hut => ?_, ?_, fun u hu => ?_, ?_, fun n => ?_, fun n => ?_, ?_⟩
  · rw [hs', hs1]
    rfl
  · -- nobody runs but the control block behind the last task
    have hstart' : v'.s.taskScheduled = true := by
      rw [hs']
      exact h1.taskScheduled.trans hstart
    refine ⟨?_, ?_, fun _ hlt => ?_, fun u hu hur => ?_, fun hc => ?_, ?_, ?_⟩
    · rw [hs']
      exact h1.idleTaskID ▸ hR.idle
    · rw [hs']
      exact Nat.le_refl _
    · rw [hs'] at hlt
      exact absurd hlt (Nat.lt_irrefl _)
    · rw [hst u hu] at hur ⊢
      by_cases hut : u = t
      · subst hut
        rw [hst1]
        exact .inr rfl
      · rw [h1.st hut] at hur ⊢
        refine .inr ((hR.running u hu hur).resolve_left fun hc => hut (hc.trans hrun))
    · simp [hstart'] at hc
    · rw [hghost, hst1]
      exact ⟨rfl, hno.1, hno.2.1, hno.2.2.1, hno.2.2.2⟩
    · rw [show v'.s.fault = v1.s.fault by rw [hs']; rfl]
      exact fault_ne_of_ctl (congrArg Ctl.asserted h1.ctl) hR.sound
  · have hback : ∀ u j, v'.pl u = some (.joinList j) → v.pl u = some (.joinList j) ∧ j ≠ t := by
      intro u j hu
      rw [hpl'] at hu
      have hut : u ≠ t := by
        rintro rfl
        simp [hpl1] at hu
      rw [h1.pl u hut] at hu
      exact ⟨hu, fun hc => hjoin u (hc ▸ hu)⟩
    refine ⟨fun u j hu => ?_, fun u u' j hu hu' => ?_, fun j hj' hjoinable => ?_⟩
    · obtain ⟨hold, hjt⟩ := hback u j hu
      have htarget := hG.join.target u j hold
      rwa [hst j htarget.1, h1.st hjt]
    · exact hG.join.once u u' j (hback u j hu).1 (hback u' j hu').1
    rw [hst j hj'] at hjoinable
    by_cases hjt : j = t
    · subst hjt
      rw [hst1, show ({ v.s.st j with unused := true } : TaskStatus).joinable = (v.s.st j).joinable
        from rfl, hj] at hjoinable
      cases hjoinable
    · rw [h1.st hjt] at hjoinable
      rw [hL']
      exact fun hc => hG.join.init j hj' hjoinable ((hheads1 _).mp hc)
  · rw [htcb u hu, h1.tcb u hut]
  · rw [htcb t ht, hself1]
    rfl
  · rw [hpl', h1.pl u hu]
  · rw [hpl', hpl1]
  · rw [hL', h1.rest n]
  · rw [hL', hheads1 n]
  · rw [hs']
    rfl

end

/-! ## The call -/

/-- The kernel after the first half of `LOS_TaskDelete`. -/
def State.ended (k : State) (t lock : Nat) : State :=
  { k with toSched := k.toSched.exited t lock }.setTodo t []

/-- `LOS_TaskDelete` opens the lock of a running task. -/
def State.lockFor (k : State) (t : Nat) : Nat :=
  if (k.st t).running && k.losTaskLock != 0 then 0 else k.losTaskLock

/-- The second half of `LOS_TaskDelete`. -/
def State.buried (k : State) (t : Nat) : State :=
  if (k.st t).running then
    let k :=
      if !(k.st t).joinable then
        k.onSched fun s => (s.setSt t fun st => { st with unused := true }).runningTaskDelete t
      else k
    k.setTodo k.runTask [.schedule]
  else
    let p := (k.tcb t).stackToFree
    ((k.onSched (·.recycleTaskResources t)).done .ok).push [.memFree p]

/-- The tests of `LOS_TaskDelete`. -/
def State.deletes (k : State) (t : Nat) : Bool :=
  k.checkTaskIDValid t = .ok && !(k.st t).systemTask && !(k.st t).unused && !(k.st t).exit

theorem State.taskDelete_eq (k : State) (t : Nat) :
    (k.deletes t = true ∧ k.taskDelete t = (k.ended t (k.lockFor t)).buried t) ∨
      (k.deletes t = false ∧ ∃ e, k.taskDelete t = k.done e) := by
  unfold taskDelete deletes
  rcases checkTaskIDValid_cases k t with ⟨h, -, -⟩ | h | h <;> rw [h]
  · by_cases hsys : (k.st t).systemTask = true
    · rw [hsys]
      exact .inr ⟨by simp, _, rfl⟩
    rw [if_neg hsys]
    by_cases hu : (k.st t).unused = true
    · rw [hu]
      exact .inr ⟨by simp, _, rfl⟩
    rw [if_neg hu]
    by_cases he : (k.st t).exit = true
    · rw [he]
      exact .inr ⟨by simp, _, rfl⟩
    rw [if_neg he]
    refine .inl ⟨by simp [hsys, hu, he], ?_⟩
    unfold lockFor
    split_ifs with hlock
    · rfl
    · rfl
  · exact .inr ⟨by simp, _, rfl⟩
  · exact .inr ⟨by simp, _, rfl⟩

section
variable {k : State} {v v2 : View} {t lock : Nat}

/-- The kernel between the two halves. -/
theorem At.ended (hA : At k v) (hu : (v.s.st t).unused = false) (h : Exits t v v2)
    (hs : v2.s = k.toSched.exited t lock) : Core (k.ended t lock) v2 := by
  have hid : (k.ended t lock).idleTaskID = k.idleTaskID := by
    rw [show (k.ended t lock).idleTaskID = (k.toSched.exited t lock).idleTaskID from rfl, ← hs, h.idle,
      hA.eq]
  refine ⟨hs, h.good, hA.ipc.same ⟨rfl, rfl, rfl, rfl, rfl, rfl⟩ (fun n _ => (h.heads n).mp) h.wait,
    hA.todo.replace hid (fun u => ?_) fun u t' c hc hh => ?_⟩
  · by_cases hut : u = t
    · refine .inr fun c hc => ?_
      simp [hut, show (k.ended t lock).todo t = [] from setTodo_self ..] at hc
    · exact .inl (setTodo_of_ne _ hut _)
  obtain ⟨-, hu', hpl'⟩ := hA.todo.held u t' c hc hh
  have hne : t' ≠ t := fun hc' => hA.todo.not_held (.inr hu) u c hc (hc' ▸ hh)
  rw [show (v2.s.st t').unused = (v.s.st t').unused from congrArg Life.unused (h.life t' hne),
    h.unused t' hne hu']
  exact ⟨hu', hpl'⟩

/-- How `LOS_TaskDelete` leaves task `t`: its control block waits to be recycled or to be joined, or
is free again. -/
inductive Deleted (t : Nat) (k : State) (v : View) (k' : State) (v' : View) : Prop where
  | stays (run : t = k.runTask) (joinable : (v.s.st t).joinable = true) (pl : v'.pl t = none)
      (life : (v'.s.tcb t).life = { (v.s.tcb t).life with exit := true })
      (run' : k'.runTask = k.runTask) (todo : k'.todo = update k.todo t [.schedule])
  | recycled (run : t = k.runTask) (joinable : (v.s.st t).joinable = false)
      (pl : v'.pl t = some .taskRecycleList)
      (life : (v'.s.tcb t).life = { (v.s.tcb t).life with exit := true, unused := true })
      (run' : k'.runTask = taskMaxNum)
      (todo : k'.todo = update (update k.todo t []) taskMaxNum [.schedule])
  | kept (run : t ≠ k.runTask) (joinable : (v.s.st t).joinable = true) (pl : v'.pl t = none)
      (life : (v'.s.tcb t).life = { (v.s.tcb t).life with
        exit := true
        topOfStack :=
          if (v.s.tcb t).stackToFree = .null then (v.s.tcb t).topOfStack else .null
        stackFree := if (v.s.tcb t).stackToFree = .null then (v.s.st t).stackFree else false })
      (run' : k'.runTask = k.runTask)
      (todo : k'.todo = update (update k.todo t []) k.runTask
        ([.memFree (v.s.tcb t).stackToFree] ++ k.todo k.runTask))
  | freed (run : t ≠ k.runTask) (joinable : (v.s.st t).joinable = false)
      (wiped : Wiped t v')
      (run' : k'.runTask = k.runTask)
      (todo : k'.todo = update (update k.todo t []) k.runTask
        ([.memFree (v.s.tcb t).stackToFree] ++ k.todo k.runTask))

/-- The first half, then a change of the same task. -/
theorem Exits.alter {k2 k' : State} {v' : View} (h : Exits t v v2) (h' : Alter t k2 v2 k' v') :
    Alter t k v k' v' where
  inv := h'.inv
  life u hu hut := (h'.life u hu hut).trans (h.life u hut)
  unused u hut hu := by
    rw [h'.unused u hut ((congrArg Life.unused (h.life u hut)).trans hu), h.unused u hut hu]
  queued u p hut hu := h'.queued u p hut (h.queued u p hut hu)
  ahead p a r ha hr hahead := h'.ahead p a r ha hr (h.ahead p a r ha hr hahead)
  fixed := ⟨h'.fixed.1.trans h.idle, h'.fixed.2.trans h.start⟩
  wait u n hn hu := h.wait u n hn (h'.wait u n hn hu)

/-- Nothing is left to do after the first half. -/
theorem Exits.alter_self {k' : State} (h : Exits t v v2) (hinv : Inv k' v2) : Alter t k v k' v2 :=
  ⟨hinv, fun u _ => h.life u, h.unused, h.queued, h.ahead, ⟨h.idle, h.start⟩, h.wait⟩

/-- The stack to free is the one the task had. -/
theorem Exits.stackToFree (h : Exits t v v2) : (v2.s.tcb t).stackToFree = (v.s.tcb t).stackToFree := by
  unfold LosTaskCB.stackToFree
  rw [show (v2.s.tcb t).taskStatus.stackFree = (v.s.tcb t).taskStatus.stackFree from
    congrArg Life.stackFree h.self, show (v2.s.tcb t).topOfStack = (v.s.tcb t).topOfStack from
    congrArg Life.topOfStack h.self]

section
variable {k2 : State}

section
variable (h : Exits t v v2) (hC : Core k2 v2) (hrun : t = k2.runTask) (ht : t < taskMaxNum)
  (hlock : k2.losTaskLock = 0)
include h hC hrun ht hlock

/-- A running task that will be joined. -/
theorem Exits.stays : Inv (k2.setTodo t [.schedule]) v2 := by
  have he : (v2.s.st t).exit = true := congrArg Life.exit h.self
  refine ⟨⟨hC.eq, hC.good, hC.ipc.same ⟨rfl, rfl, rfl, rfl, rfl, rfl⟩ (fun _ _ => id) fun _ _ _ => id,
    hC.todo.replace rfl (fun u => ?_) fun u t' c hc hh => (hC.todo.held u t' c hc hh).2⟩,
    fun _ _ => ⟨hlock, ?_⟩⟩
  · by_cases hut : u = t
    · refine .inr fun c hc => ?_
      rw [hut, setTodo_self] at hc
      rw [mem_singleton.mp hc]
      refine ⟨trivial, rfl, fun hi => ?_⟩
      have := ((v2.placed.task t ht).idleX (hC.eq ▸ hut.symm.trans hi)).2.1
      unfold st at he
      simp [this] at he
    · exact .inl (setTodo_of_ne _ hut _)
  · rw [show (k2.setTodo t [.schedule]).runTask = t from hrun.symm, setTodo_self]
    rfl

/-- A running task that nobody joins. -/
theorem Exits.recycles (hj : (v2.s.st t).joinable = false) :
    ∃ v', Alter t k2 v2 ((k2.onSched fun s =>
        (s.setSt t fun st => { st with unused := true }).runningTaskDelete t).setTodo taskMaxNum
          [.schedule]) v' ∧ v'.pl t = some .taskRecycleList ∧
      (v'.s.tcb t).life = { (v2.s.tcb t).life with unused := true } := by
  have he : (v2.s.st t).exit = true := congrArg Life.exit h.self
  have hrun2 : v2.s.runTask = t := by rw [hC.eq]; exact hrun.symm
  have hstart : v2.s.taskScheduled = true := by
    rw [hC.eq]
    exact hC.started (hrun ▸ ht)
  subst hrun2
  obtain ⟨v', hs', hG', htcb, hself, hpl, hpl', hrest, hheads, hrun'⟩ :=
    v2.leaves h.good hstart ht he hj h.pl h.join
  have hidle' : v'.s.idleTaskID = v2.s.idleTaskID := by rw [hs']; rfl
  have hlt : ∀ u c t', c ∈ k2.todo u → c.holds = some t' → t' < taskMaxNum := by
    intro u c t' hc hh
    have hw := hC.todo.wellFormed u c hc
    cases c with
    | newTaskInit t'' p e =>
      cases hh
      exact hw.1
    | _ => cases hh
  have hwait : ∀ u n, n.isWait = true → v'.pl u = some n → v2.pl u = some n := by
    intro u n hn hu
    by_cases hut : u = v2.s.runTask
    · rw [hut, hpl', some.injEq] at hu
      rw [← hu] at hn
      cases hn
    · rwa [hpl u hut] at hu
  refine ⟨v', ⟨⟨⟨by rw [hs', hC.eq]; rfl, hG', ?_, ?_⟩, fun _ _ => ⟨?_, ?_⟩⟩, fun u hu hut => ?_,
    fun u hut _ => hpl u hut, fun u p hut hu => by rw [hpl u hut, hu],
    fun p a r ha hr hahead => hahead.of_rest hrest ha hr, ⟨hidle', by rw [hs']; rfl⟩, hwait⟩, hpl', hself⟩
  · exact hC.ipc.same ⟨rfl, rfl, rfl, rfl, rfl, rfl⟩ (fun n _ => (hheads n).mp) hwait
  · refine hC.todo.replace rfl (fun u => ?_) fun u t' c hc hh => ?_
    · by_cases hut : u = taskMaxNum
      · refine .inr fun c hc => ?_
        rw [hut] at hc
        rw [mem_singleton.mp hc]
        refine ⟨trivial, rfl, fun hi => ?_⟩
        have := hC.good.run.idle
        rw [hC.eq, ← hi, hut] at this
        exact absurd this (Nat.lt_irrefl _)
      · exact .inl (setTodo_of_ne _ hut _)
    obtain ⟨-, hu, hp⟩ := hC.todo.held u t' c hc hh
    have hne : t' ≠ v2.s.runTask := by
      rintro rfl
      have := (h.good.run.onCpu hstart ht).2
      simp [this] at hu
    rw [show v'.s.st t' = v2.s.st t' from
      congrArg LosTaskCB.taskStatus (htcb t' (hlt u c t' hc hh) hne), hpl t' hne]
    exact ⟨hu, hp⟩
  · exact hlock
  · exact congrArg head? (setTodo_self _ taskMaxNum [.schedule])
  · rw [htcb u hu hut]

end

/-- The control block of a task that is still to be joined, its stack handed out to be freed. -/
def LosTaskCB.stripped (c : LosTaskCB) : LosTaskCB :=
  if c.stackToFree ≠ .null then
    { c with topOfStack := .null, taskStatus := { c.taskStatus with stackFree := false } }
  else c

theorem Sched.recycleTaskResources_joinable (s : Sched) (t : Nat) (hj : (s.st t).joinable = true) :
    s.recycleTaskResources t = s.setTCB t LosTaskCB.stripped := by
  have hj' : (s.tcb t).taskStatus.joinable = true := hj
  unfold recycleTaskResources
  split_ifs with hp
  · rw [if_neg]
    · unfold setTCB LosTaskCB.stripped
      rw [if_pos hp]
    · unfold st
      simp [hj']
  · rw [if_neg (by simp [hj])]
    unfold setTCB LosTaskCB.stripped
    rw [if_neg hp, update_eq_self]

theorem Sched.recycleTaskResources_ctl (s : Sched) (t : Nat) :
    (s.recycleTaskResources t).ctl = s.ctl := by
  unfold recycleTaskResources
  dsimp only
  split_ifs <;> rfl

/-- The running task goes on with the stack that `OsRecycleTaskResources` left to be freed. -/
theorem State.recycle_todo (k : State) (t : Nat) (p : StackPtr) :
    (((k.onSched (·.recycleTaskResources t)).done .ok).push [.memFree p]).todo =
      update k.todo k.runTask ([.memFree p] ++ k.todo k.runTask) := by
  have hrun : (k.toSched.recycleTaskResources t).runTask = k.runTask :=
    congrArg Ctl.runTask (k.toSched.recycleTaskResources_ctl t)
  unfold push done onSched
  rw [hrun]

theorem LosTaskCB.stripped_life (c : LosTaskCB) :
    c.stripped.life = { c.life with
      topOfStack := if c.stackToFree = .null then c.topOfStack else .null
      stackFree := if c.stackToFree = .null then c.taskStatus.stackFree else false } := by
  unfold LosTaskCB.stripped
  by_cases hp : c.stackToFree = .null
  · simp [hp, LosTaskCB.life]
  · simp [hp, LosTaskCB.life]

theorem TaskOk.stripped {idle : Nat} {c : LosTaskCB} {pl : Option Node} {sl cpu : Bool}
    (h : TaskOk idle t c pl sl cpu) (hf : pl ≠ some .losFreeTask) :
    TaskOk idle t c.stripped pl sl cpu := by
  have hbits : TaskOk idle t { c with taskStatus := { c.taskStatus with stackFree := false } } pl sl cpu :=
    h.bits hf rfl rfl rfl rfl rfl rfl id .inl
  unfold LosTaskCB.stripped
  split_ifs
  · exact hbits.congr rfl rfl rfl rfl
  · exact h

/-- A task that is not running and will be joined. -/
theorem Exits.keeps (h : Exits t v v2) (hA : At k2 v2) (ht : t < taskMaxNum) (hrun : t ≠ k2.runTask)
    (hu : (v2.s.st t).unused = false) (hj : (v2.s.st t).joinable = true) :
    ∃ v', Alter t k2 v2 (((k2.onSched (·.recycleTaskResources t)).done .ok).push
        [.memFree (k2.tcb t).stackToFree]) v' ∧ v'.pl t = none ∧
      (v'.s.tcb t).life = (v2.s.tcb t).stripped.life := by
  have hT := v2.placed.task t ht
  obtain ⟨v', hs', hchange, hpl', hsl', hlife, hheads⟩ := v2.change_of_moved
    (v2.placed.setTCB LosTaskCB.stripped fun _ => by
      refine hT.stripped ?_
      rw [h.pl]
      exact some_ne_none _ |>.symm)
  have hself := LosTaskCB.stripped_life (v2.s.tcb t)
  have hrunning : (v'.s.st t).running = (v2.s.st t).running := by
    have := congrArg Life.running hlife
    rwa [hself] at this
  have hunused : (v'.s.st t).unused = (v2.s.st t).unused := by
    have := congrArg Life.unused hlife
    rwa [hself] at this
  have hexit : (v'.s.st t).exit = true := by
    have := congrArg Life.exit hlife
    rw [hself] at this
    exact this.trans (congrArg Life.exit h.self)
  have hno := (v'.placed.task t ht).of_exit hexit
  have hpl : v'.pl t = none := hpl'.trans h.pl
  refine ⟨v', hA.alter hchange ⟨?_, ?_⟩ ?_ ⟨rfl, rfl, rfl, rfl, rfl, rfl⟩ (fun n _ hn => hpl' ▸ hn) ?_
    (hA.still_goes hchange hrun), hpl, hlife⟩
  · refine hchange.runOk hA.good.run ht (.inr ⟨hrunning, hunused⟩) (fun hc => ?_) fun hc => ?_
    · cases hc.symm.trans hno.2.1
    · cases hc.symm.trans hno.2.2.1
  · refine hchange.joinOk hA.good.join (fun j hj' => hpl' ▸ hj') (.inl h.join) fun _ hL => ?_
    exact hA.good.join.init t ht hj ((hheads _).mp hL)
  · rw [hs', ← recycleTaskResources_joinable _ _ hj, hA.eq]
    rfl
  refine hA.todo.push hA.clean (fun c hc => ?_) (.inl hA.busy) (k2.recycle_todo t _)
    (congrArg Ctl.idleTaskID (k2.toSched.recycleTaskResources_ctl t)) fun u t' c hc hh =>
    (hA.todo.held_change hchange (hA.todo.not_held (.inr hu)) u t' c hc hh).2
  rw [mem_singleton.mp hc]
  exact ⟨trivial, rfl⟩

end

/-- The kernel between the two halves, when another task is running. -/
theorem At.ended_other (hA : At k v) (hrun : t ≠ k.runTask) (h : Exits t v v2)
    (hs : v2.s = k.toSched.exited t lock) (hC : Core (k.ended t lock) v2) :
    At (k.ended t lock) v2 := by
  have hrun2 : (k.ended t lock).runTask = k.runTask := by
    rw [show (k.ended t lock).runTask = v2.s.runTask by rw [hs]; rfl, h.run, hA.eq]
  have hidle2 : (k.ended t lock).idleTaskID = k.idleTaskID := by
    rw [show (k.ended t lock).idleTaskID = v2.s.idleTaskID by rw [hs]; rfl, h.idle, hA.eq]
  have hstart2 : (k.ended t lock).taskScheduled = k.taskScheduled := by
    rw [show (k.ended t lock).taskScheduled = v2.s.taskScheduled by rw [hs]; rfl, h.start, hA.eq]
  refine ⟨⟨hC, fun hstart => ?_, fun c hc => ?_⟩, ?_⟩
  · rw [hrun2, show (k.ended t lock).st k.runTask = v2.s.st k.runTask by rw [hs]; rfl]
    refine h.stop k.runTask hrun.symm ?_
    rw [hA.eq]
    exact hA.goes (hstart2.symm.trans hstart)
  · rw [hrun2, show (k.ended t lock).todo k.runTask = k.todo k.runTask from
      setTodo_of_ne _ hrun.symm _] at hc
    exact hA.clean c hc
  · rw [hrun2, hidle2]
    exact hA.busy

theorem At.ended_same (hA : At k v) (h : Exits t v v2) (hC : Core (k.ended t lock) v2) :
    (k.ended t lock).runTask = k.runTask ∧ (k.ended t lock).st t = v2.s.st t ∧
      (v2.s.st t).running = (v.s.st t).running ∧ (v2.s.st t).joinable = (v.s.st t).joinable := by
  refine ⟨?_, by rw [hC.eq], congrArg Life.running h.self, congrArg Life.joinable h.self⟩
  rw [show (k.ended t lock).runTask = v2.s.runTask by rw [hC.eq], h.run, hA.eq]

/-- `LOS_TaskDelete` by the task itself. -/
theorem At.deletesSelf (hA : At k v) (ht : t < taskMaxNum) (hrun : t = k.runTask)
    (hr : (v.s.st t).running = true) (h : Exits t v v2) (hC : Core (k.ended t (k.lockFor t)) v2)
    (hlock2 : v2.s.losTaskLock = k.lockFor t) :
    ∃ v', Alter t k v ((k.ended t (k.lockFor t)).buried t) v' ∧
      Deleted t k v ((k.ended t (k.lockFor t)).buried t) v' := by
  obtain ⟨hrun2, hst2, hrunning, hjoinable⟩ := hA.ended_same h hC
  have hlock : (k.ended t (k.lockFor t)).losTaskLock = 0 := by
    rw [show (k.ended t (k.lockFor t)).losTaskLock = v2.s.losTaskLock by rw [hC.eq], hlock2]
    unfold lockFor
    rw [hA.eq] at hr
    rw [hr]
    by_cases hz : k.losTaskLock = 0 <;> simp [hz]
  unfold buried
  rw [hst2, hrunning, hjoinable, if_pos hr]
  cases hj : (v.s.st t).joinable with
  | true =>
    change ∃ v', Alter t k v ((k.ended t (k.lockFor t)).setTodo (k.ended t (k.lockFor t)).runTask
      [.schedule]) v' ∧ Deleted t k v ((k.ended t (k.lockFor t)).setTodo
        (k.ended t (k.lockFor t)).runTask [.schedule]) v'
    have hinv := h.stays hC (hrun.trans hrun2.symm) ht hlock
    rw [hrun2, ← hrun]
    refine ⟨v2, h.alter_self hinv, .stays hrun hj h.pl h.self hrun2 ?_⟩
    exact update_idem ..
  | false =>
    obtain ⟨v', halter, hpl', hlife⟩ :=
      h.recycles hC (hrun.trans hrun2.symm) ht hlock (hjoinable.trans hj)
    refine ⟨v', h.alter halter, .recycled hrun hj hpl' ?_ rfl rfl⟩
    rw [hlife, h.self]

/-- `LOS_TaskDelete` of another task. -/
theorem At.deletesOther (hA : At k v) (ht : t < taskMaxNum) (hrun : t ≠ k.runTask)
    (hidle : t ≠ k.idleTaskID) (hr : (v.s.st t).running = false) (hu : (v.s.st t).unused = false)
    (h : Exits t v v2) (hs : v2.s = k.toSched.exited t (k.lockFor t))
    (hC : Core (k.ended t (k.lockFor t)) v2) :
    ∃ v', Alter t k v ((k.ended t (k.lockFor t)).buried t) v' ∧
      Deleted t k v ((k.ended t (k.lockFor t)).buried t) v' := by
  have hA2 := hA.ended_other hrun h hs hC
  obtain ⟨hrun2, hst2, hrunning, hjoinable⟩ := hA.ended_same h hC
  have hu2 : (v2.s.st t).unused = false := (congrArg Life.unused h.self).trans hu
  have hp2 : ((k.ended t (k.lockFor t)).tcb t).stackToFree = (v.s.tcb t).stackToFree := by
    rw [← h.stackToFree, hC.eq]
  have htodo : ∀ p, (((((k.ended t (k.lockFor t)).onSched (·.recycleTaskResources t)).done .ok).push
      [.memFree p])).todo = update (update k.todo t []) k.runTask
        ([.memFree p] ++ k.todo k.runTask) := by
    intro p
    rw [recycle_todo, hrun2, show (k.ended t (k.lockFor t)).todo k.runTask = k.todo k.runTask from
      setTodo_of_ne _ hrun.symm _]
    rfl
  have hrun' : ∀ p, (((((k.ended t (k.lockFor t)).onSched (·.recycleTaskResources t)).done .ok).push
      [.memFree p])).runTask = k.runTask := fun p =>
    (congrArg Ctl.runTask ((k.ended t (k.lockFor t)).toSched.recycleTaskResources_ctl t)).trans hrun2
  unfold buried
  rw [hst2, hp2, hrunning, if_neg (hr ▸ Bool.false_ne_true)]
  cases hj : (v.s.st t).joinable with
  | true =>
    obtain ⟨v', halter, hpl', hlife⟩ :=
      h.keeps hA2 ht (by rwa [hrun2]) hu2 (hjoinable.trans hj)
    rw [hp2] at halter
    refine ⟨v', h.alter halter, .kept hrun hj hpl' ?_ (hrun' _) (htodo _)⟩
    rw [hlife, LosTaskCB.stripped_life, h.stackToFree, h.self,
      show (v2.s.tcb t).topOfStack = (v.s.tcb t).topOfStack from congrArg Life.topOfStack h.self,
      show (v2.s.tcb t).taskStatus.stackFree = (v.s.tcb t).taskStatus.stackFree from
        congrArg Life.stackFree h.self]
    rfl
  | false =>
    have hrec := recycleTaskResources_eq v2.s t (hjoinable.trans hj)
    have hs' : ((((k.ended t (k.lockFor t)).onSched (·.recycleTaskResources t)).done .ok).push
        [.memFree (v.s.tcb t).stackToFree]).toSched = v2.s.insertTCBToFreeList t := by
      rw [← hrec, hC.eq]
      rfl
    have hidle2 : t ≠ (k.ended t (k.lockFor t)).idleTaskID := by
      rwa [show (k.ended t (k.lockFor t)).idleTaskID = v2.s.idleTaskID by rw [hC.eq], h.idle, hA.eq]
    obtain ⟨v', halter, hw⟩ := hA2.wipe (Change.refl t v2) ht h.pl h.sl (.inr hu2) hidle2
      (by rwa [hrun2]) h.join hs' ⟨rfl, rfl, rfl, rfl, rfl, rfl⟩
      (fun c hc => by rw [mem_singleton.mp hc]; exact ⟨trivial, rfl⟩) (.inl hA2.busy)
      (recycle_todo _ t _)
    exact ⟨v', h.alter halter, .freed hrun hj hw (hrun' _) (htodo _)⟩

/-- `LOS_TaskDelete`. -/
theorem At.taskDelete (hA : At k v) (t : Nat) :
    (k.deletes t = false ∧ Effect nobody k v (k.taskDelete t) v) ∨ (k.deletes t = true ∧
        ∃ v', Alter t k v (k.taskDelete t) v' ∧ Deleted t k v (k.taskDelete t) v') := by
  rcases k.taskDelete_eq t with ⟨hd, hk⟩ | ⟨hd, e, hk⟩
  · refine .inr ⟨hd, ?_⟩
    rw [hk]
    unfold deletes at hd
    simp only [Bool.and_eq_true, decide_eq_true_eq, Bool.not_eq_true'] at hd
    obtain ⟨⟨⟨hok, -⟩, hu⟩, -⟩ := hd
    have hvalid := checkTaskIDValid_cases k t
    rw [hok] at hvalid
    obtain ⟨-, hidle, ht⟩ := hvalid.resolve_right (by rintro (h | h) <;> cases h)
    have heq := hA.eq
    have hu' : (v.s.st t).unused = false := by rwa [heq]
    obtain ⟨v2, hs2, hlock2, hexit⟩ := v.exited hA.good ht hu' (by rwa [heq]) (k.lockFor t)
    rw [heq] at hs2
    have hC := hA.ended hu' hexit hs2
    cases hr : (v.s.st t).running with
    | true =>
      have hrun : t = k.runTask := by
        rw [← show v.s.runTask = k.runTask from congrArg runTask heq]
        refine (hA.good.run.running t ht hr).resolve_right ?_
        rw [hu']
        exact Bool.false_ne_true
      exact hA.deletesSelf ht hrun hr hexit hC hlock2
    | false =>
      have hrun : t ≠ k.runTask := by
        rintro rfl
        simp [heq, (hA.run (hA.started ht)).2] at hr
      exact hA.deletesOther ht hrun hidle hr hu' hexit hs2 hC
  · rw [hk]
    exact .inl ⟨hd, hA.done e⟩

end

end LiteosM.Kernel
