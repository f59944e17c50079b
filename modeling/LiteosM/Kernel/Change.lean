import LiteosM.Kernel.Objects

/-!
# What a task is changes

A control block is taken from the free list, filled, given back, its task detached or ended: each is
a change of one task (`Change`), under which the others keep their control blocks, their lists and
their order.

* `Change.runOk`, `Change.joinOk`, `Change.ahead`: what a change leaves of the order of the kernel;
* `View.pop`, `View.wipe`, `View.fill`, `View.detach`, `View.toRecycle`, `View.toGhost`: the changes, in the
  order in which a task meets them;
* `View.taskJoinPost`: the end of a task wakes the one that waits for it.

What calls do these changes, and in which state, is the matter of `Kernel.Lifetime` and `Kernel.Deletion`.
-/

namespace LiteosM.Kernel

open LiteosM.Lib Function Option Bool Sched

/-- Only task `t` has changed, and its join list. -/
structure Change (t : Nat) (v v' : View) : Prop where
  tcb : ∀ u, u ≠ t → v'.s.tcb u = v.s.tcb u
  pl : ∀ u, u ≠ t → v'.pl u = v.pl u
  rest : ∀ n, (v'.L.at n).filter (Node.notOf t) = (v.L.at n).filter (Node.notOf t)
  heads : ∀ n, n ≠ .joinList t → (v'.L n = none ↔ v.L n = none)
  ctl : v'.s.ctl = v.s.ctl

namespace Change

variable {t : Nat} {v v' : View}

section
variable (h : Change t v v')
include h

theorem st {u : Nat} (hu : u ≠ t) : v'.s.st u = v.s.st u := by
  unfold Sched.st
  rw [h.tcb u hu]

theorem runTask : v'.s.runTask = v.s.runTask := congrArg Ctl.runTask h.ctl

theorem idleTaskID : v'.s.idleTaskID = v.s.idleTaskID :=
  congrArg Ctl.idleTaskID h.ctl

theorem taskScheduled : v'.s.taskScheduled = v.s.taskScheduled :=
  congrArg Ctl.taskScheduled h.ctl

theorem runOk (hR : RunOk v.s) (ht : t < taskMaxNum)
    (hrun : ((v'.s.st t).running = false ∧ t ≠ v.s.runTask) ∨
      ((v'.s.st t).running = (v.s.st t).running ∧ (v'.s.st t).unused = (v.s.st t).unused))
    (hp : (v'.s.st t).pend = true → (v.s.st t).pend = true)
    (hd : (v'.s.st t).delay = true → (v.s.st t).delay = true) : RunOk v'.s := by
  constructor
  · rw [h.idleTaskID]
    exact hR.idle
  · rw [h.runTask]
    exact hR.le
  · rw [h.taskScheduled, h.runTask]
    by_cases hc : v.s.runTask = t
    · rcases hrun with ⟨-, hne⟩ | ⟨h1, h2⟩
      · exact absurd hc.symm hne
      · rw [hc, h1, h2, ← hc]
        exact hR.onCpu
    · rw [h.st hc]
      exact hR.onCpu
  · intro u hu hur
    rw [h.runTask]
    by_cases hc : u = t
    · subst hc
      rcases hrun with ⟨hno, -⟩ | ⟨h1, h2⟩
      · simp [hno] at hur
      · rw [h2]
        exact hR.running u hu (h1 ▸ hur)
    · rw [h.st hc] at hur ⊢
      exact hR.running u hu hur
  · rw [h.taskScheduled, h.runTask]
    intro hstart
    obtain ⟨hmain, hall⟩ := hR.before hstart
    refine ⟨hmain, fun u hu => ?_⟩
    by_cases hc : u = t
    · subst hc
      obtain ⟨hr', hp', hd'⟩ := hall u hu
      refine ⟨?_, ?_, ?_⟩
      · rcases hrun with ⟨hno, -⟩ | ⟨h1, -⟩
        · exact hno
        · rw [h1, hr']
      · rw [eq_false_iff]
        intro hc
        simp [hp hc] at hp'
      · rw [eq_false_iff]
        intro hc
        simp [hd hc] at hd'
    · rw [h.st hc]
      exact hall u hu
  · rw [h.st (Nat.ne_of_gt ht)]
    exact hR.ghost
  · exact fault_ne_of_ctl (congrArg Ctl.asserted h.ctl) hR.sound

theorem joinOk (hJ : JoinOk v)
    (hpl : ∀ j, v'.pl t = some (.joinList j) → v.pl t = some (.joinList j))
    (htarget : (∀ u, v.pl u ≠ some (.joinList t)) ∨
      ((v'.s.st t).joinable = (v.s.st t).joinable ∧ (v'.s.st t).exit = (v.s.st t).exit ∧
        (v'.s.st t).unused = (v.s.st t).unused))
    (hinit : (v'.s.st t).joinable = true → v'.L (.joinList t) ≠ none) : JoinOk v' := by
  have hback : ∀ u j, v'.pl u = some (.joinList j) → v.pl u = some (.joinList j) := by
    intro u j hu
    by_cases hc : u = t
    · subst hc
      exact hpl j hu
    · rwa [← h.pl u hc]
  constructor
  · intro u j hu
    have hold := hJ.target u j (hback u j hu)
    by_cases hc : j = t
    · subst hc
      rcases htarget with hno | ⟨h1, h2, h3⟩
      · exact absurd (hback u j hu) (hno u)
      · rwa [h1, h2, h3]
    · rwa [h.st hc]
  · intro u u' j hu hu'
    exact hJ.once u u' j (hback u j hu) (hback u' j hu')
  intro j hj hjoin
  by_cases hc : j = t
  · subst hc
    exact hinit hjoin
  · rw [h.st hc] at hjoin
    exact fun hL => hJ.init j hj hjoin ((h.heads _ (by simpa using hc)).mp hL)

/-- The tasks other than `t` keep their place and order in the ready queues. -/
theorem ahead {p a r : Nat} (ha : a ≠ t) (hr : r ≠ t)
    (hahead : Ahead v.L p a r) : Ahead v'.L p a r :=
  hahead.of_rest h.rest ha hr

theorem trans {v'' : View} (h' : Change t v' v'') : Change t v v'' where
  tcb u hu := (h'.tcb u hu).trans (h.tcb u hu)
  pl u hu := (h'.pl u hu).trans (h.pl u hu)
  rest n := (h'.rest n).trans (h.rest n)
  heads n hn := (h'.heads n hn).trans (h.heads n hn)
  ctl := h'.ctl.trans h.ctl

end

end Change

/-! ## One control block -/

namespace TaskOk

variable {idle t : Nat} {c : LosTaskCB} {pl : Option Node} {sl cpu : Bool}

/-- A control block that is no task is taken out of its list. -/
theorem unlist (h : TaskOk idle t c pl sl cpu) (hu : c.taskStatus.unused = true) :
    TaskOk idle t c none sl cpu := by
  have hr : c.taskStatus.ready = false := by
    rw [eq_false_iff]
    intro hc
    simp [(h.readyX hc).2.2.2.1] at hu
  have hp : c.taskStatus.pend = false := by
    rw [eq_false_iff]
    intro hc
    simp [(h.pendX hc).2.2] at hu
  exact
    { h with
      ready := fun hc => by simp [hr] at hc
      queued := fun _ hc => by cases hc
      pend := by simp [hp]
      free := fun hc => by cases hc
      recycled := fun hc => by cases hc
      listed := fun _ hc => by cases hc
      idleX := h.idleX }

/-- `OsInsertTCBToFreeList`: the control block as `memset_s` leaves it, but for its ID. -/
theorem wiped (ht : t ≠ idle) (cpu : Bool) :
    TaskOk idle t { LosTaskCB.zero with taskID := t, taskStatus := .onlyUnused } (some .losFreeTask)
      false cpu where
  taskID := rfl
  prio := (by decide : (0 : Nat) < 32)
  ready hc := by cases hc
  queued _ hc := by cases hc
  pend := by
    refine iff_of_false false_ne_true ?_
    rintro ⟨n, hn, hw⟩
    cases hn
    cases hw
  free _ := rfl
  recycled hc := by cases hc
  listed n hn := by
    cases hn
    exact ⟨rfl, Node.noConfusion⟩
  sort := by simp [TaskStatus.onlyUnused, TaskStatus.zero]
  time hc := by cases hc
  readyX hc := by cases hc
  timed hc := by cases hc
  pendX hc := by cases hc
  delayX hc := by cases hc
  idleX hc := absurd hc ht

/-- `OsNewTaskInit`: a control block in no list becomes a suspended task. -/
theorem fresh (ht : t ≠ idle) (hid : c.taskID = t) (hprio : c.priority < priorityQueueNum)
    (hr : c.taskStatus.ready = false) (hp : c.taskStatus.pend = false)
    (hd : c.taskStatus.delay = false) (hpt : c.taskStatus.pendTime = false)
    (htime : c.responseTime = invalidTime) (cpu : Bool) : TaskOk idle t c none false cpu where
  taskID := hid
  prio := hprio
  ready hc := by
    simp [hr] at hc
  queued _ hc := by cases hc
  pend := by simp [hp]
  free hc := by cases hc
  recycled hc := by cases hc
  listed _ hc := by cases hc
  sort := by simp [hd, hpt]
  time _ := by simp [htime]
  readyX hc := by
    simp [hr] at hc
  timed hc := by
    simp [hpt] at hc
  pendX hc := by
    simp [hp] at hc
  delayX hc := by
    simp [hd] at hc
  idleX hc := absurd hc ht

/-- A task that has ended is neither ready nor waiting. -/
theorem of_exit (h : TaskOk idle t c pl sl cpu) (he : c.taskStatus.exit = true) :
    c.taskStatus.ready = false ∧ c.taskStatus.pend = false ∧ c.taskStatus.delay = false ∧
      c.taskStatus.pendTime = false := by
  have hp : c.taskStatus.pend = false := by
    rw [eq_false_iff]
    intro hc
    simp [(h.pendX hc).2.1] at he
  refine ⟨?_, hp, ?_, h.not_pendTime hp⟩ <;> rw [eq_false_iff]
  · intro hc
    simp [(h.readyX hc).2.2.1] at he
  · intro hc
    simp [(h.delayX hc).1] at he

/-- `OsRunningTaskDelete`: a task that has ended waits for its control block to be recycled. -/
theorem recycle (h : TaskOk idle t c none sl cpu) (he : c.taskStatus.exit = true)
    (hj : c.taskStatus.joinable = false) :
    TaskOk idle t { c with taskStatus := { c.taskStatus with unused := true } }
      (some .taskRecycleList) sl cpu := by
  obtain ⟨hr, hp, hd, hpt⟩ := h.of_exit he
  exact
    { h with
      ready := fun hc => by cases hr.symm.trans hc
      queued := fun _ hc => by cases hc
      pend := by
        refine iff_of_false (by simp [hp]) ?_
        rintro ⟨n, hn, hw⟩
        cases hn
        cases hw
      free := fun hc => by cases hc
      recycled := fun _ => ⟨rfl, he, hj⟩
      listed := fun n hn => by
        cases hn
        exact ⟨rfl, Node.noConfusion⟩
      time := fun hc => by cases hc
      readyX := fun hc => by cases hr.symm.trans hc
      pendX := fun hc => by cases hp.symm.trans hc
      delayX := fun hc => by cases hd.symm.trans hc
      idleX := fun hc => by
        rw [(h.idleX hc).2.1] at he
        cases he }

end TaskOk

/-- Control block `t` is in the free list, as `memset_s` left it. -/
structure Wiped (t : Nat) (v : View) : Prop where
  pl : v.pl t = some .losFreeTask
  tcb : v.s.tcb t = { LosTaskCB.zero with taskID := t, taskStatus := .onlyUnused }

namespace View

variable (v : View) {t : Nat}

/-- The parts of a change. -/
theorem change (s' : Sched) (L' : NodeLists Node) {x : Option Node}
    (hshape : Shape s'.heap L' (update v.pl t x) v.sl) (hbits : BitsOk s'.queueBitmap L')
    (htcb : ∀ u, u ≠ t → s'.tcb u = v.s.tcb u) (hctl : s'.ctl = v.s.ctl) (hT : t < taskMaxNum →
      TaskOk v.s.idleTaskID t (s'.tcb t) x (v.sl t) (decide (some v.s.runTask = some t)))
    (hrest : ∀ n, (L'.at n).filter (Node.notOf t) = (v.L.at n).filter (Node.notOf t))
    (hheads : ∀ n, n ≠ .joinList t → (L' n = none ↔ v.L n = none)) :
    ∃ v', v'.s = s' ∧ Change t v v' ∧ v'.pl t = x ∧ v'.L = L' := by
  have hP : Placed s' L' (update v.pl t x) v.sl (some s'.runTask) := by
    rw [show s'.runTask = v.s.runTask from congrArg Ctl.runTask hctl]
    refine v.placed.set hshape hbits (congrArg Ctl.idleTaskID hctl) htcb
      (fun u hu => update_of_ne hu _ _) (fun _ _ => rfl) (fun _ _ => Iff.rfl) fun ht => ?_
    rw [update_self]
    exact hT ht
  exact ⟨⟨s', L', _, v.sl, hP⟩, rfl, ⟨htcb, fun u hu => update_of_ne hu _ _, hrest, hheads,
    hctl⟩, update_self .., rfl⟩

/-- A move is a change. -/
theorem change_of_moved {s' : Sched} {x : Option Node} {y : Bool} {w : Life}
    (h : Moved t v.s s' v.L v.pl v.sl x y w (some v.s.runTask)) :
    ∃ v', v'.s = s' ∧ Change t v v' ∧ v'.pl t = x ∧ v'.sl t = y ∧ (v'.s.tcb t).life = w ∧
      ∀ n, v'.L n = none ↔ v.L n = none := by
  obtain ⟨L', hup, hP, htcb, hlife, hctl⟩ := h
  rw [← show s'.runTask = v.s.runTask from congrArg Ctl.runTask hctl] at hP
  exact ⟨⟨s', L', _, _, hP⟩, rfl, ⟨htcb, fun u hu => update_of_ne hu _ _, hup.rest,
    fun n _ => hup.heads n, hctl⟩, update_self .., update_self .., hlife, hup.heads⟩

/-- `LOS_ListDelete` of a control block in the free or the recycle list. -/
theorem pop {n : Node} (hpl : v.pl t = some n) (hn : ∀ p, n ≠ .priQueue p)
    (hu : (v.s.st t).unused = true) : ∃ v', v'.s = v.s.pop t ∧ Change t v v' ∧ v'.pl t = none ∧
      v'.L = update v.L n (some ((v.L.at n).erase (.pendList t))) := by
  have hup := v.placed.shape.upto_unlink hpl
  exact v.change _ _ (v.placed.shape.unlink hpl) (v.placed.bits.update_other hn _) (fun _ _ => rfl) rfl
    (fun ht => (v.placed.task t ht).unlist hu) hup.rest fun n _ => hup.heads n

/-- `OsInsertTCBToFreeList` of a control block in no list, for whose end no task waits. -/
theorem wipe (ht : t < taskMaxNum) (hpl : v.pl t = none) (hsl : v.sl t = false)
    (hjoin : v.L.at (.joinList t) = []) (hidle : t ≠ v.s.idleTaskID) :
    ∃ v', v'.s = v.s.insertTCBToFreeList t ∧ Change t v v' ∧ Wiped t v' := by
  have hS := v.placed.shape
  have hS1 := hS.clear_free (hS.pendList_free hpl)
  have hS2 := hS1.clear_free (hS1.sortList_free hsl)
  have hS3 := hS2.rehead rfl rfl hjoin rfl
    (hS2.rings.clear hjoin (hS2.head_not_mem rfl))
  have hfree : update v.L (.joinList t) none .losFreeTask = some (v.L.at .losFreeTask) := by
    exact NodeLists.some_of_ne_none (hS.head _ rfl)
  have hself : (v.s.insertTCBToFreeList t).tcb t =
      { LosTaskCB.zero with taskID := t, taskStatus := .onlyUnused } := by
    unfold insertTCBToFreeList
    rw [setTCB_self, setHeap_tcb, (v.placed.task t ht).taskID]
  have hlists := Shape.at_rehead (x := none) hjoin rfl
  have hother : ∀ u, u ≠ t → (v.s.insertTCBToFreeList t).tcb u = v.s.tcb u := fun u hu => by
    unfold insertTCBToFreeList
    rw [setTCB_of_ne hu, setHeap_tcb]
  have hmade := v.change (v.s.insertTCBToFreeList t) _ (hS3.linkHead hfree ht hpl) ?_ hother rfl
    (fun _ => ?_) (fun n => ?_) fun n hn => ?_
  · obtain ⟨v', hs', hchange, hpl', -⟩ := hmade
    exact ⟨v', hs', hchange, hpl', by rw [hs', hself]⟩
  · refine BitsOk.update_other (fun p hp => ?_) (fun _ => Node.noConfusion) _
    exact v.placed.bits p hp
  · rw [hself, hsl]
    exact TaskOk.wiped hidle _
  · rw [(Shape.upto_linkHead hfree).rest n, hlists]
  · rw [(Shape.upto_linkHead hfree).heads n, update_of_ne hn]

/-- `OsNewTaskInit`: a control block in no list is filled, and its join list made empty. -/
theorem fill (hpl : v.pl t = none) (hsl : v.sl t = false) (hjoin : v.L.at (.joinList t) = [])
    (f : LosTaskCB → LosTaskCB)
    (hf : TaskOk v.s.idleTaskID t (f (v.s.tcb t)) none false (decide (some v.s.runTask = some t)))
    (b : Bool) :
    ∃ v', v'.s = (v.s.setTCB t f).setHeap (if b then v.s.heap.init (.joinList t) else v.s.heap) ∧
      Change t v v' ∧ v'.pl t = none ∧ (b = true → v'.L (.joinList t) ≠ none) := by
  have hS := v.placed.shape
  have hself : update v.pl t none = v.pl := by rw [← hpl, update_eq_self]
  have hother : ∀ u, u ≠ t → (v.s.setTCB t f).tcb u = v.s.tcb u := fun u hu =>
    setTCB_of_ne hu f
  have hT : TaskOk v.s.idleTaskID t ((v.s.setTCB t f).tcb t) none (v.sl t)
      (decide (some v.s.runTask = some t)) := by
    rwa [setTCB_self, hsl]
  cases b with
  | false =>
    obtain ⟨v', hs', hchange, hpl', -⟩ := v.change (v.s.setTCB t f) v.L
      (by rwa [hself]) v.placed.bits hother rfl (fun _ => hT) (fun _ => rfl) fun _ _ => Iff.rfl
    exact ⟨v', hs', hchange, hpl', fun hc => by cases hc⟩
  | true =>
    have hlists := Shape.at_rehead (x := some []) hjoin rfl
    have hS' := hS.rehead rfl rfl hjoin rfl
      (hS.rings.init hjoin (hS.head_not_mem rfl))
    have hmade := v.change ((v.s.setTCB t f).setHeap (v.s.heap.init (.joinList t))) _
      (by rwa [hself]) ?_ hother rfl (fun _ => hT) (fun n => ?_) fun n hn => ?_
    · obtain ⟨v', hs', hchange, hpl', hL'⟩ := hmade
      refine ⟨v', hs', hchange, hpl', fun _ => ?_⟩
      rw [hL', update_self]
      exact some_ne_none _
    · intro p hp
      exact v.placed.bits p hp
    · rw [hlists]
    · rw [update_of_ne hn]

/-- `OsTaskSetDetachUnsafe` of a task for whose end no task waits. -/
theorem detach (ht : t < taskMaxNum) (hu : (v.s.st t).unused = false)
    (hL : v.L (.joinList t) = some []) :
    ∃ v', v'.s = (v.s.setHeap (v.s.heap.delete (.joinList t))).setSt t
        (fun st => { st with joinable := false }) ∧ Change t v v' ∧ v'.pl t = v.pl t ∧
      ∀ n, v'.L.at n = v.L.at n := by
  have hS := v.placed.shape
  have hT := v.placed.task t ht
  have hat := NodeLists.at_of_some hL
  have hlists := Shape.at_rehead (x := none) hat rfl
  have hS' := hS.rehead rfl rfl hat rfl (hS.rings.delete_self hL)
  have hmade := v.change ((v.s.setHeap (v.s.heap.delete (.joinList t))).setSt t
    (fun st => { st with joinable := false })) _
    (by rwa [update_eq_self]) ?_ (fun u hu => setSt_of_ne hu _) rfl
    (fun _ => ?_) (fun n => ?_) fun n hn => ?_
  · obtain ⟨v', hs', hchange, hpl', hL'⟩ := hmade
    exact ⟨v', hs', hchange, hpl', fun n => by rw [hL', hlists]⟩
  · intro p hp
    exact v.placed.bits p hp
  · rw [setSt_self]
    exact hT.bits (hT.not_free hu) rfl rfl rfl rfl rfl rfl (fun hc => by cases hc) .inl
  · rw [hlists]
  · rw [update_of_ne hn]

/-- `OsSchedTaskWake` ends the wait. -/
theorem not_pend_taskWake (ht : t < taskMaxNum) (hp : (v.s.st t).pend = true) :
    ((v.s.taskWake t).st t).pend = false := by
  have hend : ((v.s.endWait t).tcb t).taskStatus.pend = false := by
    rw [(v.placed.endWait ht hp).2]
  unfold Sched.taskWake taskEnQueue Sched.st
  dsimp only
  split_ifs
  · exact hend
  all_goals first | exact hend | rw [setSt_self]

/-- `OsTaskJoinPostUnsafe`: the task that waits for the end of `t`, if there is one, goes on. -/
theorem taskJoinPost (hG : Good v) (ht : t < taskMaxNum) :
    ∃ v', v'.s = v.s.taskJoinPost t ∧ Calms nobody noList v v' ∧
      ∀ u, v'.pl u ≠ some (.joinList t) := by
  unfold Sched.taskJoinPost
  split_ifs with hj
  · rw [and_eq_true, not_eq_true'] at hj
    rcases v.first_wait rfl hj.2 with ⟨hL, -⟩ | ⟨u, hu, hfirst, hpl, hp⟩
    · exact absurd hL (hG.join.init t ht hj.1)
    rw [hfirst]
    obtain ⟨v', hs', hcalm⟩ := v.taskWake hG.run hu hp
    refine ⟨v', hs', Calms.one hcalm, fun u' hu' => ?_⟩
    by_cases hc : u' = u
    · subst hc
      have hno := v.not_pend_taskWake hu hp
      rw [← hs'] at hno
      unfold st at hno
      simp [(v'.placed.task u' hu).pend.mpr ⟨_, hu', rfl⟩] at hno
    · rw [hcalm.pl u' hc] at hu'
      exact hc (hG.join.once u' u t hu' hpl)
  refine ⟨v, rfl, Calms.refl v, fun u hu => hj ?_⟩
  obtain ⟨-, hjoin, -⟩ := hG.join.target u t hu
  have hmem := (v.placed.shape.pend u _).mpr hu
  rw [hjoin, Bool.true_and, not_eq_true', eq_false_iff]
  intro hempty
  rw [(v.placed.shape.rings.isEmpty_iff (NodeLists.some_of_ne_none (hG.join.init t ht hjoin))).mp
    hempty] at hmem
  cases hmem

/-- The first half of `OsRunningTaskDelete`: into the recycle list. -/
theorem toRecycle (ht : t < taskMaxNum) (hpl : v.pl t = none) (he : (v.s.st t).exit = true)
    (hj : (v.s.st t).joinable = false) :
    ∃ v', v'.s = (v.s.setSt t fun st => { st with unused := true }).setHeap
        (v.s.heap.tailInsert .taskRecycleList (.pendList t)) ∧
      Change t v v' ∧ v'.pl t = some .taskRecycleList ∧ ∀ n, v'.L n = none ↔ v.L n = none := by
  have hL := NodeLists.some_of_ne_none (v.placed.shape.head .taskRecycleList rfl)
  have hup := Shape.upto_linkTail (t := t) hL
  obtain ⟨v', hs', hchange, hpl', hL'⟩ := v.change ((v.s.setSt t fun st => { st with unused := true }).setHeap
      (v.s.heap.tailInsert .taskRecycleList (.pendList t))) _ (v.placed.shape.linkTail hL ht hpl)
    (v.placed.bits.update_other (fun _ => Node.noConfusion) _)
    (fun u hu => by rw [setHeap_tcb, setSt_of_ne hu]) rfl
    (fun _ => by
      have hT := v.placed.task t ht
      rw [hpl] at hT
      rw [setHeap_tcb, setSt_self]
      exact hT.recycle he hj) hup.rest fun n _ => hup.heads n
  exact ⟨v', hs', hchange, hpl', fun n => by rw [hL', hup.heads n]⟩

/-- The second half of `OsRunningTaskDelete`: the control block behind the last task takes the place
of the running one. -/
theorem toGhost (f : LosTaskCB → LosTaskCB)
    (he : (v.s.st v.s.runTask).exit = true) :
    ∃ v' : View, v'.s = { v.s with runTask := taskMaxNum }.setTCB taskMaxNum f ∧ v'.L = v.L ∧
      v'.pl = v.pl := by
  refine ⟨⟨{ v.s with runTask := taskMaxNum }.setTCB taskMaxNum f, v.L, v.pl, v.sl, v.placed.shape,
    v.placed.bits, fun u hu => ?_⟩, rfl, rfl, rfl⟩
  have hT := v.placed.task u hu
  have hne : u ≠ taskMaxNum := Nat.ne_of_lt hu
  rw [setTCB_of_ne hne]
  by_cases hc : v.s.runTask = u
  · subst hc
    obtain ⟨hr, -, hd, hp⟩ := hT.of_exit he
    exact hT.setCpu hr hd hp _
  · rw [decide_eq_false (by simpa using hc)] at hT
    change TaskOk v.s.idleTaskID u (v.s.tcb u) (v.pl u) (v.sl u) (decide (some taskMaxNum = some u))
    rwa [decide_eq_false (by simpa using hne.symm)]

end View

end LiteosM.Kernel
