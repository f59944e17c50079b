import LiteosM.Kernel.Placement

/-!
# The choice of the next task

* **`switch_takes_turns`**: in a careful run `OsSchedTaskSwitch` chooses a task of the highest priority, the
  idle task only if nobody else can run; and a task whose time slice is used up is not chosen again before
  the tasks that were ready beside it, as long as it is not suspended, deleted or given another priority;
* `resumed_task_goes_first`: a task that has used up its time slice and is suspended and resumed goes to the
  head of its queue, and is chosen before those that were ready beside it.

Premise: the run is careful (`State.Careful`). Out of scope: how long a task runs, which `Kernel.TimeSlice`
counts.
-/

namespace LiteosM.Kernel

open LiteosM.Lib List Option Bool Sched State

/-- The scheduler as `OsSchedTaskSwitch` finds it, when a step calls it. -/
def State.switchAt (k : State) (l : Label) : Option Sched :=
  match k.secOf l with
  | some .schedule => k.scheduleAt
  | some _ => none
  | none => if l = .tick then k.tickAt else none

/-- Task `u` competes for the CPU: it is ready, or it is the outgoing task and not blocked. -/
def Sched.Competes (s : Sched) (u : Nat) : Prop :=
  u < taskMaxNum ∧ u ≠ s.idleTaskID ∧
    ((s.st u).ready = true ∨ (u = s.runTask ∧ (s.st u).stops = false))

/-- `new` is the task to choose. -/
structure Chosen (s : Sched) (new : Nat) : Prop where
  lt : new < taskMaxNum
  choice : new = s.idleTaskID ∨ s.Competes new
  top : ∀ u, s.Competes u → new ≠ s.idleTaskID ∧ (s.tcb new).priority ≤ (s.tcb u).priority

/-- A step suspends or deletes task `u` or gives it another priority. -/
def State.Disturbs (k : State) (l : Label) (u : Nat) : Prop :=
  match k.secOf l with
  | some (.taskSuspend t) | some (.taskPriSet t _) | some (.taskDelete t) => t = u
  | some (.muxPend i _) => k.boosts i u
  | _ => False

/-- Task `a` is in the ready queue of priority `p`, and the turn of task `r` comes after it. -/
structure Turn (p a r : Nat) (v : View) : Prop where
  off : v.s.runTask ≠ r
  started : v.s.taskScheduled = true
  ready : v.pl a = some (.priQueue p)
  order : r = v.s.idleTaskID ∨ Ahead v.L p a r

section
variable {k k' : State} {v v1 v' : View} {p a r : Nat} {l : Label} {c : Sec}

theorem Ahead.pl {L : NodeLists Node} (h : Ahead L p a r) (hL : L = v.L) :
    v.pl a = some (.priQueue p) ∧ v.pl r = some (.priQueue p) := by
  subst hL
  exact ⟨(v.placed.shape.pend a _).mp (h.subset (by simp)), (v.placed.shape.pend r _).mp (h.subset (by simp))⟩

/-- The first task of a queue is ahead of all others. -/
theorem Ahead.not_first {L : NodeLists Node} {l : List Node} (h : Ahead L p a r)
    (hfirst : L.at (.priQueue p) = .pendList r :: l) (hnd : (L.at (.priQueue p)).Nodup) : False := by
  unfold Ahead at h
  rw [hfirst] at h hnd
  rcases sublist_cons_iff.mp h with h | ⟨l', hl', h⟩
  · exact (nodup_cons.mp hnd).1 (h.subset (by simp))
  · rw [List.cons.injEq] at hl'
    rw [← hl'.2] at h
    exact (nodup_cons.mp hnd).1 (h.subset (by simp))

variable {u : Nat}

/-- A task in a ready queue is not on the CPU. -/
theorem View.queued_ne_runTask (hu : v.pl u = some (.priQueue p)) : u ≠ v.s.runTask := by
  have ht := v.placed.shape.lt_of_pl hu
  have hT := v.placed.task u ht
  have := (hT.readyX (hT.queued p hu)).2.2.2.2
  rintro rfl
  simp at this

theorem View.queued_priority (hu : v.pl u = some (.priQueue p)) :
    u ≠ v.s.idleTaskID ∧ (v.s.tcb u).priority = p := by
  have hT := v.placed.task u (v.placed.shape.lt_of_pl hu)
  have := hT.ready (hT.queued p hu)
  rw [hu, eq_comm, TaskOk.readyPlace_eq, Node.priQueue.injEq] at this
  exact ⟨this.1, this.2.symm⟩

theorem View.competes_of_queued (hu : v.pl u = some (.priQueue p)) : v.s.Competes u := by
  have ht := v.placed.shape.lt_of_pl hu
  exact ⟨ht, (v.queued_priority hu).1, .inl ((v.placed.task u ht).queued p hu)⟩

theorem Turn.ne (h : Turn p a r v) : a ≠ r := by
  rcases h.order with rfl | hahead
  · exact (v.queued_priority h.ready).1
  rintro rfl
  have hnd := v.placed.shape.rings.once (.priQueue p)
  have := hnd.sublist hahead
  simp at this

/-- A piece of code that does not disturb a waiting task leaves it in its queue. -/
theorem not_moves (hsec : k.secOf l = some c) (hno : ¬k.Disturbs l u) (hu : u ≠ k.runTask) :
    ¬(k.before l).moves c u := by
  have hrun : (k.before l).runTask = k.runTask := by
    cases l <;> rfl
  have hmux : ∀ i, (k.before l).boosts i u ↔ k.boosts i u := fun i => by cases l <;> exact Iff.rfl
  unfold Disturbs at hno
  rw [hsec] at hno
  intro hm
  cases c with
  | taskSuspend t | taskPriSet t _ => exact hno hm.symm
  | muxPend i _ =>
    rcases hm with hm | hm
    · exact hno ((hmux i).mp hm)
    · exact hu (hm.trans hrun)
  | taskJoin | taskDelay | semPend | queueOperate | eventReadLocked => exact hu (hm.trans hrun)
  | _ => exact hm

section
variable (h : Turn p a r v)
include h

/-- Nothing that matters for the turn has changed. -/
theorem Turn.keep (hoff : v'.s.runTask ≠ r)
    (hfix : v'.s.idleTaskID = v.s.idleTaskID ∧ v'.s.taskScheduled = v.s.taskScheduled)
    (hready : v'.pl a = some (.priQueue p)) (horder : Ahead v.L p a r → Ahead v'.L p a r) :
    Turn p a r v' := by
  refine ⟨hoff, hfix.2.trans h.started, hready, ?_⟩
  rw [hfix.1]
  exact h.order.imp_right horder

/-- A change of a task that is in no ready queue. -/
theorem Turn.alter {t : Nat} (halter : Alter t k v k' v') (hrun : k'.runTask ≠ r)
    (ha : a ≠ t) (hr : v.pl r = some (.priQueue p) → r ≠ t) : Turn p a r v' := by
  refine h.keep ?_ halter.fixed (halter.queued a p ha h.ready) fun hahead =>
    halter.ahead p a r ha (hr (hahead.pl rfl).2) hahead
  rwa [halter.inv.1.eq]

theorem Turn.calms {w : Node → Prop} (hcalms : Calms nobody w v v1) : Turn p a r v1 :=
  h.keep ((show v1.s.runTask = v.s.runTask from congrArg Ctl.runTask hcalms.ctl) ▸ h.off)
    ⟨congrArg Ctl.idleTaskID hcalms.ctl, congrArg Ctl.taskScheduled hcalms.ctl⟩
    (hcalms.untouched h.ready id) (hcalms.ahead id id)

/-- A switch keeps the turn, unless it chooses task `a`. -/
theorem Turn.switch {new : Nat} {M : NodeLists Node} (hsw : SwitchTo v v' new M)
    (ha : new ≠ a) : Turn p a r v' := by
  have harun := v.queued_ne_runTask h.ready
  have hidle := (hsw.top a (v.competes_of_queued h.ready)).1
  -- the order in the queues once the outgoing task is back
  have hmid : Ahead v.L p a r → Ahead M p a r := fun hahead =>
    hahead.of_rest hsw.outUpto.rest harun (v.queued_ne_runTask (hahead.pl rfl).2)
  have hnew : new ≠ r := by
    rintro rfl
    rcases h.order with heq | hahead
    · exact hidle heq
    · obtain ⟨l, hl⟩ := hsw.first hidle
      rw [(v.queued_priority (hahead.pl rfl).2).2] at hl
      exact (hmid hahead).not_first hl (hsw.mid.once _)
  refine h.keep ?_ ⟨hsw.idleTaskID, hsw.taskScheduled⟩ ?_ fun hahead => ?_
  · rwa [hsw.runTask]
  · rw [hsw.pl a harun ha.symm]
    exact h.ready
  · exact (hmid hahead).of_rest hsw.inUpto.rest ha.symm hnew.symm

theorem Turn.switches {at? : Option Sched} (hsw : Switches at? k v k' v')
    (ha : k'.runTask ≠ a) : Turn p a r v' := by
  obtain ⟨v1, hcalms, rfl | ⟨new, M, hto⟩⟩ := hsw.moves
  · exact h.calms hcalms
  · refine (h.calms hcalms).switch hto ?_
    rwa [← hto.runTask, hsw.reached.1.eq]

/-- **A step that does not disturb either task keeps the turn, unless task `a` is chosen.** -/
theorem Stepped.turn (hC : Core k v) (hstep : Stepped k v l k' v')
    (ha : ¬k.Disturbs l a) (hr : ¬k.Disturbs l r) (hrun : k'.runTask ≠ a) : Turn p a r v' := by
  have harun : a ≠ k.runTask := by
    have := v.queued_ne_runTask h.ready
    rwa [hC.eq] at this
  have hrrun : r ≠ k.runTask := by
    have := h.off
    rw [hC.eq] at this
    exact this.symm
  have hrlt : r ≠ taskMaxNum := by
    rcases h.order with rfl | hahead
    · exact hC.good.run.idle.ne
    · exact (v.placed.shape.lt_of_pl (hahead.pl rfl).2).ne
  cases hstep with
  | @ran c sec next eq ran =>
    subst eq
    have hbefore : (k.before l).runTask = k.runTask := by cases l <;> rfl
    have hstay : c ≠ .schedule → ((k.before l).run c).runTask ≠ r := by
      intro hc
      rcases ran.runTask hc with heq | heq
      · rw [heq, hbefore]
        exact hrrun.symm
      · rw [heq]
        exact hrlt.symm
    -- a task with another place in the lists is neither of the two
    have hother : ∀ {t : Nat} {x : Option Node}, Alter t (k.before l) v ((k.before l).run c) v' →
        c ≠ .schedule → v.pl t = x → (∀ q, x ≠ some (.priQueue q)) → Turn p a r v' := by
      intro t x halter hc ht hx
      refine h.alter halter (hstay hc) ?_ fun hpl => ?_
      · rintro rfl
        exact hx p (ht ▸ h.ready)
      · rintro rfl
        exact hx p (ht ▸ hpl)
    have hunused : ∀ {t : Nat}, (v.s.st t).unused = true →
        a ≠ t ∧ (v.pl r = some (.priQueue p) → r ≠ t) := by
      intro t ht
      have hno : ∀ u, v.pl u = some (.priQueue p) → u ≠ t := by
        rintro u hu rfl
        have hT := v.placed.task u (v.placed.shape.lt_of_pl hu)
        have := (hT.readyX (hT.queued p hu)).2.2.2.1
        unfold st at ht
        simp [this] at ht
      exact ⟨hno a h.ready, hno r⟩
    cases ran with
    | tame _ htame =>
      have hma := not_moves sec ha harun
      have hmr := not_moves sec hr hrrun
      refine h.keep ?_ htame.fixed (htame.queued a p hma h.ready) (htame.ahead p a r hma hmr)
      rw [htame.inv.1.eq, show ((k.before l).run c).runTask = k.runTask from htame.runTask.trans hbefore]
      exact hrrun.symm
    | take sec' _ alter pl | recycle sec' _ alter pl | join sec' _ alter pl =>
      exact hother alter (sec' ▸ Sec.noConfusion) pl (by simp)
    | @init t _ _ sec' alter =>
      obtain ⟨hat, hrt⟩ := hunused (next.holds t (sec' ▸ rfl)).2.1
      exact h.alter alter (hstay (sec' ▸ Sec.noConfusion)) hat hrt
    | give sec' alter pl => exact hother alter (sec' ▸ Sec.noConfusion) pl (by simp)
    | free sec' inv eq =>
      subst eq
      exact h
    | @detach t sec' alter pl lists =>
      refine h.keep ?_ alter.fixed ?_ fun hahead => ?_
      · rw [alter.inv.1.eq]
        exact hstay (sec' ▸ Sec.noConfusion)
      · by_cases hat : a = t
        · rw [hat, pl, ← hat]
          exact h.ready
        · exact alter.queued a p hat h.ready
      · unfold Ahead
        rwa [lists]
    | @delete t sec' _ alter =>
      unfold Disturbs at ha hr
      rw [sec, sec'] at ha hr
      exact h.alter alter (hstay (sec' ▸ Sec.noConfusion)) (fun hc => ha hc.symm) fun _ hc => hr hc.symm
    | switch _ hsw => exact h.switches hsw hrun
  | tick _ _ hsw => exact h.switches hsw hrun
  | clock _ _ frozen =>
    refine h.keep ?_ ⟨frozen.idle, frozen.start⟩ ?_ fun hahead => ?_
    · rw [frozen.run]
      exact h.off
    · rw [frozen.pl]
      exact h.ready
    · unfold Ahead
      rwa [frozen.lists]
  | start _ before =>
    have := h.started
    simp [hC.eq, before] at this

end

instance (k : State) (l : Label) (u : Nat) : Decidable (k.Disturbs l u) :=
  decidable_of_iff ((k.secOf l).any fun
      | .taskSuspend t | .taskPriSet t _ | .taskDelete t => t = u
      | .muxPend i _ => k.boosts i u
      | _ => false) <| by
    unfold Disturbs
    cases k.secOf l with
    | none => simp
    | some c => cases c <;> simp

/-- What the steps of a run must be like for the turn to matter. -/
def Undisturbed (a r : Nat) (k : State) (l : Label) : Prop :=
  k.Careful l ∧ k.runTask ≠ a ∧ ¬k.Disturbs l a ∧ ¬k.Disturbs l r
  deriving Decidable

/-- **In a run that disturbs neither task, `r` is not chosen before `a`.** -/
theorem Turn.run : ∀ {run : List Label} {k k' : State} {v : View}, Reached k v → Turn p a r v →
    Guarded step (Undisturbed a r) k run → exec step k run = some k' → k'.runTask ≠ r
  | [], k, k', v, hR, h, _, he => by
    rw [exec_nil, some.injEq] at he
    have := h.off
    rw [hR.1.eq] at this
    rw [← he]
    exact this
  | l :: run, k, k', v, hR, h, hg, he => by
    obtain ⟨k1, hk1, he⟩ := exec_cons.mp he
    obtain ⟨⟨hcare, hka, hda, hdr⟩, hrest⟩ := hg
    obtain ⟨v1, hstep⟩ := hR.step hcare hk1
    by_cases hchosen : k1.runTask = a
    · -- `a` is chosen, which ends the run
      cases run with
      | nil =>
        rw [exec_nil, some.injEq] at he
        rw [← he, hchosen]
        exact h.ne
      | cons l' run => exact absurd hchosen (hrest k1 hk1).1.2.1
    · exact Turn.run hstep.reached (hstep.turn h hR.1 hda hdr hchosen) (hrest k1 hk1) he

/-! ## The switch that begins the turn -/

/-- What is left of the running task's time slice when `OsSchedTaskSwitch` puts it back. -/
def Sched.sliceLeft (s : Sched) : Int := ((s.timeSliceUpdate s.runTask s.currTime).tcb s.runTask).timeSlice

/-- `OsSchedTaskEnQueue` of a task whose time slice is used up. -/
theorem Sched.taskEnQueue_tail {s : Sched} {t : Nat} (hr : (s.st t).ready = false)
    (hid : (s.tcb t).taskID ≠ s.idleTaskID) (hslice : (s.tcb t).timeSlice ≤ s.schedTimeSliceMin) :
    (s.taskEnQueue t).heap = s.heap.tailInsert (.priQueue (s.tcb t).priority) (.pendList t) := by
  unfold taskEnQueue
  rw [hr]
  dsimp only
  rw [if_pos hid, if_neg (show ¬(s.tcb t).timeSlice > s.schedTimeSliceMin from Int.not_lt.mpr hslice)]
  rfl

/-- The outgoing task goes to the tail of its queue when its time slice is used up. -/
theorem View.putRunTask_tail (hgo : (v.s.st v.s.runTask).stops = false) (ht : v.s.runTask < taskMaxNum)
    (hidle : v.s.runTask ≠ v.s.idleTaskID) (hslice : v.s.sliceLeft ≤ v.s.schedTimeSliceMin) :
    v.s.putRunTask.heap =
      v.s.heap.tailInsert (.priQueue (v.s.tcb v.s.runTask).priority) (.pendList v.s.runTask) := by
  have hT := v.placed.task _ ht
  rw [decide_eq_true rfl] at hT
  obtain ⟨hpt, hd, hp, hs, he, hu⟩ := TaskStatus.stops_eq_false hgo
  have hr : (v.s.st v.s.runTask).ready = false := by
    rw [eq_false_iff]
    intro hc
    have := (hT.readyX hc).2.2.2.2
    cases this
  have hself : (v.s.timeSliceUpdate v.s.runTask v.s.currTime).st v.s.runTask = v.s.st v.s.runTask := by
    unfold st Sched.timeSliceUpdate
    rw [setTCB_self]
  have hfields : ((v.s.timeSliceUpdate v.s.runTask v.s.currTime).tcb v.s.runTask).taskID = v.s.runTask ∧
      ((v.s.timeSliceUpdate v.s.runTask v.s.currTime).tcb v.s.runTask).priority =
        (v.s.tcb v.s.runTask).priority := by
    unfold Sched.timeSliceUpdate
    rw [setTCB_self]
    exact ⟨hT.taskID, rfl⟩
  unfold Sched.putRunTask
  dsimp only
  rw [hself, hpt, hd, if_neg (by simp), if_pos (by simp [TaskStatus.blocked, hp, hs, he, hu]),
    taskEnQueue_tail (hself ▸ hr) (by rwa [hfields.1]) hslice, hfields.2]
  rfl

theorem SwitchTo.turn {new : Nat} {M : NodeLists Node} (hsw : SwitchTo v v' new M) (hR : RunOk v.s)
    (hstart : v.s.taskScheduled = true) (hgo : (v.s.st v.s.runTask).stops = false)
    (hslice : v.s.sliceLeft ≤ v.s.schedTimeSliceMin) (hr : r = v.s.runTask)
    (ha : v.pl a = some (.priQueue (v.s.tcb r).priority)) :
    new ≠ r ∧ (new ≠ a → Turn (v.s.tcb r).priority a r v') := by
  have harun := v.queued_ne_runTask ha
  have hidle := (hsw.top a (v.competes_of_queued ha)).1
  have ht : r < taskMaxNum := by
    refine Nat.lt_of_le_of_ne (hr ▸ hR.le) fun heq => ?_
    have := (TaskStatus.stops_eq_false hgo).2.2.2.2.2
    simp [← hr, heq, hR.ghost.1] at this
  -- with the outgoing task back, `a` is ahead of it
  have hmid : r ≠ v.s.idleTaskID → Ahead M (v.s.tcb r).priority a r := by
    intro hne
    have hheap := v.putRunTask_tail hgo (hr ▸ ht) (hr ▸ hne) hslice
    rw [← hr] at hheap
    have hL := v.placed.shape.head (.priQueue (v.s.tcb r).priority)
      (by simpa [Node.isFixed] using (v.placed.task r ht).prio)
    have hfree : v.L.Free (.pendList r) := v.placed.shape.pendList_free (by
      rw [hr]
      have hT := v.placed.task _ (hr ▸ ht)
      rw [decide_eq_true rfl] at hT
      have hrdy : (v.s.tcb v.s.runTask).taskStatus.ready = false := by
        rw [eq_false_iff]
        intro hc
        have := (hT.readyX hc).2.2.2.2
        cases this
      obtain ⟨-, -, hp, -, -, hu⟩ := TaskStatus.stops_eq_false hgo
      exact hT.pl_none hu hrdy hp)
    have hrings := v.placed.shape.rings.tailInsert (NodeLists.some_of_ne_none hL) hfree
    rw [← hheap] at hrings
    have hM : M (.priQueue (v.s.tcb r).priority) ≠ none := fun hc => hL ((hsw.outUpto.heads _).mp hc)
    have huniq := (hrings.isList (Function.update_self ..)).unique
      (hsw.mid.isList (NodeLists.some_of_ne_none hM))
    unfold Ahead
    rw [← huniq]
    exact (singleton_sublist.mpr ((v.placed.shape.pend a _).mpr ha)).append (List.Sublist.refl _)
  have hnew : new ≠ r := by
    rintro rfl
    obtain ⟨l, hl⟩ := hsw.first hidle
    exact (hmid hidle).not_first hl (hsw.mid.once _)
  refine ⟨hnew, fun hna => ⟨?_, hsw.taskScheduled.trans hstart, ?_, ?_⟩⟩
  · rwa [hsw.runTask]
  · rwa [hsw.pl a harun hna.symm]
  rw [hsw.idleTaskID]
  by_cases hne : r = v.s.idleTaskID
  · exact .inl hne
  · exact .inr ((hmid hne).of_rest hsw.inUpto.rest hna.symm hnew.symm)

theorem State.started_of_switchAt {s : Sched} (hs : k.switchAt l = some s) : k.taskScheduled = true := by
  unfold switchAt at hs
  split at hs
  · unfold scheduleAt at hs
    split_ifs at hs with hcond
    rw [and_eq_true] at hcond
    exact hcond.1
  · cases hs
  split_ifs at hs
  by_contra hstart
  unfold tickAt at hs
  simp [if_pos (by simpa using hstart)] at hs

/-- A step that calls `OsSchedTaskSwitch` switches from there. -/
theorem Stepped.called {s : Sched} (hstep : Stepped k v l k' v') (hs : k.switchAt l = some s)
    (hnow : (s.tcb s.runTask).startTime ≤ s.currTime) :
    ∃ v1 new M, v1.s = s ∧ Calms nobody noList v v1 ∧ SwitchTo v1 v' new M := by
  unfold switchAt at hs
  cases hstep with
  | @ran c sec _ _ ran =>
    rw [sec] at hs
    cases ran with
    | switch sec' h =>
      subst sec'
      refine h.called s ?_ (Nat.not_lt.mpr hnow)
      rw [← hs]
      cases l <;> rfl
    | tame sec' _ =>
      cases c with
      | schedule => exact absurd rfl sec'
      | _ => cases hs
    | _ =>
      subst c
      cases hs
  | tick label _ h =>
    subst label
    exact h.called s hs (Nat.not_lt.mpr hnow)
  | clock label | start label =>
    subst label
    cases hs

end

/-- **The choice of `OsSchedTaskSwitch`.** -/
theorem switch_takes_turns (sysClock tickPeriodMax : Nat) (run : List Label) (k k' : State) (l : Label)
    (s : Sched) (hcare : Guarded step Careful (boot sysClock tickPeriodMax) (run ++ [l]))
    (hrun : exec step (boot sysClock tickPeriodMax) run = some k) (hstep : step k l = some k')
    (hs : k.switchAt l = some s) (hnow : (s.tcb s.runTask).startTime ≤ s.currTime) :
    Chosen s k'.newTask ∧ k'.runTask = k'.newTask ∧
      ((s.st s.runTask).stops = false → s.sliceLeft ≤ s.schedTimeSliceMin →
        ∀ a < taskMaxNum, a ≠ s.idleTaskID → (s.st a).ready = true →
          (s.tcb a).priority = (s.tcb s.runTask).priority →
          ∀ later k'', Guarded step (Undisturbed a s.runTask) k' later → exec step k' later = some k'' →
            k''.runTask ≠ s.runTask) := by
  obtain ⟨hcare, hl⟩ := hcare.append hrun
  obtain ⟨v, hR⟩ := reached_of_careful hcare hrun
  obtain ⟨v', hstepped⟩ := hR.step hl.1 hstep
  have hR' := hstepped.reached
  obtain ⟨v1, new, M, rfl, hcalms, hsw⟩ := hstepped.called hs hnow
  have hnew : k'.newTask = new ∧ k'.runTask = new := by
    have hctl := hsw.ctl
    rw [hR'.1.eq] at hctl
    exact ⟨congrArg Ctl.newTask hctl, congrArg Ctl.runTask hctl⟩
  rw [hnew.1, hnew.2]
  refine ⟨⟨hsw.lt, hsw.choice, hsw.top⟩, rfl, fun hgo hslice a ha hidle hready hprio later k'' hg he => ?_⟩
  have hG := hcalms.good hR.1.good
  have hstart : v1.s.taskScheduled = true := by
    rw [show v1.s.taskScheduled = v.s.taskScheduled from congrArg Ctl.taskScheduled hcalms.ctl, hR.1.eq]
    exact started_of_switchAt hs
  have hpl : v1.pl a = some (.priQueue (v1.s.tcb v1.s.runTask).priority) := by
    rw [(v1.placed.task a ha).ready hready, TaskOk.readyPlace_eq, hprio]
    exact ⟨hidle, rfl⟩
  obtain ⟨hne, hturn⟩ := hsw.turn hG.run hstart hgo hslice rfl hpl
  by_cases hchosen : new = a
  · -- `a` is chosen at once, which ends the run
    cases later with
    | nil =>
      rw [exec_nil, some.injEq] at he
      rwa [← he, hnew.2]
    | cons l' later => exact absurd (hnew.2.trans hchosen) hg.1.2.1
  · exact (hturn hchosen).run hR' hg he

/-- Three tasks of one priority, and the first of them runs until its time slice is used up. -/
def sliceUsedUp : List Label :=
  createTask 5 ++ createTask 5 ++ createTask 5 ++ [.start, .clock 30000]

/-- Task 2 yields, and it is task 3 that runs next. -/
theorem switch_takes_turns_yield : ∃ k'', exec step (boot 1000000 0xffffff)
      (sliceUsedUp ++ .tick :: [.call .taskYield, .cont]) = some k'' ∧ k''.runTask ≠ 1 := by
  -- the tick that ends the time slice puts task 1 behind tasks 2 and 3
  obtain ⟨k, hk, k', hstep, s, hs, hnow, hrun, hgo, hslice, hidle, hready, hprio, hg, k'', hk'', -⟩ : ∃ k,
      exec step (boot 1000000 0xffffff) sliceUsedUp = some k ∧ ∃ k', step k .tick = some k' ∧
      ∃ s, k.switchAt .tick = some s ∧ (s.tcb s.runTask).startTime ≤ s.currTime ∧ s.runTask = 1 ∧
      (s.st 1).stops = false ∧ s.sliceLeft ≤ s.schedTimeSliceMin ∧ 3 ≠ s.idleTaskID ∧
      (s.st 3).ready = true ∧ (s.tcb 3).priority = (s.tcb 1).priority ∧
      Guarded step (Undisturbed 3 1) k' [.call .taskYield, .cont] ∧
      ∃ k'', exec step k' [.call .taskYield, .cont] = some k'' ∧ True := by decide +kernel
  have hcare : Guarded step Careful (boot 1000000 0xffffff) (sliceUsedUp ++ [.tick]) := by
    decide +kernel
  refine ⟨k'', exec_append.mpr ⟨k, hk, exec_cons.mpr ⟨k', hstep, hk''⟩⟩, ?_⟩
  rw [← hrun] at hg hgo hprio ⊢
  exact (switch_takes_turns _ _ _ k k' .tick s hcare hk hstep hs hnow).2.2 hgo hslice 3 (by decide) hidle
    hready hprio _ k'' hg hk''

/-- Task 2 suspends and resumes task 1, and then delays itself. -/
def suspendResume : List Label :=
  [.call (.taskSuspend 1), .call (.taskResume 1), .cont, .call (.taskDelay 10), .cont]

/-- **A suspended and resumed task overtakes.** The time slice of task 1 is used up while task 3 is
ready beside it; without any change of priority task 1 is chosen again, and task 3 has been ready all
the time. -/
theorem resumed_task_goes_first : ∃ k k' s k'', exec step (boot 1000000 0xffffff) sliceUsedUp = some k ∧
    step k .tick = some k' ∧ k.switchAt .tick = some s ∧ s.runTask = 1 ∧ (s.st 1).stops = false ∧
    s.sliceLeft ≤ s.schedTimeSliceMin ∧ (s.st 3).ready = true ∧
    (s.tcb 3).priority = (s.tcb 1).priority ∧
    Guarded step (fun k _ => (k.st 3).ready = true) k' suspendResume ∧
    exec step k' suspendResume = some k'' ∧ (k''.st 3).ready = true ∧ k''.runTask = 1 := by
  simp only [exists_and_left]
  decide +kernel

end LiteosM.Kernel
