import LiteosM.Kernel.WaitStep

/-!
# The calls that wait

A call that waits leaves the piece behind its wait as the last thing its task has to do, and only
there does the task look at the timeout bit. So a task of which the bit is set, or which waits with
a timeout, has such a piece left (`Await`), and a task that starts a call has both bits clear.

* `State.adds_run`, `State.run_opens_cases`: which code leaves such a piece, and when;
* `Await.run_self`, `Await.step`: what a piece of code, and a step, does to it;
* **`no_stale_timeout`**: in every careful run, a task with one of the bits set is inside a call that waits.

Out of scope: tasks that have ended. Their bits are cleared when the control block is filled again.
-/

namespace LiteosM.Kernel

open LiteosM.Lib Function List Bool Sched State

/-- What is left of a call behind its wait. -/
def Sec.pended : Sec → Bool
  | .semPended | .muxPended | .queuePended _ _ | .eventPended _ _ _ => true
  | _ => false

/-- The code that may leave such a piece. -/
def Sec.opens : Sec → Bool
  | .semPend _ _ | .muxPend _ _ | .queueOperate _ _ _ _ | .eventRead _ _ _ _ | .eventReadLocked _ _ _ _ =>
    true
  | _ => false

/-- The pieces behind which nothing is left of a call. -/
def Sec.ends (c : Sec) : Bool := c.pended || c.opens

variable {c : Sec}

theorem Sec.ends_of_pended (h : c.pended = true) : c.ends = true := by
  unfold Sec.ends
  rw [h, Bool.true_or]

theorem Sec.pended_of_opens (h : c.opens = true) : c.pended = false := by
  cases c with
  | semPend | muxPend | queueOperate | eventRead | eventReadLocked => rfl
  | _ => cases h

theorem Sec.opens_of_times (h : c.times = true) : c.opens = true := by
  cases c with
  | semPend | muxPend | queueOperate | eventReadLocked => rfl
  | _ => cases h

namespace State

variable (k : State) {u : Nat} {c' : Sec}

theorem mem_todo_of_push {m : State} {l : List Sec} (h : c' ∈ (m.push l).todo u)
    (heq : m.todo = k.todo) : c' ∈ k.todo u ∨ (c' ∈ l ∧ u = m.runTask) := by
  change c' ∈ update m.todo m.runTask (l ++ m.todo m.runTask) u at h
  rw [← heq]
  by_cases hu : u = m.runTask
  · rw [hu, update_self] at h
    rcases mem_append.mp h with h | h
    · exact .inr ⟨h, hu⟩
    · rw [hu]
      exact .inl h
  · rw [update_of_ne hu] at h
    exact .inl h

/-- Nothing that a call ends with is added to what is left. -/
def Adds (k k' : State) : Prop := ∀ u c', c'.ends = true → c' ∈ k'.todo u → c' ∈ k.todo u

namespace Adds

variable {k m : State} {l : List Sec}

theorem same (heq : m.todo = k.todo) : k.Adds m := fun _ _ _ h => heq ▸ h

theorem push (hl : ∀ c ∈ l, c.ends = false) (hm : k.Adds m) : k.Adds (m.push l) := by
  intro u c' hend h
  refine hm u c' hend ((m.mem_todo_of_push h rfl).resolve_right fun ⟨hmem, _⟩ => ?_)
  simp [hl c' hmem] at hend

theorem setTodo {t : Nat} (hl : ∀ c ∈ l, c.ends = false) (hm : k.Adds m) : k.Adds (m.setTodo t l) := by
  intro u c' hend h
  by_cases hu : u = t
  · rw [hu, setTodo_self] at h
    simp [hl c' h] at hend
  · rw [setTodo_of_ne m hu] at h
    exact hm u c' hend h

theorem ite {p : Prop} [Decidable p] {m' : State} (h : k.Adds m) (h' : k.Adds m') : k.Adds (if p then m else m') := by
  split_ifs
  · exact h
  · exact h'

end Adds

theorem todo_wakeFirst (n : Node) (f : LosTaskCB → LosTaskCB) : (k.wakeFirst n f).todo = k.todo := by
  unfold wakeFirst
  split <;> rfl

theorem ends_nil : ∀ c ∈ ([] : List Sec), c.ends = false := fun _ hc => absurd hc not_mem_nil

theorem ends_cons {l : List Sec} (hc : c.ends = false) (hl : ∀ c ∈ l, c.ends = false) :
    ∀ c' ∈ c :: l, c'.ends = false :=
  forall_mem_cons.mpr ⟨hc, hl⟩

theorem ends_one (hc : c.ends = false) : ∀ c' ∈ [c], c'.ends = false := ends_cons hc ends_nil

theorem ends_if {p : Prop} [Decidable p] (hc : c.ends = false) :
    ∀ c' ∈ (if p then [c] else []), c'.ends = false := by
  split_ifs
  · exact ends_one hc
  · exact ends_nil

/-- A section that adds one piece that ends no call, or none, whatever it does to the kernel. -/
theorem adds_one {m : State} (hc : c.ends = false) (heq : m.todo = k.todo) :
    k.Adds (m.push [c]) :=
  .push (ends_one hc) (.same heq)

theorem adds_two {m : State} {c d : Sec} (hc : c.ends = false) (hd : d.ends = false)
    (heq : m.todo = k.todo) :
    k.Adds (m.push [c, d]) :=
  .push (ends_cons hc (ends_one hd)) (.same heq)

theorem adds_buried (t : Nat) : k.Adds (k.buried t) := by
  unfold buried
  split_ifs
  · exact .setTodo (ends_one rfl) (.same rfl)
  · exact .setTodo (ends_one rfl) (.same rfl)
  · exact k.adds_one rfl rfl

/-- **Only a call that waits, and `LOS_EventRead`, leaves a piece to end with.** -/
theorem adds_run (c : Sec) (hc : c.opens = false) : k.Adds (k.run c) := by
  cases c with
  | taskLock | eventInit | eventClear | schedule | insertTCBToFreeList => exact .same rfl
  | eventDestroy | semPended | muxPended | memFree => exact .ite (.same rfl) (.same rfl)
  | semDelete | muxDelete => exact .ite (.same rfl) (.ite (.same rfl) (.same rfl))
  | taskYield | createEnQueue | joinFree => exact k.adds_one rfl rfl
  | taskCreate =>
    dsimp only [run, taskCreate]
    split
    · exact k.adds_two rfl rfl rfl
    · exact .same rfl
  | muxCreate =>
    dsimp only [run, muxCreate]
    split <;> exact .same rfl
  | semCreate =>
    refine .ite (.same rfl) ?_
    split <;> exact .same rfl
  | recycleFinishedTask =>
    refine .ite (.same rfl) ?_
    split
    · exact k.adds_two rfl rfl rfl
    · exact .same rfl
  | createTake =>
    refine .ite (.same rfl) ?_
    split
    · exact k.adds_one rfl rfl
    · exact .same rfl
  | taskResume t => exact .ite (.same rfl) (.ite (.same rfl) (.ite (.same rfl) (.push (ends_if rfl) (.same rfl))))
  | taskSuspend =>
    dsimp only [run, taskSuspend]
    split
    · exact .ite (.same rfl) (.ite (.same rfl) (.ite (.same rfl) (.ite (.same rfl) (.push (ends_if rfl) (.same rfl)))))
    · exact .same rfl
  | taskJoin t =>
    dsimp only [run, taskJoin]
    split
    · exact .ite (.same rfl) (.ite (.same rfl) (.ite (.same rfl) (.ite (k.adds_two rfl rfl rfl)
        (.ite (k.adds_two rfl rfl rfl) (.same rfl)))))
    · exact .same rfl
  | taskDetach t =>
    dsimp only [run, taskDetach]
    split
    · split_ifs
      on_goal 2 => exact k.adds_one rfl rfl
      all_goals exact .same rfl
    · exact .same rfl
  | taskDelete t =>
    change k.Adds (k.taskDelete t)
    rcases k.taskDelete_eq t with ⟨-, heq⟩ | ⟨-, e, heq⟩ <;> rw [heq]
    · have hended : k.Adds (k.ended t (k.lockFor t)) := .setTodo ends_nil (.same rfl)
      exact fun u c' hend h => hended u c' hend (adds_buried _ t u c' hend h)
    · exact .same rfl
  | taskDelay tick => exact .ite (.same rfl) (.ite (.same rfl) (.ite (k.adds_one rfl rfl) (k.adds_one rfl rfl)))
  | taskPriSet t prio =>
    exact .ite (.same rfl) (.ite (.same rfl) (.ite (.same rfl) (.ite (.same rfl) (.ite (.same rfl)
      (.push (ends_if rfl) (.same rfl))))))
  | taskUnlock | eventWriteLocked => exact .ite (.push (ends_if rfl) (.same rfl)) (.same rfl)
  | semPost i =>
    change k.Adds (k.semPost i)
    rcases k.semPost_cases i with ⟨e, -, heq⟩ | ⟨-, -, ⟨-, heq⟩ | ⟨-, heq⟩⟩ <;> rw [heq]
    · exact .same rfl
    · exact k.adds_one rfl (k.todo_wakeFirst _ _)
    · exact .same rfl
  | muxPost i =>
    change k.Adds (k.muxPost i)
    have hrestored : ((k.released i).restored i).todo = k.todo := by
      unfold restored
      split_ifs <;> rfl
    rcases k.muxPost_cases i with ⟨e, -, heq⟩ | ⟨-, -, -, ⟨-, heq⟩ | ⟨-, heq⟩⟩ <;> rw [heq]
    · exact .same rfl
    · exact .same rfl
    refine .ite ?_ (.same hrestored)
    split
    · exact k.adds_one rfl ((todo_wakeFirst _ _ _).trans hrestored)
    · exact .same hrestored
  | queueCreate len maxMsgSize memory =>
    refine .ite (.same rfl) (.ite (.same rfl) (.ite (.same rfl) (.ite (.same rfl) ?_)))
    split <;> exact .same rfl
  | queueDelete | eventPended =>
    dsimp only [run, queueDelete, eventPended, eventPoll]
    split_ifs <;> exact .same rfl
  | queuePended q rw => exact .ite (.same rfl) (.ite (k.adds_one rfl (k.todo_wakeFirst _ _)) (.same rfl))
  | eventWrite e events => exact .ite (.same rfl) (.ite (.same rfl) (k.adds_one rfl rfl))
  | newTaskInit t p enqueue =>
    intro u c' hend h
    change c' ∈ (k.newTaskInit t p enqueue).todo u at h
    rw [k.newTaskInit_todo t p enqueue] at h
    have hset : k.Adds (k.setTodo t []) := .setTodo ends_nil (.same rfl)
    split_ifs at h
    · exact Adds.push (ends_one rfl) (.same rfl) u c' hend h
    · exact Adds.push (ends_one rfl) hset u c' hend h
    · exact Adds.push ends_nil hset u c' hend h
  | semPend | muxPend | queueOperate | eventRead | eventReadLocked => cases hc

end State

/-- What the calls that may wait leave to do. -/
@[simp] def Sec.leaves : Sec → List Sec
  | .semPend _ _ => [.schedule, .semPended]
  | .muxPend _ _ => [.schedule, .muxPended]
  | .queueOperate q rw _ _ => [.schedule, .queuePended q rw]
  | .eventRead e mask mode timeout => [.eventReadLocked e mask mode timeout]
  | .eventReadLocked e mask mode _ => [.schedule, .eventPended e mask mode]
  | _ => []

/-- A call that may wait ends, or leaves its piece: `LOS_EventRead` behind its checks, the others to wait. -/
theorem State.run_opens_cases (k : State) (hc : c.opens = true) :
    (k.Adds (k.run c) ∧ (k.run c).alarm ≤ k.alarm) ∨
      ∃ m : State, k.run c = m.push c.leaves ∧ m.todo = k.todo ∧ m.runTask = k.runTask ∧
        (c.times = true → k.waits c) ∧ (c.times = false → m.alarm ≤ k.alarm) := by
  cases c with
  | semPend i timeout =>
    change (k.Adds (k.semPend i timeout) ∧ _) ∨ ∃ m, k.semPend i timeout = _ ∧ _
    rcases k.semPend_cases i timeout with ⟨e, -, heq⟩ | ⟨-, -, heq⟩ | ⟨hw, heq⟩
    · exact .inl ⟨heq ▸ .same rfl, (congrArg (·.alarm) heq).le⟩
    · exact .inl ⟨heq ▸ .same rfl, (congrArg (·.alarm) heq).le⟩
    · exact .inr ⟨_, heq, rfl, taskWait_runTask _ _ _, fun _ => hw, nofun⟩
  | muxPend i timeout =>
    change (k.Adds (k.muxPend i timeout) ∧ _) ∨ ∃ m, k.muxPend i timeout = _ ∧ _
    rcases k.muxPend_cases i timeout with ⟨e, -, heq⟩ | ⟨-, -, heq⟩ | ⟨-, -, -, heq⟩ | ⟨hw, ⟨-, heq⟩ | ⟨o, -, heq⟩⟩
    · exact .inl ⟨heq ▸ .same rfl, (congrArg (·.alarm) heq).le⟩
    · exact .inl ⟨heq ▸ .same rfl, (congrArg (·.alarm) heq).le⟩
    · exact .inl ⟨heq ▸ .same rfl, (congrArg (·.alarm) heq).le⟩
    · exact .inl ⟨heq ▸ .same rfl, (congrArg (·.alarm) heq).le⟩
    refine .inr ⟨_, heq, ?_, (taskWait_runTask _ _ _).trans (k.lent_runTask i o), fun _ => hw, nofun⟩
    unfold lent
    dsimp only
    split_ifs <;> rfl
  | queueOperate q rw size timeout =>
    change (k.Adds (k.queueOperate q rw size timeout) ∧ _) ∨ ∃ m, k.queueOperate q rw size timeout = _ ∧ _
    rcases k.queueOperate_cases q rw size timeout with ⟨e, -, heq⟩ | ⟨-, -, heq⟩ | ⟨hw, heq⟩
    · exact .inl ⟨heq ▸ .same rfl, (congrArg (·.alarm) heq).le⟩
    · refine .inl ⟨?_, (congrArg (·.alarm) heq).le.trans ((k.queueTaken q rw).sinks_queueFinish q rw).alarm⟩
      rw [heq]
      exact .ite (k.adds_one rfl (todo_wakeFirst _ _ _)) (.same rfl)
    · exact .inr ⟨_, heq, rfl, taskWait_runTask _ _ _, fun _ => hw, nofun⟩
  | eventRead e mask mode timeout =>
    dsimp only [run, eventRead]
    split
    · split_ifs
      · exact .inl ⟨.same rfl, le_rfl⟩
      · exact .inr ⟨k, rfl, rfl, rfl, nofun, fun _ => le_rfl⟩
    · exact .inl ⟨.same rfl, le_rfl⟩
  | eventReadLocked e mask mode timeout =>
    change (k.Adds (k.eventReadLocked e mask mode timeout) ∧ _) ∨
      ∃ m, k.eventReadLocked e mask mode timeout = _ ∧ _
    rcases k.eventReadLocked_cases e mask mode timeout with ⟨-, heq⟩ | heq | ⟨hw, heq⟩
    · refine .inl ⟨?_, (congrArg (·.alarm) heq).le.trans (k.sinks_eventPoll e mask mode).alarm⟩
      rw [heq]
      unfold eventPoll
      dsimp only
      split_ifs <;> exact .same rfl
    · exact .inl ⟨heq ▸ .same rfl, (congrArg (·.alarm) heq).le⟩
    · exact .inr ⟨_, heq, rfl, taskWait_runTask _ _ _, fun _ => hw, nofun⟩
  | _ => cases hc

/-- A piece with which a call ends has been left by a call that waits, or by `LOS_EventRead` behind
its checks. -/
theorem State.mem_run_opens (k : State) {u : Nat} {c c' : Sec} (hc : c.opens = true)
    (hend : c'.ends = true) (h : c' ∈ (k.run c).todo u) :
    c' ∈ k.todo u ∨ (c' ∈ c.leaves ∧ u = k.runTask ∧ (c.times = true → k.waits c)) := by
  rcases k.run_opens_cases hc with ⟨hadds, -⟩ | ⟨m, heq, htodo, hrun, hwaits, -⟩
  · exact .inl (hadds u c' hend h)
  · rw [heq] at h
    exact (k.mem_todo_of_push h htodo).imp_right fun h => ⟨h.1, h.2.trans hrun, hwaits⟩

/-! ## What a piece of code leaves the other tasks -/

section
variable {k k' : State} {v v' : View} {c : Sec} {l : Label} {u : Nat}

/-- A task that has not ended. -/
def Sched.Live (s : Sched) (t : Nat) : Prop := (s.st t).exit = false ∧ (s.st t).unused = false
  deriving Decidable

theorem live_of_life {s s' : Sched} (h : (s'.tcb u).life.still = (s.tcb u).life.still) (hlive : s'.Live u) :
    s.Live u :=
  ⟨(congrArg Life.exit h).symm.trans hlive.1, (congrArg Life.unused h).symm.trans hlive.2⟩

theorem Wiped.not_live {t : Nat} (h : Wiped t v) : ¬v.s.Live t := by
  rintro ⟨-, hu⟩
  unfold st at hu
  rw [h.tcb] at hu
  cases hu

variable {at? : Option Sched}

theorem Switches.still (h : Switches at? k v k' v') (u : Nat) :
    (v'.s.tcb u).life.still = (v.s.tcb u).life.still := by
  obtain ⟨v1, hcalm, hmoves⟩ := h.moves
  have h1 := congrArg Life.still (hcalm.life u)
  rcases hmoves with rfl | ⟨new, M, hsw⟩
  · exact h1
  · exact (hsw.still u).trans h1

/-- A task that has not ended was there before, unless it has just been created. -/
theorem Ran.live (h : Ran c k v v') (heq : v.s = k.toSched) (hu : u < taskMaxNum) (hlive : v'.s.Live u) :
    v.s.Live u ∨ ∃ p enqueue, c = .newTaskInit u p enqueue := by
  have halter : ∀ {t : Nat}, Alter t k v (k.run c) v' → u ≠ t → v.s.Live u := fun halter hut =>
    live_of_life (congrArg Life.still (halter.life u hu hut)) hlive
  cases h with
  | tame _ h => exact .inl (live_of_life (congrArg Life.still (h.life u)) hlive)
  | @take t p enqueue _ eq alter =>
    refine .inl ?_
    by_cases hut : u = t
    · have hst : v'.s.st u = v.s.st u := by
        rw [alter.inv.1.eq, eq, heq]
        rfl
      unfold Live at hlive ⊢
      rwa [hst] at hlive
    · exact halter alter hut
  | @init t p enqueue sec alter =>
    by_cases hut : u = t
    · exact .inr ⟨p, enqueue, hut ▸ sec⟩
    · exact .inl (halter alter hut)
  | @give t _ alter _ wiped | @recycle t _ _ alter _ wiped | @join t _ _ alter _ wiped =>
    by_cases hut : u = t
    · exact absurd (hut ▸ hlive) wiped.not_live
    · exact .inl (halter alter hut)
  | free _ _ eq => exact .inl (eq ▸ hlive)
  | @detach t _ alter _ _ _ life =>
    refine .inl ?_
    by_cases hut : u = t
    · subst hut
      exact ⟨(congrArg Life.exit life).symm.trans hlive.1, (congrArg Life.unused life).symm.trans hlive.2⟩
    · exact halter alter hut
  | @delete t _ _ alter deleted =>
    refine .inl ?_
    by_cases hut : u = t
    · subst hut
      have hexit : (v'.s.tcb u).life.exit = false := hlive.1
      cases deleted with
      | stays _ _ _ life | recycled _ _ _ life | kept _ _ _ life => simp [life] at hexit
      | freed _ _ wiped => exact absurd hlive wiped.not_live
    · exact halter alter hut
  | switch _ h => exact .inl (live_of_life (h.still u) hlive)

/-- The other tasks have the same left to do, unless they are deleted or just created. -/
theorem Ran.todo_of_ne (h : Ran c k v v') (hu : u ≠ k.runTask) (hmax : u < taskMaxNum) :
    (k.run c).todo u = k.todo u ∨ ((k.run c).todo u = [] ∧
      ((¬v'.s.Live u ∧ c = .taskDelete u) ∨ ∃ p enqueue, c = .newTaskInit u p enqueue)) := by
  cases h with
  | tame _ h =>
    obtain ⟨l, -, hl⟩ := h.todo
    rw [hl, update_of_ne hu]
    exact .inl rfl
  | take _ eq | recycle _ eq | join _ eq =>
    rw [eq]
    exact .inl (update_of_ne hu ..)
  | @init t p enqueue sec =>
    subst sec
    change (k.newTaskInit t p enqueue).todo u = k.todo u ∨ _
    rw [show (k.run (.newTaskInit t p enqueue)).todo = _ from k.newTaskInit_todo t p enqueue,
      k.newTaskInit_todo t p enqueue]
    by_cases hfails : p.fails = true
    · rw [if_pos hfails]
      exact .inl (update_of_ne hu ..)
    rw [if_neg hfails, update_of_ne hu]
    by_cases hut : u = t
    · subst hut
      exact .inr ⟨update_self .., .inr ⟨p, enqueue, rfl⟩⟩
    · exact .inl (update_of_ne hut ..)
  | give sec =>
    subst sec
    exact .inl rfl
  | @free p sec =>
    subst sec
    refine .inl ?_
    dsimp only [run, memFree]
    split_ifs <;> rfl
  | detach _ _ _ _ _ _ same => exact .inl (congrFun same.2.1 u)
  | @delete t sec _ _ deleted =>
    subst sec
    cases deleted with
    | stays run _ _ _ _ todo =>
      rw [todo, run, update_of_ne hu]
      exact .inl rfl
    | recycled run _ _ _ _ todo =>
      rw [todo, run, update_of_ne (Nat.ne_of_lt hmax), update_of_ne hu]
      exact .inl rfl
    | kept _ _ _ life _ todo =>
      rw [todo, update_of_ne hu]
      by_cases hut : u = t
      · subst hut
        refine .inr ⟨update_self .., .inl ⟨fun hlive => ?_, rfl⟩⟩
        have hexit : (v'.s.tcb u).life.exit = false := hlive.1
        simp [life] at hexit
      · exact .inl (update_of_ne hut ..)
    | freed _ _ wiped _ todo =>
      rw [todo, update_of_ne hu]
      by_cases hut : u = t
      · subst hut
        exact .inr ⟨update_self .., .inl ⟨wiped.not_live, rfl⟩⟩
      · exact .inl (update_of_ne hut ..)
  | switch _ h =>
    obtain ⟨s', hs'⟩ := h.same
    rw [hs']
    exact .inl rfl

/-- No task is ended behind its back: the control block that goes back to the free list, because
there was no memory for a stack, is of no task that is in a call. -/
def State.Unharmed (k : State) : Sec → Prop
  | .insertTCBToFreeList t => k.todo t = []
  | _ => True

instance State.decidableUnharmed (k : State) (c : Sec) : Decidable (k.Unharmed c) := by
  apply Sec.casesOn (motive := fun c => Decidable (k.Unharmed c)) c <;> intros <;>
    dsimp only [Unharmed] <;> infer_instance

/-- What a step needs that the kernel does not check, in a run in which no task is ended so. -/
def State.Orderly (k : State) (l : Label) : Prop :=
  k.Careful l ∧ ∀ c ∈ k.secOf l, k.Unharmed c
  deriving Decidable

theorem Switches.taskScheduled (h : Switches at? k v k' v') :
    v'.s.taskScheduled = v.s.taskScheduled := by
  obtain ⟨v1, hcalm, hmoves⟩ := h.moves
  have h1 : v1.s.taskScheduled = v.s.taskScheduled := congrArg Ctl.taskScheduled hcalm.ctl
  rcases hmoves with rfl | ⟨new, M, hsw⟩
  · exact h1
  · exact (congrArg Ctl.taskScheduled hsw.ctl).trans h1

theorem Ran.taskScheduled (h : Ran c k v v') : v'.s.taskScheduled = v.s.taskScheduled := by
  cases h with
  | tame _ h => exact h.fixed.2
  | free _ _ eq => rw [eq]
  | take _ _ alter | init _ alter | give _ alter | recycle _ _ alter | join _ _ alter
  | detach _ alter | delete _ _ alter => exact alter.fixed.2
  | switch _ h => exact h.taskScheduled

/-- A piece of code that does not end a task leaves its life alone, but for `LOS_TaskDetach`. -/
theorem Ran.life_of_live (h : Ran c k v v') (hN : Next c k v) (hcare : k.CarefulSec c) (hu : u < taskMaxNum)
    (hlive : v.s.Live u) (hdel : c = .taskDelete u → k.deletes u = false) (hgive : c ≠ .insertTCBToFreeList u) :
    (v'.s.tcb u).life.still = (v.s.tcb u).life.still ∨
      c = .taskDetach u ∧ (v'.s.tcb u).life = { (v.s.tcb u).life with joinable := false } := by
  have halter : ∀ {t : Nat}, Alter t k v (k.run c) v' → u ≠ t →
      (v'.s.tcb u).life.still = (v.s.tcb u).life.still := fun halter hut =>
    congrArg Life.still (halter.life u hu hut)
  have hused : (v.s.st u).unused ≠ true := by simp [hlive.2]
  cases h with
  | tame _ h => exact .inl (congrArg Life.still (h.life u))
  | @take t p enqueue _ eq alter =>
    have htcb : v'.s.tcb u = v.s.tcb u := by
      rw [alter.inv.1.eq, eq, hN.eq]
      rfl
    rw [htcb]
    exact .inl rfl
  | @init t p enqueue sec alter =>
    refine .inl (halter alter ?_)
    rintro rfl
    subst sec
    exact hused (hN.holds u rfl).2.1
  | @give t sec alter _ wiped =>
    refine .inl (halter alter ?_)
    rintro rfl
    exact hgive sec
  | @recycle t sec _ alter pl =>
    refine .inl (halter alter ?_)
    rintro rfl
    exact hused ((v.placed.task u hu).recycled pl).1
  | @join t sec _ alter =>
    refine .inl (halter alter ?_)
    rintro rfl
    subst sec
    have hexit : (k.st u).exit = true := hcare.1
    simp [← hN.eq, hlive.1] at hexit
  | free _ _ eq =>
    rw [eq]
    exact .inl rfl
  | @detach t sec alter _ _ _ life =>
    by_cases hut : u = t
    · subst hut
      exact .inr ⟨sec, life⟩
    · exact .inl (halter alter hut)
  | @delete t sec deletes alter =>
    refine .inl (halter alter ?_)
    rintro rfl
    simp [hdel sec] at deletes
  | switch _ h => exact .inl (h.still u)

/-- A task ends by `LOS_TaskDelete` only, unless its control block is given back. -/
theorem Ran.stays_live (h : Ran c k v v') (hN : Next c k v) (hcare : k.CarefulSec c) (hu : u < taskMaxNum)
    (hlive : v.s.Live u) (hdel : c = .taskDelete u → k.deletes u = false)
    (hgive : c ≠ .insertTCBToFreeList u) : v'.s.Live u := by
  rcases h.life_of_live hN hcare hu hlive hdel hgive with hstill | ⟨-, hlife⟩
  · exact live_of_life hstill.symm hlive
  · exact ⟨(congrArg Life.exit hlife).trans hlive.1, (congrArg Life.unused hlife).trans hlive.2⟩

/-- Nothing is left of the calls of a task that is deleted. -/
theorem State.not_mem_taskDelete {t : Nat} {c' : Sec} (hdel : k.deletes t = true) (hend : c'.ends = true) :
    c' ∉ (k.taskDelete t).todo t := by
  intro h
  rcases k.taskDelete_eq t with ⟨-, heq⟩ | ⟨hno, -⟩
  · rw [heq] at h
    have hmem : c' ∈ (k.ended t (k.lockFor t)).todo t := adds_buried _ t t c' hend h
    simp [show (k.ended t (k.lockFor t)).todo t = [] from setTodo_self _ _ _] at hmem
  · simp [hdel] at hno

/-! ## The invariant -/

/-- A piece with which a call ends is the last one; a task that waits with a timeout, or has been
told that its time was up, has left a piece that looks at the bit. -/
structure Await (k : State) : Prop where
  last : ∀ u < taskMaxNum, ∀ c ∈ k.todo u, c.ends = true → k.todo u = [.schedule, c] ∨ k.todo u = [c]
  alarm : ∀ u < taskMaxNum, k.toSched.Live u → k.alarm u ≠ (false, false) →
    ∃ c ∈ k.todo u, c.pended = true

/-- A step that executes code of the running task, and what was left of its calls before. -/
theorem step_todo (hstep : Kernel.step k l = some k') (hsec : k.secOf l = some c) :
    (k.todo k.runTask = [] ∧ (k.before l).todo k.runTask = []) ∨
      (l = .cont ∧ k.todo k.runTask = c :: (k.before l).todo k.runTask) := by
  obtain ⟨-, hstep⟩ := Option.ite_none_left_eq_some.mp hstep
  cases l with
  | call c0 =>
    dsimp only at hstep
    split_ifs at hstep with hmay
    unfold mayCall at hmay
    rw [and_eq_true, and_eq_true, List.isEmpty_iff] at hmay
    exact .inl ⟨hmay.1.2, hmay.1.2⟩
  | cont =>
    refine .inr ⟨rfl, ?_⟩
    have hhead : (k.todo k.runTask).head? = some c := hsec
    rw [show (k.before .cont).todo k.runTask = (k.todo k.runTask).tail from setTodo_self k _ _]
    exact (eq_cons_of_mem_head? hhead)
  | tick | clock | start => cases hsec

/-- Code that is no call has been left by one. -/
theorem mem_todo_of_not_call (hstep : Kernel.step k l = some k') (hsec : k.secOf l = some c)
    (hc : c.isCall = false) : c ∈ k.todo k.runTask := by
  obtain ⟨-, hstep⟩ := Option.ite_none_left_eq_some.mp hstep
  cases l with
  | call c0 =>
    obtain rfl : c0 = c := Option.some.inj hsec
    dsimp only at hstep
    split_ifs at hstep with hmay
    unfold mayCall at hmay
    simp [hc] at hmay
  | cont => exact mem_of_mem_head? hsec
  | tick | clock | start => cases hsec

/-- Where code of the running task begins, a piece that ends a call is what begins, or
`LOS_Schedule` begins and the piece is all that is left. -/
theorem Await.head (hA : Await k) (hrun : k.runTask < taskMaxNum) (hstep : Kernel.step k l = some k')
    (hsec : k.secOf l = some c) {c' : Sec} (hmem : c' ∈ k.todo k.runTask) (hend : c'.ends = true) :
    (c = c' ∧ (k.before l).todo k.runTask = []) ∨
      (c = .schedule ∧ (k.before l).todo k.runTask = [c']) := by
  rcases step_todo hstep hsec with ⟨h, -⟩ | ⟨-, h⟩
  · simp [h] at hmem
  rcases hA.last _ hrun c' hmem hend with h' | h' <;> rw [h, cons.injEq] at h'
  · exact .inr h'
  · exact .inl h'

theorem State.todo_push_self (k : State) {m : State} {r : List Sec} (htodo : k.todo k.runTask = [])
    (hrun : (m.push r).runTask = k.runTask) (heq : m.todo = k.todo) : (m.push r).todo k.runTask = r := by
  change update m.todo m.runTask (r ++ m.todo m.runTask) k.runTask = r
  rw [show m.runTask = k.runTask from hrun, update_self, heq, htodo, append_nil]

/-- What a call that may wait leaves: nothing to end with and no bit raised, or the one piece behind
its checks, or the piece behind its wait. -/
theorem State.run_opens (k : State) (hc : c.opens = true) (htodo : k.todo k.runTask = []) :
    ((∀ c' ∈ (k.run c).todo k.runTask, c'.ends = false) ∧
        (k.run c).alarm k.runTask ≤ k.alarm k.runTask) ∨
      (∃ c', (k.run c).todo k.runTask = [c'] ∧ (k.run c).alarm k.runTask ≤ k.alarm k.runTask) ∨
      ∃ c', c'.pended = true ∧ (k.run c).todo k.runTask = [.schedule, c'] := by
  rcases k.run_opens_cases hc with ⟨hadds, halarm⟩ | ⟨m, hpush, heq, hrun, -, halarm⟩
  · refine .inl ⟨fun c' hmem => ?_, halarm k.runTask⟩
    by_contra hend
    have hmem := hadds _ c' (by simpa using hend) hmem
    simp [htodo] at hmem
  have hleft : (k.run c).todo k.runTask = c.leaves := by
    rw [hpush]
    exact k.todo_push_self htodo hrun heq
  refine .inr ?_
  rw [hleft]
  cases c with
  | eventRead e mask mode timeout =>
    refine .inl ⟨_, rfl, ?_⟩
    rw [hpush]
    exact halarm rfl k.runTask
  | semPend | muxPend | queueOperate | eventReadLocked => exact .inr ⟨_, rfl, rfl⟩
  | _ => cases hc

/-! ## The tick -/

/-- A task that does not wait is told nothing when its time is up. -/
theorem Sched.alarm_expire (s : Sched) (t : Nat) (hu : (s.st u).pend = false) :
    (((s.deleteNodeSortLink t).wakePendTimeTask t).st u).pend = false ∧
      ((s.deleteNodeSortLink t).wakePendTimeTask t).alarm u ≤ s.alarm u := by
  have hst : ∀ u, (s.deleteNodeSortLink t).st u = s.st u := by
    intro u
    unfold deleteNodeSortLink st
    by_cases hut : u = t
    · rw [hut, setTCB_self]
      rfl
    · rw [setTCB_of_ne hut]
      rfl
  have halarm : (s.deleteNodeSortLink t).alarm u = s.alarm u :=
    congrArg (fun st : TaskStatus => (st.pendTime, st.timeout)) (hst u)
  rw [← halarm]
  rw [← hst u] at hu
  generalize s.deleteNodeSortLink t = s1 at hu ⊢
  by_cases hut : u = t
  · subst hut
    refine ⟨(wakePendTimeTask_self s1 u).1, ?_⟩
    have htime : (s1.timeOut u).alarm ≤ s1.alarm := by
      unfold timeOut
      rw [if_neg (by simp [hu])]
      exact (Sinks.setSt (.same rfl) (by exact fun _ => ⟨rfl, Bool.false_le _⟩)).alarm
    unfold wakePendTimeTask
    dsimp only
    split_ifs
    · exact ((sinks_taskEnQueue _ u).alarm u).trans (htime u)
    · exact htime u
    · exact le_rfl
  have htcb := wakePendTimeTask_tcb_of_ne s1 t hut
  unfold st alarm
  rw [htcb]
  exact ⟨hu, le_rfl⟩

theorem Sched.alarm_scanLoop (fuel : Nat) : ∀ s : Sched, (s.st u).pend = false →
    (scanLoop fuel s).alarm u ≤ s.alarm u := by
  induction fuel with
  | zero => exact fun _ _ => le_rfl
  | succ fuel ih =>
    intro s hu
    unfold scanLoop
    split_ifs
    · exact le_rfl
    split
    · split_ifs
      · obtain ⟨hpend, halarm⟩ := s.alarm_expire _ hu
        exact (ih _ hpend).trans halarm
      · exact le_rfl
    · exact le_rfl

/-- A task that has been told that its time was up is not told otherwise by the tick. -/
theorem Sched.timeout_scanLoop (fuel : Nat) : ∀ s : Sched, (s.kept u).2 = true →
    ((scanLoop fuel s).kept u).2 = true := by
  induction fuel with
  | zero => exact fun _ h => h
  | succ fuel ih =>
    intro s h
    unfold scanLoop
    split_ifs
    · exact h
    split
    · rename_i t _
      split_ifs
      · refine ih _ ?_
        rw [← kept_of_held (sinks_deleteNodeSortLink s t).held] at h
        by_cases hut : u = t
        · subst hut
          rw [(wakePendTimeTask_self _ u).2, h, Bool.or_true]
        · unfold kept
          rwa [wakePendTimeTask_tcb_of_ne _ t hut]
      · exact h
    · exact h

/-- Behind the scan for tasks whose time is up, the tick only sinks. -/
theorem Sched.sinks_schedTickHandler (s : Sched) :
    ∃ s1, (s1 = s ∨ s1 = s.scanTimerList) ∧ s.schedTickHandler.Sinks s1 := by
  by_cases hstart : s.taskScheduled = true
  · obtain ⟨s1, hs1⟩ : ∃ s1, s1 = if s.schedResponseID = osInvalid then s.scanTimerList else s := ⟨_, rfl⟩
    refine ⟨s1, ?_, ?_⟩
    · rw [hs1]
      split_ifs
      · exact .inr rfl
      · exact .inl rfl
    have hticked : s1.ticked.Sinks s1 := (sinks_timeSliceUpdate s1 s1.runTask s1.currTime).tcb rfl
    rw [schedTickHandler_eq hstart hs1]
    split_ifs
    · exact .same rfl
    · exact (sinks_archTaskSchedule _).trans hticked
    · exact (sinks_updateExpireTime _).trans hticked
  refine ⟨s, .inl rfl, ?_⟩
  unfold schedTickHandler
  rw [if_pos (by simpa using hstart)]
  exact .same rfl

theorem Sched.timeout_schedTickHandler {s : Sched} (h : (s.kept u).2 = true) :
    (s.schedTickHandler.kept u).2 = true := by
  obtain ⟨s1, hs1, hsinks⟩ := s.sinks_schedTickHandler
  rw [kept_of_held hsinks.held]
  rcases hs1 with rfl | rfl
  · exact h
  · exact timeout_scanLoop taskMaxNum s h

theorem le_none {a : Bool × Bool} (h : a ≤ (false, false)) : a = (false, false) :=
  le_antisymm h ⟨Bool.false_le _, Bool.false_le _⟩

/-- The tick tells a task that its time was up only if the task waits with a timeout. -/
theorem Core.tick_alarm (hC : Core k v) (hu : u < taskMaxNum) (h : k.alarm u = (false, false)) :
    k.toSched.schedTickHandler.alarm u = (false, false) := by
  refine le_none ?_
  rw [← h, ← hC.eq]
  rw [← hC.eq] at h
  obtain ⟨s1, hs1, hsinks⟩ := v.s.sinks_schedTickHandler
  refine (hsinks.alarm u).trans ?_
  rcases hs1 with rfl | rfl
  · exact le_rfl
  cases hsl : v.sl u with
  | false =>
    obtain ⟨v1, hs1, -, hsame⟩ := v.scanTimerList (m := nobody) (w := noList)
    unfold alarm
    rw [← hs1, hsame u hsl]
  | true =>
    -- it is in the sort link because it delays itself, so it waits for nothing
    have hT := v.placed.task u hu
    refine alarm_scanLoop taskMaxNum v.s ?_
    rcases (hT.sort.mp hsl).2 with hd | hp
    · rw [eq_false_iff]
      intro hpend
      simp [(hT.pendX hpend).1] at hd
    · have : (v.s.alarm u).1 = true := hp
      simp [h] at this

/-! ## Every step keeps it -/

/-- A task that has come back from its wait and looked at the bit has both bits clear. -/
theorem Next.pended_alarm (hN : Next c k v) (hc : c.pended = true)
    (hstart : k.taskScheduled = true) : (k.run c).alarm k.runTask = (false, false) := by
  have hgoes : (k.st k.runTask).stops = false :=
    hN.goes (by rintro rfl; cases hc) hstart
  have hpend : (k.st k.runTask).pendTime = false := (TaskStatus.stops_eq_false hgoes).1
  -- with the bit set the task clears it
  have htimed : ∀ e, (k.timedOut e).alarm k.runTask = (false, false) := by
    intro e
    change ((k.toSched.setSt k.runTask fun st => { st with timeout := false }).tcb k.runTask).alarm = _
    unfold setSt
    rw [setTCB_self]
    exact Prod.ext hpend rfl
  have hclear : (k.st k.runTask).timeout = false → k.alarm k.runTask = (false, false) := fun ht =>
    Prod.ext hpend ht
  have hor : ∀ (e : ErrNo) (m : State), m.alarm ≤ k.alarm →
      (if (k.st k.runTask).timeout then k.timedOut e else m).alarm k.runTask = (false, false) := by
    intro e m hm
    split_ifs with ht
    · exact htimed e
    · exact le_none ((hm k.runTask).trans (le_of_eq (hclear (eq_false_iff.mpr ht))))
  cases c with
  | semPended | muxPended => exact hor _ (k.done .ok) le_rfl
  | queuePended q rw => exact hor _ _ (k.sinks_queueFinish q rw).alarm
  | eventPended e mask mode => exact hor _ _ (k.sinks_eventPoll e mask mode).alarm
  | _ => cases hc

theorem State.newTaskInit_alarm (k : State) (t : Nat) (p : TskInitParam) (enqueue : Bool) :
    (k.newTaskInit t p enqueue).alarm t = (false, false) := by
  rw [k.newTaskInit_toSched]
  change ((k.toSched.setTCB t fun c => c.created p k.allocated).tcb t).alarm = _
  rw [setTCB_self]
  rfl

@[simp] theorem State.before_toSched (k : State) (l : Label) : (k.before l).toSched = k.toSched := by
  cases l <;> rfl

theorem State.before_todo_of_ne (k : State) (l : Label) (hu : u ≠ k.runTask) :
    (k.before l).todo u = k.todo u := by
  cases l with
  | cont => exact setTodo_of_ne k hu _
  | call | tick | clock | start => rfl

theorem Ran.runTask_opens (h : Ran c k v v') (ho : c.opens = true) : (k.run c).runTask = k.runTask := by
  cases h with
  | tame _ h => exact h.runTask
  | take sec | init sec | give sec | free sec | recycle sec | join sec | detach sec | delete sec
  | switch sec =>
    subst sec
    cases ho

/-- What the running task has left, behind a piece of code. -/
theorem Await.run_self (hA : Await k) (hstep : Kernel.step k l = some k') (hsec : k.secOf l = some c)
    (hN : Next c (k.before l) v) (hsame : c.opens = true → ((k.before l).run c).runTask = k.runTask)
    (hrun : k.runTask < taskMaxNum) (hstart : k.taskScheduled = true) :
    (∀ c' ∈ ((k.before l).run c).todo k.runTask, c'.ends = true →
      ((k.before l).run c).todo k.runTask = [.schedule, c'] ∨
        ((k.before l).run c).todo k.runTask = [c']) ∧
      (k.toSched.Live k.runTask → ((k.before l).run c).alarm k.runTask ≠ (false, false) →
        ∃ c' ∈ ((k.before l).run c).todo k.runTask, c'.pended = true) := by
  have hk : (k.before l).toSched = k.toSched := k.before_toSched l
  have hrun1 : (k.before l).runTask = k.runTask := congrArg runTask hk
  have halarm1 : (k.before l).alarm = k.alarm := congrArg Sched.alarm hk
  have hle : c.times = false → ((k.before l).run c).alarm k.runTask ≤ k.alarm k.runTask := by
    intro ht
    rw [← halarm1]
    exact (k.before l).run_alarm c (Nat.ne_of_lt hrun) fun hc => by rw [ht] at hc; cases hc
  by_cases hs : c = .schedule
  · subst hs
    have htodo : ((k.before l).run .schedule).todo = (k.before l).todo := rfl
    rw [htodo]
    refine ⟨fun c' hc' hend => ?_, fun hlive hne => ?_⟩
    · rcases step_todo hstep hsec with ⟨-, h⟩ | ⟨-, h⟩
      · simp [h] at hc'
      · rcases hA.head hrun hstep hsec (h ▸ mem_cons_of_mem _ hc') hend with ⟨rfl, -⟩ | ⟨-, h'⟩
        · cases hend
        · exact .inr h'
    have hne' : k.alarm k.runTask ≠ (false, false) := fun hc => hne (le_none (hc ▸ hle rfl))
    obtain ⟨c', hc', hp⟩ := hA.alarm k.runTask hrun hlive hne'
    rcases hA.head hrun hstep hsec hc' (Sec.ends_of_pended hp) with ⟨rfl, -⟩ | ⟨-, h'⟩
    · cases hp
    · exact ⟨c', h' ▸ mem_singleton_self c', hp⟩
  -- nothing to end with is left but the piece that runs now
  have hrest : ∀ c' ∈ (k.before l).todo k.runTask, c'.ends = false := by
    intro c' hc'
    by_contra hend
    rw [not_eq_false] at hend
    rcases step_todo hstep hsec with ⟨-, h⟩ | ⟨-, h⟩
    · simp [h] at hc'
    · rcases hA.head hrun hstep hsec (h ▸ mem_cons_of_mem c hc') hend with ⟨-, hnil⟩ | ⟨hsch, -⟩
      · simp [hnil] at hc'
      · exact hs hsch
  have hlive : k.toSched.Live k.runTask := by
    have hgoes := hN.goes hs (by rwa [hk])
    rw [hk] at hgoes
    obtain ⟨-, -, -, -, he, hu⟩ := TaskStatus.stops_eq_false hgoes
    exact ⟨he, hu⟩
  have hclear : c.pended = false → k.alarm k.runTask = (false, false) := by
    intro hp
    by_contra hne
    obtain ⟨c', hc', hp'⟩ := hA.alarm k.runTask hrun hlive hne
    rcases hA.head hrun hstep hsec hc' (Sec.ends_of_pended hp') with ⟨heq, -⟩ | ⟨hsch, -⟩
    · simp [heq, hp'] at hp
    · exact hs hsch
  by_cases ho : c.opens = true
  · have hp := Sec.pended_of_opens ho
    have hnil : (k.before l).todo (k.before l).runTask = [] := by
      rw [hrun1]
      rcases step_todo hstep hsec with ⟨-, h⟩ | ⟨-, h⟩
      · exact h
      have hend : c.ends = true := by
        unfold Sec.ends
        rw [ho, Bool.or_true]
      rcases hA.head hrun hstep hsec (h ▸ mem_cons_self) hend with ⟨-, h'⟩ | ⟨hsch, -⟩
      · exact h'
      · exact absurd hsch hs
    have hopens := (k.before l).run_opens ho hnil
    rw [hrun1, halarm1, hclear hp] at hopens
    rcases hopens with ⟨hno, hlow⟩ | ⟨c1, h1, hlow⟩ | ⟨c1, hp1, h1⟩
    · refine ⟨fun c' hc' hend => ?_, fun _ hne => absurd (le_none hlow) hne⟩
      simp [hno c' hc'] at hend
    · refine ⟨fun c' hc' _ => ?_, fun _ hne => absurd (le_none hlow) hne⟩
      rw [h1] at hc' ⊢
      rw [mem_singleton.mp hc']
      exact .inr rfl
    refine ⟨fun c' hc' hend => ?_, fun _ _ => ⟨c1, ?_, hp1⟩⟩
    · rw [h1] at hc' ⊢
      rcases mem_cons.mp hc' with rfl | hc'
      · cases hend
      · rw [mem_singleton.mp hc']
        exact .inl rfl
    · rw [h1]
      exact mem_cons_of_mem _ (mem_singleton_self c1)
  rw [not_eq_true] at ho
  refine ⟨fun c' hc' hend => ?_, fun _ hne => ?_⟩
  · simp [hrest c' ((k.before l).adds_run c ho _ c' hend hc')] at hend
  exfalso
  cases hp : c.pended with
  | true =>
    refine hne ?_
    rw [← hrun1]
    exact hN.pended_alarm hp (by rwa [hk])
  | false =>
    have ht : c.times = false := by
      rw [eq_false_iff]
      intro hc
      simp [Sec.opens_of_times hc] at ho
    exact hne (le_none (hclear hp ▸ hle ht))

/-- **Every careful step keeps `Await`.** -/
theorem Await.step (hA : Await k) (hR : Reached k v) (hstep : Kernel.step k l = some k')
    (h : Stepped k v l k' v') : Await k' := by
  cases h with
  | @ran c hsec hN eq hran =>
    subst eq
    have hk : (k.before l).toSched = k.toSched := k.before_toSched l
    have hrun1 : (k.before l).runTask = k.runTask := congrArg runTask hk
    have hs' : v'.s = ((k.before l).run c).toSched := hran.reached.1.eq
    have hs : v.s = (k.before l).toSched := hN.eq
    have hlive' : ∀ u < taskMaxNum, ((k.before l).run c).toSched.Live u →
        ((k.before l).run c).alarm u ≠ (false, false) → k.toSched.Live u := by
      intro u hu hlive hne
      rcases hran.live hs hu (hs' ▸ hlive) with h | ⟨p, enqueue, rfl⟩
      · rwa [hs, hk] at h
      · exact absurd ((k.before l).newTaskInit_alarm u p enqueue) hne
    have hself := fun hrun => hA.run_self hstep hsec hN (fun ho => (hran.runTask_opens ho).trans hrun1) hrun
      (hR.1.started hrun)
    refine ⟨fun u hu c' hc' hend => ?_, fun u hu hlive hne => ?_⟩
    · by_cases hur : u = k.runTask
      · subst hur
        exact (hself hu).1 c' hc' hend
      rcases hran.todo_of_ne (hrun1 ▸ hur) hu with heq | ⟨hnil, -⟩
      · rw [heq, k.before_todo_of_ne l hur] at hc' ⊢
        exact hA.last u hu c' hc' hend
      · simp [hnil] at hc'
    by_cases hur : u = k.runTask
    · subst hur
      exact (hself hu).2 (hlive' _ hu hlive hne) hne
    have hle := (k.before l).run_alarm c (Nat.ne_of_lt hu) fun _ => hrun1 ▸ hur
    rw [hk] at hle
    obtain ⟨c', hc', hp⟩ := hA.alarm u hu (hlive' u hu hlive hne) fun hc => hne (le_none (hc ▸ hle))
    refine ⟨c', ?_, hp⟩
    rcases hran.todo_of_ne (hrun1 ▸ hur) hu with heq | ⟨-, ⟨hno, -⟩ | ⟨p, enqueue, rfl⟩⟩
    · rwa [heq, k.before_todo_of_ne l hur]
    · exact absurd (hs' ▸ hlive) hno
    · exact absurd ((k.before l).newTaskInit_alarm u p enqueue) hne
  | tick label eq h =>
    subst eq
    refine ⟨hA.last, fun u hu hlive hne => hA.alarm u hu ?_ fun hc => hne (hR.1.tick_alarm hu hc)⟩
    rw [← hR.1.eq]
    exact live_of_life (h.still u) (by rwa [h.reached.1.eq])
  | clock label eq frozen inv =>
    subst eq
    exact ⟨hA.last, hA.alarm⟩
  | @start new label before eq top h inv =>
    subst eq
    refine ⟨hA.last, fun u hu hlive hne => ?_⟩
    have heq : v'.s = k.toSched.start.halStartToRun := inv.1.eq
    have hst : k.toSched.start.halStartToRun.st u =
        if u = new then { TaskStatus.zero with running := true } else k.st u := by
      rw [← heq]
      split_ifs with hun
      · rw [hun, h.status]
      · rw [h.st hun, hR.1.eq]
    change k.toSched.start.halStartToRun.Live u at hlive
    change ((k.toSched.start.halStartToRun.st u).pendTime, (k.toSched.start.halStartToRun.st u).timeout) ≠
      (false, false) at hne
    unfold Live at hlive
    rw [hst] at hlive hne
    split_ifs at hlive hne with hun
    · exact absurd rfl hne
    · exact hA.alarm u hu hlive hne

theorem boot_await (sysClock tickPeriodMax : Nat) : Await (boot sysClock tickPeriodMax) := by
  have hB := boot_booted sysClock tickPeriodMax
  refine ⟨fun u _ c hc => ?_, fun u hu _ hne => absurd ?_ hne⟩
  · simp [hB.todo u] at hc
  · unfold alarm
    rw [hB.tcb u hu]
    split_ifs <;> rfl

/-- A task that has been told that its time was up, or waits with a timeout, is inside a call that waits. -/
theorem no_stale_timeout {sysClock tickPeriodMax : Nat} {run : List Label} {k : State}
    (hcare : Guarded step Careful (boot sysClock tickPeriodMax) run)
    (hrun : exec step (boot sysClock tickPeriodMax) run = some k) : ¬∃ t < taskMaxNum,
    k.Live t ∧ k.alarm t ≠ (false, false) ∧ ∀ c ∈ k.todo t, c.pended = false := by
  have hstep : ∀ k l k', (∃ v, Reached k v) ∧ Await k → k.Careful l → step k l = some k' →
      (∃ v, Reached k' v) ∧ Await k' := by
    rintro k l k' ⟨⟨v, hR⟩, hA⟩ hok hl
    obtain ⟨v', h⟩ := hR.step hok hl
    exact ⟨⟨v', h.reached⟩, hA.step hR hl h⟩
  obtain ⟨v, hv⟩ := (boot_booted sysClock tickPeriodMax).inv
  obtain ⟨-, hA⟩ := exec_inv_guarded hstep ⟨⟨v, hv.reached⟩, boot_await _ _⟩ hcare hrun
  rintro ⟨t, ht, hlive, hbits, hnone⟩
  obtain ⟨c, hc, hpended⟩ := hA.alarm t ht hlive hbits
  simp [hnone c hc] at hpended

end

theorem no_stale_timeout_semWaiter : ∃ k, exec step (boot 1000000 0xffffff) semWaiter = some k ∧
    k.alarm 1 = (true, false) ∧ ¬∀ c ∈ k.todo 1, c.pended = false := by
  obtain ⟨k, hk, halarm, hlive⟩ : ∃ k, exec step (boot 1000000 0xffffff) semWaiter = some k ∧
      k.alarm 1 = (true, false) ∧ (k.st 1).exit = false ∧ (k.st 1).unused = false := by
    decide +kernel
  exact ⟨k, hk, halarm, fun hnone => no_stale_timeout semWaiter_careful hk
    ⟨1, by decide, hlive, by simp [halarm], hnone⟩⟩

end LiteosM.Kernel
