import LiteosM.Kernel.Waiting

/-!
# The attributes of a task

`taskStatus` holds the scheduling state of a task and also what it is for good: joinable, with a stack to
free, a system task. `OsNewTaskInit` sets the first two, and `OsSwtmrTaskCreate` marks the task of the software
timers behind its `LOS_TaskCreate`. Every other write goes bit by bit, but for one: `HalStartToRun` of the port
assigns `OS_TASK_STATUS_RUNNING` to the task that `LOS_Start` has chosen.

* `Reached.attributes`, `Reached.exec_attributes`: what a step, and a run, leaves of them;
* **`attributes_persist`**: a task keeps them until it ends, if it is not started first with one of them set;
* `start_drops_attributes`: a joinable task that is started first cannot be joined, and its stack is not freed.
-/

namespace LiteosM.Kernel

open LiteosM.Lib List Option Sched State

/-- `OS_TASK_FLAG_JOINABLE`, `OS_TASK_FLAG_STACK_FREE` and `OS_TASK_FLAG_SYSTEM_TASK`. -/
structure Attributes where
  joinable : Bool
  stackFree : Bool
  systemTask : Bool
  deriving DecidableEq

/-- The attributes in a status word. -/
def TaskStatus.attributes (st : TaskStatus) : Attributes := ⟨st.joinable, st.stackFree, st.systemTask⟩

/-- A step of the kernel, or the last statement of `OsSwtmrTaskCreate`. -/
inductive AttrLabel where
  | kernel (l : Label)
  | mark (t : Nat)
  deriving DecidableEq

/-- `OsSwtmrTaskCreate` marks the task it has created. -/
def State.mark (k : State) (t : Nat) : State :=
  k.onSched (·.setSt t fun st => { st with systemTask := true })

/-- One step; a task is marked when it has been created and has not ended. -/
def attrStep (k : State) : AttrLabel → Option State
  | .kernel l => step k l
  | .mark t =>
    if k.halted = false ∧ t < taskMaxNum ∧ k.toSched.Live t then some (k.mark t) else none

/-- A condition on the steps of the kernel; a mark always meets it. -/
def OnKernel (ok : State → Label → Prop) (k : State) : AttrLabel → Prop
  | .kernel l => ok k l
  | .mark _ => True

instance {ok : State → Label → Prop} [∀ k l, Decidable (ok k l)] (k : State) (a : AttrLabel) :
    Decidable (OnKernel ok k a) := by
  cases a <;> dsimp only [OnKernel] <;> infer_instance

/-- The step is careful, does not end task `t`, and does not start it while it has an attribute. -/
def State.Retains (t : Nat) (k : State) (l : Label) : Prop :=
  k.Careful l ∧ (k.secOf l = some (.taskDelete t) → k.deletes t = false) ∧
    k.secOf l ≠ some (.insertTCBToFreeList t) ∧
    (l = .start → k.getTopTask = some t → (k.st t).attributes = ⟨false, false, false⟩)
  deriving Decidable

/-- The step does not detach task `t`. -/
def State.Attached (t : Nat) (k : State) (l : Label) : Prop := k.secOf l ≠ some (.taskDetach t)
  deriving Decidable

section
variable {k k' k'' : State} {v v' : View} {l : Label} {a : AttrLabel} {run : List AttrLabel} {t u : Nat}

theorem State.mark_st (k : State) (t u : Nat) : (k.mark t).st u =
    { k.st u with systemTask := (k.st u).systemTask || decide (u = t) } := by
  unfold State.mark onSched
  dsimp only
  by_cases hut : u = t
  · subst hut
    simp [setSt_st]
  · simp [Sched.st, setSt_of_ne hut, hut]

/-- A mark changes no bit that the invariant of the kernel is about. -/
theorem Reached.mark (hR : Reached k v) (ht : t < taskMaxNum) (hu : (k.st t).unused = false) :
    ∃ v', Reached (k.mark t) v' := by
  obtain ⟨hC, hgo⟩ := hR
  rw [← hC.eq] at hu
  have hT := v.placed.task t ht
  obtain ⟨v', hs, hchange, hpl, hL⟩ := v.change (v.s.setSt t fun st => { st with systemTask := true }) v.L
    (by rw [Function.update_eq_self]; exact v.placed.shape) v.placed.bits (fun u hu => setSt_of_ne hu _) rfl
    (fun _ => by rw [setSt_self]; exact hT.bits (hT.not_free hu) rfl rfl rfl rfl rfl rfl id .inl) (fun _ => rfl)
    fun _ _ => Iff.rfl
  have hst : v'.s.st t = { v.s.st t with systemTask := true } := by
    rw [hs]
    exact setSt_st ..
  have hheld := hC.todo.held_change hchange (hC.todo.not_held (.inr hu))
  have hpl' : v'.pl = v.pl := by
    funext u
    by_cases hut : u = t
    · rw [hut, hpl]
    · exact hchange.pl u hut
  refine ⟨v', ⟨by rw [hs, hC.eq]; rfl, ⟨?_, ?_⟩, ?_, ?_⟩, fun hfault hstart hstop => hgo hfault hstart ?_⟩
  · refine hchange.runOk hC.good.run ht (.inr ?_) ?_ ?_
    all_goals rw [hst]
    · exact ⟨rfl, rfl⟩
    · exact id
    · exact id
  · refine hchange.joinOk hC.good.join (fun _ => hpl' ▸ id) (.inr ?_) fun hj => ?_
    all_goals rw [hst] at *
    · exact ⟨rfl, rfl, rfl⟩
    · rw [hL]
      exact hC.good.join.init t ht hj
  · exact hC.ipc.same ⟨rfl, rfl, rfl, rfl, rfl, rfl⟩ (fun n _ hn => hL ▸ hn) fun _ _ _ => hpl' ▸ id
  · exact hC.todo.replace rfl (fun _ => .inl rfl) fun u t' c hc hh => (hheld u t' c hc hh).2
  · change ((k.mark t).st k.runTask).stops = true at hstop
    rwa [k.mark_st t] at hstop

theorem reached_attrStep (h : ∃ v, Reached k v) (hok : OnKernel State.Careful k a)
    (hstep : attrStep k a = some k') : ∃ v', Reached k' v' := by
  obtain ⟨v, hR⟩ := h
  cases a with
  | kernel l =>
    obtain ⟨v', h⟩ := hR.step hok hstep
    exact ⟨v', h.reached⟩
  | mark t =>
    obtain ⟨⟨-, ht, hlive⟩, rfl⟩ := guarded_inj hstep
    exact hR.mark ht hlive.2

/-- What is left of the attributes of task `t` behind a run: it has not ended, and only `LOS_TaskDetach` and a
mark have changed them. -/
structure Retained (t : Nat) (run : List AttrLabel) (k k' : State) : Prop where
  live : k'.toSched.Live t
  stackFree : (k'.st t).stackFree = (k.st t).stackFree
  systemTask : (k'.st t).systemTask = ((k.st t).systemTask || decide (.mark t ∈ run))
  joinable : Guarded attrStep (OnKernel (Attached t)) k run → (k'.st t).joinable = (k.st t).joinable

theorem Retained.cons (h : Retained t [a] k k') (hstep : attrStep k a = some k') (h' : Retained t run k' k'') :
    Retained t (a :: run) k k'' where
  live := h'.live
  stackFree := h'.stackFree.trans h.stackFree
  systemTask := by
    rw [h'.systemTask, h.systemTask, Bool.or_assoc, ← Bool.decide_or]
    simp
  joinable hatt := (h'.joinable (hatt.2 k' hstep)).trans (h.joinable ⟨hatt.1, fun _ _ => trivial⟩)

theorem not_marked (b : Bool) : b = (b || decide (AttrLabel.mark t ∈ [AttrLabel.kernel l])) := by simp

/-- A step of the kernel that leaves the attributes alone. -/
theorem retained_of_life (hlive : k.toSched.Live t)
    (h : (k'.tcb t).life.still = (k.tcb t).life.still) : Retained t [.kernel l] k k' where
  live := live_of_life h.symm hlive
  stackFree := congrArg Life.stackFree h
  systemTask := (congrArg Life.systemTask h).trans (not_marked _)
  joinable _ := congrArg Life.joinable h

/-- **What a step of the kernel leaves of them.** -/
theorem Stepped.attributes (h : Stepped k v l k' v') (heq : v.s = k.toSched) (ht : t < taskMaxNum)
    (hlive : k.toSched.Live t) (hok : k.Retains t l) : Retained t [.kernel l] k k' := by
  have heq' := h.reached.1.eq
  obtain ⟨hcare, hdel, hgive, hfirst⟩ := hok
  have hback : (v'.s.tcb t).life.still = (v.s.tcb t).life.still → Retained t [.kernel l] k k' := by
    rw [heq, heq']
    exact retained_of_life hlive
  cases h with
  | @ran c sec next eq ran =>
    have hdeletes : (k.before l).deletes t = k.deletes t := by
      unfold deletes checkTaskIDValid
      rw [k.before_toSched l]
    rcases ran.life_of_live next (hcare.before sec) ht (heq ▸ hlive)
      (fun hc => hdeletes.trans (hdel (hc ▸ sec))) fun hc => hgive (hc ▸ sec) with hstill | ⟨hc, hlife⟩
    · exact hback hstill
    · rw [heq, heq'] at hlife
      exact ⟨⟨(congrArg Life.exit hlife).trans hlive.1, (congrArg Life.unused hlife).trans hlive.2⟩,
        congrArg Life.stackFree hlife, (congrArg Life.systemTask hlife).trans (not_marked _),
        fun hatt => absurd (hc ▸ sec) hatt.1⟩
  | tick _ _ h => exact hback (h.still t)
  | clock _ _ frozen => exact hback (congrArg (fun c => c.life.still) (congrFun frozen.tcb t))
  | @start new label _ _ top h =>
    by_cases hnew : new = t
    · subst hnew
      have hnone := hfirst label top
      have hst := h.status
      rw [heq'] at hst
      have hattr : (k'.st new).attributes = (k.st new).attributes := by
        rw [hnone, hst]
        rfl
      exact ⟨by unfold Live; rw [hst]; exact ⟨rfl, rfl⟩, congrArg Attributes.stackFree hattr,
        (congrArg Attributes.systemTask hattr).trans (not_marked _), fun _ => congrArg Attributes.joinable hattr⟩
    · exact hback (congrArg (fun c => c.life.still) (h.tcb t (Ne.symm hnew)))

/-- The same of a step. -/
theorem Reached.attributes (hR : Reached k v) (ht : t < taskMaxNum) (hlive : k.toSched.Live t)
    (hok : OnKernel (Retains t) k a) (hstep : attrStep k a = some k') :
    (∃ v', Reached k' v') ∧ Retained t [a] k k' := by
  cases a with
  | kernel l =>
    obtain ⟨v', h⟩ := hR.step hok.1 hstep
    exact ⟨⟨v', h.reached⟩, h.attributes hR.1.eq ht hlive hok⟩
  | mark u =>
    refine ⟨reached_attrStep (a := .mark u) ⟨v, hR⟩ trivial hstep, ?_⟩
    obtain ⟨-, rfl⟩ := guarded_inj hstep
    have hst := k.mark_st u t
    exact ⟨by unfold Live; rw [hst]; exact hlive, by rw [hst], by rw [hst]; simp, fun _ => by rw [hst]⟩

/-- **What a run leaves of them.** -/
theorem Reached.exec_attributes (hR : Reached k v) (ht : t < taskMaxNum) (hlive : k.toSched.Live t)
    (hok : Guarded attrStep (OnKernel (Retains t)) k run) (hrun : exec attrStep k run = some k') :
    Retained t run k k' := by
  induction run generalizing k v with
  | nil =>
    obtain rfl := some.inj hrun
    exact ⟨hlive, rfl, by simp, fun _ => rfl⟩
  | cons a run ih =>
    obtain ⟨m, hm, hrun⟩ := exec_cons.mp hrun
    obtain ⟨⟨v', hR'⟩, h⟩ := hR.attributes ht hlive hok.1 hm
    exact h.cons hm (ih hR' h.live (hok.2 m hm) hrun)

/-- What `OsNewTaskInit` gives a task. -/
theorem Stepped.created {p : TskInitParam} {enqueue : Bool} (h : Stepped k v l k' v')
    (hsec : k.secOf l = some (.newTaskInit t p enqueue)) :
    t < taskMaxNum ∧ k'.toSched.Live t ∧
      (k'.st t).attributes = ⟨p.joinable, p.stackAddr = 0 && p.memory, false⟩ := by
  cases h with
  | ran sec next eq =>
    obtain rfl := some.inj (sec.symm.trans hsec)
    have hst : k'.st t = (((k.before l).tcb t).created p (k.before l).allocated).taskStatus := by
      rw [eq]
      change ((k.before l).newTaskInit t p enqueue).toSched.st t = _
      rw [newTaskInit_toSched]
      exact setTCB_st (s := (k.before l).toSched) fun c => c.created p (k.before l).allocated
    refine ⟨next.wellFormed.1, ?_, ?_⟩
    · unfold Live
      rw [hst]
      exact ⟨rfl, rfl⟩
    · rw [hst]
      cases hj : p.joinable <;> simp [TaskStatus.attributes, LosTaskCB.created, LosTaskCB.newTask, TaskStatus.zero, hj]
  | tick label | clock label | start label =>
    rw [label] at hsec
    cases hsec

/-- **A task keeps the attributes it was created with until it ends**, whatever runs in between, if it is not
the one that `LOS_Start` starts first or has none. -/
theorem attributes_persist {sysClock tickPeriodMax : Nat} {p : TskInitParam} {enqueue : Bool}
    {pre rest : List AttrLabel} (hpre : Guarded attrStep (OnKernel State.Careful) (boot sysClock tickPeriodMax) pre)
    (hk : exec attrStep (boot sysClock tickPeriodMax) pre = some k) (hcare : k.Careful l)
    (hsec : k.secOf l = some (.newTaskInit t p enqueue)) (hp : p.fails = false) (hstep : step k l = some k')
    (hrest : Guarded attrStep (OnKernel (Retains t)) k' rest) (hk' : exec attrStep k' rest = some k'') :
    (k''.st t).stackFree = decide (p.stackAddr = 0) ∧
      ((k''.st t).systemTask = true ↔ AttrLabel.mark t ∈ rest) ∧
      (Guarded attrStep (OnKernel (Attached t)) k' rest → (k''.st t).joinable = p.joinable) := by
  obtain ⟨v0, hv0⟩ := (boot_booted sysClock tickPeriodMax).inv
  obtain ⟨v, hR⟩ := exec_inv_guarded (fun _ _ _ => reached_attrStep) ⟨v0, hv0.reached⟩ hpre hk
  obtain ⟨v', h⟩ := hR.step hcare hstep
  obtain ⟨ht, hlive, hattr⟩ := h.created hsec
  have hret := h.reached.exec_attributes ht hlive hrest hk'
  have hstack : (p.stackAddr = 0 && p.memory : Bool) = decide (p.stackAddr = 0) := by
    unfold TskInitParam.fails at hp
    by_cases ha : p.stackAddr = 0
    · simpa [ha] using hp
    · simp [ha]
  refine ⟨?_, ?_, fun hatt => (hret.joinable hatt).trans (congrArg Attributes.joinable hattr)⟩
  · rw [hret.stackFree, ← hstack]
    exact congrArg Attributes.stackFree hattr
  · rw [hret.systemTask, show (k'.st t).systemTask = false from congrArg Attributes.systemTask hattr]
    simp

end

/-- `LOS_TaskCreate` of a joinable task, up to where its control block is filled. -/
def createJoinable : List Label :=
  [.call (.taskCreate ⟨true, true, false, 5, 0, 0, true, true⟩ true), .cont, .cont]

/-- The rest of it, as in `OsSwtmrTaskCreate`, and `LOS_Start`. -/
def markAndStart (t : Nat) : List AttrLabel := [.kernel .cont, .kernel .cont, .mark t, .kernel .start]

/-- The task is created behind one of a higher priority, which is started first. -/
theorem attributes_persist_second :
    ∃ k, exec attrStep (boot 1000000 0xffffff) ((createTask 4 ++ createJoinable).map .kernel) = some k ∧
      ∃ k', step k .cont = some k' ∧ ∃ k'', exec attrStep k' (markAndStart 2) = some k'' ∧
        k''.runTask = 1 ∧ (k''.st 2).attributes = ⟨true, true, true⟩ := by
  obtain ⟨k, hk, hcare, hsec, k', hk', hrest, hatt, k'', hk'', hrun⟩ :
      ∃ k, exec attrStep (boot 1000000 0xffffff) ((createTask 4 ++ createJoinable).map .kernel) = some k ∧
        k.Careful .cont ∧
        k.secOf .cont = some (.newTaskInit 2 ⟨true, true, false, 5, 0, 0, true, true⟩ true) ∧
        ∃ k', step k .cont = some k' ∧ Guarded attrStep (OnKernel (Retains 2)) k' (markAndStart 2) ∧
          Guarded attrStep (OnKernel (Attached 2)) k' (markAndStart 2) ∧
          ∃ k'', exec attrStep k' (markAndStart 2) = some k'' ∧ k''.runTask = 1 := by
    decide +kernel
  obtain ⟨hstack, hsys, hjoin⟩ := attributes_persist (by decide +kernel) hk hcare hsec rfl hk' hrest hk''
  refine ⟨k, hk, k', hk', k'', hk'', hrun, ?_⟩
  rw [TaskStatus.attributes, hjoin hatt, hstack, hsys.mpr (by decide)]
  rfl

/-- The task is started first: the other one cannot join it, and its stack is not freed. -/
theorem start_drops_attributes :
    ∃ k, exec step (boot 1000000 0xffffff) (createJoinable ++ [.cont, .cont, .cont] ++ createTask 6) = some k ∧
      (k.st 1).attributes = ⟨true, true, false⟩ ∧ (k.tcb 1).stackToFree = .heap 1 ∧
      ∃ k', exec step k [.start, .call (.taskDelay 10), .cont, .call (.taskJoin 1)] = some k' ∧
        (k'.st 1).attributes = ⟨false, false, false⟩ ∧ (k'.tcb 1).stackToFree = .null ∧
        k'.runTask = 2 ∧ k'.ret 2 = .code .nok := by
  decide +kernel

end LiteosM.Kernel
