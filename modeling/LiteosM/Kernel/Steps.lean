import LiteosM.Kernel.Deletion

/-!
# The steps that are not calls

`LOS_Schedule`, the tick, the clock and `LOS_Start`. A tick wakes the tasks whose time has come by
calm moves and then switches; `Switches` is the common form of the tick and of `LOS_Schedule`.

* `Core.schedule`: `LOS_Schedule`, behind any piece of code;
* `Inv.tick`: `LOS_SchedTickHandler`, which wakes before it switches;
* `Inv.clock`: the environment sets the time to any value;
* `Inv.start`: `LOS_Start` makes the first task of the highest priority run.

Premise: that of the switch (`Sched.InTime`), in the moment in which it is made.
-/

namespace LiteosM.Kernel

open LiteosM.Lib Function Sched

/-- What holds in every state of a run: a machine that a failed assertion has stopped need not be
about to switch. -/
def Reached (k : State) (v : View) : Prop := Core k v ∧ (k.fault = none → Going k)

theorem Inv.reached {k : State} {v : View} (h : Inv k v) : Reached k v := ⟨h.1, fun _ => h.2⟩

/-- The scheduler as `LOS_Schedule` hands it to `OsSchedTaskSwitch`, if it calls it. -/
def Sched.scheduleAt (s : Sched) : Option Sched :=
  if s.taskScheduled && s.losTaskLock == 0 then some s else none

/-- The tick has looked at the sort link and at the clock. -/
def Sched.ticked (s : Sched) : Sched :=
  { s.timeSliceUpdate s.runTask s.currTime with schedResponseTime := invalidTime }

/-- The scheduler as the tick hands it to `OsSchedTaskSwitch`, if it calls it. -/
def Sched.tickAt (s : Sched) : Option Sched :=
  if !s.taskScheduled then none
  else
    let s := if s.schedResponseID = osInvalid then s.scanTimerList else s
    if s.currTime < (s.tcb s.runTask).startTime then none
    else if s.ticked.losTaskLock = 0 then some s.ticked else none

/-- Calm moves, and then perhaps a switch: if `at?` is the scheduler with which `OsSchedTaskSwitch`
is called, and the clock has not gone back, then from there. -/
structure Switches (at? : Option Sched) (k : State) (v : View) (k' : State) (v' : View) : Prop where
  reached : Reached k' v'
  same : ∃ s', k' = { k with toSched := s' }
  moves : ∃ v1, Calms nobody noList v v1 ∧ (v' = v1 ∨ ∃ new M, SwitchTo v1 v' new M)
  called : ∀ s, at? = some s → ¬s.currTime < (s.tcb s.runTask).startTime →
    ∃ v1 new M, v1.s = s ∧ Calms nobody noList v v1 ∧ SwitchTo v1 v' new M

section
variable {k : State} {v v1 v' : View}

section
variable (hC : Core k v)
include hC

/-- Moves of tasks change neither the IPC objects nor what is left to do. -/
theorem Core.calms (h : Calms nobody noList v v') : Core { k with toSched := v'.s } v' := by
  have hid : v'.s.idleTaskID = k.idleTaskID := (congrArg Ctl.idleTaskID h.ctl).trans (hC.eq ▸ rfl)
  refine ⟨rfl, h.good hC.good, hC.ipc.same ⟨rfl, rfl, rfl, rfl, rfl, rfl⟩ (fun n _ => (h.heads n).mp)
    fun u n hn hu => (h.pl_wait hn hu).resolve_right id,
    hC.todo.replace hid (fun _ => .inl rfl) fun u t c hc hh => ?_⟩
  obtain ⟨-, hu, hpl⟩ := hC.todo.held u t c hc hh
  exact ⟨(congrArg Life.unused (h.life t)).trans hu, (h.pl_unused hu).trans hpl⟩

theorem Core.switch {new : Nat} {M : NodeLists Node} (h : SwitchTo v v' new M)
    (hstart : k.taskScheduled = true) : Core { k with toSched := v'.s } v' := by
  refine ⟨rfl, h.good hC.good (by rwa [hC.eq]),
    hC.ipc.same ⟨rfl, rfl, rfl, rfl, rfl, rfl⟩ (fun n _ => (h.heads n).mp) fun u n hn => h.pl_wait hn,
    hC.todo.replace (h.idleTaskID.trans (by rw [hC.eq])) (fun _ => .inl rfl) fun u t c hc hh => ?_⟩
  obtain ⟨-, hu, hpl⟩ := hC.todo.held u t c hc hh
  refine ⟨(h.unused t).trans hu, ?_⟩
  rcases h.place t with hsame | ⟨hno, -⟩
  · exact hsame.trans hpl
  · simp [hu] at hno

/-- `ArchTaskSchedule` behind some calm moves. -/
theorem Core.archTaskSchedule (h : Calms nobody noList v v1)
    (hstart : k.taskScheduled = true) (htime : v1.s.InTime) :
    ∃ v', v'.s = v1.s.archTaskSchedule ∧
      Switches (some v1.s) k v { k with toSched := v1.s.archTaskSchedule } v' := by
  have hC1 := hC.calms h
  have hstart1 : v1.s.taskScheduled = true :=
    (congrArg Ctl.taskScheduled h.ctl).trans (by rwa [hC.eq])
  by_cases hnow : v1.s.currTime < (v1.s.tcb v1.s.runTask).startTime
  · -- the assertion on the time fails
    obtain ⟨v', hs', hcalm⟩ := v1.raise hC1.good.run (f := .timeAssert) (by decide)
    have hs : v1.s.archTaskSchedule = v1.s.raise .timeAssert := by
      unfold Sched.archTaskSchedule taskSwitch
      rw [if_pos hnow]
      rfl
    have hC' := hC.calms (h.trans (Calms.one hcalm))
    rw [hs, ← hs']
    refine ⟨v', rfl, ⟨hC', fun hc => by rw [hs'] at hc; cases hc⟩, ⟨_, rfl⟩,
      ⟨v', h.trans (Calms.one hcalm), .inl rfl⟩, ?_⟩
    rintro s ⟨⟩ hno
    exact absurd hnow hno
  obtain ⟨v', new, M, hs', hsw⟩ := v1.archTaskSchedule hC1.good.run hstart1 htime hnow
  have hC' := hC1.switch hsw hstart1
  rw [← hs']
  refine ⟨v', rfl, ⟨hC', fun _ _ hstop => ?_⟩, ⟨_, rfl⟩, ⟨v1, h, .inr ⟨new, M, hsw⟩⟩, ?_⟩
  swap
  · rintro s ⟨⟩ -
    exact ⟨v1, new, M, rfl, h, hsw⟩
  have hrun : v'.s.runTask = new := hsw.runTask
  have hfit := hsw.fit
  rw [← hrun] at hfit
  cases hfit.symm.trans hstop

/-- `LOS_Schedule`. -/
theorem Core.schedule
    (hgo : k.taskScheduled = true → (k.st k.runTask).stops = true → k.losTaskLock = 0)
    (htime : k.taskScheduled = true → k.losTaskLock = 0 → k.InTime) :
    ∃ v', Switches k.scheduleAt k v (k.onSched (·.schedule)) v' := by
  unfold State.onSched Sched.schedule Sched.scheduleAt
  dsimp only
  split_ifs with hcond
  · rw [Bool.and_eq_true, beq_iff_eq] at hcond
    obtain ⟨v', -, h⟩ := hC.archTaskSchedule (Calms.refl v) hcond.1 (hC.eq ▸ htime hcond.1 hcond.2)
    rw [hC.eq] at h
    exact ⟨v', h⟩
  refine ⟨v, ⟨hC, fun _ hstart hstop => ?_⟩, ⟨_, rfl⟩, ⟨v, Calms.refl v, .inl rfl⟩, nofun⟩
  refine absurd ?_ hcond
  rw [Bool.and_eq_true, beq_iff_eq]
  exact ⟨hstart, hgo hstart hstop⟩

end

/-- The running task is not in the sort link. -/
theorem View.sl_runTask : v.sl v.s.runTask = false := by
  rw [Bool.eq_false_iff]
  intro hc
  have hT := v.placed.task _ (v.placed.shape.lt_of_sl hc)
  rw [decide_eq_true rfl] at hT
  rw [hT.sl_false_of_cpu] at hc
  cases hc

/-- `OsSchedScanTimerList`, if the tick scans. -/
theorem View.scan (b : Bool) :
    ∃ v1, v1.s = (if b then v.s.scanTimerList else v.s) ∧ Calms nobody noList v v1 ∧
      v1.s.tcb v.s.runTask = v.s.tcb v.s.runTask := by
  cases b with
  | false => exact ⟨v, rfl, Calms.refl v, rfl⟩
  | true =>
    obtain ⟨v1, hs1, h1, hsame⟩ := v.scanTimerList
    exact ⟨v1, hs1, h1, hsame _ View.sl_runTask⟩

/-- `LOS_SchedTickHandler` after the start, `s1` being the scheduler behind the scan. -/
theorem Sched.schedTickHandler_eq {s s1 : Sched} (hstart : s.taskScheduled = true)
    (hs1 : s1 = if s.schedResponseID = osInvalid then s.scanTimerList else s) : s.schedTickHandler =
      if s1.currTime < (s1.tcb s1.runTask).startTime then s1.raise .timeAssert
      else if s1.ticked.losTaskLock = 0 then s1.ticked.archTaskSchedule
      else s1.ticked.updateExpireTime := by
  unfold schedTickHandler
  rw [if_neg (by simp [hstart]), ← hs1]
  simp only [beq_iff_eq]
  rfl

theorem Sched.tickAt_eq {s s1 : Sched} (hstart : s.taskScheduled = true)
    (hs1 : s1 = if s.schedResponseID = osInvalid then s.scanTimerList else s) : s.tickAt =
      if s1.currTime < (s1.tcb s1.runTask).startTime then none
      else if s1.ticked.losTaskLock = 0 then some s1.ticked else none := by
  unfold tickAt
  rw [if_neg (by simp [hstart]), ← hs1]

theorem Core.ticked (hC : Core k v) : ∃ v1, v1.s = v.s.ticked ∧ Calms nobody noList v v1 ∧
      v1.s.st v.s.runTask = v.s.st v.s.runTask ∧
      (v1.s.tcb v.s.runTask).waitTimes = (v.s.tcb v.s.runTask).waitTimes := by
  obtain ⟨v2, hs2, h2⟩ := v.timeSliceUpdate v.s.currTime
    fun hr => absurd hr (v.not_ready_runTask hC.good.run)
  have hq : Quiet v2.s { v2.s with schedResponseTime := invalidTime } := ⟨rfl, rfl, rfl, rfl⟩
  obtain ⟨v3, hs3, h3⟩ := v2.quiet hq
  have htcb : v3.s.tcb v.s.runTask = (v.s.timeSliceUpdate v.s.runTask v.s.currTime).tcb v.s.runTask := by
    rw [hs3, ← hs2]
  refine ⟨v3, ?_, (Calms.one h2).trans (Calms.one h3), ?_, ?_⟩
  · rw [hs3, hs2]
    rfl
  · unfold st
    rw [htcb]
    unfold timeSliceUpdate
    rw [setTCB_self]
  · rw [htcb]
    unfold timeSliceUpdate
    rw [setTCB_self]

/-- `LOS_SchedTickHandler`. -/
theorem Inv.tick (hI : Inv k v) (htime : k.taskScheduled = true → k.losTaskLock = 0 → k.InTime) :
    ∃ v', Switches k.tickAt k v (k.onSched (·.schedTickHandler)) v' := by
  obtain ⟨hC, hgo⟩ := hI
  have hsame : ∀ v1, Calms nobody noList v v1 → v1.s.st v.s.runTask = v.s.st v.s.runTask →
      Going { k with toSched := v1.s } := by
    intro v1 h1 hst hstart hstop
    have hrun : v1.s.runTask = v.s.runTask := congrArg Ctl.runTask h1.ctl
    have hlock : v1.s.losTaskLock = v.s.losTaskLock := congrArg Ctl.losTaskLock h1.ctl
    have hstart1 : v1.s.taskScheduled = v.s.taskScheduled := congrArg Ctl.taskScheduled h1.ctl
    rw [hlock, hrun, hC.eq]
    refine hgo ?_ ?_
    · rwa [← hC.eq, ← hstart1]
    · rwa [← hC.eq, ← hst, ← hrun]
  unfold State.onSched
  dsimp only
  by_cases hstart : k.taskScheduled = true
  · obtain ⟨v1, hs1, h1, htcb1⟩ := View.scan (decide (v.s.schedResponseID = osInvalid))
    have hC1 := hC.calms h1
    have hrun1 : v1.s.runTask = v.s.runTask := congrArg Ctl.runTask h1.ctl
    have hs1' : v1.s = (if k.schedResponseID = osInvalid then k.toSched.scanTimerList else k.toSched) := by
      rw [hs1, hC.eq]
      simp
    rw [schedTickHandler_eq hstart hs1', tickAt_eq hstart hs1']
    by_cases hnow : v1.s.currTime < (v1.s.tcb v1.s.runTask).startTime
    · rw [if_pos hnow, if_pos hnow]
      obtain ⟨v', hs', hcalm⟩ := v1.raise hC1.good.run (f := .timeAssert) (by decide)
      have hcalms := h1.trans (Calms.one hcalm)
      rw [← hs']
      exact ⟨v', ⟨hC.calms hcalms, fun hc => by rw [hs'] at hc; cases hc⟩, ⟨_, rfl⟩,
        ⟨v', hcalms, .inl rfl⟩, nofun⟩
    obtain ⟨v2, hs2, h2, hst2, hwait2⟩ := hC1.ticked
    rw [hrun1] at hst2 hwait2
    have h12 := h1.trans h2
    have hst : v2.s.st v.s.runTask = v.s.st v.s.runTask :=
      hst2.trans (congrArg LosTaskCB.taskStatus htcb1)
    have hlock2 : v2.s.losTaskLock = k.losTaskLock := by
      rw [show v2.s.losTaskLock = v.s.losTaskLock from congrArg Ctl.losTaskLock h12.ctl, hC.eq]
    rw [← hs2, hlock2]
    split_ifs with hlock
    · -- neither the scan nor the time slice touches what the running task is to wait for
      have hin : v2.s.InTime := by
        have hin := htime hstart hlock
        rw [← hC.eq] at hin
        have hrun2 : v2.s.runTask = v.s.runTask := congrArg Ctl.runTask h12.ctl
        have hclock : v2.s.sysClock = v.s.sysClock := congrArg Ctl.sysClock h12.ctl
        have hcurr : v2.s.currTime = v.s.currTime := congrArg Ctl.currTime h12.ctl
        unfold InTime responseTimeAt at hin ⊢
        rwa [hrun2, hst, hclock, hcurr, hwait2, htcb1]
      obtain ⟨v', -, h⟩ := hC.archTaskSchedule h12 hstart hin
      exact ⟨v', h⟩
    obtain ⟨v', hs', hcalm⟩ := v2.quiet (quiet_updateExpireTime v2.s)
    have hcalms := h12.trans (Calms.one hcalm)
    rw [← hs']
    refine ⟨v', ⟨hC.calms hcalms, fun _ => hsame v' hcalms ?_⟩, ⟨_, rfl⟩,
      ⟨v', hcalms, .inl rfl⟩, nofun⟩
    rw [← hst]
    unfold st
    rw [hs', (quiet_updateExpireTime v2.s).tcb]
  · unfold schedTickHandler tickAt
    rw [if_pos (by simpa using hstart), if_pos (by simpa using hstart)]
    exact ⟨v, ⟨hC, fun _ => hgo⟩, ⟨_, rfl⟩, ⟨v, Calms.refl v, .inl rfl⟩, nofun⟩

theorem View.setClock (v : View) (time : Nat) :
    ∃ v', v'.s = { v.s with currTime := time } ∧ Frozen v v' ∧ v'.L = v.L :=
  ⟨⟨{ v.s with currTime := time }, v.L, v.pl, v.sl, v.placed.shape, v.placed.bits, v.placed.task⟩, rfl,
    ⟨rfl, rfl, fun _ => rfl, fun _ => id, rfl, rfl, rfl, rfl⟩, rfl⟩

/-- The clock moves. -/
theorem Inv.clock (hI : Inv k v) (time : Nat) :
    ∃ v', Frozen v v' ∧ Inv (k.onSched ({ · with currTime := time })) v' := by
  obtain ⟨hC, hgo⟩ := hI
  obtain ⟨v', hs', h, hL'⟩ := v.setClock time
  refine ⟨v', h, ⟨by rw [hs', hC.eq]; rfl, h.good hC.good,
    hC.ipc.frozen ⟨rfl, rfl, rfl, rfl, rfl, rfl⟩ h fun n _ => by rw [hL'],
    hC.todo.replace rfl (fun _ => .inl rfl) fun u t c hc hh => ?_⟩, hgo⟩
  rw [h.st, h.pl]
  exact (hC.todo.held u t c hc hh).2

/-! ## The start of the scheduler -/

/-- `HalStartToRun` leaves nothing of the status of the first task but the running bit. -/
theorem TaskOk.started {idle t : Nat} {c : LosTaskCB} {sl : Bool} (h : TaskOk idle t c none sl true)
    (hu : c.taskStatus.unused = false) :
    TaskOk idle t { c with taskStatus := { TaskStatus.zero with running := true } } none sl true where
  __ := h
  ready hc := by cases hc
  queued _ hc := by cases hc
  pend := by simp [TaskStatus.zero]
  free hc := by cases hc
  recycled hc := by cases hc
  listed _ hc := by cases hc
  sort := by simp [h.sl_false_of_cpu]
  time _ := h.time hu
  readyX hc := by cases hc
  timed hc := by cases hc
  pendX hc := by cases hc
  delayX hc := by cases hc
  idleX _ := ⟨rfl, rfl, rfl, rfl, rfl⟩

/-- Task `new` is the first to run. -/
structure StartTo (v v' : View) (new : Nat) : Prop where
  lt : new < taskMaxNum
  upto : Upto new v.L v'.L
  tcb : ∀ u, u ≠ new → v'.s.tcb u = v.s.tcb u
  used : (v.s.st new).unused = false
  status : v'.s.st new = { TaskStatus.zero with running := true }
  stack : (v'.s.tcb new).topOfStack = (v.s.tcb new).topOfStack
  pl : ∀ u, u ≠ new → v'.pl u = v.pl u
  plNew : v'.pl new = none
  ctl : v'.s.ctl = { v.s.ctl with runTask := new, newTask := new, taskScheduled := true }
  choice : new = v.s.idleTaskID ∨ (v.s.st new).ready = true
  top : ∀ u < taskMaxNum, u ≠ v.s.idleTaskID → (v.s.st u).ready = true →
    new ≠ v.s.idleTaskID ∧ (v.s.tcb new).priority ≤ (v.s.tcb u).priority

/-- `OsSchedStart` up to `OsSchedTaskDeQueue`. -/
def Sched.mark (s : Sched) (new : Nat) : Sched :=
  { s.setTCB new fun c =>
      { c with taskStatus := { c.taskStatus with running := true }, startTime := s.currTime } with
    newTask := new, runTask := new }

/-- `OsSchedStart` up to `OsSchedSetNextExpireTime`. -/
def Sched.begun (s : Sched) (new : Nat) : Sched :=
  { (s.mark new).taskDeQueue new with
    taskScheduled := true, schedResponseTime := invalidTime, schedResponseID := osInvalid }

theorem Sched.start_eq {s : Sched} {new : Nat} (htop : s.getTopTask = some new) :
    s.start = (s.begun new).setNextExpireTime ((s.begun new).tcb new).taskID
      (endTime ((s.begun new).tcb new).startTime ((s.begun new).tcb new).timeSlice) := by
  unfold start
  rw [htop]
  rfl

theorem Sched.begun_self (s : Sched) (new : Nat) :
    (s.begun new).tcb new = { s.tcb new with
      taskStatus := { (s.tcb new).taskStatus with running := true, ready := false }
      startTime := s.currTime } := by
  unfold begun
  rw [taskDeQueue_tcb, update_self]
  unfold mark
  rw [setTCB_self]

theorem Sched.begun_of_ne (s : Sched) {new u : Nat} (hu : u ≠ new) :
    (s.begun new).tcb u = s.tcb u := by
  unfold begun
  rw [taskDeQueue_tcb, update_of_ne hu]
  unfold mark
  rw [setTCB_of_ne hu]

/-- The chosen task is on the CPU. -/
theorem Placed.begun {s : Sched} {L : NodeLists Node} {pl : Nat → Option Node} {sl : Nat → Bool} {new : Nat}
    (hP : Placed s L pl sl none) (hlt : new < taskMaxNum)
    (hchoice : new = s.idleTaskID ∨ (s.st new).ready = true) :
    ∃ L', Upto new L L' ∧ Placed (s.begun new) L' (update pl new none) sl (some new) ∧
      (s.begun new).ctl = { s.ctl with runTask := new, newTask := new, taskScheduled := true } := by
  obtain ⟨-, hd, hp, -, -, hu⟩ := TaskStatus.stops_eq_false (hP.not_stops hlt hchoice)
  have hP1 := hP.setRunning (fun _ => hu) (fun c => { c with
    taskStatus := { c.taskStatus with running := true }, startTime := s.currTime }) true _ rfl
  have hP2 : Placed (s.mark new) L pl sl none := ⟨hP1.shape, hP1.bits, hP1.task⟩
  have hst : (s.mark new).st new = { s.st new with running := true } := by
    unfold mark st
    rw [setTCB_self]
  obtain ⟨L', hup, hP3, -, -, hctl⟩ := hP2.deQueueNew hlt (by rwa [hst]) (by rwa [hst])
    (by rwa [hst])
  rw [update_eq_self] at hP3
  exact ⟨L', hup, ⟨hP3.shape, hP3.bits, hP3.task⟩,
    congrArg (fun c : Ctl => { c with taskScheduled := true }) hctl⟩

/-- `OsSchedStart` and `HalStartToRun`. -/
theorem View.start (v : View) (hR : RunOk v.s) (hstart : v.s.taskScheduled = false) :
    ∃ v' new, v'.s = v.s.start.halStartToRun ∧ v.s.getTopTask = some new ∧ StartTo v v' new := by
  have hmain := (hR.before hstart).1
  have hP0 : Placed v.s v.L v.pl v.sl none := v.placed.offCpu fun hc => by
    rw [hmain] at hc
    exact absurd hc (Nat.lt_irrefl _)
  obtain ⟨new, hlt, htop, hwhy⟩ := hP0.getTopTask hR.idle
  have hchoice : new = v.s.idleTaskID ∨ (v.s.st new).ready = true := hwhy.imp And.left fun h => h.2.1
  have hu := (TaskStatus.stops_eq_false (hP0.not_stops hlt hchoice)).2.2.2.2.2
  obtain ⟨L', hup, hP1, hctl1⟩ := hP0.begun hlt hchoice
  have hq := quiet_setNextExpireTime (v.s.begun new) ((v.s.begun new).tcb new).taskID
    (endTime ((v.s.begun new).tcb new).startTime ((v.s.begun new).tcb new).timeSlice)
  have hP2 := hP1.quiet hq
  rw [← start_eq htop] at hq hP2
  have hctl := hq.ctl.trans hctl1
  have hnew : v.s.start.newTask = new := congrArg Ctl.newTask hctl
  have hself : v.s.start.tcb new = _ := (congrFun hq.tcb new).trans (v.s.begun_self new)
  -- the port clears the status
  have hT := hP2.task new hlt
  rw [update_self, decide_eq_true rfl] at hT
  have hP3 : Placed v.s.start.halStartToRun L' (update v.pl new none) v.sl (some new) := by
    unfold halStartToRun
    rw [hnew]
    refine hP2.set hP2.shape hP2.bits rfl (fun u hu' => setSt_of_ne hu' _)
      (fun _ _ => rfl) (fun _ _ => rfl) (fun _ _ => Iff.rfl) fun _ => ?_
    rw [setSt_self, update_self, decide_eq_true rfl]
    refine hT.started ?_
    rwa [hself]
  have hrun : v.s.start.halStartToRun.runTask = new := congrArg Ctl.runTask hctl
  refine ⟨⟨v.s.start.halStartToRun, L', _, v.sl, by rwa [hrun]⟩, new, rfl, htop, hlt, hup,
    fun u hu' => ?_, hu, ?_, ?_, fun u hu' => update_of_ne hu' _ _, update_self ..,
    hctl, hchoice, fun u hu' hne hr => ?_⟩
  · unfold halStartToRun
    dsimp only
    rw [hnew, setSt_of_ne hu', hq.tcb, begun_of_ne _ hu']
  · unfold halStartToRun st
    dsimp only
    rw [hnew, setSt_self]
  · unfold halStartToRun
    dsimp only
    rw [hnew, setSt_self, hself]
  · rcases hwhy with ⟨-, hnone⟩ | ⟨hni, -, -, hmin⟩
    · simp [hnone u hu' hne] at hr
    · exact ⟨hni, hmin u hu' hne hr⟩

namespace StartTo

variable {new : Nat}

section
variable (h : StartTo v v' new)
include h

theorem st {u : Nat} (hu : u ≠ new) : v'.s.st u = v.s.st u := by
  unfold Sched.st
  rw [h.tcb u hu]

theorem runTask : v'.s.runTask = new := congrArg Ctl.runTask h.ctl

theorem unused (u : Nat) : (v'.s.st u).unused = (v.s.st u).unused := by
  by_cases hu : u = new
  · subst hu
    rw [h.status, h.used]
    rfl
  · rw [h.st hu]

theorem pl_wait {u : Nat} {n : Node} (hu : v'.pl u = some n) : u ≠ new ∧ v.pl u = some n := by
  have hne : u ≠ new := by
    rintro rfl
    simp [h.plNew] at hu
  exact ⟨hne, h.pl u hne ▸ hu⟩

theorem runOk (hR : RunOk v.s) (hstart : v.s.taskScheduled = false) : RunOk v'.s := by
  have hbefore := (hR.before hstart).2
  constructor
  · rw [show v'.s.idleTaskID = v.s.idleTaskID from congrArg Ctl.idleTaskID h.ctl]
    exact hR.idle
  · rw [h.runTask]
    exact h.lt.le
  · rw [h.runTask, h.status]
    exact fun _ _ => ⟨rfl, rfl⟩
  · intro u hu hr
    rw [h.runTask]
    by_cases hne : u = new
    · exact .inl hne
    · simp [h.st hne, (hbefore u hu).1] at hr
  · intro hc
    cases hc.symm.trans (congrArg Ctl.taskScheduled h.ctl)
  · rw [h.st (Nat.ne_of_gt h.lt)]
    exact hR.ghost
  · exact fault_ne_of_ctl (s := v.s) (congrArg Ctl.asserted h.ctl :) hR.sound

/-- Before the start no task waits for another. -/
theorem joinOk (hG : Good v) (hstart : v.s.taskScheduled = false) : JoinOk v' := by
  have hnone : ∀ u j, v'.pl u ≠ some (.joinList j) := by
    intro u j hu
    obtain ⟨-, hu'⟩ := h.pl_wait hu
    have hlt := v.placed.shape.lt_of_pl hu'
    have hp := ((hG.run.before hstart).2 u hlt).2.1
    unfold Sched.st at hp
    simp [(v.placed.task u hlt).pend.mpr ⟨_, hu', rfl⟩] at hp
  refine ⟨fun u j hu => absurd hu (hnone u j), fun u u' j hu => absurd hu (hnone u j), fun j hj hjoin => ?_⟩
  by_cases hne : j = new
  · subst hne
    rw [h.status] at hjoin
    cases hjoin
  · rw [h.st hne] at hjoin
    exact fun hc => hG.join.init j hj hjoin ((h.upto.heads _).mp hc)

end

end StartTo

/-- `LOS_Start`. -/
theorem Inv.start (hI : Inv k v) (hstart : k.taskScheduled = false) :
    ∃ v' new, Inv (k.onSched fun s => s.start.halStartToRun) v' ∧ StartTo v v' new ∧
      k.getTopTask = some new := by
  obtain ⟨hC, -⟩ := hI
  have hstart' : v.s.taskScheduled = false := by rwa [hC.eq]
  obtain ⟨v', new, hs', htop, h⟩ := v.start hC.good.run hstart'
  refine ⟨v', new, ⟨⟨by rw [hs', hC.eq]; rfl, ⟨h.runOk hC.good.run hstart', h.joinOk hC.good hstart'⟩,
    hC.ipc.same ⟨rfl, rfl, rfl, rfl, rfl, rfl⟩ (fun n _ => (h.upto.heads n).mp)
      fun u n _ hu => (h.pl_wait hu).2, ?_⟩, fun _ hstop => ?_⟩, h, by rwa [← hC.eq]⟩
  · refine hC.todo.replace ?_ (fun _ => .inl rfl) fun u t c hc hh => ?_
    · have := congrArg Ctl.idleTaskID h.ctl
      rwa [hs', hC.eq] at this
    obtain ⟨-, hu, hpl⟩ := hC.todo.held u t c hc hh
    refine ⟨(h.unused t).trans hu, ?_⟩
    rw [h.pl t, hpl]
    rintro rfl
    simp [h.used] at hu
  have hst := h.status
  rw [← h.runTask, hs', hC.eq] at hst
  change (k.toSched.start.halStartToRun.st k.toSched.start.halStartToRun.runTask).stops = true at hstop
  rw [hst] at hstop
  cases hstop

end

end LiteosM.Kernel
