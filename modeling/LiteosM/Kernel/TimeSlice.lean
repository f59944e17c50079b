import LiteosM.Kernel.Sched
import LiteosM.Kernel.TickTimer

/-!
# Time slices

`OsTimeSliceUpdate` takes the time a task has run from its `timeSlice`, a signed 32-bit number. Only
`OsSchedTaskEnQueue` fills it up again, so it goes on sinking while the scheduler is locked and the
ticks switch no task.

* `Sched.Refills`: what the rest of a tick or a switch does to the slices;
* `Sliced.step`: one tick or switch whose subtraction does not leave the 32 bits;
* **`slices_do_not_wrap`**: every run of such steps.

Out of scope: which task is chosen (`Kernel.RoundRobin`).
-/

namespace LiteosM.Kernel

open LiteosM.Lib Sched

/-- The scheduler, and when the last tick was handled. -/
structure Ticking extends Sched where
  lastTick : Nat

/-- The tick, `LOS_Schedule` and the scheduler lock. -/
inductive SliceOp where
  | tick (now : Nat)
  | schedule (now : Nat)
  | taskLock
  | taskUnlock
  deriving DecidableEq

namespace Ticking

variable (s : Ticking)

/-- The state with this time. -/
def atTime (now : Nat) : Sched := { s.toSched with currTime := now }

/-- One step. -/
def step : SliceOp → Option Ticking
  | .tick now => some ⟨(s.atTime now).schedTickHandler, now⟩
  | .schedule now => some { s with toSched := (s.atTime now).schedule }
  | .taskLock => some { s with losTaskLock := (s.losTaskLock + 1) % 2 ^ 16 }
  | .taskUnlock => some { s with losTaskLock := s.losTaskLock - 1 }

/-- Time goes on, by at most `LOSCFG_BASE_CORE_TICK_RESPONSE_MAX` from one tick to the next. -/
def Timely : SliceOp → Prop
  | .tick now | .schedule now => s.currTime ≤ now ∧ now ≤ s.lastTick + tickResponseMax
  | _ => True

/-- `incTime` of `OsTimeSliceUpdate`, an `INT32`. -/
def incTime (now : Nat) : Int := Int.bmod (now - (s.tcb s.runTask).startTime) (2 ^ 32)

/-- What is left of the running task's slice is a signed 32-bit number. -/
def Fits : SliceOp → Prop
  | .tick now | .schedule now =>
    -2 ^ 31 ≤ (s.tcb s.runTask).timeSlice - (now - (s.tcb s.runTask).startTime : Int)
  | _ => True

instance decidableGuard (op : SliceOp) : Decidable (s.Timely op ∧ s.Fits op) := by
  unfold Timely Fits
  cases op <;> infer_instance

end Ticking

namespace Sched

/-- What a slice may be. -/
structure Sliced (s : Sched) : Prop where
  slice : ∀ t, -2 ^ 31 ≤ (s.tcb t).timeSlice ∧ (s.tcb t).timeSlice ≤ s.schedTimeSlice
  range : 0 ≤ s.schedTimeSlice ∧ s.schedTimeSlice < 2 ^ 31

/-- What only a switch changes, or nothing. -/
def steady (s : Sched) := (s.schedTimeSlice, s.runTask, s.newTask, s.currTime, s.taskScheduled)

/-- Slices were left as they are or filled up. -/
structure Refills (s' s : Sched) : Prop where
  slice : ∀ t, (s'.tcb t).timeSlice = (s.tcb t).timeSlice ∨ (s'.tcb t).timeSlice = s.schedTimeSlice
  start : ∀ t, (s'.tcb t).startTime = (s.tcb t).startTime
  rest : s'.steady = s.steady

section
variable {s s' s'' : Sched} {t : Nat}

theorem Refills.same (h : (s'.tcb, s'.steady) = (s.tcb, s.steady)) : s'.Refills s := by
  obtain ⟨htcb, hrest⟩ := Prod.mk.inj h
  exact ⟨fun _ => .inl (by rw [htcb]), fun _ => by rw [htcb], hrest⟩

theorem Refills.trans (h : s''.Refills s') (h' : s'.Refills s) : s''.Refills s := by
  have hslice : s'.schedTimeSlice = s.schedTimeSlice := congrArg (·.1) h'.rest
  refine ⟨fun t => ?_, fun t => (h.start t).trans (h'.start t), h.rest.trans h'.rest⟩
  rcases h.slice t with heq | heq
  · rw [heq]
    exact h'.slice t
  · exact .inr (heq.trans hslice)

theorem Refills.next (h : s'.Refills s) (htcb : s''.tcb = s'.tcb) (hrest : s''.steady = s'.steady) :
    s''.Refills s :=
  (Refills.same (Prod.ext htcb hrest)).trans h

theorem Refills.ite {p : Prop} [Decidable p] (h : s'.Refills s) (h' : s''.Refills s) :
    (if p then s' else s'').Refills s := by
  split_ifs
  · exact h
  · exact h'

theorem Refills.setTCB {f : LosTaskCB → LosTaskCB} (h : s'.Refills s)
    (hf : ∀ c, ((f c).timeSlice = c.timeSlice ∨ (f c).timeSlice = s'.schedTimeSlice) ∧
      (f c).startTime = c.startTime) : (s'.setTCB t f).Refills s := by
  have hset : (s'.setTCB t f).Refills s' := by
    refine ⟨fun u => ?_, fun u => ?_, rfl⟩
    all_goals
      by_cases hu : u = t
      · subst hu
        rw [setTCB_self]
        first | exact (hf _).1 | exact (hf _).2
      · simp [setTCB_of_ne hu]
  exact hset.trans h

theorem Refills.setSt {f : TaskStatus → TaskStatus} (h : s'.Refills s) : (s'.setSt t f).Refills s :=
  h.setTCB fun _ => ⟨.inl rfl, rfl⟩

theorem Refills.setHeap (h : s'.Refills s) (hp : Heap Node) : (s'.setHeap hp).Refills s := h.next rfl rfl

theorem Refills.sliced (h : s'.Refills s) (hs : s.Sliced) : s'.Sliced := by
  have hslice : s'.schedTimeSlice = s.schedTimeSlice := congrArg (·.1) h.rest
  obtain ⟨hlow, hhigh⟩ := hs.range
  refine ⟨fun t => ?_, hslice ▸ hs.range⟩
  rw [hslice]
  rcases h.slice t with heq | heq <;> rw [heq]
  · exact hs.slice t
  · omega

theorem Sliced.setTCB (h : s.Sliced) {f : LosTaskCB → LosTaskCB}
    (hf : -2 ^ 31 ≤ (f (s.tcb t)).timeSlice ∧ (f (s.tcb t)).timeSlice ≤ s.schedTimeSlice) :
    (s.setTCB t f).Sliced := by
  refine ⟨fun u => ?_, h.range⟩
  by_cases hu : u = t
  · subst hu
    rwa [setTCB_self]
  · rw [setTCB_of_ne hu]
    exact h.slice u

/-- `OsTimeSliceUpdate` of a slice that fits. -/
theorem Sliced.timeSliceUpdate (h : s.Sliced) {now : Nat} (hstart : (s.tcb t).startTime ≤ now)
    (hfits : -2 ^ 31 ≤ (s.tcb t).timeSlice - (now - (s.tcb t).startTime : Int)) :
    (s.timeSliceUpdate t now).Sliced := by
  have := h.slice t
  have := h.range
  refine h.setTCB ?_
  dsimp only
  split_ifs
  · rw [Int.bmod_eq_of_le (by omega) (by omega)]
    omega
  · exact h.slice t

end

variable (s : Sched) (t : Nat)

theorem refills_setNextExpireTime (responseID taskEndTime : Nat) :
    (s.setNextExpireTime responseID taskEndTime).Refills s :=
  .ite (.same rfl) (.same rfl)

theorem refills_updateExpireTime : s.updateExpireTime.Refills s :=
  .ite (.same rfl) (refills_setNextExpireTime s _ _)

theorem refills_add2SortLink (startTime waitTicks : Nat) : (s.add2SortLink t startTime waitTicks).Refills s := by
  have hadd : ∀ s : Sched, (s.addNode2SortLink t).Refills s := by
    intro s
    unfold Sched.addNode2SortLink
    split <;> exact .same rfl
  exact (hadd _).trans (.setTCB (.same rfl) fun _ => ⟨.inl rfl, rfl⟩)

theorem refills_taskEnQueue : (s.taskEnQueue t).Refills s := by
  refine .ite (.same rfl) (.setSt (.ite (.ite (.same rfl) ?_) (.same rfl)))
  have hslice : (s.setTCB t fun c => { c with timeSlice := s.schedTimeSlice }).Refills s :=
    .setTCB (.same rfl) fun _ => ⟨.inr rfl, rfl⟩
  exact hslice.next rfl rfl

theorem refills_taskDeQueue : (s.taskDeQueue t).Refills s :=
  .ite (.setSt (.ite (.same rfl) (.same rfl))) (.same rfl)

theorem refills_wakePendTimeTask : (s.wakePendTimeTask t).Refills s := by
  have hout : (s.timeOut t).Refills s := by
    have hset : ∀ f, (s.setSt t f).Refills s := fun f => .setSt (.same rfl)
    exact .ite (.setTCB ((hset _).setHeap _) fun _ => ⟨.inl rfl, rfl⟩) (hset _)
  exact .ite (.ite ((refills_taskEnQueue _ t).trans hout) hout) (.same rfl)

theorem refills_scanLoop (fuel : Nat) : ∀ s, (scanLoop fuel s).Refills s := by
  induction fuel with
  | zero => exact fun s => .same rfl
  | succ fuel ih =>
    intro s
    refine .ite (.same rfl) ?_
    split
    · exact .ite ((ih _).trans ((refills_wakePendTimeTask _ _).trans
        (.setTCB (.same rfl) fun _ => ⟨.inl rfl, rfl⟩))) (.same rfl)
    · exact .same rfl

section
variable {s t}

/-- The new task starts when the old one stops. -/
theorem Sliced.takeNewTask (h : s.Sliced) (new : Nat) : (s.takeNewTask new).1.Sliced ∧
    ((s.takeNewTask new).1.tcb new).startTime = (s.tcb s.runTask).startTime ∧
    (s.takeNewTask new).1.steady = { s with newTask := new }.steady := by
  obtain ⟨s1, hs1⟩ : ∃ s1, s1 = if s.runTask ≠ new then
      ({ s with newTask := new }.setSt s.runTask fun st => { st with running := false }).setTCB new fun c =>
        { c with
          taskStatus := { c.taskStatus with running := true }
          startTime := (s.tcb s.runTask).startTime }
    else { s with newTask := new } := ⟨_, rfl⟩
  have hfirst : s1.Sliced ∧ (s1.tcb new).startTime = (s.tcb s.runTask).startTime ∧
      s1.steady = { s with newTask := new }.steady := by
    rw [hs1]
    split_ifs with hne
    · have hnew : { s with newTask := new }.Sliced := ⟨h.slice, h.range⟩
      have hold : ({ s with newTask := new }.setSt s.runTask fun st => { st with running := false }).Sliced :=
        hnew.setTCB (h.slice _)
      exact ⟨hold.setTCB (hold.slice new), by rw [setTCB_self], rfl⟩
    · exact ⟨⟨h.slice, h.range⟩, by rw [not_not.mp hne], rfl⟩
  have hrest : (s.takeNewTask new).1.Refills s1 := by
    unfold Sched.takeNewTask
    simp only [← hs1]
    have hdeq := refills_taskDeQueue s1 new
    exact (refills_setNextExpireTime _ _ _).trans (.ite (hdeq.next rfl rfl) hdeq)
  exact ⟨hrest.sliced hfirst.1, (hrest.start new).trans hfirst.2.1, hrest.rest.trans hfirst.2.2⟩

/-- `ArchTaskSchedule`: the task that runs then has started at the present time. -/
theorem Sliced.archTaskSchedule (h : s.Sliced) (hstart : (s.tcb s.runTask).startTime ≤ s.currTime)
    (hfits : -2 ^ 31 ≤ (s.tcb s.runTask).timeSlice - (s.currTime - (s.tcb s.runTask).startTime : Int)) :
    s.archTaskSchedule.Sliced ∧
      (s.archTaskSchedule.tcb s.archTaskSchedule.runTask).startTime = s.currTime ∧
      s.archTaskSchedule.currTime = s.currTime := by
  have hput : s.putRunTask.Refills (s.timeSliceUpdate s.runTask s.currTime) :=
    .ite (refills_add2SortLink _ _ _ _) (.ite (refills_taskEnQueue _ _) (.same rfl))
  have hsliced := hput.sliced (h.timeSliceUpdate hstart hfits)
  have hrun : s.putRunTask.runTask = s.runTask ∧ s.putRunTask.currTime = s.currTime :=
    ⟨congrArg (·.2.1) hput.rest, congrArg (·.2.2.2.1) hput.rest⟩
  have hnow : (s.putRunTask.tcb s.runTask).startTime = s.currTime := by
    rw [hput.start, Sched.timeSliceUpdate, setTCB_self]
  simp only [Sched.archTaskSchedule, taskSwitch, if_neg (Nat.not_lt.mpr hstart)]
  cases s.putRunTask.getTopTask with
  | none => exact ⟨⟨hsliced.slice, hsliced.range⟩, by simpa [raise, hrun.1] using hnow, hrun.2⟩
  | some new =>
    obtain ⟨hnew, hfrom, hsteady⟩ := hsliced.takeNewTask new
    rw [hrun.1, hnow] at hfrom
    have hcurr : (s.putRunTask.takeNewTask new).1.currTime = s.currTime :=
      (congrArg (·.2.2.2.1) hsteady).trans hrun.2
    split_ifs with hflag
    · refine ⟨⟨hnew.slice, hnew.range⟩, ?_, hcurr⟩
      rwa [show (s.putRunTask.takeNewTask new).1.newTask = new from congrArg (·.2.2.1) hsteady]
    · have heq : s.putRunTask.runTask = new := by simpa [Sched.takeNewTask] using hflag
      refine ⟨hnew, ?_, hcurr⟩
      rwa [show (s.putRunTask.takeNewTask new).1.runTask = new from (congrArg (·.2.1) hsteady).trans heq]

end

end Sched

/-! ## Runs -/

/-- The running task has started since the last tick. -/
structure Ticking.Ok (s : Ticking) : Prop where
  sliced : s.toSched.Sliced
  start : s.taskScheduled = true →
    s.lastTick ≤ (s.tcb s.runTask).startTime ∧ (s.tcb s.runTask).startTime ≤ s.currTime
  last : s.lastTick ≤ s.currTime

section
variable {s s' : Ticking} {k : Sched} {now last : Nat}

/-- The running task has just started. -/
theorem Ticking.Ok.fresh (h : k.Sliced) (hstart : (k.tcb k.runTask).startTime = now) (hcurr : k.currTime = now)
    (hle : last ≤ now) : Ticking.Ok ⟨k, last⟩ :=
  ⟨h, fun _ => ⟨hstart.symm ▸ hle, (hstart.trans hcurr.symm).le⟩, hcurr.symm ▸ hle⟩

theorem Ticking.Ok.incTime_eq (h : s.Ok) (hsched : s.taskScheduled = true) (hle : s.currTime ≤ now)
    (hmax : now ≤ s.lastTick + tickResponseMax) :
    s.incTime now = now - (s.tcb s.runTask).startTime := by
  have := h.start hsched
  unfold tickResponseMax at hmax
  exact Int.bmod_eq_of_le (by omega) (by omega)

theorem Ticking.Ok.tick (h : s.Ok) (hok : s.Timely (.tick now)) (hfits : s.Fits (.tick now)) :
    Ticking.Ok ⟨(s.atTime now).schedTickHandler, now⟩ := by
  obtain ⟨hle, hmax⟩ := hok
  have hat : (s.atTime now).Sliced := ⟨h.sliced.slice, h.sliced.range⟩
  unfold schedTickHandler
  by_cases hsched : s.taskScheduled = true
  · rw [if_neg (by simp [atTime, hsched])]
    obtain ⟨hlast, hcurr⟩ := h.start hsched
    generalize hs1 : (if (s.atTime now).schedResponseID = osInvalid then (s.atTime now).scanTimerList
      else s.atTime now) = s1
    have hscan : s1.Refills (s.atTime now) := hs1 ▸ .ite (refills_scanLoop _ _) (.same rfl)
    have hsliced := hscan.sliced hat
    have hrun : s1.runTask = s.runTask := congrArg (·.2.1) hscan.rest
    have hnow : s1.currTime = now := congrArg (·.2.2.2.1) hscan.rest
    have hstart : (s1.tcb s.runTask).startTime = (s.tcb s.runTask).startTime := hscan.start _
    have hslice := hscan.slice s.runTask
    have hrange := h.sliced.range
    simp only [hrun, hnow, hstart, Nat.not_lt.mpr (hcurr.trans hle), if_false]
    have hupd : (s1.timeSliceUpdate s.runTask now).Sliced := by
      refine hsliced.timeSliceUpdate (by omega) ?_
      unfold Fits at hfits
      simp only [atTime, tickResponseMax] at hslice hmax
      omega
    generalize hs2 : { s1.timeSliceUpdate s.runTask now with schedResponseTime := invalidTime } = s2
    have h2 : s2.Sliced := hs2 ▸ ⟨hupd.slice, hupd.range⟩
    have hself : (s2.tcb s2.runTask).startTime = now ∧ s2.currTime = now := by
      rw [← hs2]
      simp [timeSliceUpdate, setTCB, hrun, hnow]
    split_ifs
    · obtain ⟨hgo, hgoes, hgone⟩ := h2.archTaskSchedule (by omega)
        (by rw [hself.1, hself.2]; have := h2.slice s2.runTask; omega)
      exact .fresh hgo (hgoes.trans hself.2) (hgone.trans hself.2) le_rfl
    have hupdate := refills_updateExpireTime s2
    have hsame : s2.updateExpireTime.runTask = s2.runTask ∧ s2.updateExpireTime.currTime = s2.currTime :=
      ⟨congrArg (·.2.1) hupdate.rest, congrArg (·.2.2.2.1) hupdate.rest⟩
    exact .fresh (hupdate.sliced h2) (by rw [hupdate.start, hsame.1, hself.1]) (hsame.2.trans hself.2) le_rfl
  · rw [if_pos (by simpa [atTime] using hsched)]
    exact ⟨hat, fun hc => absurd hc hsched, le_rfl⟩

/-- **A tick or a switch whose subtraction fits.** -/
theorem Ticking.Ok.step {op : SliceOp} (h : s.Ok) (hok : s.Timely op ∧ s.Fits op)
    (hstep : s.step op = some s') : s'.Ok := by
  cases op <;> obtain rfl := Option.some.inj hstep
  case tick => exact h.tick hok.1 hok.2
  case schedule now =>
    obtain ⟨⟨hle, -⟩, hfits⟩ := hok
    have hat : (s.atTime now).Sliced := ⟨h.sliced.slice, h.sliced.range⟩
    unfold schedule
    split_ifs with hgo
    · have hstart := h.start (by simp only [atTime, Bool.and_eq_true] at hgo; exact hgo.1)
      obtain ⟨h', hnow, hcurr⟩ := hat.archTaskSchedule (hstart.2.trans hle) hfits
      exact .fresh h' hnow hcurr (h.last.trans hle)
    · exact ⟨hat, fun hsched => ⟨(h.start hsched).1, (h.start hsched).2.trans hle⟩, h.last.trans hle⟩
  all_goals exact ⟨⟨h.sliced.slice, h.sliced.range⟩, h.start, h.last⟩

/-- **Time slices do not wrap** in a run of ticks and switches in which what is left of the running
task's slice is never below `-2 ^ 31`: no slice is above `g_schedTimeSlice`, and the next
`OsTimeSliceUpdate` subtracts the exact time. -/
theorem slices_do_not_wrap {run : List SliceOp} (h : s.Ok)
    (hok : Guarded Ticking.step (fun s op => s.Timely op ∧ s.Fits op) s run)
    (hrun : exec Ticking.step s run = some s') : (∀ t, (s'.tcb t).timeSlice ≤ s'.schedTimeSlice) ∧
      (s'.taskScheduled = true → ∀ now, s'.currTime ≤ now → now ≤ s'.lastTick + tickResponseMax →
        s'.incTime now = now - (s'.tcb s'.runTask).startTime) := by
  have h' : s'.Ok := exec_inv_guarded (fun _ _ _ h hok => h.step hok) h hok hrun
  exact ⟨fun t => (h'.sliced.slice t).2, fun hsched now => h'.incTime_eq hsched⟩

end

/-- Task 1 runs, nobody else is ready, and the ready queues and the sort link are empty. -/
def soloTask : Ticking where
  heap := ⟨some, some, false⟩
  tcb t := { LosTaskCB.zero with taskID := t, timeSlice := 20000 }
  queueBitmap := 0
  idleTaskID := 0
  runTask := 1
  newTask := 1
  losTaskLock := 1
  taskScheduled := true
  currTime := 0
  sysClock := 1000000
  tickPeriodMax := tickResponseMax
  schedTimeSlice := 20000
  schedTimeSliceMin := 50
  schedTickMinPeriod := 10000
  tickResponsePrecision := 7500
  schedResponseID := osInvalid
  schedResponseTime := invalidTime
  fault := none
  lastTick := 0

theorem soloTask_ok : soloTask.Ok :=
  ⟨⟨fun _ => (by decide : (-2 ^ 31 : Int) ≤ 20000 ∧ (20000 : Int) ≤ 20000), by decide⟩, fun _ => by decide, by decide⟩

/-- Two ticks with the scheduler locked. -/
def lockedTicks : List SliceOp := [.tick 16000000, .tick 32000000]

theorem slices_do_not_wrap_locked : ∃ s', exec Ticking.step soloTask lockedTicks = some s' ∧
    ∀ t, (s'.tcb t).timeSlice ≤ s'.schedTimeSlice := by
  have hok : Guarded Ticking.step (fun s op => s.Timely op ∧ s.Fits op) soloTask lockedTicks := by decide +kernel
  exact ⟨_, rfl, (slices_do_not_wrap soloTask_ok hok rfl).1⟩

/-- With the scheduler locked for 129 ticks of the longest period the slice becomes positive. -/
theorem slice_wraps : ((exec Ticking.step soloTask ((List.range 129).map fun i =>
    .tick ((i + 1) * tickResponseMax))).map fun s => (s.tcb 1).timeSlice) = some 2130726561 := by
  decide +kernel

end LiteosM.Kernel
