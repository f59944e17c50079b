import LiteosM.Components.Signal

/-!
# Waking a task that waits for signals

A task that waits keeps its `OS_SIGNAL_STATUS_WAIT` and its `sigWaitFlag` until it runs again. A
`LOS_SignalSend` that comes after its wait has ended, by an earlier signal or by its timeout, therefore
takes it for a task in `g_waitSignalList`.

* `Roused.step`: what one step keeps, as long as each wait is sent to before it has ended;
* **`signal_wakes_once`**: in every run in which that is so, `OsSchedTaskWake` is applied by a send to tasks
  in `g_waitSignalList` only, and the assertion of `OsSchedTaskEnQueue` does not fail.

While the scheduler is locked `LOS_Schedule` does not switch, and a `LOS_SignalWait` that should wait returns
with its task in the list.

The system and its steps are those of `Components.Signal`.
-/

namespace LiteosM.Components

open LiteosM.Lib LiteosM.Kernel Function Option Bool Signals

/-- `OS_SIGNAL_STATUS_WAIT` is set. -/
def SigTask.waits (c : SigTask) : Bool :=
  match c.sig with
  | some cb => cb.sigWait
  | none => false

/-- What the state of a task says of its `pendList`; `ended` is that of its wait. The last
holds when no send came too late. -/
structure TaskRoused (timely : Prop) (c : SigTask) (ended : Bool) : Prop where
  ready : c.ready = true → c.pend = false ∧ c.suspend = false ∧ c.running = false
  linked : c.pendList = some .waitSignal ∨ c.pendList = some .other → c.pend = true
  listed : c.pendList = some .waitSignal → ended = false
  waits : timely → c.waits = true → ended = false → c.pendList = some .waitSignal

/-- What the scheduler looks at. -/
def SigTask.view (c : SigTask) : Bool × Bool × Bool × Bool × Option PendList × Bool :=
  (c.ready, c.pend, c.suspend, c.running, c.pendList, c.waits)

/-- The invariant of the scheduler, and of the sends if all were in time. -/
structure Roused (timely : Prop) (s : Signals) : Prop where
  task : ∀ t, TaskRoused timely (s.task t) (s.ended t)
  running : ∀ t, (s.task t).running = true ↔ t = s.runTask
  lock : s.losTaskLock ≠ 0 → (s.task s.runTask).suspend = false ∧
    ((s.task s.runTask).pend = true → (s.task s.runTask).pendList = some .waitSignal)
  wake : timely → s.badWake = false
  sound : timely → s.assertFailed = false

namespace Signals

/-- The target waits for the signal, as its control block has it. -/
def Awaited (s : Signals) (target sigNo : Nat) : Prop :=
  ∃ cb ∈ (s.task target).sig, cb.sigWait = true ∧ inSet cb.sigWaitFlag sigNo = true
  deriving Decidable

/-- The send of the second section that comes next, if one does. -/
def nextSend (s : Signals) : Option (Nat × Nat) :=
  match (s.task s.runTask).stack with
  | .send target sigNo :: _ => some (target, sigNo)
  | _ => none

/-- A signal for a task that waits for it comes before the wait has ended. -/
def InTime (s : Signals) : SigLabel → Prop
  | .run => ∀ p ∈ s.nextSend, p.1 ≠ s.runTask → s.Awaited p.1 p.2 → s.ended p.1 = false
  | _ => True

instance decidableInTime (s : Signals) (l : SigLabel) : Decidable (s.InTime l) := by
  unfold InTime
  repeat' split
  all_goals infer_instance

end Signals

section
variable {timely : Prop} {s s' : Signals} {t : Nat} {c c' : SigTask} {e : Bool} {f : SigTask → SigTask}

theorem TaskRoused.congr (h : TaskRoused timely c e) (hview : c'.view = c.view) : TaskRoused timely c' e := by
  obtain ⟨hready, hpend, hsuspend, hrunning, hlist, hwaits⟩ : c'.ready = c.ready ∧ c'.pend = c.pend ∧
      c'.suspend = c.suspend ∧ c'.running = c.running ∧ c'.pendList = c.pendList ∧ c'.waits = c.waits := by
    simpa [SigTask.view] using hview
  constructor
  · rw [hready, hpend, hsuspend, hrunning]
    exact h.ready
  · rw [hlist, hpend]
    exact h.linked
  · rw [hlist]
    exact h.listed
  · rw [hwaits, hlist]
    exact h.waits

theorem setTask_self : (s.setTask t f).task t = f (s.task t) := update_self ..

variable {u : Nat}

theorem setTask_of_ne (hu : u ≠ t) : (s.setTask t f).task u = s.task u := update_of_ne hu ..

theorem setTask_runTask : (s.setTask t f).runTask = s.runTask := rfl

theorem setTask_setTask {g : SigTask → SigTask} : (s.setTask t f).setTask t g = s.setTask t (g ∘ f) := by
  unfold setTask
  dsimp only
  rw [update_self, update_idem]
  rfl

theorem waits_of_sig {cb : OsSigCB} (hcb : c.sig = some cb) : c.waits = cb.sigWait := by
  unfold SigTask.waits
  rw [hcb]

section
variable (h : Roused timely s)
include h

/-- One task changes, and nothing that is said of the others. -/
theorem Roused.setTask {ended : Nat → Bool} {badWake assertFailed : Bool} (hended : ∀ u, u ≠ t → ended u = s.ended u)
    (hwake : timely → badWake = false) (hsound : timely → assertFailed = false)
    (htask : TaskRoused timely (f (s.task t)) (ended t)) (hrunning : (f (s.task t)).running = (s.task t).running)
    (hlock : t = s.runTask → s.losTaskLock ≠ 0 → (f (s.task t)).suspend = false ∧
      ((f (s.task t)).pend = true → (f (s.task t)).pendList = some .waitSignal)) :
    Roused timely ({ s with ended, badWake, assertFailed }.setTask t f) := by
  refine ⟨fun u => ?_, fun u => ?_, fun hne => ?_, hwake, hsound⟩
  · by_cases hu : u = t
    · subst hu
      rwa [setTask_self]
    · rw [setTask_of_ne hu]
      change TaskRoused timely (s.task u) (ended u)
      exact hended u hu ▸ h.task u
  · by_cases hu : u = t
    · subst hu
      rw [setTask_self, hrunning]
      exact h.running u
    · rw [setTask_of_ne hu]
      exact h.running u
  change ((Signals.setTask _ t f).task s.runTask).suspend = false ∧
    (((Signals.setTask _ t f).task s.runTask).pend = true → ((Signals.setTask _ t f).task s.runTask).pendList = _)
  by_cases hu : s.runTask = t
  · rw [hu, setTask_self]
    exact hlock hu.symm hne
  · rw [setTask_of_ne hu]
    exact h.lock hne

/-- Nothing changes that the scheduler looks at. -/
theorem Roused.quiet (hview : (f (s.task t)).view = (s.task t).view) : Roused timely (s.setTask t f) := by
  have hview' := hview
  simp only [SigTask.view, Prod.mk.injEq] at hview'
  obtain ⟨-, hpend, hsuspend, hrunning, hlist, -⟩ := hview'
  refine h.setTask (fun _ _ => rfl) h.wake h.sound ((h.task t).congr hview) hrunning fun heq hne => ?_
  rw [hpend, hsuspend, hlist, heq]
  exact h.lock hne

theorem Roused.returns {stack : List SigFrame} {ret : SigRet} : Roused timely (s.returns t stack ret) :=
  h.quiet rfl

/-- A control block is replaced by one with the same status. -/
theorem Roused.setCB {cb : OsSigCB} (hwait : cb.sigWait = (s.task t).waits) : Roused timely (s.setCB t cb) := by
  refine h.quiet ?_
  unfold SigTask.view SigTask.waits at *
  dsimp only
  rw [hwait]

/-- The records of signals are not looked at. -/
theorem Roused.record {a b d : Nat → Nat → Nat} :
    Roused timely { s with accepted := a, consumed := b, handled := d } :=
  ⟨h.task, h.running, h.lock, h.wake, h.sound⟩

end

variable {alloc : Bool}

theorem sigWait_of_init {cb : OsSigCB} (hcb : s.signalCBInit t alloc = some cb) :
    cb.sigWait = (s.task t).waits := by
  unfold signalCBInit at hcb
  unfold SigTask.waits
  cases hsig : (s.task t).sig with
  | some cb' =>
    rw [hsig] at hcb
    rw [some.inj hcb]
  | none =>
    rw [hsig] at hcb
    obtain ⟨-, hcb⟩ := ite_none_right_eq_some.mp hcb
    cases hcb
    rfl

theorem deleteSigInfo_sigWait {cb : OsSigCB} {n : Nat} : (cb.deleteSigInfo n).sigWait = cb.sigWait := by
  unfold OsSigCB.deleteSigInfo
  split <;> rfl

/-! ## The scheduler -/

/-- The running task is not in a queue. -/
theorem Roused.ready_runTask (h : Roused timely s) : (s.task s.runTask).ready = false := by
  refine eq_false_iff.mpr fun hready => ?_
  have hrun := (h.running s.runTask).mpr rfl
  simp [((h.task _).ready hready).2.2] at hrun

/-- A task that goes on is not suspended, and waits for signals at most. -/
theorem Roused.goesOn_runTask (h : Roused timely s) (hgo : s.goesOn = true) : (s.task s.runTask).suspend = false ∧
    ((s.task s.runTask).pend = true → (s.task s.runTask).pendList = some .waitSignal) := by
  rcases or_eq_true_iff.mp hgo with hgo | hgo
  · obtain ⟨hpend, hsuspend⟩ : (s.task s.runTask).pend = false ∧ (s.task s.runTask).suspend = false := by
      simpa using hgo
    exact ⟨hsuspend, fun hc => absurd (hc.symm.trans hpend) (by decide)⟩
  · exact h.lock (by simpa using hgo)

/-- A task that goes on does not wait, unless the scheduler is locked. -/
theorem pend_of_goesOn (hgo : s.goesOn = true) (hlock : s.losTaskLock = 0) : (s.task s.runTask).pend = false := by
  unfold goesOn at hgo
  rw [hlock] at hgo
  simp only [ne_eq, not_true_eq_false, decide_false, Bool.or_false, and_eq_true, not_eq_true'] at hgo
  exact hgo.1

theorem Roused.running_of_ne (h : Roused timely s) (ht : t ≠ s.runTask) : (s.task t).running = false := by
  exact eq_false_iff.mpr fun hrun => ht ((h.running t).mp hrun)

/-- A task that waits is not ready. -/
theorem TaskRoused.ready_of_pend (h : TaskRoused timely c e) (hpend : c.pend = true) : c.ready = false := by
  refine eq_false_iff.mpr fun hready => ?_
  simp [(h.ready hready).1] at hpend

theorem TaskRoused.ready_of_suspend (h : TaskRoused timely c e) (hsuspend : c.suspend = true) : c.ready = false := by
  refine eq_false_iff.mpr fun hready => ?_
  simp [(h.ready hready).2.1] at hsuspend

/-- The wait of a task that is not blocked is over. -/
theorem TaskRoused.ended_of_not_pend (h : TaskRoused timely c e) (hpend : c.pend = false) (htimely : timely)
    (hwaits : c.waits = true) : e = true := by
  cases he : e with
  | true => rfl
  | false => simp [h.linked (.inl (h.waits htimely hwaits he))] at hpend

/-- A task that is in no list of waiting tasks, and whose wait is over. -/
theorem taskRoused_unlinked (hready : c.ready = true → c.pend = false ∧ c.suspend = false ∧ c.running = false)
    (hlist : c.pendList = none ∨ c.pendList = some .ready) (hdone : timely → c.waits = true → e = true) :
    TaskRoused timely c e := by
  refine ⟨hready, fun hc => ?_, fun hc => ?_, fun ht hw he => ?_⟩
  · rcases hlist with hlist | hlist <;> simp [hlist] at hc
  · rcases hlist with hlist | hlist <;> simp [hlist] at hc
  · simp [hdone ht hw] at he

theorem taskEnQueue_self : (s.taskEnQueue t).task t =
    { s.task t with
      pendList := some .ready, pend := false, suspend := false, pendTime := false, ready := true } :=
  update_self ..

theorem taskEnQueue_of_ne (hu : u ≠ t) : (s.taskEnQueue t).task u = s.task u :=
  update_of_ne hu ..

section
variable (h : Roused timely s)
include h

/-- A task that is not ready yet goes to its ready queue. -/
theorem Roused.taskEnQueue (ht : t ≠ s.runTask) (hready : timely → (s.task t).ready = false)
    (hdone : timely → (s.task t).waits = true → s.ended t = true) : Roused timely (s.taskEnQueue t) := by
  refine h.setTask (fun _ _ => rfl) h.wake (fun htimely => ?_)
    (taskRoused_unlinked (fun _ => ⟨rfl, rfl, h.running_of_ne ht⟩) (.inr rfl) hdone) rfl fun heq => absurd heq ht
  rw [h.sound htimely, hready htimely]
  rfl

/-- A task that waits is woken, and the wait is over. -/
theorem Roused.taskWake {ended : Nat → Bool} {badWake : Bool}
    (hended : ∀ u, u ≠ t → ended u = s.ended u) (hbad : timely → badWake = false) (ht : t ≠ s.runTask)
    (hpend : timely → (s.task t).pend = true) (hdone : timely → (s.task t).waits = true → ended t = true) :
    Roused timely ({ s with ended := ended, badWake := badWake }.taskWake t) := by
  have hset := h.setTask (f := fun c => { c with pendList := none, pend := false, pendTime := false }) hended hbad
    h.sound (taskRoused_unlinked (fun hc => ⟨rfl, ((h.task t).ready hc).2⟩) (.inl rfl) hdone) rfl fun heq => absurd heq ht
  unfold Signals.taskWake
  dsimp only
  split
  · refine hset.taskEnQueue ht ?_ ?_ <;> rw [setTask_self]
    · exact fun htimely => (h.task t).ready_of_pend (hpend htimely)
    · exact hdone
  · exact hset

/-- The wait of a task ends with its timeout. -/
theorem Roused.wakePendTimeTask (hpend : (s.task t).pend = true)
    (hrun : (s.task t).running = false) : Roused timely (s.wakePendTimeTask t) := by
  have ht : t ≠ s.runTask := fun heq => by simp [(h.running t).mpr heq] at hrun
  have hset : Roused timely ({ s with ended := update s.ended t true }.setTask t fun c =>
      { c with pend := false, pendTime := false, pendList := none, timeout := true }) :=
    h.setTask (fun u hu => update_of_ne hu ..) h.wake h.sound
      (taskRoused_unlinked (fun hc => ⟨rfl, ((h.task t).ready hc).2⟩) (.inl rfl) fun _ _ => update_self ..) rfl
      fun heq => absurd heq ht
  unfold Signals.wakePendTimeTask
  dsimp only
  split
  · refine hset.taskEnQueue ht (fun _ => ?_) fun _ _ => update_self ..
    rw [setTask_self]
    exact (h.task t).ready_of_pend hpend
  · exact hset

/-- A task that is not ready is suspended, or resumed. -/
theorem Roused.setSuspend {b : Bool} (hready : (s.task t).ready = false)
    (hlock : t = s.runTask → s.losTaskLock = 0) : Roused timely (s.setTask t fun c => { c with suspend := b }) := by
  refine h.setTask (fun _ _ => rfl) h.wake h.sound
    ⟨fun hc => ?_, (h.task t).linked, (h.task t).listed, (h.task t).waits⟩ rfl fun heq hne => absurd (hlock heq) hne
  simp [hready] at hc

theorem Roused.resume (hgo : s.goesOn = true) (hsuspend : (s.task t).suspend = true) :
    Roused timely (let s := s.setTask t fun c => { c with suspend := false }
      if (s.task t).pend then s else s.taskEnQueue t) := by
  have ht : t ≠ s.runTask := fun heq => by simp [heq, (h.goesOn_runTask hgo).1] at hsuspend
  have hready := (h.task t).ready_of_suspend hsuspend
  have hset := h.setSuspend (b := false) hready fun heq => absurd heq ht
  dsimp only
  split
  · exact hset
  · rename_i hpend
    refine hset.taskEnQueue ht (fun _ => ?_) ((hset.task t).ended_of_not_pend (eq_false_iff.mpr hpend))
    rwa [setTask_self]

theorem Roused.suspend (hlock : t = s.runTask → s.losTaskLock = 0) :
    Roused timely ((s.taskDeQueue t).setTask t fun c => { c with suspend := true }) := by
  unfold taskDeQueue
  split
  · rename_i hready
    refine Roused.setSuspend (h.setTask (fun _ _ => rfl) h.wake h.sound (taskRoused_unlinked (fun hc => ?_) (.inl rfl)
      ((h.task t).ended_of_not_pend ((h.task t).ready hready).1)) rfl fun heq hne => absurd (hlock heq) hne) ?_ hlock
    · cases hc
    · rw [setTask_self]
  · rename_i hready
    exact h.setSuspend (eq_false_iff.mpr hready) hlock

/-- The running task goes to wait. -/
theorem Roused.taskWait {list : PendList} {ended : Nat → Bool} (hended : ∀ u, u ≠ s.runTask → ended u = s.ended u)
    (hsame : ((f (s.task s.runTask)).ready, (f (s.task s.runTask)).suspend, (f (s.task s.runTask)).running) =
      ((s.task s.runTask).ready, (s.task s.runTask).suspend, (s.task s.runTask).running))
    (hpend : (f (s.task s.runTask)).pend = true) (hpendList : (f (s.task s.runTask)).pendList = some list)
    (hlist : list = .waitSignal ∧ ended s.runTask = false ∨ list = .other ∧ s.losTaskLock = 0 ∧
        (timely → (f (s.task s.runTask)).waits = true → ended s.runTask = true)) :
    Roused timely ({ s with ended }.setTask s.runTask f) := by
  simp only [Prod.mk.injEq] at hsame
  obtain ⟨hready, hsuspend, hrunning⟩ := hsame
  refine h.setTask hended h.wake h.sound ⟨fun hc => ?_, fun _ => hpend, fun hc => ?_, fun ht hw he => ?_⟩ hrunning
    fun _ hne => ?_
  · simp [hready, h.ready_runTask] at hc
  all_goals rcases hlist with ⟨hsignal, hended⟩ | ⟨hother, hlock, hdone⟩
  · exact hended
  · simp [hpendList, hother] at hc
  · exact hpendList.trans (congrArg some hsignal)
  · simp [hdone ht hw] at he
  · exact ⟨hsuspend.trans (h.lock hne).1, fun _ => hpendList.trans (congrArg some hsignal)⟩
  · exact absurd hlock hne

end

theorem putRunTask_of_ne (hu : u ≠ s.runTask) : s.putRunTask.task u = s.task u := by
  unfold putRunTask
  simp only [setTask_self]
  split
  · exact setTask_of_ne hu
  · rw [taskEnQueue_of_ne hu]
    exact setTask_of_ne hu

theorem putRunTask_frame : s.putRunTask.ended = s.ended ∧ s.putRunTask.losTaskLock = s.losTaskLock ∧
    s.putRunTask.badWake = s.badWake := by
  unfold putRunTask
  simp only [setTask_self]
  split <;> exact ⟨rfl, rfl, rfl⟩

/-- The task that ran is blocked or in its ready queue. -/
theorem Roused.putRunTask (h : Roused timely s) :
    TaskRoused timely (s.putRunTask.task s.runTask) (s.ended s.runTask) ∧
      (s.putRunTask.task s.runTask).running = false ∧ (timely → s.putRunTask.assertFailed = false) := by
  have hready := h.ready_runTask
  unfold Signals.putRunTask
  simp only [setTask_self]
  split
  · rw [setTask_self]
    refine ⟨⟨fun hc => ?_, (h.task _).linked, (h.task _).listed, (h.task _).waits⟩, rfl, h.sound⟩
    simp [hready] at hc
  rename_i hblocked
  have hpend : (s.task s.runTask).pend = false := eq_false_iff.mpr fun hpend => hblocked (by rw [hpend]; rfl)
  rw [taskEnQueue_self, setTask_self]
  refine ⟨taskRoused_unlinked (fun _ => ⟨rfl, rfl, rfl⟩) (.inr rfl) ((h.task _).ended_of_not_pend hpend), rfl,
    fun htimely => ?_⟩
  change (s.assertFailed || ((s.setTask s.runTask _).task s.runTask).ready) = false
  rwa [setTask_self, h.sound htimely]

section
variable (ht : t ≠ s.runTask) (hready : (s.task t).ready = true)
include ht hready

theorem switch_eq :
    s.switch t = { s.putRunTask.setTask t fun c => { c with pendList := none, ready := false, running := true } with
      runTask := t } := by
  have hdeq : s.putRunTask.taskDeQueue t =
      s.putRunTask.setTask t fun c => { c with pendList := none, ready := false } := by
    unfold taskDeQueue
    rw [putRunTask_of_ne ht, if_pos hready]
  unfold switch
  rw [hdeq, setTask_setTask]
  rfl

theorem switch_self :
    (s.switch t).task t = { s.task t with pendList := none, ready := false, running := true } := by
  rw [switch_eq ht hready]
  rw [setTask_self, putRunTask_of_ne ht]

theorem switch_of_ne (hu : u ≠ t) : (s.switch t).task u = s.putRunTask.task u := by
  rw [switch_eq ht hready]
  dsimp only
  exact setTask_of_ne hu

end

/-- A task that is ready does not run. -/
theorem Roused.ne_runTask (h : Roused timely s) (hready : (s.task t).ready = true) : t ≠ s.runTask := by
  rintro rfl
  simp [h.ready_runTask] at hready

theorem Roused.switch (h : Roused timely s) (hlock : s.losTaskLock = 0) (hready : (s.task t).ready = true) :
    Roused timely (s.switch t) := by
  have hpend := ((h.task t).ready hready).1
  have ht := h.ne_runTask hready
  obtain ⟨htask, hput, hsound⟩ := h.putRunTask
  obtain ⟨hended, hlocked, hwake⟩ := putRunTask_frame
  have hframe : (s.switch t).ended = s.putRunTask.ended ∧ (s.switch t).losTaskLock = s.putRunTask.losTaskLock ∧
      (s.switch t).badWake = s.putRunTask.badWake ∧ (s.switch t).assertFailed = s.putRunTask.assertFailed := by
    rw [switch_eq ht hready]
    exact ⟨rfl, rfl, rfl, rfl⟩
  refine ⟨fun u => ?_, fun u => ?_, fun hne => ?_, ?_, ?_⟩
  · rw [hframe.1, hended]
    by_cases hu : u = t
    · rw [hu, switch_self ht hready]
      exact taskRoused_unlinked nofun (.inl rfl) ((h.task t).ended_of_not_pend hpend)
    rw [switch_of_ne ht hready hu]
    by_cases hr : u = s.runTask
    · rwa [hr]
    · rw [putRunTask_of_ne hr]
      exact h.task u
  · have hrun : (s.switch t).runTask = t := by rw [switch_eq ht hready]
    by_cases hu : u = t
    · rw [hu, switch_self ht hready]
      exact iff_of_true rfl rfl
    rw [switch_of_ne ht hready hu]
    refine iff_of_false (fun hc => ?_) hu
    by_cases hr : u = s.runTask
    · simp [hr, hput] at hc
    · simp [putRunTask_of_ne hr, h.running_of_ne hr] at hc
  · rw [hframe.2.1, hlocked] at hne
    exact absurd hlock hne
  · rw [hframe.2.2.1, hwake]
    exact h.wake
  · rwa [hframe.2.2.2]

/-! ## The calls -/

theorem Roused.signalSet (h : Roused timely s) {sigNo : Nat} {handler : SigHandler} :
    Roused timely (s.signalSet sigNo handler alloc) := by
  unfold Signals.signalSet
  dsimp only
  split
  · exact h.returns
  split
  · exact h.returns
  rename_i cb hcb
  refine (h.setCB ?_).returns
  rw [← sigWait_of_init hcb]
  cases handler <;> rfl

theorem Roused.signalMask (h : Roused timely s) {how : SigHow} {set : Option (BitVec 32)} :
    Roused timely (s.signalMask how set alloc) := by
  unfold Signals.signalMask
  dsimp only
  split
  · exact h.returns
  rename_i cb hcb
  split
  · exact (h.setCB (sigWait_of_init hcb)).returns
  · have hwait := sigWait_of_init hcb
    refine Roused.returns (Roused.setCB h ?_)
    exact hwait

theorem setCB_waits {cb : OsSigCB} : ((s.setCB t cb).task t).waits = cb.sigWait := by
  unfold setCB SigTask.waits
  rw [setTask_self]

section
variable (h : Roused timely s)
include h

theorem Roused.signalSend {target sigNo : Nat} {alloc allocInfo : Bool} :
    Roused timely (s.signalSend target sigNo alloc allocInfo) := by
  unfold Signals.signalSend
  split
  · exact h.returns
  split
  · exact h.returns
  rename_i cb hcb
  have hset := h.setCB (sigWait_of_init hcb)
  split
  · exact hset.returns
  split
  · exact hset.returns
  split
  · refine Roused.returns (Roused.setCB hset ?_)
    rw [setCB_waits]
  · exact hset.returns

theorem Roused.signalWait {set : Option (BitVec 32)} {timeout : Nat}
    : Roused timely (s.signalWait set timeout alloc) := by
  unfold Signals.signalWait
  dsimp only
  split
  · exact h.returns
  split
  · exact h.returns
  split
  · exact h.returns
  rename_i cb hcb
  split
  · have hwait := sigWait_of_init hcb
    refine Roused.returns (Roused.setCB h.record ?_)
    rwa [deleteSigInfo_sigWait]
  split
  · exact (h.setCB (sigWait_of_init hcb)).returns
  unfold Signals.taskWait Signals.setCB
  rw [setTask_runTask, setTask_setTask]
  exact Roused.returns (h.taskWait (fun u hu => update_of_ne hu ..) rfl rfl rfl (.inl ⟨rfl, update_self ..⟩))

/-- The status is cleared. -/
theorem Roused.clearCB {cb : OsSigCB} (hcb : cb.sigWait = false) : Roused timely (s.setCB t cb) := by
  refine h.setTask (fun _ _ => rfl) h.wake h.sound
    ⟨(h.task t).ready, (h.task t).linked, (h.task t).listed, fun _ hc => ?_⟩ rfl fun heq hne => ?_
  · change cb.sigWait = true at hc
    simp [hcb] at hc
  · rw [heq]
    exact h.lock hne

variable {stack : List SigFrame}

/-- A wait is over when its task runs again. -/
theorem Roused.signalWaited : Roused timely (s.signalWaited stack) := by
  unfold Signals.signalWaited
  dsimp only
  split
  · exact h
  have h1 : Roused timely (s.setTask s.runTask fun c => { c with signal := false }) := h.quiet rfl
  split
  · exact Roused.returns (Roused.quiet (h1.clearCB rfl) rfl)
  · exact Roused.returns (Roused.clearCB h1.record rfl)

theorem Roused.signalHandle {cleanStatus again : Bool} :
    Roused timely (s.signalHandle cleanStatus again stack) := by
  unfold Signals.signalHandle
  dsimp only
  split
  · exact h.returns
  rename_i cb hcb
  have hwait := (waits_of_sig hcb).symm
  generalize hs1 : (if (cleanStatus && again) = true then
    s.setTask s.runTask fun c => { c with signal := false } else s) = s1
  have h1 : Roused timely s1 := by
    rw [← hs1]
    split
    · exact h.quiet rfl
    · exact h
  have hwait1 : cb.sigWait = (s1.task s.runTask).waits := by
    rw [← hs1, hwait]
    split
    · rw [setTask_self]
      rfl
    · rfl
  split
  · exact h1.returns
  have hset : ∀ flag, Roused timely (s1.setCB s.runTask
      { cb.deleteSigInfo (topSignal (cb.sigPendFlag &&& cb.sigSetFlag)) with sigPendFlag := flag }) := by
    intro flag
    refine h1.setCB ?_
    rwa [deleteSigInfo_sigWait]
  split
  · exact (hset _).returns
  · exact Roused.returns (Roused.record (hset _))

/-- The second section of `LOS_SignalSend`: if the target waits for the signal, its wait has not ended. -/
theorem Roused.signalSend2 {target sigNo : Nat}
    (hok : timely → target ≠ s.runTask → s.Awaited target sigNo → s.ended target = false) :
    Roused timely (s.signalSend2 target sigNo stack) := by
  unfold Signals.signalSend2
  dsimp only
  split
  · exact h.returns
  rename_i cb hcb
  have hwait := (waits_of_sig hcb).symm
  generalize hs1 : (if cb.pending sigNo = true then s else
    { s with accepted := count s.accepted target sigNo }) = s1
  have h1 : Roused timely s1 := by
    rw [← hs1]
    split
    · exact h
    · exact h.record
  have htask1 : s1.task = s.task ∧ s1.runTask = s.runTask ∧ s1.ended = s.ended := by
    rw [← hs1]
    split <;> exact ⟨rfl, rfl, rfl⟩
  have h2 : Roused timely (s1.setCB target { cb with sigPendFlag := cb.sigPendFlag ||| signalMaskOf sigNo }) := by
    refine h1.setCB ?_
    rwa [htask1.1]
  split
  · exact Roused.returns (h2.quiet rfl)
  rename_i hne
  split
  · rename_i hw
    split
    · rename_i hin
      generalize hs3 : (s1.setCB target { cb with sigPendFlag := cb.sigPendFlag ||| signalMaskOf sigNo }).setCB
        target (OsSigCB.deleteSigInfo { cb with sigPendFlag := cb.sigPendFlag ||| signalMaskOf sigNo } sigNo) = s3
      have h3 : Roused timely s3 := by
        rw [← hs3]
        refine h2.setCB ?_
        rw [deleteSigInfo_sigWait, setCB_waits]
      have hlist3 : timely → (s3.task target).pendList = some .waitSignal := by
        intro htimely
        rw [← hs3]
        unfold Signals.setCB
        rw [setTask_self, setTask_self, htask1.1]
        exact (h.task target).waits htimely (hwait ▸ hw) (hok htimely hne ⟨cb, hcb, hw, hin⟩)
      have hrun3 : target ≠ s3.runTask := by
        rw [← hs3]
        change target ≠ s1.runTask
        rwa [htask1.2.1]
      refine Roused.returns (Roused.quiet (h3.taskWake (fun u hu => update_of_ne hu ..)
        (fun htimely => ?_) hrun3 (fun htimely => (h3.task target).linked (.inl (hlist3 htimely)))
        fun _ _ => update_self ..) rfl)
      rw [hlist3 htimely, h3.wake htimely]
      rfl
    · exact h2.returns
  · split
    · exact Roused.returns (h2.quiet rfl)
    · exact h2.returns

theorem Roused.runSection (hok : timely → s.InTime .run)
    (hrun : s.runSection = some s') : Roused timely s' := by
  unfold Signals.runSection at hrun
  dsimp only at hrun
  split at hrun <;> cases hrun
  · rename_i target sigNo stack hstack
    have hnext : s.nextSend = some (target, sigNo) := by
      unfold nextSend
      rw [hstack]
    exact h.signalSend2 fun htimely => hok htimely _ hnext
  · exact h.signalWaited
  · exact h.signalHandle
  · exact h.returns
  · exact Roused.returns (h.quiet rfl)
  · exact Roused.returns (h.quiet rfl)

/-- **One step.** -/
theorem Roused.step {l : SigLabel} (hok : timely → s.InTime l)
    (hstep : s.step l = some s') : Roused timely s' := by
  cases l with
  | set sigNo handler alloc =>
    obtain ⟨-, rfl⟩ := guarded_inj hstep
    exact h.signalSet
  | mask how set alloc =>
    obtain ⟨-, rfl⟩ := guarded_inj hstep
    exact h.signalMask
  | send target sigNo alloc allocInfo =>
    obtain ⟨-, rfl⟩ := guarded_inj hstep
    exact h.signalSend
  | wait set timeout alloc =>
    obtain ⟨-, rfl⟩ := guarded_inj hstep
    exact h.signalWait
  | run =>
    obtain ⟨-, hstep⟩ := ite_none_right_eq_some.mp hstep
    exact h.runSection hok hstep
  | switch t =>
    obtain ⟨⟨hlock, hready⟩, rfl⟩ := guarded_inj hstep
    exact h.switch hlock hready
  | expire t =>
    obtain ⟨⟨hpend, -, hrun⟩, rfl⟩ := guarded_inj hstep
    exact h.wakePendTimeTask hpend (by simpa using hrun)
  | suspend t =>
    obtain ⟨⟨-, -, -, hlock⟩, rfl⟩ := guarded_inj hstep
    exact h.suspend hlock
  | resume t =>
    obtain ⟨⟨hgo, -, hsuspend⟩, rfl⟩ := guarded_inj hstep
    exact h.resume hgo hsuspend
  | block forever =>
    obtain ⟨⟨hgo, -, hlock⟩, rfl⟩ := guarded_inj hstep
    have hdone := (h.task s.runTask).ended_of_not_pend (pend_of_goesOn hgo hlock)
    exact Roused.returns (h.taskWait (fun _ _ => rfl) rfl rfl rfl (.inr ⟨rfl, hlock, hdone⟩))
  | wake t =>
    obtain ⟨⟨hgo, -, hlist⟩, rfl⟩ := guarded_inj hstep
    have hpend := (h.task t).linked (.inr hlist)
    have ht : t ≠ s.runTask := fun heq => by
      rw [heq] at hpend hlist
      simp [(h.goesOn_runTask hgo).2 hpend] at hlist
    refine h.taskWake (fun _ _ => rfl) h.wake ht (fun _ => hpend) fun htimely hwaits => ?_
    refine ne_false_iff.mp fun hended => ?_
    simp [(h.task t).waits htimely hwaits hended] at hlist
  | lock =>
    obtain ⟨⟨hgo, -⟩, rfl⟩ := guarded_inj hstep
    exact ⟨h.task, h.running, fun _ => h.goesOn_runTask hgo, h.wake, h.sound⟩
  | unlock =>
    obtain ⟨⟨hgo, -, -⟩, rfl⟩ := guarded_inj hstep
    exact ⟨h.task, h.running, fun _ => h.goesOn_runTask hgo, h.wake, h.sound⟩

end

theorem Roused.init : Roused timely .init := by
  refine ⟨fun t => ?_, fun t => ?_, fun hc => absurd rfl hc, fun _ => rfl, fun _ => rfl⟩
  · by_cases ht : t = 0
    · exact taskRoused_unlinked (by simp [Signals.init, ht]) (by simp [Signals.init, ht]) fun _ _ => rfl
    · exact taskRoused_unlinked (by simp [Signals.init, ht]) (by simp [Signals.init, ht]) fun _ _ => rfl
  · simp [Signals.init]

end

/-! ## Whole runs -/

/-- The scheduler in every run. -/
theorem roused_scheduler {ls : List SigLabel} {s : Signals} (hrun : exec Signals.step .init ls = some s) :
    Roused False s :=
  exec_inv (fun _ _ _ h hstep => h.step False.elim hstep) Roused.init hrun

/-- In every run in which each signal for a task that waits for it comes before the wait has ended, sends wake
tasks of `g_waitSignalList` only, and no task is put into a ready queue twice. -/
theorem signal_wakes_once {ls : List SigLabel} {s : Signals} (hok : Guarded Signals.step Signals.InTime .init ls)
    (hrun : exec Signals.step .init ls = some s) : s.badWake = false ∧ s.assertFailed = false ∧
      ∀ t sigNo, s.Awaited t sigNo → ((s.task t).pendList = some .waitSignal ↔ s.ended t = false) := by
  have h : Roused True s :=
    exec_inv_guarded (fun _ _ _ h hok hstep => h.step (fun _ => hok) hstep) Roused.init hok hrun
  refine ⟨h.wake trivial, h.sound trivial, fun t sigNo hawaited => ⟨(h.task t).listed, (h.task t).waits trivial ?_⟩⟩
  obtain ⟨cb, hcb, hwait, -⟩ := hawaited
  unfold SigTask.waits
  rwa [hcb]

/-- Task 1 enables the signals 3 and 4 and waits for them, and task 2 runs. -/
def waitForTwo : List SigLabel :=
  [.switch 1, .set 3 (.fn 7) true, .set 4 (.fn 8) true, .wait (some 12) 10 true, .switch 2]

theorem roused_scheduler_waitForTwo : ∃ s, exec Signals.step .init waitForTwo = some s ∧ Roused False s :=
  ⟨_, rfl, @roused_scheduler waitForTwo _ rfl⟩

theorem signal_wakes_once_oneSend :
    ∃ s, exec Signals.step .init (waitForTwo ++ [.send 1 3 true true, .run, .switch 1, .run]) = some s ∧
      (s.task 1).ret = .signal 3 ∧ s.badWake = false ∧ s.assertFailed = false := by
  obtain ⟨s, hs, hret⟩ : ∃ s, exec Signals.step .init
      (waitForTwo ++ [.send 1 3 true true, .run, .switch 1, .run]) = some s ∧ (s.task 1).ret = .signal 3 := by
    decide +kernel
  have hsound := signal_wakes_once (by decide +kernel) hs
  exact ⟨s, hs, hret, hsound.1, hsound.2.1⟩

/-- A second signal before the waiter runs, and a signal after its timeout, find it in its ready queue. -/
theorem signal_wakes_twice :
    (exec Signals.step .init (waitForTwo ++ [.send 1 3 true true, .run, .send 1 4 true true, .run])).any (fun s =>
      s.badWake && s.assertFailed) = true ∧
    (exec Signals.step .init (waitForTwo ++ [.expire 1, .send 1 3 true true, .run])).any (fun s =>
      s.badWake && s.assertFailed) = true := by
  decide +kernel

end LiteosM.Components
