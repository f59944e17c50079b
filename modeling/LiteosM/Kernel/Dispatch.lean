import LiteosM.Kernel.View

/-!
# The tick and the switch

The loop over the sort link is a sequence of calm moves (`View.scanTimerList`). The switch is not:
it passes the running bit on. `SwitchTo v v' new M` says all that it does; `M` are the lists at the
moment when the outgoing task has been put back and the next one not yet taken.

* `View.putRunTask`: the outgoing task is where its status says;
* **`View.archTaskSchedule`**: `ArchTaskSchedule` is a `SwitchTo`;
* `SwitchTo.good`: a switch leaves the running task and the joins in order.

Premise (`Sched.InTime`): a task that goes to wait for a time gets a response time that can be told from
`OS_SORT_LINK_INVALID_TIME`. The hand-over from one host thread to the other is left to `Port.Resume`.
-/

namespace LiteosM.Kernel

open LiteosM.Lib Sched TaskStatus
open Function (update_eq_self update_of_ne update_self)

namespace View

variable (v : View) {m : Nat → Prop} {w : Node → Prop}

/-! ## The tick -/

/-- The loop of `OsSchedScanTimerList` only wakes tasks, out of the sort link. -/
theorem scanLoop (fuel : Nat) : ∀ v : View, ∃ v', v'.s = scanLoop fuel v.s ∧ Calms m w v v' ∧
    ∀ u, v.sl u = false → v'.s.tcb u = v.s.tcb u := by
  induction fuel with
  | zero => exact fun v => ⟨v, rfl, Calms.refl v, fun _ _ => rfl⟩
  | succ fuel ih =>
    intro v
    unfold Sched.scanLoop
    have hL := NodeLists.some_of_ne_none (v.placed.shape.head .taskSortLink rfl)
    split_ifs with hempty
    · exact ⟨v, rfl, Calms.refl v, fun _ _ => rfl⟩
    have hne : v.L.at .taskSortLink ≠ [] := fun hc =>
      hempty ((v.placed.shape.rings.isEmpty_iff hL).mpr hc)
    obtain ⟨x, l, hl⟩ := List.exists_cons_of_ne_nil hne
    obtain ⟨t, -, rfl, hsl⟩ :=
      v.placed.wired.mem_sortLink v.placed.pl_ne_sortLink (hl ▸ List.mem_cons_self)
    rw [v.placed.shape.rings.next_head (hL.trans (congrArg some hl))]
    dsimp only
    split_ifs with hdue
    · obtain ⟨v1, hs1, hcalm⟩ := v.expire hsl
      obtain ⟨v2, hs2, hcalms, hrest⟩ := ih v1
      refine ⟨v2, ?_, (Calms.one hcalm).trans hcalms, fun u hu => ?_⟩
      · rw [hs2, hs1]
      have hut : u ≠ t := by
        rintro rfl
        simp [hsl] at hu
      rw [hrest u ((hcalm.sl u hut).trans hu), hcalm.tcb u hut]
    · exact ⟨v, rfl, Calms.refl v, fun _ _ => rfl⟩

theorem scanTimerList : ∃ v', v'.s = v.s.scanTimerList ∧ Calms m w v v' ∧
    ∀ u, v.sl u = false → v'.s.tcb u = v.s.tcb u :=
  scanLoop taskMaxNum v

theorem timeSliceUpdate {t : Nat} (now : Nat) (hr : (v.s.st t).ready = true → m t) :
    ∃ v', v'.s = v.s.timeSliceUpdate t now ∧ Calm m w t v v' :=
  v.setTCB _ ⟨fun _ => rfl, fun _ => rfl, fun _ => rfl, fun _ => rfl, fun _ => rfl⟩ hr

/-- Only the variables of the next tick have changed. -/
theorem quiet {s' : Sched} (h : Quiet v.s s') : ∃ v', v'.s = s' ∧ Calm m w taskMaxNum v v' := by
  have hlife : (s'.tcb taskMaxNum).life = (v.s.tcb taskMaxNum).life := by rw [h.tcb]
  have hmoved : Moved taskMaxNum v.s s' v.L v.pl v.sl (v.pl taskMaxNum) (v.sl taskMaxNum)
      (v.s.tcb taskMaxNum).life (some v.s.runTask) := by
    refine ⟨v.L, Upto.refl _ _, ?_, fun u _ => by rw [h.tcb], hlife, h.ctl⟩
    rw [update_eq_self, update_eq_self]
    exact v.placed.quiet h
  obtain ⟨v', hs', hcalm⟩ := v.calm (m := fun _ => True) hmoved id (.inl rfl)
    (fun _ => trivial) (fun _ => .inr trivial) fun _ => by
      unfold st
      rw [h.tcb]
      exact ⟨rfl, rfl, rfl, rfl⟩
  refine ⟨v', hs', { hcalm with queue := fun p hp => ?_, stop := fun hs => .inl ?_ }⟩
  · exact absurd (v.placed.shape.lt_of_pl hp) (Nat.lt_irrefl _)
  · unfold st
    rwa [hs', h.tcb]

/-- The machine stops, but not because a ready task was to be made ready. -/
theorem raise (hR : RunOk v.s) {f : Fault} (hf : f ≠ .readyAssert) :
    ∃ v', v'.s = v.s.raise f ∧ Calm m w taskMaxNum v v' := by
  refine v.quiet ⟨rfl, rfl, rfl, ?_⟩
  have hno : decide (v.s.fault = some .readyAssert) = false := decide_eq_false hR.sound
  have hno' : decide (some f = some .readyAssert) = false := by simpa using hf
  unfold ctl Sched.raise
  rw [hno, hno']

end View

/-! ## The switch -/

/-- The running task, if it has to enter the sort link, does not get the time that means "never". -/
def Sched.InTime (s : Sched) : Prop :=
  (s.st s.runTask).delay = true ∨ (s.st s.runTask).pendTime = true →
    s.responseTimeAt s.currTime (s.tcb s.runTask).waitTimes ≠ invalidTime
  deriving Decidable

/-- The outgoing task has been put back: it alone has moved, and the CPU is free. -/
structure PutBack (v : View) (s : Sched) (M : NodeLists Node) (pl : Nat → Option Node)
    (sl : Nat → Bool) : Prop where
  placed : Placed s M pl sl none
  upto : Upto v.s.runTask v.L M
  tcb : ∀ u, u ≠ v.s.runTask → s.tcb u = v.s.tcb u
  life : (s.tcb v.s.runTask).life = (v.s.tcb v.s.runTask).life
  ctl : s.ctl = v.s.ctl
  others : ∀ u, u ≠ v.s.runTask → pl u = v.pl u
  place : ((v.s.st v.s.runTask).stops = true ∧ pl v.s.runTask = v.pl v.s.runTask) ∨
    ((v.s.st v.s.runTask).stops = false ∧
      pl v.s.runTask = readyPlace v.s.idleTaskID v.s.runTask (v.s.tcb v.s.runTask).priority)
  ghost : taskMaxNum ≤ v.s.runTask → s.st v.s.runTask = v.s.st v.s.runTask

theorem View.putRunTask (v : View) (hR : RunOk v.s) (htime : v.s.InTime) :
    ∃ M pl sl, PutBack v v.s.putRunTask M pl sl := by
  by_cases ht : v.s.runTask < taskMaxNum
  · obtain ⟨x, y, hx, M, hup, hP, htcb, hlife, hctl⟩ := v.placed.putRunTask ht htime
    refine ⟨M, _, _, hP, hup, htcb, hlife, hctl, fun u hu => update_of_ne hu _ _, ?_,
      fun hc => absurd ht (Nat.not_lt.mpr hc)⟩
    rwa [update_self]
  -- the control block behind the last task: only its time slice changes
  have hrun : v.s.runTask = taskMaxNum := Nat.le_antisymm hR.le (Nat.not_lt.mp ht)
  obtain ⟨hu, -, -, hd, hp⟩ := hR.ghost
  rw [← hrun] at hu hd hp
  have hself : (v.s.timeSliceUpdate v.s.runTask v.s.currTime).tcb v.s.runTask = _ :=
    setTCB_self _
  have hst : (v.s.timeSliceUpdate v.s.runTask v.s.currTime).st v.s.runTask = v.s.st v.s.runTask := by
    unfold st
    rw [hself]
  have hput : v.s.putRunTask = v.s.timeSliceUpdate v.s.runTask v.s.currTime := by
    unfold Sched.putRunTask blocked
    dsimp only
    rw [hst, hp, hd, hu]
    simp
  obtain ⟨M, hup, hP, htcb, hlife, hctl⟩ := v.placed.setTCB _ fun h => absurd h ht
  rw [hput]
  rw [update_eq_self, update_eq_self] at hP
  refine ⟨M, v.pl, v.sl, hP.offCpu fun h => absurd h ht, hup, htcb, hlife, hctl, fun _ _ => rfl,
    .inl ⟨?_, rfl⟩, fun _ => hst⟩
  unfold stops blocked
  rw [hu]
  simp

/-- A task that could be chosen has nothing to wait for. -/
theorem Placed.not_stops {s : Sched} {L : NodeLists Node} {pl : Nat → Option Node} {sl : Nat → Bool}
    {cpu : Option Nat} {t : Nat} (hP : Placed s L pl sl cpu) (ht : t < taskMaxNum)
    (h : t = s.idleTaskID ∨ (s.st t).ready = true) : (s.st t).stops = false := by
  have hT := hP.task t ht
  have hall : (s.tcb t).taskStatus.unused = false ∧ (s.tcb t).taskStatus.exit = false ∧
      (s.tcb t).taskStatus.pend = false ∧ (s.tcb t).taskStatus.delay = false ∧
      (s.tcb t).taskStatus.suspend = false := by
    rcases h with h | h
    · exact hT.idleX h
    · obtain ⟨hs, hd, he, hu, -⟩ := hT.readyX h
      exact ⟨hu, he, hT.not_pend_of_ready h, hd, hs⟩
  obtain ⟨hu, he, hp, hd, hs⟩ := hall
  unfold stops blocked st
  rw [hu, he, hp, hd, hs, hT.not_pendTime hp]
  rfl

/-- Task `u` competes for the CPU at a switch. -/
def View.Competes (v : View) (u : Nat) : Prop :=
  u < taskMaxNum ∧ u ≠ v.s.idleTaskID ∧
    ((v.s.st u).ready = true ∨ (u = v.s.runTask ∧ (v.s.st u).stops = false))

namespace PutBack

variable {v : View} {s : Sched} {M : NodeLists Node} {pl : Nat → Option Node} {sl : Nat → Bool}

section
variable (hB : PutBack v s M pl sl)
include hB

section
variable (ht : v.s.runTask < taskMaxNum) (hidle : v.s.runTask ≠ v.s.idleTaskID)
include ht hidle

/-- A task that goes on is ready again, with the priority it had. -/
theorem ready_runTask : (s.st v.s.runTask).ready = true ↔ (v.s.st v.s.runTask).stops = false := by
  have hT := v.placed.task _ ht
  have hT' := hB.placed.task _ ht
  rcases hB.place with ⟨hstops, hpl⟩ | ⟨hstops, hpl⟩
  · rw [hstops]
    refine iff_of_false (fun hr => ?_) Bool.true_eq_false.mp
    have hplace := hT'.pl_of_ready hr (by
      rw [show s.idleTaskID = v.s.idleTaskID from congrArg Ctl.idleTaskID hB.ctl]
      exact hidle)
    rw [hpl] at hplace
    have := (hT.readyX (hT.queued _ hplace)).2.2.2.2
    simp at this
  · rw [TaskOk.readyPlace_eq.mpr ⟨hidle, rfl⟩] at hpl
    exact iff_of_true (hT'.queued _ hpl) hstops

theorem priority_runTask (hstops : (v.s.st v.s.runTask).stops = false) :
    (s.tcb v.s.runTask).priority = (v.s.tcb v.s.runTask).priority := by
  have hT' := hB.placed.task _ ht
  have hready := (hB.ready_runTask ht hidle).mpr hstops
  have hplace := hT'.pl_of_ready hready (by
    rw [show s.idleTaskID = v.s.idleTaskID from congrArg Ctl.idleTaskID hB.ctl]
    exact hidle)
  rcases hB.place with ⟨hc, -⟩ | ⟨-, hpl⟩
  · simp [hstops] at hc
  · rw [hpl] at hplace
    have := (TaskOk.readyPlace_eq.mp hplace).2
    rwa [Node.priQueue.injEq] at this

end

theorem idleTaskID : s.idleTaskID = v.s.idleTaskID :=
  congrArg Ctl.idleTaskID hB.ctl

theorem lifeAll (u : Nat) : (s.tcb u).life = (v.s.tcb u).life := by
  by_cases hur : u = v.s.runTask
  · rw [hur]
    exact hB.life
  · rw [hB.tcb u hur]

/-- The tasks that are ready now are those that compete. -/
theorem competes_iff {u : Nat} (hu : u < taskMaxNum)
    (hidle : u ≠ v.s.idleTaskID) : v.Competes u ↔ (s.st u).ready = true := by
  unfold View.Competes
  by_cases hrun : u = v.s.runTask
  · subst hrun
    rw [hB.ready_runTask hu hidle]
    have hr : (v.s.st v.s.runTask).ready ≠ true := by
      intro hr
      have := ((v.placed.task _ hu).readyX hr).2.2.2.2
      simp at this
    simp [hu, hidle, hr]
  · unfold st
    rw [hB.tcb u hrun]
    simp [hu, hidle, hrun]

theorem priority {u : Nat} (hu : v.Competes u) : (s.tcb u).priority = (v.s.tcb u).priority := by
  have hlt := hu.1
  have hidle := hu.2.1
  by_cases hrun : u = v.s.runTask
  · subst hrun
    exact hB.priority_runTask hlt hidle
      ((hB.ready_runTask hlt hidle).mp ((hB.competes_iff hlt hidle).mp hu))
  · rw [hB.tcb u hrun]

/-- The task that is chosen is the first of those that compete, or the idle task if none does. -/
theorem chosen (hidle : v.s.idleTaskID < taskMaxNum) :
    ∃ new < taskMaxNum, s.getTopTask = some new ∧ (s.st new).stops = false ∧
      (new = v.s.idleTaskID ∨ v.Competes new) ∧ (∀ u, v.Competes u →
        new ≠ v.s.idleTaskID ∧ (v.s.tcb new).priority ≤ (v.s.tcb u).priority) ∧
      (new ≠ v.s.idleTaskID → ∃ l, M.at (.priQueue (v.s.tcb new).priority) = .pendList new :: l) := by
  obtain ⟨new, hlt, htop, hwhy⟩ := hB.placed.getTopTask (by rwa [hB.idleTaskID])
  refine ⟨new, hlt, htop, ?_⟩
  rw [hB.idleTaskID] at hwhy
  rcases hwhy with ⟨hni, hnone⟩ | ⟨hni, hr, hfirst, hmin⟩
  · refine ⟨hB.placed.not_stops hlt (.inl (hni.trans hB.idleTaskID.symm)), .inl hni, fun u hu => ?_,
      fun hc => absurd hni hc⟩
    have hready := (hB.competes_iff hu.1 hu.2.1).mp hu
    simp [hnone u hu.1 hu.2.1] at hready
  have hnew := (hB.competes_iff hlt hni).mpr hr
  rw [hB.priority hnew] at hfirst hmin
  refine ⟨hB.placed.not_stops hlt (.inr hr), .inr hnew, fun u hu => ⟨hni, ?_⟩, fun _ => hfirst⟩
  rw [← hB.priority hu]
  exact hmin u hu.1 hu.2.1 ((hB.competes_iff hu.1 hu.2.1).mp hu)

end

end PutBack

/-- All of `Life` but the running bit. -/
def Life.still (w : Life) : Life := { w with running := false }

/-- Task `new` has been chosen and is on the CPU. -/
structure SwitchTo (v v' : View) (new : Nat) (M : NodeLists Node) : Prop where
  lt : new < taskMaxNum
  ctl : v'.s.ctl = { v.s.ctl with runTask := new, newTask := new }
  still : ∀ u, (v'.s.tcb u).life.still = (v.s.tcb u).life.still
  running : ∀ u, (v'.s.st u).running = true →
    u = new ∨ (u ≠ v.s.runTask ∧ (v.s.st u).running = true)
  on : (v'.s.st new).running = true
  fit : (v'.s.st new).stops = false
  ghost : ∀ u, taskMaxNum ≤ u → (v'.s.st u).ready = (v.s.st u).ready ∧
    (v'.s.st u).pend = (v.s.st u).pend ∧ (v'.s.st u).delay = (v.s.st u).delay ∧
    (v'.s.st u).pendTime = (v.s.st u).pendTime
  mid : Rings v.s.putRunTask.heap M
  outUpto : Upto v.s.runTask v.L M
  inUpto : Upto new M v'.L
  pl : ∀ u, u ≠ v.s.runTask → u ≠ new → v'.pl u = v.pl u
  plOld : v.s.runTask ≠ new →
    ((v.s.st v.s.runTask).stops = true ∧ v'.pl v.s.runTask = v.pl v.s.runTask) ∨
    ((v.s.st v.s.runTask).stops = false ∧
      v'.pl v.s.runTask = readyPlace v.s.idleTaskID v.s.runTask (v.s.tcb v.s.runTask).priority)
  plNew : v'.pl new = none
  choice : new = v.s.idleTaskID ∨ v.Competes new
  top : ∀ u, v.Competes u → new ≠ v.s.idleTaskID ∧ (v.s.tcb new).priority ≤ (v.s.tcb u).priority
  first : new ≠ v.s.idleTaskID → ∃ l, M.at (.priQueue (v.s.tcb new).priority) = .pendList new :: l

theorem takeNewTask_snd (s : Sched) (new : Nat) :
    (s.takeNewTask new).2 = decide (s.runTask ≠ new) := rfl

/-- `ArchTaskSchedule`, once a task has been found. -/
theorem archTaskSchedule_eq {s : Sched} {new : Nat}
    (hnow : ¬s.currTime < (s.tcb s.runTask).startTime) (htop : s.putRunTask.getTopTask = some new)
    (hnew : (s.putRunTask.takeNewTask new).1.newTask = new)
    (hrun : (s.putRunTask.takeNewTask new).1.runTask = s.putRunTask.runTask) :
    s.archTaskSchedule = { (s.putRunTask.takeNewTask new).1 with runTask := new } := by
  unfold archTaskSchedule taskSwitch
  rw [if_neg hnow]
  dsimp only
  rw [htop]
  rw [takeNewTask_snd]
  by_cases hne : s.putRunTask.runTask = new
  · have hsame : ∀ r : Sched, r.runTask = new → r = { r with runTask := new } := by
      rintro r rfl
      rfl
    rw [if_neg (by simpa using hne)]
    exact hsame _ (hrun.trans hne)
  · rw [if_pos (by simpa using hne), hnew]

/-- `ArchTaskSchedule`, unless its assertion on the time fails. -/
theorem View.archTaskSchedule (v : View) (hR : RunOk v.s) (hstart : v.s.taskScheduled = true)
    (htime : v.s.InTime) (hnow : ¬v.s.currTime < (v.s.tcb v.s.runTask).startTime) :
    ∃ v' new M, v'.s = v.s.archTaskSchedule ∧ SwitchTo v v' new M := by
  obtain ⟨M, pl, sl, hB⟩ := v.putRunTask hR htime
  have hrun : v.s.putRunTask.runTask = v.s.runTask := congrArg Ctl.runTask hB.ctl
  obtain ⟨new, hlt, htop, hfit, hchoice, hmin, hfirst⟩ := hB.chosen hR.idle
  obtain ⟨-, hd, hp, -, -, hu⟩ := stops_eq_false hfit
  have hlive : v.s.runTask < taskMaxNum → (v.s.putRunTask.st v.s.runTask).unused = false ∧
      (v.s.putRunTask.st v.s.runTask).running = true := fun ht => by
    obtain ⟨h1, h2⟩ := hR.onCpu hstart ht
    exact ⟨(congrArg Life.unused hB.life).trans h2, (congrArg Life.running hB.life).trans h1⟩
  obtain ⟨L', hup, hP', hsw, hctl⟩ := hB.placed.takeNewTask hlt hu hd hp
    (hrun ▸ fun ht => (hlive ht).1)
    (by rw [hrun]; rintro rfl; exact (hlive hlt).2)
  have heq := archTaskSchedule_eq hnow htop (congrArg Ctl.newTask hctl) (congrArg Ctl.runTask hctl)
  rw [heq]
  generalize (v.s.putRunTask.takeNewTask new).1 = r at hP' hsw hctl
  obtain ⟨hothers, hold, z, hnew⟩ := hsw
  rw [hrun] at hothers hold
  refine ⟨⟨{ r with runTask := new }, L', _, sl, ⟨hP'.shape, hP'.bits, hP'.task⟩⟩, new, M, rfl, ?_⟩
  refine ⟨hlt, ?_, ?_, ?_, ?_, ?_, ?_, hB.placed.shape.rings, hB.upto, hup, ?_, ?_, ?_, ?_, ?_, ?_⟩
  · have := hctl.trans (congrArg (fun c : Ctl => { c with newTask := new }) hB.ctl)
    exact congrArg (fun c : Ctl => { c with runTask := new }) this
  · intro u
    rw [← hB.lifeAll u]
    by_cases hun : u = new
    · rw [hun, hnew]
      rfl
    by_cases hur : u = v.s.runTask
    · rw [hur, hold fun hc => hun (hur.trans hc)]
      rfl
    · rw [hothers u hun hur]
  · intro u hrunning
    have hrunning : (r.tcb u).taskStatus.running = true := hrunning
    by_cases hun : u = new
    · exact .inl hun
    by_cases hur : u = v.s.runTask
    · simp [hur, hold fun hc => hun (hur.trans hc)] at hrunning
    · rw [hothers u hun hur, hB.tcb u hur] at hrunning
      exact .inr ⟨hur, hrunning⟩
  · show (r.tcb new).taskStatus.running = true
    rw [hnew]
  · show (r.tcb new).taskStatus.stops = false
    rwa [hnew]
  · intro u hghost
    have hun : u ≠ new := by
      rintro rfl
      exact absurd hlt (Nat.not_lt.mpr hghost)
    unfold st
    by_cases hur : u = v.s.runTask
    · have hst := hB.ghost (hur ▸ hghost)
      unfold st at hst
      rw [hur, hold fun hc => hun (hur.trans hc), hst]
      exact ⟨rfl, rfl, rfl, rfl⟩
    · rw [hothers u hun hur, hB.tcb u hur]
      exact ⟨rfl, rfl, rfl, rfl⟩
  · intro u hur hun
    exact (update_of_ne hun _ _).trans (hB.others u hur)
  · intro hne
    dsimp only
    rw [update_of_ne hne]
    exact hB.place
  · exact update_self ..
  · exact hchoice
  · exact hmin
  · exact hfirst

namespace SwitchTo

variable {v v' : View} {new : Nat} {M : NodeLists Node}

section
variable (h : SwitchTo v v' new M)
include h

theorem runTask : v'.s.runTask = new := congrArg Ctl.runTask h.ctl

theorem idleTaskID : v'.s.idleTaskID = v.s.idleTaskID :=
  congrArg Ctl.idleTaskID h.ctl

theorem taskScheduled : v'.s.taskScheduled = v.s.taskScheduled :=
  congrArg Ctl.taskScheduled h.ctl

theorem unused (u : Nat) : (v'.s.st u).unused = (v.s.st u).unused :=
  congrArg Life.unused (h.still u)

theorem exit (u : Nat) : (v'.s.st u).exit = (v.s.st u).exit :=
  congrArg Life.exit (h.still u)

theorem joinable (u : Nat) : (v'.s.st u).joinable = (v.s.st u).joinable :=
  congrArg Life.joinable (h.still u)

theorem heads (n : Node) : v'.L n = none ↔ v.L n = none :=
  (h.inUpto.heads n).trans (h.outUpto.heads n)

/-- No task begins to wait at a switch. -/
theorem place (u : Nat) : v'.pl u = v.pl u ∨
    ((v.s.st u).unused = false ∧ (v'.pl u = none ∨ ∃ p, v'.pl u = some (.priQueue p))) := by
  by_cases hun : u = new
  · subst hun
    have hu := (stops_eq_false h.fit).2.2.2.2.2
    exact .inr ⟨(h.unused u).symm.trans hu, .inl h.plNew⟩
  by_cases hur : u = v.s.runTask
  · subst hur
    rcases h.plOld hun with ⟨-, hpl⟩ | ⟨hstops, hpl⟩
    · exact .inl hpl
    refine .inr ⟨(stops_eq_false hstops).2.2.2.2.2, ?_⟩
    rw [hpl]
    unfold readyPlace
    split_ifs
    · exact .inl rfl
    · exact .inr ⟨_, rfl⟩
  · exact .inl (h.pl u hur hun)

theorem pl_wait {u : Nat} {n : Node} (hn : n.isWait = true)
    (hu : v'.pl u = some n) : v.pl u = some n := by
  rcases h.place u with hpl | ⟨-, hpl | ⟨p, hpl⟩⟩
  · rw [← hpl, hu]
  · simp [hpl] at hu
  · rw [hpl, Option.some.injEq] at hu
    rw [← hu] at hn
    cases hn

theorem runOk (hR : RunOk v.s) (hstart : v.s.taskScheduled = true) : RunOk v'.s := by
  constructor
  · rw [h.idleTaskID]
    exact hR.idle
  · rw [h.runTask]
    exact h.lt.le
  · rw [h.runTask]
    exact fun _ _ => ⟨h.on, (stops_eq_false h.fit).2.2.2.2.2⟩
  · intro t ht hr
    rw [h.runTask, h.unused]
    rcases h.running t hr with heq | ⟨hne, hr'⟩
    · exact .inl heq
    · exact .inr ((hR.running t ht hr').resolve_left hne)
  · rw [h.taskScheduled, hstart]
    intro hc
    cases hc
  · obtain ⟨h1, h2, h3, h4⟩ := h.ghost taskMaxNum (Nat.le_refl _)
    rw [h.unused, h1, h2, h3, h4]
    exact hR.ghost
  · exact fault_ne_of_ctl (s := v.s) (congrArg Ctl.asserted h.ctl :) hR.sound

theorem joinOk (hJ : JoinOk v) : JoinOk v' := by
  constructor
  · intro u t hu
    rw [h.joinable, h.exit, h.unused]
    exact hJ.target u t (h.pl_wait rfl hu)
  · intro u u' t hu hu'
    exact hJ.once u u' t (h.pl_wait rfl hu) (h.pl_wait rfl hu')
  · intro t ht
    rw [h.joinable]
    exact fun hj hc => hJ.init t ht hj ((h.heads _).mp hc)

theorem good (hG : Good v) (hstart : v.s.taskScheduled = true) : Good v' :=
  ⟨h.runOk hG.run hstart, h.joinOk hG.join⟩

end

end SwitchTo

end LiteosM.Kernel
