import LiteosM.Kernel.Switch

/-!
# The scheduler between two critical sections

A `View` is a state of the scheduler together with the lists its heap holds, every task in its place. Most
critical sections take the scheduler from one view to another by moves of single tasks that leave alone what
a task is (`Calm`): whether it exists, has ended, is running, and its attributes. What holds along such
moves (`Calms`) is proved once here.

* `Calm.runOk`, `Calm.joinOk`: a calm move leaves the running task and the joins in order;
* `Calms.good`, `Calms.life`, `Calms.place`, `Calms.ahead`: the same along many;
* `View.taskWake`, `View.suspend`, `View.resume`, `View.taskWait`, `View.expire` and the like: the
  operations of the scheduler are calm moves.

`Ahead` is the order in a ready queue: tasks that a move does not touch keep theirs.
-/

namespace LiteosM.Kernel

open LiteosM.Lib Function Option Bool Sched TaskStatus Node

/-- A state with where its tasks are: the lists, and for each task its list and whether it is in the sort
link. -/
structure View where
  s : Sched
  L : NodeLists Node
  pl : Nat → Option Node
  sl : Nat → Bool
  placed : Placed s L pl sl (some s.runTask)

/-- Who is on the CPU. Before the scheduler is started that is `main`, and no task waits; the
control block behind the last task stands for `main`, and later for a task that deleted itself. -/
structure RunOk (s : Sched) : Prop where
  idle : s.idleTaskID < taskMaxNum
  le : s.runTask ≤ taskMaxNum
  onCpu : s.taskScheduled = true → s.runTask < taskMaxNum →
    (s.st s.runTask).running = true ∧ (s.st s.runTask).unused = false
  running : ∀ t < taskMaxNum, (s.st t).running = true → t = s.runTask ∨ (s.st t).unused = true
  before : s.taskScheduled = false → s.runTask = taskMaxNum ∧ ∀ t < taskMaxNum,
    (s.st t).running = false ∧ (s.st t).pend = false ∧ (s.st t).delay = false
  ghost : (s.st taskMaxNum).unused = true ∧ (s.st taskMaxNum).ready = false ∧
    (s.st taskMaxNum).pend = false ∧ (s.st taskMaxNum).delay = false ∧
    (s.st taskMaxNum).pendTime = false
  sound : s.fault ≠ some .readyAssert

/-- At most one task waits for the end of another, which has not come yet. -/
structure JoinOk (v : View) : Prop where
  target : ∀ u t, v.pl u = some (.joinList t) → t < taskMaxNum ∧ (v.s.st t).joinable = true ∧
    (v.s.st t).exit = false ∧ (v.s.st t).unused = false
  once : ∀ u u' t, v.pl u = some (.joinList t) → v.pl u' = some (.joinList t) → u = u'
  init : ∀ t < taskMaxNum, (v.s.st t).joinable = true → v.L (.joinList t) ≠ none

/-- The running task and the joins are in order. -/
structure Good (v : View) : Prop where
  run : RunOk v.s
  join : JoinOk v

/-- Task `a` is ahead of task `r` in the ready queue of priority `p`. -/
def Ahead (L : NodeLists Node) (p a r : Nat) : Prop :=
  [pendList a, pendList r].Sublist (L.at (.priQueue p))

/-- The tasks that are not moved keep their order. -/
theorem Ahead.of_rest {t : Nat} {L L' : NodeLists Node} {p a r : Nat} (hahead : Ahead L p a r)
    (h : ∀ n, (L'.at n).filter (notOf t) = (L.at n).filter (notOf t)) (ha : a ≠ t)
    (hr : r ≠ t) : Ahead L' p a r := by
  have hkeep : [pendList a, pendList r].filter (notOf t) =
      [pendList a, pendList r] := by simp [ha, hr]
  have hsub := hahead.filter (notOf t)
  rw [hkeep, ← h] at hsub
  exact hsub.trans List.filter_sublist

/-- Only task `t` has been moved. -/
structure Move (t : Nat) (v v' : View) : Prop where
  upto : Upto t v.L v'.L
  tcb : ∀ u, u ≠ t → v'.s.tcb u = v.s.tcb u
  pl : ∀ u, u ≠ t → v'.pl u = v.pl u
  sl : ∀ u, u ≠ t → v'.sl u = v.sl u

/-- The running task may enter the wait list `n`. -/
structure MayWait (v : View) (n : Node) : Prop where
  wait : n.isWait = true
  started : v.s.taskScheduled = true
  target : ∀ t, n = .joinList t → t < taskMaxNum ∧ (v.s.st t).joinable = true ∧
    (v.s.st t).exit = false ∧ (v.s.st t).unused = false ∧ ∀ u, v.pl u ≠ some (.joinList t)

/-- A move that leaves alone what a task is. A task that is ready is moved, and a task is stopped,
only if `m` allows it; a wait list is entered only if `w` allows it. -/
structure Calm (m : Nat → Prop) (w : Node → Prop) (t : Nat) (v v' : View) : Prop
    extends Move t v v' where
  life : (v'.s.tcb t).life = (v.s.tcb t).life
  ctl : v'.s.ctl = v.s.ctl
  late : v'.sl t = true → v.sl t = true
  place : v'.pl t = v.pl t ∨
    ((v.s.st t).unused = false ∧ (v'.pl t = none ∨ ∃ p, v'.pl t = some (.priQueue p))) ∨
    ∃ n, v'.pl t = some n ∧ v.pl t = none ∧ w n ∧ MayWait v n
  queue : ∀ p, v.pl t = some (.priQueue p) → m t
  stop : (v.s.st t).stops = false → (v'.s.st t).stops = false ∨ m t
  ghost : taskMaxNum ≤ t → (v'.s.st t).ready = (v.s.st t).ready ∧
    (v'.s.st t).pend = (v.s.st t).pend ∧ (v'.s.st t).delay = (v.s.st t).delay ∧
    (v'.s.st t).pendTime = (v.s.st t).pendTime

/-- Some calm moves, one after the other. -/
def Calms (m : Nat → Prop) (w : Node → Prop) : View → View → Prop :=
  Relation.ReflTransGen fun v v' => ∃ t, Calm m w t v v'

theorem TaskStatus.stops_eq_false {st : TaskStatus} (h : st.stops = false) :
    st.pendTime = false ∧ st.delay = false ∧ st.pend = false ∧ st.suspend = false ∧
      st.exit = false ∧ st.unused = false := by
  unfold stops blocked at h
  simp only [or_eq_false_iff] at h
  obtain ⟨⟨h1, h2⟩, ⟨⟨h3, h4⟩, h5⟩, h6⟩ := h
  exact ⟨h1, h2, h3, h4, h5, h6⟩

theorem TaskStatus.stops_of_pend {st : TaskStatus} (h : st.pend = true) : st.stops = true := by
  unfold stops blocked
  simp [h]

/-! ## One move -/

namespace Calm

variable {m : Nat → Prop} {w : Node → Prop} {t : Nat} {v v' : View}

section
variable (h : Calm m w t v v')
include h

theorem lifeAll (u : Nat) : (v'.s.tcb u).life = (v.s.tcb u).life := by
  by_cases hu : u = t
  · rw [hu]
    exact h.life
  · rw [h.tcb u hu]

theorem runTask : v'.s.runTask = v.s.runTask := congrArg Ctl.runTask h.ctl

theorem idleTaskID : v'.s.idleTaskID = v.s.idleTaskID :=
  congrArg Ctl.idleTaskID h.ctl

theorem taskScheduled : v'.s.taskScheduled = v.s.taskScheduled :=
  congrArg Ctl.taskScheduled h.ctl

theorem unused (u : Nat) : (v'.s.st u).unused = (v.s.st u).unused :=
  congrArg Life.unused (h.lifeAll u)

theorem running (u : Nat) : (v'.s.st u).running = (v.s.st u).running :=
  congrArg Life.running (h.lifeAll u)

theorem exit (u : Nat) : (v'.s.st u).exit = (v.s.st u).exit :=
  congrArg Life.exit (h.lifeAll u)

theorem joinable (u : Nat) : (v'.s.st u).joinable = (v.s.st u).joinable :=
  congrArg Life.joinable (h.lifeAll u)

/-- Before the scheduler is started no task begins to wait. -/
theorem before (hstart : v.s.taskScheduled = false) (ht : t < taskMaxNum)
    (hcpu : v.s.runTask = taskMaxNum) (hp : (v.s.st t).pend = false)
    (hd : (v.s.st t).delay = false) : (v'.s.st t).pend = false ∧ (v'.s.st t).delay = false := by
  have hT := v.placed.task t ht
  have hT' := v'.placed.task t ht
  constructor <;> rw [eq_false_iff]
  · intro hc
    obtain ⟨n, hn, hw⟩ := hT'.pend.mp hc
    rcases h.place with hpl | ⟨-, hpl | ⟨p, hpl⟩⟩ | ⟨_, -, -, -, hmay⟩
    · rw [hpl] at hn
      unfold st at hp
      simp [hT.pend.mpr ⟨n, hn, hw⟩] at hp
    · simp [hpl] at hn
    · rw [hpl, some.injEq] at hn
      rw [← hn] at hw
      cases hw
    · simp [hmay.started] at hstart
  intro hc
  have hsl := h.late (hT'.sort.mpr ⟨decide_eq_false fun hrun => ?_, .inl hc⟩)
  · simp [hT.sl_false hd (hT.not_pendTime hp)] at hsl
  · rw [h.runTask, hcpu, some.injEq] at hrun
    exact absurd ht (Nat.not_lt.mpr hrun.le)

theorem runOk (hR : RunOk v.s) : RunOk v'.s := by
  constructor
  · rw [h.idleTaskID]
    exact hR.idle
  · rw [h.runTask]
    exact hR.le
  · rw [h.taskScheduled, h.runTask, h.running, h.unused]
    exact hR.onCpu
  · intro u hu
    rw [h.running, h.unused, h.runTask]
    exact hR.running u hu
  · rw [h.taskScheduled, h.runTask]
    intro hstart
    obtain ⟨hrun, hall⟩ := hR.before hstart
    refine ⟨hrun, fun u hu => ?_⟩
    obtain ⟨hr, hp, hd⟩ := hall u hu
    refine ⟨(h.running u).trans hr, ?_⟩
    by_cases hut : u = t
    · subst hut
      exact h.before hstart hu hrun hp hd
    · unfold st
      rw [h.tcb u hut]
      exact ⟨hp, hd⟩
  · rw [h.unused]
    by_cases ht : taskMaxNum = t
    · obtain ⟨h1, h2, h3, h4⟩ := h.ghost ht.le
      rw [← ht] at h1 h2 h3 h4
      rw [h1, h2, h3, h4]
      exact hR.ghost
    · unfold st
      rw [h.tcb _ ht]
      exact hR.ghost
  · exact Sched.fault_ne_of_ctl (congrArg Ctl.asserted h.ctl) hR.sound

theorem pl_joinList {u j : Nat} (hu : v'.pl u = some (.joinList j)) :
    v.pl u = some (.joinList j) ∨ u = t ∧ MayWait v (.joinList j) := by
  by_cases hut : u = t
  · subst hut
    rcases h.place with hpl | ⟨-, hpl | ⟨p, hpl⟩⟩ | ⟨n, hpl, -, -, hmay⟩
    · exact .inl (hpl ▸ hu)
    · simp [hpl] at hu
    · simp [hpl] at hu
    · rw [hpl, some.injEq] at hu
      exact .inr ⟨rfl, hu ▸ hmay⟩
  · exact .inl (h.pl u hut ▸ hu)

theorem joinOk (hJ : JoinOk v) : JoinOk v' := by
  constructor
  · intro u j hu
    rw [h.joinable, h.exit, h.unused]
    rcases h.pl_joinList hu with hu' | ⟨-, hmay⟩
    · exact hJ.target u j hu'
    · obtain ⟨h1, h2, h3, h4, -⟩ := hmay.target j rfl
      exact ⟨h1, h2, h3, h4⟩
  · intro u u' j hu hu'
    rcases h.pl_joinList hu with hu1 | ⟨rfl, hmay⟩
    · rcases h.pl_joinList hu' with hu2 | ⟨rfl, hmay⟩
      · exact hJ.once u u' j hu1 hu2
      · exact absurd hu1 ((hmay.target j rfl).2.2.2.2 u)
    · rcases h.pl_joinList hu' with hu2 | ⟨rfl, -⟩
      · exact absurd hu2 ((hmay.target j rfl).2.2.2.2 u')
      · rfl
  · intro u hu
    rw [h.joinable]
    exact fun hj => h.upto.ne_none (hJ.init u hu hj)

theorem good (hG : Good v) : Good v' := ⟨h.runOk hG.run, h.joinOk hG.join⟩

end

end Calm

/-! ## Many moves -/

namespace Calms

variable {m : Nat → Prop} {w : Node → Prop} {v v' v'' : View}

theorem refl (v : View) : Calms m w v v := Relation.ReflTransGen.refl

theorem one {t : Nat} (h : Calm m w t v v') : Calms m w v v' := Relation.ReflTransGen.single ⟨t, h⟩

section
variable (h : Calms m w v v')
include h

theorem trans (h' : Calms m w v' v'') : Calms m w v v'' :=
  Relation.ReflTransGen.trans h h'

theorem good (hG : Good v) : Good v' := by
  induction h with
  | refl => exact hG
  | tail _ hstep ih =>
    obtain ⟨t, ht⟩ := hstep
    exact ht.good ih

theorem life (u : Nat) : (v'.s.tcb u).life = (v.s.tcb u).life := by
  induction h with
  | refl => rfl
  | tail _ hstep ih =>
    obtain ⟨t, ht⟩ := hstep
    rw [ht.lifeAll u, ih]

theorem ctl : v'.s.ctl = v.s.ctl := by
  induction h with
  | refl => rfl
  | tail _ hstep ih =>
    obtain ⟨t, ht⟩ := hstep
    rw [ht.ctl, ih]

theorem heads (n : Node) : v'.L n = none ↔ v.L n = none := by
  induction h with
  | refl => rfl
  | tail _ hstep ih =>
    obtain ⟨t, ht⟩ := hstep
    rw [ht.upto.heads n, ih]

theorem mono {m' : Nat → Prop} {w' : Node → Prop} (hm : ∀ t, m t → m' t)
    (hw : ∀ n, w n → w' n) : Calms m' w' v v' := by
  induction h with
  | refl => exact Relation.ReflTransGen.refl
  | tail _ hstep ih =>
    obtain ⟨t, ht⟩ := hstep
    refine ih.tail ⟨t, { ht with
      place := ?_
      queue := fun p hp => hm t (ht.queue p hp)
      stop := fun hs => (ht.stop hs).imp_right (hm t) }⟩
    rcases ht.place with h1 | h2 | ⟨n, h3, h4, h5, h6⟩
    · exact .inl h1
    · exact .inr (.inl h2)
    · exact .inr (.inr ⟨n, h3, h4, hw n h5, h6⟩)

/-- Where the `pendList` node of a task can be afterwards. -/
theorem place (u : Nat) : v'.pl u = v.pl u ∨
      ((v.s.st u).unused = false ∧ (v'.pl u = none ∨ ∃ p, v'.pl u = some (.priQueue p))) ∨
      ∃ n, v'.pl u = some n ∧ w n ∧ n.isWait = true := by
  induction h with
  | refl => exact .inl rfl
  | @tail v1 v2 hpath hstep ih =>
    obtain ⟨t, ht⟩ := hstep
    by_cases hu : u = t
    · subst hu
      rcases ht.place with h1 | ⟨hun, h2⟩ | ⟨n, h3, -, h5, hmay⟩
      · rw [h1]
        exact ih
      · have hsame : (v1.s.st u).unused = (v.s.st u).unused :=
          congrArg Life.unused (Calms.life hpath u)
        exact .inr (.inl ⟨hsame ▸ hun, h2⟩)
      · exact .inr (.inr ⟨n, h3, h5, hmay.wait⟩)
    · rw [ht.pl u hu]
      exact ih

/-- Tasks that are ready and not to be touched keep their place in the queue. -/
theorem untouched {u p : Nat} (hu : v.pl u = some (.priQueue p)) (hm : ¬m u) :
    v'.pl u = some (.priQueue p) := by
  induction h with
  | refl => exact hu
  | tail _ hstep ih =>
    obtain ⟨t, ht⟩ := hstep
    by_cases hut : u = t
    · subst hut
      exact absurd (ht.queue p ih) hm
    · rw [ht.pl u hut]
      exact ih

theorem ahead {p a r : Nat} (ha : ¬m a) (hr : ¬m r) (hahead : Ahead v.L p a r) : Ahead v'.L p a r := by
  induction h with
  | refl => exact hahead
  | @tail v1 _ _ hstep ih =>
    obtain ⟨t, ht⟩ := hstep
    have hin : ∀ u, .pendList u ∈ v1.L.at (.priQueue p) → ¬m u → u ≠ t := by
      rintro u hu hm rfl
      exact hm (ht.queue p ((v1.placed.shape.pend u _).mp hu))
    exact ih.of_rest ht.upto.rest (hin a (ih.subset (by simp)) ha) (hin r (ih.subset (by simp)) hr)

/-- A task that goes on is not stopped. -/
theorem stop {u : Nat} (hu : (v.s.st u).stops = false) (hm : ¬m u) : (v'.s.st u).stops = false := by
  induction h with
  | refl => exact hu
  | tail _ hstep ih =>
    obtain ⟨t, ht⟩ := hstep
    by_cases hut : u = t
    · subst hut
      exact (ht.stop ih).resolve_right hm
    · unfold st
      rw [ht.tcb u hut]
      exact ih

/-- What is no task is not moved. -/
theorem pl_unused {u : Nat} (hu : (v.s.st u).unused = true) : v'.pl u = v.pl u := by
  rcases h.place u with hpl | ⟨hc, -⟩ | ⟨n, hpl, -, hwait⟩
  · exact hpl
  · simp [hu] at hc
  have hT := v'.placed.task u (v'.placed.shape.lt_of_pl hpl)
  have hunused : (v'.s.tcb u).taskStatus.unused = (v.s.st u).unused :=
    congrArg Life.unused (h.life u)
  simp [(hT.pendX (hT.pend.mpr ⟨n, hpl, hwait⟩)).2.2, hu] at hunused

end

end Calms

/-! ## The operations -/

/-- A change of a control block that says nothing about where its task is, or what it is. -/
structure Aside (f : LosTaskCB → LosTaskCB) : Prop where
  taskID : ∀ c, (f c).taskID = c.taskID
  priority : ∀ c, (f c).priority = c.priority
  taskStatus : ∀ c, (f c).taskStatus = c.taskStatus
  responseTime : ∀ c, (f c).responseTime = c.responseTime
  topOfStack : ∀ c, (f c).topOfStack = c.topOfStack

namespace View

variable (v : View) {m : Nat → Prop} {w : Node → Prop} {t : Nat}

theorem sl_unused {u : Nat} (hu : (v.s.st u).unused = true) : v.sl u = false := by
  rw [eq_false_iff]
  intro hc
  have hT := v.placed.task u (v.placed.shape.lt_of_sl hc)
  unfold st at hu
  rcases (hT.sort.mp hc).2 with hd | hp
  · simp [(hT.delayX hd).2] at hu
  · simp [(hT.pendX (hT.timed hp)).2.2] at hu

/-- A task in a ready queue is ready. -/
theorem ready_of_pl {p : Nat} (h : v.pl t = some (.priQueue p)) : (v.s.st t).ready = true :=
  (v.placed.task t (v.placed.shape.lt_of_pl h)).queued p h

/-- A move of the scheduler as a move of the view. -/
theorem calm {s' : Sched} {x : Option Node} {y : Bool}
    (h : Moved t v.s s' v.L v.pl v.sl x y (v.s.tcb t).life (some v.s.runTask))
    (hy : y = true → v.sl t = true) (hx : x = v.pl t ∨
      ((v.s.st t).unused = false ∧ (x = none ∨ ∃ p, x = some (.priQueue p))) ∨
      ∃ n, x = some n ∧ v.pl t = none ∧ w n ∧ MayWait v n) (hq : (v.s.st t).ready = true → m t)
    (hstop : (v.s.st t).stops = false → (s'.st t).stops = false ∨ m t)
    (hg : taskMaxNum ≤ t → (s'.st t).ready = (v.s.st t).ready ∧ (s'.st t).pend = (v.s.st t).pend ∧
      (s'.st t).delay = (v.s.st t).delay ∧ (s'.st t).pendTime = (v.s.st t).pendTime) :
    ∃ v', v'.s = s' ∧ Calm m w t v v' := by
  obtain ⟨L', hup, hP, htcb, hlife, hctl⟩ := h
  have hrun : s'.runTask = v.s.runTask := congrArg Ctl.runTask hctl
  rw [← hrun] at hP
  refine ⟨⟨s', L', _, _, hP⟩, rfl, ⟨hup, htcb, fun u hu => update_of_ne hu _ _,
    fun u hu => update_of_ne hu _ _⟩, hlife, hctl, ?_, ?_, fun p hp => ?_, hstop, hg⟩
  · dsimp only
    rwa [update_self]
  · dsimp only
    rwa [update_self]
  · exact hq (v.ready_of_pl hp)

/-- A change of a control block that moves no node. -/
theorem setTCB (f : LosTaskCB → LosTaskCB) (hf : Aside f) (hr : (v.s.st t).ready = true → m t) :
    ∃ v', v'.s = v.s.setTCB t f ∧ Calm m w t v v' := by
  have hlife : (f (v.s.tcb t)).life = (v.s.tcb t).life := by
    unfold LosTaskCB.life
    rw [hf.taskID, hf.taskStatus, hf.topOfStack]
  have hmoved := v.placed.setTCB_congr (t := t) f hf.taskID hf.priority hf.taskStatus hf.responseTime
  rw [hlife] at hmoved
  have hsame : (v.s.setTCB t f).st t = v.s.st t := by
    unfold st
    rw [setTCB_self, hf.taskStatus]
  refine v.calm hmoved id (.inl rfl) hr (fun hs => .inl ?_) fun _ => ?_
  · rwa [hsame]
  · rw [hsame]
    exact ⟨rfl, rfl, rfl, rfl⟩

/-- A task, not the control block behind the last one. -/
theorem calm_task {s' : Sched} {x : Option Node} {y : Bool} (ht : t < taskMaxNum)
    (h : Moved t v.s s' v.L v.pl v.sl x y (v.s.tcb t).life (some v.s.runTask))
    (hy : y = true → v.sl t = true) (hu : (v.s.st t).unused = false)
    (hx : x = v.pl t ∨ x = none ∨ ∃ p, x = some (.priQueue p))
    (hm : m t ∨ ((v.s.st t).ready = false ∧ (v.s.st t).stops = true)) :
    ∃ v', v'.s = s' ∧ Calm m w t v v' := by
  refine v.calm h hy (hx.imp_right fun hx => .inl ⟨hu, hx⟩) (fun hr => ?_) (fun hs => ?_)
    fun hc => absurd ht (Nat.not_lt.mpr hc)
  · refine hm.resolve_right fun hc => ?_
    simp [hc.1] at hr
  · refine .inr (hm.resolve_right fun hc => ?_)
    simp [hc.2] at hs

theorem taskWake (hR : RunOk v.s) (ht : t < taskMaxNum) (hp : (v.s.st t).pend = true) :
    ∃ v', v'.s = v.s.taskWake t ∧ Calm m w t v v' := by
  have hT := v.placed.task t ht
  have hcpu : some v.s.runTask = some t → (v.s.st t).running = true := by
    intro hrun
    rw [some.injEq] at hrun
    by_cases hstart : v.s.taskScheduled = true
    · have := hR.onCpu hstart (hrun ▸ ht)
      rw [hrun] at this
      exact this.1
    · have := (hR.before (by simpa using hstart)).1
      rw [hrun] at this
      exact absurd ht (Nat.not_lt.mpr this.ge)
  obtain ⟨x, hx, hmoved⟩ := v.placed.taskWake ht hp hcpu
  refine v.calm_task ht hmoved (fun hc => by cases hc) (hT.pendX hp).2.2 (.inr ?_)
    (.inr ⟨hT.not_ready_of_pend hp, stops_of_pend hp⟩)
  rcases hx with hx | hx
  · exact .inl hx
  · exact .inr ⟨_, hx⟩

theorem suspend (ht : t < taskMaxNum) (hu : (v.s.st t).unused = false)
    (hidle : t ≠ v.s.idleTaskID) (hm : m t) : ∃ v', v'.s = v.s.suspend t ∧ Calm m w t v v' := by
  obtain ⟨x, hx, hmoved⟩ := v.placed.suspend ht hu hidle
  refine v.calm_task ht hmoved id hu ?_ (.inl hm)
  rcases hx with hx | hx
  · exact .inr (.inl hx)
  · exact .inl hx

theorem resume (ht : t < taskMaxNum) (hs : (v.s.st t).suspend = true)
    (hu : (v.s.st t).unused = false) (he : (v.s.st t).exit = false) (hcpu : v.s.runTask ≠ t) :
    ∃ v', v'.s = v.s.resume t ∧ Calm m w t v v' := by
  obtain ⟨x, hx, hmoved⟩ := v.placed.resume ht hs hu he fun hc => hcpu (some.inj hc)
  refine v.calm_task ht hmoved id hu ?_ (.inr ⟨?_, ?_⟩)
  · rcases hx with hx | hx
    · exact .inl hx
    · exact .inr (.inr ⟨_, hx⟩)
  · rw [eq_false_iff]
    intro hr
    unfold st at hs
    simp [((v.placed.task t ht).readyX hr).1] at hs
  · unfold stops blocked
    simp [hs]

theorem modifyTaskSchedParam (hR : RunOk v.s) (ht : t ≤ taskMaxNum) {p : Nat}
    (hp : t < taskMaxNum → p < priorityQueueNum) (hm : (v.s.st t).ready = true → m t) :
    ∃ v', v'.s = v.s.modifyTaskSchedParam t p ∧ Calm m w t v v' := by
  by_cases hr : (v.s.st t).ready = true
  · have htn : t < taskMaxNum := by
      refine Nat.lt_of_le_of_ne ht ?_
      rintro rfl
      simp [hR.ghost.2.1] at hr
    obtain ⟨x, hx, hmoved⟩ := v.placed.modifyTaskSchedParam htn (hp htn)
    refine v.calm_task htn hmoved id ((v.placed.task t htn).readyX hr).2.2.2.1 ?_ (.inl (hm hr))
    rcases hx with hx | ⟨-, hx⟩
    · exact .inl hx
    unfold readyPlace at hx
    split_ifs at hx
    · exact .inr (.inl hx)
    · exact .inr (.inr ⟨_, hx⟩)
  have hself : (v.s.setTCB t fun c => { c with priority := p }).st t = v.s.st t := by
    unfold st
    rw [setTCB_self]
  unfold Sched.modifyTaskSchedParam
  rw [if_neg hr]
  refine v.calm (v.placed.setTCB _ fun htn => ?_) id (.inl rfl) hm (fun hs => .inl ?_) fun _ => ?_
  · exact (v.placed.task t htn).setPriority (by simpa [st] using hr) (hp htn)
  · rwa [hself]
  · rw [hself]
    exact ⟨rfl, rfl, rfl, rfl⟩

/-- One turn of the loop of `OsSchedScanTimerList`. -/
theorem expire (hsl : v.sl t = true) :
    ∃ v', v'.s = (v.s.deleteNodeSortLink t).wakePendTimeTask t ∧ Calm m w t v v' := by
  have ht := v.placed.shape.lt_of_sl hsl
  have hT := v.placed.task t ht
  have hwait := (hT.sort.mp hsl).2
  obtain ⟨x, hx, hmoved⟩ := v.placed.expire hsl
  refine v.calm_task ht hmoved (fun hc => by cases hc) ?_ (.inr ?_) (.inr ⟨?_, ?_⟩)
  · rcases hwait with hd | hp
    · exact (hT.delayX hd).2
    · exact (hT.pendX (hT.timed hp)).2.2
  · rcases hx with hx | hx
    · exact .inl hx
    · exact .inr ⟨_, hx⟩
  · rw [eq_false_iff]
    intro hr
    have hsl' := hT.sl_false (hT.readyX hr).2.1 (hT.not_pendTime (hT.not_pend_of_ready hr))
    simp [hsl] at hsl'
  unfold stops st
  rcases hwait with hd | hp
  · simp [hd]
  · simp [hp]

/-- The running task waits. -/
theorem taskWait (ht : v.s.runTask < taskMaxNum) {n : Node} (hL : v.L n ≠ none)
    (hmay : MayWait v n) (hw : w n) (hgo : (v.s.st v.s.runTask).stops = false)
    (hidle : v.s.runTask ≠ v.s.idleTaskID) (hm : m v.s.runTask) (ticks : Nat) :
    ∃ v', v'.s = v.s.taskWait n ticks ∧ Calm m w v.s.runTask v v' := by
  obtain ⟨-, hd, hp, -, he, hu⟩ := stops_eq_false hgo
  have hpl := v.placed.pl_runTask ht hu hp
  exact v.calm (v.placed.taskWait ht hmay.wait hL hu he hd hp hidle ticks) id
    (.inr (.inr ⟨n, rfl, hpl, hw, hmay⟩)) (fun _ => hm) (fun _ => .inr hm)
    fun hc => absurd ht (Nat.not_lt.mpr hc)

theorem delay (ht : v.s.runTask < taskMaxNum) (hgo : (v.s.st v.s.runTask).stops = false)
    (hidle : v.s.runTask ≠ v.s.idleTaskID) (hm : m v.s.runTask) (tick : Nat) :
    ∃ v', v'.s = v.s.delay tick ∧ Calm m w v.s.runTask v v' := by
  obtain ⟨-, hd, hp, -, he, hu⟩ := stops_eq_false hgo
  exact v.calm_task ht (v.placed.delay ht hu he hp hidle tick) id hu (.inl rfl) (.inl hm)

/-- The running task is not in the free list. -/
theorem runTask_used (hR : RunOk v.s) (ht : v.s.runTask < taskMaxNum) :
    (v.s.st v.s.runTask).unused = false := by
  by_cases hstart : v.s.taskScheduled = true
  · exact (hR.onCpu hstart ht).2
  · have := (hR.before (by simpa using hstart)).1
    exact absurd ht (Nat.not_lt.mpr this.ge)

theorem not_ready_runTask (hR : RunOk v.s) : (v.s.st v.s.runTask).ready ≠ true := by
  intro hr
  by_cases ht : v.s.runTask < taskMaxNum
  · have := ((v.placed.task _ ht).readyX hr).2.2.2.2
    simp at this
  · simp [Nat.le_antisymm hR.le (Nat.not_lt.mp ht), hR.ghost.2.1] at hr

/-- The running task has seen that its time was up. -/
theorem clearTimeout (hR : RunOk v.s) :
    ∃ v', v'.s = (v.s.setSt v.s.runTask fun st => { st with timeout := false }) ∧
      Calm m w v.s.runTask v v' := by
  have hself : (v.s.setSt v.s.runTask fun st => { st with timeout := false }).st v.s.runTask =
      { v.s.st v.s.runTask with timeout := false } := by
    unfold st
    rw [setSt_self]
  refine v.calm (v.placed.setTCB (fun c => { c with
    taskStatus := { c.taskStatus with timeout := false } }) fun ht => ?_) id (.inl rfl) (fun hr => ?_)
    (fun hs => .inl ?_) fun _ => ?_
  · have hT := v.placed.task _ ht
    exact hT.bits (hT.not_free (v.runTask_used hR ht)) rfl rfl rfl rfl rfl rfl id .inl
  · exact absurd hr (v.not_ready_runTask hR)
  · rwa [hself]
  · rw [hself]
    exact ⟨rfl, rfl, rfl, rfl⟩

end View

end LiteosM.Kernel
