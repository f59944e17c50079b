import LiteosM.Kernel.TaskOk

/-!
# The scheduler keeps every task in its place

`Placed` says that every task is where its control block says (`TaskOk`) and that the bitmap knows
the ready queues. The operations of the scheduler move one task at a time: `Moved t s s' … x y w`
says that `s'` is again well placed, that the `pendList` node of `t` is now in `x` and its
`sortList` node in the sort link iff `y`, that `w` is left of the bits no scheduling operation
touches, and that nothing else has changed.

`cpu` names the task on the CPU; it is `none` for a moment inside `OsSchedTaskSwitch`.
-/

namespace LiteosM.Kernel

open LiteosM.Lib Function List Sched NodeLists

/-! ## The bitmap of the ready queues -/

theorem getMsbD_priorityBit {p q : Nat} (hq : q < priorityQueueNum) :
    (priorityBit p).getMsbD q = decide (q = p) := by
  have hq' : q < 32 := hq
  unfold priorityBit
  rw [BitVec.getMsbD_ushiftRight]
  by_cases h : q < p
  · simp [h, Nat.ne_of_lt h]
  have hone : ∀ i < 32, (0x80000000#32).getMsbD i = decide (i = 0) := by decide
  rw [hone (q - p) (by omega)]
  simp only [hq', h]
  exact decide_eq_decide.mpr (by omega)

/-- `CLZ` finds the first bit that is set. -/
theorem clz_spec {b : BitVec 32} (hb : b ≠ 0) :
    clz b < priorityQueueNum ∧ b.getMsbD (clz b) = true ∧ ∀ q < clz b, b.getMsbD q = false := by
  unfold clz
  cases hf : (range priorityQueueNum).find? fun p => b.getMsbD p with
  | none =>
    exfalso
    refine hb (BitVec.eq_of_getMsbD_eq fun i hi => ?_)
    have := find?_eq_none.mp hf i (mem_range.mpr hi)
    simpa using this
  | some p =>
    obtain ⟨hset, hlt, hmin⟩ := find?_range_eq_some.mp hf
    exact ⟨mem_range.mp hlt, hset, fun q hq => by simpa using hmin q hq⟩

/-- Bit `p` of the bitmap is set iff the ready queue of priority `p` is not empty. -/
def BitsOk (b : BitVec 32) (L : NodeLists Node) : Prop :=
  ∀ p < priorityQueueNum, b.getMsbD p = true ↔ L.at (.priQueue p) ≠ []

namespace BitsOk

variable {b : BitVec 32} {L L' : NodeLists Node} {p : Nat} {l l' : List Node} {n : Node}

/-- A list that is no ready queue changes. -/
theorem update_other (hb : BitsOk b L) (hn : ∀ p, n ≠ .priQueue p) (v : Option (List Node)) :
    BitsOk b (update L n v) := by
  intro p hp
  rw [at_update_of_ne (hn p).symm]
  exact hb p hp

/-- A task enters a ready queue. -/
theorem insert (hb : BitsOk b L) (hl : l' ≠ []) {empty : Bool}
    (he : empty = true ↔ L.at (.priQueue p) = []) :
    BitsOk (if empty then b ||| priorityBit p else b)
      (update L (.priQueue p) (some l')) := by
  intro q hq
  by_cases hqp : q = p
  · subst hqp
    rw [at_update_self]
    refine iff_of_true ?_ hl
    split_ifs with h
    · rw [BitVec.getMsbD_or, getMsbD_priorityBit hq]
      simp
    · rw [hb q hq]
      exact fun hc => h (he.mpr hc)
  have hne : (Node.priQueue q) ≠ .priQueue p := by simpa using hqp
  rw [at_update_of_ne hne, ← hb q hq]
  split_ifs with h
  · rw [BitVec.getMsbD_or, getMsbD_priorityBit hq]
    simp [hqp]
  · rfl

/-- A task leaves a ready queue. -/
theorem erase (hb : BitsOk b L) (hin : L.at (.priQueue p) ≠ []) {empty : Bool}
    (he : empty = true ↔ l' = []) : BitsOk (if empty then b &&& ~~~priorityBit p else b)
      (update L (.priQueue p) (some l')) := by
  intro q hq
  have hq' : q < 32 := hq
  by_cases hqp : q = p
  · subst hqp
    rw [at_update_self]
    split_ifs with h
    · refine iff_of_false ?_ (not_not.mpr (he.mp h))
      rw [BitVec.getMsbD_and, BitVec.getMsbD_not, getMsbD_priorityBit hq]
      simp
    · exact iff_of_true ((hb q hq).mpr hin) fun hc => h (he.mpr hc)
  have hne : (Node.priQueue q) ≠ .priQueue p := by simpa using hqp
  rw [at_update_of_ne hne, ← hb q hq]
  split_ifs with h
  · rw [BitVec.getMsbD_and, BitVec.getMsbD_not, getMsbD_priorityBit hq]
    simp [hqp, hq']
  · rfl

end BitsOk

/-! ## All tasks -/

/-- What no operation on a task changes. -/
structure Ctl where
  runTask : Nat
  newTask : Nat
  losTaskLock : Nat
  taskScheduled : Bool
  currTime : Nat
  idleTaskID : Nat
  sysClock : Nat
  schedTimeSlice : Int
  schedTimeSliceMin : Int
  /-- The assertion of `OsSchedTaskEnQueue` has failed. -/
  asserted : Bool

/-- Those fields of `s`. -/
def Sched.ctl (s : Sched) : Ctl :=
  ⟨s.runTask, s.newTask, s.losTaskLock, s.taskScheduled, s.currTime, s.idleTaskID, s.sysClock,
    s.schedTimeSlice, s.schedTimeSliceMin, s.fault = some .readyAssert⟩

theorem Sched.fault_ne_of_ctl {s s' : Sched} (h : s'.ctl.asserted = s.ctl.asserted)
    (hs : s.fault ≠ some .readyAssert) : s'.fault ≠ some .readyAssert := by
  unfold ctl at h
  rwa [ne_eq, decide_eq_decide.mp h]

/-- Every task is where it has to be. -/
structure Placed (s : Sched) (L : NodeLists Node) (pl : Nat → Option Node) (sl : Nat → Bool)
    (cpu : Option Nat) : Prop where
  shape : Shape s.heap L pl sl
  bits : BitsOk s.queueBitmap L
  task : ∀ t < taskMaxNum,
    TaskOk s.idleTaskID t (s.tcb t) (pl t) (sl t) (decide (cpu = some t))

/-- Task `t`, and it alone, has been moved: its `pendList` node to `x`, its `sortList` node into the
sort link iff `y`. -/
def Moved (t : Nat) (s s' : Sched) (L : NodeLists Node) (pl : Nat → Option Node) (sl : Nat → Bool)
    (x : Option Node) (y : Bool) (w : Life) (cpu : Option Nat) : Prop :=
  ∃ L', Upto t L L' ∧ Placed s' L' (update pl t x) (update sl t y) cpu ∧
    (∀ u, u ≠ t → s'.tcb u = s.tcb u) ∧ (s'.tcb t).life = w ∧ s'.ctl = s.ctl

section
variable {s s' s'' : Sched} {L L' : NodeLists Node} {pl pl' : Nat → Option Node} {sl sl' : Nat → Bool}
  {cpu cpu' : Option Nat} {t : Nat} {x x' : Option Node} {y y' : Bool} {w w' : Life}

/-- The lists have been rearranged, and only task `t` is concerned. -/
theorem Placed.set (hP : Placed s L pl sl cpu) (hshape : Shape s'.heap L' pl' sl')
    (hbits : BitsOk s'.queueBitmap L') (hidle : s'.idleTaskID = s.idleTaskID)
    (htcb : ∀ u, u ≠ t → s'.tcb u = s.tcb u) (hpl : ∀ u, u ≠ t → pl' u = pl u)
    (hsl : ∀ u, u ≠ t → sl' u = sl u) (hcpu : ∀ u, u ≠ t → (cpu' = some u ↔ cpu = some u))
    (ht : t < taskMaxNum →
      TaskOk s.idleTaskID t (s'.tcb t) (pl' t) (sl' t) (decide (cpu' = some t))) :
    Placed s' L' pl' sl' cpu' := by
  refine ⟨hshape, hbits, fun u hu => ?_⟩
  rw [hidle]
  by_cases hut : u = t
  · rw [hut]
    exact ht (hut ▸ hu)
  · rw [htcb u hut, hpl u hut, hsl u hut, decide_eq_decide.mpr (hcpu u hut)]
    exact hP.task u hu

/-- The parts of a move. -/
theorem Placed.moved (hP : Placed s L pl sl cpu) {L' : NodeLists Node} (hup : Upto t L L')
    (hshape : Shape s'.heap L' (update pl t x) (update sl t y))
    (hbits : BitsOk s'.queueBitmap L') (htcb : ∀ u, u ≠ t → s'.tcb u = s.tcb u)
    (hctl : s'.ctl = s.ctl) (hw : (s'.tcb t).life = w)
    (ht : t < taskMaxNum → TaskOk s.idleTaskID t (s'.tcb t) x y (decide (cpu = some t))) :
    Moved t s s' L pl sl x y w cpu := by
  refine ⟨L', hup, hP.set hshape hbits (congrArg Ctl.idleTaskID hctl) htcb
    (fun u hu => update_of_ne hu _ _) (fun u hu => update_of_ne hu _ _)
    (fun _ _ => Iff.rfl) ?_, htcb, hw, hctl⟩
  intro htn
  rw [update_self, update_self]
  exact ht htn

section
variable (h : Moved t s s' L pl sl x y w cpu)
include h

/-- Two moves of one task after each other. -/
theorem Moved.trans (h' : ∀ L', Placed s' L' (update pl t x) (update sl t y) cpu →
      Moved t s' s'' L' (update pl t x) (update sl t y) x' y' w' cpu') :
    Moved t s s'' L pl sl x' y' w' cpu' := by
  obtain ⟨L1, hup, hP, htcb, -, hctl⟩ := h
  obtain ⟨L2, hup', hP', htcb', hw, hctl'⟩ := h' L1 hP
  rw [update_idem, update_idem] at hP'
  exact ⟨L2, hup.trans hup', hP', fun u hu => (htcb' u hu).trans (htcb u hu), hw, hctl'.trans hctl⟩

theorem Moved.life : (s'.tcb t).life = w := by
  obtain ⟨-, -, -, -, hw, -⟩ := h
  exact hw

theorem Moved.ctl : s'.ctl = s.ctl := by
  obtain ⟨-, -, -, -, -, hctl⟩ := h
  exact hctl

theorem Moved.idleTaskID : s'.idleTaskID = s.idleTaskID :=
  congrArg Ctl.idleTaskID h.ctl

end

/-- Nothing has happened to the task. -/
theorem Placed.stay (hP : Placed s L pl sl cpu) (t : Nat) :
    Moved t s s L pl sl (pl t) (sl t) (s.tcb t).life cpu := by
  refine ⟨L, Upto.refl t L, ?_, fun _ _ => rfl, rfl, rfl⟩
  rwa [update_eq_self, update_eq_self]

end

/-! ## The ready queues -/

namespace Placed

variable {s : Sched} {L : NodeLists Node} {pl : Nat → Option Node} {sl : Nat → Bool}
  {cpu : Option Nat} {t : Nat}

section
variable (hP : Placed s L pl sl cpu)
include hP

theorem priQueue_some {p : Nat} (hp : p < priorityQueueNum) :
    L (.priQueue p) = some (L.at (.priQueue p)) :=
  some_of_ne_none (hP.shape.head _ (by simpa [Node.isFixed] using hp))

theorem isEmpty_priQueue {p : Nat} (hp : p < priorityQueueNum) :
    s.heap.isEmpty (.priQueue p) = true ↔ L.at (.priQueue p) = [] :=
  hP.shape.rings.isEmpty_iff (hP.priQueue_some hp)

/-- `OsSchedTaskEnQueue`: a live task that is in no list goes to its ready queue. -/
theorem taskEnQueue (ht : t < taskMaxNum) (hpl : pl t = none)
    (hsl : sl t = false) (hcpu : cpu ≠ some t) (hr : (s.st t).ready = false)
    (hu : (s.st t).unused = false) (he : (s.st t).exit = false) :
    Moved t s (s.taskEnQueue t) L pl sl (readyPlace s.idleTaskID t (s.tcb t).priority) false
      (s.tcb t).life cpu := by
  have hT := hP.task t ht
  rw [hpl, hsl, decide_eq_false hcpu] at hT
  have hsl' : update sl t false = sl := by rw [← hsl, update_eq_self]
  have hok := hT.enQueue hu he
  unfold Sched.taskEnQueue
  rw [if_neg (hr ▸ Bool.false_ne_true)]
  dsimp only
  rw [hT.taskID]
  by_cases hidle : t = s.idleTaskID
  · -- the idle task is in no queue
    have hplace : readyPlace s.idleTaskID t (s.tcb t).priority = none := if_pos hidle
    rw [if_neg (not_not.mpr hidle)]
    refine hP.moved (Upto.refl t L) ?_ hP.bits (fun u hu' => setSt_of_ne hu' _) rfl ?_
      fun _ => ?_
    · rw [hplace, hsl', ← hpl, update_eq_self]
      exact hP.shape
    · rw [setSt_self]
      rfl
    · rw [decide_eq_false hcpu, setSt_self]
      exact hok (s.tcb t).timeSlice
  have hplace : readyPlace s.idleTaskID t (s.tcb t).priority = some (.priQueue (s.tcb t).priority) :=
    if_neg hidle
  have hn := hP.priQueue_some hT.prio
  have hempty := hP.isEmpty_priQueue hT.prio
  rw [if_pos hidle, hplace]
  rw [hplace] at hok
  split_ifs with hslice
  · refine hP.moved (Shape.upto_linkHead hn) ?_ (hP.bits.insert (cons_ne_nil _ _) hempty)
      (fun u hu' => setSt_of_ne hu' _) rfl ?_ fun _ => ?_
    · rw [hsl']
      exact hP.shape.linkHead hn ht hpl
    · rw [setSt_self]
      rfl
    · rw [decide_eq_false hcpu, setSt_self]
      exact hok (s.tcb t).timeSlice
  refine hP.moved (Shape.upto_linkTail hn) ?_ (hP.bits.insert ?_ hempty) (fun u hu' => ?_) rfl ?_ fun _ => ?_
  · rw [hsl']
    exact hP.shape.linkTail hn ht hpl
  · exact append_ne_nil_of_right_ne_nil _ (cons_ne_nil _ _)
  · rw [setSt_of_ne hu', priQueueEnTail_tcb, setTCB_of_ne hu']
  · rw [setSt_self, priQueueEnTail_tcb, setTCB_self]
    rfl
  · rw [decide_eq_false hcpu, setSt_self, priQueueEnTail_tcb, setTCB_self]
    exact hok s.schedTimeSlice

/-- `OsSchedTaskDeQueue`: a ready task leaves its queue. -/
theorem taskDeQueue (ht : t < taskMaxNum) (hr : (s.st t).ready = true) :
    Moved t s (s.taskDeQueue t) L pl sl none (sl t) (s.tcb t).life cpu := by
  have hT := hP.task t ht
  have hsl' : update sl t (sl t) = sl := update_eq_self ..
  have hok := hT.deQueue hr
  unfold Sched.taskDeQueue
  rw [if_pos hr]
  dsimp only
  rw [hT.taskID]
  by_cases hidle : t = s.idleTaskID
  · have hpl : pl t = none := (hT.ready hr).trans (if_pos hidle)
    rw [if_neg (not_not.mpr hidle)]
    refine hP.moved (Upto.refl t L) ?_ hP.bits (fun u hu' => setSt_of_ne hu' _) rfl ?_
      fun _ => ?_
    · rw [hsl', ← hpl, update_eq_self]
      exact hP.shape
    · rw [setSt_self]
      rfl
    · rwa [setSt_self]
  have hpl := hT.pl_of_ready hr hidle
  have hin : .pendList t ∈ L.at (.priQueue (s.tcb t).priority) := (hP.shape.pend _ _).mpr hpl
  have hshape := hP.shape.unlink hpl
  have hempty := hshape.rings.isEmpty_iff (update_self ..)
  rw [if_pos hidle]
  refine hP.moved (hP.shape.upto_unlink hpl) ?_ (hP.bits.erase (ne_nil_of_mem hin) hempty)
    (fun u hu' => ?_) rfl ?_ fun _ => ?_
  · rwa [hsl']
  · rw [setSt_of_ne hu', priQueueDelete_tcb]
  · rw [setSt_self]
    rfl
  · rwa [setSt_self]

end

end Placed

theorem taskDeQueue_tcb (s : Sched) (t : Nat) :
    (s.taskDeQueue t).tcb = update s.tcb t
      { s.tcb t with taskStatus := { (s.tcb t).taskStatus with ready := false } } := by
  unfold taskDeQueue
  dsimp only
  split_ifs with hr
  · rfl
  · rfl
  · have hr' : (s.tcb t).taskStatus.ready = false := by simpa [st] using hr
    rw [← hr', update_eq_self]

/-! ## The end of a wait -/

/-- The pointers and the bitmap, without what the control blocks say. -/
structure Wired (s : Sched) (L : NodeLists Node) (pl : Nat → Option Node) (sl : Nat → Bool) : Prop where
  shape : Shape s.heap L pl sl
  bits : BitsOk s.queueBitmap L

theorem Placed.wired {s : Sched} {L : NodeLists Node} {pl : Nat → Option Node} {sl : Nat → Bool}
    {cpu : Option Nat} (hP : Placed s L pl sl cpu) : Wired s L pl sl :=
  ⟨hP.shape, hP.bits⟩

namespace Wired

variable {s : Sched} {L : NodeLists Node} {pl : Nat → Option Node} {sl : Nat → Bool} {t : Nat}

/-- `LOS_ListDelete` of the `pendList` node of a waiting task. -/
theorem unlink (hW : Wired s L pl sl) {n : Node} (hpl : pl t = some n) (hn : ∀ p, n ≠ .priQueue p) :
    Wired (s.setHeap (s.heap.delete (.pendList t)))
      (update L n (some ((L.at n).erase (.pendList t)))) (update pl t none) sl :=
  ⟨hW.shape.unlink hpl, hW.bits.update_other hn _⟩

/-- `OsDeleteSortLink`: out of the sort link, if the response time says it is there. -/
theorem deleteSortLink (hW : Wired s L pl sl)
    (htime : sl t = true ↔ (s.tcb t).responseTime ≠ invalidTime) :
    ∃ L', Upto t L L' ∧ Wired (s.deleteSortLink t) L' pl (update sl t false) ∧
      (s.deleteSortLink t).tcb =
        update s.tcb t { s.tcb t with responseTime := invalidTime } ∧
      (s.deleteSortLink t).ctl = s.ctl := by
  unfold Sched.deleteSortLink resetSchedResponseTime
  by_cases hsl : sl t = true
  · rw [if_pos (htime.mp hsl)]
    have hW' : ∀ s' : Sched, s'.heap = s.heap → s'.queueBitmap = s.queueBitmap →
        Wired (s'.deleteNodeSortLink t) (update L .taskSortLink
          (some ((L.at .taskSortLink).erase (.sortList t)))) pl (update sl t false) := by
      intro s' hh hb
      constructor
      · have := hW.shape.unlinkSort hsl
        rwa [← hh] at this
      · have := hW.bits.update_other (n := .taskSortLink) (fun _ => Node.noConfusion)
          (some ((L.at .taskSortLink).erase (.sortList t)))
        rwa [← hb] at this
    refine ⟨_, hW.shape.upto_unlinkSort t, ?_⟩
    split_ifs
    · exact ⟨hW' _ rfl rfl, rfl, rfl⟩
    · exact ⟨hW' _ rfl rfl, rfl, rfl⟩
  have hinv : (s.tcb t).responseTime = invalidTime := by
    by_contra hne
    exact hsl (htime.mpr hne)
  rw [if_neg (not_not.mpr hinv)]
  refine ⟨L, Upto.refl t L, ?_, ?_, rfl⟩
  · rwa [← Bool.eq_false_iff.mpr hsl, update_eq_self]
  · rw [← hinv, update_eq_self]

end Wired

theorem isWait_ne_priQueue {n : Node} (hn : n.isWait = true) (p : Nat) : n ≠ .priQueue p := by
  rintro rfl
  cases hn

namespace Placed

variable {s : Sched} {L : NodeLists Node} {pl : Nat → Option Node} {sl : Nat → Bool}
  {cpu : Option Nat} {t : Nat}

section
variable (hP : Placed s L pl sl cpu) (ht : t < taskMaxNum)
include hP ht

/-- The first part of `OsSchedTaskWake`. -/
theorem endWait (hp : (s.st t).pend = true) :
    Moved t s (s.endWait t) L pl sl none false (s.tcb t).life cpu ∧
      (s.endWait t).tcb t =
        { s.tcb t with
          responseTime := invalidTime
          taskStatus := { (s.tcb t).taskStatus with pend := false, pendTime := false } } := by
  have hT := hP.task t ht
  obtain ⟨n, hpl, hwait⟩ := hT.pend.mp hp
  have hunused := (hT.pendX hp).2.2
  have hunlink := hP.wired.unlink hpl (isWait_ne_priQueue hwait)
  have hok := hT.unwait hp
  unfold Sched.endWait
  dsimp only
  split_ifs with htimed
  · have hW : Wired ((s.setHeap (s.heap.delete (.pendList t))).setSt t
        fun st => { st with pend := false }) _ (update pl t none) sl :=
      ⟨hunlink.shape, hunlink.bits⟩
    obtain ⟨L', hup, hW', htcb, hctl⟩ := hW.deleteSortLink (by
      rw [setSt_self]
      exact hT.time hunused)
    rw [setSt_self] at htcb
    have hself := setSt_self (s := ((s.setHeap (s.heap.delete (.pendList t))).setSt t
      fun st => { st with pend := false }).deleteSortLink t) (t := t)
      (fun st => { st with pendTime := false })
    rw [htcb, update_self] at hself
    refine ⟨hP.moved ((hP.shape.upto_unlink hpl).trans hup) hW'.shape hW'.bits (fun u hu => ?_) hctl
      ?_ fun _ => ?_, hself⟩
    · rw [setSt_of_ne hu, htcb, update_of_ne hu, setSt_of_ne hu, setHeap_tcb]
    · rw [hself]
      rfl
    · rwa [hself]
  have hpt : (s.tcb t).taskStatus.pendTime = false := by
    simpa [st] using htimed
  have hsl := hT.sl_false (hT.pendX hp).1 hpt
  have hinv : (s.tcb t).responseTime = invalidTime := by
    by_contra hne
    simp [(hT.time hunused).mpr hne] at hsl
  have hself : ((s.setHeap (s.heap.delete (.pendList t))).setSt t
      fun st => { st with pend := false }).tcb t =
      { s.tcb t with
        responseTime := invalidTime
        taskStatus := { (s.tcb t).taskStatus with pend := false, pendTime := false } } := by
    rw [setSt_self, setHeap_tcb, ← hinv, ← hpt]
  refine ⟨hP.moved (hP.shape.upto_unlink hpl) ?_ hunlink.bits (fun u hu => ?_) rfl ?_ fun _ => ?_,
    hself⟩
  · rw [← hsl, update_eq_self]
    exact hunlink.shape
  · rw [setSt_of_ne hu, setHeap_tcb]
  · rw [hself]
    rfl
  · rwa [hself]

/-- `OsSchedTaskWake` of a waiting task. -/
theorem taskWake (hp : (s.st t).pend = true) (hcpu : cpu = some t → (s.st t).running = true) :
    ∃ x, (x = none ∨ x = some (.priQueue (s.tcb t).priority)) ∧
      Moved t s (s.taskWake t) L pl sl x false (s.tcb t).life cpu := by
  have hT := hP.task t ht
  obtain ⟨hmoved, htcb⟩ := hP.endWait ht hp
  have hst : (s.endWait t).st t = { (s.tcb t).taskStatus with pend := false, pendTime := false } := by
    unfold st
    rw [htcb]
  unfold Sched.taskWake
  dsimp only
  split_ifs with hgo
  · rw [hst] at hgo
    simp only [Bool.and_eq_true, Bool.not_eq_eq_eq_not] at hgo
    refine ⟨_, .inr rfl, hmoved.trans fun L' hP' => ?_⟩
    have hplace : readyPlace (s.endWait t).idleTaskID t ((s.endWait t).tcb t).priority =
        some (.priQueue (s.tcb t).priority) := by
      rw [hmoved.idleTaskID, htcb]
      exact if_neg (hT.ne_idle_of_pend hp)
    rw [← hplace, ← hmoved.life]
    refine hP'.taskEnQueue ht (update_self ..) (update_self ..) ?_ ?_ ?_ ?_
    · intro hc
      rw [show (s.st t).running = (s.tcb t).taskStatus.running from rfl, hgo.2] at hcpu
      cases hcpu hc
    · rw [hst]
      exact hT.not_ready_of_pend hp
    · rw [hst]
      exact (hT.pendX hp).2.2
    · rw [hst]
      exact (hT.pendX hp).2.1
  · exact ⟨none, .inl rfl, hmoved⟩

/-- The first part of `OsSchedTaskExit`. -/
theorem leaveQueue
    (hu : (s.st t).unused = false) :
    ∃ L', Upto t L L' ∧ Wired (s.leaveQueue t) L' (update pl t none) sl ∧
      (s.leaveQueue t).tcb = update s.tcb t
        { s.tcb t with taskStatus := { (s.tcb t).taskStatus with ready := false, pend := false } } ∧
      (s.leaveQueue t).ctl = s.ctl := by
  have hT := hP.task t ht
  unfold Sched.leaveQueue
  split_ifs with hr hp
  · obtain ⟨L', hup, hP', -, -, hctl⟩ := hP.taskDeQueue ht hr
    rw [update_eq_self] at hP'
    refine ⟨L', hup, hP'.wired, ?_, hctl⟩
    rw [taskDeQueue_tcb, ← hT.not_pend_of_ready hr]
  · obtain ⟨n, hpl, hwait⟩ := hT.pend.mp hp
    have hunlink := hP.wired.unlink hpl (isWait_ne_priQueue hwait)
    refine ⟨_, hP.shape.upto_unlink hpl, ⟨hunlink.shape, hunlink.bits⟩, ?_, rfl⟩
    rw [← hT.not_ready_of_pend hp]
    rfl
  have hr' : (s.tcb t).taskStatus.ready = false := by simpa [st] using hr
  have hp' : (s.tcb t).taskStatus.pend = false := by simpa [st] using hp
  refine ⟨L, Upto.refl t L, ?_, ?_, rfl⟩
  · rw [← hT.pl_none hu hr' hp', update_eq_self]
    exact hP.wired
  have hsame : { s.tcb t with
      taskStatus := { (s.tcb t).taskStatus with ready := false, pend := false } } = s.tcb t := by
    generalize s.tcb t = c at hr' hp'
    cases c with
    | mk st =>
      cases st
      simp_all
  rw [hsame, update_eq_self]

end

end Placed

/-- The second part of `OsSchedTaskExit`. -/
theorem Wired.leaveSortLink {s : Sched} {L : NodeLists Node} {pl : Nat → Option Node} {sl : Nat → Bool}
    {t : Nat} (hW : Wired s L pl sl)
    (htime : sl t = true ↔ (s.tcb t).responseTime ≠ invalidTime)
    (hoff : (s.st t).delay = false → (s.st t).pendTime = false → sl t = false) :
    ∃ L', Upto t L L' ∧ Wired (s.leaveSortLink t) L' pl (update sl t false) ∧
      (s.leaveSortLink t).tcb = update s.tcb t
        { s.tcb t with
          responseTime := invalidTime
          taskStatus := { (s.tcb t).taskStatus with delay := false, pendTime := false } } ∧
      (s.leaveSortLink t).ctl = s.ctl := by
  unfold Sched.leaveSortLink
  split_ifs with hon
  · obtain ⟨L', hup, hW', htcb, hctl⟩ := hW.deleteSortLink htime
    refine ⟨L', hup, ⟨hW'.shape, hW'.bits⟩, ?_, hctl⟩
    unfold setSt setTCB
    rw [htcb, update_self, update_idem]
  rw [Bool.or_eq_true, not_or, Bool.not_eq_true, Bool.not_eq_true] at hon
  have hsl := hoff hon.1 hon.2
  have hinv : (s.tcb t).responseTime = invalidTime := by
    by_contra hne
    simp [htime.mpr hne] at hsl
  have hd : (s.tcb t).taskStatus.delay = false := hon.1
  have hp : (s.tcb t).taskStatus.pendTime = false := hon.2
  refine ⟨L, Upto.refl t L, ?_, ?_, rfl⟩
  · rwa [← hsl, update_eq_self]
  have hsame : { s.tcb t with
      responseTime := invalidTime
      taskStatus := { (s.tcb t).taskStatus with delay := false, pendTime := false } } = s.tcb t := by
    generalize s.tcb t = c at hinv hd hp
    cases c with
    | mk st =>
      cases st
      simp_all
  rw [hsame, update_eq_self]

namespace Placed

variable {s : Sched} {L : NodeLists Node} {pl : Nat → Option Node} {sl : Nat → Bool}
  {cpu : Option Nat} {t : Nat}

/-- `OsSchedTaskExit`. -/
theorem taskExit (hP : Placed s L pl sl cpu) (ht : t < taskMaxNum)
    (hu : (s.st t).unused = false) (hidle : t ≠ s.idleTaskID) :
    Moved t s (s.taskExit t) L pl sl none false { (s.tcb t).life with exit := true } cpu := by
  have hT := hP.task t ht
  obtain ⟨L1, hup1, hW1, htcb1, hctl1⟩ := hP.leaveQueue ht hu
  have hself1 : (s.leaveQueue t).tcb t =
      { s.tcb t with taskStatus := { (s.tcb t).taskStatus with ready := false, pend := false } } := by
    rw [htcb1, update_self]
  obtain ⟨L2, hup2, hW2, htcb2, hctl2⟩ := hW1.leaveSortLink
    (by rw [hself1]; exact hT.time hu)
    (by
      unfold st
      rw [hself1]
      exact hT.sl_false)
  have hself : (s.taskExit t).tcb t =
      { s.tcb t with
        responseTime := invalidTime
        taskStatus := { (s.tcb t).taskStatus with
          ready := false, pend := false, delay := false, pendTime := false, exit := true } } := by
    unfold Sched.taskExit
    rw [setSt_self, htcb2, update_self, hself1]
  refine hP.moved (hup1.trans hup2) hW2.shape hW2.bits (fun u hu' => ?_) (hctl2.trans hctl1) ?_
    fun _ => ?_
  · unfold Sched.taskExit
    rw [setSt_of_ne hu', htcb2, update_of_ne hu', htcb1, update_of_ne hu']
  · rw [hself]
    rfl
  · rw [hself]
    exact hT.exit hidle

/-! ## The tick -/

/-- The first part of `OsSchedWakePendTimeTask`, behind `OsDeleteNodeSortLink`. -/
theorem timeOut (hP : Placed s L pl sl cpu) (hsl : sl t = true) :
    Moved t s ((s.deleteNodeSortLink t).timeOut t) L pl sl none false (s.tcb t).life cpu ∧
      ((s.deleteNodeSortLink t).timeOut t).st t =
        { (s.tcb t).taskStatus with
          pend := false
          pendTime := false
          delay := false
          timeout := (s.tcb t).taskStatus.pend || (s.tcb t).taskStatus.timeout } ∧
      (((s.deleteNodeSortLink t).timeOut t).tcb t).priority = (s.tcb t).priority := by
  have ht := hP.shape.lt_of_sl hsl
  have hT := hP.task t ht
  have hwait : (s.tcb t).taskStatus.pend = true ∨ (s.tcb t).taskStatus.delay = true := by
    rcases (hT.sort.mp hsl).2 with hd | hp
    · exact .inr hd
    · exact .inl (hT.timed hp)
  have hok := hT.timeUp hwait
  have hsort := hP.shape.unlinkSort hsl
  have hbits : BitsOk s.queueBitmap _ :=
    hP.bits.update_other (n := .taskSortLink) (fun _ => Node.noConfusion)
      (some ((L.at .taskSortLink).erase (.sortList t)))
  have hup := hP.shape.upto_unlinkSort t
  have hstart : (s.deleteNodeSortLink t).tcb t = { s.tcb t with responseTime := invalidTime } := by
    unfold deleteNodeSortLink
    rw [setTCB_self, setHeap_tcb]
  unfold Sched.timeOut st
  rw [hstart]
  dsimp only
  split_ifs with hp
  · obtain ⟨n, hpl, hn⟩ := hT.pend.mp hp
    have hself : (((s.deleteNodeSortLink t).setSt t fun st =>
          { st with pend := false, pendTime := false, delay := false }).setHeap
          (((s.deleteNodeSortLink t).setSt t fun st =>
          { st with pend := false, pendTime := false, delay := false }).heap.delete (.pendList t))
          |>.setTCB t fun c =>
          { c with
            taskStatus := { c.taskStatus with timeout := true }
            taskMux := none
            taskSem := none }).tcb t =
        { s.tcb t with
          responseTime := invalidTime
          taskStatus := { (s.tcb t).taskStatus with
            pend := false, pendTime := false, delay := false, timeout := true }
          taskMux := none
          taskSem := none } := by
      rw [setTCB_self, setHeap_tcb, setSt_self, hstart]
    have hunlink := hsort.unlink hpl
    refine ⟨hP.moved (hup.trans (hsort.upto_unlink hpl)) hunlink
      (hbits.update_other (isWait_ne_priQueue hn) _) (fun u hu => ?_) rfl ?_ fun _ => ?_, ?_, ?_⟩
    · rw [setTCB_of_ne hu, setHeap_tcb, setSt_of_ne hu]
      exact setTCB_of_ne hu _
    · rw [hself]
      rfl
    · rw [hself]
      exact (hok true).congr rfl rfl rfl rfl
    · rw [hself, hp, Bool.true_or]
    · rw [hself]
  have hp' : (s.tcb t).taskStatus.pend = false := by simpa using hp
  have hself : ((s.deleteNodeSortLink t).setSt t fun st =>
        { st with pend := false, pendTime := false, delay := false }).tcb t =
      { s.tcb t with
        responseTime := invalidTime
        taskStatus := { (s.tcb t).taskStatus with
          pend := false, pendTime := false, delay := false } } := by
    rw [setSt_self, hstart]
  have hpl : pl t = none := by
    have hd := hwait.resolve_left hp
    refine hT.pl_none (hT.delayX hd).2 ?_ hp'
    rw [Bool.eq_false_iff]
    intro hr
    simp [(hT.readyX hr).2.1] at hd
  refine ⟨hP.moved hup ?_ hbits (fun u hu => ?_) rfl ?_ fun _ => ?_, ?_, ?_⟩
  · rwa [← hpl, update_eq_self]
  · rw [setSt_of_ne hu]
    exact setTCB_of_ne hu _
  · rw [hself]
    rfl
  · rw [hself]
    exact hok (s.tcb t).taskStatus.timeout
  · rw [hself, hp', Bool.false_or]
  · rw [hself]

/-- A task whose time has come leaves the sort link and, unless it is suspended, becomes ready. -/
theorem expire (hP : Placed s L pl sl cpu) (hsl : sl t = true) :
    ∃ x, (x = none ∨ x = some (.priQueue (s.tcb t).priority)) ∧
      Moved t s ((s.deleteNodeSortLink t).wakePendTimeTask t) L pl sl x false (s.tcb t).life cpu := by
  have ht := hP.shape.lt_of_sl hsl
  have hT := hP.task t ht
  obtain ⟨hcpu, hwait⟩ := hT.sort.mp hsl
  have hstart : (s.deleteNodeSortLink t).st t = (s.tcb t).taskStatus := by
    unfold deleteNodeSortLink st
    rw [setTCB_self, setHeap_tcb]
  obtain ⟨hmoved, hst, hprio⟩ := hP.timeOut hsl
  have hlive : (s.tcb t).taskStatus.unused = false ∧ (s.tcb t).taskStatus.exit = false ∧
      (s.tcb t).taskStatus.ready = false ∧ t ≠ s.idleTaskID := by
    rcases hwait with hd | hp
    · refine ⟨(hT.delayX hd).2, (hT.delayX hd).1, ?_, fun hc => ?_⟩
      · rw [Bool.eq_false_iff]
        intro hr
        simp [(hT.readyX hr).2.1] at hd
      · simp [(hT.idleX hc).2.2.2.1] at hd
    · have hp' := hT.timed hp
      exact ⟨(hT.pendX hp').2.2, (hT.pendX hp').2.1, hT.not_ready_of_pend hp', hT.ne_idle_of_pend hp'⟩
  have hgo : (s.tcb t).taskStatus.pend = true ∨ (s.tcb t).taskStatus.delay = true := by
    rcases hwait with hd | hp
    · exact .inr hd
    · exact .inl (hT.timed hp)
  unfold wakePendTimeTask
  rw [hstart, if_pos (by simpa using hgo)]
  split_ifs with hsusp
  · refine ⟨_, .inr rfl, hmoved.trans fun L' hP' => ?_⟩
    have hplace : readyPlace ((s.deleteNodeSortLink t).timeOut t).idleTaskID t
        (((s.deleteNodeSortLink t).timeOut t).tcb t).priority =
        some (.priQueue (s.tcb t).priority) := by
      rw [hmoved.idleTaskID, hprio]
      exact if_neg hlive.2.2.2
    rw [← hplace, ← hmoved.life]
    refine hP'.taskEnQueue ht (update_self ..) (update_self ..) ?_ ?_ ?_ ?_
    · exact of_decide_eq_false hcpu
    · rw [hst]
      exact hlive.2.2.1
    · rw [hst]
      exact hlive.1
    · rw [hst]
      exact hlive.2.1
  · exact ⟨none, .inl rfl, hmoved⟩

end Placed

end LiteosM.Kernel
