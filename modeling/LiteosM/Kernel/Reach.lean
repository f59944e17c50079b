import LiteosM.Kernel.Steps

/-!
# What a step does

A piece of code `c` begins in a state in which it has been taken off what the running task has to do
(`Next`). If it is careful (`State.Careful`), it does one of a few things (`Ran`), and each of them keeps
the invariant: `Reached` holds in every state of a run whose steps are all careful.

* `Next`, `Inv.next_call`, `Inv.next_cont`: where a piece of code begins;
* `Next.run`: what it does, by cases on the code;
* **`Reached.step`**: what a step does (`Stepped`). The proofs about runs go by cases on `Ran` and
  `Stepped`, and do not look into the code again.

`State.Careful` is what the kernel relies on and does not check. A run that is not careful is `enqueued_twice`
in `Kernel.Placement`.
-/

namespace LiteosM.Kernel

open LiteosM.Lib Option State

/-- The tasks a piece of code may take out of a ready queue or stop. -/
def State.moves (k : State) : Sec → Nat → Prop
  | .taskSuspend t | .taskPriSet t _ => (· = t)
  | .muxPend i _ => fun u => k.boosts i u ∨ u = k.runTask
  | .taskJoin _ | .taskDelay _ | .semPend _ _ | .queueOperate _ _ _ _ | .eventReadLocked _ _ _ _ =>
    (· = k.runTask)
  | _ => nobody

/-- What a piece of code needs that the kernel does not check: it does not wait before the start of
the scheduler, it does not resume a deleted task, and what a call has decided in one critical
section still holds in its next one. -/
def State.CarefulSec (k : State) : Sec → Prop
  | .taskResume t => t < taskMaxNum → (k.st t).unused = false → (k.st t).suspend = true →
      (k.st t).exit = false
  | .joinFree t => (k.st t).exit = true ∧ (k.st t).unused = false
  | .createEnQueue t => Untouched k t
  | .insertTCBToFreeList t => Untouched k t ∧
      ((k.st t).joinable = true → k.heap.isEmpty (.joinList t) = true)
  | .eventInit e => k.heap.next (.stEventList e) = none ∨ k.heap.isEmpty (.stEventList e) = true
  | .eventReadLocked e mask mode timeout => k.waits (.eventReadLocked e mask mode timeout) →
      k.taskScheduled = true ∧ k.heap.next (.stEventList e) ≠ none
  | .schedule => k.taskScheduled = true → k.losTaskLock = 0 → k.InTime
  | c => k.waits c → k.taskScheduled = true

instance (k : State) (t : Nat) : Decidable (Untouched k t) :=
  decidable_of_iff' _ (untouched_iff k t)

instance (k : State) (c : Sec) : Decidable (k.CarefulSec c) := by
  apply Sec.casesOn (motive := fun c => Decidable (k.CarefulSec c)) c <;> intros <;>
    dsimp only [State.CarefulSec] <;> infer_instance

/-- A piece of code that has just been taken off what is left to do. -/
structure Next (c : Sec) (k : State) (v : View) : Prop extends Core k v where
  goes : c ≠ .schedule → k.taskScheduled = true → (k.st k.runTask).stops = false
  lock : k.taskScheduled = true → (k.st k.runTask).stops = true → k.losTaskLock = 0
  clean : ∀ c ∈ k.todo k.runTask, c.holds = none
  wellFormed : c.WellFormed
  holds : ∀ t, c.holds = some t → t ≠ k.idleTaskID ∧ (v.s.st t).unused = true ∧ v.pl t = none ∧
    ∀ u, ∀ c ∈ k.todo u, c.holds ≠ some t
  idles : k.runTask = k.idleTaskID → c.idles = true

section
variable {k : State} {v v' : View} {c : Sec}

theorem Next.atAny (h : Next c k v) (hc : c ≠ .schedule) : AtAny k v :=
  ⟨h.toCore, h.goes hc, h.clean⟩

theorem Next.at (h : Next c k v) (hc : c.idles = false) (hs : c ≠ .schedule) : At k v := by
  refine ⟨h.atAny hs, fun hidle => ?_⟩
  simp [h.idles hidle] at hc

/-- The running task starts a call. -/
theorem Inv.next_call (hI : Inv k v) (hcall : k.mayCall c = true) : Next c k v := by
  obtain ⟨hC, hgo⟩ := hI
  unfold mayCall at hcall
  rw [Bool.and_eq_true, Bool.and_eq_true, List.isEmpty_iff] at hcall
  obtain ⟨⟨hiscall, hempty⟩, hidle⟩ := hcall
  have hgoes : k.taskScheduled = true → (k.st k.runTask).stops ≠ true := by
    intro hstart hstop
    have := (hgo hstart hstop).2
    simp [hempty] at this
  refine ⟨hC, fun _ hstart => Bool.eq_false_iff.mpr (hgoes hstart),
    fun hstart hstop => absurd hstop (hgoes hstart), ?_, ?_, ?_, fun hrun => ?_⟩
  · rw [hempty]
    intro c hc
    cases hc
  · cases c with
    | schedule | memFree | createTake | newTaskInit | insertTCBToFreeList | createEnQueue | joinFree =>
      cases hiscall
    | _ => trivial
  · intro t ht
    cases c with
    | newTaskInit => cases hiscall
    | _ => cases ht
  · rw [hrun, bne_self_eq_false, Bool.false_or, beq_iff_eq] at hidle
    rw [hidle]
    rfl

/-- It goes on with a call. -/
theorem Inv.next_cont (hI : Inv k v) {rest : List Sec} (htodo : k.todo k.runTask = c :: rest) :
    Next c (k.setTodo k.runTask rest) v := by
  obtain ⟨hC, hgo⟩ := hI
  have hmem : c ∈ k.todo k.runTask := by
    rw [htodo]
    exact List.mem_cons_self
  have hrest : ∀ c' ∈ rest, c' ∈ k.todo k.runTask ∧ c'.holds = none := by
    intro c' hc'
    refine ⟨?_, hC.todo.tail k.runTask c' ?_⟩
    · rw [htodo]
      exact List.mem_cons_of_mem c hc'
    · rwa [htodo]
  have hself : (k.setTodo k.runTask rest).todo k.runTask = rest := setTodo_self k _ _
  have hother : ∀ u, u ≠ k.runTask → (k.setTodo k.runTask rest).todo u = k.todo u := fun u hu =>
    setTodo_of_ne k hu rest
  refine ⟨⟨hC.eq, hC.good, hC.ipc.same ⟨rfl, rfl, rfl, rfl, rfl, rfl⟩ (fun _ _ => id) fun _ _ _ => id,
      hC.todo.replace rfl (fun u => ?_) fun u t c hc hh => (hC.todo.held u t c hc hh).2⟩,
    fun hne hstart => ?_, fun hstart hstop => (hgo hstart hstop).1, ?_, hC.todo.wellFormed _ c hmem,
    fun t ht => ?_, fun hidle => hC.todo.idles c (by rwa [← show k.runTask = k.idleTaskID from hidle])⟩
  · by_cases hu : u = k.runTask
    · subst hu
      rw [hself]
      exact .inr fun c' hc' => ⟨hC.todo.wellFormed _ c' (hrest c' hc').1, (hrest c' hc').2,
        fun hidle => hC.todo.idles c' (hidle ▸ (hrest c' hc').1)⟩
    · exact .inl (hother u hu)
  · rw [Bool.eq_false_iff]
    intro hstop
    have hhead := (hgo hstart hstop).2
    rw [htodo] at hhead
    exact hne (some.inj hhead)
  · intro c' hc'
    rw [show (k.setTodo k.runTask rest).runTask = k.runTask from rfl, hself] at hc'
    exact (hrest c' hc').2
  obtain ⟨hidle, hu, hpl⟩ := hC.todo.held _ t c hmem ht
  refine ⟨hidle, hu, hpl, fun u c' hc' hh => ?_⟩
  by_cases hur : u = k.runTask
  · rw [hur, hself] at hc'
    simp [(hrest c' hc').2] at hh
  · rw [hother u hur] at hc'
    exact hur (hC.todo.once u k.runTask t c' hc' c hmem hh ht)

/-- What a piece of code does: it leaves alone what each task is, or it changes one task, or it
switches. -/
inductive Ran (c : Sec) (k : State) (v v' : View) : Prop where
  | tame (sec : c ≠ .schedule) (h : Tame (k.moves c) k v (k.run c) v')
  | take {t p enqueue} (sec : c = .createTake p enqueue)
      (eq : k.run c = (k.onSched (·.pop t)).push [.newTaskInit t p enqueue])
      (alter : Alter t k v (k.run c) v') (pl : v.pl t = some .losFreeTask) (pl' : v'.pl t = none)
  | init {t p enqueue} (sec : c = .newTaskInit t p enqueue)
      (alter : Alter t k v (k.run c) v') (pl' : v'.pl t = none)
  | give {t} (sec : c = .insertTCBToFreeList t)
      (alter : Alter t k v (k.run c) v') (pl : v.pl t = none) (wiped : Wiped t v')
  | free {p} (sec : c = .memFree p) (inv : Inv (k.run c) v) (eq : v' = v)
  | recycle {t} (sec : c = .recycleFinishedTask)
      (eq : k.run c = ((k.onSched (·.pop t)).onSched (·.insertTCBToFreeList t)).push
        [.memFree (k.tcb t).stackToFree, .recycleFinishedTask])
      (alter : Alter t k v (k.run c) v') (pl : v.pl t = some .taskRecycleList) (wiped : Wiped t v')
  | join {t} (sec : c = .joinFree t)
      (eq : k.run c = ((k.onSched (·.insertTCBToFreeList t)).done .ok).push
        [.memFree (k.tcb t).stackToFree])
      (alter : Alter t k v (k.run c) v') (pl : v.pl t = none) (wiped : Wiped t v')
  | detach {t} (sec : c = .taskDetach t) (alter : Alter t k v (k.run c) v') (pl : v'.pl t = v.pl t)
      (lists : ∀ n, v'.L.at n = v.L.at n) (used : (v.s.st t).unused = false)
      (life : (v'.s.tcb t).life = { (v.s.tcb t).life with joinable := false })
      (same : (k.run c).runTask = k.runTask ∧ (k.run c).todo = k.todo ∧
        (k.run c).allocated = k.allocated ∧ (k.run c).freed = k.freed)
  | delete {t} (sec : c = .taskDelete t) (deletes : k.deletes t = true)
      (alter : Alter t k v (k.run c) v') (deleted : Deleted t k v (k.run c) v')
  | switch (sec : c = .schedule) (h : Switches k.scheduleAt k v (k.run c) v')

theorem Ran.reached (h : Ran c k v v') : Reached (k.run c) v' := by
  cases h with
  | tame _ h => exact h.inv.reached
  | free _ inv eq => exact eq ▸ inv.reached
  | take _ _ alter | init _ alter | give _ alter | recycle _ _ alter | join _ _ alter
  | detach _ alter | delete _ _ alter => exact alter.inv.reached
  | switch _ h => exact h.reached

/-- Only `LOS_Schedule` chooses another task; a task that deletes itself leaves the CPU to the
control block behind the last one. -/
theorem Ran.runTask (h : Ran c k v v') (hc : c ≠ .schedule) :
    (k.run c).runTask = k.runTask ∨ (k.run c).runTask = taskMaxNum := by
  cases h with
  | tame _ h => exact .inl h.runTask
  | take _ eq | recycle _ eq | join _ eq => exact .inl (eq ▸ rfl)
  | @init t p enqueue sec =>
    subst sec
    have hs := congrArg Sched.runTask (k.newTaskInit_toSched t p enqueue)
    exact .inl hs
  | give sec =>
    subst sec
    exact .inl rfl
  | free sec =>
    subst sec
    refine .inl ?_
    dsimp only [run, memFree]
    split_ifs <;> rfl
  | detach _ _ _ _ _ _ same => exact .inl same.1
  | delete _ _ _ deleted =>
    cases deleted with
    | recycled _ _ _ _ run' => exact .inr run'
    | stays _ _ _ _ run' | kept _ _ _ _ run' | freed _ _ _ run' => exact .inl run'
  | switch sec => exact absurd sec hc

theorem ran_tame (hc : c ≠ .schedule) (h : ∃ v', Tame (k.moves c) k v (k.run c) v') :
    ∃ v', Ran c k v v' :=
  h.imp fun _ => .tame hc

theorem ran_effect (hC : Core k v) (hc : c ≠ .schedule)
    (h : ∃ v', Effect (k.moves c) k v (k.run c) v') : ∃ v', Ran c k v v' :=
  ran_tame hc (h.imp fun _ h => h.tame hC.eq)

theorem AtAny.inv (hA : AtAny k v) : Inv k v := by
  refine ⟨hA.toCore, fun hstart hstop => ?_⟩
  simp [hA.goes hstart] at hstop

/-- Nothing happens. -/
theorem Inv.tame_self (hI : Inv k v) {m : Nat → Prop} : Tame m k v k v :=
  { inv := hI
    runTask := rfl
    life := fun _ => rfl
    unused := fun _ _ => rfl
    queued := fun _ _ _ => id
    ahead := fun _ _ _ _ _ => id
    todo := ⟨[], (fun _ hc => by cases hc), todo_same _ _⟩
    allocated := rfl
    freed := rfl
    fixed := ⟨rfl, rfl⟩
    there := fun u n hu hL => by
      have hsome := v.placed.shape.some_of_pl hu
      rw [hL] at hsome
      cases hsome }

/-- The code of a task other than the idle task that changes a task's life. -/
theorem At.ran_alter (hA : At k v) (h : Next c k v) (hcare : k.CarefulSec c)
    (hc : match c with
      | .createTake _ _ | .newTaskInit _ _ _ | .insertTCBToFreeList _ | .joinFree _ | .taskDetach _
      | .taskDelete _ => True
      | _ => False) : ∃ v', Ran c k v v' := by
  cases c with
  | createTake p enqueue =>
    rcases hA.createTake p enqueue h.wellFormed with h | ⟨t, v', heq, halter, hpl, hpl'⟩
    · exact ran_effect hA.toCore Sec.noConfusion ⟨v, h⟩
    · exact ⟨v', .take rfl heq halter hpl hpl'⟩
  | newTaskInit t p enqueue =>
    obtain ⟨hidle, hu, hpl, hfree⟩ := h.holds t rfl
    obtain ⟨v', halter, hpl'⟩ := hA.newTaskInit h.wellFormed.1 h.wellFormed.2 hidle hu hpl hfree enqueue
    exact ⟨v', .init rfl halter hpl'⟩
  | insertTCBToFreeList t =>
    obtain ⟨v', halter, hpl, hwiped⟩ := hA.insertTCBToFreeList h.wellFormed hcare.1 hcare.2
    exact ⟨v', .give rfl halter hpl hwiped⟩
  | joinFree t =>
    obtain ⟨heq, v', halter, hpl, hwiped⟩ := hA.joinFree h.wellFormed hcare.1 hcare.2
    exact ⟨v', .join rfl heq halter hpl hwiped⟩
  | taskDetach t =>
    rcases hA.taskDetach t with h | ⟨v', halter, hpl, hlists, hu, hlife, hsame⟩
    · exact ran_effect hA.toCore Sec.noConfusion ⟨v, h⟩
    · exact ⟨v', .detach rfl halter hpl hlists hu hlife hsame⟩
  | taskDelete t =>
    rcases hA.taskDelete t with ⟨-, h⟩ | ⟨hdel, v', halter, hdeleted⟩
    · exact ran_effect hA.toCore Sec.noConfusion ⟨v, h⟩
    · exact ⟨v', .delete rfl hdel halter hdeleted⟩
  | _ => exact hc.elim

/-- **Every piece of code does one of the things of `Ran`.** -/
theorem Next.run (h : Next c k v) (hcare : k.CarefulSec c) : ∃ v', Ran c k v v' := by
  have hC := h.toCore
  by_cases hs : c = .schedule
  · subst hs
    obtain ⟨v', hsw⟩ := hC.schedule h.lock hcare
    exact ⟨v', .switch rfl hsw⟩
  cases hidles : c.idles with
  | true =>
    have hA := h.atAny hs
    cases c with
    | memFree p => exact ⟨v, .free rfl (hA.memFree p) rfl⟩
    | recycleFinishedTask =>
      rcases hA.recycleFinishedTask with heq | ⟨t, v', heq, halter, hpl, hwiped⟩
      · refine ran_tame hs ⟨v, ?_⟩
        change Tame _ k v k.recycleFinishedTask v
        rw [heq]
        exact hA.inv.tame_self
      · exact ⟨v', .recycle rfl heq halter hpl hwiped⟩
    | _ => cases hidles
  | false =>
    have hA := h.at hidles hs
    cases c with
    | schedule => exact absurd rfl hs
    | memFree | recycleFinishedTask => cases hidles
    | createTake | newTaskInit | insertTCBToFreeList | joinFree | taskDetach | taskDelete =>
      exact hA.ran_alter h hcare trivial
    | taskCreate p enqueue => exact ran_effect hC hs ⟨v, hA.taskCreate p enqueue⟩
    | taskResume t => exact ran_effect hC hs (hA.taskResume t hcare)
    | taskSuspend t => exact ran_effect hC hs (hA.taskSuspend t)
    | taskJoin t => exact ran_effect hC hs (hA.taskJoin t hcare)
    | taskDelay tick => exact ran_effect hC hs (hA.taskDelay tick hcare)
    | taskYield => exact ran_effect hC hs hA.taskYield
    | taskPriSet t prio => exact ran_effect hC hs (hA.taskPriSet t prio)
    | taskLock => exact ran_tame hs hA.taskLock
    | taskUnlock => exact ran_tame hs hA.taskUnlock
    | semCreate count maxCount => exact ran_tame hs (hA.semCreate count maxCount)
    | semDelete i => exact ran_tame hs (hA.semDelete i)
    | semPend i timeout => exact ran_effect hC hs (hA.semPend i timeout hcare)
    | semPost i => exact ran_effect hC hs (hA.semPost i)
    | semPended => exact ran_effect hC hs hA.semPended
    | muxCreate => exact ran_tame hs hA.muxCreate
    | muxDelete i => exact ran_tame hs (hA.muxDelete i)
    | muxPend i timeout => exact ran_effect hC hs (hA.muxPend i timeout hcare)
    | muxPost i => exact ran_effect hC hs (hA.muxPost i)
    | muxPended => exact ran_effect hC hs hA.muxPended
    | queueCreate len maxMsgSize memory => exact ran_tame hs (hA.queueCreate len maxMsgSize memory)
    | queueDelete q => exact ran_tame hs (hA.queueDelete q)
    | queueOperate q rw size timeout => exact ran_effect hC hs (hA.queueOperate q rw size timeout hcare)
    | queuePended q rw => exact ran_effect hC hs (hA.queuePended q rw)
    | eventInit e => exact ran_tame hs (hA.eventInit e hcare)
    | eventRead e mask mode timeout => exact ran_effect hC hs ⟨v, hA.eventRead e mask mode timeout⟩
    | eventReadLocked e mask mode timeout =>
      exact ran_effect hC hs (hA.eventReadLocked e mask mode timeout hcare)
    | eventPended e mask mode => exact ran_effect hC hs (hA.eventPended e mask mode)
    | eventWrite e events => exact ran_effect hC hs ⟨v, hA.eventWrite e events⟩
    | eventWriteLocked e events => exact ran_effect hC hs (hA.eventWriteLocked e events)
    | eventDestroy e => exact ran_tame hs (hA.eventDestroy e)
    | eventClear e mask => exact ran_effect hC hs ⟨v, hA.eventClear e mask⟩
    | createEnQueue t => exact ran_effect hC hs (hA.createEnQueue h.wellFormed hcare)

/-! ## Steps -/

/-- The state in which the code of a step begins. -/
def State.before (k : State) : Label → State
  | .cont => k.setTodo k.runTask (k.todo k.runTask).tail
  | _ => k

/-- What a step needs that the kernel does not check. -/
def State.Careful (k : State) (l : Label) : Prop :=
  match k.secOf l with
  | some c => k.CarefulSec c
  | none => l = .tick → k.taskScheduled = true → k.losTaskLock = 0 → k.InTime

instance (k : State) (l : Label) : Decidable (k.Careful l) := by
  unfold State.Careful
  split <;> infer_instance

/-- What a step does. -/
inductive Stepped (k : State) (v : View) (l : Label) (k' : State) (v' : View) : Prop where
  | ran {c : Sec} (sec : k.secOf l = some c) (next : Next c (k.before l) v) (eq : k' = (k.before l).run c)
      (ran : Ran c (k.before l) v v')
  | tick (label : l = .tick) (eq : k' = k.onSched (·.schedTickHandler)) (h : Switches k.tickAt k v k' v')
  | clock {time : Nat} (label : l = .clock time) (eq : k' = k.onSched ({ · with currTime := time }))
      (frozen : Frozen v v') (inv : Inv k' v')
  | start {new : Nat} (label : l = .start) (before : k.taskScheduled = false)
      (eq : k' = k.onSched fun s => s.start.halStartToRun) (top : k.getTopTask = some new)
      (h : StartTo v v' new) (inv : Inv k' v')

variable {k' : State} {l : Label}

theorem Stepped.reached (h : Stepped k v l k' v') : Reached k' v' := by
  cases h with
  | ran _ _ eq ran => exact eq ▸ ran.reached
  | tick _ _ h => exact h.reached
  | clock _ _ _ inv | start _ _ _ _ _ inv => exact inv.reached

theorem State.careful_setTodo (k : State) (t : Nat) (r : List Sec) (c : Sec) :
    (k.setTodo t r).CarefulSec c ↔ k.CarefulSec c := by
  have huntouched : ∀ t', Untouched (k.setTodo t r) t' ↔ Untouched k t' := fun t' => by
    rw [untouched_iff, untouched_iff]
    rfl
  cases c with
  | createEnQueue t' => exact huntouched t'
  | insertTCBToFreeList t' => exact and_congr (huntouched t') Iff.rfl
  | _ => exact Iff.rfl

/-- **Every careful step does one of the things of `Stepped`.** -/
theorem Reached.step (hR : Reached k v) (hcare : k.Careful l) (hstep : Kernel.step k l = some k') :
    ∃ v', Stepped k v l k' v' := by
  obtain ⟨hhalt, hstep⟩ := ite_none_left_eq_some.mp hstep
  have hI : Inv k v := by
    refine ⟨hR.1, hR.2 ?_⟩
    unfold halted at hhalt
    simp only [Bool.or_eq_true, not_or, isSome_iff_ne_none, not_not] at hhalt
    exact hhalt.1
  cases l with
  | call c =>
    dsimp only at hstep
    split_ifs at hstep with hcall
    have hnext := hI.next_call hcall
    obtain ⟨v', hran⟩ := hnext.run hcare
    exact ⟨v', .ran rfl hnext (some.inj hstep).symm hran⟩
  | cont =>
    cases htodo : k.todo k.runTask with
    | nil => simp [htodo] at hstep
    | cons c rest =>
      rw [htodo] at hstep
      dsimp only at hstep
      have hsec : k.secOf .cont = some c := by
        unfold secOf
        rw [htodo]
        rfl
      have hbefore : k.before .cont = k.setTodo k.runTask rest := by
        unfold before
        rw [htodo]
        rfl
      have hnext := hI.next_cont htodo
      rw [← hbefore] at hnext hstep
      unfold State.Careful at hcare
      rw [hsec] at hcare
      have hcare' : (k.before .cont).CarefulSec c := by
        rwa [hbefore, careful_setTodo]
      obtain ⟨v', hran⟩ := hnext.run hcare'
      exact ⟨v', .ran hsec hnext (some.inj hstep).symm hran⟩
  | tick =>
    obtain ⟨v', h⟩ := hI.tick (hcare rfl)
    rw [some.inj hstep] at h
    exact ⟨v', .tick rfl (some.inj hstep).symm h⟩
  | clock time =>
    dsimp only at hstep
    split_ifs at hstep
    obtain ⟨v', hfrozen, hinv⟩ := hI.clock time
    rw [some.inj hstep] at hinv
    exact ⟨v', .clock rfl (some.inj hstep).symm hfrozen hinv⟩
  | start =>
    split_ifs at hstep with hno
    have hbefore : k.taskScheduled = false := by
      rw [Bool.or_eq_true, not_or, Bool.not_eq_true] at hno
      exact hno.1
    obtain ⟨v', new, hinv, h, htop⟩ := hI.start hbefore
    rw [some.inj hstep] at hinv
    exact ⟨v', .start rfl hbefore (some.inj hstep).symm htop h hinv⟩

end

end LiteosM.Kernel
