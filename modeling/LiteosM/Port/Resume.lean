import LiteosM.Lib.Baton
import LiteosM.Port.SingleCore

/-!
# Handing the core over by `SIG_RESUME`

Tasks that switch to each other through `Pthread_Schedule`: the caller sends `SIG_RESUME` to the
thread of the new task and only then suspends itself (`Suspend_Thread_Self`), which releases
`single_core_mutex` before `sigwait`. The new thread can therefore run, and switch back, while the
caller is still on its way to `sigwait`; a `SIG_RESUME` that arrives there is consumed by
`Resume_Signal_Handler`.

The hand-over is the baton of `LiteosM.Lib.Baton`: a task's thread is asleep from its own
`ResumeThread` to its return from `sigwait` (`dormant`), the outstanding message is `SIG_RESUME`.
`switch_refines` shows that every step of the machine is a move of the baton, the drop of a message
that arrives outside `sigwait`, or neither.

* **`no_lost_resume`**: in every run in which no `SIG_RESUME` arrives at a thread on its way to
  `sigwait`, the task threads never all wait with no `SIG_RESUME` outstanding;
* `lost_resume_is_final`: after one such arrival no task thread runs again;
* `lost_resume`: a run from the start of the program in which it happens.
-/

namespace LiteosM.Port

open LiteosM.Lib Function List Option Machine

/-! ## Where a task's thread stands -/

/-- The thread is between its `ResumeThread` and its return from `sigwait`. -/
def dormant : List Instr → Bool
  | [] => false
  | .scheduleNew _ _ _ :: _ => false
  | .resumeThread _ :: _ => false
  | .scheduleRun _ :: _ => true
  | .sigwait :: _ => true
  | _ :: c => dormant c

/-- The thread as a party of the hand-over. -/
def Thread.party (th : Thread) : Baton.Party := ⟨dormant th.code, th.resumePending⟩

/-- The party of each thread. -/
def Machine.parties (m : Machine) (t : Tid) : Baton.Party := (m.thread t).party

/-- The threads of the tasks. -/
def tasks (ts : Slots) : Set Tid := { t | ∃ s ∈ ts, s.valid = true ∧ s.thread = t }

/-- The code of `Pthread_Schedule`, `Suspend_Thread_Self` and `Suspend_Signal_Handler` as thread
`t` may have it before it: a resume goes to another task's thread and is followed by a `sigwait`,
behind which no other one stands. -/
@[simp] def switchCode (ts : Slots) (t : Tid) : List Instr → Prop
  | [] => True
  | .scheduleNew _ run false :: c => HasTask ts run ∧ c = []
  | .resumeThread u :: c => u ≠ t ∧ u ∈ tasks ts ∧ switchCode ts t c ∧ dormant c = true
  | .scheduleRun run :: c => HasTask ts run ∧ c = []
  | .sigwait :: c => switchCode ts t c ∧ dormant c = false
  | .disableIrq :: c => switchCode ts t c
  | .enableIrq :: c => switchCode ts t c
  | .disableTick :: c => switchCode ts t c
  | .enableTick :: c => switchCode ts t c
  | .lock _ :: c => switchCode ts t c
  | .unlock _ :: c => switchCode ts t c
  | .unlockSystick _ :: c => switchCode ts t c
  | .enterSigwait :: c => switchCode ts t c
  | .waitCreat :: c => switchCode ts t c
  | .sigreturn _ :: c => switchCode ts t c
  | _ :: _ => False

/-- The tasks of `ts` switch to each other; the other threads wait for a `SIG_RESUME` that is not
on its way. -/
structure Switching (ts : Slots) (m : Machine) : Prop where
  slots : m.slots = ts
  ok : SlotsOk ts
  pos : 0 ∉ tasks ts
  alive : ∀ t ∈ tasks ts, (m.thread t).alive = true
  code : ∀ t ∈ tasks ts, switchCode ts t (m.thread t).code
  others : ∀ t, t ∉ tasks ts → (m.thread t).alive = true →
    (m.thread t).code.head? = some .sigwait ∧ (m.thread t).resumePending = false

/-- The steps of tasks that switch to each other. -/
def Label.isSwitch : Label → Bool
  | .exec _ => true
  | .call _ (.schedule _ _) => true
  | .resumeArrives _ => true
  | _ => false

/-! ## The machine refines the baton -/

section Steps

variable {ts : Slots} {m m' : Machine} {t : Tid} {c rest : List Instr} {i : Instr}

section
variable (h : Switching ts m) (ht : t ∈ tasks ts)
include h ht

/-- A step that gives task thread `t` new code and a new mask. -/
theorem Switching.goOn {th : Thread}
    (hs : m'.slots = m.slots) (hth : m'.thread = update m.thread t th)
    (ha : th.alive = true) (hc : switchCode ts t th.code) :
    Switching ts m' ∧ m'.parties = update m.parties t th.party := by
  have hoth : ∀ u, u ≠ t → m'.thread u = m.thread u := fun u hu => by rw [hth, update_of_ne hu]
  refine ⟨⟨hs.trans h.slots, h.ok, h.pos, fun u hu => ?_, fun u hu => ?_, fun u hu hau => ?_⟩, ?_⟩
  · by_cases hut : u = t
    · rwa [hut, hth, update_self]
    · rw [hoth u hut]
      exact h.alive u hu
  · by_cases hut : u = t
    · rwa [hut, hth, update_self]
    · rw [hoth u hut]
      exact h.code u hu
  · have hut : u ≠ t := fun he => hu (he ▸ ht)
    rw [hoth u hut] at hau ⊢
    exact h.others u hu hau
  funext u
  unfold parties
  by_cases hut : u = t
  · rw [hut, hth, update_self, update_self]
  · rw [hoth u hut, update_of_ne hut]

theorem Switching.modify {f : Thread → Thread}
    (ha : (f (m.thread t)).alive = true) (hc : switchCode ts t (f (m.thread t)).code) :
    Switching ts (m.modify t f) ∧
      (m.modify t f).parties = update m.parties t (f (m.thread t)).party :=
  h.goOn ht rfl rfl ha hc

/-- The same for a step that does not move the baton. -/
theorem Switching.stay {th : Thread}
    (hs : m'.slots = m.slots) (hth : m'.thread = update m.thread t th)
    (ha : th.alive = true) (hc : switchCode ts t th.code) (hp : th.party = m.parties t) :
    Switching ts m' ∧ (m'.parties = m.parties ∨ Baton.Move (tasks ts) m.parties m'.parties) := by
  obtain ⟨h1, h2⟩ := h.goOn ht hs hth ha hc
  exact ⟨h1, .inl (by rw [h2, hp, update_eq_self])⟩

end

/-- The thread that the slot search for a task finds is a task's. -/
theorem findValid_tasks {new j : Nat} (hj : ts.findValid new = some j) :
    (ts.at j).thread ∈ tasks ts := by
  obtain ⟨hlt, hp, _⟩ := Slots.findIdx_some.mp hj
  simp only [Bool.and_eq_true] at hp
  exact ⟨ts.at j, Slots.at_mem hlt, hp.2, rfl⟩

/-- **One instruction of a task's thread**: it moves the baton or leaves it. -/
theorem switching_exec (h : Switching ts m) (ht : t ∈ tasks ts)
    (hc : (m.thread t).code = i :: rest) (hi : m.instr t i rest = some m') : Switching ts m' ∧
      (m'.parties = m.parties ∨ Baton.Move (tasks ts) m.parties m'.parties) := by
  have hal := h.alive t ht
  have hcode := h.code t ht
  rw [hc] at hcode
  have hpty : ∀ b, dormant rest = b → dormant (i :: rest) = b →
      (⟨dormant rest, (m.thread t).resumePending⟩ : Baton.Party) = m.parties t := by
    intro b h1 h2
    unfold parties Thread.party
    rw [hc, h1, h2]
  cases i with
  | disableIrq | enableIrq | disableTick | enableTick | enterSigwait | sigreturn =>
    cases hi
    exact h.stay ht rfl rfl hal hcode (hpty _ rfl rfl)
  | waitCreat =>
    obtain ⟨-, ⟨⟩⟩ := ite_none_left_eq_some.mp hi
    exact h.stay ht rfl rfl hal hcode (hpty _ rfl rfl)
  | lock mu =>
    obtain ⟨-, ⟨⟩⟩ := ite_none_right_eq_some.mp hi
    exact h.stay ht rfl take_goto_thread hal hcode (hpty _ rfl rfl)
  | unlock | unlockSystick =>
    cases hi
    exact h.stay ht rfl release_goto_thread hal hcode (hpty _ rfl rfl)
  | sigwait =>
    obtain ⟨hp, ⟨⟩⟩ := ite_none_right_eq_some.mp hi
    obtain ⟨h1, h2⟩ := h.modify (f := fun th => { th with code := rest, resumePending := false }) ht
      hal hcode.1
    refine ⟨h1, .inr ?_⟩
    rw [h2]
    have hpar : m.parties t = ⟨true, true⟩ := by
      unfold parties Thread.party
      rw [hc, hp]
      rfl
    simp only [Thread.party, hcode.2]
    exact .wake ht (by rw [hpar]) (by rw [hpar])
  | resumeThread u =>
    obtain ⟨hut, hu, hrest, hdorm⟩ := hcode
    simp only [instr, if_neg hut, some.injEq] at hi
    subst hi
    obtain ⟨h1, h2⟩ := h.modify (f := fun th => { th with resumePending := true }) hu
      (h.alive u hu) (h.code u hu)
    have hsame : (m.modify u fun th => { th with resumePending := true }).thread t =
        m.thread t := by
      simp only [Machine.modify, update_of_ne (Ne.symm hut)]
    obtain ⟨h3, h4⟩ := h1.modify (f := fun th => { th with code := rest }) ht (h1.alive t ht) hrest
    refine ⟨h3, .inr ?_⟩
    unfold goto
    have hawake : (m.parties t).asleep = false := by
      unfold parties Thread.party
      rw [hc]
      rfl
    rw [h4, h2, update_comm hut, hsame]
    simp only [Thread.party, hdorm]
    exact .pass ht hu (Ne.symm hut) hawake
  | scheduleNew new run inTick =>
    cases inTick with
    | true => exact absurd hcode (by simp)
    | false =>
      obtain ⟨hrun, rfl⟩ := hcode
      rcases instr_scheduleNew hi with rfl | rfl | ⟨j, hj, hself, rfl⟩
      · exact h.stay ht rfl rfl hal trivial (hpty _ rfl rfl)
      · exact ⟨{ h with }, .inl rfl⟩
      rw [h.slots] at hj hself ⊢
      refine h.stay ht rfl rfl hal ?_ ?_
      · exact ⟨hself, findValid_tasks hj, ⟨hrun, rfl⟩, rfl⟩
      · exact hpty _ rfl rfl
  | scheduleRun run =>
    obtain ⟨hrun, rfl⟩ := hcode
    obtain ⟨j, hj, hv⟩ := findTask_valid h.ok hrun
    rw [← h.slots] at hj hv
    simp only [instr, hj, hv, if_true, some.injEq] at hi
    subst hi
    refine h.stay ht rfl rfl hal ?_ ?_
    · simp [dormant]
    · unfold parties Thread.party
      rw [hc]
      rfl
  | _ => exact absurd hcode (by simp)

/-- A `SIG_RESUME` that arrives outside `sigwait` is dropped. -/
theorem resumeArrives_drops (h : Switching ts m) (hs : m.step (.resumeArrives t) = some m') :
    Switching ts m' ∧ t ∈ tasks ts ∧ (m.parties t).outstanding = true ∧
      m'.parties = update m.parties t ⟨(m.parties t).asleep, false⟩ := by
  obtain ⟨ha, hp, rfl⟩ := step_cases hs
  have ht : t ∈ tasks ts := by
    by_contra ht
    exact absurd hp (by rw [(h.others t ht ha).2]; decide)
  obtain ⟨h1, h2⟩ := h.modify (f := fun th => { th with resumePending := false }) ht ha
    (h.code t ht)
  exact ⟨h1, ht, hp, h2⟩

/-- **The machine refines the baton**: a step of switching tasks moves it, drops a `SIG_RESUME`
that arrives outside `sigwait`, or leaves it. -/
theorem switch_refines {l : Label} (h : Switching ts m) (hl : l.isSwitch = true)
    (hs : m.step l = some m') : Switching ts m' ∧
      (m'.parties = m.parties ∨ Baton.Move (tasks ts) m.parties m'.parties ∨
        ∃ t ∈ tasks ts, l = .resumeArrives t ∧ (m.parties t).outstanding = true ∧
          m'.parties = update m.parties t ⟨(m.parties t).asleep, false⟩) := by
  cases l with
  | exec t =>
    obtain ⟨i, rest, ha, hc, hi⟩ := step_cases hs
    by_cases ht : t ∈ tasks ts
    · obtain ⟨h1, h2⟩ := switching_exec h ht hc hi
      exact ⟨h1, h2.imp_right .inl⟩
    -- another thread waits in `sigwait` and has no signal to take
    obtain ⟨hw, hp⟩ := h.others t ht ha
    rw [hc, head?_cons, some.injEq] at hw
    subst hw
    simp [instr, hp] at hi
  | call t c =>
    cases c with
    | create | start => exact absurd hl (by simp [Label.isSwitch])
    | schedule new run =>
      obtain ⟨ha, hc, hown, rfl⟩ := step_cases hs
      have ht : t ∈ tasks ts := by
        by_contra ht
        have hw := (h.others t ht ha).1
        rw [hc] at hw
        exact absurd hw (by simp)
      have hrun : HasTask ts run := by
        simp only [mayCall, ownTask, h.slots, List.any_eq_true, Bool.and_eq_true,
          beq_iff_eq] at hown
        obtain ⟨s, hs, hst, hsr⟩ := hown
        refine ⟨s, hs, ?_, hsr⟩
        by_contra hv
        have hzero := h.ok.thread s hs (Bool.eq_false_iff.mpr hv)
        exact h.pos (hzero ▸ hst ▸ ht)
      obtain ⟨h1, h2⟩ := h.modify (f := fun th => { th with code := [.scheduleNew new run false] })
        ht ha ⟨hrun, rfl⟩
      refine ⟨h1, .inl ?_⟩
      have hpar : m.parties t = ⟨false, (m.thread t).resumePending⟩ := by
        unfold Machine.parties Thread.party
        rw [hc]
        rfl
      unfold goto callCode
      rw [h2]
      exact update_eq_self_iff.mpr hpar.symm
  | resumeArrives t =>
    obtain ⟨h1, ht, hp, h2⟩ := resumeArrives_drops h hs
    exact ⟨h1, .inr (.inr ⟨t, ht, rfl, hp, h2⟩)⟩
  | suspendArrives | tick => exact absurd hl (by simp [Label.isSwitch])

end Steps

/-! ## Runs -/

/-- The step is not the arrival of a `SIG_RESUME` at a thread on its way to `sigwait`. -/
def NotOnTheWay (m : Machine) (l : Label) : Prop :=
  ∀ t, l = .resumeArrives t → dormant (m.thread t).code = false

/-- Every task's thread waits in `sigwait` and no `SIG_RESUME` is outstanding. -/
def AllWaiting (ts : Slots) (m : Machine) : Prop :=
  ∀ t ∈ tasks ts, (m.thread t).code.head? = some .sigwait ∧ (m.thread t).resumePending = false

/-- The scheduler has started task thread `t0`; the threads of the other tasks wait. -/
structure Started (ts : Slots) (m : Machine) (t0 : Tid) : Prop extends Switching ts m where
  mem : t0 ∈ tasks ts
  runs : (m.thread t0).code = [] ∧ (m.thread t0).resumePending = false
  waits : ∀ t ∈ tasks ts, t ≠ t0 →
    (m.thread t).code.head? = some .sigwait ∧ (m.thread t).resumePending = false

theorem dormant_of_head {c : List Instr} (h : c.head? = some .sigwait) : dormant c = true := by
  obtain ⟨r, rfl⟩ := head?_eq_some_iff.mp h
  rfl

section Runs

variable {ts : Slots} {m m' : Machine} {t0 : Tid} {as : List Label}

theorem Started.one (h : Started ts m t0) : Baton.One (tasks ts) m.parties t0 := by
  have hawake : m.parties t0 = ⟨false, false⟩ := by
    unfold parties Thread.party
    rw [h.runs.1, h.runs.2]
    rfl
  have hasleep : ∀ t ∈ tasks ts, t ≠ t0 → m.parties t = ⟨true, false⟩ := fun t ht hne => by
    unfold parties Thread.party
    rw [dormant_of_head (h.waits t ht hne).1, (h.waits t ht hne).2]
  refine ⟨h.mem, .inl (by rw [hawake]), fun u hu hhas => ?_, fun u hu hwake => ?_⟩
  · by_contra hne
    rw [hasleep u hu hne] at hhas
    exact absurd hhas (by simp [Baton.Party.Has])
  by_cases hne : u = t0
  · rw [hne, hawake]
  · rw [hasleep u hu hne] at hwake
    exact absurd hwake (by simp)

/-- While one thread has the baton, the threads do not all wait. -/
theorem not_allWaiting (h : Baton.One (tasks ts) m.parties t0) : ¬ AllWaiting ts m := by
  intro hall
  obtain ⟨hw, hp⟩ := hall t0 h.mem
  refine absurd h.has (Baton.not_has.mpr ⟨?_, hp⟩)
  exact dormant_of_head hw

/-- Tasks switch to each other and exactly one of them has the baton. -/
def Handing (ts : Slots) (m : Machine) : Prop :=
  Switching ts m ∧ ∃ b, Baton.One (tasks ts) m.parties b

theorem handing_step {l : Label} (h : Handing ts m) (hl : l.isSwitch = true)
    (hw : NotOnTheWay m l) (hs : m.step l = some m') : Handing ts m' := by
  obtain ⟨hm, b, hb⟩ := h
  obtain ⟨hm', hmove⟩ := switch_refines hm hl hs
  refine ⟨hm', ?_⟩
  rcases hmove with hsame | hmove | ⟨t, ht, rfl, hout, _⟩
  · exact ⟨b, hsame ▸ hb⟩
  · exact hb.move hmove
  · -- a thread that is not on its way to `sigwait` is awake, and nothing is outstanding to it
    have hclean := hb.clean t ht (hw t rfl)
    exact absurd (hout.symm.trans hclean) (by decide)

/-- **No lost resume**: whatever tasks switch to each other in whatever order, as long as no
`SIG_RESUME` arrives at a thread on its way to `sigwait`, the task threads never all wait with none
outstanding. -/
theorem no_lost_resume (h : Started ts m t0) (hl : ∀ l ∈ as, l.isSwitch = true)
    (hg : Guarded step NotOnTheWay m as) (he : exec step m as = some m') :
    ¬ AllWaiting ts m' := by
  have hsw : Guarded step (fun _ l => l.isSwitch = true) m as :=
    guarded_of_forall fun l hx _ => hl l hx
  have hstep : ∀ m l m', Handing ts m → l.isSwitch = true ∧ NotOnTheWay m l →
      step m l = some m' → Handing ts m' := fun _ _ _ hi hok hs =>
    handing_step hi hok.1 hok.2 hs
  obtain ⟨_, b, hb⟩ := exec_inv_guarded hstep ⟨h.toSwitching, t0, h.one⟩ (hsw.and hg) he
  exact not_allWaiting hb

/-- **A resume that arrives too early is final**: after it every task's thread is on its way to
`sigwait` or in it with no `SIG_RESUME` outstanding, in every continuation. -/
theorem lost_resume_is_final {t : Tid} {m1 : Machine} (h : Handing ts m)
    (hs : m.step (.resumeArrives t) = some m1) (hl : ∀ l ∈ as, l.isSwitch = true)
    (he : exec step m1 as = some m') : Baton.Lost (tasks ts) m'.parties := by
  obtain ⟨hm, b, hb⟩ := h
  obtain ⟨hm1, ht, hout, hupd⟩ := resumeArrives_drops hm hs
  have hlost : Baton.Lost (tasks ts) m1.parties := hb.drop ⟨t, ht, hout, hupd⟩
  have hsw : Guarded step (fun _ l => l.isSwitch = true) m1 as :=
    guarded_of_forall fun l hx _ => hl l hx
  have hstep : ∀ m l m', (Switching ts m ∧ Baton.Lost (tasks ts) m.parties) → l.isSwitch = true →
      step m l = some m' → Switching ts m' ∧ Baton.Lost (tasks ts) m'.parties := by
    rintro m l m' ⟨hm, hlost⟩ hl hs
    obtain ⟨hm', hmove⟩ := switch_refines hm hl hs
    refine ⟨hm', ?_⟩
    rcases hmove with hsame | hmove | ⟨u, hu, _, hout, hupd⟩
    · exact hsame ▸ hlost
    · exact hlost.move (.inl hmove)
    · exact hlost.move (.inr ⟨u, hu, hout, hupd⟩)
  exact (exec_inv_guarded hstep ⟨hm1, hlost⟩ hsw he).2

end Runs

/-! ## Two tasks -/

/-- The initial thread creates tasks 0 and 1 (threads 2 and 3) and starts task 0. -/
def startTwo : List Label :=
  .call 1 (.create 0) :: execs 1 9 ++ execs 2 8 ++ execs 1 4 ++
    .call 1 (.create 1) :: execs 1 7 ++ execs 3 8 ++ execs 1 4 ++
    .call 1 (.start 0) :: execs 1 10 ++ execs 2 5

/-- The slots then. -/
def twoSlots : Slots :=
  ⟨2, true, 0, 0⟩ :: ⟨3, true, 1, 0⟩ :: replicate 14 Slot.zero

theorem tasks_twoSlots (t : Tid) : t ∈ tasks twoSlots ↔ t = 2 ∨ t = 3 := by
  constructor
  · rintro ⟨s, hs, hv, rfl⟩
    simp only [twoSlots, mem_cons, mem_replicate] at hs
    rcases hs with rfl | rfl | ⟨_, rfl⟩
    · exact .inl rfl
    · exact .inr rfl
    · exact nomatch hv
  · rintro (rfl | rfl)
    · exact ⟨_, mem_cons_self, rfl, rfl⟩
    · exact ⟨_, mem_cons_of_mem _ mem_cons_self, rfl, rfl⟩

/-- What the start of two tasks leaves. -/
theorem startTwo_view {m : Machine} (h : exec step boot startTwo = some m) :
    m.slots = twoSlots ∧ m.nextTid = 4 ∧ (m.thread 2).code = [] ∧
      (m.thread 2).resumePending = false ∧
      (m.thread 3).code = [.sigwait, .lock .singleCore, .enableIrq, .sigreturn .empty, .waitCreat] ∧
      (m.thread 3).resumePending = false ∧ (m.thread 2).alive = true ∧ (m.thread 3).alive = true ∧
      (m.thread 1).code.head? = some .sigwait ∧ (m.thread 1).resumePending = false := by
  revert m
  decide +kernel

theorem started_startTwo {m : Machine} (h : exec step boot startTwo = some m) :
    Started twoSlots m 2 := by
  obtain ⟨hsl, hnext, hc2, hp2, hc3, hp3, ha2, ha3, hc1, hp1⟩ := startTwo_view h
  have hcore : CoreInv m := coreInv_run (by decide) h
  have hmem : ∀ t ∈ tasks twoSlots, t = 2 ∨ t = 3 := fun t => (tasks_twoSlots t).mp
  refine ⟨⟨hsl, hsl ▸ hcore.slots, ?_, fun t ht => ?_, fun t ht => ?_, fun t ht ha => ?_⟩, ?_,
    ⟨hc2, hp2⟩, fun t ht hne => ?_⟩
  · rw [tasks_twoSlots]
    decide
  · rcases hmem t ht with rfl | rfl
    · exact ha2
    · exact ha3
  · rcases hmem t ht with rfl | rfl
    · rw [hc2]
      trivial
    · rw [hc3]
      simp [dormant]
  · -- threads 0 and from 4 on do not exist, so this one is the initial thread
    rw [tasks_twoSlots, not_or] at ht
    have hlt := hcore.lt_next ha
    have h0 := hcore.ne_zero ha
    rw [hnext] at hlt
    obtain rfl : t = 1 := by
      unfold Tid at *
      omega
    exact ⟨hc1, hp1⟩
  · rw [tasks_twoSlots]
    exact .inl rfl
  rcases hmem t ht with rfl | rfl
  · exact absurd rfl hne
  · rw [hc3]
    exact ⟨rfl, hp3⟩

/-- Task 0 switches to task 1, which does not switch back before task 0 waits. -/
def switchOver : List Label := .call 2 (.schedule 1 0) :: execs 2 9 ++ execs 3 5

theorem no_lost_resume_two_tasks :
    ∃ m m', Started twoSlots m 2 ∧ exec step m switchOver = some m' ∧
      ¬ AllWaiting twoSlots m' := by
  have hsome : (exec step boot (startTwo ++ switchOver)).isSome = true := by
    decide +kernel
  obtain ⟨m', he⟩ := isSome_iff_exists.mp hsome
  obtain ⟨m, hm, he⟩ := exec_append.mp he
  have hway : Guarded step NotOnTheWay m switchOver := by
    refine guarded_of_forall fun l hl _ t ht => ?_
    subst ht
    simp [switchOver, execs] at hl
  exact ⟨m, m', started_startTwo hm, he, no_lost_resume (started_startTwo hm) (by decide) hway he⟩

/-- Task 0 switches to task 1 and has released the core when task 1 runs and switches back: the
`SIG_RESUME` arrives before task 0's thread has reached `sigwait`. -/
def switchBack : List Label :=
  .call 2 (.schedule 1 0) :: execs 2 8 ++ execs 3 5 ++
    .call 3 (.schedule 0 1) :: execs 3 2 ++ [.resumeArrives 2] ++ execs 2 1 ++ execs 3 7

/-- **The resume is lost**: from the start of two tasks, both threads end up waiting in `sigwait`
with no `SIG_RESUME` outstanding. -/
theorem lost_resume :
    ∃ m m', exec step boot startTwo = some m ∧ Started twoSlots m 2 ∧
      (∀ l ∈ switchBack, l.isSwitch = true) ∧ exec step m switchBack = some m' ∧
      AllWaiting twoSlots m' := by
  obtain ⟨m', he, hv⟩ : ∃ m, exec step boot (startTwo ++ switchBack) = some m ∧
      ((m.thread 2).code.head? = some .sigwait ∧ (m.thread 2).resumePending = false) ∧
      (m.thread 3).code.head? = some .sigwait ∧ (m.thread 3).resumePending = false := by decide +kernel
  obtain ⟨m, hm, he⟩ := exec_append.mp he
  refine ⟨m, m', hm, started_startTwo hm, by decide, he, fun t ht => ?_⟩
  rcases (tasks_twoSlots t).mp ht with rfl | rfl
  · exact hv.1
  · exact hv.2

theorem lost_resume_is_final_switchBack : ∃ m, exec step boot (startTwo ++ switchBack) = some m ∧
    Baton.Lost (tasks twoSlots) m.parties := by
  obtain ⟨m', he, -⟩ : ∃ m, exec step boot (startTwo ++ switchBack) = some m ∧ True := by decide +kernel
  obtain ⟨m, hm, hback⟩ := exec_append.mp he
  have hS := started_startTwo hm
  rw [← take_append_drop 17 switchBack] at hback
  obtain ⟨m1, hm1, hrest⟩ := exec_append.mp hback
  obtain ⟨m2, hm2, hrest⟩ := exec_cons.mp hrest
  have hsw : ∀ l ∈ switchBack.take 17, l.isSwitch = true := by decide
  have hok : Guarded step (fun m l => l.isSwitch = true ∧ NotOnTheWay m l) m (switchBack.take 17) := by
    refine guarded_of_forall fun l hl _ => ⟨hsw l hl, fun t ht => ?_⟩
    subst ht
    simp [switchBack, execs] at hl
  have hH := exec_inv_guarded (fun _ _ _ h hl => handing_step h hl.1 hl.2) ⟨hS.toSwitching, 2, hS.one⟩ hok hm1
  exact ⟨m', he, lost_resume_is_final hH hm2 (by decide) hrest⟩

end LiteosM.Port
