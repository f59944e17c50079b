import LiteosM.Port.Machine

/-!
# The tick lock

Who releases `systick_mutex`. It is taken by `PMCU_BE_Task_Create` and, with `trylock`, by
`Systick_Signal_Handler`, and it is released at the end of both and also in `Pthread_Schedule`,
which does not ask whether its caller holds it. Runs are those of the whole machine: ticks at any
thread that does not block them, with or without a switch in the handler, switches from task code,
and creations.

* **`systick_unlocked_by_holder_iff`**: in a run every release is made by the holder iff no step of
  it is a release by a switch from task code, or by the end of a handler that was switched out;
* `late_release`: a run in which a handler that was switched out releases, at its end, the lock
  that another thread has taken in `PMCU_BE_Task_Create`.
-/

namespace LiteosM.Port

open LiteosM.Lib Function Option Bool Machine

/-! ## The two conditions on a step -/

/-- The step is a release of `systick_mutex` at `site`, by thread `t`. -/
def Releases (m : Machine) (l : Label) (t : Tid) (site : UnlockSite) : Prop :=
  l = .exec t ∧ (m.thread t).alive = true ∧ ∃ rest, (m.thread t).code = .unlockSystick site :: rest

/-- A release is made by the thread that holds the lock. -/
def ReleasedByHolder (m : Machine) (l : Label) : Prop :=
  ∀ t site, Releases m l t site → m.owner .systick = some t

/-- The places whose thread took the lock itself and has not released it since. -/
def UnlockSite.paired : UnlockSite → Bool
  | .create => true
  | .scheduleHandler => true
  | .handlerEnd => true
  | .scheduleTask => false
  | .handlerEndSwitched => false

/-- A release is neither that of a switch from task code nor that at the end of a handler which a
switch has already released. -/
def ReleasedInPair (m : Machine) (l : Label) : Prop :=
  ∀ t site, Releases m l t site → site.paired = true

/-! ## The discipline -/

/-- The code takes and releases the lock in turn when entered with (`h`) or without it, up to its
unpaired releases, which it reaches without the lock. The slot search of `PMCU_BE_Task_Create` ends
in a release, and a switch in the tick handler is followed by the handler's own. -/
@[simp] def tickDisc : Bool → List Instr → Bool
  | h, [] => !h
  | h, .lock .systick :: c => !h && tickDisc true c
  | _, .unlock .systick :: _ => false
  | h, .unlockSystick site :: c => (h == site.paired) && tickDisc false c
  | h, .createSetup _ :: c => h && tickDisc false c
  | h, .createSlot _ :: c => h && tickDisc false c
  | h, .scheduleNew _ _ true :: .unlockSystick .handlerEnd :: c => h && tickDisc false c
  | _, .scheduleNew _ _ true :: _ => false
  | h, .scheduleNew _ _ false :: c => !h && tickDisc h c
  | _, .exitThread :: _ => true
  | _, .teardown :: _ => true
  | h, _ :: c => tickDisc h c

/-- The thread holds the lock. -/
def Machine.holdsTick (m : Machine) (t : Tid) : Bool := m.owner .systick == some t

/-- Every thread's remaining code keeps the discipline. -/
structure TickInv (m : Machine) : Prop where
  typed : ∀ t, (m.thread t).alive = true → tickDisc (m.holdsTick t) (m.thread t).code = true
  fresh : ∀ t, m.nextTid ≤ t → (m.thread t).alive = false ∧ m.holdsTick t = false

theorem tickInv_boot : TickInv boot := by
  have hth : ∀ t, boot.thread t =
      if t = initThread then { Thread.absent with alive := true } else Thread.absent := fun t => by
    simp only [boot, update_apply]
  refine ⟨fun t _ => ?_, fun t ht => ⟨?_, rfl⟩⟩
  · rw [hth]
    split_ifs <;> rfl
  have hne : t ≠ initThread := by
    rintro rfl
    exact nomatch ht
  rw [hth, if_neg hne]
  rfl

/-- **Where the discipline is kept, a release is made by the holder iff it is paired.** -/
theorem released_iff {m : Machine} (h : TickInv m) (l : Label) :
    ReleasedByHolder m l ↔ ReleasedInPair m l := by
  have hkey : ∀ t site, Releases m l t site → (m.owner .systick = some t ↔ site.paired = true) := by
    rintro t site ⟨_, ha, rest, hc⟩
    have hty := h.typed t ha
    rw [hc] at hty
    simp only [tickDisc, and_eq_true, beq_iff_eq] at hty
    rw [← hty.1]
    simp [holdsTick]
  exact ⟨fun hr t site hs => (hkey t site hs).mp (hr t site hs),
    fun hr t site hs => (hkey t site hs).mpr (hr t site hs)⟩

/-! ## Steps -/

section Steps

variable {m m' : Machine} {t : Tid} {c rest : List Instr} {i : Instr}

section
variable (h : TickInv m)
include h

section
variable (ha : (m.thread t).alive = true)
include ha

theorem TickInv.lt_next : t < m.nextTid := by
  by_contra hge
  exact absurd ha (by rw [(h.fresh t (Nat.le_of_not_lt hge)).1]; decide)

section
variable (hn : m'.nextTid = m.nextTid)
include hn

/-- A step of `t` that takes the lock from no other thread. -/
theorem TickInv.frame (hu : ∀ u, u ≠ t → (m'.thread u).alive = true →
      (m.thread u).alive = true ∧ (m'.thread u).code = (m.thread u).code)
    (ho : ∀ u, u ≠ t → m'.holdsTick u = m.holdsTick u)
    (ht : (m'.thread t).alive = true → tickDisc (m'.holdsTick t) (m'.thread t).code = true) :
    TickInv m' := by
  refine ⟨fun u hau => ?_, fun u hle => ?_⟩
  · by_cases hut : u = t
    · subst hut
      exact ht hau
    · obtain ⟨hal, hc⟩ := hu u hut hau
      rw [ho u hut, hc]
      exact h.typed u hal
  rw [hn] at hle
  have hut : u ≠ t := Nat.ne_of_gt (Nat.lt_of_lt_of_le (h.lt_next ha) hle)
  obtain ⟨hal, hno⟩ := h.fresh u hle
  refine ⟨?_, (ho u hut).trans hno⟩
  rw [← not_eq_true]
  intro hau
  rw [(hu u hut hau).1] at hal
  exact nomatch hal

/-- A step of `t` that gives it new code. It holds the lock afterwards iff `v`. -/
theorem TickInv.goto {th : Thread} {v : Bool} (hth : m'.thread = update m.thread t th)
    (ho : ∀ u, u ≠ t → m'.holdsTick u = m.holdsTick u) (hv : m'.holdsTick t = v)
    (hd : th.alive = true → tickDisc v th.code = true) : TickInv m' := by
  refine h.frame ha hn (fun u hu hau => ?_) ho fun hal => ?_
  · rw [hth, update_of_ne hu] at hau ⊢
    exact ⟨hau, rfl⟩
  · rw [hth, update_self] at hal ⊢
    rw [hv]
    exact hd hal

end

/-- The same for a step that leaves the lock alone. -/
theorem TickInv.goOn {th : Thread} (hth : m'.thread = update m.thread t th)
    (hd : tickDisc (m.holdsTick t) th.code = true) (hn : m'.nextTid = m.nextTid := by rfl)
    (ho : m'.owner .systick = m.owner .systick := by rfl) : TickInv m' := by
  have hhold : ∀ u, m'.holdsTick u = m.holdsTick u := fun u => by
    unfold holdsTick
    rw [ho]
  exact h.goto ha hn hth (fun u _ => hhold u) (hhold t) fun _ => hd

/-- Taking the lock when it is free. -/
theorem TickInv.take (hfree : m.owner .systick = none) (hd : tickDisc true c = true) :
    TickInv ((m.take t .systick).goto t c) := by
  refine h.goto ha rfl take_goto_thread (fun u hu => ?_) ?_ fun _ => hd
  · simp [holdsTick, hfree, Ne.symm hu]
  · simp [holdsTick]

/-- Releasing the lock as its holder. -/
theorem TickInv.release (hown : m.owner .systick = some t) (hd : tickDisc false c = true) :
    TickInv ((m.release t .systick).goto t c) := by
  refine h.goto ha rfl release_goto_thread (fun u hu => ?_) ?_ fun _ => hd
  · simp [holdsTick, hown, Ne.symm hu]
  · simp [holdsTick]

end

/-- A thread ends. -/
theorem TickInv.die : TickInv (m.modify t fun th => { th with code := [], alive := false }) := by
  refine ⟨fun u hau => ?_, fun u hle => ?_⟩ <;> by_cases hut : u = t
  · subst hut
    simp at hau
  · simp only [Machine.modify, update_of_ne hut] at hau ⊢
    exact h.typed u hau
  · subst hut
    exact ⟨by simp, (h.fresh u hle).2⟩
  · simp only [Machine.modify, update_of_ne hut]
    exact h.fresh u hle

/-- `SIG_RESUME` is sent to a thread or arrives at it. -/
theorem TickInv.resume {p : Bool} :
    TickInv (m.modify t fun th => { th with resumePending := p }) := by
  have hsame : ∀ u, ((m.modify t fun th => { th with resumePending := p }).thread u).alive =
      (m.thread u).alive ∧ ((m.modify t fun th => { th with resumePending := p }).thread u).code =
        (m.thread u).code := fun u => by
    by_cases hut : u = t
    · subst hut
      simp
    · simp [hut]
  refine ⟨fun u hau => ?_, fun u hle => ?_⟩
  · rw [(hsame u).1] at hau
    rw [(hsame u).2]
    exact h.typed u hau
  · rw [(hsame u).1]
    exact h.fresh u hle

/-- A new thread holds nothing. -/
theorem TickInv.spawn (mk : Mask) :
    TickInv { m with
      thread := update m.thread m.nextTid
        { Thread.absent with code := threadWrapper, mask := mk, alive := true }
      nextTid := m.nextTid + 1 } := by
  refine ⟨fun u ha => ?_, fun u hu => ?_⟩ <;> simp only at *
  · by_cases hut : u = m.nextTid
    · subst hut
      have hno : m.holdsTick m.nextTid = false := (h.fresh _ (Nat.le_refl _)).2
      simp only [update_self]
      change tickDisc (m.holdsTick m.nextTid) threadWrapper = true
      rw [hno]
      decide
    · rw [update_of_ne hut] at ha ⊢
      exact h.typed u ha
  · rw [update_of_ne (Nat.ne_of_gt hu)]
    exact h.fresh u (Nat.le_of_lt hu)

end

/-- A switch in the tick handler is followed by the release at the handler's end. -/
theorem tickDisc_scheduleNew_true {hold : Bool} {new run : Nat}
    (hd : tickDisc hold (.scheduleNew new run true :: rest) = true) :
    ∃ c, rest = .unlockSystick .handlerEnd :: c ∧ hold = true ∧ tickDisc false c = true := by
  cases rest with
  | nil => simp at hd
  | cons j c =>
    cases j with
    | unlockSystick site =>
      cases site with
      | handlerEnd =>
        simp only [tickDisc, and_eq_true] at hd
        exact ⟨c, rfl, hd⟩
      | _ => simp at hd
    | _ => simp at hd

/-- What `Pthread_Schedule` leaves to do, whether it returns early or goes past its first search. -/
theorem tickDisc_scheduleNew {hold inTick : Bool} {new run : Nat}
    (hd : tickDisc hold (.scheduleNew new run inTick :: rest) = true) :
    tickDisc hold rest = true ∧ ∀ u, tickDisc hold (scheduleTail u run inTick ++
      (if inTick then markSwitched rest else rest)) = true := by
  cases inTick with
  | false =>
    simp only [tickDisc, and_eq_true, not_eq_true'] at hd
    obtain ⟨rfl, hd⟩ := hd
    exact ⟨hd, fun _ => hd⟩
  | true =>
    obtain ⟨c, rfl, rfl, hd⟩ := tickDisc_scheduleNew_true hd
    exact ⟨hd, fun _ => hd⟩

/-- **One instruction keeps the discipline**, unless it is an unpaired release. -/
theorem tickInv_exec (h : TickInv m) (ha : (m.thread t).alive = true)
    (hc : (m.thread t).code = i :: rest) (hok : ReleasedInPair m (.exec t))
    (hi : m.instr t i rest = some m') : TickInv m' := by
  have hd := h.typed t ha
  rw [hc] at hd
  cases i with
  | disableIrq | enableIrq | disableTick | enableTick | setCreat | setupTicker | enterSigwait
  | sigreturn | setupSlots =>
    cases hi
    exact h.goOn ha rfl hd
  | waitCreat | sigwait | killSuspend =>
    simp only [instr] at hi
    split_ifs at hi <;> cases hi <;> exact h.goOn ha rfl hd
  | lock mu =>
    obtain ⟨hfree, ⟨⟩⟩ := ite_none_right_eq_some.mp hi
    cases mu with
    | systick =>
      simp only [tickDisc, and_eq_true] at hd
      exact h.take ha hfree hd.2
    | scheduler | singleCore => exact h.goOn ha take_goto_thread hd
  | unlock mu =>
    cases hi
    cases mu with
    | systick => exact absurd hd (by simp)
    | scheduler | singleCore => exact h.goOn ha release_goto_thread hd
  | unlockSystick site =>
    have hpair : site.paired = true := hok t site ⟨rfl, ha, rest, hc⟩
    simp only [tickDisc, and_eq_true, hpair] at hd
    cases hi
    exact h.release ha (by simpa [holdsTick] using hd.1) hd.2
  | resumeThread u =>
    simp only [instr] at hi
    split_ifs at hi with hut <;> cases hi
    · exact h.goOn ha rfl hd
    have hsame : (m.modify u fun th => { th with resumePending := true }).thread t =
        m.thread t := by
      simp only [Machine.modify, update_of_ne (Ne.symm hut)]
    exact h.resume.goOn (by rwa [hsame]) rfl hd
  | createSetup id =>
    simp only [tickDisc] at hd
    cases hi
    refine h.goOn ha rfl ?_
    split_ifs <;> simp [hd]
  | createSlot id =>
    simp only [tickDisc] at hd
    simp only [instr] at hi
    split at hi <;> cases hi
    · exact ⟨h.typed, h.fresh⟩
    · refine h.goOn ha rfl ?_
      simp [createTail, hd, UnlockSite.paired]
  | createThread j =>
    cases hi
    have h1 : TickInv (m.goto t rest) := h.goOn ha rfl hd
    have h2 := h1.spawn (m.thread t).mask
    exact ⟨h2.typed, h2.fresh⟩
  | startSearch id =>
    simp only [instr] at hi
    split at hi <;> cases hi <;> exact h.goOn ha rfl rfl
  | teardown | exitThread =>
    cases hi
    exact h.die
  | scheduleNew new run inTick =>
    obtain ⟨hret, hgo⟩ := tickDisc_scheduleNew hd
    rcases instr_scheduleNew hi with rfl | rfl | ⟨j, -, -, rfl⟩
    · exact h.goOn ha rfl hret
    · exact ⟨h.typed, h.fresh⟩
    · exact h.goOn ha rfl (hgo _)
  | scheduleRun run =>
    simp only [instr] at hi
    split at hi
    · cases hi
      exact h.goOn ha rfl hd
    split_ifs at hi <;> cases hi
    · exact h.goOn ha rfl hd
    · exact h.goOn ha rfl rfl
    · exact h.goOn ha rfl hd
  | cancelThread u =>
    cases hi
    have h1 : TickInv (m.goto t rest) := h.goOn ha rfl hd
    exact h1.die
  | tickCheck sw =>
    cases hi
    refine h.goOn ha rfl ?_
    split_ifs <;> exact hd
  | tickTrylock sw =>
    simp only [instr] at hi
    split_ifs at hi with hfree <;> cases hi
    · have hno : m.holdsTick t = false := by simp [holdsTick, hfree]
      rw [hno] at hd
      refine h.take ha hfree ?_
      cases sw <;> exact hd
    · exact h.goOn ha rfl hd

/-- **Every step without an unpaired release keeps the discipline.** -/
theorem tickInv_step {l : Label} (h : TickInv m) (hok : ReleasedInPair m l)
    (hs : m.step l = some m') : TickInv m' := by
  cases l with
  | exec t =>
    obtain ⟨i, rest, ha, hc, hi⟩ := step_cases hs
    exact tickInv_exec h ha hc hok hi
  | call t c =>
    obtain ⟨ha, hc, -, rfl⟩ := step_cases hs
    have hd := h.typed t ha
    rw [hc] at hd
    simp only [tickDisc, not_eq_true'] at hd
    refine h.goOn ha rfl ?_
    rw [hd]
    cases c <;> rfl
  | resumeArrives t =>
    obtain ⟨-, -, rfl⟩ := step_cases hs
    exact h.resume
  | suspendArrives t =>
    obtain ⟨ha, -, rfl⟩ := step_cases hs
    have hth : ((m.modify t fun th => { th with suspendPending := false }).handle t
        suspendSignalHandler (m.thread t).code).thread = update m.thread t
          { m.thread t with
            code := suspendSignalHandler ++ .sigreturn (m.thread t).mask :: (m.thread t).code
            mask := .full
            suspendPending := false } := by
      simp only [handle, Machine.modify, update_self, update_idem]
    exact h.goOn ha hth (h.typed t ha)
  | tick t sw =>
    obtain ⟨ha, rfl⟩ := step_cases hs
    exact h.goOn ha rfl (h.typed t ha)

end Steps

/-! ## The tick lock -/

/-- **The holder releases `systick_mutex` at every release of a run iff every release of the run is
paired.** -/
theorem systick_unlocked_by_holder_iff (as : List Label) :
    Guarded step ReleasedByHolder boot as ↔
      Guarded step ReleasedInPair boot as :=
  guarded_congr (fun _ l h => released_iff h l) (fun _ _ _ h hok hs => tickInv_step h hok hs)
    tickInv_boot

/-- Three tasks (threads 2, 3, 4). Task 0 is switched out inside its tick handler. Task 1 switches
back to it from task code, and a tick arrives between its `ResumeThread` and its suspension, in
which the kernel switches from task 0, by then its running task, to task 2. Task 2 creates a task
and waits for the new thread; task 0's thread, resumed before, takes the core. -/
def lateRelease : List Label :=
  .call 1 (.create 0) :: execs 1 9 ++ execs 2 8 ++ execs 1 4 ++
    .call 1 (.create 1) :: execs 1 7 ++ execs 3 8 ++ execs 1 4 ++
    .call 1 (.create 2) :: execs 1 7 ++ execs 4 8 ++ execs 1 4 ++
    .call 1 (.start 0) :: execs 1 10 ++ execs 2 5 ++
    .tick 2 (some (1, 0)) :: execs 2 12 ++ execs 3 5 ++
    .call 3 (.schedule 0 1) :: execs 3 2 ++
    .tick 3 (some (2, 0)) :: execs 3 12 ++ execs 4 5 ++
    .call 4 (.create 3) :: execs 4 7 ++ execs 2 4

/-- At the end of that run the switched-out handler's thread 2 is about to release the lock that
thread 4 holds in `PMCU_BE_Task_Create`, so with its next step the run is no longer one in which
every release is made by the holder. -/
theorem late_release : (∃ m, exec step boot lateRelease = some m ∧
      Releases m (.exec 2) 2 .handlerEndSwitched ∧ m.owner .systick = some 4) ∧
    ¬ Guarded step ReleasedByHolder boot (lateRelease ++ [.exec 2]) := by
  obtain ⟨m, hm, halive, hcode, howner⟩ : ∃ m, exec step boot lateRelease = some m ∧
      (m.thread 2).alive = true ∧ (m.thread 2).code.head? = some (.unlockSystick .handlerEndSwitched) ∧
      m.owner .systick = some 4 := by decide +kernel
  have hrel : Releases m (.exec 2) 2 .handlerEndSwitched := ⟨rfl, halive, List.head?_eq_some_iff.mp hcode⟩
  refine ⟨⟨m, hm, hrel, howner⟩, fun hg => ?_⟩
  have hholder := (hg.append hm).2.1 2 .handlerEndSwitched hrel
  rw [howner] at hholder
  exact absurd hholder (by decide)

end LiteosM.Port
