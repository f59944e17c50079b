import LiteosM.Posix.Cond

/-!
# What a broadcast wakes

The threads that `pthread_cond_broadcast` finds between releasing the mutex and the end of their
`LOS_EventRead`, over the model of `Posix.Cond`. The event is one bit, and the first thread that polls it
clears it: of several threads between the mutex and their first poll, one finds it.

* **`broadcast_wakes_all`**: once every broadcast and every `LOS_EventWrite` behind one has run, no thread that
  had released the mutex before a broadcast is in the list of the event in the same wait. This needs that no
  thread that has been counted out finds the event taken, that none that has timed out takes another's share,
  and that `count` has not come to its largest value: the early returns of `pthread_cond_timedwait` leave their
  shares in it.

Signals and broadcasts of any threads may come between. That the threads which are woken get the mutex of the
user again is not said: `pthread_mutex_lock` is that of `Posix.Mutex`.
-/

namespace LiteosM.Posix

open LiteosM.Lib List Option

section
variable {s s1 s' : Cond} {t : Nat} {pc : CondPc}

/-- `count` can be counted up, a thread that goes to wait is in it or its event is still to be written, and what
`PthreadCountSub` takes is the thread's own share. -/
def Reaches (s : Cond) : CondLabel → Prop
  | .run t =>
    match s.pc t with
    | .enter _ => s.count < 2 ^ 31 - 1
    | .read _ => s.event = true ∨ t ∈ s.due ∨ t ∈ s.promised
    | .sub => s.count = 0 ∨ t ∈ s.due
    | _ => True
  | _ => True

variable {l : CondLabel}

theorem Reaches.pollKept (h : Reaches s l) : PollKept s l := by
  cases l with
  | run t =>
    unfold Reaches at h
    unfold PollKept
    cases hpc : s.pc t <;> simp only [hpc] at h ⊢
    exact h
  | _ => trivial

/-- The count covers the shares, and is not negative: there is more in it when a timed wait has returned early,
or a thread has found an event that was not for it. -/
def Covered (s : Cond) : Prop := s.due.length ≤ s.count ∧ s.count < 2 ^ 31

/-- A count that is not positive has no shares. -/
theorem Covered.due_eq_nil (h : Covered s) (hcount : ¬ s.Positive) : s.due = [] := by
  refine eq_nil_of_length_eq_zero ?_
  unfold Covered at h
  unfold Cond.Positive at hcount
  omega

theorem Covered.step (h : Covered s) (hok : Reaches s l) (hstep : s.step l = some s') :
    Covered s' := by
  have hnil := h.due_eq_nil
  unfold Covered at h
  obtain ⟨s1, pc, rfl, hnext⟩ := Cond.step_next hstep
  change s1.due.length ≤ s1.count ∧ s1.count < 2 ^ 31
  cases hnext with
  | quiet hsame =>
    simp only [Prod.mk.injEq] at hsame
    rwa [hsame.2.1, hsame.2.2.1]
  | enter hpc =>
    simp only [Reaches, hpc] at hok
    simp only [Cond.counted, length_append, length_singleton]
    omega
  | found | block | write => exact h
  | @sub t hpc =>
    simp only [Reaches, hpc] at hok
    simp only [Cond.countSub]
    split_ifs with hcount
    · have hpos := hcount.1
      rw [length_erase_of_mem (hok.resolve_left (by omega))]
      omega
    · rw [hnil hcount]
      exact ⟨Nat.zero_le _, h.2⟩
  | signal =>
    simp only [Cond.countOne, Cond.length_diff_share]
    omega
  | broadcast => exact ⟨Nat.zero_le _, Nat.two_pow_pos 31⟩
  | late => exact ⟨Nat.le_trans length_erase_le h.1, h.2⟩

theorem covered_init : Covered .init := ⟨Nat.le_refl 0, by decide⟩

/-! ## After the broadcast -/

/-- What a step of the thread can do to where the others are and to the shares: only a write moves others,
only the thread itself gets a share, where it enters, and only its call brings it there. -/
structure Moved (s : Cond) (t : Nat) (begins : Prop) (s1 : Cond) (pc : CondPc) : Prop where
  others : s1.pc = s.pc ∨ s1.pc = s.eventWrite.pc
  due : ∀ u ∈ s1.due, u ∈ s.due ∨ u = t ∧ ∃ ts, s.pc t = .enter ts
  enter : ∀ ts, pc = .enter ts → begins

theorem Cond.step_moved (hstep : s.step l = some s') :
    ∃ s1 pc, s' = s1.goto l.thread pc ∧ Moved s l.thread (l.Begins l.thread) s1 pc := by
  obtain ⟨s1, pc, rfl, hnext⟩ := Cond.step_next hstep
  refine ⟨s1, pc, rfl, ?_⟩
  cases hnext with
  | quiet hsame _ _ _ henter =>
    simp only [Prod.mk.injEq] at hsame
    exact ⟨.inl hsame.1, fun u hu => .inl (hsame.2.2.1 ▸ hu), henter⟩
  | enter hpc hnew =>
    refine ⟨.inl rfl, fun u hu => ?_, by rcases hnew with rfl | ⟨_, rfl⟩ <;> simp⟩
    simp only [Cond.counted, mem_append, mem_singleton] at hu
    exact hu.imp_right fun hut => ⟨hut, _, hpc⟩
  | found | block => exact ⟨.inl rfl, fun u hu => .inl hu, by simp⟩
  | sub | late => exact ⟨.inl rfl, fun u hu => .inl (mem_of_mem_erase hu), by simp⟩
  | signal => exact ⟨.inl rfl, fun u hu => .inl (diff_subset _ _ hu), by simp⟩
  | broadcast => exact ⟨.inl rfl, fun u hu => absurd hu not_mem_nil, by simp⟩
  | write => exact ⟨.inr rfl, fun u hu => .inl hu, by simp⟩

/-- Another thread is where it was, unless it was in the list. -/
theorem Moved.pc_of_ne {u : Nat} {begins : Prop} (h : Moved s t begins s1 pc) (hne : u ≠ t)
    (hb : ¬ s.Blocked u) : (s1.goto t pc).pc u = s.pc u := by
  rw [Cond.goto_pc_of_ne _ _ hne]
  rcases h.others with heq | heq
  · rw [heq]
  rw [heq]
  simp only [Cond.eventWrite]
  split
  · next timed hblocked => exact absurd ⟨timed, hblocked⟩ hb
  · rfl

/-- No step but its call brings a thread to the entry of a wait. -/
theorem enter_of_step {u : Nat} {ts : Option Timespec} (hstep : s.step l = some s')
    (hbegin : ¬ l.Begins u) (henter : s'.pc u = .enter ts) : s.pc u = .enter ts := by
  obtain ⟨s1, pc, rfl, hmoved⟩ := Cond.step_moved hstep
  by_cases hu : u = l.thread
  · rw [hu, Cond.goto_pc_self] at henter
    rw [hu] at hbegin
    exact absurd (hmoved.enter ts henter) hbegin
  by_cases hb : s.Blocked u
  · obtain ⟨timed, hb⟩ := hb
    rw [Cond.goto_pc_of_ne _ _ hu] at henter
    rcases hmoved.others with heq | heq
    · simp [heq, hb] at henter
    · simp [heq, hb] at henter
  · rwa [hmoved.pc_of_ne hu hb] at henter

/-- A thread gets a share only where it enters. -/
theorem due_of_step {u : Nat} (hstep : s.step l = some s') (hdue : u ∈ s'.due) :
    u ∈ s.due ∨ ∃ ts, s.pc u = .enter ts := by
  obtain ⟨s1, pc, rfl, hmoved⟩ := Cond.step_moved hstep
  rcases hmoved.due u hdue with h | ⟨rfl, henter⟩
  · exact .inl h
  · exact .inr henter

/-- A thread before the section of its broadcast makes no other step than that. -/
theorem thread_ne_of_broadcast {b : Nat} (hb : s.pc b = .broadcast) (hl : l ≠ .run b)
    (hstep : s.step l = some s') : b ≠ l.thread := by
  intro hc
  obtain ⟨-, hstep⟩ := ite_none_right_eq_some.mp hstep
  cases l with
  | run u => exact hl (hc ▸ rfl)
  | _ =>
    subst hc
    simp [Cond.move, Cond.takeTime, hb] at hstep

/-- While the broadcast of `b` is before its section, or behind it: thread `t` has no share, and gets none
before its next wait. -/
structure Told (b t : Nat) (s : Cond) : Prop where
  covered : Covered s
  enter : ∀ ts, s.pc t ≠ .enter ts
  told : s.pc b = .broadcast ∨ t ∉ s.due

theorem Told.step {b : Nat} (h : Told b t s) (hok : Reaches s l) (hbegin : ¬ l.Begins t)
    (hstep : s.step l = some s') : Told b t s' := by
  refine ⟨Covered.step h.covered hok hstep, fun ts hts => h.enter ts (enter_of_step hstep hbegin hts), ?_⟩
  rcases h.told with hb | hnot
  · by_cases hl : l = .run b
    · -- the section: there is a count to set back, or no share
      right
      rw [hl] at hstep
      obtain ⟨-, hstep⟩ := ite_none_right_eq_some.mp hstep
      simp only [Cond.move, Cond.run, hb] at hstep
      split_ifs at hstep with hcount
      · cases hstep
        exact not_mem_nil
      cases hstep
      change t ∉ s.due
      rw [h.covered.due_eq_nil hcount]
      exact not_mem_nil
    left
    have hother := thread_ne_of_broadcast hb hl hstep
    obtain ⟨s1, pc, rfl, hmoved⟩ := Cond.step_moved hstep
    rw [hmoved.pc_of_ne hother (by rintro ⟨timed, hc⟩; rw [hb] at hc; cases hc), hb]
  · exact .inr fun ht => hnot ((due_of_step hstep ht).resolve_right fun hen => hen.elim h.enter)

end

/-- The thread has released the mutex and is in `LOS_EventRead` or before it. -/
def Cond.Released (s : Cond) (t : Nat) : Prop := (∃ timed, s.pc t = .read timed) ∨ s.Blocked t

/-- No thread is before the section of a broadcast or before a `LOS_EventWrite`. -/
def Cond.Written (s : Cond) : Prop := ∀ u, s.pc u ≠ .broadcast ∧ s.pc u ≠ .write

/-- In every run in which `count` can be counted up, no thread that has been counted out finds the event taken,
and what `PthreadCountSub` takes is the thread's own share: a thread that had released the mutex before the
broadcast is not in the list of the event any more once the threads that broadcast or write the event have
run, unless it has begun another wait. -/
theorem broadcast_wakes_all (before after : List CondLabel) (b t : Nat) (s0 s : Cond)
    (hok : Guarded Cond.step Reaches .init (before ++ .broadcast b :: after))
    (hbefore : exec Cond.step .init before = some s0) (hreleased : s0.Released t)
    (hafter : exec Cond.step s0 (.broadcast b :: after) = some s) (hsame : ∀ l ∈ after, ¬ l.Begins t)
    (hwritten : s.Written) : ¬ s.Blocked t := by
  obtain ⟨hok0, hok1⟩ := hok.append hbefore
  have hcovered : Covered s0 := exec_inv_guarded (fun _ _ _ h hok hstep => Covered.step h hok hstep)
    covered_init hok0 hbefore
  have hp : Promises s := exec_inv_guarded
    (fun _ _ _ h hok hstep => Promises.step h (Reaches.pollKept hok) hstep)
    promises_init hok (exec_append.mpr ⟨s0, hbefore, hafter⟩)
  -- the call
  obtain ⟨s1, hcall, hafter⟩ := exec_cons.mp hafter
  have hok2 : Guarded Cond.step (fun s l => Reaches s l ∧ ¬ l.Begins t) s1 after :=
    (hok1.2 s1 hcall).and (guarded_of_forall fun l hl _ => hsame l hl)
  have hcall' : s0.goto b .broadcast = s1 := by
    simp only [Cond.step, Cond.move, ite_none_right_eq_some, some.injEq] at hcall
    exact hcall.2.2
  have htold : Told b t s1 := by
    refine ⟨Covered.step hcovered hok1.1 hcall, ?_, .inl (by rw [← hcall', Cond.goto_pc_self])⟩
    intro ts hts
    have henter := enter_of_step hcall id hts
    rcases hreleased with ⟨timed, hr⟩ | ⟨timed, hr⟩ <;> rw [hr] at henter <;> cases henter
  -- the event is written
  have hs : Told b t s := exec_inv_guarded (fun _ _ _ h hok hstep => Told.step h hok.1 hok.2 hstep)
    htold hok2 hafter
  rintro ⟨timed, hb⟩
  have hnotdue : t ∉ s.due := hs.told.resolve_left (hwritten b).1
  rcases hp.blocked t timed hb with hdue | hprom
  · exact hnotdue hdue
  · obtain ⟨u, hu⟩ := hp.pending (ne_nil_of_mem hprom)
    exact (hwritten u).2 hu

instance decidableReaches (s : Cond) (l : CondLabel) : Decidable (Reaches s l) := by
  apply CondLabel.casesOn (motive := fun l => Decidable (Reaches s l)) l
  case run =>
    intro t
    apply CondPc.casesOn (motive := fun pc => Decidable (match pc with
      | .enter _ => s.count < 2 ^ 31 - 1
      | .read _ => s.event = true ∨ t ∈ s.due ∨ t ∈ s.promised
      | .sub => s.count = 0 ∨ t ∈ s.due
      | _ => True)) (s.pc t) <;> intros <;> dsimp only <;> infer_instance
  all_goals
    intros
    exact .isTrue trivial

/-- Two threads wait. -/
def twoWait : List CondLabel := [.wait 1 none, .run 1, .run 1, .run 1, .wait 2 none, .run 2, .run 2, .run 2]

/-- The broadcast of thread 3 writes the event, and both return. -/
def bothReturn : List CondLabel := [.run 3, .run 3, .run 1, .run 1, .unlock 1, .run 2, .run 2, .unlock 2]

theorem broadcast_wakes_all_twoWait :
    ∃ s0 s, exec Cond.step .init twoWait = some s0 ∧ s0.Blocked 1 ∧ s0.Blocked 2 ∧
      exec Cond.step s0 (.broadcast 3 :: bothReturn) = some s ∧ ¬ s.Blocked 1 ∧ ¬ s.Blocked 2 := by
  obtain ⟨s0, h0⟩ : ∃ s0, exec Cond.step .init twoWait = some s0 := ⟨_, rfl⟩
  obtain ⟨s, hs⟩ : ∃ s, exec Cond.step .init (twoWait ++ .broadcast 3 :: bothReturn) = some s := ⟨_, rfl⟩
  have hblocked : s0.Blocked 1 ∧ s0.Blocked 2 := by
    rw [← some.inj h0]
    exact ⟨⟨false, rfl⟩, ⟨false, rfl⟩⟩
  have hwritten : s.Written := by
    intro t
    have hout : s.pc t = .out := by
      cases hs
      by_cases h1 : t = 1
      · rw [h1]
        rfl
      by_cases h2 : t = 2
      · rw [h2]
        rfl
      by_cases h3 : t = 3
      · rw [h3]
        rfl
      · simp [Cond.init, h1, h2, h3]
    simp [hout]
  have hafter : exec Cond.step s0 (.broadcast 3 :: bothReturn) = some s := by
    obtain ⟨u, hu, hrest⟩ := exec_append.mp hs
    rw [h0, some.injEq] at hu
    rwa [hu]
  have hsame : ∀ t, ∀ l ∈ bothReturn, ¬ l.Begins t := by
    intro t l hl
    simp only [bothReturn, mem_cons, not_mem_nil, or_false] at hl
    rcases hl with rfl | rfl | rfl | rfl | rfl | rfl | rfl | rfl <;> exact id
  refine ⟨s0, s, h0, hblocked.1, hblocked.2, hafter, ?_, ?_⟩
  · exact broadcast_wakes_all twoWait bothReturn 3 1 s0 s (by decide +kernel) h0
      (.inr hblocked.1) hafter (hsame 1) hwritten
  · exact broadcast_wakes_all twoWait bothReturn 3 2 s0 s (by decide +kernel) h0
      (.inr hblocked.2) hafter (hsame 2) hwritten

/-- Two threads have released the mutex and have not polled when the broadcast writes the event: one takes it,
and the other one waits. -/
theorem broadcast_wakes_one :
    (exec Cond.step .init [.wait 1 none, .run 1, .run 1, .wait 2 none, .run 2, .run 2]).any
        (fun s => decide (s.pc 1 = .read false ∧ s.pc 2 = .read false)) = true ∧
      (exec Cond.step .init ([.wait 1 none, .run 1, .run 1, .wait 2 none, .run 2, .run 2] ++
          [.broadcast 3, .run 3, .run 3, .run 1, .run 1, .unlock 1, .run 2])).any
        (fun s => decide (s.pc 1 = .out ∧ s.pc 2 = .blocked false ∧ s.pc 3 = .out)) = true := by
  decide +kernel

end LiteosM.Posix
