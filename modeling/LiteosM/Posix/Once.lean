import LiteosM.Lib.Run

/-!
# `pthread_once`

`pthread.c`: calls of any number of threads on one control word, each cut where another thread can come in.
The word is read and set with interrupts locked; the routine runs after that with interrupts open.

* **`once_completes`**: the routine is called once at most in every run, and no call returns 0 before its
  end in every run in which no call reads the word while the routine is still to be finished;
* `once_returns_early`: the run of a call that does.

Premise: the word is `PTHREAD_ONCE_INIT` at first, and written by `pthread_once` only. Out of scope: a
routine that does not come back, or calls `pthread_once` on its own word.
-/

namespace LiteosM.Posix

open LiteosM.Lib Function

/-- Where a thread is in `pthread_once`. -/
inductive OncePc
  | idle
  | entered
  /-- After the critical section, with `old`. -/
  | took (old : Int)
  | inRoutine
  deriving DecidableEq, Repr

/-- A control word, and where each thread is. -/
structure Once where
  onceControl : Int
  pc : Nat → OncePc
  /-- How often the routine was called and came back, and how many calls returned 0. -/
  started : Nat
  finished : Nat
  returned : Nat

/-- The sections of `pthread_once`. -/
inductive OnceLabel
  /-- A call, with what `IsPthread` says of the thread and whether an argument is NULL. -/
  | call (t : Nat) (isPthread null : Bool)
  | exchange (t : Nat)
  | test (t : Nat)
  | routineEnds (t : Nat)
  deriving DecidableEq, Repr

namespace Once

/-- `PTHREAD_ONCE_INIT`. -/
def init : Once := ⟨0, fun _ => .idle, 0, 0, 0⟩

variable (s : Once)

/-- Thread `t` goes to `pc`. -/
def goto (t : Nat) (pc : OncePc) : Once := { s with pc := update s.pc t pc }

/-- One section. -/
def step : OnceLabel → Option Once
  -- `EINVAL` for a task that is no thread and for NULL
  | .call t isPthread null =>
    if s.pc t = .idle then some (if isPthread && !null then s.goto t .entered else s) else none
  | .exchange t => if s.pc t = .entered then some { s.goto t (.took s.onceControl) with onceControl := 1 } else none
  | .test t =>
    match s.pc t with
    | .took old =>
      if old = 0 then some { s.goto t .inRoutine with started := s.started + 1 }
      else some { s.goto t .idle with returned := s.returned + 1 }
    | _ => none
  | .routineEnds t =>
    if s.pc t = .inRoutine then
      some { s.goto t .idle with finished := s.finished + 1, returned := s.returned + 1 }
    else none

/-- A call reads the control word before it is set, or when the routine has come back. -/
def Timely : OnceLabel → Prop
  | .exchange _ => s.onceControl = 0 ∨ 0 < s.finished
  | _ => True

instance decidableTimely : (l : OnceLabel) → Decidable (s.Timely l)
  | .exchange _ => inferInstanceAs (Decidable (_ ∨ _))
  | .call .. | .test _ | .routineEnds _ => .isTrue trivial

end Once

/-- What a thread can say of the routine; `first` is whether it is the thread that found the control word 0, and
`timely` whether all steps were. -/
def Once.Sees (s : Once) (timely first : Prop) : OncePc → Prop
  | .took old => old = 0 ∧ first ∧ s.onceControl = 1 ∧ s.started = 0 ∨ old ≠ 0 ∧ (timely → s.finished = 1)
  | .inRoutine => first ∧ s.started = 1 ∧ s.finished = 0
  | _ => True

/-- One thread at most has found the control word 0, and it calls the routine. -/
structure Once.Stage (timely : Prop) (s : Once) : Prop where
  control : s.onceControl = 0 ∨ s.onceControl = 1
  counts : s.finished ≤ s.started ∧ s.started ≤ s.onceControl ∧ (timely → 0 < s.returned → s.finished = 1)
  threads : ∃ first, ∀ t, s.Sees timely (t = first) (s.pc t)

section
variable {s s' : Once} {t : Nat} {timely : Prop}

theorem Once.Stage.of_goto {pc : OncePc} {w : Nat} (hpc : s'.pc = update s.pc t pc)
    (control : s'.onceControl = 0 ∨ s'.onceControl = 1)
    (counts : s'.finished ≤ s'.started ∧ s'.started ≤ s'.onceControl ∧
      (timely → 0 < s'.returned → s'.finished = 1)) (hself : s'.Sees timely (t = w) pc)
    (hothers : ∀ u, u ≠ t → s'.Sees timely (u = w) (s.pc u)) : s'.Stage timely := by
  refine ⟨control, counts, w, fun u => ?_⟩
  rw [hpc]
  by_cases hu : u = t
  · rwa [hu, update_self]
  · rw [update_of_ne hu]
    exact hothers u hu

theorem Once.Sees.imp {p q : Prop} {pc : OncePc} (h : s.Sees timely p pc)
    (htook : p → s.onceControl = 1 → s.started = 0 → q ∧ s'.onceControl = 1 ∧ s'.started = 0)
    (hlate : s.finished = 1 → s'.finished = 1)
    (hin : p → s.started = 1 → s.finished = 0 → q ∧ s'.started = 1 ∧ s'.finished = 0) :
    s'.Sees timely q pc := by
  cases pc with
  | idle | entered => trivial
  | took old => exact Or.imp (fun ⟨h0, hp, h1, h2⟩ => ⟨h0, htook hp h1 h2⟩) (fun ⟨h0, h1⟩ => ⟨h0, hlate ∘ h1⟩) h
  | inRoutine => exact hin h.1 h.2.1 h.2.2

/-- **One step.** -/
theorem Once.Stage.step (h : s.Stage timely) {l : OnceLabel} (htimely : timely → s.Timely l)
    (hstep : s.step l = some s') : s'.Stage timely := by
  obtain ⟨control, counts, first, threads⟩ := h
  cases l with
  | call t isPthread null =>
    obtain ⟨-, rfl⟩ := guarded_inj hstep
    split
    · exact .of_goto rfl control counts trivial fun u _ => threads u
    · exact ⟨control, counts, first, threads⟩
  | exchange t =>
    obtain ⟨-, rfl⟩ := guarded_inj hstep
    rcases control with hzero | hone
    · -- the first one: nobody else is past its own section
      exact .of_goto rfl (.inr rfl) ⟨counts.1, by change (s.started : Int) ≤ 1; omega, counts.2.2⟩
        (.inl ⟨hzero, rfl, rfl, by change s.started = 0; omega⟩) fun u _ =>
        (threads u).imp (fun _ _ _ => by omega) (fun _ => by omega) fun _ _ _ => by omega
    · refine .of_goto (w := first) rfl (.inr rfl) ⟨counts.1, by change (s.started : Int) ≤ 1; omega, counts.2.2⟩
        (.inr ⟨by omega, fun ht => ?_⟩) fun u _ =>
        (threads u).imp (fun hw _ h => ⟨hw, rfl, h⟩) id fun hw h h' => ⟨hw, h, h'⟩
      have hover : s.onceControl = 0 ∨ 0 < s.finished := htimely ht
      change s.finished = 1
      omega
  | test t =>
    change (match s.pc t with | .took old => _ | _ => none) = some s' at hstep
    split at hstep
    · rename_i old hpc
      have ht := threads t
      rw [hpc] at ht
      split at hstep
      · rename_i hold
        obtain rfl := Option.some.inj hstep
        obtain ⟨-, rfl, hone, hzero⟩ : old = 0 ∧ t = first ∧ s.onceControl = 1 ∧ s.started = 0 :=
          ht.resolve_right fun h => h.1 hold
        exact .of_goto rfl control
          ⟨Nat.le_succ_of_le counts.1, by change ((s.started + 1 : Nat) : Int) ≤ s.onceControl; omega, counts.2.2⟩
          ⟨rfl, congrArg (· + 1) hzero, by change s.finished = 0; omega⟩ fun u hu =>
          (threads u).imp (fun h => absurd h hu) id fun h => absurd h hu
      rename_i hold
      obtain rfl := Option.some.inj hstep
      have hover : timely → s.finished = 1 := (ht.resolve_left fun h => hold h.1).2
      exact .of_goto rfl control ⟨counts.1, counts.2.1, fun h _ => hover h⟩ trivial fun u _ => threads u
    · nomatch hstep
  | routineEnds t =>
    obtain ⟨hpc, rfl⟩ := guarded_inj hstep
    have ht := threads t
    rw [hpc] at ht
    obtain ⟨rfl, hstarted, hzero⟩ := ht
    exact .of_goto (w := t) rfl control
      ⟨by change s.finished + 1 ≤ s.started; omega, counts.2.1, fun _ _ => congrArg (· + 1) hzero⟩ trivial fun u hu =>
      (threads u).imp (fun h => absurd h hu) (fun h => by omega) fun h => absurd h hu

end

theorem Once.stage_init {timely : Prop} : Once.init.Stage timely :=
  ⟨.inl rfl, ⟨by decide, by decide, fun _ h => absurd h (Nat.lt_irrefl 0)⟩, 0, fun _ => trivial⟩

/-- **`pthread_once` completes before it returns**: the routine is run once at most, and in every run in which each
call reads the control word before it is set or after the routine has come back, it has been run and has come back
once a call has returned 0. -/
theorem once_completes {run : List OnceLabel} {s : Once} (hexec : exec Once.step .init run = some s) :
    s.started ≤ 1 ∧ (Guarded Once.step Once.Timely .init run → 0 < s.returned → s.started = 1 ∧ s.finished = 1) := by
  have honce : s.Stage False := exec_inv (fun _ _ _ h hstep => h.step False.elim hstep) Once.stage_init hexec
  have := honce.control
  have := honce.counts
  refine ⟨by omega, fun htimely hreturned => ?_⟩
  have hall : s.Stage True :=
    exec_inv_guarded (fun _ _ _ h hok hstep => h.step (fun _ => hok) hstep) Once.stage_init htimely hexec
  have := hall.counts.2.2 trivial hreturned
  omega

/-- Thread 1 runs the routine, thread 2 calls afterwards. -/
def twoCalls : List OnceLabel :=
  [.call 1 true false, .exchange 1, .test 1, .routineEnds 1, .call 2 true false, .exchange 2, .test 2]

theorem once_completes_twoCalls : ∃ s, exec Once.step .init twoCalls = some s ∧ s.returned = 2 ∧ s.started = 1 ∧
    s.finished = 1 := by
  obtain ⟨s, hs, hreturned⟩ : ∃ s, exec Once.step .init twoCalls = some s ∧ s.returned = 2 := ⟨_, rfl, rfl⟩
  have htimely : Guarded Once.step Once.Timely .init twoCalls := by decide +kernel
  exact ⟨s, hs, hreturned, (once_completes hs).2 htimely (by omega)⟩

/-- Thread 2 calls while thread 1 is in the routine, and has its 0 before the routine comes back. -/
theorem once_returns_early :
    (exec Once.step .init [.call 1 true false, .exchange 1, .test 1, .call 2 true false, .exchange 2, .test 2]).any
      (fun s => decide (s.pc 1 = .inRoutine ∧ s.returned = 1 ∧ s.finished = 0)) = true := by decide +kernel

end LiteosM.Posix
