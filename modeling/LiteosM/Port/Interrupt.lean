import Mathlib.Data.List.Basic

/-!
# The interrupt lock of the port

`RTOS_BE.c` keeps one global `interrupt_flag` for the whole emulated core. The kernel's pair
`LOS_IntLock` / `LOS_IntRestore` is `ArchIntLock` / `ArchIntRestore` of `LiteOS_RTOS_FE.c`, which
writes the flag by `PMCU_BE_Disable_IRQ` and `PMCU_BE_Enable_IRQ` and ignores the saved value.
`Systick_Signal_Handler` calls the tick handler of the kernel only while the flag is set.

Code is a `Code` tree: every well-bracketed sequence of lock and restore calls is one, `crit body
rest` being `intSave = LOS_IntLock(); body; LOS_IntRestore(intSave); rest`. The saved value is
passed from the lock to its own restore, as the C variable is.

* **`sections_intLock_iff`**: the outermost sections of a sequence are protected iff no two of its
  pairs nest and interrupts are enabled where it starts. Nested pairs are exactly what breaks them;
* `losEventReadWait_unprotected`: `LOS_EventRead` calls `LOS_EventPoll` inside its own section.

Out of scope: the pair `PMCU_BE_Enter_Critical` / `PMCU_BE_Leave_Critical`, which counts its
nesting and is called nowhere, and the signals themselves (`Port.Machine`).
-/

namespace LiteosM.Port

open List

/-- The global `interrupt_flag`. -/
structure Irq where
  interruptFlag : Int
  deriving DecidableEq, Repr

/-- Its initial value: `int interrupt_flag = 1;`. -/
def Irq.init : Irq := ⟨1⟩

/-! ## `RTOS_BE.c` and `LiteOS_RTOS_FE.c` -/

/-- `PMCU_BE_Disable_IRQ`. -/
def pmcuBeDisableIrq (s : Irq) : Int × Irq :=
  let s := { s with interruptFlag := 0 }
  (s.interruptFlag, s)

/-- `PMCU_BE_Enable_IRQ`. -/
def pmcuBeEnableIrq (s : Irq) : Int × Irq :=
  let s := { s with interruptFlag := 1 }
  (s.interruptFlag, s)

/-- `ArchIntLock`: what it returns is the flag after it. -/
def archIntLock (s : Irq) : Int × Irq := pmcuBeDisableIrq s

/-- `ArchIntRestore(save)`: the parameter is not read. -/
def archIntRestore (_save : Int) (s : Irq) : Irq := (pmcuBeEnableIrq s).2

/-- `Systick_Signal_Handler` calls the kernel's tick handler: `interrupt_flag` is set and
`pthread_mutex_trylock(&systick_mutex)` succeeds. -/
def systickHandlerRuns (s : Irq) (systickFree : Bool) : Bool :=
  s.interruptFlag != 0 && systickFree

/-! ## Bracketed code -/

/-- A lock call and its restore call, which is given the value the lock returned. -/
structure LockPair where
  lock : Irq → Int × Irq
  restore : Int → Irq → Irq

/-- `LOS_IntLock` / `LOS_IntRestore`. -/
def intLock : LockPair := ⟨archIntLock, archIntRestore⟩

/-- A well-bracketed sequence of lock and restore calls with other code between them. -/
inductive Code where
  | done
  /-- Code that leaves the interrupt state alone. -/
  | work (rest : Code)
  /-- A critical section around `body`, then `rest`. -/
  | crit (body rest : Code)
  deriving DecidableEq, Repr

namespace Code

/-- One piece of code after another. -/
def seq : Code → Code → Code
  | done, c => c
  | work rest, c => work (seq rest c)
  | crit body rest, c => crit body (seq rest c)

/-- How deep the critical sections nest. -/
def depth : Code → Nat
  | done => 0
  | work rest => depth rest
  | crit body rest => max (depth body + 1) (depth rest)

/-- The state after the code. -/
def final (P : LockPair) : Code → Irq → Irq
  | done, s => s
  | work rest, s => final P rest s
  | crit body rest, s => final P rest (P.restore (P.lock s).1 (final P body (P.lock s).2))

/-- The states in which the code's statements are executed, in order. -/
def visits (P : LockPair) : Code → Irq → List Irq
  | done, _ => []
  | work rest, s => s :: visits P rest s
  | crit body rest, s =>
    let s1 := (P.lock s).2
    let s2 := P.restore (P.lock s).1 (final P body s1)
    (s1 :: visits P body s1) ++ (s2 :: visits P rest s2)

end Code

/-- A critical section around `body` entered in `s` is protected: from the lock to its restore
the flag is 0 and no tick handler can run, and the restore brings the flag back to its value in
`s`. -/
def Protected (P : LockPair) (body : Code) (s : Irq) : Prop :=
  (∀ x ∈ (P.lock s).2 :: body.visits P (P.lock s).2,
    x.interruptFlag = 0 ∧ ∀ free, systickHandlerRuns x free = false) ∧
  (P.restore (P.lock s).1 (body.final P (P.lock s).2)).interruptFlag = s.interruptFlag

/-- Every outermost critical section of the code is protected. -/
def Sections (P : LockPair) : Code → Irq → Prop
  | .done, _ => True
  | .work rest, s => Sections P rest s
  | .crit body rest, s =>
    Protected P body s ∧ Sections P rest (P.restore (P.lock s).1 (body.final P (P.lock s).2))

variable {s : Irq}

theorem systickHandlerRuns_eq_false (h : s.interruptFlag = 0) (free : Bool) :
    systickHandlerRuns s free = false := by
  simp [systickHandlerRuns, h]

/-! ## The kernel's pair -/

@[simp] theorem intLock_lock (s : Irq) : (intLock.lock s).2.interruptFlag = 0 := rfl

@[simp] theorem intLock_restore (v : Int) (s : Irq) : (intLock.restore v s).interruptFlag = 1 := rfl

/-- Code without a critical section leaves the interrupt state as it is. -/
theorem visits_of_depth_zero {P : LockPair} :
    ∀ {c : Code} {s : Irq}, c.depth = 0 → ∀ x ∈ c.visits P s, x = s
  | .done, _, _, _, hx => absurd hx (by simp [Code.visits])
  | .work rest, s, h, x, hx => by
    rcases mem_cons.mp hx with hx | hx
    · exact hx
    · exact visits_of_depth_zero (c := rest) h x hx
  | .crit _ _, _, h, _, _ => by simp [Code.depth] at h

/-- A nested pair leaves the flag set while the section around it goes on. -/
theorem exists_visit_open :
    ∀ {c : Code} {s : Irq}, 0 < c.depth → ∃ x ∈ c.visits intLock s, x.interruptFlag = 1
  | .done, _, h => by simp [Code.depth] at h
  | .work rest, s, h => by
    obtain ⟨x, hx, h1⟩ := exists_visit_open (c := rest) (s := s) h
    exact ⟨x, mem_cons_of_mem _ hx, h1⟩
  | .crit body rest, s, _ => ⟨_, mem_append_right _ mem_cons_self, intLock_restore _ _⟩

/-- One section is protected under the kernel's pair iff no pair is nested in it and interrupts
were enabled when it was entered. -/
theorem protected_intLock_iff {body : Code} :
    Protected intLock body s ↔ body.depth = 0 ∧ s.interruptFlag = 1 := by
  constructor
  · rintro ⟨hin, hout⟩
    refine ⟨?_, by simpa using hout.symm⟩
    by_contra hd
    obtain ⟨x, hx, h1⟩ := exists_visit_open (s := (intLock.lock s).2) (Nat.pos_of_ne_zero hd)
    have h0 := (hin x (mem_cons_of_mem _ hx)).1
    omega
  rintro ⟨hd, hs⟩
  refine ⟨fun x hx => ?_, by rw [intLock_restore, hs]⟩
  have h0 : x.interruptFlag = 0 := by
    rcases mem_cons.mp hx with rfl | hx
    · exact intLock_lock s
    · rw [visits_of_depth_zero hd x hx, intLock_lock]
  exact ⟨h0, systickHandlerRuns_eq_false h0⟩

/-- **Every outermost section is protected iff no two sections nest and, if there is a section at
all, interrupts are enabled at the start.** -/
theorem sections_intLock_iff (c : Code) (s : Irq) :
    Sections intLock c s ↔ c.depth ≤ 1 ∧ (c.depth = 1 → s.interruptFlag = 1) := by
  induction c generalizing s with
  | done => simp [Sections, Code.depth]
  | work rest ih => exact ih s
  | crit body rest _ ih =>
    simp only [Sections, protected_intLock_iff, ih, intLock_restore, Code.depth]
    constructor
    · rintro ⟨⟨hb, hf⟩, hr, _⟩
      exact ⟨by omega, fun _ => hf⟩
    · rintro ⟨hd, hf⟩
      exact ⟨⟨by omega, hf (by omega)⟩, by omega, fun _ => trivial⟩

/-! ## Kernel code that nests the pair -/

/-- `LOS_EventPoll` past its pointer check: one section. -/
def losEventPoll : Code := .crit (.work .done) .done

/-- The part of `LOS_EventRead` up to its wait: `LOS_EventPoll` inside the caller's section, then
the scheduler lock test, the mask and mode of the caller and `OsSchedTaskWait`. -/
def losEventReadWait : Code := .crit (losEventPoll.seq (.work .done)) .done

/-- `LOS_EventRead` from the initial interrupt state: after the poll the rest of the outer section
runs with the flag set, so a tick handler can run between the poll and the wait. -/
theorem losEventReadWait_unprotected : ¬ Sections intLock losEventReadWait Irq.init ∧
      ∃ x ∈ (losEventPoll.seq (.work .done)).visits intLock (intLock.lock Irq.init).2,
        x.interruptFlag = 1 ∧ systickHandlerRuns x true = true := by
  refine ⟨fun h => ?_, ⟨1⟩, by decide, rfl, rfl⟩
  have hd := (protected_intLock_iff.mp h.1).1
  exact absurd hd (by decide)

end LiteosM.Port
