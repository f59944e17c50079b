import Mathlib.Algebra.Group.Nat.Defs
import Mathlib.Data.List.Basic

/-!
# The thread slots of the port

`pmcu_threads` of `RTOS_BE.c`: the table that binds kernel task IDs to host threads, and the three
searches the port makes in it. `pthread_t` is a number, 0 being the value the table is cleared to;
host threads get 1 (the initial thread), 2, 3 and so on, never the same number twice.

* `Slots.findFree`, `Slots.findValid`, `Slots.findTask`: the searches. Each takes the first slot that fits.
-/

namespace LiteosM.Port

open List

/-- `THREAD_NUMBER`. -/
def threadNumber : Nat := 16

/-- `pthread_t`. -/
abbrev Tid := Nat

/-- `taskid = -1` of an `unsigned int`. -/
def noTask : Nat := 2 ^ 32 - 1

/-- `PMCU_Thread`, without the entry function and its parameters. -/
structure Slot where
  thread : Tid
  valid : Bool
  taskid : Nat
  criticalNesting : Int
  deriving DecidableEq, Repr

/-- A slot as `memset(pmcu_threads, 0, sizeof(pmcu_threads))` leaves it. -/
def Slot.zero : Slot := ⟨0, false, 0, 0⟩

/-- `pmcu_threads`. -/
abbrev Slots := List Slot

/-- No slot is taken. -/
def Slots.zero : Slots := List.replicate threadNumber Slot.zero

/-- The first slot that is not valid: the search of `PMCU_BE_Task_Create`. -/
def Slots.findFree (ts : Slots) : Option Nat := ts.findIdx? fun s => !s.valid

/-- The first valid slot of task `id`: the searches of `Start_Scheduler` and of `Pthread_Schedule`
for the new task. -/
def Slots.findValid (ts : Slots) (id : Nat) : Option Nat :=
  ts.findIdx? fun s => s.taskid == id && s.valid

/-- The first slot of task `id`, valid or not: the search of `Pthread_Schedule` for the task that
was running. Its two tests stop at the same slot and differ in what they do there. -/
def Slots.findTask (ts : Slots) (id : Nat) : Option Nat := ts.findIdx? fun s => s.taskid == id

/-- Slot `i`, or a cleared one. -/
def Slots.at (ts : Slots) (i : Nat) : Slot := ts.getD i Slot.zero

/-! ## What the searches find -/

namespace Slots

variable {ts : Slots} {i j : Nat} {f : Slot → Slot}

theorem at_of_lt (h : i < ts.length) : ts.at i = ts[i] := by
  unfold Slots.at
  rw [getD_eq_getElem?_getD, getElem?_eq_getElem h, Option.getD_some]

theorem at_mem (h : i < ts.length) : ts.at i ∈ ts := by
  rw [at_of_lt h]
  exact getElem_mem h

theorem exists_at {s : Slot} (h : s ∈ ts) : ∃ i, i < ts.length ∧ ts.at i = s := by
  obtain ⟨i, hi, hs⟩ := mem_iff_getElem.mp h
  exact ⟨i, hi, (at_of_lt hi).trans hs⟩

theorem at_modify_self (h : i < ts.length) : Slots.at (ts.modify i f) i = f (ts.at i) := by
  rw [at_of_lt h, at_of_lt (by rwa [length_modify]), getElem_modify, if_pos rfl]

theorem at_modify_ne (h : i ≠ j) : Slots.at (ts.modify i f) j = ts.at j := by
  unfold Slots.at
  rw [getD_eq_getElem?_getD, getD_eq_getElem?_getD, getElem?_modify]
  simp [h]

theorem zero_at (i : Nat) : Slots.zero.at i = Slot.zero := by
  unfold Slots.at Slots.zero
  rw [getD_eq_getElem?_getD, getElem?_replicate]
  split <;> rfl

/-- A search finds slot `i`: it is the first one that passes. -/
theorem findIdx_some {p : Slot → Bool} : ts.findIdx? p = some i ↔
      i < ts.length ∧ p (ts.at i) = true ∧ ∀ j, j < i → p (ts.at j) = false := by
  rw [findIdx?_eq_some_iff_getElem]
  constructor
  · rintro ⟨h, hp, hlt⟩
    refine ⟨h, by rwa [at_of_lt h], fun j hj => ?_⟩
    rw [at_of_lt (Nat.lt_trans hj h)]
    exact Bool.eq_false_iff.mpr (hlt j hj)
  rintro ⟨h, hp, hlt⟩
  refine ⟨h, by rwa [at_of_lt h] at hp, fun j hj => ?_⟩
  have := hlt j hj
  rw [at_of_lt (Nat.lt_trans hj h)] at this
  exact Bool.eq_false_iff.mp this

/-- A search that some slot passes finds one. -/
theorem findIdx_of_mem {p : Slot → Bool} {s : Slot} (hs : s ∈ ts) (hp : p s = true) :
    ∃ i, ts.findIdx? p = some i := by
  cases h : ts.findIdx? p with
  | some i => exact ⟨i, rfl⟩
  | none =>
    have := findIdx?_eq_none_iff.mp h s hs
    rw [hp] at this
    exact nomatch this

theorem findFree_some : ts.findFree = some i ↔
      i < ts.length ∧ (ts.at i).valid = false ∧ ∀ j, j < i → (ts.at j).valid = true := by
  unfold findFree
  rw [findIdx_some]
  simp

end Slots

end LiteosM.Port
