import Mathlib.Data.List.Basic

/-!
# A window on a circle of slots

A bounded double-ended queue kept in `n` slots: `window n h c slot` are the contents of the `c` slots
from `h` on, going around the circle. An index moves by a comparison (`next`, `prev`), as code
without a division does it.

* `window_back`, `window_front`: writing the slot behind, or before, a window that is not full
  appends, or prepends, to it;
* `window_cons`: the first element and the rest.
-/

namespace LiteosM.Lib

open Function List Nat

variable {α : Type*} {n h c i j : Nat}

/-- The slot after `i`. -/
def next (n i : Nat) : Nat := if i + 1 = n then 0 else i + 1

/-- The slot before `i`. -/
def prev (n i : Nat) : Nat := if i = 0 then n - 1 else i - 1

/-- The `c` places from `h` on, around the end. -/
def window (n h c : Nat) (slot : Nat → α) : List α := (List.range c).map fun i => slot ((h + i) % n)

theorem next_eq (hi : i < n) : next n i = (i + 1) % n := by
  unfold next
  split_ifs with hn
  · rw [hn, mod_self]
  · exact (mod_eq_of_lt (by omega)).symm

theorem next_lt (hi : i < n) : next n i < n := by
  rw [next_eq hi]
  exact mod_lt _ (by omega)

theorem prev_lt (hi : i < n) : prev n i < n := by
  unfold prev
  split_ifs <;> omega

theorem next_prev (hi : i < n) : next n (prev n i) = i := by
  unfold next prev
  split_ifs <;> omega

/-- Two places of a window that is not longer than the circle are different slots. -/
theorem place_ne (hij : i < j) (hj : j < n) : (h + i) % n ≠ (h + j) % n := by
  intro heq
  obtain ⟨d, rfl⟩ := Nat.exists_eq_add_of_lt hij
  have hdvd : n ∣ d + 1 := by
    have := dvd_of_mod_eq_zero (Nat.sub_mod_eq_zero_of_mod_eq heq.symm)
    rwa [show h + (i + d + 1) - (h + i) = d + 1 by omega] at this
  exact absurd (Nat.le_of_dvd d.succ_pos hdvd) (by omega)

theorem window_succ (slot : Nat → α) :
    window n h (c + 1) slot = window n h c slot ++ [slot ((h + c) % n)] := by
  simp [window, range_succ]

/-- The first element of a window, and the rest. -/
theorem window_cons (hh : h < n) (slot : Nat → α) :
    window n h (c + 1) slot = slot h :: window n (next n h) c slot := by
  unfold window
  rw [range_succ_eq_map, map_cons, List.map_map, next_eq hh, Nat.add_zero, Nat.mod_eq_of_lt hh]
  refine congrArg _ (map_congr_left fun i _ => ?_)
  rw [comp_apply, mod_add_mod, Nat.add_assoc, Nat.add_comm 1 i]

theorem window_congr {slot slot' : Nat → α} (heq : ∀ i < c, slot' ((h + i) % n) = slot ((h + i) % n)) :
    window n h c slot' = window n h c slot :=
  map_congr_left fun i hi => heq i (mem_range.mp hi)

theorem mem_window {slot : Nat → α} (hi : i < c) : slot ((h + i) % n) ∈ window n h c slot :=
  List.mem_map_of_mem (mem_range.mpr hi)

/-- A slot outside a window is written. -/
theorem window_update {p : Nat} {slot : Nat → α} (hp : ∀ i < c, (h + i) % n ≠ p) (x : α) :
    window n h c (update slot p x) = window n h c slot :=
  window_congr fun i hi => update_of_ne (hp i hi) x slot

/-- The slot behind a window that is not full is written. -/
theorem window_back (hc : c < n) (slot : Nat → α) (x : α) :
    window n h (c + 1) (update slot ((h + c) % n) x) = window n h c slot ++ [x] := by
  rw [window_succ, update_self, window_update fun i hi => place_ne hi hc]

/-- The slot behind a window, counted from the slot before it. -/
theorem back_prev (hh : h < n) : (h + c) % n = (prev n h + (c + 1)) % n := by
  have := next_eq (prev_lt hh)
  rw [next_prev hh] at this
  nth_rewrite 1 [this]
  rw [mod_add_mod, Nat.add_assoc, Nat.add_comm 1 c]

/-- The slot before a window that is not full is written. -/
theorem window_front (hh : h < n) (hc : c < n) (slot : Nat → α) (x : α) :
    window n (prev n h) (c + 1) (update slot (prev n h) x) = x :: window n h c slot := by
  rw [window_cons (prev_lt hh), next_prev hh, update_self, window_update fun i hi => ?_]
  have hself : prev n h = (prev n h + 0) % n := by
    rw [Nat.add_zero, Nat.mod_eq_of_lt (prev_lt hh)]
  rw [back_prev hh]
  nth_rewrite 2 [hself]
  exact (place_ne (by omega) (by omega)).symm

/-- The slot behind a window from `h` is the slot behind one that has lost its first element. -/
theorem back_next (hh : h < n) (hc : 0 < c) : (h + c) % n = (next n h + (c - 1)) % n := by
  rw [next_eq hh, mod_add_mod]
  congr 1
  omega

end LiteosM.Lib
