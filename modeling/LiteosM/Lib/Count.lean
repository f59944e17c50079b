import Mathlib.Algebra.BigOperators.Group.Finset.Basic

/-!
# Sums over a table

A table `f` has a value in each of its first `n` places, and each value a weight. `sum_update` says how
the sum of the weights changes when one place is written.
-/

namespace LiteosM.Lib

open Function Finset

variable {α : Type*}

theorem sum_update (f : Nat → α) (g : α → Nat) {n i : Nat} (hi : i < n) (v : α) :
    ∑ j ∈ range n, g (update f i v j) + g (f i) = ∑ j ∈ range n, g (f j) + g v := by
  have hmem : i ∈ range n := mem_range.mpr hi
  have hrest : ∑ j ∈ (range n).erase i, g (update f i v j) =
      ∑ j ∈ (range n).erase i, g (f j) := by
    refine sum_congr rfl fun j hj => ?_
    rw [update_of_ne (ne_of_mem_erase hj)]
  rw [← add_sum_erase _ _ hmem, ← add_sum_erase _ (fun j => g (f j)) hmem, hrest,
    update_self]
  omega

end LiteosM.Lib
