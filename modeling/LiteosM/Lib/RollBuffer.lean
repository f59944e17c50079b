import Mathlib.Data.List.Basic
import Mathlib.Data.List.GetD

/-!
# Ring buffers with a roll flag

A ring of `size` cells, read at `read` and written at `write`. Equal indices mean empty or full, and
a flag tells which: the writer sets it at its wrap-around and the reader clears it at its own. A
transfer stops at the end of the ring, so that `readable` and `writable` say what one transfer can
move, which may be less than there is.

`contents` are the values that have been written and not read yet, in their order. `skip` takes them
away at the front (`Wf.skip`) and `fill` adds to the end (`Wf.fill`).
-/

namespace LiteosM.Lib

open List

/-- A buffer with two positions, and whether the write position has wrapped around. -/
structure RollBuffer (α : Type*) where
  size : Nat
  cell : Nat → α
  read : Nat
  write : Nat
  roll : Bool

namespace RollBuffer

variable {α : Type*} (b : RollBuffer α)

/-- The cells from `i` on and before `j`. -/
def span (i j : Nat) : List α := (range' i (j - i)).map b.cell

/-- What has been written and not read. -/
def contents : List α :=
  if b.roll then b.span b.read b.size ++ b.span 0 b.write else b.span b.read b.write

/-- How many values can be read at once. -/
def readable : Nat :=
  if b.read < b.write then b.write - b.read
  else if b.read > b.write then b.size - b.read
  else if b.roll then b.size - b.read
  else 0

/-- How many values can be written at once. -/
def writable : Nat :=
  if b.read < b.write then b.size - b.write
  else if b.read > b.write then b.read - b.write
  else if b.roll then 0
  else b.size - b.write

/-- The read index moves on. -/
def skip (n : Nat) : RollBuffer α :=
  if b.read + n ≥ b.size then { b with read := 0, roll := false } else { b with read := b.read + n }

/-- Values are put in from the write index on. -/
def store (xs : List α) : RollBuffer α :=
  { b with cell := fun i => if i < b.write then b.cell i else xs.getD (i - b.write) (b.cell i) }

/-- Values are put in and the write index moves on. -/
def fill (xs : List α) : RollBuffer α :=
  if b.write + xs.length ≥ b.size then { b.store xs with write := 0, roll := true }
  else { b.store xs with write := b.write + xs.length }

/-- Both positions are in the buffer, in the order that `roll` says. -/
structure Wf : Prop where
  read : b.read < b.size
  write : b.write < b.size
  flat : b.roll = false → b.read ≤ b.write
  rolled : b.roll = true → b.write ≤ b.read

variable {b}

@[simp] theorem length_span (i j : Nat) : (b.span i j).length = j - i := by simp [span]

theorem span_self (i : Nat) : b.span i i = [] := by simp [span]

theorem span_append {i j k : Nat} (hij : i ≤ j) (hjk : j ≤ k) : b.span i j ++ b.span j k = b.span i k := by
  have hrange : range' i (j - i) ++ range' j (k - j) = range' i (k - i) := by
    conv_lhs => rw [← Nat.add_sub_cancel' hij, Nat.add_sub_cancel_left]
    rw [range'_append_1]
    congr 1
    omega
  unfold span
  rw [← map_append, hrange]

theorem length_contents :
    b.contents.length = if b.roll then b.size - b.read + b.write else b.write - b.read := by
  unfold contents
  split_ifs <;> simp

theorem Wf.length_contents_le (h : b.Wf) : b.contents.length ≤ b.size := by
  have := h.write
  have := h.rolled
  rw [length_contents]
  split_ifs with hr <;> simp_all <;> omega

theorem Wf.contents_eq_nil_iff (h : b.Wf) : b.contents = [] ↔ b.read = b.write ∧ b.roll = false := by
  have hread := h.read
  have hflat := h.flat
  rw [← length_eq_zero_iff, length_contents]
  cases hr : b.roll with
  | false =>
    have := hflat hr
    simp
    omega
  | true =>
    simp
    omega

theorem Wf.full_iff (h : b.Wf) : b.contents.length = b.size ↔ b.read = b.write ∧ b.roll = true := by
  have hwrite := h.write
  have hover := h.rolled
  rw [length_contents]
  cases hr : b.roll with
  | false | true =>
    simp
    omega

@[simp] theorem size_skip (n : Nat) : (b.skip n).size = b.size := by
  unfold skip
  split_ifs <;> rfl

@[simp] theorem size_fill (xs : List α) : (b.fill xs).size = b.size := by
  unfold fill
  split_ifs <;> rfl

theorem Wf.readable_pos (h : b.Wf) (hc : b.contents ≠ []) : 0 < b.readable := by
  have := h.read
  have hlen := length_pos_iff.mpr hc
  rw [length_contents] at hlen
  unfold readable
  split_ifs at hlen ⊢ <;> omega

theorem Wf.writable_pos (h : b.Wf) (hc : b.contents.length < b.size) : 0 < b.writable := by
  have := h.write
  rw [length_contents] at hc
  unfold writable
  split_ifs at hc ⊢ <;> omega

/-- What is skipped stands in the cells from the read index on. -/
theorem Wf.skip (h : b.Wf) {n : Nat} (hn : n ≤ b.readable) :
    (b.skip n).Wf ∧ b.contents = b.span b.read (b.read + n) ++ (b.skip n).contents := by
  have hread := h.read
  have hwrite := h.write
  have hflat := h.flat
  have hover := h.rolled
  unfold readable at hn
  unfold RollBuffer.skip
  cases hr : b.roll with
  | false =>
    have hle := hflat hr
    rw [if_neg (by simp [hr] at hn; split_ifs at hn <;> omega)]
    have hnle : b.read + n ≤ b.write := by
      simp [hr] at hn
      split_ifs at hn <;> omega
    refine ⟨⟨by simp only; omega, hwrite, fun _ => hnle, fun hc => absurd hc (by simp)⟩, ?_⟩
    simp only [contents, hr]
    exact (span_append (by omega) hnle).symm
  | true =>
    have hle := hover hr
    have hnle : b.read + n ≤ b.size := by
      simp [hr] at hn
      split_ifs at hn <;> omega
    split_ifs with hwrap
    · refine ⟨⟨by simp only; omega, hwrite, fun _ => Nat.zero_le _, fun hc => absurd hc (by simp)⟩, ?_⟩
      rw [Nat.le_antisymm hnle hwrap]
      simp only [contents, hr]
      rfl
    refine ⟨⟨by simp only; omega, hwrite, fun hc => absurd hc (by simp),
      fun _ => by simp only; omega⟩, ?_⟩
    simp only [contents, hr, if_true]
    rw [← append_assoc]
    congr 1
    exact (span_append (by omega) hnle).symm

theorem span_store {xs : List α} {i j : Nat} (h : j ≤ b.write ∨ b.write + xs.length ≤ i) :
    (b.store xs).span i j = b.span i j := by
  refine map_congr_left fun k hk => ?_
  rw [mem_range'_1] at hk
  unfold store
  dsimp only
  rcases h with h | h
  · rw [if_pos (by omega)]
  · rw [if_neg (by omega), getD_eq_default _ _ (by omega)]

theorem span_store_self (xs : List α) : (b.store xs).span b.write (b.write + xs.length) = xs := by
  refine ext_getElem (by simp) fun k hk hk' => ?_
  simp only [span, getElem_map, getElem_range', store]
  rw [if_neg (by omega), getD_eq_getElem _ _ (by omega)]
  congr 1
  omega

theorem Wf.fill (h : b.Wf) {xs : List α} (hxs : xs.length ≤ b.writable) :
    (b.fill xs).Wf ∧ (b.fill xs).contents = b.contents ++ xs := by
  have hread := h.read
  have hwrite := h.write
  have hflat := h.flat
  have hover := h.rolled
  unfold writable at hxs
  unfold RollBuffer.fill
  cases hr : b.roll with
  | false =>
    have hle := hflat hr
    have hfit : b.write + xs.length ≤ b.size := by
      split_ifs at hxs <;> omega
    have hnew : b.contents ++ xs = (b.store xs).span b.read (b.write + xs.length) := by
      rw [← span_append hle (Nat.le_add_right _ _), span_store (.inl (Nat.le_refl _)), span_store_self]
      simp [contents, hr]
    rw [hnew]
    split_ifs with hwrap
    · rw [Nat.le_antisymm hfit hwrap]
      refine ⟨⟨hread, Nat.zero_lt_of_lt hread, fun hc => absurd hc (by simp), fun _ => Nat.zero_le _⟩, ?_⟩
      exact (congrArg _ (span_self 0)).trans (append_nil _)
    refine ⟨⟨hread, Nat.lt_of_not_le hwrap, fun _ => Nat.le_add_right_of_le hle, fun hc => ?_⟩, ?_⟩
    · exact absurd (hr.symm.trans hc) (by simp)
    · rw [contents, if_neg (by simp [store, hr])]
      rfl
  | true =>
    have hle := hover hr
    have hfit : b.write + xs.length ≤ b.read := by
      split_ifs at hxs <;> omega
    rw [if_neg (by omega)]
    refine ⟨⟨hread, Nat.lt_of_le_of_lt hfit hread, fun hc => ?_, fun _ => hfit⟩, ?_⟩
    · exact absurd (hr.symm.trans hc) (by simp)
    have hnew : (b.store xs).span 0 (b.write + xs.length) = b.span 0 b.write ++ xs := by
      rw [← span_append (Nat.zero_le b.write) (Nat.le_add_right _ _), span_store (.inl (Nat.le_refl _)),
        span_store_self]
    have hold : (b.store xs).span b.read b.size = b.span b.read b.size := span_store (.inr hfit)
    rw [contents, if_pos (by simp [store, hr]), contents, if_pos hr, append_assoc, ← hnew, ← hold]
    rfl

end RollBuffer

end LiteosM.Lib
