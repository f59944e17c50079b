import Mathlib.Data.List.Basic

/-!
# Singly linked lists

A word memory `next` holds in each node the address of the following one; 0 ends a list. `Chain next
a l` says that following the words from `a` visits exactly the nodes `l`.
-/

namespace LiteosM.Lib

open Function List

/-- The nodes from `a` on are `l`, and then comes NULL. -/
def Chain (next : Nat → Nat) : Nat → List Nat → Prop
  | a, [] => a = 0
  | a, n :: l => a = n ∧ n ≠ 0 ∧ Chain next (next n) l

instance decidableChain (next : Nat → Nat) : ∀ (l : List Nat) (a : Nat), Decidable (Chain next a l)
  | [], a => inferInstanceAs (Decidable (a = 0))
  | n :: l, a =>
    have := decidableChain next l (next n)
    inferInstanceAs (Decidable (a = n ∧ n ≠ 0 ∧ Chain next (next n) l))

variable {next next' : Nat → Nat} {a n : Nat} {l : List Nat}

section
variable (h : Chain next a l)
include h

/-- A chain only depends on the words of its own nodes. -/
theorem Chain.congr (heq : ∀ n ∈ l, next' n = next n) : Chain next' a l := by
  induction l generalizing a with
  | nil => exact h
  | cons m l ih =>
    obtain ⟨ha, hm, hl⟩ := h
    refine ⟨ha, hm, ?_⟩
    rw [heq m mem_cons_self]
    exact ih hl fun n hn => heq n (mem_cons_of_mem _ hn)

theorem Chain.write (hn : n ∉ l) (w : Nat) : Chain (update next n w) a l :=
  h.congr fun _ hm => update_of_ne (ne_of_mem_of_not_mem hm hn) w next

/-- A node is put in front. -/
theorem Chain.push (hn : n ∉ l) (h0 : n ≠ 0) : Chain (update next n a) n (n :: l) := by
  refine ⟨rfl, h0, ?_⟩
  rw [update_self]
  exact h.write hn a

/-- What does not start at 0 has a first node. -/
theorem Chain.first (ha : a ≠ 0) : ∃ l', l = a :: l' ∧ Chain next (next a) l' := by
  cases l with
  | nil => exact absurd h ha
  | cons n l =>
    obtain ⟨rfl, -, hl⟩ := h
    exact ⟨l, rfl, hl⟩

end

theorem Chain.nil_of_zero (h : Chain next 0 l) : l = [] := by
  cases l with
  | nil => rfl
  | cons n l => exact absurd h.1.symm h.2.1

/-- The word of a node ends the list or is the address of a node. -/
theorem Chain.next_mem (h : Chain next a l) (hn : n ∈ l) : next n = 0 ∨ next n ∈ l := by
  induction l generalizing a with
  | nil => simp at hn
  | cons m l ih =>
    obtain ⟨-, -, hl⟩ := h
    rcases mem_cons.mp hn with rfl | hn
    · cases l with
      | nil => exact .inl hl
      | cons k l =>
        right
        rw [hl.1]
        simp
    · rcases ih hl hn with h0 | hm
      · exact .inl h0
      · exact .inr (mem_cons_of_mem _ hm)

theorem Chain.zero_notMem (h : Chain next a l) : 0 ∉ l := by
  induction l generalizing a with
  | nil => simp
  | cons m l ih =>
    obtain ⟨-, hm, hl⟩ := h
    rw [mem_cons]
    rintro (h0 | h0)
    · exact hm h0.symm
    · exact ih hl h0

/-- A node is put behind the last one. -/
theorem Chain.snoc (h : Chain next a l) (hn : n ≠ 0) (hend : next' n = 0) (hnd : l.Nodup)
    (hlast : ∀ x ∈ l.getLast?, next' x = n) (hrest : ∀ x ∈ l, x ∉ l.getLast? → next' x = next x) :
    Chain next' (if l = [] then n else a) (l ++ [n]) := by
  induction l generalizing a with
  | nil => exact ⟨rfl, hn, hend⟩
  | cons x l ih =>
    obtain ⟨rfl, hx, hl⟩ := h
    refine ⟨rfl, hx, ?_⟩
    cases l with
    | nil =>
      rw [hlast a rfl]
      exact ⟨rfl, hn, hend⟩
    | cons y l =>
      obtain ⟨hx', hnd'⟩ := nodup_cons.mp hnd
      have hne : a ∉ (a :: y :: l).getLast? := fun ha => hx' (mem_of_getLast? ha)
      rw [hrest a mem_cons_self hne]
      exact ih hl hnd' hlast fun z hz hz' => hrest z (mem_cons_of_mem _ hz) hz'

/-- The node behind `p` is taken out. -/
theorem Chain.unlink {p : Nat} {l' : List Nat} (h : Chain next a (l ++ p :: n :: l'))
    (hp : next' p = next n) (hrest : ∀ x ∈ l ++ l', next' x = next x) :
    Chain next' a (l ++ p :: l') := by
  induction l generalizing a with
  | nil =>
    obtain ⟨ha, hp0, -, -, hl⟩ := h
    refine ⟨ha, hp0, ?_⟩
    rw [hp]
    exact hl.congr hrest
  | cons x l ih =>
    obtain ⟨ha, hx, hl⟩ := h
    refine ⟨ha, hx, ?_⟩
    rw [hrest x mem_cons_self]
    exact ih hl fun y hy => hrest y (mem_cons_of_mem _ hy)

end LiteosM.Lib
