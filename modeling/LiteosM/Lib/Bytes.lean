import Mathlib.Algebra.Group.Nat.Defs
import Mathlib.Data.List.Basic

/-!
# Byte memory

Memory is a function from addresses to bytes, read and written in stretches; a 32-bit word is four
bytes, the lowest first.
-/

namespace LiteosM.Lib

open List Option

/-- A memory of bytes. -/
abbrev Memory := Nat → UInt8

/-- The `n` bytes at address `a`. -/
def readBytes (m : Memory) (a n : Nat) : List UInt8 := (List.range n).map fun i => m (a + i)

/-- The bytes `l` are written at address `a`. -/
def writeBytes (m : Memory) (a : Nat) (l : List UInt8) : Memory := fun i =>
  if a ≤ i then (l[i - a]?).getD (m i) else m i

variable {m : Memory} {a b n : Nat} {l : List UInt8}

@[simp] theorem length_readBytes (m : Memory) (a n : Nat) : (readBytes m a n).length = n := by
  simp [readBytes]

theorem readBytes_congr {m' : Memory} (h : ∀ i < n, m' (a + i) = m (a + i)) :
    readBytes m' a n = readBytes m a n :=
  map_congr_left fun i hi => h i (mem_range.mp hi)

theorem writeBytes_outside {i : Nat} (h : i < a ∨ a + l.length ≤ i) : writeBytes m a l i = m i := by
  unfold writeBytes
  split_ifs with ha
  · rw [getElem?_eq_none (by omega), getD_none]
  · rfl

theorem readBytes_writeBytes (m : Memory) (a : Nat) (l : List UInt8) :
    readBytes (writeBytes m a l) a l.length = l := by
  refine ext_getElem (length_readBytes ..) fun i hi hi' => ?_
  simp [readBytes, writeBytes, hi']

/-- What is read does not meet what was written. -/
theorem readBytes_writeBytes_disjoint (h : b + n ≤ a ∨ a + l.length ≤ b) :
    readBytes (writeBytes m a l) b n = readBytes m b n :=
  readBytes_congr fun i hi => writeBytes_outside (by omega)

theorem take_readBytes (m : Memory) (a n i : Nat) :
    (readBytes m a n).take i = readBytes m a (min i n) := by
  unfold readBytes
  rw [← map_take, take_range]

/-- The four bytes of a word. -/
def le32 (w : Nat) : List UInt8 :=
  [UInt8.ofNat w, UInt8.ofNat (w / 256), UInt8.ofNat (w / 65536), UInt8.ofNat (w / 16777216)]

/-- The word of some bytes. -/
def ofLe : List UInt8 → Nat
  | [] => 0
  | b :: l => b.toNat + 256 * ofLe l

@[simp] theorem length_le32 (w : Nat) : (le32 w).length = 4 := rfl

variable {w : Nat}

theorem ofLe_le32 (hw : w < 2 ^ 32) : ofLe (le32 w) = w := by
  simp only [le32, ofLe, UInt8.toNat_ofNat']
  omega

theorem ofLe_lt (l : List UInt8) (hw : l.length = w) : ofLe l < 256 ^ w := by
  subst hw
  induction l with
  | nil => simp [ofLe]
  | cons b l ih =>
    have hb := b.toNat_lt
    rw [ofLe, length_cons]
    omega

/-! ## Words and stretches -/

/-- The word at address `a`. -/
def readWord (m : Memory) (a : Nat) : Nat := ofLe (readBytes m a 4)

/-- The word `w` is written at address `a`. -/
def writeWord (m : Memory) (a w : Nat) : Memory := writeBytes m a (le32 w)

/-- The byte `b` is written into the `n` bytes at address `a`. -/
def fillBytes (m : Memory) (a n : Nat) (b : UInt8) : Memory := fun i =>
  if a ≤ i ∧ i < a + n then b else m i

theorem readWord_lt (m : Memory) (a : Nat) : readWord m a < 2 ^ 32 :=
  ofLe_lt _ (length_readBytes m a 4)

theorem readWord_congr {m' : Memory} (h : ∀ i, a ≤ i → i < a + 4 → m' i = m i) :
    readWord m' a = readWord m a := by
  unfold readWord
  rw [readBytes_congr fun i hi => h (a + i) (by omega) (by omega)]

theorem readWord_writeWord (hw : w < 2 ^ 32) : readWord (writeWord m a w) a = w := by
  have h := readBytes_writeBytes m a (le32 w)
  rw [length_le32] at h
  rw [readWord, writeWord, h, ofLe_le32 hw]

theorem readWord_writeWord_disjoint (h : b + 4 ≤ a ∨ a + 4 ≤ b) :
    readWord (writeWord m a w) b = readWord m b := by
  rw [readWord, writeWord, readBytes_writeBytes_disjoint (by simpa using h), readWord]

/-! ## Stores

A list of stores is carried out from the left; what it leaves at an address is the last byte stored
there. -/

/-- The words `l`, each with its address, are written one after the other. -/
def applyStores (m : Memory) (l : List (Nat × Nat)) : Memory :=
  l.foldl (fun m e => writeWord m e.1 e.2) m

/-- The byte that the last store to address `i` puts there. -/
def lastStored : List (Nat × Nat) → Nat → Option UInt8
  | [], _ => none
  | e :: l, i => (lastStored l i).or (if e.1 ≤ i then (le32 e.2)[i - e.1]? else none)

theorem applyStores_append (m : Memory) (l l' : List (Nat × Nat)) :
    applyStores m (l ++ l') = applyStores (applyStores m l) l' :=
  foldl_append

theorem applyStores_apply (l : List (Nat × Nat)) (m : Memory) (i : Nat) :
    applyStores m l i = (lastStored l i).getD (m i) := by
  induction l generalizing m with
  | nil => rfl
  | cons e l ih =>
    rw [show applyStores m (e :: l) = applyStores (writeWord m e.1 e.2) l from rfl, ih, lastStored]
    cases lastStored l i with
    | some b => rfl
    | none =>
      rw [writeWord, writeBytes]
      split <;> rfl

theorem readWord_applyStores {l : List (Nat × Nat)} (h : ∀ e ∈ l, a + 4 ≤ e.1 ∨ e.1 + 4 ≤ a) :
    readWord (applyStores m l) a = readWord m a := by
  induction l generalizing m with
  | nil => rfl
  | cons e l ih =>
    obtain ⟨he, hl⟩ := forall_mem_cons.mp h
    rw [show applyStores m (e :: l) = applyStores (writeWord m e.1 e.2) l from rfl, ih hl,
      readWord_writeWord_disjoint he]

/-- Nothing is stored at `i`. -/
theorem lastStored_eq_none_iff {l : List (Nat × Nat)} {i : Nat} :
    lastStored l i = none ↔ ∀ e ∈ l, i < e.1 ∨ e.1 + 4 ≤ i := by
  induction l with
  | nil => simp [lastStored]
  | cons e l ih =>
    rw [lastStored, or_eq_none_iff, ih, forall_mem_cons, and_comm]
    refine and_congr ?_ Iff.rfl
    split_ifs with h
    · rw [List.getElem?_eq_none_iff, length_le32]
      omega
    · simp only [true_iff]
      omega

end LiteosM.Lib
