import LiteosM.Kernel.Membox
import LiteosM.Lib.Run
import Mathlib.Data.List.Perm.Basic

/-!
# A pool of blocks in use

`LOS_MemboxAlloc` and `LOS_MemboxFree` on one pool, called by any tasks, in any order and with any
pointers; between the calls the tasks write what they like into the blocks they hold. The ghost list
`held` has the addresses that were handed out and have not been taken back.

* `Pooled.step`: every step keeps the free list and the held blocks a partition of the pool;
* **`membox_partition`**: after every run the free list has no cycle, it and the held blocks are all
  blocks of the pool, `uwBlkCnt` counts the held ones, an allocation fails iff no block is free, and
  exactly the held addresses can be freed; any other pointer is refused and changes nothing.

Each call locks interrupts (`MEMBOX_LOCK`) and is one step.
-/

namespace LiteosM.Kernel

open LiteosM.Lib List Option Membox Nat

/-- What a task does with a pool. -/
inductive PoolOp where
  /-- `LOS_MemboxAlloc` while the task with this ID runs. -/
  | alloc (taskID : Fin (taskMaxNum + 1))
  /-- `LOS_MemboxFree`. -/
  | free (box : UInt32)
  /-- A word is written into the user's part of a block. -/
  | write (addr word : UInt32)
  deriving DecidableEq

/-- A box with the blocks that have been given out and not freed. -/
structure PoolState where
  box : Membox
  held : List Nat

namespace PoolState

variable (s : PoolState)

/-- The word at `addr` lies in the user's part of a block that is held. -/
def Writable (addr : Nat) : Prop :=
  ∃ box ∈ s.held, box ≤ addr ∧ addr + 4 ≤ box + (s.box.blkSize - memboxNodeHeadSize)
  deriving Decidable

/-- A call, or a write of a task into a block that is held. -/
def step : PoolOp → Option PoolState
  | .alloc taskID =>
    let (b, box) := s.box.alloc taskID
    some ⟨b, if box = 0 then s.held else box :: s.held⟩
  | .free box =>
    match s.box.free box.toNat with
    | none => some s
    | some b => some ⟨b, s.held.erase box.toNat⟩
  | .write addr word =>
    if s.Writable addr.toNat then
      some { s with box := { s.box with
        pstNext := Function.update s.box.pstNext addr.toNat word.toNat } }
    else none

/-- The free list is `F`; it and the held blocks are all blocks, each once. -/
structure Pooled (s : PoolState) (F : List Nat) : Prop where
  sound : s.box.Sound
  keeps : s.box.Keeps F
  part : (F.map memboxUserAddr ++ s.held).Perm
    ((range s.box.blkNum).map fun i => memboxUserAddr (s.box.nodeAt i))
  count : s.box.blkCnt = s.held.length

end PoolState

open PoolState

variable {s s' : PoolState} {F : List Nat} {op : PoolOp}

namespace Membox

variable {b b' : Membox} {n : Nat}

/-- Only addresses between `OS_MEMBOX_MAGIC` and its last task ID read as magic numbers. -/
theorem magic_range (h : memboxCheckMagic n = true) : 0xa55a5a00 ≤ n ∧ n ≤ 0xa55a5aff := by
  unfold memboxCheckMagic at h
  dsimp only at h
  split_ifs at h
  have heq : n = memboxMagic ||| (n &&& 255) := by simpa using h
  have hlow : n &&& 255 ≤ 255 := and_le_right
  have hadd : memboxMagic + (n &&& 255) = memboxMagic ||| (n &&& 255) :=
    two_pow_add_eq_or_of_lt (i := 8) (lt_succ_of_le hlow) 0xa55a5a
  rw [← heq] at hadd
  unfold memboxMagic at hadd
  omega

/-- There are fewer blocks than addresses. -/
theorem Sound.blkNum_lt (hb : b.Sound) : b.blkNum < 2 ^ 32 := by
  have hmul : b.blkNum * 1 ≤ b.blkNum * b.blkSize := mul_le_mul_left _ hb.pos
  have hfits := hb.fits
  omega

/-- What is in the user's part of a block is no node. -/
theorem not_node_of_user (hn : b.IsNode n) {a : Nat} (hlow : n < a)
    (hup : a < n + b.blkSize) : ¬ b.IsNode a := by
  rintro ⟨j, -, rfl⟩
  obtain ⟨i, -, rfl⟩ := hn
  simp only [nodeAt] at hlow hup
  have hij : i * b.blkSize < j * b.blkSize := by omega
  have hji : j * b.blkSize < (i + 1) * b.blkSize := by
    rw [succ_mul]
    omega
  have h1 : i < j := Nat.lt_of_mul_lt_mul_right hij
  have h2 : j < i + 1 := Nat.lt_of_mul_lt_mul_right hji
  omega

end Membox

namespace PoolState.Pooled

/-- A held address is the address of a block that is not in the free list. -/
theorem node_of_held (h : Pooled s F) {box : Nat} (hbox : box ∈ s.held) :
    ∃ n, s.box.IsNode n ∧ box = memboxUserAddr n := by
  have hmem := h.part.mem_iff.mp (mem_append_right (F.map memboxUserAddr) hbox)
  obtain ⟨i, hi, rfl⟩ := mem_map.mp hmem
  exact ⟨s.box.nodeAt i, ⟨i, mem_range.mp hi, rfl⟩, rfl⟩

theorem nodup (h : Pooled s F) : (F.map memboxUserAddr ++ s.held).Nodup := by
  refine h.part.nodup_iff.mpr (Nodup.map_on (fun i hi j hj hij => ?_) nodup_range)
  have hnode : ∀ i ∈ range s.box.blkNum, s.box.IsNode (s.box.nodeAt i) := fun i hi =>
    ⟨i, mem_range.mp hi, rfl⟩
  have heq := h.sound.userAddr_inj (hnode i hi) (hnode j hj) hij
  exact eq_of_mul_eq_mul_right h.sound.pos (add_left_cancel heq)

/-- A block is held iff it is not in the free list. -/
theorem held_iff (h : Pooled s F) {n : Nat} (hn : s.box.IsNode n) : memboxUserAddr n ∈ s.held ↔ n ∉ F := by
  obtain ⟨i, hi, rfl⟩ := hn
  have hnode : s.box.IsNode (s.box.nodeAt i) := ⟨i, hi, rfl⟩
  constructor
  · intro hheld hF
    exact (nodup_append'.mp h.nodup).2.2 (mem_map_of_mem hF) hheld
  intro hF
  have hall : memboxUserAddr (s.box.nodeAt i) ∈ F.map memboxUserAddr ++ s.held :=
    h.part.mem_iff.mpr (mem_map.mpr ⟨i, mem_range.mpr hi, rfl⟩)
  rcases mem_append.mp hall with hmem | hmem
  · obtain ⟨m, hm, heq⟩ := mem_map.mp hmem
    exact absurd (h.sound.userAddr_inj (h.keeps.nodes m hm) hnode heq ▸ hm) hF
  · exact hmem

theorem length_le (h : Pooled s F) : F.length + s.held.length = s.box.blkNum := by
  simpa using h.part.length_eq

/-- The blocks of a pool with the same header. -/
theorem nodeAt_of_same {b b' : Membox} (h : Same b b') : b'.nodeAt = b.nodeAt := by
  unfold nodeAt
  rw [h.pool, h.size]

section
variable (h : Pooled s F)
include h

theorem alloc (t : Fin (taskMaxNum + 1)) (hstep : s.step (.alloc t) = some s') :
    ∃ F', Pooled s' F' := by
  have hsame := same_alloc s.box t
  have hnodes := nodeAt_of_same hsame
  simp only [step, some.injEq] at hstep
  by_cases h0 : s.box.freeList = 0
  · obtain ⟨hF, halloc⟩ := h.keeps.alloc_null h0
    rw [halloc] at hstep
    exact ⟨F, hstep ▸ h⟩
  obtain ⟨F', rfl, hbox, hkeeps⟩ := h.keeps.alloc (le_of_lt_succ t.isLt) h0
  have hnode := h.keeps.nodes _ mem_cons_self
  have hne := h.sound.userAddr_ne_zero hnode
  rw [hbox, if_neg hne] at hstep
  subst hstep
  refine ⟨F', hsame.sound h.sound, hkeeps, ?_, ?_⟩
  · rw [hnodes, hsame.num]
    exact perm_middle.trans h.part
  have hcnt : (s.box.alloc t).1.blkCnt = (s.box.blkCnt + 1) % 2 ^ 32 := by
    rw [alloc, if_pos h0]
  have hlen := h.length_le
  have hlt := h.sound.blkNum_lt
  simp only [length_cons] at hlen ⊢
  rw [hcnt, h.count, mod_eq_of_lt (by omega)]

theorem free (box : UInt32) (hstep : s.step (.free box) = some s') : ∃ F', Pooled s' F' := by
  simp only [step] at hstep
  cases hfree : s.box.free box.toNat with
  | none =>
    rw [hfree, some.injEq] at hstep
    exact ⟨F, hstep ▸ h⟩
  | some b =>
    have hsame := same_free hfree
    rw [hfree, some.injEq] at hstep
    subst hstep
    obtain ⟨n, hnode, hF, heq, hkeeps⟩ := h.keeps.free h.sound box.toNat_lt hfree
    have hheld : box.toNat ∈ s.held := heq ▸ (h.held_iff hnode).mpr hF
    have hpos := length_pos_of_mem hheld
    refine ⟨n :: F, hsame.sound h.sound, hkeeps, ?_, ?_⟩
    · rw [nodeAt_of_same hsame, hsame.num, map_cons, ← heq]
      exact (perm_middle.symm.trans ((perm_cons_erase hheld).symm.append_left _)).trans h.part
    have hcnt : b.blkCnt = (s.box.blkCnt + 2 ^ 32 - 1) % 2 ^ 32 := by
      unfold free at hfree
      split_ifs at hfree
      dsimp only at hfree
      split_ifs at hfree
      rw [← some.inj hfree]
    have hlen := h.length_le
    have hlt := h.sound.blkNum_lt
    rw [length_erase_of_mem hheld, hcnt, h.count]
    omega

/-- What a task writes into its block changes no first word. -/
theorem write (addr word : UInt32) (hstep : s.step (.write addr word) = some s') : Pooled s' F := by
  simp only [step] at hstep
  split_ifs at hstep with hw
  obtain ⟨box, hbox, hlow, hup⟩ := hw
  obtain ⟨n, hn, rfl⟩ := h.node_of_held hbox
  rw [h.sound.userAddr hn] at hlow hup
  have hout : ∀ m, s.box.IsNode m → m ≠ addr.toNat := by
    rintro m hm rfl
    refine not_node_of_user hn ?_ ?_ hm <;> unfold memboxNodeHeadSize at * <;> omega
  obtain rfl := some.inj hstep
  have hword : ∀ m, s.box.IsNode m →
      Function.update s.box.pstNext addr.toNat word.toNat m = s.box.pstNext m := fun m hm =>
    Function.update_of_ne (hout m hm) _ _
  refine ⟨⟨h.sound.head, h.sound.size, h.sound.fits, h.sound.clear⟩,
    ⟨h.keeps.chain.congr fun m hm => hword m (h.keeps.nodes m hm), h.keeps.nodup, h.keeps.nodes,
      fun m hm hF => ?_⟩, h.part, h.count⟩
  dsimp only
  rw [hword m hm]
  exact h.keeps.taken m hm hF

theorem step (hstep : s.step op = some s') : ∃ F', Pooled s' F' := by
  cases op with
  | alloc t => exact h.alloc t hstep
  | free box => exact h.free box hstep
  | write addr word => exact ⟨F, h.write addr word hstep⟩

/-- `LOS_MemboxFree` takes back exactly what is held. -/
theorem free_iff (box : UInt32) : (s.box.free box.toNat).isSome = true ↔ box.toNat ∈ s.held := by
  constructor
  · intro hsome
    obtain ⟨b, hfree⟩ := isSome_iff_exists.mp hsome
    obtain ⟨n, hnode, hF, heq, -⟩ := h.keeps.free h.sound box.toNat_lt hfree
    exact heq ▸ (h.held_iff hnode).mpr hF
  intro hheld
  obtain ⟨n, hnode, heq⟩ := h.node_of_held hheld
  have hF : n ∉ F := (h.held_iff hnode).mp (heq ▸ hheld)
  have hne : box.toNat ≠ 0 := heq ▸ h.sound.userAddr_ne_zero hnode
  have hlt := (h.sound.node_lt hnode).2
  have hcheck := (h.keeps.checkBoxMem_iff h.sound (by omega)).mpr ⟨hnode, hF⟩
  unfold Membox.free
  rw [if_neg hne, heq, h.sound.nodeAddr_userAddr hnode]
  dsimp only
  rw [hcheck]
  rfl

theorem alloc_null_iff (t : Nat) : (s.box.alloc t).2 = 0 ↔ F = [] := by
  constructor
  · intro hnull
    by_cases h0 : s.box.freeList = 0
    · exact Chain.nil_of_zero (h0 ▸ h.keeps.chain)
    · obtain ⟨F', rfl, -⟩ := h.keeps.chain.first h0
      rw [Membox.alloc, if_pos h0] at hnull
      exact absurd hnull (h.sound.userAddr_ne_zero (h.keeps.nodes _ mem_cons_self))
  · rintro rfl
    have h0 : s.box.freeList = 0 := h.keeps.chain
    rw [(h.keeps.alloc_null h0).2]

end

end PoolState.Pooled

/-- A new pool, away from the addresses that read as magic numbers. -/
theorem pooled_init {pool poolSize blkSize : Nat} {m : Nat → Nat} {box : Membox}
    (hinit : init pool poolSize blkSize m = some box) (harea : pool + poolSize < 2 ^ 32)
    (havoid : ∀ a, pool ≤ a → a < pool + poolSize → a < 0xa55a5a00 ∨ 0xa55a5aff < a) :
    Pooled ⟨box, []⟩ ((List.range box.blkNum).map box.nodeAt) := by
  have hcnt : box.blkCnt = 0 ∧ box.pool = pool ∧
      box.pool + memboxInfoSize + box.blkNum * box.blkSize ≤ pool + poolSize ∧ 0 < box.blkSize := by
    unfold init at hinit
    split_ifs at hinit with hpool hblk hsmall
    dsimp only at hinit
    split_ifs at hinit with hsize hnum
    obtain rfl := some.inj hinit
    have hmul := div_mul_le_self (poolSize - memboxInfoSize)
      (memboxAligned ((blkSize + memboxNodeHeadSize) % 2 ^ 32))
    refine ⟨rfl, rfl, ?_, Nat.pos_of_ne_zero hsize⟩
    dsimp only
    omega
  obtain ⟨hzero, hpool, hend, hpos⟩ := hcnt
  obtain ⟨hsound, hkeeps⟩ := init_keeps hinit harea fun n hn => by
    by_contra hmagic
    obtain ⟨hlow, hup⟩ := magic_range (by simpa using hmagic)
    obtain ⟨i, hi, rfl⟩ := hn
    have hlast : (i + 1) * box.blkSize ≤ box.blkNum * box.blkSize := mul_le_mul_right _ hi
    rw [succ_mul] at hlast
    have := havoid (box.nodeAt i) (by unfold nodeAt; omega) (by unfold nodeAt; omega)
    omega
  refine ⟨hsound, hkeeps, ?_, hzero⟩
  rw [append_nil, List.map_map]
  exact Perm.refl _

/-- **The free list and the held blocks partition the pool, and only held blocks can be freed.** -/
theorem membox_partition {pool poolSize blkSize : Nat} {m : Nat → Nat} {box : Membox}
    (hinit : init pool poolSize blkSize m = some box) (harea : pool + poolSize < 2 ^ 32)
    (havoid : ∀ a, pool ≤ a → a < pool + poolSize → a < 0xa55a5a00 ∨ 0xa55a5aff < a)
    {run : List PoolOp} {s : PoolState} (hrun : exec PoolState.step ⟨box, []⟩ run = some s) :
    ∃ F, Chain s.box.pstNext s.box.freeList F ∧ F.Nodup ∧ (F.map memboxUserAddr ++ s.held).Perm
        ((range s.box.blkNum).map fun i => memboxUserAddr (s.box.nodeAt i)) ∧
      s.box.blkCnt = s.held.length ∧ (∀ t, (s.box.alloc t).2 = 0 ↔ F = []) ∧
      ∀ ptr : UInt32, ((s.box.free ptr.toNat).isSome = true ↔ ptr.toNat ∈ s.held) ∧
        (ptr.toNat ∉ s.held → s.step (.free ptr) = some s) := by
  have hstart : ∃ F, Pooled ⟨box, []⟩ F := ⟨_, pooled_init hinit harea havoid⟩
  have hkept : ∀ (s : PoolState) op s', (∃ F, Pooled s F) → s.step op = some s' → ∃ F, Pooled s' F :=
    fun _ _ _ ⟨_, h⟩ hstep => h.step hstep
  obtain ⟨F, h⟩ := exec_inv hkept hstart hrun
  refine ⟨F, h.keeps.chain, h.keeps.nodup, h.part, h.count, h.alloc_null_iff, fun ptr =>
    ⟨h.free_iff ptr, fun hnot => ?_⟩⟩
  have hnone : s.box.free ptr.toNat = none := by
    rwa [← not_isSome_iff_eq_none, h.free_iff]
  simp only [PoolState.step]
  rw [hnone]

/-- Task 1 takes the first of two blocks and writes into it, task 2 takes the other one, and a third
request fails; the first block is freed twice, and so is a pointer into it. -/
def twoBlocksRun : List PoolOp :=
  [.alloc 1, .write 0x1014 0xa55a5a01, .alloc 2, .alloc 3, .free 0x1014, .free 0x1014, .free 0x1018]

theorem membox_partition_twoBlocks : ∃ box s F, init 0x1000 32 4 (fun _ => 0) = some box ∧
      exec PoolState.step ⟨box, []⟩ twoBlocksRun = some s ∧ s.held = [0x101c] ∧
      Chain s.box.pstNext s.box.freeList F ∧ F.Nodup ∧ s.box.blkCnt = 1 ∧
      s.step (.free 0x1014) = some s := by
  obtain ⟨box, hbox⟩ : ∃ box, init 0x1000 32 4 (fun _ => 0) = some box := ⟨_, rfl⟩
  obtain ⟨s, hs, hheld⟩ : ∃ s, ((init 0x1000 32 4 (fun _ => 0)).bind fun box =>
      exec PoolState.step ⟨box, []⟩ twoBlocksRun) = some s ∧ s.held = [0x101c] := by
    decide +kernel
  rw [hbox, bind_some] at hs
  obtain ⟨F, hchain, hnodup, -, hcount, -, hfree⟩ :=
    membox_partition hbox (by decide) (fun a _ _ => by omega) hs
  rw [hheld] at hcount hfree
  exact ⟨box, s, F, hbox, hs, hheld, hchain, hnodup, hcount, (hfree 0x1014).2 (by decide)⟩

end LiteosM.Kernel
