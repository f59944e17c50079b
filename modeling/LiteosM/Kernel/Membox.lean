import LiteosM.Lib.Chain
import LiteosM.Kernel.Data

/-!
# Pools of blocks of one size

`los_membox.c`: a pool is a header, then blocks that each start with one word (`LOS_MEMBOX_NODE`).
The word of a free block is the address of the next free one; the word of an allocated block is a
magic number with the ID of the task that was running, and `LOS_MemboxFree` takes back nothing
else. Addresses are 32-bit numbers. The list of all pools (`OsMemBoxAdd`) is compiled only with
`LOSCFG_PLATFORM_EXC`, which is off, and `LOS_MemboxClr` writes only the caller's part of a block.

* `Membox.init_keeps`: a new pool has every block in its free list;
* `Membox.Keeps.alloc`, `Membox.Keeps.free`: what the two calls do to that list;
* **`Membox.init_sound_iff`**: for which sizes a new pool is divided as it should be.
-/

namespace LiteosM.Kernel

open LiteosM.Lib Function Option Nat

/-! ## The source -/

/-- `sizeof(LOS_MEMBOX_INFO)`. -/
def memboxInfoSize : Nat := 16

/-- `OS_MEMBOX_NODE_HEAD_SIZE`. -/
def memboxNodeHeadSize : Nat := 4

/-- `OS_MEMBOX_MAGIC`. -/
def memboxMagic : Nat := 0xa55a5a00

/-- `LOS_MEMBOX_INFO` of the pool at address `pool`, and the first words of its blocks. -/
structure Membox where
  pool : Nat
  blkSize : Nat
  blkNum : Nat
  blkCnt : Nat
  /-- `stFreeList.pstNext`. -/
  freeList : Nat
  pstNext : Nat → Nat

/-- `LOS_MEMBOX_ALIGNED`. -/
def memboxAligned (memAddr : Nat) : Nat := (memAddr + 3) % 2 ^ 32 / 4 * 4

/-- `OS_MEMBOX_USER_ADDR`. -/
def memboxUserAddr (addr : Nat) : Nat := (addr + memboxNodeHeadSize) % 2 ^ 32

/-- `OS_MEMBOX_NODE_ADDR`. -/
def memboxNodeAddr (addr : Nat) : Nat := (addr + 2 ^ 32 - memboxNodeHeadSize) % 2 ^ 32

/-- The loop of `LOS_MemboxInit`, with `n` rounds to go, and the word of the last node. -/
def memboxLink (blkSize : Nat) : Nat → (Nat → Nat) → Nat → Nat → Nat
  | 0, m, node => update m node 0
  | n + 1, m, node => memboxLink blkSize n (update m node (node + blkSize)) (node + blkSize)

/-- What `OsMemBoxSetMagic` writes for the running task. -/
def memboxSetMagic (taskID : Nat) : Nat := memboxMagic ||| taskID % 2 ^ 8

/-- `OsMemBoxCheckMagic` of a word. -/
def memboxCheckMagic (word : Nat) : Bool :=
  let taskID := word &&& 255
  if taskID > taskMaxNum then false else word == memboxMagic ||| taskID

namespace Membox

/-- `LOS_MemboxInit`: `none` for `LOS_NOK`, and where a size that wraps to 0 makes the division
trap. -/
def init (pool poolSize blkSize : Nat) (m : Nat → Nat) : Option Membox :=
  if pool = 0 then none
  else if blkSize = 0 then none
  else if poolSize < memboxInfoSize then none
  else
    let size := memboxAligned ((blkSize + memboxNodeHeadSize) % 2 ^ 32)
    if size = 0 then none
    else
      let num := (poolSize - memboxInfoSize) / size
      if num = 0 then none
      else
        let node := pool + memboxInfoSize
        some ⟨pool, size, num, 0, node, memboxLink size (num - 1) m node⟩

variable (b : Membox)

/-- `LOS_MemboxAlloc`, called while the task `taskID` runs: the block's address, or null. -/
def alloc (taskID : Nat) : Membox × Nat :=
  if b.freeList ≠ 0 then
    let nodeTmp := b.freeList
    ({ b with
        freeList := b.pstNext nodeTmp
        pstNext := update b.pstNext nodeTmp (memboxSetMagic taskID)
        blkCnt := (b.blkCnt + 1) % 2 ^ 32 },
      memboxUserAddr nodeTmp)
  else (b, 0)

/-- `OsCheckBoxMem`. -/
def checkBoxMem (node : Nat) : Bool :=
  if b.blkSize = 0 then false
  else
    let offset := (node + 2 ^ 32 - (b.pool + memboxInfoSize)) % 2 ^ 32
    if offset % b.blkSize ≠ 0 then false
    else if offset / b.blkSize ≥ b.blkNum then false
    else memboxCheckMagic (b.pstNext node)

/-- `LOS_MemboxFree`; `none` is `LOS_NOK`, with the pool as it was. -/
def free (box : Nat) : Option Membox :=
  if box = 0 then none
  else
    let node := memboxNodeAddr box
    if !b.checkBoxMem node then none
    else
      some { b with
          pstNext := update b.pstNext node b.freeList
          freeList := node
          blkCnt := (b.blkCnt + 2 ^ 32 - 1) % 2 ^ 32 }

/-! ## The blocks -/

/-- The address of a block, where its first word is. -/
def nodeAt (i : Nat) : Nat := b.pool + memboxInfoSize + i * b.blkSize

/-- `n` is the address of a block's node. -/
def IsNode (n : Nat) : Prop := ∃ i < b.blkNum, n = b.nodeAt i

/-- A pool that lies in the address space, away from the addresses that read as magic numbers. -/
structure Sound : Prop where
  head : 0 < b.pool
  size : memboxNodeHeadSize ≤ b.blkSize
  fits : b.pool + memboxInfoSize + b.blkNum * b.blkSize < 2 ^ 32
  clear : ∀ n, b.IsNode n → memboxCheckMagic n = false

/-- `free` are the blocks of the free list, in its order; every other block carries the magic
number. -/
structure Keeps (free : List Nat) : Prop where
  chain : Chain b.pstNext b.freeList free
  nodup : free.Nodup
  nodes : ∀ n ∈ free, b.IsNode n
  taken : ∀ n, b.IsNode n → n ∉ free → memboxCheckMagic (b.pstNext n) = true

end Membox

variable {b b' : Membox} {F : List Nat} {n t : Nat}

theorem memboxCheckMagic_setMagic (ht : t ≤ taskMaxNum) :
    memboxCheckMagic (memboxSetMagic t) = true := by
  have hall : ∀ t ∈ List.range 26, memboxCheckMagic (memboxSetMagic t) = true := by decide
  exact hall t (List.mem_range.mpr (lt_succ_of_le ht))

theorem memboxCheckMagic_zero : memboxCheckMagic 0 = false := by decide

theorem memboxLink_frame {size m : Nat} {w : Nat → Nat} {a : Nat} (hm : m < a) (n : Nat) :
    memboxLink size n w a m = w m := by
  induction n generalizing w a with
  | zero => exact update_of_ne (Nat.ne_of_lt hm) 0 w
  | succ n ih =>
    rw [memboxLink, ih (lt_of_lt_of_le hm (le_add_right a size)),
      update_of_ne (Nat.ne_of_lt hm)]

/-- The loop links the nodes in the order of their addresses. -/
theorem chain_memboxLink {size : Nat} (hs : 0 < size) (w : Nat → Nat) {a : Nat} (ha : 0 < a) (n : Nat) :
    Chain (memboxLink size n w a) a ((List.range (n + 1)).map fun i => a + i * size) := by
  induction n generalizing w a with
  | zero =>
    refine ⟨by simp, ?_⟩
    simpa [memboxLink, Chain] using Nat.pos_iff_ne_zero.mp ha
  | succ n ih =>
    have hrest : (List.range (n + 1)).map ((fun i => a + i * size) ∘ succ) =
        (List.range (n + 1)).map fun i => a + size + i * size := by
      refine List.map_congr_left fun i _ => ?_
      simp only [comp_apply, succ_mul]
      omega
    rw [List.range_succ_eq_map, List.map_cons, List.map_map, hrest]
    refine ⟨by simp, by simpa using Nat.pos_iff_ne_zero.mp ha, ?_⟩
    have hnext : memboxLink size (n + 1) w a a = a + size := by
      rw [memboxLink, memboxLink_frame (Nat.lt_add_of_pos_right hs), update_self]
    simp only [Nat.zero_mul, Nat.add_zero]
    rw [hnext]
    exact ih _ (Nat.add_pos_left ha size)

namespace Membox

section
variable (hb : b.Sound)
include hb

theorem Sound.pos : 0 < b.blkSize := lt_of_lt_of_le (by decide) hb.size

section
variable (hn : b.IsNode n)
include hn

theorem Sound.node_lt : 0 < n ∧ n + memboxNodeHeadSize < 2 ^ 32 := by
  obtain ⟨i, hi, rfl⟩ := hn
  have hlast : (i + 1) * b.blkSize ≤ b.blkNum * b.blkSize := mul_le_mul_right _ hi
  have hfits := hb.fits
  have hsize := hb.size
  rw [succ_mul] at hlast
  simp only [nodeAt, memboxInfoSize] at *
  omega

theorem Sound.userAddr : memboxUserAddr n = n + memboxNodeHeadSize :=
  mod_eq_of_lt (hb.node_lt hn).2

theorem Sound.userAddr_inj {m : Nat} (hm : b.IsNode m)
    (h : memboxUserAddr n = memboxUserAddr m) : n = m := by
  rw [hb.userAddr hn, hb.userAddr hm] at h
  exact add_right_cancel h

theorem Sound.userAddr_ne_zero : memboxUserAddr n ≠ 0 := by
  rw [hb.userAddr hn]
  exact Nat.succ_ne_zero _

theorem Sound.nodeAddr_userAddr : memboxNodeAddr (memboxUserAddr n) = n := by
  have hlt := (hb.node_lt hn).2
  rw [hb.userAddr hn]
  simp only [memboxNodeAddr] at *
  omega

end

/-- An address whose node is `n` is the address of `n`'s block. -/
theorem Sound.eq_userAddr {box : Nat} (hbox : box < 2 ^ 32)
    (hn : b.IsNode (memboxNodeAddr box)) : box = memboxUserAddr (memboxNodeAddr box) := by
  have hlt := (hb.node_lt hn).2
  rw [hb.userAddr hn]
  simp only [memboxNodeAddr] at *
  omega

/-- The check accepts exactly the blocks with the magic number. -/
theorem Sound.checkBoxMem_iff (hn : n < 2 ^ 32) :
    b.checkBoxMem n = true ↔ b.IsNode n ∧ memboxCheckMagic (b.pstNext n) = true := by
  have hpos := hb.pos
  have hfits := hb.fits
  unfold checkBoxMem
  rw [if_neg (Nat.pos_iff_ne_zero.mp hpos)]
  dsimp only
  generalize hoff : (n + 2 ^ 32 - (b.pool + memboxInfoSize)) % 2 ^ 32 = offset
  constructor
  · intro h
    split_ifs at h with hmod hdiv
    have hmod : offset % b.blkSize = 0 := by simpa using hmod
    have hlt : offset / b.blkSize < b.blkNum := Nat.lt_of_not_le hdiv
    have hoffset : offset / b.blkSize * b.blkSize = offset := Nat.div_mul_cancel (Nat.dvd_of_mod_eq_zero hmod)
    have hbound : offset / b.blkSize * b.blkSize ≤ b.blkNum * b.blkSize :=
      mul_le_mul_right _ (le_of_lt hlt)
    refine ⟨⟨offset / b.blkSize, hlt, ?_⟩, h⟩
    -- a difference that wrapped would lie beyond the pool
    rw [nodeAt]
    omega
  rintro ⟨⟨i, hi, rfl⟩, hmagic⟩
  have hlast : i * b.blkSize ≤ b.blkNum * b.blkSize := mul_le_mul_right _ (le_of_lt hi)
  have hoffset : offset = i * b.blkSize := by
    rw [nodeAt] at hoff
    omega
  rwa [hoffset, Nat.mul_div_cancel _ hpos, if_neg (by simp), if_neg (Nat.not_le.mpr hi)]

end

/-- The word of a free block is no magic number. -/
theorem Keeps.magic_of_free (h : b.Keeps F) (hb : b.Sound) (hn : n ∈ F) :
    memboxCheckMagic (b.pstNext n) = false := by
  rcases h.chain.next_mem hn with h0 | hm
  · rw [h0]
    exact memboxCheckMagic_zero
  · exact hb.clear _ (h.nodes _ hm)

theorem Keeps.checkBoxMem_iff (h : b.Keeps F) (hb : b.Sound) (hn : n < 2 ^ 32) :
    b.checkBoxMem n = true ↔ b.IsNode n ∧ n ∉ F := by
  rw [hb.checkBoxMem_iff hn]
  refine and_congr_right fun hnode => ⟨fun hmagic hF => ?_, h.taken n hnode⟩
  rw [h.magic_of_free hb hF] at hmagic
  exact Bool.false_ne_true hmagic

/-- A new pool has every block in its free list. -/
theorem init_keeps {pool poolSize blkSize : Nat} {m : Nat → Nat}
    (hinit : init pool poolSize blkSize m = some b) (harea : pool + poolSize < 2 ^ 32)
    (hclear : ∀ n, b.IsNode n → memboxCheckMagic n = false) :
    b.Sound ∧ b.Keeps ((List.range b.blkNum).map b.nodeAt) := by
  unfold init at hinit
  split_ifs at hinit with hpool hblk hsmall
  dsimp only at hinit
  split_ifs at hinit with hsize hnum
  cases hinit
  generalize hs : memboxAligned ((blkSize + memboxNodeHeadSize) % 2 ^ 32) = size at *
  have hfour : 4 ≤ size := by
    rw [memboxAligned] at hs
    omega
  have hmul : (poolSize - memboxInfoSize) / size * size ≤ poolSize - memboxInfoSize := div_mul_le_self _ _
  have hfits : pool + memboxInfoSize + (poolSize - memboxInfoSize) / size * size < 2 ^ 32 := by omega
  generalize hk : (poolSize - memboxInfoSize) / size = num at *
  have hsound : Sound ⟨pool, size, num, 0, pool + memboxInfoSize,
      memboxLink size (num - 1) m (pool + memboxInfoSize)⟩ :=
    ⟨Nat.pos_of_ne_zero hpool, hfour, hfits, hclear⟩
  refine ⟨hsound, ?_, ?_, ?_, ?_⟩
  · have hchain := chain_memboxLink (lt_of_lt_of_le (by decide) hfour) m
      (Nat.add_pos_right pool (by decide : 0 < memboxInfoSize)) (num - 1)
    rwa [Nat.sub_add_cancel (Nat.pos_of_ne_zero hnum)] at hchain
  · refine List.Nodup.map (fun i j hij => ?_) List.nodup_range
    exact eq_of_mul_eq_mul_right hsound.pos (add_left_cancel hij)
  · intro n hn
    obtain ⟨i, hi, rfl⟩ := List.mem_map.mp hn
    exact ⟨i, List.mem_range.mp hi, rfl⟩
  · rintro n ⟨i, hi, rfl⟩ hn
    exact absurd (List.mem_map.mpr ⟨i, List.mem_range.mpr hi, rfl⟩) hn

/-- The pools have their blocks at the same addresses. -/
structure Same (b b' : Membox) : Prop where
  pool : b'.pool = b.pool
  size : b'.blkSize = b.blkSize
  num : b'.blkNum = b.blkNum

theorem Same.isNode (h : Same b b') : b'.IsNode n ↔ b.IsNode n := by
  unfold IsNode nodeAt
  rw [h.pool, h.size, h.num]

theorem Same.sound (h : Same b b') (hb : b.Sound) : b'.Sound := by
  refine ⟨h.pool ▸ hb.head, h.size ▸ hb.size, ?_, fun n hn => hb.clear n (h.isNode.mp hn)⟩
  rw [h.pool, h.size, h.num]
  exact hb.fits

theorem same_alloc (b : Membox) (t : Nat) : Same b (b.alloc t).1 := by
  unfold alloc
  split_ifs <;> exact ⟨rfl, rfl, rfl⟩

theorem same_free {box : Nat} (hfree : b.free box = some b') : Same b b' := by
  unfold free at hfree
  split_ifs at hfree
  dsimp only at hfree
  split_ifs at hfree
  cases hfree
  exact ⟨rfl, rfl, rfl⟩

/-- The first free block is handed out. -/
theorem Keeps.alloc (h : b.Keeps F) (ht : t ≤ taskMaxNum) (h0 : b.freeList ≠ 0) :
    ∃ F', F = b.freeList :: F' ∧ (b.alloc t).2 = memboxUserAddr b.freeList ∧ (b.alloc t).1.Keeps F' := by
  obtain ⟨F', rfl, hchain⟩ := h.chain.first h0
  obtain ⟨hfirst, hnodup⟩ := List.nodup_cons.mp h.nodup
  have hsame := same_alloc b t
  refine ⟨F', rfl, ?_, ?_⟩ <;> rw [alloc, if_pos h0] at *
  refine ⟨hchain.write hfirst _, hnodup,
    fun n hn => hsame.isNode.mpr (h.nodes n (List.mem_cons_of_mem _ hn)), ?_⟩
  intro n hn hF
  by_cases hne : n = b.freeList
  · subst hne
    simpa using memboxCheckMagic_setMagic ht
  simp only [update_of_ne hne]
  refine h.taken n hn fun hmem => ?_
  rcases List.mem_cons.mp hmem with rfl | hmem
  · exact hne rfl
  · exact hF hmem

theorem Keeps.alloc_null (h : b.Keeps F) (h0 : b.freeList = 0) : F = [] ∧ b.alloc t = (b, 0) := by
  refine ⟨Chain.nil_of_zero (h0 ▸ h.chain), ?_⟩
  rw [Membox.alloc, if_neg (not_not.mpr h0)]

/-- A block is taken back when it is not in the free list, and nothing else is. -/
theorem Keeps.free (h : b.Keeps F) (hb : b.Sound) {box : Nat} (hbox : box < 2 ^ 32)
    (hfree : b.free box = some b') :
    ∃ n, b.IsNode n ∧ n ∉ F ∧ box = memboxUserAddr n ∧ b'.Keeps (n :: F) := by
  have hsame := same_free hfree
  unfold Membox.free at hfree
  split_ifs at hfree with h0
  dsimp only at hfree
  split_ifs at hfree with hcheck
  have hcheck : b.checkBoxMem (memboxNodeAddr box) = true := by simpa using hcheck
  have hlt : memboxNodeAddr box < 2 ^ 32 := mod_lt _ (Nat.two_pow_pos 32)
  obtain ⟨hnode, hF⟩ := (h.checkBoxMem_iff hb hlt).mp hcheck
  have heq := hb.eq_userAddr hbox hnode
  generalize memboxNodeAddr box = node at hfree hnode hF heq
  cases hfree
  refine ⟨node, hnode, hF, heq, ?_, List.nodup_cons.mpr ⟨hF, h.nodup⟩, ?_, ?_⟩
  · exact h.chain.push hF (Nat.pos_iff_ne_zero.mp (hb.node_lt hnode).1)
  · intro n hn
    rcases List.mem_cons.mp hn with rfl | hn
    · exact hsame.isNode.mpr hnode
    · exact hsame.isNode.mpr (h.nodes n hn)
  intro n hn hmem
  rw [hsame.isNode] at hn
  rw [List.mem_cons, not_or] at hmem
  obtain ⟨hne, hF'⟩ := hmem
  simp only [update_of_ne hne]
  exact h.taken n hn hF'

/-! ## The blocks of a new pool -/

/-- What `LOS_MemboxInit` divides by, if it comes to its division. -/
def initDivisor (pool poolSize blkSize : Nat) : Option Nat :=
  if pool = 0 ∨ blkSize = 0 ∨ poolSize < memboxInfoSize then none
  else some (memboxAligned ((blkSize + memboxNodeHeadSize) % 2 ^ 32))

/-- The blocks are one behind the other, between the header and the end of the area, and each has
room for `blkSize` bytes behind its first word. -/
structure Divided (b : Membox) (pool poolSize blkSize : Nat) : Prop where
  some_block : 1 ≤ b.blkNum
  disjoint : ∀ i < b.blkNum, ∀ j < b.blkNum, i < j → b.nodeAt i + b.blkSize ≤ b.nodeAt j
  inside : ∀ i < b.blkNum,
    pool + memboxInfoSize ≤ b.nodeAt i ∧ b.nodeAt i + b.blkSize ≤ pool + poolSize
  usable : memboxNodeHeadSize + blkSize ≤ b.blkSize

theorem memboxAligned_eq {blkSize : Nat} (h : blkSize < 2 ^ 32) :
    memboxAligned ((blkSize + memboxNodeHeadSize) % 2 ^ 32) =
      if blkSize ≤ 2 ^ 32 - 8 then (blkSize + 7) / 4 * 4 else if blkSize ≤ 2 ^ 32 - 4 then 0 else 4 := by
  simp only [memboxAligned, memboxNodeHeadSize]
  split_ifs <;> omega

/-- The blocks fill the area as far as whole blocks go, whatever their size. -/
theorem init_divided {pool poolSize blkSize : Nat} {m : Nat → Nat} (h : blkSize ≤ 2 ^ 32 - 8)
    (hinit : init pool poolSize blkSize m = some b) : b.Divided pool poolSize blkSize := by
  have hsize := memboxAligned_eq (lt_of_le_of_lt h (by decide))
  unfold init at hinit
  split_ifs at hinit with hpool hblk hsmall
  rw [hsize] at hinit
  dsimp only at hinit
  split_ifs at hinit with hzero hnum
  cases hinit
  have hmul := div_mul_le_self (poolSize - memboxInfoSize) ((blkSize + 7) / 4 * 4)
  have hnext : ∀ {i j : Nat}, i < j → (i + 1) * ((blkSize + 7) / 4 * 4) ≤ j * ((blkSize + 7) / 4 * 4) :=
    fun hij => mul_le_mul_right _ hij
  refine ⟨Nat.pos_of_ne_zero hnum, fun i _ j _ hij => ?_, fun i hi => ?_, ?_⟩
  · have := hnext hij
    simp only [nodeAt, succ_mul] at this ⊢
    omega
  · have := hnext hi
    simp only [nodeAt, succ_mul] at this ⊢
    omega
  · simp only [memboxNodeHeadSize]
    omega

/-- `LOS_MemboxInit` divides the area as it should unless the block size wraps: near `2 ^ 32` it
becomes 0 or the size of a bare header. -/
theorem init_sound_iff {pool poolSize blkSize : Nat} (h : blkSize < 2 ^ 32) :
    (initDivisor pool poolSize blkSize ≠ some 0 ∧
      ∀ m b, init pool poolSize blkSize m = some b → b.Divided pool poolSize blkSize) ↔
    (blkSize ≤ 2 ^ 32 - 8 ∨ pool = 0 ∨ poolSize < memboxInfoSize ∨
      (2 ^ 32 - 4 < blkSize ∧ poolSize < memboxInfoSize + memboxNodeHeadSize)) := by
  have hsize := memboxAligned_eq h
  by_cases hsmall : blkSize ≤ 2 ^ 32 - 8
  · refine iff_of_true ⟨?_, fun m b => init_divided hsmall⟩ (.inl hsmall)
    simp only [initDivisor, hsize]
    split_ifs
    · nofun
    · simp only [ne_eq, some.injEq]
      omega
  by_cases hbad : pool = 0 ∨ blkSize = 0 ∨ poolSize < memboxInfoSize
  · refine iff_of_true ⟨by rw [initDivisor, if_pos hbad]; nofun, fun m b hinit => ?_⟩ (by omega)
    unfold init at hinit
    split_ifs at hinit
    omega
  rw [if_neg hsmall] at hsize
  split_ifs at hsize with hzero
  · refine iff_of_false (fun hdiv => hdiv.1 ?_) (by omega)
    rw [initDivisor, if_neg hbad, hsize]
  have hinit : ∀ m, init pool poolSize blkSize m =
      if (poolSize - memboxInfoSize) / 4 = 0 then none
      else some ⟨pool, 4, (poolSize - memboxInfoSize) / 4, 0, pool + memboxInfoSize,
        memboxLink 4 ((poolSize - memboxInfoSize) / 4 - 1) m (pool + memboxInfoSize)⟩ := by
    intro m
    rw [not_or, not_or] at hbad
    rw [init, if_neg hbad.1, if_neg hbad.2.1, if_neg hbad.2.2, hsize]
    rfl
  by_cases hroom : poolSize < memboxInfoSize + memboxNodeHeadSize
  · refine iff_of_true ⟨by rw [initDivisor, if_neg hbad, hsize]; nofun, fun m b hb => ?_⟩ (by omega)
    rw [hinit, if_pos (by simp only [memboxNodeHeadSize] at hroom; omega)] at hb
    cases hb
  refine iff_of_false (fun hdiv => ?_) (by omega)
  have := (hdiv.2 (fun _ => 0) _ (by
    rw [hinit, if_neg (by simp only [memboxNodeHeadSize] at hroom; omega)])).usable
  simp only [memboxNodeHeadSize] at this
  omega

theorem init_sound_iff_eight : 8 < 2 ^ 32 ∧
    ((initDivisor 4096 64 8 ≠ some 0 ∧ ∀ m b, init 4096 64 8 m = some b → b.Divided 4096 64 8) ↔
      (8 ≤ 2 ^ 32 - 8 ∨ 4096 = 0 ∨ 64 < memboxInfoSize ∨
        (2 ^ 32 - 4 < 8 ∧ 64 < memboxInfoSize + memboxNodeHeadSize))) :=
  ⟨by decide, init_sound_iff (by decide)⟩

/-- A block size of `2 ^ 32 - 4` is a division by zero, one of `2 ^ 32 - 1` gives blocks of 4 bytes. -/
theorem init_wraps : initDivisor 4096 64 (2 ^ 32 - 4) = some 0 ∧
    ((init 4096 64 (2 ^ 32 - 1) fun _ => 0).map fun b => (b.blkNum, b.blkSize)) = some (12, 4) := by
  decide +kernel

end Membox

end LiteosM.Kernel
