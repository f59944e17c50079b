import LiteosM.Lib.Bytes
import LiteosM.Lib.Chain
import LiteosM.Kernel.Data
import Mathlib.Data.Nat.Log

/-!
# Heap pools

`los_memoey.c`, over a byte memory: a pool is a head (`struct OsMemPoolHead`, with the heads of its
free lists), then nodes up to an end node of size 0; `g_poolHead` and the `nextPool` words link the
pools. The build has `LOSCFG_MEM_MUL_POOL`, `LOSCFG_MEM_FREE_BY_TASKID` and `LOSCFG_MEM_WATERLINE`
on, and expansion, integrity and leak checks, several regions and LMS off. Addresses are 32-bit
numbers.

* `memPoolInit_eq`: `OsMemPoolInit` clears the head and then carries out the stores `poolStores`;
* `memPoolAddLoop_conflict`, `memPoolAddLoop_end`, `memPoolDeleteLoop_found`,
  `memPoolDeleteLoop_absent`: what the walks through the list of pools find in a chain.
-/

namespace LiteosM.Kernel

open LiteosM.Lib List

/-! ## Layout -/

/-- `sizeof(struct OsMemPoolHead)`. -/
def memPoolHeadSize : Nat := 944

/-- `OS_MEM_NODE_HEAD_SIZE`. -/
def memNodeHeadSize : Nat := 8

/-- `OS_MEM_MIN_POOL_SIZE`. -/
def memMinPoolSize : Nat := memNodeHeadSize + memPoolHeadSize

/-- `OS_MEM_FREE_LIST_COUNT`. -/
def memFreeListCount : Nat := 31 + 24 * 8

/-- `OS_MEM_NODE_USED_FLAG`. -/
def memNodeUsedFlag : Nat := 2 ^ 25

/-- `OS_MEM_NODE_ALIGNED_FLAG`. -/
def memNodeAlignedFlag : Nat := 2 ^ 24

/-- `OS_MEM_FIRST_NODE`. -/
def memFirstNode (pool : Nat) : Nat := pool + memPoolHeadSize

/-- `OS_MEM_END_NODE`. -/
def memEndNode (pool size : Nat) : Nat := pool + size - memNodeHeadSize

/-- `&pool->info.totalSize`. -/
def totalSizeAt (pool : Nat) : Nat := pool + 4

/-- `&pool->info.attr`. -/
def attrAt (pool : Nat) : Nat := pool + 8

/-- `&pool->info.waterLine`. -/
def waterLineAt (pool : Nat) : Nat := pool + 12

/-- `&pool->info.curUsedSize`. -/
def curUsedSizeAt (pool : Nat) : Nat := pool + 16

/-- `&pool->freeListBitmap[index >> 5]`. -/
def freeListBitmapAt (pool index : Nat) : Nat := pool + 20 + 4 * (index / 32)

/-- `&pool->freeList[index]`. -/
def freeListAt (pool index : Nat) : Nat := pool + 48 + 4 * index

/-- `&pool->nextPool`. -/
def nextPoolAt (pool : Nat) : Nat := pool + 940

/-- `pool->nextPool`. -/
def poolNext (m : Memory) (pool : Nat) : Nat := readWord m (nextPoolAt pool)

/-- `node->sizeAndFlag`: the upper 26 bits of the second word of a node, whose lower 6 are the ID of
a task. -/
def sizeAndFlag (m : Memory) (node : Nat) : Nat := readWord m (node + 4) / 64

/-- Writes the upper 26 bits of `sizeAndFlag`. -/
def setSizeAndFlag (m : Memory) (node value : Nat) : Memory :=
  writeWord m (node + 4) (readWord m (node + 4) % 64 + value % 2 ^ 26 * 64)

/-! ## Free lists -/

/-- `OsMemFlGet`. -/
def memFlGet (size : Nat) : Nat :=
  if size < 128 then (size / 4 + (2 ^ 32 - 1)) % 2 ^ 32 else Nat.log2 size - 7 + 31

/-- `OsMemSlGet`. -/
def memSlGet (size fl : Nat) : Nat :=
  if fl < 31 ∨ size < 128 then 0 else size * 8 % 2 ^ 32 / 2 ^ (fl - 31 + 7) - 8

/-- `OsMemFreeListIndexGet`. -/
def memFreeListIndexGet (size : Nat) : Nat :=
  let fl := memFlGet size
  if fl < 31 then fl else (31 + (fl - 31) * 8 + memSlGet size fl) % 2 ^ 32

/-- `OsMemSetFreeListBit`. -/
def memSetFreeListBit (m : Memory) (pool index : Nat) : Memory :=
  writeWord m (freeListBitmapAt pool index)
    (readWord m (freeListBitmapAt pool index) ||| 2 ^ (index % 32))

/-- `OsMemListAdd`. -/
def memListAdd (m : Memory) (pool listIndex node : Nat) : Memory :=
  let firstNode := readWord m (freeListAt pool listIndex)
  let m := if firstNode = 0 then m else writeWord m ((firstNode + 8) % 2 ^ 32) node
  let m := writeWord m (node + 8) 0
  let m := writeWord m (node + 12) firstNode
  let m := writeWord m (freeListAt pool listIndex) node
  memSetFreeListBit m pool listIndex

/-- `OsMemFreeNodeAdd`: `none` for `LOS_Panic`. -/
def memFreeNodeAdd (m : Memory) (pool node : Nat) : Option Memory :=
  let index := memFreeListIndexGet (sizeAndFlag m node)
  if memFreeListCount ≤ index then none else some (memListAdd m pool index node)

/-! ## The list of pools -/

/-- `memset_s(pool, size, 0, sizeof(struct OsMemPoolHead))`, whose result is not looked at. -/
def memPoolDeInit (m : Memory) (pool size : Nat) : Memory :=
  if size ≤ securecMemMaxLen then fillBytes m pool memPoolHeadSize 0 else m

/-- `OsMemPoolInit`. -/
def memPoolInit (m : Memory) (pool size : Nat) : Option Memory := do
  let m := memPoolDeInit m pool size
  let m := writeWord m pool pool
  let m := writeWord m (totalSizeAt pool) size
  let m := writeWord m (attrAt pool) (readWord m (attrAt pool) / 4 * 4)
  let newNode := memFirstNode pool
  let endNode := memEndNode pool size
  let m := setSizeAndFlag m newNode (size - memPoolHeadSize - memNodeHeadSize)
  let m := writeWord m newNode endNode
  let m ← memFreeNodeAdd m pool newNode
  let m := setSizeAndFlag m endNode 0
  let m := writeWord m endNode newNode
  let m := setSizeAndFlag m endNode (sizeAndFlag m endNode ||| memNodeUsedFlag)
  let m := writeWord m (curUsedSizeAt pool) (memPoolHeadSize + memNodeHeadSize)
  some (writeWord m (waterLineAt pool) (readWord m (curUsedSizeAt pool)))

/-- The memory and `g_poolHead`. -/
structure MemState where
  mem : Memory
  poolHead : Nat

/-- The return codes of `los_memoey.c`. -/
inductive MemRet where
  | ok
  | nok
  deriving DecidableEq, Repr

/-- The conflict test of `OsMemPoolAdd`, against the pool at `next`. -/
def memConflict (m : Memory) (pool size next : Nat) : Bool :=
  let poolEnd := (next + readWord m (totalSizeAt next)) % 2 ^ 32
  let end' := (pool + size) % 2 ^ 32
  (pool ≤ next && next < end') || (pool < poolEnd && poolEnd ≤ end')

/-- The loop of `OsMemPoolAdd` from `nextPool`: the last pool, or `nok` for a conflict. The loop goes
on for ever where the list has a cycle; `none` stands for that, and for fuel too small to reach the
end. -/
def memPoolAddLoop (m : Memory) (pool size : Nat) : Nat → Nat → Nat → Option (MemRet × Nat)
  | 0, _, _ => none
  | fuel + 1, curPool, nextPool =>
    if nextPool = 0 then some (.ok, curPool)
    else if memConflict m pool size nextPool then some (.nok, curPool)
    else memPoolAddLoop m pool size fuel nextPool (poolNext m nextPool)

/-- `OsMemPoolAdd`. Every pool of a list without a cycle has its own address, so `2 ^ 32` rounds are
enough. -/
def memPoolAdd (s : MemState) (pool size : Nat) : Option (MemState × MemRet) := do
  let (ret, curPool) ← memPoolAddLoop s.mem pool size (2 ^ 32) s.poolHead s.poolHead
  match ret with
  | .nok => some (s, .nok)
  | .ok =>
    let s := if s.poolHead = 0 then { s with poolHead := pool }
      else { s with mem := writeWord s.mem (nextPoolAt curPool) pool }
    some ({ s with mem := writeWord s.mem (nextPoolAt pool) 0 }, .ok)

/-- The loop of `OsMemPoolDelete`. -/
def memPoolDeleteLoop (m : Memory) (pool : Nat) : Nat → Nat → Nat → Option (Memory × MemRet)
  | 0, _, _ => none
  | fuel + 1, curPool, nextPool =>
    if nextPool = 0 then some (m, .nok)
    else if pool = nextPool then
      some (writeWord m (nextPoolAt curPool) (poolNext m nextPool), .ok)
    else memPoolDeleteLoop m pool fuel nextPool (poolNext m nextPool)

/-- `OsMemPoolDelete`. -/
def memPoolDelete (s : MemState) (pool : Nat) : Option (MemState × MemRet) :=
  if pool = s.poolHead then
    some ({ s with poolHead := poolNext s.mem s.poolHead }, .ok)
  else do
    let (m, ret) ← memPoolDeleteLoop s.mem pool (2 ^ 32) s.poolHead s.poolHead
    some ({ s with mem := m }, ret)

/-- The checks of `LOS_MemInit` on its arguments. -/
def memInitChecks (pool size : Nat) : Bool :=
  pool ≠ 0 && memMinPoolSize < size && pool % 4 = 0 && size % 4 = 0

/-- `LOS_MemInit`: `none` where it does not return. -/
def memInit (s : MemState) (pool size : Nat) : Option (MemState × MemRet) :=
  if memInitChecks pool size then do
    let m ← memPoolInit s.mem pool size
    let (s, ret) ← memPoolAdd { s with mem := m } pool size
    match ret with
    | .nok => some ({ s with mem := memPoolDeInit s.mem pool size }, .nok)
    | .ok => some (s, .ok)
  else some (s, .nok)

/-- `LOS_MemDeInit`. -/
def memDeInit (s : MemState) (pool : Nat) : Option (MemState × MemRet) :=
  if pool = 0 then some (s, .nok)
  else if readWord s.mem pool ≠ pool ∨ readWord s.mem (totalSizeAt pool) ≤ memMinPoolSize then
    some (s, .nok)
  else do
    let (s, ret) ← memPoolDelete s pool
    match ret with
    | .nok => some (s, .nok)
    | .ok =>
      some ({ s with mem := memPoolDeInit s.mem pool (readWord s.mem (totalSizeAt pool)) }, .ok)

/-! ## The stores of `OsMemPoolInit` -/

/-- The free list of the one free node of a new pool. -/
def newPoolIndex (size : Nat) : Nat := memFreeListIndexGet ((size - memMinPoolSize) % 2 ^ 26)

/-- What `OsMemPoolInit` stores for the head of a pool and its first node. -/
def infoStores (m : Memory) (pool size : Nat) : List (Nat × Nat) :=
  let newNode := memFirstNode pool
  [(pool, pool), (totalSizeAt pool, size), (attrAt pool, readWord m (attrAt pool) / 4 * 4),
    (newNode + 4, readWord m (newNode + 4) % 64 + (size - memMinPoolSize) % 2 ^ 26 * 64),
    (newNode, memEndNode pool size)]

/-- What `OsMemListAdd` stores. -/
def listAddStores (m : Memory) (pool index node : Nat) : List (Nat × Nat) :=
  let firstNode := readWord m (freeListAt pool index)
  let stores := (if firstNode = 0 then [] else [((firstNode + 8) % 2 ^ 32, node)]) ++
    [(node + 8, 0), (node + 12, firstNode), (freeListAt pool index, node)]
  stores ++ [(freeListBitmapAt pool index,
    readWord (applyStores m stores) (freeListBitmapAt pool index) ||| 2 ^ (index % 32))]

/-- What `OsMemPoolInit` stores for the end node, and for the water line. -/
def endStores (m : Memory) (pool size : Nat) : List (Nat × Nat) :=
  let endNode := memEndNode pool size
  let taskID := readWord m (endNode + 4) % 64
  [(endNode + 4, taskID), (endNode, memFirstNode pool), (endNode + 4, taskID + memNodeUsedFlag * 64),
    (curUsedSizeAt pool, memMinPoolSize), (waterLineAt pool, memMinPoolSize)]

theorem memListAdd_eq (m : Memory) (pool index node : Nat) :
    memListAdd m pool index node = applyStores m (listAddStores m pool index node) := by
  unfold memListAdd listAddStores
  by_cases h : readWord m (freeListAt pool index) = 0
  · simp only [h]
    rfl
  · simp only [h, if_false]
    rfl

theorem applyStores_infoStores (m : Memory) (pool size : Nat) :
    applyStores m (infoStores m pool size) = let m := writeWord m pool pool
      let m := writeWord m (totalSizeAt pool) size
      let m := writeWord m (attrAt pool) (readWord m (attrAt pool) / 4 * 4)
      let m := setSizeAndFlag m (memFirstNode pool) (size - memPoolHeadSize - memNodeHeadSize)
      writeWord m (memFirstNode pool) (memEndNode pool size) := by
  have hattr : readWord (writeWord (writeWord m pool pool) (totalSizeAt pool) size) (attrAt pool) =
      readWord m (attrAt pool) := by
    rw [readWord_writeWord_disjoint (by simp [attrAt, totalSizeAt]),
      readWord_writeWord_disjoint (by simp [attrAt])]
  have hsize : size - memPoolHeadSize - memNodeHeadSize = size - memMinPoolSize := by
    simp only [memMinPoolSize]
    omega
  simp only [hattr, hsize, setSizeAndFlag]
  rw [readWord_writeWord_disjoint (by simp [attrAt, memFirstNode, memPoolHeadSize]),
    readWord_writeWord_disjoint (by simp [totalSizeAt, memFirstNode, memPoolHeadSize]),
    readWord_writeWord_disjoint (by simp [memFirstNode, memPoolHeadSize])]
  rfl

theorem applyStores_endStores (m : Memory) (pool size : Nat) :
    applyStores m (endStores m pool size) = let endNode := memEndNode pool size
      let m := setSizeAndFlag m endNode 0
      let m := writeWord m endNode (memFirstNode pool)
      let m := setSizeAndFlag m endNode (sizeAndFlag m endNode ||| memNodeUsedFlag)
      let m := writeWord m (curUsedSizeAt pool) (memPoolHeadSize + memNodeHeadSize)
      writeWord m (waterLineAt pool) (readWord m (curUsedSizeAt pool)) := by
  have htag : readWord m (memEndNode pool size + 4) % 64 < 64 := Nat.mod_lt _ (by decide)
  have hread : readWord (writeWord (setSizeAndFlag m (memEndNode pool size) 0)
      (memEndNode pool size) (memFirstNode pool)) (memEndNode pool size + 4) =
      readWord m (memEndNode pool size + 4) % 64 := by
    rw [readWord_writeWord_disjoint (by omega), setSizeAndFlag, readWord_writeWord (by omega)]
    omega
  have hflag : setSizeAndFlag (writeWord (setSizeAndFlag m (memEndNode pool size) 0)
      (memEndNode pool size) (memFirstNode pool)) (memEndNode pool size)
        (readWord m (memEndNode pool size + 4) % 64 / 64 ||| memNodeUsedFlag) =
      writeWord (writeWord (writeWord m (memEndNode pool size + 4)
        (readWord m (memEndNode pool size + 4) % 64)) (memEndNode pool size) (memFirstNode pool))
        (memEndNode pool size + 4)
        (readWord m (memEndNode pool size + 4) % 64 + memNodeUsedFlag * 64) := by
    rw [setSizeAndFlag, hread, Nat.mod_mod, Nat.div_eq_of_lt htag]
    rfl
  simp only [sizeAndFlag, hread, hflag]
  rw [readWord_writeWord (by decide)]
  rfl

/-- The words that `OsMemPoolInit` stores after it has cleared the head, in their order. -/
def poolStores (m : Memory) (pool size : Nat) : List (Nat × Nat) :=
  let info := infoStores m pool size
  let add := listAddStores (applyStores m info) pool (newPoolIndex size) (memFirstNode pool)
  info ++ add ++ endStores (applyStores m (info ++ add)) pool size

theorem poolStores_eq_cons (m : Memory) (pool size : Nat) :
    ∃ l, poolStores m pool size = (pool, pool) :: (totalSizeAt pool, size) :: l := by
  exact ⟨_, rfl⟩

theorem sizeAndFlag_infoStores (m : Memory) (pool size : Nat) :
    sizeAndFlag (applyStores m (infoStores m pool size)) (memFirstNode pool) =
      (size - memMinPoolSize) % 2 ^ 26 := by
  unfold sizeAndFlag infoStores
  simp only [applyStores, foldl_cons, foldl_nil]
  rw [readWord_writeWord_disjoint (by omega), readWord_writeWord (by omega)]
  omega

/-- **`OsMemPoolInit` is a list of stores.** -/
theorem memPoolInit_eq (m : Memory) (pool size : Nat) : memPoolInit m pool size =
      if memFreeListCount ≤ newPoolIndex size then none
      else some (applyStores (memPoolDeInit m pool size)
        (poolStores (memPoolDeInit m pool size) pool size)) := by
  generalize hc : memPoolDeInit m pool size = c
  have hadd : memFreeNodeAdd (applyStores c (infoStores c pool size)) pool (memFirstNode pool) =
      if memFreeListCount ≤ newPoolIndex size then none
      else some (memListAdd (applyStores c (infoStores c pool size)) pool (newPoolIndex size)
        (memFirstNode pool)) := by
    unfold memFreeNodeAdd
    rw [sizeAndFlag_infoStores]
    rfl
  have hcode : memPoolInit m pool size =
      (memFreeNodeAdd (applyStores c (infoStores c pool size)) pool (memFirstNode pool)).bind
        fun m => some (applyStores m (endStores m pool size)) := by
    rw [applyStores_infoStores, ← hc]
    simp only [applyStores_endStores]
    rfl
  rw [hcode, hadd]
  split_ifs with h
  · rfl
  · rw [Option.bind_some, memListAdd_eq, poolStores, applyStores_append, applyStores_append]

/-! ## Walks through the list of pools -/

section Walk

variable {m : Memory} {pool size a cur fuel : Nat} {l : List Nat}

section
variable (hl : Chain (poolNext m) a l)
include hl

section
variable (hfuel : l.length < fuel)
include hfuel

theorem memPoolAddLoop_end (hno : ∀ n ∈ l, memConflict m pool size n = false) :
    memPoolAddLoop m pool size fuel cur a = some (.ok, l.getLast?.getD cur) := by
  induction l generalizing a cur fuel with
  | nil =>
    obtain rfl : a = 0 := hl
    obtain _ | fuel := fuel
    · cases hfuel
    rfl
  | cons n l ih =>
    obtain ⟨rfl, ha, hl⟩ := hl
    obtain _ | fuel := fuel
    · cases hfuel
    rw [memPoolAddLoop, if_neg ha, hno a mem_cons_self, if_neg (by decide),
      ih hl (Nat.lt_of_succ_lt_succ hfuel) fun n hn => hno n (mem_cons_of_mem _ hn)]
    cases l <;> rfl

theorem memPoolAddLoop_conflict (hsome : ∃ n ∈ l, memConflict m pool size n = true) :
    ∃ last, memPoolAddLoop m pool size fuel cur a = some (.nok, last) := by
  induction l generalizing a cur fuel with
  | nil => simp at hsome
  | cons n l ih =>
    obtain ⟨rfl, ha, hl⟩ := hl
    obtain _ | fuel := fuel
    · cases hfuel
    rw [memPoolAddLoop, if_neg ha]
    by_cases hc : memConflict m pool size a = true
    · exact ⟨cur, if_pos hc⟩
    obtain ⟨n, hn, hcn⟩ := hsome
    have hn' : n ∈ l := by
      rcases mem_cons.mp hn with rfl | hn
      · exact absurd hcn hc
      · exact hn
    rw [if_neg hc]
    exact ih hl (Nat.lt_of_succ_lt_succ hfuel) ⟨n, hn', hcn⟩

/-- The pool is found behind another one, which is then linked to the pool that follows. -/
theorem memPoolDeleteLoop_found (hmem : pool ∈ l) :
    ∃ before p after, cur :: l = before ++ p :: pool :: after ∧
      memPoolDeleteLoop m pool fuel cur a =
        some (writeWord m (nextPoolAt p) (poolNext m pool), .ok) := by
  induction l generalizing a cur fuel with
  | nil => simp at hmem
  | cons n l ih =>
    obtain ⟨rfl, ha, hl⟩ := hl
    obtain _ | fuel := fuel
    · cases hfuel
    rw [memPoolDeleteLoop, if_neg ha]
    by_cases hp : pool = a
    · subst hp
      exact ⟨[], cur, l, rfl, if_pos rfl⟩
    have hmem' : pool ∈ l := (mem_cons.mp hmem).resolve_left hp
    obtain ⟨before, p, after, hsplit, hloop⟩ :=
      @ih (poolNext m a) a fuel hl (Nat.lt_of_succ_lt_succ hfuel) hmem'
    refine ⟨cur :: before, p, after, by rw [hsplit, cons_append], ?_⟩
    rwa [if_neg hp]

theorem memPoolDeleteLoop_absent
    (hmem : pool ∉ l) : memPoolDeleteLoop m pool fuel cur a = some (m, .nok) := by
  induction l generalizing a cur fuel with
  | nil =>
    obtain rfl : a = 0 := hl
    obtain _ | fuel := fuel
    · cases hfuel
    rfl
  | cons n l ih =>
    obtain ⟨rfl, ha, hl⟩ := hl
    obtain _ | fuel := fuel
    · cases hfuel
    rw [memPoolDeleteLoop, if_neg ha, if_neg (ne_of_not_mem_cons hmem)]
    exact ih hl (Nat.lt_of_succ_lt_succ hfuel) (not_mem_of_not_mem_cons hmem)

end

end

end Walk

end LiteosM.Kernel
