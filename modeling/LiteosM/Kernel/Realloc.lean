import LiteosM.Kernel.Memory

/-!
# Reallocation

`LOS_MemAlloc` and `LOS_MemFree` hand out and take back blocks of the host's heap, while
`LOS_MemRealloc` looks for a node of the pool in front of the pointer it is given. `malloc` is an
argument: the address that it returns if it is called.

* `memCheckUsedNode_outside`: the eight bytes in front of a block of the host are no used node;
* `osMemRealloc_result`: `OsMemRealloc` returns the pointer it was given, what `malloc` returned, or
  `NULL`, and it gives back no block but that of `malloc`;
* **`memRealloc_fails`**: no call of `LOS_MemRealloc` on a block of the host meets its contract.
-/

namespace LiteosM.Kernel

open LiteosM.Lib Option

/-! ## Nodes of a pool -/

/-- `OS_MEM_NODE_GET_USED_FLAG`. -/
def memUsed (sizeAndFlag : Nat) : Bool := sizeAndFlag &&& memNodeUsedFlag ≠ 0

/-- `OS_MEM_NODE_GET_SIZE` of a field of 26 bits. -/
def memNodeGetSize (sizeAndFlag : Nat) : Nat := sizeAndFlag % memNodeAlignedFlag

/-- `OS_MEM_NEXT_NODE`. -/
def memNextNode (m : Memory) (node : Nat) : Nat :=
  (node + memNodeGetSize (sizeAndFlag m node)) % 2 ^ 32

/-- The field `offset` bytes behind the address `a`. -/
def field (a offset : Nat) : Nat := (a + offset) % 2 ^ 32

/-- `OsMemClearFreeListBit`. -/
def memClearFreeListBit (m : Memory) (pool index : Nat) : Memory :=
  let word := readWord m (freeListBitmapAt pool index)
  writeWord m (freeListBitmapAt pool index) (word - (word &&& 2 ^ (index % 32)))

/-- `OsMemListDelete`. -/
def memListDelete (m : Memory) (pool listIndex node : Nat) : Memory :=
  let next := fun m => readWord m (field node 12)
  let prev := fun m => readWord m (field node 8)
  if node = readWord m (freeListAt pool listIndex) then
    let m := writeWord m (freeListAt pool listIndex) (next m)
    if next m = 0 then memClearFreeListBit m pool listIndex
    else writeWord m (field (next m) 8) 0
  else
    let m := writeWord m (field (prev m) 12) (next m)
    if next m = 0 then m else writeWord m (field (next m) 8) (prev m)

/-- `OsMemFreeNodeDelete`. -/
def memFreeNodeDelete (m : Memory) (pool node : Nat) : Memory :=
  memListDelete m pool (memFreeListIndexGet (sizeAndFlag m node)) node

/-- `OsMemMergeNode`. -/
def memMergeNode (m : Memory) (node : Nat) : Memory :=
  let prev := readWord m node
  let m := setSizeAndFlag m prev (sizeAndFlag m prev + sizeAndFlag m node)
  writeWord m (field node (sizeAndFlag m node)) prev

/-- `OsMemSplitNode`. -/
def memSplitNode (m : Memory) (pool allocNode allocSize : Nat) : Option Memory :=
  let newFreeNode := field allocNode allocSize
  let m := writeWord m newFreeNode allocNode
  let m := setSizeAndFlag m newFreeNode (sizeAndFlag m allocNode + 2 ^ 32 - allocSize)
  let m := setSizeAndFlag m allocNode allocSize
  let nextNode := memNextNode m newFreeNode
  let m := writeWord m nextNode newFreeNode
  let m := if memUsed (sizeAndFlag m nextNode) then m
    else memMergeNode (memFreeNodeDelete m pool nextNode) nextNode
  memFreeNodeAdd m pool newFreeNode

/-- `OsMemWaterUsedRecord`. -/
def memWaterUsedRecord (m : Memory) (pool size : Nat) : Memory :=
  let curUsedSize := (readWord m (curUsedSizeAt pool) + size) % 2 ^ 32
  let m := writeWord m (curUsedSizeAt pool) curUsedSize
  if curUsedSize > readWord m (waterLineAt pool) then writeWord m (waterLineAt pool) curUsedSize
  else m

/-- `OsMemAddrValidCheck`. -/
def memAddrValidCheck (m : Memory) (pool addr : Nat) : Bool :=
  memFirstNode pool ≤ addr && addr < (pool + readWord m (totalSizeAt pool)) % 2 ^ 32

/-- `OsMemIsNodeValid`. -/
def memIsNodeValid (m : Memory) (node startNode endNode pool : Nat) : Bool :=
  if startNode ≤ node ∧ node ≤ endNode then
    memUsed (sizeAndFlag m node) || memAddrValidCheck m pool (readWord m node)
  else false

/-- `OsMemCheckUsedNode`: whether it returns `LOS_OK`. -/
def memCheckUsedNode (m : Memory) (pool node : Nat) : Bool :=
  let startNode := memFirstNode pool
  let endNode := memEndNode pool (readWord m (totalSizeAt pool))
  let valid := fun node => memIsNodeValid m node startNode endNode pool
  let nextNode := memNextNode m node
  let prev := readWord m node
  valid node && memUsed (sizeAndFlag m node) && valid nextNode && readWord m nextNode == node &&
    (node == startNode || (valid prev && memNextNode m prev == node))

/-- `OsMemFree`, whose result no caller in the build looks at. -/
def osMemFree (m : Memory) (pool node : Nat) : Option Memory :=
  if memCheckUsedNode m pool node then
    let size := memNodeGetSize (sizeAndFlag m node)
    let m := writeWord m (curUsedSizeAt pool)
      ((readWord m (curUsedSizeAt pool) + 2 ^ 32 - size) % 2 ^ 32)
    let m := setSizeAndFlag m node size
    let preNode := readWord m node
    let (m, node) := if preNode ≠ 0 ∧ !memUsed (sizeAndFlag m preNode) then
        (memMergeNode (memFreeNodeDelete m pool preNode) node, preNode)
      else (m, node)
    let nextNode := memNextNode m node
    let m := if nextNode ≠ 0 ∧ !memUsed (sizeAndFlag m nextNode) then
        memMergeNode (memFreeNodeDelete m pool nextNode) nextNode
      else m
    memFreeNodeAdd m pool node
  else some m

/-! ## The host's heap -/

/-- The memory, the blocks of `malloc` that are in use with their sizes, and the addresses that were
given to `free`. -/
structure HostState where
  mem : Memory
  blocks : List (Nat × Nat)
  freed : List Nat

/-- `malloc(size)`, which returns `fresh`. -/
def HostState.malloc (s : HostState) (size fresh : Nat) : HostState :=
  if fresh = 0 then s else { s with blocks := (fresh, size) :: s.blocks }

/-- `free(ptr)`. -/
def HostState.free (s : HostState) (ptr : Nat) : HostState :=
  if ptr = 0 then s
  else { s with blocks := s.blocks.filter (·.1 ≠ ptr), freed := ptr :: s.freed }

/-- `memcpy_s`, and whether it returns `EOK`. -/
def memcpySChecked (m : Memory) (dest destMax src count : Nat) : Memory × Bool :=
  if destMax = 0 ∨ destMax > securecMemMaxLen then (m, false)
  else if dest = 0 then (m, false)
  else if src = 0 ∨ count > destMax then (fillBytes m dest destMax 0, false)
  else if (src < dest ∧ src + count > dest) ∨ (dest < src ∧ dest + count > src) then
    (fillBytes m dest destMax 0, false)
  else (writeBytes m dest (readBytes m src count), true)

/-! ## `LOS_MemRealloc` -/

/-- `OsGetRealPtr`; 0 is `NULL`. -/
def getRealPtr (m : Memory) (pool ptr : Nat) : Nat :=
  let gapSize := readWord m ((ptr + (2 ^ 32 - 4)) % 2 ^ 32)
  if gapSize / 2 ^ 30 = 3 then 0
  else if gapSize / 2 ^ 30 % 2 = 1 then
    let gapSize := gapSize - 2 ^ 30
    if gapSize % 4 ≠ 0 ∨ gapSize > (ptr + (2 ^ 32 - 8) + (2 ^ 32 - pool)) % 2 ^ 32 then 0
    else (ptr + (2 ^ 32 - gapSize)) % 2 ^ 32
  else ptr

/-- `OsMemReAllocSmaller`. -/
def memReAllocSmaller (m : Memory) (pool allocSize node nodeSize : Nat) : Option Memory := do
  let m := setSizeAndFlag m node nodeSize
  let m ← if allocSize + 16 ≤ nodeSize then do
      let m ← memSplitNode m pool node allocSize
      some (writeWord m (curUsedSizeAt pool)
        ((readWord m (curUsedSizeAt pool) + 2 ^ 32 - (nodeSize - allocSize)) % 2 ^ 32))
    else some m
  some (setSizeAndFlag m node (sizeAndFlag m node ||| memNodeUsedFlag))

/-- `OsMemMergeNodeForReAllocBigger`. -/
def memMergeNodeForReAllocBigger (m : Memory) (pool allocSize node nodeSize nextNode : Nat) :
    Option Memory := do
  let m := setSizeAndFlag m node nodeSize
  let m := memMergeNode (memFreeNodeDelete m pool nextNode) nextNode
  let m ← if allocSize + 16 ≤ sizeAndFlag m node then memSplitNode m pool node allocSize
    else some m
  let m := setSizeAndFlag m node (sizeAndFlag m node ||| memNodeUsedFlag)
  some (memWaterUsedRecord m pool
    ((memNodeGetSize (sizeAndFlag m node) + 2 ^ 32 - nodeSize) % 2 ^ 32))

/-- `OsMemRealloc`, in which `OsMemAlloc` is `malloc`. -/
def osMemRealloc (s : HostState) (pool ptr node size fresh : Nat) : Option (HostState × Nat) :=
  let allocSize := (size + memNodeHeadSize + 3) / 4 * 4
  let nodeSize := memNodeGetSize (sizeAndFlag s.mem node)
  if nodeSize ≥ allocSize then do
    let m ← memReAllocSmaller s.mem pool allocSize node nodeSize
    some ({ s with mem := m }, ptr)
  else
    let nextNode := memNextNode s.mem node
    let nextSize := sizeAndFlag s.mem nextNode
    if !memUsed nextSize ∧ nextSize + nodeSize ≥ allocSize then do
      let m ← memMergeNodeForReAllocBigger s.mem pool allocSize node nodeSize nextNode
      some ({ s with mem := m }, ptr)
    else
      let s := s.malloc size fresh
      if fresh = 0 then some (s, fresh)
      else
        let (m, copied) := memcpySChecked s.mem fresh size ptr
          ((nodeSize + (2 ^ 32 - memNodeHeadSize)) % 2 ^ 32)
        if copied then do
          let m ← osMemFree m pool node
          some ({ s with mem := m }, fresh)
        else some ({ s with mem := m }.free fresh, 0)

/-- `LOS_MemRealloc`; `none` where a panic ends it. -/
def memRealloc (s : HostState) (pool ptr size fresh : Nat) : Option (HostState × Nat) :=
  if pool = 0 ∨ memUsed size ∨ size &&& memNodeAlignedFlag ≠ 0 then some (s, 0)
  else if ptr = 0 then some (s.malloc size fresh, fresh)
  else if size = 0 then some (s.free ptr, 0)
  else
    let size := if size < 8 then 8 else size
    let ptr := getRealPtr s.mem pool ptr
    if ptr = 0 then some (s, 0)
    else
      let node := (ptr + (2 ^ 32 - memNodeHeadSize)) % 2 ^ 32
      if memCheckUsedNode s.mem pool node then osMemRealloc s pool ptr node size fresh
      else some (s, 0)

/-! ## The contract -/

/-- What a reallocation of the block of `old` bytes at `ptr` to `n` bytes promises: a block of at
least `n` bytes that starts like the old one, the old one given back once if it is another, and no
byte outside the two written. -/
structure ReallocContract (s s' : HostState) (ptr old n result : Nat) : Prop where
  notNull : result ≠ 0
  block : ∃ len, (result, len) ∈ s'.blocks ∧ n ≤ len
  copied : ∀ i < min old n, s'.mem (result + i) = s.mem (ptr + i)
  released : result ≠ ptr → s'.freed.count ptr = s.freed.count ptr + 1
  frame : ∀ a, ¬(ptr ≤ a ∧ a < ptr + old) → ¬(result ≤ a ∧ a < result + n) → s'.mem a = s.mem a

/-- A pool whose end node is as `LOS_MemInit` leaves it: of size 0, and linked to another node. -/
structure MemPoolReady (m : Memory) (pool size : Nat) : Prop where
  total : readWord m (totalSizeAt pool) = size
  fits : memMinPoolSize < size ∧ pool + size < 2 ^ 32
  endSize : memNodeGetSize (sizeAndFlag m (memEndNode pool size)) = 0
  endPrev : readWord m (memEndNode pool size) ≠ memEndNode pool size

/-- The eight bytes in front of a block outside the pool are not a used node of it: at most they are
its end node, which is not linked to itself. -/
theorem memCheckUsedNode_outside {m : Memory} {pool size ptr old : Nat}
    (hpool : MemPoolReady m pool size) (hptr : 0 < ptr ∧ ptr < 2 ^ 32)
    (hout : ptr + old ≤ pool ∨ pool + size ≤ ptr) :
    memCheckUsedNode m pool ((ptr + (2 ^ 32 - memNodeHeadSize)) % 2 ^ 32) = false := by
  generalize hnode : (ptr + (2 ^ 32 - memNodeHeadSize)) % 2 ^ 32 = node
  unfold memCheckUsedNode
  rw [hpool.total]
  by_cases hin : memFirstNode pool ≤ node ∧ node ≤ memEndNode pool size
  · have hend : node = memEndNode pool size := by
      have hfits := hpool.fits
      simp only [memFirstNode, memEndNode, memNodeHeadSize] at hin hnode hfits ⊢
      omega
    have hlt : memEndNode pool size < 2 ^ 32 := by
      omega
    have hnext : memNextNode m node = node := by
      rw [memNextNode, hend, hpool.endSize, Nat.add_zero, Nat.mod_eq_of_lt hlt]
    have hprev : (readWord m node == node) = false := by
      rw [beq_eq_false_iff_ne, hend]
      exact hpool.endPrev
    simp only [hnext, hprev, Bool.and_false, Bool.false_and]
  · have hvalid : memIsNodeValid m node (memFirstNode pool) (memEndNode pool size) pool = false :=
      if_neg hin
    simp only [hvalid, Bool.false_and]

theorem osMemRealloc_result {s s' : HostState} {pool ptr node size fresh r : Nat}
    (hrun : osMemRealloc s pool ptr node size fresh = some (s', r)) :
    r = 0 ∨ (r = ptr ∨ r = fresh) ∧ s'.freed = s.freed := by
  have hmalloc : (s.malloc size fresh).freed = s.freed := by
    unfold HostState.malloc
    split <;> rfl
  unfold osMemRealloc at hrun
  dsimp only at hrun
  split at hrun
  · -- the node is large enough
    obtain ⟨m, -, hrun⟩ := bind_eq_some_iff.mp hrun
    cases hrun
    exact .inr ⟨.inl rfl, rfl⟩
  split at hrun
  · -- the next node is free and makes up for the rest
    obtain ⟨m, -, hrun⟩ := bind_eq_some_iff.mp hrun
    cases hrun
    exact .inr ⟨.inl rfl, rfl⟩
  split at hrun
  · cases hrun
    exact .inr ⟨.inr rfl, hmalloc⟩
  split at hrun
  · obtain ⟨m, -, hrun⟩ := bind_eq_some_iff.mp hrun
    cases hrun
    exact .inr ⟨.inr rfl, hmalloc⟩
  · cases hrun
    exact .inl rfl

/-- **`LOS_MemRealloc` never meets its contract on a block of the host**: it returns `NULL`, or
another pointer while the old block is not given back. -/
theorem memRealloc_fails (s : HostState) (pool size ptr old n fresh : Nat)
    (hpool : MemPoolReady s.mem pool size) (hblock : (ptr, old) ∈ s.blocks)
    (hptr : 0 < ptr ∧ ptr < 2 ^ 32) (hout : ptr + old ≤ pool ∨ pool + size ≤ ptr)
    (hfresh : ∀ b ∈ s.blocks, b.1 ≠ fresh) (hn : 0 < n) :
    ¬∃ s' r, memRealloc s pool ptr n fresh = some (s', r) ∧ ReallocContract s s' ptr old n r := by
  rintro ⟨s', r, hrun, hc⟩
  have hnull : ∀ t, some (t, 0) ≠ some (s', r) := fun t h =>
    hc.notNull (Prod.mk.inj (some.inj h)).2.symm
  unfold memRealloc at hrun
  dsimp only at hrun
  rw [if_neg (Nat.ne_of_gt hptr.1), if_neg (Nat.ne_of_gt hn)] at hrun
  split at hrun
  · exact hnull _ hrun
  split at hrun
  · exact hnull _ hrun
  split at hrun
  · -- a node was found: it is not in front of the block
    rename_i hcheck
    have hreal : getRealPtr s.mem pool ptr ≠ ptr := by
      intro hreal
      rw [hreal, memCheckUsedNode_outside hpool hptr hout] at hcheck
      exact nomatch hcheck
    obtain rfl | ⟨hr, hfreed⟩ := osMemRealloc_result hrun
    · exact hc.notNull rfl
    have hne : r ≠ ptr := by
      rcases hr with rfl | rfl
      · exact hreal
      · exact (hfresh _ hblock).symm
    have := hc.released hne
    rw [hfreed] at this
    omega
  · exact hnull _ hrun

/-- A pool at 0x10000, and a block of 16 bytes that `LOS_MemAlloc` returned. -/
def hostBlock : HostState where
  mem := (memPoolInit (fun _ => 0) 0x10000 0x4000).getD fun _ => 0
  blocks := [(0x50000, 16)]
  freed := []

theorem memRealloc_fails_hostBlock : MemPoolReady hostBlock.mem 0x10000 0x4000 ∧
      ¬∃ s' r, memRealloc hostBlock 0x10000 0x50000 32 0x60000 = some (s', r) ∧
        ReallocContract hostBlock s' 0x50000 16 32 r := by
  have hpool : MemPoolReady hostBlock.mem 0x10000 0x4000 :=
    ⟨by decide +kernel, by decide, by decide +kernel, by decide +kernel⟩
  exact ⟨hpool, memRealloc_fails hostBlock 0x10000 0x4000 0x50000 16 32 0x60000 hpool
    (by decide) (by decide) (by decide) (by decide) (by decide)⟩

/-- The block is refused. -/
theorem memRealloc_null : (memRealloc hostBlock 0x10000 0x50000 32 0x60000).map Prod.snd = some 0 := by
  decide +kernel

end LiteosM.Kernel
