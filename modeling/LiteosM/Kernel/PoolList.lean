import LiteosM.Kernel.Memory
import LiteosM.Lib.Run
import Mathlib.Data.List.Perm.Subperm

/-!
# The registered pools

`LOS_MemInit` and `LOS_MemDeInit` in any order, on any addresses. `LOS_MemInit` first writes the head
and the two nodes of the new pool, then compares the region with the registered pools, and on a
conflict clears the head again. The comparison misses a region strictly inside a pool, and what was
written for a refused region stays written.

* `Registered.memInit`, `Registered.memDeInit`: what one call does to the list of pools;
* **`pools_disjoint`**: as long as no region lies strictly inside a registered pool and none is
  written over the head of one, the list has exactly the pools that are in use, and they are
  disjoint;
* **`memInit_refused`**: a refused call leaves the registered pools alone if its head, its first node
  and its end node miss them.

What the pools hold between their nodes, and the allocations in them, are not looked at.
-/

namespace LiteosM.Kernel

open LiteosM.Lib List Option Prod

/-- `g_poolHead` is the list of `pools`, each an address with a size. -/
structure PoolList (s : MemState) (pools : List (Nat × Nat)) : Prop where
  chain : Chain (poolNext s.mem) s.poolHead (pools.map fst)
  size : ∀ e ∈ pools, readWord s.mem (totalSizeAt e.1) = e.2
  fits : ∀ e ∈ pools, memMinPoolSize < e.2 ∧ e.1 + e.2 < 2 ^ 32

/-- Two regions have no address in common. -/
def Apart (e f : Nat × Nat) : Prop := e.1 + e.2 ≤ f.1 ∨ f.1 + f.2 ≤ e.1
  deriving Decidable

instance symmApart : Std.Symm Apart := ⟨fun _ _ h => Or.symm h⟩

/-- Each pool of the list has its address in `info.pool`, and no two overlap. -/
structure Registered (s : MemState) (pools : List (Nat × Nat)) : Prop extends PoolList s pools where
  info : ∀ e ∈ pools, readWord s.mem e.1 = e.1
  apart : pools.Pairwise Apart

/-- `LOS_MemInit` of the region neither clears nor stores a byte of the `n` at address `a`. -/
def Spares (m : Memory) (pool size a n : Nat) : Prop :=
  (size ≤ securecMemMaxLen → pool + memPoolHeadSize ≤ a ∨ a + n ≤ pool) ∧
    ∀ st ∈ poolStores (memPoolDeInit m pool size) pool size, st.1 + 4 ≤ a ∨ a + n ≤ st.1
  deriving Decidable

/-- The region does not lie strictly inside a registered pool, what `LOS_MemInit` writes for it misses
the heads of the registered pools, and nothing that it stores later falls on `info.pool` and
`info.totalSize` of the new head. -/
def Admissible (m : Memory) (pools : List (Nat × Nat)) (pool size : Nat) : Prop :=
  (∀ e ∈ pools, ¬(e.1 < pool ∧ pool + size < e.1 + e.2) ∧ Spares m pool size e.1 memPoolHeadSize) ∧
    ∀ st ∈ (poolStores (memPoolDeInit m pool size) pool size).drop 2,
      st.1 + 4 ≤ pool ∨ pool + 8 ≤ st.1
  deriving Decidable

section

variable {m m' : Memory} {s s' : MemState} {pools : List (Nat × Nat)} {pool size a n : Nat}

theorem memPoolDeInit_outside {i : Nat} (h : i < pool ∨ pool + memPoolHeadSize ≤ i) :
    memPoolDeInit m pool size i = m i := by
  unfold memPoolDeInit
  split
  · exact if_neg (by omega)
  · rfl

theorem Spares.memPoolDeInit {i : Nat} (h : Spares m pool size a n) (hi : a ≤ i) (hi' : i < a + n)
    (m' : Memory) : memPoolDeInit m' pool size i = m' i := by
  by_cases hmax : size ≤ securecMemMaxLen
  · have := h.1 hmax
    exact memPoolDeInit_outside (by omega)
  · rw [Kernel.memPoolDeInit, if_neg hmax]

theorem Spares.memPoolInit {i : Nat} (h : Spares m pool size a n) (hi : a ≤ i) (hi' : i < a + n)
    (hrun : memPoolInit m pool size = some m') : m' i = m i := by
  rw [memPoolInit_eq] at hrun
  split_ifs at hrun
  obtain rfl := some.inj hrun
  rw [applyStores_apply, lastStored_eq_none_iff.mpr, getD_none, h.memPoolDeInit hi hi']
  intro st hst
  have := h.2 st hst
  omega

/-! ## One call -/

section
variable (h : Registered s pools)
include h

theorem Registered.congr (hhead : s'.poolHead = s.poolHead)
    (heq : ∀ e ∈ pools, ∀ i, e.1 ≤ i → i < e.1 + memPoolHeadSize → s'.mem i = s.mem i) :
    Registered s' pools := by
  have hword : ∀ e ∈ pools, ∀ d, d + 4 ≤ memPoolHeadSize →
      readWord s'.mem (e.1 + d) = readWord s.mem (e.1 + d) := fun e he d hd =>
    readWord_congr fun i hi hi' => heq e he i (by omega) (by omega)
  refine ⟨⟨?_, fun e he => ?_, h.fits⟩, fun e he => ?_, h.apart⟩
  · rw [hhead]
    refine h.chain.congr fun n hn => ?_
    obtain ⟨e, he, rfl⟩ := mem_map.mp hn
    exact hword e he 940 (by decide)
  · exact (hword e he 4 (by decide)).trans (h.size e he)
  · exact (hword e he 0 (by decide)).trans (h.info e he)

theorem Registered.apart_of_ne {e f : Nat × Nat} (he : e ∈ pools)
    (hf : f ∈ pools) (hne : e ≠ f) : Apart e f :=
  h.apart.forall he hf hne

theorem Registered.nodup : (pools.map fst).Nodup := by
  rw [Nodup, pairwise_map]
  refine h.apart.imp_of_mem fun {e f} he hf hef heq => ?_
  have := (h.fits e he).1
  have := (h.fits f hf).1
  unfold Apart at hef
  omega

/-- The rounds that the walks may take are enough. -/
theorem Registered.length_lt : (pools.map fst).length < 2 ^ 32 := by
  have hnd : (0 :: pools.map fst).Nodup := nodup_cons.mpr ⟨h.chain.zero_notMem, h.nodup⟩
  have hsub : 0 :: pools.map fst ⊆ range (2 ^ 32) := by
    intro n hn
    rw [mem_range]
    rcases mem_cons.mp hn with rfl | hn
    · decide
    · obtain ⟨e, he, rfl⟩ := mem_map.mp hn
      have := (h.fits e he).2
      omega
  have hle := (subperm_of_subset hnd hsub).length_le
  rwa [length_range, length_cons] at hle

end

theorem PoolList.poolHead_eq_zero_iff (h : PoolList s pools) :
    s.poolHead = 0 ↔ pools.map fst = [] := by
  have hchain := h.chain
  constructor
  · intro h0
    rw [h0] at hchain
    exact hchain.nil_of_zero
  · intro hnil
    rwa [hnil] at hchain

variable {e : Nat × Nat}

/-- What passes the comparison with a pool and does not lie strictly inside it is apart from it. -/
theorem PoolList.apart_of_memConflict (h : PoolList s pools) (he : e ∈ pools)
    (hwrap : pool + size < 2 ^ 32) (hin : ¬(e.1 < pool ∧ pool + size < e.1 + e.2))
    (hno : memConflict s.mem pool size e.1 = false) : Apart e (pool, size) := by
  have hfits := (h.fits e he).2
  unfold memConflict at hno
  rw [h.size e he, Nat.mod_eq_of_lt hwrap] at hno
  simp only [Bool.or_eq_false_iff, Bool.and_eq_false_iff, decide_eq_false_iff_not] at hno
  unfold Apart
  omega

/-- The words of a registered pool are not those of another one. -/
theorem Registered.readWord_other {d k w : Nat} (h : Registered s pools)
    (he : e ∈ pools) (ha : a ∈ pools.map fst) (hd : d + 4 ≤ memPoolHeadSize)
    (hk : k + 4 ≤ memPoolHeadSize) (hne : e.1 ≠ a ∨ d + 4 ≤ k ∨ k + 4 ≤ d) :
    readWord (writeWord m (a + k) w) (e.1 + d) = readWord m (e.1 + d) := by
  obtain ⟨f, hf, rfl⟩ := mem_map.mp ha
  refine readWord_writeWord_disjoint ?_
  have hfe := (h.fits e he).1
  have hff := (h.fits f hf).1
  unfold memMinPoolSize at hfe hff
  by_cases hef : e = f
  · subst hef
    omega
  · have := h.apart_of_ne he hf hef
    unfold Apart at this
    omega

variable {d : Nat}

theorem getLast_getD_mem {l : List Nat} (h : l ≠ []) : l.getLast?.getD d ∈ l := by
  rw [getLast?_eq_some_getLast h]
  exact getLast_mem h

/-- The memory after a pool was linked behind the last one. -/
def linkPool (s : MemState) (pools : List (Nat × Nat)) (pool : Nat) : MemState where
  mem := writeWord (if s.poolHead = 0 then s.mem
    else writeWord s.mem (nextPoolAt ((pools.map fst).getLast?.getD s.poolHead)) pool)
      (nextPoolAt pool) 0
  poolHead := if s.poolHead = 0 then pool else s.poolHead

section
variable (h : Registered s pools)
include h

theorem Registered.memPoolAdd_ok (hno : ∀ e ∈ pools, memConflict s.mem pool size e.1 = false) :
    memPoolAdd s pool size = some (linkPool s pools pool, .ok) := by
  have hloop : memPoolAddLoop s.mem pool size (2 ^ 32) s.poolHead s.poolHead =
      some (.ok, (pools.map fst).getLast?.getD s.poolHead) :=
    memPoolAddLoop_end h.chain h.length_lt (forall_mem_map.mpr hno)
  unfold memPoolAdd linkPool
  rw [hloop]
  by_cases h0 : s.poolHead = 0 <;> simp only [h0]
  · rfl
  · rfl

theorem Registered.memPoolAdd_nok (hno : ¬∀ e ∈ pools, memConflict s.mem pool size e.1 = false) :
    memPoolAdd s pool size = some (s, .nok) := by
  have hsome : ∃ n ∈ pools.map fst, memConflict s.mem pool size n = true := by
    push Not at hno
    obtain ⟨e, he, hc⟩ := hno
    exact ⟨e.1, mem_map_of_mem he, by simpa using hc⟩
  obtain ⟨last, hloop⟩ :=
    @memPoolAddLoop_conflict _ _ _ _ s.poolHead _ _ h.chain h.length_lt hsome
  unfold memPoolAdd
  rw [hloop]
  rfl

/-- What is apart from every registered pool is apart from the word that links the last one. -/
theorem Registered.readWord_linked {d w : Nat} (hd : d + 4 ≤ memPoolHeadSize)
    (hsize : memMinPoolSize < size) (hapart : ∀ e ∈ pools, Apart e (pool, size))
    (ha : a ∈ pools.map fst) :
    readWord (writeWord m (nextPoolAt a) w) (pool + d) = readWord m (pool + d) := by
  obtain ⟨e, he, rfl⟩ := mem_map.mp ha
  have hap : e.1 + e.2 ≤ pool ∨ pool + size ≤ e.1 := hapart e he
  have hfit := (h.fits e he).1
  simp only [memMinPoolSize, memPoolHeadSize] at hfit hsize hd
  refine readWord_writeWord_disjoint ?_
  unfold nextPoolAt
  omega

theorem Registered.link_old (he : e ∈ pools)
    (hsize : memMinPoolSize < size) (hapart : ∀ e ∈ pools, Apart e (pool, size))
    (hd : d + 4 ≤ memPoolHeadSize)
    (hne : e.1 ≠ (pools.map fst).getLast?.getD s.poolHead ∨ d + 4 ≤ 940) :
    readWord (linkPool s pools pool).mem (e.1 + d) = readWord s.mem (e.1 + d) := by
  have hl : pools.map fst ≠ [] := ne_nil_of_mem (mem_map_of_mem he)
  have hap : e.1 + e.2 ≤ pool ∨ pool + size ≤ e.1 := hapart e he
  have hfit := (h.fits e he).1
  simp only [memMinPoolSize, memPoolHeadSize] at hfit hsize
  have hnew : ∀ m, readWord (writeWord m (nextPoolAt pool) 0) (e.1 + d) = readWord m (e.1 + d) := by
    intro m
    refine readWord_writeWord_disjoint ?_
    simp only [memPoolHeadSize, nextPoolAt] at hd ⊢
    omega
  rw [linkPool, hnew]
  split_ifs
  · rfl
  · exact h.readWord_other he (getLast_getD_mem hl) hd (by decide) (hne.imp_right .inl)

theorem Registered.link_new (hsize : memMinPoolSize < size)
    (hapart : ∀ e ∈ pools, Apart e (pool, size)) (hd : d + 4 ≤ 940) :
    readWord (linkPool s pools pool).mem (pool + d) = readWord s.mem (pool + d) := by
  rw [linkPool, readWord_writeWord_disjoint (by unfold nextPoolAt; omega)]
  split_ifs with h0
  · rfl
  · have hl : pools.map fst ≠ [] := fun hnil => h0 (h.poolHead_eq_zero_iff.mpr hnil)
    exact h.readWord_linked (hd.trans (by decide)) hsize hapart (getLast_getD_mem hl)

/-- A new pool is linked. -/
theorem Registered.link (hpool : pool ≠ 0) (hsize : memMinPoolSize < size)
    (hwrap : pool + size < 2 ^ 32) (hinfo : readWord s.mem pool = pool)
    (htotal : readWord s.mem (totalSizeAt pool) = size) (hapart : ∀ e ∈ pools, Apart e (pool, size)) :
    Registered (linkPool s pools pool) (pools ++ [(pool, size)]) := by
  have hempty := h.poolHead_eq_zero_iff
  refine ⟨⟨?_, ?_, ?_⟩, ?_, ?_⟩
  · have hchain : Chain (poolNext (linkPool s pools pool).mem)
        (if pools.map fst = [] then pool else s.poolHead) (pools.map fst ++ [pool]) := by
      refine h.chain.snoc hpool (readWord_writeWord (by decide)) h.nodup ?_ ?_
      · intro x hx
        have hmem : x ∈ pools.map fst := mem_of_getLast? hx
        have hlast : (pools.map fst).getLast?.getD s.poolHead = x := by
          rw [mem_def.mp hx, getD_some]
        have h0 : s.poolHead ≠ 0 := fun h0 => ne_nil_of_mem hmem (hempty.mp h0)
        obtain ⟨e, he, rfl⟩ := mem_map.mp hmem
        have hap : e.1 + e.2 ≤ pool ∨ pool + size ≤ e.1 := hapart e he
        have hfit := (h.fits e he).1
        simp only [memMinPoolSize, memNodeHeadSize] at hfit hsize
        rw [poolNext, linkPool, hlast, if_neg h0, readWord_writeWord_disjoint, readWord_writeWord]
        · omega
        · unfold nextPoolAt
          omega
      intro x hx hne
      obtain ⟨e, he, rfl⟩ := mem_map.mp hx
      refine h.link_old he hsize hapart (by decide) (.inl fun heq => hne ?_)
      rw [heq, getLast?_eq_some_getLast (ne_nil_of_mem hx)]
      rfl
    have hhead : (linkPool s pools pool).poolHead =
        if pools.map fst = [] then pool else s.poolHead := by
      simp only [linkPool, hempty]
    rwa [hhead, map_append]
  · rw [forall_mem_append, forall_mem_singleton]
    exact ⟨fun e he => (h.link_old he hsize hapart (by decide) (.inr (by decide))).trans (h.size e he),
      (h.link_new hsize hapart (by decide)).trans htotal⟩
  · rw [forall_mem_append, forall_mem_singleton]
    exact ⟨h.fits, hsize, hwrap⟩
  · rw [forall_mem_append, forall_mem_singleton]
    exact ⟨fun e he => (h.link_old he hsize hapart (d := 0) (by decide) (.inr (by decide))).trans
      (h.info e he), (h.link_new hsize hapart (d := 0) (by decide)).trans hinfo⟩
  · rw [pairwise_append]
    exact ⟨h.apart, pairwise_singleton _ _, fun e he => forall_mem_singleton.mpr (hapart e he)⟩

end

/-- The head that `OsMemPoolInit` writes names its own address and size. -/
theorem Admissible.memPoolInit (h : Admissible m pools pool size) (hwrap : pool + size < 2 ^ 32)
    (hrun : memPoolInit m pool size = some m') :
    readWord m' pool = pool ∧ readWord m' (totalSizeAt pool) = size := by
  rw [memPoolInit_eq] at hrun
  split_ifs at hrun
  obtain rfl := some.inj hrun
  have hrest := h.2
  generalize memPoolDeInit m pool size = c at hrest ⊢
  -- the first two stores are the words in question
  obtain ⟨l, hl⟩ := poolStores_eq_cons c pool size
  rw [hl] at hrest ⊢
  have hstores : applyStores c ((pool, pool) :: (totalSizeAt pool, size) :: l) =
      applyStores (writeWord (writeWord c pool pool) (totalSizeAt pool) size) l := rfl
  rw [hstores]
  constructor
  · rw [readWord_applyStores fun st hst => ?_,
      readWord_writeWord_disjoint (by simp [totalSizeAt]), readWord_writeWord (by omega)]
    have := hrest st hst
    omega
  rw [readWord_applyStores fun st hst => ?_, readWord_writeWord (by omega)]
  have := hrest st hst
  unfold totalSizeAt
  omega

/-- **One call of `LOS_MemInit`.** -/
theorem Registered.memInit {ret : MemRet} (h : Registered s pools)
    (hok : memInitChecks pool size → pool + size < 2 ^ 32 ∧ Admissible s.mem pools pool size)
    (hrun : memInit s pool size = some (s', ret)) :
    Registered s' (if ret = .ok then pools ++ [(pool, size)] else pools) := by
  unfold Kernel.memInit at hrun
  by_cases hchecks : memInitChecks pool size = true
  · obtain ⟨hwrap, hadm⟩ := hok hchecks
    rw [if_pos hchecks] at hrun
    simp only [memInitChecks, Bool.and_eq_true, decide_eq_true_eq] at hchecks
    obtain ⟨⟨⟨hpool, hsize⟩, -⟩, -⟩ := hchecks
    obtain ⟨m, hm, hrun⟩ := bind_eq_some_iff.mp hrun
    have hm' : Registered ⟨m, s.poolHead⟩ pools :=
      h.congr rfl fun e he i hi hi' => (hadm.1 e he).2.memPoolInit hi hi' hm
    by_cases hno : ∀ e ∈ pools, memConflict m pool size e.1 = false
    · obtain ⟨hinfo, htotal⟩ := hadm.memPoolInit hwrap hm
      have hapart : ∀ e ∈ pools, Apart e (pool, size) := fun e he =>
        hm'.apart_of_memConflict he hwrap (hadm.1 e he).1 (hno e he)
      rw [hm'.memPoolAdd_ok hno] at hrun
      cases hrun
      exact hm'.link hpool hsize hwrap hinfo htotal hapart
    · rw [hm'.memPoolAdd_nok hno] at hrun
      cases hrun
      exact hm'.congr rfl fun e he i hi hi' => (hadm.1 e he).2.memPoolDeInit hi hi' m
  · rw [if_neg hchecks] at hrun
    cases hrun
    exact h

/-! ## De-initialisation -/

/-- The rest of the list of pools once one is taken out. -/
theorem Registered.filter (h : Registered s pools)
    (hchain : Chain (poolNext s'.mem) s'.poolHead ((pools.map fst).filter (· ≠ pool)))
    (heq : ∀ e ∈ pools, e.1 ≠ pool → ∀ d, d + 4 ≤ 940 →
      readWord s'.mem (e.1 + d) = readWord s.mem (e.1 + d)) :
    Registered s' (pools.filter (·.1 ≠ pool)) := by
  refine ⟨⟨?_, ?_, ?_⟩, ?_, h.apart.filter _⟩
  · rwa [List.filter_map] at hchain
  all_goals
    intro e he
    obtain ⟨he, hne⟩ := mem_filter.mp he
    have hne : e.1 ≠ pool := by simpa using hne
  · exact (heq e he hne 4 (by decide)).trans (h.size e he)
  · exact h.fits e he
  · exact (heq e he hne 0 (by decide)).trans (h.info e he)

theorem Registered.readWord_memPoolDeInit (h : Registered s pools)
    (hpool : pool ∈ pools.map fst) (he : e ∈ pools) (hne : e.1 ≠ pool)
    (hd : d + 4 ≤ memPoolHeadSize) :
    readWord (memPoolDeInit m pool size) (e.1 + d) = readWord m (e.1 + d) := by
  obtain ⟨f, hf, rfl⟩ := mem_map.mp hpool
  have hap : e.1 + e.2 ≤ f.1 ∨ f.1 + f.2 ≤ e.1 := h.apart_of_ne he hf fun hef => hne (by rw [hef])
  have hfe := (h.fits e he).1
  have hff := (h.fits f hf).1
  unfold memMinPoolSize at hfe hff
  exact readWord_congr fun i hi hi' => memPoolDeInit_outside (by omega)

theorem filter_ne_of_nodup {l l' : List Nat} (hnd : (l ++ a :: l').Nodup) :
    (l ++ a :: l').filter (· ≠ a) = l ++ l' := by
  obtain ⟨-, hnd', hdisj⟩ := nodup_append.mp hnd
  have hl : ∀ x ∈ l, decide (x ≠ a) = true := fun x hx =>
    decide_eq_true (hdisj x hx a mem_cons_self)
  have hl' : ∀ x ∈ l', decide (x ≠ a) = true := fun x hx =>
    decide_eq_true fun hxa => (nodup_cons.mp hnd').1 (hxa ▸ hx)
  rw [filter_append, filter_cons_of_neg (by simp), filter_eq_self.mpr hl, filter_eq_self.mpr hl']

/-- `OsMemPoolDelete` and the end of `LOS_MemDeInit` on a registered pool. -/
theorem Registered.memPoolDelete (h : Registered s pools) (hpool : pool ∈ pools.map fst) :
    ∃ s1, memPoolDelete s pool = some (s1, .ok) ∧
      ∀ size, Registered ⟨memPoolDeInit s1.mem pool size, s1.poolHead⟩ (pools.filter (·.1 ≠ pool)) := by
  have hnd := h.nodup
  by_cases hhead : pool = s.poolHead
  · -- the first pool: the list starts with the next one
    obtain ⟨l, hl, hchain⟩ := h.chain.first fun h0 => h.chain.zero_notMem (h0 ▸ hhead ▸ hpool)
    refine ⟨_, if_pos hhead, fun size => h.filter ?_ fun e he hne d hd =>
      h.readWord_memPoolDeInit hpool he hne (hd.trans (by decide))⟩
    rw [← hhead] at hl hchain
    rw [hl] at hnd
    have hfilter : (pools.map fst).filter (· ≠ pool) = l := by
      rw [hl]
      exact filter_ne_of_nodup (l := []) hnd
    rw [hfilter]
    rw [← hhead]
    refine hchain.congr fun n hn => ?_
    have hn' : n ∈ pools.map fst := hl ▸ mem_cons_of_mem _ hn
    obtain ⟨e, he, rfl⟩ := mem_map.mp hn'
    exact h.readWord_memPoolDeInit hpool he (fun hep => (nodup_cons.mp hnd).1 (hep ▸ hn))
      (by decide)
  -- a later one: the pool before it is linked to the pool behind it
  obtain ⟨before, p, after, hsplit, hloop⟩ :=
    @memPoolDeleteLoop_found _ _ _ s.poolHead _ _ h.chain h.length_lt hpool
  obtain ⟨first, hl, -⟩ := h.chain.first fun h0 => by
    rw [h.poolHead_eq_zero_iff.mp h0] at hpool
    simp at hpool
  cases before with
  | nil =>
    rw [hl] at hsplit
    exact absurd (cons.inj (cons.inj hsplit).2).1.symm hhead
  | cons x before =>
    have hmap : pools.map fst = before ++ p :: pool :: after := (cons.inj hsplit).2
    have hp : p ∈ pools.map fst := by simp [hmap]
    rw [hmap] at hnd
    have hfilter : (pools.map fst).filter (· ≠ pool) = before ++ p :: after := by
      rw [hmap]
      rw [append_cons] at hnd ⊢
      rw [filter_ne_of_nodup hnd, ← append_cons]
    -- the words of the other pools
    have hword : ∀ (size : Nat) (e : Nat × Nat), e ∈ pools → e.1 ≠ pool → ∀ d,
        d + 4 ≤ memPoolHeadSize → e.1 ≠ p ∨ d + 4 ≤ 940 →
        readWord (memPoolDeInit (writeWord s.mem (nextPoolAt p) (poolNext s.mem pool)) pool size)
          (e.1 + d) = readWord s.mem (e.1 + d) := fun size e he hne d hd hd' =>
      (h.readWord_memPoolDeInit hpool he hne hd).trans
        (h.readWord_other he hp hd (by decide) (hd'.imp_right .inl))
    have hrun : Kernel.memPoolDelete s pool =
        some (⟨writeWord s.mem (nextPoolAt p) (poolNext s.mem pool), s.poolHead⟩, .ok) := by
      rw [Kernel.memPoolDelete, if_neg hhead, hloop]
      rfl
    refine ⟨_, hrun, fun size => h.filter ?_ fun e he hne d hd =>
      hword size e he hne d (hd.trans (by decide)) (.inr hd)⟩
    rw [hfilter]
    have hchain := h.chain
    rw [hmap] at hchain
    obtain ⟨-, hnd', hdisj⟩ := nodup_append.mp hnd
    obtain ⟨hpn, hnd'⟩ := nodup_cons.mp hnd'
    refine hchain.unlink ?_ fun y hy => ?_
    · obtain ⟨e, he, rfl⟩ := mem_map.mp hp
      have hne : e.1 ≠ pool := fun hep => hpn (hep ▸ mem_cons_self)
      rw [poolNext, nextPoolAt, h.readWord_memPoolDeInit hpool he hne (by decide)]
      exact readWord_writeWord (readWord_lt _ _)
    have hy' : y ∈ pools.map fst := by
      rw [hmap]
      rcases mem_append.mp hy with hy | hy <;> simp [hy]
    obtain ⟨e, he, rfl⟩ := mem_map.mp hy'
    have hne : e.1 ≠ pool ∧ e.1 ≠ p := by
      rcases mem_append.mp hy with hy | hy
      · exact ⟨hdisj _ hy _ (by simp), hdisj _ hy _ (by simp)⟩
      · exact ⟨fun hep => (nodup_cons.mp hnd').1 (hep ▸ hy),
          fun hep => hpn (hep ▸ mem_cons_of_mem _ hy)⟩
    exact hword size e he hne.1 940 (by decide) (.inl hne.2)

theorem Registered.memPoolDelete_absent (h : Registered s pools) (h0 : pool ≠ 0)
    (hpool : pool ∉ pools.map fst) : Kernel.memPoolDelete s pool = some (s, .nok) := by
  have hhead : pool ≠ s.poolHead := by
    intro hhead
    obtain ⟨l, hl, -⟩ := h.chain.first (hhead ▸ h0)
    exact hpool (by rw [hl, ← hhead]; exact mem_cons_self)
  rw [Kernel.memPoolDelete, if_neg hhead, memPoolDeleteLoop_absent h.chain h.length_lt hpool]
  rfl

/-- **One call of `LOS_MemDeInit`.** -/
theorem Registered.memDeInit {ret : MemRet} (h : Registered s pools)
    (hrun : memDeInit s pool = some (s', ret)) :
    Registered s' (if ret = .ok then pools.filter (·.1 ≠ pool) else pools) ∧
      (ret = .ok ↔ pool ∈ pools.map fst) := by
  have hchecks : pool ∈ pools.map fst → pool ≠ 0 ∧
      ¬(readWord s.mem pool ≠ pool ∨ readWord s.mem (totalSizeAt pool) ≤ memMinPoolSize) := by
    intro hpool
    refine ⟨fun h0 => h.chain.zero_notMem (h0 ▸ hpool), ?_⟩
    obtain ⟨e, he, rfl⟩ := mem_map.mp hpool
    have := (h.fits e he).1
    rw [h.info e he, h.size e he]
    omega
  by_cases hpool : pool ∈ pools.map fst
  · obtain ⟨h0, hinfo⟩ := hchecks hpool
    obtain ⟨s1, hdel, hreg⟩ := h.memPoolDelete hpool
    rw [Kernel.memDeInit, if_neg h0, if_neg hinfo, hdel] at hrun
    cases hrun
    exact ⟨hreg _, by simp [hpool]⟩
  have hnok : s' = s ∧ ret = .nok := by
    unfold Kernel.memDeInit at hrun
    split_ifs at hrun with h0 hinfo
    · cases hrun
      exact ⟨rfl, rfl⟩
    · cases hrun
      exact ⟨rfl, rfl⟩
    · rw [h.memPoolDelete_absent h0 hpool] at hrun
      cases hrun
      exact ⟨rfl, rfl⟩
  obtain ⟨rfl, rfl⟩ := hnok
  exact ⟨h, by simp [hpool]⟩

end

/-! ## Runs -/

/-- The two calls. -/
inductive MemOp where
  /-- `LOS_MemInit`. -/
  | init (pool size : UInt32)
  /-- `LOS_MemDeInit`. -/
  | deInit (pool : UInt32)
  deriving DecidableEq

/-- The memory, and the pools that were initialised with `LOS_OK` and not de-initialised since. -/
structure PoolsState extends MemState where
  pools : List (Nat × Nat)

namespace PoolsState

/-- No pool yet. -/
def start (m : Memory) : PoolsState := ⟨⟨m, 0⟩, []⟩

/-- A call that does not return is no step. -/
def step (s : PoolsState) : MemOp → Option PoolsState
  | .init pool size => do
    let (s', ret) ← memInit s.toMemState pool.toNat size.toNat
    some ⟨s', if ret = .ok then s.pools ++ [(pool.toNat, size.toNat)] else s.pools⟩
  | .deInit pool => do
    let (s', ret) ← memDeInit s.toMemState pool.toNat
    some ⟨s', if ret = .ok then s.pools.filter (·.1 ≠ pool.toNat) else s.pools⟩

/-- The address range of a region does not wrap, and the region is admissible. -/
def Sound (s : PoolsState) : MemOp → Prop
  | .init pool size => memInitChecks pool.toNat size.toNat →
      pool.toNat + size.toNat < 2 ^ 32 ∧ Admissible s.mem s.pools pool.toNat size.toNat
  | .deInit _ => True

instance decidableSound (s : PoolsState) : ∀ op, Decidable (s.Sound op)
  | .init _ _ => inferInstanceAs (Decidable (_ → _))
  | .deInit _ => inferInstanceAs (Decidable True)

end PoolsState

theorem Registered.step {s s' : PoolsState} {op : MemOp} (h : Registered s.toMemState s.pools)
    (hok : s.Sound op) (hrun : s.step op = some s') : Registered s'.toMemState s'.pools := by
  cases op with
  | init pool size =>
    obtain ⟨⟨t, ret⟩, ht, hrun⟩ := bind_eq_some_iff.mp hrun
    cases hrun
    exact h.memInit hok ht
  | deInit pool =>
    obtain ⟨⟨t, ret⟩, ht, hrun⟩ := bind_eq_some_iff.mp hrun
    cases hrun
    exact (h.memDeInit ht).1

theorem registered_of_sound {m : Memory} {ops : List MemOp} {s : PoolsState}
    (hok : Guarded PoolsState.step PoolsState.Sound (.start m) ops)
    (hrun : exec PoolsState.step (.start m) ops = some s) : Registered s.toMemState s.pools := by
  have hstart : Registered (PoolsState.start m).toMemState (PoolsState.start m).pools :=
    ⟨⟨rfl, by simp [PoolsState.start], by simp [PoolsState.start]⟩, by simp [PoolsState.start],
      .nil⟩
  have hkept : ∀ (s : PoolsState) op s', Registered s.toMemState s.pools → s.Sound op →
      s.step op = some s' → Registered s'.toMemState s'.pools := fun _ _ _ h ho hr => h.step ho hr
  exact exec_inv_guarded hkept hstart hok hrun

/-- **The registered pools are disjoint**, and `g_poolHead` lists exactly the pools in use, each
once. -/
theorem pools_disjoint (m : Memory) (ops : List MemOp) (s : PoolsState)
    (hok : Guarded PoolsState.step PoolsState.Sound (.start m) ops)
    (hrun : exec PoolsState.step (.start m) ops = some s) :
    Chain (poolNext s.mem) s.poolHead (s.pools.map fst) ∧ (s.pools.map fst).Nodup ∧
      s.pools.Pairwise Apart := by
  have h := registered_of_sound hok hrun
  exact ⟨h.chain, h.nodup, h.apart⟩

/-- Two pools are initialised, a region that overlaps both is refused, and another one takes the
place of the first. -/
def threePools : List MemOp :=
  [.init 0x10000 0x4000, .init 0x14000 0x1000, .init 0x12000 0x8000, .deInit 0x10000,
    .init 0x11000 0x3000]

theorem pools_disjoint_threePools :
    Guarded PoolsState.step PoolsState.Sound (.start fun _ => 0) threePools ∧
      ∃ s, exec PoolsState.step (.start fun _ => 0) threePools = some s ∧
        s.pools = [(0x14000, 0x1000), (0x11000, 0x3000)] ∧
        Chain (poolNext s.mem) s.poolHead (s.pools.map fst) ∧ (s.pools.map fst).Nodup ∧
        s.pools.Pairwise Apart := by
  have hok : Guarded PoolsState.step PoolsState.Sound (.start fun _ => 0) threePools := by
    decide +kernel
  obtain ⟨s, hs, hpools⟩ : ∃ s, exec PoolsState.step (.start fun _ => 0) threePools = some s ∧
      s.pools = [(0x14000, 0x1000), (0x11000, 0x3000)] := by
    decide +kernel
  exact ⟨hok, s, hs, hpools, pools_disjoint _ _ s hok hs⟩

/-- A region strictly inside a registered pool is registered as well. -/
theorem pools_overlap : ∃ s, exec PoolsState.step (.start fun _ => 0)
        [.init 0x10000 0x4000, .init 0x11000 0x1000] = some s ∧
      s.pools = [(0x10000, 0x4000), (0x11000, 0x1000)] ∧
      poolNext s.mem 0x10000 = 0x11000 ∧ ¬s.pools.Pairwise Apart := by
  decide +kernel

/-! ## A refused region -/

/-- What `LOS_MemInit` of the region writes before the comparison misses the pool: the head with the first node
behind it, the end node and, for a size that `memset_s` refuses, the node that the old entry of the free list
points to. -/
def Misses (m : Memory) (pool size : Nat) (e : Nat × Nat) : Prop :=
  Apart (pool, memPoolHeadSize + 16) e ∧ Apart (memEndNode pool size, memNodeHeadSize) e ∧
    (securecMemMaxLen < size → readWord m (freeListAt pool (newPoolIndex size)) = 0 ∨
      Apart ((readWord m (freeListAt pool (newPoolIndex size)) + 8) % 2 ^ 32, 4) e)
  deriving Decidable

section
variable {s s' : MemState} {m : Memory} {pool size : Nat} {e : Nat × Nat}

theorem readWord_memPoolDeInit {a : Nat} (hhead : pool ≤ a ∧ a + 4 ≤ pool + memPoolHeadSize) :
    readWord (memPoolDeInit m pool size) a = if size ≤ securecMemMaxLen then 0 else readWord m a := by
  unfold memPoolDeInit
  split
  · have hzero : readWord (fun _ => 0) a = 0 := rfl
    rw [← hzero]
    exact readWord_congr fun i hi hi' => if_pos (by omega)
  · rfl

/-- Where the stores of `OsMemPoolInit` fall. -/
theorem mem_poolStores {st : Nat × Nat} (hindex : newPoolIndex size < memFreeListCount)
    (hst : st ∈ poolStores m pool size) :
    pool ≤ st.1 ∧ st.1 + 4 ≤ pool + (memPoolHeadSize + 16) ∨
    memEndNode pool size ≤ st.1 ∧ st.1 + 4 ≤ memEndNode pool size + memNodeHeadSize ∨
    readWord m (freeListAt pool (newPoolIndex size)) ≠ 0 ∧
      st.1 = (readWord m (freeListAt pool (newPoolIndex size)) + 8) % 2 ^ 32 := by
  have hlist : readWord (applyStores m (infoStores m pool size)) (freeListAt pool (newPoolIndex size)) =
      readWord m (freeListAt pool (newPoolIndex size)) := by
    refine readWord_applyStores fun st hst => ?_
    unfold memFreeListCount at hindex
    simp only [infoStores, memFirstNode, totalSizeAt, attrAt, freeListAt, memPoolHeadSize, mem_cons,
      not_mem_nil, or_false] at hst ⊢
    rcases hst with rfl | rfl | rfl | rfl | rfl <;> dsimp only <;> omega
  unfold memFreeListCount at hindex
  unfold memNodeHeadSize memPoolHeadSize
  rcases mem_append.mp hst with hst | hst
  · rcases mem_append.mp hst with hst | hst
    · left
      simp only [infoStores, memFirstNode, memPoolHeadSize, totalSizeAt, attrAt, mem_cons, not_mem_nil,
        or_false] at hst
      rcases hst with rfl | rfl | rfl | rfl | rfl <;> dsimp only <;> omega
    simp only [listAddStores, hlist, memFirstNode, memPoolHeadSize, freeListBitmapAt, append_assoc, mem_append,
      mem_cons, not_mem_nil, or_false] at hst
    rcases hst with hst | (rfl | rfl | rfl) | rfl
    · right
      right
      split at hst
      · cases hst
      · rename_i hne
        exact ⟨hne, congrArg fst (mem_singleton.mp hst)⟩
    all_goals
      left
      dsimp only [freeListAt]
      omega
  · simp only [endStores, curUsedSizeAt, waterLineAt, mem_cons, not_mem_nil, or_false] at hst
    rcases hst with rfl | rfl | rfl | rfl | rfl <;> dsimp only <;> omega

theorem Misses.spares (h : Misses m pool size e) (hindex : newPoolIndex size < memFreeListCount) :
    Spares m pool size e.1 e.2 := by
  obtain ⟨hhead, hend, hentry⟩ := h
  refine ⟨fun _ => ?_, fun st hst => ?_⟩
  · unfold Apart at hhead
    dsimp only at hhead
    omega
  have hword := @readWord_memPoolDeInit m pool size (freeListAt pool (newPoolIndex size))
    (by unfold freeListAt memPoolHeadSize; unfold memFreeListCount at hindex; omega)
  unfold Apart at hhead hend hentry
  rcases mem_poolStores hindex hst with hin | hin | ⟨hne, hin⟩
  · dsimp only at hhead
    omega
  · dsimp only at hend
    omega
  rw [hword] at hne hin
  split_ifs at hne hin with hmax
  · exact absurd rfl hne
  · have := (hentry (by omega)).resolve_left hne
    dsimp only at this
    omega

theorem memPoolAdd_refused (hrun : memPoolAdd s pool size = some (s', .nok)) : s' = s := by
  obtain ⟨⟨ret, curPool⟩, -, hrun⟩ := bind_eq_some_iff.mp hrun
  cases ret with
  | ok => simp at hrun
  | nok => exact (Prod.mk.inj (some.inj hrun)).1.symm

/-- What a region leaves that passes the checks on the arguments and is refused. -/
theorem memInit_nok (hchecks : memInitChecks pool size = true) (hrun : memInit s pool size = some (s', .nok)) :
    newPoolIndex size < memFreeListCount ∧ s' = ⟨memPoolDeInit (applyStores (memPoolDeInit s.mem pool size)
      (poolStores (memPoolDeInit s.mem pool size) pool size)) pool size, s.poolHead⟩ := by
  unfold memInit at hrun
  rw [if_pos hchecks] at hrun
  obtain ⟨m, hm, hrun⟩ := bind_eq_some_iff.mp hrun
  obtain ⟨⟨t, ret⟩, ht, hrun⟩ := bind_eq_some_iff.mp hrun
  rw [memPoolInit_eq] at hm
  split_ifs at hm with hindex
  rw [some.inj hm]
  cases ret with
  | ok => simp at hrun
  | nok =>
    rw [memPoolAdd_refused ht] at hrun
    exact ⟨Nat.lt_of_not_le hindex, (Prod.mk.inj (some.inj hrun)).1.symm⟩

/-- **A refused `LOS_MemInit` is harmless if it misses the registered pools**: their bytes, `g_poolHead` and the
list are as before. -/
theorem memInit_refused (s s' : MemState) (pools : List (Nat × Nat)) (pool size : Nat)
    (hlist : PoolList s pools) (hmiss : memInitChecks pool size → ∀ e ∈ pools, Misses s.mem pool size e)
    (hrun : memInit s pool size = some (s', .nok)) :
    (∀ e ∈ pools, ∀ i, e.1 ≤ i → i < e.1 + e.2 → s'.mem i = s.mem i) ∧
      s'.poolHead = s.poolHead ∧ Chain (poolNext s'.mem) s'.poolHead (pools.map fst) := by
  by_cases hchecks : memInitChecks pool size = true
  · obtain ⟨hindex, rfl⟩ := memInit_nok hchecks hrun
    have hbytes : ∀ e ∈ pools, ∀ i, e.1 ≤ i → i < e.1 + e.2 → memPoolDeInit (applyStores
        (memPoolDeInit s.mem pool size) (poolStores (memPoolDeInit s.mem pool size) pool size)) pool size i =
          s.mem i := by
      intro e he i hi hi'
      have hspares := (hmiss hchecks e he).spares hindex
      rw [hspares.memPoolDeInit hi hi', applyStores_apply, lastStored_eq_none_iff.mpr, getD_none,
        hspares.memPoolDeInit hi hi']
      intro st hst
      have := hspares.2 st hst
      omega
    refine ⟨hbytes, rfl, hlist.chain.congr fun n hn => ?_⟩
    obtain ⟨e, he, rfl⟩ := mem_map.mp hn
    have hfit := (hlist.fits e he).1
    simp only [memMinPoolSize, memPoolHeadSize] at hfit
    refine readWord_congr fun i hi hi' => ?_
    unfold nextPoolAt at hi hi'
    exact hbytes e he i (by omega) (by omega)
  unfold memInit at hrun
  rw [if_neg hchecks] at hrun
  cases hrun
  exact ⟨fun _ _ _ _ _ => rfl, rfl, hlist.chain⟩

end

/-- A region that covers the whole of a registered pool is refused; its head lies in front of the pool and its end
node behind. -/
theorem memInit_refused_covers : ∃ s s' : MemState, PoolList s [(0x10000, 0x4000)] ∧
      memInit s 0xF000 0x6000 = some (s', .nok) ∧ memInitChecks 0xF000 0x6000 = true ∧
      (∀ i, 0x10000 ≤ i → i < 0x14000 → s'.mem i = s.mem i) ∧ s'.poolHead = s.poolHead := by
  have hok : Guarded PoolsState.step PoolsState.Sound (.start fun _ => 0)
      [.init 0x10000 0x4000] := by
    decide +kernel
  obtain ⟨s, hs, hpools, hmiss, ⟨s', -⟩, hs', rfl⟩ : ∃ s, exec PoolsState.step (.start fun _ => 0)
      [.init 0x10000 0x4000] = some s ∧ s.pools = [(0x10000, 0x4000)] ∧
      (∀ e ∈ [(0x10000, 0x4000)], Misses s.mem 0xF000 0x6000 e) ∧
      ∃ r, memInit s.toMemState 0xF000 0x6000 = some r ∧ r.2 = .nok := by
    decide +kernel
  have hlist := (registered_of_sound hok hs).toPoolList
  rw [hpools] at hlist
  obtain ⟨hbytes, hhead, -⟩ := memInit_refused _ _ _ _ _ hlist (fun _ => hmiss) hs'
  exact ⟨s.toMemState, s', hlist, hs', by decide, hbytes _ (mem_singleton_self _), hhead⟩

/-- The second initialisation of a pool is refused, and has cleared its head. -/
theorem memInit_refused_clears :
    ∃ (s : PoolsState) (s' : MemState), exec PoolsState.step (.start fun _ => 0)
        [.init 0x10000 0x4000] = some s ∧ s.pools = [(0x10000, 0x4000)] ∧
      memInit s.toMemState 0x10000 0x4000 = some (s', .nok) ∧
      readWord s.mem (totalSizeAt 0x10000) = 0x4000 ∧ readWord s'.mem (totalSizeAt 0x10000) = 0 := by
  obtain ⟨s, hs, hpools, htotal, ⟨s', -⟩, hs', rfl, hzero⟩ : ∃ s, exec PoolsState.step
      (.start fun _ => 0) [.init 0x10000 0x4000] = some s ∧ s.pools = [(0x10000, 0x4000)] ∧
      readWord s.mem (totalSizeAt 0x10000) = 0x4000 ∧ ∃ r, memInit s.toMemState 0x10000 0x4000 =
        some r ∧ r.2 = .nok ∧ readWord r.1.mem (totalSizeAt 0x10000) = 0 := by
    decide +kernel
  exact ⟨s, s', hs, hpools, hs', htotal, hzero⟩

end LiteosM.Kernel
