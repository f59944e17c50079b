import LiteosM.Kernel.Swtmr
import Mathlib.Data.List.Perm.Subperm

/-!
# Where the control blocks are

Each control block is in the free list, at rest with the owner of its ID, linked in the sort link,
or, for a one-shot timer that has expired, on its way to `OsSwtmrTask`. A step takes one block out of
where it is and puts it somewhere else; `Owned s free links (some i)` describes the moment between,
when block `i` is nowhere.

`OsSwtmrTask` gives back a one-shot timer without looking at whether it was started again, and an
expiry that finds the queue full is dropped. The steps that lead there are left out by `Sound`.

* `Owned.take`, `Owned.unlink`, `Owned.pop`: a block is taken out;
* `Owned.put`, `Owned.link`, `Owned.push`: a block is put back;
* **`swtmr_ownership`**: in every run of sound steps every block is in exactly one place.
-/

namespace LiteosM.Kernel

open LiteosM.Lib Function Option Swtmr
open List (mem_map not_mem_nil map_append mem_cons_self range mem_range mem_cons)

/-- The list in the sort link. -/
def sortLists (links : List Nat) : NodeLists SwtmrNode := fun n =>
  if n = .sortLink then some (links.map .timer) else none

namespace Swtmr

/-- The IDs of the expiries that `OsSwtmrTask` has not looked at yet. -/
@[simp] def pendingIDs (s : Swtmr) : List Nat :=
  (match s.pc with | .read item => [item.swtmrID] | _ => []) ++ s.queue.map (·.swtmrID)

/-- What the fields of a control block say about where it is. -/
def BlockOk (c : SwtmrCtrl) (isFree isLinked pending : Prop) : Prop :=
  match c.state with
  | .unused => isFree ∧ ¬isLinked ∧ ¬pending
  | .created => ¬isFree ∧ ¬isLinked ∧ c.handler ≠ 0 ∧ c.responseTime = invalidTime
  | .ticking => ¬isFree ∧ c.handler ≠ 0 ∧
    (isLinked ∧ c.responseTime ≠ invalidTime ∧ (c.mode = .once → ¬pending) ∨
      ¬isLinked ∧ c.responseTime = invalidTime ∧ c.mode = .once ∧ pending)

/-- The steps that keep the blocks in place: no one-shot timer is started while an expiry of its ID
waits for `OsSwtmrTask`, the expiry of a one-shot timer finds room in the queue, and a block that is
given back does not get an ID for which an expiry still waits (IDs come round after some 89 million
deletions). The clock stays below half of its range. -/
def Sound (s : Swtmr) : SwtmrOp → Prop
  | .start swtmrId =>
    let c := s.cb (swtmrId.toNat % swtmrLimit)
    c.timerID = swtmrId.toNat → c.mode = .once → swtmrId.toNat ∉ s.pendingIDs
  | .delete swtmrId =>
    (s.cb (swtmrId.toNat % swtmrLimit)).timerID = swtmrId.toNat →
      nextTimerID swtmrId.toNat ∉ s.pendingIDs
  | .clock now => now < 2 ^ 63
  | .scan => ∀ i ∈ s.expired, (s.cb i).mode = .once → s.queue.length < swtmrLimit
  | .taskCheck =>
    match s.pc with
    | .read item =>
      (s.cb (item.swtmrID % swtmrLimit)).timerID = item.swtmrID →
        (s.cb (item.swtmrID % swtmrLimit)).mode = .once →
          nextTimerID item.swtmrID ∉ s.queue.map (·.swtmrID)
    | _ => True
  | _ => True

instance decidableSound (s : Swtmr) : ∀ op, Decidable (s.Sound op)
  | .create .. | .stop _ | .taskRead | .taskCall => inferInstanceAs (Decidable True)
  | .start _ | .delete _ => inferInstanceAs (Decidable (_ → _))
  | .clock _ => inferInstanceAs (Decidable (_ < _))
  | .scan => inferInstanceAs (Decidable (∀ i ∈ s.expired, _))
  | .taskCheck => by
    unfold Sound
    cases s.pc <;> infer_instance

/-- The blocks `free` are in the free list, the blocks `links` in the sort link; `out` is nowhere,
all others are where their fields say. -/
structure Owned (s : Swtmr) (free links : List Nat) (out : Option Nat) : Prop where
  rings : Rings s.heap (sortLists links)
  chain : Chain (fun p => (s.cb (p - 1)).pstNext) s.freeList (free.map (· + 1))
  nodup : free.Nodup
  lt : ∀ i, i ∈ free ∨ i ∈ links ∨ i ∈ out → i < swtmrLimit
  away : ∀ i ∈ out, i ∉ free ∧ i ∉ links
  ids : ∀ i < swtmrLimit, (s.cb i).timerID % swtmrLimit = i ∧ (s.cb i).timerID < swtmrMaxTimerID
  items : ∀ item, s.pc = .read item ∨ item ∈ s.queue →
    item.handler ≠ 0 ∧ item.swtmrID < swtmrMaxTimerID
  blocks : ∀ i < swtmrLimit, i ∉ out →
    BlockOk (s.cb i) (i ∈ free) (i ∈ links) ((s.cb i).timerID ∈ s.pendingIDs)

section

variable {s s' : Swtmr} {free links : List Nat} {i : Nat}

/-! ## The sort link -/

theorem sortLists_at : (sortLists links).at .sortLink = links.map .timer := rfl

theorem update_sortLists (l : List Nat) :
    update (sortLists links) .sortLink (some (l.map .timer)) = sortLists l := by
  funext n
  cases n with
  | sortLink | timer => rfl

theorem sortLists_free (hi : i ∉ links) : (sortLists links).Free (.timer i) := by
  refine ⟨rfl, fun n => ?_⟩
  cases n with
  | sortLink =>
    rw [sortLists_at, List.mem_map]
    rintro ⟨j, hj, heq⟩
    exact hi (SwtmrNode.timer.inj heq ▸ hj)
  | timer j => exact not_mem_nil

theorem links_nodup (hR : Rings s.heap (sortLists links)) : links.Nodup :=
  (hR.once .sortLink).of_map _

/-- `OsAddNode2SortLink` puts the timer somewhere into the list and does nothing else. -/
theorem addNode2SortLink_spec (hR : Rings s.heap (sortLists links)) (hi : i ∉ links)
    (hlen : links.length ≤ swtmrLimit) :
    ∃ h links', s.addNode2SortLink i = s.setHeap h ∧ Rings h (sortLists links') ∧
      links'.Perm (i :: links) := by
  have hlist : s.heap.IsList .sortLink (links.map .timer) := hR.isList rfl
  obtain ⟨l1, a, l2, hsplit, ha, hadd, -⟩ := @SortLink.addNode2SortLink_spec _ _ (s.linkTime i) _ swtmrLimit _ (.timer i) _
    hlist.1 hlist.2 (by rwa [List.length_map])
  obtain ⟨k1, k2, rfl, rfl, rfl⟩ := List.map_eq_append_iff.mp hsplit
  refine ⟨s.heap.add a (.timer i), k1 ++ i :: k2, by rw [addNode2SortLink, hadd]; rfl, ?_, List.perm_middle⟩
  rw [← update_sortLists, map_append]
  exact hR.add (congrArg some (map_append ..)) ha (sortLists_free hi)

@[simp] theorem cb_setCB_self (f : SwtmrCtrl → SwtmrCtrl) : (s.setCB i f).cb i = f (s.cb i) :=
  update_self ..

theorem cb_setCB_ne {j : Nat} (h : j ≠ i) (f : SwtmrCtrl → SwtmrCtrl) :
    (s.setCB i f).cb j = s.cb j :=
  update_of_ne h ..

@[simp] theorem pendingIDs_setCB (f : SwtmrCtrl → SwtmrCtrl) :
    (s.setCB i f).pendingIDs = s.pendingIDs := rfl

variable {id : Nat}

/-- `usTimerID` stays congruent to the index of its block. -/
theorem nextTimerID_spec (hid : id % swtmrLimit = i ∧ id < swtmrMaxTimerID) :
    nextTimerID id % swtmrLimit = i ∧ nextTimerID id < swtmrMaxTimerID := by
  unfold nextTimerID
  split_ifs with hlt
  · simp only [swtmrLimit] at hid hlt ⊢
    omega
  · simp only [swtmrLimit] at hid ⊢
    omega

/-! ## A block is taken out or put back -/

namespace Owned

theorem length_links {out : Option Nat} (h : Owned s free links out) : links.length ≤ swtmrLimit := by
  have hsub : links ⊆ range swtmrLimit := fun i hi =>
    mem_range.mpr (h.lt i (.inr (.inl hi)))
  have := (List.subperm_of_subset (links_nodup h.rings) hsub).length_le
  rwa [List.length_range] at this

/-- A block that is neither free nor linked is taken. -/
theorem take (h : Owned s free links none) (hi : i < swtmrLimit) (hfree : i ∉ free)
    (hlink : i ∉ links) : Owned s free links (some i) where
  __ := h
  lt := by
    rintro j (hj | hj | hj)
    · exact h.lt j (.inl hj)
    · exact h.lt j (.inr (.inl hj))
    · exact some.inj hj ▸ hi
  away j hj := some.inj hj ▸ ⟨hfree, hlink⟩
  blocks j hj _ := h.blocks j hj (by simp)

/-- A block stays neither free nor linked. -/
theorem put (h : Owned s free links (some i))
    (hok : BlockOk (s.cb i) (i ∈ free) (i ∈ links) ((s.cb i).timerID ∈ s.pendingIDs)) :
    Owned s free links none where
  __ := h
  lt := by
    rintro j (hj | hj | hj)
    · exact h.lt j (.inl hj)
    · exact h.lt j (.inr (.inl hj))
    · cases hj
  away j hj := by cases hj
  blocks j hj _ := by
    by_cases hji : j = i
    · exact hji ▸ hok
    · exact h.blocks j hj fun hc => hji (some.inj hc).symm

/-- The block that is nowhere may be written. -/
theorem setCB (h : Owned s free links (some i)) (f : SwtmrCtrl → SwtmrCtrl)
    (hid : (f (s.cb i)).timerID = (s.cb i).timerID) : Owned (s.setCB i f) free links (some i) where
  __ := h
  chain := by
    refine h.chain.congr fun p hp => ?_
    obtain ⟨j, hj, rfl⟩ := mem_map.mp hp
    have hji : j ≠ i := fun hji => (h.away i rfl).1 (hji ▸ hj)
    rw [Nat.add_sub_cancel, cb_setCB_ne hji]
  ids j hj := by
    by_cases hji : j = i
    · subst hji
      rw [cb_setCB_self, hid]
      exact h.ids j hj
    · rw [cb_setCB_ne hji]
      exact h.ids j hj
  blocks j hj hout := by
    have hji : j ≠ i := fun hji => hout (hji ▸ rfl)
    rw [cb_setCB_ne hji]
    exact h.blocks j hj hout

section
variable (h : Owned s free links none)
include h

/-- A linked timer is ticking. -/
theorem ticking_of_mem (hi : i ∈ links) :
    (s.cb i).state = .ticking ∧ i ∉ free ∧ (s.cb i).handler ≠ 0 ∧
      ((s.cb i).mode = .once → (s.cb i).timerID ∉ s.pendingIDs) := by
  have hok := h.blocks i (h.lt i (.inr (.inl hi))) (by simp)
  unfold BlockOk at hok
  cases hstate : (s.cb i).state with
  | unused | created =>
    rw [hstate] at hok
    exact absurd hi hok.2.1
  | ticking =>
    rw [hstate] at hok
    obtain ⟨hfree, hhandler, hlink | hlink⟩ := hok
    · exact ⟨rfl, hfree, hhandler, hlink.2.2⟩
    · exact absurd hi hlink.1

/-- A block of the free list is unused. -/
theorem unused_of_mem (hi : i ∈ free) :
    (s.cb i).state = .unused ∧ (s.cb i).timerID ∉ s.pendingIDs := by
  have hok := h.blocks i (h.lt i (.inl hi)) (by simp)
  unfold BlockOk at hok
  cases hstate : (s.cb i).state with
  | unused =>
    rw [hstate] at hok
    exact ⟨rfl, hok.2.2⟩
  | created | ticking =>
    rw [hstate] at hok
    exact absurd hi hok.1

/-- A linked timer is taken out of the sort link. -/
theorem unlink (hi : i ∈ links) : Owned (s.deleteNodeSortLink i) free (links.erase i) (some i) := by
  have hmem : SwtmrNode.timer i ∈ (sortLists links).at .sortLink := List.mem_map_of_mem hi
  have hrings := h.rings.delete_mem hmem
  have hinj : Injective SwtmrNode.timer := fun a b hab => SwtmrNode.timer.inj hab
  rw [sortLists_at, ← List.map_erase hinj, update_sortLists] at hrings
  have hnd := links_nodup h.rings
  have hcut : Owned (s.setHeap (s.heap.delete (.timer i))) free (links.erase i) (some i) :=
    { h with
      rings := hrings
      lt := by
        rintro j (hj | hj | hj)
        · exact h.lt j (.inl hj)
        · exact h.lt j (.inr (.inl (List.mem_of_mem_erase hj)))
        · exact some.inj hj ▸ h.lt i (.inr (.inl hi))
      away := fun j hj => some.inj hj ▸ ⟨(h.ticking_of_mem hi).2.1, hnd.not_mem_erase⟩
      blocks := fun j hj hout => by
        have hji : j ≠ i := fun hji => hout (hji ▸ rfl)
        rw [List.mem_erase_of_ne hji]
        exact h.blocks j hj (by simp) }
  exact hcut.setCB _ rfl

end

section
variable (h : Owned s free links (some i))
include h

/-- A timer is linked. -/
theorem link (hstate : (s.cb i).state = .ticking)
    (hhandler : (s.cb i).handler ≠ 0) (htime : (s.cb i).responseTime ≠ invalidTime)
    (honce : (s.cb i).mode = .once → (s.cb i).timerID ∉ s.pendingIDs) :
    ∃ links', Owned (s.addNode2SortLink i) free links' none := by
  obtain ⟨hfree, hlink⟩ := h.away i rfl
  obtain ⟨hp, links', heq, hrings, hperm⟩ := addNode2SortLink_spec h.rings hlink h.length_links
  refine ⟨links', ?_⟩
  rw [heq]
  have hmem : ∀ j, j ∈ links' ↔ j = i ∨ j ∈ links := fun j => by rw [hperm.mem_iff, mem_cons]
  exact
    { h with
      rings := hrings
      lt := by
        rintro j (hj | hj | hj)
        · exact h.lt j (.inl hj)
        · rcases (hmem j).mp hj with rfl | hj
          · exact h.lt j (.inr (.inr rfl))
          · exact h.lt j (.inr (.inl hj))
        · cases hj
      away := fun j hj => by cases hj
      blocks := fun j hj _ => by
        change BlockOk (s.cb j) _ _ ((s.cb j).timerID ∈ s.pendingIDs)
        by_cases hji : j = i
        · subst hji
          unfold BlockOk
          rw [hstate]
          exact ⟨hfree, hhandler, .inl ⟨(hmem j).mpr (.inl rfl), htime, honce⟩⟩
        · rw [hmem, or_iff_right hji]
          exact h.blocks j hj fun hc => hji (some.inj hc).symm }

/-- `OsSwtmrStart`. -/
theorem start (hhandler : (s.cb i).handler ≠ 0)
    (htime : (s.cb i).startTime + s.tickToCycle (s.cb i).interval < invalidTime)
    (honce : (s.cb i).mode = .once → (s.cb i).timerID ∉ s.pendingIDs) :
    ∃ links', Owned (s.swtmrStart i) free links' none := by
  have h1 := h.setCB (fun c => { c with state := .ticking }) rfl
  have h2 := h1.setCB (fun c => { c with
    responseTime := ((s.cb i).startTime + s.tickToCycle (s.cb i).interval) % 2 ^ 64 }) rfl
  have hstart : s.swtmrStart i = (((s.setCB i fun c => { c with state := .ticking }).setCB i
      fun c => { c with
        responseTime := ((s.cb i).startTime + s.tickToCycle (s.cb i).interval) % 2 ^ 64 })
      |>.addNode2SortLink i) := by
    unfold swtmrStart
    simp only [cb_setCB_self]
    rfl
  rw [hstart]
  refine h2.link ?_ ?_ ?_ ?_
  · simp only [cb_setCB_self]
  · simpa only [cb_setCB_self] using hhandler
  · simp only [cb_setCB_self]
    rw [Nat.mod_eq_of_lt (by unfold invalidTime at htime; omega)]
    exact Nat.ne_of_lt htime
  · simpa only [cb_setCB_self, pendingIDs_setCB] using honce

/-- `OsSwtmrDelete`: a block goes to the free list. -/
theorem push (hnew : nextTimerID (s.cb i).timerID ∉ s.pendingIDs) :
    Owned (s.swtmrDelete i) (i :: free) links none := by
  obtain ⟨hfree, hlink⟩ := h.away i rfl
  have hi := h.lt i (.inr (.inr rfl))
  have hself : (s.swtmrDelete i).cb i = { s.cb i with
      timerID := nextTimerID (s.cb i).timerID, pstNext := s.freeList, state := .unused } :=
    update_self ..
  have hne : ∀ j, j ≠ i → (s.swtmrDelete i).cb j = s.cb j := fun j hj =>
    update_of_ne hj ..
  exact
    { h with
      chain := by
        refine ⟨rfl, Nat.succ_ne_zero i, ?_⟩
        change Chain _ ((s.swtmrDelete i).cb (i + 1 - 1)).pstNext _
        rw [Nat.add_sub_cancel, hself]
        refine h.chain.congr fun p hp => ?_
        obtain ⟨j, hj, rfl⟩ := mem_map.mp hp
        rw [Nat.add_sub_cancel, hne j fun hji => hfree (hji ▸ hj)]
      nodup := List.nodup_cons.mpr ⟨hfree, h.nodup⟩
      lt := by
        rintro j (hj | hj | hj)
        · rcases mem_cons.mp hj with rfl | hj
          · exact hi
          · exact h.lt j (.inl hj)
        · exact h.lt j (.inr (.inl hj))
        · cases hj
      away := fun j hj => by cases hj
      ids := fun j hj => by
        by_cases hji : j = i
        · subst hji
          rw [hself]
          exact nextTimerID_spec (h.ids j hj)
        · rw [hne j hji]
          exact h.ids j hj
      blocks := fun j hj _ => by
        by_cases hji : j = i
        · subst hji
          rw [hself]
          exact ⟨mem_cons_self, hlink, hnew⟩
        · rw [hne j hji, mem_cons, or_iff_right hji]
          exact h.blocks j hj fun hc => hji (some.inj hc).symm }

end

/-- `LOS_SwtmrCreate` takes the first free block. -/
theorem pop (h : Owned s free links none) (hne : s.freeList ≠ 0) :
    ∃ rest, free = (s.freeList - 1) :: rest ∧
      Owned { s with freeList := (s.cb (s.freeList - 1)).pstNext } rest links
        (some (s.freeList - 1)) := by
  obtain ⟨l, hl, hchain⟩ := h.chain.first hne
  obtain ⟨i, rest, rfl, hi, rfl⟩ := List.map_eq_cons_iff.mp hl
  rw [← hi] at hchain ⊢
  have hnd := List.nodup_cons.mp h.nodup
  have hlt := h.lt i (.inl mem_cons_self)
  have hlink : i ∉ links := fun hc => (h.ticking_of_mem hc).2.1 mem_cons_self
  exact ⟨rest, rfl,
    { h with
      chain := hchain
      nodup := hnd.2
      lt := by
        rintro j (hj | hj | hj)
        · exact h.lt j (.inl (List.mem_cons_of_mem _ hj))
        · exact h.lt j (.inr (.inl hj))
        · exact some.inj hj ▸ hlt
      away := fun j hj => some.inj hj ▸ ⟨hnd.1, hlink⟩
      blocks := fun j hj hout => by
        have hji : j ≠ i := fun hji => hout (hji ▸ rfl)
        have hok := h.blocks j hj (by simp)
        rwa [mem_cons, or_iff_right hji] at hok }⟩

/-- The expiry of a timer is queued, or dropped. -/
theorem queueWrite (h : Owned s free links (some i)) {item : SwtmrHandlerItem}
    (hid : item.swtmrID = (s.cb i).timerID) (hhandler : item.handler ≠ 0) :
    Owned (s.queueWrite item) free links (some i) := by
  have hids := h.ids i (h.lt i (.inr (.inr rfl)))
  unfold Swtmr.queueWrite
  split
  · exact
      { h with
        items := by
          rintro it (hit | hit)
          · exact h.items it (.inl hit)
          rcases List.mem_append.mp hit with hit | hit
          · exact h.items it (.inr hit)
          · obtain rfl := List.mem_singleton.mp hit
            exact ⟨hhandler, hid ▸ hids.2⟩
        blocks := fun j hj hout => by
          have hji : j ≠ i := fun hji => hout (hji ▸ rfl)
          have hother : (s.cb j).timerID ≠ item.swtmrID := by
            intro heq
            rw [hid] at heq
            exact hji ((h.ids j hj).1.symm.trans (heq ▸ hids.1))
          have hok := h.blocks j hj hout
          have hpend : (s.cb j).timerID ∈ { s with queue := s.queue ++ [item] }.pendingIDs ↔
              (s.cb j).timerID ∈ s.pendingIDs := by
            simp [hother]
          rwa [← hpend] at hok }
  · exact h

/-! ## The calls -/

/-- `OsSwtmrStop`: a ticking timer is at rest. -/
theorem stop (h : Owned s free links none) (hi : i < swtmrLimit) (hstate : (s.cb i).state = .ticking) :
    ∃ links', Owned (s.swtmrStop i) free links' (some i) ∧ (s.swtmrStop i).pendingIDs = s.pendingIDs ∧
      (s.swtmrStop i).cb i =
        { s.cb i with responseTime := invalidTime, state := .created, overrun := 0 } := by
  have hok := h.blocks i hi (by simp)
  unfold BlockOk at hok
  rw [hstate] at hok
  unfold swtmrStop deleteSortLink
  obtain ⟨hfree, -, ⟨hlink, htime, -⟩ | ⟨hlink, htime, -⟩⟩ := hok
  · rw [if_pos htime]
    refine ⟨_, (h.unlink hlink).setCB _ rfl, rfl, ?_⟩
    simp [deleteNodeSortLink, setHeap]
  · rw [if_neg (not_not_intro htime)]
    refine ⟨_, (h.take hi hfree hlink).setCB _ rfl, rfl, ?_⟩
    rw [cb_setCB_self, ← htime]

theorem lookup_ok (hl : s.lookup id = .ok i) :
    i = id % swtmrLimit ∧ i < swtmrLimit ∧ (s.cb i).timerID = id := by
  unfold lookup at hl
  split_ifs at hl with hmax hid
  obtain rfl := Except.ok.inj hl
  exact ⟨rfl, Nat.mod_lt _ (by decide), not_not.mp hid⟩

/-- A tick is at most `2 ^ 64 / 100` cycles for any 32-bit number of ticks. -/
theorem startTime_lt {time : Nat} (htime : time < 2 ^ 63) (ticks : UInt32) :
    time + s.tickToCycle ticks < invalidTime := by
  have hticks := ticks.toNat_lt
  have hclock := s.sysClock.toNat_lt
  have hmul : ticks.toNat * s.sysClock.toNat ≤ (2 ^ 32 - 1) * (2 ^ 32 - 1) :=
    Nat.mul_le_mul (by omega) (by omega)
  simp only [tickToCycle, tickPerSecond, invalidTime]
  omega

section
variable (h : Owned s free links none)
include h

theorem created_out (hi : i < swtmrLimit) (hstate : (s.cb i).state = .created) :
    Owned s free links (some i) ∧ (s.cb i).handler ≠ 0 := by
  have hok := h.blocks i hi (by simp)
  unfold BlockOk at hok
  rw [hstate] at hok
  exact ⟨h.take hi hok.1 hok.2.1, hok.2.2.1⟩

theorem handler_ne_zero (hi : i < swtmrLimit)
    (hstate : (s.cb i).state = .ticking) : (s.cb i).handler ≠ 0 := by
  have hok := h.blocks i hi (by simp)
  unfold BlockOk at hok
  rw [hstate] at hok
  exact hok.2.1

theorem losSwtmrStart (hnow : s.now < 2 ^ 63)
    (hsound : (s.cb (id % swtmrLimit)).timerID = id → (s.cb (id % swtmrLimit)).mode = .once →
      id ∉ s.pendingIDs) : ∃ links', Owned (s.losSwtmrStart id).1 free links' none := by
  unfold Swtmr.losSwtmrStart
  cases hl : s.lookup id with
  | error ret => exact ⟨links, h⟩
  | ok i =>
    obtain ⟨rfl, hi, hid⟩ := lookup_ok hl
    have honce : (s.cb (id % swtmrLimit)).mode = .once →
        (s.cb (id % swtmrLimit)).timerID ∉ s.pendingIDs := fun hmode => by
      rw [hid]
      exact hsound hid hmode
    dsimp only
    split
    · exact ⟨links, h⟩
    · rename_i hstate
      obtain ⟨links', hout, hpend, hcb⟩ := h.stop hi hstate
      refine (hout.setCB (fun c => { c with startTime := s.now }) rfl).start ?_ ?_ ?_
      · rw [cb_setCB_self, hcb]
        exact h.handler_ne_zero hi hstate
      · rw [cb_setCB_self]
        exact startTime_lt hnow _
      · rwa [cb_setCB_self, pendingIDs_setCB, hpend, hcb]
    rename_i hstate
    obtain ⟨hout, hhandler⟩ := h.created_out hi hstate
    refine (hout.setCB (fun c => { c with startTime := s.now }) rfl).start ?_ ?_ ?_
    · rwa [cb_setCB_self]
    · rw [cb_setCB_self]
      exact startTime_lt hnow _
    · rwa [cb_setCB_self]

theorem losSwtmrStop (id : Nat) : ∃ links', Owned (s.losSwtmrStop id).1 free links' none := by
  unfold Swtmr.losSwtmrStop
  cases hl : s.lookup id with
  | error ret => exact ⟨links, h⟩
  | ok i =>
    obtain ⟨rfl, hi, hid⟩ := lookup_ok hl
    dsimp only
    split
    · exact ⟨links, h⟩
    · exact ⟨links, h⟩
    rename_i hstate
    obtain ⟨links', hout, hpend, hcb⟩ := h.stop hi hstate
    refine ⟨links', hout.put ?_⟩
    obtain ⟨hfree, hlink⟩ := hout.away _ rfl
    rw [hcb]
    exact ⟨hfree, hlink, h.handler_ne_zero hi hstate, rfl⟩

theorem losSwtmrDelete
    (hsound : (s.cb (id % swtmrLimit)).timerID = id → nextTimerID id ∉ s.pendingIDs) :
    ∃ free' links', Owned (s.losSwtmrDelete id).1 free' links' none := by
  unfold Swtmr.losSwtmrDelete
  cases hl : s.lookup id with
  | error ret => exact ⟨free, links, h⟩
  | ok i =>
    obtain ⟨rfl, hi, hid⟩ := lookup_ok hl
    have hnew : nextTimerID (s.cb (id % swtmrLimit)).timerID ∉ s.pendingIDs := by
      rw [hid]
      exact hsound hid
    dsimp only
    split
    · exact ⟨free, links, h⟩
    · rename_i hstate
      obtain ⟨links', hout, hpend, hcb⟩ := h.stop hi hstate
      refine ⟨_, links', hout.push ?_⟩
      rwa [hpend, hcb]
    · rename_i hstate
      exact ⟨_, links, (h.created_out hi hstate).1.push hnew⟩

theorem swtmrCreate (interval : UInt32) (mode : Option SwtmrMode)
    (handler arg : Nat) (swtmrId : Bool) :
    ∃ free', Owned (s.swtmrCreate interval mode handler arg swtmrId).1 free' links none := by
  unfold Swtmr.swtmrCreate
  split
  · exact ⟨free, h⟩
  cases mode with
  | none => exact ⟨free, h⟩
  | some mode =>
    split_ifs with hhandler hptr hfree
    · exact ⟨free, h⟩
    · exact ⟨free, h⟩
    · exact ⟨free, h⟩
    obtain ⟨rest, -, hout⟩ := h.pop hfree
    obtain ⟨hfree', hlink'⟩ := hout.away _ rfl
    refine ⟨rest, ?_⟩
    dsimp only
    refine (hout.setCB _ rfl).put ?_
    rw [cb_setCB_self]
    exact ⟨hfree', hlink', hhandler, rfl⟩

end

/-! ## The scan -/

theorem setStartTime (h : Owned s free links none) (f : SwtmrCtrl → Nat) :
    Owned (s.setCB i fun c => { c with startTime := f c }) free links none := by
  have hcb : ∀ j, ∃ t, (s.setCB i fun c => { c with startTime := f c }).cb j =
      { s.cb j with startTime := t } := by
    intro j
    by_cases hji : j = i
    · subst hji
      exact ⟨_, cb_setCB_self _⟩
    · exact ⟨(s.cb j).startTime, cb_setCB_ne hji _⟩
  exact
    { h with
      chain := h.chain.congr fun p _ => by
        obtain ⟨t, ht⟩ := hcb (p - 1)
        rw [ht]
      ids := fun j hj => by
        obtain ⟨t, ht⟩ := hcb j
        rw [ht]
        exact h.ids j hj
      blocks := fun j hj hout => by
        obtain ⟨t, ht⟩ := hcb j
        rw [ht]
        exact h.blocks j hj hout }

/-- The timer that has expired is linked. -/
theorem mem_of_expired (h : Owned s free links none) (hexp : s.expired = some i) :
    i ∈ links ∧ (s.cb i).responseTime ≤ s.now := by
  unfold expired at hexp
  split_ifs at hexp with hempty
  cases hlinks : links with
  | nil =>
    have hempty' : s.heap.isEmpty .sortLink = true :=
      (h.rings.isEmpty_iff rfl).mpr (hlinks ▸ rfl)
    exact absurd hempty' hempty
  | cons j rest =>
    have hsome : sortLists links .sortLink = some (.timer j :: rest.map .timer) := by
      rw [hlinks]
      rfl
    rw [h.rings.next_head hsome] at hexp
    dsimp only at hexp
    split_ifs at hexp with htime
    cases hexp
    exact ⟨mem_cons_self, htime⟩

end Owned

/-- The timer has left the sort link at its expiry. -/
def left (s : Swtmr) (i : Nat) : Swtmr :=
  (s.setCB i fun c => { c with startTime := c.responseTime }).deleteNodeSortLink i

theorem scanRound_eq : s.scanRound i = (s.left i).swtmrTimeoutHandle i := rfl

theorem cb_left :
    (s.left i).cb i = { s.cb i with startTime := (s.cb i).responseTime, responseTime := invalidTime } := by
  simp [left, deleteNodeSortLink, setHeap]

@[simp] theorem cb_queueWrite (item : SwtmrHandlerItem) : (s.queueWrite item).cb = s.cb := by
  unfold queueWrite
  split <;> rfl

theorem mem_pendingIDs_queueWrite {item : SwtmrHandlerItem} (hroom : s.queue.length < swtmrLimit) :
    item.swtmrID ∈ (s.queueWrite item).pendingIDs := by
  unfold queueWrite
  rw [if_pos hroom]
  simp

namespace Owned

/-- **One round of the scan.** -/
theorem scanRound (h : Owned s free links none) (hnow : s.now < 2 ^ 63) (hexp : s.expired = some i)
    (hroom : (s.cb i).mode = .once → s.queue.length < swtmrLimit) :
    ∃ links', Owned (s.scanRound i) free links' none := by
  obtain ⟨hmem, htime⟩ := h.mem_of_expired hexp
  obtain ⟨hticking, hfree, hhandler, -⟩ := h.ticking_of_mem hmem
  have h1 : Owned (s.left i) free (links.erase i) (some i) :=
    (h.setStartTime (i := i) fun c => c.responseTime).unlink hmem
  have hcb := cb_left (s := s) (i := i)
  have hq : (s.left i).queue = s.queue := rfl
  rw [scanRound_eq]
  generalize s.left i = s1 at h1 hcb hq ⊢
  unfold swtmrTimeoutHandle
  have h2 : Owned (s1.queueWrite (s1.handlerItem i)) free (links.erase i) (some i) :=
    h1.queueWrite rfl (by rwa [handlerItem, hcb])
  dsimp only
  rw [cb_queueWrite, hcb]
  cases hmode : (s.cb i).mode with
  | once =>
    refine ⟨_, h2.put ?_⟩
    obtain ⟨hf, hl⟩ := h2.away i rfl
    have hpend : (s1.cb i).timerID ∈ (s1.queueWrite (s1.handlerItem i)).pendingIDs :=
      mem_pendingIDs_queueWrite (hq ▸ hroom hmode)
    have hid : (s1.cb i).timerID = (s.cb i).timerID := by rw [hcb]
    rw [hid] at hpend
    rw [cb_queueWrite]
    unfold BlockOk
    rw [hcb, hticking]
    exact ⟨hf, hhandler, .inr ⟨hl, rfl, hmode, hpend⟩⟩
  | period =>
    refine (h2.setCB (fun c => { c with overrun := (c.overrun + 1) % 2 ^ 8 }) rfl).start ?_ ?_ ?_
    · rwa [cb_setCB_self, cb_queueWrite, hcb]
    · rw [cb_setCB_self, cb_queueWrite, hcb]
      exact startTime_lt (Nat.lt_of_le_of_lt htime hnow) _
    · rw [cb_setCB_self, cb_queueWrite, hcb]
      intro honce
      simp [hmode] at honce
  | noSelfDelete =>
    refine ⟨_, (h2.setCB (fun c => { c with state := .created }) rfl).put ?_⟩
    obtain ⟨hf, hl⟩ := h2.away i rfl
    rw [cb_setCB_self, cb_queueWrite, hcb]
    exact ⟨hf, hl, hhandler, rfl⟩

/-! ## `OsSwtmrTask` -/

/-- Only the expiries that wait for `OsSwtmrTask` change, and none that a block depends on. -/
theorem congr_pending {out : Option Nat} (h : Owned s free links out) (hheap : s'.heap = s.heap)
    (hfree : s'.freeList = s.freeList) (hcb : s'.cb = s.cb)
    (hitems : ∀ item, s'.pc = .read item ∨ item ∈ s'.queue → s.pc = .read item ∨ item ∈ s.queue)
    (hpend : ∀ id ∈ s'.pendingIDs, id ∈ s.pendingIDs)
    (honce : ∀ i < swtmrLimit, i ∉ out → (s.cb i).mode = .once → (s.cb i).timerID ∈ s.pendingIDs →
      (s.cb i).timerID ∈ s'.pendingIDs) : Owned s' free links out where
  __ := h
  rings := hheap ▸ h.rings
  chain := by
    rw [hfree, hcb]
    exact h.chain
  ids := hcb ▸ h.ids
  items item hit := h.items item (hitems item hit)
  blocks j hj hout := by
    have hok := h.blocks j hj hout
    have hp := hpend (s.cb j).timerID
    have ho := honce j hj hout
    rw [hcb]
    unfold BlockOk at hok ⊢
    cases hstate : (s.cb j).state with
    | unused =>
      rw [hstate] at hok
      exact ⟨hok.1, hok.2.1, fun hc => hok.2.2 (hp hc)⟩
    | created => rwa [hstate] at hok
    | ticking =>
      rw [hstate] at hok
      obtain ⟨hf, hhandler, ⟨hl, ht, hn⟩ | ⟨hl, ht, hm, hq⟩⟩ := hok
      · exact ⟨hf, hhandler, .inl ⟨hl, ht, fun hm hc => hn hm (hp hc)⟩⟩
      · exact ⟨hf, hhandler, .inr ⟨hl, ht, hm, ho hm hq⟩⟩

section
variable (h : Owned s free links none)
include h

theorem taskRead (hrun : s.taskRead = some s') : Owned s' free links none := by
  unfold Swtmr.taskRead at hrun
  cases hpc : s.pc with
  | read | calling => simp [hpc] at hrun
  | reading =>
    cases hq : s.queue with
    | nil => simp [hpc, hq] at hrun
    | cons item queue =>
      obtain ⟨hhandler, hmax⟩ := h.items item (.inr (hq ▸ mem_cons_self))
      have hno : ¬(item.handler = 0 ∨ item.swtmrID ≥ swtmrMaxTimerID) := by omega
      simp only [hpc, hq, hno, if_false, some.injEq] at hrun
      subst hrun
      have hpend : { s with queue := queue, pc := .read item }.pendingIDs = s.pendingIDs := by
        simp [hpc, hq]
      refine h.congr_pending rfl rfl rfl ?_ (fun id hid => hpend ▸ hid) fun i _ _ _ hi => hpend ▸ hi
      rintro it (⟨⟨⟩⟩ | hit)
      · exact .inr (hq ▸ mem_cons_self)
      · exact .inr (hq ▸ List.mem_cons_of_mem _ hit)

/-- A block with an expiry that waits is no longer free, and a one-shot timer not linked. -/
theorem once_out (hi : i < swtmrLimit) (hmode : (s.cb i).mode = .once)
    (hpend : (s.cb i).timerID ∈ s.pendingIDs) : Owned s free links (some i) := by
  have hok := h.blocks i hi (by simp)
  unfold BlockOk at hok
  cases hstate : (s.cb i).state with
  | unused =>
    rw [hstate] at hok
    exact absurd hpend hok.2.2
  | created => exact (h.created_out hi hstate).1
  | ticking =>
    rw [hstate] at hok
    obtain ⟨hf, -, ⟨-, -, hn⟩ | ⟨hl, -⟩⟩ := hok
    · exact absurd hpend (hn hmode)
    · exact h.take hi hf hl

theorem taskCheck (hsound : s.Sound .taskCheck)
    (hrun : s.taskCheck = some s') : ∃ free', Owned s' free' links none := by
  unfold Swtmr.taskCheck at hrun
  unfold Sound at hsound
  cases hpc : s.pc with
  | reading | calling => simp [hpc] at hrun
  | read item =>
    simp only [hpc] at hrun hsound
    have hpend : s.pendingIDs = item.swtmrID :: s.queue.map (·.swtmrID) := by
      simp [hpc]
    have hi : item.swtmrID % swtmrLimit < swtmrLimit := Nat.mod_lt _ (by decide)
    have hblock : ∀ j < swtmrLimit, (s.cb j).timerID = item.swtmrID →
        item.swtmrID % swtmrLimit = j := fun j hj heq => heq ▸ (h.ids j hj).1
    -- the item is looked at; only the block with its ID depends on it
    have hlook : ∀ {out : Option Nat} (pc : SwtmrPc), (∀ it, pc ≠ .read it) →
        (∀ j < swtmrLimit, j ∉ out → (s.cb j).mode = .once → (s.cb j).timerID ≠ item.swtmrID) →
        Owned s free links out → Owned { s with pc := pc } free links out := by
      intro out pc hread hne hown
      have hpend' : { s with pc := pc }.pendingIDs = s.queue.map (·.swtmrID) := by
        cases pc with
        | read it => exact absurd rfl (hread it)
        | reading | calling => rfl
      refine hown.congr_pending rfl rfl rfl ?_ ?_ ?_
      · rintro it (hit | hit)
        · exact absurd hit (hread it)
        · exact .inr hit
      · intro id hid
        rw [hpend'] at hid
        rw [hpend]
        exact List.mem_cons_of_mem _ hid
      · intro j hj hout hm hid
        rw [hpend, mem_cons, or_iff_right (hne j hj hout hm)] at hid
        rwa [hpend']
    split_ifs at hrun with hid hmode
    · cases hrun
      refine ⟨free, hlook _ (by simp) (fun j hj _ _ heq => hid ?_) h⟩
      rwa [hblock j hj heq]
    · -- a one-shot timer is given back
      have hid := not_not.mp hid
      have hout := h.once_out hi hmode (by rw [hid, hpend]; exact mem_cons_self)
      have hout' := hlook (.calling item) (by simp)
        (fun j hj hj' _ heq => hj' (by rw [← hblock j hj heq]; rfl)) hout
      refine ⟨item.swtmrID % swtmrLimit :: free, ?_⟩
      cases hrun
      refine hout'.push ?_
      rw [hid]
      exact hsound hid hmode
    · cases hrun
      refine ⟨free, hlook _ (by simp) (fun j hj _ hm heq => hmode ?_) h⟩
      rwa [hblock j hj heq]

theorem taskCall (hrun : s.taskCall = some s') : Owned s' free links none := by
  unfold Swtmr.taskCall at hrun
  cases hpc : s.pc with
  | reading | read => simp [hpc] at hrun
  | calling item =>
    rw [hpc] at hrun
    cases hrun
    have hpend : { s with pc := .reading }.pendingIDs = s.pendingIDs := by
      simp [hpc]
    refine h.congr_pending rfl rfl rfl ?_ (fun id hid => hpend ▸ hid) fun i _ _ _ hi => hpend ▸ hi
    rintro it (⟨⟨⟩⟩ | hit)
    exact .inr hit

end

end Owned

/-! ## Runs -/

@[simp] theorem now_setCB (f : SwtmrCtrl → SwtmrCtrl) : (s.setCB i f).now = s.now := rfl

@[simp] theorem now_swtmrStart : (s.swtmrStart i).now = s.now := rfl

@[simp] theorem now_swtmrStop : (s.swtmrStop i).now = s.now := by
  unfold swtmrStop deleteSortLink
  split <;> rfl

@[simp] theorem now_queueWrite (item : SwtmrHandlerItem) : (s.queueWrite item).now = s.now := by
  unfold queueWrite
  split <;> rfl

@[simp] theorem now_swtmrTimeoutHandle : (s.swtmrTimeoutHandle i).now = s.now := by
  unfold swtmrTimeoutHandle
  dsimp only
  split <;> simp

/-- Only the clock moves the time. -/
theorem now_step {op : SwtmrOp} (hrun : s.step op = some s') :
    s'.now = s.now ∨ ∃ now, op = .clock now ∧ s'.now = now := by
  cases op with
  | clock now =>
    cases hrun
    exact .inr ⟨now, rfl, rfl⟩
  | create | start | stop | delete =>
    cases hrun
    dsimp only [swtmrCreate, losSwtmrStart, losSwtmrStop, losSwtmrDelete, swtmrDelete]
    repeat' split
    all_goals simp
  | scan =>
    cases hrun
    split
    · exact .inl rfl
    · exact .inl now_swtmrTimeoutHandle
  | taskRead | taskCall =>
    dsimp only [step, taskRead, taskCall] at hrun
    split at hrun <;> cases hrun
    exact .inl rfl
  | taskCheck =>
    dsimp only [step, taskCheck, swtmrDelete] at hrun
    split at hrun
    · split_ifs at hrun <;> cases hrun <;> exact .inl rfl
    · cases hrun

/-- The blocks are in place, and the time leaves room for any interval. -/
def Kept (s : Swtmr) : Prop := (∃ free links, Owned s free links none) ∧ s.now < 2 ^ 63

/-- **Every sound step keeps the blocks in place.** -/
theorem Kept.step {op : SwtmrOp} (h : s.Kept) (hsound : s.Sound op) (hrun : s.step op = some s') :
    s'.Kept := by
  obtain ⟨⟨free, links, h⟩, hnow⟩ := h
  refine ⟨?_, ?_⟩
  · cases op with
    | create interval mode handler arg swtmrId =>
      obtain ⟨free', h'⟩ := h.swtmrCreate interval mode handler.toNat arg.toNat swtmrId
      exact ⟨free', links, some.inj hrun ▸ h'⟩
    | start swtmrId =>
      obtain ⟨links', h'⟩ := h.losSwtmrStart hnow hsound
      exact ⟨free, links', some.inj hrun ▸ h'⟩
    | stop swtmrId =>
      obtain ⟨links', h'⟩ := h.losSwtmrStop swtmrId.toNat
      exact ⟨free, links', some.inj hrun ▸ h'⟩
    | delete swtmrId =>
      obtain ⟨free', links', h'⟩ := h.losSwtmrDelete hsound
      exact ⟨free', links', some.inj hrun ▸ h'⟩
    | clock now =>
      cases hrun
      exact ⟨free, links, h.congr_pending rfl rfl rfl (fun _ hit => hit) (fun _ hid => hid)
        fun _ _ _ _ hid => hid⟩
    | scan =>
      cases hrun
      cases hexp : s.expired with
      | none => exact ⟨free, links, h⟩
      | some i =>
        obtain ⟨links', h'⟩ := h.scanRound hnow hexp (hsound i hexp)
        exact ⟨free, links', h'⟩
    | taskRead => exact ⟨free, links, h.taskRead hrun⟩
    | taskCheck =>
      obtain ⟨free', h'⟩ := h.taskCheck hsound hrun
      exact ⟨free', links, h'⟩
    | taskCall => exact ⟨free, links, h.taskCall hrun⟩
  · rcases now_step hrun with heq | ⟨now, rfl, heq⟩ <;> rwa [heq]

theorem owned_init (sysClock : UInt32) : Owned (init sysClock) (range swtmrLimit) [] none := by
  have hchain : ∀ n k, n + k = swtmrLimit → Chain (fun p => ((init sysClock).cb (p - 1)).pstNext)
      (if k < swtmrLimit then k + 1 else 0) ((List.range' k n).map (· + 1)) := by
    intro n
    induction n with
    | zero =>
      intro k hk
      rw [if_neg (by omega)]
      rfl
    | succ n ih =>
      intro k hk
      rw [if_pos (by omega)]
      exact ⟨rfl, Nat.succ_ne_zero k, ih (k + 1) (by omega)⟩
  have hempty : Rings (⟨fun _ => none, fun _ => none, false⟩ : Heap SwtmrNode) fun _ => none :=
    Rings.zero rfl fun _ => ⟨rfl, rfl⟩
  have hrings := hempty.init (n := .sortLink) rfl fun _ => not_mem_nil
  have hlists : update (fun _ => none) SwtmrNode.sortLink (some []) = sortLists [] := by
    funext n
    cases n with
    | sortLink | timer => rfl
  rw [hlists] at hrings
  exact
    { rings := hrings
      chain := by
        exact hchain swtmrLimit 0 rfl
      nodup := List.nodup_range
      lt := by
        rintro i (hi | hi | hi)
        · exact mem_range.mp hi
        · cases hi
        · cases hi
      away := fun i hi => by cases hi
      ids := fun i hi => ⟨Nat.mod_eq_of_lt hi, hi.trans (by decide)⟩
      items := fun item hit => by rcases hit with hit | hit <;> cases hit
      blocks := fun i hi _ =>
        ⟨mem_range.mpr hi, not_mem_nil, not_mem_nil⟩ }

end

end Swtmr

/-- **Every control block is in exactly one place**: in the free list and unused, at rest, or
ticking, and then linked or with an expiry that waits for `OsSwtmrTask`. -/
theorem swtmr_ownership (sysClock : UInt32) (ops : List SwtmrOp) (s : Swtmr)
    (hsound : Guarded step Sound (.init sysClock) ops)
    (hrun : exec step (.init sysClock) ops = some s) :
    ∃ free links : List Nat,
      Chain (fun p => (s.cb (p - 1)).pstNext) s.freeList (free.map (· + 1)) ∧ free.Nodup ∧
      s.heap.crashed = false ∧ s.heap.IsList .sortLink (links.map .timer) ∧ links.Nodup ∧
      ∀ i < swtmrLimit,
        (s.cb i).timerID % swtmrLimit = i ∧ (s.cb i).timerID < swtmrMaxTimerID ∧
        match (s.cb i).state with
        | .unused => i ∈ free ∧ i ∉ links
        | .created => i ∉ free ∧ i ∉ links
        | .ticking => i ∉ free ∧ (i ∈ links ∨ (s.cb i).timerID ∈ s.pendingIDs) := by
  have hstart : (init sysClock).Kept :=
    ⟨⟨_, _, owned_init sysClock⟩, by change (0 : Nat) < 2 ^ 63; decide⟩
  have hkept : ∀ (s : Swtmr) op s', s.Kept → s.Sound op → s.step op = some s' → s'.Kept :=
    fun _ _ _ h ho hr => h.step ho hr
  obtain ⟨⟨free, links, h⟩, -⟩ := exec_inv_guarded hkept hstart hsound hrun
  refine ⟨free, links, h.chain, h.nodup, h.rings.ok, h.rings.isList rfl,
    links_nodup h.rings, fun i hi => ?_⟩
  have hok := h.blocks i hi (by simp)
  unfold BlockOk at hok
  refine ⟨(h.ids i hi).1, (h.ids i hi).2, ?_⟩
  cases hstate : (s.cb i).state with
  | unused | created =>
    rw [hstate] at hok
    exact ⟨hok.1, hok.2.1⟩
  | ticking =>
    rw [hstate] at hok
    obtain ⟨hf, -, ⟨hl, -⟩ | ⟨-, -, -, hp⟩⟩ := hok
    · exact ⟨hf, .inl hl⟩
    · exact ⟨hf, .inr hp⟩

/-- A one-shot and a periodic timer expire; `OsSwtmrTask` handles the first two expiries, and the
periodic timer is stopped and deleted. One tick is one cycle. -/
def twoTimers : List SwtmrOp :=
  [.create 5 (some .once) 1 0 true, .create 3 (some .period) 1 0 true, .start 0, .start 1, .clock 5,
    .scan, .scan, .taskRead, .taskCheck, .taskCall, .taskRead, .taskCheck, .stop 1, .taskCall,
    .delete 1]

theorem swtmr_ownership_twoTimers :
    Guarded step Sound (.init 100) twoTimers ∧
      ∃ s, exec step (.init 100) twoTimers = some s ∧ s.freeList = 2 ∧
        ∃ free links : List Nat,
          Chain (fun p => (s.cb (p - 1)).pstNext) s.freeList (free.map (· + 1)) ∧ free.Nodup ∧
          s.heap.crashed = false ∧ s.heap.IsList .sortLink (links.map .timer) ∧ links.Nodup ∧
          ∀ i < swtmrLimit,
            (s.cb i).timerID % swtmrLimit = i ∧ (s.cb i).timerID < swtmrMaxTimerID ∧
            match (s.cb i).state with
            | .unused => i ∈ free ∧ i ∉ links
            | .created => i ∉ free ∧ i ∉ links
            | .ticking => i ∉ free ∧ (i ∈ links ∨ (s.cb i).timerID ∈ s.pendingIDs) := by
  have hsound : Guarded step Sound (.init 100) twoTimers := by decide +kernel
  obtain ⟨s, hs, hend⟩ : ∃ s, exec step (.init 100) twoTimers = some s ∧ s.freeList = 2 := by
    decide +kernel
  exact ⟨hsound, s, hs, hend, swtmr_ownership 100 twoTimers s hsound hs⟩

/-- A one-shot timer is started again while its expiry waits in the queue: `OsSwtmrTask` puts the
block into the free list, and it stays linked in the sort link. -/
theorem swtmr_free_and_linked :
    ∃ s, exec step (.init 100) [.create 1 (some .once) 1 0 true, .start 0, .clock 1, .scan,
        .start 0, .taskRead, .taskCheck] = some s ∧
      (s.cb 0).state = .unused ∧ s.freeList = 1 ∧ s.heap.next .sortLink = some (.timer 0) := by
  decide +kernel

end LiteosM.Kernel
