import LiteosM.Kernel.SwtmrHandler

/-!
# Expiries and handler calls

As long as every expiry finds room in the handler queue, none gets lost: the handlers that were called, the
one that is about to be called, the item that was read and those in the queue are the expiries, in their
order.

* `Tracked`: the expiries split into those that `OsSwtmrTask` has dealt with and those that wait;
* `Tracked.step`: every step keeps that;
* `Tracked.drain`: `OsSwtmrTask` left alone deals with all that wait;
* **`no_lost_expiry`**: both, for every run.

Premise: each expiry finds room. The handlers are called by `OsSwtmrTask`; what they do is a sequence of
further steps.
-/

namespace LiteosM.Kernel

open LiteosM.Lib List Option Swtmr Prod

namespace SwtmrPc

/-- The item that was read and not compared yet. -/
def waiting : SwtmrPc → List SwtmrHandlerItem
  | .read item => [item]
  | _ => []

/-- The item whose handler is about to be called. -/
def called : SwtmrPc → List SwtmrHandlerItem
  | .calling item => [item]
  | _ => []

end SwtmrPc

namespace Timers

/-- Every expiry finds room in the queue, and no timer is deleted while an expiry of it waits. -/
def Roomy (t : Timers) : SwtmrOp → Prop
  | .scan => t.expired.isSome → t.queue.length < swtmrLimit
  | .delete id => (t.cb (id.toNat % swtmrLimit)).timerID = id.toNat → id.toNat ∉ t.pendingIDs
  | _ => True

instance decidableRoomy (t : Timers) (op : SwtmrOp) : Decidable (t.Roomy op) := by
  unfold Roomy
  repeat' split
  all_goals infer_instance

variable {s : Swtmr}

theorem step_of_step {t : Timers} {o : SwtmrOp} (hs : t.toSwtmr.step o = some s) :
    t.step o = some (t.record s o) :=
  map_eq_some_iff.mpr ⟨s, hs, rfl⟩

/-- The expiries are those `handled`, then those that wait. -/
structure Tracked (t : Timers) (handled waits : List (SwtmrHandlerItem × SwtmrMode)) : Prop where
  split : t.expiries = handled ++ waits
  calls : handled.map fst = t.invoked ++ t.pc.called
  given : (handled.filter (·.2 = .once)).map fst = t.returned
  items : waits.map fst = t.pc.waiting ++ t.queue
  /-- What waits has the ID and the mode of its block. -/
  current : ∀ e ∈ waits, (t.face.at e.1.swtmrID).id = e.1.swtmrID ∧
    (t.face.at e.1.swtmrID).mode = e.2
  /-- One expiry of a one-shot timer waits at most. -/
  single : waits.Pairwise fun e f => e.2 = .once → e.1.swtmrID ≠ f.1.swtmrID

namespace Tracked

variable {t t' : Timers} {handled waits : List (SwtmrHandlerItem × SwtmrMode)}

section
variable (h : Tracked t handled waits)
include h

theorem pendingIDs_eq : t.pendingIDs = waits.map (·.1.swtmrID) := by
  have hmap : waits.map (·.1.swtmrID) = (waits.map fst).map (·.swtmrID) := by
    rw [List.map_map]
    rfl
  rw [hmap, h.items]
  unfold pendingIDs
  cases t.pc <;> rfl

theorem mem_pendingIDs {e : SwtmrHandlerItem × SwtmrMode}
    (he : e ∈ waits) : e.1.swtmrID ∈ t.pendingIDs := by
  rw [h.pendingIDs_eq]
  exact List.mem_map_of_mem he

/-- A step that keeps the history, the queue and `OsSwtmrTask`, and the tags of what waits. -/
theorem retag {t' : Timers} (hexp : t'.expiries = t.expiries)
    (hinv : t'.invoked = t.invoked) (hret : t'.returned = t.returned) (hq : t'.queue = t.queue)
    (hpc : t'.pc = t.pc)
    (htag : ∀ e ∈ waits, (t'.face.at e.1.swtmrID).id = (t.face.at e.1.swtmrID).id ∧
      (t'.face.at e.1.swtmrID).mode = (t.face.at e.1.swtmrID).mode) :
    Tracked t' handled waits where
  split := hexp ▸ h.split
  calls := by rw [hinv, hpc]; exact h.calls
  given := hret ▸ h.given
  items := by rw [hpc, hq]; exact h.items
  current e he := by
    obtain ⟨hid, hmode⟩ := htag e he
    rw [hid, hmode]
    exact h.current e he
  single := h.single

section
variable (hexp : t'.expiries = t.expiries) (hinv : t'.invoked = t.invoked) (hret : t'.returned = t.returned)
include hexp hinv hret

theorem same (hs : t'.toSwtmr = t.toSwtmr) : Tracked t' handled waits :=
  h.retag hexp hinv hret (by rw [hs]) (by rw [hs]) fun e _ => by rw [hs]; exact ⟨rfl, rfl⟩

theorem set {i : Nat} {tag : Swtmr.Tag} (hface : t'.face = t.face.set i tag)
    (htag : ∀ e ∈ waits, ((t.face.set i tag).at e.1.swtmrID).id = (t.face.at e.1.swtmrID).id ∧
      ((t.face.set i tag).at e.1.swtmrID).mode = (t.face.at e.1.swtmrID).mode) :
    Tracked t' handled waits :=
  h.retag hexp hinv hret (congrArg Swtmr.Face.queue hface) (congrArg Swtmr.Face.pc hface)
    fun e he => by rw [hface]; exact htag e he

end

/-- The tag of a block changes that no expiry waits for. -/
theorem set_away {i : Nat} {tag : Swtmr.Tag} (hi : (t.face.tag i).id ∉ t.pendingIDs) :
    ∀ e ∈ waits, (t.face.set i tag).at e.1.swtmrID = t.face.at e.1.swtmrID := by
  intro e he
  refine Swtmr.Silent.at_set_ne fun heq => hi ?_
  have hid := (h.current e he).1
  rw [Swtmr.Face.at, heq] at hid
  rw [hid]
  exact h.mem_pendingIDs he

end

/-- A block keeps its ID and its mode. -/
theorem set_same {i : Nat} {tag : Swtmr.Tag} (hid : tag.id = (t.face.tag i).id)
    (hmode : tag.mode = (t.face.tag i).mode) (id : Nat) :
    ((t.face.set i tag).at id).id = (t.face.at id).id ∧
      ((t.face.set i tag).at id).mode = (t.face.at id).mode := by
  by_cases hi : id % swtmrLimit = i
  · rw [Swtmr.Silent.at_set_self hi, hid, hmode, Swtmr.Face.at, hi]
    exact ⟨rfl, rfl⟩
  · rw [Swtmr.Silent.at_set_ne hi]
    exact ⟨rfl, rfl⟩

section
variable (h : Tracked t handled waits)
include h

/-- An expiry finds room in the queue. -/
theorem scan (hk : t.toSwtmr.Kept) {i : Nat}
    (hexp : t.expired = some i) (hroom : t.queue.length < swtmrLimit) :
    Tracked (t.record (t.scanRound i) .scan) handled
      (waits ++ [(t.handlerItem i, (t.cb i).mode)]) := by
  obtain ⟨⟨free, links, hown⟩, -⟩ := hk
  obtain ⟨hmem, -⟩ := hown.mem_of_expired hexp
  obtain ⟨hticking, -, -, hfresh⟩ := hown.ticking_of_mem hmem
  have hlt := hown.lt i (.inr (.inl hmem))
  obtain ⟨hmod, -⟩ := hown.ids i hlt
  have hface := face_scanRound hticking
  rw [if_pos hroom] at hface
  have hq : (t.scanRound i).queue = t.queue ++ [t.handlerItem i] :=
    congrArg Swtmr.Face.queue hface
  have hpc : (t.scanRound i).pc = t.pc := congrArg Swtmr.Face.pc hface
  have hat : ∀ id, ((t.scanRound i).face.at id).id = (t.face.at id).id ∧
      ((t.scanRound i).face.at id).mode = (t.face.at id).mode := by
    intro id
    rw [hface]
    exact @set_same t i ⟨(t.cb i).timerID, (t.cb i).mode, afterExpiry (t.cb i).mode⟩ rfl rfl id
  have hself : t.face.at (t.cb i).timerID = t.face.tag i := by rw [Swtmr.Face.at, hmod]
  have hrec : (t.record (t.scanRound i) .scan).expiries =
      t.expiries ++ [(t.handlerItem i, (t.cb i).mode)] := by
    simp [record_expiries, hexp]
  refine
    { split := by rw [hrec, h.split, append_assoc]
      calls := by
        change _ = t.invoked ++ (t.scanRound i).pc.called
        rw [hpc]
        exact h.calls
      given := h.given
      items := ?_
      current := ?_
      single := ?_ }
  · change _ = (t.scanRound i).pc.waiting ++ (t.scanRound i).queue
    rw [map_append, h.items, hpc, hq, append_assoc]
    rfl
  · intro e he
    change ((t.scanRound i).face.at _).id = _ ∧ ((t.scanRound i).face.at _).mode = _
    rw [(hat _).1, (hat _).2]
    rcases mem_append.mp he with he | he
    · exact h.current e he
    rw [mem_singleton.mp he]
    change (t.face.at (t.cb i).timerID).id = (t.cb i).timerID ∧
      (t.face.at (t.cb i).timerID).mode = (t.cb i).mode
    rw [hself]
    exact ⟨rfl, rfl⟩
  refine pairwise_append.mpr ⟨h.single, pairwise_singleton .., fun e he f hf => ?_⟩
  rw [mem_singleton.mp hf]
  intro honce heq
  -- a one-shot timer that is linked has no expiry that waits
  have heq : e.1.swtmrID = (t.cb i).timerID := heq
  have hmode := (h.current e he).2
  rw [heq, hself, honce] at hmode
  have hpend := h.mem_pendingIDs he
  rw [heq] at hpend
  exact hfresh hmode hpend

theorem taskRead (hk : t.toSwtmr.Kept)
    (hrun : t.taskRead = some s) : Tracked { t with toSwtmr := s } handled waits := by
  obtain ⟨⟨free, links, hown⟩, -⟩ := hk
  unfold Swtmr.taskRead at hrun
  split at hrun
  · rename_i item queue hpc hq
    obtain ⟨hhandler, hmax⟩ := hown.items item (.inr (hq ▸ mem_cons_self))
    rw [if_neg (not_or.mpr ⟨hhandler, Nat.not_le.mpr hmax⟩)] at hrun
    cases hrun
    refine { h with calls := ?_, items := ?_ }
    · rw [h.calls, hpc]
      rfl
    · rw [h.items, hpc, hq]
      rfl
  · cases hrun

theorem taskCall (hrun : t.taskCall = some s) :
    Tracked (t.record s .taskCall) handled waits := by
  unfold Swtmr.taskCall at hrun
  split at hrun
  · rename_i item hpc
    cases hrun
    refine { h with calls := ?_, items := ?_ }
    · rw [h.calls]
      simp [record_invoked, hpc, SwtmrPc.called]
    · rw [h.items, hpc]
      rfl
  · cases hrun

/-- What was read is dealt with: it still has the ID of its block. -/
theorem taskCheck (hrun : t.taskCheck = some s) :
    ∃ e rest, waits = e :: rest ∧ Tracked (t.record s .taskCheck) (handled ++ [e]) rest ∧
      s.pc = .calling e.1 ∧ s.queue = t.queue ∧
      (e.2 = .once → (s.cb (e.1.swtmrID % swtmrLimit)).state = .unused) := by
  obtain ⟨item, hpc, hcases⟩ := taskCheck_cases hrun
  have hitems := h.items
  rw [hpc] at hitems
  obtain ⟨e, rest, rfl, hfst, hrest⟩ := map_eq_cons_iff.mp hitems
  obtain ⟨hid, hmode⟩ := h.current e mem_cons_self
  obtain ⟨hfirst, hsingle⟩ := pairwise_cons.mp h.single
  rw [hfst] at hid hmode
  have hid : (t.cb (item.swtmrID % swtmrLimit)).timerID = item.swtmrID := hid
  have hmode : (t.cb (item.swtmrID % swtmrLimit)).mode = e.2 := hmode
  have hsplit : t.expiries = handled ++ [e] ++ rest := by
    rw [h.split, append_assoc]
    rfl
  have hcalls : (handled ++ [e]).map fst = t.invoked ++ [item] := by
    rw [map_append, h.calls, hpc, map_singleton, hfst]
    simp [SwtmrPc.called]
  have hreturned : ((handled ++ [e]).filter (·.2 = .once)).map fst =
      (t.record s .taskCheck).returned := by
    rw [filter_append, map_append, h.given]
    by_cases honce : e.2 = .once
    · simp [record_returned, hpc, hid, hmode, honce, hfst]
    · simp [record_returned, hpc, hmode, honce]
  have hold : ∀ f ∈ rest, (t.face.at f.1.swtmrID).id = f.1.swtmrID ∧
      (t.face.at f.1.swtmrID).mode = f.2 := fun f hf => h.current f (mem_cons_of_mem _ hf)
  have hafter : s.face.pc = .calling item ∧ s.face.queue = t.queue ∧
      (∀ f ∈ rest, s.face.at f.1.swtmrID = t.face.at f.1.swtmrID) ∧
      (e.2 = .once → (s.face.at e.1.swtmrID).state = .unused) := by
    rcases hcases with ⟨hne, -⟩ | ⟨-, honce, hface⟩ | ⟨-, honce, hface⟩
    · exact absurd hid hne
    · -- the block of a one-shot timer gets a new ID; nothing else waits for the old one
      rw [hface]
      refine ⟨rfl, rfl, fun f hf => Swtmr.Silent.at_set_ne fun heq => ?_, fun _ => ?_⟩
      · refine hfirst f hf (hmode ▸ honce) ?_
        have hfid := (hold f hf).1
        rw [Swtmr.Face.at, heq] at hfid
        rwa [hfst, ← hid]
      have htag := @Swtmr.Silent.at_set_self t.face (item.swtmrID % swtmrLimit)
        ⟨nextTimerID item.swtmrID, (t.cb (item.swtmrID % swtmrLimit)).mode, .unused⟩
        e.1.swtmrID (by rw [hfst])
      exact congrArg Swtmr.Tag.state htag
    · rw [hface]
      exact ⟨rfl, rfl, fun _ _ => rfl, fun honce' => absurd (hmode.trans honce') honce⟩
  obtain ⟨hcalling, hqueue, hat, hunused⟩ := hafter
  refine ⟨e, rest, rfl, ?_, by rwa [hfst], hqueue, hunused⟩
  exact
    { split := hsplit
      calls := by
        rwa [record_toSwtmr, show s.pc = _ from hcalling]
      given := hreturned
      items := by
        rwa [record_toSwtmr, show s.pc = _ from hcalling, show s.queue = _ from hqueue]
      current := fun f hf => by
        rw [record_toSwtmr, hat f hf]
        exact hold f hf
      single := hsingle }

/-- **Every step keeps the expiries in order.** -/
theorem step {op : SwtmrOp} (hk : t.toSwtmr.Kept)
    (hroomy : t.Roomy op) (hrun : t.step op = some t') :
    ∃ handled' waits', Tracked t' handled' waits' := by
  obtain ⟨s, hs, rfl⟩ := map_eq_some_iff.mp hrun
  cases op with
  | create interval mode handler arg swtmrId =>
    cases hs
    rcases swtmrCreate_cases interval mode handler.toNat arg.toNat swtmrId with
      heq | ⟨mode', hne, heq⟩
    · exact ⟨handled, waits, h.same rfl rfl rfl (by rw [record_toSwtmr, heq])⟩
    -- a block of the free list has no expiry that waits
    have haway : (t.face.tag (t.freeList - 1)).id ∉ t.pendingIDs := by
      obtain ⟨⟨free, links, hown⟩, -⟩ := hk
      obtain ⟨rest, rfl, -⟩ := hown.pop hne
      exact (hown.unused_of_mem mem_cons_self).2
    refine ⟨handled, waits, h.set rfl rfl rfl heq fun e he => ?_⟩
    rw [h.set_away haway e he]
    exact ⟨rfl, rfl⟩
  | start id =>
    cases hs
    rcases losSwtmrStart_cases id.toNat with ⟨heq, -⟩ | ⟨-, hid, heq⟩
    · exact ⟨handled, waits, h.same rfl rfl rfl (by rw [record_toSwtmr, heq])⟩
    · exact ⟨handled, waits, h.set rfl rfl rfl heq fun e _ =>
        set_same (by exact hid.symm) (by rfl) e.1.swtmrID⟩
  | stop id =>
    cases hs
    rcases losSwtmrStop_cases id.toNat with ⟨heq, -⟩ | ⟨-, hid, -, heq⟩
    · exact ⟨handled, waits, h.same rfl rfl rfl (by rw [record_toSwtmr, heq])⟩
    · exact ⟨handled, waits, h.set rfl rfl rfl heq fun e _ =>
        set_same (by exact hid.symm) (by rfl) e.1.swtmrID⟩
  | delete id =>
    cases hs
    rcases losSwtmrDelete_cases id.toNat with ⟨heq, -⟩ | ⟨-, hid, -, heq⟩
    · exact ⟨handled, waits, h.same rfl rfl rfl (by rw [record_toSwtmr, heq])⟩
    have haway : (t.face.tag (id.toNat % swtmrLimit)).id ∉ t.pendingIDs := by
      have htag : (t.face.tag (id.toNat % swtmrLimit)).id = id.toNat := hid
      rw [htag]
      exact hroomy hid
    refine ⟨handled, waits, h.set rfl rfl rfl heq fun e he => ?_⟩
    rw [h.set_away haway e he]
    exact ⟨rfl, rfl⟩
  | clock now =>
    cases hs
    exact ⟨handled, waits, { h with }⟩
  | scan =>
    cases hs
    cases hexp : t.expired with
    | none =>
      refine ⟨handled, waits, h.retag ?_ rfl rfl rfl rfl fun e he => ⟨rfl, rfl⟩⟩
      simp [record_expiries, hexp]
    | some i =>
      have hroom : t.queue.length < swtmrLimit := hroomy (hexp ▸ rfl)
      exact ⟨_, _, h.scan hk hexp hroom⟩
  | taskRead => exact ⟨handled, waits, h.taskRead hk hs⟩
  | taskCheck =>
    obtain ⟨e, rest, -, h', -, -, -⟩ := h.taskCheck hs
    exact ⟨_, _, h'⟩
  | taskCall => exact ⟨handled, waits, h.taskCall hs⟩

end

/-! ## `OsSwtmrTask` left alone -/

/-- The ID that a block gets when it is given back is not one for which an expiry waits. -/
theorem sound_taskCheck (h : Tracked t handled waits) (hk : t.toSwtmr.Kept) :
    t.toSwtmr.Sound .taskCheck := by
  obtain ⟨⟨free, links, hown⟩, -⟩ := hk
  unfold Swtmr.Sound
  cases hpc : t.pc with
  | reading | calling => exact trivial
  | read item =>
    intro hid _ hmem
    have hlt := Nat.mod_lt item.swtmrID (show 0 < swtmrLimit by decide)
    have hids := hown.ids _ hlt
    rw [hid] at hids
    obtain ⟨hmod, -⟩ := nextTimerID_spec hids
    have hpend : nextTimerID item.swtmrID ∈ t.pendingIDs := by
      exact mem_append_right _ hmem
    rw [h.pendingIDs_eq] at hpend
    obtain ⟨e, he, heq⟩ := List.mem_map.mp hpend
    have hcur := (h.current e he).1
    rw [heq, Swtmr.Face.at, hmod] at hcur
    exact nextTimerID_ne hids.2 (hcur.symm.trans hid)

/-- What `OsSwtmrTask` still has to do. -/
def load (t : Timers) : Nat :=
  3 * t.queue.length + match t.pc with | .reading => 0 | .read _ => 2 | .calling _ => 1

theorem unused_taskCheck {s s' : Swtmr} (hrun : s.taskCheck = some s') (i : Nat)
    (hi : (s.cb i).state = .unused) : (s'.cb i).state = .unused := by
  obtain ⟨item, -, hcases⟩ := taskCheck_cases hrun
  change (s'.face.tag i).state = .unused
  rcases hcases with ⟨-, hface⟩ | ⟨-, -, hface⟩ | ⟨-, -, hface⟩
  · rwa [hface]
  · rw [hface]
    by_cases heq : i = item.swtmrID % swtmrLimit
    · subst heq
      simp [Swtmr.Face.set]
    have htag : (s.face.set (item.swtmrID % swtmrLimit) ⟨nextTimerID item.swtmrID,
        (s.cb (item.swtmrID % swtmrLimit)).mode, .unused⟩).tag i = s.face.tag i :=
      Function.update_of_ne heq ..
    exact (congrArg Swtmr.Tag.state htag).trans hi
  · rwa [hface]

/-- As long as something is left, `OsSwtmrTask` takes a step. -/
theorem progress (h : Tracked t handled waits) (hk : t.toSwtmr.Kept) (hload : load t ≠ 0) :
    ∃ op ∈ [SwtmrOp.taskRead, .taskCheck, .taskCall], ∃ t' handled' waits', t.step op = some t' ∧
      t'.toSwtmr.Kept ∧ Tracked t' handled' waits' ∧ load t' < load t ∧
      t'.expiries = t.expiries ∧ (∀ i, (t.cb i).state = .unused → (t'.cb i).state = .unused) ∧
      ∀ e ∈ waits, e ∈ waits' ∨
        (e.2 = .once → (t'.cb (e.1.swtmrID % swtmrLimit)).state = .unused) := by
  cases hpc : t.pc with
  | reading =>
    cases hq : t.queue with
    | nil => simp [load, hpc, hq] at hload
    | cons item queue =>
      obtain ⟨⟨free, links, hown⟩, -⟩ := id hk
      obtain ⟨hhandler, hmax⟩ := hown.items item (.inr (hq ▸ mem_cons_self))
      have hs : t.taskRead = some { t.toSwtmr with queue := queue, pc := .read item } := by
        simp only [Swtmr.taskRead, hpc, hq]
        rw [if_neg (not_or.mpr ⟨hhandler, Nat.not_le.mpr hmax⟩)]
      have hstep := step_of_step (o := .taskRead) hs
      refine ⟨.taskRead, by simp, _, handled, waits, hstep, kept_step hk (show t.toSwtmr.Sound .taskRead from trivial) hstep,
        h.taskRead hk hs, ?_, rfl, fun _ hi => hi, fun e he => .inl he⟩
      simp only [load, record_toSwtmr, hq, length_cons]
      omega
  | read item =>
    obtain ⟨s, hs⟩ : ∃ s, t.taskCheck = some s := by
      simp only [Swtmr.taskCheck, hpc]
      split
      · exact ⟨_, rfl⟩
      · exact ⟨_, rfl⟩
    have hstep := step_of_step (o := .taskCheck) hs
    obtain ⟨e, rest, rfl, h', hpc', hq', hunused⟩ := h.taskCheck hs
    refine ⟨.taskCheck, by simp, _, _, rest, hstep,
      kept_step hk (h.sound_taskCheck hk) hstep, h', ?_, rfl,
      unused_taskCheck hs, fun f hf => ?_⟩
    · simp only [load, record_toSwtmr, hpc, hpc', hq']
      omega
    · rcases mem_cons.mp hf with rfl | hf
      · exact .inr hunused
      · exact .inl hf
  | calling item =>
    have hs : t.taskCall = some { t.toSwtmr with pc := .reading } := by
      simp only [Swtmr.taskCall, hpc]
    have hstep := step_of_step (o := .taskCall) hs
    refine ⟨.taskCall, by simp, _, handled, waits, hstep, kept_step hk (show t.toSwtmr.Sound .taskCall from trivial) hstep,
      h.taskCall hs, ?_, rfl, fun _ hi => hi, fun e he => .inl he⟩
    simp only [load, record_toSwtmr, hpc]
    omega

/-- **`OsSwtmrTask` left alone deals with all that waits.** -/
theorem drain (h : Tracked t handled waits) (hk : t.toSwtmr.Kept) :
    ∃ ops t', (∀ op ∈ ops, op ∈ [SwtmrOp.taskRead, .taskCheck, .taskCall]) ∧
      exec Timers.step t ops = some t' ∧ t'.toSwtmr.Kept ∧ Tracked t' t.expiries [] ∧
      t'.pc = .reading ∧ (∀ i, (t.cb i).state = .unused → (t'.cb i).state = .unused) ∧
      ∀ e ∈ waits, e.2 = .once → (t'.cb (e.1.swtmrID % swtmrLimit)).state = .unused := by
  -- by induction on what is left to do; `progress` is the step
  induction hn : load t using Nat.strong_induction_on generalizing t handled waits with
  | _ n ih =>
    subst hn
    by_cases hload : load t = 0
    · have hdone : t.pc = .reading ∧ t.queue = [] := by
        unfold load at hload
        cases hpc : t.pc with
        | reading => exact ⟨rfl, length_eq_zero_iff.mp (by omega)⟩
        | read | calling => simp [hpc] at hload
      have hwaits : waits = [] := by
        have hitems := h.items
        rw [hdone.1, hdone.2] at hitems
        exact map_eq_nil_iff.mp hitems
      subst hwaits
      have hall : t.expiries = handled := by rw [h.split, append_nil]
      refine ⟨[], t, by simp, rfl, hk, ?_, hdone.1, fun _ hi => hi, by simp⟩
      rwa [hall]
    obtain ⟨op, hop, t1, handled1, waits1, hstep, hk1, h1, hless, hexp, hunused, hwaits⟩ :=
      h.progress hk hload
    obtain ⟨ops, t', hops, hrun, hk', h', hpc, hunused', hwaits'⟩ := ih _ hless h1 hk1 rfl
    refine ⟨op :: ops, t', ?_, (exec_cons ..).mpr ⟨t1, hstep, hrun⟩, hk', hexp ▸ h', hpc,
      fun i hi => hunused' i (hunused i hi), fun e he honce => ?_⟩
    · intro o ho
      rcases mem_cons.mp ho with rfl | ho
      · exact hop
      · exact hops o ho
    · rcases hwaits e he with hmem | hgone
      · exact hwaits' e hmem honce
      · exact hunused' _ (hgone honce)

end Tracked

end Timers

/-- **No expiry is lost.** The expiries so far are those whose handler was called or is about to be
called, and those that wait, in this order; a one-shot timer was given back exactly once for each
expiry that was dealt with. `OsSwtmrTask` left alone calls the handlers of all expiries once each,
and gives the blocks of the one-shot timers that waited back to the free list. -/
theorem no_lost_expiry (sysClock : UInt32) (ops : List SwtmrOp) (t : Timers)
    (hok : Guarded Timers.step (fun t op => t.toSwtmr.Sound op ∧ t.Roomy op) (.start sysClock) ops)
    (hrun : exec Timers.step (.start sysClock) ops = some t) :
    ∃ handled waits, t.expiries = handled ++ waits ∧ handled.map fst = t.invoked ++ t.pc.called ∧
      (handled.filter (·.2 = .once)).map fst = t.returned ∧
      waits.map fst = t.pc.waiting ++ t.queue ∧
      ∃ ops' t', (∀ op ∈ ops', op ∈ [SwtmrOp.taskRead, .taskCheck, .taskCall]) ∧
        exec Timers.step t ops' = some t' ∧ t'.expiries = t.expiries ∧
        t'.invoked = t.expiries.map fst ∧ t'.returned = (t.expiries.filter (·.2 = .once)).map fst ∧
        ∃ free : List Nat, Chain (fun p => (t'.cb (p - 1)).pstNext) t'.freeList (free.map (· + 1)) ∧
          ∀ e ∈ waits, e.2 = .once → e.1.swtmrID % swtmrLimit ∈ free ∧
            (t'.cb (e.1.swtmrID % swtmrLimit)).state = .unused := by
  have hkept : ∀ (t : Timers) op t', (t.toSwtmr.Kept ∧ ∃ handled waits, t.Tracked handled waits) →
      t.toSwtmr.Sound op ∧ t.Roomy op → t.step op = some t' →
      t'.toSwtmr.Kept ∧ ∃ handled waits, t'.Tracked handled waits := by
    intro t op t' ⟨hk, handled, waits, h⟩ ⟨hsound, hroomy⟩ hstep
    exact ⟨Timers.kept_step hk hsound hstep, h.step hk hroomy hstep⟩
  have hstart : (Timers.start sysClock).Tracked [] [] :=
    ⟨rfl, rfl, rfl, rfl, by simp, List.Pairwise.nil⟩
  obtain ⟨hk, handled, waits, h⟩ :=
    exec_inv_guarded hkept ⟨Timers.kept_start sysClock, [], [], hstart⟩ hok hrun
  obtain ⟨ops', t', hops, hrun', ⟨⟨free, links, hown⟩, -⟩, h', hpc, -, hunused⟩ := h.drain hk
  have hexp := h'.split
  rw [append_nil] at hexp
  have hcalls := h'.calls
  rw [hpc, show SwtmrPc.called .reading = [] from rfl, append_nil] at hcalls
  refine ⟨handled, waits, h.split, h.calls, h.given, h.items, ops', t', hops, hrun', hexp,
    hcalls.symm, h'.given.symm, free, hown.chain, fun e he honce => ?_⟩
  have hstate := hunused e he honce
  have hblock := hown.blocks _ (Nat.mod_lt e.1.swtmrID (by decide)) (by simp)
  simp only [Swtmr.BlockOk, hstate] at hblock
  exact ⟨hblock.1, hstate⟩

/-- A one-shot and a periodic timer expire at the same tick, while `OsSwtmrTask` is busy with an
earlier expiry. -/
def busyTask : List SwtmrOp :=
  [.create 2 (some .once) 1 0 true, .create 1 (some .period) 2 0 true, .start 0, .start 1, .clock 1,
    .scan, .taskRead, .clock 2, .scan, .scan]

theorem no_lost_expiry_busyTask :
    ∃ t, exec Timers.step (.start 100) busyTask = some t ∧ t.expiries.length = 3 ∧ t.invoked = [] ∧
      ∃ ops' t', exec Timers.step t ops' = some t' ∧ t'.invoked = t.expiries.map fst := by
  have hok : Guarded Timers.step (fun t op => t.toSwtmr.Sound op ∧ t.Roomy op) (.start 100)
      busyTask := by
    decide +kernel
  obtain ⟨t, ht, hthree, hnone⟩ : ∃ t, exec Timers.step (.start 100) busyTask = some t ∧
      t.expiries.length = 3 ∧ t.invoked = [] := by
    decide +kernel
  obtain ⟨-, -, -, -, -, -, ops', t', -, hrun', -, hcalls, -⟩ := no_lost_expiry 100 busyTask t hok ht
  exact ⟨t, ht, hthree, hnone, ops', t', hrun', hcalls⟩

/-- A periodic timer of one tick and a one-shot timer of 49 ticks; `OsSwtmrTask` does not run before
tick 49, and then reads all there is. -/
def delayedTask : List SwtmrOp :=
  [.create 49 (some .once) 1 0 true, .create 1 (some .period) 2 0 true, .start 0, .start 1,
    .clock 49] ++ List.replicate 50 .scan ++
    (List.replicate 48 [SwtmrOp.taskRead, .taskCheck, .taskCall]).flatten

/-- The expiry of the one-shot timer finds the queue full: its handler is not called, nothing of it
waits, and its block stays ticking, linked nowhere. -/
theorem expiry_dropped : ∃ t, exec Timers.step (.start 100) delayedTask = some t ∧
      (⟨1, 0, 0⟩, .once) ∈ t.expiries ∧ t.expiries.length = 50 ∧ t.invoked.length = 48 ∧
      t.queue = [] ∧ t.pc = .reading ∧ ⟨1, 0, 0⟩ ∉ t.invoked ∧ t.returned = [] ∧
      (t.cb 0).state = .ticking ∧ (t.cb 0).responseTime = invalidTime := by
  decide +kernel

end LiteosM.Kernel
