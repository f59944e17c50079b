import LiteosM.Kernel.SwtmrOwn

/-!
# When handlers run

A run of the software timers with its history: which IDs were stopped and not started since, which were
deleted, which timers have expired, and which handlers were called.

* `tag_losSwtmrStart`, `tag_scanRound` and the like: what a step does to the ID, the mode and the state of a
  block;
* **`no_handler_after_stop`**: no handler is called for a timer that is stopped or deleted, as long as
  nothing of it is on its way when it is stopped, and past the comparison of the IDs when it is deleted.

The condition is on the stop and on the deletion. The call of the handler itself comes later, and a
condition on that step would be the result.
-/

namespace LiteosM.Kernel

open LiteosM.Lib Function List Option Swtmr

namespace Swtmr

/-! ## What a step shows -/

/-- The ID, the mode and the state of a block. -/
structure Tag where
  id : Nat
  mode : SwtmrMode
  state : SwtmrStatus
  deriving DecidableEq

/-- The tags of all blocks, the queue, and where `OsSwtmrTask` is. -/
structure Face where
  tag : Nat → Tag
  queue : List SwtmrHandlerItem
  pc : SwtmrPc

/-- The tag of block `i` changes. -/
def Face.set (v : Face) (i : Nat) (t : Tag) : Face := { v with tag := update v.tag i t }

/-- The face of a state. -/
def face (s : Swtmr) : Face where
  tag i := ⟨(s.cb i).timerID, (s.cb i).mode, (s.cb i).state⟩
  queue := s.queue
  pc := s.pc

section

variable {s s' : Swtmr} {free links : List Nat} {i : Nat}

theorem face_setCB (f : SwtmrCtrl → SwtmrCtrl) : (s.setCB i f).face =
    s.face.set i ⟨(f (s.cb i)).timerID, (f (s.cb i)).mode, (f (s.cb i)).state⟩ := by
  have htag : (s.setCB i f).face.tag = (s.face.set i ⟨(f (s.cb i)).timerID, (f (s.cb i)).mode,
      (f (s.cb i)).state⟩).tag := by
    funext j
    by_cases hji : j = i
    · subst hji
      simp [face, Face.set]
    · simp [face, Face.set, cb_setCB_ne hji, hji]
  exact congrArg (fun t => (⟨t, s.queue, s.pc⟩ : Face)) htag

/-- A write that keeps the tag is not seen. -/
theorem face_setCB_same (f : SwtmrCtrl → SwtmrCtrl) (hid : (f (s.cb i)).timerID = (s.cb i).timerID)
    (hmode : (f (s.cb i)).mode = (s.cb i).mode) (hstate : (f (s.cb i)).state = (s.cb i).state) :
    (s.setCB i f).face = s.face := by
  rw [face_setCB, hid, hmode, hstate, Face.set]
  have htag : update s.face.tag i ⟨(s.cb i).timerID, (s.cb i).mode, (s.cb i).state⟩ =
      s.face.tag := update_eq_self i s.face.tag
  rw [htag]

theorem face_deleteNodeSortLink : (s.deleteNodeSortLink i).face = s.face :=
  (face_setCB_same _ rfl rfl rfl).trans rfl

theorem face_swtmrStart :
    (s.swtmrStart i).face = s.face.set i ⟨(s.cb i).timerID, (s.cb i).mode, .ticking⟩ := by
  unfold swtmrStart add2SortLink
  rw [show ∀ s : Swtmr, (s.addNode2SortLink i).face = s.face from fun _ => rfl, face_setCB_same _ rfl rfl rfl,
    face_setCB]

theorem face_swtmrStop :
    (s.swtmrStop i).face = s.face.set i ⟨(s.cb i).timerID, (s.cb i).mode, .created⟩ := by
  unfold swtmrStop deleteSortLink
  split
  · rw [face_setCB, face_deleteNodeSortLink]
    simp [deleteNodeSortLink, setHeap]
  · rw [face_setCB]

theorem tag_swtmrStop : ((s.swtmrStop i).cb i).timerID = (s.cb i).timerID ∧
    ((s.swtmrStop i).cb i).mode = (s.cb i).mode := by
  have htag := congrArg (fun v => v.tag i) (@face_swtmrStop s i)
  simp only [face, Face.set, update_self, Tag.mk.injEq] at htag
  exact ⟨htag.1, htag.2.1⟩

theorem face_swtmrDelete : (s.swtmrDelete i).face =
    s.face.set i ⟨nextTimerID (s.cb i).timerID, (s.cb i).mode, .unused⟩ :=
  @face_setCB s i fun c => { c with
    timerID := nextTimerID c.timerID, pstNext := s.freeList, state := .unused }

theorem face_queueWrite (item : SwtmrHandlerItem) : (s.queueWrite item).face =
    { s.face with queue := if s.queue.length < swtmrLimit then s.queue ++ [item] else s.queue } := by
  unfold queueWrite
  split <;> rfl

@[simp] theorem Face.set_set (v : Face) (t t' : Tag) : (v.set i t).set i t' = v.set i t' := by
  simp [Face.set]

theorem swtmrCreate_cases (interval : UInt32) (mode : Option SwtmrMode) (handler arg : Nat)
    (swtmrId : Bool) : (s.swtmrCreate interval mode handler arg swtmrId).1 = s ∨
      ∃ mode', s.freeList ≠ 0 ∧ (s.swtmrCreate interval mode handler arg swtmrId).1.face =
        s.face.set (s.freeList - 1) ⟨(s.cb (s.freeList - 1)).timerID, mode', .created⟩ := by
  unfold swtmrCreate
  split
  · exact .inl rfl
  cases mode with
  | none => exact .inl rfl
  | some mode =>
    split_ifs with hhandler hptr hfree
    · exact .inl rfl
    · exact .inl rfl
    · exact .inl rfl
    · refine .inr ⟨mode, hfree, ?_⟩
      rw [face_setCB]
      rfl

/-- The block that an ID belongs to. -/
theorem lookup_cases (id : Nat) : (∃ ret, ret ≠ .ok ∧ s.lookup id = .error ret) ∨
    s.lookup id = .ok (id % swtmrLimit) ∧ (s.cb (id % swtmrLimit)).timerID = id := by
  unfold lookup
  split_ifs with hmax hid
  · exact .inl ⟨_, by decide, rfl⟩
  · exact .inl ⟨_, by decide, rfl⟩
  · exact .inr ⟨rfl, not_not.mp hid⟩

theorem losSwtmrStart_cases (id : Nat) : (s.losSwtmrStart id).1 = s ∧ (s.losSwtmrStart id).2 ≠ .ok ∨
      (s.losSwtmrStart id).2 = .ok ∧ (s.cb (id % swtmrLimit)).timerID = id ∧
      (s.losSwtmrStart id).1.face =
        s.face.set (id % swtmrLimit) ⟨id, (s.cb (id % swtmrLimit)).mode, .ticking⟩ := by
  unfold losSwtmrStart
  rcases s.lookup_cases id with ⟨ret, hret, hl⟩ | ⟨hl, hid⟩
  · rw [hl]
    exact .inl ⟨rfl, hret⟩
  rw [hl]
  dsimp only
  split
  · exact .inl ⟨rfl, by simp⟩
  · refine .inr ⟨rfl, hid, ?_⟩
    rw [face_swtmrStart, face_setCB_same _ rfl rfl rfl, face_swtmrStop, Face.set_set, cb_setCB_self,
      tag_swtmrStop.1, tag_swtmrStop.2, hid]
  · refine .inr ⟨rfl, hid, ?_⟩
    rw [face_swtmrStart, face_setCB_same _ rfl rfl rfl, cb_setCB_self, hid]

theorem losSwtmrStop_cases (id : Nat) : (s.losSwtmrStop id).1 = s ∧ (s.losSwtmrStop id).2 ≠ .ok ∨
      (s.losSwtmrStop id).2 = .ok ∧ (s.cb (id % swtmrLimit)).timerID = id ∧
      (s.cb (id % swtmrLimit)).state = .ticking ∧ (s.losSwtmrStop id).1.face =
        s.face.set (id % swtmrLimit) ⟨id, (s.cb (id % swtmrLimit)).mode, .created⟩ := by
  unfold losSwtmrStop
  rcases s.lookup_cases id with ⟨ret, hret, hl⟩ | ⟨hl, hid⟩
  · rw [hl]
    exact .inl ⟨rfl, hret⟩
  rw [hl]
  dsimp only
  split
  · exact .inl ⟨rfl, by simp⟩
  · exact .inl ⟨rfl, by simp⟩
  · rename_i hstate
    refine .inr ⟨rfl, hid, hstate, ?_⟩
    rw [face_swtmrStop, hid]

theorem losSwtmrDelete_cases (id : Nat) :
    (s.losSwtmrDelete id).1 = s ∧ (s.losSwtmrDelete id).2 ≠ .ok ∨
      (s.losSwtmrDelete id).2 = .ok ∧ (s.cb (id % swtmrLimit)).timerID = id ∧
      (s.cb (id % swtmrLimit)).state ≠ .unused ∧ (s.losSwtmrDelete id).1.face =
        s.face.set (id % swtmrLimit) ⟨nextTimerID id, (s.cb (id % swtmrLimit)).mode, .unused⟩ := by
  unfold losSwtmrDelete
  rcases s.lookup_cases id with ⟨ret, hret, hl⟩ | ⟨hl, hid⟩
  · rw [hl]
    exact .inl ⟨rfl, hret⟩
  rw [hl]
  dsimp only
  split
  · exact .inl ⟨rfl, by simp⟩
  · rename_i hstate
    refine .inr ⟨rfl, hid, by rw [hstate]; decide, ?_⟩
    rw [face_swtmrDelete, face_swtmrStop, Face.set_set, tag_swtmrStop.1, tag_swtmrStop.2, hid]
  · rename_i hstate
    refine .inr ⟨rfl, hid, by rw [hstate]; decide, ?_⟩
    rw [face_swtmrDelete, hid]

/-- The state in which an expiry leaves a timer of a mode. -/
def afterExpiry : SwtmrMode → SwtmrStatus
  | .once => .ticking
  | .period => .ticking
  | .noSelfDelete => .created

theorem face_scanRound (hticking : (s.cb i).state = .ticking) : (s.scanRound i).face =
    { s.face.set i ⟨(s.cb i).timerID, (s.cb i).mode, afterExpiry (s.cb i).mode⟩ with
      queue := if s.queue.length < swtmrLimit then s.queue ++ [s.handlerItem i] else s.queue } := by
  have hcb := cb_left (s := s) (i := i)
  have hface : (s.left i).face = s.face := face_deleteNodeSortLink.trans (face_setCB_same _ rfl rfl rfl)
  have hq : (s.left i).queue = s.queue := rfl
  have hself : s.face.set i ⟨(s.cb i).timerID, (s.cb i).mode, .ticking⟩ = s.face := by
    rw [← hticking]
    exact congrArg (fun t => (⟨t, s.queue, s.pc⟩ : Face)) (update_eq_self i s.face.tag)
  rw [scanRound_eq]
  generalize s.left i = s1 at hcb hface hq ⊢
  have hitem : s1.handlerItem i = s.handlerItem i := by
    rw [handlerItem, hcb]
    rfl
  unfold swtmrTimeoutHandle
  dsimp only
  rw [cb_queueWrite, hcb, hitem]
  have hwrite := face_queueWrite (s := s1) (s.handlerItem i)
  rw [hface, hq] at hwrite
  cases hmode : (s.cb i).mode with
  | once =>
    rw [hmode] at hself
    rw [hwrite, afterExpiry, hself]
  | period =>
    rw [face_swtmrStart, face_setCB_same _ rfl rfl rfl, hwrite, cb_setCB_self, cb_queueWrite, hcb,
      hmode]
    rfl
  | noSelfDelete =>
    rw [face_setCB, hwrite, cb_queueWrite, hcb, hmode]
    rfl

theorem taskCheck_cases (hrun : s.taskCheck = some s') : ∃ item, s.pc = .read item ∧
    ((s.cb (item.swtmrID % swtmrLimit)).timerID ≠ item.swtmrID ∧
        s'.face = { s.face with pc := .reading } ∨
      (s.cb (item.swtmrID % swtmrLimit)).timerID = item.swtmrID ∧
        (s.cb (item.swtmrID % swtmrLimit)).mode = .once ∧
        s'.face = { s.face.set (item.swtmrID % swtmrLimit) ⟨nextTimerID item.swtmrID,
          (s.cb (item.swtmrID % swtmrLimit)).mode, .unused⟩ with pc := .calling item } ∨
      (s.cb (item.swtmrID % swtmrLimit)).timerID = item.swtmrID ∧
        (s.cb (item.swtmrID % swtmrLimit)).mode ≠ .once ∧
        s'.face = { s.face with pc := .calling item }) := by
  unfold taskCheck at hrun
  cases hpc : s.pc with
  | reading | calling => simp [hpc] at hrun
  | read item =>
    simp only [hpc] at hrun
    refine ⟨item, rfl, ?_⟩
    split_ifs at hrun with hid hmode
    · cases hrun
      exact .inl ⟨hid, rfl⟩
    · have hid := not_not.mp hid
      refine .inr (.inl ⟨hid, hmode, ?_⟩)
      cases hrun
      have hdel := face_swtmrDelete (s := s) (i := item.swtmrID % swtmrLimit)
      rw [hid] at hdel
      exact congrArg (fun v : Face => { v with pc := .calling item }) hdel
    · cases hrun
      exact .inr (.inr ⟨not_not.mp hid, hmode, rfl⟩)

theorem nextTimerID_ne {id : Nat} (hid : id < swtmrMaxTimerID) : nextTimerID id ≠ id := by
  unfold nextTimerID
  split_ifs with hlt
  · unfold swtmrLimit
    omega
  · simp only [swtmrMaxTimerID, swtmrLimit] at hid hlt ⊢
    omega

end

/-! ## Stopped and deleted timers -/

/-- The IDs of the expiries that `OsSwtmrTask` has not looked at yet. -/
def Face.pendingIDs (v : Face) : List Nat :=
  (match v.pc with | .read item => [item.swtmrID] | _ => []) ++ v.queue.map (·.swtmrID)

/-- The tag of the block that an ID belongs to. -/
def Face.at (v : Face) (id : Nat) : Tag := v.tag (id % swtmrLimit)

/-- Nothing that was stopped or deleted can lead to a call of its handler. -/
structure Silent (v : Face) (stopped deleted : List Nat) : Prop where
  /-- A stopped timer is at rest, or was deleted. -/
  rests : ∀ id ∈ stopped, id ∉ v.pendingIDs ∧ ((v.at id).id = id → (v.at id).state = .created) ∧
    ((v.at id).id = id ∨ id ∈ deleted)
  /-- The ID of a deleted timer does not come back. -/
  gone : ∀ id ∈ deleted, (v.at id).id ≠ id
  calling : ∀ item, v.pc = .calling item → item.swtmrID ∉ stopped ∧ item.swtmrID ∉ deleted

namespace Silent

variable {v : Face} {stopped deleted deleted' : List Nat} {i : Nat} {t : Tag}

theorem at_set_ne {id : Nat} (h : id % swtmrLimit ≠ i) : (v.set i t).at id = v.at id :=
  update_of_ne h ..

theorem at_set_self {id : Nat} (h : id % swtmrLimit = i) : (v.set i t).at id = t := by
  subst h
  exact update_self ..

section
variable (h : Silent v stopped deleted)
include h

/-- A block keeps its ID. -/
theorem retag (hid : t.id = (v.tag i).id)
    (hstate : (v.tag i).id ∈ stopped → (v.tag i).id % swtmrLimit = i → t.state = .created) :
    Silent (v.set i t) stopped deleted where
  rests id hs := by
    obtain ⟨hp, hc, hd⟩ := h.rests id hs
    by_cases hi : id % swtmrLimit = i
    · have hat : v.at id = v.tag i := by rw [Face.at, hi]
      rw [at_set_self hi, hid]
      rw [hat] at hd
      refine ⟨hp, fun heq => hstate ?_ ?_, hd⟩
      · rwa [heq]
      · rwa [heq]
    · rw [at_set_ne hi]
      exact ⟨hp, hc, hd⟩
  gone id hs := by
    have hne := h.gone id hs
    by_cases hi : id % swtmrLimit = i
    · rw [at_set_self hi, hid]
      rwa [Face.at, hi] at hne
    · rwa [at_set_ne hi]
  calling := h.calling

/-- A block gets a new ID. -/
theorem renew (hi : (v.tag i).id % swtmrLimit = i)
    (hnew : t.id ≠ (v.tag i).id) (hfresh : t.id ∉ deleted)
    (hstopped : (v.tag i).id ∈ stopped → (v.tag i).id ∈ deleted')
    (hdeleted : ∀ id, id ∈ deleted' → id = (v.tag i).id ∨ id ∈ deleted)
    (hsub : ∀ id ∈ deleted, id ∈ deleted')
    (hcalling : ∀ item, v.pc = .calling item → item.swtmrID ∉ deleted') :
    Silent (v.set i t) stopped deleted' where
  rests id hs := by
    obtain ⟨hp, hc, hd⟩ := h.rests id hs
    by_cases hidx : id % swtmrLimit = i
    · have hat : v.at id = v.tag i := by rw [Face.at, hidx]
      rw [hat] at hd
      rw [at_set_self hidx]
      refine ⟨hp, fun heq => ?_, .inr ?_⟩
      · rcases hd with hd | hd
        · exact absurd (heq.trans hd.symm) hnew
        · exact absurd (heq ▸ hd) hfresh
      rcases hd with hd | hd
      · rw [← hd]
        exact hstopped (hd ▸ hs)
      · exact hsub id hd
    · rw [at_set_ne hidx]
      exact ⟨hp, hc, hd.imp_right (hsub id)⟩
  gone id hs := by
    by_cases hidx : id % swtmrLimit = i
    · rw [at_set_self hidx]
      rcases hdeleted id hs with rfl | hs
      · exact hnew
      · exact fun heq => hfresh (heq ▸ hs)
    rw [at_set_ne hidx]
    rcases hdeleted id hs with rfl | hs
    · exact absurd hi hidx
    · exact h.gone id hs
  calling item hpc := ⟨(h.calling item hpc).1, hcalling item hpc⟩

theorem subset {stopped' : List Nat}
    (hsub : ∀ id ∈ stopped', id ∈ stopped) : Silent v stopped' deleted where
  rests id hs := h.rests id (hsub id hs)
  gone := h.gone
  calling item hpc := ⟨fun hs => (h.calling item hpc).1 (hsub _ hs), (h.calling item hpc).2⟩

/-- A timer is stopped. -/
theorem stop {id : Nat} (hpend : id ∉ v.pendingIDs)
    (hid : (v.at id).id = id) (hstate : (v.at id).state = .created)
    (hcalling : ∀ item, v.pc = .calling item → item.swtmrID ≠ id) :
    Silent v (id :: stopped) deleted where
  rests id' hs := by
    rcases mem_cons.mp hs with rfl | hs
    · exact ⟨hpend, fun _ => hstate, .inl hid⟩
    · exact h.rests id' hs
  gone := h.gone
  calling item hpc := by
    refine ⟨fun hs => ?_, (h.calling item hpc).2⟩
    rcases mem_cons.mp hs with heq | hs
    · exact hcalling item hpc heq
    · exact (h.calling item hpc).1 hs

/-- An item is queued, read or compared. -/
theorem repend {v' : Face} (htag : v'.tag = v.tag)
    (hpend : ∀ id ∈ stopped, id ∉ v'.pendingIDs)
    (hcalling : ∀ item, v'.pc = .calling item → item.swtmrID ∉ stopped ∧ item.swtmrID ∉ deleted) :
    Silent v' stopped deleted where
  rests id hs := by
    have hat : v'.at id = v.at id := by rw [Face.at, htag, Face.at]
    rw [hat]
    exact ⟨hpend id hs, (h.rests id hs).2⟩
  gone id hs := by
    rw [Face.at, htag]
    exact h.gone id hs
  calling := hcalling

end

end Silent

end Swtmr

/-! ## The history -/

/-- The timers with their history. -/
structure Timers extends Swtmr where
  /-- The IDs for which `LOS_SwtmrStop` returned `LOS_OK`, and `LOS_SwtmrStart` has not since. -/
  stopped : List Nat
  /-- The IDs for which `LOS_SwtmrDelete` returned `LOS_OK`. -/
  deleted : List Nat
  /-- The expiries, each with the mode of the timer. -/
  expiries : List (SwtmrHandlerItem × SwtmrMode)
  /-- The expiries for which `OsSwtmrTask` gave the block back. -/
  returned : List SwtmrHandlerItem
  /-- The handlers that were called. -/
  invoked : List SwtmrHandlerItem

namespace Timers

/-- What the history keeps of a step that leads to `s`. -/
def record (t : Timers) (s : Swtmr) : SwtmrOp → Timers
  | .start id =>
    { t with
      toSwtmr := s
      stopped := if (t.losSwtmrStart id.toNat).2 = .ok then t.stopped.filter (· ≠ id.toNat)
        else t.stopped }
  | .stop id =>
    { t with
      toSwtmr := s
      stopped := if (t.losSwtmrStop id.toNat).2 = .ok then id.toNat :: t.stopped else t.stopped }
  | .delete id =>
    { t with
      toSwtmr := s
      deleted := if (t.losSwtmrDelete id.toNat).2 = .ok then id.toNat :: t.deleted else t.deleted }
  | .scan =>
    { t with
      toSwtmr := s
      expiries := match t.expired with
        | none => t.expiries
        | some i => t.expiries ++ [(t.handlerItem i, (t.cb i).mode)] }
  | .taskCheck =>
    { t with
      toSwtmr := s
      returned := match t.pc with
        | .read item =>
          if (t.cb (item.swtmrID % swtmrLimit)).timerID = item.swtmrID ∧
              (t.cb (item.swtmrID % swtmrLimit)).mode = .once then t.returned ++ [item]
          else t.returned
        | _ => t.returned }
  | .taskCall =>
    { t with
      toSwtmr := s
      invoked := match t.pc with
        | .calling item => t.invoked ++ [item]
        | _ => t.invoked }
  | _ => { t with toSwtmr := s }

/-- A step, with the record of it. -/
def step (t : Timers) (op : SwtmrOp) : Option Timers :=
  (t.toSwtmr.step op).map fun s => t.record s op

/-- Nothing has been recorded. -/
def start (sysClock : UInt32) : Timers where
  toSwtmr := .init sysClock
  stopped := []
  deleted := []
  expiries := []
  returned := []
  invoked := []

/-- Nothing of a timer is on its way when it is stopped; when it is deleted, `OsSwtmrTask` is not
about to call its handler; and the ID of a deleted timer does not come back. -/
def Heeds (t : Timers) : SwtmrOp → Prop
  | .stop id =>
    (t.cb (id.toNat % swtmrLimit)).timerID = id.toNat →
      (t.cb (id.toNat % swtmrLimit)).state = .ticking →
        id.toNat ∉ t.pendingIDs ∧ (match t.pc with | .calling item => item.swtmrID ≠ id.toNat | _ => True)
  | .delete id =>
    (t.cb (id.toNat % swtmrLimit)).timerID = id.toNat →
      (t.cb (id.toNat % swtmrLimit)).state ≠ .unused →
        (match t.pc with | .calling item => item.swtmrID ≠ id.toNat | _ => True) ∧
          nextTimerID id.toNat ∉ t.deleted
  | .taskCheck =>
    match t.pc with
    | .read item =>
      (t.cb (item.swtmrID % swtmrLimit)).timerID = item.swtmrID →
        (t.cb (item.swtmrID % swtmrLimit)).mode = .once →
          nextTimerID item.swtmrID ∉ t.deleted
    | _ => True
  | _ => True

section
variable (t : Timers) (s : Swtmr)
include t s

@[simp] theorem record_toSwtmr (op : SwtmrOp) : (t.record s op).toSwtmr = s := by
  cases op <;> rfl

theorem record_expiries : (t.record s .scan).expiries =
    match t.expired with
    | none => t.expiries
    | some i => t.expiries ++ [(t.handlerItem i, (t.cb i).mode)] := rfl

theorem record_returned : (t.record s .taskCheck).returned =
    match t.pc with
    | .read item =>
      if (t.cb (item.swtmrID % swtmrLimit)).timerID = item.swtmrID ∧
          (t.cb (item.swtmrID % swtmrLimit)).mode = .once then t.returned ++ [item]
      else t.returned
    | _ => t.returned := rfl

theorem record_invoked : (t.record s .taskCall).invoked =
    match t.pc with
    | .calling item => t.invoked ++ [item]
    | _ => t.invoked := rfl

end

theorem kept_step {t t' : Timers} {op : SwtmrOp} (h : t.toSwtmr.Kept) (hsound : t.toSwtmr.Sound op)
    (hrun : t.step op = some t') : t'.toSwtmr.Kept := by
  obtain ⟨s, hs, rfl⟩ := map_eq_some_iff.mp hrun
  rw [record_toSwtmr]
  exact h.step hsound hs

theorem kept_start (sysClock : UInt32) : (start sysClock).toSwtmr.Kept :=
  ⟨⟨_, _, owned_init sysClock⟩, by change (0 : Nat) < 2 ^ 63; decide⟩

/-! ## No handler after a stop -/

theorem mem_pendingIDs_of_read {v : Face} {item : SwtmrHandlerItem} (hpc : v.pc = .read item) :
    item.swtmrID ∈ v.pendingIDs ∧ ∀ id ∈ v.queue.map (·.swtmrID), id ∈ v.pendingIDs := by
  simp only [Face.pendingIDs, hpc]
  exact ⟨by simp, fun id hid => by simp only [mem_append]; exact .inr hid⟩

variable {t t' : Timers}

section
variable (h : Silent t.face t.stopped t.deleted)
include h

variable {id : UInt32}

theorem silent_stop (hheeds : t.Heeds (.stop id)) :
    Silent (t.losSwtmrStop id.toNat).1.face
      (if (t.losSwtmrStop id.toNat).2 = .ok then id.toNat :: t.stopped else t.stopped) t.deleted := by
  rcases losSwtmrStop_cases id.toNat with ⟨hs, hret⟩ | ⟨hret, hid, hst, hface⟩
  · rwa [if_neg hret, hs]
  rw [if_pos hret, hface]
  obtain ⟨hpend, hcall⟩ := hheeds hid hst
  have hrest := h.retag
    (t := ⟨id.toNat, (t.cb (id.toNat % swtmrLimit)).mode, .created⟩) hid.symm fun _ _ => rfl
  refine hrest.stop hpend ?_ ?_ fun item hpc => ?_
  · rw [Silent.at_set_self rfl]
  · rw [Silent.at_set_self rfl]
  · have hpc : t.pc = .calling item := hpc
    rwa [hpc] at hcall

theorem silent_delete (hk : t.toSwtmr.Kept) (hheeds : t.Heeds (.delete id)) :
    Silent (t.losSwtmrDelete id.toNat).1.face t.stopped
      (if (t.losSwtmrDelete id.toNat).2 = .ok then id.toNat :: t.deleted else t.deleted) := by
  rcases losSwtmrDelete_cases id.toNat with
    ⟨hs, hret⟩ | ⟨hret, hid, hst, hface⟩
  · rwa [if_neg hret, hs]
  rw [if_pos hret, hface]
  obtain ⟨⟨free, links, hown⟩, -⟩ := hk
  obtain ⟨hcall, hfresh⟩ := hheeds hid hst
  have hmax := (hown.ids _ (Nat.mod_lt id.toNat (by decide))).2
  rw [hid] at hmax
  have htag : (t.face.tag (id.toNat % swtmrLimit)).id = id.toNat := hid
  refine h.renew ?_ ?_ hfresh ?_ ?_ ?_ ?_
  · rw [htag]
  · rw [htag]
    exact nextTimerID_ne hmax
  · rw [htag]
    exact fun _ => mem_cons_self
  · rw [htag]
    exact fun _ => mem_cons.mp
  · exact fun _ => mem_cons_of_mem _
  intro item hpc hc
  rcases mem_cons.mp hc with heq | hc
  · have hpc : t.pc = .calling item := hpc
    rw [hpc] at hcall
    exact hcall heq
  · exact (h.calling item hpc).2 hc

theorem silent_start : Silent (t.losSwtmrStart id.toNat).1.face
      (if (t.losSwtmrStart id.toNat).2 = .ok then t.stopped.filter (· ≠ id.toNat) else t.stopped)
      t.deleted := by
  rcases losSwtmrStart_cases id.toNat with ⟨hs, hret⟩ | ⟨hret, hid, hface⟩
  · rwa [if_neg hret, hs]
  rw [if_pos hret, hface]
  have hless : Silent t.face (t.stopped.filter (· ≠ id.toNat)) t.deleted :=
    h.subset fun _ hs => mem_of_mem_filter hs
  have htag : (t.face.tag (id.toNat % swtmrLimit)).id = id.toNat := hid
  refine hless.retag hid.symm fun hs => ?_
  rw [htag] at hs
  simp at hs

theorem silent_scan (hk : t.toSwtmr.Kept) {i : Nat}
    (hexp : t.expired = some i) : Silent (t.scanRound i).face t.stopped t.deleted := by
  obtain ⟨⟨free, links, hown⟩, -⟩ := hk
  obtain ⟨hmem, -⟩ := hown.mem_of_expired hexp
  obtain ⟨hticking, -⟩ := hown.ticking_of_mem hmem
  obtain ⟨hmod, -⟩ := hown.ids i (hown.lt i (.inr (.inl hmem)))
  -- the ID of a ticking timer is not among the stopped ones
  have hnot : (t.cb i).timerID ∉ t.stopped := by
    intro hs
    have hat : t.face.at (t.cb i).timerID = t.face.tag i := by rw [Face.at, hmod]
    have hc := (h.rests _ hs).2.1
    rw [hat] at hc
    have hst : (t.cb i).state = .created := hc rfl
    simp [hticking] at hst
  rw [face_scanRound hticking]
  have hrest := h.retag
    (t := ⟨(t.cb i).timerID, (t.cb i).mode, afterExpiry (t.cb i).mode⟩) rfl
    fun hs => absurd hs hnot
  refine hrest.repend rfl (fun id hs hp => ?_) fun item hpc => h.calling item hpc
  have hp' : id ∈ t.face.pendingIDs ∨ id = (t.cb i).timerID := by
    simp only [Face.pendingIDs, mem_append, List.mem_map] at hp ⊢
    rcases hp with hp | ⟨item, hitem, rfl⟩
    · exact .inl (.inl hp)
    split_ifs at hitem with hroom
    · rcases mem_append.mp hitem with hitem | hitem
      · exact .inl (.inr ⟨item, hitem, rfl⟩)
      · rw [mem_singleton.mp hitem]
        exact .inr rfl
    · exact .inl (.inr ⟨item, hitem, rfl⟩)
  rcases hp' with hp' | rfl
  · exact (h.rests id hs).1 hp'
  · exact hnot hs

theorem silent_taskCheck {s : Swtmr}
    (hk : t.toSwtmr.Kept) (hheeds : t.Heeds .taskCheck) (hrun : t.taskCheck = some s) :
    Silent s.face t.stopped t.deleted := by
  obtain ⟨⟨free, links, hown⟩, -⟩ := hk
  obtain ⟨item, hpc, hcases⟩ := taskCheck_cases hrun
  unfold Heeds at hheeds
  simp only [hpc] at hheeds
  have hface : t.face.pc = .read item := hpc
  obtain ⟨hpend, hqueue⟩ := mem_pendingIDs_of_read hface
  have hnot : item.swtmrID ∉ t.stopped := fun hs => (h.rests _ hs).1 hpend
  have hless : ∀ id ∈ t.stopped, id ∉ t.queue.map (·.swtmrID) := fun id hs hc =>
    (h.rests id hs).1 (hqueue id hc)
  rcases hcases with ⟨-, heq⟩ | ⟨hid, hmode, heq⟩ | ⟨hid, -, heq⟩
  · rw [heq]
    exact h.repend rfl hless fun it hit => by cases hit
  · have htag : (t.face.tag (item.swtmrID % swtmrLimit)).id = item.swtmrID := hid
    have hgone : item.swtmrID ∉ t.deleted := fun hd => h.gone _ hd hid
    have hmax := (hown.ids _ (Nat.mod_lt item.swtmrID (by decide))).2
    rw [hid] at hmax
    have hnew := h.renew
      (t := ⟨nextTimerID item.swtmrID, (t.cb (item.swtmrID % swtmrLimit)).mode, .unused⟩)
      (by rw [htag]) (by rw [htag]; exact nextTimerID_ne hmax) (hheeds hid hmode)
      (by rw [htag]; exact fun hs => absurd hs hnot) (fun _ hd => .inr hd) (fun _ hd => hd)
      (fun it hit => by rw [hface] at hit; cases hit)
    rw [heq]
    refine hnew.repend rfl hless fun it hit => ?_
    obtain rfl := SwtmrPc.calling.inj hit
    exact ⟨hnot, hgone⟩
  rw [heq]
  refine h.repend rfl hless fun it hit => ?_
  obtain rfl := SwtmrPc.calling.inj hit
  exact ⟨hnot, fun hd => h.gone _ hd hid⟩

theorem silent_step {op : SwtmrOp}
    (hk : t.toSwtmr.Kept) (hheeds : t.Heeds op) (hrun : t.step op = some t') :
    Silent t'.face t'.stopped t'.deleted := by
  obtain ⟨s, hs, rfl⟩ := map_eq_some_iff.mp hrun
  cases op with
  | create interval mode handler arg swtmrId =>
    cases hs
    change Silent (t.swtmrCreate ..).1.face t.stopped t.deleted
    rcases swtmrCreate_cases interval mode handler.toNat arg.toNat swtmrId with
      heq | ⟨mode', -, heq⟩
    · rwa [heq]
    · rw [heq]
      exact h.retag rfl fun _ _ => rfl
  | start id =>
    cases hs
    exact silent_start h
  | stop id =>
    cases hs
    exact silent_stop h hheeds
  | delete id =>
    cases hs
    exact silent_delete h hk hheeds
  | clock now =>
    cases hs
    exact h
  | scan =>
    cases hs
    cases hexp : t.expired with
    | none => exact h
    | some i => exact silent_scan h hk hexp
  | taskRead =>
    have hs : t.taskRead = some s := hs
    change Silent s.face t.stopped t.deleted
    unfold taskRead at hs
    split at hs
    · rename_i item queue hpc hq
      cases hs
      refine h.repend rfl (fun id hid hp => (h.rests id hid).1 ?_) fun it hit => ?_
      · have hpend : t.face.pendingIDs = item.swtmrID :: queue.map (·.swtmrID) := by
          simp [Face.pendingIDs, face, hpc, hq]
        rw [hpend]
        split_ifs at hp with hbad
        · exact mem_cons_of_mem _ hp
        · exact hp
      · simp only [face] at hit
        split_ifs at hit
    · cases hs
  | taskCheck => exact silent_taskCheck h hk hheeds hs
  | taskCall =>
    have hs : t.taskCall = some s := hs
    unfold taskCall at hs
    split at hs
    · rename_i item hpc
      cases hs
      refine h.repend rfl (fun id hid hp => (h.rests id hid).1 ?_) fun it hit => by cases hit
      have hpend : t.face.pendingIDs = t.queue.map (·.swtmrID) := by
        simp [Face.pendingIDs, face, hpc]
      rwa [hpend]
    · cases hs

end

instance decidableHeeds (t : Timers) : ∀ op, Decidable (t.Heeds op)
  | .create .. | .start _ | .clock _ | .scan | .taskRead | .taskCall =>
    inferInstanceAs (Decidable True)
  | .stop _ => by
    unfold Heeds
    cases t.pc <;> infer_instance
  | .delete _ => by
    unfold Heeds
    cases t.pc <;> infer_instance
  | .taskCheck => by
    unfold Heeds
    cases t.pc <;> infer_instance

end Timers

/-- **No handler is called for a timer that is stopped or deleted.** -/
theorem no_handler_after_stop (sysClock : UInt32) (ops : List SwtmrOp) (t t' : Timers)
    (hok : Guarded Timers.step (fun t op => t.toSwtmr.Sound op ∧ t.Heeds op) (.start sysClock) ops)
    (hrun : exec Timers.step (.start sysClock) ops = some t) (hcall : t.step .taskCall = some t') :
    ∃ item, t'.invoked = t.invoked ++ [item] ∧ item.swtmrID ∉ t.stopped ∧
      item.swtmrID ∉ t.deleted := by
  have hkept : ∀ (t : Timers) op t', t.toSwtmr.Kept ∧ Silent t.face t.stopped t.deleted →
      t.toSwtmr.Sound op ∧ t.Heeds op → t.step op = some t' →
      t'.toSwtmr.Kept ∧ Silent t'.face t'.stopped t'.deleted := by
    intro t op t' ⟨hk, hsilent⟩ ⟨hsound, hheeds⟩ hstep
    exact ⟨Timers.kept_step hk hsound hstep, Timers.silent_step hsilent hk hheeds hstep⟩
  have hstart : Silent (Timers.start sysClock).face [] [] :=
    ⟨by simp, by simp, fun item hpc => by cases hpc⟩
  obtain ⟨-, hsilent⟩ := exec_inv_guarded hkept ⟨Timers.kept_start sysClock, hstart⟩ hok hrun
  obtain ⟨s, hs, rfl⟩ := map_eq_some_iff.mp hcall
  have hs : t.taskCall = some s := hs
  unfold taskCall at hs
  split at hs
  · rename_i item hpc
    refine ⟨item, ?_, hsilent.calling item hpc⟩
    simp [Timers.record_invoked, hpc]
  · cases hs

/-- A periodic timer is stopped once its expiry was handled; another timer expires after that. -/
def stoppedTimer : List SwtmrOp :=
  [.create 1 (some .period) 1 0 true, .create 2 (some .once) 1 0 true, .start 0, .start 1, .clock 1,
    .scan, .taskRead, .taskCheck, .taskCall, .stop 0, .clock 2, .scan, .taskRead, .taskCheck]

theorem no_handler_after_stop_stoppedTimer :
    ∃ t t', exec Timers.step (.start 100) stoppedTimer = some t ∧ t.stopped = [0] ∧
      t.step .taskCall = some t' ∧
      ∃ item, t'.invoked = t.invoked ++ [item] ∧ item.swtmrID ∉ t.stopped ∧
        item.swtmrID ∉ t.deleted := by
  have hok : Guarded Timers.step (fun t op => t.toSwtmr.Sound op ∧ t.Heeds op) (.start 100)
      stoppedTimer := by
    decide +kernel
  obtain ⟨t, ht, hstopped, t', ht', -⟩ : ∃ t, exec Timers.step (.start 100) stoppedTimer = some t ∧
      t.stopped = [0] ∧ ∃ t', t.step .taskCall = some t' ∧ True := by
    decide +kernel
  exact ⟨t, t', ht, hstopped, ht', no_handler_after_stop 100 stoppedTimer t t' hok ht ht'⟩

/-- A timer is stopped after its expiry was queued: `LOS_SwtmrStop` returns `LOS_OK`, and then the
handler is called. -/
theorem handler_after_stop :
    ∃ t, exec Timers.step (.start 100) [.create 1 (some .period) 1 0 true, .start 0, .clock 1, .scan,
        .stop 0, .taskRead, .taskCheck, .taskCall] = some t ∧
      t.stopped = [0] ∧ t.invoked = [⟨1, 0, 0⟩] := by
  decide +kernel

end LiteosM.Kernel
