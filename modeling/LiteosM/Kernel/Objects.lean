import LiteosM.Kernel.IpcSections

/-!
# The critical sections that move no task

Creating and deleting semaphores, mutexes and queues, `LOS_EventInit` and `LOS_EventDestroy`, and the
scheduler lock. Lists appear and disappear, but none of them has a task in it.

* `Frozen`: what all of them leave alone, and `Frozen.good`, `At.still`: what follows;
* `IpcOk.openOne`, `IpcOk.shutOne`: an object comes into use, or goes out of it, with its lists;
* `At.semCreate` to `At.taskUnlock`: each section is `Tame`.

Premise: `LOS_EventInit` is not called on a block in whose list a task waits; the kernel does not check that.
-/

namespace LiteosM.Kernel

open LiteosM.Lib Function List Option NodeLists State

/-- No task has moved or changed, and no list of tasks has either. -/
structure Frozen (v v' : View) : Prop where
  tcb : v'.s.tcb = v.s.tcb
  pl : v'.pl = v.pl
  lists : ∀ n, v'.L.at n = v.L.at n
  join : ∀ t, v.L (.joinList t) ≠ none → v'.L (.joinList t) ≠ none
  run : v'.s.runTask = v.s.runTask
  idle : v'.s.idleTaskID = v.s.idleTaskID
  start : v'.s.taskScheduled = v.s.taskScheduled
  fault : v'.s.fault = v.s.fault

namespace Frozen

variable {v v' v'' : View}

theorem st (h : Frozen v v') (t : Nat) : v'.s.st t = v.s.st t := by
  unfold Sched.st
  rw [h.tcb]

theorem trans (h : Frozen v v') (h' : Frozen v' v'') : Frozen v v'' where
  tcb := h'.tcb.trans h.tcb
  pl := h'.pl.trans h.pl
  lists n := (h'.lists n).trans (h.lists n)
  join t := fun ht => h'.join t (h.join t ht)
  run := h'.run.trans h.run
  idle := h'.idle.trans h.idle
  start := h'.start.trans h.start
  fault := h'.fault.trans h.fault

theorem good (h : Frozen v v') (hG : Good v) : Good v' := by
  constructor
  · have hR := hG.run
    constructor
    · rw [h.idle]
      exact hR.idle
    · rw [h.run]
      exact hR.le
    · rw [h.start, h.run, h.st]
      exact hR.onCpu
    · intro t ht
      rw [h.st, h.run]
      exact hR.running t ht
    · intro hstart
      rw [h.start] at hstart
      rw [h.run]
      refine ⟨(hR.before hstart).1, fun t ht => ?_⟩
      rw [h.st]
      exact (hR.before hstart).2 t ht
    · rw [h.st]
      exact hR.ghost
    · rw [h.fault]
      exact hR.sound
  have hJ := hG.join
  constructor
  · intro u t
    rw [h.pl, h.st]
    exact hJ.target u t
  · intro u u' t
    rw [h.pl]
    exact hJ.once u u' t
  · intro t ht
    rw [h.st]
    exact fun hj => h.join t (hJ.init t ht hj)

end Frozen

/-! ## Heads -/

namespace View

variable (v : View) {n : Node}

section
variable (hn : n.isHead = true) (hfixed : n.isFixed = false) (hat : v.L.at n = [])
include hn hfixed hat

/-- The heap has changed, and with it one list that holds no node. -/
theorem rehead {h' : Heap Node} {x : Option (List Node)} (hx : x.getD [] = [])
    (hjoin : (∀ t, n ≠ .joinList t) ∨ x ≠ none) (hR : Rings h' (update v.L n x)) :
    ∃ v', v'.s = v.s.setHeap h' ∧ Frozen v v' ∧ v'.L = update v.L n x := by
  have hlists := Shape.at_rehead hat hx
  have hshape := v.placed.shape.rehead hn hfixed hat hx hR
  have hbits : BitsOk v.s.queueBitmap (update v.L n x) := by
    intro p hp
    rw [hlists]
    exact v.placed.bits p hp
  refine ⟨⟨v.s.setHeap h', _, v.pl, v.sl, hshape, hbits, v.placed.task⟩, rfl,
    ⟨rfl, rfl, hlists, fun t ht => ?_, rfl, rfl, rfl, rfl⟩, rfl⟩
  by_cases htn : .joinList t = n <;> dsimp only
  · rw [htn, update_self]
    exact hjoin.resolve_left fun hc => hc t htn.symm
  · rwa [update_of_ne htn]

/-- `LOS_ListInit` of a head that has no task in its list. -/
theorem initList : ∃ v', v'.s = v.s.setHeap (v.s.heap.init n) ∧ Frozen v v' ∧
      v'.L = update v.L n (some []) :=
  v.rehead hn hfixed hat rfl (.inr (some_ne_none _))
    (v.placed.shape.rings.init hat (v.placed.shape.head_not_mem hn))

end

/-- A wait list in which no task waits. -/
theorem at_nil (hn : n.isWait = true) (h : ∀ u, v.pl u ≠ some n) : v.L.at n = [] := by
  rw [eq_nil_iff_forall_not_mem]
  intro x hx
  obtain ⟨t, -, rfl | rfl⟩ := v.placed.shape.kind n x hx
  · exact h t ((v.placed.shape.pend t n).mp hx)
  · rw [((v.placed.shape.sort t n).mp hx).1] at hn
    cases hn

end View

section
variable {k k' : State} {v v' : View}

/-- A piece of code that moves no task. -/
theorem At.still (hA : At k v) (h : Frozen v v') (hs : v'.s = k'.toSched) (hI : IpcOk k' v')
    {l : List Sec} (hl : ∀ c ∈ l, c.WellFormed ∧ c.plain = true)
    (htodo : k'.todo = update k.todo k.runTask (l ++ k.todo k.runTask))
    (halloc : k'.allocated = k.allocated) (hfreed : k'.freed = k.freed) : Tame nobody k v k' v' := by
  have hrun : k'.runTask = k.runTask := by
    rw [show k'.runTask = v'.s.runTask by rw [hs], h.run, hA.eq]
  have hidle : k'.idleTaskID = k.idleTaskID := by
    rw [show k'.idleTaskID = v'.s.idleTaskID by rw [hs], h.idle, hA.eq]
  refine ⟨⟨⟨hs, h.good hA.good, hI, ?_⟩, fun hstart hstop => ?_⟩, hrun, fun u => by rw [h.tcb],
    fun u _ => by rw [h.pl], fun u p _ hu => by rw [h.pl, hu], fun p a r _ _ hahead => ?_,
    ⟨l, fun c hc => (hl c hc).2, htodo⟩, halloc, hfreed, ⟨h.idle, h.start⟩, fun u n hu hL => ?_⟩
  · refine hA.todo.push hA.clean (fun c hc => ⟨(hl c hc).1, Sec.holds_of_plain (hl c hc).2⟩)
      (.inl hA.busy) htodo hidle fun u t c hc hh => ?_
    rw [h.st, h.pl]
    exact (hA.todo.held u t c hc hh).2
  · have hstart' : k.taskScheduled = true := by
      rw [← hstart, show k'.taskScheduled = v'.s.taskScheduled by rw [hs], h.start, hA.eq]
    have hgoes := hA.goes hstart'
    simp [← hrun, show k.st k'.runTask = v.s.st k'.runTask by rw [hA.eq], ← h.st, hs, hstop] at hgoes
  · unfold Ahead
    rwa [h.lists]
  · rw [h.pl] at hu
    have hsome := v.placed.shape.some_of_pl hu
    simp [hL] at hsome

/-- A call that only returns. -/
theorem At.refused (hA : At k v) (ret : ErrNo) : ∃ v', Tame nobody k v (k.done ret) v' :=
  ⟨v, (hA.done _).tame hA.eq⟩

section
variable (hI : IpcOk k v) (hsem : PoolOk (fun i => (k'.sem i).used) k'.unusedSem)
  (hmux : PoolOk (fun i => (k'.mux i).used) k'.unusedMux)
  (hqueue : PoolOk (fun q => (k'.queue q).used) k'.freeQueue)
  (howner : ∀ i o, (k'.mux i).owner = some o →
    o ≤ taskMaxNum ∧ (o < taskMaxNum → (k'.mux i).priority < priorityQueueNum))
include hI hsem hmux hqueue howner

/-- The object with the lists `own`, in which no task waits, goes out of use. -/
theorem IpcOk.shutOne (own : Node → Prop)
    (hown : ∀ n, own n → k'.inUse n = some false ∧ v.L.at n = [])
    (hother : ∀ n, ¬own n → k'.inUse n = k.inUse n) : IpcOk k' v := by
  refine ⟨fun n hn => ?_, fun n u hn hu => ?_, hsem, hmux, hqueue, howner⟩
  · by_cases hc : own n
    · simp [(hown n hc).1] at hn
    · exact hI.opened n (hother n hc ▸ hn)
  by_cases hc : own n
  · have := (v.placed.shape.pend u n).mpr hu
    simp [(hown n hc).2] at this
  · exact hI.shut n u (hother n hc ▸ hn) hu

/-- The object with the lists `own` comes into use. -/
theorem IpcOk.openOne (h : Frozen v v') (own : Node → Prop)
    (hown : ∀ n, own n → k'.inUse n = some true ∧ v'.L n ≠ none)
    (hother : ∀ n, ¬own n → k'.inUse n = k.inUse n ∧ v'.L n = v.L n) : IpcOk k' v' := by
  refine ⟨fun n hn => ?_, fun n u hn hu => ?_, hsem, hmux, hqueue, howner⟩
  · by_cases hc : own n
    · exact (hown n hc).2
    · rw [(hother n hc).2]
      exact hI.opened n ((hother n hc).1 ▸ hn)
  by_cases hc : own n
  · simp [(hown n hc).1] at hn
  · rw [h.pl] at hu
    exact hI.shut n u ((hother n hc).1 ▸ hn) hu

end

/-- The lists of other objects are in use as before. -/
theorem inUse_congr {n : Node} (hsem : ∀ i, n = .semList i → (k'.sem i).used = (k.sem i).used)
    (hmux : ∀ i, n = .muxList i → (k'.mux i).used = (k.mux i).used)
    (hqueue : ∀ q rw, n = .readWriteList q rw → (k'.queue q).used = (k.queue q).used) : k'.inUse n = k.inUse n := by
  cases n with
  | semList i => exact congrArg some (hsem i rfl)
  | muxList i => exact congrArg some (hmux i rfl)
  | readWriteList q rw => exact congrArg some (hqueue q rw rfl)
  | _ => rfl

theorem Frozen.refl (v : View) : Frozen v v :=
  ⟨rfl, rfl, fun _ => rfl, fun _ => id, rfl, rfl, rfl, rfl⟩

/-! ## Semaphores -/

/-- `OsSemCreate`. -/
theorem At.semCreate (hA : At k v) (count maxCount : Nat) :
    ∃ v', Tame nobody k v (k.semCreate count maxCount) v' := by
  unfold State.semCreate
  split_ifs with hcount
  · exact hA.refused _
  cases hfree : k.unusedSem with
  | nil => exact hA.refused _
  | cons i rest =>
    have hpool := hA.ipc.sems
    rw [hfree] at hpool
    have hshut := hpool.shut i mem_cons_self
    obtain ⟨v', hs', hfrozen, hL'⟩ := v.initList (n := .semList i) rfl rfl
      (v.at_nil rfl fun u => hA.ipc.shut _ u (congrArg some hshut))
    have hself := update_self i (⟨true, count, maxCount⟩ : LosSemCB) k.sem
    refine ⟨v', hA.still hfrozen (by rw [hs', hA.eq]; rfl) ?_ plain_nil (todo_same _ _) rfl rfl⟩
    refine hA.ipc.openOne (hpool.take fun j hj => congrArg LosSemCB.used (update_of_ne hj _ _)) hA.ipc.muxes
      hA.ipc.queues hA.ipc.owner hfrozen (· = .semList i) ?_ fun n hn => ⟨?_, ?_⟩
    · rintro n rfl
      rw [hL', update_self]
      exact ⟨congrArg (fun c : LosSemCB => some c.used) hself, some_ne_none _⟩
    · refine inUse_congr (fun j hj => ?_) (fun _ _ => rfl) fun _ _ _ => rfl
      exact congrArg LosSemCB.used (update_of_ne (fun hc => hn (hj.trans (congrArg _ hc))) _ _)
    · rw [hL', update_of_ne hn]

/-- `LOS_SemDelete`. -/
theorem At.semDelete (hA : At k v) (i : Nat) : ∃ v', Tame nobody k v (k.semDelete i) v' := by
  unfold State.semDelete
  split_ifs with hvalid hempty
  · exact hA.refused _
  · exact hA.refused _
  rw [not_or] at hvalid
  have hused : (k.sem i).used = true := by simpa using hvalid.2
  have hL := some_of_ne_none (hA.ipc.opened (.semList i) (congrArg some hused))
  have hat : v.L.at (.semList i) = [] := (v.placed.shape.rings.isEmpty_iff hL).mp
    (by rw [hA.eq]; simpa using hempty)
  have hself := update_self i ({ k.sem i with used := false } : LosSemCB) k.sem
  refine ⟨v, hA.still (Frozen.refl v) hA.eq ?_ plain_nil (todo_same _ _) rfl rfl⟩
  refine hA.ipc.shutOne (hA.ipc.sems.give hused (congrArg LosSemCB.used hself)
    fun j hj => congrArg LosSemCB.used (update_of_ne hj _ _)) hA.ipc.muxes hA.ipc.queues hA.ipc.owner
    (· = .semList i) ?_ fun n hn => ?_
  · rintro n rfl
    exact ⟨congrArg (fun c : LosSemCB => some c.used) hself, hat⟩
  · refine inUse_congr (fun j hj => ?_) (fun _ _ => rfl) fun _ _ _ => rfl
    exact congrArg LosSemCB.used (update_of_ne (fun hc => hn (hj.trans (congrArg _ hc))) _ _)

/-! ## Mutexes -/

/-- One mutex is replaced. -/
theorem owner_update (howner : ∀ j o, (k.mux j).owner = some o →
      o ≤ taskMaxNum ∧ (o < taskMaxNum → (k.mux j).priority < priorityQueueNum)) {i : Nat}
    {c : LosMuxCB} (hc : ∀ o, c.owner = some o →
      o ≤ taskMaxNum ∧ (o < taskMaxNum → c.priority < priorityQueueNum)) (j o : Nat)
    (ho : (update k.mux i c j).owner = some o) : o ≤ taskMaxNum ∧
      (o < taskMaxNum → (update k.mux i c j).priority < priorityQueueNum) := by
  by_cases hj : j = i
  · subst hj
    rw [update_self] at ho ⊢
    exact hc o ho
  · rw [update_of_ne hj] at ho ⊢
    exact howner j o ho

/-- `LOS_MuxCreate`. -/
theorem At.muxCreate (hA : At k v) : ∃ v', Tame nobody k v k.muxCreate v' := by
  unfold State.muxCreate
  cases hfree : k.unusedMux with
  | nil => exact hA.refused _
  | cons i rest =>
    have hpool := hA.ipc.muxes
    rw [hfree] at hpool
    have hshut := hpool.shut i mem_cons_self
    obtain ⟨v', hs', hfrozen, hL'⟩ := v.initList (n := .muxList i) rfl rfl
      (v.at_nil rfl fun u => hA.ipc.shut _ u (congrArg some hshut))
    have hself := update_self i (⟨true, 0, none, 0⟩ : LosMuxCB) k.mux
    refine ⟨v', hA.still hfrozen (by rw [hs', hA.eq]; rfl) ?_ plain_nil (todo_same _ _) rfl rfl⟩
    refine hA.ipc.openOne hA.ipc.sems (hpool.take fun j hj => congrArg LosMuxCB.used (update_of_ne hj _ _))
      hA.ipc.queues (owner_update hA.ipc.owner fun o ho => by cases ho) hfrozen (· = .muxList i) ?_
      fun n hn => ⟨?_, ?_⟩
    · rintro n rfl
      rw [hL', update_self]
      exact ⟨congrArg (fun c : LosMuxCB => some c.used) hself, some_ne_none _⟩
    · refine inUse_congr (fun _ _ => rfl) (fun j hj => ?_) fun _ _ _ => rfl
      exact congrArg LosMuxCB.used (update_of_ne (fun hc => hn (hj.trans (congrArg _ hc))) _ _)
    · rw [hL', update_of_ne hn]

/-- `LOS_MuxDelete`. -/
theorem At.muxDelete (hA : At k v) (i : Nat) : ∃ v', Tame nobody k v (k.muxDelete i) v' := by
  unfold State.muxDelete
  split_ifs with hvalid hempty
  · exact hA.refused _
  · exact hA.refused _
  rw [not_or] at hvalid hempty
  have hused : (k.mux i).used = true := by simpa using hvalid.2
  have hL := some_of_ne_none (hA.ipc.opened (.muxList i) (congrArg some hused))
  have hat : v.L.at (.muxList i) = [] := (v.placed.shape.rings.isEmpty_iff hL).mp
    (by rw [hA.eq]; simpa using hempty.1)
  have hself := update_self i ({ k.mux i with used := false } : LosMuxCB) k.mux
  refine ⟨v, hA.still (Frozen.refl v) hA.eq ?_ plain_nil (todo_same _ _) rfl rfl⟩
  refine hA.ipc.shutOne hA.ipc.sems (hA.ipc.muxes.give hused (congrArg LosMuxCB.used hself)
    fun j hj => congrArg LosMuxCB.used (update_of_ne hj _ _)) hA.ipc.queues
    (owner_update hA.ipc.owner (hA.ipc.owner i)) (· = .muxList i) ?_ fun n hn => ?_
  · rintro n rfl
    exact ⟨congrArg (fun c : LosMuxCB => some c.used) hself, hat⟩
  · refine inUse_congr (fun _ _ => rfl) (fun j hj => ?_) fun _ _ _ => rfl
    exact congrArg LosMuxCB.used (update_of_ne (fun hc => hn (hj.trans (congrArg _ hc))) _ _)

/-! ## Queues -/

/-- `OsQueueCreate`. -/
theorem At.queueCreate (hA : At k v) (len maxMsgSize : Nat) (memory : Bool) :
    ∃ v', Tame nobody k v (k.queueCreate len maxMsgSize memory) v' := by
  unfold State.queueCreate
  split_ifs
  · exact hA.refused _
  · exact hA.refused _
  · exact hA.refused _
  · exact hA.refused _
  cases hfree : k.freeQueue with
  | nil => exact hA.refused _
  | cons q rest =>
    have hpool := hA.ipc.queues
    rw [hfree] at hpool
    have hshut := hpool.shut q mem_cons_self
    have hnil : ∀ rw, v.L.at (.readWriteList q rw) = [] := fun rw =>
      v.at_nil rfl fun u => hA.ipc.shut _ u (congrArg some hshut)
    obtain ⟨v1, hs1, hfrozen1, hL1⟩ := v.initList rfl rfl (hnil .read)
    obtain ⟨v', hs', hfrozen', hL'⟩ := v1.initList rfl rfl
      (by rw [hfrozen1.lists]; exact hnil .write)
    have hfrozen := hfrozen1.trans hfrozen'
    have hself := update_self q (⟨true, len, maxMsgSize + 4, 0, len⟩ : LosQueueCB) k.queue
    refine ⟨v', hA.still hfrozen (by rw [hs', hs1, hA.eq]; rfl) ?_ plain_nil (todo_same _ _) rfl rfl⟩
    refine hA.ipc.openOne hA.ipc.sems hA.ipc.muxes
      (hpool.take fun j hj => congrArg LosQueueCB.used (update_of_ne hj _ _)) hA.ipc.owner hfrozen
      (fun n => ∃ rw, n = .readWriteList q rw) ?_ fun n hn => ⟨?_, ?_⟩
    · rintro n ⟨rw, rfl⟩
      refine ⟨congrArg (fun c : LosQueueCB => some c.used) hself, ?_⟩
      cases rw with
      | read =>
        rw [hL', update_of_ne (by simp), hL1, update_self]
        exact some_ne_none _
      | write =>
        rw [hL', update_self]
        exact some_ne_none _
    · refine inUse_congr (fun _ _ => rfl) (fun _ _ => rfl) fun j rw hj => ?_
      exact congrArg LosQueueCB.used (update_of_ne (fun hc => hn ⟨rw, hj.trans (congrArg (Node.readWriteList · rw) hc)⟩) _ _)
    · rw [hL', update_of_ne fun hc => hn ⟨_, hc⟩, hL1, update_of_ne fun hc => hn ⟨_, hc⟩]

/-- `LOS_QueueDelete`. -/
theorem At.queueDelete (hA : At k v) (q : Nat) : ∃ v', Tame nobody k v (k.queueDelete q) v' := by
  unfold State.queueDelete
  split_ifs with hlt hvalid hread hwrite hcount
  · exact hA.refused _
  · exact hA.refused _
  · exact hA.refused _
  · exact hA.refused _
  · exact hA.refused _
  have hused : (k.queue q).used = true := by simpa using hvalid
  have hat : ∀ rw, v.L.at (.readWriteList q rw) = [] := fun rw => by
    have hL := some_of_ne_none (hA.ipc.opened (.readWriteList q rw) (congrArg some hused))
    refine (v.placed.shape.rings.isEmpty_iff hL).mp ?_
    rw [hA.eq]
    cases rw with
    | read => simpa using hread
    | write => simpa using hwrite
  have hself := update_self q ({ k.queue q with used := false } : LosQueueCB) k.queue
  refine ⟨v, hA.still (Frozen.refl v) hA.eq ?_ plain_nil (todo_same _ _) rfl rfl⟩
  refine hA.ipc.shutOne hA.ipc.sems hA.ipc.muxes (hA.ipc.queues.give hused (congrArg LosQueueCB.used hself)
    fun j hj => congrArg LosQueueCB.used (update_of_ne hj _ _)) hA.ipc.owner
    (fun n => ∃ rw, n = .readWriteList q rw) ?_ fun n hn => ?_
  · rintro n ⟨rw, rfl⟩
    exact ⟨congrArg (fun c : LosQueueCB => some c.used) hself, hat rw⟩
  · refine inUse_congr (fun _ _ => rfl) (fun _ _ => rfl) fun j rw hj => ?_
    exact congrArg LosQueueCB.used (update_of_ne (fun hc => hn ⟨rw, hj.trans (congrArg (Node.readWriteList · rw) hc)⟩) _ _)

/-! ## Events -/

/-- The tables of semaphores, mutexes and queues are as before. -/
structure SameIpc (k k' : State) : Prop where
  sem : k'.sem = k.sem
  mux : k'.mux = k.mux
  queue : k'.queue = k.queue
  unusedSem : k'.unusedSem = k.unusedSem
  unusedMux : k'.unusedMux = k.unusedMux
  freeQueue : k'.freeQueue = k.freeQueue

/-- The objects keep their lists, and no task has entered one. -/
theorem IpcOk.same (hI : IpcOk k v) (h : SameIpc k k')
    (hL : ∀ n, k.inUse n ≠ none → v'.L n = none → v.L n = none)
    (hpl : ∀ u n, n.isWait = true → v'.pl u = some n → v.pl u = some n) : IpcOk k' v' := by
  have huse : ∀ n, k'.inUse n = k.inUse n := fun n => by
    unfold inUse
    rw [h.sem, h.mux, h.queue]
  constructor
  · intro n hn hc
    rw [huse] at hn
    exact hI.opened n hn (hL n (hn ▸ some_ne_none _) hc)
  · intro n u hn hu
    rw [huse] at hn
    exact hI.shut n u hn (hpl u n (isWait_of_inUse hn) hu)
  · rw [h.sem, h.unusedSem]
    exact hI.sems
  · rw [h.mux, h.unusedMux]
    exact hI.muxes
  · rw [h.queue, h.freeQueue]
    exact hI.queues
  · rw [h.mux]
    exact hI.owner

theorem IpcOk.frozen (hI : IpcOk k v) (hsame : SameIpc k k') (h : Frozen v v')
    (hL : ∀ n, k.inUse n ≠ none → v'.L n = v.L n) : IpcOk k' v' := by
  refine hI.same hsame (fun n hn => ?_) fun u n _ => ?_
  · rw [hL n hn]
    exact id
  · rw [h.pl]
    exact id

/-- `LOS_EventInit` of an event block for which no task waits. -/
theorem At.eventInit (hA : At k v) (e : Nat)
    (hfree : k.heap.next (.stEventList e) = none ∨ k.heap.isEmpty (.stEventList e) = true) :
    ∃ v', Tame nobody k v (k.eventInit e) v' := by
  have hat : v.L.at (.stEventList e) = [] := by
    cases hL : v.L (.stEventList e) with
    | none => exact at_of_none hL
    | some l =>
      have hne := v.placed.shape.rings.next_ne_none hL
      rw [hA.eq] at hne
      have hempty := hfree.resolve_left hne
      rw [at_of_some hL]
      refine (v.placed.shape.rings.isEmpty_iff hL).mp ?_
      rwa [hA.eq]
  obtain ⟨v', hs', hfrozen, hL'⟩ := v.initList rfl rfl hat
  refine ⟨v', hA.still hfrozen (by rw [hs', hA.eq]; rfl) ?_ plain_nil (todo_same _ _) rfl rfl⟩
  refine hA.ipc.frozen ⟨rfl, rfl, rfl, rfl, rfl, rfl⟩ hfrozen fun n hn => ?_
  rw [hL', update_of_ne]
  rintro rfl
  exact hn rfl

/-- `LOS_EventDestroy`. -/
theorem At.eventDestroy (hA : At k v) (e : Nat) : ∃ v', Tame nobody k v (k.eventDestroy e) v' := by
  unfold State.eventDestroy
  split_ifs with hempty
  · exact hA.refused _
  have hempty' : v.s.heap.isEmpty (.stEventList e) = true := by
    rw [hA.eq]
    simpa using hempty
  have hL : v.L (.stEventList e) ≠ none := by
    intro hc
    unfold Heap.isEmpty at hempty'
    simp [(v.placed.shape.null rfl hc).1] at hempty'
  have hat := (v.placed.shape.rings.isEmpty_iff (some_of_ne_none hL)).mp hempty'
  obtain ⟨v', hs', hfrozen, hL'⟩ := v.rehead rfl rfl hat rfl (.inl fun _ => Node.noConfusion)
    (v.placed.shape.rings.clear hat (v.placed.shape.head_not_mem rfl))
  refine ⟨v', hA.still hfrozen (by rw [hs', hA.eq]; rfl) ?_ plain_nil (todo_same _ _) rfl rfl⟩
  refine hA.ipc.frozen ⟨rfl, rfl, rfl, rfl, rfl, rfl⟩ hfrozen fun n hn => ?_
  rw [hL', update_of_ne]
  rintro rfl
  exact hn rfl

/-! ## The scheduler lock -/

theorem View.setLock (v : View) (lock : Nat) :
    ∃ v', v'.s = { v.s with losTaskLock := lock } ∧ Frozen v v' ∧ v'.L = v.L :=
  ⟨⟨{ v.s with losTaskLock := lock }, v.L, v.pl, v.sl, v.placed.shape, v.placed.bits, v.placed.task⟩,
    rfl, ⟨rfl, rfl, fun _ => rfl, fun _ => id, rfl, rfl, rfl, rfl⟩, rfl⟩

/-- `LOS_TaskLock`. -/
theorem At.taskLock (hA : At k v) : ∃ v', Tame nobody k v k.taskLock v' := by
  obtain ⟨v', hs', hfrozen, hL'⟩ := v.setLock ((k.losTaskLock + 1) % 2 ^ 16)
  refine ⟨v', hA.still hfrozen (by rw [hs', hA.eq]; rfl) ?_ plain_nil (todo_same _ _) rfl rfl⟩
  exact hA.ipc.frozen ⟨rfl, rfl, rfl, rfl, rfl, rfl⟩ hfrozen fun n _ => by rw [hL']

/-- `LOS_TaskUnlock`. -/
theorem At.taskUnlock (hA : At k v) : ∃ v', Tame nobody k v k.taskUnlock v' := by
  unfold State.taskUnlock
  split
  · obtain ⟨v', hs', hfrozen, hL'⟩ := v.setLock (k.losTaskLock - 1)
    refine ⟨v', hA.still hfrozen (by rw [hs', hA.eq]; rfl) ?_ plain_ite rfl rfl rfl⟩
    exact hA.ipc.frozen ⟨rfl, rfl, rfl, rfl, rfl, rfl⟩ hfrozen fun n _ => by rw [hL']
  · refine ⟨v, hA.still (Frozen.refl v) hA.eq ?_ plain_nil (todo_same _ _) rfl rfl⟩
    exact hA.ipc

end

end LiteosM.Kernel
