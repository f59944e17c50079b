import LiteosM.Kernel.Sections

/-!
# How the IPC calls end

Each call on a semaphore, a mutex, a queue or an event, up to its wait, as the list of its outcomes:
an error that changes nothing, the grant, the release, or the wait. What is proved about a call is proved
about its outcomes.

* `State.semPend_cases`, `State.semPost_cases`, `State.muxPend_cases`, `State.muxPost_cases`,
  `State.queueOperate_cases`, `State.eventReadLocked_cases`: the outcomes, each with its condition;
* `State.muxWaits`, `State.queueWaits`: the states in which a call goes to wait.

The pieces behind a wait have no more than two outcomes, and are unfolded where they are needed.
-/

namespace LiteosM.Kernel

open LiteosM.Lib

theorem Sched.modifyTaskSchedParam_runTask (s : Sched) (t p : Nat) :
    (s.modifyTaskSchedParam t p).runTask = s.runTask := by
  unfold Sched.modifyTaskSchedParam Sched.taskEnQueue Sched.taskDeQueue
  dsimp only
  split_ifs <;> rfl

theorem Sched.taskWait_runTask (s : Sched) (n : Node) (ticks : Nat) :
    (s.taskWait n ticks).runTask = s.runTask := by
  unfold Sched.taskWait
  split_ifs <;> rfl

namespace State

variable (k : State)

@[simp] theorem toSched_done (e : ErrNo) : (k.done e).toSched = k.toSched := rfl

@[simp] theorem toSched_push (l : List Sec) : (k.push l).toSched = k.toSched := rfl

@[simp] theorem toSched_onSched (f : Sched → Sched) : (k.onSched f).toSched = f k.toSched := rfl

theorem semValidCheck_ok {i : Nat} (h : k.semValidCheck i = .ok) :
    (k.sem i).used = true ∧ k.losTaskLock = 0 := by
  unfold semValidCheck at h
  split_ifs at h with h1 h2
  exact ⟨by simpa using h1, by simpa using h2⟩

theorem muxValidCheck_ok {i : Nat} (h : k.muxValidCheck i = .ok) :
    (k.mux i).used = true ∧ k.losTaskLock = 0 := by
  unfold muxValidCheck at h
  split_ifs at h with h1 h2
  exact ⟨by simpa using h1, by simpa using h2⟩

/-! ## Semaphores -/

/-- The running task takes a token. -/
def semTaken (i : Nat) : State := (k.setSem i fun c => { c with semCount := c.semCount - 1 }).done .ok

/-- The running task waits for a token. -/
def semWaits (i timeout : Nat) : State :=
  (k.onSched fun s =>
    (s.setTCB s.runTask fun c => { c with taskSem := some i }).taskWait (.semList i) timeout).push
      [.schedule, .semPended]

/-- The first task that waits gets the token. -/
def semHandedOver (i : Nat) : State :=
  ((k.wakeFirst (.semList i) fun c => { c with taskSem := none }).done .ok).push [.schedule]

/-- The token is counted. -/
def semCounted (i : Nat) : State := (k.setSem i fun c => { c with semCount := c.semCount + 1 }).done .ok

theorem semPend_cases (i timeout : Nat) : (∃ e, e ≠ .ok ∧ k.semPend i timeout = k.done e) ∨
      ((k.sem i).used = true ∧ (k.sem i).semCount > 0 ∧ k.semPend i timeout = k.semTaken i) ∨
      (k.waits (.semPend i timeout) ∧ k.semPend i timeout = k.semWaits i timeout) := by
  unfold semPend
  split
  · exact .inl ⟨_, ErrNo.noConfusion, rfl⟩
  rename_i hi
  split
  · rename_i hok
    split_ifs with hcount htime
    · exact .inr (.inl ⟨(k.semValidCheck_ok hok).1, hcount, rfl⟩)
    · exact .inl ⟨_, ErrNo.noConfusion, rfl⟩
    · exact .inr (.inr ⟨⟨Nat.lt_of_not_le hi, hok, Nat.eq_zero_of_not_pos hcount, htime⟩, rfl⟩)
  · rename_i hne
    exact .inl ⟨_, hne, rfl⟩

theorem semPost_cases (i : Nat) : (∃ e, e ≠ .ok ∧ k.semPost i = k.done e) ∨
      ((k.sem i).used = true ∧ (k.sem i).maxSemCount ≠ (k.sem i).semCount ∧
        ((k.heap.isEmpty (.semList i) = false ∧ k.semPost i = k.semHandedOver i) ∨
          (k.heap.isEmpty (.semList i) = true ∧ k.semPost i = k.semCounted i))) := by
  unfold semPost
  split_ifs with hvalid hmax hempty
  · exact .inl ⟨_, ErrNo.noConfusion, rfl⟩
  · exact .inl ⟨_, ErrNo.noConfusion, rfl⟩
  · rw [not_or] at hvalid
    exact .inr ⟨by simpa using hvalid.2, hmax, .inl ⟨by simpa using hempty, rfl⟩⟩
  · rw [not_or] at hvalid
    exact .inr ⟨by simpa using hvalid.2, hmax, .inr ⟨by simpa using hempty, rfl⟩⟩

/-! ## Mutexes -/

/-- The running task takes a free mutex. -/
def muxTaken (i : Nat) : State :=
  (k.setMux i fun c =>
    { c with muxCount := 1, owner := some k.runTask, priority := (k.tcb k.runTask).priority }).done .ok

/-- The owner takes its mutex once more. -/
def muxNested (i : Nat) : State :=
  (k.setMux i fun c => { c with muxCount := (c.muxCount + 1) % 2 ^ 16 }).done .ok

/-- The running task is about to wait for a mutex; its owner has at least its priority now. -/
def lent (i owner : Nat) : State :=
  let k1 := k.onSched (·.setTCB k.runTask fun c => { c with taskMux := some i })
  if (k1.tcb owner).priority > (k.tcb k.runTask).priority then
    k1.onSched (·.modifyTaskSchedParam owner (k.tcb k.runTask).priority)
  else k1

theorem lent_runTask (i owner : Nat) : (k.lent i owner).runTask = k.runTask := by
  unfold lent
  dsimp only
  split_ifs
  · exact Sched.modifyTaskSchedParam_runTask _ owner _
  · rfl

/-- The state in which `LOS_MuxPend` goes to sleep. -/
def muxWaits (i owner timeout : Nat) : State :=
  ((k.lent i owner).onSched (·.taskWait (.muxList i) timeout)).push [.schedule, .muxPended]

theorem muxPend_cases (i timeout : Nat) : (∃ e, e ≠ .ok ∧ k.muxPend i timeout = k.done e) ∨
      ((k.mux i).used = true ∧ (k.mux i).muxCount = 0 ∧ k.muxPend i timeout = k.muxTaken i) ∨
      ((k.mux i).used = true ∧ (k.mux i).muxCount ≠ 0 ∧ (k.mux i).owner = some k.runTask ∧
        k.muxPend i timeout = k.muxNested i) ∨ (k.waits (.muxPend i timeout) ∧
        (((k.mux i).owner = none ∧ k.muxPend i timeout = k.onSched (·.raise .badPointer)) ∨
          ∃ owner, (k.mux i).owner = some owner ∧ k.muxPend i timeout = k.muxWaits i owner timeout)) := by
  unfold muxPend
  split
  · exact .inl ⟨_, ErrNo.noConfusion, rfl⟩
  rename_i hi
  split
  · rename_i hok
    have hused := (k.muxValidCheck_ok hok).1
    split_ifs with hfree hown htime
    · exact .inr (.inl ⟨hused, hfree, rfl⟩)
    · exact .inr (.inr (.inl ⟨hused, hfree, hown, rfl⟩))
    · exact .inl ⟨_, ErrNo.noConfusion, rfl⟩
    refine .inr (.inr (.inr ⟨⟨Nat.lt_of_not_le hi, hok, hfree, hown, htime⟩, ?_⟩))
    split
    · rename_i hnone
      exact .inl ⟨hnone, rfl⟩
    · rename_i owner howner
      exact .inr ⟨owner, howner, rfl⟩
  · rename_i hne
    exact .inl ⟨_, hne, rfl⟩

/-- One `LOS_MuxPost` of the owner. -/
def released (i : Nat) : State := k.setMux i fun c => { c with muxCount := c.muxCount - 1 }

/-- The priority of the running task goes back to what the mutex has saved. -/
def restored (i : Nat) : State :=
  if (k.tcb k.runTask).priority ≠ (k.mux i).priority then
    k.onSched (·.modifyTaskSchedParam k.runTask (k.mux i).priority)
  else k

/-- The mutex goes to the first task that waits for it. -/
def muxHandedOver (i t : Nat) : State :=
  let k := k.setMux i fun c => { c with muxCount := 1, owner := some t, priority := (k.tcb t).priority }
  ((k.wakeFirst (.muxList i) fun c => { c with taskMux := none }).done .ok).push [.schedule]

/-- Nobody waits for the mutex. -/
def muxFreed (i : Nat) : State := (k.setMux i fun c => { c with owner := none }).done .ok

/-- The last `LOS_MuxPost` of the owner. -/
def muxGiven (i : Nat) : State :=
  let k := (k.released i).restored i
  if !k.heap.isEmpty (.muxList i) then
    match k.first (.muxList i) with
    | some t => k.muxHandedOver i t
    | none => k.onSched (·.raise .badPointer)
  else k.muxFreed i

theorem muxPost_cases (i : Nat) : (∃ e, e ≠ .ok ∧ k.muxPost i = k.done e) ∨
      ((k.mux i).used = true ∧ (k.mux i).muxCount ≠ 0 ∧ (k.mux i).owner = some k.runTask ∧
        (((k.mux i).muxCount ≠ 1 ∧ k.muxPost i = (k.released i).done .ok) ∨
          ((k.mux i).muxCount = 1 ∧ k.muxPost i = k.muxGiven i))) := by
  have hcount : ((k.released i).mux i).muxCount = (k.mux i).muxCount - 1 := by
    unfold released setMux
    dsimp only
    rw [Function.update_self]
  have heq : k.muxPost i =
      if i ≥ muxLimit ∨ !(k.mux i).used then k.done .muxInvalid
      else if (k.mux i).muxCount = 0 ∨ (k.mux i).owner ≠ some k.runTask then k.done .muxInvalid
      else if ((k.released i).mux i).muxCount ≠ 0 then (k.released i).done .ok
      else k.muxGiven i := rfl
  rw [heq]
  split_ifs with hvalid hown hlast
  · exact .inl ⟨_, ErrNo.noConfusion, rfl⟩
  · exact .inl ⟨_, ErrNo.noConfusion, rfl⟩
  all_goals
    rw [not_or] at hvalid hown
    refine .inr ⟨by simpa using hvalid.2, hown.1, not_not.mp hown.2, ?_⟩
  · exact .inl ⟨by omega, rfl⟩
  · exact .inr ⟨by omega, rfl⟩

/-! ## Queues -/

theorem queueParamCheck_used {q : Nat} {rw : ReadWrite} {size : Nat}
    (h : k.queueParamCheck q rw size = .ok) : (k.queue q).used = true := by
  unfold queueParamCheck at h
  split_ifs at h with hq hsize hused
  · cases rw <;> cases h
  · simpa using hused

/-- The running task has taken its slot. -/
def queueTaken (q : Nat) (rw : ReadWrite) : State :=
  k.setQueue q fun c => c.setCnt rw (c.readWriteableCnt rw - 1)

/-- The state in which `OsQueueOperate` goes to sleep. -/
def queueWaits (q : Nat) (rw : ReadWrite) (timeout : Nat) : State :=
  (k.onSched (·.taskWait (.readWriteList q rw) timeout)).push [.schedule, .queuePended q rw]

theorem queueOperate_cases (q : Nat) (rw : ReadWrite) (size timeout : Nat) :
    (∃ e, e ≠ .ok ∧ k.queueOperate q rw size timeout = k.done e) ∨
      ((k.queue q).used = true ∧ (k.queue q).readWriteableCnt rw ≠ 0 ∧
        k.queueOperate q rw size timeout = (k.queueTaken q rw).queueFinish q rw) ∨
      (k.waits (.queueOperate q rw size timeout) ∧
        k.queueOperate q rw size timeout = k.queueWaits q rw timeout) := by
  unfold queueOperate
  split
  · rename_i hok
    split_ifs with hcnt htime hlock
    · cases rw
      · exact .inl ⟨_, ErrNo.noConfusion, rfl⟩
      · exact .inl ⟨_, ErrNo.noConfusion, rfl⟩
    · exact .inl ⟨_, ErrNo.noConfusion, rfl⟩
    · exact .inr (.inr ⟨⟨hok, hcnt, htime, by simpa using hlock⟩, rfl⟩)
    · exact .inr (.inl ⟨k.queueParamCheck_used hok, hcnt, rfl⟩)
  · rename_i hne
    exact .inl ⟨_, hne, rfl⟩

/-! ## Events -/

/-- The wait of `LOS_EventRead`. -/
def eventWaits (e : Nat) (mask mode : BitVec 32) (timeout : Nat) : State :=
  (k.onSched fun s =>
    (s.setTCB s.runTask fun c => { c with eventMask := mask, eventMode := mode }).taskWait
      (.stEventList e) timeout).push [.schedule, .eventPended e mask mode]

theorem eventReadLocked_cases (e : Nat) (mask mode : BitVec 32) (timeout : Nat) :
    ((pollEvent (k.event e) mask mode ≠ 0 ∨ timeout = 0) ∧
        k.eventReadLocked e mask mode timeout = k.eventPoll e mask mode) ∨
      k.eventReadLocked e mask mode timeout = k.done .eventReadInLock ∨
      (k.waits (.eventReadLocked e mask mode timeout) ∧
        k.eventReadLocked e mask mode timeout = k.eventWaits e mask mode timeout) := by
  unfold eventReadLocked
  split_ifs with hpoll hlock
  · exact .inl ⟨hpoll, rfl⟩
  · exact .inr (.inl rfl)
  · rw [not_or, not_not] at hpoll
    exact .inr (.inr ⟨⟨hpoll.1, hpoll.2, by simpa using hlock⟩, rfl⟩)

end State

end LiteosM.Kernel
