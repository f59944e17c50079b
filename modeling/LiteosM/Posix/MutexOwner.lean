import LiteosM.Posix.Mutex

/-!
# The owner of a POSIX mutex

Model of `pthread_mutex_lock`, `pthread_mutex_timedlock`, `pthread_mutex_trylock` and `pthread_mutex_unlock`
on one `pthread_mutex_t`, called by any tasks in any order. One task runs at a time; between two steps
another one may get the processor, unless the scheduler is locked. The critical sections of
`MuxPendForPosix` and `MuxPostForPosix` are one step each, and so is `LOS_MuxCreate`. Of a kernel mutex the
state keeps what the sections look at, of a task its `OS_TASK_STATUS_PEND` flag, where it is, and the number
of locks that have returned 0 and that it has not undone. Priorities are left out; they decide who runs, and
here anybody may.

The end of a timeout takes a task out of the list of the mutex. A deleted task's control block goes to a new
task, which has locked nothing.

* **`mutex_owner_recorded`**: a task whose lock has returned 0 is the owner in the kernel mutex, `muxCount`
  is the number of its locks, and there is no second such task, as long as no task goes to wait while the
  scheduler is locked, `muxCount` does not wrap around, nobody creates the kernel mutex twice and the owner
  of a recursive mutex is not deleted. `MuxPendForPosix` has no test of `g_losTaskLock`: `LOS_Schedule` does
  not switch then, and the task goes on as if it had the mutex.

Out of scope: `pthread_mutex_destroy`, which deletes a kernel mutex that nobody has or waits for and clears
`magic`, so that calls made after it return `EINVAL`. A call that is past its check of `magic` at that
moment is not followed: the runs are those of one initialised mutex that nobody destroys.
-/

namespace LiteosM.Posix

open LiteosM.Kernel LiteosM.Lib List Option State
open Function (update update_eq_self update_of_ne update_self)

/-! ## The model -/

/-- The fields of `LosMuxCB` that the sections use. -/
structure PosixMux where
  used : Bool
  muxCount : Nat
  owner : Option Nat
  muxList : List Nat
  deriving DecidableEq, Repr

/-- The calls. -/
inductive MutexCall where
  | lock
  /-- with the timeout it computes -/
  | timedlock (timeout : Nat)
  | trylock
  | unlock
  deriving DecidableEq, Repr

/-- The timeout for `MuxPendForPosix`. -/
def MutexCall.timeout : MutexCall → Nat
  | .lock => waitForever
  | .timedlock timeout => timeout
  | .trylock | .unlock => 0

/-- Where a task is. -/
inductive MutexPc where
  | out
  /-- before `MuxPreCheck` -/
  | enter (c : MutexCall)
  /-- before `LOS_MuxCreate`: the handle was `_MUX_INVALID_HANDLE` -/
  | create (c : MutexCall)
  /-- before the test of the owner or the count -/
  | check (c : MutexCall)
  /-- before `MuxPendForPosix` reads the handle -/
  | pend (timeout : Nat)
  /-- before the section of `MuxPendForPosix` -/
  | section (handle timeout : Nat)
  /-- behind `OsSchedTaskWait`, in `LOS_Schedule` -/
  | waiting (handle : Nat) (timed : Bool)
  /-- the timeout is over -/
  | expired
  /-- before the section of `MuxPostForPosix` -/
  | post (handle : Nat)
  deriving DecidableEq, Repr

/-- The mutex, the kernel mutexes and the tasks. -/
structure MutexSystem where
  mutex : PthreadMutex
  mux : Nat → PosixMux
  pc : Nat → MutexPc
  pend : Nat → Bool
  held : Nat → Nat
  runTask : Nat
  taskLock : Nat

/-- The steps. -/
inductive MutexLabel where
  /-- the running task calls a function -/
  | call (c : MutexCall)
  /-- the running task makes its next step -/
  | run
  /-- `LOS_MuxCreate` gives this kernel mutex, or none -/
  | created (handle : Option Nat)
  /-- `pthread_mutex_timedlock` returns with an error before it waits -/
  | giveUp
  | switch (t : Nat)
  /-- `LOS_TaskLock` and `LOS_TaskUnlock` -/
  | taskLock
  | taskUnlock
  /-- the timeout of a task is over -/
  | expire (t : Nat)
  /-- a task is deleted or ends -/
  | delete (t : Nat)
  deriving DecidableEq, Repr

namespace MutexSystem

/-- A mutex that nobody has locked, from `pthread_mutex_init` or an initializer; `taken` are the kernel mutexes
of others. -/
def init (m : PthreadMutex) (taken : Nat → Bool) : MutexSystem where
  mutex := m
  mux := fun i => ⟨i < muxLimit ∧ (taken i ∨ i = m.handle), 0, none, []⟩
  pc := fun _ => .out
  pend := fun _ => false
  held := fun _ => 0
  runTask := 0
  taskLock := 0

variable (s : MutexSystem)

/-- Task `t` goes to `pc`. -/
@[simp] def goto (t : Nat) (pc : MutexPc) : MutexSystem := { s with pc := update s.pc t pc }

/-- Writes kernel mutex `i`. -/
@[simp] def setMux (i : Nat) (c : PosixMux) : MutexSystem := { s with mux := update s.mux i c }

/-- Task `t` is made to wait, or woken. -/
def setPend (t : Nat) (b : Bool) : MutexSystem := { s with pend := update s.pend t b }

/-- A lock of the task returns 0. -/
@[simp] def locked (t : Nat) : MutexSystem := { s with held := update s.held t (s.held t + 1) }.goto t .out

/-- An unlock of the task returns 0. -/
def unlocked (t : Nat) : MutexSystem :=
  { s with held := update s.held t (s.held t - 1) }.goto t .out

/-- Up to the test of the handle. -/
def enter (t : Nat) (c : MutexCall) : MutexSystem :=
  if muxPreCheck s.mutex ≠ .zero then s.goto t .out
  else if s.mutex.handle = muxInvalidHandle then
    if c = .unlock then s.goto t .out else s.goto t (.create c)
  else if c = .unlock then s.goto t (.post s.mutex.handle)
  else s.goto t (.check c)

/-- The test of a call that finds a kernel mutex: `EDEADLK` of an error-checking mutex, `EBUSY` of
`pthread_mutex_trylock`. -/
def refuses (t : Nat) (c : MutexCall) : Prop :=
  if c = .trylock then s.mutex.type ≠ mutexRecursive ∧ (s.mux s.mutex.handle).muxCount ≠ 0
  else s.mutex.type = mutexErrorcheck ∧ (s.mux s.mutex.handle).muxCount ≠ 0 ∧
    (s.mux s.mutex.handle).owner = some t
  deriving Decidable

/-- The task takes the mutex once more. -/
def nests (t i : Nat) : Prop := (s.mux i).owner = some t ∧ s.mutex.type = mutexRecursive
  deriving Decidable

/-- The section of `MuxPendForPosix`. -/
def muxPend (t i timeout : Nat) : MutexSystem :=
  if !(s.mux i).used then s.goto t .out
  else if (s.mux i).muxCount = 0 then
    (s.setMux i { s.mux i with muxCount := 1, owner := some t }).locked t
  else if s.nests t i then
    (s.setMux i { s.mux i with muxCount := ((s.mux i).muxCount + 1) % 2 ^ 16 }).locked t
  else if timeout = 0 then s.goto t .out
  else
    ((s.setMux i { s.mux i with muxList := (s.mux i).muxList ++ [t] }).setPend t true).goto t
      (.waiting i (timeout ≠ waitForever))

/-- The section of `MuxPostForPosix`. -/
def muxPost (t i : Nat) : MutexSystem :=
  if !(s.mux i).used then s.goto t .out
  else if (s.mux i).muxCount = 0 ∨ (s.mux i).owner ≠ some t then s.goto t .out
  else if (s.mux i).muxCount - 1 ≠ 0 ∧ s.mutex.type = mutexRecursive then
    (s.setMux i { s.mux i with muxCount := (s.mux i).muxCount - 1 }).unlocked t
  else
    match (s.mux i).muxList with
    | [] => (s.setMux i { s.mux i with muxCount := (s.mux i).muxCount - 1, owner := none }).unlocked t
    | w :: rest =>
      let s := s.setMux i { s.mux i with muxCount := 1, owner := some w, muxList := rest }
      (s.setPend w false).unlocked t

/-- The next step of a task. -/
def run (t : Nat) : Option MutexSystem :=
  match s.pc t with
  | .out | .create _ => none
  | .enter c => some (s.enter t c)
  | .check c => some (if s.refuses t c then s.goto t .out else s.goto t (.pend c.timeout))
  | .pend timeout => some (s.goto t (.section s.mutex.handle timeout))
  | .section i timeout => some (s.muxPend t i timeout)
  | .waiting _ _ => some (s.locked t)
  | .expired => some (s.goto t .out)
  | .post i => some (s.muxPost t i)

/-- The task can go on: it does not wait, or the scheduler has not taken the processor from it. -/
def canRun : Prop := s.pend s.runTask = false ∨ 0 < s.taskLock
  deriving Decidable

/-- `LOS_MuxCreate(&mutex->handle)` of the running task. -/
def create (handle : Option Nat) : Option MutexSystem :=
  match s.pc s.runTask with
  | .create c =>
    match handle with
    | none => some (s.goto s.runTask .out)
    | some i =>
      if i < muxLimit ∧ (s.mux i).used = false then
        some (({ s with mutex := { s.mutex with handle := i } }.setMux i ⟨true, 0, none, []⟩).goto s.runTask
          (.pend c.timeout))
      else none
  | _ => none

/-- The task is taken out of the list it waits in. -/
def unlist (t : Nat) : MutexSystem :=
  { s with mux := fun i => { s.mux i with muxList := (s.mux i).muxList.erase t } }.setPend t false

/-- One step of the running task, or of its environment. -/
def step : MutexLabel → Option MutexSystem
  | .call c => if s.canRun ∧ s.pc s.runTask = .out then some (s.goto s.runTask (.enter c)) else none
  | .run => if s.canRun then s.run s.runTask else none
  | .created handle => if s.canRun then s.create handle else none
  | .giveUp =>
    if s.canRun then
      match s.pc s.runTask with
      | .pend _ => some (s.goto s.runTask .out)
      | _ => none
    else none
  | .switch t => if s.taskLock = 0 ∧ s.pend t = false then some { s with runTask := t } else none
  | .taskLock => if s.canRun then some { s with taskLock := (s.taskLock + 1) % 2 ^ 16 } else none
  | .taskUnlock => if s.canRun then some { s with taskLock := s.taskLock - 1 } else none
  | .expire t =>
    match s.pc t with
    | .waiting _ true => if s.pend t = true then some ((s.unlist t).goto t .expired) else none
    | _ => none
  | .delete t =>
    if t ≠ s.runTask ∨ s.taskLock = 0 then
      some ({ s.unlist t with held := update s.held t 0 }.goto t .out)
    else none

end MutexSystem

/-- The kernel mutex as the kernel's own model has it. -/
def SameMux (c : PosixMux) (l : LosMuxCB) : Prop :=
  c.used = l.used ∧ c.muxCount = l.muxCount ∧ c.owner = l.owner

/-- The section of `MuxPendForPosix` is the one of `Posix.Mutex`, over the state of the kernel. -/
theorem muxPend_refines (k : State) (s : MutexSystem) (timeout : Nat)
    (h : SameMux (s.mux s.mutex.handle) (k.mux s.mutex.handle)) :
    SameMux ((s.muxPend k.runTask s.mutex.handle timeout).mux s.mutex.handle)
      ((muxPendForPosix k s.mutex timeout).mux s.mutex.handle) := by
  obtain ⟨hused, hcount, howner⟩ := h
  have hnests : s.nests k.runTask s.mutex.handle ↔
      (k.mux s.mutex.handle).owner = some k.runTask ∧ s.mutex.type = mutexRecursive := by
    rw [MutexSystem.nests, howner]
  unfold MutexSystem.muxPend muxPendForPosix
  rw [hused, hcount]
  simp only [hnests]
  split_ifs with h1 h2 h3 h4
  · exact ⟨hused, hcount, howner⟩
  · simp [SameMux, muxTaken, setMux, done, hused]
  · simp [SameMux, muxNested, setMux, done, hused, howner]
  · exact ⟨hused, hcount, howner⟩
  -- a wait changes neither the count nor the owner
  have hmux : ∀ o, (k.muxWaits s.mutex.handle o timeout).mux = k.mux := by
    intro o
    simp only [muxWaits, lent]
    split_ifs <;> rfl
  cases ho : (k.mux s.mutex.handle).owner <;>
    simp [SameMux, MutexSystem.setPend, onSched, hmux, hused, hcount, howner, ho]

/-! ## The kernel mutex and its tasks

What holds between the kernel mutex `c` and the tasks, with the tasks' flags, whether they are in the wait, and
the locks they have. A task is woken when it is in the wait and its flag is clear. -/

/-- What a kernel mutex says of its owner, the waiters and the locks held. -/
structure Owned (type : Nat) (c : PosixMux) (pend waits : Nat → Bool) (held : Nat → Nat) : Prop where
  inside : ∀ t, 0 < held t → c.owner = some t ∧ c.muxCount = held t
  once : type ≠ mutexRecursive → c.muxCount ≤ 1
  woken : ∀ t, waits t = true → pend t = false → c.owner = some t ∧ c.muxCount = 1 ∧ held t = 0
  listed : ∀ t, t ∈ c.muxList ↔ pend t = true
  asleep : ∀ t, pend t = true → waits t = true
  nodup : c.muxList.Nodup
  /-- The owner of a recursive mutex has all its locks, or is woken. -/
  nested : type = mutexRecursive → ∀ t, c.owner = some t →
    waits t = false ∧ c.muxCount = held t ∨ waits t = true ∧ pend t = false

section
variable {type t : Nat} {c : PosixMux} {pend waits : Nat → Bool} {held : Nat → Nat}

section
variable (h : Owned type c pend waits held)
include h

theorem Owned.pend_false (hw : waits t = false) : pend t = false := by
  by_contra hp
  simp [h.asleep t (by simpa using hp)] at hw

/-- Nobody else has a lock of the mutex of a task. -/
theorem Owned.held_of_ne (howner : c.owner = some t) {u : Nat} (hu : u ≠ t) : held u = 0 := by
  by_contra hpos
  have := (h.inside u (by omega)).1
  rw [howner] at this
  exact hu (some.inj this).symm

/-- Nobody else is woken while the mutex is that of a task. -/
theorem Owned.not_woken (hw : waits t = false) (howner : c.owner = some t) {u : Nat}
    (hu : waits u = true) : pend u = true := by
  by_contra hp
  have := (h.woken u hu (by simpa using hp)).1
  rw [howner] at this
  obtain rfl := some.inj this
  simp [hw] at hu

/-- The mutex is free. -/
theorem Owned.acquire (hw : waits t = false) (hfree : c.muxCount = 0) :
    Owned type { c with muxCount := 1, owner := some t } pend waits
      (update held t (held t + 1)) := by
  have hnone : ∀ u, held u = 0 := by
    intro u
    by_contra hpos
    have := (h.inside u (by omega)).2
    omega
  have hasleep : ∀ u, waits u = true → pend u = true := by
    intro u hu
    by_contra hp
    have := (h.woken u hu (by simpa using hp)).2.1
    omega
  refine ⟨?_, fun _ => Nat.le_refl 1, ?_, h.listed, h.asleep, h.nodup, ?_⟩
  · intro u hu
    by_cases hut : u = t
    · simp [hut, hnone]
    · simp [hut, hnone] at hu
  · intro u hu hp
    simp [hasleep u hu] at hp
  · intro _ u hu
    obtain rfl : t = u := some.inj hu
    exact .inl ⟨hw, by simp [hnone]⟩

/-- The owner of a recursive mutex takes it once more, or gives one of several locks back. -/
theorem Owned.recount (htype : type = mutexRecursive) (hw : waits t = false)
    (howner : c.owner = some t) (f : Nat → Nat) :
    Owned type { c with muxCount := f c.muxCount } pend waits (update held t (f (held t))) := by
  have hcount : c.muxCount = held t := by
    rcases h.nested htype t howner with ⟨-, hc⟩ | ⟨hc, -⟩
    · exact hc
    · simp [hw] at hc
  refine ⟨?_, fun hne => absurd htype hne, ?_, h.listed, h.asleep, h.nodup, ?_⟩
  · intro u hu
    by_cases hut : u = t
    · simp [hut, howner, hcount]
    · simp [hut, h.held_of_ne howner hut] at hu
  · intro u hu hp
    simp [h.not_woken hw howner hu] at hp
  · intro _ u hu
    obtain rfl : t = u := some.inj (howner.symm.trans hu)
    exact .inl ⟨hw, by simp [hcount]⟩

/-- A task goes to wait. -/
theorem Owned.wait (hw : waits t = false)
    (hother : ¬ (c.owner = some t ∧ type = mutexRecursive)) :
    Owned type { c with muxList := c.muxList ++ [t] } (update pend t true)
      (update waits t true)
      held := by
  have hpend := h.pend_false hw
  have hnot : t ∉ c.muxList := by
    rw [h.listed, hpend]
    simp
  refine ⟨h.inside, h.once, ?_, ?_, ?_, ?_, ?_⟩
  · intro u hu hp
    have hut : u ≠ t := by
      rintro rfl
      simp at hp
    rw [update_of_ne hut] at hu hp
    exact h.woken u hu hp
  · intro u
    by_cases hut : u = t
    · simp [hut]
    · simp [hut, h.listed]
  · intro u hu
    by_cases hut : u = t
    · simp [hut]
    · rw [update_of_ne hut] at hu ⊢
      exact h.asleep u hu
  · refine nodup_append.mpr ⟨h.nodup, nodup_singleton t, ?_⟩
    rintro u hu v hv rfl
    exact hnot (mem_singleton.mp hv ▸ hu)
  intro htype u hu
  have hut : u ≠ t := by
    rintro rfl
    exact hother ⟨hu, htype⟩
  rw [update_of_ne hut, update_of_ne hut]
  exact h.nested htype u hu

/-- A woken task returns. -/
theorem Owned.return_ (hw : waits t = true) (hp : pend t = false) :
    Owned type c pend (update waits t false) (update held t (held t + 1)) := by
  obtain ⟨howner, hcount, hzero⟩ := h.woken t hw hp
  refine ⟨?_, h.once, ?_, h.listed, ?_, h.nodup, ?_⟩
  · intro u hu
    by_cases hut : u = t
    · simp [hut, howner, hcount, hzero]
    · rw [update_of_ne hut] at hu ⊢
      exact h.inside u hu
  · intro u hu hpu
    have hut : u ≠ t := by
      rintro rfl
      simp at hu
    rw [update_of_ne hut] at hu ⊢
    exact h.woken u hu hpu
  · intro u hu
    have hut : u ≠ t := by
      rintro rfl
      simp [hp] at hu
    rw [update_of_ne hut]
    exact h.asleep u hu
  · intro _ u hu
    obtain rfl : t = u := some.inj (howner.symm.trans hu)
    exact .inl ⟨by simp, by simp [hcount, hzero]⟩

section
variable (hw : waits t = false) (howner : c.owner = some t)
  (hlast : ¬ (c.muxCount - 1 ≠ 0 ∧ type = mutexRecursive))
include hw howner hlast

/-- The owner gives its last lock back. -/
theorem Owned.held_last (u : Nat) : update held t (held t - 1) u = 0 := by
  by_cases hut : u = t
  · rw [hut, update_self]
    by_cases htype : type = mutexRecursive
    · rcases h.nested htype t howner with ⟨-, hc⟩ | ⟨hc, -⟩
      · omega
      · simp [hw] at hc
    have hle := h.once htype
    by_contra hpos
    have := (h.inside t (by omega)).2
    omega
  · rw [update_of_ne hut]
    exact h.held_of_ne howner hut

theorem Owned.postLast : Owned type { c with muxCount := c.muxCount - 1, owner := none } pend waits
      (update held t (held t - 1)) := by
  have hzero := h.held_last hw howner hlast
  refine ⟨?_, ?_, ?_, h.listed, h.asleep, h.nodup, ?_⟩
  · intro u hu
    rw [hzero u] at hu
    omega
  · intro hne
    have := h.once hne
    change c.muxCount - 1 ≤ 1
    omega
  · intro u hu hp
    simp [h.not_woken hw howner hu] at hp
  · intro _ u hu
    cases hu

/-- The mutex goes to the first task of the list. -/
theorem Owned.postWake {w : Nat} {rest : List Nat} (hlist : c.muxList = w :: rest) :
    Owned type { c with muxCount := 1, owner := some w, muxList := rest }
      (update pend w false) waits (update held t (held t - 1)) := by
  have hzero := h.held_last hw howner hlast
  have hpend : pend w = true := (h.listed w).mp (by simp [hlist])
  have hnodup : w ∉ rest ∧ rest.Nodup := by
    have := h.nodup
    rwa [hlist, nodup_cons] at this
  refine ⟨?_, fun _ => Nat.le_refl 1, ?_, ?_, ?_, hnodup.2, ?_⟩
  · intro u hu
    rw [hzero u] at hu
    omega
  · intro u hu hp
    by_cases huw : u = w
    · rw [huw]
      exact ⟨rfl, rfl, hzero w⟩
    rw [update_of_ne huw] at hp
    simp [h.not_woken hw howner hu] at hp
  · intro u
    by_cases huw : u = w
    · simp [huw, hnodup.1]
    · have := h.listed u
      simp only [hlist, mem_cons, huw, false_or] at this
      simp [huw, this]
  · intro u hu
    by_cases huw : u = w
    · simp [huw] at hu
    · rw [update_of_ne huw] at hu
      exact h.asleep u hu
  · intro _ u hu
    obtain rfl : w = u := some.inj hu
    exact .inr ⟨h.asleep w hpend, by simp⟩

end

/-- A task leaves, with its locks or without any. -/
theorem Owned.leave {n : Nat} (hn : n = 0 ∨ n = held t)
    (hrec : type = mutexRecursive → c.owner ≠ some t) :
    Owned type { c with muxList := c.muxList.erase t } (update pend t false)
      (update waits t false)
      (update held t n) := by
  refine ⟨?_, h.once, ?_, ?_, ?_, h.nodup.erase t, ?_⟩
  · intro u hu
    by_cases hut : u = t
    · rw [hut, update_self] at hu ⊢
      rcases hn with rfl | rfl
      · omega
      · exact h.inside t hu
    · rw [update_of_ne hut] at hu ⊢
      exact h.inside u hu
  · intro u hu hp
    have hut : u ≠ t := by
      rintro rfl
      simp at hu
    rw [update_of_ne hut] at hu hp ⊢
    exact h.woken u hu hp
  · intro u
    by_cases hut : u = t
    · simp [hut, h.nodup.not_mem_erase]
    · rw [mem_erase_of_ne hut, update_of_ne hut]
      exact h.listed u
  · intro u hu
    have hut : u ≠ t := by
      rintro rfl
      simp at hu
    rw [update_of_ne hut] at hu ⊢
    exact h.asleep u hu
  intro htype u hu
  have hut : u ≠ t := by
    rintro rfl
    exact hrec htype hu
  rw [update_of_ne hut, update_of_ne hut, update_of_ne hut]
  exact h.nested htype u hu

end

end

/-! ## The system -/

/-- The task is in the wait of a pend. -/
def MutexPc.waits : MutexPc → Bool
  | .waiting _ _ => true
  | _ => false

/-- The task has seen the handle. -/
def MutexPc.past : MutexPc → Bool
  | .check _ | .pend _ | .section _ _ | .waiting _ _ | .post _ => true
  | .out | .enter _ | .create _ | .expired => false

/-- The kernel mutex the task works on. -/
def MutexPc.on : MutexPc → Option Nat
  | .section i _ | .waiting i _ | .post i => some i
  | _ => none

/-- The invariant of the runs. -/
structure Ownership (s : MutexSystem) : Prop where
  owned : Owned s.mutex.type (s.mux s.mutex.handle) s.pend (fun t => (s.pc t).waits) s.held
  runs : 0 < s.taskLock → s.pend s.runTask = false
  bad : s.mux muxInvalidHandle = ⟨false, 0, none, []⟩
  past : ∀ t, (s.pc t).past = true → s.mutex.handle ≠ muxInvalidHandle
  on : ∀ t i, (s.pc t).on = some i → i = s.mutex.handle

section
variable {s s1 s' : MutexSystem} {t : Nat} {pc : MutexPc}

section
variable (h : Ownership s)
include h

/-- A task goes on. -/
theorem Ownership.goto_of (howned : Owned s.mutex.type (s1.mux s.mutex.handle) s1.pend
      (update (fun u => (s.pc u).waits) t pc.waits) s1.held) (hruns : 0 < s1.taskLock → s1.pend s1.runTask = false)
    (hbad : s1.mux muxInvalidHandle = ⟨false, 0, none, []⟩)
    (hpast : pc.past = true → s.mutex.handle ≠ muxInvalidHandle)
    (hon : ∀ i, pc.on = some i → i = s.mutex.handle) (hsame : (s1.pc, s1.mutex) = (s.pc, s.mutex)) :
    Ownership (s1.goto t pc) := by
  obtain ⟨hpc, hmutex⟩ := Prod.mk.inj hsame
  have hwaits : (fun u => ((s1.goto t pc).pc u).waits) =
      update (fun u => (s.pc u).waits) t pc.waits := by
    funext u
    by_cases hut : u = t
    · simp [hut]
    · simp [hut, hpc]
  refine ⟨?_, hruns, hbad, ?_, ?_⟩
  · rw [hwaits]
    change Owned s1.mutex.type (s1.mux s1.mutex.handle) s1.pend _ s1.held
    rwa [hmutex]
  · intro u hu
    change s1.mutex.handle ≠ muxInvalidHandle
    rw [hmutex]
    by_cases hut : u = t
    · exact hpast (by simpa [hut] using hu)
    · exact h.past u (by simpa [hut, hpc] using hu)
  intro u i hu
  change i = s1.mutex.handle
  rw [hmutex]
  by_cases hut : u = t
  · exact hon i (by simpa [hut] using hu)
  · exact h.on u i (by simpa [hut, hpc] using hu)

/-- A task goes on without touching anything. -/
theorem Ownership.goto (hold : (s.pc t).waits = false) (hnew : pc.waits = false)
    (hpast : pc.past = true → s.mutex.handle ≠ muxInvalidHandle)
    (hon : ∀ i, pc.on = some i → i = s.mutex.handle) : Ownership (s.goto t pc) := by
  refine h.goto_of ?_ h.runs h.bad hpast hon rfl
  rw [hnew, ← hold, update_eq_self]
  exact h.owned

/-- It has not read the handle then. -/
theorem Ownership.leave (hold : (s.pc t).waits = false) (hnew : (pc.waits, pc.past, pc.on) = (false, false, none)) :
    Ownership (s.goto t pc) := by
  simp only [Prod.mk.injEq] at hnew
  exact h.goto hold hnew.1 (by simp [hnew]) (by simp [hnew])

/-- The kernel mutex is another one than that of the invalid handle. -/
theorem Ownership.bad_setMux (hpast : s.mutex.handle ≠ muxInvalidHandle) (c : PosixMux) :
    (s.setMux s.mutex.handle c).mux muxInvalidHandle = ⟨false, 0, none, []⟩ := by
  change update s.mux s.mutex.handle c muxInvalidHandle = _
  rw [update_of_ne hpast.symm]
  exact h.bad

/-- A lock or an unlock returns 0. -/
theorem Ownership.settled {c : PosixMux} {held : Nat → Nat} (hold : (s.pc t).waits = false)
    (hpast : s.mutex.handle ≠ muxInvalidHandle)
    (howned : Owned s.mutex.type c s.pend (fun u => (s.pc u).waits) held) :
    Ownership ({ s.setMux s.mutex.handle c with held := held }.goto t .out) := by
  refine h.goto_of ?_ h.runs (h.bad_setMux hpast c) nofun nofun rfl
  change Owned _ (update s.mux s.mutex.handle c s.mutex.handle) _ (update _ t false) _
  rwa [update_self, ← hold, update_eq_self]

end

/-- The step does not come to one of the slips: nobody has created the kernel mutex meanwhile, the count does not
wrap around, the scheduler is not locked where a task goes to wait, and the task that is deleted does not own the
mutex if it is recursive. -/
def Sound (s : MutexSystem) : MutexLabel → Prop
  | .created (some _) => s.mutex.handle = muxInvalidHandle
  | .run =>
    match s.pc s.runTask with
    | .section i timeout =>
      (s.mux i).used = true → (s.mux i).muxCount ≠ 0 →
        if s.nests s.runTask i then (s.mux i).muxCount + 1 < 2 ^ 16 else timeout ≠ 0 → s.taskLock = 0
    | _ => True
  | .delete t => s.mutex.type = mutexRecursive → (s.mux s.mutex.handle).owner ≠ some t
  | _ => True

section
variable (h : Ownership s)
include h

theorem Ownership.muxPend {timeout : Nat}
    (hpc : s.pc s.runTask = .section s.mutex.handle timeout) (hok : Sound s .run) :
    Ownership (s.muxPend s.runTask s.mutex.handle timeout) := by
  have hw : (s.pc s.runTask).waits = false := by rw [hpc]; rfl
  have hpast : s.mutex.handle ≠ muxInvalidHandle := h.past s.runTask (hpc ▸ rfl)
  have hout : Ownership (s.goto s.runTask .out) := h.leave hw rfl
  simp only [Sound, hpc] at hok
  unfold MutexSystem.muxPend
  split_ifs with hused hfree hnest hzero
  · exact hout
  · exact h.settled hw hpast (h.owned.acquire hw hfree)
  · have hlt : (s.mux s.mutex.handle).muxCount + 1 < 2 ^ 16 := by
      have := hok (by simpa using hused) hfree
      rwa [if_pos hnest] at this
    rw [Nat.mod_eq_of_lt hlt]
    exact h.settled hw hpast (h.owned.recount hnest.2 hw hnest.1 (· + 1))
  · exact hout
  have hunlocked : s.taskLock = 0 := by
    have := hok (by simpa using hused) hfree
    rw [if_neg hnest] at this
    exact this hzero
  refine h.goto_of ?_ ?_ (h.bad_setMux hpast _) (fun _ => hpast) ?_ rfl
  · change Owned _ (update s.mux s.mutex.handle _ s.mutex.handle) _ _ _
    rw [update_self]
    exact h.owned.wait hw hnest
  · intro hpos
    change 0 < s.taskLock at hpos
    omega
  · intro i hi
    exact (some.inj hi).symm

theorem Ownership.muxPost (hpc : s.pc t = .post s.mutex.handle) :
    Ownership (s.muxPost t s.mutex.handle) := by
  have hw : (s.pc t).waits = false := by rw [hpc]; rfl
  have hpast : s.mutex.handle ≠ muxInvalidHandle := h.past t (hpc ▸ rfl)
  have hout : Ownership (s.goto t .out) := h.leave hw rfl
  unfold MutexSystem.muxPost
  split_ifs with hused hinvalid hnested
  · exact hout
  · exact hout
  · have howner : (s.mux s.mutex.handle).owner = some t := by tauto
    exact h.settled hw hpast (h.owned.recount hnested.2 hw howner (· - 1))
  have howner : (s.mux s.mutex.handle).owner = some t := by tauto
  split
  · exact h.settled hw hpast (h.owned.postLast hw howner hnested)
  next w rest hlist =>
  have hsame : update (fun u => (s.pc u).waits) t false = fun u => (s.pc u).waits := by
    rw [← hw, update_eq_self]
  refine h.goto_of ?_ ?_ (h.bad_setMux hpast _) nofun nofun rfl
  · change Owned _ (update s.mux s.mutex.handle _ s.mutex.handle) _ (update _ t false) _
    rw [update_self, hsame]
    exact h.owned.postWake hw howner hnested hlist
  intro hpos
  change update s.pend w false s.runTask = false
  by_cases hrw : s.runTask = w
  · rw [hrw, update_self]
  · rw [update_of_ne hrw]
    exact h.runs hpos

/-- A task leaves the list and its call. -/
theorem Ownership.unlist {n : Nat} (hn : n = 0 ∨ n = s.held t)
    (hrec : s.mutex.type = mutexRecursive → (s.mux s.mutex.handle).owner ≠ some t)
    (hnew : pc.waits = false) (hpast : pc.past = false) (hon : pc.on = none) :
    Ownership ({ s.unlist t with held := update s.held t n }.goto t pc) := by
  refine h.goto_of ?_ ?_ ?_ (by simp [hpast]) (by simp [hon]) rfl
  · rw [hnew]
    exact h.owned.leave hn hrec
  · intro hpos
    change update s.pend t false s.runTask = false
    by_cases hrt : s.runTask = t
    · rw [hrt, update_self]
    · rw [update_of_ne hrt]
      exact h.runs hpos
  · change { s.mux muxInvalidHandle with muxList := (s.mux muxInvalidHandle).muxList.erase t } = _
    rw [h.bad]
    rfl

theorem Ownership.create {handle : Option Nat} (hok : Sound s (.created handle))
    (hstep : s.create handle = some s') : Ownership s' := by
  unfold MutexSystem.create at hstep
  cases hpc : s.pc s.runTask <;> simp only [hpc, reduceCtorEq] at hstep
  rename_i c
  have hw : (s.pc s.runTask).waits = false := by rw [hpc]; rfl
  cases handle with
  | none => exact some.inj hstep ▸ h.leave hw rfl
  | some i =>
    obtain ⟨⟨hlt, -⟩, ⟨⟩⟩ := ite_none_right_eq_some.mp hstep
    have hinvalid : s.mutex.handle = muxInvalidHandle := hok
    have hi : i ≠ muxInvalidHandle := by
      simp only [muxLimit, muxInvalidHandle] at *
      omega
    -- nobody has got further, and the kernel mutex is a fresh one
    have hpast : ∀ u, (s.pc u).past = false := by
      intro u
      by_contra hc
      exact h.past u (by simpa using hc) hinvalid
    have howned := h.owned
    rw [hinvalid, h.bad] at howned
    have hwaits : (fun u => (update s.pc s.runTask (.pend c.timeout) u).waits) =
        fun u => (s.pc u).waits := by
      funext u
      by_cases hu : u = s.runTask
      · rw [hu, update_self, hw]
        rfl
      · rw [update_of_ne hu]
    refine ⟨?_, h.runs, ?_, fun _ _ => hi, ?_⟩
    · change Owned s.mutex.type (update s.mux i ⟨true, 0, none, []⟩ i) s.pend
        (fun u => (update s.pc s.runTask (.pend c.timeout) u).waits) s.held
      rw [update_self, hwaits]
      exact { howned with }
    · change update s.mux i ⟨true, 0, none, []⟩ muxInvalidHandle = _
      rw [update_of_ne hi.symm]
      exact h.bad
    intro u j hu
    change (update s.pc s.runTask (.pend c.timeout) u).on = some j at hu
    by_cases hur : u = s.runTask
    · rw [hur, update_self] at hu
      cases hu
    · rw [update_of_ne hur] at hu
      have := hpast u
      cases hpu : s.pc u <;> simp [hpu, MutexPc.on, MutexPc.past] at hu this

theorem Ownership.enter {c : MutexCall} (hpc : s.pc t = .enter c) : Ownership (s.enter t c) := by
  have hw : (s.pc t).waits = false := by rw [hpc]; rfl
  have hout : Ownership (s.goto t .out) := h.leave hw rfl
  unfold MutexSystem.enter
  split_ifs with hpre hinvalid hunlock hunlock
  · exact hout
  · exact hout
  · exact h.leave hw rfl
  · exact h.goto hw rfl (fun _ => hinvalid) (fun i hi => (some.inj hi).symm)
  · exact h.goto hw rfl (fun _ => hinvalid) nofun

theorem Ownership.run (hok : Sound s .run) (hrun : s.canRun) (hstep : s.run s.runTask = some s') :
    Ownership s' := by
  unfold MutexSystem.run at hstep
  have hmove : ∀ pc', (s.pc s.runTask).waits = false → pc'.waits = false →
      pc'.past = (s.pc s.runTask).past → (∀ i, pc'.on = some i → i = s.mutex.handle) →
        Ownership (s.goto s.runTask pc') := fun pc' hold hnew hpast hon =>
    h.goto hold hnew (fun hp => h.past s.runTask (by rwa [← hpast])) hon
  generalize hpc : s.pc s.runTask = old at hstep
  cases old with
  | out | create => cases hstep
  | enter c => exact some.inj hstep ▸ h.enter hpc
  | check c =>
    rw [← some.inj hstep]
    split_ifs
    · exact h.leave (hpc ▸ rfl) rfl
    · exact hmove _ (hpc ▸ rfl) rfl (hpc ▸ rfl) (by simp [MutexPc.on])
  | pend timeout =>
    rw [← some.inj hstep]
    exact hmove _ (hpc ▸ rfl) rfl (hpc ▸ rfl) fun i hi => (some.inj hi).symm
  | «section» i timeout =>
    obtain rfl := h.on s.runTask i (hpc ▸ rfl)
    exact some.inj hstep ▸ h.muxPend hpc hok
  | waiting i timed =>
    have hw : (s.pc s.runTask).waits = true := by rw [hpc]; rfl
    -- the scheduler is not locked in a wait, so the task has been woken
    have hp : s.pend s.runTask = false := hrun.elim id h.runs
    exact some.inj hstep ▸ h.goto_of (h.owned.return_ hw hp) h.runs h.bad nofun nofun rfl
  | expired => exact some.inj hstep ▸ h.leave (hpc ▸ rfl) rfl
  | post i =>
    obtain rfl := h.on s.runTask i (hpc ▸ rfl)
    exact some.inj hstep ▸ h.muxPost hpc

theorem Ownership.step {l : MutexLabel} (hok : Sound s l) (hstep : s.step l = some s') :
    Ownership s' := by
  cases l with
  | call c =>
    obtain ⟨⟨-, hout⟩, ⟨⟩⟩ := ite_none_right_eq_some.mp hstep
    exact h.leave (hout ▸ rfl) rfl
  | run =>
    simp only [MutexSystem.step, ite_none_right_eq_some] at hstep
    exact h.run hok hstep.1 hstep.2
  | created handle =>
    simp only [MutexSystem.step, ite_none_right_eq_some] at hstep
    exact h.create hok hstep.2
  | giveUp =>
    simp only [MutexSystem.step, ite_none_right_eq_some] at hstep
    obtain ⟨-, hstep⟩ := hstep
    cases hpc : s.pc s.runTask <;> simp only [hpc, reduceCtorEq, some.injEq] at hstep
    exact hstep ▸ h.leave (hpc ▸ rfl) rfl
  | switch t =>
    obtain ⟨⟨-, hp⟩, ⟨⟩⟩ := ite_none_right_eq_some.mp hstep
    exact ⟨h.owned, fun _ => hp, h.bad, h.past, h.on⟩
  | taskLock | taskUnlock =>
    obtain ⟨hrun, ⟨⟩⟩ := ite_none_right_eq_some.mp hstep
    exact { h with runs := fun _ => hrun.elim id h.runs }
  | expire t =>
    have hwaiting : (s.pc t).waits = true ∧ s.pend t = true ∧ (s.unlist t).goto t .expired = s' := by
      simp only [MutexSystem.step] at hstep
      split at hstep
      · next i hpc =>
        simp only [ite_none_right_eq_some, some.injEq] at hstep
        exact ⟨by rw [hpc]; rfl, hstep⟩
      · cases hstep
    obtain ⟨hw, hp, rfl⟩ := hwaiting
    have hrec : s.mutex.type = mutexRecursive → (s.mux s.mutex.handle).owner ≠ some t := by
      intro htype howner
      rcases h.owned.nested htype t howner with ⟨hc, -⟩ | ⟨-, hc⟩
      · simp [hw] at hc
      · simp [hp] at hc
    have hleft :
        Ownership ({ s.unlist t with held := update s.held t (s.held t) }.goto t .expired) :=
      h.unlist (.inr rfl) hrec rfl rfl rfl
    rwa [update_eq_self] at hleft
  | delete t =>
    obtain ⟨-, ⟨⟩⟩ := ite_none_right_eq_some.mp hstep
    exact h.unlist (.inl rfl) hok rfl rfl rfl

end

end

theorem ownership_init (m : PthreadMutex) (taken : Nat → Bool) : Ownership (.init m taken) := by
  refine ⟨⟨?_, ?_, ?_, ?_, ?_, nodup_nil, ?_⟩, fun _ => rfl, ?_, ?_, ?_⟩
  · intro t ht
    exact absurd ht (Nat.lt_irrefl 0)
  · intro _
    exact Nat.zero_le 1
  · intro t ht
    cases ht
  · simp [MutexSystem.init]
  · intro t ht
    cases ht
  · intro _ t ht
    cases ht
  · simp [MutexSystem.init, muxLimit, muxInvalidHandle]
  · intro t ht
    cases ht
  · intro t i ht
    cases ht

/-- In every run that does not come to one of the slips, for every type of mutex: a task with locks that have
returned 0 and that it has not undone is the owner recorded in the kernel mutex, `muxCount` is their number, and
no other task has any. -/
theorem mutex_owner_recorded (m : PthreadMutex) (taken : Nat → Bool) (run : List MutexLabel)
    (s : MutexSystem) (hok : Guarded MutexSystem.step Sound (.init m taken) run)
    (hexec : exec MutexSystem.step (.init m taken) run = some s) (t : Nat) (ht : 0 < s.held t) :
    (s.mux s.mutex.handle).owner = some t ∧ (s.mux s.mutex.handle).muxCount = s.held t ∧
      ∀ u, 0 < s.held u → u = t := by
  have hs : Ownership s := exec_inv_guarded (fun _ _ _ h hok hstep => Ownership.step h hok hstep)
    (ownership_init m taken) hok hexec
  obtain ⟨howner, hcount⟩ := hs.owned.inside t ht
  refine ⟨howner, hcount, fun u hu => ?_⟩
  have := (hs.owned.inside u hu).1
  exact some.inj (this.symm.trans howner)

instance decidableSound (s : MutexSystem) (l : MutexLabel) : Decidable (Sound s l) := by
  unfold Sound
  repeat' split
  all_goals infer_instance

/-- A mutex from `PTHREAD_MUTEX_INITIALIZER`. -/
def staticMutex : PthreadMutex := ⟨muxMagic, muxInvalidHandle, mutexNormal⟩

/-- Task 1 creates the kernel mutex and locks it, task 2 waits, and task 1 unlocks. -/
def handedOver : List MutexLabel :=
  [.switch 1, .call .lock, .run, .created (some 0), .run, .run, .switch 2, .call .lock, .run, .run,
    .run, .run, .switch 1, .call .unlock, .run, .run, .switch 2, .run]

theorem mutex_owner_recorded_handedOver :
    ∃ s, exec MutexSystem.step (.init staticMutex fun _ => false) handedOver = some s ∧ 0 < s.held 2 ∧
      (s.mux s.mutex.handle).owner = some 2 ∧ (s.mux s.mutex.handle).muxCount = s.held 2 ∧
        ∀ u, 0 < s.held u → u = 2 := by
  obtain ⟨s, hs, hheld⟩ : ∃ s, exec MutexSystem.step (.init staticMutex fun _ => false) handedOver = some s ∧
      0 < s.held 2 := by decide +kernel
  exact ⟨s, hs, hheld, mutex_owner_recorded staticMutex (fun _ => false) handedOver s
    (by decide +kernel) hs 2 hheld⟩

/-- Task 1 has the mutex, and task 2 locks it while the scheduler is locked: both have it. And two tasks that find
no kernel mutex each create one. -/
theorem mutex_two_owners : (exec MutexSystem.step (.init ⟨muxMagic, 0, mutexNormal⟩ fun _ => false)
        [.switch 1, .call .lock, .run, .run, .run, .run, .switch 2, .taskLock, .call .lock, .run,
          .run, .run, .run, .run]).any
        (fun s => decide (s.held 1 = 1 ∧ s.held 2 = 1 ∧ (s.mux 0).owner = some 1)) = true ∧
      (exec MutexSystem.step (.init staticMutex fun _ => false)
        [.switch 1, .call .lock, .run, .switch 2, .call .lock, .run, .created (some 0), .run, .run,
          .switch 1, .created (some 1), .run, .run]).any
        (fun s => decide (s.held 1 = 1 ∧ s.held 2 = 1)) = true := by
  decide +kernel

end LiteosM.Posix
