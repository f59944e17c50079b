import LiteosM.Kernel.WaitList
import Mathlib.Data.Int.Basic

/-!
# POSIX mutexes

Model of `pthread_mutex.c` over the kernel state. `MuxPendForPosix` and `MuxPostForPosix` are the
critical sections of the POSIX layer, which does not call `LOS_MuxPend` and `LOS_MuxPost`; the part
of `MuxPendForPosix` behind the wait is the one of `LOS_MuxPend`. The calls come from tasks
(`OS_INT_ACTIVE` is 0), with a mutex that is not `NULL`.

Signed arithmetic is exact, and an operation whose result does not fit its type has no defined
behaviour: `timeoutNs` is `none` then.

* **`timedlock_deadline`**: `pthread_mutex_timedlock` waits as long as its deadline says exactly when
  the deadline is now or at most two milliseconds ahead, or lies in one of eight windows that the
  truncation of the timeout to 32 bits opens. It hands milliseconds to a function that counts ticks,
  and a deadline that is over is a huge unsigned number.
-/

namespace LiteosM.Posix

open LiteosM.Kernel LiteosM.Lib Option Sched

/-- What the functions of the POSIX layer return. -/
inductive Errno where
  | zero
  | eperm
  | eagain
  | ebusy
  | einval
  | edeadlk
  | etimedout
  deriving DecidableEq, Repr

/-- `MapError`. -/
def mapError : ErrNo → Errno
  | .ok => .zero
  | .muxPendInLock => .edeadlk
  | .muxPended => .ebusy
  | .muxUnavailable => .ebusy
  | .muxTimeout => .etimedout
  | .muxAllBusy => .eagain
  | _ => .einval

/-- `_MUX_MAGIC`. -/
def muxMagic : Nat := 0xEBCFDEA0

/-- `_MUX_INVALID_HANDLE`. -/
def muxInvalidHandle : Nat := 0xEEEEEEEF

/-- `PTHREAD_MUTEX_NORMAL`. -/
def mutexNormal : Nat := 0

/-- `PTHREAD_MUTEX_RECURSIVE`. -/
def mutexRecursive : Nat := 1

/-- `PTHREAD_MUTEX_ERRORCHECK`. -/
def mutexErrorcheck : Nat := 2

/-- `pthread_mutex_t`, with the type of its attributes. -/
structure PthreadMutex where
  magic : Nat
  handle : Nat
  type : Nat
  deriving DecidableEq, Repr

/-- `CheckMutexAttr`. -/
def checkMutexAttr (type : Nat) : Bool :=
  type == mutexNormal || type == mutexRecursive || type == mutexErrorcheck

/-- `MuxPreCheck`. -/
def muxPreCheck (m : PthreadMutex) : Errno :=
  if m.magic ≠ muxMagic ∨ (m.handle ≠ muxInvalidHandle ∧ m.handle ≥ muxLimit) then .einval
  else if !checkMutexAttr m.type then .einval
  else .zero

section
variable (k : State)

/-- `MuxPendForPosix` up to its wait. -/
def muxPendForPosix (m : PthreadMutex) (timeout : Nat) : State :=
  if !(k.mux m.handle).used then k.done .muxInvalid
  else if (k.mux m.handle).muxCount = 0 then k.muxTaken m.handle
  else if (k.mux m.handle).owner = some k.runTask ∧ m.type = mutexRecursive then k.muxNested m.handle
  else if timeout = 0 then k.done .muxUnavailable
  else
    match (k.mux m.handle).owner with
    | none => k.onSched (·.raise .badPointer)
    | some owner => k.muxWaits m.handle owner timeout

/-- `ERRORCHECK` mutexes refuse a second lock of their owner. -/
def locksAgain (m : PthreadMutex) : Prop :=
  m.type = mutexErrorcheck ∧ (k.mux m.handle).muxCount ≠ 0 ∧ (k.mux m.handle).owner = some k.runTask
  deriving Decidable

end

/-! ## The time -/

/-- `struct timespec`. -/
structure Timespec where
  tvSec : Int
  tvNsec : Int
  deriving DecidableEq, Repr

/-- `OS_SYS_NS_PER_SECOND`. -/
def nsPerSecond : Int := 1000000000

/-- `OS_SYS_NS_PER_MSECOND`. -/
def nsPerMsecond : Nat := 1000000

/-- A signed integer of `w` bits holds the value. -/
def fits (w : Nat) (x : Int) : Prop := -2 ^ (w - 1) ≤ x ∧ x < 2 ^ (w - 1)
  deriving Decidable

/-- `absTimeout` minus now, in nanoseconds. -/
def remaining (absTimeout curTime : Timespec) : Int :=
  (absTimeout.tvSec - curTime.tvSec) * nsPerSecond + (absTimeout.tvNsec - curTime.tvNsec)

/-- `timeoutNs` of `pthread_mutex_timedlock`: computed in a `time_t` of `w` bits and stored in a
`UINT64`. -/
def timeoutNs (w : Nat) (absTimeout curTime : Timespec) : Option Nat :=
  if fits w (absTimeout.tvSec - curTime.tvSec) ∧
      fits w ((absTimeout.tvSec - curTime.tvSec) * nsPerSecond) ∧ fits w (remaining absTimeout curTime) then
    some (remaining absTimeout curTime % 2 ^ 64).toNat
  else none

/-- The timeout that `MuxPendForPosix` gets. -/
def timeoutMs (timeoutNs : Nat) : Nat :=
  (timeoutNs + (nsPerMsecond - 1)) % 2 ^ 64 / nsPerMsecond % 2 ^ 32

/-- `pthread_mutex_timedlock` from `clock_gettime` on, where it finds the time `curTime`. The last part
is what it returns; there is none once `MuxPendForPosix` has been called. -/
def timedlockFromNow (w : Nat) (k : State) (m : PthreadMutex) (absTimeout curTime : Timespec) :
    Option (State × PthreadMutex × Option Errno) :=
  match timeoutNs w absTimeout curTime with
  | none => none
  | some ns =>
    if ns ≤ 0 then some (k, m, some .etimedout) else some (muxPendForPosix k m (timeoutMs ns), m, none)

/-- `pthread_mutex_timedlock` up to the wait, for a task that is not interrupted. -/
def pthreadMutexTimedlock (w : Nat) (k : State) (m : PthreadMutex) (absTimeout curTime : Timespec) :
    Option (State × PthreadMutex × Option Errno) :=
  if muxPreCheck m ≠ .zero then some (k, m, some (muxPreCheck m))
  else if absTimeout.tvNsec < 0 ∨ absTimeout.tvNsec ≥ nsPerSecond then some (k, m, some .einval)
  else if m.handle = muxInvalidHandle then
    match k.unusedMux with
    | [] => some (k, m, some (mapError .muxAllBusy))
    | i :: _ => timedlockFromNow w k.muxCreate { m with handle := i } absTimeout curTime
  else if locksAgain k m then some (k, m, some .edeadlk)
  else timedlockFromNow w k m absTimeout curTime

/-! ## The deadline -/

/-- The mutex is in use and another task than the running one holds it. -/
structure HeldByOther (k : State) (m : PthreadMutex) : Prop where
  magic : m.magic = muxMagic
  handle : m.handle < muxLimit
  type : checkMutexAttr m.type = true
  used : (k.mux m.handle).used = true
  count : (k.mux m.handle).muxCount ≠ 0
  owner : ∃ o, (k.mux m.handle).owner = some o ∧ o ≠ k.runTask
  /-- A task that runs is not in a wait. -/
  awake : (k.st k.runTask).pendTime = false

/-- The running task of `k` waits for `t` ticks. -/
def WaitsFor (k : State) (t : Nat) : Prop :=
  (k.st k.runTask).pend = true ∧ (k.st k.runTask).pendTime = true ∧ (k.tcb k.runTask).waitTimes = t

/-- The call does what its deadline says: it returns at once when the deadline is over, and else waits
at least until then and less than two ticks longer. -/
def MeetsDeadline (w : Nat) (k : State) (m : PthreadMutex) (absTimeout curTime : Timespec) : Prop :=
  if remaining absTimeout curTime ≤ 0 then
    pthreadMutexTimedlock w k m absTimeout curTime = some (k, m, some .etimedout)
  else
    ∃ k' t, pthreadMutexTimedlock w k m absTimeout curTime = some (k', m, none) ∧ WaitsFor k' t ∧
      remaining absTimeout curTime * tickPerSecond ≤ t * nsPerSecond ∧
      t * nsPerSecond ≤ remaining absTimeout curTime * tickPerSecond + 2 * nsPerSecond

/-- The time from now to the deadline for which the timeout comes out right: at most two milliseconds,
or, in a `time_t` of 64 bits, such that the milliseconds lost by the truncation make up for the ticks. -/
def OnTime (w : Nat) (d : Int) : Prop :=
  (0 ≤ d ∧ d ≤ 2 * nsPerMsecond) ∨
    (w = 64 ∧ ∃ n : Nat, 1 ≤ n ∧ n ≤ 8 ∧ 10 * 2 ^ 32 * n ≤ 9 * ((d + 999999) / nsPerMsecond) ∧
      10 * nsPerMsecond * ((d + 999999) / nsPerMsecond) ≤ d + 10 * nsPerMsecond * (2 ^ 32 * n + 2))

theorem timeoutMs_onTime_iff {ns : Nat} (hpos : 0 < ns) (hlt : ns < 2 ^ 63) :
    (timeoutMs ns ≠ 0 ∧ timeoutMs ns ≠ waitForever ∧
    (ns : Int) * tickPerSecond ≤ timeoutMs ns * nsPerSecond ∧
        timeoutMs ns * nsPerSecond ≤ (ns : Int) * tickPerSecond + 2 * nsPerSecond) ↔ OnTime 64 ns := by
  -- the milliseconds, rounded up
  obtain ⟨q, hq⟩ : ∃ q, (ns + 999999) / 1000000 = q := ⟨_, rfl⟩
  have hms : timeoutMs ns = q % 2 ^ 32 := by
    have hsum : (ns + (nsPerMsecond - 1)) % 2 ^ 64 = ns + 999999 := Nat.mod_eq_of_lt (by
      rw [nsPerMsecond]
      omega)
    rw [timeoutMs, hsum, nsPerMsecond, hq]
  have hqi : ((ns : Int) + 999999) / (1000000 : Nat) = q := by omega
  have hlo : ns ≤ 1000000 * q := by omega
  have hhi : 1000000 * q < ns + 1000000 := by omega
  rw [hms]
  simp only [OnTime, waitForever, tickPerSecond, nsPerSecond, nsPerMsecond]
  clear hq hqi hms
  obtain ⟨n, t, ht, rfl⟩ : ∃ n t, t < 2 ^ 32 ∧ q = 2 ^ 32 * n + t :=
    ⟨q / 2 ^ 32, q % 2 ^ 32, by omega, by omega⟩
  have hmod : (2 ^ 32 * n + t) % 2 ^ 32 = t := by omega
  constructor
  · rintro ⟨h0, hf, hwait, hover⟩
    by_cases hn : n = 0
    · left
      omega
    · right
      refine ⟨trivial, n, ?_, ?_, ?_, ?_⟩ <;> omega
  rintro (⟨-, hle⟩ | ⟨-, n', h1, h8, hwait, hover⟩)
  · omega
  · obtain rfl : n' = n := by omega
    omega

variable {w : Nat}

theorem timeoutNs_eq {absTimeout curTime : Timespec} {ns : Nat}
    (h : timeoutNs w absTimeout curTime = some ns) :
    fits w (remaining absTimeout curTime) ∧ ns = (remaining absTimeout curTime % 2 ^ 64).toNat := by
  unfold timeoutNs at h
  split_ifs at h with hfits
  exact ⟨hfits.2.2, (some.inj h).symm⟩

/-- The first wait for a mutex of another task leaves the status of the running task to
`OsSchedTaskWait`. -/
theorem st_lent (k : State) {o : Nat} (hne : o ≠ k.runTask) (i : Nat) :
    (k.lent i o).st k.runTask = k.st k.runTask := by
  unfold State.lent
  dsimp only
  split_ifs
  · rw [State.onSched, st, modifyTaskSchedParam_tcb_of_ne _ _ hne.symm]
    simp [st]
  · simp [st]

section
variable {k : State} {m : PthreadMutex}

theorem HeldByOther.timedlock (hm : HeldByOther k m) {absTimeout : Timespec}
    (habs : 0 ≤ absTimeout.tvNsec ∧ absTimeout.tvNsec < nsPerSecond) (w : Nat) (curTime : Timespec) :
    pthreadMutexTimedlock w k m absTimeout curTime = timedlockFromNow w k m absTimeout curTime := by
  have hhandle : m.handle ≠ muxInvalidHandle := by
    have := hm.handle
    simp only [muxLimit, muxInvalidHandle] at *
    omega
  have hpre : muxPreCheck m = .zero := by
    have hlt := hm.handle
    simp [muxPreCheck, hm.magic, hm.type, hlt]
  obtain ⟨o, howner, hne⟩ := hm.owner
  have hlock : ¬ locksAgain k m := by
    rintro ⟨-, -, hrun⟩
    rw [howner] at hrun
    exact hne (some.inj hrun)
  unfold pthreadMutexTimedlock
  rw [if_neg (by simp [hpre]), if_neg (by omega), if_neg hhandle, if_neg hlock]

/-- What the running task does in `MuxPendForPosix` while another task has the mutex. -/
theorem HeldByOther.waitsFor_iff (hm : HeldByOther k m) (timeout t : Nat) :
    WaitsFor (muxPendForPosix k m timeout) t ↔ timeout ≠ 0 ∧ timeout ≠ waitForever ∧ timeout = t := by
  obtain ⟨o, howner, hne⟩ := hm.owner
  unfold muxPendForPosix
  rw [if_neg (by simp [hm.used]), if_neg hm.count, if_neg (by simp [howner, hne])]
  split_ifs with h0
  · refine iff_of_false ?_ fun hc => hc.1 h0
    rintro ⟨-, hpt, -⟩
    exact absurd (hm.awake.symm.trans hpt) Bool.false_ne_true
  rw [howner]
  have hrun := k.lent_runTask m.handle o
  have hst := st_lent k hne m.handle
  rw [← hrun] at hst
  have hpt : ((k.lent m.handle o).st (k.lent m.handle o).runTask).pendTime = false := by
    rw [hst, hrun]
    exact hm.awake
  unfold WaitsFor State.muxWaits st at *
  simp only [State.toSched_push, State.onSched, taskWait_runTask]
  unfold taskWait
  by_cases hf : timeout = waitForever
  · simp [hf, hpt]
  · simp [hf, h0]

end

theorem OnTime.nonneg {d : Int} (h : OnTime w d) : 0 ≤ d := by
  simp only [OnTime, nsPerMsecond] at h
  rcases h with h | ⟨-, n, hn, -, hlo, -⟩ <;> omega

/-- The computation does not overflow where the timeout comes out right. -/
theorem OnTime.timeoutNs_ne_none (hw : w = 32 ∨ w = 64) {absTimeout curTime : Timespec}
    (habs : 0 ≤ absTimeout.tvNsec ∧ absTimeout.tvNsec < nsPerSecond)
    (hcur : 0 ≤ curTime.tvNsec ∧ curTime.tvNsec < nsPerSecond)
    (h : OnTime w (remaining absTimeout curTime)) : timeoutNs w absTimeout curTime ≠ none := by
  unfold timeoutNs
  rw [if_pos]
  · exact some_ne_none _
  simp only [OnTime, nsPerMsecond, fits, remaining, nsPerSecond] at *
  rcases hw with rfl | rfl
  · rcases h with h | ⟨hw, -⟩
    · omega
    · exact nomatch hw
  · rcases h with h | ⟨-, n, -, hn, hlo, hhi⟩ <;> omega

/-- A `time_t` of 32 bits holds no window. -/
theorem onTime_of_fits (hw : w = 32 ∨ w = 64) {d : Int} (hd : fits w d) :
    OnTime 64 d ↔ OnTime w d := by
  rcases hw with rfl | rfl
  · simp only [OnTime, fits, nsPerMsecond] at *
    refine or_congr_right (iff_of_false ?_ fun hc => nomatch hc.1)
    rintro ⟨-, n, hn, -, hlo, -⟩
    omega
  · rfl

/-- On a mutex that another task holds, the call meets its deadline exactly when the time that is left
is one of `OnTime`. -/
theorem timedlock_deadline {w : Nat} (hw : w = 32 ∨ w = 64) {k : State} {m : PthreadMutex}
    (hm : HeldByOther k m) {absTimeout curTime : Timespec}
    (habs : 0 ≤ absTimeout.tvNsec ∧ absTimeout.tvNsec < nsPerSecond)
    (hcur : 0 ≤ curTime.tvNsec ∧ curTime.tvNsec < nsPerSecond) :
    MeetsDeadline w k m absTimeout curTime ↔ OnTime w (remaining absTimeout curTime) := by
  unfold MeetsDeadline
  rw [hm.timedlock habs, timedlockFromNow]
  cases hns : timeoutNs w absTimeout curTime with
  | none =>
    refine iff_of_false ?_ fun h => h.timeoutNs_ne_none hw habs hcur hns
    split_ifs
    · exact not_false
    · rintro ⟨k', t, hc, -⟩
      cases hc
  | some ns =>
    obtain ⟨hfits, hval⟩ := timeoutNs_eq hns
    dsimp only
    have hrange : -2 ^ 63 ≤ remaining absTimeout curTime ∧ remaining absTimeout curTime < 2 ^ 63 := by
      unfold fits at hfits
      rcases hw with rfl | rfl <;> omega
    generalize remaining absTimeout curTime = d at *
    rcases Int.lt_trichotomy d 0 with hneg | rfl | hpos
    · -- a deadline that is over is a huge number
      rw [if_pos (Int.le_of_lt hneg), if_neg (by omega)]
      refine iff_of_false (by simp) fun h => ?_
      have := h.nonneg
      omega
    · rw [if_pos (Int.le_refl 0), if_pos (by omega)]
      exact iff_of_true rfl (.inl ⟨Int.le_refl 0, by decide⟩)
    rw [if_neg (by omega), if_neg (by omega)]
    obtain rfl : d = (ns : Int) := by omega
    rw [← onTime_of_fits hw hfits, ← timeoutMs_onTime_iff (by omega) (by omega)]
    constructor
    · rintro ⟨k', t, heq, hwaits, hlo, hhi⟩
      obtain rfl : muxPendForPosix k m (timeoutMs ns) = k' := congrArg Prod.fst (some.inj heq)
      obtain ⟨h0, hf, rfl⟩ := (hm.waitsFor_iff _ t).mp hwaits
      exact ⟨h0, hf, hlo, hhi⟩
    · rintro ⟨h0, hf, hlo, hhi⟩
      exact ⟨_, timeoutMs ns, rfl, (hm.waitsFor_iff _ _).mpr ⟨h0, hf, rfl⟩, hlo, hhi⟩

/-- Task 1 takes mutex 0 and delays itself; task 2 runs. -/
def lockedMutex : List Label :=
  createTask 5 ++ createTask 6 ++
    [.start, .call .muxCreate, .call (.muxPend 0 waitForever), .call (.taskDelay 10), .cont]

theorem heldByOther_lockedMutex : ∃ k, exec step (boot 1000000 0xffffff) lockedMutex = some k ∧
    HeldByOther k ⟨muxMagic, 0, mutexNormal⟩ := by
  obtain ⟨k, hk, hused, hcount, howner, htask, hawake⟩ : ∃ k,
      exec step (boot 1000000 0xffffff) lockedMutex = some k ∧ (k.mux 0).used = true ∧
      (k.mux 0).muxCount ≠ 0 ∧ (k.mux 0).owner = some 1 ∧ k.runTask = 2 ∧
      (k.st k.runTask).pendTime = false := by decide +kernel
  exact ⟨k, hk, rfl, by decide, by decide, hused, hcount, ⟨1, howner, by rw [htask]; decide⟩, hawake⟩

/-- One millisecond is left. -/
theorem timedlock_deadline_lockedMutex : ∃ k, exec step (boot 1000000 0xffffff) lockedMutex = some k ∧
    MeetsDeadline 32 k ⟨muxMagic, 0, mutexNormal⟩ ⟨5, 1000000⟩ ⟨5, 0⟩ := by
  obtain ⟨k, hk, hm⟩ := heldByOther_lockedMutex
  refine ⟨k, hk, (timedlock_deadline (.inl rfl) hm (by decide) (by decide)).mpr (.inl (by decide))⟩

/-- With one second left task 2 waits for 1000 ticks, which are ten seconds. With a deadline that has
been over for a second it does not return but waits for more than a year. -/
theorem timedlock_waits_too_long : ∃ k, exec step (boot 1000000 0xffffff) lockedMutex = some k ∧
    HeldByOther k ⟨muxMagic, 0, mutexNormal⟩ ∧
    (∃ k', pthreadMutexTimedlock 64 k ⟨muxMagic, 0, mutexNormal⟩ ⟨6, 0⟩ ⟨5, 0⟩ =
      some (k', ⟨muxMagic, 0, mutexNormal⟩, none) ∧ WaitsFor k' 1000) ∧
    ∃ k', pthreadMutexTimedlock 64 k ⟨muxMagic, 0, mutexNormal⟩ ⟨4, 0⟩ ⟨5, 0⟩ =
      some (k', ⟨muxMagic, 0, mutexNormal⟩, none) ∧ WaitsFor k' 4154503686 := by
  obtain ⟨k, hk, hm⟩ := heldByOther_lockedMutex
  refine ⟨k, hk, hm, ⟨_, ?_, (hm.waitsFor_iff 1000 1000).mpr (by decide)⟩, _, ?_,
    (hm.waitsFor_iff 4154503686 4154503686).mpr (by decide)⟩ <;> rw [hm.timedlock (by decide)]
  · rfl
  · rfl

end LiteosM.Posix
