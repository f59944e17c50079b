import LiteosM.Posix.Mutex

/-!
# The real-time clock

`clock_settime` and `clock_gettime` of `time.c`, for a `time_t` of 64 bits and a fixed `g_sysClock`. What is
kept is `g_accDeltaFromSet`, the difference between the time that was set and the monotonic time, as seconds
and nanoseconds.

* `getRealTime_setRealTime`: what is stored with borrow is added back with carry;
* **`clock_realtime`**: over every sequence of calls a read is the time that was set last plus what the
  monotonic clock has advanced since, as long as `tv_sec` can hold it;
* `clock_realtime_wraps`: it does not when it cannot.

The cycle counter is an input of each call, and does not go back. Out of scope: `clock_getres` and the
timers (`Posix.Timer`).
-/

namespace LiteosM.Posix

/-- Conversion to a `time_t`. -/
def toTimeT (x : Int) : Int := (x + 2 ^ 63) % 2 ^ 64 - 2 ^ 63

/-- The time in nanoseconds. -/
def Timespec.ns (tp : Timespec) : Int := tp.tvSec * nsPerSecond + tp.tvNsec

/-- `ValidTimeSpec` of a pointer that is not NULL. -/
def Timespec.valid (tp : Timespec) : Bool := !(tp.tvNsec < 0 || tp.tvNsec ≥ nsPerSecond || tp.tvSec < 0)

/-- The clocks that the calls tell apart. -/
inductive ClockId
  | realtime | realtimeCoarse | monotonic | monotonicRaw | monotonicCoarse | processCputimeId | threadCputimeId
  | boottime | realtimeAlarm | boottimeAlarm | sgiCycle | tai
  | other
  deriving DecidableEq, Repr

/-- The error numbers. -/
inductive ClockErrno
  | einval | enotsup
  deriving DecidableEq, Repr

section
variable (sysClock : UInt32)

/-- `OsGetHwTime` with the result of `LOS_SysCycleGet`. -/
def getHwTime (cycle : UInt64) : Timespec :=
  let nowNsec := (cycle.toNat / sysClock.toNat * 1000000000 +
    cycle.toNat % sysClock.toNat * 1000000000 % 2 ^ 64 / sysClock.toNat) % 2 ^ 64
  ⟨(nowNsec / 1000000000 : Nat), (nowNsec % 1000000000 : Nat)⟩

/-- `OsGetRealTime`; the sums of nanoseconds are below 2^31. -/
def getRealTime (accDelta : Timespec) (cycle : UInt64) : Timespec :=
  let hwTime := getHwTime sysClock cycle
  let nsec := hwTime.tvNsec + accDelta.tvNsec
  ⟨toTimeT (hwTime.tvSec + accDelta.tvSec + if nsec ≥ nsPerSecond then 1 else 0), nsec % nsPerSecond⟩

/-- `OsSetRealTime`: the new `g_accDeltaFromSet`. -/
def setRealTime (realTime : Timespec) (cycle : UInt64) : Timespec :=
  let hwTime := getHwTime sysClock cycle
  let nsec := realTime.tvNsec - hwTime.tvNsec
  ⟨toTimeT (realTime.tvSec - hwTime.tvSec - if nsec < 0 then 1 else 0), (nsec + nsPerSecond) % nsPerSecond⟩

/-- `clock_settime`: what it returns and the new `g_accDeltaFromSet`. -/
def clockSettime (accDelta : Timespec) (cycle : UInt64) (clockID : ClockId) (tp : Option Timespec) :
    Except ClockErrno Unit × Timespec :=
  match tp with
  | none => (.error .einval, accDelta)
  | some tp =>
    if !tp.valid then (.error .einval, accDelta)
    else
      match clockID with
      | .realtime => (.ok (), setRealTime sysClock tp cycle)
      | .monotonic | .other => (.error .einval, accDelta)
      | _ => (.error .enotsup, accDelta)

/-- `clock_gettime` with a pointer that is not NULL: what it stores. -/
def clockGettime (accDelta : Timespec) (cycle : UInt64) : ClockId → Except ClockErrno Timespec
  | .monotonicRaw | .monotonic | .monotonicCoarse => .ok (getHwTime sysClock cycle)
  | .realtime | .realtimeCoarse => .ok (getRealTime sysClock accDelta cycle)
  | .other => .error .einval
  | _ => .error .enotsup

end

/-- A call, with the cycles that its `LOS_SysCycleGet` returns. -/
inductive ClockCall
  | settime (cycle : UInt64) (clockID : ClockId) (tp : Option Timespec)
  | gettime (cycle : UInt64) (clockID : ClockId)

namespace ClockCall

/-- The new `g_accDeltaFromSet`. -/
def run (sysClock : UInt32) (accDelta : Timespec) : ClockCall → Timespec
  | settime cycle clockID tp => (clockSettime sysClock accDelta cycle clockID tp).2
  | gettime .. => accDelta

/-- The cycles and the time of a call that sets the clock. -/
def sets : ClockCall → Option (UInt64 × Timespec)
  | settime cycle .realtime (some tp) => if tp.valid then some (cycle, tp) else none
  | _ => none

end ClockCall

section
variable {sysClock : UInt32} {accDelta tp : Timespec} {cycle cycle' : UInt64}

theorem toTimeT_eq {x : Int} (hlow : -2 ^ 63 ≤ x) (hhigh : x < 2 ^ 63) : toTimeT x = x := by
  unfold toTimeT
  omega

theorem getHwTime_spec : 0 ≤ (getHwTime sysClock cycle).tvNsec ∧ (getHwTime sysClock cycle).tvNsec < 1000000000 ∧
    0 ≤ (getHwTime sysClock cycle).tvSec ∧ (getHwTime sysClock cycle).tvSec < 2 ^ 62 := by
  unfold getHwTime
  dsimp only
  have hlt := Nat.mod_lt (cycle.toNat / sysClock.toNat * 1000000000 +
    cycle.toNat % sysClock.toNat * 1000000000 % 2 ^ 64 / sysClock.toNat) (Nat.two_pow_pos 64)
  omega

/-- What is stored with borrow is added back with carry. -/
theorem getRealTime_setRealTime (htp : tp.valid = true)
    (hfit : tp.ns + ((getHwTime sysClock cycle').ns - (getHwTime sysClock cycle).ns) < 2 ^ 63 * nsPerSecond) :
    let now := getRealTime sysClock (setRealTime sysClock tp cycle) cycle'
    now.ns = tp.ns + ((getHwTime sysClock cycle').ns - (getHwTime sysClock cycle).ns) ∧ 0 ≤ now.tvNsec ∧
      now.tvNsec < nsPerSecond := by
  have hset := @getHwTime_spec sysClock cycle
  have hread := @getHwTime_spec sysClock cycle'
  unfold Timespec.valid nsPerSecond at htp
  simp only [Bool.not_eq_true', Bool.or_eq_false_iff, decide_eq_false_iff_not] at htp
  unfold Timespec.ns nsPerSecond at hfit
  unfold getRealTime setRealTime Timespec.ns nsPerSecond
  generalize getHwTime sysClock cycle = hw at *
  generalize getHwTime sysClock cycle' = hw' at *
  dsimp only
  rw [@toTimeT_eq (tp.tvSec - hw.tvSec - _) (by split <;> omega) (by split <;> omega)]
  rw [@toTimeT_eq (hw'.tvSec + _ + _) (by split <;> split <;> omega) (by split <;> split <;> omega)]
  split <;> split <;> omega

theorem run_of_sets {call : ClockCall} {set : UInt64 × Timespec} (h : call.sets = some set) :
    set.2.valid = true ∧ call.run sysClock accDelta = setRealTime sysClock set.2 set.1 := by
  unfold ClockCall.sets at h
  split at h
  · obtain ⟨hvalid, rfl⟩ := Lib.guarded_inj h
    refine ⟨hvalid, ?_⟩
    unfold ClockCall.run clockSettime
    dsimp only
    rw [hvalid]
    rfl
  · nomatch h

/-- A call that fails and one that reads leave it as it is. -/
theorem run_of_not_sets {call : ClockCall} (h : call.sets = none) : call.run sysClock accDelta = accDelta := by
  cases call with
  | gettime cycle clockID => rfl
  | settime cycle clockID tp =>
    cases tp with
    | none => rfl
    | some tp =>
      unfold ClockCall.run clockSettime
      dsimp only
      cases hvalid : tp.valid with
      | false => rfl
      | true =>
        cases clockID with
        | realtime => exact absurd h (by simp [ClockCall.sets, hvalid])
        | _ => rfl

/-- `g_accDeltaFromSet` is that of the last call that has set the clock. -/
theorem run_lastSet {calls : List ClockCall} {set : UInt64 × Timespec}
    (hset : (calls.filterMap ClockCall.sets).getLast? = some set) :
    set.2.valid = true ∧ calls.foldl (ClockCall.run sysClock) accDelta = setRealTime sysClock set.2 set.1 := by
  induction calls using List.reverseRecOn with
  | nil => nomatch hset
  | append_singleton calls call ih =>
    rw [List.foldl_append]
    change _ ∧ call.run sysClock _ = _
    rw [List.filterMap_append, List.filterMap_cons] at hset
    cases hcall : call.sets with
    | none =>
      rw [hcall] at hset
      rw [run_of_not_sets hcall]
      exact ih (by simpa using hset)
    | some set' =>
      rw [hcall] at hset
      obtain rfl : set' = set := by simpa using hset
      exact run_of_sets hcall

end

/-- **The real-time clock is the time that was set last and the monotonic time since**: after every sequence of calls
the monotonic clock is read as it is, and if one of them has set the real-time clock, a read at `cycle` is `tp + d`,
with its nanoseconds below a second, if `tv_sec` can hold that. -/
theorem clock_realtime (sysClock : UInt32) (accDelta : Timespec) (calls : List ClockCall) (cycle : UInt64) :
    clockGettime sysClock (calls.foldl (ClockCall.run sysClock) accDelta) cycle .monotonic =
      .ok (getHwTime sysClock cycle) ∧ ∀ set, (calls.filterMap ClockCall.sets).getLast? = some set →
      set.2.ns + ((getHwTime sysClock cycle).ns - (getHwTime sysClock set.1).ns) < 2 ^ 63 * nsPerSecond →
      ∃ now, clockGettime sysClock (calls.foldl (ClockCall.run sysClock) accDelta) cycle .realtime = .ok now ∧
        now.ns = set.2.ns + ((getHwTime sysClock cycle).ns - (getHwTime sysClock set.1).ns) ∧
        0 ≤ now.tvNsec ∧ now.tvNsec < nsPerSecond := by
  refine ⟨rfl, fun set hset hfit => ⟨_, rfl, ?_⟩⟩
  obtain ⟨hvalid, hrun⟩ := @run_lastSet sysClock accDelta calls set hset
  rw [hrun]
  exact getRealTime_setRealTime hvalid hfit

/-- At 0.4 s of a clock with five cycles a second the time is set to 1.6 s; 0.8 s later it is 2.4 s. -/
theorem clock_realtime_carries : ∃ now,
    clockGettime 5 ([.settime 2 .realtime (some ⟨1, 600000000⟩), .settime 3 .monotonic (some ⟨7, 0⟩)].foldl
      (ClockCall.run 5) ⟨0, 0⟩) 6 .realtime = .ok now ∧ now.ns = 2400000000 := by
  have hset : ([.settime 2 .realtime (some ⟨1, 600000000⟩), .settime 3 .monotonic (some ⟨7, 0⟩)].filterMap
      ClockCall.sets).getLast? = some (2, ⟨1, 600000000⟩) := by decide
  have hfit : (⟨1, 600000000⟩ : Timespec).ns + ((getHwTime 5 6).ns - (getHwTime 5 2).ns) < 2 ^ 63 * nsPerSecond := by
    decide
  obtain ⟨now, hnow, hns, -⟩ := (clock_realtime 5 ⟨0, 0⟩ _ 6).2 _ hset hfit
  exact ⟨now, hnow, hns.trans (by decide)⟩

/-- The last second of a `time_t` is set, and the clock is read a second later. -/
theorem clock_realtime_wraps :
    clockGettime 5 ([.settime 0 .realtime (some ⟨2 ^ 63 - 1, 0⟩)].foldl (ClockCall.run 5) ⟨0, 0⟩) 5 .realtime =
      .ok ⟨-2 ^ 63, 0⟩ := by
  decide +kernel

end LiteosM.Posix
