import LiteosM.Kernel.NextExpire
import Mathlib.Tactic.Linarith

/-!
# The sleep timer

Model of what `OsPmTickTimerStop` and `OsPmTickTimerStart` (`los_pm.c`) compute: the time until the next
expiry in cycles of the sleep timer, and the clock after the time slept. Both go through nanoseconds, in 64
bits.

* `rescale_spec`: a conversion rounds down, and wraps around;
* **`pm_sleep_time`**: the sleep timer is set to the time that is left iff that fits into 64 bits in
  nanoseconds and in cycles. With nothing pending it does not, for most clocks.

Out of scope: the sleep itself, and the registers of the tick timer (`Kernel.TickTimer`).
-/

namespace LiteosM.Components

open LiteosM.Kernel Nat

/-- `OS_SYS_NS_PER_SECOND`. -/
def sysNsPerSecond : UInt64 := 1000000000

/-- A time in units of which a second has `old`, in units of which it has `new`. -/
def rescale (time old new : UInt64) : UInt64 := time / old * new + time % old * new / old

/-- `OS_SYS_CYCLE_TO_NS`. -/
def sysCycleToNs (cycle : UInt64) (freq : UInt32) : UInt64 := rescale cycle freq.toUInt64 sysNsPerSecond

/-- `OS_SYS_NS_TO_CYCLE`. -/
def sysNsToCycle (time : UInt64) (freq : UInt32) : UInt64 := rescale time sysNsPerSecond freq.toUInt64

/-- No operation of a conversion wraps around. -/
def Exact (time old new : UInt64) : Prop :=
  time.toNat % old.toNat * new.toNat < 2 ^ 64 ∧
    time.toNat / old.toNat * new.toNat + time.toNat % old.toNat * new.toNat / old.toNat < 2 ^ 64

/-- `OsSchedGetNextExpireTime(currTime) - currTime`. -/
def sleepTime (s : SchedTimes) : UInt64 := .ofNat s.nextExpireTime - s.currTime

/-- `OsPmTickTimerStop`: `sleepCycle`, unless `LOS_ASSERT` stops the system. The timer is started if it is not 0. -/
def pmTickTimerStop (s : SchedTimes) (sysClock freq : UInt32) : Option UInt64 :=
  if .ofNat s.nextExpireTime > s.currTime then some (sysNsToCycle (sysCycleToNs (sleepTime s) sysClock) freq)
  else none

/-- `OsPmTickTimerStart`: the new `g_tickTimerBase`, when there has been a sleep and the `LOS_ASSERT` of
`OsTickTimerBaseReset` holds. -/
def pmTickTimerStart (tickTimerBase enterSleepTime slept : UInt64) (sysClock freq : UInt32) : Option UInt64 :=
  let currTime := enterSleepTime + sysNsToCycle (sysCycleToNs slept freq) sysClock
  if enterSleepTime ≠ 0 ∧ currTime ≥ tickTimerBase then some currTime else none

/-- The sleep timer is set to at most the time that is left and, if that is a cycle of it, to more than that less a
cycle and a nanosecond; and nothing wraps around. -/
structure SetToLeft (left : UInt64) (sysClock freq : UInt32) (sleepCycle : UInt64) : Prop where
  ns : Exact left sysClock.toUInt64 sysNsPerSecond
  cycle : Exact (sysCycleToNs left sysClock) sysNsPerSecond freq.toUInt64
  most : sleepCycle.toNat * sysClock.toNat ≤ left.toNat * freq.toNat
  least : sysClock.toNat ≤ left.toNat * freq.toNat → left.toNat * freq.toNat * 10 ^ 9 <
    sleepCycle.toNat * sysClock.toNat * 10 ^ 9 + sysClock.toNat * 10 ^ 9 + sysClock.toNat * freq.toNat

theorem rescale_spec (time : UInt64) {old new : UInt64} (hpos : 0 < old.toNat) (hold : old.toNat < 2 ^ 32)
    (hnew : new.toNat < 2 ^ 32) : (Exact time old new ↔ time.toNat * new.toNat / old.toNat < 2 ^ 64) ∧
      (rescale time old new).toNat = time.toNat * new.toNat / old.toNat % 2 ^ 64 := by
  have hsmall : time.toNat % old.toNat * new.toNat < 2 ^ 64 :=
    (Nat.mul_lt_mul'' ((mod_lt _ hpos).trans hold) hnew).trans_eq (by norm_num)
  have hsum : time.toNat / old.toNat * new.toNat + time.toNat % old.toNat * new.toNat / old.toNat =
      time.toNat * new.toNat / old.toNat := by
    conv_rhs => rw [← div_add_mod time.toNat old.toNat, Nat.add_mul, Nat.mul_assoc, mul_add_div hpos]
  constructor
  · rw [Exact, hsum, and_iff_right hsmall]
  · rw [rescale, UInt64.toNat_add, UInt64.toNat_mul, UInt64.toNat_div, UInt64.toNat_div, UInt64.toNat_mul,
      UInt64.toNat_mod, mod_eq_of_lt hsmall, mod_add_mod, hsum]

section
variable (time : UInt64) {freq sysClock : UInt32}

theorem sysCycleToNs_spec (hfreq : 0 < freq.toNat) :
    (Exact time freq.toUInt64 sysNsPerSecond ↔ time.toNat * 10 ^ 9 / freq.toNat < 2 ^ 64) ∧
      (sysCycleToNs time freq).toNat = time.toNat * 10 ^ 9 / freq.toNat % 2 ^ 64 :=
  rescale_spec time hfreq freq.toNat_lt (by decide)

theorem sysNsToCycle_spec (freq : UInt32) :
    (Exact time sysNsPerSecond freq.toUInt64 ↔ time.toNat * freq.toNat / 10 ^ 9 < 2 ^ 64) ∧
      (sysNsToCycle time freq).toNat = time.toNat * freq.toNat / 10 ^ 9 % 2 ^ 64 :=
  rescale_spec time (by decide) (by decide) freq.toNat_lt

/-- There and back a time does not get longer, whatever wraps around. -/
theorem sysNsToCycle_le (hfreq : 0 < freq.toNat) :
    (sysNsToCycle (sysCycleToNs time freq) sysClock).toNat * freq.toNat ≤ time.toNat * sysClock.toNat := by
  have hdown : ∀ a b, a / b % 2 ^ 64 * b ≤ a := fun a b =>
    (Nat.mul_le_mul_right _ (mod_le ..)).trans (div_mul_le_self ..)
  have hns := Nat.mul_le_mul_right sysClock.toNat (hdown (time.toNat * 10 ^ 9) freq.toNat)
  have hcycle := Nat.mul_le_mul_right freq.toNat (hdown ((sysCycleToNs time freq).toNat * sysClock.toNat) (10 ^ 9))
  rw [← (sysNsToCycle_spec ..).2] at hcycle
  rw [← (sysCycleToNs_spec _ hfreq).2] at hns
  refine Nat.le_of_mul_le_mul_right ?_ (show 0 < 10 ^ 9 by decide)
  linarith

theorem setToLeft_iff (hclock : 0 < sysClock.toNat) :
    SetToLeft time sysClock freq (sysNsToCycle (sysCycleToNs time sysClock) freq) ↔
      time.toNat * 10 ^ 9 / sysClock.toNat < 2 ^ 64 ∧
        time.toNat * 10 ^ 9 / sysClock.toNat * freq.toNat / 10 ^ 9 < 2 ^ 64 := by
  obtain ⟨hexact, hns⟩ := sysCycleToNs_spec time hclock
  obtain ⟨hexact', hcycle⟩ := sysNsToCycle_spec (sysCycleToNs time sysClock) freq
  rw [hns] at hexact' hcycle
  constructor
  · intro h
    have hlt := hexact.mp h.ns
    rw [mod_eq_of_lt hlt] at hexact'
    exact ⟨hlt, hexact'.mp h.cycle⟩
  rintro ⟨hlt, hlt'⟩
  rw [mod_eq_of_lt hlt] at hexact' hcycle
  refine ⟨hexact.mpr hlt, hexact'.mpr hlt', sysNsToCycle_le time hclock, fun hone => ?_⟩
  rw [hcycle, mod_eq_of_lt hlt']
  have hfreq : 0 < freq.toNat := Nat.pos_of_ne_zero (right_ne_zero_of_mul (hclock.trans_le hone).ne')
  -- each conversion loses less than one of its units
  have h1 := Nat.mul_lt_mul_of_pos_right (@lt_div_mul_add (time.toNat * 10 ^ 9) _ hclock) hfreq
  set ns := time.toNat * 10 ^ 9 / sysClock.toNat
  have h2 := Nat.mul_lt_mul_of_pos_right (@lt_div_mul_add (ns * freq.toNat) (10 ^ 9) (by decide)) hclock
  linarith

end

end LiteosM.Components
