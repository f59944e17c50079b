import LiteosM.Posix.Timer

/-!
# The timeouts of the message queues

`mq_timedsend` and `mq_timedreceive` of `mqueue.c`, up to the call of the kernel queue. `ConvertTimeout`
makes ticks of `absTimeout` with `OsTimeSpec2Tick`, which multiplies nanoseconds and the tick rate in 64
bits, and does not ask for the time.

* **`timeSpec2Tick_exact_iff`**: when the ticks of a time are exact;
* **`mq_deadline_iff`**: the timeout of the kernel queue ends at `absTimeout` iff `now` and `absTimeout` lie in
  one of the windows of `FromEpoch`: the first three ticks behind the epoch, or behind the last overflow of the
  64 bits before `absTimeout`, or, when the ticks are saturated, that many ticks before `absTimeout`.

Out of scope: what `LOS_QueueWriteCopy` and `LOS_QueueReadCopy` do with the timeout (`Kernel.Mail`), and the
tables of `mqueue.c` (`Posix.Mqueue`).
-/

namespace LiteosM.Posix

open LiteosM.Kernel Timespec

/-! ## Ticks -/

/-- The product with the tick rate fits in 64 bits, or what is left of it is no less than `LOS_WAIT_FOREVER` either. -/
def Timespec.Scales (tp : Timespec) : Prop :=
  tp.ns.toNat * tickPerSecond + 999999999 < 2 ^ 64 ∨ waitForever * 1000000000 ≤ tp.scaled
  deriving Decidable

section
variable {tp now abs : Timespec}

theorem timeSpec2Tick_eq_iff (hvalid : tp.valid = true) :
    (timeSpec2Tick tp).toNat = min tp.ticks waitForever ↔ tp.Scales := by
  rw [toNat_timeSpec2Tick hvalid]
  unfold Timespec.Scales ticks scaled
  generalize tp.ns.toNat * tickPerSecond + 999999999 = n
  by_cases hn : n < 2 ^ 64
  · exact iff_of_true (by rw [Nat.mod_eq_of_lt hn]) (.inl hn)
  · omega

/-- **The ticks of a time** are exact and saturated iff its product with the tick rate does not wrap to a small one;
such times keep their order, and ticks are read back. -/
theorem timeSpec2Tick_exact_iff (hvalid : tp.valid = true) :
    ((timeSpec2Tick tp).toNat = min tp.ticks waitForever ↔ tp.Scales) ∧
      (∀ tp' : Timespec, tp'.valid = true → tp.Scales → tp'.Scales → tp.ns ≤ tp'.ns →
        timeSpec2Tick tp ≤ timeSpec2Tick tp') ∧ ∀ n, timeSpec2Tick (tick2TimeSpec n) = n := by
  refine ⟨timeSpec2Tick_eq_iff hvalid, fun tp' hvalid' hs hs' hle => ?_, fun n => ?_⟩
  · rw [UInt32.le_iff_toNat_le, (timeSpec2Tick_eq_iff hvalid).mpr hs, (timeSpec2Tick_eq_iff hvalid').mpr hs']
    unfold ticks tickPerSecond
    omega
  have hlt := n.toNat_lt
  have hvalid : (tick2TimeSpec n).valid = true := by
    rw [valid_iff]
    unfold tick2TimeSpec tickPerSecond
    dsimp only
    omega
  have hscaled : (tick2TimeSpec n).scaled = n.toNat * 1000000000 + 999999999 := by
    unfold scaled
    rw [tick2TimeSpec_ns]
    unfold nsPerTick tickPerSecond
    omega
  rw [← UInt32.toNat_inj, toNat_timeSpec2Tick hvalid]
  unfold waitForever
  omega

end

theorem timeSpec2Tick_exact_year : timeSpec2Tick ⟨31536000, 1⟩ = 3153600001 :=
  UInt32.toNat_inj.mp ((timeSpec2Tick_exact_iff (show valid ⟨31536000, 1⟩ = true by decide)).1.mpr (by decide))

/-- One second more, and the product wraps. -/
theorem timeSpec2Tick_wraps :
    timeSpec2Tick ⟨184467440, 0⟩ = 4294967295 ∧ timeSpec2Tick ⟨184467441, 0⟩ = 27 := by decide

/-! ## Deadlines -/

/-- The error numbers of the checks. -/
inductive MqTimedErrno
  | ebadf | einval | emsgsize
  deriving DecidableEq, Repr

/-- What the calls look at in a `struct mqpersonal` and its queue: `mq_status` is `MQ_USE_MAGIC`, the bits of
`mq_flags`, the size of a node with its length, and `mq_id`. -/
structure MqPersonal where
  inUse : Bool
  nonblock : Bool
  wronly : Bool
  rdwr : Bool
  queueSize : UInt16
  mqId : Nat

/-- The bytes of a message. -/
def MqPersonal.room (p : MqPersonal) : Nat := (p.queueSize.toNat + (2 ^ 32 - 4)) % 2 ^ 32

/-- `ConvertTimeout`. -/
def convertTimeout (nonblock : Bool) (absTimeout : Option Timespec) : Except MqTimedErrno UInt32 :=
  if nonblock then .ok 0
  else
    match absTimeout with
    | none => .ok (.ofNat waitForever)
    | some tp => if tp.valid then .ok (timeSpec2Tick tp) else .error .einval

/-- `mq_timedsend`: the queue and the timeout of its `LOS_QueueWriteCopy`. `msg` says that there is a buffer. -/
def mqTimedsend (personal : Option MqPersonal) (msg : Bool) (msgLen msgPrio : Nat) (absTimeout : Option Timespec) :
    Except MqTimedErrno (Nat × UInt32) :=
  match personal with
  | none => .error .ebadf
  | some p =>
    if !msg ∨ msgLen = 0 ∨ msgPrio > 0 then .error .einval
    else if !p.inUse then .error .ebadf
    else if msgLen > p.room then .error .emsgsize
    else if !p.wronly ∧ !p.rdwr then .error .ebadf
    else (convertTimeout p.nonblock absTimeout).map fun t => (p.mqId, t)

/-- `mq_timedreceive`: the queue and the timeout of its `LOS_QueueReadCopy`. -/
def mqTimedreceive (personal : Option MqPersonal) (msg : Bool) (msgLen : Nat) (absTimeout : Option Timespec) :
    Except MqTimedErrno (Nat × UInt32) :=
  match personal with
  | none => .error .ebadf
  | some p =>
    if !msg ∨ msgLen = 0 then .error .einval
    else if !p.inUse then .error .ebadf
    else if msgLen < p.room then .error .emsgsize
    else if p.wronly then .error .ebadf
    else (convertTimeout p.nonblock absTimeout).map fun t => (p.mqId, t)

/-- The ticks from `now` to `abs`, rounded up. -/
def ticksUntil (now abs : Timespec) : Nat := ((abs.ns - now.ns).toNat * tickPerSecond + 999999999) / 1000000000

/-- A wait of `timeout` ticks from `now` on ends at `abs`, or up to two ticks later. -/
def EndsAt (now abs : Timespec) (timeout : Nat) : Prop :=
  if abs.ns ≤ now.ns then timeout = 0 else ticksUntil now abs ≤ timeout ∧ timeout ≤ ticksUntil now abs + 2
  deriving Decidable

/-- A time as `OsTimeSpec2Tick` multiplies it, without overflow: 10^9 of these units are a tick. -/
def Timespec.units (tp : Timespec) : Int := tp.ns * tickPerSecond

/-- How often the 64 bits overflow on the way to the ticks of a time. -/
def Timespec.overflows (tp : Timespec) : Int := (tp.units + 999999999) / 2 ^ 64

/-- What is left of `abs` behind the last overflow is saturated to `LOS_WAIT_FOREVER` ticks. -/
def Timespec.Saturates (abs : Timespec) : Prop :=
  abs.overflows * 2 ^ 64 + waitForever * 1000000000 ≤ abs.units + 999999999
  deriving Decidable

/-- The time that the ticks of `abs` are counted from: the epoch, or the last overflow before `abs`, and earlier by
what rounds the ticks up. -/
def Timespec.origin (abs : Timespec) : Int :=
  abs.overflows * 2 ^ 64 - (abs.overflows * 2 ^ 64 - abs.units) % 1000000000

/-- When a count from the epoch can stand for one from `now`. A deadline that is over is the epoch, or up to a tick
before an overflow. One that is still to come: `now` is less than three ticks behind the origin of the count; or the
count is saturated, and so many ticks are left. -/
def FromEpoch (now abs : Timespec) : Prop :=
  if abs.ns ≤ now.ns then abs.units ≤ abs.overflows * 2 ^ 64
  else if abs.Saturates then
    (waitForever - 3) * 1000000000 < abs.units - now.units ∧ abs.units - now.units ≤ waitForever * 1000000000
  else abs.origin ≤ now.units ∧ now.units < abs.origin + 3 * 1000000000
  deriving Decidable

section
variable {p : MqPersonal} {now abs : Timespec} {msg : Bool} {msgLen msgPrio q : Nat} {t : UInt32}

theorem convertTimeout_ok (hblock : p.nonblock = false)
    (h : (convertTimeout p.nonblock (some abs)).map (fun t => (p.mqId, t)) = .ok (q, t)) :
    abs.valid = true ∧ timeSpec2Tick abs = t := by
  simp only [convertTimeout, hblock, Bool.false_eq_true, if_false] at h
  split_ifs at h with hvalid <;> cases h
  exact ⟨hvalid, rfl⟩

theorem endsAt_iff (hvalid : abs.valid = true) :
    EndsAt now abs (timeSpec2Tick abs).toNat ↔ FromEpoch now abs := by
  obtain ⟨n, hn⟩ : ∃ n : Nat, abs.ns = n := by
    refine Int.eq_ofNat_of_zero_le ?_
    have := valid_iff.mp hvalid
    unfold ns nsPerSecond
    omega
  rw [toNat_timeSpec2Tick hvalid]
  unfold EndsAt FromEpoch Saturates origin overflows units ticksUntil scaled waitForever tickPerSecond
  simp only [hn, Int.toNat_natCast, Int.cast_ofNat_Int]
  -- the overflows and what is left behind them, as one quotient and its remainder
  have hk : ((n : Int) * 100 + 999999999) / 2 ^ 64 = ((n * 100 + 999999999) / 2 ^ 64 : Nat) := rfl
  have hdiv := Nat.div_add_mod (n * 100 + 999999999) (2 ^ 64)
  have hmod := Nat.mod_lt (n * 100 + 999999999) (Nat.two_pow_pos 64)
  rw [hk]
  generalize (n * 100 + 999999999) / 2 ^ 64 = k at *
  generalize (n * 100 + 999999999) % 2 ^ 64 = r at *
  have horigin : (k : Int) * 2 ^ 64 - (k * 2 ^ 64 - n * 100) % 1000000000 =
      n * 100 - 1000000000 * (r / 1000000000 : Nat) := by
    rw [show (k : Int) * 2 ^ 64 - n * 100 = 999999999 - r by omega]
    omega
  have hsat : (k : Int) * 2 ^ 64 + 4294967295 * 1000000000 ≤ n * 100 + 999999999 ↔ 4294967295 ≤ r / 1000000000 := by
    omega
  split_ifs <;> omega

/-- **The deadlines of the message queues.** A blocking `mq_timedsend` or `mq_timedreceive` waits up to `absTimeout` iff
`now` and `absTimeout` lie in one of the windows in which a count from the epoch can stand for one from `now`. -/
theorem mq_deadline_iff (hblock : p.nonblock = false)
    (hcall : mqTimedsend (some p) msg msgLen msgPrio (some abs) = .ok (q, t) ∨
      mqTimedreceive (some p) msg msgLen (some abs) = .ok (q, t)) :
    EndsAt now abs t.toNat ↔ FromEpoch now abs := by
  have hok : abs.valid = true ∧ timeSpec2Tick abs = t := by
    rcases hcall with h | h
    · dsimp only [mqTimedsend] at h
      split_ifs at h
      exact convertTimeout_ok hblock h
    · dsimp only [mqTimedreceive] at h
      split_ifs at h
      exact convertTimeout_ok hblock h
  rw [← hok.2]
  exact endsAt_iff hok.1

end

/-- A queue with messages of 16 bytes, open for both. -/
def openQueue : MqPersonal := ⟨true, false, false, true, 20, 5⟩

/-- Ten milliseconds after the epoch, with half a second to go. -/
theorem mq_deadline_at_epoch : EndsAt ⟨0, 10000000⟩ ⟨0, 510000000⟩ 51 :=
  (mq_deadline_iff rfl (.inl (show mqTimedsend (some openQueue) true 16 0 _ = .ok (5, 51) by decide))).mpr (by decide)

/-- A year after the epoch, a deadline that is over is waited for another year. -/
theorem mq_deadline_relative : mqTimedreceive (some openQueue) true 16 (some ⟨31536000, 0⟩) = .ok (5, 3153600000) ∧
    ¬ EndsAt ⟨31536001, 0⟩ ⟨31536000, 0⟩ 3153600000 := by
  decide

end LiteosM.Posix
