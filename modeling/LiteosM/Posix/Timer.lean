import LiteosM.Kernel.SwtmrOwn
import LiteosM.Posix.Clock

/-!
# POSIX timers

`timer_create`, `timer_settime` and `timer_gettime` of `time.c`. A POSIX timer is a software timer: one that
is set with an interval is periodic, and one without is `LOS_SWTMR_MODE_NO_SELFDELETE`, whose `uwInterval`
is the time up to its only expiry. `timer_gettime` takes `uwInterval` for the interval of every timer that
is not `LOS_SWTMR_MODE_ONCE`, and it rounds the time that is left down to ticks.

* `timerSettime_spec`: the control block that `timer_settime` leaves;
* **`timer_readback_iff`**: when `timer_gettime` reads back what was set.

Premise: `g_sysClock` is not 0. Out of scope: `timer_delete`, `timer_getoverrun`, and the signal that an
expiry sends.
-/

namespace LiteosM.Posix

open LiteosM.Lib LiteosM.Kernel Function Swtmr Timespec Nat

/-- `struct itimerspec`. -/
structure Itimerspec where
  itInterval : Timespec
  itValue : Timespec
  deriving DecidableEq, Repr

/-- The error numbers. -/
inductive TimerErrno
  | einval | enotsup | eagain
  deriving DecidableEq, Repr

/-- What `timer_create` looks at in a `sigevent`. -/
structure Sigevent where
  /-- `sigev_notify` is `SIGEV_THREAD`. -/
  thread : Bool
  /-- `sigev_notify_attributes` is not NULL. -/
  attributes : Bool
  function : Nat
  value : Nat

/-- `OsTimeSpec2Tick`. -/
def timeSpec2Tick (tp : Timespec) : UInt32 :=
  let ns := (tp.tvSec.toNat * 1000000000 + tp.tvNsec.toNat) % 2 ^ 64
  let tick := (ns * tickPerSecond + 999999999) % 2 ^ 64 / 1000000000
  .ofNat (min tick waitForever)

/-- `OsTick2TimeSpec`. -/
def tick2TimeSpec (tick : UInt32) : Timespec :=
  let ns := tick.toNat * 1000000000 / tickPerSecond
  ⟨(ns / 1000000000 : Nat), (ns % 1000000000 : Nat)⟩

/-- `timer_create` with a `timerID` that is not NULL: the new ID. -/
def timerCreate (s : Swtmr) (clockID : ClockId) (evp : Option Sigevent) : Swtmr × Except TimerErrno Nat :=
  match evp with
  | none => (s, .error .einval)
  | some evp =>
    if clockID ≠ .realtime then (s, .error .einval)
    else if !evp.thread || evp.attributes then (s, .error .enotsup)
    else
      match s.swtmrCreate 1 (some .once) evp.function evp.value true with
      | (s, .ok, id) => (s, .ok id)
      | (s, .maxSize, _) => (s, .error .eagain)
      | (s, _, _) => (s, .error .einval)

/-- `timer_gettime` with a `value` that is not NULL: what it stores. The ID is only used to find the block. -/
def timerGettime (s : Swtmr) (timerID : Nat) : Except TimerErrno Itimerspec :=
  let swtmr := s.cb (timerID % swtmrLimit)
  let interval := tick2TimeSpec (if swtmr.mode = .once then 0 else swtmr.interval)
  match s.losSwtmrTimeGet swtmr.timerID with
  | .ok tick => .ok ⟨interval, tick2TimeSpec tick⟩
  | .error .notStarted => .ok ⟨interval, tick2TimeSpec 0⟩
  | .error _ => .error .einval

/-- The critical section of `timer_settime`. -/
def timerProgram (s : Swtmr) (i : Nat) (interval expiry : UInt32) : Swtmr :=
  s.setCB i fun c =>
    { c with mode := if interval ≠ 0 then .period else .noSelfDelete
             interval := if interval ≠ 0 then interval else expiry
             overrun := 0 }

/-- `timer_settime`; what it stores in `oldValue` is what `timer_gettime` stores before. -/
def timerSettime (s : Swtmr) (timerID flags : Nat) (value : Option Itimerspec) : Swtmr × Except TimerErrno Unit :=
  if flags ≠ 0 then (s, .error .enotsup)
  else
    match value with
    | none => (s, .error .einval)
    | some value =>
      if !value.itValue.valid || !value.itInterval.valid then (s, .error .einval)
      else
        let expiry := timeSpec2Tick value.itValue
        let interval := timeSpec2Tick value.itInterval
        if interval ≠ 0 ∧ interval ≠ expiry then (s, .error .enotsup)
        else
          let stopped := s.losSwtmrStop timerID
          if stopped.2 ≠ .ok ∧ stopped.2 ≠ .notStarted then (stopped.1, .error .einval)
          else
            let i := timerID % swtmrLimit
            let s := timerProgram stopped.1 i interval expiry
            if value.itValue.tvSec = 0 ∧ value.itValue.tvNsec = 0 then (s, .ok ())
            else
              let started := s.losSwtmrStart (s.cb i).timerID
              if started.2 ≠ .ok then (started.1, .error .einval) else (started.1, .ok ())

/-! ## What is read back -/

/-- A time rounded up to ticks. -/
def Timespec.ticks (tp : Timespec) : Nat := (tp.ns.toNat * tickPerSecond + 999999999) / 1000000000

/-- The nanoseconds of a tick. -/
def nsPerTick : Nat := 1000000000 / tickPerSecond

/-- What `timer_gettime` should say of a timer that was `set` and has not expired yet. -/
structure Itimerspec.ReadsBack (set got : Itimerspec) : Prop where
  interval : got.itInterval.ns = set.itInterval.ticks * nsPerTick
  value : got.itValue.ns ≤ set.itValue.ticks * nsPerTick
  disarmed : got.itValue.ns = 0 ↔ set.itValue.ns = 0

/-- The timer reads back as `value`, and the round of `OsSwtmrScan` that handles its expiry ends it iff it has no
interval. -/
def IsTimer (s : Swtmr) (timerID : Nat) (value : Itimerspec) : Prop :=
  (∃ got, timerGettime s timerID = .ok got ∧ value.ReadsBack got) ∧
    (value.itValue.ns ≠ 0 → (((s.scanRound (timerID % swtmrLimit)).cb (timerID % swtmrLimit)).state ≠ .ticking ↔
      value.itInterval.ns = 0))

/-! ## Setting and reading -/

section
variable {s s' t : Swtmr} {timerID : Nat} {value : Itimerspec} {tp : Timespec} {ret : SwtmrRet}

theorem Timespec.valid_iff : tp.valid = true ↔ 0 ≤ tp.tvNsec ∧ tp.tvNsec < 1000000000 ∧ 0 ≤ tp.tvSec := by
  unfold valid nsPerSecond
  simp only [Bool.not_eq_true', Bool.or_eq_false_iff, decide_eq_false_iff_not]
  omega

theorem Timespec.ns_eq_zero (hvalid : tp.valid = true) : tp.ns = 0 ↔ tp.tvSec = 0 ∧ tp.tvNsec = 0 := by
  have := valid_iff.mp hvalid
  unfold ns nsPerSecond
  omega

theorem ticks_eq_zero (hvalid : tp.valid = true) : tp.ticks = 0 ↔ tp.ns = 0 := by
  have := valid_iff.mp hvalid
  unfold ticks ns nsPerSecond tickPerSecond
  omega

/-- The number that `OsTimeSpec2Tick` divides. -/
def Timespec.scaled (tp : Timespec) : Nat := (tp.ns.toNat * tickPerSecond + 999999999) % 2 ^ 64

theorem toNat_timeSpec2Tick (hvalid : tp.valid = true) :
    (timeSpec2Tick tp).toNat = min (tp.scaled / 1000000000) waitForever := by
  have := valid_iff.mp hvalid
  have hns : tp.tvSec.toNat * 1000000000 + tp.tvNsec.toNat = tp.ns.toNat := by
    unfold ns nsPerSecond
    omega
  have hscaled : (tp.ns.toNat % 2 ^ 64 * tickPerSecond + 999999999) % 2 ^ 64 = tp.scaled := by
    unfold scaled tickPerSecond
    omega
  unfold timeSpec2Tick
  dsimp only
  rw [hns, hscaled]
  exact UInt32.toNat_ofNat_of_lt' (by unfold waitForever UInt32.size; omega)

theorem timeSpec2Tick_eq (hvalid : tp.valid = true) (hlt : tp.ticks < 2 ^ 32 - 1) :
    (timeSpec2Tick tp).toNat = tp.ticks := by
  unfold ticks at hlt
  rw [toNat_timeSpec2Tick hvalid, scaled, mod_eq_of_lt (by omega)]
  exact min_eq_left hlt.le

theorem tick2TimeSpec_ns (tick : UInt32) : (tick2TimeSpec tick).ns = tick.toNat * nsPerTick := by
  unfold tick2TimeSpec ns nsPerTick nsPerSecond tickPerSecond
  dsimp only
  omega

/-- The block `c` that `timer_settime` leaves, called in the state `s`. -/
structure IsSet (s : Swtmr) (timerID : Nat) (value : Itimerspec) (c : SwtmrCtrl) : Prop where
  valid : value.itValue.valid = true ∧ value.itInterval.valid = true
  agree : timeSpec2Tick value.itInterval = 0 ∨ timeSpec2Tick value.itInterval = timeSpec2Tick value.itValue
  id : timerID < swtmrMaxTimerID ∧ c.timerID = timerID
  mode : c.mode ≠ .once ∧ (c.mode ≠ .period ↔ timeSpec2Tick value.itInterval = 0)
  interval : c.interval = timeSpec2Tick value.itValue
  created : value.itValue.ns = 0 → c.state = .created
  ticking : value.itValue.ns ≠ 0 → c.state = .ticking ∧
    c.responseTime = (s.now + s.tickToCycle (timeSpec2Tick value.itValue)) % 2 ^ 64

theorem lookup_eq (hid : timerID < swtmrMaxTimerID) (hblock : (s.cb (timerID % swtmrLimit)).timerID = timerID) :
    s.lookup timerID = .ok (timerID % swtmrLimit) := by
  unfold lookup
  rw [if_neg (not_le.mpr hid), if_neg (not_not_intro hblock)]

/-- A timer that `LOS_SwtmrStop` has stopped, or that did not tick. -/
theorem losSwtmrStop_spec (hstop : s.losSwtmrStop timerID = (s', ret)) (hret : ret = .ok ∨ ret = .notStarted) :
    timerID < swtmrMaxTimerID ∧ (s'.cb (timerID % swtmrLimit)).timerID = timerID ∧
      (s'.cb (timerID % swtmrLimit)).state = .created ∧ s'.now = s.now ∧ s'.sysClock = s.sysClock := by
  unfold losSwtmrStop at hstop
  split at hstop
  · rename_i hl
    unfold lookup at hl
    grind
  rename_i i hl
  obtain ⟨rfl, -, hid⟩ := Swtmr.Owned.lookup_ok hl
  have hmax : timerID < swtmrMaxTimerID := by
    unfold lookup at hl
    grind
  split at hstop
  · grind
  · rename_i hstate
    obtain rfl := (Prod.mk.inj hstop).1
    exact ⟨hmax, hid, hstate, rfl, rfl⟩
  obtain rfl := (Prod.mk.inj hstop).1
  unfold swtmrStop deleteSortLink
  rw [cb_setCB_self]
  split
  · refine ⟨hmax, ?_, rfl, rfl, rfl⟩
    simpa [deleteNodeSortLink, setHeap] using hid
  · exact ⟨hmax, hid, rfl, rfl, rfl⟩

/-- `OsSwtmrStart`: the sort link is no part of the blocks. -/
theorem swtmrStart_cb (s : Swtmr) (i : Nat) : (s.swtmrStart i).cb i = { s.cb i with
    state := .ticking, responseTime := ((s.cb i).startTime + s.tickToCycle (s.cb i).interval) % 2 ^ 64 } := by
  simp [swtmrStart, add2SortLink, addNode2SortLink, setHeap, setCB, tickToCycle]

/-- **What `timer_settime` accepts, it sets.** -/
theorem timerSettime_spec {flags : Nat} (h : timerSettime s timerID flags (some value) = (s', .ok ())) :
    IsSet s timerID value (s'.cb (timerID % swtmrLimit)) := by
  have hfail : ∀ {s1 : Swtmr} {e : TimerErrno}, (s1, Except.error e) ≠ (s', Except.ok ()) := fun hc => by
    cases (Prod.mk.inj hc).2
  rcases hst : s.losSwtmrStop timerID with ⟨s1, ret⟩
  unfold timerSettime at h
  dsimp only at h
  rw [hst] at h
  split at h
  · exact absurd h hfail
  split at h
  · exact absurd h hfail
  rename_i hvalid
  simp only [Bool.not_eq_true, Bool.or_eq_false_iff, Bool.not_eq_false'] at hvalid
  split at h
  · exact absurd h hfail
  rename_i hagree
  rw [not_and_or, not_not, not_not] at hagree
  split at h
  · exact absurd h hfail
  rename_i hstop
  rw [not_and_or, not_not, not_not] at hstop
  obtain ⟨hid, hblock, hstate, hnow, hclock⟩ := losSwtmrStop_spec hst hstop
  have hzero := ns_eq_zero hvalid.1
  obtain ⟨s2, heq, hcb, hnow2, hcycles⟩ : ∃ s2, timerProgram s1 (timerID % swtmrLimit) (timeSpec2Tick value.itInterval)
      (timeSpec2Tick value.itValue) = s2 ∧ s2.cb (timerID % swtmrLimit) = { s1.cb (timerID % swtmrLimit) with
        mode := if timeSpec2Tick value.itInterval ≠ 0 then .period else .noSelfDelete
        interval := timeSpec2Tick value.itValue
        overrun := 0 } ∧ s2.now = s.now ∧
      ∀ f, (s2.setCB (timerID % swtmrLimit) f).tickToCycle (timeSpec2Tick value.itValue) =
        s.tickToCycle (timeSpec2Tick value.itValue) := by
    refine ⟨_, rfl, ?_, hnow, fun f => ?_⟩
    · unfold timerProgram
      rw [cb_setCB_self, ite_eq_right_iff.mpr hagree.resolve_left]
    · unfold tickToCycle
      rw [← hclock]
      rfl
  rw [heq] at h
  have hmode : (if timeSpec2Tick value.itInterval ≠ 0 then SwtmrMode.period else .noSelfDelete) ≠ .once ∧
      ((if timeSpec2Tick value.itInterval ≠ 0 then SwtmrMode.period else .noSelfDelete) ≠ .period ↔
        timeSpec2Tick value.itInterval = 0) := by
    split <;> simp_all
  split at h
  · obtain rfl := (Prod.mk.inj h).1
    rw [hcb]
    exact ⟨hvalid, hagree, ⟨hid, hblock⟩, hmode, rfl, fun _ => hstate, fun hc => absurd (hzero.mpr ‹_›) hc⟩
  split at h
  · exact absurd h hfail
  obtain rfl := (Prod.mk.inj h).1
  have hid2 : (s2.cb (timerID % swtmrLimit)).timerID = timerID := by rwa [hcb]
  have hstate2 : (s2.cb (timerID % swtmrLimit)).state = .created := by rwa [hcb]
  unfold losSwtmrStart
  rw [hid2, lookup_eq hid hid2]
  dsimp only
  rw [hstate2]
  rw [swtmrStart_cb, cb_setCB_self, hcb]
  exact ⟨hvalid, hagree, ⟨hid, hblock⟩, hmode, rfl, fun hc => absurd (hzero.mp hc) ‹_›, fun _ => ⟨rfl, by
    rw [hcycles, hnow2]⟩⟩

/-- `timer_gettime` of a timer that was set. -/
theorem timerGettime_spec (h : IsSet s timerID value (t.cb (timerID % swtmrLimit))) :
    timerGettime t timerID = .ok ⟨tick2TimeSpec (timeSpec2Tick value.itValue),
      tick2TimeSpec (if value.itValue.ns = 0 then 0 else t.swtmrTimeGet (timerID % swtmrLimit))⟩ := by
  unfold timerGettime losSwtmrTimeGet
  dsimp only
  rw [h.id.2, lookup_eq h.id.1 h.id.2, if_neg h.mode.1, h.interval]
  dsimp only
  split_ifs with hzero
  · rw [h.created hzero]
  · rw [(h.ticking hzero).1]

/-- What is left is at most what was set, in ticks rounded down. -/
theorem swtmrTimeGet_spec {i : Nat} {ticks : UInt32}
    (hresp : (s.cb i).responseTime ≤ s.now + s.tickToCycle ticks) :
    (s.swtmrTimeGet i).toNat = ((s.cb i).responseTime - s.now) * tickPerSecond / s.sysClock.toNat ∧
      (s.swtmrTimeGet i).toNat ≤ ticks.toNat := by
  have hleft : ((s.cb i).responseTime - s.now) * tickPerSecond ≤ ticks.toNat * s.sysClock.toNat :=
    calc ((s.cb i).responseTime - s.now) * tickPerSecond ≤ s.tickToCycle ticks * tickPerSecond :=
          mul_le_mul_right _ (by omega)
      _ ≤ ticks.toNat * s.sysClock.toNat := div_mul_le_self _ _
  have hlt : ticks.toNat * s.sysClock.toNat < 2 ^ 32 * 2 ^ 32 :=
    mul_lt_mul'' ticks.toNat_lt s.sysClock.toNat_lt
  have hle : ((s.cb i).responseTime - s.now) * tickPerSecond / s.sysClock.toNat ≤ ticks.toNat :=
    Nat.div_le_of_le_mul (hleft.trans_eq (Nat.mul_comm _ _))
  have heq : (s.swtmrTimeGet i).toNat = ((s.cb i).responseTime - s.now) * tickPerSecond / s.sysClock.toNat := by
    unfold swtmrTimeGet
    have := ticks.toNat_lt
    rw [show 2 ^ 64 = 2 ^ 32 * 2 ^ 32 from rfl, mod_eq_of_lt (hleft.trans_lt hlt), Nat.min_eq_left (by omega)]
    exact UInt32.toNat_ofNat_of_lt' (by unfold UInt32.size; omega)
  exact ⟨heq, heq ▸ hle⟩

/-- The round that handles the expiry of a timer restarts it iff it is periodic. -/
theorem scanRound_state {i : Nat} (hmode : (s.cb i).mode ≠ .once) :
    ((s.scanRound i).cb i).state ≠ .ticking ↔ (s.cb i).mode ≠ .period := by
  rw [scanRound_eq]
  unfold swtmrTimeoutHandle
  dsimp only
  rw [cb_queueWrite, cb_left]
  cases hm : (s.cb i).mode with
  | once => exact absurd hm hmode
  | period =>
    rw [swtmrStart_cb]
    simp
  | noSelfDelete => simp

/-- **Reading a timer back.** Before its first expiry a timer reads back as it was set iff it is disarmed, or it has
an interval and a whole tick is left. -/
theorem timer_readback_iff (hclock : 0 < s.sysClock.toNat)
    (hset : timerSettime s timerID 0 (some value) = (s', .ok ()))
    (hvalue : value.itValue.ticks < 2 ^ 32 - 1) (hinterval : value.itInterval.ticks < 2 ^ 32 - 1)
    (hcb : t.cb (timerID % swtmrLimit) = s'.cb (timerID % swtmrLimit)) (hfreq : t.sysClock = s.sysClock)
    (hnow : s.now ≤ t.now) :
    IsTimer t timerID value ↔ (value.itValue.ns ≠ 0 → value.itInterval.ns ≠ 0 ∧ s.sysClock.toNat ≤
      ((s.now + s.tickToCycle (.ofNat value.itValue.ticks)) % 2 ^ 64 - t.now) * tickPerSecond) := by
  have h := timerSettime_spec hset
  rw [← hcb] at h
  have hexp := timeSpec2Tick_eq h.valid.1 hvalue
  have hint := timeSpec2Tick_eq h.valid.2 hinterval
  have hperiod : timeSpec2Tick value.itInterval = 0 ↔ value.itInterval.ns = 0 := by
    rw [← ticks_eq_zero h.valid.2, ← hint, ← UInt32.toNat_inj]
    rfl
  have hagree : value.itInterval.ticks = 0 ∨ value.itInterval.ticks = value.itValue.ticks := by
    rw [← hint, ← hexp]
    exact h.agree.imp (fun hc => by rw [hc]; rfl) fun hc => by rw [hc]
  have hfires : ((t.scanRound (timerID % swtmrLimit)).cb (timerID % swtmrLimit)).state ≠ .ticking ↔
      value.itInterval.ns = 0 := by
    rw [scanRound_state h.mode.1, h.mode.2, hperiod]
  unfold IsTimer
  rw [timerGettime_spec h, and_iff_left fun _ => hfires]
  have hvalid := ticks_eq_zero h.valid.1
  have hvalid' := ticks_eq_zero h.valid.2
  by_cases hzero : value.itValue.ns = 0
  · refine iff_of_true ⟨_, rfl, ?_, ?_, ?_⟩ fun hc => absurd hzero hc
    all_goals
      rw [tick2TimeSpec_ns]
    · rw [hexp]
      congr 2
      omega
    · rw [if_pos hzero]
      exact Int.natCast_nonneg _
    · rw [if_pos hzero]
      exact iff_of_true rfl hzero
  have hresp := (h.ticking hzero).2
  have hcycles : t.tickToCycle (timeSpec2Tick value.itValue) = s.tickToCycle (timeSpec2Tick value.itValue) := by
    unfold tickToCycle
    rw [hfreq]
  obtain ⟨hticks, hle⟩ := swtmrTimeGet_spec (hcycles.symm ▸ hresp.le.trans
    ((mod_le _ _).trans (Nat.add_le_add_right hnow _)))
  rw [hresp, hfreq] at hticks
  rw [if_neg hzero, show UInt32.ofNat value.itValue.ticks = timeSpec2Tick value.itValue by
    rw [← hexp, UInt32.ofNat_toNat]]
  -- a whole tick is left iff the number that is read is not zero
  have hwhole : s.sysClock.toNat ≤ ((s.now + s.tickToCycle (timeSpec2Tick value.itValue)) % 2 ^ 64 - t.now) *
      tickPerSecond ↔ (t.swtmrTimeGet (timerID % swtmrLimit)).toNat ≠ 0 := by
    rw [hticks, Nat.div_ne_zero_iff]
    exact (and_iff_right hclock.ne').symm
  rw [hwhole]
  constructor
  · rintro ⟨got, hgot, hback⟩ -
    obtain rfl := Except.ok.inj hgot
    have hread := hback.interval
    have hleft := hback.disarmed
    rw [tick2TimeSpec_ns] at hread hleft
    unfold nsPerTick tickPerSecond at hread hleft
    refine ⟨fun hc => ?_, fun hc => hzero (hleft.mp ?_)⟩
    · omega
    · rw [hc]
      rfl
  intro hc
  refine ⟨_, rfl, ?_, ?_, ?_⟩
  all_goals
    rw [tick2TimeSpec_ns]
    unfold nsPerTick tickPerSecond
  · omega
  · omega
  · omega

end

/-- A timer, just created. -/
def newTimer : Swtmr := (timerCreate (.init 1000000) .realtime (some ⟨true, false, 1, 7⟩)).1

/-- A periodic timer of 20 ms is read after 5 ms, in which another timer is created and started. -/
theorem timer_readback_iff_periodic : ∃ t,
    exec Swtmr.step (timerSettime newTimer 0 0 (some ⟨⟨0, 20000000⟩, ⟨0, 20000000⟩⟩)).1
      [.create 1 (some .once) 1 8 true, .start 1, .clock 5000] = some t ∧
    timerGettime t 0 = .ok ⟨⟨0, 20000000⟩, ⟨0, 10000000⟩⟩ ∧ IsTimer t 0 ⟨⟨0, 20000000⟩, ⟨0, 20000000⟩⟩ := by
  have hset : timerSettime newTimer 0 0 (some ⟨⟨0, 20000000⟩, ⟨0, 20000000⟩⟩) =
      ((timerSettime newTimer 0 0 (some ⟨⟨0, 20000000⟩, ⟨0, 20000000⟩⟩)).1, .ok ()) := Prod.ext rfl (by decide +kernel)
  have hret : (exec Swtmr.step (timerSettime newTimer 0 0 (some ⟨⟨0, 20000000⟩, ⟨0, 20000000⟩⟩)).1
      [.create 1 (some .once) 1 8 true, .start 1, .clock 5000]).map
        (fun t => (t.now, t.cb 0, t.sysClock, timerGettime t 0)) =
      some (5000, (timerSettime newTimer 0 0 (some ⟨⟨0, 20000000⟩, ⟨0, 20000000⟩⟩)).1.cb 0, 1000000,
        .ok ⟨⟨0, 20000000⟩, ⟨0, 10000000⟩⟩) := by decide +kernel
  obtain ⟨t, ht, hret⟩ := Option.map_eq_some_iff.mp hret
  simp only [Prod.mk.injEq] at hret
  obtain ⟨hnow, hcb, hfreq, hget⟩ := hret
  refine ⟨t, ht, hget, (timer_readback_iff (by decide +kernel) hset (by decide) (by decide) hcb hfreq
    (by rw [hnow]; decide +kernel)).mpr fun _ => ⟨by decide, ?_⟩⟩
  rw [hnow]
  decide +kernel

/-- A one-shot timer of 20 ms reads back with an interval of 20 ms. A periodic one reads back as disarmed when less than
a tick is left. -/
theorem timer_not_read_back :
    timerGettime (timerSettime newTimer 0 0 (some ⟨⟨0, 0⟩, ⟨0, 20000000⟩⟩)).1 0 =
      .ok ⟨⟨0, 20000000⟩, ⟨0, 20000000⟩⟩ ∧
    timerGettime { (timerSettime newTimer 0 0 (some ⟨⟨0, 20000000⟩, ⟨0, 20000000⟩⟩)).1 with now := 15000 } 0 =
      .ok ⟨⟨0, 20000000⟩, ⟨0, 0⟩⟩ := by
  decide +kernel

end LiteosM.Posix
