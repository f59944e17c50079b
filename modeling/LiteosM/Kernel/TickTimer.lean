import Mathlib.Algebra.Group.Nat.Defs
import LiteosM.Lib.Run

/-!
# The clock

`los_tick.c` over the SysTick of this repository (`los_timer.c`): the time is a 64-bit base plus
what the timer reads, and the timer reads its own reload value less one, a 32-bit number that wraps
when the reload value is 0. The base moves in `OsTickTimerReload`, in the tick handler, in
`LOS_SysCycleGet` when the time seems to have gone back, and when the frequency changes. The clock
reads and reloads of `LOS_SchedTickHandler`, which `OsTickHandler` goes on with, are steps of their
own. `g_tickTimerStartTime` is left out: none of these functions reads it.

* `Steady.step`: every step keeps the last value that was read at or below the present time, so the
  branch that turns the timer is never taken;
* **`clock_monotone`**: in every run in which no 64-bit sum or product overflows the assertion of
  `LOS_SysCycleGet` never fails, and the values read between two frequency changes never decrease;
* **`TickTimer.reload_neutral_iff`**: a reload for any other period than two cycles moves the clock.
-/

namespace LiteosM.Kernel

open LiteosM.Lib Option

/-! ## The source -/

/-- `LOSCFG_BASE_CORE_TICK_RESPONSE_MAX`, which is also `g_archTickTimer.periodMax`. -/
def tickResponseMax : Nat := 0xFFFFFF

/-- The variables of the tick timer and its registers. -/
structure TickTimer where
  /-- `g_tickTimerBase`. -/
  base : Nat
  /-- `g_oldTickTimerBase`. -/
  oldBase : Nat
  /-- `g_tickTimerBaseUpdate`. -/
  baseUpdate : Bool
  /-- `g_SysTickLoad`. -/
  sysTickLoad : Nat
  /-- `g_sysClock`. -/
  sysClock : Nat
  deriving DecidableEq

/-- `OsTimeConvertFreq`. -/
def timeConvertFreq (time oldFreq newFreq : Nat) : Nat :=
  if oldFreq ≥ newFreq then time / (oldFreq / newFreq) else time * (newFreq / oldFreq) % 2 ^ 64

/-- The value of `SysTickCycleGet`, `g_SysTickLoad - 1` as a `UINT32`; the period it also gives is
`g_SysTickLoad`. -/
def sysTickCycleGet (sysTickLoad : Nat) : Nat :=
  if sysTickLoad = 0 then 2 ^ 32 - 1 else sysTickLoad - 1

namespace TickTimer

variable (k : TickTimer)

/-- `SysTickReload`; the difference is a `UINT64`, cut to a `UINT32`. -/
def sysTickReload (nextResponseTime : Nat) : TickTimer :=
  let next := if nextResponseTime > tickResponseMax then tickResponseMax else nextResponseTime
  { k with sysTickLoad := if next = 0 then 2 ^ 32 - 1 else (next - 1) % 2 ^ 32 }

/-- `LOS_SysCycleGet` before its assertion: `schedTime`, and the base as it is then. -/
def schedTime : TickTimer × Nat :=
  let time := sysTickCycleGet k.sysTickLoad
  let schedTime := (k.base + time) % 2 ^ 64
  if schedTime < k.oldBase then
    let base := (k.base + k.sysTickLoad) % 2 ^ 64
    ({ k with base := base, baseUpdate := true }, (base + time) % 2 ^ 64)
  else (k, schedTime)

/-- `LOS_SysCycleGet`; `none` when its assertion fails. -/
def sysCycleGet : Option (TickTimer × Nat) :=
  let (k, schedTime) := k.schedTime
  if schedTime ≥ k.oldBase then some ({ k with oldBase := schedTime }, schedTime) else none

/-- `OsUpdateSysTimeBase`. -/
def updateSysTimeBase : TickTimer :=
  let base := if k.baseUpdate = false then (k.base + k.sysTickLoad) % 2 ^ 64 else k.base
  { k with base := base, baseUpdate := false }

/-- `OsTickTimerReload`. -/
def tickTimerReload (period : Nat) : Option (TickTimer × Nat) := do
  let (k, now) ← k.sysCycleGet
  return ({ k with base := now }.sysTickReload period, now)

/-- `LOS_SysTickClockFreqAdjust` when its handler returns `freq`: the value it read from the clock,
and whether it was successful. -/
def sysTickClockFreqAdjust (freq : Nat) : Option (TickTimer × Nat × Bool) := do
  let (k, currTimeCycle) ← k.sysCycleGet
  if freq = 0 ∨ freq = k.sysClock then return (k, currTimeCycle, false)
  else
    let k := k.sysTickReload tickResponseMax
    return ({ k with
      base := timeConvertFreq currTimeCycle k.sysClock freq
      oldBase := timeConvertFreq k.oldBase k.sysClock freq
      sysClock := freq }, currTimeCycle, true)

end TickTimer

/-! ## Runs -/

/-- The calls. -/
inductive TickOp where
  | sysCycleGet
  | tickTimerReload (period : UInt64)
  | tickHandler
  | sysTickClockFreqAdjust (freq : UInt32)
  deriving DecidableEq

/-- The timer, and the values `LOS_SysCycleGet` has returned since the last frequency change, the
latest first. -/
structure TickState where
  timer : TickTimer
  seen : List Nat

namespace TickState

/-- One call; a change of the frequency starts the times anew. -/
def step (s : TickState) : TickOp → Option TickState
  | .sysCycleGet => s.timer.sysCycleGet.map fun (k, now) => ⟨k, now :: s.seen⟩
  | .tickTimerReload period =>
    (s.timer.tickTimerReload period.toNat).map fun (k, now) => ⟨k, now :: s.seen⟩
  | .tickHandler => some { s with timer := s.timer.updateSysTimeBase }
  | .sysTickClockFreqAdjust freq =>
    (s.timer.sysTickClockFreqAdjust freq.toNat).map fun (k, now, ok) =>
      ⟨k, if ok then [] else now :: s.seen⟩

/-- No sum of `LOS_SysCycleGet` overflows. -/
def ReadFits (k : TickTimer) : Prop :=
  k.base + sysTickCycleGet k.sysTickLoad < 2 ^ 64 ∧
    (k.base + sysTickCycleGet k.sysTickLoad < k.oldBase → k.base + k.sysTickLoad + sysTickCycleGet k.sysTickLoad < 2 ^ 64)
  deriving Decidable

/-- No 64-bit sum or product of a step overflows. -/
def Fits (s : TickState) : TickOp → Prop
  | .sysCycleGet | .tickTimerReload _ => ReadFits s.timer
  | .tickHandler => s.timer.baseUpdate = false → s.timer.base + s.timer.sysTickLoad < 2 ^ 64
  | .sysTickClockFreqAdjust freq => ReadFits s.timer ∧
      (s.timer.sysClock < freq.toNat →
        s.timer.schedTime.2 * (freq.toNat / s.timer.sysClock) < 2 ^ 64)

instance decidableFits (s : TickState) (op : TickOp) : Decidable (s.Fits op) := by
  unfold Fits
  split <;> infer_instance

/-- The last value that was read is not later than the present time, and the values before it were
no later. -/
structure Steady (s : TickState) : Prop where
  read : s.timer.oldBase ≤ s.timer.base + sysTickCycleGet s.timer.sysTickLoad
  turned : s.timer.baseUpdate = false
  ordered : s.seen.Pairwise (· ≥ ·)
  last : ∀ now ∈ s.seen, now ≤ s.timer.oldBase

end TickState

open TickState

section
variable {s : TickState} {k : TickTimer}

/-- The clock is read without turning the timer. -/
theorem TickTimer.sysCycleGet_eq (hread : k.oldBase ≤ k.base + sysTickCycleGet k.sysTickLoad) (hfits : ReadFits k) :
    k.sysCycleGet =
      some ({ k with oldBase := k.base + sysTickCycleGet k.sysTickLoad }, k.base + sysTickCycleGet k.sysTickLoad) := by
  have hmod : (k.base + sysTickCycleGet k.sysTickLoad) % 2 ^ 64 = k.base + sysTickCycleGet k.sysTickLoad :=
    Nat.mod_eq_of_lt hfits.1
  have htime : k.schedTime = (k, k.base + sysTickCycleGet k.sysTickLoad) := by
    unfold schedTime
    dsimp only
    rw [hmod, if_neg (Nat.not_lt.mpr hread)]
  simp only [sysCycleGet, htime, if_pos hread]

theorem TickTimer.base_le_updateSysTimeBase
    (hfits : k.baseUpdate = false → k.base + k.sysTickLoad < 2 ^ 64) :
    k.base ≤ k.updateSysTimeBase.base := by
  unfold updateSysTimeBase
  split_ifs with hflag
  · rw [Nat.mod_eq_of_lt (hfits hflag)]
    exact Nat.le_add_right _ _
  · exact Nat.le_refl _

/-- A new value is put in front of the earlier ones. -/
theorem TickState.Steady.seen_cons (h : Steady s) (hread : s.timer.oldBase ≤ k.oldBase) :
    (k.oldBase :: s.seen).Pairwise (· ≥ ·) ∧ ∀ now ∈ k.oldBase :: s.seen, now ≤ k.oldBase := by
  have hold : ∀ now ∈ s.seen, now ≤ k.oldBase := fun now hnow => Nat.le_trans (h.last now hnow) hread
  exact ⟨List.Pairwise.cons hold h.ordered, fun now hnow =>
    (List.mem_cons.mp hnow).elim Nat.le_of_eq (hold now)⟩

/-- The timer when the clock has been read. -/
def TickTimer.read (k : TickTimer) : TickTimer :=
  { k with oldBase := k.base + sysTickCycleGet k.sysTickLoad }

/-- A reload, or a successful change of the frequency: the base becomes the value that was read. -/
theorem TickState.Steady.rebase (h : Steady s) (hbase : k.oldBase = k.base)
    (hflag : k.baseUpdate = s.timer.baseUpdate) {seen : List Nat} (hord : seen.Pairwise (· ≥ ·))
    (hlast : ∀ now ∈ seen, now ≤ k.base) : Steady ⟨k, seen⟩ :=
  ⟨hbase ▸ Nat.le_add_right _ _, hflag.trans h.turned, hord, hbase ▸ hlast⟩

/-- **A step whose sums and products fit is taken, and keeps the order.** -/
theorem TickState.Steady.step (h : Steady s) {op : TickOp} (hfits : s.Fits op) :
    ∃ s', s.step op = some s' ∧ Steady s' := by
  obtain ⟨hord, hlast⟩ := h.seen_cons (k := s.timer.read) h.read
  cases op with
  | sysCycleGet =>
    refine ⟨⟨s.timer.read, s.timer.read.oldBase :: s.seen⟩, ?_, Nat.le_refl _, h.turned, hord, hlast⟩
    simp only [TickState.step, TickTimer.sysCycleGet_eq h.read hfits]
    rfl
  | tickTimerReload period =>
    refine ⟨⟨{ s.timer.read with base := s.timer.read.oldBase }.sysTickReload period.toNat,
      s.timer.read.oldBase :: s.seen⟩, ?_, h.rebase (by rfl) (by rfl) hord hlast⟩
    simp only [TickState.step, TickTimer.tickTimerReload, TickTimer.sysCycleGet_eq h.read hfits,
      bind_eq_bind, bind_some, pure_def, map_some]
    rfl
  | tickHandler =>
    refine ⟨_, rfl, ?_, rfl, h.ordered, h.last⟩
    exact Nat.le_trans h.read (Nat.add_le_add_right (TickTimer.base_le_updateSysTimeBase hfits) _)
  | sysTickClockFreqAdjust freq =>
    have hget := TickTimer.sysCycleGet_eq h.read hfits.1
    by_cases hfail : freq.toNat = 0 ∨ freq.toNat = s.timer.sysClock
    · refine ⟨⟨s.timer.read, s.timer.read.oldBase :: s.seen⟩, ?_, Nat.le_refl _, h.turned, hord, hlast⟩
      simp only [TickState.step, TickTimer.sysTickClockFreqAdjust, hget, bind_eq_bind,
        bind_some, if_pos hfail, pure_def, map_some]
      rfl
    -- base and last value are the same number, and stay so when both are converted
    obtain ⟨now, hnow⟩ : ∃ now, now =
      timeConvertFreq s.timer.read.oldBase s.timer.sysClock freq.toNat := ⟨_, rfl⟩
    refine ⟨⟨{ s.timer.sysTickReload tickResponseMax with
      base := now, oldBase := now, sysClock := freq.toNat }, []⟩, ?_, h.rebase (by rfl) (by rfl) .nil nofun⟩
    rw [hnow]
    simp only [TickState.step, TickTimer.sysTickClockFreqAdjust, hget, bind_eq_bind,
      bind_some, if_neg hfail, pure_def, map_some]
    rfl

end

/-- The timer when it is initialised, at the frequency `sysClock`. -/
def TickState.start (sysClock : Nat) : TickState := ⟨⟨0, 0, false, 0, sysClock⟩, []⟩

theorem TickState.steady_start (sysClock : Nat) : Steady (.start sysClock) :=
  ⟨Nat.zero_le _, rfl, .nil, nofun⟩

/-- **The clock never goes back**: every run whose sums and products fit is taken to its end, no
assertion failing, and what was read since the last frequency change is in order. -/
theorem clock_monotone (sysClock : Nat) (run : List TickOp)
    (hfits : Guarded TickState.step Fits (.start sysClock) run) :
    ∃ s, exec TickState.step (.start sysClock) run = some s ∧ s.seen.Pairwise (· ≥ ·) := by
  have hrun : ∀ {s : TickState} {run : List TickOp}, Steady s → Guarded TickState.step Fits s run →
      ∃ s', exec TickState.step s run = some s' ∧ Steady s' := by
    intro s run
    induction run generalizing s with
    | nil => exact fun h _ => ⟨s, rfl, h⟩
    | cons op run ih =>
      intro h hfits
      obtain ⟨s1, hs1, h1⟩ := h.step hfits.1
      obtain ⟨s', hs', h'⟩ := ih h1 (hfits.2 s1 hs1)
      exact ⟨s', exec_cons.mpr ⟨s1, hs1, hs'⟩, h'⟩
  obtain ⟨s, hs, h⟩ := hrun (steady_start sysClock) hfits
  exact ⟨s, hs, h.ordered⟩

/-- The clock is read with the reload value 0, set for one cycle, ticks, and is read again before and
after the frequency is halved. -/
def halvedFrequency : List TickOp :=
  [.sysCycleGet, .tickTimerReload 1, .sysCycleGet, .tickHandler, .tickTimerReload 5000, .tickHandler,
    .sysCycleGet, .sysTickClockFreqAdjust 500000, .sysCycleGet, .tickHandler, .sysCycleGet]

theorem clock_monotone_halvedFrequency :
    ∃ s, exec TickState.step (.start 1000000) halvedFrequency = some s ∧ s.seen.length = 2 ∧
      s.seen.Pairwise (· ≥ ·) := by
  obtain ⟨s, hs, hlen⟩ : ∃ s, exec TickState.step (.start 1000000) halvedFrequency = some s ∧
      s.seen.length = 2 := by decide +kernel
  obtain ⟨s', hs', hord⟩ := clock_monotone 1000000 halvedFrequency (by decide +kernel)
  obtain rfl : s = s' := some.inj (hs.symm.trans hs')
  exact ⟨s, hs, hlen, hord⟩

/-! ## Reloads -/

namespace TickTimer

section
variable {k k' : TickTimer} {v : Nat}

/-- The clock reads `v`, and was read at `v`. -/
structure Reads (k : TickTimer) (v : Nat) : Prop where
  old : k.oldBase = v
  lt : v < 2 ^ 64
  time : (k.base + sysTickCycleGet k.sysTickLoad) % 2 ^ 64 = v

theorem sysCycleGet_reads (h : k.sysCycleGet = some (k', v)) : k.oldBase ≤ v ∧ k'.Reads v := by
  unfold sysCycleGet schedTime at h
  dsimp only at h
  split_ifs at h <;> cases h <;>
    exact ⟨by assumption, rfl, Nat.mod_lt _ (by decide), rfl⟩

theorem Reads.sysCycleGet_eq (h : k.Reads v) : k.sysCycleGet = some (k, v) := by
  obtain ⟨rfl, -, htime⟩ := h
  simp only [sysCycleGet, schedTime, htime, Nat.lt_irrefl, reduceIte, Nat.le_refl]

theorem Reads.tickTimerReload_eq (h : k.Reads v) (period : Nat) :
    k.tickTimerReload period = some ({ k with base := v }.sysTickReload period, v) := by
  simp [tickTimerReload, h.sysCycleGet_eq]

theorem sysTickReload_load (period : Nat) :
    period = 0 ∧ (k.sysTickReload period).sysTickLoad = 2 ^ 32 - 1 ∨
      0 < period ∧ (k.sysTickReload period).sysTickLoad + 1 = min period tickResponseMax := by
  rcases Nat.eq_zero_or_pos period with rfl | hpos
  · exact .inl ⟨rfl, rfl⟩
  refine .inr ⟨hpos, ?_⟩
  simp only [sysTickReload]
  generalize hnext : (if period > tickResponseMax then tickResponseMax else period) = next
  have hmin : next = min period 0xFFFFFF := by
    rw [← hnext]
    split_ifs <;> unfold tickResponseMax at * <;> omega
  rw [if_neg (by omega), tickResponseMax]
  omega

/-- The timer reads its period less two. -/
theorem reloaded_cases (period : Nat) : (k.sysTickReload period).sysTickLoad < 2 ^ 32 ∧
    sysTickCycleGet (k.sysTickReload period).sysTickLoad < 2 ^ 32 ∧
    (sysTickCycleGet (k.sysTickReload period).sysTickLoad = 0 → period = 2) := by
  have hload := k.sysTickReload_load period
  unfold sysTickCycleGet tickResponseMax at *
  refine ⟨by omega, ?_, fun hzero => ?_⟩
  · split_ifs <;> omega
  · split_ifs at hzero
    omega

theorem Reads.reload (h : k.Reads v) : ({ k with base := v }.sysTickReload 2).Reads v :=
  ⟨h.old, h.lt, Nat.mod_eq_of_lt h.lt⟩

/-- After another reload the clock reads a later time, or its assertion fails. -/
theorem Reads.lt_of_reload (h : k.Reads v) {period w : Nat} (hp : period ≠ 2)
    (hget : ({ k with base := v }.sysTickReload period).sysCycleGet = some (k', w)) : v < w := by
  obtain ⟨hload, hread, hpos⟩ := { k with base := v }.reloaded_cases period
  have hold : ({ k with base := v }.sysTickReload period).oldBase = v := h.old
  have hbase : ({ k with base := v }.sysTickReload period).base = v := rfl
  generalize { k with base := v }.sysTickReload period = k1 at *
  generalize hc : sysTickCycleGet k1.sysTickLoad = c at *
  unfold sysCycleGet schedTime at hget
  simp only [hbase] at hget
  -- a sum that wraps is behind the last time also when the timer has been turned
  split_ifs at hget <;> cases hget <;> dsimp only at * <;> omega

end

/-- One reload of a sequence. -/
def reloadStep (k : TickTimer) (period : Nat) : Option TickTimer := (k.tickTimerReload period).map (·.1)

/-- The clock does not go back over reloads. -/
theorem first_read_le {periods : List Nat} {k k1 k2 : TickTimer} {w : Nat}
    (hrun : exec reloadStep k periods = some k1) (hget : k1.sysCycleGet = some (k2, w)) :
    ∃ k' u, k.sysCycleGet = some (k', u) ∧ u ≤ w := by
  induction periods generalizing k with
  | nil =>
    cases hrun
    exact ⟨k2, w, hget, Nat.le_refl w⟩
  | cons period periods ih =>
    obtain ⟨k3, hstep, hrest⟩ := exec_cons.mp hrun
    obtain ⟨k4, u, hread, hle⟩ := ih hrest
    unfold reloadStep tickTimerReload at hstep
    cases hfirst : k.sysCycleGet with
    | none => simp [hfirst] at hstep
    | some r =>
      obtain ⟨k', now⟩ := r
      simp only [hfirst, bind_eq_bind, bind_some, pure_def, map_some, some.injEq] at hstep
      have hold : k3.oldBase = now := by
        rw [← hstep]
        exact (sysCycleGet_reads hfirst).2.old
      exact ⟨k', now, rfl, hold ▸ Nat.le_trans (sysCycleGet_reads hread).1 hle⟩

theorem Reads.reloads_iff {periods : List Nat} {k : TickTimer} {v : Nat} (h : k.Reads v) :
    (∃ k1 k2, exec reloadStep k periods = some k1 ∧ k1.sysCycleGet = some (k2, v)) ↔
      ∀ period ∈ periods, period = 2 := by
  induction periods generalizing k with
  | nil => exact iff_of_true ⟨k, k, rfl, h.sysCycleGet_eq⟩ nofun
  | cons period periods ih =>
    have hstep : reloadStep k period = some ({ k with base := v }.sysTickReload period) := by
      rw [reloadStep, h.tickTimerReload_eq]
      rfl
    simp only [exec_cons, hstep, some.injEq, exists_eq_left', List.forall_mem_cons]
    by_cases hp : period = 2
    · subst hp
      simpa using ih h.reload
    refine iff_of_false ?_ fun hall => hp hall.1
    rintro ⟨k1, k2, hrun, hget⟩
    obtain ⟨k', u, hread, hle⟩ := first_read_le hrun hget
    exact absurd (h.lt_of_reload hp hread) (Nat.not_lt.mpr hle)

/-- **A reload moves the clock**: after the clock was read, it reads the same after reloads only if
each was for two cycles. -/
theorem reload_neutral_iff (k : TickTimer) {k' : TickTimer} {now : Nat} (periods : List Nat)
    (hnow : k.sysCycleGet = some (k', now)) :
    (∃ k1 k2, exec reloadStep k' periods = some k1 ∧ k1.sysCycleGet = some (k2, now)) ↔
      ∀ period ∈ periods, period = 2 :=
  (sysCycleGet_reads hnow).2.reloads_iff

/-- A timer that was just reloaded. -/
def reloadedTimer : TickTimer := ⟨1000, 1000, false, 1, 1000000⟩

theorem reload_neutral_iff_two : ∃ k1 k2 : TickTimer,
    exec reloadStep reloadedTimer [2, 2] = some k1 ∧ k1.sysCycleGet = some (k2, 1000) :=
  (reload_neutral_iff reloadedTimer [2, 2] (show _ = some (reloadedTimer, 1000) by rfl)).mpr (by decide)

/-- The clock reads 1000; after a reload for 10000 cycles it reads 10998. -/
theorem reload_not_neutral : (reloadedTimer.sysCycleGet.map (·.2) = some 1000) ∧
    ((exec reloadStep reloadedTimer [10000]).bind fun k => k.sysCycleGet.map (·.2)) = some 10998 := by
  decide +kernel

end TickTimer

end LiteosM.Kernel
