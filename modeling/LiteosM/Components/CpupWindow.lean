import LiteosM.Lib.Run
import Mathlib.Logic.Function.Basic

/-!
# The windows of the CPU usage

Model of `OsTskCycleEndStart` and of the windows of `LOS_HistoryTaskCpuUsage` in `los_cpup.c`. All tasks are
sampled at a switch when more than `OS_CPUP_RECORD_PERIOD` microseconds have passed; but that is `g_sysClock`,
the number of cycles in a second. The clock does not go back. The time of the last switch (`now`) and those
of the samples (`sampled`) are not stored by the source.

* `Spaced`: samples next to each other are more than `g_sysClock` microseconds apart;
* **`cpup_windows`**: they are a second apart for a clock of one cycle a microsecond.
-/

namespace LiteosM.Components

open LiteosM.Lib Function

/-- `OS_US_PER_TICK`. -/
def usPerTick : Nat := 10000

/-- `CpupTimeUsGet` at a number of cycles. -/
def cpupTimeUs (sysClock cycle : Nat) : Nat := cycle / sysClock * 1000000 + cycle % sysClock * 1000000 / sysClock

/-- `OsCpupCB`. -/
structure CpupCB where
  startTime : Nat
  allTime : Nat
  historyTime : Nat → Nat

/-- The tables of `los_cpup.c`, with the running task and the time in cycles. -/
structure Cpup where
  runTask : Nat
  cb : Nat → CpupCB
  lastRecordTime : Nat
  hisPos : Nat
  /-- When each place of `historyTime` was written. -/
  sampled : Nat → Option Nat
  now : Nat

/-- `OsGetPrePos`; there are `OS_CPUP_HISTORY_RECORD_NUM` positions. -/
def getPrePos (curPos : Nat) : Nat := if curPos = 0 then 10 - 1 else curPos - 1

namespace Cpup

variable (sysClock d : Nat) (s : Cpup)

/-- The sampling in `OsTskCycleEndStart`. -/
def record (cpuTime : Nat) : Cpup :=
  if cpuTime - s.lastRecordTime > sysClock then
    { s with
      lastRecordTime := cpuTime
      cb := fun t => { s.cb t with historyTime := update (s.cb t).historyTime s.hisPos (s.cb t).allTime }
      sampled := update s.sampled s.hisPos (some cpuTime)
      hisPos := if s.hisPos = 10 - 1 then 0 else s.hisPos + 1 }
  else s

/-- `OsTskCycleEndStart`. -/
def cycleEndStart (cpuTime newTask : Nat) : Cpup :=
  let c := s.cb s.runTask
  let cpuTime := if c.startTime ≠ 0 ∧ cpuTime < c.startTime then cpuTime + usPerTick else cpuTime
  let cb := if c.startTime ≠ 0 then
      update s.cb s.runTask { c with allTime := c.allTime + (cpuTime - c.startTime), startTime := 0 }
    else s.cb
  record sysClock
    { s with runTask := newTask, cb := update cb newTask { cb newTask with startTime := cpuTime }, now := cpuTime } cpuTime

/-- A switch at a number of cycles, not more than `d` microseconds after the last one. -/
def step (l : Nat × Nat) : Option Cpup :=
  if s.now ≤ cpupTimeUs sysClock l.1 ∧ cpupTimeUs sysClock l.1 ≤ s.now + d then
    some (s.cycleEndStart sysClock (cpupTimeUs sysClock l.1) l.2)
  else none

/-- Nothing has been sampled. -/
def start (runTask now : Nat) : Cpup := ⟨runTask, fun _ => ⟨0, 0, fun _ => 0⟩, 0, 0, fun _ => none, now⟩

/-- The time from the sample before the last to the last: the window of `CPUP_IN_1S`. -/
def in1S : Option Nat := do
  let curPos := getPrePos s.hisPos
  return (← s.sampled curPos) - (← s.sampled (getPrePos curPos))

/-- The time from the oldest sample to `time`: the window of `CPUP_IN_10S`. -/
def in10S (time : Nat) : Option Nat := (s.sampled s.hisPos).map (time - ·)

/-- Samples next to each other, the last one and the last switch. -/
structure Spaced : Prop where
  pos : s.hisPos < 10
  start : ∀ t, (s.cb t).startTime ≤ s.now
  last : ∀ b ∈ s.sampled (getPrePos s.hisPos), b = s.lastRecordTime ∧ b ≤ s.now ∧ s.now ≤ b + sysClock
  gap : ∀ pos < 10, pos ≠ s.hisPos → ∀ a ∈ s.sampled (getPrePos pos), ∀ b ∈ s.sampled pos,
    a + sysClock < b ∧ b ≤ a + sysClock + d

variable {sysClock d s}

/-- A sample follows the one before it in the ring. -/
theorem Spaced.record {cpuTime r : Nat} {cb : Nat → CpupCB} (h : s.Spaced sysClock d) (hnow : s.now ≤ cpuTime)
    (hd : cpuTime ≤ s.now + d) (hcb : ∀ t, (cb t).startTime ≤ cpuTime) :
    Spaced sysClock d (record sysClock { s with runTask := r, cb, now := cpuTime } cpuTime) := by
  have hlt := h.pos
  unfold Cpup.record
  dsimp only
  split
  · refine ⟨by dsimp only; split <;> omega, hcb, fun b hb => ?_, fun pos hpos hne a ha b hb => ?_⟩
    · have : getPrePos (if s.hisPos = 10 - 1 then 0 else s.hisPos + 1) = s.hisPos := by
        unfold getPrePos
        split <;> simp_all
      simp_all
    have hpre : getPrePos pos ≠ s.hisPos := by
      unfold getPrePos
      dsimp only at hne
      split at hne <;> split <;> omega
    dsimp only at ha hb
    rw [update_of_ne hpre] at ha
    by_cases heq : pos = s.hisPos
    · subst heq
      obtain ⟨rfl, ha, ha'⟩ := h.last a ha
      simp only [update_self, Option.mem_some] at hb
      omega
    · rw [update_of_ne heq] at hb
      exact h.gap pos hpos heq a ha b hb
  refine ⟨hlt, hcb, fun b hb => ?_, h.gap⟩
  obtain ⟨rfl, hb, -⟩ := h.last b hb
  dsimp only
  omega

theorem Spaced.step {l : Nat × Nat} {s' : Cpup} (h : s.Spaced sysClock d) (hstep : s.step sysClock d l = some s') :
    s'.Spaced sysClock d := by
  obtain ⟨⟨hge, hle⟩, rfl⟩ := guarded_inj hstep
  have hstart t := Nat.le_trans (h.start t) hge
  unfold cycleEndStart
  simp only [Nat.not_lt.mpr (hstart _), and_false, ite_false]
  refine h.record hge hle fun t => ?_
  rw [update_apply]
  split
  · exact Nat.le_refl _
  split
  · rw [update_apply]
    split
    · exact Nat.zero_le _
    · exact hstart t
  · exact hstart t

/-- The samples of a full ring, from the oldest on. -/
theorem Spaced.walk {a : Nat} (h : s.Spaced sysClock d) (hfull : ∀ pos < 10, (s.sampled pos).isSome)
    (ha : a ∈ s.sampled s.hisPos) : ∀ k < 10, ∀ b ∈ s.sampled ((s.hisPos + k) % 10),
      a + k * (sysClock + 1) ≤ b ∧ b ≤ a + k * (sysClock + d)
  | 0, _, b, hb => by
    rw [Nat.add_zero, Nat.mod_eq_of_lt h.pos] at hb
    simp [Option.mem_unique ha hb]
  | k + 1, hk, b, hb => by
    have hlt := h.pos
    have hpre : getPrePos ((s.hisPos + (k + 1)) % 10) = (s.hisPos + k) % 10 := by
      unfold getPrePos
      split <;> omega
    obtain ⟨c, hc⟩ := Option.isSome_iff_exists.mp (hfull ((s.hisPos + k) % 10) (by omega))
    have hwalk := h.walk hfull ha k (by omega) c hc
    have hgap := h.gap _ (by omega) (by omega) c (hpre ▸ hc) b hb
    rw [Nat.succ_mul, Nat.succ_mul]
    omega

/-- In every run with a clock of one cycle a microsecond, samples next to each other are between a second and
`d` more apart, and the windows are of one second and of nine to eleven. -/
theorem cpup_windows {ls : List (Nat × Nat)} {runTask now : Nat} (hf : 999999 ≤ sysClock ∧ sysClock ≤ 1000000)
    (h : exec (step sysClock d) (start runTask now) ls = some s) :
    (∀ pos < 10, pos ≠ s.hisPos → ∀ a ∈ s.sampled (getPrePos pos), ∀ b ∈ s.sampled pos,
      a + 1000000 ≤ b ∧ b ≤ a + 1000000 + d) ∧
    (∀ w ∈ s.in1S, 1000000 ≤ w ∧ w ≤ 1000000 + d) ∧
    ∀ time, s.now ≤ time → time ≤ s.now + d → (∀ pos < 10, (s.sampled pos).isSome) →
      ∀ w ∈ s.in10S time, 9000000 ≤ w ∧ (d ≤ 100000 → w ≤ 11000000) := by
  have hinv : s.Spaced sysClock d := exec_inv (fun _ _ _ => Spaced.step)
    ⟨by simp [start], fun _ => Nat.zero_le _, by simp [start], by simp [start]⟩ h
  have hlt := hinv.pos
  have hpre : getPrePos s.hisPos = (s.hisPos + 9) % 10 := by
    unfold getPrePos
    split <;> omega
  refine ⟨fun pos hpos hne a ha b hb => ?_, fun w hw => ?_, fun time hnow htime hfull w hw => ?_⟩
  · have := hinv.gap pos hpos hne a ha b hb
    omega
  · simp only [in1S, Option.mem_def, Option.bind_eq_bind, Option.bind_eq_some_iff] at hw
    obtain ⟨b, hb, a, ha, hw⟩ := hw
    have := hinv.gap _ (by omega) (by omega) a ha b hb
    cases hw
    omega
  obtain ⟨a, ha, rfl⟩ := Option.map_eq_some_iff.mp hw
  obtain ⟨b, hb⟩ := Option.isSome_iff_exists.mp (hfull ((s.hisPos + 9) % 10) (by omega))
  have hwalk := hinv.walk hfull ha 9 (by omega) b hb
  have hlast := hinv.last b (hpre ▸ hb)
  omega

theorem cpup_windows_megahertz : ∃ s, exec (step 1000000 600000) (start 0 0)
      [(600000, 1), (1200000, 2), (1800000, 1), (2400000, 2)] = some s ∧
    s.in1S = some 1200000 ∧ ∀ w ∈ s.in1S, 1000000 ≤ w ∧ w ≤ 1600000 := by
  obtain ⟨s, hs, hw⟩ : ∃ s, exec (step 1000000 600000) (start 0 0)
      [(600000, 1), (1200000, 2), (1800000, 1), (2400000, 2)] = some s ∧ s.in1S = some 1200000 := by
    decide +kernel
  exact ⟨s, hs, hw, (cpup_windows (by decide) hs).2.1⟩

/-- At 100 MHz, with a switch every minute, samples are two minutes apart. -/
theorem cpup_windows_fast : ((exec (step 100000000 60000000) (start 0 0)
    [(6000000000, 1), (12000000000, 2), (18000000000, 1), (24000000000, 2)]).bind in1S).any
      (1000000 + 60000000 < ·) := by
  decide +kernel

end Cpup

end LiteosM.Components
