import LiteosM.Kernel.Sched
import Mathlib.Data.List.MinMax

/-!
# The next tick

`OsSchedSetNextExpireTime` with both sort links, on the response times of their nodes. The bound on what it
sets is the next timeout or the end of the slice, each with what the code may add to it.

* `Sched.setNextExpireTime_eq`: without software timers it is the function of the scheduler's model;
* **`responseTime_le_iff`**: the bound is kept unless the slice has ended before the time that is read.

The times are those of the moment of the call, and `OsTickTimerReload` is taken to set what it is given, up
to its longest period.
-/

namespace LiteosM.Kernel

open List Nat

/-- What `OsSchedSetNextExpireTime` looks at. -/
structure SchedTimes where
  /-- The response times in `g_taskSortLink` and `g_swtmrSortLink`. -/
  taskLink : List Nat
  swtmrLink : List Nat
  taskSorted : taskLink.Pairwise (· ≤ ·)
  swtmrSorted : swtmrLink.Pairwise (· ≤ ·)
  linksFit : ∀ time ∈ taskLink ++ swtmrLink, time < 2 ^ 64
  schedResponseTime : UInt64
  tickResponsePrecision : UInt32
  schedTickMinPeriod : UInt32
  tickPeriodMax : UInt64
  /-- `OsGetCurrSchedTimeCycle()`. -/
  currTime : UInt64

/-- `GetSortLinkNextExpireTime`. -/
def sortLinkNextExpireTime (startTime precision : Nat) : List Nat → Nat
  | [] => invalidTime - precision
  | first :: _ =>
    let soon := (startTime + precision) % 2 ^ 64
    if first ≤ soon then soon else first

/-- `currTime + OsTickTimerReload(nextResponseTime)`. -/
def tickSet (precision periodMax currTime nextExpireTime : Nat) : Nat :=
  let wait := (nextExpireTime + 2 ^ 64 - currTime) % 2 ^ 64
  (currTime + min (if wait < precision then precision else wait) periodMax) % 2 ^ 64

/-- `OsSchedSetNextExpireTime` from the result of `OsGetNextExpireTime` on: what becomes of `g_schedResponseTime`. -/
def nextResponseTime (response precision minPeriod periodMax currTime expire taskEndTime : Nat) : Nat :=
  let nextExpireTime := if expire > taskEndTime && expire - taskEndTime > minPeriod then taskEndTime else expire
  if response ≤ nextExpireTime ∨ response - nextExpireTime < precision then response
  else tickSet precision periodMax currTime nextExpireTime

namespace SchedTimes

variable (s : SchedTimes) (taskEndTime : UInt64)

/-- `OsGetNextExpireTime`. -/
def nextExpireTime : Nat :=
  let task := sortLinkNextExpireTime s.currTime.toNat s.tickResponsePrecision.toNat s.taskLink
  let swtmr := sortLinkNextExpireTime s.currTime.toNat s.tickResponsePrecision.toNat s.swtmrLink
  if task < swtmr then task else swtmr

/-- `OsSchedSetNextExpireTime`: the new `g_schedResponseTime`. -/
def setNextExpireTime : Nat :=
  nextResponseTime s.schedResponseTime.toNat s.tickResponsePrecision.toNat s.schedTickMinPeriod.toNat
    s.tickPeriodMax.toNat s.currTime.toNat s.nextExpireTime taskEndTime.toNat

/-- The bound: with the earliest timeout, and without one. -/
def latest : Nat :=
  let t := s.currTime.toNat
  let sliceEnd := taskEndTime.toNat + s.schedTickMinPeriod.toNat
  let precision := s.tickResponsePrecision.toNat
  match (s.taskLink ++ s.swtmrLink).min? with
  | some first => max t (min (max first (t + precision)) sliceEnd) + precision
  | none => max t sliceEnd + precision

/-- The slice has ended, and it is what the tick is set for: no timeout is near its end, and no response is set for
then. The time left wraps, the timer is given its longest period, and that one reaches beyond the bound. -/
def Overdue : Prop :=
  taskEndTime.toNat < s.currTime.toNat ∧ taskEndTime.toNat + s.schedTickMinPeriod.toNat < s.nextExpireTime ∧
    taskEndTime.toNat < s.schedResponseTime.toNat ∧
    taskEndTime.toNat + s.tickResponsePrecision.toNat ≤ s.schedResponseTime.toNat ∧
    s.latest taskEndTime < s.currTime.toNat + s.tickPeriodMax.toNat ∧
    s.currTime.toNat + s.tickPeriodMax.toNat < 2 ^ 64

end SchedTimes

/-- `OsSchedSetNextExpireTime` of the scheduler's model, which has no software timers. -/
theorem Sched.setNextExpireTime_eq (s : Sched) (responseID taskEndTime : Nat) :
    (s.setNextExpireTime responseID taskEndTime).schedResponseTime =
      nextResponseTime s.schedResponseTime s.tickResponsePrecision s.schedTickMinPeriod s.tickPeriodMax s.currTime
        (s.getNextExpireTime s.currTime) taskEndTime := by
  unfold Sched.setNextExpireTime nextResponseTime tickSet
  rw [apply_ite Sched.schedResponseTime]

section
variable {l : List Nat} {t precision : Nat}

/-- The next expiry of one sort link. -/
theorem sortLinkNextExpireTime_spec (hfit : ∀ time ∈ l, time < 2 ^ 64) (ht : t + precision < 2 ^ 64)
    (hs : l.Pairwise (· ≤ ·)) : t ≤ sortLinkNextExpireTime t precision l ∧
      sortLinkNextExpireTime t precision l < 2 ^ 64 ∧
      ∀ time ∈ l, sortLinkNextExpireTime t precision l ≤ max time (t + precision) := by
  cases l with
  | nil =>
    have hnil : sortLinkNextExpireTime t precision [] = 2 ^ 64 - 1 - precision := rfl
    exact ⟨by omega, by omega, fun time h => absurd h not_mem_nil⟩
  | cons first l =>
    have hfirst := hfit first mem_cons_self
    unfold sortLinkNextExpireTime
    dsimp only
    rw [mod_eq_of_lt ht]
    refine ⟨by split <;> omega, by split <;> omega, fun time h => ?_⟩
    have hle : first ≤ time := by
      rcases mem_cons.mp h with rfl | h
      · exact le_refl _
      · exact rel_of_pairwise_cons hs h
    split <;> omega

end

section
variable {response precision minPeriod periodMax t expire taskEndTime next : Nat}

theorem nextResponseTime_slice (h : taskEndTime + minPeriod < expire) :
    nextResponseTime response precision minPeriod periodMax t expire taskEndTime =
      if response ≤ taskEndTime ∨ response - taskEndTime < precision then response
      else tickSet precision periodMax t taskEndTime := by
  have hcond : (decide (expire > taskEndTime) && decide (expire - taskEndTime > minPeriod)) = true := by
    simp only [Bool.and_eq_true, decide_eq_true_eq]
    omega
  unfold nextResponseTime
  rw [if_pos hcond]

theorem nextResponseTime_expire (h : ¬ taskEndTime + minPeriod < expire) :
    nextResponseTime response precision minPeriod periodMax t expire taskEndTime =
      if response ≤ expire ∨ response - expire < precision then response else tickSet precision periodMax t expire := by
  have hcond : ¬ (decide (expire > taskEndTime) && decide (expire - taskEndTime > minPeriod)) = true := by
    simp only [Bool.and_eq_true, decide_eq_true_eq]
    omega
  unfold nextResponseTime
  rw [if_neg hcond]

/-- A time to come is kept to. -/
theorem tickSet_le (hnext : t ≤ next) (hfit : next < 2 ^ 64) :
    tickSet precision periodMax t next ≤ max next (t + precision) := by
  have hwait : (next + 2 ^ 64 - t) % 2 ^ 64 = next - t := by
    rw [show next + 2 ^ 64 - t = next - t + 2 ^ 64 by omega, add_mod_right]
    exact mod_eq_of_lt (by omega)
  unfold tickSet
  refine le_trans (mod_le _ _) ?_
  split <;> omega

/-- For a time that has passed the tick is set a whole period from now, if that does not wrap. -/
theorem tickSet_over (hnext : next < t) (hsoon : t + precision < 2 ^ 64) (ht : t < 2 ^ 64)
    (hmax : periodMax < 2 ^ 64) :
    (t + periodMax < 2 ^ 64 → tickSet precision periodMax t next = t + periodMax) ∧
      (2 ^ 64 ≤ t + periodMax → tickSet precision periodMax t next < t) := by
  have hwait : (next + 2 ^ 64 - t) % 2 ^ 64 = next + 2 ^ 64 - t := mod_eq_of_lt (by omega)
  unfold tickSet
  dsimp only
  rw [hwait, if_neg (by omega : ¬ next + 2 ^ 64 - t < precision)]
  constructor
  · intro hfit
    rw [min_eq_right (by omega)]
    exact mod_eq_of_lt hfit
  · intro hwrap
    omega

end

/-- **The tick is set for no later than the next timeout and the end of the slice allow, unless the slice has ended
before the time that is read.** -/
theorem responseTime_le_iff (s : SchedTimes) (taskEndTime : UInt64) :
    s.setNextExpireTime taskEndTime ≤ s.latest taskEndTime ↔ ¬s.Overdue taskEndTime := by
  have hE := taskEndTime.toNat_lt
  have hG := s.schedResponseTime.toNat_lt
  have hle : s.currTime.toNat + s.tickResponsePrecision.toNat ≤ s.latest taskEndTime := by
    unfold SchedTimes.latest
    dsimp only
    split <;> omega
  by_cases ht : s.currTime.toNat + s.tickResponsePrecision.toNat < 2 ^ 64
  · have htask := sortLinkNextExpireTime_spec (fun x hx => s.linksFit x (mem_append_left _ hx)) ht s.taskSorted
    have hswtmr := sortLinkNextExpireTime_spec (fun x hx => s.linksFit x (mem_append_right _ hx)) ht s.swtmrSorted
    have hexpire : s.currTime.toNat ≤ s.nextExpireTime ∧ s.nextExpireTime < 2 ^ 64 ∧
        ∀ first ∈ s.taskLink ++ s.swtmrLink,
          s.nextExpireTime ≤ max first (s.currTime.toNat + s.tickResponsePrecision.toNat) := by
      unfold SchedTimes.nextExpireTime
      dsimp only
      refine ⟨by split <;> omega, by split <;> omega, fun first hf => ?_⟩
      rcases mem_append.mp hf with hf | hf
      · have h := htask.2.2 first hf
        split <;> omega
      · have h := hswtmr.2.2 first hf
        split <;> omega
    -- what the code keeps to is below the bound
    have hbound : max s.currTime.toNat (min s.nextExpireTime (taskEndTime.toNat + s.schedTickMinPeriod.toNat)) +
        s.tickResponsePrecision.toNat ≤ s.latest taskEndTime := by
      unfold SchedTimes.latest
      dsimp only
      split
      · rename_i first hf
        have h := hexpire.2.2 first (min?_mem hf)
        omega
      · omega
    obtain ⟨hnow, hfar, -⟩ := hexpire
    unfold SchedTimes.Overdue SchedTimes.setNextExpireTime
    by_cases hslice : taskEndTime.toNat + s.schedTickMinPeriod.toNat < s.nextExpireTime
    · rw [nextResponseTime_slice hslice]
      by_cases hover : taskEndTime.toNat < s.currTime.toNat
      · have hset := tickSet_over hover ht s.currTime.toNat_lt s.tickPeriodMax.toNat_lt
        split <;> omega
      · have hset := @tickSet_le s.tickResponsePrecision.toNat s.tickPeriodMax.toNat _ _ (not_lt.mp hover) hE
        split <;> omega
    · rw [nextResponseTime_expire hslice]
      have hset := @tickSet_le s.tickResponsePrecision.toNat s.tickPeriodMax.toNat _ _ hnow hfar
      split <;> omega
  have hlt : s.setNextExpireTime taskEndTime < 2 ^ 64 := by
    unfold SchedTimes.setNextExpireTime nextResponseTime
    dsimp only
    have hset : ∀ next, tickSet s.tickResponsePrecision.toNat s.tickPeriodMax.toNat s.currTime.toNat next < 2 ^ 64 :=
      fun next => mod_lt _ (by omega)
    split
    all_goals
      split
      · exact hG
      · exact hset _
  refine iff_of_true (by omega) fun h => ?_
  obtain ⟨_, _, _, _, hlatest, hfit⟩ := h
  omega

/-- A slice that ended at 20000, looked at when the time is 30000: the tick is set a whole period later. -/
theorem responseTime_beyond_slice : ∃ s : SchedTimes,
    s.currTime = 30000 ∧ s.setNextExpireTime 20000 = 30000 + (2 ^ 24 - 1) ∧ s.latest 20000 = 30000 + 100 :=
  ⟨{ taskLink := [], swtmrLink := [], taskSorted := .nil, swtmrSorted := .nil, linksFit := fun _ h => absurd h nofun
     schedResponseTime := 0xFFFFFFFFFFFFFFFF, tickResponsePrecision := 100, schedTickMinPeriod := 50,
     tickPeriodMax := 0xFFFFFF, currTime := 30000 }, by decide +kernel⟩

end LiteosM.Kernel
