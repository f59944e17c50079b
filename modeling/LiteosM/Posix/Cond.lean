import LiteosM.Posix.Mutex
import Mathlib.Data.Set.Card

/-!
# The count of a condition variable

Model of one condition variable of `pthread_cond.c` that `pthread_cond_init` has set up, and of the threads
that call `pthread_cond_wait`, `pthread_cond_timedwait`, `pthread_cond_signal` and `pthread_cond_broadcast`,
in every interleaving. A section under `cond->mutex` is one step: `count` is touched nowhere else. The event
is a kernel event of which only `BROADCAST_EVENT` is ever written; a poll, the entry into its list and a
write are critical sections and so one step each. `count` is the 32 bits of a `volatile int`. The threads are
tasks, of which there are `LOSCFG_BASE_CORE_TSK_LIMIT` and the idle task.

Left out are the calls that return before they touch the condition variable, the second poll's answer, which
`pthread_cond_wait` does not look at, and `CondInitCheck`: a condition variable that was only assigned
`PTHREAD_COND_INITIALIZER` is set up by its first wait, under the mutex of the user, and the runs here begin
behind that.

Beside the variables of the source the state says which threads' shares are in `count`: `due` are those
that have counted themselves and have not been counted out, `promised` those that a signal or broadcast
has counted out and for which it has not written the event yet. A signal is called with the thread that it is
to count out, which no variable of the source depends on.

* **`cond_count_exact`**: once all threads have run, `count` is the number of blocked threads, and a
  `pthread_cond_signal` then writes the event if there is one. This needs that a timed wait does not return
  before it waits, and that the event goes to the threads that have been counted out for it and to nobody
  else.
-/

namespace LiteosM.Posix

open LiteosM.Lib List Option
open LiteosM.Kernel (taskMaxNum)

/-! ## The model -/

/-- `OsGetTickTimeFromNow`; `now` is the time of the clock in nanoseconds. -/
def getTickTimeFromNow (ts : Timespec) (now : Nat) : Except Errno Nat :=
  if ts.tvNsec < 0 ∨ ts.tvNsec ≥ nsPerSecond ∨ ts.tvSec < 0 then .error .einval
  else
    let nseconds := (ts.tvSec * nsPerSecond + ts.tvNsec).toNat % 2 ^ 64
    if now ≥ nseconds then .error .etimedout
    else .ok ((nseconds - now + 9999999) % 2 ^ 64 / 10000000 + 1)

/-- Where a thread is. -/
inductive CondPc where
  | out
  /-- before the section that counts the thread; `ts` is the time of `pthread_cond_timedwait` -/
  | enter (ts : Option Timespec)
  /-- before `OsGetTickTimeFromNow` -/
  | time (ts : Timespec)
  /-- before `pthread_mutex_unlock(mutex)` -/
  | unlock (timed : Bool)
  /-- before the poll of `LOS_EventRead` -/
  | read (timed : Bool)
  /-- in the list of the event -/
  | blocked (timed : Bool)
  /-- taken out of the list by `LOS_EventWrite`, before the second poll -/
  | woken
  /-- before `pthread_mutex_lock(mutex)`, with `PthreadCountSub` to come or not -/
  | lock (sub : Bool)
  /-- before the section of `PthreadCountSub` -/
  | sub
  /-- before the section of `pthread_cond_signal`, which is to count `who` out -/
  | signal (who : Nat)
  /-- before the section of `pthread_cond_broadcast` -/
  | broadcast
  /-- before `LOS_EventWrite` -/
  | write
  deriving DecidableEq, Repr

/-- The condition variable, the mutex of its users and the threads. -/
structure Cond where
  count : Nat
  event : Bool
  mutex : Option Nat
  pc : Nat → CondPc
  due : List Nat
  promised : List Nat

/-- The calls and the steps of the threads. -/
inductive CondLabel where
  /-- the thread calls `pthread_cond_wait`, or `pthread_cond_timedwait` -/
  | wait (t : Nat) (ts : Option Timespec)
  | signal (t who : Nat)
  | broadcast (t : Nat)
  /-- the thread locks or unlocks the mutex -/
  | lock (t : Nat)
  | unlock (t : Nat)
  /-- the thread makes its next step -/
  | run (t : Nat)
  /-- the thread finds this time in `OsGetTickTimeFromNow` -/
  | time (t now : Nat)
  /-- `LOS_EventRead` refuses to wait -/
  | refuse (t : Nat)
  /-- the time of the thread is over -/
  | expire (t : Nat)
  deriving DecidableEq, Repr

namespace Cond

/-- After `pthread_cond_init`. -/
def init : Cond where
  count := 0
  event := false
  mutex := none
  pc := fun _ => .out
  due := []
  promised := []

variable (s : Cond)

/-- Thread `t` goes to `pc`. -/
@[simp] def goto (t : Nat) (pc : CondPc) : Cond := { s with pc := Function.update s.pc t pc }

/-- `cond->count > 0`. -/
def Positive : Prop := 0 < s.count ∧ s.count < 2 ^ 31
  deriving Decidable

/-- The thread is counted. -/
@[simp] def counted (t : Nat) : Cond := { s with count := (s.count + 1) % 2 ^ 32, due := s.due ++ [t] }

/-- `PthreadCountSub`. -/
@[simp] def countSub (t : Nat) : Cond :=
  { s with count := if s.Positive then s.count - 1 else s.count, due := s.due.erase t }

/-- The share that a signal takes: that of `who` if it is in the count. -/
def share (who : Nat) : List Nat := if who ∈ s.due then [who] else s.due.take 1

/-- The section of `pthread_cond_signal`, with `count` positive. -/
@[simp] def countOne (who : Nat) : Cond :=
  { s with count := s.count - 1, due := s.due.diff (s.share who), promised := s.promised ++ s.share who }

/-- A timed wait returns, and nobody takes its count back. -/
def forgotten (t : Nat) : Cond := { s with due := s.due.erase t }

/-- `LOS_EventWrite`: every thread in the list is taken out. -/
@[simp] def eventWrite : Cond :=
  { s with
    event := true
    promised := []
    pc := fun u => match s.pc u with
      | .blocked _ => .woken
      | pc => pc }

/-- The next step of the thread. -/
def run (t : Nat) : Option Cond :=
  match s.pc t with
  | .out | .time _ | .blocked _ => none
  | .enter none => some ((s.counted t).goto t (.unlock false))
  | .enter (some ts) => some ((s.counted t).goto t (.time ts))
  | .unlock timed =>
    some ({ s with mutex := if s.mutex = some t then none else s.mutex }.goto t (.read timed))
  | .read timed =>
    if s.event then some ({ s with event := false }.goto t (.lock false))
    else some (s.goto t (.blocked timed))
  | .woken => some ({ s with event := false }.goto t (.lock false))
  | .lock sub =>
    if s.mutex = none then some ({ s with mutex := some t }.goto t (if sub then .sub else .out)) else none
  | .sub => some ((s.countSub t).goto t .out)
  | .signal who => if s.Positive then some ((s.countOne who).goto t .write) else some (s.goto t .out)
  | .broadcast =>
    if s.Positive then
      some ({ s with count := 0, due := [], promised := s.promised ++ s.due }.goto t .write)
    else some (s.goto t .out)
  | .write => some (s.eventWrite.goto t .out)

/-- `pthread_cond_timedwait` with the time it finds. -/
def takeTime (t now : Nat) : Option Cond :=
  match s.pc t with
  | .time ts =>
    match getTickTimeFromNow ts now with
    | .error _ => some ((s.forgotten t).goto t .out)
    | .ok absTicks =>
      if absTicks ≥ 2 ^ 32 - 1 then some ((s.forgotten t).goto t .out) else some (s.goto t (.unlock true))
  | _ => none

/-- What a label does. -/
def move : CondLabel → Option Cond
  | .wait t ts => if s.pc t = .out then some (s.goto t (.enter ts)) else none
  | .signal t who => if s.pc t = .out then some (s.goto t (.signal who)) else none
  | .broadcast t => if s.pc t = .out then some (s.goto t .broadcast) else none
  | .lock t => if s.pc t = .out ∧ s.mutex = none then some { s with mutex := some t } else none
  | .unlock t => if s.pc t = .out ∧ s.mutex = some t then some { s with mutex := none } else none
  | .run t => s.run t
  | .time t now => s.takeTime t now
  | .refuse t =>
    match s.pc t with
    | .read _ => some (s.goto t (.lock true))
    | _ => none
  | .expire t => if s.pc t = .blocked true then some (s.goto t (.lock true)) else none

end Cond

/-- The thread of a step. -/
@[simp] def CondLabel.thread : CondLabel → Nat
  | .wait t _ | .signal t _ | .broadcast t | .lock t | .unlock t | .run t | .time t _ | .refuse t |
      .expire t => t

/-- One step, of a thread that is a task. -/
def Cond.step (s : Cond) (l : CondLabel) : Option Cond := if l.thread < taskMaxNum then s.move l else none

/-- The share of a thread here can be in the count. -/
def CondPc.counts : CondPc → Bool
  | .time _ | .unlock _ | .read _ | .blocked _ | .lock true | .sub => true
  | .out | .enter _ | .woken | .lock false | .signal _ | .broadcast | .write => false

/-- The step begins a wait of the thread. -/
def CondLabel.Begins (t : Nat) : CondLabel → Prop
  | .wait u _ => u = t
  | _ => False

/-! ## What a step does -/

/-- A step sends its thread to `pc`, and this is what it does beside that: most steps touch neither the
count nor the other threads. -/
inductive Cond.Next (s : Cond) : CondLabel → Cond → CondPc → Prop
  | quiet {l s1 pc} (hsame : (s1.pc, s1.count, s1.due, s1.promised) = (s.pc, s.count, s.due, s.promised))
      (hold : s.pc l.thread ≠ .write) (hblocked : ∀ timed, pc ≠ .blocked timed)
      (hcounts : (s.pc l.thread).counts = true → pc.counts = true)
      (henter : ∀ ts, pc = .enter ts → l.Begins l.thread) : Next s l s1 pc
  | enter {t ts pc} (hpc : s.pc t = .enter ts) (hnew : pc = .unlock false ∨ ∃ ts, pc = .time ts) :
      Next s (.run t) (s.counted t) pc
  | found {t timed} (hpc : s.pc t = .read timed) (hev : s.event = true) :
      Next s (.run t) { s with event := false } (.lock false)
  | block {t timed} (hpc : s.pc t = .read timed) (hev : s.event = false) :
      Next s (.run t) s (.blocked timed)
  | sub {t} (hpc : s.pc t = .sub) : Next s (.run t) (s.countSub t) .out
  | signal {t who} (hpc : s.pc t = .signal who) (hcount : s.Positive) :
      Next s (.run t) (s.countOne who) .write
  | broadcast {t} (hpc : s.pc t = .broadcast) (hcount : s.Positive) :
      Next s (.run t) { s with count := 0, due := [], promised := s.promised ++ s.due } .write
  | write {t} (hpc : s.pc t = .write) : Next s (.run t) s.eventWrite .out
  | late {t now ts} (hpc : s.pc t = .time ts)
      (hlate : (getTickTimeFromNow ts now).toOption.any (· < 2 ^ 32 - 1) = false) :
      Next s (.time t now) (s.forgotten t) .out

section
variable {s s1 s' : Cond} {t : Nat} {pc : CondPc} {l : CondLabel}

/-- A step of a thread that is at `old` and goes to `pc`. -/
theorem Cond.Next.move {old : CondPc} (hpc : s.pc l.thread = old)
    (hsame : (s1.pc, s1.count, s1.due, s1.promised) = (s.pc, s.count, s.due, s.promised) := by rfl)
    (hold : old ≠ .write := by simp) (hblocked : ∀ timed, pc ≠ .blocked timed := by simp)
    (hcounts : old.counts = true → pc.counts = true := by simp [CondPc.counts])
    (henter : ∀ ts, pc = .enter ts → l.Begins l.thread := by simp [CondLabel.Begins]) : s.Next l s1 pc :=
  .quiet hsame (hpc ▸ hold) hblocked (hpc ▸ hcounts) henter

theorem Cond.run_next (hrun : s.run t = some s') : ∃ s1 pc, s' = s1.goto t pc ∧ s.Next (.run t) s1 pc := by
  unfold Cond.run at hrun
  generalize hpc : s.pc t = old at hrun
  cases old with
  | out | time | blocked => cases hrun
  | enter ts =>
    cases ts with
    | none => exact ⟨_, _, (some.inj hrun).symm, .enter hpc (.inl rfl)⟩
    | some ts => exact ⟨_, _, (some.inj hrun).symm, .enter hpc (.inr ⟨ts, rfl⟩)⟩
  | unlock | woken => exact ⟨_, _, (some.inj hrun).symm, .move hpc⟩
  | read timed =>
    dsimp only at hrun
    split_ifs at hrun with hev
    · exact ⟨_, _, (some.inj hrun).symm, .found hpc hev⟩
    · exact ⟨_, _, (some.inj hrun).symm, .block hpc (eq_false_of_ne_true hev)⟩
  | lock sub =>
    refine ⟨_, _, (some.inj (ite_none_right_eq_some.mp hrun).2).symm, ?_⟩
    cases sub <;> exact .move hpc
  | sub => exact ⟨_, _, (some.inj hrun).symm, .sub hpc⟩
  | signal who =>
    dsimp only at hrun
    split_ifs at hrun with hc
    · exact ⟨_, _, (some.inj hrun).symm, .signal hpc hc⟩
    · exact ⟨_, _, (some.inj hrun).symm, .move hpc⟩
  | broadcast =>
    dsimp only at hrun
    split_ifs at hrun with hc
    · exact ⟨_, _, (some.inj hrun).symm, .broadcast hpc hc⟩
    · exact ⟨_, _, (some.inj hrun).symm, .move hpc⟩
  | write => exact ⟨_, _, (some.inj hrun).symm, .write hpc⟩

theorem Cond.takeTime_next {now : Nat} (h : s.takeTime t now = some s') :
    ∃ s1 pc, s' = s1.goto t pc ∧ s.Next (.time t now) s1 pc := by
  unfold takeTime at h
  cases hpc : s.pc t <;> simp only [hpc, reduceCtorEq] at h
  rename_i ts
  cases hticks : getTickTimeFromNow ts now with
  | error e =>
    simp only [hticks, some.injEq] at h
    exact ⟨_, _, h.symm, .late hpc (by rw [hticks]; rfl)⟩
  | ok absTicks =>
    simp only [hticks] at h
    split_ifs at h with hlate
    · exact ⟨_, _, (some.inj h).symm, .late hpc (by rw [hticks]; exact decide_eq_false (by omega))⟩
    · exact ⟨_, _, (some.inj h).symm, .move hpc⟩

theorem Cond.eq_goto (hpc : s.pc t = pc) : s = s.goto t pc := by
  rw [goto, ← hpc, Function.update_eq_self]

theorem Cond.step_next (hstep : s.step l = some s') : ∃ s1 pc, s' = s1.goto l.thread pc ∧ s.Next l s1 pc := by
  obtain ⟨-, hstep⟩ := ite_none_right_eq_some.mp hstep
  cases l with
  | wait | signal | broadcast | expire =>
    simp only [Cond.move, ite_none_right_eq_some, some.injEq] at hstep
    exact ⟨_, _, hstep.2.symm, .move hstep.1⟩
  | lock t | unlock t =>
    simp only [Cond.move, ite_none_right_eq_some, some.injEq] at hstep
    obtain ⟨⟨hout, -⟩, rfl⟩ := hstep
    exact ⟨_, .out, eq_goto hout, .move hout⟩
  | run t => exact run_next hstep
  | time t now => exact takeTime_next hstep
  | refuse t =>
    unfold Cond.move at hstep
    cases hpc : s.pc t <;> simp only [hpc, reduceCtorEq, some.injEq] at hstep
    exact ⟨_, _, hstep.symm, .move hpc⟩

/-- The share of a signal is in the count, and the rest stays there. -/
theorem Cond.mem_share {u : Nat} (who : Nat) (hu : u ∈ s.due) : u ∈ s.due.diff (s.share who) ∨ u ∈ s.share who := by
  by_cases hshare : u ∈ s.share who
  · exact .inr hshare
  · exact .inl (mem_diff_of_mem hu hshare)

theorem Cond.length_diff_share (who : Nat) : (s.due.diff (s.share who)).length = s.due.length - 1 := by
  unfold share
  split_ifs with hwho
  · rw [diff_cons, diff_nil, length_erase_of_mem hwho]
  · cases s.due with
    | nil => rfl
    | cons u due => simp [diff_cons]

end

/-! ## Promises

A thread in the list of the event is still in the count, or an event is to be written for it. This holds as
long as no thread goes to wait that has been counted out. -/

section
variable {s s1 s' : Cond} {t : Nat} {pc : CondPc}

theorem Cond.goto_pc_self (s : Cond) (t : Nat) (pc : CondPc) : (s.goto t pc).pc t = pc :=
  Function.update_self ..

theorem Cond.goto_pc_of_ne (s : Cond) {t u : Nat} (pc : CondPc) (h : u ≠ t) : (s.goto t pc).pc u = s.pc u :=
  Function.update_of_ne h ..

/-- A thread that is still blocked is waited for or promised a wake-up, and a promise has its writer. -/
structure Promises (s : Cond) : Prop where
  blocked : ∀ t timed, s.pc t = .blocked timed → t ∈ s.due ∨ t ∈ s.promised
  pending : s.promised ≠ [] → ∃ u, s.pc u = .write

/-- A thread goes on, and nobody else loses share and promise. -/
theorem Promises.goto (h : Promises s) (hpc : s1.pc = s.pc)
    (hkept : ∀ u ≠ t, u ∈ s.due ∨ u ∈ s.promised → u ∈ s1.due ∨ u ∈ s1.promised)
    (hself : ∀ timed, pc = .blocked timed → t ∈ s1.due ∨ t ∈ s1.promised)
    (hpending : pc = .write ∨ s1.promised = s.promised ∧ s.pc t ≠ .write) :
    Promises (s1.goto t pc) := by
  constructor
  · intro u timed hu
    by_cases hut : u = t
    · rw [hut, Cond.goto_pc_self] at hu
      rw [hut]
      exact hself timed hu
    · rw [Cond.goto_pc_of_ne _ _ hut, hpc] at hu
      exact hkept u hut (h.blocked u timed hu)
  intro hne
  rcases hpending with rfl | ⟨heq, hnw⟩
  · exact ⟨t, Cond.goto_pc_self ..⟩
  obtain ⟨u, hu⟩ := h.pending (by rwa [← heq])
  have hut : u ≠ t := by
    rintro rfl
    exact hnw hu
  exact ⟨u, by rw [Cond.goto_pc_of_ne _ _ hut, hpc, hu]⟩

/-- A thread goes on without touching shares and promises. -/
theorem Promises.move (h : Promises s) (hpc : s1.pc = s.pc) (hdue : s1.due = s.due)
    (hpromised : s1.promised = s.promised) (hold : s.pc t ≠ .write)
    (hself : ∀ timed, pc = .blocked timed → t ∈ s.due ∨ t ∈ s.promised) : Promises (s1.goto t pc) :=
  h.goto hpc (fun _ _ hu => by rwa [hdue, hpromised]) (by rwa [hdue, hpromised]) (.inr ⟨hpromised, hold⟩)

/-- A thread that goes to wait is in the count, or its event is still to be written. -/
def PollKept (s : Cond) : CondLabel → Prop
  | .run t =>
    match s.pc t with
    | .read _ => s.event = true ∨ t ∈ s.due ∨ t ∈ s.promised
    | _ => True
  | _ => True

theorem promises_eventWrite (s : Cond) (t : Nat) : Promises (s.eventWrite.goto t .out) := by
  have hnone : ∀ u timed, (s.eventWrite.goto t .out).pc u ≠ .blocked timed := by
    intro u timed hu
    by_cases hut : u = t
    · simp [hut] at hu
    rw [Cond.goto_pc_of_ne _ _ hut] at hu
    simp only [Cond.eventWrite] at hu
    split at hu
    · cases hu
    · next hnb => exact hnb timed hu
  exact ⟨fun u timed hu => absurd hu (hnone u timed), fun hne => absurd rfl hne⟩

variable {l : CondLabel}

theorem Promises.step (h : Promises s) (hok : PollKept s l) (hstep : s.step l = some s') :
    Promises s' := by
  obtain ⟨s1, pc, rfl, hnext⟩ := Cond.step_next hstep
  cases hnext with
  | quiet hsame hold hblocked =>
    simp only [Prod.mk.injEq] at hsame
    exact h.move hsame.1 hsame.2.2.1 hsame.2.2.2 hold fun timed hc => absurd hc (hblocked timed)
  | enter hpc hnew =>
    refine h.goto rfl ?_ (by rcases hnew with rfl | ⟨_, rfl⟩ <;> simp) (.inr ⟨rfl, by simp [hpc]⟩)
    rintro u - (hu | hu)
    · exact .inl (mem_append_left _ hu)
    · exact .inr hu
  | found hpc => exact h.move rfl rfl rfl (by simp [hpc]) (by simp)
  | block hpc hev => exact h.move rfl rfl rfl (by simp [hpc]) (by simpa [PollKept, hpc, hev] using hok)
  | sub hpc | late hpc =>
    refine h.goto rfl ?_ (by simp) (.inr ⟨rfl, by simp [hpc]⟩)
    intro u hut hu
    exact hu.imp_left (mem_erase_of_ne hut).mpr
  | @signal _ who =>
    refine h.goto rfl ?_ (by simp) (.inl rfl)
    rintro u - (hu | hu)
    · exact (Cond.mem_share who hu).imp_right (mem_append_right _)
    · exact .inr (mem_append_left _ hu)
  | broadcast =>
    refine h.goto rfl ?_ (by simp) (.inl rfl)
    rintro u - (hu | hu)
    · exact .inr (mem_append_right _ hu)
    · exact .inr (mem_append_left _ hu)
  | write => exact promises_eventWrite s _

theorem promises_init : Promises .init :=
  ⟨fun _ _ h => CondPc.noConfusion h, fun h => absurd rfl h⟩

/-! ## Shares -/

/-- The count is made of the shares that are due. -/
structure Shares (s : Cond) : Prop where
  count : s.count = s.due.length
  nodup : s.due.Nodup
  pc : ∀ t ∈ s.due, t < taskMaxNum ∧ (s.pc t).counts = true

/-- There are not more shares than tasks. -/
theorem Shares.length_le (h : Shares s) : s.due.length ≤ taskMaxNum := by
  have hsub : s.due ⊆ range taskMaxNum := fun t ht => mem_range.mpr (h.pc t ht).1
  have hle := (subperm_of_subset h.nodup hsub).length_le
  rwa [length_range] at hle

theorem Shares.positive_iff (h : Shares s) : s.Positive ↔ s.due ≠ [] := by
  have hle := h.length_le
  unfold Cond.Positive
  rw [h.count, ← length_pos_iff]
  unfold taskMaxNum at hle
  omega

theorem Shares.goto (h : Shares s) (hpc : s1.pc = s.pc) (hcount : s1.count = s1.due.length)
    (hnodup : s1.due.Nodup) (hdue : ∀ u ∈ s1.due, u ≠ t → u ∈ s.due)
    (hself : t ∈ s1.due → t < taskMaxNum ∧ pc.counts = true) : Shares (s1.goto t pc) := by
  refine ⟨hcount, hnodup, ?_⟩
  intro u hu
  by_cases hut : u = t
  · rw [hut] at hu
    rw [hut, Cond.goto_pc_self]
    exact hself hu
  · rw [Cond.goto_pc_of_ne _ _ hut, hpc]
    exact h.pc u (hdue u hu hut)

theorem Shares.move (h : Shares s) (hpc : s1.pc = s.pc) (hcount : s1.count = s.count)
    (hdue : s1.due = s.due) (hself : (s.pc t).counts = true → pc.counts = true) :
    Shares (s1.goto t pc) :=
  h.goto hpc (by rw [hcount, hdue, h.count]) (hdue ▸ h.nodup) (fun u hu _ => by rwa [hdue] at hu)
    (fun ht => (h.pc t (by rwa [hdue] at ht)).imp_right hself)

/-- The event goes to the threads that have been counted out for it, and to nobody else. A thread that finds
the event is not in the count, and one that goes to wait is, unless its event is still to be written; at a
write no thread in the list is in the count; what `PthreadCountSub` takes is the thread's own share. And a
timed wait finds a time to come. -/
def Accounts (s : Cond) : CondLabel → Prop
  | .run t =>
    match s.pc t with
    | .read _ => (s.event = true → t ∉ s.due) ∧ (s.event = false → t ∈ s.due ∨ t ∈ s.promised)
    | .sub => s.count = 0 ∨ t ∈ s.due
    | .write => ∀ u ∈ s.due, s.pc u ≠ .blocked false ∧ s.pc u ≠ .blocked true
    | _ => True
  | .time t now =>
    match s.pc t with
    | .time ts => (getTickTimeFromNow ts now).toOption.any (· < 2 ^ 32 - 1) = true
    | _ => True
  | _ => True

theorem Accounts.pollKept (h : Accounts s l) : PollKept s l := by
  cases l with
  | run t =>
    unfold Accounts at h
    unfold PollKept
    cases hpc : s.pc t <;> simp only [hpc] at h ⊢
    cases hev : s.event with
    | false => exact .inr (h.2 hev)
    | true => exact .inl rfl
  | _ => trivial

theorem Shares.eventWrite (h : Shares s) (hpc : s.pc t = .write)
    (hok : ∀ u ∈ s.due, s.pc u ≠ .blocked false ∧ s.pc u ≠ .blocked true) :
    Shares (s.eventWrite.goto t .out) := by
  refine ⟨h.count, h.nodup, ?_⟩
  intro u hu
  obtain ⟨hlt, hcounts⟩ := h.pc u hu
  have hut : u ≠ t := by
    rintro rfl
    rw [hpc] at hcounts
    cases hcounts
  rw [Cond.goto_pc_of_ne _ _ hut]
  simp only [Cond.eventWrite]
  split
  · next timed hb => cases timed <;> simp [hok u hu] at hb
  · exact ⟨hlt, hcounts⟩

theorem Shares.step (h : Shares s) (hok : Accounts s l) (hstep : s.step l = some s') :
    Shares s' := by
  have hout : ∀ t, (s.pc t).counts = false → t ∉ s.due := by
    intro t hc ht
    simp [h.pc t ht] at hc
  have hlt := (ite_none_right_eq_some.mp hstep).1
  have hle := h.length_le
  obtain ⟨s1, pc, rfl, hnext⟩ := Cond.step_next hstep
  cases hnext with
  | quiet hsame _ _ hcounts =>
    simp only [Prod.mk.injEq] at hsame
    exact h.move hsame.1 hsame.2.1 hsame.2.2.1 hcounts
  | @enter t ts pc hpc hnew =>
    have hnot : t ∉ s.due := hout t (hpc ▸ rfl)
    refine h.goto rfl ?_ ?_ ?_ fun _ => ⟨hlt, ?_⟩
    · simp only [Cond.counted, h.count, length_append, length_singleton]
      unfold taskMaxNum at hle
      omega
    · exact nodup_append.mpr ⟨h.nodup, nodup_singleton t, by
        rintro u hu v hv rfl
        exact hnot (mem_singleton.mp hv ▸ hu)⟩
    · intro u hu hut
      simpa [show u ≠ t from hut] using hu
    · rcases hnew with rfl | ⟨_, rfl⟩ <;> rfl
  | found hpc hev =>
    simp only [Accounts, hpc] at hok
    exact h.goto rfl h.count h.nodup (fun _ hu _ => hu) fun ht => absurd ht (hok.1 hev)
  | block => exact h.move rfl rfl rfl fun _ => rfl
  | @sub t hpc =>
    simp only [Accounts, hpc] at hok
    refine h.goto rfl ?_ (h.nodup.erase t) (fun u hu _ => mem_of_mem_erase hu)
      fun ht => absurd ht h.nodup.not_mem_erase
    rcases hok with hzero | ht
    · have hnil : s.due = [] := eq_nil_of_length_eq_zero (by rw [← h.count, hzero])
      simp [hzero, hnil]
    · simp only [Cond.countSub, if_pos (h.positive_iff.mpr (ne_nil_of_mem ht)), length_erase_of_mem ht, h.count]
  | @signal t who hpc =>
    have hsub : s.due.diff (s.share who) ⊆ s.due := diff_subset _ _
    refine h.goto rfl ?_ (h.nodup.diff) (fun u hu _ => hsub hu) fun ht => absurd (hsub ht) (hout _ (hpc ▸ rfl))
    simp only [Cond.countOne, Cond.length_diff_share, h.count]
  | broadcast => exact h.goto rfl rfl nodup_nil (by simp) (by simp)
  | write hpc =>
    simp only [Accounts, hpc] at hok
    exact h.eventWrite hpc hok
  | late hpc hlate =>
    simp only [Accounts, hpc] at hok
    exact absurd hok (by rw [hlate]; simp)

theorem shares_init : Shares .init :=
  ⟨rfl, nodup_nil, fun _ h => absurd h not_mem_nil⟩

/-! ## Once all threads have run -/

/-- The thread is in the list of the event. -/
def Cond.Blocked (s : Cond) (t : Nat) : Prop := ∃ timed, s.pc t = .blocked timed

/-- Every thread is blocked on the condition variable or not in one of its calls. -/
def Cond.Settled (s : Cond) : Prop := ∀ t, s.pc t = .out ∨ s.Blocked t

theorem Promises.none_of_settled (h : Promises s) (hsettled : s.Settled) : s.promised = [] := by
  by_contra hne
  obtain ⟨u, hu⟩ := h.pending hne
  rcases hsettled u with hout | ⟨timed, hb⟩
  · simp [hu] at hout
  · simp [hu] at hb

/-- The threads in the count are those in the list. -/
theorem mem_due_iff (hp : Promises s) (hs : Shares s) (hsettled : s.Settled) (t : Nat) :
    t ∈ s.due ↔ s.Blocked t := by
  constructor
  · intro ht
    refine (hsettled t).resolve_left fun hout => ?_
    have := (hs.pc t ht).2
    rw [hout] at this
    cases this
  · rintro ⟨timed, hb⟩
    refine (hp.blocked t timed hb).resolve_right fun hprom => ?_
    simp [hp.none_of_settled hsettled] at hprom

end

/-- In every run in which a timed wait finds a time to come and the event goes to the threads that have been
counted out for it and to nobody else: once all threads have run, `count` is the number of threads that
are blocked, and a signal while one is writes the event. -/
theorem cond_count_exact (run : List CondLabel) (s : Cond) (hok : Guarded Cond.step Accounts .init run)
    (hexec : exec Cond.step .init run = some s) (hsettled : s.Settled) :
    Set.encard {t | s.Blocked t} = s.count ∧
      ∀ u who s', (∃ t, s.Blocked t) → exec Cond.step s [.signal u who, .run u] = some s' → s'.pc u = .write := by
  have hp : Promises s := exec_inv_guarded
    (fun _ _ _ h hok hstep => Promises.step h (Accounts.pollKept hok) hstep) promises_init hok hexec
  have hs : Shares s := exec_inv_guarded (fun _ _ _ h hok hstep => Shares.step h hok hstep)
    shares_init hok hexec
  have hset : {t | s.Blocked t} = (s.due.toFinset : Set Nat) := by
    ext t
    simp [← mem_due_iff hp hs hsettled t]
  refine ⟨?_, ?_⟩
  · rw [hset, Set.encard_coe_eq_coe_finsetCard, toFinset_card_of_nodup hs.nodup, hs.count]
  rintro u who s' ⟨t, ht⟩ hsignal
  have hpos : s.Positive := hs.positive_iff.mpr (ne_nil_of_mem ((mem_due_iff hp hs hsettled t).mpr ht))
  obtain ⟨s1, hcall, hrun⟩ := exec_cons.mp hsignal
  obtain ⟨s2, hrun, hnil⟩ := exec_cons.mp hrun
  obtain ⟨-, hcall⟩ := ite_none_right_eq_some.mp hcall
  obtain ⟨-, hrun⟩ := ite_none_right_eq_some.mp hrun
  obtain ⟨-, ⟨⟩⟩ := ite_none_right_eq_some.mp hcall
  have hpc : (s.goto u (.signal who)).pc u = .signal who := Cond.goto_pc_self ..
  have hcount : (s.goto u (.signal who)).Positive := hpos
  simp only [Cond.move, Cond.run, hpc, if_pos hcount, some.injEq] at hrun
  rw [← some.inj hnil, ← hrun]
  exact Cond.goto_pc_self ..

instance decidableAccounts (s : Cond) (l : CondLabel) : Decidable (Accounts s l) := by
  cases l <;> unfold Accounts <;> dsimp only <;> first | infer_instance | (split <;> infer_instance)

/-- Thread 1 waits, a broadcast of thread 2 wakes it, and it waits again. -/
def waitsAgain : List CondLabel :=
  [.wait 1 none, .run 1, .run 1, .run 1, .broadcast 2, .run 2, .run 2, .run 1, .run 1, .unlock 1,
    .wait 1 none, .run 1, .run 1, .run 1]

theorem cond_count_exact_waitsAgain :
    ∃ s, exec Cond.step .init waitsAgain = some s ∧ s.Blocked 1 ∧
      Set.encard {t | s.Blocked t} = s.count := by
  obtain ⟨s, hs⟩ : ∃ s, exec Cond.step .init waitsAgain = some s := ⟨_, rfl⟩
  have hpc : ∀ t, s.pc t = if t = 1 then .blocked false else .out := by
    intro t
    cases hs
    by_cases h1 : t = 1
    · rw [h1]
      rfl
    by_cases h2 : t = 2
    · rw [h2]
      rfl
    · simp [Cond.init, h1, h2]
  have hsettled : s.Settled := by
    intro t
    by_cases ht : t = 1
    · exact .inr ⟨false, by simp [hpc, ht]⟩
    · exact .inl (by simp [hpc, ht])
  exact ⟨s, hs, ⟨false, by simp [hpc]⟩, (cond_count_exact waitsAgain s (by decide +kernel) hs hsettled).1⟩

/-- A timed wait whose time is over stays in the count; a signal wakes two threads and counts one out; and a
thread that has timed out, which a broadcast has counted out, takes the share of a thread that waits. -/
theorem cond_count_not_exact : (exec Cond.step .init [.wait 1 (some ⟨0, 0⟩), .run 1, .time 1 0]).any
        (fun s => decide (s.count = 1 ∧ s.pc 1 = .out)) = true ∧
      (exec Cond.step .init [.wait 1 none, .run 1, .run 1, .run 1, .wait 2 none, .run 2, .run 2, .run 2,
          .signal 3 1, .run 3, .run 3, .run 1, .run 1, .unlock 1, .run 2, .run 2]).any
        (fun s => decide (s.count = 1 ∧ s.pc 1 = .out ∧ s.pc 2 = .out ∧ s.pc 3 = .out)) = true ∧
      (exec Cond.step .init [.wait 1 (some ⟨100, 0⟩), .run 1, .time 1 0, .run 1, .run 1, .wait 3 none,
          .run 3, .run 3, .run 3, .expire 1, .broadcast 4, .run 4, .run 4, .run 3, .run 3, .unlock 3,
          .wait 2 none, .run 2, .run 2, .run 2, .run 1, .run 1]).any
        (fun s => decide (s.count = 0 ∧ s.pc 1 = .out ∧ s.pc 2 = .blocked false ∧ s.pc 3 = .out ∧
          s.pc 4 = .out)) = true := by
  decide +kernel

end LiteosM.Posix
