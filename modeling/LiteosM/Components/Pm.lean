import LiteosM.Kernel.Swtmr
import Mathlib.Algebra.GroupWithZero.Nat

/-!
# Power locks

Model of the locks of `los_pm.c`. `OsPmLockRequest` and the first part of `LOS_PmLockRelease` are one step
each: their critical section, with the read of `head->pstNext` that stands before `LOS_IntLock` in the source
(`Components.PmTimed` takes it apart). `LOS_PmTimeLockRequest` creates a software timer, takes the lock and
starts the timer, whose handler gives the lock back by its name; between these sections other tasks run. The
software timers are those of `Kernel.Swtmr`. A name is a number, and the argument of a timer is its name.

What the release of the last lock tells the event of `los_pm.c` is left out.

* `Pm.lockRequest_cases`, `Pm.lockRelease_cases`: what the sections do;
* **`pm_lock_accounted`**: in every run in which no request finds `pm->lock` at its maximum, `pm->lock` is
  the sum of the counts. A request that does find it there reports an error and raises the count of its
  name all the same.
-/

namespace LiteosM.Components

open LiteosM.Lib LiteosM.Kernel Function List Option

/-- `OS_PM_LOCK_MAX`. -/
def pmLockMax : Nat := 0xFFFF

/-- The address of `OsPmSwtmrHandler`. -/
def pmSwtmrHandler : Nat := 1

/-- `OsPmLockCB`. -/
structure PmLock where
  name : Nat
  count : Nat
  swtmrID : Nat
  deriving DecidableEq, Repr

/-- `pm->lock` and `pm->lockList`. -/
structure Pm where
  lock : Nat
  lockList : List PmLock
  deriving DecidableEq, Repr

/-- What the calls answer. -/
inductive PmRet where
  | ok
  | nok
  | notLock
  | alreadyLock
  | invalidParam
  | swtmr (ret : SwtmrRet)
  deriving DecidableEq, Repr

/-- The count of the first lock with the name is set. -/
def setCount (name count : Nat) : List PmLock → List PmLock
  | [] => []
  | l :: ls => if l.name = name then { l with count := count } :: ls else l :: setCount name count ls

namespace Pm

variable (s : Pm)

/-- The loop that looks for a name. -/
def find (name : Nat) : Option PmLock := s.lockList.find? fun l => l.name = name

/-- `OsPmLockRequest`; `alloc` says whether there is memory. -/
def lockRequest (name swtmrID : Nat) (alloc : Bool) : Pm × PmRet :=
  match s.find name with
  | none =>
    if alloc = false then (s, .nok)
    else
      let lockList := s.lockList ++ [⟨name, 1, swtmrID⟩]
      if s.lock < pmLockMax then (⟨s.lock + 1, lockList⟩, .ok) else (⟨s.lock, lockList⟩, .notLock)
  | some l =>
    let count := if l.count < pmLockMax then l.count + 1 else l.count
    if l.swtmrID ≠ osInvalid ∧ count > 1 then (⟨s.lock, setCount name (count - 1) s.lockList⟩, .alreadyLock)
    else
      let lockList := setCount name count s.lockList
      if s.lock < pmLockMax then (⟨s.lock + 1, lockList⟩, .ok) else (⟨s.lock, lockList⟩, .notLock)

/-- `LOS_PmLockRelease` up to `LOS_IntRestore`; the last component is the `swtmrID` of the lock that is to
be freed. -/
def lockRelease (name : Nat) : Pm × PmRet × Option Nat :=
  match s.find name with
  | none => (s, .notLock, none)
  | some l =>
    let lockFree := if l.count = 1 then some l.swtmrID else none
    let lockList :=
      if l.count = 0 then s.lockList
      else if l.count = 1 then s.lockList.eraseP fun l => l.name = name
      else setCount name (l.count - 1) s.lockList
    if s.lock > 0 then (⟨s.lock - 1, lockList⟩, .ok, lockFree) else (⟨s.lock, lockList⟩, .notLock, lockFree)

end Pm

/-- The ticks that `LOS_PmTimeLockRequest` waits. -/
def pmTicks (millisecond : UInt64) : UInt32 := ((millisecond + 10 - 1) / 10).toUInt32

/-! ## What the sections do -/

/-- `pm->lock` is the sum of the counts, and every name has one lock. -/
structure Accounted (s : Pm) : Prop where
  sum : s.lock = (s.lockList.map PmLock.count).sum
  names : (s.lockList.map PmLock.name).Nodup
  count : ∀ l ∈ s.lockList, 1 ≤ l.count

/-- The same, with what the requests see to: a lock with a timer is taken once. -/
structure Locks (s : Pm) : Prop extends Accounted s where
  max : s.lock ≤ pmLockMax
  timed : ∀ l ∈ s.lockList, l.swtmrID ≠ osInvalid → l.count = 1

/-- A request for the name does not find `pm->lock` at its maximum, or it changes nothing. -/
def Pm.Fits (s : Pm) (name : Nat) (alloc : Bool) : Prop :=
  match s.find name with
  | none => alloc = true → s.lock < pmLockMax
  | some l => l.swtmrID = osInvalid → l.count < pmLockMax → s.lock < pmLockMax

instance Pm.decidableFits (s : Pm) (name : Nat) (alloc : Bool) : Decidable (s.Fits name alloc) := by
  unfold Fits
  repeat' split
  all_goals infer_instance

section
variable {s : Pm} {name swtmrID n : Nat} {alloc : Bool} {l : PmLock}

/-- Where the lock of a name is. -/
theorem Pm.find_some (h : s.find name = some l) :
    l.name = name ∧ ∃ pre post, s.lockList = pre ++ l :: post ∧ ∀ x ∈ pre, x.name ≠ name := by
  obtain ⟨hname, pre, post, hlist, hpre⟩ := find?_eq_some_iff_append.mp h
  exact ⟨of_decide_eq_true hname, pre, post, hlist, fun x hx => by simpa using hpre x hx⟩

theorem Pm.find_none (h : s.find name = none) : name ∉ s.lockList.map PmLock.name := by
  intro hmem
  obtain ⟨l, hl, hname⟩ := mem_map.mp hmem
  exact absurd hname (by simpa using find?_eq_none.mp h l hl)

theorem setCount_append {pre post : List PmLock} (hname : l.name = name) (hpre : ∀ x ∈ pre, x.name ≠ name) :
    setCount name n (pre ++ l :: post) = pre ++ { l with count := n } :: post := by
  induction pre with
  | nil => rw [nil_append, setCount, if_pos hname, nil_append]
  | cons x pre ih =>
    rw [cons_append, setCount, if_neg (hpre x mem_cons_self),
      ih fun y hy => hpre y (mem_cons_of_mem _ hy), cons_append]

theorem eraseP_append {pre post : List PmLock} (hname : l.name = name) (hpre : ∀ x ∈ pre, x.name ≠ name) :
    (pre ++ l :: post).eraseP (fun x => x.name = name) = pre ++ post := by
  rw [eraseP_append_right _ fun x hx => by simpa using hpre x hx,
    eraseP_cons_of_pos (by simpa using hname)]

theorem setCount_self (h : s.find name = some l) : setCount name l.count s.lockList = s.lockList := by
  obtain ⟨hname, pre, post, hlist, hpre⟩ := Pm.find_some h
  rw [hlist, setCount_append hname hpre]

theorem Accounted.count_le (h : Accounted s) (hfind : s.find name = some l) : l.count ≤ s.lock := by
  obtain ⟨-, pre, post, hlist, -⟩ := Pm.find_some hfind
  rw [h.sum, hlist, map_append, map_cons, sum_append, sum_cons]
  omega

/-- The count of one lock changes, and `pm->lock` with it. -/
theorem Locks.setCount (h : Locks s) (hfind : s.find name = some l) {lock : Nat} (hn : 1 ≤ n)
    (hlock : lock + l.count = s.lock + n) (hmax : lock ≤ pmLockMax) (htimed : l.swtmrID = osInvalid) :
    Locks ⟨lock, setCount name n s.lockList⟩ := by
  obtain ⟨hname, pre, post, hlist, hpre⟩ := Pm.find_some hfind
  have hsum := h.sum
  have hnames := h.names
  rw [hlist] at hsum hnames
  have hmem : ∀ x ∈ pre ++ { l with count := n } :: post, x = { l with count := n } ∨ x ∈ s.lockList := by
    intro x hx
    rw [hlist]
    rcases mem_append.mp hx with hx | hx
    · exact .inr (mem_append_left _ hx)
    · rcases mem_cons.mp hx with hx | hx
      · exact .inl hx
      · exact .inr (mem_append_right _ (mem_cons_of_mem _ hx))
  refine ⟨⟨?_, ?_, ?_⟩, hmax, ?_⟩ <;> dsimp only <;> rw [hlist, setCount_append hname hpre]
  · simp only [map_append, map_cons, sum_append, sum_cons] at hsum ⊢
    omega
  · simpa using hnames
  · intro x hx
    rcases hmem x hx with rfl | hx
    · exact hn
    · exact h.count x hx
  intro x hx hid
  rcases hmem x hx with rfl | hx
  · exact absurd htimed hid
  · exact h.timed x hx hid

/-- A lock is added. -/
theorem Locks.added (h : Locks s) (hfind : s.find name = none) (hlock : s.lock < pmLockMax) :
    Locks ⟨s.lock + 1, s.lockList ++ [⟨name, 1, swtmrID⟩]⟩ := by
  refine ⟨⟨?_, ?_, ?_⟩, hlock, ?_⟩ <;> dsimp only
  · rw [map_append, sum_append, ← h.sum, map_singleton, sum_singleton]
  · rw [map_append, map_singleton, ← concat_eq_append, nodup_concat]
    exact ⟨Pm.find_none hfind, h.names⟩
  · intro x hx
    rcases mem_append.mp hx with hx | hx
    · exact h.count x hx
    · rw [mem_singleton.mp hx]
  intro x hx hid
  rcases mem_append.mp hx with hx | hx
  · exact h.timed x hx hid
  · rw [mem_singleton.mp hx]

/-- A lock is deleted. -/
theorem Locks.deleted (h : Locks s) (hfind : s.find name = some l) (hcount : l.count = 1) :
    Locks ⟨s.lock - 1, s.lockList.eraseP fun l => l.name = name⟩ := by
  obtain ⟨hname, pre, post, hlist, hpre⟩ := Pm.find_some hfind
  have hsub : s.lockList.eraseP (fun l => l.name = name) ⊆ s.lockList := eraseP_subset
  refine ⟨⟨?_, h.names.sublist (eraseP_sublist.map _), fun x hx => h.count x (hsub hx)⟩,
    (Nat.sub_le _ _).trans h.max, fun x hx => h.timed x (hsub hx)⟩
  have hsum := h.sum
  rw [hlist] at hsum
  rw [hlist, eraseP_append hname hpre]
  simp only [map_append, map_cons, sum_append, sum_cons] at hsum ⊢
  omega

/-- What a request does that finds room: it reports an error and changes nothing, it adds a lock, or it
takes one without a timer once more. -/
theorem Pm.lockRequest_cases (h : Locks s) (hfits : s.Fits name alloc) :
    (∃ r, r ≠ .ok ∧ s.lockRequest name swtmrID alloc = (s, r)) ∨
    (s.find name = none ∧ s.lock < pmLockMax ∧
      s.lockRequest name swtmrID alloc = (⟨s.lock + 1, s.lockList ++ [⟨name, 1, swtmrID⟩]⟩, .ok)) ∨
    ∃ l, s.find name = some l ∧ l.swtmrID = osInvalid ∧ s.lock < pmLockMax ∧
      s.lockRequest name swtmrID alloc = (⟨s.lock + 1, setCount name (l.count + 1) s.lockList⟩, .ok) := by
  unfold Pm.Fits at hfits
  unfold Pm.lockRequest
  cases hfind : s.find name with
  | none =>
    rw [hfind] at hfits
    cases alloc with
    | false => exact .inl ⟨.nok, by decide, rfl⟩
    | true =>
      have hlock := hfits rfl
      exact .inr (.inl ⟨rfl, hlock, by rw [if_neg (by decide), if_pos hlock]⟩)
  | some l =>
    rw [hfind] at hfits
    dsimp only at hfits ⊢
    have hle := h.count_le hfind
    by_cases hid : l.swtmrID = osInvalid
    · rw [if_neg fun hc => hc.1 hid]
      by_cases hcount : l.count < pmLockMax
      · have hlock := hfits hid hcount
        exact .inr (.inr ⟨l, rfl, hid, hlock, by rw [if_pos hcount, if_pos hlock]⟩)
      · refine .inl ⟨.notLock, by decide, ?_⟩
        rw [if_neg hcount, setCount_self hfind, if_neg (by omega)]
    have hone := h.timed l (mem_of_find?_eq_some hfind) hid
    refine .inl ⟨.alreadyLock, by decide, ?_⟩
    have hset : PmLock.count l + 1 - 1 = l.count := rfl
    rw [if_pos (show l.count < pmLockMax by rw [hone]; decide), if_pos ⟨hid, by omega⟩, hset,
      setCount_self hfind]

/-- A request that does not find room reports an error and changes the counts. -/
theorem Pm.lockRequest_full (hfits : ¬ s.Fits name alloc) :
    (s.lockRequest name swtmrID alloc).2 = .notLock ∧ (s.lockRequest name swtmrID alloc).1 ≠ s := by
  unfold Pm.Fits at hfits
  unfold Pm.lockRequest
  cases hfind : s.find name with
  | none =>
    rw [hfind] at hfits
    obtain ⟨halloc, hlock⟩ := Classical.not_imp.mp hfits
    rw [if_neg (by rw [halloc]; decide), if_neg hlock]
    refine ⟨rfl, fun heq => ?_⟩
    have hlen := congrArg (fun p => p.lockList.length) heq
    simp only [length_append, length_singleton] at hlen
    omega
  | some l =>
    rw [hfind] at hfits
    dsimp only at hfits ⊢
    obtain ⟨hid, hfits⟩ := Classical.not_imp.mp hfits
    obtain ⟨hcount, hlock⟩ := Classical.not_imp.mp hfits
    rw [if_neg fun hc => hc.1 hid, if_pos hcount, if_neg hlock]
    refine ⟨rfl, fun heq => ?_⟩
    obtain ⟨hname, pre, post, hlist, hpre⟩ := Pm.find_some hfind
    have hsum := congrArg (fun p => (p.lockList.map PmLock.count).sum) heq
    rw [hlist, setCount_append hname hpre] at hsum
    simp only [map_append, map_cons, sum_append, sum_cons] at hsum
    omega

/-- What a release does: without a lock of the name it reports an error, the last one deletes the lock. -/
theorem Pm.lockRelease_cases (h : Locks s) :
    (s.find name = none ∧ s.lockRelease name = (s, .notLock, none)) ∨
    (∃ l, s.find name = some l ∧ l.count = 1 ∧ s.lockRelease name =
        (⟨s.lock - 1, s.lockList.eraseP fun l => l.name = name⟩, .ok, some l.swtmrID)) ∨
    ∃ l, s.find name = some l ∧ 1 < l.count ∧
      s.lockRelease name = (⟨s.lock - 1, setCount name (l.count - 1) s.lockList⟩, .ok, none) := by
  unfold Pm.lockRelease
  cases hfind : s.find name with
  | none => exact .inl ⟨rfl, rfl⟩
  | some l =>
    have hle := h.count_le hfind
    have hpos := h.count l (mem_of_find?_eq_some hfind)
    have hlock : s.lock > 0 := by omega
    dsimp only
    by_cases hcount : l.count = 1
    · exact .inr (.inl ⟨l, rfl, hcount, by
        rw [if_pos hcount, if_neg (show ¬ l.count = 0 by omega), if_pos hcount, if_pos hlock]⟩)
    · exact .inr (.inr ⟨l, rfl, by omega, by
        rw [if_neg hcount, if_neg (show ¬ l.count = 0 by omega), if_neg hcount, if_pos hlock]⟩)

theorem Locks.lockRequest (h : Locks s) (hfits : s.Fits name alloc) :
    Locks (s.lockRequest name swtmrID alloc).1 := by
  rcases @Pm.lockRequest_cases _ _ swtmrID _ h hfits with
    ⟨r, -, heq⟩ | ⟨hfind, hlock, heq⟩ | ⟨l, hfind, hid, hlock, heq⟩ <;> rw [heq]
  · exact h
  · exact h.added hfind hlock
  · exact h.setCount hfind (Nat.le_add_left _ _) (by omega) hlock hid

theorem Locks.lockRelease (h : Locks s) : Locks (s.lockRelease name).1 := by
  rcases @Pm.lockRelease_cases _ name h with
    ⟨-, heq⟩ | ⟨l, hfind, hcount, heq⟩ | ⟨l, hfind, hcount, heq⟩ <;> rw [heq]
  · exact h
  · exact h.deleted hfind hcount
  have hle := h.count_le hfind
  refine h.setCount hfind (by omega) (by omega) ((Nat.sub_le _ _).trans h.max) ?_
  by_contra hid
  have hone := h.timed l (mem_of_find?_eq_some hfind) hid
  omega

theorem Pm.lockRelease_lockRequest (h : Locks s) (hfits : s.Fits name alloc)
    (hok : (s.lockRequest name swtmrID alloc).2 = .ok) :
    ((s.lockRequest name swtmrID alloc).1.lockRelease name).1 = s := by
  have hafter : Locks (s.lockRequest name swtmrID alloc).1 := h.lockRequest hfits
  rcases @Pm.lockRequest_cases _ _ swtmrID _ h hfits with
    ⟨r, hr, heq⟩ | ⟨hfind, -, heq⟩ | ⟨l, hfind, -, -, heq⟩
  · rw [heq] at hok
    exact absurd hok hr
  · have hpre : ∀ x ∈ s.lockList, x.name ≠ name := fun x hx hname =>
      Pm.find_none hfind (mem_map.mpr ⟨x, hx, hname⟩)
    have hnew : Pm.find ⟨s.lock + 1, s.lockList ++ [⟨name, 1, swtmrID⟩]⟩ name = some ⟨name, 1, swtmrID⟩ :=
      find?_eq_some_iff_append.mpr
        ⟨decide_eq_true rfl, s.lockList, [], rfl, fun x hx => by simpa using hpre x hx⟩
    rw [heq] at hafter ⊢
    rcases @Pm.lockRelease_cases _ name hafter with ⟨hfree, -⟩ | ⟨l, -, -, hrel⟩ | ⟨l, hl, hcount, -⟩
    · simp [hnew] at hfree
    · rw [hrel]
      simp only [eraseP_append (l := ⟨name, 1, swtmrID⟩) rfl hpre, append_nil, Nat.add_sub_cancel]
    · rw [hnew] at hl
      cases hl
      exact absurd hcount (Nat.lt_irrefl 1)
  obtain ⟨hname, pre, post, hlist, hpre⟩ := Pm.find_some hfind
  have hpos := h.count l (mem_of_find?_eq_some hfind)
  have hset : setCount name (l.count + 1) s.lockList = pre ++ { l with count := l.count + 1 } :: post := by
    rw [hlist, setCount_append hname hpre]
  have hnew : Pm.find ⟨s.lock + 1, setCount name (l.count + 1) s.lockList⟩ name =
      some { l with count := l.count + 1 } :=
    find?_eq_some_iff_append.mpr
      ⟨decide_eq_true hname, pre, post, hset, fun x hx => by simpa using hpre x hx⟩
  rw [heq] at hafter ⊢
  rcases @Pm.lockRelease_cases _ name hafter with ⟨hfree, -⟩ | ⟨l', hl, hcount, -⟩ | ⟨l', hl, -, hrel⟩
  · simp [hnew] at hfree
  · rw [hnew] at hl
    cases hl
    exact absurd hcount (by dsimp only; omega)
  rw [hnew] at hl
  cases hl
  rw [hrel, hset]
  simp only [setCount_append (l := { l with count := l.count + 1 }) hname hpre, Nat.add_sub_cancel]
  rw [← hlist]

end

/-- What a step does to the locks: a request, with the timer of a timed one, or a release, with the timer
on whose behalf it is made. -/
inductive PmAct where
  | request (name : Nat) (swtmrID : Option Nat) (alloc : Bool)
  | release (name : Nat) (swtmrID : Option Nat)
  | none

/-- The state after what a step does to the locks. -/
def Pm.act (s : Pm) : PmAct → Pm
  | .request name swtmrID alloc => (s.lockRequest name (swtmrID.getD osInvalid) alloc).1
  | .release name _ => (s.lockRelease name).1
  | .none => s

/-- A request finds room. -/
def Pm.ActFits (s : Pm) : PmAct → Prop
  | .request name _ alloc => s.Fits name alloc
  | _ => True

instance Pm.decidableActFits (s : Pm) : (a : PmAct) → Decidable (s.ActFits a)
  | .request name _ alloc => inferInstanceAs (Decidable (s.Fits name alloc))
  | .release _ _ | .none => .isTrue trivial

theorem Locks.act {s : Pm} {a : PmAct} (h : Locks s) (hfits : s.ActFits a) : Locks (s.act a) := by
  cases a with
  | request name id alloc => exact h.lockRequest hfits
  | release name id => exact h.lockRelease
  | none => exact h

/-! ## The system -/

/-- Where a task is in its call. -/
inductive PmPc where
  | idle
  /-- `LOS_PmTimeLockRequest` has created its timer. -/
  | created (name swtmrID : Nat)
  /-- `OsPmLockRequest` has failed, and the timer is to be deleted. -/
  | refused (swtmrID : Nat) (ret : PmRet)
  /-- The lock is taken, and the timer is to be started. -/
  | locked (name swtmrID : Nat)
  /-- The timer was not started, and the lock is to be released. -/
  | failed (name swtmrID : Nat) (ret : PmRet)
  /-- The timer of a lock that was deleted is to be deleted. -/
  | deleting (swtmrID : Nat) (ret : PmRet)
  deriving DecidableEq, Repr

/-- The locks, the timers and the tasks. Task 0 is `OsSwtmrTask`. -/
structure PmSystem where
  pm : Pm
  swtmr : Swtmr
  pc : Nat → PmPc
  /-- What the last call of each task has returned. -/
  ret : Nat → PmRet

/-- The steps of the tasks and of the timers. -/
inductive PmLabel where
  | request (t : Nat) (name : Option Nat) (alloc : Bool)
  | timeRequest (t : Nat) (name : Option Nat) (millisecond : UInt64)
  | release (t : Nat) (name : Option Nat)
  /-- The next section of the call of a task. -/
  | run (t : Nat) (alloc : Bool)
  /-- A step of the software timers that is none of the code of `los_pm.c`. -/
  | timer (op : SwtmrOp)
  /-- `OsSwtmrTask` calls `OsPmSwtmrHandler`. -/
  | handler
  deriving DecidableEq

namespace PmSystem

variable (s : PmSystem)

/-- Task `t` goes to `pc`. -/
def setPc (t : Nat) (pc : PmPc) : PmSystem := { s with pc := update s.pc t pc }

/-- The call of the task is over. -/
def returned (t : Nat) (ret : PmRet) : PmSystem :=
  { s with pc := update s.pc t .idle, ret := update s.ret t ret }

/-- The section of `LOS_PmLockRelease`, in a call that returns `ret` of its result. -/
def releaseLock (t name : Nat) (ret : PmRet → PmRet) : PmSystem :=
  match s.pm.lockRelease name with
  | (pm, r, none) => { s with pm := pm }.returned t (ret r)
  | (pm, r, some swtmrID) => { s with pm := pm }.setPc t (.deleting swtmrID (ret r))

/-- What the software timers do without `los_pm.c`: its handler is of no other timer, and `OsSwtmrTask`
goes on when the handler has returned. -/
def foreign : SwtmrOp → Bool
  | .create _ _ handler _ _ => handler.toNat ≠ pmSwtmrHandler
  | .taskRead | .taskCheck => s.pc 0 = .idle
  | .taskCall =>
    match s.swtmr.pc with
    | .calling item => s.pc 0 = .idle ∧ item.handler ≠ pmSwtmrHandler
    | _ => false
  | _ => true

/-- The next section of the call of `t`. -/
def runSection (t : Nat) (alloc : Bool) : Option PmSystem :=
  match s.pc t with
  | .idle => none
  | .created name swtmrID =>
    match s.pm.lockRequest name swtmrID alloc with
    | (pm, .ok) => some ({ s with pm := pm }.setPc t (.locked name swtmrID))
    | (pm, ret) => some ({ s with pm := pm }.setPc t (.refused swtmrID ret))
  | .refused swtmrID ret | .deleting swtmrID ret =>
    some ({ s with swtmr := (s.swtmr.losSwtmrDelete swtmrID).1 }.returned t ret)
  | .locked name swtmrID =>
    match s.swtmr.losSwtmrStart swtmrID with
    | (swtmr, .ok) => some ({ s with swtmr := swtmr }.returned t .ok)
    | (swtmr, ret) => some ({ s with swtmr := swtmr }.setPc t (.failed name swtmrID (.swtmr ret)))
  | .failed name _ ret => some (s.releaseLock t name fun _ => ret)

/-- One step; `none` when the task is not there, or the timers cannot make it. -/
def step : PmLabel → Option PmSystem
  | .request t name alloc =>
    if s.pc t ≠ .idle then none
    else
      match name with
      | none => some (s.returned t .invalidParam)
      | some name =>
        let r := s.pm.lockRequest name osInvalid alloc
        some ({ s with pm := r.1 }.returned t r.2)
  | .timeRequest t name millisecond =>
    if s.pc t ≠ .idle then none
    else
      match name with
      | none => some (s.returned t .invalidParam)
      | some name =>
        if millisecond = 0 then some (s.returned t .invalidParam)
        else
          match s.swtmr.swtmrCreate (pmTicks millisecond) (some .once) pmSwtmrHandler name true with
          | (swtmr, .ok, swtmrID) => some ({ s with swtmr := swtmr }.setPc t (.created name swtmrID))
          | (swtmr, ret, _) => some ({ s with swtmr := swtmr }.returned t (.swtmr ret))
  | .release t name =>
    if s.pc t ≠ .idle then none
    else
      match name with
      | none => some (s.returned t .invalidParam)
      | some name => some (s.releaseLock t name id)
  | .run t alloc => s.runSection t alloc
  | .timer op => if s.foreign op then (s.swtmr.step op).map fun swtmr => { s with swtmr := swtmr } else none
  | .handler =>
    match s.swtmr.pc with
    | .calling item =>
      if s.pc 0 = .idle ∧ item.handler = pmSwtmrHandler then
        some ({ s with swtmr := { s.swtmr with pc := .reading } }.releaseLock 0 item.arg id)
      else none
    | _ => none

/-- `OsPmInit`, with the software timers as they are after `OsSwtmrInit`. -/
def init (sysClock : UInt32) : PmSystem where
  pm := ⟨0, []⟩
  swtmr := Swtmr.init sysClock
  pc := fun _ => .idle
  ret := fun _ => .ok

/-- One more section of the call, if there is one. -/
def more (t : Nat) (alloc : Bool) (s : PmSystem) : PmSystem := (s.runSection t alloc).getD s

/-- The call of `t` to its end, when no other task runs. -/
def complete (t : Nat) (alloc : Bool) : PmSystem :=
  (more t alloc)^[4] s

/-- What a step does to the locks. -/
def act : PmLabel → PmAct
  | .request _ (some name) alloc => .request name none alloc
  | .release _ (some name) => .release name none
  | .run t alloc =>
    match s.pc t with
    | .created name swtmrID => .request name (some swtmrID) alloc
    | .failed name swtmrID _ => .release name (some swtmrID)
    | _ => .none
  | .handler =>
    match s.swtmr.pc with
    | .calling item => .release item.arg (some item.swtmrID)
    | _ => .none
  | _ => .none

/-- A step that requests a lock finds room for it. -/
def Fits (s : PmSystem) (l : PmLabel) : Prop := s.pm.ActFits (s.act l)
  deriving Decidable

section
variable {s s' : PmSystem} {t name : Nat} {alloc : Bool} {l : PmLabel} {f : PmRet → PmRet}

@[simp] theorem setPc_pc {pc : PmPc} : (s.setPc t pc).pc t = pc := update_self ..

@[simp] theorem returned_pc {r : PmRet} : (s.returned t r).pc t = .idle := update_self ..

@[simp] theorem returned_ret {r : PmRet} : (s.returned t r).ret t = r := update_self ..

theorem releaseLock_pm : (s.releaseLock t name f).pm = (s.pm.lockRelease name).1 := by
  unfold releaseLock
  rcases s.pm.lockRelease name with ⟨pm, r, _ | id⟩ <;> rfl

theorem runSection_pm (h : s.runSection t alloc = some s') : s'.pm = s.pm.act (s.act (.run t alloc)) := by
  unfold runSection at h
  cases hpc : s.pc t <;> rw [hpc] at h <;> simp only [act, hpc] <;> dsimp only at h
  case idle => cases h
  case created name id =>
    unfold Pm.act
    split at h <;> rename_i heq <;> cases h <;> simp [setPc, heq]
  case locked name id => split at h <;> cases h <;> rfl
  case failed name id r =>
    cases h
    exact releaseLock_pm
  all_goals
    cases h
    rfl

/-- **A step changes the locks by its action only.** -/
theorem step_pm (h : s.step l = some s') : s'.pm = s.pm.act (s.act l) := by
  cases l with
  | request t name alloc =>
    obtain ⟨-, h⟩ := ite_none_left_eq_some.mp h
    cases name <;> cases h <;> rfl
  | timeRequest t name ms =>
    obtain ⟨-, h⟩ := ite_none_left_eq_some.mp h
    cases name with
    | none => cases h; rfl
    | some name =>
      dsimp only at h
      split at h
      · cases h
        rfl
      · split at h <;> cases h <;> rfl
  | release t name =>
    obtain ⟨-, h⟩ := ite_none_left_eq_some.mp h
    cases name <;> cases h
    · rfl
    · exact releaseLock_pm
  | run t alloc => exact runSection_pm h
  | timer op =>
    obtain ⟨-, h⟩ := ite_none_right_eq_some.mp h
    obtain ⟨w, -, rfl⟩ := map_eq_some_iff.mp h
    rfl
  | handler =>
    simp only [step] at h
    split at h
    case h_1 item hpc =>
      obtain ⟨-, rfl⟩ := guarded_inj h
      simp only [act, hpc]
      exact releaseLock_pm
    case h_2 => cases h

/-! ## Uninterrupted calls -/

theorem more_idle (hpc : s.pc t = .idle) (n : Nat) : (more t alloc)^[n] s = s := by
  refine iterate_fixed ?_ n
  unfold more runSection
  rw [hpc]
  rfl

theorem more_deleting {id : Nat} {r : PmRet} (hpc : s.pc t = .refused id r ∨ s.pc t = .deleting id r) (n : Nat) :
    ((more t alloc)^[n + 1] s).pm = s.pm ∧ ((more t alloc)^[n + 1] s).ret t = r := by
  have hone : more t alloc s = { s with swtmr := (s.swtmr.losSwtmrDelete id).1 }.returned t r := by
    unfold more runSection
    rcases hpc with hpc | hpc <;> rw [hpc] <;> rfl
  rw [iterate_succ_apply, hone, more_idle returned_pc]
  exact ⟨rfl, returned_ret⟩

theorem more_releaseLock (n : Nat) :
    ((more t alloc)^[n + 1] (s.releaseLock t name f)).pm = (s.pm.lockRelease name).1 ∧
    ((more t alloc)^[n + 1] (s.releaseLock t name f)).ret t = f (s.pm.lockRelease name).2.1 := by
  unfold releaseLock
  rcases s.pm.lockRelease name with ⟨pm, r, _ | id⟩ <;> dsimp only
  · rw [more_idle returned_pc]
    exact ⟨rfl, returned_ret⟩
  · exact more_deleting (.inr setPc_pc) n

/-- The rest of a call that has taken its lock: the timer is started, or the lock is released. -/
theorem more_locked {id : Nat} (hpc : s.pc t = .locked name id) (n : Nat) :
    ((more t alloc)^[n + 3] s).pm = s.pm ∧ ((more t alloc)^[n + 3] s).ret t = .ok ∨
    ((more t alloc)^[n + 3] s).pm = (s.pm.lockRelease name).1 := by
  have hone : more t alloc s = (s.runSection t alloc).getD s := rfl
  unfold runSection at hone
  rw [hpc] at hone
  dsimp only at hone
  rw [iterate_succ_apply, hone]
  split
  · rw [getD_some, more_idle returned_pc]
    exact .inl ⟨rfl, returned_ret⟩
  right
  rename_i swtmr r _ _
  have htwo : more t alloc ({ s with swtmr := swtmr }.setPc t (.failed name id (.swtmr r))) =
      ({ s with swtmr := swtmr }.setPc t (.failed name id (.swtmr r))).releaseLock t name
        fun _ => .swtmr r := by
    unfold more runSection
    rw [setPc_pc]
    rfl
  rw [getD_some, iterate_succ_apply, htwo]
  exact (more_releaseLock n).1

/-- An error of a request leaves the locks as they are, exactly when it finds room. -/
theorem lockRequest_keeps_iff {s : Pm} {id : Nat} (h : Locks s) :
    ((s.lockRequest name id alloc).2 ≠ .ok → (s.lockRequest name id alloc).1 = s) ↔ s.Fits name alloc := by
  constructor
  · intro hkeep
    by_contra hfits
    obtain ⟨hret, hne⟩ := @Pm.lockRequest_full _ _ id _ hfits
    exact hne (hkeep (by rw [hret]; decide))
  intro hfits hret
  rcases @Pm.lockRequest_cases _ _ id _ h hfits with ⟨r, -, heq⟩ | ⟨-, -, heq⟩ | ⟨l, -, -, -, heq⟩
  · rw [heq]
  · exact absurd (by rw [heq]) hret
  · exact absurd (by rw [heq]) hret

/-- The rest of a timed request that has created its timer. -/
theorem more_created {id : Nat} (h : Locks s.pm) (hpc : s.pc t = .created name id) :
    (((more t alloc)^[4] s).ret t ≠ .ok → ((more t alloc)^[4] s).pm = s.pm) ↔ s.pm.Fits name alloc := by
  have hone : more t alloc s = (s.runSection t alloc).getD s := rfl
  unfold runSection at hone
  rw [hpc] at hone
  dsimp only at hone
  rw [← @lockRequest_keeps_iff _ _ _ id h, iterate_succ_apply, hone]
  split
  · -- The lock is taken; if the timer cannot be started, the release undoes the request.
    rename_i pm heq
    refine iff_of_true (fun hret => ?_) fun hret => absurd (by rw [heq]) hret
    rcases @more_locked ({ s with pm := pm }.setPc t (.locked name id)) t name alloc id
      setPc_pc 0 with ⟨-, hok⟩ | hpm
    · exact absurd hok hret
    have hfits : s.pm.Fits name alloc := by
      by_contra hfits
      have hret := (@Pm.lockRequest_full _ _ id _ hfits).1
      simp [heq] at hret
    have hundo := @Pm.lockRelease_lockRequest _ _ id _ h hfits (by rw [heq])
    rw [heq] at hundo
    exact hpm.trans hundo
  rename_i pm r hne heq
  obtain ⟨hpm, hret⟩ := @more_deleting ({ s with pm := pm }.setPc t (.refused id r)) t alloc id r
    (.inl setPc_pc) 2
  rw [getD_some, hpm, hret, heq]
  rfl

/-! ## The accounting -/

/-- The task whose call a label begins. -/
def caller : PmLabel → Option Nat
  | .request t _ _ | .timeRequest t _ _ | .release t _ => some t
  | _ => none

/-- A call that returns an error has left the locks as they were. -/
def ErrorKeeps (s : PmSystem) (call : PmLabel) (t : Nat) (alloc : Bool) : Prop :=
  ∀ s', s.step call = some s' → (s'.complete t alloc).ret t ≠ .ok → (s'.complete t alloc).pm = s.pm

theorem fits_idle (hpc : s.pc t = .idle) : s.Fits (.run t alloc) := by
  simp only [Fits, act, hpc, Pm.ActFits]

/-- A call that is over after its first section. -/
theorem errorKeeps_returned {pm : Pm} {w : Swtmr} {r : PmRet}
    (hstep : s.step l = some (returned ⟨pm, w, s.pc, s.ret⟩ t r)) :
    (s.ErrorKeeps l t alloc ↔ (r ≠ .ok → pm = s.pm)) ∧
    (Guarded step Fits s [l, .run t alloc] ↔ s.Fits l) := by
  constructor
  · unfold ErrorKeeps complete
    simp only [hstep, some.injEq, forall_eq', more_idle returned_pc, returned_ret]
    rfl
  refine and_iff_left fun s' hs' => ⟨?_, fun _ _ => trivial⟩
  rw [hstep] at hs'
  cases hs'
  exact fits_idle returned_pc

/-- The same for an error that comes before the locks are looked at. -/
theorem errorKeeps_early {w : Swtmr} {r : PmRet} (hact : s.act l = .none)
    (hstep : s.step l = some (returned ⟨s.pm, w, s.pc, s.ret⟩ t r)) :
    s.ErrorKeeps l t alloc ↔ Guarded step Fits s [l, .run t alloc] := by
  obtain ⟨hkeeps, hguard⟩ := @errorKeeps_returned s t alloc l s.pm w r hstep
  rw [hkeeps, hguard]
  refine iff_of_true (fun _ => rfl) ?_
  rw [Fits, hact]
  exact trivial

section
variable (h : Locks s.pm) (hpc : s.pc t = .idle)
include h hpc

theorem errorKeeps_timeRequest {name : Option Nat} {ms : UInt64} :
    s.ErrorKeeps (.timeRequest t name ms) t alloc ↔
      Guarded step Fits s [.timeRequest t name ms, .run t alloc] := by
  have hstep : s.step (.timeRequest t name ms) = _ := if_neg (not_not_intro hpc)
  cases name with
  | none => exact errorKeeps_early rfl hstep
  | some name =>
    dsimp only at hstep
    split at hstep
    · exact errorKeeps_early rfl hstep
    split at hstep
    · rename_i w id _
      have hcreated : ({ s with swtmr := w }.setPc t (.created name id)).pc t = .created name id := setPc_pc
      have hcond : Guarded step Fits s [.timeRequest t (some name) ms, .run t alloc] ↔
          s.pm.Fits name alloc := by
        simp only [Guarded, hstep, some.injEq, forall_eq', implies_true, and_true]
        simp only [Fits, act, hcreated, Pm.ActFits, true_and]
        rfl
      have hkeeps := @more_created ({ s with swtmr := w }.setPc t (.created name id)) t name alloc id h hcreated
      rw [hcond]
      unfold ErrorKeeps
      simp only [hstep, some.injEq, forall_eq']
      exact hkeeps
    · exact errorKeeps_early rfl hstep

theorem errorKeeps_release {name : Option Nat} :
    s.ErrorKeeps (.release t name) t alloc ↔ Guarded step Fits s [.release t name, .run t alloc] := by
  have hstep : s.step (.release t name) = _ := if_neg (not_not_intro hpc)
  cases name with
  | none => exact errorKeeps_early rfl hstep
  | some name =>
    refine iff_of_true ?_ ⟨trivial, fun s' hs' => ⟨?_, fun _ _ => trivial⟩⟩
    · intro s' hs' hret
      rw [hstep] at hs'
      cases hs'
      unfold complete at hret ⊢
      obtain ⟨hpm, hr⟩ := @more_releaseLock s t name alloc id 3
      rw [hpm]
      rw [hr] at hret
      rcases @Pm.lockRelease_cases _ name h with ⟨-, heq⟩ | ⟨l, -, -, heq⟩ | ⟨l, -, -, heq⟩ <;> rw [heq] at hret ⊢
      · exact absurd rfl hret
      · exact absurd rfl hret
    rw [hstep] at hs'
    cases hs'
    unfold releaseLock
    rcases s.pm.lockRelease name with ⟨pm, r, _ | id⟩
    · exact fits_idle returned_pc
    · simp only [Fits, act, setPc_pc, Pm.ActFits]

theorem errorKeeps_iff (hl : caller l = some t) :
    s.ErrorKeeps l t alloc ↔ Guarded step Fits s [l, .run t alloc] := by
  cases l with
  | request u name alloc' =>
    obtain rfl : u = t := some.inj hl
    have hstep : s.step (.request u name alloc') = _ := if_neg (not_not_intro hpc)
    cases name with
    | none => exact errorKeeps_early rfl hstep
    | some name =>
      obtain ⟨hkeeps, hguard⟩ := @errorKeeps_returned s u alloc (.request u (some name) alloc')
        (s.pm.lockRequest name osInvalid alloc').1 s.swtmr _ hstep
      rw [hkeeps, hguard]
      exact lockRequest_keeps_iff h
  | timeRequest u name ms =>
    obtain rfl : u = t := some.inj hl
    exact errorKeeps_timeRequest h hpc
  | release u name =>
    obtain rfl : u = t := some.inj hl
    exact errorKeeps_release h hpc
  | run | timer | handler => cases hl

end

theorem locks_step (h : Locks s.pm) (hfits : s.Fits l) (hstep : s.step l = some s') : Locks s'.pm := by
  rw [step_pm hstep]
  exact h.act hfits

theorem locks_init (sysClock : UInt32) : Locks (init sysClock).pm :=
  ⟨⟨rfl, nodup_nil, fun _ h => absurd h not_mem_nil⟩, Nat.zero_le _,
    fun _ h => absurd h not_mem_nil⟩

theorem locks_run {sysClock : UInt32} {ls : List PmLabel} (hok : Guarded step Fits (init sysClock) ls)
    (hrun : exec step (init sysClock) ls = some s) : Locks s.pm :=
  @exec_inv_guarded _ _ step (fun s => Locks s.pm) Fits (fun _ _ _ h hok hstep => locks_step h hok hstep) _ _ _
    (locks_init sysClock) hok hrun

end

end PmSystem

/-- **Power lock accounting**: in every run in which every request finds room, `pm->lock` is the sum of the
counts of the locks, which have different names and counts from 1 on; and from there a call that returns an
error leaves the locks as they are, exactly when it finds room itself. -/
theorem pm_lock_accounted {sysClock : UInt32} {ls : List PmLabel} {s : PmSystem}
    (hok : Guarded PmSystem.step PmSystem.Fits (.init sysClock) ls)
    (hrun : exec PmSystem.step (.init sysClock) ls = some s) :
    Accounted s.pm ∧ ∀ call t alloc, s.pc t = .idle → PmSystem.caller call = some t →
      (s.ErrorKeeps call t alloc ↔ Guarded PmSystem.step PmSystem.Fits s [call, .run t alloc]) :=
  have hlocks := PmSystem.locks_run hok hrun
  ⟨hlocks.toAccounted, fun _ _ _ hpc hcall => PmSystem.errorKeeps_iff hlocks hpc hcall⟩

/-- A lock is taken, taken for 20 ms as well and given back by the timer. -/
def timedLock : List PmLabel :=
  [.request 1 (some 0) true, .timeRequest 1 (some 0) 20, .run 1 true, .run 1 true, .timer (.clock 2),
    .timer .scan, .timer .taskRead, .timer .taskCheck, .handler]

theorem pm_lock_accounted_timedLock :
    ∃ s, exec PmSystem.step (.init 100) timedLock = some s ∧ s.pm = ⟨1, [⟨0, 1, osInvalid⟩]⟩ ∧
      Accounted s.pm ∧ s.ErrorKeeps (.request 1 (some 1) false) 1 true := by
  obtain ⟨s, hs, hpm, hpc⟩ : ∃ s, exec PmSystem.step (.init 100) timedLock = some s ∧
      s.pm = ⟨1, [⟨0, 1, osInvalid⟩]⟩ ∧ s.pc 1 = .idle := ⟨_, rfl, rfl, rfl⟩
  obtain ⟨hacc, hkeeps⟩ := pm_lock_accounted (by decide +kernel) hs
  refine ⟨s, hs, hpm, hacc, (hkeeps _ 1 _ hpc rfl).mpr ⟨?_, fun s' hs' => ⟨?_, fun _ _ => trivial⟩⟩⟩
  · simp only [PmSystem.Fits, PmSystem.act, hpm]
    decide
  · simp only [PmSystem.step, hpc, ne_eq, not_true_eq_false, if_false, some.injEq] at hs'
    rw [← hs']
    exact PmSystem.fits_idle PmSystem.returned_pc

/-- One task takes the lock of one name again and again. -/
theorem requests_run (sysClock : UInt32) {n : Nat} (hn : n < pmLockMax) :
    ∃ s, exec PmSystem.step (.init sysClock) (replicate (n + 1) (.request 1 (some 0) true)) = some s ∧
      s.pm = ⟨n + 1, [⟨0, n + 1, osInvalid⟩]⟩ ∧ s.pc 1 = .idle := by
  induction n with
  | zero => exact ⟨_, rfl, rfl, rfl⟩
  | succ n ih =>
    obtain ⟨s, hs, hpm, hpc⟩ := ih (by omega)
    rw [replicate_succ']
    refine ⟨_, exec_append.mpr ⟨s, hs, exec_cons.mpr ⟨_, if_neg (not_not_intro hpc), exec_nil _⟩⟩, ?_,
      PmSystem.returned_pc⟩
    change (s.pm.lockRequest 0 osInvalid true).1 = _
    rw [hpm]
    unfold Pm.lockRequest
    simp [Pm.find, hn, setCount]

/-- With `pm->lock` at its maximum, a request for another name reports an error and adds a lock. -/
theorem pm_lock_unaccounted : ∃ s, exec PmSystem.step (.init 100)
        (replicate 0xFFFF (.request 1 (some 0) true) ++ [.request 1 (some 1) true]) = some s ∧
      s.ret 1 = .notLock ∧ s.pm = ⟨0xFFFF, [⟨0, 0xFFFF, osInvalid⟩, ⟨1, 1, osInvalid⟩]⟩ ∧ ¬ Accounted s.pm := by
  obtain ⟨s, hs, hpm, hpc⟩ := @requests_run 100 (pmLockMax - 1) (by decide)
  have hreq : s.pm.lockRequest 1 osInvalid true =
      (⟨0xFFFF, [⟨0, 0xFFFF, osInvalid⟩, ⟨1, 1, osInvalid⟩]⟩, .notLock) := by
    rw [hpm]
    rfl
  refine ⟨_, exec_append.mpr ⟨s, hs, exec_cons.mpr ⟨_, if_neg (not_not_intro hpc), exec_nil _⟩⟩, ?_, ?_, ?_⟩
  · rw [PmSystem.returned_ret, hreq]
  · exact congrArg Prod.fst hreq
  intro h
  have hsum := h.sum
  change (s.pm.lockRequest 1 osInvalid true).1.lock = ((s.pm.lockRequest 1 osInvalid true).1.lockList.map _).sum
    at hsum
  rw [hreq] at hsum
  exact absurd hsum (by decide)

end LiteosM.Components
