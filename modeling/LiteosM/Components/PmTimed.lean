import LiteosM.Components.Pm

/-!
# Timed power locks

`OsPmSwtmrHandler` gives a lock back by its name. The timer of a `LOS_PmTimeLockRequest` is remembered by
the lock only when the request has made it, so a lock can be freed while the timer of one of its
acquisitions runs on, and the next lock of that name is then given back by a timer that is none of its own.

The runs of `Pm` are followed with the acquisitions that have not ended (`PmTimed`): the calls of
`LOS_PmLockRequest` less those of `LOS_PmLockRelease` since the lock was last free, and the timed ones.

`OsPmLockRequest` and `LOS_PmLockRelease` read `head->pstNext` before `LOS_IntLock`, so another task can run
between this read and the walk. Over `PmTimed` the read is a step of its own (`PmWalk`). A walk from what is the
first lock still, or from the head of an empty list, is that of `Pm`. Of any other walk it is only said that
there was one (`astray`): it passes over locks, or reads one that has been deleted.

* `Tallied.step`: while no release is made for an acquisition that has ended, the count of a lock is the
  number of its acquisitions;
* **`timed_lock_releases_itself`**: in every run in which that is so, every request finds room and every walk
  begins at what is the first lock still, `pm->lock` is positive while a lock is held.

A deleted lock and its memory are not modelled, nor what the last release tells the event of `los_pm.c`.
-/

namespace LiteosM.Components

open LiteosM.Lib LiteosM.Kernel Function List Option

/-- The count of a name, 0 when it is free. -/
def Pm.taken (s : Pm) (name : Nat) : Nat := (s.find name).elim 0 PmLock.count

section
variable {s : Pm} {name swtmrID n lock : Nat} {l : PmLock}

theorem taken_of_find (h : s.find name = some l) : s.taken name = l.count := by rw [Pm.taken, h]; rfl

theorem taken_of_free (h : s.find name = none) : s.taken name = 0 := by rw [Pm.taken, h]; rfl

/-- A count of 0 is that of a free name. -/
theorem Accounted.free_iff (h : Accounted s) : s.find name = none ↔ s.taken name = 0 := by
  refine ⟨taken_of_free, fun htaken => ?_⟩
  cases hfind : s.find name with
  | none => rfl
  | some l =>
    rw [taken_of_find hfind] at htaken
    have hpos := h.count l (mem_of_find?_eq_some hfind)
    omega

theorem Accounted.taken_le (h : Accounted s) : s.taken name ≤ s.lock := by
  cases hfind : s.find name with
  | none => rw [taken_of_free hfind]; exact Nat.zero_le _
  | some l => rw [taken_of_find hfind]; exact h.count_le hfind

/-- A lock in the middle of the list is found by its name, and no other is hidden by it. -/
theorem taken_middle {pre post : List PmLock} (hname : l.name = name) (hpre : ∀ x ∈ pre, x.name ≠ name) :
    Pm.taken ⟨lock, pre ++ l :: post⟩ n = if n = name then l.count else Pm.taken ⟨0, pre ++ post⟩ n := by
  unfold Pm.taken Pm.find
  by_cases hn : n = name
  · rw [if_pos hn, find?_append, find?_eq_none.mpr fun x hx => by simpa [hn] using hpre x hx,
      find?_cons_of_pos (by simpa [hn] using hname)]
    rfl
  have hl : ¬ (fun x : PmLock => decide (x.name = n)) l = true := by
    simpa [hname] using fun h : name = n => hn h.symm
  rw [if_neg hn, find?_append, find?_append,
    find?_cons_of_neg (p := fun x : PmLock => decide (x.name = n)) hl]

theorem taken_setCount (hfind : s.find name = some l) {k : Nat} :
    Pm.taken ⟨lock, setCount name k s.lockList⟩ n = if n = name then k else s.taken n := by
  obtain ⟨hname, pre, post, hlist, hpre⟩ := Pm.find_some hfind
  rw [hlist, setCount_append hname hpre, taken_middle (l := { l with count := k }) hname hpre]
  split
  · rfl
  · rename_i hn
    rw [show s = ⟨s.lock, s.lockList⟩ from rfl, hlist, taken_middle hname hpre, if_neg hn]

theorem taken_added (hfind : s.find name = none) :
    Pm.taken ⟨lock, s.lockList ++ [⟨name, 1, swtmrID⟩]⟩ n = if n = name then 1 else s.taken n := by
  have hpre : ∀ x ∈ s.lockList, x.name ≠ name := fun x hx hname =>
    Pm.find_none hfind (List.mem_map.mpr ⟨x, hx, hname⟩)
  rw [taken_middle rfl hpre, append_nil]
  rfl

theorem taken_deleted (h : Accounted s) (hfind : s.find name = some l) :
    Pm.taken ⟨lock, s.lockList.eraseP fun l => l.name = name⟩ n = if n = name then 0 else s.taken n := by
  obtain ⟨hname, pre, post, hlist, hpre⟩ := Pm.find_some hfind
  rw [hlist, eraseP_append hname hpre]
  split
  · rename_i hn
    refine taken_of_free (find?_eq_none.mpr fun x hx => ?_)
    have hnames := h.names
    rw [hlist, map_append, map_cons, nodup_middle, nodup_cons, ← map_append, hname] at hnames
    simpa [hn] using fun hx' : x.name = name => hnames.1 (List.mem_map.mpr ⟨x, hx, hx'⟩)
  · rename_i hn
    rw [show s = ⟨s.lock, s.lockList⟩ from rfl, hlist, taken_middle hname hpre, if_neg hn]
    rfl

end

/-! ## Acquisitions -/

/-- A run with its acquisitions. -/
structure PmTimed where
  sys : PmSystem
  /-- The successful `LOS_PmLockRequest` of each name less its `LOS_PmLockRelease`, since it was last free. -/
  held : Nat → Int
  /-- The timer and the name of each timed acquisition that has not ended. -/
  pending : List (Nat × Nat)

namespace PmTimed

variable (s : PmTimed)

/-- The calls that hold the name and the timed acquisitions, after a release. -/
def ended (name : Nat) : Option Nat → Int × List (Nat × Nat)
  | none => (s.held name - 1, s.pending)
  | some swtmrID => (s.held name, s.pending.erase (swtmrID, name))

/-- The acquisitions after a step to `sys`. -/
def record (sys : PmSystem) : PmAct → PmTimed
  | .request name none alloc =>
    if (s.sys.pm.lockRequest name osInvalid alloc).2 = .ok then
      ⟨sys, update s.held name (s.held name + 1), s.pending⟩
    else { s with sys := sys }
  | .request name (some swtmrID) alloc =>
    if (s.sys.pm.lockRequest name swtmrID alloc).2 = .ok then ⟨sys, s.held, (swtmrID, name) :: s.pending⟩
    else { s with sys := sys }
  | .release name swtmrID =>
    if (s.sys.pm.lockRelease name).2.1 ≠ .ok then { s with sys := sys }
    else
      let r := s.ended name swtmrID
      -- A lock that is free is nobody's: releases beyond its requests and timers that still run count no more.
      if sys.pm.find name = none then
        ⟨sys, update s.held name (if r.1 > 0 then r.1 else 0), r.2.filter fun p => p.2 ≠ name⟩
      else ⟨sys, update s.held name r.1, r.2⟩
  | .none => { s with sys := sys }

/-- A step of `PmSystem`, with the record of it. -/
def step (l : PmLabel) : Option PmTimed := (s.sys.step l).map fun sys => s.record sys (s.sys.act l)

/-- At the start no lock has been taken. -/
def init (sysClock : UInt32) : PmTimed := ⟨.init sysClock, fun _ => 0, []⟩

/-- A release on behalf of a timer is of its own acquisition, unless the name is free. -/
def Own : PmAct → Prop
  | .release name (some swtmrID) => (swtmrID, name) ∈ s.pending ∨ s.sys.pm.find name = none
  | _ => True

instance decidableOwn : (a : PmAct) → Decidable (s.Own a)
  | .release _ (some _) => inferInstanceAs (Decidable (_ ∨ _))
  | .release _ none | .request _ _ _ | .none => .isTrue trivial

/-- A request finds room, and a release on behalf of a timer is of its own acquisition. -/
def Heeds (s : PmTimed) (l : PmLabel) : Prop := s.sys.Fits l ∧ s.Own (s.sys.act l)
  deriving Decidable

/-- The timed acquisitions of a name. -/
def timers (name : Nat) : Nat := s.pending.countP fun p => p.2 = name

end PmTimed

/-- The count of a lock is the number of its acquisitions. -/
structure Tallied (s : PmTimed) : Prop where
  locks : Locks s.sys.pm
  tally : ∀ name, (s.sys.pm.taken name : Int) = s.held name + s.timers name
  free : ∀ name, s.sys.pm.taken name = 0 → s.held name = 0

namespace Tallied

variable {s : PmTimed} {sys : PmSystem} {name : Nat}

/-- What the acquisitions of one name and its count do together. -/
theorem change (h : Tallied s) {held : Nat → Int} {pending : List (Nat × Nat)} (hlocks : Locks sys.pm)
    (hothers : ∀ n, n ≠ name → sys.pm.taken n = s.sys.pm.taken n ∧ held n = s.held n ∧
      pending.countP (fun p => p.2 = n) = s.timers n)
    (htally : (sys.pm.taken name : Int) = held name + pending.countP fun p => p.2 = name)
    (hfree : sys.pm.taken name = 0 → held name = 0) : Tallied ⟨sys, held, pending⟩ := by
  refine ⟨hlocks, fun n => ?_, fun n hn => ?_⟩
  · by_cases hname : n = name
    · rwa [hname]
    obtain ⟨htaken, hheld, hpending⟩ := hothers n hname
    change (sys.pm.taken n : Int) = held n + (pending.countP _ : Nat)
    rw [htaken, hheld, hpending]
    exact h.tally n
  by_cases hname : n = name
  · exact hname ▸ hfree (hname ▸ hn)
  obtain ⟨htaken, hheld, -⟩ := hothers n hname
  change held n = 0
  rw [hheld]
  exact h.free n (htaken ▸ hn)

theorem same (h : Tallied s) (hpm : sys.pm = s.sys.pm) : Tallied { s with sys := sys } :=
  ⟨hpm ▸ h.locks, fun n => hpm ▸ h.tally n, fun n => hpm ▸ h.free n⟩

/-- A request that succeeds adds one to the count of its name. -/
theorem taken_request {pm : Pm} {id : Nat} {alloc : Bool} (h : Locks pm) (hfits : pm.Fits name alloc) :
    (pm.lockRequest name id alloc).2 = .ok ∧
      (∀ n, (pm.lockRequest name id alloc).1.taken n = if n = name then pm.taken name + 1 else pm.taken n) ∨
    (pm.lockRequest name id alloc).2 ≠ .ok ∧ (pm.lockRequest name id alloc).1 = pm := by
  rcases @Pm.lockRequest_cases _ _ id _ h hfits with ⟨r, hr, heq⟩ | ⟨hfind, -, heq⟩ | ⟨l, hfind, -, -, heq⟩ <;>
    rw [heq]
  · exact .inr ⟨hr, rfl⟩
  · exact .inl ⟨rfl, fun n => by rw [taken_added hfind, taken_of_free hfind]⟩
  · exact .inl ⟨rfl, fun n => by rw [taken_setCount hfind, taken_of_find hfind]⟩

variable {id : Option Nat}

theorem request (h : Tallied s) {alloc : Bool} (hfits : s.sys.pm.Fits name alloc)
    (hpm : sys.pm = s.sys.pm.act (.request name id alloc)) : Tallied (s.record sys (.request name id alloc)) := by
  have hlocks : Locks sys.pm := by rw [hpm]; exact h.locks.act hfits
  have htally := h.tally name
  rcases @taken_request name s.sys.pm (id.getD osInvalid) alloc h.locks hfits with
    ⟨hret, hcount⟩ | ⟨hret, hsame⟩
  · have htaken : ∀ n, sys.pm.taken n = if n = name then s.sys.pm.taken name + 1 else s.sys.pm.taken n := by
      rwa [hpm]
    have hnew : sys.pm.taken name = s.sys.pm.taken name + 1 := by rw [htaken, if_pos rfl]
    cases id with
    | none =>
      rw [show s.record sys (.request name none alloc) = _ from if_pos hret]
      refine h.change hlocks (fun n hn => ⟨by rw [htaken, if_neg hn], update_of_ne hn .., rfl⟩) ?_ ?_
      · rw [update_self]
        change _ = _ + (s.timers name : Int)
        omega
      · omega
    | some id =>
      rw [show s.record sys (.request name (some id) alloc) = _ from if_pos hret]
      refine h.change hlocks (fun n hn => ⟨by rw [htaken, if_neg hn], rfl, ?_⟩) ?_ ?_
      · exact countP_cons_of_neg (by simpa using Ne.symm hn)
      · rw [countP_cons_of_pos (by simp)]
        change _ = _ + ((s.timers name + 1 : Nat) : Int)
        omega
      · omega
  have hrecord : s.record sys (.request name id alloc) = { s with sys := sys } := by
    cases id <;> exact if_neg hret
  rw [hrecord]
  exact h.same (hpm.trans hsame)

/-- A release takes one from the count of its name, if it is not free. -/
theorem taken_release {pm : Pm} (h : Locks pm) :
    (pm.lockRelease name).2.1 = .ok ∧ 0 < pm.taken name ∧
      (∀ n, (pm.lockRelease name).1.taken n = if n = name then pm.taken name - 1 else pm.taken n) ∨
    (pm.lockRelease name).2.1 ≠ .ok ∧ (pm.lockRelease name).1 = pm := by
  rcases @Pm.lockRelease_cases _ name h with ⟨-, heq⟩ | ⟨l, hfind, hcount, heq⟩ | ⟨l, hfind, hcount, heq⟩ <;>
    rw [heq]
  · exact .inr ⟨PmRet.noConfusion, rfl⟩
  · refine .inl ⟨rfl, by rw [taken_of_find hfind, hcount]; exact Nat.zero_lt_one, fun n => ?_⟩
    rw [taken_deleted h.toAccounted hfind, taken_of_find hfind, hcount]
  · refine .inl ⟨rfl, by rw [taken_of_find hfind]; omega, fun n => ?_⟩
    rw [taken_setCount hfind, taken_of_find hfind]

/-- A release ends one acquisition of its name, and none of another. -/
theorem ended_count (hown : s.Own (.release name id)) (hpos : s.sys.pm.find name ≠ none) :
    (s.ended name id).1 + (s.ended name id).2.countP (fun p => p.2 = name) = s.held name + s.timers name - 1 ∧
    ∀ n, n ≠ name → (s.ended name id).2.countP (fun p => p.2 = n) = s.timers n := by
  cases id with
  | none =>
    refine ⟨?_, fun n _ => rfl⟩
    change s.held name - 1 + (s.timers name : Int) = _
    omega
  | some id =>
    have hperm := perm_cons_erase (Or.resolve_right hown hpos)
    constructor
    · have hcountP : s.timers name = _ := hperm.countP_eq fun p : Nat × Nat => p.2 = name
      rw [countP_cons_of_pos (by simp)] at hcountP
      change s.held name + ((s.pending.erase (id, name)).countP _ : Int) = _
      omega
    intro n hn
    have hcountP := hperm.countP_eq fun p : Nat × Nat => p.2 = n
    rw [countP_cons_of_neg (by simpa using Ne.symm hn)] at hcountP
    exact hcountP.symm

theorem release (h : Tallied s) (hown : s.Own (.release name id))
    (hpm : sys.pm = s.sys.pm.act (.release name id)) : Tallied (s.record sys (.release name id)) := by
  have hlocks : Locks sys.pm := by rw [hpm]; exact h.locks.lockRelease
  have htally := h.tally name
  rcases @taken_release name s.sys.pm h.locks with ⟨hret, hpos, hcount⟩ | ⟨hret, hsame⟩
  · have htaken : ∀ n, sys.pm.taken n = if n = name then s.sys.pm.taken name - 1 else s.sys.pm.taken n := by
      rwa [hpm]
    have hnew : sys.pm.taken name = s.sys.pm.taken name - 1 := by rw [htaken, if_pos rfl]
    have hfound : s.sys.pm.find name ≠ none := fun hfree => by
      rw [taken_of_free hfree] at hpos
      exact Nat.lt_irrefl 0 hpos
    obtain ⟨hended, hothers⟩ := ended_count hown hfound
    simp only [PmTimed.record, if_neg (not_not_intro hret), hlocks.free_iff]
    split
    · -- The count was 1, so no call holds the lock that is freed.
      rename_i hfree
      have hheld : ¬ (s.ended name id).1 > 0 := by omega
      rw [if_neg hheld]
      refine h.change hlocks (fun n hn => ⟨by rw [htaken, if_neg hn], update_of_ne hn .., ?_⟩) ?_ ?_
      · rw [countP_filter, ← hothers n hn]
        refine countP_congr fun p _ => ?_
        simp only [Bool.and_eq_true, decide_eq_true_eq, and_iff_left_iff_imp]
        exact fun hp => hp ▸ hn
      · rw [hfree, update_self, countP_filter, countP_eq_zero.mpr fun p _ => by simp]
        rfl
      · exact fun _ => update_self ..
    rename_i hleft
    refine h.change hlocks
      (fun n hn => ⟨by rw [htaken, if_neg hn], update_of_ne hn .., hothers n hn⟩) ?_
      fun hfree => absurd hfree hleft
    rw [update_self]
    omega
  · rw [show s.record sys (.release name id) = _ from if_pos hret]
    exact h.same (hpm.trans hsame)

theorem step (h : Tallied s) {l : PmLabel} {s' : PmTimed} (hok : s.Heeds l) (hstep : s.step l = some s') :
    Tallied s' := by
  obtain ⟨sys, hsys, rfl⟩ := map_eq_some_iff.mp hstep
  have hpm := PmSystem.step_pm hsys
  obtain ⟨hfits, hown⟩ := hok
  unfold PmSystem.Fits at hfits
  generalize s.sys.act l = a at *
  cases a with
  | request name id alloc => exact h.request hfits hpm
  | release name id => exact h.release hown hpm
  | none => exact h.same hpm

theorem init (sysClock : UInt32) : Tallied (.init sysClock) :=
  ⟨PmSystem.locks_init sysClock, fun _ => rfl, fun _ _ => rfl⟩

end Tallied

/-! ## Where a walk begins -/

/-- A run with the addresses of the locks and what the tasks have read of them. -/
structure PmWalk where
  timed : PmTimed
  /-- The locks of `pm->lockList`. -/
  nodes : List Nat
  /-- The `list` that a task has read of `head->pstNext`; the inner `none` is the head. -/
  list : Nat → Option (Option Nat)
  /-- A walk began at what was not the first lock any more. -/
  astray : Bool

/-- The steps, with the read of the list apart. -/
inductive PmWalkLabel where
  /-- A task reads `head->pstNext`, some time before its section. -/
  | read (t : Nat)
  /-- A step of `PmSystem`; `node` is what `LOS_MemAlloc` answers. -/
  | act (l : PmLabel) (node : Nat)
  deriving DecidableEq

namespace PmWalk

variable (s : PmWalk)

/-- The task that walks the list in a step, and the name that it looks for. -/
def walker (l : PmLabel) : Option (Nat × Nat) :=
  match l, s.timed.sys.act l with
  | .request t _ _, .request name _ _ | .run t _, .request name _ _ => some (t, name)
  | .release t _, .release name _ | .run t _, .release name _ => some (t, name)
  | .handler, .release name _ => some (0, name)
  | _, _ => none

/-- The addresses after a step to `pm`: a lock is added behind the others, or that of the name is deleted. -/
def relink (pm : Pm) (name node : Nat) : List Nat :=
  let lockList := s.timed.sys.pm.lockList
  if lockList.length < pm.lockList.length then s.nodes ++ [node]
  else if pm.lockList.length < lockList.length then s.nodes.eraseIdx (lockList.findIdx fun l => l.name = name)
  else s.nodes

/-- One step; a walk from a node that is no longer the first one goes astray. -/
def step : PmWalkLabel → Option PmWalk
  | .read t => if s.list t = none then some { s with list := update s.list t (some s.nodes.head?) } else none
  | .act l node =>
    match s.walker l with
    | none => (s.timed.step l).map fun timed => { s with timed := timed }
    | some (t, name) =>
      if s.list t = none ∨ node ∈ s.nodes then none
      else if s.list t = some s.nodes.head? then
        (s.timed.step l).map fun timed =>
          ⟨timed, s.relink timed.sys.pm name node, update s.list t none, s.astray⟩
      else some { s with list := update s.list t none, astray := true }

/-- No node, and no read. -/
def init (sysClock : UInt32) : PmWalk := ⟨.init sysClock, [], fun _ => none, false⟩

/-- The step is as `PmTimed.Heeds` says, and a walk begins at what is the first lock still. -/
def Heeds (s : PmWalk) : PmWalkLabel → Prop
  | .read _ => True
  | .act l _ => s.timed.Heeds l ∧ ∀ w ∈ s.walker l, s.list w.1 = some s.nodes.head?

instance decidableHeeds (s : PmWalk) : (l : PmWalkLabel) → Decidable (s.Heeds l)
  | .read _ => .isTrue trivial
  | .act l _ => inferInstanceAs (Decidable (s.timed.Heeds l ∧ ∀ w ∈ s.walker l, _))

/-- A step of this kind is one of `PmTimed`, or leaves its state alone. -/
theorem step_timed {s s' : PmWalk} {l : PmWalkLabel} (hok : s.Heeds l) (hstep : s.step l = some s') :
    s'.astray = s.astray ∧
      (s'.timed = s.timed ∨ ∃ l, s.timed.Heeds l ∧ s.timed.step l = some s'.timed) := by
  cases l with
  | read t =>
    obtain ⟨-, rfl⟩ := guarded_inj hstep
    exact ⟨rfl, .inl rfl⟩
  | act l node =>
    obtain ⟨hheeds, hfirst⟩ := hok
    simp only [step] at hstep
    split at hstep
    · obtain ⟨timed, htimed, rfl⟩ := map_eq_some_iff.mp hstep
      exact ⟨rfl, .inr ⟨l, hheeds, htimed⟩⟩
    rename_i t name hwalker
    obtain ⟨-, hstep⟩ := ite_none_left_eq_some.mp hstep
    rw [if_pos (hfirst (t, name) hwalker)] at hstep
    obtain ⟨timed, htimed, rfl⟩ := map_eq_some_iff.mp hstep
    exact ⟨rfl, .inr ⟨l, hheeds, htimed⟩⟩

end PmWalk

/-- **A timed power lock releases only itself**: in every run in which every request finds room, no release
is made for a timed acquisition that has ended, and every walk begins at what is the first lock still, the
count of every name is the number of its acquisitions, and `pm->lock` is positive while one of them is that of
a `LOS_PmLockRequest`. -/
theorem timed_lock_releases_itself {sysClock : UInt32} {ls : List PmWalkLabel} {s : PmWalk}
    (hok : Guarded PmWalk.step PmWalk.Heeds (.init sysClock) ls)
    (hrun : exec PmWalk.step (.init sysClock) ls = some s) (name : Nat) :
    s.astray = false ∧ (0 < s.timed.held name → 0 < s.timed.sys.pm.lock) ∧
      (s.timed.sys.pm.taken name : Int) = s.timed.held name + s.timed.timers name := by
  have hinv : ∀ (s : PmWalk) l s', s.astray = false ∧ Tallied s.timed → s.Heeds l → s.step l = some s' →
      s'.astray = false ∧ Tallied s'.timed := by
    intro s l s' h hok hstep
    obtain ⟨hastray, htimed | ⟨l, hheeds, htimed⟩⟩ := PmWalk.step_timed hok hstep
    · exact ⟨hastray.trans h.1, htimed ▸ h.2⟩
    · exact ⟨hastray.trans h.1, h.2.step hheeds htimed⟩
  obtain ⟨hastray, h⟩ := exec_inv_guarded hinv ⟨rfl, Tallied.init sysClock⟩ hok hrun
  refine ⟨hastray, fun hheld => ?_, h.tally name⟩
  have htally := h.tally name
  have hle : s.timed.sys.pm.taken name ≤ s.timed.sys.pm.lock := h.locks.taken_le
  omega

/-- A lock is taken, taken once more for 20 ms and given back by the timer. -/
def timedWalk : List PmWalkLabel :=
  [.read 1, .act (.request 1 (some 0) true) 8, .act (.timeRequest 1 (some 0) 20) 0, .read 1, .act (.run 1 true) 0,
    .act (.run 1 true) 0, .act (.timer (.clock 2)) 0, .act (.timer .scan) 0, .act (.timer .taskRead) 0,
    .act (.timer .taskCheck) 0, .read 0, .act .handler 0]

/-- While a lock is held, its timed acquisition ends. -/
theorem timed_lock_releases_itself_timedLock :
    ∃ s, exec PmWalk.step (.init 100) timedWalk = some s ∧ s.nodes = [8] ∧ s.timed.held 0 = 1 ∧
      0 < s.timed.sys.pm.lock := by
  obtain ⟨s, hs, hnodes, hheld⟩ :
    ∃ s, exec PmWalk.step (.init 100) timedWalk = some s ∧ s.nodes = [8] ∧ s.timed.held 0 = 1 := ⟨_, rfl, rfl, rfl⟩
  refine ⟨s, hs, hnodes, hheld, (timed_lock_releases_itself (by decide +kernel) hs 0).2.1 ?_⟩
  rw [hheld]
  exact Int.one_pos

/-- The timer of an acquisition that ended with its lock gives back the next lock of that name. -/
theorem timed_lock_releases_other : (exec PmWalk.step (.init 100)
      [.read 1, .act (.request 1 (some 0) true) 8, .act (.timeRequest 1 (some 0) 20) 0, .read 1,
        .act (.run 1 true) 0, .act (.run 1 true) 0, .read 1, .act (.release 1 (some 0)) 0, .read 1,
        .act (.release 1 (some 0)) 0, .act (.run 1 true) 0, .read 1, .act (.request 1 (some 0) true) 8,
        .act (.timer (.clock 2)) 0, .act (.timer .scan) 0, .act (.timer .taskRead) 0, .act (.timer .taskCheck) 0,
        .read 0, .act .handler 0]).any
      (fun s => decide (s.timed.held 0 = 1 ∧ s.timed.sys.pm.lock = 0)) = true := by
  decide +kernel

end LiteosM.Components
