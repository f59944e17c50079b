import LiteosM.Lib.Run
import LiteosM.Kernel.Membox

/-!
# Mail blocks

`OsQueueMailAlloc` and `OsQueueMailFree`, called by any tasks and interrupts on the queues that share
one membox pool. A task that finds no free block waits in its queue's `memList`, in the order of
arrival; it goes on after a free has put a block into its `msg` field, or after its time is over. A
block is held by the task whose `msg` field it is in, or to which `OsQueueMailAlloc` returned it and
that has not been freed since.

A call of `OsQueueMailAlloc` is two critical sections with `LOS_Schedule` between them. That comes
back when the task is no longer blocked, and at once while the scheduler is locked.

* **`mail_blocks_conserved`**: while frees with a waiter are of blocks the pool would take back, no
  block is freed that still is in a `msg` field, and no call waits with the scheduler locked, every
  block is in the free list or held by exactly one task, and a free of what is not held fails and
  changes nothing;
* `mail_block_held_twice`: a block freed twice while two tasks wait.
-/

namespace LiteosM.Kernel

open LiteosM.Lib Function List Option

/-! ## The source -/

/-- What the calls read of a queue. -/
structure MailQueue where
  used : Bool
  memList : List Nat
  deriving DecidableEq, Repr

/-- What the calls read of a task. -/
structure MailTask where
  pend : Bool
  pendTime : Bool
  timeout : Bool
  msg : Nat
  /-- The task is between the sections of `OsQueueMailAlloc`; the flag says that `LOS_Schedule` found
  the scheduler locked. -/
  inAlloc : Option Bool
  deriving DecidableEq, Repr

/-- The box, the mail queues and the tasks. -/
structure MailState where
  box : Membox
  queue : Nat → MailQueue
  task : Nat → MailTask
  /-- The blocks that `OsQueueMailAlloc` returned and no call freed since, with the task. -/
  got : List (Nat × Nat)

/-- The arguments of `OsQueueMailAlloc`, with whether `mailPool` is not null, and what it is called
under: an interrupt, the scheduler's lock. -/
structure AllocCall where
  queueID : Nat
  mailPool : Bool
  timeOut : Nat
  intActive : Bool
  taskLock : Bool
  deriving DecidableEq, Repr

namespace MailState

variable (s : MailState)

/-- Before any call: `queues` says which queues are created. -/
def start (box : Membox) (queues : Nat → Bool) : MailState :=
  ⟨box, fun q => ⟨queues q, []⟩, fun _ => ⟨false, false, false, 0, none⟩, []⟩

/-- Changes task `t`. -/
def setTask (t : Nat) (f : MailTask → MailTask) : MailState :=
  { s with task := update s.task t (f (s.task t)) }

/-- Replaces the waiters of queue `q`. -/
def setMemList (q : Nat) (l : List Nat) : MailState :=
  { s with queue := update s.queue q { s.queue q with memList := l } }

/-- `OsSchedTaskWait` of the running task `t`, which then calls `LOS_Schedule`. -/
def taskWait (q t ticks : Nat) (taskLock : Bool) : MailState :=
  (s.setMemList q ((s.queue q).memList ++ [t])).setTask t fun r =>
    { r with pend := true, pendTime := ticks ≠ waitForever, inAlloc := some taskLock }

/-- `OsSchedTaskWake` of the first task in `q`, with a block for it; `rest` are the others. -/
def taskWake (q resumedTask : Nat) (rest : List Nat) (mailMem : Nat) : MailState :=
  (s.setMemList q rest).setTask resumedTask fun r =>
    { r with msg := mailMem, pend := false, pendTime := false }

/-- `OsQueueMailAlloc` of the running task `t`, up to `LOS_Schedule` where it waits. -/
def mailAlloc (t : Nat) (a : AllocCall) : MailState :=
  if a.queueID ≥ queueLimit then s
  else if !a.mailPool then s
  else if a.timeOut ≠ 0 ∧ a.intActive then s
  else if !(s.queue a.queueID).used then s
  else
    let mem := (s.box.alloc t).2
    if mem = 0 then if a.timeOut = 0 then s else s.taskWait a.queueID t a.timeOut a.taskLock
    else { s with box := (s.box.alloc t).1, got := (t, mem) :: s.got }

/-- The second critical section. -/
def mailAllocEnd (t : Nat) : MailState :=
  if (s.task t).timeout then s.setTask t fun r => { r with timeout := false, inAlloc := none }
  else
    let mem := (s.task t).msg
    let s := s.setTask t fun r => { r with msg := 0, inAlloc := none }
    if mem = 0 then s else { s with got := (t, mem) :: s.got }

/-- `OsSchedWakePendTimeTask` of a task that waits on `q`. -/
def mailTimeout (q t : Nat) : MailState :=
  (s.setMemList q ((s.queue q).memList.erase t)).setTask t fun r =>
    { r with pend := false, pendTime := false, timeout := true }

/-- The block counts as given up by the task it was returned to. -/
def forget (mailMem : Nat) : MailState := { s with got := s.got.filter fun g => g.2 ≠ mailMem }

/-- `OsQueueMailFree`. -/
def mailFree (q : Nat) (mailPool : Bool) (mailMem : Nat) : MailState × ErrNo :=
  if q ≥ queueLimit then (s, .queueMailHandleInvalid)
  else if !mailPool then (s, .queueMailPtrInvalid)
  else if !(s.queue q).used then (s, .queueNotCreate)
  else
    match (s.queue q).memList with
    | resumedTask :: rest => ((s.forget mailMem).taskWake q resumedTask rest mailMem, .ok)
    | [] =>
      match s.box.free mailMem with
      | none => (s, .queueMailFreeError)
      | some box => ({ s.forget mailMem with box := box }, .ok)

end MailState

/-- The sections of the two calls, and a timeout. -/
inductive MailLabel where
  | alloc (t : Nat) (a : AllocCall)
  | allocEnd (t : Nat)
  | timeout (q t : Nat)
  | free (q : Nat) (mailPool : Bool) (mailMem : UInt32)

/-- A task calls when it is in no call, an interrupt at any time. -/
def MailState.step (s : MailState) : MailLabel → Option MailState
  | .alloc t a =>
    if t ≤ taskMaxNum ∧ (a.intActive ∨ (s.task t).inAlloc = none) then some (s.mailAlloc t a) else none
  | .allocEnd t =>
    match (s.task t).inAlloc with
    | none => none
    | some taskLock => if taskLock || !(s.task t).pend then some (s.mailAllocEnd t) else none
  | .timeout q t =>
    if t ∈ (s.queue q).memList ∧ (s.task t).pendTime then some (s.mailTimeout q t) else none
  | .free q mailPool mailMem => some (s.mailFree q mailPool mailMem.toNat).1

/-! ## Who holds a block -/

/-- A block is in the task's `msg` field, or the task got it. -/
def MailState.Holds (s : MailState) (t mem : Nat) : Prop := (t, mem) ∈ s.got ∨ (s.task t).msg = mem

/-- Every block is in the free list or held by exactly one task. -/
def MailState.Conserved (s : MailState) : Prop :=
  ∃ F : List Nat, Chain s.box.pstNext s.box.freeList F ∧ F.Nodup ∧
    ∀ n, s.box.IsNode n →
      (n ∈ F ∧ ∀ t, ¬ s.Holds t (memboxUserAddr n)) ∨ (n ∉ F ∧ ∃! t, s.Holds t (memboxUserAddr n))

/-- The call finds no free block and does not come back at once. -/
def MailState.Waits (s : MailState) (a : AllocCall) : Prop :=
  a.queueID < queueLimit ∧ a.mailPool ∧ ¬ a.intActive ∧ (s.queue a.queueID).used ∧ a.timeOut ≠ 0 ∧
    s.box.freeList = 0
  deriving Decidable

/-- The arguments that `OsQueueMailFree` does not refuse. -/
def MailState.Frees (s : MailState) (q : Nat) (mailPool : Bool) : Prop :=
  q < queueLimit ∧ mailPool ∧ (s.queue q).used
  deriving Decidable

/-- No call waits with the scheduler locked; no free is of a block in a `msg` field; a free while a
task waits is of a block that `LOS_MemboxFree` would take. -/
def MailState.Sensible (s : MailState) : MailLabel → Prop
  | .alloc _ a => ¬ (a.taskLock ∧ s.Waits a)
  | .free q mailPool mailMem =>
    s.Frees q mailPool →
      (∀ t ≤ taskMaxNum, (s.task t).msg = mailMem.toNat → mailMem = 0) ∧
        ((s.queue q).memList ≠ [] → mailMem ≠ 0 ∧ s.box.checkBoxMem (memboxNodeAddr mailMem.toNat))
  | _ => True

instance MailState.decidableSensible (s : MailState) (l : MailLabel) : Decidable (s.Sensible l) := by
  unfold Sensible
  repeat' split
  all_goals infer_instance

/-- The blocks of a pool shared out: those of the free list are held by nobody, each other one by
exactly one task, and nothing else is held. -/
structure Shared (b : Membox) (F : List Nat) (H : Nat → Nat → Prop) : Prop where
  sound : b.Sound
  keeps : b.Keeps F
  free : ∀ n ∈ F, ∀ t, ¬ H t (memboxUserAddr n)
  taken : ∀ n, b.IsNode n → n ∉ F → ∃! t, H t (memboxUserAddr n)
  blocks : ∀ t mem, mem ≠ 0 → H t mem → ∃ n, b.IsNode n ∧ mem = memboxUserAddr n

namespace Shared

variable {b b' : Membox} {F : List Nat} {H H' : Nat → Nat → Prop} {n t : Nat}

section
variable (h : Shared b F H)
include h

theorem congr (heq : ∀ u mem, mem ≠ 0 → (H' u mem ↔ H u mem)) : Shared b F H' where
  __ := h
  free m hm u hu :=
    h.free m hm u ((heq u _ (h.sound.userAddr_ne_zero (h.keeps.nodes m hm))).mp hu)
  taken m hm hF := by
    have heq := fun u => heq u _ (h.sound.userAddr_ne_zero hm)
    simpa only [heq] using h.taken m hm hF
  blocks u mem h0 hu := h.blocks u mem h0 ((heq u mem h0).mp hu)

/-- A block that is not free is held. -/
theorem held (hn : b.IsNode n) (hF : n ∉ F) : ∃ t, H t (memboxUserAddr n) :=
  (h.taken n hn hF).exists

/-- A task gets the first free block. -/
theorem alloc (ht : t ≤ taskMaxNum) (h0 : b.freeList ≠ 0) :
    ∃ F', Shared (b.alloc t).1 F' fun u mem => H u mem ∨ u = t ∧ mem = (b.alloc t).2 := by
  obtain ⟨F', rfl, hmem, hkeeps⟩ := h.keeps.alloc ht h0
  have hsame := Membox.same_alloc b t
  have hfirst : b.IsNode b.freeList := h.keeps.nodes _ mem_cons_self
  have hnodup := nodup_cons.mp h.keeps.nodup
  rw [hmem]
  refine ⟨F', hsame.sound h.sound, hkeeps, ?_, ?_, ?_⟩
  · rintro n hn u (hu | ⟨-, heq⟩)
    · exact h.free n (mem_cons_of_mem _ hn) u hu
    · have hnode := h.keeps.nodes n (mem_cons_of_mem _ hn)
      exact hnodup.1 (h.sound.userAddr_inj hnode hfirst heq ▸ hn)
  · intro n hn hF
    rw [hsame.isNode] at hn
    by_cases hne : n = b.freeList
    · subst hne
      refine ⟨t, .inr ⟨rfl, rfl⟩, ?_⟩
      rintro u (hu | ⟨hu, -⟩)
      · exact absurd hu (h.free _ mem_cons_self u)
      · exact hu
    obtain ⟨u, hu, huniq⟩ := h.taken n hn fun hmem => (mem_cons.mp hmem).elim hne hF
    refine ⟨u, .inl hu, ?_⟩
    rintro w (hw | ⟨-, heq⟩)
    · exact huniq w hw
    · exact absurd (h.sound.userAddr_inj hn hfirst heq) hne
  rintro u mem hmem0 (hu | ⟨-, rfl⟩)
  · obtain ⟨n, hn, heq⟩ := h.blocks u mem hmem0 hu
    exact ⟨n, hsame.isNode.mpr hn, heq⟩
  · exact ⟨_, hsame.isNode.mpr hfirst, rfl⟩

/-- A block that is held is taken back. -/
theorem give {mem : Nat} (hmem : mem < 2 ^ 32) (hfree : b.free mem = some b') :
    ∃ F', Shared b' F' fun u x => H u x ∧ x ≠ mem := by
  obtain ⟨n, hn, hF, rfl, hkeeps⟩ := h.keeps.free h.sound hmem hfree
  have hsame := Membox.same_free hfree
  refine ⟨n :: F, hsame.sound h.sound, hkeeps, ?_, ?_, ?_⟩
  · rintro m hm u ⟨hu, hne⟩
    rcases mem_cons.mp hm with rfl | hm
    · exact hne rfl
    · exact h.free m hm u hu
  · intro m hm hmF
    rw [hsame.isNode] at hm
    rw [mem_cons, not_or] at hmF
    have hne : memboxUserAddr m ≠ memboxUserAddr n :=
      fun heq => hmF.1 (h.sound.userAddr_inj hm hn heq)
    simpa only [ne_eq, hne, not_false_eq_true, and_true] using h.taken m hm hmF.2
  · rintro u x hx ⟨hu, -⟩
    obtain ⟨m, hm, heq⟩ := h.blocks u x hx hu
    exact ⟨m, hsame.isNode.mpr hm, heq⟩

/-- A block that is held goes to another task. -/
theorem pass (hn : b.IsNode n) (hF : n ∉ F) (t : Nat) :
    Shared b F fun u x => H u x ∧ x ≠ memboxUserAddr n ∨ u = t ∧ x = memboxUserAddr n where
  __ := h
  free m hm u := by
    rintro (⟨hu, -⟩ | ⟨-, heq⟩)
    · exact h.free m hm u hu
    · exact hF (h.sound.userAddr_inj (h.keeps.nodes m hm) hn heq ▸ hm)
  taken m hm hmF := by
    by_cases hne : m = n
    · subst hne
      refine ⟨t, .inr ⟨rfl, rfl⟩, ?_⟩
      rintro u (⟨-, hu⟩ | ⟨hu, -⟩)
      · exact absurd rfl hu
      · exact hu
    · have hne : memboxUserAddr m ≠ memboxUserAddr n := fun heq => hne (h.sound.userAddr_inj hm hn heq)
      simpa only [ne_eq, hne, not_false_eq_true, and_true, and_false, or_false] using h.taken m hm hmF
  blocks u x hx := by
    rintro (⟨hu, -⟩ | ⟨-, rfl⟩)
    · exact h.blocks u x hx hu
    · exact ⟨n, hn, rfl⟩

end

end Shared

/-! ## The tasks that wait -/

/-- A task's fields fit together outside a `memList`: only a task that was woken has something in
`msg`, and only a task in a call is late. -/
structure MailTask.Fits (r : MailTask) (t : Nat) : Prop where
  woken : r.msg ≠ 0 → r.pend = false ∧ r.timeout = false ∧ r.inAlloc ≠ none
  late : r.timeout = true → r.inAlloc ≠ none
  inCall : ∀ taskLock, r.inAlloc = some taskLock → taskLock = false ∧ t ≤ taskMaxNum

/-- The task waits, with nothing in `msg`. -/
structure MailTask.Listed (r : MailTask) : Prop where
  pend : r.pend = true
  msg : r.msg = 0
  onTime : r.timeout = false
  inCall : r.inAlloc ≠ none

/-- Where the tasks of a sensible run are. -/
structure Waiting (s : MailState) : Prop where
  fits : ∀ t, (s.task t).Fits t
  listed : ∀ q, ∀ t ∈ (s.queue q).memList, (s.task t).Listed
  nodup : ∀ q, (s.queue q).memList.Nodup
  apart : ∀ q q' t, t ∈ (s.queue q).memList → t ∈ (s.queue q').memList → q = q'

namespace Waiting

variable {s s' : MailState} {q t : Nat} {l : List Nat} {r : MailTask}

/-- The list of one queue and one task change, and the task is in no other list. -/
theorem change (h : Waiting s)
    (hqueue : s'.queue = update s.queue q { s.queue q with memList := l })
    (htask : s'.task = update s.task t r)
    (hl : ∀ u ∈ l, u ∈ (s.queue q).memList ∨ u = t) (hnodup : l.Nodup)
    (hapart : ∀ q', t ∈ (s.queue q').memList → q' = q) (hin : t ∈ l → r.Listed) (hfits : r.Fits t) :
    Waiting s' := by
  have hmem : ∀ {q' u}, u ∈ (s'.queue q').memList →
      u ∈ (s.queue q').memList ∧ u ≠ t ∨ q' = q ∧ u = t ∧ t ∈ l := by
    intro q' u hu
    rw [hqueue] at hu
    by_cases hut : u = t
    · subst hut
      by_cases hq : q' = q
      · subst hq
        rw [update_self] at hu
        exact .inr ⟨rfl, rfl, hu⟩
      · rw [update_of_ne hq] at hu
        exact absurd (hapart q' hu) hq
    left
    by_cases hq : q' = q
    · subst hq
      rw [update_self] at hu
      exact ⟨(hl u hu).resolve_right hut, hut⟩
    · rw [update_of_ne hq] at hu
      exact ⟨hu, hut⟩
  refine ⟨fun u => ?_, fun q' u hu => ?_, fun q' => ?_, fun q1 q2 u h1 h2 => ?_⟩
  · rw [htask]
    by_cases hut : u = t
    · subst hut
      rwa [update_self]
    · rw [update_of_ne hut]
      exact h.fits u
  · rw [htask]
    rcases hmem hu with ⟨hu, hut⟩ | ⟨-, rfl, hul⟩
    · rw [update_of_ne hut]
      exact h.listed q' u hu
    · rw [update_self]
      exact hin hul
  · rw [hqueue]
    by_cases hq : q' = q
    · subst hq
      rwa [update_self]
    · rw [update_of_ne hq]
      exact h.nodup q'
  rcases hmem h1 with ⟨hu1, hut⟩ | ⟨hq1, hut, -⟩ <;> rcases hmem h2 with ⟨hu2, hut'⟩ | ⟨hq2, hut', -⟩
  · exact h.apart q1 q2 u hu1 hu2
  · exact absurd hut' hut
  · exact absurd hut hut'
  · rw [hq1, hq2]

/-- Only a task that is in no list changes. -/
theorem change_task (h : Waiting s) (hqueue : s'.queue = s.queue)
    (htask : s'.task = update s.task t r) (hout : ∀ q, t ∉ (s.queue q).memList)
    (hfits : r.Fits t) : Waiting s' := by
  have hsame : s'.queue = update s.queue 0 { s.queue 0 with memList := (s.queue 0).memList } := by
    rw [hqueue]
    exact (update_eq_self 0 s.queue).symm
  exact h.change hsame htask (fun u hu => .inl hu) (h.nodup 0) (fun q ht => absurd ht (hout q))
    (fun ht => absurd ht (hout 0)) hfits

theorem not_listed (h : Waiting s) (ht : (s.task t).inAlloc = none ∨ (s.task t).pend = false) (q : Nat) :
    t ∉ (s.queue q).memList := by
  intro hmem
  have hlisted := h.listed q t hmem
  rcases ht with hnone | hpend
  · exact hlisted.inCall hnone
  · rw [hlisted.pend] at hpend
    exact Bool.false_ne_true hpend.symm

end Waiting

theorem waiting_start (box : Membox) (queues : Nat → Bool) : Waiting (MailState.start box queues) where
  fits _ := ⟨fun h => absurd rfl h, nofun, nofun⟩
  listed _ _ := nofun
  nodup _ := nodup_nil
  apart _ _ _ := nofun

/-! ## The steps -/

/-- The invariant of the sensible runs. -/
structure Mailing (s : MailState) : Prop where
  waiting : Waiting s
  shared : ∃ F, Shared s.box F s.Holds

namespace Mailing

variable {s s' : MailState} {q t : Nat} {a : AllocCall}

/-- A task's `msg` field changes to `mem`. -/
theorem holds_setTask {f : MailTask → MailTask} (u x : Nat) (h0 : (s.task t).msg = 0) (hx : x ≠ 0) :
    (s.setTask t f).Holds u x ↔ s.Holds u x ∨ u = t ∧ x = (f (s.task t)).msg := by
  unfold MailState.Holds MailState.setTask
  by_cases hut : u = t
  · subst hut
    simp only [update_self, h0, true_and]
    constructor
    · rintro (hg | hm)
      · exact .inl (.inl hg)
      · exact .inr hm.symm
    rintro ((hg | hm) | hm)
    · exact .inl hg
    · exact absurd hm.symm hx
    · exact .inr hm.symm
  · simp only [update_of_ne hut, hut, false_and, or_false]

theorem holds_move {f : MailTask → MailTask} {l : List Nat} (u x : Nat) (h0 : (s.task t).msg = 0)
    (hx : x ≠ 0) :
    ((s.setMemList q l).setTask t f).Holds u x ↔ s.Holds u x ∨ u = t ∧ x = (f (s.task t)).msg :=
  holds_setTask (s := s.setMemList q l) u x h0 hx

section
variable (h : Mailing s)
include h

theorem wait (ht : t ≤ taskMaxNum) (hnone : (s.task t).inAlloc = none) (q ticks : Nat) :
    Mailing (s.taskWait q t ticks false) := by
  obtain ⟨F, hshared⟩ := h.shared
  have hfits := h.waiting.fits t
  have hout := h.waiting.not_listed (.inl hnone)
  have hmsg : (s.task t).msg = 0 := by
    by_contra hmsg
    exact (hfits.woken hmsg).2.2 hnone
  have honTime : (s.task t).timeout = false := by
    by_contra hlate
    exact hfits.late (Bool.not_eq_false _ ▸ hlate) hnone
  refine ⟨h.waiting.change rfl rfl ?_ ?_ (fun q' hmem => absurd hmem (hout q'))
    (fun _ => ⟨rfl, hmsg, honTime, nofun⟩) ?_, F, ?_⟩
  · simp
  · refine nodup_append.mpr ⟨h.waiting.nodup q, nodup_singleton t, ?_⟩
    rintro u hu v hv rfl
    rw [mem_singleton] at hv
    exact hout q (hv ▸ hu)
  · refine ⟨fun hne => absurd hmsg hne, fun _ => nofun, ?_⟩
    rintro taskLock hlock
    exact ⟨(some.inj hlock).symm, ht⟩
  · refine hshared.congr fun u x hx => ?_
    rw [MailState.taskWait, holds_move u x hmsg hx]
    simp only [hmsg, hx, and_false, or_false]

theorem get (ht : t ≤ taskMaxNum) (h0 : s.box.freeList ≠ 0) :
    Mailing { s with box := (s.box.alloc t).1, got := (t, (s.box.alloc t).2) :: s.got } := by
  obtain ⟨F, hshared⟩ := h.shared
  obtain ⟨F', hF'⟩ := hshared.alloc ht h0
  refine ⟨⟨h.waiting.fits, h.waiting.listed, h.waiting.nodup, h.waiting.apart⟩, F', ?_⟩
  refine hF'.congr fun u x _ => ?_
  simp only [MailState.Holds, mem_cons, Prod.mk.injEq]
  tauto

theorem alloc (ht : t ≤ taskMaxNum) (hcall : a.intActive ∨ (s.task t).inAlloc = none)
    (hok : s.Sensible (.alloc t a)) : Mailing (s.mailAlloc t a) := by
  obtain ⟨F, hshared⟩ := h.shared
  unfold MailState.mailAlloc
  split
  · exact h
  split
  · exact h
  split
  · exact h
  split
  · exact h
  rename_i hq hpool hint hused
  by_cases h0 : s.box.freeList = 0
  · have hnull := (hshared.keeps.alloc_null (t := t) h0).2
    rw [if_pos (congrArg Prod.snd hnull)]
    by_cases htime : a.timeOut = 0
    · rwa [if_pos htime]
    have hint : ¬ a.intActive = true := fun hint' => hint ⟨htime, hint'⟩
    have hlock : a.taskLock = false := by
      by_contra hlock
      refine hok ⟨Bool.not_eq_false _ ▸ hlock, Nat.lt_of_not_le hq, ?_, hint, ?_, htime, h0⟩
      · simpa using hpool
      · simpa using hused
    rw [if_neg htime, hlock]
    exact h.wait ht (hcall.resolve_left hint) a.queueID a.timeOut
  have hne : (s.box.alloc t).2 ≠ 0 := by
    obtain ⟨F', rfl, hmem, -⟩ := hshared.keeps.alloc ht h0
    rw [hmem]
    exact hshared.sound.userAddr_ne_zero (hshared.keeps.nodes _ mem_cons_self)
  rw [if_neg hne]
  exact h.get ht h0

theorem allocEnd (hcall : (s.task t).inAlloc ≠ none) (hpend : (s.task t).pend = false) :
    Mailing (s.mailAllocEnd t) := by
  obtain ⟨F, hshared⟩ := h.shared
  have hout := h.waiting.not_listed (.inr hpend)
  have hfits := h.waiting.fits t
  unfold MailState.mailAllocEnd
  by_cases hlate : (s.task t).timeout = true
  · have hmsg : (s.task t).msg = 0 := by
      by_contra hmsg
      rw [(hfits.woken hmsg).2.1] at hlate
      exact Bool.false_ne_true hlate
    rw [if_pos hlate]
    refine ⟨h.waiting.change_task rfl rfl hout ⟨fun hne => absurd hmsg hne, nofun, nofun⟩, F, ?_⟩
    refine hshared.congr fun u x hx => ?_
    rw [holds_setTask u x hmsg hx]
    simp only [hmsg, hx, and_false, or_false]
  rw [if_neg hlate]
  have hwaiting : Waiting (s.setTask t fun r => { r with msg := 0, inAlloc := none }) :=
    h.waiting.change_task rfl rfl hout ⟨fun hne => absurd rfl hne, fun hl => absurd hl hlate, nofun⟩
  by_cases hmsg : (s.task t).msg = 0
  · rw [if_pos hmsg]
    refine ⟨hwaiting, F, hshared.congr fun u x hx => ?_⟩
    rw [holds_setTask u x hmsg hx]
    simp only [hx, and_false, or_false]
  rw [if_neg hmsg]
  refine ⟨⟨hwaiting.fits, hwaiting.listed, hwaiting.nodup, hwaiting.apart⟩, F, ?_⟩
  refine hshared.congr fun u x hx => ?_
  -- the block moves from `msg` to what the task got
  simp only [MailState.Holds, MailState.setTask, mem_cons, Prod.mk.injEq]
  by_cases hut : u = t
  · subst hut
    simp only [update_self, true_and]
    constructor
    · rintro ((hm | hg) | h0)
      · exact .inr hm.symm
      · exact .inl hg
      · exact absurd h0.symm hx
    · rintro (hg | hm)
      · exact .inl (.inr hg)
      · exact .inl (.inl hm.symm)
  · simp only [hut, update_of_ne hut, false_and, false_or]

theorem timeout (hmem : t ∈ (s.queue q).memList) : Mailing (s.mailTimeout q t) := by
  obtain ⟨F, hshared⟩ := h.shared
  have hlisted := h.waiting.listed q t hmem
  have hfits := h.waiting.fits t
  have hnot : t ∉ (s.queue q).memList.erase t := (h.waiting.nodup q).not_mem_erase
  refine ⟨h.waiting.change rfl rfl (fun u hu => .inl (mem_of_mem_erase hu))
    ((h.waiting.nodup q).erase t) (fun q' hmem' => h.waiting.apart q' q t hmem' hmem)
    (fun hin => absurd hin hnot) ?_, F, ?_⟩
  · exact ⟨fun hne => absurd hlisted.msg hne, fun _ => hlisted.inCall, hfits.inCall⟩
  · refine hshared.congr fun u x hx => ?_
    rw [MailState.mailTimeout, holds_move u x hlisted.msg hx]
    simp only [hlisted.msg, hx, and_false, or_false]

end

/-- The holders of the other blocks, once a block is in nobody's `msg` field. -/
theorem holds_forget {mem : Nat} (hmsg : ∀ t, (s.task t).msg ≠ mem) (u x : Nat) :
    (s.forget mem).Holds u x ↔ s.Holds u x ∧ x ≠ mem := by
  simp only [MailState.Holds, MailState.forget, mem_filter, decide_eq_true_eq]
  constructor
  · rintro (⟨hg, hne⟩ | hm)
    · exact ⟨.inl hg, hne⟩
    · exact ⟨.inr hm, fun heq => hmsg u (hm.trans heq)⟩
  · rintro ⟨hg | hm, hne⟩
    · exact .inl ⟨hg, hne⟩
    · exact .inr hm

section
variable (h : Mailing s)
include h

theorem wake {mem w : Nat} {rest : List Nat} (hlist : (s.queue q).memList = w :: rest)
    (hmsg : ∀ t, (s.task t).msg ≠ mem) (hmem : mem < 2 ^ 32)
    (hcheck : s.box.checkBoxMem (memboxNodeAddr mem) = true) :
    Mailing ((s.forget mem).taskWake q w rest mem) := by
  obtain ⟨F, hshared⟩ := h.shared
  have hlt : memboxNodeAddr mem < 2 ^ 32 := Nat.mod_lt _ (Nat.two_pow_pos 32)
  obtain ⟨hnode, hF⟩ := (hshared.keeps.checkBoxMem_iff hshared.sound hlt).mp hcheck
  have hw : w ∈ (s.queue q).memList := hlist ▸ mem_cons_self
  have hlisted := h.waiting.listed q w hw
  have hfits := h.waiting.fits w
  have hnodup := h.waiting.nodup q
  rw [hlist, nodup_cons] at hnodup
  refine ⟨h.waiting.change rfl rfl (fun u hu => .inl (hlist ▸ mem_cons_of_mem _ hu)) hnodup.2
    (fun q' hmem' => h.waiting.apart q' q w hmem' hw) (fun hin => absurd hin hnodup.1) ?_, F, ?_⟩
  · exact ⟨fun _ => ⟨rfl, hlisted.onTime, hlisted.inCall⟩, hfits.late, hfits.inCall⟩
  refine (hshared.pass hnode hF w).congr fun u x hx => ?_
  rw [MailState.taskWake, holds_move (s := s.forget mem) u x hlisted.msg hx,
    ← hshared.sound.eq_userAddr hmem hnode]
  exact or_congr_left (holds_forget hmsg u x)

theorem free {mailPool : Bool} {mailMem : UInt32}
    (hok : s.Sensible (.free q mailPool mailMem)) : Mailing (s.mailFree q mailPool mailMem.toNat).1 := by
  obtain ⟨F, hshared⟩ := h.shared
  unfold MailState.mailFree
  split
  · exact h
  split
  · exact h
  split
  · exact h
  rename_i hq hpool hused
  have hfrees : s.Frees q mailPool := ⟨Nat.lt_of_not_le hq, by simpa using hpool, by simpa using hused⟩
  obtain ⟨hmsg, hwait⟩ := hok hfrees
  have hmsg : mailMem ≠ 0 → ∀ t, (s.task t).msg ≠ mailMem.toNat := by
    intro h0 t heq
    have hne : (s.task t).msg ≠ 0 := by
      rw [heq]
      exact fun h => h0 (UInt32.toNat.inj h)
    obtain ⟨taskLock, hcall⟩ := ne_none_iff_exists'.mp ((h.waiting.fits t).woken hne).2.2
    exact h0 (hmsg t ((h.waiting.fits t).inCall taskLock hcall).2 heq)
  split
  next w rest hlist =>
    obtain ⟨h0, hcheck⟩ := hwait (hlist ▸ cons_ne_nil _ _)
    exact h.wake hlist (hmsg h0) mailMem.toNat_lt hcheck
  next hlist =>
    split
    next => exact h
    next box hfree =>
      have h0 : mailMem ≠ 0 := by
        rintro rfl
        simp [Membox.free] at hfree
      obtain ⟨F', hF'⟩ := hshared.give mailMem.toNat_lt hfree
      refine ⟨⟨h.waiting.fits, h.waiting.listed, h.waiting.nodup, h.waiting.apart⟩, F', ?_⟩
      exact hF'.congr fun u x _ => holds_forget (hmsg h0) u x

theorem step {l : MailLabel} (hok : s.Sensible l) (hstep : s.step l = some s') : Mailing s' := by
  cases l with
  | alloc t a =>
    obtain ⟨hcond, rfl⟩ := guarded_inj hstep
    exact h.alloc hcond.1 hcond.2 hok
  | allocEnd t =>
    cases hcall : (s.task t).inAlloc with
    | none =>
      simp only [MailState.step, hcall] at hstep
      exact absurd hstep nofun
    | some taskLock =>
      simp only [MailState.step, hcall] at hstep
      obtain ⟨hcond, rfl⟩ := guarded_inj hstep
      obtain ⟨rfl, -⟩ := (h.waiting.fits t).inCall taskLock hcall
      exact h.allocEnd (ne_none_iff_exists'.mpr ⟨_, hcall⟩) (by simpa using hcond)
  | timeout q t =>
    obtain ⟨hcond, rfl⟩ := guarded_inj hstep
    exact h.timeout hcond.1
  | free q mailPool mailMem =>
    cases hstep
    exact h.free hok

theorem conserved : s.Conserved := by
  obtain ⟨F, hshared⟩ := h.shared
  refine ⟨F, hshared.keeps.chain, hshared.keeps.nodup, fun n hn => ?_⟩
  by_cases hF : n ∈ F
  · exact .inl ⟨hF, hshared.free n hF⟩
  · exact .inr ⟨hF, hshared.taken n hn hF⟩

/-- What is not held is not taken. -/
theorem free_of_not_held {mailPool : Bool} {mailMem : UInt32}
    (hok : s.Sensible (.free q mailPool mailMem)) (hheld : ∀ t, ¬ s.Holds t mailMem.toNat) :
    (s.mailFree q mailPool mailMem.toNat).1 = s ∧ (s.mailFree q mailPool mailMem.toNat).2 ≠ .ok := by
  obtain ⟨F, hshared⟩ := h.shared
  have hcheck : s.box.checkBoxMem (memboxNodeAddr mailMem.toNat) ≠ true := by
    intro hcheck
    have hlt : memboxNodeAddr mailMem.toNat < 2 ^ 32 := Nat.mod_lt _ (Nat.two_pow_pos 32)
    obtain ⟨hnode, hF⟩ := (hshared.keeps.checkBoxMem_iff hshared.sound hlt).mp hcheck
    obtain ⟨t, ht⟩ := hshared.held hnode hF
    rw [← hshared.sound.eq_userAddr mailMem.toNat_lt hnode] at ht
    exact hheld t ht
  unfold MailState.mailFree
  split
  · exact ⟨rfl, nofun⟩
  split
  · exact ⟨rfl, nofun⟩
  split
  · exact ⟨rfl, nofun⟩
  rename_i hq hpool hused
  have hfrees : s.Frees q mailPool := ⟨Nat.lt_of_not_le hq, by simpa using hpool, by simpa using hused⟩
  split
  next w rest hlist => exact absurd ((hok hfrees).2 (hlist ▸ cons_ne_nil _ _)).2 hcheck
  next hlist =>
    have hfree : s.box.free mailMem.toNat = none := by
      unfold Membox.free
      split_ifs with h0
      · rfl
      · simp [hcheck]
    rw [hfree]
    exact ⟨rfl, nofun⟩

end

end Mailing

theorem mailing_start {box : Membox} {F : List Nat} (hsound : box.Sound) (hkeeps : box.Keeps F)
    (hall : ∀ n, box.IsNode n → n ∈ F) (queues : Nat → Bool) : Mailing (.start box queues) where
  waiting := waiting_start box queues
  shared := by
    have hnone : ∀ t mem, mem ≠ 0 → ¬ (MailState.start box queues).Holds t mem := by
      rintro t mem h0 (hg | hm)
      · simp [MailState.start] at hg
      · exact h0 hm.symm
    refine ⟨F, hsound, hkeeps, fun n hn t => ?_, fun n hn hF => absurd (hall n hn) hF, fun t mem h0 hh => ?_⟩
    · exact hnone t _ (hsound.userAddr_ne_zero (hkeeps.nodes n hn))
    · exact absurd hh (hnone t mem h0)

/-- **Mail blocks are conserved**: after every sensible run on a new pool each block is in the free
list or held by exactly one task, and a free of what nobody holds fails and changes nothing. -/
theorem mail_blocks_conserved {pool poolSize blkSize : Nat} {m : Nat → Nat} {box : Membox}
    (hinit : Membox.init pool poolSize blkSize m = some box) (harea : pool + poolSize < 2 ^ 32)
    (hclear : ∀ n, box.IsNode n → memboxCheckMagic n = false) (queues : Nat → Bool)
    {run : List MailLabel} {s : MailState}
    (hok : Guarded MailState.step MailState.Sensible (.start box queues) run)
    (hrun : exec MailState.step (.start box queues) run = some s) : s.Conserved ∧
      ∀ q mailPool (mailMem : UInt32), s.Sensible (.free q mailPool mailMem) →
        (∀ t, ¬ s.Holds t mailMem.toNat) → (s.mailFree q mailPool mailMem.toNat).1 = s ∧
            (s.mailFree q mailPool mailMem.toNat).2 ≠ .ok := by
  obtain ⟨hsound, hkeeps⟩ := Membox.init_keeps hinit harea hclear
  have hall : ∀ n, box.IsNode n → n ∈ (range box.blkNum).map box.nodeAt := by
    rintro n ⟨i, hi, rfl⟩
    exact mem_map.mpr ⟨i, mem_range.mpr hi, rfl⟩
  have h : Mailing s := exec_inv_guarded (fun _ _ _ h hok hstep => h.step hok hstep)
    (mailing_start hsound hkeeps hall queues) hok hrun
  exact ⟨h.conserved, fun q mailPool mailMem => h.free_of_not_held⟩

/-- A pool of one block at 0x1000; the block's address is 0x1014. -/
def oneBlock : Membox := ⟨0x1000, 8, 1, 0, 0x1010, memboxLink 8 0 (fun _ => 0) 0x1010⟩

/-- Queue 0 is created. -/
def oneQueue : Nat → Bool := fun q => q == 0

/-- A call that waits without limit. -/
def allocForever : AllocCall := ⟨0, true, waitForever, false, false⟩

theorem oneBlock_node {n : Nat} (hn : oneBlock.IsNode n) : n = 0x1010 := by
  obtain ⟨i, hi, rfl⟩ := hn
  obtain rfl : i = 0 := Nat.lt_one_iff.mp hi
  rfl

/-- Task 1 takes the block, task 2 waits, and gets it when task 1 frees it. -/
def handedOver : List MailLabel :=
  [.alloc 1 allocForever, .alloc 2 allocForever, .free 0 true 0x1014, .allocEnd 2]

theorem mail_blocks_conserved_handedOver :
    ∃ s, exec MailState.step (.start oneBlock oneQueue) handedOver = some s ∧ s.Conserved ∧
      s.Holds 2 0x1014 := by
  obtain ⟨s, hs, hgot⟩ : ∃ s, exec MailState.step (.start oneBlock oneQueue) handedOver = some s ∧
      (2, 0x1014) ∈ s.got := by decide +kernel
  have hclear : ∀ n, oneBlock.IsNode n → memboxCheckMagic n = false := by
    intro n hn
    rw [oneBlock_node hn]
    decide
  have hinit : Membox.init 0x1000 24 1 (fun _ => 0) = some oneBlock := rfl
  have hok : Guarded MailState.step MailState.Sensible (.start oneBlock oneQueue) handedOver := by
    decide +kernel
  exact ⟨s, hs, (mail_blocks_conserved hinit (by decide) hclear oneQueue hok hs).1,
    .inl (hgot)⟩

/-- Task 1 frees the block a second time while it is on its way to task 2, and task 3 waits. -/
def freedTwice : List MailLabel :=
  [.alloc 1 allocForever, .alloc 2 allocForever, .alloc 3 allocForever,
    .free 0 true 0x1014, .free 0 true 0x1014, .allocEnd 2, .allocEnd 3]

/-- Nothing is refused when a task waits: the second free succeeds, and two tasks hold the block. A
pointer to no block at all is passed on as well. -/
theorem mail_block_held_twice :
    (∃ s, exec MailState.step (.start oneBlock oneQueue) freedTwice = some s ∧
      s.Holds 2 0x1014 ∧ s.Holds 3 0x1014) ∧ ∃ s, exec MailState.step (.start oneBlock oneQueue)
          [.alloc 1 allocForever, .alloc 2 allocForever] = some s ∧
        ¬ (∃ t, s.Holds t 0x5000) ∧ (s.mailFree 0 true 0x5000).2 = .ok ∧
          ((s.mailFree 0 true 0x5000).1.task 2).msg = 0x5000 := by
  constructor
  · obtain ⟨s, hs, htwo, hthree⟩ : ∃ s, exec MailState.step (.start oneBlock oneQueue) freedTwice =
        some s ∧ (2, 0x1014) ∈ s.got ∧ (3, 0x1014) ∈ s.got := by decide +kernel
    exact ⟨s, hs, .inl htwo, .inl hthree⟩
  refine ⟨_, rfl, ?_, by decide +kernel, by decide +kernel⟩
  rintro ⟨t, hg | hm⟩
  · have hgot : (t, 0x5000) ∈ [(1, 0x1014)] := hg
    simp at hgot
  -- only task 2 was written to, and its `msg` field was not
  by_cases ht : t = 2
  · subst ht
    exact absurd hm (by decide +kernel)
  have hm : (update (MailState.start oneBlock oneQueue).task 2 _ t).msg = 0x5000 := hm
  rw [update_of_ne ht] at hm
  have hm : 0 = 0x5000 := hm
  omega

end LiteosM.Kernel
