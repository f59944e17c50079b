import LiteosM.Kernel.Data
import LiteosM.Lib.Run
import Mathlib.Data.Fintype.Basic

/-!
# The lifecycle of the message queues

Model of `mq_open`, `mq_close` and `mq_unlink` of `mqueue.c`. Each holds `g_mqueueMutex` from its first to
its last access to `g_queueTable`, so that the calls follow one another. A pointer to an entry or to a
queue's control block is its index, a descriptor is the address of its `struct mqpersonal`, and the list
through `mq_next` is a list. What the heap, `LOS_QueueCreate` and `LOS_QueueDelete` answer is an input of
the calls.

Left out: `mq_flags` and `mq_mode`, which nothing here reads, and the fields of `struct mqarray` that
nothing uses. A descriptor that is not open is taken to have another word than `MQ_USE_MAGIC` at
`mq_status`; `mq_close` clears it before it frees the block.

* **`mq_lifecycle`**: in every sequence of calls, a queue of `mq_open` exists iff one entry refers to it, a
  failed `mq_open` changes nothing and a failed `mq_close` or `mq_unlink` keeps the entry, as long as the
  name gets its memory and `LOS_QueueDelete` deletes; and from every state so reached a call is right iff
  they do. `DoMqueueCreate` forgets the queue when there is no memory for the name, and `DoMqueueDelete`
  clears the entry before it asks for the deletion.
-/

namespace LiteosM.Posix

open LiteosM.Lib LiteosM.Kernel Function List Option Bool

/-- `PATH_MAX`. -/
def pathMax : Nat := 256

/-- The values of `errno` of these calls. -/
inductive MqErrno where
  | eagain
  | ebadf
  | eexist
  | efault
  | eintr
  | einval
  | enametoolong
  | enfile
  | enoent
  | enomem
  | enospc
  | etimedout
  deriving DecidableEq, Repr

/-- `MapMqErrno`, on an error. -/
def mapMqErrno : ErrNo → MqErrno
  | .queueIsfull | .queueIsempty => .eagain
  | .queueCreateNoMemory => .enospc
  | .queueTimeout => .etimedout
  | .queueCbUnavailable => .enfile
  | _ => .einval

/-- Who has created the queue of a control block. -/
inductive QueueUse where
  | unused
  | other
  | posix
  deriving DecidableEq, Repr

/-- `struct mqarray`. -/
structure MqArray where
  mqId : Nat
  unlinkflag : Bool
  mqName : Option (List UInt8)
  mqcb : Option Nat
  mqPersonal : List Nat
  deriving DecidableEq, Repr

/-- The fields of `struct mq_attr` that are read. -/
structure MqAttr where
  mqMaxmsg : Int
  mqMsgsize : Int
  deriving DecidableEq, Repr

/-- What `LOS_QueueDelete` answers for a queue there is: it is deleted, it stays because a task is blocked
on it or is between its counts, or it is deleted and its buffer cannot be freed. -/
inductive QueueAnswer where
  | deleted
  | inTskuse
  | inTskwrite
  | notFreed
  deriving DecidableEq, Repr

/-- The answers an `mq_open` gets: of `LOS_QueueCreate`, of the heap for the name and for the descriptor,
and of `LOS_QueueDelete`. -/
structure MqGrant where
  queue : Except ErrNo Nat
  name : Bool
  personal : Option Nat
  delete : QueueAnswer

/-- `g_queueTable`, the entries the open descriptors belong to, and the control blocks of the queues. -/
structure Mqueues where
  table : Nat → MqArray
  posixdes : Nat → Option Nat
  queue : Nat → QueueUse

namespace Mqueues

/-- No message queue is open; there are other queues. -/
def init (other : Nat → Bool) : Mqueues where
  table := fun _ => ⟨0, false, none, none, []⟩
  posixdes := fun _ => none
  queue := fun q => if other q then .other else .unused

variable (s : Mqueues)

/-- Changes an entry of `g_queueTable`. -/
@[simp] def setEntry (i : Nat) (f : MqArray → MqArray) : Mqueues :=
  { s with table := update s.table i (f (s.table i)) }

/-- Changes a kernel queue. -/
@[simp] def setQueue (q : Nat) (u : QueueUse) : Mqueues := { s with queue := update s.queue q u }

/-- Changes a descriptor. -/
@[simp] def setPosixdes (p : Nat) (e : Option Nat) : Mqueues :=
  { s with posixdes := update s.posixdes p e }

/-- `LOS_QueueDelete`. -/
def queueDelete (q : Nat) (a : QueueAnswer) : Mqueues × ErrNo :=
  if s.queue q = .unused then (s, .queueNotCreate)
  else
    match a with
    | .deleted => (s.setQueue q .unused, .ok)
    | .inTskuse => (s, .queueInTskuse)
    | .inTskwrite => (s, .queueInTskwrite)
    | .notFreed => (s.setQueue q .unused, .nok)

/-- `MqNameCheck`: the name, when it is one. -/
def mqNameCheck : Option (List UInt8) → Except MqErrno (List UInt8)
  | none => .error .einval
  | some name =>
    if name.length = 0 then .error .einval
    else if name.length > pathMax - 1 then .error .enametoolong
    else .ok name

/-- `GetMqueueCBByName`. -/
def getMqueueCBByName (name : List UInt8) : Option Nat :=
  (List.range queueLimit).find? fun i => (s.table i).mqName = some name

/-- `DoMqueueDelete`. -/
def doMqueueDelete (i : Nat) (a : QueueAnswer) : Mqueues × Except MqErrno Nat :=
  let s := s.setEntry i fun e => { e with mqName := none, mqcb := none }
  match s.queueDelete (s.table i).mqId a with
  | (s, .ok) => (s, .ok 0)
  | (s, .queueNotFound) | (s, .queueNotCreate) | (s, .queueInTskuse) | (s, .queueInTskwrite) =>
    (s, .error .eagain)
  | (s, _) => (s, .error .einval)

/-- `DoMqueueCreate`; the attributes have gone into the answer of `LOS_QueueCreate`. -/
def doMqueueCreate (name : List UInt8) (g : MqGrant) : Mqueues × Except MqErrno Nat :=
  match g.queue with
  | .error err => (s, .error (mapMqErrno err))
  | .ok q =>
    let s := s.setQueue q .posix
    if (s.table q).mqcb ≠ none then (s, .error .einval)
    else
      let s := s.setEntry q fun e => { e with mqId := q }
      -- `SaveMqueueName`
      if !g.name then (s.setEntry q fun e => { e with mqName := none }, .error .enomem)
      else
        let s := s.setEntry q fun e => { e with mqName := some name, mqcb := some q }
        match g.personal with
        | none =>
          let s := (s.queueDelete q g.delete).1
          (s.setEntry q fun e => { e with mqPersonal := [], mqcb := none, mqName := none }, .error .enospc)
        | some p =>
          let s := s.setEntry q fun e => { e with mqPersonal := [p], unlinkflag := false }
          (s.setPosixdes p (some q), .ok p)

/-- `DoMqueueOpen`. -/
def doMqueueOpen (i : Nat) (g : MqGrant) : Mqueues × Except MqErrno Nat :=
  if (s.table i).unlinkflag then (s, .error .einval)
  else
    match g.personal with
    | none => (s, .error .enospc)
    | some p =>
      let s := s.setEntry i fun e => { e with mqPersonal := p :: e.mqPersonal }
      (s.setPosixdes p (some i), .ok p)

/-- The check of the attributes in `mq_open`. -/
def attrFits : Option MqAttr → Bool
  | none => true
  | some attr =>
    !(attr.mqMaxmsg < 0 || attr.mqMaxmsg > 0xFFFF || attr.mqMsgsize < 0 || attr.mqMsgsize > 0xFFFF - 4)

/-- `mq_open`; the flags `O_CREAT` and `O_EXCL` of `openFlag`. -/
def mqOpen (mqName : Option (List UInt8)) (oCreat oExcl : Bool) (attr : Option MqAttr) (g : MqGrant) :
    Mqueues × Except MqErrno Nat :=
  match mqNameCheck mqName with
  | .error e => (s, .error e)
  | .ok name =>
    match s.getMqueueCBByName name with
    | some i => if oCreat && oExcl then (s, .error .eexist) else s.doMqueueOpen i g
    | none =>
      if !oCreat then (s, .error .enoent)
      else if !attrFits attr then (s, .error .einval)
      else s.doMqueueCreate name g

/-- `mq_close`; `freed` says whether the heap takes the descriptor back. -/
def mqClose (personal : Nat) (freed : Bool) (a : QueueAnswer) : Mqueues × Except MqErrno Nat :=
  if personal = 0 ∨ personal = 2 ^ 32 - 1 then (s, .error .ebadf)
  else
    match s.posixdes personal with
    | none => (s, .error .ebadf)
    | some i =>
      if personal ∉ (s.table i).mqPersonal then (s, .error .ebadf)
      else
        let s := s.setEntry i fun e => { e with mqPersonal := e.mqPersonal.erase personal }
        let s := s.setPosixdes personal none
        if !freed then (s, .error .efault)
        else if (s.table i).unlinkflag = true ∧ (s.table i).mqPersonal = [] then s.doMqueueDelete i a
        else (s, .ok 0)

/-- `mq_unlink`. -/
def mqUnlink (mqName : Option (List UInt8)) (a : QueueAnswer) : Mqueues × Except MqErrno Nat :=
  match mqNameCheck mqName with
  | .error e => (s, .error e)
  | .ok name =>
    match s.getMqueueCBByName name with
    | none => (s, .error .enoent)
    | some i =>
      if (s.table i).mqPersonal ≠ [] then
        (s.setEntry i fun e => { e with unlinkflag := true }, .error .eintr)
      else s.doMqueueDelete i a

end Mqueues

/-- The calls, with what the kernel and the heap answer. -/
inductive MqCall where
  | open (mqName : Option (List UInt8)) (oCreat oExcl : Bool) (attr : Option MqAttr) (g : MqGrant)
  | close (personal : Nat) (freed : Bool) (a : QueueAnswer)
  | unlink (mqName : Option (List UInt8)) (a : QueueAnswer)

/-- One call. -/
def Mqueues.call (s : Mqueues) : MqCall → Mqueues × Except MqErrno Nat
  | .open mqName oCreat oExcl attr g => s.mqOpen mqName oCreat oExcl attr g
  | .close personal freed a => s.mqClose personal freed a
  | .unlink mqName a => s.mqUnlink mqName a

/-- What the kernel and the heap can answer: `LOS_QueueCreate` gives a control block that is not in use,
and the heap an address that is not. -/
def MqGrant.possible (s : Mqueues) (g : MqGrant) : Bool :=
  (g.queue.toOption.all fun q => q < queueLimit ∧ s.queue q = .unused) &&
    g.personal.all fun p => p ≠ 0 ∧ p ≠ 2 ^ 32 - 1 ∧ s.posixdes p = none

/-- The answers fit the state. -/
def MqCall.possible (s : Mqueues) : MqCall → Bool
  | .open _ _ _ _ g => g.possible s
  | .close _ _ _ | .unlink _ _ => true

/-- A call whose answers are possible. -/
def Mqueues.step (s : Mqueues) (c : MqCall) : Option Mqueues :=
  if c.possible s then some (s.call c).1 else none

/-! ## What is to hold -/

/-- A queue of `mq_open` exists iff exactly one entry refers to it. -/
def Linked (s : Mqueues) : Prop :=
  ∀ q, s.queue q = .posix ↔ ∃! i, i < queueLimit ∧ (s.table i).mqcb = some q

/-- Everything is as before, but for the `mq_id` of an entry that is not in use. -/
structure Unchanged (s s' : Mqueues) : Prop where
  queue : s'.queue = s.queue
  posixdes : s'.posixdes = s.posixdes
  entry : ∀ i, s'.table i = { s.table i with mqId := (s'.table i).mqId }
  inUse : ∀ i, (s.table i).mqcb ≠ none → s'.table i = s.table i

/-- The entries still are what a deletion needs: name, queue and number. -/
structure Intact (s s' : Mqueues) : Prop where
  queue : s'.queue = s.queue
  name : ∀ i, (s'.table i).mqName = (s.table i).mqName
  mqcb : ∀ i, (s'.table i).mqcb = (s.table i).mqcb
  id : ∀ i, (s'.table i).mqId = (s.table i).mqId

/-- The call is `mq_open`. -/
def MqCall.isOpen : MqCall → Bool
  | .open .. => true
  | .close .. | .unlink .. => false

/-- The call leaves the queues linked, and changes nothing, or keeps the entries, when it fails. -/
structure Right (s : Mqueues) (c : MqCall) : Prop where
  linked : Linked (s.call c).1
  failed : ∀ e, (s.call c).2 = .error e →
    if c.isOpen then Unchanged s (s.call c).1 else Intact s (s.call c).1

/-- The queue stays. -/
def QueueAnswer.refuses : QueueAnswer → Bool
  | .inTskuse | .inTskwrite => true
  | .deleted | .notFreed => false

/-- A creation gets the memory for the name, and without a descriptor the queue is deleted again; a
deletion succeeds. -/
def Completes (s : Mqueues) : MqCall → Prop
  | .open mqName oCreat _ attr g =>
    ∀ name ∈ (Mqueues.mqNameCheck mqName).toOption, s.getMqueueCBByName name = none → oCreat = true →
      Mqueues.attrFits attr = true → g.queue.toOption ≠ none →
        g.name = true ∧ (g.personal = none → g.delete.refuses = false)
  | .close personal freed a =>
    ∀ i ∈ s.posixdes personal, (s.table i).mqPersonal = [personal] → (s.table i).unlinkflag = true →
      freed = true → a = .deleted
  | .unlink mqName a =>
    ∀ name ∈ (Mqueues.mqNameCheck mqName).toOption, ∀ i ∈ s.getMqueueCBByName name,
      (s.table i).mqPersonal = [] → a = .deleted

/-! ## The tables -/

/-- The entry of a queue is the one with its number, an entry that is not in use has neither name nor
descriptors. -/
structure MqTables (s : Mqueues) : Prop where
  queue : ∀ q, s.queue q = .posix → q < queueLimit ∧ (s.table q).mqcb = some q
  mqcb : ∀ i < queueLimit, ∀ q, (s.table i).mqcb = some q → q = i ∧ s.queue i = .posix ∧
    (s.table i).mqId = i
  free : ∀ i < queueLimit, (s.table i).mqcb = none → (s.table i).mqName = none ∧
    (s.table i).mqPersonal = []
  des : ∀ p i, s.posixdes p = some i → i < queueLimit ∧ p ≠ 0 ∧ p ≠ 2 ^ 32 - 1

section
variable {s : Mqueues} {i q : Nat}

theorem MqTables.linked (h : MqTables s) : Linked s := by
  intro q
  constructor
  · intro hq
    exact ⟨q, h.queue q hq, fun i hi => (h.mqcb i hi.1 q hi.2).1.symm⟩
  · rintro ⟨i, ⟨hi, hcb⟩, -⟩
    obtain ⟨rfl, hq, -⟩ := h.mqcb i hi q hcb
    exact hq

/-- A queue that no entry refers to. -/
theorem not_linked (hq : s.queue q = .posix) (hcb : ∀ i < queueLimit, (s.table i).mqcb ≠ some q) :
    ¬ Linked s := by
  intro h
  obtain ⟨i, hi, -⟩ := (h q).mp hq
  exact hcb i hi.1 hi.2

theorem getMqueueCBByName_some {name : List UInt8} (hname : s.getMqueueCBByName name = some i) :
    i < queueLimit ∧ (s.table i).mqName = some name :=
  ⟨mem_range.mp (mem_of_find?_eq_some hname), by simpa using find?_some hname⟩

variable {mqName : Option (List UInt8)}

theorem mqNameCheck_of_mem {name : List UInt8}
    (h : name ∈ (Mqueues.mqNameCheck mqName).toOption) : Mqueues.mqNameCheck mqName = .ok name := by
  cases hn : Mqueues.mqNameCheck mqName with
  | error e => simp [hn, Except.toOption] at h
  | ok n => simpa [hn, Except.toOption] using h

theorem MqTables.inUse (h : MqTables s) (hi : i < queueLimit)
    (huse : (s.table i).mqName ≠ none ∨ (s.table i).mqPersonal ≠ []) : (s.table i).mqcb = some i := by
  cases hcb : (s.table i).mqcb with
  | none =>
    obtain ⟨hname, hpersonal⟩ := h.free i hi hcb
    tauto
  | some q => rw [(h.mqcb i hi q hcb).1]

/-- One entry and its queue change. -/
theorem MqTables.change {s' : Mqueues} (h : MqTables s)
    (hother : ∀ j, j ≠ i → s'.table j = s.table j ∧ s'.queue j = s.queue j)
    (hqueue : s'.queue i = .posix → i < queueLimit ∧ (s'.table i).mqcb = some i)
    (hmqcb : i < queueLimit → ∀ q, (s'.table i).mqcb = some q →
      q = i ∧ s'.queue i = .posix ∧ (s'.table i).mqId = i)
    (hfree : i < queueLimit → (s'.table i).mqcb = none →
      (s'.table i).mqName = none ∧ (s'.table i).mqPersonal = [])
    (hdes : ∀ p i, s'.posixdes p = some i → i < queueLimit ∧ p ≠ 0 ∧ p ≠ 2 ^ 32 - 1) : MqTables s' := by
  refine ⟨fun q hq => ?_, fun j hj q hq => ?_, fun j hj hnone => ?_, hdes⟩
  · by_cases hqi : q = i
    · rw [hqi] at hq ⊢
      exact hqueue hq
    · rw [(hother q hqi).1]
      exact h.queue q ((hother q hqi).2 ▸ hq)
  · by_cases hji : j = i
    · rw [hji] at hj hq ⊢
      exact hmqcb hj q hq
    · rw [(hother j hji).1] at hq ⊢
      rw [(hother j hji).2]
      exact h.mqcb j hj q hq
  by_cases hji : j = i
  · rw [hji] at hj hnone ⊢
    exact hfree hj hnone
  · rw [(hother j hji).1] at hnone ⊢
    exact h.free j hj hnone

/-- An entry in use keeps its queue. -/
theorem MqTables.setEntry {f : MqArray → MqArray} (h : MqTables s) (hcb : (s.table i).mqcb = some i)
    (hf : ∀ e, (f e).mqcb = e.mqcb ∧ (f e).mqId = e.mqId) : MqTables (s.setEntry i f) := by
  have hself : (s.setEntry i f).table i = f (s.table i) := update_self ..
  refine h.change (fun j hj => ⟨update_of_ne hj .., rfl⟩) ?_ ?_ ?_ h.des <;> rw [hself, (hf _).1]
  · exact h.queue i
  · rw [(hf _).2]
    exact h.mqcb i
  · simp [hcb]

variable {p : Nat}

theorem MqTables.setPosixdes {e : Option Nat} (h : MqTables s)
    (he : ∀ i, e = some i → i < queueLimit ∧ p ≠ 0 ∧ p ≠ 2 ^ 32 - 1) :
    MqTables (s.setPosixdes p e) := by
  refine ⟨h.queue, h.mqcb, h.free, ?_⟩
  intro p' i hi
  by_cases hp : p' = p
  · rw [hp] at hi ⊢
    simp only [Mqueues.setPosixdes, update_self] at hi
    exact he i hi
  · simp only [Mqueues.setPosixdes, update_of_ne hp] at hi
    exact h.des p' i hi

/-! ## Deletion -/

/-- The entry is cleared and its queue deleted. -/
@[simp] def Mqueues.removed (s : Mqueues) (i : Nat) : Mqueues :=
  (s.setEntry i fun e => { e with mqName := none, mqcb := none }).setQueue i .unused

theorem MqTables.removed (h : MqTables s) (hempty : (s.table i).mqPersonal = []) :
    MqTables (s.removed i) := by
  have hself : (s.removed i).table i = { s.table i with mqName := none, mqcb := none } ∧
      (s.removed i).queue i = .unused := by
    simp
  refine h.change (fun j hj => ⟨update_of_ne hj .., update_of_ne hj ..⟩) ?_ ?_ ?_ h.des <;> rw [hself.1]
  · simp
  · simp
  · exact fun _ _ => ⟨rfl, hempty⟩

theorem doMqueueDelete_deleted (h : MqTables s) (hi : i < queueLimit) (hcb : (s.table i).mqcb = some i) :
    s.doMqueueDelete i .deleted = (s.removed i, .ok 0) := by
  obtain ⟨-, hq, hid⟩ := h.mqcb i hi i hcb
  simp [Mqueues.doMqueueDelete, Mqueues.queueDelete, hid, hq]

variable {a : QueueAnswer}

/-- When `LOS_QueueDelete` fails, the entry is gone all the same. -/
theorem doMqueueDelete_failed (h : MqTables s) (hi : i < queueLimit)
    (hcb : (s.table i).mqcb = some i) (ha : a ≠ .deleted) :
    (∃ e, (s.doMqueueDelete i a).2 = .error e) ∧ ((s.doMqueueDelete i a).1.table i).mqcb = none := by
  obtain ⟨-, hq, hid⟩ := h.mqcb i hi i hcb
  cases a with
  | deleted => exact absurd rfl ha
  | inTskuse | inTskwrite | notFreed =>
    simp [Mqueues.doMqueueDelete, Mqueues.queueDelete, hid, hq]

/-! ## The calls -/

theorem Unchanged.refl (s : Mqueues) : Unchanged s s :=
  ⟨rfl, rfl, fun _ => rfl, fun _ _ => rfl⟩

theorem Intact.refl (s : Mqueues) : Intact s s :=
  ⟨rfl, fun _ => rfl, fun _ => rfl, fun _ => rfl⟩

theorem Intact.setEntry {f : MqArray → MqArray} (i : Nat)
    (hf : ∀ e, (f e).mqName = e.mqName ∧ (f e).mqcb = e.mqcb ∧ (f e).mqId = e.mqId) :
    Intact s (s.setEntry i f) := by
  refine ⟨rfl, ?_, ?_, ?_⟩ <;> intro j <;> by_cases hj : j = i
  all_goals simp [hj, hf]

theorem MqTables.mqUnlink (h : MqTables s) (hc : Completes s (.unlink mqName a)) :
    MqTables (s.mqUnlink mqName a).1 ∧ ∀ e, (s.mqUnlink mqName a).2 = .error e →
      Intact s (s.mqUnlink mqName a).1 := by
  unfold Mqueues.mqUnlink
  cases hcheck : Mqueues.mqNameCheck mqName with
  | error e => exact ⟨h, fun _ _ => Intact.refl s⟩
  | ok name =>
    dsimp only
    cases hfind : s.getMqueueCBByName name with
    | none => exact ⟨h, fun _ _ => Intact.refl s⟩
    | some i =>
      obtain ⟨hi, hname⟩ := getMqueueCBByName_some hfind
      have hcb := h.inUse hi (.inl (by simp [hname]))
      dsimp only
      by_cases hempty : (s.table i).mqPersonal = []
      · rw [if_neg (not_not.mpr hempty), hc name (by simp [hcheck, Except.toOption]) i hfind hempty,
          doMqueueDelete_deleted h hi hcb]
        exact ⟨h.removed hempty, fun e he => by cases he⟩
      rw [if_pos hempty]
      dsimp only
      exact ⟨h.setEntry hcb (by intro e; exact ⟨rfl, rfl⟩),
        fun _ _ => Intact.setEntry i (by intro e; exact ⟨rfl, rfl, rfl⟩)⟩

theorem completes_of_mqUnlink (h : MqTables s)
    (hr : Right s (.unlink mqName a)) : Completes s (.unlink mqName a) := by
  intro name hcheck i hfind hempty
  obtain ⟨hi, hname⟩ := getMqueueCBByName_some hfind
  have hcb := h.inUse hi (.inl (by simp [hname]))
  have hok := mqNameCheck_of_mem hcheck
  by_contra ha
  have heq : s.call (.unlink mqName a) = s.doMqueueDelete i a := by
    change s.mqUnlink mqName a = _
    rw [Mqueues.mqUnlink, hok]
    dsimp only
    rw [hfind]
    dsimp only
    rw [if_neg (not_not.mpr hempty)]
  obtain ⟨⟨e, he⟩, hnone⟩ := doMqueueDelete_failed h hi hcb ha
  rw [← heq] at he hnone
  have hintact : Intact s (s.call (.unlink mqName a)).1 := hr.failed e he
  simp [hintact.mqcb i, hcb] at hnone

/-- The tables when `mq_close` has taken the descriptor out. -/
def Mqueues.closed (s : Mqueues) (p i : Nat) : Mqueues :=
  (s.setEntry i fun e => { e with mqPersonal := e.mqPersonal.erase p }).setPosixdes p none

theorem MqTables.closed (h : MqTables s) (hcb : (s.table i).mqcb = some i) :
    MqTables (s.closed p i) :=
  MqTables.setPosixdes (MqTables.setEntry h hcb (by intro e; exact ⟨rfl, rfl⟩)) (by intro i hi; cases hi)

theorem intact_closed (s : Mqueues) (p i : Nat) : Intact s (s.closed p i) :=
  have h := Intact.setEntry (s := s) (f := fun e => { e with mqPersonal := e.mqPersonal.erase p }) i
    fun _ => ⟨rfl, rfl, rfl⟩
  ⟨h.queue, h.name, h.mqcb, h.id⟩

/-- The last descriptor is closed when it is the only one. -/
theorem erase_eq_nil_iff {l : List Nat} (hp : p ∈ l) : l.erase p = [] ↔ l = [p] := by
  constructor
  · intro h
    have hlen := length_erase_of_mem hp
    rw [h, length_nil] at hlen
    obtain ⟨a, rfl⟩ := length_eq_one_iff.mp (show l.length = 1 by
      have := length_pos_of_mem hp
      omega)
    rw [mem_singleton.mp hp]
  · rintro rfl
    simp

variable {freed : Bool}

/-- `mq_close` of an open descriptor. -/
theorem mqClose_open (h : MqTables s)
    (hdes : s.posixdes p = some i) (hp : p ∈ (s.table i).mqPersonal) : s.mqClose p freed a =
      if freed = false then (s.closed p i, .error .efault)
      else if (s.table i).unlinkflag = true ∧ (s.table i).mqPersonal = [p] then
        (s.closed p i).doMqueueDelete i a else (s.closed p i, .ok 0) := by
  obtain ⟨-, hzero, hbad⟩ := h.des p i hdes
  have hentry : (s.closed p i).table i =
      { s.table i with mqPersonal := (s.table i).mqPersonal.erase p } := by
    simp [Mqueues.closed]
  rw [Mqueues.mqClose, if_neg (by tauto), hdes]
  dsimp only
  rw [if_neg (not_not.mpr hp)]
  change (if (!freed) = true then (s.closed p i, Except.error MqErrno.efault)
    else if ((s.closed p i).table i).unlinkflag = true ∧ ((s.closed p i).table i).mqPersonal = [] then _
    else _) = _
  rw [hentry]
  simp only [erase_eq_nil_iff hp, not_eq_true']
  rfl

theorem mqClose_ebadf (h : ¬ ∃ i, s.posixdes p = some i ∧ p ∈ (s.table i).mqPersonal) :
    s.mqClose p freed a = (s, .error .ebadf) := by
  unfold Mqueues.mqClose
  by_cases hbad : p = 0 ∨ p = 2 ^ 32 - 1
  · rw [if_pos hbad]
  rw [if_neg hbad]
  cases hdes : s.posixdes p with
  | none => rfl
  | some i =>
    dsimp only
    rw [if_pos fun hp => h ⟨i, hdes, hp⟩]

theorem MqTables.mqClose (h : MqTables s) (hc : Completes s (.close p freed a)) :
    MqTables (s.mqClose p freed a).1 ∧ ∀ e, (s.mqClose p freed a).2 = .error e →
      Intact s (s.mqClose p freed a).1 := by
  by_cases hopen : ∃ i, s.posixdes p = some i ∧ p ∈ (s.table i).mqPersonal
  · obtain ⟨i, hdes, hp⟩ := hopen
    have hi := (h.des p i hdes).1
    have hcb := h.inUse hi (.inr (ne_nil_of_mem hp))
    have hclosed := h.closed (p := p) hcb
    rw [mqClose_open h hdes hp]
    split_ifs with hfreed hlast
    · exact ⟨hclosed, fun _ _ => intact_closed s p i⟩
    · obtain ⟨hflag, hone⟩ := hlast
      rw [hc i hdes hone hflag (by simpa using hfreed),
        doMqueueDelete_deleted hclosed hi (by rwa [(intact_closed s p i).mqcb])]
      refine ⟨hclosed.removed ?_, fun e he => by cases he⟩
      simp [Mqueues.closed, hone]
    · exact ⟨hclosed, fun e he => by cases he⟩
  · rw [mqClose_ebadf hopen]
    exact ⟨h, fun _ _ => Intact.refl s⟩

theorem completes_of_mqClose (h : MqTables s)
    (hr : Right s (.close p freed a)) : Completes s (.close p freed a) := by
  intro i hdes hone hflag hfreed
  have hp : p ∈ (s.table i).mqPersonal := by simp [hone]
  have hi := (h.des p i hdes).1
  have hcb := h.inUse hi (.inr (ne_nil_of_mem hp))
  have hcb' : ((s.closed p i).table i).mqcb = some i := by
    rwa [(intact_closed s p i).mqcb]
  by_contra ha
  have heq : s.call (.close p freed a) = (s.closed p i).doMqueueDelete i a := by
    change s.mqClose p freed a = _
    rw [mqClose_open h hdes hp, if_neg (by simp [hfreed]), if_pos ⟨hflag, hone⟩]
  obtain ⟨⟨e, he⟩, hnone⟩ := doMqueueDelete_failed (h.closed hcb) hi hcb' ha
  rw [← heq] at he hnone
  have hintact : Intact s (s.call (.close p freed a)).1 := hr.failed e he
  simp [hintact.mqcb i, hcb] at hnone

/-- The control block that `LOS_QueueCreate` gives has no entry. -/
theorem MqTables.fresh (h : MqTables s) (hq : q < queueLimit) (hunused : s.queue q = .unused) :
    (s.table q).mqcb = none := by
  cases hcb : (s.table q).mqcb with
  | none => rfl
  | some q' => simp [(h.mqcb q hq q' hcb).2.1] at hunused

/-- The tables with the new queue. -/
@[simp] def Mqueues.created (s : Mqueues) (q : Nat) (name : List UInt8) (p : Nat) : Mqueues :=
  ((s.setQueue q .posix).setEntry q fun _ => ⟨q, false, some name, some q, [p]⟩).setPosixdes p (some q)

theorem MqTables.created (h : MqTables s) (hq : q < queueLimit) (hp : p ≠ 0 ∧ p ≠ 2 ^ 32 - 1)
    (name : List UInt8) : MqTables (s.created q name p) := by
  have hself : (s.created q name p).table q = ⟨q, false, some name, some q, [p]⟩ ∧
      (s.created q name p).queue q = .posix := by
    simp
  refine h.change (fun j hj => ⟨update_of_ne hj .., update_of_ne hj ..⟩) (fun _ => ?_) (fun _ q' hcb => ?_)
    (fun _ hnone => ?_) fun p' i hdes => ?_
  · rw [hself.1]
    exact ⟨hq, rfl⟩
  · rw [hself.1] at hcb ⊢
    exact ⟨(some.inj hcb).symm, hself.2, rfl⟩
  · simp at hnone
  by_cases hpp : p' = p
  · rw [hpp] at hdes ⊢
    simp only [Mqueues.created, Mqueues.setPosixdes, update_self, some.injEq] at hdes
    rw [← hdes]
    exact ⟨hq, hp⟩
  · simp only [Mqueues.created, Mqueues.setPosixdes, update_of_ne hpp] at hdes
    exact h.des p' i hdes

/-- A number is left in an entry that is not in use. -/
theorem unchanged_setEntry (hcb : (s.table q).mqcb = none) :
    Unchanged s (s.setEntry q fun e => { e with mqId := q }) := by
  refine ⟨rfl, rfl, ?_, ?_⟩
  · intro i
    by_cases hi : i = q
    · simp [hi]
    · simp [hi]
  intro i hi
  have hiq : i ≠ q := by
    rintro rfl
    exact hi hcb
  simp [hiq]

theorem MqTables.setId (h : MqTables s) (hcb : (s.table q).mqcb = none) :
    MqTables (s.setEntry q fun e => { e with mqId := q }) := by
  have hself : (s.setEntry q fun e => { e with mqId := q }).table q = { s.table q with mqId := q } := update_self ..
  refine h.change (fun j hj => ⟨update_of_ne hj .., rfl⟩) ?_ ?_ ?_ h.des <;> rw [hself]
  · exact h.queue q
  · simp [hcb]
  · exact h.free q

variable {g : MqGrant}

/-- `DoMqueueCreate` with a control block. -/
theorem doMqueueCreate_eq (h : MqTables s) (hq : q < queueLimit)
    (hunused : s.queue q = .unused) (hg : g.queue = .ok q) (name : List UInt8) :
    s.doMqueueCreate name g =
      if g.name = false then
        ((s.setQueue q .posix).setEntry q fun e => { e with mqId := q }, .error .enomem)
      else
        match g.personal with
        | none =>
          (if g.delete.refuses then (s.setQueue q .posix).setEntry q fun e => { e with mqId := q }
            else s.setEntry q fun e => { e with mqId := q }, .error .enospc)
        | some p => (s.created q name p, .ok p) := by
  have hcb := h.fresh hq hunused
  obtain ⟨hname, hpersonal⟩ := h.free q hq hcb
  have hkeep : update s.queue q .unused = s.queue := by rw [← hunused, update_eq_self]
  rw [Mqueues.doMqueueCreate, hg]
  simp only [Mqueues.setQueue, Mqueues.setEntry, hcb]
  cases hgn : g.name with
  | false => simp [hname]
  | true =>
    cases hp : g.personal with
    | none =>
      cases g.delete <;>
        simp [Mqueues.queueDelete, QueueAnswer.refuses, hkeep, hname, hpersonal]
    | some p => simp

theorem possible_queue (hpos : g.possible s = true) (hg : g.queue = .ok q) :
    q < queueLimit ∧ s.queue q = .unused := by
  simp only [MqGrant.possible, hg, Except.toOption, and_eq_true, all_some,
    decide_eq_true_eq] at hpos
  exact hpos.1

theorem possible_personal (hpos : g.possible s = true) (hg : g.personal = some p) :
    p ≠ 0 ∧ p ≠ 2 ^ 32 - 1 := by
  simp only [MqGrant.possible, hg, and_eq_true, all_some, decide_eq_true_eq] at hpos
  exact ⟨hpos.2.1, hpos.2.2.1⟩

section
variable (h : MqTables s)
include h

theorem MqTables.doMqueueCreate (hpos : g.possible s = true)
    (hc : g.queue.toOption ≠ none → g.name = true ∧ (g.personal = none → g.delete.refuses = false))
    (name : List UInt8) : MqTables (s.doMqueueCreate name g).1 ∧
      ∀ e, (s.doMqueueCreate name g).2 = .error e → Unchanged s (s.doMqueueCreate name g).1 := by
  cases hg : g.queue with
  | error err =>
    rw [Mqueues.doMqueueCreate, hg]
    exact ⟨h, fun _ _ => Unchanged.refl s⟩
  | ok q =>
    obtain ⟨hq, hunused⟩ := possible_queue hpos hg
    obtain ⟨hname, hdelete⟩ := hc (by simp [hg, Except.toOption])
    have hcb := h.fresh hq hunused
    rw [doMqueueCreate_eq h hq hunused hg, if_neg (by simp [hname])]
    cases hp : g.personal with
    | none =>
      rw [hdelete hp]
      exact ⟨h.setId hcb, fun _ _ => unchanged_setEntry hcb⟩
    | some p => exact ⟨h.created hq (possible_personal hpos hp) name, fun e he => by cases he⟩

theorem MqTables.doMqueueOpen (hpos : g.possible s = true)
    (hi : i < queueLimit) (hcb : (s.table i).mqcb = some i) : MqTables (s.doMqueueOpen i g).1 ∧
      ∀ e, (s.doMqueueOpen i g).2 = .error e → Unchanged s (s.doMqueueOpen i g).1 := by
  unfold Mqueues.doMqueueOpen
  split_ifs with hflag
  · exact ⟨h, fun _ _ => Unchanged.refl s⟩
  cases hp : g.personal with
  | none => exact ⟨h, fun _ _ => Unchanged.refl s⟩
  | some p =>
    have hs : MqTables (s.setEntry i fun e => { e with mqPersonal := p :: e.mqPersonal }) :=
      MqTables.setEntry h hcb (by intro e; exact ⟨rfl, rfl⟩)
    refine ⟨hs.setPosixdes ?_, fun e he => by cases he⟩
    intro j hj
    cases hj
    exact ⟨hi, possible_personal hpos hp⟩

theorem MqTables.mqOpen {mqName : Option (List UInt8)} {oCreat oExcl : Bool} {attr : Option MqAttr}
    (hpos : g.possible s = true)
    (hc : Completes s (.open mqName oCreat oExcl attr g)) :
    MqTables (s.mqOpen mqName oCreat oExcl attr g).1 ∧
      ∀ e, (s.mqOpen mqName oCreat oExcl attr g).2 = .error e →
        Unchanged s (s.mqOpen mqName oCreat oExcl attr g).1 := by
  unfold Mqueues.mqOpen
  cases hcheck : Mqueues.mqNameCheck mqName with
  | error e => exact ⟨h, fun _ _ => Unchanged.refl s⟩
  | ok name =>
    dsimp only
    cases hfind : s.getMqueueCBByName name with
    | some i =>
      obtain ⟨hi, hname⟩ := getMqueueCBByName_some hfind
      dsimp only
      split_ifs with hexcl
      · exact ⟨h, fun _ _ => Unchanged.refl s⟩
      · exact h.doMqueueOpen hpos hi (h.inUse hi (.inl (by simp [hname])))
    | none =>
      dsimp only
      split_ifs with hcreat hattr
      · exact ⟨h, fun _ _ => Unchanged.refl s⟩
      · exact ⟨h, fun _ _ => Unchanged.refl s⟩
      · exact h.doMqueueCreate hpos (hc name (by simp [hcheck, Except.toOption]) hfind
          (by simpa using hcreat) (by simpa using hattr)) name

/-- A queue is created and forgotten. -/
theorem not_linked_lost (hunused : s.queue q = .unused) :
    ¬ Linked ((s.setQueue q .posix).setEntry q fun e => { e with mqId := q }) := by
  apply not_linked (q := q)
  · simp
  intro i hi hcb
  have hold : (s.table i).mqcb = some q := by
    by_cases hiq : i = q
    · simpa [hiq] using hcb
    · simpa [hiq] using hcb
  obtain ⟨rfl, hposix, -⟩ := h.mqcb i hi q hold
  simp [hposix] at hunused

theorem completes_of_mqOpen {mqName : Option (List UInt8)} {oCreat oExcl : Bool}
    {attr : Option MqAttr} (hpos : g.possible s = true)
    (hr : Right s (.open mqName oCreat oExcl attr g)) :
    Completes s (.open mqName oCreat oExcl attr g) := by
  intro name hcheck hfind hcreat hattr hqueue
  have hok := mqNameCheck_of_mem hcheck
  obtain ⟨q, hg⟩ : ∃ q, g.queue = .ok q := by
    cases hq : g.queue with
    | error err => simp [hq, Except.toOption] at hqueue
    | ok q => exact ⟨q, rfl⟩
  obtain ⟨hq, hunused⟩ := possible_queue hpos hg
  have hlinked := hr.linked
  have heq : s.call (.open mqName oCreat oExcl attr g) = s.doMqueueCreate name g := by
    change s.mqOpen mqName oCreat oExcl attr g = _
    rw [Mqueues.mqOpen, hok]
    dsimp only
    rw [hfind]
    simp [hcreat, hattr]
  rw [heq, doMqueueCreate_eq h hq hunused hg] at hlinked
  cases hname : g.name with
  | false =>
    rw [if_pos hname] at hlinked
    exact absurd hlinked (not_linked_lost h hunused)
  | true =>
    refine ⟨rfl, fun hp => ?_⟩
    rw [if_neg (by simp [hname]), hp] at hlinked
    cases hd : g.delete.refuses with
    | false => rfl
    | true =>
      rw [if_pos hd] at hlinked
      exact absurd hlinked (not_linked_lost h hunused)

/-- A call does what it is to do iff it meets the condition. -/
theorem MqTables.right_iff {c : MqCall} (hpos : c.possible s = true) : Right s c ↔ Completes s c := by
  cases c with
  | «open» mqName oCreat oExcl attr g =>
    refine ⟨completes_of_mqOpen h hpos, fun hc => ?_⟩
    obtain ⟨hs, hfailed⟩ := h.mqOpen hpos hc
    exact ⟨hs.linked, hfailed⟩
  | close p freed a =>
    refine ⟨completes_of_mqClose h, fun hc => ?_⟩
    obtain ⟨hs, hfailed⟩ := h.mqClose hc
    exact ⟨hs.linked, hfailed⟩
  | unlink mqName a =>
    refine ⟨completes_of_mqUnlink h, fun hc => ?_⟩
    obtain ⟨hs, hfailed⟩ := h.mqUnlink hc
    exact ⟨hs.linked, hfailed⟩

theorem MqTables.step {c : MqCall} {s' : Mqueues} (hc : Completes s c)
    (hstep : s.step c = some s') : MqTables s' := by
  obtain ⟨hpos, ⟨⟩⟩ := ite_none_right_eq_some.mp hstep
  cases c with
  | «open» => exact (h.mqOpen hpos hc).1
  | close => exact (h.mqClose hc).1
  | unlink => exact (h.mqUnlink hc).1

end

end

theorem mqTables_init (other : Nat → Bool) : MqTables (.init other) := by
  refine ⟨?_, ?_, ?_, ?_⟩
  · intro q hq
    simp only [Mqueues.init] at hq
    split_ifs at hq
  · intro i _ q hq
    cases hq
  · intro i _ _
    exact ⟨rfl, rfl⟩
  · intro p i hp
    cases hp

/-- After every sequence of calls in which a creation gets the memory for the name and a deletion succeeds,
beside any other queues and whatever else fails: the queues are linked, and the next call does what it is
to do iff it meets the condition too. -/
theorem mq_lifecycle (other : Nat → Bool) (calls : List MqCall) (s : Mqueues)
    (hcomplete : Guarded Mqueues.step Completes (.init other) calls)
    (hexec : exec Mqueues.step (.init other) calls = some s) :
    Linked s ∧ ∀ c, c.possible s = true → (Right s c ↔ Completes s c) := by
  have hs : MqTables s := exec_inv_guarded (fun _ _ _ h hok hstep => MqTables.step h hok hstep)
    (mqTables_init other) hcomplete hexec
  exact ⟨hs.linked, fun c hpos => hs.right_iff hpos⟩

instance decidableCompletes (s : Mqueues) (c : MqCall) : Decidable (Completes s c) := by
  cases c <;> unfold Completes <;> infer_instance

/-- `mq_open` with `O_CREAT` for the name `a`. -/
def createA (queue : Except ErrNo Nat) (name : Bool) (personal : Option Nat) : MqCall :=
  .open (some [97]) true false none ⟨queue, name, personal, .deleted⟩

/-- A creation gets no descriptor, the next one does; a second descriptor is opened, the name unlinked, and
with the second `mq_close` the queue is deleted. Queue 0 belongs to somebody else. -/
def openUnlinkClose : List MqCall :=
  [createA (.ok 1) true none, createA (.ok 1) true (some 0x1000), createA (.ok 2) true (some 0x1010),
    .unlink (some [97]) .inTskuse, .close 0x1000 true .inTskuse, .close 0x1010 true .deleted]

theorem mq_lifecycle_openUnlinkClose :
    ∃ s, exec Mqueues.step (.init (· == 0)) openUnlinkClose = some s ∧ s.queue 1 = .unused ∧ Linked s ∧
      ∀ c, c.possible s = true → (Right s c ↔ Completes s c) := by
  obtain ⟨s, hs, hqueue⟩ : ∃ s, exec Mqueues.step (.init (· == 0)) openUnlinkClose = some s ∧
      s.queue 1 = .unused := ⟨_, rfl, rfl⟩
  exact ⟨s, hs, hqueue, mq_lifecycle (· == 0) openUnlinkClose s (by decide +kernel) hs⟩

/-- Without memory for the name the new queue stays, and no entry refers to it; and an `mq_close` whose
`LOS_QueueDelete` finds a blocked task loses the entry. -/
theorem mq_lifecycle_loses_queue :
    (exec Mqueues.step (.init fun _ => false) [createA (.ok 0) false none]).any
        (fun s => decide (s.queue 0 = .posix ∧ ∀ i < queueLimit, (s.table i).mqcb = none)) = true ∧
      (exec Mqueues.step (.init fun _ => false)
          [createA (.ok 0) true (some 0x1000), .unlink (some [97]) .deleted,
            .close 0x1000 true .inTskuse]).any
        (fun s => decide (s.queue 0 = .posix ∧ ∀ i < queueLimit, (s.table i).mqcb = none)) = true := by
  decide +kernel

end LiteosM.Posix
