import LiteosM.Kernel.Ipc
import LiteosM.Lib.Bytes
import LiteosM.Lib.Window

/-!
# The messages of a queue

`OsQueueBufferOperate` and the calls built on it, on one queue whose wait lists are empty, so that a
call that does not wait (`LOS_NO_WAIT`) never meets another task. The buffer is a block of bytes cut
into `queueLen` nodes of `queueSize` bytes; the last four bytes of a node hold the size of its
message.

* **`queue_is_deque`**: the calls answer as a list of at most `queueLen` messages does;
* `empty_message_refused`: a message of no bytes is not appended.
-/

namespace LiteosM.Kernel

open LiteosM.Lib Function Nat

/-! ## The source -/

/-- `LosQueueCB` with its buffer. -/
structure LosQueue extends LosQueueCB where
  queue : Memory
  queueHead : Nat
  queueTail : Nat

/-- `OS_QUEUE_HEAD` and `OS_QUEUE_TAIL`. -/
inductive HeadTail where
  | head
  | tail
  deriving DecidableEq, Repr

/-- `OS_QUEUE_OPERATE_TYPE`. -/
structure OperateType where
  readWrite : ReadWrite
  headOrTail : HeadTail
  point : Bool
  deriving DecidableEq, Repr

/-- What a call leaves behind besides the queue: its error code, the bytes it puts into the caller's
buffer, and `*bufferSize`. -/
structure Reply where
  code : ErrNo
  delivered : List UInt8
  bufferSize : Nat
  deriving DecidableEq, Repr

/-- `LOS_MemAlloc` on the system heap: `none` when there is no room, and always when the block is
larger than the heap. -/
def memAlloc (size : Nat) (block : Option Memory) : Option Memory :=
  if size ≤ sysHeapSize then block else none

/-- `OsQueueCreate`; `block` is what the heap has, `cb` whether a control block is free. -/
def LosQueue.create (len maxMsgSize : UInt16) (block : Option Memory) (cb : Bool) : Except ErrNo LosQueue :=
  if maxMsgSize.toNat > maxMsgSizeMax then .error .queueSizeTooBig
  else if len = 0 ∨ maxMsgSize = 0 then .error .queueParaIszero
  else
    let msgSize := maxMsgSize.toNat + 4
    if (2 ^ 32 - 1) / msgSize < len.toNat then .error .queueSizeTooBig
    else
      match memAlloc (len.toNat * msgSize) block with
      | none => .error .queueCreateNoMemory
      | some queue =>
        if !cb then .error .queueCbUnavailable
        else
          .ok
            { used := true
              queueLen := len.toNat
              queueSize := msgSize
              readable := 0
              writeable := len.toNat
              queue := queue
              queueHead := 0
              queueTail := 0 }

/-- `memcpy_s` into the buffer: a copy that does not fit clears its target. -/
def memcpyS (m : Memory) (dest destMax : Nat) (src : List UInt8) : Memory :=
  if destMax = 0 ∨ destMax > securecMemMaxLen then m
  else if src.length > destMax then writeBytes m dest (List.replicate destMax 0)
  else writeBytes m dest src

namespace LosQueue

variable (c : LosQueue)

/-- Writes `readWriteableCnt[rw]`. -/
def setCount (rw : ReadWrite) (n : Nat) : LosQueue :=
  { c with toLosQueueCB := c.toLosQueueCB.setCnt rw n }

/-- The address of a node in the block; the product is one of 32-bit numbers. -/
def node (position : Nat) : Nat := position * c.queueSize % 2 ^ 32

/-- The switch of `OsQueueBufferOperate`: the position, and the indices moved on. There is no
`OS_QUEUE_READ_TAIL`. -/
def position : ReadWrite → HeadTail → Option (Nat × LosQueue)
  | .read, .head => some (c.queueHead, { c with queueHead := next c.queueLen c.queueHead })
  | .write, .head =>
    let c := { c with queueHead := prev c.queueLen c.queueHead }
    some (c.queueHead, c)
  | .write, .tail => some (c.queueTail, { c with queueTail := next c.queueLen c.queueTail })
  | .read, .tail => none

/-- `OsQueueBufferOperate`: the queue, the bytes put at `bufferAddr`, and `*bufferSize`; `buffer` are
the bytes that are there before. -/
def bufferOperate (op : OperateType) (buffer : List UInt8) (bufferSize : Nat) :
    LosQueue × List UInt8 × Nat :=
  match c.position op.readWrite op.headOrTail with
  | none => (c, [], bufferSize)
  | some (queuePosition, c) =>
    let queueNode := c.node queuePosition
    let trailer := queueNode + c.queueSize - 4
    match op.point, op.readWrite with
    | true, .read => (c, readBytes c.queue queueNode 4, bufferSize)
    | true, .write => ({ c with queue := writeBytes c.queue queueNode (buffer.take 4) }, [], bufferSize)
    | false, .read =>
      let msgDataSize := ofLe (readBytes c.queue trailer 4)
      let msgDataSize := if bufferSize < msgDataSize then bufferSize else msgDataSize
      if bufferSize = 0 ∨ bufferSize > securecMemMaxLen then (c, [], bufferSize)
      else (c, readBytes c.queue queueNode msgDataSize, msgDataSize)
    | false, .write =>
      let m := writeBytes c.queue trailer (le32 bufferSize)
      ({ c with queue := memcpyS m queueNode c.queueSize (buffer.take bufferSize) }, [], bufferSize)

/-- `OsQueueOperateParamCheck`. -/
def operateParamCheck (rw : ReadWrite) (bufferSize : Nat) : ErrNo :=
  if !c.used then .queueNotCreate
  else if rw = .write ∧ bufferSize > c.queueSize - 4 then .queueWriteSizeTooBig
  else if bufferSize ≥ securecMemMaxLen then .queueBufferSizeTooBig
  else .ok

/-- `OsQueueOperate` with `LOS_NO_WAIT` and empty wait lists. -/
def operate (op : OperateType) (buffer : List UInt8) (bufferSize : Nat) : LosQueue × Reply :=
  let rw := op.readWrite
  match c.operateParamCheck rw bufferSize with
  | .ok =>
    if c.readWriteableCnt rw = 0 then
      (c, ⟨match rw with | .read => .queueIsempty | .write => .queueIsfull, [], bufferSize⟩)
    else
      let c := c.setCount rw (c.readWriteableCnt rw - 1)
      let (c, delivered, bufferSize) := c.bufferOperate op buffer bufferSize
      (c.setCount rw.other ((c.readWriteableCnt rw.other + 1) % 2 ^ 16), ⟨.ok, delivered, bufferSize⟩)
  | e => (c, ⟨e, [], bufferSize⟩)

/-- `LOS_QueueReadCopy`; `pointers` says that neither pointer is null. -/
def readCopy (pointers : Bool) (bufferSize : Nat) : LosQueue × Reply :=
  if !pointers then (c, ⟨.queueReadPtrNull, [], bufferSize⟩)
  else if bufferSize = 0 then (c, ⟨.queueReadsizeIszero, [], bufferSize⟩)
  else c.operate ⟨.read, .head, false⟩ [] bufferSize

/-- `LOS_QueueWriteCopy` and `LOS_QueueWriteHeadCopy` of the bytes at `bufferAddr`, or of a null
pointer. -/
def writeCopyAt (headOrTail : HeadTail) : Option (List UInt8) → LosQueue × Reply
  | none => (c, ⟨.queueWritePtrNull, [], 0⟩)
  | some buffer =>
    if buffer.length = 0 then (c, ⟨.queueWritesizeIszero, [], 0⟩)
    else c.operate ⟨.write, headOrTail, false⟩ buffer buffer.length

/-- `LOS_QueueWriteCopy`. -/
def writeCopy (buffer : Option (List UInt8)) : LosQueue × Reply := c.writeCopyAt .tail buffer

/-- `LOS_QueueWriteHeadCopy`. -/
def writeHeadCopy (buffer : Option (List UInt8)) : LosQueue × Reply := c.writeCopyAt .head buffer

/-- `LOS_QueueWriteHead`: the message is the pointer itself. -/
def writeHead (bufferAddr : UInt32) : LosQueue × Reply :=
  if bufferAddr = 0 then (c, ⟨.queueWritePtrNull, [], 4⟩)
  else c.writeHeadCopy (some (le32 bufferAddr.toNat))

end LosQueue

/-- The calls that do not wait. -/
inductive QueueCall where
  | writeCopy (buffer : Option (List UInt8))
  | writeHeadCopy (buffer : Option (List UInt8))
  | writeHead (bufferAddr : UInt32)
  | readCopy (pointers : Bool) (bufferSize : Nat)
  deriving DecidableEq, Repr

/-- One call, without waiting. -/
def LosQueue.call (c : LosQueue) : QueueCall → LosQueue × Reply
  | .writeCopy buffer => c.writeCopy buffer
  | .writeHeadCopy buffer => c.writeHeadCopy buffer
  | .writeHead bufferAddr => c.writeHead bufferAddr
  | .readCopy pointers bufferSize => c.readCopy pointers bufferSize

/-- The replies to a sequence of calls, and the queue after it. -/
def LosQueue.calls (c : LosQueue) : List QueueCall → LosQueue × List Reply
  | [] => (c, [])
  | q :: qs =>
    let (c, r) := c.call q
    let (c, rs) := c.calls qs
    (c, r :: rs)

/-! ## The queue as a list of messages -/

/-- A message. -/
abbrev Msg := List UInt8

namespace Deque

/-- A write to a list of at most `len` messages of at most `maxMsgSize` bytes. -/
def write (len maxMsgSize : Nat) (headOrTail : HeadTail) (l : List Msg) : Option Msg → List Msg × Reply
  | none => (l, ⟨.queueWritePtrNull, [], 0⟩)
  | some msg =>
    if msg.length = 0 then (l, ⟨.queueWritesizeIszero, [], 0⟩)
    else if msg.length > maxMsgSize then (l, ⟨.queueWriteSizeTooBig, [], msg.length⟩)
    else if l.length = len then (l, ⟨.queueIsfull, [], msg.length⟩)
    else
      match headOrTail with
      | .head => (msg :: l, ⟨.ok, [], msg.length⟩)
      | .tail => (l ++ [msg], ⟨.ok, [], msg.length⟩)

/-- A read takes the first message, as far as the buffer goes. -/
def read (l : List Msg) (pointers : Bool) (bufferSize : Nat) : List Msg × Reply :=
  if !pointers then (l, ⟨.queueReadPtrNull, [], bufferSize⟩)
  else if bufferSize = 0 then (l, ⟨.queueReadsizeIszero, [], bufferSize⟩)
  else if bufferSize ≥ securecMemMaxLen then (l, ⟨.queueBufferSizeTooBig, [], bufferSize⟩)
  else
    match l with
    | [] => ([], ⟨.queueIsempty, [], bufferSize⟩)
    | msg :: l => (l, ⟨.ok, msg.take bufferSize, min bufferSize msg.length⟩)

/-- One call, on the list of the messages. -/
def call (len maxMsgSize : Nat) (l : List Msg) : QueueCall → List Msg × Reply
  | .writeCopy buffer => write len maxMsgSize .tail l buffer
  | .writeHeadCopy buffer => write len maxMsgSize .head l buffer
  | .writeHead bufferAddr =>
    if bufferAddr = 0 then (l, ⟨.queueWritePtrNull, [], 4⟩)
    else write len maxMsgSize .head l (some (le32 bufferAddr.toNat))
  | .readCopy pointers bufferSize => read l pointers bufferSize

/-- Some calls, with their replies. -/
def calls (len maxMsgSize : Nat) (l : List Msg) : List QueueCall → List Msg × List Reply
  | [] => (l, [])
  | q :: qs =>
    let (l, r) := call len maxMsgSize l q
    let (l, rs) := calls len maxMsgSize l qs
    (l, r :: rs)

end Deque

/-- The message in a node. -/
def LosQueue.message (c : LosQueue) (position : Nat) : Msg :=
  readBytes c.queue (c.node position) (ofLe (readBytes c.queue (c.node position + c.queueSize - 4) 4))

/-- The queue holds the messages `l`. -/
structure Holds (len maxMsgSize : Nat) (c : LosQueue) (l : List Msg) : Prop where
  used : c.used = true
  length : c.queueLen = len
  size : c.queueSize = maxMsgSize + 4
  room : len * (maxMsgSize + 4) ≤ sysHeapSize
  short : len < 2 ^ 16 ∧ maxMsgSize ≤ maxMsgSizeMax
  read : c.readable = l.length
  write : c.writeable + l.length = len
  head : c.queueHead < len
  tail : c.queueTail = (c.queueHead + l.length) % len
  fits : ∀ msg ∈ l, msg.length ≤ maxMsgSize
  msgs : window len c.queueHead l.length c.message = l

section
variable {len maxMsgSize p : Nat} {c c' : LosQueue} {l : List Msg}

section
variable (h : Holds len maxMsgSize c l)
include h

theorem Holds.pos : 0 < len := zero_lt_of_lt h.head

/-- The nodes lie in the heap, so that no address wraps around. -/
theorem Holds.node (hp : p < len) : c.node p = p * c.queueSize := by
  have hle : p * c.queueSize ≤ len * (maxMsgSize + 4) := by
    rw [h.size]
    exact mul_le_mul_right _ hp.le
  have hroom := h.room
  unfold sysHeapSize at hroom
  exact mod_eq_of_lt (by omega)

/-- The nodes of two positions do not meet. -/
theorem Holds.node_disjoint {j : Nat} (hj : j < len) (hp : p < len)
    (hne : j ≠ p) : c.node j + c.queueSize ≤ c.node p ∨ c.node p + c.queueSize ≤ c.node j := by
  rw [h.node hj, h.node hp]
  rcases lt_or_gt_of_ne hne with hlt | hlt
  · exact .inl (by rw [← succ_mul]; exact mul_le_mul_right _ hlt)
  · exact .inr (by rw [← succ_mul]; exact mul_le_mul_right _ hlt)

end

/-- What the write branch of `OsQueueBufferOperate` puts into a node. -/
def LosQueue.stored (c : LosQueue) (position : Nat) (msg : Msg) : Memory :=
  memcpyS (writeBytes c.queue (c.node position + c.queueSize - 4) (le32 msg.length)) (c.node position)
    c.queueSize msg

section
variable (h : Holds len maxMsgSize c l)
include h

/-- **Storing a message changes one node, and reading it back gives the message.** -/
theorem Holds.stored (hp : p < len) {msg : Msg}
    (hmsg : msg.length ≤ maxMsgSize) (hq : c'.queue = c.stored p msg) (hs : c'.queueSize = c.queueSize)
    {j : Nat} (hj : j < len) (hin : j = p ∨ c.message j ∈ l) :
    c'.message j = update c.message p msg j := by
  have hsize := h.size
  obtain ⟨-, hmax⟩ := h.short
  unfold maxMsgSizeMax at hmax
  have hnode : ∀ i, c'.node i = c.node i := fun i => by
    unfold LosQueue.node
    rw [hs]
  -- the copy fits, with the size behind it
  have hmem : c'.queue = writeBytes (writeBytes c.queue (c.node p + c.queueSize - 4) (le32 msg.length))
      (c.node p) msg := by
    rw [hq, LosQueue.stored, memcpyS, if_neg, if_neg]
    · omega
    · unfold securecMemMaxLen
      omega
  unfold LosQueue.message
  rw [hnode, hs, hmem]
  by_cases hjp : j = p
  · subst hjp
    have htrail : readBytes (writeBytes (writeBytes c.queue (c.node j + c.queueSize - 4) (le32 msg.length))
        (c.node j) msg) (c.node j + c.queueSize - 4) 4 = le32 msg.length := by
      rw [readBytes_writeBytes_disjoint (by omega)]
      exact readBytes_writeBytes _ _ (le32 msg.length)
    rw [htrail, ofLe_le32 (by omega), readBytes_writeBytes, update_self]
  have hdis := h.node_disjoint hj hp hjp
  have htrail : readBytes (writeBytes (writeBytes c.queue (c.node p + c.queueSize - 4) (le32 msg.length))
      (c.node p) msg) (c.node j + c.queueSize - 4) 4 =
        readBytes c.queue (c.node j + c.queueSize - 4) 4 := by
    rw [readBytes_writeBytes_disjoint (by omega),
      readBytes_writeBytes_disjoint (by rw [length_le32]; omega)]
  -- the message of the other node ends before its size
  have hlen : ofLe (readBytes c.queue (c.node j + c.queueSize - 4) 4) ≤ maxMsgSize := by
    have := h.fits _ (hin.resolve_left hjp)
    unfold LosQueue.message at this
    rwa [length_readBytes] at this
  rw [htrail, update_of_ne hjp, readBytes_writeBytes_disjoint (by omega),
    readBytes_writeBytes_disjoint (by rw [length_le32]; omega)]

theorem Holds.operateParamCheck_write (n : Nat) :
    c.operateParamCheck .write n = if n > maxMsgSize then .queueWriteSizeTooBig else .ok := by
  have hmax := h.short.2
  unfold maxMsgSizeMax at hmax
  unfold LosQueue.operateParamCheck
  rw [h.used, h.size, if_neg (by simp)]
  by_cases hn : n > maxMsgSize
  · rw [if_pos ⟨rfl, hn⟩, if_pos hn]
  · rw [if_neg (fun hc => hn hc.2), if_neg, if_neg hn]
    unfold securecMemMaxLen
    omega

theorem Holds.operateParamCheck_read (n : Nat) :
    c.operateParamCheck .read n = if n ≥ securecMemMaxLen then .queueBufferSizeTooBig else .ok := by
  unfold LosQueue.operateParamCheck
  rw [h.used, if_neg (by simp), if_neg (fun hc => by cases hc.1)]

/-- A message is stored at position `p`, and the counters and indices move on. -/
theorem Holds.push {msg : Msg} {head : Nat} {l' : List Msg}
    (hmsg : msg.length ≤ maxMsgSize) (hfull : l.length < len) (hp : p < len)
    (hq : c'.queue = c.stored p msg) (hused : c'.used = true) (hqlen : c'.queueLen = c.queueLen)
    (hsize : c'.queueSize = c.queueSize) (hread : c'.readable = c.readable + 1)
    (hwrite : c'.writeable = c.writeable - 1) (hhead : c'.queueHead = head) (hheadlt : head < len)
    (htail : c'.queueTail = (head + (l.length + 1)) % len) (hl' : l'.length = l.length + 1)
    (hmem : ∀ m ∈ l', m = msg ∨ m ∈ l)
    (hin : ∀ i < l.length + 1, (head + i) % len = p ∨ c.message ((head + i) % len) ∈ l)
    (hwin : window len head (l.length + 1) (update c.message p msg) = l') :
    Holds len maxMsgSize c' l' where
  __ := h
  used := hused
  length := hqlen.trans h.length
  size := hsize.trans h.size
  read := by rw [hread, h.read, hl']
  write := by
    have := h.write
    omega
  head := hhead ▸ hheadlt
  tail := by rw [htail, hhead, hl']
  fits m hm := by
    rcases hmem m hm with rfl | hm
    · exact hmsg
    · exact h.fits m hm
  msgs := by
    rw [hhead, hl', ← hwin]
    exact window_congr fun i hi => h.stored hp hmsg hq hsize (mod_lt _ h.pos) (hin i hi)

theorem Holds.mem_message {i : Nat} (hi : i < l.length) : c.message ((c.queueHead + i) % len) ∈ l := by
  have hm : c.message ((c.queueHead + i) % len) ∈ window len c.queueHead l.length c.message :=
    mem_window hi
  rwa [h.msgs] at hm

end

/-- What a write that is not refused does. -/
theorem LosQueue.operate_write (c : LosQueue) (ht : HeadTail) (msg : Msg)
    (hok : c.operateParamCheck .write msg.length = .ok) (hw : c.writeable ≠ 0) :
    (c.operate ⟨.write, ht, false⟩ msg msg.length).2 = ⟨.ok, [], msg.length⟩ ∧
      (c.operate ⟨.write, ht, false⟩ msg msg.length).1 =
        match ht with
        | .head =>
          { c with
            readable := (c.readable + 1) % 2 ^ 16
            writeable := c.writeable - 1
            queueHead := prev c.queueLen c.queueHead
            queue := c.stored (prev c.queueLen c.queueHead) msg }
        | .tail =>
          { c with
            readable := (c.readable + 1) % 2 ^ 16
            writeable := c.writeable - 1
            queueTail := next c.queueLen c.queueTail
            queue := c.stored c.queueTail msg } := by
  unfold LosQueue.operate
  dsimp only
  rw [hok]
  rw [if_neg (show ¬c.readWriteableCnt .write = 0 from hw)]
  cases ht <;>
    simp only [LosQueue.bufferOperate, LosQueue.position, LosQueue.setCount, LosQueueCB.setCnt,
      List.take_length, LosQueue.stored] <;>
    exact ⟨trivial, rfl⟩

theorem Holds.writeCopyAt (h : Holds len maxMsgSize c l) (ht : HeadTail) (buffer : Option Msg) :
    (c.writeCopyAt ht buffer).2 = (Deque.write len maxMsgSize ht l buffer).2 ∧
      Holds len maxMsgSize (c.writeCopyAt ht buffer).1 (Deque.write len maxMsgSize ht l buffer).1 := by
  cases buffer with
  | none => exact ⟨rfl, h⟩
  | some msg =>
    unfold LosQueue.writeCopyAt Deque.write
    dsimp only
    by_cases hzero : msg.length = 0
    · rw [if_pos hzero, if_pos hzero]
      exact ⟨rfl, h⟩
    rw [if_neg hzero, if_neg hzero]
    have hcheck := h.operateParamCheck_write msg.length
    by_cases hbig : msg.length > maxMsgSize
    · rw [if_pos hbig] at hcheck ⊢
      unfold LosQueue.operate
      dsimp only
      rw [hcheck]
      exact ⟨rfl, h⟩
    rw [if_neg hbig] at hcheck ⊢
    have hcount := h.write
    split_ifs with hfull
    · unfold LosQueue.operate
      dsimp only
      rw [hcheck]
      rw [if_pos (show c.readWriteableCnt .write = 0 by change c.writeable = 0; omega)]
      exact ⟨rfl, h⟩
    have hlt : l.length < len := by omega
    obtain ⟨hreply, hqueue⟩ := c.operate_write ht msg hcheck (by omega)
    rw [hreply, hqueue]
    have hread : (c.readable + 1) % 2 ^ 16 = c.readable + 1 := by
      have := h.read
      have := h.short.1
      exact mod_eq_of_lt (by omega)
    have hmsg : msg.length ≤ maxMsgSize := not_lt.mp hbig
    cases ht with
    | head =>
      have hp := prev_lt h.head
      refine ⟨rfl, h.push hmsg hlt (h.length ▸ hp) rfl h.used rfl rfl hread rfl rfl (h.length ▸ hp) ?_ rfl
        (by simp) (fun i hi => ?_) ?_⟩
      · rw [h.tail, h.length, back_prev h.head]
      · rw [h.length]
        cases i with
        | zero => exact .inl (mod_eq_of_lt (prev_lt h.head))
        | succ i =>
          rw [← back_prev h.head]
          exact .inr (h.mem_message (by omega))
      · rw [h.length, window_front h.head hlt, h.msgs]
    | tail =>
      have hp : c.queueTail < len := h.tail ▸ mod_lt _ h.pos
      refine ⟨rfl, h.push hmsg hlt hp rfl h.used rfl rfl hread rfl rfl h.head ?_ (by simp) (by simp [or_comm])
        (fun i hi => ?_) ?_⟩
      · rw [h.length, next_eq hp, h.tail, mod_add_mod, add_assoc]
      · by_cases hi' : i = l.length
        · rw [hi', ← h.tail]
          exact .inl rfl
        · exact .inr (h.mem_message (by omega))
      · rw [h.tail, window_back hlt, h.msgs]

/-- What a read that is not refused does. -/
theorem LosQueue.operate_read (c : LosQueue) {n : Nat} (hok : c.operateParamCheck .read n = .ok)
    (hr : c.readable ≠ 0) (hn : n ≠ 0) (hmax : ¬n > securecMemMaxLen) :
    (c.operate ⟨.read, .head, false⟩ [] n).2 =
        ⟨.ok, (c.message c.queueHead).take n, min n (c.message c.queueHead).length⟩ ∧
      (c.operate ⟨.read, .head, false⟩ [] n).1 =
        { c with
          readable := c.readable - 1
          writeable := (c.writeable + 1) % 2 ^ 16
          queueHead := next c.queueLen c.queueHead } := by
  have hmin : ∀ size, (if n < size then n else size) = min n size := fun size => by
    split_ifs <;> omega
  unfold LosQueue.operate
  dsimp only
  rw [hok]
  rw [if_neg (show ¬c.readWriteableCnt .read = 0 from hr)]
  simp only [LosQueue.bufferOperate, LosQueue.position, hmin]
  rw [if_neg (by simp [hn, hmax])]
  refine ⟨?_, rfl⟩
  rw [LosQueue.message, take_readBytes, length_readBytes]
  rfl

theorem Holds.pop {msg : Msg} (h : Holds len maxMsgSize c (msg :: l)) :
    c.message c.queueHead = msg ∧
      Holds len maxMsgSize
        { c with
          readable := c.readable - 1
          writeable := (c.writeable + 1) % 2 ^ 16
          queueHead := next c.queueLen c.queueHead } l := by
  have hmsgs := h.msgs
  rw [List.length_cons, window_cons h.head, List.cons.injEq] at hmsgs
  have hread := h.read
  have hwrite := h.write
  have hshort := h.short.1
  rw [List.length_cons] at hread hwrite
  refine ⟨hmsgs.1, ?_⟩
  exact
    { h with
      read := by rw [hread, Nat.add_sub_cancel]
      write := by
        dsimp only
        omega
      head := by
        rw [h.length]
        exact next_lt h.head
      tail := by
        rw [h.tail, h.length, back_next h.head (by simp), List.length_cons, Nat.add_sub_cancel]
      fits := fun m hm => h.fits m (List.mem_cons_of_mem msg hm)
      msgs := by
        rw [h.length]
        exact hmsgs.2 }

section
variable (h : Holds len maxMsgSize c l)
include h

theorem Holds.readCopy (pointers : Bool) (n : Nat) :
    (c.readCopy pointers n).2 = (Deque.read l pointers n).2 ∧
      Holds len maxMsgSize (c.readCopy pointers n).1 (Deque.read l pointers n).1 := by
  unfold LosQueue.readCopy Deque.read
  cases pointers with
  | false => exact ⟨rfl, h⟩
  | true =>
    simp only [Bool.not_true, Bool.false_eq_true, if_false]
    by_cases hzero : n = 0
    · rw [if_pos hzero, if_pos hzero]
      exact ⟨rfl, h⟩
    have hcheck := h.operateParamCheck_read n
    split_ifs at hcheck ⊢ with hbig
    · unfold LosQueue.operate
      dsimp only
      rw [hcheck]
      exact ⟨rfl, h⟩
    cases l with
    | nil =>
      unfold LosQueue.operate
      dsimp only
      rw [hcheck]
      rw [if_pos (show c.readWriteableCnt .read = 0 from h.read)]
      exact ⟨rfl, h⟩
    | cons msg l =>
      have hr : c.readable ≠ 0 := by
        rw [h.read]
        simp
      obtain ⟨hreply, hqueue⟩ := c.operate_read hcheck hr hzero (by omega)
      obtain ⟨hmsg, hpop⟩ := h.pop
      rw [hreply, hqueue, hmsg]
      exact ⟨rfl, hpop⟩

/-- **One call.** -/
theorem Holds.call (q : QueueCall) : (c.call q).2 = (Deque.call len maxMsgSize l q).2 ∧
      Holds len maxMsgSize (c.call q).1 (Deque.call len maxMsgSize l q).1 := by
  cases q with
  | writeCopy buffer => exact h.writeCopyAt .tail buffer
  | writeHeadCopy buffer => exact h.writeCopyAt .head buffer
  | writeHead bufferAddr =>
    unfold LosQueue.call LosQueue.writeHead Deque.call
    dsimp only
    split_ifs with hnull
    · exact ⟨rfl, h⟩
    · exact h.writeCopyAt .head _
  | readCopy pointers bufferSize => exact h.readCopy pointers bufferSize

/-- **A sequence of calls.** -/
theorem Holds.calls (qs : List QueueCall) : (c.calls qs).2 = (Deque.calls len maxMsgSize l qs).2 ∧
      Holds len maxMsgSize (c.calls qs).1 (Deque.calls len maxMsgSize l qs).1 := by
  induction qs generalizing c l with
  | nil => exact ⟨rfl, h⟩
  | cons q qs ih =>
    obtain ⟨hreply, hnext⟩ := h.call q
    obtain ⟨hreplies, hlast⟩ := ih hnext
    exact ⟨congrArg₂ List.cons hreply hreplies, hlast⟩

end

end

/-- A new queue holds no message. -/
theorem holds_create {len maxMsgSize : UInt16} {block : Option Memory} {cb : Bool} {c : LosQueue}
    (hc : LosQueue.create len maxMsgSize block cb = .ok c) : Holds len.toNat maxMsgSize.toNat c [] := by
  unfold LosQueue.create at hc
  by_cases hbig : maxMsgSize.toNat > maxMsgSizeMax
  · simp [if_pos hbig] at hc
  rw [if_neg hbig] at hc
  by_cases hzero : len = 0 ∨ maxMsgSize = 0
  · simp [if_pos hzero] at hc
  rw [if_neg hzero] at hc
  by_cases hlarge : (2 ^ 32 - 1) / (maxMsgSize.toNat + 4) < len.toNat
  · rw [if_pos hlarge] at hc
    cases hc
  rw [if_neg hlarge] at hc
  cases hm : memAlloc (len.toNat * (maxMsgSize.toNat + 4)) block with
  | none => simp [hm] at hc
  | some queue =>
    rw [hm] at hc
    split_ifs at hc
    have hroom : len.toNat * (maxMsgSize.toNat + 4) ≤ sysHeapSize := by
      unfold memAlloc at hm
      split_ifs at hm with hle
      exact hle
    have hpos : 0 < len.toNat := by
      rw [not_or, ← UInt16.toNat_inj] at hzero
      exact Nat.pos_of_ne_zero hzero.1
    cases hc
    exact
      { used := rfl
        length := rfl
        size := rfl
        room := hroom
        short := ⟨len.toNat_lt, not_lt.mp hbig⟩
        read := rfl
        write := rfl
        head := hpos
        tail := (zero_mod _).symm
        fits := fun _ hm => by cases hm
        msgs := rfl }

end LiteosM.Kernel
