import LiteosM.Kernel.Data
import LiteosM.Lib.RollBuffer
import LiteosM.Lib.Since

/-!
# Pipes

Model of the data path of `pipe.c`: one pipe, with its ring buffer, its mutex, its two semaphores and
the threads that are in `PipeRead`, `PipeWrite` and `PipeClose`. A step of a thread goes from one call
of the kernel to the next, so that a thread can be overtaken at each of them, also while it holds the
mutex. The mutex and the semaphores do what they are for: `LOS_SemPost` wakes the first thread that
waits, and counts when there is none.

Left out: the descriptors (`Posix.PipeFd`), and the notification of `poll`, which touches nothing of
this.

* **`pipe_is_stream`**: what is read is what was written, in every interleaving. A read of more than
  `SECUREC_MEM_MAX_LEN` bytes loses data: `memcpy_s` refuses the length, and nobody looks at its
  answer.
-/

namespace LiteosM.Posix

open LiteosM.Lib LiteosM.Kernel Function List Option

/-- `PIPE_DEV_BUF_SIZE`. -/
def pipeDevBufSize : Nat := 1024

/-- `PipeRingbufferRead`: the bytes that the call says it has read, as they stand in the buffer of the
caller then. `memcpy_s` leaves that buffer as it is when `len` is too big. -/
def pipeRingbufferRead (dev : RollBuffer UInt8) (buf : Nat → UInt8) (len : Nat) :
    RollBuffer UInt8 × List UInt8 :=
  if dev.read = dev.write ∧ dev.roll = false then (dev, [])
  else
    let nbytes := min dev.readable len
    (dev.skip nbytes,
      if len ≤ securecMemMaxLen then dev.span dev.read (dev.read + nbytes)
      else (List.range nbytes).map buf)

/-- `PipeRingbufferWrite`. -/
def pipeRingbufferWrite (dev : RollBuffer UInt8) (buf : List UInt8) : RollBuffer UInt8 × Nat :=
  if dev.read = dev.write ∧ dev.roll = true then (dev, 0)
  else
    let nbytes := min dev.writable buf.length
    (dev.fill (buf.take nbytes), nbytes)

/-- The two ends of a pipe. `readSem` is the semaphore the readers wait for. -/
inductive End where
  | read
  | write
  deriving DecidableEq, Repr

/-- A semaphore of the pipe. -/
structure PipeSem where
  semCount : Nat
  waiting : List Nat
  deriving DecidableEq, Repr

/-- Where a thread is in `PipeRead`. -/
inductive ReadPc where
  /-- before the first `PIPE_DEV_LOCK` -/
  | lock
  /-- at the test for an empty ring -/
  | test
  /-- before `LOS_SemPend(dev->readSem)` -/
  | pend
  /-- in that call -/
  | asleep
  /-- before the `PIPE_DEV_LOCK` behind it -/
  | relock
  /-- at the head of `while (nread < len)` -/
  | loop
  /-- at the head of the loop of `PIPE_RW_WAIT(dev->readSem)` -/
  | drain
  /-- before the `LOS_SemPend` in it -/
  | drainPend
  | drainAsleep
  /-- at the head of the loop of `PipeWriterIsWaiting` -/
  | probe (num : Nat)
  /-- at the head of the loop of `PIPE_RW_POST(dev->writeSem)` -/
  | post
  deriving DecidableEq, Repr

/-- Where a thread is in `PipeWrite`. -/
inductive WritePc where
  /-- before a `PIPE_DEV_LOCK` -/
  | lock
  /-- at the head of `while (nwrite < len)` -/
  | loop
  /-- at the head of the loop of `PIPE_RW_POST(dev->readSem)`, the ring being full -/
  | postFull
  /-- at the head of the loop of `PIPE_RW_WAIT(dev->writeSem)` -/
  | drain
  /-- before the `LOS_SemPend` in it -/
  | drainPend
  | drainAsleep
  /-- before `LOS_SemPend(dev->writeSem)` -/
  | pend
  | asleep
  /-- at the head of the loop of the last `PIPE_RW_POST(dev->readSem)` -/
  | postEnd
  deriving DecidableEq, Repr

/-- Where a thread is in `PipeClose`, once it has the mutex and has counted the descriptor. -/
inductive ClosePc where
  | postWrite
  | postRead
  deriving DecidableEq, Repr

/-- Where a thread is in `PipeRead`, `PipeWrite` or `PipeClose`. -/
inductive Thread where
  /-- not in a call, with what the last one returned -/
  | idle (ret : Option Int)
  | reading (buf : Nat → UInt8) (len nread : Nat) (pc : ReadPc)
  | writing (buf : List UInt8) (nwrite : Nat) (pc : WritePc)
  | closing (pc : ClosePc)

/-- The thread returns from `LOS_SemPend`. -/
def Thread.wake : Thread → Thread
  | .reading buf len nread .asleep => .reading buf len nread .relock
  | .reading buf len nread .drainAsleep => .reading buf len nread .drain
  | .writing buf nwrite .asleep => .writing buf nwrite .lock
  | .writing buf nwrite .drainAsleep => .writing buf nwrite .drain
  | th => th

/-- A `PipeDev` with its threads. -/
structure Pipe where
  ring : RollBuffer UInt8
  sem : End → PipeSem
  /-- the thread that has `dev->mutex` -/
  mutex : Option Nat
  readerCnt : Nat
  writerCnt : Nat
  thread : Nat → Thread
  /-- the bytes the ring writes have stored so far -/
  stored : List UInt8
  /-- the bytes the ring reads have returned so far -/
  returned : List UInt8

namespace Pipe

variable (p : Pipe)

/-- Thread `t` becomes `th`. -/
@[simp] def setThread (t : Nat) (th : Thread) : Pipe := { p with thread := update p.thread t th }

/-- Replaces the semaphore of an end. -/
@[simp] def setSem (e : End) (s : PipeSem) : Pipe := { p with sem := update p.sem e s }

/-- `LOS_SemPend(sem, LOS_WAIT_FOREVER)` by thread `t`. -/
def semPend (e : End) (t : Nat) (granted asleep : Thread) : Pipe :=
  if (p.sem e).semCount > 0 then
    (p.setSem e ⟨(p.sem e).semCount - 1, (p.sem e).waiting⟩).setThread t granted
  else (p.setSem e ⟨0, (p.sem e).waiting ++ [t]⟩).setThread t asleep

/-- `LOS_SemPost`. -/
def semPost (e : End) : Pipe :=
  match (p.sem e).waiting with
  | [] => p.setSem e ⟨(p.sem e).semCount + 1, []⟩
  | u :: us => (p.setSem e ⟨(p.sem e).semCount, us⟩).setThread u (p.thread u).wake

end Pipe

/-- What a thread does in one step, and where it is then. -/
inductive Act where
  /-- no call of the kernel -/
  | go (th : Thread)
  /-- `PIPE_DEV_LOCK` -/
  | lock (th : Thread)
  /-- `PIPE_DEV_UNLOCK` -/
  | unlock (th : Thread)
  | semPend (e : End) (granted asleep : Thread)
  | semPost (e : End) (th : Thread)
  /-- a ring read that gets bytes -/
  | take (ring : RollBuffer UInt8) (got : List UInt8) (th : Thread)
  /-- a ring write that stores bytes -/
  | put (ring : RollBuffer UInt8) (bytes : List UInt8) (th : Thread)

namespace Pipe

variable (p : Pipe)

/-- Thread `t` does it. It has to wait for the mutex while another thread has it. -/
def apply (t : Nat) : Act → Option Pipe
  | .go th => some (p.setThread t th)
  | .lock th => if p.mutex = none then some ({ p with mutex := some t }.setThread t th) else none
  | .unlock th => some ({ p with mutex := none }.setThread t th)
  | .semPend e granted asleep => some (p.semPend e t granted asleep)
  | .semPost e th => some ((p.semPost e).setThread t th)
  | .take ring got th => some ({ p with ring := ring, returned := p.returned ++ got }.setThread t th)
  | .put ring bytes th => some ({ p with ring := ring, stored := p.stored ++ bytes }.setThread t th)

/-- `PipeRead`. -/
def readAct (buf : Nat → UInt8) (len nread : Nat) : ReadPc → Option Act
  | .lock => some (.lock (.reading buf len nread .test))
  | .test =>
    if p.ring.read = p.ring.write ∧ p.ring.roll = false then some (.unlock (.reading buf len nread .pend))
    else some (.go (.reading buf len nread .loop))
  | .pend => some (.semPend .read (.reading buf len nread .relock) (.reading buf len nread .asleep))
  | .asleep => none
  | .relock => some (.lock (.reading buf len nread .loop))
  | .loop =>
    if nread < len then
      let (ring, got) := pipeRingbufferRead p.ring (fun i => buf (nread + i)) (len - nread)
      if got.length = 0 then some (.go (.reading buf len nread .drain))
      else some (.take ring got (.reading buf len (nread + got.length) .loop))
    else some (.go (.reading buf len nread .post))
  | .drain =>
    if (p.sem .read).semCount ≠ 0 then some (.go (.reading buf len nread .drainPend))
    else some (.go (.reading buf len nread (.probe 0)))
  | .drainPend => some (.semPend .read (.reading buf len nread .drain)
      (.reading buf len nread .drainAsleep))
  | .drainAsleep => none
  | .probe num =>
    if (p.sem .write).semCount = 0 then some (.semPost .write (.reading buf len nread (.probe (num + 1))))
    else if num ≤ 1 then some (.unlock (.idle (some nread)))
    else some (.unlock (.reading buf len nread .pend))
  | .post =>
    if (p.sem .write).semCount = 0 then some (.semPost .write (.reading buf len nread .post))
    else some (.unlock (.idle (some nread)))

/-- `PipeWrite`. -/
def writeAct (buf : List UInt8) (nwrite : Nat) : WritePc → Option Act
  | .lock => some (.lock (.writing buf nwrite .loop))
  | .loop =>
    if nwrite < buf.length then
      let (ring, tmpLen) := pipeRingbufferWrite p.ring (buf.drop nwrite)
      if tmpLen = 0 then some (.go (.writing buf nwrite .postFull))
      else some (.put ring ((buf.drop nwrite).take tmpLen) (.writing buf (nwrite + tmpLen) .loop))
    else some (.go (.writing buf nwrite .postEnd))
  | .postFull =>
    if (p.sem .read).semCount = 0 then some (.semPost .read (.writing buf nwrite .postFull))
    else some (.go (.writing buf nwrite .drain))
  | .drain =>
    if (p.sem .write).semCount ≠ 0 then some (.go (.writing buf nwrite .drainPend))
    else some (.unlock (.writing buf nwrite .pend))
  | .drainPend => some (.semPend .write (.writing buf nwrite .drain) (.writing buf nwrite .drainAsleep))
  | .drainAsleep => none
  | .pend => some (.semPend .write (.writing buf nwrite .lock) (.writing buf nwrite .asleep))
  | .asleep => none
  | .postEnd =>
    if (p.sem .read).semCount = 0 then some (.semPost .read (.writing buf nwrite .postEnd))
    else some (.unlock (.idle (some nwrite)))

/-- `PipeClose`. -/
def closeAct : ClosePc → Option Act
  | .postWrite =>
    if p.readerCnt = 0 ∧ (p.sem .write).semCount = 0 then some (.semPost .write (.closing .postWrite))
    else some (.go (.closing .postRead))
  | .postRead =>
    if p.writerCnt = 0 ∧ (p.sem .read).semCount = 0 then some (.semPost .read (.closing .postRead))
    else some (.unlock (.idle (some 0)))

/-- The next step of a thread. Without an open descriptor the device is gone, and a thread that is still
reading or writing has no step. -/
def act : Thread → Option Act
  | .idle _ => none
  | .reading buf len nread pc =>
    if 0 < p.readerCnt + p.writerCnt then p.readAct buf len nread pc else none
  | .writing buf nwrite pc =>
    if 0 < p.readerCnt + p.writerCnt then p.writeAct buf nwrite pc else none
  | .closing pc => p.closeAct pc

/-- A thread that is not in a call makes one. -/
def calls (t : Nat) (q : Option Pipe) : Option Pipe :=
  match p.thread t with
  | .idle _ => if 0 < p.readerCnt + p.writerCnt then q else none
  | _ => none

end Pipe

/-- What can happen: thread `t` calls one of the functions through an open descriptor, or goes on in its
call. -/
inductive PipeLabel where
  | read (t : Nat) (buf : Nat → UInt8) (len : Nat)
  | write (t : Nat) (buf : List UInt8)
  | open (t : Nat) (e : End)
  | close (t : Nat) (e : End)
  | run (t : Nat)

/-- One step. -/
def Pipe.step (p : Pipe) : PipeLabel → Option Pipe
  | .read t buf len =>
    p.calls t (some (p.setThread t (if len = 0 then .idle (some (-1)) else .reading buf len 0 .lock)))
  | .write t buf =>
    p.calls t (some (p.setThread t (if buf.length = 0 then .idle (some (-1)) else .writing buf 0 .lock)))
  | .open t e => p.calls t (
      if p.mutex = none then
        match e with
        | .read => some { p with readerCnt := p.readerCnt + 1 }
        | .write => some { p with writerCnt := p.writerCnt + 1 }
      else none)
  | .close t e => p.calls t (
      match e with
      | .read =>
        if p.readerCnt = 0 then none
        else { p with readerCnt := p.readerCnt - 1 }.apply t (.lock (.closing .postWrite))
      | .write =>
        if p.writerCnt = 0 then none
        else { p with writerCnt := p.writerCnt - 1 }.apply t (.lock (.closing .postWrite)))
  | .run t => (p.act (p.thread t)).bind (p.apply t)

/-- A pipe that `pipe` has just made, with whatever the memory of the ring holds. -/
def Pipe.new (cell : Nat → UInt8) : Pipe where
  ring := ⟨pipeDevBufSize, cell, 0, 0, false⟩
  sem := fun _ => ⟨0, []⟩
  mutex := none
  readerCnt := 1
  writerCnt := 1
  thread := fun _ => .idle none
  stored := []
  returned := []

/-! ## What a step changes -/

namespace Pipe

variable (p : Pipe) (e : End) (t : Nat) (th th' : Thread)

/-- What only the ring transfers change. -/
def data : RollBuffer UInt8 × List UInt8 × List UInt8 := (p.ring, p.stored, p.returned)

@[simp] theorem data_semPend : (p.semPend e t th th').data = p.data := by
  unfold semPend
  split_ifs <;> rfl

@[simp] theorem data_semPost : (p.semPost e).data = p.data := by
  unfold semPost
  split <;> rfl

variable {p e t th th'} {p' : Pipe} {ring : RollBuffer UInt8} {bytes : List UInt8}

/-- The transfers out of the ring are those of the loop of `PipeRead`. -/
theorem act_take (h : p.act th = some (.take ring bytes th')) :
    ∃ buf len nread, th = .reading buf len nread .loop ∧ nread < len ∧ bytes ≠ [] ∧
      pipeRingbufferRead p.ring (fun i => buf (nread + i)) (len - nread) = (ring, bytes) := by
  cases th with
  | reading buf len nread pc =>
    cases pc with
    | loop =>
      simp only [act, readAct] at h
      split_ifs at h with hdev hmore hgot
      · cases h
      · obtain ⟨hring, hbytes, -⟩ := Act.take.inj (some.inj h)
        refine ⟨buf, len, nread, rfl, hmore, ?_, Prod.ext hring hbytes⟩
        rw [← hbytes]
        exact fun hc => hgot (hc ▸ rfl)
      · cases h
    | _ =>
      simp only [act, readAct] at h
      split_ifs at h <;> cases h
  | writing buf nwrite pc =>
    cases pc <;> simp only [act, writeAct] at h <;> split_ifs at h <;> cases h
  | closing pc => cases pc <;> simp only [act, closeAct] at h <;> split_ifs at h <;> cases h
  | idle ret => cases h

/-- The transfers into the ring are those of the loop of `PipeWrite`. -/
theorem act_put (h : p.act th = some (.put ring bytes th')) :
    ∃ buf nwrite, th = .writing buf nwrite .loop ∧ nwrite < buf.length ∧
      ring = (pipeRingbufferWrite p.ring (buf.drop nwrite)).1 ∧
      bytes = (buf.drop nwrite).take (pipeRingbufferWrite p.ring (buf.drop nwrite)).2 ∧
      th' = .writing buf (nwrite + (pipeRingbufferWrite p.ring (buf.drop nwrite)).2) .loop := by
  cases th with
  | reading buf len nread pc =>
    cases pc <;> simp only [act, readAct] at h <;> split_ifs at h <;> cases h
  | writing buf nwrite pc =>
    cases pc with
    | loop =>
      simp only [act, writeAct] at h
      split_ifs at h with hdev hmore hgot
      · cases h
      · obtain ⟨hring, hbytes, hth⟩ := Act.put.inj (some.inj h)
        exact ⟨buf, nwrite, rfl, hmore, hring.symm, hbytes.symm, hth.symm⟩
      · cases h
    | _ =>
      simp only [act, writeAct] at h
      split_ifs at h <;> cases h
  | closing pc => cases pc <;> simp only [act, closeAct] at h <;> split_ifs at h <;> cases h
  | idle ret => cases h

/-- A call of an idle thread. -/
theorem calls_some {q : Option Pipe} (h : p.calls t q = some p') :
    (∃ ret, p.thread t = .idle ret) ∧ 0 < p.readerCnt + p.writerCnt ∧ q = some p' := by
  unfold calls at h
  split at h
  · rename_i ret hidle
    split_ifs at h with hdev
    exact ⟨⟨ret, hidle⟩, hdev, h⟩
  · cases h

/-- A step is one of a thread in its call, or leaves the bytes alone. -/
theorem step_cases {l : PipeLabel} (h : p.step l = some p') :
    (∃ t act, l = .run t ∧ p.act (p.thread t) = some act ∧ p.apply t act = some p') ∨ p'.data = p.data := by
  cases l with
  | run t =>
    obtain ⟨act, hact, happ⟩ := bind_eq_some_iff.mp h
    exact .inl ⟨t, act, rfl, hact, happ⟩
  | read | write =>
    rw [← some.inj (calls_some h).2.2]
    exact .inr rfl
  | «open» t e =>
    have hq := (calls_some h).2.2
    cases e <;> split_ifs at hq <;> cases hq <;> exact .inr rfl
  | close t e =>
    have hq := (calls_some h).2.2
    cases e <;> dsimp only [apply] at hq <;> split_ifs at hq <;> cases hq <;>
      exact .inr rfl

/-- The bytes after a step. -/
def dataAfter (p : Pipe) : Act → RollBuffer UInt8 × List UInt8 × List UInt8
  | .take ring got _ => (ring, p.stored, p.returned ++ got)
  | .put ring bytes _ => (ring, p.stored ++ bytes, p.returned)
  | _ => p.data

/-- The pipe after a step. -/
def applied (p : Pipe) (t : Nat) : Act → Pipe
  | .go th => p.setThread t th
  | .lock th => { p with mutex := some t }.setThread t th
  | .unlock th => { p with mutex := none }.setThread t th
  | .semPend e granted asleep => p.semPend e t granted asleep
  | .semPost e th => (p.semPost e).setThread t th
  | .take ring got th => { p with ring := ring, returned := p.returned ++ got }.setThread t th
  | .put ring bytes th => { p with ring := ring, stored := p.stored ++ bytes }.setThread t th

theorem apply_eq {act : Act} (h : p.apply t act = some p') : p' = p.applied t act := by
  cases act with
  | lock th => exact (some.inj (ite_none_right_eq_some.mp h).2).symm
  | _ => exact (some.inj h).symm

theorem apply_data {act : Act} (h : p.apply t act = some p') : p'.data = p.dataAfter act := by
  rw [apply_eq h]
  cases act with
  | semPend e granted asleep => exact data_semPend p e t granted asleep
  | semPost e th => exact data_semPost p e
  | _ => rfl

end Pipe

/-! ## The stream -/

/-- What is in the ring has been stored and not been returned. -/
structure Streamed (p : Pipe) : Prop where
  wf : p.ring.Wf
  size : p.ring.size = pipeDevBufSize
  bytes : p.stored = p.returned ++ p.ring.contents

section
variable {b : RollBuffer UInt8}

/-- The ring after a ring read, whatever `memcpy_s` does. -/
theorem pipeRingbufferRead_ring (h : b.Wf) (buf : Nat → UInt8) (len : Nat) :
    (pipeRingbufferRead b buf len).1.Wf ∧ (pipeRingbufferRead b buf len).1.size = b.size := by
  unfold pipeRingbufferRead
  split
  · exact ⟨h, rfl⟩
  · exact ⟨(h.skip (Nat.min_le_left b.readable len)).1, RollBuffer.size_skip _⟩

theorem pipeRingbufferRead_contents (h : b.Wf) (buf : Nat → UInt8) {len : Nat}
    (hlen : b.contents ≠ [] → len ≤ securecMemMaxLen) :
    b.contents = (pipeRingbufferRead b buf len).2 ++ (pipeRingbufferRead b buf len).1.contents := by
  unfold pipeRingbufferRead
  split
  · rfl
  rename_i hempty
  dsimp only
  rw [if_pos (hlen fun hc => hempty (h.contents_eq_nil_iff.mp hc))]
  exact (h.skip (Nat.min_le_left b.readable len)).2

theorem pipeRingbufferWrite_spec (h : b.Wf) (buf : List UInt8) :
    (pipeRingbufferWrite b buf).1.Wf ∧ (pipeRingbufferWrite b buf).1.size = b.size ∧
      (pipeRingbufferWrite b buf).1.contents = b.contents ++ buf.take (pipeRingbufferWrite b buf).2 := by
  unfold pipeRingbufferWrite
  split_ifs with hfull
  · exact ⟨h, rfl, by simp⟩
  have hlen : (buf.take (min b.writable buf.length)).length ≤ b.writable := by
    rw [length_take]
    omega
  obtain ⟨hwf, hcontents⟩ := h.fill hlen
  exact ⟨hwf, RollBuffer.size_fill _, hcontents⟩

end

/-- The length of a ring read that finds bytes is one `memcpy_s` accepts. -/
def ReadFits (p : Pipe) : PipeLabel → Prop
  | .run t =>
    match p.thread t with
    | .reading _ len nread .loop => nread < len → p.ring.contents ≠ [] → len - nread ≤ securecMemMaxLen
    | _ => True
  | _ => True

instance decidableReadFits (p : Pipe) (l : PipeLabel) : Decidable (ReadFits p l) := by
  unfold ReadFits
  split
  · split <;> infer_instance
  · infer_instance

theorem Streamed.step {p p' : Pipe} {l : PipeLabel} (h : Streamed p) (hfits : ReadFits p l)
    (hstep : p.step l = some p') : Streamed p' := by
  have hof : ∀ {ring stored returned}, p'.data = (ring, stored, returned) → ring.Wf →
      ring.size = pipeDevBufSize → stored = returned ++ ring.contents → Streamed p' := by
    intro ring stored returned hdata hwf hsize hbytes
    obtain ⟨rfl, rfl, rfl⟩ : p'.ring = ring ∧ p'.stored = stored ∧ p'.returned = returned := by
      simpa [Pipe.data] using hdata
    exact ⟨hwf, hsize, hbytes⟩
  rcases Pipe.step_cases hstep with ⟨t, act, rfl, hact, happ⟩ | hdata
  · have hdata := Pipe.apply_data happ
    cases act with
    | take ring got th =>
      obtain ⟨buf, len, nread, hth, hmore, -, hread⟩ := Pipe.act_take hact
      rw [ReadFits, hth] at hfits
      obtain ⟨hwf, hsize⟩ := pipeRingbufferRead_ring h.wf (fun i => buf (nread + i)) (len - nread)
      have hcontents := pipeRingbufferRead_contents h.wf (fun i => buf (nread + i)) (hfits hmore)
      rw [hread] at hwf hsize hcontents
      refine hof hdata hwf (hsize.trans h.size) ?_
      rw [h.bytes, append_assoc, ← hcontents]
    | put ring bytes th =>
      obtain ⟨buf, nwrite, -, -, hring, hbytes, -⟩ := Pipe.act_put hact
      obtain ⟨hwf, hsize, hcontents⟩ := pipeRingbufferWrite_spec h.wf (buf.drop nwrite)
      rw [← hring] at hwf hsize hcontents
      refine hof hdata hwf (hsize.trans h.size) ?_
      rw [h.bytes, hcontents, ← hbytes, append_assoc]
    | _ => exact hof hdata h.wf h.size h.bytes
  · exact hof hdata h.wf h.size h.bytes

/-! ## One writer -/

/-- What a thread has still to write. -/
@[simp] def Thread.unwritten : Thread → List UInt8
  | .writing buf nwrite _ => buf.drop nwrite
  | _ => []

/-- The thread is in `PipeWrite`. -/
@[simp] def Thread.isWriting : Thread → Bool
  | .writing .. => true
  | _ => false

/-- The last part of `PipeWrite` comes behind its loop. -/
@[simp] def Thread.Ok : Thread → Prop
  | .writing buf nwrite .postEnd => buf.length ≤ nwrite
  | _ => True

theorem Thread.unwritten_wake (th : Thread) : th.wake.unwritten = th.unwritten := by
  cases th with
  | reading buf len nread pc | writing buf nwrite pc => cases pc <;> rfl
  | _ => rfl

theorem Thread.isWriting_wake (th : Thread) : th.wake.isWriting = th.isWriting := by
  cases th with
  | reading buf len nread pc | writing buf nwrite pc => cases pc <;> rfl
  | _ => rfl

variable {th : Thread}

theorem Thread.Ok.wake (h : th.Ok) : th.wake.Ok := by
  cases th with
  | reading buf len nread pc | writing buf nwrite pc => cases pc <;> trivial
  | _ => trivial

theorem Thread.ok_of_not_isWriting (h : th.isWriting = false) :
    th.Ok ∧ th.unwritten = [] := by
  cases th with
  | writing buf nwrite pc => cases h
  | _ => exact ⟨trivial, rfl⟩

/-- Where the thread may be after the step. -/
@[simp] def Act.thens : Act → List Thread
  | .go th => [th]
  | .lock th => [th]
  | .unlock th => [th]
  | .semPend _ granted asleep => [granted, asleep]
  | .semPost _ th => [th]
  | .take _ _ th => [th]
  | .put _ _ th => [th]

/-- The bytes that a step puts into the ring. -/
@[simp] def Act.bytes : Act → List UInt8
  | .put _ bytes _ => bytes
  | _ => []

namespace Pipe

variable {p p' : Pipe} {t u : Nat} {th : Thread} {a : Act}

theorem semPost_thread (e : End) (u : Nat) :
    (p.semPost e).thread u = p.thread u ∨ (p.semPost e).thread u = (p.thread u).wake := by
  unfold semPost
  split
  · exact .inl rfl
  rename_i v us hw
  by_cases huv : u = v
  · subst huv
    exact .inr (update_self ..)
  · exact .inl (update_of_ne huv ..)

theorem apply_thread_self (h : p.apply t a = some p') : p'.thread t ∈ a.thens := by
  rw [apply_eq h]
  cases a with
  | semPend e granted asleep =>
    dsimp only [applied, semPend]
    split_ifs <;> simp
  | _ => simp [applied]

theorem apply_thread_of_ne (h : p.apply t a = some p') (hu : u ≠ t) :
    p'.thread u = p.thread u ∨ p'.thread u = (p.thread u).wake := by
  rw [apply_eq h]
  cases a with
  | semPend e granted asleep =>
    dsimp only [applied, semPend]
    split_ifs <;> exact .inl (update_of_ne hu ..)
  | semPost e th =>
    unfold applied setThread
    dsimp only
    rw [update_of_ne hu]
    exact semPost_thread e u
  | _ => exact .inl (update_of_ne hu ..)

/-- A thread that does not write does not begin to in the middle of its call. -/
theorem act_of_not_isWriting (hth : th.isWriting = false) (h : p.act th = some a) :
    a.bytes = [] ∧ ∀ th' ∈ a.thens, th'.isWriting = false := by
  cases th with
  | idle ret => cases h
  | reading buf len nread pc =>
    cases pc <;> simp only [act, readAct] at h <;> split_ifs at h <;>
      cases h <;> simp
  | closing pc =>
    cases pc <;> simp only [act, closeAct] at h <;> split_ifs at h <;>
      cases h <;> simp
  | writing buf nwrite pc => cases hth

/-- A step of a thread stores what it no longer has to write. -/
theorem act_unwritten (hok : th.Ok) (h : p.act th = some a) :
    ∀ th' ∈ a.thens, th'.Ok ∧ a.bytes ++ th'.unwritten = th.unwritten := by
  by_cases hwriting : th.isWriting = false
  · obtain ⟨hbytes, hthens⟩ := act_of_not_isWriting hwriting h
    intro th' hth'
    obtain ⟨hok', hun⟩ := Thread.ok_of_not_isWriting (hthens th' hth')
    rw [hbytes, hun, (Thread.ok_of_not_isWriting hwriting).2]
    exact ⟨hok', rfl⟩
  cases th with
  | writing buf nwrite pc =>
    cases pc with
    | loop =>
      simp only [act, writeAct] at h
      split_ifs at h with hdev hmore hgot
      · cases h
        simp
      · cases h
        simp [← drop_drop]
      · cases h
        simpa using hmore
    | postEnd =>
      have hend : buf.drop nwrite = [] := drop_eq_nil_of_le hok
      simp only [act, writeAct] at h
      split_ifs at h
      · cases h
        simp only [Act.thens, mem_singleton, forall_eq]
        exact ⟨hok, rfl⟩
      · cases h
        simp [hend]
    | _ =>
      simp only [act, writeAct] at h
      split_ifs at h <;> cases h <;>
        simp
  | _ => exact absurd rfl hwriting

end Pipe

/-- The buffers of the `PipeWrite` calls of a run. -/
def buffers : List PipeLabel → List (List UInt8) :=
  List.filterMap fun l => match l with
    | .write _ buf => some buf
    | _ => none

/-- Only thread `w` writes, and what it has written and has still to write are its buffers. -/
structure OneWriter (w : Nat) (run : List PipeLabel) (p : Pipe) : Prop where
  ok : (p.thread w).Ok
  others : ∀ u, u ≠ w → (p.thread u).isWriting = false
  bytes : p.stored ++ (p.thread w).unwritten = (buffers run).flatten

/-- No other thread than `w` writes. -/
def WrittenBy (w : Nat) (l : PipeLabel) : Prop := ∀ t buf, l = .write t buf → t = w

section
variable {w : Nat} {run : List PipeLabel} {p p' : Pipe}

theorem OneWriter.apply {t : Nat} {a : Act} (h : OneWriter w run p) (hact : p.act (p.thread t) = some a)
    (happ : p.apply t a = some p') : OneWriter w run p' := by
  have hstored : p'.stored = p.stored ++ a.bytes := by
    have hdata := congrArg (fun d => d.2.1) (Pipe.apply_data happ)
    cases a <;> simpa [Pipe.data, Pipe.dataAfter] using hdata
  have hself := Pipe.apply_thread_self happ
  have hother : ∀ u, u ≠ t → u ≠ w → (p'.thread u).isWriting = false := by
    intro u hut huw
    rcases Pipe.apply_thread_of_ne happ hut with heq | heq
    · rw [heq]
      exact h.others u huw
    · rw [heq, Thread.isWriting_wake]
      exact h.others u huw
  by_cases htw : t = w
  · subst htw
    obtain ⟨hok, hun⟩ := Pipe.act_unwritten h.ok hact _ hself
    refine ⟨hok, fun u hu => hother u hu hu, ?_⟩
    rw [hstored, append_assoc, hun]
    exact h.bytes
  obtain ⟨hbytes, hthens⟩ := Pipe.act_of_not_isWriting (h.others t htw) hact
  rw [hbytes, append_nil] at hstored
  have hw : (p'.thread w).Ok ∧ (p'.thread w).unwritten = (p.thread w).unwritten := by
    rcases Pipe.apply_thread_of_ne happ (Ne.symm htw) with heq | heq <;> rw [heq]
    · exact ⟨h.ok, rfl⟩
    · exact ⟨h.ok.wake, Thread.unwritten_wake _⟩
  refine ⟨hw.1, fun u hu => ?_, ?_⟩
  · by_cases hut : u = t
    · rw [hut]
      exact hthens _ hself
    · exact hother u hut hu
  · rw [hstored, hw.2]
    exact h.bytes

/-- A call that does not write. -/
theorem OneWriter.call {t : Nat} (h : OneWriter w run p)
    (hidle : ∃ ret, p.thread t = .idle ret) (hth : th.isWriting = false)
    (hstored : p'.stored = p.stored) (hthread : p'.thread = update p.thread t th) :
    OneWriter w run p' := by
  obtain ⟨ret, hidle⟩ := hidle
  obtain ⟨hok, hun⟩ := Thread.ok_of_not_isWriting hth
  refine ⟨?_, fun u hu => ?_, ?_⟩
  · rw [hthread]
    by_cases hwt : w = t
    · rwa [hwt, update_self]
    · rw [update_of_ne hwt]
      exact h.ok
  · rw [hthread]
    by_cases hut : u = t
    · rwa [hut, update_self]
    · rw [update_of_ne hut]
      exact h.others u hu
  have hsame : (p'.thread w).unwritten = (p.thread w).unwritten := by
    rw [hthread]
    by_cases hwt : w = t
    · rw [hwt, update_self, hun, hidle]
      rfl
    · rw [update_of_ne hwt]
  rw [hstored, hsame]
  exact h.bytes

theorem OneWriter.concat {l : PipeLabel} (h : OneWriter w run p) (hl : ∀ t buf, l ≠ .write t buf) :
    OneWriter w (run ++ [l]) p := by
  have hbuffers : buffers (run ++ [l]) = buffers run := by
    cases l with
    | write t buf => exact absurd rfl (hl t buf)
    | _ => simp [buffers]
  exact ⟨h.ok, h.others, by rw [hbuffers]; exact h.bytes⟩

theorem OneWriter.step {l : PipeLabel} (h : OneWriter w run p) (hl : WrittenBy w l)
    (hstep : p.step l = some p') : OneWriter w (run ++ [l]) p' := by
  cases l with
  | run t =>
    obtain ⟨a, hact, happ⟩ := bind_eq_some_iff.mp hstep
    exact (h.apply hact happ).concat fun _ _ => PipeLabel.noConfusion
  | read t buf len =>
    obtain ⟨hidle, -, hq⟩ := Pipe.calls_some hstep
    cases hq
    refine OneWriter.concat (OneWriter.call h hidle ?_ rfl rfl) fun _ _ => PipeLabel.noConfusion
    split_ifs <;> rfl
  | write t buf =>
    obtain rfl := hl t buf rfl
    obtain ⟨⟨ret, hidle⟩, -, hq⟩ := Pipe.calls_some hstep
    cases hq
    have hnone : (p.thread t).unwritten = [] := by
      rw [hidle]
      rfl
    refine ⟨?_, fun u hu => ?_, ?_⟩
    · simp only [Pipe.setThread, update_self]
      split_ifs <;> trivial
    · simp only [Pipe.setThread, update_of_ne hu]
      exact h.others u hu
    have hbytes := h.bytes
    rw [hnone, append_nil] at hbytes
    simp only [Pipe.setThread]
    rw [hbytes]
    split_ifs with hlen
    · simp [length_eq_zero_iff.mp hlen, buffers]
    · simp [buffers]
  | «open» t e =>
    obtain ⟨-, -, hq⟩ := Pipe.calls_some hstep
    refine OneWriter.concat ?_ fun _ _ => PipeLabel.noConfusion
    cases e <;> split_ifs at hq <;> cases hq <;> exact ⟨h.ok, h.others, h.bytes⟩
  | close t e =>
    obtain ⟨hidle, -, hq⟩ := Pipe.calls_some hstep
    refine OneWriter.concat ?_ fun _ _ => PipeLabel.noConfusion
    cases e <;> dsimp only [Pipe.apply] at hq <;> split_ifs at hq <;> cases hq <;>
      exact OneWriter.call h hidle rfl rfl rfl

end

theorem streamed_new (cell : Nat → UInt8) : Streamed (Pipe.new cell) :=
  ⟨⟨Nat.zero_lt_succ _, Nat.zero_lt_succ _, fun _ => Nat.le_refl _, fun hc => Bool.noConfusion hc⟩,
    rfl, rfl⟩

/-- In every run in which no ring read has a length that `memcpy_s` refuses: what has been returned is a
prefix of what has been stored, at most the size of the ring behind, and what one writer has stored are
its buffers. -/
theorem pipe_is_stream (cell : Nat → UInt8) (run : List PipeLabel) (p : Pipe)
    (hfits : Guarded Pipe.step ReadFits (Pipe.new cell) run)
    (hexec : exec Pipe.step (Pipe.new cell) run = some p) :
    p.returned <+: p.stored ∧ p.stored.length ≤ p.returned.length + pipeDevBufSize ∧
      ∀ w, (∀ l ∈ run, WrittenBy w l) → p.stored <+: (buffers run).flatten ∧
          ((p.thread w).isWriting = false → p.stored = (buffers run).flatten) := by
  have hs : Streamed p := exec_inv_guarded (fun _ _ _ h hok hstep => h.step hok hstep)
    (streamed_new cell) hfits hexec
  have hle := hs.wf.length_contents_le
  refine ⟨⟨_, hs.bytes.symm⟩, ?_, fun w hw => ?_⟩
  · rw [hs.bytes, length_append]
    have := hs.size
    omega
  have hnew : OneWriter w [] (Pipe.new cell) := ⟨trivial, fun _ _ => rfl, rfl⟩
  have hone : OneWriter w run p := exec_inv_run hnew (fun _ _ _ _ _ h hok hstep => h.step hok hstep)
    (guarded_of_forall fun l hl _ => hw l hl) hexec
  refine ⟨⟨_, hone.bytes⟩, fun hidle => ?_⟩
  rw [← hone.bytes, (Thread.ok_of_not_isWriting hidle).2, append_nil]

/-- Thread 1 writes three bytes and thread 2 reads two of them. -/
def shortRead : List PipeLabel :=
  [.write 1 [1, 2, 3], .run 1, .run 1, .run 1, .run 1, .run 1, .read 2 (fun _ => 0) 2,
    .run 2, .run 2, .run 2]

theorem pipe_is_stream_shortRead : ∃ p, exec Pipe.step (Pipe.new fun _ => 0) shortRead = some p ∧
    p.returned = [1, 2] ∧ p.returned <+: p.stored ∧ p.stored = [1, 2, 3] := by
  obtain ⟨p, hp, hfacts⟩ : ∃ p, exec Pipe.step (Pipe.new fun _ => 0) shortRead = some p ∧
      p.returned = [1, 2] ∧ (p.thread 1).isWriting = false := by decide +kernel
  have hwriter : ∀ l ∈ shortRead, WrittenBy 1 l := by
    intro l hl t buf hlab
    rw [hlab] at hl
    simp [shortRead] at hl
    exact hl.1
  obtain ⟨hreturned, -, hone⟩ := pipe_is_stream _ _ p (by decide +kernel) hp
  exact ⟨p, hp, hfacts.1, hreturned, (hone 1 hwriter).2 hfacts.2⟩

/-- A thread reads with a length of 2 GiB: the byte is gone, and the buffer has not got it. -/
theorem pipe_loses_byte : (exec Pipe.step (Pipe.new fun _ => 0)
      [.write 1 [1], .run 1, .run 1, .run 1, .run 1, .run 1, .read 2 (fun _ => 0) 0x80000000, .run 2,
        .run 2, .run 2]).any
      (fun p => decide (p.stored = [1] ∧ p.returned = [0] ∧ p.ring.contents = [])) = true := by
  decide +kernel

end LiteosM.Posix
