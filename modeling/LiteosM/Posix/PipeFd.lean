import LiteosM.Lib.Count
import LiteosM.Lib.Run

/-!
# The descriptors of the pipes

Model of the tables of `pipe.c`: the registered devices, the bitmap of the descriptors and `g_devFd`, with
`pipe`, `PipeOpen` and `PipeClose` as calls that follow one another. A device is its address, 0 is `NULL`,
and its name `/dev/pipe<num>` is the number. What the heap and the kernel grant is an input of the calls.
Memory is only looked at for what can go wrong: an access behind the end of `g_devFd`, or to a device
that has been freed, is a fault.

* **`descriptors_accounted`**: in every sequence of calls in which a `PipeOpen` finds a free descriptor
  among the `PIPE_FD_NUM` ones and gets its ring buffer, and the second `open` of `pipe` comes to it, the
  bitmap, `g_devFd` and the counts of the devices agree. The bitmap has half as many bits again as there
  are descriptors, and the error exits undo only a part.
-/

namespace LiteosM.Posix

open LiteosM.Lib Function List Option

/-- `PIPE_DEV_NUM`. -/
def pipeDevNum : Nat := 32

/-- `PIPE_FD_NUM`. -/
def pipeFdNum : Nat := pipeDevNum <<< 1

/-- `PIPE_DEV_FD_BITMAP_LEN`. -/
def pipeDevFdBitmapLen : Nat := (pipeFdNum >>> 5) + 1

/-- `O_RDONLY`. -/
def oRdonly : Nat := 0

/-- `O_WRONLY`. -/
def oWronly : Nat := 1

/-- The fields of `struct PipeDev` that the accounting uses; `ringBuffer` says whether there is one. -/
structure PipeDev where
  num : Nat
  ringBuffer : Bool
  readerCnt : Nat
  writerCnt : Nat
  ref : Nat
  deriving DecidableEq, Repr

/-- `struct PipeFdDev`. -/
structure PipeFdDev where
  dev : Nat
  openFlag : Nat
  deriving DecidableEq, Repr

/-- What can go wrong. -/
inductive PipeFault where
  /-- an access behind the end of `g_devFd` -/
  | outOfRange
  /-- an access to a device that has been freed -/
  | useAfterFree
  deriving DecidableEq, Repr

/-- The variables of `pipe.c`. The bitmaps are given by their bits. -/
structure PipeTable where
  devList : List Nat
  dev : Nat → PipeDev
  devNumBitmap : Nat → Bool
  devFdBitmap : Nat → Bool
  devFd : Nat → PipeFdDev
  devStartFd : Int
  fault : Option PipeFault

/-- What `pipe` gets: the address of the new device, what the heap and the kernel grant, and whether the
two `open` calls come to `PipeOpen` (they may need memory before). -/
structure PipeGrant where
  addr : Nat
  memory : Bool
  mutex : Bool
  readSem : Bool
  writeSem : Bool
  open0 : Bool
  ring : Bool
  open1 : Bool
  deriving DecidableEq, Repr

namespace PipeTable

/-- The variables at start. -/
def init : PipeTable where
  devList := []
  dev := fun _ => ⟨0, false, 0, 0, 0⟩
  devNumBitmap := fun _ => false
  devFdBitmap := fun _ => false
  devFd := fun _ => ⟨0, 0⟩
  devStartFd := 0
  fault := none

variable (s : PipeTable)

/-- Changes a device. -/
@[simp] def setDev (d : Nat) (f : PipeDev → PipeDev) : PipeTable :=
  { s with dev := update s.dev d (f (s.dev d)) }

/-- Takes or frees a descriptor. -/
def setFdBit (fd : Nat) (b : Bool) : PipeTable :=
  { s with devFdBitmap := update s.devFdBitmap fd b }

/-- `PipeDevNumAlloc`, the number only. -/
def pipeDevNumAlloc : Option Nat := (List.range pipeDevNum).find? fun i => !s.devNumBitmap i

/-- `PipeDevFind`. -/
def pipeDevFind (path : Nat) : Option Nat := s.devList.find? fun d => (s.dev d).num = path

/-- `PipeDevFdAlloc`, the descriptor only: the first clear bit of the bitmap. -/
def pipeDevFdAlloc : Option Nat :=
  (List.range (32 * pipeDevFdBitmapLen)).find? fun i => !s.devFdBitmap i

/-- `PipeDevRegister`: the name of the device, when it succeeds. -/
def pipeDevRegister (g : PipeGrant) : PipeTable × Option Nat :=
  match s.pipeDevNumAlloc with
  | none => (s, none)
  | some num =>
    if !g.memory then (s, none)
    else if (s.pipeDevFind num).isSome then (s, none)
    else if !g.mutex then (s, none)
    else if !g.readSem then (s, none)
    else if !g.writeSem then (s, none)
    else
      ({ s with
        devNumBitmap := update s.devNumBitmap num true
        dev := update s.dev g.addr ⟨num, false, 0, 0, 0⟩
        devList := g.addr :: s.devList }, some num)

/-- `PipeDevUnregister`: a device that is in the list is taken out and freed. -/
def pipeDevUnregister (d : Nat) : PipeTable :=
  if d ∈ s.devList then
    { s with
      devList := s.devList.erase d
      devNumBitmap := update s.devNumBitmap (s.dev d).num false }
  else s

/-- One more descriptor with this flag. -/
def countOpen (openFlag : Nat) (c : PipeDev) : PipeDev :=
  { c with
    readerCnt := if openFlag = oRdonly then c.readerCnt + 1 else c.readerCnt
    writerCnt := if openFlag = oWronly then c.writerCnt + 1 else c.writerCnt
    ref := c.ref + 1 }

/-- One descriptor less. -/
def countClose (openFlag : Nat) (c : PipeDev) : PipeDev :=
  { c with
    readerCnt := if openFlag = oRdonly then c.readerCnt - 1 else c.readerCnt
    writerCnt := if openFlag = oWronly then c.writerCnt - 1 else c.writerCnt
    ref := c.ref - 1 }

/-- `PipeOpen`; `ring` says whether the heap can give a ring buffer. -/
def pipeOpen (path openFlag : Nat) (minFd : Int) (ring : Bool) : PipeTable × Int :=
  if openFlag ≠ oRdonly ∧ openFlag ≠ oWronly then (s, -1)
  else
    match s.pipeDevFind path with
    | none => (s, -1)
    | some d =>
      match s.pipeDevFdAlloc with
      | none => (s, -1)
      | some fd =>
        let s := s.setFdBit fd true
        if fd ≥ pipeFdNum then ({ s with fault := some .outOfRange }, fd + minFd)
        else
          let s := { s with devFd := update s.devFd fd ⟨d, openFlag⟩, devStartFd := minFd }
          let s := s.setDev d (countOpen openFlag)
          if (s.dev d).ringBuffer then (s, fd + minFd)
          else if ring then (s.setDev d fun c => { c with ringBuffer := true }, fd + minFd)
          else (s.setFdBit fd false, -1)

/-- `PipeFdDevGet`: the index of the entry in `g_devFd`. -/
def pipeFdDevGet (fd : Int) : Option Nat :=
  if fd < s.devStartFd then none
  else if fd - s.devStartFd ≥ pipeFdNum then none
  else some (fd - s.devStartFd).toNat

/-- `PipeClose`. -/
def pipeClose (fd : Int) : PipeTable × Int :=
  match s.pipeFdDevGet fd with
  | none => (s, -1)
  | some i =>
    if (s.devFd i).dev = 0 then (s, -1)
    else
      let d := (s.devFd i).dev
      let openFlag := (s.devFd i).openFlag
      let s := { s with devFd := update s.devFd i ⟨0, 0⟩ }.setFdBit i false
      if d ∉ s.devList then ({ s with fault := some .useAfterFree }, 0)
      else
        let s := s.setDev d (countClose openFlag)
        if (s.dev d).ref = 0 then (s.pipeDevUnregister d, 0) else (s, 0)

/-- `pipe`, whose `open` calls use `minFd`; the descriptors, when it succeeds. -/
def pipe (g : PipeGrant) (minFd : Int) : PipeTable × Option (Int × Int) :=
  match s.pipeDevRegister g with
  | (s, none) => (s, none)
  | (s, some devName) =>
    match s.pipeDevFind devName with
    | none => (s, none)
    | some d =>
      let (s, fd0) := if g.open0 then s.pipeOpen devName oRdonly minFd g.ring else (s, -1)
      if fd0 < 0 then (s.pipeDevUnregister d, none)
      else
        let (s, fd1) := if g.open1 then s.pipeOpen devName oWronly minFd g.ring else (s, -1)
        if fd1 < 0 then (((s.pipeDevUnregister d).pipeClose fd0).1, none)
        else (s, some (fd0, fd1))

end PipeTable

/-- The calls, with what the heap and the kernel answer. -/
inductive FdCall where
  | pipe (g : PipeGrant) (minFd : Int)
  | open (path openFlag : Nat) (minFd : Int) (ring : Bool)
  | close (fd : Int)
  deriving DecidableEq, Repr

/-- One call. The heap gives addresses that are in use by nobody, and behind a fault nothing is said. -/
def PipeTable.step (s : PipeTable) : FdCall → Option PipeTable
  | .pipe g minFd =>
    if s.fault = none ∧ g.addr ≠ 0 ∧ g.addr ∉ s.devList ∧ 0 ≤ minFd then some (s.pipe g minFd).1 else none
  | .open path openFlag minFd ring =>
    if s.fault = none ∧ 0 ≤ minFd then some (s.pipeOpen path openFlag minFd ring).1 else none
  | .close fd => if s.fault = none then some (s.pipeClose fd).1 else none

/-! ## The accounting -/

/-- How many entries of `g_devFd` refer to the device with this flag. -/
def opened (devFd : Nat → PipeFdDev) (d openFlag : Nat) : Nat :=
  ∑ i ∈ Finset.range pipeFdNum, if devFd i = ⟨d, openFlag⟩ then 1 else 0

/-- How many entries refer to the device. -/
def refs (devFd : Nat → PipeFdDev) (d : Nat) : Nat :=
  ∑ i ∈ Finset.range pipeFdNum, if (devFd i).dev = d then 1 else 0

/-- The tables agree: only descriptors below `PIPE_FD_NUM` are handed out, the bit of each says whether its
entry refers to a registered device, and the counts of the devices are those of the entries. No access
went wrong. -/
structure Accounted (s : PipeTable) : Prop where
  range : ∀ i, pipeFdNum ≤ i → s.devFdBitmap i = false
  bit : ∀ i < pipeFdNum, s.devFdBitmap i = true ↔ (s.devFd i).dev ∈ s.devList
  readers : ∀ d ∈ s.devList, (s.dev d).readerCnt = opened s.devFd d oRdonly
  writers : ∀ d ∈ s.devList, (s.dev d).writerCnt = opened s.devFd d oWronly
  ref : ∀ d ∈ s.devList, (s.dev d).ref = refs s.devFd d
  fault : s.fault = none

/-- With what keeps them so: an entry that is not open is `NULL`, and the numbers of the devices are
their own. -/
structure Tables (s : PipeTable) : Prop extends Accounted s where
  closed : ∀ i < pipeFdNum, s.devFdBitmap i = false → (s.devFd i).dev = 0
  zero : 0 ∉ s.devList
  nodup : s.devList.Nodup
  bound : ∀ d ∈ s.devList, s.devNumBitmap (s.dev d).num = true
  nums : ∀ d ∈ s.devList, ∀ d' ∈ s.devList, (s.dev d).num = (s.dev d').num → d = d'

section
variable {s : PipeTable} {d openFlag fd : Nat}

theorem pipeDevFind_some {path : Nat} (h : s.pipeDevFind path = some d) :
    d ∈ s.devList ∧ (s.dev d).num = path :=
  ⟨mem_of_find?_eq_some h, by simpa using find?_some h⟩

theorem pipeDevFdAlloc_some (h : s.pipeDevFdAlloc = some fd) : s.devFdBitmap fd = false := by
  simpa using find?_some h

/-- A clear bit of a descriptor is found, or one before it. -/
theorem pipeDevFdAlloc_of_clear {i : Nat} (hi : i < pipeFdNum) (hclear : s.devFdBitmap i = false) :
    ∃ fd, s.pipeDevFdAlloc = some fd ∧ fd < pipeFdNum := by
  cases hfd : s.pipeDevFdAlloc with
  | none =>
    have hall := find?_eq_none.mp hfd i (mem_range.mpr (Nat.lt_of_lt_of_le hi (by decide)))
    simp [hclear] at hall
  | some fd =>
    refine ⟨fd, rfl, ?_⟩
    by_contra hge
    have hbefore := (find?_range_eq_some.mp hfd).2.2 i (by omega)
    simp [hclear] at hbefore

section
variable {devFd : Nat → PipeFdDev}

theorem opened_update (devFd : Nat → PipeFdDev) (hfd : fd < pipeFdNum) (e : PipeFdDev) (d openFlag : Nat) :
    opened (update devFd fd e) d openFlag + (if devFd fd = ⟨d, openFlag⟩ then 1 else 0) =
      opened devFd d openFlag + (if e = ⟨d, openFlag⟩ then 1 else 0) :=
  sum_update devFd (fun e => if e = ⟨d, openFlag⟩ then 1 else 0) hfd e

theorem refs_update (devFd : Nat → PipeFdDev) (hfd : fd < pipeFdNum) (e : PipeFdDev) (d : Nat) :
    refs (update devFd fd e) d + (if (devFd fd).dev = d then 1 else 0) =
      refs devFd d + (if e.dev = d then 1 else 0) :=
  sum_update devFd (fun e => if e.dev = d then 1 else 0) hfd e

/-- A device that no entry refers to. -/
theorem dev_ne_of_refs (h : refs devFd d = 0) (hfd : fd < pipeFdNum) : (devFd fd).dev ≠ d := by
  intro hc
  have := Finset.sum_eq_zero_iff.mp h fd (Finset.mem_range.mpr hfd)
  simp [hc] at this

theorem opened_eq_zero_of_refs (h : refs devFd d = 0) (openFlag : Nat) : opened devFd d openFlag = 0 :=
  Finset.sum_eq_zero fun i hi => if_neg fun hc =>
    dev_ne_of_refs h (Finset.mem_range.mp hi) (by rw [hc])

end

/-- A device has its counts. -/
structure Counted (devFd : Nat → PipeFdDev) (d : Nat) (c : PipeDev) : Prop where
  readers : c.readerCnt = opened devFd d oRdonly
  writers : c.writerCnt = opened devFd d oWronly
  ref : c.ref = refs devFd d

theorem Tables.counted (h : Tables s) (hd : d ∈ s.devList) : Counted s.devFd d (s.dev d) :=
  ⟨h.readers d hd, h.writers d hd, h.ref d hd⟩

variable {devFd : Nat → PipeFdDev} {c : PipeDev}

/-- A new entry for another device. -/
theorem Counted.update_of_ne {e : PipeFdDev} (h : Counted devFd d c)
    (hfd : fd < pipeFdNum) (hold : (devFd fd).dev ≠ d) (hnew : e.dev ≠ d) :
    Counted (update devFd fd e) d c := by
  have hentry : ∀ (x : PipeFdDev) f, x.dev ≠ d → ¬ x = ⟨d, f⟩ := fun x f hx hc => hx (by rw [hc])
  have hr := opened_update devFd hfd e d oRdonly
  have hw := opened_update devFd hfd e d oWronly
  have hf := refs_update devFd hfd e d
  rw [if_neg (hentry _ _ hold), if_neg (hentry _ _ hnew)] at hr hw
  rw [if_neg hold, if_neg hnew] at hf
  rw [Nat.add_zero, Nat.add_zero] at hr hw hf
  exact ⟨by rw [hr, h.readers], by rw [hw, h.writers], by rw [hf, h.ref]⟩

/-- A new entry for the device. -/
theorem Counted.countOpen (h : Counted devFd d c)
    (hfd : fd < pipeFdNum) (hold : (devFd fd).dev ≠ d) :
    Counted (update devFd fd ⟨d, openFlag⟩) d (PipeTable.countOpen openFlag c) := by
  have hentry : ∀ f, ¬ devFd fd = ⟨d, f⟩ := fun f hc => hold (by rw [hc])
  have hr := opened_update devFd hfd ⟨d, openFlag⟩ d oRdonly
  have hw := opened_update devFd hfd ⟨d, openFlag⟩ d oWronly
  have hf := refs_update devFd hfd ⟨d, openFlag⟩ d
  simp only [hentry, hold, PipeFdDev.mk.injEq, true_and, if_false, Nat.add_zero] at hr hw hf
  refine ⟨?_, ?_, ?_⟩
  · rw [hr, ← h.readers]
    simp only [PipeTable.countOpen]
    split_ifs <;> rfl
  · rw [hw, ← h.writers]
    simp only [PipeTable.countOpen]
    split_ifs <;> rfl
  · rw [hf, ← h.ref]
    rfl

/-- An entry of the device is given up. -/
theorem Counted.countClose (h : Counted devFd d c)
    (hfd : fd < pipeFdNum) (hold : devFd fd = ⟨d, openFlag⟩) (hd : d ≠ 0) :
    Counted (update devFd fd ⟨0, 0⟩) d (PipeTable.countClose openFlag c) := by
  have hr := opened_update devFd hfd ⟨0, 0⟩ d oRdonly
  have hw := opened_update devFd hfd ⟨0, 0⟩ d oWronly
  have hf := refs_update devFd hfd ⟨0, 0⟩ d
  simp only [hold, hd.symm, PipeFdDev.mk.injEq, true_and, false_and, if_true, if_false,
    Nat.add_zero] at hr hw hf
  refine ⟨?_, ?_, ?_⟩ <;> simp only [PipeTable.countClose]
  · rw [h.readers]
    split_ifs at hr ⊢ <;> omega
  · rw [h.writers]
    split_ifs at hw ⊢ <;> omega
  · rw [h.ref]
    omega

/-! ## What the calls do to the tables -/

/-- The tables with another entry for the descriptor, and other counts of the device. -/
@[simp] def PipeTable.changed (s : PipeTable) (fd : Nat) (used : Bool) (e : PipeFdDev) (minFd : Int) (d : Nat)
    (f : PipeDev → PipeDev) : PipeTable :=
  { s with
    devFdBitmap := update s.devFdBitmap fd used
    devFd := update s.devFd fd e
    devStartFd := minFd
    dev := update s.dev d (f (s.dev d)) }

theorem Tables.changed {used : Bool} {e : PipeFdDev} {f : PipeDev → PipeDev} (h : Tables s)
    (hfd : fd < pipeFdNum) (hused : used = true ↔ e.dev ∈ s.devList)
    (hfree : used = false → e.dev = 0) (hf : ∀ c, (f c).num = c.num)
    (hcount : Counted (update s.devFd fd e) d (f (s.dev d)))
    (hother : ∀ d' ∈ s.devList, d' ≠ d → (s.devFd fd).dev ≠ d' ∧ e.dev ≠ d') (minFd : Int) :
    Tables (s.changed fd used e minFd d f) := by
  have hcounts : ∀ d' ∈ s.devList, Counted (update s.devFd fd e) d'
      (update s.dev d (f (s.dev d)) d') := by
    intro d' hd'
    by_cases heq : d' = d
    · rwa [heq, update_self]
    · rw [update_of_ne heq]
      exact (h.counted hd').update_of_ne hfd (hother d' hd' heq).1 (hother d' hd' heq).2
  have hnum : ∀ d', ((s.changed fd used e minFd d f).dev d').num = (s.dev d').num := by
    intro d'
    by_cases heq : d' = d
    · simp [heq, hf]
    · simp [heq]
  refine ⟨⟨?_, ?_, fun d' hd' => (hcounts d' hd').readers, fun d' hd' => (hcounts d' hd').writers,
    fun d' hd' => (hcounts d' hd').ref, h.fault⟩, ?_, h.zero, h.nodup, ?_, ?_⟩
  · intro i hi
    have hne : i ≠ fd := by omega
    simpa [hne] using h.range i hi
  · intro i hi
    by_cases hif : i = fd
    · simpa [hif] using hused
    · simpa [hif] using h.bit i hi
  · intro i hi
    by_cases hif : i = fd
    · simpa [hif] using hfree
    · simpa [hif] using h.closed i hi
  · intro d' hd'
    rw [hnum]
    exact h.bound d' hd'
  · intro d1 hd1 d2 hd2 heq
    rw [hnum, hnum] at heq
    exact h.nums d1 hd1 d2 hd2 heq

/-- A descriptor of the device is opened. -/
theorem Tables.entered (h : Tables s) (hd : d ∈ s.devList) (hfd : fd < pipeFdNum)
    (hclear : s.devFdBitmap fd = false) (minFd : Int) :
    Tables (s.changed fd true ⟨d, openFlag⟩ minFd d (PipeTable.countOpen openFlag)) := by
  have hold : ∀ d' ∈ s.devList, (s.devFd fd).dev ≠ d' := by
    intro d' hd'
    rw [h.closed fd hfd hclear]
    exact (ne_of_mem_of_not_mem hd' h.zero).symm
  apply h.changed hfd
  · simpa using hd
  · simp
  · exact fun _ => rfl
  · exact (h.counted hd).countOpen hfd (hold d hd)
  · exact fun d' hd' hne => ⟨hold d' hd', Ne.symm hne⟩

/-- A descriptor of the device is closed. -/
theorem Tables.left (h : Tables s) (hd : d ∈ s.devList) (hfd : fd < pipeFdNum)
    (hentry : s.devFd fd = ⟨d, openFlag⟩) :
    Tables (s.changed fd false ⟨0, 0⟩ s.devStartFd d (PipeTable.countClose openFlag)) := by
  have hzero : ∀ d' ∈ s.devList, d' ≠ 0 := fun d' hd' => ne_of_mem_of_not_mem hd' h.zero
  apply h.changed hfd
  · simpa using h.zero
  · simp
  · exact fun _ => rfl
  · exact (h.counted hd).countClose hfd hentry (hzero d hd)
  · intro d' hd' hne
    rw [hentry]
    exact ⟨Ne.symm hne, (hzero d' hd').symm⟩

/-- The device gets its ring buffer. -/
theorem Tables.setRing (h : Tables s) (d : Nat) :
    Tables (s.setDev d fun c => { c with ringBuffer := true }) := by
  have hcounts : ∀ d' ∈ s.devList,
      Counted s.devFd d' ((s.setDev d fun c => { c with ringBuffer := true }).dev d') := by
    intro d' hd'
    by_cases heq : d' = d
    · subst heq
      simpa only [PipeTable.setDev, update_self] using ⟨h.readers d' hd', h.writers d' hd',
        h.ref d' hd'⟩
    · simpa only [PipeTable.setDev, update_of_ne heq] using h.counted hd'
  have hnum : ∀ d', ((s.setDev d fun c => { c with ringBuffer := true }).dev d').num = (s.dev d').num := by
    intro d'
    by_cases heq : d' = d
    · simp [heq]
    · simp [heq]
  refine ⟨⟨h.range, h.bit, fun d' hd' => (hcounts d' hd').readers, fun d' hd' => (hcounts d' hd').writers,
    fun d' hd' => (hcounts d' hd').ref, h.fault⟩, h.closed, h.zero, h.nodup, ?_, ?_⟩
  · intro d' hd'
    rw [hnum]
    exact h.bound d' hd'
  · intro d1 hd1 d2 hd2 heq
    rw [hnum, hnum] at heq
    exact h.nums d1 hd1 d2 hd2 heq

theorem setRing_eq_self (hring : (s.dev d).ringBuffer = true) :
    s.setDev d (fun c => { c with ringBuffer := true }) = s := by
  have hsame : { s.dev d with ringBuffer := true } = s.dev d := by rw [← hring]
  rw [PipeTable.setDev, hsame, update_eq_self]

/-- A device that no entry refers to is unregistered. -/
theorem Tables.unregister (h : Tables s) (hrefs : refs s.devFd d = 0) : Tables (s.pipeDevUnregister d) := by
  unfold PipeTable.pipeDevUnregister
  split_ifs with hd
  · have hmem : ∀ d', d' ∈ s.devList.erase d ↔ d' ≠ d ∧ d' ∈ s.devList := fun d' => h.nodup.mem_erase_iff
    refine ⟨⟨h.range, ?_, fun d' hd' => h.readers d' ((hmem d').mp hd').2,
      fun d' hd' => h.writers d' ((hmem d').mp hd').2, fun d' hd' => h.ref d' ((hmem d').mp hd').2,
        h.fault⟩,
      h.closed, fun hc => h.zero ((hmem 0).mp hc).2, h.nodup.erase d, ?_, ?_⟩
    · intro i hi
      simp only [hmem, dev_ne_of_refs hrefs hi, not_false_eq_true, ne_eq, true_and]
      exact h.bit i hi
    · intro d' hd'
      obtain ⟨hne, hd'⟩ := (hmem d').mp hd'
      have hnum : (s.dev d').num ≠ (s.dev d).num := fun hc => hne (h.nums d' hd' d hd hc)
      simpa [update_of_ne hnum] using h.bound d' hd'
    · intro d1 hd1 d2 hd2 heq
      exact h.nums d1 ((hmem d1).mp hd1).2 d2 ((hmem d2).mp hd2).2 heq
  · exact h

/-- No entry refers to an address at which there is no device. -/
theorem Tables.refs_fresh (h : Tables s) (hd : d ∉ s.devList) (hzero : d ≠ 0) : refs s.devFd d = 0 := by
  refine Finset.sum_eq_zero fun i hi => if_neg fun hc => ?_
  rcases hbit : s.devFdBitmap i with _ | _
  · exact hzero (by rw [← hc, h.closed i (Finset.mem_range.mp hi) hbit])
  · exact hd (by rw [← hc]; exact (h.bit i (Finset.mem_range.mp hi)).mp hbit)

/-- The tables with a new device. -/
@[simp] def PipeTable.registered (s : PipeTable) (num d : Nat) : PipeTable :=
  { s with
    devNumBitmap := update s.devNumBitmap num true
    dev := update s.dev d ⟨num, false, 0, 0, 0⟩
    devList := d :: s.devList }

theorem Tables.registered {num : Nat} (h : Tables s) (hzero : d ≠ 0) (hd : d ∉ s.devList)
    (hnum : s.devNumBitmap num = false) : Tables (s.registered num d) := by
  have hrefs := h.refs_fresh hd hzero
  have hne : ∀ d' ∈ s.devList, d' ≠ d := fun d' hd' => ne_of_mem_of_not_mem hd' hd
  have hnums : ∀ d' ∈ s.devList, (s.dev d').num ≠ num := by
    intro d' hd' hc
    simp [← hc, h.bound d' hd'] at hnum
  have hcounts : ∀ d' ∈ d :: s.devList, Counted s.devFd d' ((s.registered num d).dev d') := by
    intro d' hd'
    rcases mem_cons.mp hd' with rfl | hd'
    · simp only [PipeTable.registered, update_self]
      exact ⟨(opened_eq_zero_of_refs hrefs _).symm, (opened_eq_zero_of_refs hrefs _).symm, hrefs.symm⟩
    · simpa only [PipeTable.registered, update_of_ne (hne d' hd')] using h.counted hd'
  refine ⟨⟨h.range, ?_, fun d' hd' => (hcounts d' hd').readers, fun d' hd' => (hcounts d' hd').writers,
    fun d' hd' => (hcounts d' hd').ref, h.fault⟩, h.closed, ?_, nodup_cons.mpr ⟨hd, h.nodup⟩, ?_, ?_⟩
  · intro i hi
    simpa [dev_ne_of_refs hrefs hi] using h.bit i hi
  · simpa [hzero.symm] using h.zero
  · intro d' hd'
    rcases mem_cons.mp hd' with rfl | hd'
    · simp
    · simpa [hne d' hd', hnums d' hd'] using h.bound d' hd'
  intro d1 hd1 d2 hd2 heq
  rcases mem_cons.mp hd1 with rfl | hd1 <;> rcases mem_cons.mp hd2 with heq2 | hd2
  · exact heq2.symm
  · simp [hne d2 hd2, (hnums d2 hd2).symm] at heq
  · simp [heq2, hne d1 hd1, hnums d1 hd1] at heq
  · simp only [PipeTable.registered, update_of_ne (hne _ hd1), update_of_ne (hne _ hd2)] at heq
    exact h.nums d1 hd1 d2 hd2 heq

/-- The tables after a `PipeOpen` that succeeds. -/
@[simp] def PipeTable.withOpen (s : PipeTable) (d openFlag fd : Nat) (minFd : Int) : PipeTable :=
  (s.changed fd true ⟨d, openFlag⟩ minFd d (countOpen openFlag)).setDev d fun c =>
    { c with ringBuffer := true }

/-- `PipeOpen` with a valid flag, on a device there is, with a descriptor and a ring buffer to be had. -/
theorem pipeOpen_eq {path i : Nat} (ring : Bool) (minFd : Int)
    (hflag : openFlag = oRdonly ∨ openFlag = oWronly) (hfind : s.pipeDevFind path = some d)
    (hi : i < pipeFdNum) (hclear : s.devFdBitmap i = false)
    (hring : (s.dev d).ringBuffer = true ∨ ring = true) :
    ∃ fd < pipeFdNum, s.devFdBitmap fd = false ∧
      s.pipeOpen path openFlag minFd ring = (s.withOpen d openFlag fd minFd, fd + minFd) := by
  obtain ⟨fd, halloc, hfd⟩ := pipeDevFdAlloc_of_clear hi hclear
  refine ⟨fd, hfd, pipeDevFdAlloc_some halloc, ?_⟩
  have hvalid : ¬ (openFlag ≠ oRdonly ∧ openFlag ≠ oWronly) := by tauto
  have hdev : ((s.changed fd true ⟨d, openFlag⟩ minFd d (PipeTable.countOpen openFlag)).dev d).ringBuffer =
      (s.dev d).ringBuffer := by
    simp [PipeTable.countOpen]
  rw [PipeTable.pipeOpen, if_neg hvalid, hfind, halloc]
  dsimp only
  rw [if_neg (by omega)]
  change (if ((s.changed fd true ⟨d, openFlag⟩ minFd d
      (PipeTable.countOpen openFlag)).dev d).ringBuffer = true then
    (s.changed fd true ⟨d, openFlag⟩ minFd d (PipeTable.countOpen openFlag), (fd : Int) + minFd) else _) = _
  split_ifs with hb hr
  · rw [PipeTable.withOpen, setRing_eq_self hb]
  · rfl
  · rw [hdev] at hb
    exact absurd hring (by simp [hb, hr])

theorem Tables.withOpen (h : Tables s) (hd : d ∈ s.devList) (hfd : fd < pipeFdNum)
    (hclear : s.devFdBitmap fd = false) (minFd : Int) : Tables (s.withOpen d openFlag fd minFd) :=
  (h.entered hd hfd hclear minFd).setRing d

theorem Tables.pipeClose (h : Tables s) (fd : Int) : Tables (s.pipeClose fd).1 := by
  unfold PipeTable.pipeClose
  cases hget : s.pipeFdDevGet fd with
  | none => exact h
  | some i =>
    have hi : i < pipeFdNum := by
      unfold PipeTable.pipeFdDevGet at hget
      split_ifs at hget with h1 h2
      cases hget
      omega
    dsimp only
    split_ifs with hzero hmem href
    · exact h
    · have hleft := h.left hmem hi rfl
      refine hleft.unregister ?_
      rwa [← hleft.ref _ hmem]
    · exact h.left hmem hi rfl
    -- an entry that is not `NULL` refers to a device
    rcases hbit : s.devFdBitmap i with _ | _
    · exact absurd (h.closed i hi hbit) hzero
    · exact absurd ((h.bit i hi).mp hbit) hmem

/-- The registration gets what it needs. -/
def Registers (s : PipeTable) (g : PipeGrant) : Prop :=
  (∃ num < pipeDevNum, s.devNumBitmap num = false) ∧ g.memory ∧ g.mutex ∧ g.readSem ∧ g.writeSem

theorem pipeDevRegister_cases (s : PipeTable) (g : PipeGrant) : s.pipeDevRegister g = (s, none) ∨
      ∃ num, Registers s g ∧ s.devNumBitmap num = false ∧
        s.pipeDevRegister g = (s.registered num g.addr, some num) := by
  unfold PipeTable.pipeDevRegister
  cases hnum : s.pipeDevNumAlloc with
  | none => exact .inl rfl
  | some num =>
    obtain ⟨hclear, hlt, -⟩ := find?_range_eq_some.mp hnum
    simp only [Bool.not_eq_eq_eq_not, mem_range] at hclear hlt
    dsimp only
    split_ifs with h1 h2 h3 h4 h5 <;> try exact .inl rfl
    simp only [Bool.not_eq_eq_eq_not, Bool.not_true, Bool.not_eq_false] at h1 h3 h4 h5
    exact .inr ⟨num, ⟨⟨num, hlt, hclear⟩, h1, h3, h4, h5⟩, hclear, rfl⟩

/-- A device is found under its number. -/
theorem Tables.find (h : Tables s) (hd : d ∈ s.devList) : s.pipeDevFind (s.dev d).num = some d := by
  cases hfind : s.pipeDevFind (s.dev d).num with
  | none => simpa using find?_eq_none.mp hfind d hd
  | some d' =>
    obtain ⟨hd', hnum⟩ := pipeDevFind_some hfind
    rw [h.nums d' hd' d hd hnum]

/-- The call does not come to the two slips: `PipeOpen` finds a descriptor below `PIPE_FD_NUM` and the device
has its ring buffer or gets one, and the second `open` of `pipe` comes to `PipeOpen`. -/
def Fits (s : PipeTable) : FdCall → Prop
  | .pipe g _ =>
    Registers s g → g.open0 → g.ring ∧ g.open1 ∧
      ∃ i < pipeFdNum, ∃ j < pipeFdNum, i ≠ j ∧ s.devFdBitmap i = false ∧ s.devFdBitmap j = false
  | .open path openFlag _ ring =>
    openFlag = oRdonly ∨ openFlag = oWronly → ∀ d ∈ s.pipeDevFind path,
      (∃ i < pipeFdNum, s.devFdBitmap i = false) ∧ ((s.dev d).ringBuffer = true ∨ ring = true)
  | .close _ => True

theorem Tables.pipeOpen {path : Nat} {minFd : Int} {ring : Bool} (h : Tables s)
    (hfits : Fits s (.open path openFlag minFd ring)) :
    Tables (s.pipeOpen path openFlag minFd ring).1 := by
  by_cases hflag : openFlag = oRdonly ∨ openFlag = oWronly
  · cases hfind : s.pipeDevFind path with
    | none =>
      rwa [PipeTable.pipeOpen, if_neg (by tauto), hfind]
    | some d =>
      obtain ⟨⟨i, hi, hclear⟩, hring⟩ := hfits hflag d hfind
      obtain ⟨fd, hfd, hbit, heq⟩ := pipeOpen_eq ring minFd hflag hfind hi hclear hring
      rw [heq]
      exact h.withOpen (pipeDevFind_some hfind).1 hfd hbit minFd
  · rwa [PipeTable.pipeOpen, if_pos (by tauto)]

theorem Tables.pipe {g : PipeGrant} {minFd : Int} (h : Tables s) (hzero : g.addr ≠ 0)
    (hfresh : g.addr ∉ s.devList) (hmin : 0 ≤ minFd) (hfits : Fits s (.pipe g minFd)) :
    Tables (s.pipe g minFd).1 := by
  rcases pipeDevRegister_cases s g with heq | ⟨num, hreg, hnum, heq⟩
  · rwa [PipeTable.pipe, heq]
  have hs := h.registered hzero hfresh hnum
  have hmem : g.addr ∈ (s.registered num g.addr).devList := mem_cons_self
  have hfind : (s.registered num g.addr).pipeDevFind num = some g.addr := by
    have := hs.find hmem
    simpa using this
  rw [PipeTable.pipe, heq]
  dsimp only
  rw [hfind]
  by_cases hopen : g.open0 = true
  · obtain ⟨hring, hopen', i, hi, j, hj, hij, hbi, hbj⟩ := hfits hreg hopen
    obtain ⟨fd, hfd, hbit, heq0⟩ := pipeOpen_eq g.ring minFd (.inl rfl) hfind hi hbi (.inr hring)
    have hs' : Tables ((s.registered num g.addr).withOpen g.addr oRdonly fd minFd) :=
      hs.withOpen hmem hfd hbit minFd
    have hfind' :
        ((s.registered num g.addr).withOpen g.addr oRdonly fd minFd).pipeDevFind num = some g.addr := by
      have := hs'.find hmem
      simpa [PipeTable.countOpen]
        using this
    -- one of the two clear bits is still clear
    obtain ⟨k, hk, hbk⟩ : ∃ k < pipeFdNum,
        ((s.registered num g.addr).withOpen g.addr oRdonly fd minFd).devFdBitmap k
        = false := by
      by_cases hfi : i = fd
      · refine ⟨j, hj, ?_⟩
        have hjf : j ≠ fd := fun hc => hij (hfi.trans hc.symm)
        simpa [hjf] using hbj
      · exact ⟨i, hi, by
          simpa [hfi]
            using hbi⟩
    obtain ⟨fd', hfd', hbit', heq1⟩ := pipeOpen_eq g.ring minFd (.inr rfl) hfind' hk hbk (.inr hring)
    rw [if_pos hopen, heq0]
    dsimp only
    rw [if_neg (by omega), if_pos hopen', heq1]
    rw [if_neg (by omega)]
    exact hs'.withOpen hmem hfd' hbit' minFd
  · rw [if_neg hopen]
    dsimp only
    exact hs.unregister (h.refs_fresh hfresh hzero)

theorem Tables.step {c : FdCall} {s' : PipeTable} (h : Tables s) (hfits : Fits s c)
    (hstep : s.step c = some s') : Tables s' := by
  cases c with
  | pipe g minFd =>
    obtain ⟨⟨-, hzero, hfresh, hmin⟩, ⟨⟩⟩ := ite_none_right_eq_some.mp hstep
    exact h.pipe hzero hfresh hmin hfits
  | «open» path openFlag minFd ring =>
    obtain ⟨-, ⟨⟩⟩ := ite_none_right_eq_some.mp hstep
    exact h.pipeOpen hfits
  | close fd =>
    obtain ⟨-, ⟨⟩⟩ := ite_none_right_eq_some.mp hstep
    exact h.pipeClose fd

end

theorem tables_init : Tables .init := by
  refine ⟨⟨fun _ _ => rfl, ?_, ?_, ?_, ?_, rfl⟩, fun _ _ _ => rfl, ?_, nodup_nil, ?_, ?_⟩ <;>
    simp [PipeTable.init]

/-- In every sequence of calls in which no open runs out of descriptors or of memory half-way, and whatever
else fails: the bitmap, `g_devFd` and the counts of the devices agree, and no access goes wrong. -/
theorem descriptors_accounted (calls : List FdCall) (s : PipeTable)
    (hfits : Guarded PipeTable.step Fits .init calls)
    (hexec : exec PipeTable.step .init calls = some s) : Accounted s :=
  (exec_inv_guarded (fun _ _ _ h hok hstep => Tables.step h hok hstep) tables_init hfits hexec).toAccounted

instance decidableFitsCall (s : PipeTable) (c : FdCall) : Decidable (Fits s c) := by
  cases c <;> unfold Fits <;> (try unfold Registers) <;> infer_instance

/-- Everything is granted. -/
def granted (addr : Nat) : PipeGrant := ⟨addr, true, true, true, true, true, true, true⟩

/-- A pipe is made, its read end opened again, and its three descriptors are closed; a second one is made
in between, and its registration finds no memory the first time. -/
def openAndClose : List FdCall :=
  [.pipe (granted 1) 100, .open 0 oRdonly 100 false, .pipe { granted 2 with memory := false } 100,
    .pipe (granted 2) 100, .close 100, .close 101, .close 102]

theorem descriptors_accounted_openAndClose :
    ∃ s, exec PipeTable.step .init openAndClose = some s ∧ s.devList = [2] ∧ Accounted s := by
  obtain ⟨s, hs, hlist⟩ : ∃ s, exec PipeTable.step .init openAndClose = some s ∧ s.devList = [2] :=
    ⟨_, rfl, rfl⟩
  exact ⟨s, hs, hlist, descriptors_accounted openAndClose s (by decide +kernel) hs⟩

/-- With 64 descriptors open, the next one is 64, behind the end of `g_devFd`; a `PipeOpen` without memory for
the ring buffer leaves its entry, through which a close comes to the device that `pipe` has freed; and a
`pipe` whose second `open` fails closes the first one on a device that it has freed. -/
theorem descriptors_not_accounted :
    (exec PipeTable.step .init (.pipe (granted 1) 100 :: List.replicate 63 (.open 0 oRdonly 100 true))).any
        (fun s => decide (s.fault = some .outOfRange ∧ s.devFdBitmap 64 = true)) = true ∧
      (exec PipeTable.step .init [.pipe { granted 1 with ring := false } 100, .close 100]).any
        (fun s => decide (s.fault = some .useAfterFree)) = true ∧
      (exec PipeTable.step .init [.pipe { granted 1 with open1 := false } 100]).any
        (fun s => decide (s.fault = some .useAfterFree)) = true := by
  decide +kernel

end LiteosM.Posix
