import LiteosM.Kernel.Data
import LiteosM.Lib.Align

/-!
# Loading a shared library

Model of `los_dynlink.c` from the checks of the headers to `OsLoadLibrary`, with the 32-bit structures of
ELF. The contents of the headers are arbitrary. `LOS_MemAllocAlign` and the `lseek` and `read` of
`OsReadELFInfo` are parameters; the latter is told which header it reads for, and answers with the number
of bytes it has stored. What is recorded are the ranges of bytes that are written.

* `loadELFFile_within_iff`: the ranges of all segments are in the block, exactly when each segment that is
  loaded fits;
* **`library_stays_inside`**: the same for a file;
* `fits_of_lowest`: the segments of a library that begins in its first page fit. One that does not, and
  is not moved by as much in the file, is loaded behind its block.

Out of scope: the dynamic section and what is relocated by it (`Components.DynReloc`).
-/

namespace LiteosM.Components

open LiteosM.Lib LiteosM.Kernel List Option UInt32 Nat

/-- `PHDR_NUM_MAX`. -/
def phdrNumMax : UInt16 := 128

/-- `PT_LOAD`. -/
def ptLoad : UInt32 := 1

/-- `PT_TLS`. -/
def ptTls : UInt32 := 7

/-- `PF_W`. -/
def pfW : UInt32 := 2

/-- `PF_R`. -/
def pfR : UInt32 := 4

/-- `ELF_ALIGN_UP`. -/
def elfAlignUp (a b : UInt32) : UInt32 := (a + (b - 1)) &&& ~~~(b - 1)

/-- `ELF_ALIGN_DOWN`. -/
def elfAlignDown (a b : UInt32) : UInt32 := a &&& ~~~(b - 1)

/-- `ELF_ALIGN_OFFSET`. -/
def elfAlignOffset (a b : UInt32) : UInt32 := a &&& (b - 1)

/-- What is read of `LD_ELF_EHDR`. -/
structure Ehdr where
  ident : List UInt8
  type : UInt16
  machine : UInt16
  phoff : UInt32
  phentsize : UInt16
  phnum : UInt16
  deriving DecidableEq, Repr

/-- What is read of `LD_ELF_PHDR`. -/
structure Phdr where
  type : UInt32
  offset : UInt32
  vaddr : UInt32
  filesz : UInt32
  memsz : UInt32
  flags : UInt32
  align : UInt32
  deriving DecidableEq, Repr

/-- A file with its headers. -/
structure ElfFile where
  fileLen : UInt32
  ehdr : Ehdr
  phdrs : List Phdr
  phnum : phdrs.length = ehdr.phnum.toNat

/-- `OsVerifyEhdr`. -/
def verifyEhdr (ehdr : Ehdr) (fileLen : UInt32) : Bool :=
  -- `LD_ELFMAG`, `ET_DYN` and `EM_ARM`.
  ehdr.ident.take 4 = [0x7f, 0x45, 0x4c, 0x46] && ehdr.type = 3 && ehdr.machine = 40 &&
    ehdr.phnum ≤ phdrNumMax && ehdr.phoff ≤ fileLen

/-- The checks of `OsReadPhdrs`. -/
def checkPhdrs (ehdr : Ehdr) (fileLen : UInt32) : Bool :=
  ehdr.phnum ≠ 0 && ehdr.phentsize = 32 && ehdr.phoff + 32 * ehdr.phnum.toUInt32 ≤ fileLen

/-- Both checks are passed. -/
def ElfFile.accepted (file : ElfFile) : Bool :=
  verifyEhdr file.ehdr file.fileLen && checkPhdrs file.ehdr file.fileLen

/-! ## `OsReserveSpace` -/

/-- The variables of the loop. -/
structure Extent where
  boundary : UInt32
  addrMin : UInt32
  addrMax : UInt32
  offStart : UInt32
  deriving DecidableEq, Repr

/-- One round of the loop, at a segment that is loaded. -/
def Extent.add (e : Extent) (ph : Phdr) : Extent where
  boundary := if e.boundary = 0 then ph.align else e.boundary
  addrMin := if ph.vaddr < e.addrMin then ph.vaddr else e.addrMin
  offStart := if ph.vaddr < e.addrMin then ph.offset else e.offStart
  addrMax := if ph.vaddr + ph.memsz > e.addrMax then ph.vaddr + ph.memsz else e.addrMax

/-- The loop of `OsReserveSpace`; `none` when there is thread-local storage. -/
def extent : List Phdr → Extent → Option Extent
  | [], e => some e
  | ph :: phdrs, e =>
    if ph.type = ptTls then none
    else if ph.type ≠ ptLoad then extent phdrs e
    else extent phdrs (e.add ph)

/-- The size that `OsReserveSpace` returns. All of it is 32-bit arithmetic, so its last test has no effect. -/
def Extent.size (e : Extent) : UInt32 :=
  if e.addrMin = e.addrMax ∨ e.addrMax < e.addrMin then 0
  else elfAlignUp e.addrMax e.boundary - elfAlignDown e.addrMin e.boundary + elfAlignDown e.offStart e.boundary

/-- `OsReserveSpace`, with the boundary. -/
def reserveSpace (phdrs : List Phdr) : UInt32 × UInt32 :=
  match extent phdrs ⟨0, 0xFFFFFFFF, 0, 0⟩ with
  | none => (0, 0)
  | some e => (e.size, e.boundary)

/-! ## `OsLoadELFFile` -/

/-- What `OsReadELFInfo` does for a header: the number of bytes stored, of a size from an offset on. -/
abbrev ReadELFInfo := Nat → UInt32 → UInt32 → Option Nat

/-- What `OsLoadLibrary` comes to. -/
inductive LoadRet where
  | ok
  | libBad
  | inval
  | noMem
  | noExec
  | fault
  deriving DecidableEq, Repr

/-- A range of bytes that is written. -/
structure Write where
  start : UInt32
  len : Nat
  deriving DecidableEq, Repr

/-- The bytes of a segment that `OsDoLoadFile` stores; `none` when it returns 0 without having read. -/
def readSegment (read : ReadELFInfo) (boundary : UInt32) (i : Nat) (ph : Phdr) : Option Nat :=
  let offset := ph.offset - elfAlignOffset ph.vaddr boundary
  let size := ph.filesz + elfAlignOffset ph.vaddr boundary
  if size = 0 then none else read i size offset

/-- `memset_s(dest, count, 0, count)`. -/
def memsetS (dest count : UInt32) : List Write :=
  if dest = 0 ∨ count = 0 ∨ count.toNat > securecMemMaxLen then [] else [⟨dest, count.toNat⟩]

/-- The clearing of the bss of a segment at `loadAddr`. -/
def clearBss (boundary loadAddr : UInt32) (ph : Phdr) : List Write :=
  if ph.memsz > ph.filesz ∧ ph.flags &&& pfW ≠ 0 then
    let bssStart := loadAddr + elfAlignOffset ph.vaddr boundary + ph.filesz
    let bssEnd := loadAddr + elfAlignOffset ph.vaddr boundary + ph.memsz
    memsetS bssStart (bssEnd - bssStart)
  else []

/-- The loop of `OsLoadELFFile`, from the header with index `i` on. -/
def loadELFFile (read : ReadELFInfo) (loadBase boundary : UInt32) : Nat → List Phdr → LoadRet × List Write
  | _, [] => (.ok, [])
  | i, ph :: phdrs =>
    if ph.type ≠ ptLoad then loadELFFile read loadBase boundary (i + 1) phdrs
    else if ph.flags &&& pfR = 0 then (.noExec, [])
    else
      match readSegment read boundary i ph with
      | none => (.fault, [])
      | some n =>
        let loadAddr := elfAlignDown (ph.vaddr + loadBase) boundary
        if loadAddr = 0 then (.fault, [⟨loadAddr, n⟩])
        else
          let rest := loadELFFile read loadBase boundary (i + 1) phdrs
          (rest.1, ⟨loadAddr, n⟩ :: clearBss boundary loadAddr ph ++ rest.2)

/-- The answer, the reserved range and the writes into it, in order. -/
structure LoadResult where
  ret : LoadRet
  loadBase : UInt32
  loadSize : UInt32
  writes : List Write
  deriving DecidableEq, Repr

/-- `OsLoadLibrary`; `alloc` is `LOS_MemAllocAlign`. -/
def loadLibrary (alloc : UInt32 → UInt32 → UInt32) (read : ReadELFInfo) (phdrs : List Phdr) : LoadResult :=
  let (loadSize, boundary) := reserveSpace phdrs
  if loadSize = 0 then ⟨.inval, 0, 0, []⟩
  else
    let loadBase := alloc loadSize boundary
    if loadBase = 0 then ⟨.noMem, 0, loadSize, []⟩
    else
      let r := loadELFFile read loadBase boundary 0 phdrs
      ⟨r.1, loadBase, loadSize, r.2⟩

/-- A file is loaded if it passes the checks of its headers. -/
def ElfFile.load (file : ElfFile) (alloc : UInt32 → UInt32 → UInt32) (read : ReadELFInfo) : LoadResult :=
  if file.accepted then loadLibrary alloc read file.phdrs else ⟨.libBad, 0, 0, []⟩

/-! ## What is written -/

/-- What `LOS_MemAllocAlign` returns: nothing for a boundary that is no power of two, and an aligned block
of the size that does not run over the end of the memory. -/
def AllocatesAligned (alloc : UInt32 → UInt32 → UInt32) : Prop :=
  ∀ size boundary, alloc size boundary ≠ 0 → (∃ k, boundary.toNat = 2 ^ k) ∧
    (alloc size boundary).toNat % boundary.toNat = 0 ∧ (alloc size boundary).toNat + size.toNat ≤ 2 ^ 32

/-- `OsReadELFInfo` stores one byte at least and no more than it is asked for. -/
def ReadsAtMost (read : ReadELFInfo) : Prop := ∀ i size offset n, read i size offset = some n → 0 < n ∧ n ≤ size.toNat

/-- The segments that are loaded, with the numbers of bytes read: those up to the first that is not
readable, is empty or cannot be read. -/
def loadedSegments (read : ReadELFInfo) (boundary : UInt32) : Nat → List Phdr → List (Phdr × Nat)
  | _, [] => []
  | i, ph :: phdrs =>
    if ph.type ≠ ptLoad then loadedSegments read boundary (i + 1) phdrs
    else if ph.flags &&& pfR = 0 then []
    else
      match readSegment read boundary i ph with
      | none => []
      | some n => (ph, n) :: loadedSegments read boundary (i + 1) phdrs

/-- The bss of a segment is cleared. -/
def ClearsBss (loadBase : UInt32) (ph : Phdr) : Prop :=
  ph.memsz > ph.filesz ∧ ph.flags &&& pfW ≠ 0 ∧ ph.memsz.toNat - ph.filesz.toNat ≤ securecMemMaxLen ∧
    loadBase + ph.vaddr + ph.filesz ≠ 0

/-- A segment fits: what is read for it from the boundary before its address on, and its bss, end within
the size of the block. -/
def SegmentFits (loadBase loadSize boundary : UInt32) (ph : Phdr) (n : Nat) : Prop :=
  ph.vaddr.toNat - ph.vaddr.toNat % boundary.toNat + n ≤ loadSize.toNat ∧
  (ClearsBss loadBase ph →
    (ph.vaddr.toNat + ph.filesz.toNat) % 2 ^ 32 + (ph.memsz.toNat - ph.filesz.toNat) ≤ loadSize.toNat)

/-- The bytes of the write are in the reserved range. -/
def Write.Inside (w : Write) (loadBase loadSize : UInt32) : Prop := Within loadBase loadSize w.start w.len

section
variable {read : ReadELFInfo} {loadBase loadSize boundary : UInt32} {k n : Nat} {ph : Phdr}

/-- Where the bss begins. -/
theorem bssStart_eq (hboundary : boundary.toNat = 2 ^ k) (haligned : loadBase.toNat % boundary.toNat = 0) :
    elfAlignDown (ph.vaddr + loadBase) boundary + elfAlignOffset ph.vaddr boundary + ph.filesz =
      loadBase + ph.vaddr + ph.filesz := by
  refine congrArg (· + ph.filesz) (UInt32.toNat_inj.mp ?_)
  have hdown := toNat_align_add (x := ph.vaddr) hboundary haligned
  have hoffset := toNat_and_pred (x := ph.vaddr) hboundary
  have hle : ph.vaddr.toNat % boundary.toNat ≤ ph.vaddr.toNat := mod_le _ _
  rw [UInt32.toNat_add, UInt32.toNat_add]
  unfold elfAlignDown elfAlignOffset
  omega

theorem bss_length (h : ph.filesz < ph.memsz) (x : UInt32) :
    (x + ph.memsz - (x + ph.filesz)).toNat = ph.memsz.toNat - ph.filesz.toNat := by
  have hlt : ph.filesz.toNat < ph.memsz.toNat := lt_iff_toNat_lt.mp h
  have hmem := ph.memsz.toNat_lt
  rw [UInt32.toNat_sub, UInt32.toNat_add, UInt32.toNat_add]
  omega

section
variable (hboundary : boundary.toNat = 2 ^ k) (haligned : loadBase.toNat % boundary.toNat = 0)
include hboundary haligned

/-- What is written for the bss. -/
theorem clearBss_eq :
    (ClearsBss loadBase ph ∧ clearBss boundary (elfAlignDown (ph.vaddr + loadBase) boundary) ph =
      [⟨loadBase + ph.vaddr + ph.filesz, ph.memsz.toNat - ph.filesz.toNat⟩]) ∨
    (¬ ClearsBss loadBase ph ∧ clearBss boundary (elfAlignDown (ph.vaddr + loadBase) boundary) ph = []) := by
  unfold clearBss
  by_cases hclear : ph.memsz > ph.filesz ∧ ph.flags &&& pfW ≠ 0
  · obtain ⟨hlt, hwrite⟩ := hclear
    have hnat : ph.filesz.toNat < ph.memsz.toNat := lt_iff_toNat_lt.mp hlt
    have hlen := bss_length hlt (elfAlignDown (ph.vaddr + loadBase) boundary + elfAlignOffset ph.vaddr boundary)
    have hstart := @bssStart_eq _ _ _ ph hboundary haligned
    generalize elfAlignDown (ph.vaddr + loadBase) boundary + elfAlignOffset ph.vaddr boundary = x at hlen hstart
    have hne : x + ph.memsz - (x + ph.filesz) ≠ 0 := by
      intro hzero
      rw [hzero] at hlen
      change 0 = _ at hlen
      omega
    rw [if_pos ⟨hlt, hwrite⟩]
    unfold memsetS
    dsimp only
    rw [hlen]
    rw [hstart] at hne ⊢
    by_cases hskip : loadBase + ph.vaddr + ph.filesz = 0 ∨ ph.memsz.toNat - ph.filesz.toNat > securecMemMaxLen
    · rw [if_pos (hskip.imp id .inr)]
      refine .inr ⟨fun h => ?_, rfl⟩
      rcases hskip with hnull | hmax
      · exact h.2.2.2 hnull
      · exact absurd h.2.2.1 (Nat.not_le_of_lt hmax)
    · obtain ⟨hnull, hmax⟩ := not_or.mp hskip
      rw [if_neg (by simp [hnull, hne, hmax])]
      exact .inl ⟨⟨hlt, hwrite, Nat.le_of_not_lt hmax, hnull⟩, rfl⟩
  · rw [if_neg hclear]
    exact .inr ⟨fun h => hclear ⟨h.1, h.2.1⟩, rfl⟩

theorem clearBss_within_iff (hbase : 0 < loadBase.toNat)
    (hblock : loadBase.toNat + loadSize.toNat ≤ 2 ^ 32) :
    (∀ w ∈ clearBss boundary (elfAlignDown (ph.vaddr + loadBase) boundary) ph, w.Inside loadBase loadSize) ↔
      (ClearsBss loadBase ph →
        (ph.vaddr.toNat + ph.filesz.toNat) % 2 ^ 32 + (ph.memsz.toNat - ph.filesz.toNat) ≤ loadSize.toNat) := by
  rcases @clearBss_eq _ _ _ ph hboundary haligned with ⟨hclears, heq⟩ | ⟨hclears, heq⟩ <;> rw [heq]
  · have hlen : 0 < ph.memsz.toNat - ph.filesz.toNat := Nat.sub_pos_of_lt (UInt32.lt_iff_toNat_lt.mp hclears.1)
    have hrange : (loadBase + ph.vaddr + ph.filesz).toNat =
        (loadBase.toNat + (ph.vaddr.toNat + ph.filesz.toNat) % 2 ^ 32) % 2 ^ 32 := by
      rw [UInt32.toNat_add, UInt32.toNat_add]
      omega
    simp only [mem_singleton, forall_eq]
    unfold Write.Inside
    rw [within_iff hrange (mod_lt _ (by decide)) hlen hbase hblock]
    exact ⟨fun h _ => h, fun h => h hclears⟩
  · exact iff_of_true (fun w hw => absurd hw not_mem_nil) fun h => absurd h hclears

end

theorem loadELFFile_within_iff (hread : ReadsAtMost read) (hboundary : boundary.toNat = 2 ^ k)
    (haligned : loadBase.toNat % boundary.toNat = 0) (hbase : 0 < loadBase.toNat)
    (hblock : loadBase.toNat + loadSize.toNat ≤ 2 ^ 32) (i : Nat) (phdrs : List Phdr) :
    (∀ w ∈ (loadELFFile read loadBase boundary i phdrs).2, w.Inside loadBase loadSize) ↔
      ∀ p ∈ loadedSegments read boundary i phdrs, SegmentFits loadBase loadSize boundary p.1 p.2 := by
  induction phdrs generalizing i with
  | nil => exact iff_of_true (fun w hw => absurd hw not_mem_nil) fun p hp => absurd hp not_mem_nil
  | cons ph phdrs ih =>
    unfold loadELFFile loadedSegments
    by_cases htype : ph.type ≠ ptLoad
    · rw [if_pos htype, if_pos htype]
      exact ih (i + 1)
    split_ifs with hflags
    · exact iff_of_true (fun w hw => absurd hw not_mem_nil) fun p hp => absurd hp not_mem_nil
    cases hseg : readSegment read boundary i ph with
    | none => exact iff_of_true (fun w hw => absurd hw not_mem_nil) fun p hp => absurd hp not_mem_nil
    | some n =>
      have hn : 0 < n := by
        exact (hread i _ _ n (ite_none_left_eq_some.mp hseg).2).1
      have haddr := toNat_align_add (x := ph.vaddr) hboundary haligned
      have hlt : ph.vaddr.toNat - ph.vaddr.toNat % boundary.toNat < 2 ^ 32 :=
        (sub_le _ _).trans_lt ph.vaddr.toNat_lt
      have hfirst : Write.Inside ⟨elfAlignDown (ph.vaddr + loadBase) boundary, n⟩ loadBase loadSize ↔ _ :=
        within_iff haddr hlt hn hbase hblock
      dsimp only
      by_cases hzero : elfAlignDown (ph.vaddr + loadBase) boundary = 0
      · -- The segment is read to address 0, which is not in the block.
        rw [if_pos hzero]
        have hout : ¬ Write.Inside ⟨elfAlignDown (ph.vaddr + loadBase) boundary, n⟩ loadBase loadSize := by
          intro hin
          have hbyte := (hin 0 hn).1
          rw [hzero] at hbyte
          exact absurd hbyte (Nat.not_le_of_lt hbase)
        exact iff_of_false (fun h => hout (h _ mem_cons_self))
          fun h => hout (hfirst.mpr (h _ mem_cons_self).1)
      · rw [if_neg hzero]
        simp only [cons_append, forall_mem_cons, forall_mem_append, ih (i + 1), hfirst,
          clearBss_within_iff hboundary haligned hbase hblock, SegmentFits, and_assoc]

/-! ## Libraries that fit -/

theorem Extent.le_add (e : Extent) (ph : Phdr) :
    e.addrMax ≤ (e.add ph).addrMax ∧ ph.vaddr + ph.memsz ≤ (e.add ph).addrMax := by
  unfold Extent.add
  dsimp only
  split
  · rename_i hgt
    exact ⟨UInt32.le_of_lt hgt, UInt32.le_refl _⟩
  · rename_i hle
    exact ⟨UInt32.le_refl _, UInt32.not_lt.mp hle⟩

variable {phdrs : List Phdr}

/-- The extent covers every segment. -/
theorem le_addrMax {e e' : Extent} (h : extent phdrs e = some e') :
    e.addrMax ≤ e'.addrMax ∧ ∀ ph ∈ phdrs, ph.type = ptLoad → ph.vaddr + ph.memsz ≤ e'.addrMax := by
  induction phdrs generalizing e with
  | nil =>
    cases h
    exact ⟨UInt32.le_refl _, fun ph hph => absurd hph not_mem_nil⟩
  | cons ph phdrs ih =>
    obtain ⟨-, h⟩ := ite_none_left_eq_some.mp h
    split at h
    · rename_i hother
      obtain ⟨hmax, hall⟩ := ih h
      refine ⟨hmax, fun x hx hload => ?_⟩
      rcases mem_cons.mp hx with rfl | hx
      · exact absurd hload hother
      · exact hall x hx hload
    obtain ⟨hmax, hall⟩ := ih h
    obtain ⟨hold, hnew⟩ := e.le_add ph
    refine ⟨UInt32.le_trans hold hmax, fun x hx hload => ?_⟩
    rcases mem_cons.mp hx with rfl | hx
    · exact UInt32.le_trans hnew hmax
    · exact hall x hx hload

theorem mem_loadedSegments {i : Nat} {p : Phdr × Nat}
    (hp : p ∈ loadedSegments read boundary i phdrs) :
    p.1 ∈ phdrs ∧ p.1.type = ptLoad ∧ ∃ j, readSegment read boundary j p.1 = some p.2 := by
  induction phdrs generalizing i with
  | nil => exact absurd hp not_mem_nil
  | cons ph phdrs ih =>
    unfold loadedSegments at hp
    split at hp
    · obtain ⟨hmem, hrest⟩ := ih hp
      exact ⟨mem_cons_of_mem _ hmem, hrest⟩
    rename_i htype
    split at hp
    · exact absurd hp not_mem_nil
    split at hp
    · exact absurd hp not_mem_nil
    rename_i n hseg
    rcases mem_cons.mp hp with rfl | hp
    · exact ⟨mem_cons_self, not_not.mp htype, i, hseg⟩
    · obtain ⟨hmem, hrest⟩ := ih hp
      exact ⟨mem_cons_of_mem _ hmem, hrest⟩

/-- A block for segments from the first page on is as long as they reach. -/
theorem addrMax_le_size {e : Extent} (hboundary : e.boundary.toNat = 2 ^ k)
    (hlowest : e.addrMin.toNat < e.boundary.toNat) (hnonempty : e.addrMin < e.addrMax)
    (hend : e.addrMax.toNat + e.boundary.toNat + e.offStart.toNat < 2 ^ 32) :
    e.addrMax.toNat ≤ e.size.toNat := by
  have hpos : 0 < e.boundary.toNat := by
    rw [hboundary]
    exact Nat.two_pow_pos k
  have hlt := lt_iff_toNat_lt.mp hnonempty
  have hpred : (e.boundary - 1).toNat = e.boundary.toNat - 1 := by rw [toNat_pred_two_pow hboundary, hboundary]
  have hsum : (e.addrMax + (e.boundary - 1)).toNat = e.addrMax.toNat + (e.boundary.toNat - 1) := by
    rw [UInt32.toNat_add, hpred]
    exact mod_eq_of_lt (by omega)
  have hup : (elfAlignUp e.addrMax e.boundary).toNat = e.addrMax.toNat + (e.boundary.toNat - 1) -
      (e.addrMax.toNat + (e.boundary.toNat - 1)) % e.boundary.toNat := by
    unfold elfAlignUp
    rw [toNat_and_compl hboundary, hsum]
  have hrem := mod_lt (e.addrMax.toNat + (e.boundary.toNat - 1)) hpos
  have hlow : elfAlignDown e.addrMin e.boundary = 0 := by
    refine UInt32.toNat_inj.mp ?_
    unfold elfAlignDown
    rw [toNat_and_compl hboundary, mod_eq_of_lt hlowest, Nat.sub_self]
    rfl
  have hoff : (elfAlignDown e.offStart e.boundary).toNat ≤ e.offStart.toNat := by
    unfold elfAlignDown
    rw [toNat_and_compl hboundary]
    exact sub_le _ _
  have hcond : ¬ (e.addrMin = e.addrMax ∨ e.addrMax < e.addrMin) := by
    rintro (heq | hgt)
    · rw [heq] at hlt
      exact lt_irrefl _ hlt
    · exact absurd (lt_iff_toNat_lt.mp hgt) (Nat.not_lt_of_lt hlt)
  unfold Extent.size
  rw [if_neg hcond, hlow, UInt32.toNat_add, UInt32.toNat_sub_of_le _ _ (UInt32.zero_le), mod_eq_of_lt]
  · change _ ≤ _ - 0 + _
    omega
  · omega

/-- **A library that begins in its first page fits**, when its segments are not longer in the file than in
memory and neither they nor the block run over the end of the memory. -/
theorem fits_of_lowest {e : Extent} (hread : ReadsAtMost read)
    (hextent : extent phdrs ⟨0, 0xFFFFFFFF, 0, 0⟩ = some e) (hboundary : e.boundary.toNat = 2 ^ k)
    (hlowest : e.addrMin.toNat < e.boundary.toNat) (hnonempty : e.addrMin < e.addrMax)
    (hend : e.addrMax.toNat + e.boundary.toNat + e.offStart.toNat < 2 ^ 32)
    (hsegments : ∀ ph ∈ phdrs, ph.type = ptLoad →
      ph.filesz ≤ ph.memsz ∧ ph.vaddr.toNat + ph.memsz.toNat < 2 ^ 32) :
    ∀ p ∈ loadedSegments read e.boundary 0 phdrs, SegmentFits loadBase e.size e.boundary p.1 p.2 := by
  intro p hp
  obtain ⟨hmem, htype, j, hseg⟩ := mem_loadedSegments hp
  obtain ⟨hfile, hwrap⟩ := hsegments p.1 hmem htype
  have hmax := le_iff_toNat_le.mp ((le_addrMax hextent).2 p.1 hmem htype)
  have hfile' := le_iff_toNat_le.mp hfile
  rw [UInt32.toNat_add] at hmax
  have hsize := addrMax_le_size hboundary hlowest hnonempty hend
  have hn : p.2 ≤ p.1.filesz.toNat + p.1.vaddr.toNat % e.boundary.toNat := by
    have hle := (hread j _ _ _ (ite_none_left_eq_some.mp hseg).2).2
    rw [UInt32.toNat_add] at hle
    unfold elfAlignOffset at hle
    rw [toNat_and_pred hboundary] at hle
    exact hle.trans (mod_le _ _)
  have hoffset : p.1.vaddr.toNat % e.boundary.toNat ≤ p.1.vaddr.toNat := mod_le _ _
  refine ⟨by omega, fun hclears => ?_⟩
  rw [mod_eq_of_lt (by omega)]
  omega

end

/-- The condition for a file. -/
def ElfFile.Fits (file : ElfFile) (alloc : UInt32 → UInt32 → UInt32) (read : ReadELFInfo) : Prop :=
  file.accepted = true → (reserveSpace file.phdrs).1 ≠ 0 →
    alloc (reserveSpace file.phdrs).1 (reserveSpace file.phdrs).2 ≠ 0 →
    ∀ p ∈ loadedSegments read (reserveSpace file.phdrs).2 0 file.phdrs,
      SegmentFits (alloc (reserveSpace file.phdrs).1 (reserveSpace file.phdrs).2) (reserveSpace file.phdrs).1
        (reserveSpace file.phdrs).2 p.1 p.2

/-- **Loading stays inside its allocation, exactly when each segment that is loaded fits.** -/
theorem library_stays_inside {alloc : UInt32 → UInt32 → UInt32} {read : ReadELFInfo}
    (halloc : AllocatesAligned alloc) (hread : ReadsAtMost read) (file : ElfFile) :
    (∀ w ∈ (file.load alloc read).writes,
      w.Inside (file.load alloc read).loadBase (file.load alloc read).loadSize) ↔ file.Fits alloc read := by
  unfold ElfFile.load ElfFile.Fits loadLibrary
  split_ifs with haccepted
  · rcases reserveSpace file.phdrs with ⟨loadSize, boundary⟩
    dsimp only
    by_cases hsize : loadSize = 0
    · rw [if_pos hsize]
      exact iff_of_true (fun w hw => absurd hw not_mem_nil) fun _ hne => absurd hsize hne
    split_ifs with hbase
    · exact iff_of_true (fun w hw => absurd hw not_mem_nil) fun _ _ hne => absurd hbase hne
    obtain ⟨⟨k, hboundary⟩, haligned, hblock⟩ := halloc loadSize boundary hbase
    have hpos : 0 < (alloc loadSize boundary).toNat :=
      pos_of_ne_zero fun hzero => hbase (UInt32.toNat_inj.mp hzero)
    rw [loadELFFile_within_iff hread hboundary haligned hpos hblock 0 file.phdrs]
    exact ⟨fun h _ _ _ => h, fun h => h haccepted hsize hbase⟩
  · exact iff_of_true (fun w hw => absurd hw not_mem_nil) fun h => absurd h haccepted

/-- A file with one segment. -/
def oneSegment (ph : Phdr) : ElfFile where
  fileLen := 0x1000
  ehdr := ⟨[0x7f, 0x45, 0x4c, 0x46], 3, 40, 52, 32, 1⟩
  phdrs := [ph]
  phnum := rfl

/-- There is memory at 0x10000 for pages. -/
def allocPages (size boundary : UInt32) : UInt32 := if boundary = 0x1000 ∧ size ≤ 0x10000 then 0x10000 else 0

theorem allocPages_aligned : AllocatesAligned allocPages := by
  intro size boundary hne
  unfold allocPages at hne ⊢
  by_cases hcond : boundary = 0x1000 ∧ size ≤ 0x10000
  · have hsize : size.toNat ≤ 0x10000 := le_iff_toNat_le.mp hcond.2
    rw [if_pos hcond, hcond.1]
    refine ⟨⟨12, rfl⟩, rfl, ?_⟩
    change 0x10000 + _ ≤ _
    omega
  · rw [if_neg hcond] at hne
    exact absurd rfl hne

/-- Every read stores all it is asked for. -/
def readAll : ReadELFInfo := fun _ size _ => if size = 0 then none else some size.toNat

theorem readAll_atMost : ReadsAtMost readAll := by
  intro i size offset n hn
  obtain ⟨hne, hn⟩ := ite_none_left_eq_some.mp hn
  cases hn
  exact ⟨pos_of_ne_zero fun hzero => hne (UInt32.toNat_inj.mp hzero), le_refl _⟩

/-- A library of one segment at address 0, with a bss. -/
theorem library_stays_inside_oneSegment :
    ((oneSegment ⟨1, 0, 0, 0x800, 0x900, 6, 0x1000⟩).load allocPages readAll).ret = .ok ∧
    ∀ w ∈ ((oneSegment ⟨1, 0, 0, 0x800, 0x900, 6, 0x1000⟩).load allocPages readAll).writes,
      w.Inside 0x10000 0x1000 := by
  refine ⟨by decide +kernel, (library_stays_inside allocPages_aligned readAll_atMost
    (oneSegment ⟨1, 0, 0, 0x800, 0x900, 6, 0x1000⟩)).mpr ?_⟩
  intro _ _ _ p hp
  obtain rfl : p = (⟨1, 0, 0, 0x800, 0x900, 6, 0x1000⟩, 0x800) := mem_singleton.mp hp
  exact ⟨by decide, fun _ => by decide⟩

theorem fits_of_lowest_oneSegment : SegmentFits 0x10000 0x1000 0x1000 ⟨1, 0, 0, 0x800, 0x900, 6, 0x1000⟩ 0x800 :=
  @fits_of_lowest readAll 0x10000 12 [⟨1, 0, 0, 0x800, 0x900, 6, 0x1000⟩] ⟨0x1000, 0, 0x900, 0⟩ readAll_atMost
    (by decide +kernel) rfl (by decide) (by decide) (by decide) (by decide) _ (mem_singleton_self _)

/-- A segment at address 0x1000 is read to the end of its block of one page, and behind it. -/
theorem library_leaves_allocation :
    (oneSegment ⟨1, 0, 0x1000, 0x800, 0x800, 4, 0x1000⟩).load allocPages readAll =
      ⟨.ok, 0x10000, 0x1000, [⟨0x11000, 0x800⟩]⟩ ∧ ¬ Write.Inside ⟨0x11000, 0x800⟩ 0x10000 0x1000 := by
  refine ⟨by decide +kernel, fun h => ?_⟩
  exact absurd (h 0 (by decide)).2 (by decide)

end LiteosM.Components
