import LiteosM.Fs.Unmount
import LiteosM.Lib.Count
import Mathlib.Algebra.Order.BigOperators.Group.Finset

/-!
# The references to a mount point

`mRefs` counts the files and directories that are open in a mount point, and `umount` goes by it. `VfsOpen`
and `opendir` raise it; `VfsClose` and `closedir` give the file or directory back in any case, but lower
the count only when the driver has said yes.

* `Referenced`: the counts are those of the tables, and nothing refers to a mount point that is gone;
* `Referenced.step`: the calls keep it, when the driver does not refuse a close;
* **`references_counted`**: so it is after every run without such a refusal.

The calls are those of `Fs.Vfs`, on any paths and with any answers of the drivers but these.
-/

namespace LiteosM.Fs

open LiteosM.Lib Function List Option Vfs

/-- 1 for a slot that is in use for a file of the mount point. -/
def File.uses (m : Nat) (f : File) : Nat := if f.fStatus ≠ .notUsed ∧ f.fMp = m then 1 else 0

/-- How many slots are in use for files of the mount point. -/
def fileRefs (files : Nat → File) (m : Nat) : Nat := ∑ i ∈ Finset.range nrOpenDefault, (files i).uses m

/-- How many directories of the mount point are open. -/
def dirRefs (dirs : List (Nat × Nat)) (m : Nat) : Nat := dirs.countP fun d => d.2 = m

/-- The counts are right, and every file and directory is in a mount point that is mounted. -/
structure Referenced (s : Vfs) : Prop where
  refs : ∀ m ∈ s.mountPoints, (s.mp m).mRefs = fileRefs s.files m + dirRefs s.dirs m
  dirNum : s.dirNum = s.dirs.length
  file : ∀ i < nrOpenDefault, (s.files i).fStatus ≠ .notUsed → (s.files i).fMp ∈ s.mountPoints
  dir : ∀ d ∈ s.dirs, d.2 ∈ s.mountPoints

/-- The same, with the bound that `opendir` keeps; between two calls no slot is being initialised or
closed. -/
structure References (s : Vfs) : Prop extends Referenced s where
  null : 0 ∉ s.mountPoints
  status : ∀ i, (s.files i).fStatus = .notUsed ∨ (s.files i).fStatus = .ready
  few : s.dirs.length ≤ maxOpenDirs

/-! ## Counting -/

section
variable {s s' : Vfs} {files : Nat → File} {dirs : List (Nat × Nat)} {m i : Nat}

theorem fileRefs_update (f : File) (m : Nat) (hi : i < nrOpenDefault) :
    fileRefs (update files i f) m + (files i).uses m = fileRefs files m + f.uses m :=
  sum_update files (File.uses m) hi f

theorem uses_free (m : Nat) : File.free.uses m = 0 := if_neg fun h => h.1 rfl

theorem uses_of_notUsed {f : File} (h : f.fStatus = .notUsed) (m : Nat) : f.uses m = 0 :=
  if_neg fun hf => hf.1 h

theorem fileRefs_le (files : Nat → File) (m : Nat) : fileRefs files m ≤ nrOpenDefault := by
  have hle : ∀ i ∈ Finset.range nrOpenDefault, (files i).uses m ≤ 1 := fun i _ => by
    unfold File.uses
    split_ifs <;> omega
  calc fileRefs files m ≤ (Finset.range nrOpenDefault).card • 1 := Finset.sum_le_card_nsmul _ _ _ hle
    _ = nrOpenDefault := by simp

theorem fileRefs_eq_zero (h : fileRefs files m = 0) (hi : i < nrOpenDefault)
    (hused : (files i).fStatus ≠ .notUsed) : (files i).fMp ≠ m := by
  have := Finset.sum_eq_zero_iff.mp h i (Finset.mem_range.mpr hi)
  intro hm
  rw [File.uses, if_pos ⟨hused, hm⟩] at this
  cases this

/-- A mount point that no file refers to. -/
theorem fileRefs_of_none (h : ∀ i < nrOpenDefault, (files i).fStatus ≠ .notUsed → (files i).fMp ≠ m) :
    fileRefs files m = 0 :=
  Finset.sum_eq_zero fun i hi => if_neg fun hf => h i (Finset.mem_range.mp hi) hf.1 hf.2

theorem dirRefs_le (dirs : List (Nat × Nat)) (m : Nat) : dirRefs dirs m ≤ dirs.length :=
  countP_le_length

/-! ## The steps -/

theorem setRefs_mRefs (m' : Nat) (f : Nat → Nat) :
    ((s.setRefs m f).mp m').mRefs = if m' = m then f (s.mp m).mRefs else (s.mp m').mRefs := by
  unfold setRefs
  dsimp only
  split_ifs with h
  · rw [h, update_self]
  · rw [update_of_ne h]

theorem addRef_mRefs (m' : Nat) :
    ((s.addRef m).mp m').mRefs = if m' = m then ((s.mp m).mRefs + 1) % 2 ^ 32 else (s.mp m').mRefs :=
  setRefs_mRefs m' _

theorem dropRef_mRefs (m' : Nat) : ((s.dropRef m).mp m').mRefs =
    if m' = m then ((s.mp m).mRefs + (2 ^ 32 - 1)) % 2 ^ 32 else (s.mp m').mRefs :=
  setRefs_mRefs m' _

section
variable (h : References s)
include h

/-- There is room in `mRefs`. -/
theorem References.refs_lt (hm : m ∈ s.mountPoints) : (s.mp m).mRefs + 1 < 2 ^ 32 := by
  have hfl := fileRefs_le s.files m
  have hdl := dirRefs_le s.dirs m
  have hfew := h.few
  unfold nrOpenDefault configNfileDescriptors minStartFd at hfl
  unfold maxOpenDirs at hfew
  rw [h.refs m hm]
  omega

/-- Mount points that are in use are not removed. -/
theorem References.unmount (recursive : Bool) (op : MountOps → Bool)
    (target : Option Path) (driver : Int) : References (s.unmount recursive op target driver).1 := by
  rcases s.unmount_cases recursive op target driver with ⟨p, m, -, hroutes, hrefs, -, -, hout⟩ | ⟨-, hout⟩
  · rw [hout]
    have hzero := h.refs m hroutes.mem
    have hfiles : fileRefs s.files m = 0 := by omega
    refine ⟨⟨fun m' hm' => h.refs m' (mem_of_mem_erase hm'), h.dirNum, fun i hi hused => ?_,
      fun d hd => ?_⟩, fun h0 => h.null (mem_of_mem_erase h0), h.status, h.few⟩
    · exact (mem_erase_of_ne (fileRefs_eq_zero hfiles hi hused)).mpr (h.file i hi hused)
    have hne : d.2 ≠ m := fun hm => by
      have : 0 < dirRefs s.dirs m := countP_pos_iff.mpr ⟨d, hd, by simpa using hm⟩
      omega
    exact (mem_erase_of_ne hne).mpr (h.dir d hd)
  · rwa [hout]

theorem References.mount {addr : Nat} (haddr : addr ∉ s.mountPoints) (recursive : Bool)
    (target : Option Path) (remount rdonly : Bool) (fsType : Option FsMap) (driver : Int) :
    References (s.mount recursive target remount rdonly fsType addr driver).1 := by
  rcases s.mount_cases recursive target remount rdonly fsType addr driver with
    ⟨p, fs, -, -, -, hnull, -, hout⟩ | hout <;> rw [hout]
  · have hdirs : dirRefs s.dirs addr = 0 := countP_eq_zero.mpr fun d hd hm =>
      haddr ((of_decide_eq_true hm) ▸ h.dir d hd)
    have hfiles : fileRefs s.files addr = 0 := fileRefs_of_none fun i hi hused hm =>
      haddr (hm ▸ h.file i hi hused)
    refine ⟨⟨fun m hm => ?_, h.dirNum, fun i hi hused => mem_cons_of_mem _ (h.file i hi hused),
      fun d hd => mem_cons_of_mem _ (h.dir d hd)⟩, fun h0 => ?_, h.status, h.few⟩
    · dsimp only
      by_cases hma : m = addr
      · rw [hma, update_self, hdirs, hfiles]
      · rw [update_of_ne hma]
        exact h.refs m ((mem_cons.mp hm).resolve_left hma)
    · exact (mem_cons.mp h0).elim (fun h0 => hnull h0.symm) h.null
  · exact h

/-- What `VfsFilePut` and `VfsOpen` put into a slot. -/
theorem References.setFile {f : File} (hstatus : f.fStatus = .notUsed ∨ f.fStatus = .ready)
    (hmem : f.fStatus ≠ .notUsed → f.fMp ∈ s.mountPoints) :
    (∀ j < nrOpenDefault, (update s.files i f j).fStatus ≠ .notUsed →
      (update s.files i f j).fMp ∈ s.mountPoints) ∧ ∀ j, (update s.files i f j).fStatus = .notUsed ∨
      (update s.files i f j).fStatus = .ready := by
  constructor
  · intro j hj hused
    by_cases hji : j = i
    · rw [hji, update_self] at hused ⊢
      exact hmem hused
    · rw [update_of_ne hji] at hused ⊢
      exact h.file j hj hused
  intro j
  by_cases hji : j = i
  · rwa [hji, update_self]
  · rw [update_of_ne hji]
    exact h.status j

theorem References.setFree (hi : i < nrOpenDefault)
    (hfree : (s.files i).fStatus = .notUsed) : References (s.setFile i .free) := by
  obtain ⟨hfile, hstatus⟩ := h.setFile (f := .free) (.inl rfl) fun hused => absurd rfl hused
  refine ⟨⟨fun m hm => ?_, h.dirNum, hfile, h.dir⟩, h.null, hstatus, h.few⟩
  have hcount := @fileRefs_update s.files _ .free m hi
  rw [uses_free, uses_of_notUsed hfree, Nat.add_zero, Nat.add_zero] at hcount
  exact (h.refs m hm).trans (by rw [← hcount]; rfl)

end

theorem vfsFileGet_eq (h : s.vfsFileGet = some i) :
    i < nrOpenDefault ∧ (s.files i).fStatus = .notUsed :=
  ⟨mem_range.mp (mem_of_find?_eq_some h), by simpa using find?_some h⟩

section
variable (h : References s)
include h

/-- A file is opened in slot `i`. -/
theorem References.opened (hi : i < nrOpenDefault)
    (hfree : (s.files i).fStatus = .notUsed) (hm : m ∈ s.mountPoints) (fops : Option FileOps) :
    References ((s.setFile i ⟨.ready, m, fops⟩).addRef m) := by
  obtain ⟨hfile, hstatus⟩ := h.setFile (f := ⟨.ready, m, fops⟩) (.inr rfl) fun _ => hm
  refine ⟨⟨fun m' hm' => ?_, h.dirNum, hfile, h.dir⟩, h.null, hstatus, h.few⟩
  have hcount := @fileRefs_update s.files _ ⟨.ready, m, fops⟩ m' hi
  rw [uses_of_notUsed hfree, Nat.add_zero] at hcount
  have hold := h.refs m' hm'
  change (((s.setFile i ⟨.ready, m, fops⟩).addRef m).mp m').mRefs =
    fileRefs (update s.files i ⟨.ready, m, fops⟩) m' + dirRefs s.dirs m'
  rw [addRef_mRefs, hcount]
  change (if m' = m then ((s.mp m).mRefs + 1) % 2 ^ 32 else (s.mp m').mRefs) = _
  by_cases hmm : m' = m
  · subst hmm
    rw [if_pos rfl, File.uses, if_pos ⟨FileStatus.noConfusion, rfl⟩, Nat.mod_eq_of_lt (h.refs_lt hm)]
    omega
  · rw [if_neg hmm, File.uses, if_neg fun hc => hmm hc.2.symm, hold, Nat.add_zero]

/-- The file in slot `i` is closed. -/
theorem References.closed (hi : i < nrOpenDefault) (hready : (s.files i).fStatus = .ready) :
    References ((s.dropRef (s.files i).fMp).setFile i .free) := by
  have hused : (s.files i).fStatus ≠ .notUsed := by
    rw [hready]
    exact FileStatus.noConfusion
  obtain ⟨hfile, hstatus⟩ := h.setFile (f := .free) (.inl rfl) fun hused => absurd rfl hused
  refine ⟨⟨fun m hm => ?_, h.dirNum, hfile, h.dir⟩, h.null, hstatus, h.few⟩
  have hcount := @fileRefs_update s.files _ .free m hi
  rw [uses_free] at hcount
  have hold := h.refs m hm
  have hlt := h.refs_lt hm
  change ((s.dropRef (s.files i).fMp).mp m).mRefs =
    fileRefs (update s.files i .free) m + dirRefs s.dirs m
  rw [dropRef_mRefs]
  by_cases hmm : m = (s.files i).fMp
  · rw [File.uses, if_pos ⟨hused, hmm.symm⟩] at hcount
    rw [if_pos hmm, ← hmm]
    omega
  · rw [File.uses, if_neg fun hc => hmm hc.2.symm] at hcount
    rw [if_neg hmm]
    omega

theorem References.vfsOpen (recursive : Bool) (path : Option Path) (writes malloc : Bool)
    (driver : Int) : References (s.vfsOpen recursive path writes malloc driver).1 := by
  unfold Vfs.vfsOpen
  split
  · exact h
  split
  · exact h
  rename_i m hfind
  split
  · exact h
  split
  · exact h
  split
  · exact h
  rename_i i hget
  obtain ⟨hi, hfree⟩ := vfsFileGet_eq hget
  split
  · exact h.setFree hi hfree
  · exact h.opened hi hfree (vfsMpFind_iff.mp hfind).mem _

theorem References.opendir {recursive : Bool} {path : Option Path} {addr : Nat}
    {driver : Int} {out : Vfs × Nat} (hout : s.opendir recursive path addr driver = some out) :
    References out.1 := by
  unfold Vfs.opendir at hout
  split at hout
  · cases hout
    exact h
  split at hout
  · cases hout
    exact h
  rename_i hroom
  split at hout
  · cases hout
    exact h
  rename_i m hfind
  have hm := (vfsMpFind_iff.mp hfind).mem
  split at hout
  · cases hout
  split at hout
  · cases hout
    exact h
  have hfew : s.dirs.length < maxOpenDirs := by
    rw [← h.dirNum]
    exact Nat.not_le.mp fun hle => hroom (.inr hle)
  unfold maxOpenDirs at hfew
  cases hout
  refine ⟨⟨fun m' hm' => ?_, ?_, h.file, fun d hd => ?_⟩, h.null, h.status, hfew⟩
  · have hold := h.refs m' hm'
    rw [addRef_mRefs, dirRefs, countP_cons]
    change _ = fileRefs s.files m' + (dirRefs s.dirs m' + _)
    by_cases hmm : m' = m
    · subst hmm
      rw [if_pos rfl, Nat.mod_eq_of_lt (h.refs_lt hm), if_pos (by simp)]
      omega
    · rwa [if_neg hmm, if_neg (by simpa using Ne.symm hmm)]
  · change (s.dirNum + 1) % 2 ^ 32 = s.dirs.length + 1
    rw [h.dirNum]
    omega
  · rcases mem_cons.mp hd with rfl | hd
    · exact hm
    · exact h.dir d hd

/-- The directory `d` is closed. -/
theorem References.closedDir {d : Nat × Nat} (hd : d ∈ s.dirs) :
    References { s.dropRef d.2 with
      dirNum := (s.dirNum + (2 ^ 32 - 1)) % 2 ^ 32, dirs := s.dirs.erase d } := by
  have hpos := length_pos_of_mem hd
  have hfew := h.few
  have hlen := length_erase_of_mem hd
  unfold maxOpenDirs at hfew
  refine ⟨⟨fun m hm => ?_, ?_, h.file, fun e he => h.dir e (mem_of_mem_erase he)⟩, h.null, h.status,
    hlen.le.trans ((Nat.sub_le _ _).trans h.few)⟩
  · have hold := h.refs m hm
    have hlt := h.refs_lt hm
    rw [dropRef_mRefs, dirRefs, countP_erase]
    change _ = fileRefs s.files m + (dirRefs s.dirs m - _)
    by_cases hmm : m = d.2
    · have hcount : 0 < dirRefs s.dirs m := countP_pos_iff.mpr ⟨d, hd, by simpa using hmm.symm⟩
      rw [if_pos hmm, ← hmm, if_pos ⟨hd, by simp [hmm]⟩]
      omega
    · rwa [if_neg hmm, if_neg fun hc => hmm (by simpa using hc.2 : d.2 = m).symm]
  · change (s.dirNum + (2 ^ 32 - 1)) % 2 ^ 32 = (s.dirs.erase d).length
    rw [h.dirNum]
    omega

end

end

/-! ## Runs -/

/-- The driver does not refuse to close a file or a directory that is open. -/
def Closes (s : Vfs) : VfsCall → Prop
  | .closeFile fd driver => (minStartFd ≤ fd ∧ fd < configNfileDescriptors) →
      (s.files (fd - minStartFd).toNat).fStatus = .ready →
        (s.files (fd - minStartFd).toNat).fFops.any FileOps.hasClose = true ∧ driver = 0
  | .closedir d driver => (s.mp d.2).mFs.hasFop FileOps.hasClosedir = true ∧ driver = 0
  | _ => True

instance decidableCloses (s : Vfs) (c : VfsCall) : Decidable (Closes s c) := by
  unfold Closes
  repeat' split
  all_goals infer_instance

section
variable {s s' : Vfs}

theorem References.vfsClose (h : References s) {fd driver : Int} (hok : Closes s (.closeFile fd driver)) :
    References (s.vfsClose fd driver).1 := by
  unfold Vfs.vfsClose
  split
  · exact h
  dsimp only
  split
  · exact h
  rename_i hopen
  rw [not_or, not_not] at hopen
  obtain ⟨hclose, rfl⟩ := hok (by omega) hopen.2
  rw [hclose]
  exact h.closed (by unfold nrOpenDefault; omega) hopen.2

theorem References.step {recursive : Bool} {c : VfsCall} (h : References s) (hok : Closes s c)
    (hstep : s.step recursive c = some s') : References s' := by
  cases c with
  | mount target remount rdonly fsType addr driver =>
    obtain ⟨haddr, ⟨⟩⟩ := ite_none_left_eq_some.mp hstep
    exact h.mount haddr ..
  | umount target driver | umount2 target driver =>
    cases hstep
    exact h.unmount ..
  | openFile path writes malloc driver =>
    cases hstep
    exact h.vfsOpen ..
  | closeFile fd driver =>
    cases hstep
    exact h.vfsClose hok
  | opendir path addr driver =>
    simp only [Vfs.step] at hstep
    split_ifs at hstep
    obtain ⟨out, hout, rfl⟩ := map_eq_some_iff.mp hstep
    exact h.opendir hout
  | closedir d driver =>
    obtain ⟨hclose, rfl⟩ := hok
    simp only [Vfs.step] at hstep
    split_ifs at hstep with hd
    have hout : (s.closedir d 0).1 = { s.dropRef d.2 with
        dirNum := (s.dirNum + (2 ^ 32 - 1)) % 2 ^ 32, dirs := s.dirs.erase d } := by
      unfold closedir
      rw [hclose]
      rfl
    rw [← some.inj hstep, hout]
    exact h.closedDir hd

end

theorem references_init : References .init := by
  refine ⟨⟨fun m hm => ?_, rfl, fun i _ hused => absurd rfl hused, fun d hd => ?_⟩, not_mem_nil,
    fun i => .inl rfl, Nat.zero_le _⟩
  · cases hm
  · cases hd

/-- In every run of `mount`, `umount`, `umount2`, `open`, `close`, `opendir` and `closedir` in which no
driver refuses a close, `mRefs` of every mount point is the number of its files and directories that are
open, `g_dirNum` that of the open directories, and no file or directory refers to a mount point that has
been freed. -/
theorem references_counted (recursive : Bool) (run : List VfsCall) (s : Vfs)
    (hok : Guarded (step recursive) Closes .init run) (hrun : exec (step recursive) .init run = some s) :
    Referenced s :=
  (exec_inv_guarded (fun _ _ _ h hok hstep => References.step h hok hstep) references_init hok
    hrun).toReferenced

/-- A file system with all functions is mounted at `/a`, and `/a/f` opened. -/
def mountAndOpen : List VfsCall :=
  [.mount (some ['/', 'a']) false false (some ⟨some ⟨true, true, true⟩, some ⟨true, true, true, true⟩⟩) 1 0,
    .openFile (some ['/', 'a', '/', 'f']) false true 0]

/-- A directory is opened and closed, too, and the mount point goes away. -/
def closeAndUmount : List VfsCall :=
  mountAndOpen ++ [.opendir (some ['/', 'a']) 1 0, .closeFile 3 0, .closedir (1, 1) 0, .umount (some ['/', 'a']) 0]

theorem references_counted_closeAndUmount :
    ∃ s, exec (step false) .init closeAndUmount = some s ∧ s.mountPoints = [] ∧ Referenced s := by
  obtain ⟨s, hs, hgone⟩ : ∃ s, exec (step false) .init closeAndUmount = some s ∧ s.mountPoints = [] :=
    ⟨_, rfl, rfl⟩
  exact ⟨s, hs, hgone, references_counted false closeAndUmount s (by decide +kernel) hs⟩

/-- The driver refuses to close `/a/f`: the slot is free, but `mRefs` stays 1, and nothing is unmounted any
more. -/
theorem references_not_counted :
    (exec (step false) .init (mountAndOpen ++ [.closeFile 3 (-1), .umount (some ['/', 'a']) 0])).any
      (fun s => decide (s.mountPoints = [1] ∧ (s.mp 1).mRefs = 1 ∧ s.dirs = [] ∧
        ∀ i < nrOpenDefault, (s.files i).fStatus = .notUsed)) = true := by
  decide +kernel

end LiteosM.Fs
