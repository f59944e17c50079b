import LiteosM.Fs.Unmount

/-!
# Formatting a partition

`LOS_PartitionFormat` of `vfs_partition.c`, over the mount points with the name of the device that each
was mounted from (`mDev`). It compares the name of the partition with `mPath`, which is the target.

* `Disks.sourced`: `mDev` and `mPath` of a mount point are the source and the target of a call of `mount`;
* **`partitionFormat_busy_iff`**: a mounted device is refused exactly when its name is also the target of
  a mount point. Otherwise the driver is called.

The mount points are those of `Fs.Vfs`. What the `format` of a driver does is a parameter.
-/

namespace LiteosM.Fs

open LiteosM.Lib Function List Option

/-- The mount points, with `mDev` of each; `none` is `NULL`. -/
structure Disks extends Vfs where
  mDev : Nat → Option Path

/-- The calls of `mount`, `umount` and `umount2`. -/
inductive DiskCall where
  | mount (source target : Option Path) (remount rdonly : Bool) (fsType : Option FsMap) (addr : Nat) (driver : Int)
  | unmount (op : MountOps → Bool) (target : Option Path) (driver : Int)

/-- `EBUSY`. -/
def ebusy : Nat := 16

/-- What `LOS_PartitionFormat` returns, the `errno` it sets and whether it calls the driver. -/
structure Formatted where
  ret : Int
  errno : Option Nat
  hasCalled : Bool
  deriving DecidableEq, Repr

namespace Disks

/-- No partition and no mount. -/
def init : Disks := ⟨.init, fun _ => none⟩

/-- `VfsMountPointInit` copies the source into the block of the new mount point. -/
def step (recursive : Bool) (d : Disks) : DiskCall → Option Disks
  | .mount source target remount rdonly fsType addr driver =>
    if addr ∈ d.mountPoints then none
    else
      let s := (d.mount recursive target remount rdonly fsType addr driver).1
      some ⟨s, if addr ∈ s.mountPoints then update d.mDev addr source else d.mDev⟩
  | .unmount op target driver => some ⟨(d.unmount recursive op target driver).1, d.mDev⟩

/-- `LOS_PartitionFormat`; `format` is what the `format` of the file system answers, `none` when
`VfsFsMapGet` does not find the file system or it has no such function. -/
def partitionFormat (d : Disks) (partName : Path) (format : Option Int) : Formatted :=
  if d.mountPoints.any fun m => (d.mp m).mPath = partName then ⟨-1, some ebusy, false⟩
  else
    match format with
    | none => ⟨-1, none, false⟩
    | some ret => ⟨ret, none, true⟩

/-- Each mount point in the list comes from one of the calls, with the source and the target of it. -/
def Sourced (calls : List DiskCall) (d : Disks) : Prop :=
  ∀ m ∈ d.mountPoints, ∃ rdonly fs,
    .mount (d.mDev m) (some (d.mp m).mPath) false rdonly (some fs) m 0 ∈ calls

theorem Sourced.step {calls : List DiskCall} {recursive : Bool} {d d' : Disks} {c : DiskCall}
    (h : d.Sourced calls) (hc : c ∈ calls) (hstep : d.step recursive c = some d') : d'.Sourced calls := by
  cases c with
  | mount source target remount rdonly fsType addr driver =>
    obtain ⟨haddr, hstep⟩ := ite_none_left_eq_some.mp hstep
    obtain rfl := some.inj hstep
    rcases d.mount_cases recursive target remount rdonly fsType addr driver with
      ⟨p, fs, rfl, rfl, rfl, -, rfl, hout⟩ | hout <;> rw [hout]
    · intro m hm
      rw [if_pos mem_cons_self]
      dsimp only
      by_cases hma : m = addr
      · rw [hma, update_self, update_self]
        exact ⟨rdonly, fs, hc⟩
      · rw [update_of_ne hma, update_of_ne hma]
        exact h m ((mem_cons.mp hm).resolve_left hma)
    · rw [if_neg haddr]
      exact h
  | unmount op target driver =>
    obtain rfl := some.inj hstep
    rcases d.unmount_cases recursive op target driver with ⟨p, m, -, -, -, -, -, hout⟩ | ⟨-, hout⟩ <;> rw [hout]
    · exact fun m' hm => h m' (mem_of_mem_erase hm)
    · exact h

theorem sourced {recursive : Bool} {run : List DiskCall} {d : Disks}
    (hrun : exec (step recursive) init run = some d) : d.Sourced run := by
  have hcalls : Guarded (Disks.step recursive) (fun _ c => c ∈ run) init run :=
    guarded_of_forall fun _ hc _ => hc
  exact exec_inv_guarded (fun _ _ _ h hc hstep => h.step hc hstep) (fun m hm => absurd hm not_mem_nil) hcalls hrun

end Disks

/-- **A mounted device is refused exactly when its name is the target of a mount point.** -/
theorem partitionFormat_busy_iff (recursive : Bool) (run : List DiskCall) (d : Disks)
    (hrun : exec (Disks.step recursive) .init run = some d) :
    d.Sourced run ∧ ∀ m ∈ d.mountPoints, ∀ partName ∈ d.mDev m, ∀ format,
      d.partitionFormat partName format = ⟨-1, some ebusy, false⟩ ↔
        ∃ m' ∈ d.mountPoints, (d.mp m').mPath = partName := by
  refine ⟨Disks.sourced hrun, fun m _ partName _ format => ?_⟩
  unfold Disks.partitionFormat
  simp only [List.any_eq_true, decide_eq_true_eq]
  split_ifs with hbusy
  · exact iff_of_true rfl hbusy
  · refine iff_of_false ?_ hbusy
    cases format <;> intro hc <;> cases hc

/-- A file system is mounted from `source` at `target`. -/
def mountFrom (source target : String) : List DiskCall :=
  [.mount (some source.toList) (some target.toList) false false (some ⟨some ⟨true, true, true⟩, none⟩) 1 0]

theorem partitionFormat_busy_iff_dev : ∃ d : Disks,
    d.partitionFormat ['/', 'd'] (some 0) = ⟨-1, some ebusy, false⟩ := by
  obtain ⟨d, hd, hmem, hdev, hpath⟩ : ∃ d, exec (Disks.step false) .init (mountFrom "/d" "/d") = some d ∧
      1 ∈ d.mountPoints ∧ d.mDev 1 = some ['/', 'd'] ∧ (d.mp 1).mPath = ['/', 'd'] := by
    decide +kernel
  exact ⟨d, ((partitionFormat_busy_iff false _ d hd).2 1 hmem _ hdev (some 0)).mpr ⟨1, hmem, hpath⟩⟩

/-- The device `/d` is mounted at `/m`, and is formatted. -/
theorem partitionFormat_mounted : (exec (Disks.step false) .init (mountFrom "/d" "/m")).any (fun d =>
    1 ∈ d.mountPoints ∧ d.mDev 1 = some ['/', 'd'] ∧
      d.partitionFormat ['/', 'd'] (some 0) = ⟨0, none, true⟩) = true := by
  decide +kernel

end LiteosM.Fs
