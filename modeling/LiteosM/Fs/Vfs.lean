import LiteosM.Lib.Run
import Mathlib.Algebra.Group.Nat.Defs

/-!
# The virtual file system

Model of the mount points, files and directories of `vfs_mount.c`, `vfs_files.c` and `vfs_fs.c`. A
`MountPoint` and a `Dir` are their addresses, 0 is `NULL`, and a path is the list of its characters. What
the driver of a file system answers is a parameter of the call, and so is what `malloc` gives. The calls
hold `g_fsMutex`, so each is one step.

Left out are the fields that none of these functions looks at (`fsRefs`, `mDev`, `mData`, `fOffset`,
`fullPath` and the like), and what `CloseFdsInMp` asks the driver: it changes nothing here.
-/

namespace LiteosM.Fs

open LiteosM.Lib

/-- A path, without the `NUL` at its end. -/
abbrev Path := List Char

/-- `CONFIG_NFILE_DESCRIPTORS`. -/
def configNfileDescriptors : Nat := 256

/-- `MIN_START_FD`. -/
def minStartFd : Nat := 3

/-- `NR_OPEN_DEFAULT`. -/
def nrOpenDefault : Nat := configNfileDescriptors - minStartFd

/-- `LOSCFG_MAX_OPEN_DIRS`. -/
def maxOpenDirs : Nat := 10

/-- `PATH_MAX`. -/
def pathMax : Nat := 256

/-- Which functions of `struct MountOps` there are. -/
structure MountOps where
  mount : Bool
  umount : Bool
  umount2 : Bool
  deriving DecidableEq, Repr

/-- Which functions of `struct FileOps` there are. -/
structure FileOps where
  hasOpen : Bool
  hasClose : Bool
  hasOpendir : Bool
  hasClosedir : Bool
  deriving DecidableEq, Repr

/-- `struct FsMap`. -/
structure FsMap where
  fsMops : Option MountOps
  fsFops : Option FileOps
  deriving DecidableEq, Repr

/-- A `struct MountPoint`. -/
structure MountPoint where
  mFs : FsMap
  mPath : Path
  mRefs : Nat
  mWriteEnable : Bool
  deriving DecidableEq, Repr

/-- The states of an entry of `g_files`. -/
inductive FileStatus where
  | notUsed
  | initing
  | ready
  | closing
  deriving DecidableEq, Repr

/-- A `struct File`; `fMp` is the address of its mount point. -/
structure File where
  fStatus : FileStatus
  fMp : Nat
  fFops : Option FileOps
  deriving DecidableEq, Repr

/-- The mount points by their addresses, the files and the directories. -/
structure Vfs where
  /-- The list `g_mountPoints`. -/
  mountPoints : List Nat
  mp : Nat → MountPoint
  /-- `g_files`. -/
  files : Nat → File
  /-- The open `Dir` objects, each with its `dMp`. -/
  dirs : List (Nat × Nat)
  /-- `g_dirNum`. -/
  dirNum : Nat

/-- What `VfsFilePut` leaves in a slot. -/
def File.free : File := ⟨.notUsed, 0, none⟩

/-- The driver has this mount operation. -/
def FsMap.hasMop (fs : FsMap) (op : MountOps → Bool) : Bool := fs.fsMops.any op

/-- The driver has this file operation. -/
def FsMap.hasFop (fs : FsMap) (op : FileOps → Bool) : Bool := fs.fsFops.any op

/-! ## `VfsMpFind` -/

/-- `while (*p == '/') ++p`. -/
def dropSlashes : Path → Path
  | [] => []
  | c :: p => if c = '/' then dropSlashes p else c :: p

/-- At the end of the string or at a slash. -/
def atEnd : Path → Bool
  | [] => true
  | c :: _ => c = '/'

/-- The comparison without `LOSCFG_FS_SUPPORT_MOUNT_TARGET_RECURSIVE`. -/
def sameFirst : Path → Path → Bool
  | m :: mPath, t :: target =>
    if m ≠ '/' ∧ t ≠ '/' ∧ m = t then sameFirst mPath target
    else atEnd (m :: mPath) && atEnd (t :: target)
  | mPath, target => atEnd mPath && atEnd target

/-- `while ((*p == '/') && (*(p + 1) != '/')) p++`. -/
def skipSlash : Path → Path
  | [] => []
  | c :: p => if c = '/' ∧ p.head? ≠ some '/' then skipSlash p else c :: p

/-- The loop over the path of one mount point with `LOSCFG_FS_SUPPORT_MOUNT_TARGET_RECURSIVE`: how many
characters match, or `none` for `goto next`. It ends within `mPath.length + 1` rounds (`matchLoop_eq`). -/
def matchLoop : Nat → Path → Path → Nat → Option Nat
  | 0, _, _, _ => none
  | fuel + 1, mPath, iPath, matched =>
    let mPath := skipSlash mPath
    let iPath := skipSlash iPath
    let t := mPath.takeWhile (· ≠ '/')
    if t = [] then some matched
    else if iPath.take t.length ≠ t then none
    else if atEnd (iPath.drop t.length) = false then none
    else if mPath.drop t.length = [] then some (matched + t.length)
    else matchLoop fuel (mPath.drop t.length) (iPath.drop t.length) (matched + t.length)

namespace Vfs

variable (recursive : Bool) (s : Vfs)

/-- One round of `VfsMpFind` with `LOSCFG_FS_SUPPORT_MOUNT_TARGET_RECURSIVE`. -/
def bestMp (path : Path) (best : Nat × Option Nat) (m : Nat) : Nat × Option Nat :=
  match matchLoop ((s.mp m).mPath.length + 1) (s.mp m).mPath path 0 with
  | none => best
  | some matched => if matched > best.1 then (matched, some m) else best

/-- `VfsMpFind`; `pathInMp` is the path itself whenever a mount point is found. -/
def vfsMpFind (path : Path) : Option Nat :=
  if recursive then (s.mountPoints.foldl (s.bestMp path) (0, none)).2
  else s.mountPoints.find? fun m => sameFirst (dropSlashes (s.mp m).mPath) (dropSlashes path)

/-! ## Mount points -/

/-- `VfsMountPathCheck`. -/
def mountPathCheck : Option Path → Option Path
  | none => none
  | some target =>
    if target.head? ≠ some '/' then none
    else if target.length ≥ pathMax then none
    else some target

/-- `mount`. The driver is asked once everything else is there; `addr` is what `malloc` gives. -/
def mount (target : Option Path) (remount rdonly : Bool) (fsType : Option FsMap) (addr : Nat)
    (driver : Int) : Vfs × Int :=
  match mountPathCheck target with
  | none => (s, -1)
  | some target =>
    if remount then
      match s.vfsMpFind recursive target with
      | none => (s, -1)
      | some _ => (s, driver)
    else if (s.vfsMpFind recursive target).isSome then (s, -1)
    else
      match fsType with
      | none => (s, -1)
      | some fs =>
        if fs.hasMop MountOps.mount = false ∨ addr = 0 ∨ driver ≠ 0 then (s, -1)
        else
          ({ s with
              mp := Function.update s.mp addr ⟨fs, target, 0, !rdonly⟩
              mountPoints := addr :: s.mountPoints }, 0)

/-- `umount` and `umount2`, by the function of the driver that they call. -/
def unmount (op : MountOps → Bool) (target : Option Path) (driver : Int) : Vfs × Int :=
  match mountPathCheck target with
  | none => (s, -1)
  | some target =>
    match s.vfsMpFind recursive target with
    | none => (s, -1)
    | some m =>
      if (s.mp m).mRefs ≠ 0 ∨ (s.mp m).mFs.hasMop op = false ∨ driver ≠ 0 then (s, -1)
      else ({ s with mountPoints := s.mountPoints.erase m }, 0)

/-- `umount`. -/
def umount (target : Option Path) (driver : Int) : Vfs × Int :=
  s.unmount recursive MountOps.umount target driver

/-- With `MNT_FORCE` the driver is told to close the files of the mount point first. -/
def umount2 (target : Option Path) (driver : Int) : Vfs × Int :=
  s.unmount recursive MountOps.umount2 target driver

/-! ## Files and directories -/

/-- Writes an entry of `g_files`. -/
def setFile (i : Nat) (f : File) : Vfs := { s with files := Function.update s.files i f }

/-- Changes the `mRefs` of a mount point. -/
def setRefs (m : Nat) (f : Nat → Nat) : Vfs :=
  { s with mp := Function.update s.mp m { s.mp m with mRefs := f (s.mp m).mRefs } }

/-- `mp->mRefs++`. -/
def addRef (m : Nat) : Vfs := s.setRefs m fun n => (n + 1) % 2 ^ 32

/-- `mp->mRefs--`. -/
def dropRef (m : Nat) : Vfs := s.setRefs m fun n => (n + (2 ^ 32 - 1)) % 2 ^ 32

/-- `VfsFileGet`: the first slot that is not in use. -/
def vfsFileGet : Option Nat :=
  (List.range nrOpenDefault).find? fun i => (s.files i).fStatus = .notUsed

/-- `VfsPathCheck`. -/
def pathCheck (isFile : Bool) : Option Path → Option Path
  | none => none
  | some path =>
    if path = [] then none
    else if path.length ≥ pathMax then none
    else if isFile ∧ path.getLast? = some '/' then none
    else some path

/-- `VfsOpen`; `writes` says that `flags` has `O_CREAT`, `O_WRONLY` or `O_RDWR`. -/
def vfsOpen (path : Option Path) (writes malloc : Bool) (driver : Int) : Vfs × Int :=
  match pathCheck true path with
  | none => (s, -1)
  | some path =>
    match s.vfsMpFind recursive path with
    | none => (s, -1)
    | some m =>
      if (s.mp m).mFs.hasFop FileOps.hasOpen = false then (s, -1)
      else if (s.mp m).mWriteEnable = false ∧ writes then (s, -1)
      else
        match s.vfsFileGet with
        | none => (s, -1)
        | some i =>
          if malloc = false ∨ driver ≠ 0 then (s.setFile i .free, -1)
          else ((s.setFile i ⟨.ready, m, (s.mp m).mFs.fsFops⟩).addRef m, i + minStartFd)

/-- `VfsClose`. -/
def vfsClose (fd : Int) (driver : Int) : Vfs × Int :=
  if fd < minStartFd ∨ fd ≥ configNfileDescriptors then (s, -1)
  else
    let i := (fd - minStartFd).toNat
    let f := s.files i
    if f.fMp = 0 ∨ f.fStatus ≠ .ready then (s, -1)
    else
      let ret := if f.fFops.any FileOps.hasClose then driver else -1
      let s := if ret = 0 then s.dropRef f.fMp else s
      (s.setFile i .free, ret)

/-- `opendir`; `none` when the file system has no `fsFops`, which are looked at all the same. Returns the
address of the `Dir`. -/
def opendir (path : Option Path) (addr : Nat) (driver : Int) : Option (Vfs × Nat) :=
  match pathCheck false path with
  | none => some (s, 0)
  | some path =>
    if addr = 0 ∨ s.dirNum ≥ maxOpenDirs then some (s, 0)
    else
      match s.vfsMpFind recursive path with
      | none => some (s, 0)
      | some m =>
        match (s.mp m).mFs.fsFops with
        | none => none
        | some fops =>
          if fops.hasOpendir = false ∨ driver ≠ 0 then some (s, 0)
          else some ({ s.addRef m with
            dirs := (addr, m) :: s.dirs, dirNum := (s.dirNum + 1) % 2 ^ 32 }, addr)

/-- `closedir` of an open `Dir` with its mount point. -/
def closedir (d : Nat × Nat) (driver : Int) : Vfs × Int :=
  let ret := if (s.mp d.2).mFs.hasFop FileOps.hasClosedir then driver else -1
  let s := if ret = 0 then { s.dropRef d.2 with dirNum := (s.dirNum + (2 ^ 32 - 1)) % 2 ^ 32 } else s
  ({ s with dirs := s.dirs.erase d }, ret)

end Vfs

/-! ## Runs -/

/-- The calls; `driver` is what the operation of the driver answers. -/
inductive VfsCall where
  | mount (target : Option Path) (remount rdonly : Bool) (fsType : Option FsMap) (addr : Nat) (driver : Int)
  | umount (target : Option Path) (driver : Int)
  | umount2 (target : Option Path) (driver : Int)
  | openFile (path : Option Path) (writes malloc : Bool) (driver : Int)
  | closeFile (fd : Int) (driver : Int)
  | opendir (path : Option Path) (addr : Nat) (driver : Int)
  | closedir (d : Nat × Nat) (driver : Int)

/-- A call; `none` when it cannot be made: `malloc` gives no block that is in use, and a `Dir` that is
closed is open. -/
def Vfs.step (recursive : Bool) (s : Vfs) : VfsCall → Option Vfs
  | .mount target remount rdonly fsType addr driver =>
    if addr ∈ s.mountPoints then none
    else some (s.mount recursive target remount rdonly fsType addr driver).1
  | .umount target driver => some (s.umount recursive target driver).1
  | .umount2 target driver => some (s.umount2 recursive target driver).1
  | .openFile path writes malloc driver => some (s.vfsOpen recursive path writes malloc driver).1
  | .closeFile fd driver => some (s.vfsClose fd driver).1
  | .opendir path addr driver =>
    if addr ∈ s.dirs.map Prod.fst then none
    else (s.opendir recursive path addr driver).map Prod.fst
  | .closedir d driver => if d ∈ s.dirs then some (s.closedir d driver).1 else none

/-- The variables at start. -/
def Vfs.init : Vfs := ⟨[], fun _ => ⟨⟨none, none⟩, [], 0, false⟩, fun _ => .free, [], 0⟩

end LiteosM.Fs
