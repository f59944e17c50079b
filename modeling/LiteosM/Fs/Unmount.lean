import LiteosM.Fs.Vfs
import Mathlib.Data.List.MinMax
import Mathlib.Data.List.Infix

/-!
# What `umount` removes

`umount` and `umount2` look their target up with `VfsMpFind`, the function that finds the file system of a
file. What a path names is the sequence of its components, and `VfsMpFind` in terms of these is:

* without `LOSCFG_FS_SUPPORT_MOUNT_TARGET_RECURSIVE`, the first mount point whose first component is that
  of the path (`sameFirst_iff`);
* with it, the mount point whose components are the longest beginning of those of the path, where a path
  counts up to its first double slash (`matchLoop_eq`, `vfsMpFind_recursive`).

**`umount_removes_named`**: a call of `umount` or `umount2` removes the mount point that the target names
and no other, exactly when the mount point that `VfsMpFind` finds has the components of the target or
cannot be removed.

Out of scope: what the driver does in its `umount`, of which only the answer is used.
-/

namespace LiteosM.Fs

open List Option Vfs

/-! ## Components -/

/-- The components of a path. -/
def components : Path → List Path
  | [] => []
  | c :: p =>
    if c = '/' then components p
    else if atEnd p then [c] :: components p
    else
      match components p with
      | [] => [[c]]
      | q :: qs => (c :: q) :: qs

/-- The first component, from where a path stands. -/
def word (p : Path) : Path := p.takeWhile (· ≠ '/')

/-- What follows it. -/
def afterWord (p : Path) : Path := p.dropWhile (· ≠ '/')

theorem word_append (p : Path) : word p ++ afterWord p = p := takeWhile_append_dropWhile

theorem atEnd_afterWord (p : Path) : atEnd (afterWord p) = true := by
  induction p with
  | nil => rfl
  | cons c p ih =>
    unfold afterWord
    rw [dropWhile_cons]
    split_ifs with hc
    · exact ih
    · simpa [atEnd] using hc

variable {p : Path}

theorem word_eq_nil : word p = [] ↔ atEnd p = true := by
  cases p with
  | nil => simp [word, atEnd]
  | cons c p => simp [word, atEnd, takeWhile_cons]

theorem ne_of_mem_word {c : Char} (h : c ∈ word p) : c ≠ '/' := by
  simpa using all_eq_true.mp all_takeWhile c h

theorem word_of_append {w q : Path} (hw : ∀ c ∈ w, c ≠ '/') (hq : atEnd q = true) :
    word (w ++ q) = w ∧ afterWord (w ++ q) = q := by
  induction w with
  | nil =>
    cases q with
    | nil => exact ⟨rfl, rfl⟩
    | cons c q =>
      have hc : c = '/' := by simpa [atEnd] using hq
      simp [word, afterWord, hc]
  | cons c w ih =>
    have hc := hw c mem_cons_self
    obtain ⟨hword, hafter⟩ := ih fun d hd => hw d (mem_cons_of_mem _ hd)
    unfold word afterWord at *
    simp only [cons_append, takeWhile_cons, dropWhile_cons, hc, ne_eq, not_false_eq_true,
      decide_true, if_true, hword, hafter, and_self]

theorem components_slash (p : Path) : components ('/' :: p) = components p := if_pos rfl

theorem components_word {w q : Path} (hne : w ≠ []) (hw : ∀ c ∈ w, c ≠ '/') (hq : atEnd q = true) :
    components (w ++ q) = w :: components q := by
  induction w with
  | nil => exact absurd rfl hne
  | cons c w ih =>
    have hc := hw c mem_cons_self
    rw [cons_append, components, if_neg hc]
    by_cases hnil : w = []
    · subst hnil
      rw [nil_append, if_pos hq]
    have hw' : ∀ d ∈ w, d ≠ '/' := fun d hd => hw d (mem_cons_of_mem _ hd)
    have hend : ¬ atEnd (w ++ q) = true := by
      rwa [← word_eq_nil, (word_of_append hw' hq).1]
    rw [if_neg hend, ih hnil hw']

theorem components_eq (h : atEnd p = false) : components p = word p :: components (afterWord p) := by
  have hne : word p ≠ [] := fun hnil => by simp [word_eq_nil.mp hnil] at h
  conv_lhs => rw [← word_append p]
  exact components_word hne (fun c hc => ne_of_mem_word hc) (atEnd_afterWord p)

/-! ## The first component -/

theorem sameFirst_eq_word (m t : Path) : sameFirst m t = true ↔ word m = word t := by
  induction m generalizing t with
  | nil =>
    have : sameFirst [] t = (atEnd [] && atEnd t) := by cases t <;> rfl
    rw [this, show word [] = [] from rfl, eq_comm (a := ([] : Path)), word_eq_nil]
    simp [atEnd]
  | cons c m ih =>
    cases t with
    | nil =>
      rw [show sameFirst (c :: m) [] = (atEnd (c :: m) && atEnd []) from rfl, show word [] = [] from rfl,
        word_eq_nil]
      simp [atEnd]
    | cons d t =>
      unfold sameFirst
      by_cases hc : c = '/'
      · rw [if_neg (by simp [hc]), word_eq_nil.mpr (by simp [atEnd, hc]),
          eq_comm (a := ([] : Path)), word_eq_nil]
        simp [atEnd, hc]
      have hword : ∀ p : Path, word (c :: p) = c :: word p := fun p => by simp [word, hc]
      by_cases hd : d = '/'
      · rw [if_neg (by simp [hd]), word_eq_nil.mpr (by simp [atEnd, hd] : atEnd (d :: t) = true), hword]
        simp [atEnd, hc]
      have hword' : word (d :: t) = d :: word t := by simp [word, hd]
      rw [hword, hword', cons.injEq, ← ih]
      by_cases hcd : c = d
      · rw [if_pos ⟨hc, hd, hcd⟩]
        simp [hcd]
      · simp [atEnd, hc, hcd]

theorem components_dropSlashes (p : Path) : components (dropSlashes p) = components p := by
  induction p with
  | nil => rfl
  | cons c p ih =>
    unfold dropSlashes
    split_ifs with hc
    · rw [hc, components_slash, ih]
    · rfl

theorem dropSlashes_cases (p : Path) : dropSlashes p = [] ∨ atEnd (dropSlashes p) = false := by
  induction p with
  | nil => exact .inl rfl
  | cons c p ih =>
    unfold dropSlashes
    split_ifs with hc
    · exact ih
    · exact .inr (by simp [atEnd, hc])

theorem head_components (p : Path) :
    (components p).head? = if word (dropSlashes p) = [] then none else some (word (dropSlashes p)) := by
  rw [← components_dropSlashes]
  rcases dropSlashes_cases p with h | h
  · rw [h]
    rfl
  · rw [components_eq h, if_neg (by rw [word_eq_nil, h]; exact Bool.false_ne_true)]
    rfl

/-- The comparison of the lookup without `LOSCFG_FS_SUPPORT_MOUNT_TARGET_RECURSIVE`. -/
theorem sameFirst_iff (m t : Path) :
    sameFirst (dropSlashes m) (dropSlashes t) = true ↔ (components m).head? = (components t).head? := by
  rw [sameFirst_eq_word, head_components, head_components]
  constructor <;> intro h
  · rw [h]
  · split_ifs at h with hm ht ht
    · rw [hm, ht]
    · exact some.inj h

/-! ## The longest beginning -/

/-- A path up to its first double slash. -/
def upToDouble : Path → Path
  | [] => []
  | c :: p => if c = '/' ∧ p.head? = some '/' then [] else c :: upToDouble p

/-- The components of it, in which `VfsMpFind` compares paths with
`LOSCFG_FS_SUPPORT_MOUNT_TARGET_RECURSIVE`. -/
def segments (p : Path) : List Path := components (upToDouble p)

theorem segments_skipSlash (p : Path) : segments (skipSlash p) = segments p := by
  induction p with
  | nil => rfl
  | cons c p ih =>
    unfold skipSlash
    split_ifs with hc
    · rw [ih]
      unfold segments
      rw [upToDouble, if_neg (fun h => hc.2 h.2), hc.1, components_slash]
    · rfl

theorem upToDouble_append {w : Path} (q : Path) (hw : ∀ c ∈ w, c ≠ '/') :
    upToDouble (w ++ q) = w ++ upToDouble q := by
  induction w with
  | nil => rfl
  | cons c w ih =>
    rw [cons_append, upToDouble, if_neg (fun h => hw c mem_cons_self h.1),
      ih fun d hd => hw d (mem_cons_of_mem _ hd)]
    rfl

theorem atEnd_upToDouble {q : Path} (hq : atEnd q = true) : atEnd (upToDouble q) = true := by
  cases q with
  | nil => rfl
  | cons c q =>
    unfold upToDouble
    split_ifs
    · rfl
    · exact hq

theorem segments_eq (h : word p ≠ []) : segments p = word p :: segments (afterWord p) := by
  have hw : ∀ c ∈ word p, c ≠ '/' := fun c hc => ne_of_mem_word hc
  unfold segments
  conv_lhs => rw [← word_append p, upToDouble_append _ hw]
  exact components_word h hw (atEnd_upToDouble (atEnd_afterWord p))

/-- Behind `skipSlash` there is a component, or none is left before a double slash. -/
theorem segments_of_word_nil (h : word (skipSlash p) = []) : segments p = [] := by
  induction p with
  | nil => rfl
  | cons c p ih =>
    rw [← segments_skipSlash]
    unfold skipSlash at h ⊢
    split_ifs at h ⊢ with hc
    · rw [segments_skipSlash]
      exact ih h
    have hslash : c = '/' := by
      by_contra hne
      simp [word, hne] at h
    have hdouble : p.head? = some '/' := by
      by_contra hne
      exact hc ⟨hslash, hne⟩
    unfold segments
    rw [upToDouble, if_pos ⟨hslash, hdouble⟩]
    rfl

theorem length_afterWord (p : Path) : (afterWord p).length + (word p).length = p.length := by
  conv_rhs => rw [← word_append p, length_append]
  omega

theorem length_skipSlash (p : Path) : (skipSlash p).length ≤ p.length := by
  induction p with
  | nil => exact Nat.le_refl _
  | cons c p ih =>
    unfold skipSlash
    split_ifs
    · exact Nat.le_succ_of_le ih
    · exact Nat.le_refl _

/-- What `strncmp` and the look at the next character decide. -/
theorem take_eq_word_iff {p w : Path} (hw : ∀ c ∈ w, c ≠ '/') :
    p.take w.length = w ∧ atEnd (p.drop w.length) = true ↔ word p = w := by
  constructor
  · rintro ⟨htake, hend⟩
    have hp : p = w ++ p.drop w.length := by
      conv_lhs => rw [← take_append_drop w.length p, htake]
    rw [hp]
    exact (word_of_append hw hend).1
  intro h
  have hp : p = w ++ afterWord p := by
    conv_lhs => rw [← word_append p, h]
  rw [hp, take_left, drop_left]
  exact ⟨rfl, atEnd_afterWord p⟩

theorem matchLoop_succ (fuel : Nat) (m i : Path) (k : Nat) : matchLoop (fuel + 1) m i k =
      if word (skipSlash m) = [] then some k
      else if (skipSlash i).take (word (skipSlash m)).length ≠ word (skipSlash m) then none
      else if atEnd ((skipSlash i).drop (word (skipSlash m)).length) = false then none
      else if (skipSlash m).drop (word (skipSlash m)).length = [] then
        some (k + (word (skipSlash m)).length)
      else matchLoop fuel ((skipSlash m).drop (word (skipSlash m)).length)
        ((skipSlash i).drop (word (skipSlash m)).length) (k + (word (skipSlash m)).length) := rfl

/-- The loop compares the segments, and counts their characters. -/
theorem matchLoop_eq (fuel : Nat) (m i : Path) (k : Nat) (hfuel : m.length < fuel) :
    matchLoop fuel m i k =
      if segments m <+: segments i then some (k + (segments m).flatten.length) else none := by
  induction fuel generalizing m i k with
  | zero => exact absurd hfuel (Nat.not_lt_zero _)
  | succ fuel ih =>
    rw [matchLoop_succ]
    by_cases hnil : word (skipSlash m) = []
    · rw [if_pos hnil, segments_of_word_nil hnil]
      rfl
    have hw : ∀ c ∈ word (skipSlash m), c ≠ '/' := fun c hc => ne_of_mem_word hc
    have hafter : ∀ p : Path, word p = word (skipSlash m) →
        p.drop (word (skipSlash m)).length = afterWord p := fun p hp => by
      conv_lhs => rw [← word_append p, hp]
      exact drop_left
    rw [if_neg hnil, ← segments_skipSlash m, segments_eq hnil]
    by_cases hi : word (skipSlash i) = word (skipSlash m)
    · obtain ⟨htake, hend⟩ := (take_eq_word_iff hw).mpr hi
      have hlen : (afterWord (skipSlash m)).length < fuel := by
        have := length_afterWord (skipSlash m)
        have := length_skipSlash m
        have := length_pos_iff.mpr hnil
        omega
      have hsegs : segments i = word (skipSlash m) :: segments (afterWord (skipSlash i)) := by
        rw [← segments_skipSlash i, segments_eq (by rwa [hi]), hi]
      rw [if_neg (fun h => h htake), if_neg (hend ▸ Bool.noConfusion), hafter _ rfl,
        hafter _ hi, ih _ _ _ hlen, hsegs, flatten_cons, length_append, ← Nat.add_assoc]
      simp only [cons_prefix_cons, true_and]
      split_ifs with hdone hpre hpre
      · rw [hdone]
        rfl
      · rw [hdone] at hpre
        exact absurd nil_prefix hpre
      · rfl
      · rfl
    have hpre : ¬ word (skipSlash m) :: segments (afterWord (skipSlash m)) <+: segments i := by
      rw [← segments_skipSlash i]
      by_cases hinil : word (skipSlash i) = []
      · rw [segments_skipSlash, segments_of_word_nil hinil]
        simp
      · rw [segments_eq hinil, cons_prefix_cons]
        exact fun h => hi h.1.symm
    rw [if_neg hpre]
    by_cases htake : (skipSlash i).take (word (skipSlash m)).length = word (skipSlash m)
    · have hend : atEnd ((skipSlash i).drop (word (skipSlash m)).length) = false := by
        rw [← Bool.not_eq_true]
        exact fun hend => hi ((take_eq_word_iff hw).mp ⟨htake, hend⟩)
      rw [if_neg (fun h => h htake), if_pos hend]
    · rw [if_pos htake]

/-- How many characters of the path the mount point accounts for. -/
def Vfs.matched (s : Vfs) (path : Path) (m : Nat) : Nat :=
  if segments (s.mp m).mPath <+: segments path then (segments (s.mp m).mPath).flatten.length else 0

theorem Vfs.bestMp_eq (s : Vfs) (path : Path) (best : Nat × Option Nat) (m : Nat) :
    s.bestMp path best m = if s.matched path m > best.1 then (s.matched path m, some m) else best := by
  unfold bestMp matched
  rw [matchLoop_eq _ _ _ _ (Nat.lt_succ_self _), Nat.zero_add]
  by_cases hpre : segments (s.mp m).mPath <+: segments path
  · rw [if_pos hpre, if_pos hpre]
  · rw [if_neg hpre, if_neg hpre, if_neg (Nat.not_lt_zero _)]

/-- A loop that keeps the first of the best. -/
theorem foldl_best {α : Type*} (w : α → Nat) (l : List α) :
    l.foldl (fun best a => if w a > best.1 then (w a, some a) else best) (0, none) =
      match argmax w (l.filter fun a => 0 < w a) with
      | none => (0, none)
      | some a => (w a, some a) := by
  induction l using reverseRecOn with
  | nil => rfl
  | append_singleton l a ih =>
    rw [foldl_append, ih, filter_append]
    by_cases ha : 0 < w a
    · rw [filter_cons_of_pos (by simpa using ha), filter_nil, argmax_concat]
      cases argmax w (l.filter fun a => 0 < w a) with
      | none => simp [ha]
      | some b => by_cases hb : w b < w a <;> simp [hb]
    rw [filter_cons_of_neg (by simpa using ha), filter_nil, append_nil]
    cases argmax w (l.filter fun a => 0 < w a) with
    | none => simp [ha]
    | some b => simp [Nat.eq_zero_of_not_pos ha]

/-- The mount point that a path is looked up in. -/
def Vfs.Routes (recursive : Bool) (s : Vfs) (path : Path) (m : Nat) : Prop :=
  if recursive then m ∈ argmax (s.matched path) (s.mountPoints.filter fun m => 0 < s.matched path m)
  else m ∈ s.mountPoints.find? fun m => (components (s.mp m).mPath).head? = (components path).head?

section
variable {recursive : Bool} {s : Vfs} {path : Path} {m : Nat}

theorem Vfs.vfsMpFind_recursive : s.vfsMpFind true path =
    argmax (s.matched path) (s.mountPoints.filter fun m => 0 < s.matched path m) := by
  unfold vfsMpFind
  rw [funext fun best => funext fun m => s.bestMp_eq path best m, foldl_best]
  cases argmax (s.matched path) (s.mountPoints.filter fun m => 0 < s.matched path m) <;> rfl

/-- **`VfsMpFind` in terms of components.** -/
theorem Vfs.vfsMpFind_iff : s.vfsMpFind recursive path = some m ↔ s.Routes recursive path m := by
  cases recursive with
  | true =>
    rw [vfsMpFind_recursive]
    rfl
  | false =>
    unfold vfsMpFind Routes
    simp only [Bool.false_eq_true, if_false, mem_def]
    rw [show (fun m => sameFirst (dropSlashes (s.mp m).mPath) (dropSlashes path)) =
        fun m => decide ((components (s.mp m).mPath).head? = (components path).head?) from funext fun m => by
      rw [Bool.eq_iff_iff, sameFirst_iff, decide_eq_true_iff]]

theorem Vfs.Routes.mem (h : s.Routes recursive path m) : m ∈ s.mountPoints := by
  unfold Routes at h
  split_ifs at h
  · exact (mem_filter.mp (argmax_mem h)).1
  · exact mem_of_find?_eq_some h

end

/-! ## The calls -/

/-- A call that succeeds removes one mount point, which the target names; nothing happens for a target
that is not mounted. -/
def RemovesNamed (s : Vfs) (target : Option Path) (out : Vfs × Int) : Prop :=
  (out.2 = 0 → ∃ p m, target = some p ∧ m ∈ s.mountPoints ∧ out.1.mountPoints = s.mountPoints.erase m ∧
    components (s.mp m).mPath = components p) ∧
  ((∀ p, target = some p → ∀ m ∈ s.mountPoints, components (s.mp m).mPath ≠ components p) →
    out.2 ≠ 0 ∧ out.1.mountPoints = s.mountPoints)

/-- The mount point that the target is looked up in has its components, unless it is in use, cannot be
unmounted or its driver refuses. -/
def FindsNamed (recursive : Bool) (s : Vfs) (op : MountOps → Bool) (target : Option Path) (driver : Int) :
    Prop :=
  ∀ p m, mountPathCheck target = some p → s.Routes recursive p m → (s.mp m).mRefs = 0 →
    (s.mp m).mFs.hasMop op = true → driver = 0 → components (s.mp m).mPath = components p

section
variable {recursive : Bool} {s : Vfs} {op : MountOps → Bool} {target : Option Path} {driver : Int}

theorem mountPathCheck_eq {p : Path} (h : mountPathCheck target = some p) : target = some p := by
  cases target with
  | none => cases h
  | some t =>
    simp only [mountPathCheck] at h
    split_ifs at h
    exact h

/-- A mount point is removed, or nothing happens. -/
theorem Vfs.unmount_cases (recursive : Bool) (s : Vfs) (op : MountOps → Bool) (target : Option Path)
    (driver : Int) :
    (∃ p m, mountPathCheck target = some p ∧ s.Routes recursive p m ∧ (s.mp m).mRefs = 0 ∧
      (s.mp m).mFs.hasMop op = true ∧ driver = 0 ∧
      s.unmount recursive op target driver = ({ s with mountPoints := s.mountPoints.erase m }, 0)) ∨
    (¬ ∃ p m, mountPathCheck target = some p ∧ s.Routes recursive p m ∧ (s.mp m).mRefs = 0 ∧
      (s.mp m).mFs.hasMop op = true ∧ driver = 0) ∧ s.unmount recursive op target driver = (s, -1) := by
  unfold unmount
  cases hcheck : mountPathCheck target with
  | none =>
    refine .inr ⟨?_, rfl⟩
    rintro ⟨p, m, h, -⟩
    cases h
  | some p =>
    dsimp only
    cases hfind : s.vfsMpFind recursive p with
    | none =>
      refine .inr ⟨?_, rfl⟩
      rintro ⟨p', m, h, hroutes, -⟩
      simp [← some.inj h, ← vfsMpFind_iff, hfind] at hroutes
    | some m =>
      have hroutes := vfsMpFind_iff.mp hfind
      dsimp only
      split_ifs with hno
      · refine .inr ⟨?_, rfl⟩
        rintro ⟨p', m', h, hroutes', hrefs, hop, hdriver⟩
        rw [← some.inj h, ← vfsMpFind_iff, hfind, some.injEq] at hroutes'
        rw [← hroutes'] at hrefs hop
        rcases hno with hno | hno | hno
        · exact hno hrefs
        · simp [hop] at hno
        · exact hno hdriver
      · rw [not_or, not_or, not_not, not_not, Bool.not_eq_false] at hno
        exact .inl ⟨p, m, rfl, hroutes, hno.1, hno.2.1, hno.2.2, rfl⟩

/-- A mount point is added, or none. -/
theorem Vfs.mount_cases (recursive : Bool) (s : Vfs) (target : Option Path) (remount rdonly : Bool)
    (fsType : Option FsMap) (addr : Nat) (driver : Int) :
    (∃ p fs, target = some p ∧ remount = false ∧ fsType = some fs ∧ addr ≠ 0 ∧ driver = 0 ∧
      (s.mount recursive target remount rdonly fsType addr driver).1 =
        { s with mp := Function.update s.mp addr ⟨fs, p, 0, !rdonly⟩, mountPoints := addr :: s.mountPoints }) ∨
    (s.mount recursive target remount rdonly fsType addr driver).1 = s := by
  unfold mount
  split
  · exact .inr rfl
  rename_i p hcheck
  split_ifs with hremount
  · split <;> exact .inr rfl
  · exact .inr rfl
  split
  · exact .inr rfl
  split_ifs with hno
  · exact .inr rfl
  · rw [not_or, not_or, not_not] at hno
    exact .inl ⟨p, _, mountPathCheck_eq hcheck, eq_false_of_ne_true hremount, rfl, hno.2.1, hno.2.2, rfl⟩

theorem eq_of_erase_eq {l : List Nat} {m m' : Nat} (hm : m ∈ l) (h : l.erase m = l.erase m') : m = m' := by
  by_contra hne
  have hcount := congrArg (count m) h
  rw [count_erase_self, count_erase_of_ne hne] at hcount
  have := count_pos_iff.mpr hm
  omega

theorem unmount_removes_iff : RemovesNamed s target (s.unmount recursive op target driver) ↔
      FindsNamed recursive s op target driver := by
  rcases s.unmount_cases recursive op target driver with
    ⟨p, m, hcheck, hroutes, hrefs, hop, hdriver, hout⟩ | ⟨hno, hout⟩ <;> rw [hout]
  · constructor
    · rintro ⟨hremoves, -⟩ p' m' hcheck' hroutes' - - -
      obtain ⟨q, n, htarget, -, herase, hnames⟩ := hremoves rfl
      have hp : p' = p := some.inj (hcheck'.symm.trans hcheck)
      have hm : m' = m := by
        rw [hp, ← vfsMpFind_iff] at hroutes'
        exact some.inj (hroutes'.symm.trans (vfsMpFind_iff.mpr hroutes))
      have hq : q = p := some.inj (htarget.symm.trans (mountPathCheck_eq hcheck))
      rw [hm, hp, eq_of_erase_eq hroutes.mem herase, hnames, hq]
    intro hfinds
    have hnames := hfinds p m hcheck hroutes hrefs hop hdriver
    have htarget := mountPathCheck_eq hcheck
    exact ⟨fun _ => ⟨p, m, htarget, hroutes.mem, rfl, hnames⟩,
      fun hnot => absurd hnames (hnot p htarget m hroutes.mem)⟩
  constructor
  · intro _ p m hcheck hroutes hrefs hop hdriver
    exact absurd ⟨p, m, hcheck, hroutes, hrefs, hop, hdriver⟩ hno
  · intro _
    exact ⟨fun h => absurd h (show (-1 : Int) ≠ 0 by decide), fun _ => ⟨show (-1 : Int) ≠ 0 by decide, rfl⟩⟩

end

/-- For every list of mount points, every target and every answer of the driver: `umount` and `umount2`
remove the mount point that the target names, and no other, exactly when `FindsNamed`. -/
theorem umount_removes_named (recursive : Bool) (s : Vfs) (target : Option Path) (driver : Int) :
    (RemovesNamed s target (s.umount recursive target driver) ↔
      FindsNamed recursive s MountOps.umount target driver) ∧
    (RemovesNamed s target (s.umount2 recursive target driver) ↔
      FindsNamed recursive s MountOps.umount2 target driver) :=
  ⟨unmount_removes_iff, unmount_removes_iff⟩

/-- One mount point at `/a`. -/
def mountedAtA : Vfs :=
  { init with
    mountPoints := [1]
    mp := fun _ => ⟨⟨some ⟨true, true, true⟩, none⟩, ['/', 'a'], 0, true⟩ }

theorem mountedAtA_umount (recursive : Bool) :
    (mountedAtA.umount recursive (some ['/', 'a', '/', 'b']) 0).1.mountPoints = [] ∧
    ¬ RemovesNamed mountedAtA (some ['/', 'a', '/', 'b'])
      (mountedAtA.umount recursive (some ['/', 'a', '/', 'b']) 0) := by
  have hout : (mountedAtA.umount recursive (some ['/', 'a', '/', 'b']) 0).2 = 0 ∧
      (mountedAtA.umount recursive (some ['/', 'a', '/', 'b']) 0).1.mountPoints = [] := by
    cases recursive <;> decide
  refine ⟨hout.2, fun h => ?_⟩
  obtain ⟨p, m, htarget, -, -, hnames⟩ := h.1 hout.1
  cases htarget
  exact absurd hnames (show components ['/', 'a'] ≠ components ['/', 'a', '/', 'b'] by decide)

/-- `umount("/a/b")` removes what is mounted at `/a`, in both configurations. -/
theorem umount_removes_parent :
    ((mountedAtA.umount true (some ['/', 'a', '/', 'b']) 0).1.mountPoints = [] ∧
      ¬ RemovesNamed mountedAtA (some ['/', 'a', '/', 'b'])
        (mountedAtA.umount true (some ['/', 'a', '/', 'b']) 0)) ∧
    ((mountedAtA.umount false (some ['/', 'a', '/', 'b']) 0).1.mountPoints = [] ∧
      ¬ RemovesNamed mountedAtA (some ['/', 'a', '/', 'b'])
        (mountedAtA.umount false (some ['/', 'a', '/', 'b']) 0)) :=
  ⟨mountedAtA_umount true, mountedAtA_umount false⟩

end LiteosM.Fs
