import LiteosM.Fs.Unmount

/-!
# Which mount point a path is in

`VfsMpFind` with `LOSCFG_FS_SUPPORT_MOUNT_TARGET_RECURSIVE`, for paths without empty components. Its loop
walks over two strings with `strchr` and `strncmp`; `matchRead` is that loop over what stands in memory from
its two pointers on, the NUL included, and is `none` where it reads behind a NUL.

* `matchRead_eq`: the loop stays within the strings and counts what `matchLoop` counts;
* **`vfsMpFind_longest`**: it ends, and the first mount point with the longest beginning of the path is
  found.
-/

namespace LiteosM.Fs

open List

/-! ## The strings in memory -/

/-- The end of a string. -/
def nul : Char := Char.ofNat 0

/-- A string as it stands in memory. -/
def cstr (p : Path) : List Char := p ++ [nul]

/-- `skipSlash`. -/
def skipSlashRead : List Char → Option (List Char)
  | [] => none
  | c :: p =>
    if c ≠ '/' then some (c :: p)
    else p.head?.bind fun d => if d ≠ '/' then skipSlashRead p else some (c :: p)

/-- What is before `strchr(p, '/')`, or `strchr(p, '\0')` if there is no slash. -/
def wordRead : List Char → Option Path
  | [] => none
  | c :: p => if c = '/' ∨ c = nul then some [] else (wordRead p).map (c :: ·)

/-- `strncmp(p, q, n) == 0`. -/
def strncmpRead : Nat → List Char → List Char → Option Bool
  | 0, _, _ => some true
  | n + 1, a :: p, b :: q => if a ≠ b then some false else if a = nul then some true else strncmpRead n p q
  | _, _, _ => none

/-- `matchLoop`, and the last `skipSlash` of `VfsMpFind`. -/
def matchRead : Nat → List Char → List Char → Nat → Option (Option Nat)
  | 0, _, _, _ => some none
  | fuel + 1, mPath, iPath, matched => do
    let mPath ← skipSlashRead mPath
    let iPath ← skipSlashRead iPath
    let t ← wordRead mPath
    if t = [] then (skipSlashRead iPath).map fun _ => some matched
    else if (← strncmpRead t.length mPath iPath) = false then some none
    else
      let iPath := iPath.drop t.length
      let c ← iPath.head?
      if c ≠ nul ∧ c ≠ '/' then some none
      else if (← (mPath.drop t.length).head?) = nul then
        (skipSlashRead iPath).map fun _ => some (matched + t.length)
      else matchRead fuel (mPath.drop t.length) iPath (matched + t.length)

section
variable {p q w : Path}

theorem skipSlashRead_cstr (p : Path) : skipSlashRead (cstr p) = some (cstr (skipSlash p)) := by
  induction p with
  | nil => rfl
  | cons c p ih =>
    by_cases hc : c = '/'
    · cases p with
      | nil =>
        subst hc
        rfl
      | cons d p =>
        unfold skipSlash
        by_cases hd : d = '/'
        · simp [cstr, skipSlashRead, hd]
        · rw [if_pos ⟨hc, by simpa using hd⟩, ← ih]
          simp [cstr, skipSlashRead, hc, hd]
    · simp [cstr, skipSlashRead, skipSlash, hc]

theorem wordRead_cstr (hp : nul ∉ p) : wordRead (cstr p) = some (word p) := by
  induction p with
  | nil => rfl
  | cons c p ih =>
    obtain ⟨hne, hp⟩ : nul ≠ c ∧ nul ∉ p := by simpa using hp
    have ih := ih hp
    by_cases hc : c = '/'
    · simp [cstr, wordRead, word, hc]
    · unfold cstr word at *
      simp [wordRead, hc, hne.symm, ih]

theorem strncmpRead_cstr (hw : nul ∉ w) (q : List Char) (i : Path) (hi : nul ∉ i) :
    strncmpRead w.length (w ++ q) (cstr i) = some (decide (i.take w.length = w)) := by
  induction w generalizing i with
  | nil => rfl
  | cons c w ih =>
    obtain ⟨hne, hw⟩ : nul ≠ c ∧ nul ∉ w := by simpa using hw
    cases i with
    | nil => simp [cstr, strncmpRead, hne.symm]
    | cons d i =>
      have ih := ih hw i fun h => hi (mem_cons_of_mem _ h)
      unfold cstr at *
      by_cases hcd : c = d
      · subst hcd
        simp [strncmpRead, hne.symm, ih]
      · simp [strncmpRead, hcd, Ne.symm hcd]

theorem head_cstr (hp : nul ∉ p) : ∃ c, (cstr p).head? = some c ∧ (c ≠ nul ∧ c ≠ '/' ↔ atEnd p = false) ∧
    (c = nul ↔ p = []) := by
  cases p with
  | nil => exact ⟨nul, rfl, by simp [atEnd], by simp⟩
  | cons c p =>
    have hc : c ≠ nul := fun h => hp (h ▸ mem_cons_self)
    exact ⟨c, rfl, by simp [atEnd, hc], by simp [hc]⟩

theorem drop_cstr {n : Nat} (hn : n ≤ p.length) : (cstr p).drop n = cstr (p.drop n) := by
  unfold cstr
  rw [drop_append_of_le_length hn]

theorem nul_not_mem_skipSlash (hp : nul ∉ p) : nul ∉ skipSlash p := by
  induction p with
  | nil => exact hp
  | cons c p ih =>
    unfold skipSlash
    split_ifs
    · exact ih fun h => hp (mem_cons_of_mem _ h)
    · exact hp

/-- **The loop stays within the two strings**, and counts what `matchLoop` counts. -/
theorem matchRead_eq (fuel : Nat) {m i : Path} (hm : nul ∉ m) (hi : nul ∉ i) (k : Nat) :
    matchRead fuel (cstr m) (cstr i) k = some (matchLoop fuel m i k) := by
  induction fuel generalizing m i k with
  | zero => rfl
  | succ fuel ih =>
    have hm' := nul_not_mem_skipSlash hm
    have hi' := nul_not_mem_skipSlash hi
    rw [matchLoop_succ]
    unfold matchRead
    simp only [skipSlashRead_cstr, Option.bind_eq_bind, Option.bind_some, wordRead_cstr hm']
    generalize skipSlash m = m at *
    generalize skipSlash i = i at *
    have hcmp : strncmpRead (word m).length (cstr m) (cstr i) = some (decide (i.take (word m).length = word m)) := by
      have hword : nul ∉ word m := fun h => hm' (( takeWhile_prefix _).subset h)
      have hsplit : cstr m = word m ++ (afterWord m ++ [nul]) := by
        rw [← append_assoc, word_append]
        rfl
      rw [hsplit, strncmpRead_cstr hword _ i hi']
    by_cases hnil : word m = []
    · simp only [hnil, if_true, Option.map_some]
    rw [if_neg hnil, if_neg hnil, hcmp]
    by_cases htake : i.take (word m).length = word m
    · have hle : (word m).length ≤ i.length := by
        rw [← htake, length_take]
        omega
      have hlem : (word m).length ≤ m.length := ( takeWhile_prefix _).length_le
      have hdi : nul ∉ i.drop (word m).length := fun h => hi' (mem_of_mem_drop h)
      have hdm : nul ∉ m.drop (word m).length := fun h => hm' (mem_of_mem_drop h)
      obtain ⟨c, hc, hend, -⟩ := head_cstr hdi
      obtain ⟨d, hd, -, hlast⟩ := head_cstr hdm
      rw [if_neg (not_not_intro htake)]
      simp only [htake, decide_true, Bool.true_eq_false, if_false, drop_cstr hle, drop_cstr hlem, hc, hd, hend, hlast,
        Option.bind_some, skipSlashRead_cstr, Option.map_some, ih hdm hdi]
      split_ifs <;> rfl
    · simp [htake]

/-! ## The longest beginning -/

/-- No component is empty. -/
def Plain (p : Path) : Prop := ¬ ['/', '/'] <:+: p

theorem segments_of_plain (hp : Plain p) : segments p = components p := by
  have hup : upToDouble p = p := by
    induction p with
    | nil => rfl
    | cons c p ih =>
      have hno : ¬ (c = '/' ∧ p.head? = some '/') := by
        rintro ⟨rfl, hhead⟩
        obtain ⟨q, rfl⟩ := head?_eq_some_iff.mp hhead
        exact hp ⟨[], q, rfl⟩
      rw [upToDouble, if_neg hno, ih fun h => hp (h.trans (infix_cons (infix_refl _)))]
  unfold segments
  rw [hup]

theorem nil_not_mem_components (p : Path) : [] ∉ components p := by
  induction p with
  | nil => simp [components]
  | cons c p ih =>
    unfold components
    split_ifs
    · exact ih
    · simpa using ih
    split
    · simp
    · rename_i q qs heq
      simp_all

/-- Of two beginnings of a path, the one with more components has more characters. -/
theorem length_flatten_le_iff {a b r : List Path} (ha : a <+: r) (hb : b <+: r) (hr : [] ∉ r) :
    a.flatten.length ≤ b.flatten.length ↔ a.length ≤ b.length := by
  constructor <;> intro hle
  · by_contra hlt
    obtain ⟨t, rfl⟩ := prefix_of_prefix_length_le hb ha (by omega)
    cases t with
    | nil => simp at hlt
    | cons x t =>
      have hx : x ≠ [] := fun h => hr (ha.subset (by simp [h]))
      have := length_pos_iff.mpr hx
      simp only [flatten_append, flatten_cons, length_append] at hle
      omega
  · obtain ⟨t, rfl⟩ := prefix_of_prefix_length_le ha hb hle
    simp

end

/-- **`VfsMpFind` is a longest-prefix lookup**: every comparison ends within the two strings, and of the mount points
whose components begin the path the first with the most components is returned. -/
theorem vfsMpFind_longest (s : Vfs) (path : Path) (hpath : Plain path ∧ nul ∉ path)
    (hmps : ∀ m ∈ s.mountPoints, Plain (s.mp m).mPath ∧ nul ∉ (s.mp m).mPath ∧ components (s.mp m).mPath ≠ []) :
    (∀ m ∈ s.mountPoints, ∀ fuel, (s.mp m).mPath.length < fuel →
      matchRead fuel (cstr (s.mp m).mPath) (cstr path) 0 =
        some (matchLoop ((s.mp m).mPath.length + 1) (s.mp m).mPath path 0)) ∧
    s.vfsMpFind true path = argmax (fun m => (components (s.mp m).mPath).length)
      (s.mountPoints.filter fun m => components (s.mp m).mPath <+: components path) := by
  constructor
  · intro m hm fuel hfuel
    rw [matchRead_eq fuel (hmps m hm).2.1 hpath.2, matchLoop_eq _ _ _ _ hfuel,
      matchLoop_eq _ _ _ _ (Nat.lt_succ_self _)]
  have hmatched : ∀ m ∈ s.mountPoints, s.matched path m =
      if components (s.mp m).mPath <+: components path then (components (s.mp m).mPath).flatten.length else 0 := by
    intro m hm
    unfold Vfs.matched
    rw [segments_of_plain (hmps m hm).1, segments_of_plain hpath.1]
  have hfilter : s.mountPoints.filter (fun m => 0 < s.matched path m) =
      s.mountPoints.filter fun m => components (s.mp m).mPath <+: components path := by
    refine filter_congr fun m hm => decide_eq_decide.mpr ?_
    rw [hmatched m hm]
    have hpos := length_flatten_le_iff (prefix_refl (components (s.mp m).mPath)) nil_prefix (nil_not_mem_components _)
    have := length_pos_iff.mpr (hmps m hm).2.2
    simp only [length_nil] at hpos
    split_ifs with h <;> simp only [h, iff_true, iff_false] <;> omega
  rw [Vfs.vfsMpFind_recursive, hfilter]
  have hle : ∀ a ∈ s.mountPoints.filter (fun m => components (s.mp m).mPath <+: components path),
      ∀ b ∈ s.mountPoints.filter (fun m => components (s.mp m).mPath <+: components path),
      s.matched path a ≤ s.matched path b ↔
        (components (s.mp a).mPath).length ≤ (components (s.mp b).mPath).length := by
    intro a ha b hb
    simp only [mem_filter, decide_eq_true_eq] at ha hb
    rw [hmatched a ha.1, hmatched b hb.1, if_pos ha.2, if_pos hb.2]
    exact length_flatten_le_iff ha.2 hb.2 (nil_not_mem_components path)
  ext m
  simp only [← Option.mem_def, mem_argmax_iff]
  refine and_congr_right fun hm => and_congr ?_ ?_
  · exact forall₂_congr fun a ha => hle a ha m hm
  · exact forall₂_congr fun a ha => by rw [hle m hm a ha]

/-- `/a`, `/a/b` and `/ab` are mounted. -/
def threeMounts : Vfs :=
  { Vfs.init with
    mountPoints := [3, 2, 1]
    mp := fun m => ⟨⟨none, none⟩, [['/', 'a'], ['/', 'a', '/', 'b'], ['/', 'a', 'b']].getD (m - 1) [], 0, true⟩ }

theorem vfsMpFind_longest_threeMounts : threeMounts.vfsMpFind true ['/', 'a', '/', 'b', '/', 'c'] = some 2 := by
  rw [(vfsMpFind_longest threeMounts _ (by unfold Plain; decide) (by unfold Plain; decide)).2]
  decide

end LiteosM.Fs
