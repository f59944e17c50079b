import LiteosM.Lib.Ring

/-!
# One list of a heap

`Owns h n l` says that the head `n` has the nodes `l` and that no pointer leads into its ring from
outside. What is done to other nodes then leaves the list alone, whatever state they are in, so a
list can be followed through code that works on many others.

* `Rings.owns`: every list of a heap that holds nothing but lists;
* `Owns.delete`, `Owns.append`, `Owns.fresh`: what happens to the list itself;
* `Owns.add`, `Owns.tailInsert`, `Owns.init`, `Owns.clear`: what happens outside of it.
-/

namespace LiteosM.Lib

open Function List Option Heap

variable {N : Type*}

/-- The list of `n` is `l`, and no pointer from outside leads into it. -/
structure Owns (h : Heap N) (n : N) (l : List N) : Prop where
  list : h.IsList n l
  nodup : l.Nodup
  next : ∀ x y, h.next x = some y → y ∈ n :: l → x ∈ n :: l
  prev : ∀ x y, h.prev x = some y → y ∈ n :: l → x ∈ n :: l

/-- The neighbours of a node of a ring are in the ring. -/
theorem Heap.ring_neighbours {h : Heap N} {n x : N} {l : List N} (hr : h.Ring n l)
    (hx : x ∈ n :: l) : (∃ y ∈ n :: l, h.next x = some y) ∧ ∃ y ∈ n :: l, h.prev x = some y := by
  have hclosed : ∀ y, y ∈ l ++ [n] → y ∈ n :: l := by
    intro y hy
    rw [mem_append, mem_singleton] at hy
    exact mem_cons.mpr hy.symm
  rcases mem_cons.mp hx with rfl | hx
  · -- the head: its next node opens the list, the one before it closes it
    have hr0 : h.Ring x ([] ++ l) := hr
    obtain ⟨b, c, d, -, hd, hnb, -, -⟩ := ring_cut_at hr0 rfl
    obtain ⟨a, ha⟩ : ∃ a, (x :: l).getLast? = some a :=
      ⟨_, getLast?_eq_some_getLast (cons_ne_nil x l)⟩
    have hr' : h.Ring x (l ++ []) := by rwa [append_nil]
    obtain ⟨b', c', d', hc', hd', hab, -, -⟩ := ring_cut_at hr' ha
    obtain rfl : x = b' := (cons.inj hd').1
    refine ⟨⟨b, hclosed b (hd ▸ mem_cons_self), hnb.1⟩, a, ?_, hab.2⟩
    rw [hc']
    exact mem_append_right c' (mem_singleton_self a)
  obtain ⟨l1, l2, rfl⟩ := append_of_mem hx
  obtain ⟨a, b, c, d, hc, hd, hax, hxb, -, -⟩ := ring_around hr
  refine ⟨⟨b, hclosed b ?_, hxb.1⟩, a, ?_, hax.2⟩
  · rw [append_assoc, cons_append, hd]
    exact mem_append_right l1 (mem_cons_of_mem x mem_cons_self)
  · have ha : a ∈ n :: l1 := hc ▸ mem_append_right c (mem_singleton_self a)
    exact mem_append_left (x :: l2) ha

section
variable {h h' : Heap N} {n m x a : N} {l : List N} {L : NodeLists N}

/-- A pointer stays within a ring. -/
theorem Rings.pointer (hR : Rings h L) {y : N}
    (hxy : h.next x = some y ∨ h.prev x = some y) :
    ∃ m lm, L m = some lm ∧ x ∈ m :: lm ∧ y ∈ m :: lm := by
  obtain ⟨m, lm, hm, hx⟩ : ∃ m lm, L m = some lm ∧ x ∈ m :: lm := by
    by_contra hno
    have hfree : L.Free x := by
      refine ⟨?_, fun m hx => hno ⟨m, _, NodeLists.some_of_mem hx, mem_cons_of_mem m hx⟩⟩
      by_contra hxl
      exact hno ⟨x, _, NodeLists.some_of_ne_none hxl, mem_cons_self⟩
    obtain ⟨hnext, hprev⟩ := hR.null x hfree
    rw [hnext, hprev] at hxy
    rcases hxy with hc | hc <;> cases hc
  obtain ⟨⟨y1, hy1, hnext⟩, y2, hy2, hprev⟩ := ring_neighbours (hR.ring m lm hm) hx
  refine ⟨m, lm, hm, hx, ?_⟩
  rw [hnext, hprev, some.injEq, some.injEq] at hxy
  rcases hxy with rfl | rfl
  · exact hy1
  · exact hy2

/-- Nothing points to a node that is in no list. -/
theorem Rings.unpointed (hR : Rings h L) (hx : L.Free x) (y : N) :
    h.next y ≠ some x ∧ h.prev y ≠ some x := by
  have hno : ¬(h.next y = some x ∨ h.prev y = some x) := by
    intro hyx
    obtain ⟨m, lm, hm, -, hxm⟩ := hR.pointer hyx
    rcases mem_cons.mp hxm with rfl | hxm
    · simp [hx.1] at hm
    · exact hx.2 m (NodeLists.at_of_some hm ▸ hxm)
  exact not_or.mp hno

theorem Rings.owns (hR : Rings h L) (hn : L n = some l) : Owns h n l := by
  have hat := NodeLists.at_of_some hn
  -- two rings that share a node are one
  have hone : ∀ m lm y, L m = some lm → y ∈ m :: lm → y ∈ n :: l → m = n := by
    intro m lm y hm hy hy'
    have hatm := NodeLists.at_of_some hm
    rcases mem_cons.mp hy with rfl | hy <;> rcases mem_cons.mp hy' with rfl | hy'
    · rfl
    · exact absurd (hat.symm ▸ hy') (hR.head_not_mem hm n)
    · exact absurd (hatm.symm ▸ hy) (hR.head_not_mem hn m)
    · exact hR.uniq m n y (hatm.symm ▸ hy) (hat.symm ▸ hy')
  have hback : ∀ x y, h.next x = some y ∨ h.prev x = some y → y ∈ n :: l → x ∈ n :: l := by
    intro x y hxy hy
    obtain ⟨m, lm, hm, hxm, hym⟩ := hR.pointer hxy
    obtain rfl := hone m lm y hm hym hy
    rw [hn, some.injEq] at hm
    exact hm ▸ hxm
  exact ⟨hR.isList hn, hat ▸ hR.once n, fun x y hxy => hback x y (.inl hxy),
    fun x y hxy => hback x y (.inr hxy)⟩

/-- The nodes from `x` on, up to the head `n`, following `next`. -/
def Heap.walk [DecidableEq N] (h : Heap N) (n : N) : Nat → Option N → List N
  | fuel + 1, some x => if x = n then [] else x :: h.walk n fuel (h.next x)
  | _, _ => []

namespace Owns

theorem not_mem (h : Owns h' n l) : n ∉ l := h.list.2

/-- The head's pointer tells the first node. -/
theorem next_head (ho : Owns h n (x :: l)) : h.next n = some x := by
  have hr := ho.list.1
  unfold Heap.Ring at hr
  rw [cons_append, isChain_cons_cons] at hr
  exact hr.1.1

theorem next_nil (ho : Owns h n []) : h.next n = some n := by
  have hr := ho.list.1
  unfold Heap.Ring at hr
  rw [nil_append, isChain_pair] at hr
  exact hr.1

theorem next_outside {y : N} (ho : Owns h n l) (hx : x ∉ n :: l) (hxy : h.next x = some y) :
    y ∉ n :: l := fun hy => hx (ho.next x y hxy hy)

theorem prev_outside {y : N} (ho : Owns h n l) (hx : x ∉ n :: l) (hxy : h.prev x = some y) :
    y ∉ n :: l := fun hy => hx (ho.prev x y hxy hy)

/-- **The frame rule**: pointers are written outside of the ring, and none into it. -/
theorem frame (ho : Owns h n l) (hin : ∀ x ∈ n :: l, h'.next x = h.next x ∧ h'.prev x = h.prev x)
    (hnext : ∀ x y, x ∉ n :: l → h'.next x = some y → y ∉ n :: l)
    (hprev : ∀ x y, x ∉ n :: l → h'.prev x = some y → y ∉ n :: l) : Owns h' n l := by
  refine ⟨⟨ring_congr (fun a ha => hin a (mem_cons.mpr ha)) ho.list.1, ho.list.2⟩, ho.nodup,
    fun x y hxy hy => ?_, fun x y hxy hy => ?_⟩
  · by_contra hx
    exact hnext x y hx hxy hy
  · by_contra hx
    exact hprev x y hx hxy hy

theorem crash (ho : Owns h n l) : Owns h.crash n l :=
  ho.frame (fun _ _ => ⟨rfl, rfl⟩) (fun _ _ => ho.next_outside) fun _ _ => ho.prev_outside

/-- The walk backwards from outside stays outside. -/
theorem findBack {p : N → Bool} (ho : Owns h n l) : ∀ {fuel : Nat} {s : Option N},
    (∀ y, s = some y → y ∉ n :: l) → h.findBack p fuel s = some a → a ∉ n :: l
  | _, none, _, hfind => by simp [Heap.findBack] at hfind
  | 0, some _, _, hfind => by simp [Heap.findBack] at hfind
  | fuel + 1, some y, hs, hfind => by
    unfold Heap.findBack at hfind
    split_ifs at hfind with hp
    · exact some.inj hfind ▸ hs y rfl
    · exact ho.findBack (fun z hz => ho.prev_outside (hs y rfl) hz) hfind

variable [DecidableEq N] {f : N → Option N}

/-- What an update outside of the ring leaves alone. -/
theorem update_inside {v : Option N} {y : N} (hx : x ∉ n :: l) (hy : y ∈ n :: l) :
    update f x v y = f y := by
  have hne : y ≠ x := fun hc => hx (hc ▸ hy)
  rw [update_of_ne hne]

theorem update_outside {z v : N} (hv : v ∉ n :: l)
    (hf : ∀ x y, x ∉ n :: l → f x = some y → y ∉ n :: l) :
    ∀ x y, x ∉ n :: l → update f z (some v) x = some y → y ∉ n :: l := by
  intro x y hx hxy
  by_cases hxz : x = z
  · rw [hxz, update_self, some.injEq] at hxy
    exact hxy ▸ hv
  · rw [update_of_ne hxz] at hxy
    exact hf x y hx hxy

theorem update_none {z : N} (hf : ∀ x y, x ∉ n :: l → f x = some y → y ∉ n :: l) :
    ∀ x y, x ∉ n :: l → update f z none x = some y → y ∉ n :: l := by
  intro x y hx hxy
  by_cases hxz : x = z
  · simp [hxz] at hxy
  · rw [update_of_ne hxz] at hxy
    exact hf x y hx hxy

section
variable (ho : Owns h n l)
include ho

theorem init (hm : m ∉ n :: l) : Owns (h.init m) n l :=
  ho.frame (fun _ hx => ⟨update_inside hm hx, update_inside hm hx⟩)
    (update_outside hm fun _ _ => ho.next_outside) (update_outside hm fun _ _ => ho.prev_outside)

theorem clear (hm : m ∉ n :: l) : Owns (h.clear m) n l :=
  ho.frame (fun _ hx => ⟨update_inside hm hx, update_inside hm hx⟩)
    (update_none fun _ _ => ho.next_outside) (update_none fun _ _ => ho.prev_outside)

theorem add (ha : a ∉ n :: l) (hx : x ∉ n :: l) : Owns (h.add a x) n l := by
  cases hab : h.next a with
  | none =>
    unfold Heap.add
    rw [hab]
    exact ho.crash
  | some b =>
    have hb := ho.next_outside ha hab
    refine ho.frame (fun y hy => ?_) ?_ ?_
    · rw [add_next hab, add_prev hab, update_inside ha hy, update_inside hx hy,
        update_inside hb hy, update_inside hx hy]
      exact ⟨rfl, rfl⟩
    · rw [add_next hab]
      exact update_outside hx (update_outside hb fun _ _ => ho.next_outside)
    · rw [add_prev hab]
      exact update_outside hx (update_outside ha fun _ _ => ho.prev_outside)

theorem tailInsert (hm : m ∉ n :: l) (hx : x ∉ n :: l) : Owns (h.tailInsert m x) n l := by
  unfold Heap.tailInsert
  cases hp : h.prev m with
  | none => exact ho.crash
  | some p => exact ho.add (ho.prev_outside hm hp) hx

theorem delete_outside (hx : x ∉ n :: l) : Owns (h.delete x) n l := by
  cases hb : h.next x with
  | none =>
    unfold delete
    rw [hb]
    exact ho.crash
  | some b =>
    cases ha : h.prev x with
    | none =>
      unfold delete
      rw [hb, ha]
      exact ho.crash
    | some a =>
      have hbo := ho.next_outside hx hb
      have hao := ho.prev_outside hx ha
      refine ho.frame (fun y hy => ?_) ?_ ?_
      · rw [delete_next hb ha, delete_prev hb ha, update_inside hx hy, update_inside hao hy,
          update_inside hx hy, update_inside hbo hy]
        exact ⟨rfl, rfl⟩
      · rw [delete_next hb ha]
        exact update_none (update_outside hbo fun _ _ => ho.next_outside)
      · rw [delete_prev hb ha]
        exact update_none (update_outside hao fun _ _ => ho.prev_outside)

/-- **A node is taken out of its list**, which is this one or another. -/
theorem delete (hx : x ≠ n) : Owns (h.delete x) n (l.filter (· ≠ x)) := by
  by_cases hmem : x ∈ l
  · obtain ⟨l1, l2, rfl⟩ := append_of_mem hmem
    have hnd := ho.nodup
    rw [perm_middle.nodup_iff, nodup_cons] at hnd
    have hfilter : (l1 ++ x :: l2).filter (· ≠ x) = l1 ++ l2 := by
      have hkeep : ∀ l' : List N, x ∉ l' → l'.filter (· ≠ x) = l' := fun l' hl' =>
        filter_eq_self.mpr fun y hy => decide_eq_true fun hc => hl' (hc ▸ hy)
      rw [mem_append, not_or] at hnd
      rw [filter_append, filter_cons_of_neg (by simp), hkeep l1 hnd.1.1, hkeep l2 hnd.1.2]
    rw [hfilter]
    have hring := ho.list.1
    have hself : n ∉ l1 ++ l2 := fun hc => ho.list.2 (by
      rw [perm_middle.mem_iff]
      exact mem_cons_of_mem x hc)
    obtain ⟨a, b, -, -, -, -, hax, hxb, -, -⟩ := ring_around hring
    have hgone : (h.delete x).next x = none ∧ (h.delete x).prev x = none := by
      rw [delete_next hxb.1 hax.2, delete_prev hxb.1 hax.2]
      exact ⟨update_self .., update_self ..⟩
    have hmono : ∀ y, y ∈ n :: (l1 ++ l2) → y ∈ n :: (l1 ++ x :: l2) := by
      intro y hy
      rw [mem_cons, perm_middle.mem_iff, mem_cons]
      rw [mem_cons] at hy
      exact hy.imp_right .inr
    refine ⟨⟨ring_delete hring (nodup_cons.mpr ⟨ho.list.2, ho.nodup⟩), hself⟩, hnd.2,
      fun z y hzy hy => ?_, fun z y hzy hy => ?_⟩
    · by_contra hz
      by_cases hzx : z = x
      · simp [hzx, hgone.1] at hzy
      rw [(delete_frame hring hz hzx).1] at hzy
      have hin := ho.next z y hzy (hmono y hy)
      rw [mem_cons, perm_middle.mem_iff, mem_cons] at hin
      exact hz (mem_cons.mpr (hin.imp_right fun hc => hc.resolve_left hzx))
    by_contra hz
    by_cases hzx : z = x
    · simp [hzx, hgone.2] at hzy
    rw [(delete_frame hring hz hzx).2] at hzy
    have hin := ho.prev z y hzy (hmono y hy)
    rw [mem_cons, perm_middle.mem_iff, mem_cons] at hin
    exact hz (mem_cons.mpr (hin.imp_right fun hc => hc.resolve_left hzx))
  have hall : l.filter (· ≠ x) = l :=
    filter_eq_self.mpr fun y hy => decide_eq_true fun hc => hmem (hc ▸ hy)
  rw [hall]
  exact ho.delete_outside fun hc => (mem_cons.mp hc).elim hx hmem

/-- A node that nothing points to is put at the end of the list. -/
theorem append (hx : x ∉ n :: l) (hfree : ∀ y, h.next y ≠ some x ∧ h.prev y ≠ some x) :
    Owns (h.tailInsert n x) n (l ++ [x]) := by
  obtain ⟨a, ha⟩ : ∃ a, (n :: l).getLast? = some a :=
    ⟨_, getLast?_eq_some_getLast (cons_ne_nil n l)⟩
  have hring : h.Ring n (l ++ []) := by
    rw [append_nil]
    exact ho.list.1
  obtain ⟨b, c, d, hc, hd, hab, -, -⟩ := ring_cut_at hring ha
  obtain rfl : n = b := (cons.inj hd).1
  have hins : h.tailInsert n x = h.add a x := by
    unfold Heap.tailInsert
    rw [hab.2]
  have hnd : (n :: (l ++ [])).Nodup := by
    rw [append_nil]
    exact nodup_cons.mpr ⟨ho.list.2, ho.nodup⟩
  have hmono : ∀ y, y ∈ n :: (l ++ [x]) → y ≠ x → y ∈ n :: l := by
    intro y hy hyx
    rw [mem_cons, mem_append, mem_singleton] at hy
    exact mem_cons.mpr (hy.imp_right fun hc => hc.resolve_right hyx)
  rw [hins]
  refine ⟨⟨ring_add hring hnd ha (by rwa [append_nil]), ?_⟩, ?_, fun z y hzy hy => ?_,
    fun z y hzy hy => ?_⟩
  · rw [mem_append, mem_singleton, not_or]
    exact ⟨ho.list.2, fun hc => hx (hc ▸ mem_cons_self)⟩
  · rw [(perm_append_singleton x l).nodup_iff, nodup_cons]
    exact ⟨fun hc => hx (mem_cons_of_mem n hc), ho.nodup⟩
  · by_contra hz
    rw [(add_frame hring ha hz).1] at hzy
    refine hz ?_
    have hz' := ho.next z y hzy (hmono y hy fun hc => (hfree z).1 (hc ▸ hzy))
    exact mem_append_left [x] hz'
  by_contra hz
  rw [(add_frame hring ha hz).2] at hzy
  refine hz ?_
  have hz' := ho.prev z y hzy (hmono y hy fun hc => (hfree z).2 (hc ▸ hzy))
  exact mem_append_left [x] hz'

/-- The walk over a list visits its nodes. -/
theorem walk {fuel : Nat} (hfuel : l.length ≤ fuel) : h.walk n (fuel + 1) (h.next n) = l := by
  -- from any node of the ring on, the walk visits what is left up to the head
  have hfrom : ∀ (l : List N) (fuel : Nat) (x : N), n ∉ l → l.length ≤ fuel →
      IsChain h.Link (x :: l ++ [n]) → h.walk n (fuel + 1) (h.next x) = l := by
    intro l
    induction l with
    | nil =>
      intro fuel x _ _ hchain
      have hlink : h.Link x n := by simpa using hchain
      rw [hlink.1]
      unfold Heap.walk
      rw [if_pos rfl]
    | cons y l ih =>
      intro fuel x hn hlen hchain
      rw [cons_append, cons_append, isChain_cons_cons] at hchain
      rw [mem_cons, not_or] at hn
      obtain ⟨fuel, rfl⟩ : ∃ m, fuel = m + 1 := ⟨fuel - 1, by simp at hlen; omega⟩
      rw [hchain.1.1]
      unfold Heap.walk
      rw [if_neg (Ne.symm hn.1), ih fuel y hn.2 (by simpa using hlen) hchain.2]
  exact hfrom l fuel n ho.not_mem hfuel ho.list.1

end

end Owns

end

end LiteosM.Lib
