import Mathlib.Data.List.Chain
import Mathlib.Data.List.Nodup

/-!
# Circular doubly linked lists in a pointer heap

Intrusive lists as C programs keep them: every node carries a `next` and a `prev` pointer, a list
is a head node whose ring of pointers comes back to it, and a node that is in no list has both
pointers null. The operations (`init`, `add`, `tailInsert`, `delete`) write pointers and nothing
else; following a null pointer sets `crashed`.

`Rings h L` says that the heap `h` holds exactly the lists `L`: `L n = some l` when `n` heads a
list with the nodes `l` in order, `none` when `n` heads no list. No node is in two lists or twice
in one, and no head is in a list.

* `Rings.add`, `Rings.add_head`, `Rings.tailInsert`, `Rings.delete`, `Rings.init`, `Rings.forget`:
  what each operation does to the lists;
* `Rings.isEmpty_iff`, `Rings.next_head`: what the pointers of a head tell;
* `Heap.findBack_ring`: the walk from the tail towards the head.
-/

namespace LiteosM.Lib

open Function List Option

variable {N : Type*}

/-- The pointers of all nodes; `none` is the null pointer. -/
structure Heap (N : Type*) where
  next : N → Option N
  prev : N → Option N
  crashed : Bool

/-- Which nodes head a list, and what is in it. -/
abbrev NodeLists (N : Type*) := N → Option (List N)

/-- The nodes of the list of `n`; none when `n` heads no list. -/
def NodeLists.at (L : NodeLists N) (n : N) : List N := (L n).getD []

/-- `x` heads no list and is in none. -/
def NodeLists.Free (L : NodeLists N) (x : N) : Prop := L x = none ∧ ∀ n, x ∉ L.at n

namespace Heap

/-- `b` is the node after `a`, from both ends. -/
def Link (h : Heap N) (a b : N) : Prop := h.next a = some b ∧ h.prev b = some a

/-- The ring of `n` runs through `l` and back. -/
def Ring (h : Heap N) (n : N) (l : List N) : Prop := (n :: (l ++ [n])).IsChain h.Link

/-- Following the pointers from `n` one meets `l`, and then `n` for the first time again. -/
def IsList (h : Heap N) (n : N) (l : List N) : Prop := h.Ring n l ∧ n ∉ l

section
variable [DecidableEq N]

/-- A null pointer was followed. -/
def crash (h : Heap N) : Heap N := { h with crashed := true }

/-- A list of its own, without elements. -/
def init (h : Heap N) (n : N) : Heap N :=
  { h with next := update h.next n (some n), prev := update h.prev n (some n) }

/-- Put `x` after `a`. -/
def add (h : Heap N) (a x : N) : Heap N :=
  match h.next a with
  | some b =>
    { h with
      next := update (update h.next x (some b)) a (some x)
      prev := update (update h.prev x (some a)) b (some x) }
  | none => h.crash

/-- Put `x` before the head `n`. -/
def tailInsert (h : Heap N) (n x : N) : Heap N :=
  match h.prev n with
  | some p => h.add p x
  | none => h.crash

/-- Both pointers of `x` become null, whatever they were. -/
def clear (h : Heap N) (x : N) : Heap N :=
  { h with next := update h.next x none, prev := update h.prev x none }

/-- Take `x` out of its ring. -/
def delete (h : Heap N) (x : N) : Heap N :=
  match h.next x, h.prev x with
  | some b, some a =>
    { h with
      next := update (update h.next a (some b)) x none
      prev := update (update h.prev b (some a)) x none }
  | _, _ => h.crash

/-- The list has no element. -/
def isEmpty (h : Heap N) (n : N) : Bool := h.next n = some n

/-- Walk backwards from `x` to the first node that satisfies `p`; `none` when the walk meets a
null pointer or makes more than `fuel` steps. -/
def findBack (h : Heap N) (p : N → Bool) : Nat → Option N → Option N
  | _, none => none
  | 0, some _ => none
  | fuel + 1, some x => if p x then some x else findBack h p fuel (h.prev x)

end

/-! ## Chains of pointers -/

/-- A chain only depends on the `next` of all but its last node and the `prev` of all but its
first. -/
theorem isChain_congr {h h' : Heap N} : ∀ {c : List N}, (∀ a ∈ c.dropLast, h'.next a = h.next a) →
    (∀ b ∈ c.tail, h'.prev b = h.prev b) → c.IsChain h.Link → c.IsChain h'.Link
  | [], _, _, _ => .nil
  | [_], _, _, _ => .singleton _
  | a :: b :: c, hn, hp, hc => by
    rw [isChain_cons_cons] at hc ⊢
    refine ⟨⟨?_, ?_⟩, ?_⟩
    · rw [hn a (by simp)]
      exact hc.1.1
    · rw [hp b (by simp)]
      exact hc.1.2
    refine isChain_congr (fun x hx => hn x ?_) (fun x hx => hp x ?_) hc.2
    · rw [dropLast_cons_of_ne_nil (cons_ne_nil b c)]
      exact mem_cons_of_mem _ hx
    · exact mem_cons_of_mem _ hx

theorem ring_congr {h h' : Heap N} {n : N} {l : List N}
    (hn : ∀ a, a = n ∨ a ∈ l → h'.next a = h.next a ∧ h'.prev a = h.prev a) (hr : h.Ring n l) :
    h'.Ring n l := by
  refine isChain_congr (fun a ha => (hn a ?_).1) (fun b hb => (hn b ?_).2) hr
  · rw [← cons_append, dropLast_concat] at ha
    exact mem_cons.mp ha
  · rw [tail_cons, mem_append, mem_singleton] at hb
    exact hb.symm

variable {h : Heap N}

/-- A head has one list. -/
theorem IsList.unique {n : N} {l l' : List N} (hl : h.IsList n l) (hl' : h.IsList n l') : l = l' := by
  -- the chains agree from any node on, up to the first `n`
  have key : ∀ (l l' : List N) (a : N), (a :: (l ++ [n])).IsChain h.Link →
      (a :: (l' ++ [n])).IsChain h.Link → n ∉ l → n ∉ l' → l = l' := by
    intro l
    induction l with
    | nil =>
      intro l' a hc hc' _ hn'
      cases l' with
      | nil => rfl
      | cons b l' =>
        have hb : some n = some b :=
          (isChain_cons_cons.mp hc).1.1.symm.trans (isChain_cons_cons.mp hc').1.1
        rw [some.inj hb] at hn'
        exact absurd mem_cons_self hn'
    | cons b l ih =>
      intro l' a hc hc' hn hn'
      cases l' with
      | nil =>
        have hb : some b = some n :=
          (isChain_cons_cons.mp hc).1.1.symm.trans (isChain_cons_cons.mp hc').1.1
        rw [some.inj hb] at hn
        exact absurd mem_cons_self hn
      | cons b' l' =>
        have hb : some b = some b' :=
          (isChain_cons_cons.mp hc).1.1.symm.trans (isChain_cons_cons.mp hc').1.1
        cases hb
        rw [ih l' b (isChain_cons_cons.mp hc).2 (isChain_cons_cons.mp hc').2
          (not_mem_of_not_mem_cons hn) (not_mem_of_not_mem_cons hn')]
  exact key l l' n hl.1 hl'.1 hl.2 hl'.2

/-- The node after `a` when the list is cut behind it: `a` closes the first part, `b` opens the
second. -/
theorem ring_cut {n a b : N} {l1 l2 c d : List N} (ha : n :: l1 = c ++ [a])
    (hb : l2 ++ [n] = b :: d) : h.Ring n (l1 ++ l2) ↔
      (c ++ [a]).IsChain h.Link ∧ h.Link a b ∧ (b :: d).IsChain h.Link := by
  have hcut : n :: (l1 ++ l2 ++ [n]) = c ++ a :: b :: d := by
    rw [append_assoc, ← cons_append, ha, hb, append_assoc, singleton_append]
  unfold Ring
  rw [hcut, isChain_append_cons_cons]

/-- What is behind the cut: `b` is the next node of `a`, and the two stand on its two sides. -/
theorem ring_cut_at {n a : N} {l1 l2 : List N} (hr : h.Ring n (l1 ++ l2))
    (ha : (n :: l1).getLast? = some a) :
    ∃ b c d, n :: l1 = c ++ [a] ∧ l2 ++ [n] = b :: d ∧ h.Link a b ∧
      (c ++ [a]).IsChain h.Link ∧ (b :: d).IsChain h.Link := by
  obtain ⟨c, hc⟩ := getLast?_eq_some_iff.mp ha
  obtain ⟨b, d, hd⟩ := exists_cons_of_ne_nil (append_ne_nil_of_right_ne_nil l2
    (cons_ne_nil n []))
  obtain ⟨hleft, hab, hright⟩ := (ring_cut hc hd).mp hr
  exact ⟨b, c, d, hc, hd, hab, hleft, hright⟩

/-- The two neighbours of `x` in its ring. -/
theorem ring_around {n x : N} {l1 l2 : List N} (hr : h.Ring n (l1 ++ x :: l2)) :
    ∃ a b c d, n :: l1 = c ++ [a] ∧ l2 ++ [n] = b :: d ∧ h.Link a x ∧ h.Link x b ∧
      (c ++ [a]).IsChain h.Link ∧ (b :: d).IsChain h.Link := by
  obtain ⟨a, ha⟩ : ∃ a, (n :: l1).getLast? = some a :=
    ⟨_, getLast?_eq_some_getLast (cons_ne_nil n l1)⟩
  obtain ⟨x', c, d, hc, hd, hax, hleft, hright⟩ := ring_cut_at hr ha
  rw [cons_append, cons.injEq] at hd
  obtain ⟨rfl, hd⟩ := hd
  obtain ⟨b, d', hd'⟩ := exists_cons_of_ne_nil (append_ne_nil_of_right_ne_nil l2
    (cons_ne_nil n []))
  rw [← hd, hd', isChain_cons_cons] at hright
  exact ⟨a, b, c, d', hc, hd', hax, hright.1, hleft, hright.2⟩

/-- The walk from the tail stops at the last node of the list that satisfies `p`. -/
theorem findBack_ring {n : N} {p : N → Bool} : ∀ {fuel : Nat} {l r d : List N} {b : N},
    h.Ring n (l ++ r) → r ++ [n] = b :: d → (∃ y ∈ l, p y = true) → l.length ≤ fuel →
    ∃ l1 a l2, l = l1 ++ a :: l2 ∧ p a = true ∧ (∀ y ∈ l2, p y = false) ∧
      h.findBack p fuel (h.prev b) = some a := by
  intro fuel
  induction fuel with
  | zero =>
    rintro l r d b - - ⟨y, hy, -⟩ hlen
    rw [length_eq_zero_iff.mp (Nat.le_zero.mp hlen)] at hy
    exact absurd hy not_mem_nil
  | succ fuel ih =>
    rintro l r d b hr hd ⟨y, hy, hpy⟩ hlen
    obtain ⟨l', z, rfl⟩ : ∃ l' z, l = l' ++ [z] :=
      ⟨_, _, (dropLast_append_getLast (ne_nil_of_mem hy)).symm⟩
    rw [append_assoc, singleton_append] at hr
    obtain ⟨-, b', -, d', -, hd', -, hzb, -, -⟩ := ring_around hr
    rw [hd, cons.injEq] at hd'
    rw [hd'.1, hzb.2]
    unfold findBack
    by_cases hpz : p z = true
    · exact ⟨l', z, [], rfl, hpz, fun _ hc => absurd hc not_mem_nil, if_pos hpz⟩
    have hyl : y ∈ l' := by
      rw [mem_append, mem_singleton] at hy
      refine hy.resolve_right ?_
      rintro rfl
      exact hpz hpy
    have hlen' : l'.length ≤ fuel := by
      rw [length_append] at hlen
      exact Nat.le_of_succ_le_succ hlen
    obtain ⟨l1, a, l2, rfl, hpa, hl2, hfind⟩ := ih hr (cons_append ..) ⟨y, hyl, hpy⟩ hlen'
    refine ⟨l1, a, l2 ++ [z], ?_, hpa, ?_, ?_⟩
    · rw [append_assoc, cons_append]
    · intro w hw
      rw [mem_append, mem_singleton] at hw
      rcases hw with hw | rfl
      · exact hl2 w hw
      · exact Bool.eq_false_iff.mpr hpz
    · rwa [if_neg hpz]

/-! ### The two sides of a cut -/

section
variable {h h' : Heap N} {n a b x : N} {l1 l2 c d : List N}

theorem not_mem_sides (hx : x ∉ n :: (l1 ++ l2)) (hc : n :: l1 = c ++ [a]) (hd : l2 ++ [n] = b :: d) :
    x ∉ c ∧ x ≠ a ∧ x ≠ b ∧ x ∉ d := by
  have : x ∉ c ++ [a] ∧ x ∉ b :: d := by
    rw [← hc, ← hd]
    simp only [mem_cons, mem_append, not_mem_nil, or_false, not_or] at hx ⊢
    exact ⟨⟨hx.1, hx.2.1⟩, hx.2.2, hx.1⟩
  simp only [mem_cons, mem_append, not_mem_nil, or_false, not_or] at this
  exact ⟨this.1.1, this.1.2, this.2⟩

/-- The two sides share no node except the head, which closes the ring: where only `x`, the `next` of `a` and the
`prev` of `b` are written, their links are kept. -/
theorem sides_congr (hnd : (n :: (l1 ++ l2)).Nodup) (hx : x ∉ n :: (l1 ++ l2)) (hc : n :: l1 = c ++ [a])
    (hd : l2 ++ [n] = b :: d) (hnext : ∀ y, y ≠ a → y ≠ x → h'.next y = h.next y)
    (hprev : ∀ y, y ≠ b → y ≠ x → h'.prev y = h.prev y)
    (hleft : (c ++ [a]).IsChain h.Link) (hright : (b :: d).IsChain h.Link) :
    (c ++ [a]).IsChain h'.Link ∧ (b :: d).IsChain h'.Link := by
  obtain ⟨hxc, -, -, hxd⟩ := not_mem_sides hx hc hd
  have hnd1 : (c ++ [a]).Nodup := hc ▸ hnd.sublist (Sublist.cons_cons n (sublist_append_left l1 l2))
  have hnd2 : (b :: d).Nodup := by
    rw [← hd, (perm_append_singleton n l2).nodup_iff]
    exact hnd.sublist (Sublist.cons_cons n (sublist_append_right l1 l2))
  obtain ⟨hn_mem, hnd⟩ := nodup_cons.mp hnd
  have hdisj : ∀ y ∈ l1, y ∉ l2 := fun y hy hy' => (nodup_append.mp hnd).2.2 y hy y hy' rfl
  refine ⟨isChain_congr (fun y hy => hnext y ?_ ?_) (fun y hy => hprev y ?_ ?_) hleft,
    isChain_congr (fun y hy => hnext y ?_ ?_) (fun y hy => hprev y ?_ ?_) hright⟩
  · rw [dropLast_concat] at hy
    exact (nodup_append.mp hnd1).2.2 y hy a (mem_singleton_self a)
  · rw [dropLast_concat] at hy
    exact fun hyx => hxc (hyx ▸ hy)
  · rw [← hc] at hy
    rintro rfl
    have : y ∈ l2 ++ [n] := hd ▸ mem_cons_self
    rw [mem_append, mem_singleton] at this
    exact this.elim (hdisj y hy) fun hyn => hn_mem (mem_append_left l2 (hyn ▸ hy))
  · rw [← hc] at hy
    rintro rfl
    exact hx (mem_cons_of_mem n (mem_append_left l2 hy))
  · rw [← hd, dropLast_concat] at hy
    rintro rfl
    have : y ∈ n :: l1 := hc ▸ mem_append_right c (mem_singleton_self y)
    rcases mem_cons.mp this with rfl | hy'
    · exact hn_mem (mem_append_right l1 hy)
    · exact hdisj y hy' hy
  · rw [← hd, dropLast_concat] at hy
    rintro rfl
    exact hx (mem_cons_of_mem n (mem_append_right l1 hy))
  · exact fun hyb => (nodup_cons.mp hnd2).1 (hyb ▸ hy)
  · exact fun hyx => hxd (hyx ▸ hy)

end

/-! ### Insertion -/

section
variable [DecidableEq N] {h : Heap N} {n a b x : N} {l1 l2 : List N}

theorem add_next (hab : h.next a = some b) :
    (h.add a x).next = update (update h.next x (some b)) a (some x) := by
  unfold add
  rw [hab]

theorem add_prev (hab : h.next a = some b) :
    (h.add a x).prev = update (update h.prev x (some a)) b (some x) := by
  unfold add
  rw [hab]

theorem add_crashed (hab : h.next a = some b) : (h.add a x).crashed = h.crashed := by
  unfold add
  rw [hab]

/-- The ring after an insertion behind `a`. -/
theorem ring_add (hr : h.Ring n (l1 ++ l2)) (hnd : (n :: (l1 ++ l2)).Nodup)
    (ha : (n :: l1).getLast? = some a) (hx : x ∉ n :: (l1 ++ l2)) :
    (h.add a x).Ring n (l1 ++ x :: l2) := by
  obtain ⟨b, c, d, hc, hd, hab, hleft, hright⟩ := ring_cut_at hr ha
  have hd' : (x :: l2) ++ [n] = x :: b :: d := by rw [cons_append, hd]
  obtain ⟨-, hxa, hxb, -⟩ := not_mem_sides hx hc hd
  have hsides : (c ++ [a]).IsChain (h.add a x).Link ∧ (b :: d).IsChain (h.add a x).Link := by
    refine sides_congr hnd hx hc hd (fun y hya hyx => ?_) (fun y hyb hyx => ?_) hleft hright
    · rw [add_next hab.1, update_of_ne hya, update_of_ne hyx]
    · rw [add_prev hab.1, update_of_ne hyb, update_of_ne hyx]
  rw [ring_cut hc hd', isChain_cons_cons]
  refine ⟨hsides.1, ⟨?_, ?_⟩, ⟨?_, ?_⟩, hsides.2⟩
  · rw [add_next hab.1, update_self]
  · rw [add_prev hab.1, update_of_ne hxb, update_self]
  · rw [add_next hab.1, update_of_ne hxa, update_self]
  · rw [add_prev hab.1, update_self]

/-- An insertion writes no pointer of a node outside the ring. -/
theorem add_frame (hr : h.Ring n (l1 ++ l2)) (ha : (n :: l1).getLast? = some a) {y : N}
    (hy : y ∉ n :: (l1 ++ x :: l2)) :
    (h.add a x).next y = h.next y ∧ (h.add a x).prev y = h.prev y := by
  obtain ⟨b, c, d, hc, hd, hab, -, -⟩ := ring_cut_at hr ha
  have hyx : y ≠ x := by
    rintro rfl
    exact hy (mem_cons_of_mem n (mem_append_right l1 mem_cons_self))
  have hsub : n :: (l1 ++ l2) ⊆ n :: (l1 ++ x :: l2) :=
    (((sublist_cons_self x l2).append_left l1).cons_cons n).subset
  obtain ⟨-, hya, hyb, -⟩ := not_mem_sides (fun hc => hy (hsub hc)) hc hd
  rw [add_next hab.1, add_prev hab.1, update_of_ne hya, update_of_ne hyx,
    update_of_ne hyb, update_of_ne hyx]
  exact ⟨rfl, rfl⟩

/-! ### Removal -/

section
variable (hb : h.next x = some b) (ha : h.prev x = some a)
include hb ha

theorem delete_next : (h.delete x).next = update (update h.next a (some b)) x none := by
  unfold delete
  rw [hb, ha]

theorem delete_prev : (h.delete x).prev = update (update h.prev b (some a)) x none := by
  unfold delete
  rw [hb, ha]

theorem delete_crashed : (h.delete x).crashed = h.crashed := by
  unfold delete
  rw [hb, ha]

end

/-- The ring after `x` left it. -/
theorem ring_delete (hr : h.Ring n (l1 ++ x :: l2)) (hnd : (n :: (l1 ++ x :: l2)).Nodup) :
    (h.delete x).Ring n (l1 ++ l2) := by
  obtain ⟨a, b, c, d, hc, hd, hax, hxb, hleft, hright⟩ := ring_around hr
  have hperm : (n :: (l1 ++ x :: l2)).Perm (x :: n :: (l1 ++ l2)) :=
    (perm_middle.cons n).trans (Perm.swap x n _)
  rw [hperm.nodup_iff, nodup_cons] at hnd
  obtain ⟨hx, hnd⟩ := hnd
  obtain ⟨-, hxa, hxb', -⟩ := not_mem_sides hx hc hd
  have hsides : (c ++ [a]).IsChain (h.delete x).Link ∧ (b :: d).IsChain (h.delete x).Link := by
    refine sides_congr hnd hx hc hd (fun y hya hyx => ?_) (fun y hyb hyx => ?_) hleft hright
    · rw [delete_next hxb.1 hax.2, update_of_ne hyx, update_of_ne hya]
    · rw [delete_prev hxb.1 hax.2, update_of_ne hyx, update_of_ne hyb]
  rw [ring_cut hc hd]
  refine ⟨hsides.1, ⟨?_, ?_⟩, hsides.2⟩
  · rw [delete_next hxb.1 hax.2, update_of_ne hxa.symm, update_self]
  · rw [delete_prev hxb.1 hax.2, update_of_ne hxb'.symm, update_self]

/-- A removal clears the pointers of `x` and writes no pointer outside the ring. -/
theorem delete_frame (hr : h.Ring n (l1 ++ x :: l2)) {y : N}
    (hy : y ∉ n :: (l1 ++ l2)) (hyx : y ≠ x) :
    (h.delete x).next y = h.next y ∧ (h.delete x).prev y = h.prev y := by
  obtain ⟨a, b, c, d, hc, hd, hax, hxb, -, -⟩ := ring_around hr
  obtain ⟨-, hya, hyb, -⟩ := not_mem_sides hy hc hd
  rw [delete_next hxb.1 hax.2, delete_prev hxb.1 hax.2, update_of_ne hyx,
    update_of_ne hya, update_of_ne hyx, update_of_ne hyb]
  exact ⟨rfl, rfl⟩

end

end Heap

/-! ## The lists a heap holds -/

/-- `h` holds the lists `L` and nothing else. -/
structure Rings (h : Heap N) (L : NodeLists N) : Prop where
  ok : h.crashed = false
  ring : ∀ n l, L n = some l → h.Ring n l
  once : ∀ n, (L.at n).Nodup
  head : ∀ n x, x ∈ L.at n → L x = none
  uniq : ∀ n m x, x ∈ L.at n → x ∈ L.at m → n = m
  null : ∀ x, L.Free x → h.next x = none ∧ h.prev x = none

namespace NodeLists

variable {L : NodeLists N} {n m x : N} {l : List N}

theorem at_of_some (h : L n = some l) : L.at n = l := by
  unfold NodeLists.at
  rw [h, getD_some]

theorem at_of_none (h : L n = none) : L.at n = [] := by
  unfold NodeLists.at
  rw [h, getD_none]

theorem some_of_mem (h : x ∈ L.at n) : L n = some (L.at n) := by
  cases hn : L n with
  | none =>
    rw [at_of_none hn] at h
    exact absurd h not_mem_nil
  | some l => rw [at_of_some hn]

theorem some_of_ne_none (h : L n ≠ none) : L n = some (L.at n) := by
  obtain ⟨l, hl⟩ := ne_none_iff_exists'.mp h
  rw [at_of_some hl, hl]

variable [DecidableEq N]

theorem at_update_self (v : Option (List N)) : NodeLists.at (update L n v) n = v.getD [] := by
  unfold NodeLists.at
  rw [update_self]

theorem at_update_of_ne (h : m ≠ n) (v : Option (List N)) :
    NodeLists.at (update L n v) m = L.at m := by
  unfold NodeLists.at
  rw [update_of_ne h]

end NodeLists

namespace Rings

variable {h h' : Heap N} {L : NodeLists N} {n m x a : N} {l l' l1 l2 : List N}

section
variable (hR : Rings h L) (hn : L n = some l)
include hR hn

theorem head_not_mem (m : N) : n ∉ L.at m := by
  intro hm
  simp [hR.head m n hm] at hn

theorem isList : h.IsList n l := by
  refine ⟨hR.ring n l hn, ?_⟩
  have := hR.head_not_mem hn n
  rwa [NodeLists.at_of_some hn] at this

theorem nodup_head : (n :: l).Nodup := by
  have hat := NodeLists.at_of_some hn
  refine nodup_cons.mpr ⟨?_, ?_⟩ <;> rw [← hat]
  · exact hR.head_not_mem hn n
  · exact hR.once n

end

variable [DecidableEq N]

/-- **The frame rule**: give the list of `n` the nodes `l'`, where `h'` has a ring for them, or give
the empty list up; the nodes that leave the list get null pointers, the ones that join were free,
and no other pointer changes. -/
theorem replace (hR : Rings h L) (hout : ∀ m, n ∉ L.at m) (hok : h'.crashed = false) {o : Option (List N)}
    (hring : match o with
      | some l => l = l' ∧ h'.Ring n l'
      | none => [] = l' ∧ h'.next n = none ∧ h'.prev n = none)
    (hnd : l'.Nodup) (hself : n ∉ l')
    (hnew : ∀ y ∈ l', y ∈ L.at n ∨ L.Free y)
    (hgone : ∀ y ∈ L.at n, y ∉ l' → h'.next y = none ∧ h'.prev y = none)
    (hframe : ∀ y, y ≠ n → y ∉ L.at n → y ∉ l' → h'.next y = h.next y ∧ h'.prev y = h.prev y) :
    Rings h' (update L n o) := by
  have hself_at : NodeLists.at (update L n o) n = l' := by
    rw [NodeLists.at_update_self]
    cases o <;> exact hring.1
  -- a node of another list neither was in the list of `n` nor joins it
  have hother : ∀ m, m ≠ n → ∀ y ∈ L.at m, y ∉ L.at n ∧ y ∉ l' := by
    intro m hm y hy
    have hyn : y ∉ L.at n := fun hc => hm (hR.uniq m n y hy hc)
    refine ⟨hyn, fun hc => ?_⟩
    rcases hnew y hc with hin | hfree
    · exact hyn hin
    · exact hfree.2 m hy
  constructor
  · exact hok
  · intro m lm hm
    by_cases hmn : m = n
    · subst hmn
      rw [update_self] at hm
      rw [hm] at hring
      exact hring.1 ▸ hring.2
    rw [update_of_ne hmn] at hm
    refine Heap.ring_congr (fun y hy => ?_) (hR.ring m lm hm)
    rcases hy with rfl | hy
    · refine hframe y hmn (hR.head_not_mem hm n) fun hc => ?_
      rcases hnew y hc with hin | hfree
      · exact hR.head_not_mem hm n hin
      · simp [hfree.1] at hm
    · rw [← NodeLists.at_of_some hm] at hy
      exact hframe y (fun hc => hout m (hc ▸ hy)) (hother m hmn y hy).1 (hother m hmn y hy).2
  · intro m
    by_cases hmn : m = n
    · rwa [hmn, hself_at]
    · rw [NodeLists.at_update_of_ne hmn]
      exact hR.once m
  · intro m y hy
    have hyn : y ≠ n := by
      rintro rfl
      by_cases hmn : m = y
      · rw [hmn, hself_at] at hy
        exact hself hy
      · rw [NodeLists.at_update_of_ne hmn] at hy
        exact hout m hy
    rw [update_of_ne hyn]
    by_cases hmn : m = n
    · rw [hmn, hself_at] at hy
      rcases hnew y hy with hin | hfree
      · exact hR.head n y hin
      · exact hfree.1
    · rw [NodeLists.at_update_of_ne hmn] at hy
      exact hR.head m y hy
  · intro m m' y hm hm'
    by_cases hmn : m = n <;> by_cases hmn' : m' = n
    · rw [hmn, hmn']
    · rw [hmn, hself_at] at hm
      rw [NodeLists.at_update_of_ne hmn'] at hm'
      exact absurd hm (hother m' hmn' y hm').2
    · rw [NodeLists.at_update_of_ne hmn] at hm
      rw [hmn', hself_at] at hm'
      exact absurd hm' (hother m hmn y hm).2
    · rw [NodeLists.at_update_of_ne hmn] at hm
      rw [NodeLists.at_update_of_ne hmn'] at hm'
      exact hR.uniq m m' y hm hm'
  intro y hy
  by_cases hyn : y = n
  · subst hyn
    rw [show o = none by rw [← hy.1, update_self]] at hring
    exact hring.2
  have hyl : y ∉ l' := by
    have := hy.2 n
    rwa [hself_at] at this
  by_cases hin : y ∈ L.at n
  · exact hgone y hin hyl
  have hfree : L.Free y := by
    refine ⟨?_, fun m hm => ?_⟩
    · have := hy.1
      rwa [update_of_ne hyn] at this
    by_cases hmn : m = n
    · exact hin (hmn ▸ hm)
    · have := hy.2 m
      rw [NodeLists.at_update_of_ne hmn] at this
      exact this hm
  obtain ⟨hnext, hprev⟩ := hframe y hyn hin hyl
  rw [hnext, hprev]
  exact hR.null y hfree

/-- Insertion after `a`, the last node of `n :: l1`. -/
theorem add (hR : Rings h L) (hn : L n = some (l1 ++ l2)) (ha : (n :: l1).getLast? = some a)
    (hx : L.Free x) : Rings (h.add a x) (update L n (some (l1 ++ x :: l2))) := by
  have hat := NodeLists.at_of_some hn
  have hr := hR.ring n _ hn
  have hnd := hR.nodup_head hn
  have hxl : x ∉ n :: (l1 ++ l2) := by
    rw [mem_cons, not_or, ← hat]
    refine ⟨?_, hx.2 n⟩
    rintro rfl
    simp [hx.1] at hn
  obtain ⟨b, -, -, -, -, hab, -, -⟩ := Heap.ring_cut_at hr ha
  have hperm : (l1 ++ x :: l2).Perm (x :: (l1 ++ l2)) := perm_middle
  refine hR.replace (hR.head_not_mem hn) ?_ ⟨rfl, Heap.ring_add hr hnd ha hxl⟩ ?_ ?_ ?_ ?_ ?_
  · rw [Heap.add_crashed hab.1]
    exact hR.ok
  · rw [hperm.nodup_iff, nodup_cons]
    exact ⟨fun hc => hxl (mem_cons_of_mem n hc), (nodup_cons.mp hnd).2⟩
  · rw [hperm.mem_iff, mem_cons, not_or]
    exact ⟨fun hc => hxl (hc ▸ mem_cons_self), (nodup_cons.mp hnd).1⟩
  · intro y hy
    rw [hperm.mem_iff, mem_cons] at hy
    rw [hat]
    rcases hy with rfl | hy
    · exact .inr hx
    · exact .inl hy
  · intro y hy hy'
    rw [hperm.mem_iff, mem_cons, not_or] at hy'
    rw [hat] at hy
    exact absurd hy hy'.2
  · intro y hyn _ hyl
    exact Heap.add_frame hr ha (by rw [mem_cons, not_or]; exact ⟨hyn, hyl⟩)

theorem add_head (hR : Rings h L) (hn : L n = some l) (hx : L.Free x) :
    Rings (h.add n x) (update L n (some (x :: l))) := by
  have hn' : L n = some ([] ++ l) := hn
  exact hR.add hn' rfl hx

theorem tailInsert (hR : Rings h L) (hn : L n = some l) (hx : L.Free x) :
    Rings (h.tailInsert n x) (update L n (some (l ++ [x]))) := by
  obtain ⟨a, ha⟩ : ∃ a, (n :: l).getLast? = some a :=
    ⟨_, getLast?_eq_some_getLast (cons_ne_nil n l)⟩
  have hn' : L n = some (l ++ []) := by rw [append_nil, hn]
  obtain ⟨b, c, d, hc, hd, hab, -, -⟩ := Heap.ring_cut_at (hR.ring n _ hn') ha
  have hbn : n = b := (cons.inj hd).1
  have hins : h.tailInsert n x = h.add a x := by
    unfold Heap.tailInsert
    rw [hbn, hab.2]
  rw [hins]
  exact hR.add hn' ha hx

omit [DecidableEq N] in
/-- No list at all. -/
theorem zero (hok : h.crashed = false) (hnull : ∀ n, h.next n = none ∧ h.prev n = none) :
    Rings h fun _ => none where
  ok := hok
  ring _ _ hn := by cases hn
  once _ := nodup_nil
  head _ _ hx := by cases hx
  uniq _ _ _ hx := by cases hx
  null x _ := hnull x

section
variable (hR : Rings h L)
include hR

/-- A fresh, empty list. -/
theorem init (hat : L.at n = []) (hout : ∀ m, n ∉ L.at m) :
    Rings (h.init n) (update L n (some [])) := by
  refine hR.replace hout ?_ ⟨rfl, ?_⟩ nodup_nil not_mem_nil ?_ ?_ ?_
  · exact hR.ok
  · unfold Heap.Ring
    rw [nil_append, isChain_pair]
    exact ⟨update_self .., update_self ..⟩
  · intro y hy
    exact absurd hy not_mem_nil
  · intro y hy
    rw [hat] at hy
    exact absurd hy not_mem_nil
  · intro y hyn _ _
    exact ⟨update_of_ne hyn .., update_of_ne hyn ..⟩

theorem delete (hn : L n = some (l1 ++ x :: l2)) :
    Rings (h.delete x) (update L n (some (l1 ++ l2))) := by
  have hat := NodeLists.at_of_some hn
  have hr := hR.ring n _ hn
  have hnd := hR.nodup_head hn
  obtain ⟨a, b, -, -, -, -, hax, hxb, -, -⟩ := Heap.ring_around hr
  have hring := Heap.ring_delete hr hnd
  have hperm : (n :: (l1 ++ x :: l2)).Perm (x :: n :: (l1 ++ l2)) :=
    (perm_middle.cons n).trans (Perm.swap x n _)
  rw [hperm.nodup_iff, nodup_cons, nodup_cons] at hnd
  obtain ⟨-, hself, hnd'⟩ := hnd
  have hmem : ∀ y, y ∈ l1 ++ x :: l2 ↔ y = x ∨ y ∈ l1 ++ l2 := fun y => by
    rw [perm_middle.mem_iff, mem_cons]
  refine hR.replace (hR.head_not_mem hn) ?_ ⟨rfl, hring⟩ hnd' hself ?_ ?_ ?_
  · rw [Heap.delete_crashed hxb.1 hax.2]
    exact hR.ok
  · intro y hy
    rw [hat, hmem]
    exact .inl (.inr hy)
  · intro y hy hy'
    rw [hat, hmem] at hy
    obtain rfl := hy.resolve_right hy'
    rw [Heap.delete_next hxb.1 hax.2, Heap.delete_prev hxb.1 hax.2]
    exact ⟨update_self .., update_self ..⟩
  · intro y hyn hyl hyl'
    rw [hat, hmem, not_or] at hyl
    exact Heap.delete_frame hr (by rw [mem_cons, not_or]; exact ⟨hyn, hyl'⟩) hyl.1

/-- A node of the list of `n` is taken out of it. -/
theorem delete_mem (hx : x ∈ L.at n) : Rings (h.delete x) (update L n (some ((L.at n).erase x))) := by
  have hn := NodeLists.some_of_mem hx
  have hnd := hR.once n
  obtain ⟨l1, l2, hsplit⟩ := append_of_mem hx
  rw [hsplit] at hnd
  have hnot : x ∉ l1 := fun hc => (nodup_append.mp hnd).2.2 _ hc _ mem_cons_self rfl
  rw [hsplit, erase_append_right _ hnot, erase_cons_head]
  rw [hsplit] at hn
  exact hR.delete hn

/-- An empty list is given up: its head gets null pointers. -/
theorem forget (hat : L.at n = []) (hout : ∀ m, n ∉ L.at m)
    (hok : h'.crashed = false) (hself : h'.next n = none ∧ h'.prev n = none)
    (hframe : ∀ y, y ≠ n → h'.next y = h.next y ∧ h'.prev y = h.prev y) :
    Rings h' (update L n none) := by
  refine hR.replace hout hok ⟨rfl, hself⟩ nodup_nil not_mem_nil (fun _ hy => absurd hy not_mem_nil) (fun y hy => ?_)
    fun y hyn _ _ => hframe y hyn
  simp [hat] at hy

theorem clear (hat : L.at n = []) (hout : ∀ m, n ∉ L.at m) : Rings (h.clear n) (update L n none) :=
  hR.forget hat hout hR.ok ⟨update_self .., update_self ..⟩
    fun _ hy => ⟨update_of_ne hy .., update_of_ne hy ..⟩

/-- An empty list taken out of its own ring. -/
theorem delete_self (hn : L n = some []) : Rings (h.delete n) (update L n none) := by
  have hr := hR.ring n _ hn
  unfold Heap.Ring at hr
  rw [nil_append, isChain_pair] at hr
  refine hR.forget (NodeLists.at_of_some hn) (hR.head_not_mem hn) ?_ ?_ ?_
  · rw [Heap.delete_crashed hr.1 hr.2]
    exact hR.ok
  · rw [Heap.delete_next hr.1 hr.2, Heap.delete_prev hr.1 hr.2]
    exact ⟨update_self .., update_self ..⟩
  intro y hy
  rw [Heap.delete_next hr.1 hr.2, Heap.delete_prev hr.1 hr.2, update_of_ne hy,
    update_of_ne hy, update_of_ne hy, update_of_ne hy]
  exact ⟨rfl, rfl⟩

end

/-! ## What the pointers of a head tell -/

omit [DecidableEq N] in
theorem next_head (hR : Rings h L) (hn : L n = some (x :: l)) : h.next n = some x := by
  have hr := hR.ring n _ hn
  unfold Heap.Ring at hr
  rw [cons_append, isChain_cons_cons] at hr
  exact hr.1.1

omit [DecidableEq N] in
/-- After a node of a list comes another one of it, or the head. -/
theorem next_mem (hR : Rings h L) (hx : x ∈ L.at n) :
    ∃ y, h.next x = some y ∧ (y = n ∨ (y ∈ L.at n ∧ y ≠ x)) := by
  obtain ⟨l1, l2, hl⟩ := append_of_mem hx
  have hring := hR.ring n _ (NodeLists.some_of_mem hx)
  rw [hl] at hring
  obtain ⟨-, b, -, d, -, hd, -, hxb, -, -⟩ := Heap.ring_around hring
  refine ⟨b, hxb.1, ?_⟩
  have hb : b ∈ l2 ++ [n] := hd ▸ mem_cons_self
  rw [mem_append, mem_singleton] at hb
  rcases hb with hb | hb
  · refine .inr ⟨hl ▸ mem_append_right l1 (mem_cons_of_mem x hb), ?_⟩
    rintro rfl
    have hnd := hR.once n
    rw [hl] at hnd
    exact (nodup_cons.mp (nodup_append.mp hnd).2.1).1 hb
  · exact .inl hb

omit [DecidableEq N] in
theorem next_nil (hR : Rings h L) (hn : L n = some []) : h.next n = some n := by
  have hr := hR.ring n _ hn
  unfold Heap.Ring at hr
  rw [nil_append, isChain_pair] at hr
  exact hr.1

omit [DecidableEq N] in
theorem next_ne_none (hR : Rings h L) (hn : L n = some l) : h.next n ≠ none := by
  cases l with
  | nil => rw [hR.next_nil hn]; exact some_ne_none n
  | cons x l => rw [hR.next_head hn]; exact some_ne_none x

theorem isEmpty_iff (hR : Rings h L) (hn : L n = some l) : h.isEmpty n = true ↔ l = [] := by
  unfold Heap.isEmpty
  rw [decide_eq_true_iff]
  cases l with
  | nil => exact iff_of_true (hR.next_nil hn) rfl
  | cons x l =>
    refine iff_of_false ?_ (cons_ne_nil x l)
    rw [hR.next_head hn, some.injEq]
    rintro rfl
    exact (nodup_cons.mp (hR.nodup_head hn)).1 mem_cons_self

end Rings

end LiteosM.Lib
