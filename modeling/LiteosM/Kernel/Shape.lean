import LiteosM.Kernel.System

/-!
# Where the nodes of the tasks are

The kernel's lists, seen from the tasks: `pl t` is the list the `pendList` node of task `t` is in,
if it is in one, and `sl t` says whether its `sortList` node is in the sort link. `Shape` says that
the pointers in the heap are those of lists `L` that contain exactly these nodes.

Linking and unlinking a node is an update of `pl` or `sl` (`Shape.linkHead`, `Shape.linkTail`,
`Shape.unlink`, `Shape.linkSort`, `Shape.unlinkSort`). None of them moves another task's nodes
(`Upto`).

* `Shape.link`, `Shape.unlink` and their cases: the operations of `Lib.Ring`, at the kernel's nodes;
* `Shape.rehead`: a head is initialised or forgotten while its list is empty;
* `Shape.pendList_free`, `Shape.sortList_free`: the pointers of a node that is in no list.

What the control blocks say is not looked at here (`Kernel.TaskOk`, `Kernel.Placed`).
-/

namespace LiteosM.Kernel

open LiteosM.Lib Function List Option NodeLists Node

/-- Not a node of task `t`. -/
def Node.notOf (t : Nat) (x : Node) : Bool := x ≠ .pendList t && x ≠ .sortList t

/-- The heads that are there from the start. -/
def Node.isFixed : Node → Bool
  | .priQueue p => p < priorityQueueNum
  | .losFreeTask | .taskRecycleList | .taskSortLink => true
  | _ => false

/-- The heap holds the lists `L`, with the tasks' nodes where `pl` and `sl` say. -/
structure Shape (h : Heap Node) (L : NodeLists Node) (pl : Nat → Option Node) (sl : Nat → Bool) :
    Prop where
  rings : Rings h L
  pend : ∀ t n, .pendList t ∈ L.at n ↔ pl t = some n
  sort : ∀ t n, .sortList t ∈ L.at n ↔ n = .taskSortLink ∧ sl t = true
  kind : ∀ n x, x ∈ L.at n → ∃ t < taskMaxNum, x = .pendList t ∨ x = .sortList t
  head : ∀ n, n.isFixed = true → L n ≠ none
  node : ∀ n, L n ≠ none → n.isHead = true

/-- The same heads, and the same lists once the nodes of task `t` are left out. -/
structure Upto (t : Nat) (L L' : NodeLists Node) : Prop where
  heads : ∀ n, L' n = none ↔ L n = none
  rest : ∀ n, (L'.at n).filter (notOf t) = (L.at n).filter (notOf t)

namespace Upto

variable {t : Nat} {L L' L'' : NodeLists Node}

theorem refl (t : Nat) (L : NodeLists Node) : Upto t L L := ⟨fun _ => Iff.rfl, fun _ => rfl⟩

theorem trans (h : Upto t L L') (h' : Upto t L' L'') : Upto t L L'' :=
  ⟨fun n => (h'.heads n).trans (h.heads n), fun n => (h'.rest n).trans (h.rest n)⟩

theorem ne_none (h : Upto t L L') {n : Node} (hn : L n ≠ none) : L' n ≠ none :=
  fun hc => hn ((h.heads n).mp hc)

/-- One list changes, by nodes of the task only. -/
theorem update {n : Node} {l l' : List Node} (hn : L n = some l)
    (hl : l'.filter (notOf t) = l.filter (notOf t)) : Upto t L (update L n (some l')) := by
  constructor <;> intro m
  · by_cases hm : m = n
    · rw [hm, update_self, hn]
      exact iff_of_false (some_ne_none _) (some_ne_none _)
    · rw [update_of_ne hm]
  · by_cases hm : m = n
    · rw [hm, at_update_self, getD_some, at_of_some hn, hl]
    · rw [at_update_of_ne hm]

/-- A node of the task is taken out of a list. -/
theorem erase {n x : Node} (hn : L n ≠ none) (hnd : (L.at n).Nodup) (hx : x.notOf t = false) :
    Upto t L (Function.update L n (some ((L.at n).erase x))) := by
  refine update (some_of_ne_none hn) ?_
  rw [hnd.erase_eq_filter, List.filter_filter]
  refine filter_congr fun y _ => ?_
  by_cases hy : y = x
  · simp [hy, hx]
  · simp [hy]

end Upto

@[simp] theorem notOf_pendList (t u : Nat) : (pendList u).notOf t = decide (u ≠ t) := by
  unfold notOf
  simp

@[simp] theorem notOf_sortList (t u : Nat) : (sortList u).notOf t = decide (u ≠ t) := by
  unfold notOf
  simp

namespace Shape

variable {h : Heap Node} {L : NodeLists Node} {pl : Nat → Option Node} {sl : Nat → Bool}
  {t u : Nat} {n : Node} {l : List Node}

section
variable (hS : Shape h L pl sl)
include hS

theorem some_of_pl (ht : pl t = some n) : L n = some (L.at n) :=
  some_of_mem ((hS.pend t n).mpr ht)

theorem pendList_not_head (t : Nat) : L (.pendList t) = none := by
  by_contra hne
  exact absurd (hS.node _ hne) Bool.false_ne_true

theorem sortList_not_head (t : Nat) : L (.sortList t) = none := by
  by_contra hne
  exact absurd (hS.node _ hne) Bool.false_ne_true

theorem pendList_free (ht : pl t = none) : L.Free (.pendList t) := by
  refine ⟨hS.pendList_not_head t, fun n hn => ?_⟩
  simp [hS.pend, ht] at hn

theorem sortList_free (ht : sl t = false) : L.Free (.sortList t) := by
  refine ⟨hS.sortList_not_head t, fun n hn => ?_⟩
  rw [hS.sort, ht] at hn
  exact Bool.false_ne_true hn.2

theorem lt_of_pl (ht : pl t = some n) : t < taskMaxNum := by
  obtain ⟨u, hu, hx | hx⟩ := hS.kind n _ ((hS.pend t n).mpr ht)
  · rw [pendList.injEq] at hx
    exact hx ▸ hu
  · cases hx

theorem lt_of_sl (ht : sl t = true) : t < taskMaxNum := by
  obtain ⟨u, hu, hx | hx⟩ := hS.kind _ _ ((hS.sort t .taskSortLink).mpr ⟨rfl, ht⟩)
  · cases hx
  · rw [sortList.injEq] at hx
    exact hx ▸ hu

/-- A list head is in no list. -/
theorem head_not_mem (hn : n.isHead = true) (m : Node) : n ∉ L.at m := by
  intro hm
  obtain ⟨u, -, rfl | rfl⟩ := hS.kind m n hm
  · exact Bool.false_ne_true hn
  · exact Bool.false_ne_true hn

/-- A head that is no list now has null pointers. -/
theorem null (hn : n.isHead = true) (hL : L n = none) : h.next n = none ∧ h.prev n = none :=
  hS.rings.null n ⟨hL, hS.head_not_mem hn⟩

end

/-! ## Linking -/

section
variable (hS : Shape h L pl sl)
include hS

section
variable (hn : L n = some l) (ht : t < taskMaxNum)
include hn ht

/-- A new arrangement of one list: the nodes of other tasks stay, and those of task `t` are where
`pl'` and `sl'` say. -/
theorem relist {h' : Heap Node} {l' : List Node} {pl' : Nat → Option Node} {sl' : Nat → Bool}
    (hR : Rings h' (update L n (some l'))) (hl : ∀ x, x.notOf t = true → (x ∈ l' ↔ x ∈ l))
    (hpl : ∀ u, u ≠ t → pl' u = pl u) (hsl : ∀ u, u ≠ t → sl' u = sl u)
    (hpt : ∀ m, .pendList t ∈ NodeLists.at (update L n (some l')) m ↔ pl' t = some m)
    (hst : ∀ m, .sortList t ∈ NodeLists.at (update L n (some l')) m ↔
      m = .taskSortLink ∧ sl' t = true) : Shape h' (update L n (some l')) pl' sl' := by
  have hat := at_of_some hn
  have hmem : ∀ m x, x.notOf t = true →
      (x ∈ NodeLists.at (update L n (some l')) m ↔ x ∈ L.at m) := by
    intro m x hx
    by_cases hm : m = n
    · rw [hm, at_update_self, hat]
      exact hl x hx
    · rw [at_update_of_ne hm]
  constructor
  · exact hR
  · intro u m
    by_cases hu : u = t
    · rw [hu]
      exact hpt m
    · rw [hmem m _ (by simp [hu]), hpl u hu]
      exact hS.pend u m
  · intro u m
    by_cases hu : u = t
    · rw [hu]
      exact hst m
    · rw [hmem m _ (by simp [hu]), hsl u hu]
      exact hS.sort u m
  · intro m x hx
    by_cases hxt : x.notOf t = true
    · exact hS.kind m x ((hmem m x hxt).mp hx)
    unfold notOf at hxt
    simp only [ne_eq, decide_not, Bool.and_eq_true, Bool.not_eq_eq_eq_not, Bool.not_true,
      decide_eq_false_iff_not, not_and_or, not_not] at hxt
    exact ⟨t, ht, hxt⟩
  · intro m hm
    by_cases hmn : m = n
    · rw [hmn, update_self]
      exact some_ne_none _
    · rw [update_of_ne hmn]
      exact hS.head m hm
  intro m hm
  by_cases hmn : m = n
  · rw [hmn]
    exact hS.node n (hn ▸ some_ne_none _)
  · rw [update_of_ne hmn] at hm
    exact hS.node m hm

/-- The `pendList` node of a task that is in no list goes into the list of `n`. -/
theorem link {h' : Heap Node} {l' : List Node} (hpl : pl t = none)
    (hR : Rings h' (update L n (some l'))) (hl : ∀ x, x ∈ l' ↔ x = .pendList t ∨ x ∈ l) :
    Shape h' (update L n (some l')) (update pl t (some n)) sl := by
  have hat := at_of_some hn
  refine hS.relist hn ht hR ?_ (fun u hu => update_of_ne hu _ _) (fun _ _ => rfl) ?_ ?_
  · intro x hx
    rw [hl]
    refine or_iff_right ?_
    rintro rfl
    simp at hx
  · intro m
    by_cases hm : m = n
    · rw [hm, at_update_self, getD_some, hl]
      simp
    · rw [at_update_of_ne hm, hS.pend, hpl]
      simp [Ne.symm hm]
  intro m
  by_cases hm : m = n
  · rw [hm, at_update_self, getD_some, hl, ← hat, hS.sort]
    simp
  · rw [at_update_of_ne hm]
    exact hS.sort t m

theorem linkHead (hpl : pl t = none) :
    Shape (h.add n (.pendList t)) (update L n (some (.pendList t :: l)))
      (update pl t (some n)) sl :=
  hS.link hn ht hpl (hS.rings.add_head hn (hS.pendList_free hpl)) fun _ => mem_cons

theorem linkTail (hpl : pl t = none) :
    Shape (h.tailInsert n (.pendList t)) (update L n (some (l ++ [.pendList t])))
      (update pl t (some n)) sl := by
  refine hS.link hn ht hpl (hS.rings.tailInsert hn (hS.pendList_free hpl)) fun x => ?_
  rw [mem_append, mem_singleton]
  exact or_comm

end

/-- The `sortList` node goes into the sort link, after `a`. -/
theorem linkSort {a : Node} {l1 l2 : List Node}
    (hn : L .taskSortLink = some (l1 ++ l2)) (ha : (.taskSortLink :: l1).getLast? = some a)
    (ht : t < taskMaxNum) (hsl : sl t = false) : Shape (h.add a (.sortList t))
      (update L .taskSortLink (some (l1 ++ .sortList t :: l2))) pl (update sl t true) := by
  have hat := at_of_some hn
  have hmem : ∀ x, x ∈ l1 ++ .sortList t :: l2 ↔ x = .sortList t ∨ x ∈ l1 ++ l2 := fun x => by
    rw [perm_middle.mem_iff, mem_cons]
  refine hS.relist hn ht (hS.rings.add hn ha (hS.sortList_free hsl)) ?_ (fun _ _ => rfl)
    (fun u hu => update_of_ne hu _ _) ?_ ?_
  · intro x hx
    rw [hmem]
    refine or_iff_right ?_
    rintro rfl
    simp at hx
  · intro m
    by_cases hm : m = .taskSortLink
    · rw [hm, at_update_self, getD_some, hmem, ← hat, hS.pend]
      simp
    · rw [at_update_of_ne hm]
      exact hS.pend t m
  intro m
  by_cases hm : m = .taskSortLink
  · rw [hm, at_update_self]
    simp
  · rw [at_update_of_ne hm, hS.sort]
    simp [hm]

end

/-! ## Unlinking -/

theorem unlink (hS : Shape h L pl sl) (hpl : pl t = some n) :
    Shape (h.delete (.pendList t)) (update L n (some ((L.at n).erase (.pendList t))))
      (update pl t none) sl := by
  have hR := hS.rings.delete_mem ((hS.pend t n).mpr hpl)
  refine hS.relist (hS.some_of_pl hpl) (hS.lt_of_pl hpl) hR ?_
    (fun u hu => update_of_ne hu _ _) (fun _ _ => rfl) ?_ ?_
  · intro x hx
    refine mem_erase_of_ne ?_
    rintro rfl
    simp at hx
  · intro m
    rw [update_self]
    by_cases hm : m = n
    · rw [hm, at_update_self]
      simp only [reduceCtorEq, iff_false]
      exact (hS.rings.once _).not_mem_erase
    · rw [at_update_of_ne hm, hS.pend, hpl]
      simp [Ne.symm hm]
  intro m
  by_cases hm : m = n
  · rw [hm, at_update_self, getD_some, mem_erase_of_ne (by simp), hS.sort]
  · rw [at_update_of_ne hm]
    exact hS.sort t m

theorem unlinkSort (hS : Shape h L pl sl) (hsl : sl t = true) : Shape (h.delete (.sortList t))
      (update L .taskSortLink (some ((L.at .taskSortLink).erase (.sortList t)))) pl
      (update sl t false) := by
  have hin := (hS.sort t .taskSortLink).mpr ⟨rfl, hsl⟩
  refine hS.relist (some_of_mem hin) (hS.lt_of_sl hsl) (hS.rings.delete_mem hin) ?_
    (fun _ _ => rfl) (fun u hu => update_of_ne hu _ _) ?_ ?_
  · intro x hx
    refine mem_erase_of_ne ?_
    rintro rfl
    simp at hx
  · intro m
    by_cases hm : m = .taskSortLink
    · rw [hm, at_update_self, getD_some, mem_erase_of_ne (by simp), hS.pend]
    · rw [at_update_of_ne hm]
      exact hS.pend t m
  intro m
  rw [update_self]
  by_cases hm : m = .taskSortLink
  · rw [hm]
    simp only [Bool.false_eq_true, and_false, iff_false]
    exact (hS.rings.once _).not_mem_erase
  · rw [at_update_of_ne hm, hS.sort]
    simp [hm]

/-! ## Heads -/

theorem at_rehead {x : Option (List Node)} (hat : L.at n = []) (hx : x.getD [] = []) (m : Node) :
    NodeLists.at (update L n x) m = L.at m := by
  by_cases hm : m = n
  · rw [hm, at_update_self, hat, hx]
  · rw [at_update_of_ne hm]

/-- A list that holds no node appears or disappears. -/
theorem rehead {h' : Heap Node} {x : Option (List Node)} (hS : Shape h L pl sl)
    (hn : n.isHead = true) (hfixed : n.isFixed = false) (hat : L.at n = []) (hx : x.getD [] = [])
    (hR : Rings h' (update L n x)) : Shape h' (update L n x) pl sl := by
  have hlists := at_rehead hat hx
  refine ⟨hR, fun t m => ?_, fun t m => ?_, fun m y => ?_, fun m hm => ?_, fun m hm => ?_⟩
  · rw [hlists]
    exact hS.pend t m
  · rw [hlists]
    exact hS.sort t m
  · rw [hlists]
    exact hS.kind m y
  · have hmn : m ≠ n := by
      rintro rfl
      simp [hfixed] at hm
    rw [update_of_ne hmn]
    exact hS.head m hm
  by_cases hmn : m = n
  · rwa [hmn]
  · rw [update_of_ne hmn] at hm
    exact hS.node m hm

/-- Clearing the pointers of a node that is in no list changes nothing. -/
theorem clear_free (hS : Shape h L pl sl) {x : Node} (hx : L.Free x) : Shape (h.clear x) L pl sl := by
  have hR := hS.rings.clear (at_of_none hx.1) hx.2
  rw [← hx.1, update_eq_self] at hR
  exact { hS with rings := hR }

/-! ## The lists of the others -/

theorem upto_linkHead (hn : L n = some l) : Upto t L (update L n (some (.pendList t :: l))) :=
  Upto.update hn (by simp)

theorem upto_linkTail (hn : L n = some l) : Upto t L (update L n (some (l ++ [.pendList t]))) :=
  Upto.update hn (by simp)

theorem upto_linkSort {l1 l2 : List Node} (hn : L .taskSortLink = some (l1 ++ l2)) :
    Upto t L (update L .taskSortLink (some (l1 ++ .sortList t :: l2))) :=
  Upto.update hn (by simp)

theorem upto_unlink (hS : Shape h L pl sl) (hpl : pl t = some n) :
    Upto t L (update L n (some ((L.at n).erase (.pendList t)))) := by
  refine Upto.erase ?_ (hS.rings.once n) (by simp)
  rw [hS.some_of_pl hpl]
  exact some_ne_none _

theorem upto_unlinkSort (hS : Shape h L pl sl) (t : Nat) : Upto t L
      (update L .taskSortLink (some ((L.at .taskSortLink).erase (.sortList t)))) :=
  Upto.erase (hS.head _ rfl) (hS.rings.once _) (by simp)

end Shape

end LiteosM.Kernel
