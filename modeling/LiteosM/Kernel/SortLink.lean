import LiteosM.Lib.Ring

/-!
# Insertion into a sort link

Model of `OsAddNode2SortLink` (`los_sortlink.c`) on the nodes of any sort link, a ring with a head of its
own. A node of the time of the first one is put behind the first one, whatever follows.

* `addNode2SortLink_spec`: behind which node each branch puts the new one;
* **`addNode2SortLink_last_iff`**: it is the last one that is not later, unless the first two have the same
  time.

The tasks and the software timers have a sort link each, and instantiate this with their own times
(`Sched.linkTime`, `Swtmr.linkTime`).
-/

namespace LiteosM.Kernel.SortLink

open LiteosM.Lib List

variable {N : Type*} [DecidableEq N]

/-- `OsAddNode2SortLink`; the loop looks at `fuel` nodes at most. It does not look for the head, whose time is what
lies behind it. -/
def addNode2SortLink (responseTime : N → Nat) (h : Heap N) (fuel : Nat) (head node : N) : Option (Heap N) :=
  if h.isEmpty head then some (h.add head node)
  else
    match h.next head with
    | some first =>
      if responseTime first > responseTime node then some (h.add head node)
      else if responseTime first = responseTime node then some (h.add first node)
      else (h.findBack (responseTime · ≤ responseTime node) fuel (h.prev head)).map (h.add · node)
    | none => none

variable {time : N → Nat} {h : Heap N} {fuel : Nat} {head node : N} {l : List N}

/-- In any heap, the new node is put behind the head, behind its successor or behind a node found from the tail. -/
theorem addNode2SortLink_cases {h' : Heap N} (heq : addNode2SortLink time h fuel head node = some h') :
    ∃ a, h' = h.add a node ∧ (a = head ∨ h.next head = some a ∨
      h.findBack (time · ≤ time node) fuel (h.prev head) = some a) := by
  unfold addNode2SortLink at heq
  split at heq
  · exact ⟨head, (Option.some.inj heq).symm, .inl rfl⟩
  split at heq
  · rename_i first hfirst
    split_ifs at heq
    · exact ⟨head, (Option.some.inj heq).symm, .inl rfl⟩
    · exact ⟨first, (Option.some.inj heq).symm, .inr (.inl hfirst)⟩
    · obtain ⟨a, ha, hadd⟩ := Option.map_eq_some_iff.mp heq
      exact ⟨a, hadd.symm, .inr (.inr ha)⟩
  · cases heq

theorem addNode2SortLink_spec (hr : h.Ring head l) (hhead : head ∉ l) (hlen : l.length ≤ fuel) :
    ∃ l1 a l2, l = l1 ++ l2 ∧ (head :: l1).getLast? = some a ∧
      addNode2SortLink time h fuel head node = some (h.add a node) ∧
      (l1 = [] ∧ (∀ n ∈ l.head?, time node < time n) ∨ l1 = [a] ∧ time a = time node ∨
        (∀ n ∈ l.head?, time n < time node) ∧ (∃ l0, l1 = l0 ++ [a]) ∧ time a ≤ time node ∧
          ∀ n ∈ l2, time node < time n) := by
  unfold addNode2SortLink Heap.isEmpty
  cases l with
  | nil =>
    rw [Heap.Ring, nil_append, isChain_pair] at hr
    exact ⟨[], head, [], rfl, rfl, if_pos (decide_eq_true hr.1), .inl ⟨rfl, by simp⟩⟩
  | cons first rest =>
    have hnext : h.next head = some first := by
      rw [Heap.Ring, cons_append, isChain_cons_cons] at hr
      exact hr.1.1
    rw [if_neg, hnext]
    · dsimp only
      split_ifs with hlate heq
      · exact ⟨[], head, _, rfl, rfl, rfl, .inl ⟨rfl, by simpa using hlate⟩⟩
      · exact ⟨[first], first, rest, rfl, rfl, rfl, .inr (.inl ⟨rfl, heq⟩)⟩
      have hlt : time first < time node := by omega
      have hr' : h.Ring head (first :: rest ++ []) := by rwa [append_nil]
      obtain ⟨l1, a, l2, hsplit, ha, hlater, hfind⟩ := Heap.findBack_ring (p := (time · ≤ time node)) hr'
        (nil_append [head]) ⟨first, mem_cons_self, decide_eq_true hlt.le⟩ hlen
      rw [hfind]
      refine ⟨l1 ++ [a], a, l2, by rw [hsplit, append_assoc, singleton_append], ?_, rfl,
        .inr (.inr ⟨by simpa using hlt, ⟨l1, rfl⟩, of_decide_eq_true ha, fun n hn => ?_⟩)⟩
      · rw [← cons_append, getLast?_concat]
      · exact Nat.lt_of_not_le (of_decide_eq_false (hlater n hn))
    · rw [hnext, decide_eq_true_eq, Option.some.injEq]
      exact fun hc => hhead (hc ▸ mem_cons_self)

/-- The new node is behind the last one that is not later iff the first two do not both have its time. -/
theorem addNode2SortLink_last_iff (hr : h.Ring head l) (hnd : (head :: l).Nodup) (hnode : node ∉ head :: l)
    (hsorted : l.Pairwise (time · ≤ time ·)) (hlen : l.length ≤ fuel) :
    ∃ h', addNode2SortLink time h fuel head node = some h' ∧
      (h'.IsList head (l.takeWhile (time · ≤ time node) ++ node :: l.dropWhile (time · ≤ time node)) ↔
        ∀ a b rest, l = a :: b :: rest → time a = time node → time b ≠ time node) := by
  have hhead := (nodup_cons.mp hnd).1
  obtain ⟨l1, a, l2, rfl, ha, hadd, hplace⟩ := @addNode2SortLink_spec N _ time h fuel head node _ hr hhead hlen
  refine ⟨_, hadd, ?_⟩
  have hlist : (h.add a node).IsList head (l1 ++ node :: l2) := by
    refine ⟨Heap.ring_add hr hnd ha hnode, ?_⟩
    simp only [mem_append, mem_cons, not_or] at hhead hnode ⊢
    exact ⟨hhead.1, Ne.symm hnode.1, hhead.2⟩
  -- the cut is right when the nodes before it are not later, and the first one after it is
  have hcut (h1 : ∀ n ∈ l1, time n ≤ time node) (h2 : ∀ n ∈ l2.head?, time node < time n) :
      (l1 ++ l2).takeWhile (time · ≤ time node) ++ node :: (l1 ++ l2).dropWhile (time · ≤ time node) =
        l1 ++ node :: l2 := by
    rw [takeWhile_append_of_pos fun n hn => decide_eq_true (h1 n hn),
      dropWhile_append_of_pos fun n hn => decide_eq_true (h1 n hn)]
    cases l2 with
    | nil => simp
    | cons b l2 =>
      have hb : ¬time b ≤ time node := Nat.not_le.mpr (h2 b rfl)
      simp [hb]
  rcases hplace with ⟨rfl, hlate⟩ | ⟨rfl, heq⟩ | ⟨hfirst, ⟨l0, rfl⟩, hle, hlater⟩
  · rw [hcut (by simp) hlate]
    refine iff_of_true hlist ?_
    rintro b c rest rfl heq
    exact absurd heq (Nat.ne_of_gt (hlate b rfl))
  · refine ⟨fun hl b c rest hcons _ hc => ?_, fun hne => ?_⟩
    · cases hcons
      have heq' := hlist.unique hl
      simp [heq, hc] at heq'
      exact hnode (by simp [heq'.1])
    rw [hcut (by simp [heq]) fun n hn => ?_]
    · exact hlist
    obtain ⟨rest, rfl⟩ := head?_eq_some_iff.mp hn
    have := hne a n rest rfl heq
    have := rel_of_pairwise_cons hsorted mem_cons_self
    omega
  rw [hcut (fun n hn => ?_) fun n hn => hlater n (mem_of_mem_head? hn)]
  · refine iff_of_true hlist fun b c rest hl heq => ?_
    rw [hl] at hfirst
    exact absurd heq (Nat.ne_of_lt (hfirst b rfl))
  rcases mem_append.mp hn with hn | hn
  · have := (pairwise_append.mp (pairwise_append.mp hsorted).1).2.2 n hn a mem_cons_self
    omega
  · rwa [mem_singleton.mp hn]

/-- A heap with the ring of `0` through 1 and 2. -/
def threeNodes : Heap Nat := ⟨fun n => some ((n + 1) % 3), fun n => some ((n + 2) % 3), false⟩

/-- A node of the time 4 is put between nodes of the times 3 and 5. -/
theorem addNode2SortLink_last_between :
    ∃ h', addNode2SortLink (fun n => [0, 3, 5, 4].getD n 0) threeNodes 2 0 3 = some h' ∧ h'.IsList 0 [1, 3, 2] := by
  obtain ⟨h', hadd, hiff⟩ := @addNode2SortLink_last_iff Nat _ (fun n => [0, 3, 5, 4].getD n 0) threeNodes 2 0 3 [1, 2]
    (by simp [Heap.Ring, Heap.Link, threeNodes]) (by decide) (by decide) (by decide) (by decide)
  exact ⟨h', hadd, hiff.mpr fun a b rest hl => by cases hl; decide⟩

/-- The third node of one time comes before the second. -/
theorem addNode2SortLink_not_last :
    (addNode2SortLink (fun _ => 7) threeNodes 2 0 3).any fun h' =>
      (h'.next 0, h'.next 1, h'.next 3, h'.next 2) = (some 1, some 3, some 2, some 0) := by
  decide

end LiteosM.Kernel.SortLink
