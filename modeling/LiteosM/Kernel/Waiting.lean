import LiteosM.Kernel.Await
import LiteosM.Kernel.ObjectTables

/-!
# The tasks that wait for an object

`Sched.waiting` is the content of a wait list, read off the heap. It is the list that the invariant speaks
of, and a task that is taken out of it does not wait any more.

* `Waiters.waiting_eq`: the walk over the heap gives the list of the invariant;
* `Queued.run_told`: no piece of code changes the timeout bit of a task that waits, or what it waits for,
  unless it deletes the task.
-/

namespace LiteosM.Kernel

open LiteosM.Lib Function List Sched

/-- The task a node of a wait list belongs to. -/
def Node.task? : Node → Option Nat
  | .pendList t => some t
  | _ => none

/-- The tasks in a wait list, from its head on. -/
def Sched.waiting (s : Sched) (n : Node) : List Nat :=
  (s.heap.walk n (taskMaxNum + 1) (s.heap.next n)).filterMap Node.task?

theorem Waiters.waiting_eq {s : Sched} {n : Node} {ts : List Nat} (h : Waiters s n ts)
    (hlt : ∀ t ∈ ts, t < taskMaxNum) : s.waiting n = ts := by
  have hlen : ts.length ≤ taskMaxNum := by
    have hsub : ts ⊆ List.range taskMaxNum := fun t ht => mem_range.mpr (hlt t ht)
    have := (h.nodup.subperm hsub).length_le
    rwa [length_range] at this
  unfold waiting
  rw [Owns.walk h (by rwa [length_map])]
  rw [filterMap_map]
  exact filterMap_some

theorem State.mem_todo_push {k m : State} {l : List Sec} {c : Sec} (hc : c ∈ l)
    (hrun : m.runTask = k.runTask) : c ∈ (m.push l).todo k.runTask := by
  change c ∈ update m.todo m.runTask (l ++ m.todo m.runTask) k.runTask
  rw [hrun, update_self]
  exact mem_append_left _ hc

/-- A task that is woken does not wait. -/
theorem Sched.taskWake_pend (s : Sched) (t : Nat) : ((s.taskWake t).st t).pend = false := by
  have hsort : ∀ s : Sched, (s.deleteSortLink t).st t = s.st t := by
    intro s
    unfold deleteSortLink deleteNodeSortLink resetSchedResponseTime st
    split_ifs
    · rw [setTCB_self]
      rfl
    · rw [setTCB_self]
      rfl
    · rfl
  have hend : ((s.endWait t).st t).pend = false := by
    unfold endWait
    dsimp only
    split_ifs <;> unfold st
    · rw [setSt_self]
      refine (congrArg TaskStatus.pend (hsort _)).trans ?_
      rw [setSt_st]
    · rw [setSt_self]
  unfold taskWake
  dsimp only
  split_ifs
  · unfold taskEnQueue
    split_ifs
    · exact hend
    all_goals
      rw [setSt_st]
  · exact hend

section
variable {k : State} {v : View} {n : Node} {ts : List Nat} {c : Sec} {u : Nat}

/-- What stands first in the recycle list is no task any more. -/
theorem Core.first_recycled (hC : Core k v) (hfirst : k.first .taskRecycleList = some u) :
    (k.st u).unused = true := by
  have hne : v.s.heap.isEmpty .taskRecycleList = false := by
    rw [Bool.eq_false_iff]
    intro hempty
    have hnext : k.heap.next .taskRecycleList = some .taskRecycleList := by
      rw [hC.eq] at hempty
      exact of_decide_eq_true hempty
    unfold first at hfirst
    simp [hnext] at hfirst
  obtain ⟨t, ht, hfirst', hpl⟩ := v.first_some (v.placed.shape.head .taskRecycleList rfl)
    Node.noConfusion hne
  rw [hC.eq, hfirst, Option.some.injEq] at hfirst'
  have hu := ((v.placed.task t ht).recycled hpl).1
  rw [hC.eq] at hu
  exact hfirst' ▸ hu

/-- The timeout bit of a task that does not end, and what it waits for, stay as they are, unless it
comes back from its own wait or begins to wait for other events. -/
theorem Next.told (hN : Next c k v) (hcare : k.CarefulSec c) (hu : u < taskMaxNum)
    (hlive : k.toSched.Live u) (hgive : c ≠ .insertTCBToFreeList u)
    (hdel : c = .taskDelete u → k.deletes u = false)
    (hrun : c.pended = true ∨ c.reads = true → u ≠ k.runTask) : (k.run c).told u = k.told u := by
  by_cases hclears : k.clears c u
  · cases c with
    | semPended | muxPended | queuePended | eventPended => exact absurd hclears (hrun (.inl rfl))
    | newTaskInit t p enqueue =>
      obtain rfl : u = t := hclears
      have hunused := (hN.holds u rfl).2.1
      simp [hN.eq, hlive.2] at hunused
    | insertTCBToFreeList t =>
      obtain rfl : u = t := hclears
      exact absurd rfl hgive
    | joinFree t =>
      obtain rfl : u = t := hclears
      have hexit : (k.st u).exit = true := hcare.1
      simp [hlive.1] at hexit
    | taskDelete t =>
      rcases hclears with rfl | rfl
      · rcases k.taskDelete_eq u with ⟨hdeletes, -⟩ | ⟨-, err, heq⟩
        · simp [hdel rfl] at hdeletes
        · change (k.taskDelete u).told u = k.told u
          rw [heq]
          rfl
      · exact absurd hu (Nat.lt_irrefl _)
    | recycleFinishedTask =>
      have hunused := hN.toCore.first_recycled hclears
      simp [hlive.2] at hunused
    | _ => exact absurd hclears id
  · exact k.run_told c hclears fun hread => hrun (.inr hread)

/-- The timeout bit of a task that waits, and what it waits for, stay as they are until it is deleted. -/
theorem Queued.run_told (h : Queued k n ts) (hN : Next c k v) (hcare : k.CarefulSec c)
    (hu : u ∈ ts) (hdel : ∀ t, c = .taskDelete t → k.deletes t = true → u ≠ t) :
    (k.run c).told u = k.told u := by
  obtain ⟨hlt, hlive⟩ := h.live u hu
  refine hN.told hcare hlt hlive ?_ (fun hc => ?_) fun hc hur => h.runTask_not_mem hN ?_ (hur ▸ hu)
  · rintro rfl
    exact absurd hu (h.not_mem_of_pend hcare.1.pend)
  · rw [Bool.eq_false_iff]
    exact fun hdeletes => hdel u hc hdeletes rfl
  · rintro rfl
    rcases hc with hc | hc <;> cases hc

theorem State.Careful.before {l : Label} (hcare : k.Careful l) (hsec : k.secOf l = some c) :
    (k.before l).CarefulSec c := by
  have h : k.CarefulSec c := by
    unfold State.Careful at hcare
    rwa [hsec] at hcare
  cases l with
  | cont => exact (k.careful_setTodo _ _ c).mpr h
  | _ => exact h

theorem State.mem_before {l : Label} {c : Sec} (h : c ∈ (k.before l).todo u) : c ∈ k.todo u := by
  cases l with
  | cont =>
    change c ∈ update k.todo k.runTask (k.todo k.runTask).tail u at h
    by_cases hu : u = k.runTask
    · rw [hu, update_self] at h
      exact hu ▸ mem_of_mem_tail h
    · rwa [update_of_ne hu] at h
  | _ => exact h

end

end LiteosM.Kernel
