import LiteosM.Kernel.Waiting

/-!
# Event control blocks

`LOS_EventRead` waits until the events it asks for have been written. What it waits for is noted in the
control block of its task, and `LOS_EventWrite` looks there: with `LOS_WAITMODE_OR` it compares with the
events written now, with `LOS_WAITMODE_AND` with all that are set.

* `Met`: the condition of a reader, in terms of the bits;
* `hears_iff`: for a reader whose condition does not hold yet, the test of `LOS_EventWrite` is whether it
  holds now;
* `Sched.wakeReaders_spec`: the loop of `LOS_EventWrite` visits each task of the list once, though it takes
  tasks out on the way;
* `Unmet`: no task waits for what has been written already, which every careful step keeps;
* **`no_missed_event`**: both, in every careful run.

Premise: the run is careful (`State.Careful` of `Kernel.Reach`). What the reader returns in the end is the
matter of `Kernel.EventRead`.
-/

namespace LiteosM.Kernel

open LiteosM.Lib Function List Option Sched State

/-! ## The condition of a reader -/

/-- One of the events of `mask` is set, or with `LOS_WAITMODE_AND` all of them. -/
def Met (event mask mode : BitVec 32) : Prop :=
  if mode &&& waitmodeOr ≠ 0 then ∃ i < 32, mask.getLsbD i = true ∧ event.getLsbD i = true
  else ∀ i < 32, mask.getLsbD i = true → event.getLsbD i = true

instance decidableMet (event mask mode : BitVec 32) : Decidable (Met event mask mode) := by
  unfold Met
  infer_instance

/-- What `OsEventReadParamCheck` makes sure of. -/
structure ReadOk (mask mode : BitVec 32) : Prop where
  mask : mask ≠ 0
  mode : mode &&& waitmodeOr ≠ 0 ∨ mode &&& waitmodeAnd ≠ 0

section
variable {event event' events mask mode : BitVec 32}

theorem and_ne_zero_iff : event &&& mask ≠ 0 ↔ ∃ i < 32, mask.getLsbD i = true ∧ event.getLsbD i = true := by
  constructor
  · intro h
    by_contra hno
    refine h (BitVec.eq_of_getLsbD_eq fun i hi => ?_)
    change (event &&& mask).getLsbD i = (0#32).getLsbD i
    rw [BitVec.getLsbD_and, BitVec.getLsbD_zero, Bool.eq_false_iff]
    exact fun hc => hno ⟨i, hi, ((Bool.and_eq_true _ _).mp hc).symm⟩
  · rintro ⟨i, -, hm, he⟩ hzero
    have hbit := congrArg (fun b : BitVec 32 => b.getLsbD i) hzero
    simp [hm, he] at hbit

theorem and_eq_self_iff : mask &&& event = mask ↔ ∀ i < 32, mask.getLsbD i = true → event.getLsbD i = true := by
  constructor
  · intro h i _ hm
    have hbit := congrArg (fun b : BitVec 32 => b.getLsbD i) h
    simpa [hm] using hbit
  intro h
  refine BitVec.eq_of_getLsbD_eq fun i hi => ?_
  rw [BitVec.getLsbD_and]
  cases hm : mask.getLsbD i with
  | false => rfl
  | true => rw [h i hi hm, Bool.and_true]

/-- **What `LOS_EventPoll` returns is not zero exactly if the condition holds**, and then it is what
is set of the mask. -/
theorem pollEvent_ne_zero_iff (hmask : mask ≠ 0) :
    pollEvent event mask mode ≠ 0 ↔ Met event mask mode := by
  unfold pollEvent Met
  by_cases hor : mode &&& waitmodeOr ≠ 0
  · rw [if_pos hor, if_pos hor]
    exact and_ne_zero_iff
  rw [if_neg hor, if_neg hor, ← and_eq_self_iff, BitVec.and_comm event mask]
  by_cases hall : mask &&& event = mask
  · rw [if_pos ⟨hmask, hall.symm⟩, hall]
    exact iff_of_true hmask rfl
  · rw [if_neg fun hc => hall hc.2.symm]
    exact iff_of_false (fun hc => hc rfl) hall

theorem pollEvent_eq (h : pollEvent event mask mode ≠ 0) : pollEvent event mask mode = event &&& mask := by
  unfold pollEvent at h ⊢
  split_ifs at h ⊢
  · rfl
  · rfl
  · exact absurd rfl h

/-- More events make the condition hold the sooner. -/
theorem Met.mono (hle : ∀ i, event.getLsbD i = true → event'.getLsbD i = true) (h : Met event mask mode) :
    Met event' mask mode := by
  unfold Met at h ⊢
  split_ifs at h ⊢
  · obtain ⟨i, hi, hm, he⟩ := h
    exact ⟨i, hi, hm, hle i he⟩
  · exact fun i hi hm => hle i (h i hi hm)

theorem hears_eq_true {c : LosTaskCB} : c.hears events event = true ↔
    (c.eventMode &&& waitmodeOr ≠ 0 ∧ c.eventMask &&& events ≠ 0) ∨
      (c.eventMode &&& waitmodeAnd ≠ 0 ∧ c.eventMask &&& event = c.eventMask) := by
  unfold LosTaskCB.hears
  rw [Bool.or_eq_true_iff, Bool.and_eq_true, Bool.and_eq_true, decide_eq_true_iff, decide_eq_true_iff,
    decide_eq_true_iff, decide_eq_true_iff]

/-- **The test of `LOS_EventWrite`**: a reader whose condition did not hold is woken if it holds now. -/
theorem hears_iff {c : LosTaskCB} (hok : ReadOk c.eventMask c.eventMode)
    (hno : ¬Met event c.eventMask c.eventMode) :
    c.hears events (event ||| events) = true ↔ Met (event ||| events) c.eventMask c.eventMode := by
  rw [hears_eq_true]
  unfold Met at hno ⊢
  by_cases hor : c.eventMode &&& waitmodeOr ≠ 0
  · -- of the events asked for none was set before, so one that is set now has just been written
    rw [if_pos hor] at hno ⊢
    have hnew : c.eventMask &&& events ≠ 0 ↔
        ∃ i < 32, c.eventMask.getLsbD i = true ∧ (event ||| events).getLsbD i = true := by
      rw [BitVec.and_comm, and_ne_zero_iff]
      refine exists_congr fun i => and_congr_right fun hi => and_congr_right fun hm => ?_
      have he : event.getLsbD i = false := Bool.eq_false_iff.mpr fun he => hno ⟨i, hi, hm, he⟩
      rw [BitVec.getLsbD_or, he, Bool.false_or]
    constructor
    · rintro (⟨-, h⟩ | ⟨-, hall⟩)
      · exact hnew.mp h
      · rw [← and_ne_zero_iff, BitVec.and_comm, hall]
        exact hok.mask
    · exact fun h => .inl ⟨hor, hnew.mpr h⟩
  · rw [if_neg hor, ← and_eq_self_iff]
    exact ⟨fun h => (h.resolve_left fun hc => hor hc.1).2, fun h => .inr ⟨hok.mode.resolve_left hor, h⟩⟩

end

/-! ## The loop of `LOS_EventWrite` -/

/-- The tasks that the loop looks at, in this order. -/
def Sched.readers (s : Sched) (events event : BitVec 32) : Nat → Option Node → List Nat
  | fuel + 1, some (.pendList t) =>
    let next := s.heap.next (.pendList t)
    t :: if (s.tcb t).hears events event then (s.taskWake t).readers events event fuel next
      else s.readers events event fuel next
  | _, _ => []

/-- The pointer to the first of some tasks of a list, or to its head. -/
def firstOf (n : Node) : List Nat → Node
  | [] => n
  | t :: _ => .pendList t

section
variable {s : Sched} {n : Node} {ts : List Nat} {t : Nat}

/-- Behind a task comes the next one, or the head. -/
theorem Waiters.next_eq {kept rest : List Nat} (h : Waiters s n (kept ++ t :: rest)) :
    s.heap.next (.pendList t) = some (firstOf n rest) := by
  have hring := Owns.list h
  rw [map_append] at hring
  obtain ⟨a, b, c, d, -, hd, -, hxb, -, -⟩ := Heap.ring_around hring.1
  rw [hxb.1]
  cases rest with
  | nil | cons => exact congrArg some (cons.inj hd).1.symm

theorem Sched.hears_taskWake (s : Sched) (t u : Nat) (events event : BitVec 32) :
    ((s.taskWake t).tcb u).hears events event = (s.tcb u).hears events event := by
  have hwish : (s.taskWake t).wish u = s.wish u := congrFun (wish_of_held (sinks_taskWake s t).held) u
  unfold LosTaskCB.hears
  rw [show ((s.taskWake t).tcb u).eventMask = (s.tcb u).eventMask from congrArg Prod.fst hwish,
    show ((s.taskWake t).tcb u).eventMode = (s.tcb u).eventMode from congrArg Prod.snd hwish]

/-- The tasks among `ts` that hear the events are woken, and no other control block is written. -/
structure Woken (events event : BitVec 32) (ts : List Nat) (s s' : Sched) : Prop where
  wakes : ∀ u ∈ ts, (s.tcb u).hears events event = true → (s'.st u).pend = false
  stays : ∀ u, (u ∈ ts → (s.tcb u).hears events event = false) → s'.tcb u = s.tcb u

theorem Woken.nil (events event : BitVec 32) (s : Sched) : Woken events event [] s s :=
  ⟨nofun, fun _ _ => rfl⟩

theorem Woken.wake {events event : BitVec 32} {s' : Sched} (h : Woken events event ts (s.taskWake t) s')
    (ht : t ∉ ts) (hears : (s.tcb t).hears events event = true) : Woken events event (t :: ts) s s' := by
  refine ⟨fun u hu hh => ?_, fun u hu => ?_⟩
  · rcases mem_cons.mp hu with rfl | hu
    · unfold st
      rw [h.stays u fun hc => absurd hc ht]
      exact s.taskWake_pend u
    · exact h.wakes u hu ((s.hears_taskWake t u events event).trans hh)
  have hut : u ≠ t := by
    rintro rfl
    simp [hu mem_cons_self] at hears
  rw [h.stays u fun hc => (s.hears_taskWake t u events event).trans (hu (mem_cons_of_mem t hc)),
    taskWake_tcb_of_ne s t hut]

theorem Woken.skip {events event : BitVec 32} {s' : Sched} (h : Woken events event ts s s')
    (hears : (s.tcb t).hears events event = false) : Woken events event (t :: ts) s s' := by
  refine ⟨fun u hu hh => ?_, fun u hu => h.stays u fun hc => hu (mem_cons_of_mem t hc)⟩
  rcases mem_cons.mp hu with rfl | hu
  · simp [hears] at hh
  · exact h.wakes u hu hh

/-- **The loop of `LOS_EventWrite`** looks at each task once, in the order of the list, wakes those
that hear the events and leaves the others where they are. -/
theorem Sched.wakeReaders_spec (hn : n.isWait = true) (events event : BitVec 32) (fuel : Nat) :
    ∀ (rest kept : List Nat) (s : Sched), Waiters s n (kept ++ rest) → rest.length ≤ fuel →
      s.readers events event fuel (some (firstOf n rest)) = rest ∧
      Waiters (s.wakeReaders n events event fuel (some (firstOf n rest))).1 n
        (kept ++ rest.filter fun t => !(s.tcb t).hears events event) ∧
      Woken events event rest s (s.wakeReaders n events event fuel (some (firstOf n rest))).1 := by
  -- by induction on the tasks that are still to be looked at; `kept` are those left behind
  induction fuel with
  | zero =>
    intro rest kept s h hlen
    obtain rfl : rest = [] := length_eq_zero_iff.mp (Nat.le_zero.mp hlen)
    exact ⟨rfl, h, .nil events event s⟩
  | succ fuel ih =>
    intro rest kept s h hlen
    cases rest with
    | nil =>
      have hend : s.readers events event (fuel + 1) (some n) = [] ∧
          (s.wakeReaders n events event (fuel + 1) (some n)).1 = s := by
        cases n with
        | semList | muxList | readWriteList | stEventList | joinList => simp [readers, wakeReaders]
        | _ => cases hn
      rw [show firstOf n [] = n from rfl, hend.2]
      exact ⟨hend.1, h, .nil events event s⟩
    | cons t rest =>
      have hnext := h.next_eq
      have hlen' : rest.length ≤ fuel := Nat.le_of_succ_le_succ hlen
      rw [show firstOf n (t :: rest) = .pendList t from rfl]
      simp only [readers, wakeReaders, hnext]
      by_cases hears : (s.tcb t).hears events event = true
      · have hnd := h.nodup
        rw [perm_middle.nodup_iff, nodup_cons] at hnd
        have hwake := h.taskWake hn t
        rw [filter_append, filter_cons_of_neg (by simp), ← filter_append,
          filter_ne_self hnd.1] at hwake
        obtain ⟨hvisit, hwait, hwoken⟩ := ih rest kept (s.taskWake t) hwake hlen'
        simp only [hears, if_true, Bool.not_true, Bool.false_eq_true, not_false_eq_true,
          filter_cons_of_neg]
        refine ⟨by rw [hvisit], ?_, hwoken.wake (fun hc => hnd.1 (mem_append_right _ hc)) hears⟩
        simp only [hears_taskWake] at hwait
        exact hwait
      have h' : Waiters s n ((kept ++ [t]) ++ rest) := by
        rwa [append_assoc]
      obtain ⟨hvisit, hwait, hwoken⟩ := ih rest (kept ++ [t]) s h' hlen'
      rw [append_assoc] at hwait
      rw [if_neg hears, if_neg hears, filter_cons_of_pos (by simpa using hears)]
      exact ⟨by rw [hvisit], hwait, hwoken.skip (Bool.eq_false_iff.mpr hears)⟩

end

/-! ## What a piece of code does to the readers of an event -/

section
variable {k k' : State} {v v' : View} {c : Sec} {e : Nat}

/-- The tasks in the list of an event are those whose `pendList` node is there. -/
theorem Core.mem_readers (hC : Core k v) (t : Nat) :
    t ∈ k.waiting (.stEventList e) ↔ v.pl t = some (.stEventList e) := by
  by_cases hL : v.L (.stEventList e) = none
  · have hnext : k.heap.next (.stEventList e) = none := by
      rw [← hC.eq]
      exact (v.placed.shape.null rfl hL).1
    refine iff_of_false ?_ fun hpl => ?_
    · unfold waiting
      rw [hnext]
      exact not_mem_nil
    · have hsome := v.placed.shape.some_of_pl hpl
      simp [hL] at hsome
  · obtain ⟨ts, h, hpl⟩ := hC.queued (n := .stEventList e) rfl nofun nofun hL
    rw [h.wait.waiting_eq fun t ht => (h.live t ht).1]
    exact hpl t

/-- What a piece of code may do to the list of an event. -/
inductive Reread (e : Nat) (c : Sec) (k k' : State) : Prop where
  | same (waiting : k'.waiting (.stEventList e) = k.waiting (.stEventList e))
      (write : ∀ events, c ≠ .eventWriteLocked e events)
      (del : ∀ t, c = .taskDelete t → k.deletes t = true → t ∉ k.waiting (.stEventList e))
  | enters {mask mode : BitVec 32} {timeout : Nat} (sec : c = .eventReadLocked e mask mode timeout)
      (unmet : pollEvent (k.event e) mask mode = 0) (event : k'.event = k.event)
      (wish : k'.wish k.runTask = (mask, mode))
      (waiting : k'.waiting (.stEventList e) = k.waiting (.stEventList e) ++ [k.runTask])
  | wakes {events : BitVec 32} (sec : c = .eventWriteLocked e events)
      (readers : k.readers events (k.event e ||| events) taskMaxNum (k.heap.next (.stEventList e)) =
        k.waiting (.stEventList e))
      (waiting : k'.waiting (.stEventList e) = (k.waiting (.stEventList e)).filter fun t =>
        !(k.tcb t).hears events (k.event e ||| events))
      (woken : Woken events (k.event e ||| events) (k.waiting (.stEventList e)) k.toSched k'.toSched)
  | deletes {t : Nat} (sec : c = .taskDelete t) (deletes : k.deletes t = true)
      (waiting : k'.waiting (.stEventList e) = (k.waiting (.stEventList e)).filter (· ≠ t))

theorem State.eventWriteLocked_toSched (k : State) (e : Nat) (events : BitVec 32) :
    (k.eventWriteLocked e events).toSched =
      if k.heap.isEmpty (.stEventList e) = true then k.toSched
      else (k.toSched.wakeReaders (.stEventList e) events (k.event e ||| events) taskMaxNum
        (k.heap.next (.stEventList e))).1 := by
  have hself : (update k.event e (k.event e ||| events)) e = k.event e ||| events :=
    update_self ..
  unfold eventWriteLocked
  split_ifs with hempty
  · rw [if_neg (by simp [hempty])]
    rfl
  · rw [if_pos (by simpa using hempty), toSched_push, toSched_done]
    dsimp only
    rw [hself]

theorem State.event_eventWriteLocked (k : State) (e : Nat) (events : BitVec 32) :
    (k.run (.eventWriteLocked e events)).event = update k.event e (k.event e ||| events) := by
  dsimp only [run, eventWriteLocked]
  split_ifs <;> rfl

variable {ts : List Nat}

/-- `LOS_EventWrite` on a list that is set up. -/
theorem Queued.eventWriteLocked_self (h : Queued k (.stEventList e) ts)
    (events : BitVec 32) :
    k.readers events (k.event e ||| events) taskMaxNum (k.heap.next (.stEventList e)) = ts ∧
      Waiters (k.eventWriteLocked e events).toSched (.stEventList e)
        (ts.filter fun t => !(k.tcb t).hears events (k.event e ||| events)) ∧
      Woken events (k.event e ||| events) ts k.toSched (k.eventWriteLocked e events).toSched := by
  have hlen : ts.length ≤ taskMaxNum := by
    have hsub : ts ⊆ range taskMaxNum := fun t ht => mem_range.mpr (h.live t ht).1
    have := (h.wait.nodup.subperm hsub).length_le
    rwa [length_range] at this
  have hfirst : k.heap.next (.stEventList e) = some (firstOf (.stEventList e) ts) := by
    cases ts with
    | nil => exact Owns.next_nil h.wait
    | cons t ts => exact Owns.next_head h.wait
  obtain ⟨hreaders, hwait, hwoken⟩ := wakeReaders_spec rfl events (k.event e ||| events) taskMaxNum ts []
    k.toSched h.wait hlen
  rw [hfirst]
  refine ⟨hreaders, ?_⟩
  rw [k.eventWriteLocked_toSched, hfirst]
  split_ifs with hempty
  · rw [(Queued.first_eq h.wait rfl).2, List.isEmpty_iff] at hempty
    subst hempty
    exact ⟨h.wait, .nil _ _ _⟩
  · exact ⟨hwait, hwoken⟩

/-- A list that nobody waits in is set up anew. -/
theorem Queued.eventInit_self (h : Queued k (.stEventList e) ts)
    (hcare : k.CarefulSec (.eventInit e)) : (k.eventInit e).waiting (.stEventList e) = ts := by
  have hempty : k.heap.isEmpty (.stEventList e) = true := by
    rcases hcare with hnone | hempty
    · cases ts with
      | nil => rw [(Queued.first_eq h.wait rfl).2]; rfl
      | cons t ts => simp [Owns.next_head h.wait] at hnone
    · exact hempty
  rw [(Queued.first_eq h.wait rfl).2, List.isEmpty_iff] at hempty
  have hnext : (k.eventInit e).heap.next (.stEventList e) = some (.stEventList e) :=
    update_self ..
  unfold waiting
  rw [hnext, hempty, Heap.walk, if_pos rfl]
  rfl

/-- `LOS_EventDestroy` refuses while somebody waits. -/
theorem Queued.eventDestroy_self (h : Queued k (.stEventList e) ts) :
    (k.eventDestroy e).waiting (.stEventList e) = ts := by
  have hts : k.waiting (.stEventList e) = ts := h.wait.waiting_eq fun t ht => (h.live t ht).1
  unfold eventDestroy
  split_ifs with hempty
  · exact hts
  rw [(Queued.first_eq h.wait rfl).2] at hempty
  have hnext : (k.heap.clear (.stEventList e)).next (.stEventList e) = none := update_self ..
  rw [toSched_done, toSched_onSched]
  unfold waiting
  rw [show (k.toSched.setHeap (k.heap.clear (.stEventList e))).heap.next (.stEventList e) = none from hnext]
  rw [Bool.not_eq_true, Bool.not_eq_false', List.isEmpty_iff] at hempty
  rw [hempty]
  rfl

@[simp] theorem State.toSched_eventPoll (k : State) (e : Nat) (mask mode : BitVec 32) :
    (k.eventPoll e mask mode).toSched = k.toSched := by
  unfold eventPoll
  dsimp only
  split_ifs <;> rfl

variable {mask mode : BitVec 32} {timeout : Nat}

/-- A reader that has to wait comes last in the list, and what it waits for is noted. -/
theorem Next.read_waits (hN : Next (.eventReadLocked e mask mode timeout) k v)
    (hcare : k.CarefulSec (.eventReadLocked e mask mode timeout))
    (hw : k.waits (.eventReadLocked e mask mode timeout)) :
    (k.eventWaits e mask mode timeout).wish k.runTask = (mask, mode) ∧
      (k.eventWaits e mask mode timeout).waiting (.stEventList e) =
        k.waiting (.stEventList e) ++ [k.runTask] := by
  obtain ⟨hstart, hnext⟩ := hcare hw
  have hL : v.L (.stEventList e) ≠ none := by
    intro hL
    refine hnext ?_
    rw [← hN.eq]
    exact (v.placed.shape.null rfl hL).1
  obtain ⟨ts, h, -⟩ := hN.toCore.queued (n := .stEventList e) rfl nofun nofun hL
  have hlt : ∀ t ∈ ts, t < taskMaxNum := fun t ht => (h.live t ht).1
  have hwait := Waiters.taskWait_self
    (s := k.toSched.setTCB k.runTask fun c => { c with eventMask := mask, eventMode := mode })
    (h.wait.setTCB k.runTask _) rfl (h.runTask_not_mem hN Sec.noConfusion)
    (Queued.runTask_free hN Sec.noConfusion hstart) timeout
  refine ⟨?_, ?_⟩
  · have hR : Steady fun c' c => c'.wish = c.wish := ⟨Eq.trans, fun h _ => congrArg Prod.snd h⟩
    refine (Keeps.taskWait hR (hR.same rfl) _ _ (.inl (.inr fun _ _ => rfl))).trans ?_
    rw [setTCB_self]
    rfl
  rw [h.wait.waiting_eq hlt]
  refine Waiters.waiting_eq hwait fun t ht => ?_
  rcases mem_append.mp ht with ht | ht
  · exact hlt t ht
  · rw [mem_singleton.mp ht]
    exact hN.runTask_lt Sec.noConfusion hstart

theorem Next.reread_read (hN : Next (.eventReadLocked e mask mode timeout) k v)
    (hcare : k.CarefulSec (.eventReadLocked e mask mode timeout)) :
    Reread e (.eventReadLocked e mask mode timeout) k (k.eventReadLocked e mask mode timeout) := by
  rcases k.eventReadLocked_cases e mask mode timeout with ⟨-, heq⟩ | heq | ⟨hw, heq⟩
  · rw [heq]
    exact .same (by rw [k.toSched_eventPoll]) nofun nofun
  · rw [heq]
    exact .same rfl nofun nofun
  · obtain ⟨hwish, hwaiting⟩ := hN.read_waits hcare hw
    rw [heq]
    exact .enters rfl hw.1 rfl hwish hwaiting

variable {u : Nat}

/-- A wait list is entered only if it was there before. -/
theorem Switches.wait {at? : Option Sched} (h : Switches at? k v k' v') {n : Node}
    (hn : n.isWait = true) (hu : v'.pl u = some n) : v.pl u = some n := by
  obtain ⟨v1, hcalm, rfl | ⟨new, M, hsw⟩⟩ := h.moves
  · exact (hcalm.pl_wait hn hu).resolve_right id
  · exact (hcalm.pl_wait hn (hsw.pl_wait hn hu)).resolve_right id

theorem View.ne_none_of_pl (v : View) {n : Node} (hu : v.pl u = some n) : v.L n ≠ none := by
  intro hL
  have hsome := v.placed.shape.some_of_pl hu
  simp [hL] at hsome

theorem Ran.there (h : Ran c k v v') {n : Node} (hn : n.isWait = true)
    (hu : v'.pl u = some n) : v.L n ≠ none := by
  cases h with
  | tame _ h => exact h.there u n hu
  | take _ _ alter | init _ alter | give _ alter | recycle _ _ alter | join _ _ alter | detach _ alter
  | delete _ _ alter => exact v.ne_none_of_pl (alter.wait u n hn hu)
  | free _ _ eq => exact eq ▸ v'.ne_none_of_pl hu
  | switch _ h => exact v.ne_none_of_pl (h.wait hn hu)

/-- Nobody waits in a list that is not set up, and nobody will behind the next piece of code. -/
theorem Next.reread_none (hN : Next c k v) (hran : Ran c k v v') (hL : v.L (.stEventList e) = none) :
    Reread e c k (k.run c) := by
  have hnil : k.waiting (.stEventList e) = [] := by
    refine eq_nil_iff_forall_not_mem.mpr fun t ht => ?_
    have hsome := v.placed.shape.some_of_pl ((hN.toCore.mem_readers t).mp ht)
    simp [hL] at hsome
  have hnil' : (k.run c).waiting (.stEventList e) = [] :=
    eq_nil_iff_forall_not_mem.mpr fun t ht =>
      hran.there rfl ((hran.reached.1.mem_readers t).mp ht) hL
  by_cases hwrite : ∃ events, c = .eventWriteLocked e events
  · obtain ⟨events, rfl⟩ := hwrite
    have hnext : k.heap.next (.stEventList e) = none := by
      rw [← hN.eq]
      exact (v.placed.shape.null rfl hL).1
    have htcb : (k.eventWriteLocked e events).tcb = k.tcb := by
      rw [k.eventWriteLocked_toSched, hnext]
      split_ifs <;> rfl
    refine .wakes rfl ?_ (by rw [hnil, hnil']; rfl) ?_
    · rw [hnil, hnext]
      rfl
    · rw [hnil]
      exact ⟨fun _ ht => absurd ht not_mem_nil, fun u _ => congrFun htcb u⟩
  · refine .same (by rw [hnil, hnil']) (fun events hc => hwrite ⟨events, hc⟩) fun _ _ _ => ?_
    rw [hnil]
    exact not_mem_nil

/-- **What a piece of code does to the list of an event.** -/
theorem Next.reread (hN : Next c k v) (hcare : k.CarefulSec c) (hran : Ran c k v v') :
    Reread e c k (k.run c) := by
  by_cases hL : v.L (.stEventList e) = none
  · exact hN.reread_none hran hL
  obtain ⟨ts, h, -⟩ := hN.toCore.queued (n := .stEventList e) rfl nofun nofun hL
  have hlt : ∀ t ∈ ts, t < taskMaxNum := fun t ht => (h.live t ht).1
  have hts : k.waiting (.stEventList e) = ts := h.wait.waiting_eq hlt
  by_cases htouch : c.touches (.stEventList e) = true
  · -- only the deletion of a task
    cases c with
    | taskDelete t =>
      have hw := h.taskDelete t
      cases hdel : k.deletes t with
      | false =>
        rw [hdel] at hw
        refine .same ((hw.waiting_eq hlt).trans hts.symm) nofun ?_
        intro t' heq hc
        simp [← Sec.taskDelete.inj heq, hdel] at hc
      | true =>
        rw [hdel] at hw
        refine .deletes rfl hdel ?_
        rw [hts]
        exact hw.waiting_eq fun t ht => hlt t (mem_of_mem_filter ht)
    | semPend | semPost | muxPend | muxPost | queueOperate | queuePended => simp [Sec.touches] at htouch
    | _ => cases htouch
  by_cases hevent : c.touchesEvent (.stEventList e) = true
  · have hself : ∀ {e'}, decide (Node.stEventList e = .stEventList e') = true → e = e' := fun h =>
      Node.stEventList.inj (of_decide_eq_true h)
    cases c with
    | eventInit e' =>
      obtain rfl := hself hevent
      exact .same (h.eventInit_self hcare |>.trans hts.symm) nofun nofun
    | eventDestroy e' =>
      obtain rfl := hself hevent
      exact .same (h.eventDestroy_self.trans hts.symm) nofun nofun
    | eventReadLocked e' mask mode timeout =>
      obtain rfl := hself hevent
      exact hN.reread_read hcare
    | eventWriteLocked e' events =>
      obtain rfl := hself hevent
      obtain ⟨hreaders, hwait, hwoken⟩ := h.eventWriteLocked_self events
      refine .wakes rfl (hreaders.trans hts.symm) ?_ (by rwa [hts])
      rw [hts]
      exact hwait.waiting_eq fun t ht => hlt t (mem_of_mem_filter ht)
    | _ => cases hevent
  have hw := hN.waiters_other hcare h (Bool.eq_false_iff.mpr htouch) (Bool.eq_false_iff.mpr hevent)
  refine .same ((hw.waiting_eq hlt).trans hts.symm) ?_ ?_
  · rintro events rfl
    exact hevent (decide_eq_true rfl)
  · rintro t rfl
    exact absurd rfl htouch

/-! ## The events that are set -/

/-- The code may take events of `e` away: a read with `LOS_WAITMODE_CLR`, `LOS_EventClear`, `LOS_EventInit`. -/
def Sec.takes (e : Nat) : Sec → Prop
  | .eventReadLocked e' _ mode _ | .eventPended e' _ mode => e' = e ∧ mode &&& waitmodeClr ≠ 0
  | .eventClear e' _ | .eventInit e' => e' = e
  | _ => False

/-- What code does to the events of `e`: nothing, or it is `LOS_EventWrite`, or it clears some of them. -/
theorem State.run_event_cases (k : State) (c : Sec) (e : Nat) : (k.run c).event e = k.event e ∨
    (∃ events, c = .eventWriteLocked e events ∧ (k.run c).event e = k.event e ||| events) ∨
    (c.takes e ∧ ∃ mask, (k.run c).event e = k.event e &&& mask) := by
  have hpoll : ∀ e' mask mode, (k.eventPoll e' mask mode).event e = k.event e ∨
      ((e' = e ∧ mode &&& waitmodeClr ≠ 0) ∧ ∃ m, (k.eventPoll e' mask mode).event e = k.event e &&& m) := by
    intro e' mask mode
    unfold eventPoll
    dsimp only
    split_ifs with hfound
    · by_cases he : e' = e
      · subst he
        exact .inr ⟨⟨rfl, hfound.2⟩, _, update_self ..⟩
      · exact .inl (update_of_ne (Ne.symm he) ..)
    · exact .inl rfl
  have hclear : ∀ e' mask, update k.event e' (k.event e' &&& mask) e = k.event e ∨
      (e' = e ∧ ∃ m, update k.event e' (k.event e' &&& mask) e = k.event e &&& m) := by
    intro e' mask
    by_cases he : e' = e
    · subst he
      exact .inr ⟨rfl, mask, update_self ..⟩
    · exact .inl (update_of_ne (Ne.symm he) ..)
  cases honEvent : c.onEvent with
  | false => exact .inl (by rw [k.run_event c honEvent])
  | true =>
    cases c with
    | eventInit e' =>
      have h := hclear e' 0#32
      rw [BitVec.and_zero] at h
      exact h.imp_right .inr
    | eventReadLocked e' mask mode timeout =>
      dsimp only [run]
      rcases k.eventReadLocked_cases e' mask mode timeout with ⟨-, heq⟩ | heq | ⟨-, heq⟩ <;> rw [heq]
      · exact (hpoll e' mask mode).imp_right .inr
      · exact .inl rfl
      · exact .inl rfl
    | eventPended e' mask mode =>
      dsimp only [run, eventPended]
      split_ifs
      · exact .inl rfl
      · exact (hpoll e' mask mode).imp_right .inr
    | eventWriteLocked e' events =>
      rw [k.event_eventWriteLocked]
      by_cases he : e' = e
      · subst he
        exact .inr (.inl ⟨events, rfl, update_self ..⟩)
      · exact .inl (update_of_ne (Ne.symm he) ..)
    | eventClear e' mask => exact (hclear e' mask).imp_right .inr
    | _ => cases honEvent

/-- Only `LOS_EventWrite` sets events. -/
theorem State.run_event_le (k : State) {c : Sec} (hc : ∀ events, c ≠ .eventWriteLocked e events) {i : Nat}
    (h : ((k.run c).event e).getLsbD i = true) : (k.event e).getLsbD i = true := by
  rcases k.run_event_cases c e with heq | ⟨events, rfl, -⟩ | ⟨-, mask, heq⟩
  · rwa [heq] at h
  · exact absurd rfl (hc events)
  · rw [heq, BitVec.getLsbD_and, Bool.and_eq_true] at h
    exact h.1

/-! ## Nobody waits for what has been written -/

/-- Every read about to wait has been checked, and no task waits for events that are set. -/
structure Unmet (k : State) : Prop where
  reads : ∀ u e mask mode timeout, Sec.eventReadLocked e mask mode timeout ∈ k.todo u → ReadOk mask mode
  waits : ∀ e, ∀ t ∈ k.waiting (.stEventList e), ReadOk (k.tcb t).eventMask (k.tcb t).eventMode ∧
    ¬Met (k.event e) (k.tcb t).eventMask (k.tcb t).eventMode

theorem readOk_of_check (h : k.eventReadParamCheck e mask mode = .ok) : ReadOk mask mode := by
  unfold eventReadParamCheck at h
  split_ifs at h with hinit hmask hbit hflags
  rw [not_or, not_or] at hflags
  refine ⟨hmask, ?_⟩
  by_contra hno
  rw [not_or, not_not, not_not] at hno
  refine hflags.2.2 ?_
  rw [BitVec.and_or_distrib_left, hno.1, hno.2]
  rfl

/-- `LOS_EventRead` goes on behind its checks only if they are passed. -/
theorem Unmet.reads_run (hU : Unmet k)
    (h : Sec.eventReadLocked e mask mode timeout ∈ (k.run c).todo u) : ReadOk mask mode := by
  cases hopens : c.opens with
  | false => exact hU.reads u e mask mode timeout (k.adds_run c hopens u _ rfl h)
  | true =>
    rcases k.mem_run_opens hopens rfl h with h' | ⟨hleaves, -⟩
    · exact hU.reads u e mask mode timeout h'
    cases c with
    | eventRead e' mask' mode' timeout' =>
      obtain ⟨rfl, rfl, rfl, rfl⟩ : e = e' ∧ mask = mask' ∧ mode = mode' ∧ timeout = timeout' := by
        simpa using hleaves
      by_cases hcheck : k.eventReadParamCheck e mask mode = .ok
      · exact readOk_of_check hcheck
      refine hU.reads u e mask mode timeout ?_
      dsimp only [run, eventRead] at h
      split at h
      · rename_i hok
        exact absurd hok hcheck
      · exact h
    | semPend | muxPend | queueOperate | eventReadLocked => simp at hleaves
    | _ => cases hopens

/-- The list of an event in which somebody waits. -/
theorem Core.readers (hC : Core k v) {t : Nat} (ht : t ∈ k.waiting (.stEventList e)) :
    Queued k (.stEventList e) (k.waiting (.stEventList e)) := by
  obtain ⟨ts, h, -⟩ := hC.queued (n := .stEventList e) rfl nofun nofun
    (v.ne_none_of_pl ((hC.mem_readers t).mp ht))
  rwa [h.wait.waiting_eq fun t ht => (h.live t ht).1]

/-- What a task waits for, in terms of its control block. -/
theorem wish_eq {s : Sched} {t : Nat} (h : s.wish t = (mask, mode)) :
    (s.tcb t).eventMask = mask ∧ (s.tcb t).eventMode = mode :=
  ⟨congrArg Prod.fst h, congrArg Prod.snd h⟩

theorem Unmet.run (hU : Unmet k) (hN : Next c k v) (hcare : k.CarefulSec c) (hran : Ran c k v v')
    (hread : ∀ e mask mode timeout, c = .eventReadLocked e mask mode timeout → ReadOk mask mode) :
    Unmet (k.run c) := by
  refine ⟨fun u e mask mode timeout h => hU.reads_run h, fun e t ht => ?_⟩
  -- a task that has waited on, for the same events as before
  have hstay : t ∈ k.waiting (.stEventList e) → (∀ t', c = .taskDelete t' → k.deletes t' = true → t ≠ t') →
      ((k.run c).tcb t).eventMask = (k.tcb t).eventMask ∧
        ((k.run c).tcb t).eventMode = (k.tcb t).eventMode := fun hmem hdel =>
    wish_eq (congrArg Prod.snd ((hN.toCore.readers hmem).run_told hN hcare hmem hdel))
  have hless : (∀ events, c ≠ .eventWriteLocked e events) → ∀ mask mode, ¬Met (k.event e) mask mode →
      ¬Met ((k.run c).event e) mask mode := fun hwrite mask mode hno hmet =>
    hno (hmet.mono fun _ => k.run_event_le hwrite)
  cases hN.reread hcare hran with
  | same waiting write del =>
    rw [waiting] at ht
    obtain ⟨hok, hno⟩ := hU.waits e t ht
    obtain ⟨hmask, hmode⟩ := hstay ht fun t' hc hdel htt => del t' hc hdel (htt ▸ ht)
    rw [hmask, hmode]
    exact ⟨hok, hless write _ _ hno⟩
  | @enters mask mode timeout sec unmet event wish waiting =>
    rw [event]
    by_cases hmem : t ∈ k.waiting (.stEventList e)
    · obtain ⟨hmask, hmode⟩ := hstay hmem (by rw [sec]; nofun)
      rw [hmask, hmode]
      exact hU.waits e t hmem
    rw [waiting, mem_append, or_iff_right hmem] at ht
    obtain rfl := mem_singleton.mp ht
    obtain ⟨hmask, hmode⟩ := wish_eq wish
    have hok := hread e mask mode timeout sec
    rw [hmask, hmode]
    exact ⟨hok, fun hmet => (pollEvent_ne_zero_iff hok.mask).mpr hmet unmet⟩
  | @wakes events sec readers waiting woken =>
    rw [waiting, mem_filter, Bool.not_eq_true'] at ht
    obtain ⟨hok, hno⟩ := hU.waits e t ht.1
    rw [woken.stays t fun _ => ht.2, sec, k.event_eventWriteLocked, update_self,
      ← hears_iff hok hno, ht.2]
    exact ⟨hok, Bool.false_ne_true⟩
  | @deletes t' sec deletes waiting =>
    rw [waiting, mem_filter, decide_eq_true_iff] at ht
    obtain ⟨hok, hno⟩ := hU.waits e t ht.1
    obtain ⟨hmask, hmode⟩ := hstay ht.1 fun t'' hc _ => by
      rw [sec, Sec.taskDelete.injEq] at hc
      exact hc ▸ ht.2
    rw [hmask, hmode]
    exact ⟨hok, hless (by rw [sec]; nofun) _ _ hno⟩

theorem Unmet.before (hU : Unmet k) (l : Label) : Unmet (k.before l) := by
  have hevent : (k.before l).event = k.event := by
    cases l <;> rfl
  refine ⟨fun u e mask mode timeout h => hU.reads u e mask mode timeout (mem_before h), ?_⟩
  rw [k.before_toSched, hevent]
  exact hU.waits

/-- A step that takes tasks out of the lists at most, and writes no event. -/
theorem Unmet.of_sub (hU : Unmet k) (htodo : k'.todo = k.todo) (hevent : k'.event = k.event)
    (hsub : ∀ e, ∀ t ∈ k'.waiting (.stEventList e), t ∈ k.waiting (.stEventList e) ∧ k'.wish t = k.wish t) :
    Unmet k' := by
  refine ⟨?_, fun e t ht => ?_⟩
  · rw [htodo]
    exact hU.reads
  obtain ⟨hmem, hwish⟩ := hsub e t ht
  obtain ⟨hmask, hmode⟩ := wish_eq hwish
  rw [hmask, hmode, hevent]
  exact hU.waits e t hmem

/-- **Every careful step keeps it.** -/
theorem Unmet.step {l : Label} (hU : Unmet k) (hR : Reached k v) (hcare : k.Careful l)
    (hstep : Kernel.step k l = some k') (h : Stepped k v l k' v') : Unmet k' := by
  cases h with
  | @ran c sec next eq ran =>
    subst eq
    refine (hU.before l).run next (hcare.before sec) ran fun e mask mode timeout hc => ?_
    subst hc
    exact hU.reads k.runTask e mask mode timeout (mem_todo_of_not_call hstep sec rfl)
  | tick label eq h =>
    subst eq
    refine hU.of_sub rfl rfl fun e t ht => ?_
    have hpl := (h.reached.1.mem_readers t).mp ht
    have hmem := (hR.1.mem_readers t).mpr (h.wait rfl hpl)
    refine ⟨hmem, ?_⟩
    have hQ := hR.1.readers hmem
    obtain ⟨ts', -, hl⟩ := hQ.wait.schedTickHandler hQ.isWait hQ.pends hQ.idle
    exact congrFun hl.wish t
  | clock label eq frozen inv =>
    subst eq
    exact hU.of_sub rfl rfl fun e t ht => ⟨ht, rfl⟩
  | @start new label before eq top h inv =>
    subst eq
    refine hU.of_sub rfl rfl fun e t ht => ?_
    obtain ⟨hne, hpl⟩ := h.pl_wait ((inv.1.mem_readers t).mp ht)
    refine ⟨(hR.1.mem_readers t).mpr hpl, ?_⟩
    have htcb := h.tcb t hne
    rw [inv.1.eq, hR.1.eq] at htcb
    exact congrArg LosTaskCB.wish htcb

theorem boot_unmet (sysClock tickPeriodMax : Nat) : Unmet (boot sysClock tickPeriodMax) := by
  have hB := boot_booted sysClock tickPeriodMax
  obtain ⟨v, hI⟩ := hB.inv
  refine ⟨fun u e mask mode timeout h => ?_, fun e t ht => ?_⟩
  · simp [hB.todo u] at h
  have hQ := hI.1.readers ht
  have hpend : ((boot sysClock tickPeriodMax).tcb t).taskStatus.pend = true := (hQ.pends t ht).1
  rw [hB.tcb t (hQ.live t ht).1] at hpend
  split_ifs at hpend <;> cases hpend

/-- In every state of a careful run nobody waits for what has been written. -/
theorem unmet_of_careful {sysClock tickPeriodMax : Nat} {run : List Label}
    (hcare : Guarded step Careful (boot sysClock tickPeriodMax) run)
    (hrun : exec step (boot sysClock tickPeriodMax) run = some k) : (∃ v, Reached k v) ∧ Unmet k := by
  obtain ⟨v, hv⟩ := (boot_booted sysClock tickPeriodMax).inv
  have hstep : ∀ k l k', ((∃ v, Reached k v) ∧ Unmet k) → k.Careful l → step k l = some k' →
      (∃ v, Reached k' v) ∧ Unmet k' := by
    rintro k l k' ⟨⟨v, hR⟩, hU⟩ hok hstep
    obtain ⟨v', h⟩ := hR.step hok hstep
    exact ⟨⟨v', h.reached⟩, hU.step hR hok hstep h⟩
  exact exec_inv_guarded hstep ⟨⟨v, hv.reached⟩, boot_unmet sysClock tickPeriodMax⟩ hcare hrun

/-- **In every careful run no task waits for events that are set, and `LOS_EventWrite` looks at each
waiting task once and wakes those whose condition holds behind it, and no other.** -/
theorem no_missed_event (sysClock tickPeriodMax : Nat) (run : List Label) (k : State)
    (hcare : Guarded step Careful (boot sysClock tickPeriodMax) run)
    (hrun : exec step (boot sysClock tickPeriodMax) run = some k) (e : Nat) :
    (∀ t ∈ k.waiting (.stEventList e), ¬Met (k.event e) (k.tcb t).eventMask (k.tcb t).eventMode) ∧
      ∀ l events k', k.secOf l = some (.eventWriteLocked e events) → step k l = some k' →
        k'.event e = k.event e ||| events ∧
        (k.waiting (.stEventList e)).Nodup ∧
        k.readers events (k'.event e) taskMaxNum (k.heap.next (.stEventList e)) =
          k.waiting (.stEventList e) ∧
        (∀ t, t ∈ k'.waiting (.stEventList e) ↔
          t ∈ k.waiting (.stEventList e) ∧ ¬Met (k'.event e) (k.tcb t).eventMask (k.tcb t).eventMode) ∧
        (∀ t ∈ k.waiting (.stEventList e), Met (k'.event e) (k.tcb t).eventMask (k.tcb t).eventMode →
          (k'.st t).pend = false) ∧
        ∀ t, t ∉ k.waiting (.stEventList e) ∨ ¬Met (k'.event e) (k.tcb t).eventMask (k.tcb t).eventMode →
          k'.tcb t = k.tcb t := by
  obtain ⟨⟨v, hR⟩, hU⟩ := unmet_of_careful hcare hrun
  refine ⟨fun t ht => (hU.waits e t ht).2, fun l events k' hsec hstep => ?_⟩
  have hok : k.Careful l := by
    unfold Careful
    rw [hsec]
    exact fun h => h.elim
  obtain ⟨v', h⟩ := hR.step hok hstep
  cases h with
  | @ran c sec next eq ran =>
    rw [hsec, some.injEq] at sec
    subst sec eq
    have hevent : (k.before l).event = k.event := by
      cases l <;> rfl
    cases next.reread (hok.before hsec) ran with
    | same _ write => exact absurd rfl (write events)
    | @wakes events' sec readers waiting woken =>
      obtain rfl : events = events' := (Sec.eventWriteLocked.inj sec).2
      rw [k.before_toSched, hevent] at readers waiting woken
      rw [event_eventWriteLocked, hevent, update_self]
      have hears : ∀ t ∈ k.waiting (.stEventList e), (k.tcb t).hears events (k.event e ||| events) = true ↔
          Met (k.event e ||| events) (k.tcb t).eventMask (k.tcb t).eventMode := fun t ht =>
        hears_iff (hU.waits e t ht).1 (hU.waits e t ht).2
      refine ⟨rfl, ?_, readers, fun t => ?_, fun t ht hmet => woken.wakes t ht ((hears t ht).mpr hmet),
        fun t ht => woken.stays t fun hmem => ?_⟩
      · cases hts : k.waiting (.stEventList e) with
        | nil => exact nodup_nil
        | cons t ts =>
          rw [← hts]
          exact (hR.1.readers (hts ▸ mem_cons_self)).wait.nodup
      · rw [waiting, mem_filter, Bool.not_eq_true', ← Bool.not_eq_true]
        exact and_congr_right fun ht => not_congr (hears t ht)
      · rw [← Bool.not_eq_true, hears t hmem]
        exact ht.resolve_left (not_not.mpr hmem)
    | enters sec | deletes sec => cases sec
  | tick label | clock label | start label =>
    subst label
    cases hsec

/-- Task 1 waits for two events and task 2 for one of them, which task 3 is about to write. -/
def twoReaders : List Label :=
  createTask 5 ++ createTask 6 ++ createTask 7 ++
    [.start, .call (.eventInit 0), .call (.eventRead 0 3 waitmodeAnd waitForever), .cont, .cont,
      .call (.eventRead 0 1 waitmodeOr waitForever), .cont, .cont, .call (.eventWrite 0 1)]

theorem no_missed_event_twoReaders : ∃ k k', exec step (boot 1000000 0xffffff) twoReaders = some k ∧
    k.waiting (.stEventList 0) = [1, 2] ∧ step k .cont = some k' ∧
    1 ∈ k'.waiting (.stEventList 0) ∧ 2 ∉ k'.waiting (.stEventList 0) := by
  have hcare : Guarded step Careful (boot 1000000 0xffffff) twoReaders := by decide +kernel
  obtain ⟨k, hk, hwaiting, hevent, hone, htwo, hsec, k', hk', -⟩ : ∃ k,
      exec step (boot 1000000 0xffffff) twoReaders = some k ∧ k.waiting (.stEventList 0) = [1, 2] ∧
      k.event 0 = 0 ∧ k.wish 1 = (3, waitmodeAnd) ∧ k.wish 2 = (1, waitmodeOr) ∧
      k.secOf .cont = some (.eventWriteLocked 0 1) ∧ ∃ k', step k .cont = some k' ∧ True := by
    decide +kernel
  obtain ⟨heq, -, -, hmem, -⟩ := (no_missed_event _ _ _ k hcare hk 0).2 .cont 1 k' hsec hk'
  obtain ⟨hmask1, hmode1⟩ := wish_eq hone
  obtain ⟨hmask2, hmode2⟩ := wish_eq htwo
  refine ⟨k, k', hk, hwaiting, hk', ?_, ?_⟩
  · rw [hmem, hwaiting, heq, hevent, hmask1, hmode1]
    decide
  · rw [hmem, hwaiting, heq, hevent, hmask2, hmode2]
    decide

end

end LiteosM.Kernel
