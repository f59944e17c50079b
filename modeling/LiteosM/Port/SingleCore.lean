import LiteosM.Port.Systick

/-!
# One thread at a time

The mutual exclusion of the host threads by `single_core_mutex`, over every interleaving of
`PMCU_BE_Task_Create`, `Start_Scheduler` and `Pthread_Schedule` in which no `SIG_TICK` is handled.
`Start_Scheduler` starts the ticker, and `Systick_Signal_Handler` can come to `Pthread_Schedule` in a
thread that does not own the mutex.

The proof is a discipline on code (`disc`): from the ownership of the mutex and the signal mask at
a program point it is decided instruction by instruction that the thread locks only what it does
not own, unlocks only what it owns, does anything else but wait only as the owner, and comes back
to task code as the owner. `CoreInv` says that every thread's remaining code keeps the discipline,
that the mutex records the thread that thinks it owns it, and that the slot search of
`Pthread_Schedule` for the running task finds a valid slot, so that the branches that end a thread
are not taken.

* `coreInv_step`: every step that is not a tick keeps `CoreInv`;
* **`single_core_emulation`**: what follows in every state that is reached without a tick;
* `tick_without_core`: a tick in a thread that waits for its new thread in `PMCU_BE_Task_Create` runs
  kernel code beside the owner of the mutex, and unlocks it for the owner.
-/

namespace LiteosM.Port

open LiteosM.Lib Function List Option
open Bool (and_eq_true not_eq_true' false_eq_true)
open Machine (boot take_goto_thread take goto modify release instr callCode step step_cases)

/-! ## The discipline -/

/-- The code keeps the discipline when entered with (`h`) or without `single_core_mutex`, and with
(`b`) or without `SIG_SUSPEND` blocked. Instructions that create a thread or suspend by
`SIG_SUSPEND` need the signal unblocked; the tick handler's are not considered. -/
@[simp] def disc : Bool → Bool → List Instr → Bool
  | h, b, [] => h && !b
  | h, b, .lock .singleCore :: c => !h && disc true b c
  | h, b, .unlock .singleCore :: c => h && disc false b c
  | h, b, .enterSigwait :: c => disc h b c
  | h, b, .sigwait :: c => disc h b c
  | h, b, .waitCreat :: c => disc h b c
  | _, _, .exitThread :: _ => true
  | h, _, .teardown :: _ => h
  | h, b, .killSuspend :: c => h && !b && disc h b c
  | h, b, .createSetup _ :: c => h && !b && disc h b c
  | h, b, .createSlot _ :: c => h && !b && disc h b c
  | h, b, .startSearch _ :: c => h && !b && disc h b c
  | h, _, .sigreturn mk :: c => h && disc h mk.suspend c
  | _, _, .setupSlots :: _ => false
  | _, _, .createThread _ :: _ => false
  | _, _, .cancelThread _ :: _ => false
  | _, _, .tickCheck _ :: _ => false
  | _, _, .tickTrylock _ :: _ => false
  | h, b, _ :: c => h && disc h b c

/-- The discipline at the point a thread stands at: there `createThread` may come next, which the
slot search puts in front of the code and nothing else. -/
@[simp] def discNow (h b : Bool) : List Instr → Bool
  | .createThread _ :: c => h && !b && disc h b c
  | c => disc h b c

/-- The initial thread before its first `PMCU_BE_Task_Create` has set up the back end: it does not
own the mutex until `Setup_Signal_Handler` has locked it. -/
inductive Booting : Bool → List Instr → Prop where
  | idle : Booting false []
  | create (id : Nat) : Booting false (pmcuBeTaskCreate id)
  | create1 (id : Nat) : Booting false [.lock .systick, .createSetup id]
  | create2 (id : Nat) : Booting false [.createSetup id]
  | setup (id : Nat) : Booting false [.lock .singleCore, .setupSlots, .createSlot id]
  | setup1 (id : Nat) : Booting true [.setupSlots, .createSlot id]
  | start (id : Nat) : Booting false (startScheduler id)
  | start1 (id : Nat) : Booting false [.startSearch id]
  | start2 : Booting false [.teardown]

/-! ## The invariant -/

/-- Some valid slot carries task `run`. -/
def HasTask (ts : Slots) (run : Nat) : Prop := ∃ s ∈ ts, s.valid = true ∧ s.taskid = run

/-- The task a switch is made from has a valid slot. -/
@[simp] def InstrOk (ts : Slots) : Instr → Prop
  | .scheduleNew _ run _ => HasTask ts run
  | .scheduleRun run => HasTask ts run
  | _ => True

/-- The valid slots come first, and only valid slots name a thread. -/
structure SlotsOk (ts : Slots) : Prop where
  front : ∀ i j, i ≤ j → (ts.at j).valid = true → (ts.at i).valid = true
  thread : ∀ s ∈ ts, s.valid = false → s.thread = 0

/-- Thread `th` keeps the discipline where it stands. -/
def Typed (firstTime : Bool) (ts : Slots) (t : Tid) (th : Thread) : Prop :=
  if firstTime then t = initThread ∧ th.mask.suspend = false ∧ Booting th.holdsCore th.code
  else discNow th.holdsCore th.mask.suspend th.code = true ∧ ∀ i ∈ th.code, InstrOk ts i

/-- The invariant of the host threads. -/
structure CoreInv (m : Machine) : Prop where
  owner : ∀ t, (m.thread t).holdsCore = true ↔ m.owner .singleCore = some t
  typed : ∀ t, (m.thread t).alive = true → Typed m.firstTime m.slots t (m.thread t)
  pending : ∀ t, (m.thread t).suspendPending = false
  fresh : ∀ t, m.nextTid ≤ t → (m.thread t).alive = false ∧ (m.thread t).holdsCore = false
  pos : (m.thread 0).alive = false
  next : 0 < m.nextTid
  slots : SlotsOk m.slots
  boot : m.firstTime = true → m.slots = Slots.zero
  create : ∀ t i rest, (m.thread t).alive = true → (m.thread t).code = .createThread i :: rest →
    m.slots.findFree = some i

theorem slotsOk_zero : SlotsOk Slots.zero where
  front i j _ hj := by
    rw [Slots.zero_at] at hj
    exact nomatch hj
  thread s hs _ := by
    rw [eq_of_mem_replicate hs]
    rfl

theorem coreInv_boot : CoreInv boot := by
  have hth : ∀ t, boot.thread t =
      if t = initThread then { Thread.absent with alive := true } else Thread.absent := fun t => by
    simp only [boot, update_apply]
  refine ⟨fun t => ?_, fun t ha => ?_, fun t => ?_, fun t ht => ?_, rfl, by decide, slotsOk_zero,
    fun _ => rfl, fun t i rest ha hc => ?_⟩
  · rw [hth]
    split_ifs <;> simp [boot]
  · rw [hth] at ha ⊢
    split_ifs at ha ⊢ with ht
    · exact ⟨ht, rfl, .idle⟩
    · cases ha
  · rw [hth]
    split_ifs <;> rfl
  · have hne : t ≠ initThread := by
      rintro rfl
      exact absurd ht (by decide)
    rw [hth, if_neg hne]
    exact ⟨rfl, rfl⟩
  · rw [hth] at hc
    split_ifs at hc <;> simp at hc

/-! ## Steps that leave the mutex and the slots alone -/

/-- Two states of a thread that differ at most in an outstanding `SIG_RESUME`. -/
def Same (a b : Thread) : Prop :=
  a.code = b.code ∧ a.mask = b.mask ∧ a.suspendPending = b.suspendPending ∧
    a.holdsCore = b.holdsCore ∧ a.alive = b.alive

theorem Same.refl (a : Thread) : Same a a := ⟨rfl, rfl, rfl, rfl, rfl⟩

variable {ts : Slots} {t : Tid}

theorem Same.typed {f : Bool} {a b : Thread} (h : Same a b)
    (hb : Typed f ts t b) : Typed f ts t a := by
  obtain ⟨hc, hm, _, hh, _⟩ := h
  unfold Typed at hb ⊢
  rwa [hc, hm, hh]

variable {c : List Instr}

theorem disc_ne_createThread {h b : Bool} (hd : disc h b c = true) (i : Nat)
    (rest : List Instr) : c ≠ .createThread i :: rest := by
  rintro rfl
  simp at hd

theorem discNow_of_disc {h b : Bool} (hd : disc h b c = true) : discNow h b c = true := by
  unfold discNow
  split
  · exact absurd rfl (disc_ne_createThread hd _ _)
  · exact hd

variable {m : Machine}

theorem CoreInv.lt_next (h : CoreInv m) (ha : (m.thread t).alive = true) : t < m.nextTid := by
  by_contra hge
  exact absurd ha (by rw [(h.fresh t (Nat.le_of_not_lt hge)).1]; decide)

theorem CoreInv.ne_zero (h : CoreInv m) (ha : (m.thread t).alive = true) : 0 ≠ t := by
  rintro rfl
  exact absurd ha (by rw [h.pos]; decide)

variable {m m' : Machine}

/-- A step of `t` that takes the mutex from no other thread and leaves the slots alone. -/
theorem CoreInv.frame {th : Thread} (h : CoreInv m)
    (ha : (m.thread t).alive = true) (hf : m'.firstTime = m.firstTime) (hs : m'.slots = m.slots)
    (hn : m'.nextTid = m.nextTid) (hth : m'.thread = update m.thread t th)
    (ho : ∀ u, u ≠ t → (m.owner .singleCore = some u ↔ m'.owner .singleCore = some u))
    (hh : th.holdsCore = true ↔ m'.owner .singleCore = some t) (hp : th.suspendPending = false)
    (ht : th.alive = true → Typed m.firstTime m.slots t th ∧
      ∀ i rest, th.code = .createThread i :: rest → m.slots.findFree = some i) : CoreInv m' := by
  have hself : m'.thread t = th := by rw [hth, update_self]
  have hu : ∀ u, u ≠ t → m'.thread u = m.thread u := fun u hut => by rw [hth, update_of_ne hut]
  refine ⟨fun u => ?_, fun u hau => ?_, fun u => ?_, fun u hu' => ?_, ?_, hn ▸ h.next, hs ▸ h.slots,
    fun hf' => hs ▸ h.boot (hf ▸ hf'), fun u i rest hau hc => ?_⟩
  · by_cases hut : u = t
    · rwa [hut, hself]
    · rw [hu u hut, ← ho u hut]
      exact h.owner u
  · rw [hf, hs]
    by_cases hut : u = t
    · rw [hut, hself] at hau ⊢
      exact (ht hau).1
    · rw [hu u hut] at hau ⊢
      exact h.typed u hau
  · by_cases hut : u = t
    · rw [hut, hself, hp]
    · rw [hu u hut, h.pending]
  · rw [hn] at hu'
    rw [hu u (Nat.ne_of_gt (Nat.lt_of_lt_of_le (h.lt_next ha) hu'))]
    exact h.fresh u hu'
  · rw [hu 0 (h.ne_zero ha), h.pos]
  rw [hs]
  by_cases hut : u = t
  · rw [hut, hself] at hau hc
    exact (ht hau).2 i rest hc
  · rw [hu u hut] at hau hc
    exact h.create u i rest hau hc

/-- The same once the back end is set up, for a step that gives `t` new code and a new mask: it is
enough that the new code keeps the discipline. -/
theorem CoreInv.goOn {mk : Mask} {rp : Bool}
    (h : CoreInv m) (hb : m.firstTime = false) (ha : (m.thread t).alive = true)
    (hth : m'.thread = update m.thread t
      { m.thread t with code := c, mask := mk, resumePending := rp })
    (hd : disc (m.thread t).holdsCore mk.suspend c = true)
    (hr : ∀ i ∈ c, InstrOk m.slots i) (hf : m'.firstTime = m.firstTime := by rfl)
    (hs : m'.slots = m.slots := by rfl) (hn : m'.nextTid = m.nextTid := by rfl)
    (ho : m'.owner .singleCore = m.owner .singleCore := by rfl) : CoreInv m' := by
  refine h.frame ha hf hs hn hth (fun u _ => by rw [ho]) (ho ▸ h.owner t) (h.pending t) fun _ =>
    ⟨?_, fun i rest hc => absurd hc (disc_ne_createThread hd i rest)⟩
  rw [hb]
  exact ⟨discNow_of_disc hd, hr⟩

/-! ## Steps on the mutex -/

section Mutex

variable {m : Machine} {t : Tid} {c : List Instr} {mu : Mutex}

/-- Taking or releasing another mutex is a step on the code alone. -/
theorem take_goto_thread_of_ne (hmu : mu ≠ .singleCore) :
    ((m.take t mu).goto t c).thread = update m.thread t { m.thread t with code := c } := by
  rw [take_goto_thread, beq_eq_false_iff_ne.mpr hmu, Bool.or_false]

theorem release_goto_thread_of_ne (hmu : mu ≠ .singleCore) :
    ((m.release t mu).goto t c).thread =
      update m.thread t { m.thread t with code := c } := by
  rw [Machine.release_goto_thread, bne_iff_ne.mpr hmu, Bool.and_true]

/-- A step of `t` that changes who owns the mutex. `t` owns it afterwards iff `v`. -/
theorem CoreInv.transfer {m' : Machine} {v : Bool} (h : CoreInv m) (hb : m.firstTime = false)
    (ha : (m.thread t).alive = true) (hf : m'.firstTime = m.firstTime) (hs : m'.slots = m.slots)
    (hn : m'.nextTid = m.nextTid) (ho : m'.owner .singleCore = if v then some t else none)
    (hfree : ∀ u, u ≠ t → m.owner .singleCore ≠ some u)
    (hth : m'.thread = update m.thread t { m.thread t with code := c, holdsCore := v })
    (hd : disc v (m.thread t).mask.suspend c = true)
    (hr : ∀ i ∈ c, InstrOk m.slots i) : CoreInv m' := by
  refine h.frame ha hf hs hn hth (fun u hu => ?_) ?_ (h.pending t) fun _ =>
    ⟨?_, fun i rest hc => absurd hc (disc_ne_createThread hd i rest)⟩
  · rw [ho]
    refine ⟨fun hu' => absurd hu' (hfree u hu), fun hu' => ?_⟩
    cases v with
    | true => exact absurd (some.inj hu').symm hu
    | false => exact absurd hu' (by simp)
  · rw [ho]
    cases v <;> simp
  · rw [hb]
    exact ⟨discNow_of_disc hd, hr⟩

variable {m' : Machine} {rest : List Instr}

/-- What the discipline says of an instruction that only the owner of the mutex may execute and
that leaves the mutex and the mask as they are. -/
theorem disc_rest {h b : Bool} {i : Instr} (hd : discNow h b (i :: rest) = true)
    (hi : discNow h b (i :: rest) = (h && disc h b rest)) : h = true ∧ disc h b rest = true := by
  rwa [hi, and_eq_true] at hd

section
variable (h : CoreInv m) (hb : m.firstTime = false) (ha : (m.thread t).alive = true)
include h hb ha

theorem coreInv_lock
    (hd : discNow (m.thread t).holdsCore (m.thread t).mask.suspend (.lock mu :: rest) = true)
    (hr : ∀ x ∈ rest, InstrOk m.slots x) (hfree : m.owner mu = none) :
    CoreInv ((m.take t mu).goto t rest) := by
  by_cases hmu : mu = .singleCore
  · subst hmu
    simp only [discNow, disc, and_eq_true] at hd
    refine h.transfer hb ha rfl rfl rfl ?_ (fun u _ => by simp [hfree]) ?_ hd.2 hr
    · simp
    · rw [Machine.take_goto_thread]
      simp
  · have hd' := disc_rest hd (by cases mu <;> first | exact absurd rfl hmu | rfl)
    refine h.goOn hb ha (take_goto_thread_of_ne hmu) hd'.2 hr rfl rfl rfl ?_
    simp [update_of_ne (Ne.symm hmu)]

/-- Releasing another mutex. -/
theorem coreInv_release (hmu : mu ≠ .singleCore)
    (hd : disc (m.thread t).holdsCore (m.thread t).mask.suspend rest = true)
    (hr : ∀ x ∈ rest, InstrOk m.slots x) : CoreInv ((m.release t mu).goto t rest) := by
  refine h.goOn hb ha (release_goto_thread_of_ne hmu) hd hr rfl rfl rfl ?_
  simp [update_of_ne (Ne.symm hmu)]

theorem coreInv_unlock
    (hd : discNow (m.thread t).holdsCore (m.thread t).mask.suspend (.unlock mu :: rest) = true)
    (hr : ∀ x ∈ rest, InstrOk m.slots x) : CoreInv ((m.release t mu).goto t rest) := by
  by_cases hmu : mu = .singleCore
  · subst hmu
    simp only [discNow, disc, and_eq_true] at hd
    have hown := (h.owner t).mp hd.1
    refine h.transfer hb ha rfl rfl rfl ?_ (fun u hu => ?_) ?_ hd.2 hr
    · simp
    · rw [hown]
      exact fun he => hu (some.inj he).symm
    · rw [Machine.release_goto_thread]
      simp
  · have hd' := disc_rest hd (by cases mu <;> first | exact absurd rfl hmu | rfl)
    exact coreInv_release h hb ha hmu hd'.2 hr

end

end Mutex

/-! ## Steps on the slots -/

theorem HasTask.modify {i run : Nat} {f : Slot → Slot} (h : HasTask ts run)
    (hf : (ts.at i).valid = true →
      (f (ts.at i)).valid = true ∧ (f (ts.at i)).taskid = (ts.at i).taskid) :
    HasTask (ts.modify i f) run := by
  obtain ⟨s, hs, hv, hr⟩ := h
  obtain ⟨j, hj, rfl⟩ := Slots.exists_at hs
  have hj' : j < (ts.modify i f).length := by rwa [length_modify]
  refine ⟨Slots.at (ts.modify i f) j, Slots.at_mem hj', ?_⟩
  by_cases hij : i = j
  · subst hij
    rw [Slots.at_modify_self hj]
    obtain ⟨h1, h2⟩ := hf hv
    exact ⟨h1, h2.trans hr⟩
  · rw [Slots.at_modify_ne hij]
    exact ⟨hv, hr⟩

theorem InstrOk.mono {ts ts' : Slots} (h : ∀ run, HasTask ts run → HasTask ts' run) {i : Instr}
    (hi : InstrOk ts i) : InstrOk ts' i := by
  cases i with
  | scheduleNew new run | scheduleRun run => exact h run hi
  | _ => trivial

/-- The slot search of `Pthread_Schedule` for the running task ends at a valid slot. -/
theorem findTask_valid {run : Nat} (hts : SlotsOk ts) (h : HasTask ts run) :
    ∃ j, ts.findTask run = some j ∧ (ts.at j).valid = true := by
  obtain ⟨s, hs, hv, hr⟩ := h
  obtain ⟨k, hk, rfl⟩ := Slots.exists_at hs
  obtain ⟨j, hj⟩ : ∃ j, ts.findTask run = some j :=
    Slots.findIdx_of_mem hs (by simp [hr])
  refine ⟨j, hj, hts.front j k ?_ hv⟩
  -- no slot before `j` carries the task, so `k` is not before `j`
  by_contra hlt
  have := (Slots.findIdx_some.mp hj).2.2 k (by omega)
  simp [hr] at this

/-- The slots change while no other thread is about to fill one. -/
theorem CoreInv.setSlots (h : CoreInv m) (hb : m.firstTime = false)
    (hts : SlotsOk ts) (hmono : ∀ run, HasTask m.slots run → HasTask ts run)
    (hc : ∀ t i rest, (m.thread t).alive = true → (m.thread t).code = .createThread i :: rest →
      ts.findFree = some i) : CoreInv { m with slots := ts } := by
  refine ⟨h.owner, fun t ha => ?_, h.pending, h.fresh, h.pos, h.next, hts, fun hf => ?_, hc⟩
  · have hty := h.typed t ha
    rw [hb] at hty ⊢
    exact ⟨hty.1, fun i hi => (hty.2 i hi).mono hmono⟩
  · exact absurd (hb.symm.trans hf) (by decide)

theorem slotsOk_fill (i id : Nat) (h : SlotsOk ts) :
    SlotsOk (ts.modify i fun s => { s with criticalNesting := 0, taskid := id }) := by
  have hat : ∀ j, (Slots.at (ts.modify i fun s => { s with criticalNesting := 0, taskid := id })
      j).valid = (ts.at j).valid ∧
      (Slots.at (ts.modify i fun s => { s with criticalNesting := 0, taskid := id }) j).thread =
        (ts.at j).thread := fun j => by
    by_cases hij : i = j
    · subst hij
      by_cases hi : i < ts.length
      · rw [Slots.at_modify_self hi]
        exact ⟨rfl, rfl⟩
      · rw [modify_eq_self (Nat.le_of_not_lt hi)]
        exact ⟨rfl, rfl⟩
    · rw [Slots.at_modify_ne hij]
      exact ⟨rfl, rfl⟩
  refine ⟨fun a b hab hv => ?_, fun s hs hv => ?_⟩
  · rw [(hat b).1] at hv
    rw [(hat a).1]
    exact h.front a b hab hv
  obtain ⟨j, hj, rfl⟩ := Slots.exists_at hs
  rw [(hat j).1] at hv
  rw [(hat j).2]
  exact h.thread _ (Slots.at_mem (by rwa [length_modify] at hj)) hv

variable {i : Nat}

theorem slotsOk_validate (h : SlotsOk ts)
    (hi : ts.findFree = some i) :
    SlotsOk (ts.modify i fun s => { s with valid := true, thread := t }) := by
  obtain ⟨hlt, _, hbefore⟩ := Slots.findFree_some.mp hi
  refine ⟨fun a b hab hv => ?_, fun s hs hv => ?_⟩
  · by_cases hia : i = a
    · subst hia
      rw [Slots.at_modify_self hlt]
    rw [Slots.at_modify_ne hia]
    by_cases hib : i = b
    · exact hbefore a (by omega)
    · rw [Slots.at_modify_ne hib] at hv
      exact h.front a b hab hv
  obtain ⟨j, hj, rfl⟩ := Slots.exists_at hs
  rw [length_modify] at hj
  by_cases hij : i = j
  · subst hij
    rw [Slots.at_modify_self hlt] at hv
    exact absurd hv (by simp)
  · rw [Slots.at_modify_ne hij] at hv ⊢
    exact h.thread _ (Slots.at_mem hj) hv

theorem findFree_fill {i id : Nat} (h : ts.findFree = some i) :
    Slots.findFree (ts.modify i fun s => { s with criticalNesting := 0, taskid := id }) =
      some i := by
  obtain ⟨hlt, hv, hbefore⟩ := Slots.findFree_some.mp h
  refine Slots.findFree_some.mpr ⟨by rwa [length_modify], ?_, fun j hj => ?_⟩
  · rwa [Slots.at_modify_self hlt]
  · rw [Slots.at_modify_ne (Nat.ne_of_gt hj)]
    exact hbefore j hj

section Slots

variable {m : Machine} {t : Tid} {rest : List Instr}

section
variable (h : CoreInv m) (hb : m.firstTime = false)
include h hb

/-- Only the owner of the mutex can be about to fill a slot. -/
theorem CoreInv.holds_of_createThread
    (ha : (m.thread t).alive = true) (hc : (m.thread t).code = .createThread i :: rest) :
    (m.thread t).holdsCore = true := by
  have hty := h.typed t ha
  unfold Typed at hty
  rw [hb, hc] at hty
  have hd := hty.1
  simp only [discNow, and_eq_true] at hd
  exact hd.1.1

/-- While `t` owns the mutex and is not about to fill a slot, nobody is. -/
theorem CoreInv.not_createThread (hh : (m.thread t).holdsCore = true)
    (hne : ∀ i r, (m.thread t).code ≠ .createThread i :: r) {u : Tid}
    (ha : (m.thread u).alive = true) : (m.thread u).code ≠ .createThread i :: rest := by
  intro hc
  have hu := (h.owner u).mp (h.holds_of_createThread hb ha hc)
  rw [(h.owner t).mp hh] at hu
  cases some.inj hu
  exact hne i rest hc

/-- A new thread starts in `Thread_Wrapper`, before its first lock. -/
theorem CoreInv.spawn {mk : Mask}
    (hmk : mk.suspend = false) :
    CoreInv { m with
      thread := update m.thread m.nextTid
        { Thread.absent with code := threadWrapper, mask := mk, alive := true }
      nextTid := m.nextTid + 1 } := by
  have hself : update m.thread m.nextTid
      { Thread.absent with code := threadWrapper, mask := mk, alive := true } m.nextTid =
        { Thread.absent with code := threadWrapper, mask := mk, alive := true } :=
    update_self ..
  refine ⟨fun u => ?_, fun u ha => ?_, fun u => ?_, fun u hu => ?_, ?_, Nat.succ_pos _, h.slots,
    h.boot, fun u i rest ha hc => ?_⟩ <;> simp only at *
  · by_cases hu : u = m.nextTid
    · have hno : m.owner .singleCore ≠ some m.nextTid := fun ho => by
        have := (h.owner m.nextTid).mpr ho
        rw [(h.fresh _ (Nat.le_refl _)).2] at this
        exact nomatch this
      rw [hu]
      simp [hno]
    · rw [update_of_ne hu]
      exact h.owner u
  · by_cases hu : u = m.nextTid
    · rw [hu, hself]
      rw [hb]
      refine ⟨?_, fun i hi => ?_⟩
      · simp only [hmk]
        decide
      · simp only [threadWrapper, suspendThread, mem_cons, not_mem_nil, or_false] at hi
        rcases hi with rfl | rfl | rfl | rfl | rfl | rfl <;> trivial
    · rw [update_of_ne hu] at ha ⊢
      exact h.typed u ha
  · by_cases hu : u = m.nextTid
    · rw [hu, hself]
      rfl
    · rw [update_of_ne hu]
      exact h.pending u
  · rw [update_of_ne (Nat.ne_of_gt hu)]
    exact h.fresh u (Nat.le_of_lt hu)
  · rw [update_of_ne (Nat.ne_of_lt h.next)]
    exact h.pos
  by_cases hu : u = m.nextTid
  · rw [hu] at hc
    simp [threadWrapper] at hc
  · rw [update_of_ne hu] at ha hc
    exact h.create u i rest ha hc

theorem coreInv_createSlot {i id : Nat}
    (ha : (m.thread t).alive = true) (hc : (m.thread t).code = .createSlot id :: rest)
    (hh : (m.thread t).holdsCore = true) (hm : (m.thread t).mask.suspend = false)
    (hd : disc (m.thread t).holdsCore (m.thread t).mask.suspend rest = true)
    (hr : ∀ x ∈ rest, InstrOk m.slots x) (hi : m.slots.findFree = some i) :
    CoreInv { m.goto t (createTail i ++ rest) with
      slots := m.slots.modify i fun s => { s with criticalNesting := 0, taskid := id } } := by
  have hinv : (m.slots.at i).valid = false := (Slots.findFree_some.mp hi).2.1
  have hmono : ∀ run, HasTask m.slots run →
      HasTask (m.slots.modify i fun s => { s with criticalNesting := 0, taskid := id }) run :=
    fun run hrun => hrun.modify fun hv => absurd (hinv.symm.trans hv) (by decide)
  have hne : ∀ j r, (m.thread t).code ≠ .createThread j :: r := by simp [hc]
  have h1 := h.setSlots hb (slotsOk_fill i id h.slots) hmono
    fun u j r hau hcu => absurd hcu (h.not_createThread hb hh hne hau)
  refine h1.frame ha rfl rfl rfl rfl (fun u _ => Iff.rfl) (h.owner t) (h.pending t) fun _ => ⟨?_, fun j r hj => ?_⟩
  · simp only [hb]
    refine ⟨?_, fun x hx => ?_⟩
    · rw [hh] at hd ⊢
      rw [hm] at hd ⊢
      simpa [createTail] using hd
    rcases mem_append.mp hx with hx | hx
    · simp only [createTail, mem_cons, not_mem_nil, or_false] at hx
      rcases hx with rfl | rfl | rfl | rfl | rfl | rfl | rfl <;> trivial
    · exact (hr x hx).mono hmono
  · simp only [createTail, cons_append, List.cons.injEq, Instr.createThread.injEq] at hj
    rw [← hj.1]
    exact findFree_fill hi

theorem coreInv_createThread
    (ha : (m.thread t).alive = true) (hc : (m.thread t).code = .createThread i :: rest)
    (hm : (m.thread t).mask.suspend = false)
    (hd : disc (m.thread t).holdsCore (m.thread t).mask.suspend rest = true)
    (hr : ∀ x ∈ rest, InstrOk m.slots x) :
    CoreInv { m.goto t rest with
      slots := m.slots.modify i fun s => { s with valid := true, thread := m.nextTid }
      thread := update (m.goto t rest).thread m.nextTid
        { Thread.absent with code := threadWrapper, mask := (m.thread t).mask, alive := true }
      nextTid := m.nextTid + 1 } := by
  have hi := h.create t i rest ha hc
  have hh := h.holds_of_createThread hb ha hc
  have h1 : CoreInv (m.goto t rest) := h.goOn hb ha rfl hd hr
  have hself : (m.goto t rest).thread t = { m.thread t with code := rest } := by
    simp only [goto, Machine.modify, update_self]
  have h2 := h1.setSlots hb (slotsOk_validate (t := m.nextTid) h.slots hi)
    (fun run hrun => hrun.modify fun _ => ⟨rfl, rfl⟩)
    fun u j r hau hcu => absurd hcu
      (h1.not_createThread hb (by rwa [hself])
        (by rw [hself]; exact disc_ne_createThread hd) hau)
  exact h2.spawn hb hm

end

end Slots

/-! ## Every instruction -/

section Exec

variable {m m' : Machine} {t : Tid} {i : Instr} {rest : List Instr}

theorem instrOk_suspendThread (ts : Slots) : ∀ x ∈ suspendThread, InstrOk ts x := by
  simp [suspendThread]

variable {ts : Slots}

theorem instrOk_append {c d : List Instr} (hc : ∀ x ∈ c, InstrOk ts x)
    (hd : ∀ x ∈ d, InstrOk ts x) : ∀ x ∈ c ++ d, InstrOk ts x := fun x hx =>
  (mem_append.mp hx).elim (hc x) (hd x)

theorem instrOk_cons {x : Instr} {d : List Instr} (hx : InstrOk ts x)
    (hd : ∀ y ∈ d, InstrOk ts y) : ∀ y ∈ x :: d, InstrOk ts y := fun y hy => by
  rcases mem_cons.mp hy with rfl | hy
  · exact hx
  · exact hd y hy

/-- Marking the end of a tick handler changes neither the discipline nor the tasks named. -/
theorem disc_markSwitched {h b : Bool} (hd : disc h b rest = true)
    (hr : ∀ x ∈ rest, InstrOk ts x) :
    disc h b (markSwitched rest) = true ∧ ∀ x ∈ markSwitched rest, InstrOk ts x := by
  unfold markSwitched
  split
  · exact ⟨hd, instrOk_cons trivial fun x hx => hr x (mem_cons_of_mem _ hx)⟩
  · exact ⟨hd, hr⟩

/-- The thread ends. -/
theorem CoreInv.die (h : CoreInv m) (ha : (m.thread t).alive = true) :
    CoreInv (m.modify t fun th => { th with code := [], alive := false }) := by
  refine h.frame ha rfl rfl rfl rfl (fun u _ => Iff.rfl) (h.owner t) (h.pending t) fun hal => ?_
  exact absurd hal (by simp)

/-- `SIG_RESUME` is sent to a thread or arrives at it. -/
theorem CoreInv.resume {u : Tid} {p : Bool} (h : CoreInv m) :
    CoreInv (m.modify u fun th => { th with resumePending := p }) := by
  have hsame : ∀ v, Same ((m.modify u fun th => { th with resumePending := p }).thread v)
      (m.thread v) := fun v => by
    by_cases hv : v = u
    · subst hv
      simp only [Machine.modify, update_self]
      exact ⟨rfl, rfl, rfl, rfl, rfl⟩
    · simp only [Machine.modify, update_of_ne hv]
      exact Same.refl _
  refine ⟨fun v => ?_, fun v ha => ?_, fun v => ?_, fun v hv => ?_, ?_, h.next, h.slots, h.boot,
    fun v i rest ha hc => ?_⟩
  · rw [(hsame v).2.2.2.1]
    exact h.owner v
  · exact (hsame v).typed (h.typed v ((hsame v).2.2.2.2 ▸ ha))
  · rw [(hsame v).2.2.1]
    exact h.pending v
  · rw [(hsame v).2.2.2.2, (hsame v).2.2.2.1]
    exact h.fresh v hv
  · rw [(hsame 0).2.2.2.2]
    exact h.pos
  · rw [(hsame v).1] at hc
    exact h.create v i rest ((hsame v).2.2.2.2 ▸ ha) hc

/-- **One instruction keeps the invariant**, once the back end is set up. -/
theorem coreInv_exec (h : CoreInv m) (hb : m.firstTime = false) (ha : (m.thread t).alive = true)
    (hc : (m.thread t).code = i :: rest) (hi : m.instr t i rest = some m') : CoreInv m' := by
  have hty := h.typed t ha
  unfold Typed at hty
  rw [hb, hc] at hty
  obtain ⟨hd, hr⟩ := hty
  have hrest : ∀ x ∈ rest, InstrOk m.slots x := fun x hx => hr x (mem_cons_of_mem _ hx)
  cases i with
  | disableIrq | enableIrq | disableTick | enableTick | setCreat | setupTicker =>
    cases hi
    exact h.goOn hb ha rfl (disc_rest hd rfl).2 hrest
  | enterSigwait =>
    cases hi
    exact h.goOn hb ha rfl hd hrest
  | waitCreat | sigwait =>
    simp only [instr] at hi
    split_ifs at hi
    cases hi
    exact h.goOn hb ha rfl hd hrest
  | lock mu =>
    obtain ⟨hfree, ⟨⟩⟩ := ite_none_right_eq_some.mp hi
    exact coreInv_lock h hb ha hd hrest hfree
  | unlock mu =>
    cases hi
    exact coreInv_unlock h hb ha hd hrest
  | unlockSystick site =>
    cases hi
    exact coreInv_release h hb ha (by decide) (disc_rest hd rfl).2 hrest
  | killSuspend =>
    simp only [discNow, disc, and_eq_true, not_eq_true'] at hd
    obtain ⟨⟨hh, hs⟩, hd⟩ := hd
    simp only [instr, hs, false_eq_true, if_false, some.injEq] at hi
    subst hi
    refine h.goOn hb ha rfl ?_ ?_
    · rw [hh] at hd
      rw [hh]
      simpa [hs] using hd
    · exact instrOk_append (by simp) (instrOk_cons trivial hrest)
  | resumeThread u =>
    have hd' := (disc_rest hd rfl).2
    simp only [instr] at hi
    split_ifs at hi with hut <;> cases hi
    · exact h.goOn hb ha rfl hd' hrest
    have hsame : (m.modify u fun th => { th with resumePending := true }).thread t =
        m.thread t := by
      simp only [Machine.modify, update_of_ne (Ne.symm hut)]
    refine h.resume.goOn hb (by rwa [hsame]) rfl ?_ hrest
    rwa [hsame]
  | createSetup id =>
    simp only [discNow, disc, and_eq_true, not_eq_true'] at hd
    simp only [instr, hb, false_eq_true, if_false, some.injEq] at hi
    subst hi
    refine h.goOn hb ha rfl ?_ (instrOk_cons trivial hrest)
    simp only [disc, and_eq_true, not_eq_true']
    exact hd
  | createSlot id =>
    simp only [discNow, disc, and_eq_true, not_eq_true'] at hd
    simp only [instr] at hi
    split at hi <;> cases hi
    · exact { h with }
    · rename_i j hj
      exact coreInv_createSlot h hb ha hc hd.1.1 hd.1.2 hd.2 hrest hj
  | createThread j =>
    simp only [discNow, and_eq_true, not_eq_true'] at hd
    cases hi
    exact coreInv_createThread h hb ha hc hd.1.2 hd.2 hrest
  | startSearch id =>
    simp only [discNow, disc, and_eq_true, not_eq_true'] at hd
    simp only [instr] at hi
    split at hi <;> cases hi
    · exact h.goOn hb ha rfl hd.1.1 (instrOk_cons trivial hrest)
    · refine h.goOn hb ha rfl ?_ (instrOk_cons trivial
        (instrOk_append (instrOk_suspendThread _) (instrOk_cons trivial hrest)))
      simp [suspendThread, hd]
  | teardown | exitThread =>
    cases hi
    exact h.die ha
  | scheduleNew new run inTick =>
    have hd' := disc_rest hd rfl
    have hrun : HasTask m.slots run := hr _ mem_cons_self
    have hback : disc (m.thread t).holdsCore (m.thread t).mask.suspend
          (if inTick then markSwitched rest else rest) = true ∧
        ∀ x ∈ (if inTick then markSwitched rest else rest), InstrOk m.slots x := by
      cases inTick with
      | true => exact disc_markSwitched hd'.2 hrest
      | false => exact ⟨hd'.2, hrest⟩
    rcases Machine.instr_scheduleNew hi with rfl | rfl | ⟨j, -, -, rfl⟩
    · exact h.goOn hb ha rfl hd'.2 hrest
    · exact { h with }
    refine h.goOn hb ha rfl ?_ (instrOk_append ?_ hback.2)
    · simp only [scheduleTail, cons_append, disc, and_eq_true]
      exact ⟨hd'.1, hd'.1, hd'.1, hd'.1, hback.1⟩
    · simp [scheduleTail, hrun]
  | scheduleRun run =>
    have hd' := disc_rest hd rfl
    obtain ⟨j, hj, hv⟩ := findTask_valid h.slots (hr _ mem_cons_self)
    simp only [Machine.instr, hj, hv, if_true, some.injEq] at hi
    subst hi
    refine h.goOn hb ha rfl ?_
      (instrOk_append (by simp) hrest)
    obtain ⟨hh, hd'⟩ := hd'
    rw [hh] at hd' ⊢
    simp [hd']
  | setupSlots | cancelThread | tickCheck | tickTrylock => simp at hd
  | sigreturn mk =>
    simp only [discNow, disc, and_eq_true] at hd
    cases hi
    exact h.goOn hb ha rfl hd.2 hrest

end Exec

/-! ## Setting up the back end -/

section Boot

variable {m m' : Machine} {t : Tid} {i : Instr} {rest c : List Instr}

/-- A step of the initial thread that leaves the mutex alone and does not end the set-up. -/
theorem CoreInv.bootOn (h : CoreInv m) (hb : m.firstTime = true)
    (ha : (m.thread t).alive = true) (hth : m'.thread = update m.thread t { m.thread t with code := c })
    (hc : Booting (m.thread t).holdsCore c) (hf : m'.firstTime = m.firstTime := by rfl)
    (hs : m'.slots = m.slots := by rfl) (hn : m'.nextTid = m.nextTid := by rfl)
    (ho : m'.owner .singleCore = m.owner .singleCore := by rfl) : CoreInv m' := by
  have hty := h.typed t ha
  rw [hb] at hty
  refine h.frame ha hf hs hn hth (fun u _ => by rw [ho]) (ho ▸ h.owner t) (h.pending t) fun _ =>
    ⟨?_, fun i r he => ?_⟩
  · rw [hb]
    exact ⟨hty.1, hty.2.1, hc⟩
  simp only at he
  rw [he] at hc
  generalize (m.thread t).holdsCore = v at hc
  cases hc

/-- The set-up ends: from here on the initial thread keeps the discipline like any other. -/
theorem CoreInv.setUp {id : Nat} (h : CoreInv m) (ha : (m.thread t).alive = true)
    (hb : m.firstTime = true) (hh : (m.thread t).holdsCore = true)
    (hm : (m.thread t).mask.suspend = false) (ht : t = initThread) :
    CoreInv { m.goto t [.createSlot id] with slots := Slots.zero, firstTime := false } := by
  have hself : (m.goto t [.createSlot id]).thread t =
      { m.thread t with code := [.createSlot id] } := by
    simp only [Machine.goto, Machine.modify, update_self]
  have hoth : ∀ u, u ≠ t → (m.goto t [.createSlot id]).thread u = m.thread u := fun u hu => by
    simp only [Machine.goto, Machine.modify, update_of_ne hu]
  have halone : ∀ u, u ≠ t → (m.thread u).alive = false := fun u hu => by
    rw [← Bool.not_eq_true]
    intro hau
    have hty := h.typed u hau
    rw [hb] at hty
    exact hu (hty.1.trans ht.symm)
  refine ⟨fun u => ?_, fun u hau => ?_, fun u => ?_, fun u hu => ?_, ?_, h.next, slotsOk_zero,
    fun _ => rfl, fun u i rest hau hc => ?_⟩ <;> simp only at *
  · by_cases hut : u = t
    · rw [hut, hself]
      exact h.owner t
    · rw [hoth u hut]
      exact h.owner u
  · by_cases hut : u = t
    · rw [hut, hself]
      unfold Typed
      simp [hh, hm]
    · rw [hoth u hut, halone u hut] at hau
      cases hau
  · by_cases hut : u = t
    · rw [hut, hself]
      exact h.pending t
    · rw [hoth u hut]
      exact h.pending u
  · rw [hoth u (Nat.ne_of_gt (Nat.lt_of_lt_of_le (h.lt_next ha) hu))]
    exact h.fresh u hu
  · rw [hoth 0 (h.ne_zero ha)]
    exact h.pos
  by_cases hut : u = t
  · rw [hut, hself] at hc
    simp at hc
  · rw [hoth u hut, halone u hut] at hau
    cases hau

theorem coreInv_exec_boot (h : CoreInv m) (hb : m.firstTime = true)
    (ha : (m.thread t).alive = true) (hc : (m.thread t).code = i :: rest)
    (hi : m.instr t i rest = some m') : CoreInv m' := by
  have hty := h.typed t ha
  unfold Typed at hty
  rw [hb, hc] at hty
  obtain ⟨ht, hm, hbt⟩ := hty
  generalize hh : (m.thread t).holdsCore = v at hbt
  have hzero := h.boot hb
  cases hbt with
  | create id =>
    cases hi
    exact h.bootOn hb ha rfl (hh ▸ .create1 id)
  | create1 id =>
    obtain ⟨-, ⟨⟩⟩ := ite_none_right_eq_some.mp hi
    refine h.bootOn hb ha (take_goto_thread_of_ne (by decide)) (hh ▸ .create2 id) rfl rfl rfl ?_
    simp
  | create2 id =>
    simp only [instr, hb, if_true, some.injEq] at hi
    subst hi
    exact h.bootOn hb ha rfl (hh ▸ .setup id)
  | setup id =>
    obtain ⟨hfree, ⟨⟩⟩ := ite_none_right_eq_some.mp hi
    have hth : ((m.take t .singleCore).goto t [.setupSlots, .createSlot id]).thread = update m.thread t
        { m.thread t with code := [.setupSlots, .createSlot id], holdsCore := true } := by
      rw [take_goto_thread]
      simp
    refine h.frame ha rfl rfl rfl hth (fun u hu => ?_) ?_ (h.pending t) fun _ => ⟨?_, by simp⟩
    · simp [hfree, Ne.symm hu]
    · simp
    · rw [hb]
      exact ⟨ht, hm, .setup1 id⟩
  | setup1 id =>
    cases hi
    exact h.setUp ha hb hh hm ht
  | start id =>
    cases hi
    exact h.bootOn hb ha rfl (hh ▸ .start1 id)
  | start1 id =>
    have hnone : m.slots.findValid id = none := by
      rw [hzero]
      unfold Slots.findValid
      rw [findIdx?_eq_none_iff]
      intro s hs
      rw [eq_of_mem_replicate hs]
      exact Bool.and_false _
    simp only [instr, hnone, some.injEq] at hi
    subst hi
    exact h.bootOn hb ha rfl (hh ▸ .start2)
  | start2 =>
    cases hi
    exact h.die ha

end Boot

/-! ## Every step -/

/-- The label is the arrival of a tick. -/
def Label.isTick : Label → Bool
  | .tick _ _ => true
  | _ => false

theorem CoreInv.call {c : Call} (h : CoreInv m)
    (ha : (m.thread t).alive = true) (hc : (m.thread t).code = []) (hmay : m.mayCall t c = true) :
    CoreInv (m.goto t (callCode c)) := by
  have hty := h.typed t ha
  unfold Typed at hty
  rw [hc] at hty
  have hslot : ∀ run, m.ownTask t run = true → HasTask m.slots run := by
    intro run hown
    simp only [Machine.ownTask, List.any_eq_true, and_eq_true, beq_iff_eq] at hown
    obtain ⟨s, hs, hst, hsr⟩ := hown
    refine ⟨s, hs, ?_, hsr⟩
    by_contra hv
    exact h.ne_zero ha ((h.slots.thread s hs (Bool.eq_false_iff.mpr hv)).symm.trans hst)
  cases hb : m.firstTime with
  | true =>
    rw [hb] at hty
    obtain ⟨_, _, hbt⟩ := hty
    have hh : (m.thread t).holdsCore = false := by
      generalize (m.thread t).holdsCore = v at hbt
      cases hbt
      rfl
    cases c with
    | create id => exact h.bootOn hb ha rfl (hh ▸ .create id)
    | start id => exact h.bootOn hb ha rfl (hh ▸ .start id)
    | schedule new run =>
      obtain ⟨s, hs, hv, _⟩ := hslot run hmay
      rw [h.boot hb] at hs
      rw [eq_of_mem_replicate hs] at hv
      exact nomatch hv
  | false =>
    rw [hb] at hty
    obtain ⟨hh, hm⟩ : (m.thread t).holdsCore = true ∧ (m.thread t).mask.suspend = false := by
      simpa using hty.1
    cases c with
    | create id =>
      refine h.goOn hb ha rfl ?_ (by simp [pmcuBeTaskCreate])
      simp [pmcuBeTaskCreate, hh, hm]
    | start id =>
      refine h.goOn hb ha rfl ?_ (by simp [startScheduler])
      simp [startScheduler, hh, hm]
    | schedule new run =>
      refine h.goOn hb ha rfl ?_ (instrOk_cons (hslot run hmay) (by simp))
      simp [hh, hm]

/-- **Every step but a tick keeps the invariant.** -/
theorem coreInv_step {l : Label} (h : CoreInv m) (hl : l.isTick = false)
    (hs : m.step l = some m') : CoreInv m' := by
  cases l with
  | exec t =>
    obtain ⟨i, rest, ha, hc, hi⟩ := step_cases hs
    cases hb : m.firstTime with
    | true => exact coreInv_exec_boot h hb ha hc hi
    | false => exact coreInv_exec h hb ha hc hi
  | call t c =>
    obtain ⟨ha, hc, hmay, rfl⟩ := step_cases hs
    exact h.call ha hc hmay
  | resumeArrives t =>
    obtain ⟨-, -, rfl⟩ := step_cases hs
    exact h.resume
  | suspendArrives t =>
    obtain ⟨-, hp, -⟩ := step_cases hs
    exact absurd hp (by simp [h.pending t])
  | tick t sw => exact absurd hl (by simp [Label.isTick])

/-- Every state that steps other than ticks reach. -/
theorem coreInv_run {as : List Label} (hops : ∀ l ∈ as, l.isTick = false)
    (h : exec step boot as = some m) : CoreInv m := by
  have hg : Guarded step (fun _ l => l.isTick = false) boot as :=
    guarded_of_forall fun l hl _ => hops l hl
  exact exec_inv_guarded (fun _ _ _ hi hl hs => coreInv_step hi hl hs) coreInv_boot hg h

/-! ## The emulated core -/

/-- The points at which a thread does not execute task or kernel code: it waits for the mutex, for
the new thread of `PMCU_BE_Task_Create`, stands between the unlock before `sigwait` and the return
from it, or ends after its unlock. -/
def waits : List Instr → Bool
  | .lock .singleCore :: _ => true
  | .waitCreat :: _ => true
  | .enterSigwait :: _ => true
  | .sigwait :: _ => true
  | .exitThread :: _ => true
  | _ => false

/-- At most one thread owns `single_core_mutex`; a thread that executes task or kernel code owns
it, the initial thread before the back end is set up excepted; a thread that unlocks it is the one
that owns it. -/
structure SingleCore (m : Machine) : Prop where
  unique : ∀ t u, (m.thread t).holdsCore = true → (m.thread u).holdsCore = true → t = u
  owns : ∀ t, (m.thread t).alive = true → (m.firstTime = false ∨ t ≠ initThread) →
    waits (m.thread t).code = false → (m.thread t).holdsCore = true
  unlock : ∀ t rest, (m.thread t).alive = true →
    (m.thread t).code = .unlock .singleCore :: rest → m.owner .singleCore = some t

theorem holds_of_disc {h b : Bool} (hd : discNow h b c = true) (hw : waits c = false) : h = true := by
  cases h with
  | true => rfl
  | false =>
    cases c with
    | nil => exact absurd hd (by simp)
    | cons i c =>
      cases i with
      | lock mu => cases mu <;> simp_all [waits]
      | unlock mu => cases mu <;> simp_all
      | _ => simp_all [waits]

theorem CoreInv.singleCore (h : CoreInv m) : SingleCore m := by
  refine ⟨fun t u ht hu => ?_, fun t ha hne hw => ?_, fun t rest ha hc => ?_⟩
  · have hu' := (h.owner u).mp hu
    rw [(h.owner t).mp ht] at hu'
    exact some.inj hu'
  · have hty := h.typed t ha
    cases hb : m.firstTime with
    | true =>
      rw [hb] at hty hne
      exact absurd hty.1 (hne.resolve_left (by decide))
    | false =>
      rw [hb] at hty
      exact holds_of_disc hty.1 hw
  have hty := h.typed t ha
  unfold Typed at hty
  rw [hc] at hty
  refine (h.owner t).mp ?_
  cases hb : m.firstTime with
  | true =>
    rw [hb] at hty
    generalize (m.thread t).holdsCore = v at hty
    obtain ⟨_, _, hbt⟩ := hty
    cases hbt
  | false =>
    rw [hb] at hty
    exact holds_of_disc hty.1 rfl

/-- **Single-core emulation**: it holds in every state that an interleaving of
`PMCU_BE_Task_Create`, `Start_Scheduler` and `Pthread_Schedule` by any threads reaches, as long as no
thread handles a tick. -/
theorem single_core_emulation {as : List Label} {m : Machine}
    (hops : ∀ l ∈ as, l.isTick = false) (h : exec step boot as = some m) :
    SingleCore m :=
  (coreInv_run hops h).singleCore

/-- Two tasks are created, the first is started and switches to the second. -/
def bootAndSwitch : List Label :=
  .call 1 (.create 0) :: execs 1 9 ++ execs 2 8 ++ execs 1 4 ++
    .call 1 (.create 1) :: execs 1 7 ++ execs 3 8 ++ execs 1 4 ++
    .call 1 (.start 0) :: execs 1 10 ++ execs 2 5 ++
    .call 2 (.schedule 1 0) :: execs 2 9 ++ execs 3 5

theorem single_core_emulation_two_tasks :
    ∃ m, exec step boot bootAndSwitch = some m ∧ SingleCore m := by
  have hsome : (exec step boot bootAndSwitch).isSome = true := by decide +kernel
  obtain ⟨m, hm⟩ := isSome_iff_exists.mp hsome
  exact ⟨m, hm, single_core_emulation (by decide) hm⟩

/-- Behind `lateRelease` thread 2 gives `systick_mutex` back and goes on as the owner of the core. A tick
in thread 4, which waits in `PMCU_BE_Task_Create`, gets that lock and switches from task 2 to task 1. -/
def tickWhileWaiting : List Label :=
  lateRelease ++ execs 2 3 ++ .tick 4 (some (1, 2)) :: execs 4 10

/-- Thread 4 is then at the unlock of `Suspend_Thread_Self`, and thread 2 owns the mutex. -/
theorem tick_without_core : ∃ m, exec step boot tickWhileWaiting = some m ∧
    (m.thread 4).holdsCore = false ∧ m.owner .singleCore = some 2 ∧ ¬ SingleCore m := by
  obtain ⟨m, hm, halive, hcode, hholds, howner⟩ : ∃ m, exec step boot tickWhileWaiting = some m ∧
      (m.thread 4).alive = true ∧ (m.thread 4).code.head? = some (.unlock .singleCore) ∧
      (m.thread 4).holdsCore = false ∧ m.owner .singleCore = some 2 := by decide +kernel
  obtain ⟨rest, hrest⟩ := head?_eq_some_iff.mp hcode
  refine ⟨m, hm, hholds, howner, fun h => ?_⟩
  have hown := h.unlock 4 rest halive hrest
  rw [howner] at hown
  exact absurd hown (by decide)

end LiteosM.Port
