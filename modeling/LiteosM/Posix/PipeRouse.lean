import LiteosM.Posix.PipeEof

/-!
# Nobody sleeps on for want of a post

`PIPE_RW_POST` wakes every thread that sleeps and leaves one token. A thread that has given the mutex back
and has not called `LOS_SemPend` yet needs that token, and there may be two of them (`pipe_leaves_asleep`).

* `Attentive`: as long as there is one at most, whoever waits without a token finds nothing to do, or a
  thread that has the mutex will still post;
* **`pipe_rouses`**: so no reader or writer is left asleep.

The steps are those of `Posix.Pipe`, and the condition is on the step that brings the second thread between
the mutex and its `LOS_SemPend`. Whether somebody is left asleep is decided later, by who comes first.
-/

namespace LiteosM.Posix

open LiteosM.Lib Function List Option Pipe

/-- The thread has given the mutex back and is about to wait for the semaphore of the end. -/
@[simp] def Thread.pending : End → Thread → Bool
  | .read, .reading _ _ _ .pend | .write, .writing _ _ .pend => true
  | _, _ => false

/-- It sleeps there. -/
@[simp] def Thread.asleep : End → Thread → Bool
  | .read, .reading _ _ _ .asleep | .write, .writing _ _ .asleep => true
  | _, _ => false

/-- It has found the ring empty, or full, and still has the mutex. -/
@[simp] def Thread.found : End → Thread → Bool
  | .read, .reading _ _ _ pc =>
    match pc with
    | .drain | .drainPend | .drainAsleep | .probe _ => true
    | _ => false
  | .write, .writing _ _ pc =>
    match pc with
    | .postFull | .drain | .drainPend | .drainAsleep => true
    | _ => false
  | _, _ => false

/-- It will see to it that the semaphore of the end counts before it gives the mutex back. -/
@[simp] def Thread.rouses : End → Thread → Bool
  | .read, .writing _ _ .loop | .read, .writing _ _ .postFull | .read, .writing _ _ .postEnd => true
  | .write, .reading _ _ _ pc =>
    match pc with
    | .loop | .drain | .drainPend | .drainAsleep | .probe _ | .post => true
    | _ => false
  | _, _ => false

/-- It is about to take the mutex. -/
def Thread.locks : Thread → Bool
  | .reading _ _ _ .lock | .reading _ _ _ .relock | .writing _ _ .lock => true
  | _ => false

/-- There is nothing to do at the end: the ring is empty, or full. -/
def Pipe.Stuck (p : Pipe) : End → Prop
  | .read => p.ring.contents = []
  | .write => p.ring.contents.length = p.ring.size

/-- The step moves bytes. -/
@[simp] def Act.moves : Act → Bool
  | .take .. | .put .. => true
  | _ => false

/-- The step pends on the semaphore of `e`. -/
@[simp] def Act.pends (e : End) : Act → Bool
  | .semPend e' .. => e' = e
  | _ => false

/-- What the step of a thread means for an end. -/
@[simp] def Act.Minds (p : Pipe) (e : End) (th : Thread) (a : Act) (th' : Thread) : Prop :=
  (th'.found e → th.found e ∨ p.Stuck e) ∧ (th.rouses e → th'.rouses e ∨ (p.sem e).semCount ≠ 0) ∧
    (th'.pending e → a = .unlock th' ∧ (th.found e ∨ p.Stuck e)) ∧ (th'.asleep e → th.pending e) ∧
    (a.pends e → th.found e ∨ th.pending e) ∧
    (a.moves → th.inside ∧ (p.Stuck e → th.rouses e) ∧ th'.found e = false)

section
variable {p p' : Pipe} {t u : Nat} {e : End} {th : Thread} {a : Act}

theorem Pipe.act_minds (hs : Shaped p) (h : p.act th = some a) : ∀ th' ∈ a.thens, a.Minds p e th th' := by
  cases th with
  | idle ret => cases h
  | reading buf len nread pc =>
    cases pc with
    | loop =>
      have hgot : nread < len →
          ((pipeRingbufferRead p.ring (fun i => buf (nread + i)) (len - nread)).2 = [] ↔ p.Stuck .read) := by
        refine fun hmore => ⟨fun hnil => ?_, fun hc => ?_⟩
        · by_contra hc
          simpa [hnil] using pipeRingbufferRead_ne_nil hs.1 hc (fun i => buf (nread + i)) (Nat.sub_pos_of_lt hmore)
        · rw [pipeRingbufferRead_empty hs.1 hc]
      simp only [act, readAct] at h
      split_ifs at h <;> cases h <;> cases e <;> simp_all [Thread.inside]
    | _ =>
      simp only [act, readAct, ← hs.1.contents_eq_nil_iff] at h
      split_ifs at h <;> cases h <;> cases e <;> simp_all [Stuck]
  | writing buf nwrite pc =>
    cases pc with
    | loop =>
      have hput : nwrite < buf.length →
          ((pipeRingbufferWrite p.ring (buf.drop nwrite)).2 = 0 ↔ p.Stuck .write) := by
        refine fun hmore => ⟨fun hzero => ?_, fun hc => ?_⟩
        · by_contra hc
          have hlt := Nat.lt_of_le_of_ne hs.1.length_contents_le hc
          have := pipeRingbufferWrite_eq hs.1 hlt (buf.drop nwrite)
          have := hs.1.writable_pos hlt
          rw [length_drop] at *
          omega
        · rw [pipeRingbufferWrite, if_pos (hs.1.full_iff.mp hc)]
      simp only [act, writeAct] at h
      split_ifs at h <;> cases h <;> cases e <;> simp_all [Thread.inside]
    | _ =>
      simp only [act, writeAct] at h
      split_ifs at h <;> cases h <;> cases e <;> simp_all
  | closing pc =>
    cases pc <;> simp only [act, closeAct] at h <;> split_ifs at h <;> cases h <;> cases e <;>
      simp

/-- A thread in the window goes to sleep, or takes a token. -/
theorem Pipe.act_pending (hw : th.pending e = true) (h : p.act th = some a) :
    ∃ granted asleep, a = .semPend e granted asleep ∧ granted.asleep e = false := by
  cases e <;> unfold Thread.pending at hw <;> split at hw <;> simp_all [act, readAct, writeAct] <;>
    exact ⟨_, ⟨_, h.2.symm⟩, rfl⟩

theorem Thread.wake_minds (th : Thread) (e : End) : th.wake.pending e = th.pending e ∧
    th.wake.found e = th.found e ∧ th.wake.rouses e = th.rouses e ∧ th.wake.asleep e = false := by
  cases th with
  | reading buf len nread pc | writing buf nwrite pc => cases pc <;> cases e <;> simp [wake]
  | _ => simp [wake]

theorem Thread.inside_of_found (h : th.found e = true ∨ th.rouses e = true) : th.inside = true := by
  cases th with
  | reading buf len nread pc | writing buf nwrite pc => cases pc <;> cases e <;> simp_all [inside]
  | _ => simp at h

theorem sem_semPend_of_ne (e : End) (th th' : Thread) {e' : End} (hee : e' ≠ e) :
    (p.semPend e t th th').sem e' = p.sem e' := by
  unfold semPend
  split_ifs <;> exact update_of_ne hee ..

theorem sem_semPost_of_ne (e : End) {e' : End} (hee : e' ≠ e) : (p.semPost e).sem e' = p.sem e' := by
  unfold semPost
  split <;> exact update_of_ne hee ..

theorem thread_semPend (e : End) (th th' : Thread) :
    (p.semPend e t th th').thread t = if (p.sem e).semCount > 0 then th else th' := by
  unfold semPend
  split_ifs <;> exact update_self ..

section
variable (happ : p.apply t a = some p')
include happ

theorem Pipe.others_mind (hu : u ≠ t) (e : End) :
    (p'.thread u).pending e = (p.thread u).pending e ∧ (p'.thread u).found e = (p.thread u).found e ∧
      (p'.thread u).rouses e = (p.thread u).rouses e ∧ ((p'.thread u).asleep e → (p.thread u).asleep e) := by
  rcases apply_thread_of_ne happ hu with heq | heq
  · rw [heq]
    exact ⟨rfl, rfl, rfl, id⟩
  · obtain ⟨hp, hf, hr, hs⟩ := (p.thread u).wake_minds e
    rw [heq, hs]
    exact ⟨hp, hf, hr, fun hc => Bool.noConfusion hc⟩

theorem Pipe.ring_of_not_moves (h : a.moves = false) : p'.ring = p.ring := by
  have hring := congrArg (fun d => d.1) (apply_data happ)
  cases a with
  | take | put => cases h
  | _ => exact hring

/-- Tokens are taken by `LOS_SemPend` only, and who goes on sleeping stays in the list. -/
theorem Pipe.sem_kept (e : End) : (a.pends e = false → (p.sem e).semCount ≤ (p'.sem e).semCount) ∧
      ∀ u ∈ (p.sem e).waiting, u ≠ t → (p'.thread u).asleep e = true → u ∈ (p'.sem e).waiting := by
  have heq := apply_eq happ
  cases a with
  | semPend e' granted asleep =>
    rw [heq, applied]
    by_cases hee : e = e'
    · subst hee
      refine ⟨fun hc => by simp at hc, fun u hin _ _ => ?_⟩
      unfold semPend
      split_ifs <;> simp [hin]
    · rw [sem_semPend_of_ne e' granted asleep hee]
      exact ⟨fun _ => Nat.le_refl _, fun _ hin _ _ => hin⟩
  | semPost e' th =>
    rw [show p'.sem e = (p.semPost e').sem e by rw [heq]; rfl]
    by_cases hee : e = e'
    · subst hee
      cases hw : (p.sem e).waiting with
      | nil => simp [semPost, hw]
      | cons v us =>
        refine ⟨fun _ => by simp [semPost, hw], fun u hin hut hs => ?_⟩
        rcases mem_cons.mp hin with rfl | hin
        · have hwake : p'.thread u = (p.thread u).wake := by simp [heq, applied, semPost, hw, hut]
          rw [hwake, ((p.thread u).wake_minds e).2.2.2] at hs
          cases hs
        · simpa [semPost, hw] using hin
    · rw [sem_semPost_of_ne e' hee]
      exact ⟨fun _ => Nat.le_refl _, fun _ hin _ _ => hin⟩
  | _ =>
    rw [heq]
    exact ⟨fun _ => Nat.le_refl _, fun _ hin _ _ => hin⟩

end

/-- Who has found nothing to do is right as long as it has the mutex; one thread at most is between the mutex and each
semaphore; who sleeps is in the list; and who waits without a token finds nothing to do, or will be given one. -/
structure Attentive (p : Pipe) : Prop where
  orderly : Orderly p
  found : ∀ e u, (p.thread u).found e = true → p.Stuck e
  window : ∀ e u v, (p.thread u).pending e = true → (p.thread v).pending e = true → u = v
  listed : ∀ e u, (p.thread u).asleep e = true → u ∈ (p.sem e).waiting
  roused : ∀ e u, (p.thread u).pending e = true ∨ (p.thread u).asleep e = true → (p.sem e).semCount = 0 →
    p.Stuck e ∨ ∃ w, (p.thread w).rouses e = true

theorem Pipe.Stuck.of_ring (h : p.Stuck e) (hring : p'.ring = p.ring) : p'.Stuck e := by
  cases e <;> simpa [Stuck, hring] using h

theorem Attentive.apply (h : Attentive p) (happ : p.apply t a = some p') (ho : Orderly p')
    (hminds : ∀ e, a.Minds p e (p.thread t) (p'.thread t))
    (hpend : ∀ e, (p.thread t).pending e = true →
      ∃ granted asleep, a = .semPend e granted asleep ∧ granted.asleep e = false)
    (hwindow : ∀ e, (p'.thread t).pending e = true → ∀ u, u ≠ t → (p.thread u).pending e = false) : Attentive p' := by
  have hother := fun u (hu : u ≠ t) e => others_mind happ hu e
  -- who has just gone to sleep found no token
  have hslept : ∀ e, (p'.thread t).asleep e = true → (p.thread t).pending e = true ∧ (p.sem e).semCount = 0 ∧
      t ∈ (p'.sem e).waiting := by
    intro e hs
    have hp := (hminds e).2.2.2.1 hs
    obtain ⟨granted, asleep, rfl, hg⟩ := hpend e hp
    rw [← some.inj happ, thread_semPend] at hs
    split_ifs at hs with hcount
    · exact Bool.noConfusion (hg.symm.trans hs)
    · refine ⟨hp, by omega, ?_⟩
      rw [← some.inj happ, semPend, if_neg hcount]
      simp
  refine ⟨ho, fun e u hu => ?_, fun e u v hu hv => ?_, fun e u hu => ?_, fun e u hu hzero => ?_⟩
  · -- a transfer is made inside, so by nobody else
    obtain ⟨hfound, -, -, -, -, hmoves⟩ := hminds e
    cases hm : a.moves with
    | false =>
      refine Stuck.of_ring ?_ (ring_of_not_moves happ hm)
      by_cases hut : u = t
      · exact (hfound (hut ▸ hu)).elim (h.found e t) id
      · exact h.found e u ((hother u hut e).2.1 ▸ hu)
    | true =>
      obtain ⟨hin, -, hnot⟩ := hmoves hm
      by_cases hut : u = t
      · exact Bool.noConfusion (hnot.symm.trans (hut ▸ hu))
      · have := h.orderly.guards u (Thread.inside_of_found (.inl ((hother u hut e).2.1 ▸ hu)))
        exact absurd (some.inj (this.symm.trans (h.orderly.guards t hin))) hut
  · by_cases hut : u = t <;> by_cases hvt : v = t
    · rw [hut, hvt]
    · exact Bool.noConfusion ((hwindow e (hut ▸ hu) v hvt).symm.trans ((hother v hvt e).1 ▸ hv))
    · exact Bool.noConfusion ((hwindow e (hvt ▸ hv) u hut).symm.trans ((hother u hut e).1 ▸ hu))
    · exact h.window e u v ((hother u hut e).1 ▸ hu) ((hother v hvt e).1 ▸ hv)
  · by_cases hut : u = t
    · exact hut ▸ (hslept e (hut ▸ hu)).2.2
    · exact (sem_kept happ e).2 u (h.listed e u ((hother u hut e).2.2.2 hu)) hut hu
  obtain ⟨-, hrouses, hpending, -, hpends, hmoves⟩ := hminds e
  have hstuck : a.moves = false → (p.thread t).found e = true ∨ p.Stuck e → p'.Stuck e := fun hm hc =>
    Stuck.of_ring (hc.elim (h.found e t) id) (ring_of_not_moves happ hm)
  -- the rest is the same for every thread that waited without a token before
  have hrest : (p.thread u).pending e = true ∨ (p.thread u).asleep e = true → (p.sem e).semCount = 0 →
      p'.Stuck e ∨ ∃ w, (p'.thread w).rouses e = true := by
    intro hw hzero
    have hkeep : (p.thread t).rouses e = true → ∃ w, (p'.thread w).rouses e = true :=
      fun hc => ⟨t, (hrouses hc).resolve_right (absurd hzero)⟩
    rcases h.roused e u hw hzero with hc | ⟨w, hwr⟩
    · cases hm : a.moves with
      | false => exact .inl (hstuck hm (.inr hc))
      | true => exact .inr (hkeep ((hmoves hm).2.1 hc))
    · by_cases hwt : w = t
      · exact .inr (hkeep (hwt ▸ hwr))
      · exact .inr ⟨w, (hother w hwt e).2.2.1 ▸ hwr⟩
  by_cases hut : u = t
  · subst hut
    rcases hu with hu | hu
    · obtain ⟨rfl, hc⟩ := hpending hu
      exact .inl (hstuck rfl hc)
    · exact hrest (.inl (hslept e hu).1) (hslept e hu).2.1
  have hw := hu.imp ((hother u hut e).1 ▸ ·) (hother u hut e).2.2.2
  cases hp : a.pends e with
  | false => exact hrest hw (Nat.eq_zero_of_le_zero (hzero ▸ (sem_kept happ e).1 hp))
  | true =>
    have hm : a.moves = false := by cases a <;> first | rfl | cases hp
    rcases hpends hp with hc | hc
    · exact .inl (hstuck hm (.inl hc))
    -- a token that somebody else takes from the window has not been missed: nobody sleeps beside it
    refine hrest hw ?_
    by_contra hpos
    rcases hw with hw | hw
    · exact hut (h.window e u t hw hc)
    · have := h.listed e u hw
      simp [h.orderly.serves e (Nat.pos_of_ne_zero hpos)] at this

/-- The run is one of `PipeRead` and `PipeWrite`, and no thread gives the mutex back to wait for a semaphore while
another has done so and has not called `LOS_SemPend` yet. -/
def Alone (p : Pipe) : PipeLabel → Prop
  | .run t => ∀ e th, p.act (p.thread t) = some (.unlock th) → th.pending e = true →
    ∀ u, u ≠ t → (p.thread u).pending e = false
  | .open .. | .close .. => False
  | _ => True

theorem Attentive.call (h : Attentive p) (hidle : ∃ ret, p.thread t = .idle ret)
    (hth : ∀ e, th.found e = false ∧ th.pending e = false ∧ th.asleep e = false)
    (happ : p.apply t (.go th) = some p') (ho : Orderly p') : Attentive p' := by
  obtain ⟨ret, hidle⟩ := hidle
  have hself := mem_singleton.mp (apply_thread_self happ)
  refine h.apply happ ho (fun e => ?_) (fun e hw => ?_) fun e hw => ?_
  · obtain ⟨hf, hp, hs⟩ := hth e
    rw [hself, hidle, Act.Minds, hf, hp, hs]
    cases e <;> simp
  · rw [hidle] at hw
    cases e <;> cases hw
  · rw [hself, (hth e).2.1] at hw
    cases hw

theorem Attentive.step {l : PipeLabel} (h : Attentive p) (hok : Alone p l) (hstep : p.step l = some p') :
    Attentive p' := by
  have ho := h.orderly.step hstep
  cases l with
  | run t =>
    obtain ⟨a, hact, happ⟩ := bind_eq_some_iff.mp hstep
    have hminds := fun e => act_minds (e := e) h.orderly.shaped hact _ (apply_thread_self happ)
    refine h.apply happ ho hminds (fun e hw => act_pending hw hact) fun e hw => ?_
    exact hok e _ (hact.trans (congrArg some ((hminds e).2.2.1 hw).1)) hw
  | read t buf len | write t buf =>
    obtain ⟨hidle, -, hq⟩ := calls_some hstep
    refine h.call hidle (fun e => ?_) hq ho
    split_ifs <;> cases e <;> exact ⟨rfl, rfl, rfl⟩
  | _ => cases hok

end

/-- While no thread has the mutex or is about to take it, nobody sleeps without a token beside bytes to read, or room
to write. -/
def Roused (p : Pipe) : Prop :=
  (∀ u, (p.thread u).inside = false ∧ (p.thread u).locks = false) →
    ∀ e u, (p.thread u).asleep e = true → (p.sem e).semCount = 0 → p.Stuck e

/-- **A sleeper has nothing to do**: in every run of `PipeRead` and `PipeWrite` calls in which no two threads are at once
between giving the mutex back and `LOS_SemPend` on one semaphore, no reader is left asleep beside bytes and no writer
beside room once the mutex is free and nobody is about to take it. -/
theorem pipe_rouses (cell : Nat → UInt8) (run : List PipeLabel) (p : Pipe)
    (hok : Guarded Pipe.step Alone (new cell) run) (hexec : exec Pipe.step (new cell) run = some p) : Roused p := by
  have hnew : Attentive (new cell) := by
    refine ⟨orderly_of_exec (exec_nil _), ?_, ?_, ?_, ?_⟩ <;> rintro (_ | _) u <;> simp [new]
  have h : Attentive p := exec_inv_guarded (fun _ _ _ h hok hstep => h.step hok hstep) hnew hok hexec
  intro hquiet e u hu hzero
  refine (h.roused e u (.inr hu) hzero).resolve_right ?_
  rintro ⟨w, hw⟩
  exact Bool.noConfusion ((hquiet w).1.symm.trans (Thread.inside_of_found (.inr hw)))

/-- A thread takes some steps while no other is about to wait. -/
theorem guarded_alone {p : Pipe} {t n : Nat} {rest : List PipeLabel}
    (h : ∀ u, u ≠ t → ∀ e, (p.thread u).pending e = false)
    (hrest : ∀ p', exec Pipe.step p (replicate n (.run t)) = some p' →
      (∀ u, u ≠ t → ∀ e, (p'.thread u).pending e = false) → Guarded Pipe.step Alone p' rest) :
    Guarded Pipe.step Alone p (replicate n (.run t) ++ rest) := by
  induction n generalizing p with
  | zero => exact hrest p (exec_nil p) h
  | succ n ih =>
    refine ⟨fun e th _ _ u hu => h u hu e, fun p' hstep => ih (fun u hu e => ?_) fun q hq =>
      hrest q (exec_cons.mpr ⟨p', hstep, hq⟩)⟩
    obtain ⟨a, -, happ⟩ := bind_eq_some_iff.mp hstep
    rcases apply_thread_of_ne happ hu with heq | heq <;> rw [heq]
    · exact h u hu e
    · exact ((p.thread u).wake_minds e).1.trans (h u hu e)

/-- Thread 2 writes a byte and returns. Thread 1 asks for two, gets one, calls again and goes to sleep. -/
def sleeper : List PipeLabel :=
  .write 2 [7] :: (replicate 5 (.run 2) ++ .read 1 (fun _ => 0) 2 :: (replicate 9 (.run 1) ++
    .read 1 (fun _ => 0) 1 :: (replicate 3 (.run 1) ++ [])))

theorem pipe_rouses_sleeper : ∃ p, exec Pipe.step (new fun _ => 0) sleeper = some p ∧
    (p.thread 1).asleep .read = true ∧ Roused p := by
  obtain ⟨p, hp, hasleep⟩ : ∃ p, exec Pipe.step (new fun _ => 0) sleeper = some p ∧
      (p.thread 1).asleep .read = true := by
    decide +kernel
  have hcall {q q' : Pipe} {t u : Nat} {th : Thread} (hu : u ≠ t) (hq : q.calls t (some (q.setThread t th)) = some q') :
      q'.thread u = q.thread u := by
    rw [← some.inj (calls_some hq).2.2]
    exact update_of_ne hu ..
  refine ⟨p, hp, hasleep, pipe_rouses _ sleeper p ⟨trivial, fun q hq => guarded_alone (fun u hu e => ?_)
    fun p1 hp1 h1 => ⟨trivial, fun q1 hq1 => guarded_alone (fun u hu e => ?_)
    fun p2 _ h2 => ⟨trivial, fun q2 hq2 => guarded_alone (fun u hu e => ?_) fun _ _ _ => trivial⟩⟩⟩ hp⟩
  · unfold Pipe.step at hq
    rw [hcall hu hq]
    cases e <;> rfl
  · unfold Pipe.step at hq1
    rw [hcall hu hq1]
    by_cases hu2 : u = 2
    · cases hq
      cases hp1
      rw [hu2]
      cases e <;> rfl
    · exact h1 u hu2 e
  · unfold Pipe.step at hq2
    rw [hcall hu hq2]
    exact h2 u hu e

/-- Two readers find the ring empty before thread 2 writes two bytes and posts once. Thread 0 takes the token and one
byte, and thread 1 sleeps beside the other. -/
theorem pipe_leaves_asleep :
    (exec Pipe.step (new fun _ => 0)
      [.read 0 (fun _ => 0) 1, .read 1 (fun _ => 0) 1, .run 0, .run 0, .run 1, .run 1,
        .write 2 [1, 2], .run 2, .run 2, .run 2, .run 2, .run 2,
        .run 0, .run 1, .run 0, .run 0, .run 0, .run 0, .run 0]).map (fun p =>
        ((range 3).any fun u => (p.thread u).inside || (p.thread u).locks, p.sem .read, p.ring.contents)) =
      some (false, ⟨0, [1]⟩, [2]) := by
  decide +kernel

end LiteosM.Posix
