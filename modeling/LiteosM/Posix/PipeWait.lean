import LiteosM.Posix.Pipe

/-!
# Writing to a pipe without readers

Who waits for a pipe, and whether somebody wakes them. A thread is looked at alone here: `Returns p t ret`
says that it comes back from its call by its own steps. `Orderly` are the invariants of all runs.

* **`pipe_write_ends`**: a `PipeWrite` without readers comes back exactly when what it has left fits into
  the free part of the ring and it does not have to wait for `writeSem` before. Otherwise it waits, and each
  post of `PipeClose` only sends it round its loop.

The steps are those of `Posix.Pipe`. `pipe_exclusive` is the mutual exclusion of the calls, by the mutex of
the device.
-/

namespace LiteosM.Posix

open LiteosM.Lib LiteosM.Kernel Function List Option Pipe

/-! ## Mutex and semaphores -/

/-- The thread is between `PIPE_DEV_LOCK` and `PIPE_DEV_UNLOCK`. -/
def Thread.inside : Thread → Bool
  | .idle _ => false
  | .reading _ _ _ pc =>
    match pc with
    | .lock | .pend | .asleep | .relock => false
    | _ => true
  | .writing _ _ pc =>
    match pc with
    | .lock | .pend | .asleep => false
    | _ => true
  | .closing _ => true

theorem Thread.inside_wake (th : Thread) : th.wake.inside = th.inside := by
  cases th with
  | reading buf len nread pc | writing buf nwrite pc => cases pc <;> rfl
  | _ => rfl

/-- How a step relates to the mutex: only a thread inside gives it back. -/
def Act.Locks (th : Thread) : Act → Prop
  | .lock _ => True
  | .unlock th' => th.inside = true ∧ th'.inside = false
  | a => ∀ th' ∈ a.thens, th'.inside = th.inside

section
variable {p p' : Pipe} {t : Nat} {a : Act}

theorem Pipe.act_locks {th : Thread} (h : p.act th = some a) : a.Locks th := by
  cases th with
  | idle ret => cases h
  | reading _ _ _ pc | writing _ _ pc | closing pc =>
    cases pc <;> simp only [act, readAct, writeAct, closeAct] at h <;> split_ifs at h <;>
      cases h <;> simp [Act.Locks, Thread.inside]

theorem Pipe.inside_of_ne (happ : p.apply t a = some p') {u : Nat} (hu : u ≠ t) :
    (p'.thread u).inside = (p.thread u).inside := by
  rcases apply_thread_of_ne happ hu with heq | heq
  · rw [heq]
  · rw [heq, Thread.inside_wake]

theorem Pipe.mutex_semPend (p : Pipe) (e : End) (t : Nat) (th th' : Thread) :
    (p.semPend e t th th').mutex = p.mutex := by
  unfold semPend
  split_ifs <;> rfl

theorem Pipe.mutex_semPost (p : Pipe) (e : End) : (p.semPost e).mutex = p.mutex := by
  unfold semPost
  split <;> rfl

/-- The mutex after a step. -/
def Pipe.mutexAfter (p : Pipe) (t : Nat) : Act → Option Nat
  | .lock _ => some t
  | .unlock _ => none
  | _ => p.mutex

theorem Pipe.apply_mutex (h : p.apply t a = some p') : p'.mutex = p.mutexAfter t a := by
  rw [apply_eq h]
  cases a with
  | semPend e granted asleep => exact mutex_semPend p e t granted asleep
  | semPost e th => exact mutex_semPost p e
  | _ => rfl

/-- What the mutex says about the threads. -/
def Guards (p : Pipe) : Prop := ∀ u, (p.thread u).inside = true → p.mutex = some u

/-- A semaphore that counts has nobody waiting. -/
def Serves (p : Pipe) : Prop := ∀ e, 0 < (p.sem e).semCount → (p.sem e).waiting = []

theorem Guards.apply (h : Guards p) (hact : p.act (p.thread t) = some a) (happ : p.apply t a = some p') :
    Guards p' := by
  have hlocks := act_locks hact
  have hself := apply_thread_self happ
  have hkeep : p'.mutex = p.mutex → (p'.thread t).inside = (p.thread t).inside → Guards p' := by
    intro hmutex hinside u hu
    rw [hmutex]
    by_cases hut : u = t
    · subst hut
      exact h u (hinside ▸ hu)
    · exact h u (inside_of_ne happ hut ▸ hu)
  cases a with
  | lock th =>
    have hnone : p.mutex = none := by
      by_contra hc
      simp only [apply, if_neg hc] at happ
      cases happ
    intro u hu
    rw [apply_mutex happ]
    by_cases hut : u = t
    · rw [hut]
      rfl
    · rw [inside_of_ne happ hut] at hu
      exact absurd (hnone.symm.trans (h u hu)) (some_ne_none u).symm
  | unlock th =>
    intro u hu
    by_cases hut : u = t
    · subst hut
      simp [mem_singleton.mp hself, hlocks.2] at hu
    · rw [inside_of_ne happ hut] at hu
      exact absurd (some.inj ((h u hu).symm.trans (h t hlocks.1))) hut
  | _ => exact hkeep (apply_mutex happ) (hlocks _ hself)

theorem Serves.semPend (h : Serves p) (e : End) (th th' : Thread) : Serves (p.semPend e t th th') := by
  intro e' he'
  unfold Pipe.semPend at *
  split_ifs at he' ⊢ with hcount
  · by_cases hee : e' = e
    · subst hee
      simp only [setThread, setSem, update_self]
      exact h e' hcount
    · simp only [setThread, setSem, update_of_ne hee] at he' ⊢
      exact h e' he'
  by_cases hee : e' = e
  · subst hee
    simp at he'
  · simp only [setThread, setSem, update_of_ne hee] at he' ⊢
    exact h e' he'

theorem Serves.semPost (h : Serves p) (e : End) : Serves (p.semPost e) := by
  intro e' he'
  unfold Pipe.semPost at *
  split at he' <;> rename_i hw
  · by_cases hee : e' = e
    · subst hee
      simp
    · simp only [setSem, update_of_ne hee] at he' ⊢
      exact h e' he'
  by_cases hee : e' = e
  · subst hee
    simp only [setThread, setSem, update_self] at he'
    simp [h e' he'] at hw
  · simp only [setThread, setSem, update_of_ne hee] at he' ⊢
    exact h e' he'

theorem Serves.apply (h : Serves p) (happ : p.apply t a = some p') : Serves p' := by
  rw [apply_eq happ]
  cases a with
  | semPend e granted asleep => exact h.semPend e granted asleep
  | semPost e th => exact h.semPost e
  | _ => exact h

/-- The ring keeps its form. -/
def Shaped (p : Pipe) : Prop := p.ring.Wf ∧ p.ring.size = pipeDevBufSize

theorem Shaped.of_ring (h : Shaped p) (hring : p'.ring = p.ring) : Shaped p' := by
  unfold Shaped
  rwa [hring]

theorem Shaped.apply (h : Shaped p) (hact : p.act (p.thread t) = some a) (happ : p.apply t a = some p') :
    Shaped p' := by
  have hring := congrArg (fun d => d.1) (apply_data happ)
  cases a with
  | take ring got th =>
    obtain ⟨buf, len, nread, -, -, -, hread⟩ := act_take hact
    obtain ⟨hwf, hsize⟩ := pipeRingbufferRead_ring h.1 (fun i => buf (nread + i)) (len - nread)
    rw [hread] at hwf hsize
    obtain rfl : p'.ring = ring := hring
    exact ⟨hwf, hsize.trans h.2⟩
  | put ring bytes th =>
    obtain ⟨buf, nwrite, -, -, heq, -⟩ := act_put hact
    obtain ⟨hwf, hsize, -⟩ := pipeRingbufferWrite_spec h.1 (buf.drop nwrite)
    rw [← heq] at hwf hsize
    obtain rfl : p'.ring = ring := hring
    exact ⟨hwf, hsize.trans h.2⟩
  | _ => exact h.of_ring hring

end

/-- What every state of a pipe satisfies. -/
structure Orderly (p : Pipe) : Prop where
  shaped : Shaped p
  guards : Guards p
  serves : Serves p
  ok : ∀ u, (p.thread u).Ok

section
variable {p p' : Pipe} {t : Nat}

theorem ok_setThread (h : ∀ u, (p.thread u).Ok) {th : Thread} (hth : th.Ok) (u : Nat) :
    ((p.setThread t th).thread u).Ok := by
  unfold setThread
  by_cases hut : u = t
  · simp only [hut, update_self]
    exact hth
  · simp only [update_of_ne hut]
    exact h u

theorem Orderly.setThread (h : Orderly p) {th : Thread} (hth : th.inside = false) (hok : th.Ok) :
    Orderly (p.setThread t th) := by
  refine ⟨h.shaped, fun u hu => ?_, h.serves, ok_setThread h.ok hok⟩
  by_cases hut : u = t
  · simp only [Pipe.setThread, hut, update_self, hth] at hu
    cases hu
  · simp only [Pipe.setThread, update_of_ne hut] at hu
    exact h.guards u hu

/-- `PipeClose` takes the mutex. -/
theorem Orderly.lock (h : Orderly p) {th : Thread} (hl : p.apply t (.lock th) = some p') (hok : th.Ok) :
    Orderly p' := by
  obtain ⟨hfree, ⟨⟩⟩ := ite_none_right_eq_some.mp hl
  refine ⟨h.shaped, fun u hu => ?_, h.serves, ok_setThread h.ok hok⟩
  by_cases hut : u = t
  · rw [hut]
    rfl
  · simp only [Pipe.setThread, update_of_ne hut] at hu
    exact absurd (hfree.symm.trans (h.guards u hu)) (some_ne_none u).symm

theorem Orderly.step {l : PipeLabel} (h : Orderly p) (hstep : p.step l = some p') : Orderly p' := by
  cases l with
  | run t =>
    obtain ⟨a, hact, happ⟩ := bind_eq_some_iff.mp hstep
    refine ⟨h.shaped.apply hact happ, h.guards.apply hact happ, h.serves.apply happ, fun u => ?_⟩
    by_cases hut : u = t
    · rw [hut]
      exact (act_unwritten (h.ok t) hact _ (apply_thread_self happ)).1
    rcases apply_thread_of_ne happ hut with heq | heq <;> rw [heq]
    · exact h.ok u
    · exact (h.ok u).wake
  | read | write =>
    rw [← some.inj (calls_some hstep).2.2]
    refine h.setThread ?_ ?_
    · split_ifs <;> rfl
    · split_ifs <;> trivial
  | «open» t e =>
    have hq := (calls_some hstep).2.2
    cases e <;> split_ifs at hq <;> cases hq <;> exact ⟨h.shaped, h.guards, h.serves, h.ok⟩
  | close t e =>
    have hq := (calls_some hstep).2.2
    cases e with
    | read =>
      dsimp only at hq
      split_ifs at hq
      have hless : Orderly { p with readerCnt := p.readerCnt - 1 } :=
        ⟨h.shaped, h.guards, h.serves, h.ok⟩
      exact hless.lock hq trivial
    | write =>
      dsimp only at hq
      split_ifs at hq
      have hless : Orderly { p with writerCnt := p.writerCnt - 1 } :=
        ⟨h.shaped, h.guards, h.serves, h.ok⟩
      exact hless.lock hq trivial

theorem orderly_of_exec {cell : Nat → UInt8} {run : List PipeLabel}
    (hexec : exec Pipe.step (new cell) run = some p) : Orderly p := by
  have hnew : Orderly (new cell) :=
    ⟨⟨(streamed_new cell).wf, rfl⟩, fun u hu => Bool.noConfusion hu, fun _ _ => rfl, fun _ => trivial⟩
  exact exec_inv (fun _ _ _ h hstep => h.step hstep) hnew hexec

/-- No two threads are between `PIPE_DEV_LOCK` and `PIPE_DEV_UNLOCK` at once, the ring keeps its form, and
nobody waits for a semaphore that counts. -/
theorem pipe_exclusive {cell : Nat → UInt8} {run : List PipeLabel} {p : Pipe}
    (hexec : exec Pipe.step (new cell) run = some p) :
    (∀ t u, (p.thread t).inside = true → (p.thread u).inside = true → t = u) ∧ Shaped p ∧ Serves p := by
  have h := orderly_of_exec hexec
  refine ⟨fun t u ht hu => ?_, h.shaped, h.serves⟩
  have heq := (h.guards t ht).symm.trans (h.guards u hu)
  exact some.inj heq

/-- Thread 1 sleeps on the empty ring while thread 2 writes. -/
theorem pipe_exclusive_sleeper : ∃ p, exec Pipe.step (new fun _ => 0)
      (.read 1 (fun _ => 0) 1 :: replicate 3 (.run 1) ++ [.write 2 [7], .run 2]) = some p ∧
    p.sem .read = ⟨0, [1]⟩ ∧ (p.thread 2).inside = true ∧ (p.thread 1).inside = false := by
  obtain ⟨p, hp, hsem, hinside⟩ : ∃ p, exec Pipe.step (new fun _ => 0)
      (.read 1 (fun _ => 0) 1 :: replicate 3 (.run 1) ++ [.write 2 [7], .run 2]) = some p ∧
      p.sem .read = ⟨0, [1]⟩ ∧ (p.thread 2).inside = true := by
    decide +kernel
  exact ⟨p, hp, hsem, hinside, Bool.eq_false_iff.mpr fun h => by cases (pipe_exclusive hp).1 1 2 h hinside⟩

/-! ## A thread alone -/

/-- The thread comes back from its call by its own steps. -/
def Returns (p : Pipe) (t : Nat) (ret : Option Int) : Prop :=
  ∃ n p', exec Pipe.step p (replicate n (.run t)) = some p' ∧ p'.thread t = .idle ret

theorem Returns.step {ret : Option Int} (hstep : p.step (.run t) = some p') (h : Returns p' t ret) :
    Returns p t ret := by
  obtain ⟨n, q, hexec, hq⟩ := h
  exact ⟨n + 1, q, exec_cons.mpr ⟨p', hstep, hexec⟩, hq⟩

theorem Returns.of_act {a : Act} {ret : Option Int} (hact : p.act (p.thread t) = some a)
    (happ : p.apply t a = some p') (h : Returns p' t ret) : Returns p t ret :=
  h.step (bind_eq_some_iff.mpr ⟨a, hact, happ⟩)

/-- What the steps of the thread keep holds as long as it is alone. -/
theorem alone_inv {G : Pipe → Prop} (hstep : ∀ p p', G p → p.step (.run t) = some p' → G p') (h : G p)
    {n : Nat} (hexec : exec Pipe.step p (replicate n (.run t)) = some p') : G p' := by
  induction n generalizing p with
  | zero =>
    obtain rfl : p = p' := some.inj hexec
    exact h
  | succ n ih =>
    obtain ⟨q, hq, hexec⟩ := exec_cons.mp hexec
    exact ih (hstep p q h hq) hexec

theorem Pipe.cnt_semPost (p : Pipe) (e : End) :
    (p.semPost e).readerCnt = p.readerCnt ∧ (p.semPost e).writerCnt = p.writerCnt := by
  unfold semPost
  split <;> exact ⟨rfl, rfl⟩

theorem Pipe.apply_cnt {a : Act} (h : p.apply t a = some p') :
    p'.readerCnt = p.readerCnt ∧ p'.writerCnt = p.writerCnt := by
  rw [apply_eq h]
  cases a with
  | semPend e granted asleep =>
    dsimp only [applied, semPend]
    split_ifs <;> exact ⟨rfl, rfl⟩
  | semPost e th => exact cnt_semPost p e
  | _ => exact ⟨rfl, rfl⟩

/-- A post counts, or wakes the first thread that waits. -/
theorem Pipe.semPost_cases (p : Pipe) (e : End) :
    ((p.sem e).waiting = [] ∧ (p.semPost e).sem e = ⟨(p.sem e).semCount + 1, []⟩) ∨
      ∃ u us, (p.sem e).waiting = u :: us ∧ (p.semPost e).sem e = ⟨(p.sem e).semCount, us⟩ := by
  unfold semPost
  split <;> rename_i hw
  · exact .inl ⟨hw, update_self ..⟩
  · exact .inr ⟨_, _, hw, update_self ..⟩

/-! ## Writing without readers -/

variable {buf : List UInt8} {nwrite : Nat}

section
variable (hdev : 0 < p.readerCnt + p.writerCnt)
include hdev

theorem act_writing {pc : WritePc}
    (hth : p.thread t = .writing buf nwrite pc) : p.act (p.thread t) = p.writeAct buf nwrite pc := by
  rw [hth, act, if_pos hdev]

theorem returns_of_postEnd_counted
    (hth : p.thread t = .writing buf nwrite .postEnd) (hcount : 0 < (p.sem .read).semCount) :
    Returns p t (some nwrite) := by
  have hact : p.act (p.thread t) = some (.unlock (.idle (some nwrite))) := by
    rw [act_writing hdev hth, writeAct, if_neg (Nat.ne_of_gt hcount)]
  exact Returns.of_act hact rfl ⟨0, _, rfl, update_self ..⟩

/-- Behind the loop all readers are woken, and the call returns. -/
theorem returns_of_postEnd
    (hth : p.thread t = .writing buf nwrite .postEnd) : Returns p t (some nwrite) := by
  -- each round of the loop wakes one thread, and the last one leaves a token
  induction hk : (p.sem .read).waiting.length using Nat.strong_induction_on generalizing p with
  | _ k ih =>
    by_cases hcount : (p.sem .read).semCount = 0
    · have hact : p.act (p.thread t) = some (.semPost .read (.writing buf nwrite .postEnd)) := by
        rw [act_writing hdev hth, writeAct, if_pos hcount]
      refine Returns.of_act hact rfl ?_
      have hcnt := p.cnt_semPost .read
      have hdev' : 0 < (p.semPost .read).readerCnt + (p.semPost .read).writerCnt := by omega
      rcases p.semPost_cases .read with ⟨-, hpost⟩ | ⟨u, us, hwait, hpost⟩
      · refine returns_of_postEnd_counted hdev' (update_self ..) ?_
        simp only [setThread]
        rw [hpost]
        exact Nat.succ_pos _
      refine ih us.length ?_ hdev' (update_self ..) ?_
      · rw [← hk, hwait]
        exact Nat.lt_succ_self _
      · simp only [setThread]
        rw [hpost]
    · exact returns_of_postEnd_counted hdev hth (Nat.pos_of_ne_zero hcount)

end

/-- A ring write takes as much as one transfer can. -/
theorem pipeRingbufferWrite_eq {b : RollBuffer UInt8} (h : b.Wf) (hroom : b.contents.length < b.size)
    (xs : List UInt8) : (pipeRingbufferWrite b xs).2 = min b.writable xs.length := by
  unfold pipeRingbufferWrite
  rw [if_neg fun hc => Nat.ne_of_lt hroom (h.full_iff.mpr hc)]

/-- The loop ends when what is left fits into the ring. -/
theorem returns_of_loop (hdev : 0 < p.readerCnt + p.writerCnt) (hshaped : Shaped p)
    (hth : p.thread t = .writing buf nwrite .loop)
    (hroom : buf.length - nwrite ≤ pipeDevBufSize - p.ring.contents.length) :
    ∃ ret, Returns p t ret := by
  induction hk : buf.length - nwrite using Nat.strong_induction_on generalizing p nwrite with
  | _ k ih =>
    by_cases hmore : nwrite < buf.length
    · have hsize := hshaped.2
      have hlt : p.ring.contents.length < p.ring.size := by omega
      have hpos := hshaped.1.writable_pos hlt
      have hlen := pipeRingbufferWrite_eq hshaped.1 hlt (buf.drop nwrite)
      obtain ⟨-, -, hcontents⟩ := pipeRingbufferWrite_spec hshaped.1 (buf.drop nwrite)
      have hact := act_writing hdev hth
      rw [writeAct, if_pos hmore] at hact
      rcases hput : pipeRingbufferWrite p.ring (buf.drop nwrite) with ⟨ring, m⟩
      rw [hput] at hlen hcontents hact
      have hlength := congrArg length hcontents
      rw [length_drop] at hlen
      rw [length_append, length_take] at hlength
      have hm : m ≠ 0 := by omega
      dsimp only at hact hlength
      rw [if_neg hm] at hact
      obtain ⟨p', happ⟩ : ∃ p', p.apply t (.put ring ((buf.drop nwrite).take m)
        (.writing buf (nwrite + m) .loop)) = some p' := ⟨_, rfl⟩
      have hring : p'.ring = ring := congrArg (fun d => d.1) (apply_data happ)
      obtain ⟨hr, hw⟩ := apply_cnt happ
      have hth' := mem_singleton.mp (apply_thread_self happ)
      have hroom' : buf.length - (nwrite + m) ≤ pipeDevBufSize - p'.ring.contents.length := by
        rw [hring]
        omega
      obtain ⟨ret, hret⟩ := ih (buf.length - (nwrite + m)) (by omega) (by omega)
        (hshaped.apply hact happ) hth'
        hroom' rfl
      exact ⟨ret, Returns.of_act hact happ hret⟩
    · have hact : p.act (p.thread t) = some (.go (.writing buf nwrite .postEnd)) := by
        rw [act_writing hdev hth, writeAct, if_neg hmore]
      exact ⟨_, Returns.of_act hact rfl (returns_of_postEnd hdev (update_self ..))⟩

end

/-- The thread is in `PipeRead`. -/
def Thread.isReading : Thread → Bool
  | .reading .. => true
  | _ => false

theorem Thread.isReading_wake (th : Thread) : th.wake.isReading = th.isReading := by
  cases th with
  | reading buf len nread pc | writing buf nwrite pc => cases pc <;> rfl
  | _ => rfl

/-- The thread writes, and what it has left does not fit into the ring. -/
def Short (p : Pipe) (t : Nat) : Prop :=
  (p.thread t).isWriting = true ∧
    pipeDevBufSize < p.ring.contents.length + (p.thread t).unwritten.length

section
variable {p p' : Pipe} {t : Nat}

/-- A thread that has something left to write goes on writing. -/
theorem Pipe.act_writes {th : Thread} {a : Act} (hok : th.Ok) (hw : th.isWriting = true) (hun : th.unwritten ≠ [])
    (h : p.act th = some a) : ∀ th' ∈ a.thens, th'.isWriting = true := by
  cases th with
  | writing buf nwrite pc =>
    cases pc with
    | postEnd => exact absurd (drop_eq_nil_of_le hok) hun
    | _ =>
      simp only [act, writeAct] at h
      split_ifs at h <;> cases h <;> simp
  | _ => cases hw

/-- What a step of a thread that does not read puts into the ring. -/
theorem contents_apply {u : Nat} {a : Act} (hs : Shaped p) (hread : (p.thread u).isReading = false)
    (hact : p.act (p.thread u) = some a) (happ : p.apply u a = some p') :
    p'.ring.contents = p.ring.contents ++ a.bytes := by
  have hring := congrArg (fun d => d.1) (apply_data happ)
  cases a with
  | take ring got th =>
    obtain ⟨buf, len, nread, hth, -⟩ := act_take hact
    rw [hth] at hread
    cases hread
  | put ring bytes th =>
    obtain ⟨buf, nwrite, -, -, heq, hbytes, -⟩ := act_put hact
    obtain ⟨-, -, hcontents⟩ := pipeRingbufferWrite_spec hs.1 (buf.drop nwrite)
    obtain rfl : p'.ring = ring := hring
    rw [heq, hcontents, ← hbytes]
    rfl
  | _ =>
    have hsame : p'.ring = p.ring := hring
    rw [hsame]
    exact (append_nil _).symm

theorem Short.apply {u : Nat} {a : Act} (h : Short p t) (ho : Orderly p) (hread : (p.thread u).isReading = false)
    (hact : p.act (p.thread u) = some a) (happ : p.apply u a = some p') : Short p' t := by
  have hle := ho.shaped.1.length_contents_le
  have hsize := ho.shaped.2
  have hshort := h.2
  have hcontents := congrArg length (contents_apply ho.shaped hread hact happ)
  rw [length_append] at hcontents
  by_cases hut : u = t
  · subst hut
    have hself := apply_thread_self happ
    have hun : (p.thread u).unwritten ≠ [] := fun hc => by
      rw [hc, length_nil] at hshort
      omega
    have hbytes := congrArg length (act_unwritten (ho.ok u) hact _ hself).2
    rw [length_append] at hbytes
    refine ⟨act_writes (ho.ok u) h.1 hun hact _ hself, ?_⟩
    omega
  have hsame : (p'.thread t).isWriting = (p.thread t).isWriting ∧
      (p'.thread t).unwritten = (p.thread t).unwritten := by
    rcases apply_thread_of_ne happ (Ne.symm hut) with heq | heq <;> rw [heq]
    · exact ⟨rfl, rfl⟩
    · exact ⟨Thread.isWriting_wake _, Thread.unwritten_wake _⟩
  refine ⟨hsame.1.trans h.1, ?_⟩
  rw [hsame.2]
  omega

/-- A step of the thread itself. -/
theorem Short.own (h : Short p t) (ho : Orderly p) (hstep : p.step (.run t) = some p') : Short p' t := by
  obtain ⟨a, hact, happ⟩ := bind_eq_some_iff.mp hstep
  refine h.apply ho ?_ hact happ
  have hw := h.1
  revert hw
  cases p.thread t <;> simp [Thread.isWriting, Thread.isReading]

/-- No thread is in `PipeRead`. -/
def Quiet (p : Pipe) : Prop := ∀ u, (p.thread u).isReading = false

theorem Pipe.act_not_reading {th : Thread} {a : Act} (hth : th.isReading = false) (h : p.act th = some a) :
    ∀ th' ∈ a.thens, th'.isReading = false := by
  cases th with
  | idle ret => cases h
  | reading buf len nread pc => cases hth
  | writing buf nwrite pc =>
    cases pc <;> simp only [act, writeAct] at h <;> split_ifs at h <;>
      cases h <;> simp [Thread.isReading]
  | closing pc =>
    cases pc <;> simp only [act, closeAct] at h <;> split_ifs at h <;>
      cases h <;> simp [Thread.isReading]

/-- A label that does not call `PipeRead`. -/
def PipeLabel.noRead : PipeLabel → Bool
  | .read .. => false
  | _ => true

variable {l : PipeLabel}

/-- What a label other than a step of a thread does: one idle thread may begin a call. -/
theorem Pipe.step_call (hl : l.noRead = true) (hstep : p.step l = some p') :
    (∃ u a, p.act (p.thread u) = some a ∧ p.apply u a = some p') ∨
      (p'.ring = p.ring ∧ (p'.thread = p.thread ∨ ∃ u ret th, p.thread u = .idle ret ∧ th.isReading = false ∧
        p'.thread = update p.thread u th)) := by
  cases l with
  | run u =>
    obtain ⟨a, hact, happ⟩ := bind_eq_some_iff.mp hstep
    exact .inl ⟨u, a, hact, happ⟩
  | read u buf len => cases hl
  | write u buf =>
    obtain ⟨⟨ret, hidle⟩, -, hq⟩ := calls_some hstep
    cases hq
    refine .inr ⟨rfl, .inr ⟨u, ret, _, hidle, ?_, rfl⟩⟩
    split_ifs <;> rfl
  | «open» u e =>
    obtain ⟨-, -, hq⟩ := calls_some hstep
    cases e <;> split_ifs at hq <;> cases hq <;> exact .inr ⟨rfl, .inl rfl⟩
  | close u e =>
    obtain ⟨⟨ret, hidle⟩, -, hq⟩ := calls_some hstep
    cases e <;> dsimp only [apply] at hq <;> split_ifs at hq <;> cases hq <;>
      exact .inr ⟨rfl, .inr ⟨u, ret, _, hidle, rfl, rfl⟩⟩

theorem Quiet.step (h : Quiet p) (hl : l.noRead = true) (hstep : p.step l = some p') : Quiet p' := by
  intro v
  rcases step_call hl hstep with ⟨u, a, hact, happ⟩ | ⟨-, heq | ⟨u, ret, th, -, hth, heq⟩⟩
  · by_cases hvu : v = u
    · rw [hvu]
      exact act_not_reading (h u) hact _ (apply_thread_self happ)
    rcases apply_thread_of_ne happ hvu with heq | heq
    · rw [heq]
      exact h v
    · rw [heq, Thread.isReading_wake]
      exact h v
  · rw [heq]
    exact h v
  rw [heq]
  by_cases hvu : v = u
  · rwa [hvu, update_self]
  · rw [update_of_ne hvu]
    exact h v

theorem Short.step (h : Short p t) (ho : Orderly p) (hq : Quiet p) (hl : l.noRead = true)
    (hstep : p.step l = some p') : Short p' t := by
  rcases step_call hl hstep with ⟨u, a, hact, happ⟩ | ⟨hring, heq | ⟨u, ret, th, hidle, -, heq⟩⟩
  · exact h.apply ho (hq u) hact happ
  · unfold Short
    rwa [hring, heq]
  have htu : t ≠ u := by
    rintro rfl
    have hw := h.1
    rw [hidle] at hw
    cases hw
  unfold Short
  rwa [hring, heq, update_of_ne htu]

/-- While nobody reads, a thread whose bytes do not fit stays in its call. -/
structure Starved (p : Pipe) (t : Nat) : Prop where
  orderly : Orderly p
  quiet : Quiet p
  short : Short p t

theorem Starved.step (h : Starved p t) (hl : l.noRead = true) (hstep : p.step l = some p') :
    Starved p' t :=
  ⟨h.orderly.step hstep, h.quiet.step hl hstep, h.short.step h.orderly h.quiet hl hstep⟩

theorem Starved.exec {rest : List PipeLabel} (h : Starved p t) (hrest : ∀ l ∈ rest, l.noRead = true)
    (hexec : exec Pipe.step p rest = some p') : Starved p' t := by
  have hkeep : ∀ q l q', Starved q t → l.noRead = true → q.step l = some q' → Starved q' t :=
    fun _ _ _ h hl hstep => h.step hl hstep
  exact exec_inv_guarded hkeep h (guarded_of_forall fun l hl _ => hrest l hl) hexec

/-- The thread waits for `writeSem`, or is about to while it does not count. -/
def WaitsWriteSem (p : Pipe) (t : Nat) : Prop :=
  match p.thread t with
  | .writing _ _ .pend => (p.sem .write).semCount = 0
  | .writing _ _ .asleep => True
  | _ => False

theorem WaitsWriteSem.step (h : WaitsWriteSem p t) (hstep : p.step (.run t) = some p') :
    WaitsWriteSem p' t := by
  obtain ⟨a, hact, happ⟩ := bind_eq_some_iff.mp hstep
  unfold WaitsWriteSem at h
  split at h
  · rename_i buf nwrite hth
    rw [hth] at hact
    obtain ⟨-, ⟨⟩⟩ := ite_none_right_eq_some.mp hact
    rw [← some.inj happ, semPend, if_neg (by omega)]
    simp [WaitsWriteSem]
  · rename_i buf nwrite hth
    rw [hth] at hact
    simp only [act, writeAct] at hact
    split_ifs at hact
  · exact h.elim

end

/-- A `PipeWrite` that has no readers comes back by its own steps exactly when what it has left fits
into the ring and it need not wait for `writeSem`. When it does not fit, it does not come back whatever
the other threads do, if nobody reads then and as long as nobody does. -/
theorem pipe_write_ends (cell : Nat → UInt8) (run : List PipeLabel) (p : Pipe)
    (hexec : exec Pipe.step (new cell) run = some p) (hwriter : 0 < p.writerCnt) (hfree : p.mutex = none)
    (t : Nat) (buf : List UInt8) (nwrite : Nat) (pc : WritePc) (hth : p.thread t = .writing buf nwrite pc) :
    ((∃ ret, Returns p t ret) ↔ buf.length - nwrite ≤ pipeDevBufSize - p.ring.contents.length ∧
        (pc = .lock ∨ (pc = .pend ∧ 0 < (p.sem .write).semCount))) ∧
      (¬ buf.length - nwrite ≤ pipeDevBufSize - p.ring.contents.length → Quiet p →
        ∀ rest p', (∀ l ∈ rest, l.noRead = true) → exec Pipe.step p rest = some p' →
          (p'.thread t).isWriting = true) := by
  have ho := orderly_of_exec hexec
  have hshort : ¬ buf.length - nwrite ≤ pipeDevBufSize - p.ring.contents.length → Short p t := by
    intro hroom
    refine ⟨by rw [hth]; rfl, ?_⟩
    rw [hth, Thread.unwritten, length_drop]
    omega
  refine ⟨⟨?_, ?_⟩, fun hroom hquiet rest p' hrest hexec' => ?_⟩
  · rintro ⟨ret, n, p', hexec', hret⟩
    by_contra hcond
    rw [not_and_or] at hcond
    rcases hcond with hroom | hpc
    · have hstays : Orderly p' ∧ Short p' t := alone_inv (G := fun q => Orderly q ∧ Short q t)
        (fun _ _ h hstep => ⟨h.1.step hstep, h.2.own h.1 hstep⟩) ⟨ho, hshort hroom⟩ hexec'
      have hw := hstays.2.1
      rw [hret] at hw
      cases hw
    have hwaits : WaitsWriteSem p t := by
      unfold WaitsWriteSem
      rw [hth]
      cases pc with
      | lock => exact absurd (.inl rfl) hpc
      | pend => exact Nat.eq_zero_of_not_pos fun hpos => hpc (.inr ⟨rfl, hpos⟩)
      | asleep => trivial
      | _ =>
        have hin := ho.guards t (hth ▸ rfl)
        simp [hfree] at hin
    have hwaits' : WaitsWriteSem p' t := alone_inv (G := fun q => WaitsWriteSem q t)
      (fun _ _ h hstep => h.step hstep) hwaits hexec'
    rwa [WaitsWriteSem, hret] at hwaits'
  · rintro ⟨hroom, hpc⟩
    have hlock : ∀ q : Pipe, q.ring = p.ring → 0 < q.readerCnt + q.writerCnt → q.mutex = none →
        q.thread t = .writing buf nwrite .lock → ∃ ret, Returns q t ret := by
      intro q hring hdev hmutex hq
      have hact : q.act (q.thread t) = some (.lock (.writing buf nwrite .loop)) := act_writing hdev hq
      have happ : q.apply t (.lock (.writing buf nwrite .loop)) =
          some ({ q with mutex := some t }.setThread t (.writing buf nwrite .loop)) := if_pos hmutex
      obtain ⟨ret, hret⟩ := returns_of_loop
        (p := { q with mutex := some t }.setThread t (.writing buf nwrite .loop)) hdev
        (ho.shaped.of_ring hring)
        (update_self ..) (by rw [← hring] at hroom; exact hroom)
      exact ⟨ret, Returns.of_act hact happ hret⟩
    rcases hpc with rfl | ⟨rfl, hpos⟩
    · exact hlock p rfl (by omega) hfree hth
    have hact : p.act (p.thread t) =
        some (.semPend .write (.writing buf nwrite .lock) (.writing buf nwrite .asleep)) :=
      act_writing (by omega) hth
    obtain ⟨ret, hret⟩ := hlock
      (p.semPend .write t (.writing buf nwrite .lock) (.writing buf nwrite .asleep))
      (by rw [semPend, if_pos hpos]; rfl)
      (by rw [semPend, if_pos hpos]; exact Nat.add_pos_right _ hwriter)
      (by rwa [mutex_semPend])
      (by rw [Pipe.semPend, if_pos hpos]; exact update_self ..)
    exact ⟨ret, Returns.of_act hact rfl hret⟩
  · exact ((Starved.mk ho hquiet (hshort hroom)).exec hrest hexec').short.1

/-- Thread 2 closes the read descriptor, and thread 1 calls `PipeWrite`. -/
def writeAfterClose (buf : List UInt8) : List PipeLabel :=
  [.close 2 .read, .run 2, .run 2, .run 2, .write 1 buf]

theorem pipe_write_ends_three :
    ∃ p, exec Pipe.step (new fun _ => 0) (writeAfterClose [1, 2, 3]) = some p ∧
    p.readerCnt = 0 ∧ ∃ ret, Returns p 1 ret := by
  obtain ⟨p, hp⟩ : ∃ p, exec Pipe.step (new fun _ => 0) (writeAfterClose [1, 2, 3]) = some p :=
    ⟨_, rfl⟩
  have hfacts : p.readerCnt = 0 ∧ p.writerCnt = 1 ∧ p.mutex = none ∧
      p.thread 1 = .writing [1, 2, 3] 0 .lock ∧ p.ring.contents = [] := by
    cases hp
    exact ⟨rfl, rfl, rfl, rfl, rfl⟩
  obtain ⟨hreaders, hwriters, hfree, hth, hring⟩ := hfacts
  refine ⟨p, hp, hreaders, (pipe_write_ends _ _ p hp (by omega) hfree 1 _ 0 .lock hth).1.mpr ⟨?_, .inl rfl⟩⟩
  rw [hring]
  decide

/-- Thread 1 writes one byte more than the ring holds. It waits, thread 2 closes the read descriptor and
wakes it, and it waits again. -/
theorem pipe_write_waits_again :
    (exec Pipe.step (new fun _ => 0)
      (.write 1 (replicate 1025 0) :: replicate 7 (.run 1) ++
        .close 2 .read :: replicate 4 (.run 2) ++ replicate 7 (.run 1))).any (fun p =>
      match p.thread 1, p.thread 2 with
      | .writing _ nwrite .asleep, .idle (some 0) =>
        nwrite = 1024 ∧ p.readerCnt = 0 ∧ p.writerCnt = 1 ∧ p.sem .write = ⟨0, [1]⟩
      | _, _ => false) = true := by
  decide +kernel

end LiteosM.Posix
