import LiteosM.Kernel.Event
import LiteosM.Lib.Since

/-!
# What LOS_EventRead returns

Behind its wait `LOS_EventRead` polls once more and returns what it finds. `LOS_EventWrite` has ended
the wait because the condition of the reader held, but until the reader runs another one may have
cleared the events with `LOS_WAITMODE_CLR`, or `LOS_EventClear` may have. So the value is a mask that
satisfies the condition, or it is 0, and then the events have been taken back since the wake-up.

* `Heard`: a reader behind its wait, which has not timed out, still waits or has been answered;
* **`eventRead_sound`**: what is returned, in every careful run;
* **`eventRead_zero`**: two readers of one event, of which the second returns 0.

Premise: the run is careful. The history of the events since the wake-up is that of `Lib.Since`.
-/

namespace LiteosM.Kernel

open LiteosM.Lib Function List Option State

/-- The read that a piece of code may end, if it is one that may wait. -/
def Sec.readOf : Sec → Option (Nat × BitVec 32 × BitVec 32)
  | .eventReadLocked e mask mode timeout => if timeout = 0 then none else some (e, mask, mode)
  | .eventPended e mask mode => some (e, mask, mode)
  | _ => none

/-- The wait of the reader `u` has ended, and it has not come back yet. -/
def Awake (e u : Nat) (mask mode : BitVec 32) (k : State) : Prop :=
  Sec.eventPended e mask mode ∈ k.todo u ∧ u ∉ k.waiting (.stEventList e)

/-- `LOS_EventWrite` finds the reader `u` waiting, and its condition holds now. -/
def Answers (e u : Nat) (mask mode : BitVec 32) (k : State) (l : Label) (k' : State) : Prop :=
  (∃ events, k.secOf l = some (.eventWriteLocked e events)) ∧ u ∈ k.waiting (.stEventList e) ∧
    Met (k'.event e) mask mode

/-- The events are taken back from a reader that is awake, by a read with `LOS_WAITMODE_CLR`, by
`LOS_EventClear` or by `LOS_EventInit`. -/
def TakenBack (e u : Nat) (mask mode : BitVec 32) (k : State) (l : Label) (k' : State) : Prop :=
  (∃ c, k.secOf l = some c ∧ c.takes e) ∧ Awake e u mask mode k ∧ Met (k.event e) mask mode ∧
    ¬Met (k'.event e) mask mode

/-- The reads behind their waits, in a state reached by `run` from `start`. -/
structure Heard (start : State) (run : List Label) (k : State) : Prop where
  quiet : k.taskScheduled = false → ∀ u < taskMaxNum, k.todo u = []
  ok : ∀ u e mask mode, Sec.eventPended e mask mode ∈ k.todo u →
    u < taskMaxNum ∧ k.toSched.Live u ∧ ReadOk mask mode
  heard : ∀ u e mask mode, Sec.eventPended e mask mode ∈ k.todo u → (k.st u).timeout = false →
    (u ∈ k.waiting (.stEventList e) ∧ k.wish u = (mask, mode)) ∨
      Since step start (Answers e u mask mode) (Awake e u mask mode) run k

section
variable {k k' : State} {v v' : View} {c : Sec} {l : Label} {e u : Nat} {mask mode : BitVec 32}

/-- A piece behind the wait of `LOS_EventRead` has been there before, or a reader begins to wait. -/
theorem State.mem_run_pended (h : Sec.eventPended e mask mode ∈ (k.run c).todo u) :
    Sec.eventPended e mask mode ∈ k.todo u ∨
      (u = k.runTask ∧ ∃ timeout, c = .eventReadLocked e mask mode timeout ∧ k.waits c) := by
  cases hopens : c.opens with
  | false => exact .inl (k.adds_run c hopens u _ rfl h)
  | true =>
    refine (k.mem_run_opens hopens rfl h).imp_right fun ⟨hleaves, hu, hwaits⟩ => ⟨hu, ?_⟩
    cases c with
    | eventReadLocked e' mask' mode' timeout =>
      obtain ⟨rfl, rfl, rfl⟩ : e = e' ∧ mask = mask' ∧ mode = mode' := by
        simpa using hleaves
      exact ⟨timeout, rfl, hwaits rfl⟩
    | semPend | muxPend | queueOperate | eventRead => simp at hleaves
    | _ => cases hopens

/-! ## One step -/

variable {start : State} {run : List Label}

/-- A step of the kernel, as far as the readers behind their waits are concerned. -/
structure Sight (k : State) (l : Label) (c : Sec) (u : Nat) : Prop where
  lt : u < taskMaxNum
  live : k.toSched.Live u
  self : u = k.runTask → c = .schedule
  give : c ≠ .insertTCBToFreeList u
  del : c = .taskDelete u → (k.before l).deletes u = false

/-- A reader that has been behind its wait before the step, and still is. -/
theorem Heard.sight (hH : Heard start run k) (hA : Await k) (hstep : Kernel.step k l = some k')
    (hsec : k.secOf l = some c) (hharm : k.Unharmed c)
    (hmem : Sec.eventPended e mask mode ∈ (k.before l).todo u)
    (hmem' : Sec.eventPended e mask mode ∈ ((k.before l).run c).todo u) : Sight k l c u := by
  have hmem0 := mem_before hmem
  obtain ⟨hlt, hlive, -⟩ := hH.ok u e mask mode hmem0
  refine ⟨hlt, hlive, ?_, ?_, ?_⟩
  · rintro rfl
    rcases hA.head hlt hstep hsec hmem0 rfl with ⟨rfl, hnil⟩ | ⟨rfl, -⟩
    · simp [hnil] at hmem
    · rfl
  · rintro rfl
    simp [show k.todo u = [] from hharm] at hmem0
  rintro rfl
  by_contra hdel
  rw [Bool.not_eq_false] at hdel
  exact not_mem_taskDelete hdel rfl hmem'

theorem Sight.told (hS : Sight k l c u) (hN : Next c (k.before l) v) (hcare : (k.before l).CarefulSec c) :
    ((k.before l).run c).told u = k.told u := by
  have hk : (k.before l).toSched = k.toSched := k.before_toSched l
  have h := hN.told hcare hS.lt (hk ▸ hS.live) hS.give hS.del fun hc hu => by
    rw [hk] at hu
    obtain rfl := hS.self hu
    rcases hc with hc | hc <;> cases hc
  rwa [hk] at h

theorem State.before_event (k : State) (l : Label) : (k.before l).event = k.event := by
  cases l <;> rfl

theorem Heard.heard_ran (hH : Heard start run k) (hrun : exec step start run = some k) (hU : Unmet k)
    (hS : Sight k l c u) (hstep : Kernel.step k l = some ((k.before l).run c)) (hsec : k.secOf l = some c)
    (hN : Next c (k.before l) v) (hcare : (k.before l).CarefulSec c) (hran : Ran c (k.before l) v v')
    (hmem : Sec.eventPended e mask mode ∈ k.todo u)
    (hmem' : Sec.eventPended e mask mode ∈ ((k.before l).run c).todo u)
    (htime : (((k.before l).run c).st u).timeout = false) :
    (u ∈ ((k.before l).run c).waiting (.stEventList e) ∧ ((k.before l).run c).wish u = (mask, mode)) ∨
      Since step start (Answers e u mask mode) (Awake e u mask mode) (run ++ [l]) ((k.before l).run c) := by
  have hk : (k.before l).toSched = k.toSched := k.before_toSched l
  have htold := hS.told hN hcare
  have hreread := hN.reread hcare hran (e := e)
  rcases hH.heard u e mask mode hmem ((congrArg Prod.fst htold).symm.trans htime) with ⟨hin, hwish⟩ | hsince
  · by_cases hout : u ∈ ((k.before l).run c).waiting (.stEventList e)
    · exact .inl ⟨hout, (congrArg Prod.snd htold).trans hwish⟩
    -- only `LOS_EventWrite` takes it out of the list
    refine .inr ?_
    cases hreread with
    | same waiting =>
      rw [waiting, hk] at hout
      exact absurd hin hout
    | enters _ _ _ _ waiting =>
      rw [waiting, hk] at hout
      exact absurd (mem_append_left _ hin) hout
    | @wakes events sec _ waiting =>
      rw [waiting, hk, k.before_event, mem_filter, Bool.not_eq_true', not_and, Bool.not_eq_false] at hout
      obtain ⟨hok, hno⟩ := hU.waits e u hin
      have hmet := (hears_iff hok hno).mp (hout hin)
      obtain ⟨hmask, hmode⟩ := wish_eq hwish
      rw [hmask, hmode] at hmet
      refine .begins hrun hstep ⟨⟨events, sec ▸ hsec⟩, hin, ?_⟩ ⟨hmem', ?_⟩
      · rwa [sec, event_eventWriteLocked, k.before_event, update_self]
      · rwa [waiting, hk, k.before_event, mem_filter, Bool.not_eq_true', not_and, Bool.not_eq_false]
    | @deletes t sec del waiting =>
      rw [waiting, hk, mem_filter, decide_eq_true_iff, not_and, not_not] at hout
      obtain rfl := hout hin
      simp [hS.del sec] at del
  refine .inr (.stays hsince hstep ⟨hmem', ?_⟩)
  have hout := hsince.now.2
  cases hreread with
  | same waiting =>
    rwa [waiting, hk]
  | enters sec _ _ _ waiting =>
    rw [waiting, hk, mem_append, not_or, mem_singleton]
    refine ⟨hout, fun hu => ?_⟩
    simp [hS.self hu] at sec
  | wakes _ _ waiting | deletes _ _ waiting =>
    rw [waiting, hk]
    exact fun hc => hout (mem_of_mem_filter hc)

/-- A reader begins to wait. -/
theorem Next.pended_new {timeout : Nat} (hN : Next (.eventReadLocked e mask mode timeout) k v)
    (hcare : k.CarefulSec (.eventReadLocked e mask mode timeout))
    (hran : Ran (.eventReadLocked e mask mode timeout) k v v')
    (hw : k.waits (.eventReadLocked e mask mode timeout)) :
    k.runTask < taskMaxNum ∧ (k.run (.eventReadLocked e mask mode timeout)).toSched.Live k.runTask ∧
      k.runTask ∈ (k.run (.eventReadLocked e mask mode timeout)).waiting (.stEventList e) ∧
      (k.run (.eventReadLocked e mask mode timeout)).wish k.runTask = (mask, mode) := by
  obtain ⟨hstart, -⟩ := hcare hw
  have hlt := hN.runTask_lt Sec.noConfusion hstart
  obtain ⟨-, -, -, -, hexit, hunused⟩ := TaskStatus.stops_eq_false (hN.goes Sec.noConfusion hstart)
  obtain ⟨hwish, hwaiting⟩ := hN.read_waits hcare hw
  have heq : k.run (.eventReadLocked e mask mode timeout) = k.eventWaits e mask mode timeout := by
    dsimp only [State.run, eventReadLocked]
    rw [if_neg (not_or.mpr ⟨not_not.mpr hw.1, hw.2.1⟩), if_neg (by simp [hw.2.2])]
    rfl
  have hlive : (k.run (.eventReadLocked e mask mode timeout)).toSched.Live k.runTask := by
    rw [← hran.reached.1.eq]
    exact hran.stays_live hN hcare hlt (by rw [hN.eq]; exact ⟨hexit, hunused⟩) nofun nofun
  rw [heq] at hlive ⊢
  exact ⟨hlt, hlive, by rw [hwaiting]; exact mem_append_right _ (mem_singleton_self _), hwish⟩

/-- **Every orderly step keeps it.** -/
theorem Heard.step (hH : Heard start run k) (hrun : exec step start run = some k) (hU : Unmet k)
    (hA : Await k) (hR : Reached k v) (hok : k.Orderly l) (hstep : Kernel.step k l = some k')
    (h : Stepped k v l k' v') : Heard start (run ++ [l]) k' := by
  cases h with
  | @ran c sec next eq ran =>
    subst eq
    have hk : (k.before l).toSched = k.toSched := k.before_toSched l
    have hcare := hok.1.before sec
    have hharm := hok.2 c sec
    refine ⟨fun hstart u hu => ?_, fun u e mask mode hmem => ?_, fun u e mask mode hmem htime => ?_⟩
    · have hbefore : k.taskScheduled = false := by
        have hsame := ran.taskScheduled
        rw [ran.reached.1.eq, hR.1.eq] at hsame
        exact hsame.symm.trans hstart
      have hne : u ≠ k.runTask := by
        rintro rfl
        simp [hR.1.started hu] at hbefore
      rcases ran.todo_of_ne (hk ▸ hne) hu with heq | ⟨hnil, -⟩
      · rw [heq, k.before_todo_of_ne l hne]
        exact hH.quiet hbefore u hu
      · exact hnil
    · rcases mem_run_pended hmem with hold | ⟨rfl, timeout, rfl, hw⟩
      · have hS := hH.sight hA hstep sec hharm hold hmem
        refine ⟨hS.lt, ?_, (hH.ok u e mask mode (mem_before hold)).2.2⟩
        rw [← ran.reached.1.eq]
        exact ran.stays_live next hcare hS.lt (hR.1.eq ▸ hS.live) hS.del hS.give
      · obtain ⟨hlt, hlive, -⟩ := next.pended_new hcare ran hw
        exact ⟨hlt, hlive, hU.reads _ e mask mode timeout (mem_todo_of_not_call hstep sec rfl)⟩
    rcases mem_run_pended hmem with hold | ⟨rfl, timeout, rfl, hw⟩
    · exact hH.heard_ran hrun hU (hH.sight hA hstep sec hharm hold hmem) hstep sec next hcare ran
        (mem_before hold) hmem htime
    · exact .inl (next.pended_new hcare ran hw).2.2
  | tick label eq h =>
    subst eq
    refine ⟨fun hstart => hH.quiet ?_, fun u e mask mode hmem => ?_, fun u e mask mode hmem htime => ?_⟩
    · have hsame := h.taskScheduled
      rw [h.reached.1.eq, hR.1.eq] at hsame
      exact hsame.symm.trans hstart
    · obtain ⟨hlt, hlive, hread⟩ := hH.ok u e mask mode hmem
      refine ⟨hlt, ?_, hread⟩
      rw [← h.reached.1.eq]
      exact live_of_life (h.still _).symm (by rwa [hR.1.eq])
    have htime0 : (k.st u).timeout = false := by
      by_contra hc
      rw [Bool.not_eq_false] at hc
      have : ((k.toSched.schedTickHandler).kept u).2 = true := Sched.timeout_schedTickHandler hc
      simp [show ((k.toSched.schedTickHandler).kept u).2 = false from htime] at this
    rcases hH.heard u e mask mode hmem htime0 with ⟨hin, hwish⟩ | hsince
    · have hQ := hR.1.readers hin
      obtain ⟨ts', hw, hl⟩ := hQ.wait.schedTickHandler hQ.isWait hQ.pends hQ.idle
      refine .inl ⟨?_, (congrFun hl.wish u).trans hwish⟩
      have hts' : k.toSched.schedTickHandler.waiting (.stEventList e) = ts' :=
        hw.waiting_eq fun t ht => (hQ.live t (hl.sub.subset ht)).1
      by_contra hout
      have := hl.gone u hin (hts' ▸ hout)
      simp [show ((k.toSched.schedTickHandler).kept u).2 = false from htime] at this
    · refine .inr (.stays hsince hstep ⟨hmem, fun hin => hsince.now.2 ?_⟩)
      exact (hR.1.mem_readers u).mpr (h.wait rfl ((h.reached.1.mem_readers u).mp hin))
  | clock label eq frozen inv =>
    subst eq
    refine ⟨hH.quiet, hH.ok, fun u e mask mode hmem htime => ?_⟩
    exact (hH.heard u e mask mode hmem htime).imp_right fun hsince =>
      .stays hsince hstep ⟨hmem, hsince.now.2⟩
  | @start new label before eq top h inv =>
    subst eq
    have hno : ∀ u e mask mode, Sec.eventPended e mask mode ∉ k.todo u := by
      intro u e mask mode hmem
      have hnil := hH.quiet before u (hH.ok u e mask mode hmem).1
      simp [hnil] at hmem
    refine ⟨fun hstart => ?_, fun u e mask mode hmem => absurd hmem (hno u e mask mode),
      fun u e mask mode hmem => absurd hmem (hno u e mask mode)⟩
    have hset : v'.s.taskScheduled = true := congrArg Ctl.taskScheduled h.ctl
    rw [inv.1.eq] at hset
    rw [hset] at hstart
    cases hstart

theorem boot_heard (sysClock tickPeriodMax : Nat) :
    Heard (boot sysClock tickPeriodMax) [] (boot sysClock tickPeriodMax) := by
  have htodo := (boot_booted sysClock tickPeriodMax).todo
  have hno : ∀ u c, c ∉ (boot sysClock tickPeriodMax).todo u := fun u c hc => by
    simp [htodo u] at hc
  exact ⟨fun _ u _ => htodo u, fun u _ _ _ h => absurd h (hno u _), fun u _ _ _ h => absurd h (hno u _)⟩

/-- What holds in every state of an orderly run. -/
structure Readers (start : State) (run : List Label) (k : State) : Prop where
  reached : ∃ v, Reached k v
  await : Await k
  unmet : Unmet k
  heard : Heard start run k

theorem Readers.step (h : Readers start run k) (hrun : exec step start run = some k) (hok : k.Orderly l)
    (hstep : Kernel.step k l = some k') : Readers start (run ++ [l]) k' := by
  obtain ⟨⟨v, hR⟩, hA, hU, hH⟩ := h
  obtain ⟨v', h⟩ := hR.step hok.1 hstep
  exact ⟨⟨v', h.reached⟩, hA.step hR hstep h, hU.step hR hok.1 hstep h, hH.step hrun hU hA hR hok hstep h⟩

theorem readers_of_orderly {sysClock tickPeriodMax : Nat}
    (hok : Guarded step Orderly (boot sysClock tickPeriodMax) run)
    (hrun : exec step (boot sysClock tickPeriodMax) run = some k) :
    Readers (boot sysClock tickPeriodMax) run k := by
  obtain ⟨v, hv⟩ := (boot_booted sysClock tickPeriodMax).inv
  have hstart : Readers (boot sysClock tickPeriodMax) [] (boot sysClock tickPeriodMax) :=
    ⟨⟨v, hv.reached⟩, boot_await _ _, boot_unmet _ _, boot_heard _ _⟩
  exact exec_inv_run hstart (fun _ _ _ _ hk h hl => h.step hk hl) hok hrun

/-! ## What is returned -/

/-- Only the events of the mask matter. -/
theorem met_and (event mask mode : BitVec 32) : Met (event &&& mask) mask mode ↔ Met event mask mode := by
  unfold Met
  split_ifs
  · refine exists_congr fun i => and_congr_right fun _ => and_congr_right fun hm => ?_
    rw [BitVec.getLsbD_and, hm, Bool.and_true]
  · refine forall_congr' fun i => forall_congr' fun _ => forall_congr' fun hm => ?_
    rw [BitVec.getLsbD_and, hm, Bool.and_true]

theorem State.ret_eventPoll (k : State) (e : Nat) (mask mode : BitVec 32) :
    (k.eventPoll e mask mode).ret k.runTask = .events (pollEvent (k.event e) mask mode) := by
  unfold eventPoll
  dsimp only
  split_ifs <;> exact update_self ..

/-- Code of the running task is what a step executes. -/
theorem step_eq (hstep : Kernel.step k l = some k') (hsec : k.secOf l = some c) :
    k' = (k.before l).run c := by
  obtain ⟨-, hstep⟩ := ite_none_left_eq_some.mp hstep
  cases l with
  | call c0 =>
    obtain rfl : c0 = c := some.inj hsec
    dsimp only at hstep
    split_ifs at hstep
    exact (some.inj hstep).symm
  | cont =>
    change (k.todo k.runTask).head? = some c at hsec
    dsimp only at hstep
    split at hstep
    · cases hstep
    rename_i c0 rest htodo
    rw [htodo, head?_cons, some.injEq] at hsec
    change k' = (k.setTodo k.runTask (k.todo k.runTask).tail).run c
    rw [htodo, ← hsec]
    exact (some.inj hstep).symm
  | tick | clock | start => cases hsec

/-- A condition stops to hold by code that takes events away. -/
theorem takes_of_unmet (hstep : Kernel.step k l = some k') (hmet : Met (k.event e) mask mode)
    (hno : ¬Met (k'.event e) mask mode) : ∃ c, k.secOf l = some c ∧ c.takes e := by
  have hkeeps : k'.event e ≠ k.event e := fun heq => hno (heq ▸ hmet)
  cases hsec : k.secOf l with
  | some c =>
    rw [step_eq hstep hsec] at hno hkeeps
    rw [← k.before_event l] at hmet hkeeps
    rcases (k.before l).run_event_cases c e with heq | ⟨events, -, heq⟩ | ⟨htakes, -⟩
    · exact absurd heq hkeeps
    · refine absurd (hmet.mono fun i hi => ?_) hno
      rw [heq, BitVec.getLsbD_or, hi, Bool.true_or]
    · exact ⟨c, rfl, htakes⟩
  | none =>
    obtain ⟨-, hstep⟩ := ite_none_left_eq_some.mp hstep
    cases l with
    | call => cases hsec
    | cont =>
      rw [show k.todo k.runTask = [] from head?_eq_none_iff.mp hsec] at hstep
      cases hstep
    | tick =>
      cases hstep
      exact absurd rfl hkeeps
    | clock | start =>
      dsimp only at hstep
      split_ifs at hstep
      cases hstep
      exact absurd rfl hkeeps

/-- A read that ends without having waited has found what it asked for. -/
theorem State.eventReadLocked_returns {timeout : Nat} (htime : timeout ≠ 0) {m : BitVec 32}
    (hback : (k.eventReadLocked e mask mode timeout).todo k.runTask = [])
    (hret : (k.eventReadLocked e mask mode timeout).ret k.runTask = .events m) :
    m = pollEvent (k.event e) mask mode ∧ m ≠ 0 := by
  unfold eventReadLocked at hback hret
  split_ifs at hback hret with hpoll hlock
  · rw [k.ret_eventPoll, Ret.events.injEq] at hret
    exact ⟨hret.symm, hret ▸ hpoll.resolve_right htime⟩
  · cases hret.symm.trans (update_self ..)
  · have hmem : Sec.schedule ∈ (k.eventWaits e mask mode timeout).todo k.runTask :=
      mem_todo_push mem_cons_self (Sched.taskWait_runTask _ _ _)
    simp [show (k.eventWaits e mask mode timeout).todo k.runTask = [] from hback] at hmem

/-- A read that ends behind its wait has not timed out. -/
theorem State.eventPended_returns {m : BitVec 32}
    (hret : (k.eventPended e mask mode).ret k.runTask = .events m) :
    (k.st k.runTask).timeout = false ∧ m = pollEvent (k.event e) mask mode := by
  unfold eventPended at hret
  split_ifs at hret with htime
  · cases hret.symm.trans (update_self ..)
  · rw [k.ret_eventPoll, Ret.events.injEq] at hret
    exact ⟨Bool.eq_false_iff.mpr htime, hret.symm⟩

/-- The task that comes back from its wait is in no list. -/
theorem Reached.not_reading (hR : Reached k v) (hsec : k.secOf l = some (.eventPended e mask mode))
    (hstep : Kernel.step k l = some k') (hlt : k.runTask < taskMaxNum) :
    k.runTask ∉ k.waiting (.stEventList e) := by
  have hcare : k.Careful l := by
    unfold Careful
    rw [hsec]
    exact fun h => h.elim
  obtain ⟨v', h⟩ := hR.step hcare hstep
  cases h with
  | @ran c sec next eq ran =>
    rw [hsec, some.injEq] at sec
    subst sec
    intro hin
    have hpend := ((hR.1.readers hin).pends _ hin).1
    have hk : (k.before l).toSched = k.toSched := k.before_toSched l
    have hgoes := next.goes Sec.noConfusion
    rw [hk] at hgoes
    obtain ⟨-, -, hno, -⟩ := TaskStatus.stops_eq_false (hgoes (hR.1.started hlt))
    simp [hno] at hpend
  | tick label | clock label | start label =>
    subst label
    cases hsec

/-- **What a `LOS_EventRead` that may wait returns**, if it is no error: the events of its mask that
are set, if they satisfy its condition. Otherwise it returns 0, and then its condition held when
`LOS_EventWrite` ended its wait, and after that a read with `LOS_WAITMODE_CLR`, a `LOS_EventClear` or a
`LOS_EventInit` has taken the events back. -/
theorem eventRead_sound (sysClock tickPeriodMax : Nat) (run : List Label) (k k' : State) (l : Label)
    (e : Nat) (mask mode m : BitVec 32)
    (hok : Guarded step Orderly (boot sysClock tickPeriodMax) run)
    (hrun : exec step (boot sysClock tickPeriodMax) run = some k)
    (hread : (k.secOf l).bind Sec.readOf = some (e, mask, mode)) (hstep : step k l = some k')
    (hback : k'.todo k.runTask = []) (hret : k'.ret k.runTask = .events m) :
    m = pollEvent (k.event e) mask mode ∧ (m ≠ 0 → m = k.event e &&& mask ∧ Met m mask mode) ∧
      (m = 0 → ¬Met (k.event e) mask mode ∧
        Since step (boot sysClock tickPeriodMax) (Answers e k.runTask mask mode)
          (Awake e k.runTask mask mode) run k ∧
        Since step (boot sysClock tickPeriodMax) (TakenBack e k.runTask mask mode)
          (Awake e k.runTask mask mode) run k) := by
  obtain ⟨⟨v, hR⟩, hA, hU, hH⟩ := readers_of_orderly hok hrun
  obtain ⟨c, hsec, hc⟩ := bind_eq_some_iff.mp hread
  have hk : (k.before l).toSched = k.toSched := k.before_toSched l
  have hk' := step_eq hstep hsec
  -- a value other than 0 satisfies the condition
  have hfound : ReadOk mask mode → m = pollEvent (k.event e) mask mode →
      (m ≠ 0 → m = k.event e &&& mask ∧ Met m mask mode) := by
    rintro hro rfl hne
    rw [pollEvent_eq hne, met_and]
    exact ⟨rfl, (pollEvent_ne_zero_iff hro.mask).mp hne⟩
  cases c with
  | eventReadLocked e' mask' mode' timeout =>
    unfold Sec.readOf at hc
    dsimp only at hc
    split_ifs at hc with htime
    obtain ⟨rfl, rfl, rfl⟩ : e' = e ∧ mask' = mask ∧ mode' = mode := by simpa using hc
    subst hk'
    have hrun' : (k.before l).runTask = k.runTask := congrArg Sched.runTask hk
    rw [← hrun'] at hback hret
    obtain ⟨hm, hne⟩ := eventReadLocked_returns htime hback hret
    rw [k.before_event] at hm
    have hro := hU.reads k.runTask e' mask' mode' timeout (mem_todo_of_not_call hstep hsec rfl)
    exact ⟨hm, hfound hro hm, fun hz => absurd hz hne⟩
  | eventPended e' mask' mode' =>
    obtain ⟨rfl, rfl, rfl⟩ : e' = e ∧ mask' = mask ∧ mode' = mode := by simpa [Sec.readOf] using hc
    have hmem := mem_todo_of_not_call hstep hsec rfl
    obtain ⟨hlt, -, hro⟩ := hH.ok k.runTask e' mask' mode' hmem
    subst hk'
    obtain ⟨htime, hm⟩ := eventPended_returns (by rwa [hk])
    rw [hk] at htime
    rw [k.before_event] at hm
    refine ⟨hm, hfound hro hm, fun hz => ?_⟩
    have hno : ¬Met (k.event e') mask' mode' := fun hmet =>
      (pollEvent_ne_zero_iff hro.mask).mpr hmet (hm.symm.trans hz)
    refine ⟨hno, ?_⟩
    have hout := hR.not_reading hsec hstep hlt
    have hsince := (hH.heard k.runTask e' mask' mode' hmem htime).resolve_left fun h => hout h.1
    refine ⟨hsince, (hsince.lost (fun _ _ _ h => h.2.2) fun _ _ _ hstep hawake hmet hlost => ?_).resolve_left hno⟩
    exact ⟨takes_of_unmet hstep hmet hlost, hawake, hmet, hlost⟩
  | _ => cases hc

/-- Tasks 1 and 2 wait for the same event and mean to clear it; task 3 writes it, and task 1 is the
first to come back. -/
def bothWoken : List Label :=
  createTask 5 ++ createTask 6 ++ createTask 7 ++
    [.start, .call (.eventInit 0), .call (.eventRead 0 1 (waitmodeOr ||| waitmodeClr) waitForever), .cont, .cont,
      .call (.eventRead 0 1 (waitmodeOr ||| waitmodeClr) waitForever), .cont, .cont,
      .call (.eventWrite 0 1), .cont, .cont]

theorem eventRead_sound_bothWoken : ∃ k k', exec step (boot 1000000 0xffffff) bothWoken = some k ∧
    step k .cont = some k' ∧ k'.ret 1 = .events 1 ∧ Met 1 1 (waitmodeOr ||| waitmodeClr) := by
  have hok : Guarded step Orderly (boot 1000000 0xffffff) bothWoken := by decide +kernel
  obtain ⟨k, hk, hread, hself, k', hk', hback, hret⟩ : ∃ k,
      exec step (boot 1000000 0xffffff) bothWoken = some k ∧
      (k.secOf .cont).bind Sec.readOf = some (0, 1, waitmodeOr ||| waitmodeClr) ∧ k.runTask = 1 ∧
      ∃ k', step k .cont = some k' ∧ k'.todo 1 = [] ∧ k'.ret 1 = .events 1 := by decide +kernel
  obtain ⟨-, hmet, -⟩ := eventRead_sound _ _ _ k k' .cont 0 1 _ 1 hok hk hread hk'
    (by rwa [hself]) (by rwa [hself])
  exact ⟨k, k', hk, hk', hret, (hmet (by decide)).2⟩

/-- **A read that has waited can return 0**: task 1 has cleared the event before task 2 comes back. -/
theorem eventRead_zero : ∃ k k', exec step (boot 1000000 0xffffff)
      (bothWoken ++ [.cont, .call (.taskDelay 10), .cont]) = some k ∧
    (k.secOf .cont).bind Sec.readOf = some (0, 1, waitmodeOr ||| waitmodeClr) ∧ step k .cont = some k' ∧
    k'.todo k.runTask = [] ∧ k'.ret k.runTask = .events 0 := by
  simp only [exists_and_left]
  decide +kernel

end

end LiteosM.Kernel
