import LiteosM.Components.SignalWake

/-!
# Signals are not lost

A signal that has become pending stops to be so when a `LOS_SignalWait` returns it or a handler is called
for it. The books are kept by task and number: what was accepted is what was consumed, what was handled and
what is still pending.

* `Kept.step`: what one step keeps, if it meets `Lossless`;
* **`signals_balance`**: the books in every run whose steps all do.

`Lossless` leaves out four kinds of steps. A `LOS_SignalWait` that finds more than one pending signal clears
them all and returns one. A signal that was enabled again after `SIG_IGN` has no handler. A `LOS_SignalWait`
that has to wait while the scheduler is locked, and one that is woken by a signal whose information another
section has taken off the list, return the number that `sigInfo` has from before.
-/

namespace LiteosM.Components

open LiteosM.Lib LiteosM.Kernel Option OsSigCB SigTask

/-! ## The bits of a set -/

section
variable {flag flag' : BitVec 32} {n m : Nat}

theorem getLsbD_signalMaskOf {i : Nat} : (signalMaskOf n).getLsbD i = decide ((n + 31) % 32 = i) := by
  change (BitVec.twoPow 32 ((n + 31) % 32)).getLsbD i = _
  rw [BitVec.getLsbD_twoPow, decide_eq_true (by omega : (n + 31) % 32 < 32), Bool.true_and]

theorem inSet_eq : inSet flag n = flag.getLsbD ((n + 31) % 32) := by
  change decide (flag &&& BitVec.twoPow 32 ((n + 31) % 32) ≠ 0) = _
  rw [BitVec.and_twoPow]
  split
  · rename_i hbit
    rw [hbit]
    refine decide_eq_true fun hzero => ?_
    have hone := congrArg (BitVec.getLsbD · ((n + 31) % 32)) hzero
    simp at hone
    omega
  · rename_i hbit
    rw [Bool.not_eq_true _ |>.mp hbit]
    exact decide_eq_false fun hne => hne rfl

section
variable (hn : signalValid n = true)
include hn

/-- Two numbers have one bit only if they are the same. -/
theorem decide_bit (hm : m ≤ 32) : decide ((m + 31) % 32 = (n + 31) % 32) = decide (n = m) := by
  unfold signalValid signalSupportMax at hn
  simp only [Bool.and_eq_true, decide_eq_true_eq] at hn
  exact decide_eq_decide.mpr (by omega)

theorem inSet_or (hm : m ≤ 32) :
    inSet (flag ||| signalMaskOf m) n = (inSet flag n || decide (n = m)) := by
  rw [inSet_eq, inSet_eq, BitVec.getLsbD_or, getLsbD_signalMaskOf, decide_bit hn hm]

theorem inSet_and_not (hm : m ≤ 32) :
    inSet (flag &&& ~~~signalMaskOf m) n = (inSet flag n && decide (n ≠ m)) := by
  have hlt : (n + 31) % 32 < 32 := by omega
  rw [inSet_eq, inSet_eq, BitVec.getLsbD_and, BitVec.getLsbD_not, getLsbD_signalMaskOf,
    decide_bit hn hm, decide_eq_true hlt, Bool.true_and, decide_not]

theorem inSet_xor (hm : m ≤ 32) (hin : inSet flag m = true) :
    inSet (flag ^^^ signalMaskOf m) n = (inSet flag n && decide (n ≠ m)) := by
  rw [inSet_eq] at hin
  rw [inSet_eq, inSet_eq, BitVec.getLsbD_xor, getLsbD_signalMaskOf, decide_bit hn hm]
  by_cases heq : n = m
  · subst heq
    simp [hin]
  · simp [heq]

end

theorem inSet_and (hin : inSet (flag &&& flag') n = true) : inSet flag n = true := by
  rw [inSet_eq, BitVec.getLsbD_and] at hin
  rw [inSet_eq]
  exact (Bool.and_eq_true_iff.mp hin).1

/-- The signal that is found is one of the set. -/
theorem topSignal_spec (hne : flag ≠ 0) : topSignal flag ≤ 32 ∧ inSet flag (topSignal flag) = true := by
  obtain ⟨hlt, hbit, -⟩ := clz_spec hne
  unfold topSignal signalSupportMax
  rw [inSet_eq]
  have hclz : clz flag < 32 := hlt
  refine ⟨by omega, ?_⟩
  rw [show (31 - clz flag + 1 + 31) % 32 = 32 - 1 - clz flag by omega]
  rwa [BitVec.getMsbD, decide_eq_true hclz, Bool.true_and] at hbit

end

/-! ## The condition -/

/-- A signal is pending for a task. -/
def SigTask.pends (c : SigTask) (sigNo : Nat) : Bool :=
  match c.sig with
  | some cb => cb.pending sigNo
  | none => false

/-- What `SignalTimedWait` finds in `sigInfo` is the number of a pending signal, or 0, which is no signal. -/
def OsSigCB.Sure (cb : OsSigCB) : Prop := cb.sigInfo = 0 ∨ cb.pending cb.sigInfo = true
  deriving Decidable

namespace Signals

/-- The signals that a round of `SignalHandle`, if it comes next, chooses from, and the handlers. -/
def nextHandled (s : Signals) : Option (BitVec 32 × (Nat → Option Nat)) :=
  match (s.task s.runTask).stack with
  | .handle .. :: _ => (s.task s.runTask).sig.map fun cb => (cb.sigPendFlag &&& cb.sigSetFlag, cb.sigHandlers)
  | _ => none

/-- The set of a `LOS_SignalWait` and the control block it finds or makes. -/
def nextWait (s : Signals) (set : Option (BitVec 32)) (alloc : Bool) : Option (BitVec 32 × OsSigCB) :=
  set.bind fun flag => (s.signalCBInit s.runTask alloc).map fun cb => (flag, cb)

/-- A `LOS_SignalWait` for `flag` finds one pending signal or none, and if it has to wait the scheduler is not
locked, unless `sigInfo` is sure. -/
def WaitsForOne (s : Signals) (flag : BitVec 32) (timeout : Nat) (cb : OsSigCB) : Prop :=
  (cb.sigPendFlag &&& flag ≠ 0 → cb.sigPendFlag &&& flag = signalMaskOf (topSignal (cb.sigPendFlag &&& flag))) ∧
    (cb.sigPendFlag &&& flag = 0 → flag = 0 ∨ timeout = 0 ∨ s.losTaskLock = 0 ∨ cb.Sure)
  deriving Decidable

/-- A send to a task that waits for the signal finds its information, unless `sigInfo` is sure. -/
def FindsInfo (s : Signals) (target sigNo : Nat) : Prop :=
  ∀ cb ∈ (s.task target).sig, cb.sigWait = true → inSet cb.sigWaitFlag sigNo = true →
    sigNo ∈ cb.sigInfoList ∨ cb.sigInfo = sigNo ∨ cb.Sure ∨ (s.task target).timeout = true
  deriving Decidable

/-- No pending signal is dropped by the step, and none is taken that is not pending. -/
def Lossless (s : Signals) : SigLabel → Prop
  | .wait set timeout alloc => ∀ p ∈ s.nextWait set alloc, s.WaitsForOne p.1 timeout p.2
  | .run =>
    (∀ p ∈ s.nextSend, p.1 ≠ s.runTask → s.FindsInfo p.1 p.2) ∧
      ∀ p ∈ s.nextHandled, p.1 ≠ 0 → p.2 (topSignal p.1) ≠ none
  | _ => True

instance decidableLossless (s : Signals) (l : SigLabel) : Decidable (s.Lossless l) := by
  unfold Lossless
  repeat' split
  all_goals infer_instance

end Signals

/-! ## The books -/

/-- A task is blocked in `g_waitSignalList`. -/
def SigTask.Blocked (c : SigTask) : Prop := c.pend = true ∧ c.pendList = some .waitSignal

/-- The frames of a task that does not wait for signals. -/
structure Frames (stack : List SigFrame) : Prop where
  waiting : .waiting ∉ stack
  send : ∀ target sigNo, .send target sigNo ∈ stack → signalValid sigNo = true

/-- The numbers in a control block. -/
structure OsSigCB.Infos (cb : OsSigCB) : Prop where
  info : cb.sigInfo ≤ signalSupportMax
  list : ∀ n ∈ cb.sigInfoList, signalValid n = true

/-- `held` says that the task cannot go on while it is blocked. -/
structure TaskKept (c : SigTask) (held : Prop) : Prop where
  infos : ∀ cb ∈ c.sig, cb.Infos
  idle : c.waits = false → Frames c.stack
  top : c.waits = true → ∃ stack, c.stack = .waiting :: stack ∧ Frames stack
  wait : ∀ cb ∈ c.sig, cb.sigWait = true → c.timeout = true ∨ cb.Sure ∨ c.Blocked ∧ held

/-- Every task keeps its part, and each accepted signal is pending, was waited for or was handled. -/
structure Kept (s : Signals) : Prop where
  task : ∀ t, TaskKept (s.task t) (t = s.runTask → s.losTaskLock = 0)
  balance : ∀ t n, signalValid n = true →
    s.accepted t n = s.consumed t n + s.handled t n + ((s.task t).pends n).toNat

section
variable {s s' : Signals} {t n : Nat} {c c' : SigTask} {held : Prop} {cb : OsSigCB} {f : SigTask → SigTask}

theorem pends_of_sig (hcb : c.sig = some cb) : c.pends n = cb.pending n := by
  unfold pends
  rw [hcb]

/-- A task whose call is another one does not wait for signals. -/
theorem TaskKept.not_waits (h : TaskKept c held) (htop : ∀ stack, c.stack ≠ .waiting :: stack) : c.waits = false := by
  cases hwaits : c.waits with
  | false => rfl
  | true =>
    obtain ⟨stack, hstack, -⟩ := h.top hwaits
    exact absurd hstack (htop stack)

/-- One task changes and its books. -/
theorem Kept.of_update (h : Kept s) (hothers : ∀ u, u ≠ t → s'.task u = s.task u) (hrun : s'.runTask = s.runTask)
    (hlock : s'.losTaskLock = s.losTaskLock)
    (hbooks : ∀ u, u ≠ t → ∀ n, s'.accepted u n = s.accepted u n ∧
      s'.consumed u n + s'.handled u n = s.consumed u n + s.handled u n)
    (htask : TaskKept (s'.task t) (t = s.runTask → s.losTaskLock = 0))
    (hbalance : ∀ n, signalValid n = true →
      s'.accepted t n = s'.consumed t n + s'.handled t n + ((s'.task t).pends n).toNat) : Kept s' := by
  refine ⟨fun u => ?_, fun u n hn => ?_⟩
  · rw [hrun, hlock]
    by_cases hu : u = t
    · exact hu ▸ htask
    · rw [hothers u hu]
      exact h.task u
  by_cases hu : u = t
  · exact hu ▸ hbalance n hn
  · rw [hothers u hu, (hbooks u hu n).1, (hbooks u hu n).2]
    exact h.balance u n hn

section
variable (h : Kept s)
  (hbooks : s'.accepted = s.accepted ∧ s'.consumed = s.consumed ∧ s'.handled = s.handled)
include h hbooks

/-- What the scheduler does: a task that is blocked stays so, or its wait has an end. -/
theorem Kept.move
    (hsame : ∀ t, (s'.task t).sig = (s.task t).sig ∧ (s'.task t).stack = (s.task t).stack ∧
      ((s.task t).timeout = true → (s'.task t).timeout = true))
    (hblocked : ∀ t, ∀ cb ∈ (s.task t).sig, cb.sigWait = true → (s.task t).Blocked →
      (t = s.runTask → s.losTaskLock = 0) →
      (s'.task t).timeout = true ∨ cb.Sure ∨ (s'.task t).Blocked ∧ (t = s'.runTask → s'.losTaskLock = 0)) :
    Kept s' := by
  refine ⟨fun t => ?_, fun t n hn => ?_⟩
  · obtain ⟨hsig, hstack, htimeout⟩ := hsame t
    refine ⟨?_, ?_, ?_, ?_⟩
    · rw [hsig]
      exact (h.task t).infos
    · unfold SigTask.waits
      rw [hsig, hstack]
      exact (h.task t).idle
    · unfold SigTask.waits
      rw [hsig, hstack]
      exact (h.task t).top
    rw [hsig]
    intro cb hcb hwait
    rcases (h.task t).wait cb hcb hwait with hend | hsure | ⟨hblock, hheld⟩
    · exact .inl (htimeout hend)
    · exact .inr (.inl hsure)
    · exact hblocked t cb hcb hwait hblock hheld
  · unfold pends
    rw [hbooks.1, hbooks.2.1, hbooks.2.2, (hsame t).1]
    exact h.balance t n hn

end

section
variable (h : Kept s) {ended : Nat → Bool} {badWake assertFailed : Bool}
include h

/-- The scheduler moves one task. -/
theorem Kept.moveOne (hsame : ((f (s.task t)).sig, (f (s.task t)).stack) = ((s.task t).sig, (s.task t).stack))
    (htimeout : (s.task t).timeout = true → (f (s.task t)).timeout = true)
    (hblocked : ∀ cb ∈ (s.task t).sig, cb.sigWait = true → (s.task t).Blocked →
      (f (s.task t)).timeout = true ∨ cb.Sure ∨ (f (s.task t)).Blocked) :
    Kept ({ s with ended, badWake, assertFailed }.setTask t f) := by
  obtain ⟨hsig, hstack⟩ := Prod.mk.inj hsame
  refine h.move ⟨rfl, rfl, rfl⟩ (fun u => ?_) fun u cb hcb hw hblock hheld => ?_
  all_goals by_cases hu : u = t
  · subst hu
    rw [setTask_self]
    exact ⟨hsig, hstack, htimeout⟩
  · rw [setTask_of_ne hu]
    exact ⟨rfl, rfl, id⟩
  · subst hu
    rw [setTask_self]
    exact (hblocked cb hcb hw hblock).imp id (Or.imp id fun hb => ⟨hb, hheld⟩)
  · rw [setTask_of_ne hu]
    exact .inr (.inr ⟨hblock, hheld⟩)

/-- Nothing changes that is looked at. -/
theorem Kept.quiet (hsame : ((f (s.task t)).sig, (f (s.task t)).stack, (f (s.task t)).timeout, (f (s.task t)).pend,
      (f (s.task t)).pendList) = ((s.task t).sig, (s.task t).stack, (s.task t).timeout, (s.task t).pend,
      (s.task t).pendList)) : Kept (s.setTask t f) := by
  simp only [Prod.mk.injEq] at hsame
  obtain ⟨hsig, hstack, htimeout, hpend, hlist⟩ := hsame
  exact h.moveOne (by rw [hsig, hstack]) htimeout.trans fun _ _ _ hblock =>
    .inr (.inr ⟨hpend.trans hblock.1, hlist.trans hblock.2⟩)

theorem Kept.taskEnQueue (hpend : (s.task t).pend = false) : Kept (s.taskEnQueue t) :=
  h.moveOne rfl id fun _ _ _ hblock => absurd hblock.1 (by simp [hpend])

end

variable {stack : List SigFrame}

theorem Frames.of_cons {frame : SigFrame} (h : Frames (frame :: stack)) : Frames stack :=
  ⟨fun hmem => h.waiting (List.mem_cons_of_mem _ hmem),
    fun target sigNo hmem => h.send target sigNo (List.mem_cons_of_mem _ hmem)⟩

theorem Frames.cons {frame : SigFrame} (h : Frames stack)
    (hsend : ∀ target sigNo, frame = .send target sigNo → signalValid sigNo = true := by simp)
    (hframe : frame ≠ .waiting := by simp) : Frames (frame :: stack) := by
  refine ⟨fun hmem => ?_, fun target sigNo hmem => ?_⟩
  · exact (List.mem_cons.mp hmem).elim (hframe ·.symm) h.waiting
  · exact (List.mem_cons.mp hmem).elim (hsend target sigNo ·.symm) (h.send target sigNo)

theorem le_of_signalValid (hn : signalValid n = true) : n ≤ signalSupportMax := by
  unfold signalValid at hn
  simp only [Bool.and_eq_true, decide_eq_true_eq] at hn
  exact hn.2

theorem OsSigCB.Infos.congr {old : OsSigCB} (h : old.Infos) (hinfo : cb.sigInfo = old.sigInfo)
    (hlist : cb.sigInfoList = old.sigInfoList) : cb.Infos :=
  ⟨hinfo ▸ h.info, hlist ▸ h.list⟩

variable {sigNo : Nat}

theorem OsSigCB.Infos.delete (h : cb.Infos) : (cb.deleteSigInfo sigNo).Infos := by
  unfold deleteSigInfo
  split
  · rename_i hmem
    exact ⟨le_of_signalValid (h.list _ hmem), fun n hn => h.list n (List.mem_of_mem_erase hn)⟩
  · exact h

theorem deleteSigInfo_pending : (cb.deleteSigInfo sigNo).pending n = cb.pending n := by
  unfold deleteSigInfo
  split <;> rfl

theorem setCB_sig : ((s.setCB t cb).task t).sig = some cb := by
  unfold Signals.setCB
  rw [setTask_self]

theorem returns_setCB_self {ret : SigRet} :
    ((s.setCB t cb).returns t stack ret).task t = { s.task t with sig := some cb, stack := stack, ret := ret } := by
  unfold Signals.returns Signals.setCB
  rw [setTask_self, setTask_self]

variable {u : Nat}

theorem returns_setCB_of_ne {ret : SigRet} (hu : u ≠ t) :
    ((s.setCB t cb).returns t stack ret).task u = s.task u := by
  unfold Signals.returns Signals.setCB
  rw [setTask_of_ne hu, setTask_of_ne hu]

/-- The stack of a task that does not wait for signals. -/
theorem Kept.restack (h : Kept s) (hsig : (f (s.task t)).sig = (s.task t).sig)
    (hwaits : (s.task t).waits = false) (hframes : Frames (f (s.task t)).stack) : Kept (s.setTask t f) := by
  have hwaits' : (f (s.task t)).waits = false := by
    unfold SigTask.waits at hwaits ⊢
    rwa [hsig]
  refine h.of_update (fun u hu => setTask_of_ne hu) rfl rfl (fun _ _ _ => ⟨rfl, rfl⟩) ?_ fun n hn => ?_
      <;> rw [setTask_self]
  · refine ⟨hsig ▸ (h.task t).infos, fun _ => hframes, fun hc => ?_, fun cb hcb hc => ?_⟩
    · simp [hwaits'] at hc
    · simp [← waits_of_sig hcb, hwaits'] at hc
  · unfold pends
    rw [hsig]
    exact h.balance t n hn

theorem Kept.returns (h : Kept s) {ret : SigRet} (hwaits : (s.task t).waits = false)
    (hframes : Frames stack) : Kept (s.returns t stack ret) :=
  h.restack rfl hwaits hframes

/-- The control block of a task is replaced, with the same signals pending. -/
theorem Kept.setCB (h : Kept s) (hpends : ∀ n, signalValid n = true → cb.pending n = (s.task t).pends n)
    (hinfos : cb.Infos) (hwait : cb.sigWait = (s.task t).waits)
    (hsure : ∀ old ∈ (s.task t).sig, cb.sigWait = true → old.Sure → cb.Sure) : Kept (s.setCB t cb) := by
  refine h.of_update (fun u hu => setTask_of_ne hu) rfl rfl (fun _ _ _ => ⟨rfl, rfl⟩) ?_ fun n hn => ?_
  · unfold Signals.setCB
    rw [setTask_self]
    refine ⟨fun cb' hcb' => some.inj hcb' ▸ hinfos, fun hc => (h.task t).idle (hwait ▸ hc),
      fun hc => (h.task t).top (hwait ▸ hc), fun cb' hcb' hc => ?_⟩
    cases hcb'
    have hold := hc
    rw [hwait] at hold
    cases hsig : (s.task t).sig with
    | none =>
      unfold SigTask.waits at hold
      simp [hsig] at hold
    | some old =>
      exact ((h.task t).wait old hsig ((waits_of_sig hsig).symm.trans hold)).imp_right (.imp_left (hsure old hsig hc))
  · rw [pends_of_sig setCB_sig, hpends n hn]
    exact h.balance t n hn

/-- A section of a task at the end of which it does not wait for signals: some pending signals are taken, and each
is entered once. -/
theorem Kept.settle (h : Kept s) {k : Nat → Bool} (hothers : ∀ u, u ≠ t → s'.task u = s.task u)
    (hrun : s'.runTask = s.runTask) (hlock : s'.losTaskLock = s.losTaskLock) (haccepted : s'.accepted = s.accepted)
    (hcount : ∀ u n, s'.consumed u n + s'.handled u n =
      s.consumed u n + s.handled u n + if u = t ∧ k n = true then 1 else 0)
    (hk : ∀ n, signalValid n = true → k n = true → (s.task t).pends n = true)
    (hsig : (s'.task t).sig = some cb)
    (hpends : ∀ n, signalValid n = true → cb.pending n = ((s.task t).pends n && !k n))
    (hinfos : cb.Infos) (hwait : cb.sigWait = false) (hframes : Frames (s'.task t).stack) : Kept s' := by
  refine h.of_update hothers hrun hlock (fun u hu n => ⟨by rw [haccepted], ?_⟩) ?_ fun n hn => ?_
  · rw [hcount, if_neg fun hc => hu hc.1]
    rfl
  · refine ⟨fun cb' hcb' => ?_, fun _ => hframes, fun hc => ?_, fun cb' hcb' hc => ?_⟩
    · exact some.inj (hsig.symm.trans hcb') ▸ hinfos
    · simp [waits_of_sig hsig, hwait] at hc
    · simp [← some.inj (hsig.symm.trans hcb'), hwait] at hc
  rw [pends_of_sig hsig, hpends n hn, hcount, haccepted, h.balance t n hn]
  cases htake : k n with
  | true =>
    rw [if_pos ⟨rfl, rfl⟩, hk n hn htake]
    rfl
  | false =>
    rw [if_neg fun hc => Bool.false_ne_true hc.2, Bool.not_false, Bool.and_true]
    rfl

variable {alloc : Bool}

/-- The control block of `SignalCBInit` is that of the task or a new one. -/
theorem signalCBInit_cases (hcb : s.signalCBInit t alloc = some cb) :
    (s.task t).sig = some cb ∨ (s.task t).sig = none ∧ cb = .init := by
  unfold Signals.signalCBInit at hcb
  cases hsig : (s.task t).sig with
  | some old =>
    rw [hsig] at hcb
    exact .inl hcb
  | none =>
    rw [hsig] at hcb
    obtain ⟨-, hcb⟩ := ite_none_right_eq_some.mp hcb
    exact .inr ⟨rfl, (some.inj hcb).symm⟩

theorem pending_init : OsSigCB.init.pending n = false := by
  unfold pending
  rw [inSet_eq]
  exact BitVec.getLsbD_zero

theorem signalCBInit_pends (hcb : s.signalCBInit t alloc = some cb) :
    cb.pending n = (s.task t).pends n := by
  rcases signalCBInit_cases hcb with hsig | ⟨hsig, rfl⟩
  · exact (pends_of_sig hsig).symm
  · unfold pends
    rw [hsig]
    exact pending_init

theorem Kept.infos_init (h : Kept s) (hcb : s.signalCBInit t alloc = some cb) : cb.Infos := by
  rcases signalCBInit_cases hcb with hsig | ⟨-, rfl⟩
  · exact (h.task t).infos cb hsig
  · exact ⟨Nat.zero_le _, fun n hn => absurd hn List.not_mem_nil⟩

/-- A new control block does not wait. -/
theorem sig_of_sigWait (hcb : s.signalCBInit t alloc = some cb) (hwait : cb.sigWait = true) :
    (s.task t).sig = some cb := by
  rcases signalCBInit_cases hcb with hsig | ⟨-, rfl⟩
  · exact hsig
  · cases hwait

/-- A call does not change what waits. -/
theorem setCB_waits_eq (hwait : cb.sigWait = (s.task u).waits) :
    ((s.setCB u cb).task t).waits = (s.task t).waits := by
  by_cases ht : t = u
  · rw [ht, setCB_waits, hwait]
  · unfold Signals.setCB
    rw [setTask_of_ne ht]

theorem setCB_stack : ((s.setCB u cb).task t).stack = (s.task t).stack := by
  unfold Signals.setCB
  by_cases ht : t = u
  · rw [ht, setTask_self]
  · rw [setTask_of_ne ht]

/-! ## The calls -/

section
variable (h : Kept s)
include h

/-- The running task does not wait where it may call. -/
theorem Kept.not_waits_of_mayCall (hcall : s.mayCall = true) : (s.task s.runTask).waits = false := by
  refine (h.task s.runTask).not_waits fun stack hstack => ?_
  unfold Signals.mayCall at hcall
  simp [hstack] at hcall

/-- The running task does not wait in a frame other than `SignalTimedWait`. -/
theorem Kept.popped {frame : SigFrame} (hstack : (s.task s.runTask).stack = frame :: stack)
    (hframe : frame ≠ .waiting := by simp) : (s.task s.runTask).waits = false ∧ Frames (frame :: stack) := by
  have hwaits : (s.task s.runTask).waits = false := (h.task s.runTask).not_waits fun stack' hc =>
    hframe (List.cons.inj (hstack.symm.trans hc)).1
  exact ⟨hwaits, hstack ▸ (h.task s.runTask).idle hwaits⟩

/-- A call that leaves the stack as it is. -/
theorem Kept.same {ret : SigRet} (hwaits : (s.task t).waits = false) :
    Kept (s.returns t (s.task t).stack ret) :=
  h.returns hwaits ((h.task t).idle hwaits)

variable {alloc : Bool}

/-- A call that changes the control block of its own task. -/
theorem Kept.setOwn {old : OsSigCB} {ret : SigRet} (hwaits : (s.task t).waits = false)
    (hold : s.signalCBInit t alloc = some old)
    (hsame : (cb.sigPendFlag, cb.sigInfo, cb.sigInfoList, cb.sigWait) =
      (old.sigPendFlag, old.sigInfo, old.sigInfoList, old.sigWait)) :
    Kept ((s.setCB t cb).returns t (s.task t).stack ret) := by
  simp only [Prod.mk.injEq] at hsame
  obtain ⟨hpend, hinfo, hlist, hwait⟩ := hsame
  have hnone : cb.sigWait = (s.task t).waits := by rw [hwait, sigWait_of_init hold]
  have hset : Kept (s.setCB t cb) := by
    refine h.setCB (fun n _ => ?_) ((h.infos_init hold).congr hinfo hlist) hnone fun _ _ hc => ?_
    · rw [← signalCBInit_pends hold]
      unfold pending
      rw [hpend]
    · simp [hnone, hwaits] at hc
  exact hset.returns (setCB_waits.trans (hnone.trans hwaits)) ((h.task t).idle hwaits)

theorem Kept.signalSet (hcall : s.mayCall = true) {handler : SigHandler} :
    Kept (s.signalSet sigNo handler alloc) := by
  have hwaits := h.not_waits_of_mayCall hcall
  unfold Signals.signalSet
  dsimp only
  split
  · exact h.same hwaits
  split
  · exact h.same hwaits
  · rename_i cb hcb
    refine h.setOwn hwaits hcb ?_
    cases handler <;> rfl

theorem Kept.signalMask (hcall : s.mayCall = true) {how : SigHow} {set : Option (BitVec 32)}
    : Kept (s.signalMask how set alloc) := by
  have hwaits := h.not_waits_of_mayCall hcall
  unfold Signals.signalMask
  dsimp only
  split
  · exact h.same hwaits
  rename_i cb hcb
  split
  · exact h.setOwn hwaits hcb rfl
  · exact h.setOwn hwaits hcb rfl

theorem Kept.signalSend (hcall : s.mayCall = true) {target sigNo : Nat} {alloc allocInfo : Bool} :
    Kept (s.signalSend target sigNo alloc allocInfo) := by
  have hwaits := h.not_waits_of_mayCall hcall
  unfold Signals.signalSend
  dsimp only
  split
  · exact h.same hwaits
  rename_i hvalid
  have hvalid : signalValid sigNo = true := by
    simp only [not_or, Bool.not_eq_true', Bool.not_eq_false] at hvalid
    exact hvalid.2
  split
  · exact h.same hwaits
  rename_i cb hcb
  have hinfos := h.infos_init hcb
  have hframes := (h.task s.runTask).idle hwaits
  have hpush : Frames (.send target sigNo :: (s.task s.runTask).stack) := by
    refine hframes.cons fun target' sigNo' heq => ?_
    injection heq with _ heq
    exact heq ▸ hvalid
  have hset : Kept (s.setCB target cb) := by
    refine h.setCB (fun n _ => signalCBInit_pends hcb) hinfos (sigWait_of_init hcb) fun old hold hc hsure => ?_
    cases hold.symm.trans (sig_of_sigWait hcb hc)
    exact hsure
  have hwaits1 : ((s.setCB target cb).task s.runTask).waits = false :=
    (setCB_waits_eq (sigWait_of_init hcb)).trans hwaits
  have hstack : ((s.setCB target cb).task s.runTask).stack = (s.task s.runTask).stack := setCB_stack
  rw [hstack]
  split
  · exact hset.returns hwaits1 hframes
  split
  · exact hset.returns hwaits1 hpush
  split
  · have hlist : Kept ((s.setCB target cb).setCB target { cb with sigInfoList := sigNo :: cb.sigInfoList }) := by
      refine hset.setCB (fun n _ => ?_) ⟨hinfos.info, fun n hn => ?_⟩ ?_ fun old hold _ hsure => ?_
      · rw [pends_of_sig setCB_sig]
        rfl
      · rcases List.mem_cons.mp hn with rfl | hn
        · exact hvalid
        · exact hinfos.list n hn
      · rw [setCB_waits]
      · cases setCB_sig.symm.trans hold
        exact hsure
    refine hlist.returns ?_ hpush
    rw [setCB_waits_eq]
    · exact hwaits1
    · rw [setCB_waits]
  · exact hset.returns hwaits1 hframes

end

/-- One more consumed or handled is one more altogether. -/
theorem count_add {g : Nat → Nat → Nat} {k : Nat} (u m : Nat) :
    count g t n u m + k = g u m + k + if u = t ∧ decide (m = n) = true then 1 else 0 := by
  unfold count
  simp only [decide_eq_true_eq]
  split <;> omega

theorem Kept.signalWait (h : Kept s) (hcall : s.mayCall = true) {set : Option (BitVec 32)} {timeout : Nat}
    (hok : s.Lossless (.wait set timeout alloc)) : Kept (s.signalWait set timeout alloc) := by
  have hwaits := h.not_waits_of_mayCall hcall
  unfold Signals.signalWait
  dsimp only
  split
  · exact h.same hwaits
  rename_i flag
  split
  · exact h.same hwaits
  rename_i hflag
  split
  · exact h.same hwaits
  rename_i cb hcb
  have hinfos := h.infos_init hcb
  have hnone : cb.sigWait = false := (sigWait_of_init hcb).trans hwaits
  obtain ⟨hone, hlocked⟩ : s.WaitsForOne flag timeout cb := by
    refine hok (flag, cb) ?_
    unfold Signals.nextWait
    rw [hcb]
    rfl
  split
  · -- One signal of the set is pending: it is taken, and the others stay.
    rename_i hne
    obtain ⟨htop, hin⟩ := topSignal_spec hne
    refine h.settle (fun u hu => returns_setCB_of_ne hu) rfl rfl rfl (fun u m => count_add u m)
      (fun n hn htaken => ?_) (congrArg sig returns_setCB_self) (fun n hn => ?_) ?_ ?_ ?_
    · rw [of_decide_eq_true htaken, ← signalCBInit_pends hcb]
      exact inSet_and hin
    · rw [deleteSigInfo_pending, ← signalCBInit_pends hcb]
      unfold pending
      nth_rewrite 1 [hone hne]
      rw [inSet_xor hn htop (inSet_and hin), decide_not]
    · refine OsSigCB.Infos.delete ?_
      exact hinfos.congr rfl rfl
    · rwa [deleteSigInfo_sigWait]
    · rw [returns_setCB_self]
      exact (h.task s.runTask).idle hwaits
  rename_i hzero
  split
  · exact h.setOwn hwaits hcb rfl
  rename_i htimeout
  -- The task is blocked, or it goes on with a sure `sigInfo`.
  have hzero := not_not.mp hzero
  have hself : ∀ (ended : Nat → Bool) (cb' : OsSigCB) (forever : Bool) (stack : List SigFrame),
      ((({ s with ended := ended }.setCB s.runTask cb').taskWait .waitSignal forever).returns s.runTask
        stack .ok).task s.runTask =
      { s.task s.runTask with sig := some cb', pend := true, pendList := some .waitSignal,
                              pendTime := (s.task s.runTask).pendTime || !forever, stack := stack,
                              ret := .ok } := by
    intro ended cb' forever stack
    simp only [Signals.returns, Signals.taskWait, Signals.setCB, setTask_runTask, setTask_self]
  refine h.of_update (t := s.runTask) (fun u hu => ?_) rfl rfl (fun _ _ _ => ⟨rfl, rfl⟩) ?_ fun n hn => ?_
  · simp only [Signals.returns, Signals.taskWait, Signals.setCB, setTask_runTask, setTask_of_ne hu]
  · rw [hself]
    refine ⟨fun cb' hcb' => ?_, fun hc => ?_, fun _ => ⟨_, rfl, (h.task s.runTask).idle hwaits⟩,
      fun cb' hcb' _ => ?_⟩
    · cases hcb'
      exact hinfos.congr rfl rfl
    · cases hc
    cases hcb'
    rcases hlocked hzero with hc | hc | hlock | hsure
    · exact absurd hc hflag
    · exact absurd hc htimeout
    · exact .inr (.inr ⟨⟨rfl, rfl⟩, fun _ => hlock⟩)
    · exact .inr (.inl hsure)
  rw [hself]
  change s.accepted s.runTask n = _
  rw [h.balance s.runTask n hn, ← signalCBInit_pends hcb]
  rfl

/-- The end of a wait: it returns a pending signal, or it is over with its timeout. -/
theorem Kept.signalWaited (h : Kept s) (hgo : s.goesOn = true)
    (hstack : (s.task s.runTask).stack = .waiting :: stack) (hwaits : (s.task s.runTask).waits = true) :
    Kept (s.signalWaited stack) := by
  obtain ⟨stack', hstack', hframes⟩ := (h.task s.runTask).top hwaits
  obtain rfl : stack = stack' := by
    rw [hstack] at hstack'
    exact (List.cons.inj hstack').2
  unfold Signals.signalWaited
  dsimp only
  split
  · exact h
  rename_i cb hcb
  have hinfos : cb.Infos := (h.task s.runTask).infos cb hcb
  have hpends : ∀ n, (s.task s.runTask).pends n = cb.pending n := fun n => pends_of_sig hcb
  rw [setTask_self]
  split
  · have hself : ((((s.setTask s.runTask fun c => { c with signal := false }).setCB s.runTask
        { cb with sigWait := false, sigWaitFlag := 0 }).setTask s.runTask fun c => { c with timeout := false }).returns
        s.runTask stack .timeout).task s.runTask =
        { s.task s.runTask with signal := false, timeout := false, stack := stack, ret := .timeout,
                                sig := some { cb with sigWait := false, sigWaitFlag := 0 } } := by
      simp only [Signals.returns, Signals.setCB, setTask_self]
    refine h.settle (fun u hu => ?_) rfl rfl rfl (fun u n => ?_)
      (fun n _ hc => absurd hc Bool.false_ne_true) (congrArg sig hself) (fun n _ => ?_)
      (hinfos.congr rfl rfl) rfl ?_
    · simp only [Signals.returns, Signals.setCB, setTask_of_ne hu]
    · rw [if_neg fun hc => Bool.false_ne_true hc.2]
      rfl
    · rw [hpends, Bool.not_false, Bool.and_true]
      rfl
    · rwa [hself]
  rename_i htimeout
  have hsure : cb.Sure := by
    rcases (h.task s.runTask).wait cb hcb ((waits_of_sig hcb).symm.trans hwaits) with hc | hsure | ⟨hblock, hheld⟩
    · exact absurd hc htimeout
    · exact hsure
    · have hpend := pend_of_goesOn hgo (hheld rfl)
      simp [hblock.1] at hpend
  refine h.settle (fun u hu => ?_) rfl rfl rfl (fun u n => count_add u n) (fun n hn htaken => ?_)
    (congrArg sig returns_setCB_self) (fun n hn => ?_) (hinfos.congr rfl rfl) rfl ?_
  · rw [returns_setCB_of_ne hu]
    dsimp only
    exact setTask_of_ne hu
  · rw [hpends, of_decide_eq_true htaken]
    rcases hsure with hzero | hpend
    · rw [of_decide_eq_true htaken, hzero] at hn
      cases hn
    · exact hpend
  · rw [hpends, ← decide_not]
    exact inSet_and_not hn (Nat.le_succ_of_le hinfos.info)
  · rwa [returns_setCB_self]

/-- A round of `SignalHandle` that finds a handler for the signal it takes. -/
theorem Kept.signalHandle (h : Kept s) {cleanStatus again : Bool}
    (hstack : (s.task s.runTask).stack = .handle cleanStatus again :: stack) (hok : s.Lossless .run) :
    Kept (s.signalHandle cleanStatus again stack) := by
  obtain ⟨hwaits, hframes⟩ := h.popped hstack
  unfold Signals.signalHandle
  dsimp only
  split
  · exact h.returns hwaits hframes.of_cons
  rename_i cb hcb
  have hnone : cb.sigWait = false := (waits_of_sig hcb).symm.trans hwaits
  have hhandler : cb.sigPendFlag &&& cb.sigSetFlag ≠ 0 →
      cb.sigHandlers (topSignal (cb.sigPendFlag &&& cb.sigSetFlag)) ≠ none := by
    refine hok.2 (cb.sigPendFlag &&& cb.sigSetFlag, cb.sigHandlers) ?_
    unfold Signals.nextHandled
    rw [hstack, hcb]
    rfl
  generalize hs1 : (if (cleanStatus && again) = true then
    s.setTask s.runTask fun c => { c with signal := false } else s) = s1
  have h1 : Kept s1 := by
    rw [← hs1]
    split
    · exact h.quiet rfl
    · exact h
  have hsig1 : (s1.task s.runTask).sig = some cb := by
    rw [← hs1]
    split
    · rwa [setTask_self]
    · exact hcb
  split
  · exact h1.returns ((waits_of_sig hsig1).trans hnone) hframes.of_cons
  rename_i hne
  obtain ⟨htop, hin⟩ := topSignal_spec hne
  have hhandler := hhandler hne
  generalize topSignal (cb.sigPendFlag &&& cb.sigSetFlag) = m at htop hin hhandler ⊢
  have hsame : (cb.deleteSigInfo m).sigHandlers = cb.sigHandlers ∧
      (cb.deleteSigInfo m).sigPendFlag = cb.sigPendFlag := by
    unfold deleteSigInfo
    split <;> exact ⟨rfl, rfl⟩
  split
  · rename_i hc
    rw [hsame.1] at hc
    exact absurd hc hhandler
  refine h1.settle (k := fun n => decide (n = m)) (fun u hu => ?_) rfl rfl rfl (fun u n => ?_)
    (fun n _ htaken => ?_) (congrArg sig returns_setCB_self) (fun n hn => ?_) ?_ ?_ ?_
  · exact returns_setCB_of_ne hu
  · change s1.consumed u n + count s1.handled s.runTask m u n = _
    rw [Nat.add_comm, count_add, Nat.add_comm (s1.handled u n)]
  · rw [of_decide_eq_true htaken, pends_of_sig hsig1]
    exact inSet_and hin
  · rw [pends_of_sig hsig1, ← decide_not]
    rw [hsame.2]
    exact inSet_and_not hn htop
  · exact (OsSigCB.Infos.delete ((h.task s.runTask).infos cb hcb)).congr rfl rfl
  · exact deleteSigInfo_sigWait.trans hnone
  · change Frames (((s1.setCB s.runTask _).returns s.runTask _ _).task s.runTask).stack
    rw [returns_setCB_self]
    exact hframes.of_cons.cons.cons

/-- The control block when signal `n` has come. -/
abbrev OsSigCB.raised (cb : OsSigCB) (n : Nat) : OsSigCB :=
  { cb with sigPendFlag := cb.sigPendFlag ||| signalMaskOf n }

/-- Signal `n` becomes pending, and is entered unless it was so already. -/
abbrev Signals.raised (s : Signals) (t n : Nat) (cb : OsSigCB) : Signals :=
  (if cb.pending n = true then s else { s with accepted := count s.accepted t n }).setCB t (cb.raised n)

/-- What is pending stays so when another signal comes. -/
theorem pending_or {m : Nat} (hm : cb.pending m = true) : (cb.raised n).pending m = true := by
  unfold pending at hm ⊢
  rw [inSet_eq] at hm
  rw [inSet_eq, BitVec.getLsbD_or, hm, Bool.true_or]

theorem raised_task (u : Nat) : (s.raised t n cb).task u =
    if u = t then { s.task t with sig := some (cb.raised n) } else s.task u := by
  unfold Signals.raised
  by_cases hu : u = t
  · rw [if_pos hu, hu]
    split <;> exact setTask_self
  · rw [if_neg hu]
    split <;> exact setTask_of_ne hu

theorem Kept.accept (h : Kept s) (hcb : (s.task t).sig = some cb) (hn : signalValid n = true) :
    Kept (s.raised t n cb) := by
  have hle : n ≤ 32 := Nat.le_succ_of_le (le_of_signalValid hn)
  refine h.of_update (t := t) (fun u hu => ?_) ?_ ?_ (fun u hu m => ?_) ?_ fun m hm => ?_
  · rw [raised_task, if_neg hu]
  · unfold Signals.raised
    split <;> rfl
  · unfold Signals.raised
    split <;> rfl
  · unfold Signals.raised
    split
    · exact ⟨rfl, rfl⟩
    refine ⟨?_, rfl⟩
    change count s.accepted t n u m = s.accepted u m
    unfold count
    rw [if_neg fun hc => hu hc.1]
  · rw [raised_task, if_pos rfl]
    refine ⟨fun cb' hcb' => ?_, fun hc => ?_, fun hc => ?_, fun cb' hcb' hc => ?_⟩
    · cases hcb'
      exact ((h.task t).infos cb hcb).congr rfl rfl
    · exact (h.task t).idle ((waits_of_sig hcb).trans hc)
    · exact (h.task t).top ((waits_of_sig hcb).trans hc)
    · cases hcb'
      exact ((h.task t).wait cb hcb hc).imp_right (.imp_left (.imp_right pending_or))
  rw [pends_of_sig setCB_sig]
  have hbalance := h.balance t m hm
  rw [pends_of_sig hcb] at hbalance
  have hor : (cb.raised n).pending m = (cb.pending m || decide (m = n)) := inSet_or hm hle
  rw [hor]
  unfold Signals.raised
  split
  · rename_i hpend
    change s.accepted t m = s.consumed t m + s.handled t m + _
    rw [hbalance]
    by_cases heq : m = n
    · rw [heq, hpend]
      rfl
    · rw [decide_eq_false heq, Bool.or_false]
  rename_i hpend
  change count s.accepted t n t m = s.consumed t m + s.handled t m + _
  unfold count
  by_cases heq : m = n
  · rw [hbalance, heq, Bool.not_eq_true _ |>.mp hpend]
    simp
  · rw [if_neg fun hc => heq hc.2, hbalance, decide_eq_false heq, Bool.or_false]

theorem taskWake_of_ne (hu : u ≠ t) : (s.taskWake t).task u = s.task u := by
  unfold Signals.taskWake
  dsimp only
  split
  · rw [taskEnQueue_of_ne hu, setTask_of_ne hu]
  · exact setTask_of_ne hu

/-- A task is woken, which is not in `g_waitSignalList` or has a sure `sigInfo`. -/
theorem Kept.taskWake (h : Kept s) {ended : Nat → Bool} {badWake : Bool}
    (hend : ∀ cb ∈ (s.task t).sig, cb.sigWait = true → (s.task t).Blocked → (s.task t).timeout = true ∨ cb.Sure) :
    Kept ({ s with ended := ended, badWake := badWake }.taskWake t) := by
  unfold Signals.taskWake
  dsimp only
  split
  · exact Kept.taskEnQueue (h.moveOne rfl id fun cb hcb hw hblock => (hend cb hcb hw hblock).imp id .inl)
      (congrArg pend setTask_self)
  · exact h.moveOne rfl id fun cb hcb hw hblock => (hend cb hcb hw hblock).imp id .inl

/-- The information of a pending signal makes `sigInfo` sure. -/
theorem OsSigCB.sure_delete (hpend : cb.pending n = true) (hsure : n ∈ cb.sigInfoList ∨ cb.Sure) :
    (cb.deleteSigInfo n).Sure := by
  unfold deleteSigInfo
  split
  · exact .inr hpend
  · rename_i hmem
    exact hsure.resolve_left hmem

theorem Kept.signalSend2 (h : Kept s) {target sigNo : Nat}
    (hstack : (s.task s.runTask).stack = .send target sigNo :: stack)
    (hok : target ≠ s.runTask → s.FindsInfo target sigNo) : Kept (s.signalSend2 target sigNo stack) := by
  obtain ⟨hwaits, hcons⟩ := h.popped hstack
  have hframes : Frames stack := hcons.of_cons
  have hvalid : signalValid sigNo = true := hcons.send target sigNo List.mem_cons_self
  unfold Signals.signalSend2
  dsimp only
  split
  · exact h.returns hwaits hframes
  rename_i cb hcb
  have h2 := h.accept hcb hvalid
  have hrun := @raised_task s target sigNo cb
  unfold Signals.raised OsSigCB.raised at h2 hrun
  generalize (if cb.pending sigNo = true then s else
      { s with accepted := count s.accepted target sigNo }).setCB target
      { cb with sigPendFlag := cb.sigPendFlag ||| signalMaskOf sigNo } = s2 at h2 hrun ⊢
  have htarget := (hrun target).trans (if_pos rfl)
  have hwaits2 : (s2.task s.runTask).waits = false := by
    rw [hrun]
    split
    · rename_i heq
      rw [heq] at hwaits
      exact (waits_of_sig hcb).symm.trans hwaits
    · exact hwaits
  split
  · refine Kept.returns (h2.quiet rfl) ?_ ?_
    · rwa [setTask_self]
    · exact hframes.cons
  rename_i hne
  split
  · rename_i hw
    split
    · rename_i hin
      have hfinds := hok hne cb hcb hw hin
      have hpend : (cb.raised sigNo).pending sigNo = true := by
        refine (inSet_or hvalid (Nat.le_succ_of_le (le_of_signalValid hvalid))).trans ?_
        rw [decide_eq_true rfl, Bool.or_true]
      have hsure : cb.Sure → (cb.raised sigNo).Sure := fun hsure => hsure.imp id pending_or
      unfold OsSigCB.raised at hpend hsure
      generalize hcb2 : { cb with sigPendFlag := cb.sigPendFlag ||| signalMaskOf sigNo } = cb2
        at htarget hpend hsure ⊢
      have hsig2 : (s2.task target).sig = some cb2 := by rw [htarget]
      have h3 : Kept (s2.setCB target (cb2.deleteSigInfo sigNo)) := by
        refine h2.setCB (fun n _ => ?_) (OsSigCB.Infos.delete ((h2.task target).infos _ hsig2)) ?_
          fun old hold _ hs => sure_delete hpend (.inr ?_)
        · rw [deleteSigInfo_pending, pends_of_sig hsig2]
        · rw [deleteSigInfo_sigWait, waits_of_sig hsig2]
        · rwa [some.inj (hsig2.symm.trans hold)]
      have hwaits3 : ((s2.setCB target (cb2.deleteSigInfo sigNo)).task s.runTask).waits = false := by
        unfold Signals.setCB
        rwa [setTask_of_ne fun hc => hne hc.symm]
      refine Kept.returns (Kept.quiet (h3.taskWake fun cb3 hcb3 _ _ => ?_) rfl) ?_ hframes
      · cases setCB_sig.symm.trans hcb3
        rcases hfinds with hmem | hinfo | hs | htimeout
        · refine .inr (sure_delete hpend (.inl ?_))
          rwa [← hcb2]
        · refine .inr (sure_delete hpend (.inr (.inr ?_)))
          have hinfo2 : cb2.sigInfo = sigNo := by
            rwa [← hcb2]
          rwa [hinfo2]
        · exact .inr (sure_delete hpend (.inr (hsure hs)))
        · refine .inl ?_
          unfold Signals.setCB
          rwa [setTask_self, htarget]
      · rwa [setTask_of_ne fun hc => hne hc.symm, taskWake_of_ne fun hc => hne hc.symm]
    · exact h2.returns hwaits2 hframes
  rename_i hw
  split
  · -- `ArchSignalContextInit` puts `SignalEntry` on the stack of the target.
    have hidle : (s2.task target).waits = false := by
      rw [htarget]
      exact Bool.not_eq_true _ |>.mp hw
    refine Kept.returns (h2.restack rfl hidle ?_) ?_ hframes
    · exact ((h2.task target).idle hidle).cons.cons
    · rwa [setTask_of_ne fun hc => hne hc.symm]
  · exact h2.returns hwaits2 hframes

theorem Kept.runSection (h : Kept s) (hgo : s.goesOn = true) (hok : s.Lossless .run)
    (hrun : s.runSection = some s') : Kept s' := by
  unfold Signals.runSection at hrun
  dsimp only at hrun
  split at hrun
  · rename_i target sigNo stack hstack
    cases hrun
    have hnext : s.nextSend = some (target, sigNo) := by
      unfold Signals.nextSend
      rw [hstack]
    exact h.signalSend2 hstack (hok.1 _ hnext)
  · rename_i stack hstack
    cases hrun
    have hwaits : (s.task s.runTask).waits = true := by
      cases hwaits : (s.task s.runTask).waits with
      | true => rfl
      | false =>
        have hframes := (h.task s.runTask).idle hwaits
        rw [hstack] at hframes
        exact absurd List.mem_cons_self hframes.waiting
    exact h.signalWaited hgo hstack hwaits
  · rename_i cleanStatus again stack hstack
    cases hrun
    exact h.signalHandle hstack hok
  · rename_i sigNo stack hstack
    cases hrun
    obtain ⟨hwaits, hframes⟩ := h.popped hstack
    exact h.returns hwaits hframes.of_cons
  · rename_i stack hstack
    cases hrun
    obtain ⟨hwaits, hframes⟩ := h.popped hstack
    refine Kept.returns (h.quiet rfl) ?_ hframes.of_cons
    rwa [setTask_self]
  · rename_i stack hstack
    cases hrun
    obtain ⟨hwaits, hframes⟩ := h.popped hstack
    refine Kept.returns (h.restack rfl hwaits ((h.task s.runTask).idle hwaits)) ?_ hframes.of_cons
    rwa [setTask_self]
  · cases hrun

/-! ## The scheduler -/

/-- The task that ran keeps what it waits for. -/
theorem putRunTask_same : (s.putRunTask.task u).sig = (s.task u).sig ∧
    (s.putRunTask.task u).stack = (s.task u).stack ∧ (s.putRunTask.task u).timeout = (s.task u).timeout ∧
    ((s.task u).Blocked → (s.putRunTask.task u).Blocked) := by
  by_cases hu : u = s.runTask
  · subst hu
    unfold Signals.putRunTask
    simp only [setTask_self]
    split
    · rw [setTask_self]
      exact ⟨rfl, rfl, rfl, id⟩
    rename_i hfree
    rw [taskEnQueue_self, setTask_self]
    refine ⟨rfl, rfl, rfl, fun hblock => ?_⟩
    rw [hblock.1] at hfree
    exact absurd rfl hfree
  · rw [putRunTask_of_ne hu]
    exact ⟨rfl, rfl, rfl, id⟩

theorem Kept.switch (h : Kept s) (hsched : Roused False s) (hlock : s.losTaskLock = 0)
    (hready : (s.task t).ready = true) : Kept (s.switch t) := by
  have ht := hsched.ne_runTask hready
  have hfields : (s.switch t).accepted = s.accepted ∧ (s.switch t).consumed = s.consumed ∧
      (s.switch t).handled = s.handled ∧ (s.switch t).losTaskLock = s.losTaskLock := by
    rw [switch_eq ht hready]
    unfold Signals.putRunTask
    simp only [setTask_self]
    split <;> exact ⟨rfl, rfl, rfl, rfl⟩
  obtain ⟨haccepted, hconsumed, hhandled, hlocked⟩ := hfields
  refine h.move ⟨haccepted, hconsumed, hhandled⟩ (fun u => ?_) fun u cb _ _ hblock _ =>
    .inr (.inr ⟨?_, fun _ => hlocked.trans hlock⟩)
  · by_cases hu : u = t
    · rw [hu, switch_self ht hready]
      exact ⟨rfl, rfl, id⟩
    · obtain ⟨hsig, hstack, htimeout, -⟩ := putRunTask_same
      rw [switch_of_ne ht hready hu]
      exact ⟨hsig, hstack, fun hc => htimeout.trans hc⟩
  have hu : u ≠ t := by
    rintro rfl
    have hpend := hblock.1
    simp [((hsched.task u).ready hready).1] at hpend
  rw [switch_of_ne ht hready hu]
  exact putRunTask_same.2.2.2 hblock

/-- A timeout. -/
theorem Kept.wakePendTimeTask (h : Kept s) : Kept (s.wakePendTimeTask t) := by
  unfold Signals.wakePendTimeTask
  dsimp only
  split
  · exact Kept.taskEnQueue (h.moveOne rfl (fun _ => rfl) fun _ _ _ _ => .inl rfl) (congrArg pend setTask_self)
  · exact h.moveOne rfl (fun _ => rfl) fun _ _ _ _ => .inl rfl

theorem Kept.suspend (h : Kept s) (hsched : Roused False s) :
    Kept ((s.taskDeQueue t).setTask t fun c => { c with suspend := true }) := by
  unfold Signals.taskDeQueue
  split
  · rename_i hready
    refine Kept.quiet (h.moveOne rfl id fun cb hcb hw hblock => ?_) rfl
    have hpend := hblock.1
    simp [((hsched.task t).ready hready).1] at hpend
  · exact h.quiet rfl

theorem Kept.resume (h : Kept s) : Kept (let s := s.setTask t fun c => { c with suspend := false }
    if (s.task t).pend then s else s.taskEnQueue t) := by
  dsimp only
  split
  · exact h.quiet rfl
  rename_i hpend
  exact Kept.taskEnQueue (h.quiet rfl) (Bool.not_eq_true _ |>.mp hpend)

/-- **One step.** -/
theorem Kept.step (h : Kept s) (hsched : Roused False s) {l : SigLabel} (hok : s.Lossless l)
    (hstep : s.step l = some s') : Kept s' := by
  cases l with
  | set sigNo handler alloc =>
    obtain ⟨⟨-, hcall⟩, rfl⟩ := guarded_inj hstep
    exact h.signalSet hcall
  | mask how set alloc =>
    obtain ⟨⟨-, hcall⟩, rfl⟩ := guarded_inj hstep
    exact h.signalMask hcall
  | send target sigNo alloc allocInfo =>
    obtain ⟨⟨-, hcall⟩, rfl⟩ := guarded_inj hstep
    exact h.signalSend hcall
  | wait set timeout alloc =>
    obtain ⟨⟨-, hcall⟩, rfl⟩ := guarded_inj hstep
    exact h.signalWait hcall hok
  | run =>
    obtain ⟨hgo, hstep⟩ := ite_none_right_eq_some.mp hstep
    exact h.runSection hgo hok hstep
  | switch t =>
    obtain ⟨⟨hlock, hready⟩, rfl⟩ := guarded_inj hstep
    exact h.switch hsched hlock hready
  | expire t =>
    obtain ⟨-, rfl⟩ := guarded_inj hstep
    exact h.wakePendTimeTask
  | suspend t =>
    obtain ⟨-, rfl⟩ := guarded_inj hstep
    exact h.suspend hsched
  | resume t =>
    obtain ⟨-, rfl⟩ := guarded_inj hstep
    exact h.resume
  | block forever =>
    obtain ⟨⟨-, hcall, -⟩, rfl⟩ := guarded_inj hstep
    have hwaits := h.not_waits_of_mayCall hcall
    refine Kept.returns (h.restack rfl hwaits ((h.task s.runTask).idle hwaits)) ?_
      ((h.task s.runTask).idle hwaits).cons
    rwa [setTask_self]
  | wake t =>
    obtain ⟨⟨-, -, hlist⟩, rfl⟩ := guarded_inj hstep
    refine h.taskWake fun cb _ _ hblock => ?_
    simp [hblock.2] at hlist
  | lock =>
    obtain ⟨⟨hgo, -⟩, rfl⟩ := guarded_inj hstep
    refine h.move ⟨rfl, rfl, rfl⟩ (fun _ => ⟨rfl, rfl, id⟩) fun t cb hcb hw hblock hheld =>
      .inr (.inr ⟨hblock, fun ht => ?_⟩)
    -- A task that is blocked does not lock the scheduler.
    have hpend := pend_of_goesOn hgo (hheld ht)
    simp [← (show t = s.runTask from ht), hblock.1] at hpend
  | unlock =>
    obtain ⟨⟨-, -, hlock⟩, rfl⟩ := guarded_inj hstep
    refine h.move ⟨rfl, rfl, rfl⟩ (fun _ => ⟨rfl, rfl, id⟩) fun t cb hcb hw hblock hheld =>
      .inr (.inr ⟨hblock, fun ht => ?_⟩)
    exact absurd (hheld ht) hlock

theorem Kept.init : Kept .init := by
  refine ⟨fun t => ⟨fun cb hcb => ?_, fun _ => ⟨List.not_mem_nil, fun _ _ hmem => absurd hmem List.not_mem_nil⟩,
    fun hc => ?_, fun cb hcb => ?_⟩, fun t n _ => rfl⟩
  · cases hcb
  · cases hc
  · cases hcb

end

/-! ## Whole runs -/

/-- In every run whose steps drop no signal, the books of every task and signal balance. -/
theorem signals_balance {ls : List SigLabel} {s : Signals} (hok : Guarded Signals.step Signals.Lossless .init ls)
    (hrun : exec Signals.step .init ls = some s) (t n : Nat) (hn : signalValid n = true) :
    s.accepted t n = s.consumed t n + s.handled t n + ((s.task t).pends n).toNat := by
  have h : Kept s ∧ Roused False s :=
    @exec_inv_guarded _ _ Signals.step (fun s => Kept s ∧ Roused False s) Signals.Lossless
      (fun _ _ _ h hok hstep => ⟨h.1.step h.2 hok hstep, h.2.step False.elim hstep⟩) _ _ _
      ⟨Kept.init, Roused.init⟩ hok hrun
  exact h.1.balance t n hn

/-- Task 1 waits for the signal 5. Meanwhile the signals 3 and 4 become pending for it. -/
def threeSignals : List SigLabel :=
  [.switch 1, .set 3 (.fn 7) true, .set 4 (.fn 8) true, .set 5 (.fn 9) true, .wait (some 16) 10 true, .switch 2,
    .send 1 3 true true, .run, .send 1 4 true true, .run, .send 1 5 true true, .run, .switch 1, .run]

/-- The signal 4 is returned by a second wait, and the signal 3 stays pending. -/
theorem signals_balance_threeSignals :
    ∃ s, exec Signals.step .init (threeSignals ++ [.wait (some 8) 10 true]) = some s ∧
      (s.task 1).ret = .signal 4 ∧ (s.task 1).pends 3 = true ∧
      s.accepted 1 3 = s.consumed 1 3 + s.handled 1 3 + ((s.task 1).pends 3).toNat := by
  obtain ⟨s, hs, hret, hpends⟩ : ∃ s, exec Signals.step .init (threeSignals ++ [.wait (some 8) 10 true]) = some s ∧
      (s.task 1).ret = .signal 4 ∧ (s.task 1).pends 3 = true := by decide +kernel
  exact ⟨s, hs, hret, hpends, signals_balance (by decide +kernel) hs 1 3 (by decide)⟩

/-- A wait for the signals 3 and 4 returns 4, and 3 is not pending any more. A signal that is enabled again after
`SIG_IGN` is dropped. A wait while the scheduler is locked returns a signal once more, and so does one that is woken
between the two sections of a send by another send. -/
theorem signals_lost :
    (exec Signals.step .init (threeSignals ++ [.wait (some 12) 10 true])).any (fun s =>
      decide ((s.task 1).ret = .signal 4 ∧ s.accepted 1 3 = 1 ∧ s.consumed 1 3 = 0 ∧ s.handled 1 3 = 0 ∧
        (s.task 1).pends 3 = false)) = true ∧
    (exec Signals.step .init [.set 3 .ign true, .mask .unblock (some 4) true, .send 0 3 true true, .run, .run]).any
      (fun s => decide (s.accepted 0 3 = 1 ∧ s.consumed 0 3 = 0 ∧ s.handled 0 3 = 0 ∧
        (s.task 0).pends 3 = false)) = true ∧
    (exec Signals.step .init (threeSignals ++ [.lock, .wait (some 1) 10 true, .run])).any (fun s =>
      decide ((s.task 1).ret = .signal 5 ∧ s.accepted 1 5 = 1 ∧ s.consumed 1 5 = 2)) = true ∧
    (exec Signals.step .init [.switch 1, .set 3 (.fn 7) true, .set 4 (.fn 8) true, .wait (some 4) 10 true,
      .switch 2, .send 1 3 true true, .switch 3, .send 1 3 true true, .run, .switch 1, .run, .wait (some 8) 10 true,
      .switch 3, .send 1 4 true true, .run, .switch 1, .run, .wait (some 4) 10 true, .switch 2, .run, .switch 1,
      .run]).any (fun s =>
      decide ((s.task 1).ret = .signal 4 ∧ s.accepted 1 4 = 1 ∧ s.consumed 1 4 = 2)) = true := by
  decide +kernel

end LiteosM.Components
