import LiteosM.Lib.Chain
import LiteosM.Lib.Count
import LiteosM.Lib.Run

/-!
# The exception hooks

Model of `los_exchook.c`. The nodes of `g_excNodes` are linked in one list for each exception type, the last
hook first, and in a free list that the first registration builds. A node is its address, `&g_excNodes[i]`
being `i + 1`, and 0 is `NULL`; a hook function is its address, too.

`Hooks` says what the registry holds after a run: the hooks of each type in the order of their registration.

* `Registry.unRegExcHook_spec`: `LOS_UnRegExcHook` takes the last registration of a function away and no
  other. The loop puts the node it has found into the free list and goes on from there.
* **`hooks_registered`**: in every run each node is in one list and the registry holds what `Hooks` says.
  All registrations of a function are taken away exactly when there is at most one.

The calls lock interrupts for all they do to the lists, so each is one step. Out of scope: what a hook does
when it is called.
-/

namespace LiteosM.Components

open LiteosM.Lib Function List Option

/-- `EXC_TYPE_END`, the index of the free list in `g_excHeads`. -/
def excTypeEnd : Nat := 5

/-- `LOSCFG_BASE_EXC_HOOK_LIMIT`. -/
def excHookLimit : Nat := 16

/-- The variables of `los_exchook.c`, and whether `g_excHook` of `los_debug.c` is set. -/
structure Registry where
  excHookFn : Nat → Nat
  next : Nat → Nat
  excHeads : Nat → Nat
  excHook : Bool

/-- What the calls answer. -/
inductive HookRet where
  | ok
  | sysPtrNull
  | sysHookIsFull
  deriving DecidableEq, Repr

namespace Registry

/-- The variables at start. -/
def zero : Registry := ⟨fun _ => 0, fun _ => 0, fun _ => 0, false⟩

variable (r : Registry)

/-- A node is put in front of a list. -/
@[simp] def push (t node : Nat) : Registry :=
  { r with
    next := update r.next node (r.excHeads t)
    excHeads := update r.excHeads t node }

/-- The free list is built, and `OsExcHookRegister` called. -/
def initFreeList : Registry :=
  { (range excHookLimit).foldl (fun r i => r.push excTypeEnd (i + 1)) r with excHook := true }

/-- `GetFreeNode`. -/
def getFreeNode : Registry × Nat :=
  if r.excHeads excTypeEnd = 0 ∧ r.excHookFn 1 ≠ 0 then (r, 0)
  else
    let r := if r.excHeads excTypeEnd = 0 then r.initFreeList else r
    let node := r.excHeads excTypeEnd
    ({ r with excHeads := update r.excHeads excTypeEnd (r.next node) }, node)

/-- `LOS_RegExcHook`. -/
def regExcHook (excType excHookFn : Nat) : Registry × HookRet :=
  if excType ≥ excTypeEnd ∨ excHookFn = 0 then (r, .sysPtrNull)
  else
    let (r, node) := r.getFreeNode
    if node = 0 then (r, .sysHookIsFull)
    else
      (({ r with excHookFn := update r.excHookFn node excHookFn } : Registry).push excType node, .ok)

/-- A node of the list of `excType` that comes behind `preNode` is put into the free list. -/
@[simp] def unlink (excType preNode node : Nat) : Registry :=
  let r :=
    if preNode ≠ 0 then { r with next := update r.next preNode (r.next node) }
    else { r with excHeads := update r.excHeads excType (r.next node) }
  ({ r with excHookFn := update r.excHookFn node 0 } : Registry).push excTypeEnd node

/-- The loop of `LOS_UnRegExcHook`; `none` when it does not end within `fuel` rounds. -/
def unRegLoop (excType excHookFn : Nat) : Nat → Registry → Nat → Nat → Option Registry
  | 0, _, _, _ => none
  | fuel + 1, r, preNode, node =>
    if node = 0 then some r
    else
      let r := if r.excHookFn node = excHookFn then r.unlink excType preNode node else r
      unRegLoop excType excHookFn fuel r node (r.next node)

/-- `LOS_UnRegExcHook`. -/
def unRegExcHook (excType excHookFn : Nat) : Option (Registry × HookRet) :=
  if excType ≥ excTypeEnd ∨ excHookFn = 0 then some (r, .sysPtrNull)
  else (unRegLoop excType excHookFn (excHookLimit + 1) r 0 (r.excHeads excType)).map (·, .ok)

/-- `DoExcHookInRegOrder`: the functions it calls; `none` for a call through a null pointer, and when
the recursion does not end within `fuel` calls. -/
def doExcHookInRegOrder : Nat → Nat → Option (List Nat)
  | 0, _ => none
  | fuel + 1, node =>
    if node = 0 then some []
    else do
      let calls ← doExcHookInRegOrder fuel (r.next node)
      if r.excHookFn node = 0 then none else some (calls ++ [r.excHookFn node])

/-- `DoExcHook`. -/
def doExcHook (excType : Nat) : Option (List Nat) :=
  if excType ≥ excTypeEnd then some []
  else r.doExcHookInRegOrder (excHookLimit + 1) (r.excHeads excType)

/-- `OsDoExcHook`. -/
def osDoExcHook (excType : Nat) : Option (List Nat) :=
  if r.excHook then r.doExcHook excType else some []

/-- The registry with the free list that the first registration will find. -/
def ready : Registry :=
  if r.excHeads excTypeEnd = 0 ∧ r.excHookFn 1 = 0 then r.initFreeList else r

end Registry

/-- A call of the registry; a hook is its address. -/
inductive HookOp where
  | reg (excType excHookFn : Nat)
  | unReg (excType excHookFn : Nat)
  deriving DecidableEq, Repr

/-- A call; `none` when it does not come back. -/
def Registry.step (r : Registry) : HookOp → Option Registry
  | .reg t f => some (r.regExcHook t f).1
  | .unReg t f => (r.unRegExcHook t f).map Prod.fst

/-! ## What the registry holds -/

/-- The hooks of each exception type, in the order of their registration. -/
abbrev Hooks := Nat → List Nat

namespace Hooks

/-- No hook is registered. -/
def empty : Hooks := fun _ => []

/-- How many hooks are registered, over all types. -/
def total (h : Hooks) : Nat := ∑ t ∈ Finset.range excTypeEnd, (h t).length

/-- The last registration of `f` is taken away. -/
def eraseLast (f : Nat) (l : List Nat) : List Nat := (l.reverse.erase f).reverse

/-- A call, on the lists. -/
def step (h : Hooks) : HookOp → Hooks
  | .reg t f => if t < excTypeEnd ∧ f ≠ 0 ∧ h.total < excHookLimit then update h t (h t ++ [f]) else h
  | .unReg t f => if t < excTypeEnd ∧ f ≠ 0 then update h t (eraseLast f (h t)) else h

/-- The lists after some calls. -/
def run : List HookOp → Hooks := foldl step empty

end Hooks

theorem Hooks.total_update (h : Hooks) {t : Nat} (ht : t < excTypeEnd) (l : List Nat) :
    total (update h t l) + (h t).length = h.total + l.length :=
  sum_update h length ht l

/-! ## The lists -/

/-- The address of one of the nodes of `g_excNodes`. -/
def IsNode (a : Nat) : Prop := 0 < a ∧ a ≤ excHookLimit

/-- Each node is in exactly one of the lists, once. -/
structure Parts (L : Nat → List Nat) : Prop where
  mem : ∀ a, IsNode a ↔ ∃ t ≤ excTypeEnd, a ∈ L t
  once : ∀ t ≤ excTypeEnd, ∀ t' ≤ excTypeEnd, ∀ a ∈ L t, a ∈ L t' → t = t'
  nodup : ∀ t ≤ excTypeEnd, (L t).Nodup

section
variable {L : Nat → List Nat} {s t a : Nat} {pre post : List Nat}

/-- The lists when the node `a` goes from the list `s` to the front of the list `t`. -/
def moveNode (L : Nat → List Nat) (s t a : Nat) (rest : List Nat) : Nat → List Nat :=
  update (update L s rest) t (a :: L t)

theorem mem_moveNode (hL : L s = pre ++ a :: post) {b u : Nat} (hb : b ≠ a) :
    b ∈ moveNode L s t a (pre ++ post) u ↔ b ∈ L u := by
  unfold moveNode
  by_cases hut : u = t
  · rw [hut, update_self, mem_cons, or_iff_right hb]
  rw [update_of_ne hut]
  by_cases hus : u = s
  · rw [hus, hL]
    simp [hb]
  · rw [update_of_ne hus]

section
variable (h : Parts L) (hs : s ≤ excTypeEnd)
include h hs

theorem mem_moveNode_self (hL : L s = pre ++ a :: post) {u : Nat} (hu : u ≤ excTypeEnd) :
    a ∈ moveNode L s t a (pre ++ post) u ↔ u = t := by
  have ha : a ∈ L s := by
    rw [hL]
    simp
  have hnd := h.nodup s hs
  rw [hL, nodup_middle, nodup_cons] at hnd
  unfold moveNode
  by_cases hut : u = t
  · simp [hut]
  rw [update_of_ne hut]
  refine iff_of_false ?_ hut
  by_cases hus : u = s
  · rw [hus, update_self]
    exact hnd.1
  · rw [update_of_ne hus]
    exact fun hc => hus (h.once u hu s hs a hc ha)

theorem Parts.moveNode (ht : t ≤ excTypeEnd) (hst : s ≠ t)
    (hL : L s = pre ++ a :: post) : Parts (moveNode L s t a (pre ++ post)) := by
  have ha : a ∈ L s := by
    rw [hL]
    simp
  refine ⟨fun b => ?_, fun u hu u' hu' b hb hb' => ?_, fun u hu => ?_⟩
  · rw [h.mem]
    by_cases hba : b = a
    · subst hba
      refine iff_of_true ⟨s, hs, ha⟩ ⟨t, ht, (mem_moveNode_self h hs hL ht).mpr rfl⟩
    · exact exists_congr fun u => and_congr_right fun _ => (mem_moveNode hL hba).symm
  · by_cases hba : b = a
    · subst hba
      rw [(mem_moveNode_self h hs hL hu).mp hb, (mem_moveNode_self h hs hL hu').mp hb']
    · rw [mem_moveNode hL hba] at hb hb'
      exact h.once u hu u' hu' b hb hb'
  unfold LiteosM.Components.moveNode
  by_cases hut : u = t
  · rw [hut, update_self]
    exact nodup_cons.mpr ⟨fun hc => hst (h.once s hs t ht a ha hc), h.nodup t ht⟩
  rw [update_of_ne hut]
  by_cases hus : u = s
  · have hnd := h.nodup s hs
    rw [hL, nodup_middle, nodup_cons] at hnd
    rw [hus, update_self]
    exact hnd.2
  · rw [update_of_ne hus]
    exact h.nodup u hu

/-- Two lists have at most as many nodes as there are. -/
theorem Parts.length_le (ht : t ≤ excTypeEnd) (hst : s ≠ t) :
    (L s).length + (L t).length ≤ excHookLimit := by
  have hnd : (L s ++ L t).Nodup := by
    refine nodup_append'.mpr ⟨h.nodup s hs, h.nodup t ht, fun a ha ha' => ?_⟩
    exact hst (h.once s hs t ht a ha ha')
  have hsub : L s ++ L t ⊆ (range excHookLimit).map (· + 1) := by
    intro a ha
    have hnode : IsNode a := by
      rcases mem_append.mp ha with ha | ha
      · exact (h.mem a).mpr ⟨s, hs, ha⟩
      · exact (h.mem a).mpr ⟨t, ht, ha⟩
    obtain ⟨hpos, hle⟩ := hnode
    exact mem_map.mpr ⟨a - 1, mem_range.mpr (by omega), by omega⟩
  have := (hnd.subperm hsub).length_le
  rwa [length_append, length_map, length_range] at this

end

/-- The words of a registry in which the node `a` goes from the list `s` to the front of the list
`t`: only nodes of the list `s` are written. -/
theorem Parts.chain_moveNode (h : Parts L) {next heads next' heads' : Nat → Nat}
    (hch : ∀ u ≤ excTypeEnd, Chain next (heads u) (L u)) (hs : s ≤ excTypeEnd) (ht : t ≤ excTypeEnd)
    (hst : s ≠ t) (hL : L s = pre ++ a :: post) (hsrc : Chain next' (heads' s) (pre ++ post))
    (hhead : heads' t = a) (hnext : next' a = heads t)
    (hheads : ∀ u, u ≠ s → u ≠ t → heads' u = heads u) (hkeep : ∀ b ∉ L s, next' b = next b) :
    ∀ u ≤ excTypeEnd, Chain next' (heads' u) (LiteosM.Components.moveNode L s t a (pre ++ post) u) := by
  have ha : a ∈ L s := by
    rw [hL]
    simp
  have hrest : ∀ u ≤ excTypeEnd, u ≠ s → Chain next' (heads u) (L u) := fun u hu hus =>
    (hch u hu).congr fun b hb => hkeep b fun hbs => hus (h.once u hu s hs b hb hbs)
  intro u hu
  unfold LiteosM.Components.moveNode
  by_cases hut : u = t
  · subst hut
    rw [update_self, hhead]
    refine ⟨rfl, fun h0 => (hch s hs).zero_notMem (h0 ▸ ha), ?_⟩
    rw [hnext]
    exact hrest u hu fun hc => hst hc.symm
  rw [update_of_ne hut]
  by_cases hus : u = s
  · rwa [hus, update_self]
  · rw [update_of_ne hus, hheads u hus hut]
    exact hrest u hu hus

end

/-- The registry, once the free list is there, has its nodes in the lists `L` and holds the hooks
`h`. -/
structure Held (r : Registry) (L : Nat → List Nat) (h : Hooks) : Prop where
  chain : ∀ t ≤ excTypeEnd, Chain r.next (r.excHeads t) (L t)
  parts : Parts L
  used : ∀ t < excTypeEnd, ∀ a ∈ L t, r.excHookFn a ≠ 0
  free : ∀ a ∈ L excTypeEnd, r.excHookFn a = 0
  hooks : ∀ t < excTypeEnd, ((L t).map r.excHookFn).reverse = h t
  total : h.total + (L excTypeEnd).length = excHookLimit
  hooked : r.excHook = true

section
variable {r : Registry} {L : Nat → List Nat} {h : Hooks} {t f a : Nat} {l pre post : List Nat}

/-! ## Registration -/

theorem Held.getFreeNode_nil (hh : Held r L h) (hL : L excTypeEnd = []) : r.getFreeNode = (r, 0) := by
  have hhead : r.excHeads excTypeEnd = 0 := by
    have := hh.chain excTypeEnd le_rfl
    rwa [hL] at this
  obtain ⟨t, ht, hmem⟩ := (hh.parts.mem 1).mp ⟨by decide, by decide⟩
  have hne : t ≠ excTypeEnd := by
    rintro rfl
    simp [hL] at hmem
  exact if_pos ⟨hhead, hh.used t (lt_of_le_of_ne ht hne) 1 hmem⟩

theorem Held.getFreeNode_cons (hh : Held r L h) (hL : L excTypeEnd = a :: l) :
    r.getFreeNode = ({ r with excHeads := update r.excHeads excTypeEnd (r.next a) }, a) ∧ a ≠ 0 := by
  have hch := hh.chain excTypeEnd le_rfl
  rw [hL] at hch
  obtain ⟨hhead, h0, -⟩ := hch
  have hne : r.excHeads excTypeEnd ≠ 0 := by rwa [hhead]
  refine ⟨?_, h0⟩
  unfold Registry.getFreeNode
  rw [if_neg fun hc => hne hc.1, if_neg hne]
  simp only [hhead]

theorem Held.regExcHook_full (hh : Held r L h) (ht : t < excTypeEnd) (hf : f ≠ 0)
    (hL : L excTypeEnd = []) : r.regExcHook t f = (r, .sysHookIsFull) := by
  unfold Registry.regExcHook
  rw [if_neg (by omega), hh.getFreeNode_nil hL]
  rfl

theorem Held.regExcHook_ok (hh : Held r L h) (ht : t < excTypeEnd) (hf : f ≠ 0)
    (hL : L excTypeEnd = a :: l) : (r.regExcHook t f).2 = .ok ∧
      Held (r.regExcHook t f).1 (moveNode L excTypeEnd t a l) (update h t (h t ++ [f])) := by
  obtain ⟨hget, h0⟩ := hh.getFreeNode_cons hL
  have hte : excTypeEnd ≠ t := ht.ne'
  have hch := hh.chain excTypeEnd le_rfl
  have hnd := hh.parts.nodup excTypeEnd le_rfl
  rw [hL] at hch hnd
  have hal : a ∉ l := (nodup_cons.mp hnd).1
  have hout : ∀ u < excTypeEnd, a ∉ L u := fun u hu hau =>
    hu.ne (hh.parts.once u hu.le excTypeEnd le_rfl a hau (hL ▸ mem_cons_self))
  unfold Registry.regExcHook
  rw [if_neg (by omega), hget]
  dsimp only
  rw [if_neg h0]
  refine ⟨rfl, ?_⟩
  have hL' : L excTypeEnd = [] ++ a :: l := hL
  refine ⟨?_, hh.parts.moveNode le_rfl ht.le hte hL', fun u hu b hb => ?_, fun b hb => ?_,
    fun u hu => ?_, ?_, hh.hooked⟩
  · refine hh.parts.chain_moveNode hh.chain le_rfl ht.le hte hL' ?_ ?_ ?_ ?_ ?_
    · simp only [Registry.push, update_of_ne hte]
      exact hch.2.2.write hal _
    · simp
    · simp [update_of_ne hte.symm]
    · intro u hus hut
      simp [update_of_ne hus, update_of_ne hut]
    intro b hb
    refine update_of_ne (fun hc => hb ?_) _ _
    rw [hc, hL]
    exact mem_cons_self
  · by_cases hba : b = a
    · simpa [hba] using hf
    · simpa [hba] using hh.used u hu b ((mem_moveNode hL' hba).mp hb)
  · by_cases hba : b = a
    · rw [hba] at hb
      exact absurd ((mem_moveNode_self hh.parts le_rfl hL' le_rfl).mp hb) hte
    · simpa [hba] using hh.free b ((mem_moveNode hL' hba).mp hb)
  · have hsame : (L u).map (update r.excHookFn a f) = (L u).map r.excHookFn :=
      map_congr_left fun b hb => update_of_ne (ne_of_mem_of_not_mem hb (hout u hu)) _ _
    by_cases hut : u = t
    · subst hut
      simp [moveNode, hsame, ← hh.hooks u hu]
    · simp [moveNode, hsame, ← hh.hooks u hu, hut, hu.ne]
  have hold := hh.total
  have hnew := h.total_update ht (h t ++ [f])
  rw [hL, length_cons] at hold
  rw [length_append, length_singleton] at hnew
  rw [moveNode, update_of_ne hte, update_self]
  omega

/-! ## Unregistration -/

/-- The loop passes the nodes of other functions. -/
theorem unRegLoop_skip {node p : Nat} (hch : Chain r.next node (pre ++ l))
    (hpre : ∀ b ∈ pre, r.excHookFn b ≠ f) (fuel : Nat) :
    ∃ node', Chain r.next node' l ∧ Registry.unRegLoop t f (pre.length + fuel) r p node =
      Registry.unRegLoop t f fuel r (pre.getLastD p) node' := by
  induction pre generalizing node p with
  | nil => exact ⟨node, hch, by simp⟩
  | cons b pre ih =>
    obtain ⟨rfl, h0, hl⟩ := hch
    obtain ⟨node', hch', heq⟩ := ih hl fun b hb => hpre b (mem_cons_of_mem _ hb)
    refine ⟨node', hch', ?_⟩
    rw [getLastD_cons, ← heq, length_cons, Nat.add_right_comm, Registry.unRegLoop, if_neg h0,
      if_neg (hpre node mem_cons_self)]

theorem unRegLoop_none {node p fuel : Nat} (hch : Chain r.next node l)
    (hl : ∀ b ∈ l, r.excHookFn b ≠ f) (hfuel : l.length < fuel) :
    Registry.unRegLoop t f fuel r p node = some r := by
  obtain ⟨k, rfl⟩ := Nat.exists_eq_add_of_lt hfuel
  have hch' : Chain r.next node (l ++ []) := by rwa [append_nil]
  obtain ⟨node', hnil, heq⟩ := unRegLoop_skip hch' hl (k + 1)
  obtain rfl : node' = 0 := hnil
  rw [Nat.add_assoc, heq, Registry.unRegLoop, if_pos rfl]

/-- The list of a type without the node that is unlinked. -/
theorem Held.chain_unlink (hh : Held r L h) (ht : t < excTypeEnd) (hL : L t = pre ++ a :: post) :
    Chain (r.unlink t (pre.getLastD 0) a).next ((r.unlink t (pre.getLastD 0) a).excHeads t) (pre ++ post) ∧
      (r.unlink t (pre.getLastD 0) a).next a = r.excHeads excTypeEnd ∧
      (r.unlink t (pre.getLastD 0) a).excHeads excTypeEnd = a ∧
      (∀ u, u ≠ t → u ≠ excTypeEnd → (r.unlink t (pre.getLastD 0) a).excHeads u = r.excHeads u) ∧
      ∀ b ∉ L t, (r.unlink t (pre.getLastD 0) a).next b = r.next b := by
  have hch := hh.chain t ht.le
  have hnd := hh.parts.nodup t ht.le
  have hte : excTypeEnd ≠ t := ht.ne'
  rw [hL] at hch hnd
  have hnotin := (nodup_cons.mp (nodup_middle.mp hnd)).1
  rcases eq_nil_or_concat pre with rfl | ⟨pre, p, rfl⟩
  · obtain ⟨-, h0, hpost⟩ := hch
    have hap : a ∉ post := hnotin
    refine ⟨?_, ?_, ?_, fun u hut hue => ?_, fun b hb => ?_⟩
    · simpa [hte.symm, hte] using hpost.write hap _
    · simp [hte]
    · simp
    · simp [hut, hue]
    have hba : b ≠ a := by
      rintro rfl
      exact hb (by rw [hL]; simp)
    simp [hba]
  rw [concat_eq_append, append_assoc] at hch hnd hL
  rw [concat_eq_append] at hnotin ⊢
  have hp0 : p ≠ 0 := fun h0 => hch.zero_notMem (by simp [h0])
  have hpa : p ≠ a := fun hc => hnotin (by simp [hc])
  have hpm : p ∉ pre ++ a :: post := (nodup_cons.mp (nodup_middle.mp hnd)).1
  have hnext : ∀ b, b ≠ p → b ≠ a → (r.unlink t ((pre ++ [p]).getLastD 0) a).next b = r.next b := by
    intro b hbp hba
    simp [hp0, hbp, hba]
  refine ⟨?_, ?_, ?_, fun u hut hue => ?_, fun b hb => hnext b ?_ ?_⟩
  · rw [append_assoc]
    have hhead : (r.unlink t ((pre ++ [p]).getLastD 0) a).excHeads t = r.excHeads t := by
      simp [hp0, hte.symm]
    rw [hhead]
    refine hch.unlink ?_ fun b hb => hnext b ?_ ?_
    · simp [hp0, hpa]
    · rintro rfl
      exact hpm (by simp at hb ⊢; tauto)
    · rintro rfl
      exact hnotin (by simp at hb ⊢; tauto)
  · simp [hp0]
  · simp
  · simp [hp0, hue]
  · rintro rfl
    exact hb (by rw [hL]; simp)
  · rintro rfl
    exact hb (by rw [hL]; simp)

theorem Registry.excHookFn_unlink (r : Registry) (t p a : Nat) :
    (r.unlink t p a).excHookFn = update r.excHookFn a 0 := by
  by_cases hp : p = 0 <;> simp [hp]

theorem Registry.excHook_unlink (r : Registry) (t p a : Nat) :
    (r.unlink t p a).excHook = r.excHook := by
  by_cases hp : p = 0 <;> simp [hp]

theorem Held.unlink (hh : Held r L h) (ht : t < excTypeEnd) (hL : L t = pre ++ a :: post)
    (hpre : ∀ b ∈ pre, r.excHookFn b ≠ r.excHookFn a) :
    Held (r.unlink t (pre.getLastD 0) a) (moveNode L t excTypeEnd a (pre ++ post))
      (update h t (Hooks.eraseLast (r.excHookFn a) (h t))) := by
  have hte : t ≠ excTypeEnd := ht.ne
  obtain ⟨hsrc, hnext, hhead, hheads, hkeep⟩ := hh.chain_unlink ht hL
  have ha : a ∈ L t := by
    rw [hL]
    simp
  have hnd := hh.parts.nodup t ht.le
  rw [hL] at hnd
  have hnotin := (nodup_cons.mp (nodup_middle.mp hnd)).1
  have hold : h t = ((pre ++ a :: post).map r.excHookFn).reverse := by rw [← hL, hh.hooks t ht]
  have hnew : Hooks.eraseLast (r.excHookFn a) (h t) = ((pre ++ post).map r.excHookFn).reverse := by
    have hmem : r.excHookFn a ∉ pre.map r.excHookFn := by
      rintro hc
      obtain ⟨b, hb, heq⟩ := mem_map.mp hc
      exact hpre b hb heq
    rw [hold, Hooks.eraseLast, reverse_reverse, map_append, map_cons,
      erase_append_right _ hmem, erase_cons_head, map_append]
  refine ⟨?_, hh.parts.moveNode ht.le le_rfl hte hL, fun u hu b hb => ?_, fun b hb => ?_,
    fun u hu => ?_, ?_, ?_⟩
  · exact hh.parts.chain_moveNode hh.chain ht.le le_rfl hte hL hsrc hhead hnext hheads hkeep
  · rw [Registry.excHookFn_unlink]
    by_cases hba : b = a
    · rw [hba] at hb
      exact absurd ((mem_moveNode_self hh.parts ht.le hL hu.le).mp hb) hu.ne
    · rw [update_of_ne hba]
      exact hh.used u hu b ((mem_moveNode hL hba).mp hb)
  · rw [Registry.excHookFn_unlink]
    by_cases hba : b = a
    · rw [hba, update_self]
    · rw [update_of_ne hba]
      exact hh.free b ((mem_moveNode hL hba).mp hb)
  · rw [Registry.excHookFn_unlink, moveNode, update_of_ne hu.ne]
    by_cases hut : u = t
    · rw [hut, update_self, update_self, hnew]
      congr 1
      exact map_congr_left fun b hb => update_of_ne (ne_of_mem_of_not_mem hb hnotin) _ _
    rw [update_of_ne hut, update_of_ne hut, ← hh.hooks u hu]
    congr 1
    refine map_congr_left fun b hb => update_of_ne (fun hc => hut ?_) _ _
    exact hh.parts.once u hu.le t ht.le b hb (hc ▸ ha)
  · have htotal := hh.total
    have hupd := h.total_update ht (Hooks.eraseLast (r.excHookFn a) (h t))
    rw [hnew] at hupd ⊢
    rw [hold] at hupd
    simp only [length_reverse, length_map, length_append, length_cons] at hupd
    rw [moveNode, update_self, length_cons]
    omega
  · rw [Registry.excHook_unlink]
    exact hh.hooked

/-- The last registration of the function is taken away, and no other. -/
theorem Registry.unRegExcHook_spec (hh : Held r L h) (ht : t < excTypeEnd) (hf : f ≠ 0) :
    ∃ r' L', r.unRegExcHook t f = some (r', .ok) ∧
      Held r' L' (update h t (Hooks.eraseLast f (h t))) := by
  have hlen := hh.parts.length_le ht.le le_rfl ht.ne
  unfold Registry.unRegExcHook
  rw [if_neg (by omega)]
  by_cases hmem : ∃ a ∈ L t, r.excHookFn a = f
  · -- the list is followed to the first node of the function, and from there the free list
    obtain ⟨pre, a, post, hL, rfl, hpre⟩ : ∃ pre a post, L t = pre ++ a :: post ∧ r.excHookFn a = f ∧
        ∀ b ∈ pre, r.excHookFn b ≠ f := by
      obtain ⟨a, pre, post, hpre, ha, hL, -⟩ :=
        exists_of_eraseP (p := fun a => decide (r.excHookFn a = f)) hmem.choose_spec.1
          (by simpa using hmem.choose_spec.2)
      exact ⟨pre, a, post, hL, by simpa using ha, fun b hb => by simpa using hpre b hb⟩
    have hch := hh.chain t ht.le
    rw [hL] at hch hlen
    rw [length_append, length_cons] at hlen
    obtain ⟨-, hnext, -, -, hkeep⟩ := hh.chain_unlink ht hL
    have hfree : Chain (r.unlink t (pre.getLastD 0) a).next (r.excHeads excTypeEnd) (L excTypeEnd) :=
      (hh.chain excTypeEnd le_rfl).congr fun b hb => hkeep b fun hbt =>
        ht.ne (hh.parts.once t ht.le excTypeEnd le_rfl b hbt hb)
    refine ⟨_, _, ?_, hh.unlink ht hL hpre⟩
    obtain ⟨k, hk⟩ : ∃ k, excHookLimit + 1 = pre.length + (k + 1) := ⟨excHookLimit - pre.length, by omega⟩
    obtain ⟨node, hnode, heq⟩ := unRegLoop_skip hch hpre (k + 1)
    obtain ⟨rfl, h0, -⟩ := hnode
    rw [hk, heq, Registry.unRegLoop, if_neg h0]
    dsimp only
    rw [if_pos rfl, hnext, unRegLoop_none hfree ?_ (by omega)]
    · rfl
    intro b hb
    rw [Registry.excHookFn_unlink]
    by_cases hba : b = node
    · rwa [hba, update_self, ne_comm]
    · rwa [update_of_ne hba, hh.free b hb, ne_comm]
  have hnone : ∀ b ∈ L t, r.excHookFn b ≠ f := fun b hb hc => hmem ⟨b, hb, hc⟩
  have hnot : f ∉ (h t).reverse := by
    rw [← hh.hooks t ht, reverse_reverse, List.mem_map]
    exact fun ⟨b, hb, hc⟩ => hnone b hb hc
  refine ⟨r, L, ?_, ?_⟩
  · rw [unRegLoop_none (hh.chain t ht.le) hnone (by omega)]
    rfl
  · rwa [Hooks.eraseLast, erase_of_not_mem hnot, reverse_reverse, update_eq_self]

/-! ## Calling the hooks -/

theorem Registry.doExcHookInRegOrder_eq {node fuel : Nat} (hch : Chain r.next node l)
    (hl : ∀ b ∈ l, r.excHookFn b ≠ 0) (hfuel : l.length < fuel) :
    r.doExcHookInRegOrder fuel node = some (l.map r.excHookFn).reverse := by
  induction l generalizing node fuel with
  | nil =>
    obtain rfl : node = 0 := hch
    cases fuel with
    | zero => simp at hfuel
    | succ fuel => rfl
  | cons b l ih =>
    obtain ⟨rfl, h0, hl'⟩ := hch
    cases fuel with
    | zero => simp at hfuel
    | succ fuel =>
      have hcalls := ih hl' (fun b hb => hl b (mem_cons_of_mem _ hb)) (Nat.lt_of_succ_lt_succ hfuel)
      rw [doExcHookInRegOrder, if_neg h0, hcalls]
      simp [hl node mem_cons_self]

theorem Held.doExcHook (hh : Held r L h) (ht : t < excTypeEnd) : r.doExcHook t = some (h t) := by
  have hlen := hh.parts.length_le ht.le le_rfl ht.ne
  rw [Registry.doExcHook, if_neg (by omega),
    Registry.doExcHookInRegOrder_eq (hh.chain t ht.le) (hh.used t ht) (by omega), hh.hooks t ht]

/-! ## Every run -/

/-- The registry holds the hooks `h`; before the first registration there is no free list yet. -/
def Knows (r : Registry) (h : Hooks) : Prop := (r = .zero ∧ h = Hooks.empty) ∨ ∃ L, Held r L h

theorem held_initFreeList : Held Registry.zero.initFreeList
      (fun t => if t = excTypeEnd then ((range excHookLimit).map (· + 1)).reverse else [])
      Hooks.empty := by
  have hmem : ∀ a, a ∈ ((range excHookLimit).map (· + 1)).reverse ↔ IsNode a := by
    intro a
    simp only [mem_reverse, List.mem_map, mem_range, IsNode]
    constructor
    · rintro ⟨b, hb, rfl⟩
      omega
    · rintro ⟨hpos, hle⟩
      exact ⟨a - 1, by omega, by omega⟩
  refine ⟨by decide, ⟨fun a => ?_, fun t _ t' _ a ha ha' => ?_, by decide⟩, fun t ht a ha => ?_,
    fun a _ => rfl, by decide, by decide, rfl⟩
  · rw [← hmem]
    refine ⟨fun ha => ⟨excTypeEnd, le_rfl, by rwa [if_pos rfl]⟩, ?_⟩
    rintro ⟨t, -, ha⟩
    split_ifs at ha
    · exact ha
    · cases ha
  · split_ifs at ha ha' with h1 h2
    · rw [h1, h2]
    all_goals simp at ha ha'
  · simp [if_neg ht.ne] at ha

theorem Held.ready_eq (hh : Held r L h) : r.ready = r := by
  rw [Registry.ready, if_neg]
  rintro ⟨hhead, hfn⟩
  have hch := hh.chain excTypeEnd le_rfl
  rw [hhead] at hch
  obtain ⟨t, ht, hmem⟩ := (hh.parts.mem 1).mp ⟨by decide, by decide⟩
  rcases Nat.lt_or_eq_of_le ht with hlt | rfl
  · exact hh.used t hlt 1 hmem hfn
  · simp [hch.nil_of_zero] at hmem

/-- What the calls do is the same once the free list is there. -/
theorem Knows.ready (hk : Knows r h) :
    ∃ L, Held r.ready L h ∧ (∀ t < excTypeEnd, r.doExcHook t = r.ready.doExcHook t) ∧
      ∀ t < excTypeEnd, ∀ f ≠ 0, r.regExcHook t f = r.ready.regExcHook t f ∧
        ∃ r', r.unRegExcHook t f = some (r', .ok) ∧
          Knows r' (update h t (Hooks.eraseLast f (h t))) := by
  rcases hk with ⟨rfl, rfl⟩ | ⟨L, hh⟩
  · refine ⟨_, held_initFreeList, fun t ht => ?_, fun t ht f hf => ⟨?_, .zero, ?_, .inl ⟨rfl, ?_⟩⟩⟩
    · have hready : Registry.zero.ready.doExcHook t = some [] := held_initFreeList.doExcHook ht
      rw [hready, Registry.doExcHook, if_neg (by omega)]
      rfl
    · unfold Registry.regExcHook
      rw [if_neg (by omega), if_neg (by omega)]
      rfl
    · rw [Registry.unRegExcHook, if_neg (by omega)]
      rfl
    · exact update_eq_self t Hooks.empty
  rw [hh.ready_eq]
  refine ⟨L, hh, fun t _ => rfl, fun t ht f hf => ⟨rfl, ?_⟩⟩
  obtain ⟨r', L', heq, hh'⟩ := Registry.unRegExcHook_spec hh ht hf
  exact ⟨r', heq, .inr ⟨L', hh'⟩⟩

/-- A registration fails when the free list is empty, and then changes nothing. -/
theorem Held.regExcHook (hh : Held r L h) (ht : t < excTypeEnd) (hf : f ≠ 0) :
    ((r.regExcHook t f).2 ≠ .ok ↔ L excTypeEnd = []) ∧
      Knows (r.regExcHook t f).1 (h.step (.reg t f)) := by
  have htotal := hh.total
  cases hL : L excTypeEnd with
  | nil =>
    rw [hL, length_nil] at htotal
    rw [hh.regExcHook_full ht hf hL, Hooks.step, if_neg (by omega)]
    exact ⟨by simp, .inr ⟨L, hh⟩⟩
  | cons a l =>
    obtain ⟨hok, hh'⟩ := hh.regExcHook_ok ht hf hL
    rw [hL, length_cons] at htotal
    rw [Hooks.step, if_pos ⟨ht, hf, by omega⟩, hok]
    exact ⟨by simp, .inr ⟨_, hh'⟩⟩

theorem Knows.chain (hk : Knows r h) (ht : t < excTypeEnd) :
    ∃ l, Chain r.next (r.excHeads t) l ∧ (l.map r.excHookFn).reverse = h t := by
  rcases hk with ⟨rfl, rfl⟩ | ⟨L, hh⟩
  · exact ⟨[], rfl, rfl⟩
  · exact ⟨L t, hh.chain t ht.le, hh.hooks t ht⟩

theorem Knows.step (hk : Knows r h) (op : HookOp) : ∃ r', r.step op = some r' ∧ Knows r' (h.step op) := by
  obtain ⟨L, hh, -, hcalls⟩ := hk.ready
  cases op with
  | reg t f =>
    refine ⟨_, rfl, ?_⟩
    by_cases hv : t < excTypeEnd ∧ f ≠ 0
    · rw [(hcalls t hv.1 f hv.2).1]
      exact (hh.regExcHook hv.1 hv.2).2
    · rwa [Registry.regExcHook, if_pos (by omega), Hooks.step, if_neg (by tauto)]
  | unReg t f =>
    by_cases hv : t < excTypeEnd ∧ f ≠ 0
    · obtain ⟨r', heq, hk'⟩ := (hcalls t hv.1 f hv.2).2
      refine ⟨r', by rw [Registry.step, heq]; rfl, ?_⟩
      rwa [Hooks.step, if_pos hv]
    refine ⟨r, ?_, ?_⟩
    · rw [Registry.step, Registry.unRegExcHook, if_pos (by omega)]
      rfl
    · rwa [Hooks.step, if_neg hv]

theorem Knows.exec (hk : Knows r h) (ops : List HookOp) :
    ∃ r', Lib.exec Registry.step r ops = some r' ∧ Knows r' (ops.foldl Hooks.step h) := by
  induction ops generalizing r h with
  | nil => exact ⟨r, rfl, hk⟩
  | cons op ops ih =>
    obtain ⟨r1, hstep, hk1⟩ := hk.step op
    obtain ⟨r', hexec, hk'⟩ := ih hk1
    exact ⟨r', exec_cons.mpr ⟨r1, hstep, hexec⟩, hk'⟩

/-- The exception entry finds no hook where none has been registered, also before the registry has
set `g_excHook`. -/
theorem Knows.osDoExcHook (hk : Knows r h) (ht : t < excTypeEnd) : r.osDoExcHook t = some (h t) := by
  rcases hk with ⟨rfl, rfl⟩ | ⟨L, hh⟩
  · rfl
  · rw [Registry.osDoExcHook, if_pos hh.hooked, hh.doExcHook ht]

theorem erase_eq_filter_of_count_le_one (hc : l.count f ≤ 1) : l.erase f = l.filter (· ≠ f) := by
  induction l with
  | nil => rfl
  | cons b l ih =>
    by_cases hb : b = f
    · subst hb
      rw [count_cons_self] at hc
      have hnot : b ∉ l := count_eq_zero.mp (by omega)
      rw [erase_cons_head, filter_cons_of_neg (by simp), filter_eq_self.mpr]
      intro c hcl
      simpa using ne_of_mem_of_not_mem hcl hnot
    · rw [count_cons_of_ne hb] at hc
      rw [erase_cons_tail (by simpa using hb), filter_cons_of_pos (by simpa using hb), ih hc]

theorem Hooks.eraseLast_eq_filter_iff : eraseLast f l = l.filter (· ≠ f) ↔ l.count f ≤ 1 := by
  constructor
  · intro heq
    have hnone : (l.filter (· ≠ f)).count f = 0 := count_eq_zero.mpr (by simp)
    rw [← heq, eraseLast, count_reverse, count_erase_self, count_reverse] at hnone
    omega
  · intro hc
    rw [eraseLast, erase_eq_filter_of_count_le_one (by rwa [count_reverse]), filter_reverse,
      reverse_reverse]

end

/-- An exception calls the hooks of its type that a run has left registered. -/
theorem osDoExcHook_run (ops : List HookOp) : ∃ r, exec Registry.step .zero ops = some r ∧
      ∀ t < excTypeEnd, r.osDoExcHook t = some (Hooks.run ops t) := by
  obtain ⟨r, hexec, hk⟩ := Knows.exec (.inl ⟨rfl, rfl⟩) ops
  exact ⟨r, hexec, fun t ht => hk.osDoExcHook ht⟩

/-- In every run the calls return and each node is in one list. A registration fails exactly when all
nodes have hooks, and the hooks of a type are called in the order of their registration.
Unregistering a function leaves the other hooks of the type, in their order, exactly when the
function has at most one node in the list of the type. -/
theorem hooks_registered (ops : List HookOp) : ∃ r L, exec Registry.step .zero ops = some r ∧
      (∀ t ≤ excTypeEnd, Chain r.ready.next (r.ready.excHeads t) (L t)) ∧ Parts L ∧
      (∀ t < excTypeEnd, ∀ f ≠ 0,
        ((r.regExcHook t f).2 ≠ .ok ↔ ∀ a, IsNode a → ∃ u < excTypeEnd, a ∈ L u)) ∧
      (∀ t < excTypeEnd, r.doExcHook t = some (Hooks.run ops t)) ∧ ∀ t < excTypeEnd, ∀ f ≠ 0,
        ((∃ r' l, r.unRegExcHook t f = some (r', .ok) ∧ Chain r'.next (r'.excHeads t) l ∧
            (∀ a ∈ l, r'.excHookFn a ≠ f) ∧
            r'.doExcHook t = some ((Hooks.run ops t).filter (· ≠ f))) ↔
          (L t).countP (fun a => r.ready.excHookFn a = f) ≤ 1) := by
  obtain ⟨r, hexec, hk⟩ : ∃ r, exec Registry.step .zero ops = some r ∧ Knows r (Hooks.run ops) :=
    Knows.exec (.inl ⟨rfl, rfl⟩) ops
  obtain ⟨L, hh, hdo, hcalls⟩ := hk.ready
  refine ⟨r, L, hexec, hh.chain, hh.parts, fun t ht f hf => ?_, fun t ht => ?_, fun t ht f hf => ?_⟩
  · rw [(hcalls t ht f hf).1, (hh.regExcHook ht hf).1]
    constructor
    · intro hL a ha
      obtain ⟨u, hu, hau⟩ := (hh.parts.mem a).mp ha
      refine ⟨u, lt_of_le_of_ne hu ?_, hau⟩
      rintro rfl
      simp [hL] at hau
    intro hall
    refine eq_nil_iff_forall_not_mem.mpr fun a ha => ?_
    obtain ⟨u, hu, hau⟩ := hall a ((hh.parts.mem a).mpr ⟨_, le_rfl, ha⟩)
    exact hu.ne (hh.parts.once u hu.le _ le_rfl a hau ha)
  · rw [hdo t ht, hh.doExcHook ht]
  have hcount : (L t).countP (fun a => r.ready.excHookFn a = f) = (Hooks.run ops t).count f := by
    rw [← hh.hooks t ht, count_reverse, count, countP_map]
    rfl
  obtain ⟨r', heq, hk'⟩ := (hcalls t ht f hf).2
  rw [hcount, ← Hooks.eraseLast_eq_filter_iff]
  obtain ⟨L', hh', hdo', -⟩ := hk'.ready
  have hhooks : r'.doExcHook t = some (Hooks.eraseLast f (Hooks.run ops t)) := by
    rw [hdo' t ht, hh'.doExcHook ht, update_self]
  constructor
  · rintro ⟨r'', l, heq', -, -, hfil⟩
    rw [heq] at heq'
    obtain rfl : r' = r'' := congrArg Prod.fst (some.inj heq')
    exact some.inj (hhooks.symm.trans hfil)
  intro hfil
  obtain ⟨l, hch, hl⟩ := hk'.chain ht
  refine ⟨r', l, heq, hch, fun a ha hfa => ?_, by rw [hhooks, hfil]⟩
  have hmem : f ∈ (l.map r'.excHookFn).reverse := by
    rw [mem_reverse, ← hfa]
    exact mem_map_of_mem ha
  rw [hl, hfil] at hmem
  simp at hmem

/-- A function is registered twice and unregistered: it is still called. -/
theorem unRegExcHook_twice : (exec Registry.step .zero [.reg 0 7, .reg 0 7]).any (fun r =>
      (r.unRegExcHook 0 7).any fun (r', ret) => ret = .ok ∧ r'.doExcHook 0 = some [7]) = true := by
  decide +kernel

end LiteosM.Components
