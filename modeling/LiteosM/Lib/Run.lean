import Mathlib.Data.Option.Basic
import Mathlib.Data.List.Basic

/-!
# Runs of a labelled transition system

A system is a deterministic partial step function `step : σ → α → Option σ`: the label says who
moves and what it does, `none` that the label is not enabled. A run is a list of labels, replayed
by `exec`. Conditions on a run (`Guarded`) are read step by step, each in the state the step is
taken from.

* `exec_inv`: an invariant kept by every step holds after every run;
* `exec_inv_guarded`: the same for the runs whose steps all meet a condition;
* **`guarded_congr`**: two step conditions that agree wherever an invariant holds accept the same
  runs, when the invariant is kept by the steps the second one accepts. Only states before the
  first rejected step are ever compared.
-/

namespace LiteosM.Lib

open List Option

variable {σ α : Type*} {step : σ → α → Option σ}

/-- Take the labels in order; `none` when one of them is not enabled. -/
def exec (step : σ → α → Option σ) : σ → List α → Option σ
  | s, [] => some s
  | s, a :: as => (step s a).bind fun s' => exec step s' as

/-- Every label of the run meets `ok` in the state it is taken from. -/
def Guarded (step : σ → α → Option σ) (ok : σ → α → Prop) : σ → List α → Prop
  | _, [] => True
  | s, a :: as => ok s a ∧ ∀ s', step s a = some s' → Guarded step ok s' as

/-- A step under a condition that was taken. -/
theorem guarded_inj {p : Prop} [Decidable p] {s s' : σ} (h : (if p then some s else none) = some s') : p ∧ s = s' :=
  (ite_none_right_eq_some.mp h).imp_right some.inj

@[simp] theorem exec_nil (s : σ) : exec step s [] = some s := rfl

theorem exec_cons {s s' : σ} {a : α} {as : List α} :
    exec step s (a :: as) = some s' ↔ ∃ t, step s a = some t ∧ exec step t as = some s' := by
  simp only [exec, bind_eq_some_iff]

theorem exec_append {s s' : σ} {as bs : List α} : exec step s (as ++ bs) = some s' ↔
      ∃ t, exec step s as = some t ∧ exec step t bs = some s' := by
  induction as generalizing s with
  | nil => simp
  | cons a as ih =>
    simp only [cons_append, exec_cons, ih]
    constructor
    · rintro ⟨t, ht, u, hu, hs⟩
      exact ⟨u, ⟨t, ht, hu⟩, hs⟩
    · rintro ⟨u, ⟨t, ht, hu⟩, hs⟩
      exact ⟨t, ht, u, hu, hs⟩

variable {Inv : σ → Prop}

/-- **The invariant rule**: what every step keeps holds after every run. -/
theorem exec_inv (hstep : ∀ s a s', Inv s → step s a = some s' → Inv s') :
    ∀ {as : List α} {s s' : σ}, Inv s → exec step s as = some s' → Inv s'
  | [], _, _, h, he => by
    rw [exec_nil, some.injEq] at he
    exact he ▸ h
  | _ :: _, _, _, h, he => by
    obtain ⟨t, ht, he⟩ := exec_cons.mp he
    exact exec_inv hstep (hstep _ _ _ h ht) he

variable {ok : σ → α → Prop}

/-- **The invariant rule under a condition**: what every step that meets `ok` keeps holds after
every run whose steps all meet it. -/
theorem exec_inv_guarded
    (hstep : ∀ s a s', Inv s → ok s a → step s a = some s' → Inv s') :
    ∀ {as : List α} {s s' : σ}, Inv s → Guarded step ok s as → exec step s as = some s' → Inv s'
  | [], _, _, h, _, he => by
    rw [exec_nil, some.injEq] at he
    exact he ▸ h
  | _ :: _, _, _, h, hg, he => by
    obtain ⟨t, ht, he⟩ := exec_cons.mp he
    exact exec_inv_guarded hstep (hstep _ _ _ h hg.1 ht) (hg.2 t ht) he

instance decidableGuarded {ok : σ → α → Prop} [∀ s a, Decidable (ok s a)] :
    ∀ (as : List α) (s : σ), Decidable (Guarded step ok s as)
  | [], _ => .isTrue trivial
  | a :: as, s =>
    have : Decidable (∀ s', step s a = some s' → Guarded step ok s' as) :=
      match h : step s a with
      | none => .isTrue fun s' hs' => by cases hs'
      | some t =>
        match decidableGuarded as t with
        | .isTrue ht => .isTrue fun s' hs' => by rwa [← some.inj hs']
        | .isFalse ht => .isFalse fun hc => ht (hc t rfl)
    inferInstanceAs (Decidable (_ ∧ _))

/-- A condition that the labels meet in every state. -/
theorem guarded_of_forall :
    ∀ {as : List α} {s : σ}, (∀ a ∈ as, ∀ s, ok s a) → Guarded step ok s as
  | [], _, _ => trivial
  | a :: _, s, h => ⟨h a mem_cons_self s, fun _ _ =>
    guarded_of_forall fun b hb => h b (mem_cons_of_mem _ hb)⟩

theorem Guarded.and {ok ok' : σ → α → Prop} :
    ∀ {as : List α} {s : σ}, Guarded step ok s as → Guarded step ok' s as →
      Guarded step (fun s a => ok s a ∧ ok' s a) s as
  | [], _, _, _ => trivial
  | _ :: _, _, h, h' => ⟨⟨h.1, h'.1⟩, fun s hs => (h.2 s hs).and (h'.2 s hs)⟩

theorem Guarded.append {bs : List α} {t : σ} :
    ∀ {as : List α} {s : σ}, Guarded step ok s (as ++ bs) → exec step s as = some t →
      Guarded step ok s as ∧ Guarded step ok t bs
  | [], _, hg, he => by
    rw [exec_nil, some.injEq] at he
    exact ⟨trivial, he ▸ hg⟩
  | a :: as, s, hg, he => by
    obtain ⟨u, hu, he⟩ := exec_cons.mp he
    have hrec := Guarded.append (hg.2 u hu) he
    refine ⟨⟨hg.1, fun s' hs' => ?_⟩, hrec.2⟩
    rw [hu, some.injEq] at hs'
    exact hs' ▸ hrec.1

/-- **Two conditions that agree up to the first rejected step accept the same runs.** -/
theorem guarded_congr {ok ok' : σ → α → Prop}
    (hiff : ∀ s a, Inv s → (ok s a ↔ ok' s a))
    (hstep : ∀ s a s', Inv s → ok' s a → step s a = some s' → Inv s') :
    ∀ {as : List α} {s : σ}, Inv s → (Guarded step ok s as ↔ Guarded step ok' s as)
  | [], _, _ => Iff.rfl
  | a :: as, s, h => by
    have hrest : ok' s a → ∀ t, step s a = some t →
        (Guarded step ok t as ↔ Guarded step ok' t as) := fun ho t ht =>
      guarded_congr hiff hstep (hstep _ _ _ h ho ht)
    constructor
    · rintro ⟨ho, hg⟩
      have ho' := (hiff s a h).mp ho
      exact ⟨ho', fun t ht => (hrest ho' t ht).mp (hg t ht)⟩
    · rintro ⟨ho', hg⟩
      exact ⟨(hiff s a h).mpr ho', fun t ht => (hrest ho' t ht).mpr (hg t ht)⟩

end LiteosM.Lib
