import LiteosM.Lib.Run
import Mathlib.Data.List.Induction

/-!
# What has held since a step of the run

An invariant speaks of one state. What a state owes to an earlier step of its run is said with the
past operator of temporal logic: `Since begins stays run s` holds when some step of `run` satisfies
`begins`, and every state from there to the last one, which is `s`, satisfies `stays`.

* `exec_inv_run`: the invariant rule for what depends on the run so far;
* **`Since.lost`**: what the first step has brought about still holds at the end, or a later step
  has undone it.
-/

namespace LiteosM.Lib

variable {σ α : Type*} {step : σ → α → Option σ} {s0 s s' : σ} {run : List α} {a : α}

theorem exec_concat : exec step s0 (run ++ [a]) = some s' ↔
    ∃ s, exec step s0 run = some s ∧ step s a = some s' := by
  rw [exec_append]
  refine exists_congr fun s => and_congr_right fun _ => ?_
  rw [exec_cons]
  constructor
  · rintro ⟨t, ht, he⟩
    rw [exec_nil, Option.some.injEq] at he
    exact he ▸ ht
  · exact fun h => ⟨s', h, rfl⟩

/-- **The invariant rule with the run as history.** -/
theorem exec_inv_run {Inv : List α → σ → Prop} {ok : σ → α → Prop} (hstart : Inv [] s0)
    (hstep : ∀ run s a s', exec step s0 run = some s → Inv run s → ok s a → step s a = some s' →
      Inv (run ++ [a]) s') :
    ∀ {run : List α} {s : σ}, Guarded step ok s0 run → exec step s0 run = some s → Inv run s := by
  intro run
  induction run using List.reverseRecOn with
  | nil =>
    intro s _ he
    rw [exec_nil, Option.some.injEq] at he
    exact he ▸ hstart
  | append_singleton run a ih =>
    intro s' hg he
    obtain ⟨s, hs, ha⟩ := exec_concat.mp he
    obtain ⟨hg, hok⟩ := hg.append hs
    exact hstep run s a s' hs (ih hg hs) hok.1 ha

/-- A step of the run has satisfied `begins`, and all states since satisfy `stays`. -/
inductive Since (step : σ → α → Option σ) (s0 : σ) (begins : σ → α → σ → Prop) (stays : σ → Prop) :
    List α → σ → Prop where
  | begins {run : List α} {s s' : σ} {a : α} (before : exec step s0 run = some s)
      (moves : step s a = some s') (here : begins s a s') (now : stays s') :
      Since step s0 begins stays (run ++ [a]) s'
  | stays {run : List α} {s s' : σ} {a : α} (before : Since step s0 begins stays run s)
      (moves : step s a = some s') (now : stays s') : Since step s0 begins stays (run ++ [a]) s'

namespace Since

variable {begins : σ → α → σ → Prop} {stays : σ → Prop}

section
variable (h : Since step s0 begins stays run s)
include h

theorem now : stays s := by
  cases h with
  | begins _ _ _ now | stays _ _ now => exact now

theorem exec : exec step s0 run = some s := by
  induction h with
  | begins before moves => exact exec_concat.mpr ⟨_, before, moves⟩
  | stays _ moves _ ih => exact exec_concat.mpr ⟨_, ih, moves⟩

/-- **What the first step has brought about holds until a step undoes it.** -/
theorem lost {Q : σ → Prop} {undoes : σ → α → σ → Prop} (hQ : ∀ s a s', begins s a s' → Q s')
    (hundo : ∀ s a s', step s a = some s' → stays s → Q s → ¬Q s' → undoes s a s') :
    Q s ∨ Since step s0 undoes stays run s := by
  induction h with
  | begins _ _ here => exact .inl (hQ _ _ _ here)
  | @stays run s s' a before moves now ih =>
    rcases ih with hs | hlost
    · by_cases hs' : Q s'
      · exact .inl hs'
      · exact .inr (.begins before.exec moves (hundo _ _ _ moves before.now hs hs') now)
    · exact .inr (.stays hlost moves now)

end

end Since

end LiteosM.Lib
