import Mathlib.Data.Set.Basic

/-!
# Handing a baton over by messages

Parties of a set `S`, one of which runs while the others sleep. The running party hands over by
sending a wake-up message to another one and going to sleep; a sleeping party wakes by taking the
message. A message may also be dropped. A party **has the baton** when it is awake or a message to
it is outstanding.

* `One.move`: handing over and waking keep the baton with exactly one party;
* `One.drop`: dropping the one outstanding message leaves nobody with the baton (`Lost`);
* `Lost.move`: from there on nobody ever has it again.
-/

namespace LiteosM.Lib.Baton

open Function

variable {T : Type*} [DecidableEq T] {S : Set T}

/-- Where a party stands: asleep or on its way to sleep, and whether a message to it is
outstanding. -/
structure Party where
  asleep : Bool
  outstanding : Bool

/-- The party is awake, or will be woken. -/
def Party.Has (p : Party) : Prop := p.asleep = false ∨ p.outstanding = true

/-- Handing over and waking. -/
inductive Move (S : Set T) : (T → Party) → (T → Party) → Prop where
  /-- `t` sends the wake-up to `u` and goes to sleep. -/
  | pass {v : T → Party} {t u : T} (ht : t ∈ S) (hu : u ∈ S) (hne : t ≠ u)
      (hawake : (v t).asleep = false) :
      Move S v (update (update v t ⟨true, (v t).outstanding⟩) u ⟨(v u).asleep, true⟩)
  /-- `t` takes the message. -/
  | wake {v : T → Party} {t : T} (ht : t ∈ S) (hasleep : (v t).asleep = true)
      (hmsg : (v t).outstanding = true) : Move S v (update v t ⟨false, false⟩)

/-- The message to a party is dropped. -/
def Drop (S : Set T) (v v' : T → Party) : Prop :=
  ∃ t ∈ S, (v t).outstanding = true ∧ v' = update v t ⟨(v t).asleep, false⟩

/-- `t` alone has the baton, and no message is outstanding to a party that is awake. -/
structure One (S : Set T) (v : T → Party) (t : T) : Prop where
  mem : t ∈ S
  has : (v t).Has
  only : ∀ u ∈ S, (v u).Has → u = t
  clean : ∀ u ∈ S, (v u).asleep = false → (v u).outstanding = false

/-- Nobody has the baton. -/
def Lost (S : Set T) (v : T → Party) : Prop := ∀ t ∈ S, ¬ (v t).Has

theorem not_has {p : Party} : ¬ p.Has ↔ p.asleep = true ∧ p.outstanding = false := by
  simp [Party.Has]

variable {v : T → Party} {b t u : T}

/-- Handing over moves the baton to the party the message is sent to. -/
theorem One.pass (h : One S v b) (ht : t ∈ S) (hu : u ∈ S) (hne : t ≠ u)
    (hawake : (v t).asleep = false) : One S (update (update v t ⟨true, (v t).outstanding⟩) u
      ⟨(v u).asleep, true⟩) u := by
  obtain rfl : t = b := h.only t ht (.inl hawake)
  have huAsleep : (v u).asleep = true := by
    by_contra hcon
    exact hne (h.only u hu (.inl (Bool.eq_false_iff.mpr hcon))).symm
  refine ⟨hu, ?_, fun w hw hhas => ?_, fun w hw hwake => ?_⟩
  · rw [update_self]
    exact .inr rfl
  · by_contra hwu
    rw [update_of_ne hwu] at hhas
    by_cases hwt : w = t
    · rw [hwt] at hhas
      have := h.clean t ht hawake
      simp [Party.Has, this] at hhas
    · rw [update_of_ne hwt] at hhas
      exact hwt (h.only w hw hhas)
  by_cases hwu : w = u
  · rw [hwu, update_self] at hwake
    exact absurd (huAsleep.symm.trans hwake) (by decide)
  rw [update_of_ne hwu] at hwake ⊢
  by_cases hwt : w = t
  · rw [hwt, update_self] at hwake
    exact absurd hwake.symm Bool.false_ne_true
  · rw [update_of_ne hwt] at hwake ⊢
    exact h.clean w hw hwake

/-- Taking the message keeps the baton where it is. -/
theorem One.wake (h : One S v b) (ht : t ∈ S) (hmsg : (v t).outstanding = true) :
    One S (update v t ⟨false, false⟩) b := by
  obtain rfl : t = b := h.only t ht (.inr hmsg)
  refine ⟨ht, ?_, fun w hw hhas => ?_, fun w hw hwake => ?_⟩
  · rw [update_self]
    exact .inl rfl
  · by_contra hwt
    rw [update_of_ne hwt] at hhas
    exact hwt (h.only w hw hhas)
  by_cases hwt : w = t
  · rw [hwt, update_self]
  · rw [update_of_ne hwt] at hwake ⊢
    exact h.clean w hw hwake

variable {v' : T → Party}

/-- **A move keeps the baton with exactly one party.** -/
theorem One.move (h : One S v b) (hs : Move S v v') : ∃ b', One S v' b' := by
  cases hs with
  | pass ht hu hne hawake => exact ⟨_, h.pass ht hu hne hawake⟩
  | wake ht _ hmsg => exact ⟨_, h.wake ht hmsg⟩

/-- **A dropped message was the baton.** -/
theorem One.drop (h : One S v b) (hs : Drop S v v') : Lost S v' := by
  obtain ⟨t, ht, hmsg, rfl⟩ := hs
  obtain rfl : t = b := h.only t ht (.inr hmsg)
  intro w hw hhas
  by_cases hwt : w = t
  · rw [hwt, update_self] at hhas
    rcases hhas with hwake | hout
    · have := h.clean t ht hwake
      exact absurd (hmsg.symm.trans this) (by decide)
    · exact absurd hout Bool.false_ne_true
  · rw [update_of_ne hwt] at hhas
    exact hwt (h.only w hw hhas)

/-- **A lost baton stays lost.** -/
theorem Lost.move (h : Lost S v) (hs : Move S v v' ∨ Drop S v v') : Lost S v' := by
  rcases hs with hs | ⟨t, ht, hmsg, _⟩
  · cases hs with
    | pass ht _ _ hawake => exact absurd (.inl hawake) (h _ ht)
    | wake ht _ hmsg => exact absurd (.inr hmsg) (h _ ht)
  · exact absurd (.inr hmsg) (h t ht)

end LiteosM.Lib.Baton
