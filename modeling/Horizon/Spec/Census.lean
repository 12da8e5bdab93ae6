import Mathlib

/-!
# Counting agents

How many of finitely many agents have a local state of a kind, and how the number changes when one
agent takes a step.
-/

namespace Horizon.Census

open Function Finset

variable {ι σ : Type} [Fintype ι]

def census (agents : ι → σ) (kind : σ → Bool) : Nat :=
  (univ.filter fun i => kind (agents i) = true).card

variable {agents : ι → σ} {kind : σ → Bool} {i : ι}

theorem census_eq_zero (none : ∀ i, kind (agents i) = false) : census agents kind = 0 := by
  rw [census, card_eq_zero, filter_eq_empty_iff]
  intro i _
  simp [none i]

theorem exists_of_census_pos (positive : 0 < census agents kind) : ∃ i, kind (agents i) = true := by
  obtain ⟨i, member⟩ := Finset.card_pos.mp positive
  exact ⟨i, (Finset.mem_filter.mp member).2⟩

theorem census_congr {after : ι → σ} (same : ∀ i, kind (after i) = kind (agents i)) :
    census after kind = census agents kind := by
  simp only [census, same]

theorem census_pos (found : kind (agents i) = true) : 0 < census agents kind :=
  Finset.card_pos.mpr ⟨i, Finset.mem_filter.mpr ⟨mem_univ i, found⟩⟩

variable [DecidableEq ι]

theorem sum_update_add (shares : ι → Nat) (i : ι) (value : Nat) :
    (∑ j, update shares i value j) + shares i = (∑ j, shares j) + value := by
  have split := sum_erase_add univ shares (mem_univ i)
  rw [sum_update_of_mem (mem_univ i), ← erase_eq, ← split]
  omega

theorem census_update_same {value : σ} (same : kind value = kind (agents i)) :
    census (update agents i value) kind = census agents kind := by
  have pointwise : ∀ j, kind (update agents i value j) = kind (agents j) := by
    intro j
    by_cases here : j = i
    · rw [here, update_self, same]
    · rw [update_of_ne here]
  simp only [census, pointwise]

theorem census_update_join (value : σ) (before : kind (agents i) = false)
    (after : kind value = true) :
    census (update agents i value) kind = census agents kind + 1 := by
  have inserted : (univ.filter fun j => kind (update agents i value j) = true) =
      insert i (univ.filter fun j => kind (agents j) = true) := by
    ext j
    by_cases here : j = i
    · simp [here, after]
    · simp [here]
  rw [census, inserted, card_insert_of_notMem (by simp [before]), census]

theorem census_update_leave (value : σ) (before : kind (agents i) = true)
    (after : kind value = false) :
    census (update agents i value) kind + 1 = census agents kind := by
  have back : update (update agents i value) i (agents i) = agents := by
    rw [update_idem, update_eq_self]
  have left : kind (update agents i value i) = false := by rw [update_self, after]
  have joined := census_update_join (agents i) left before
  rw [back] at joined
  exact joined.symm

end Horizon.Census
