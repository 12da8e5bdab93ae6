import Mathlib

/-!
# Invariants of runs

A run is a chain of steps of a transition relation. What the start satisfies and every step keeps
holds at the end of every run. A sequence of computations that may fail succeeds when each part
does.
-/

namespace Horizon.Runs

open Relation

variable {σ : Type*} {step : σ → σ → Prop}

/-- What holds at the start and is kept by every step holds at the end. -/
theorem invariant_of_run (invariant : σ → Prop) {s t : σ} (run : ReflTransGen step s t)
    (start : invariant s) (keeps : ∀ a b, invariant a → step a b → invariant b) : invariant t := by
  induction run with
  | refl => exact start
  | tail _ last ih => exact keeps _ _ ih last

theorem bind_eq_ok {ε α β : Type} {first : Except ε α} {rest : α → Except ε β} {result : β} :
    first >>= rest = .ok result ↔ ∃ value, first = .ok value ∧ rest value = .ok result := by
  cases first with
  | error | ok => simp [bind, Except.bind]

theorem ok_bind {ε α β : Type} (value : α) (rest : α → Except ε β) :
    (Except.ok value >>= rest) = rest value := rfl

theorem pure_ok {ε α : Type} (value : α) : (pure value : Except ε α) = .ok value := rfl

theorem guard_eq_ok {ε α : Type} {condition : Prop} [Decidable condition] {first : Except ε α}
    {error : ε} {result : α} : (if condition then first else .error error) = .ok result ↔
      condition ∧ first = .ok result := by
  by_cases holds : condition <;> simp [holds]

/-- A computation that stops stops with no bad error, and one that ends has a good result. -/
def Ensures {ε α : Type} (bad : ε → Prop) (good : α → Prop) : Except ε α → Prop
  | .error error => ¬ bad error
  | .ok value => good value

section Ensures

variable {ε α β : Type} {bad : ε → Prop} {good : α → Prop} {computation : Except ε α}

theorem ensures_ok {value : α} (holds : good value) :
    Ensures bad good (.ok value : Except ε α) := holds

theorem ensures_error {error : ε} (harmless : ¬ bad error) :
    Ensures bad good (.error error : Except ε α) := harmless

theorem Ensures.mono {weaker : α → Prop} (ensures : Ensures bad good computation)
    (weaken : ∀ value, good value → weaker value) : Ensures bad weaker computation := by
  cases computation with
  | error => exact ensures
  | ok value => exact weaken value ensures

/-- The rule of sequences: the second part may use what the first one ensures. -/
theorem ensures_bind {final : β → Prop} {rest : α → Except ε β}
    (first : Ensures bad good computation)
    (later : ∀ value, good value → Ensures bad final (rest value)) :
    Ensures bad final (computation >>= rest) := by
  cases computation with
  | error => exact first
  | ok value => exact later value first

theorem ensures_map {final : β → Prop} {f : α → β}
    (first : Ensures bad (fun value => final (f value)) computation) :
    Ensures bad final (computation.map f) := by
  cases computation with
  | error | ok => exact first

end Ensures

section

variable {f : ℕ → ℕ} {n start : ℕ} (bounded : ∀ i < n, f i < n) (inside : start < n) (k : ℕ)
include bounded inside k

theorem iterate_lt : f^[k] start < n := by
  induction k with
  | zero => exact inside
  | succ k ih =>
    rw [Function.iterate_succ_apply']
    exact bounded _ ih

theorem iterate_repeats : ∃ j < n, f^[j] start = f^[k] start := by
  induction k using Nat.strong_induction_on with
  | _ k ih =>
    by_cases small : k < n
    · exact ⟨k, small, rfl⟩
    -- Two of the first positions are the same.
    have crowded : (Finset.range n).card < (Finset.range (n + 1)).card := by simp
    obtain ⟨a, inA, b, inB, distinct, same⟩ := Finset.exists_ne_map_eq_of_card_lt_of_maps_to crowded
      (f := fun j => f^[j] start)
      (fun j _ => Finset.mem_coe.mpr (Finset.mem_range.mpr (iterate_lt bounded inside j)))
    have earlier : ∀ a b, b ≤ n → a < b → f^[a] start = f^[b] start →
        ∃ j < n, f^[j] start = f^[k] start := by
      intro a b bound less same
      obtain ⟨j, jSmall, jSame⟩ := ih (k - b + a) (by omega)
      refine ⟨j, jSmall, ?_⟩
      rw [jSame, Function.iterate_add_apply, same, ← Function.iterate_add_apply,
        Nat.sub_add_cancel (by omega)]
    rw [Finset.mem_range] at inA inB
    rcases lt_or_gt_of_ne distinct with less | more
    · exact earlier a b (by omega) less same
    · exact earlier b a (by omega) more same.symm

end

end Horizon.Runs
