import Mathlib
/-!
# Changing the order of steps

A list of steps is reordered by exchanging neighbours that are free of each other. When the effects
of free steps commute, the reordered list does the same.
-/

namespace Horizon.Reorder

open List Relation

variable {α σ : Type*} {free : α → α → Prop} {one two : List α}

/-- Two neighbours are exchanged. -/
inductive Swapped (free : α → α → Prop) : List α → List α → Prop where
  | mk (front : List α) {a b : α} (back : List α) : free a b →
      Swapped free (front ++ a :: b :: back) (front ++ b :: a :: back)

/-- Neighbours are exchanged any number of times. -/
def Reordered (free : α → α → Prop) : List α → List α → Prop := ReflTransGen (Swapped free)

theorem Reordered.refl (steps : List α) : Reordered free steps steps := ReflTransGen.refl

theorem Reordered.trans {three : List α} (first : Reordered free one two)
    (second : Reordered free two three) : Reordered free one three :=
  ReflTransGen.trans first second

/-- What stands before and behind does not matter. -/
theorem Reordered.around (reordered : Reordered free one two) (front back : List α) :
    Reordered free (front ++ (one ++ back)) (front ++ (two ++ back)) := by
  induction reordered with
  | refl => exact .refl _
  | tail _ last ih =>
    obtain ⟨before, after, allowed⟩ := last
    have swapped := Swapped.mk (front ++ before) (after ++ back) allowed
    exact ih.trans (ReflTransGen.single (by simpa using swapped))

theorem Reordered.append_left (front : List α) (reordered : Reordered free one two) :
    Reordered free (front ++ one) (front ++ two) := by
  simpa using reordered.around front []

theorem Reordered.append_right (reordered : Reordered free one two) (back : List α) :
    Reordered free (one ++ back) (two ++ back) :=
  reordered.around [] back

/-- A step that is free of all behind it can come last. -/
theorem reordered_last {a : α} (steps : List α) (allowed : ∀ b ∈ steps, free a b) :
    Reordered free (a :: steps) (steps ++ [a]) := by
  induction steps with
  | nil => exact .refl _
  | cons b rest ih =>
    obtain ⟨first, later⟩ := forall_mem_cons.mp allowed
    have swapped : Reordered free (a :: b :: rest) (b :: a :: rest) :=
      ReflTransGen.single (Swapped.mk [] rest first)
    exact swapped.trans ((ih later).append_left [b])

/-- Reordered steps have the same effect when free ones commute. -/
theorem Reordered.foldl_eq {effect : σ → α → σ}
    (commute : ∀ a b state, free a b → effect (effect state a) b = effect (effect state b) a)
    (reordered : Reordered free one two) (state : σ) :
    one.foldl effect state = two.foldl effect state := by
  induction reordered with
  | refl => rfl
  | tail _ last ih =>
    rw [ih]
    obtain ⟨front, back, allowed⟩ := last
    simp only [foldl_append, foldl_cons, commute _ _ _ allowed]

end Horizon.Reorder
