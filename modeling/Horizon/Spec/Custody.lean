import Mathlib

/-!
# Custody

Things that are moved between places. Custody is exclusive when no thing is at two places.
-/

namespace Horizon.Custody

variable {Place Thing : Type*} {holds after : Place → Thing → Prop}

/-- No thing is at two places. -/
def Exclusive (holds : Place → Thing → Prop) : Prop :=
  ∀ thing first second, holds first thing → holds second thing → first = second

theorem Exclusive.subset (exclusive : Exclusive holds)
    (still : ∀ place thing, after place thing → holds place thing) : Exclusive after := by
  intro thing first second one two
  exact exclusive thing first second (still _ _ one) (still _ _ two)

theorem Exclusive.move (exclusive : Exclusive holds) {target : Place} {moved : Thing}
    (only : ∀ place, after place moved → place = target)
    (still : ∀ place thing, thing ≠ moved → after place thing → holds place thing) :
    Exclusive after := by
  intro thing first second one two
  by_cases same : thing = moved
  · subst same
    exact (only first one).trans (only second two).symm
  · exact exclusive thing first second (still _ _ same one) (still _ _ same two)

end Horizon.Custody
