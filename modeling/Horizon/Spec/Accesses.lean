import Mathlib
/-!
# Accesses to an array of cells, one by one

An access reads or writes a range of cells. What a list of accesses leaves in a cell is the value of
the last write that covers the cell.
-/

namespace Horizon.Accesses

open List

/-- An access to `count` cells from `start` on; `key` names its values. -/
structure Access where
  key : Nat
  write : Bool
  start : Nat
  count : Nat
  deriving DecidableEq

/-- The cell is one that the access transfers. -/
def Access.Covers (access : Access) (cell : Nat) : Prop :=
  access.start ≤ cell ∧ cell < access.start + access.count

instance (access : Access) (cell : Nat) : Decidable (access.Covers cell) :=
  inferInstanceAs (Decidable (_ ∧ _))

/-- The access writes the cell. -/
def Access.Writes (access : Access) (cell : Nat) : Prop := access.write = true ∧ access.Covers cell

instance (access : Access) (cell : Nat) : Decidable (access.Writes cell) :=
  inferInstanceAs (Decidable (_ ∧ _))

def lastWriter (accesses : List Access) (cell : Nat) : Option Access :=
  accesses.foldl (fun last access => if access.Writes cell then some access else last) none

variable {V : Type} (values : Nat → Nat → V) (cells : Nat → V)

def apply (cells : Nat → V) (access : Access) (cell : Nat) : V :=
  if access.Writes cell then values access.key (cell - access.start) else cells cell

def after (accesses : List Access) : Nat → V := accesses.foldl (apply values) cells

theorem lastWriter_append (accesses : List Access) (access : Access) (cell : Nat) :
    lastWriter (accesses ++ [access]) cell =
      if access.Writes cell then some access else lastWriter accesses cell := by
  unfold lastWriter
  rw [foldl_append]
  rfl

variable {accesses : List Access}

variable {access : Access} {cell : Nat}

theorem lastWriter_eq_none (silent : ∀ access ∈ accesses, ¬ access.Writes cell) :
    lastWriter accesses cell = none := by
  induction accesses using reverseRecOn with
  | nil => rfl
  | append_singleton accesses access ih =>
    rw [lastWriter_append, if_neg (silent access (by simp))]
    exact ih fun other inside => silent other (mem_append_left _ inside)

theorem lastWriter_ne_none (inside : access ∈ accesses) (writes : access.Writes cell) :
    lastWriter accesses cell ≠ none := by
  induction accesses using reverseRecOn with
  | nil => exact absurd inside not_mem_nil
  | append_singleton accesses last ih =>
    rw [lastWriter_append]
    split
    · exact Option.some_ne_none _
    · rename_i silent
      rcases List.mem_append.mp inside with earlier | same
      · exact ih earlier
      · rw [List.mem_singleton.mp same] at writes
        exact absurd writes silent

theorem after_eq (accesses : List Access) (cell : Nat) : after values cells accesses cell =
      (lastWriter accesses cell).elim (cells cell) fun writer =>
        values writer.key (cell - writer.start) := by
  induction accesses using reverseRecOn with
  | nil => rfl
  | append_singleton accesses access ih =>
    rw [lastWriter_append]
    unfold after at ih ⊢
    rw [foldl_append]
    show apply values _ access cell = _
    unfold apply
    split
    · rfl
    · exact ih

end Horizon.Accesses
