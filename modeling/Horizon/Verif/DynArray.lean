import Horizon.Kernel.DynArray
import Horizon.Spec.Runs

/-!
# No array is walked to its end

`dyn_array_foreach` ends at a null block. `dyn_array_next_ptr`, which moves there, reads the data
pointer of that block first.
-/

namespace Horizon.DynArray

variable {β : Type}

/-- Appends the values one after the other; a fault ends the appending. -/
def appendAll (array : DynArray β) (junk : Nat → β) :
    List (List β) → Except DynArrayFault (DynArray β)
  | [] => .ok array
  | value :: rest => do
    let array ← array.append junk value
    array.appendAll junk rest

/-- The appended values are read back and walked through, without a fault. -/
def Holds (array : DynArray β) (junk : Nat → β) (n : Nat) (values : List (List β)) : Prop :=
  ∃ filled, array.appendAll junk values = .ok filled ∧
    (∀ i (below : i < values.length), filled.get junk n i = .ok values[i]) ∧
    ∃ rounds, filled.foreach n rounds = .ok (some values)

section Walk

variable (array : DynArray β) (n : Nat)

/-- A move that does not fault ends in a block. -/
theorem nextPtr_ne_nil {chain : List (DynArrayBlock β)} {offset : Nat}
    {next : List (DynArrayBlock β) × Nat} (moved : array.nextPtr chain offset = .ok next) :
    next.1 ≠ [] := by
  unfold nextPtr at moved
  generalize (if offset + 1 < array.blockSize then _ else _ : _ × Nat) = after at moved
  dsimp only at moved
  split at moved
  case isTrue => cases moved
  case isFalse block =>
    cases moved
    exact fun empty => block (List.isEmpty_iff.mpr empty)

/-- However long it runs, the loop is not left from a block. -/
theorem foreachLoop_ne_some (rounds : Nat) {chain : List (DynArrayBlock β)} (block : chain ≠ [])
    (offset : Nat) (values : List (List β)) :
    array.foreachLoop n rounds chain offset ≠ .ok (some values) := by
  induction rounds generalizing chain offset values with
  | zero => simp [foreachLoop]
  | succ rounds ih =>
    obtain ⟨first, rest, rfl⟩ := List.exists_cons_of_ne_nil block
    intro ran
    rw [foreachLoop, isEnd, List.isEmpty_cons, Bool.false_and, if_neg Bool.false_ne_true] at ran
    obtain ⟨value, -, ran⟩ := Runs.bind_eq_ok.mp ran
    obtain ⟨next, moved, ran⟩ := Runs.bind_eq_ok.mp ran
    obtain ⟨others, ended, ran⟩ := Runs.bind_eq_ok.mp ran
    cases others with
    | none => cases ran
    | some others => exact ih (array.nextPtr_ne_nil moved) next.2 others ended

/-- A walk that ends found no block to begin with. -/
theorem foreach_ne_some (rounds : Nat) (values : List (List β)) :
    array.foreach n rounds ≠ .ok (some values) := by
  unfold foreach
  split
  case isTrue => simp
  case isFalse block =>
    have some : array.blocks ≠ [] := fun empty => block (List.isEmpty_iff.mpr empty)
    exact array.foreachLoop_ne_some n rounds some 0 values

end Walk

/-- No element size, block size and values make an array that holds them. -/
theorem array_never_holds (ofZero n blockSize : Nat) (junk : Nat → β) (values : List (List β)) :
    ¬ (dynArrayNew ofZero n blockSize junk).Holds junk n values := by
  rintro ⟨filled, -, -, rounds, walked⟩
  exact filled.foreach_ne_some n rounds values walked

/-- Two values of two bytes in a block of four: walking through them faults. -/
theorem two_values_fault :
    ¬ (dynArrayNew 31 2 4 fun _ => 0).Holds (fun _ => 0) 2 [[1, 2], [3, 4]] := by
  rintro ⟨filled, -, -, rounds, walked⟩
  exact filled.foreach_ne_some 2 rounds _ walked

end Horizon.DynArray
