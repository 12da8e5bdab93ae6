import Horizon.Kernel.Madt

/-!
# Walking the MADT

The iterator is right exactly when the table is not shorter than its fixed part, no entry it comes
to has length zero, and each one's structure ends inside the table.
-/

namespace Horizon.Acpi

/-- Place and size of what is read of an entry: its structure, or for an unknown one the two bytes
of the head. -/
def InterruptController.extent : InterruptController → Nat × Nat
  | localApic place => (place, 8)
  | ioApic place => (place, 12)
  | interruptSourceOverride place => (place, 10)
  | unknown place => (place, 2)

def Madt.entryPlace (madt : Madt) : Nat → Nat
  | 0 => fixedSize
  | n + 1 => madt.entryPlace n + madt.byte (madt.entryPlace n + 1)

def structureSize : Nat → Nat
  | 0 => 8
  | 1 => 12
  | 2 => 10
  | _ => 2

namespace Madt

variable (madt : Madt)

/-- The iteration ends, and no entry goes beyond the table. -/
def Safe : Prop :=
  ∃ start stop calls entries, madt.iterEntries = some (start, stop) ∧
    madt.collect stop calls start = some entries ∧
    ∀ entry ∈ entries, entry.extent.1 + entry.extent.2 ≤ madt.length

variable {madt}

variable {n place stop : Nat}

theorem next_eq (before : place < stop) : ∃ entry,
    madt.next stop place = some (entry, place + madt.byte (place + 1)) ∧
      entry.extent = (place, structureSize (madt.byte place)) := by
  rw [next, if_neg (not_le.mpr before)]
  refine ⟨_, rfl, ?_⟩
  generalize madt.byte place = kind
  match kind with
  | 0 | 1 | 2 | _ + 3 => rfl

theorem collect_none (before : place < stop) (empty : madt.byte (place + 1) = 0) (calls : Nat) :
    madt.collect stop calls place = none := by
  induction calls with
  | zero => rfl
  | succ calls ih =>
    obtain ⟨entry, step, -⟩ := madt.next_eq before
    rw [collect, step, empty, Nat.add_zero]
    simp only [ih, Option.map_none]

/-- The entry at a place has a length and lies before `stop`. -/
def Fits (madt : Madt) (stop place : Nat) : Prop :=
  madt.byte (place + 1) ≠ 0 ∧ place + structureSize (madt.byte place) ≤ stop

theorem collect_of_fits
    (fits : ∀ k, n ≤ k → madt.entryPlace k < stop → madt.Fits stop (madt.entryPlace k))
    (calls : Nat) (enough : stop - madt.entryPlace n < calls) :
    ∃ entries, madt.collect stop calls (madt.entryPlace n) = some entries ∧
      ∀ entry ∈ entries, entry.extent.1 + entry.extent.2 ≤ stop := by
  induction calls generalizing n with
  | zero => omega
  | succ calls ih =>
    by_cases before : madt.entryPlace n < stop
    · obtain ⟨entry, step, extent⟩ := next_eq before
      obtain ⟨long, inside⟩ := fits n le_rfl before
      have shorter : stop - madt.entryPlace (n + 1) < calls := by
        rw [entryPlace]
        omega
      obtain ⟨entries, later, within⟩ := ih (fun k above => fits k (by omega)) shorter
      rw [entryPlace] at later
      refine ⟨entry :: entries, by rw [collect, step]; simp only [later, Option.map_some], ?_⟩
      simpa [extent] using ⟨inside, within⟩
    · exact ⟨[], by rw [collect, next, if_pos (not_lt.mp before)], by simp⟩

theorem entryPlace_le (n k : Nat) : madt.entryPlace n ≤ madt.entryPlace (n + k) := by
  induction k with
  | zero => exact le_rfl
  | succ k ih => exact Nat.le_trans ih (Nat.le_add_right _ _)

theorem fits_of_collect (calls : Nat) {entries : List InterruptController}
    (ran : madt.collect stop calls (madt.entryPlace n) = some entries)
    (within : ∀ entry ∈ entries, entry.extent.1 + entry.extent.2 ≤ stop) (k : Nat)
    (before : madt.entryPlace (n + k) < stop) : madt.Fits stop (madt.entryPlace (n + k)) := by
  induction calls generalizing n k entries with
  | zero => cases ran
  | succ calls ih =>
    have here := Nat.lt_of_le_of_lt (entryPlace_le n k) before
    obtain ⟨entry, step, extent⟩ := next_eq here
    have long : madt.byte (madt.entryPlace n + 1) ≠ 0 := fun empty => by
      cases (collect_none here empty _).symm.trans ran
    rw [collect, step] at ran
    obtain ⟨later, rest, rfl⟩ := Option.map_eq_some_iff.mp ran
    cases k with
    | zero =>
      have inside := within entry (by simp)
      rw [extent] at inside
      exact ⟨long, inside⟩
    | succ k =>
      rw [Nat.add_comm k, ← Nat.add_assoc] at before ⊢
      rw [← entryPlace] at rest
      exact ih rest (fun entry member => within entry (by simp [member])) k before

/-- Iterating a MADT ends and stays inside it, if and only if its length covers the fixed part and
every entry that is come to has a length other than zero and a structure inside the table. -/
theorem safe_iff : madt.Safe ↔ fixedSize ≤ madt.length ∧
    ∀ n, madt.entryPlace n < madt.length → madt.Fits madt.length (madt.entryPlace n) := by
  constructor
  · rintro ⟨start, stop, calls, entries, begun, ran, within⟩
    rw [iterEntries] at begun
    split at begun
    case isTrue => cases begun
    case isFalse long =>
      cases begun
      rw [Nat.add_sub_cancel' (not_lt.mp long)] at ran
      refine ⟨not_lt.mp long, fun n before => ?_⟩
      have fits := fits_of_collect (n := 0) calls ran within n
      rw [Nat.zero_add] at fits
      exact fits before
  · rintro ⟨long, fits⟩
    obtain ⟨entries, ran, within⟩ := collect_of_fits (n := 0) (fun k _ => fits k) _
      (Nat.lt_succ_self _)
    refine ⟨fixedSize, madt.length, _, entries, ?_, ran, within⟩
    rw [iterEntries, if_neg (not_lt.mpr long), Nat.add_sub_cancel' long]

end Madt

def emptyEntry : Madt := ⟨46, fun _ => 0⟩

/-- The iterator stays at an entry of length zero. -/
theorem emptyEntry_not_safe : ¬ emptyEntry.Safe := by
  rintro ⟨start, stop, calls, entries, begun, ran, -⟩
  cases begun
  cases (Madt.collect_none (by decide) rfl calls).symm.trans ran

end Horizon.Acpi
