import Mathlib.Order.Nat
import Mathlib.Tactic.Common

/-!
# The MADT and its entries

`acpi/tables/madt.rs`: the iterator over the interrupt controller structures behind the fixed part
of the table. The bytes are those from the start of the table on, with what lies behind it.
-/

namespace Horizon.Acpi

/-- The table as bytes, with the length that its header gives. -/
structure Madt where
  length : Nat
  byte : Nat → Nat

/-- `size_of::<Madt>()`: the header of 36 bytes and two fields of four. -/
def fixedSize : Nat := 44

/-- `InterruptController`, as far as the iterator tells them apart, with the place of the entry. -/
inductive InterruptController
  | localApic (place : Nat)
  | ioApic (place : Nat)
  | interruptSourceOverride (place : Nat)
  | unknown (place : Nat)
  deriving DecidableEq

/-- `iter_entries`: first and last place; the subtraction panics on underflow. -/
def Madt.iterEntries (madt : Madt) : Option (Nat × Nat) :=
  if madt.length < fixedSize then none
  else some (fixedSize, fixedSize + (madt.length - fixedSize))

/-- `MadtEntryIter::next`: the entry and the next place. -/
def Madt.next (madt : Madt) (stop place : Nat) : Option (InterruptController × Nat) :=
  if stop ≤ place then none
  else
    let entry := match madt.byte place with
      | 0 => .localApic place
      | 1 => .ioApic place
      | 2 => .interruptSourceOverride place
      | _ => .unknown place
    some (entry, place + madt.byte (place + 1))

/-- The entries the iterator hands out from a place on, if it ends within so many calls. -/
def Madt.collect (madt : Madt) (stop : Nat) : Nat → Nat → Option (List InterruptController)
  | 0, _ => none
  | calls + 1, place =>
    match madt.next stop place with
    | none => some []
    | some (entry, place) => (madt.collect stop calls place).map (entry :: ·)

end Horizon.Acpi
