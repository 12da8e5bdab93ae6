import Mathlib

/-!
# CPU registry

`kernel/topology/mod.rs`: the registry of the CPUs is filled from the firmware's list, with the boot
CPU at the first place. It has as many entries as the list and is uninitialised at first; an
allocation that fails does not return.
-/

namespace Horizon.Topology

/-- An index beyond the registry. -/
inductive RegistryPanic
  | indexOutOfBounds
  deriving DecidableEq

/-- The kernel's number of a CPU. -/
structure CpuId where
  id : UInt32
  deriving DecidableEq

/-- The number of a CPU in the hardware. -/
structure CpuHardwareId where
  id : UInt32
  deriving DecidableEq

/-- A CPU with both of its numbers. -/
structure Cpu where
  id : CpuId
  hardwareId : CpuHardwareId
  deriving DecidableEq

variable {T : Type}

/-- `registry[slot].write(cpu)`. -/
def write (registry : List (Option Cpu)) (slot : Nat) (cpu : Cpu) :
    Except RegistryPanic (List (Option Cpu)) :=
  if slot < registry.length then .ok (registry.set slot (some cpu)) else .error .indexOutOfBounds

/-- The loop of `register` from an index on, over the CPUs from there on. -/
def registerLoop (bsp : CpuHardwareId) (f : T → CpuHardwareId) :
    Nat → List T → List (Option Cpu) → Except RegistryPanic (List (Option Cpu))
  | _, [], registry => .ok registry
  | i, cpu :: rest, registry => do
    let hardwareId := f cpu
    let registry ←
      if hardwareId = bsp then write registry 0 ⟨⟨0⟩, hardwareId⟩
      else write registry (i + 1) ⟨⟨UInt32.ofNat (i + 1)⟩, hardwareId⟩
    registerLoop bsp f (i + 1) rest registry

/-- `CpuRegistry::register`: the entries before `assume_init`. -/
def register (cpus : List T) (bsp : CpuHardwareId) (f : T → CpuHardwareId) :
    Except RegistryPanic (List (Option Cpu)) :=
  registerLoop bsp f 0 cpus (List.replicate cpus.length none)

end Horizon.Topology
