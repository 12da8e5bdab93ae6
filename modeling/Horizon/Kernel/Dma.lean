import Horizon.Kernel.Iotlb
import Horizon.Kernel.PerCpu

/-!
# DMA mappings

`dma/device.rs` with the sources behind it: a buffer is handed to a device at its own address or
through a bounce buffer of the software IOTLB, or it is a coherent block. The page table and the
page allocator are given by their answers; copying data to a bounce buffer is left out. The build is
a debug build.
-/

namespace Horizon.Dma

open Memory Iotlb

/-- `MemoryError`, as far as the DMA layer returns it. -/
inductive MemoryError
  | outOfMemory
  | unavailableFrame
  | violateConstraint
  | invalidVirtualAddress (vaddr : Nat)
  | invalidPhysicalAddress (paddr : Nat)
  | invalidSize (size : Nat)
  | otherError
  deriving DecidableEq

/-- The panics of a mapping. -/
inductive DmaPanic
  | pool (panic : IotlbPanic)
  /-- `FrameOrder::from_size` of an empty or too large size. -/
  | order (panic : Option Panic)
  | overflow
  /-- `expect` on the first frame of a coherent block. -/
  | noFirstFrame

def liftPool {α : Type} : Except IotlbPanic α → Except DmaPanic α
  | .ok value => .ok value
  | .error panic => .error (.pool panic)

/-- `value & !mask`. -/
def andNot (value mask : Nat) : Nat := value ^^^ (value &&& mask)

/-- What a device can reach. -/
structure Constraints where
  mask : Nat
  coherentMask : Nat
  boundaryMask : Nat
  maxSegmentSize : Nat
  /-- Largest number of segments; zero is no limit. -/
  maxSegments : Nat
  deriving DecidableEq

variable (c : Constraints)

namespace Constraints

/-- `Constraints::is_coherent_satisfied`. -/
def isCoherentSatisfied (addr : Nat) : Bool := andNot addr c.coherentMask == 0

/-- `Constraints::crosses_boundary`. -/
def crossesBoundary (addr size : Nat) : Bool :=
  if c.boundaryMask = 0 ∨ size = 0 then false
  else if 2 ^ 64 ≤ addr + (size - 1) then true
  else andNot addr c.boundaryMask != andNot (addr + (size - 1)) c.boundaryMask

/-- `Constraints::exceeds_max_segment_size`. -/
def exceedsMaxSegmentSize (size : Nat) : Bool :=
  decide (0 < c.maxSegmentSize ∧ c.maxSegmentSize < size)

/-- The test of `map_sg` and `map_single`: the buffer is not handed out where it lies. -/
def needBounce (paddr size : Nat) : Bool :=
  andNot paddr c.mask != 0 || c.crossesBoundary paddr size || c.exceedsMaxSegmentSize size

end Constraints

/-- `PageCacheType`, as far as coherent blocks use it. -/
inductive PageCacheType
  | writeBack
  | uncached
  deriving DecidableEq

/-- `CoherentAllocator`: the zones tried and the cache type of its options. -/
structure CoherentAllocator where
  zones : List ZoneType
  cacheType : PageCacheType
  deriving DecidableEq

/-- `CoherentAllocator::new`. -/
def CoherentAllocator.new (c : Constraints) (coherency : Bool) : CoherentAllocator where
  zones := if ZoneType.mem32.rangeEnd * pageSize < c.coherentMask then [.linearMem, .mem32]
    else [.mem32]
  cacheType := if coherency then .writeBack else .uncached

/-- The implementations of `Mapping`. -/
inductive Backend
  | identity
  deriving DecidableEq

/-- `IdentityMapping::map`. -/
def Backend.map : Backend → Nat → Nat → Except MemoryError Nat
  | .identity, paddr, _ => .ok paddr

/-- `IdentityMapping::unmap`. -/
def Backend.unmap : Backend → Nat → Except MemoryError Unit
  | .identity, _ => .ok ()

/-- A device with what it maps through. -/
structure Device where
  constraints : Constraints
  backend : Backend
  coherency : Bool
  coherentAllocator : Option CoherentAllocator

/-- The memory that a mapping finds. -/
structure Layout where
  pool : BouncePool
  /-- `vaddr_base` of the pool. -/
  poolVaddr : Nat
  /-- `PageTableOps::translate` on the current root table. -/
  translate : Nat → Option Nat
  /-- The page allocator's answer for an order: the address of the pages, and that of their first
  frame. -/
  pages : CoherentAllocator → Nat → Except MemoryError (Nat × Option Nat)

/-- `Source`; the pools of small objects are left out. -/
inductive Source
  | coherent (size : Nat)
  | direct (paddr size : Nat)
  | softwareIotlb (paddr size : Nat)
  deriving DecidableEq

variable (pool : BouncePool)

/-- `BouncePool::contains`; the slots of the pool are those of its areas. -/
def poolContains (paddr : Nat) : Bool :=
  decide (pool.paddrBase ≤ paddr ∧
    paddr < pool.paddrBase + (pool.areas.map AreaInner.len).sum * slotSize)

/-- `software_iotlb::acquire`. -/
def acquireBounce (paddr size : Nat) : Except DmaPanic (Except MemoryError Nat × BouncePool) := do
  if 2 ^ 16 - 1 ≤ size then return (.error (.invalidSize size), pool)
  if c.mask = 0 then return (.error (.invalidSize 0), pool)
  match ← liftPool (pool.allocate size paddr (2 ^ trailingZeros c.mask)) with
  | (some addr, pool) => return (.ok addr, pool)
  | (none, pool) => return (.error .outOfMemory, pool)

variable (device : Device) (layout : Layout)

/-- `coherent::allocate`, with `CoherentAllocator::allocate`. A block that is refused is freed. -/
def allocateCoherent (size : Nat) : Except DmaPanic (Except MemoryError (Nat × Nat) × Device) := do
  if size = 0 then throw (.order none)
  match PerCpu.orderFromSize ⟨true⟩ size with
  | .error panic => throw (.order (some panic))
  | .ok order =>
    let allocator := device.coherentAllocator.getD
      (CoherentAllocator.new device.constraints device.coherency)
    let device := { device with coherentAllocator := some allocator }
    match layout.pages allocator order with
    | .error error => return (.error error, device)
    | .ok (_, none) => throw .noFirstFrame
    | .ok (vaddr, some paddr) =>
      if device.constraints.crossesBoundary paddr (2 ^ order * pageSize) then
        return (.error (.invalidVirtualAddress vaddr), device)
      else if !device.constraints.isCoherentSatisfied paddr then
        return (.error (.invalidVirtualAddress vaddr), device)
      else return (.ok (vaddr, paddr), device)

/-- `Source::acquire`: the address in the kernel, if the source has one, and the physical one. -/
def Source.acquire :
    Source → Except DmaPanic (Except MemoryError (Option Nat × Nat) × Device × BouncePool)
  | .coherent size => do
    let (answer, device) ← allocateCoherent device layout size
    return (answer.map fun block => (some block.1, block.2), device, layout.pool)
  | .direct paddr _ => .ok (.ok (none, paddr), device, layout.pool)
  | .softwareIotlb paddr size => do
    let (answer, pool) ← acquireBounce device.constraints layout.pool paddr size
    return (answer.map fun addr =>
      (some (layout.poolVaddr + (addr - layout.pool.paddrBase)), addr), device, pool)

/-- `Source::release` of a streaming mapping; what `kfree` does is left out. -/
def Source.release (paddr : Nat) : Source → Except DmaPanic (Except MemoryError Unit × BouncePool)
  | .coherent _ => .ok (.ok (), pool)
  | .direct _ _ => .ok (.ok (), pool)
  | .softwareIotlb _ _ =>
    if poolContains pool paddr then do
      let pool ← liftPool (pool.deallocate paddr)
      return (.ok (), pool)
    else .ok (.error (.invalidPhysicalAddress paddr), pool)

/-- `DmaHandle`; the direction is left out. -/
structure DmaHandle where
  source : Source
  vaddr : Nat
  paddr : Nat
  dmaAddr : Nat
  size : Nat

/-- `DmaHandle::new`. -/
def DmaHandle.new (device : Device) (layout : Layout) (source : Source) (vaddr : Option Nat)
    (size : Nat) : Except DmaPanic (Except MemoryError DmaHandle × Device × BouncePool) := do
  match ← source.acquire device layout with
  | (.error error, device, pool) => return (.error error, device, pool)
  | (.ok (acquired, paddr), device, pool) =>
    match acquired.or vaddr with
    | none => return (.error (.invalidVirtualAddress 0), device, pool)
    | some vaddr =>
      match device.backend.map paddr size with
      | .error error => return (.error error, device, pool)
      | .ok dmaAddr => return (.ok ⟨source, vaddr, paddr, dmaAddr, size⟩, device, pool)

def tryFromLinearVirt (vaddr : Nat) : Option Nat :=
  if Paging.klinearBase ≤ vaddr ∧ vaddr < Paging.klinearBase + Paging.klinearSize then
    some (vaddr - Paging.klinearBase)
  else none

/-- The loop of `direct::translate`: the pages from an address on follow each other in memory. -/
def contiguousLoop (translate : Nat → Option Nat) (base first stop : Nat) :
    Nat → Nat → Except DmaPanic (Option Nat)
  | 0, _ => .ok (some first)
  | left + 1, vaddr =>
    if vaddr < stop then
      match translate vaddr with
      | none => .ok none
      | some paddr =>
        if paddr < first then .error .overflow
        else if paddr - first ≠ vaddr - base then .ok none
        else contiguousLoop translate base first stop left
          (vaddr + min (pageSize - vaddr % pageSize) (stop - vaddr))
    else .ok (some first)

/-- `translate` of `direct.rs`. -/
def directTranslate (vaddr size : Nat) : Except DmaPanic (Option Nat) := do
  if 2 ^ 64 ≤ vaddr + size then throw .overflow
  match tryFromLinearVirt (vaddr + size), tryFromLinearVirt vaddr with
  | some _, some paddr => return some paddr
  | _, _ =>
    match layout.translate vaddr with
    | none => return none
    | some first => contiguousLoop layout.translate vaddr first (vaddr + size) size vaddr

namespace Device

/-- `Device::alloc_coherent`. -/
def allocCoherent (size : Nat) :
    Except DmaPanic (Except MemoryError DmaHandle × Device × BouncePool) :=
  DmaHandle.new device layout (.coherent size) none size

/-- `Device::map_single`. -/
def mapSingle (vaddr size : Nat) :
    Except DmaPanic (Except MemoryError DmaHandle × Device × BouncePool) := do
  let bounce := match layout.translate vaddr with
    | none => .ok (.error .unavailableFrame, device, layout.pool)
    | some paddr => DmaHandle.new device layout (.softwareIotlb paddr size) (some vaddr) size
  match ← directTranslate layout vaddr size with
  | some paddr =>
    if device.constraints.needBounce paddr size then bounce
    else DmaHandle.new device layout (.direct paddr size) (some vaddr) size
  | none => bounce

end Device

/-- `EntryType`; the segment a chain leads to is the rest of the list. -/
inductive EntryType
  | array (frame : Option Nat)
  | chain
  deriving DecidableEq

/-- `EntryList`, one entry; a list of them is in the order of `EntryIter`. -/
structure Entry where
  entryType : EntryType
  offset : Nat
  size : Nat
  dmaAddr : Nat
  deriving DecidableEq

namespace Entry

/-- `EntryList::is_empty`. -/
def isEmpty (entry : Entry) : Bool := entry.entryType == .array none

/-- `EntryList::phys_addr`. -/
def physAddr (entry : Entry) : Option Nat :=
  match entry.entryType with
  | .array (some frame) => some (frame * pageSize + entry.offset)
  | _ => none

/-- `EntryList::force_set_frame`. -/
def forceSetFrame (entry : Entry) (frame offset size : Nat) : Entry :=
  { entry with entryType := .array (some frame), offset := offset, size := size }

end Entry

namespace Device

/-- The loop of `unmap_sg`; the error is the first one. -/
def unmapSgLoop (device : Device) :
    BouncePool → List Entry → Except DmaPanic (Except MemoryError Unit × List Entry × BouncePool)
  | pool, [] => .ok (.ok (), [], pool)
  | pool, entry :: rest =>
    if entry.isEmpty ∨ entry.dmaAddr = 0 then do
      let (result, rest, pool) ← unmapSgLoop device pool rest
      return (result, entry :: rest, pool)
    else
      match device.backend.unmap entry.dmaAddr with
      | .error error => do
        let (_, rest, pool) ← unmapSgLoop device pool rest
        return (.error error, entry :: rest, pool)
      | .ok () => do
        let pool ← match entry.physAddr with
          | some paddr =>
            if poolContains pool paddr then liftPool (pool.deallocate paddr) else .ok pool
          | none => .ok pool
        let (result, rest, pool) ← unmapSgLoop device pool rest
        return (result, { entry with dmaAddr := 0 } :: rest, pool)

/-- `Device::unmap_sg`. -/
def unmapSg (pool : BouncePool) (entries : List Entry) (nEntries : Nat) :
    Except DmaPanic (Except MemoryError Unit × List Entry × BouncePool) := do
  let (result, unmapped, pool) ← device.unmapSgLoop pool (entries.take nEntries)
  return (result, unmapped ++ entries.drop nEntries, pool)

/-- The source `map_sg` takes for an entry. -/
def sgSource (paddr size : Nat) : Source :=
  if device.constraints.needBounce paddr size then .softwareIotlb paddr size
  else .direct paddr size

/-- The loop of `map_sg`: why it stopped early, the mapped entries counted, and what is left. -/
def mapSgLoop (device : Device) (layout : Layout) : Nat → BouncePool → List Entry →
    Except DmaPanic (Option MemoryError × Nat × List Entry × BouncePool)
  | mapped, pool, [] => .ok (none, mapped, [], pool)
  | mapped, pool, entry :: rest =>
    if entry.isEmpty then do
      let (stopped, mapped, rest, pool) ← mapSgLoop device layout mapped pool rest
      return (stopped, mapped, entry :: rest, pool)
    else if 0 < device.constraints.maxSegments ∧ device.constraints.maxSegments ≤ mapped then
      .ok (some .violateConstraint, mapped, entry :: rest, pool)
    else
      match entry.physAddr with
      | none => .ok (some .otherError, mapped, entry :: rest, pool)
      | some paddr =>
        if 2 ^ 64 ≤ paddr then .error .overflow
        else do
          let source := device.sgSource paddr entry.size
          match ← source.acquire device { layout with pool } with
          | (.error error, _, pool) => return (some error, mapped, entry :: rest, pool)
          | (.ok (_, dmaPaddr), _, pool) =>
            let entry := entry.forceSetFrame (dmaPaddr / pageSize) (dmaPaddr % pageSize) entry.size
            match device.backend.map dmaPaddr entry.size with
            | .error error =>
              let (_, pool) ← source.release pool dmaPaddr
              return (some error, mapped, entry :: rest, pool)
            | .ok dmaAddr =>
              let (stopped, mapped, rest, pool) ← mapSgLoop device layout (mapped + 1) pool rest
              return (stopped, mapped, { entry with dmaAddr } :: rest, pool)

/-- `map_sg`. An error undoes the entries at the front, as many as were mapped. -/
def mapSg (entries : List Entry) (nEntries : Nat) :
    Except DmaPanic (Except MemoryError Nat × List Entry × BouncePool) := do
  let (stopped, mapped, done, pool) ←
    device.mapSgLoop layout 0 layout.pool (entries.take nEntries)
  let entries := done ++ entries.drop nEntries
  match stopped with
  | none => return (.ok mapped, entries, pool)
  | some error =>
    match ← device.unmapSg pool entries mapped with
    | (.error error, entries, pool) => return (.error error, entries, pool)
    | (.ok (), entries, pool) => return (.error error, entries, pool)

end Device

end Horizon.Dma
