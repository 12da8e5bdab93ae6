import Horizon.Kernel.Bitmap
import Horizon.Kernel.PageTable
import Horizon.Kernel.Slub

/-!
# Per-CPU memory

`percpu/`: one block of frames is cut into a unit for each CPU. A unit starts with a copy of the
static template, and the rest of all units is managed by one bitmap: an offset of the bitmap stands
for one object in every unit. Addresses are machine words.
-/

namespace Horizon.PerCpu

open Memory BitmapAlloc

/-- The panics of the per-CPU areas. -/
inductive PerCpuPanic
  /-- A panic of the bitmap or of the frame layer. -/
  | inner (panic : Panic)
  /-- `try_to_virt().unwrap()`: the block is outside the linear map. -/
  | notLinear
  | overflow
  /-- `expect` on the delta of a CPU in `Drop`. -/
  | unitInvalid
  /-- `expect` on `deallocate` in `Drop`. -/
  | bitmapCorrupt
  deriving DecidableEq

def allocUnit : Nat := 8

def dynamicTargetSize : Nat := 28 * 1024

def nrCpusMax : Nat := 256

def addressSpace : Nat := 2 ^ 64

/-- `PercpuArea` with its only chunk. -/
structure PercpuArea where
  percpuStart : Nat
  templateSize : Nat
  base : Nat
  bitmap : Bitmap
  dynamicStart : Nat
  count : Nat
  unitSize : Nat

/-- `FrameOrder::from_size`, with the debug assertion of `from_count_ceil`. -/
def orderFromSize (build : Build) (size : Nat) : Except Panic Nat := do
  let count := divCeil size pageSize
  debugAssert build (decide (count < 2 ^ maxOrder * 2)) .orderTooLarge
  let order := Nat.clog 2 count
  debugAssert build (decide (order ≤ maxOrder)) .orderTooLarge
  return order

/-- `dynamic_start`, in `try_percpu_init` and in `PercpuArea::try_new`. -/
def dynamicStartOf (templateSize : Nat) : Nat := nextMultipleOf templateSize cachelineSize

/-- `allocate_backing`; the last argument is the block the frame manager would return. It has none
above the largest order. -/
def allocateBacking (build : Build) (nrCpus dynamicStart : Nat) (block : Option Nat) :
    Except PerCpuPanic (Except MemoryError (Nat × Nat)) :=
  let targetUnitSize := Slub.nextPowerOfTwo (dynamicStart + dynamicTargetSize)
  match orderFromSize build (targetUnitSize * nrCpus) with
  | .error panic => .error (.inner panic)
  | .ok order =>
    match block with
    | some frame => if order ≤ maxOrder then .ok (.ok (frame, order)) else .ok (.error .outOfMemory)
    | none => .ok (.error .outOfMemory)

/-- `PerCpuChunk::try_new`: the bitmap of the dynamic part of a unit. -/
def chunkBitmap (dynamicStart unitSize : Nat) (heap : Bool) :
    Except PerCpuPanic (Except MemoryError Bitmap) :=
  if unitSize < dynamicStart then .error .overflow
  else .ok (Bitmap.tryNew allocUnit ((unitSize - dynamicStart) % 2 ^ 32) heap)

/-- `PercpuArea::try_new` on the block of the given order. -/
def PercpuArea.tryNew (percpuStart templateSize frame order count : Nat) (heap : Bool) :
    Except PerCpuPanic (Except MemoryError PercpuArea) := do
  if count = 0 then return .error .violateConstraint
  if Paging.klinearSize ≤ frame * pageSize then throw .notLinear
  let dynamicStart := dynamicStartOf templateSize
  let unitSize := pageSize * 2 ^ order / count / cachelineSize * cachelineSize
  match ← chunkBitmap dynamicStart unitSize heap with
  | .error error => return .error error
  | .ok bitmap =>
    return .ok ⟨percpuStart, templateSize, Paging.klinearBase + frame * pageSize, bitmap,
      dynamicStart, count, unitSize⟩

/-- `try_percpu_init`. -/
def tryPercpuInit (build : Build) (percpuStart templateSize nrCpus : Nat) (block : Option Nat)
    (heap : Bool) : Except PerCpuPanic (Except MemoryError PercpuArea) := do
  if nrCpus = 0 ∨ nrCpusMax < nrCpus then return .error .violateConstraint
  match ← allocateBacking build nrCpus (dynamicStartOf templateSize) block with
  | .error error => return .error error
  | .ok (frame, order) => PercpuArea.tryNew percpuStart templateSize frame order nrCpus heap

variable (area : PercpuArea)

namespace PercpuArea

/-- `PercpuArea::index`, without its assertion on the CPU. -/
def index (cpu : Nat) : Nat := area.base + cpu * area.unitSize

/-- `PERCPU_DELTAS`: `ArchCpuLocal::delta_for` of the unit. -/
def delta (cpu : Nat) : Nat :=
  (area.index cpu + (addressSpace - area.percpuStart)) % addressSpace

/-- `percpu_delta`. -/
def percpuDelta (cpu : Nat) : Except MemoryError Nat :=
  if area.count ≤ cpu ∨ nrCpusMax ≤ cpu then .error .violateConstraint
  else if area.delta cpu = 0 then .error .violateConstraint
  else .ok (area.delta cpu)

/-- `PerCpuDynHandle::new`. -/
def newHandle (position : Nat) : Except PerCpuPanic Nat :=
  if addressSpace ≤ area.percpuStart + position then .error .overflow
  else .ok (area.percpuStart + position)

/-- `ArchCpuLocal::get_ptr_dyn_for`: the instance of an object for a CPU. -/
def instanceAddress (handle cpu : Nat) : Nat :=
  (handle + area.delta cpu) % addressSpace

/-- `PercpuArea::allocate`. -/
def allocate (area : PercpuArea) (layout : Layout) :
    Except PerCpuPanic (Except MemoryError Nat × PercpuArea) :=
  match area.bitmap.allocate layout with
  | .error panic => .error (.inner panic)
  | .ok (.error error, bitmap) => .ok (.error error, { area with bitmap })
  | .ok (.ok position, bitmap) => do
    let handle ← area.newHandle (area.dynamicStart + position)
    return (.ok handle, { area with bitmap })

/-- `PercpuArea::deallocate`. -/
def deallocate (area : PercpuArea) (handle : Nat) :
    Except PerCpuPanic (Except MemoryError Unit × PercpuArea) :=
  if handle - area.percpuStart < area.dynamicStart then .error .overflow
  else
    match area.bitmap.deallocate (handle - area.percpuStart - area.dynamicStart) with
    | .error panic => .error (.inner panic)
    | .ok (result, bitmap) => .ok (result, { area with bitmap })

def unitsValid : Bool :=
  (List.range area.count).all fun cpu => (area.percpuDelta cpu).isOk

/-- `PerCpuDyn::drop`. -/
def drop (handle : Nat) : Except PerCpuPanic PercpuArea :=
  if area.unitsValid then do
    match ← area.deallocate handle with
    | (.ok (), area) => return area
    | (.error _, _) => throw .bitmapCorrupt
  else throw .unitInvalid

/-- `PerCpuDyn::try_new_with`, up to the values written. When a CPU has no delta the new object is
dropped, and `drop` panics for the same reason. -/
def tryNewWith (layout : Layout) : Except PerCpuPanic (Except MemoryError Nat × PercpuArea) := do
  match ← area.allocate layout with
  | (.error error, area) => return (.error error, area)
  | (.ok handle, area) =>
    if area.unitsValid then return (.ok handle, area) else throw .unitInvalid

end PercpuArea

end Horizon.PerCpu
