import Horizon.Kernel.Frame

/-!
# Bitmap allocator

`bitmap.rs`: one map tells which units are allocated, a second one marks the first unit of each
allocation and the unit after its last. An index past the end of a map is a panic. Sizes are byte
counts below `2 ^ 32`; with the capacities that fit the word count, no sum below reaches `2 ^ 32`.
-/

namespace Horizon.BitmapAlloc

open Memory

/-- `MemoryError`, as far as the bitmap and its users return it. -/
inductive MemoryError
  | violateConstraint
  | invalidSize (size : Nat)
  | outOfMemory
  | invalidAllocationOffset (offset : Nat)
  | notInitialized
  deriving DecidableEq

/-- `core::alloc::Layout`: the alignment is a power of two. -/
structure Layout where
  size : Nat
  align : Nat
  powerOfTwo : align.isPowerOfTwo

def wordBits : Nat := 64

def maxAllocSize : Nat := 16 * 1024

def cachelineSize : Nat := 64

def divCeil (value step : Nat) : Nat := (value + step - 1) / step

def nextMultipleOf (value step : Nat) : Nat := divCeil value step * step

/-- `word_count`. -/
def wordCount (bits : Nat) : Nat := divCeil bits wordBits

/-- A position: the word, and the bit in it. -/
structure BitIndex where
  index : Nat
  bit : Nat
  deriving DecidableEq

/-- `BitIndex::new`. -/
def BitIndex.new (position : Nat) : BitIndex := ⟨position / wordBits, position % wordBits⟩

/-- `BitIndex::position`. -/
def BitIndex.position (bitIndex : BitIndex) : Nat := bitIndex.index * wordBits + bitIndex.bit

/-- `(usize::MAX >> (WORD_BITS - len)) << bit`. -/
def mask (bit len : Nat) : BitVec 64 := (BitVec.allOnes 64 >>> (wordBits - len)) <<< bit

/-- The words and masks that the `while remaining > 0` loops of `test`, `mark_allocated` and
`mark_free` go through. Each round takes at least one bit. -/
def maskWords : Nat → Nat → Nat → Nat → List (Nat × BitVec 64)
  | 0, _, _, _ => []
  | rounds + 1, remaining, bit, index =>
    if remaining = 0 then []
    else
      let len := min remaining (wordBits - bit)
      (index, mask bit len) :: maskWords rounds (remaining - len) 0 (index + 1)

/-- The masks of `len` bits from a position on. -/
def masksFrom (bitIndex : BitIndex) (len : Nat) : List (Nat × BitVec 64) :=
  maskWords len len bitIndex.bit bitIndex.index

/-- `AllocMap`: two maps of the same number of words. -/
structure AllocMap where
  words : Nat
  allocMap : Nat → BitVec 64
  boundMap : Nat → BitVec 64

variable (map : AllocMap)

namespace AllocMap

def checkIndex (index : Nat) : Except Panic Unit :=
  if index < map.words then .ok () else .error .indexOutOfBounds

/-- `AllocMap::test`: every bit is clear. The loop returns at the first word that has one set. -/
def test (bitIndex : BitIndex) (len : Nat) : Except Panic Bool :=
  (masksFrom bitIndex len).allM fun (index, mask) => do
    map.checkIndex index
    return map.allocMap index &&& mask == 0

/-- One round of the loop of `mark_allocated`. -/
def markWord (entry : Nat × BitVec 64) : Except Panic AllocMap := do
  map.checkIndex entry.1
  return { map with
    allocMap := Function.update map.allocMap entry.1 (map.allocMap entry.1 ||| entry.2)
    boundMap := Function.update map.boundMap entry.1 (map.boundMap entry.1 &&& ~~~entry.2) }

/-- `bound_map[index] |= 1 << bit`. -/
def setBound (index bit : Nat) : Except Panic AllocMap := do
  map.checkIndex index
  return { map with
    boundMap := Function.update map.boundMap index (map.boundMap index ||| (1#64 <<< bit)) }

/-- `AllocMap::mark_allocated`. -/
def markAllocated (bitIndex : BitIndex) (len : Nat) : Except Panic AllocMap := do
  let map ← (masksFrom bitIndex len).foldlM markWord map
  let map ← map.setBound bitIndex.index bitIndex.bit
  let stop := bitIndex.bit + len
  map.setBound (bitIndex.index + stop / wordBits) (stop % wordBits)

/-- One round of the loop of `mark_free`. -/
def freeWord (entry : Nat × BitVec 64) : Except Panic AllocMap := do
  map.checkIndex entry.1
  return { map with
    allocMap := Function.update map.allocMap entry.1 (map.allocMap entry.1 &&& ~~~entry.2) }

/-- `AllocMap::mark_free`. -/
def markFree (start stop : BitIndex) : Except Panic AllocMap :=
  (masksFrom start (stop.position - start.position)).foldlM freeWord map

def lowestOne (word : BitVec 64) : Option Nat := (List.range wordBits).find? word.getLsbD

/-- The loop of `find_boundary`; the first argument bounds the words read. -/
def scanBoundary (map : AllocMap) : Nat → Nat → BitVec 64 → Except Panic BitIndex
  | 0, _, _ => .error .loopBound
  | rounds + 1, index, word =>
    match lowestOne word with
    | some bit => .ok ⟨index, bit⟩
    | none => do
      map.checkIndex (index + 1)
      scanBoundary map rounds (index + 1) (map.boundMap (index + 1))

/-- `AllocMap::find_boundary`. -/
def findBoundary (start : BitIndex) : Except Panic BitIndex := do
  let bit := (start.bit + 1) % wordBits
  let index := start.index + (start.bit + 1) / wordBits
  map.checkIndex index
  map.scanBoundary (map.words + 1) index (map.boundMap index &&& (BitVec.allOnes 64 <<< bit))

/-- The loop of `AllocMap::allocate`; `start` grows in every round, which the capacity bounds. -/
def allocateLoop (unitSize units unitAlign capacityUnits : Nat) :
    Nat → AllocMap → Nat → Nat → Except Panic (Except MemoryError Nat × AllocMap × Nat)
  | 0, _, _, _ => .error .loopBound
  | rounds + 1, map, firstFree, start =>
    if start + units ≤ capacityUnits then do
      let bitIndex := BitIndex.new start
      if ← map.test bitIndex units then
        let map ← map.markAllocated bitIndex units
        let firstFree := if start = firstFree then start + units else firstFree
        return (.ok (start * unitSize), map, firstFree)
      else
        allocateLoop unitSize units unitAlign capacityUnits rounds map firstFree
          (nextMultipleOf (start + units) unitAlign)
    else
      .ok (.error .outOfMemory, map, firstFree)

/-- `AllocMap::allocate`. -/
def allocate (unitSize : Nat) (layout : Layout) (capacity firstFree : Nat) :
    Except Panic (Except MemoryError Nat × AllocMap × Nat) :=
  if layout.size = 0 ∨ maxAllocSize < layout.size then
    .ok (.error (.invalidSize layout.size), map, firstFree)
  else
    let units := divCeil layout.size unitSize
    let align := max layout.align unitSize
    if cachelineSize < align then .ok (.error .violateConstraint, map, firstFree)
    else
      let unitAlign := align / unitSize
      let capacityUnits := capacity / unitSize
      allocateLoop unitSize units unitAlign capacityUnits (capacityUnits + 1) map firstFree
        (nextMultipleOf firstFree unitAlign)

/-- `AllocMap::deallocate`. -/
def deallocate (unitSize unit firstFree : Nat) :
    Except Panic (Except MemoryError Unit × AllocMap × Nat) := do
  let start := BitIndex.new unit
  map.checkIndex start.index
  if map.allocMap start.index &&& (1#64 <<< start.bit) = 0 ∨
      map.boundMap start.index &&& (1#64 <<< start.bit) = 0 then
    return (.error (.invalidAllocationOffset (unit * unitSize)), map, firstFree)
  else
    let stop ← map.findBoundary start
    let map ← map.markFree start stop
    return (.ok (), map, min firstFree unit)

end AllocMap

/-- `Bitmap<UNIT_SIZE>`; `alloc_words` is the word count of the maps. -/
structure Bitmap where
  unitSize : Nat
  /-- `array`, split into its two maps. -/
  map : AllocMap
  size : Nat
  firstFree : Nat

namespace Bitmap

/-- `Bitmap::try_new`; the last argument says whether the heap gave the array. -/
def tryNew (unitSize size : Nat) (heap : Bool) : Except MemoryError Bitmap :=
  if ¬ unitSize.isPowerOfTwo ∨ cachelineSize < unitSize then .error .violateConstraint
  else if size = 0 ∨ size % unitSize ≠ 0 then .error (.invalidSize size)
  else if heap then
    let words := wordCount (size / unitSize + 1) % 2 ^ 16
    .ok ⟨unitSize, ⟨words, fun _ => 0, fun _ => 0⟩, size, 0⟩
  else .error .outOfMemory

/-- `Bitmap::allocate`. -/
def allocate (bitmap : Bitmap) (layout : Layout) :
    Except Panic (Except MemoryError Nat × Bitmap) := do
  let (result, map, firstFree) ←
    bitmap.map.allocate bitmap.unitSize layout bitmap.size bitmap.firstFree
  return (result, { bitmap with map, firstFree })

/-- `Bitmap::deallocate`. -/
def deallocate (bitmap : Bitmap) (offset : Nat) :
    Except Panic (Except MemoryError Unit × Bitmap) := do
  if bitmap.size ≤ offset ∨ offset % bitmap.unitSize ≠ 0 then
    return (.error (.invalidAllocationOffset offset), bitmap)
  else
    let (result, map, firstFree) ←
      bitmap.map.deallocate bitmap.unitSize (offset / bitmap.unitSize) bitmap.firstFree
    return (result, { bitmap with map, firstFree })

end Bitmap

end Horizon.BitmapAlloc
