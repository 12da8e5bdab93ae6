import Horizon.Kernel.Bitmap

/-!
# Software IOTLB

`dma/source/software_iotlb.rs`: bounce buffers are runs of slots. The slots are split into areas,
and every free slot stores how many free slots follow it, itself included. The kernel has
`totalAreas` areas of `slotsPerArea` slots.
-/

namespace Horizon.Iotlb

open Function BitmapAlloc

/-- The assertions, checks and loops that do not return. -/
inductive IotlbPanic
  | indexOutOfBounds
  /-- `expect` on the remaining size in `mark_allocated`. -/
  | originSizeTooSmall
  | overflow
  | divideByZero
  /-- The loop of `find_consecutive_free` does not end. -/
  | endlessLoop
  deriving DecidableEq

def slotSize : Nat := 2048

def maxAllocSlots : Nat := 128

def totalAreas : Nat := 4

def slotsPerArea : Nat := 256

/-- `SlotMeta`; `_allocation_head` is never read. -/
structure SlotMeta where
  originAddr : Nat
  originSize : Nat
  /-- Free slots from this one on; `None` when allocated. -/
  nSlots : Option Nat
  /-- Slots of padding, in the head of an allocation. -/
  paddingSlots : Nat
  deriving DecidableEq

/-- `SlotMeta::is_free`. -/
def SlotMeta.isFree (slot : SlotMeta) : Bool := slot.nSlots.isSome

/-- An area of the pool, from the slot `slotOffset` on. -/
structure AreaInner where
  used : Nat
  index : Nat
  slotOffset : Nat
  len : Nat
  slots : Nat → SlotMeta

variable (area : AreaInner)

namespace AreaInner

/-- The loop of `find_consecutive_free`. The rounds depend on the position only, so a search that
has not ended after two turns does not end. -/
def findLoop (area : AreaInner) (nSlots alignSlots start : Nat) :
    Nat → Nat → Except IotlbPanic (Option (Nat × Nat))
  | 0, _ => .error .endlessLoop
  | rounds + 1, i =>
    if area.len ≤ i then .error .indexOutOfBounds
    else
      match (area.slots i).nSlots with
      | some available =>
        if alignSlots = 0 then .error .divideByZero
        else
          let offset := i % alignSlots
          if nSlots + offset ≤ available then
            .ok (some ((alignSlots - offset) % alignSlots % 2 ^ 16, i))
          else if i < start ∧ start ≤ i + available then .ok none
          else findLoop area nSlots alignSlots start rounds ((i + available) % area.len)
      | none =>
        if i < start ∧ start ≤ i + 1 then .ok none
        else findLoop area nSlots alignSlots start rounds ((i + 1) % area.len)

/-- `AreaInner::find_consecutive_free`. -/
def findConsecutiveFree (nSlots alignSlots : Nat) : Except IotlbPanic (Option (Nat × Nat)) :=
  area.findLoop nSlots alignSlots area.index (2 * area.len + 1) area.index

/-- The loop of `mark_allocated` over the slots after the head. -/
def markTail (slots : Nat → SlotMeta) (originAddr originSize : Nat) :
    Nat → Nat → Except IotlbPanic (Nat → SlotMeta)
  | 0, _ => .ok slots
  | left + 1, i =>
    if originSize < slotSize then .error .originSizeTooSmall
    else
      let originAddr := originAddr + slotSize
      let originSize := originSize - slotSize
      markTail (update slots i ⟨originAddr, originSize, none, 0⟩) originAddr originSize
        left (i + 1)

/-- The loop of `mark_allocated` over the slots before the head, downwards: it ends at the first
free slot and writes a count into the others. -/
def markBefore (head : Nat) : Nat → (Nat → SlotMeta) → (Nat → SlotMeta)
  | 0, slots => slots
  | j + 1, slots =>
    if (slots j).isFree then slots
    else markBefore head j
      (update slots j { slots j with nSlots := some (head - j) })

/-- `AreaInner::mark_allocated`. -/
def markAllocated (i nSlots originSize originAddr paddingSlots : Nat) :
    Except IotlbPanic AreaInner := do
  if area.len ≤ i then throw .indexOutOfBounds
  let slots := update area.slots i ⟨originAddr, originSize, none, paddingSlots⟩
  -- The range `i + 1..i + n` of the slots.
  if nSlots = 0 ∨ area.len < i + nSlots then throw .indexOutOfBounds
  let slots ← markTail slots originAddr originSize (nSlots - 1) (i + 1)
  let slots := markBefore i i slots
  if 2 ^ 16 ≤ area.used + nSlots then throw .overflow
  return { area with
    slots := slots
    used := area.used + nSlots
    index := if i + nSlots < area.len then i + nSlots else 0 }

/-- `AreaInner::try_alloc`. -/
def tryAlloc (nSlots originSize originAddr alignSlots : Nat) :
    Except IotlbPanic (Option Nat × AreaInner) := do
  match ← area.findConsecutiveFree nSlots alignSlots with
  | none => return (none, area)
  | some (padding, i) =>
    let area ← area.markAllocated i nSlots originSize originAddr padding
    return (some i, area)

/-- The first loop of `expand_free_region`: back to the first free slot before. -/
def expandStart (slots : Nat → SlotMeta) : Nat → Nat
  | 0 => 0
  | start + 1 => if (slots start).isFree then expandStart slots start else start + 1

/-- `AreaInner::expand_free_region`. -/
def expandFreeRegion (index nSlots : Nat) : Nat × Nat :=
  let stop := index + nSlots
  (expandStart area.slots index,
    if stop < area.len ∧ (area.slots stop).isFree then stop + ((area.slots stop).nSlots).getD 0
    else stop)

/-- The loop of `free_slots` that writes the counts of a region, downwards from its end. -/
def writeCounts (len start stop : Nat) : Nat → (Nat → SlotMeta) → Except IotlbPanic (Nat → SlotMeta)
  | 0, slots => .ok slots
  | left + 1, slots =>
    if len ≤ start + left then .error .indexOutOfBounds
    else writeCounts len start stop left (update slots (start + left)
      { slots (start + left) with nSlots := some ((stop - (start + left)) % 2 ^ 16) })

/-- `AreaInner::free_slots`. -/
def freeSlots (i : Nat) : Except IotlbPanic AreaInner := do
  if area.len ≤ i then throw .indexOutOfBounds
  let slot := area.slots i
  let nSlots := slot.paddingSlots + divCeil slot.originSize slotSize
  let area := { area with slots := update area.slots i ⟨0, 0, some 1, 0⟩ }
  let (start, stop) := area.expandFreeRegion i nSlots
  let slots ← writeCounts area.len start stop (stop - start) area.slots
  if area.used < nSlots % 2 ^ 16 then throw .overflow
  return { area with slots := slots, used := area.used - nSlots % 2 ^ 16, index := start }

end AreaInner

/-- `BouncePool`; the virtual base is left out. -/
structure BouncePool where
  paddrBase : Nat
  areas : List AreaInner

namespace BouncePool

/-- The loop of `allocate` over the areas. The areas passed are put back in front. -/
def allocateIn (nSlots originSize originAddr alignSlots : Nat) :
    List AreaInner → Except IotlbPanic (Option Nat × List AreaInner)
  | [] => .ok (none, [])
  | area :: rest => do
    match ← area.tryAlloc nSlots originSize originAddr alignSlots with
    | (some i, after) => return (some (after.slotOffset + i), after :: rest)
    | (none, after) =>
      let (found, rest) ← allocateIn nSlots originSize originAddr alignSlots rest
      return (found, after :: rest)

/-- `BouncePool::allocate`: the address of the first slot. -/
def allocate (pool : BouncePool) (originSize originAddr align : Nat) :
    Except IotlbPanic (Option Nat × BouncePool) := do
  let nSlots := divCeil originSize slotSize % 2 ^ 16
  if maxAllocSlots < nSlots then return (none, pool)
  -- The product of `lcm`.
  if 2 ^ 64 ≤ align * slotSize then throw .overflow
  let alignSlots := align * slotSize / Nat.gcd align slotSize / slotSize
  let (found, areas) ← allocateIn nSlots originSize originAddr alignSlots pool.areas
  return (found.map fun index => pool.paddrBase + index * slotSize, { pool with areas })

/-- The loop of `deallocate` over the areas. -/
def deallocateIn (index : Nat) : List AreaInner → Except IotlbPanic (List AreaInner)
  | [] => .ok []
  | area :: rest => do
    if area.slotOffset ≤ index ∧ index < area.slotOffset + area.len then
      let after ← area.freeSlots (index - area.slotOffset)
      return after :: rest
    else
      let rest ← deallocateIn index rest
      return area :: rest

/-- `BouncePool::deallocate`. -/
def deallocate (pool : BouncePool) (addr : Nat) : Except IotlbPanic BouncePool := do
  let areas ← deallocateIn ((addr - pool.paddrBase) / slotSize) pool.areas
  return { pool with areas }

/-- `init`, for a number of areas with a number of slots each: the counts run to the end of the
pool. -/
def init (paddrBase areas slotsPerArea : Nat) : BouncePool where
  paddrBase := paddrBase
  areas := (List.range areas).map fun i =>
    ⟨0, 0, i * slotsPerArea, slotsPerArea,
      fun k => ⟨0, 0, some (areas * slotsPerArea - (i * slotsPerArea + k)), 0⟩⟩

end BouncePool

end Horizon.Iotlb
