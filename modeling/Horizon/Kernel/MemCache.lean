import Horizon.Kernel.Slub

/-!
# Caches of slabs

`MemCache` with its active slot and the partial list of its node, cut where other processors can
come in between: the atomic exchanges of the slot and the critical sections. `allocate` and `kfree`
are also given as whole calls. A slab is named by the frame number of its block; addresses are
offsets into the linear mapping.
-/

namespace Horizon.Slub

open Memory

/-- `MemCache` and its `MemCacheNode`, with the slabs and the frame records they point to. -/
structure MemCache where
  config : CacheConfig
  slot : Option Nat
  /-- `PartialList::list_head`. -/
  partials : List Nat
  count : Nat
  slabs : Nat → SlubInner
  frames : Vmemmap

def blockBase (block : Nat) : Nat := block * pageSize

variable (cache : MemCache)

namespace MemCache

/-- `swap(null_mut())` on the slot. -/
def swapSlot : Option Nat × MemCache :=
  (cache.slot, { cache with slot := none })

/-- `compare_exchange(null_mut(), slub)` on the slot; the error is what the slot holds. -/
def compareExchange (slab : Nat) : Except Nat MemCache :=
  match cache.slot with
  | none => .ok { cache with slot := some slab }
  | some current => .error current

/-- The test of `store`: every object is in use. -/
def isFull (slab : Nat) : Bool :=
  (cache.slabs slab).inuse == cache.config.objectNum

/-- `Slub::allocate` on one slab, for the cache at the given address. -/
def allocateFrom (memCache slab : Nat) : Option Nat × MemCache :=
  let (result, inner) := (cache.slabs slab).allocate memCache
  (result, { cache with slabs := Function.update cache.slabs slab inner })

/-- `Slub::deallocate` on one slab. -/
def deallocateIn (slab object : Nat) : MemCache :=
  { cache with slabs := Function.update cache.slabs slab ((cache.slabs slab).deallocate object) }

/-- The critical section of `PartialList::get`. -/
def getPartial : Option Nat × MemCache :=
  match cache.partials with
  | [] => (none, cache)
  | slab :: rest => (some slab, { cache with partials := rest, count := cache.count - 1 })

/-- `Slub::new` on a block of the buddy allocator: the tails are tagged by the allocation, the
head becomes a slab. -/
def newSlab (block : Nat) (mem : Nat → Nat) : MemCache :=
  let frames := cache.frames.replace block .anonymous (.anonymous cache.config.frameOrder)
  let frames := UniqueFrames.setTailFrames frames ⟨block, cache.config.frameOrder⟩
  { cache with
    slabs := Function.update cache.slabs block (SlubInner.new cache.config (blockBase block) mem)
    frames := frames.replace block .slub .slub }

/-- `Slub::try_destroy`: the record becomes anonymous, and nothing else happens to the block. -/
def tryDestroy (slab : Nat) : Option MemCache :=
  if slab ∈ cache.partials then none
  else if (cache.slabs slab).isDestroyable then
    some { cache with
      frames := cache.frames.replace slab .anonymous (.anonymous cache.config.frameOrder) }
  else none

/-- The end of `PartialList::put`: linking a linked node panics. -/
def addPartial (slab : Nat) : Except Panic MemCache :=
  if slab ∈ cache.partials then .error .listNodeLinked
  else .ok { cache with partials := cache.partials ++ [slab], count := cache.count + 1 }

/-- `PartialList::put`. -/
def put (slab : Nat) : Except Panic MemCache :=
  if cache.config.minPartial ≤ cache.count ∧ (cache.slabs slab).inuse = 0 then
    match cache.tryDestroy slab with
    | some destroyed => .ok destroyed
    | none => cache.addPartial slab
  else cache.addPartial slab

/-- `MemCache::store`: a full slab is dropped; what a failed exchange returns is put on the partial
list. -/
def store (cache : MemCache) (slab : Nat) : Except Panic MemCache :=
  if cache.isFull slab then .ok cache
  else
    match cache.compareExchange slab with
    | .ok stored => .ok stored
    | .error current => cache.put current

/-- `MemCacheNode::get`; the block and its contents are what the buddy allocator would return. -/
def get (block : Option (Nat × (Nat → Nat))) : Option Nat × MemCache :=
  match cache.getPartial with
  | (some slab, cache) => (some slab, cache)
  | (none, cache) =>
    match block with
    | some (block, mem) => (some block, cache.newSlab block mem)
    | none => (none, cache)

/-- The second half of `MemCache::allocate`: take a slab from the node. -/
def allocateFromNode (memCache : Nat) (block : Option (Nat × (Nat → Nat))) :
    Except Panic (Option Nat × MemCache) := do
  match cache.get block with
  | (none, cache) => return (none, cache)
  | (some slab, cache) =>
    let (result, cache) := cache.allocateFrom memCache slab
    let cache ← cache.store slab
    return (result, cache)

/-- `MemCache::allocate`. -/
def allocate (memCache : Nat) (block : Option (Nat × (Nat → Nat))) :
    Except Panic (Option Nat × MemCache) := do
  match cache.swapSlot with
  | (none, cache) => cache.allocateFromNode memCache block
  | (some slab, cache) =>
    let (result, cache) := cache.allocateFrom memCache slab
    let cache ← cache.store slab
    match result with
    | some object => return (some object, cache)
    | none => cache.allocateFromNode memCache block

/-- The slab that `kfree` finds for an address. Pages and other blocks are not the cache's. -/
def slabOf (frames : Vmemmap) (address : Nat) : Except Panic (Option Nat) :=
  let frame := address / pageSize
  match (frames frame).tag with
  | .slub => .ok (some frame)
  | .tail => do
    let range ← (frames frame).data.getRange
    if (frames range.start).tag = .slub then return some range.start else throw .unwrapFailed
  | _ => .ok none

/-- `kfree`. -/
def kfree (address : Nat) : Except Panic MemCache := do
  match ← slabOf cache.frames address with
  | some slab => return cache.deallocateIn slab address
  | none => return cache

end MemCache

end Horizon.Slub
