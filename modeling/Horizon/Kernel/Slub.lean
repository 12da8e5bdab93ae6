import Horizon.Kernel.Frame

/-!
# Slabs

`CacheConfig` with the size computations of `slub.rs`, and `SlubInner`: the free objects of a slab
are chained through their own first words, and the word that heads the chain is a union with the
pointer to the cache. Objects are at least sixteen bytes apart, so the memory is given by the word
stored at each object.
-/

namespace Horizon.Slub

open Memory

/-- `SlubError`, with the two `expect`s of `calculate_sizes`. -/
inductive SlubError
  | tooMuchWaste (waste size : Nat)
  | tooLargeSize (size : Nat)
  | zeroSize
  | noObject
  deriving DecidableEq

def minObjectSize : Nat := 8

def maxObjectSize : Nat := 4096

def maxFrameOrder : Nat := 3

def minAlign : Nat := 16

def cachelineSize : Nat := 64

def minPartialLimit : Nat := 5

def maxPartialLimit : Nat := 10

def clamp (value low high : Nat) : Nat := max low (min value high)

def nextMultipleOf (value step : Nat) : Nat := (value + step - 1) / step * step

def nextPowerOfTwo (value : Nat) : Nat := 2 ^ Nat.clog 2 value

def slabSize (order : Nat) : Nat := pageSize * 2 ^ order

/-- `calculate_alignment`. -/
def calculateAlignment (size align : Nat) : Nat :=
  clamp (max (nextPowerOfTwo (align - 1)) (2 ^ trailingZeros size)) minAlign cachelineSize

/-- The inner loop of `calculate_order`: the first order that wastes less than the fraction. -/
def orderFor (size fraction : Nat) : Option Nat :=
  (List.range maxFrameOrder).find? fun order =>
    decide (slabSize order % size < slabSize order / fraction)

/-- `calculate_order`. -/
def calculateOrder (objectSize : Nat) : Except SlubError Nat :=
  let size := clamp (nextMultipleOf objectSize 8) minObjectSize maxObjectSize
  match [16, 8, 4, 2].findSome? (orderFor size) with
  | some order => .ok order
  | none =>
    if size ≤ maxObjectSize then .error (.tooMuchWaste (slabSize maxFrameOrder % size) size)
    else .error (.tooLargeSize size)

/-- The fields of `CacheConfig` that `calculate_sizes` fills in, and `min_partial`. -/
structure CacheConfig where
  objectSize : Nat
  objectNum : Nat
  frameOrder : Nat
  align : Nat
  /-- Slabs that the partial list keeps even when they are empty. -/
  minPartial : Nat
  deriving DecidableEq

/-- `calculate_sizes`. -/
def calculateSizes (size align : Nat) : Except SlubError (Nat × Nat × Nat × Nat) := do
  let align := calculateAlignment size align
  let objectSize := nextMultipleOf size align % 2 ^ 16
  if objectSize = 0 then throw .zeroSize
  let order ← calculateOrder objectSize
  let objectNum := slabSize order / objectSize % 2 ^ 16
  if objectNum = 0 then throw .noObject
  return (objectSize, objectNum, order, align)

/-- `CacheConfig::new`. -/
def CacheConfig.new (originSize : Nat) : Except SlubError CacheConfig := do
  let (objectSize, objectNum, order, align) ← calculateSizes originSize minAlign
  let minPartial := clamp (Nat.log2 objectSize / 2) minPartialLimit maxPartialLimit
  return ⟨objectSize, objectNum, order, align, minPartial⟩

/-- `CacheConfig::align`. -/
def CacheConfig.withAlign (config : CacheConfig) (align : Nat) : Except SlubError CacheConfig := do
  let (objectSize, objectNum, order, align) ←
    calculateSizes config.objectSize (max align minAlign)
  return { config with objectSize, objectNum, frameOrder := order, align }

/-- The errors that stand for an `expect` of `calculate_sizes`. -/
def SlubError.panics : SlubError → Bool
  | .zeroSize | .noObject => true
  | .tooMuchWaste _ _ | .tooLargeSize _ => false

/-- What a call of `mem_cache_create` comes to. -/
inductive Created
  | null
  | cache (config : CacheConfig)
  | panicked
  deriving DecidableEq

/-- `mem_cache_create_c`. The two allocations of `MemCache::new` are given by whether both find
memory. `next_power_of_two` panics when the power does not fit a `usize`. -/
def memCacheCreate (objectSize align : Nat) (memory : Bool) : Created :=
  if objectSize = 0 then .null
  else
    match CacheConfig.new objectSize with
    | .error error => if error.panics then .panicked else .null
    | .ok config =>
      if 2 ^ 64 ≤ nextPowerOfTwo (max align minAlign - 1) then .panicked
      else
        match config.withAlign align with
        -- `CacheConfig::align` unwraps.
        | .error _ => .panicked
        | .ok config => if memory then .cache config else .null

/-- The words at the objects of a slab, the union `ptr` and `inuse`. -/
structure SlubInner where
  mem : Nat → Nat
  /-- `SlubPtr`: the first free object or the cache. -/
  ptr : Nat
  inuse : Nat

namespace SlubInner

/-- `SlubInner::allocate`. With no free object the cache is written over the empty chain. -/
def allocate (slab : SlubInner) (memCache : Nat) : Option Nat × SlubInner :=
  if slab.ptr = 0 then (none, { slab with ptr := memCache })
  else (some slab.ptr, { slab with ptr := slab.mem slab.ptr, inuse := slab.inuse + 1 })

/-- `SlubInner::deallocate`. -/
def deallocate (slab : SlubInner) (object : Nat) : SlubInner where
  mem := Function.update slab.mem object slab.ptr
  ptr := object
  inuse := slab.inuse - 1

/-- `SlubInner::is_destroyable`. -/
def isDestroyable (slab : SlubInner) : Bool := slab.inuse == 0

end SlubInner

/-- The loop of `FreeNode::init` and the write after it; the first argument counts the objects that
follow the current one. -/
def initLoop (objectSize : Nat) : Nat → Nat → (Nat → Nat) → (Nat → Nat)
  | 0, current, mem => Function.update mem current 0
  | left + 1, current, mem =>
    initLoop objectSize left (current + objectSize)
      (Function.update mem current (current + objectSize))

/-- `Slub::new` on a block that starts at the given address with the given contents. -/
def SlubInner.new (config : CacheConfig) (base : Nat) (mem : Nat → Nat) : SlubInner where
  mem := initLoop config.objectSize (config.objectNum - 1) base mem
  ptr := base
  inuse := 0

end Horizon.Slub
