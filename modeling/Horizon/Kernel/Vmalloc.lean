import Horizon.Kernel.Vmemmap

/-!
# Mapped allocations

`vmalloc` and `ioremap` reserve a range of pages and fill it with blocks of frames, the largest
first. `vmalloc` takes blocks from the buddy allocator and goes to smaller ones when it has none;
`ioremap` assigns the frames of a device. Only the path of `try_alloc` they take is here: not
contiguous, without retries and without clearing. Of an allocation that fails only the error is
modelled.
-/

namespace Horizon.Memory

open Paging (PageCacheType PageFlags)

def vmallocBase : Nat := 0xFFFFD00000000000

def vmallocSize : Nat := 0x200000000000

def vmallocEnd : Nat := vmallocBase + vmallocSize

/-- `VmRange`: pages from `start` to `end`, both included. -/
structure VmRange where
  start : Nat
  /-- The source's `end`. -/
  stop : Nat
  deriving DecidableEq

/-- `VmRange::get_count`. -/
def VmRange.getCount (range : VmRange) : Nat := range.stop - range.start + 1

/-- `VmapNode`, without its links. -/
structure VmapNode where
  range : VmRange
  frameCount : Nat
  deriving DecidableEq

/-- `VmapNode::fixed`. -/
def VmapNode.fixed (start count : Nat) : VmapNode := ⟨⟨start, start + count - 1⟩, 0⟩

/-- `DynPages`, with the blocks whose handles `DynPages::map` has forgotten: they belong to the
mapping. -/
structure DynPages where
  node : VmapNode
  frames : List UniqueFrames
  deriving DecidableEq

/-- What `get_vmap()` gives: the first page of a free range of the given length, if there is one.
None of its pages is mapped. -/
structure VmapSource where
  reserve : Nat → Option Nat

/-- `Vmap::allocate`. -/
def VmapSource.allocate (vmap : VmapSource) (count : Nat) : Except MemoryError DynPages :=
  match vmap.reserve count with
  | none => .error .outOfMemory
  | some start => .ok ⟨VmapNode.fixed start count, []⟩

/-- Frames from anywhere, or fixed ones. -/
inductive FrameAllocType
  | dynamic (order : Nat)
  | fixed (start order : Nat)
  deriving DecidableEq

/-- `FrameAllocOptions`; `retry` is `FastFail` in both functions. -/
structure FrameAllocOptions where
  allocType : FrameAllocType
  fallback : List ZoneType
  deriving DecidableEq

/-- `PageAllocOptions`; `retry` is `FastFail`, `contiguous` and `zeroed` are `false`. -/
structure PageAllocOptions where
  /-- Pages, if they are not given by the order. -/
  count : Option Nat
  frame : FrameAllocOptions
  cacheType : PageCacheType
  deriving DecidableEq

/-- `FrameOrder::new`. -/
def frameOrderNew (order : Nat) : Except Fault Nat :=
  if order ≤ maxOrder then .ok order else .error (.frame .orderTooLarge)

namespace FrameAllocOptions

/-- `FrameAllocOptions::new`. -/
def new : FrameAllocOptions := ⟨.dynamic 0, [.linearMem, .mem32]⟩

/-- `FrameAllocOptions::fallback`: the given zones take the places at the head of the chain. -/
def withFallback (options : FrameAllocOptions) (zones : List ZoneType) : FrameAllocOptions :=
  { options with fallback := zones.take 2 ++ options.fallback.drop zones.length }

/-- `FrameAllocOptions::dynamic`. -/
def dynamic (options : FrameAllocOptions) (order : Nat) : FrameAllocOptions :=
  { options with allocType := .dynamic order }

/-- `FrameAllocOptions::fixed`. -/
def fixed (options : FrameAllocOptions) (start order : Nat) : FrameAllocOptions :=
  { options with allocType := .fixed start order }

/-- `FrameAllocOptions::get_order`. -/
def getOrder (options : FrameAllocOptions) : Nat :=
  match options.allocType with
  | .dynamic order => order
  | .fixed _ order => order

end FrameAllocOptions

/-- `FrameAllocType::allocate`. -/
def FrameAllocType.allocate (root rounds : Nat) (zone : ZoneType) (s : FrameMemory) :
    FrameAllocType → Except Fault (Except MemoryError (UniqueFrames × ZoneType) × FrameMemory)
  | .dynamic order => do
    match ← onFrames (s.buddy.allocate devBuild zone order) with
    | (some frames, buddy) => return (.ok (frames, zone), { s with buddy })
    | (none, buddy) => return (.error .outOfMemory, { s with buddy })
  | .fixed start order => do
    match ← assign root rounds start order s with
    | (.error error, s) => return (.error error, s)
    | (.ok frames, s) =>
      let zone ← onFrames (ZoneType.fromFrame start)
      return (.ok (frames, zone), s)

/-- The loop of `FrameAllocOptions::try_alloc`. -/
def tryZones (root rounds : Nat) (allocType : FrameAllocType) : List ZoneType → FrameMemory →
      Except Fault (Except MemoryError (UniqueFrames × ZoneType) × FrameMemory)
  | [], s => .ok (.error .outOfFrames, s)
  | zone :: zones, s => do
    match ← allocType.allocate root rounds zone s with
    | (.ok frames, s) => return (.ok frames, s)
    | (.error _, s) => tryZones root rounds allocType zones s

/-- `FrameAllocOptions::allocate`. -/
def FrameAllocOptions.allocate (options : FrameAllocOptions) (root rounds : Nat) (s : FrameMemory) :
    Except Fault (Except MemoryError (UniqueFrames × ZoneType) × FrameMemory) :=
  tryZones root rounds options.allocType options.fallback s

namespace PageAllocOptions

/-- `PageAllocOptions::new` with `contiguous(false)`. -/
def new (frame : FrameAllocOptions) : PageAllocOptions := ⟨none, frame, .writeBack⟩

/-- `PageAllocOptions::mmio`. -/
def mmio (start count : Nat) (cacheType : PageCacheType) : PageAllocOptions :=
  { new ((FrameAllocOptions.new.withFallback [.mem32]).fixed start 0) with
    count := some count
    cacheType := cacheType }

/-- `PageAllocOptions::order`. -/
def order (options : PageAllocOptions) (order : Nat) : PageAllocOptions :=
  { options with
    count := none
    frame :=
      match options.frame.allocType with
      | .dynamic _ => options.frame.dynamic order
      | .fixed start _ => options.frame.fixed start order }

/-- `PageAllocOptions::get_count`. -/
def getCount (options : PageAllocOptions) : Nat :=
  options.count.getD (toCount options.frame.getOrder)

end PageAllocOptions

/-- `DynPages::map`. -/
def DynPages.map (pages : DynPages) (root : Nat) (frames : UniqueFrames) (cacheType : PageCacheType)
    (s : FrameMemory) : Except Fault (Except MemoryError (DynPages × FrameMemory)) := do
  let offset := pages.node.frameCount
  let flags := { PageFlags.new with cacheType := cacheType }
  match ← onPages (Paging.map s.tables root (pages.node.range.start + offset) frames.start
      frames.order flags) with
  | (.error error, _) => return .error (.pageTable error)
  | (.ok (), tables) =>
    let node := { pages.node with frameCount := offset + toCount frames.order }
    return .ok (⟨node, pages.frames ++ [frames]⟩, { s with tables })

/-- The variables of the loop of `alloc_discontiguous`. -/
structure AllocLoop where
  option : PageAllocOptions
  order : Nat
  remaining : Nat
  pages : DynPages
  memory : FrameMemory

namespace AllocLoop

/-- The request of a round: the largest order that fits, but none above the last one. -/
def request (s : AllocLoop) : Except Fault (PageAllocOptions × Nat) := do
  let fitting ← frameOrderNew (Nat.log2 s.remaining)
  let order := min s.order fitting
  return (s.option.order order, order)

/-- The options after a block: a fixed range goes on behind it. -/
def advance (option : PageAllocOptions) : PageAllocOptions :=
  match option.frame.allocType with
  | .dynamic _ => option
  | .fixed start order => { option with frame := option.frame.fixed (start + toCount order) order }

/-- A round of the loop of `alloc_discontiguous`. -/
def step (root rounds : Nat) (cacheType : PageCacheType) (s : AllocLoop) :
    Except Fault (Except MemoryError (Option AllocLoop)) := do
  let (option, order) ← s.request
  match ← option.frame.allocate root rounds s.memory with
  | (.ok (frames, _), memory) =>
    let tag := (memory.buddy.frames frames.start).tag
    if tag = .anonymous ∨ tag = .assignedFixed then
      match ← s.pages.map root frames cacheType memory with
      | .error error => return .error error
      | .ok (pages, memory) =>
        return .ok (some ⟨advance option, order, s.remaining - toCount order, pages, memory⟩)
    else throw .unexpectedTag
  | (.error _, memory) =>
    if order = 0 then return .ok none
    else return .ok (some { s with option, order := order - 1, memory })

/-- The loop. Every round takes from the order or from the remaining pages, so their sum bounds the
rounds. -/
def run (root rounds : Nat) (cacheType : PageCacheType) :
    Nat → AllocLoop → Except Fault (Except MemoryError (DynPages × FrameMemory))
  | 0, _ => .error (.frame .loopBound)
  | turns + 1, s =>
    if 0 < s.remaining then do
      match ← s.step root rounds cacheType with
      | .error error => return .error error
      | .ok none => return .error .outOfMemory
      | .ok (some s) => run root rounds cacheType turns s
    else .ok (.ok (s.pages, s.memory))

end AllocLoop

/-- `PageAllocOptions::alloc_discontiguous`. -/
def PageAllocOptions.allocDiscontiguous (options : PageAllocOptions) (root rounds : Nat)
    (pages : DynPages) (s : FrameMemory) :
    Except Fault (Except MemoryError (DynPages × FrameMemory)) :=
  AllocLoop.run root rounds options.cacheType (options.getCount + maxOrder + 1)
    ⟨options, maxOrder, options.getCount, pages, s⟩

/-- `PageAllocOptions::allocate`. -/
def PageAllocOptions.allocate (options : PageAllocOptions) (root rounds : Nat) (vmap : VmapSource)
    (s : FrameMemory) : Except Fault (Except MemoryError (DynPages × FrameMemory)) :=
  match vmap.allocate options.getCount with
  | .error error => .ok (.error error)
  | .ok pages => options.allocDiscontiguous root rounds pages s

/-- `DynPages::frame_count`. -/
def frameCount (size : Nat) : Nat := (size + (pageSize - 1)) / pageSize

/-- `ioremap`. -/
def ioremap (root rounds : Nat) (vmap : VmapSource) (addr size : Nat) (cacheType : PageCacheType)
    (s : FrameMemory) : Except Fault (Except MemoryError (DynPages × FrameMemory)) :=
  let start := addr / pageSize
  let count := frameCount size
  if count = 0 then .ok (.error (.invalidSize size))
  else (PageAllocOptions.mmio start count cacheType).allocate root rounds vmap s

/-- `vmalloc`, with the pages behind the pointer it returns. -/
def vmalloc (root rounds : Nat) (vmap : VmapSource) (size : Nat) (cacheType : PageCacheType)
    (s : FrameMemory) : Except Fault (Except MemoryError (DynPages × FrameMemory)) :=
  let count := frameCount size
  if count = 0 then .ok (.error (.invalidSize size))
  else do
    let order ← frameOrderNew (Nat.log2 count)
    let frame := (FrameAllocOptions.new.withFallback [.mem32]).dynamic order
    let options := { PageAllocOptions.new frame with cacheType := cacheType }
    options.allocate root rounds vmap s

end Horizon.Memory
