import Horizon.Kernel.Frame

/-!
# The buddy allocator

`BuddyAllocator` keeps one intrusive free list for each zone and order. The state is the vmemmap
area, those lists as lists of frame numbers, and the counter of allocated pages. The per-zone
spinlocks are held for the whole of each call, so a call is one step.
-/

namespace Horizon.Memory

/-- `FrameError`, as far as the allocator returns it. -/
inductive FrameError
  | incorrectFrameType
  deriving DecidableEq

/-- The allocator and the metadata it works on. -/
structure BuddyState where
  frames : Vmemmap
  /-- `Zone::free_frames`, each list from head to tail. -/
  freeFrames : ZoneType → Nat → List Nat
  allocatedPages : Nat

variable (build : Build) (s : BuddyState) (zone : ZoneType)

namespace BuddyState

/-- `AtomicUsize::fetch_add` on `ALLOCATED_PAGES`. -/
def fetchAdd (count : Nat) : BuddyState :=
  { s with allocatedPages := (s.allocatedPages + count) % 2 ^ 64 }

/-- `AtomicUsize::fetch_sub` on `ALLOCATED_PAGES`. -/
def fetchSub (count : Nat) : BuddyState :=
  { s with allocatedPages := (s.allocatedPages + (2 ^ 64 - count)) % 2 ^ 64 }

/-- `Zone::get_free_list`: the array has `MAX_ORDER + 1` lists. -/
def getFreeList (order : Nat) : Except Panic (List Nat) :=
  if order ≤ maxOrder then .ok (s.freeFrames zone order) else .error .indexOutOfBounds

def setFreeList (order : Nat) (list : List Nat) : BuddyState :=
  let lists := Function.update (s.freeFrames zone) order list
  { s with freeFrames := Function.update s.freeFrames zone lists }

def replace (s : BuddyState) (frame : Nat) (tag : FrameTag) (data : FrameData) : BuddyState :=
  { s with frames := s.frames.replace frame tag data }

/-- `Buddy::new(order, zone).replace_frame(frame)`: a fresh, unlinked buddy record. -/
def replaceBuddy (frame order : Nat) (zone : ZoneType) : BuddyState :=
  s.replace frame .buddy (.buddy ⟨false, order, zone⟩)

/-- `ListHead::add_head` or `ListHead::add_tail` of a buddy record; `place` puts the frame into the
list. The node must not be linked yet. -/
def add (place : Nat → List Nat → List Nat) (s : BuddyState) (zone : ZoneType)
    (order frame : Nat) : Except Panic BuddyState := do
  let list ← s.getFreeList zone order
  let buddy ← s.frames.buddy frame
  if buddy.linked then throw .listNodeLinked
  return { s with frames := s.frames.setBuddy frame { buddy with linked := true } }.setFreeList
    zone order (place frame list)

def addHead : BuddyState → ZoneType → Nat → Nat → Except Panic BuddyState :=
  add fun frame list => frame :: list

def addTail : BuddyState → ZoneType → Nat → Nat → Except Panic BuddyState :=
  add fun frame list => list ++ [frame]

/-- `ListHead::delete` of a buddy record. -/
def delete (order frame : Nat) : Except Panic BuddyState := do
  let list ← s.getFreeList zone order
  let buddy ← s.frames.buddy frame
  if !buddy.linked then throw .listNodeUnlinked
  return { s with frames := s.frames.setBuddy frame { buddy with linked := false } }.setFreeList
    zone order (list.erase frame)

/-- The loop of `BuddyAllocator::split`, on the current `split_order`. -/
def splitLoop (build : Build) (zone : ZoneType) (target : Nat) :
    Nat → UniqueFrames → BuddyState → Except Panic (UniqueFrames × BuddyState)
  | 0, frame, s => .ok (frame, s)
  | splitOrder + 1, frame, s =>
    if target < splitOrder + 1 then do
      let (frame, next) ← frame.split build
      match (s.frames next.start).tag with
      | .buddy => throw .splitAlreadyBuddy
      | .tail | .uninited =>
        let s := s.replaceBuddy next.start splitOrder zone
        let s ← s.addTail zone splitOrder next.start
        splitLoop build zone target splitOrder frame s
      | _ => throw .splitNotBuddy
    else .ok (frame, s)

/-- `BuddyAllocator::split`. -/
def split (order target : Nat) (frame : UniqueFrames)
    (s : BuddyState) : Except Panic (UniqueFrames × BuddyState) := do
  let (frame, s) ← splitLoop build zone target order frame s
  let buddy ← s.frames.buddy frame.start
  return (frame, { s with frames := s.frames.setBuddy frame.start { buddy with order := target } })

/-- `BuddyAllocator::merge_exact`. -/
def mergeExact (left right : UniqueFrames) : Except Panic BuddyState := do
  let buddy ← s.frames.buddy left.start
  let newOrder := buddy.order + 1
  let frames := s.frames.setBuddy left.start { buddy with order := newOrder }
  let s := { s with frames := frames.setTag right.start .uninited }
  s.addHead buddy.zoneType newOrder left.start

/-- `BuddyAllocator::merge_once`. The inner result is the source's: the merged block, or the block
that was given. -/
def mergeOnce (frame : UniqueFrames) (currentOrder : Nat)
    (range : Nat × Nat) : Except Panic (Except UniqueFrames UniqueFrames × BuddyState) := do
  let newOrder := currentOrder + 1
  let count := toCount newOrder
  let low := alignDown frame.start newOrder
  let high := low + count
  if low < range.1 ∨ range.2 < high then
    return (.error frame, s)
  let isLow := low = frame.start
  let buddy ← getRaw (if isLow then high else low)
  match ← UniqueFrames.fromAllocator build s.frames buddy currentOrder with
  | none => return (.error frame, s)
  | some buddy =>
    let pair := if isLow then (frame, buddy) else (buddy, frame)
    if UniqueFrames.mergeable s.frames pair.1 pair.2 then
      let s ← s.mergeExact pair.1 pair.2
      return (.ok pair.1, s)
    else
      return (.error (if isLow then pair.1 else pair.2), s)

/-- The `while` loop of `deallocate`, with a bound on the rounds. The source changes neither `order`
nor `max_order` in it. -/
def mergeLoop (build : Build) (order limit : Nat) (range : Nat × Nat) :
    Nat → UniqueFrames → BuddyState → Except Panic (UniqueFrames × BuddyState)
  | 0, _, _ => .error .loopBound
  | rounds + 1, frame, s =>
    if order < limit then do
      match ← s.mergeOnce build frame order range with
      | (.ok success, s) => mergeLoop build order limit range rounds success s
      | (.error failed, s) => return (failed, s)
    else return (frame, s)

/-- `BuddyAllocator::add_to_free_list`. -/
def addToFreeList (frame order : Nat) (zone : ZoneType) :
    Except Panic (Except FrameError Unit × BuddyState) :=
  if (s.frames frame).tag = .buddy then do
    let s ← s.addHead zone order frame
    return (.ok (), s)
  else return (.error .incorrectFrameType, s)

/-- The call of `split` in `allocate`, made only for a block larger than the request. -/
def splitLarger (order target : Nat) (frame : UniqueFrames)
    (s : BuddyState) : Except Panic (UniqueFrames × BuddyState) :=
  if order ≠ target then s.split build zone order target frame else .ok (frame, s)

/-- The body of `allocate` once a block of `order` heads its list. -/
def takeBlock (target order frame : Nat) (s : BuddyState) :
    Except Panic (UniqueFrames × BuddyState) := do
  let s ← s.delete zone order frame
  let some owned ← UniqueFrames.fromAllocator build s.frames frame order
    | throw .unwrapFailed
  let (owned, s) ← s.splitLarger build zone order target owned
  let s := s.replace owned.start .anonymous (.anonymous target)
  let s := { s with frames := owned.setTailFrames s.frames }
  return (owned, s.fetchAdd (toCount target))

/-- The `while order <= MAX_ORDER` loop of `allocate`; the first argument counts the orders left. -/
def allocateLoop (build : Build) (zone : ZoneType) (target : Nat) (s : BuddyState) :
    Nat → Nat → Except Panic (Option UniqueFrames × BuddyState)
  | 0, _ => .ok (none, s)
  | left + 1, order => do
    match ← s.getFreeList zone order with
    | [] => allocateLoop build zone target s left (order + 1)
    | frame :: _ =>
      let (owned, s) ← s.takeBlock build zone target order frame
      return (some owned, s)

/-- `BuddyAllocator::allocate`. -/
def allocate (order : Nat) : Except Panic (Option UniqueFrames × BuddyState) :=
  allocateLoop build zone order s (maxOrder + 1 - order) order

/-- The bound given to the merge loop of `deallocate`; any positive bound gives the same result. -/
def mergeRounds : Nat := maxOrder + 1

/-- `BuddyAllocator::deallocate`, on the frame number of the record. -/
def deallocate (frame : Nat) : Except Panic (Except FrameError Unit × BuddyState) := do
  let zone ← ZoneType.fromFrame frame
  if (s.frames frame).tag ≠ .anonymous then
    return (.error .incorrectFrameType, s)
  let order ← (s.frames frame).data.getAnonymousOrder
  let s := s.replaceBuddy frame order zone
  let some owned ← UniqueFrames.fromAllocator build s.frames frame order
    | throw .unwrapFailed
  let s := s.fetchSub (toCount order)
  let limit := min (trailingZeros owned.start) maxOrder
  let (owned, s) ← mergeLoop build order limit (zone.rangeStart, zone.rangeEnd) mergeRounds owned s
  s.addToFreeList owned.start order zone

end BuddyState

/-- The zone that the seeding is in, with its bounds. -/
structure ZoneState where
  currentIndex : Nat
  zoneStart : Nat
  zoneEnd : Nat
  deriving DecidableEq

namespace ZoneState

/-- `ZoneState::new`: the zone of index zero. -/
def new : ZoneState := ⟨0, ZoneType.rangeStart .mem32, ZoneType.rangeEnd .mem32⟩

/-- The loop of `get_zone_for_frame`. Two zones exist, so the third round panics. -/
def advance (frame : Nat) : Nat → ZoneType → ZoneState → Except Panic (ZoneType × ZoneState)
  | 0, _, _ => .error .loopBound
  | rounds + 1, zone, state =>
    if state.zoneEnd ≤ frame then do
      let zone ← ZoneType.fromIndex (state.currentIndex + 1)
      advance frame rounds zone ⟨state.currentIndex + 1, zone.rangeStart, zone.rangeEnd⟩
    else .ok (zone, state)

/-- `ZoneState::get_zone_for_frame`; the bounds it returns are those of the new state. -/
def getZoneForFrame (state : ZoneState) (frame : Nat) : Except Panic (ZoneType × ZoneState) := do
  let zone ← ZoneType.fromIndex state.currentIndex
  advance frame 3 zone state

end ZoneState

/-- `FrameOrder::from_count`. -/
def fromCount (count : Nat) : Except Panic Nat := do
  debugAssert build (decide (0 < count ∧ count < toCount maxOrder * 2)) .orderTooLarge
  debugAssert build (decide (trailingZeros count ≤ maxOrder)) .orderTooLarge
  return trailingZeros count

namespace BuddyState

/-- The order to which the start of a chunk is aligned, at most `MAX_ORDER`. -/
def startOrder (start : Nat) : Nat :=
  if start = 0 then maxOrder else min (trailingZeros start) maxOrder

/-- The second half of a round of `add_free_block`: initialise the head frame and list the block. -/
def listChunk (start order : Nat) (s : BuddyState) : Except Panic BuddyState := do
  let frame ← getRaw start
  let some owned ← UniqueFrames.fromAllocator build s.frames frame 0
    | throw .unwrapFailed
  let s := s.replaceBuddy owned.start order zone
  let (_, s) ← s.addToFreeList owned.start order zone
  return s

/-- One round of `add_free_block`: the start of the next round with the new states. -/
def addChunk (state : ZoneState) (s : BuddyState) (start stop : Nat) :
    Except Panic (Nat × ZoneState × BuddyState) := do
  let (zone, state) ← state.getZoneForFrame start
  let start := max start state.zoneStart
  let chunkEnd := min (min stop (start + toCount (startOrder start))) state.zoneEnd
  -- `FrameNumber::count_from` is the absolute difference.
  let order ← fromCount build (Nat.dist chunkEnd start)
  let s ← s.listChunk build zone start order
  return (chunkEnd, state, s)

/-- The loop of `add_free_block`; the first argument bounds the rounds. -/
def addFreeBlockLoop (build : Build) (stop : Nat) :
    Nat → Nat → ZoneState → BuddyState → Except Panic (ZoneState × BuddyState)
  | 0, start, state, s => if start < stop then .error .loopBound else .ok (state, s)
  | rounds + 1, start, state, s =>
    if start < stop then do
      let (start, state, s) ← s.addChunk build state start stop
      addFreeBlockLoop build stop rounds start state s
    else .ok (state, s)

/-- `BuddyAllocator::add_free_block`: every round moves the start up, so the length of the range
bounds the rounds. -/
def addFreeBlock (state : ZoneState) (start stop : Nat) (s : BuddyState) :
    Except Panic (ZoneState × BuddyState) :=
  addFreeBlockLoop build stop (stop - start) start state s

end BuddyState

end Horizon.Memory
