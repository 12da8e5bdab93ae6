import Mathlib

/-!
# Frame metadata

Every physical page has a `Frame` record in the vmemmap area: a reference count, a tag and a union
of per-tag data. Here are the records, the frame-number and order arithmetic, the zones of the
64-bit target, and the owned handle `UniqueFrames`. A panic is an explicit outcome that names its
assertion. Reading a member of the union that the tag does not select reinterprets bytes in the
source and is the outcome `Panic.unionMismatch` here, so no theorem can rest on it.
-/

namespace Horizon.Memory

/-- The assertions and unwraps of the frame layer, one constructor for each place. -/
inductive Panic
  /-- `Frame::get_raw`: the metadata address is outside the vmemmap area. -/
  | vmemmapOutOfRange
  /-- `ZoneType::from_address`: the low mebibyte is reserved. -/
  | lowMemoryReserved
  /-- `ZoneType::from_index`: no zone has this index. -/
  | invalidZoneIndex
  /-- `UniqueFrames::from_allocator`: the debug assertion on the reference count. -/
  | frameNotExclusive
  /-- `UniqueFrames::split`: the debug assertion that the order is positive. -/
  | splitOrderZero
  /-- `BuddyAllocator::split`: the upper half is already a buddy block. -/
  | splitAlreadyBuddy
  /-- `BuddyAllocator::split`: the upper half is neither a tail nor uninitialised. -/
  | splitNotBuddy
  /-- An `unwrap` of `None` or of `Err`. -/
  | unwrapFailed
  /-- `ListNode::add`: the node is already linked. -/
  | listNodeLinked
  /-- `ListNode::delete`: the node is not linked. -/
  | listNodeUnlinked
  | indexOutOfBounds
  /-- `FrameOrder::new` or `FrameOrder::from_count`: the debug assertion on the order. -/
  | orderTooLarge
  /-- A read of a union member that the tag does not select. -/
  | unionMismatch
  /-- A loop that has not left its body within the bound given to the model. -/
  | loopBound
  deriving DecidableEq

/-- The build switch that matters here: debug assertions are compiled in or out. -/
structure Build where
  debugAssertions : Bool
  deriving DecidableEq

/-- `debug_assert!`: an assertion of a debug build only. -/
def debugAssert (build : Build) (condition : Bool) (panic : Panic) : Except Panic Unit :=
  if build.debugAssertions && !condition then .error panic else .ok ()

def pageSize : Nat := 4096

/-- The largest `FrameOrder`. -/
def maxOrder : Nat := 10

def reservedEnd : Nat := 0x100

/-- Records in the vmemmap area: `VMEMMAP_SIZE / size_of::<Frame>()`, four tebibytes of records
of one cache line each. -/
def vmemmapFrames : Nat := 0x40000000000 / 64

/-- Frames of the linear map: `KLINEAR_SIZE / PAGE_SIZE`. -/
def linearFrames : Nat := 0x400000000000 / pageSize

/-- `FrameOrder::to_count`. -/
def toCount (order : Nat) : Nat := 2 ^ order

/-- `FrameNumber::align_down`. -/
def alignDown (frame order : Nat) : Nat := frame / 2 ^ order * 2 ^ order

def trailingZerosIn : Nat → Nat → Nat
  | 0, _ => 0
  | width + 1, number =>
    if number % 2 = 1 then 0 else trailingZerosIn width (number / 2) + 1

/-- `usize::trailing_zeros`; the value at zero is the word width. -/
def trailingZeros (number : Nat) : Nat := trailingZerosIn 64 number

/-- The zones of physical memory. -/
inductive ZoneType
  | linearMem
  | mem32
  deriving DecidableEq

namespace ZoneType

instance : Fintype ZoneType := ⟨{.linearMem, .mem32}, fun zone => by cases zone <;> decide⟩

/-- `ZoneType::from_index` of the 64-bit target. -/
def fromIndex : Nat → Except Panic ZoneType
  | 0 => .ok .mem32
  | 1 => .ok .linearMem
  | _ => .error .invalidZoneIndex

def rangeStart : ZoneType → Nat
  | .linearMem => 2 ^ 32 / pageSize
  | .mem32 => 0

/-- End frame of `ZoneType::range`; the linear zone ends at the page of `usize::MAX`. -/
def rangeEnd : ZoneType → Nat
  | .linearMem => (2 ^ 64 - 1) / pageSize
  | .mem32 => 2 ^ 32 / pageSize

/-- `ZoneType::from_address`, on the frame number of the address. -/
def fromFrame (frame : Nat) : Except Panic ZoneType :=
  if frame < reservedEnd then .error .lowMemoryReserved
  else if frame < 0x100000 then .ok .mem32 else .ok .linearMem

end ZoneType

/-- What a frame is used for. -/
inductive FrameTag
  | uninited
  | hardwareReserved
  | systemReserved
  | badMemory
  | free
  | anonymous
  | buddy
  | slub
  | tail
  | assignedFixed
  | pageTable
  deriving DecidableEq

/-- `FrameRange`: the frames from `start` up to but not including `stop`. -/
structure FrameRange where
  start : Nat
  /-- The source's `end`. -/
  stop : Nat
  deriving DecidableEq

/-- `buddy::Buddy`. Of the intrusive list node only whether it is linked is kept; the list itself
is a list of frame numbers in the zone. -/
structure Buddy where
  /-- `ListNode::is_linked`. -/
  linked : Bool
  order : Nat
  zoneType : ZoneType
  deriving DecidableEq

/-- `FrameData`, the union selected by the tag. -/
inductive FrameData
  | unused
  | range (range : FrameRange)
  | buddy (buddy : Buddy)
  | slub
  | anonymous (order : Nat)
  | assigned (order : Nat) (originalTag : FrameTag)
  | pageTable
  deriving DecidableEq

namespace FrameData

/-- `Frame::get_data` of a tail. -/
def getRange : FrameData → Except Panic FrameRange
  | range found => .ok found
  | _ => .error .unionMismatch

/-- Read the `order` of the `anonymous` member. -/
def getAnonymousOrder : FrameData → Except Panic Nat
  | anonymous order => .ok order
  | _ => .error .unionMismatch

end FrameData

/-- The record of a frame in the vmemmap. -/
structure Frame where
  /-- `FrameRc::count`; zero is the exclusive state. -/
  refcount : Nat
  data : FrameData
  tag : FrameTag
  deriving DecidableEq

/-- The frame records, by frame number. -/
abbrev Vmemmap := Nat → Frame

variable (frames : Vmemmap)

/-- `Frame::replace`: new tag and new data; the reference count stays. -/
def Vmemmap.replace (frame : Nat) (tag : FrameTag) (data : FrameData) : Vmemmap :=
  Function.update frames frame { frames frame with tag := tag, data := data }

/-- `Frame::set_tag`. -/
def Vmemmap.setTag (frame : Nat) (tag : FrameTag) : Vmemmap :=
  Function.update frames frame { frames frame with tag := tag }

/-- `Frame::get_raw`: the record of a frame number, inside the vmemmap area. -/
def getRaw (frame : Nat) : Except Panic Nat :=
  if frame < vmemmapFrames then .ok frame else .error .vmemmapOutOfRange

/-- `TryFrom<&mut Frame> for &mut Buddy`, followed by an `unwrap`. -/
def Vmemmap.buddy (frames : Vmemmap) (frame : Nat) : Except Panic Buddy :=
  match (frames frame).tag, (frames frame).data with
  | .buddy, .buddy buddy => .ok buddy
  | .buddy, _ => .error .unionMismatch
  | _, _ => .error .unwrapFailed

/-- Write the fields of a buddy record in place. -/
def Vmemmap.setBuddy (frame : Nat) (buddy : Buddy) : Vmemmap :=
  Function.update frames frame { frames frame with data := .buddy buddy }

/-- A block of frames that has one owner. -/
structure UniqueFrames where
  start : Nat
  order : Nat
  deriving DecidableEq

namespace UniqueFrames

/-- The tags from which `from_allocator` hands out a head frame. -/
def ownable : FrameTag → Bool
  | .buddy | .free | .uninited | .assignedFixed => true
  | .hardwareReserved | .systemReserved | .badMemory => true
  | _ => false

/-- `UniqueFrames::from_allocator`. -/
def fromAllocator (build : Build) (frames : Vmemmap) (frame order : Nat) :
    Except Panic (Option UniqueFrames) := do
  let start ← getRaw (alignDown frame order)
  debugAssert build ((frames frame).refcount == 0) .frameNotExclusive
  match (frames frame).tag with
  | .tail =>
    let range ← (frames frame).data.getRange
    let head ← getRaw range.start
    -- A tail frame belongs to its head; the head must be free and the block end inside the range.
    if ownable (frames head).tag && decide (frame + toCount order ≤ range.stop) then
      return some ⟨start, order⟩
    else
      return none
  | tag => if ownable tag then return some ⟨start, order⟩ else return none

/-- `UniqueFrames::split`: keep the lower half, return the upper half as the second component. -/
def split (build : Build) (frame : UniqueFrames) : Except Panic (UniqueFrames × UniqueFrames) := do
  debugAssert build (decide (0 < frame.order)) .splitOrderZero
  let newOrder := frame.order - 1
  let next ← getRaw (frame.start + 2 ^ newOrder)
  return (⟨frame.start, newOrder⟩, ⟨next, newOrder⟩)

/-- The tests of `UniqueFrames::merge` before the callback runs: equal orders, equal tags and
`high` directly after `low`. -/
def mergeable (low high : UniqueFrames) : Bool :=
  low.order == high.order && (frames low.start).tag == (frames high.start).tag &&
    low.start + 2 ^ low.order == high.start

/-- `UniqueFrames::set_tail_frames`: every frame after the first gets the tail tag and the range of
the block. -/
def setTailFrames (frame : UniqueFrames) : Vmemmap :=
  (List.range (toCount frame.order - 1)).foldl
    (fun frames i => frames.replace (frame.start + (i + 1)) .tail
      (.range ⟨frame.start, frame.start + toCount frame.order⟩)) frames

end UniqueFrames

end Horizon.Memory
