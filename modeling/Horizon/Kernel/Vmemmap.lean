import Horizon.Kernel.Buddy
import Horizon.Kernel.PageTable

/-!
# Assigning fixed frames

`BuddyAllocator::assign` takes a fixed range of frames for a device: it maps the vmemmap pages of
the range, looks for blocks in use, and overwrites the metadata; dropping the frames puts it back.
The state joins the frame metadata and the free lists with the page tables of the vmemmap area.
Unbounded loops take a number of rounds and report when it is used up. The kernel is a debug build.
-/

namespace Horizon.Memory

open Paging (PageMemory PageTableIter PtStep PagePanic PageTableError PageFlags)

/-- What stops `assign`, the drop of its frames or a mapped allocation. -/
inductive Fault
  | frame (panic : Panic)
  | page (panic : PagePanic)
  /-- `assign`: the debug assertion that the range is aligned. -/
  | unalignedRange
  /-- `restore_assigned`: the `unreachable!`. -/
  | invalidOriginalTag
  /-- `alloc_discontiguous`: the debug assertion on the tag of the frames. -/
  | unexpectedTag
  deriving DecidableEq

/-- `MemoryError`, as far as `assign` and the mapped allocations return it. -/
inductive MemoryError
  | outOfMemory
  | invalidSize (size : Nat)
  | outOfFrames
  | conflict
  | pageTable (error : PageTableError)
  deriving DecidableEq

def devBuild : Build := ⟨true⟩

/-- The frame metadata with the page tables behind it. -/
structure FrameMemory where
  buddy : BuddyState
  tables : PageMemory
  mappedPages : Nat

def onFrames {α : Type} (computation : Except Panic α) : Except Fault α :=
  computation.mapError .frame

def onPages {α : Type} (computation : Except PagePanic α) : Except Fault α :=
  computation.mapError .page

def vmemmapBase : Nat := 0xFFFFF80000000000

def vmemmapBasePage : Nat := vmemmapBase / pageSize

def frameRecordSize : Nat := 64

def vmapPerPage : Nat := pageSize / frameRecordSize

/-- `metadata_range`: as many pages as the range has frames. -/
def metadataRange (start order : Nat) : Nat × Nat :=
  let first := (vmemmapBase + start * frameRecordSize) / pageSize
  (first, first + toCount order)

/-- A search with `find_map` through the steps of an iterator, which is dropped at the end. -/
def searchSteps {α : Type} (visit : PtStep → Except Fault (Option α)) :
    Nat → PageTableIter → PageMemory → Except Fault (Option α × PageMemory)
  | 0, _, _ => .error (.page .loopBound)
  | rounds + 1, iter, mem => do
    match ← onPages (iter.next mem) with
    | (none, iter, mem) =>
      let mem ← onPages (iter.lock.drop mem)
      return (none, mem)
    | (some step, iter, mem) =>
      match ← visit step with
      | some found =>
        let mem ← onPages (iter.lock.drop mem)
        return (some found, mem)
      | none => searchSteps visit rounds iter mem

/-- `FrameAllocOptions::atomic(FrameOrder::new(0)).allocate()`. -/
def allocateAtomic (s : BuddyState) : Except Panic (Option UniqueFrames × BuddyState) := do
  match ← s.allocate devBuild .linearMem 0 with
  | (some frames, s) => return (some frames, s)
  | (none, s) => s.allocate devBuild .mem32 0

def clearRecords (frames : Vmemmap) (index : Nat) : Vmemmap := fun frame =>
  if frame / vmapPerPage = index then ⟨0, .unused, .uninited⟩ else frames frame

/-- `map_vmemmap_page`. -/
def mapVmemmapPage (root page : Nat) (s : FrameMemory) :
    Except Fault (Except MemoryError Unit × FrameMemory) := do
  match ← onFrames (allocateAtomic s.buddy) with
  | (none, buddy) => return (.error .outOfFrames, { s with buddy })
  | (some frames, buddy) =>
    match ← onPages (Paging.map s.tables root page frames.start frames.order PageFlags.new) with
    | (.error error, tables) => return (.error (.pageTable error), { s with buddy, tables })
    | (.ok (), tables) =>
      let cleared := clearRecords buddy.frames (page - vmemmapBasePage)
      return (.ok (), ⟨{ buddy with frames := cleared }, tables, s.mappedPages + 1⟩)

def absentPage : PtStep → Except Fault (Option Nat)
  | .absent page _ => .ok (some page)
  | _ => .ok none

/-- `ensure_mapped`; `calls` bounds the steps of each search. -/
def ensureMapped (root start order calls : Nat) :
    Nat → FrameMemory → Except Fault (Except MemoryError Unit × FrameMemory)
  | 0, _ => .error (.page .loopBound)
  | rounds + 1, s => do
    let range := metadataRange start order
    match ← onPages (PageTableIter.new s.tables root range.1 range.2) with
    | (none, tables) => return (.error .conflict, { s with tables })
    | (some iter, tables) =>
      match ← searchSteps absentPage calls iter tables with
      | (none, tables) => return (.ok (), { s with tables })
      | (some page, tables) =>
        match ← mapVmemmapPage root page { s with tables } with
        | (.error error, s) => return (.error error, s)
        | (.ok (), s) => ensureMapped root start order calls rounds s

/-- `get_order`: the frame to go on with, or nothing for a frame in use. -/
def getOrder (frames : Vmemmap) : Nat → Nat → Except Panic (Option Nat)
  | 0, _ => .error .loopBound
  | depth + 1, frame => do
    let frame ← getRaw frame
    match (frames frame).tag with
    | .tail =>
      let range ← (frames frame).data.getRange
      getOrder frames depth range.start
    | .hardwareReserved | .systemReserved | .badMemory =>
      let range ← (frames frame).data.getRange
      return some range.stop
    | .uninited => return some (frame + 1)
    | .free | .anonymous | .buddy | .slub | .assignedFixed | .pageTable => return none

/-- The `while` loop of `conflict_check`. -/
def conflictScan (frames : Vmemmap) (depth overlapEnd : Nat) : Nat → Nat → Except Panic Bool
  | 0, _ => .error .loopBound
  | rounds + 1, frame =>
    if frame < overlapEnd then do
      match ← getOrder frames depth frame with
      | some next => conflictScan frames depth overlapEnd rounds next
      | none => return true
    else .ok false

/-- The body of the `for` loop of `conflict_check` on one step. The source takes the number of the
vmemmap page for the number of its first frame. -/
def conflictStep (frames : Vmemmap) (rounds start stop : Nat) : PtStep → Except Fault (Option Unit)
  | .leaf page _ _ => do
    let rangeStart := page - vmemmapBasePage
    let rangeEnd := rangeStart + vmapPerPage
    let found ← onFrames
      (conflictScan frames rounds (min stop rangeEnd) rounds (max start rangeStart))
    return if found then some () else none
  | _ => .ok none

/-- `conflict_check`. -/
def conflictCheck (root rounds start order : Nat) (s : FrameMemory) :
    Except Fault (Bool × FrameMemory) := do
  let stop := start + toCount order
  let range := metadataRange start order
  match ← onPages (PageTableIter.new s.tables root range.1 range.2) with
  | (none, tables) => return (true, { s with tables })
  | (some iter, tables) =>
    let (found, tables) ←
      searchSteps (conflictStep s.buddy.frames rounds start stop) rounds iter tables
    return (found.isSome, { s with tables })

/-- The end of `assign`, once no conflict was found. -/
def assignFrames (start order : Nat) (s : FrameMemory) :
    Except Fault (Except MemoryError UniqueFrames × FrameMemory) := do
  let frame ← onFrames (getRaw start)
  let originalTag := (s.buddy.frames frame).tag
  let buddy := s.buddy.replace frame .assignedFixed (.assigned order originalTag)
  match ← onFrames (UniqueFrames.fromAllocator devBuild buddy.frames frame order) with
  | none => return (.error .conflict, { s with buddy })
  | some owned =>
    -- `set_tail_frames` takes the record of every frame of the block.
    let _ ← onFrames (getRaw (start + toCount order - 1))
    let frames := owned.setTailFrames buddy.frames
    return (.ok owned, { s with buddy := { buddy with frames } })

/-- `BuddyAllocator::assign`; `rounds` bounds every loop. -/
def assign (root rounds start order : Nat) (s : FrameMemory) :
    Except Fault (Except MemoryError UniqueFrames × FrameMemory) :=
  if start % toCount order ≠ 0 then .error .unalignedRange
  else do
    match ← ensureMapped root start order rounds rounds s with
    | (.error error, s) => return (.error error, s)
    | (.ok (), s) =>
      match ← conflictCheck root rounds start order s with
      | (true, s) => return (.error .conflict, s)
      | (false, s) => assignFrames start order s

/-- The order and the original tag of an `AssignedFixed`. -/
def FrameData.getAssigned : FrameData → Except Panic (Nat × FrameTag)
  | .assigned order originalTag => .ok (order, originalTag)
  | _ => .error .unionMismatch

/-- `free_last`: an error of the allocator is only printed. -/
def freeLast (frame : Nat) (s : FrameMemory) : Except Fault FrameMemory := do
  let (_, buddy) ← onFrames (s.buddy.deallocate devBuild frame)
  return { s with buddy }

/-- `restore_assigned`. -/
def restoreAssigned (owned : UniqueFrames) (s : FrameMemory) : Except Fault FrameMemory := do
  let (order, originalTag) ← onFrames (s.buddy.frames owned.start).data.getAssigned
  let s := { s with buddy := { s.buddy with frames := owned.setTailFrames s.buddy.frames } }
  match originalTag with
  | .anonymous => freeLast owned.start s
  | .hardwareReserved | .systemReserved | .badMemory | .free =>
    let range : FrameRange := ⟨owned.start, owned.start + toCount order⟩
    return { s with buddy := s.buddy.replace owned.start originalTag (.range range) }
  | .uninited | .buddy | .slub | .tail | .assignedFixed | .pageTable => throw .invalidOriginalTag

/-- `UniqueFrames::drop`. -/
def UniqueFrames.drop (owned : UniqueFrames) (s : FrameMemory) : Except Fault FrameMemory :=
  match (s.buddy.frames owned.start).tag with
  | .assignedFixed => restoreAssigned owned s
  | _ => freeLast owned.start s

end Horizon.Memory
