import Horizon.Kernel.PageEntry

/-!
# Page-table memory and the page lock

Table pages are functions from entry indices to words, indexed by frame number, next to the
reference counts of the frames. `PageLock` holds a guard and a reference for each level from the
root down to the current table. Calls run one after the other, so a guard is only the frame of its
table. The kernel is a debug build: dropping the last reference of a page-table frame ends in the
assertion of `from_allocator` that the count is exclusive, because `release` refuses to lower it
below one; the model stops with `lastReference`.
-/

namespace Horizon.Paging

open Function

/-- Assertions and unwraps that stop a page-table operation. -/
inductive PagePanic
  /-- `SharedFrames::drop` of the last reference of a page-table frame. -/
  | lastReference
  /-- `SharedFrames::clone` of a frame in the exclusive state. -/
  | cloneUnique
  /-- `PageLock::push`: the child level is already occupied. -/
  | childOccupied
  | unwrapNone
  /-- `map_range`: the assertion `start < end`. -/
  | emptySpan
  /-- A loop that has not left its body within the bound given to the model. -/
  | loopBound
  deriving DecidableEq

/-- Table pages, reference counts and the frames the table allocator will hand out. -/
structure PageMemory where
  entries : Nat → Nat → Nat
  /-- `FrameRc::count`; zero is the exclusive state. -/
  refcount : Nat → Nat
  /-- Frames that `alloc_table` returns, in this order; allocation fails when none is left. -/
  pool : List Nat

variable (mem : PageMemory)

namespace PageMemory

/-- `X86PageEntry::write`. -/
def write (table index word : Nat) : PageMemory :=
  let words := update (mem.entries table) index word
  { mem with entries := update mem.entries table words }

/-- `FrameRc::update`. -/
def setRefcount (frame count : Nat) : PageMemory :=
  { mem with refcount := update mem.refcount frame count }

/-- `FrameRc::acquire`. -/
def acquire (frame : Nat) : Option PageMemory :=
  if mem.refcount frame = 0 then none
  else some (mem.setRefcount frame (mem.refcount frame + 1))

/-- `FrameRc::release`: the previous count, or nothing when the count is one. -/
def release (frame : Nat) : Option Nat × PageMemory :=
  match mem.refcount frame with
  | 0 => (some 0, mem)
  | 1 => (none, mem)
  | count + 2 => (some (count + 2), mem.setRefcount frame (count + 1))

/-- `SharedFrames::drop`, for a page-table frame. -/
def dropRef (frame : Nat) : Except PagePanic PageMemory :=
  match mem.release frame with
  | (some _, mem) => .ok mem
  | (none, _) => .error .lastReference

def dropOption : Option Nat → Except PagePanic PageMemory
  | none => .ok mem
  | some frame => mem.dropRef frame

/-- `alloc_table`: a zeroed table with one reference. -/
def allocTable : Option (Nat × PageMemory) :=
  match mem.pool with
  | [] => none
  | frame :: rest => some (frame,
      { entries := update mem.entries frame fun _ => newAbsent
        refcount := update mem.refcount frame 1
        pool := rest })

end PageMemory

/-- `PageLock`: `refs` and the guards by level. -/
structure PageLock where
  /-- `pt_base`: first page of the current table. -/
  base : Nat
  level : Option Nat
  /-- `refs`: the frame referenced for each level. -/
  refs : Nat → Option Nat
  /-- `read_guards` and `write_guard`: the table guarded for each level. -/
  guards : Nat → Option Nat

def maxPageTableLevels : Nat := 5

variable (lock : PageLock)

namespace PageLock

/-- `PageLock::get` and `PageLock::get_mut`: the table of the current level. -/
def get : Option Nat := lock.level.bind lock.guards

/-- The loop of `PageLock::drop`; the first argument counts the levels left. -/
def dropLevels (lock : PageLock) : Nat → Nat → PageMemory → Except PagePanic PageMemory
  | 0, _, mem => .ok mem
  | left + 1, level, mem => do
    let mem ← mem.dropOption (lock.refs level)
    dropLevels lock left (level + 1) mem

/-- `PageLock::drop`. -/
def drop (mem : PageMemory) : Except PagePanic PageMemory :=
  let start := lock.level.getD 0
  lock.dropLevels (maxPageTableLevels - start) start mem

/-- `PageLock::clone_current`, whose result is forgotten by its only caller. -/
def cloneCurrent (mem : PageMemory) : Except PagePanic PageMemory :=
  match lock.level.bind lock.refs with
  | none => .ok mem
  | some frame =>
    match mem.acquire frame with
    | none => .error .cloneUnique
    | some mem => .ok mem

/-- `PageLock::drop_current`: release one count of the current table. -/
def dropCurrent (mem : PageMemory) : Option Nat × PageMemory :=
  match lock.level.bind lock.refs with
  | none => (none, mem)
  | some frame => mem.release frame

def abandon (mem : PageMemory) : Except PagePanic (Option PageLock × PageMemory) := do
  let mem ← lock.drop mem
  return (none, mem)

/-- The loop of `lock_page` from the given level down, with the mask of the base after it. -/
def lockLoop (page : Nat) :
    Nat → PageLock → PageMemory → Except PagePanic (Option PageLock × PageMemory)
  | 0, lock, mem => .ok (some { lock with base := levelMask 1 lock.base }, mem)
  | level + 1, lock, mem =>
    match lock.get with
    | none => lock.abandon mem
    | some table =>
      let entry := mem.entries table (entryIndex page (level + 1))
      if !isPresent entry || isHuge entry (level + 1) then
        .ok (some { lock with base := levelMask (level + 2) lock.base }, mem)
      else
        match frameNumber entry with
        | none => lock.abandon mem
        | some frame =>
          match mem.acquire frame with
          | none => lock.abandon mem
          | some mem =>
            lockLoop page level
              { lock with
                level := some level
                refs := update lock.refs level (some frame)
                guards := update lock.guards level (some frame) } mem

/-- `PageLock::lock_page`. -/
def lockPage (root page : Nat) : Except PagePanic (Option PageLock × PageMemory) :=
  match mem.acquire root with
  | none => .ok (none, mem)
  | some mem =>
    lockLoop page topLevel
      { base := page
        level := some topLevel
        refs := update (fun _ => none) topLevel (some root)
        guards := update (fun _ => none) topLevel (some root) } mem

/-- The reference `push` stores for the child: the given one, or a new one. -/
def childRef (frame : Nat) : Option Nat → Option Nat × PageMemory
  | some table => (some table, mem)
  | none =>
    match mem.acquire frame with
    | some mem => (some frame, mem)
    | none => (none, mem)

/-- A refused `push` drops the table it was given. -/
def refusePush (newTable : Option Nat) : Except PagePanic (Option PageLock × PageMemory) := do
  let mem ← mem.dropOption newTable
  return (none, mem)

/-- `PageLock::push`. Nothing is returned when the source returns `None`; the lock is then
unchanged. -/
def push (index : Nat) (newTable : Option Nat) (mem : PageMemory) :
    Except PagePanic (Option PageLock × PageMemory) :=
  match lock.level, lock.get with
  | some (level + 1), some table =>
    let entry := mem.entries table index
    match frameNumber entry with
    | none => refusePush mem newTable
    | some frame =>
      if isHuge entry (level + 1) then refusePush mem newTable
      else if (lock.guards level).isSome then .error .childOccupied
      else do
        let (ref, mem) := childRef mem frame newTable
        let mem ← mem.dropOption (lock.refs level)
        return (some
          { base := levelMask (level + 2) lock.base ||| index <<< levelShift (level + 1)
            level := some level
            refs := update lock.refs level ref
            guards := update lock.guards level (some frame) }, mem)
  | _, _ => refusePush mem newTable

/-- `PageLock::pop`: the reference and the new level, with the lock one level up. The source's
`zip` drops the reference when no level is left. -/
def pop (mem : PageMemory) : Except PagePanic (Option (Nat × Nat) × PageLock × PageMemory) :=
  match lock.level with
  | none => .ok (none, lock, mem)
  | some level =>
    match lock.guards level with
    | none => .ok (none, lock, mem)
    | some _ =>
      let popped : PageLock :=
        { base := if level = topLevel then lock.base else levelMask (level + 2) lock.base
          level := if level = topLevel then none else some (level + 1)
          refs := update lock.refs level none
          guards := update lock.guards level none }
      match lock.refs level, popped.level with
      | some table, some above => .ok (some (table, above), popped, mem)
      | ref, _ => do
        let mem ← mem.dropOption ref
        return (none, popped, mem)

end PageLock

end Horizon.Paging
