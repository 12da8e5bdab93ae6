import Horizon.Kernel.PageLock

/-!
# Page-table operations

`PageTableIter`, `PageTableOps::translate`, `PageTableOps::map` with `map_range`, and
`PageTableOps::unmap` with `unmap_entry` and `trim_table`.
-/

namespace Horizon.Paging

/-- Why a mapping fails. -/
inductive PageTableError
  | entryAbsent
  | entryAlreadyMapped
  | frameAllocationFailed
  | invalidLevel
  deriving DecidableEq

/-- What the iterator returns: an absent entry, a table that it has left, or a leaf. -/
inductive PtStep
  | absent (page level : Nat)
  | table (base frame level : Nat)
  | leaf (page frame level : Nat)
  deriving DecidableEq

/-- The iterator: the locked table, the index in it, and the page to stop at. -/
structure PageTableIter where
  lock : PageLock
  index : Nat
  /-- The source's `end`. -/
  stop : Nat

namespace PageTableIter

/-- `PageTableIter::new`. -/
def new (mem : PageMemory) (root start stop : Nat) :
    Except PagePanic (Option PageTableIter × PageMemory) := do
  match ← PageLock.lockPage mem root start with
  | (none, mem) => return (none, mem)
  | (some lock, mem) =>
    match lock.level with
    | none =>
      let mem ← lock.drop mem
      return (none, mem)
    | some level => return (some ⟨lock, entryIndex start level, stop⟩, mem)

/-- The branch of `next` that leaves an exhausted table. -/
def leave (iter : PageTableIter) (mem : PageMemory) :
    Except PagePanic (Option PtStep × PageTableIter × PageMemory) := do
  match ← iter.lock.pop mem with
  | (none, lock, mem) => return (none, { iter with lock := lock }, mem)
  | (some (table, level), lock, mem) =>
    let mem ← mem.dropRef table
    let page := iter.lock.base + iter.index <<< levelShift level
    let index := entryIndex page level
    match lock.get with
    | none => return (none, ⟨lock, index, iter.stop⟩, mem)
    | some parent =>
      match frameNumber (mem.entries parent index) with
      | none => return (none, ⟨lock, index, iter.stop⟩, mem)
      | some frame =>
        return (some (.table iter.lock.base frame level), ⟨lock, index + 1, iter.stop⟩, mem)

/-- The `loop` of `next` at the given level: one entry, or the first entry of the table it
points to. -/
def scan : Nat → PageTableIter → PageMemory →
    Except PagePanic (Option PtStep × PageTableIter × PageMemory)
  | level, iter, mem =>
    let page := iter.lock.base + iter.index <<< levelShift level
    if iter.stop ≤ page then .ok (none, iter, mem)
    else
      match iter.lock.get with
      | none => .ok (none, iter, mem)
      | some table =>
        let entry := mem.entries table iter.index
        let advanced : PageTableIter := { iter with index := iter.index + 1 }
        match frameNumber entry with
        | none => .ok (some (.absent page level), advanced, mem)
        | some frame =>
          match level with
          | 0 => .ok (some (.leaf page frame 0), advanced, mem)
          | below + 1 =>
            if isHuge entry (below + 1) then
              .ok (some (.leaf page frame (below + 1)), advanced, mem)
            else do
              match ← iter.lock.push iter.index none mem with
              | (none, mem) => return (none, advanced, mem)
              | (some lock, mem) => scan below ⟨lock, 0, iter.stop⟩ mem

/-- `PageTableIter::next`. -/
def next (iter : PageTableIter) (mem : PageMemory) :
    Except PagePanic (Option PtStep × PageTableIter × PageMemory) :=
  match iter.lock.level with
  | none => .ok (none, iter, mem)
  | some level => if tableSize ≤ iter.index then iter.leave mem else scan level iter mem

/-- The steps of a `for` loop over an iterator, which is dropped at the end; the first argument
bounds the calls of `next`. -/
def collect : Nat → PageTableIter → PageMemory → Except PagePanic (List PtStep × PageMemory)
  | 0, _, _ => .error .loopBound
  | rounds + 1, iter, mem => do
    match ← iter.next mem with
    | (none, iter, mem) =>
      let mem ← iter.lock.drop mem
      return ([], mem)
    | (some step, iter, mem) =>
      let (steps, mem) ← collect rounds iter mem
      return (step :: steps, mem)

/-- A `for` loop over the pages from `start` up to `stop`; nothing when `new` fails. -/
def iterate (rounds : Nat) (mem : PageMemory) (root start stop : Nat) :
    Except PagePanic (Option (List PtStep) × PageMemory) := do
  match ← new mem root start stop with
  | (none, mem) => return (none, mem)
  | (some iter, mem) =>
    let (steps, mem) ← iter.collect rounds mem
    return (some steps, mem)

end PageTableIter

def klinearBase : Nat := 0xFFFF880000000000

def klinearSize : Nat := 0x400000000000

def kernelBase : Nat := 0xFFFFFFFF80000000

def kernelSize : Nat := 0x20000000

/-- The two fixed mappings that `translate` answers without the tables. -/
def fixedMapping (vaddr : Nat) : Option Nat :=
  if klinearBase ≤ vaddr ∧ vaddr < klinearBase + klinearSize then some (vaddr - klinearBase)
  else if kernelBase ≤ vaddr ∧ vaddr < kernelBase + kernelSize then some (vaddr - kernelBase)
  else none

/-- The address inside the page of a leaf. -/
def leafAddress (vaddr : Nat) : Option PtStep → Option Nat
  | some (.leaf _ frame level) =>
    some (frame * pageSize + vaddr % 2 ^ (levelShift level + 12))
  | _ => none

/-- `PageTableOps::translate`. -/
def translate (mem : PageMemory) (root vaddr : Nat) : Except PagePanic (Option Nat × PageMemory) :=
  match fixedMapping vaddr with
  | some phys => .ok (some phys, mem)
  | none => do
    let page := vaddr / pageSize
    match ← PageTableIter.new mem root page (page + 1) with
    | (none, mem) => return (none, mem)
    | (some iter, mem) =>
      let (step, iter, mem) ← iter.next mem
      let mem ← iter.lock.drop mem
      return (leafAddress vaddr step, mem)

/-- The variables of the loop of `map_range`. -/
structure MapCursor where
  lock : PageLock
  /-- First page of the table the loop works on. -/
  base : Nat
  level : Nat
  index : Nat
  page : Nat
  frame : Nat

abbrev Unwinding (α : Type) := Except (PageTableError × PageLock) α

namespace MapCursor

/-- The test of `map_range` for a large page. -/
def useHuge (cursor : MapCursor) (pageEnd : Nat) : Bool :=
  let start := max cursor.page cursor.base
  let stop := min pageEnd (cursor.base + levelCount (cursor.level + 1))
  decide (cursor.frame % levelCount cursor.level = 0) &&
    decide (levelCount cursor.level ≤ stop - start) && hugePage cursor.level

/-- The `while` loop at the end of a round of `map_range`: leave tables whose last entry was
written, through `MAX_PAGE_TABLE_LEVELS` levels at most. -/
def climb : Nat → MapCursor → PageMemory → Except PagePanic (Unwinding MapCursor × PageMemory)
  | 0, _, _ => .error .loopBound
  | rounds + 1, cursor, mem =>
    if tableSize ≤ cursor.index + 1 then do
      match ← cursor.lock.pop mem with
      | (none, lock, mem) => return (.error (.invalidLevel, lock), mem)
      | (some (table, _), lock, mem) =>
        let mem ← mem.dropRef table
        match lock.level with
        | none => return (.error (.invalidLevel, lock), mem)
        | some level =>
          climb rounds
            { cursor with
              lock := lock
              base := lock.base
              level := level
              index := entryIndex cursor.page level } mem
    else .ok (.ok cursor, mem)

/-- A round of `map_range` that writes a leaf. -/
def writeLeaf (cursor : MapCursor) (table word : Nat) (mem : PageMemory) :
    Except PagePanic (Unwinding MapCursor × PageMemory) := do
  let step := levelCount cursor.level
  match ← climb maxPageTableLevels cursor (mem.write table cursor.index word) with
  | (.error unwinding, mem) => return (.error unwinding, mem)
  | (.ok cursor, mem) =>
    return (.ok
      { cursor with
        index := cursor.index + 1
        page := cursor.page + step
        frame := cursor.frame + step }, mem)

/-- A round of `map_range` that makes a table. -/
def enterNew (flags : PageFlags) (cursor : MapCursor) (table : Nat) (mem : PageMemory) :
    Except PagePanic (Unwinding MapCursor × PageMemory) :=
  match mem.allocTable with
  | none => .ok (.error (.frameAllocationFailed, cursor.lock), mem)
  | some (frame, mem) => do
    let word := newMapped frame { flags with hugePage := false, cacheType := .writeBack }
      cursor.level
    let mem := mem.write table cursor.index word
    match ← cursor.lock.push cursor.index (some frame) mem with
    | (none, _) => throw .unwrapNone
    | (some lock, mem) =>
      match lock.level with
      | none => throw .unwrapNone
      | some level =>
        return (.ok
          { cursor with
            lock := lock
            base := lock.base
            level := level
            index := entryIndex cursor.page level }, mem)

/-- Enter the table that the current entry points to. The source `continue`s here without reading
the base, level and index of the lock again. -/
def enterOld (cursor : MapCursor) (mem : PageMemory) :
    Except PagePanic (Unwinding MapCursor × PageMemory) := do
  match ← cursor.lock.push cursor.index none mem with
  | (none, _) => throw .unwrapNone
  | (some lock, mem) => return (.ok { cursor with lock := lock }, mem)

/-- One round of the loop of `map_range`. -/
def step (pageEnd : Nat) (flags : PageFlags) (cursor : MapCursor) (mem : PageMemory) :
    Except PagePanic (Unwinding MapCursor × PageMemory) :=
  if max cursor.page cursor.base <
      min pageEnd (cursor.base + levelCount (cursor.level + 1)) then
    let useHuge := cursor.useHuge pageEnd
    match cursor.lock.get with
    | none => .error .unwrapNone
    | some table =>
      let entry := mem.entries table cursor.index
      if isPresent entry then
        if useHuge || cursor.level == 0 || isHuge entry cursor.level then
          .ok (.error (.entryAlreadyMapped, cursor.lock), mem)
        else cursor.enterOld mem
      else do
        let mem ← cursor.lock.cloneCurrent mem
        if useHuge then
          cursor.writeLeaf table (newMapped cursor.frame flags cursor.level) mem
        else if cursor.level = 0 then
          cursor.writeLeaf table (newMapped cursor.frame { flags with hugePage := false } 0) mem
        else cursor.enterNew flags table mem
  else .error .emptySpan

/-- The loop of `map_range`; the first argument bounds the rounds. -/
def mapLoop (pageEnd : Nat) (flags : PageFlags) : Nat → MapCursor → PageMemory →
      Except PagePanic (Except PageTableError Unit × PageLock × PageMemory)
  | 0, _, _ => .error .loopBound
  | rounds + 1, cursor, mem =>
    if cursor.page < pageEnd then do
      match ← cursor.step pageEnd flags mem with
      | (.error (error, lock), mem) => return (.error error, lock, mem)
      | (.ok cursor, mem) => mapLoop pageEnd flags rounds cursor mem
    else .ok (.ok (), cursor.lock, mem)

end MapCursor

/-- Rounds after which `map_range` has left its loop: each one writes an entry or goes down one of
the four levels. -/
def mapRounds (count : Nat) : Nat := 5 * count + 5

/-- `map_range`. -/
def mapRange (lock : PageLock) (pageStart pageEnd frame : Nat) (flags : PageFlags)
    (mem : PageMemory) : Except PagePanic (Except PageTableError Unit × PageLock × PageMemory) :=
  match lock.level with
  | none => .ok (.error .invalidLevel, lock, mem)
  | some level =>
    MapCursor.mapLoop pageEnd flags (mapRounds (pageEnd - pageStart))
      ⟨lock, lock.base, level, entryIndex pageStart level, pageStart, frame⟩ mem

/-- `PageTableOps::map`, on the first page and the block of `2 ^ order` frames. -/
def map (mem : PageMemory) (root pageStart frame order : Nat) (flags : PageFlags) :
    Except PagePanic (Except PageTableError Unit × PageMemory) := do
  match ← PageLock.lockPage mem root pageStart with
  | (none, mem) => return (.error .entryAbsent, mem)
  | (some lock, mem) =>
    let (result, lock, mem) ← mapRange lock pageStart (pageStart + 2 ^ order) frame flags mem
    let mem ← lock.drop mem
    return (result, mem)

/-- `unmap_entry`: the frame of the entry and the pages it covered. -/
def unmapEntry (lock : PageLock) (page : Nat) (mem : PageMemory) :
    Except PageTableError (Nat × Nat) × PageMemory :=
  match lock.level with
  | none => (.error .invalidLevel, mem)
  | some level =>
    match lock.get with
    | none => (.error .entryAbsent, mem)
    | some table =>
      let index := entryIndex page level
      match frameNumber (mem.entries table index) with
      | none => (.error .entryAbsent, mem)
      | some frame => (.ok (frame, levelCount level), mem.write table index newAbsent)

/-- `drop_table`: clear an entry of the current table and release one count of it. -/
def dropTable (lock : PageLock) (index : Nat) (mem : PageMemory) : Option PageMemory :=
  match lock.get, lock.level.bind lock.refs with
  | some table, some frame => some ((mem.write table index newAbsent).release frame).2
  | _, _ => none

/-- `trim_table`, with one round for each level. Nothing is returned when the source returns `None`.
-/
def trimTable (page : Nat) : Nat → PageLock → PageMemory →
    Except PagePanic (Option Unit × PageLock × PageMemory)
  | 0, _, _ => .error .loopBound
  | rounds + 1, lock, mem =>
    match lock.dropCurrent mem with
    | (none, mem) => .ok (none, lock, mem)
    | (some count, mem) =>
      if 1 < count then .ok (some (), lock, mem)
      else do
        match ← lock.pop mem with
        | (none, lock, mem) => return (none, lock, mem)
        | (some (table, level), lock, mem) =>
          -- `try_upgrade` succeeds on the last reference and otherwise drops it.
          if mem.refcount table = 1 then
            let freed := { mem.setRefcount table 0 with pool := mem.pool ++ [table] }
            match dropTable lock (entryIndex page level) freed with
            | none => return (none, lock, freed)
            | some mem => trimTable page rounds lock mem
          else
            let mem ← mem.dropRef table
            return (some (), lock, mem)

/-- The loop of `unmap`; the first argument bounds the rounds. -/
def unmapLoop (stop : Nat) : Nat → Nat → Option Nat → PageLock → PageMemory →
    Except PagePanic (Except PageTableError Nat × PageLock × PageMemory)
  | 0, _, _, _, _ => .error .loopBound
  | rounds + 1, page, head, lock, mem =>
    if page < stop then
      match unmapEntry lock page mem with
      | (.error error, mem) => .ok (.error error, lock, mem)
      | (.ok (frame, count), mem) => do
        match ← trimTable page maxPageTableLevels lock mem with
        | (none, lock, mem) => return (.error .invalidLevel, lock, mem)
        | (some (), lock, mem) =>
          unmapLoop stop rounds (page + count) (some (head.getD frame)) lock mem
    else
      match head with
      | some frame => .ok (.ok frame, lock, mem)
      | none => .ok (.error .entryAbsent, lock, mem)

/-- `PageTableOps::unmap`, on the first page of the block. -/
def unmap (mem : PageMemory) (root page order : Nat) :
    Except PagePanic (Except PageTableError Nat × PageMemory) := do
  match ← PageLock.lockPage mem root page with
  | (none, mem) => return (.error .entryAbsent, mem)
  | (some lock, mem) =>
    let (result, lock, mem) ← unmapLoop (page + 2 ^ order) (2 ^ order + 1) page none lock mem
    let mem ← lock.drop mem
    return (result, mem)

end Horizon.Paging
