import Mathlib

/-!
# Page-table entries

The geometry of the four-level table of the 64-bit target and the encoding of an entry word:
`X86PageFlags`, `X86EntryInfo` and the generic `PageFlags`. The checked arithmetic of `PageNumber`
and `FrameNumber` stays below the word size.
-/

namespace Horizon.Paging

def pageSize : Nat := 4096

def indexBits : Nat := 9

def tableSize : Nat := 2 ^ indexBits

/-- `PageTable::top_level`. -/
def topLevel : Nat := 3

/-- `LEVEL_SHIFTS`. -/
def levelShift (level : Nat) : Nat := indexBits * level

/-- `LEVEL_COUNTS`: pages under one entry of a level. -/
def levelCount (level : Nat) : Nat := 2 ^ levelShift level

/-- `LEVEL_MASKS`. -/
def levelMask (level page : Nat) : Nat := page / levelCount level * levelCount level

/-- `HUGE_PAGE`: the levels at which an entry can be a leaf besides the last. -/
def hugePage : Nat → Bool
  | 1 | 2 => true
  | _ => false

/-- `PageTable::entry_index`. -/
def entryIndex (page level : Nat) : Nat := page / levelCount level % tableSize

/-- How the memory of a page is cached. -/
inductive PageCacheType
  | writeBack
  | writeCombine
  | writeThrough
  | uncached
  | uncachedMinus
  deriving DecidableEq

/-- The flags that a mapping asks for. -/
structure PageFlags where
  present : Bool
  writable : Bool
  user : Bool
  /-- Not executable; the entry format of this target does not carry it. -/
  noExecute : Bool
  global : Bool
  accessed : Bool
  dirty : Bool
  hugePage : Bool
  cacheType : PageCacheType
  deriving DecidableEq

/-- `PageFlags::new`. -/
def PageFlags.new : PageFlags where
  present := true
  writable := true
  user := false
  noExecute := false
  global := false
  accessed := false
  dirty := false
  hugePage := true
  cacheType := .writeBack

/-- The memory-type bits of `X86PageFlags::from`. -/
def cacheBits (cacheType : PageCacheType) (huge : Bool) (level : Nat) : Nat :=
  match cacheType with
  | .writeBack => 0
  | .writeCombine =>
    if 0 < level ∧ huge then 2 ^ 12 ||| 2 ^ 3
    else if level = 0 then 2 ^ 7 ||| 2 ^ 3
    else 0
  | .writeThrough => 2 ^ 3
  | .uncached => 2 ^ 4 ||| 2 ^ 3
  | .uncachedMinus => 2 ^ 4

/-- `X86PageFlags::from`. -/
def fromFlags (flags : PageFlags) (level : Nat) : Nat :=
  let huge := flags.hugePage && hugePage level
  (if flags.present then 2 ^ 0 else 0) ||| (if flags.writable then 2 ^ 1 else 0) |||
    (if flags.user then 2 ^ 2 else 0) ||| (if huge then 2 ^ 7 else 0) |||
    (if flags.global then 2 ^ 8 else 0) ||| cacheBits flags.cacheType huge level

/-- `X86PageFlags::as_page_flags`. -/
def asPageFlags (bits : Nat) (isPte : Bool) : PageFlags where
  present := bits.testBit 0
  writable := bits.testBit 1
  user := bits.testBit 2
  noExecute := false
  global := bits.testBit 8
  accessed := bits.testBit 5
  dirty := bits.testBit 6
  hugePage := bits.testBit 7
  cacheType :=
    match (if isPte then bits.testBit 7 else bits.testBit 12), bits.testBit 3, bits.testBit 4 with
    | _, false, false => .writeBack
    | true, true, false => .writeCombine
    | _, true, false => .writeThrough
    | _, false, true => .uncached
    | _, true, true => .uncachedMinus

/-- `X86EntryInfo::new_absent`. -/
def newAbsent : Nat := 0

/-- `X86EntryInfo::set_flags`. -/
def setFlags (word : Nat) (flags : PageFlags) (level : Nat) : Nat :=
  word / pageSize * pageSize ||| fromFlags flags level

/-- `X86EntryInfo::new_mapped`. -/
def newMapped (frame : Nat) (flags : PageFlags) (level : Nat) : Nat :=
  setFlags (frame * pageSize) flags level

/-- `X86EntryInfo::is_present`. -/
def isPresent (word : Nat) : Bool := word.testBit 0

/-- `X86EntryInfo::frame_number`. -/
def frameNumber (word : Nat) : Option Nat :=
  if isPresent word then some (word / pageSize) else none

/-- `X86EntryInfo::flags`. -/
def entryFlags (word level : Nat) : PageFlags := asPageFlags (word % pageSize) (level == 0)

/-- `PageTableEntry::is_huge`. -/
def isHuge (word level : Nat) : Bool := (entryFlags word level).hugePage

end Horizon.Paging
