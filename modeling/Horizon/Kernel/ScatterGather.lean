import Mathlib.Logic.Function.Basic

/-!
# Chained scatter-gather lists

`memory/dma/scatter_gather.rs`, the part that links segments: entries lie in allocated arrays, and
an entry is reached by stepping through its array or through a chain entry.
-/

namespace Horizon.Dma

/-- A pointer to an entry: an allocated array and the index in it. -/
structure EntryPtr where
  segment : Nat
  index : Nat
  deriving DecidableEq

/-- `EntryType`, with the address a chain entry holds. -/
inductive LinkType
  | array (frame : Option Nat)
  | chain (next : EntryPtr)
  deriving DecidableEq

/-- `EntryList`, one entry as it lies in memory. -/
structure LinkedEntry where
  entryType : LinkType
  /-- The `END` tag. -/
  isEnd : Bool
  offset : Nat
  size : Nat
  dmaAddr : Nat
  deriving DecidableEq

/-- `EntryList::empty`. -/
def LinkedEntry.empty : LinkedEntry := ⟨.array none, false, 0, 0, 0⟩

/-- `EntryList::mark_end`. -/
def LinkedEntry.markEnd (entry : LinkedEntry) : LinkedEntry := { entry with isEnd := true }

/-- `create_segment`: empty entries, the last one marked. -/
def createSegment : Nat → List LinkedEntry
  | 0 => []
  | last + 1 => List.replicate last .empty ++ [LinkedEntry.empty.markEnd]

/-- What stops the kernel on a list. -/
inductive SgFault
  /-- An entry outside the allocated arrays is read. -/
  | outside
  /-- "A chain entry cannot be the end of the list". -/
  | chainEnd
  /-- `new_entries[0]` of an empty segment. -/
  | index
  deriving DecidableEq

abbrev EntryHeap := Nat → Option (List LinkedEntry)

namespace EntryHeap

def get (heap : EntryHeap) (p : EntryPtr) : Option LinkedEntry :=
  (heap p.segment).bind (·[p.index]?)

def modify (heap : EntryHeap) (p : EntryPtr) (f : LinkedEntry → LinkedEntry) : EntryHeap :=
  Function.update heap p.segment ((heap p.segment).map (·.modify p.index f))

/-- `EntryIter::next` and `EntryIterMut::next`: the entry and the pointer to the next one. -/
def next (heap : EntryHeap) (p : EntryPtr) : Except SgFault (LinkedEntry × Option EntryPtr) :=
  match heap.get p with
  | none => .error .outside
  | some entry =>
    match entry.entryType, entry.isEnd with
    | .array _, true => .ok (entry, none)
    | .array _, false => .ok (entry, some ⟨p.segment, p.index + 1⟩)
    | .chain head, false => .ok (entry, some head)
    | .chain _, true => .error .chainEnd

/-- `extend` of the entry behind `p`; `allocated` is the array that the allocator gives. -/
def extend (heap : EntryHeap) (p : EntryPtr) (allocated : Option Nat) (newCapacity : Nat) :
    Except SgFault (Option EntryHeap) :=
  match heap.get p with
  | none => .error .outside
  | some entry =>
    match entry.entryType, entry.isEnd, allocated with
    | .array none, true, some segment =>
      .ok (some (Function.update heap segment (some (createSegment newCapacity))))
    | .array (some frame), true, some segment =>
      match createSegment newCapacity with
      | [] => .error .index
      | _ :: rest =>
        let moved := { entry with entryType := .array (some frame), isEnd := false }
        .ok (some ((EntryHeap.modify (Function.update heap segment (some (moved :: rest))) p
          fun entry => { entry with entryType := .chain ⟨segment, 0⟩, isEnd := false })))
    | _, _, _ => .ok none

end EntryHeap

end Horizon.Dma
