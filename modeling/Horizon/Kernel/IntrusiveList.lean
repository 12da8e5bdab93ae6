import Mathlib

/-!
# Intrusive lists

`lib/rust/list.rs`: circular doubly linked lists. A list head has a link of its own, and a node has
one while it is in a list. Access through a pointer to the link of a node that has none is not
defined in the source and stops the run here.
-/

namespace Horizon.IntrusiveList

open Function

/-- The panics of list operations. -/
inductive ListPanic
  /-- `assert!` in `ListNode::add`. -/
  | addLinked
  /-- `expect` in `ListNode::delete`. -/
  | deleteUnlinked
  /-- `debug_assert!` in `is_empty` and `iter`. -/
  | notInitialized
  | noLink
  /-- An iterator that has not ended after the given rounds. -/
  | roundBound
  deriving DecidableEq

/-- A link points nowhere, to a head or to a node. -/
inductive Ptr (η ν : Type)
  | dangling
  | head (h : η)
  | node (n : ν)
  deriving DecidableEq

/-- The two pointers of a head or a node. -/
structure Link (η ν : Type) where
  prev : Ptr η ν
  next : Ptr η ν
  deriving DecidableEq

/-- The links of all heads, and of the nodes that are linked. -/
structure Heap (η ν : Type) where
  head : η → Link η ν
  node : ν → Option (Link η ν)

variable {η ν : Type}

namespace Heap

/-- `ListHead::default` and `ListNode::new` everywhere. -/
def fresh : Heap η ν := ⟨fun _ => ⟨.dangling, .dangling⟩, fun _ => none⟩

/-- What a pointer points to. -/
def link (s : Heap η ν) : Ptr η ν → Option (Link η ν)
  | .dangling => none
  | .head h => some (s.head h)
  | .node n => s.node n

variable [DecidableEq η] [DecidableEq ν] (s : Heap η ν) (h : η) (n : ν)

def modify (p : Ptr η ν) (f : Link η ν → Link η ν) : Except ListPanic (Heap η ν) :=
  match p with
  | .dangling => .error .noLink
  | .head h => .ok { s with head := update s.head h (f (s.head h)) }
  | .node n =>
    match s.node n with
    | none => .error .noLink
    | some link => .ok { s with node := update s.node n (some (f link)) }

def setNext (p q : Ptr η ν) : Except ListPanic (Heap η ν) :=
  s.modify p fun link => { link with next := q }

def setPrev (p q : Ptr η ν) : Except ListPanic (Heap η ν) :=
  s.modify p fun link => { link with prev := q }

/-- `ListHead::init`. -/
def init : Heap η ν :=
  { s with head := update s.head h ⟨.head h, .head h⟩ }

/-- `ListNode::add` between two neighbours. -/
def add (prev next : Ptr η ν) : Except ListPanic (Heap η ν) := do
  if (s.node n).isSome then throw .addLinked
  let s : Heap η ν := { s with node := update s.node n (some ⟨prev, next⟩) }
  let s ← s.setNext prev (.node n)
  s.setPrev next (.node n)

/-- `ListHead::delete`. -/
def delete : Except ListPanic (Heap η ν) := do
  let link ← (s.node n).elim (.error .deleteUnlinked) .ok
  let s ← s.setNext link.prev link.next
  -- The link is read again: it is behind a reference.
  let link ← (s.node n).elim (.error .noLink) .ok
  let s ← s.setPrev link.next link.prev
  return { s with node := update s.node n none }

/-- `ListHead::add_head`. -/
def addHead : Except ListPanic (Heap η ν) :=
  s.add n (.head h) (s.head h).next

/-- `ListHead::add_tail`. -/
def addTail : Except ListPanic (Heap η ν) :=
  s.add n (s.head h).prev (.head h)

/-- The `debug_assert!` on the link of a head. -/
def initialized : Bool :=
  (s.head h).prev != .dangling && (s.head h).next != .dangling

/-- `ListHead::is_empty`. -/
def isEmpty : Except ListPanic Bool :=
  if s.initialized h then .ok ((s.head h).prev == .head h && (s.head h).next == .head h)
  else .error .notInitialized

/-- `ListNode::is_linked`. -/
def isLinked : Bool := (s.node n).isSome

end Heap

/-- An iterator: the head it started from, and the link it returns next. -/
structure ListIterator (η ν : Type) where
  head : Ptr η ν
  next : Option (Ptr η ν)

variable [DecidableEq η] [DecidableEq ν]

/-- `ListHead::iter`. -/
def Heap.iter (s : Heap η ν) (h : η) : Except ListPanic (ListIterator η ν) :=
  if s.initialized h then
    .ok ⟨.head h, if (s.head h).next ≠ .head h then some (s.head h).next else none⟩
  else .error .notInitialized

/-- `ListIterator::next`: the link it yields, and the iterator after it. -/
def ListIterator.step (s : Heap η ν) (it : ListIterator η ν) :
    Except ListPanic (Option (Ptr η ν) × ListIterator η ν) :=
  match it.next with
  | none => .ok (none, it)
  | some current =>
    match s.link current with
    | none => .error .noLink
    | some link =>
      .ok (some current, { it with next := if link.next ≠ it.head then some link.next else none })

/-- What an iterator yields, if it ends within the given rounds. -/
def ListIterator.collect (s : Heap η ν) : Nat → ListIterator η ν → Except ListPanic (List (Ptr η ν))
  | 0, _ => .error .roundBound
  | rounds + 1, it => do
    match ← it.step s with
    | (none, _) => return []
    | (some current, it) => return current :: (← it.collect s rounds)

end Horizon.IntrusiveList
