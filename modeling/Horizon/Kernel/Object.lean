import Mathlib
/-!
# Kernel objects

Objects form a tree by their parent pointers; a directory lists the objects below it that are in
memory. Opening counts references, and closing the last one releases the object and closes its
parent (`objects/ops.c`, `objects/objects.c`). Objects live in a heap of cells, so an access to
freed memory is a fault.
-/

namespace Horizon.Objects

open Function

/-- `ObjectType`, as far as the calls below distinguish it. -/
inductive ObjectType where
  | directory
  | file
  | other
  deriving DecidableEq

abbrev Name := List Char

/-- An `Object`, with the fields of its attributes that are read here. `fsInfo` says whether the
pointer is set; `data` stands for the file system's own entry. -/
structure Object where
  name : Name
  parent : Option Nat
  reference : Nat
  type : ObjectType
  isMounted : Bool
  fsInfo : Bool
  data : Nat
  children : List Nat
  deriving DecidableEq

/-- A place of the heap: never used, an object, or freed. -/
inductive Cell where
  | unused
  | live (object : Object)
  | freed
  deriving DecidableEq

/-- The objects in memory; `next` is the pointer of the next allocation. -/
structure Heap where
  cells : Nat → Cell
  next : Nat

/-- What stops the kernel: memory that holds no object, a null pointer, a name longer than the array
on the stack, or an endless recursion. -/
inductive Fault where
  | dangling
  | nullPointer
  | overflow
  | depth
  deriving DecidableEq

/-- An `ObjectAttr`: the type, the object in memory if there is one, and the file system's
location. -/
structure Attr where
  type : ObjectType
  object : Option Nat
  fsLocation : Nat
  deriving DecidableEq

/-- What a file system's `fs_lookup` finds under a name in a directory. -/
abbrev FileSystem := Nat → Name → Option (ObjectType × Nat)

variable (heap : Heap)

namespace Heap

/-- The object behind a pointer. -/
def get (id : Nat) : Except Fault Object :=
  match heap.cells id with
  | .live object => .ok object
  | _ => .error .dangling

/-- A write to an object. -/
def set (id : Nat) (object : Object) : Heap :=
  { heap with cells := update heap.cells id (.live object) }

/-- `kfree` of an object. -/
def kfree (id : Nat) : Except Fault Heap :=
  match heap.cells id with
  | .live _ => .ok { heap with cells := update heap.cells id .freed }
  | _ => .error .dangling

/-- The loop of `obj_lookup_cache` over the children of a directory. -/
def objLookupCache (heap : Heap) (name : Name) : List Nat → Except Fault (Option Nat)
  | [] => .ok none
  | child :: rest =>
    match heap.get child with
    | .error fault => .error fault
    | .ok object => if object.name = name then .ok (some child) else heap.objLookupCache name rest

def attrOf (id : Nat) (object : Object) : Attr := ⟨object.type, some id, object.data⟩

/-- `obj_lookup`; `none` is `OBJECT_ERROR_CANNOT_FIND`. -/
def objLookup (fs : FileSystem) (parent : Nat) (name : Name) : Except Fault (Option Attr) := do
  let directory ← heap.get parent
  match ← heap.objLookupCache name directory.children with
  | some child =>
    let object ← heap.get child
    return some (attrOf child object)
  | none =>
    if directory.fsInfo then
      return (fs directory.data name).map fun found => ⟨found.1, none, found.2⟩
    else return none

/-- The object that a file system's `fs_open` creates below a directory. -/
def createObject (parent : Nat) (directory : Object) (attr : Attr) (name : Name) : Heap :=
  let heap' := heap.set parent { directory with children := directory.children ++ [heap.next] }
  { cells := update heap'.cells heap.next (.live
      { name, parent := some parent, reference := 0, type := attr.type, isMounted := false
        fsInfo := true, data := attr.fsLocation, children := [] })
    next := heap.next + 1 }

/-- `reference++` on a 32-bit counter. -/
def increased (reference : Nat) : Nat :=
  if reference = 2 ^ 32 - 1 then 0 else reference + 1

/-- `reference--` on a 32-bit counter. -/
def decreased (reference : Nat) : Nat :=
  if reference = 0 then 2 ^ 32 - 1 else reference - 1

/-- One more reference to an object. -/
def refer (id : Nat) : Except Fault Heap := do
  let object ← heap.get id
  return heap.set id { object with reference := increased object.reference }

/-- `obj_open`; the object is `none` when the result is `OBJECT_ERROR_CANNOT_FIND`. -/
def objOpen (parent : Nat) (attr : Attr) (name : Name) : Except Fault (Option Nat × Heap) := do
  let directory ← heap.get parent
  match ← heap.objLookupCache name directory.children with
  | some child =>
    let heap ← heap.refer child
    return (some child, heap)
  | none =>
    if directory.fsInfo then
      -- `create_object` refuses a parent that is no directory, and its caller does not look.
      if directory.type ≠ .directory then throw .nullPointer
      let created := heap.createObject parent directory attr name
      let heap' ← created.refer heap.next
      return (some heap.next, heap')
    else return (none, heap)

end Heap

/-- The character between the components of a path. -/
def separator : Char := Char.ofNat 92

/-- The first component of a path, whether a separator follows it, and the path behind it. -/
def splitPath (path : List Char) : Name × Bool × List Char :=
  let name := path.takeWhile (· ≠ separator)
  match path.dropWhile (· ≠ separator) with
  | [] => (name, false, [])
  | _ :: rest => (name, true, rest)

namespace Heap

/-- `object_open_path`; one unit of fuel for each component. -/
def objectOpenPath (fs : FileSystem) : Nat → Heap → Nat → List Char →
    Except Fault (Option Nat × Heap)
  | 0, _, _, _ => .error .depth
  | fuel + 1, heap, parent, path =>
    if path = [] then .ok (some parent, heap)
    else
      let (name, isDirectory, rest) := splitPath path
      -- `char ascii_name[256]` takes the name and its end.
      if 256 ≤ name.length then .error .overflow
      else
        match heap.objLookup fs parent name with
        | .error fault => .error fault
        | .ok none => .ok (none, heap)
        | .ok (some attr) =>
          if (isDirectory ∧ attr.type = .directory) ∨ ¬ isDirectory then
            if attr.type = .directory then
              match attr.object with
              | some object => objectOpenPath fs fuel heap object rest
              | none =>
                match heap.objOpen parent attr name with
                | .error fault => .error fault
                | .ok (none, heap) => .ok (none, heap)
                | .ok (some object, heap) => objectOpenPath fs fuel heap object rest
            else heap.objOpen parent attr name
          else .ok (none, heap)

def unreferred (object : Object) : Object :=
  { object with reference := decreased object.reference }

/-- Whether `obj_close` goes on to release the object, by its counter after the decrease. -/
def releases (reference : Nat) (fsInfo isMounted : Bool) : Bool :=
  (reference == 0) && fsInfo && !isMounted

/-- `list_del(&object->list)`: the parent's list of children is in the parent's memory. -/
def unlink (id parent : Nat) : Except Fault Heap := do
  let directory ← heap.get parent
  return heap.set parent { directory with children := directory.children.erase id }

/-- `obj_close`; one unit of fuel for each object on the way up. The callbacks of the file system
release its own data and touch no object. -/
def objClose : Nat → Heap → Nat → Except Fault Heap
  | 0, _, _ => .error .depth
  | fuel + 1, heap, id =>
    match heap.get id with
    | .error fault => .error fault
    | .ok object =>
      let heap := heap.set id (unreferred object)
      if releases (decreased object.reference) object.fsInfo object.isMounted then
        match object.parent with
        | none => .error .nullPointer
        | some parent => do
          let heap ← heap.unlink id parent
          let heap ← objClose fuel heap parent
          heap.kfree id
      else .ok heap

end Heap

/-- The calls of a session. -/
inductive Action where
  | openPath (parent : Nat) (path : List Char)
  | open (parent : Nat) (attr : Attr) (name : Name)
  | close (object : Nat)
  deriving DecidableEq

/-- The heap together with the number of opens of each object that are not closed yet. -/
structure Session where
  heap : Heap
  opens : Nat → Nat

namespace Session

def opened (session : Session) (result : Option Nat × Heap) : Session :=
  match result.1 with
  | none => { session with heap := result.2 }
  | some object =>
    { heap := result.2
      opens := update session.opens object (session.opens object + 1) }

def remaining (session : Session) (object : Nat) : Nat → Nat :=
  update session.opens object (session.opens object - 1)

/-- One call. Every object on a path to the root has a smaller pointer, so the fuel of `obj_close`
is enough. -/
def step (fs : FileSystem) (session : Session) : Action → Except Fault Session
  | .openPath parent path => do
    let result ← session.heap.objectOpenPath fs (path.length + 1) parent path
    return session.opened result
  | .open parent attr name => do
    let result ← session.heap.objOpen parent attr name
    return session.opened result
  | .close object => do
    let heap ← session.heap.objClose (object + 1) object
    return { heap, opens := session.remaining object }

end Session

end Horizon.Objects
