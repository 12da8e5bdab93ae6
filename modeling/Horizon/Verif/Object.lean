import Horizon.Kernel.Object
import Horizon.Spec.RefTree
import Horizon.Spec.Runs
/-!
# When kernel objects are freed

An object whose counter reaches zero is released, and its parent is closed in turn. That is right as
long as every counter covers the opens of its object and the objects below it that are in memory.
Closing keeps this; opening does not, since a directory that is already in memory is passed through
without a reference.
-/

namespace Horizon.Objects

open Function Runs RefTree Tree

/-- `obj_close` releases such an object at its last reference: it has a file system and is no mount
point. -/
def Object.Releasable (object : Object) : Prop :=
  object.fsInfo = true ∧ object.isMounted = false

/-- What the counters are about. -/
def Object.node (object : Object) : Node := ⟨object.parent, object.Releasable, object.reference⟩

namespace Heap

variable {heap after : Heap} {id parent : Nat} {object : Object}

theorem get_eq_ok : heap.get id = .ok object ↔ heap.cells id = .live object := by
  unfold get
  cases heap.cells id with
  | unused | live | freed => simp

/-- The objects in memory. Those in `gone` are about to be freed and no longer count. -/
def tree (heap : Heap) (gone : Finset Nat) : Tree := fun id =>
  if id ∈ gone then none
  else
    match heap.cells id with
    | .live object => some object.node
    | _ => none

/-- The counters cover what is open and what is in memory. `opens` says how often each object is
open. -/
def Covers (heap : Heap) (gone : Finset Nat) (opens : Nat → Nat) : Prop :=
  (heap.tree gone).Covers heap.next opens

/-- The object is in memory and has a reference to spare, or is never released. -/
def Spare (heap : Heap) (opens : Nat → Nat) (id : Nat) : Prop :=
  (heap.tree ∅).Spare heap.next opens id

variable {gone : Finset Nat} {opens : Nat → Nat} {node : Node}

theorem tree_live (found : heap.cells id = .live object) (here : id ∉ gone) :
    heap.tree gone id = some object.node := by
  simp [tree, found, here]

theorem tree_some (found : heap.tree gone id = some node) :
    id ∉ gone ∧ ∃ object, heap.cells id = .live object ∧ object.node = node := by
  unfold tree at found
  split_ifs at found with left
  refine ⟨left, ?_⟩
  split at found
  · rename_i object cell
    exact ⟨object, cell, Option.some.inj found⟩
  · cases found

theorem tree_set (replacement : Object) (here : id ∉ gone) :
    (heap.set id replacement).tree gone = update (heap.tree gone) id (some replacement.node) := by
  funext other
  unfold tree set
  by_cases same : other = id
  · subst same
    simp [here]
  · simp [same]

/-- The list of children is not what the counters are about. -/
theorem tree_relist (found : heap.cells id = .live object) (here : id ∉ gone) (list : List Nat) :
    (heap.set id { object with children := list }).tree gone = heap.tree gone := by
  rw [tree_set _ here]
  exact update_eq_self_iff.mpr (tree_live found here).symm

theorem tree_insert : heap.tree (insert id gone) = update (heap.tree gone) id none := by
  funext other
  unfold tree
  by_cases same : other = id
  · subst same
    simp
  · simp [same]

/-- Freeing the memory of an object that no longer counts. -/
theorem tree_free : { heap with cells := update heap.cells id .freed }.tree gone =
    heap.tree (insert id gone) := by
  rw [tree_insert]
  funext other
  unfold tree
  by_cases same : other = id
  · subst same
    simp
  · simp [same]

/-- What is open is in memory. -/
theorem Covers.live (covers : heap.Covers gone (plus opens id)) :
    id ∉ gone ∧ ∃ object, heap.cells id = .live object := by
  obtain ⟨node, found⟩ := Tree.Covers.held covers (show 0 < plus opens id id by simp)
  obtain ⟨here, object, cell, _⟩ := tree_some found
  exact ⟨here, object, cell⟩

/-- The object was in memory, and is freed. -/
def Freed (before after : Heap) (id : Nat) : Prop :=
  (∃ object, before.cells id = .live object) ∧ after.cells id = .freed

/-- What `obj_close` of `id` leaves when `opens` are left: the counters still cover them, and
nothing at or below a freed object is open. -/
structure Closed (before after : Heap) (gone : Finset Nat) (opens : Nat → Nat) (id : Nat) :
    Prop where
  covers : after.Covers gone opens
  right : ∀ top, Freed before after top → ∀ low, (before.tree gone).Below top low →
    opens low = 0
  frame : ∀ other, id < other → after.cells other = before.cells other

/-- The object keeps other references, or is never released. -/
theorem closed_kept (covers : heap.Covers gone (plus opens id))
    (found : heap.cells id = .live object) :
    Closed heap (heap.set id (unreferred object)) gone opens id := by
  have here := covers.live.1
  refine ⟨?_, ?_, fun other above => update_of_ne (by omega) _ _⟩
  · unfold Covers
    rw [tree_set _ here]
    refine Tree.Covers.recount covers (tree_live found here)
      (fun other place => (plus_of_ne place).symm) fun release => ?_
    have counted := Tree.Covers.counted covers (tree_live found here) release
    rw [plus_self] at counted
    simp only [Object.node, unreferred, decreased] at counted ⊢
    split_ifs <;> omega
  · rintro top ⟨⟨there, before⟩, freed⟩
    by_cases same : top = id
    · subst same
      simp [set] at freed
    · simp [set, update_of_ne same, before] at freed

/-- The step upwards: `list_del`, the close of the parent and `kfree`. -/
theorem closed_released {directory : Object} {unlinked closed : Heap}
    (found : heap.cells id = .live object) (less : parent < id) (zero : opens id = 0)
    (childless : ∀ other, (heap.tree gone).up other ≠ some id)
    (unlinked_eq : unlinked = (heap.set id (unreferred object)).set parent directory)
    (same : unlinked.tree (insert id gone) = heap.tree (insert id gone))
    (above : Closed unlinked closed (insert id gone) opens parent) :
    ∃ after, closed.kfree id = .ok after ∧ Closed heap after gone opens id := by
  subst unlinked_eq
  have others : ∀ other, id < other → ((heap.set id (unreferred object)).set parent
      directory).cells other = heap.cells other := by
    intro other bound
    simp [set, update_of_ne (show other ≠ parent by omega), update_of_ne (show other ≠ id by omega)]
  have cell : closed.cells id = .live (unreferred object) := by
    rw [above.frame id less]
    simp [set, update_of_ne (show id ≠ parent by omega)]
  refine ⟨{ closed with cells := update closed.cells id .freed }, by simp [kfree, cell], ?_, ?_, ?_⟩
  · unfold Covers
    rw [tree_free]
    exact above.covers
  · rintro top ⟨⟨there, before⟩, freed⟩ low below
    rcases below.detach childless with rfl | rest
    · exact zero
    by_cases place : top = id
    · subst place
      exact below.eq_of_childless childless ▸ zero
    · refine above.right top ⟨?_, ?_⟩ low ?_
      · by_cases onParent : top = parent
        · exact ⟨directory, by simp [set, onParent]⟩
        · exact ⟨there, by simp [set, update_of_ne onParent, update_of_ne place, before]⟩
      · simpa [update_of_ne place] using freed
      · rw [same, tree_insert]
        exact rest
  · intro other bound
    show update closed.cells id .freed other = heap.cells other
    rw [update_of_ne (by omega), above.frame other (by omega), others other bound]

/-- `obj_close` of an open object returns, and frees only what is closed. The induction is on the
way up to the root, with the objects that were released on it in `gone`. -/
theorem objClose_closed (fuel : Nat) {heap : Heap} {gone : Finset Nat} {id : Nat}
    (covers : heap.Covers gone (plus opens id)) (enough : id < fuel) :
    ∃ after, heap.objClose fuel id = .ok after ∧ Closed heap after gone opens id := by
  induction fuel generalizing heap gone id with
  | zero => omega
  | succ fuel ih =>
    obtain ⟨here, object, found⟩ := covers.live
    have kept := closed_kept covers found
    simp only [objClose, get_eq_ok.mpr found]
    split_ifs with last
    · simp only [releases, Bool.and_eq_true, beq_iff_eq, Bool.not_eq_true'] at last
      have release : object.Releasable := ⟨last.1.2, last.2⟩
      have one : object.reference ≤ 1 := by
        have zero := last.1.1
        simp only [decreased] at zero
        split_ifs at zero
        omega
      have node := tree_live found here
      obtain ⟨zero, childless⟩ := Tree.Covers.last covers node release one
      obtain ⟨parent, above, up, hangs⟩ := Tree.Covers.rooted covers node release
      obtain ⟨outside, directory, cell, _⟩ := tree_some hangs
      have less := Tree.Covers.rising covers node up
      have there : (heap.set id (unreferred object)).cells parent = .live directory :=
        (update_of_ne (by omega) _ _).trans cell
      have same : ((heap.set id (unreferred object)).set parent
          { directory with children := directory.children.erase id }).tree (insert id gone) =
            heap.tree (insert id gone) := by
        rw [tree_relist there (by simp [outside, Nat.ne_of_lt less]), tree_insert, tree_insert,
          tree_set _ here, update_idem]
      have detached : Covers ((heap.set id (unreferred object)).set parent
          { directory with children := directory.children.erase id }) (insert id gone)
            (plus opens parent) := by
        unfold Covers
        rw [same, tree_insert]
        have left := (covers_plus_iff.mp covers).1
        exact Tree.Covers.detach left node zero childless up hangs
      obtain ⟨closed, close, rest⟩ := ih detached (by omega)
      obtain ⟨after, freed, done⟩ := closed_released found less zero childless rfl same rest
      refine ⟨after, ?_, done⟩
      have parent_eq : object.parent = some parent := up
      simp only [parent_eq, unlink, get_eq_ok.mpr there, ok_bind, pure_ok, close, freed]
    · exact ⟨_, rfl, kept⟩

/-- The counter of the object can take one more reference. -/
def Countable (heap : Heap) (id : Nat) : Prop :=
  ∀ object, heap.get id = .ok object → object.Releasable → object.reference < 2 ^ 32 - 1

/-- Opening a name in a directory: the counter of an object that is in memory can take one more, and
a directory that gets a new child has a reference to spare. -/
def RoomToOpen (heap : Heap) (opens : Nat → Nat) (parent : Nat) (name : Name) : Prop :=
  ∀ directory, heap.get parent = .ok directory →
    match heap.objLookupCache name directory.children with
    | .ok (some child) => heap.Countable child
    | .ok none => directory.fsInfo = true → heap.Spare opens parent
    | .error _ => True

/-- From `start` the path leads through directories in memory to `dir`, with `rest` left. -/
inductive Leads (heap : Heap) : Nat → List Char → Nat → List Char → Prop where
  | here {start : Nat} {path : List Char} : Leads heap start path start path
  | down {start child dir : Nat} {path rest : List Char} {directory object : Object} :
      path ≠ [] → heap.get start = .ok directory →
      heap.objLookupCache (splitPath path).1 directory.children = .ok (some child) →
      heap.get child = .ok object → object.type = .directory →
      Leads heap child (splitPath path).2.2 dir rest → Leads heap start path dir rest

/-- Opening a path: where it leaves the directories in memory, there is room to open what comes
next, and the directory where it ends has a reference to spare. -/
def RoomOnPath (fs : FileSystem) (heap : Heap) (opens : Nat → Nat) (start : Nat)
    (path : List Char) : Prop :=
  ∀ dir rest, heap.Leads start path dir rest →
    (rest = [] → heap.Spare opens dir) ∧
    (rest ≠ [] → ∀ attr, heap.objLookup fs dir (splitPath rest).1 = .ok (some attr) →
      attr.object = none ∨ attr.type ≠ .directory →
      heap.RoomToOpen opens dir (splitPath rest).1)

theorem refer_covers (covers : heap.Covers ∅ opens) (room : heap.Countable id)
    (run : heap.refer id = .ok after) : after.Covers ∅ (plus opens id) := by
  obtain ⟨object, found, done⟩ := bind_eq_ok.mp run
  cases done
  have node : heap.tree ∅ id = some object.node := tree_live (get_eq_ok.mp found) (by simp)
  unfold Covers
  rw [tree_set _ (by simp)]
  refine Tree.Covers.recount covers node (fun other place => plus_of_ne place) fun release => ?_
  have counted := Tree.Covers.counted covers node release
  have less := room object found release
  simp only [Object.node, plus_self, increased] at counted ⊢
  split_ifs <;> omega

/-- A new object below a directory that has a reference to spare. -/
theorem createObject_covers {directory : Object} (covers : heap.Covers ∅ opens)
    (spare : heap.Spare opens parent) (found : heap.get parent = .ok directory)
    (attr : Attr) (name : Name) :
    (heap.createObject parent directory attr name).Covers ∅ opens := by
  have grown : (heap.createObject parent directory attr name).tree ∅ =
      update (heap.tree ∅) heap.next (some ⟨some parent, Object.Releasable
        ⟨name, some parent, 0, attr.type, false, true, attr.fsLocation, []⟩, 0⟩) := by
    rw [← tree_relist (get_eq_ok.mp found) (by simp) (directory.children ++ [heap.next])]
    exact tree_set _ (by simp)
  unfold Covers
  rw [grown]
  exact Tree.Covers.attach covers spare rfl

/-- What `obj_open` leaves when it returned an object, or none. -/
def Opened (opens : Nat → Nat) (result : Option Nat × Heap) : Prop :=
  match result.1 with
  | none => result.2.Covers ∅ opens
  | some object => result.2.Covers ∅ (plus opens object)

variable {fs : FileSystem} {attr : Attr} {name : Name} {result : Option Nat × Heap}
  {path : List Char}

theorem objOpen_opened (covers : heap.Covers ∅ opens) (room : heap.RoomToOpen opens parent name)
    (run : heap.objOpen parent attr name = .ok result) : Opened opens result := by
  obtain ⟨directory, found, run⟩ := bind_eq_ok.mp run
  obtain ⟨cached, lookup, run⟩ := bind_eq_ok.mp run
  have room := room directory found
  rw [lookup] at room
  cases cached with
  | some child =>
    obtain ⟨after, refer, done⟩ := bind_eq_ok.mp run
    cases done
    exact refer_covers covers room refer
  | none =>
    simp only at run
    split_ifs at run with fsInfo file
    · cases run
    · obtain ⟨after, refer, done⟩ := bind_eq_ok.mp run
      cases done
      refine refer_covers (createObject_covers covers (room fsInfo) found attr name) ?_ refer
      intro object created _
      rw [get_eq_ok] at created
      simp only [createObject, update_self, Cell.live.injEq] at created
      simp [← created]
    · cases run
      exact covers

/-- The object that `obj_open` creates has no children. -/
theorem objOpen_created {directory : Object} {child : Nat} (found : heap.get parent = .ok directory)
    (absent : heap.objLookupCache name directory.children = .ok none)
    (run : heap.objOpen parent attr name = .ok (some child, after)) :
    ∃ object, after.get child = .ok object ∧ object.children = [] := by
  unfold objOpen at run
  rw [found, ok_bind, absent, ok_bind] at run
  simp only at run
  split_ifs at run
  · cases run
  · obtain ⟨referred, refer, done⟩ := bind_eq_ok.mp run
    cases done
    obtain ⟨object, created, same⟩ := bind_eq_ok.mp refer
    cases same
    refine ⟨_, get_eq_ok.mpr (update_self _ _ _), ?_⟩
    rw [get_eq_ok] at created
    simp only [createObject, update_self, Cell.live.injEq] at created
    simp [← created]
  · cases run

/-- A directory without children in memory that has a reference to spare has room for any path. -/
theorem roomOnPath_of_empty {directory : Object} (found : heap.get parent = .ok directory)
    (empty : directory.children = []) (spare : heap.Spare opens parent) :
    heap.RoomOnPath fs opens parent path := by
  have absent : ∀ name, heap.objLookupCache name directory.children = .ok none := by
    intro name
    rw [empty]
    rfl
  intro dir rest leads
  cases leads with
  | here =>
    refine ⟨fun _ => spare, fun _ attr _ _ other same => ?_⟩
    rw [found, Except.ok.injEq] at same
    subst same
    rw [absent]
    exact fun _ => spare
  | down _ same lookup =>
    rw [found, Except.ok.injEq] at same
    subst same
    rw [absent] at lookup
    cases lookup

/-- `obj_lookup` returns an object in memory when the cache has one, and else what the file system
knows. -/
theorem objLookup_some (run : heap.objLookup fs parent name = .ok (some attr)) :
    ∃ directory, heap.get parent = .ok directory ∧
      ((∃ child object, heap.objLookupCache name directory.children = .ok (some child) ∧
        heap.get child = .ok object ∧ attr = attrOf child object) ∨
      heap.objLookupCache name directory.children = .ok none ∧ attr.object = none) := by
  obtain ⟨directory, found, run⟩ := bind_eq_ok.mp run
  obtain ⟨cached, lookup, run⟩ := bind_eq_ok.mp run
  refine ⟨directory, found, ?_⟩
  cases cached with
  | some child =>
    obtain ⟨object, there, done⟩ := bind_eq_ok.mp run
    cases done
    exact .inl ⟨child, object, lookup, there, rfl⟩
  | none =>
    refine .inr ⟨lookup, ?_⟩
    simp only [pure_ok] at run
    split_ifs at run
    · simp only [Except.ok.injEq, Option.map_eq_some_iff] at run
      obtain ⟨known, _, same⟩ := run
      rw [← same]
    · cases run

/-- The induction follows the path. As long as the directories are in memory the heap stays as it
is; the first one that is created has no children and one reference to spare, for what is opened in
it or for its own open. -/
theorem objectOpenPath_opened (fuel : Nat) {heap : Heap} {parent : Nat} {path : List Char}
    (covers : heap.Covers ∅ opens) (room : heap.RoomOnPath fs opens parent path)
    (run : heap.objectOpenPath fs fuel parent path = .ok result) : Opened opens result := by
  induction fuel generalizing heap parent path with
  | zero => cases run
  | succ fuel ih =>
    unfold objectOpenPath at run
    have first := room parent path .here
    split_ifs at run with empty
    · cases run
      exact covers_plus_iff.mpr ⟨covers, first.1 empty⟩
    simp only at run
    split_ifs at run with long
    cases lookup : heap.objLookup fs parent (splitPath path).1 with
    | error fault =>
      rw [lookup] at run
      cases run
    | ok looked =>
      cases looked with
      | none =>
        rw [lookup] at run
        cases run
        exact covers
      | some attr =>
        simp only [lookup] at run
        have room' := first.2 empty attr lookup
        obtain ⟨directory, found, inMemory | ⟨absent, onDisk⟩⟩ := objLookup_some lookup
        · obtain ⟨child, object, cached, there, rfl⟩ := inMemory
          split_ifs at run with fits isDirectory
          · refine ih covers ?_ run
            exact fun dir rest leads =>
              room dir rest (.down empty found cached there isDirectory leads)
          · exact objOpen_opened covers (room' (.inr isDirectory)) run
          · cases run
            exact covers
        · split_ifs at run with fits isDirectory
          · rw [onDisk] at run
            simp only at run
            cases opened : heap.objOpen parent attr (splitPath path).1 with
            | error fault =>
              rw [opened] at run
              cases run
            | ok result' =>
              obtain ⟨child, after⟩ := result'
              have kept := objOpen_opened covers (room' (.inl onDisk)) opened
              rw [opened] at run
              cases child with
              | none =>
                cases run
                exact kept
              | some child =>
                obtain ⟨covers', spare⟩ := covers_plus_iff.mp (kept : after.Covers ∅ _)
                obtain ⟨object, there, childless⟩ := objOpen_created found absent opened
                exact ih covers' (roomOnPath_of_empty there childless spare) run
          · exact objOpen_opened covers (room' (.inl onDisk)) run
          · cases run
            exact covers

end Heap

namespace Session

/-- A close that frees rightly: whatever it frees, no open of that object or of one below it is
left. An access to freed memory, or freeing twice, is a fault. -/
def CloseRight (session : Session) (object : Nat) : Prop :=
  ∃ after, session.heap.objClose (object + 1) object = .ok after ∧
    ∀ top, Heap.Freed session.heap after top → ∀ id, (session.heap.tree ∅).Below top id →
      session.remaining object id = 0

/-- A close must free rightly; opens free nothing. -/
def FreesRight (session : Session) : Action → Prop
  | .close object => session.CloseRight object
  | _ => True

/-- Only what is open is closed. -/
def Proper (session : Session) : Action → Prop
  | .close object => 0 < session.opens object
  | _ => True

/-- The condition on the state before a call: an open leaves every counter large enough. A close
needs nothing. -/
def Roomy (fs : FileSystem) (session : Session) : Action → Prop
  | .openPath parent path => session.heap.RoomOnPath fs session.opens parent path
  | .open parent _ name => session.heap.RoomToOpen session.opens parent name
  | .close _ => True

/-- Every call of a session is good where it happens, as long as only what is open is closed. -/
def Always (good : Session → Action → Prop) (fs : FileSystem) : List Action → Session → Prop
  | [], _ => True
  | action :: rest, session =>
    session.Proper action →
      good session action ∧ ∀ after, session.step fs action = .ok after → Always good fs rest after

/-- The counters cover the opens of the session. -/
def Covered (session : Session) : Prop := session.heap.Covers ∅ session.opens

variable {session after : Session} {fs : FileSystem}

theorem opened_covered {result : Option Nat × Heap} (opened : Heap.Opened session.opens result) :
    (session.opened result).Covered := by
  obtain ⟨object, heap⟩ := result
  cases object with
  | none => exact opened
  | some object => exact opened

/-- An open object is closed rightly, and the counters cover what is left. -/
theorem close_closed (covered : session.Covered) {object : Nat}
    (isOpen : 0 < session.opens object) :
    ∃ after, session.heap.objClose (object + 1) object = .ok after ∧
      Heap.Closed session.heap after ∅ (session.remaining object) object := by
  refine Heap.objClose_closed (object + 1) ?_ (Nat.lt_succ_self object)
  have same : plus (session.remaining object) object = session.opens := by
    funext other
    by_cases here : other = object
    · subst here
      simp only [plus_self, remaining, update_self]
      omega
    · rw [plus_of_ne here, remaining, update_of_ne here]
  rw [same]
  exact covered

/-- The step lemma: a call with room keeps the counters in step. -/
theorem step_covered {action : Action} (covered : session.Covered) (proper : session.Proper action)
    (roomy : session.Roomy fs action) (run : session.step fs action = .ok after) :
    after.Covered := by
  cases action with
  | openPath parent path =>
    obtain ⟨result, opened, done⟩ := bind_eq_ok.mp run
    cases done
    exact opened_covered (Heap.objectOpenPath_opened _ covered roomy opened)
  | «open» parent attr name =>
    obtain ⟨result, opened, done⟩ := bind_eq_ok.mp run
    cases done
    exact opened_covered (Heap.objOpen_opened covered roomy opened)
  | close object =>
    obtain ⟨heap, closed, done⟩ := bind_eq_ok.mp run
    cases done
    obtain ⟨heap', closed', result⟩ := close_closed covered proper
    rw [closed', Except.ok.injEq] at closed
    subst closed
    exact result.covers

theorem freesRight_of_covered {action : Action} (covered : session.Covered)
    (proper : session.Proper action) : session.FreesRight action := by
  cases action with
  | openPath | «open» => trivial
  | close object =>
    obtain ⟨after, run, closed⟩ := close_closed covered proper
    exact ⟨after, run, closed.right⟩

end Session

/-- A tree of objects whose counters cover what is open and what is in memory. -/
structure CountedTree where
  session : Session
  covered : session.Covered

def directoryName : Name := [Char.ofNat 68]

def firstName : Name := [Char.ofNat 97]

def secondName : Name := [Char.ofNat 98]

def twoFiles : FileSystem := fun data name =>
  if data = 0 ∧ name = directoryName then some (.directory, 1)
  else if data = 1 ∧ name = firstName then some (.file, 2)
  else if data = 1 ∧ name = secondName then some (.file, 3)
  else none

def volume : Object where
  name := []
  parent := none
  reference := 0
  type := .directory
  isMounted := true
  fsInfo := true
  data := 0
  children := []

def mounted : Heap where
  cells id := if id = 0 then .live volume else .unused
  next := 1

theorem mounted_tree {id : Nat} {node : Node} (found : mounted.tree ∅ id = some node) :
    id = 0 ∧ node = volume.node := by
  obtain ⟨_, object, cell, same⟩ := Heap.tree_some found
  simp only [mounted] at cell
  split_ifs at cell with zero
  cases cell
  exact ⟨zero, same.symm⟩

def mountedTree : CountedTree where
  session := ⟨mounted, fun _ => 0⟩
  covered := by
    constructor
    · intro id node parent found up
      obtain ⟨rfl, rfl⟩ := mounted_tree found
      cases up
    · intro id node found
      obtain ⟨rfl, rfl⟩ := mounted_tree found
      decide
    · intro id node found release
      obtain ⟨rfl, rfl⟩ := mounted_tree found
      cases release.2
    · exact fun positive => absurd positive (lt_irrefl _)
    · intro id node found release
      obtain ⟨rfl, rfl⟩ := mounted_tree found
      cases release.2

/-- A mount point without children in memory has room for any path. -/
theorem roomy_of_mounted {session : Session} {object : Object} (fs : FileSystem)
    (found : session.heap.get 0 = .ok object) (mount : object.isMounted = true)
    (empty : object.children = []) (path : List Char) :
    session.Roomy fs (.openPath 0 path) := by
  refine Heap.roomOnPath_of_empty found empty
    ⟨object.node, Heap.tree_live (Heap.get_eq_ok.mp found) (by simp), fun release => ?_⟩
  cases mount.symm.trans release.2

def closeFirst : List Action :=
  [.openPath 0 (directoryName ++ separator :: firstName),
    .openPath 0 (directoryName ++ separator :: secondName), .close 2]

end Horizon.Objects
