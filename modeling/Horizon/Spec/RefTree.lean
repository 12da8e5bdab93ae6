import Mathlib
/-!
# Trees of counted nodes

Nodes point to their parents and count references. The counters cover a tree when each is at least
the number of uses of its node and of nodes below it. Then a node whose counter runs out is used by
nobody and has no children.
-/

namespace Horizon.RefTree

open Function

/-- One more at `id`. -/
def plus (uses : ℕ → ℕ) (id : ℕ) : ℕ → ℕ := update uses id (uses id + 1)

@[simp]
theorem plus_self (uses : ℕ → ℕ) (id : ℕ) : plus uses id id = uses id + 1 :=
  update_self _ _ _

theorem plus_of_ne {uses : ℕ → ℕ} {id other : ℕ} (different : other ≠ id) :
    plus uses id other = uses other :=
  update_of_ne different _ _

/-- Where a node hangs, whether it goes with its last reference, and its counter. -/
structure Node where
  parent : Option ℕ
  releasable : Prop
  count : ℕ

abbrev Tree := ℕ → Option Node

namespace Tree

/-- The parent of a node of the tree. -/
def up (tree : Tree) (id : ℕ) : Option ℕ := (tree id).bind Node.parent

/-- `id` is `top` or lies below it. -/
inductive Below (tree : Tree) (top : ℕ) : ℕ → Prop where
  | self : Below tree top top
  | child {id parent : ℕ} : Below tree top parent → tree.up id = some parent → Below tree top id

/-- The nodes before `bound` that hang on `parent`. -/
def children (tree : Tree) (bound parent : ℕ) : Finset ℕ :=
  (Finset.range bound).filter fun id => tree.up id = some parent

variable {tree : Tree} {bound id parent low top : ℕ} {node above : Node} {uses : ℕ → ℕ}

theorem mem_children : id ∈ tree.children bound parent ↔ id < bound ∧ tree.up id = some parent := by
  simp [children]

theorem up_of_some (found : tree id = some node) : tree.up id = node.parent := by
  simp [up, found]

theorem some_of_up (found : tree.up id = some parent) :
    ∃ node, tree id = some node ∧ node.parent = some parent :=
  Option.bind_eq_some_iff.mp found

theorem up_update (entry : Option Node) :
    up (update tree id entry) = update tree.up id (entry.bind Node.parent) := by
  funext other
  by_cases same : other = id
  · subst same
    simp [up]
  · simp [up, same]

theorem Below.eq_of_childless (childless : ∀ other, tree.up other ≠ some top)
    (below : tree.Below top low) : low = top := by
  induction below with
  | self => rfl
  | child _ found ih => exact absurd (ih ▸ found) (childless _)

/-- Without the childless `id` nothing else leaves the tree below `top`. -/
theorem Below.detach (childless : ∀ other, tree.up other ≠ some id) (below : tree.Below top low) :
    low = id ∨ Below (update tree id none) top low := by
  induction below with
  | self => exact .inr .self
  | @child other parent _ found ih =>
    by_cases same : other = id
    · exact .inl same
    rcases ih with here | below
    · subst here
      exact absurd found (childless other)
    · exact .inr (.child below (by rw [up_update, update_of_ne same, found]))

/-- The counters cover the uses and the nodes below, before `bound`. -/
structure Covers (tree : Tree) (bound : ℕ) (uses : ℕ → ℕ) : Prop where
  /-- Parents come before their children. -/
  rising : ∀ {id node parent}, tree id = some node → node.parent = some parent → parent < id
  bounded : ∀ {id node}, tree id = some node → id < bound
  /-- What can be released hangs on a node of the tree. -/
  rooted : ∀ {id node}, tree id = some node → node.releasable →
    ∃ parent above, node.parent = some parent ∧ tree parent = some above
  /-- What is used is in the tree. -/
  held : ∀ {id}, 0 < uses id → ∃ node, tree id = some node
  /-- A counter is at least the number of uses and of nodes below. -/
  counted : ∀ {id node}, tree id = some node → node.releasable →
    uses id + (tree.children bound id).card ≤ node.count

/-- The node has a reference to spare, or is never released. -/
def Spare (tree : Tree) (bound : ℕ) (uses : ℕ → ℕ) (id : ℕ) : Prop :=
  ∃ node, tree id = some node ∧
    (node.releasable → uses id + (tree.children bound id).card < node.count)

theorem update_some {entry : Option Node} {other : ℕ}
    (found : update tree id entry other = some node) :
    other = id ∧ entry = some node ∨ other ≠ id ∧ tree other = some node := by
  by_cases same : other = id
  · subst same
    exact .inl ⟨rfl, by simpa using found⟩
  · exact .inr ⟨same, by rwa [update_of_ne same] at found⟩

/-- A node gets another counter, and is used as often as that allows. -/
theorem Covers.recount {count : ℕ} {others : ℕ → ℕ} (covers : tree.Covers bound uses)
    (found : tree id = some node) (same : ∀ other, other ≠ id → others other = uses other)
    (counted : node.releasable → others id + (tree.children bound id).card ≤ count) :
    Covers (update tree id (some { node with count := count })) bound others := by
  have ups : up (update tree id (some { node with count := count })) = tree.up := by
    rw [up_update]
    exact update_eq_self_iff.mpr (up_of_some found).symm
  have kept : ∀ {other there}, tree other = some there →
      ∃ now, update tree id (some { node with count := count }) other = some now := by
    intro other there cell
    by_cases place : other = id
    · subst place
      exact ⟨_, update_self _ _ _⟩
    · exact ⟨there, (update_of_ne place _ _).trans cell⟩
  constructor
  · intro other there above cell up
    rcases update_some cell with ⟨rfl, new⟩ | ⟨_, old⟩
    · cases new
      exact covers.rising found up
    · exact covers.rising old up
  · intro other there cell
    rcases update_some cell with ⟨rfl, _⟩ | ⟨_, old⟩
    · exact covers.bounded found
    · exact covers.bounded old
  · intro other there cell release
    have before : ∃ old, tree other = some old ∧ old.releasable ∧ old.parent = there.parent := by
      rcases update_some cell with ⟨rfl, new⟩ | ⟨_, old⟩
      · cases new
        exact ⟨node, found, release, rfl⟩
      · exact ⟨there, old, release, rfl⟩
    obtain ⟨old, cellOld, releaseOld, parentOld⟩ := before
    obtain ⟨above, directory, up, cellAbove⟩ := covers.rooted cellOld releaseOld
    obtain ⟨now, cellNow⟩ := kept cellAbove
    exact ⟨above, now, parentOld ▸ up, cellNow⟩
  · intro other positive
    by_cases place : other = id
    · subst place
      exact ⟨_, update_self _ _ _⟩
    · rw [same other place] at positive
      obtain ⟨there, cell⟩ := covers.held positive
      exact kept cell
  · intro other there cell release
    unfold children
    rw [ups]
    rcases update_some cell with ⟨rfl, new⟩ | ⟨place, old⟩
    · cases new
      exact counted release
    · rw [same other place]
      exact covers.counted old release

/-- One more use needs a reference to spare. -/
theorem covers_plus_iff :
    tree.Covers bound (plus uses id) ↔ tree.Covers bound uses ∧ tree.Spare bound uses id := by
  have le : ∀ other, uses other ≤ plus uses id other := by
    intro other
    by_cases same : other = id
    · subst same
      simp
    · rw [plus_of_ne same]
  constructor
  · intro covers
    refine ⟨⟨covers.rising, covers.bounded, covers.rooted,
      fun positive => covers.held (lt_of_lt_of_le positive (le _)), ?_⟩, ?_⟩
    · intro other node cell release
      exact (Nat.add_le_add_right (le other) _).trans (covers.counted cell release)
    · obtain ⟨node, cell⟩ := covers.held (show 0 < plus uses id id by simp)
      refine ⟨node, cell, fun release => ?_⟩
      have counted := covers.counted cell release
      rw [plus_self] at counted
      omega
  · rintro ⟨covers, node, cell, spare⟩
    refine ⟨covers.rising, covers.bounded, covers.rooted, ?_, ?_⟩
    · intro other positive
      by_cases same : other = id
      · exact ⟨node, same ▸ cell⟩
      · rw [plus_of_ne same] at positive
        exact covers.held positive
    · intro other there cellOther release
      by_cases same : other = id
      · subst same
        rw [cell, Option.some.injEq] at cellOther
        subst cellOther
        have room := spare release
        rw [plus_self]
        omega
      · rw [plus_of_ne same]
        exact covers.counted cellOther release

/-- A node without uses and without children leaves the tree, and its parent is to be released
once. -/
theorem Covers.detach (covers : tree.Covers bound uses) (found : tree id = some node)
    (unused : uses id = 0) (childless : ∀ other, tree.up other ≠ some id)
    (up : node.parent = some parent) (hangs : tree parent = some above) :
    Covers (update tree id none) bound (plus uses parent) := by
  have less := covers.rising found up
  have live : ∀ {other there}, update tree id none other = some there →
      other ≠ id ∧ tree other = some there := by
    intro other there cell
    rcases update_some cell with ⟨_, none⟩ | old
    · cases none
    · exact old
  have kept : ∀ {other there}, other ≠ id → tree other = some there →
      update tree id none other = some there :=
    fun different cell => (update_of_ne different _ _).trans cell
  refine ⟨fun cell => covers.rising (live cell).2, fun cell => covers.bounded (live cell).2, ?_,
    ?_, ?_⟩
  · intro other there cell release
    obtain ⟨top, topNode, upOther, cellTop⟩ := covers.rooted (live cell).2 release
    refine ⟨top, topNode, upOther, kept (fun same => childless other ?_) cellTop⟩
    rw [up_of_some (live cell).2, upOther, same]
  · intro other positive
    by_cases same : other = parent
    · exact ⟨above, kept (by omega) (same ▸ hangs)⟩
    · rw [plus_of_ne same] at positive
      obtain ⟨there, cell⟩ := covers.held positive
      exact ⟨there, kept (fun here => by rw [here] at positive; omega) cell⟩
  · intro other there cell release
    have counted := covers.counted (live cell).2 release
    have erased : children (update tree id none) bound other =
        (tree.children bound other).erase id := by
      ext child
      rw [Finset.mem_erase, mem_children, mem_children, up_update]
      by_cases same : child = id
      · simp [same]
      · simp [same]
    rw [erased]
    by_cases same : other = parent
    · have member : id ∈ tree.children bound other :=
        mem_children.mpr ⟨covers.bounded found, by rw [up_of_some found, up, same]⟩
      have positive := Finset.card_pos.mpr ⟨id, member⟩
      rw [same, plus_self, ← same, Finset.card_erase_of_mem member]
      omega
    · rw [plus_of_ne same]
      exact (Nat.add_le_add_left (Finset.card_le_card (Finset.erase_subset _ _)) _).trans counted

/-- A new node on one that has a reference to spare. -/
theorem Covers.attach (covers : tree.Covers bound uses) (spare : tree.Spare bound uses parent)
    (up : node.parent = some parent) :
    Covers (update tree bound (some node)) (bound + 1) uses := by
  obtain ⟨above, hangs, spare⟩ := spare
  have kept : ∀ {other there}, tree other = some there →
      update tree bound (some node) other = some there :=
    fun cell => (update_of_ne (Nat.ne_of_lt (covers.bounded cell)) _ _).trans cell
  have attached : ∀ other, children (update tree bound (some node)) (bound + 1) other =
      if other = parent then insert bound (tree.children bound other)
      else tree.children bound other := by
    intro other
    ext child
    rw [mem_children, up_update]
    by_cases same : child = bound
    · subst same
      split_ifs with here
      · simp [here, up]
      · simp [mem_children, up, Ne.symm here]
    · have less : child < bound + 1 ↔ child < bound := by omega
      split_ifs <;> simp [same, mem_children, less]
  constructor
  · intro other there top cell upward
    rcases update_some cell with ⟨rfl, new⟩ | ⟨_, old⟩
    · cases new
      rw [up, Option.some.injEq] at upward
      exact upward ▸ covers.bounded hangs
    · exact covers.rising old upward
  · intro other there cell
    rcases update_some cell with ⟨rfl, _⟩ | ⟨_, old⟩
    · exact Nat.lt_succ_self _
    · exact Nat.lt_succ_of_lt (covers.bounded old)
  · intro other there cell release
    rcases update_some cell with ⟨rfl, new⟩ | ⟨_, old⟩
    · cases new
      exact ⟨parent, above, up, kept hangs⟩
    · obtain ⟨top, topNode, upward, cellTop⟩ := covers.rooted old release
      exact ⟨top, topNode, upward, kept cellTop⟩
  · intro other positive
    obtain ⟨there, cell⟩ := covers.held positive
    exact ⟨there, kept cell⟩
  · intro other there cell release
    rw [attached]
    rcases update_some cell with ⟨rfl, _⟩ | ⟨_, old⟩
    · -- Nothing uses the new node or hangs on it yet.
      have unused : uses other = 0 := by
        by_contra positive
        obtain ⟨_, cell⟩ := covers.held (Nat.pos_of_ne_zero positive)
        exact absurd (covers.bounded cell) (lt_irrefl _)
      have childless : tree.children other other = ∅ := by
        refine Finset.eq_empty_of_forall_notMem fun child member => ?_
        obtain ⟨less, upward⟩ := mem_children.mp member
        obtain ⟨_, cell, top⟩ := some_of_up upward
        exact absurd (covers.rising cell top) (by omega)
      rw [if_neg (Nat.ne_of_gt (covers.bounded hangs)), childless, unused]
      exact Nat.zero_le _
    · have counted := covers.counted old release
      split_ifs with same
      · subst same
        rw [hangs, Option.some.injEq] at old
        subst old
        have room := spare release
        have grown := Finset.card_insert_le bound (tree.children bound other)
        omega
      · exact counted

/-- At its last reference a node has no other uses and no children. -/
theorem Covers.last (covers : tree.Covers bound (plus uses id)) (found : tree id = some node)
    (release : node.releasable) (one : node.count ≤ 1) :
    uses id = 0 ∧ ∀ other, tree.up other ≠ some id := by
  have counted := covers.counted found release
  rw [plus_self] at counted
  refine ⟨by omega, fun other upward => ?_⟩
  obtain ⟨child, cell, _⟩ := some_of_up upward
  have positive := Finset.card_pos.mpr ⟨other, mem_children.mpr ⟨covers.bounded cell, upward⟩⟩
  omega

end Tree

end Horizon.RefTree
