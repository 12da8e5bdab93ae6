import Mathlib

/-!
# Radix trees in a store of tables

A store maps a table and an index to an entry, and reads an entry at a level as empty, as a value,
or as a link to a table one level below. Walking a key from a root table ends at the first entry
that is not a link. When the reachable tables form a tree, writing one entry changes the walks of
exactly those keys that pass through it.
-/

namespace Horizon.Radix

variable {ν ι ε : Type*}

/-- What an entry says to a walk. -/
inductive View (ν : Type*)
  | empty
  | value
  | link (child : ν)

/-- Tables and the reading of their entries. -/
structure Store (ν ι ε : Type*) where
  entry : ν → ι → ε
  view : ℕ → ε → View ν

namespace Store

variable (s : Store ν ι ε) {s' : Store ν ι ε} {top : ℕ} {root : ν} {key other : ℕ → ι}

def see (key : ℕ → ι) (level : ℕ) (table : ν) : View ν := s.view level (s.entry table (key level))

def find (key : ℕ → ι) : ℕ → ν → Option (ℕ × ε)
  | 0, table =>
    match s.see key 0 table with
    | .value => some (0, s.entry table (key 0))
    | _ => none
  | level + 1, table =>
    match s.see key (level + 1) table with
    | .empty => none
    | .value => some (level + 1, s.entry table (key (level + 1)))
    | .link child => find key level child

/-- The tables that the walk of a key from the root visits. -/
inductive At (top : ℕ) (root : ν) (key : ℕ → ι) : ℕ → ν → Prop
  | root : At top root key top root
  | child {level : ℕ} {table child : ν} (visited : At top root key (level + 1) table)
      (linked : s.see key (level + 1) table = .link child) : At top root key level child

variable {s} {level : ℕ} {table : ν}

theorem At.level_le (visited : s.At top root key level table) : level ≤ top := by
  induction visited with
  | root => exact le_refl top
  | child _ _ ih => exact le_trans (Nat.le_succ _) ih

theorem At.eq_root (visited : s.At top root key top table) : table = root := by
  cases visited with
  | root => rfl
  | child above _ => exact absurd above.level_le (Nat.not_succ_le_self top)

section

variable (visited : s.At top root key level table)
include visited

theorem At.unique {again : ν} (twice : s.At top root key level again) : table = again := by
  induction visited generalizing again with
  | root => exact twice.eq_root.symm
  | child above linked ih =>
    cases twice with
    | root => exact absurd above.level_le (Nat.not_succ_le_self _)
    | child above' linked' =>
      have same := ih above'
      subst same
      rw [linked] at linked'
      injection linked'

theorem find_of_at : s.find key top root = s.find key level table := by
  induction visited with
  | root => rfl
  | child _ linked ih => rw [ih, find, linked]

theorem At.find_some {leaf : ℕ × ε} (found : s.find key level table = some leaf) :
    ∃ last, s.At top root key leaf.1 last ∧ s.see key leaf.1 last = .value ∧
      s.entry last (key leaf.1) = leaf.2 := by
  induction level generalizing table with
  | zero =>
    rw [find] at found
    cases saw : s.see key 0 table with
    | value =>
      rw [saw] at found
      cases found
      exact ⟨table, visited, saw, rfl⟩
    | empty =>
      rw [saw] at found
      cases found
    | link child =>
      rw [saw] at found
      cases found
  | succ level ih =>
    rw [find] at found
    cases saw : s.see key (level + 1) table with
    | value =>
      rw [saw] at found
      cases found
      exact ⟨table, visited, saw, rfl⟩
    | empty =>
      rw [saw] at found
      cases found
    | link child =>
      rw [saw] at found
      exact ih (.child visited saw) found

theorem At.linked {lower : ℕ} {below : ν} (deeper : s.At top root key lower below)
    (lt : lower < level) :
    ∃ child, s.see key level table = .link child := by
  induction deeper with
  | root => exact absurd visited.level_le (not_le.mpr lt)
  | @child lower parent child above linked ih =>
    rcases Nat.eq_or_lt_of_le (Nat.succ_le_of_lt lt) with same | less
    · subst same
      rw [visited.unique above]
      exact ⟨child, linked⟩
    · exact ih less

end

theorem find_eq_of_see (see : ∀ level table, s'.see key level table = s.see key level table)
    (value : ∀ level table, s.see key level table = .value →
      s'.entry table (key level) = s.entry table (key level)) :
    s'.find key level table = s.find key level table := by
  induction level generalizing table with
  | zero =>
    rw [find, find, see]
    cases saw : s.see key 0 table with
    | value => rw [value 0 table saw]
    | empty | link => rfl
  | succ level ih =>
    rw [find, find, see]
    cases saw : s.see key (level + 1) table with
    | value => rw [value (level + 1) table saw]
    | empty => rfl
    | link child => exact ih

theorem At.congr_key (visited : s.At top root key level table)
    (agree : ∀ j, level < j → j ≤ top → other j = key j) : s.At top root other level table := by
  induction visited with
  | root => exact .root
  | child above linked ih =>
    refine .child (ih fun j below bound => agree j (Nat.lt_of_succ_lt below) bound) ?_
    rw [see, agree _ (Nat.lt_succ_self _) above.level_le]
    exact linked

/-- Two stores agree on everything the walk of a key looks at. -/
def Agree (s s' : Store ν ι ε) (top : ℕ) (root : ν) (key : ℕ → ι) : Prop :=
  ∀ level table, s.At top root key level table →
    s'.entry table (key level) = s.entry table (key level) ∧
      s'.view level (s.entry table (key level)) = s.view level (s.entry table (key level))

theorem Agree.see (agree : Agree s s' top root key)
    (visited : s.At top root key level table) : s'.see key level table = s.see key level table := by
  obtain ⟨entry, view⟩ := agree level table visited
  rw [Store.see, entry, view]
  rfl

theorem Agree.at_iff (agree : Agree s s' top root key) :
    s'.At top root key level table ↔ s.At top root key level table := by
  constructor
  · intro visited
    induction visited with
    | root => exact .root
    | child _ linked ih => exact .child ih ((agree.see ih).symm.trans linked)
  · intro visited
    induction visited with
    | root => exact .root
    | child above linked ih => exact .child ih ((agree.see above).trans linked)

theorem Agree.find (agree : Agree s s' top root key)
    (visited : s.At top root key level table) :
    s'.find key level table = s.find key level table := by
  induction level generalizing table with
  | zero => rw [Store.find, Store.find, agree.see visited, (agree 0 table visited).1]
  | succ level ih =>
    rw [Store.find, Store.find, agree.see visited, (agree _ table visited).1]
    cases linked : s.see key (level + 1) table with
    | empty | value => rfl
    | link child => exact ih (.child visited linked)

/-- No table is reached at two levels or below two entries. -/
def Tree (s : Store ν ι ε) (top : ℕ) (root : ν) : Prop :=
  ∀ key other level level' table, s.At top root key level table →
    s.At top root other level' table →
      level = level' ∧ ∀ j, level < j → j ≤ top → other j = key j

theorem Tree.of_agree (tree : s.Tree top root) (agree : ∀ key, Agree s s' top root key) :
    s'.Tree top root := by
  intro key other level level' table visited visited'
  exact tree key other level level' table ((agree key).at_iff.mp visited)
    ((agree other).at_iff.mp visited')

/-- A key that shares the entry of `key` at a level: it agrees from that level up. -/
def Through (top : ℕ) (key : ℕ → ι) (level : ℕ) (other : ℕ → ι) : Prop :=
  ∀ j, level ≤ j → j ≤ top → other j = key j

theorem Tree.through (tree : s.Tree top root) (visited : s.At top root key level table)
    {level' : ℕ} (visited' : s.At top root other level' table)
    (same : other level' = key level) : level' = level ∧ Through top key level other := by
  obtain ⟨rfl, above⟩ := tree key other level level' table visited visited'
  refine ⟨rfl, fun j low bound => ?_⟩
  rcases Nat.eq_or_lt_of_le low with rfl | below
  · exact same
  · exact above j below bound

section Write

variable [DecidableEq ν] [DecidableEq ι]

def write (s : Store ν ι ε) (table : ν) (index : ι) (entry : ε) : Store ν ι ε :=
  let row := Function.update (s.entry table) index entry
  { s with entry := Function.update s.entry table row }

theorem write_entry_self (table : ν) (index : ι) (entry : ε) :
    (s.write table index entry).entry table index = entry := by
  simp [write]

theorem write_entry_ne {table' : ν} {index index' : ι} (entry : ε)
    (different : table' = table → index' ≠ index) :
    (s.write table index entry).entry table' index' = s.entry table' index' := by
  by_cases same : table' = table
  · subst same
    simp [write, different rfl]
  · simp [write, same]

variable {level : ℕ} {table : ν} {entry : ε}

section

variable (tree : s.Tree top root) (visited : s.At top root key level table)
include tree visited

theorem Tree.agree_write (away : ¬Through top key level other) :
    Agree s (s.write table (key level) entry) top root other := by
  intro level' table' visited'
  refine ⟨write_entry_ne entry ?_, rfl⟩
  intro sameTable sameIndex
  subst sameTable
  exact away (tree.through visited visited' sameIndex).2

variable {table' : ν} {level' : ℕ}

theorem Tree.at_write (visited' : s.At top root other level' table') (above : level ≤ level') :
    (s.write table (key level) entry).At top root other level' table' := by
  induction visited' with
  | root => exact .root
  | @child below parent child visitedParent linked ih =>
    refine .child (ih (Nat.le_succ_of_le above)) ?_
    have kept : (s.write table (key level) entry).entry parent (other (below + 1)) =
        s.entry parent (other (below + 1)) := by
      apply write_entry_ne
      intro sameTable sameIndex
      subst sameTable
      have := (tree.through visited visitedParent sameIndex).1
      omega
    rw [see, kept]
    exact linked

theorem Tree.find_write (through : Through top key level other) :
    (s.write table (key level) entry).find other top root =
      (s.write table (key level) entry).find other level table := by
  apply find_of_at
  apply tree.at_write visited _ (le_refl level)
  exact visited.congr_key fun j below bound => through j (le_of_lt below) bound

variable (fresh : ∀ child, s.view level entry = .link child →
  (∀ other level', ¬s.At top root other level' child) ∧ ∀ below, level = below + 1 →
    ∀ index grandchild, s.view below (s.entry child index) ≠ .link grandchild)
include fresh

theorem Tree.at_of_write
    (visited' : (s.write table (key level) entry).At top root other level' table') :
    s.At top root other level' table' ∨
      Through top key level other ∧ level = level' + 1 ∧ s.view level entry = .link table' := by
  induction visited' with
  | root => exact .inl .root
  | @child below parent child _ linked ih =>
    rcases ih with before | ⟨-, levelEq, new⟩
    · by_cases here : parent = table ∧ other (below + 1) = key level
      · obtain ⟨rfl, sameIndex⟩ := here
        obtain ⟨levelEq, through⟩ := tree.through visited before sameIndex
        subst levelEq
        refine .inr ⟨through, rfl, ?_⟩
        rw [see, sameIndex, write_entry_self] at linked
        exact linked
      · refine .inl (.child before ?_)
        rw [see, write_entry_ne entry fun same index => here ⟨same, index⟩] at linked
        exact linked
    · -- The new table has no links of its own.
      obtain ⟨unvisited, noLinks⟩ := fresh parent new
      have different : parent ≠ table := by
        rintro rfl
        exact unvisited key level visited
      rw [see, write_entry_ne entry fun same => absurd same different] at linked
      exact absurd linked (noLinks (below + 1) levelEq _ child)

theorem Tree.write : (s.write table (key level) entry).Tree top root := by
  intro first second level₁ level₂ found visited₁ visited₂
  rcases tree.at_of_write visited fresh visited₁ with before₁ | ⟨through₁, levelEq₁, new₁⟩ <;>
    rcases tree.at_of_write visited fresh visited₂ with before₂ | ⟨through₂, levelEq₂, new₂⟩
  · exact tree first second level₁ level₂ found before₁ before₂
  · exact absurd before₁ ((fresh found new₂).1 first level₁)
  · exact absurd before₂ ((fresh found new₁).1 second level₂)
  · refine ⟨by omega, fun j below bound => ?_⟩
    rw [through₁ j (by omega) bound, through₂ j (by omega) bound]

end

end Write

end Store

end Horizon.Radix
