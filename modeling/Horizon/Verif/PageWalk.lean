import Horizon.Kernel.PageTable
import Horizon.Spec.Radix
import Horizon.Verif.PageEntry

/-!
# Translation as a walk

The page tables are a radix store: an entry is empty, a leaf, or a link to a table whose frame is
referenced. Locking a page acquires one reference for each table of its walk and dropping the lock
gives them back, so `translate` answers what the walk finds.
-/

namespace Horizon.Paging

open Function Radix List PageMemory PageLock Nat

theorem levelCount_pos (level : Nat) : 0 < levelCount level := Nat.two_pow_pos _

theorem levelCount_succ (level : Nat) : levelCount (level + 1) = levelCount level * tableSize := by
  rw [levelCount, levelCount, tableSize, levelShift, levelShift, mul_succ, pow_add]

theorem entryIndex_lt (page level : Nat) : entryIndex page level < tableSize :=
  mod_lt _ (by decide)

theorem levelMask_le (level page : Nat) : levelMask level page ≤ page := div_mul_le_self _ _

theorem levelMask_succ_add (page level : Nat) :
    levelMask (level + 1) page + entryIndex page level * levelCount level =
      levelMask level page := by
  rw [levelMask, levelMask, entryIndex, levelCount_succ, ← Nat.div_div_eq_div_mul,
    mul_comm (levelCount level), ← mul_assoc, ← add_mul, mul_comm _ tableSize,
    div_add_mod]

-- Comparing two locks must not compute with page numbers.
attribute [local irreducible] levelMask levelCount

/-- The reading of an entry: a link counts only when its frame is referenced. -/
def PageMemory.view (mem : PageMemory) (level word : Nat) : View Nat :=
  if isPresent word then
    if level = 0 ∨ isHuge word level then .value
    else if mem.refcount (word / pageSize) = 0 then .empty
    else .link (word / pageSize)
  else .empty

def PageMemory.store (mem : PageMemory) : Store Nat (Fin tableSize) Nat :=
  ⟨fun table index => mem.entries table index, mem.view⟩

def pageKey (page level : Nat) : Fin tableSize := ⟨entryIndex page level, entryIndex_lt page level⟩

def PageMemory.lookup (mem : PageMemory) (root page : Nat) : Option (Nat × Nat) :=
  if mem.refcount root = 0 then none else mem.store.find (pageKey page) topLevel root

/-- The walk of the page comes through the table at the level. -/
abbrev PageMemory.TableAt (mem : PageMemory) (root page level table : Nat) : Prop :=
  mem.store.At topLevel root (pageKey page) level table

section View

variable {mem : PageMemory} {level word : Nat}

theorem view_absent (absent : isPresent word = false) : mem.view level word = .empty := by
  rw [view, absent]
  rfl

theorem view_leaf (present : isPresent word = true) (leaf : level = 0 ∨ isHuge word level = true) :
    mem.view level word = .value := by
  rw [view, if_pos present, if_pos leaf]

theorem view_link (present : isPresent word = true)
    (inner : ¬(level = 0 ∨ isHuge word level = true))
    (live : mem.refcount (word / pageSize) ≠ 0) :
    mem.view level word = .link (word / pageSize) := by
  rw [view, if_pos present, if_neg inner, if_neg live]

theorem view_eq_link {child : Nat} (linked : mem.view level word = .link child) :
    isPresent word = true ∧ 0 < level ∧ isHuge word level = false ∧ child = word / pageSize ∧
      mem.refcount child ≠ 0 := by
  unfold view at linked
  split at linked
  · rename_i present
    split at linked
    · cases linked
    · rename_i inner
      split at linked
      · cases linked
      · rename_i live
        cases linked
        rw [not_or] at inner
        exact ⟨present, pos_of_ne_zero inner.1, Bool.eq_false_iff.mpr inner.2, rfl, live⟩
  · cases linked

end View

theorem tableAt_live {mem : PageMemory} {root page level table : Nat}
    (live : mem.refcount root ≠ 0) (visited : mem.TableAt root page level table) :
    mem.refcount table ≠ 0 := by
  cases visited with
  | root => exact live
  | child _ linked => exact (view_eq_link linked).2.2.2.2

def PageMemory.hold (mem : PageMemory) (held : List Nat) : PageMemory :=
  { mem with refcount := fun frame => mem.refcount frame + held.count frame }

section Hold

variable {mem : PageMemory} {held : List Nat} {frame : Nat}

theorem hold_nil (mem : PageMemory) : mem.hold [] = mem := rfl

theorem acquire_hold (live : mem.refcount frame ≠ 0) :
    (mem.hold held).acquire frame = some (mem.hold (frame :: held)) := by
  have positive : (mem.hold held).refcount frame ≠ 0 := by
    show mem.refcount frame + held.count frame ≠ 0
    omega
  rw [acquire, if_neg positive]
  congr 1
  rw [setRefcount, hold, hold]
  congr 1
  funext other
  by_cases same : other = frame
  · subst same
    simp [add_assoc]
  · simp [same, Ne.symm same]

theorem acquire_hold_none (dead : mem.refcount frame = 0)
    (live : ∀ other ∈ held, mem.refcount other ≠ 0) : (mem.hold held).acquire frame = none := by
  have absent : frame ∉ held := fun member => live frame member dead
  rw [acquire, if_pos]
  show mem.refcount frame + held.count frame = 0
  rw [dead, count_eq_zero_of_not_mem absent]

theorem dropRef_hold (live : mem.refcount frame ≠ 0) :
    (mem.hold (frame :: held)).dropRef frame = .ok (mem.hold held) := by
  obtain ⟨below, positive⟩ := exists_eq_succ_of_ne_zero live
  have count : (mem.hold (frame :: held)).refcount frame = below + held.count frame + 2 := by
    show mem.refcount frame + (frame :: held).count frame = _
    rw [count_cons_self, positive]
    omega
  rw [dropRef, release, count]
  dsimp only
  congr 1
  rw [setRefcount, hold, hold]
  congr 1
  funext other
  by_cases same : other = frame
  · subst same
    rw [update_self, positive]
    omega
  · simp [same, count_cons, Ne.symm same]

end Hold

/-- The frames referenced by a lock from a level up, lowest level first. -/
def PageLock.held (lock : PageLock) (level count : Nat) : List Nat :=
  (range' level count).filterMap lock.refs

theorem held_congr {lock lock' : PageLock} (same : lock.refs = lock'.refs) :
    lock.held = lock'.held := by
  funext level count
  rw [held, held, same]

theorem dropLevels_hold {mem : PageMemory} {lock : PageLock} {level count : Nat}
    (live : ∀ frame ∈ lock.held level count, mem.refcount frame ≠ 0) :
    lock.dropLevels count level (mem.hold (lock.held level count)) = .ok mem := by
  induction count generalizing level with
  | zero => rfl
  | succ count ih =>
    have unfolded : lock.held level (count + 1) =
        (lock.refs level).toList ++ lock.held (level + 1) count := by
      rw [held, range'_succ, filterMap_cons]
      cases lock.refs level <;> rfl
    rw [unfolded] at live ⊢
    rw [dropLevels]
    cases ref : lock.refs level with
    | none =>
      rw [ref] at live
      exact ih live
    | some frame =>
      rw [ref] at live
      have first := live frame (by simp)
      have step : (mem.hold (frame :: lock.held (level + 1) count)).dropOption (some frame) =
          .ok (mem.hold (lock.held (level + 1) count)) := dropRef_hold first
      show (dropOption (mem.hold (frame :: lock.held (level + 1) count))
        (some frame)).bind _ = _
      rw [step]
      exact ih fun other member => live other (by simp [member])

/-- The guards of a lock are the tables of a walk down to a level. -/
structure Path (mem : PageMemory) (root page level : Nat) (lock : PageLock) : Prop where
  level_eq : lock.level = some level
  level_le : level ≤ topLevel
  guards : ∀ j, level ≤ j → j ≤ topLevel →
    ∃ table, lock.guards j = some table ∧ mem.TableAt root page j table
  free : ∀ j, j < level ∨ topLevel < j → lock.guards j = none
  refs : lock.refs = lock.guards

/-- The lock holds the tables on the way to the page, and its base is that of the last one. -/
structure Locked (mem : PageMemory) (root page level : Nat) (lock : PageLock) : Prop
    extends Path mem root page level lock where
  base_eq : lock.base = levelMask (level + 1) page

section Lock

variable {mem : PageMemory} {root page level : Nat} {lock : PageLock}

theorem Path.get (path : Path mem root page level lock) :
    ∃ table, lock.get = some table ∧ lock.guards level = some table ∧
      mem.TableAt root page level table := by
  obtain ⟨table, guard, visited⟩ := path.guards level (le_refl _) path.level_le
  refine ⟨table, ?_, guard, visited⟩
  rw [PageLock.get, path.level_eq]
  exact guard

theorem Path.held_live (path : Path mem root page level lock) (live : mem.refcount root ≠ 0)
    (count : Nat) : ∀ frame ∈ lock.held level count, mem.refcount frame ≠ 0 := by
  intro frame member
  obtain ⟨j, inRange, ref⟩ := List.mem_filterMap.mp member
  rw [path.refs] at ref
  rw [mem_range'_1] at inRange
  by_cases inside : j ≤ topLevel
  · obtain ⟨table, guard, visited⟩ := path.guards j inRange.1 inside
    rw [guard] at ref
    cases ref
    exact tableAt_live live visited
  · rw [path.free j (.inr (Nat.lt_of_not_le inside))] at ref
    cases ref

theorem Path.enter {child : Nat} (path : Path mem root page (level + 1) lock)
    (visited : mem.TableAt root page level child) : Path mem root page level
      { lock with
        level := some level
        refs := update lock.refs level (some child)
        guards := update lock.guards level (some child) } where
  level_eq := rfl
  level_le := le_trans (le_succ _) path.level_le
  guards j low high := by
    by_cases same : j = level
    · subst same
      exact ⟨child, by simp, visited⟩
    · obtain ⟨table, guard, visitedAbove⟩ := path.guards j (by omega) high
      exact ⟨table, by simpa [same] using guard, visitedAbove⟩
  free j apart := by
    have := path.level_le
    have different : j ≠ level := by omega
    simpa [different] using path.free j (by omega)
  refs := by rw [path.refs]

theorem held_enter (lock : PageLock) (level child count : Nat) : held
      { lock with
        level := some level
        refs := update lock.refs level (some child)
        guards := update lock.guards level (some child) } level (count + 1) =
      child :: lock.held (level + 1) count := by
  rw [held, held, range'_succ, filterMap_cons]
  simp only [update_self, List.cons.injEq, true_and]
  apply filterMap_congr
  intro j member
  rw [mem_range'_1] at member
  exact update_of_ne (by omega) _ _

theorem Path.abandon (path : Path mem root page level lock) (live : mem.refcount root ≠ 0) :
    lock.abandon (mem.hold (lock.held level (maxPageTableLevels - level))) = .ok (none, mem) := by
  rw [PageLock.abandon, PageLock.drop, path.level_eq]
  show (lock.dropLevels (maxPageTableLevels - level) level _).bind _ = _
  rw [dropLevels_hold (path.held_live live _)]
  rfl

/-- The table at which `lock_page` stops: at the last level, or at an entry that is absent or a
large leaf. -/
def Stops (mem : PageMemory) (page level table : Nat) : Prop :=
  level = 0 ∨ isPresent (mem.entries table (entryIndex page level)) = false ∨
    isHuge (mem.entries table (entryIndex page level)) level = true

/-- The walk of a page meets an entry that points to a frame without references. -/
def Dangling (mem : PageMemory) (root page : Nat) : Prop :=
  ∃ level table, mem.TableAt root page (level + 1) table ∧
    isPresent (mem.entries table (entryIndex page (level + 1))) = true ∧
    isHuge (mem.entries table (entryIndex page (level + 1))) (level + 1) = false ∧
    mem.refcount (mem.entries table (entryIndex page (level + 1)) / pageSize) = 0

theorem lockLoop_spec (path : Path mem root page level lock) (base : lock.base = page)
    (live : mem.refcount root ≠ 0) : (∃ lock' level' table, lockLoop page level lock
          (mem.hold (lock.held level (maxPageTableLevels - level))) =
          .ok (some lock', mem.hold (lock'.held level' (maxPageTableLevels - level'))) ∧
        Locked mem root page level' lock' ∧ lock'.guards level' = some table ∧
        Stops mem page level' table) ∨
      lockLoop page level lock
          (mem.hold (lock.held level (maxPageTableLevels - level))) = .ok (none, mem) ∧
        mem.lookup root page = none ∧ Dangling mem root page := by
  induction level generalizing lock with
  | zero =>
    obtain ⟨table, -, guard, -⟩ := path.get
    let masked : PageLock := { lock with base := levelMask 1 lock.base }
    have kept : masked.held = lock.held := held_congr rfl
    refine .inl ⟨masked, 0, table, by rw [kept]; rfl, ?_, guard, .inl rfl⟩
    exact ⟨{ path with }, congrArg (levelMask 1) base⟩
  | succ level ih =>
    obtain ⟨table, get, guard, visited⟩ := path.get
    rw [lockLoop, get]
    dsimp only
    have same : (mem.hold (lock.held (level + 1) (maxPageTableLevels - (level + 1)))).entries =
        mem.entries := rfl
    rw [same]
    generalize word : mem.entries table (entryIndex page (level + 1)) = entry
    by_cases stops : (!isPresent entry || isHuge entry (level + 1)) = true
    · rw [if_pos stops]
      let masked : PageLock := { lock with base := levelMask (level + 2) lock.base }
      have kept : masked.held = lock.held := held_congr rfl
      refine .inl ⟨masked, level + 1, table, by rw [kept], ?_, guard, .inr ?_⟩
      · exact ⟨{ path with }, congrArg (levelMask (level + 2)) base⟩
      · rw [word]
        simpa using stops
    · rw [if_neg stops]
      simp only [Bool.or_eq_true, Bool.not_eq_true', not_or, Bool.not_eq_false,
        Bool.not_eq_true] at stops
      obtain ⟨present, small⟩ := stops
      rw [frameNumber, if_pos present]
      dsimp only
      by_cases dead : mem.refcount (entry / pageSize) = 0
      · rw [acquire_hold_none dead (path.held_live live _)]
        refine .inr ⟨path.abandon live, ?_, level, table, visited, word ▸ present, word ▸ small,
          word ▸ dead⟩
        have empty : mem.store.see (pageKey page) (level + 1) table = .empty := by
          show mem.view (level + 1) (mem.entries table (entryIndex page (level + 1))) = .empty
          rw [word, view, if_pos present, if_neg (by simp [small]), if_pos dead]
        rw [PageMemory.lookup, if_neg live, Store.find_of_at visited, Store.find, empty]
      · rw [acquire_hold dead]
        have linked : mem.store.see (pageKey page) (level + 1) table =
            .link (entry / pageSize) := by
          show mem.view (level + 1) (mem.entries table (entryIndex page (level + 1))) = _
          rw [word]
          exact view_link present (by simp [small]) dead
        have bound := path.level_le
        have levels : maxPageTableLevels - level = (maxPageTableLevels - (level + 1)) + 1 := by
          have : topLevel = 3 := rfl
          have : maxPageTableLevels = 5 := rfl
          omega
        have entered := path.enter (.child visited linked)
        have result := ih entered base
        rw [levels, held_enter lock level (entry / pageSize)] at result
        exact result

theorem lockPage_spec (mem : PageMemory) (root page : Nat) (live : mem.refcount root ≠ 0) :
    (∃ lock level table, lockPage mem root page =
          .ok (some lock, mem.hold (lock.held level (maxPageTableLevels - level))) ∧
        Locked mem root page level lock ∧ lock.guards level = some table ∧
        Stops mem page level table) ∨
      lockPage mem root page = .ok (none, mem) ∧ mem.lookup root page = none ∧
        Dangling mem root page := by
  have acquired : mem.acquire root = some (mem.hold [root]) := by
    have := @acquire_hold mem [] root live
    rwa [hold_nil] at this
  have path : Path mem root page topLevel
      { base := page
        level := some topLevel
        refs := update (fun _ => none) topLevel (some root)
        guards := update (fun _ => none) topLevel (some root) } := by
    refine ⟨rfl, le_refl _, fun j low high => ?_, fun j apart => ?_, rfl⟩
    · obtain rfl := le_antisymm high low
      exact ⟨root, by simp, .root⟩
    · have different : j ≠ topLevel := by omega
      simp [different]
  have result := lockLoop_spec path rfl live
  rw [lockPage, acquired]
  exact result

theorem Path.drop (path : Path mem root page level lock) (live : mem.refcount root ≠ 0) :
    lock.drop (mem.hold (lock.held level (maxPageTableLevels - level))) = .ok mem := by
  rw [PageLock.drop, path.level_eq]
  exact dropLevels_hold (path.held_live live _)

theorem lockPage_dead (mem : PageMemory) (root page : Nat) (dead : mem.refcount root = 0) :
    lockPage mem root page = .ok (none, mem) := by
  rw [lockPage, acquire, if_pos dead]

end Lock

def leafPhys (vaddr : Nat) (leaf : Nat × Nat) : Nat :=
  leaf.2 / pageSize * pageSize + vaddr % 2 ^ (levelShift leaf.1 + 12)

theorem next_of_stops {mem : PageMemory} {root page level table : Nat} {lock : PageLock}
    (live : mem.refcount root ≠ 0) (locked : Locked mem root page level lock)
    (guard : lock.guards level = some table) (stops : Stops mem page level table) (vaddr : Nat)
    (held : List Nat) :
    ∃ step iter, PageTableIter.next ⟨lock, entryIndex page level, page + 1⟩ (mem.hold held) =
        .ok (step, iter, mem.hold held) ∧ iter.lock = lock ∧
      leafAddress vaddr step = (mem.lookup root page).map (leafPhys vaddr) := by
  obtain ⟨found, get, guard', visited⟩ := locked.toPath.get
  rw [guard] at guard'
  cases guard'
  have first : lock.base + entryIndex page level <<< levelShift level = levelMask level page := by
    rw [locked.base_eq, shiftLeft_eq, ← levelMask_succ_add page level, levelCount]
  have inside : ¬page + 1 ≤ levelMask level page := by
    have := levelMask_le level page
    omega
  have walk : mem.lookup root page = mem.store.find (pageKey page) level table := by
    rw [PageMemory.lookup, if_neg live, Store.find_of_at visited]
  have small := not_le.mpr (entryIndex_lt page level)
  have entries : (mem.hold held).entries = mem.entries := rfl
  rw [PageTableIter.next, locked.level_eq]
  dsimp only
  rw [if_neg small, PageTableIter.scan.eq_def]
  dsimp only
  rw [first, if_neg inside, get]
  dsimp only
  rw [entries, walk]
  generalize word : mem.entries table (entryIndex page level) = entry at stops
  have saw : mem.store.see (pageKey page) level table = mem.view level entry := by
    rw [← word]
    rfl
  by_cases present : isPresent entry = true
  · have leaf : level = 0 ∨ isHuge entry level = true := by
      rcases stops with zero | absent | huge
      · exact .inl zero
      · rw [word, present] at absent
        cases absent
      · rw [word] at huge
        exact .inr huge
    have value := saw.trans (view_leaf present leaf)
    rw [frameNumber, if_pos present]
    cases level with
    | zero =>
      refine ⟨_, _, rfl, rfl, ?_⟩
      rw [Store.find, value]
      dsimp only
      rw [show mem.store.entry table (pageKey page 0) = entry from word]
      rfl
    | succ level =>
      have huge := leaf.resolve_left (succ_ne_zero level)
      dsimp only
      rw [if_pos huge]
      refine ⟨_, _, rfl, rfl, ?_⟩
      rw [Store.find, value]
      dsimp only
      rw [show mem.store.entry table (pageKey page (level + 1)) = entry from word]
      rfl
  · have absent := Bool.eq_false_iff.mpr present
    have empty := saw.trans (view_absent absent)
    rw [frameNumber, if_neg present]
    refine ⟨_, _, rfl, rfl, ?_⟩
    cases level with
    | zero | succ => rw [Store.find, empty]; rfl

theorem translate_eq (mem : PageMemory) (root vaddr : Nat) :
    translate mem root vaddr = .ok ((fixedMapping vaddr).or
      ((mem.lookup root (vaddr / pageSize)).map (leafPhys vaddr)), mem) := by
  rw [translate]
  cases fixed : fixedMapping vaddr with
  | some phys => rfl
  | none =>
    dsimp only
    rw [Option.none_or, PageTableIter.new]
    by_cases dead : mem.refcount root = 0
    · rw [lockPage_dead mem root _ dead, PageMemory.lookup, if_pos dead]
      rfl
    rcases lockPage_spec mem root (vaddr / pageSize) dead with
      ⟨lock, level, table, locking, locked, guard, stops⟩ | ⟨locking, none⟩
    · obtain ⟨step, iter, next, kept, address⟩ := next_of_stops dead locked guard stops vaddr
        (lock.held level (maxPageTableLevels - level))
      simp only [locking, locked.level_eq, next, bind, Except.bind, pure, Except.pure, kept,
        locked.toPath.drop dead, address]
    · rw [locking, none.1]
      rfl

end Horizon.Paging
