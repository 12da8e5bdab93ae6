import Horizon.Verif.PageWalk

/-!
# Changes of the page-table memory

Taking and dropping references changes no walk. Writing one entry of a tree changes the walks of
exactly the pages under it. Allocating an empty table for an absent entry changes no walk either.
-/

namespace Horizon.Paging

open Function Radix Store

attribute [local irreducible] levelMask levelCount

/-- Two memories that differ in counts only, with the same frames referenced. -/
structure Same (mem mem' : PageMemory) : Prop where
  entries : mem'.entries = mem.entries
  pool : mem'.pool = mem.pool
  refs : ∀ frame, mem'.refcount frame = 0 ↔ mem.refcount frame = 0

section Same

variable {mem mem' mem'' : PageMemory} {frame : Nat} {lock : PageLock}

theorem Same.refl (mem : PageMemory) : Same mem mem := ⟨rfl, rfl, fun _ => Iff.rfl⟩

theorem Same.trans (first : Same mem mem') (second : Same mem' mem'') : Same mem mem'' :=
  ⟨second.entries.trans first.entries, second.pool.trans first.pool,
    fun frame => (second.refs frame).trans (first.refs frame)⟩

theorem Same.store (same : Same mem mem') : mem'.store = mem.store := by
  have view : mem'.view = mem.view := by
    funext level word
    simp only [PageMemory.view, same.refs]
  rw [PageMemory.store, PageMemory.store, same.entries, view]

theorem Same.lookup (same : Same mem mem') (root page : Nat) :
    mem'.lookup root page = mem.lookup root page := by
  rw [PageMemory.lookup, PageMemory.lookup, same.store]
  simp only [same.refs]

theorem setRefcount_same {count : Nat} (positive : count ≠ 0) (live : mem.refcount frame ≠ 0) :
    Same mem (mem.setRefcount frame count) := by
  refine ⟨rfl, rfl, fun other => ?_⟩
  by_cases equal : other = frame
  · subst equal
    simp [PageMemory.setRefcount, positive, live]
  · simp [PageMemory.setRefcount, equal]

theorem acquire_same (acquired : mem.acquire frame = some mem') : Same mem mem' := by
  unfold PageMemory.acquire at acquired
  split at acquired
  · cases acquired
  · rename_i live
    cases acquired
    exact setRefcount_same (Nat.succ_ne_zero _) live

theorem release_same (mem : PageMemory) (frame : Nat) : Same mem (mem.release frame).2 := by
  unfold PageMemory.release
  split
  · exact Same.refl mem
  · exact Same.refl mem
  · rename_i count positive
    exact setRefcount_same (Nat.succ_ne_zero _) (by omega)

theorem dropRef_same (dropped : mem.dropRef frame = .ok mem') : Same mem mem' := by
  have same := release_same mem frame
  unfold PageMemory.dropRef at dropped
  split at dropped
  · rename_i count released equal
    cases dropped
    rw [equal] at same
    exact same
  · cases dropped

theorem dropOption_same {ref : Option Nat} (dropped : mem.dropOption ref = .ok mem') :
    Same mem mem' := by
  cases ref with
  | none =>
    cases dropped
    exact Same.refl mem
  | some frame => exact dropRef_same dropped

theorem dropLevels_same {count level : Nat} (dropped : lock.dropLevels count level mem = .ok mem') :
    Same mem mem' := by
  induction count generalizing level mem with
  | zero =>
    cases dropped
    exact Same.refl _
  | succ count ih =>
    rw [PageLock.dropLevels] at dropped
    cases first : mem.dropOption (lock.refs level) with
    | error panic =>
      rw [first] at dropped
      cases dropped
    | ok next =>
      rw [first] at dropped
      exact (dropOption_same first).trans (ih dropped)

theorem drop_same (dropped : lock.drop mem = .ok mem') : Same mem mem' := dropLevels_same dropped

theorem cloneCurrent_same (cloned : lock.cloneCurrent mem = .ok mem') : Same mem mem' := by
  unfold PageLock.cloneCurrent at cloned
  split at cloned
  · cases cloned
    exact Same.refl mem
  · split at cloned
    · cases cloned
    · rename_i acquired
      cases cloned
      exact acquire_same acquired

end Same

variable {lock : PageLock}

theorem Path.same {mem mem' : PageMemory} {root page level : Nat} (same : Same mem mem')
    (path : Path mem root page level lock) :
    Path mem' root page level lock := by
  refine ⟨path.level_eq, path.level_le, ?_, path.free, path.refs⟩
  rw [show mem'.TableAt = mem.TableAt by
    funext; simp only [PageMemory.TableAt, same.store]]
  exact path.guards

/-- The tables form a tree of referenced frames, and the frames to allocate are unreferenced. -/
structure WellFormed (mem : PageMemory) (root : Nat) : Prop where
  live : mem.refcount root ≠ 0
  tree : mem.store.Tree topLevel root
  closed : ∀ key level table, mem.store.At topLevel root key level table → 0 < level →
    isPresent (mem.entries table (key level)) = true →
    isHuge (mem.entries table (key level)) level = false →
      mem.refcount (mem.entries table (key level) / pageSize) ≠ 0
  pool_dead : ∀ frame ∈ mem.pool, mem.refcount frame = 0
  pool_nodup : mem.pool.Nodup

section WellFormed

variable {mem mem' : PageMemory} {root : Nat}

theorem WellFormed.same (wf : WellFormed mem root) (same : Same mem mem') :
    WellFormed mem' root where
  live := fun dead => wf.live ((same.refs root).mp dead)
  tree := same.store ▸ wf.tree
  closed key level table visited := by
    rw [same.store] at visited
    rw [same.entries]
    intro above present small dead
    exact wf.closed key level table visited above present small ((same.refs _).mp dead)
  pool_dead frame member := (same.refs frame).mpr (wf.pool_dead frame (same.pool ▸ member))
  pool_nodup := same.pool ▸ wf.pool_nodup

theorem WellFormed.table_live (wf : WellFormed mem root) {key : ℕ → Fin tableSize}
    {level table : Nat} (visited : mem.store.At topLevel root key level table) :
    mem.refcount table ≠ 0 := by
  cases visited with
  | root => exact wf.live
  | child _ linked => exact (view_eq_link linked).2.2.2.2

end WellFormed

section Write

variable {mem : PageMemory} {root page level table word : Nat}

theorem store_write (mem : PageMemory) (table page level word : Nat) :
    (mem.write table (entryIndex page level) word).store =
      mem.store.write table (pageKey page level) word := by
  have entries : ∀ other (index : Fin tableSize),
      (mem.write table (entryIndex page level) word).entries other index =
        (mem.store.write table (pageKey page level) word).entry other index := by
    intro other index
    by_cases sameTable : other = table
    · subst sameTable
      by_cases sameIndex : index = pageKey page level
      · subst sameIndex
        simp [PageMemory.write, write, pageKey]
      · have different : (index : Nat) ≠ entryIndex page level := by
          intro equal
          exact sameIndex (Fin.ext equal)
        simp [PageMemory.write, write, sameIndex, different, PageMemory.store]
    · simp [PageMemory.write, write, sameTable, PageMemory.store]
  show mk _ _ = mk _ _
  congr 1
  funext other index
  exact entries other index

/-- Both pages go through the same table at the level. -/
abbrev Under (page level other : Nat) : Prop :=
  Store.Through topLevel (pageKey page) level (pageKey other)

variable {other : Nat}

theorem lookup_write_away (wf : WellFormed mem root)
    (visited : mem.TableAt root page level table) (away : ¬Under page level other) :
    (mem.write table (entryIndex page level) word).lookup root other = mem.lookup root other := by
  rw [PageMemory.lookup, PageMemory.lookup, store_write]
  congr 1
  exact (wf.tree.agree_write visited away).find .root

theorem lookup_write_under (wf : WellFormed mem root)
    (visited : mem.TableAt root page level table) (under : Under page level other) :
    (mem.write table (entryIndex page level) word).lookup root other =
      (mem.store.write table (pageKey page level) word).find (pageKey other) level table := by
  rw [PageMemory.lookup, store_write]
  exact (if_neg wf.live).trans (wf.tree.find_write visited under)

theorem see_write_under (mem : PageMemory) (table word : Nat)
    (bound : level ≤ topLevel) (under : Under page level other) :
    (mem.store.write table (pageKey page level) word).see (pageKey other) level table =
      mem.view level word ∧
    (mem.store.write table (pageKey page level) word).entry table (pageKey other level) = word := by
  have index := under level (le_refl _) bound
  rw [see, index, write_entry_self]
  exact ⟨rfl, rfl⟩

section

variable (wf : WellFormed mem root) (visited : mem.TableAt root page level table)
  (under : Under page level other)
include wf visited under

theorem lookup_write_leaf (leaf : mem.view level word = .value) :
    (mem.write table (entryIndex page level) word).lookup root other = some (level, word) := by
  obtain ⟨saw, entry⟩ := see_write_under mem table word visited.level_le under
  rw [lookup_write_under wf visited under]
  cases level with
  | zero | succ => rw [find, saw, leaf, entry]

theorem lookup_write_empty (empty : mem.view level word = .empty) :
    (mem.write table (entryIndex page level) word).lookup root other = none := by
  obtain ⟨saw, -⟩ := see_write_under mem table word visited.level_le under
  rw [lookup_write_under wf visited under]
  cases level with
  | zero | succ => rw [find, saw, empty]

theorem lookup_leaf (leaf : mem.view level (mem.entries table (entryIndex page level)) = .value) :
    mem.lookup root other = some (level, mem.entries table (entryIndex page level)) := by
  have there := visited.congr_key fun j below bound => under j (le_of_lt below) bound
  have entry : mem.store.entry table (pageKey other level) =
      mem.entries table (entryIndex page level) := by
    rw [under level (le_refl _) visited.level_le]
    rfl
  have saw : mem.store.see (pageKey other) level table = .value := by
    rw [see, entry]
    exact leaf
  rw [PageMemory.lookup, if_neg wf.live, find_of_at there]
  cases level with
  | zero | succ => rw [find, saw, entry]

theorem lookup_absent (absent : isPresent (mem.entries table (entryIndex page level)) = false) :
    mem.lookup root other = none := by
  have there := visited.congr_key fun j below bound => under j (le_of_lt below) bound
  have saw : mem.store.see (pageKey other) level table = .empty := by
    have index := under level (le_refl _) visited.level_le
    rw [see, index]
    exact view_absent absent
  rw [PageMemory.lookup, if_neg wf.live, find_of_at there]
  cases level with
  | zero | succ => rw [find, saw]

end

theorem WellFormed.write (wf : WellFormed mem root) (visited : mem.TableAt root page level table)
    (leaf : isPresent word = true → level = 0 ∨ isHuge word level = true) :
    WellFormed (mem.write table (entryIndex page level) word) root := by
  have noLink : ∀ child, mem.view level word ≠ .link child := by
    intro child linked
    obtain ⟨present, above, small, -⟩ := view_eq_link linked
    rcases leaf present with zero | huge
    · omega
    · rw [huge] at small
      cases small
  have fresh : ∀ child, mem.store.view level word = .link child →
      (∀ other level', ¬mem.store.At topLevel root other level' child) ∧
        ∀ below, level = below + 1 → ∀ index grandchild,
          mem.store.view below (mem.store.entry child index) ≠ .link grandchild :=
    fun child linked => absurd linked (noLink child)
  refine ⟨wf.live, ?_, ?_, wf.pool_dead, wf.pool_nodup⟩
  · rw [store_write]
    exact wf.tree.write visited fresh
  · intro key level' table' visited' above present small
    rw [store_write] at visited'
    have entry : (mem.write table (entryIndex page level) word).entries table' (key level') =
        (mem.store.write table (pageKey page level) word).entry table' (key level') := by
      rw [← store_write]
      rfl
    rw [entry] at present small ⊢
    rcases wf.tree.at_of_write visited fresh visited' with before | ⟨-, -, linked⟩
    · by_cases here : table' = table ∧ key level' = pageKey page level
      · obtain ⟨rfl, sameIndex⟩ := here
        obtain ⟨rfl, -⟩ := wf.tree.through visited before sameIndex
        rw [sameIndex, write_entry_self] at present small
        rcases leaf present with zero | huge
        · omega
        · rw [huge] at small
          cases small
      · rw [write_entry_ne word fun same index => here ⟨same, index⟩] at present small ⊢
        exact wf.closed key level' table' before above present small
    · exact absurd linked (noLink table')

theorem Path.write (path : Path mem root page level lock)
    (wf : WellFormed mem root) (visited : mem.TableAt root other level table) (word : Nat) :
    Path (mem.write table (entryIndex other level) word) root page level lock := by
  refine ⟨path.level_eq, path.level_le, ?_, path.free, path.refs⟩
  intro j low high
  obtain ⟨found, guard, there⟩ := path.guards j low high
  refine ⟨found, guard, ?_⟩
  rw [PageMemory.TableAt, store_write]
  exact wf.tree.at_write visited there low

theorem Locked.write (locked : Locked mem root page level lock)
    (wf : WellFormed mem root) (visited : mem.TableAt root page level table) (word : Nat) :
    Locked (mem.write table (entryIndex page level) word) root page level lock :=
  ⟨locked.toPath.write wf visited word, locked.base_eq⟩

end Write

section Allocate

variable {mem fresh : PageMemory} {root frame : Nat}

theorem allocTable_eq (allocated : mem.allocTable = some (frame, fresh)) :
    mem.pool = frame :: fresh.pool ∧
      fresh.entries = update mem.entries frame (fun _ => newAbsent) ∧
      fresh.refcount = update mem.refcount frame 1 := by
  unfold PageMemory.allocTable at allocated
  split at allocated
  · cases allocated
  · rename_i rest pool
    cases allocated
    exact ⟨pool, rfl, rfl⟩

theorem WellFormed.unvisited (wf : WellFormed mem root) (member : frame ∈ mem.pool)
    (key : ℕ → Fin tableSize) (level : Nat) : ¬mem.store.At topLevel root key level frame :=
  fun visited => wf.table_live visited (wf.pool_dead frame member)

theorem WellFormed.agree_alloc (wf : WellFormed mem root)
    (allocated : mem.allocTable = some (frame, fresh)) (key : ℕ → Fin tableSize) :
    Store.Agree mem.store fresh.store topLevel root key := by
  obtain ⟨pool, entries, refcount⟩ := allocTable_eq allocated
  have member : frame ∈ mem.pool := by simp [pool]
  intro level table visited
  have different : table ≠ frame := by
    intro same
    rw [same] at visited
    exact wf.unvisited member key level visited
  constructor
  · show fresh.entries table (key level) = mem.entries table (key level)
    rw [entries, update_of_ne different]
  · show fresh.view level (mem.entries table (key level)) =
      mem.view level (mem.entries table (key level))
    generalize word : mem.entries table (key level) = entry
    by_cases inner : isPresent entry = true ∧ ¬(level = 0 ∨ isHuge entry level = true)
    · -- A table entry points to a referenced frame, which is not the new one.
      obtain ⟨present, notLeaf⟩ := inner
      rw [not_or, Bool.not_eq_true] at notLeaf
      have live : mem.refcount (entry / pageSize) ≠ 0 := by
        have closed := wf.closed key level table visited (pos_of_ne_zero notLeaf.1)
        rw [word] at closed
        exact closed present notLeaf.2
      have other : entry / pageSize ≠ frame := by
        intro same
        rw [same] at live
        exact live (wf.pool_dead frame member)
      simp only [PageMemory.view, refcount, update_of_ne other]
    · rw [not_and] at inner
      by_cases present : isPresent entry = true
      · have leaf := not_not.mp (inner present)
        rw [view_leaf present leaf, view_leaf present leaf]
      · rw [Bool.not_eq_true] at present
        rw [view_absent present, view_absent present]

theorem WellFormed.alloc (wf : WellFormed mem root)
    (allocated : mem.allocTable = some (frame, fresh)) : WellFormed fresh root := by
  obtain ⟨pool, entries, refcount⟩ := allocTable_eq allocated
  have agree := wf.agree_alloc allocated
  have nodup := wf.pool_nodup
  rw [pool, List.nodup_cons] at nodup
  have keeps : ∀ other, mem.refcount other ≠ 0 → fresh.refcount other ≠ 0 := by
    intro other live
    rw [refcount, update_apply]
    split
    · exact one_ne_zero
    · exact live
  refine ⟨keeps root wf.live, wf.tree.of_agree agree, ?_, ?_, nodup.2⟩
  · intro key level table visited above
    have before := (agree key).at_iff.mp visited
    have same : fresh.entries table (key level) = mem.entries table (key level) :=
      (agree key level table before).1
    rw [same]
    intro present small
    exact keeps _ (wf.closed key level table before above present small)
  · intro other member
    have different : other ≠ frame := fun same => nodup.1 (same ▸ member)
    rw [refcount, update_of_ne different]
    exact wf.pool_dead other (by simp [pool, member])

theorem Locked.alloc {page level : Nat} (locked : Locked mem root page level lock)
    (wf : WellFormed mem root)
    (allocated : mem.allocTable = some (frame, fresh)) : Locked fresh root page level lock := by
  refine ⟨⟨locked.level_eq, locked.level_le, ?_, locked.free, locked.refs⟩, locked.base_eq⟩
  intro j low high
  obtain ⟨found, guard, there⟩ := locked.guards j low high
  exact ⟨found, guard, (wf.agree_alloc allocated _).at_iff.mpr there⟩

end Allocate

section Enter

variable {mem fresh : PageMemory} {root page level table frame word : Nat}

/-- An absent entry gets a link to a new table, and no walk ends elsewhere. -/
theorem WellFormed.link (wf : WellFormed mem root)
    (visited : mem.TableAt root page (level + 1) table)
    (absent : isPresent (mem.entries table (entryIndex page (level + 1))) = false)
    (allocated : mem.allocTable = some (frame, fresh)) (present : isPresent word = true)
    (small : isHuge word (level + 1) = false) (target : word / pageSize = frame) :
    let linked := fresh.write table (entryIndex page (level + 1)) word
    WellFormed linked root ∧ linked.TableAt root page level frame ∧
      (∀ index, linked.entries frame index = newAbsent) ∧
      ∀ other, linked.lookup root other = mem.lookup root other := by
  intro linked
  obtain ⟨pool, entries, refcount⟩ := allocTable_eq allocated
  have member : frame ∈ mem.pool := by simp [pool]
  have wf' := wf.alloc allocated
  have agree := wf.agree_alloc allocated
  have visited' : fresh.TableAt root page (level + 1) table := (agree _).at_iff.mpr visited
  have live : fresh.refcount frame ≠ 0 := by simp [refcount]
  have blank : ∀ index, fresh.entries frame index = newAbsent := by simp [entries]
  have blankView : ∀ below index, fresh.view below (fresh.entries frame index) = .empty :=
    fun below index => view_absent (by rw [blank]; decide)
  have view : fresh.view (level + 1) word = .link frame := by
    rw [← target]
    exact view_link present (by simp [small]) (target ▸ live)
  have unvisited : ∀ key level', ¬fresh.store.At topLevel root key level' frame := by
    intro key level' there
    exact wf.unvisited member key level' ((agree key).at_iff.mp there)
  have newest : ∀ child, fresh.store.view (level + 1) word = .link child →
      (∀ other level', ¬fresh.store.At topLevel root other level' child) ∧
        ∀ below, level + 1 = below + 1 → ∀ index grandchild,
          fresh.store.view below (fresh.store.entry child index) ≠ .link grandchild := by
    intro child isLink
    obtain rfl : frame = child := by
      have := view.symm.trans isLink
      injection this
    refine ⟨unvisited, fun below _ index grandchild bad => ?_⟩
    rw [show fresh.store.view below (fresh.store.entry frame index) = .empty from
      blankView below index] at bad
    cases bad
  have store : linked.store = fresh.store.write table (pageKey page (level + 1)) word :=
    store_write _ _ _ _ _
  have different : frame ≠ table := by
    intro same
    rw [← same] at visited'
    exact unvisited _ _ visited'
  refine ⟨⟨wf'.live, ?_, ?_, wf'.pool_dead, wf'.pool_nodup⟩, ?_, ?_, ?_⟩
  · rw [store]
    exact wf'.tree.write visited' newest
  · intro key level' table' there above isPresent' notHuge
    rw [store] at there
    have entry : linked.entries table' (key level') =
        (fresh.store.write table (pageKey page (level + 1)) word).entry table' (key level') := by
      rw [← store]
      rfl
    rw [entry] at isPresent' notHuge ⊢
    rcases wf'.tree.at_of_write visited' newest there with before | ⟨-, -, isLink⟩
    · by_cases here : table' = table ∧ key level' = pageKey page (level + 1)
      · obtain ⟨rfl, sameIndex⟩ := here
        rw [sameIndex, write_entry_self, target]
        exact live
      · rw [write_entry_ne word fun same index => here ⟨same, index⟩] at isPresent' notHuge ⊢
        exact wf'.closed key level' table' before above isPresent' notHuge
    · obtain rfl : frame = table' := by
        have := view.symm.trans isLink
        injection this
      rw [write_entry_ne word fun same => absurd same different,
        show fresh.store.entry frame (key level') = newAbsent from blank _] at isPresent'
      exact absurd isPresent' (by decide)
  · show linked.store.At topLevel root (pageKey page) level frame
    rw [store]
    apply Store.At.child (wf'.tree.at_write visited' visited' (le_refl _))
    rw [see, write_entry_self]
    exact view
  · intro index
    rw [← blank index]
    simp [linked, PageMemory.write, different]
  · intro other
    have unchanged : fresh.lookup root other = mem.lookup root other := by
      rw [PageMemory.lookup, PageMemory.lookup, if_neg wf.live, if_neg wf'.live]
      exact (agree _).find .root
    rw [← unchanged]
    by_cases under : Under page (level + 1) other
    · -- The walk now goes on into the new table and ends at its blank entry.
      obtain ⟨saw, -⟩ := see_write_under fresh table word visited.level_le under
      have next : (fresh.store.write table (pageKey page (level + 1)) word).see (pageKey other)
          level frame = .empty := by
        rw [see, write_entry_ne word fun same => absurd same different]
        exact blankView level _
      have sameEntry : fresh.entries table (entryIndex page (level + 1)) =
          mem.entries table (entryIndex page (level + 1)) :=
        (agree _ _ _ visited).1
      rw [lookup_write_under wf' visited' under,
        lookup_absent wf' visited' under (sameEntry ▸ absent), find, saw, view]
      cases level with
      | zero | succ => simp only [find, next]
    · exact lookup_write_away wf' visited' under

end Enter

/-- Present words outside the frames to allocate stay, and so does which frames are referenced. -/
structure Extends (mem mem' : PageMemory) : Prop where
  entries : ∀ table, table ∉ mem.pool → ∀ index, isPresent (mem.entries table index) = true →
    mem'.entries table index = mem.entries table index
  pool : ∀ frame ∈ mem'.pool, frame ∈ mem.pool
  live : ∀ frame, mem.refcount frame ≠ 0 → mem'.refcount frame ≠ 0
  dead : ∀ frame, frame ∉ mem.pool → mem.refcount frame = 0 → mem'.refcount frame = 0

section Extends

variable {mem mem' mem'' : PageMemory} {root page : Nat}

theorem Extends.trans (first : Extends mem mem') (second : Extends mem' mem'') :
    Extends mem mem'' where
  entries table outside index present := by
    have kept := first.entries table outside index present
    rw [← kept] at present ⊢
    exact second.entries table (fun member => outside (first.pool table member)) index present
  pool frame member := first.pool frame (second.pool frame member)
  live frame live := second.live frame (first.live frame live)
  dead frame outside dead :=
    second.dead frame (fun member => outside (first.pool frame member))
      (first.dead frame outside dead)

theorem Same.extends (same : Same mem mem') : Extends mem mem' where
  entries _ _ _ _ := by rw [same.entries]
  pool _ member := same.pool ▸ member
  live frame live := fun dead => live ((same.refs frame).mp dead)
  dead frame _ dead := (same.refs frame).mpr dead

theorem write_present {table index other position : Nat} (word : Nat)
    (absent : isPresent (mem.entries table index) = false)
    (present : isPresent (mem.entries other position) = true) :
    (mem.write table index word).entries other position = mem.entries other position := by
  by_cases sameTable : other = table
  · subst sameTable
    have different : position ≠ index := by
      intro same
      rw [same, absent] at present
      cases present
    simp [PageMemory.write, different]
  · simp [PageMemory.write, sameTable]

theorem write_extends {table index : Nat} (word : Nat)
    (absent : isPresent (mem.entries table index) = false) :
    Extends mem (mem.write table index word) where
  entries _ _ _ present := write_present word absent present
  pool _ member := member
  live _ live := live
  dead _ _ dead := dead

theorem allocTable_extends {frame : Nat} (allocated : mem.allocTable = some (frame, mem')) :
    Extends mem mem' := by
  obtain ⟨pool, entries, refcount⟩ := allocTable_eq allocated
  have member : frame ∈ mem.pool := by simp [pool]
  refine ⟨fun table outside index _ => ?_, fun other later => by simp [pool, later], ?_, ?_⟩
  · have different : table ≠ frame := fun same => outside (same ▸ member)
    rw [entries, update_of_ne different]
  · intro other live
    rw [refcount, update_apply]
    split
    · exact one_ne_zero
    · exact live
  · intro other outside dead
    have different : other ≠ frame := fun same => outside (same ▸ member)
    rw [refcount, update_of_ne different]
    exact dead

theorem Extends.tableAt (extends' : Extends mem mem') (live : mem.refcount root ≠ 0)
    (pool_dead : ∀ frame ∈ mem.pool, mem.refcount frame = 0) {level table : Nat}
    (visited : mem.TableAt root page level table) : mem'.TableAt root page level table := by
  induction visited with
  | root => exact .root
  | @child below parent child above linked ih =>
    apply Store.At.child ih
    obtain ⟨present, -, small, target, childLive⟩ := view_eq_link linked
    have outside : parent ∉ mem.pool :=
      fun member => tableAt_live live above (pool_dead parent member)
    have kept := extends'.entries parent outside _ present
    have view : mem'.view (below + 1) (mem.entries parent (pageKey page (below + 1))) =
        .link child := by
      rw [target] at childLive ⊢
      refine view_link present ?_ (extends'.live _ childLive)
      rw [not_or, Bool.not_eq_true]
      exact ⟨Nat.succ_ne_zero below, small⟩
    show mem'.view (below + 1) (mem'.entries parent (pageKey page (below + 1))) = .link child
    rw [kept]
    exact view

/-- The walk of a page ends at a present word: a leaf, or a table entry whose frame is neither
referenced nor left to allocate. -/
def Settled (mem : PageMemory) (root page : Nat) : Prop :=
  ∃ level table, mem.TableAt root page level table ∧
    isPresent (mem.entries table (entryIndex page level)) = true ∧
    (level = 0 ∨ isHuge (mem.entries table (entryIndex page level)) level = true ∨
      mem.entries table (entryIndex page level) / pageSize ∉ mem.pool ∧
        mem.refcount (mem.entries table (entryIndex page level) / pageSize) = 0)

theorem Extends.lookup (extends' : Extends mem mem') (live : mem.refcount root ≠ 0)
    (pool_dead : ∀ frame ∈ mem.pool, mem.refcount frame = 0) (settled : Settled mem root page) :
    mem'.lookup root page = mem.lookup root page := by
  obtain ⟨level, table, visited, present, last⟩ := settled
  have outside : table ∉ mem.pool :=
    fun member => tableAt_live live visited (pool_dead table member)
  have kept : mem'.store.entry table (pageKey page level) =
      mem.store.entry table (pageKey page level) :=
    extends'.entries table outside _ present
  have view : mem'.store.see (pageKey page) level table = mem.store.see (pageKey page) level table ∧
        ∀ child, mem.store.see (pageKey page) level table ≠ .link child := by
    rw [see, kept]
    show mem'.view level (mem.entries table (entryIndex page level)) =
        mem.view level (mem.entries table (entryIndex page level)) ∧
      ∀ child, mem.view level (mem.entries table (entryIndex page level)) ≠ .link child
    generalize mem.entries table (entryIndex page level) = word at present last
    rw [← or_assoc] at last
    rcases last with leaf | ⟨away, dead⟩
    · rw [view_leaf present leaf, view_leaf present leaf]
      exact ⟨rfl, fun child => by simp⟩
    · simp only [PageMemory.view, dead, extends'.dead _ away dead]
      refine ⟨trivial, fun child => ?_⟩
      split_ifs <;> simp
  rw [PageMemory.lookup, PageMemory.lookup, if_neg live, if_neg (extends'.live root live),
    find_of_at visited, find_of_at (extends'.tableAt live pool_dead visited)]
  obtain ⟨sameView, noLink⟩ := view
  cases level with
  | zero => rw [find, find, sameView, kept]
  | succ level =>
    rw [find, find, sameView, kept]
    cases saw : mem.store.see (pageKey page) (level + 1) table with
    | empty | value => rfl
    | link child => exact absurd saw (noLink child)

end Extends

end Horizon.Paging
