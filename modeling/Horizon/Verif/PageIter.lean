import Horizon.Verif.PageCursor

/-!
# Iterating over a page range

The place `PageTableIter` stands at is the first page of its next entry. Entering and leaving a
table keep it and every leaf or absent entry moves it past the entry, so the steps follow one
another without a gap from the entry of the first page on.
-/

namespace Horizon.Paging

open Function Radix Runs Nat List

attribute [local irreducible] levelMask levelCount

/-- Where the walk of a page ends. -/
inductive Walked
  | absent (level : Nat)
  | leaf (frame level : Nat)
  deriving DecidableEq

def Walked.level : Walked → Nat
  | .absent level => level
  | .leaf _ level => level

def PageMemory.walk (mem : PageMemory) (page : Nat) : Nat → Nat → Walked
  | 0, table =>
    match frameNumber (mem.entries table (entryIndex page 0)) with
    | none => .absent 0
    | some frame => .leaf frame 0
  | level + 1, table =>
    let word := mem.entries table (entryIndex page (level + 1))
    match frameNumber word with
    | none => .absent (level + 1)
    | some frame =>
      if isHuge word (level + 1) then .leaf frame (level + 1) else mem.walk page level frame

/-- Page tables whose tables are all referenced. -/
structure AddressSpace where
  mem : PageMemory
  root : Nat
  live : mem.refcount root ≠ 0
  closed : ∀ key level table, mem.store.At topLevel root key level table → 0 < level →
    isPresent (mem.entries table (key level)) = true →
    isHuge (mem.entries table (key level)) level = false →
      mem.refcount (mem.entries table (key level) / pageSize) ≠ 0

namespace AddressSpace

variable (space : AddressSpace)

def walk (page : Nat) : Walked := space.mem.walk page topLevel space.root

variable {space}

theorem walk_of_at {page level table : Nat}
    (visited : space.mem.TableAt space.root page level table) :
    space.walk page = space.mem.walk page level table := by
  induction visited with
  | root => rfl
  | @child level table child above linked ih =>
    have link := view_eq_link linked
    generalize entry : space.mem.entries table (entryIndex page (level + 1)) = word
    have same : space.mem.store.entry table (pageKey page (level + 1)) = word := entry
    rw [same] at link
    have found : frameNumber word = some child := by
      rw [frameNumber, if_pos link.1, link.2.2.2.1]
    rw [ih, PageMemory.walk]
    simp only [entry, found, link.2.2.1, Bool.false_eq_true, if_false]

end AddressSpace

variable {base index j level : Nat}

theorem div_levelCount_of_table (aligned : levelCount (level + 1) ∣ base)
    (small : index < tableSize) (above : level < j) :
    (base + index * levelCount level) / levelCount j = base / levelCount j := by
  induction above with
  | refl =>
    obtain ⟨block, rfl⟩ := aligned
    have inside : index * levelCount level < levelCount (level + 1) := by
      rw [levelCount_succ, mul_comm (levelCount level)]
      exact Nat.mul_lt_mul_of_pos_right small (levelCount_pos level)
    rw [mul_add_div (levelCount_pos _), div_eq_of_lt inside, Nat.mul_div_cancel_left _
      (levelCount_pos _), add_zero]
  | step _ ih => rw [div_levelCount_succ, div_levelCount_succ, ih]

theorem div_levelCount_of_block {place page : Nat} (aligned : levelCount level ∣ place)
    (low : place ≤ page) (high : page < place + levelCount level) (above : level ≤ j) :
    page / levelCount j = place / levelCount j := by
  induction above with
  | refl => exact (div_eq_iff_of_dvd (levelCount_pos level) aligned).mpr ⟨low, high⟩
  | step _ ih => rw [div_levelCount_succ, div_levelCount_succ, ih]

theorem entryIndex_of_table (aligned : levelCount (level + 1) ∣ base) (small : index < tableSize) :
    entryIndex (base + index * levelCount level) level = index := by
  obtain ⟨block, rfl⟩ := aligned
  rw [entryIndex, levelCount_succ, mul_assoc, mul_comm index, ← mul_add,
    Nat.mul_div_cancel_left _ (levelCount_pos level), mul_add_mod, mod_eq_of_lt small]

namespace PageTableIter

def place (iter : PageTableIter) (level : Nat) : Nat :=
  iter.lock.base + iter.index * levelCount level

def window (iter : PageTableIter) : Nat := iter.lock.base / levelCount (topLevel + 1)

/-- An iterator whose lock is on the table of its base. -/
structure Standing (space : AddressSpace) (level : Nat) (iter : PageTableIter) : Prop where
  locked : Locked space.mem space.root iter.lock.base level iter.lock
  index_le : iter.index ≤ tableSize

section Standing

variable {space : AddressSpace} {level : Nat} {iter : PageTableIter}

theorem Standing.aligned (standing : Standing space level iter) :
    levelCount (level + 1) ∣ iter.lock.base := by
  rw [standing.locked.base_eq]
  exact dvd_levelMask _ _

def heldBy (iter : PageTableIter) (level : Nat) : List Nat :=
  iter.lock.held level (maxPageTableLevels - level)

theorem place_eq (iter : PageTableIter) (level : Nat) :
    iter.lock.base + iter.index <<< levelShift level = iter.place level := by
  rw [place, shiftLeft_eq]
  unfold levelCount
  rfl

theorem Standing.place_aligned (standing : Standing space level iter) :
    levelCount level ∣ iter.place level := by
  have table : levelCount level ∣ levelCount (level + 1) := ⟨tableSize, levelCount_succ level⟩
  exact dvd_add (table.trans standing.aligned) (dvd_mul_left _ _)

theorem Standing.visits {page : Nat} (standing : Standing space level iter)
    (small : iter.index < tableSize) (low : iter.place level ≤ page)
    (high : page < iter.place level + levelCount level) :
    ∃ table, iter.lock.get = some table ∧ iter.lock.guards level = some table ∧
      space.mem.TableAt space.root page level table ∧ entryIndex page level = iter.index := by
  have block {j : Nat} (above : level ≤ j) :=
    div_levelCount_of_block standing.place_aligned low high above
  have locked := standing.locked.congr_page fun j above =>
    (block (le_of_lt above)).trans (div_levelCount_of_table standing.aligned small above)
  obtain ⟨table, get, guard, visited⟩ := locked.toPath.get
  refine ⟨table, get, guard, visited, ?_⟩
  rw [entryIndex, block (le_refl level)]
  exact entryIndex_of_table standing.aligned small

def entered (iter : PageTableIter) (level child : Nat) : PageLock where
  base := iter.place (level + 1)
  level := some level
  refs := update iter.lock.refs level (some child)
  guards := update iter.lock.guards level (some child)

theorem Standing.push {table : Nat} (standing : Standing space (level + 1) iter)
    (small : iter.index < tableSize) (get : iter.lock.get = some table)
    (present : isPresent (space.mem.entries table iter.index) = true)
    (inner : isHuge (space.mem.entries table iter.index) (level + 1) = false) :
    ∃ iter', iter'.lock.base = iter.place (level + 1) ∧ iter'.index = 0 ∧ iter'.stop = iter.stop ∧
      iter'.window = iter.window ∧ Standing space level iter' ∧
      iter.lock.push iter.index none (space.mem.hold (iter.heldBy (level + 1))) =
        .ok (some iter'.lock, space.mem.hold (iter'.heldBy level)) := by
  generalize entry : space.mem.entries table iter.index = word at present inner
  have found := standing.visits small (le_refl _) (Nat.lt_add_of_pos_right (levelCount_pos _))
  rcases found with ⟨current, get', guard, visited, index⟩
  rw [get] at get'
  cases get'
  have read :
      space.mem.store.entry table (pageKey (iter.place (level + 1)) (level + 1)) = word := by
    show space.mem.entries table (entryIndex (iter.place (level + 1)) (level + 1)) = word
    rw [index, entry]
  have referenced : space.mem.refcount (word / pageSize) ≠ 0 := by
    have closed := space.closed _ _ _ visited (succ_pos level)
    rw [show space.mem.entries table (pageKey (iter.place (level + 1)) (level + 1)) = word
      from read] at closed
    exact closed present inner
  have linked : space.mem.store.see (pageKey (iter.place (level + 1))) (level + 1) table =
      .link (word / pageSize) := by
    rw [Store.see, read]
    exact view_link present (by simp [inner]) referenced
  have unguarded := standing.locked.free level (.inl (lt_succ_self _))
  have unreferenced := standing.locked.refs ▸ unguarded
  have base := levelMask_or standing.aligned small
  have moved :=
    standing.locked.congr_page fun j above => div_levelCount_of_table standing.aligned small above
  have path := moved.toPath.enter (.child visited linked)
  have bound := standing.locked.level_le
  have levels : maxPageTableLevels - level = (maxPageTableLevels - (level + 1)) + 1 := by
    have : topLevel = 3 := rfl
    have : maxPageTableLevels = 5 := rfl
    omega
  refine ⟨⟨iter.entered level (word / pageSize), 0, iter.stop⟩, rfl, rfl, rfl, ?_,
    ⟨⟨?_, ?_⟩, ?_⟩, ?_⟩
  · exact div_levelCount_of_table standing.aligned small (lt_succ_of_le bound)
  · exact { path with }
  · exact (levelMask_of_dvd standing.place_aligned).symm
  · exact zero_le _
  · have held : PageTableIter.heldBy ⟨iter.entered level (word / pageSize), 0, iter.stop⟩ level =
        word / pageSize :: iter.heldBy (level + 1) := by
      rw [heldBy, heldBy, levels, ← held_enter]
      exact congrFun (congrFun (held_congr rfl) _) _
    rw [held]
    have entries : (space.mem.hold (iter.heldBy (level + 1))).entries table iter.index = word :=
      entry
    simp only [PageLock.push, standing.locked.level_eq, get, entries, frameNumber, present, if_true,
      inner, Bool.false_eq_true, if_false, unguarded, Option.isSome_none, PageLock.childRef,
      acquire_hold referenced, unreferenced, PageMemory.dropOption, ok_bind, pure_ok, base]
    rfl

end Standing

end PageTableIter

/-- A leaf or absent step that says what the walk of every page of its block ends at. -/
inductive Reports (space : AddressSpace) (place level : Nat) : PtStep → Prop
  | absent (walks : ∀ page, place ≤ page → page < place + levelCount level →
      space.walk page = .absent level) : Reports space place level (.absent place level)
  | leaf {frame : Nat} (walks : ∀ page, place ≤ page → page < place + levelCount level →
      space.walk page = .leaf frame level) : Reports space place level (.leaf place frame level)

namespace PageTableIter

/-- An iterator that has read one entry moves past it. -/
structure Advanced (space : AddressSpace) (iter : PageTableIter) (level : Nat) (step : PtStep)
    (iter' : PageTableIter) (below : Nat) : Prop where
  standing : Standing space below iter'
  stop_eq : iter'.stop = iter.stop
  window_eq : iter'.window = iter.window
  place_eq : iter'.place below = iter.place level + levelCount below
  reports : Reports space (iter.place level) below step

section Step

variable {space : AddressSpace} {level : Nat} {iter : PageTableIter}

theorem Standing.advance (standing : Standing space level iter) (small : iter.index < tableSize)
    {step : PtStep} (reports : Reports space (iter.place level) level step) :
    Advanced space iter level step { iter with index := iter.index + 1 } level where
  standing := ⟨standing.locked, small⟩
  stop_eq := rfl
  window_eq := rfl
  place_eq := by
    rw [place, place, succ_mul, add_assoc]
  reports := reports

theorem Standing.walk_next {table : Nat} (standing : Standing space level iter) (page : Nat)
    (small : iter.index < tableSize) (get : iter.lock.get = some table)
    (low : iter.place level ≤ page) (high : page < iter.place level + levelCount level) :
    space.walk page = space.mem.walk page level table ∧ entryIndex page level = iter.index := by
  obtain ⟨found, get', -, visited, index⟩ := standing.visits small low high
  rw [get] at get'
  cases get'
  exact ⟨AddressSpace.walk_of_at visited, index⟩

theorem Standing.scan_advances (standing : Standing space level iter)
    (small : iter.index < tableSize) (inside : iter.place level < iter.stop) :
    ∃ step iter' below, Advanced space iter level step iter' below ∧
      scan level iter (space.mem.hold (iter.heldBy level)) =
        .ok (some step, iter', space.mem.hold (iter'.heldBy below)) := by
  induction level generalizing iter with
  | zero =>
    obtain ⟨table, get, -, -⟩ := standing.locked.toPath.get
    have walks (page : Nat) := standing.walk_next page small get
    have entries : (space.mem.hold (iter.heldBy 0)).entries table iter.index =
        space.mem.entries table iter.index := rfl
    rw [scan.eq_def]
    dsimp only
    rw [place_eq, if_neg (not_le.mpr inside), get]
    dsimp only
    rw [entries]
    cases found : frameNumber (space.mem.entries table iter.index) with
    | none =>
      refine ⟨_, _, 0, standing.advance small (.absent fun page low high => ?_), rfl⟩
      rw [(walks page low high).1, PageMemory.walk, (walks page low high).2, found]
    | some frame =>
      refine ⟨_, _, 0, standing.advance small (.leaf fun page low high => ?_), rfl⟩
      rw [(walks page low high).1, PageMemory.walk, (walks page low high).2, found]
  | succ level ih =>
    obtain ⟨table, get, -, -⟩ := standing.locked.toPath.get
    have walks (page : Nat) := standing.walk_next page small get
    have entries : (space.mem.hold (iter.heldBy (level + 1))).entries table iter.index =
        space.mem.entries table iter.index := rfl
    rw [scan.eq_def]
    dsimp only
    rw [place_eq, if_neg (not_le.mpr inside), get]
    dsimp only
    rw [entries]
    cases found : frameNumber (space.mem.entries table iter.index) with
    | none =>
      refine ⟨_, _, level + 1, standing.advance small (.absent fun page low high => ?_), rfl⟩
      rw [(walks page low high).1, PageMemory.walk]
      simp only [(walks page low high).2, found]
    | some frame =>
      dsimp only
      by_cases huge : isHuge (space.mem.entries table iter.index) (level + 1) = true
      · rw [if_pos huge]
        refine ⟨_, _, level + 1, standing.advance small (.leaf fun page low high => ?_), rfl⟩
        rw [(walks page low high).1, PageMemory.walk]
        simp only [(walks page low high).2, found, huge, if_true]
      · rw [if_neg huge]
        have present : isPresent (space.mem.entries table iter.index) = true := by
          by_contra absent
          rw [frameNumber, if_neg absent] at found
          cases found
        obtain ⟨iter', base, index, stop, window, standing', pushed⟩ :=
          standing.push small get present (Bool.eq_false_iff.mpr huge)
        have here : iter'.place level = iter.place (level + 1) := by
          rw [place, base, index, zero_mul, add_zero]
        have room : iter'.index < tableSize := by
          rw [index]
          decide
        obtain ⟨step, final, below, advanced, scanned⟩ :=
          ih standing' room (by rw [here, stop]; exact inside)
        refine ⟨step, final, below, ⟨advanced.standing, advanced.stop_eq.trans stop,
          advanced.window_eq.trans window, ?_, ?_⟩, ?_⟩
        · rw [advanced.place_eq, here]
        · rw [← here]
          exact advanced.reports
        · have same : (⟨iter'.lock, 0, iter.stop⟩ : PageTableIter) = iter' := by
            rw [← index, ← stop]
          simp only [pushed, ok_bind, same]
          exact scanned

theorem held_leave {lock : PageLock} {table count : Nat} (ref : lock.refs level = some table)
    (popped : PageLock) (refs : popped.refs = update lock.refs level none) :
    lock.held level (count + 1) = table :: popped.held (level + 1) count := by
  rw [PageLock.held, PageLock.held, range'_succ, filterMap_cons, ref, refs]
  simp only [List.cons.injEq, true_and]
  apply filterMap_congr
  intro j member
  rw [mem_range'_1] at member
  exact (update_of_ne (by omega) _ _).symm

theorem entryIndex_leave (base level : Nat) :
    entryIndex (base + tableSize <<< levelShift level) level = entryIndex base level := by
  have shifted : base + tableSize <<< levelShift level = base + tableSize * levelCount level := by
    rw [shiftLeft_eq]
    unfold levelCount
    rfl
  rw [shifted, entryIndex, entryIndex, add_mul_div_right _ _ (levelCount_pos level), add_mod_right]

theorem Standing.leave_climbs (standing : Standing space level iter)
    (full : iter.index = tableSize) (below : level < topLevel) :
    ∃ frame iter', Standing space (level + 1) iter' ∧ iter'.stop = iter.stop ∧
      iter'.window = iter.window ∧ iter'.place (level + 1) = iter.place level ∧
      iter.leave (space.mem.hold (iter.heldBy level)) =
        .ok (some (.table iter.lock.base frame (level + 1)), iter',
          space.mem.hold (iter'.heldBy (level + 1))) := by
  obtain ⟨_, popped, pop, locked⟩ := standing.locked.pop below
  obtain ⟨level', level_eq, -, popped_eq⟩ := pop_eq pop
  rw [standing.locked.level_eq] at level_eq
  cases level_eq
  obtain ⟨table, -, guard, visited⟩ := standing.locked.toPath.get
  have ref := standing.locked.refs ▸ guard
  have referenced := tableAt_live space.live visited
  have levels : maxPageTableLevels - level = (maxPageTableLevels - (level + 1)) + 1 := by
    have : topLevel = 3 := rfl
    have : maxPageTableLevels = 5 := rfl
    omega
  have held : iter.heldBy level =
      table :: popped.held (level + 1) (maxPageTableLevels - (level + 1)) := by
    rw [heldBy, levels]
    exact held_leave ref popped (by rw [popped_eq])
  have leaves (held : List Nat) : iter.lock.pop (space.mem.hold held) =
      .ok (some (table, level + 1), popped, space.mem.hold held) := by
    simp only [PageLock.pop, standing.locked.level_eq, guard, if_neg below.ne, ref, popped_eq]
  -- The entry of the table above that points to the table left.
  obtain ⟨parent, get, -, above⟩ := locked.toPath.get
  obtain ⟨child, link⟩ := above.linked visited (lt_succ_self level)
  have present :
      isPresent (space.mem.entries parent (entryIndex iter.lock.base (level + 1))) = true :=
    (view_eq_link link).1
  have base := locked.base_eq
  have covers {j : Nat} (higher : level + 2 ≤ j) :=
    div_levelCount_of_block (dvd_levelMask (level + 2) iter.lock.base) (levelMask_le _ _)
      (lt_levelMask_add _ _) higher
  refine ⟨space.mem.entries parent (entryIndex iter.lock.base (level + 1)) / pageSize,
    ⟨popped, entryIndex iter.lock.base (level + 1) + 1, iter.stop⟩, ⟨?_, ?_⟩, rfl, ?_, ?_, ?_⟩
  · refine locked.congr_page fun j higher => ?_
    rw [base, covers (succ_le_of_lt higher)]
  · exact entryIndex_lt _ _
  · rw [window, window, base, covers (succ_le_succ below)]
  · have entry := levelMask_succ_add iter.lock.base (level + 1)
    have here := levelMask_of_dvd standing.aligned
    rw [place, place, base, full, succ_mul, ← add_assoc, entry, here, levelCount_succ level,
      mul_comm tableSize]
  · rw [leave, held, leaves]
    simp only [ok_bind, dropRef_hold referenced, full, entryIndex_leave, get, pure_ok]
    have entries (held : List Nat) : (space.mem.hold held).entries = space.mem.entries := rfl
    simp only [entries, frameNumber, present, if_true]
    rfl

theorem Standing.leave_ends (standing : Standing space topLevel iter) :
    ∃ iter', iter.leave (space.mem.hold (iter.heldBy topLevel)) = .ok (none, iter', space.mem) ∧
      iter'.lock.drop space.mem = .ok space.mem := by
  obtain ⟨table, -, guard, visited⟩ := standing.locked.toPath.get
  have ref := standing.locked.refs ▸ guard
  have referenced := tableAt_live space.live visited
  let popped : PageLock :=
    { base := iter.lock.base
      level := none
      refs := update iter.lock.refs topLevel none
      guards := update iter.lock.guards topLevel none }
  have empty (j : Nat) : popped.refs j = none := by
    show update iter.lock.refs topLevel none j = none
    by_cases top : j = topLevel
    · rw [top, update_self]
    · rw [update_of_ne top, standing.locked.refs]
      exact standing.locked.free j (lt_or_gt_of_ne top)
  have nothing (level count : Nat) : popped.held level count = [] := by
    rw [PageLock.held, filterMap_eq_nil_iff]
    exact fun j _ => empty j
  have held : iter.heldBy topLevel = [table] := by
    have left : iter.lock.held topLevel (1 + 1) = table :: popped.held (topLevel + 1) 1 :=
      held_leave ref popped rfl
    rw [nothing] at left
    exact left
  refine ⟨{ iter with lock := popped }, ?_, ?_⟩
  · rw [leave, held]
    have dropped : (space.mem.hold [table]).dropOption (some table) = .ok space.mem :=
      dropRef_hold referenced
    simp only [PageLock.pop, standing.locked.level_eq, guard, ref, if_true, dropped, ok_bind,
      pure_ok, popped]
  · have dropped := @dropLevels_hold space.mem popped 0 maxPageTableLevels
      (by rw [nothing]; simp)
    rw [nothing, hold_nil] at dropped
    exact dropped

end Step

end PageTableIter

/-- Steps that follow one another from a place up to another; every entry is aligned and starts
before `stop`. -/
inductive Follows (space : AddressSpace) (stop : Nat) : Nat → List PtStep → Nat → Prop
  | done (place : Nat) : Follows space stop place [] place
  | table {place final base frame level : Nat} {steps : List PtStep}
      (rest : Follows space stop place steps final) :
      Follows space stop place (.table base frame level :: steps) final
  | entry {place final level : Nat} {step : PtStep} {steps : List PtStep} (inside : place < stop)
      (aligned : levelCount level ∣ place) (reports : Reports space place level step)
      (rest : Follows space stop (place + levelCount level) steps final) :
      Follows space stop place (step :: steps) final

namespace PageTableIter

section Collect

variable {space : AddressSpace} {level : Nat} {iter : PageTableIter}

/-- A bound on the calls of `next` that are left. -/
def callsLeft (iter : PageTableIter) (level : Nat) : Nat :=
  (iter.stop - iter.place level) * 5 + (4 - level)

def windowEnd (iter : PageTableIter) : Nat := (iter.window + 1) * levelCount (topLevel + 1)

theorem Standing.place_full (standing : Standing space topLevel iter)
    (full : iter.index = tableSize) : iter.place topLevel = iter.windowEnd := by
  rw [place, full, windowEnd, window, succ_mul, Nat.div_mul_cancel standing.aligned,
    levelCount_succ topLevel, mul_comm tableSize]

/-- What a call of `next` makes of a standing iterator. -/
inductive Stepped (space : AddressSpace) (level : Nat) (iter : PageTableIter) :
    Option PtStep → PageTableIter → PageMemory → Prop
  | ended {iter' : PageTableIter} {mem : PageMemory}
      (dropped : iter'.lock.drop mem = .ok space.mem)
      (reach : iter.stop ≤ iter.place level ∨ iter.place level = iter.windowEnd) :
      Stepped space level iter none iter' mem
  | left {base frame above : Nat} {iter' : PageTableIter} (standing : Standing space above iter')
      (stop_eq : iter'.stop = iter.stop) (window_eq : iter'.window = iter.window)
      (place_eq : iter'.place above = iter.place level)
      (fewer : iter'.callsLeft above < iter.callsLeft level) :
      Stepped space level iter (some (.table base frame above)) iter'
        (space.mem.hold (iter'.heldBy above))
  | read {step : PtStep} {below : Nat} {iter' : PageTableIter}
      (inside : iter.place level < iter.stop)
      (advanced : Advanced space iter level step iter' below)
      (fewer : iter'.callsLeft below < iter.callsLeft level) :
      Stepped space level iter (some step) iter' (space.mem.hold (iter'.heldBy below))

/-- The step lemma of the iterator. -/
theorem Standing.next_stepped (standing : Standing space level iter) :
    ∃ step iter' mem, iter.next (space.mem.hold (iter.heldBy level)) = .ok (step, iter', mem) ∧
      Stepped space level iter step iter' mem := by
  have level_le := standing.locked.level_le
  have top : topLevel = 3 := rfl
  rw [PageTableIter.next, standing.locked.level_eq]
  dsimp only
  rcases lt_or_ge iter.index tableSize with small | full
  · rw [if_neg (not_le.mpr small)]
    by_cases inside : iter.place level < iter.stop
    · obtain ⟨step, iter', below, advanced, scanned⟩ := standing.scan_advances small inside
      have positive := levelCount_pos below
      have fewer : iter'.callsLeft below < iter.callsLeft level := by
        rw [callsLeft, callsLeft, advanced.place_eq, advanced.stop_eq]
        omega
      exact ⟨_, _, _, scanned, .read inside advanced fewer⟩
    · rw [scan.eq_def]
      dsimp only
      rw [place_eq, if_pos (not_lt.mp inside)]
      have dropped := standing.locked.toPath.drop space.live
      exact ⟨_, _, _, rfl, .ended dropped (.inl (not_lt.mp inside))⟩
  · have index := le_antisymm standing.index_le full
    rw [if_pos full]
    rcases lt_or_ge level topLevel with lower | highest
    · obtain ⟨frame, iter', standing', stop, window, here, left⟩ :=
        standing.leave_climbs index lower
      have fewer : iter'.callsLeft (level + 1) < iter.callsLeft level := by
        rw [callsLeft, callsLeft, here, stop]
        omega
      exact ⟨_, _, _, left, .left standing' stop window here fewer⟩
    · obtain rfl : level = topLevel := le_antisymm level_le highest
      obtain ⟨iter', left, dropped⟩ := standing.leave_ends
      exact ⟨_, _, _, left, .ended dropped (.inr (standing.place_full index))⟩

/-- The calls of `next` return the steps and then nothing, and leave the memory as it was. -/
inductive Yields (space : AddressSpace) : Nat → PageTableIter → List PtStep → Prop
  | ended {level : Nat} {iter iter' : PageTableIter} {mem : PageMemory}
      (next : iter.next (space.mem.hold (iter.heldBy level)) = .ok (none, iter', mem))
      (dropped : iter'.lock.drop mem = .ok space.mem) : Yields space level iter []
  | step {level below : Nat} {iter iter' : PageTableIter} {step : PtStep} {steps : List PtStep}
      (next : iter.next (space.mem.hold (iter.heldBy level)) =
        .ok (some step, iter', space.mem.hold (iter'.heldBy below)))
      (standing : Standing space below iter')
      (fewer : iter'.callsLeft below < iter.callsLeft level)
      (rest : Yields space below iter' steps) : Yields space level iter (step :: steps)

theorem Standing.follows (standing : Standing space level iter) :
    ∃ steps final, Yields space level iter steps ∧
      Follows space iter.stop (iter.place level) steps final ∧
      (iter.stop ≤ final ∨ final = iter.windowEnd) := by
  induction bound : iter.callsLeft level using Nat.strong_induction_on generalizing iter level with
  | _ calls ih =>
  subst bound
  obtain ⟨step, iter', mem, next, stepped⟩ := standing.next_stepped
  cases stepped with
  | ended dropped reach => exact ⟨[], _, .ended next dropped, .done _, reach⟩
  | left standing' stop window here fewer =>
    obtain ⟨steps, final, yields, follows, reach⟩ := ih _ fewer standing' rfl
    rw [here, stop] at follows
    rw [stop, windowEnd, window] at reach
    exact ⟨_, final, .step next standing' fewer yields, .table follows, reach⟩
  | read inside advanced fewer =>
    obtain ⟨steps, final, yields, follows, reach⟩ := ih _ fewer advanced.standing rfl
    rw [advanced.place_eq, advanced.stop_eq] at follows
    rw [advanced.stop_eq, windowEnd, advanced.window_eq] at reach
    have aligned := advanced.standing.place_aligned
    rw [advanced.place_eq, Nat.dvd_add_self_right] at aligned
    exact ⟨_, final, .step next advanced.standing fewer yields,
      .entry inside aligned advanced.reports follows, reach⟩

theorem Yields.collect {steps : List PtStep} (yields : Yields space level iter steps) {rounds : Nat}
    (enough : iter.callsLeft level < rounds) :
    iter.collect rounds (space.mem.hold (iter.heldBy level)) = .ok (steps, space.mem) := by
  induction yields generalizing rounds with
  | ended next dropped =>
    obtain ⟨rounds, rfl⟩ := exists_eq_succ_of_ne_zero (Nat.ne_zero_of_lt enough)
    rw [PageTableIter.collect]
    simp only [next, ok_bind, dropped, pure_ok]
  | step next _ fewer _ ih =>
    obtain ⟨rounds, rfl⟩ := exists_eq_succ_of_ne_zero (Nat.ne_zero_of_lt enough)
    have collected := ih (fewer.trans_le (le_of_lt_succ enough))
    rw [PageTableIter.collect]
    simp only [next, ok_bind, collected, pure_ok]

end Collect

variable {more rounds : Nat} {mem : PageMemory}

theorem collect_mono {iter : PageTableIter} {result : List PtStep × PageMemory}
    (collected : iter.collect rounds mem = .ok result) (le : rounds ≤ more) :
    iter.collect more mem = .ok result := by
  induction rounds generalizing iter mem more result with
  | zero => cases collected
  | succ rounds ih =>
    obtain ⟨more, rfl⟩ := exists_eq_succ_of_ne_zero (Nat.ne_zero_of_lt le)
    obtain ⟨⟨step, iter', mem'⟩, next, rest⟩ := bind_eq_ok.mp collected
    refine bind_eq_ok.mpr ⟨_, next, ?_⟩
    cases step with
    | none => exact rest
    | some step =>
      obtain ⟨later, collected', rest⟩ := bind_eq_ok.mp rest
      exact bind_eq_ok.mpr ⟨later, ih collected' (le_of_succ_le_succ le), rest⟩

theorem iterate_mono {root start stop : Nat} {result : Option (List PtStep) × PageMemory}
    (iterated : iterate rounds mem root start stop = .ok result) (le : rounds ≤ more) :
    iterate more mem root start stop = .ok result := by
  obtain ⟨⟨iter, mem'⟩, new, rest⟩ := bind_eq_ok.mp iterated
  refine bind_eq_ok.mpr ⟨_, new, ?_⟩
  cases iter with
  | none => exact rest
  | some iter =>
    obtain ⟨steps, collected, rest⟩ := bind_eq_ok.mp rest
    exact bind_eq_ok.mpr ⟨steps, collect_mono collected le, rest⟩

theorem walk_level_of_stops {page table : Nat} (stops : Stops mem page level table) :
    (mem.walk page level table).level = level := by
  cases level with
  | zero =>
    rw [PageMemory.walk]
    split <;> rfl
  | succ level =>
    rw [PageMemory.walk]
    rcases stops with zero | absent | huge
    · cases zero
    · rw [frameNumber, if_neg (by rw [absent]; decide)]
      rfl
    · split
      · rfl
      · rw [if_pos huge]
        rfl

theorem new_standing (space : AddressSpace) (start stop : Nat) :
    ∃ level iter, Standing space level iter ∧ iter.stop = stop ∧ iter.place level ≤ start ∧
      start < iter.place level + levelCount level ∧
      (space.walk (iter.place level)).level = level ∧
      iter.window = start / levelCount (topLevel + 1) ∧
      new space.mem space.root start stop =
        .ok (some iter, space.mem.hold (iter.heldBy level)) := by
  rcases lockPage_spec space.mem space.root start space.live with
    ⟨lock, level, table, locking, locked, guard, stops⟩ |
    ⟨-, -, level, table, visited, present, small, dead⟩
  · have covers {j : Nat} (higher : level + 1 ≤ j) :=
      div_levelCount_of_block (dvd_levelMask (level + 1) start) (levelMask_le _ _)
        (lt_levelMask_add _ _) higher
    have entry := levelMask_succ_add start level
    have here : PageTableIter.place ⟨lock, entryIndex start level, stop⟩ level =
        levelMask level start := by
      rw [place, locked.base_eq, entry]
    have standing : Standing space level ⟨lock, entryIndex start level, stop⟩ := by
      refine ⟨locked.congr_page fun j higher => ?_, (entryIndex_lt start level).le⟩
      rw [locked.base_eq, covers higher]
    refine ⟨level, _, standing, rfl, ?_, ?_, ?_, ?_, ?_⟩
    · rw [here]
      exact levelMask_le level start
    · rw [here]
      exact lt_levelMask_add level start
    · -- The first page of the entry and the page itself walk through the same entry.
      obtain ⟨current, -, guard', visited, index⟩ := standing.visits (entryIndex_lt start level)
        (le_refl _) (Nat.lt_add_of_pos_right (levelCount_pos level))
      rw [guard] at guard'
      cases guard'
      rw [AddressSpace.walk_of_at visited]
      apply walk_level_of_stops
      rw [Stops, index]
      exact stops
    · rw [window, locked.base_eq, covers (succ_le_succ locked.level_le)]
    · simp only [new, locking, ok_bind, locked.level_eq, pure_ok]
      rfl
  · -- Every table of the walk is referenced.
    exact absurd dead (space.closed _ _ _ visited (succ_pos level) present small)

end PageTableIter

def PtStep.block : PtStep → Option (Nat × Nat)
  | .absent page level => some (page, level)
  | .table _ _ _ => none
  | .leaf page _ level => some (page, level)

/-- The steps go through the pages of the range in order, and report what the tables say. -/
structure Covers (space : AddressSpace) (start stop : Nat) (steps : List PtStep) : Prop where
  ascending : (steps.filterMap PtStep.block).Pairwise fun block later =>
    block.1 + levelCount block.2 ≤ later.1
  complete : ∀ page, start ≤ page → page < stop →
    ∃ block ∈ steps.filterMap PtStep.block, block.1 ≤ page ∧ page < block.1 + levelCount block.2
  /-- Every step says what the plain walk of the pages of its block ends at. -/
  faithful : ∀ step ∈ steps, ∀ block ∈ step.block, Reports space block.1 block.2 step

section Covers

variable {space : AddressSpace} {stop place final : Nat} {steps : List PtStep}

theorem Reports.block_eq {step : PtStep} (reports : Reports space place level step) :
    step.block = some (place, level) := by
  cases reports <;> rfl

section

variable (follows : Follows space stop place steps final)
include follows

theorem Follows.le : ∀ block ∈ steps.filterMap PtStep.block, place ≤ block.1 := by
  induction follows with
  | done place => simp
  | table _ ih => exact ih
  | entry _ _ reports _ ih =>
    rw [filterMap_cons, reports.block_eq]
    intro block member
    rcases List.mem_cons.mp member with rfl | later
    · exact le_refl _
    · exact (Nat.le_add_right _ _).trans (ih block later)

theorem Follows.ascending : (steps.filterMap PtStep.block).Pairwise fun block later =>
      block.1 + levelCount block.2 ≤ later.1 := by
  induction follows with
  | done place => simp
  | table _ ih => exact ih
  | entry _ _ reports rest ih =>
    rw [filterMap_cons, reports.block_eq]
    exact List.pairwise_cons.mpr ⟨rest.le, ih⟩

theorem Follows.complete {page : Nat} (low : place ≤ page) (high : page < final) :
    ∃ block ∈ steps.filterMap PtStep.block,
      block.1 ≤ page ∧ page < block.1 + levelCount block.2 := by
  induction follows with
  | done place => exact absurd high (not_lt.mpr low)
  | table _ ih => exact ih low high
  | @entry place final level step steps _ _ reports _ ih =>
    rw [filterMap_cons, reports.block_eq]
    rcases lt_or_ge page (place + levelCount level) with here | later
    · exact ⟨(place, level), mem_cons_self, low, here⟩
    · obtain ⟨block, member, inside⟩ := ih later high
      exact ⟨block, mem_cons_of_mem _ member, inside⟩

theorem Follows.faithful :
    ∀ step ∈ steps, ∀ block ∈ step.block, Reports space block.1 block.2 step := by
  induction follows with
  | done place => simp
  | table _ ih =>
    intro step member block inside
    rcases List.mem_cons.mp member with rfl | later
    · cases inside
    · exact ih step later block inside
  | entry _ _ reports _ ih =>
    intro step member block inside
    rcases List.mem_cons.mp member with rfl | later
    · rw [reports.block_eq] at inside
      cases inside
      exact reports
    · exact ih step later block inside

end

end Covers

/-- A range of pages inside one window of the top table. -/
structure PageSpan where
  start : Nat
  stop : Nat
  stop_le : stop ≤ (start / 2 ^ 36 + 1) * 2 ^ 36

/-- Iterating over a range in the span of the top table ends, leaves the memory as it was, and gives
leaf and absent steps that ascend without overlap, cover the range and agree with the plain walk. -/
theorem AddressSpace.iterate_covers (space : AddressSpace) (span : PageSpan) :
    ∃ steps, Covers space span.start span.stop steps ∧
      ∃ bound, ∀ rounds, bound ≤ rounds →
        PageTableIter.iterate rounds space.mem space.root span.start span.stop =
          .ok (some steps, space.mem) := by
  obtain ⟨level, iter, standing, stop, place, -, -, window, new⟩ :=
    PageTableIter.new_standing space span.start span.stop
  obtain ⟨steps, final, yields, follows, reach⟩ := standing.follows
  have reached : span.stop ≤ final := by
    rcases reach with past | last
    · exact stop ▸ past
    · have spanned := span.stop_le
      have total : levelCount (topLevel + 1) = 2 ^ 36 := by
        unfold levelCount
        rfl
      rw [last, PageTableIter.windowEnd, window, total]
      exact spanned
  refine ⟨steps, ⟨follows.ascending, ?_, follows.faithful⟩, iter.callsLeft level + 1, ?_⟩
  · intro page low high
    exact follows.complete (place.trans low) (high.trans_le reached)
  · intro rounds enough
    simp only [PageTableIter.iterate, new, bind, Except.bind, yields.collect enough, pure,
      Except.pure]

end Horizon.Paging

-- From here on page numbers are computed.
namespace Horizon.Paging

def vacantTables : PageMemory := ⟨fun _ _ => newAbsent, fun _ => 1, []⟩

def vacantSpace : AddressSpace where
  mem := vacantTables
  root := 1
  live := Nat.one_ne_zero
  closed _ _ _ _ _ present := absurd present (by decide : ¬ isPresent newAbsent = true)

/-- A range across the end of the span of the top table is left there: the page after it is in no
step. -/
theorem iterate_stops_at_span : ¬ ∃ steps, Covers vacantSpace (2 ^ 36 - 1) (2 ^ 36 + 1) steps ∧
      ∃ bound, ∀ rounds, bound ≤ rounds →
        PageTableIter.iterate rounds vacantSpace.mem vacantSpace.root (2 ^ 36 - 1) (2 ^ 36 + 1) =
          .ok (some steps, vacantSpace.mem) := by
  rintro ⟨steps, covers, bound, run⟩
  have evaluated : Except.map Prod.fst (PageTableIter.iterate 2 vacantSpace.mem vacantSpace.root
      (2 ^ 36 - 1) (2 ^ 36 + 1)) = .ok (some [.absent (511 * 2 ^ 27) 3]) := by decide +kernel
  cases iterated : PageTableIter.iterate 2 vacantSpace.mem vacantSpace.root (2 ^ 36 - 1)
      (2 ^ 36 + 1) with
  | error panic =>
    rw [iterated] at evaluated
    cases evaluated
  | ok result =>
  rw [iterated] at evaluated
  have ran := (PageTableIter.iterate_mono iterated (le_max_right bound 2)).symm.trans
    (run _ (le_max_left bound 2))
  cases ran
  cases evaluated
  obtain ⟨block, member, low, high⟩ := covers.complete (2 ^ 36) (by decide) (by decide)
  obtain rfl : block = (511 * 2 ^ 27, 3) := by simpa [PtStep.block] using member
  exact absurd high (by decide)

end Horizon.Paging
