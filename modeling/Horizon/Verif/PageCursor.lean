import Horizon.Spec.Runs
import Horizon.Verif.PageMemory

/-!
# The cursor of `map_range`

A round of the loop refuses, enters a table, or writes a leaf and climbs to the table of the next
page. As long as base, level and index belong to the locked table, the cursor stays on the walk of
its page.
-/

namespace Horizon.Paging

open Function Radix Runs PageLock

/-- The pages of canonical addresses. -/
def Canonical (page : Nat) : Prop := page < 2 ^ 35 ∨ 2 ^ 52 - 2 ^ 35 ≤ page ∧ page < 2 ^ 52

instance (page : Nat) : Decidable (Canonical page) := inferInstanceAs (Decidable (_ ∨ _))

theorem div_levelCount_succ (page level : Nat) :
    page / levelCount (level + 1) = page / levelCount level / tableSize := by
  rw [levelCount_succ, Nat.div_div_eq_div_mul]

variable {level other page : Nat}

theorem under_iff (canonical : Canonical page) (canonical' : Canonical other)
    (bound : level ≤ topLevel) :
    Under page level other ↔ other / levelCount level = page / levelCount level := by
  induction bound using Nat.decreasingInduction with
  | self =>
    have top : levelCount topLevel = 2 ^ 27 := rfl
    have size : tableSize = 512 := rfl
    constructor
    · intro under
      have index : entryIndex other topLevel = entryIndex page topLevel :=
        congrArg Fin.val (under topLevel (le_refl _) (le_refl _))
      rw [entryIndex, entryIndex, top, size] at index
      rw [top]
      unfold Canonical at canonical canonical'
      omega
    · intro block j low high
      obtain rfl := le_antisymm high low
      apply Fin.ext
      show other / levelCount topLevel % tableSize = page / levelCount topLevel % tableSize
      rw [block]
  | of_succ level below ih =>
    have size : tableSize = 512 := rfl
    rw [div_levelCount_succ, div_levelCount_succ, size] at ih
    constructor
    · intro under
      have above := ih.mp fun j low high => under j (Nat.le_of_succ_le low) high
      have index : entryIndex other level = entryIndex page level :=
        congrArg Fin.val (under level (le_refl _) (le_of_lt below))
      rw [entryIndex, entryIndex, size] at index
      omega
    · intro block j low high
      rcases Nat.eq_or_lt_of_le low with rfl | above
      · apply Fin.ext
        show other / levelCount level % tableSize = page / levelCount level % tableSize
        rw [block]
      · exact ih.mpr (by rw [block]) j above high

theorem div_eq_iff_of_dvd {count : Nat} (positive : 0 < count) (aligned : count ∣ page) :
    other / count = page / count ↔ page ≤ other ∧ other < page + count := by
  obtain ⟨block, rfl⟩ := aligned
  rw [Nat.mul_div_cancel_left _ positive, Nat.div_eq_iff positive, mul_comm count block]
  omega

theorem dvd_levelMask (level page : Nat) : levelCount level ∣ levelMask level page :=
  dvd_mul_left _ _

theorem levelMask_of_dvd (aligned : levelCount level ∣ page) :
    levelMask level page = page := Nat.div_mul_cancel aligned

theorem lt_levelMask_add (level page : Nat) : page < levelMask level page + levelCount level := by
  have := Nat.lt_div_mul_add (a := page) (levelCount_pos level)
  exact this

theorem levelMask_levelMask (level page : Nat) :
    levelMask (level + 1) (levelMask level page) = levelMask (level + 1) page := by
  have positive := levelCount_pos level
  rw [levelMask, levelMask, div_levelCount_succ, levelMask, Nat.mul_div_cancel _ positive,
    ← div_levelCount_succ]

theorem levelMask_or {base index : Nat} (aligned : levelCount (level + 1) ∣ base)
    (small : index < tableSize) :
    levelMask (level + 1) base ||| index <<< levelShift level =
      base + index * levelCount level := by
  have inside : index <<< levelShift level < 2 ^ levelShift (level + 1) := by
    have := Nat.mul_lt_mul_of_pos_right small (levelCount_pos level)
    rw [mul_comm tableSize, ← levelCount_succ] at this
    rw [Nat.shiftLeft_eq]
    exact this
  rw [levelMask_of_dvd aligned]
  obtain ⟨block, rfl⟩ := aligned
  rw [levelCount, ← Nat.two_pow_add_eq_or_of_lt inside, Nat.shiftLeft_eq]
  rfl

attribute [local irreducible] levelMask levelCount

theorem div_succ_of_next {size j : Nat}
    (next : (page + size) / levelCount level = page / levelCount level + 1)
    (inside : entryIndex page level + 1 < tableSize) (above : level < j) :
    (page + size) / levelCount j = page / levelCount j := by
  induction above with
  | refl =>
    rw [entryIndex] at inside
    have total : tableSize = 512 := rfl
    rw [div_levelCount_succ, div_levelCount_succ, next]
    rw [total] at inside ⊢
    omega
  | step _ ih => rw [div_levelCount_succ, div_levelCount_succ, ih]

section

variable {page size level : Nat}
  (next : (page + size) / levelCount level = page / levelCount level + 1)
  (last : tableSize ≤ entryIndex page level + 1)
include next last

theorem div_succ_of_last :
    (page + size) / levelCount (level + 1) = page / levelCount (level + 1) + 1 := by
  rw [entryIndex] at last
  have total : tableSize = 512 := rfl
  rw [div_levelCount_succ, div_levelCount_succ, next]
  rw [total] at last ⊢
  omega

theorem dvd_succ_of_last (aligned : levelCount level ∣ page + size) :
    levelCount (level + 1) ∣ page + size := by
  have total : tableSize = 512 := rfl
  rw [entryIndex, total] at last
  have full : tableSize ∣ (page + size) / levelCount level := by
    rw [next, total]
    omega
  rw [levelCount_succ, ← Nat.div_mul_cancel aligned, mul_comm (levelCount level)]
  exact Nat.mul_dvd_mul_right full _

end

section Move

variable {mem mem' : PageMemory} {root page level : Nat} {lock lock' : PageLock}

theorem refusePush_same {newTable : Option Nat} {result : Option PageLock}
    (pushed : refusePush mem newTable = .ok (result, mem')) :
    result = none ∧ Same mem mem' := by
  obtain ⟨dropped, drop, rest⟩ := bind_eq_ok.mp pushed
  cases rest
  exact ⟨rfl, dropOption_same drop⟩

theorem childRef_same (mem : PageMemory) (frame : Nat) (newTable : Option Nat) :
    Same mem (childRef mem frame newTable).2 := by
  cases newTable with
  | some table => exact Same.refl mem
  | none =>
    unfold childRef
    cases acquired : mem.acquire frame with
    | none => exact Same.refl mem
    | some held => exact acquire_same acquired

section

variable {index : Nat} {newTable : Option Nat}
  (pushed : lock.push index newTable mem = .ok (some lock', mem'))
include pushed

theorem push_eq : ∃ level table, lock.level = some (level + 1) ∧ lock.get = some table ∧
      isPresent (mem.entries table index) = true ∧
      isHuge (mem.entries table index) (level + 1) = false ∧
      lock.guards level = none ∧
      lock' =
        { base := levelMask (level + 2) lock.base ||| index <<< levelShift (level + 1)
          level := some level
          refs := update lock.refs level
            (childRef mem (mem.entries table index / pageSize) newTable).1
          guards := update lock.guards level
            (some (mem.entries table index / pageSize)) } ∧
      (childRef mem (mem.entries table index / pageSize) newTable).2.dropOption
        (lock.refs level) = .ok mem' := by
  unfold PageLock.push at pushed
  split at pushed
  · rename_i level table levelEq get
    unfold frameNumber at pushed
    by_cases present : isPresent (mem.entries table index) = true
    · simp only [present, if_true] at pushed
      by_cases huge : isHuge (mem.entries table index) (level + 1) = true
      · rw [if_pos huge] at pushed
        exact absurd (refusePush_same pushed).1 (by simp)
      rw [if_neg huge] at pushed
      by_cases occupied : (lock.guards level).isSome = true
      · rw [if_pos occupied] at pushed
        cases pushed
      rw [if_neg occupied] at pushed
      obtain ⟨dropped, drop, rest⟩ := bind_eq_ok.mp pushed
      cases rest
      exact ⟨level, table, levelEq, get, present, Bool.eq_false_iff.mpr huge,
        Option.not_isSome_iff_eq_none.mp occupied, rfl, drop⟩
    · simp only [present] at pushed
      exact absurd (refusePush_same pushed).1 (by simp)
  · exact absurd (refusePush_same pushed).1 (by simp)

theorem push_same : Same mem mem' := by
  obtain ⟨level, table, -, -, -, -, -, -, drop⟩ := push_eq pushed
  exact (childRef_same mem _ newTable).trans (dropOption_same drop)

end

variable {result : Option (Nat × Nat)}

theorem pop_same (popped : lock.pop mem = .ok (result, lock', mem')) : Same mem mem' := by
  unfold PageLock.pop at popped
  split at popped
  · cases popped
    exact Same.refl _
  · split at popped
    · cases popped
      exact Same.refl _
    · dsimp only at popped
      split at popped
      · cases popped
        exact Same.refl _
      · obtain ⟨dropped, drop, rest⟩ := bind_eq_ok.mp popped
        cases rest
        exact dropOption_same drop

theorem pop_eq {table above : Nat}
    (popped : lock.pop mem = .ok (some (table, above), lock', mem')) :
    ∃ level, lock.level = some level ∧ above = level + 1 ∧
      lock' =
        { base := levelMask (level + 2) lock.base
          level := some (level + 1)
          refs := update lock.refs level none
          guards := update lock.guards level none } := by
  unfold PageLock.pop at popped
  split at popped
  · cases popped
  · rename_i level levelEq
    split at popped
    · cases popped
    · dsimp only at popped
      split at popped
      · rename_i upper _ upperEq
        by_cases top : level = topLevel
        · rw [if_pos top] at upperEq
          cases upperEq
        · simp only [if_neg top] at upperEq popped
          cases upperEq
          cases popped
          exact ⟨level, levelEq, rfl, rfl⟩
      · obtain ⟨dropped, drop, rest⟩ := bind_eq_ok.mp popped
        cases rest

theorem Locked.pop (locked : Locked mem root page level lock) (below : level < topLevel) :
    ∃ table popped, lock.pop mem = .ok (some (table, level + 1), popped, mem) ∧
      Locked mem root page (level + 1) popped := by
  obtain ⟨table, -, guard, -⟩ := locked.toPath.get
  have notTop : level ≠ topLevel := ne_of_lt below
  let popped : PageLock :=
    { base := levelMask (level + 2) lock.base
      level := some (level + 1)
      refs := update lock.refs level none
      guards := update lock.guards level none }
  have ref : lock.refs level = some table := locked.refs ▸ guard
  refine ⟨table, popped, ?_, ⟨⟨rfl, below, ?_, ?_, ?_⟩, ?_⟩⟩
  · simp only [PageLock.pop, locked.level_eq, guard, if_neg notTop, ref, popped]
  · intro j low high
    obtain ⟨found, guardAbove, visited⟩ := locked.guards j (Nat.le_of_succ_le low) high
    have different : j ≠ level := by omega
    exact ⟨found, by simpa [popped, different] using guardAbove, visited⟩
  · intro j apart
    by_cases same : j = level
    · simp [popped, same]
    · simpa [popped, same] using locked.free j (by omega)
  · simp only [popped, locked.refs]
  · show levelMask (level + 2) lock.base = levelMask (level + 2) page
    rw [locked.base_eq, levelMask_levelMask]

theorem Locked.pop_top (locked : Locked mem root page topLevel lock)
    (popped : lock.pop mem = .ok (result, lock', mem')) : result = none := by
  obtain ⟨table, -, guard, -⟩ := locked.toPath.get
  have ref : lock.refs topLevel = some table := locked.refs ▸ guard
  simp only [PageLock.pop, locked.level_eq, guard, if_true, ref] at popped
  obtain ⟨dropped, -, rest⟩ := bind_eq_ok.mp popped
  cases rest
  rfl

theorem Locked.congr_page (locked : Locked mem root page level lock)
    (blocks : ∀ j, level < j → other / levelCount j = page / levelCount j) :
    Locked mem root other level lock := by
  refine ⟨⟨locked.level_eq, locked.level_le, ?_, locked.free, locked.refs⟩, ?_⟩
  · intro j low high
    obtain ⟨table, guard, visited⟩ := locked.guards j low high
    refine ⟨table, guard, visited.congr_key fun i above _ => Fin.ext ?_⟩
    show other / levelCount i % tableSize = page / levelCount i % tableSize
    rw [blocks i (by omega)]
  · rw [locked.base_eq]
    unfold levelMask
    rw [blocks (level + 1) (Nat.lt_succ_self level)]

end Move

/-- Base, level and index of the cursor are those of the locked table. -/
structure Synced (mem : PageMemory) (root : Nat) (cursor : MapCursor) : Prop where
  locked : Locked mem root cursor.page cursor.level cursor.lock
  base_eq : cursor.base = cursor.lock.base
  index_eq : cursor.index = entryIndex cursor.page cursor.level

theorem Locked.same {mem mem' : PageMemory} {root : Nat} {lock : PageLock}
    (locked : Locked mem root page level lock) (same : Same mem mem') :
    Locked mem' root page level lock :=
  ⟨locked.toPath.same same, locked.base_eq⟩

namespace MapCursor

variable {mem mem' : PageMemory} {root pageEnd : Nat} {flags : PageFlags}
  {cursor cursor' : MapCursor}

variable {rounds : Nat} {lock : PageLock}

theorem climb_same {result : Unwinding MapCursor}
    (climbed : climb rounds cursor mem = .ok (result, mem')) : Same mem mem' := by
  induction rounds generalizing cursor mem with
  | zero => cases climbed
  | succ rounds ih =>
    rw [climb] at climbed
    split at climbed
    · obtain ⟨⟨table, lock, popped⟩, pop, rest⟩ := bind_eq_ok.mp climbed
      have samePop := pop_same pop
      cases table with
      | none =>
        cases rest
        exact samePop
      | some table =>
        obtain ⟨dropped, drop, rest⟩ := bind_eq_ok.mp rest
        have sameDrop := samePop.trans (dropRef_same drop)
        cases level : lock.level with
        | none =>
          rw [level] at rest
          cases rest
          exact sameDrop
        | some level' =>
          rw [level] at rest
          exact sameDrop.trans (ih rest)
    · cases climbed
      exact Same.refl _

theorem climb_next {size : Nat} (synced : Synced mem root cursor)
    (next : (cursor.page + size) / levelCount cursor.level =
      cursor.page / levelCount cursor.level + 1)
    (aligned : levelCount cursor.level ∣ cursor.page + size)
    (climbed : climb rounds cursor mem = .ok (.ok cursor', mem')) :
    cursor'.page = cursor.page ∧ cursor'.frame = cursor.frame ∧ cursor.level ≤ cursor'.level ∧
      levelCount cursor'.level ∣ cursor.page + size ∧
      Synced mem' root
        { cursor' with
          index := cursor'.index + 1
          page := cursor'.page + size
          frame := cursor'.frame + size } := by
  induction rounds generalizing cursor mem with
  | zero => cases climbed
  | succ rounds ih =>
    obtain ⟨locked, base, index⟩ := synced
    rw [climb, index] at climbed
    split at climbed
    · rename_i last
      obtain ⟨⟨result, lock, popped⟩, pop, rest⟩ := bind_eq_ok.mp climbed
      by_cases top : cursor.level = topLevel
      · have atTop := locked
        rw [top] at atTop
        obtain rfl := atTop.pop_top pop
        cases rest
      · obtain ⟨table, up, popEq, lockedUp⟩ := locked.pop (lt_of_le_of_ne locked.level_le top)
        rw [popEq] at pop
        cases pop
        obtain ⟨dropped, drop, rest⟩ := bind_eq_ok.mp rest
        simp only [lockedUp.level_eq] at rest
        have syncedUp : Synced dropped root
            { cursor with
              lock := lock
              base := lock.base
              level := cursor.level + 1
              index := entryIndex cursor.page (cursor.level + 1) } :=
          ⟨lockedUp.same (dropRef_same drop), rfl, rfl⟩
        obtain ⟨page, frame, higher, dvd, final⟩ :=
          ih syncedUp (div_succ_of_last next last) (dvd_succ_of_last next last aligned) rest
        exact ⟨page, frame, Nat.le_of_succ_le higher, dvd, final⟩
    · rename_i inside
      cases climbed
      rw [not_le] at inside
      refine ⟨rfl, rfl, le_refl _, aligned, ⟨?_, base, ?_⟩⟩
      · exact locked.congr_page fun j above => div_succ_of_next next inside above
      · show cursor'.index + 1 = (cursor'.page + size) / levelCount cursor'.level % tableSize
        rw [index, next, entryIndex]
        rw [entryIndex] at inside
        have total : tableSize = 512 := rfl
        rw [total] at inside ⊢
        omega

/-- A round of the cursor: into an old table, a leaf, or into a new table. -/
inductive Round (pageEnd : Nat) (flags : PageFlags) (cursor : MapCursor) (mem : PageMemory) :
    MapCursor → PageMemory → Prop
  | old {table : Nat} {lock : PageLock} {mem' : PageMemory} (get : cursor.lock.get = some table)
      (present : isPresent (mem.entries table cursor.index) = true)
      (small : cursor.useHuge pageEnd = false) (above : cursor.level ≠ 0)
      (pushed : cursor.lock.push cursor.index none mem = .ok (some lock, mem')) :
      Round pageEnd flags cursor mem { cursor with lock := lock } mem'
  | leaf {table : Nat} {cloned mem' : PageMemory} {climbed : MapCursor}
      (get : cursor.lock.get = some table)
      (absent : isPresent (mem.entries table cursor.index) = false)
      (clone : cursor.lock.cloneCurrent mem = .ok cloned)
      (leaf : cursor.useHuge pageEnd = true ∨
        cursor.useHuge pageEnd = false ∧ cursor.level = 0)
      (climb : climb maxPageTableLevels cursor (cloned.write table cursor.index
        (newMapped cursor.frame flags cursor.level)) = .ok (.ok climbed, mem')) :
      Round pageEnd flags cursor mem
        { climbed with
          index := climbed.index + 1
          page := climbed.page + levelCount cursor.level
          frame := climbed.frame + levelCount cursor.level } mem'
  | new {table frame level : Nat} {cloned fresh mem' : PageMemory} {lock : PageLock}
      (get : cursor.lock.get = some table)
      (absent : isPresent (mem.entries table cursor.index) = false)
      (clone : cursor.lock.cloneCurrent mem = .ok cloned)
      (small : cursor.useHuge pageEnd = false) (above : cursor.level ≠ 0)
      (allocated : cloned.allocTable = some (frame, fresh))
      (pushed : cursor.lock.push cursor.index (some frame)
        (fresh.write table cursor.index (newMapped frame
          { flags with hugePage := false, cacheType := .writeBack } cursor.level)) =
            .ok (some lock, mem'))
      (level_eq : lock.level = some level) :
      Round pageEnd flags cursor mem
        { cursor with
          lock := lock
          base := lock.base
          level := level
          index := entryIndex cursor.page level } mem'

/-- What a round changes: one that fails, nothing or a leaf before the climb. -/
def Outcome (pageEnd : Nat) (flags : PageFlags) (cursor : MapCursor) (mem mem' : PageMemory) :
    Except (PageTableError × PageLock) MapCursor → Prop
  | .ok cursor' => Round pageEnd flags cursor mem cursor' mem'
  | .error _ => Same mem mem' ∨
    ∃ table cloned, cursor.lock.get = some table ∧ cursor.lock.cloneCurrent mem = .ok cloned ∧
      (cursor.useHuge pageEnd = true ∨ cursor.useHuge pageEnd = false ∧ cursor.level = 0) ∧
      Same (cloned.write table cursor.index (newMapped cursor.frame flags cursor.level)) mem'

/-- The outcomes of a step of the cursor. -/
theorem step_outcome {outcome : Except (PageTableError × PageLock) MapCursor}
    (stepped : cursor.step pageEnd flags mem = .ok (outcome, mem')) :
    max cursor.page cursor.base < min pageEnd (cursor.base + levelCount (cursor.level + 1)) ∧
      Outcome pageEnd flags cursor mem mem' outcome := by
  unfold step at stepped
  split at stepped
  case isFalse => cases stepped
  case isTrue span =>
    refine ⟨span, ?_⟩
    dsimp only at stepped
    cases get : cursor.lock.get with
    | none =>
      rw [get] at stepped
      cases stepped
    | some table =>
      rw [get] at stepped
      dsimp only at stepped
      split at stepped
      case isTrue present =>
        split at stepped
        case isTrue =>
          cases stepped
          exact .inl (Same.refl _)
        case isFalse goesOn =>
          simp only [Bool.or_eq_true, beq_iff_eq, not_or, Bool.not_eq_true] at goesOn
          obtain ⟨⟨pushed, lock⟩, push, rest⟩ := bind_eq_ok.mp stepped
          cases pushed with
          | none => cases rest
          | some pushed =>
            cases rest
            exact Round.old get present goesOn.1.1 goesOn.1.2 push
      case isFalse absent =>
        rw [Bool.not_eq_true] at absent
        obtain ⟨cloned, clone, stepped⟩ := bind_eq_ok.mp stepped
        by_cases huge : cursor.useHuge pageEnd = true
        · rw [if_pos huge] at stepped
          obtain ⟨⟨climbed, memory⟩, climb, rest⟩ := bind_eq_ok.mp stepped
          cases climbed with
          | error =>
            cases rest
            exact .inr ⟨table, cloned, get, clone, .inl huge, climb_same climb⟩
          | ok climbed =>
            cases rest
            exact Round.leaf get absent clone (.inl huge) climb
        rw [if_neg huge] at stepped
        rw [Bool.not_eq_true] at huge
        by_cases last : cursor.level = 0
        · rw [if_pos last, newMapped_small] at stepped
          obtain ⟨⟨climbed, memory⟩, climb, rest⟩ := bind_eq_ok.mp stepped
          rw [← last] at climb
          cases climbed with
          | error =>
            cases rest
            exact .inr ⟨table, cloned, get, clone, .inr ⟨huge, last⟩, climb_same climb⟩
          | ok climbed =>
            cases rest
            exact Round.leaf get absent clone (.inr ⟨huge, last⟩) climb
        rw [if_neg last] at stepped
        unfold enterNew at stepped
        cases allocated : cloned.allocTable with
        | none =>
          rw [allocated] at stepped
          cases stepped
          exact .inl (cloneCurrent_same clone)
        | some new =>
          rw [allocated] at stepped
          obtain ⟨⟨pushed, memory⟩, push, rest⟩ := bind_eq_ok.mp stepped
          cases pushed with
          | none => cases rest
          | some lock =>
            dsimp only at rest
            cases level : lock.level with
            | none =>
              rw [level] at rest
              cases rest
            | some level' =>
              rw [level] at rest
              cases rest
              exact Round.new get absent clone huge last allocated push level

/-- A step that returns a cursor is a round. -/
theorem step_round (stepped : cursor.step pageEnd flags mem = .ok (.ok cursor', mem')) :
    max cursor.page cursor.base < min pageEnd (cursor.base + levelCount (cursor.level + 1)) ∧
      Round pageEnd flags cursor mem cursor' mem' :=
  step_outcome stepped

theorem mapLoop_ok (ok : mapLoop pageEnd flags rounds cursor mem = .ok (.ok (), lock, mem')) :
    pageEnd ≤ cursor.page ∧ lock = cursor.lock ∧ mem' = mem ∨
      ∃ left next memory, rounds = left + 1 ∧ cursor.page < pageEnd ∧
        cursor.step pageEnd flags mem = .ok (.ok next, memory) ∧
        mapLoop pageEnd flags left next memory = .ok (.ok (), lock, mem') := by
  cases rounds with
  | zero => cases ok
  | succ rounds =>
    rw [mapLoop] at ok
    split at ok
    case isFalse done =>
      cases ok
      exact .inl ⟨not_lt.mp done, rfl, rfl⟩
    case isTrue inside =>
      obtain ⟨⟨result, memory⟩, stepped, rest⟩ := bind_eq_ok.mp ok
      cases result with
      | error unwinding => cases rest
      | ok next => exact .inr ⟨rounds, next, memory, rfl, inside, stepped, rest⟩

theorem Round.extends (round : Round pageEnd flags cursor mem cursor' mem') : Extends mem mem' := by
  cases round with
  | old get present small above pushed => exact (push_same pushed).extends
  | leaf get absent clone leaf climb =>
    have same := cloneCurrent_same clone
    rw [← same.entries] at absent
    exact same.extends.trans ((write_extends _ absent).trans (climb_same climb).extends)
  | @new table frame _ cloned fresh _ _ get absent clone small above allocated pushed _ =>
    have same := cloneCurrent_same clone
    have blank : isPresent (fresh.entries table cursor.index) = false := by
      rw [(allocTable_eq allocated).2.1, update_apply]
      split
      · show isPresent newAbsent = false
        decide
      · rw [same.entries]
        exact absent
    exact same.extends.trans ((allocTable_extends allocated).trans
      ((write_extends _ blank).trans (push_same pushed).extends))

theorem mapLoop_extends (ok : mapLoop pageEnd flags rounds cursor mem = .ok (.ok (), lock, mem')) :
    Extends mem mem' := by
  induction rounds generalizing cursor mem with
  | zero => cases ok
  | succ rounds ih =>
    rcases mapLoop_ok ok with ⟨-, -, rfl⟩ | ⟨left, next, memory, count, -, stepped, rest⟩
    · exact (Same.refl _).extends
    · cases count
      exact (step_round stepped).2.extends.trans (ih rest)

end MapCursor

end Horizon.Paging
