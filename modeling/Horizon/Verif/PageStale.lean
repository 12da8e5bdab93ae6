import Horizon.Verif.PageCursor

/-!
# The branch of `map_range` that enters an existing table

When the entry points to a table, `map_range` pushes the lock and continues without reading base,
level and index again, so the cursor works on the child table with the position of the parent. For
blocks of at most `2 ^ MAX_ORDER` pages such a run never returns `Ok`.
-/

namespace Horizon.Paging

open Runs

theorem levelCount_zero : levelCount 0 = 1 := rfl

theorem levelCount_one : levelCount 1 = 512 := rfl

theorem levelCount_two : levelCount 2 = 2 ^ 18 := rfl

theorem levelCount_two_le {level : Nat} (high : 2 ≤ level) : 2 ^ 18 ≤ levelCount level := by
  apply Nat.pow_le_pow_right (by decide)
  show 18 ≤ 9 * level
  omega

theorem levelCount_dvd {level above : Nat} (higher : level ≤ above) :
    levelCount level ∣ levelCount above := by
  apply pow_dvd_pow
  exact Nat.mul_le_mul_left indexBits higher

attribute [local irreducible] levelMask levelCount

namespace MapCursor

variable {mem mem' : PageMemory} {pageEnd first : Nat} {flags : PageFlags} {cursor : MapCursor}
  {lock : PageLock}

/-- A cursor whose lock has gone down to a level without it. -/
structure Stale (pageEnd level : Nat) (cursor : MapCursor) : Prop where
  level_eq : cursor.lock.level = some level
  above : cursor.level ≠ 0
  small : cursor.useHuge pageEnd = false
  index_pos : 0 < cursor.index
  index_lt : cursor.index < tableSize
  base_dvd : levelCount (level + 1) ∣ cursor.lock.base
  page_le : cursor.page ≤ cursor.lock.base
  page_dvd : levelCount 1 ∣ cursor.page
  inside : cursor.page < pageEnd
  near : pageEnd < cursor.page + 2 * levelCount 1

theorem Stale.push {level index : Nat} {newTable : Option Nat} (stale : Stale pageEnd level cursor)
    (index_eq : index = cursor.index)
    (pushed : cursor.lock.push index newTable mem = .ok (some lock, mem')) :
    ∃ below, level = below + 1 ∧ lock.level = some below ∧
      lock.base = cursor.lock.base + cursor.index * levelCount level ∧
      levelCount level ∣ lock.base ∧
      ∀ j, j ≠ below → lock.guards j = cursor.lock.guards j := by
  obtain ⟨below, table, levelEq, -, -, -, -, lockEq, -⟩ := push_eq pushed
  rw [stale.level_eq] at levelEq
  cases levelEq
  have base : lock.base = cursor.lock.base + cursor.index * levelCount (below + 1) := by
    rw [lockEq, index_eq]
    exact levelMask_or stale.base_dvd stale.index_lt
  refine ⟨below, rfl, by rw [lockEq], base, ?_, fun j other => ?_⟩
  · rw [base]
    exact dvd_add (dvd_trans (levelCount_dvd (Nat.le_succ _)) stale.base_dvd) (dvd_mul_left _ _)
  · rw [lockEq]
    exact Function.update_of_ne other _ _

theorem Stale.no_leaf {level : Nat} (stale : Stale pageEnd level cursor) :
    ¬(cursor.useHuge pageEnd = true ∨ cursor.useHuge pageEnd = false ∧ cursor.level = 0) := by
  rintro (huge | ⟨-, last⟩)
  · rw [stale.small] at huge
    cases huge
  · exact stale.above last

variable {result : PageLock}

variable {level rounds table : Nat}

theorem behind_not_ok (last : cursor.lock.level = some 0) (above : cursor.level ≠ 0)
    (small : cursor.useHuge pageEnd = false) (inside : cursor.page < pageEnd) :
    mapLoop pageEnd flags rounds cursor mem ≠ .ok (.ok (), result, mem') := by
  intro ok
  rcases mapLoop_ok ok with ⟨done, -⟩ | ⟨left, next, memory, -, -, stepped, -⟩
  · exact absurd inside (not_lt.mpr done)
  · cases (step_round stepped).2 with
    | old _ _ _ _ pushed =>
      obtain ⟨below, -, levelEq, -⟩ := push_eq pushed
      rw [last] at levelEq
      cases levelEq
    | leaf _ _ _ leaf _ =>
      rcases leaf with huge | ⟨-, zero⟩
      · rw [small] at huge
        cases huge
      · exact above zero
    | new _ _ _ _ _ _ pushed _ =>
      obtain ⟨below, -, levelEq, -⟩ := push_eq pushed
      rw [last] at levelEq
      cases levelEq

theorem Stale.last_not_ok (stale : Stale pageEnd 0 cursor) :
    mapLoop pageEnd flags rounds cursor mem ≠ .ok (.ok (), result, mem') :=
  behind_not_ok stale.level_eq stale.above stale.small stale.inside

/-- The cursor fills a new last-level table that a stale position put one entry too far. -/
structure Displaced (first table : Nat) (cursor : MapCursor) (mem : PageMemory) : Prop where
  level_eq : cursor.level = 0
  lock_level : cursor.lock.level = some 0
  guard : cursor.lock.guards 1 = some table
  base_eq : cursor.lock.base = first + levelCount 1
  present : isPresent (mem.entries table 1) = true
  page_eq : cursor.page = first + cursor.index
  index_lt : cursor.index < tableSize

/-- The cursor stands at the second entry of the table above, which now holds the new table. -/
structure Met (first table : Nat) (cursor : MapCursor) (mem : PageMemory) : Prop where
  level_eq : cursor.level = 1
  lock_level : cursor.lock.level = some 1
  get : cursor.lock.get = some table
  base_eq : cursor.lock.base = first
  index_eq : cursor.index = 1
  present : isPresent (mem.entries table 1) = true
  page_eq : cursor.page = first + levelCount 1

theorem Met.not_ok (met : Met first table cursor mem) (aligned : levelCount 2 ∣ first)
    (far : first + levelCount 1 < pageEnd) (near : pageEnd < first + 2 * levelCount 1) :
    mapLoop pageEnd flags rounds cursor mem ≠ .ok (.ok (), result, mem') := by
  intro ok
  have present := met.present
  rw [← met.index_eq] at present
  rcases mapLoop_ok ok with ⟨done, -⟩ | ⟨left, next, memory, -, -, stepped, rest⟩
  · rw [met.page_eq] at done
    omega
  cases (step_round stepped).2 with
  | leaf got absent _ _ _ =>
    rw [met.get] at got
    cases got
    rw [present] at absent
    cases absent
  | new got absent _ _ _ _ _ _ =>
    rw [met.get] at got
    cases got
    rw [present] at absent
    cases absent
  | @old _ lower _ _ _ small above pushed =>
    obtain ⟨below, _, levelEq, -, -, -, -, lowerEq, -⟩ := push_eq pushed
    rw [met.lock_level] at levelEq
    cases levelEq
    have pageDvd : levelCount 1 ∣ cursor.page := by
      rw [met.page_eq]
      exact dvd_add (dvd_trans (levelCount_dvd (by decide)) aligned) (dvd_refl _)
    have base : lower.base = cursor.page := by
      have pushBase := levelMask_or aligned (show 1 < tableSize by decide)
      rw [one_mul, ← met.page_eq] at pushBase
      rw [lowerEq, met.base_eq, met.index_eq]
      exact pushBase
    have index : 0 < cursor.index ∧ cursor.index < tableSize := by
      rw [met.index_eq]
      decide
    have left : cursor.page < pageEnd ∧ pageEnd < cursor.page + 2 * levelCount 1 := by
      rw [met.page_eq]
      omega
    have stale : Stale pageEnd 0 { cursor with lock := lower } :=
      { level_eq := by rw [lowerEq]
        above := above
        small := small
        index_pos := index.1
        index_lt := index.2
        base_dvd := base ▸ pageDvd
        page_le := le_of_eq base.symm
        page_dvd := pageDvd
        inside := left.1
        near := left.2 }
    exact stale.last_not_ok rest

theorem Displaced.climb {climbed : MapCursor} (displaced : Displaced first table cursor mem)
    (aligned : levelCount 2 ∣ first)
    (climb : climb (rounds + 2) cursor mem = .ok (.ok climbed, mem')) : let next : MapCursor :=
      { climbed with
        index := climbed.index + 1
        page := climbed.page + 1
        frame := climbed.frame + 1 }
    Displaced first table next mem' ∨ Met first table next mem' := by
  intro next
  have one : levelCount 1 = 512 := levelCount_one
  have size : tableSize = 512 := rfl
  have page := displaced.page_eq
  have present : isPresent (mem'.entries table 1) = true := by
    rw [(climb_same climb).entries]
    exact displaced.present
  rw [MapCursor.climb] at climb
  split at climb
  · rename_i full
    obtain ⟨⟨popped, lock, dropped⟩, pop, climb⟩ := bind_eq_ok.mp climb
    cases popped with
    | none => cases climb
    | some pair =>
      obtain ⟨popTable, above⟩ := pair
      obtain ⟨level, levelEq, rfl, lockEq⟩ := pop_eq pop
      rw [displaced.lock_level] at levelEq
      cases levelEq
      obtain ⟨released, drop, climb⟩ := bind_eq_ok.mp climb
      have lockLevel : lock.level = some 1 := by rw [lockEq]
      have firstEntry : entryIndex cursor.page 1 = 0 := by
        have inTable := displaced.index_lt
        obtain ⟨block, rfl⟩ := aligned
        rw [entryIndex, page, one, size, levelCount_two]
        omega
      have base : lock.base = first := by
        have whole : levelMask 2 cursor.lock.base = levelMask 2 first := by
          unfold levelMask
          rw [displaced.base_eq, one, levelCount_two]
          rw [levelCount_two] at aligned
          omega
        rw [lockEq]
        exact whole.trans (levelMask_of_dvd aligned)
      have get : lock.get = some table := by
        rw [PageLock.get, lockLevel, lockEq]
        simpa using displaced.guard
      have room : ¬tableSize ≤ 0 + 1 := by decide
      simp only [lockLevel, firstEntry] at climb
      rw [MapCursor.climb, if_neg room] at climb
      cases climb
      refine .inr ⟨rfl, lockLevel, get, base, rfl, present, ?_⟩
      show cursor.page + 1 = first + levelCount 1
      have inTable := displaced.index_lt
      omega
  · rename_i room
    cases climb
    refine .inl ⟨displaced.level_eq, displaced.lock_level, displaced.guard, displaced.base_eq,
      present, ?_, not_le.mp room⟩
    show cursor.page + 1 = first + (cursor.index + 1)
    omega

theorem Displaced.not_ok (displaced : Displaced first table cursor mem)
    (aligned : levelCount 2 ∣ first) (far : first + levelCount 1 < pageEnd)
    (near : pageEnd < first + 2 * levelCount 1) :
    mapLoop pageEnd flags rounds cursor mem ≠ .ok (.ok (), result, mem') := by
  induction rounds generalizing cursor mem with
  | zero => intro ok; cases ok
  | succ rounds ih =>
    intro ok
    rcases mapLoop_ok ok with ⟨done, -⟩ | ⟨left, next, memory, count, -, stepped, rest⟩
    · have inTable := displaced.index_lt
      have one : levelCount 1 = tableSize := levelCount_one
      rw [displaced.page_eq] at done
      omega
    cases count
    cases (step_round stepped).2 with
    | old _ _ _ above _ | new _ _ _ _ above _ _ _ => exact above displaced.level_eq
    | @leaf current cloned _ climbed get absent clone leaf climb =>
      have same := cloneCurrent_same clone
      have present := displaced.present
      rw [← same.entries] at absent present
      have stepOne : levelCount cursor.level = 1 := by
        rw [displaced.level_eq, levelCount_zero]
      rw [stepOne] at rest
      have written : Displaced first table cursor (cloned.write current cursor.index
          (newMapped cursor.frame flags cursor.level)) :=
        { displaced with present := by rwa [write_present _ absent present] }
      rcases written.climb aligned climb with again | met
      · exact ih again rest
      · exact met.not_ok aligned far near rest

theorem Stale.new_base (stale : Stale pageEnd (level + 1) cursor)
    (inside : cursor.lock.base + cursor.index * levelCount (level + 1) < pageEnd) :
    level = 0 ∧ cursor.index = 1 ∧ cursor.lock.base = cursor.page := by
  have one : levelCount 1 = 512 := levelCount_one
  have near := stale.near
  have after := stale.page_le
  have positive := stale.index_pos
  have last : level = 0 := by
    by_contra high
    have large := levelCount_two_le (show 2 ≤ level + 1 by omega)
    have : levelCount (level + 1) ≤ cursor.index * levelCount (level + 1) :=
      Nat.le_mul_of_pos_left _ positive
    omega
  subst last
  rw [zero_add, one] at inside
  have pageDvd := stale.page_dvd
  have baseDvd := dvd_trans (levelCount_dvd (show 1 ≤ 0 + 1 + 1 by decide)) stale.base_dvd
  rw [one] at pageDvd baseDvd near
  omega

theorem Stale.not_ok (stale : Stale pageEnd level cursor) :
    mapLoop pageEnd flags rounds cursor mem ≠ .ok (.ok (), result, mem') := by
  induction level generalizing cursor mem rounds with
  | zero => exact stale.last_not_ok
  | succ level ih =>
    intro ok
    rcases mapLoop_ok ok with ⟨done, -⟩ | ⟨left, next, memory, -, -, stepped, rest⟩
    · exact absurd stale.inside (not_lt.mpr done)
    cases (step_round stepped).2 with
    | leaf _ _ _ leaf _ => exact stale.no_leaf leaf
    | @old _ lower _ _ _ _ _ pushed =>
      obtain ⟨below, levelEq, lowerLevel, base, baseDvd, -⟩ := stale.push rfl pushed
      cases levelEq
      have again : Stale pageEnd level { cursor with lock := lower } := { stale with
          level_eq := lowerLevel
          base_dvd := baseDvd
          page_le := by
            rw [base]
            exact le_trans stale.page_le (Nat.le_add_right _ _) }
      exact ih again rest
    | @new table frame newLevel cloned fresh _ lower get _ _ _ _ _ pushed newLevelEq =>
      obtain ⟨below, levelEq, lowerLevel, base, -, guards⟩ := stale.push rfl pushed
      cases levelEq
      rw [lowerLevel] at newLevelEq
      cases newLevelEq
      rcases mapLoop_ok rest with ⟨done, -⟩ | ⟨_, _, _, -, -, steppedNext, -⟩
      · exact absurd stale.inside (not_lt.mpr done)
      have span := (step_round steppedNext).1
      dsimp only at span
      have baseInside : lower.base < pageEnd := by omega
      obtain ⟨rfl, index, start⟩ := stale.new_base (base ▸ baseInside)
      rw [index, one_mul, start] at base
      -- The new table is the second entry of the table at the page.
      have guard : cursor.lock.guards 1 = some table := by
        rw [PageLock.get, stale.level_eq] at get
        exact get
      have present : isPresent (memory.entries table 1) = true := by
        obtain ⟨_, again, -, gotAgain, present, -⟩ := push_eq pushed
        rw [get] at gotAgain
        cases gotAgain
        rw [(push_same pushed).entries, ← index]
        exact present
      have firstEntry : entryIndex cursor.page 0 = 0 := by
        have pageDvd := stale.page_dvd
        have size : tableSize = levelCount 1 := levelCount_one.symm
        rw [entryIndex, levelCount_zero, Nat.div_one, size]
        exact Nat.mod_eq_zero_of_dvd pageDvd
      have displaced : Displaced cursor.page table
          { cursor with
            lock := lower
            base := lower.base
            level := 0
            index := entryIndex cursor.page 0 } memory :=
        { level_eq := rfl
          lock_level := lowerLevel
          guard := (guards 1 one_ne_zero).trans guard
          base_eq := base
          present := present
          page_eq := by rw [firstEntry]; rfl
          index_lt := entryIndex_lt _ _ }
      have aligned : levelCount 2 ∣ cursor.page := start ▸ stale.base_dvd
      exact displaced.not_ok aligned (base ▸ baseInside) stale.near rest

end MapCursor

end Horizon.Paging
