import Horizon.Verif.PageMap

/-!
# Unmapping a block

`unmap` clears entries of the one table that `lock_page` stopped at: `trim_table` sees the reference
of the lock itself and never leaves it. For each step of the loop the entry at the index of the
current page is cleared. That is the block exactly when the first leaf starts at the block, is no
larger than it, and the block ends in the same table.
-/

namespace Horizon.Paging

open Radix Runs Nat

/-- The page of the table of `start` at a level with the index of another page. -/
def tablePage (start level page : Nat) : Nat :=
  levelMask (level + 1) start + entryIndex page level * levelCount level

section TablePage

variable (start level page : Nat)

theorem tablePage_block : tablePage start level page / levelCount level =
      start / levelCount (level + 1) * tableSize + entryIndex page level := by
  have whole : tablePage start level page =
      (start / levelCount (level + 1) * tableSize + entryIndex page level) * levelCount level := by
    rw [tablePage, levelMask, add_mul, mul_assoc, mul_comm tableSize, ← levelCount_succ]
  rw [whole, Nat.mul_div_cancel _ (levelCount_pos level)]

theorem entryIndex_tablePage :
    entryIndex (tablePage start level page) level = entryIndex page level := by
  rw [entryIndex, tablePage_block, mul_comm, mul_add_mod,
    mod_eq_of_lt (entryIndex_lt page level)]

theorem tablePage_div {j : Nat} (above : level < j) :
    tablePage start level page / levelCount j = start / levelCount j := by
  induction above with
  | refl =>
    rw [div_levelCount_succ, tablePage_block, mul_comm, mul_add_div (by decide),
      div_eq_of_lt (entryIndex_lt page level), add_zero]
  | step _ ih => rw [div_levelCount_succ, ih, ← div_levelCount_succ]

end TablePage

section Loop

attribute [local irreducible] levelMask levelCount

variable {mem mem' : PageMemory} {root start level page stop : Nat} {lock lock' : PageLock}

theorem tableAt_tablePage {table : Nat} (visited : mem.TableAt root start level table)
    (page : Nat) : mem.TableAt root (tablePage start level page) level table := by
  apply visited.congr_key
  intro j above _
  apply Fin.ext
  show tablePage start level page / levelCount j % tableSize = start / levelCount j % tableSize
  rw [tablePage_div start level page above]

theorem trimTable_some {rounds : Nat} (path : Path mem root start level lock)
    (live : mem.refcount root ≠ 0)
    (trimmed : trimTable page rounds lock mem = .ok (some (), lock', mem')) :
    lock' = lock ∧ Same mem mem' := by
  obtain ⟨table, -, guard, visited⟩ := path.get
  have referenced := tableAt_live live visited
  have current : lock.level.bind lock.refs = some table := by
    rw [path.level_eq, path.refs]
    exact guard
  cases rounds with
  | zero => cases trimmed
  | succ rounds =>
    have same := release_same mem table
    rw [trimTable, PageLock.dropCurrent, current] at trimmed
    dsimp only at trimmed
    unfold PageMemory.release at trimmed same
    split at trimmed
    · rename_i failed
      cases trimmed
    · rename_i count released eq
      split at eq
      · rename_i zero
        exact absurd zero referenced
      · cases eq
      · cases eq
        cases trimmed
        rename_i count positive
        rw [positive] at same
        exact ⟨rfl, same⟩

/-- A page whose entry the loop clears: it is under the entry of the locked table at the index of
some page that the loop steps on. -/
def Cleared (start level page stop other : Nat) : Prop :=
  ∃ k, page + k * levelCount level < stop ∧
    Under (tablePage start level (page + k * levelCount level)) level other

theorem unmapLoop_walks {rounds : Nat} {head : Option Nat} {frame : Nat}
    (wf : WellFormed mem root) (path : Path mem root start level lock)
    (run : unmapLoop stop rounds page head lock mem = .ok (.ok frame, lock', mem')) (other : Nat) :
    WellFormed mem' root ∧
      (Cleared start level page stop other → mem'.lookup root other = none) ∧
      (¬Cleared start level page stop other → mem'.lookup root other = mem.lookup root other) := by
  induction rounds generalizing page head mem with
  | zero => cases run
  | succ rounds ih =>
    unfold unmapLoop at run
    split at run
    case isFalse done =>
      have mem_eq : mem' = mem := by
        cases head <;> cases run
        rfl
      refine ⟨mem_eq ▸ wf, fun ⟨k, before, _⟩ => ?_, fun _ => by rw [mem_eq]⟩
      omega
    case isTrue inside =>
      obtain ⟨table, get, guard, visited⟩ := path.get
      have visitedPage := tableAt_tablePage visited page
      simp only [unmapEntry, path.level_eq, get] at run
      by_cases present : isPresent (mem.entries table (entryIndex page level)) = true
      · rw [frameNumber, if_pos present] at run
        obtain ⟨⟨trimmed, lockNext, memNext⟩, trim, rest⟩ := bind_eq_ok.mp run
        cases trimmed with
        | none => cases rest
        | some trimmed =>
          rw [← entryIndex_tablePage start level page] at trim
          have wfWritten : WellFormed (mem.write table
              (entryIndex (tablePage start level page) level) newAbsent) root :=
            wf.write visitedPage fun impossible => absurd impossible (by decide)
          have pathWritten := path.write wf visitedPage newAbsent
          obtain ⟨rfl, same⟩ := trimTable_some pathWritten wfWritten.live trim
          obtain ⟨wfFinal, cleared, kept⟩ := ih (wfWritten.same same) (pathWritten.same same) rest
          have shift : ∀ k, page + levelCount level + k * levelCount level =
              page + (k + 1) * levelCount level := fun k => by ring
          have first : Under (tablePage start level page) level other →
              memNext.lookup root other = none := fun under => by
            rw [same.lookup]
            exact lookup_write_empty wf visitedPage under (view_absent (by decide))
          have away : ¬Under (tablePage start level page) level other →
              memNext.lookup root other = mem.lookup root other := fun apart => by
            rw [same.lookup, lookup_write_away wf visitedPage apart]
          refine ⟨wfFinal, ?_, ?_⟩
          · -- The entry is cleared in this round or in a later one.
            rintro ⟨k, before, under⟩
            by_cases later : Cleared start level (page + levelCount level) stop other
            · exact cleared later
            · rw [kept later]
              cases k with
              | zero =>
                rw [zero_mul, add_zero] at under
                exact first under
              | succ k =>
                refine absurd ⟨k, ?_, ?_⟩ later
                · rw [shift]
                  exact before
                · rw [shift]
                  exact under
          · intro never
            have notLater : ¬Cleared start level (page + levelCount level) stop other := by
              rintro ⟨k, before, under⟩
              rw [shift] at before under
              exact never ⟨k + 1, before, under⟩
            have notNow : ¬Under (tablePage start level page) level other := by
              intro under
              apply never
              refine ⟨0, ?_, ?_⟩
              · rw [zero_mul]
                exact inside
              · rw [zero_mul, add_zero]
                exact under
            rw [kept notLater, away notNow]
      · rw [frameNumber, if_neg present] at run
        cases run

end Loop

section Blocks

attribute [local irreducible] levelMask levelCount

variable {start level other count : Nat}

theorem Canonical.region {page : Nat} (canonical : Canonical page)
    (same : other / 2 ^ 17 = page / 2 ^ 17) : Canonical other := by
  unfold Canonical at canonical ⊢
  omega

theorem under_tablePage_iff {page : Nat}
    (sameTable : page / levelCount (level + 1) = start / levelCount (level + 1)) :
    Under (tablePage start level page) level other ↔ Under page level other := by
  have keys : ∀ j, level ≤ j → pageKey (tablePage start level page) j = pageKey page j := by
    intro j low
    apply Fin.ext
    rcases Nat.eq_or_lt_of_le low with rfl | above
    · exact entryIndex_tablePage start level page
    · show tablePage start level page / levelCount j % tableSize = page / levelCount j % tableSize
      have blocks : page / levelCount j = start / levelCount j := by
        induction above with
        | refl => exact sameTable
        | step above ih => rw [div_levelCount_succ, ih (le_of_lt above), ← div_levelCount_succ]
      rw [tablePage_div start level page above, blocks]
  constructor
  · intro under j low high
    rw [under j low high, keys j low]
  · intro under j low high
    rw [under j low high, keys j low]

theorem exists_outside (positive : 0 < count) (small : count ≤ 2 * levelCount 1)
    (bad : ¬(levelCount level ∣ start ∧ levelCount level ≤ count)) :
    ∃ other, other / levelCount level = start / levelCount level ∧
      other / 2 ^ 17 = start / 2 ^ 17 ∧ ¬(start ≤ other ∧ other < start + count) := by
  have one := levelCount_one
  match level with
  | 0 =>
    rw [levelCount_zero] at bad
    exact absurd ⟨one_dvd _, positive⟩ bad
  | 1 =>
    rw [one] at bad ⊢
    by_cases aligned : 512 ∣ start
    · exact ⟨start + count, by omega, by omega, by omega⟩
    · exact ⟨start - 1, by omega, by omega, by omega⟩
  | level + 2 =>
    have regions : 2 ^ 17 ∣ levelCount (level + 2) :=
      dvd_trans (levelCount_two ▸ pow_dvd_pow 2 (by decide))
        (levelCount_dvd (Nat.le_add_left 2 level))
    obtain ⟨parts, whole⟩ := regions
    have block : ∀ page, page / levelCount (level + 2) = page / 2 ^ 17 / parts := fun page => by
      rw [whole, Nat.div_div_eq_div_mul]
    by_cases aligned : 2 ^ 17 ∣ start
    · refine ⟨start + count, ?_, by omega, by omega⟩
      rw [block, block, show (start + count) / 2 ^ 17 = start / 2 ^ 17 by omega]
    · refine ⟨start - 1, ?_, by omega, by omega⟩
      rw [block, block, show (start - 1) / 2 ^ 17 = start / 2 ^ 17 by omega]

theorem cleared_iff (canonical : ∀ page, start ≤ page → page < start + count → Canonical page)
    (there : Canonical other) (bound : level ≤ topLevel) (aligned : levelCount level ∣ start)
    (whole : levelCount level ∣ count)
    (inTable : entryIndex start level + count / levelCount level ≤ tableSize) :
    Cleared start level start (start + count) other ↔ start ≤ other ∧ other < start + count := by
  have positive := levelCount_pos level
  have size : tableSize = 512 := rfl
  have countEq : count = levelCount level * (count / levelCount level) :=
    (Nat.mul_div_cancel' whole).symm
  -- A step of the loop stays in the table and clears the entry of its page.
  have step : ∀ k, k < count / levelCount level →
      (Under (tablePage start level (start + k * levelCount level)) level other ↔
        start + k * levelCount level ≤ other ∧
          other < start + k * levelCount level + levelCount level) := by
    intro k small
    have inside : k * levelCount level < count := by
      rw [countEq, mul_comm]
      exact Nat.mul_lt_mul_of_pos_left small positive
    have sameTable : (start + k * levelCount level) / levelCount (level + 1) =
        start / levelCount (level + 1) := by
      rw [entryIndex, size] at inTable
      rw [div_levelCount_succ, div_levelCount_succ, add_mul_div_right _ _ positive, size]
      omega
    have dvd : levelCount level ∣ start + k * levelCount level :=
      dvd_add aligned (dvd_mul_left _ _)
    have here := canonical (start + k * levelCount level) (by omega) (by omega)
    rw [under_tablePage_iff sameTable, under_iff here there bound, div_eq_iff_of_dvd positive dvd]
  constructor
  · rintro ⟨k, before, under⟩
    have small : k < count / levelCount level := by
      rw [Nat.lt_div_iff_mul_lt' whole]
      rw [mul_comm]
      omega
    rw [step k small] at under
    have ends : (k + 1) * levelCount level ≤ count := by
      rw [countEq, mul_comm]
      exact Nat.mul_le_mul_left _ small
    rw [add_mul, one_mul] at ends
    omega
  · rintro ⟨low, high⟩
    have small : (other - start) / levelCount level < count / levelCount level :=
      div_lt_div_of_lt_of_dvd whole (by omega)
    have split := div_add_mod (other - start) (levelCount level)
    have rest := mod_lt (other - start) positive
    rw [mul_comm] at split
    refine ⟨(other - start) / levelCount level, by omega, ?_⟩
    rw [step _ small]
    omega

end Blocks

/-- What `unmap` of a block is to achieve: no address of the block translates any more, and every
other address translates as before. -/
structure UnmappedBlock (before after : PageMemory) (root start count : Nat) : Prop where
  inside : ∀ i < count, ∀ offset < pageSize,
    translate after root ((start + i) * pageSize + offset) = .ok (none, after)
  outside : SameOutside before after root start count

section Call

attribute [local irreducible] levelMask levelCount

variable {before after : PageMemory} {root start order level word head : Nat}

theorem unmap_loop (live : before.refcount root ≠ 0)
    (ok : unmap before root start order = .ok (.ok head, after)) :
    ∃ lock level table mem result final, Same before mem ∧ Locked before root start level lock ∧
      lock.guards level = some table ∧ Stops before start level table ∧
      unmapLoop (start + 2 ^ order) (2 ^ order + 1) start none lock mem =
        .ok (.ok head, result, final) ∧ Same final after := by
  obtain ⟨⟨got, mem⟩, locking, rest⟩ := bind_eq_ok.mp ok
  rcases lockPage_spec before root start live with
    ⟨lock, level, table, spec, locked, guard, stops⟩ | ⟨spec, -⟩
  · rw [spec] at locking
    cases locking
    obtain ⟨⟨outcome, result, final⟩, run, rest⟩ := bind_eq_ok.mp rest
    obtain ⟨dropped, drop, rest⟩ := bind_eq_ok.mp rest
    cases rest
    exact ⟨lock, level, table, _, result, final, hold_same (locked.toPath.held_live live _), locked,
      guard, stops, run, drop_same drop⟩
  · rw [spec] at locking
    cases locking
    cases rest

theorem unmap_wellFormed (wf : WellFormed before root)
    (ok : unmap before root start order = .ok (.ok head, after)) : WellFormed after root := by
  obtain ⟨lock, level, table, mem, result, final, same, locked, -, -, run, sameFinal⟩ :=
    unmap_loop wf.live ok
  exact (unmapLoop_walks (wf.same same) (locked.toPath.same same) run 0).1.same sameFinal

theorem Stops.lookup {mem : PageMemory} {page table other : Nat}
    (stops : Stops mem page level table)
    (wf : WellFormed mem root) (visited : mem.TableAt root page level table)
    (mapped : mem.lookup root page ≠ none) (under : Under page level other) :
    mem.lookup root other = some (level, mem.entries table (entryIndex page level)) := by
  have self : Under page level page := fun _ _ _ => rfl
  cases present : isPresent (mem.entries table (entryIndex page level)) with
  | false => exact absurd (lookup_absent wf visited self present) mapped
  | true =>
    have leaf : level = 0 ∨ isHuge (mem.entries table (entryIndex page level)) level = true := by
      rcases stops with zero | absent | huge
      · exact .inl zero
      · exact absurd (present.symm.trans absent) (by decide)
      · exact .inr huge
    exact lookup_leaf wf visited under (view_leaf present leaf)

theorem unmap_walks (wf : WellFormed before root)
    (leaf : before.lookup root start = some (level, word))
    (ok : unmap before root start order = .ok (.ok head, after)) : level ≤ topLevel ∧
      (∀ other, Under start level other → before.lookup root other = some (level, word)) ∧
      ∀ other,
        (Cleared start level start (start + 2 ^ order) other → after.lookup root other = none) ∧
        (¬Cleared start level start (start + 2 ^ order) other →
          after.lookup root other = before.lookup root other) := by
  obtain ⟨lock, lockLevel, table, mem, result, final, same, locked, guard, stops, run, sameFinal⟩ :=
    unmap_loop wf.live ok
  obtain ⟨found, -, guard', visited⟩ := locked.toPath.get
  rw [guard] at guard'
  cases guard'
  have mapped : before.lookup root start ≠ none := by simp [leaf]
  have shared := @Stops.lookup root lockLevel before start table start stops wf visited mapped
    fun _ _ _ => rfl
  rw [leaf] at shared
  cases shared
  refine ⟨locked.level_le, fun other under => stops.lookup wf visited mapped under, fun other => ?_⟩
  obtain ⟨-, cleared, kept⟩ := unmapLoop_walks (wf.same same) (locked.toPath.same same) run other
  constructor
  · intro gone
    rw [sameFinal.lookup, cleared gone]
  · intro stays
    rw [sameFinal.lookup, kept stays, same.lookup]

theorem exists_uncleared (canonical : ∀ page, start ≤ page → page < start + 2 ^ order →
      Canonical page) (below : level < topLevel) (aligned : levelCount level ∣ start)
    (whole : levelCount level ∣ 2 ^ order)
    (past : ¬entryIndex start level + 2 ^ order / levelCount level ≤ tableSize) :
    ∃ other, start ≤ other ∧ other < start + 2 ^ order ∧
      ¬Cleared start level start (start + 2 ^ order) other := by
  have positive := levelCount_pos level
  have first := levelMask_succ_add start level
  rw [levelMask_of_dvd aligned] at first
  have index := entryIndex_lt start level
  have tableCount := levelCount_succ level
  have inBlock : levelMask (level + 1) start + levelCount (level + 1) < start + 2 ^ order := by
    have left : (tableSize - entryIndex start level) * levelCount level < 2 ^ order := by
      rw [← Nat.div_mul_cancel whole]
      exact Nat.mul_lt_mul_of_pos_right (by omega) positive
    rw [Nat.sub_mul] at left
    rw [tableCount, mul_comm]
    omega
  have after := lt_levelMask_add (level + 1) start
  refine ⟨levelMask (level + 1) start + levelCount (level + 1), le_of_lt after, inBlock, ?_⟩
  rintro ⟨k, -, under⟩
  have above : Under start (level + 1) (levelMask (level + 1) start + levelCount (level + 1)) := by
    intro j low high
    rw [under j (le_of_succ_le low) high]
    apply Fin.ext
    show tablePage start level _ / levelCount j % tableSize = start / levelCount j % tableSize
    rw [tablePage_div start level _ low]
  rw [under_iff (canonical start (le_refl _) (by omega)) (canonical _ (le_of_lt after) inBlock)
    below, add_div_right _ (levelCount_pos _)] at above
  have block : levelMask (level + 1) start / levelCount (level + 1) =
      start / levelCount (level + 1) := by
    unfold levelMask
    exact Nat.mul_div_cancel _ (levelCount_pos _)
  rw [block] at above
  exact absurd above (Nat.succ_ne_self _)

/-- `unmap` of a mapped block of canonical pages: when it returns `Ok`, exactly the pages of the
block stop translating if and only if the block lies outside the fixed mappings, starts with the
leaf of its first page, is at least as large as that leaf, and ends in the table of that leaf. -/
theorem unmap_unmappedBlock_iff (wf : WellFormed before root) (order_le : order ≤ Memory.maxOrder)
    (canonical : ∀ i < 2 ^ order, Canonical (start + i)) (mapped : ∀ i < 2 ^ order, ∃ phys,
      translate before root ((start + i) * pageSize) = .ok (some phys, before))
    (leaf : before.lookup root start = some (level, word))
    (ok : unmap before root start order = .ok (.ok head, after)) :
    UnmappedBlock before after root start (2 ^ order) ↔
      (∀ i < 2 ^ order, fixedMapping ((start + i) * pageSize) = none) ∧
        levelCount level ∣ start ∧ levelCount level ≤ 2 ^ order ∧
        entryIndex start level + 2 ^ order / levelCount level ≤ tableSize := by
  have zero : 0 < pageSize := by decide
  have nonempty : 0 < 2 ^ order := Nat.two_pow_pos order
  by_cases unfixed : ∀ i < 2 ^ order, fixedMapping ((start + i) * pageSize) = none
  case neg =>
    -- A fixed mapping does not go away.
    refine iff_of_false (fun unmapped => ?_) fun conditions => unfixed conditions.1
    apply unfixed
    intro i small
    have answer := unmapped.inside i small 0 zero
    rw [add_zero, translate_eq] at answer
    injection answer with answer
    injection answer with answer
    exact (Option.or_eq_none_iff.mp answer).1
  have lookups : ∀ i < 2 ^ order, before.lookup root (start + i) ≠ none := by
    intro i small none
    obtain ⟨phys, answer⟩ := mapped i small
    have walk := translate_page before root (unfixed i small) zero
    rw [add_zero, answer, none] at walk
    cases walk
  have near : 2 ^ order ≤ 2 * levelCount 1 := by
    have : 2 ^ order ≤ 2 ^ Memory.maxOrder := Nat.pow_le_pow_right (by decide) order_le
    rw [levelCount_one]
    exact this
  have pages : ∀ page, start ≤ page → page < start + 2 ^ order → Canonical page ∧
      fixedMapping (page * pageSize) = none ∧ before.lookup root page ≠ none := by
    intro page low high
    have small : page - start < 2 ^ order := by omega
    have all := And.intro (canonical _ small) (And.intro (unfixed _ small) (lookups _ small))
    rwa [Nat.add_sub_cancel' low] at all
  obtain ⟨bound, shared, effect⟩ := unmap_walks wf leaf ok
  by_cases fits : levelCount level ∣ start ∧ levelCount level ≤ 2 ^ order
  case neg =>
    -- The leaf also covers a page outside the block, which goes away.
    refine iff_of_false (fun unmapped => ?_) fun conditions =>
      fits ⟨conditions.2.1, conditions.2.2.1⟩
    obtain ⟨other, block, region, outside⟩ := exists_outside nonempty near fits
    obtain ⟨here, unfixedHere, -⟩ := pages start (le_refl _) (by omega)
    have there := here.region region
    have under : Under start level other := (under_iff here there bound).mpr block
    have gone : after.lookup root other = none := by
      apply (effect other).1
      refine ⟨0, by omega, ?_⟩
      rw [zero_mul, add_zero, under_tablePage_iff rfl]
      exact under
    have unfixedThere := fixedMapping_page zero region unfixedHere
    rw [add_zero] at unfixedThere
    obtain ⟨phys, old, new⟩ := unmapped.outside (other * pageSize)
      (by rwa [Nat.mul_div_cancel _ zero]) (by rwa [Nat.mul_div_cancel _ zero])
    have oldWalk := translate_page before root unfixedThere zero
    have newWalk := translate_page after root unfixedThere zero
    rw [add_zero] at oldWalk newWalk
    rw [old, shared other under] at oldWalk
    rw [new, gone] at newWalk
    cases newWalk
    cases oldWalk
  have whole : levelCount level ∣ 2 ^ order := by
    have large := fits.2
    unfold levelCount at large ⊢
    exact pow_dvd_pow 2 ((Nat.pow_le_pow_iff_right (by decide)).mp large)
  by_cases inTable : entryIndex start level + 2 ^ order / levelCount level ≤ tableSize
  case neg =>
    -- The block goes on in another table, which the loop never reaches.
    refine iff_of_false (fun unmapped => ?_) fun conditions => inTable conditions.2.2.2
    have below : level < topLevel := by
      by_contra top
      have := levelCount_two_le (show 2 ≤ level by
        have : topLevel = 3 := rfl
        omega)
      have := levelCount_one
      omega
    obtain ⟨other, low, high, kept⟩ :=
      exists_uncleared (fun page low high => (pages page low high).1)
      below fits.1 whole inTable
    obtain ⟨-, unfixedThere, stillMapped⟩ := pages other low high
    have answer := unmapped.inside (other - start) (by omega) 0 zero
    rw [Nat.add_sub_cancel' low, translate_page after root unfixedThere zero,
      (effect other).2 kept] at answer
    injection answer with answer
    injection answer with answer
    exact stillMapped (Option.map_eq_none_iff.mp answer)
  have exact : ∀ other, Canonical other →
      (Cleared start level start (start + 2 ^ order) other ↔
        start ≤ other ∧ other < start + 2 ^ order) := fun other there =>
    cleared_iff (fun page low high => (pages page low high).1) there bound fits.1 whole inTable
  refine iff_of_true ⟨?_, ?_⟩ ⟨unfixed, fits.1, fits.2, inTable⟩
  · intro i small offset inPage
    have gone : after.lookup root (start + i) = none := by
      apply (effect _).1
      exact (exact _ (canonical i small)).mpr ⟨by omega, by omega⟩
    rw [translate_page after root (unfixed i small) inPage, gone, Option.map_none]
  · intro vaddr there outside
    refine ⟨_, translate_eq before root vaddr, ?_⟩
    rw [translate_eq, (effect _).2 (mt (exact _ there).mp outside)]

end Call

/-- Two pages are mapped in one last-level table and the first is unmapped. -/
theorem unmap_unmappedBlock_page :
    ∃ first second after,
      map (emptySpace 1 [2, 3, 4]) 1 0x1000 0x8000 0 .new = .ok (.ok (), first) ∧
      map first 1 0x1001 0x8001 0 .new = .ok (.ok (), second) ∧
      unmap second 1 0x1000 0 = .ok (.ok 0x8000, after) ∧
      UnmappedBlock second after 1 0x1000 (2 ^ 0) := by
  have run : ∃ first second after word,
      map (emptySpace 1 [2, 3, 4]) 1 0x1000 0x8000 0 .new = .ok (.ok (), first) ∧
      map first 1 0x1001 0x8001 0 .new = .ok (.ok (), second) ∧
      unmap second 1 0x1000 0 = .ok (.ok 0x8000, after) ∧
      (first.refcount 0x8001 = 0 ∧ 0x8001 ∉ first.pool) ∧
      translate second 1 (0x1000 * pageSize) = .ok (some (0x8000 * pageSize), second) ∧
      second.lookup 1 0x1000 = some (0, word) :=
    ⟨_, _, _, _, rfl, rfl, rfl, by decide, translate_of_answer (by decide +kernel), rfl⟩
  obtain ⟨first, second, after, word, one, two, ok, exclusive, mapped, leaf⟩ := run
  have small : ∀ {before : PageMemory} {start frame page : Nat},
      WritesLarge before 1 start (start + 2 ^ 0) frame page → start ≤ page → LargeOk .new page := by
    intro before start frame page large low
    have fits := large.2.2
    rw [levelCount_one] at fits
    omega
  have single : ∀ {property : Nat → Prop}, property 0 → ∀ i < 2 ^ 0, property i := by
    intro property holds i inside
    obtain rfl : i = 0 := by omega
    exact holds
  have wf := emptySpace_wellFormed (show 1 ∉ [2, 3, 4] by decide) (by decide)
  have wfFirst := map_wellFormed wf (by decide) (single (by decide)) (single (by decide)) rfl
    (fun page low _ large => small large low) one
  have wfSecond := map_wellFormed wfFirst (by decide) (single exclusive) (single (by decide)) rfl
    (fun page low _ large => small large low) two
  refine ⟨first, second, after, one, two, ok, ?_⟩
  apply (unmap_unmappedBlock_iff wfSecond (by decide) (single (by decide))
    (single ⟨_, mapped⟩) leaf ok).mpr
  decide

/-- A block of four pages that `map` put into two last-level tables: `unmap` returns `Ok`, leaves
the two pages of the second table mapped and clears two pages before the block instead. -/
theorem unmap_stays_in_table : ∃ first second third after,
      map (emptySpace 1 [2, 3, 4, 5]) 1 0x1000 0x8010 1 .new = .ok (.ok (), first) ∧
      map first 1 0x1010 0x8020 0 .new = .ok (.ok (), second) ∧
      map second 1 0x11fe 0x8000 2 .new = .ok (.ok (), third) ∧
      (∀ i < 2 ^ 2, translate third 1 ((0x11fe + i) * pageSize) =
        .ok (some ((0x8000 + i) * pageSize), third)) ∧
      unmap third 1 0x11fe 2 = .ok (.ok 0x8000, after) ∧
      translate third 1 (0x1000 * pageSize) = .ok (some (0x8010 * pageSize), third) ∧
      translate after 1 (0x1000 * pageSize) = .ok (none, after) ∧
      translate after 1 (0x1200 * pageSize) = .ok (some (0x8002 * pageSize), after) ∧
      ¬UnmappedBlock third after 1 0x11fe (2 ^ 2) := by
  have run : ∃ first second third after,
      map (emptySpace 1 [2, 3, 4, 5]) 1 0x1000 0x8010 1 .new = .ok (.ok (), first) ∧
      map first 1 0x1010 0x8020 0 .new = .ok (.ok (), second) ∧
      map second 1 0x11fe 0x8000 2 .new = .ok (.ok (), third) ∧
      (∀ i < 2 ^ 2, (fixedMapping ((0x11fe + i) * pageSize)).or
        ((third.lookup 1 ((0x11fe + i) * pageSize / pageSize)).map
          (leafPhys ((0x11fe + i) * pageSize))) = some ((0x8000 + i) * pageSize)) ∧
      unmap third 1 0x11fe 2 = .ok (.ok 0x8000, after) ∧
      translate third 1 (0x1000 * pageSize) = .ok (some (0x8010 * pageSize), third) ∧
      translate after 1 (0x1000 * pageSize) = .ok (none, after) ∧
      translate after 1 (0x1200 * pageSize) = .ok (some (0x8002 * pageSize), after) :=
    ⟨_, _, _, _, rfl, rfl, rfl, by decide +kernel, rfl, translate_of_answer (by decide +kernel),
      translate_of_answer (by decide +kernel), translate_of_answer (by decide +kernel)⟩
  obtain ⟨first, second, third, after, one, two, three, mapped, ok, before, gone, kept⟩ := run
  refine ⟨first, second, third, after, one, two, three,
    fun i inside => translate_of_answer (mapped i inside), ok, before, gone, kept, ?_⟩
  intro unmapped
  have page := unmapped.inside 2 (by decide) 0 (by decide)
  rw [add_zero, kept] at page
  cases page

end Horizon.Paging
