import Horizon.Verif.PageMap

/-!
# Blocks with the large flag

`map` of a block whose flags ask for large leaves keeps the tables well formed. `map_range` takes a
large leaf for the first page of the block whatever its alignment. Such a leaf begins before the
block, and some page of the block is left out.
-/

namespace Horizon.Paging

open Radix Runs MapCursor

section Entry

variable {page : Nat}

section

variable (unaligned : ¬levelCount 1 ∣ page)
  (fits : page + levelCount 1 ≤ levelMask 2 page + levelCount 2)
include unaligned fits

theorem entryIndex_room : entryIndex page 1 + 1 < tableSize := by
  have size : tableSize = 512 := rfl
  rw [levelMask, levelCount_two, levelCount_one] at fits
  rw [levelCount_one] at unaligned
  rw [entryIndex, levelCount_one, size]
  omega

theorem next_entryIndex : entryIndex (page + levelCount 1) 1 = entryIndex page 1 + 1 := by
  have size : tableSize = 512 := rfl
  rw [levelMask, levelCount_two, levelCount_one] at fits
  rw [levelCount_one] at unaligned
  rw [entryIndex, entryIndex, levelCount_one, size]
  omega

end

theorem next_block {level : Nat} (unaligned : ¬levelCount 1 ∣ page)
    (fits : page + levelCount 1 ≤ levelMask 2 page + levelCount 2) (above : 1 < level) :
    (page + levelCount 1) / levelCount level = page / levelCount level := by
  have second : (page + levelCount 1) / levelCount 2 = page / levelCount 2 := by
    rw [levelMask, levelCount_two, levelCount_one] at fits
    rw [levelCount_one] at unaligned
    rw [levelCount_two, levelCount_one]
    omega
  obtain ⟨blocks, whole⟩ := levelCount_dvd above
  rw [whole, ← Nat.div_div_eq_div_mul, second, Nat.div_div_eq_div_mul]

end Entry

section Misplaced

attribute [local irreducible] levelMask levelCount

variable {before mem mem' final : PageMemory} {root start pageEnd frame : Nat} {flags : PageFlags}
  {cursor climbed : MapCursor}

theorem climb_room (room : cursor.index + 1 < tableSize)
    (climb : MapCursor.climb maxPageTableLevels cursor mem = .ok (.ok climbed, mem')) :
    climbed = cursor ∧ mem' = mem := by
  rw [show maxPageTableLevels = 4 + 1 from rfl, MapCursor.climb, if_neg (not_le.mpr room)] at climb
  cases climb
  exact ⟨rfl, rfl⟩

theorem Synced.next_large (synced : Synced mem root cursor) (level : cursor.level = 1)
    (unaligned : ¬levelCount 1 ∣ cursor.page)
    (fits : cursor.page + levelCount 1 ≤ levelMask 2 cursor.page + levelCount 2) : Synced mem root
      { cursor with
        index := cursor.index + 1
        page := cursor.page + levelCount cursor.level
        frame := cursor.frame + levelCount cursor.level } := by
  obtain ⟨locked, base, index⟩ := synced
  rw [level] at index
  refine ⟨?_, base, ?_⟩
  · dsimp only
    rw [level] at locked ⊢
    exact locked.congr_page fun j above => next_block unaligned fits above
  · dsimp only
    rw [level, index, next_entryIndex unaligned fits]

theorem Synced.progress {found : Nat} (synced : Synced mem root cursor) (wf : WellFormed mem root)
    (huge : flags.hugePage = true) (last : cursor.level = 0) (inside : cursor.page ≤ pageEnd)
    (get : cursor.lock.get = some found) (blank : ∀ index, mem.entries found index = newAbsent) :
    Progress mem root cursor.page pageEnd cursor.frame flags cursor mem := by
  obtain ⟨table, -, -, visited⟩ := synced.locked.toPath.get
  rw [last] at visited
  exact
    { wf := wf
      synced := synced
      le_page := le_refl _
      page_le := inside
      frame_eq := by rw [Nat.sub_self, add_zero]
      data := fun noHuge => absurd (huge.symm.trans noHuge) (by decide)
      done := fun page low high => absurd high (not_lt.mpr low)
      rest := fun _ _ _ => rfl
      aligned := fun moved => absurd moved (lt_irrefl _)
      first := fun _ above => absurd last above
      small := by
        rintro - ⟨⟨-, none⟩ | ⟨moved, -⟩, -⟩
        · exact none table visited
        · exact absurd moved (lt_irrefl _)
      entry := by
        refine .inr fun other got => .inr (.inl ?_)
        rw [get] at got
        cases got
        rw [blank]
        decide }

theorem not_misplaces {table : Nat} (visited : before.TableAt root start 0 table)
    (huge : flags.hugePage = true) : ¬Misplaces before root start pageEnd frame flags final := by
  rintro ⟨-, -, -, large, wrong, -⟩
  rcases large.1 with ⟨-, none⟩ | ⟨-, dvd⟩
  · exact none table visited
  · exact wrong ⟨dvd, huge⟩

/-- The rest of a run from a page inside an entry: some page keeps its walk. -/
theorem Synced.unaligned_run {rounds : Nat} {result : PageLock} (synced : Synced mem root cursor)
    (wf : WellFormed mem root) (level : cursor.level = 1) (unaligned : ¬levelCount 1 ∣ cursor.page)
    (reach : cursor.page ≤ pageEnd) (near : pageEnd ≤ cursor.page + levelCount 1)
    (canonical : ∀ page, levelMask 1 cursor.page ≤ page → page < pageEnd → Canonical page)
    (presentFlag : flags.present = true) (huge : flags.hugePage = true)
    (ok : mapLoop pageEnd flags rounds cursor mem = .ok (.ok (), result, final)) :
    WellFormed final root ∧
      (∀ page, Canonical page → ¬(levelMask 1 cursor.page ≤ page ∧ page < pageEnd) →
        final.lookup root page = mem.lookup root page) ∧
      ∃ page, levelMask 1 cursor.page ≤ page ∧ page < pageEnd ∧
        final.lookup root page = mem.lookup root page := by
  have positive := levelCount_pos 1
  have index : cursor.index = entryIndex cursor.page 1 := level ▸ synced.index_eq
  have start : levelMask 1 cursor.page < cursor.page := by
    refine lt_of_le_of_ne (levelMask_le 1 _) fun same => unaligned ?_
    rw [← same]
    exact dvd_levelMask 1 _
  have under (page : Nat) : page / levelCount 1 = cursor.page / levelCount 1 ↔
      levelMask 1 cursor.page ≤ page ∧ page < levelMask 1 cursor.page + levelCount 1 := by
    rw [← div_eq_iff_of_dvd positive (dvd_levelMask 1 _)]
    unfold levelMask
    rw [Nat.mul_div_cancel _ positive]
  have end_lt := lt_levelMask_add 1 cursor.page
  rcases mapLoop_ok ok with
    ⟨done, -, rfl⟩ | ⟨left, next, memory, -, inside, stepped, rest⟩
  · exact ⟨wf, fun _ _ _ => rfl, levelMask 1 cursor.page, le_refl _, by omega, rfl⟩
  cases (step_round stepped).2 with
  | old get present small above pushed =>
    obtain ⟨below, _, levelEq, -, -, -, -, lockEq, -⟩ := push_eq pushed
    rw [synced.locked.level_eq, level] at levelEq
    cases levelEq
    exact absurd rest (behind_not_ok (by rw [lockEq]) above small inside)
  | @leaf table cloned _ climbed get absent clone leaf climb =>
    have large : cursor.useHuge pageEnd = true := by
      rcases leaf with large | ⟨-, last⟩
      · exact large
      · rw [level] at last
        cases last
    obtain ⟨-, fits, -⟩ := (useHuge_iff synced).mp large
    rw [level] at fits
    change levelCount 1 ≤ min pageEnd (levelMask 2 cursor.page + levelCount 2) - cursor.page at fits
    have room := entryIndex_room unaligned (by omega)
    rw [← index] at room
    obtain ⟨rfl, rfl⟩ := climb_room room climb
    have isLeaf : isHuge (newMapped climbed.frame flags climbed.level) climbed.level = true := by
      rw [isHuge_newMapped, level, huge]
      rfl
    obtain ⟨wfWritten, -, apart⟩ := synced.write_leaf wf (canonical _ (le_of_lt start) inside) get
      clone ((isPresent_newMapped _ _ _).trans presentFlag) (.inr isLeaf)
    rw [level] at wfWritten apart rest
    -- The block ends with this leaf.
    rcases mapLoop_ok rest with ⟨-, -, rfl⟩ | ⟨_, _, _, -, more, -⟩
    · refine ⟨wfWritten, fun page there outside => apart page there fun block => outside ?_,
        levelMask 1 climbed.page + levelCount 1, by omega, by omega, ?_⟩
      · have := (under page).mp block
        omega
      · apply apart _ (canonical _ (by omega) (by omega))
        intro block
        have := (under _).mp block
        omega
    · dsimp only at more
      omega
  | @new table child newLevel cloned fresh _ lock get absent clone small above allocated pushed
      levelEq =>
    have same := cloneCurrent_same clone
    have syncedCloned : Synced cloned root cursor :=
      ⟨synced.locked.same same, synced.base_eq, synced.index_eq⟩
    obtain ⟨present, notHuge, target⟩ := newMapped_table child flags cursor.level
    obtain ⟨lower, wfNew, locked, lookup, blank⟩ := syncedCloned.enter (wf.same same) get
      (by rw [same.entries]; exact absent) allocated (present.trans presentFlag) notHuge target
      pushed levelEq
    obtain rfl : newLevel = 0 := by omega
    have syncedNew : Synced memory root
        { cursor with
          lock := lock
          base := lock.base
          level := 0
          index := entryIndex cursor.page 0 } := ⟨locked, rfl, rfl⟩
    obtain ⟨found, got, -, visited⟩ := locked.toPath.get
    have progress := syncedNew.progress wfNew huge rfl reach got (blank found got)
    have walks (page : Nat) : memory.lookup root page = mem.lookup root page :=
      (lookup page).trans (same.lookup root page)
    rcases progress.leaves (by dsimp only; omega)
        (fun page low high => canonical page (le_trans (le_of_lt start) low) high)
        presentFlag rest with
      ⟨-, wfFinal, -, unchanged⟩ | misplaces
    · refine ⟨wfFinal, fun page there outside => ?_, levelMask 1 cursor.page, le_refl _,
        by omega, ?_⟩
      · rw [unchanged page there
          (fun within => outside ⟨le_trans (le_of_lt start) within.1, within.2⟩), walks]
      · rw [unchanged _ (canonical _ (le_refl _) (by omega))
          (fun within => absurd within.1 (not_le.mpr start)), walks]
    · exact absurd misplaces (not_misplaces visited huge)

theorem Misplaces.outcome (misplaces : Misplaces before root start pageEnd frame flags final)
    (near : pageEnd ≤ start + 2 * levelCount 1)
    (canonical : ∀ page, start ≤ page → page < pageEnd → Canonical page)
    (presentFlag : flags.present = true) (huge : flags.hugePage = true) :
    ¬levelCount 1 ∣ start ∧ WritesLarge before root start pageEnd frame start ∧
      WellFormed final root ∧ final.lookup root start = some (1, newMapped frame flags 1) ∧
      (∀ page, Canonical page → ¬(levelMask 1 start ≤ page ∧ page < pageEnd) →
        final.lookup root page = before.lookup root page) ∧
      ∃ page, start ≤ page ∧ page < pageEnd ∧
        final.lookup root page = before.lookup root page := by
  obtain ⟨progress, inside, level, large, wrong, get, clone, climb, rest⟩ := misplaces
  rename_i cursor climbed mem cloned mem' table rounds result
  have unaligned : ¬levelCount 1 ∣ cursor.page := fun dvd => wrong ⟨dvd, huge⟩
  have atStart : cursor.page = start := by
    rcases large.1 with ⟨atStart, -⟩ | ⟨-, dvd⟩
    · exact atStart
    · exact absurd dvd unaligned
  have frameEq : cursor.frame = frame := by
    rw [progress.frame_eq, atStart, Nat.sub_self, add_zero]
  have fits := large.2.2
  have positive := levelCount_pos 1
  have region : cursor.page + levelCount 1 ≤ levelMask 2 cursor.page + levelCount 2 := by omega
  have room := entryIndex_room unaligned region
  have index : cursor.index = entryIndex cursor.page 1 := level ▸ progress.synced.index_eq
  rw [← index] at room
  obtain ⟨rfl, rfl⟩ := climb_room room climb
  have isLeaf : isHuge (newMapped climbed.frame flags climbed.level) climbed.level = true := by
    rw [isHuge_newMapped, level, huge]
    rfl
  have here : Canonical climbed.page := canonical _ progress.le_page inside
  obtain ⟨-, -, synced⟩ := progress.synced.written progress.wf get clone
    (newMapped climbed.frame flags climbed.level)
  obtain ⟨wfWritten, mapped, apart⟩ := progress.synced.write_leaf progress.wf here get clone
    ((isPresent_newMapped _ _ _).trans presentFlag) (.inr isLeaf)
  have syncedNext := synced.next_large level unaligned region
  rw [level] at wfWritten apart mapped rest syncedNext
  rw [atStart] at unaligned large region rest syncedNext
  have mask : levelMask 1 (start + levelCount 1) = levelMask 1 start + levelCount 1 := by
    unfold levelMask
    rw [Nat.add_div_right _ positive, Nat.succ_mul]
  have first_le := levelMask_le 1 start
  have first_lt := lt_levelMask_add 1 start
  have unalignedNext : ¬levelCount 1 ∣ start + levelCount 1 :=
    fun dvd => unaligned ((Nat.dvd_add_left (dvd_refl _)).mp dvd)
  obtain ⟨wfFinal, unchanged, kept⟩ := syncedNext.unaligned_run wfWritten rfl unalignedNext
    (by dsimp only; omega) (by dsimp only; omega)
    (fun page low high => canonical page (by dsimp only at low; omega) high) presentFlag huge rest
  dsimp only at unchanged kept
  rw [mask] at unchanged kept
  -- The pages of the first leaf are those of the entry of the first page.
  have under (page : Nat) : page / levelCount 1 = climbed.page / levelCount 1 ↔
      levelMask 1 start ≤ page ∧ page < levelMask 1 start + levelCount 1 := by
    rw [atStart, ← div_eq_iff_of_dvd positive (dvd_levelMask 1 _)]
    unfold levelMask
    rw [Nat.mul_div_cancel _ positive]
  have walks (page : Nat) (there : Canonical page)
      (outside : ¬(levelMask 1 start ≤ page ∧ page < levelMask 1 start + levelCount 1)) :
      (cloned.write table climbed.index (newMapped climbed.frame flags 1)).lookup root page =
        before.lookup root page := by
    rw [apart page there (mt (under page).mp outside)]
    exact progress.rest page there (by omega)
  refine ⟨unaligned, large, wfFinal, ?_, fun page there outside => ?_, ?_⟩
  · rw [unchanged start (atStart ▸ here) (by omega),
      mapped start (atStart ▸ here) ((under start).mpr ⟨first_le, first_lt⟩), frameEq]
  · rw [unchanged page there (by omega), walks page there (by omega)]
  · obtain ⟨page, low, high, same⟩ := kept
    refine ⟨page, by omega, high, ?_⟩
    rw [same, walks page (canonical page (by omega) high) (by omega)]

end Misplaced

section Call

attribute [local irreducible] levelMask levelCount

variable {before mem mem' after final : PageMemory} {root start pageEnd frame order : Nat}
  {flags : PageFlags} {cursor : MapCursor}

/-- What a successful `map` did to a block whose first large leaf it misplaced. -/
structure Shifted (before after : PageMemory) (root start pageEnd frame : Nat)
    (flags : PageFlags) : Prop where
  unaligned : ¬levelCount 1 ∣ start
  large : WritesLarge before root start pageEnd frame start
  first : after.lookup root start = some (1, newMapped frame flags 1)
  outside : ∀ page, Canonical page → ¬(levelMask 1 start ≤ page ∧ page < pageEnd) →
    after.lookup root page = before.lookup root page
  missed : ∃ page, start ≤ page ∧ page < pageEnd ∧ after.lookup root page = before.lookup root page

/-- What a successful `map` did to a block whose large leaves it placed right. -/
structure Filled (before after : PageMemory) (root start pageEnd frame : Nat)
    (flags : PageFlags) : Prop where
  placed : ∀ page, start ≤ page → page < pageEnd →
    WritesLarge before root start pageEnd frame page → levelCount 1 ∣ page
  inside : ∀ page, start ≤ page → page < pageEnd →
    Written before root start pageEnd frame flags after page
  outside : ∀ page, Canonical page → ¬(start ≤ page ∧ page < pageEnd) →
    after.lookup root page = before.lookup root page

theorem map_leaves (wf : WellFormed before root) (order_le : order ≤ Memory.maxOrder)
    (canonical : ∀ i < 2 ^ order, Canonical (start + i)) (presentFlag : flags.present = true)
    (huge : flags.hugePage = true)
    (ok : map before root start frame order flags = .ok (.ok (), after)) : WellFormed after root ∧
      (Filled before after root start (start + 2 ^ order) frame flags ∨
        Shifted before after root start (start + 2 ^ order) frame flags) := by
  obtain ⟨cursor, mem, result, final, progress, atStart, near, pages, run, sameFinal⟩ :=
    map_progress wf order_le (fun noHuge => absurd (huge.symm.trans noHuge) (by decide))
      canonical ok
  have walks (page : Nat) : after.lookup root page = final.lookup root page :=
    sameFinal.lookup root page
  rcases progress.leaves near pages presentFlag run with
    ⟨placed, wfFinal, written, unchanged⟩ | misplaces
  · rw [atStart] at placed
    refine ⟨wfFinal.same sameFinal, .inl ⟨fun page low high due => (placed page low high due).1, ?_,
      fun page there outside => (walks page).trans (unchanged page there outside)⟩⟩
    intro page low high
    obtain ⟨leafLevel, first, walk, right⟩ := written page low high
    exact ⟨leafLevel, first, (walks page).trans walk, right⟩
  · obtain ⟨unaligned, large, wfFinal, first, unchanged, page, low, high, kept⟩ :=
      misplaces.outcome near pages presentFlag huge
    exact ⟨wfFinal.same sameFinal, .inr ⟨unaligned, large, (walks start).trans first,
      fun page there outside => (walks page).trans (unchanged page there outside),
      page, low, high, (walks page).trans kept⟩⟩

variable {result : Except PageTableError Unit} {page : Nat} {leaf : Nat × Nat}

theorem lookup_settled (found : mem.lookup root page = some leaf) : Settled mem root page := by
  rw [PageMemory.lookup] at found
  split at found
  · cases found
  · obtain ⟨table, visited, value, -⟩ := Store.At.root.find_some found
    refine ⟨leaf.1, table, visited, ?_⟩
    change mem.view leaf.1 (mem.entries table (entryIndex page leaf.1)) = .value at value
    unfold PageMemory.view at value
    split_ifs at value with present isLeaf
    rcases isLeaf with last | huge
    · exact ⟨present, .inl last⟩
    · exact ⟨present, .inr (.inl huge)⟩

theorem map_extends (live : before.refcount root ≠ 0)
    (ok : map before root start frame order flags = .ok (.ok (), after)) :
    Extends before after := by
  rcases map_run live ok with ⟨-, failed⟩ | ⟨_, _, _, _, _, _, same, -, -, -, run, sameFinal⟩
  · cases failed
  exact same.extends.trans ((mapLoop_extends run).trans sameFinal.extends)

theorem map_lookup_some (wf : WellFormed before root)
    (ok : map before root start frame order flags = .ok (.ok (), after))
    (found : before.lookup root page = some leaf) : after.lookup root page = some leaf := by
  rw [(map_extends wf.live ok).lookup wf.live wf.pool_dead (lookup_settled found), found]

theorem Progress.page_kept {rounds : Nat} {lock : PageLock}
    (progress : Progress before root start (start + 1) frame flags cursor mem)
    (here : Canonical start) (presentFlag : flags.present = true)
    (ran : mapLoop (start + 1) flags rounds cursor mem = .ok (result, lock, final)) :
    WellFormed final root ∧ ∀ page, Canonical page → page ≠ start →
      final.lookup root page = before.lookup root page := by
  have kept {cursor : MapCursor} {mem : PageMemory}
      (progress : Progress before root start (start + 1) frame flags cursor mem) :
      ∀ page, Canonical page → page ≠ start → mem.lookup root page = before.lookup root page := by
    have := progress.page_le
    exact fun page there other => progress.rest page there (by omega)
  have small {cursor : MapCursor} {mem : PageMemory}
      (progress : Progress before root start (start + 1) frame flags cursor mem) :
      cursor.useHuge (start + 1) ≠ true := by
    intro huge
    have one := levelCount_one
    obtain ⟨-, fits, -⟩ := progress.large (by omega) huge
    have := progress.le_page
    omega
  induction rounds generalizing cursor mem with
  | zero => cases ran
  | succ rounds ih =>
    rw [mapLoop] at ran
    split at ran
    case isFalse =>
      cases ran
      exact ⟨progress.wf, kept progress⟩
    case isTrue inside =>
      have atStart : cursor.page = start := by
        have := progress.le_page
        omega
      obtain ⟨⟨outcome, memory⟩, stepped, rest⟩ := bind_eq_ok.mp ran
      cases outcome with
      | error failure =>
        cases rest
        rcases (step_outcome stepped).2 with same | ⟨table, cloned, get, clone, leaf, same⟩
        · exact ⟨progress.wf.same same, fun page there other =>
            (same.lookup root page).trans (kept progress page there other)⟩
        · have last : cursor.level = 0 := by
            rcases leaf with huge | ⟨-, last⟩
            · exact absurd huge (small progress)
            · exact last
          obtain ⟨wf, -, apart⟩ := progress.synced.write_leaf progress.wf (atStart ▸ here) get clone
            ((isPresent_newMapped cursor.frame flags cursor.level).trans presentFlag) (.inl last)
          refine ⟨wf.same same, fun page there other => ?_⟩
          rw [same.lookup, apart page there, kept progress page there other]
          rw [last, levelCount_zero, Nat.div_one, Nat.div_one, atStart]
          exact other
      | ok next =>
        cases (step_round stepped).2 with
        | old get present _ above pushed =>
          have moved := progress.old_moved get rfl present above pushed
          omega
        | new get absent clone small above allocated pushed level_eq =>
          exact ih (progress.new presentFlag get absent clone small above allocated pushed level_eq)
            rest
        | leaf get absent clone leaf climb =>
          have last : cursor.level = 0 := by
            rcases leaf with huge | ⟨-, last⟩
            · exact absurd huge (small progress)
            · exact last
          have unit : levelCount cursor.level = 1 := by rw [last, levelCount_zero]
          obtain ⟨-, next⟩ := progress.leaf (fun page low high => by
              rw [show page = start by omega]
              exact here) presentFlag get absent clone climb (unit ▸ one_dvd _) (by omega)
            (.inl last)
          exact ih next rest

theorem map_page_kept (wf : WellFormed before root) (here : Canonical start)
    (presentFlag : flags.present = true) (huge : flags.hugePage = true)
    (ran : map before root start frame 0 flags = .ok (result, after)) :
    WellFormed after root ∧ ∀ page, Canonical page → page ≠ start →
      after.lookup root page = before.lookup root page := by
  rcases map_run wf.live ran with ⟨rfl, -⟩ |
    ⟨lock, level, table, mem, lock', final, same, locked, guard, stops, run, sameFinal⟩
  · exact ⟨wf, fun _ _ _ => rfl⟩
  · have progress : Progress before root start (start + 2 ^ 0) frame flags _ mem :=
      Progress.initial wf (fun noHuge => absurd (huge.symm.trans noHuge) (by decide)) same locked
        guard stops
    obtain ⟨wfFinal, kept⟩ := progress.page_kept here presentFlag run
    exact ⟨wfFinal.same sameFinal, fun page there other =>
      (sameFinal.lookup root page).trans (kept page there other)⟩

end Call

end Horizon.Paging
