import Horizon.Kernel.Frame
import Horizon.Verif.PageMapLoop

/-!
# Mapping a block

When `map` of a block onto an absent range returns `Ok`, the block is mapped and nothing else
changed exactly when the flags are present and every large leaf that `map_range` writes is right.
-/

namespace Horizon.Paging

open Radix Runs Nat PageMemory Memory

/-- Nothing changed that a walk could see. -/
structure Quiet (mem mem' : PageMemory) : Prop where
  entries : ∀ table index, mem'.entries table index = mem.entries table index ∨
    isPresent (mem'.entries table index) = false ∧ isPresent (mem.entries table index) = false
  refs : ∀ frame, mem'.refcount frame = 0 ↔ mem.refcount frame = 0

section Quiet

variable {mem mem' mem'' : PageMemory}

theorem Quiet.trans (first : Quiet mem mem') (second : Quiet mem' mem'') : Quiet mem mem'' := by
  refine ⟨fun table index => ?_, fun frame => (second.refs frame).trans (first.refs frame)⟩
  have one := first.entries table index
  have two := second.entries table index
  rcases two with same | ⟨absent, absent'⟩
  · rw [same]
    exact one
  · rcases one with same | ⟨-, absent''⟩
    · rw [same] at absent'
      exact .inr ⟨absent, absent'⟩
    · exact .inr ⟨absent, absent''⟩

theorem Same.quiet (same : Same mem mem') : Quiet mem mem' :=
  ⟨fun _ _ => .inl (by rw [same.entries]), same.refs⟩

theorem Quiet.lookup (quiet : Quiet mem mem') (root page : Nat) :
    mem'.lookup root page = mem.lookup root page := by
  have see : ∀ level table, mem'.store.see (pageKey page) level table =
      mem.store.see (pageKey page) level table := by
    intro level table
    show mem'.view level (mem'.entries table (entryIndex page level)) =
      mem.view level (mem.entries table (entryIndex page level))
    rcases quiet.entries table (entryIndex page level) with same | ⟨absent, absent'⟩
    · rw [same]
      simp only [view, quiet.refs]
    · rw [view_absent absent, view_absent absent']
  have value : ∀ level table, mem.store.see (pageKey page) level table = .value →
      mem'.store.entry table (pageKey page level) = mem.store.entry table (pageKey page level) := by
    intro level table saw
    rcases quiet.entries table (entryIndex page level) with same | ⟨-, absent⟩
    · exact same
    · rw [show mem.store.see (pageKey page) level table = .empty from view_absent absent] at saw
      cases saw
  rw [PageMemory.lookup, PageMemory.lookup, Store.find_eq_of_see see value]
  simp only [quiet.refs]

variable {cursor : MapCursor} {pageEnd : Nat} {flags : PageFlags}

theorem MapCursor.Round.quiet {cursor' : MapCursor}
    (round : Round pageEnd flags cursor mem cursor' mem') (absentFlag : flags.present = false) :
    Quiet mem mem' := by
  cases round with
  | old get present small above pushed => exact (push_same pushed).quiet
  | @leaf table cloned _ _ get absent clone leaf climb =>
    have same := cloneCurrent_same clone
    rw [← same.entries] at absent
    have written : Quiet cloned (cloned.write table cursor.index
        (newMapped cursor.frame flags cursor.level)) := by
      refine ⟨fun other index => ?_, fun _ => Iff.rfl⟩
      by_cases here : other = table ∧ index = cursor.index
      · obtain ⟨rfl, rfl⟩ := here
        refine .inr ⟨?_, absent⟩
        simpa [write] using absentFlag
      · left
        by_cases sameTable : other = table
        · have different : index ≠ cursor.index := fun same => here ⟨sameTable, same⟩
          simp [write, sameTable, different]
        · simp [write, sameTable]
    exact same.quiet.trans (written.trans (climb_same climb).quiet)
  | new get absent clone small above allocated pushed _ =>
    -- The entry of the new table is not present, so `push` refuses it.
    obtain ⟨_, found, -, got, present, -⟩ := push_eq pushed
    rw [get] at got
    cases got
    simp [write, absentFlag] at present

theorem MapCursor.mapLoop_quiet {rounds : Nat} {lock : PageLock}
    (absentFlag : flags.present = false)
    (ok : mapLoop pageEnd flags rounds cursor mem = .ok (.ok (), lock, mem')) : Quiet mem mem' := by
  induction rounds generalizing cursor mem with
  | zero => cases ok
  | succ rounds ih =>
    rcases mapLoop_ok ok with ⟨-, -, rfl⟩ | ⟨left, next, memory, count, -, stepped, rest⟩
    · exact (Same.refl _).quiet
    · cases count
      exact ((step_round stepped).2.quiet absentFlag).trans (ih rest)

end Quiet

variable {offset other page root vaddr : Nat} {mem : PageMemory}

theorem leafPhys_page (page level word : Nat) (small : offset < pageSize) :
    leafPhys (page * pageSize + offset) (level, word) =
      (word / pageSize + page % levelCount level) * pageSize + offset := by
  have split : 2 ^ (levelShift level + 12) = pageSize * levelCount level := by
    unfold levelCount
    rw [pow_add, mul_comm]
    rfl
  have inPage : (page * pageSize + offset) % (pageSize * levelCount level) =
      page % levelCount level * pageSize + offset := by
    rw [mod_mul, mul_comm page, mul_add_mod, mod_eq_of_lt small,
      mul_add_div (by decide), div_eq_of_lt small, add_zero]
    ring
  rw [leafPhys, split, inPage]
  ring

theorem fixedMapping_congr (same : other / 2 ^ 29 = vaddr / 2 ^ 29)
    (unfixed : fixedMapping vaddr = none) : fixedMapping other = none := by
  have bound : ∀ limit, limit / 2 ^ 29 * 2 ^ 29 = limit → (limit ≤ other ↔ limit ≤ vaddr) := by
    intro limit whole
    rw [← whole, ← Nat.le_div_iff_mul_le (by decide), ← Nat.le_div_iff_mul_le (by decide), same]
  have linear := bound klinearBase rfl
  have linearEnd := bound (klinearBase + klinearSize) rfl
  have kernel := bound kernelBase rfl
  have kernelEnd := bound (kernelBase + kernelSize) rfl
  unfold fixedMapping at unfixed ⊢
  simp only [← not_le, linear, linearEnd, kernel, kernelEnd] at unfixed ⊢
  split_ifs at unfixed with inLinear inKernel
  rw [if_neg inLinear, if_neg inKernel]

theorem region_page (page : Nat) (small : offset < pageSize) :
    (page * pageSize + offset) / 2 ^ 29 = page / 2 ^ 17 := by
  have split : 2 ^ 29 = pageSize * 2 ^ 17 := rfl
  rw [split, ← Nat.div_div_eq_div_mul, mul_comm, mul_add_div (by decide),
    div_eq_of_lt small, add_zero]

theorem fixedMapping_page (small : offset < pageSize) (same : other / 2 ^ 17 = page / 2 ^ 17)
    (unfixed : fixedMapping (page * pageSize) = none) :
    fixedMapping (other * pageSize + offset) = none := by
  apply fixedMapping_congr _ unfixed
  have start := region_page page (show 0 < pageSize by decide)
  rw [add_zero] at start
  rw [region_page other small, same, start]

theorem translate_of_answer {answer : Option Nat}
    (computed : (fixedMapping vaddr).or ((mem.lookup root (vaddr / pageSize)).map (leafPhys vaddr))
      = answer) : translate mem root vaddr = .ok (answer, mem) := by
  rw [translate_eq, computed]

theorem translate_page (mem : PageMemory) (root : Nat)
    (unfixed : fixedMapping (page * pageSize) = none) (small : offset < pageSize) :
    translate mem root (page * pageSize + offset) =
      .ok ((mem.lookup root page).map (leafPhys (page * pageSize + offset)), mem) := by
  have number : (page * pageSize + offset) / pageSize = page := by
    rw [mul_comm, mul_add_div (by decide), div_eq_of_lt small, add_zero]
  rw [translate_eq, fixedMapping_page small rfl unfixed, number, Option.none_or]

theorem translate_page_iff {frame : Nat} (unfixed : fixedMapping (page * pageSize) = none) :
    (∀ offset < pageSize, translate mem root (page * pageSize + offset) =
        .ok (some (frame * pageSize + offset), mem)) ↔ MapsTo mem root page frame := by
  have positive : 0 < pageSize := by decide
  constructor
  · intro translates
    have start := translates 0 positive
    rw [translate_page mem root unfixed positive] at start
    injection start with start
    injection start with start
    obtain ⟨⟨level, word⟩, walk, address⟩ := Option.map_eq_some_iff.mp start
    rw [leafPhys_page _ _ _ positive] at address
    exact ⟨level, word, walk, eq_of_mul_eq_mul_right positive (Nat.add_right_cancel address)⟩
  · rintro ⟨level, word, walk, right⟩ offset small
    rw [translate_page mem root unfixed small, walk, Option.map_some, leafPhys_page _ _ _ small,
      right]

/-- Outside the range every address is translated as before. -/
def SameOutside (before after : PageMemory) (root start count : Nat) : Prop :=
  ∀ vaddr, Canonical (vaddr / pageSize) →
    ¬(start ≤ vaddr / pageSize ∧ vaddr / pageSize < start + count) →
      ∃ phys, translate before root vaddr = .ok (phys, before) ∧
        translate after root vaddr = .ok (phys, after)

/-- What `map` of a block is to achieve: the pages of the block translate to its frames with the
requested flags, and every other page translates as before. -/
structure MappedTo (before after : PageMemory) (root start count frame : Nat) (flags : PageFlags) :
    Prop where
  /-- Every address of the block translates to the same offset in its frame. -/
  inside : ∀ i < count, ∀ offset < pageSize,
    translate after root ((start + i) * pageSize + offset) =
      .ok (some ((frame + i) * pageSize + offset), after)
  flags : ∀ i < count, ∃ level word, after.lookup root (start + i) = some (level, word) ∧
    word % pageSize = fromFlags flags level
  outside : SameOutside before after root start count

section Call

attribute [local irreducible] levelMask levelCount

variable {before after : PageMemory} {root start frame order : Nat} {flags : PageFlags}

variable {pool : List Nat} {level table : Nat} {mem : PageMemory}

theorem hold_same {held : List Nat} (live : ∀ frame ∈ held, mem.refcount frame ≠ 0) :
    Same mem (mem.hold held) := by
  refine ⟨rfl, rfl, fun frame => ?_⟩
  show mem.refcount frame + held.count frame = 0 ↔ mem.refcount frame = 0
  constructor
  · intro zero
    omega
  · intro zero
    rw [zero, List.count_eq_zero_of_not_mem fun member => live frame member zero]

/-- A whole `map` is a run of its loop from the entry where the walk stops. -/
theorem map_run {result : Except PageTableError Unit} (live : before.refcount root ≠ 0)
    (ran : map before root start frame order flags = .ok (result, after)) :
    after = before ∧ result = .error .entryAbsent ∨
      ∃ lock level table mem lock' final, Same before mem ∧ Locked before root start level lock ∧
        lock.guards level = some table ∧ Stops before start level table ∧
        MapCursor.mapLoop (start + 2 ^ order) flags (mapRounds (2 ^ order))
          ⟨lock, lock.base, level, entryIndex start level, start, frame⟩ mem =
            .ok (result, lock', final) ∧ Same final after := by
  rw [map] at ran
  obtain ⟨⟨got, mem⟩, locking, rest⟩ := bind_eq_ok.mp ran
  rcases lockPage_spec before root start live with
    ⟨lock, level, table, spec, locked, guard, stops⟩ | ⟨spec, -⟩
  · rw [spec] at locking
    cases locking
    obtain ⟨⟨outcome, lock', final⟩, run, rest⟩ := bind_eq_ok.mp rest
    obtain ⟨dropped, drop, rest⟩ := bind_eq_ok.mp rest
    cases rest
    rw [mapRange, locked.level_eq, Nat.add_sub_cancel_left] at run
    exact .inr ⟨lock, level, table, _, lock', final,
      hold_same (locked.toPath.held_live live _), locked, guard, stops, run, drop_same drop⟩
  · rw [spec] at locking
    cases locking
    cases rest
    exact .inl ⟨rfl, rfl⟩

theorem Stops.no_table (stops : Stops mem page level table)
    (visited : mem.TableAt root page level table) (above : level ≠ 0) (last : Nat) :
    ¬mem.TableAt root page 0 last := by
  intro deeper
  obtain ⟨child, linked⟩ := visited.linked deeper (pos_of_ne_zero above)
  obtain ⟨present, -, small, -⟩ := view_eq_link linked
  rcases stops with zero | absent | huge
  · exact above zero
  · exact absurd (present.symm.trans absent) (by decide)
  · exact absurd (huge.symm.trans small) (by decide)

theorem Progress.initial {lock : PageLock} (wf : WellFormed before root)
    (exclusive : flags.hugePage = false → ∀ i < 2 ^ order, before.refcount (frame + i) = 0 ∧
      frame + i ∉ before.pool)
    (same : Same before mem) (locked : Locked before root start level lock)
    (guard : lock.guards level = some table) (stops : Stops before start level table) :
    Progress before root start (start + 2 ^ order) frame flags
      ⟨lock, lock.base, level, entryIndex start level, start, frame⟩ mem := by
  obtain ⟨found, get, guard', visited⟩ := locked.toPath.get
  rw [guard] at guard'
  cases guard'
  exact
    { wf := wf.same same
      synced := ⟨locked.same same, rfl, rfl⟩
      le_page := le_refl _
      page_le := Nat.le_add_right _ _
      frame_eq := by simp
      data := by
        intro noHuge page low high
        obtain ⟨dead, outside⟩ := exclusive noHuge (page - start) (by omega)
        exact ⟨same.pool ▸ outside, (same.refs _).mpr dead⟩
      done := fun page low high => absurd high (not_lt.mpr low)
      rest := fun page _ _ => same.lookup root page
      aligned := fun moved => absurd moved (lt_irrefl _)
      first := fun _ above => stops.no_table visited above
      small := by
        intro last large
        dsimp only at last
        rw [last] at visited
        rcases large.1 with ⟨-, noTable⟩ | ⟨moved, -⟩
        · exact noTable table visited
        · exact absurd moved (lt_irrefl _)
      entry := by
        refine .inr fun other got => ?_
        dsimp only at got
        rw [get] at got
        cases got
        unfold Stops
        rw [same.entries]
        exact stops }

/-- A successful call is a run of the loop from its first page. -/
theorem map_progress (wf : WellFormed before root) (order_le : order ≤ maxOrder)
    (exclusive : flags.hugePage = false → ∀ i < 2 ^ order, before.refcount (frame + i) = 0 ∧
      frame + i ∉ before.pool) (canonical : ∀ i < 2 ^ order, Canonical (start + i))
    (ok : map before root start frame order flags = .ok (.ok (), after)) :
    ∃ cursor mem result final,
      Progress before root start (start + 2 ^ order) frame flags cursor mem ∧
      cursor.page = start ∧ start + 2 ^ order ≤ start + 2 * levelCount 1 ∧
      (∀ page, start ≤ page → page < start + 2 ^ order → Canonical page) ∧
      MapCursor.mapLoop (start + 2 ^ order) flags (mapRounds (2 ^ order)) cursor mem =
        .ok (.ok (), result, final) ∧ Same final after := by
  rcases map_run wf.live ok with ⟨-, failed⟩ |
    ⟨lock, level, table, mem, result, final, same, locked, guard, stops, run, sameFinal⟩
  · cases failed
  have short : 2 ^ order ≤ 2 ^ maxOrder := Nat.pow_le_pow_right (by decide) order_le
  refine ⟨_, mem, result, final, .initial wf exclusive same locked guard stops, rfl, ?_, ?_, run,
    sameFinal⟩
  · rw [levelCount_one]
    exact Nat.add_le_add_left short start
  · intro page low high
    have := canonical (page - start) (by omega)
    rwa [Nat.add_sub_cancel' low] at this

def emptySpace (root : Nat) (pool : List Nat) : PageMemory where
  entries _ _ := newAbsent
  refcount frame := if frame = root then 1 else 0
  pool := pool

theorem emptySpace_at {key : ℕ → Fin tableSize}
    (visited : (emptySpace root pool).store.At topLevel root key level table) :
    level = topLevel ∧ table = root := by
  cases visited with
  | root => exact ⟨rfl, rfl⟩
  | child _ linked =>
    have present := (view_eq_link linked).1
    exact absurd present (by simp [emptySpace, store, newAbsent, isPresent])

theorem emptySpace_wellFormed (outside : root ∉ pool) (nodup : pool.Nodup) :
    WellFormed (emptySpace root pool) root where
  live := by simp [emptySpace]
  tree key other level level' table visited visited' := by
    obtain ⟨rfl, -⟩ := emptySpace_at visited
    obtain ⟨rfl, -⟩ := emptySpace_at visited'
    exact ⟨rfl, fun j below bound => absurd below (not_lt.mpr bound)⟩
  closed key level table _ _ present := absurd present (by simp [emptySpace, newAbsent, isPresent])
  pool_dead frame member := if_neg fun same : frame = root => outside (same ▸ member)
  pool_nodup := nodup

theorem emptySpace_lookup (pool : List Nat) (page : Nat) :
    (emptySpace root pool).lookup root page = none := by
  have saw : (emptySpace root pool).store.see (pageKey page) (2 + 1) root = .empty :=
    view_absent (by simp [emptySpace, store, newAbsent, isPresent])
  rw [PageMemory.lookup, if_neg (by simp [emptySpace]), topLevel, Store.find, saw]

theorem emptySpace_translate (low : vaddr < klinearBase) :
    translate (emptySpace root pool) root vaddr = .ok (none, emptySpace root pool) := by
  have unfixed : fixedMapping vaddr = none := by
    have order : klinearBase ≤ kernelBase := by decide
    rw [fixedMapping, if_neg (fun inside => absurd inside.1 (not_le.mpr low)),
      if_neg (fun inside => absurd inside.1 (not_le.mpr (lt_of_lt_of_le low order)))]
  rw [translate_eq, unfixed, emptySpace_lookup]
  rfl

theorem map_walks (wf : WellFormed before root) (order_le : order ≤ maxOrder)
    (exclusive : ∀ i < 2 ^ order, before.refcount (frame + i) = 0 ∧ frame + i ∉ before.pool)
    (canonical : ∀ i < 2 ^ order, Canonical (start + i)) (presentFlag : flags.present = true)
    (ok : map before root start frame order flags = .ok (.ok (), after)) :
    ((∀ page, start ≤ page → page < start + 2 ^ order →
          WritesLarge before root start (start + 2 ^ order) frame page → LargeOk flags page) ∧
        WellFormed after root ∧
        (∀ page, start ≤ page → page < start + 2 ^ order →
          Maps after root page (frame + (page - start)) flags) ∧
        ∀ page, Canonical page → ¬(start ≤ page ∧ page < start + 2 ^ order) →
          after.lookup root page = before.lookup root page) ∨
      ∃ page, start ≤ page ∧ page < start + 2 ^ order ∧
        WritesLarge before root start (start + 2 ^ order) frame page ∧
        ¬LargeOk flags page ∧ ¬MapsTo after root page (frame + (page - start)) := by
  obtain ⟨cursor, mem, result, final, progress, first, near, pages, run, sameFinal⟩ :=
    map_progress wf order_le (fun _ => exclusive) canonical ok
  rcases progress.outcome first near pages presentFlag run with
    ⟨right, wfFinal, mapped, unchanged⟩ | ⟨page, low, high, large, wrong, unmapped⟩
  · refine .inl ⟨right, wfFinal.same sameFinal, fun page low high => ?_,
      fun page there outside => ?_⟩
    · obtain ⟨leafLevel, word, walk, leaf⟩ := mapped page low high
      exact ⟨leafLevel, word, (sameFinal.lookup root page).trans walk, leaf⟩
    · exact (sameFinal.lookup root page).trans (unchanged page there outside)
  · refine .inr ⟨page, low, high, large, wrong, fun maps => unmapped ?_⟩
    obtain ⟨leafLevel, word, walk, leaf⟩ := maps
    exact ⟨leafLevel, word, (sameFinal.lookup root page).symm.trans walk, leaf⟩

theorem map_absent_walks (live : before.refcount root ≠ 0) (absentFlag : flags.present = false)
    (ok : map before root start frame order flags = .ok (.ok (), after)) (page : Nat) :
    after.lookup root page = before.lookup root page := by
  rcases map_run live ok with ⟨-, failed⟩ | ⟨_, _, _, _, _, _, same, -, -, -, run, sameFinal⟩
  · cases failed
  have quiet := (same.quiet.trans (MapCursor.mapLoop_quiet absentFlag run)).trans sameFinal.quiet
  exact quiet.lookup root page

/-- `map` of a block of exclusive frames onto an absent range of canonical pages: when it returns
`Ok`, the block is mapped and nothing else has changed exactly when the flags are present and every
large leaf that is written starts at a page of a large block, with flags that ask for a large leaf
that is not write-combining. -/
theorem map_mappedTo_iff (wf : WellFormed before root) (order_le : order ≤ Memory.maxOrder)
    (exclusive : ∀ i < 2 ^ order, before.refcount (frame + i) = 0 ∧ frame + i ∉ before.pool)
    (canonical : ∀ i < 2 ^ order, Canonical (start + i))
    (absent : ∀ i < 2 ^ order, translate before root ((start + i) * pageSize) = .ok (none, before))
    (ok : map before root start frame order flags = .ok (.ok (), after)) :
    MappedTo before after root start (2 ^ order) frame flags ↔
      flags.present = true ∧ ∀ page, start ≤ page → page < start + 2 ^ order →
        WritesLarge before root start (start + 2 ^ order) frame page → LargeOk flags page := by
  have walks : ∀ i < 2 ^ order, fixedMapping ((start + i) * pageSize) = none ∧
      before.lookup root (start + i) = none := by
    intro i small
    have answer := absent i small
    rw [translate_eq, Nat.mul_div_cancel _ (by decide)] at answer
    injection answer with answer
    injection answer with answer
    rw [Option.or_eq_none_iff, Option.map_eq_none_iff] at answer
    exact answer
  cases presentFlag : flags.present with
  | false =>
    refine iff_of_false (fun mapped => ?_) (by simp)
    obtain ⟨leafLevel, word, walk, -⟩ := mapped.flags 0 (Nat.two_pow_pos order)
    rw [map_absent_walks wf.live presentFlag ok, (walks 0 (Nat.two_pow_pos order)).2] at walk
    cases walk
  | true =>
    rcases map_walks wf order_le exclusive canonical presentFlag ok with
      ⟨right, -, mapped, unchanged⟩ | ⟨page, low, high, large, wrong, unmapped⟩
    · refine iff_of_true ⟨?_, ?_, ?_⟩ ⟨rfl, right⟩
      · intro i small
        obtain ⟨leafLevel, word, walk, frameEq, -⟩ := mapped (start + i) (by omega) (by omega)
        rw [Nat.add_sub_cancel_left] at frameEq
        rw [translate_page_iff (walks i small).1]
        exact ⟨leafLevel, word, walk, frameEq⟩
      · intro i small
        obtain ⟨leafLevel, word, walk, -, flagsEq⟩ := mapped (start + i) (by omega) (by omega)
        exact ⟨leafLevel, word, walk, flagsEq⟩
      · intro vaddr there outside
        refine ⟨_, translate_eq before root vaddr, ?_⟩
        rw [translate_eq, unchanged _ there outside]
    · refine iff_of_false (fun mapped => ?_)
        fun conditions => wrong (conditions.2 page low high large)
      have small : page - start < 2 ^ order := by omega
      have inside := mapped.inside (page - start) small
      rw [translate_page_iff (walks _ small).1, Nat.add_sub_cancel' low] at inside
      exact unmapped inside

theorem map_wellFormed (wf : WellFormed before root) (order_le : order ≤ maxOrder)
    (exclusive : ∀ i < 2 ^ order, before.refcount (frame + i) = 0 ∧ frame + i ∉ before.pool)
    (canonical : ∀ i < 2 ^ order, Canonical (start + i)) (presentFlag : flags.present = true)
    (right : ∀ page, start ≤ page → page < start + 2 ^ order →
      WritesLarge before root start (start + 2 ^ order) frame page → LargeOk flags page)
    (ok : map before root start frame order flags = .ok (.ok (), after)) :
    WellFormed after root := by
  rcases map_walks wf order_le exclusive canonical presentFlag ok with
    ⟨-, wfAfter, -⟩ | ⟨page, low, high, large, wrong, -⟩
  · exact wfAfter
  · exact absurd (right page low high large) wrong

end Call

/-- A block of eight frames at page 0x1001 of an address space without mappings. -/
theorem map_mappedTo_small :
    ∃ after, map (emptySpace 1 [2, 3, 4]) 1 0x1001 0x8000 3 .new = .ok (.ok (), after) ∧
      MappedTo (emptySpace 1 [2, 3, 4]) after 1 0x1001 (2 ^ 3) 0x8000 .new := by
  refine ⟨_, rfl, ?_⟩
  apply (map_mappedTo_iff (emptySpace_wellFormed (by decide) (by decide)) (by decide) (by decide)
    (by decide) ?_ rfl).mpr
  · refine ⟨rfl, fun page low high large => ?_⟩
    have fits := large.2.2
    rw [levelCount_one] at fits
    omega
  · intro i small
    apply emptySpace_translate
    rw [show pageSize = 4096 from rfl, show klinearBase = 0xFFFF880000000000 from rfl]
    omega

/-- A block of 512 frames at page 0x1001 of an address space without mappings: `map` returns `Ok`,
and the page translates to the second frame of the block. -/
theorem map_misplaces_large_leaf : WellFormed (emptySpace 1 [2, 3, 4]) 1 ∧
      (∀ i < 2 ^ 9, (emptySpace 1 [2, 3, 4]).refcount (0x8000 + i) = 0 ∧
        0x8000 + i ∉ (emptySpace 1 [2, 3, 4]).pool) ∧
      (∀ i < 2 ^ 9, Canonical (0x1001 + i)) ∧
      (∀ i < 2 ^ 9, translate (emptySpace 1 [2, 3, 4]) 1 ((0x1001 + i) * pageSize) =
        .ok (none, emptySpace 1 [2, 3, 4])) ∧
      ∃ after, map (emptySpace 1 [2, 3, 4]) 1 0x1001 0x8000 9 .new = .ok (.ok (), after) ∧
        translate after 1 (0x1001 * pageSize) = .ok (some (0x8001 * pageSize), after) ∧
        ¬MappedTo (emptySpace 1 [2, 3, 4]) after 1 0x1001 (2 ^ 9) 0x8000 .new := by
  have shifted : ∃ after,
      map (emptySpace 1 [2, 3, 4]) 1 0x1001 0x8000 9 .new = .ok (.ok (), after) ∧
        translate after 1 (0x1001 * pageSize) = .ok (some (0x8001 * pageSize), after) :=
    ⟨_, rfl, translate_of_answer rfl⟩
  obtain ⟨after, ok, address⟩ := shifted
  refine ⟨emptySpace_wellFormed (by decide) (by decide), ?_, ?_, ?_, after, ok, address, ?_⟩
  · intro i _
    have different : 0x8000 + i ≠ 1 := by omega
    have outside : 0x8000 + i ∉ [2, 3, 4] := by
      simp only [List.mem_cons, List.not_mem_nil, or_false]
      omega
    exact ⟨if_neg different, outside⟩
  · intro i small
    exact .inl (by omega)
  · intro i small
    apply emptySpace_translate
    rw [show pageSize = 4096 from rfl, show klinearBase = 0xFFFF880000000000 from rfl]
    omega
  · intro mapped
    have first := mapped.inside 0 (by decide) 0 (by decide)
    rw [add_zero, add_zero, add_zero, address] at first
    injection first with first
    injection first with first
    exact absurd first (by decide)

end Horizon.Paging
