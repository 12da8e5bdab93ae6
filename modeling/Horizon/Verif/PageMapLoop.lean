import Horizon.Verif.PageStale

/-!
# The loop of `map_range`

The loop maps its pages one leaf after the other and changes no other walk, as long as every large
leaf it writes starts at a page of a large block and its flags ask for a large leaf that is not
write-combining. Otherwise the page of the leaf is mapped wrongly, and no later round repairs it.
-/

namespace Horizon.Paging

open Radix Runs MapCursor Nat PageMemory

attribute [local irreducible] levelMask levelCount

/-- The page leads to the frame. -/
def MapsTo (mem : PageMemory) (root page frame : Nat) : Prop :=
  ∃ level word, mem.lookup root page = some (level, word) ∧
    word / pageSize + page % levelCount level = frame

/-- The page leads to the frame, with the flags. -/
def Maps (mem : PageMemory) (root page frame : Nat) (flags : PageFlags) : Prop :=
  ∃ level word, mem.lookup root page = some (level, word) ∧
    word / pageSize + page % levelCount level = frame ∧ word % pageSize = fromFlags flags level

/-- The pages of the block at which `map_range` writes a large leaf: the first page, when no
last-level table covers it, and every later page of a large block, where the frame is aligned and
the leaf ends before the end of the block and before that of the table. -/
def WritesLarge (before : PageMemory) (root start pageEnd frame page : Nat) : Prop :=
  (page = start ∧ (∀ table, ¬before.TableAt root start 0 table) ∨
      start < page ∧ levelCount 1 ∣ page) ∧
    levelCount 1 ∣ frame + (page - start) ∧
    levelCount 1 ≤ min pageEnd (levelMask 2 page + levelCount 2) - page

/-- A large leaf is right: it starts at a page of a large block, and the flags ask for a large leaf
that is not write-combining. -/
def LargeOk (flags : PageFlags) (page : Nat) : Prop :=
  levelCount 1 ∣ page ∧ flags.hugePage = true ∧ flags.cacheType ≠ .writeCombine

/-- A page of the block is under a leaf for its frame: a leaf of the last level, or the large leaf
that is due at the start of its large block. -/
def Written (before : PageMemory) (root start pageEnd frame : Nat) (flags : PageFlags)
    (mem : PageMemory) (page : Nat) : Prop :=
  ∃ level first, mem.lookup root page =
      some (level, newMapped (frame + (first - start)) flags level) ∧
    start ≤ first ∧ first ≤ page ∧ page < first + levelCount level ∧ levelCount level ∣ first ∧
    (level = 0 ∧ ¬WritesLarge before root start pageEnd frame first ∨
      level = 1 ∧ WritesLarge before root start pageEnd frame first ∧ flags.hugePage = true)

/-- What holds before every round of `map_range`, for a block of pages from `start` to `pageEnd`
and frames from `frame` on. -/
structure Progress (before : PageMemory) (root start pageEnd frame : Nat) (flags : PageFlags)
    (cursor : MapCursor) (mem : PageMemory) : Prop where
  wf : WellFormed mem root
  synced : Synced mem root cursor
  le_page : start ≤ cursor.page
  page_le : cursor.page ≤ pageEnd
  frame_eq : cursor.frame = frame + (cursor.page - start)
  /-- Where leaves may be taken for tables, the frames of the block are none and become none. -/
  data : flags.hugePage = false → ∀ page, start ≤ page → page < pageEnd →
    frame + (page - start) ∉ mem.pool ∧ mem.refcount (frame + (page - start)) = 0
  done : ∀ page, start ≤ page → page < cursor.page →
    Written before root start pageEnd frame flags mem page
  rest : ∀ page, Canonical page → ¬(start ≤ page ∧ page < cursor.page) →
    mem.lookup root page = before.lookup root page
  aligned : start < cursor.page → levelCount cursor.level ∣ cursor.page
  first : cursor.page = start → cursor.level ≠ 0 → ∀ table, ¬before.TableAt root start 0 table
  small : cursor.level = 0 → ¬WritesLarge before root start pageEnd frame cursor.page
  /-- An existing table is met only after the first leaf, and not at a first entry. -/
  entry : start < cursor.page ∧ 0 < cursor.index ∨
    ∀ table, cursor.lock.get = some table → Stops mem cursor.page cursor.level table

section Loop

variable {before mem mem' : PageMemory} {root start pageEnd frame : Nat} {flags : PageFlags}
  {cursor cursor' : MapCursor} {lock : PageLock}

variable {child level rounds table word : Nat} {result : PageLock}
  {cloned final fresh : PageMemory}

theorem useHuge_iff (synced : Synced mem root cursor) :
    cursor.useHuge pageEnd = true ↔ levelCount cursor.level ∣ cursor.frame ∧
      levelCount cursor.level ≤ min pageEnd (levelMask (cursor.level + 1) cursor.page +
        levelCount (cursor.level + 1)) - cursor.page ∧ hugePage cursor.level = true := by
  have base := synced.base_eq.trans synced.locked.base_eq
  have start : max cursor.page cursor.base = cursor.page := by
    rw [base]
    exact max_eq_left (levelMask_le _ _)
  simp only [useHuge, start, Bool.and_eq_true, decide_eq_true_eq, and_assoc,
    dvd_iff_mod_eq_zero]
  rw [base]

theorem Synced.push_base (synced : Synced mem root cursor) (level_eq : cursor.level = level + 1) :
    levelMask (level + 2) cursor.lock.base ||| cursor.index <<< levelShift (level + 1) =
      levelMask (level + 1) cursor.page := by
  obtain ⟨locked, -, index⟩ := synced
  have small := index ▸ entryIndex_lt _ _
  have base := locked.base_eq
  rw [level_eq] at base index
  have tableDvd : levelCount (level + 2) ∣ cursor.lock.base := by
    rw [base]
    exact dvd_levelMask _ _
  rw [levelMask_or tableDvd small, base, index, levelMask_succ_add]

theorem Synced.enter (synced : Synced mem root cursor) (wf : WellFormed mem root)
    (get : cursor.lock.get = some table)
    (absent : isPresent (mem.entries table cursor.index) = false)
    (allocated : mem.allocTable = some (child, fresh)) (present : isPresent word = true)
    (notHuge : isHuge word cursor.level = false) (target : word / pageSize = child)
    (pushed : cursor.lock.push cursor.index (some child) (fresh.write table cursor.index word) =
      .ok (some lock, mem')) (level_eq : lock.level = some level) :
    cursor.level = level + 1 ∧ WellFormed mem' root ∧ Locked mem' root cursor.page level lock ∧
      (∀ other, mem'.lookup root other = mem.lookup root other) ∧
      ∀ found, lock.get = some found → ∀ index, mem'.entries found index = newAbsent := by
  obtain ⟨below, found, belowEq, got, -, -, free, lockEq, drop⟩ := push_eq pushed
  rw [get] at got
  cases got
  rw [synced.locked.level_eq] at belowEq
  injection belowEq with belowEq
  obtain rfl : below = level := by
    rw [lockEq] at level_eq
    injection level_eq
  have base := synced.push_base belowEq
  obtain ⟨locked, -, index⟩ := synced
  rw [belowEq] at locked notHuge index
  obtain ⟨again, got, -, visited⟩ := locked.toPath.get
  rw [get] at got
  cases got
  have written : (fresh.write table cursor.index word).entries table cursor.index = word := by
    simp [write]
  rw [written, target] at lockEq drop
  obtain rfl : fresh.write table cursor.index word = mem' := by
    rw [locked.refs, free] at drop
    injection drop
  rw [index] at absent ⊢
  obtain ⟨wfNew, entered, blank, lookup⟩ := wf.link visited absent allocated present notHuge target
  have visitedFresh := (wf.agree_alloc allocated _).at_iff.mpr visited
  have path := ((locked.alloc wf allocated).write (wf.alloc allocated) visitedFresh
    word).toPath.enter entered
  refine ⟨belowEq, wfNew, ?_, lookup, ?_⟩
  · rw [lockEq]
    exact ⟨{ path with level_eq := rfl }, base⟩
  · intro found got
    rw [lockEq] at got
    simp only [PageLock.get, Option.bind_some, Function.update_self, Option.some.injEq] at got
    exact got ▸ blank

theorem newMapped_large_div (huge : flags.hugePage = true) (dvd : levelCount 1 ∣ frame) :
    newMapped frame flags 1 / pageSize =
      if flags.cacheType = .writeCombine then frame + 1 else frame := by
  split
  case isTrue combine =>
    rw [newMapped_writeCombine_div frame combine one_pos (by simp [huge, hugePage])]
    rw [levelCount_one] at dvd
    obtain ⟨block, rfl⟩ := dvd
    rw [show 512 * block = 2 ^ 9 * block from rfl,
      ← two_pow_add_eq_or_of_lt (by decide : 1 < 2 ^ 9)]
  case isFalse ordinary => exact (newMapped_div_mod frame (by simp [ordinary])).1

theorem Synced.written (synced : Synced mem root cursor) (wf : WellFormed mem root)
    (get : cursor.lock.get = some table) (clone : cursor.lock.cloneCurrent mem = .ok cloned)
    (word : Nat) : WellFormed cloned root ∧ cloned.TableAt root cursor.page cursor.level table ∧
      Synced (cloned.write table cursor.index word) root cursor := by
  have same := cloneCurrent_same clone
  have wfCloned := wf.same same
  obtain ⟨locked, base, index⟩ := synced
  obtain ⟨found, got, -, visitedBefore⟩ := locked.toPath.get
  rw [get] at got
  cases got
  have visited : cloned.TableAt root cursor.page cursor.level table := by
    rw [PageMemory.TableAt, same.store]
    exact visitedBefore
  refine ⟨wfCloned, visited, ?_, base, index⟩
  rw [index]
  exact (locked.same same).write wfCloned visited word

theorem Synced.write_leaf (synced : Synced mem root cursor) (wf : WellFormed mem root)
    (here : Canonical cursor.page) (get : cursor.lock.get = some table)
    (clone : cursor.lock.cloneCurrent mem = .ok cloned) (present : isPresent word = true)
    (leaf : cursor.level = 0 ∨ isHuge word cursor.level = true) :
    WellFormed (cloned.write table cursor.index word) root ∧
      (∀ page, Canonical page →
        page / levelCount cursor.level = cursor.page / levelCount cursor.level →
          (cloned.write table cursor.index word).lookup root page = some (cursor.level, word)) ∧
      ∀ page, Canonical page →
        page / levelCount cursor.level ≠ cursor.page / levelCount cursor.level →
          (cloned.write table cursor.index word).lookup root page = mem.lookup root page := by
  obtain ⟨wfCloned, visited, -⟩ := synced.written wf get clone word
  rw [synced.index_eq]
  refine ⟨wfCloned.write visited fun _ => leaf, fun page there block => ?_,
    fun page there block => ?_⟩
  · exact lookup_write_leaf wfCloned visited
      ((under_iff here there synced.locked.level_le).mpr block) (view_leaf present leaf)
  · rw [lookup_write_away wfCloned visited
        (mt (under_iff here there synced.locked.level_le).mp block),
      (cloneCurrent_same clone).lookup]

section Rounds

variable (progress : Progress before root start pageEnd frame flags cursor mem)
include progress

theorem Progress.data_extends (extends' : Extends mem mem') (noHuge : flags.hugePage = false)
    (page : Nat)
    (low : start ≤ page) (high : page < pageEnd) :
    frame + (page - start) ∉ mem'.pool ∧ mem'.refcount (frame + (page - start)) = 0 := by
  obtain ⟨outside, dead⟩ := progress.data noHuge page low high
  exact ⟨fun member => outside (extends'.pool _ member), extends'.dead _ outside dead⟩

theorem Progress.old_moved {index : Nat} {newTable : Option Nat}
    (get : cursor.lock.get = some table) (position : index = cursor.index)
    (present : isPresent (mem.entries table cursor.index) = true) (above : cursor.level ≠ 0)
    (pushed : cursor.lock.push index newTable mem = .ok (some lock, mem')) :
    start < cursor.page ∧ 0 < cursor.index := by
  obtain ⟨level, found, levelEq, got, -, notHuge, -⟩ := push_eq pushed
  rw [get] at got
  cases got
  obtain ⟨locked, -, entry⟩ := progress.synced
  rw [locked.level_eq] at levelEq
  injection levelEq with levelEq
  rcases progress.entry with moved | stops
  · exact moved
  · rcases stops table get with zero | absent | huge
    · exact absurd zero above
    · rw [← entry, present] at absent
      cases absent
    · rw [← entry, levelEq, ← position, notHuge] at huge
      cases huge

theorem Progress.old_not_ok (near : pageEnd ≤ start + 2 * levelCount 1)
    (inside : cursor.page < pageEnd)
    (get : cursor.lock.get = some table)
    (present : isPresent (mem.entries table cursor.index) = true)
    (small : cursor.useHuge pageEnd = false) (above : cursor.level ≠ 0)
    (pushed : cursor.lock.push cursor.index none mem = .ok (some lock, mem')) :
    mapLoop pageEnd flags rounds { cursor with lock := lock } mem' ≠
      .ok (.ok (), result, final) := by
  have moved := progress.old_moved get rfl present above pushed
  obtain ⟨level, found, levelEq, -, -, -, -, lockEq, -⟩ := push_eq pushed
  obtain ⟨locked, base, index⟩ := progress.synced
  rw [locked.level_eq] at levelEq
  injection levelEq with levelEq
  have pageDvd := progress.aligned moved.1
  rw [levelEq] at pageDvd
  have newBase : lock.base = cursor.page := by
    rw [lockEq]
    exact (progress.synced.push_base levelEq).trans (levelMask_of_dvd pageDvd)
  have stale : MapCursor.Stale pageEnd level { cursor with lock := lock } :=
    { level_eq := by rw [lockEq]
      above := above
      small := small
      index_pos := moved.2
      index_lt := index ▸ entryIndex_lt _ _
      base_dvd := newBase ▸ pageDvd
      page_le := le_of_eq newBase.symm
      page_dvd := dvd_trans (levelCount_dvd (Nat.le_add_left 1 level)) pageDvd
      inside := inside
      near := by
        show pageEnd < cursor.page + 2 * levelCount 1
        omega }
  exact stale.not_ok

theorem Progress.new (presentFlag : flags.present = true) (get : cursor.lock.get = some table)
    (absent : isPresent (mem.entries table cursor.index) = false)
    (clone : cursor.lock.cloneCurrent mem = .ok cloned) (small : cursor.useHuge pageEnd = false)
    (above : cursor.level ≠ 0) (allocated : cloned.allocTable = some (child, fresh))
    (pushed : cursor.lock.push cursor.index (some child) (fresh.write table cursor.index (newMapped
      child { flags with hugePage := false, cacheType := .writeBack } cursor.level)) =
      .ok (some lock, mem'))
    (level_eq : lock.level = some level) :
    Progress before root start pageEnd frame flags
      { cursor with
        lock := lock
        base := lock.base
        level := level
        index := entryIndex cursor.page level } mem' := by
  have extends' : Extends mem mem' :=
    (MapCursor.Round.new get absent clone small above allocated pushed level_eq).extends
  have same := cloneCurrent_same clone
  have synced := progress.synced
  obtain ⟨present, notHuge, target⟩ := newMapped_table child flags cursor.level
  have syncedCloned : Synced cloned root cursor :=
    ⟨synced.locked.same same, synced.base_eq, synced.index_eq⟩
  obtain ⟨levelEq, wf, locked, lookup, blank⟩ := syncedCloned.enter (progress.wf.same same) get
    (by rw [same.entries]; exact absent) allocated (present.trans presentFlag) notHuge target
    pushed level_eq
  have walks : ∀ page, mem'.lookup root page = mem.lookup root page :=
    fun page => (lookup page).trans (same.lookup root page)
  exact
    { wf := wf
      synced := ⟨locked, rfl, rfl⟩
      le_page := progress.le_page
      page_le := progress.page_le
      frame_eq := progress.frame_eq
      data := progress.data_extends extends'
      done := by
        intro page low high
        obtain ⟨leafLevel, first, found, right⟩ := progress.done page low high
        exact ⟨leafLevel, first, (walks page).trans found, right⟩
      rest := fun page canonical outside =>
        (walks page).trans (progress.rest page canonical outside)
      aligned := by
        intro moved
        have dvd := progress.aligned moved
        rw [levelEq] at dvd
        exact dvd_trans (levelCount_dvd (le_succ level)) dvd
      first := fun atStart _ => progress.first atStart above
      small := by
        intro last large
        -- One level up the same conditions would have made a large leaf.
        subst last
        have huge : cursor.useHuge pageEnd = true := by
          rw [useHuge_iff synced, levelEq, progress.frame_eq]
          exact ⟨large.2.1, large.2.2, rfl⟩
        rw [small] at huge
        cases huge
      entry := by
        refine .inr fun found got => .inr (.inl ?_)
        rw [blank found got]
        decide }

theorem Progress.leaf {climbed : MapCursor}
    (canonical : ∀ page, start ≤ page → page < pageEnd → Canonical page)
    (presentFlag : flags.present = true) (get : cursor.lock.get = some table)
    (absent : isPresent (mem.entries table cursor.index) = false)
    (clone : cursor.lock.cloneCurrent mem = .ok cloned)
    (climb : climb maxPageTableLevels cursor (cloned.write table cursor.index (newMapped
      cursor.frame flags cursor.level)) = .ok (.ok climbed, mem'))
    (dvd : levelCount cursor.level ∣ cursor.page)
    (fits : cursor.page + levelCount cursor.level ≤ pageEnd)
    (leaf : cursor.level = 0 ∨ cursor.level = 1 ∧ WritesLarge before root start pageEnd frame
      cursor.page ∧ flags.hugePage = true) :
    climbed.page = cursor.page ∧ Progress before root start pageEnd frame flags
      { climbed with
        index := climbed.index + 1
        page := climbed.page + levelCount cursor.level
        frame := climbed.frame + levelCount cursor.level } mem' := by
  have positive := levelCount_pos cursor.level
  have lePage := progress.le_page
  have same := cloneCurrent_same clone
  have present : isPresent (newMapped cursor.frame flags cursor.level) = true :=
    (isPresent_newMapped _ _ _).trans presentFlag
  have isLeaf : cursor.level = 0 ∨
      isHuge (newMapped cursor.frame flags cursor.level) cursor.level = true := by
    rcases leaf with last | ⟨level, -, huge⟩
    · exact .inl last
    · right
      rw [isHuge_newMapped, level, huge]
      rfl
  have here := canonical _ lePage (by omega)
  obtain ⟨-, -, synced⟩ :=
    progress.synced.written progress.wf get clone (newMapped cursor.frame flags cursor.level)
  obtain ⟨wfWritten, under, apart⟩ :=
    progress.synced.write_leaf progress.wf here get clone present isLeaf
  obtain ⟨word, wordEq⟩ : ∃ word, newMapped cursor.frame flags cursor.level = word := ⟨_, rfl⟩
  rw [wordEq] at synced climb wfWritten under apart
  have nextBlock : (cursor.page + levelCount cursor.level) / levelCount cursor.level =
      cursor.page / levelCount cursor.level + 1 := add_div_right _ positive
  obtain ⟨pageEq, frameEq, -, nextDvd, syncedNext⟩ :=
    climb_next synced nextBlock (dvd_add dvd (dvd_refl _)) climb
  have sameClimb := climb_same climb
  have written : ∀ page, Canonical page → cursor.page ≤ page →
      page < cursor.page + levelCount cursor.level →
        mem'.lookup root page = some (cursor.level, word) := by
    intro page there low high
    rw [sameClimb.lookup]
    exact under page there ((div_eq_iff_of_dvd positive dvd).mpr ⟨low, high⟩)
  have away : ∀ page, Canonical page →
      ¬(cursor.page ≤ page ∧ page < cursor.page + levelCount cursor.level) →
        mem'.lookup root page = mem.lookup root page := by
    intro page there outside
    rw [sameClimb.lookup]
    exact apart page there (mt (div_eq_iff_of_dvd positive dvd).mp outside)
  have extends' : Extends mem mem' := by
    rw [← same.entries] at absent
    exact same.extends.trans ((write_extends word absent).trans sameClimb.extends)
  refine ⟨pageEq, ?_⟩
  refine
    { wf := wfWritten.same sameClimb
      synced := syncedNext
      le_page := ?_
      page_le := ?_
      frame_eq := ?_
      data := progress.data_extends extends'
      done := ?_
      rest := ?_
      aligned := fun _ => ?_
      first := ?_
      small := ?_
      entry := ?_ } <;> dsimp only <;> rw [pageEq]
  · omega
  · exact fits
  · rw [frameEq, progress.frame_eq]
    omega
  · intro page low high
    by_cases before : page < cursor.page
    · obtain ⟨level, first, walk, right⟩ := progress.done page low before
      refine ⟨level, first, ?_, right⟩
      rw [away page (canonical page low (by omega)) (by omega)]
      exact walk
    · rw [not_lt] at before
      refine ⟨cursor.level, cursor.page, ?_, lePage, before, high, dvd, ?_⟩
      · rw [written page (canonical page low (by omega)) before high, ← wordEq, progress.frame_eq]
      · rcases leaf with last | large
        · exact .inl ⟨last, progress.small last⟩
        · exact .inr large
  · intro page there outside
    rw [away page there (by omega)]
    exact progress.rest page there (by omega)
  · exact nextDvd
  · intro atStart
    omega
  · intro last large
    have index : climbed.index + 1 = (cursor.page + levelCount cursor.level) % levelCount 1 := by
      have position := syncedNext.index_eq
      dsimp only at position
      rw [position, last, entryIndex, levelCount_zero, Nat.div_one, pageEq, levelCount_one]
      rfl
    rcases large.1 with ⟨atStart, -⟩ | ⟨-, largeDvd⟩
    · omega
    · rw [mod_eq_zero_of_dvd largeDvd] at index
      omega
  · exact .inl ⟨by omega, succ_pos _⟩

theorem Progress.large (near : pageEnd ≤ start + 2 * levelCount 1)
    (huge : cursor.useHuge pageEnd = true) :
    cursor.level = 1 ∧ cursor.page + levelCount 1 ≤ pageEnd ∧
      WritesLarge before root start pageEnd frame cursor.page := by
  have one := levelCount_one
  have lePage := progress.le_page
  have conditions := (useHuge_iff progress.synced).mp huge
  have level : cursor.level = 1 := by
    by_contra other
    have second : cursor.level = 2 := by
      have allowed := conditions.2.2
      unfold hugePage at allowed
      split at allowed
      · contradiction
      · assumption
      · cases allowed
    rw [second, levelCount_two] at conditions
    omega
  rw [level, progress.frame_eq] at conditions
  obtain ⟨frameDvd, fits, -⟩ := conditions
  refine ⟨level, by omega, ⟨?_, frameDvd, fits⟩⟩
  rcases Nat.eq_or_lt_of_le lePage with atStart | moved
  · exact .inl ⟨atStart.symm, progress.first atStart.symm (by omega)⟩
  · have dvd := progress.aligned moved
    rw [level] at dvd
    exact .inr ⟨moved, dvd⟩

theorem Progress.wrong (inside : cursor.page < pageEnd) (presentFlag : flags.present = true)
    (get : cursor.lock.get = some table) (clone : cursor.lock.cloneCurrent mem = .ok cloned)
    (level : cursor.level = 1) (frameDvd : levelCount 1 ∣ cursor.frame)
    (bad : ¬LargeOk flags cursor.page)
    (later : Extends (cloned.write table cursor.index (newMapped cursor.frame flags cursor.level))
      final) : ¬MapsTo final root cursor.page cursor.frame := by
  set word := newMapped cursor.frame flags cursor.level with wordEq
  have same := cloneCurrent_same clone
  have one := levelCount_one
  obtain ⟨wf, visited, synced⟩ :=
    progress.synced.written progress.wf get clone word
  obtain ⟨found, got, -, visitedWritten⟩ := synced.locked.toPath.get
  rw [get] at got
  cases got
  have present : isPresent word = true :=
    (isPresent_newMapped _ _ _).trans presentFlag
  have entry : (cloned.write table cursor.index word).entries
      table (entryIndex cursor.page cursor.level) = word := by
    rw [progress.synced.index_eq]
    simp [write]
  have hugeBit : isHuge word cursor.level =
      flags.hugePage := by
    rw [wordEq, isHuge_newMapped, level]
    simp [hugePage]
  -- The frame of the block is no table, so a leaf without the large flag leads nowhere.
  have dead : flags.hugePage = false →
      word / pageSize ∉ cloned.pool ∧
        cloned.refcount (word / pageSize) = 0 := by
    intro noHuge
    obtain ⟨outside, unreferenced⟩ :=
      progress.data_extends same.extends noHuge cursor.page progress.le_page inside
    rw [wordEq, (newMapped_div_mod cursor.frame (by simp [noHuge])).1, progress.frame_eq]
    exact ⟨outside, unreferenced⟩
  have settled : Settled (cloned.write table cursor.index
      word) root cursor.page := by
    refine ⟨cursor.level, table, visitedWritten, ?_, .inr ?_⟩
    · rw [entry]
      exact present
    · rw [entry, hugeBit]
      cases noHuge : flags.hugePage with
      | true => exact .inl rfl
      | false => exact .inr (dead noHuge)
  have kept := later.lookup wf.live wf.pool_dead settled
  rw [progress.synced.index_eq] at kept
  have under : Under cursor.page cursor.level cursor.page := fun _ _ _ => rfl
  rintro ⟨leafLevel, leaf, walk, address⟩
  rw [kept] at walk
  cases noHuge : flags.hugePage with
  | false =>
    have empty : cloned.view cursor.level word = .empty := by
      have inner : ¬(cursor.level = 0 ∨
          isHuge word cursor.level = true) := by
        rw [hugeBit, noHuge, level]
        decide
      rw [view, if_pos present, if_neg inner, if_pos (dead noHuge).2]
    rw [lookup_write_empty wf visited under empty] at walk
    cases walk
  | true =>
    have value : cloned.view cursor.level word = .value :=
      view_leaf present (.inr (hugeBit.trans noHuge))
    rw [lookup_write_leaf wf visited under value] at walk
    cases walk
    rw [wordEq, level, newMapped_large_div noHuge frameDvd, one] at address
    split at address
    case isTrue => omega
    case isFalse combine =>
      apply bad
      refine ⟨?_, noHuge, combine⟩
      rw [one]
      omega

end Rounds

/-- The run comes to a large leaf that is due where none can stand, or without the large flag. -/
inductive Misplaces (before : PageMemory) (root start pageEnd frame : Nat) (flags : PageFlags)
    (final : PageMemory) : Prop
  | mk {cursor climbed : MapCursor} {mem cloned mem' : PageMemory} {table rounds : Nat}
      {result : PageLock} (progress : Progress before root start pageEnd frame flags cursor mem)
      (inside : cursor.page < pageEnd) (level : cursor.level = 1)
      (large : WritesLarge before root start pageEnd frame cursor.page)
      (wrong : ¬(levelCount 1 ∣ cursor.page ∧ flags.hugePage = true))
      (get : cursor.lock.get = some table)
      (clone : cursor.lock.cloneCurrent mem = .ok cloned)
      (climb : climb maxPageTableLevels cursor (cloned.write table cursor.index
        (newMapped cursor.frame flags cursor.level)) = .ok (.ok climbed, mem'))
      (rest : mapLoop pageEnd flags rounds
        { climbed with
          index := climbed.index + 1
          page := climbed.page + levelCount cursor.level
          frame := climbed.frame + levelCount cursor.level } mem' = .ok (.ok (), result, final))

theorem Progress.leaves (progress : Progress before root start pageEnd frame flags cursor mem)
    (near : pageEnd ≤ start + 2 * levelCount 1)
    (canonical : ∀ page, start ≤ page → page < pageEnd → Canonical page)
    (presentFlag : flags.present = true)
    (ok : mapLoop pageEnd flags rounds cursor mem = .ok (.ok (), result, final)) :
    ((∀ page, cursor.page ≤ page → page < pageEnd →
          WritesLarge before root start pageEnd frame page →
            levelCount 1 ∣ page ∧ flags.hugePage = true) ∧
        WellFormed final root ∧
        (∀ page, start ≤ page → page < pageEnd →
          Written before root start pageEnd frame flags final page) ∧
        ∀ page, Canonical page → ¬(start ≤ page ∧ page < pageEnd) →
          final.lookup root page = before.lookup root page) ∨
      Misplaces before root start pageEnd frame flags final := by
  induction rounds generalizing cursor mem with
  | zero => cases ok
  | succ rounds ih =>
    rcases mapLoop_ok ok with
      ⟨done, -, rfl⟩ | ⟨left, next, memory, count, inside, stepped, rest⟩
    · have pageEq := le_antisymm progress.page_le done
      refine .inl ⟨fun page low high => absurd high (by omega), progress.wf, ?_, ?_⟩
      · exact fun page low high => progress.done page low (pageEq ▸ high)
      · rw [← pageEq]
        exact progress.rest
    cases count
    cases (step_round stepped).2 with
    | old get present small above pushed =>
      exact absurd rest (progress.old_not_ok near inside get present small above pushed)
    | new get absent clone small above allocated pushed level_eq =>
      have next := progress.new presentFlag get absent clone small above allocated pushed level_eq
      have outcome := ih next rest
      exact outcome
    | @leaf table cloned _ climbed get absent clone leaf climb =>
      rcases leaf with huge | ⟨-, last⟩
      · obtain ⟨level, fits, large⟩ := progress.large near huge
        by_cases right : levelCount 1 ∣ cursor.page ∧ flags.hugePage = true
        · obtain ⟨pageEq, next⟩ := progress.leaf canonical presentFlag get absent clone climb
            (level ▸ right.1) (level ▸ fits) (.inr ⟨level, large, right.2⟩)
          rcases ih next rest with ⟨rightLater, mapped⟩ | wrong
          · refine .inl ⟨fun page low high due => ?_, mapped⟩
            rw [pageEq, level] at rightLater
            by_cases later : cursor.page + levelCount 1 ≤ page
            · exact rightLater page later high due
            · -- Between two large blocks no large leaf is due.
              obtain rfl : page = cursor.page := by
                have here := right.1
                have lePage := progress.le_page
                rcases due.1 with ⟨rfl, -⟩ | ⟨-, there⟩
                · omega
                · rw [levelCount_one] at here there later
                  omega
              exact right
          · exact .inr wrong
        · exact .inr (.mk progress inside level large right get clone climb rest)
      · have unit : levelCount cursor.level = 1 := by rw [last, levelCount_zero]
        obtain ⟨pageEq, next⟩ := progress.leaf canonical presentFlag get absent clone climb
          (unit ▸ one_dvd _) (unit ▸ inside) (.inl last)
        rcases ih next rest with ⟨rightLater, mapped⟩ | wrong
        · refine .inl ⟨fun page low high due => ?_, mapped⟩
          rw [pageEq, unit] at rightLater
          rcases Nat.eq_or_lt_of_le low with rfl | later
          · exact absurd due (progress.small last)
          · exact rightLater page later high due
        · exact .inr wrong

section Large

variable {page : Nat} {final : PageMemory}

section

variable (written : Written before root start pageEnd frame flags final page)
include written

theorem Written.large (due : WritesLarge before root start pageEnd frame page) :
    final.lookup root page = some (1, newMapped (frame + (page - start)) flags 1) ∧
      flags.hugePage = true := by
  obtain ⟨level, first, walk, low, before, after, dvd, small | ⟨rfl, large, huge⟩⟩ := written
  · obtain ⟨rfl, none⟩ := small
    rw [levelCount_zero] at after
    obtain rfl : first = page := by omega
    exact absurd due none
  · obtain rfl : first = page := by
      rcases due.1 with ⟨rfl, -⟩ | ⟨-, pageDvd⟩
      · omega
      · rw [levelCount_one] at dvd pageDvd after
        omega
    exact ⟨walk, huge⟩

theorem Written.maps
    (ordinary : ∀ first, start ≤ first → first ≤ page → WritesLarge before root start pageEnd frame
      first → flags.cacheType ≠ .writeCombine) :
    Maps final root page (frame + (page - start)) flags := by
  obtain ⟨level, first, walk, low, before, after, dvd, kind⟩ := written
  have usual : ¬(flags.cacheType = .writeCombine ∧ 0 < level ∧
      (flags.hugePage && hugePage level) = true) := by
    rcases kind with ⟨rfl, -⟩ | ⟨rfl, large, -⟩
    · exact fun combine => absurd combine.2.1 (lt_irrefl 0)
    · exact fun combine => ordinary first low before large combine.1
  obtain ⟨wordFrame, wordFlags⟩ := newMapped_div_mod (frame + (first - start)) usual
  refine ⟨level, _, walk, ?_, wordFlags⟩
  obtain ⟨block, rfl⟩ := dvd
  have offset : page % levelCount level = page - levelCount level * block := by
    rw [show page = levelCount level * block + (page - levelCount level * block) by omega,
      mul_add_mod, mod_eq_of_lt (by omega)]
    omega
  rw [wordFrame, offset]
  omega

theorem Written.combine (due : WritesLarge before root start pageEnd frame page)
    (combine : flags.cacheType = .writeCombine) :
    ¬MapsTo final root page (frame + (page - start)) := by
  obtain ⟨walk, huge⟩ := written.large due
  rintro ⟨level, word, walk', address⟩
  rw [walk] at walk'
  cases walk'
  rw [newMapped_large_div huge due.2.1, if_pos combine] at address
  omega

end

theorem Misplaces.unmapped (misplaces : Misplaces before root start pageEnd frame flags final)
    (presentFlag : flags.present = true) :
    ∃ page, start ≤ page ∧ page < pageEnd ∧ WritesLarge before root start pageEnd frame page ∧
      ¬LargeOk flags page ∧ ¬MapsTo final root page (frame + (page - start)) := by
  obtain ⟨progress, inside, level, large, wrong, get, clone, climb, rest⟩ := misplaces
  have bad : ¬LargeOk flags _ := fun right => wrong ⟨right.1, right.2.1⟩
  refine ⟨_, progress.le_page, inside, large, bad, ?_⟩
  have frameDvd := large.2.1
  have later := (climb_same climb).extends.trans (mapLoop_extends rest)
  rw [← progress.frame_eq] at frameDvd ⊢
  exact progress.wrong inside presentFlag get clone level frameDvd bad later

theorem Progress.outcome (progress : Progress before root start pageEnd frame flags cursor mem)
    (atStart : cursor.page = start) (near : pageEnd ≤ start + 2 * levelCount 1)
    (canonical : ∀ page, start ≤ page → page < pageEnd → Canonical page)
    (presentFlag : flags.present = true)
    (ok : mapLoop pageEnd flags rounds cursor mem = .ok (.ok (), result, final)) :
    ((∀ page, start ≤ page → page < pageEnd →
          WritesLarge before root start pageEnd frame page → LargeOk flags page) ∧
        WellFormed final root ∧
        (∀ page, start ≤ page → page < pageEnd →
          Maps final root page (frame + (page - start)) flags) ∧
        ∀ page, Canonical page → ¬(start ≤ page ∧ page < pageEnd) →
          final.lookup root page = before.lookup root page) ∨
      ∃ page, start ≤ page ∧ page < pageEnd ∧ WritesLarge before root start pageEnd frame page ∧
        ¬LargeOk flags page ∧ ¬MapsTo final root page (frame + (page - start)) := by
  rcases progress.leaves near canonical presentFlag ok with
    ⟨placed, wf, written, unchanged⟩ | misplaces
  · rw [atStart] at placed
    by_cases combined : flags.cacheType = .writeCombine ∧
        ∃ page, start ≤ page ∧ page < pageEnd ∧ WritesLarge before root start pageEnd frame page
    · obtain ⟨combine, page, low, high, due⟩ := combined
      exact .inr ⟨page, low, high, due, fun right => right.2.2 combine,
        (written page low high).combine due combine⟩
    · have ordinary : ∀ page, start ≤ page → page < pageEnd →
          WritesLarge before root start pageEnd frame page → flags.cacheType ≠ .writeCombine :=
        fun page low high due combine => combined ⟨combine, page, low, high, due⟩
      refine .inl ⟨fun page low high due => ?_, wf, fun page low high => ?_, unchanged⟩
      · obtain ⟨pageDvd, huge⟩ := placed page low high due
        exact ⟨pageDvd, huge, ordinary page low high due⟩
      · exact (written page low high).maps fun first low' before =>
          ordinary first low' (lt_of_le_of_lt before high)
  · exact .inr (misplaces.unmapped presentFlag)

end Large

end Loop

end Horizon.Paging
