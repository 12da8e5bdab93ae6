import Horizon.Verif.VmemmapScan
import Horizon.Verif.FrameMeta

/-!
# Assigning and restoring fixed frames

Which ranges `assign` refuses is decided by the pages its search goes through. The search takes the
number of a vmemmap page for the number of its first frame. An accepted range loses the tags of all
its frames but the first, and the drop writes back one tag for the whole range.
-/

namespace Horizon.Memory

open Paging Runs UniqueFrames Vmemmap Nat

/-- A call of `assign` with the memory it finds. -/
structure Attempt where
  space : AddressSpace
  buddy : BuddyState
  mappedPages : Nat
  start : Nat
  order : Nat
  order_le : order ≤ maxOrder

namespace Attempt

variable (a : Attempt)

def state : FrameMemory := ⟨a.buddy, a.space.mem, a.mappedPages⟩

def stop : Nat := a.start + toCount a.order

def firstPage : Nat := (metadataRange a.start a.order).1

def lastPage : Nat := (metadataRange a.start a.order).2

def run (rounds : Nat) : Except Fault (Except MemoryError UniqueFrames × FrameMemory) :=
  assign a.space.root rounds a.start a.order a.state

/-- All pages of `metadata_range` are mapped. -/
def Mapped : Prop :=
  ∀ page, a.firstPage ≤ page → page < a.lastPage → leafStart a.space page ≠ none

variable {a}

theorem firstPage_lt : a.firstPage < a.lastPage :=
  Nat.lt_add_of_pos_right (Nat.two_pow_pos a.order)

theorem lastPage_le (inside : a.start < vmemmapFrames) :
    a.lastPage ≤ (a.firstPage / 2 ^ 36 + 1) * 2 ^ 36 := by
  have count : toCount a.order ≤ 2 ^ 10 := Nat.pow_le_pow_right (by decide) a.order_le
  have frames : vmemmapFrames = 2 ^ 36 := by decide
  simp only [lastPage, firstPage, metadataRange, vmemmapBase, frameRecordSize, pageSize] at *
  omega

theorem searched (inside : a.start < vmemmapFrames) :
    ∃ level iter steps final, PageTableIter.Yields a.space level iter steps ∧
      PageTableIter.new a.space.mem a.space.root a.firstPage a.lastPage =
        .ok (some iter, a.space.mem.hold (iter.heldBy level)) ∧
      Follows a.space a.lastPage (iter.place level) steps final ∧ a.lastPage ≤ final ∧
      iter.place level ≤ a.firstPage ∧
      a.firstPage < iter.place level + levelCount (a.space.walk (iter.place level)).level := by
  obtain ⟨level, iter, standing, stop, low, high, walked, window, new⟩ :=
    PageTableIter.new_standing a.space a.firstPage a.lastPage
  obtain ⟨steps, final, yields, follows, reach⟩ := standing.follows
  have span := lastPage_le inside
  rw [stop] at follows reach
  refine ⟨level, iter, steps, final, yields, new, follows, ?_, low, walked.symm ▸ high⟩
  rcases reach with past | last
  · exact past
  · rw [last, PageTableIter.windowEnd, window]
    exact span

end Attempt

section Mapping

variable {root start order : Nat} {s s' : FrameMemory}

variable {result : Except MemoryError Unit}

theorem mapVmemmapPage_counts {page : Nat}
    (mapped : mapVmemmapPage root page s = .ok (result, s')) : match result with
    | .ok () => s'.mappedPages = s.mappedPages + 1
    | .error error => error ≠ .conflict ∧ s'.mappedPages = s.mappedPages := by
  obtain ⟨⟨frames, buddy⟩, -, rest⟩ := bind_eq_ok.mp mapped
  cases frames with
  | none =>
    cases rest
    exact ⟨by decide, rfl⟩
  | some frames =>
    obtain ⟨⟨outcome, tables⟩, -, rest⟩ := bind_eq_ok.mp rest
    cases outcome with
    | error error =>
      cases rest
      exact ⟨by simp, rfl⟩
    | ok done =>
      cases rest
      rfl

theorem ensureMapped_counts {calls rounds : Nat}
    (ensured : ensureMapped root start order calls rounds s = .ok (result, s')) :
    s.mappedPages ≤ s'.mappedPages := by
  induction rounds generalizing s with
  | zero => cases ensured
  | succ rounds ih =>
    obtain ⟨⟨iter, tables⟩, -, rest⟩ := bind_eq_ok.mp ensured
    cases iter with
    | none =>
      cases rest
      exact le_refl _
    | some iter =>
      obtain ⟨⟨found, searched⟩, -, rest⟩ := bind_eq_ok.mp rest
      cases found with
      | none =>
        cases rest
        exact le_refl _
      | some page =>
        obtain ⟨⟨outcome, after⟩, mapped, rest⟩ := bind_eq_ok.mp rest
        have counts := mapVmemmapPage_counts mapped
        cases outcome with
        | error error =>
          cases rest
          exact counts.2.ge
        | ok done =>
          have later := ih rest
          have counted : after.mappedPages = s.mappedPages + 1 := counts
          omega

end Mapping

theorem conflictCheck_kept {root rounds start order : Nat} {s s' : FrameMemory} {found : Bool}
    (checked : conflictCheck root rounds start order s = .ok (found, s')) :
    s'.buddy = s.buddy ∧ s'.mappedPages = s.mappedPages := by
  obtain ⟨⟨iter, tables⟩, -, rest⟩ := bind_eq_ok.mp checked
  cases iter with
  | none =>
    cases rest
    exact ⟨rfl, rfl⟩
  | some iter =>
    obtain ⟨⟨found, searched⟩, -, rest⟩ := bind_eq_ok.mp rest
    cases rest
    exact ⟨rfl, rfl⟩

namespace Attempt

variable {a : Attempt}

theorem ensureMapped_of_mapped (inside : a.start < vmemmapFrames) (mapped : a.Mapped) :
    ∃ bound, ∀ calls rounds, bound ≤ calls → bound ≤ rounds →
      ensureMapped a.space.root a.start a.order calls rounds a.state = .ok (.ok (), a.state) := by
  obtain ⟨level, iter, steps, final, yields, new, follows, reach, low, meets⟩ := searched inside
  obtain ⟨found, search, found_iff, -⟩ := absent_search follows reach firstPage_lt meets
  have nothing : found = none := by
    rw [found_iff, max_eq_left low]
    exact mapped
  refine ⟨iter.callsLeft level + 1, fun calls rounds enough more => ?_⟩
  obtain ⟨rounds, rfl⟩ := exists_eq_succ_of_ne_zero (Nat.ne_zero_of_lt more)
  have opened : PageTableIter.new a.state.tables a.space.root (metadataRange a.start a.order).1
      (metadataRange a.start a.order).2 = _ := new
  rw [ensureMapped]
  simp only [opened, onPages, Except.mapError, ok_bind, searchSteps_eq absentPage yields
    enough, search, nothing, Except.map, pure_ok]
  rfl

variable {result : Except MemoryError Unit} {after : FrameMemory} {calls page rounds : Nat}

/-- One round: all pages are mapped, or the first absent one is. -/
theorem ensureMapped_search (inside : a.start < vmemmapFrames)
    (ensured : ensureMapped a.space.root a.start a.order calls rounds a.state =
      .ok (result, after)) :
    a.Mapped ∧ result = .ok () ∧ after = a.state ∨
      ¬ a.Mapped ∧ ∃ page more outcome mid, more < rounds ∧
        AbsentEntry a.firstPage a.lastPage page ∧
        mapVmemmapPage a.space.root page a.state = .ok (outcome, mid) ∧
        (match outcome with
          | .error error => result = .error error ∧ after = mid
          | .ok () => ensureMapped a.space.root a.start a.order calls more mid =
              .ok (result, after)) := by
  obtain ⟨level, iter, steps, final, yields, new, follows, reach, low, meets⟩ := searched inside
  obtain ⟨found, search, found_iff, entries⟩ := absent_search follows reach firstPage_lt meets
  rw [max_eq_left low] at found_iff
  have opened : PageTableIter.new a.state.tables a.space.root (metadataRange a.start a.order).1
      (metadataRange a.start a.order).2 = _ := new
  cases rounds with
  | zero => cases ensured
  | succ rounds =>
    obtain ⟨⟨got, tables⟩, opening, rest⟩ := bind_eq_ok.mp ensured
    rw [opened] at opening
    cases opening
    obtain ⟨⟨got, tables⟩, searching, rest⟩ := bind_eq_ok.mp rest
    have same := searchSteps_ok yields searching
    rw [search] at same
    cases same
    cases found with
    | none =>
      cases rest
      exact .inl ⟨found_iff.mp rfl, rfl, rfl⟩
    | some page =>
      obtain ⟨⟨outcome, mid⟩, mapped, rest⟩ := bind_eq_ok.mp rest
      have absent : ¬ a.Mapped := fun all => nomatch found_iff.mpr all
      refine .inr ⟨absent, page, rounds, outcome, mid, lt_succ_self _, entries page rfl, mapped,
        ?_⟩
      cases outcome with
      | error error =>
        cases rest
        exact ⟨rfl, rfl⟩
      | ok done => exact rest

theorem ensureMapped_of_absent (inside : a.start < vmemmapFrames) (absent : ¬ a.Mapped)
    (ensured : ensureMapped a.space.root a.start a.order calls rounds a.state =
      .ok (result, after)) :
    (∃ error, result = .error error ∧ error ≠ .conflict) ∨ a.mappedPages < after.mappedPages := by
  rcases ensureMapped_search inside ensured with
    ⟨mapped, -⟩ | ⟨-, page, more, outcome, mid, -, -, mapping, rest⟩
  · exact absurd mapped absent
  · have counts := mapVmemmapPage_counts mapping
    cases outcome with
    | error error => exact .inl ⟨error, rest.1, counts.1⟩
    | ok done =>
      have later := ensureMapped_counts rest
      have counted : mid.mappedPages = a.mappedPages + 1 := counts
      exact .inr (by omega)

end Attempt

section Taking

variable {start order : Nat} {s s' : FrameMemory}

def assignedFrames (frames : Vmemmap) (start order : Nat) : Vmemmap :=
  setTailFrames
    (frames.replace start .assignedFixed (.assigned order (frames start).tag)) ⟨start, order⟩

theorem assignFrames_ok {result : Except MemoryError UniqueFrames}
    (aligned : start % toCount order = 0)
    (assigned : assignFrames start order s = .ok (result, s')) :
    start < vmemmapFrames ∧ result = .ok ⟨start, order⟩ ∧
      s' = { s with buddy := { s.buddy with
        frames := assignedFrames s.buddy.frames start order } } := by
  have down := alignDown_of_dvd (dvd_of_mod_eq_zero aligned)
  obtain ⟨frame, raw, rest⟩ := bind_eq_ok.mp assigned
  have raw := onFrames_eq_ok.mp raw
  by_cases inside : start < vmemmapFrames
  · rw [getRaw_of_lt inside] at raw
    cases raw
    refine ⟨inside, ?_⟩
    obtain ⟨owned, taken, rest⟩ := bind_eq_ok.mp rest
    have taken := onFrames_eq_ok.mp taken
    have tag : ((s.buddy.replace start .assignedFixed
        (.assigned order (s.buddy.frames start).tag)).frames start).tag = .assignedFixed := by
      simp [BuddyState.replace, replace]
    have owned_eq : owned = some ⟨start, order⟩ := by
      simp only [fromAllocator, down, getRaw_of_lt inside, bind, Except.bind, tag,
        ownable, if_true, pure_ok] at taken
      split at taken
      · cases taken
      · cases taken
        rfl
    subst owned_eq
    obtain ⟨last, -, rest⟩ := bind_eq_ok.mp rest
    cases rest
    exact ⟨rfl, rfl⟩
  · rw [getRaw, if_neg inside] at raw
    cases raw

end Taking

namespace Attempt

variable {a : Attempt}

/-- The tags of blocks in use: free buddy blocks, anonymous and slab blocks, page tables and
assigned blocks. -/
def busyTags : List FrameTag := [.buddy, .anonymous, .slub, .pageTable, .assignedFixed]

def extent : FrameData → Nat
  | .buddy buddy => toCount buddy.order
  | .anonymous order => toCount order
  | .assigned order _ => toCount order
  | _ => 1

/-- A frame is part of the block of a head: the head counts it, or it is a tail that names the
head. -/
def PartOf (frames : Vmemmap) (frame head : Nat) : Prop :=
  (frames head).tag ∈ busyTags ∧
    (head ≤ frame ∧ frame < head + extent (frames head).data ∨
      (frames frame).tag = .tail ∧
        ∃ range, (frames frame).data = .range range ∧ range.start = head)

/-- A frame of the range is part of a block in use. -/
def Overlaps (a : Attempt) : Prop :=
  ∃ frame, a.start ≤ frame ∧ frame < a.stop ∧ frame < vmemmapFrames ∧
    ∃ head, PartOf a.buddy.frames frame head

/-- With enough rounds the call returns `Conflict` and changes nothing. -/
def Refused (a : Attempt) : Prop :=
  ∃ bound, ∀ rounds, bound ≤ rounds → a.run rounds = .ok (.error .conflict, a.state)

theorem Overlaps.start_lt (overlaps : a.Overlaps) : a.start < vmemmapFrames := by
  obtain ⟨frame, low, -, inside, -⟩ := overlaps
  omega

theorem Refused.aligned (refused : a.Refused) : a.start % toCount a.order = 0 := by
  obtain ⟨bound, run⟩ := refused
  by_contra unaligned
  have ran := run bound (le_refl _)
  rw [Attempt.run, assign, if_pos unaligned] at ran
  cases ran

/-- A refused range was mapped. -/
theorem Refused.mapped (refused : a.Refused) (inside : a.start < vmemmapFrames) : a.Mapped := by
  have aligned := refused.aligned
  obtain ⟨bound, run⟩ := refused
  by_contra absent
  have ran := run bound (le_refl _)
  rw [Attempt.run, assign, if_neg (by simp [aligned])] at ran
  obtain ⟨⟨result, mid⟩, ensured, rest⟩ := bind_eq_ok.mp ran
  rcases ensureMapped_of_absent inside absent ensured with ⟨error, rfl, other⟩ | counted
  · cases rest
    exact other rfl
  cases result with
  | error error =>
    cases rest
    exact absurd counted (lt_irrefl _)
  | ok done =>
    obtain ⟨⟨found, after⟩, checking, rest⟩ := bind_eq_ok.mp rest
    have kept := (conflictCheck_kept checking).2
    cases found with
    | true =>
      cases rest
      exact absurd (kept.symm ▸ counted : a.mappedPages < a.state.mappedPages) (lt_irrefl _)
    | false =>
      have taken := (assignFrames_ok aligned rest).2.1
      cases taken

/-- The tags at which `get_order` reports a conflict. -/
def usedTags : List FrameTag := [.free, .anonymous, .buddy, .slub, .assignedFixed, .pageTable]

/-- The tags of memory that is set aside. -/
def reservedTags : List FrameTag := [.hardwareReserved, .systemReserved, .badMemory]

/-- The frame shows that it is in use: by its own tag, or as a tail by the tag of the head it
names. -/
def InUse (frames : Vmemmap) (frame : Nat) : Prop :=
  (frames frame).tag ∈ usedTags ∨ (frames frame).tag = .tail ∧
    ∃ range, (frames frame).data = .range range ∧ (frames range.start).tag ∈ usedTags

/-- The record of a head bounds memory that is set aside: it ends behind the frame, and no frame of
the range before that end shows a use. -/
def SetAside (a : Attempt) (frame head : Nat) : Prop :=
  (a.buddy.frames head).tag ∈ reservedTags ∧
    ∃ range, (a.buddy.frames head).data = .range range ∧ frame < range.stop ∧
      ∀ other, frame ≤ other → other < range.stop → other < a.stop → ¬ InUse a.buddy.frames other

/-- The records of the range say what they should: each is of a frame that shows its use, of a fresh
one or of memory set aside, or is a tail of such a block, whose head has a record. -/
structure Legible (a : Attempt) : Prop where
  heads : ∀ frame range, a.start ≤ frame → frame < a.stop → (a.buddy.frames frame).tag = .tail →
    (a.buddy.frames frame).data = .range range → range.start < vmemmapFrames
  shows : ∀ frame, a.start ≤ frame → frame < a.stop →
    InUse a.buddy.frames frame ∨ (a.buddy.frames frame).tag = .uninited ∨ a.SetAside frame frame ∨
      (a.buddy.frames frame).tag = .tail ∧ ∃ range, (a.buddy.frames frame).data = .range range ∧
        a.SetAside frame range.start

/-- A frame of the range that shows its use lies in the window of 64 frames from the number of a
vmemmap page on, which the check takes for the frames of that page. -/
def Shows (a : Attempt) (leaf : Nat) : Prop :=
  ∃ frame, a.start ≤ frame ∧ frame < a.stop ∧ leaf - vmemmapBasePage ≤ frame ∧
    frame < leaf - vmemmapBasePage + vmapPerPage ∧ InUse a.buddy.frames frame

/-- Such a frame lies in the window of a page of `metadata_range`. -/
def InWindow (a : Attempt) : Prop :=
  ∃ page leaf, a.firstPage ≤ page ∧ page < a.lastPage ∧ leafStart a.space page = some leaf ∧
    a.Shows leaf

theorem stop_le (inside : a.start < vmemmapFrames) (aligned : a.start % toCount a.order = 0) :
    a.stop ≤ vmemmapFrames := by
  obtain ⟨blocks, start_eq⟩ := dvd_of_mod_eq_zero aligned
  have frames : vmemmapFrames = toCount a.order * 2 ^ (36 - a.order) := by
    have le : a.order ≤ 36 := a.order_le.trans (by decide)
    rw [toCount, ← Nat.pow_add, Nat.add_sub_cancel' le]
    decide
  rw [start_eq, frames] at inside
  have less := Nat.lt_of_mul_lt_mul_left inside
  calc a.stop = toCount a.order * (blocks + 1) := by rw [stop, start_eq]; ring
    _ ≤ toCount a.order * 2 ^ (36 - a.order) := Nat.mul_le_mul_left _ less
    _ = vmemmapFrames := frames.symm

section Windows

variable {frames : Vmemmap} {frame head limit rounds : Nat} {range : FrameRange} (depth : Nat)

theorem getOrder_used (inside : head < vmemmapFrames) (tag : (frames head).tag ∈ usedTags) :
    getOrder frames (depth + 1) head = .ok none := by
  simp only [usedTags, List.mem_cons, List.not_mem_nil, or_false] at tag
  rcases tag with tag | tag | tag | tag | tag | tag <;>
    simp only [getOrder, getRaw, if_pos inside, tag, ok_bind, pure_ok]

theorem getOrder_reserved (inside : head < vmemmapFrames) (tag : (frames head).tag ∈ reservedTags)
    (data : (frames head).data = .range range) :
    getOrder frames (depth + 1) head = .ok (some range.stop) := by
  simp only [reservedTags, List.mem_cons, List.not_mem_nil, or_false] at tag
  rcases tag with tag | tag | tag <;>
    simp only [getOrder, getRaw, if_pos inside, tag, data, FrameData.getRange, ok_bind, pure_ok]

theorem getOrder_tail (inside : frame < vmemmapFrames) (tag : (frames frame).tag = .tail)
    (data : (frames frame).data = .range range) :
    getOrder frames (depth + 1) frame = getOrder frames depth range.start := by
  rw [getOrder]
  simp only [getRaw, if_pos inside, tag, data, FrameData.getRange, ok_bind]

variable (legible : a.Legible) (bounded : a.stop ≤ vmemmapFrames)
include legible bounded

/-- A frame that shows its use ends the scan. -/
theorem Legible.stops (low : a.start ≤ frame) (high : frame < a.stop)
    (inUse : InUse a.buddy.frames frame) :
    getOrder a.buddy.frames (depth + 2) frame = .ok none := by
  have inside : frame < vmemmapFrames := high.trans_le bounded
  rcases inUse with tag | ⟨tag, range, data, head⟩
  · exact getOrder_used _ inside tag
  · rw [getOrder_tail _ inside tag data]
    exact getOrder_used _ (legible.heads frame range low high tag data) head

/-- A frame that shows no use is passed, together with frames that show none either. -/
theorem Legible.passes (low : a.start ≤ frame) (high : frame < a.stop)
    (unused : ¬ InUse a.buddy.frames frame) :
    ∃ next, frame < next ∧ getOrder a.buddy.frames (depth + 2) frame = .ok (some next) ∧
      ∀ other, frame ≤ other → other < next → other < a.stop → ¬ InUse a.buddy.frames other := by
  have inside : frame < vmemmapFrames := high.trans_le bounded
  rcases legible.shows frame low high with inUse | fresh | aside | ⟨tag, range, data, aside⟩
  · exact absurd inUse unused
  · refine ⟨frame + 1, lt_succ_self _, ?_, fun other low' high' _ => ?_⟩
    · simp only [getOrder, getRaw, if_pos inside, fresh, ok_bind, pure_ok]
    · have same : other = frame := by omega
      exact same ▸ unused
  · obtain ⟨tag, range, data, less, free⟩ := aside
    exact ⟨range.stop, less, getOrder_reserved _ inside tag data, free⟩
  · obtain ⟨reserved, bounds, dataHead, less, free⟩ := aside
    refine ⟨bounds.stop, less, ?_, free⟩
    rw [getOrder_tail _ inside tag data]
    exact getOrder_reserved _ (legible.heads frame range low high tag data) reserved dataHead

/-- A scan comes to a block in use exactly when a frame it covers shows its use. The induction is on
the rounds, of which there is one for each frame left. -/
theorem Legible.scans (limit_le : limit ≤ a.stop) (low : a.start ≤ frame)
    (enough : limit - frame < rounds) :
    ∃ found, conflictScan a.buddy.frames (depth + 2) limit rounds frame = .ok found ∧
      (found = true ↔ ∃ other, frame ≤ other ∧ other < limit ∧ InUse a.buddy.frames other) := by
  induction rounds generalizing frame with
  | zero => omega
  | succ rounds ih =>
    rw [conflictScan]
    by_cases inside : frame < limit
    · rw [if_pos inside]
      by_cases inUse : InUse a.buddy.frames frame
      · rw [legible.stops depth bounded low (by omega) inUse]
        exact ⟨true, rfl, iff_of_true rfl ⟨frame, le_refl _, inside, inUse⟩⟩
      · obtain ⟨next, less, resolves, free⟩ := legible.passes depth bounded low (by omega) inUse
        obtain ⟨found, scanned, found_iff⟩ := @ih next (by omega) (by omega)
        rw [resolves]
        refine ⟨found, scanned, found_iff.trans ⟨?_, ?_⟩⟩
        · rintro ⟨other, from_, rest⟩
          exact ⟨other, by omega, rest⟩
        · rintro ⟨other, from_, before, used⟩
          refine ⟨other, ?_, before, used⟩
          by_contra passed
          exact free other from_ (by omega) (by omega) used
    · rw [if_neg inside]
      refine ⟨false, rfl, iff_of_false (by simp) fun ⟨other, from_, before, _⟩ => ?_⟩
      omega

/-- With enough rounds the check says whether a frame of the range shows its use inside a window,
and changes nothing. -/
theorem Legible.checks (inside : a.start < vmemmapFrames) (mapped : a.Mapped) :
    ∃ bound, ∀ rounds, bound ≤ rounds → ∃ found,
      conflictCheck a.space.root rounds a.start a.order a.state = .ok (found, a.state) ∧
        (found = true ↔ a.InWindow) := by
  obtain ⟨level, iter, steps, final, yields, new, follows, reach, low, meets⟩ := searched inside
  refine ⟨max (iter.callsLeft level + 1) (a.stop + 2), fun rounds enough => ?_⟩
  have step (leaf frame level : Nat) :
      ∃ found, conflictStep a.buddy.frames rounds a.start a.stop (.leaf leaf frame level) =
        .ok (if found then some () else none) ∧ (found = true ↔ a.Shows leaf) := by
    obtain ⟨depth, rfl⟩ := Nat.exists_eq_add_of_le' (show 2 ≤ rounds by omega)
    obtain ⟨found, scanned, found_iff⟩ := legible.scans depth bounded
      (min_le_left a.stop (leaf - vmemmapBasePage + vmapPerPage))
      (le_max_left a.start (leaf - vmemmapBasePage))
      (show _ < depth + 2 by omega)
    refine ⟨found, ?_, found_iff.trans ⟨?_, ?_⟩⟩
    · simp only [conflictStep, scanned, onFrames, Except.mapError, ok_bind, pure_ok]
    · rintro ⟨other, from_, before, used⟩
      simp only [max_le_iff, lt_min_iff] at from_ before
      exact ⟨other, from_.1, before.1, from_.2, before.2, used⟩
    · rintro ⟨other, first, last, from_, before, used⟩
      exact ⟨other, max_le first from_, lt_min last before, used⟩
  have tables (base frame level : Nat) : conflictStep a.buddy.frames rounds a.start a.stop
      (.table base frame level) = .ok none := rfl
  have hits (leaf frame level : Nat) (shows : a.Shows leaf) : conflictStep a.buddy.frames rounds
      a.start a.stop (.leaf leaf frame level) = .ok (some ()) := by
    obtain ⟨found, stepped, shows_iff⟩ := step leaf frame level
    rw [stepped, shows_iff.mpr shows]
    rfl
  have misses (leaf frame level : Nat) (hidden : ¬ a.Shows leaf) : conflictStep a.buddy.frames
      rounds a.start a.stop (.leaf leaf frame level) = .ok none := by
    obtain ⟨found, stepped, shows_iff⟩ := step leaf frame level
    rw [stepped, eq_false_of_ne_true fun hit => hidden (shows_iff.mp hit)]
    rfl
  obtain ⟨found, search, found_iff⟩ :=
    leaf_search tables hits misses follows reach firstPage_lt meets mapped
  rw [max_eq_left low] at found_iff
  refine ⟨found.isSome, ?_, found_iff⟩
  have opened : PageTableIter.new a.state.tables a.space.root (metadataRange a.start a.order).1
      (metadataRange a.start a.order).2 = _ := new
  have searching := searchSteps_eq (conflictStep a.buddy.frames rounds a.start a.stop) yields
    (show _ < rounds by omega)
  rw [conflictCheck]
  simp only [opened, onPages, Except.mapError, ok_bind]
  rw [show searchSteps
    (conflictStep a.state.buddy.frames rounds a.start (a.start + toCount a.order)) rounds iter
    (a.space.mem.hold (iter.heldBy level)) = _ from searching, search]
  rfl

end Windows

/-- A range is refused without a change exactly when it is aligned, its pages are mapped, and a
frame that shows its use lies in one of the windows. -/
theorem Legible.refused_iff (legible : a.Legible) (inside : a.start < vmemmapFrames) :
    a.Refused ↔ a.start % toCount a.order = 0 ∧ a.Mapped ∧ a.InWindow := by
  have ran_eq (aligned : a.start % toCount a.order = 0) (mapped : a.Mapped) : ∃ bound, ∀ rounds,
      bound ≤ rounds → ∃ found, (found = true ↔ a.InWindow) ∧ a.run rounds =
        if found then .ok (.error .conflict, a.state)
        else assignFrames a.start a.order a.state := by
    obtain ⟨more, ensuring⟩ := ensureMapped_of_mapped inside mapped
    obtain ⟨most, checking⟩ := legible.checks (stop_le inside aligned) inside mapped
    refine ⟨max more most, fun rounds enough => ?_⟩
    obtain ⟨found, checked, found_iff⟩ := checking rounds (by omega)
    refine ⟨found, found_iff, ?_⟩
    rw [Attempt.run, assign, if_neg (by simp [aligned]), ensuring _ _ (by omega) (by omega)]
    cases found with
    | true | false => simp [ok_bind, checked, pure_ok]
  constructor
  · intro refused
    have aligned := refused.aligned
    have mapped := refused.mapped inside
    refine ⟨aligned, mapped, ?_⟩
    obtain ⟨bound, run⟩ := refused
    obtain ⟨more, ran⟩ := ran_eq aligned mapped
    obtain ⟨found, found_iff, same⟩ := ran (max bound more) (by omega)
    rw [run _ (by omega)] at same
    cases found with
    | true => exact found_iff.mp rfl
    | false => cases (assignFrames_ok aligned same.symm).2.1
  · rintro ⟨aligned, mapped, window⟩
    obtain ⟨bound, ran⟩ := ran_eq aligned mapped
    refine ⟨bound, fun rounds enough => ?_⟩
    obtain ⟨found, found_iff, same⟩ := ran rounds enough
    rw [same, found_iff.mpr window]
    rfl

end Attempt

/-- An attempt on a range whose records can be read. -/
structure LegibleAttempt extends Attempt where
  legible : toAttempt.Legible

namespace Attempt

variable {a : Attempt}

def flatTables : PageMemory :=
  ⟨fun table _ => if table < 4 then (table + 1) * 4096 + 1 else 5 * 4096 + 1, fun _ => 1, []⟩

def flatSpace : AddressSpace where
  mem := flatTables
  root := 1
  live := Nat.one_ne_zero
  closed _ _ _ _ _ _ _ := Nat.one_ne_zero

theorem leafStart_flat (page : Nat) : leafStart flatSpace page = some page := by
  have link (table : Nat) (inner : table < 4) (level : Nat) :
      flatTables.walk page (level + 1) table = flatTables.walk page level (table + 1) := by
    have word (index : Nat) : flatTables.entries table index = (table + 1) * 4096 + 1 :=
      if_pos inner
    rw [PageMemory.walk, word]
    interval_cases table <;> rfl
  have walked : flatSpace.walk page = .leaf 5 0 := by
    show flatTables.walk page 3 1 = _
    have word (index : Nat) : flatTables.entries (3 + 1) index = 5 * 4096 + 1 := by
      simp [flatTables]
    rw [link 1 (by decide), link 2 (by decide), link 3 (by decide), PageMemory.walk, word]
    rfl
  rw [leafStart, walked]
  exact congrArg some (levelMask_of_dvd (one_dvd page))

/-- An order-zero range at frame 4096 with the given record there; all other frames are fresh. -/
def singleFrame (record : Frame) : Attempt where
  space := flatSpace
  buddy :=
    { frames := fun frame => if frame = 4096 then record else ⟨0, .unused, .uninited⟩
      freeFrames := fun _ _ => []
      allocatedPages := 0 }
  mappedPages := 0
  start := 4096
  order := 0
  order_le := Nat.zero_le _

/-- The range is a free buddy block. -/
def freeBlock : LegibleAttempt where
  toAttempt := singleFrame ⟨0, .buddy ⟨true, 0, .mem32⟩, .buddy⟩
  legible := by
    have only : ∀ frame, 4096 ≤ frame → frame < 4096 + 2 ^ 0 → frame = 4096 := by omega
    constructor
    · intro frame range low high tag
      rw [only frame low high] at tag
      cases tag
    · intro frame low high
      rw [only frame low high]
      exact .inl (.inl (by decide))

/-- What an accepted call leaves. -/
theorem run_ok {rounds : Nat} {owned : UniqueFrames} {after : FrameMemory}
    (ran : a.run rounds = .ok (.ok owned, after)) : owned = ⟨a.start, a.order⟩ ∧
      ∃ before : Vmemmap, after.buddy.frames = assignedFrames before a.start a.order ∧
        (a.Mapped ∧ before = a.buddy.frames ∧ after.mappedPages = a.mappedPages ∨
          ¬ a.Mapped ∧ a.mappedPages < after.mappedPages) := by
  by_cases unaligned : a.start % toCount a.order ≠ 0
  · rw [Attempt.run, assign, if_pos unaligned] at ran
    cases ran
  rw [Attempt.run, assign, if_neg unaligned] at ran
  obtain ⟨⟨result, mid⟩, ensured, rest⟩ := bind_eq_ok.mp ran
  cases result with
  | error error => cases rest
  | ok done =>
    obtain ⟨⟨found, checked⟩, checking, rest⟩ := bind_eq_ok.mp rest
    cases found with
    | true => cases rest
    | false =>
      obtain ⟨inside, owned_eq, after_eq⟩ := assignFrames_ok (not_not.mp unaligned) rest
      obtain ⟨sameBuddy, sameCount⟩ := conflictCheck_kept checking
      cases owned_eq
      subst after_eq
      refine ⟨rfl, checked.buddy.frames, rfl, ?_⟩
      by_cases mapped : a.Mapped
      · rcases ensureMapped_search inside ensured with ⟨-, -, mid_eq⟩ | ⟨absent, -⟩
        · subst mid_eq
          exact .inl ⟨mapped, by rw [sameBuddy]; rfl, sameCount⟩
        · exact absurd mapped absent
      · rcases ensureMapped_of_absent inside mapped ensured with ⟨error, failed, -⟩ | counted
        · cases failed
        · exact .inr ⟨mapped, by rw [← sameCount] at counted; exact counted⟩

/-- Dropping assigned frames brings back the records before `assign`, and nothing was mapped. -/
def Restored (a : Attempt) (rounds : Nat) : Prop :=
  ∀ owned after, a.run rounds = .ok (.ok owned, after) →
    ∃ restored, owned.drop after = .ok restored ∧ restored.buddy.frames = a.buddy.frames ∧
      restored.mappedPages = a.mappedPages

/-- The tags that `restore_assigned` writes back. -/
def markerTags : List FrameTag := [.hardwareReserved, .systemReserved, .badMemory, .free]

/-- The range is one marked block: a marker at its first frame, tails after it, and its own bounds
in every record. -/
structure MarkedBlock (a : Attempt) : Prop where
  head : (a.buddy.frames a.start).tag ∈ markerTags
  tails : ∀ frame, a.start < frame → frame < a.stop → (a.buddy.frames frame).tag = .tail
  bounds : ∀ frame, a.start ≤ frame → frame < a.stop →
    (a.buddy.frames frame).data = .range ⟨a.start, a.stop⟩

end Attempt

section Dropping

open Attempt (markerTags)

variable {before : Vmemmap} {start order : Nat} {s restored : FrameMemory}

theorem assignedFrames_apply (before : Vmemmap) (start order n : Nat) :
    assignedFrames before start order n =
      if n = start then
        ⟨(before start).refcount, .assigned order (before start).tag, .assignedFixed⟩
      else if start < n ∧ n < start + toCount order then
        ⟨(before n).refcount, .range ⟨start, start + toCount order⟩, .tail⟩
      else before n := by
  rw [assignedFrames, setTailFrames_apply]
  unfold toCount
  by_cases head : n = start
  · subst head
    rw [if_neg (by simp), if_pos rfl]
    simp [replace]
  · rw [if_neg head]
    by_cases inner : start < n ∧ n < start + 2 ^ order
    · rw [if_pos inner, if_pos inner]
      simp [replace, head]
    · rw [if_neg inner, if_neg inner]
      simp [replace, head]

/-- The records of a block with its first tag written back. -/
def restoredFrames (before : Vmemmap) (start order : Nat) : Vmemmap := fun n =>
  if n = start then
    ⟨(before start).refcount, .range ⟨start, start + toCount order⟩, (before start).tag⟩
  else assignedFrames before start order n

theorem drop_marker (frames : s.buddy.frames = assignedFrames before start order)
    (marker : (before start).tag ∈ markerTags) :
    drop ⟨start, order⟩ s = .ok { s with buddy := { s.buddy with
      frames := restoredFrames before start order } } := by
  have head : s.buddy.frames start =
      ⟨(before start).refcount, .assigned order (before start).tag, .assignedFixed⟩ := by
    rw [frames, assignedFrames_apply, if_pos rfl]
  have written (tag : FrameTag) (same : (before start).tag = tag) :
      replace (setTailFrames s.buddy.frames ⟨start, order⟩) start tag
        (.range ⟨start, start + toCount order⟩) = restoredFrames before start order := by
    funext n
    by_cases here : n = start
    · subst here
      simp [replace, setTailFrames_apply, head, restoredFrames, same]
    · simp only [replace, Function.update_of_ne here, setTailFrames_apply, restoredFrames,
        if_neg here, frames]
      by_cases inner : start < n ∧ n < start + 2 ^ order
      · rw [if_pos inner, assignedFrames_apply, if_neg here]
        simp only [show start < n ∧ n < start + toCount order from inner, and_self, if_true]
        rfl
      · rw [if_neg inner]
  simp only [drop, head, restoreAssigned, FrameData.getAssigned, onFrames,
    Except.mapError, ok_bind]
  simp only [markerTags, List.mem_cons, List.not_mem_nil, or_false] at marker
  rcases marker with tag | tag | tag | tag <;>
    simp only [tag, BuddyState.replace, pure_ok, written _ tag]

theorem deallocate_assigned {frame : Nat} {buddy : BuddyState}
    {result : Except FrameError Unit × BuddyState}
    (freed : buddy.deallocate devBuild frame = .ok result)
    (tag : (buddy.frames frame).tag = .assignedFixed) : result.2 = buddy := by
  obtain ⟨zone, -, rest⟩ := bind_eq_ok.mp freed
  rw [if_pos (by rw [tag]; decide)] at rest
  cases rest
  rfl

theorem drop_other (frames : s.buddy.frames = assignedFrames before start order)
    (other : (before start).tag ∉ markerTags)
    (dropped : drop ⟨start, order⟩ s = .ok restored) :
    (before start).tag = .anonymous ∧ (restored.buddy.frames start).tag = .assignedFixed := by
  have head : s.buddy.frames start =
      ⟨(before start).refcount, .assigned order (before start).tag, .assignedFixed⟩ := by
    rw [frames, assignedFrames_apply, if_pos rfl]
  simp only [drop, head, restoreAssigned, FrameData.getAssigned, onFrames,
    Except.mapError, ok_bind] at dropped
  cases tag : (before start).tag <;> simp only [tag] at dropped other
  case anonymous =>
    refine ⟨rfl, ?_⟩
    obtain ⟨buddy, freed, rest⟩ := bind_eq_ok.mp dropped
    cases rest
    have kept := deallocate_assigned (onFrames_eq_ok.mp freed)
      (by simp [setTailFrames_apply, head])
    rw [kept]
    simp [setTailFrames_apply, head]
  all_goals first
    | exact absurd (by decide) other
    | cases dropped

theorem drop_counts {owned : UniqueFrames} (dropped : owned.drop s = .ok restored) :
    restored.mappedPages = s.mappedPages := by
  have freed {t : FrameMemory} (run : freeLast owned.start t = .ok restored) :
      restored.mappedPages = t.mappedPages := by
    obtain ⟨buddy, -, rest⟩ := bind_eq_ok.mp run
    cases rest
    rfl
  unfold drop at dropped
  split at dropped
  · obtain ⟨⟨order, tag⟩, -, rest⟩ := bind_eq_ok.mp dropped
    cases tag
    case anonymous =>
      exact @freed { s with buddy := { s.buddy with
        frames := owned.setTailFrames s.buddy.frames } } rest
    case hardwareReserved | systemReserved | badMemory | free =>
      cases rest
      rfl
    all_goals cases rest
  · exact freed dropped

end Dropping

namespace Attempt

theorem restoredFrames_eq_iff (a : Attempt) (marker : (a.buddy.frames a.start).tag ∈ markerTags) :
    restoredFrames a.buddy.frames a.start a.order = a.buddy.frames ↔ a.MarkedBlock := by
  constructor
  · intro same
    have record (frame : Nat) := congrFun same frame
    have inner {frame : Nat} (low : a.start < frame) (high : frame < a.stop) :
        a.buddy.frames frame =
          ⟨(a.buddy.frames frame).refcount, .range ⟨a.start, a.stop⟩, .tail⟩ := by
      have here := record frame
      rw [restoredFrames, if_neg low.ne', assignedFrames_apply, if_neg low.ne',
        if_pos ⟨low, high⟩] at here
      exact here.symm
    refine ⟨marker, fun frame low high => ?_, fun frame low high => ?_⟩
    · rw [inner low high]
    · rcases Nat.eq_or_lt_of_le low with rfl | above
      · have here := record a.start
        rw [restoredFrames, if_pos rfl] at here
        rw [← here]
        rfl
      · rw [inner above high]
  · intro marked
    funext frame
    have positive : 0 < toCount a.order := Nat.two_pow_pos a.order
    rw [restoredFrames]
    by_cases head : frame = a.start
    · subst head
      rw [if_pos rfl]
      have data := marked.bounds a.start (le_refl _) (Nat.lt_add_of_pos_right positive)
      rw [show (FrameData.range ⟨a.start, a.start + toCount a.order⟩) =
        (a.buddy.frames a.start).data from data.symm]
    · rw [if_neg head, assignedFrames_apply, if_neg head]
      by_cases inside : a.start < frame ∧ frame < a.start + toCount a.order
      · rw [if_pos inside]
        have data := marked.bounds frame inside.1.le inside.2
        have tag := marked.tails frame inside.1 inside.2
        rw [show (FrameData.range ⟨a.start, a.start + toCount a.order⟩) =
          (a.buddy.frames frame).data from data.symm, ← tag]
      · rw [if_neg inside]

/-- Assigning a range and dropping it restores the metadata exactly when no page of
`metadata_range` had to be mapped and the range was one marked block, if it is accepted at all. -/
theorem assign_drop_restores_iff (a : Attempt) (rounds : Nat) : a.Restored rounds ↔
      ((∃ owned after, a.run rounds = .ok (.ok owned, after)) → a.Mapped ∧ a.MarkedBlock) := by
  constructor
  · rintro restores ⟨owned, after, ran⟩
    obtain ⟨restored, dropped, sameFrames, sameCount⟩ := restores owned after ran
    obtain ⟨rfl, before, frames, cases⟩ := run_ok ran
    have counts := drop_counts dropped
    rcases cases with ⟨mapped, rfl, -⟩ | ⟨-, counted⟩
    · refine ⟨mapped, ?_⟩
      by_cases marker : (a.buddy.frames a.start).tag ∈ markerTags
      · rw [drop_marker frames marker] at dropped
        cases dropped
        exact (a.restoredFrames_eq_iff marker).mp sameFrames
      · have left := drop_other frames marker dropped
        rw [sameFrames, left.1] at left
        cases left.2
    · omega
  · intro condition owned after ran
    obtain ⟨mapped, marked⟩ := condition ⟨owned, after, ran⟩
    obtain ⟨rfl, before, frames, cases⟩ := run_ok ran
    rcases cases with ⟨-, rfl, sameCount⟩ | ⟨absent, -⟩
    · exact ⟨_, drop_marker frames marked.head, (a.restoredFrames_eq_iff marked.head).mpr marked,
        sameCount⟩
    · exact absurd mapped absent

def freshFrame : Attempt := singleFrame ⟨0, .unused, .uninited⟩

/-- A fresh frame is accepted, and dropping it panics. -/
theorem fresh_frame_not_restored : ¬ freshFrame.Restored 5 := by
  intro restores
  have accepted : (freshFrame.run 5).toOption.any (fun outcome => outcome.1.isOk) = true := by
    decide +kernel
  cases ran : freshFrame.run 5 with
  | error fault =>
    rw [ran] at accepted
    cases accepted
  | ok outcome =>
    obtain ⟨result, after⟩ := outcome
    cases result with
    | error error =>
      rw [ran] at accepted
      cases accepted
    | ok owned =>
      obtain ⟨restored, dropped, -, -⟩ := restores owned after ran
      obtain ⟨rfl, before, frames, ⟨-, rfl, -⟩ | ⟨absent, -⟩⟩ := run_ok ran
      · have left := drop_other frames (by decide) dropped
        cases left.1
      · exact absent fun page _ _ => by
          rw [show leafStart freshFrame.space page = _ from leafStart_flat page]
          simp

end Attempt

end Horizon.Memory
