import Horizon.Verif.BuddyRuns
import Horizon.Verif.MappedRun

/-!
# What `vmalloc` maps

`vmalloc` rounds the logarithm of its page count down, so it maps the whole request only when their
number is a power of two. Every page of the range gets a frame of the allocation, except where the
first page of a block gets a large leaf without being the first of a large page: such a leaf leaves
a hole that no later round fills.
-/

namespace Horizon.Paging

/-- The frame that a leaf gives a page. The low bits of the frame field of a large leaf are no part
of the address. -/
def leafFrame (page : Nat) (leaf : Nat × Nat) : Nat :=
  levelMask leaf.1 (leaf.2 / pageSize) + page % levelCount leaf.1

section Leaf

attribute [local irreducible] levelMask levelCount

theorem Written.leafFrame_eq {before after : PageMemory} {root start pageEnd frame page : Nat}
    {flags : PageFlags} (written : Written before root start pageEnd frame flags after page) :
    ∃ leaf, after.lookup root page = some leaf ∧ leafFrame page leaf = frame + (page - start) := by
  obtain ⟨level, first, walk, low, reached, inside, dvd, kind⟩ := written
  have offset : page % levelCount level = page - first := by
    obtain ⟨block, rfl⟩ := dvd
    rw [show page = levelCount level * block + (page - levelCount level * block) by omega,
      Nat.mul_add_mod, Nat.mod_eq_of_lt (by omega)]
    omega
  have base : levelMask level (newMapped (frame + (first - start)) flags level / pageSize) =
      frame + (first - start) := by
    rcases kind with ⟨rfl, -⟩ | ⟨rfl, large, huge⟩
    · rw [(newMapped_div_mod _ fun combine => absurd combine.2.1 (lt_irrefl 0)).1]
      exact levelMask_of_dvd (levelCount_zero ▸ one_dvd _)
    · have frameDvd := large.2.1
      rw [newMapped_large_div huge frameDvd]
      unfold levelMask
      rw [levelCount_one] at frameDvd ⊢
      split <;> omega
  refine ⟨_, walk, ?_⟩
  rw [leafFrame, base, offset]
  omega

end Leaf

end Horizon.Paging

namespace Horizon.Memory

open Paging Runs AllocLoop

/-- The frame is of a block of the pages. -/
def DynPages.Owns (pages : DynPages) (frame : Nat) : Prop :=
  ∃ block ∈ pages.frames, block.start ≤ frame ∧ frame < block.start + 2 ^ block.order

namespace AllocLoop

/-- A large leaf at the first page of the block that a round gets begins there. -/
def AlignedAt (root rounds : Nat) (s : AllocLoop) : Prop :=
  ∀ frames memory, s.Takes root rounds frames memory →
    WritesLarge memory.tables root s.place (s.place + 2 ^ frames.order) frames.start s.place →
      levelCount 1 ∣ s.place

/-- The pages that are still to be mapped are not mapped yet. -/
def Vacant (root first count : Nat) (s : AllocLoop) : Prop :=
  ∀ i, s.pages.node.frameCount ≤ i → i < count → s.memory.tables.lookup root (first + i) = none

/-- The pages mapped so far lead to own frames. -/
def Covered (root first : Nat) (s : AllocLoop) : Prop :=
  ∀ i < s.pages.node.frameCount, ∃ leaf, s.memory.tables.lookup root (first + i) = some leaf ∧
    s.pages.Owns (leafFrame (first + i) leaf)

/-- A page mapped so far leads nowhere. -/
def Hole (root first : Nat) (s : AllocLoop) : Prop :=
  ∃ i < s.pages.node.frameCount, s.memory.tables.lookup root (first + i) = none

variable {root rounds first count : Nat} {cacheType : PageCacheType} {s t : AllocLoop}
  {result : DynPages × FrameMemory}

section

variable (effect : Effect root rounds cacheType s t) (area : Area first count)
  (going : Going root first count s)
include effect area going

theorem Effect.vacant (vacant : Vacant root first count s) : Vacant root first count t := by
  have place := going.place_eq
  cases effect with
  | smaller _ _ pages kept =>
    intro i low high
    rw [pages] at low
    rw [kept.walks _ (area i high).1 (area i high).2]
    exact vacant i low high
  | @block frames _ _ _ kept frameCount _ _ outcome =>
    have positive : 0 < 2 ^ frames.order := Nat.two_pow_pos _
    intro i low high
    rw [frameCount] at low
    have unchanged := vacant i (by omega) high
    rw [← kept.walks _ (area i high).1 (area i high).2] at unchanged
    rcases outcome with filled | shifted
    · rw [filled.outside _ (area i high).1 (by omega), unchanged]
    · rw [shifted.outside _ (area i high).1 (by omega), unchanged]

theorem Effect.covered (covered : Covered root first s) (aligned : s.AlignedAt root rounds) :
    Covered root first t := by
  have place := going.place_eq
  have total := going.total
  cases effect with
  | smaller _ _ pages kept =>
    intro i low
    rw [pages] at low ⊢
    have there := area i (by omega)
    rw [kept.walks _ there.1 there.2]
    exact covered i low
  | @block frames memory takes _ kept frameCount blocks _ outcome =>
    rcases outcome with filled | shifted
    · intro i low
      rw [frameCount] at low
      by_cases old : i < s.pages.node.frameCount
      · obtain ⟨leaf, walk, block, member, within⟩ := covered i old
        have there := area i (by omega)
        refine ⟨leaf, ?_, block, ?_, within⟩
        · rw [filled.outside _ there.1 (by omega), kept.walks _ there.1 there.2, walk]
        · rw [blocks]
          exact List.mem_append_left _ member
      · obtain ⟨leaf, walk, frame⟩ := (filled.inside (first + i) (by omega) (by omega)).leafFrame_eq
        refine ⟨leaf, walk, frames, ?_, by omega, by omega⟩
        rw [blocks]
        exact List.mem_append_right _ (List.mem_singleton_self _)
    · exact absurd (aligned frames memory takes shifted.large) shifted.unaligned

theorem Effect.hole (vacant : Vacant root first count s) (after : Going root first count t)
    (hole : Hole root first s ∨ ¬s.AlignedAt root rounds) : Hole root first t := by
  have place := going.place_eq
  have total := going.total
  have totalAfter := after.total
  cases effect with
  | smaller untaken _ pages kept =>
    rcases hole with ⟨i, low, none⟩ | unaligned
    · have there := area i (by omega)
      refine ⟨i, pages ▸ low, ?_⟩
      rw [kept.walks _ there.1 there.2, none]
    · exact absurd (fun frames memory takes => absurd takes (untaken frames memory)) unaligned
  | @block frames memory takes _ kept frameCount _ _ outcome =>
    have positive : 0 < 2 ^ frames.order := Nat.two_pow_pos _
    rcases outcome with filled | shifted
    · rcases hole with ⟨i, low, none⟩ | unaligned
      · have there := area i (by omega)
        refine ⟨i, by omega, ?_⟩
        rw [filled.outside _ there.1 (by omega), kept.walks _ there.1 there.2, none]
      · refine absurd (fun frames' memory' takes' large => ?_) unaligned
        obtain ⟨rfl, rfl⟩ := takes.unique takes'
        exact filled.placed _ (le_refl _) (Nat.lt_add_of_pos_right positive) large
    · obtain ⟨page, low, high, same⟩ := shifted.missed
      have there := area (page - first) (by omega)
      have vacancy := vacant (page - first) (by omega) (by omega)
      refine ⟨page - first, by omega, ?_⟩
      rw [Nat.add_sub_cancel' (by omega)] at there vacancy ⊢
      rw [same, kept.walks _ there.1 there.2, vacancy]

end

section

variable (going : Going root first count s) (area : Area first count)
  (succeeds : Succeeds root rounds cacheType s result)
include going area succeeds

theorem Going.covers (start : Covered root first s)
    (aligned : ∀ u, Reaches root rounds cacheType s u → u.AlignedAt root rounds)
    (reaches : Reaches root rounds cacheType s t) :
    Going root first count t ∧ Covered root first t :=
  going.invariant area succeeds start
    (fun u _ earlier before _ covered effect =>
      effect.covered area before covered (aligned u earlier)) reaches

theorem Going.leaves_hole (vacant : Vacant root first count s)
    (reaches : Reaches root rounds cacheType s t) (unaligned : ¬t.AlignedAt root rounds) :
    ∃ last, Reaches root rounds cacheType s last ∧ last.remaining = 0 ∧
      result = (last.pages, last.memory) ∧ Going root first count last ∧ Hole root first last := by
  obtain ⟨goingT, vacantT⟩ := going.invariant area succeeds vacant
    (fun _ _ _ before _ vacant effect => effect.vacant area before vacant) reaches
  have succeedsT := succeeds.of_reaches reaches
  rcases succeedsT.cases with ⟨done, -⟩ | ⟨next, goes, succeedsNext⟩
  · exact absurd (fun _ _ takes => absurd takes.1 (by omega)) unaligned
  · obtain ⟨goingNext, effect⟩ := goingT.goes area (succeedsT.inside goes.1) goes
    have vacantNext := effect.vacant area goingT vacantT
    have holeNext := effect.hole area goingT vacantT goingNext (.inr unaligned)
    obtain ⟨last, later, done, same⟩ := succeedsNext.reaches
    obtain ⟨goingLast, -, holeLast⟩ :=
      goingNext.invariant (P := fun u => Vacant root first count u ∧ Hole root first u) area
        succeedsNext ⟨vacantNext, holeNext⟩
        (fun _ _ _ before after held effect => ⟨effect.vacant area before held.1,
          effect.hole area before held.1 after (.inl held.2)⟩) later
    exact ⟨last, reaches.trans (.head goes later), done, same, goingLast, holeLast⟩

end

end AllocLoop

/-- A call of `vmalloc`: the page tables are well formed, and the ranges of the vmap are in the
VMALLOC area and not mapped. -/
structure VmallocCall where
  memory : FrameMemory
  root : Nat
  wf : WellFormed memory.tables root
  vmap : VmapSource
  inArea : vmap.InArea
  vacant : ∀ count start, vmap.reserve count = some start →
    ∀ i < count, memory.tables.lookup root (start + i) = none
  size : Nat
  size_pos : 0 < size
  cacheType : PageCacheType

namespace VmallocCall

variable (call : VmallocCall) (rounds : Nat)

def run : Except Fault (Except MemoryError (DynPages × FrameMemory)) :=
  vmalloc call.root rounds call.vmap call.size call.cacheType call.memory

def options : PageAllocOptions :=
  { PageAllocOptions.new ((FrameAllocOptions.new.withFallback [.mem32]).dynamic
      (Nat.log2 (frameCount call.size))) with
    cacheType := call.cacheType }

/-- The loop of the call comes to the state. -/
def Reached (s : AllocLoop) : Prop :=
  ∃ start, call.vmap.reserve call.options.getCount = some start ∧
    AllocLoop.Reaches call.root rounds call.cacheType
      (AllocLoop.begin call.options start call.memory) s

/-- Every page of the request is mapped to a frame of the allocation, and no page of the range to
another frame. -/
structure Right (result : DynPages × FrameMemory) : Prop where
  enough : frameCount call.size ≤ result.1.node.range.getCount
  mapped : ∀ i < frameCount call.size, ∃ leaf,
    result.2.tables.lookup call.root (result.1.node.range.start + i) = some leaf ∧
      result.1.Owns (leafFrame (result.1.node.range.start + i) leaf)
  own : ∀ i < result.1.node.range.getCount, ∀ leaf,
    result.2.tables.lookup call.root (result.1.node.range.start + i) = some leaf →
      result.1.Owns (leafFrame (result.1.node.range.start + i) leaf)

variable {call rounds} {result : DynPages × FrameMemory}

theorem frameCount_pos : 0 < frameCount call.size := by
  have positive := call.size_pos
  have size : pageSize = 4096 := rfl
  rw [frameCount, size]
  omega

theorem getCount_options : call.options.getCount = 2 ^ Nat.log2 (frameCount call.size) := rfl

section

variable (ran : call.run rounds = .ok (.ok result))
include ran

/-- A call that returns has reserved its range and run the loop. -/
theorem run_succeeds : ∃ start, call.vmap.reserve call.options.getCount = some start ∧
      (begin call.options start call.memory).Succeeds call.root rounds call.cacheType
        result := by
  rw [run, vmalloc] at ran
  dsimp only at ran
  rw [if_neg (pos_iff_ne_zero.mp frameCount_pos), frameOrderNew] at ran
  split at ran
  case isFalse => cases ran
  case isTrue =>
    have allocated : call.options.allocate call.root rounds call.vmap call.memory =
      .ok (.ok result) := ran
    exact PageAllocOptions.allocate_succeeds allocated

/-- The last state of the loop, when the call returns. -/
theorem run_last : ∃ start last, call.vmap.reserve call.options.getCount = some start ∧
      call.Reached rounds last ∧ result = (last.pages, last.memory) ∧
      last.Going call.root start call.options.getCount ∧
      last.pages.node.frameCount = call.options.getCount ∧
      ((∀ s, call.Reached rounds s → s.AlignedAt call.root rounds) →
        last.Covered call.root start) ∧
      ∀ s, call.Reached rounds s → ¬s.AlignedAt call.root rounds → last.Hole call.root start := by
  obtain ⟨start, reserved, succeeds⟩ := run_succeeds ran
  have going : (begin call.options start call.memory).Going call.root start
    call.options.getCount := begin_going call.wf
  have area := call.inArea.area reserved
  obtain ⟨last, reaches, done, same⟩ := succeeds.reaches
  obtain ⟨goingLast, -⟩ := going.invariant (P := fun _ => True) area succeeds trivial
    (fun _ _ _ _ _ _ _ => trivial) reaches
  have total := goingLast.total
  refine ⟨start, last, reserved, ⟨start, reserved, reaches⟩, same, goingLast, by omega, ?_, ?_⟩
  · intro aligned
    have empty : (begin call.options start call.memory).Covered call.root start :=
      fun i low => absurd low (Nat.not_lt_zero i)
    exact (going.covers area succeeds empty
      (fun u earlier => aligned u ⟨start, reserved, earlier⟩) reaches).2
  · rintro s ⟨other, reserved', earlier⟩ unaligned
    rw [reserved] at reserved'
    cases reserved'
    have vacant : (begin call.options start call.memory).Vacant call.root start
        call.options.getCount := fun i _ high => call.vacant _ start reserved i high
    obtain ⟨last', -, done', same', -, hole⟩ :=
      going.leaves_hole area succeeds vacant earlier unaligned
    rw [same] at same'
    injection same' with pages memory
    obtain ⟨i, low, none⟩ := hole
    exact ⟨i, pages ▸ low, memory ▸ none⟩

theorem run_getCount : result.1.node.range.getCount = 2 ^ Nat.log2 (frameCount call.size) := by
  obtain ⟨start, last, -, -, rfl, going, -⟩ := run_last ran
  have positive : 0 < call.options.getCount := Nat.two_pow_pos _
  rw [going.range_eq, VmRange.getCount, ← getCount_options]
  dsimp only
  omega

end

end VmallocCall

/-- A `vmalloc` that succeeds maps the pages of the request exactly when their number is a power of
two and the large leaves at the first pages of its blocks begin there. -/
theorem vmalloc_right_iff (call : VmallocCall) (rounds : Nat) :
    (∀ result, call.run rounds = .ok (.ok result) → call.Right result) ↔
      ∀ result, call.run rounds = .ok (.ok result) →
        (∃ order, frameCount call.size = 2 ^ order) ∧
          ∀ s, call.Reached rounds s → s.AlignedAt call.root rounds := by
  constructor
  · intro right result ran
    have holds := right result ran
    have power : frameCount call.size = 2 ^ Nat.log2 (frameCount call.size) := by
      apply le_antisymm
      · exact VmallocCall.run_getCount ran ▸ holds.enough
      · exact Nat.log2_self_le (pos_iff_ne_zero.mp call.frameCount_pos)
    refine ⟨⟨_, power⟩, fun s reached => by_contra fun unaligned => ?_⟩
    obtain ⟨start, last, -, -, rfl, going, all, -, hole⟩ := VmallocCall.run_last ran
    obtain ⟨i, low, none⟩ := hole s reached unaligned
    rw [all, VmallocCall.getCount_options, ← power] at low
    obtain ⟨leaf, walk, -⟩ := holds.mapped i low
    rw [going.range_eq] at walk
    exact absurd (none.symm.trans walk) (by simp)
  · intro condition result ran
    obtain ⟨⟨order, power⟩, aligned⟩ := condition result ran
    have count : result.1.node.range.getCount = frameCount call.size := by
      rw [VmallocCall.run_getCount ran, power, Nat.log2_two_pow]
    obtain ⟨start, last, -, -, rfl, going, all, covered, -⟩ := VmallocCall.run_last ran
    rw [VmallocCall.getCount_options, ← VmallocCall.run_getCount ran, count] at all
    have pages : ∀ i < frameCount call.size, ∃ leaf,
        last.memory.tables.lookup call.root (last.pages.node.range.start + i) = some leaf ∧
          last.pages.Owns (leafFrame (last.pages.node.range.start + i) leaf) := by
      rw [going.range_eq, ← all]
      exact covered aligned
    refine ⟨le_of_eq count.symm, pages, fun i low leaf walk => ?_⟩
    obtain ⟨leaf', walk', owns⟩ := pages i (count ▸ low)
    rw [walk] at walk'
    cases walk'
    exact owns

def threePages : VmallocCall where
  memory := ⟨(Machine.seeded ⟨.mem32, 0x200, 1⟩).state, emptySpace 1 [2, 3, 4], 0⟩
  root := 1
  wf := emptySpace_wellFormed (by decide) (by decide)
  vmap := ⟨fun count => if count = 2 then some (vmallocBase / pageSize) else none⟩
  inArea := by
    intro count start reserved
    dsimp only at reserved
    split at reserved
    case isTrue two =>
      cases reserved
      subst two
      decide
    case isFalse => cases reserved
  vacant := fun _ start _ i _ => emptySpace_lookup [2, 3, 4] (start + i)
  size := 8193
  size_pos := by decide
  cacheType := .writeBack

/-- Three pages are asked for and two are reserved. -/
theorem vmalloc_three_pages :
    ∃ result, threePages.run 1 = .ok (.ok result) ∧ ¬threePages.Right result := by
  have succeeds : ((threePages.run 1).toOption.any fun outcome => outcome.isOk) = true := by
    decide +kernel
  cases ran : threePages.run 1 with
  | error fault => rw [ran] at succeeds; cases succeeds
  | ok outcome =>
    cases outcome with
    | error error => rw [ran] at succeeds; cases succeeds
    | ok result =>
      refine ⟨result, rfl, fun right => ?_⟩
      have enough := right.enough
      rw [VmallocCall.run_getCount ran] at enough
      exact absurd enough (by decide +kernel)

end Horizon.Memory
