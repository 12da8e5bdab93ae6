import Horizon.Verif.BuddyRuns
import Horizon.Verif.MappedRun

/-!
# What `ioremap` maps

The blocks of `ioremap` follow each other in the frames as in the pages, so every page gets the
frame of its place, except below large leaves that are misplaced or write-combining. The offset of
the address in its first page is not counted.
-/

namespace Horizon.Memory

open Paging Runs AllocLoop

namespace AllocLoop

/-- The next frame of the fixed range is as far from the first as the next page. -/
def InStep (base : Nat) (s : AllocLoop) : Prop :=
  ∃ order, s.option.frame.allocType = .fixed (base + s.pages.node.frameCount) order

/-- The large leaves for the block that a round gets are right. -/
def LargeOkAt (root rounds : Nat) (cacheType : PageCacheType) (s : AllocLoop) : Prop :=
  ∀ frames memory, s.Takes root rounds frames memory →
    ∀ page, s.place ≤ page → page < s.place + 2 ^ frames.order →
      WritesLarge memory.tables root s.place (s.place + 2 ^ frames.order) frames.start page →
        LargeOk (mapFlags cacheType) page

/-- The pages mapped so far lead to the frames from `base` on. -/
def Placed (root first base : Nat) (s : AllocLoop) : Prop :=
  ∀ i < s.pages.node.frameCount, MapsTo s.memory.tables root (first + i) (base + i)

/-- A page mapped so far leads elsewhere. -/
def Misplaced (root first base : Nat) (s : AllocLoop) : Prop :=
  ∃ i < s.pages.node.frameCount, ∃ leaf : Nat × Nat,
    s.memory.tables.lookup root (first + i) = some leaf ∧
      leaf.2 / Paging.pageSize + (first + i) % levelCount leaf.1 ≠ base + i

variable {root rounds first count base : Nat} {cacheType : PageCacheType} {s t : AllocLoop}
  {result : DynPages × FrameMemory}

variable {memory : FrameMemory} {order start : Nat} {option : PageAllocOptions}
  {frames : UniqueFrames}

theorem order_fixed (next : Nat) (fixed : option.frame.allocType = .fixed start order) :
    (option.order next).frame.allocType = .fixed start next := by
  simp [PageAllocOptions.order, fixed, FrameAllocOptions.fixed]

theorem advance_fixed (fixed : option.frame.allocType = .fixed start order) :
    (advance option).frame.allocType = .fixed (start + toCount order) order := by
  simp [advance, fixed, FrameAllocOptions.fixed]

theorem InStep.start_eq (inStep : InStep base s) (takes : s.Takes root rounds frames memory) :
    frames.start = base + s.pages.node.frameCount := by
  obtain ⟨order, fixed⟩ := inStep
  have gives := takes.gives.1
  rw [order_fixed s.nextOrder fixed] at gives
  exact congrArg UniqueFrames.start gives

theorem Effect.inStep (effect : Effect root rounds cacheType s t) (inStep : InStep base s) :
    InStep base t := by
  obtain ⟨order, fixed⟩ := inStep
  have requested := order_fixed s.nextOrder fixed
  cases effect with
  | smaller _ option pages _ => exact ⟨s.nextOrder, by rw [option, requested, pages]⟩
  | block takes option _ frameCount _ _ _ =>
    refine ⟨s.nextOrder, ?_⟩
    rw [option, advance_fixed requested, frameCount, takes.gives.2.2, add_assoc]
    rfl

theorem Effect.placed (effect : Effect root rounds cacheType s t) (area : Area first count)
    (going : Going root first count s) (inStep : InStep base s)
    (placed : Placed root first base s) (right : s.LargeOkAt root rounds cacheType) :
    Placed root first base t := by
  have place := going.place_eq
  have total := going.total
  cases effect with
  | smaller _ _ pages kept =>
    intro i low
    rw [pages] at low
    have there := area i (by omega)
    rw [MapsTo, kept.walks _ there.1 there.2]
    exact placed i low
  | @block frames memory takes _ kept frameCount _ _ outcome =>
    have start := inStep.start_eq takes
    rcases outcome with filled | shifted
    · intro i low
      rw [frameCount] at low
      by_cases old : i < s.pages.node.frameCount
      · have there := area i (by omega)
        rw [MapsTo, filled.outside _ there.1 (by omega), kept.walks _ there.1 there.2]
        exact placed i old
      · have written := filled.inside (first + i) (by omega) (by omega)
        obtain ⟨level, word, walk, frame, -⟩ := written.maps fun page low high due =>
          (right frames memory takes page low (by omega) due).2.2
        exact ⟨level, word, walk, by omega⟩
    · exact absurd (right frames memory takes s.place (le_refl _)
        (Nat.lt_add_of_pos_right (Nat.two_pow_pos _)) shifted.large).1 shifted.unaligned

theorem misplaced_of_large {tables : PageMemory} {page : Nat}
    (outcome : Filled memory.tables tables root s.place (s.place + 2 ^ frames.order) frames.start
      (mapFlags cacheType) ∨ Shifted memory.tables tables root s.place (s.place + 2 ^ frames.order)
      frames.start (mapFlags cacheType))
    (low : s.place ≤ page) (high : page < s.place + 2 ^ frames.order)
    (large : WritesLarge memory.tables root s.place (s.place + 2 ^ frames.order) frames.start page)
    (wrong : ¬LargeOk (mapFlags cacheType) page) :
    ∃ page, s.place ≤ page ∧ page < s.place + 2 ^ frames.order ∧ ∃ leaf : Nat × Nat,
      tables.lookup root page = some leaf ∧
        leaf.2 / Paging.pageSize + page % levelCount leaf.1 ≠ frames.start + (page - s.place) := by
  have huge : (mapFlags cacheType).hugePage = true := rfl
  rcases outcome with filled | shifted
  · have aligned := filled.placed page low high large
    have combine : (mapFlags cacheType).cacheType = .writeCombine :=
      by_contra fun ordinary => wrong ⟨aligned, huge, ordinary⟩
    obtain ⟨walk, -⟩ := (filled.inside page low high).large large
    refine ⟨page, low, high, _, walk, ?_⟩
    dsimp only
    rw [newMapped_large_div huge large.2.1, if_pos combine]
    omega
  · have frameDvd := shifted.large.2.1
    rw [Nat.sub_self, add_zero] at frameDvd
    have inside : s.place % levelCount 1 ≠ 0 :=
      fun zero => shifted.unaligned (Nat.dvd_of_mod_eq_zero zero)
    refine ⟨s.place, le_refl _, by omega, _, shifted.first, ?_⟩
    dsimp only
    rw [newMapped_large_div huge frameDvd]
    split <;> omega

theorem Effect.misplaced (effect : Effect root rounds cacheType s t) (area : Area first count)
    (going : Going root first count s) (inStep : InStep base s)
    (wrong : Misplaced root first base s ∨ ¬s.LargeOkAt root rounds cacheType) :
    Misplaced root first base t := by
  have place := going.place_eq
  have total := going.total
  cases effect with
  | smaller untaken _ pages kept =>
    rcases wrong with ⟨i, low, leaf, walk, frame⟩ | wrong
    · have there := area i (by omega)
      refine ⟨i, pages ▸ low, leaf, ?_, frame⟩
      rw [kept.walks _ there.1 there.2, walk]
    · exact absurd (fun frames memory takes => absurd takes (untaken frames memory)) wrong
  | @block frames memory takes _ kept frameCount _ mapped outcome =>
    have positive : 0 < 2 ^ frames.order := Nat.two_pow_pos _
    rcases wrong with ⟨i, low, leaf, walk, frame⟩ | wrong
    · have there := area i (by omega)
      refine ⟨i, by omega, leaf, ?_, frame⟩
      apply map_lookup_some kept.wf mapped
      rw [kept.walks _ there.1 there.2, walk]
    · have start := inStep.start_eq takes
      unfold LargeOkAt at wrong
      push Not at wrong
      obtain ⟨frames', memory', takes', page, low, high, large, bad⟩ := wrong
      obtain ⟨rfl, rfl⟩ := takes.unique takes'
      obtain ⟨page, low, high, leaf, walk, frame⟩ := misplaced_of_large outcome low high large bad
      refine ⟨page - first, by omega, leaf, ?_, ?_⟩
      · rw [Nat.add_sub_cancel' (by omega), walk]
      · rw [Nat.add_sub_cancel' (by omega)]
        omega

section

variable (going : Going root first count s) (area : Area first count)
  (succeeds : Succeeds root rounds cacheType s result) (inStep : InStep base s)
include going area succeeds inStep

theorem Going.places (start : Placed root first base s)
    (right : ∀ u, Reaches root rounds cacheType s u → u.LargeOkAt root rounds cacheType)
    (reaches : Reaches root rounds cacheType s t) : Placed root first base t := by
  obtain ⟨-, -, placed⟩ :=
    going.invariant (P := fun u => InStep base u ∧ Placed root first base u) area succeeds
      ⟨inStep, start⟩
      (fun u _ earlier before _ held effect => ⟨effect.inStep held.1,
        effect.placed area before held.1 held.2 (right u earlier)⟩) reaches
  exact placed

theorem Going.misplaces (reaches : Reaches root rounds cacheType s t)
    (wrong : ¬t.LargeOkAt root rounds cacheType) :
    ∃ last, Reaches root rounds cacheType s last ∧ result = (last.pages, last.memory) ∧
      Misplaced root first base last := by
  obtain ⟨goingT, inStepT⟩ := going.invariant area succeeds inStep
    (fun _ _ _ _ _ held effect => effect.inStep held) reaches
  have succeedsT := succeeds.of_reaches reaches
  rcases succeedsT.cases with ⟨done, -⟩ | ⟨next, goes, succeedsNext⟩
  · exact absurd (fun _ _ takes => absurd takes.1 (by omega)) wrong
  · obtain ⟨goingNext, effect⟩ := goingT.goes area (succeedsT.inside goes.1) goes
    obtain ⟨last, later, -, same⟩ := succeedsNext.reaches
    obtain ⟨-, -, misplaced⟩ :=
      goingNext.invariant (P := fun u => InStep base u ∧ Misplaced root first base u) area
        succeedsNext ⟨effect.inStep inStepT, effect.misplaced area goingT inStepT (.inr wrong)⟩
        (fun _ _ _ before _ held effect => ⟨effect.inStep held.1,
          effect.misplaced area before held.1 (.inl held.2)⟩) later
    exact ⟨last, reaches.trans (.head goes later), same, misplaced⟩

end

end AllocLoop

/-- A call of `ioremap`: the page tables are well formed, and the ranges of the vmap are in the
VMALLOC area. -/
structure IoremapCall where
  memory : FrameMemory
  root : Nat
  wf : WellFormed memory.tables root
  vmap : VmapSource
  inArea : vmap.InArea
  addr : Nat
  size : Nat
  size_pos : 0 < size
  cacheType : PageCacheType

namespace IoremapCall

variable (call : IoremapCall) (rounds : Nat)

def run : Except Fault (Except MemoryError (DynPages × FrameMemory)) :=
  ioremap call.root rounds call.vmap call.addr call.size call.cacheType call.memory

def base : Nat := call.addr / pageSize

def options : PageAllocOptions :=
  PageAllocOptions.mmio call.base (frameCount call.size) call.cacheType

/-- The loop of the call comes to the state. -/
def Reached (s : AllocLoop) : Prop :=
  ∃ start, call.vmap.reserve (frameCount call.size) = some start ∧
    AllocLoop.Reaches call.root rounds call.cacheType
      (AllocLoop.begin call.options start call.memory) s

/-- Page `i` translates to frame `i` of the device, and every byte of the device's range is the
translation of an address of the mapping. -/
structure Right (result : DynPages × FrameMemory) : Prop where
  pages : ∀ i < result.1.node.range.getCount, ∀ offset < Paging.pageSize,
    translate result.2.tables call.root
        ((result.1.node.range.start + i) * Paging.pageSize + offset) =
      .ok (some ((call.base + i) * Paging.pageSize + offset), result.2.tables)
  covers : ∀ byte, call.addr ≤ byte → byte < call.addr + call.size →
    ∃ i < result.1.node.range.getCount, ∃ offset < Paging.pageSize,
      translate result.2.tables call.root
          ((result.1.node.range.start + i) * Paging.pageSize + offset) =
        .ok (some byte, result.2.tables)

variable {call rounds} {result : DynPages × FrameMemory}

theorem frameCount_pos : 0 < frameCount call.size := by
  have positive := call.size_pos
  have size : pageSize = 4096 := rfl
  rw [frameCount, size]
  omega

section

variable (ran : call.run rounds = .ok (.ok result))
include ran

/-- A call that returns has reserved its range and run the loop. -/
theorem run_succeeds : ∃ start, call.vmap.reserve (frameCount call.size) = some start ∧
      (begin call.options start call.memory).Succeeds call.root rounds call.cacheType
        result := by
  rw [run, ioremap, if_neg (pos_iff_ne_zero.mp frameCount_pos)] at ran
  have allocated : call.options.allocate call.root rounds call.vmap call.memory =
    .ok (.ok result) := ran
  exact PageAllocOptions.allocate_succeeds allocated

/-- The last state of the loop, when the call returns. -/
theorem run_last :
    ∃ (start : Nat) (last : AllocLoop), call.vmap.reserve (frameCount call.size) = some start ∧
      result = (last.pages, last.memory) ∧
      last.Going call.root start (frameCount call.size) ∧
      last.pages.node.frameCount = frameCount call.size ∧
      ((∀ s, call.Reached rounds s → s.LargeOkAt call.root rounds call.cacheType) →
        last.Placed call.root start call.base) ∧
      ∀ s, call.Reached rounds s → ¬s.LargeOkAt call.root rounds call.cacheType →
        last.Misplaced call.root start call.base := by
  obtain ⟨start, reserved, succeeds⟩ := run_succeeds ran
  have going : (begin call.options start call.memory).Going call.root start
    call.options.getCount := begin_going call.wf
  rw [show call.options.getCount = frameCount call.size from rfl] at going
  have inStep : (begin call.options start call.memory).InStep call.base := ⟨0, rfl⟩
  have area := call.inArea.area reserved
  obtain ⟨last, reaches, done, same⟩ := succeeds.reaches
  obtain ⟨goingLast, -⟩ := going.invariant (P := fun _ => True) area succeeds trivial
    (fun _ _ _ _ _ _ _ => trivial) reaches
  have total := goingLast.total
  refine ⟨start, last, reserved, same, goingLast, by omega, ?_, ?_⟩
  · intro right
    exact going.places area succeeds inStep (fun i low => absurd low (Nat.not_lt_zero i))
      (fun u earlier => right u ⟨start, reserved, earlier⟩) reaches
  · rintro s ⟨other, reserved', earlier⟩ wrong
    rw [reserved] at reserved'
    cases reserved'
    obtain ⟨last', -, same', misplaced⟩ := going.misplaces area succeeds inStep earlier wrong
    rw [same] at same'
    injection same' with pages memory
    obtain ⟨i, low, leaf, walk, frame⟩ := misplaced
    exact ⟨i, pages ▸ low, leaf, memory ▸ walk, frame⟩

theorem run_getCount : result.1.node.range.getCount = frameCount call.size := by
  obtain ⟨start, last, -, rfl, going, -⟩ := run_last ran
  have positive : 0 < frameCount call.size := frameCount_pos
  rw [going.range_eq, VmRange.getCount]
  dsimp only
  omega

theorem translates_iff {i frame : Nat} (small : i < frameCount call.size) :
    (∀ offset < Paging.pageSize, translate result.2.tables call.root
        ((result.1.node.range.start + i) * Paging.pageSize + offset) =
      .ok (some (frame * Paging.pageSize + offset), result.2.tables)) ↔
        MapsTo result.2.tables call.root (result.1.node.range.start + i) frame := by
  obtain ⟨start, last, reserved, rfl, going, -⟩ := run_last ran
  apply translate_page_iff
  rw [going.range_eq]
  exact (call.inArea.pages reserved i small).2.2

theorem covers_iff (pages : ∀ i < frameCount call.size, ∀ offset < Paging.pageSize,
      translate result.2.tables call.root ((result.1.node.range.start + i) * Paging.pageSize +
      offset) = .ok (some ((call.base + i) * Paging.pageSize + offset), result.2.tables)) :
    (∀ byte, call.addr ≤ byte → byte < call.addr + call.size →
      ∃ i < result.1.node.range.getCount, ∃ offset < Paging.pageSize,
        translate result.2.tables call.root
            ((result.1.node.range.start + i) * Paging.pageSize + offset) =
          .ok (some byte, result.2.tables)) ↔
      call.addr % pageSize + call.size ≤ frameCount call.size * pageSize := by
  have positive := call.size_pos
  have unit : Paging.pageSize = 4096 := rfl
  have unit' : pageSize = 4096 := rfl
  have base : call.base = call.addr / 4096 := rfl
  rw [run_getCount ran, unit']
  constructor
  · intro covers
    obtain ⟨i, small, offset, inside, translated⟩ :=
      covers (call.addr + call.size - 1) (by omega) (by omega)
    rw [pages i small offset inside] at translated
    injection translated with translated
    injection translated with byte
    injection byte with byte
    rw [unit] at byte inside
    omega
  · intro fits byte low high
    have small : byte / 4096 - call.base < frameCount call.size := by omega
    refine ⟨byte / 4096 - call.base, small, byte % 4096, by omega, ?_⟩
    rw [pages _ small _ (by omega), unit]
    congr 3
    omega

end

end IoremapCall

/-- An `ioremap` that succeeds maps its range in order and as a whole exactly when the address
leaves room for the size in its pages and the large leaves of its blocks are right. -/
theorem ioremap_right_iff (call : IoremapCall) (rounds : Nat) :
    (∀ result, call.run rounds = .ok (.ok result) → call.Right result) ↔
      ∀ result, call.run rounds = .ok (.ok result) →
        call.addr % pageSize + call.size ≤ frameCount call.size * pageSize ∧
          ∀ s, call.Reached rounds s → s.LargeOkAt call.root rounds call.cacheType := by
  constructor
  · intro right result ran
    obtain ⟨pages, covers⟩ := right result ran
    rw [IoremapCall.run_getCount ran] at pages
    refine ⟨(IoremapCall.covers_iff ran pages).mp covers,
      fun s reached => by_contra fun wrong => ?_⟩
    obtain ⟨start, last, -, same, going, all, -, misplaced⟩ := IoremapCall.run_last ran
    obtain ⟨i, low, leaf, walk, frame⟩ := misplaced s reached wrong
    rw [all] at low
    obtain ⟨level, word, walk', frame'⟩ := (IoremapCall.translates_iff ran low).mp (pages i low)
    rw [same, going.range_eq, walk] at walk'
    cases walk'
    rw [same, going.range_eq] at frame'
    exact frame frame'
  · intro condition result ran
    obtain ⟨fits, right⟩ := condition result ran
    have pages : ∀ i < frameCount call.size, ∀ offset < Paging.pageSize,
        translate result.2.tables call.root
            ((result.1.node.range.start + i) * Paging.pageSize + offset) =
          .ok (some ((call.base + i) * Paging.pageSize + offset), result.2.tables) := by
      intro i small
      apply (IoremapCall.translates_iff ran small).mpr
      obtain ⟨start, last, -, rfl, going, all, placed, -⟩ := IoremapCall.run_last ran
      rw [going.range_eq]
      exact placed right i (all ▸ small)
    refine ⟨?_, (IoremapCall.covers_iff ran pages).mpr fits⟩
    rw [IoremapCall.run_getCount ran]
    exact pages

/-- Two bytes across a page boundary, with one free block of two frames and empty page tables. -/
def twoBytes : IoremapCall where
  memory := ⟨(Machine.seeded ⟨.mem32, 0x300, 1⟩).state, emptySpace 1 [2, 3, 4, 5, 6, 7, 8], 0⟩
  root := 1
  wf := emptySpace_wellFormed (by decide) (by decide)
  vmap := ⟨fun count => if count = 1 then some (vmallocBase / pageSize) else none⟩
  inArea := by
    intro count start reserved
    dsimp only at reserved
    split at reserved
    case isTrue one =>
      cases reserved
      subst one
      decide
    case isFalse => cases reserved
  addr := 0x200FFF
  size := 2
  size_pos := by decide
  cacheType := .writeBack

/-- Only the page of the first byte is mapped. -/
theorem ioremap_two_bytes :
    ∃ result, twoBytes.run 8 = .ok (.ok result) ∧ ¬twoBytes.Right result := by
  have succeeds : ((twoBytes.run 8).toOption.any fun outcome => outcome.isOk) = true := by
    decide +kernel
  cases ran : twoBytes.run 8 with
  | error fault => rw [ran] at succeeds; cases succeeds
  | ok outcome =>
    cases outcome with
    | error error => rw [ran] at succeeds; cases succeeds
    | ok result =>
      refine ⟨result, rfl, fun right => ?_⟩
      obtain ⟨pages, covers⟩ := right
      rw [IoremapCall.run_getCount ran] at pages
      exact absurd ((IoremapCall.covers_iff ran pages).mp covers) (by decide)

end Horizon.Memory
