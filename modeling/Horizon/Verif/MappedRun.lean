import Horizon.Kernel.Vmalloc
import Horizon.Verif.VmemmapTables

/-!
# Runs of `alloc_discontiguous`

The loop of `alloc_discontiguous` takes one block after the other and maps it behind the last one,
or goes to a smaller order. A round that maps a block fills its part of the range, or shifts it when
the first page of the block gets a large leaf that begins before it.
-/

namespace Horizon.Memory

open Paging Runs FrameAllocOptions

def pageCount (blocks : List UniqueFrames) : Nat :=
  (blocks.map fun block => toCount block.order).sum

theorem pageCount_append (blocks : List UniqueFrames) (block : UniqueFrames) :
    pageCount (blocks ++ [block]) = pageCount blocks + toCount block.order := by
  simp [pageCount]

/-- Fixed frames start inside the vmemmap. -/
def FrameAllocType.Inside : FrameAllocType → Prop
  | .dynamic _ => True
  | .fixed start _ => start < vmemmapFrames

/-- The frames are what was asked for. -/
def FrameAllocType.Gives (frames : UniqueFrames) : FrameAllocType → Prop
  | .dynamic order => frames.order = order
  | .fixed start order => frames = ⟨start, order⟩

def FrameAllocType.order : FrameAllocType → Nat
  | .dynamic order => order
  | .fixed _ order => order

theorem FrameAllocType.Gives.order_eq {allocType : FrameAllocType} {frames : UniqueFrames}
    (gives : allocType.Gives frames) : frames.order = allocType.order := by
  cases allocType with
  | dynamic order => exact gives
  | fixed start order => exact congrArg UniqueFrames.order gives

section Allocate

variable {root rounds : Nat} {allocType : FrameAllocType} {zone : ZoneType} {s s' : FrameMemory}
  {frames : UniqueFrames}

variable {result : Except MemoryError (UniqueFrames × ZoneType)} {zones : List ZoneType}

theorem FrameAllocType.allocate_kept (wf : WellFormed s.tables root) (inside : allocType.Inside)
    (order_le : allocType.order ≤ maxOrder)
    (allocated : allocType.allocate root rounds zone s = .ok (result, s')) :
    KeptBelow s.tables s'.tables root := by
  cases allocType with
  | dynamic order =>
    rw [allocate] at allocated
    obtain ⟨⟨got, buddy⟩, -, rest⟩ := bind_eq_ok.mp allocated
    cases got <;> cases rest <;> exact .refl wf
  | fixed start order =>
    rw [allocate] at allocated
    obtain ⟨⟨got, after⟩, assigned, rest⟩ := bind_eq_ok.mp allocated
    have kept := assign_kept wf inside order_le assigned
    cases got with
    | error error =>
      cases rest
      exact kept
    | ok got =>
      obtain ⟨zone', -, rest⟩ := bind_eq_ok.mp rest
      cases rest
      exact kept

theorem FrameAllocType.allocate_gives {zone' : ZoneType}
    (allocated : allocType.allocate root rounds zone s = .ok (.ok (frames, zone'), s')) :
    allocType.Gives frames ∧ allocType.Inside := by
  cases allocType with
  | dynamic order =>
    rw [allocate] at allocated
    obtain ⟨⟨got, buddy⟩, given, rest⟩ := bind_eq_ok.mp allocated
    cases got with
    | none => cases rest
    | some got =>
      cases rest
      exact ⟨BuddyState.allocate_order (onFrames_eq_ok.mp given), trivial⟩
  | fixed start order =>
    rw [allocate] at allocated
    obtain ⟨⟨got, after⟩, assigned, rest⟩ := bind_eq_ok.mp allocated
    cases got with
    | error error => cases rest
    | ok got =>
      obtain ⟨zone', -, rest⟩ := bind_eq_ok.mp rest
      cases rest
      obtain ⟨inside, rfl⟩ := assign_ok assigned
      exact ⟨rfl, inside⟩

theorem tryZones_kept (wf : WellFormed s.tables root) (inside : allocType.Inside)
    (order_le : allocType.order ≤ maxOrder)
    (tried : tryZones root rounds allocType zones s = .ok (result, s')) :
    KeptBelow s.tables s'.tables root := by
  induction zones generalizing s with
  | nil =>
    rw [tryZones] at tried
    cases tried
    exact .refl wf
  | cons zone zones ih =>
    rw [tryZones] at tried
    obtain ⟨⟨got, after⟩, allocated, rest⟩ := bind_eq_ok.mp tried
    have kept := FrameAllocType.allocate_kept wf inside order_le allocated
    cases got with
    | ok got =>
      cases rest
      exact kept
    | error error => exact kept.trans (ih kept.wf rest)

theorem tryZones_gives
    (tried : tryZones root rounds allocType zones s = .ok (.ok (frames, zone), s')) :
    allocType.Gives frames ∧ allocType.Inside := by
  induction zones generalizing s with
  | nil =>
    rw [tryZones] at tried
    cases tried
  | cons zone' zones ih =>
    rw [tryZones] at tried
    obtain ⟨⟨got, after⟩, allocated, rest⟩ := bind_eq_ok.mp tried
    cases got with
    | ok got =>
      cases rest
      exact FrameAllocType.allocate_gives allocated
    | error error => exact ih rest

end Allocate

def mapFlags (cacheType : PageCacheType) : PageFlags :=
  { PageFlags.new with cacheType := cacheType }

namespace AllocLoop

def place (s : AllocLoop) : Nat := s.pages.node.range.start + s.pages.node.frameCount

def nextOrder (s : AllocLoop) : Nat := min s.order (Nat.log2 s.remaining)

/-- A round gets this block and leaves the memory like this. -/
def Takes (root rounds : Nat) (s : AllocLoop) (frames : UniqueFrames) (memory : FrameMemory) :
    Prop :=
  0 < s.remaining ∧ ∃ zone, (s.option.order s.nextOrder).frame.allocate root rounds s.memory =
    .ok (.ok (frames, zone), memory)

/-- A round of the loop: it takes and maps a block, or goes on with a smaller order. -/
inductive Turn (root rounds : Nat) (cacheType : PageCacheType) (s : AllocLoop) : AllocLoop → Prop
  | block {frames : UniqueFrames} {memory : FrameMemory} {tables : PageMemory}
      (takes : s.Takes root rounds frames memory)
      (mapped : Paging.map memory.tables root s.place frames.start frames.order
        (mapFlags cacheType) = .ok (.ok (), tables)) :
      Turn root rounds cacheType s
        ⟨advance (s.option.order s.nextOrder), s.nextOrder, s.remaining - toCount s.nextOrder,
          ⟨{ s.pages.node with frameCount := s.pages.node.frameCount + toCount frames.order },
            s.pages.frames ++ [frames]⟩, { memory with tables }⟩
  | smaller {error : MemoryError} {memory : FrameMemory}
      (failed : (s.option.order s.nextOrder).frame.allocate root rounds s.memory =
        .ok (.error error, memory)) :
      Turn root rounds cacheType s
        { s with option := s.option.order s.nextOrder, order := s.nextOrder - 1, memory }

variable {root rounds : Nat} {cacheType : PageCacheType} {s t : AllocLoop}

/-- A step of the loop is a turn. -/
theorem step_turn (pending : 0 < s.remaining)
    (stepped : s.step root rounds cacheType = .ok (.ok (some t))) :
    s.nextOrder ≤ maxOrder ∧ Turn root rounds cacheType s t := by
  rw [step] at stepped
  obtain ⟨⟨option, order⟩, requested, stepped⟩ := bind_eq_ok.mp stepped
  rw [request] at requested
  obtain ⟨fitting, allowed, requested⟩ := bind_eq_ok.mp requested
  cases requested
  rw [frameOrderNew] at allowed
  split at allowed
  case isFalse => cases allowed
  case isTrue fits =>
    cases allowed
    refine ⟨le_trans (min_le_right _ _) fits, ?_⟩
    obtain ⟨⟨got, memory⟩, allocated, stepped⟩ := bind_eq_ok.mp stepped
    cases got with
    | error error =>
      dsimp only at stepped
      split at stepped
      · cases stepped
      · cases stepped
        exact .smaller allocated
    | ok got =>
      obtain ⟨frames, zone⟩ := got
      dsimp only at stepped
      split at stepped
      case isFalse => cases stepped
      case isTrue =>
        obtain ⟨filled, mapping, stepped⟩ := bind_eq_ok.mp stepped
        rw [DynPages.map] at mapping
        obtain ⟨⟨outcome, tables⟩, mapped, mapping⟩ := bind_eq_ok.mp mapping
        cases outcome with
        | error error =>
          cases mapping
          cases stepped
        | ok done =>
          cases mapping
          cases stepped
          exact .block ⟨pending, zone, allocated⟩ (onPages_eq_ok.mp mapped)

/-- One round of the loop. -/
def Goes (root rounds : Nat) (cacheType : PageCacheType) (s t : AllocLoop) : Prop :=
  0 < s.remaining ∧ s.step root rounds cacheType = .ok (.ok (some t))

/-- Rounds of the loop. -/
abbrev Reaches (root rounds : Nat) (cacheType : PageCacheType) : AllocLoop → AllocLoop → Prop :=
  Relation.ReflTransGen (Goes root rounds cacheType)

/-- The loop ends with the result. -/
def Succeeds (root rounds : Nat) (cacheType : PageCacheType) (s : AllocLoop)
    (result : DynPages × FrameMemory) : Prop :=
  ∃ turns, run root rounds cacheType turns s = .ok (.ok result)

variable {result : DynPages × FrameMemory}

section

variable (succeeds : Succeeds root rounds cacheType s result)
include succeeds

theorem Succeeds.cases : s.remaining = 0 ∧ result = (s.pages, s.memory) ∨
      ∃ t, Goes root rounds cacheType s t ∧ Succeeds root rounds cacheType t result := by
  obtain ⟨turns, ran⟩ := succeeds
  cases turns with
  | zero => cases ran
  | succ turns =>
    rw [run] at ran
    split at ran
    case isFalse done =>
      cases ran
      exact .inl ⟨Nat.eq_zero_of_not_pos done, rfl⟩
    case isTrue pending =>
      obtain ⟨outcome, stepped, ran⟩ := bind_eq_ok.mp ran
      cases outcome with
      | error error => cases ran
      | ok next =>
        cases next with
        | none => cases ran
        | some next => exact .inr ⟨next, ⟨pending, stepped⟩, turns, ran⟩

/-- A loop that succeeds from a state reached succeeds. -/
theorem Succeeds.of_reaches (reaches : Reaches root rounds cacheType s t) :
    Succeeds root rounds cacheType t result := by
  induction reaches with
  | refl => exact succeeds
  | tail _ goes ih =>
    rcases ih.cases with ⟨done, -⟩ | ⟨next, goes', later⟩
    · exact absurd goes.1 (by omega)
    · have same := goes.2.symm.trans goes'.2
      cases same
      exact later

/-- A loop that succeeds reaches its last state. -/
theorem Succeeds.reaches : ∃ last, Reaches root rounds cacheType s last ∧ last.remaining = 0 ∧
      result = (last.pages, last.memory) := by
  obtain ⟨turns, ran⟩ := succeeds
  induction turns generalizing s with
  | zero => cases ran
  | succ turns ih =>
    rcases Succeeds.cases ⟨turns + 1, ran⟩ with ⟨done, same⟩ | ⟨t, goes, -⟩
    · exact ⟨s, .refl, done, same⟩
    · rw [run, if_pos goes.1, goes.2] at ran
      obtain ⟨last, reaches, rest⟩ := ih ran
      exact ⟨last, .head goes reaches, rest⟩

end

@[simp]
theorem order_allocType_order (option : PageAllocOptions) (order : Nat) :
    (option.order order).frame.allocType.order = order := by
  cases allocType : option.frame.allocType <;>
    simp [PageAllocOptions.order, allocType, dynamic, fixed,
      FrameAllocType.order]

@[simp]
theorem order_inside (option : PageAllocOptions) (order : Nat) :
    (option.order order).frame.allocType.Inside ↔ option.frame.allocType.Inside := by
  cases allocType : option.frame.allocType <;>
    simp [PageAllocOptions.order, allocType, dynamic, fixed,
      FrameAllocType.Inside]

theorem toCount_nextOrder_le (pending : 0 < s.remaining) : toCount s.nextOrder ≤ s.remaining :=
  le_trans (Nat.pow_le_pow_right (by decide) (min_le_right _ _))
    (Nat.log2_self_le (pos_iff_ne_zero.mp pending))

theorem Takes.gives {frames : UniqueFrames} {memory : FrameMemory}
    (takes : s.Takes root rounds frames memory) :
    (s.option.order s.nextOrder).frame.allocType.Gives frames ∧ s.option.frame.allocType.Inside ∧
      frames.order = s.nextOrder := by
  obtain ⟨-, zone, allocated⟩ := takes
  obtain ⟨gives, inside⟩ := tryZones_gives allocated
  exact ⟨gives, (order_inside _ _).mp inside, gives.order_eq.trans (order_allocType_order _ _)⟩

theorem Succeeds.inside (succeeds : Succeeds root rounds cacheType s result)
    (pending : 0 < s.remaining) : s.option.frame.allocType.Inside := by
  obtain ⟨turns, ran⟩ := succeeds
  induction turns generalizing s with
  | zero => cases ran
  | succ turns ih =>
    rcases Succeeds.cases ⟨turns + 1, ran⟩ with ⟨done, -⟩ | ⟨t, goes, -⟩
    · omega
    · rw [run, if_pos goes.1, goes.2] at ran
      cases (step_turn goes.1 goes.2).2 with
      | block takes _ => exact takes.gives.2.1
      | smaller _ => exact (order_inside _ _).mp (ih (by exact pending) ran)

/-- The pages are canonical and below the vmemmap. -/
def Area (first count : Nat) : Prop :=
  ∀ i < count, Canonical (first + i) ∧ first + i < vmemmapBasePage

/-- What holds between the rounds, for a range of so many pages. -/
structure Going (root first count : Nat) (s : AllocLoop) : Prop where
  wf : WellFormed s.memory.tables root
  range_eq : s.pages.node.range = ⟨first, first + count - 1⟩
  total : s.pages.node.frameCount + s.remaining = count
  owned : pageCount s.pages.frames = s.pages.node.frameCount

theorem Going.place_eq {first count : Nat} (going : Going root first count s) :
    s.place = first + s.pages.node.frameCount := by
  rw [place, going.range_eq]

/-- What a round does to the tables and the pages. -/
inductive Effect (root rounds : Nat) (cacheType : PageCacheType) (s t : AllocLoop) : Prop
  | smaller (untaken : ∀ frames memory, ¬s.Takes root rounds frames memory)
      (option : t.option = s.option.order s.nextOrder) (pages : t.pages = s.pages)
      (kept : KeptBelow s.memory.tables t.memory.tables root)
  | block {frames : UniqueFrames} {memory : FrameMemory}
      (takes : s.Takes root rounds frames memory)
      (option : t.option = advance (s.option.order s.nextOrder))
      (kept : KeptBelow s.memory.tables memory.tables root)
      (frameCount : t.pages.node.frameCount = s.pages.node.frameCount + 2 ^ frames.order)
      (blocks : t.pages.frames = s.pages.frames ++ [frames])
      (mapped : Paging.map memory.tables root s.place frames.start frames.order
        (mapFlags cacheType) = .ok (.ok (), t.memory.tables))
      (outcome : Filled memory.tables t.memory.tables root s.place (s.place + 2 ^ frames.order)
          frames.start (mapFlags cacheType) ∨
        Shifted memory.tables t.memory.tables root s.place (s.place + 2 ^ frames.order)
          frames.start (mapFlags cacheType))

variable {first count : Nat}

theorem Going.goes (going : Going root first count s) (area : Area first count)
    (inside : s.option.frame.allocType.Inside) (goes : Goes root rounds cacheType s t) :
    Going root first count t ∧ Effect root rounds cacheType s t := by
  obtain ⟨pending, stepped⟩ := goes
  obtain ⟨order_le, turn⟩ := step_turn pending stepped
  have allowed : (s.option.order s.nextOrder).frame.allocType.order ≤ maxOrder := by
    rw [order_allocType_order]
    exact order_le
  have started := (order_inside s.option s.nextOrder).mpr inside
  have room := toCount_nextOrder_le pending
  have total := going.total
  cases turn with
  | smaller failed =>
    have kept := tryZones_kept going.wf started allowed failed
    refine ⟨⟨kept.wf, going.range_eq, going.total, going.owned⟩, .smaller ?_ rfl rfl kept⟩
    rintro frames memory ⟨-, zone, allocated⟩
    rw [failed] at allocated
    cases allocated
  | @block frames memory tables takes mapped =>
    obtain ⟨-, -, orderEq⟩ := takes.gives
    have kept : KeptBelow s.memory.tables memory.tables root := by
      obtain ⟨-, zone, allocated⟩ := takes
      exact tryZones_kept going.wf started allowed allocated
    have fits : toCount frames.order ≤ s.remaining := orderEq ▸ room
    have canonical : ∀ i < 2 ^ frames.order, Canonical (s.place + i) := by
      intro i small
      have there := (area (s.pages.node.frameCount + i) (by
        rw [← total]
        exact Nat.add_lt_add_left (lt_of_lt_of_le small fits) _)).1
      rwa [← add_assoc, ← going.place_eq] at there
    obtain ⟨wf, outcome⟩ := map_leaves kept.wf (orderEq ▸ order_le) canonical rfl rfl mapped
    refine ⟨⟨wf, going.range_eq, ?_, ?_⟩, .block takes rfl kept rfl rfl mapped outcome⟩
    · dsimp only
      rw [← orderEq]
      omega
    · dsimp only
      rw [pageCount_append, going.owned]

theorem Going.invariant {P : AllocLoop → Prop} (going : Going root first count s)
    (area : Area first count) (succeeds : Succeeds root rounds cacheType s result) (start : P s)
    (kept : ∀ u v, Reaches root rounds cacheType s u → Going root first count u →
      Going root first count v → P u → Effect root rounds cacheType u v → P v)
    (reaches : Reaches root rounds cacheType s t) : Going root first count t ∧ P t := by
  induction reaches with
  | refl => exact ⟨going, start⟩
  | @tail u v earlier step ih =>
    obtain ⟨before, held⟩ := ih
    obtain ⟨after, effect⟩ := before.goes area ((succeeds.of_reaches earlier).inside step.1) step
    exact ⟨after, kept u v earlier before after held effect⟩

theorem Takes.unique {frames frames' : UniqueFrames} {memory memory' : FrameMemory}
    (takes : s.Takes root rounds frames memory) (takes' : s.Takes root rounds frames' memory') :
    frames' = frames ∧ memory' = memory := by
  obtain ⟨-, zone, allocated⟩ := takes
  obtain ⟨-, zone', allocated'⟩ := takes'
  rw [allocated] at allocated'
  cases allocated'
  exact ⟨rfl, rfl⟩

end AllocLoop

def AllocLoop.begin (options : PageAllocOptions) (start : Nat) (memory : FrameMemory) : AllocLoop :=
  ⟨options, maxOrder, options.getCount, ⟨VmapNode.fixed start options.getCount, []⟩, memory⟩

/-- The ranges of the vmap are in the VMALLOC area; its last page is that of `VMALLOC_END`. -/
def VmapSource.InArea (vmap : VmapSource) : Prop :=
  ∀ count start, vmap.reserve count = some start →
    vmallocBase / pageSize ≤ start ∧ start + count ≤ vmallocEnd / pageSize + 1

section Call

variable {root rounds start : Nat} {options : PageAllocOptions} {vmap : VmapSource}
  {memory : FrameMemory} {result : DynPages × FrameMemory}

theorem PageAllocOptions.allocate_succeeds
    (allocated : options.allocate root rounds vmap memory = .ok (.ok result)) :
    ∃ start, vmap.reserve options.getCount = some start ∧
      (AllocLoop.begin options start memory).Succeeds root rounds options.cacheType result := by
  rw [allocate, VmapSource.allocate] at allocated
  cases reserved : vmap.reserve options.getCount with
  | none =>
    rw [reserved] at allocated
    cases allocated
  | some start =>
    rw [reserved] at allocated
    exact ⟨start, rfl, _, allocated⟩

theorem AllocLoop.begin_going (wf : WellFormed memory.tables root) :
    (begin options start memory).Going root start options.getCount :=
  ⟨wf, rfl, zero_add _, rfl⟩

theorem VmapSource.InArea.pages {count : Nat} (inArea : vmap.InArea)
    (reserved : vmap.reserve count = some start) (i : Nat) (small : i < count) :
    Canonical (start + i) ∧ start + i < vmemmapBasePage ∧
      fixedMapping ((start + i) * pageSize) = none := by
  obtain ⟨low, high⟩ := inArea count start reserved
  have base : vmallocBase / pageSize = 0xFFFFD00000000 := by decide
  have last : vmallocEnd / pageSize = 0xFFFFF00000000 := by decide
  have vmemmap : vmemmapBasePage = 0xFFFFF80000000 := by decide
  have size : pageSize = 4096 := rfl
  rw [base] at low
  rw [last] at high
  refine ⟨.inr ⟨by omega, by omega⟩, by omega, ?_⟩
  rw [fixedMapping, if_neg, if_neg]
  · rintro ⟨above, -⟩
    rw [size, show kernelBase = 0xFFFFFFFF80000000 from rfl] at above
    omega
  · rintro ⟨-, below⟩
    rw [size, show klinearBase + klinearSize = 0xFFFFC80000000000 by decide] at below
    omega

theorem VmapSource.InArea.area {count : Nat} (inArea : vmap.InArea)
    (reserved : vmap.reserve count = some start) : AllocLoop.Area start count :=
  fun i small => ⟨(inArea.pages reserved i small).1, (inArea.pages reserved i small).2.1⟩

end Call

end Horizon.Memory
