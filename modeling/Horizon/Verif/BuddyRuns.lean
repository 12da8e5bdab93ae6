import Horizon.Spec.Runs
import Horizon.Verif.BuddyOps

/-!
# Runs of the buddy allocator

A step is one returning call: `allocate` hands a block out or finds none, `deallocate` takes one
back or refuses. Along every run the listed and the live blocks tile the frames of the start, each
stays aligned and inside its zone, and the page counter is the number of live pages.
-/

namespace Horizon.Memory

open Tiling Runs Relation Multiset BuddyState Block

/-- The allocator state with the blocks allocated and not yet given back. -/
structure Machine where
  state : BuddyState
  live : Multiset Block

variable {block : Block}

namespace Machine

def blocks (m : Machine) : Multiset Block := m.state.freeBlocks + m.live

def pageCount (blocks : Multiset Block) : Nat := (blocks.map fun block => 2 ^ block.order).sum

@[simp] theorem pageCount_cons (block : Block) (rest : Multiset Block) :
    pageCount (block ::ₘ rest) = 2 ^ block.order + pageCount rest := by
  simp [pageCount]

/-- One returning call. Orders are those `FrameOrder::new` admits; `deallocate` is called on the
head of a live block, which its safety contract asks for. -/
inductive Step (build : Build) : Machine → Machine → Prop
  | allocated {s t : BuddyState} {live : Multiset Block} {zone : ZoneType} {order : Nat}
      {owned : UniqueFrames} (small : order ≤ maxOrder)
      (call : s.allocate build zone order = .ok (some owned, t)) :
      Step build ⟨s, live⟩ ⟨t, ⟨zone, owned.start, owned.order⟩ ::ₘ live⟩
  | exhausted {s t : BuddyState} {live : Multiset Block} {zone : ZoneType} {order : Nat}
      (small : order ≤ maxOrder) (call : s.allocate build zone order = .ok (none, t)) :
      Step build ⟨s, live⟩ ⟨t, live⟩
  | deallocated {s t : BuddyState} {live : Multiset Block} {block : Block}
      (call : s.deallocate build block.start = .ok (.ok (), t)) :
      Step build ⟨s, block ::ₘ live⟩ ⟨t, live⟩
  /-- `deallocate` returns an error; the caller still holds the block. -/
  | refused {s t : BuddyState} {live : Multiset Block} {block : Block} {error : FrameError}
      (call : s.deallocate build block.start = .ok (.error error, t)) :
      Step build ⟨s, block ::ₘ live⟩ ⟨t, block ::ₘ live⟩

/-- A seeded allocator: disjoint free blocks, nothing allocated. -/
structure Start (m : Machine) : Prop where
  live : m.live = 0
  apart : m.state.freeBlocks.Pairwise fun block other => Disjoint block.span other.span
  placed : ∀ block ∈ m.state.freeBlocks, block.Placed
  free : ∀ block ∈ m.state.freeBlocks, FreeMeta m.state.frames block
  pages : m.state.allocatedPages = 0

def region (m : Machine) : Set ℕ := {n | ∃ block ∈ m.state.freeBlocks, n ∈ block.span}

/-- The invariant of runs: blocks tile the region, and records and counter agree with them. -/
structure Consistent (region : Set ℕ) (m : Machine) : Prop where
  tiles : Tiles Block.span m.blocks region
  placed : ∀ block ∈ m.blocks, block.Placed
  free : ∀ block ∈ m.state.freeBlocks, FreeMeta m.state.frames block
  live : ∀ block ∈ m.live, LiveMeta m.state.frames block
  pages : m.state.allocatedPages = pageCount m.live

section Consistent

variable {build : Build} {region : Set ℕ} {m m' : Machine}

theorem Consistent.placed_free (consistent : Consistent region m) :
    ∀ block ∈ m.state.freeBlocks, block.Placed :=
  fun block member => consistent.placed block (mem_add.mpr (.inl member))

theorem Consistent.placed_live (consistent : Consistent region m) :
    ∀ block ∈ m.live, block.Placed :=
  fun block member => consistent.placed block (mem_add.mpr (.inr member))

theorem Start.consistent (start : Start m) : Consistent m.region m where
  tiles := by
    rw [blocks, start.live, add_zero]
    exact tiles_of_pairwise start.apart
  placed := by
    rw [blocks, start.live, add_zero]
    exact start.placed
  free := start.free
  live := by simp [start.live]
  pages := by rw [start.pages, start.live]; rfl

theorem pageCount_lt {live others : Multiset Block}
    (tiles : Tiles span (others + live) region)
    (placed : ∀ block ∈ others + live, block.Placed) : pageCount live < 2 ^ 64 := by
  have below : ∀ block ∈ others + live, block.span ⊆ Finset.range vmemmapFrames := by
    intro block member n inside
    have := (placed block member).vmemmap
    rw [mem_span] at inside
    rw [Finset.mem_range]
    omega
  have total := tiles.sum_card_le below
  have sizes : ((others + live).map fun block => block.span.card).sum =
      pageCount others + pageCount live := by
    simp [pageCount, span]
  have small : vmemmapFrames < 2 ^ 64 := by decide
  omega

section

variable (consistent : Consistent region m)
include consistent

theorem Step.outcome (step : Step build m m') : m' = m ∨
      (∃ block target, target ≤ block.order ∧ block ∈ m.state.freeBlocks ∧
        m'.live = ⟨block.zone, block.start, target⟩ ::ₘ m.live ∧
        BuddyState.Taken block target m.state m'.state) ∨
      ∃ block, m.live = block ::ₘ m'.live ∧ BuddyState.Released block m.state m'.state := by
  cases step with
  | @allocated s t live zone order owned small call =>
    rcases allocate_spec build zone consistent.placed_free consistent.free small with
      ⟨none, -⟩ | ⟨block, t', member, rfl, bound, some, taken⟩
    · dsimp only at none
      rw [none] at call
      cases call
    · dsimp only at some
      rw [some] at call
      cases call
      exact .inr (.inl ⟨block, order, bound, member, rfl, taken⟩)
  | @exhausted s t live zone order small call =>
    rcases allocate_spec build zone consistent.placed_free consistent.free small with
      ⟨none, -⟩ | ⟨block, t', -, -, -, some, -⟩
    · dsimp only at none
      rw [none] at call
      cases call
      exact .inl rfl
    · dsimp only at some
      rw [some] at call
      cases call
  | @deallocated s t live block call =>
    rcases deallocate_spec build
      (consistent.placed_live block (mem_cons_self _ _))
      (consistent.live block (mem_cons_self _ _)) with ⟨t', done, released⟩ | ⟨_, -, raised⟩
    · dsimp only at done
      rw [done] at call
      cases call
      exact .inr (.inr ⟨block, rfl, released⟩)
    · dsimp only at raised
      rw [raised] at call
      cases call
  | @refused s t live block error call =>
    rcases deallocate_spec build
      (consistent.placed_live block (mem_cons_self _ _))
      (consistent.live block (mem_cons_self _ _)) with ⟨t', done, -⟩ | ⟨_, -, raised⟩
    · dsimp only at done
      rw [done] at call
      cases call
    · dsimp only at raised
      rw [raised] at call
      cases call

theorem Consistent.taken {target : Nat} (bound : target ≤ block.order)
    (member : block ∈ m.state.freeBlocks)
    (live : m'.live = ⟨block.zone, block.start, target⟩ ::ₘ m.live)
    (taken : BuddyState.Taken block target m.state m'.state) : Consistent region m' := by
  obtain ⟨rest, before, after⟩ := taken.blocks
  have placed := consistent.placed_free block member
  have here : m.blocks = block ::ₘ (rest + m.live) := by
    rw [blocks, before, cons_add]
  have there : m'.blocks = (⟨block.zone, block.start, target⟩ ::ₘ
      halves block.zone block.start target block.order) + (rest + m.live) := by
    rw [blocks, after, live, cons_add, add_cons, add_assoc]
  have tiles : Tiles span m'.blocks region := by
    refine consistent.tiles.of_cover_eq fun n => ?_
    rw [there, here, cover_add, cover_halves _ _ bound, cover_cons, add_comm]
  -- Blocks other than the one that was cut keep all their records.
  have apart : ∀ other ∈ rest + m.live, ∀ n ∈ other.span, m'.state.frames n = m.state.frames n := by
    intro other mem n inside
    have disjoint := (here ▸ consistent.tiles).disjoint_of_cons mem
    exact taken.outside n (Finset.disjoint_right.mp disjoint inside)
  have allPlaced : ∀ other ∈ m'.blocks, other.Placed := by
    intro other mem
    rw [there, mem_add, mem_cons] at mem
    rcases mem with (rfl | mem) | mem
    · exact placed.shrink bound
    · exact halves_placed placed other mem
    · exact consistent.placed other (by rw [here]; exact mem_cons_of_mem mem)
  refine ⟨tiles, allPlaced, ?_, ?_, ?_⟩
  · intro other mem
    rw [after, mem_add] at mem
    rcases mem with mem | mem
    · exact taken.halves other mem
    · exact (consistent.free other (by rw [before]; exact mem_cons_of_mem mem)).congr
        (apart other (mem_add.mpr (.inl mem)))
  · intro other mem
    rw [live, mem_cons] at mem
    rcases mem with rfl | mem
    · exact taken.live
    · exact (consistent.live other mem).congr (apart other (mem_add.mpr (.inr mem)))
  · have small := pageCount_lt tiles allPlaced
    rw [live, pageCount_cons] at small ⊢
    rw [taken.pages, consistent.pages, add_comm, Nat.mod_eq_of_lt small]

theorem Consistent.released (live : m.live = block ::ₘ m'.live)
    (released : BuddyState.Released block m.state m'.state) : Consistent region m' := by
  have same : m'.blocks = m.blocks := by
    rw [blocks, blocks, released.blocks, live, cons_add, add_cons]
  have here : m.blocks = block ::ₘ (m.state.freeBlocks + m'.live) := by
    rw [blocks, live, add_cons]
  have apart : ∀ other ∈ m.state.freeBlocks + m'.live, ∀ n ∈ other.span,
      m'.state.frames n = m.state.frames n := by
    intro other mem n inside
    refine released.outside n fun equal => ?_
    have disjoint := (here ▸ consistent.tiles).disjoint_of_cons mem
    exact Finset.disjoint_right.mp disjoint inside (equal ▸ block.start_mem_span)
  refine ⟨same ▸ consistent.tiles, same ▸ consistent.placed, ?_, ?_, ?_⟩
  · intro other mem
    rw [released.blocks, mem_cons] at mem
    rcases mem with rfl | mem
    · exact released.free
    · exact (consistent.free other mem).congr (apart other (mem_add.mpr (.inl mem)))
  · intro other mem
    exact (consistent.live other (by rw [live]; exact mem_cons_of_mem mem)).congr
      (apart other (mem_add.mpr (.inr mem)))
  · have small := pageCount_lt consistent.tiles consistent.placed
    have pages := consistent.pages
    have fits : 2 ^ block.order < 2 ^ 64 := Nat.pow_lt_pow_right (by decide) (lt_of_le_of_lt
        (consistent.placed_live block (by rw [live]; exact mem_cons_self _ _)).order_le
        (by decide))
    rw [live, pageCount_cons] at small pages
    rw [released.pages, pages]
    generalize 2 ^ block.order = size at fits small ⊢
    omega

/-- The step lemma. -/
theorem Consistent.step (step : Step build m m') : Consistent region m' := by
  rcases step.outcome consistent with rfl | ⟨block, target, bound, member, live, taken⟩ |
    ⟨block, live, released⟩
  · exact consistent
  · exact consistent.taken bound member live taken
  · exact consistent.released live released

theorem Consistent.step_readable (step : Step build m m')
    (readable : ∀ n, Readable m.state.frames n) : ∀ n, Readable m'.state.frames n := by
  rcases step.outcome consistent with rfl | ⟨block, target, -, -, -, taken⟩ | ⟨block, -, released⟩
  · exact readable
  · exact fun n => taken.readable n (readable n)
  · exact fun n => released.readable n (readable n)

/-- The run lemma. -/
theorem Consistent.run (run : ReflTransGen (Step build) m m') : Consistent region m' :=
  invariant_of_run (Consistent region) run consistent
    fun _ _ consistent step => consistent.step step

end

end Consistent

def seeded (block : Block) : Machine where
  state :=
    { frames := fun n => if n = block.start then ⟨0, .buddy ⟨true, block.order, block.zone⟩, .buddy⟩
        else ⟨0, .unused, .uninited⟩
      freeFrames := fun zone order =>
        if zone = block.zone ∧ order = block.order then [block.start] else []
      allocatedPages := 0 }
  live := 0

theorem seeded_freeBlocks (small : block.order ≤ maxOrder) :
    (seeded block).state.freeBlocks = {block} := by
  ext other
  rw [count_freeBlocks, count_singleton]
  obtain ⟨zone, start, order⟩ := block
  obtain ⟨otherZone, otherStart, otherOrder⟩ := other
  by_cases same : otherZone = zone ∧ otherOrder = order
  · obtain ⟨rfl, rfl⟩ := same
    by_cases equal : otherStart = start
    · subst equal
      simpa [seeded] using small
    · simp [seeded, equal, Ne.symm equal]
  · have different : (⟨otherZone, otherStart, otherOrder⟩ : Block) ≠ ⟨zone, start, order⟩ := by
      intro equal
      injection equal with zoneEq _ orderEq
      exact same ⟨zoneEq, orderEq⟩
    simp [seeded, same, different]

theorem seeded_start (placed : block.Placed) : Start (seeded block) where
  live := rfl
  apart := by
    rw [seeded_freeBlocks placed.order_le]
    exact ⟨[block], rfl, List.pairwise_singleton _ _⟩
  placed := by
    rw [seeded_freeBlocks placed.order_le]
    simpa using placed
  free := by
    rw [seeded_freeBlocks placed.order_le]
    intro other member
    rw [mem_singleton] at member
    subst member
    refine ⟨by simp [seeded], by simp [seeded], fun n low _ => .inl ?_, fun n _ => ?_⟩
    · simp [seeded, ne_of_gt low]
    · simp only [seeded]
      split <;> rfl
  pages := rfl

/-- In every machine of a run the blocks, listed and live, are pairwise disjoint, cover the frames
of the start exactly, and are aligned and inside their zones, and the counter is the number of live
pages. In such a machine `allocate` does not panic and finds nothing only when no listed block of
the zone has the order or a larger one. `deallocate` of a live block succeeds or stops at an
assertion about a foreign record or low memory; with readable records and blocks in the usable part
of the linear map it succeeds. -/
theorem buddy_run_partition (build : Build) {m₀ m : Machine} (start : Start m₀)
    (run : ReflTransGen (Step build) m₀ m) :
    (m.blocks.Pairwise fun block other => Disjoint block.span other.span) ∧
    (∀ n, (∃ block ∈ m.blocks, n ∈ block.span) ↔ ∃ block ∈ m₀.state.freeBlocks, n ∈ block.span) ∧
    (∀ block ∈ m.blocks, 2 ^ block.order ∣ block.start ∧
      block.zone.rangeStart ≤ block.start ∧ block.start + 2 ^ block.order ≤ block.zone.rangeEnd) ∧
    m.state.allocatedPages = pageCount m.live ∧ (∀ zone order, order ≤ maxOrder → ∃ result t,
      m.state.allocate build zone order = .ok (result, t) ∧
      (result = none → ∀ block ∈ m.state.freeBlocks, block.zone = zone → block.order < order)) ∧
    (∀ block ∈ m.live, (∃ t, m.state.deallocate build block.start = .ok (.ok (), t)) ∨
      ∃ panic, (NeighbourPanic panic ∨ panic = .lowMemoryReserved) ∧
        m.state.deallocate build block.start = .error panic) ∧ ((∀ n, Readable m₀.state.frames n) →
      (∀ block ∈ m₀.state.freeBlocks,
        reservedEnd ≤ block.start ∧ block.start + 2 ^ block.order ≤ linearFrames) →
      ∀ block ∈ m.live, ∃ t, m.state.deallocate build block.start = .ok (.ok (), t)) := by
  have consistent := start.consistent.run run
  refine ⟨consistent.tiles.pairwise_disjoint, fun n => (consistent.tiles.mem_iff n).symm,
    fun block member => ?_, consistent.pages, fun zone order small => ?_, fun block member => ?_,
    fun readable usable block member => ?_⟩
  · have placed := consistent.placed block member
    exact ⟨placed.aligned, placed.zone_start, placed.zone_end⟩
  · rcases allocate_spec build zone consistent.placed_free consistent.free small with
      ⟨none, empty⟩ | ⟨block, t, -, -, -, some, -⟩
    · exact ⟨_, _, none, fun _ => empty⟩
    · exact ⟨_, _, some, fun absent => by cases absent⟩
  · rcases deallocate_spec build (consistent.placed_live block member)
      (consistent.live block member) with ⟨t, done, -⟩ | ⟨panic, kind, raised⟩
    · exact .inl ⟨t, done⟩
    · exact .inr ⟨panic, kind.imp_right And.left, raised⟩
  · -- The block lies in the region, so it starts and ends where the seeded blocks allow.
    have inRegion : ∀ n ∈ block.span, reservedEnd ≤ n ∧ n < linearFrames := by
      intro n inside
      obtain ⟨seed, listed, inSeed⟩ := (consistent.tiles.mem_iff n).mpr
        ⟨block, mem_add.mpr (.inr member), inside⟩
      have := usable seed listed
      rw [Block.mem_span] at inSeed
      omega
    have placed := consistent.placed_live block member
    have first := inRegion block.start block.start_mem_span
    have double : 2 ^ (block.order + 1) ≤ 2 ^ (maxOrder + 1) :=
      Nat.pow_le_pow_right (by decide) (Nat.succ_le_succ placed.order_le)
    have room : linearFrames + 2 ^ (maxOrder + 1) < vmemmapFrames := by decide
    have readableNow : ∀ n, Readable m.state.frames n :=
      (invariant_of_run (fun machine => Consistent m₀.region machine ∧
        ∀ n, Readable machine.state.frames n) run ⟨start.consistent, readable⟩
        fun _ _ ⟨consistent, readable⟩ step =>
          ⟨consistent.step step, consistent.step_readable step readable⟩).2
    obtain ⟨t, done, -⟩ := deallocate_succeeds build placed
      (consistent.live block member) first.1 (by omega) (readableNow _)
    exact ⟨t, done⟩

/-- A block of two frames handed out of a seeded block of eight. -/
theorem buddy_run_partition_seeded : ∃ t,
    (seeded ⟨.mem32, 0x200, 3⟩).state.allocate ⟨true⟩ .mem32 1 = .ok (some ⟨0x200, 1⟩, t) ∧
      t.allocatedPages = 2 := by
  have placed : Block.Placed ⟨.mem32, 0x200, 3⟩ :=
    ⟨by decide, by decide, by decide, by decide, by decide⟩
  obtain ⟨t, call⟩ : ∃ t, (seeded ⟨.mem32, 0x200, 3⟩).state.allocate ⟨true⟩ .mem32 1 =
      .ok (some ⟨0x200, 1⟩, t) := ⟨_, rfl⟩
  have run := ReflTransGen.single (@Step.allocated ⟨true⟩ _ _ 0 _ _ _ (by decide) call)
  exact ⟨t, call, (buddy_run_partition ⟨true⟩ (seeded_start placed) run).2.2.2.1⟩

end Machine

end Horizon.Memory
