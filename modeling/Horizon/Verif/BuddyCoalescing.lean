import Horizon.Verif.BuddyRuns

/-!
# Coalescing in the buddy allocator

The merge loop of `deallocate` never joins anything, so both halves stay listed: releasing a block
keeps the lists free of buddy pairs exactly when its buddy is not listed, and a seeded block that
was once cut is never whole again.
-/

namespace Horizon.Memory

open Tiling Runs Relation Multiset BuddyState

/-- Two halves of one block of the next order. -/
def Block.Buddies (block other : Block) : Prop :=
  block.zone = other.zone ∧ block.order = other.order ∧ block.start ≠ other.start ∧
    block.start / 2 ^ (block.order + 1) = other.start / 2 ^ (other.order + 1)

instance (block other : Block) : Decidable (block.Buddies other) :=
  inferInstanceAs (Decidable (_ ∧ _ ∧ _ ∧ _))

theorem Block.Buddies.symm {block other : Block} (buddies : block.Buddies other) :
    other.Buddies block :=
  ⟨buddies.1.symm, buddies.2.1.symm, buddies.2.2.1.symm, buddies.2.2.2.symm⟩

/-- No two buddies below `MAX_ORDER` are both listed. -/
def BuddyState.Coalesced (s : BuddyState) : Prop :=
  ∀ block ∈ s.freeBlocks, ∀ other ∈ s.freeBlocks, block.order < maxOrder → ¬block.Buddies other

instance (s : BuddyState) : Decidable s.Coalesced :=
  inferInstanceAs (Decidable (∀ block ∈ s.freeBlocks, ∀ other ∈ s.freeBlocks,
    block.order < maxOrder → ¬block.Buddies other))

/-- Listing one more block keeps the lists coalesced exactly when its buddy is not listed. -/
theorem BuddyState.coalesced_cons {s t : BuddyState} {block : Block}
    (blocks : t.freeBlocks = block ::ₘ s.freeBlocks) (coalesced : s.Coalesced) : t.Coalesced ↔
      (block.order < maxOrder → ∀ other ∈ s.freeBlocks, ¬block.Buddies other) := by
  constructor
  · intro after small other member buddies
    exact after block (by simp [blocks]) other (by simp [blocks, member]) small buddies
  · intro unlisted first inFirst second inSecond small buddies
    rw [blocks, mem_cons] at inFirst inSecond
    rcases inFirst with rfl | inFirst <;> rcases inSecond with rfl | inSecond
    · exact buddies.2.2.1 rfl
    · exact unlisted small second inSecond buddies
    · exact unlisted (by rw [← buddies.2.1]; exact small) first inFirst buddies.symm
    · exact coalesced first inFirst second inSecond small buddies

/-- A call of `deallocate` that returns has listed the block and nothing else. -/
theorem BuddyState.deallocate_blocks {build : Build} {s t : BuddyState} {block : Block}
    (placed : block.Placed) (live : LiveMeta s.frames block)
    (call : s.deallocate build block.start = .ok (.ok (), t)) :
    t.freeBlocks = block ::ₘ s.freeBlocks := by
  rcases deallocate_spec build placed live with ⟨u, done, released⟩ | ⟨_, -, raised⟩
  · rw [done] at call
    cases call
    exact released.blocks
  · rw [raised] at call
    cases call

/-- Taking a block leaves the record behind its buddy as it was. -/
theorem BuddyState.Taken.releasable_iff {build : Build} {s t : BuddyState} {block : Block}
    {target : Nat} (taken : Taken block target s t) :
    Releasable build t block ↔ Releasable build s block := by
  have same := taken.outside (block.start + 2 ^ (block.order + 1)) (by
    rw [Block.mem_span, pow_succ]
    have := Nat.two_pow_pos block.order
    omega)
  unfold Releasable
  simp only [answers_congr same]

namespace Machine

/-- A list of `allocate` calls; the blocks they return become live. -/
def allocateAll (build : Build) : List (ZoneType × Nat) → Machine → Except Panic Machine
  | [], m => .ok m
  | (zone, order) :: rest, m => do
    let (result, t) ← m.state.allocate build zone order
    allocateAll build rest ⟨t, match result with
      | some owned => ⟨zone, owned.start, owned.order⟩ ::ₘ m.live
      | none => m.live⟩

/-- A list of `deallocate` calls. -/
def deallocateAll (build : Build) : List Block → BuddyState → Except Panic BuddyState
  | [], s => .ok s
  | block :: rest, s => do
    let (_, t) ← s.deallocate build block.start
    deallocateAll build rest t

section Requests

variable {build : Build} {region : Set ℕ} {m m' : Machine} {block : Block}

variable {requests : List (ZoneType × Nat)}

/-- Allocations one after the other are a run. -/
theorem allocateAll_run (small : ∀ r ∈ requests, r.2 ≤ maxOrder)
    (done : allocateAll build requests m = .ok m') : ReflTransGen (Step build) m m' := by
  induction requests generalizing m with
  | nil =>
    cases done
    exact .refl
  | cons request rest ih =>
    obtain ⟨zone, order⟩ := request
    obtain ⟨first, others⟩ := List.forall_mem_cons.mp small
    rw [allocateAll] at done
    cases call : m.state.allocate build zone order with
    | error panic =>
      rw [call] at done
      cases done
    | ok outcome =>
      obtain ⟨result, t⟩ := outcome
      rw [call] at done
      cases result with
      | none => exact .head (.exhausted first call) (ih others done)
      | some owned => exact .head (.allocated first call) (ih others done)

variable {order : Nat}

theorem allocateAll_none {zone : ZoneType}
    (none : m.state.allocate build zone order = .ok (none, m.state)) :
    allocateAll build ((zone, order) :: requests) m = allocateAll build requests m := by
  rw [allocateAll, none]
  rfl

theorem allocateAll_empty (consistent : Consistent region m) (empty : m.state.freeBlocks = 0)
    (requests : List (ZoneType × Nat)) (small : ∀ r ∈ requests, r.2 ≤ maxOrder) :
    allocateAll build requests m = .ok m := by
  induction requests with
  | nil => rfl
  | cons request rest ih =>
    obtain ⟨first, others⟩ := List.forall_mem_cons.mp small
    rcases allocate_spec build request.1 consistent.placed_free consistent.free first with
      ⟨none, -⟩ | ⟨block, t, member, -⟩
    · exact (allocateAll_none none).trans (ih others)
    · rw [empty] at member
      exact absurd member (notMem_zero block)

/-- Requests are served or refused, never a panic. -/
theorem allocateAll_ok (consistent : Consistent region m)
    (small : ∀ r ∈ requests, r.2 ≤ maxOrder) : ∃ m', allocateAll build requests m = .ok m' := by
  induction requests generalizing m with
  | nil => exact ⟨m, rfl⟩
  | cons request rest ih =>
    obtain ⟨first, others⟩ := List.forall_mem_cons.mp small
    rcases allocate_spec build request.1 consistent.placed_free consistent.free first with
      ⟨none, -⟩ | ⟨block, t, -, -, -, some, -⟩
    · rw [allocateAll_none none]
      exact ih consistent others
    · have step := @Step.allocated build _ _ m.live _ _ _ first some
      rw [allocateAll, some]
      exact ih (consistent.step step) others

/-- No block is as large as `order`. -/
def Below (order : Nat) (m : Machine) : Prop := ∀ block ∈ m.blocks, block.order < order

/-- No step makes a block of an order that is gone. -/
theorem Below.step (below : Below order m) (consistent : Consistent region m)
    (step : Step build m m') : Below order m' := by
  rcases step.outcome consistent with rfl | ⟨block, target, bound, member, live, taken⟩ |
    ⟨block, live, released⟩
  · exact below
  · obtain ⟨rest, before, after⟩ := taken.blocks
    have whole := below block (mem_add.mpr (.inl member))
    intro other mem
    rw [blocks, after, live, mem_add, mem_add, mem_cons] at mem
    rcases mem with (mem | mem) | rfl | mem
    · obtain ⟨j, -, high, rfl⟩ := mem_halves.mp mem
      exact lt_trans high whole
    · exact below other (by simp [blocks, before, mem])
    · exact lt_of_le_of_lt bound whole
    · exact below other (by simp [blocks, mem])
  · intro other mem
    refine below other ?_
    rwa [blocks, live, add_cons, ← cons_add, ← released.blocks]

/-- The run lemma: an order that is gone stays so. -/
theorem Below.run (below : Below order m) (consistent : Consistent region m)
    (run : ReflTransGen (Step build) m m') : Below order m' :=
  (invariant_of_run (fun machine => Consistent region machine ∧ Below order machine) run
    ⟨consistent, below⟩ fun _ _ ⟨consistent, below⟩ step =>
      ⟨consistent.step step, below.step consistent step⟩).2

/-- The requests that a block can serve. -/
def fits (block : Block) (request : ZoneType × Nat) : Bool :=
  decide (request.1 = block.zone ∧ request.2 ≤ block.order)

/-- What requests make of a machine with one free block: none fits and nothing happens; or the
first that fits takes the whole block; or it cuts the block, and no block of its order is left. -/
theorem allocateAll_single (consistent : Consistent region m)
    (single : m.state.freeBlocks = {block}) (unused : m.live = 0)
    (small : ∀ r ∈ requests, r.2 ≤ maxOrder) : ∃ m', allocateAll build requests m = .ok m' ∧
      (requests.find? (fits block) = none ∧ m' = m ∨
        ∃ request, requests.find? (fits block) = some request ∧
          (request.2 = block.order ∧ m'.live = {block} ∧
              Taken block block.order m.state m'.state ∨
            request.2 ≠ block.order ∧ Below block.order m')) := by
  induction requests with
  | nil => exact ⟨m, rfl, .inl ⟨rfl, rfl⟩⟩
  | cons request rest ih =>
    obtain ⟨zone, order⟩ := request
    obtain ⟨first, others⟩ := List.forall_mem_cons.mp small
    rcases allocate_spec build zone consistent.placed_free consistent.free first with
      ⟨none, empty⟩ | ⟨taker, t, member, rfl, bound, some, taken⟩
    · have unfit : fits block (zone, order) = false := by
        refine decide_eq_false ?_
        rintro ⟨same, le⟩
        exact absurd (empty block (by simp [single]) same.symm) (not_lt.mpr le)
      rw [allocateAll_none none, List.find?_cons, unfit]
      exact ih others
    · rw [single, mem_singleton] at member
      subst member
      have fit : fits taker (taker.zone, order) = true := decide_eq_true ⟨rfl, bound⟩
      have step := @Step.allocated build _ _ m.live _ _ _ first some
      have next : allocateAll build ((taker.zone, order) :: rest) m =
          allocateAll build rest ⟨t, ⟨taker.zone, taker.start, order⟩ ::ₘ m.live⟩ := by
        rw [allocateAll, some]
        rfl
      obtain ⟨none, before, after⟩ := taken.blocks
      have nothing : none = 0 := by
        rw [single, ← cons_zero, cons_inj_right] at before
        exact before.symm
      rw [nothing, add_zero] at after
      rw [next, List.find?_cons, fit]
      rcases Nat.eq_or_lt_of_le bound with rfl | part
      · rw [halves_self] at after
        refine ⟨_, allocateAll_empty (consistent.step step) after rest others,
          .inr ⟨_, rfl, .inl ⟨rfl, ?_, taken⟩⟩⟩
        rw [unused]
        rfl
      · obtain ⟨m', done⟩ := allocateAll_ok (consistent.step step) others
        refine ⟨m', done, .inr ⟨_, rfl, .inr ⟨ne_of_lt part, ?_⟩⟩⟩
        refine Below.run ?_ (consistent.step step) (allocateAll_run others done)
        intro other mem
        rw [blocks, mem_add] at mem
        dsimp only at mem
        rw [after, unused] at mem
        rcases mem with mem | mem
        · obtain ⟨j, -, high, rfl⟩ := mem_halves.mp mem
          exact high
        · rw [mem_cons] at mem
          rcases mem with rfl | mem
          · exact part
          · exact absurd mem (notMem_zero _)

/-- Giving all live blocks back lists exactly the blocks there were. -/
theorem deallocateAll_blocks {released : List Block} {t : BuddyState}
    (consistent : Consistent region m) (all : (released : Multiset Block) = m.live)
    (done : deallocateAll build released m.state = .ok t) :
    Consistent region ⟨t, 0⟩ ∧ t.freeBlocks = m.blocks := by
  induction released generalizing m with
  | nil =>
    cases done
    have unused : m.live = 0 := all.symm
    obtain ⟨s, live⟩ := m
    dsimp only at unused
    subst unused
    exact ⟨consistent, by rw [blocks, add_zero]⟩
  | cons block rest ih =>
    have live : m.live = block ::ₘ (rest : Multiset Block) := all.symm
    have member : block ∈ m.live := by simp [live]
    rw [deallocateAll] at done
    rcases deallocate_spec build (consistent.placed_live block member)
      (consistent.live block member) with ⟨u, call, released⟩ | ⟨_, -, raised⟩
    · rw [call] at done
      obtain ⟨after, lists⟩ := ih (m := ⟨u, rest⟩) (consistent.released live released) rfl done
      refine ⟨after, lists.trans ?_⟩
      rw [blocks, blocks, live, released.blocks, cons_add, add_cons]
    · rw [raised] at done
      cases done

/-- `allocate` serves a request of an order that has no block left never, and one for a listed
block always. -/
theorem allocate_some_iff (consistent : Consistent region m) (zone : ZoneType)
    (small : order ≤ maxOrder) :
    (∃ owned u, m.state.allocate build zone order = .ok (some owned, u)) ↔
      ∃ block ∈ m.state.freeBlocks, block.zone = zone ∧ order ≤ block.order := by
  rcases allocate_spec build zone consistent.placed_free consistent.free small with
    ⟨none, empty⟩ | ⟨block, u, member, same, bound, some, -⟩
  · rw [none]
    refine iff_of_false (by rintro ⟨owned, u, served⟩; cases served) ?_
    rintro ⟨block, member, same, bound⟩
    exact absurd (empty block member same) (not_lt.mpr bound)
  · exact iff_of_true ⟨_, u, some⟩ ⟨block, member, same, bound⟩

end Requests

/-- Releasing a live block of a coalesced machine returns and leaves it coalesced exactly when the
block is releasable and its buddy is not listed. Starting from one listed block, requests followed
by the release of every block they returned, in any order, leave a block of the first order exactly
when no request fits, or the first that fits asked for the whole block and that is releasable. -/
theorem deallocate_coalesces_iff (build : Build) {m₀ : Machine} (start : Start m₀) :
    (∀ m block rest, ReflTransGen (Step build) m₀ m → m.state.Coalesced →
      m.live = block ::ₘ rest →
      ((∃ t, m.state.deallocate build block.start = .ok (.ok (), t) ∧ t.Coalesced) ↔
        Releasable build m.state block ∧
          (block.order < maxOrder → ∀ other ∈ m.state.freeBlocks, ¬block.Buddies other))) ∧
    (∀ block requests, m₀.state.freeBlocks = {block} → (∀ r ∈ requests, r.2 ≤ maxOrder) →
      ∃ m, allocateAll build requests m₀ = .ok m ∧
        ∀ released : List Block, (released : Multiset Block) = m.live →
          ((∃ t owned u, deallocateAll build released m.state = .ok t ∧
              t.allocate build block.zone block.order = .ok (some owned, u)) ↔
            ∀ request, requests.find? (fits block) = some request →
              request.2 = block.order ∧ Releasable build m₀.state block)) := by
  constructor
  · intro m block rest run coalesced live
    have consistent := start.consistent.run run
    have member : block ∈ m.live := by simp [live]
    have placed := consistent.placed_live block member
    have metadata := consistent.live block member
    rw [← deallocate_ok_iff placed metadata]
    constructor
    · rintro ⟨t, call, after⟩
      exact ⟨⟨t, call⟩,
        (coalesced_cons (deallocate_blocks placed metadata call) coalesced).mp after⟩
    · rintro ⟨⟨t, call⟩, unlisted⟩
      exact ⟨t, call,
        (coalesced_cons (deallocate_blocks placed metadata call) coalesced).mpr unlisted⟩
  · intro block requests single small
    have large : block.order ≤ maxOrder := (start.placed block (by simp [single])).order_le
    obtain ⟨m, requested, outcome⟩ := allocateAll_single start.consistent single start.live small
    have consistent := start.consistent.run (allocateAll_run small requested)
    refine ⟨m, requested, fun released all => ?_⟩
    rcases outcome with ⟨unfit, rfl⟩ | ⟨request, found, ⟨whole, live, taken⟩ | ⟨part, below⟩⟩
    · -- Nothing was allocated, so nothing is released.
      have nothing : released = [] := by simpa [start.live] using all
      subst nothing
      refine iff_of_true ?_ fun request found => absurd (unfit.symm.trans found) (by simp)
      obtain ⟨owned, u, served⟩ := (allocate_some_iff consistent block.zone large).mpr
        ⟨block, by simp [single], rfl, le_refl _⟩
      exact ⟨m.state, owned, u, rfl, served⟩
    · have one : released = [block] := by
        rw [live] at all
        exact Multiset.coe_eq_singleton.mp all
      subst one
      have member : block ∈ m.live := by simp [live]
      have reads : Releasable build m.state block ↔ Releasable build m₀.state block :=
        taken.releasable_iff
      rw [found]
      simp only [Option.some_inj, forall_eq', whole, true_and]
      rw [← reads, ← deallocate_ok_iff (consistent.placed_live block member)
        (consistent.live block member)]
      constructor
      · rintro ⟨t, owned, u, done, served⟩
        rw [deallocateAll] at done
        rcases deallocate_spec build (consistent.placed_live block member)
          (consistent.live block member) with ⟨v, call, -⟩ | ⟨_, -, raised⟩
        · exact ⟨v, call⟩
        · rw [raised] at done
          cases done
      · rintro ⟨t, call⟩
        have done : deallocateAll build [block] m.state = .ok t := by
          rw [deallocateAll, call]
          rfl
        obtain ⟨after, lists⟩ := deallocateAll_blocks consistent all done
        obtain ⟨owned, u, served⟩ := (allocate_some_iff after block.zone large).mpr
          ⟨block, by simp [lists, blocks, live], rfl, le_refl _⟩
        exact ⟨t, owned, u, done, served⟩
    · refine iff_of_false ?_ fun right => part (right request found).1
      rintro ⟨t, owned, u, done, served⟩
      obtain ⟨after, lists⟩ := deallocateAll_blocks consistent all done
      obtain ⟨other, member, -, bound⟩ :=
        (allocate_some_iff after block.zone large).mp ⟨owned, u, served⟩
      exact absurd (below other (lists ▸ member)) (not_lt.mpr bound)

/-- A seeded block of two frames, one of them allocated and given back: both halves are listed, and
no block of two frames can be allocated any more. -/
theorem deallocate_leaves_buddies : ∃ m t, Start (seeded ⟨.mem32, 0x200, 1⟩) ∧
    ReflTransGen (Step ⟨true⟩) (seeded ⟨.mem32, 0x200, 1⟩) m ∧
    m.live = {⟨.mem32, 0x200, 0⟩} ∧ m.state.Coalesced ∧
    m.state.deallocate ⟨true⟩ 0x200 = .ok (.ok (), t) ∧ ¬t.Coalesced ∧
    t.allocate ⟨true⟩ .mem32 1 = .ok (none, t) := by
  obtain ⟨m, requested, live, coalesced, t, call, buddies, none⟩ : ∃ m,
      allocateAll ⟨true⟩ [(.mem32, 0)] (seeded ⟨.mem32, 0x200, 1⟩) = .ok m ∧
      m.live = {⟨.mem32, 0x200, 0⟩} ∧ m.state.Coalesced ∧ ∃ t,
        m.state.deallocate ⟨true⟩ 0x200 = .ok (.ok (), t) ∧ ¬t.Coalesced ∧
        t.allocate ⟨true⟩ .mem32 1 = .ok (none, t) :=
    ⟨_, rfl, rfl, by decide, _, rfl, by decide, rfl⟩
  exact ⟨m, t, seeded_start ⟨by decide, by decide, by decide, by decide, by decide⟩,
    allocateAll_run (by decide) requested, live, coalesced, call, buddies, none⟩

/-- The whole block allocated and given back can be allocated again. -/
theorem deallocate_coalesces_iff_whole : ∃ m t owned u,
    allocateAll ⟨true⟩ [(.mem32, 1), (.mem32, 0)] (seeded ⟨.mem32, 0x200, 1⟩) = .ok m ∧
    m.live = {⟨.mem32, 0x200, 1⟩} ∧ deallocateAll ⟨true⟩ [⟨.mem32, 0x200, 1⟩] m.state = .ok t ∧
    t.allocate ⟨true⟩ .mem32 1 = .ok (some owned, u) := by
  have start : Start (seeded ⟨.mem32, 0x200, 1⟩) :=
    seeded_start ⟨by decide, by decide, by decide, by decide, by decide⟩
  obtain ⟨m, requested, right⟩ := (deallocate_coalesces_iff ⟨true⟩ start).2 ⟨.mem32, 0x200, 1⟩
    [(.mem32, 1), (.mem32, 0)] (seeded_freeBlocks (by decide)) (by decide)
  obtain ⟨m', computed, live⟩ : ∃ m', allocateAll ⟨true⟩ [(.mem32, 1), (.mem32, 0)]
      (seeded ⟨.mem32, 0x200, 1⟩) = .ok m' ∧ m'.live = {⟨.mem32, 0x200, 1⟩} := ⟨_, rfl, rfl⟩
  obtain rfl : m' = m := by
    rw [computed] at requested
    exact Except.ok.inj requested
  obtain ⟨t, owned, u, done, served⟩ := (right [⟨.mem32, 0x200, 1⟩] live.symm).mpr <| by
    rintro request found
    cases found
    exact ⟨rfl, by decide, fun _ _ _ => ⟨by decide, fun _ => rfl, fun tail => by cases tail⟩⟩
  exact ⟨m', t, owned, u, requested, live, done, served⟩

end Machine

end Horizon.Memory
