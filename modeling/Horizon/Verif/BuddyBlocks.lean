import Horizon.Kernel.Buddy
import Horizon.Spec.Tiling
import Horizon.Verif.FrameMeta

/-!
# Blocks of the buddy allocator

The free lists are read as one multiset of blocks. Linking a record adds one block and unlinking
removes one. A block carries its placement (order, alignment, zone, vmemmap range) and the metadata
its frames must have while it is free or live.
-/

namespace Horizon.Memory

open Tiling
open Multiset hiding bind

/-- A block of `2 ^ order` frames, with the zone it is listed or requested in. -/
structure Block where
  zone : ZoneType
  start : Nat
  order : Nat
  deriving DecidableEq

namespace Block

def span (block : Block) : Finset ℕ := Finset.Ico block.start (block.start + 2 ^ block.order)

@[simp] theorem mem_span (block : Block) (n : ℕ) :
    n ∈ block.span ↔ block.start ≤ n ∧ n < block.start + 2 ^ block.order :=
  Finset.mem_Ico

theorem start_mem_span (block : Block) : block.start ∈ block.span := by
  have := Nat.two_pow_pos block.order
  rw [mem_span]
  omega

/-- Order, natural alignment, zone and vmemmap range of a block. -/
structure Placed (block : Block) : Prop where
  order_le : block.order ≤ maxOrder
  aligned : 2 ^ block.order ∣ block.start
  zone_start : block.zone.rangeStart ≤ block.start
  zone_end : block.start + 2 ^ block.order ≤ block.zone.rangeEnd
  vmemmap : block.start + 2 ^ block.order ≤ vmemmapFrames

theorem Placed.lt_vmemmap {block : Block} (placed : block.Placed) :
    block.start < vmemmapFrames := by
  have := placed.vmemmap
  have := Nat.two_pow_pos block.order
  omega

end Block

def BuddyState.freeBlocks (s : BuddyState) : Multiset Block :=
  ∑ zone : ZoneType, ∑ order ∈ Finset.range (maxOrder + 1),
    (s.freeFrames zone order : Multiset ℕ).map (⟨zone, ·, order⟩)

namespace BuddyState

variable {s : BuddyState} {zone : ZoneType} {order frame : Nat}

theorem count_freeBlocks (s : BuddyState) (block : Block) : s.freeBlocks.count block =
      if block.order ≤ maxOrder then (s.freeFrames block.zone block.order).count block.start
      else 0 := by
  have inner : ∀ zone order,
      ((s.freeFrames zone order : Multiset ℕ).map (Block.mk zone · order)).count block =
        if zone = block.zone ∧ order = block.order then
          (s.freeFrames block.zone block.order).count block.start else 0 := by
    intro zone order
    by_cases same : zone = block.zone ∧ order = block.order
    · obtain ⟨rfl, rfl⟩ := same
      rw [if_pos ⟨rfl, rfl⟩, ← coe_count]
      refine count_map_eq_count' (Block.mk block.zone · block.order) _ ?_ block.start
      intro first second equal
      exact (Block.mk.inj equal).2.1
    · rw [if_neg same, count_eq_zero, mem_map]
      rintro ⟨start, -, rfl⟩
      exact same ⟨rfl, rfl⟩
  unfold freeBlocks
  simp only [count_sum', inner]
  rw [Finset.sum_eq_single block.zone]
  · simp only [true_and, Finset.sum_ite_eq', Finset.mem_range, Nat.lt_succ_iff]
  · intro other _ different
    simp [different]
  · simp

theorem mem_freeBlocks (s : BuddyState) (block : Block) : block ∈ s.freeBlocks ↔
      block.order ≤ maxOrder ∧ block.start ∈ s.freeFrames block.zone block.order := by
  rw [← count_pos, count_freeBlocks]
  split
  · rename_i small
    rw [List.count_pos_iff]
    exact ⟨fun member => ⟨small, member⟩, fun both => both.2⟩
  · rename_i large
    exact ⟨fun positive => absurd positive (lt_irrefl 0), fun both => absurd both.1 large⟩

theorem freeBlocks_setFreeList_cons (list : List Nat) (small : order ≤ maxOrder)
    (perm : list.Perm (frame :: s.freeFrames zone order)) :
    (s.setFreeList zone order list).freeBlocks = ⟨zone, frame, order⟩ ::ₘ s.freeBlocks := by
  ext block
  rw [count_cons, count_freeBlocks, count_freeBlocks]
  by_cases same : block.zone = zone ∧ block.order = order
  · obtain ⟨rfl, rfl⟩ := same
    rw [if_pos small, if_pos small]
    simp only [setFreeList, Function.update_self, perm.count_eq, List.count_cons]
    congr 1
    by_cases start : frame = block.start
    · subst start
      simp
    · rw [if_neg (by simpa using start), if_neg]
      intro equal
      exact start (congrArg Block.start equal).symm
  · have other : block ≠ ⟨zone, frame, order⟩ := by
      rintro rfl
      exact same ⟨rfl, rfl⟩
    rw [if_neg other, add_zero]
    congr 1
    by_cases sameZone : block.zone = zone
    · have different : block.order ≠ order := fun equal => same ⟨sameZone, equal⟩
      simp [setFreeList, sameZone, different]
    · simp [setFreeList, sameZone]

theorem freeBlocks_congr {t : BuddyState} (same : s.freeFrames = t.freeFrames) :
    s.freeBlocks = t.freeBlocks := by
  unfold freeBlocks
  rw [same]

theorem add_spec {place : Nat → List Nat → List Nat} (zone : ZoneType) {buddy : Buddy}
    (perm : ∀ frame list, (place frame list).Perm (frame :: list)) (small : order ≤ maxOrder)
    (tag : (s.frames frame).tag = .buddy) (data : (s.frames frame).data = .buddy buddy)
    (unlinked : buddy.linked = false) : ∃ s', s.add place zone order frame = .ok s' ∧
      s'.freeBlocks = ⟨zone, frame, order⟩ ::ₘ s.freeBlocks ∧
      s'.frames = s.frames.setBuddy frame { buddy with linked := true } ∧
      s'.allocatedPages = s.allocatedPages := by
  let linked : BuddyState :=
    { s with frames := s.frames.setBuddy frame { buddy with linked := true } }
  refine ⟨linked.setFreeList zone order (place frame (s.freeFrames zone order)), ?_, ?_, rfl, rfl⟩
  · simp only [add, getFreeList, if_pos small, buddy_of_head tag data, unlinked, bind, Except.bind,
      pure, Except.pure, Bool.false_eq_true, if_false]
    rfl
  · exact freeBlocks_setFreeList_cons (s := linked) _ small (perm _ _)

section

variable (zone) {buddy : Buddy} (small : order ≤ maxOrder)
  (tag : (s.frames frame).tag = .buddy) (data : (s.frames frame).data = .buddy buddy)
  (unlinked : buddy.linked = false)
include zone small tag data unlinked

theorem addHead_spec : ∃ s', s.addHead zone order frame = .ok s' ∧
      s'.freeBlocks = ⟨zone, frame, order⟩ ::ₘ s.freeBlocks ∧
      s'.frames = s.frames.setBuddy frame { buddy with linked := true } ∧
      s'.allocatedPages = s.allocatedPages :=
  add_spec zone (fun _ _ => List.Perm.refl _) small tag data unlinked

theorem addTail_spec : ∃ s', s.addTail zone order frame = .ok s' ∧
      s'.freeBlocks = ⟨zone, frame, order⟩ ::ₘ s.freeBlocks ∧
      s'.frames = s.frames.setBuddy frame { buddy with linked := true } ∧
      s'.allocatedPages = s.allocatedPages :=
  add_spec zone (fun _ _ => List.perm_append_singleton _ _) small tag data unlinked

end

theorem delete_spec {buddy : Buddy} {rest : List Nat} (small : order ≤ maxOrder)
    (listed : s.freeFrames zone order = frame :: rest)
    (tag : (s.frames frame).tag = .buddy) (data : (s.frames frame).data = .buddy buddy)
    (linked : buddy.linked = true) : ∃ s', s.delete zone order frame = .ok s' ∧
      s.freeBlocks = ⟨zone, frame, order⟩ ::ₘ s'.freeBlocks ∧
      s'.frames = s.frames.setBuddy frame { buddy with linked := false } ∧
      s'.allocatedPages = s.allocatedPages := by
  let unlinked : BuddyState :=
    { s with frames := s.frames.setBuddy frame { buddy with linked := false } }
  refine ⟨unlinked.setFreeList zone order ((s.freeFrames zone order).erase frame), ?_, ?_, rfl, rfl⟩
  · simp only [delete, getFreeList, if_pos small, buddy_of_head tag data, linked, bind, Except.bind,
      pure, Except.pure, Bool.not_true, Bool.false_eq_true, if_false]
    rfl
  · -- Putting the frame back in front of the shortened list gives the old list.
    rw [← freeBlocks_setFreeList_cons (s.freeFrames zone order) small]
    · apply freeBlocks_congr
      funext otherZone
      by_cases same : otherZone = zone
      · subst same
        simp [setFreeList, unlinked]
      · simp [setFreeList, unlinked]
    · simp [setFreeList, unlinked, listed]

end BuddyState

/-- The records of a free block. -/
structure FreeMeta (frames : Vmemmap) (block : Block) : Prop where
  tag : (frames block.start).tag = .buddy
  data : (frames block.start).data = .buddy ⟨true, block.order, block.zone⟩
  interior : ∀ n, block.start < n → n < block.start + 2 ^ block.order →
    (frames n).tag = .uninited ∨ (frames n).tag = .tail
  exclusive : ∀ n ∈ block.span, (frames n).refcount = 0

/-- The records of an allocated block. -/
structure LiveMeta (frames : Vmemmap) (block : Block) : Prop where
  tag : (frames block.start).tag = .anonymous
  data : (frames block.start).data = .anonymous block.order
  interior : ∀ n, block.start < n → n < block.start + 2 ^ block.order →
    (frames n).tag = .tail ∧
      (frames n).data = .range ⟨block.start, block.start + 2 ^ block.order⟩
  exclusive : ∀ n ∈ block.span, (frames n).refcount = 0

section Congruence

variable {frames others : Vmemmap} {block : Block}

theorem FreeMeta.congr (free : FreeMeta frames block)
    (same : ∀ n ∈ block.span, others n = frames n) : FreeMeta others block where
  tag := by rw [same _ block.start_mem_span]; exact free.tag
  data := by rw [same _ block.start_mem_span]; exact free.data
  interior n low high := by
    rw [same n (by rw [Block.mem_span]; omega)]
    exact free.interior n low high
  exclusive n inside := by rw [same n inside]; exact free.exclusive n inside

theorem LiveMeta.congr (live : LiveMeta frames block)
    (same : ∀ n ∈ block.span, others n = frames n) : LiveMeta others block where
  tag := by rw [same _ block.start_mem_span]; exact live.tag
  data := by rw [same _ block.start_mem_span]; exact live.data
  interior n low high := by
    rw [same n (by rw [Block.mem_span]; omega)]
    exact live.interior n low high
  exclusive n inside := by rw [same n inside]; exact live.exclusive n inside

end Congruence

/-- The upper halves that cutting a block of the given order down to `target` puts aside. -/
def halves (zone : ZoneType) (start target : Nat) : Nat → Multiset Block
  | 0 => 0
  | order + 1 =>
    if target < order + 1 then ⟨zone, start + 2 ^ order, order⟩ ::ₘ halves zone start target order
    else 0

theorem mem_halves {zone : ZoneType} {start target order : Nat} {block : Block} :
    block ∈ halves zone start target order ↔
      ∃ j, target ≤ j ∧ j < order ∧ block = ⟨zone, start + 2 ^ j, j⟩ := by
  induction order with
  | zero => simp [halves]
  | succ order ih =>
    unfold halves
    split
    · rename_i below
      rw [mem_cons, ih]
      constructor
      · rintro (rfl | ⟨j, low, high, rfl⟩)
        · exact ⟨order, by omega, by omega, rfl⟩
        · exact ⟨j, low, by omega, rfl⟩
      · rintro ⟨j, low, high, rfl⟩
        by_cases last : j = order
        · subst last
          exact .inl rfl
        · exact .inr ⟨j, low, by omega, rfl⟩
    · rename_i above
      constructor
      · exact fun member => absurd member (notMem_zero _)
      · rintro ⟨j, low, high, -⟩
        omega

theorem halves_self (zone : ZoneType) (start order : Nat) : halves zone start order order = 0 := by
  cases order with
  | zero => rfl
  | succ order => simp [halves]

theorem cover_halves (zone : ZoneType) (start : Nat) {target order : Nat} (bound : target ≤ order)
    (n : ℕ) : cover Block.span (⟨zone, start, target⟩ ::ₘ halves zone start target order) n =
      if n ∈ Block.span ⟨zone, start, order⟩ then 1 else 0 := by
  induction order, bound using Nat.le_induction with
  | base => rw [halves_self, cover_cons, cover_zero, zero_add]
  | succ order bound ih =>
    rw [halves, if_pos (by omega), cons_swap, cover_cons, ih]
    simp only [Block.mem_span]
    by_cases low : start ≤ n ∧ n < start + 2 ^ order
    · rw [if_pos low, if_neg (by omega), if_pos (by omega)]
    · by_cases high : start + 2 ^ order ≤ n ∧ n < start + 2 ^ order + 2 ^ order
      · rw [if_neg low, if_pos high, if_pos (by omega)]
      · rw [if_neg low, if_neg high, if_neg (by omega)]

section

variable {zone : ZoneType} {start target order : Nat} (placed : Block.Placed ⟨zone, start, order⟩)
include placed

theorem halves_placed : ∀ block ∈ halves zone start target order, block.Placed := by
  intro block member
  obtain ⟨j, low, high, rfl⟩ := mem_halves.mp member
  have small : 2 ^ j + 2 ^ j ≤ 2 ^ order := by
    have := Nat.pow_le_pow_right (show 0 < 2 by decide) (show j + 1 ≤ order by omega)
    rw [pow_succ] at this
    omega
  obtain ⟨orderLe, aligned, zoneStart, zoneEnd, vmemmap⟩ := placed
  dsimp only at orderLe aligned zoneStart zoneEnd vmemmap
  exact {
    order_le := by dsimp only; omega
    aligned := dvd_add (dvd_trans (pow_dvd_pow 2 high.le) aligned) (dvd_refl _)
    zone_start := le_trans zoneStart (Nat.le_add_right _ _)
    zone_end := by dsimp only; omega
    vmemmap := by dsimp only; omega }

theorem Block.Placed.shrink (bound : target ≤ order) : Block.Placed ⟨zone, start, target⟩ := by
  have small : 2 ^ target ≤ 2 ^ order := Nat.pow_le_pow_right (by decide) bound
  obtain ⟨orderLe, aligned, zoneStart, zoneEnd, vmemmap⟩ := placed
  dsimp only at orderLe aligned zoneStart zoneEnd vmemmap
  exact {
    order_le := by dsimp only; omega
    aligned := dvd_trans (pow_dvd_pow 2 bound) aligned
    zone_start := zoneStart
    zone_end := by dsimp only; omega
    vmemmap := by dsimp only; omega }

end

end Horizon.Memory
