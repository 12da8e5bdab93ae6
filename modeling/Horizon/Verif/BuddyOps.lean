import Horizon.Verif.BuddyBlocks

/-!
# What each buddy operation does to blocks and records

`allocate` either finds every list from the requested order upwards empty, or takes the first block
of the lowest non-empty one, cuts it and hands out its lowest piece. `deallocate` puts exactly the
released block back: `merge_once` examines the address one whole block past its buddy, so no merge
happens.
-/

namespace Horizon.Memory

open Tiling UniqueFrames Block ZoneType Nat

variable (build : Build) (zone : ZoneType)

namespace BuddyState

/-- Cutting a block of order `order` at `start` down to `target`, from `s` to `t`. -/
structure Cut (zone : ZoneType) (start target order : Nat) (s t : BuddyState) : Prop where
  blocks : t.freeBlocks = halves zone start target order + s.freeBlocks
  halves : ∀ block ∈ halves zone start target order, FreeMeta t.frames block
  outside : ∀ n, n ≤ start ∨ start + 2 ^ order ≤ n → t.frames n = s.frames n
  inside : ∀ n, start < n → n < start + 2 ^ target → t.frames n = s.frames n
  pages : t.allocatedPages = s.allocatedPages
  readable : ∀ n, Readable s.frames n → Readable t.frames n

variable {order start target : Nat}

theorem freeMeta_half {frames : Vmemmap} {zone : ZoneType}
    (interior : ∀ n, start < n → n < start + 2 ^ order → (frames n).tag = .uninited ∨
      (frames n).tag = .tail)
    (exclusive : ∀ n, start ≤ n → n < start + 2 ^ order → (frames n).refcount = 0) :
    FreeMeta ((frames.replace start .buddy (.buddy ⟨false, order, zone⟩)).setBuddy start
      ⟨true, order, zone⟩) ⟨zone, start, order⟩ where
  tag := by simp
  data := by simp
  interior n low high := by
    have different : n ≠ start := ne_of_gt low
    rw [setBuddy_ne _ _ _ different, replace_ne _ _ _ _ different]
    exact interior n low high
  exclusive n inside := by
    rw [mem_span] at inside
    simpa using exclusive n inside.1 inside.2

theorem splitLoop_spec (bound : target ≤ order) (s : BuddyState)
    (placed : Block.Placed ⟨zone, start, order⟩)
    (interior : ∀ n, start < n → n < start + 2 ^ order → (s.frames n).tag = .uninited ∨
      (s.frames n).tag = .tail)
    (exclusive : ∀ n, start ≤ n → n < start + 2 ^ order → (s.frames n).refcount = 0) :
    ∃ t, splitLoop build zone target order ⟨start, order⟩ s = .ok (⟨start, target⟩, t) ∧
      Cut zone start target order s t := by
  induction order, bound using le_induction generalizing s with
  | base =>
    refine ⟨s, ?_, ?_⟩
    · cases target with
      | zero => rfl
      | succ target => simp [splitLoop]
    · exact ⟨by rw [halves_self, zero_add], by simp [halves_self], fun _ _ => rfl,
        fun _ _ _ => rfl, rfl, fun _ readable => readable⟩
  | succ order bound ih =>
    have positive : 0 < 2 ^ order := Nat.two_pow_pos order
    have small : order ≤ maxOrder := le_trans (le_succ order) placed.order_le
    have lower := placed.shrink (le_succ order)
    have record : start + 2 ^ order < vmemmapFrames := by
      have := placed.vmemmap
      dsimp only at this
      omega
    -- The upper half becomes a buddy block at the tail of its list.
    let half := s.replaceBuddy (start + 2 ^ order) order zone
    obtain ⟨t₁, added, blocks₁, frames₁, pages₁⟩ := addTail_spec (s := half) zone small
      (show (half.frames (start + 2 ^ order)).tag = .buddy by simp [half, replaceBuddy, replace])
      (show (half.frames (start + 2 ^ order)).data = .buddy ⟨false, order, zone⟩ by
        simp [half, replaceBuddy, replace]) rfl
    have frames₁' : t₁.frames = (s.frames.replace (start + 2 ^ order) .buddy
        (.buddy ⟨false, order, zone⟩)).setBuddy (start + 2 ^ order) ⟨true, order, zone⟩ := frames₁
    have keep : ∀ n, n ≠ start + 2 ^ order → t₁.frames n = s.frames n := by
      intro n different
      rw [frames₁', setBuddy_ne _ _ _ different, replace_ne _ _ _ _ different]
    have freeHalf : FreeMeta t₁.frames ⟨zone, start + 2 ^ order, order⟩ := by
      rw [frames₁']
      exact freeMeta_half (fun n low high => interior n (by omega) (by omega))
        (fun n low high => exclusive n (by omega) (by omega))
    obtain ⟨t, rest, cut⟩ := ih t₁ lower
      (fun n low high => by rw [keep n (by omega)]; exact interior n low (by omega))
      (fun n low high => by rw [keep n (by omega)]; exact exclusive n low (by omega))
    have upper : (s.frames (start + 2 ^ order)).tag = .uninited ∨
        (s.frames (start + 2 ^ order)).tag = .tail := interior _ (by omega) (by omega)
    refine ⟨t, ?_, ?_, ?_, ?_, ?_, ?_, ?_⟩
    · have owned : UniqueFrames.split build ⟨start, order + 1⟩ =
          .ok (⟨start, order⟩, ⟨start + 2 ^ order, order⟩) := by
        simp [UniqueFrames.split, getRaw_of_lt record, bind, Except.bind, pure, Except.pure]
      rw [splitLoop, if_pos (by omega)]
      simp only [owned, bind, Except.bind]
      rcases upper with tag | tag <;> simp only [tag] <;>
        rw [show s.replaceBuddy _ order zone = half from rfl, added] <;> exact rest
    · rw [cut.blocks, blocks₁, halves, if_pos (by omega), Multiset.cons_add, Multiset.add_cons]
      rfl
    · intro block member
      rw [halves, if_pos (by omega), Multiset.mem_cons] at member
      rcases member with rfl | member
      · refine freeHalf.congr fun n inside => cut.outside n (.inr ?_)
        rw [mem_span] at inside
        exact inside.1
      · exact cut.halves block member
    · intro n apart
      rw [cut.outside n (by omega), keep n (by omega)]
    · intro n low high
      have shorter : 2 ^ target ≤ 2 ^ order := Nat.pow_le_pow_right (by decide) bound
      rw [cut.inside n low high, keep n (by omega)]
    · rw [cut.pages, pages₁]
      rfl
    · intro n readable
      refine cut.readable n ?_
      rw [frames₁']
      exact (readable.replace (by decide)).setBuddy (by simp [replace_self])

theorem split_spec {buddy : Buddy} (bound : target ≤ order)
    (s : BuddyState) (placed : Block.Placed ⟨zone, start, order⟩)
    (tag : (s.frames start).tag = .buddy) (data : (s.frames start).data = .buddy buddy)
    (interior : ∀ n, start < n → n < start + 2 ^ order → (s.frames n).tag = .uninited ∨
      (s.frames n).tag = .tail)
    (exclusive : ∀ n, start ≤ n → n < start + 2 ^ order → (s.frames n).refcount = 0) :
    ∃ t, Cut zone start target order s t ∧
      split build zone order target ⟨start, order⟩ s = .ok (⟨start, target⟩,
        { t with frames := t.frames.setBuddy start { buddy with order := target } }) := by
  obtain ⟨t, loop, cut⟩ := splitLoop_spec build zone bound s placed interior exclusive
  have head := cut.outside start (.inl (le_refl start))
  refine ⟨t, cut, ?_⟩
  simp only [split, loop, bind, Except.bind, pure, Except.pure,
    buddy_of_head (head ▸ tag) (head ▸ data)]

/-- Taking `block` off its list and handing out its lowest piece of order `target`. -/
structure Taken (block : Block) (target : Nat) (s t : BuddyState) : Prop where
  blocks : ∃ rest, s.freeBlocks = block ::ₘ rest ∧
    t.freeBlocks = halves block.zone block.start target block.order + rest
  halves : ∀ half ∈ halves block.zone block.start target block.order, FreeMeta t.frames half
  live : LiveMeta t.frames ⟨block.zone, block.start, target⟩
  outside : ∀ n, n ∉ block.span → t.frames n = s.frames n
  pages : t.allocatedPages = (s.allocatedPages + 2 ^ target) % 2 ^ 64
  readable : ∀ n, Readable s.frames n → Readable t.frames n

variable {block : Block}

theorem splitLarger_spec {buddy : Buddy} (s : BuddyState)
    (bound : target ≤ block.order) (placed : block.Placed)
    (tag : (s.frames block.start).tag = .buddy) (data : (s.frames block.start).data = .buddy buddy)
    (interior : ∀ n, block.start < n → n < block.start + 2 ^ block.order →
      (s.frames n).tag = .uninited ∨ (s.frames n).tag = .tail)
    (exclusive : ∀ n, block.start ≤ n → n < block.start + 2 ^ block.order →
      (s.frames n).refcount = 0) :
    ∃ t, Cut block.zone block.start target block.order s t ∧ ∃ u : BuddyState,
      s.splitLarger build block.zone block.order target ⟨block.start, block.order⟩ =
        .ok (⟨block.start, target⟩, u) ∧
      u.freeFrames = t.freeFrames ∧ u.allocatedPages = t.allocatedPages ∧
      (∀ n, n ≠ block.start → u.frames n = t.frames n) ∧
      (u.frames block.start).refcount = (t.frames block.start).refcount ∧
      (∀ n, Readable t.frames n → Readable u.frames n) := by
  by_cases cutting : block.order = target
  · subst cutting
    refine ⟨s, ?_, s, by simp [splitLarger], rfl, rfl, fun _ _ => rfl, rfl, fun _ same => same⟩
    exact ⟨by rw [halves_self, zero_add], by simp [halves_self], fun _ _ => rfl,
      fun _ _ _ => rfl, rfl, fun _ readable => readable⟩
  · obtain ⟨t, cut, done⟩ := split_spec build block.zone bound s placed tag data interior exclusive
    let u : BuddyState :=
      { t with frames := t.frames.setBuddy block.start { buddy with order := target } }
    refine ⟨t, cut, u, by rw [splitLarger, if_pos cutting]; exact done, rfl, rfl, ?_, ?_, ?_⟩
    · intro n different
      exact setBuddy_ne _ _ _ different
    · exact setBuddy_refcount _ _ _ _
    · intro n readable
      refine readable.setBuddy ?_
      rw [cut.outside _ (.inl (le_refl _)), tag]
      decide

variable {s : BuddyState}

variable {order start target : Nat}

theorem takeBlock_spec (block : Block) {rest : List Nat}
    (bound : target ≤ block.order) (placed : block.Placed) (free : FreeMeta s.frames block)
    (listed : s.freeFrames block.zone block.order = block.start :: rest) :
    ∃ t, s.takeBlock build block.zone target block.order block.start =
        .ok (⟨block.start, target⟩, t) ∧ Taken block target s t := by
  have small := placed.order_le
  have shorter : 2 ^ target ≤ 2 ^ block.order := Nat.pow_le_pow_right (by decide) bound
  obtain ⟨s₁, deleted, blocks₁, frames₁, pages₁⟩ := delete_spec small listed free.tag free.data rfl
  have keep₁ : ∀ n, n ≠ block.start → s₁.frames n = s.frames n := by
    intro n different
    rw [frames₁, setBuddy_ne _ _ _ different]
  have exclusive₁ : ∀ n, block.start ≤ n → n < block.start + 2 ^ block.order →
      (s₁.frames n).refcount = 0 := by
    intro n low high
    rw [frames₁, setBuddy_refcount]
    exact free.exclusive n (by rw [mem_span]; exact ⟨low, high⟩)
  have tag₁ : (s₁.frames block.start).tag = .buddy := by rw [frames₁, setBuddy_tag]; exact free.tag
  have owned := fromAllocator_buddy build s₁.frames placed.aligned placed.lt_vmemmap
    (exclusive₁ _ (le_refl _) (Nat.lt_add_of_pos_right (Nat.two_pow_pos _))) tag₁
  obtain ⟨t, cut, u, done, lists, pages, keep, head, readable⟩ :=
    splitLarger_spec build s₁ bound placed tag₁
    (by rw [frames₁, setBuddy_self])
    (fun n low high => by
      rw [keep₁ n (by omega)]
      exact free.interior n low high)
    exclusive₁
  -- The last two writes touch only the lowest piece.
  let final := u.replace block.start .anonymous (.anonymous target)
  let frames := setTailFrames final.frames ⟨block.start, target⟩
  have written : ∀ n, frames n = if block.start < n ∧ n < block.start + 2 ^ target then
      ⟨(final.frames n).refcount, .range ⟨block.start, block.start + 2 ^ target⟩, .tail⟩
      else final.frames n := setTailFrames_apply final.frames ⟨block.start, target⟩
  have past : ∀ n, n < block.start ∨ block.start + 2 ^ target ≤ n → frames n = u.frames n := by
    intro n apart
    have different : n ≠ block.start := by
      have := Nat.two_pow_pos target
      omega
    rw [written, if_neg (by omega)]
    exact replace_ne _ _ _ _ different
  refine ⟨({ final with frames := frames } : BuddyState).fetchAdd (toCount target), ?_, ?_⟩
  · simp only [takeBlock, deleted, owned, done, bind, Except.bind, pure, Except.pure]
    rfl
  refine ⟨⟨s₁.freeBlocks, blocks₁, ?_⟩, ?_, ⟨?_, ?_, ?_, ?_⟩, ?_, ?_, ?_⟩
  · rw [← cut.blocks]
    exact freeBlocks_congr lists
  · intro half member
    refine (cut.halves half member).congr fun n inside => ?_
    obtain ⟨j, low, high, rfl⟩ := mem_halves.mp member
    have longer : 2 ^ target ≤ 2 ^ j := Nat.pow_le_pow_right (by decide) low
    rw [mem_span] at inside
    dsimp only at inside
    exact (past n (by omega)).trans (keep n (by omega))
  · change (frames block.start).tag = _
    rw [written, if_neg (by omega)]
    exact congrArg Frame.tag (replace_self _ _ _ _)
  · change (frames block.start).data = _
    rw [written, if_neg (by omega)]
    exact congrArg Frame.data (replace_self _ _ _ _)
  · intro n low high
    change (frames n).tag = _ ∧ (frames n).data = _
    rw [written, if_pos ⟨low, high⟩]
    exact ⟨rfl, rfl⟩
  · intro n inside
    rw [mem_span] at inside
    dsimp only at inside
    change (frames n).refcount = 0
    have kept : (frames n).refcount = (u.frames n).refcount := by
      rw [written]
      split <;> exact replace_refcount _ _ _ _ _
    rw [kept]
    by_cases first : n = block.start
    · subst first
      rw [head, cut.outside _ (.inl (le_refl _))]
      exact exclusive₁ _ inside.1 (by omega)
    · rw [keep n first, cut.inside n (by omega) inside.2]
      exact exclusive₁ n inside.1 (by omega)
  · intro n apart
    rw [mem_span] at apart
    have positive := Nat.two_pow_pos block.order
    have different : n ≠ block.start := by omega
    rw [← keep₁ n different, ← cut.outside n (by omega), ← keep n different]
    exact past n (by omega)
  · change (u.allocatedPages + 2 ^ target) % 2 ^ 64 = _
    rw [pages, cut.pages, pages₁]
  · intro n before
    refine Readable.setTailFrames (Readable.replace (readable n (cut.readable n ?_)) (by decide))
      placed.lt_vmemmap
    rw [frames₁]
    exact before.setBuddy (by rw [free.tag]; decide)

theorem allocateLoop_spec {zone : ZoneType} (placed : ∀ block ∈ s.freeBlocks, block.Placed)
    (free : ∀ block ∈ s.freeBlocks, FreeMeta s.frames block) (left order : Nat)
    (bound : target ≤ order) (total : order + left = maxOrder + 1) :
    (allocateLoop build zone target s left order = .ok (none, s) ∧
        ∀ block ∈ s.freeBlocks, block.zone = zone → block.order < order) ∨
      ∃ block t, block ∈ s.freeBlocks ∧ block.zone = zone ∧ target ≤ block.order ∧
        allocateLoop build zone target s left order = .ok (some ⟨block.start, target⟩, t) ∧
        Taken block target s t := by
  induction left generalizing order with
  | zero =>
    refine .inl ⟨rfl, fun block member _ => ?_⟩
    have := ((mem_freeBlocks s block).mp member).1
    omega
  | succ left ih =>
    have small : order ≤ maxOrder := by omega
    rw [allocateLoop]
    simp only [getFreeList, if_pos small, bind, Except.bind]
    cases listed : s.freeFrames zone order with
    | nil =>
      rcases ih (order + 1) (by omega) (by omega) with ⟨result, empty⟩ | found
      · refine .inl ⟨result, fun block member sameZone => ?_⟩
        have above := empty block member sameZone
        have different : block.order ≠ order := by
          rintro rfl
          have := ((mem_freeBlocks s block).mp member).2
          rw [sameZone, listed] at this
          exact absurd this List.not_mem_nil
        omega
      · exact .inr found
    | cons frame rest =>
      have member : (⟨zone, frame, order⟩ : Block) ∈ s.freeBlocks :=
        (mem_freeBlocks s _).mpr ⟨small, by rw [listed]; exact List.mem_cons_self⟩
      obtain ⟨t, taken, outcome⟩ := takeBlock_spec build ⟨zone, frame, order⟩ bound
        (placed _ member) (free _ member) listed
      refine .inr ⟨⟨zone, frame, order⟩, t, member, rfl, bound, ?_, outcome⟩
      dsimp only at taken ⊢
      rw [taken]
      rfl

theorem allocate_spec (placed : ∀ block ∈ s.freeBlocks, block.Placed)
    (free : ∀ block ∈ s.freeBlocks, FreeMeta s.frames block) (small : order ≤ maxOrder) :
    (s.allocate build zone order = .ok (none, s) ∧
        ∀ block ∈ s.freeBlocks, block.zone = zone → block.order < order) ∨
      ∃ block t, block ∈ s.freeBlocks ∧ block.zone = zone ∧ order ≤ block.order ∧
        s.allocate build zone order = .ok (some ⟨block.start, order⟩, t) ∧
        Taken block order s t :=
  allocateLoop_spec build placed free _ _ (le_refl order) (by omega)

theorem mergeOnce_eq (s : BuddyState) (range : Nat × Nat) (aligned : 2 ^ (order + 1) ∣ start) :
    s.mergeOnce build ⟨start, order⟩ order range =
      if start < range.1 ∨ range.2 < start + 2 ^ (order + 1) then .ok (.error ⟨start, order⟩, s)
      else do
        let _ ← getRaw (start + 2 ^ (order + 1))
        let _ ← fromAllocator build s.frames (start + 2 ^ (order + 1)) order
        return (.error ⟨start, order⟩, s) := by
  have low := alignDown_of_dvd aligned
  have high := alignDown_of_dvd (dvd_add (dvd_trans (pow_dvd_pow 2 (le_succ order)) aligned)
      (pow_dvd_pow 2 (le_succ order)))
  have apart : start + 2 ^ order ≠ start + 2 ^ (order + 1) := by
    rw [pow_succ]
    omega
  unfold mergeOnce
  simp only [low, toCount, bind, Except.bind, pure, Except.pure, if_true]
  split
  · rfl
  · rcases getRaw_cases (start + 2 ^ (order + 1)) with record | missing
    · simp only [record]
      rcases fromAllocator_cases build s.frames (start + 2 ^ (order + 1)) order with
        owned | none | ⟨panic, -, raised⟩
      · rw [high] at owned
        have refused : mergeable s.frames ⟨start, order⟩
            ⟨start + 2 ^ (order + 1), order⟩ = false := by
          simp only [mergeable, Bool.and_eq_false_iff, beq_eq_false_iff_ne]
          exact .inr apart
        simp only [owned, refused]
        rfl
      · simp only [none]
      · simp only [raised]
    · simp only [missing]

theorem mergeLoop_spec (s : BuddyState) (start order : Nat) {limit : Nat}
    (range : Nat × Nat) (rounds : Nat) (aligned : order < limit → 2 ^ (order + 1) ∣ start) :
    mergeLoop build order limit range (rounds + 1) ⟨start, order⟩ s = .ok (⟨start, order⟩, s) ∨
      ∃ panic, NeighbourPanic panic ∧
        mergeLoop build order limit range (rounds + 1) ⟨start, order⟩ s = .error panic := by
  rw [mergeLoop]
  by_cases below : order < limit
  · rw [if_pos below, mergeOnce_eq build s range (aligned below)]
    split
    · exact .inl rfl
    · rcases getRaw_cases (start + 2 ^ (order + 1)) with record | missing
      · rcases fromAllocator_cases build s.frames (start + 2 ^ (order + 1)) order with
          owned | none | ⟨panic, foreign, raised⟩
        · exact .inl (by simp only [record, owned]; rfl)
        · exact .inl (by simp only [record, none]; rfl)
        · exact .inr ⟨panic, foreign, by simp only [record, raised]; rfl⟩
      · exact .inr ⟨_, .vmemmapOutOfRange, by simp only [missing]; rfl⟩
  · rw [if_neg below]
    exact .inl rfl

theorem mergeLoop_readable (s : BuddyState) (limit : Nat) (range : Nat × Nat)
    (rounds : Nat) (aligned : order < limit → 2 ^ (order + 1) ∣ start)
    (inside : start + 2 ^ (order + 1) < vmemmapFrames)
    (readable : Readable s.frames (start + 2 ^ (order + 1))) :
    mergeLoop build order limit range (rounds + 1) ⟨start, order⟩ s = .ok (⟨start, order⟩, s) := by
  obtain ⟨result, owned⟩ := fromAllocator_readable build order readable inside
  rw [mergeLoop]
  by_cases below : order < limit
  · rw [if_pos below, mergeOnce_eq build s range (aligned below)]
    simp only [getRaw_of_lt inside, owned]
    split <;> rfl
  · rw [if_neg below]
    rfl

/-- Putting a live block back on its list, from `s` to `t`. -/
structure Released (block : Block) (s t : BuddyState) : Prop where
  blocks : t.freeBlocks = block ::ₘ s.freeBlocks
  free : FreeMeta t.frames block
  outside : ∀ n, n ≠ block.start → t.frames n = s.frames n
  pages : t.allocatedPages = (s.allocatedPages + (2 ^ 64 - 2 ^ block.order)) % 2 ^ 64
  readable : ∀ n, Readable s.frames n → Readable t.frames n

theorem fromFrame_of_placed (placed : block.Placed) (high : reservedEnd ≤ block.start) :
    fromFrame block.start = .ok block.zone := by
  have positive := Nat.two_pow_pos block.order
  have lower := placed.zone_start
  have upper := placed.zone_end
  unfold fromFrame
  rw [if_neg (by omega)]
  cases zone : block.zone <;> simp only [zone, rangeStart, rangeEnd, pageSize] at *
  · rw [if_neg (by omega)]
  · rw [if_pos (by omega)]

def released (s : BuddyState) (block : Block) : BuddyState :=
  (s.replaceBuddy block.start block.order block.zone).fetchSub (2 ^ block.order)

theorem deallocate_eq (placed : block.Placed) (live : LiveMeta s.frames block)
    (high : reservedEnd ≤ block.start) : s.deallocate build block.start =
      (mergeLoop build block.order (min (trailingZeros block.start) maxOrder)
        (block.zone.rangeStart, block.zone.rangeEnd) mergeRounds ⟨block.start, block.order⟩
        (s.released block)).bind fun (owned, t) =>
          t.addToFreeList owned.start block.order block.zone := by
  have owned := fromAllocator_buddy build
    (s.replaceBuddy block.start block.order block.zone).frames placed.aligned placed.lt_vmemmap
    (by
      rw [replaceBuddy, replace, replace_refcount]
      exact live.exclusive _ block.start_mem_span)
    (by simp [replaceBuddy, replace])
  simp only [deallocate, fromFrame_of_placed placed high, live.tag, live.data,
    FrameData.getAnonymousOrder, owned, bind, Except.bind, ne_eq, not_true_eq_false, if_false]
  rfl

theorem aligned_of_lt_limit (below : order < min (trailingZeros start) maxOrder) :
    2 ^ (order + 1) ∣ start := by
  have small : maxOrder ≤ 63 := by decide
  exact (le_trailingZeros (by omega)).mp (by omega)

theorem addToFreeList_released (placed : block.Placed) (live : LiveMeta s.frames block) :
    ∃ t, (s.released block).addToFreeList block.start block.order block.zone = .ok (.ok (), t) ∧
      Released block s t := by
  have tag : ((s.released block).frames block.start).tag = .buddy := by
    simp [released, fetchSub, replaceBuddy, replace]
  have data : ((s.released block).frames block.start).data =
      .buddy ⟨false, block.order, block.zone⟩ := by
    simp [released, fetchSub, replaceBuddy, replace]
  obtain ⟨t, added, blocks, frames, pages⟩ := addHead_spec (s := s.released block)
    block.zone placed.order_le tag data rfl
  have written : t.frames = (s.frames.replace block.start .buddy
      (.buddy ⟨false, block.order, block.zone⟩)).setBuddy block.start
        ⟨true, block.order, block.zone⟩ := frames
  refine ⟨t, ?_, blocks, ?_, ?_, pages, ?_⟩
  · simp only [addToFreeList, tag, if_true, added, bind, Except.bind]
    rfl
  · rw [written]
    refine freeMeta_half (fun n low high => ?_) (fun n low high => ?_)
    · exact .inr (live.interior n low high).1
    · exact live.exclusive n (by rw [mem_span]; exact ⟨low, high⟩)
  · intro n different
    rw [written, setBuddy_ne _ _ _ different, replace_ne _ _ _ _ different]
  · intro n readable
    rw [written]
    exact (readable.replace (by decide)).setBuddy (by simp [replace_self])

theorem deallocate_spec (placed : block.Placed) (live : LiveMeta s.frames block) :
    (∃ t, s.deallocate build block.start = .ok (.ok (), t) ∧ Released block s t) ∨
      ∃ panic, (NeighbourPanic panic ∨ panic = .lowMemoryReserved ∧ block.start < reservedEnd) ∧
        s.deallocate build block.start = .error panic := by
  by_cases high : reservedEnd ≤ block.start
  · rw [deallocate_eq build placed live high]
    rcases mergeLoop_spec build (s.released block) block.start block.order
      (block.zone.rangeStart, block.zone.rangeEnd) maxOrder aligned_of_lt_limit with
        left | ⟨panic, foreign, raised⟩
    · obtain ⟨t, added, outcome⟩ := addToFreeList_released placed live
      refine .inl ⟨t, ?_, outcome⟩
      simp only [mergeRounds, left, Except.bind]
      exact added
    · refine .inr ⟨panic, .inl foreign, ?_⟩
      simp only [mergeRounds, raised, Except.bind]
  · refine .inr ⟨.lowMemoryReserved, .inr ⟨rfl, Nat.lt_of_not_le high⟩, ?_⟩
    simp only [deallocate, fromFrame, if_pos (Nat.lt_of_not_le high), bind, Except.bind]

theorem deallocate_succeeds (placed : block.Placed)
    (live : LiveMeta s.frames block) (high : reservedEnd ≤ block.start)
    (inside : block.start + 2 ^ (block.order + 1) < vmemmapFrames)
    (readable : Readable s.frames (block.start + 2 ^ (block.order + 1))) :
    ∃ t, s.deallocate build block.start = .ok (.ok (), t) ∧ Released block s t := by
  have different : block.start + 2 ^ (block.order + 1) ≠ block.start := by
    have := Nat.two_pow_pos (block.order + 1)
    omega
  have same : (s.released block).frames (block.start + 2 ^ (block.order + 1)) =
      s.frames (block.start + 2 ^ (block.order + 1)) := replace_ne _ _ _ _ different
  have left := mergeLoop_readable build (s.released block)
    (min (trailingZeros block.start) maxOrder) (block.zone.rangeStart, block.zone.rangeEnd)
    maxOrder aligned_of_lt_limit inside ⟨by rw [same]; exact readable.exclusive,
      by rw [same]; exact readable.tail⟩
  obtain ⟨t, added, outcome⟩ := addToFreeList_released placed live
  refine ⟨t, ?_, outcome⟩
  rw [deallocate_eq build placed live high]
  simp only [mergeRounds, left, Except.bind]
  exact added

/-- A record that `from_allocator` can look at without a panic: it exists, no debug assertion finds
it shared, and a tail names a head inside the vmemmap. -/
structure Answers (build : Build) (frames : Vmemmap) (n : Nat) : Prop where
  inside : n < vmemmapFrames
  exclusive : build.debugAssertions = true → (frames n).refcount = 0
  tail : (frames n).tag = .tail → ∃ range, (frames n).data = .range range ∧
    range.start < vmemmapFrames

/-- The blocks that `deallocate` can take back: above the reserved memory, and if the merge loop
is entered, the record it looks at, two blocks further on, answers. -/
def Releasable (build : Build) (s : BuddyState) (block : Block) : Prop :=
  reservedEnd ≤ block.start ∧
    (block.order < maxOrder → 2 ^ (block.order + 1) ∣ block.start →
      block.start + 2 ^ (block.order + 1) ≤ block.zone.rangeEnd →
      Answers build s.frames (block.start + 2 ^ (block.order + 1)))

section Answers

variable {build : Build} {frames : Vmemmap} {n order : Nat}

theorem debugAssert_eq_ok {condition : Bool} {panic : Panic} :
    debugAssert build condition panic = .ok () ↔
      (build.debugAssertions = true → condition = true) := by
  unfold debugAssert
  cases build.debugAssertions <;> cases condition <;> simp

/-- `from_allocator` on a record at its own place returns exactly when the record answers. -/
theorem fromAllocator_ok_iff (aligned : alignDown n order = n) :
    (∃ result, getRaw n = .ok n ∧ fromAllocator build frames n order = .ok result) ↔
      Answers build frames n := by
  constructor
  · rintro ⟨result, found, done⟩
    have inside : n < vmemmapFrames := by
      by_contra outside
      rw [getRaw, if_neg outside] at found
      cases found
    unfold fromAllocator at done
    rw [aligned, getRaw_of_lt inside] at done
    cases exclusive : debugAssert build ((frames n).refcount == 0) .frameNotExclusive with
    | error panic =>
      simp only [exclusive, bind, Except.bind] at done
      cases done
    | ok _ =>
      refine ⟨inside, fun debug => by simpa using debugAssert_eq_ok.mp exclusive debug, ?_⟩
      intro tail
      simp only [exclusive, tail, bind, Except.bind] at done
      cases data : (frames n).data <;> simp only [data, FrameData.getRange] at done <;>
        first | cases done | skip
      rename_i range
      refine ⟨range, rfl, ?_⟩
      by_contra outside
      simp only [getRaw, if_neg outside] at done
      cases done
  · intro answers
    have found := getRaw_of_lt answers.inside
    have exclusive : debugAssert build ((frames n).refcount == 0) .frameNotExclusive = .ok () :=
      debugAssert_eq_ok.mpr fun debug => by simpa using answers.exclusive debug
    unfold fromAllocator
    simp only [aligned, found, exclusive, bind, Except.bind, pure, Except.pure, true_and]
    split
    · rename_i tag
      obtain ⟨range, data, head⟩ := answers.tail tag
      simp only [data, FrameData.getRange, getRaw_of_lt head]
      split <;> exact ⟨_, rfl⟩
    · split <;> exact ⟨_, rfl⟩

/-- Whether a record answers depends on that record only. -/
theorem answers_congr {frames' : Vmemmap} (same : frames n = frames' n) :
    Answers build frames n ↔ Answers build frames' n := by
  constructor
  · rintro ⟨inside, exclusive, tail⟩
    exact ⟨inside, by rwa [← same], by rwa [← same]⟩
  · rintro ⟨inside, exclusive, tail⟩
    exact ⟨inside, by rwa [same], by rwa [same]⟩

/-- `deallocate` takes a live block back exactly when it is releasable. -/
theorem deallocate_ok_iff (placed : block.Placed)
    (live : LiveMeta s.frames block) :
    (∃ t, s.deallocate build block.start = .ok (.ok (), t)) ↔ Releasable build s block := by
  by_cases high : reservedEnd ≤ block.start
  swap
  · refine iff_of_false ?_ fun releasable => high releasable.1
    rintro ⟨t, done⟩
    simp only [deallocate, fromFrame, if_pos (Nat.lt_of_not_le high), bind, Except.bind] at done
    cases done
  obtain ⟨t, added, -⟩ := addToFreeList_released placed live
  have same : (s.released block).frames (block.start + 2 ^ (block.order + 1)) =
      s.frames (block.start + 2 ^ (block.order + 1)) :=
    replace_ne _ _ _ _ (by have := Nat.two_pow_pos (block.order + 1); omega)
  rw [deallocate_eq build placed live high, Releasable, and_iff_right high, mergeRounds, mergeLoop]
  by_cases below : block.order < min (trailingZeros block.start) maxOrder
  swap
  · -- The loop is not entered.
    rw [if_neg below]
    refine iff_of_true ⟨t, added⟩ fun small aligned => absurd ?_ below
    have most : maxOrder ≤ 62 := by decide
    have bound : block.order + 1 ≤ 64 := by omega
    exact lt_min ((le_trailingZeros bound).mpr aligned) small
  have aligned := aligned_of_lt_limit below
  have small : block.order < maxOrder := lt_of_lt_of_le below (min_le_right _ _)
  rw [if_pos below, mergeOnce_eq build _ _ aligned]
  by_cases far : block.zone.rangeEnd < block.start + 2 ^ (block.order + 1)
  · rw [if_pos (.inr far)]
    exact iff_of_true ⟨t, added⟩ fun _ _ near => absurd near (not_le.mpr far)
  have near : ¬(block.start < block.zone.rangeStart ∨
      block.zone.rangeEnd < block.start + 2 ^ (block.order + 1)) := by
    have := placed.zone_start
    omega
  rw [if_neg near]
  have aligned' : alignDown (block.start + 2 ^ (block.order + 1)) block.order =
      block.start + 2 ^ (block.order + 1) :=
    alignDown_of_dvd (dvd_add (dvd_trans (pow_dvd_pow 2 (le_succ block.order)) aligned)
      (pow_dvd_pow 2 (le_succ block.order)))
  simp only [small, aligned, not_lt.mp far, true_imp_iff, ← answers_congr same]
  rw [← fromAllocator_ok_iff aligned']
  constructor
  · rintro ⟨u, done⟩
    rcases getRaw_cases (block.start + 2 ^ (block.order + 1)) with record | missing
    · cases owned : fromAllocator build (s.released block).frames
          (block.start + 2 ^ (block.order + 1)) block.order with
      | ok result => exact ⟨result, record, rfl⟩
      | error panic =>
        simp only [record, owned, bind, Except.bind] at done
        cases done
    · simp only [missing, bind, Except.bind] at done
      cases done
  · rintro ⟨result, record, owned⟩
    refine ⟨t, ?_⟩
    simp only [record, owned, bind, Except.bind]
    exact added

end Answers

end BuddyState

end Horizon.Memory
