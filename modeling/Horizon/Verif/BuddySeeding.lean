import Horizon.Verif.BuddyBlocks

/-!
# Seeding the free lists

`add_free_block` cuts a range into chunks, each as long as the alignment of its start, the end of
the range and the zone allow. The order of a block is the number of trailing zeros of the chunk
length, so the last chunk, when the end cuts it short, is covered exactly when its length is a power
of two.
-/

namespace Horizon.Memory

open Tiling Nat ZoneType Block

theorem two_pow_trailingZeros_eq {number : Nat} (word : number < 2 ^ 64) :
    2 ^ trailingZeros number = number ↔ number.isPowerOfTwo := by
  constructor
  · exact fun equal => ⟨_, equal.symm⟩
  · rintro ⟨k, rfl⟩
    have small : k ≤ 64 := le_of_lt ((Nat.pow_lt_pow_iff_right (by decide)).mp word)
    have low := (le_trailingZeros small).mpr (dvd_refl _)
    have high := (pow_dvd_pow_iff_le_right (by decide)).mp (two_pow_trailingZeros_dvd (2 ^ k))
    rw [le_antisymm high low]

namespace BuddyState

theorem startOrder_le (start : Nat) : startOrder start ≤ maxOrder := by
  unfold startOrder
  split
  · exact le_refl _
  · exact min_le_right _ _

theorem le_startOrder {k start : Nat} (small : k ≤ maxOrder) :
    k ≤ startOrder start ↔ 2 ^ k ∣ start := by
  unfold startOrder
  split
  · rename_i zero
    subst zero
    exact iff_of_true small (dvd_zero _)
  · rw [le_min_iff, and_iff_left small]
    exact le_trailingZeros (le_trans small (by decide))

theorem startOrder_dvd (start : Nat) : 2 ^ startOrder start ∣ start :=
  (le_startOrder (startOrder_le start)).mp (le_refl _)

/-- End of the chunk at `start` when the zone does not cut it. -/
def chunkEnd (start stop : Nat) : Nat := min stop (start + 2 ^ startOrder start)

theorem lt_chunkEnd {start stop : Nat} (nonempty : start < stop) : start < chunkEnd start stop :=
  lt_min nonempty (Nat.lt_add_of_pos_right (Nat.two_pow_pos _))

theorem chunkEnd_le (start stop : Nat) : chunkEnd start stop ≤ stop := min_le_left _ _

def chunkOrder (start stop : Nat) : Nat := trailingZeros (chunkEnd start stop - start)

section

variable {start stop : Nat} (nonempty : start < stop)
include nonempty

theorem chunkOrder_fits : start + 2 ^ chunkOrder start stop ≤ chunkEnd start stop := by
  have positive := lt_chunkEnd nonempty
  have := le_of_dvd (by omega) (two_pow_trailingZeros_dvd (chunkEnd start stop - start))
  rw [chunkOrder]
  omega

theorem chunkOrder_le : chunkOrder start stop ≤ startOrder start := by
  have fits := chunkOrder_fits nonempty
  have short : chunkEnd start stop ≤ start + 2 ^ startOrder start := min_le_right _ _
  exact (Nat.pow_le_pow_iff_right (by decide : 1 < 2)).mp (by omega)

theorem chunk_small :
    0 < chunkEnd start stop - start ∧ chunkEnd start stop - start ≤ 2 ^ maxOrder := by
  have positive := lt_chunkEnd nonempty
  have short : chunkEnd start stop ≤ start + 2 ^ startOrder start := min_le_right _ _
  have small : 2 ^ startOrder start ≤ 2 ^ maxOrder :=
    Nat.pow_le_pow_right (by decide) (startOrder_le start)
  omega

theorem chunkOrder_exact : start + 2 ^ chunkOrder start stop = chunkEnd start stop ↔
      (chunkEnd start stop - start).isPowerOfTwo := by
  have small := chunk_small nonempty
  have word : chunkEnd start stop - start < 2 ^ 64 := small.2.trans_lt (by decide)
  rw [← two_pow_trailingZeros_eq word, chunkOrder]
  omega

end

/-- The largest order at most `MAX_ORDER` with an aligned address between `start` and `stop`. -/
def topOrder (start stop : Nat) : Nat :=
  findGreatest (fun order => start ≤ alignDown stop order) maxOrder

/-- What is left of the range above its last address aligned to the top order. -/
def remainder (start stop : Nat) : Nat := stop % 2 ^ topOrder start stop

variable {k start stop : Nat}

theorem le_alignDown_iff :
    start ≤ alignDown stop k ↔ ∃ point, start ≤ point ∧ point ≤ stop ∧ 2 ^ k ∣ point := by
  constructor
  · intro low
    exact ⟨_, low, div_mul_le_self _ _, dvd_mul_left _ _⟩
  · rintro ⟨point, low, high, ⟨factor, rfl⟩⟩
    refine le_trans low ?_
    rw [alignDown, mul_comm (stop / 2 ^ k)]
    refine Nat.mul_le_mul_left _ ?_
    rw [Nat.le_div_iff_mul_le (Nat.two_pow_pos k), mul_comm]
    exact high

theorem chunk_le_of_dvd {point : Nat} (small : k ≤ maxOrder) (above : start ≤ point)
    (aligned : 2 ^ k ∣ point) (beyond : startOrder start < k) :
    start + 2 ^ startOrder start ≤ point := by
  have different : start ≠ point := by
    rintro rfl
    exact absurd ((le_startOrder small).mpr aligned) (not_le.mpr beyond)
  have dvd := Nat.dvd_sub ((pow_dvd_pow 2 (le_of_lt beyond)).trans aligned) (startOrder_dvd start)
  have := le_of_dvd (by omega) dvd
  omega

theorem topOrder_le (start stop : Nat) : topOrder start stop ≤ maxOrder := findGreatest_le _

theorem le_topOrder (range : start ≤ stop) (small : k ≤ maxOrder) :
    k ≤ topOrder start stop ↔ ∃ point, start ≤ point ∧ point ≤ stop ∧ 2 ^ k ∣ point := by
  rw [← le_alignDown_iff]
  constructor
  · intro below
    have zero : start ≤ alignDown stop 0 := by simpa [alignDown] using range
    have top : start ≤ alignDown stop (topOrder start stop) :=
      findGreatest_spec (P := fun order => start ≤ alignDown stop order) (zero_le _) zero
    obtain ⟨point, low, high, aligned⟩ := le_alignDown_iff.mp top
    exact le_alignDown_iff.mpr ⟨point, low, high, (pow_dvd_pow 2 below).trans aligned⟩
  · exact fun found => le_findGreatest small found

theorem topOrder_next (full : start + 2 ^ startOrder start ≤ stop) :
    topOrder (start + 2 ^ startOrder start) stop = topOrder start stop := by
  have same : ∀ k ≤ maxOrder,
      (k ≤ topOrder (start + 2 ^ startOrder start) stop ↔ k ≤ topOrder start stop) := by
    intro k small
    rw [le_topOrder full small, le_topOrder (le_trans (Nat.le_add_right _ _) full) small]
    constructor
    · rintro ⟨point, low, high, aligned⟩
      exact ⟨point, le_trans (Nat.le_add_right _ _) low, high, aligned⟩
    · rintro ⟨point, low, high, aligned⟩
      by_cases beyond : startOrder start < k
      · exact ⟨point, chunk_le_of_dvd small low aligned beyond, high, aligned⟩
      · have below := pow_dvd_pow 2 (not_lt.mp beyond)
        exact ⟨_, le_refl _, full, dvd_add (below.trans (startOrder_dvd start)) below⟩
  exact le_antisymm ((same _ (topOrder_le _ _)).mp (le_refl _))
    ((same _ (topOrder_le _ _)).mpr (le_refl _))

theorem remainder_short (range : start ≤ stop) (short : stop < start + 2 ^ startOrder start) :
    remainder start stop = stop - start := by
  have top : topOrder start stop = startOrder start := by
    refine le_antisymm ?_ ?_
    · by_contra beyond
      obtain ⟨point, low, high, aligned⟩ :=
        (le_topOrder range (topOrder_le start stop)).mp (le_refl _)
      have := chunk_le_of_dvd (topOrder_le start stop) low aligned (not_le.mp beyond)
      omega
    · exact (le_topOrder range (startOrder_le start)).mpr
        ⟨start, le_refl _, range, startOrder_dvd start⟩
  obtain ⟨factor, multiple⟩ := startOrder_dvd start
  have split : stop = stop - start + 2 ^ startOrder start * factor := by omega
  rw [remainder, top, split, add_mul_mod_self_left, mod_eq_of_lt (by omega)]
  omega

theorem remainder_self (start : Nat) : remainder start start = 0 := by
  rw [remainder_short (le_refl _) (Nat.lt_add_of_pos_right (Nat.two_pow_pos _)), Nat.sub_self]

theorem remainder_next (full : start + 2 ^ startOrder start ≤ stop) :
    remainder (start + 2 ^ startOrder start) stop = remainder start stop := by
  rw [remainder, topOrder_next full, remainder]

end BuddyState

namespace ZoneState

def ofZone : ZoneType → ZoneState
  | .mem32 => ⟨0, mem32.rangeStart, mem32.rangeEnd⟩
  | .linearMem => ⟨1, linearMem.rangeStart, linearMem.rangeEnd⟩

@[simp] theorem ofZone_zoneStart (zone : ZoneType) : (ofZone zone).zoneStart = zone.rangeStart := by
  cases zone <;> rfl

@[simp] theorem ofZone_zoneEnd (zone : ZoneType) : (ofZone zone).zoneEnd = zone.rangeEnd := by
  cases zone <;> rfl

theorem getZoneForFrame_spec {zone : ZoneType} {frame : Nat} (above : zone.rangeStart ≤ frame)
    (last : frame < linearMem.rangeEnd) :
    ∃ found, (ofZone zone).getZoneForFrame frame = .ok (found, ofZone found) ∧
      found.rangeStart ≤ frame ∧ frame < found.rangeEnd := by
  have boundary : mem32.rangeEnd = linearMem.rangeStart := rfl
  cases zone with
  | linearMem =>
    refine ⟨.linearMem, ?_, above, last⟩
    simp [getZoneForFrame, ofZone, fromIndex, advance, not_le.mpr last, bind, Except.bind]
  | mem32 =>
    by_cases inside : frame < mem32.rangeEnd
    · refine ⟨.mem32, ?_, above, inside⟩
      simp [getZoneForFrame, ofZone, fromIndex, advance, not_le.mpr inside, bind,
        Except.bind]
    · refine ⟨.linearMem, ?_, by omega, last⟩
      simp [getZoneForFrame, ofZone, fromIndex, advance, not_lt.mp inside,
        not_le.mpr last, bind, Except.bind]

end ZoneState

variable (build : Build)

namespace BuddyState

variable {start stop : Nat} {zone : ZoneType}

theorem fromCount_chunk (nonempty : start < stop) :
    fromCount build (chunkEnd start stop - start) = .ok (chunkOrder start stop) := by
  have small := chunk_small nonempty
  have length : 0 < chunkEnd start stop - start ∧
      chunkEnd start stop - start < toCount maxOrder * 2 := by
    rw [toCount]
    omega
  have order : trailingZeros (chunkEnd start stop - start) ≤ maxOrder :=
    le_trans (chunkOrder_le nonempty) (startOrder_le start)
  simp only [fromCount, length, order, and_self, decide_true, debugAssert_true, bind, Except.bind]
  rfl

theorem chunkEnd_zone (inside : start < zone.rangeEnd) (last : stop ≤ linearMem.rangeEnd) :
    min (min stop (start + 2 ^ startOrder start)) zone.rangeEnd = chunkEnd start stop := by
  refine min_eq_left ?_
  cases zone with
  | linearMem => exact le_trans (min_le_left _ _) last
  | mem32 =>
    refine le_trans (min_le_right _ _) ?_
    have whole : 2 ^ startOrder start ∣ mem32.rangeEnd :=
      (pow_dvd_pow 2 (startOrder_le start)).trans (by decide)
    have gap := le_of_dvd (by omega) (Nat.dvd_sub whole (startOrder_dvd start))
    omega

/-- A frame that no allocator has used: exclusive, and `Uninited` or the `Free` head of a region. -/
structure Fresh (frames : Vmemmap) (frame : Nat) : Prop where
  exclusive : (frames frame).refcount = 0
  tag : (frames frame).tag = .uninited ∨ (frames frame).tag = .free

theorem fromAllocator_fresh {frames : Vmemmap} {frame : Nat}
    (fresh : Fresh frames frame) (record : frame < vmemmapFrames) :
    UniqueFrames.fromAllocator build frames frame 0 = .ok (some ⟨frame, 0⟩) := by
  have aligned : alignDown frame 0 = frame := alignDown_of_dvd (by simp)
  unfold UniqueFrames.fromAllocator
  simp only [aligned, getRaw_of_lt record, fresh.exclusive, beq_self_eq_true, debugAssert_true,
    bind, Except.bind]
  rcases fresh.tag with tag | tag <;> simp only [tag] <;> rfl

/-- One block was added, and only the record of its head changed. -/
structure Listed (block : Block) (s t : BuddyState) : Prop where
  blocks : t.freeBlocks = block ::ₘ s.freeBlocks
  outside : ∀ n, n ≠ block.start → t.frames n = s.frames n

theorem listChunk_spec (s : BuddyState) (zone : ZoneType) (start : Nat)
    {order : Nat} (small : order ≤ maxOrder) :
    (∃ t, s.listChunk build zone start order = .ok t ∧ Listed ⟨zone, start, order⟩ s t) ∨
      (∃ panic, s.listChunk build zone start order = .error panic) ∧
        ¬(start < vmemmapFrames ∧ Fresh s.frames start) := by
  have aligned : alignDown start 0 = start := alignDown_of_dvd (by simp)
  rcases getRaw_cases start with record | missing
  · rcases fromAllocator_cases build s.frames start 0 with owned | none | ⟨panic, -, raised⟩
    · rw [aligned] at owned
      let u := s.replaceBuddy start order zone
      have tag : (u.frames start).tag = .buddy := by simp [u, replaceBuddy, replace]
      have data : (u.frames start).data = .buddy ⟨false, order, zone⟩ := by
        simp [u, replaceBuddy, replace]
      obtain ⟨t, added, blocks, frames, -⟩ := addHead_spec (s := u) zone small tag data rfl
      refine .inl ⟨t, ?_, blocks, fun n different => ?_⟩
      · simp only [listChunk, record, owned, addToFreeList, bind, Except.bind]
        rw [if_pos tag, added]
        rfl
      · rw [frames, setBuddy_ne _ _ _ different]
        exact replace_ne _ _ _ _ different
    · refine .inr ⟨⟨.unwrapFailed, ?_⟩, ?_⟩
      · simp only [listChunk, record, none, bind, Except.bind]
        rfl
      · rintro ⟨inside, fresh⟩
        rw [fromAllocator_fresh build fresh inside] at none
        cases none
    · refine .inr ⟨⟨panic, ?_⟩, ?_⟩
      · simp only [listChunk, record, raised, bind, Except.bind]
      · rintro ⟨inside, fresh⟩
        rw [fromAllocator_fresh build fresh inside] at raised
        cases raised
  · refine .inr ⟨⟨.vmemmapOutOfRange, ?_⟩, ?_⟩
    · simp only [listChunk, missing, bind, Except.bind]
    · rintro ⟨inside, -⟩
      rw [getRaw_of_lt inside] at missing
      cases missing

theorem addChunk_spec {s : BuddyState} (above : zone.rangeStart ≤ start)
    (nonempty : start < stop) (last : stop ≤ linearMem.rangeEnd) :
    ∃ found : ZoneType, found.rangeStart ≤ start ∧ chunkEnd start stop ≤ found.rangeEnd ∧
      ((∃ t, s.addChunk build (.ofZone zone) start stop =
            .ok (chunkEnd start stop, .ofZone found, t) ∧
          Listed ⟨found, start, chunkOrder start stop⟩ s t) ∨
        (∃ panic, s.addChunk build (.ofZone zone) start stop = .error panic) ∧
          ¬(start < vmemmapFrames ∧ Fresh s.frames start)) := by
  obtain ⟨found, scanned, lower, upper⟩ :=
    ZoneState.getZoneForFrame_spec above (lt_of_lt_of_le nonempty last)
  have cut := chunkEnd_zone upper last
  have forward := dist_eq_sub_of_le_right (le_of_lt (lt_chunkEnd nonempty))
  have body : s.addChunk build (.ofZone zone) start stop =
      (s.listChunk build found start (chunkOrder start stop)).bind fun t =>
        .ok (chunkEnd start stop, .ofZone found, t) := by
    simp only [addChunk, scanned, ZoneState.ofZone_zoneStart, ZoneState.ofZone_zoneEnd,
      max_eq_left lower, toCount, cut, forward, fromCount_chunk build nonempty, bind, Except.bind,
      pure, Except.pure]
  refine ⟨found, lower, cut ▸ min_le_right _ _, ?_⟩
  rw [body]
  rcases listChunk_spec build s found start
    (le_trans (chunkOrder_le nonempty) (startOrder_le start)) with
      ⟨t, done, listed⟩ | ⟨⟨panic, raised⟩, stale⟩
  · exact .inl ⟨t, by rw [done]; rfl, listed⟩
  · exact .inr ⟨⟨panic, by rw [raised]; rfl⟩, stale⟩

/-- What seeding a range adds. -/
structure Seeds (start stop : Nat) (added : Multiset Block) : Prop where
  placed : ∀ block ∈ added, 2 ^ block.order ∣ block.start ∧
    block.zone.rangeStart ≤ block.start ∧ block.start + 2 ^ block.order ≤ block.zone.rangeEnd
  /-- No frame of the range is covered twice, and no other frame is covered. -/
  inside : ∀ n, cover Block.span added n ≤ if start ≤ n ∧ n < stop then 1 else 0
  /-- All frames are covered exactly when the last chunk is a power of two or empty. -/
  exact_iff : (∀ n, start ≤ n → n < stop → cover Block.span added n = 1) ↔
    remainder start stop = 0 ∨ (remainder start stop).isPowerOfTwo

theorem seeds_empty (empty : stop ≤ start) (same : start ≤ stop) : Seeds start stop 0 := by
  obtain rfl := le_antisymm empty same
  refine ⟨by simp, fun n => zero_le _, iff_of_true (fun n low high => ?_) (.inl ?_)⟩
  · omega
  · exact remainder_self stop

theorem Seeds.cons {added : Multiset Block} (nonempty : start < stop)
    (lower : zone.rangeStart ≤ start) (upper : chunkEnd start stop ≤ zone.rangeEnd)
    (seeds : Seeds (chunkEnd start stop) stop added) :
    Seeds start stop (⟨zone, start, chunkOrder start stop⟩ ::ₘ added) := by
  have fits := chunkOrder_fits nonempty
  have bound := chunkEnd_le start stop
  have positive := Nat.two_pow_pos (chunkOrder start stop)
  have covered : ∀ n, cover span (⟨zone, start, chunkOrder start stop⟩ ::ₘ added) n =
      cover span added n +
        if start ≤ n ∧ n < start + 2 ^ chunkOrder start stop then 1 else 0 := by
    intro n
    simp only [cover_cons, mem_span]
  refine ⟨?_, ?_, ?_⟩
  · intro block member
    rcases Multiset.mem_cons.mp member with rfl | member
    · refine ⟨?_, lower, le_trans fits upper⟩
      exact (pow_dvd_pow 2 (chunkOrder_le nonempty)).trans (startOrder_dvd start)
    · exact seeds.placed block member
  · intro n
    have rest := seeds.inside n
    rw [covered]
    split_ifs at rest ⊢ <;> omega
  · -- The block must fill its chunk and the rest of the range must be covered.
    have parts : (∀ n, start ≤ n → n < stop →
        cover span (⟨zone, start, chunkOrder start stop⟩ ::ₘ added) n = 1) ↔
        start + 2 ^ chunkOrder start stop = chunkEnd start stop ∧
          ∀ n, chunkEnd start stop ≤ n → n < stop → cover span added n = 1 := by
      constructor
      · intro all
        constructor
        · by_contra gap
          have hole := all (start + 2 ^ chunkOrder start stop) (by omega) (by omega)
          have rest := seeds.inside (start + 2 ^ chunkOrder start stop)
          rw [if_neg (by omega)] at rest
          rw [covered, if_neg (by omega)] at hole
          omega
        · intro n low high
          have here := all n (by omega) high
          rwa [covered, if_neg (by omega), add_zero] at here
      · rintro ⟨whole, rest⟩ n low high
        rw [covered]
        by_cases first : n < chunkEnd start stop
        · have none := seeds.inside n
          rw [if_neg (by omega)] at none
          rw [if_pos (by omega)]
          omega
        · rw [if_neg (by omega), rest n (by omega) high]
    rw [parts, chunkOrder_exact nonempty, seeds.exact_iff]
    by_cases full : start + 2 ^ startOrder start ≤ stop
    · have chunk : chunkEnd start stop = start + 2 ^ startOrder start := min_eq_right full
      rw [chunk, remainder_next full, Nat.add_sub_cancel_left]
      exact and_iff_right ⟨_, rfl⟩
    · have chunk : chunkEnd start stop = stop := min_eq_left (le_of_not_ge full)
      have short := remainder_short (le_of_lt nonempty) (not_le.mp full)
      rw [chunk, remainder_self, short, and_iff_left (.inl rfl), or_iff_right (by omega)]

theorem addFreeBlockLoop_spec (last : stop ≤ linearMem.rangeEnd)
    (rounds start : Nat) (zone : ZoneType) (s : BuddyState) (above : zone.rangeStart ≤ start)
    (range : start ≤ stop) (enough : stop - start ≤ rounds) :
    (∃ found t added, addFreeBlockLoop build stop rounds start (.ofZone zone) s =
          .ok (.ofZone found, t) ∧ t.freeBlocks = added + s.freeBlocks ∧ Seeds start stop added) ∨
      (∃ panic, addFreeBlockLoop build stop rounds start (.ofZone zone) s = .error panic) ∧
        ¬(stop ≤ vmemmapFrames ∧ ∀ n, start ≤ n → n < stop → Fresh s.frames n) := by
  induction rounds generalizing start zone s with
  | zero =>
    have empty : stop ≤ start := by omega
    refine .inl ⟨zone, s, 0, ?_, (zero_add _).symm, seeds_empty empty range⟩
    rw [addFreeBlockLoop, if_neg (not_lt.mpr empty)]
  | succ rounds ih =>
    by_cases nonempty : start < stop
    swap
    · refine .inl ⟨zone, s, 0, ?_, (zero_add _).symm, seeds_empty (not_lt.mp nonempty) range⟩
      rw [addFreeBlockLoop, if_neg nonempty]
    have next := lt_chunkEnd nonempty
    obtain ⟨found, lower, upper, ⟨t, call, listed⟩ | ⟨⟨panic, call⟩, stale⟩⟩ :=
      addChunk_spec build (s := s) above nonempty last
    · rcases ih (chunkEnd start stop) found t (by omega) (chunkEnd_le _ _) (by omega) with
        ⟨final, u, added, rest, blocks, seeds⟩ | ⟨⟨panic, rest⟩, stale⟩
      · refine .inl ⟨final, u, ⟨found, start, chunkOrder start stop⟩ ::ₘ added, ?_, ?_,
          seeds.cons nonempty lower upper⟩
        · simp only [addFreeBlockLoop, if_pos nonempty, call, bind, Except.bind]
          exact rest
        · rw [blocks, listed.blocks, Multiset.add_cons, Multiset.cons_add]
      · refine .inr ⟨⟨panic, ?_⟩, ?_⟩
        · simp only [addFreeBlockLoop, if_pos nonempty, call, bind, Except.bind]
          exact rest
        · rintro ⟨records, fresh⟩
          refine stale ⟨records, fun n low high => ?_⟩
          have same := listed.outside n (by dsimp only; omega)
          have before := fresh n (by omega) high
          exact ⟨same ▸ before.exclusive, same ▸ before.tag⟩
    · refine .inr ⟨⟨panic, ?_⟩, ?_⟩
      · simp only [addFreeBlockLoop, if_pos nonempty, call, bind, Except.bind]
      · rintro ⟨records, fresh⟩
        exact stale ⟨by omega, fresh start (le_refl _) nonempty⟩

/-- For a range that starts in or after the scanned zone, the blocks `add_free_block` lists are
pairwise disjoint, aligned, inside one zone each and inside the range; they cover the whole range
exactly when what remains of it above its last address aligned to the top order is nothing or a
power of two. On fresh frames with records the call returns. -/
theorem addFreeBlock_covers_iff (build : Build) {zone : ZoneType} {start stop : Nat}
    {s : BuddyState} (above : zone.rangeStart ≤ start) (range : start ≤ stop)
    (last : stop ≤ linearMem.rangeEnd) :
    (∀ state t, s.addFreeBlock build (.ofZone zone) start stop = .ok (state, t) →
      ∃ added, t.freeBlocks = added + s.freeBlocks ∧
        (added.Pairwise fun block other => Disjoint block.span other.span) ∧
        (∀ block ∈ added, 2 ^ block.order ∣ block.start ∧ block.zone.rangeStart ≤ block.start ∧
          block.start + 2 ^ block.order ≤ block.zone.rangeEnd) ∧
        (∀ block ∈ added, block.span ⊆ Finset.Ico start stop) ∧
        ((∀ n, start ≤ n → n < stop → ∃ block ∈ added, n ∈ block.span) ↔
          remainder start stop = 0 ∨ (remainder start stop).isPowerOfTwo)) ∧
    (stop ≤ vmemmapFrames → (∀ n, start ≤ n → n < stop → Fresh s.frames n) →
      ∃ state t, s.addFreeBlock build (.ofZone zone) start stop = .ok (state, t)) := by
  rcases addFreeBlockLoop_spec build last (stop - start) start zone s above range (le_refl _) with
    ⟨found, t, added, done, blocks, seeds⟩ | ⟨⟨panic, raised⟩, stale⟩
  · refine ⟨fun state u call => ?_, fun _ _ => ⟨_, _, done⟩⟩
    rw [addFreeBlock, done] at call
    cases call
    have once : ∀ n, cover Block.span added n ≤ 1 := by
      intro n
      have := seeds.inside n
      split_ifs at this <;> omega
    refine ⟨added, blocks, (tiles_of_cover_le_one once).pairwise_disjoint, seeds.placed, ?_, ?_⟩
    · intro block member n inside
      have covered := cover_pos member inside
      have bound := seeds.inside n
      rw [Finset.mem_Ico]
      by_contra outside
      rw [if_neg outside] at bound
      omega
    · rw [← seeds.exact_iff]
      refine forall_congr' fun n => imp_congr_right fun _ => imp_congr_right fun _ => ?_
      constructor
      · rintro ⟨block, member, inside⟩
        have := cover_pos member inside
        have := once n
        omega
      · intro covered
        exact Multiset.countP_pos.mp (covered ▸ one_pos : 0 < cover Block.span added n)
  · refine ⟨fun state u call => ?_, fun records fresh => absurd ⟨records, fresh⟩ stale⟩
    rw [addFreeBlock, raised] at call
    cases call

def blank : BuddyState where
  frames := fun _ => ⟨0, .unused, .uninited⟩
  freeFrames := fun _ _ => []
  allocatedPages := 0

/-- Of a range of three frames only the first is listed: two are lost. -/
theorem addFreeBlock_loses_frames : ∃ state t,
    blank.addFreeBlock ⟨true⟩ ZoneState.new 0x100 0x103 = .ok (state, t) ∧
      t.freeBlocks = {⟨.mem32, 0x100, 0⟩} ∧ 0x101 ∉ Block.span ⟨.mem32, 0x100, 0⟩ :=
  ⟨_, _, rfl, by decide, by decide⟩

/-- A range of four frames is covered. -/
theorem addFreeBlock_covers_four : ∃ state t,
    blank.addFreeBlock ⟨true⟩ (.ofZone .mem32) 0x100 0x104 = .ok (state, t) ∧
      ∃ added, t.freeBlocks = added + blank.freeBlocks ∧
        ∀ n, 0x100 ≤ n → n < 0x104 → ∃ block ∈ added, n ∈ block.span := by
  obtain ⟨listed, returns⟩ := @addFreeBlock_covers_iff ⟨true⟩ .mem32 0x100 0x104 blank (by decide)
    (by decide) (by decide)
  obtain ⟨state, t, call⟩ := returns (by decide) fun n _ _ => ⟨rfl, .inl rfl⟩
  obtain ⟨added, blocks, -, -, -, covers⟩ := listed state t call
  exact ⟨state, t, call, added, blocks, covers.mpr (.inr ⟨2, by decide⟩)⟩

end BuddyState

end Horizon.Memory
