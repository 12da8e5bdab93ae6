import Horizon.Verif.Bitmap

/-!
# Runs of the bitmap allocator

Along every sequence of calls the live allocations are disjoint, aligned and inside the capacity,
the units of the first map are theirs, and the second map tells where each of them ends.
-/

namespace Horizon.BitmapAlloc

open Memory WordBits AllocMap Runs BitIndex List Nat

/-- What `allocate` returned, with the layout it was asked for. -/
structure Allocation where
  offset : Nat
  layout : Layout

namespace Allocation

def first (unitSize : Nat) (a : Allocation) : Nat := a.offset / unitSize

def units (unitSize : Nat) (a : Allocation) : Nat := divCeil a.layout.size unitSize

def stop (unitSize : Nat) (a : Allocation) : Nat := a.offset + a.units unitSize * unitSize

/-- The unit belongs to the allocation. -/
def Covers (unitSize : Nat) (a : Allocation) (position : Nat) : Prop :=
  a.first unitSize ≤ position ∧ position < a.first unitSize + a.units unitSize

instance (unitSize : Nat) (a : Allocation) (position : Nat) :
    Decidable (a.Covers unitSize position) :=
  inferInstanceAs (Decidable (_ ∧ _))

end Allocation

/-- The bitmap with the allocations that are not freed yet. -/
structure Session where
  bitmap : Bitmap
  live : List Allocation

/-- The calls of a session. -/
inductive BitmapCall
  | allocate (layout : Layout)
  | deallocate (offset : Nat)

namespace Session

def apply (s : Session) : BitmapCall → Except Panic Session
  | .allocate layout => do
    match ← s.bitmap.allocate layout with
    | (.ok offset, bitmap) => return ⟨bitmap, ⟨offset, layout⟩ :: s.live⟩
    | (.error _, bitmap) => return ⟨bitmap, s.live⟩
  | .deallocate offset => do
    match ← s.bitmap.deallocate offset with
    | (.ok (), bitmap) => return ⟨bitmap, s.live.filter fun a => a.offset ≠ offset⟩
    | (.error _, bitmap) => return ⟨bitmap, s.live⟩

/-- The unit is marked as allocated. -/
def Allocated (bitmap : Bitmap) (position : Nat) : Prop :=
  bitAt bitmap.map.allocMap position = true

/-- What a session must satisfy. -/
structure Right (s : Session) : Prop where
  disjoint : s.live.Pairwise fun a b =>
    a.stop s.bitmap.unitSize ≤ b.offset ∨ b.stop s.bitmap.unitSize ≤ a.offset
  aligned : ∀ a ∈ s.live, a.layout.align ∣ a.offset
  inside : ∀ a ∈ s.live, a.stop s.bitmap.unitSize ≤ s.bitmap.size
  large : ∀ a ∈ s.live, a.offset + a.layout.size ≤ a.stop s.bitmap.unitSize
  units : ∀ position, Allocated s.bitmap position ↔
    ∃ a ∈ s.live, a.Covers s.bitmap.unitSize position
  /-- `deallocate` of a live allocation frees its units and no others; the other allocations can
  still be given back. -/
  frees : ∀ a ∈ s.live, ∃ after, s.bitmap.deallocate a.offset = .ok (.ok (), after) ∧
    (∀ position, Allocated after position ↔
      Allocated s.bitmap position ∧ ¬ a.Covers s.bitmap.unitSize position) ∧
    ∀ b ∈ s.live, b.offset ≠ a.offset → ∃ later, after.deallocate b.offset = .ok (.ok (), later)
  /-- `deallocate` of any other offset is refused and changes nothing. -/
  refuses : ∀ offset, (∀ a ∈ s.live, a.offset ≠ offset) →
    ∃ error, s.bitmap.deallocate offset = .ok (.error error, s.bitmap)
  below_firstFree : ∀ position < s.bitmap.firstFree, Allocated s.bitmap position

/-- What the live allocations and the two maps have to do with each other. -/
structure Sound (s : Session) : Prop where
  unit_pow : s.bitmap.unitSize.isPowerOfTwo
  whole : s.bitmap.unitSize ∣ s.bitmap.size
  /-- The maps have a bit for every unit and for the one after the last. -/
  fits : s.bitmap.size / s.bitmap.unitSize < s.bitmap.map.words * 64
  unit_dvd : ∀ a ∈ s.live, s.bitmap.unitSize ∣ a.offset
  aligned : ∀ a ∈ s.live, a.layout.align ∣ a.offset
  nonempty : ∀ a ∈ s.live, 0 < a.units s.bitmap.unitSize
  inside : ∀ a ∈ s.live, a.first s.bitmap.unitSize + a.units s.bitmap.unitSize ≤
    s.bitmap.size / s.bitmap.unitSize
  disjoint : s.live.Pairwise fun a b => ∀ position,
    ¬ (a.Covers s.bitmap.unitSize position ∧ b.Covers s.bitmap.unitSize position)
  alloc : ∀ position, Allocated s.bitmap position ↔
    ∃ a ∈ s.live, a.Covers s.bitmap.unitSize position
  marked_first : ∀ a ∈ s.live, bitAt s.bitmap.map.boundMap (a.first s.bitmap.unitSize) = true
  marked_end : ∀ a ∈ s.live, bitAt s.bitmap.map.boundMap
    (a.first s.bitmap.unitSize + a.units s.bitmap.unitSize) = true
  unmarked : ∀ a ∈ s.live, ∀ position, a.first s.bitmap.unitSize < position →
    position < a.first s.bitmap.unitSize + a.units s.bitmap.unitSize →
    bitAt s.bitmap.map.boundMap position = false
  below_firstFree : ∀ position < s.bitmap.firstFree, Allocated s.bitmap position

end Session

theorem dvd_max_of_isPowerOfTwo {a b : Nat} (left : a.isPowerOfTwo) (right : b.isPowerOfTwo) :
    a ∣ max a b ∧ b ∣ max a b := by
  obtain ⟨i, rfl⟩ := left
  obtain ⟨j, rfl⟩ := right
  cases le_total i j with
  | inl le =>
    have order : 2 ^ i ≤ 2 ^ j := Nat.pow_le_pow_right (by decide) le
    rw [max_eq_right order]
    exact ⟨pow_dvd_pow 2 le, dvd_rfl⟩
  | inr le =>
    have order : 2 ^ j ≤ 2 ^ i := Nat.pow_le_pow_right (by decide) le
    rw [max_eq_left order]
    exact ⟨dvd_rfl, pow_dvd_pow 2 le⟩

theorem le_divCeil_mul {value step : Nat} (positive : 0 < step) :
    value ≤ divCeil value step * step := by
  unfold divCeil
  have split := div_add_mod' (value + step - 1) step
  have rest := mod_lt (value + step - 1) positive
  omega

theorem divCeil_pos {value step : Nat} (positive : 0 < step) (nonzero : 0 < value) :
    0 < divCeil value step :=
  Nat.div_pos (by omega) positive

theorem allocateLoop_cases (unitSize firstFree : Nat)
    {units unitAlign capacityUnits rounds start : Nat} {map : AllocMap}
    (fits : capacityUnits < map.words * 64) (some : 0 < units)
    (align : 0 < unitAlign) (aligned : unitAlign ∣ start)
    (round : 0 < rounds) (enough : capacityUnits < start + rounds) :
    (∃ place after, allocateLoop unitSize units unitAlign capacityUnits rounds map firstFree
        start = .ok (.ok (place * unitSize), after,
          if place = firstFree then place + units else firstFree) ∧
      unitAlign ∣ place ∧ place + units ≤ capacityUnits ∧
      (∀ position, place ≤ position → position < place + units →
        bitAt map.allocMap position = false) ∧
      Marked map after place units) ∨
    allocateLoop unitSize units unitAlign capacityUnits rounds map firstFree start =
      .ok (.error .outOfMemory, map, firstFree) := by
  induction rounds generalizing start with
  | zero => cases round
  | succ rounds ih =>
    unfold allocateLoop
    by_cases room : start + units ≤ capacityUnits
    · have fitting : start + units < map.words * 64 := by omega
      obtain ⟨free, test, clear⟩ := test_eq fitting.le
      obtain ⟨after, mark, marked⟩ := markAllocated_eq fitting
      cases free with
      | true =>
        refine .inl ⟨start, after, ?_, aligned, room, clear.mp rfl, marked⟩
        simp [room, test, mark, ok_bind, pure_ok]
      | false =>
        have further : start + units ≤ nextMultipleOf (start + units) unitAlign :=
          le_divCeil_mul align
        -- The start has grown by at least one unit, so a round is left for it.
        have next := @ih (nextMultipleOf (start + units) unitAlign) (dvd_mul_left _ _)
          (by omega) (by omega)
        simpa [room, test, ok_bind] using next
    · exact .inr (by simp [room])

namespace Session

variable {s : Session}

theorem Sound.unit_pos (sound : Sound s) : 0 < s.bitmap.unitSize := by
  obtain ⟨k, power⟩ := sound.unit_pow
  rw [power]
  exact Nat.two_pow_pos k

variable {a : Allocation}

theorem Sound.covers_first (sound : Sound s) (live : a ∈ s.live) :
    a.Covers s.bitmap.unitSize (a.first s.bitmap.unitSize) := by
  have nonempty := sound.nonempty a live
  exact ⟨le_rfl, by omega⟩

variable {after : AllocMap} {a b : Allocation} {layout : Layout} {offset : Nat}

theorem Sound.eq_of_covers (sound : Sound s) (left : a ∈ s.live) (right : b ∈ s.live)
    {position : Nat} (first : a.Covers s.bitmap.unitSize position)
    (second : b.Covers s.bitmap.unitSize position) : a = b := by
  by_contra distinct
  have symmetric : Std.Symm fun a b : Allocation => ∀ position,
      ¬ (a.Covers s.bitmap.unitSize position ∧ b.Covers s.bitmap.unitSize position) :=
    ⟨fun a b apart position both => apart position ⟨both.2, both.1⟩⟩
  have apart := sound.disjoint.forall left right distinct
  exact apart position ⟨first, second⟩

theorem Sound.first_mul (sound : Sound s) (live : a ∈ s.live) :
    a.first s.bitmap.unitSize * s.bitmap.unitSize = a.offset :=
  Nat.div_mul_cancel (sound.unit_dvd a live)

theorem Sound.add (sound : Sound s) {place : Nat}
    (nonempty : 0 < divCeil layout.size s.bitmap.unitSize)
    (aligned : layout.align ∣ place * s.bitmap.unitSize)
    (inside : place + divCeil layout.size s.bitmap.unitSize ≤ s.bitmap.size / s.bitmap.unitSize)
    (free : ∀ position, place ≤ position →
      position < place + divCeil layout.size s.bitmap.unitSize →
      bitAt s.bitmap.map.allocMap position = false)
    (marked : Marked s.bitmap.map after place (divCeil layout.size s.bitmap.unitSize)) :
    Sound ⟨{ s.bitmap with
        map := after
        firstFree := if place = s.bitmap.firstFree then
          place + divCeil layout.size s.bitmap.unitSize else s.bitmap.firstFree },
      ⟨place * s.bitmap.unitSize, layout⟩ :: s.live⟩ := by
  have positive := sound.unit_pos
  generalize units : divCeil layout.size s.bitmap.unitSize = len at *
  have first : Allocation.first s.bitmap.unitSize ⟨place * s.bitmap.unitSize, layout⟩ = place :=
    Nat.mul_div_cancel place positive
  have length : Allocation.units s.bitmap.unitSize ⟨place * s.bitmap.unitSize, layout⟩ = len :=
    units
  have covers : ∀ position, Allocation.Covers s.bitmap.unitSize
      ⟨place * s.bitmap.unitSize, layout⟩ position ↔
        place ≤ position ∧ position < place + len := by
    intro position
    rw [Allocation.Covers, first, length]
  -- No unit of a live allocation is in the run.
  have apart : ∀ a ∈ s.live, ∀ position, a.Covers s.bitmap.unitSize position →
      ¬ (place ≤ position ∧ position < place + len) := by
    intro a live position covered within
    have used := (sound.alloc position).mpr ⟨a, live, covered⟩
    rw [Allocated, free position within.1 within.2] at used
    cases used
  refine ⟨sound.unit_pow, sound.whole, ?_, ?_, ?_, ?_, ?_, ?_, ?_, ?_, ?_, ?_, ?_⟩
  · rw [marked.words]
    exact sound.fits
  · exact forall_mem_cons.mpr ⟨dvd_mul_left _ _, sound.unit_dvd⟩
  · exact forall_mem_cons.mpr ⟨aligned, sound.aligned⟩
  · exact forall_mem_cons.mpr ⟨length ▸ nonempty, sound.nonempty⟩
  · exact forall_mem_cons.mpr ⟨by rw [first, length]; exact inside, sound.inside⟩
  · refine pairwise_cons.mpr ⟨?_, sound.disjoint⟩
    intro a live position both
    exact apart a live position both.2 ((covers position).mp both.1)
  · intro position
    rw [Allocated, marked.alloc, Bool.or_eq_true, decide_eq_true_eq, exists_mem_cons_iff,
      covers, or_comm]
    exact or_congr Iff.rfl (sound.alloc position)
  · refine forall_mem_cons.mpr ⟨by simp [marked.bound, first], ?_⟩
    intro a live
    have outside := apart a live _ (sound.covers_first live)
    rw [marked.bound, sound.marked_first a live]
    simp [outside]
  · refine forall_mem_cons.mpr ⟨by simp [marked.bound, first, length], ?_⟩
    intro a live
    have nonempty := sound.nonempty a live
    -- The last unit of the allocation is outside the run, so its end is outside or the first unit.
    have last := apart a live (a.first s.bitmap.unitSize + a.units s.bitmap.unitSize - 1)
      ⟨by omega, by omega⟩
    rw [marked.bound, sound.marked_end a live]
    by_cases start : a.first s.bitmap.unitSize + a.units s.bitmap.unitSize = place
    · simp [start]
    · have outside : ¬ (place ≤ a.first s.bitmap.unitSize + a.units s.bitmap.unitSize ∧
          a.first s.bitmap.unitSize + a.units s.bitmap.unitSize < place + len) := by omega
      simp [outside]
  · refine forall_mem_cons.mpr ⟨?_, ?_⟩
    · intro position low high
      rw [first] at low high
      rw [length] at high
      have within : place ≤ position ∧ position < place + len := ⟨low.le, high⟩
      simp [marked.bound, within, low.ne', high.ne]
    · intro a live position (low : a.first s.bitmap.unitSize < position)
        (high : position < a.first s.bitmap.unitSize + a.units s.bitmap.unitSize)
      have outside := apart a live position ⟨low.le, high⟩
      have before := apart a live (position - 1) ⟨by omega, by omega⟩
      have notFirst : position ≠ place := by omega
      have notEnd : position ≠ place + len := by omega
      rw [marked.bound, sound.unmarked a live position low high]
      simp [notFirst, notEnd]
  · intro position below
    rw [Allocated, marked.alloc, Bool.or_eq_true, decide_eq_true_eq]
    by_cases within : place ≤ position ∧ position < place + len
    · exact .inr within
    · refine .inl (sound.below_firstFree position ?_)
      simp only at below
      split at below
      · omega
      · exact below

theorem Sound.allocate_cases (sound : Sound s) (layout : Layout) :
    (∃ place after, s.bitmap.allocate layout = .ok (.ok (place * s.bitmap.unitSize),
        { s.bitmap with
          map := after
          firstFree := if place = s.bitmap.firstFree then
            place + divCeil layout.size s.bitmap.unitSize else s.bitmap.firstFree }) ∧
      Sound ⟨{ s.bitmap with
          map := after
          firstFree := if place = s.bitmap.firstFree then
            place + divCeil layout.size s.bitmap.unitSize else s.bitmap.firstFree },
        ⟨place * s.bitmap.unitSize, layout⟩ :: s.live⟩) ∨
    ∃ error, s.bitmap.allocate layout = .ok (.error error, s.bitmap) := by
  have positive := sound.unit_pos
  by_cases sizes : layout.size = 0 ∨ maxAllocSize < layout.size
  · refine .inr ⟨.invalidSize layout.size, ?_⟩
    simp only [Bitmap.allocate, allocate, if_pos sizes, ok_bind, pure_ok]
  by_cases large : cachelineSize < max layout.align s.bitmap.unitSize
  · refine .inr ⟨.violateConstraint, ?_⟩
    simp only [Bitmap.allocate, allocate, if_neg sizes, if_pos large, ok_bind, pure_ok]
  have powers := dvd_max_of_isPowerOfTwo layout.powerOfTwo sound.unit_pow
  have whole := Nat.div_mul_cancel powers.2
  have align : 0 < max layout.align s.bitmap.unitSize / s.bitmap.unitSize :=
    Nat.div_pos (le_max_right _ _) positive
  have units : 0 < divCeil layout.size s.bitmap.unitSize := divCeil_pos positive (by omega)
  have start : max layout.align s.bitmap.unitSize / s.bitmap.unitSize ∣
      nextMultipleOf s.bitmap.firstFree (max layout.align s.bitmap.unitSize / s.bitmap.unitSize) :=
    dvd_mul_left _ _
  have search := allocateLoop_cases s.bitmap.unitSize s.bitmap.firstFree sound.fits units align
    start (succ_pos (s.bitmap.size / s.bitmap.unitSize)) (by omega)
  rcases search with ⟨place, after, call, multiple, inside, free, marked⟩ | call
  · refine .inl ⟨place, after, ?_, sound.add units ?_ inside free marked⟩
    · simp only [Bitmap.allocate, allocate, if_neg sizes, if_neg large, call, ok_bind, pure_ok]
    · have scaled := Nat.mul_dvd_mul_right multiple s.bitmap.unitSize
      rw [whole] at scaled
      exact powers.1.trans scaled
  · refine .inr ⟨.outOfMemory, ?_⟩
    simp only [Bitmap.allocate, allocate, if_neg sizes, if_neg large, call, ok_bind, pure_ok]

theorem allocate_align {bitmap after : Bitmap}
    (call : bitmap.allocate layout = .ok (.ok offset, after)) : layout.align ≤ cachelineSize := by
  by_contra large
  have large : cachelineSize < max layout.align bitmap.unitSize :=
    lt_of_lt_of_le (not_le.mp large) (le_max_left _ _)
  simp only [Bitmap.allocate, allocate, if_pos large] at call
  split at call
  · cases call
  · cases call

def others (s : Session) (offset : Nat) : List Allocation :=
  s.live.filter fun a => a.offset ≠ offset

theorem mem_others : a ∈ s.others offset ↔ a ∈ s.live ∧ a.offset ≠ offset := by
  simp [others]

theorem Sound.eq_of_offset (sound : Sound s) (left : a ∈ s.live) (right : b ∈ s.live)
    (same : a.offset = b.offset) : a = b := by
  have first : a.first s.bitmap.unitSize = b.first s.bitmap.unitSize := by
    rw [Allocation.first, Allocation.first, same]
  exact sound.eq_of_covers left right (sound.covers_first left)
    (first ▸ sound.covers_first right)

theorem Sound.remove (sound : Sound s) (live : a ∈ s.live)
    (words : after.words = s.bitmap.map.words) (bounds : after.boundMap = s.bitmap.map.boundMap)
    (bits : ∀ position, bitAt after.allocMap position = (bitAt s.bitmap.map.allocMap position &&
      !decide (a.Covers s.bitmap.unitSize position))) : Sound ⟨{ s.bitmap with
        map := after
        firstFree := min s.bitmap.firstFree (a.first s.bitmap.unitSize) }, s.others a.offset⟩ := by
  have kept : ∀ b ∈ s.others a.offset, b ∈ s.live := fun b member => (mem_others.mp member).1
  refine { sound with
           fits := words ▸ sound.fits,
           unit_dvd := fun b member => sound.unit_dvd b (kept b member),
           aligned := fun b member => sound.aligned b (kept b member),
           nonempty := fun b member => sound.nonempty b (kept b member),
           inside := fun b member => sound.inside b (kept b member),
           disjoint := sound.disjoint.filter _,
           alloc := ?_,
           marked_first := fun b member => bounds ▸ sound.marked_first b (kept b member),
           marked_end := fun b member => bounds ▸ sound.marked_end b (kept b member),
           unmarked := fun b member => bounds ▸ sound.unmarked b (kept b member),
           below_firstFree := ?_ }
  · intro position
    rw [Allocated, bits, Bool.and_eq_true, Bool.not_eq_true', decide_eq_false_iff_not]
    constructor
    · rintro ⟨used, outside⟩
      obtain ⟨b, member, covered⟩ := (sound.alloc position).mp used
      refine ⟨b, mem_others.mpr ⟨member, ?_⟩, covered⟩
      intro same
      exact outside (sound.eq_of_offset member live same ▸ covered)
    · rintro ⟨b, member, covered⟩
      refine ⟨(sound.alloc position).mpr ⟨b, kept b member, covered⟩, ?_⟩
      intro both
      have same := sound.eq_of_covers (kept b member) live covered both
      exact (mem_others.mp member).2 (same ▸ rfl)
  · intro position below
    have early := lt_min_iff.mp below
    rw [Allocated, bits, Bool.and_eq_true, Bool.not_eq_true', decide_eq_false_iff_not]
    refine ⟨sound.below_firstFree position early.1, ?_⟩
    intro covered
    exact absurd covered.1 (not_le.mpr early.2)

theorem deallocate_test (map : AllocMap) (unit : Nat) :
    (map.allocMap (new unit).index &&& (1#64 <<< (new unit).bit) = 0 ∨
      map.boundMap (new unit).index &&& (1#64 <<< (new unit).bit) = 0) ↔
      (bitAt map.allocMap unit = false ∨ bitAt map.boundMap unit = false) := by
  have inside : unit % wordBits < 64 := mod_lt _ (by decide)
  simp only [new]
  rw [and_one_shiftLeft_eq_zero inside, and_one_shiftLeft_eq_zero inside]
  exact Iff.rfl

section

variable (sound : Sound s)
include sound

theorem Sound.offset_lt (live : a ∈ s.live) : a.offset < s.bitmap.size := by
  have inside := sound.inside a live
  have nonempty := sound.nonempty a live
  have start := sound.first_mul live
  have whole := Nat.div_mul_cancel sound.whole
  calc a.offset = a.first s.bitmap.unitSize * s.bitmap.unitSize := start.symm
    _ < s.bitmap.size / s.bitmap.unitSize * s.bitmap.unitSize :=
      Nat.mul_lt_mul_of_pos_right (by omega) sound.unit_pos
    _ = s.bitmap.size := whole

theorem Sound.deallocate_live (live : a ∈ s.live) :
    ∃ after, s.bitmap.deallocate a.offset = .ok (.ok (), after) ∧
      Sound ⟨after, s.others a.offset⟩ ∧
      after.unitSize = s.bitmap.unitSize ∧ after.size = s.bitmap.size ∧
      ∀ position, Allocated after position ↔
        Allocated s.bitmap position ∧ ¬ a.Covers s.bitmap.unitSize position := by
  have inside := sound.inside a live
  have nonempty := sound.nonempty a live
  have fits := sound.fits
  have small := sound.offset_lt live
  have multiple := mod_eq_zero_of_dvd (sound.unit_dvd a live)
  have passes : ¬ (s.bitmap.size ≤ a.offset ∨ a.offset % s.bitmap.unitSize ≠ 0) := by omega
  have used := (sound.alloc _).mpr ⟨a, live, sound.covers_first live⟩
  have test := deallocate_test s.bitmap.map (a.first s.bitmap.unitSize)
  rw [used, sound.marked_first a live] at test
  have check : s.bitmap.map.checkIndex (new (a.first s.bitmap.unitSize)).index = .ok () :=
    checkIndex_ok (by simp only [new, wordBits]; omega)
  have last : a.first s.bitmap.unitSize + a.units s.bitmap.unitSize < s.bitmap.map.words * 64 := by
    omega
  have boundary := findBoundary_eq (by omega) last (sound.marked_end a live)
    (sound.unmarked a live)
  obtain ⟨after, freed, words, bounds, bits⟩ :=
    markFree_eq last.le (Nat.le_add_right (a.first s.bitmap.unitSize) _)
  refine ⟨_, ?_, sound.remove live words bounds bits, rfl, rfl, ?_⟩
  · have first : a.offset / s.bitmap.unitSize = a.first s.bitmap.unitSize := rfl
    simp only [Bitmap.deallocate, if_neg passes, deallocate, first, check, test, boundary,
      freed, Bool.true_eq_false, or_self, if_false, ok_bind, pure_ok]
  · intro position
    rw [Allocated, bits, Bool.and_eq_true, Bool.not_eq_true', decide_eq_false_iff_not]
    exact Iff.rfl

theorem Sound.deallocate_refused (foreign : ∀ a ∈ s.live, a.offset ≠ offset) :
    ∃ error, s.bitmap.deallocate offset = .ok (.error error, s.bitmap) := by
  by_cases fails : s.bitmap.size ≤ offset ∨ offset % s.bitmap.unitSize ≠ 0
  · refine ⟨.invalidAllocationOffset offset, ?_⟩
    simp only [Bitmap.deallocate, if_pos fails, pure_ok]
  have dvd : s.bitmap.unitSize ∣ offset := dvd_of_mod_eq_zero (by omega)
  have below : offset / s.bitmap.unitSize < s.bitmap.size / s.bitmap.unitSize :=
    div_lt_div_of_lt_of_dvd sound.whole (by omega)
  have fits := sound.fits
  have check : s.bitmap.map.checkIndex (new (offset / s.bitmap.unitSize)).index = .ok () :=
    checkIndex_ok (by simp only [new, wordBits]; omega)
  -- An allocated unit that is marked is the first of its allocation, whose offset is this one.
  have test : bitAt s.bitmap.map.allocMap (offset / s.bitmap.unitSize) = false ∨
      bitAt s.bitmap.map.boundMap (offset / s.bitmap.unitSize) = false := by
    by_contra both
    simp only [not_or, Bool.not_eq_false] at both
    obtain ⟨a, live, covered⟩ := (sound.alloc _).mp both.1
    have first : a.first s.bitmap.unitSize = offset / s.bitmap.unitSize := by
      by_contra later
      have clear := sound.unmarked a live _ (lt_of_le_of_ne covered.1 later) covered.2
      rw [both.2] at clear
      cases clear
    have same : a.offset = offset := by
      rw [← sound.first_mul live, first, Nat.div_mul_cancel dvd]
    exact foreign a live same
  refine ⟨.invalidAllocationOffset (offset / s.bitmap.unitSize * s.bitmap.unitSize), ?_⟩
  have refused := (deallocate_test _ _).mpr test
  simp only [Bitmap.deallocate, if_neg fails, deallocate, check, if_pos refused, ok_bind, pure_ok]

theorem Sound.apply (call : BitmapCall) : ∃ after, s.apply call = .ok after ∧ Sound after ∧
      after.bitmap.unitSize = s.bitmap.unitSize ∧ after.bitmap.size = s.bitmap.size := by
  cases call with
  | allocate layout =>
    rcases sound.allocate_cases layout with ⟨place, after, call, sound⟩ | ⟨error, call⟩
    · refine ⟨_, ?_, sound, rfl, rfl⟩
      simp only [Session.apply, call, ok_bind, pure_ok]
    · refine ⟨s, ?_, sound, rfl, rfl⟩
      simp only [Session.apply, call, ok_bind, pure_ok]
  | deallocate offset =>
    by_cases known : ∃ a ∈ s.live, a.offset = offset
    · obtain ⟨a, live, rfl⟩ := known
      obtain ⟨after, call, sound, unitSize, size, _⟩ := sound.deallocate_live live
      refine ⟨_, ?_, sound, unitSize, size⟩
      simp only [Session.apply, call, ok_bind, pure_ok]
      rfl
    · have foreign : ∀ a ∈ s.live, a.offset ≠ offset := fun a live same => known ⟨a, live, same⟩
      obtain ⟨error, call⟩ := sound.deallocate_refused foreign
      refine ⟨s, ?_, sound, rfl, rfl⟩
      simp only [Session.apply, call, ok_bind, pure_ok]

theorem Sound.stop_eq (live : a ∈ s.live) : a.stop s.bitmap.unitSize =
      (a.first s.bitmap.unitSize + a.units s.bitmap.unitSize) * s.bitmap.unitSize := by
  rw [Allocation.stop, add_mul, sound.first_mul live]

theorem Sound.bytes_apart (left : a ∈ s.live) (right : b ∈ s.live)
    (apart : ∀ position, ¬ (a.Covers s.bitmap.unitSize position ∧
      b.Covers s.bitmap.unitSize position)) :
    a.stop s.bitmap.unitSize ≤ b.offset ∨ b.stop s.bitmap.unitSize ≤ a.offset := by
  rw [sound.stop_eq left, sound.stop_eq right, ← sound.first_mul left, ← sound.first_mul right]
  have first := apart (a.first s.bitmap.unitSize)
  have second := apart (b.first s.bitmap.unitSize)
  have leftSome := sound.nonempty a left
  have rightSome := sound.nonempty b right
  unfold Allocation.Covers at first second
  by_cases order : a.first s.bitmap.unitSize + a.units s.bitmap.unitSize ≤
      b.first s.bitmap.unitSize
  · exact .inl (Nat.mul_le_mul_right _ order)
  · exact .inr (Nat.mul_le_mul_right _ (by omega))

/-- The invariant gives what a session must satisfy. -/
theorem Sound.right : Right s where
  disjoint := by
    apply sound.disjoint.imp_of_mem
    intro a b left right apart
    exact sound.bytes_apart left right apart
  aligned := sound.aligned
  inside := by
    intro a live
    rw [sound.stop_eq live, ← Nat.div_mul_cancel sound.whole]
    exact Nat.mul_le_mul_right _ (sound.inside a live)
  large := fun a _ => Nat.add_le_add_left (le_divCeil_mul sound.unit_pos) _
  units := sound.alloc
  frees := by
    intro a live
    obtain ⟨after, call, later, _, _, units⟩ := sound.deallocate_live live
    refine ⟨after, call, units, ?_⟩
    intro b other distinct
    obtain ⟨final, call, _⟩ := later.deallocate_live (mem_others.mpr ⟨other, distinct⟩)
    exact ⟨final, call⟩
  refuses := fun _ foreign => sound.deallocate_refused foreign
  below_firstFree := sound.below_firstFree

/-- The run lemma: every call keeps the invariant. -/
theorem Sound.run (calls : List BitmapCall) :
    ∃ final, calls.foldlM Session.apply s = .ok final ∧ Sound final ∧
      final.bitmap.unitSize = s.bitmap.unitSize ∧ final.bitmap.size = s.bitmap.size := by
  induction calls generalizing s with
  | nil => exact ⟨s, rfl, sound, rfl, rfl⟩
  | cons call rest ih =>
    obtain ⟨after, step, sound, unitSize, size⟩ := sound.apply call
    obtain ⟨final, run, sound, unitSize', size'⟩ := ih sound
    refine ⟨final, ?_, sound, unitSize'.trans unitSize, size'.trans size⟩
    rw [foldlM_cons, step]
    exact run

end

end Session

/-- The capacities for which the word count of the maps fits sixteen bits. -/
def maxUnits : Nat := 65535 * 64 - 1

/-- A new bitmap satisfies the invariant. -/
theorem tryNew_sound {unitSize size : Nat} {heap : Bool} {bitmap : Bitmap}
    (created : Bitmap.tryNew unitSize size heap = .ok bitmap) (small : size / unitSize ≤ maxUnits) :
    Session.Sound ⟨bitmap, []⟩ ∧ bitmap.unitSize = unitSize ∧ bitmap.size = size := by
  unfold Bitmap.tryNew at created
  split at created
  · cases created
  split at created
  · cases created
  split at created
  · rename_i power sizes _
    cases created
    simp only [not_or, not_not] at power
    have power := power.1
    have whole : unitSize ∣ size := dvd_of_mod_eq_zero (by omega)
    refine ⟨?_, rfl, rfl⟩
    exact {
      unit_pow := power
      whole := whole
      fits := by
        unfold maxUnits at small
        simp only [wordCount, divCeil, wordBits]
        omega
      unit_dvd := nofun
      aligned := nofun
      nonempty := nofun
      inside := nofun
      disjoint := .nil
      alloc := by simp [Session.Allocated, bitAt]
      marked_first := nofun
      marked_end := nofun
      unmarked := nofun
      below_firstFree := nofun }
  · cases created

/-- Along every sequence of calls on a new bitmap, no call panics, and the live allocations are what
callers rely on. -/
theorem bitmap_right {unitSize size : Nat} {heap : Bool} {bitmap : Bitmap}
    (created : Bitmap.tryNew unitSize size heap = .ok bitmap) (small : size / unitSize ≤ maxUnits)
    (calls : List BitmapCall) :
    ∃ final, calls.foldlM Session.apply ⟨bitmap, []⟩ = .ok final ∧ final.Right := by
  obtain ⟨final, run, sound, _⟩ := (tryNew_sound created small).1.run calls
  exact ⟨final, run, sound.right⟩

/-- Two allocations in a bitmap of eight units, of which the first is given back. -/
theorem bitmap_right_eightUnits : ∃ final, List.foldlM Session.apply
        ⟨⟨8, ⟨1, fun _ => 0, fun _ => 0⟩, 64, 0⟩, []⟩
        [.allocate ⟨20, 8, ⟨3, rfl⟩⟩, .allocate ⟨4, 16, ⟨4, rfl⟩⟩, .deallocate 0] = .ok final ∧
      final.Right :=
  @bitmap_right 8 64 true _ rfl (by decide) _

end Horizon.BitmapAlloc
