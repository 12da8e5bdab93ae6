import Horizon.Verif.FrameMeta
import Horizon.Verif.Slub

/-!
# Configurations from `mem_cache_create`

`calculate_order` clamps the size to a page, so the slab chosen for a larger request holds no
object. The alignment is rounded to a power of two, starting from one less than the request, and
then clamped to a cache line: sizes are rounded up to multiples of 16, 32 or 64, whatever was asked
for. Only the divisors of 64 are alignments that every size gets.
-/

namespace Horizon.Slub

open Memory Nat CacheConfig List

section Rounding

variable {value step bound : Nat}

theorem le_nextMultipleOf (positive : 0 < step) : value ≤ nextMultipleOf value step := by
  have rounded := div_add_mod (value + step - 1) step
  have remainder := mod_lt (value + step - 1) positive
  rw [nextMultipleOf, mul_comm]
  omega

theorem nextMultipleOf_le (positive : 0 < step) (multiple : step ∣ bound) (le : value ≤ bound) :
    nextMultipleOf value step ≤ bound := by
  rw [nextMultipleOf]
  apply le_of_lt_succ
  have quotient : (value + step - 1) / step ≤ bound / step := by
    rw [← Nat.lt_succ_iff, Nat.div_lt_iff_lt_mul positive, succ_mul, Nat.div_mul_cancel multiple]
    omega
  calc (value + step - 1) / step * step ≤ bound / step * step := Nat.mul_le_mul_right _ quotient
    _ = bound := Nat.div_mul_cancel multiple
    _ < bound.succ := lt_succ_self bound

theorem dvd_nextMultipleOf : step ∣ nextMultipleOf value step := dvd_mul_left _ _

end Rounding

theorem clamp_two_pow (exponent : Nat) :
    clamp (2 ^ exponent) minAlign cachelineSize ∈ [16, 32, 64] := by
  rcases lt_or_ge exponent 7 with small | large
  · interval_cases exponent <;> decide
  · have above : 2 ^ 7 ≤ 2 ^ exponent := Nat.pow_le_pow_right (by decide) large
    have clamped : clamp (2 ^ exponent) minAlign cachelineSize = 64 := by
      simp only [clamp, minAlign, cachelineSize]
      omega
    simp [clamped]

theorem calculateAlignment_mem (size align : Nat) :
    calculateAlignment size align ∈ [16, 32, 64] := by
  rw [calculateAlignment, nextPowerOfTwo]
  rcases max_choice (2 ^ clog 2 (align - 1)) (2 ^ trailingZeros size) with left | right
  · rw [left]
    exact clamp_two_pow _
  · rw [right]
    exact clamp_two_pow _

theorem calculateAlignment_bounds (size align : Nat) :
    16 ∣ calculateAlignment size align ∧ calculateAlignment size align ∣ 64 := by
  have member := calculateAlignment_mem size align
  simp only [mem_cons, not_mem_nil, or_false] at member
  rcases member with equation | equation | equation <;> rw [equation] <;> decide

variable {objectSize size : Nat}

theorem rounded_bounds (align : Nat) (small : size ≤ 4096) :
    16 ∣ nextMultipleOf size (calculateAlignment size align) ∧
      size ≤ nextMultipleOf size (calculateAlignment size align) ∧
      nextMultipleOf size (calculateAlignment size align) ≤ 4096 := by
  have bounds := calculateAlignment_bounds size align
  have alignment := pos_of_dvd_of_pos bounds.2 (by decide)
  have page : calculateAlignment size align ∣ 4096 := bounds.2.trans (by decide)
  exact ⟨bounds.1.trans dvd_nextMultipleOf, le_nextMultipleOf alignment,
    nextMultipleOf_le alignment page small⟩

theorem orderFor_lt {fraction order : Nat} (found : orderFor size fraction = some order) :
    order < maxFrameOrder :=
  mem_range.mp (mem_of_find?_eq_some found)

theorem orderFor_half (positive : 0 < size) (small : size ≤ 4096) : orderFor size 2 ≠ none := by
  intro missed
  have rejected := find?_eq_none.mp missed 0 (by decide)
  have waste : 4096 % size < 2048 := by
    rcases lt_or_ge 2048 size with large | fits
    · have quotient : 4096 / size ≤ 1 := by
        rw [← Nat.lt_succ_iff, Nat.div_lt_iff_lt_mul positive]
        omega
      have split := div_add_mod 4096 size
      have one : 4096 / size = 1 :=
        le_antisymm quotient ((Nat.one_le_div_iff positive).mpr small)
      rw [one] at split
      omega
    · exact (mod_lt 4096 positive).trans_le fits
  simp only [slabSize, pageSize, pow_zero, mul_one, decide_eq_true_eq, not_lt] at rejected
  omega

theorem calculateOrder_small (multiple : 16 ∣ objectSize) (positive : 0 < objectSize)
    (small : objectSize ≤ 4096) :
    ∃ order < maxFrameOrder, calculateOrder objectSize = .ok order := by
  have words : nextMultipleOf objectSize 8 = objectSize := by
    rw [nextMultipleOf]
    omega
  have clamped : clamp (nextMultipleOf objectSize 8) minObjectSize maxObjectSize = objectSize := by
    rw [words]
    simp only [clamp, minObjectSize, maxObjectSize]
    omega
  cases found : [16, 8, 4, 2].findSome? (orderFor objectSize) with
  | none =>
    have missed := findSome?_eq_none_iff.mp found 2 (by decide)
    exact absurd missed (orderFor_half positive small)
  | some order =>
    have source := exists_of_findSome?_eq_some found
    refine ⟨order, ?_, ?_⟩
    · obtain ⟨fraction, -, chosen⟩ := source
      exact orderFor_lt chosen
    · simp only [calculateOrder, clamped, found]

theorem calculateOrder_large (large : 4096 < objectSize) : calculateOrder objectSize = .ok 0 := by
  have words : 4096 < nextMultipleOf objectSize 8 := large.trans_le (le_nextMultipleOf (by decide))
  have clamped : clamp (nextMultipleOf objectSize 8) minObjectSize maxObjectSize = 4096 := by
    simp only [clamp, minObjectSize, maxObjectSize]
    omega
  have found : [16, 8, 4, 2].findSome? (orderFor 4096) = some 0 := by decide
  simp only [calculateOrder, clamped, found]

theorem calculateSizes_small (align : Nat) (positive : 0 < size) (small : size ≤ 4096) :
    ∃ objectNum order, calculateSizes size align =
      .ok (nextMultipleOf size (calculateAlignment size align), objectNum, order,
        calculateAlignment size align) := by
  have rounded := rounded_bounds align small
  generalize size_eq : nextMultipleOf size (calculateAlignment size align) = objectSize at rounded
  have within : objectSize % 2 ^ 16 = objectSize := mod_eq_of_lt (by omega)
  have nonzero : objectSize ≠ 0 := by omega
  have chosen := calculateOrder_small rounded.1 (pos_of_ne_zero nonzero) rounded.2.2
  rcases chosen with ⟨order, bound, found⟩
  have slab : 4096 ≤ slabSize order ∧ slabSize order < 2 ^ 15 := by
    simp only [maxFrameOrder] at bound
    simp only [slabSize, pageSize]
    interval_cases order <;> decide
  have positiveNum : 0 < slabSize order / objectSize :=
    Nat.div_pos (by omega) (pos_of_ne_zero nonzero)
  have fits : slabSize order / objectSize % 2 ^ 16 = slabSize order / objectSize :=
    mod_eq_of_lt ((Nat.div_le_self _ _).trans_lt (by omega))
  refine ⟨slabSize order / objectSize, order, ?_⟩
  simp only [calculateSizes, size_eq, within, nonzero, found, fits, positiveNum.ne', if_false, bind,
    Except.bind, pure, Except.pure]

theorem calculateSizes_large (align : Nat) (large : 4096 < size) (word : size < 2 ^ 16) :
    ∃ error, calculateSizes size align = .error error ∧ error.panics = true := by
  have bounds := calculateAlignment_bounds size align
  have alignment := pos_of_dvd_of_pos bounds.2 (by decide)
  have wide : calculateAlignment size align ∣ 2 ^ 16 := bounds.2.trans (by decide)
  have above : size ≤ nextMultipleOf size _ := le_nextMultipleOf alignment
  have below := nextMultipleOf_le alignment wide word.le
  generalize size_eq : nextMultipleOf size (calculateAlignment size align) = objectSize
    at above below
  rcases Nat.eq_or_lt_of_le below with wraps | within
  · refine ⟨.zeroSize, ?_, rfl⟩
    simp [calculateSizes, size_eq, wraps, bind, Except.bind, throw, throwThe, MonadExceptOf.throw]
  · have kept := mod_eq_of_lt within
    have nonzero : objectSize ≠ 0 := by omega
    have empty : slabSize 0 / objectSize % 2 ^ 16 = 0 := by
      rw [div_eq_of_lt, zero_mod]
      simp only [slabSize, pageSize]
      omega
    refine ⟨.noObject, ?_, rfl⟩
    simp only [calculateSizes, size_eq, kept, nonzero, calculateOrder_large (large.trans_le above),
      empty, if_true, if_false, bind, Except.bind, pure, Except.pure, throw, throwThe,
      MonadExceptOf.throw]

/-- The object size of `CacheConfig::new`. -/
def plainSize (size : Nat) : Nat := nextMultipleOf size (calculateAlignment size minAlign)

/-- The object size after `CacheConfig::align`. -/
def alignedSize (size align : Nat) : Nat :=
  nextMultipleOf (plainSize size) (calculateAlignment (plainSize size) (max align minAlign))

/-- The step to which sizes are rounded up for a requested alignment. -/
def granule (align : Nat) : Nat := if align ≤ 17 then 16 else if align ≤ 33 then 32 else 64

theorem granule_mem (align : Nat) : granule align ∈ [16, 32, 64] := by
  unfold granule
  split_ifs <;> decide

theorem nextMultipleOf_of_dvd {value step : Nat} (positive : 0 < step) (multiple : step ∣ value) :
    nextMultipleOf value step = value :=
  le_antisymm (nextMultipleOf_le positive multiple le_rfl) (le_nextMultipleOf positive)

/-- The clamped power of two for a requested alignment. -/
theorem clamp_nextPowerOfTwo (align : Nat) :
    clamp (nextPowerOfTwo (max align minAlign - 1)) minAlign cachelineSize = granule align := by
  have power (n : Nat) : clog 2 (max align 16 - 1) ≤ n ↔ max align 16 - 1 ≤ 2 ^ n :=
    clog_le_iff_le_pow (by decide)
  unfold granule nextPowerOfTwo clamp
  simp only [minAlign, cachelineSize]
  have three := power 3
  have four := power 4
  have five := power 5
  split_ifs with low middle
  · have exponent : clog 2 (max align 16 - 1) = 4 := by omega
    rw [exponent]
    decide
  · have exponent : clog 2 (max align 16 - 1) = 5 := by omega
    rw [exponent]
    decide
  · have large : 2 ^ 6 ≤ 2 ^ clog 2 (max align 16 - 1) :=
      Nat.pow_le_pow_right (by decide) (by omega)
    omega

/-- The trailing zeros of the size raise the alignment only to one that the size already has. -/
theorem rounded_eq {step align : Nat} (size : Nat) (member : step ∈ [16, 32, 64])
    (clamped : clamp (nextPowerOfTwo (align - 1)) minAlign cachelineSize = step) :
    nextMultipleOf size (calculateAlignment size align) = nextMultipleOf size step := by
  have bounds : 16 ≤ step ∧ step ≤ 64 ∧ 0 < step := by
    fin_cases member <;> decide
  have divides := two_pow_trailingZeros_dvd size
  unfold calculateAlignment
  unfold clamp at clamped ⊢
  simp only [minAlign, cachelineSize] at clamped ⊢
  rcases le_or_gt (2 ^ trailingZeros size) step with few | many
  · congr 1
    omega
  · -- Both steps divide the size.
    have raised : max 16 (min (max (nextPowerOfTwo (align - 1)) (2 ^ trailingZeros size)) 64) =
        min (2 ^ trailingZeros size) 64 := by omega
    have power : 2 ^ trailingZeros size = 32 ∨ 64 ∣ 2 ^ trailingZeros size := by
      rcases lt_or_ge (trailingZeros size) 6 with low | high
      · left
        interval_cases trailingZeros size <;> omega
      · exact .inr (pow_dvd_pow 2 high)
    have finer : min (2 ^ trailingZeros size) 64 ∣ size ∧ step ∣ size := by
      rcases power with small | line
      · rw [small] at many divides ⊢
        exact ⟨divides, dvd_trans (by fin_cases member <;> omega) divides⟩
      · rw [min_eq_right (le_of_dvd (Nat.two_pow_pos _) line)]
        exact ⟨line.trans divides, (by fin_cases member <;> decide : step ∣ 64).trans
          (line.trans divides)⟩
    rw [raised, nextMultipleOf_of_dvd (by omega) finer.1, nextMultipleOf_of_dvd bounds.2.2 finer.2]

/-- The size of the objects for a request, in terms of the request. -/
theorem alignedSize_eq (size align : Nat) :
    alignedSize size align = nextMultipleOf size (granule align) := by
  have plain : plainSize size = nextMultipleOf size 16 := rounded_eq size (by decide) (by decide)
  rw [alignedSize, plain, rounded_eq _ (granule_mem align) (clamp_nextPowerOfTwo align)]
  have member := granule_mem align
  simp only [mem_cons, not_mem_nil, or_false] at member
  unfold nextMultipleOf
  rcases member with step | step | step <;> rw [step] <;> omega

/-- A divisor of 64 is an alignment that every size gets. -/
theorem dvd_rounded {align : Nat} (divides : align ∣ 64) (size : Nat) :
    align ∣ nextMultipleOf size (granule align) := by
  refine dvd_trans ?_ dvd_nextMultipleOf
  have small : align ≤ 64 := le_of_dvd (by decide) divides
  unfold granule
  interval_cases align <;> revert divides <;> decide

theorem word_lt_nextPowerOfTwo_iff (align : Nat) :
    2 ^ 64 ≤ nextPowerOfTwo (max align minAlign - 1) ↔ 2 ^ 63 + 1 < align := by
  rw [nextPowerOfTwo, Nat.pow_le_pow_iff_right (by decide), minAlign]
  have lower : 64 ≤ clog 2 (max align 16 - 1) ↔ ¬ clog 2 (max align 16 - 1) ≤ 63 := by omega
  rw [lower, clog_le_iff_le_pow (by decide)]
  omega

/-- What the caller of `mem_cache_create` relies on. An alignment of zero asks for nothing. -/
def Created.Right (objectSize align : Nat) : Created → Prop
  | .null => True
  | .cache config =>
    objectSize ≤ config.objectSize ∧ (align = 0 ∨ align ∣ config.objectSize) ∧
      1 ≤ config.objectNum ∧ config.objectNum * config.objectSize ≤ slabSize config.frameOrder
  | .panicked => False

theorem memCacheCreate_small (align : Nat) (memory : Bool) (positive : 0 < size)
    (small : size ≤ 4096) : (2 ^ 63 + 1 < align ∧ memCacheCreate size align memory = .panicked) ∨
      (align ≤ 2 ^ 63 + 1 ∧ ∃ config : CacheConfig, config.Fits ∧
        config.objectSize = alignedSize size align ∧
        memCacheCreate size align memory = if memory then .cache config else .null) := by
  rcases calculateSizes_small minAlign positive small with ⟨plainNum, plainOrder, plain⟩
  have bounds := rounded_bounds minAlign small
  rcases calculateSizes_small (max align minAlign) (positive.trans_le bounds.2.1) bounds.2.2 with
    ⟨objectNum, order, sizes⟩
  have fits := calculateSizes_fits sizes
  by_cases wide : 2 ^ 63 + 1 < align
  · refine Or.inl ⟨wide, ?_⟩
    simp only [memCacheCreate, positive.ne', if_false, new, plain, bind, Except.bind,
      pure, Except.pure, (word_lt_nextPowerOfTwo_iff align).mpr wide, if_true]
  · have narrow : ¬ 2 ^ 64 ≤ nextPowerOfTwo (max align minAlign - 1) :=
      fun overflow => wide ((word_lt_nextPowerOfTwo_iff align).mp overflow)
    let config : CacheConfig :=
      { objectSize := alignedSize size align, objectNum, frameOrder := order,
        align := calculateAlignment (plainSize size) (max align minAlign),
        minPartial := clamp (log2 (plainSize size) / 2) minPartialLimit maxPartialLimit }
    refine Or.inr ⟨not_lt.mp wide, config, ⟨fits.1, fits.2.1, fits.2.2⟩, rfl, ?_⟩
    simp only [memCacheCreate, positive.ne', if_false, new, plain, bind, Except.bind,
      pure, Except.pure, narrow, withAlign, sizes]
    rfl

theorem memCacheCreate_large (align : Nat) (memory : Bool) (large : 4096 < size)
    (word : size < 2 ^ 16) : memCacheCreate size align memory = .panicked := by
  rcases calculateSizes_large minAlign large word with ⟨error, failed, panics⟩
  have nonzero : size ≠ 0 := by omega
  simp only [memCacheCreate, nonzero, if_false, new, failed, bind, Except.bind, panics,
    if_true]

/-- `mem_cache_create` gives its caller what it relies on exactly for the empty request and for
requests of at most a page with an alignment that does not overflow and, when memory is found, is
zero, divides 64, or divides the size rounded up to a multiple of 16 (alignments up to 17), of 32
(up to 33) or of 64. -/
theorem memCacheCreate_right_iff (objectSize : UInt16) (align : UInt64) (memory : Bool) :
    (memCacheCreate objectSize.toNat align.toNat memory).Right objectSize.toNat align.toNat ↔
      objectSize.toNat = 0 ∨
        (objectSize.toNat ≤ 4096 ∧ align.toNat ≤ 2 ^ 63 + 1 ∧
          (memory = true →
            align.toNat = 0 ∨ align.toNat ∣ 64 ∨
              align.toNat ∣ nextMultipleOf objectSize.toNat (granule align.toNat))) := by
  have word := objectSize.toNat_lt
  generalize objectSize.toNat = size at word
  generalize align.toNat = requested
  rcases Nat.eq_zero_or_pos size with empty | positive
  · simp [empty, memCacheCreate, Created.Right]
  rcases lt_or_ge 4096 size with large | small
  · rw [memCacheCreate_large requested memory large word]
    simp only [Created.Right, false_iff, not_or, not_and]
    exact ⟨positive.ne', fun below => absurd below large.not_ge⟩
  rcases memCacheCreate_small requested memory positive small with
    ⟨wide, panicked⟩ | ⟨narrow, config, fits, size_eq, created⟩
  · rw [panicked]
    simp only [Created.Right, false_iff, not_or, not_and]
    exact ⟨positive.ne', fun _ below => absurd below wide.not_ge⟩
  · have enough : size ≤ config.objectSize := by
      have plain := rounded_bounds minAlign small
      exact size_eq ▸ plain.2.1.trans (rounded_bounds _ plain.2.2).2.1
    have filled := fits.objectNum_pos
    have within := fits.bytes
    cases memory with
    | false =>
      rw [created]
      exact iff_of_true trivial (Or.inr ⟨small, narrow, fun found => by cases found⟩)
    | true =>
      have rounded := size_eq.trans (alignedSize_eq size requested)
      rw [created, if_pos rfl, ← rounded]
      constructor
      · intro right
        exact Or.inr ⟨small, narrow, fun _ => right.2.1.imp_right Or.inr⟩
      · intro condition
        rcases condition with empty | ⟨-, -, divides⟩
        · exact absurd empty positive.ne'
        · refine ⟨enough, ?_, filled, within⟩
          rcases divides rfl with zero | line | multiple
          · exact Or.inl zero
          · exact Or.inr (rounded ▸ dvd_rounded line size)
          · exact Or.inr multiple

/-- Two requests that fail their callers: one of more than a page, and one for an alignment above
the cache line. -/
theorem memCacheCreate_panics_and_misaligns : memCacheCreate 5000 16 true = .panicked ∧
      ¬ (memCacheCreate 64 128 true).Right 64 128 := by
  have misaligned : memCacheCreate 64 128 true = .cache ⟨64, 64, 0, 64, 5⟩ := by decide +kernel
  refine ⟨by decide +kernel, ?_⟩
  rw [misaligned]
  intro right
  exact absurd right.2.1 (by decide)

end Horizon.Slub
