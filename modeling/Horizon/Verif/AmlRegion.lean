import Horizon.Kernel.AmlRegion
import Horizon.Spec.Runs

/-!
# Fields of operation regions do not round-trip

The loop that reads a field takes a whole word in every round before the last one, and shifts by as
much. It overflows unless the field starts `k` bits before the end of the second word and is `3 * k`
bits long, and there the value is put together from whole words.
-/

namespace Horizon.AmlRegion

open Runs Nat

variable {count length width : Nat} {region : Region}

theorem readRound_ok {i word offset integer : Nat} {result : Nat × Nat × Nat}
    (done : readRound width count i word offset length integer = .ok result) :
    result.1 = (if i = 0 then offset - min offset width else offset) ∧
    result.2.1 + (width - min result.1 width) = length ∧ width - min result.1 width < width ∧
    (i = count - 1 → result.1 + length ≤ width) := by
  have taken : ∀ offset' byte, takeByte width offset' length integer byte = .ok result →
      result.1 = offset' ∧ result.2.1 + (width - min result.1 width) = length ∧
      width - min result.1 width < width := by
    intro offset' byte step
    simp only [takeByte] at step
    split at step
    · cases step
    case isFalse enough =>
      split at step
      · cases step
      case isFalse small =>
        cases step
        exact ⟨rfl, by simp only; omega, by simp only; omega⟩
  simp only [readRound] at done
  split at done
  case isTrue =>
    obtain ⟨byte, shifted, rest⟩ := bind_eq_ok.mp done
    have spec := taken _ _ rest
    refine ⟨spec.1, spec.2.1, spec.2.2, ?_⟩
    intro _
    rw [spec.1]
    by_contra beyond
    rw [shiftLast, if_pos (by omega)] at shifted
    cases shifted
  case isFalse elsewhere =>
    have spec := taken _ _ done
    exact ⟨spec.1, spec.2.1, spec.2.2, fun here => absurd here elsewhere⟩

theorem readLoop_ok (rounds i offset length integer value : Nat) (later : i ≠ 0)
    (sum : i + (rounds + 1) = count)
    (done : readLoop width region count (rounds + 1) i offset length integer = .ok value) :
    offset ≤ width ∧ 0 < offset ∧ length = (rounds + 1) * (width - offset) := by
  induction rounds generalizing i offset length integer with
  | zero =>
    rw [readLoop] at done
    split at done
    · cases done
    case h_2 offset' length' integer' round =>
      have spec := readRound_ok round
      simp only [later, ↓reduceIte] at spec
      have last := spec.2.2.2 (by omega)
      have start := spec.1
      have taken := spec.2.1
      have small := spec.2.2.1
      rw [start] at taken small last
      refine ⟨by omega, by omega, ?_⟩
      omega
  | succ rounds ih =>
    rw [readLoop] at done
    split at done
    · cases done
    case h_2 offset' length' integer' round =>
      have spec := readRound_ok round
      simp only [later, ↓reduceIte] at spec
      have rest := ih (i + 1) offset' length' integer' (by omega) (by omega) done
      have start := spec.1
      have taken := spec.2.1
      rw [start] at rest taken
      refine ⟨rest.1, rest.2.1, ?_⟩
      have whole : (rounds + 1 + 1) * (width - offset) =
          (rounds + 1) * (width - offset) + (width - offset) := succ_mul _ _
      omega

theorem readBits_ok {bitOffset bitLength value : Nat} (wide : 1 < width)
    (nonempty : 1 ≤ bitLength) (fits : bitLength ≤ width)
    (done : readBits width region bitOffset bitLength = .ok value) :
    ∃ k, 1 ≤ k ∧ bitOffset + k = 2 * width ∧ bitLength = 3 * k := by
  simp only [readBits] at done
  generalize counted : (bitOffset + bitLength + (width - 1)) / width = count at done
  cases count with
  | zero =>
    have none : bitOffset + bitLength + (width - 1) < width :=
      (div_eq_zero_iff_lt (by omega)).mp counted
    omega
  | succ rounds =>
    rw [readLoop] at done
    split at done
    · cases done
    case h_2 offset' length' integer' round =>
      have spec := readRound_ok round
      simp only [↓reduceIte] at spec
      have start := spec.1
      have taken := spec.2.1
      have small := spec.2.2.1
      rw [start] at taken small
      have lower : (rounds + 1) * width ≤ bitOffset + bitLength + (width - 1) := by
        rw [← counted]
        exact div_mul_le_self _ _
      have upper : bitOffset + bitLength + (width - 1) < (rounds + 2) * width := by
        rw [← Nat.div_lt_iff_lt_mul (by omega), counted]
        omega
      cases rounds with
      | zero => omega
      | succ rounds =>
        have rest := readLoop_ok rounds 1 offset' length' integer' value (by omega) (by omega) done
        rw [start] at rest
        have behind : bitOffset - min bitOffset width = bitOffset - width := by omega
        rw [behind] at rest taken small
        have least : min (bitOffset - width) width = bitOffset - width := by omega
        rw [least] at taken
        generalize part : width - (bitOffset - width) = k at rest taken
        have length : bitLength = (rounds + 1) * k + k := by omega
        have positive : 1 ≤ k := by
          by_contra none
          have zero : k = 0 := by omega
          rw [zero] at length
          omega
        -- The rounds are as many as the words up to the end of the field, which leaves three.
        have first : 1 ≤ (rounds + 1) * k := Nat.mul_pos (by omega) positive
        have three : rounds = 1 := by
          cases Nat.lt_trichotomy rounds 1 with
          | inl less =>
            have zero : rounds = 0 := by omega
            rw [zero] at upper lower length first
            omega
          | inr others =>
            cases others with
            | inl same => exact same
            | inr more =>
              have four : 4 * width ≤ (rounds + 1 + 1) * width := Nat.mul_le_mul_right _ (by omega)
              omega
        refine ⟨k, positive, by omega, ?_⟩
        rw [three] at length
        omega

/-- The value of a bit, counted from the most significant one of the first byte. -/
def regionBit (region : Region) (place : Nat) : Nat :=
  region (place / 8) % 2 ^ 8 / 2 ^ (7 - place % 8) % 2

/-- Every value that is written is read back up to the length of the field, and the bits of the
region outside the field stay. -/
def RoundTrips {width : Width} (field : FieldUnit width) (length : Nat) : Prop :=
  ∀ (region : Region) (value : Nat), value < 2 ^ width.bits →
    ∃ after, writeFieldUnit field length value region = .ok (some after) ∧
      evaluate field length after = .ok (some (value % 2 ^ field.bitLength)) ∧
      ∀ place, place < 8 * length →
        (place < field.bitOffset ∨ field.bitOffset + field.bitLength ≤ place) →
        regionBit after place = regionBit region place

def ones : Region := fun _ => 0xFF

def zeroRead (width : Width) (bitOffset bitLength : Nat) : Option Nat :=
  match writeBits ones bitOffset bitLength 0 with
  | .error _ => none
  | .ok region =>
    match readBits width.bits region bitOffset bitLength with
    | .error _ => none
    | .ok value => some value

theorem zeroRead_of_roundTrips {width : Width} {field : FieldUnit width}
    (trips : RoundTrips field length) :
    zeroRead width field.bitOffset field.bitLength = some 0 := by
  obtain ⟨after, written, read, _⟩ := trips ones 0 (Nat.two_pow_pos _)
  obtain ⟨resolved, resolves, accesses⟩ := bind_eq_ok.mp written
  cases resolved with
  | false => cases accesses
  | true =>
    obtain ⟨region, bits, same⟩ := bind_eq_ok.mp accesses
    cases same
    obtain ⟨_, again, rest⟩ := bind_eq_ok.mp read
    rw [resolves] at again
    cases again
    obtain ⟨value, loop, returned⟩ := bind_eq_ok.mp rest
    cases returned
    simp only [zeroRead, bits]
    cases width with
    | u32 =>
      simp only [readField, readBitsU32, zero_mod] at loop
      simp only [Width.bits, loop]
    | u64 =>
      simp only [readField, readBitsU64, zero_mod] at loop
      simp only [Width.bits, loop]

theorem zeroRead_ne_zero (width : Width) (k : Nat) (positive : 1 ≤ k) (fits : 3 * k ≤ width.bits) :
    zeroRead width (2 * width.bits - k) (3 * k) ≠ some 0 := by
  cases width with
  | u32 =>
    have small : k < 11 := by
      simp only [Width.bits] at fits
      omega
    clear fits
    revert k
    decide +kernel
  | u64 =>
    have small : k < 22 := by
      simp only [Width.bits] at fits
      omega
    clear fits
    revert k
    decide +kernel

/-- No field unit of access type `Any` round-trips, whatever its region, offset, length and the
width of integers. -/
theorem no_field_round_trips (width : Width) (field : FieldUnit width) (length : Nat) :
    ¬ RoundTrips field length := by
  intro trips
  have zero := zeroRead_of_roundTrips trips
  have read : ∃ region value, readBits width.bits region field.bitOffset field.bitLength =
      .ok value := by
    simp only [zeroRead] at zero
    split at zero
    · cases zero
    case h_2 region _ =>
      split at zero
      · cases zero
      case h_2 value done => exact ⟨region, value, done⟩
  obtain ⟨region, value, done⟩ := read
  have wide : 1 < width.bits := by cases width <;> decide
  obtain ⟨k, positive, start, size⟩ := readBits_ok wide field.nonempty field.fits done
  have offset : field.bitOffset = 2 * width.bits - k := by omega
  have fits := field.fits
  rw [size] at fits
  rw [offset, size] at zero
  exact zeroRead_ne_zero width k positive fits zero

def nibble : FieldUnit .u32 where
  bitOffset := 4
  bitLength := 4
  nonempty := by decide
  fits := by decide

/-- Reading the half of a byte panics: the whole word that the first round takes is more than the
four bits that are wanted. -/
theorem nibble_read_overflows :
    evaluate nibble 4 ones = .error .overflow ∧ ¬ RoundTrips nibble 4 := by
  constructor
  · rfl
  · intro trips
    have zero := zeroRead_of_roundTrips trips
    have none : zeroRead .u32 nibble.bitOffset nibble.bitLength = none := by decide +kernel
    rw [none] at zero
    cases zero

end Horizon.AmlRegion
