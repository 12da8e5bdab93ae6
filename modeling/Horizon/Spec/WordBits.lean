import Mathlib

/-!
# Bits in words

A map of words read as one sequence of bits, and the effect on single bits of combining words with
masks.
-/

namespace Horizon.WordBits

open BitVec

variable {w : Nat} {map : Nat → BitVec w} {masks : List (Nat × BitVec w)} {position : Nat}

def bitAt (map : Nat → BitVec w) (position : Nat) : Bool :=
  (map (position / w)).getLsbD (position % w)

def covers (masks : List (Nat × BitVec w)) (position : Nat) : Bool :=
  masks.any fun entry => entry.1 == position / w && entry.2.getLsbD (position % w)

@[simp] theorem covers_nil : covers ([] : List (Nat × BitVec w)) position = false := rfl

@[simp] theorem covers_cons (entry : Nat × BitVec w) : covers (entry :: masks) position =
      ((entry.1 == position / w && entry.2.getLsbD (position % w)) || covers masks position) := by
  simp [covers]

theorem bitAt_update (index : Nat) (word : BitVec w) :
    bitAt (Function.update map index word) position =
      if position / w = index then word.getLsbD (position % w) else bitAt map position := by
  unfold bitAt
  by_cases same : position / w = index
  · simp [same]
  · simp [same]

/-- Setting the bits of masks. -/
def orMasks (map : Nat → BitVec w) (masks : List (Nat × BitVec w)) : Nat → BitVec w :=
  masks.foldl (fun map entry => Function.update map entry.1 (map entry.1 ||| entry.2)) map

def clearMasks (map : Nat → BitVec w) (masks : List (Nat × BitVec w)) : Nat → BitVec w :=
  masks.foldl (fun map entry => Function.update map entry.1 (map entry.1 &&& ~~~entry.2)) map

theorem bitAt_orMasks (map : Nat → BitVec w) (masks : List (Nat × BitVec w)) (position : Nat) :
    bitAt (orMasks map masks) position = (bitAt map position || covers masks position) := by
  induction masks generalizing map with
  | nil => simp [orMasks]
  | cons entry rest ih =>
    rw [orMasks, List.foldl_cons, ← orMasks, ih, bitAt_update, covers_cons]
    by_cases same : position / w = entry.1
    · simp [same, bitAt, Bool.or_assoc]
    · have apart : (entry.1 == position / w) = false := beq_eq_false_iff_ne.mpr (Ne.symm same)
      simp [same, apart]

theorem bitAt_clearMasks (positive : 0 < w) (map : Nat → BitVec w)
    (masks : List (Nat × BitVec w)) (position : Nat) :
    bitAt (clearMasks map masks) position = (bitAt map position && !covers masks position) := by
  induction masks generalizing map with
  | nil => simp [clearMasks]
  | cons entry rest ih =>
    have inside := Nat.mod_lt position positive
    rw [clearMasks, List.foldl_cons, ← clearMasks, ih, bitAt_update, covers_cons]
    by_cases same : position / w = entry.1
    · simp [same, bitAt, inside, Bool.and_assoc]
    · have apart : (entry.1 == position / w) = false := beq_eq_false_iff_ne.mpr (Ne.symm same)
      simp [same, apart]

theorem all_and_eq_zero_iff (positive : 0 < w) :
    (masks.all fun entry => map entry.1 &&& entry.2 == 0) = true ↔
      ∀ position, covers masks position = true → bitAt map position = false := by
  simp only [List.all_eq_true, beq_iff_eq, covers, List.any_eq_true, Bool.and_eq_true]
  constructor
  · rintro clear position ⟨entry, member, index, bit⟩
    have zero := congrArg (fun word => word.getLsbD (position % w)) (clear entry member)
    simpa [bitAt, ← index, bit] using zero
  · intro clear entry member
    apply eq_of_getLsbD_eq
    intro k below
    rw [getLsbD_and]
    cases bit : entry.2.getLsbD k with
    | false => simp
    | true =>
      -- The position of this bit in the sequence.
      have index : (entry.1 * w + k) / w = entry.1 := by
        rw [mul_comm, Nat.mul_add_div positive, Nat.div_eq_of_lt below, add_zero]
      have offset : (entry.1 * w + k) % w = k := by
        rw [mul_comm, Nat.mul_add_mod, Nat.mod_eq_of_lt below]
      have free := clear (entry.1 * w + k) ⟨entry, member, index.symm, by rw [offset, bit]⟩
      rw [bitAt, index, offset] at free
      simp [free]

/-- The bits of a run of ones. -/
theorem getLsbD_run {bit len : Nat} (fits : bit + len ≤ w) (k : Nat) :
    ((allOnes w >>> (w - len)) <<< bit).getLsbD k = decide (bit ≤ k ∧ k < bit + len) := by
  rw [getLsbD_shiftLeft, getLsbD_ushiftRight, getLsbD_allOnes]
  by_cases low : k < bit
  · simp [low, not_le.mpr low]
  · by_cases high : k < bit + len
    · have first : k < w := by omega
      have second : w - len + (k - bit) < w := by omega
      simp [low, high, first, second, not_lt.mp low]
    · have past : ¬ w - len + (k - bit) < w := by omega
      simp [high, past]

theorem and_one_shiftLeft_eq_zero {word : BitVec w} {bit : Nat} (inside : bit < w) :
    word &&& (1#w <<< bit) = 0 ↔ word.getLsbD bit = false := by
  constructor
  · intro zero
    have same := congrArg (fun word => word.getLsbD bit) zero
    simpa [inside] using same
  · intro clear
    apply eq_of_getLsbD_eq
    intro k below
    rw [getLsbD_and, getLsbD_shiftLeft]
    by_cases same : k = bit
    · subst same
      simp [clear]
    · by_cases low : k < bit
      · simp [low]
      · have later : k - bit ≠ 0 := by omega
        simp [getLsbD_one, later]

theorem getLsbD_or_one_shiftLeft {word : BitVec w} {bit k : Nat} (inside : k < w) :
    (word ||| (1#w <<< bit)).getLsbD k = (word.getLsbD k || decide (k = bit)) := by
  rw [getLsbD_or, getLsbD_shiftLeft]
  by_cases low : k < bit
  · simp [low, low.ne]
  · by_cases same : k = bit
    · subst same
      have positive : 0 < w := by omega
      simp [inside, positive]
    · have later : k - bit ≠ 0 := by omega
      simp [getLsbD_one, later, same]

end Horizon.WordBits
