import Horizon.Kernel.AmlInteger

/-!
# AML integer operators and the arithmetic they stand for

The operators are the wrapping machine operations, except that `XOr` has no arm, that shifts take
the amount modulo the width, and that a division by zero panics.
-/

namespace Horizon.Aml

open AmlRegion BitVec Nat

variable {width : Width}

/-- The mathematical value, before reduction; a division by zero has none. -/
def IntegerOp.meaning (bits : Nat) (a b : Nat) : IntegerOp → Option Int
  | add => some (a + b)
  | subtract => some (a - b)
  | multiply => some (a * b)
  | and => some (a &&& b : Nat)
  | or => some (a ||| b : Nat)
  | xor => some (a ^^^ b : Nat)
  | not => some (-a - 1)
  | shiftLeft => some (if b < bits then a * 2 ^ b else 0)
  | shiftRight => some (if b < bits then (a / 2 ^ b : Nat) else 0)
  | divide => if b = 0 then none else some (a / b : Nat)
  | mod => if b = 0 then none else some (a % b : Nat)

/-- The operator gives the mathematical value modulo `2 ^ bits`, with the remainder where it is a
division, and an error where there is none. -/
def OperatorCorrect (op : IntegerOp) (a b : BitVec width.bits) : Prop :=
  match op.meaning width.bits a.toNat b.toNat with
  | none => evaluateOperator op a b = .error .none
  | some value => ∃ result remainder, evaluateOperator op a b = .ok (result, remainder) ∧
      (result.toNat : Int) = value % 2 ^ width.bits ∧
      (op = .divide → remainder.map BitVec.toNat = some (a.toNat % b.toNat))

/-- The condition on the operands: the executor has the operator, and its result is the specified
one. -/
def OperatorHandled (op : IntegerOp) (a b : BitVec width.bits) : Prop :=
  match op with
  | .xor => False
  | .shiftLeft => b.toNat < width.bits ∨
      a.toNat * 2 ^ (b.toNat % width.bits) % 2 ^ width.bits = 0
  | .shiftRight => b.toNat < width.bits ∨ a.toNat / 2 ^ (b.toNat % width.bits) = 0
  | .divide | .mod => b ≠ 0
  | _ => True

theorem shiftAmount_eq (b : BitVec width.bits) : shiftAmount b = b.toNat % width.bits := by
  cases width with
  | u32 | u64 => exact mod_mod_of_dvd _ (by decide)

theorem residue_eq (a : BitVec width.bits) : (a.toNat : Int) % 2 ^ width.bits = a.toNat := by
  exact Int.emod_eq_of_lt (by omega) (by exact_mod_cast a.isLt)

theorem value_correct {op : IntegerOp} {a b result : BitVec width.bits} {value : Int}
    (apart : op ≠ .divide) (means : op.meaning width.bits a.toNat b.toNat = some value)
    (ran : evaluateOperator op a b = .ok (result, none)) :
    OperatorCorrect op a b ↔ (result.toNat : Int) = value % 2 ^ width.bits := by
  rw [OperatorCorrect, means]
  constructor
  · rintro ⟨result', remainder, ran', equal, -⟩
    cases ran.symm.trans ran'
    exact equal
  · intro equal
    exact ⟨result, none, ran, equal, fun divides => absurd divides apart⟩

theorem division_correct {op : IntegerOp} {a b : BitVec width.bits} (result : BitVec width.bits)
    (remainder : Option (BitVec width.bits)) {value : Nat}
    (means : op.meaning width.bits a.toNat b.toNat =
      if b.toNat = 0 then none else some (value : Int))
    (fails : b = 0 → evaluateOperator op a b = .error .panic)
    (ran : b ≠ 0 → evaluateOperator op a b = .ok (result, remainder)) (equal : result.toNat = value)
    (rest : op = .divide → remainder.map BitVec.toNat = some (a.toNat % b.toNat)) :
    OperatorCorrect op a b ↔ b ≠ 0 := by
  rw [OperatorCorrect, means]
  by_cases zero : b = 0
  · refine iff_of_false ?_ (not_not.mpr zero)
    rw [if_pos (by simp [zero]), fails zero]
    exact fun same => by cases same
  · have positive : b.toNat ≠ 0 := fun none => zero (eq_of_toNat_eq (by simpa using none))
    refine iff_of_true ?_ zero
    rw [if_neg positive]
    exact ⟨result, remainder, ran zero, by rw [← equal, residue_eq], rest⟩

theorem remainder_eq (a b : BitVec width.bits) : (a - a / b * b).toNat = a.toNat % b.toNat := by
  have below : a.toNat / b.toNat * b.toNat ≤ a.toNat := div_mul_le_self _ _
  have split := div_add_mod' a.toNat b.toNat
  have bound := a.isLt
  have product := mod_eq_of_lt (below.trans_lt bound)
  rw [toNat_sub, toNat_mul, toNat_udiv, product]
  rw [show 2 ^ width.bits - a.toNat / b.toNat * b.toNat + a.toNat =
    a.toNat % b.toNat + 2 ^ width.bits by omega, add_mod_right]
  exact mod_eq_of_lt (by omega)

/-- Each operator is correct exactly for the operands of `OperatorHandled`. -/
theorem operator_correct_iff (op : IntegerOp) (a b : BitVec width.bits) :
    OperatorCorrect op a b ↔ OperatorHandled op a b := by
  have shift := shiftAmount_eq b
  have boundA := a.isLt
  have boundB := b.isLt
  cases op with
  | add =>
    rw [value_correct (by decide) rfl rfl, toNat_add]
    exact iff_of_true (by push_cast; rfl) trivial
  | subtract =>
    rw [value_correct (by decide) rfl rfl, toNat_sub]
    refine iff_of_true ?_ trivial
    push_cast [boundB.le]
    rw [← Int.add_emod_right (a.toNat - b.toNat : Int)]
    ring_nf
  | multiply =>
    rw [value_correct (by decide) rfl rfl, toNat_mul]
    exact iff_of_true (by push_cast; rfl) trivial
  | and =>
    rw [value_correct (by decide) rfl rfl, ← toNat_and, residue_eq]
    exact iff_of_true rfl trivial
  | or =>
    rw [value_correct (by decide) rfl rfl, ← toNat_or, residue_eq]
    exact iff_of_true rfl trivial
  | xor =>
    refine iff_of_false ?_ id
    rintro ⟨_, _, ran, -⟩
    cases ran
  | not =>
    rw [value_correct (by decide) rfl rfl, toNat_not]
    refine iff_of_true ?_ trivial
    have power : ((2 ^ width.bits : Nat) : Int) = 2 ^ width.bits := by push_cast; rfl
    rw [← Int.add_emod_right, Int.emod_eq_of_lt (by omega) (by omega)]
    omega
  | shiftLeft =>
    rw [value_correct (by decide) rfl rfl, toNat_shiftLeft, shift, Nat.shiftLeft_eq]
    by_cases small : b.toNat < width.bits
    · rw [if_pos small, Nat.mod_eq_of_lt small]
      exact iff_of_true (by push_cast; rfl) (.inl small)
    · rw [if_neg small, Int.zero_emod, Int.natCast_eq_zero, OperatorHandled, or_iff_right small]
  | shiftRight =>
    rw [value_correct (by decide) rfl rfl, toNat_ushiftRight, shift, Nat.shiftRight_eq_div_pow]
    by_cases small : b.toNat < width.bits
    · rw [if_pos small, Nat.mod_eq_of_lt small]
      refine iff_of_true (Int.emod_eq_of_lt (Int.natCast_nonneg _) ?_).symm (.inl small)
      exact_mod_cast lt_of_le_of_lt (Nat.div_le_self _ _) boundA
    · rw [if_neg small, Int.zero_emod, Int.natCast_eq_zero, OperatorHandled, or_iff_right small]
  | divide =>
    refine division_correct (a / b) (some (a - a / b * b)) rfl (fun zero => ?_) (fun other => ?_)
      toNat_udiv fun _ => congrArg some (remainder_eq a b)
    · rw [evaluateOperator, integerDiv, if_pos zero]
      rfl
    · rw [evaluateOperator, integerDiv, if_neg other]
      rfl
  | mod =>
    refine division_correct (a % b) none rfl (fun zero => ?_) (fun other => ?_)
      toNat_umod fun divides => by cases divides
    · rw [evaluateOperator, integerRem, if_pos zero]
      rfl
    · rw [evaluateOperator, integerRem, if_neg other]
      rfl

/-- A shift by the width gives the operand back. -/
theorem shift_by_width_wrong :
    evaluateOperator .shiftLeft (1 : BitVec Width.u32.bits) 32 = .ok (1, none) ∧
      ¬ OperatorCorrect .shiftLeft (1 : BitVec Width.u32.bits) 32 := by
  refine ⟨rfl, fun correct => ?_⟩
  obtain ⟨result, remainder, ran, equal, -⟩ := correct
  cases ran
  exact absurd equal (by decide)

end Horizon.Aml
