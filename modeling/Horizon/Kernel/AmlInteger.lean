import Horizon.Kernel.AmlBytecode
import Horizon.Kernel.AmlRegion

/-!
# AML integer operators

`Integer` of `acpi/aml/evaluator/data.rs` and the arithmetic arms of `evaluate_expression` and
`binary_op` in `acpi/aml/evaluator/expressions.rs`, from the evaluated operands on. Both operands
have the width of the revision.
-/

namespace Horizon.Aml

open AmlRegion

/-- The operators on integers. -/
inductive IntegerOp
  | add | subtract | multiply | and | or | xor | not | shiftLeft | shiftRight | divide | mod
  deriving DecidableEq

variable {width : Width}

/-- The amount of `wrapping_shl` and `wrapping_shr`: the right operand as `u32`, below the width. -/
def shiftAmount (b : BitVec width.bits) : Nat := b.toNat % 2 ^ 32 % width.bits

/-- `a / b`: `wrapping_div` panics on zero. -/
def integerDiv (a b : BitVec width.bits) : Except Stop (BitVec width.bits) :=
  if b = 0 then .error .panic else .ok (a / b)

/-- `a % b`: `wrapping_rem` panics on zero. -/
def integerRem (a b : BitVec width.bits) : Except Stop (BitVec width.bits) :=
  if b = 0 then .error .panic else .ok (a % b)

/-- `evaluate_expression`: the value, and for `Divide` the remainder that is written. The arm of
`Xor` is missing: `todo!()`. -/
def evaluateOperator (op : IntegerOp) (a b : BitVec width.bits) :
    Except Stop (BitVec width.bits × Option (BitVec width.bits)) :=
  match op with
  | .and => .ok (a &&& b, none)
  | .or => .ok (a ||| b, none)
  | .add => .ok (a + b, none)
  | .subtract => .ok (a - b, none)
  | .multiply => .ok (a * b, none)
  | .mod => do
    let result ← integerRem a b
    .ok (result, none)
  | .shiftLeft => .ok (a <<< shiftAmount b, none)
  | .shiftRight => .ok (a >>> shiftAmount b, none)
  | .not => .ok (~~~a, none)
  | .divide => do
    let quotient ← integerDiv a b
    .ok (quotient, some (a - quotient * b))
  | .xor => .error .panic

end Horizon.Aml
