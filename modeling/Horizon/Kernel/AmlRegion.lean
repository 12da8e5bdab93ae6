import Mathlib

/-!
# Fields of operation regions

`acpi/aml/evaluator/region.rs`: reading and writing a field unit of access type `Any`. The region is
its bytes from the base on; the code reads words with the most significant byte first (`from_be`,
`to_be`). Integer arithmetic panics where it overflows.
-/

namespace Horizon.AmlRegion

/-- A panic: an integer operation or a shift overflows. -/
inductive Overflow
  | overflow
  deriving DecidableEq

/-- The width of integers, `bit_width` of the revision. -/
inductive Width
  | u32
  | u64
  deriving DecidableEq

/-- `Integer::bit_width`. -/
def Width.bits : Width → Nat
  | .u32 => 32
  | .u64 => 64

/-- The bytes behind an operation region. -/
abbrev Region := Nat → Nat

/-- `FieldUnit` of access type `Any`, for integers of the width. -/
structure FieldUnit (width : Width) where
  bitOffset : Nat
  bitLength : Nat
  nonempty : 1 ≤ bitLength
  fits : bitLength ≤ width.bits

/-- `from_be` of a word of so many bytes. -/
def readWord (region : Region) (place : Nat) : Nat → Nat
  | 0 => 0
  | bytes + 1 => readWord region place bytes * 2 ^ 8 + region (place + bytes) % 2 ^ 8

/-- Writing `to_be` of a word of so many bytes. -/
def writeWord (region : Region) (place : Nat) (bytes value : Nat) : Region := fun i =>
  if place ≤ i ∧ i < place + bytes then value / 2 ^ (8 * (place + bytes - 1 - i)) % 2 ^ 8
  else region i

/-- `byte >>= width - offset - length`, which the last round does. -/
def shiftLast (width offset length byte : Nat) : Except Overflow Nat :=
  if width < offset + length then .error .overflow
  else if width ≤ width - offset - length then .error .overflow
  else .ok (byte / 2 ^ (width - offset - length))

/-- `length -= len` and `(integer << len) | byte`. -/
def takeByte (width offset length integer byte : Nat) : Except Overflow (Nat × Nat × Nat) :=
  let len := width - min offset width
  if length < len then .error .overflow
  else if width ≤ len then .error .overflow
  else .ok (offset, length - len, integer * 2 ^ len % 2 ^ width ||| byte)

/-- The body of the loop of `read_bits_u32` and `read_bits_u64`: `offset`, `length` and `integer`
after round `i`. -/
def readRound (width count i word offset length integer : Nat) :
    Except Overflow (Nat × Nat × Nat) :=
  let byte := if i = 0 then word % 2 ^ (offset % width) else word
  let offset := if i = 0 then offset - min offset width else offset
  if i = count - 1 then do
    let byte ← shiftLast width offset length byte
    takeByte width offset length integer byte
  else takeByte width offset length integer byte

/-- The loop of `read_bits_u32` and `read_bits_u64`. -/
def readLoop (width : Nat) (region : Region) (count : Nat) :
    Nat → Nat → Nat → Nat → Nat → Except Overflow Nat
  | 0, _, _, _, integer => .ok integer
  | rounds + 1, i, offset, length, integer =>
    match readRound width count i (readWord region (i * (width / 8)) (width / 8)) offset length
      integer with
    | .error panic => .error panic
    | .ok (offset, length, integer) =>
      readLoop width region count rounds (i + 1) offset length integer

/-- `read_bits_u32` and `read_bits_u64`, by the width. -/
def readBits (width : Nat) (region : Region) (bitOffset bitLength : Nat) : Except Overflow Nat :=
  let count := (bitOffset + bitLength + (width - 1)) / width
  readLoop width region count count 0 bitOffset bitLength 0

/-- `read_bits_u32`. -/
def readBitsU32 : Region → Nat → Nat → Except Overflow Nat := readBits 32

/-- `read_bits_u64`. -/
def readBitsU64 : Region → Nat → Nat → Except Overflow Nat := readBits 64

/-- `resolve_region`: whether the bounds check passes. -/
def resolves {width : Width} (field : FieldUnit width) (length : Nat) : Except Overflow Bool :=
  if 2 ^ 32 ≤ field.bitOffset + field.bitLength then .error .overflow
  else .ok (decide ((field.bitOffset + field.bitLength) / 8 < length))

/-- `read_field` for `Any`, of a field that fits an integer. -/
def readField (width : Width) (region : Region) (bitOffset bitLength : Nat) : Except Overflow Nat :=
  match width with
  | .u32 => readBitsU32 region bitOffset bitLength
  | .u64 => readBitsU64 region bitOffset bitLength

/-- `evaluate` of a field: nothing where it returns an error. -/
def evaluate {width : Width} (field : FieldUnit width) (length : Nat) (region : Region) :
    Except Overflow (Option Nat) := do
  if ← resolves field length then
    let value ← readField width region field.bitOffset field.bitLength
    return some value
  else return none

/-- The words of `write_field_unit` in one `u64`, with the rounds that are left. -/
def gather (region : Region) (place : Nat) : Nat → Nat → Nat → Nat
  | 0, _, word => word
  | rounds + 1, i, word =>
    gather region place rounds (i + 1) (word * 2 ^ 32 % 2 ^ 64 + readWord region (place + i * 4) 4)

/-- The loop that writes the words back, with the rounds that are left. -/
def scatter (place count word : Nat) : Nat → Nat → Region → Except Overflow Region
  | 0, _, region => .ok region
  | rounds + 1, i, region =>
    let shift := (count - 1 - i) * 32
    if 64 ≤ shift then .error .overflow
    else scatter place count word rounds (i + 1)
      (writeWord region (place + i * 4) 4 (word / 2 ^ shift % 2 ^ 32))

/-- The accesses of `write_field_unit`. -/
def writeBits (region : Region) (bitOffset bitLength raw : Nat) : Except Overflow Region :=
  if bitOffset % 8 = 0 ∧ bitLength % 8 = 0 then
    match bitLength / 8 with
    | 1 => .ok (writeWord region (bitOffset / 8) 1 raw)
    | 2 => .ok (writeWord region (bitOffset / 8) 2 raw)
    | 4 => .ok (writeWord region (bitOffset / 8) 4 raw)
    | 8 => .ok (writeWord region (bitOffset / 8) 8 raw)
    | _ => .ok region
  else
    let byteStart := bitOffset / 8
    let localBit := bitOffset % 32
    let count := (localBit + bitLength + 31) / 32
    let word := gather region byteStart count 0 0
    let shift := count * 32 - localBit - bitLength
    if 64 ≤ bitLength then .error .overflow
    else
      let mask := (2 ^ bitLength - 1) * 2 ^ shift % 2 ^ 64
      let word := (word &&& (2 ^ 64 - 1 - mask)) ||| (raw * 2 ^ shift % 2 ^ 64 &&& mask)
      scatter byteStart count word count 0 region

/-- `write_field_unit`: nothing where it returns `None`. -/
def writeFieldUnit {width : Width} (field : FieldUnit width) (length raw : Nat) (region : Region) :
    Except Overflow (Option Region) := do
  if ← resolves field length then
    let region ← writeBits region field.bitOffset field.bitLength raw
    return some region
  else return none

end Horizon.AmlRegion
