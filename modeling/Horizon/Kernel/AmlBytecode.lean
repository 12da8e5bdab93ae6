import Mathlib

/-!
# AML bytecode: windows, opcodes, package lengths, names

Translated from `acpi/aml.rs` (`Bytecode`), `acpi/aml/opcode.rs`, `acpi/aml/parser/data.rs`
(`PkgLength`) and `acpi/aml/parser/namestring.rs`. A `Bytecode` is its `current` window; an
operation that takes `&mut Bytecode` returns the window it leaves. A slice access beyond the window
is a panic, `?` on `None` a failure.
-/

namespace Horizon.Aml

/-- How the source stops without a value: `None`, a panic, the model's bound on recursion, or an
opcode outside this model. -/
inductive Stop where
  | none
  | panic
  | outOfFuel
  | notModelled
deriving DecidableEq, Repr

/-- `Bytecode.current`. -/
abbrev Bytecode := List Nat

variable (bytecode : Bytecode)

namespace Bytecode

/-- `Bytecode::next`, under a `?`. -/
def next : Bytecode → Except Stop (Nat × Bytecode)
  | [] => .error .none
  | byte :: rest => .ok (byte, rest)

/-- `Bytecode::read`: `split_at` panics beyond the end. -/
def read (size : Nat) : Except Stop (List Nat × Bytecode) :=
  if size ≤ bytecode.length then .ok (bytecode.take size, bytecode.drop size) else .error .panic

/-- `Bytecode::skip`. -/
def skip (count : Nat) : Except Stop Bytecode :=
  if count ≤ bytecode.length then .ok (bytecode.drop count) else .error .panic

/-- `Bytecode::slice`: the window of the next `size` bytes; nothing is consumed. -/
def slice (size : Nat) : Except Stop Bytecode :=
  if size ≤ bytecode.length then .ok (bytecode.take size) else .error .panic

end Bytecode

/-- `uN::from_le_bytes`. -/
def fromLeBytes : List Nat → Nat
  | [] => 0
  | byte :: rest => byte + 256 * fromLeBytes rest

/-- `Opcode`: the variants that the executor, `DataObject::parse` and `binary_cmp` tell apart; every
other is `other`. -/
inductive Opcode where
  | zero | one | ones | byte | word | dword | qword
  | local (index : Nat)
  | arg (index : Nat)
  | store | increment | decrement
  | lEqual | lGreater | lLess | lNotEqual | lLessEqual | lGreaterEqual
  | continueOp | ifOp | elseOp | whileOp | returnOp | breakOp
  | acquire | release
  | other
deriving DecidableEq, Repr

/-- The single-byte opcodes of the table that the model does not tell apart. -/
def otherOpcodes : List Nat :=
  [0x06, 0x08, 0x0D, 0x10, 0x11, 0x12, 0x13, 0x14, 0x15,
    0x71, 0x72, 0x73, 0x74, 0x77, 0x78, 0x79, 0x7A, 0x7B, 0x7C, 0x7D, 0x7E, 0x7F,
    0x80, 0x81, 0x82, 0x83, 0x84, 0x85, 0x86, 0x87, 0x88, 0x89, 0x8A, 0x8B, 0x8C, 0x8D, 0x8E,
    0x8F, 0x90, 0x91, 0x96, 0x97, 0x98, 0x99, 0x9C, 0x9D, 0x9E, 0xA3, 0xCC]

/-- The extended opcodes of the table that the model does not tell apart. -/
def otherExtended : List Nat :=
  [0x01, 0x02, 0x12, 0x13, 0x1F, 0x20, 0x21, 0x22, 0x24, 0x25, 0x26, 0x28, 0x30, 0x31, 0x32,
    0x33, 0x80, 0x81, 0x82, 0x83, 0x84, 0x85, 0x86, 0x87, 0x88]

namespace Opcode

/-- `Opcode::not_op`. -/
def notOp (byte : Nat) : Except (Option Nat) Opcode :=
  if byte = 0x93 then .ok lNotEqual
  else if byte = 0x94 then .ok lLessEqual
  else if byte = 0x95 then .ok lGreaterEqual
  else .error .none

/-- `Opcode::from_ext`. -/
def fromExt (byte : Nat) : Except (Option Nat) Opcode :=
  if byte = 0x23 then .ok acquire
  else if byte = 0x27 then .ok release
  else if byte ∈ otherExtended then .ok other
  else .error .none

/-- The arms of `Opcode::parse` that read one byte; `Err(Some(byte))` when no arm matches. -/
def single (first : Nat) : Except (Option Nat) Opcode :=
  match first with
  | 0x00 => .ok zero
  | 0x01 => .ok one
  | 0x0A => .ok byte
  | 0x0B => .ok word
  | 0x0C => .ok dword
  | 0x0E => .ok qword
  | 0x70 => .ok store
  | 0x75 => .ok increment
  | 0x76 => .ok decrement
  | 0x93 => .ok lEqual
  | 0x94 => .ok lGreater
  | 0x95 => .ok lLess
  | 0x9F => .ok continueOp
  | 0xA0 => .ok ifOp
  | 0xA1 => .ok elseOp
  | 0xA2 => .ok whileOp
  | 0xA4 => .ok returnOp
  | 0xA5 => .ok breakOp
  | 0xFF => .ok ones
  | first =>
    if 0x60 ≤ first ∧ first ≤ 0x67 then .ok (Opcode.local (first - 0x60))
    else if 0x68 ≤ first ∧ first ≤ 0x6E then .ok (arg (first - 0x68))
    else if first ∈ otherOpcodes then .ok other
    else .error (some first)

/-- `Opcode::parse`: the opcode and the window behind it. -/
def parse : Bytecode → Except (Option Nat) (Opcode × Bytecode)
  | [] => .error .none
  | 0x5B :: rest =>
    match rest with
    | [] => .error .none
    | extended :: rest => (fromExt extended).map (·, rest)
  | 0x92 :: rest =>
    match rest with
    | [] => .error .none
    | negated :: rest => (notOp negated).map (·, rest)
  | first :: rest => (single first).map (·, rest)

def parseOk : Except Stop (Opcode × Bytecode) :=
  match parse bytecode with
  | .ok parsed => .ok parsed
  | .error _ => .error .none

end Opcode

/-- A package length as it is encoded. -/
structure PkgLength where
  length : Nat
  /-- How many bytes follow the first one of the encoding. -/
  byteCount : Nat
deriving DecidableEq, Repr

namespace PkgLength

/-- The loop of `PkgLength::from_bytes` over the `count` bytes that follow the first. -/
def following : Nat → Nat → Nat → Bytecode → Except Stop (Nat × Bytecode)
  | 0, _, length, bytecode => .ok (length, bytecode)
  | count + 1, i, length, bytecode => do
    let (byte, bytecode) ← bytecode.next
    following count (i + 1) (length ||| byte <<< (4 + i * 8)) bytecode

/-- `PkgLength::from_bytes`. -/
def fromBytes : Except Stop (PkgLength × Bytecode) := do
  let (first, bytecode) ← bytecode.next
  let byteCount := first >>> 6
  let (length, bytecode) ← following byteCount 0 (first &&& 0x3F) bytecode
  .ok (⟨length, byteCount⟩, bytecode)

/-- `PkgLength::payload_length`: the subtractions panic on underflow. -/
def payloadLength (pkg : PkgLength) : Except Stop Nat :=
  if pkg.byteCount + 1 ≤ pkg.length then .ok (pkg.length - pkg.byteCount - 1)
  else .error .panic

end PkgLength

/-- `evaluator::Path` and `Namestring`: segments of four bytes, from the root or from `level` levels
above the current namespace. -/
inductive Path where
  | root (path : List (List Nat))
  | relative (level : Nat) (path : List (List Nat))
deriving DecidableEq, Repr

def isLeadNameChar (byte : Nat) : Bool := (0x41 ≤ byte && byte ≤ 0x5A) || byte == 0x5F

/-- `as_chunks_unchecked` into segments of four bytes. -/
def chunks : List Nat → List (List Nat)
  | a :: b :: c :: d :: rest => [a, b, c, d] :: chunks rest
  | _ => []

/-- `NamePath::from_bytes`. -/
def namePathFromBytes : Except Stop (List (List Nat) × Bytecode) :=
  match bytecode with
  | [] => .error .none
  | 0x00 :: rest => .ok ([], rest)
  | 0x2E :: rest => do
    let (segments, rest) ← Bytecode.read rest 8
    .ok (chunks segments, rest)
  | 0x2F :: rest => do
    let (length, rest) ← Bytecode.next rest
    let (segments, rest) ← Bytecode.read rest (length * 4)
    .ok (chunks segments, rest)
  | first :: rest =>
    if isLeadNameChar first then do
      let (segments, rest) ← Bytecode.read (first :: rest) 4
      .ok (chunks segments, rest)
    else .error .none

/-- `Namestring::from_bytes`, with `level` carets counted so far (a `u8`). -/
def namestringFrom (level : Nat) (bytecode : Bytecode) : Except Stop (Path × Bytecode) :=
  match bytecode with
  | [] => .error .none
  | 0x5E :: rest => if level = 255 then .error .panic else namestringFrom (level + 1) rest
  | 0x5C :: rest => do
    let (path, rest) ← namePathFromBytes rest
    .ok (.root path, rest)
  | first :: rest => do
    let (path, rest) ← namePathFromBytes (first :: rest)
    .ok (.relative level path, rest)

/-- `Namestring::from_bytes`. -/
def namestringFromBytes : Except Stop (Path × Bytecode) :=
  namestringFrom 0 bytecode

/-- `NamePath::bytecode_length`, by `count()`. -/
def namePathLength : Nat → Nat
  | 0 => 1
  | 1 => 4
  | 2 => 9
  | n => 2 + n * 4

/-- `Namestring::bytecode_length`. -/
def Path.bytecodeLength : Path → Nat
  | root path => 1 + namePathLength path.length
  | relative level path => level + namePathLength path.length

end Horizon.Aml
