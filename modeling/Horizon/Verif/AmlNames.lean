import Horizon.Kernel.AmlBytecode
import Horizon.Spec.Runs

/-!
# The length of a name string

`bytecode_length` recomputes the length of the shortest encoding. The parser also accepts a
`MultiNamePrefix` in front of fewer than three segments, and drops the carets in front of a root
prefix; only there the two disagree.
-/

namespace Horizon.Aml

open Runs List

variable {bytecode rest : Bytecode}

/-- A path that is not in the long form without need. -/
def ShortestPath : Bytecode → Prop
  | 0x2F :: count :: _ => 3 ≤ count
  | _ => True

/-- A name string behind `level` carets: no caret in front of the root, and a shortest path. -/
def ShortestFrom (level : Nat) : Bytecode → Prop
  | 0x5E :: rest => ShortestFrom (level + 1) rest
  | 0x5C :: rest => level = 0 ∧ ShortestPath rest
  | bytecode => ShortestPath bytecode

theorem chunks_length (bytes : List Nat) : (chunks bytes).length = bytes.length / 4 := by
  fun_induction chunks bytes with
  | case1 a b c d rest ih =>
    simp only [length_cons, ih]
    omega
  | case2 bytes short =>
    match bytes with
    | [] | [_] | [_, _] | [_, _, _] => simp
    | a :: b :: c :: d :: rest => exact absurd rfl (short a b c d rest)

theorem read_ok {size : Nat} {bytes : List Nat} (read : bytecode.read size = .ok (bytes, rest)) :
    bytes.length = size ∧ bytecode.length = size + rest.length := by
  rw [Bytecode.read] at read
  split at read
  · cases read
    simp only [length_take, length_drop]
    omega
  · cases read

theorem namePath_length {path : List (List Nat)}
    (parsed : namePathFromBytes bytecode = .ok (path, rest)) :
    namePathLength path.length + rest.length ≤ bytecode.length ∧
      (namePathLength path.length + rest.length = bytecode.length ↔ ShortestPath bytecode) := by
  unfold namePathFromBytes at parsed
  split at parsed
  case h_1 => cases parsed
  case h_2 =>
    cases parsed
    simp [ShortestPath, namePathLength, add_comm]
  case h_3 =>
    obtain ⟨⟨bytes, behind⟩, read, done⟩ := bind_eq_ok.mp parsed
    cases done
    obtain ⟨size, total⟩ := read_ok read
    simp only [chunks_length, size, length_cons, Nat.reduceDiv, namePathLength, total]
    exact ⟨by omega, iff_of_true (by omega) trivial⟩
  case h_4 window =>
    obtain ⟨⟨count, tail⟩, next, parsed⟩ := bind_eq_ok.mp parsed
    obtain ⟨⟨bytes, behind⟩, read, done⟩ := bind_eq_ok.mp parsed
    cases done
    obtain ⟨size, total⟩ := read_ok read
    match window, next with
    | byte :: _, rfl =>
      simp only [ShortestPath, chunks_length, size, length_cons, total,
        Nat.mul_div_cancel _ (Nat.succ_pos 3)]
      -- The long form takes a byte more than the short one, or two for a single segment.
      match byte with
      | 0 | 1 | 2 => simp only [namePathLength]; omega
      | n + 3 => simp only [namePathLength]; omega
  case h_5 first tail _ _ notLong =>
    split at parsed
    case isFalse => cases parsed
    case isTrue =>
      obtain ⟨⟨bytes, behind⟩, read, done⟩ := bind_eq_ok.mp parsed
      cases done
      obtain ⟨size, total⟩ := read_ok read
      have short : ShortestPath (first :: tail) := by
        unfold ShortestPath
        split
        case h_1 same => exact absurd (cons.inj same).1 notLong
        case h_2 => trivial
      simp [short, chunks_length, size, total, namePathLength]

theorem namestringFrom_length {level : Nat} {path : Path}
    (parsed : namestringFrom level bytecode = .ok (path, rest)) :
    path.bytecodeLength + rest.length ≤ level + bytecode.length ∧
      (path.bytecodeLength + rest.length = level + bytecode.length ↔
        ShortestFrom level bytecode) := by
  fun_induction namestringFrom level bytecode with
  | case1 | case2 => cases parsed
  | case3 level tail _ ih =>
    have later := ih parsed
    rw [ShortestFrom, ← later.2, length_cons]
    omega
  | case4 level tail =>
    obtain ⟨⟨segments, behind⟩, read, done⟩ := bind_eq_ok.mp parsed
    cases done
    have path := namePath_length read
    rw [ShortestFrom, ← path.2, Path.bytecodeLength, length_cons]
    omega
  | case5 level first tail notCaret notRoot =>
    obtain ⟨⟨segments, behind⟩, read, done⟩ := bind_eq_ok.mp parsed
    cases done
    have path := namePath_length read
    have form : ShortestFrom level (first :: tail) ↔ ShortestPath (first :: tail) := by
      unfold ShortestFrom
      split
      case h_1 same => exact absurd (cons.inj same).1 notCaret
      case h_2 same => exact absurd (cons.inj same).1 notRoot
      case h_3 => exact Iff.rfl
    rw [form, ← path.2, Path.bytecodeLength]
    omega

/-- The bytes that `Namestring::from_bytes` consumes are as many as `bytecode_length` says, if and
only if the name is encoded in its shortest form and no caret is dropped. -/
theorem namestring_length_iff {path : Path}
    (parsed : namestringFromBytes bytecode = .ok (path, rest)) :
    bytecode.length - rest.length = path.bytecodeLength ↔ ShortestFrom 0 bytecode := by
  have length := namestringFrom_length parsed
  rw [← length.2]
  omega

/-- The bytes of `FOO_` are consumed as `bytecode_length` says. -/
theorem foo_length : ([0x46, 0x4F, 0x4F, 0x5F, 0x01] : Bytecode).length - [0x01].length =
    (Path.relative 0 [[0x46, 0x4F, 0x4F, 0x5F]]).bytecodeLength := by
  have parsed : namestringFromBytes [0x46, 0x4F, 0x4F, 0x5F, 0x01] =
      .ok (.relative 0 [[0x46, 0x4F, 0x4F, 0x5F]], [0x01]) := rfl
  exact (namestring_length_iff parsed).mpr trivial

/-- `^\FOO_` takes six bytes, and `bytecode_length` says five. -/
theorem caret_dropped : namestringFromBytes [0x5E, 0x5C, 0x46, 0x4F, 0x4F, 0x5F] =
        .ok (.root [[0x46, 0x4F, 0x4F, 0x5F]], []) ∧
      (Path.root [[0x46, 0x4F, 0x4F, 0x5F]]).bytecodeLength = 5 := by
  decide

end Horizon.Aml
