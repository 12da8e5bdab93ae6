import Mathlib
/-!
# MD5

`lib/hash/md5.c`: the compression of one block as the list of its sixty-four macro calls, and the
routine that runs it over a message and pads the end in a buffer of its own. A write outside that
buffer is a fault.
-/

namespace Horizon.Md5

/-- The four local variables of `md5_transform`. -/
inductive Reg where
  | a
  | b
  | c
  | d
  deriving DecidableEq

/-- `uint32_t state[4]`, and the values of the local variables. -/
structure State where
  a : BitVec 32
  b : BitVec 32
  c : BitVec 32
  d : BitVec 32
  deriving DecidableEq

variable (state : State)

def State.get : Reg → BitVec 32
  | .a => state.a
  | .b => state.b
  | .c => state.c
  | .d => state.d

def State.set (value : BitVec 32) : Reg → State
  | .a => { state with a := value }
  | .b => { state with b := value }
  | .c => { state with c := value }
  | .d => { state with d := value }

/-- The macros `FF`, `GG`, `HH` and `II`. -/
inductive Mix where
  | ff
  | gg
  | hh
  | ii
  deriving DecidableEq

/-- The functions `F`, `G`, `H` and `I` that the macros use. -/
def Mix.apply (x y z : BitVec 32) : Mix → BitVec 32
  | .ff => (x &&& y) ||| (~~~x &&& z)
  | .gg => (x &&& z) ||| (y &&& ~~~z)
  | .hh => x ^^^ y ^^^ z
  | .ii => y ^^^ (x ||| ~~~z)

def rotateLeft (x : BitVec 32) (n : Nat) : BitVec 32 := (x <<< n) ||| (x >>> (32 - n))

/-- A macro call `FF(a, b, c, d, x[k], s, ac)`: which macro, its four variables, the index of the
block word, the rotation and the constant. -/
structure Call where
  mix : Mix
  a : Reg
  b : Reg
  c : Reg
  d : Reg
  k : Nat
  s : Nat
  ac : BitVec 32
  deriving DecidableEq

def Call.exec (x : Nat → BitVec 32) (state : State) (call : Call) : State :=
  let state := state.set (state.get call.a +
    (call.mix.apply (state.get call.b) (state.get call.c) (state.get call.d) + x call.k + call.ac))
    call.a
  let state := state.set (rotateLeft (state.get call.a) call.s) call.a
  state.set (state.get call.a + state.get call.b) call.a

/-- The rotations `S11`, `S12`, `S13` and `S14`. -/
def s11 : Nat := 7
def s12 : Nat := 12
def s13 : Nat := 17
def s14 : Nat := 22

/-- The rotations `S21`, `S22`, `S23` and `S24`. -/
def s21 : Nat := 5
def s22 : Nat := 9
def s23 : Nat := 14
def s24 : Nat := 20

/-- The rotations `S31`, `S32`, `S33` and `S34`. -/
def s31 : Nat := 4
def s32 : Nat := 11
def s33 : Nat := 16
def s34 : Nat := 23

/-- The rotations `S41`, `S42`, `S43` and `S44`. -/
def s41 : Nat := 6
def s42 : Nat := 10
def s43 : Nat := 15
def s44 : Nat := 21

def round1 : List Call := [
  ⟨.ff, .a, .b, .c, .d, 0, s11, 0xd76aa478⟩,
  ⟨.ff, .d, .a, .b, .c, 1, s12, 0xe8c7b756⟩,
  ⟨.ff, .c, .d, .a, .b, 2, s13, 0x242070db⟩,
  ⟨.ff, .b, .c, .d, .a, 3, s14, 0xc1bdceee⟩,
  ⟨.ff, .a, .b, .c, .d, 4, s11, 0xf57c0faf⟩,
  ⟨.ff, .d, .a, .b, .c, 5, s12, 0x4787c62a⟩,
  ⟨.ff, .c, .d, .a, .b, 6, s13, 0xa8304613⟩,
  ⟨.ff, .b, .c, .d, .a, 7, s14, 0xfd469501⟩,
  ⟨.ff, .a, .b, .c, .d, 8, s11, 0x698098d8⟩,
  ⟨.ff, .d, .a, .b, .c, 9, s12, 0x8b44f7af⟩,
  ⟨.ff, .c, .d, .a, .b, 10, s13, 0xffff5bb1⟩,
  ⟨.ff, .b, .c, .d, .a, 11, s14, 0x895cd7be⟩,
  ⟨.ff, .a, .b, .c, .d, 12, s11, 0x6b901122⟩,
  ⟨.ff, .d, .a, .b, .c, 13, s12, 0xfd987193⟩,
  ⟨.ff, .c, .d, .a, .b, 14, s13, 0xa679438e⟩,
  ⟨.ff, .b, .c, .d, .a, 15, s14, 0x49b40821⟩]

def round2 : List Call := [
  ⟨.gg, .a, .b, .c, .d, 1, s21, 0xf61e2562⟩,
  ⟨.gg, .d, .a, .b, .c, 6, s22, 0xc040b340⟩,
  ⟨.gg, .c, .d, .a, .b, 11, s23, 0x265e5a51⟩,
  ⟨.gg, .b, .c, .d, .a, 0, s24, 0xe9b6c7aa⟩,
  ⟨.gg, .a, .b, .c, .d, 5, s21, 0xd62f105d⟩,
  ⟨.gg, .d, .a, .b, .c, 10, s22, 0x2441453⟩,
  ⟨.gg, .c, .d, .a, .b, 15, s23, 0xd8a1e681⟩,
  ⟨.gg, .b, .c, .d, .a, 4, s24, 0xe7d3fbc8⟩,
  ⟨.gg, .a, .b, .c, .d, 9, s21, 0x21e1cde6⟩,
  ⟨.gg, .d, .a, .b, .c, 14, s22, 0xc33707d6⟩,
  ⟨.gg, .c, .d, .a, .b, 3, s23, 0xf4d50d87⟩,
  ⟨.gg, .b, .c, .d, .a, 8, s24, 0x455a14ed⟩,
  ⟨.gg, .a, .b, .c, .d, 13, s21, 0xa9e3e905⟩,
  ⟨.gg, .d, .a, .b, .c, 2, s22, 0xfcefa3f8⟩,
  ⟨.gg, .c, .d, .a, .b, 7, s23, 0x676f02d9⟩,
  ⟨.gg, .b, .c, .d, .a, 12, s24, 0x8d2a4c8a⟩]

def round3 : List Call := [
  ⟨.hh, .a, .b, .c, .d, 5, s31, 0xfffa3942⟩,
  ⟨.hh, .d, .a, .b, .c, 8, s32, 0x8771f681⟩,
  ⟨.hh, .c, .d, .a, .b, 11, s33, 0x6d9d6122⟩,
  ⟨.hh, .b, .c, .d, .a, 14, s34, 0xfde5380c⟩,
  ⟨.hh, .a, .b, .c, .d, 1, s31, 0xa4beea44⟩,
  ⟨.hh, .d, .a, .b, .c, 4, s32, 0x4bdecfa9⟩,
  ⟨.hh, .c, .d, .a, .b, 7, s33, 0xf6bb4b60⟩,
  ⟨.hh, .b, .c, .d, .a, 10, s34, 0xbebfbc70⟩,
  ⟨.hh, .a, .b, .c, .d, 13, s31, 0x289b7ec6⟩,
  ⟨.hh, .d, .a, .b, .c, 0, s32, 0xeaa127fa⟩,
  ⟨.hh, .c, .d, .a, .b, 3, s33, 0xd4ef3085⟩,
  ⟨.hh, .b, .c, .d, .a, 6, s34, 0x4881d05⟩,
  ⟨.hh, .a, .b, .c, .d, 9, s31, 0xd9d4d039⟩,
  ⟨.hh, .d, .a, .b, .c, 12, s32, 0xe6db99e5⟩,
  ⟨.hh, .c, .d, .a, .b, 15, s33, 0x1fa27cf8⟩,
  ⟨.hh, .b, .c, .d, .a, 2, s34, 0xc4ac5665⟩]

def round4 : List Call := [
  ⟨.ii, .a, .b, .c, .d, 0, s41, 0xf4292244⟩,
  ⟨.ii, .d, .a, .b, .c, 7, s42, 0x432aff97⟩,
  ⟨.ii, .c, .d, .a, .b, 14, s43, 0xab9423a7⟩,
  ⟨.ii, .b, .c, .d, .a, 5, s44, 0xfc93a039⟩,
  ⟨.ii, .a, .b, .c, .d, 12, s41, 0x655b59c3⟩,
  ⟨.ii, .d, .a, .b, .c, 3, s42, 0x8f0ccc92⟩,
  ⟨.ii, .c, .d, .a, .b, 10, s43, 0xffeff47d⟩,
  ⟨.ii, .b, .c, .d, .a, 1, s44, 0x85845dd1⟩,
  ⟨.ii, .a, .b, .c, .d, 8, s41, 0x6fa87e4f⟩,
  ⟨.ii, .d, .a, .b, .c, 15, s42, 0xfe2ce6e0⟩,
  ⟨.ii, .c, .d, .a, .b, 6, s43, 0xa3014314⟩,
  ⟨.ii, .b, .c, .d, .a, 13, s44, 0x4e0811a1⟩,
  ⟨.ii, .a, .b, .c, .d, 4, s41, 0xf7537e82⟩,
  ⟨.ii, .d, .a, .b, .c, 11, s42, 0xbd3af235⟩,
  ⟨.ii, .c, .d, .a, .b, 2, s43, 0x2ad7d2bb⟩,
  ⟨.ii, .b, .c, .d, .a, 9, s44, 0xeb86d391⟩]

/-- `((uint32_t *)block)[i]`, on a little-endian machine. -/
def dword (block : Nat → BitVec 8) (i : Nat) : BitVec 32 :=
  block (4 * i + 3) ++ block (4 * i + 2) ++ block (4 * i + 1) ++ block (4 * i)

/-- `md5_transform`. -/
def md5Transform (block : Nat → BitVec 8) : State :=
  let regs := (round1 ++ round2 ++ round3 ++ round4).foldl (Call.exec (dword block)) state
  ⟨state.a + regs.a, state.b + regs.b, state.c + regs.c, state.d + regs.d⟩

abbrev Buffer := Nat → BitVec 8

/-- A write of `count` bytes at `start` of the buffer; `none` when it leaves the buffer. -/
def Buffer.write (buffer : Buffer) (start count : Nat) (source : Nat → BitVec 8) : Option Buffer :=
  if start + count ≤ 64 then
    some fun i => if start ≤ i ∧ i < start + count then source (i - start) else buffer i
  else none

/-- `memset` with zero. -/
def Buffer.clear (buffer : Buffer) (start count : Nat) : Option Buffer :=
  buffer.write start count fun _ => 0

/-- The state that `md5` starts with. -/
def initialState : State := ⟨0x67452301, 0xEFCDAB89, 0x98BADCFE, 0x10325476⟩

/-- The loop of `md5` over the whole blocks of the data, with its index and state. -/
def hashBlocks (data : List (BitVec 8)) : Nat → Nat → State → Nat × State
  | 0, i, state => (i, state)
  | fuel + 1, i, state =>
    if i + 63 < data.length then
      hashBlocks data fuel (i + 64) (md5Transform state fun j => data.getD (i + j) 0)
    else (i, state)

/-- The two branches of `md5` that complete the padding, `rem` bytes of the buffer being used. -/
def padBuffer (buffer : Buffer) (rem : Nat) : Option (State × Buffer) :=
  if 56 < rem then do
    let buffer ← buffer.clear rem (64 - rem)
    let state := md5Transform state buffer
    let buffer ← buffer.clear rem (rem - 56)
    return (state, buffer)
  else do
    let buffer ← buffer.clear rem (56 - rem)
    return (state, buffer)

/-- The bytes of a state word as `md5` stores it into the digest. -/
def dwordBytes (word : BitVec 32) : List (BitVec 8) :=
  [word.extractLsb' 0 8, word.extractLsb' 8 8, word.extractLsb' 16 8, word.extractLsb' 24 8]

/-- The digest, low byte of a word first. -/
def State.digest : List (BitVec 8) :=
  dwordBytes state.a ++ dwordBytes state.b ++ dwordBytes state.c ++ dwordBytes state.d

/-- `md5`. The buffer starts with whatever the stack holds; `none` when a write leaves it. -/
def md5 (stack : Buffer) (data : List (BitVec 8)) : Option (List (BitVec 8)) := do
  let bitLen := data.length * 8 % 2 ^ 64
  let (i, state) := hashBlocks data data.length 0 initialState
  let rem := data.length - i
  let buffer ← stack.write 0 rem fun j => data.getD (i + j) 0
  let buffer ← buffer.write rem 1 fun _ => 0x80
  let (state, buffer) ← padBuffer state buffer (rem + 1)
  let buffer ← buffer.write 56 8 fun j => BitVec.ofNat 8 (bitLen >>> (j * 8))
  return (md5Transform state buffer).digest

end Horizon.Md5
