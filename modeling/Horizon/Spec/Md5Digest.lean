import Mathlib
/-!
# The MD5 message digest of RFC 1321

The algorithm as the RFC states it: a message is padded to whole blocks of sixteen words, and each
block is mixed into four registers by sixty-four operations. The register order turns by one place
after each; the word, the rotation and the constant are functions of its number.
-/

namespace Rfc1321

abbrev Word := BitVec 32

abbrev Byte := BitVec 8

/-- Four registers in the order in which the next operation uses them. -/
@[ext] structure Registers where
  a : Word
  b : Word
  c : Word
  d : Word
  deriving DecidableEq

/-- The auxiliary functions F, G, H and I, one for each round. -/
def auxiliary (round : Nat) (x y z : Word) : Word :=
  match round with
  | 0 => (x &&& y) ||| (~~~x &&& z)
  | 1 => (x &&& z) ||| (y &&& ~~~z)
  | 2 => x ^^^ y ^^^ z
  | _ => y ^^^ (x ||| ~~~z)

/-- The table T: the integer part of `2^32` times the absolute value of the sine of 1, 2, ... -/
def sineTable : List Word := [
  0xd76aa478, 0xe8c7b756, 0x242070db, 0xc1bdceee,
  0xf57c0faf, 0x4787c62a, 0xa8304613, 0xfd469501,
  0x698098d8, 0x8b44f7af, 0xffff5bb1, 0x895cd7be,
  0x6b901122, 0xfd987193, 0xa679438e, 0x49b40821,
  0xf61e2562, 0xc040b340, 0x265e5a51, 0xe9b6c7aa,
  0xd62f105d, 0x02441453, 0xd8a1e681, 0xe7d3fbc8,
  0x21e1cde6, 0xc33707d6, 0xf4d50d87, 0x455a14ed,
  0xa9e3e905, 0xfcefa3f8, 0x676f02d9, 0x8d2a4c8a,
  0xfffa3942, 0x8771f681, 0x6d9d6122, 0xfde5380c,
  0xa4beea44, 0x4bdecfa9, 0xf6bb4b60, 0xbebfbc70,
  0x289b7ec6, 0xeaa127fa, 0xd4ef3085, 0x04881d05,
  0xd9d4d039, 0xe6db99e5, 0x1fa27cf8, 0xc4ac5665,
  0xf4292244, 0x432aff97, 0xab9423a7, 0xfc93a039,
  0x655b59c3, 0x8f0ccc92, 0xffeff47d, 0x85845dd1,
  0x6fa87e4f, 0xfe2ce6e0, 0xa3014314, 0x4e0811a1,
  0xf7537e82, 0xbd3af235, 0x2ad7d2bb, 0xeb86d391]

/-- Which word of the block operation `n` uses: the rounds step through the block by 1, 5, 3
and 7. -/
def wordIndex (n : Nat) : Nat :=
  match n / 16 with
  | 0 => n % 16
  | 1 => (1 + 5 * (n % 16)) % 16
  | 2 => (5 + 3 * (n % 16)) % 16
  | _ => 7 * (n % 16) % 16

/-- The rotations of each round, used in turn. -/
def rotations : List (List Nat) :=
  [[7, 12, 17, 22], [5, 9, 14, 20], [4, 11, 16, 23], [6, 10, 15, 21]]

/-- The rotation of operation `n`. -/
def rotateBy (n : Nat) : Nat := (rotations.getD (n / 16) []).getD (n % 4) 0

/-- The constant of operation `n`. -/
def constant (n : Nat) : Word := sineTable.getD n 0

/-- Operation `n`: `a = b + ((a + f(b,c,d) + X[k] + T[n]) <<< s)`, after which the registers turn by
one place. -/
def operation (words : Nat → Word) (regs : Registers) (n : Nat) : Registers where
  a := regs.d
  b := regs.b + (regs.a + auxiliary (n / 16) regs.b regs.c regs.d + words (wordIndex n) +
    constant n).rotateLeft (rotateBy n)
  c := regs.b
  d := regs.c

def compress (regs : Registers) (words : Nat → Word) : Registers :=
  let mixed := (List.range 64).foldl (operation words) regs
  ⟨regs.a + mixed.a, regs.b + mixed.b, regs.c + mixed.c, regs.d + mixed.d⟩

/-- How many zero bytes follow the first padding byte: the least number that leaves eight bytes of
the last block for the length. -/
def zeroCount (length : Nat) : Nat := (119 - length % 64) % 64

/-- The length of the message in bits, low-order byte first; only the low-order 64 bits are
used. -/
def lengthBytes (length : Nat) : List Byte :=
  (List.range 8).map fun j => BitVec.ofNat 8 ((8 * length) >>> (8 * j))

variable (message : List Byte)

def padded : List Byte :=
  message ++ 0x80 :: (List.replicate (zeroCount message.length) 0 ++ lengthBytes message.length)

/-- Word `i` of a block, low-order byte first. -/
def wordAt (block : Nat → Byte) (i : Nat) : Word :=
  block (4 * i + 3) ++ block (4 * i + 2) ++ block (4 * i + 1) ++ block (4 * i)

def blockAt (k j : Nat) : Byte := (padded message).getD (64 * k + j) 0

/-- The registers before the first block. -/
def initial : Registers := ⟨0x67452301, 0xefcdab89, 0x98badcfe, 0x10325476⟩

/-- The registers after the first `count` blocks of a message. -/
def chain (count : Nat) : Registers :=
  (List.range count).foldl (fun regs k => compress regs (wordAt (blockAt message k))) initial

def wordBytes (word : Word) : List Byte :=
  [word.extractLsb' 0 8, word.extractLsb' 8 8, word.extractLsb' 16 8, word.extractLsb' 24 8]

def Registers.bytes (regs : Registers) : List Byte :=
  wordBytes regs.a ++ wordBytes regs.b ++ wordBytes regs.c ++ wordBytes regs.d

def digest : List Byte :=
  (chain message ((padded message).length / 64)).bytes

end Rfc1321
