import Mathlib
/-!
# Additions and comparisons of the BIOS emulator

`add`, `adc` and `cmp` of each width, of `arch/x86/bios_emu/ops/alu.c`, and the conditions of
`arch/x86/bios_emu/ops/conditions.c`. Of the emulated machine they use the 16-bit flags register.
-/

namespace Horizon.BiosEmu

/-- The flag register. -/
abbrev Flags := BitVec 16

def carryFlagBit : Nat := 0
def parityFlagBit : Nat := 2
def zeroFlagBit : Nat := 6
def signFlagBit : Nat := 7
def overflowFlagBit : Nat := 11

def setFlag (flags : Flags) (x : Bool) (bit : Nat) : Flags :=
  if x then flags ||| 1#16 <<< bit else flags &&& ~~~(1#16 <<< bit)

/-- `__builtin_sub_overflow` into an unsigned type of `n` bits: the difference without a bound,
cut to the type, and whether that changed it. -/
def builtinSubOverflow (n a b : Nat) : Bool × BitVec n :=
  let difference : Int := a - b
  (decide (difference < 0 ∨ 2 ^ n ≤ difference), BitVec.ofInt n difference)

/-- `calc_parity`. -/
def calcParity (x : BitVec 8) : Bool :=
  (0x6996#16 >>> ((x ^^^ x >>> 4) &&& 0x0F).toNat).getLsbD 0

/-- `set_zf_pf`. -/
def setZfPf (flags : Flags) (x : BitVec 32) : Flags :=
  setFlag (setFlag flags (x == 0) zeroFlagBit) (calcParity (x.setWidth 8)) parityFlagBit

section Additions

variable {w : Nat}

/-- An addition in place: the flags and `*dst` after it. -/
abbrev Addition (w : Nat) : Type := Flags → BitVec w → BitVec w → Flags × BitVec w

/-- The body of the three additions, with their test `*dst > ~src`. -/
def add (above : BitVec w → BitVec w → Bool) : Addition w := fun flags dst src =>
  let ans := dst + src
  let flags := setFlag flags (above dst src) carryFlagBit
  let flags := setFlag flags (decide (2 ^ w ≤ dst.toNat + src.toNat)) overflowFlagBit
  let flags := setFlag flags (ans >>> (w - 1) != 0) signFlagBit
  (setZfPf flags (ans.setWidth 32), ans)

/-- `*dst > ~src` where both are promoted to `int`. -/
def promotedAbove (dst src : BitVec w) : Bool := decide (~~~(src.toNat : Int) < dst.toNat)

/-- `add_8`. -/
def add8 : Addition 8 := add promotedAbove

/-- `add_16`. -/
def add16 : Addition 16 := add promotedAbove

/-- `add_32`. -/
def add32 : Addition 32 := add fun dst src => ~~~src < dst

/-- The source operand of the three additions with carry. -/
def withCarry (flags : Flags) (src : BitVec w) : BitVec w :=
  src + BitVec.ofNat w (flags.getLsbD carryFlagBit).toNat

/-- `adc_8`. -/
def adc8 : Addition 8 := fun flags dst src => add8 flags dst (withCarry flags src)

/-- `adc_16`. -/
def adc16 : Addition 16 := fun flags dst src => add16 flags dst (withCarry flags src)

/-- `adc_32`. -/
def adc32 : Addition 32 := fun flags dst src => add32 flags dst (withCarry flags src)

end Additions

/-- The body of the three comparisons; `n` is the width of the variable `ans`, whose top bit is the
sign. -/
def cmp (n : Nat) {w : Nat} (flags : Flags) (dst src : BitVec w) : Flags :=
  let (overflow, ans) := builtinSubOverflow n dst.toNat src.toNat
  let flags := setFlag flags (decide (dst.toNat < src.toNat)) carryFlagBit
  let flags := setFlag flags overflow overflowFlagBit
  let flags := setFlag flags (ans >>> (n - 1) != 0) signFlagBit
  setZfPf flags (ans.setWidth 32)

/-- `cmp_8`, whose `ans` has 16 bits. -/
def cmp8 : Flags → BitVec 8 → BitVec 8 → Flags := cmp 16

/-- `cmp_16`. -/
def cmp16 : Flags → BitVec 16 → BitVec 16 → Flags := cmp 16

/-- `cmp_32`. -/
def cmp32 : Flags → BitVec 32 → BitVec 32 → Flags := cmp 32

section Conditions

variable (flags : Flags)

/-- `condition_b_c_nae`. -/
def conditionBCNae : Bool := flags.getLsbD carryFlagBit

/-- `condition_ae_nb_nc`. -/
def conditionAeNbNc : Bool := !flags.getLsbD carryFlagBit

/-- `condition_e_z`. -/
def conditionEZ : Bool := flags.getLsbD zeroFlagBit

/-- `condition_ne_nz`. -/
def conditionNeNz : Bool := !flags.getLsbD zeroFlagBit

/-- `condition_be_na`. -/
def conditionBeNa : Bool := flags.getLsbD carryFlagBit && flags.getLsbD zeroFlagBit

/-- `condition_a_nbe`. -/
def conditionANbe : Bool := !flags.getLsbD carryFlagBit && !flags.getLsbD zeroFlagBit

/-- `condition_l_nge`. -/
def conditionLNge : Bool := flags.getLsbD signFlagBit != flags.getLsbD overflowFlagBit

/-- `condition_nl_ge`. -/
def conditionNlGe : Bool := flags.getLsbD signFlagBit == flags.getLsbD overflowFlagBit

/-- `condition_le_ng`. -/
def conditionLeNg : Bool := flags.getLsbD zeroFlagBit ||
  flags.getLsbD signFlagBit != flags.getLsbD overflowFlagBit

/-- `condition_nle_g`. -/
def conditionNleG : Bool := !flags.getLsbD zeroFlagBit &&
  flags.getLsbD signFlagBit == flags.getLsbD overflowFlagBit

end Conditions

end Horizon.BiosEmu
