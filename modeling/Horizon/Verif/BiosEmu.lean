import Horizon.Kernel.BiosEmu
/-!
# Chains of additions, and the conditions after a comparison

A byte or a word is promoted before it is complemented, so its addition always sets the carry, and
the double word that `adc` adds loses the carry when it is all ones. The overflow flag is the borrow
of the unsigned difference, and below-or-equal asks for both the carry and the zero flag.
-/

namespace Horizon.BiosEmu

open Nat

/-- The operand widths. -/
inductive Width where
  | byte
  | word
  | dword

namespace Width

def bits : Width → Nat
  | byte => 8
  | word => 16
  | dword => 32

def cmp : (width : Width) → Flags → BitVec width.bits → BitVec width.bits → Flags
  | byte => cmp8
  | word => cmp16
  | dword => cmp32

def add : (width : Width) → Addition width.bits
  | byte => add8
  | word => add16
  | dword => add32

def adc : (width : Width) → Addition width.bits
  | byte => adc8
  | word => adc16
  | dword => adc32

end Width

/-- What the conditions of the unsigned and the signed order should say of two operands. -/
def expected {w : Nat} (a b : BitVec w) : List ((Flags → Bool) × Bool) :=
  [(conditionBCNae, a.ult b), (conditionAeNbNc, !a.ult b), (conditionEZ, a == b),
    (conditionNeNz, !a == b), (conditionBeNa, a.ule b), (conditionANbe, !a.ule b),
    (conditionLNge, a.slt b), (conditionNlGe, !a.slt b), (conditionLeNg, a.sle b),
    (conditionNleG, !a.sle b)]

/-- The flags are those that the processor sets. -/
def Agrees {w : Nat} (flags : Flags) (a b : BitVec w) : Prop :=
  ∀ entry ∈ expected a b, entry.1 flags = entry.2

theorem getLsbD_setFlag (flags : Flags) (x : Bool) {bit i : Nat} (known : bit < 16)
    (inside : i < 16) :
    (setFlag flags x bit).getLsbD i = if i = bit then x else flags.getLsbD i := by
  have mask : (1#16 <<< bit).getLsbD i = decide (i = bit) := by
    rw [← BitVec.twoPow_eq, BitVec.getLsbD_twoPow]
    simp [known, eq_comm]
  unfold setFlag
  cases x with
  | true =>
    rw [if_pos rfl, BitVec.getLsbD_or, mask]
    by_cases same : i = bit <;> simp [same]
  | false =>
    rw [if_neg Bool.false_ne_true, BitVec.getLsbD_and, BitVec.getLsbD_not, mask]
    by_cases same : i = bit <;> simp [same, inside]

variable {n w : Nat}

theorem builtinSubOverflow_eq {a b : Nat} (left : a < 2 ^ n) (right : b < 2 ^ n) :
    (builtinSubOverflow n a b).1 = decide (a < b) ∧ (builtinSubOverflow n a b).2.toNat =
      if a < b then 2 ^ n + a - b else a - b := by
  have bound : (2 ^ n : Int) = ((2 ^ n : Nat) : Int) := by push_cast; rfl
  refine ⟨decide_eq_decide.mpr (by omega), ?_⟩
  unfold builtinSubOverflow
  rw [BitVec.toNat_ofInt, ← bound]
  split
  · rw [← Int.add_emod_right, Int.emod_eq_of_lt (by omega) (by omega)]
    omega
  · rw [Int.emod_eq_of_lt (by omega) (by omega)]
    omega

/-- The flags that the conditions of an order look at. -/
theorem cmp_flags (wide : w ≤ n + 1) (small : n < 32) (flags : Flags) (a b : BitVec w) :
    (cmp (n + 1) flags a b).getLsbD carryFlagBit = decide (a.toNat < b.toNat) ∧
    (cmp (n + 1) flags a b).getLsbD overflowFlagBit = decide (a.toNat < b.toNat) ∧
    (cmp (n + 1) flags a b).getLsbD zeroFlagBit = decide (a.toNat = b.toNat) ∧
    (cmp (n + 1) flags a b).getLsbD signFlagBit = decide
      (2 ^ n ≤ if a.toNat < b.toNat then 2 ^ (n + 1) + a.toNat - b.toNat
        else a.toNat - b.toNat) := by
  have fits : 2 ^ w ≤ 2 ^ (n + 1) := Nat.pow_le_pow_right (by decide) wide
  have top : 2 ^ (n + 1) ≤ 2 ^ 32 := Nat.pow_le_pow_right (by decide) small
  have left := a.isLt
  have right := b.isLt
  obtain ⟨overflow, ans⟩ := builtinSubOverflow_eq (n := n + 1) (by omega : a.toNat < _)
    (by omega : b.toNat < _)
  have zero : ((builtinSubOverflow (n + 1) a.toNat b.toNat).2.setWidth 32 == 0) =
      decide (a.toNat = b.toNat) := by
    rw [beq_eq_decide, decide_eq_decide, ← BitVec.toNat_inj, BitVec.toNat_setWidth, ans,
      mod_eq_of_lt (by split <;> omega)]
    change _ = 0 ↔ _
    split <;> omega
  have sign : ((builtinSubOverflow (n + 1) a.toNat b.toNat).2 >>> n != 0) = decide (2 ^ n ≤
      (builtinSubOverflow (n + 1) a.toNat b.toNat).2.toNat) := by
    rw [Bool.eq_iff_iff, bne_iff_ne, decide_eq_true_iff, Ne, ← BitVec.toNat_inj,
      BitVec.toNat_ushiftRight, shiftRight_eq_div_pow]
    simp [Nat.div_eq_zero_iff]
  rw [← ans, ← sign, ← zero, ← overflow]
  simp only [cmp, setZfPf, Nat.add_sub_cancel]
  refine ⟨?_, ?_, ?_, ?_⟩ <;> repeat rw [getLsbD_setFlag _ _ (by decide) (by decide)]
  all_goals simp [carryFlagBit, overflowFlagBit, zeroFlagBit, signFlagBit, parityFlagBit, overflow]

theorem agrees_cmp_iff (wide : w ≤ n + 1) (small : n < 32) (flags : Flags) (a b : BitVec w) :
    Agrees (cmp (n + 1) flags a b) a b ↔
      b.toNat < a.toNat ∧ a.slt b = decide (2 ^ n ≤ a.toNat - b.toNat) := by
  obtain ⟨carry, overflow, zero, sign⟩ := cmp_flags wide small flags a b
  have equal : (a == b) = decide (a.toNat = b.toNat) := by
    rw [beq_eq_decide, decide_eq_decide, BitVec.toNat_inj]
  have le : a.sle b = (a.slt b || decide (a.toNat = b.toNat)) := by
    rw [← equal, beq_eq_decide, BitVec.sle, BitVec.slt, ← Bool.decide_or, decide_eq_decide,
      le_iff_lt_or_eq, BitVec.toInt_inj]
  unfold Agrees expected
  simp only [List.forall_mem_cons, conditionBCNae, conditionAeNbNc, conditionEZ,
    conditionNeNz, conditionBeNa, conditionANbe, conditionLNge, conditionNlGe, conditionLeNg,
    conditionNleG, carry, overflow, zero, sign, le, equal, BitVec.ult, BitVec.ule]
  by_cases above : b.toNat < a.toNat
  · have first : ¬ a.toNat < b.toNat := by omega
    have other : a.toNat ≠ b.toNat := by omega
    have beyond : ¬ a.toNat ≤ b.toNat := by omega
    cases a.slt b <;> simp [above, first, other, beyond]
  · -- No carry comes with a zero difference, so below-or-equal is never answered.
    have within : a.toNat ≤ b.toNat := by omega
    refine iff_of_false (fun all => ?_) fun both => above both.1
    have both := all.2.2.2.2.1
    simp only [within, decide_true, Bool.and_eq_true, decide_eq_true_eq] at both
    omega

theorem slt_of_above {a b : BitVec w} (above : b.toNat < a.toNat) : a.slt b = (a.msb != b.msb) := by
  have first : a.ult b = false := decide_eq_false (by omega)
  rw [BitVec.slt_eq_ult, first, Bool.xor_false]

theorem sign_shows_iff {a b : BitVec (n + 1)} (above : b.toNat < a.toNat) :
    a.slt b = decide (2 ^ n ≤ a.toNat - b.toNat) ↔
      a.msb = b.msb ∨ 2 ^ n ≤ a.toNat - b.toNat := by
  rw [slt_of_above above, BitVec.msb_eq_decide, BitVec.msb_eq_decide, Nat.add_sub_cancel]
  by_cases wide : 2 ^ n ≤ a.toNat - b.toNat
  · have high : 2 ^ n ≤ a.toNat := by omega
    have low : ¬ 2 ^ n ≤ b.toNat := by omega
    simp [wide, high, low]
  · simp [wide]

/-- The first operand is above the second, and both have the same sign or the sign shows in the
difference, which it never does for bytes. -/
def Width.Enough (width : Width) (a b : BitVec width.bits) : Prop :=
  b.toNat < a.toNat ∧
    (a.msb = b.msb ∨ width ≠ .byte ∧ 2 ^ (width.bits - 1) ≤ a.toNat - b.toNat)

/-- After a comparison the conditions agree with it exactly for operands with enough flags. -/
theorem conditions_agree_iff (width : Width) (flags : Flags) (a b : BitVec width.bits) :
    Agrees (width.cmp flags a b) a b ↔ width.Enough a b := by
  unfold Width.Enough
  cases width with
  | byte =>
    refine (agrees_cmp_iff (n := 15) (by decide) (by decide) flags a b).trans
      (and_congr_right fun above => ?_)
    have left : a.toNat < 2 ^ 8 := a.isLt
    have short : ¬ 2 ^ 15 ≤ a.toNat - b.toNat := by omega
    rw [slt_of_above above, decide_eq_false short]
    simp
  | word =>
    refine (agrees_cmp_iff (n := 15) (by decide) (by decide) flags a b).trans
      (and_congr_right fun above => ?_)
    exact (sign_shows_iff above).trans (by simp [Width.bits])
  | dword =>
    refine (agrees_cmp_iff (n := 31) (by decide) (by decide) flags a b).trans
      (and_congr_right fun above => ?_)
    exact (sign_shows_iff above).trans (by simp [Width.bits])

/-- Equal operands are not below-or-equal. -/
theorem equal_not_below : ¬ Agrees (cmp16 0 3 3) 3#16 3#16 := by
  intro agrees
  have wrong := agrees (conditionBeNa, true) (by simp [expected])
  revert wrong
  decide

variable (width : Width)

def value : List (BitVec w) → Nat
  | [] => 0
  | word :: rest => word.toNat + 2 ^ w * value rest

theorem value_lt (words : List (BitVec w)) : value words < 2 ^ (words.length * w) := by
  induction words with
  | nil => simp [value]
  | cons word rest ih =>
    have bound := word.isLt
    have room : 2 ^ w * (value rest + 1) ≤ 2 ^ w * 2 ^ (rest.length * w) := Nat.mul_le_mul_left _ ih
    rw [mul_succ] at room
    rw [List.length_cons, succ_mul, add_comm, pow_add, value]
    omega

/-- Pairs of words of two numbers, lowest first. -/
abbrev Width.Pairs := List (BitVec width.bits × BitVec width.bits)

/-- `adc` on each pair. -/
def Width.adcWords : Flags → width.Pairs → Flags × List (BitVec width.bits)
  | flags, [] => (flags, [])
  | flags, (dst, src) :: rest =>
    let (flags, ans) := width.adc flags dst src
    let (flags, sum) := adcWords flags rest
    (flags, ans :: sum)

/-- `add` on the lowest words, then `adc` on each higher pair. -/
def Width.addWords (flags : Flags) (dst src : BitVec width.bits) (rest : width.Pairs) :
    Flags × List (BitVec width.bits) :=
  let (flags, ans) := width.add flags dst src
  let (flags, sum) := width.adcWords flags rest
  (flags, ans :: sum)

def total (words : List (BitVec w × BitVec w)) : Nat :=
  value (words.map Prod.fst) + value (words.map Prod.snd)

/-- A chain leaves the sum of the two numbers and its carry. -/
def Width.AddsUp (flags : Flags) (dst src : BitVec width.bits) (rest : width.Pairs) : Prop :=
  let modulus := 2 ^ ((rest.length + 1) * width.bits)
  value (width.addWords flags dst src rest).2 = total ((dst, src) :: rest) % modulus ∧
    (width.addWords flags dst src rest).1.getLsbD carryFlagBit =
      decide (modulus ≤ total ((dst, src) :: rest))

/-- The carry out of a pair of words. -/
def carryOut (carry : Bool) (a b : BitVec w) : Bool :=
  decide (2 ^ w ≤ a.toNat + b.toNat + carry.toNat)

/-- The flag after an addition is the carry: bytes and words must have one, and a double word that
is all ones must not meet one. -/
def Width.Flagged : (width : Width) → Bool → BitVec width.bits → BitVec width.bits → Prop
  | byte, carry, a, b | word, carry, a, b => carryOut carry a b = true
  | dword, carry, _, b => carry = true → b.toNat ≠ 2 ^ 32 - 1

/-- Every pair of a chain with the given carry in is flagged. -/
def Width.AllFlagged : Bool → width.Pairs → Prop
  | _, [] => True
  | carry, (a, b) :: rest => width.Flagged carry a b ∧ AllFlagged (carryOut carry a b) rest

theorem carry_add (above : BitVec w → BitVec w → Bool) (flags : Flags) (a b : BitVec w) :
    (add above flags a b).1.getLsbD carryFlagBit = above a b := by
  simp only [add, setZfPf]
  repeat rw [getLsbD_setFlag _ _ (by decide) (by decide)]
  simp [carryFlagBit, overflowFlagBit, zeroFlagBit, signFlagBit, parityFlagBit]

theorem promotedAbove_eq (a b : BitVec w) : promotedAbove a b = true :=
  decide_eq_true ((Int.negSucc_lt_zero b.toNat).trans_le (Int.natCast_nonneg _))

theorem not_lt_iff (a b : BitVec w) : ~~~b < a ↔ 2 ^ w ≤ a.toNat + b.toNat := by
  have bound := b.isLt
  rw [BitVec.lt_def, BitVec.toNat_not]
  omega

/-- The test of an addition for its carry. -/
def Width.above : (width : Width) → BitVec width.bits → BitVec width.bits → Bool
  | byte | word => promotedAbove
  | dword => fun dst src => ~~~src < dst

theorem Width.carry_add_iff (flags : Flags) (a b : BitVec width.bits) :
    (width.add flags a b).1.getLsbD carryFlagBit = true ↔
      (width = .dword → 2 ^ width.bits ≤ a.toNat + b.toNat) := by
  have same : width.add = BiosEmu.add width.above := by cases width <;> rfl
  rw [same, carry_add]
  cases width with
  | byte | word => simp [above, promotedAbove_eq]
  | dword => simp [above, not_lt_iff]

/-- An addition with the carry in added to its source operand. -/
theorem Width.link_spec (flags : Flags) (carry : Bool) (a b : BitVec width.bits) :
    (width.add flags a (b + BitVec.ofNat _ carry.toNat)).2.toNat =
        (a.toNat + b.toNat + carry.toNat) % 2 ^ width.bits ∧
      ((width.add flags a (b + BitVec.ofNat _ carry.toNat)).1.getLsbD carryFlagBit =
        carryOut carry a b ↔ width.Flagged carry a b) := by
  have source : (b + BitVec.ofNat _ carry.toNat).toNat =
      (b.toNat + carry.toNat) % 2 ^ width.bits := by simp
  have sum : (width.add flags a (b + BitVec.ofNat _ carry.toNat)).2 =
      a + (b + BitVec.ofNat _ carry.toNat) := by cases width <;> rfl
  refine ⟨by simp [sum, add_assoc], ?_⟩
  rw [Bool.eq_iff_iff, carry_add_iff, source]
  cases width with
  | byte | word => simp [Flagged]
  | dword =>
    have left : a.toNat < 2 ^ 32 := a.isLt
    have right : b.toNat < 2 ^ 32 := b.isLt
    have modulus : 2 ^ dword.bits = 4294967296 := rfl
    cases carry
    all_goals
      simp [Flagged, carryOut, modulus]
      omega

theorem split_iff {modulus sum all : Nat} (flag : Bool) (small : sum < modulus)
    (bound : all < 2 * modulus) :
    sum = all % modulus ∧ flag = decide (modulus ≤ all) ↔ sum + modulus * flag.toNat = all := by
  by_cases carries : modulus ≤ all
  · rw [mod_eq_sub_mod carries, mod_eq_of_lt (by omega), decide_eq_true carries]
    cases flag <;> simp <;> omega
  · rw [mod_eq_of_lt (by omega), decide_eq_false carries]
    cases flag <;> simp
    omega

/-- The low word of an addition with its carry out is the whole sum. -/
theorem carry_exact (carry : Bool) {a b x : BitVec w} (low : x.toNat =
    (a.toNat + b.toNat + carry.toNat) % 2 ^ w) (sum rest : Nat) :
    x.toNat + 2 ^ w * sum = a.toNat + b.toNat + carry.toNat + 2 ^ w * rest ↔
      sum = rest + (carryOut carry a b).toNat := by
  have left := a.isLt
  have right := b.isLt
  have small := carry.toNat_le
  have whole : x.toNat + 2 ^ w * (carryOut carry a b).toNat = a.toNat + b.toNat + carry.toNat :=
    (split_iff _ x.isLt (by omega)).mp ⟨low, rfl⟩
  rw [← whole, add_assoc, Nat.add_left_cancel_iff, ← mul_add,
    Nat.mul_right_inj (Nat.two_pow_pos w).ne', add_comm rest]

theorem chain_cons (x a b : BitVec w) (sum : List (BitVec w)) (rest : List (BitVec w × BitVec w))
    (carry flag : Nat) :
    value (x :: sum) + 2 ^ ((rest.length + 1) * w) * flag = total ((a, b) :: rest) + carry ↔
      x.toNat + 2 ^ w * (value sum + 2 ^ (rest.length * w) * flag) =
        a.toNat + b.toNat + carry + 2 ^ w * total rest := by
  refine Eq.congr ?_ ?_
  · rw [value, succ_mul, pow_add]
    ring
  · simp only [total, List.map_cons, value]
    ring

theorem toNat_bool_inj {a b : Bool} : a.toNat = b.toNat ↔ a = b := by
  cases a <;> cases b <;> simp

/-- What a chain leaves is the whole sum exactly when the flag is the carry throughout. -/
theorem Width.adcWords_exact (words : width.Pairs) (flags : Flags) (carry : Bool) :
    value (width.adcWords flags words).2 + 2 ^ (words.length * width.bits) *
        ((width.adcWords flags words).1.getLsbD carryFlagBit).toNat = total words + carry.toNat ↔
      flags.getLsbD carryFlagBit = carry ∧ width.AllFlagged carry words := by
  induction words generalizing flags carry with
  | nil => simp [adcWords, value, total, AllFlagged, toNat_bool_inj]
  | cons pair rest ih =>
    obtain ⟨a, b⟩ := pair
    obtain ⟨low, flagged⟩ := width.link_spec flags (flags.getLsbD carryFlagBit) a b
    have step : width.adc flags a b = width.add flags a (withCarry flags b) := by
      cases width <;> rfl
    rw [← withCarry, ← step] at low flagged
    let next := width.adcWords (width.adc flags a b).1 rest
    refine (chain_cons (width.adc flags a b).2 a b next.2 rest _
      (next.1.getLsbD carryFlagBit).toNat).trans ?_
    by_cases same : flags.getLsbD carryFlagBit = carry
    · subst same
      rw [carry_exact _ low, ih, flagged, AllFlagged]
      simp
    · refine iff_of_false (fun equal => same ?_) fun both => same both.1
      -- The low words alone show the carry that went in.
      have wide : 1 < 2 ^ width.bits := by cases width <;> decide
      have entered := (flags.getLsbD carryFlagBit).toNat_le
      have expected := carry.toNat_le
      have lows := congrArg (· % 2 ^ width.bits) equal
      simp only [low, add_mul_mod_self_left, mod_mod] at lows
      have carries : _ ≡ _ [MOD 2 ^ width.bits] := Nat.ModEq.add_left_cancel' _ lows
      exact toNat_bool_inj.mp (carries.eq_of_lt_of_lt (by omega) (by omega))

theorem Width.length_adcWords (words : width.Pairs) (flags : Flags) :
    (width.adcWords flags words).2.length = words.length := by
  induction words generalizing flags with
  | nil => rfl
  | cons pair rest ih => exact congrArg succ (ih _)

/-- A chain of additions computes the sum and its carry exactly when the flag is the carry at every
pair. -/
theorem chain_adds_up_iff (flags : Flags) (dst src : BitVec width.bits) (rest : width.Pairs) :
    width.AddsUp flags dst src rest ↔ width.AllFlagged false ((dst, src) :: rest) := by
  have step := width.link_spec flags false dst src
  simp only [Bool.toNat_false, BitVec.add_zero] at step
  have sum := value_lt (width.addWords flags dst src rest).2
  have first := value_lt (((dst, src) :: rest).map Prod.fst)
  have second := value_lt (((dst, src) :: rest).map Prod.snd)
  have length : (width.addWords flags dst src rest).2.length = rest.length + 1 :=
    congrArg Nat.succ (width.length_adcWords rest _)
  rw [length] at sum
  simp only [List.length_map, List.length_cons] at first second
  refine (split_iff _ sum (by unfold total; omega)).trans ?_
  refine (chain_cons _ dst src _ rest 0 _).trans ?_
  exact (carry_exact false step.1 _ _).trans
    ((width.adcWords_exact rest _ _).trans (and_congr_left' step.2))

/-- One and one are two bytes without a carry, and the flag is set. -/
theorem byte_sum_carries : ¬ Width.byte.AddsUp 0 1 1 [] := by
  intro right
  have flag := right.2
  revert flag
  decide

end Horizon.BiosEmu
