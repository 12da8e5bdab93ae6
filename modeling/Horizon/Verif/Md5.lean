import Horizon.Kernel.Md5
import Horizon.Spec.Md5Digest
/-!
# MD5 against RFC 1321

The sixty-four macro calls of `md5_transform` are the operations of the RFC in their order, seen
through registers that keep their names (`transform_regs`). When the end does not fit into one
block, the buffer is not cleared before the length is stored, and the last block hashed is
`leftover`.
-/

namespace Horizon.Md5

open Rfc1321 List Buffer Nat

variable (state : State)

/-- The variables in the order in which call `n` uses them. -/
def State.view (n : Nat) : Registers :=
  match n % 4 with
  | 0 => ⟨state.a, state.b, state.c, state.d⟩
  | 1 => ⟨state.d, state.a, state.b, state.c⟩
  | 2 => ⟨state.c, state.d, state.a, state.b⟩
  | _ => ⟨state.b, state.c, state.d, state.a⟩

def State.regs : Registers := ⟨state.a, state.b, state.c, state.d⟩

def mixAt (n : Nat) : Mix :=
  match n / 16 with
  | 0 => .ff
  | 1 => .gg
  | 2 => .hh
  | _ => .ii

def callAt (n : Nat) : Call :=
  match n % 4 with
  | 0 => ⟨mixAt n, .a, .b, .c, .d, wordIndex n, rotateBy n, constant n⟩
  | 1 => ⟨mixAt n, .d, .a, .b, .c, wordIndex n, rotateBy n, constant n⟩
  | 2 => ⟨mixAt n, .c, .d, .a, .b, wordIndex n, rotateBy n, constant n⟩
  | _ => ⟨mixAt n, .b, .c, .d, .a, wordIndex n, rotateBy n, constant n⟩

theorem rounds_eq_calls : round1 ++ round2 ++ round3 ++ round4 = (List.range 64).map callAt := by
  decide +kernel

theorem rotateBy_lt : ∀ n < 64, rotateBy n < 32 := by
  decide

theorem wordIndex_lt : ∀ n < 64, wordIndex n < 16 := by
  decide

variable {n : Nat}

theorem rotateLeft_eq (x : BitVec 32) (short : n < 32) : rotateLeft x n = x.rotateLeft n := by
  rw [BitVec.rotateLeft_eq_rotateLeftAux_of_lt short]
  rfl

theorem mixAt_apply (bound : n < 64) (x y z : BitVec 32) :
    (mixAt n).apply x y z = auxiliary (n / 16) x y z := by
  have rounds : n / 16 = 0 ∨ n / 16 = 1 ∨ n / 16 = 2 ∨ n / 16 = 3 := by omega
  unfold mixAt auxiliary
  rcases rounds with round | round | round | round <;> rw [round] <;> rfl

theorem exec_view (x : Nat → BitVec 32) (state : State) (bound : n < 64) :
    ((callAt n).exec x state).view (n + 1) = operation x (state.view n) n := by
  have value : ∀ a b c d : BitVec 32,
      rotateLeft (a + ((mixAt n).apply b c d + x (wordIndex n) + constant n)) (rotateBy n) + b =
        b + (a + auxiliary (n / 16) b c d + x (wordIndex n) + constant n).rotateLeft
          (rotateBy n) := by
    intro a b c d
    rw [rotateLeft_eq _ (rotateBy_lt n bound), mixAt_apply bound, BitVec.add_comm _ b]
    simp only [BitVec.add_assoc]
  have places : n % 4 = 0 ∨ n % 4 = 1 ∨ n % 4 = 2 ∨ n % 4 = 3 := by omega
  unfold callAt State.view
  rcases places with place | place | place | place
  · have next : (n + 1) % 4 = 1 := by omega
    rw [place, next]
    exact Registers.ext rfl (value _ _ _ _) rfl rfl
  · have next : (n + 1) % 4 = 2 := by omega
    rw [place, next]
    exact Registers.ext rfl (value _ _ _ _) rfl rfl
  · have next : (n + 1) % 4 = 3 := by omega
    rw [place, next]
    exact Registers.ext rfl (value _ _ _ _) rfl rfl
  · have next : (n + 1) % 4 = 0 := by omega
    rw [place, next]
    exact Registers.ext rfl (value _ _ _ _) rfl rfl

theorem calls_view (x : Nat → BitVec 32) (state : State) {count : Nat} (bound : count ≤ 64) :
    (((List.range count).map callAt).foldl (Call.exec x) state).view count =
      (List.range count).foldl (operation x) state.regs := by
  induction count with
  | zero => rfl
  | succ count ih =>
    rw [range_succ, map_append, foldl_append, foldl_append, ← ih (le_of_succ_le bound)]
    exact exec_view x _ bound

theorem transform_regs (block : Nat → BitVec 8) :
    (md5Transform state block).regs = compress state.regs (wordAt block) := by
  have mixed := calls_view (dword block) state (le_refl 64)
  rw [← rounds_eq_calls] at mixed
  have words : wordAt block = dword block := rfl
  unfold compress md5Transform
  rw [words, ← mixed]
  generalize (round1 ++ round2 ++ round3 ++ round4).foldl (Call.exec (dword block)) state = final
  rfl

theorem operation_congr {words others : Nat → Word} (same : ∀ i < 16, words i = others i)
    (regs : Registers) (bound : n < 64) : operation words regs n = operation others regs n := by
  unfold operation
  rw [same _ (wordIndex_lt n bound)]

theorem compress_congr {block other : Nat → Byte} (same : ∀ j < 64, block j = other j)
    (regs : Registers) : compress regs (wordAt block) = compress regs (wordAt other) := by
  have words : ∀ i < 16, wordAt block i = wordAt other i := by
    intro i bound
    unfold wordAt
    rw [same (4 * i + 3) (by omega), same (4 * i + 2) (by omega), same (4 * i + 1) (by omega),
      same (4 * i) (by omega)]
  have folds : (List.range 64).foldl (operation (wordAt block)) regs =
      (List.range 64).foldl (operation (wordAt other)) regs :=
    foldl_ext _ _ _ fun acc n member => operation_congr words acc (List.mem_range.mp member)
  unfold compress
  rw [folds]

theorem bytes_injective : Function.Injective Registers.bytes := by
  have word : ∀ left right : Word, wordBytes left = wordBytes right → left = right := by
    intro left right same
    simp only [wordBytes, List.cons.injEq, and_true] at same
    obtain ⟨byte0, byte1, byte2, byte3⟩ := same
    have value0 := congrArg BitVec.toNat byte0
    have value1 := congrArg BitVec.toNat byte1
    have value2 := congrArg BitVec.toNat byte2
    have value3 := congrArg BitVec.toNat byte3
    simp only [BitVec.extractLsb'_toNat, shiftRight_eq_div_pow] at value0 value1 value2 value3
    apply BitVec.eq_of_toNat_eq
    omega
  intro left right same
  have parts := append_inj' same rfl
  have front := append_inj' parts.1 rfl
  have first := append_inj' front.1 rfl
  exact Registers.ext (word _ _ first.1) (word _ _ first.2) (word _ _ front.2) (word _ _ parts.2)

variable (message : List Byte)

theorem chain_succ (count : Nat) : chain message (count + 1) =
    compress (chain message count) (wordAt (blockAt message count)) := by
  unfold chain
  rw [range_succ, foldl_append]
  rfl

theorem padded_length :
    (padded message).length = message.length + 1 + zeroCount message.length + 8 := by
  simp only [padded, lengthBytes, length_append, length_cons, length_replicate,
    length_map, length_range]
  omega

variable {j n : Nat}

theorem padded_message (inside : n < message.length) :
    (padded message).getD n 0 = message.getD n 0 := by
  unfold padded
  rw [getD_append _ _ _ _ inside]

theorem padded_mark : (padded message).getD message.length 0 = 0x80 := by
  unfold padded
  rw [getD_append_right _ _ _ _ (le_refl _), Nat.sub_self]
  rfl

theorem padded_zero (after : message.length < n)
    (before : n < message.length + 1 + zeroCount message.length) :
    (padded message).getD n 0 = 0 := by
  have place : n - message.length = (n - message.length - 1) + 1 := by omega
  unfold padded
  rw [getD_append_right _ _ _ _ (le_of_lt after), place, getD_cons_succ,
    getD_append _ _ _ _ (by rw [length_replicate]; omega), getD_replicate _ (by omega)]

theorem padded_size (bound : j < 8) :
    (padded message).getD (message.length + 1 + zeroCount message.length + j) 0 =
      BitVec.ofNat 8 ((8 * message.length) >>> (8 * j)) := by
  have place : message.length + 1 + zeroCount message.length + j - message.length =
      (zeroCount message.length + j) + 1 := by omega
  unfold padded lengthBytes
  rw [getD_append_right _ _ _ _ (by omega), place, getD_cons_succ,
    getD_append_right _ _ _ _ (by rw [length_replicate]; omega), length_replicate,
    Nat.add_sub_cancel_left]
  simp [getD_eq_getElem?_getD, bound]

theorem hashBlocks_regs (fuel k : Nat) (state : State) (started : state.regs = chain message k)
    (before : k ≤ message.length / 64) (enough : message.length / 64 - k ≤ fuel) :
    (hashBlocks message fuel (64 * k) state).1 = 64 * (message.length / 64) ∧
      (hashBlocks message fuel (64 * k) state).2.regs = chain message (message.length / 64) := by
  induction fuel generalizing k state with
  | zero =>
    have last : k = message.length / 64 := by omega
    subst last
    exact ⟨rfl, started⟩
  | succ fuel ih =>
    unfold hashBlocks
    by_cases whole : 64 * k + 63 < message.length
    · rw [if_pos whole, show 64 * k + 64 = 64 * (k + 1) from rfl]
      apply ih (k + 1) _ _ (by omega) (by omega)
      rw [transform_regs, started, chain_succ]
      apply compress_congr
      intro j bound
      exact (padded_message message (by omega)).symm
    · have last : k = message.length / 64 := by omega
      rw [if_neg whole]
      subst last
      exact ⟨rfl, started⟩

theorem write_inside (buffer : Buffer) {start count : Nat} (source : Nat → BitVec 8)
    (fits : start + count ≤ 64) : buffer.write start count source =
      some fun i => if start ≤ i ∧ i < start + count then source (i - start) else buffer i := by
  unfold write
  rw [if_pos fits]

theorem bitLen_byte (bound : j < 8) : BitVec.ofNat 8 ((message.length * 8 % 2 ^ 64) >>> (j * 8)) =
      BitVec.ofNat 8 ((8 * message.length) >>> (8 * j)) := by
  apply BitVec.eq_of_toNat_eq
  simp only [BitVec.toNat_ofNat, shiftRight_eq_div_pow]
  have width : 2 ^ 64 = 2 ^ (j * 8) * 2 ^ (64 - j * 8) := by
    rw [← pow_add]
    congr 1
    omega
  have divides : (2 ^ 8 : Nat) ∣ 2 ^ (64 - j * 8) := pow_dvd_pow 2 (by omega)
  rw [width, mod_mul_right_div_self, mod_mod_of_dvd _ divides, mul_comm 8 j,
    mul_comm message.length 8]

/-- The end of `md5`: the length is stored, and the buffer is hashed. -/
def finish (padded : State × Buffer) : Option (List (BitVec 8)) :=
  (padded.2.write 56 8 fun j =>
    BitVec.ofNat 8 ((message.length * 8 % 2 ^ 64) >>> (j * 8))).map fun buffer =>
      (md5Transform padded.1 buffer).digest

variable (stack : Buffer)

def filled : Buffer := fun i =>
  if message.length % 64 ≤ i ∧ i < message.length % 64 + 1 then 0x80
  else if 0 ≤ i ∧ i < 0 + message.length % 64 then
    message.getD (64 * (message.length / 64) + (i - 0)) 0
  else stack i

theorem filled_front (before : j < message.length % 64) :
    filled message stack j = message.getD (64 * (message.length / 64) + j) 0 := by
  unfold filled
  rw [if_neg (by omega), if_pos (by omega), Nat.sub_zero]

theorem filled_mark : filled message stack (message.length % 64) = 0x80 := by
  unfold filled
  rw [if_pos (by omega)]

theorem md5_start : ∃ state : State, state.regs = chain message (message.length / 64) ∧
      md5 stack message =
        (padBuffer state (filled message stack) (message.length % 64 + 1)).bind
          (finish message) := by
  have hashed := hashBlocks_regs message message.length 0 initialState rfl (Nat.zero_le _)
    (by omega)
  have rest : message.length - 64 * (message.length / 64) = message.length % 64 := by omega
  refine ⟨_, hashed.2, ?_⟩
  simp only [mul_zero] at hashed
  unfold md5
  simp only [hashed.1, rest]
  rw [write_inside _ _ (by omega)]
  simp only [Option.bind_eq_bind, Option.bind_some]
  rw [write_inside _ _ (by omega)]
  rfl

theorem digest_eq : state.digest = state.regs.bytes := rfl

theorem finish_eq (buffer : Buffer) :
    finish message (state, buffer) = some (compress state.regs (wordAt fun i =>
      if 56 ≤ i ∧ i < 64 then BitVec.ofNat 8 ((8 * message.length) >>> (8 * (i - 56)))
      else buffer i)).bytes := by
  have same : ∀ i < 64, (if 56 ≤ i ∧ i < 56 + 8 then
        BitVec.ofNat 8 ((message.length * 8 % 2 ^ 64) >>> ((i - 56) * 8)) else buffer i) =
      if 56 ≤ i ∧ i < 64 then BitVec.ofNat 8 ((8 * message.length) >>> (8 * (i - 56)))
      else buffer i := by
    intro i bound
    by_cases size : 56 ≤ i ∧ i < 64
    · rw [if_pos size, if_pos size, bitLen_byte message (by omega)]
    · rw [if_neg size, if_neg size]
  unfold finish
  rw [write_inside _ _ (by decide), Option.map_some, digest_eq, transform_regs, compress_congr same]

/-- The block hashed last when the padding does not fit behind the message: the buffer still holds
the message's bytes in front of the length. -/
def leftover (j : Nat) : Byte :=
  if j < 56 then message.getD (64 * (message.length / 64) + j) 0
  else blockAt message (message.length / 64 + 1) j

theorem cleared_eq {limit : Nat} (below : j < limit)
    (zeros : limit ≤ message.length % 64 + 1 + zeroCount message.length) :
    (if message.length % 64 + 1 ≤ j ∧
        j < message.length % 64 + 1 + (limit - (message.length % 64 + 1)) then 0
      else filled message stack j) = blockAt message (message.length / 64) j := by
  unfold blockAt
  rcases lt_trichotomy j (message.length % 64) with before | last | after
  · rw [if_neg (by omega), filled_front message stack before, padded_message message (by omega)]
  · have place : 64 * (message.length / 64) + j = message.length := by omega
    rw [if_neg (by omega), place, padded_mark, last, filled_mark]
  · rw [if_pos (by omega), padded_zero message (by omega) (by omega)]

theorem md5_fits (fits : message.length % 64 < 56) : md5 stack message = some (digest message) := by
  obtain ⟨state, regs, result⟩ := md5_start message stack
  have zeros : zeroCount message.length = 55 - message.length % 64 := by
    unfold zeroCount
    omega
  have blocks : (padded message).length / 64 = message.length / 64 + 1 := by
    rw [padded_length, zeros]
    omega
  unfold padBuffer at result
  rw [if_neg (by omega), clear, write_inside _ _ (by omega)] at result
  simp only [Option.bind_eq_bind, Option.bind_some, Option.pure_def] at result
  have same : ∀ j < 64,
      (if 56 ≤ j ∧ j < 64 then BitVec.ofNat 8 ((8 * message.length) >>> (8 * (j - 56)))
        else if message.length % 64 + 1 ≤ j ∧
          j < message.length % 64 + 1 + (56 - (message.length % 64 + 1)) then 0
        else filled message stack j) = blockAt message (message.length / 64) j := by
    intro j bound
    by_cases size : 56 ≤ j
    · have place : 64 * (message.length / 64) + j =
          message.length + 1 + zeroCount message.length + (j - 56) := by omega
      rw [if_pos ⟨size, bound⟩, blockAt, place, padded_size message (by omega)]
    · rw [if_neg (by omega), cleared_eq message stack (show j < 56 by omega) (by omega)]
  unfold digest
  rw [result, finish_eq, regs, blocks, chain_succ, compress_congr same]

theorem md5_spills (spills : 56 ≤ message.length % 64) : md5 stack message =
      if message.length % 64 < 60 then
        some (compress (chain message (message.length / 64 + 1)) (wordAt (leftover message))).bytes
      else none := by
  obtain ⟨state, regs, result⟩ := md5_start message stack
  have zeros : zeroCount message.length = 119 - message.length % 64 := by
    unfold zeroCount
    omega
  unfold padBuffer at result
  rw [if_pos (by omega), clear, write_inside _ _ (by omega)] at result
  simp only [Option.bind_eq_bind, Option.bind_some, Option.pure_def] at result
  rw [result]
  -- The first block of the two is the one of the RFC.
  have first := fun j (bound : j < 64) => cleared_eq message stack bound (by omega)
  by_cases inside : message.length % 64 < 60
  · rw [if_pos inside, clear, write_inside _ _ (by omega)]
    simp only [Option.bind_some]
    rw [finish_eq, transform_regs, regs, compress_congr first, ← chain_succ]
    refine congrArg (fun regs => some (Registers.bytes regs)) (compress_congr ?_ _)
    intro j bound
    unfold leftover
    by_cases size : 56 ≤ j
    · have place : 64 * (message.length / 64 + 1) + j =
          message.length + 1 + zeroCount message.length + (j - 56) := by omega
      rw [if_pos ⟨size, bound⟩, if_neg (by omega), blockAt, place, padded_size message (by omega)]
    · rw [if_neg (by omega), if_neg (by omega), if_neg (by omega), if_pos (by omega),
        filled_front message stack (by omega)]
  · rw [if_neg inside, clear, write, if_neg (by omega)]
    rfl

/-- For every message, `md5` returns the digest of RFC 1321 exactly when the message ends within
the first 56 bytes of a block; or it ends within the next four and the compression happens to send
`leftover` and the RFC's last block to the same registers. -/
theorem md5_right_iff (stack : Buffer) : md5 stack message = some (digest message) ↔
      message.length % 64 < 56 ∨
        (message.length % 64 < 60 ∧
          compress (chain message (message.length / 64 + 1)) (wordAt (leftover message)) =
            compress (chain message (message.length / 64 + 1))
              (wordAt (blockAt message (message.length / 64 + 1)))) := by
  by_cases fits : message.length % 64 < 56
  · exact ⟨fun _ => Or.inl fits, fun _ => md5_fits message stack fits⟩
  · have blocks : (padded message).length / 64 = message.length / 64 + 1 + 1 := by
      have short : message.length % 64 < 64 := Nat.mod_lt _ (by decide)
      rw [padded_length]
      unfold zeroCount
      omega
    rw [md5_spills message stack (by omega)]
    unfold digest
    rw [blocks, chain_succ message (message.length / 64 + 1)]
    by_cases inside : message.length % 64 < 60
    · rw [if_pos inside, Option.some.injEq, bytes_injective.eq_iff]
      exact ⟨fun same => Or.inr ⟨inside, same⟩,
        fun condition => condition.elim (fun small => absurd small fits) And.right⟩
    · rw [if_neg inside]
      constructor
      · intro returned
        cases returned
      · rintro (small | ⟨small, _⟩)
        · exact absurd small fits
        · exact absurd small inside

def spilling : List Byte := replicate 56 0x61

/-- The digest of these fifty-six bytes is wrong. -/
theorem md5_wrong_after_spill : md5 (fun _ => 0) spilling ≠ some (digest spilling) := by
  decide +kernel

end Horizon.Md5
