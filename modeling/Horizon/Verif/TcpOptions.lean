import Horizon.Kernel.TcpOptions
/-!
# The walk over TCP options

The loop can fail in two ways: an option of length zero puts it back where it was, and an MSS option
shorter than four bytes is recorded although its value may lie behind the area. `Orderly` rules out
both on the offsets that the walk reaches.
-/

namespace Horizon.Tcp

open List Option

variable (options : Nat → Nat) (size : Nat)

/-- An option with a length byte starts at `i`, and the handler accepts its length. -/
def Accepted (i : Nat) : Prop :=
  i + 1 < size ∧ options i ≠ optionEnd ∧ options i ≠ optionNop ∧ i + options (i + 1) ≤ size

/-- The offsets at which options start. -/
inductive Reaches : Nat → Prop where
  | start : Reaches 0
  | nop {i : Nat} : Reaches i → i < size → options i = optionNop → Reaches (i + 1)
  | option {i : Nat} : Reaches i → Accepted options size i → Reaches (i + options (i + 1))

/-- No accepted option on the walk has length zero, and the four bytes of an MSS option lie inside
the area. -/
def Orderly : Prop :=
  ∀ i, Reaches options size i → Accepted options size i →
    0 < options (i + 1) ∧ (options i = optionMss → i + 4 ≤ size)

/-- Every read stays inside the area, and so does the option of every recorded position, with its
length and the two bytes of its value. -/
structure Inside (log : OptionLog) : Prop where
  reads : ∀ offset ∈ log.reads, offset < size
  declared : ∀ position ∈ log.recorded, position - 2 + options (position - 1) ≤ size
  value : ∀ position ∈ log.recorded, position + 2 ≤ size

/-- The handler ends, and records only what lies inside the options. -/
def HandlerRight (dataOffset : Nat) (options : Nat → Nat) : Prop :=
  ∃ fuel log, tcpOptionsHandler fuel dataOffset options = some log ∧
    Inside options (optionsSize dataOffset).toNat log

variable {options size} {i : Nat}

theorem optionRound_reads (inside : i < size) :
    ∀ offset ∈ (optionRound options size i).reads, offset < size := by
  intro offset read
  dsimp only [optionRound] at read
  split_ifs at read <;> simp only [mem_cons, not_mem_nil, or_false] at read <;> omega

theorem optionRound_accepted (accepted : Accepted options size i) :
    optionRound options size i = ⟨[i, i + 1],
      if options i = optionMss then some (i + 2) else none, some (i + options (i + 1))⟩ := by
  obtain ⟨room, notEnd, notNop, fits⟩ := accepted
  have offset : i + 1 + options (i + 1) - 1 = i + options (i + 1) := by omega
  dsimp only [optionRound]
  rw [if_neg notEnd, if_neg notNop, if_neg (by omega), offset, if_neg (by omega)]

theorem optionRound_nop (nop : options i = optionNop) :
    optionRound options size i = ⟨[i], none, some (i + 1)⟩ := by
  have notEnd : options i ≠ optionEnd := by rw [nop]; decide
  unfold optionRound
  rw [if_neg notEnd, if_pos nop]

theorem optionRound_break (notNop : options i ≠ optionNop) (refused : ¬ Accepted options size i) :
    (optionRound options size i).next = none ∧ (optionRound options size i).recorded = none := by
  dsimp only [optionRound]
  split_ifs with isEnd short long
  · exact ⟨rfl, rfl⟩
  · exact ⟨rfl, rfl⟩
  · exact ⟨rfl, rfl⟩
  all_goals exact absurd ⟨by omega, isEnd, notNop, by omega⟩ refused

variable {fuel : Nat} {final log : OptionLog}

theorem Inside.add (log_inside : Inside options size log) (inside : i < size)
    (value : Accepted options size i → options i = optionMss → i + 4 ≤ size) :
    Inside options size (log.add (optionRound options size i)) := by
  have recorded : ∀ position ∈ (optionRound options size i).recorded,
      Accepted options size i ∧ options i = optionMss ∧ position = i + 2 := by
    intro position found
    by_cases accepted : Accepted options size i
    · rw [optionRound_accepted accepted] at found
      split_ifs at found with mss
      · exact ⟨accepted, mss, (mem_some_iff.mp found).symm⟩
      · exact absurd found (not_mem_none _)
    · by_cases nop : options i = optionNop
      · rw [optionRound_nop nop] at found
        exact absurd found (not_mem_none _)
      · rw [(optionRound_break nop accepted).2] at found
        exact absurd found (not_mem_none _)
  constructor
  · intro offset read
    rcases mem_append.mp read with old | new
    · exact log_inside.reads offset old
    · exact optionRound_reads inside offset new
  · intro position found
    rcases mem_append.mp found with old | new
    · exact log_inside.declared position old
    · obtain ⟨accepted, mss, rfl⟩ := recorded position (mem_toList.mp new)
      exact accepted.2.2.2
  · intro position found
    rcases mem_append.mp found with old | new
    · exact log_inside.value position old
    · obtain ⟨accepted, mss, rfl⟩ := recorded position (mem_toList.mp new)
      have bound := value accepted mss
      omega

/-- The loop keeps inside orderly options. -/
theorem optionsLoop_right (orderly : Orderly options size) (fuel : Nat)
    (reached : Reaches options size i) (log : OptionLog) (log_inside : Inside options size log)
    (enough : size - i < fuel) :
    ∃ final, optionsLoop options size fuel i log = some final ∧ Inside options size final := by
  induction fuel generalizing i log with
  | zero => omega
  | succ fuel ih =>
    unfold optionsLoop
    by_cases inside : i < size
    · rw [if_pos inside]
      have next_inside := log_inside.add inside fun accepted => (orderly i reached accepted).2
      by_cases accepted : Accepted options size i
      · have progress := (orderly i reached accepted).1
        have later := ih (.option reached accepted) _ next_inside (by omega)
        rw [optionRound_accepted accepted] at later ⊢
        exact later
      · by_cases nop : options i = optionNop
        · have later := ih (.nop reached inside nop) _ next_inside (by omega)
          rw [optionRound_nop nop] at later ⊢
          exact later
        · simp only [(optionRound_break nop accepted).1]
          exact ⟨_, rfl, next_inside⟩
    · rw [if_neg inside]
      exact ⟨log, rfl, log_inside⟩

theorem optionsLoop_stuck (accepted : Accepted options size i) (zero : options (i + 1) = 0)
    (fuel : Nat) (log : OptionLog) : optionsLoop options size fuel i log = none := by
  induction fuel generalizing log with
  | zero => rfl
  | succ fuel ih =>
    have inside : i < size := Nat.lt_of_succ_lt accepted.1
    have stay : i + options (i + 1) = i := by omega
    unfold optionsLoop
    rw [if_pos inside, optionRound_accepted accepted]
    simp only [stay]
    exact ih _

theorem Reaches.resumed (reached : Reaches options size i)
    (ended : optionsLoop options size fuel 0 OptionLog.empty = some final) :
    ∃ left log, optionsLoop options size left i log = some final := by
  induction reached with
  | start => exact ⟨fuel, _, ended⟩
  | nop reached inside nop ih =>
    obtain ⟨left, log, rest⟩ := ih
    cases left with
    | zero => cases rest
    | succ left =>
      unfold optionsLoop at rest
      rw [if_pos inside, optionRound_nop nop] at rest
      exact ⟨left, _, rest⟩
  | option reached accepted ih =>
    obtain ⟨left, log, rest⟩ := ih
    cases left with
    | zero => cases rest
    | succ left =>
      unfold optionsLoop at rest
      rw [if_pos (Nat.lt_of_succ_lt accepted.1), optionRound_accepted accepted] at rest
      exact ⟨left, _, rest⟩

theorem optionsLoop_recorded (fuel : Nat)
    (ended : optionsLoop options size fuel i log = some final) :
    ∀ position ∈ log.recorded, position ∈ final.recorded := by
  induction fuel generalizing i log with
  | zero => cases ended
  | succ fuel ih =>
    intro position found
    have kept : position ∈ (log.add (optionRound options size i)).recorded :=
      mem_append_left _ found
    unfold optionsLoop at ended
    split at ended
    · cases next : (optionRound options size i).next with
      | none =>
        simp only [next, Option.some.injEq] at ended
        exact ended ▸ kept
      | some after =>
        simp only [next] at ended
        exact ih ended position kept
    · cases ended
      exact found

theorem Reaches.recorded (reached : Reaches options size i) (accepted : Accepted options size i)
    (mss : options i = optionMss)
    (ended : optionsLoop options size fuel 0 OptionLog.empty = some final) :
    i + 2 ∈ final.recorded := by
  obtain ⟨left, log, rest⟩ := reached.resumed ended
  cases left with
  | zero => cases rest
  | succ left =>
    unfold optionsLoop at rest
    rw [if_pos (Nat.lt_of_succ_lt accepted.1), optionRound_accepted accepted, if_pos mss] at rest
    exact optionsLoop_recorded left rest _ (mem_append_right _ (mem_singleton_self _))

/-- The loop keeps inside exactly when the options are orderly. -/
theorem optionsLoop_right_iff :
    (∃ fuel log, optionsLoop options size fuel 0 OptionLog.empty = some log ∧
      Inside options size log) ↔ Orderly options size := by
  constructor
  · rintro ⟨fuel, final, ended, inside⟩ i reached accepted
    constructor
    · by_contra notPositive
      obtain ⟨left, log, rest⟩ := reached.resumed ended
      rw [optionsLoop_stuck accepted (by omega)] at rest
      cases rest
    · intro mss
      exact inside.value _ (reached.recorded accepted mss ended)
  · intro orderly
    have nothing : Inside options size OptionLog.empty :=
      ⟨fun _ read => absurd read not_mem_nil, fun _ found => absurd found not_mem_nil,
        fun _ found => absurd found not_mem_nil⟩
    obtain ⟨final, ended, inside⟩ :=
      optionsLoop_right orderly (size + 1) .start OptionLog.empty nothing (by omega)
    exact ⟨size + 1, final, ended, inside⟩

/-- For every data offset and all option bytes, the handler terminates and stays inside the option
area exactly when the options it walks over are orderly. -/
theorem handler_right_iff (dataOffset : Nat) (options : Nat → Nat) :
    HandlerRight dataOffset options ↔ Orderly options (optionsSize dataOffset).toNat := by
  rw [← optionsLoop_right_iff]
  unfold HandlerRight tcpOptionsHandler
  by_cases absent : optionsSize dataOffset ≤ 0
  · have empty : (optionsSize dataOffset).toNat = 0 := Int.toNat_of_nonpos absent
    simp only [if_pos absent, empty]
    constructor
    · rintro ⟨_, log, same, inside⟩
      exact ⟨1, log, same, inside⟩
    · rintro ⟨fuel, log, ended, inside⟩
      cases fuel with
      | zero => cases ended
      | succ fuel => exact ⟨0, log, ended, inside⟩
  · simp only [if_neg absent]

def zeroLengthMss (offset : Nat) : Nat := if offset = 0 then optionMss else 0

/-- An MSS option with length zero in an area of four bytes: the handler does not terminate. -/
theorem zero_length_never_ends : ¬ HandlerRight 0x60 zeroLengthMss := by
  rintro ⟨fuel, log, ended, _⟩
  have accepted : Accepted zeroLengthMss 4 0 := ⟨by decide, by decide, by decide, by decide⟩
  have stuck := optionsLoop_stuck accepted rfl fuel OptionLog.empty
  have same : tcpOptionsHandler fuel 0x60 zeroLengthMss =
      optionsLoop zeroLengthMss 4 fuel 0 OptionLog.empty := rfl
  rw [same, stuck] at ended
  cases ended

end Horizon.Tcp
