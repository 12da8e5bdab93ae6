import Horizon.Kernel.Pcm
/-!
# The layout conversions are inverse

Byte `k` of channel `j` of frame `i` is byte `k` of sample `i * channel + j` in one layout and of
sample `j * frame_per_period + i` in the other. Each conversion copies every sample from its place
in one layout to its place in the other.
-/

namespace Horizon.Pcm

open List Nat Function Fin

/-- A stream with a period of less than `2 ^ 31` bytes, and the frames that are converted. -/
structure Conversion where
  opened : PcmStream
  framePerPeriod : Nat
  frameCount : Nat
  channel_pos : 1 ≤ opened.channel.toNat
  short : framePerPeriod * (opened.channel.toNat * opened.dataBytes.toNat) < 2 ^ 31
  count_le : frameCount ≤ framePerPeriod

theorem mem_rounds {body : Nat → Nat → List (Nat × Nat)} {srcStep dstStep n src dst : Nat}
    {copy : Nat × Nat} : copy ∈ rounds body srcStep dstStep n src dst ↔
      ∃ i < n, copy ∈ body (src + i * srcStep) (dst + i * dstStep) := by
  induction n generalizing src dst with
  | zero => simp [rounds]
  | succ n ih =>
    rw [rounds, mem_append, ih, exists_lt_succ_left]
    simp only [zero_mul, add_zero, succ_mul, add_assoc, add_comm srcStep,
      add_comm dstStep]

/-- Copies inside the period that agree on every place they write arrive there. -/
theorem perform_spec {β : Type} {period : Nat} (input : Nat → β) {pairs : List (Nat × Nat)}
    (inside : ∀ copy ∈ pairs, copy.1 < period ∧ copy.2 < period)
    (single : ∀ copy ∈ pairs, ∀ other ∈ pairs, copy.2 = other.2 → copy.1 = other.1)
    (output : Nat → β) : ∃ result, perform period input pairs output = some result ∧
      (∀ copy ∈ pairs, result copy.2 = input copy.1) ∧
      ∀ place, (∀ copy ∈ pairs, copy.2 ≠ place) → result place = output place := by
  induction pairs generalizing output with
  | nil => exact ⟨output, rfl, by simp, fun _ _ => rfl⟩
  | cons first rest ih =>
    obtain ⟨result, performed, arrived, kept⟩ := ih (fun copy later => inside copy (.tail _ later))
      (fun copy later other last => single copy (.tail _ later) other (.tail _ last))
      (update output first.2 (input first.1))
    refine ⟨result, ?_, ?_, fun place unwritten => ?_⟩
    · rw [perform, if_pos (inside first mem_cons_self), performed]
    · refine forall_mem_cons.mpr ⟨?_, arrived⟩
      by_cases again : ∃ copy ∈ rest, copy.2 = first.2
      · obtain ⟨copy, later, same⟩ := again
        rw [← same, arrived copy later, single copy (.tail _ later) first mem_cons_self same]
      · push Not at again
        rw [kept _ again, update_self]
    · rw [kept place fun copy later => unwritten copy (.tail _ later),
        update_of_ne (unwritten first mem_cons_self).symm]

theorem perform_moves {β ι : Type} {period : Nat} {pairs : List (Nat × Nat)}
    {source target : ι → Nat} (moves : ∀ copy, copy ∈ pairs ↔ ∃ x, (source x, target x) = copy)
    (inside : ∀ x, source x < period ∧ target x < period)
    (single : ∀ x y, target x = target y → source x = source y) (input output : Nat → β) :
    ∃ result, perform period input pairs output = some result ∧
      ∀ x, result (target x) = input (source x) := by
  have bounds : ∀ copy ∈ pairs, copy.1 < period ∧ copy.2 < period := by
    intro copy listed
    obtain ⟨x, rfl⟩ := (moves copy).mp listed
    exact inside x
  have agree : ∀ copy ∈ pairs, ∀ other ∈ pairs, copy.2 = other.2 → copy.1 = other.1 := by
    intro copy listed other later
    obtain ⟨x, rfl⟩ := (moves copy).mp listed
    obtain ⟨y, rfl⟩ := (moves other).mp later
    exact single x y
  obtain ⟨result, performed, arrived, -⟩ := perform_spec input bounds agree output
  exact ⟨result, performed, fun x => arrived _ ((moves _).mpr ⟨x, rfl⟩)⟩

namespace Conversion

variable (c : Conversion)

def stream : PcmStream := c.opened.setFrameCount c.framePerPeriod

def channel : Nat := c.opened.channel.toNat

def width : Nat := c.opened.dataBytes.toNat

theorem frameBytes_eq : c.stream.frameBytes = c.channel * c.width := by
  refine mod_eq_of_lt ?_
  have product := Nat.mul_le_mul (le_of_lt_succ c.opened.channel.toNat_lt)
    (le_of_lt_succ c.opened.dataBytes.toNat_lt)
  omega

theorem periodBytes_eq : c.stream.periodBytes = c.framePerPeriod * (c.channel * c.width) := by
  have whole : c.stream.periodBytes = c.framePerPeriod * c.stream.frameBytes % 2 ^ 32 := rfl
  rw [whole, frameBytes_eq]
  exact mod_eq_of_lt (c.short.trans (by decide))

theorem offset_eq : c.stream.offset = c.framePerPeriod * c.width := by
  have quotient : c.stream.offset = c.stream.periodBytes / c.channel := rfl
  rw [quotient, periodBytes_eq, mul_left_comm]
  exact Nat.mul_div_cancel_left _ c.channel_pos

/-- A byte of a sample that is converted. -/
@[ext]
structure SampleByte where
  frame : Fin c.framePerPeriod
  channel : Fin c.channel
  byte : Fin c.width
  counted : frame < c.frameCount

variable {c}

namespace SampleByte

variable (x : c.SampleByte)

def interleaved : Nat := finProdFinEquiv (finProdFinEquiv (x.frame, x.channel), x.byte)

def noninterleaved : Nat := finProdFinEquiv (finProdFinEquiv (x.channel, x.frame), x.byte)

theorem interleaved_eq : x.interleaved =
    x.frame * (c.channel * c.width) + x.channel * c.width + x.byte := by
  simp only [interleaved, finProdFinEquiv_apply_val]
  ring

theorem noninterleaved_eq : x.noninterleaved =
    x.frame * c.width + x.channel * c.stream.offset + x.byte := by
  simp only [noninterleaved, finProdFinEquiv_apply_val, offset_eq]
  ring

theorem inside :
    x.interleaved < c.stream.periodBytes ∧ x.noninterleaved < c.stream.periodBytes := by
  rw [periodBytes_eq]
  refine ⟨(isLt _).trans_eq (mul_assoc _ _ _), (isLt _).trans_eq ?_⟩
  ring

theorem interleaved_injective : Function.Injective (interleaved (c := c)) := by
  intro x y same
  simp only [interleaved, val_inj, EmbeddingLike.apply_eq_iff_eq, Prod.mk.injEq] at same
  exact SampleByte.ext same.1.1 same.1.2 same.2

theorem noninterleaved_injective : Function.Injective (noninterleaved (c := c)) := by
  intro x y same
  simp only [noninterleaved, val_inj, EmbeddingLike.apply_eq_iff_eq, Prod.mk.injEq] at same
  exact SampleByte.ext same.1.2 same.1.1 same.2

end SampleByte

theorem exists_interleaved {place : Nat} (inside : place < c.frameCount * c.stream.frameBytes) :
    ∃ x : c.SampleByte, x.interleaved = place := by
  rw [frameBytes_eq] at inside
  have period := inside.trans_le (Nat.mul_le_mul_right _ c.count_le)
  rw [← mul_assoc] at period
  obtain ⟨⟨sample, byte⟩, found⟩ := finProdFinEquiv.surjective ⟨place, period⟩
  obtain ⟨⟨frame, channel⟩, rfl⟩ := finProdFinEquiv.surjective sample
  have value := congrArg val found
  refine ⟨⟨frame, channel, byte, ?_⟩, value⟩
  simp only [finProdFinEquiv_apply_val] at value
  by_contra beyond
  have more := Nat.mul_le_mul_right (c.channel * c.width) (not_lt.mp beyond)
  have split : c.width * (channel + c.channel * frame) =
      c.width * channel + frame * (c.channel * c.width) := by ring
  omega

theorem mem_copies {a b a' b' : Nat} {copy : Nat × Nat} :
    copy ∈ copies c.stream a b a' b' c.frameCount ↔ ∃ x : c.SampleByte,
      (x.frame * a' + x.channel * a + x.byte, x.frame * b' + x.channel * b + x.byte) = copy := by
  simp only [copies, mem_rounds, mem_singleton, zero_add, mul_one]
  constructor
  · rintro ⟨i, frame, j, channel, k, byte, rfl⟩
    exact ⟨⟨⟨i, frame.trans_le c.count_le⟩, ⟨j, channel⟩, ⟨k, byte⟩, frame⟩, rfl⟩
  · rintro ⟨x, rfl⟩
    exact ⟨_, x.counted, _, x.channel.isLt, _, x.byte.isLt, rfl⟩

variable {β : Type} (input output : Nat → β)

theorem split_ok : ∃ planes,
    interleaved2noninterleaved c.stream input output c.frameCount = some planes ∧
      ∀ x : c.SampleByte, planes x.noninterleaved = input x.interleaved := by
  refine perform_moves (fun copy => mem_copies.trans (exists_congr fun x => ?_))
    SampleByte.inside (fun _ _ same => congrArg _ (SampleByte.noninterleaved_injective same))
    input output
  rw [x.interleaved_eq, x.noninterleaved_eq]
  rfl

theorem join_ok : ∃ frames,
    noninterleaved2interleaved c.stream input output c.frameCount = some frames ∧
      ∀ x : c.SampleByte, frames x.interleaved = input x.noninterleaved := by
  refine perform_moves (fun copy => mem_copies.trans (exists_congr fun x => ?_))
    (fun x => x.inside.symm) (fun _ _ same => congrArg _ (SampleByte.interleaved_injective same))
    input output
  rw [x.interleaved_eq, x.noninterleaved_eq]
  rfl

end Conversion

/-- For every number of channels, sample width and period below `2 ^ 31` bytes, and no more frames
than a period has, both conversions stay inside one period, and the second gives back the frames the
first was given. -/
theorem conversions_round_trip (c : Conversion) {β : Type} (input middle output : Nat → β) :
    ∃ planes frames,
      interleaved2noninterleaved c.stream input middle c.frameCount = some planes ∧
      noninterleaved2interleaved c.stream planes output c.frameCount = some frames ∧
      ∀ place < c.frameCount * c.stream.frameBytes, frames place = input place := by
  obtain ⟨planes, split, there⟩ := Conversion.split_ok input middle
  obtain ⟨frames, join, back⟩ := Conversion.join_ok planes output
  refine ⟨planes, frames, split, join, fun place inside => ?_⟩
  obtain ⟨x, rfl⟩ := Conversion.exists_interleaved inside
  rw [back x, there x]

/-- Three of four stereo frames of 16-bit samples. -/
def stereo : Conversion where
  opened := ⟨2, 2, 0, 0, 0⟩
  framePerPeriod := 4
  frameCount := 3
  channel_pos := by decide
  short := by decide
  count_le := by decide

/-- Their twelve bytes come back. -/
theorem conversions_round_trip_stereo : ∃ planes frames : Nat → Nat,
    interleaved2noninterleaved stereo.stream id id 3 = some planes ∧
      noninterleaved2interleaved stereo.stream planes id 3 = some frames ∧
      ∀ place < 12, frames place = place :=
  conversions_round_trip stereo id id id

end Horizon.Pcm
