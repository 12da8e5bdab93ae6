import Mathlib
/-!
# Layouts of PCM frames

`sound_pcm_set_frame_count` and the two conversions of `driver/sound/pcm.c`, as the bytes they copy
one after the other. A copy that reads or writes behind the bytes of one period fails.
-/

namespace Horizon.Pcm

/-- The format of a stream. -/
structure PcmStream where
  channel : UInt8
  dataBytes : UInt8
  framePerPeriod : Nat
  frameBytes : Nat
  periodBytes : Nat

variable (stream : PcmStream)

/-- `sound_pcm_set_frame_count`. -/
def PcmStream.setFrameCount (count : Nat) : PcmStream :=
  let frameBytes := stream.channel.toNat * stream.dataBytes.toNat % 2 ^ 16
  { stream with framePerPeriod := count, frameBytes, periodBytes := count * frameBytes % 2 ^ 32 }

/-- The copies of a loop that moves its two pointers at the end of each round. -/
def rounds (body : Nat → Nat → List (Nat × Nat)) (srcStep dstStep : Nat) :
    Nat → Nat → Nat → List (Nat × Nat)
  | 0, _, _ => []
  | n + 1, src, dst =>
    body src dst ++ rounds body srcStep dstStep n (src + srcStep) (dst + dstStep)

/-- The loops over the frames, the channels and the bytes of a sample; a step for a channel and one
for a frame. -/
def copies (channelSrc channelDst frameSrc frameDst frameCount : Nat) : List (Nat × Nat) :=
  let sample := rounds (fun src dst => [(src, dst)]) 1 1 stream.dataBytes.toNat
  let frame := rounds sample channelSrc channelDst stream.channel.toNat
  rounds frame frameSrc frameDst frameCount 0 0

variable {β : Type}

/-- Copies one after the other; `none` when one leaves the buffer. -/
def perform (periodBytes : Nat) (input : Nat → β) : List (Nat × Nat) → (Nat → β) → Option (Nat → β)
  | [], output => some output
  | (src, dst) :: rest, output =>
    if src < periodBytes ∧ dst < periodBytes then
      perform periodBytes input rest (Function.update output dst (input src))
    else none

/-- `offset` of both conversions. -/
def PcmStream.offset : Nat := stream.periodBytes / stream.channel.toNat

/-- `src` goes on through the channels, `_dst` is set back to `dst` for every frame. -/
def interleaved2noninterleaved (input output : Nat → β) (frameCount : Nat) : Option (Nat → β) :=
  let dataBytes := stream.dataBytes.toNat
  perform stream.periodBytes input (copies stream dataBytes stream.offset
    (stream.channel.toNat * dataBytes) dataBytes frameCount) output

/-- `pcm_noninterleaved2interleaved`. -/
def noninterleaved2interleaved (input output : Nat → β) (frameCount : Nat) : Option (Nat → β) :=
  let dataBytes := stream.dataBytes.toNat
  perform stream.periodBytes input (copies stream stream.offset dataBytes
    dataBytes (stream.channel.toNat * dataBytes) frameCount) output

end Horizon.Pcm
