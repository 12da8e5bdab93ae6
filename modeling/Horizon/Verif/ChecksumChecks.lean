import Horizon.Verif.Checksums
/-!
# The checks of received UDP datagrams and ICMP messages

`udp_recv` sums its buffer to the end, link-layer padding included, and knows no `0xFFFF` for zero;
`icmp_recv` does the same and leaves out a last odd byte.
-/

namespace Horizon.Packets

open OnesComplement

/-- A datagram with a checksum, and whatever follows it in the buffer. -/
structure Datagram where
  buffer : Bytes
  src : Ipv4Addr
  dst : Ipv4Addr
  header : 8 ≤ wordAt buffer 4
  fits : wordAt buffer 4 ≤ buffer.length
  short : buffer.length < 65536
  summed : wordAt buffer 6 ≠ 0

/-- A message of `length` bytes, and whatever follows it in the buffer. -/
structure Message where
  buffer : Bytes
  length : Nat
  header : 8 ≤ length
  fits : length ≤ buffer.length

/-- A datagram or message, as it arrives. -/
inductive Received where
  | udp (datagram : Datagram)
  | icmp (message : Message)

/-- The bytes without a last odd one. -/
def wholeWords : Bytes → Bytes
  | first :: second :: rest => first :: second :: wholeWords rest
  | _ => []

namespace Received

/-- The receive function passes the packet on. -/
def Accepted : Received → Prop
  | udp datagram => udpRecv datagram.buffer datagram.src datagram.dst = .passed
  | icmp message => icmpRecv message.buffer = .passed

/-- The checksum field of the packet. -/
def field : Received → Nat
  | udp datagram => wordAt datagram.buffer 6
  | icmp message => wordAt message.buffer 2

/-- The checksum the protocol asks for. -/
def checksum : Received → Nat
  | udp datagram =>
    let length := wordAt datagram.buffer 4
    let sum := internetChecksum (pseudoHeader datagram.src datagram.dst 17 length ++
      store (datagram.buffer.take length) 6 0)
    if sum = 0 then 0xFFFF else sum
  | icmp message => internetChecksum (store (message.buffer.take message.length) 2 0)

/-- The checksum the receive function computes, over the whole buffer. -/
def bufferChecksum : Received → Nat
  | udp datagram => internetChecksum (pseudoHeader datagram.src datagram.dst 17
      (wordAt datagram.buffer 4) ++ store datagram.buffer 6 0)
  | icmp message => internetChecksum (wholeWords (store message.buffer 2 0))

/-- Nothing follows the packet in the buffer, a message has an even number of bytes, and the sum of
a datagram is not the zero that is sent as `0xFFFF`. -/
def Plain : Received → Prop
  | udp datagram => datagram.buffer.length = wordAt datagram.buffer 4 ∧
      (udp datagram).bufferChecksum ≠ 0
  | icmp message => message.buffer.length = message.length ∧ 2 ∣ message.length

end Received

theorem complement_eq_leWord {total : Nat} {message : Bytes}
    (same : canon (256 * total) = canon (words message).sum) (first second : UInt8) :
    0xFFFF - canon total = leWord first second ↔
      beWord first second = internetChecksum message := by
  have small := canon_lt total
  have high := first.toNat_lt
  have low := second.toNat_lt
  rw [internetChecksum_eq, ← same, canon_mul_256]
  unfold leWord beWord swap
  omega

theorem bytes_beWord (hi lo : UInt8) :
    UInt8.ofNat (beWord hi lo / 256) = hi ∧ UInt8.ofNat (beWord hi lo) = lo := by
  have high := hi.toNat_lt
  have low := lo.toNat_lt
  constructor <;> refine UInt8.toNat_inj.mp ?_ <;> rw [UInt8.toNat_ofNat', beWord] <;> omega

theorem fold_last {total : Nat} (bound : total < 65791) :
    (total + total / 65536) % 65536 = canon total := by
  by_cases word : total < 65536
  · rw [canon_of_lt word, Nat.div_eq_of_lt word, add_zero, Nat.mod_eq_of_lt word]
  · rw [← canon_fold, canon_of_lt (by omega)]
    omega

theorem udpChecksum_eq (buffer : Bytes) (src dst : Ipv4Addr) :
    ∃ total, udpChecksum buffer src dst = 0xFFFF - canon total ∧
      canon (256 * total) =
        canon (words (pseudoHeader src dst 17 (wordAt buffer 4) ++ store buffer 6 0)).sum := by
  have sums := canon_littleEndian 0 (pseudoHeader src dst 17 (wordAt buffer 4) ++ store buffer 6 0)
  have bound := sumWords_lt (by decide : 65536 ≤ 65791) (fun sum byte start => by
    have := byte.toNat_lt
    show sum + byte.toNat < 65791
    omega) 0 (pseudoHeader src dst 17 (wordAt buffer 4) ++ store buffer 6 0) (by decide)
  refine ⟨_, ?_, by simpa using sums⟩
  -- The fields of the pseudo header are the first words of the same loop.
  have protocol : 17 * 256 = leWord 0 17 := by decide
  have bytes := bytes_beWord (buffer.getD 4 0) (buffer.getD 5 0)
  rw [← fold_last bound, pseudoHeader, wordAt, bytes.1, bytes.2, udpChecksum, protocol]
  simp only [List.cons_append, List.nil_append, sumWords, List.foldl_cons, List.foldl_nil]

theorem icmpChecksum_eq (buffer : Bytes) : ∃ total, icmpChecksum buffer = 0xFFFF - canon total ∧
      canon (256 * total) = canon (words (wholeWords (store buffer 2 0))).sum := by
  have whole : ∀ sum message, sumWords leWord (fun sum _ => sum) sum message =
      sumWords leWord (fun sum last => sum + last.toNat) sum (wholeWords message) := by
    intro sum message
    induction sum, message using sumWords.induct leWord with
    | case1 sum first second rest ih => exact ih
    | case2 | case3 => rfl
  have small := sumWords_lt (by decide : 65536 ≤ 65536) (fun _ _ bound => bound) 0
    (store buffer 2 0) (by decide)
  have sums := canon_littleEndian 0 (wholeWords (store buffer 2 0))
  refine ⟨_, ?_, by simpa using sums⟩
  rw [icmpChecksum, Nat.mod_eq_of_lt small, ← whole, canon_of_lt small]

/-- A packet is accepted exactly when its field is the checksum of the buffer. -/
theorem Received.accepted_iff (packet : Received) :
    packet.Accepted ↔ packet.field = packet.bufferChecksum := by
  cases packet with
  | udp datagram =>
    obtain ⟨total, computed, same⟩ := udpChecksum_eq datagram.buffer datagram.src datagram.dst
    refine Iff.trans ?_ (complement_eq_leWord same _ _)
    rw [← computed]
    simp [Accepted, udpRecv, datagram.header.not_gt, datagram.fits.not_gt, datagram.summed]
  | icmp message =>
    obtain ⟨total, computed, same⟩ := icmpChecksum_eq message.buffer
    refine Iff.trans ?_ (complement_eq_leWord same _ _)
    rw [← computed]
    simp [Accepted, icmpRecv, (message.header.trans message.fits).not_gt]

theorem wholeWords_of_even (message : Bytes) (even : 2 ∣ message.length) :
    wholeWords message = message := by
  fun_induction wholeWords message with
  | case1 first second rest ih =>
    rw [ih ((Nat.dvd_add_left dvd_rfl).mp (by simpa using even))]
  | case2 message short =>
    match message, short with
    | [], _ => rfl
    | [_], _ => simp at even
    | first :: second :: rest, short => exact absurd rfl (short first second rest)

/-- The buffer of a plain packet has the checksum of the packet, so that it is judged rightly. -/
theorem Received.bufferChecksum_eq {packet : Received} (plain : packet.Plain) :
    packet.bufferChecksum = packet.checksum := by
  cases packet with
  | udp datagram =>
    obtain ⟨whole, nonzero⟩ := plain
    simp only [bufferChecksum, checksum] at nonzero ⊢
    rw [← whole, List.take_length, whole, if_neg nonzero]
  | icmp message =>
    obtain ⟨whole, even⟩ := plain
    have length : (store message.buffer 2 0).length = message.length := by simp [store, whole]
    simp only [bufferChecksum, checksum]
    rw [← whole, List.take_length, wholeWords_of_even _ (length ▸ even)]

/-- A packet is judged rightly when the buffer has the checksum of the packet, or when the field
holds neither. -/
theorem receive_checks_iff (packet : Received) :
    (packet.Accepted ↔ packet.field = packet.checksum) ↔
      (packet.bufferChecksum = packet.checksum ∨
        packet.field ≠ packet.bufferChecksum ∧ packet.field ≠ packet.checksum) := by
  rw [packet.accepted_iff]
  constructor
  · intro judged
    by_cases equal : packet.field = packet.bufferChecksum
    · exact .inl (equal.symm.trans (judged.mp equal))
    · exact .inr ⟨equal, fun right => equal (judged.mpr right)⟩
  · rintro (same | ⟨notBuffer, notPacket⟩)
    · rw [same]
    · exact iff_of_false notBuffer notPacket

/-- An echo request of nine bytes is refused with its right checksum. -/
theorem odd_echo_refused :
    ∃ packet : Received, packet.field = packet.checksum ∧ ¬ packet.Accepted := by
  refine ⟨.icmp ⟨[8, 0, 0xF6, 0xFF, 0, 0, 0, 0, 1], 9, by decide, by decide⟩, by decide, ?_⟩
  show icmpRecv _ ≠ _
  decide

end Horizon.Packets
