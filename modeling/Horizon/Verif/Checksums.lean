import Horizon.Spec.OnesComplement
import Horizon.Kernel.Packets
/-!
# The checksums of TCP and IPv4

Both loops fold their carries at other moments than the definition of RFC 1071, and IPv4 adds its
words with the bytes exchanged; neither changes the sum.
-/

namespace Horizon.Packets

open OnesComplement
open List hiding swap

/-- The 16-bit words of a message, padded with a zero byte. -/
def words : Bytes → List Nat
  | hi :: lo :: rest => beWord hi lo :: words rest
  | [last] => [beWord last 0]
  | [] => []

def internetChecksum (message : Bytes) : Nat := 0xFFFF - OnesComplement.sum (words message)

def pseudoHeader (src dst : Ipv4Addr) (protocol : UInt8) (length : Nat) : Bytes :=
  [src.a, src.b, src.c, src.d, dst.a, dst.b, dst.c, dst.d, 0, protocol,
    UInt8.ofNat (length / 256), UInt8.ofNat length]

theorem beWord_lt (hi lo : UInt8) : beWord hi lo < 65536 := by
  have high := hi.toNat_lt
  have low := lo.toNat_lt
  unfold beWord
  omega

theorem words_lt (message : Bytes) : ∀ word ∈ words message, word < 65536 := by
  induction message using words.induct with
  | case1 hi lo rest ih => simpa [words, beWord_lt] using ih
  | case2 last => simp [words, beWord_lt]
  | case3 => simp [words]

theorem internetChecksum_eq (message : Bytes) :
    internetChecksum message = 0xFFFF - canon (words message).sum := by
  rw [internetChecksum, sum_eq (words_lt message)]

theorem exists_pair {message : Bytes} (long : 1 < message.length) :
    ∃ hi lo rest, message = hi :: lo :: rest := by
  cases message with
  | nil => simp at long
  | cons hi tail =>
    cases tail with
    | nil => simp at long
    | cons lo rest => exact ⟨hi, lo, rest, rfl⟩

theorem words_store {value : Nat} (word : value < 65536) (message : Bytes) (k : Nat)
    (inside : 2 * k + 1 < message.length) :
    words (store message (2 * k) value) = (words message).set k value := by
  obtain ⟨hi, lo, rest, rfl⟩ := exists_pair (by omega : 1 < message.length)
  induction k generalizing hi lo rest with
  | zero =>
    have bytes : beWord (UInt8.ofNat (value / 256)) (UInt8.ofNat value) = value := by
      simp only [beWord, UInt8.toNat_ofNat']
      omega
    simp [store, words, bytes]
  | succ k ih =>
    simp only [length_cons] at inside
    obtain ⟨hi', lo', rest', rfl⟩ := exists_pair (by omega : 1 < rest.length)
    have later := ih hi' lo' rest' (by simp only [length_cons] at inside ⊢; omega)
    simpa [store, words, mul_add] using later

theorem wordAt_eq (message : Bytes) (k : Nat) (inside : 2 * k + 1 < message.length) :
    wordAt message (2 * k) = (words message).getD k 0 := by
  obtain ⟨hi, lo, rest, rfl⟩ := exists_pair (by omega : 1 < message.length)
  induction k generalizing hi lo rest with
  | zero => simp [wordAt, words]
  | succ k ih =>
    simp only [length_cons] at inside
    obtain ⟨hi', lo', rest', rfl⟩ := exists_pair (by omega : 1 < rest.length)
    have later := ih hi' lo' rest' (by simp only [length_cons] at inside ⊢; omega)
    simpa [wordAt, words, mul_add] using later

theorem length_words (message : Bytes) : (words message).length = (message.length + 1) / 2 := by
  induction message using words.induct with
  | case1 hi lo rest ih =>
    simp only [words, length_cons, ih]
    omega
  | case2 => simp [words]
  | case3 => simp [words]

theorem sum_set (values : List Nat) (k value : Nat) (inside : k < values.length) :
    (values.set k value).sum + values.getD k 0 = values.sum + value := by
  induction values generalizing k with
  | nil => simp at inside
  | cons first rest ih =>
    cases k with
    | zero => simp; omega
    | succ k =>
      have later := ih k (by simpa using inside)
      simp only [set_cons_succ, sum_cons, getD_cons_succ]
      omega

theorem getD_set_self {values : List Nat} {k : Nat} (inside : k < values.length) (value : Nat) :
    (values.set k value).getD k 0 = value := by
  simp [getD_eq_getElem?_getD, inside]

theorem getD_set_ne (values : List Nat) {j k : Nat} (apart : j ≠ k) (value : Nat) :
    (values.set j value).getD k 0 = values.getD k 0 := by
  simp [getD_eq_getElem?_getD, getElem?_set_ne apart]

theorem canon_checksumAdd (sum data : Nat) : canon (checksumAdd sum data) = canon (sum + data) := by
  unfold checksumAdd
  split
  · exact canon_fold _
  · rfl

theorem canon_sumWords {word : UInt8 → UInt8 → Nat} {odd : Nat → UInt8 → Nat} {scale : Nat}
    (positive : 0 < scale) (pairs : ∀ hi lo, canon (scale * word hi lo) = canon (beWord hi lo))
    (last : ∀ sum byte, canon (scale * odd sum byte) = canon (scale * sum + beWord byte 0))
    (sum : Nat) (message : Bytes) :
    canon (scale * sumWords word odd sum message) = canon (scale * sum + (words message).sum) := by
  induction sum, message using sumWords.induct word with
  | case1 sum hi lo rest ih =>
    have step : canon (scale * checksumAdd sum (word hi lo)) =
        canon (scale * sum + beWord hi lo) := by
      rw [canon_mul positive (canon_checksumAdd sum (word hi lo)), mul_add, add_comm,
        canon_add (pairs hi lo), add_comm]
    rw [sumWords, ih, canon_add step, words, sum_cons, add_assoc]
  | case2 sum byte => simpa [sumWords, words] using last sum byte
  | case3 sum => simp [sumWords, words]

theorem foldAll_eq (sum : Nat) : foldAll sum = canon sum := by
  induction sum using foldAll.induct with
  | case1 sum small => rw [foldAll, if_pos small, canon_of_lt small]
  | case2 sum large ih => rw [foldAll, if_neg large, ih, foldOnce, canon_fold]

theorem tcpChecksum_eq {segment : Bytes} (short : segment.length < 65536) (src dst : Ipv4Addr) :
    tcpChecksum segment src dst =
      internetChecksum (pseudoHeader src dst 6 segment.length ++ store segment 16 0) := by
  have length : beWord (UInt8.ofNat (segment.length / 256)) (UInt8.ofNat segment.length) =
      segment.length := by
    simp only [beWord, UInt8.toNat_ofNat']
    omega
  have protocol : beWord 0 6 = 6 := rfl
  have total := @canon_sumWords beWord (fun sum last => sum + last.toNat * 256) 1 (by decide)
    (fun _ _ => by rw [one_mul]) (fun _ _ => by simp [beWord])
  simp only [one_mul] at total
  rw [internetChecksum_eq, tcpChecksum, foldAll_eq, total]
  refine congrArg (fun sum => 0xFFFF - canon sum) ?_
  simp only [pseudoHeader, cons_append, nil_append, words, sum_cons, length, protocol]
  omega

/-- A TCP segment with its header, of a length that IPv4 can carry. -/
structure Segment where
  bytes : Bytes
  long : 20 ≤ bytes.length
  short : bytes.length < 65536

theorem tcpChecksum_words (segment : Segment) (src dst : Ipv4Addr) :
    tcpChecksum segment.bytes src dst = 0xFFFF - canon
      ((words (pseudoHeader src dst 6 segment.bytes.length)).sum +
        ((words segment.bytes).set 8 0).sum) := by
  have long := segment.long
  rw [tcpChecksum_eq segment.short, internetChecksum_eq,
    ← words_store (by decide : 0 < 65536) segment.bytes 8 (by omega), ← sum_append]
  rfl

theorem tcpChecksum_store (segment : Segment) (src dst : Ipv4Addr) :
    tcpChecksum (store segment.bytes 16 (tcpChecksum segment.bytes src dst)) src dst =
      wordAt (store segment.bytes 16 (tcpChecksum segment.bytes src dst)) 16 := by
  have long := segment.long
  have word : tcpChecksum segment.bytes src dst < 65536 := by
    rw [tcpChecksum]
    omega
  have length : (store segment.bytes 16 (tcpChecksum segment.bytes src dst)).length =
      segment.bytes.length := by simp [store]
  have stored := words_store word segment.bytes 8 (by omega)
  have field := wordAt_eq (store segment.bytes 16 (tcpChecksum segment.bytes src dst)) 8 (by omega)
  have own := tcpChecksum_words ⟨_, length.symm ▸ long, length.symm ▸ segment.short⟩ src dst
  rw [stored] at field own
  dsimp only at own
  have count := length_words segment.bytes
  rw [field, own, set_set, length, ← tcpChecksum_words, getD_set_self (by omega)]

/-- `changed` differs from `segment` in one 16-bit word, which does not change from one zero to the
other. -/
def OneWordChanged (segment changed : Bytes) : Prop :=
  changed.length = segment.length ∧ ∃ k word, k < (words segment).length ∧
    words changed = (words segment).set k word ∧ (words segment).getD k 0 ≠ word ∧
    ¬ ((words segment).getD k 0 = 0 ∧ word = 0xFFFF) ∧
    ¬ ((words segment).getD k 0 = 0xFFFF ∧ word = 0)

theorem tcpChecksum_changed (segment : Segment) {changed : Bytes} {src dst : Ipv4Addr}
    (stamped : tcpChecksum segment.bytes src dst = wordAt segment.bytes 16)
    (change : OneWordChanged segment.bytes changed) :
    tcpChecksum changed src dst ≠ wordAt changed 16 := by
  obtain ⟨length, k, word, inside, set, differs, notUp, notDown⟩ := change
  have long := segment.long
  have small := words_lt changed word (set ▸ mem_set inside word)
  have old := words_lt segment.bytes ((words segment.bytes).getD k 0)
    (by simp [getD_eq_getElem?_getD, inside])
  have count := length_words segment.bytes
  have sum := tcpChecksum_words ⟨changed, length ▸ long, length ▸ segment.short⟩ src dst
  dsimp only at sum
  rw [tcpChecksum_words, wordAt_eq segment.bytes 8 (by omega)] at stamped
  rw [sum, wordAt_eq changed 8 (by omega), set, length]
  by_cases field : k = 8
  · rw [field, set_set, stamped]
    rw [field] at differs
    rwa [getD_set_self (by omega)]
  · rw [set_comm _ _ field]
    have sums := sum_set ((words segment.bytes).set 8 0) k word (by simpa using inside)
    rw [getD_set_ne _ (Ne.symm field)] at sums
    rw [getD_set_ne _ field, ← stamped]
    intro equal
    have residues := (canon_eq_iff.mp (complement_inj equal)).2
    omega

/-- What `tcp_recv` makes of a segment that was sent, and of one that was changed on the way. -/
structure StampedRight (infos : List Endpoint) (sent : Bytes) (src dst : Ipv4Addr) : Prop where
  passes : tcpRecv infos sent src dst ≠ .badChecksum
  rejects : ∀ changed, OneWordChanged sent changed →
    tcpRecv infos changed src dst = .badChecksum ∨ tcpRecv infos changed src dst = .unsupported

theorem stampedRight_of_own (infos : List Endpoint) (sent : Segment) {src dst : Ipv4Addr}
    (stamped : tcpChecksum sent.bytes src dst = wordAt sent.bytes 16) :
    StampedRight infos sent.bytes src dst := by
  constructor
  · rw [tcpRecv, if_neg (not_not.mpr stamped)]
    split
    · simp
    · split <;> simp
  · intro changed change
    rw [tcpRecv, if_pos (tcpChecksum_changed sent stamped change)]
    split <;> simp

/-- An IPv4 header without options. -/
structure Ipv4Bytes where
  bytes : Bytes
  length : bytes.length = 20

theorem checksumAdd_lt {sum data : Nat} (left : sum < 65536) (right : data < 65536) :
    checksumAdd sum data < 65536 := by
  unfold checksumAdd foldOnce
  split <;> omega

theorem sumWords_lt {odd : Nat → UInt8 → Nat} {limit : Nat} (large : 65536 ≤ limit)
    (last : ∀ sum byte, sum < 65536 → odd sum byte < limit) (sum : Nat) (message : Bytes)
    (start : sum < 65536) : sumWords leWord odd sum message < limit := by
  induction sum, message using sumWords.induct leWord with
  | case1 sum first second rest ih => exact ih (checksumAdd_lt start (beWord_lt second first))
  | case2 sum byte => exact last sum byte start
  | case3 => exact lt_of_lt_of_le start large

theorem sumWords_even {word : UInt8 → UInt8 → Nat} (odd odd' : Nat → UInt8 → Nat) (sum : Nat)
    (message : Bytes) (even : message.length % 2 = 0) :
    sumWords word odd sum message = sumWords word odd' sum message := by
  induction sum, message using sumWords.induct word with
  | case1 sum first second rest ih =>
    simp only [length_cons] at even
    exact ih (by omega)
  | case2 => simp at even
  | case3 => rfl

theorem canon_leWord (hi lo : UInt8) : canon (256 * leWord hi lo) = canon (beWord hi lo) := by
  have high := hi.toNat_lt
  refine canon_eq_iff.mpr ?_
  unfold leWord beWord
  omega

theorem canon_littleEndian (sum : Nat) (message : Bytes) :
    canon (256 * sumWords leWord (fun sum last => sum + last.toNat) sum message) =
      canon (256 * sum + (words message).sum) := by
  refine canon_sumWords (by decide) canon_leWord (fun sum byte => ?_) sum message
  refine congrArg canon ?_
  simp [beWord, mul_add, mul_comm]

theorem ipv4Checksum_eq (header : Ipv4Bytes) :
    wordAt (ipv4Checksum header.bytes) 10 = internetChecksum (store header.bytes 10 0) := by
  have length := header.length
  have even : (store header.bytes 10 0).length % 2 = 0 := by simp [store, length]
  have total := canon_littleEndian 0 (store header.bytes 10 0)
  have small := sumWords_lt (by decide : 65536 ≤ 65536) (fun _ _ bound => bound) 0
    (store header.bytes 10 0) (by decide)
  rw [sumWords_even _ (fun sum _ => sum) _ _ even, mul_zero, zero_add, canon_mul_256,
    canon_of_lt small] at total
  have field : ∀ value < 65536, wordAt ((header.bytes.set 10 (UInt8.ofNat value)).set 11
      (UInt8.ofNat (value / 256))) 10 = swap value := by
    intro value word
    simp only [wordAt, getD_eq_getElem?_getD, getElem?_set, length_set, length, beWord, swap]
    simp
    omega
  rw [internetChecksum_eq, ← total, ipv4Checksum, field _ (by omega), Nat.mod_eq_of_lt small]
  unfold swap
  omega

/-- The checksums are those of RFC 1071: for a segment with its pseudo header, so that what
`tcp_send_packet` stamps passes `tcp_recv` unless a word changes on the way, and for a header. -/
theorem checksums_right (segment : Segment) (src dst : Ipv4Addr) (seq ack window optionSize : Nat)
    (infos : List Endpoint) (header : Ipv4Bytes) :
    tcpChecksum segment.bytes src dst = internetChecksum
      (pseudoHeader src dst 6 segment.bytes.length ++ store segment.bytes 16 0) ∧
    StampedRight infos (tcpSendPacket segment.bytes seq ack window optionSize src dst) src dst ∧
    wordAt (ipv4Checksum header.bytes) 10 = internetChecksum (store header.bytes 10 0) := by
  refine ⟨tcpChecksum_eq segment.short src dst, ?_, ipv4Checksum_eq header⟩
  have stamps : ∀ prepared : Bytes, prepared.length = segment.bytes.length →
      StampedRight infos (store prepared 16 (tcpChecksum prepared src dst)) src dst := by
    intro prepared length
    have long : 20 ≤ prepared.length := length ▸ segment.long
    have short : prepared.length < 65536 := length ▸ segment.short
    exact stampedRight_of_own infos ⟨_, by simpa [store] using long, by simpa [store] using short⟩
      (tcpChecksum_store ⟨prepared, long, short⟩ src dst)
  exact stamps _ (by simp [store])

/-- A segment without data from port 9 to port 80. -/
def bareSegment : Segment where
  bytes := [0, 9, 0, 80] ++ replicate 16 0
  long := by decide
  short := by decide

/-- Its checksum, and that of a header of zeros. -/
theorem checksums_right_bareSegment :
    StampedRight [] (tcpSendPacket bareSegment.bytes 1 2 3 0 ⟨10, 0, 0, 2⟩ ⟨10, 0, 0, 1⟩)
        ⟨10, 0, 0, 2⟩ ⟨10, 0, 0, 1⟩ ∧
      wordAt (ipv4Checksum (replicate 20 0)) 10 =
        internetChecksum (store (replicate 20 0) 10 0) :=
  (checksums_right bareSegment ⟨10, 0, 0, 2⟩ ⟨10, 0, 0, 1⟩ 1 2 3 0 []
    ⟨replicate 20 0, by decide⟩).2

theorem getD_store (packet : Bytes) {offset value i : Nat} (low : i ≠ offset)
    (high : i ≠ offset + 1) : (store packet offset value).getD i 0 = packet.getD i 0 := by
  simp [store, getD_eq_getElem?_getD, getElem?_set_ne low.symm, getElem?_set_ne high.symm]

/-- A segment that `tcp_send_packet` sends is delivered to the first connection that accepts it,
unless the size of its options does not fit the data offset. -/
theorem sent_segment_delivered (infos : List Endpoint) (segment : Segment) (src dst : Ipv4Addr)
    (seq ack window optionSize : Nat) :
    tcpRecv infos (tcpSendPacket segment.bytes seq ack window optionSize src dst) src dst =
      if (20 + optionSize) / 4 % 16 < 5 then .unsupported
      else (infos.find? (·.accepts (routeOf segment.bytes src dst))).elim .dropped .delivered := by
  have long := segment.long
  let prepared := (store (store (store (store (store segment.bytes 4 (seq / 65536)) 6
    (seq % 65536)) 8 (ack / 65536)) 10 (ack % 65536)) 14 (window % 65536)).set 12
      (UInt8.ofNat ((20 + optionSize) / 4 * 16))
  have length : prepared.length = segment.bytes.length := by simp [prepared, store]
  have sent : tcpSendPacket segment.bytes seq ack window optionSize src dst =
    store prepared 16 (tcpChecksum prepared src dst) := rfl
  have stamped := tcpChecksum_store ⟨prepared, length ▸ long, length ▸ segment.short⟩ src dst
  -- No store reaches the ports, and the checksum leaves the data offset alone.
  have port : ∀ i < 4, (store prepared 16 (tcpChecksum prepared src dst)).getD i 0 =
      segment.bytes.getD i 0 := by
    intro i early
    rw [getD_store _ (by omega) (by omega), getD_eq_getElem?_getD, getElem?_set_ne (by omega),
      ← getD_eq_getElem?_getD]
    iterate 5 rw [getD_store _ (by omega) (by omega)]
  have header : ((store prepared 16 (tcpChecksum prepared src dst)).getD 12 0).toNat =
      (20 + optionSize) / 4 * 16 % 256 := by
    rw [getD_store _ (by decide) (by decide), getD_eq_getElem?_getD,
      getElem?_set_self (by simp [store]; omega)]
    simp
  have route : routeOf (store prepared 16 (tcpChecksum prepared src dst)) src dst =
      routeOf segment.bytes src dst := by
    simp only [routeOf, wordAt, port 0 (by decide), port 1 (by decide), port 2 (by decide),
      port 3 (by decide)]
  rw [sent, tcpRecv, header, if_neg (not_not.mpr stamped), route]
  refine if_congr (by omega) rfl ?_
  cases infos.find? (·.accepts (routeOf segment.bytes src dst)) <;> rfl

/-- A listener on port 80 gets it. -/
theorem sent_segment_delivered_listener :
    let listener : Endpoint := ⟨⟨10, 0, 0, 1⟩, 80, ⟨0, 0, 0, 0⟩, 0, .listen⟩
    tcpRecv [listener] (tcpSendPacket bareSegment.bytes 1 2 3 0 ⟨10, 0, 0, 2⟩ ⟨10, 0, 0, 1⟩)
      ⟨10, 0, 0, 2⟩ ⟨10, 0, 0, 1⟩ = .delivered listener := by
  intro listener
  rw [sent_segment_delivered [listener] bareSegment]
  decide

end Horizon.Packets
