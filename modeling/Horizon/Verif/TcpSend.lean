import Horizon.Kernel.Tcp
import Horizon.Spec.Runs
/-!
# What a connection transmits

The buffer that timeouts send again keeps what it holds, so the calls that fill it decide. A call is
right when the positions of the ring agree with the stream: `next` with the bytes submitted, and
`unack` with the current sequence number. `unack` moves when data is sent and once more when it is
acknowledged; the sequence number moves with the acknowledgement only.
-/

namespace Horizon.Tcp

open Runs List Nat Connection

/-- A sender's session: submitted bytes, segments of the other side, and timeouts. -/
inductive SendEvent (V : Type) where
  | send (length : Nat)
  | segment (segment : Segment V) (iss : Nat)
  | timeout

variable {V : Type}

/-- The bytes of the stream that a call submits after `submitted` others. -/
def submission (stream : Nat → V) (submitted length : Nat) : List V :=
  (List.range length).map fun i => stream (submitted + i)

@[simp]
theorem submission_length (stream : Nat → V) (submitted length : Nat) :
    (submission stream submitted length).length = length := by
  simp [submission]

theorem submission_getElem? {stream : Nat → V} {submitted length i : Nat} (lt : i < length) :
    (submission stream submitted length)[i]? = some (stream (submitted + i)) := by
  simp [submission, lt]

/-- The byte at offset `i` of data with the sequence number `seq` is the byte of the stream that
belongs there: the `k`-th, when the number is `iss + 1 + k`. -/
def Belongs (iss : Nat) (stream : Nat → V) (submitted seq i : Nat) (byte : V) : Prop :=
  ∃ k, (k < submitted ∧ add32 (iss + 1) k = add32 seq i) ∧ byte = stream k

/-- The bytes belong where their sequence numbers say. -/
def RightAt (iss : Nat) (stream : Nat → V) (submitted seq : Nat) (data : List V) : Prop :=
  ∀ i byte, data[i]? = some byte → Belongs iss stream submitted seq i byte

/-- Every payload byte of the packet is the byte of the stream that its sequence number names. -/
def Packet.Right (iss : Nat) (stream : Nat → V) (submitted : Nat) (packet : Packet V) : Prop :=
  RightAt iss stream submitted packet.header.seq packet.payload

theorem rightAt_nil (iss : Nat) (stream : Nat → V) (submitted seq : Nat) :
    RightAt iss stream submitted seq [] := by
  intro i byte there
  simp at there

namespace Connection

/-- The packets that went out between two states. -/
def newPackets (before after : Connection V) : List (Packet V) :=
  after.sent.drop before.sent.length

/-- A call takes the data: there is some, and there is room for it. -/
def Accepts (tcp : Connection V) (length : Nat) : Prop :=
  0 < length ∧ length ≤ tcp.send.totalSize - tcp.usedSpace

/-- What the connection does with an event that is no call. -/
def hear (tcp : Connection V) : SendEvent V → Except Fault (Connection V)
  | .send _ => .ok tcp
  | .segment segment iss => tcp.tcpRxHandler segment iss
  | .timeout => tcp.tcpTimeoutHandler

def submittedAfter (submitted length : Nat) (result : ProtocolResult) : Nat :=
  if result = .ok then submitted + length else submitted

/-- Every packet of the session carries the bytes of the stream that its sequence number names. A
call must come back; the session is over when the kernel stops elsewhere. -/
def AlwaysRight (stream : Nat → V) : Connection V → Nat → List (SendEvent V) → Prop
  | _, _, [] => True
  | tcp, submitted, .send length :: rest =>
    ∃ done, tcp.tcpSendData (submission stream submitted length) = .ok done ∧
      (∀ packet ∈ tcp.newPackets done.2, packet.Right tcp.send.iss stream
        (submittedAfter submitted length done.1)) ∧
      AlwaysRight stream done.2 (submittedAfter submitted length done.1) rest
  | tcp, submitted, event :: rest =>
    ∀ next, tcp.hear event = .ok next →
      (∀ packet ∈ tcp.newPackets next, packet.Right tcp.send.iss stream submitted) ∧
      AlwaysRight stream next submitted rest

/-- The condition on the positions before a call that submits `length` bytes after `submitted`
others. There are a header and a window, the copy does not cross the end of the ring, `next` is the
place of the bytes submitted, and `unack` is the place of the byte that the current sequence number
names, which was submitted and is still in the ring. -/
structure Placed (tcp : Connection V) (submitted length : Nat) : Prop where
  header : tcp.header.isSome
  held : ∃ bytes, tcp.sendWindow = .held bytes
  room : tcp.send.unack < tcp.send.next ∨ tcp.send.next + length ≤ tcp.send.totalSize
  next : tcp.send.next = submitted % tcp.send.totalSize
  unack : ∃ acked, acked ≤ submitted ∧ submitted + length ≤ acked + tcp.send.totalSize ∧
    tcp.cur.seq = add32 (tcp.send.iss + 1) acked ∧ tcp.send.unack = acked % tcp.send.totalSize

/-- Every call that takes data finds the positions in place. Acknowledgements, other segments and
timeouts may come as they like. -/
def AlwaysPlaced (stream : Nat → V) : Connection V → Nat → List (SendEvent V) → Prop
  | _, _, [] => True
  | tcp, submitted, .send length :: rest =>
    (tcp.Accepts length → tcp.Placed submitted length) ∧
      ∀ done, tcp.tcpSendData (submission stream submitted length) = .ok done →
        AlwaysPlaced stream done.2 (submittedAfter submitted length done.1) rest
  | tcp, submitted, event :: rest =>
    ∀ next, tcp.hear event = .ok next → AlwaysPlaced stream next submitted rest

/-- The cell of a ring of `total` cells after `data` was put behind `next`. -/
def afterPut (bytes : Nat → V) (total next : Nat) (data : List V) (cell : Nat) : V :=
  (data[(cell + total - next) % total]?).getD (bytes cell)

end Connection

namespace Window

variable {bytes : Nat → V} {total start : Nat} {source : List V}

theorem store_held (bytes : Nat → V) (fits : start + source.length ≤ total) :
    ∃ written, (held bytes).store total start source = .ok (.held written) ∧
      ∀ i, written i = if start ≤ i then (source[i - start]?).getD (bytes i) else bytes i := by
  unfold store
  by_cases empty : source = []
  · refine ⟨bytes, if_pos empty, fun i => ?_⟩
    simp [empty]
  · rw [if_neg empty]
    simp only [contents, if_pos fits]
    exact ⟨_, rfl, fun i => rfl⟩

theorem load_held {count : Nat} (fits : start + count ≤ total) :
    (held bytes).load total start count =
      .ok ((List.range count).map fun i => bytes (start + i)) := by
  unfold load
  by_cases none : count = 0
  · simp [none]
  · rw [if_neg none]
    simp only [contents, if_pos fits]

/-- The bytes of a ring in order from `start` on. -/
def inOrder (bytes : Nat → V) (total start count : Nat) : List V :=
  (List.range count).map fun i => bytes ((start + i) % total)

theorem load_inOrder {count : Nat} (inside : start + count ≤ total) :
    (held bytes).load total start count = .ok (inOrder bytes total start count) := by
  rw [load_held inside, inOrder]
  congr 1
  refine map_congr_left fun i member => ?_
  have lt := List.mem_range.mp member
  rw [mod_eq_of_lt (by omega)]

/-- The second copy goes on at the beginning of the ring. -/
theorem loadAround_inOrder {size1 size2 : Nat} (inside : start + size1 ≤ total)
    (small : size2 ≤ total) (ends : 0 < size2 → start + size1 = total) :
    (held bytes).loadAround total start size1 size2 =
      .ok (inOrder bytes total start (size1 + size2)) := by
  unfold loadAround
  rw [load_inOrder inside, load_held (by omega)]
  simp only [ok_bind, pure_ok]
  congr 1
  unfold inOrder
  rw [range_add, map_append, map_map]
  congr 1
  refine map_congr_left fun i member => ?_
  have lt := List.mem_range.mp member
  have sum : start + (size1 + i) = i + total := by omega
  simp only [Function.comp_apply, zero_add]
  rw [sum, add_mod_right, mod_eq_of_lt (by omega)]

variable {cell : Nat}

theorem offset_of_le (le : start ≤ cell) (lt : cell < total) :
    (cell + total - start) % total = cell - start := by
  have sum : cell + total - start = cell - start + total := by omega
  rw [sum, add_mod_right, mod_eq_of_lt (by omega)]

theorem offset_of_lt (lt : cell < start) (bound : start < total) :
    (cell + total - start) % total = cell + total - start :=
  mod_eq_of_lt (by omega)

theorem store_cells (bound : start < total) (fits : start + source.length ≤ total) :
    ∃ written, (held bytes).store total start source = .ok (.held written) ∧
      ∀ cell < total, written cell = afterPut bytes total start source cell := by
  obtain ⟨written, run, cells⟩ := store_held bytes fits
  refine ⟨written, run, fun cell lt => ?_⟩
  rw [cells, afterPut]
  split_ifs with le
  · rw [offset_of_le le lt]
  · rw [offset_of_lt (by omega) bound, getElem?_eq_none (by omega)]
    rfl

theorem storeAround_cells (bytes : Nat → V) (bound : start < total) (fits : source.length ≤ total) :
    ∃ written,
      (held bytes).storeAround total start (min source.length (total - start)) source =
        .ok (.held written) ∧
      ∀ cell < total, written cell = afterPut bytes total start source cell := by
  have front : start + (source.take (min source.length (total - start))).length ≤ total := by
    simp only [length_take]
    omega
  have back : 0 + (source.drop (min source.length (total - start))).length ≤ total := by
    simp only [length_drop]
    omega
  obtain ⟨first, run1, cells1⟩ := store_held bytes front
  obtain ⟨second, run2, cells2⟩ := store_held first back
  refine ⟨second, bind_eq_ok.mpr ⟨_, run1, run2⟩, fun cell lt => ?_⟩
  rw [cells2, cells1, afterPut]
  simp only [zero_le, if_true, Nat.sub_zero, getElem?_drop, getElem?_take]
  by_cases le : start ≤ cell
  · have none : source[min source.length (total - start) + cell]? = none :=
      getElem?_eq_none (by omega)
    rw [offset_of_le le lt, none, if_pos le]
    split_ifs with inside
    · rfl
    · rw [getElem?_eq_none (by omega)]
      rfl
  · rw [offset_of_lt (by omega) bound, if_neg le]
    by_cases long : total - start ≤ source.length
    · have same : min source.length (total - start) + cell = cell + total - start := by omega
      rw [same]
    · rw [getElem?_eq_none (by omega), getElem?_eq_none (by omega)]

/-- A ring with `count` bytes of a stream behind it takes the next ones: byte `k` is in its cell
then, if it was there or is new. -/
theorem afterPut_stream {stream : Nat → V} {count length k : Nat} (pos : 0 < total)
    (fits : length ≤ total)
    (holds : k < count → bytes (k % total) = stream k)
    (old : k < count + length) (recent : count + length ≤ k + total) :
    afterPut bytes total (count % total) (submission stream count length) (k % total) =
      stream k := by
  have offset : (k % total + total - count % total) % total = (k + total - count) % total := by
    have first := Nat.div_add_mod k total
    have second := Nat.div_add_mod count total
    have less := Nat.mod_lt k pos
    have bound := Nat.mod_lt count pos
    have sum : k % total + total - count % total + total * (k / total) =
        k + total - count + total * (count / total) := by omega
    rw [← Nat.add_mul_mod_self_left _ total (k / total), sum, Nat.add_mul_mod_self_left]
  unfold afterPut
  rw [offset]
  by_cases new : count ≤ k
  · have place : (k + total - count) % total = k - count := by
      have sum : k + total - count = k - count + total := by omega
      rw [sum, add_mod_right, mod_eq_of_lt (by omega)]
    rw [place, submission_getElem? (by omega), Nat.add_sub_cancel' new]
    rfl
  · rw [mod_eq_of_lt (by omega), getElem?_eq_none (by rw [submission_length]; omega)]
    exact holds (by omega)

end Window

namespace Connection

variable {tcp : Connection V} {bytes : Nat → V} {data : List V}

/-- Both positions lie in the ring. -/
def Ring (tcp : Connection V) : Prop :=
  0 < tcp.send.totalSize → tcp.send.unack < tcp.send.totalSize ∧ tcp.send.next < tcp.send.totalSize

theorem Accepts.pos {length : Nat} (accepts : tcp.Accepts length) : 0 < tcp.send.totalSize := by
  unfold Accepts at accepts
  omega

theorem used_spec (ring : tcp.Ring) (pos : 0 < tcp.send.totalSize) :
    tcp.usedSpace < tcp.send.totalSize ∧
      (tcp.send.unack + tcp.usedSpace) % tcp.send.totalSize = tcp.send.next := by
  obtain ⟨unack, next⟩ := ring pos
  unfold usedSpace
  split_ifs with ordered
  · have sum : tcp.send.unack + (tcp.send.next - tcp.send.unack) = tcp.send.next := by omega
    rw [sum, mod_eq_of_lt next]
    exact ⟨by omega, rfl⟩
  · have sum : tcp.send.unack + (tcp.send.next + tcp.send.totalSize - tcp.send.unack) =
        tcp.send.next + tcp.send.totalSize := by omega
    rw [sum, add_mod_right, mod_eq_of_lt next]
    exact ⟨by omega, rfl⟩

theorem putWindow_held (window : tcp.sendWindow = .held bytes) (ring : tcp.Ring)
    (accepts : tcp.Accepts data.length)
    (room : tcp.send.unack < tcp.send.next ∨ tcp.send.next + data.length ≤ tcp.send.totalSize) :
    ∃ written, tcp.putWindow data = .ok (.held written) ∧ ∀ cell < tcp.send.totalSize,
      written cell = afterPut bytes tcp.send.totalSize tcp.send.next data cell := by
  have bound := (ring accepts.pos).2
  unfold putWindow
  rw [window]
  by_cases ordered : tcp.send.unack < tcp.send.next
  · rw [if_pos ordered]
    have fits := accepts.2
    exact Window.storeAround_cells bytes bound (by omega)
  · rw [if_neg ordered]
    exact Window.store_cells bound (room.resolve_left ordered)

theorem distance {unack next used total : Nat} (pos : 0 < used) (le : used ≤ total)
    (inside : unack < total) (back : (unack + used) % total = next) :
    (unack < next → used = next - unack) ∧ (next ≤ unack → used + unack = next + total) := by
  by_cases short : unack + used < total
  · rw [mod_eq_of_lt short] at back
    omega
  · rw [mod_eq_sub_mod (by omega), mod_eq_of_lt (by omega)] at back
    omega

theorem takeData_held {used : Nat} (window : tcp.sendWindow = .held bytes) (ring : tcp.Ring)
    (pos : 0 < used) (le : used ≤ tcp.send.totalSize)
    (back : (tcp.send.unack + used) % tcp.send.totalSize = tcp.send.next) :
    ∃ unack next, unack < tcp.send.totalSize ∧ next < tcp.send.totalSize ∧
      tcp.takeData used = .ok { tcp.cleanData with
        payload := Window.inOrder bytes tcp.send.totalSize tcp.send.unack
          (min (min tcp.mss tcp.send.window) used)
        send := { tcp.send with unack := unack, next := next } } := by
  have positive : 0 < tcp.send.totalSize := by omega
  have unack := (ring positive).1
  have next := (ring positive).2
  have far := distance pos le unack back
  unfold takeData
  dsimp only
  rw [window]
  generalize min tcp.mss tcp.send.window = limit
  by_cases ordered : tcp.send.unack < tcp.send.next
  · have exact_used := far.1 ordered
    rw [if_pos ordered, Window.load_inOrder (by omega)]
    exact ⟨_, tcp.send.next, mod_lt _ positive, next, rfl⟩
  · have exact_used := far.2 (by omega)
    have size : min limit (tcp.send.totalSize - tcp.send.unack) +
        min (min (limit - min limit (tcp.send.totalSize - tcp.send.unack)) tcp.send.next)
          (used - min limit (tcp.send.totalSize - tcp.send.unack)) = min limit used := by omega
    rw [if_neg ordered, Window.loadAround_inOrder (by omega) (by omega) (by omega), size]
    exact ⟨tcp.send.unack, _, unack, mod_lt _ positive, rfl⟩

/-- The cell of each of the last `totalSize` submitted bytes holds it. -/
def Content (stream : Nat → V) (submitted : Nat) (tcp : Connection V) : Prop :=
  ∀ bytes, tcp.sendWindow = .held bytes → ∀ k, k < submitted →
    submitted ≤ k + tcp.send.totalSize → bytes (k % tcp.send.totalSize) = stream k

/-- The invariant: the positions lie in the ring, the ring holds the stream, the buffer holds what
belongs at the current sequence number, and the handshake is over. -/
structure SendInv (stream : Nat → V) (submitted : Nat) (tcp : Connection V) : Prop where
  ring : tcp.Ring
  content : Content stream submitted tcp
  buffered : RightAt tcp.send.iss stream submitted tcp.cur.seq tcp.payload
  state : tcp.state = .established ∨ tcp.state = .closeWait ∨ tcp.state = .closed

/-- Between the two states only right packets were sent. -/
structure Emits (stream : Nat → V) (submitted : Nat) (before after : Connection V) : Prop where
  iss : after.send.iss = before.send.iss
  packets : ∃ new, after.sent = before.sent ++ new ∧
    ∀ packet ∈ new, packet.Right before.send.iss stream submitted

/-- A step that keeps the invariant and sends only right packets. -/
def Good (stream : Nat → V) (submitted : Nat) (before after : Connection V) : Prop :=
  SendInv stream submitted after ∧ Emits stream submitted before after

section Steps

variable {stream : Nat → V} {submitted : Nat} {next : Connection V} {segment : Segment V}

theorem Emits.newPackets_right (emits : Emits stream submitted tcp next) :
    ∀ packet ∈ tcp.newPackets next, packet.Right tcp.send.iss stream submitted := by
  obtain ⟨new, sent, right⟩ := emits.packets
  intro packet member
  rw [newPackets, sent, drop_left] at member
  exact right packet member

theorem Good.trans {last : Connection V} (one : Good stream submitted tcp next)
    (two : Good stream submitted next last) : Good stream submitted tcp last := by
  obtain ⟨first, sent1, right1⟩ := one.2.packets
  obtain ⟨second, sent2, right2⟩ := two.2.packets
  refine ⟨two.1, two.2.iss.trans one.2.iss, first ++ second, ?_, ?_⟩
  · rw [sent2, sent1, append_assoc]
  · intro packet member
    rw [one.2.iss] at right2
    exact (List.mem_append.mp member).elim (right1 packet) (right2 packet)

/-- A step that keeps the invariant and sends nothing. -/
theorem Good.silent (inv : SendInv stream submitted next) (iss : next.send.iss = tcp.send.iss)
    (sent : next.sent = tcp.sent) : Good stream submitted tcp next :=
  ⟨inv, iss, [], by simp [sent], by simp⟩

theorem Good.refl (inv : SendInv stream submitted tcp) : Good stream submitted tcp tcp :=
  .silent inv rfl rfl

variable {flags : Flags} {optionSize : Nat}

/-- One packet with the buffer goes out. -/
theorem tcpSendPacket_good (inv : SendInv stream submitted tcp)
    (run : tcp.tcpSendPacket flags optionSize = .ok next) : Good stream submitted tcp next := by
  obtain ⟨header, _, done⟩ := bind_eq_ok.mp run
  cases done
  split_ifs <;>
    · refine ⟨⟨inv.ring, inv.content, inv.buffered, inv.state⟩, rfl, _, rfl, ?_⟩
      intro packet member
      rw [mem_singleton.mp member]
      exact inv.buffered

theorem kfree_not_held {window left : Window V} (run : window.kfree = .ok left)
    (bytes : Nat → V) : left ≠ .held bytes := by
  cases window <;> cases run <;> simp

/-- A reset sends no data, and leaves no window. -/
theorem tcpResetConn_good (ring : tcp.Ring) (run : tcp.tcpResetConn = .ok next) :
    Good stream submitted tcp next := by
  obtain ⟨header, _, run⟩ := bind_eq_ok.mp run
  obtain ⟨sendWindow, kfreed, run⟩ := bind_eq_ok.mp run
  obtain ⟨recvWindow, _, done⟩ := bind_eq_ok.mp run
  cases done
  refine ⟨⟨ring, fun bytes held => absurd held (kfree_not_held kfreed bytes),
    rightAt_nil _ _ _ _, .inr (.inr rfl)⟩, rfl, _, rfl, ?_⟩
  intro packet member
  rw [mem_singleton.mp member]
  exact rightAt_nil _ _ _ _

theorem takeSegment_good (inv : SendInv stream submitted tcp)
    (run : tcp.takeSegment data = .ok next) : Good stream submitted tcp next := by
  unfold takeSegment at run
  split at run
  · cases run
    exact Good.refl inv
  · obtain ⟨window, _, done⟩ := bind_eq_ok.mp run
    cases done
    exact .silent ⟨inv.ring, inv.content, inv.buffered, inv.state⟩ rfl rfl

theorem acceptData_good (inv : SendInv stream submitted tcp)
    (run : tcp.acceptData segment = .ok next) : Good stream submitted tcp next := by
  unfold acceptData at run
  split_ifs at run
  · cases run
    exact Good.refl inv
  · obtain ⟨taken, stored, acked⟩ := bind_eq_ok.mp run
    have first := takeSegment_good inv stored
    have second : Good stream submitted taken { taken with
        send := { taken.send with wl1 := segment.seq }
        cur := { taken.cur with ack := add32 segment.seq segment.payload.length } } :=
      .silent ⟨first.1.ring, first.1.content, first.1.buffered, first.1.state⟩ rfl rfl
    exact (first.trans second).trans (tcpSendPacket_good second.1 acked)

theorem advance_good (acked ack : Nat) (inv : SendInv stream submitted tcp) :
    Good stream submitted tcp (tcp.advance acked ack) :=
  .silent ⟨fun pos => ⟨mod_lt _ pos, (inv.ring pos).2⟩, inv.content, rightAt_nil _ _ _ _, inv.state⟩
    rfl rfl

section

variable (inv : SendInv stream submitted tcp)
include inv

theorem acceptAck_good (run : tcp.acceptAck segment = .ok next) :
    Good stream submitted tcp next := by
  unfold acceptAck at run
  split_ifs at run with none zero
  · cases run
    exact Good.refl inv
  · cases run
    exact advance_good _ _ inv

theorem tcpAckHandler_good (run : tcp.tcpAckHandler segment = .ok next) :
    Good stream submitted tcp next := by
  obtain ⟨accepted, data, ack⟩ := bind_eq_ok.mp run
  have first := acceptData_good inv data
  exact first.trans (acceptAck_good first.1 ack)

theorem retransmit_good (run : tcp.retransmit = .ok next) : Good stream submitted tcp next := by
  have first : Good stream submitted tcp { tcp with retryTimes := tcp.retryTimes + 1 } :=
    .silent ⟨inv.ring, inv.content, inv.buffered, inv.state⟩ rfl rfl
  unfold retransmit at run
  dsimp only at run
  split_ifs at run
  · obtain ⟨header, _, sends⟩ := bind_eq_ok.mp run
    exact first.trans (tcpSendPacket_good first.1 sends)
  · exact first.trans (tcpResetConn_good first.1.ring run)

/-- The step lemma for timeouts. -/
theorem tcpTimeoutHandler_good (run : tcp.tcpTimeoutHandler = .ok next) :
    Good stream submitted tcp next := by
  unfold tcpTimeoutHandler at run
  rcases inv.state with state | state | state <;> rw [state] at run
  · exact retransmit_good inv run
  all_goals
    cases run
    exact Good.refl inv

theorem finArrived_good (seq ack : Nat) : Good stream submitted tcp (cleanData { tcp with
      cur := { tcp.cur with seq := seq, ack := ack }
      state := .closeWait
      connState := .closing }) :=
  .silent ⟨inv.ring, inv.content, rightAt_nil _ _ _ _, .inr (.inl rfl)⟩ rfl rfl

end

variable {iss length : Nat}

theorem rxByState_good {index : Nat} (inv : SendInv stream submitted tcp)
    (run : tcp.rxByState segment iss index = .ok next) : Good stream submitted tcp next := by
  unfold rxByState at run
  rcases inv.state with state | state | state <;> rw [state] at run
  · obtain ⟨handled, acked, rest⟩ := bind_eq_ok.mp run
    have first := tcpAckHandler_good inv acked
    split_ifs at rest with fin
    · have second := first.trans
        (finArrived_good first.1 segment.ack (add32 handled.cur.ack 1))
      exact second.trans (tcpSendPacket_good second.1 rest)
    · cases rest
      exact first
  all_goals exact tcpResetConn_good inv.ring run

/-- The step lemma for segments. -/
theorem tcpRxHandler_good (inv : SendInv stream submitted tcp)
    (run : tcp.tcpRxHandler segment iss = .ok next) : Good stream submitted tcp next := by
  unfold tcpRxHandler at run
  cases options : tcpOptionsHandler 41 segment.dataOffset segment.options with
  | none => simp [options] at run
  | some log =>
    simp only [options] at run
    split_ifs at run with rst
    · -- The handler goes on as for a closed connection.
      have closed : SendInv stream submitted
          { tcp with state := .closed, connState := .closed } :=
        ⟨inv.ring, inv.content, inv.buffered, .inr (.inr rfl)⟩
      have good := rxByState_good closed run
      exact ⟨good.1, good.2.iss, good.2.packets⟩
    · exact rxByState_good inv run

/-- The step lemma for all events but calls. -/
theorem hear_good {event : SendEvent V} (inv : SendInv stream submitted tcp)
    (run : tcp.hear event = .ok next) : Good stream submitted tcp next := by
  cases event with
  | send length =>
    cases run
    exact Good.refl inv
  | segment arrived iss => exact tcpRxHandler_good inv run
  | timeout => exact tcpTimeoutHandler_good inv run

theorem tcpSendData_refused (refused : ¬ tcp.Accepts data.length) :
    ∃ result, result ≠ .ok ∧ tcp.tcpSendData data = .ok (result, tcp) := by
  unfold tcpSendData
  by_cases empty : data = []
  · exact ⟨.errorNullPtr, by decide, if_pos empty⟩
  · have full : tcp.send.totalSize - tcp.usedSpace < data.length := by
      have positive := List.length_pos_iff.mpr empty
      unfold Accepts at refused
      omega
    refine ⟨.errorNoSpaceLeft, by decide, ?_⟩
    rw [if_neg empty, if_pos full]

theorem tcpSendData_accepted (accepts : tcp.Accepts data.length) : tcp.tcpSendData data = (do
      let filled ← tcp.putData data
      let taken ← filled.takeData (tcp.usedSpace + data.length)
      let sent ← taken.tcpSendPacket { Flags.none with psh := true, ack := true } 0
      return (.ok, sent)) := by
  have nonempty : data ≠ [] := List.length_pos_iff.mp accepts.1
  have room : ¬ tcp.send.totalSize - tcp.usedSpace < data.length := not_lt.mpr accepts.2
  unfold tcpSendData
  rw [if_neg nonempty, if_neg room]

/-- What a call puts into its packet. -/
def outgoing (tcp : Connection V) (bytes : Nat → V) (data : List V) : List V :=
  Window.inOrder (afterPut bytes tcp.send.totalSize tcp.send.next data) tcp.send.totalSize
    tcp.send.unack (min (min tcp.mss tcp.send.window) (tcp.usedSpace + data.length))

/-- What a call that went through leaves behind: the data in the ring, and one packet with what the
buffer holds. -/
def delivered (tcp : Connection V) (written : Nat → V) (unack next : Nat) (sent : List V)
    (header : Header) : Connection V :=
  { tcp.cleanData with
    payload := sent
    sendWindow := .held written
    send := { tcp.send with unack := unack, next := next } }.networkSend header

theorem tcpSendPacket_exists (header : tcp.header.isSome) :
    ∃ header, header.seq = tcp.cur.seq ∧
      tcp.tcpSendPacket { Flags.none with psh := true, ack := true } 0 =
        .ok (tcp.networkSend header) := by
  obtain ⟨header, found⟩ := Option.isSome_iff_exists.mp header
  unfold tcpSendPacket getHeader
  rw [found]
  exact ⟨_, rfl, rfl⟩

/-- A call with room goes through. -/
theorem tcpSendData_exists (window : tcp.sendWindow = .held bytes) (ring : tcp.Ring)
    (accepts : tcp.Accepts data.length) (header : tcp.header.isSome)
    (room : tcp.send.unack < tcp.send.next ∨ tcp.send.next + data.length ≤ tcp.send.totalSize) :
    ∃ written unack next header, unack < tcp.send.totalSize ∧ next < tcp.send.totalSize ∧
      header.seq = tcp.cur.seq ∧ tcp.tcpSendData data =
        .ok (.ok, tcp.delivered written unack next (tcp.outgoing bytes data) header) ∧
      ∀ cell < tcp.send.totalSize,
        written cell = afterPut bytes tcp.send.totalSize tcp.send.next data cell := by
  have positive := accepts.pos
  obtain ⟨written, stored, cells⟩ := putWindow_held window ring accepts room
  obtain ⟨small, back⟩ := used_spec ring positive
  have put : tcp.putData data = .ok { tcp with
      sendWindow := .held written
      send := { tcp.send with
        next := (tcp.send.next + data.length) % tcp.send.totalSize } } :=
    bind_eq_ok.mpr ⟨_, stored, rfl⟩
  have inside : Ring { tcp with
      sendWindow := .held written
      send := { tcp.send with
        next := (tcp.send.next + data.length) % tcp.send.totalSize } } :=
    fun _ => ⟨(ring positive).1, mod_lt _ positive⟩
  have distance : (tcp.send.unack + (tcp.usedSpace + data.length)) % tcp.send.totalSize =
      (tcp.send.next + data.length) % tcp.send.totalSize := by
    rw [← add_assoc, ← mod_add_mod (tcp.send.unack + tcp.usedSpace), back]
  have fits := accepts.2
  obtain ⟨unack, next, unackLt, nextLt, took⟩ := takeData_held (by rfl) inside
    (Nat.add_pos_right tcp.usedSpace accepts.1) (by dsimp only; omega) distance
  have same : Window.inOrder written tcp.send.totalSize tcp.send.unack
      (min (min tcp.mss tcp.send.window) (tcp.usedSpace + data.length)) =
        tcp.outgoing bytes data :=
    map_congr_left fun i _ => cells _ (mod_lt _ positive)
  dsimp only at took
  rw [same] at took
  obtain ⟨header', seq, sent⟩ := @tcpSendPacket_exists V { tcp.cleanData with
    payload := tcp.outgoing bytes data
    sendWindow := .held written
    send := { tcp.send with unack := unack, next := next } } header
  refine ⟨written, unack, next, header', unackLt, nextLt, seq, ?_, cells⟩
  rw [tcpSendData_accepted accepts]
  exact bind_eq_ok.mpr ⟨_, put, bind_eq_ok.mpr ⟨_, took, bind_eq_ok.mpr ⟨_, sent, rfl⟩⟩⟩

/-- With the positions in place, `used` counts the bytes from the current sequence number on. -/
theorem usedSpace_eq {acked : Nat} (ring : tcp.Ring) (pos : 0 < tcp.send.totalSize)
    (next : tcp.send.next = submitted % tcp.send.totalSize)
    (unack : tcp.send.unack = acked % tcp.send.totalSize) (le : acked ≤ submitted)
    (recent : submitted < acked + tcp.send.totalSize) : tcp.usedSpace = submitted - acked := by
  obtain ⟨small, back⟩ := used_spec ring pos
  rw [unack, next, mod_add_mod] at back
  have same : acked + tcp.usedSpace ≡ acked + (submitted - acked) [MOD tcp.send.totalSize] := by
    rw [Nat.add_sub_cancel' le]
    exact back
  have rest := Nat.ModEq.add_left_cancel' acked same
  exact Nat.ModEq.eq_of_lt_of_lt rest small (by omega)

/-- The content of the ring and the positions make the outgoing bytes right. -/
theorem Placed.outgoing_right (placed : tcp.Placed submitted length)
    (inv : SendInv stream submitted tcp) (window : tcp.sendWindow = .held bytes)
    (accepts : tcp.Accepts length) :
    RightAt tcp.send.iss stream (submitted + length) tcp.cur.seq
      (tcp.outgoing bytes (submission stream submitted length)) := by
  have pos := accepts.pos
  have some := accepts.1
  have fits : length ≤ tcp.send.totalSize := accepts.2.trans (Nat.sub_le _ _)
  obtain ⟨acked, le, recent, seq, unack⟩ := placed.unack
  have used := usedSpace_eq inv.ring pos placed.next unack le (by omega)
  intro i byte there
  have lt : i < submitted - acked + length := by
    have bound := (List.getElem?_eq_some_iff.mp there).1
    simp only [outgoing, Window.inOrder, length_map, length_range, submission_length, used] at bound
    omega
  have cell : (tcp.send.unack + i) % tcp.send.totalSize = (acked + i) % tcp.send.totalSize := by
    rw [unack, mod_add_mod]
  have value : byte = stream (acked + i) := by
    have bound := (List.getElem?_eq_some_iff.mp there).1
    simp only [outgoing, Window.inOrder, length_map, length_range] at bound
    simp only [outgoing, Window.inOrder, getElem?_map, getElem?_range bound, Option.map_some,
      Option.some.injEq] at there
    rw [← there, cell, placed.next]
    exact Window.afterPut_stream pos fits
      (fun old => inv.content bytes window _ old (by omega)) (by omega) (by omega)
  refine ⟨acked + i, ⟨by omega, ?_⟩, value⟩
  rw [seq]
  unfold add32
  omega

/-- The step lemma for calls: with the positions in place a call returns, sends the right bytes, and
keeps the invariant. -/
theorem Placed.step (placed : tcp.Placed submitted length) (inv : SendInv stream submitted tcp)
    (accepts : tcp.Accepts length) : ∃ next,
      tcp.tcpSendData (submission stream submitted length) = .ok (.ok, next) ∧
      SendInv stream (submitted + length) next ∧
      ∀ packet ∈ tcp.newPackets next, packet.Right tcp.send.iss stream (submitted + length) := by
  obtain ⟨bytes, window⟩ := placed.held
  have accepts' : tcp.Accepts (submission stream submitted length).length := by
    rwa [submission_length]
  have room := placed.room
  rw [← submission_length stream submitted length] at room
  obtain ⟨written, unack, next, header, unackLt, nextLt, seq, run, cells⟩ :=
    tcpSendData_exists window inv.ring accepts' placed.header room
  have right := placed.outgoing_right inv window accepts
  have pos := accepts.pos
  have fits : length ≤ tcp.send.totalSize := accepts.2.trans (Nat.sub_le _ _)
  refine ⟨_, run, ⟨fun _ => ⟨unackLt, nextLt⟩, ?_, right, inv.state⟩, ?_⟩
  · intro bytes' held k old recent
    cases held
    change submitted + length ≤ k + tcp.send.totalSize at recent
    show written (k % tcp.send.totalSize) = stream k
    rw [cells _ (mod_lt _ pos), placed.next]
    exact Window.afterPut_stream pos fits
      (fun before => inv.content bytes window k before (by omega)) old recent
  · have appended : (tcp.delivered written unack next (tcp.outgoing bytes
        (submission stream submitted length)) header).sent = tcp.sent ++ [⟨header, 0, tcp.outgoing
          bytes (submission stream submitted length)⟩] := rfl
    rw [newPackets, appended, drop_left]
    simp only [mem_singleton, forall_eq, Packet.Right, seq]
    exact right

/-- The run lemma: sessions with the positions in place transmit the stream. -/
theorem SendInv.alwaysRight (events : List (SendEvent V)) (inv : SendInv stream submitted tcp)
    (placed : AlwaysPlaced stream tcp submitted events) :
    AlwaysRight stream tcp submitted events := by
  induction events generalizing tcp submitted with
  | nil => trivial
  | cons event rest ih =>
    -- Everything but a call keeps the invariant by itself.
    have heard : ∀ event : SendEvent V,
        (∀ next, tcp.hear event = .ok next → AlwaysPlaced stream next submitted rest) →
        ∀ next, tcp.hear event = .ok next →
          (∀ packet ∈ tcp.newPackets next, packet.Right tcp.send.iss stream submitted) ∧
          AlwaysRight stream next submitted rest := by
      intro event later next run
      have good := hear_good inv run
      exact ⟨good.2.newPackets_right, ih good.1 (later next run)⟩
    cases event with
    | timeout => exact heard .timeout placed
    | segment arrived iss => exact heard (.segment arrived iss) placed
    | send length =>
      by_cases accepts : tcp.Accepts length
      · obtain ⟨next, run, kept, right⟩ := (placed.1 accepts).step inv accepts
        have later := placed.2 _ run
        have count : submittedAfter submitted length .ok = submitted + length := if_pos rfl
        rw [count] at later
        refine ⟨_, run, ?_, ?_⟩
        · rw [count]
          exact right
        · rw [count]
          exact ih kept later
      · have refused : ¬ tcp.Accepts (submission stream submitted length).length := by
          rwa [submission_length]
        obtain ⟨result, failed, run⟩ := tcpSendData_refused refused
        have count : submittedAfter submitted length result = submitted := if_neg failed
        have later := placed.2 _ run
        rw [count] at later
        refine ⟨_, run, ?_, ?_⟩
        · simp [newPackets]
        · rw [count]
          exact ih inv later

end Steps

end Connection

/-- A connection at the end of the handshake, with a cleaned buffer. `memory` is what `kmalloc`
finds for the send window. -/
structure Opening (V : Type) where
  tcp : Connection V
  established : tcp.state = .established
  cleaned : tcp.payload = []
  memory : Option (Nat → V)

namespace Opening

def start (opening : Opening V) : Connection V :=
  (opening.tcp.handshakeEnd opening.memory).2

theorem start_inv (opening : Opening V) (stream : Nat → V) :
    Connection.SendInv stream 0 opening.start := by
  unfold start handshakeEnd
  rw [if_neg (not_not.mpr opening.established)]
  refine ⟨fun pos => ⟨pos, pos⟩, fun _ _ k none => absurd none (not_lt_zero k), ?_,
    .inl opening.established⟩
  rw [opening.cleaned]
  exact rightAt_nil _ _ _ _

/-- Over every session: when each call that takes data finds the positions in place, every packet
carries the bytes of the stream that its sequence numbers name, the first time and whenever it is
sent again. -/
theorem transmits_stream (opening : Opening V) (stream : Nat → V) (events : List (SendEvent V))
    (placed : Connection.AlwaysPlaced stream opening.start 0 events) :
    Connection.AlwaysRight stream opening.start 0 events :=
  (opening.start_inv stream).alwaysRight events placed

/-- A connection that has just been opened with `iss` 100, a segment size of 1460 and a window of
4096 bytes on the other side. -/
def justOpened : Connection UInt8 :=
  { tcpRegister 1500 with
    state := .established
    connState := .opened
    bound := true
    header := some ⟨100, 500, 80, { Flags.none with ack := true }, 32768⟩
    mss := 1460
    send := ⟨0, 0, 0, 0, 0, 100, 0, 4096⟩
    cur := ⟨101, 500, 0⟩ }

def opened : Opening UInt8 := ⟨justOpened, rfl, rfl, some fun _ => 0⟩

/-- The stream of the examples: its bytes count up. -/
def counting (k : Nat) : UInt8 := UInt8.ofNat k

/-- Three bytes are sent, and sent again after a timeout. -/
theorem transmits_stream_again :
    Connection.AlwaysRight counting opened.start 0 [.send 3, .timeout] := by
  refine opened.transmits_stream counting _ ⟨fun _ => ?_, fun done _ next _ => trivial⟩
  refine ⟨rfl, ⟨_, rfl⟩, .inr (by decide), by decide, 0, le_refl _, by decide, by decide, by decide⟩

/-- Two bytes submitted one after the other, without an acknowledgement in between. -/
def twoCalls : List (SendEvent UInt8) := [.send 1, .send 1]

/-- The second byte goes out with the sequence number of the first: `unack` has moved with the first
packet, and the sequence number has not. -/
theorem second_byte_at_first_number :
    ¬ Connection.AlwaysRight counting opened.start 0 twoCalls := by
  rintro ⟨first, run, _, second, again, right, _⟩
  cases run
  cases again
  -- The packet says 101, which is the number of byte 0, and carries byte 1.
  obtain ⟨k, ⟨early, number⟩, value⟩ := right _ (mem_singleton_self _) 0 1 rfl
  have two : k < 2 := early
  interval_cases k
  · exact absurd value (by decide)
  · exact absurd number (by decide)

end Opening

end Horizon.Tcp
