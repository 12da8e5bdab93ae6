import Horizon.Verif.TcpSend
import Horizon.Verif.TcpWindows
/-!
# What a connection delivers

Segments may be lost, repeated, reordered or cut in another way. The data of a segment goes into the
ring at `next` whatever its sequence number is. So the calls return the stream in order as long as
each segment that is taken in continues it and finds room, and `read` has not left the ring.
-/

namespace Horizon.Tcp

open Runs List Nat Window

/-- A piece of the other side's stream on its way: the bytes from `start` on, with what the header
says besides the sequence number. -/
structure Delivery where
  start : Nat
  length : Nat
  flags : Flags
  ack : Nat
  windowSize : Nat
  dataOffset : Nat
  options : Nat → Nat

/-- What a receiver's session consists of: segments that arrive, and calls that receive. -/
inductive RecvEvent where
  | deliver (delivery : Delivery)
  | recv (length : Nat)

variable {V : Type}

/-- The segment of a delivery, when the stream's first byte has the number `irs + 1`. -/
def Delivery.segment (delivery : Delivery) (irs : Nat) (stream : Nat → V) : Segment V where
  flags := delivery.flags
  seq := add32 (irs + 1) delivery.start
  ack := delivery.ack
  windowSize := delivery.windowSize
  dataOffset := delivery.dataOffset
  options := delivery.options
  payload := submission stream delivery.start delivery.length

namespace Connection

/-- A segment arrives. -/
def arrive (stream : Nat → V) (tcp : Connection V) (delivery : Delivery) :
    Except Fault (Connection V) :=
  tcp.tcpRxHandler (delivery.segment tcp.recv.irs stream) 0

/-- A call that comes after `delivered` bytes returns the next ones of the stream. A call must come
back; the session is over when the kernel stops elsewhere. -/
def AlwaysPrefix (stream : Nat → V) : Connection V → Nat → List RecvEvent → Prop
  | _, _, [] => True
  | tcp, delivered, .deliver delivery :: rest =>
    ∀ next, tcp.arrive stream delivery = .ok next → AlwaysPrefix stream next delivered rest
  | tcp, delivered, .recv length :: rest =>
    ∃ done, tcp.tcpRecvData length = .ok done ∧
      done.2.1 = submission stream delivered done.2.1.length ∧
      AlwaysPrefix stream done.2.2 (delivered + done.2.1.length) rest

/-- The connection puts the data of the segment into its ring: it is established, the segment is no
reset, and there is a window. -/
def takesIn (tcp : Connection V) (delivery : Delivery) : Bool :=
  tcp.state = .established && !delivery.flags.rst &&
    match tcp.recvWindow with
    | .null => false
    | _ => true

/-- The bytes of the stream taken in so far, after one more delivery. -/
def takenAfter (tcp : Connection V) (taken : Nat) (delivery : Delivery) : Nat :=
  if tcp.takesIn delivery then taken + delivery.length else taken

/-- The condition on a delivery, when `taken` bytes were taken in and `delivered` of them returned:
data that is taken in continues the stream, and fits with what was not returned yet. -/
def Continues (tcp : Connection V) (taken delivered : Nat) (delivery : Delivery) : Prop :=
  tcp.takesIn delivery → 0 < delivery.length →
    delivery.start = taken ∧ taken + delivery.length < delivered + tcp.recv.totalSize

/-- The condition on a call: it asks for nothing, or `read` is in the ring, and there is nothing to
read or the connection was not closed. -/
def Readable (tcp : Connection V) (length : Nat) : Prop :=
  length = 0 ∨ tcp.recv.read ≤ tcp.recv.totalSize ∧
    (tcp.recv.read = tcp.recv.next ∨ tcp.state ≠ .closed)

/-- Every delivery continues the stream, and every call finds the ring readable. -/
def AlwaysContinues (stream : Nat → V) : Connection V → Nat → Nat → List RecvEvent → Prop
  | _, _, _, [] => True
  | tcp, taken, delivered, .deliver delivery :: rest =>
    tcp.Continues taken delivered delivery ∧ ∀ next, tcp.arrive stream delivery = .ok next →
      AlwaysContinues stream next (tcp.takenAfter taken delivery) delivered rest
  | tcp, taken, delivered, .recv length :: rest =>
    tcp.Readable length ∧ ∀ done, tcp.tcpRecvData length = .ok done →
      AlwaysContinues stream done.2.2 taken (delivered + done.2.1.length) rest

/-- The ring holds the bytes taken in and not returned yet, each in its cell; without a window
nothing was taken in. -/
def Holding (stream : Nat → V) (taken delivered : Nat) (tcp : Connection V) : Prop :=
  tcp.recvWindow = .null ∧ taken = 0 ∧ delivered = 0 ∨
    ∃ bytes, tcp.recvWindow = .held bytes ∧ ∀ k, delivered ≤ k → k < taken →
      bytes (k % tcp.recv.totalSize) = stream k

/-- The invariant: the positions of the ring are those of the stream, less than a ring is unread,
the handshake is over, and until the connection is closed the ring holds what is unread. -/
structure RecvInv (stream : Nat → V) (taken delivered : Nat) (tcp : Connection V) : Prop where
  total : 0 < tcp.recv.totalSize ∧ tcp.recv.totalSize < 2 ^ 32
  next : tcp.recv.next = taken % tcp.recv.totalSize
  read : tcp.recv.read = delivered
  ordered : delivered ≤ taken
  unread : taken < delivered + tcp.recv.totalSize
  state : tcp.state = .established ∨ tcp.state = .closeWait ∨ tcp.state = .closed
  holding : tcp.state ≠ .closed → Holding stream taken delivered tcp

section Steps

variable {stream : Nat → V} {tcp next : Connection V} {segment : Segment V}
  {taken delivered : Nat}

/-- The step keeps the ring, and may close the connection. -/
structure KeepsRing (before after : Connection V) : Prop where
  recv : after.recv = before.recv
  window : after.recvWindow = before.recvWindow
  state : after.state = before.state

theorem KeepsRing.inv (kept : KeepsRing tcp next) (inv : RecvInv stream taken delivered tcp) :
    RecvInv stream taken delivered next := by
  obtain ⟨recv, window, state⟩ := kept
  refine ⟨recv ▸ inv.total, recv ▸ inv.next, recv ▸ inv.read, inv.ordered, recv ▸ inv.unread,
    state ▸ inv.state, fun opened => ?_⟩
  unfold Holding
  rw [recv, window]
  exact inv.holding (state ▸ opened)

/-- Sending does not touch the ring. -/
theorem tcpSendPacket_keepsRing {flags : Flags} {optionSize : Nat}
    (run : tcp.tcpSendPacket flags optionSize = .ok next) : KeepsRing tcp next := by
  obtain ⟨header, _, done⟩ := bind_eq_ok.mp run
  cases done
  split_ifs <;> exact ⟨rfl, rfl, rfl⟩

/-- A closed connection keeps its positions; nothing is said about its window. -/
theorem RecvInv.closed (inv : RecvInv stream taken delivered tcp) (same : next.recv = tcp.recv)
    (state : next.state = .closed) : RecvInv stream taken delivered next where
  total := same ▸ inv.total
  next := same ▸ inv.next
  read := same ▸ inv.read
  ordered := inv.ordered
  unread := same ▸ inv.unread
  state := .inr (.inr state)
  holding opened := absurd state opened

theorem tcpResetConn_recv (inv : RecvInv stream taken delivered tcp)
    (run : tcp.tcpResetConn = .ok next) : RecvInv stream taken delivered next := by
  obtain ⟨header, _, run⟩ := bind_eq_ok.mp run
  obtain ⟨sendWindow, _, run⟩ := bind_eq_ok.mp run
  obtain ⟨recvWindow, _, done⟩ := bind_eq_ok.mp run
  cases done
  exact inv.closed rfl rfl

/-- The data of a segment that continues the stream goes into the ring behind what is unread. -/
theorem takeSegment_held {bytes : Nat → V} {length : Nat} (inv : RecvInv stream taken delivered tcp)
    (window : tcp.recvWindow = .held bytes)
    (holds : ∀ k, delivered ≤ k → k < taken → bytes (k % tcp.recv.totalSize) = stream k)
    (room : taken + length < delivered + tcp.recv.totalSize)
    (run : tcp.takeSegment (submission stream taken length) = .ok next) :
    RecvInv stream (taken + length) delivered next ∧ next.state = tcp.state := by
  have ordered := inv.ordered
  have pos := inv.total.1
  have bound : tcp.recv.next < tcp.recv.totalSize := inv.next ▸ mod_lt _ pos
  unfold takeSegment at run
  rw [window] at run
  dsimp only at run
  obtain ⟨written, stored, cells⟩ := storeAround_cells bytes bound
    (show (submission stream taken length).length ≤ _ by rw [submission_length]; omega)
  rw [submission_length] at run stored
  rw [Nat.min_comm (tcp.recv.totalSize - tcp.recv.next), stored] at run
  cases run
  refine ⟨⟨inv.total, ?_, inv.read, by omega, room, inv.state, fun _ => .inr ⟨written, rfl, ?_⟩⟩,
    rfl⟩
  · show (tcp.recv.next + length) % tcp.recv.totalSize = _
    rw [inv.next, mod_add_mod]
  · intro k low high
    show written (k % tcp.recv.totalSize) = stream k
    rw [cells _ (mod_lt _ pos), inv.next]
    exact afterPut_stream pos (by omega) (fun old => holds k low old) high (by omega)

theorem advance_keepsRing (acked number : Nat) : KeepsRing tcp (tcp.advance acked number) :=
  ⟨rfl, rfl, rfl⟩

/-- An acknowledgement does not touch the ring. -/
theorem acceptAck_keepsRing (run : tcp.acceptAck segment = .ok next) : KeepsRing tcp next := by
  unfold acceptAck at run
  by_cases same : sub32 segment.ack tcp.send.wl2 = 0
  · rw [if_pos same] at run
    cases run
    exact ⟨rfl, rfl, rfl⟩
  · rw [if_neg same] at run
    by_cases empty : tcp.send.totalSize = 0
    · rw [if_pos empty] at run
      cases run
    · rw [if_neg empty, Except.ok.injEq] at run
      exact run ▸ advance_keepsRing _ _

/-- Without data the first half of `tcp_ack_handler` does nothing; else the data is taken in, if
there is a window. -/
theorem acceptData_recv (inv : RecvInv stream taken delivered tcp)
    (established : tcp.state = .established) {delivery : Delivery}
    (plain : delivery.flags.rst = false) (continues : tcp.Continues taken delivered delivery)
    (run : tcp.acceptData (delivery.segment tcp.recv.irs stream) = .ok next) :
    RecvInv stream (tcp.takenAfter taken delivery) delivered next ∧ next.state = tcp.state := by
  have holding := inv.holding (by simp [established])
  unfold acceptData at run
  by_cases empty : delivery.length = 0
  · have none : (delivery.segment tcp.recv.irs stream).payload = [] := by
      simp [Delivery.segment, submission, empty]
    rw [if_pos none] at run
    cases run
    have same : tcp.takenAfter taken delivery = taken := by simp [takenAfter, empty]
    rw [same]
    exact ⟨inv, rfl⟩
  · have data : (delivery.segment tcp.recv.irs stream).payload ≠ [] := by
      intro none
      have zero := congrArg List.length none
      simp only [Delivery.segment, submission_length, length_nil] at zero
      exact empty zero
    rw [if_neg data] at run
    obtain ⟨stored, took, acked⟩ := bind_eq_ok.mp run
    have kept : KeepsRing stored next := by
      have kept := tcpSendPacket_keepsRing acked
      exact ⟨kept.recv, kept.window, kept.state⟩
    rcases holding with ⟨window, zero, none⟩ | ⟨bytes, window, holds⟩
    · have same : tcp.takenAfter taken delivery = taken := by simp [takenAfter, takesIn, window]
      unfold takeSegment at took
      rw [window] at took
      cases took
      rw [same]
      exact ⟨kept.inv inv, kept.state⟩
    · have takes : tcp.takesIn delivery = true := by simp [takesIn, established, plain, window]
      have more : tcp.takenAfter taken delivery = taken + delivery.length := if_pos takes
      obtain ⟨start, room⟩ := continues takes (Nat.pos_of_ne_zero empty)
      simp only [Delivery.segment, start] at took
      obtain ⟨after, state⟩ := takeSegment_held inv window holds room took
      rw [more]
      exact ⟨kept.inv after, kept.state.trans state⟩

/-- A segment that continues the stream keeps the invariant. -/
theorem arrive_recv (inv : RecvInv stream taken delivered tcp) {delivery : Delivery}
    (continues : tcp.Continues taken delivered delivery)
    (run : tcp.arrive stream delivery = .ok next) :
    RecvInv stream (tcp.takenAfter taken delivery) delivered next := by
  have flags : (delivery.segment tcp.recv.irs stream).flags = delivery.flags := rfl
  have ignored : tcp.takesIn delivery = false → tcp.takenAfter taken delivery = taken := by
    intro refused
    simp [takenAfter, refused]
  unfold arrive tcpRxHandler at run
  rw [flags] at run
  dsimp only at run
  split at run
  · cases run
  rename_i log _
  by_cases rst : delivery.flags.rst = true
  · rw [if_pos rst] at run
    rw [ignored (by simp [takesIn, rst])]
    have closed : RecvInv stream taken delivered
        { tcp with state := .closed, connState := .closed } := inv.closed rfl rfl
    exact tcpResetConn_recv closed run
  · rw [if_neg rst] at run
    unfold rxByState at run
    rcases inv.state with state | state | state
    · rw [state] at run
      obtain ⟨handled, acked, rest⟩ := bind_eq_ok.mp run
      obtain ⟨accepted, data, ack⟩ := bind_eq_ok.mp acked
      obtain ⟨first, same⟩ := acceptData_recv inv state (by simpa using rst) continues data
      have kept := acceptAck_keepsRing ack
      have second := kept.inv first
      rw [flags] at rest
      split_ifs at rest with fin
      · have sent := tcpSendPacket_keepsRing rest
        refine sent.inv ⟨second.total, second.next, second.read, second.ordered, second.unread,
          .inr (.inl rfl), fun _ => ?_⟩
        exact second.holding (by rw [kept.state, same, state]; decide)
      · cases rest
        exact second
    all_goals
      rw [state] at run
      rw [ignored (by simp [takesIn, state])]
      exact tcpResetConn_recv inv run

variable {bytes : List V} {count length : Nat}

theorem sub32_of_le {read total : Nat} (le : read ≤ total) (bound : total < 2 ^ 32) :
    sub32 total read = total - read := by
  unfold sub32
  have sum : total + 2 ^ 32 - read = total - read + 2 ^ 32 := by omega
  rw [sum, add_mod_right, mod_eq_of_lt (by omega)]

/-- With `read` in the ring a call returns what is unread, as far as it has room. -/
theorem takeReceived_held {bytes : Nat → V} (length : Nat)
    (inv : RecvInv stream taken delivered tcp) (window : tcp.recvWindow = .held bytes)
    (inside : tcp.recv.read ≤ tcp.recv.totalSize) :
    tcp.takeReceived length = .ok (inOrder bytes tcp.recv.totalSize tcp.recv.read
      (min length (taken - delivered))) := by
  have total := inv.total
  have ordered := inv.ordered
  have unread := inv.unread
  have read := inv.read
  have place := inv.next
  unfold takeReceived
  rw [window]
  -- The ring has wrapped once the stream is longer than it.
  by_cases short : taken < tcp.recv.totalSize
  · rw [mod_eq_of_lt short] at place
    have size : min length (tcp.recv.next - tcp.recv.read) = min length (taken - delivered) := by
      rw [place, read]
    rw [if_pos (by omega), size]
    exact load_inOrder (by omega)
  · have wrapped : tcp.recv.next = taken - tcp.recv.totalSize := by
      rw [place, mod_eq_sub_mod (by omega), mod_eq_of_lt (by omega)]
    rw [if_neg (by omega)]
    dsimp only
    rw [sub32_of_le inside total.2]
    have size : min length (taken - delivered) =
        min length (tcp.recv.totalSize - tcp.recv.read) +
          min (length - min length (tcp.recv.totalSize - tcp.recv.read)) tcp.recv.next := by omega
    rw [size]
    exact loadAround_inOrder (by omega) (by omega) (by omega)

/-- A call that has nothing to copy looks at no window. -/
theorem takeReceived_nothing (nothing : length = 0 ∨ tcp.recv.read = tcp.recv.next) :
    tcp.takeReceived length = .ok [] := by
  unfold takeReceived
  rcases nothing with rfl | same
  · split_ifs <;> simp [load, loadAround, ok_bind, pure_ok]
  · rw [if_pos same.le]
    simp [load, same]

/-- The connection after a call that returned `count` bytes. -/
def afterRead (tcp : Connection V) (count : Nat) : Connection V :=
  { tcp with recv := { tcp.recv with read := tcp.recv.read + count } }

theorem tcpRecvData_of_take (took : tcp.takeReceived length = .ok bytes) :
    ∃ result, tcp.tcpRecvData length = .ok (result, bytes, tcp.afterRead bytes.length) :=
  ⟨_, bind_eq_ok.mpr ⟨bytes, took, rfl⟩⟩

theorem afterRead_inv (inv : RecvInv stream taken delivered tcp) (le : count ≤ taken - delivered) :
    RecvInv stream taken (delivered + count) (tcp.afterRead count) := by
  have ordered := inv.ordered
  have unread := inv.unread
  refine ⟨inv.total, inv.next, ?_, by omega, ?_, inv.state, fun opened => ?_⟩
  · show tcp.recv.read + count = _
    rw [inv.read]
  · show taken < delivered + count + tcp.recv.totalSize
    omega
  · rcases inv.holding opened with ⟨window, none, zero⟩ | ⟨bytes, window, holds⟩
    · exact .inl ⟨window, none, by omega⟩
    · exact .inr ⟨bytes, window, fun k low => holds k (by omega)⟩

/-- The step lemma for calls: a call on a readable ring returns the next bytes of the stream. -/
theorem recv_step (inv : RecvInv stream taken delivered tcp) (ready : tcp.Readable length) :
    ∃ result count, tcp.tcpRecvData length =
        .ok (result, submission stream delivered count, tcp.afterRead count) ∧
      RecvInv stream taken (delivered + count) (tcp.afterRead count) := by
  have empty : tcp.takeReceived length = .ok [] → ∃ result count, tcp.tcpRecvData length =
        .ok (result, submission stream delivered count, tcp.afterRead count) ∧
      RecvInv stream taken (delivered + count) (tcp.afterRead count) := by
    intro nothing
    obtain ⟨result, run⟩ := tcpRecvData_of_take nothing
    exact ⟨result, 0, by simpa [submission] using run, afterRead_inv inv (Nat.zero_le _)⟩
  rcases ready with none | ⟨inside, same | opened⟩
  · exact empty (takeReceived_nothing (.inl none))
  · exact empty (takeReceived_nothing (.inr same))
  · rcases inv.holding opened with ⟨_, zero, none⟩ | ⟨bytes, window, holds⟩
    · have same : tcp.recv.read = tcp.recv.next := by
        rw [inv.read, inv.next, zero, none, zero_mod]
      exact empty (takeReceived_nothing (.inr same))
    · have took := takeReceived_held length inv window inside
      obtain ⟨result, run⟩ := tcpRecvData_of_take took
      have stream_eq : inOrder bytes tcp.recv.totalSize tcp.recv.read
          (min length (taken - delivered)) =
            submission stream delivered (min length (taken - delivered)) := by
        refine map_congr_left fun i member => ?_
        have lt := mem_range.mp member
        rw [inv.read]
        exact holds _ (by omega) (by omega)
      rw [stream_eq, submission_length] at run
      exact ⟨result, _, run, afterRead_inv inv (min_le_right _ _)⟩

/-- The run lemma: sessions that continue the stream return it in order. -/
theorem RecvInv.alwaysPrefix (events : List RecvEvent) (inv : RecvInv stream taken delivered tcp)
    (continues : AlwaysContinues stream tcp taken delivered events) :
    AlwaysPrefix stream tcp delivered events := by
  induction events generalizing tcp taken delivered with
  | nil => trivial
  | cons event rest ih =>
    cases event with
    | deliver delivery =>
      intro next run
      exact ih (arrive_recv inv continues.1 run) (continues.2 next run)
    | recv length =>
      obtain ⟨result, count, run, kept⟩ := recv_step inv continues.1
      have later := continues.2 _ run
      rw [submission_length] at later
      refine ⟨_, run, ?_, ?_⟩
      · rw [submission_length]
      · rw [submission_length]
        exact ih kept later

end Steps

end Connection

/-- A connection at the end of the handshake, with the ring as `tcp_bind` and `tcp_listen` leave it.
`memory` is what `kmalloc` found for the window. -/
structure Receiving (V : Type) where
  tcp : Connection V
  established : tcp.state = .established
  irs : Nat
  window : Nat
  memory : Option (Nat → V)

namespace Receiving

def start (receiving : Receiving V) : Connection V :=
  { receiving.tcp with
    recv := ⟨0, receiving.window, receiving.irs, windowDefaultSize, 0⟩
    recvWindow := .kmalloc receiving.memory }

theorem start_inv (receiving : Receiving V) (stream : Nat → V) :
    Connection.RecvInv stream 0 0 receiving.start := by
  refine ⟨?_, rfl, rfl, le_refl _, ?_, .inl receiving.established, fun _ => ?_⟩
  · exact (by decide : 0 < windowDefaultSize ∧ windowDefaultSize < 2 ^ 32)
  · exact (by decide : 0 < 0 + windowDefaultSize)
  · unfold start Window.kmalloc
    cases receiving.memory with
    | none => exact .inl ⟨rfl, rfl, rfl⟩
    | some bytes => exact .inr ⟨bytes, rfl, fun k _ none => absurd none (not_lt_zero k)⟩

/-- Over every session: when the segments that are taken in continue the stream and find room, and
the calls find `read` in the ring, the calls return a prefix of the stream, each byte once. -/
theorem returns_prefix (receiving : Receiving V) (stream : Nat → V) (events : List RecvEvent)
    (continues : Connection.AlwaysContinues stream receiving.start 0 0 events) :
    Connection.AlwaysPrefix stream receiving.start 0 events :=
  (receiving.start_inv stream).alwaysPrefix events continues

/-- The connection of the sender's example, when the other side's first byte has the number 500. -/
def received : Receiving UInt8 := ⟨Opening.opened.start, rfl, 499, 32768, some fun _ => 0⟩

/-- A segment with bytes of the stream. -/
def piece (start length : Nat) : Delivery :=
  ⟨start, length, { Flags.none with psh := true, ack := true }, 101, 4096, 80, fun _ => 0⟩

/-- Three bytes arrive in two segments, and are received in one call. -/
theorem returns_prefix_pieces : Connection.AlwaysPrefix Opening.counting received.start 0
    [.deliver (piece 0 2), .deliver (piece 2 1), .recv 5] := by
  refine received.returns_prefix Opening.counting _ ⟨fun _ _ => by decide, fun next run => ?_⟩
  cases run
  refine ⟨fun _ _ => by decide, fun next run => ?_⟩
  cases run
  exact ⟨.inr ⟨by decide, .inr (by decide)⟩, fun _ _ => trivial⟩

/-- The first byte arrives, arrives once more, and then two bytes are received. -/
def repeated : List RecvEvent := [.deliver (piece 0 1), .deliver (piece 0 1), .recv 2]

/-- The repeated segment is put behind the first, and the call returns its byte twice. -/
theorem byte_delivered_twice :
    ¬ Connection.AlwaysPrefix Opening.counting received.start 0 repeated := by
  intro right
  obtain ⟨done, run, inOrder, _⟩ := right _ rfl _ rfl
  cases run
  exact absurd inOrder (by decide)

end Receiving

end Horizon.Tcp
