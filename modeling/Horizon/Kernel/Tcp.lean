import Horizon.Kernel.TcpOptions
/-!
# TCP connections

The state machine of one connection with its send and receive windows
(`driver/network/protocols/tcp.c`). A window is a ring in memory from `kmalloc`; the model follows
the pointer to it, so that freeing it twice and touching it after it was freed are faults. `V`
stands for the bytes of the two streams. Timers are left out: a timeout may come at any time here.
-/

namespace Horizon.Tcp

/-- The states of a connection. -/
inductive TcpState where
  | listen
  | synSent
  | synReceived
  | established
  | finWait1
  | finWait2
  | closeWait
  | closing
  | lastAck
  | timeWait
  | closed
  deriving DecidableEq

/-- What the user sees of the connection. -/
inductive ConnState where
  | init
  | opening
  | opened
  | closing
  | closed
  | hostUnreachable
  | netUnreachable
  deriving DecidableEq

/-- The results of the calls. -/
inductive ProtocolResult where
  | ok
  | errorNullPtr
  | errorRebind
  | errorPortConflict
  | errorConnectFailed
  | errorNoSpaceLeft
  | errorNotConnected
  | errorNetUnreachable
  | errorHostUnreachable
  deriving DecidableEq

/-- What stops the kernel: memory freed twice or touched when freed, a null pointer, a copy that
leaves a window, a division by zero, or an endless loop. -/
inductive Fault where
  | doubleFree
  | useAfterFree
  | nullPointer
  | overrun
  | divideByZero
  | hang
  deriving DecidableEq

/-- The flags of a header that the code reads or sets. -/
structure Flags where
  fin : Bool
  syn : Bool
  rst : Bool
  psh : Bool
  ack : Bool
  deriving DecidableEq

def Flags.none : Flags := ⟨false, false, false, false, false⟩

/-- A pointer to a window: null, to memory that is allocated, or to memory that was freed. -/
inductive Window (V : Type) where
  | null
  | held (bytes : Nat → V)
  | freed

/-- What `kmalloc` returns: null when there is no memory, else memory with what it held before. -/
def Window.kmalloc {V : Type} : Option (Nat → V) → Window V
  | none => .null
  | some bytes => .held bytes

/-- The send side: positions in the ring, window and numbers. -/
structure SendSpace where
  unack : Nat
  next : Nat
  window : Nat
  wl1 : Nat
  wl2 : Nat
  iss : Nat
  totalSize : Nat
  remoteWindowSize : Nat
  deriving DecidableEq

/-- The receive side: positions in the ring, window and numbers. -/
structure RecvSpace where
  next : Nat
  window : Nat
  irs : Nat
  totalSize : Nat
  read : Nat
  deriving DecidableEq

/-- The numbers of the next segment. -/
structure Current where
  seq : Nat
  ack : Nat
  finSeq : Nat
  deriving DecidableEq

/-- The fields of a `TcpHeader` that the connection sets. -/
structure Header where
  seq : Nat
  ack : Nat
  dataOffset : Nat
  flags : Flags
  windowSize : Nat
  deriving DecidableEq

/-- A packet put on the network: the header, the number of option bytes in the buffer, and the
bytes of the stream behind them. -/
structure Packet (V : Type) where
  header : Header
  options : Nat
  payload : List V

/-- A `Tcp` with its `NetworkConnection`. `bound`: it is in `tcp_lh`; `waiting`: a caller waits for
the handshake; `options` and `payload` are the data area of its buffer; `sent` is what went out. -/
structure Connection (V : Type) where
  state : TcpState
  connState : ConnState
  bound : Bool
  waiting : Bool
  header : Option Header
  pmtu : Nat
  mss : Nat
  send : SendSpace
  sendWindow : Window V
  recv : RecvSpace
  recvWindow : Window V
  cur : Current
  retryTimes : Nat
  options : Nat
  payload : List V
  sent : List (Packet V)

/-- A received segment, as `tcp_rx_handler` gets it. -/
structure Segment (V : Type) where
  flags : Flags
  seq : Nat
  ack : Nat
  windowSize : Nat
  dataOffset : Nat
  options : Nat → Nat
  payload : List V

/-- `send_win_default_size` and `recv_win_default_size`. -/
def windowDefaultSize : Nat := 32768

def tcpMaxRetries : Nat := 15

def ipv4HeaderSize : Nat := 20

def sub32 (a b : Nat) : Nat := (a + 2 ^ 32 - b) % 2 ^ 32

def add32 (a b : Nat) : Nat := (a + b) % 2 ^ 32

namespace Window

variable {V : Type}

/-- `kfree` of a window; the pointer itself stays as it is. -/
def kfree : Window V → Except Fault (Window V)
  | .null => .ok .null
  | .held _ => .ok .freed
  | .freed => .error .doubleFree

def contents : Window V → Except Fault (Nat → V)
  | .null => .error .nullPointer
  | .held bytes => .ok bytes
  | .freed => .error .useAfterFree

/-- `memcpy` into a window of `total` bytes. -/
def store (window : Window V) (total start : Nat) (source : List V) : Except Fault (Window V) :=
  if source = [] then .ok window
  else
    match window.contents with
    | .error fault => .error fault
    | .ok bytes =>
      if start + source.length ≤ total then
        .ok (.held fun i => if start ≤ i then (source[i - start]?).getD (bytes i) else bytes i)
      else .error .overrun

/-- `memcpy` out of a window of `total` bytes. -/
def load (window : Window V) (total start count : Nat) : Except Fault (List V) :=
  if count = 0 then .ok []
  else
    match window.contents with
    | .error fault => .error fault
    | .ok bytes =>
      if start + count ≤ total then .ok ((List.range count).map fun i => bytes (start + i))
      else .error .overrun

/-- The two `memcpy` that write around the end of the ring: `size1` bytes at `start`, the rest at
the beginning. -/
def storeAround (window : Window V) (total start size1 : Nat) (source : List V) :
    Except Fault (Window V) := do
  let window ← window.store total start (source.take size1)
  window.store total 0 (source.drop size1)

/-- The two `memcpy` that read around the end of the ring. -/
def loadAround (window : Window V) (total start size1 size2 : Nat) : Except Fault (List V) := do
  let front ← window.load total start size1
  let back ← window.load total 0 size2
  return front ++ back

end Window

namespace Connection

variable {V : Type} (tcp : Connection V)

/-- `net_buffer_clean_data` on the connection's buffer. -/
def cleanData : Connection V := { tcp with options := 0, payload := [] }

def getHeader : Except Fault Header :=
  match tcp.header with
  | none => .error .nullPointer
  | some header => .ok header

/-- `NETWORK_SEND`: the header and the data area of the buffer. -/
def networkSend (header : Header) : Connection V :=
  { tcp with header := some header, sent := tcp.sent ++ [⟨header, tcp.options, tcp.payload⟩] }

/-- `tcp_send_packet`, with the flags that its caller has set in the header. -/
def tcpSendPacket (flags : Flags) (optionSize : Nat) : Except Fault (Connection V) := do
  let _ ← tcp.getHeader
  let header : Header :=
    { seq := tcp.cur.seq
      ack := tcp.cur.ack
      dataOffset := ((tcpHeaderSize + optionSize) >>> 2) <<< 4
      flags := flags
      windowSize := tcp.recv.window % 2 ^ 16 }
  let tcp := if flags.fin then { tcp with cur := { tcp.cur with finSeq := tcp.cur.seq } } else tcp
  return tcp.networkSend header

/-- `tcp_ack`. -/
def tcpAck (optionSize : Nat) (extraFlags : Flags) : Except Fault (Connection V) :=
  tcp.tcpSendPacket { extraFlags with ack := true } optionSize

/-- `tcp_reset_conn`. -/
def tcpResetConn : Except Fault (Connection V) := do
  let tcp := { tcp.cleanData with state := .closed, connState := .closed }
  let header ← tcp.getHeader
  let sendWindow ← tcp.sendWindow.kfree
  let recvWindow ← tcp.recvWindow.kfree
  return { tcp with sendWindow, recvWindow }.networkSend
    { header with flags := { Flags.none with rst := true }, ack := 0 }

/-- `tcp_bind`; `portFree`: no connection of the list conflicts with the port; `memory` is what
`kmalloc` finds. -/
def tcpBind (portFree : Bool) (memory : Option (Nat → V)) : ProtocolResult × Connection V :=
  if tcp.bound then (.errorRebind, tcp)
  else if !portFree then (.errorPortConflict, tcp)
  else
    (.ok, { tcp with
      bound := true
      mss := tcp.pmtu - ipv4HeaderSize - tcpHeaderSize
      cur := { tcp.cur with seq := 0, ack := 0 }
      state := .closed
      recvWindow := .kmalloc memory
      recv := { tcp.recv with
        next := 0
        window := windowDefaultSize
        totalSize := windowDefaultSize
        read := 0 } })

/-- The SYN of `tcp_connect`, up to the wait for the handshake. -/
def sendSyn (iss : Nat) : Connection V :=
  { tcp with
    send := { tcp.send with iss := iss }
    cur := { tcp.cur with seq := iss }
    options := tcp.options + 4
    state := .synSent
    connState := .opening
    waiting := true }.networkSend
      { seq := iss
        ack := 0
        dataOffset := ((tcpHeaderSize + 4) / 4) <<< 4
        flags := { Flags.none with syn := true }
        windowSize := tcp.recv.window % 2 ^ 16 }

/-- `tcp_connect` up to the wait, with the generated `iss`; when no port is free it goes on without
one. -/
def tcpConnect (portFree : Bool) (memory : Option (Nat → V)) (iss : Nat) :
    ProtocolResult × Connection V :=
  if tcp.state ≠ .closed then
    let bound := tcp.tcpBind portFree memory
    if bound.1 = .errorRebind then bound else (.ok, bound.2.sendSyn iss)
  else (.ok, tcp.sendSyn iss)

/-- `tcp_listen` up to the wait for the handshake. -/
def tcpListen (memory : Option (Nat → V)) : ProtocolResult × Connection V :=
  if tcp.state ≠ .closed then (.errorRebind, tcp)
  else
    (.ok, { tcp with
      header := some ⟨0, 0, 0, Flags.none, 0⟩
      mss := tcp.pmtu - ipv4HeaderSize - tcpHeaderSize
      cur := { tcp.cur with seq := 0, ack := 0 }
      state := .listen
      recvWindow := .kmalloc memory
      recv := { tcp.recv with
        next := 0
        window := windowDefaultSize
        totalSize := windowDefaultSize
        read := 0 }
      connState := .opening
      waiting := true })

/-- `tcp_handshake_finished`. -/
def handshakeFinished : Bool :=
  tcp.state = .established ∨ tcp.connState = .closed ∨ tcp.connState = .netUnreachable ∨
    tcp.connState = .hostUnreachable

/-- The end of `tcp_connect` and of `tcp_listen`, when the wait for the handshake is over. -/
def handshakeEnd (memory : Option (Nat → V)) : ProtocolResult × Connection V :=
  if tcp.state ≠ .established then (.errorConnectFailed, { tcp with waiting := false })
  else
    (.ok, { tcp with
      waiting := false
      send := { tcp.send with
        unack := 0
        next := 0
        wl1 := tcp.cur.ack
        wl2 := tcp.cur.seq
        totalSize := windowDefaultSize
        window := min windowDefaultSize tcp.send.remoteWindowSize }
      sendWindow := .kmalloc memory })

/-- The bytes between `unack` and `next` as `tcp_send_data` counts them. -/
def usedSpace : Nat :=
  if tcp.send.unack ≤ tcp.send.next then tcp.send.next - tcp.send.unack
  else tcp.send.next + tcp.send.totalSize - tcp.send.unack

/-- The copy of `tcp_send_data` into the ring behind `next`. Only the branch for a ring that does
not wrap looks at its end. -/
def putWindow (data : List V) : Except Fault (Window V) :=
  if tcp.send.unack < tcp.send.next then
    tcp.sendWindow.storeAround tcp.send.totalSize tcp.send.next
      (min data.length (tcp.send.totalSize - tcp.send.next)) data
  else tcp.sendWindow.store tcp.send.totalSize tcp.send.next data

/-- The first half of `tcp_send_data`: the data goes into the ring. -/
def putData (data : List V) : Except Fault (Connection V) := do
  let window ← tcp.putWindow data
  return { tcp with
    sendWindow := window
    send := { tcp.send with next := (tcp.send.next + data.length) % tcp.send.totalSize } }

/-- The second half of `tcp_send_data`: what lies behind `unack` goes into the buffer. In the branch
for a ring that wraps it is `next` that moves. -/
def takeData (used : Nat) : Except Fault (Connection V) :=
  let limit := min tcp.mss tcp.send.window
  let total := tcp.send.totalSize
  if tcp.send.unack < tcp.send.next then do
    let size := min limit used
    let payload ← tcp.sendWindow.load total tcp.send.unack size
    return { tcp.cleanData with
      payload := payload
      send := { tcp.send with unack := (tcp.send.unack + size) % total } }
  else do
    let size1 := min limit (total - tcp.send.unack)
    let size2 := min (min (limit - size1) tcp.send.next) (used - size1)
    let payload ← tcp.sendWindow.loadAround total tcp.send.unack size1 size2
    return { tcp.cleanData with
      payload := payload
      send := { tcp.send with next := (tcp.send.next + (size1 + size2)) % total } }

/-- `tcp_send_data`. -/
def tcpSendData (data : List V) : Except Fault (ProtocolResult × Connection V) :=
  if data = [] then .ok (.errorNullPtr, tcp)
  else if tcp.send.totalSize - tcp.usedSpace < data.length then .ok (.errorNoSpaceLeft, tcp)
  else do
    let filled ← tcp.putData data
    let taken ← filled.takeData (tcp.usedSpace + data.length)
    let tcp ← taken.tcpSendPacket { Flags.none with psh := true, ack := true } 0
    return (.ok, tcp)

/-- What a call of `tcp_recv_data` that copied nothing returns. -/
def emptyResult : ConnState → ProtocolResult
  | .init => .errorNotConnected
  | .opening => .errorNotConnected
  | .closed => .errorNotConnected
  | .netUnreachable => .errorNetUnreachable
  | .hostUnreachable => .errorHostUnreachable
  | _ => .ok

/-- What `tcp_recv_data` copies out of the ring. -/
def takeReceived (length : Nat) : Except Fault (List V) :=
  if tcp.recv.read ≤ tcp.recv.next then
    tcp.recvWindow.load tcp.recv.totalSize tcp.recv.read
      (min length (tcp.recv.next - tcp.recv.read))
  else
    let size1 := min length (sub32 tcp.recv.totalSize tcp.recv.read)
    let size2 := min (length - size1) tcp.recv.next
    tcp.recvWindow.loadAround tcp.recv.totalSize tcp.recv.read size1 size2

/-- `tcp_recv_data` with room for `length` bytes. In both branches `read` grows without a
modulus. -/
def tcpRecvData (length : Nat) : Except Fault (ProtocolResult × List V × Connection V) := do
  let bytes ← tcp.takeReceived length
  let result := if bytes = [] then emptyResult tcp.connState else .ok
  return (result, bytes,
    { tcp with recv := { tcp.recv with read := tcp.recv.read + bytes.length } })

/-- `tcp_half_close`. It waits while `unack` is below `next`, so that nothing has happened yet. -/
def tcpHalfClose : Except Fault (Connection V) :=
  if tcp.send.unack < tcp.send.next then .ok tcp
  else do
    let tcp := tcp.cleanData
    let _ ← tcp.getHeader
    let _ ← tcp.sendWindow.kfree
    let tcp := { tcp with
      state := .finWait1
      connState := .closing
      send := { tcp.send with window := 0 }
      sendWindow := .null }
    tcp.tcpSendPacket { Flags.none with fin := true, ack := true } 0

/-- The first step of `TCP_SHUT_RD` and `TCP_SHUT_RDWR`. -/
def dropRecvWindow : Except Fault (Connection V) := do
  let _ ← tcp.recvWindow.kfree
  return { tcp with recvWindow := .null }

end Connection

/-- The directions of `tcp_shutdown`. -/
inductive How where
  | wr
  | rd
  | rdwr
  deriving DecidableEq

namespace Connection

variable {V : Type} (tcp : Connection V)

/-- `tcp_shutdown`. -/
def tcpShutdown : How → Except Fault (Connection V)
  | .rd => tcp.dropRecvWindow
  | .wr => tcp.tcpHalfClose
  | .rdwr => do
    let tcp ← tcp.dropRecvWindow
    tcp.tcpHalfClose

/-- The part of `tcp_ack_handler` for a segment with data: it goes into the ring at `next`, whatever
its sequence number is. -/
def takeSegment (data : List V) : Except Fault (Connection V) :=
  match tcp.recvWindow with
  | .null => .ok tcp
  | _ => do
    let size1 := min (tcp.recv.totalSize - tcp.recv.next) data.length
    let window ← tcp.recvWindow.storeAround tcp.recv.totalSize tcp.recv.next size1 data
    return { tcp with
      recvWindow := window
      recv := { tcp.recv with
        next := (tcp.recv.next + data.length) % tcp.recv.totalSize
        window := sub32 tcp.recv.window data.length } }

variable (segment : Segment V)

/-- The first half of `tcp_ack_handler`: the data of the segment is taken in and acknowledged. The
buffer is not cleaned, so that what it holds goes out again. -/
def acceptData : Except Fault (Connection V) :=
  if segment.payload = [] then .ok tcp
  else do
    let tcp ← tcp.takeSegment segment.payload
    { tcp with
      send := { tcp.send with wl1 := segment.seq }
      cur := { tcp.cur with
        ack := add32 segment.seq segment.payload.length } }.tcpAck 0 Flags.none

/-- An acknowledgement of `acked` bytes moves `unack` and the sequence number, and the buffer is
cleaned. -/
def advance (acked ack : Nat) : Connection V :=
  { tcp.cleanData with
    send := { tcp.send with
      unack := add32 tcp.send.unack acked % tcp.send.totalSize
      wl2 := ack }
    cur := { tcp.cur with seq := add32 tcp.cur.seq acked } }

/-- The second half of `tcp_ack_handler`: what the segment acknowledges. -/
def acceptAck : Except Fault (Connection V) :=
  if sub32 segment.ack tcp.send.wl2 = 0 then .ok tcp
  else if tcp.send.totalSize = 0 then .error .divideByZero
  else .ok (tcp.advance (sub32 segment.ack tcp.send.wl2) segment.ack)

/-- `tcp_ack_handler`. -/
def tcpAckHandler : Except Fault (Connection V) := do
  let tcp ← tcp.acceptData segment
  tcp.acceptAck segment

/-- The retransmission of `tcp_timeout_handler`: the buffer goes out again, with the flags that the
header has, until the retries are used up. -/
def retransmit : Except Fault (Connection V) :=
  let tcp := { tcp with retryTimes := tcp.retryTimes + 1 }
  if tcp.retryTimes < tcpMaxRetries then do
    let header ← tcp.getHeader
    tcp.tcpSendPacket header.flags 0
  else tcp.tcpResetConn

/-- `tcp_timeout_handler`. -/
def tcpTimeoutHandler : Except Fault (Connection V) :=
  match tcp.state with
  | .synSent | .synReceived | .established | .finWait1 => tcp.retransmit
  | .finWait2 => tcp.tcpResetConn
  | .timeWait => { tcp with state := .closed, connState := .closed }.dropRecvWindow
  | _ => .ok tcp

/-- The `MSS` that a segment offers, if `indexes[TOI_MSS]` was recorded below `TOI_MAX`. -/
def updateMss (index : Nat) : Connection V :=
  if index < toiMax then
    { tcp with mss := min (segment.options index * 256 + segment.options (index + 1)) tcp.mss }
  else tcp

/-- The acknowledgement of a SYN, in `TCP_STATE_SYN_SENT` and `TCP_STATE_SYN_RECEIVED`. `none` when
the connection is reset. -/
def synAcknowledged : Option (Connection V) :=
  if segment.flags.ack then
    if segment.ack = add32 tcp.cur.seq 1 then
      some { tcp with
        cur := { tcp.cur with seq := segment.ack }
        connState := .opened
        state := .established }
    else none
  else some tcp

/-- `tcp_ack_handler` for the states that look at the flag first. -/
def ackIfFlagged : Except Fault (Connection V) :=
  if segment.flags.ack then tcp.tcpAckHandler segment else .ok tcp

/-- The acknowledgement of a FIN, in `TCP_STATE_FIN_WAIT1`. -/
def finAcknowledged : Connection V :=
  if segment.flags.ack ∧ tcp.cur.finSeq < segment.ack then
    { tcp with cur := { tcp.cur with seq := segment.ack }, state := .finWait2 }
  else tcp

/-- The answer to a SYN, in `TCP_STATE_LISTEN`. -/
def synArrived (iss : Nat) : Connection V :=
  { tcp.cleanData with
    send := { tcp.send with iss := iss, remoteWindowSize := segment.windowSize }
    recv := { tcp.recv with irs := segment.seq }
    cur := { tcp.cur with seq := iss, ack := add32 segment.seq 1 }
    state := .synReceived
    options := 4 }

/-- The cases of `tcp_rx_handler`, by the state of the connection. -/
def rxByState (iss index : Nat) : Except Fault (Connection V) :=
  match tcp.state with
  | .closed => tcp.tcpResetConn
  | .listen =>
    if segment.flags.syn then do
      let _ ← tcp.getHeader
      let tcp := (tcp.updateMss segment index).synArrived segment iss
      tcp.tcpAck 4 { Flags.none with syn := true }
    else .ok tcp
  | .synSent =>
    if segment.flags.syn then
      let tcp := { tcp with
        send := { tcp.send with remoteWindowSize := segment.windowSize }
        recv := { tcp.recv with irs := segment.seq }
        cur := { tcp.cur with ack := add32 segment.seq 1 }
        state := .synReceived }
      match (tcp.updateMss segment index).synAcknowledged segment with
      | none => (tcp.updateMss segment index).tcpResetConn
      | some tcp => tcp.cleanData.tcpAck 0 Flags.none
    else tcp.tcpResetConn
  | .synReceived =>
    match (tcp.updateMss segment index).synAcknowledged segment with
    | none => (tcp.updateMss segment index).tcpResetConn
    | some tcp => .ok tcp.cleanData
  | .established => do
    let tcp ← tcp.tcpAckHandler segment
    if segment.flags.fin then
      let tcp := { tcp with
        cur := { tcp.cur with seq := segment.ack, ack := add32 tcp.cur.ack 1 }
        state := .closeWait
        connState := .closing }
      tcp.cleanData.tcpAck 0 Flags.none
    else return tcp
  | .closing => do
    let tcp ← tcp.ackIfFlagged segment
    if segment.flags.ack ∧ tcp.cur.finSeq < segment.ack then
      let tcp := { tcp with cur := { tcp.cur with seq := segment.ack }, state := .timeWait }
      tcp.cleanData.tcpAck 0 { Flags.none with fin := true }
    else tcp.cleanData.tcpAck 0 Flags.none
  | .closeWait => tcp.tcpResetConn
  | .finWait1 => do
    let tcp ← tcp.ackIfFlagged segment
    let tcp := tcp.finAcknowledged segment
    if segment.flags.fin then
      return { tcp with
        cur := { tcp.cur with ack := add32 tcp.cur.ack 1 }, state := .closing }
    else return tcp
  | .finWait2 => do
    let tcp ← tcp.ackIfFlagged segment
    if segment.flags.fin then
      let tcp := { tcp with
        cur := { tcp.cur with ack := add32 tcp.cur.ack 1 }, state := .timeWait }
      tcp.cleanData.tcpAck 0 { Flags.none with ack := true }
    else return tcp
  | .lastAck =>
    if segment.flags.ack ∧ tcp.cur.finSeq < segment.ack then
      .ok { tcp with
        cur := { tcp.cur with seq := segment.ack }, state := .closed, connState := .closed }
    else .ok tcp
  | .timeWait => tcp.tcpResetConn

/-- `tcp_rx_handler`; `iss` is what `tcp_generate_isn` returns. The option area has at most forty
bytes, so a walk over it that goes on longer never ends. -/
def tcpRxHandler (iss : Nat) : Except Fault (Connection V) :=
  let tcp := if segment.flags.rst then { tcp with state := .closed, connState := .closed } else tcp
  match tcpOptionsHandler 41 segment.dataOffset segment.options with
  | none => .error .hang
  | some log => tcp.rxByState segment iss log.index

end Connection

/-- The codes that `tcp_notify_unreachable` tells apart. -/
inductive UnreachableCode where
  | net
  | host
  | other
  deriving DecidableEq

namespace Connection

variable {V : Type}

/-- `tcp_notify_unreachable`, for the connection it finds. -/
def tcpNotifyUnreachable (tcp : Connection V) : UnreachableCode → Except Fault (Connection V)
  | .net => do
    let tcp ← tcp.tcpResetConn
    return { tcp with connState := .netUnreachable }
  | .host => do
    let tcp ← tcp.tcpResetConn
    return { tcp with connState := .hostUnreachable }
  | .other => .ok tcp

def ipv4DefaultMss : Nat := 536

/-- `tcp_update_mtu`, for the connection it finds. -/
def tcpUpdateMtu (tcp : Connection V) (mtu : Nat) : Except Fault (Connection V) :=
  if mtu < tcp.pmtu ∧ 0 < mtu then
    let mtu := min (max ipv4DefaultMss mtu) tcp.pmtu
    let tcp := { tcp with pmtu := mtu, mss := mtu - ipv4HeaderSize - tcpHeaderSize }
    if tcp.connState = .opened then do
      let header ← tcp.getHeader
      let tcp := { tcp with
        options := min tcp.options tcp.mss
        payload := tcp.payload.take (tcp.mss - tcp.options) }
      return tcp.networkSend header
    else .ok tcp
  else if tcp.pmtu < mtu then
    .ok { tcp with pmtu := mtu, mss := mtu - ipv4HeaderSize - tcpHeaderSize }
  else .ok tcp

/-- A connection after `tcp_register`, whose memory `kzalloc` has cleared: its state is the first of
the enumeration. -/
def tcpRegister (pmtu : Nat) : Connection V where
  state := .listen
  connState := .init
  bound := false
  waiting := false
  header := none
  pmtu := pmtu
  mss := 0
  send := ⟨0, 0, 0, 0, 0, 0, 0, 0⟩
  sendWindow := .null
  recv := ⟨0, 0, 0, 0, 0⟩
  recvWindow := .null
  cur := ⟨0, 0, 0⟩
  retryTimes := 0
  options := 0
  payload := []
  sent := []

end Connection

/-- What can happen to a connection: calls of its user, segments and ICMP messages, and the timer.
`handshake` is the moment when a waiting call goes on. -/
inductive Event (V : Type) where
  | bind (portFree : Bool) (memory : Option (Nat → V))
  | connect (portFree : Bool) (memory : Option (Nat → V)) (iss : Nat)
  | listen (memory : Option (Nat → V))
  | handshake (memory : Option (Nat → V))
  | send (data : List V)
  | recv (length : Nat)
  | shutdown (how : How)
  | reset
  | segment (segment : Segment V) (iss : Nat)
  | timeout
  | unreachable (code : UnreachableCode)
  | updateMtu (mtu : Nat)

namespace Connection

variable {V : Type}

/-- One event. The network only finds connections that are in `tcp_lh`. -/
def step (tcp : Connection V) : Event V → Except Fault (Connection V)
  | .bind portFree memory => .ok (tcp.tcpBind portFree memory).2
  | .connect portFree memory iss => .ok (tcp.tcpConnect portFree memory iss).2
  | .listen memory => .ok (tcp.tcpListen memory).2
  | .handshake memory =>
    .ok (if tcp.waiting ∧ tcp.handshakeFinished then (tcp.handshakeEnd memory).2 else tcp)
  | .send data => (tcp.tcpSendData data).map fun done => done.2
  | .recv length => (tcp.tcpRecvData length).map fun done => done.2.2
  | .shutdown how => tcp.tcpShutdown how
  | .reset => tcp.tcpResetConn
  | .segment segment iss => if tcp.bound then tcp.tcpRxHandler segment iss else .ok tcp
  | .timeout => tcp.tcpTimeoutHandler
  | .unreachable code => if tcp.bound then tcp.tcpNotifyUnreachable code else .ok tcp
  | .updateMtu mtu => if tcp.bound then tcp.tcpUpdateMtu mtu else .ok tcp

/-- The events of a session one after the other. -/
def run (tcp : Connection V) : List (Event V) → Except Fault (Connection V)
  | [] => .ok tcp
  | event :: rest => do
    let tcp ← tcp.step event
    tcp.run rest

end Connection

end Horizon.Tcp
