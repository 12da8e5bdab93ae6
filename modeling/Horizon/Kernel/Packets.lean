import Horizon.Kernel.Tcp
/-!
# Checksums and received packets

The checksums of `tcp.c`, `udp.c`, `ipv4/ipv4.c` and `ipv4/icmp.c` (`driver/network/protocols`), and
`tcp_recv`, `udp_recv` and `icmp_recv` up to the connection or the handler that a packet is passed
to. The processor loads a `uint16_t` in little-endian order. The sums stay far below the range of
their `uint32_t`.
-/

namespace Horizon.Packets

open Tcp (TcpState)

abbrev Bytes := List UInt8

/-- The four bytes of an address. -/
structure Ipv4Addr where
  a : UInt8
  b : UInt8
  c : UInt8
  d : UInt8
  deriving DecidableEq

/-- `hi << 8 | lo`. -/
def beWord (hi lo : UInt8) : Nat := hi.toNat * 256 + lo.toNat

def wordAt (packet : Bytes) (offset : Nat) : Nat :=
  beWord (packet.getD offset 0) (packet.getD (offset + 1) 0)

/-- A store of `HOST2BE_WORD(value)`. -/
def store (packet : Bytes) (offset value : Nat) : Bytes :=
  (packet.set offset (UInt8.ofNat (value / 256))).set (offset + 1) (UInt8.ofNat value)

def foldOnce (sum : Nat) : Nat := sum % 65536 + sum / 65536

/-- `UDP_CHECKSUM_ADD`, and the same in the other loops. -/
def checksumAdd (sum data : Nat) : Nat :=
  if 0xFFFF < sum + data then foldOnce (sum + data) else sum + data

/-- The loop over the words of a packet; `odd` says what is done with a last odd byte. -/
def sumWords (word : UInt8 → UInt8 → Nat) (odd : Nat → UInt8 → Nat) : Nat → Bytes → Nat
  | sum, first :: second :: rest => sumWords word odd (checksumAdd sum (word first second)) rest
  | sum, [last] => odd sum last
  | sum, [] => sum

/-- `while (sum & 0xffff0000)`. -/
def foldAll (sum : Nat) : Nat :=
  if sum < 65536 then sum else foldAll (foldOnce sum)
termination_by sum
decreasing_by unfold foldOnce; omega

/-- `tcp_checksum`. -/
def tcpChecksum (segment : Bytes) (src dst : Ipv4Addr) : Nat :=
  let sum := beWord src.a src.b + beWord dst.a dst.b + beWord src.c src.d + beWord dst.c dst.d +
    6 + segment.length
  0xFFFF - foldAll (sumWords beWord (fun sum last => sum + last.toNat * 256) sum
    (store segment 16 0))

/-- What `tcp_send_packet` writes into the segment in the connection's buffer. -/
def tcpSendPacket (segment : Bytes) (seq ack window optionSize : Nat)
    (localIp remoteIp : Ipv4Addr) :
    Bytes :=
  let segment := store (store segment 4 (seq / 65536)) 6 (seq % 65536)
  let segment := store (store segment 8 (ack / 65536)) 10 (ack % 65536)
  let segment := (store segment 14 (window % 65536)).set 12
    (UInt8.ofNat ((20 + optionSize) / 4 * 16))
  store segment 16 (tcpChecksum segment localIp remoteIp)

/-- An `Ipv4ConnInfo` in `tcp_lh`, with the state of its connection. -/
structure Endpoint where
  localIp : Ipv4Addr
  localPort : Nat
  remoteIp : Ipv4Addr
  remotePort : Nat
  state : TcpState
  deriving DecidableEq

/-- Addresses and ports that a segment is sent with. -/
structure Route where
  src : Ipv4Addr
  srcPort : Nat
  dst : Ipv4Addr
  dstPort : Nat

/-- The test in the loop of `tcp_recv`; a zero stands for any remote address or port. -/
def Endpoint.accepts (info : Endpoint) (route : Route) : Bool :=
  (info.localPort == route.dstPort && (info.remotePort == route.srcPort || info.remotePort == 0)) &&
    (info.localIp == route.dst && (info.remoteIp == route.src || info.remoteIp == ⟨0, 0, 0, 0⟩))

def routeOf (segment : Bytes) (src dst : Ipv4Addr) : Route :=
  ⟨src, wordAt segment 0, dst, wordAt segment 2⟩

/-- What becomes of a received segment. -/
inductive TcpResult where
  | unsupported
  | badChecksum
  | dropped
  | delivered (info : Endpoint)
  deriving DecidableEq

/-- `tcp_recv`. -/
def tcpRecv (infos : List Endpoint) (segment : Bytes) (src dst : Ipv4Addr) : TcpResult :=
  if (segment.getD 12 0).toNat / 16 * 4 < 20 then .unsupported
  else if tcpChecksum segment src dst ≠ wordAt segment 16 then .badChecksum
  else
    match infos.find? (·.accepts (routeOf segment src dst)) with
    | none => .dropped
    | some info => .delivered info

def leWord (first second : UInt8) : Nat := beWord second first

/-- `ipv4_checksum`. -/
def ipv4Checksum (header : Bytes) : Bytes :=
  let sum := sumWords leWord (fun sum _ => sum) 0 (store header 10 0)
  let checksum := 0xFFFF - sum % 65536
  (header.set 10 (UInt8.ofNat checksum)).set 11 (UInt8.ofNat (checksum / 256))

/-- What the IPv4 layer makes of a packet. -/
inductive RecvResult where
  | unsupported
  | exceedsSize
  | badChecksum
  | passed
  deriving DecidableEq

variable (buffer : Bytes)

/-- `udp_checksum`, over everything in the buffer. -/
def udpChecksum (src dst : Ipv4Addr) : Nat :=
  let sum := [leWord src.a src.b, leWord src.c src.d, leWord dst.a dst.b, leWord dst.c dst.d,
    17 * 256, leWord (buffer.getD 4 0) (buffer.getD 5 0)].foldl checksumAdd 0
  let sum := sumWords leWord (fun sum last => sum + last.toNat) sum (store buffer 6 0)
  0xFFFF - (sum + sum / 65536) % 65536

/-- `udp_recv`, up to the lookup of the connection. -/
def udpRecv (src dst : Ipv4Addr) : RecvResult :=
  if wordAt buffer 4 < 8 then .unsupported
  else if buffer.length < wordAt buffer 4 then .exceedsSize
  else if wordAt buffer 6 ≠ 0 ∧
      udpChecksum buffer src dst ≠ leWord (buffer.getD 6 0) (buffer.getD 7 0) then .badChecksum
  else .passed

/-- `icmp_checksum`. -/
def icmpChecksum : Nat :=
  0xFFFF - sumWords leWord (fun sum _ => sum) 0 (store buffer 2 0) % 65536

/-- `icmp_recv`, up to the handler of the type. -/
def icmpRecv : RecvResult :=
  if buffer.length < 8 then .unsupported
  else if icmpChecksum buffer ≠ leWord (buffer.getD 2 0) (buffer.getD 3 0) then .badChecksum
  else .passed

end Horizon.Packets
