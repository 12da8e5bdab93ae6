import Mathlib.Logic.Function.Basic
/-!
# Received ARP packets

`arp_recv` (`driver/network/protocols/ipv4/arp.c`) and `neighbour_entry_create`
(`driver/network/neighbour.c`). The lock words of the table belong to its state; `spin_lock` on a
word that is set spins for ever, which is `none`. The conflict callback and the driver's `send` take
none of these locks and are left out, but for the packet sent.
-/

namespace Horizon.Arp

/-- The state of an entry of the neighbour table. -/
inductive NeighbourState where
  | none | waiting | reachable | stale | failed
  deriving DecidableEq

/-- A `NeighbourEntry` at the address `id`; `ip_length` is the length of `ipAddr`. -/
structure NeighbourEntry where
  id : Nat
  ipAddr : List UInt8
  state : NeighbourState
  haddr : List UInt8
  lock : Bool
  deriving DecidableEq

/-- The `neighbour_table`: a list of entries and a lock word for each key. -/
structure NeighbourTable where
  buckets : Nat → List NeighbourEntry
  lock : Nat → Bool

/-- An `ArpHeader` with the four addresses behind it. -/
structure Packet where
  htype : Nat
  ptype : Nat
  hlen : Nat
  plen : Nat
  opcode : Nat
  srcHaddr : List UInt8
  srcPaddr : List UInt8
  dstHaddr : List UInt8
  dstPaddr : List UInt8
  deriving DecidableEq

/-- The fields of a `NetworkDevice` that the handler reads. -/
structure Device where
  ethernet : Bool
  macAddr : List UInt8
  ip : List UInt8

/-- What the handler of a packet returns. -/
inductive Result where
  | ok | errorUnsupport | errorOther
  deriving DecidableEq

/-- What a call leaves: its result, the table and the packet it sent. -/
structure Outcome where
  result : Result
  table : NeighbourTable
  sent : Option Packet

/-- `spin_lock` on a lock word: the word it leaves, if it returns. -/
def spinLock (word : Bool) : Option Bool := if word then none else some true

/-- The word that `spin_unlock` stores. -/
def spinUnlock : Bool := false

/-- `spin_lock(&neighbour_table.lock[key])`. -/
def NeighbourTable.lockBucket (table : NeighbourTable) (key : Nat) : Option NeighbourTable := do
  let word ← spinLock (table.lock key)
  some { table with lock := Function.update table.lock key word }

/-- `spin_unlock(&neighbour_table.lock[key])`. -/
def NeighbourTable.unlockBucket (table : NeighbourTable) (key : Nat) : NeighbourTable :=
  { table with lock := Function.update table.lock key spinUnlock }

/-- Writes to the entry at `id` of a bucket. -/
def NeighbourTable.modify (table : NeighbourTable) (key id : Nat)
    (write : NeighbourEntry → NeighbourEntry) : NeighbourTable :=
  { table with
    buckets := Function.update table.buckets key
      ((table.buckets key).map fun other => if other.id = id then write other else other) }

/-- `ipv4_hash`. -/
def ipv4Hash (ip : List UInt8) : Nat :=
  let ip32 := ip.foldr (fun byte rest => byte.toNat + 256 * rest) 0
  (ip32 ^^^ ip32 >>> 16) % 32

/-- The checks of the hardware and the protocol addresses. -/
def Packet.Supported (packet : Packet) (device : Device) : Prop :=
  (packet.htype = 1 ∧ device.ethernet = true ∧ packet.hlen = 6 ∧
    (packet.dstHaddr = device.macAddr ∨ packet.dstHaddr = List.replicate 6 0xFF ∨
      packet.dstHaddr = List.replicate 6 0)) ∧
  packet.ptype = 0x0800 ∧ packet.plen = 4

instance (packet : Packet) (device : Device) : Decidable (packet.Supported device) :=
  inferInstanceAs (Decidable (_ ∧ _))

/-- The test for the sender's entry. -/
def Packet.SentBy (packet : Packet) (entry : NeighbourEntry) : Prop :=
  packet.plen = entry.ipAddr.length ∧ entry.ipAddr = packet.srcPaddr

instance (packet : Packet) (entry : NeighbourEntry) : Decidable (packet.SentBy entry) :=
  inferInstanceAs (Decidable (_ ∧ _))

/-- The loop over a bucket: it leaves the sender's entry locked and the others as they were. -/
def findSender (packet : Packet) :
    List NeighbourEntry → Option (Option NeighbourEntry × List NeighbourEntry)
  | [] => some (none, [])
  | entry :: rest => do
    let word ← spinLock entry.lock
    if packet.SentBy entry then
      some (some entry, { entry with lock := word } :: rest)
    else
      let (sender, rest) ← findSender packet rest
      some (sender, { entry with lock := spinUnlock } :: rest)

/-- The rest of `arp_recv` once the lock of the sender's entry is held. -/
def update (device : Device) (packet : Packet) (key id : Nat) (table : NeighbourTable) :
    Outcome where
  result := .ok
  table := table.modify key id fun entry =>
    { entry with state := .reachable, haddr := packet.srcHaddr, lock := spinUnlock }
  sent :=
    if packet.opcode = 1 then
      some { packet with
        opcode := 2
        dstHaddr := packet.srcHaddr
        dstPaddr := packet.srcPaddr
        srcHaddr := device.macAddr
        srcPaddr := device.ip }
    else none

/-- `neighbour_entry_create`, with the address that `kzalloc` gave. -/
def neighbourEntryCreate (packet : Packet) (key id : Nat) (table : NeighbourTable) :
    Option NeighbourTable := do
  let entry : NeighbourEntry := ⟨id, packet.srcPaddr, .none, [], false⟩
  let table ← table.lockBucket key
  let table := { table with
    buckets := Function.update table.buckets key (table.buckets key ++ [entry]) }
  some (table.unlockBucket key)

/-- `arp_recv` behind the loop; `kzalloc` gives the address of a new entry, if any. -/
def answer (device : Device) (kzalloc : Option Nat) (packet : Packet) (key : Nat)
    (sender : Option NeighbourEntry) (table : NeighbourTable) : Option Outcome :=
  if packet.dstPaddr ≠ device.ip then some ⟨.ok, table, none⟩
  else
    match sender, kzalloc with
    | some entry, _ => some (update device packet key entry.id table)
    | none, none => some ⟨.errorOther, table, none⟩
    | none, some id => do
      let table ← neighbourEntryCreate packet key id table
      -- The new entry's word is 0: `spinlock_init`.
      let word ← spinLock false
      some (update device packet key id
        (table.modify key id fun entry => { entry with lock := word }))

/-- `arp_recv`. -/
def arpRecv (device : Device) (kzalloc : Option Nat) (table : NeighbourTable) (packet : Packet) :
    Option Outcome :=
  if packet.Supported device then do
    let key := ipv4Hash packet.srcPaddr
    let table ← table.lockBucket key
    let (sender, entries) ← findSender packet (table.buckets key)
    let table := { table with buckets := Function.update table.buckets key entries }
    answer device kzalloc packet key sender (table.unlockBucket key)
  else some ⟨.errorUnsupport, table, none⟩

end Horizon.Arp
