import Mathlib
/-!
# The request queue of a storage device

Requests are handed to an idle device at once. Otherwise they are merged with a waiting request or
put into the queue by position, and a periodic task submits the first waiting request whenever the
device is idle (`driver/storage/storage_io_queue.c`). Positions have 64 bits and counts 32; the
fields of a request keep the sums below within their types, as long as `max_block_per_request` is at
most `2 ^ 31`.
-/

namespace Horizon.Storage

/-- A `StorageRequest` of a caller; `rw` is set for a write, and `id` names its buffer. -/
structure StorageRequest where
  id : Nat
  rw : Bool
  position : Nat
  count : Nat
  inDisk : position + count < 2 ^ 64 := by decide
  short : count < 2 ^ 31 := by decide
  deriving DecidableEq

/-- A request in the queue: a caller's own, or one that carries merged ones in its
`next_merged_request` chain. -/
structure QueuedRequest where
  rw : Bool
  position : Nat
  count : Nat
  merged : Bool
  members : List StorageRequest
  deriving DecidableEq

/-- A request as it enters the queue. -/
def StorageRequest.queued (request : StorageRequest) : QueuedRequest where
  rw := request.rw
  position := request.position
  count := request.count
  merged := false
  members := [request]

/-- `storage_modify_merged_request`. The position is lowered before the end is computed from it. -/
def modifyMergedRequest (new : StorageRequest) (request : QueuedRequest) : QueuedRequest :=
  let position := min request.position new.position
  { request with
    position := position
    count := max (new.position + new.count) (position + request.count) - position
    members := request.members ++ [new] }

/-- `storage_new_merge_request`, when its allocations succeed. -/
def newMergeRequest (new : StorageRequest) (request : QueuedRequest) : QueuedRequest :=
  let position := min new.position request.position
  { rw := new.rw
    position := position
    count := max (new.position + new.count) (request.position + request.count) - position
    merged := true
    members := request.members ++ [new] }

/-- `storage_try_merge_request`; `memory` says whether an allocation succeeds. -/
def tryMergeRequest (new : StorageRequest) (request : QueuedRequest) (maxCount : Nat)
    (memory : Bool) : Option QueuedRequest :=
  if new.rw = request.rw then
    if maxCount < new.count + request.count then none
    else if new.position + new.count < request.position ∨
        request.position + request.count < new.position then none
    else if request.merged then some (modifyMergedRequest new request)
    else if memory then some (newMergeRequest new request)
    else none
  else none

/-- The loop of `storage_add_request` over the queue. -/
def insertRequest (new : StorageRequest) (maxCount : Nat) (memory : Bool) :
    List QueuedRequest → List QueuedRequest
  | [] => [new.queued]
  | request :: rest =>
    match tryMergeRequest new request maxCount memory with
    | some merged => merged :: rest
    | none =>
      if new.position < request.position then new.queued :: request :: rest
      else request :: insertRequest new maxCount memory rest

/-- `pending` holds the calls of `storage_add_request` that have released the lock between their two
parts; `submitted` is what was handed to the driver. -/
structure StorageDevice where
  maxBlockPerRequest : Nat
  ioQueue : List QueuedRequest
  current : Option QueuedRequest
  pending : List StorageRequest
  submitted : List QueuedRequest
  finished : List Nat
  deriving DecidableEq

variable (device : StorageDevice)

namespace StorageDevice

def idle (maxBlockPerRequest : Nat) : StorageDevice := ⟨maxBlockPerRequest, [], none, [], [], []⟩

/-- `storage_submit_request`: the driver takes the request. -/
def submitRequest (request : QueuedRequest) : StorageDevice :=
  { device with current := some request, submitted := device.submitted ++ [request] }

/-- The first part of `storage_add_request`: an idle device with an empty queue takes the request
at once. -/
def addRequest (request : StorageRequest) : StorageDevice :=
  if device.ioQueue = [] ∧ device.current = none then device.submitRequest request.queued
  else { device with pending := device.pending ++ [request] }

/-- The second part of `storage_add_request`, under the lock again. -/
def enqueueRequest (request : StorageRequest) (memory : Bool) : StorageDevice :=
  if request ∈ device.pending then
    { device with
      pending := device.pending.erase request
      ioQueue := insertRequest request device.maxBlockPerRequest memory device.ioQueue }
  else device

/-- `storage_periodic_task`, as far as it serves the queue. -/
def periodicTask : StorageDevice :=
  match device.current, device.ioQueue with
  | none, request :: rest => { device.submitRequest request with ioQueue := rest }
  | _, _ => device

/-- The driver's interrupt with `storage_finish_request`. -/
def finishRequest : StorageDevice :=
  match device.current with
  | none => device
  | some request =>
    { device with
      current := none
      finished := device.finished ++ request.members.map StorageRequest.id }

end StorageDevice

/-- What happens to the queue. A call comes in two parts, `add` and `enqueue`. -/
inductive Event where
  | add (request : StorageRequest)
  | enqueue (request : StorageRequest) (memory : Bool)
  | periodic
  | interrupt
  deriving DecidableEq

/-- One event. -/
def StorageDevice.step (device : StorageDevice) : Event → StorageDevice
  | .add request => device.addRequest request
  | .enqueue request memory => device.enqueueRequest request memory
  | .periodic => device.periodicTask
  | .interrupt => device.finishRequest

/-- Events one after the other. -/
def StorageDevice.run (events : List Event) : StorageDevice :=
  events.foldl step device

/-- The device with a driver that may have several requests and finishes them in any order;
`signalled` are those whose completion was signalled. -/
structure Traffic where
  device : StorageDevice
  outstanding : List QueuedRequest
  signalled : List StorageRequest

/-- Events, and what a driver does to the device behind the queue. -/
inductive Action where
  | queue (event : Event)
  | busy (current : Option QueuedRequest)
  | finish (request : QueuedRequest)
  deriving DecidableEq

/-- One action on queue and driver. -/
def Traffic.step (t : Traffic) : Action → Traffic
  | .queue event =>
    let device := t.device.step event
    { t with
      device := device
      outstanding := t.outstanding ++ device.submitted.drop t.device.submitted.length }
  | .busy current => { t with device := { t.device with current := current } }
  | .finish request =>
    -- `storage_finish_request` goes through the chain of the request.
    if request ∈ t.outstanding then
      { t with
        outstanding := t.outstanding.erase request
        signalled := t.signalled ++ request.members }
    else t

def Traffic.run (t : Traffic) (actions : List Action) : Traffic := actions.foldl step t

/-- The blocks of the disk, and the blocks of each caller's buffer. -/
structure Memory (V : Type) where
  disk : Nat → V
  buf : Nat → Nat → V

section Transfers

variable {V : Type}

/-- A transfer to the disk. -/
def Memory.store (memory : Memory V) (position count : Nat) (buffer : Nat → V) : Memory V :=
  { memory with disk := fun block =>
      if position ≤ block ∧ block < position + count then buffer (block - position)
      else memory.disk block }

/-- A transfer to a caller's buffer. -/
def Memory.fill (memory : Memory V) (id count : Nat) (source : Nat → V) : Memory V :=
  { memory with buf := Function.update memory.buf id fun place =>
      if place < count then source place else memory.buf id place }

/-- `storage_solve_write_request`: the buffers of merged writes are copied into one, in the order
of the chain; `none` when a copy leaves that buffer. -/
def solveWriteRequest (memory : Memory V) (start size : Nat) :
    List StorageRequest → (Nat → V) → Option (Nat → V)
  | [], buffer => some buffer
  | request :: rest, buffer =>
    let offset := request.position - start
    if offset + request.count ≤ size then
      solveWriteRequest memory start size rest fun place =>
        if offset ≤ place ∧ place < offset + request.count then
          memory.buf request.id (place - offset)
        else buffer place
    else none

/-- `storage_solve_read_request`: the blocks read are copied to the buffers of the merged reads;
`none` when a copy leaves the common buffer. -/
def solveReadRequest (start size : Nat) (buffer : Nat → V) :
    List StorageRequest → Memory V → Option (Memory V)
  | [], memory => some memory
  | request :: rest, memory =>
    let offset := request.position - start
    if offset + request.count ≤ size then
      solveReadRequest start size buffer rest
        (memory.fill request.id request.count fun place => buffer (offset + place))
    else none

/-- What the driver does with a request: the transfer between the disk and the caller's buffer, or
the common buffer of merged requests. -/
def transfer (junk : Nat → V) (memory : Memory V) (request : QueuedRequest) : Option (Memory V) :=
  if request.merged then
    if request.rw then
      (solveWriteRequest memory request.position request.count request.members junk).map
        (memory.store request.position request.count)
    else
      solveReadRequest request.position request.count
        (fun place => memory.disk (request.position + place)) request.members memory
  else
    request.members.head?.map fun own =>
      if request.rw then memory.store request.position request.count (memory.buf own.id)
      else memory.fill own.id request.count fun place => memory.disk (request.position + place)

/-- Transfers one after the other. -/
def transferAll (junk : Nat → V) : List QueuedRequest → Memory V → Option (Memory V)
  | [], memory => some memory
  | request :: rest, memory =>
    match transfer junk memory request with
    | some next => transferAll junk rest next
    | none => none

end Transfers

end Horizon.Storage
