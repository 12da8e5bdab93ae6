import Horizon.Kernel.RwLock
import Horizon.Kernel.WaitQueue

/-!
# Reader-writer lock: waiting and waking

`kernel/rwlock.c` over the wait queues: the counters change in critical sections of `status_lock`,
which is also the condition lock of both queues. An unlock wakes inside its critical section. A
thread may hold the lock for reading several times and unlocks only what it holds.
-/

namespace Horizon.Threads

open Function

/-- The two queues of the lock. -/
inductive RwQueue
  | readers
  | writers
  deriving DecidableEq

/-- The lock with its threads, and how often each holds it. -/
structure RwSystem (τ : Type) where
  lock : RwLock
  /-- The threads, `status_lock` and the two queues. -/
  waits : WaitQueues τ RwQueue Unit
  readHeld : τ → Nat
  /-- How often each thread holds the lock for writing. -/
  writeHeld : τ → Nat

/-- The actions of the threads. -/
inductive RwAction (τ : Type)
  /-- A step of the scheduler or of `wait` that does not look at the counters. -/
  | thread (step : QueueAction τ RwQueue Unit)
  | readLock (t : τ)
  /-- `rwlock_write_lock` is called and announces the writer. -/
  | writeLock (t : τ)
  /-- A thread in `wait` takes `status_lock` and tries. -/
  | check (t : τ)
  | writeTryLock (t : τ)
  | readUnlock (t : τ)
  | writeUnlock (t : τ)

/-- The steps of threads and scheduler that leave the lock alone. -/
def QueueAction.leavesLock {τ κ ι : Type} : QueueAction τ κ ι → Bool
  | .register _ | .start _ | .lockQueue _ | .dropCondition _ | .enqueue _ | .commit _
  | .preempt _ | .makeReady _ | .dispatch _ => true
  | .enter _ _ | .check _ _ | .wakeOne _ | .wakeAll _ | .markDead _ | .finishWake _ => false

namespace RwSystem

variable {τ : Type} [DecidableEq τ]

def initial : RwSystem τ := ⟨.init, .initial, fun _ => 0, fun _ => 0⟩

/-- The `wait` of `rwlock_read_lock`. -/
def readCall : WaitCall τ RwQueue Unit := .object .readers ()

def writeCall : WaitCall τ RwQueue Unit := .object .writers ()

/-- A running thread outside `wait` finds `status_lock` free. -/
def ready (s : RwSystem τ) (t : τ) : Bool :=
  decide ((s.waits.thread t).pc = .outside ∧ (s.waits.thread t).state = .running ∧
    s.waits.lock (.object ()) = none)

/-- The same lock after a step of threads and queues. -/
def withWaits (s : RwSystem τ) (waits : WaitQueues τ RwQueue Unit) : RwSystem τ :=
  { s with waits := waits }

/-- `rwlock_write_lock`: the announcement, then the head of the loop of `wait`. -/
def writeLock (s : RwSystem τ) (t : τ) : Except QueueHalt (RwSystem τ) :=
  if s.ready t then do
    let waits ← s.waits.enter t writeCall
    return { s with lock := s.lock.announceWrite, waits := waits }
  else .error .disabled

/-- The head of the loop of `wait`, with `rwlock_try_read` or `rwlock_try_write`. -/
def check (s : RwSystem τ) (t : τ) : Except QueueHalt (RwSystem τ) :=
  match (s.waits.thread t).call with
  | some (.object .readers ()) =>
    match s.lock.tryRead with
    | none => do
      let waits ← s.waits.check t false
      return s.withWaits waits
    | some lock => do
      let waits ← s.waits.check t true
      return ⟨lock, waits, update s.readHeld t (s.readHeld t + 1), s.writeHeld⟩
  | some (.object .writers ()) =>
    match s.lock.tryWrite with
    | none => do
      let waits ← s.waits.check t false
      return s.withWaits waits
    | some lock => do
      let waits ← s.waits.check t true
      return ⟨lock, waits, s.readHeld, update s.writeHeld t (s.writeHeld t + 1)⟩
  | _ => .error .disabled

/-- `rwlock_write_try_lock`. -/
def writeTryLock (s : RwSystem τ) (t : τ) : Except QueueHalt (RwSystem τ) :=
  if s.ready t then
    match s.lock.writeTryLock with
    | none => .ok s
    | some lock =>
      .ok { s with lock := lock, writeHeld := update s.writeHeld t (s.writeHeld t + 1) }
  else .error .disabled

/-- `rwlock_read_unlock`, by a thread that holds the lock for reading. -/
def readUnlock (s : RwSystem τ) (t : τ) : Except QueueHalt (RwSystem τ) :=
  if s.ready t ∧ 0 < s.readHeld t then do
    let waits ← if s.lock.readUnlockWakes then s.waits.wakeOne (.object .writers) else .ok s.waits
    return ⟨s.lock.readUnlock, waits, update s.readHeld t (s.readHeld t - 1),
      s.writeHeld⟩
  else .error .disabled

/-- `rwlock_write_unlock`, by a thread that holds the lock for writing. -/
def writeUnlock (s : RwSystem τ) (t : τ) : Except QueueHalt (RwSystem τ) :=
  if s.ready t ∧ 0 < s.writeHeld t then do
    let waits ← if s.lock.writeUnlockWakesWriter then s.waits.wakeOne (.object .writers)
      else s.waits.wakeAll (.object .readers)
    return ⟨s.lock.writeUnlock, waits, s.readHeld,
      update s.writeHeld t (s.writeHeld t - 1)⟩
  else .error .disabled

def apply (s : RwSystem τ) : RwAction τ → Except QueueHalt (RwSystem τ)
  | .thread step =>
    if step.leavesLock then do
      let waits ← s.waits.apply step
      return s.withWaits waits
    else .error .disabled
  | .readLock t => do
    let waits ← s.waits.enter t readCall
    return s.withWaits waits
  | .writeLock t => s.writeLock t
  | .check t => s.check t
  | .writeTryLock t => s.writeTryLock t
  | .readUnlock t => s.readUnlock t
  | .writeUnlock t => s.writeUnlock t

end RwSystem

end Horizon.Threads
