import Mathlib

/-!
# Reader-writer lock: the status words

`kernel/rwlock.c`: what each critical section of `status_lock` does to the three counters, which are
C `int`s. Waiting and waking are done by the callers.
-/

namespace Horizon.Threads

/-- `rwlock_t`, without its spinlock and its two wait queues. The counters are taken without an
overflow: that asks for fewer than `2^31` read locks held at once and fewer than `2^31` threads
(`RwSystem.Sound.counters_fit`). -/
structure RwLock where
  readCount : Int
  writeCount : Int
  writeWaiting : Int
deriving DecidableEq, Repr

variable (lock : RwLock)

namespace RwLock

/-- `rwlock_init`. -/
def init : RwLock := ⟨0, 0, 0⟩

/-- `rwlock_try_read`: the lock after a read lock was taken, nothing if it must wait. -/
def tryRead : Option RwLock :=
  if lock.writeCount ≠ 0 ∨ lock.writeWaiting ≠ 0 then none
  else some { lock with readCount := lock.readCount + 1 }

/-- `rwlock_try_write`: the lock after an announced write lock was taken, nothing if it must
wait. -/
def tryWrite : Option RwLock :=
  if lock.readCount ≠ 0 ∨ lock.writeCount ≠ 0 then none
  else some ⟨lock.readCount, lock.writeCount + 1, lock.writeWaiting - 1⟩

/-- The critical section of `rwlock_write_try_lock`. -/
def writeTryLock : Option RwLock :=
  if lock.readCount = 0 ∧ lock.writeCount = 0 then
    some { lock with writeCount := lock.writeCount + 1 }
  else none

/-- The first critical section of `rwlock_write_lock`: the writer announces itself. -/
def announceWrite : RwLock := { lock with writeWaiting := lock.writeWaiting + 1 }

def readUnlock : RwLock := { lock with readCount := lock.readCount - 1 }

/-- Whether `rwlock_read_unlock` wakes one writer. -/
def readUnlockWakes : Bool :=
  decide (lock.readUnlock.readCount = 0 ∧ lock.readUnlock.writeWaiting > 0)

/-- The counters after `rwlock_write_unlock`. -/
def writeUnlock : RwLock := { lock with writeCount := lock.writeCount - 1 }

/-- Whether `rwlock_write_unlock` wakes one writer; it wakes all readers otherwise. -/
def writeUnlockWakesWriter : Bool := decide (lock.writeUnlock.writeWaiting > 0)

end RwLock

end Horizon.Threads
