import Horizon.Kernel.RwLock

/-!
# The block cache

Translated from `kernel/block_cache.c`. The entries are numbered, `lru_lh` is the list of their
numbers from its head, and the `read` and `write` callbacks move one block between `entry->data` and
the device. A byte that was never written has no value. With one thread, a lock that is not free
blocks forever. Of `entry->list`, which links a dirty entry for flushing, the model keeps whether
its pointers are non-null, which is all `list_in_list` reads.
-/

namespace Horizon.BlockCache

open Threads (RwLock)

/-- What stops a call on the cache. -/
inductive Fault where
  /-- `list_del` of a node whose pointers are null. -/
  | nullList
  /-- A lock that no other thread will release. -/
  | blocked
  /-- `NULL` was returned. -/
  | noEntry
deriving DecidableEq, Repr

/-- An entry of the cache. -/
structure Entry (β : Type) where
  position : Nat
  /-- The bytes behind `data`. -/
  data : Nat → Option β
  dirty : Bool
  lock : RwLock
  /-- `list_in_list(&entry->list)`. -/
  listed : Bool

/-- `BlockCache`, and the device its callbacks work on. -/
structure Cache (β : Type) where
  /-- `size`: the bytes of a block. -/
  size : Nat
  entries : Nat → Entry β
  /-- `lru_lh`, from its head. -/
  lru : List Nat
  device : Nat → Nat → Option β

variable {β : Type}

/-- The `position` of an entry that holds none: `-1` as a `size_t`. -/
def noPosition : Nat := 2 ^ 64 - 1

/-- An entry as `block_cache_create` makes it. -/
def Entry.fresh (β : Type) : Entry β := ⟨noPosition, fun _ => none, false, RwLock.init, false⟩

/-- `block_cache_create` with `count` entries, over a device. -/
def create (size count : Nat) (device : Nat → Nat → Option β) : Cache β :=
  ⟨size, fun _ => Entry.fresh β, List.range count, device⟩

variable (cache : Cache β)

namespace Cache

def setEntry (i : Nat) (entry : Entry β) : Cache β :=
  { cache with entries := Function.update cache.entries i entry }

/-- The `read` callback: the block at the entry's position, into its data. -/
def load (i : Nat) : Cache β :=
  cache.setEntry i { cache.entries i with
    data := fun offset =>
      if offset < cache.size then cache.device (cache.entries i).position offset
      else (cache.entries i).data offset }

/-- The `write` callback: the entry's data, to the block at its position. -/
def flush (i : Nat) : Cache β :=
  { cache with
    device := Function.update cache.device (cache.entries i).position fun offset =>
      if offset < cache.size then (cache.entries i).data offset
      else cache.device (cache.entries i).position offset }

/-- `move_to_list_head`. -/
def moveToListHead (i : Nat) : Cache β :=
  { cache with lru := i :: cache.lru.erase i }

/-- The entry `get_free_entry` stops at: from the tail of the list, the first one whose write lock
is free. -/
def victim : Option (Nat × RwLock) :=
  cache.lru.reverse.findSome? fun i => (cache.entries i).lock.writeTryLock.map (i, ·)

/-- `get_free_entry`: the entry comes back write-locked and clean. -/
def getFreeEntry : Except Fault (Nat × Cache β) :=
  match cache.victim with
  | none => .error .noEntry
  | some (i, locked) =>
    let cache := cache.setEntry i { cache.entries i with lock := locked }
    if (cache.entries i).dirty then
      let cache := cache.flush i
      let cache := cache.setEntry i { cache.entries i with dirty := false }
      if (cache.entries i).listed then
        .ok (i, cache.setEntry i { cache.entries i with listed := false })
      else
        .error .nullList
    else
      .ok (i, cache)

/-- `find_entry`. -/
def findEntry (position : Nat) : Option Nat :=
  cache.lru.find? fun i => (cache.entries i).position == position

def readLock (i : Nat) : Except Fault (Nat × Cache β) :=
  match (cache.entries i).lock.tryRead with
  | some locked => .ok (i, cache.setEntry i { cache.entries i with lock := locked })
  | none => .error .blocked

def writeLock (i : Nat) : Except Fault (Nat × Cache β) :=
  match (cache.entries i).lock.announceWrite.tryWrite with
  | some locked => .ok (i, cache.setEntry i { cache.entries i with lock := locked })
  | none => .error .blocked

def writeUnlock (cache : Cache β) (i : Nat) : Cache β :=
  cache.setEntry i { cache.entries i with lock := (cache.entries i).lock.writeUnlock }

/-- `block_cache_read`. -/
def blockCacheRead (position : Nat) : Except Fault (Nat × Cache β) :=
  match cache.findEntry position with
  | some i => cache.readLock i
  | none => do
    let (i, cache) ← cache.getFreeEntry
    let cache := cache.setEntry i { cache.entries i with position := position }
    (((cache.load i).moveToListHead i).writeUnlock i).readLock i

/-- `block_cache_write`. -/
def blockCacheWrite (position : Nat) : Except Fault (Nat × Cache β) := do
  let (i, cache) ←
    match cache.findEntry position with
    | some i => cache.writeLock i
    | none => do
      let (i, cache) ← cache.getFreeEntry
      let cache := cache.setEntry i { cache.entries i with position := position }
      .ok (i, cache.moveToListHead i)
  .ok (i, cache.setEntry i { cache.entries i with dirty := true })

/-- `block_cache_read_done`. -/
def blockCacheReadDone (i : Nat) : Cache β :=
  cache.setEntry i { cache.entries i with lock := (cache.entries i).lock.readUnlock }

/-- `block_cache_write_done`. An entry that is already linked is linked again; one that is not
stays so. -/
def blockCacheWriteDone (i : Nat) : Cache β := cache.writeUnlock i

/-- The caller of `block_cache_write` overwrites the bytes `bytes` gives. -/
def overwrite (i : Nat) (bytes : Nat → Option β) : Cache β :=
  cache.setEntry i { cache.entries i with
    data := fun offset =>
      if offset < cache.size then (bytes offset).or ((cache.entries i).data offset)
      else (cache.entries i).data offset }

end Cache

end Horizon.BlockCache
