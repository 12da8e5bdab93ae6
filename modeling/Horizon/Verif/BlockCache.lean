import Horizon.Kernel.BlockCache

/-!
# The block cache against a plain array of blocks

A session is a cache, the plain array of blocks it stands for, and which entries have been given a
position. Two things go wrong: a write that misses takes over its entry without reading the block,
and `get_free_entry` unlinks a dirty entry from a list it is not on.
-/

namespace Horizon.BlockCache

open Function List Cache
open Threads (RwLock)

variable {β : Type}

/-- The cache, the entries in use, and what the blocks should hold. -/
structure Session (β : Type) where
  cache : Cache β
  assigned : Nat → Bool
  array : Nat → Nat → β

/-- The accesses of a session. -/
inductive Access (β : Type) where
  | read (position : Nat)
  | write (position : Nat) (bytes : Nat → Option β)

def Access.position : Access β → Nat
  | read position => position
  | write position _ => position

namespace Session

def written (s : Session β) (position : Nat) (bytes : Nat → Option β) : Nat → Nat → β :=
  update s.array position fun offset => (bytes offset).getD (s.array position offset)

def assignedAfter (s : Session β) (position i : Nat) : Nat → Bool :=
  if (s.cache.findEntry position).isNone then update s.assigned i true else s.assigned

def access (s : Session β) : Access β → Except Fault (Nat × Session β)
  | .read position =>
    (s.cache.blockCacheRead position).map fun got =>
      (got.1, ⟨got.2.blockCacheReadDone got.1, s.assignedAfter position got.1, s.array⟩)
  | .write position bytes =>
    (s.cache.blockCacheWrite position).map fun got =>
      (got.1, ⟨(got.2.overwrite got.1 bytes).blockCacheWriteDone got.1,
        s.assignedAfter position got.1, s.written position bytes⟩)

def start (size count : Nat) (array : Nat → Nat → β) : Session β :=
  ⟨create size count fun position offset => some (array position offset), fun _ => false, array⟩

/-- The entry is in use for the block. -/
def Holds (s : Session β) (i position : Nat) : Prop :=
  s.assigned i = true ∧ (s.cache.entries i).position = position

/-- No position is held twice, an entry that holds a position has the array's block, and the blocks
no entry holds are on the device. -/
structure Right (s : Session β) : Prop where
  once : ∀ i j position, s.Holds i position → s.Holds j position → i = j
  loaded : ∀ i position offset, s.Holds i position → offset < s.cache.size →
    (s.cache.entries i).data offset = some (s.array position offset)
  behind : ∀ position offset, (∀ i, ¬ s.Holds i position) → offset < s.cache.size →
    s.cache.device position offset = some (s.array position offset)

/-- The access worked on an entry that holds its position, a read saw the array's block, and a dirty
entry that was reused is on the device. -/
structure Served (s : Session β) (request : Access β) (i : Nat) (s' : Session β) : Prop where
  holds : s'.Holds i request.position
  seen : ∀ position offset, request = .read position → offset < s.cache.size →
    (s'.cache.entries i).data offset = some (s.array position offset)
  writtenBack : ∀ j old offset, s.Holds j old → ¬ s'.Holds j old →
    (s.cache.entries j).dirty = true → offset < s.cache.size →
    s'.cache.device old offset = (s.cache.entries j).data offset

/-- Every access of the run succeeds and is served, and all states are right. -/
def AlwaysRight (s : Session β) : List (Access β) → Prop
  | [] => s.Right
  | request :: rest => s.Right ∧ ∃ i s', s.access request = .ok (i, s') ∧ s.Served request i s' ∧
      s'.AlwaysRight rest

/-- The condition on one access: a hit is on an entry that was given its position; a miss evicts a
clean entry, and a write that misses overwrites every byte in which that entry's old data differ
from the block. -/
def Fine (s : Session β) (request : Access β) : Prop :=
  match s.cache.findEntry request.position with
  | some i => s.assigned i = true
  | none => ∃ v, s.cache.lru.getLast? = some v ∧ (s.cache.entries v).dirty = false ∧
      ∀ position bytes offset, request = .write position bytes → offset < s.cache.size →
        bytes offset = none → (s.cache.entries v).data offset = some (s.array position offset)

/-- Every access of the run is fine where it happens. -/
def AllFine (s : Session β) : List (Access β) → Prop
  | [] => True
  | request :: rest => s.Fine request ∧ ∀ i s', s.access request = .ok (i, s') → s'.AllFine rest

/-- The invariant: no lock is held, and entries in use are linked and hold their blocks. -/
structure Sound (s : Session β) : Prop where
  /-- Between accesses no lock is held and no entry is linked for flushing. -/
  idle : ∀ i, (s.cache.entries i).lock = RwLock.init ∧ (s.cache.entries i).listed = false
  entries : s.cache.lru ≠ []
  linked : ∀ i, s.assigned i = true → i ∈ s.cache.lru
  right : s.Right
  clean : ∀ i position offset, s.Holds i position → (s.cache.entries i).dirty = false →
    offset < s.cache.size → s.cache.device position offset = some (s.array position offset)

variable {cache : Cache β}

theorem findEntry_some {position i : Nat} (found : cache.findEntry position = some i) :
    (cache.entries i).position = position ∧ i ∈ cache.lru := by
  constructor
  · have matches_ := find?_some found
    exact eq_of_beq matches_
  · exact mem_of_find?_eq_some found

theorem findEntry_none {position : Nat}
    (missed : cache.findEntry position = none) (i : Nat) (linked : i ∈ cache.lru) :
    (cache.entries i).position ≠ position := by
  intro same
  have differs := List.find?_eq_none.mp missed i linked
  apply differs
  rw [same]
  exact beq_self_eq_true position

section

variable {v : Nat} (idle : ∀ i, (cache.entries i).lock = RwLock.init)
  (last : cache.lru.getLast? = some v)
include idle last

theorem victim_idle : cache.victim = some (v, ⟨0, 1, 0⟩) := by
  have shape : cache.lru.reverse.head? = some v := by
    rw [head?_reverse]
    exact last
  unfold victim
  cases reversed : cache.lru.reverse with
  | nil =>
    rw [reversed] at shape
    cases shape
  | cons first rest =>
    rw [reversed] at shape
    have isLast : first = v := Option.some.inj shape
    rw [isLast, findSome?_cons, idle v]
    rfl

theorem getFreeEntry_clean (clean : (cache.entries v).dirty = false) : cache.getFreeEntry
      = .ok (v, cache.setEntry v { cache.entries v with lock := ⟨0, 1, 0⟩ }) := by
  have stillClean : ((cache.setEntry v { cache.entries v with lock := ⟨0, 1, 0⟩ }).entries
      v).dirty = false := by
    simp only [setEntry, update_self]
    exact clean
  rw [getFreeEntry, victim_idle idle last]
  change (if ((cache.setEntry v { cache.entries v with lock := ⟨0, 1, 0⟩ }).entries v).dirty = true
    then _ else _) = _
  rw [stillClean]
  rfl

end

theorem getFreeEntry_dirty {v : Nat}
    (idle : ∀ i, (cache.entries i).lock = RwLock.init ∧ (cache.entries i).listed = false)
    (last : cache.lru.getLast? = some v) (dirty : (cache.entries v).dirty = true) :
    cache.getFreeEntry = .error .nullList := by
  rw [getFreeEntry, victim_idle (fun i => (idle i).1) last]
  simp only [setEntry, flush, update_self, dirty, (idle v).2, if_true,
    Bool.false_eq_true, if_false]

def takenOver (cache : Cache β) (v position : Nat) (data : Nat → Option β) (dirty : Bool) :
    Cache β :=
  ⟨cache.size, update cache.entries v ⟨position, data, dirty, RwLock.init, false⟩,
    v :: cache.lru.erase v, cache.device⟩

def loadedData (cache : Cache β) (v position : Nat) : Nat → Option β := fun offset =>
  if offset < cache.size then cache.device position offset else (cache.entries v).data offset

def overwrittenData (cache : Cache β) (i : Nat) (bytes : Nat → Option β) : Nat → Option β :=
  fun offset =>
    if offset < cache.size then (bytes offset).or ((cache.entries i).data offset)
    else (cache.entries i).data offset

variable {s : Session β}

theorem access_read_hit (sound : s.Sound) {position i : Nat}
    (found : s.cache.findEntry position = some i) : s.access (.read position) = .ok (i, s) := by
  have free := (sound.idle i).1
  have after : s.assignedAfter position i = s.assigned := by
    rw [assignedAfter, found]
    rfl
  have restored : ((s.cache.setEntry i { s.cache.entries i with lock := ⟨1, 0, 0⟩
      }).blockCacheReadDone i) = s.cache := by
    have same : ({ s.cache.entries i with lock := RwLock.init } : Entry β) = s.cache.entries i := by
      rw [← free]
    simp only [blockCacheReadDone, setEntry, update_self, update_idem]
    have unchanged : update s.cache.entries i
        { s.cache.entries i with lock := RwLock.init } = s.cache.entries := by
      rw [same, update_eq_self]
    change Cache.mk s.cache.size (update s.cache.entries i
      { s.cache.entries i with lock := RwLock.init }) s.cache.lru s.cache.device = s.cache
    rw [unchanged]
  rw [access, blockCacheRead, found]
  change (s.cache.readLock i).map _ = _
  rw [readLock, free]
  change Except.ok (i, Session.mk ((s.cache.setEntry i { s.cache.entries i with lock := ⟨1, 0, 0⟩
      }).blockCacheReadDone i) (s.assignedAfter position i) s.array) = _
  rw [restored, after]

theorem access_write_hit (sound : s.Sound) {position i : Nat} (bytes : Nat → Option β)
    (found : s.cache.findEntry position = some i) : s.access (.write position bytes) = .ok (i,
      ⟨s.cache.setEntry i ⟨position, overwrittenData s.cache i bytes, true, RwLock.init, false⟩,
        s.assigned, s.written position bytes⟩) := by
  have free := (sound.idle i).1
  have after : s.assignedAfter position i = s.assigned := by
    rw [assignedAfter, found]
    rfl
  have isPosition := (findEntry_some found).1
  have locked : s.cache.writeLock i
      = .ok (i, s.cache.setEntry i { s.cache.entries i with lock := ⟨0, 1, 0⟩ }) := by
    rw [writeLock, free]
    rfl
  rw [access, blockCacheWrite, found]
  change ((s.cache.writeLock i >>= _).map _) = _
  rw [locked]
  change Except.ok (i, Session.mk _ (s.assignedAfter position i) (s.written position bytes)) = _
  rw [after]
  simp only [setEntry, overwrite, blockCacheWriteDone, writeUnlock,
    update_self, update_idem, isPosition, (sound.idle i).2]
  rfl

variable {position v : Nat}

theorem assignedAfter_miss (missed : s.cache.findEntry position = none) :
    s.assignedAfter position v = update s.assigned v true := by
  rw [assignedAfter, missed]
  rfl

theorem access_read_miss (sound : s.Sound)
    (missed : s.cache.findEntry position = none) (last : s.cache.lru.getLast? = some v)
    (clean : (s.cache.entries v).dirty = false) :
    s.access (.read position) = .ok (v, ⟨takenOver s.cache v position
      (loadedData s.cache v position) false, update s.assigned v true, s.array⟩) := by
  have taken := getFreeEntry_clean (fun i => (sound.idle i).1) last clean
  rw [access, blockCacheRead, missed]
  rw [taken]
  have unlocked : (RwLock.mk 0 1 0).writeUnlock.tryRead = some ⟨1, 0, 0⟩ := rfl
  simp only [bind, Except.bind, setEntry, load, moveToListHead,
    writeUnlock, readLock, blockCacheReadDone, update_self,
    update_idem, clean, (sound.idle v).2, assignedAfter_miss missed, unlocked, Except.map]
  rfl

theorem access_write_miss (sound : s.Sound) (bytes : Nat → Option β)
    (missed : s.cache.findEntry position = none) (last : s.cache.lru.getLast? = some v)
    (clean : (s.cache.entries v).dirty = false) :
    s.access (.write position bytes) = .ok (v, ⟨takenOver s.cache v position
      (overwrittenData s.cache v bytes) true, update s.assigned v true,
      s.written position bytes⟩) := by
  have taken := getFreeEntry_clean (fun i => (sound.idle i).1) last clean
  rw [access, blockCacheWrite, missed]
  rw [taken]
  simp only [bind, Except.bind, setEntry, moveToListHead, overwrite,
    blockCacheWriteDone, writeUnlock, update_self,
    update_idem, (sound.idle v).2, assignedAfter_miss missed, RwLock.writeUnlock,
    Except.map]
  rfl

theorem access_dirty (sound : s.Sound) (request : Access β)
    (missed : s.cache.findEntry request.position = none)
    (last : s.cache.lru.getLast? = some v) (dirty : (s.cache.entries v).dirty = true) :
    s.access request = .error .nullList := by
  have faults := getFreeEntry_dirty sound.idle last dirty
  cases request with
  | read position =>
    change s.cache.findEntry position = none at missed
    rw [access, blockCacheRead, missed]
    rw [faults]
    rfl
  | write position bytes =>
    change s.cache.findEntry position = none at missed
    rw [access, blockCacheWrite, missed]
    rw [faults]
    rfl

theorem not_holds_of_missed (sound : s.Sound) (missed : s.cache.findEntry position = none)
    (i : Nat) : ¬ s.Holds i position := by
  intro holds
  exact findEntry_none missed i (sound.linked i holds.1) holds.2

variable {array : Nat → Nat → β} {data : Nat → Option β}

/-- The session after entry `v` was given to `position`, beside another array. -/
def given (s : Session β) (v position : Nat) (data : Nat → Option β) (dirty : Bool)
    (lru : List Nat) (array : Nat → Nat → β) : Session β where
  cache := { s.cache with
    entries := update s.cache.entries v ⟨position, data, dirty, RwLock.init, false⟩, lru := lru }
  assigned := update s.assigned v true
  array := array

variable {dirty : Bool} {lru : List Nat} {j q : Nat}

theorem holds_given_of_ne (other : j ≠ v) :
    (s.given v position data dirty lru array).Holds j q ↔ s.Holds j q := by
  simp only [Holds, given, update_of_ne other]

theorem holds_given_self : (s.given v position data dirty lru array).Holds v q ↔ position = q := by
  simp only [Holds, given, update_self, true_and]

section

variable (sound : s.Sound) (elsewhere : ∀ q, q ≠ position → array q = s.array q)
  (holdsBlock : ∀ offset, offset < s.cache.size → data offset = some (array position offset))
  (onDevice : dirty = false → ∀ offset, offset < s.cache.size →
    s.cache.device position offset = some (array position offset))
include sound elsewhere holdsBlock onDevice

theorem sound_given (nonempty : lru ≠ [])
    (linked : ∀ i, i = v ∨ i ∈ s.cache.lru → i ∈ lru) (free : ∀ i ≠ v, ¬ s.Holds i position)
    (victimClean : ∀ q ≠ position, s.Holds v q → (s.cache.entries v).dirty = false) :
    (s.given v position data dirty lru array).Sound := by
  refine ⟨fun i => ?_, nonempty, fun i isAssigned => linked i ?_, ⟨?_, ?_, ?_⟩, ?_⟩
  · by_cases same : i = v
    · simp only [given, same, update_self, and_self]
    · simp only [given, update_of_ne same]
      exact sound.idle i
  · refine or_iff_not_imp_left.mpr fun other => sound.linked i ?_
    simpa only [given, update_of_ne other] using isAssigned
  · -- a position is held once: only `v` holds the one it was given
    intro i j q iHolds jHolds
    by_cases iIsV : i = v
    · by_cases jIsV : j = v
      · rw [iIsV, jIsV]
      · rw [iIsV, holds_given_self] at iHolds
        rw [holds_given_of_ne jIsV, ← iHolds] at jHolds
        exact absurd jHolds (free j jIsV)
    · rw [holds_given_of_ne iIsV] at iHolds
      by_cases jIsV : j = v
      · rw [jIsV, holds_given_self] at jHolds
        rw [← jHolds] at iHolds
        exact absurd iHolds (free i iIsV)
      · rw [holds_given_of_ne jIsV] at jHolds
        exact sound.right.once i j q iHolds jHolds
  · intro i q offset holds inside
    by_cases isV : i = v
    · rw [isV, holds_given_self] at holds
      rw [isV, ← holds]
      simp only [given, update_self]
      exact holdsBlock offset inside
    · rw [holds_given_of_ne isV] at holds
      have other : q ≠ position := fun same => free i isV (same ▸ holds)
      simp only [given, update_of_ne isV, elsewhere q other]
      exact sound.right.loaded i q offset holds inside
  · -- what `v` held before is on the device, since it was clean
    intro q offset notHeld inside
    have other : q ≠ position := fun same => notHeld v (holds_given_self.mpr same.symm)
    change s.cache.device q offset = some (array q offset)
    rw [elsewhere q other]
    by_cases held : s.Holds v q
    · exact sound.clean v q offset held (victimClean q other held) inside
    · apply sound.right.behind q offset _ inside
      intro i holds
      by_cases isV : i = v
      · exact held (isV ▸ holds)
      · exact notHeld i ((holds_given_of_ne isV).mpr holds)
  · intro i q offset holds isClean inside
    change s.cache.device q offset = some (array q offset)
    by_cases isV : i = v
    · rw [isV, holds_given_self] at holds
      rw [← holds]
      apply onDevice _ offset inside
      simp only [given, isV, update_self] at isClean
      exact isClean
    · rw [holds_given_of_ne isV] at holds
      have other : q ≠ position := fun same => free i isV (same ▸ holds)
      simp only [given, update_of_ne isV] at isClean
      rw [elsewhere q other]
      exact sound.clean i q offset holds isClean inside

/-- An entry that is taken over for another block keeps the invariant. -/
theorem sound_takenOver (missed : s.cache.findEntry position = none)
    (victimClean : (s.cache.entries v).dirty = false) :
    Sound ⟨takenOver s.cache v position data dirty, update s.assigned v true, array⟩ := by
  refine sound_given sound elsewhere holdsBlock onDevice (cons_ne_nil _ _) (fun i linked => ?_)
    (fun i _ => not_holds_of_missed sound missed i) fun _ _ _ => victimClean
  by_cases same : i = v
  · rw [same]
    exact mem_cons_self
  · exact mem_cons_of_mem v ((mem_erase_of_ne same).mpr (linked.resolve_left same))

end

theorem or_some_getD (byte : Option β) (old : β) : byte.or (some old) = some (byte.getD old) := by
  cases byte <;> rfl

variable {request : Access β} {i : Nat} {s' : Session β}

/-- A write to a cached block keeps the invariant. -/
theorem sound_write_hit (sound : s.Sound) (bytes : Nat → Option β) (iHolds : s.Holds i position) :
    Sound ⟨s.cache.setEntry i ⟨position, overwrittenData s.cache i bytes, true, RwLock.init, false⟩,
      s.assigned, s.written position bytes⟩ := by
  have assigned : update s.assigned i true = s.assigned := by
    rw [← iHolds.1]
    exact update_eq_self _ _
  have block : ∀ offset, offset < s.cache.size → overwrittenData s.cache i bytes offset =
      some (s.written position bytes position offset) := by
    intro offset inside
    rw [overwrittenData, if_pos inside, sound.right.loaded i position offset iHolds inside,
      written, update_self, or_some_getD]
  have after : (s.given i position (overwrittenData s.cache i bytes) true s.cache.lru
      (s.written position bytes)).Sound := by
    refine sound_given sound (fun q other => update_of_ne other _ _) block nofun sound.entries
      (fun j linked => ?_) (fun j other holds => ?_) fun q other holds => ?_
    · rcases linked with rfl | linked
      · exact sound.linked j iHolds.1
      · exact linked
    · exact other (sound.right.once j i position holds iHolds)
    · exact absurd (holds.2.symm.trans iHolds.2) other
  rw [given, assigned] at after
  exact after

theorem exists_last (sound : s.Sound) : ∃ v, s.cache.lru.getLast? = some v :=
  ⟨_, getLast?_eq_some_getLast sound.entries⟩

theorem holds_kept (victimClean : (s.cache.entries v).dirty = false)
    (isDirty : (s.cache.entries j).dirty = true) (holds : s.Holds j q) :
    Holds ⟨takenOver s.cache v position data dirty, update s.assigned v true, array⟩
      j q := by
  have other : j ≠ v := by
    intro same
    rw [same, victimClean] at isDirty
    cases isDirty
  exact (holds_given_of_ne other).mpr holds

theorem access_fine (sound : s.Sound) (fine : s.Fine request) :
    ∃ i s', s.access request = .ok (i, s') ∧ s.Served request i s' ∧ s'.Sound := by
  unfold Fine at fine
  cases looked : s.cache.findEntry request.position with
  | some i =>
    rw [looked] at fine
    have iHolds : s.Holds i request.position := ⟨fine, (findEntry_some looked).1⟩
    cases request with
    | read position =>
      refine ⟨i, s, access_read_hit sound looked, ⟨iHolds, ?_, ?_⟩, sound⟩
      · intro q offset isRead inside
        cases isRead
        exact sound.right.loaded i position offset iHolds inside
      · intro j q offset holds released
        exact absurd holds released
    | write position bytes =>
      have kept := sound_write_hit sound bytes iHolds
      refine ⟨i, _, access_write_hit sound bytes looked, ⟨?_, ?_, ?_⟩, kept⟩
      · refine ⟨fine, ?_⟩
        simp only [setEntry, update_self]
        rfl
      · intro q offset isRead
        cases isRead
      · intro j q offset holds released
        refine absurd ⟨holds.1, ?_⟩ released
        by_cases isI : j = i
        · simp only [setEntry, isI, update_self]
          rw [isI] at holds
          exact iHolds.2.symm.trans holds.2
        · simp only [setEntry, update_of_ne isI]
          exact holds.2
  | none =>
    rw [looked] at fine
    obtain ⟨v, last, victimClean, agrees⟩ := fine
    have behind := sound.right.behind request.position
    have free := not_holds_of_missed sound looked
    cases request with
    | read position =>
      have block : ∀ offset, offset < s.cache.size →
          loadedData s.cache v position offset = some (s.array position offset) := by
        intro offset inside
        rw [loadedData, if_pos inside]
        exact behind offset free inside
      refine ⟨v, _, access_read_miss sound looked last victimClean, ⟨?_, ?_, ?_⟩,
        sound_takenOver sound (fun _ _ => rfl) block
          (fun _ offset inside => behind offset free inside) looked victimClean⟩
      · exact holds_given_self.mpr rfl
      · intro q offset isRead inside
        cases isRead
        simp only [takenOver, update_self]
        exact block offset inside
      · intro j q offset holds released isDirty
        exact absurd (holds_kept victimClean isDirty holds) released
    | write position bytes =>
      have block : ∀ offset, offset < s.cache.size →
          overwrittenData s.cache v bytes offset =
            some (s.written position bytes position offset) := by
        intro offset inside
        rw [overwrittenData, if_pos inside, written, update_self]
        cases given : bytes offset with
        | some byte => rfl
        | none => exact agrees position bytes offset rfl inside given
      refine ⟨v, _, access_write_miss sound bytes looked last victimClean, ⟨?_, ?_, ?_⟩,
        sound_takenOver sound ?_ block nofun looked victimClean⟩
      · exact holds_given_self.mpr rfl
      · intro q offset isRead
        cases isRead
      · intro j q offset holds released isDirty
        exact absurd (holds_kept victimClean isDirty holds) released
      · intro q other
        rw [written, update_of_ne other]

theorem fine_of_served (sound : s.Sound) (done : s.access request = .ok (i, s'))
    (served : s.Served request i s') (right : s'.Right) : s.Fine request := by
  unfold Fine
  cases looked : s.cache.findEntry request.position with
  | some j =>
    -- a hit assigns no position, so the entry had one before
    have same : i = j ∧ s'.assigned = s.assigned := by
      cases request with
      | read position =>
        change s.cache.findEntry position = some j at looked
        rw [access_read_hit sound looked] at done
        cases done
        exact ⟨rfl, rfl⟩
      | write position bytes =>
        change s.cache.findEntry position = some j at looked
        rw [access_write_hit sound bytes looked] at done
        cases done
        exact ⟨rfl, rfl⟩
    rw [← same.1, ← same.2]
    exact served.holds.1
  | none =>
    obtain ⟨v, last⟩ := exists_last sound
    cases isDirty : (s.cache.entries v).dirty with
    | true =>
      rw [access_dirty sound request looked last isDirty] at done
      cases done
    | false =>
      refine ⟨v, last, isDirty, ?_⟩
      intro position bytes offset isWrite inside notGiven
      rw [isWrite] at looked done
      change s.cache.findEntry position = none at looked
      rw [access_write_miss sound bytes looked last isDirty] at done
      cases done
      have block := right.loaded _ position offset (holds_given_self.mpr rfl) inside
      simp only [takenOver, update_self, overwrittenData, if_pos inside, notGiven,
        Option.none_or, written, Option.getD_none] at block
      exact block

/-- A new cache satisfies the invariant. -/
theorem sound_start (size : Nat) {count : Nat} (array : Nat → Nat → β) (some_ : 0 < count) :
    (start size count array).Sound := by
  have unassigned : ∀ i q, ¬ (start size count array).Holds i q := fun i q holds =>
    absurd holds.1 Bool.false_ne_true
  refine ⟨fun i => ⟨rfl, rfl⟩, ?_, fun i assigned => absurd assigned Bool.false_ne_true,
    ⟨?_, ?_, ?_⟩, ?_⟩
  · intro empty
    have length : (List.range count).length = 0 := by
      change List.range count = [] at empty
      rw [empty]
      rfl
    rw [length_range] at length
    omega
  · intro i j q holds
    exact absurd holds (unassigned i q)
  · intro i q offset holds
    exact absurd holds (unassigned i q)
  · intro q offset _ _
    rfl
  · intro i q offset holds
    exact absurd holds (unassigned i q)

/-- Over a run from a sound state: all is right exactly when every access is fine. -/
theorem alwaysRight_iff_allFine (run : List (Access β)) (sound : s.Sound) :
    s.AlwaysRight run ↔ s.AllFine run := by
  induction run generalizing s with
  | nil => exact ⟨fun _ => trivial, fun _ => sound.right⟩
  | cons request rest ih =>
    constructor
    · intro always
      obtain ⟨_, i, s', done, served, later⟩ := always
      have right' : s'.Right := by
        cases rest with
        | nil => exact later
        | cons next others => exact later.1
      have fine := fine_of_served sound done served right'
      refine ⟨fine, fun j other alsoDone => ?_⟩
      obtain ⟨k, known, knownDone, _, soundAfter⟩ := access_fine sound fine
      rw [done] at alsoDone knownDone
      cases alsoDone
      cases knownDone
      exact (ih soundAfter).mp later
    · intro allFine
      obtain ⟨i, s', done, served, soundAfter⟩ := access_fine sound allFine.1
      exact ⟨sound.right, i, s', done, served, (ih soundAfter).mpr (allFine.2 i s' done)⟩

theorem allFine_cons {rest : List (Access β)} (fine : s.Fine request)
    (done : s.access request = .ok (i, s')) (later : s'.AllFine rest) :
    s.AllFine (request :: rest) := by
  refine ⟨fine, fun j other alsoDone => ?_⟩
  rw [done] at alsoDone
  cases alsoDone
  exact later

end Session

open Session

/-- The cache behaves as the plain array in every state of every run of accesses exactly when each
access meets the condition. -/
theorem block_cache_right_iff (size count : Nat) (array : Nat → Nat → β) (some_ : 0 < count)
    (run : List (Access β)) :
    (start size count array).AlwaysRight run ↔ (start size count array).AllFine run :=
  alwaysRight_iff_allFine run (sound_start size array some_)

/-- Blocks of two bytes; byte `o` of block `p` is `10 * p + o`. -/
def tens : Nat → Nat → Nat := fun position offset => 10 * position + offset

def rewriteBlock : List (Access Nat) := [.read 3, .write 3 (fun _ => some 7), .read 3]

/-- Rewriting a whole block through a cache of one entry is right. -/
theorem rewriteBlock_right : 0 < 1 ∧ (start 2 1 tens).AlwaysRight rewriteBlock := by
  refine ⟨one_pos, (block_cache_right_iff 2 1 tens one_pos rewriteBlock).mpr ?_⟩
  refine allFine_cons ⟨0, rfl, rfl, fun _ _ _ isWrite => by cases isWrite⟩ rfl ?_
  refine allFine_cons rfl rfl ?_
  exact allFine_cons rfl rfl trivial

def writeOneByte : List (Access Nat) :=
  [.read 0, .write 1 (fun offset => if offset = 0 then some 9 else none), .read 1]

def readAfterWrite : List (Access Nat) := [.read 0, .write 0 (fun _ => some 9), .read 1]

/-- With one entry: after one byte of block 1 is written, a read of block 1 gives the other byte of
block 0; and evicting a written block faults. -/
theorem stale_bytes_and_dirty_eviction :
    (∃ i s j s' k s'', (start 2 1 tens).access (.read 0) = .ok (i, s)
      ∧ s.access (.write 1 (fun offset => if offset = 0 then some 9 else none)) = .ok (j, s')
      ∧ s'.access (.read 1) = .ok (k, s'')
      ∧ s''.Holds k 1 ∧ (s''.cache.entries k).data 1 = some 1 ∧ s''.array 1 1 = 11)
    ∧ ¬ (start 2 1 tens).AlwaysRight writeOneByte
    ∧ (∃ i s j s', (start 2 1 tens).access (.read 0) = .ok (i, s)
      ∧ s.access (.write 0 (fun _ => some 9)) = .ok (j, s')
      ∧ s'.access (.read 1) = .error .nullList)
    ∧ ¬ (start 2 1 tens).AlwaysRight readAfterWrite := by
  refine ⟨⟨_, _, _, _, _, _, rfl, rfl, rfl, ⟨rfl, rfl⟩, rfl, rfl⟩, ?_,
    ⟨_, _, _, _, rfl, rfl, rfl⟩, ?_⟩
  · intro always
    obtain ⟨_, i, s, done, _, _, j, s', done', served, right, _⟩ := always
    cases done
    cases done'
    have block := right.loaded 0 1 1 ⟨rfl, rfl⟩ (by decide)
    cases block
  · intro always
    obtain ⟨_, i, s, done, _, _, j, s', done', _, _, k, s'', done'', _⟩ := always
    cases done
    cases done'
    cases done''

end Horizon.BlockCache
