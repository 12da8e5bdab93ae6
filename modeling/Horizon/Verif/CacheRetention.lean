import Horizon.Kernel.MemCache
import Horizon.Verif.FrameMeta
import Horizon.Verif.Slub

/-!
# What a cache retains

`store` drops a slab that has become full, and `kfree` only puts the object back into the chain of
its slab. As long as objects are given back to slabs that still have a free one, every block is in
the slot or on the partial list, or all its objects are live.
-/

namespace Horizon.Slub

open Function Memory FreeChain List MemCache

def blockOf (config : CacheConfig) (address : Nat) : Nat :=
  alignDown (address / pageSize) config.frameOrder

/-- A cache with the live objects of each block and the blocks it took. -/
structure CacheSession where
  cache : MemCache
  live : Nat → List Nat
  taken : List Nat

/-- The calls of a session. -/
inductive CacheCall
  /-- `allocate`, with the block and contents that the buddy allocator would return. -/
  | allocate (block : Option (Nat × (Nat → Nat)))
  | kfree (object : Nat)
  | write (object word : Nat)

namespace CacheSession

def slabSession (s : CacheSession) (block : Nat) : Session := ⟨s.cache.slabs block, s.live block⟩

def replaceSlab (s : CacheSession) (block : Nat) (slab : Session) : CacheSession where
  cache := { s.cache with slabs := update s.cache.slabs block slab.slab }
  live := update s.live block slab.live
  taken := s.taken

/-- The block that the buddy allocator offers, if any, is aligned, is not at the null address, is
none of the blocks taken and no slab. Only live objects are given back or written. -/
def Allowed (s : CacheSession) : CacheCall → Prop
  | .allocate none => True
  | .allocate (some (block, _)) =>
    2 ^ s.cache.config.frameOrder ∣ block ∧ 0 < block ∧ block ∉ s.taken ∧
      (s.cache.frames block).tag ≠ .slub
  | .kfree object | .write object _ => object ∈ s.live (blockOf s.cache.config object)

instance (s : CacheSession) : (call : CacheCall) → Decidable (s.Allowed call)
  | .allocate none => .isTrue trivial
  | .allocate (some (block, _)) => inferInstanceAs
    (Decidable (2 ^ s.cache.config.frameOrder ∣ block ∧ 0 < block ∧ block ∉ s.taken ∧
      (s.cache.frames block).tag ≠ .slub))
  | .kfree object | .write object _ =>
    inferInstanceAs (Decidable (object ∈ s.live (blockOf s.cache.config object)))

def addLive (s : CacheSession) (result : Option Nat) : Nat → List Nat :=
  match result with
  | none => s.live
  | some object =>
    let block := blockOf s.cache.config object
    update s.live block (object :: s.live block)

/-- The blocks taken after a call that was offered a block: the block was taken if it is a slab
now. -/
def addTaken (s : CacheSession) (cache : MemCache) : Option (Nat × (Nat → Nat)) → List Nat
  | some (block, _) => if (cache.frames block).tag = .slub then block :: s.taken else s.taken
  | none => s.taken

def apply (memCache : Nat) (s : CacheSession) : CacheCall → Except Panic CacheSession
  | .allocate block => do
    let (result, cache) ← s.cache.allocate memCache block
    return ⟨cache, s.addLive result, s.addTaken cache block⟩
  | .kfree object => do
    let cache ← s.cache.kfree object
    let block := blockOf s.cache.config object
    return ⟨cache, update s.live block ((s.live block).erase object), s.taken⟩
  | .write object word =>
    let block := blockOf s.cache.config object
    .ok (s.replaceSlab block ((s.slabSession block).apply (.write object word)))

/-- All objects of the slab are live. -/
def Full (s : CacheSession) (block : Nat) : Prop :=
  (s.slabSession block).AllLive s.cache.config (blockBase block)

instance (s : CacheSession) (block : Nat) : Decidable (s.Full block) :=
  inferInstanceAs (Decidable (Session.AllLive _ _ _))

def retained (s : CacheSession) : List Nat :=
  s.taken.filter fun block => (s.cache.frames block).tag ≠ .buddy

/-- What a session must satisfy. -/
structure Tracked (s : CacheSession) : Prop where
  /-- A block taken is in the slot or on the partial list, has all its objects live, or is the
  buddy allocator's again. -/
  reachable : ∀ block ∈ s.taken, s.cache.slot = some block ∨ block ∈ s.cache.partials ∨
    s.Full block ∨ (s.cache.frames block).tag = .buddy
  /-- With no live object the cache retains the slab of the slot and a partial list within its
  limit. -/
  bounded : (∀ block ∈ s.taken, s.live block = []) →
    s.retained.length ≤ s.cache.config.minPartial + 1

/-- No call panics and no state along the calls loses a block. -/
def AlwaysTracked (memCache : Nat) : CacheSession → List CacheCall → Prop
  | s, [] => s.Tracked
  | s, call :: rest => s.Tracked ∧
    (s.Allowed call →
      ∃ after, s.apply memCache call = .ok after ∧ AlwaysTracked memCache after rest)

theorem AlwaysTracked.head {memCache : Nat} {s : CacheSession} {calls : List CacheCall}
    (always : AlwaysTracked memCache s calls) : s.Tracked := by
  cases calls with
  | nil => exact always
  | cons call rest => exact always.1

def freeOpen (s : CacheSession) : CacheCall → Bool
  | .kfree object => decide (¬ s.Full (blockOf s.cache.config object))
  | _ => true

def freesOpen (memCache : Nat) : CacheSession → List CacheCall → Bool
  | _, [] => true
  | s, call :: rest =>
    if s.Allowed call then
      s.freeOpen call &&
        match s.apply memCache call with
        | .ok after => freesOpen memCache after rest
        | .error _ => true
    else true

/-- The records of the frames of a slab. -/
structure SlabFrames (config : CacheConfig) (frames : Vmemmap) (block : Nat) : Prop where
  head : (frames block).tag = .slub
  tail : ∀ frame, block < frame → frame < block + 2 ^ config.frameOrder →
    (frames frame).tag = .tail ∧
      (frames frame).data = .range ⟨block, block + 2 ^ config.frameOrder⟩

/-- Blocks of the cache: aligned, away from null, with their records and their objects in order. -/
structure Block (s : CacheSession) (block : Nat) : Prop where
  aligned : 2 ^ s.cache.config.frameOrder ∣ block
  positive : 0 < block
  frames : SlabFrames s.cache.config s.cache.frames block
  balanced : ∃ free, (s.slabSession block).Balanced s.cache.config (blockBase block) 0 free

/-- The slab in hand and the slabs of the slot and of the partial list. -/
def places (s : CacheSession) (held : Option Nat) : List Nat :=
  held.toList ++ (s.cache.slot.toList ++ s.cache.partials)

/-- What every call keeps while a slab may be in hand; `held` is the slab in hand. -/
structure Kept (s : CacheSession) (held : Option Nat) : Prop where
  fits : s.cache.config.Fits
  block : ∀ block ∈ s.taken, s.Block block
  taken_nodup : s.taken.Nodup
  foreign : ∀ block, block ∉ s.taken → s.live block = []
  short : s.cache.partials.length ≤ s.cache.config.minPartial
  /-- The slot is empty while a slab is in hand. -/
  empty : held ≠ none → s.cache.slot = none
  nodup : (s.places held).Nodup
  /-- The blocks with a free object are those the cache can reach. -/
  mem_places : ∀ block, block ∈ s.places held ↔ block ∈ s.taken ∧ ¬ s.Full block

section Addresses

variable {config : CacheConfig} {block frame object : Nat}

theorem alignDown_eq_of_inside {order : Nat} (aligned : 2 ^ order ∣ block) (low : block ≤ frame)
    (high : frame < block + 2 ^ order) : alignDown frame order = block := by
  obtain ⟨index, rfl⟩ := aligned
  unfold alignDown
  have quotient : frame / 2 ^ order = index := by
    rw [Nat.div_eq_iff (Nat.two_pow_pos order)]
    rw [mul_comm] at low high
    omega
  rw [quotient, mul_comm]

theorem frame_of_object (fits : config.Fits) (belongs : object ∈ objects config (blockBase block)) :
    block ≤ object / pageSize ∧ object / pageSize < block + 2 ^ config.frameOrder := by
  have inside := object_inside fits belongs
  have size := fits.objectSize_pos
  unfold blockBase slabSize at inside
  constructor
  · rw [Nat.le_div_iff_mul_le (by decide)]
    exact inside.1
  · rw [Nat.div_lt_iff_lt_mul (by decide), add_mul, mul_comm (2 ^ config.frameOrder)]
    omega

theorem blockOf_object (fits : config.Fits) (aligned : 2 ^ config.frameOrder ∣ block)
    (belongs : object ∈ objects config (blockBase block)) : blockOf config object = block := by
  have inside := frame_of_object fits belongs
  exact alignDown_eq_of_inside aligned inside.1 inside.2

theorem slabOf_object {frames : Vmemmap} (fits : config.Fits)
    (slab : SlabFrames config frames block) (belongs : object ∈ objects config (blockBase block)) :
    slabOf frames object = .ok (some block) := by
  have inside := frame_of_object fits belongs
  by_cases first : object / pageSize = block
  · simp [slabOf, first, slab.head]
  · have tail := slab.tail (object / pageSize) (by omega) inside.2
    simp [slabOf, tail.1, tail.2, FrameData.getRange, slab.head, bind, Except.bind, pure,
      Except.pure]

end Addresses

section Steps

variable {memCache block : Nat} {s : CacheSession} {held : Option Nat} {t : Session}

theorem slabSession_replaceSlab (other : Nat) : (s.replaceSlab block t).slabSession other =
      if other = block then t else s.slabSession other := by
  by_cases same : other = block
  · subst same
    simp [slabSession, replaceSlab]
  · simp [slabSession, replaceSlab, same]

theorem full_replaceSlab (other : Nat) : (s.replaceSlab block t).Full other ↔
      if other = block then t.AllLive s.cache.config (blockBase block) else s.Full other := by
  unfold Full
  rw [slabSession_replaceSlab]
  split
  · rename_i same
    rw [same]
    rfl
  · exact Iff.rfl

theorem isFull_iff (fits : s.cache.config.Fits) (known : s.Block block) :
    s.cache.isFull block = true ↔ s.Full block := by
  obtain ⟨free, balanced⟩ := known.balanced
  have length := balanced.length
  have inuse : (s.cache.slabs block).inuse = (s.live block).length := balanced.inuse
  rw [Full, balanced.allLive_iff fits, ← length_eq_zero_iff]
  simp only [isFull, beq_iff_eq, inuse]
  simp only [slabSession] at length
  omega

theorem Kept.block_replaceSlab (kept : Kept s held)
    (balanced : ∃ free, t.Balanced s.cache.config (blockBase block) 0 free) (other : Nat)
    (member : other ∈ s.taken) : (s.replaceSlab block t).Block other := by
  refine { kept.block other member with balanced := ?_ }
  rw [slabSession_replaceSlab]
  split
  case isTrue equal =>
    rw [equal]
    exact balanced
  case isFalse => exact (kept.block other member).balanced

theorem Kept.foreign_replaceSlab (kept : Kept s held) (known : block ∈ s.taken) (other : Nat)
    (outside : other ∉ s.taken) : (s.replaceSlab block t).live other = [] := by
  have distinct : other ≠ block := fun equal => outside (equal ▸ known)
  simpa [CacheSession.replaceSlab, distinct] using kept.foreign other outside

theorem Kept.replaceSlab (kept : Kept s held) (known : block ∈ s.taken)
    (balanced : ∃ free, t.Balanced s.cache.config (blockBase block) 0 free)
    (same : t.AllLive s.cache.config (blockBase block) ↔ s.Full block) :
    Kept (s.replaceSlab block t) held := by
  have full : ∀ other, (s.replaceSlab block t).Full other ↔ s.Full other := by
    intro other
    rw [full_replaceSlab]
    split
    · rename_i equal
      rw [equal, same]
    · exact Iff.rfl
  refine { kept with
    block := kept.block_replaceSlab balanced
    foreign := kept.foreign_replaceSlab known
    mem_places := fun other => ?_ }
  rw [full]
  exact kept.mem_places other

variable {cache : MemCache} {offer : Option (Nat × (Nat → Nat))}

theorem store_eq (empty : cache.slot = none) : cache.store block =
      .ok (if cache.isFull block then cache else { cache with slot := some block }) := by
  simp only [store, compareExchange, empty]
  split <;> rfl

def served (s : CacheSession) (memCache block : Nat) : CacheSession :=
  let after := s.replaceSlab block ((s.slabSession block).apply (.allocate memCache))
  { after with cache := { after.cache with
      slot := if after.cache.isFull block then none else some block } }

theorem Kept.allocateFrom (kept : Kept s (some block)) (memCache : Nat) :
    ∃ object, blockOf s.cache.config object = block ∧
      (s.cache.allocateFrom memCache block).1 = some object ∧
      (s.cache.allocateFrom memCache block).2.store block = .ok (s.served memCache block).cache ∧
      (s.served memCache block).live =
        update s.live block (object :: s.live block) ∧
      ∃ free, ((s.slabSession block).apply (.allocate memCache)).Balanced s.cache.config
        (blockBase block) 0 free := by
  obtain ⟨member, open_⟩ := (kept.mem_places block).mp (by simp [places])
  have known := kept.block block member
  obtain ⟨free, balanced⟩ := known.balanced
  have nonempty : free ≠ [] := fun empty => open_ ((balanced.allLive_iff kept.fits).mpr empty)
  cases free with
  | nil => exact absurd rfl nonempty
  | cons object rest =>
    have positive : 0 < blockBase block := mul_pos known.positive (by decide)
    obtain ⟨call, after⟩ := balanced.allocate_free positive memCache
    have belongs := balanced.objects_perm.mem_iff.mp mem_cons_self
    have cache : (s.cache.allocateFrom memCache block).2 =
        (s.replaceSlab block ((s.slabSession block).apply (.allocate memCache))).cache := by
      have call := call
      simp only [slabSession] at call
      simp only [MemCache.allocateFrom, CacheSession.replaceSlab, Session.apply, slabSession, call]
    have empty := kept.empty (Option.some_ne_none block)
    refine ⟨object, blockOf_object kept.fits known.aligned belongs, ?_, ?_, ?_, rest, after⟩
    · simp only [slabSession] at call
      simp only [MemCache.allocateFrom, call]
    · rw [cache, store_eq (by exact empty), served]
      split
      · rw [← empty]
        rfl
      · rfl
    · have live : ((s.slabSession block).apply (.allocate memCache)).live =
          object :: s.live block := by
        simp only [Session.apply, call]
        rfl
      simp only [served, CacheSession.replaceSlab, live]

theorem Kept.served (kept : Kept s (some block))
    (balanced : ∃ free, ((s.slabSession block).apply (.allocate memCache)).Balanced s.cache.config
      (blockBase block) 0 free) : Kept (s.served memCache block) none := by
  have before : s.places (some block) = block :: s.cache.partials := by
    simp [places, kept.empty]
  have nodup := kept.nodup
  have reached := kept.mem_places
  rw [before] at nodup reached
  obtain ⟨outside, listed⟩ := nodup_cons.mp nodup
  obtain ⟨member, _⟩ := (reached block).mp mem_cons_self
  have known : ∀ other ∈ s.taken, (s.served memCache block).Block other := fun other taken =>
    { kept.block_replaceSlab balanced other taken with }
  have full : (s.served memCache block).cache.isFull block = true ↔
      (s.served memCache block).Full block := isFull_iff kept.fits (known block member)
  have after : (s.served memCache block).places none =
      if (s.served memCache block).cache.isFull block then s.cache.partials
      else block :: s.cache.partials := by
    have slot : (s.served memCache block).cache.slot =
        if (s.served memCache block).cache.isFull block then none else some block := rfl
    rw [places, slot]
    split <;> rfl
  refine { kept with
    block := known
    foreign := kept.foreign_replaceSlab member
    empty := nofun
    nodup := ?_
    mem_places := ?_ }
  · rw [after]
    split
    · exact listed
    · exact nodup
  · intro other
    rw [after]
    by_cases same : other = block
    · subst same
      have taken : other ∈ (s.served memCache other).taken := member
      by_cases all : (s.served memCache other).cache.isFull other
      · simp [all, outside, full.mp all]
      · simp [all, taken, mt full.mpr all]
    · have changed : (s.served memCache block).Full other ↔ s.Full other := by
        have replaced : (s.replaceSlab block ((s.slabSession block).apply
            (.allocate memCache))).Full other ↔ s.Full other := by
          rw [full_replaceSlab, if_neg same]
        exact replaced
      rw [changed]
      refine Iff.trans ?_ (reached other)
      split <;> simp [same]

/-- The first slab that can be reached is taken in hand, and the slot is empty then. -/
theorem Kept.pick (kept : Kept s none) {slot : Option Nat} {rest : List Nat} (count : Nat)
    (empty : slot = none) (first : s.places none = block :: rest) :
    Kept { s with cache := { s.cache with slot := slot, partials := rest, count := count } }
      (some block) := by
  have same : places { s with cache := { s.cache with
      slot := slot, partials := rest, count := count } } (some block) = s.places none := by
    rw [first]
    simp [places, empty]
  refine { kept with
    block := fun other taken => { kept.block other taken with }
    short := ?_
    empty := fun _ => empty
    nodup := same ▸ kept.nodup
    mem_places := fun other => ?_ }
  · have length := congrArg List.length first
    have short := kept.short
    change rest.length ≤ s.cache.config.minPartial
    cases inSlot : s.cache.slot <;> simp [places, inSlot] at length <;> omega
  · rw [same]
    exact kept.mem_places other

theorem newSlab_frames (cache : MemCache) (block : Nat) (mem : Nat → Nat) :
    SlabFrames cache.config (cache.newSlab block mem).frames block ∧
      ∀ frame, frame < block ∨ block + 2 ^ cache.config.frameOrder ≤ frame →
        (cache.newSlab block mem).frames frame = cache.frames frame := by
  have power := Nat.two_pow_pos cache.config.frameOrder
  refine ⟨⟨?_, ?_⟩, ?_⟩
  · simp [newSlab, Vmemmap.replace]
  · intro frame low high
    have distinct : frame ≠ block := by omega
    simp only [newSlab]
    rw [replace_ne _ _ _ _ distinct, setTailFrames_apply, if_pos ⟨low, high⟩]
    exact ⟨rfl, rfl⟩
  · intro frame outside
    have distinct : frame ≠ block := by omega
    simp only [newSlab]
    rw [replace_ne _ _ _ _ distinct, setTailFrames_apply, if_neg (by simp only; omega),
      replace_ne _ _ _ _ distinct]

theorem outside_of_aligned {order other frame : Nat} (aligned : 2 ^ order ∣ block)
    (otherAligned : 2 ^ order ∣ other) (distinct : other ≠ block) (low : other ≤ frame)
    (high : frame < other + 2 ^ order) : frame < block ∨ block + 2 ^ order ≤ frame := by
  by_contra inside
  have first := alignDown_eq_of_inside otherAligned low high
  have second := alignDown_eq_of_inside aligned (by omega) (by omega : frame < block + 2 ^ order)
  exact distinct (first.symm.trans second)

theorem Kept.create (kept : Kept s none) (slot : s.cache.slot = none)
    (aligned : 2 ^ s.cache.config.frameOrder ∣ block) (positive : 0 < block)
    (fresh : block ∉ s.taken) (mem : Nat → Nat) :
    Kept ⟨s.cache.newSlab block mem, s.live, block :: s.taken⟩ (some block) := by
  obtain ⟨own, others⟩ := newSlab_frames s.cache block mem
  have distinct : ∀ other ∈ s.taken, other ≠ block := fun other taken equal =>
    fresh (equal ▸ taken)
  let after : CacheSession := ⟨s.cache.newSlab block mem, s.live, block :: s.taken⟩
  have newSession : after.slabSession block =
      Session.fresh s.cache.config (blockBase block) mem := by
    simp [after, slabSession, newSlab, Session.fresh, kept.foreign block fresh]
  have oldSession : ∀ other, other ≠ block → after.slabSession other = s.slabSession other := by
    intro other different
    simp [after, slabSession, newSlab, different]
  have balanced := Session.fresh_balanced kept.fits (blockBase block) mem
  have newOpen : ¬ after.Full block := by
    intro all
    unfold Full at all
    rw [newSession] at all
    have none_free := (balanced.allLive_iff kept.fits).mp all
    have length := length_objects s.cache.config (blockBase block)
    rw [none_free] at length
    exact absurd length.symm kept.fits.objectNum_pos.ne'
  have before : s.places none = s.cache.partials := by simp [places, slot]
  have places : after.places (some block) = block :: s.cache.partials := by
    simp [after, CacheSession.places, newSlab, slot]
  have nodup := kept.nodup
  have reached := kept.mem_places
  rw [before] at nodup reached
  have outside : block ∉ s.cache.partials := fun listed => fresh ((reached block).mp listed).1
  refine { kept with
    block := ?_
    taken_nodup := nodup_cons.mpr ⟨fresh, kept.taken_nodup⟩
    foreign := ?_
    empty := fun _ => slot
    nodup := places ▸ nodup_cons.mpr ⟨outside, nodup⟩
    mem_places := ?_ }
  · intro other taken
    cases List.mem_cons.mp taken with
    | inl same =>
      subst same
      exact ⟨aligned, positive, own, _, newSession ▸ balanced⟩
    | inr earlier =>
      have before := kept.block other earlier
      have apart := distinct other earlier
      refine ⟨before.aligned, before.positive, ⟨?_, ?_⟩, ?_⟩
      · have same := others other (outside_of_aligned aligned before.aligned apart le_rfl
          (by omega))
        exact (congrArg Frame.tag same).trans before.frames.head
      · intro frame low high
        have same := others frame
          (outside_of_aligned aligned before.aligned apart (by omega) high)
        have tail := before.frames.tail frame low high
        exact ⟨(congrArg Frame.tag same).trans tail.1, (congrArg Frame.data same).trans tail.2⟩
      · obtain ⟨free, balanced⟩ := before.balanced
        exact ⟨free, (oldSession other apart).symm ▸ balanced⟩
  · intro other outside
    exact kept.foreign other fun inside => outside (mem_cons_of_mem block inside)
  · intro other
    rw [places]
    by_cases same : other = block
    · subst same
      exact iff_of_true mem_cons_self ⟨mem_cons_self, newOpen⟩
    · have oldFull : after.Full other ↔ s.Full other := by
        unfold Full
        rw [oldSession other same]
        exact Iff.rfl
      rw [oldFull, mem_cons, mem_cons, or_iff_right same, or_iff_right same]
      exact reached other

theorem Kept.serve (kept : Kept s (some block)) (memCache : Nat) :
    ∃ object cache, blockOf s.cache.config object = block ∧
      (s.cache.allocateFrom memCache block).1 = some object ∧
      (s.cache.allocateFrom memCache block).2.store block = .ok cache ∧
      cache.frames = s.cache.frames ∧ Kept ⟨cache, s.addLive (some object), s.taken⟩ none := by
  obtain ⟨object, home, result, stored, live, balanced⟩ := kept.allocateFrom memCache
  refine ⟨object, _, home, result, stored, rfl, ?_⟩
  have after := kept.served balanced
  have same : (⟨(s.served memCache block).cache, s.addLive (some object), s.taken⟩ :
      CacheSession) = s.served memCache block := by
    simp only [addLive, home, ← live]
    rfl
  rw [same]
  exact after

theorem addTaken_unused (allowed : s.Allowed (.allocate offer))
    (frames : cache.frames = s.cache.frames) : s.addTaken cache offer = s.taken := by
  cases offer with
  | none => rfl
  | some offered =>
    have unused := frames ▸ allowed.2.2.2
    simp [addTaken, unused]

theorem Kept.allocate (kept : Kept s none) (memCache : Nat)
    (allowed : s.Allowed (.allocate offer)) :
    ∃ after, s.apply memCache (.allocate offer) = .ok after ∧ Kept after none := by
  cases slot : s.cache.slot with
  | some block =>
    have first : s.places none = block :: s.cache.partials := by simp [places, slot]
    obtain ⟨object, cache, _, result, stored, frames, after⟩ :=
      (kept.pick s.cache.count rfl first).serve memCache
    have taken := addTaken_unused allowed frames
    refine ⟨⟨cache, s.addLive (some object), s.addTaken cache offer⟩, ?_, taken.symm ▸ after⟩
    simp only [CacheSession.apply, MemCache.allocate, MemCache.swapSlot, slot, result, stored, bind,
      Except.bind, pure, Except.pure]
  | none =>
    have swapped : s.cache.swapSlot = (none, s.cache) := by
      rw [MemCache.swapSlot, slot, ← slot]
    cases partials : s.cache.partials with
    | cons block rest =>
      have first : s.places none = block :: rest := by simp [places, slot, partials]
      obtain ⟨object, cache, _, result, stored, frames, after⟩ :=
        (kept.pick (s.cache.count - 1) slot first).serve memCache
      have taken := addTaken_unused allowed frames
      refine ⟨⟨cache, s.addLive (some object), s.addTaken cache offer⟩, ?_, taken.symm ▸ after⟩
      simp only [CacheSession.apply, MemCache.allocate, swapped, MemCache.allocateFromNode,
        MemCache.get, MemCache.getPartial, partials, result, stored, bind, Except.bind, pure,
        Except.pure]
    | nil =>
      cases offer with
      | none =>
        refine ⟨s, ?_, kept⟩
        simp only [CacheSession.apply, MemCache.allocate, swapped, MemCache.allocateFromNode,
          MemCache.get, MemCache.getPartial, partials, bind, Except.bind, pure, Except.pure,
          addLive, addTaken]
      | some offered =>
        obtain ⟨block, mem⟩ := offered
        obtain ⟨aligned, positive, fresh, _⟩ := allowed
        obtain ⟨object, cache, _, result, stored, frames, after⟩ :=
          (kept.create slot aligned positive fresh mem).serve memCache
        have tag : (cache.frames block).tag = .slub := by
          rw [frames]
          exact (newSlab_frames s.cache block mem).1.head
        have taken : s.addTaken cache (some (block, mem)) = block :: s.taken := by
          simp [addTaken, tag]
        refine ⟨⟨cache, s.addLive (some object), s.addTaken cache (some (block, mem))⟩, ?_,
          taken.symm ▸ after⟩
        simp only [CacheSession.apply, MemCache.allocate, swapped, MemCache.allocateFromNode,
          MemCache.get, MemCache.getPartial, partials, result, stored, bind, Except.bind, pure,
          Except.pure]

variable {object : Nat}

theorem Kept.live_taken (kept : Kept s held) (live : object ∈ s.live block) : block ∈ s.taken := by
  by_contra outside
  rw [kept.foreign block outside] at live
  cases live

theorem Kept.kfree_eq (kept : Kept s held)
    (live : object ∈ s.live (blockOf s.cache.config object)) : s.apply memCache (.kfree object) =
      .ok (s.replaceSlab (blockOf s.cache.config object)
        ((s.slabSession (blockOf s.cache.config object)).apply (.deallocate object))) := by
  have known := kept.block _ (kept.live_taken live)
  obtain ⟨free, balanced⟩ := known.balanced
  have belongs := balanced.objects_perm.mem_iff.mp (mem_append_right free live)
  simp only [CacheSession.apply, kfree, slabOf_object kept.fits known.frames belongs, bind,
    Except.bind, pure, Except.pure]
  rfl

theorem Kept.kfree_slab (kept : Kept s held) (live : object ∈ s.live block) :
    (∃ free, ((s.slabSession block).apply (.deallocate object)).Balanced s.cache.config
        (blockBase block) 0 free) ∧
      ¬ ((s.slabSession block).apply (.deallocate object)).AllLive s.cache.config
        (blockBase block) := by
  obtain ⟨free, balanced⟩ := (kept.block block (kept.live_taken live)).balanced
  have after := balanced.deallocate kept.fits live
  refine ⟨⟨_, after⟩, ?_⟩
  rw [after.allLive_iff kept.fits]
  nofun

section

variable (kept : Kept s none)
include kept

theorem Kept.kfree_open (memCache : Nat) (live : object ∈ s.live (blockOf s.cache.config object))
    (open_ : ¬ s.Full (blockOf s.cache.config object)) :
    ∃ after, s.apply memCache (.kfree object) = .ok after ∧ Kept after none := by
  obtain ⟨balanced, notAll⟩ := kept.kfree_slab live
  exact ⟨_, kept.kfree_eq live, kept.replaceSlab (kept.live_taken live) balanced
    (iff_of_false notAll open_)⟩

theorem Kept.kfree_full (memCache : Nat) (live : object ∈ s.live (blockOf s.cache.config object))
    (all : s.Full (blockOf s.cache.config object)) :
    ∃ after, s.apply memCache (.kfree object) = .ok after ∧ ¬ after.Tracked := by
  refine ⟨_, kept.kfree_eq live, ?_⟩
  intro tracked
  have member := kept.live_taken live
  have known := kept.block _ member
  -- A full slab is neither in the slot nor on the partial list, and its record is a slab's.
  rcases tracked.reachable _ member with inSlot | listed | stillFull | buddy
  · exact ((kept.mem_places _).mp (by simp [places, show s.cache.slot = _ from inSlot])).2 all
  · exact ((kept.mem_places _).mp (by simp [places, show _ ∈ s.cache.partials from listed])).2 all
  · rw [full_replaceSlab, if_pos rfl] at stillFull
    exact (kept.kfree_slab live).2 stillFull
  · exact absurd (known.frames.head.symm.trans buddy) (by decide)

theorem Kept.write (memCache word : Nat) (live : object ∈ s.live (blockOf s.cache.config object)) :
    ∃ after, s.apply memCache (.write object word) = .ok after ∧ Kept after none := by
  obtain ⟨free, balanced⟩ := (kept.block _ (kept.live_taken live)).balanced
  have after := balanced.write kept.fits live word
  exact ⟨_, rfl, kept.replaceSlab (kept.live_taken live) ⟨free, after⟩ Iff.rfl⟩

theorem Kept.tracked : s.Tracked where
  reachable := by
    intro block taken
    by_cases all : s.Full block
    · exact .inr (.inr (.inl all))
    · have reached := (kept.mem_places block).mpr ⟨taken, all⟩
      simp only [places, Option.toList_none, nil_append, mem_append, Option.mem_toList] at reached
      exact reached.imp id .inl
  bounded := by
    intro idle
    have placed : s.taken ⊆ s.cache.slot.toList ++ s.cache.partials := by
      intro block taken
      refine (kept.mem_places block).mpr ⟨taken, fun all => ?_⟩
      -- A full block would have a live object.
      have first : blockBase block ∈ objects s.cache.config (blockBase block) :=
        mem_objects.mpr ⟨0, kept.fits.objectNum_pos, by simp⟩
      have live : blockBase block ∈ s.live block := all _ first
      rw [idle block taken] at live
      cases live
    have few := (subperm_of_subset kept.taken_nodup placed).length_le
    have slot : s.cache.slot.toList.length ≤ 1 := by
      cases s.cache.slot <;> simp
    have short := kept.short
    have retained : s.retained.length ≤ s.taken.length := length_filter_le _ _
    rw [length_append] at few
    omega

/-- Over a run from a state with the invariant. -/
theorem Kept.alwaysTracked_iff (calls : List CacheCall) :
    AlwaysTracked memCache s calls ↔ freesOpen memCache s calls := by
  induction calls generalizing s with
  | nil => exact ⟨fun _ => rfl, fun _ => kept.tracked⟩
  | cons call rest ih =>
    by_cases allowed : s.Allowed call
    · have goes_on : ∀ {after}, s.apply memCache call = .ok after → Kept after none →
          s.freeOpen call = true →
          (AlwaysTracked memCache s (call :: rest) ↔ freesOpen memCache s (call :: rest)) := by
        intro after step later opened
        simpa [AlwaysTracked, freesOpen, allowed, step, opened, kept.tracked] using ih later
      cases call with
      | allocate offer =>
        obtain ⟨after, step, later⟩ := kept.allocate memCache allowed
        exact goes_on step later rfl
      | write object word =>
        obtain ⟨after, step, later⟩ := kept.write memCache word allowed
        exact goes_on step later rfl
      | kfree object =>
        by_cases all : s.Full (blockOf s.cache.config object)
        · obtain ⟨after, step, lost⟩ := kept.kfree_full memCache allowed all
          have notOpen : s.freeOpen (.kfree object) = false := by simp [freeOpen, all]
          constructor
          · intro always
            obtain ⟨after', step', later⟩ := always.2 allowed
            cases step.symm.trans step'
            exact absurd later.head lost
          · intro opens
            simp [freesOpen, allowed, notOpen] at opens
        · obtain ⟨after, step, later⟩ := kept.kfree_open memCache allowed all
          exact goes_on step later (by simp [freeOpen, all])
    · simp [AlwaysTracked, freesOpen, allowed, kept.tracked]

end

/-- A cache before its first call: the slot is empty, and the slabs it was given are on the partial
list, with free objects. -/
structure Start (s : CacheSession) : Prop where
  accepted : Accepted s.cache.config
  slot : s.cache.slot = none
  taken : s.taken = s.cache.partials
  nodup : s.cache.partials.Nodup
  short : s.cache.partials.length ≤ s.cache.config.minPartial
  block : ∀ block ∈ s.taken, s.Block block
  opened : ∀ block ∈ s.taken, ¬ s.Full block
  foreign : ∀ block, block ∉ s.taken → s.live block = []

theorem Start.kept (start : s.Start) : Kept s none :=
  { start with
    fits := start.accepted.fits
    taken_nodup := start.taken ▸ start.nodup
    empty := nofun
    nodup := by simpa [places, start.slot] using start.nodup
    mem_places := fun block => by
      simpa [places, start.slot, ← start.taken] using start.opened block }

end Steps

end CacheSession

/-- In every sequence of calls on one cache, each block is in the slot or on the partial list, has
all its objects live or is given back, in every state, exactly when every `kfree` finds the slab of
its object with another object free. -/
theorem cache_tracked_iff {s : CacheSession} (start : s.Start) (memCache : Nat)
    (calls : List CacheCall) : s.AlwaysTracked memCache calls ↔ s.freesOpen memCache calls :=
  start.kept.alwaysTracked_iff calls

def emptySession : CacheSession where
  cache := ⟨twoObjects, none, [], 0, fun _ => ⟨fun _ => 0, 0, 0⟩, fun _ => ⟨0, .unused, .free⟩⟩
  live := fun _ => []
  taken := []

theorem emptySession_start : emptySession.Start where
  accepted := twoObjects_accepted
  slot := rfl
  taken := rfl
  nodup := nodup_nil
  short := Nat.zero_le _
  block := nofun
  opened := nofun
  foreign := fun _ _ => rfl

/-- An object of a slab with a free object is given back. -/
theorem cache_tracked_emptySession : emptySession.AlwaysTracked 512
      [.allocate (some (300, fun _ => 0)), .kfree 1228800, .allocate none] :=
  (cache_tracked_iff emptySession_start 512 _).mpr (by decide)

/-- Both objects of the first slab are taken, and the slab is dropped. When one of them is given
back, the slab has a free object and is on no list, and no block can be returned. -/
theorem cache_loses_slab :
    (∃ full lost, emptySession.apply 512 (.allocate (some (300, fun _ => 0))) >>=
        (CacheSession.apply 512 · (.allocate none)) = .ok full ∧
      full.apply 512 (.kfree 1228800) = .ok lost ∧
      lost.taken = [300] ∧ lost.cache.slot = none ∧ lost.cache.partials = [] ∧
      ¬ lost.Full 300 ∧ (lost.cache.frames 300).tag = .slub) ∧
      ¬ emptySession.AlwaysTracked 512
        [.allocate (some (300, fun _ => 0)), .allocate none, .kfree 1228800] := by
  refine ⟨⟨_, _, rfl, rfl, rfl, rfl, rfl, by decide, rfl⟩, ?_⟩
  intro always
  obtain ⟨first, step, always⟩ := always.2 (by decide)
  cases step
  obtain ⟨second, step, always⟩ := always.2 (by decide)
  cases step
  obtain ⟨third, step, always⟩ := always.2 (by decide)
  cases step
  rcases always.reachable 300 (by decide) with inSlot | listed | all | buddy
  · exact absurd inSlot (by decide)
  · exact absurd listed (by decide)
  · exact absurd all (by decide)
  · exact absurd buddy (by decide)

end Horizon.Slub
