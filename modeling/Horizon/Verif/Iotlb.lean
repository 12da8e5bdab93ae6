import Horizon.Kernel.Iotlb

/-!
# Slots of the software IOTLB

`mark_allocated` stops its backward loop at free slots instead of at allocated ones: an allocation
that does not start at the first slot of its area marks allocated slots before it free. `init`
counts to the end of the pool, not of the area.
-/

namespace Horizon.Iotlb

open Function BitmapAlloc BouncePool List

/-- Slots that an allocation has. -/
structure SlotRange where
  first : Nat
  count : Nat
  deriving DecidableEq

/-- The pool with the allocations that are not freed yet. -/
structure PoolSession where
  pool : BouncePool
  live : List SlotRange

/-- The calls of a session. -/
inductive PoolCall
  | allocate (originSize originAddr align : Nat)
  | deallocate (addr : Nat)
  deriving DecidableEq

def covered (live : List SlotRange) (slot : Nat) : Bool :=
  live.any fun range => decide (range.first ≤ slot ∧ slot < range.first + range.count)

def freeRun (covered : Nat → Bool) (len slot : Nat) : Nat :=
  ((List.range (len - slot)).takeWhile fun step => !covered (slot + step)).length

theorem freeRun_of_clear {covered : Nat → Bool} {len slot : Nat}
    (clear : ∀ other, slot ≤ other → other < len → covered other = false) :
    freeRun covered len slot = len - slot := by
  have all : (List.range (len - slot)).takeWhile (fun step => !covered (slot + step)) =
      List.range (len - slot) := by
    rw [takeWhile_eq_self_iff]
    intro step below
    have inside := mem_range.mp below
    rw [clear (slot + step) (by omega) (by omega)]
    rfl
  rw [freeRun, all, length_range]

namespace PoolSession

variable (s : PoolSession)

def slotOf (addr : Nat) : Nat := (addr - s.pool.paddrBase) / slotSize

def apply : PoolCall → Except IotlbPanic PoolSession
  | .allocate originSize originAddr align => do
    match ← s.pool.allocate originSize originAddr align with
    | (some addr, pool) =>
      return ⟨pool, ⟨s.slotOf addr, divCeil originSize slotSize % 2 ^ 16⟩ :: s.live⟩
    | (none, pool) => return ⟨pool, s.live⟩
  | .deallocate addr => do
    let pool ← s.pool.deallocate addr
    return ⟨pool, s.live.filter fun range => range.first ≠ s.slotOf addr⟩

/-- Only what is allocated is freed. -/
def Allowed : PoolCall → Prop
  | .allocate _ _ _ => True
  | .deallocate addr => ∃ range ∈ s.live, addr = s.pool.paddrBase + range.first * slotSize

instance (s : PoolSession) : (call : PoolCall) → Decidable (s.Allowed call)
  | .allocate _ _ _ => .isTrue trivial
  | .deallocate addr => inferInstanceAs
    (Decidable (∃ range ∈ s.live, addr = s.pool.paddrBase + range.first * slotSize))

/-- The slots of an area agree with the live allocations. -/
structure AreaRight (live : List SlotRange) (area : AreaInner) : Prop where
  /-- A slot of a live allocation is not free; any other has the number of free slots from it to
  the next one or to the end of the area. -/
  counts : ∀ slot < area.len, (area.slots slot).nSlots =
    if covered live (area.slotOffset + slot) then none
    else some (freeRun (fun slot => covered live (area.slotOffset + slot)) area.len slot)
  used : area.used = ((live.filter fun range => decide (area.slotOffset ≤ range.first ∧
    range.first < area.slotOffset + area.len)).map SlotRange.count).sum

/-- What a session must satisfy. -/
structure Right (s : PoolSession) : Prop where
  disjoint : s.live.Pairwise fun left right =>
    left.first + left.count ≤ right.first ∨ right.first + right.count ≤ left.first
  inside : ∀ range ∈ s.live, ∃ area ∈ s.pool.areas, area.slotOffset ≤ range.first ∧
    range.first + range.count ≤ area.slotOffset + area.len
  areas : ∀ area ∈ s.pool.areas, AreaRight s.live area

/-- Every state that the calls reach is right. A call that does not return ends the run. -/
def AlwaysRight : PoolSession → List PoolCall → Prop
  | s, [] => s.Right
  | s, call :: rest =>
    s.Right ∧ (s.Allowed call → ∀ after, s.apply call = .ok after → AlwaysRight after rest)

theorem AlwaysRight.head {s : PoolSession} {calls : List PoolCall}
    (always : AlwaysRight s calls) : s.Right := by
  cases calls with
  | nil => exact always
  | cons call rest => exact always.1

def alone (s after : PoolSession) : Bool :=
  s.live.isEmpty || decide (after.live.length ≤ s.live.length)

def allocatesAlone : PoolSession → List PoolCall → Bool
  | _, [] => true
  | s, call :: rest =>
    if s.Allowed call then
      match s.apply call with
      | .ok after => s.alone after && allocatesAlone after rest
      | .error _ => true
    else true

end PoolSession

/-- An area without allocations. -/
structure Idle (len : Nat) (area : AreaInner) : Prop where
  offset : area.slotOffset = 0
  length : area.len = len
  used : area.used = 0
  index : area.index = 0
  counts : ∀ slot < len, (area.slots slot).nSlots = some (len - slot)

/-- An area with one allocation, at its first slot. -/
structure Single (len count size : Nat) (area : AreaInner) : Prop where
  offset : area.slotOffset = 0
  length : area.len = len
  used : area.used = count
  /-- The search starts after the allocation, or at the first slot if nothing follows. -/
  index : area.index = if count < len then count else 0
  positive : 0 < count
  fits : count ≤ len
  taken : ∀ slot < count, (area.slots slot).nSlots = none
  counts : ∀ slot, count ≤ slot → slot < len → (area.slots slot).nSlots = some (len - slot)
  padding : (area.slots 0).paddingSlots = 0
  originSize : (area.slots 0).originSize = size
  count_eq : count = divCeil size slotSize % 2 ^ 16

namespace AreaInner

variable {area : AreaInner} {len count size nSlots alignSlots : Nat}

theorem findLoop_idle (idle : Idle len area) (some : 0 < len) (align : alignSlots ≠ 0)
    (large : len < nSlots) (rounds : Nat) :
    area.findLoop nSlots alignSlots 0 rounds 0 = .error .endlessLoop := by
  induction rounds with
  | zero => rfl
  | succ rounds ih =>
    have count := idle.counts 0 some
    rw [Nat.sub_zero] at count
    have inside : ¬ area.len ≤ 0 := by rw [idle.length]; omega
    have short : ¬ nSlots + 0 % alignSlots ≤ len := by omega
    have wrap : (0 + len) % area.len = 0 := by rw [idle.length, Nat.zero_add, Nat.mod_self]
    simp only [findLoop, if_neg inside, count, if_neg align, if_neg short, Nat.not_lt_zero,
      false_and, if_false, wrap]
    exact ih

variable {after : AreaInner} {i originAddr originSize : Nat} {slots : Nat → SlotMeta}
  {found : Option Nat}

theorem findConsecutiveFree_idle (nSlots alignSlots : Nat) (idle : Idle len area) (some : 0 < len) :
    (∃ panic, area.findConsecutiveFree nSlots alignSlots = .error panic) ∨
      (area.findConsecutiveFree nSlots alignSlots = .ok (.some (0, 0)) ∧ nSlots ≤ len) := by
  unfold findConsecutiveFree
  rw [idle.index]
  by_cases align : alignSlots = 0
  · have count := idle.counts 0 some
    have inside : ¬ area.len ≤ 0 := by rw [idle.length]; omega
    refine .inl ⟨.divideByZero, ?_⟩
    simp only [findLoop, if_neg inside, count, align, if_true]
  by_cases large : len < nSlots
  · exact .inl ⟨_, findLoop_idle idle some align large _⟩
  · have count := idle.counts 0 some
    have inside : ¬ area.len ≤ 0 := by rw [idle.length]; omega
    have room : nSlots ≤ len := by omega
    refine .inr ⟨?_, room⟩
    simp only [findLoop, if_neg inside, count, if_neg align, Nat.zero_mod, Nat.add_zero,
      Nat.sub_zero, if_pos room, Nat.mod_self]

theorem findLoop_full (length : area.len = len)
    (taken : ∀ slot < len, (area.slots slot).nSlots = none) (rounds i : Nat) (inside : i < len) :
    area.findLoop nSlots alignSlots 0 rounds i = .error .endlessLoop := by
  induction rounds generalizing i with
  | zero => rfl
  | succ rounds ih =>
    have within : ¬ area.len ≤ i := by rw [length]; omega
    simp only [findLoop, if_neg within, taken i inside, Nat.not_lt_zero, false_and, if_false]
    exact ih _ (length ▸ Nat.mod_lt _ (by omega))

theorem findLoop_wrapped (single : Single len count size area) (rounds i : Nat)
    (inside : i < count) (enough : count ≤ i + rounds) :
    area.findLoop nSlots alignSlots count rounds i = .ok none := by
  have fits := single.fits
  induction rounds generalizing i with
  | zero => omega
  | succ rounds ih =>
    have within : ¬ area.len ≤ i := by rw [single.length]; omega
    by_cases last : count ≤ i + 1
    · simp only [findLoop, if_neg within, single.taken i inside, inside, last, and_self, if_true]
    · have next : (i + 1) % area.len = i + 1 := by
        rw [single.length]
        exact Nat.mod_eq_of_lt (by omega)
      simp only [findLoop, if_neg within, single.taken i inside, last, and_false, if_false, next]
      exact ih (i + 1) (by omega) (by omega)

theorem findConsecutiveFree_single (nSlots alignSlots : Nat) (single : Single len count size area) :
    (∃ panic, area.findConsecutiveFree nSlots alignSlots = .error panic) ∨
      area.findConsecutiveFree nSlots alignSlots = .ok none ∨
      ∃ padding, area.findConsecutiveFree nSlots alignSlots = .ok (some (padding, count)) := by
  have fits := single.fits
  have positive := single.positive
  unfold findConsecutiveFree
  rw [single.index]
  by_cases room : count < len
  · have free := single.counts count le_rfl room
    have inside : ¬ area.len ≤ count := by rw [single.length]; omega
    rw [if_pos room]
    by_cases align : alignSlots = 0
    · refine .inl ⟨.divideByZero, ?_⟩
      simp only [findLoop, if_neg inside, free, align, if_true]
    by_cases large : nSlots + count % alignSlots ≤ len - count
    · refine .inr (.inr ⟨(alignSlots - count % alignSlots) % alignSlots % 2 ^ 16, ?_⟩)
      simp only [findLoop, if_neg inside, free, if_neg align, if_pos large]
    · refine .inr (.inl ?_)
      have wrap : (count + (len - count)) % area.len = 0 := by
        rw [single.length, Nat.add_sub_cancel' fits, Nat.mod_self]
      simp only [findLoop, if_neg inside, free, if_neg align, if_neg large, Nat.lt_irrefl,
        false_and, if_false, wrap]
      apply findLoop_wrapped single _ _ positive
      rw [single.length]
      omega
  · rw [if_neg room]
    have taken : ∀ slot < len, (area.slots slot).nSlots = none := fun slot below =>
      single.taken slot (by omega)
    exact .inl ⟨_, findLoop_full single.length taken _ 0 (by omega)⟩

theorem markTail_ok {after : Nat → SlotMeta} {left : Nat}
    (call : markTail slots originAddr originSize left i = .ok after) :
    (∀ slot, i ≤ slot → slot < i + left → (after slot).nSlots = none) ∧
      ∀ slot, slot < i ∨ i + left ≤ slot → after slot = slots slot := by
  induction left generalizing slots originAddr originSize i with
  | zero =>
    cases call
    exact ⟨fun slot low high => by omega, fun _ _ => rfl⟩
  | succ left ih =>
    unfold markTail at call
    split at call
    · cases call
    · obtain ⟨marked, others⟩ := ih call
      constructor
      · intro slot low high
        by_cases first : slot = i
        · rw [others slot (by omega), first, update_self]
        · exact marked slot (by omega) (by omega)
      · intro slot outside
        rw [others slot (by omega), update_of_ne (by omega)]

theorem markBefore_from (head : Nat) {start slot : Nat} (slots : Nat → SlotMeta)
    (outside : start ≤ slot) : markBefore head start slots slot = slots slot := by
  induction start generalizing slots with
  | zero => rfl
  | succ start ih =>
    unfold markBefore
    split
    · rfl
    · rw [ih _ (by omega), update_of_ne (by omega)]

theorem markBefore_taken {head : Nat} (taken : (slots head).nSlots = none) :
    (markBefore (head + 1) (head + 1) slots head).nSlots = some 1 := by
  have allocated : (slots head).isFree = false := by simp [SlotMeta.isFree, taken]
  rw [markBefore, allocated]
  simp only [Bool.false_eq_true, if_false]
  rw [markBefore_from _ _ le_rfl, update_self]
  simp

theorem markAllocated_ok {padding : Nat}
    (call : area.markAllocated i nSlots originSize originAddr padding = .ok after) :
    0 < nSlots ∧ i + nSlots ≤ area.len ∧
      ∃ slots, (∀ slot, i ≤ slot → slot < i + nSlots → (slots slot).nSlots = none) ∧
        (∀ slot, slot < i ∨ i + nSlots ≤ slot → slots slot = area.slots slot) ∧
        (slots i).paddingSlots = padding ∧ (slots i).originSize = originSize ∧
        after = { area with
          slots := markBefore i i slots
          used := area.used + nSlots
          index := if i + nSlots < area.len then i + nSlots else 0 } := by
  simp only [markAllocated, bind, Except.bind, pure, Except.pure, throw, throwThe,
    MonadExceptOf.throw] at call
  split at call
  · cases call
  split at call
  · cases call
  rename_i inside range
  simp only [not_or, Nat.not_lt] at range
  cases tail : markTail (update area.slots i ⟨originAddr, originSize, none, padding⟩)
      originAddr originSize (nSlots - 1) (i + 1) with
  | error panic => simp [tail] at call
  | ok slots =>
    simp only [tail] at call
    split at call
    · cases call
    · cases call
      obtain ⟨marked, others⟩ := markTail_ok tail
      have head := others i (by omega)
      rw [update_self] at head
      refine ⟨by omega, range.2, slots, ?_, ?_, by rw [head], by rw [head], rfl⟩
      · intro slot low high
        by_cases first : slot = i
        · rw [first, head]
        · exact marked slot (by omega) (by omega)
      · intro slot outside
        rw [others slot (by omega), update_of_ne (by omega)]

theorem tryAlloc_idle (idle : Idle len area) (some : 0 < len) (originAddr : Nat)
    (words : nSlots = divCeil size slotSize % 2 ^ 16)
    (call : area.tryAlloc nSlots size originAddr alignSlots = .ok (found, after)) :
    found = .some 0 ∧ Single len nSlots size after := by
  rcases findConsecutiveFree_idle nSlots alignSlots idle some with
    ⟨panic, search⟩ | ⟨search, room⟩
  · simp [tryAlloc, search, bind, Except.bind] at call
  · cases mark : area.markAllocated 0 nSlots size originAddr 0 with
    | error panic => simp [tryAlloc, search, mark, bind, Except.bind] at call
    | ok marked =>
      simp only [tryAlloc, search, mark, bind, Except.bind, pure, Except.pure] at call
      cases call
      obtain ⟨positive, _, slots, taken, others, padding, originSize, rfl⟩ := markAllocated_ok mark
      refine ⟨rfl, ?_⟩
      exact {
        offset := idle.offset
        length := idle.length
        used := by simp only [idle.used, Nat.zero_add]
        index := by simp only [idle.length, Nat.zero_add]
        positive := positive
        fits := room
        taken := fun slot below => taken slot (Nat.zero_le _) (by omega)
        counts := by
          intro slot low high
          simp only [markBefore]
          rw [others slot (by omega)]
          exact idle.counts slot high
        padding := padding
        originSize := originSize
        count_eq := words }

theorem tryAlloc_single (single : Single len count size area)
    (call : area.tryAlloc nSlots originSize originAddr alignSlots = .ok (found, after)) :
    (found = none ∧ after = area) ∨
      ((∃ i, found = some i) ∧ after.slotOffset = 0 ∧ after.len = len ∧
        (after.slots (count - 1)).nSlots = some 1) := by
  have positive := single.positive
  rcases findConsecutiveFree_single nSlots alignSlots single with
    ⟨panic, search⟩ | search | ⟨padding, search⟩
  · simp [tryAlloc, search, bind, Except.bind] at call
  · simp only [tryAlloc, search, bind, Except.bind, pure, Except.pure] at call
    cases call
    exact .inl ⟨rfl, rfl⟩
  · cases mark : area.markAllocated count nSlots originSize originAddr padding with
    | error panic => simp [tryAlloc, search, mark, bind, Except.bind] at call
    | ok marked =>
      simp only [tryAlloc, search, mark, bind, Except.bind, pure, Except.pure] at call
      cases call
      obtain ⟨_, _, slots, _, others, _, _, rfl⟩ := markAllocated_ok mark
      refine .inr ⟨⟨count, rfl⟩, single.offset, single.length, ?_⟩
      have last : (slots (count - 1)).nSlots = none := by
        rw [others (count - 1) (by omega)]
        exact single.taken (count - 1) (by omega)
      have written := markBefore_taken last
      rwa [Nat.sub_add_cancel positive] at written

theorem writeCounts_ok (start stop left : Nat) (slots : Nat → SlotMeta)
    (inside : start + left ≤ len) (small : stop < 2 ^ 16) :
    ∃ after, writeCounts len start stop left slots = .ok after ∧
      (∀ slot, start ≤ slot → slot < start + left → (after slot).nSlots = some (stop - slot)) ∧
      ∀ slot, slot < start ∨ start + left ≤ slot → after slot = slots slot := by
  induction left generalizing slots with
  | zero => exact ⟨slots, rfl, fun slot low high => by omega, fun _ _ => rfl⟩
  | succ left ih =>
    have within : ¬ len ≤ start + left := by omega
    obtain ⟨after, call, counts, others⟩ := ih (update slots (start + left)
      { slots (start + left) with nSlots := some ((stop - (start + left)) % 2 ^ 16) })
      (by omega)
    refine ⟨after, by rw [writeCounts, if_neg within]; exact call, ?_, ?_⟩
    · intro slot low high
      by_cases last : slot = start + left
      · rw [others slot (by omega), last, update_self]
        simp only
        rw [Nat.mod_eq_of_lt (by omega)]
      · exact counts slot low (by omega)
    · intro slot outside
      rw [others slot (by omega), update_of_ne (by omega)]

theorem freeSlots_single (single : Single len count size area) (small : len < 2 ^ 16)
    (call : area.freeSlots 0 = .ok after) : Idle len after := by
  have positive := single.positive
  have fits := single.fits
  have inside : ¬ len ≤ 0 := by omega
  simp only [freeSlots, single.length, if_neg inside, single.padding, single.originSize,
    Nat.zero_add, expandFreeRegion, expandStart, Nat.sub_zero, bind, Except.bind, pure, Except.pure,
    throw, throwThe, MonadExceptOf.throw] at call
  have words := single.count_eq
  by_cases wrapped : divCeil size slotSize = count
  · -- The region reaches from the first slot to the end of the area.
    rw [wrapped] at call
    have region : (if count < len ∧ (update area.slots 0 ⟨0, 0, some 1, 0⟩
        count).isFree = true then count + ((update area.slots 0 ⟨0, 0, some 1, 0⟩
          count).nSlots).getD 0 else count) = len := by
      rw [update_of_ne (by omega)]
      by_cases room : count < len
      · have free := single.counts count le_rfl room
        simp only [SlotMeta.isFree, free, room, Option.isSome_some, and_self, if_true,
          Option.getD_some]
        omega
      · simp only [room, false_and, if_false]
        omega
    obtain ⟨slots, written, counts, _⟩ := writeCounts_ok 0 len len
      (update area.slots 0 ⟨0, 0, some 1, 0⟩) (le_of_eq (Nat.zero_add len)) small
    have word : count % 2 ^ 16 = count := Nat.mod_eq_of_lt (by omega)
    simp only [region, written, single.used, word, Nat.lt_irrefl, if_false, Nat.sub_self] at call
    cases call
    exact ⟨single.offset, rfl, rfl, rfl, fun slot below => counts slot (Nat.zero_le _)
      (by omega)⟩
  · -- The size is so large that its slots do not fit the word: the region leaves the area.
    have beyond : ¬ divCeil size slotSize < len := by omega
    have rounds : divCeil size slotSize = divCeil size slotSize - 1 + 1 := by omega
    have past : len ≤ 0 + (divCeil size slotSize - 1) := by omega
    simp only [beyond, false_and, if_false] at call
    rw [rounds, writeCounts, if_pos past] at call
    cases call

end AreaInner

/-- A pool of one area that is idle, or has one allocation at its first slots. -/
inductive OneArea (len : Nat) : PoolSession → Prop
  | idle {base : Nat} {area : AreaInner} (state : Idle len area) : OneArea len ⟨⟨base, [area]⟩, []⟩
  | single {base count size : Nat} {area : AreaInner} (state : Single len count size area) :
      OneArea len ⟨⟨base, [area]⟩, [⟨0, count⟩]⟩

namespace PoolSession

variable {len : Nat} {s after : PoolSession}

/-- A pool with one area is right. -/
theorem right_of_oneArea (one : OneArea len s) : s.Right := by
  cases one with
  | @idle base area state =>
    refine ⟨.nil, nofun, ?_⟩
    intro other member
    cases mem_singleton.mp member
    refine ⟨?_, by simp [state.used]⟩
    intro slot below
    have clear : ∀ slot, covered [] slot = false := fun _ => rfl
    simp only [clear, Bool.false_eq_true, if_false]
    rw [state.length] at below ⊢
    rw [freeRun_of_clear fun _ _ _ => rfl, state.counts slot below]
  | @single base count size area state =>
    have fits := state.fits
    have positive := state.positive
    refine ⟨pairwise_singleton _ _, ?_, ?_⟩
    · intro range member
      cases mem_singleton.mp member
      refine ⟨area, mem_singleton_self _, ?_⟩
      simp only [state.offset, state.length]
      omega
    · intro other member
      cases mem_singleton.mp member
      have covers : ∀ slot, covered [⟨0, count⟩] (area.slotOffset + slot) =
          decide (slot < count) := by
        intro slot
        simp [covered, state.offset]
      refine ⟨?_, ?_⟩
      · intro slot below
        rw [state.length] at below ⊢
        rw [covers]
        by_cases inside : slot < count
        · simp [inside, state.taken slot inside]
        · rw [freeRun_of_clear (by intro other low high; rw [covers]; simp; omega),
            state.counts slot (by omega) below]
          simp [inside]
      · have listed : 0 < len := by omega
        simp [state.used, state.offset, state.length, listed]

theorem apply_allocate {base : Nat} {area : AreaInner} {live : List SlotRange}
    {originSize originAddr align : Nat}
    (call : apply ⟨⟨base, [area]⟩, live⟩ (.allocate originSize originAddr align) = .ok after) :
    after = ⟨⟨base, [area]⟩, live⟩ ∨
      ∃ alignSlots found changed, area.tryAlloc (divCeil originSize slotSize % 2 ^ 16) originSize
          originAddr alignSlots = .ok (found, changed) ∧
        after.pool = ⟨base, [changed]⟩ ∧
        after.live = match found with
          | none => live
          | some i => ⟨changed.slotOffset + i, divCeil originSize slotSize % 2 ^ 16⟩ :: live := by
  simp only [apply, allocate, bind, Except.bind, pure, Except.pure, throw, throwThe,
    MonadExceptOf.throw] at call
  split at call
  · rename_i outcome
    cases call
  rename_i outcome
  split at outcome
  · cases outcome
    cases call
    exact .inl rfl
  split at outcome
  · cases outcome
  generalize align * slotSize / Nat.gcd align slotSize / slotSize = alignSlots at outcome
  cases inner : area.tryAlloc (divCeil originSize slotSize % 2 ^ 16) originSize originAddr
      alignSlots with
  | error panic =>
    simp only [allocateIn, inner, bind, Except.bind] at outcome
    cases outcome
  | ok result =>
    obtain ⟨found, changed⟩ := result
    right
    refine ⟨alignSlots, found, changed, inner, ?_⟩
    cases found with
    | none =>
      simp only [allocateIn, inner, bind, Except.bind, pure, Except.pure] at outcome
      cases outcome
      cases call
      exact ⟨rfl, rfl⟩
    | some i =>
      simp only [allocateIn, inner, bind, Except.bind, pure, Except.pure] at outcome
      cases outcome
      cases call
      refine ⟨rfl, ?_⟩
      have slot : (base + (changed.slotOffset + i) * slotSize - base) / slotSize =
          changed.slotOffset + i := by
        rw [Nat.add_sub_cancel_left, Nat.mul_div_cancel _ (by decide)]
      simp only [slotOf, slot]

theorem apply_oneArea (one : OneArea len s) (some : 0 < len) (small : len < 2 ^ 16)
    {call : PoolCall} (allowed : s.Allowed call) (step : s.apply call = .ok after) :
    (OneArea len after ∧ s.alone after = true) ∨ (¬ after.Right ∧ s.alone after = false) := by
  cases call with
  | allocate originSize originAddr align =>
    cases one with
    | @idle base area state =>
      rcases apply_allocate step with rfl | ⟨alignSlots, found, changed, inner, pool, live⟩
      · exact .inl ⟨.idle state, rfl⟩
      · obtain ⟨rfl, single⟩ := AreaInner.tryAlloc_idle state some originAddr rfl inner
        have shape : after = ⟨⟨base, [changed]⟩, [⟨0, divCeil originSize slotSize % 2 ^ 16⟩]⟩ := by
          cases after
          simp only at pool live
          rw [pool, live, single.offset]
        rw [shape]
        exact .inl ⟨.single single, rfl⟩
    | @single base count size area state =>
      rcases apply_allocate step with rfl | ⟨alignSlots, found, changed, inner, pool, live⟩
      · exact .inl ⟨.single state, rfl⟩
      · rcases AreaInner.tryAlloc_single state inner with
          ⟨rfl, rfl⟩ | ⟨⟨i, rfl⟩, offset, length, free⟩
        · have shape : after = ⟨⟨base, [changed]⟩, [⟨0, count⟩]⟩ := by
            cases after
            simp only at pool live
            rw [pool, live]
          rw [shape]
          exact .inl ⟨.single state, rfl⟩
        · simp only at live
          refine .inr ⟨?_, by simp [alone, live]⟩
          intro right
          have positive := state.positive
          have fits := state.fits
          -- The last slot of the first allocation is marked free.
          have area := right.areas changed (by simp [pool])
          have count_none := area.counts (count - 1) (by omega)
          have taken : covered after.live (changed.slotOffset + (count - 1)) = true := by
            simp [live, covered, offset, positive]
          rw [taken, if_pos rfl, free] at count_none
          cases count_none
  | deallocate addr =>
    cases one with
    | idle state =>
      obtain ⟨range, member, _⟩ := allowed
      cases member
    | @single base count size area state =>
      obtain ⟨range, member, rfl⟩ := allowed
      cases mem_singleton.mp member
      have slot : (base + 0 * slotSize - base) / slotSize = 0 := by simp
      have found : area.slotOffset ≤ 0 ∧ 0 < area.slotOffset + area.len := by
        rw [state.offset, state.length]
        omega
      simp only [apply, deallocate, deallocateIn, slotOf, slot, if_pos found,
        bind, Except.bind, pure, Except.pure] at step
      cases inner : area.freeSlots 0 with
      | error panic => simp [inner] at step
      | ok changed =>
        simp only [Nat.zero_sub, inner] at step
        cases step
        have idle := AreaInner.freeSlots_single state small inner
        exact .inl ⟨.idle idle, by simp [alone]⟩

/-- Over a run on a pool with one area. -/
theorem alwaysRight_iff_of_oneArea (one : OneArea len s) (some : 0 < len) (small : len < 2 ^ 16)
    (calls : List PoolCall) : s.AlwaysRight calls ↔ s.allocatesAlone calls := by
  induction calls generalizing s with
  | nil => exact ⟨fun _ => rfl, fun _ => right_of_oneArea one⟩
  | cons call rest ih =>
    have right := right_of_oneArea one
    by_cases allowed : s.Allowed call
    · cases step : s.apply call with
      | error panic => simp [AlwaysRight, allocatesAlone, allowed, step, right]
      | ok after =>
        rcases apply_oneArea one some small allowed step with ⟨next, single⟩ | ⟨wrong, beside⟩
        · simpa [AlwaysRight, allocatesAlone, allowed, step, right, single] using ih next
        · constructor
          · intro always
            exact absurd (always.2 allowed after step).head wrong
          · intro alone
            simp [allocatesAlone, allowed, step, beside] at alone
    · simp [AlwaysRight, allocatesAlone, allowed, right]

end PoolSession

/-- A pool just made by `init`. -/
def freshPool (paddrBase areas slotsPerArea : Nat) : PoolSession :=
  ⟨init paddrBase areas slotsPerArea, []⟩

theorem freshPool_oneArea (paddrBase slotsPerArea : Nat) :
    OneArea slotsPerArea (freshPool paddrBase 1 slotsPerArea) :=
  .idle ⟨by simp, rfl, rfl, rfl, by simp⟩

/-- A fresh pool with several areas is not right. -/
theorem freshPool_not_right {paddrBase areas slotsPerArea : Nat} (several : 1 < areas)
    (some : 0 < slotsPerArea) : ¬ (freshPool paddrBase areas slotsPerArea).Right := by
  intro right
  have member : (⟨0, 0, 0 * slotsPerArea, slotsPerArea, fun k =>
      ⟨0, 0, .some (areas * slotsPerArea - (0 * slotsPerArea + k)), 0⟩⟩ : AreaInner) ∈
      (freshPool paddrBase areas slotsPerArea).pool.areas :=
    mem_map.mpr ⟨0, mem_range.mpr (by omega), rfl⟩
  have counts := (right.areas _ member).counts 0 some
  have clear : ∀ slot, covered [] slot = false := fun _ => rfl
  simp only [freshPool, clear, Bool.false_eq_true, if_false, Option.some.injEq] at counts
  rw [freeRun_of_clear fun _ _ _ => rfl] at counts
  have more : 1 * slotsPerArea < areas * slotsPerArea := Nat.mul_lt_mul_of_pos_right several some
  omega

/-- From `init` on, the slots agree with the live allocations in every state exactly when the pool
has one area and no allocation succeeds while another is live. -/
theorem pool_right_iff {areas slotsPerArea : Nat} (someArea : 0 < areas)
    (someSlot : 0 < slotsPerArea) (small : areas * slotsPerArea < 2 ^ 16) (paddrBase : Nat)
    (calls : List PoolCall) : (freshPool paddrBase areas slotsPerArea).AlwaysRight calls ↔
      areas = 1 ∧ (freshPool paddrBase areas slotsPerArea).allocatesAlone calls := by
  by_cases one : areas = 1
  · subst one
    rw [PoolSession.alwaysRight_iff_of_oneArea (freshPool_oneArea paddrBase slotsPerArea) someSlot
      (by omega)]
    simp
  · constructor
    · intro always
      exact absurd always.head (freshPool_not_right (by omega) someSlot)
    · intro both
      exact absurd both.1 one

/-- One allocation at a time in a pool of one area. -/
theorem pool_right_oneArea : (freshPool 0x100000 1 slotsPerArea).AlwaysRight
      [.allocate 5000 0x7000 1, .deallocate 0x100000, .allocate 100 0x9000 1] :=
  (pool_right_iff (by decide) (by decide) (by decide) 0x100000 _).mpr ⟨rfl, by decide +kernel⟩

/-- Four allocations that fill the first area of the kernel's pool. -/
def fillingCalls : List PoolCall :=
  [.allocate 2048 0x7000 1, .allocate (128 * 2048) 0x10000 1, .allocate (127 * 2048) 0x80000 1,
    .allocate 2048 0x9000 1]

/-- In the kernel's pool the first slot counts 1024 free slots although its area has 256, and after
four allocations the first slot belongs to two live ones. -/
theorem pool_hands_out_slot_twice :
    ((init 0x100000 totalAreas slotsPerArea).areas.map fun area =>
        ((area.slots 0).nSlots, area.len)) =
      [(some 1024, 256), (some 768, 256), (some 512, 256), (some 256, 256)] ∧
    (fillingCalls.foldlM PoolSession.apply (freshPool 0x100000 totalAreas slotsPerArea)).map
        PoolSession.live = .ok [⟨0, 1⟩, ⟨129, 127⟩, ⟨1, 128⟩, ⟨0, 1⟩] ∧
    ¬ (freshPool 0x100000 totalAreas slotsPerArea).AlwaysRight fillingCalls := by
  refine ⟨by decide +kernel, by decide +kernel, ?_⟩
  intro always
  exact freshPool_not_right (by decide) (by decide) always.head

end Horizon.Iotlb
