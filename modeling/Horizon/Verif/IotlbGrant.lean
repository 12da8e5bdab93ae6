import Horizon.Verif.BitmapRuns
import Horizon.Verif.IotlbSearch

/-!
# Bounce buffers and their slots

`BouncePool::allocate` returns the address of the slot that the search found; its padding is neither
added to the address nor marked. `deallocate` frees the padding with the slots and joins what is
free behind them.
-/

namespace Horizon.Iotlb

open BitmapAlloc Runs BouncePool List Nat

namespace AreaInner

variable {area after : AreaInner} {i nSlots : Nat}

def releaseEnd (area : AreaInner) (i nSlots : Nat) : Nat :=
  if i + nSlots < area.len ∧ (area.slots (i + nSlots)).isFree then
    i + nSlots + (area.slots (i + nSlots)).nSlots.getD 0
  else i + nSlots

theorem le_releaseEnd (area : AreaInner) (i nSlots : Nat) :
    i + nSlots ≤ area.releaseEnd i nSlots := by
  unfold releaseEnd
  split <;> omega

theorem expandStart_le (slots : Nat → SlotMeta) (i : Nat) : expandStart slots i ≤ i ∧
      ∀ slot, expandStart slots i ≤ slot → slot < i → (slots slot).isFree = true := by
  induction i with
  | zero => exact ⟨le_rfl, fun slot _ less => absurd less (Nat.not_lt_zero slot)⟩
  | succ i ih =>
    rw [expandStart]
    split
    case isTrue free =>
      refine ⟨by omega, fun slot low high => ?_⟩
      rcases Nat.lt_succ_iff_lt_or_eq.mp high with less | rfl
      · exact ih.2 slot low less
      · exact free
    case isFalse => exact ⟨le_rfl, fun slot low high => absurd high (by omega)⟩

variable {left len start : Nat}

theorem writeCounts_isFree {stop : Nat} {slots written : Nat → SlotMeta}
    (ran : writeCounts len start stop left slots = .ok written) :
    (0 < left → start + left ≤ len) ∧ ∀ slot, (written slot).isFree =
      (decide (start ≤ slot ∧ slot < start + left) || (slots slot).isFree) := by
  induction left generalizing slots with
  | zero =>
    cases ran
    refine ⟨fun none => absurd none (lt_irrefl 0), fun slot => ?_⟩
    rw [decide_eq_false (by omega), Bool.false_or]
  | succ left ih =>
    rw [writeCounts] at ran
    split at ran
    case isTrue => cases ran
    case isFalse inside =>
      refine ⟨fun _ => by omega, fun slot => ?_⟩
      rw [(ih ran).2 slot]
      by_cases last : slot = start + left
      · subst last
        simp [SlotMeta.isFree]
      · rw [Function.update_of_ne last]
        congr 1
        exact decide_eq_decide.mpr (by omega)

theorem writeCounts_returns (stop : Nat) (slots : Nat → SlotMeta) (inside : start + left ≤ len) :
    ∃ written, writeCounts len start stop left slots = .ok written := by
  induction left generalizing slots with
  | zero => exact ⟨slots, rfl⟩
  | succ left ih =>
    rw [writeCounts, if_neg (by omega)]
    exact ih _ (by omega)

def releaseCount (area : AreaInner) (i : Nat) : Nat :=
  (area.slots i).paddingSlots + divCeil (area.slots i).originSize slotSize

def cleared (area : AreaInner) (i : Nat) : Nat → SlotMeta :=
  Function.update area.slots i ⟨0, 0, some 1, 0⟩

theorem cleared_of_ne {slot : Nat} (other : slot ≠ i) : area.cleared i slot = area.slots slot :=
  Function.update_of_ne other _ _

section

variable (inside : i < area.len) (some : 0 < area.releaseCount i)
include inside some

theorem freeSlots_eq : area.freeSlots i = (do
      let start := expandStart (area.cleared i) i
      let stop := area.releaseEnd i (area.releaseCount i)
      let written ← writeCounts area.len start stop (stop - start) (area.cleared i)
      if area.used < area.releaseCount i % 2 ^ 16 then throw IotlbPanic.overflow
      return { area with
        slots := written, used := area.used - area.releaseCount i % 2 ^ 16, index := start }) := by
  let region := AreaInner.expandFreeRegion { area with slots := area.cleared i } i
    (area.releaseCount i)
  have known : region =
      (expandStart (area.cleared i) i, area.releaseEnd i (area.releaseCount i)) := by
    have other : i + area.releaseCount i ≠ i := by omega
    simp only [region, expandFreeRegion, releaseEnd, cleared_of_ne other]
  rw [freeSlots, if_neg (not_le.mpr inside)]
  change (do
    let slots ← writeCounts area.len region.1 region.2 (region.2 - region.1) (area.cleared i)
    if area.used < area.releaseCount i % 2 ^ 16 then throw IotlbPanic.overflow
    return { area with
      slots := slots, used := area.used - area.releaseCount i % 2 ^ 16, index := region.1 }) = _
  rw [known]

theorem freeSlots_ok (ran : area.freeSlots i = .ok after) :
    area.releaseEnd i (area.releaseCount i) ≤ area.len ∧
      area.releaseCount i % 2 ^ 16 ≤ area.used ∧
      after.slotOffset = area.slotOffset ∧ after.len = area.len ∧
      ∀ slot, (after.slots slot).isFree = true ↔ (area.slots slot).isFree = true ∨
        i ≤ slot ∧ slot < area.releaseEnd i (area.releaseCount i) := by
  obtain ⟨before, free⟩ := expandStart_le (area.cleared i) i
  have stop := area.le_releaseEnd i (area.releaseCount i)
  rw [freeSlots_eq inside some] at ran
  obtain ⟨written, wrote, ran⟩ := bind_eq_ok.mp ran
  obtain ⟨within, isFree⟩ := writeCounts_isFree wrote
  split at ran
  case isTrue => cases ran
  case isFalse enough =>
    cases ran
    refine ⟨by have := within (by omega); omega, by omega, rfl, rfl, fun slot => ?_⟩
    rw [isFree slot, Bool.or_eq_true, decide_eq_true_eq, Nat.add_sub_cancel' (by omega)]
    by_cases same : slot = i
    · subst same
      exact iff_of_true (.inl (by omega)) (.inr (by omega))
    · rw [cleared_of_ne same]
      constructor
      · rintro (⟨low, high⟩ | there)
        · by_cases less : slot < i
          · have there := free slot low less
            rw [cleared_of_ne same] at there
            exact .inl there
          · exact .inr (by omega)
        · exact .inl there
      · rintro (there | ⟨low, high⟩)
        · exact .inr there
        · exact .inl (by omega)

theorem freeSlots_returns (fits : area.releaseEnd i (area.releaseCount i) ≤ area.len)
    (enough : area.releaseCount i % 2 ^ 16 ≤ area.used) :
    ∃ freed, area.freeSlots i = .ok freed := by
  have before := (expandStart_le (area.cleared i) i).1
  have region : expandStart (area.cleared i) i +
      (area.releaseEnd i (area.releaseCount i) - expandStart (area.cleared i) i) ≤ area.len := by
    omega
  obtain ⟨written, wrote⟩ := writeCounts_returns (area.releaseEnd i (area.releaseCount i))
    (area.cleared i) region
  rw [freeSlots_eq inside some]
  simp only [wrote]
  exact ⟨_, if_neg (by omega)⟩

end

/-- The area after the slots of a buffer are marked, from the head on. -/
structure Marks (area : AreaInner) (i nSlots originSize padding : Nat) (after : AreaInner) :
    Prop where
  slotOffset : after.slotOffset = area.slotOffset
  len : after.len = area.len
  used : after.used = area.used + nSlots
  room : i + nSlots ≤ area.len
  some : 0 < nSlots
  taken : ∀ slot, i ≤ slot → slot < i + nSlots → (after.slots slot).isFree = false
  behind : ∀ slot, i + nSlots ≤ slot → after.slots slot = area.slots slot
  padding : (after.slots i).paddingSlots = padding
  size : (after.slots i).originSize = originSize

theorem markAllocated_marks {originSize originAddr padding : Nat}
    (call : area.markAllocated i nSlots originSize originAddr padding = .ok after) :
    area.Marks i nSlots originSize padding after := by
  obtain ⟨some, room, slots, marked, others, padded, sized, rfl⟩ := markAllocated_ok call
  have fromHead (slot : Nat) (low : i ≤ slot) : markBefore i i slots slot = slots slot :=
    markBefore_from i slots low
  refine ⟨rfl, rfl, rfl, room, some, fun slot low high => ?_, fun slot low => ?_, ?_, ?_⟩
  · change (markBefore i i slots slot).isFree = false
    rw [fromHead slot low, SlotMeta.isFree, marked slot low high]
    rfl
  · exact (fromHead slot (by omega)).trans (others slot (.inr low))
  · exact (congrArg SlotMeta.paddingSlots (fromHead i le_rfl)).trans padded
  · exact (congrArg SlotMeta.originSize (fromHead i le_rfl)).trans sized

theorem markTail_returns {left originSize : Nat} (long : left * slotSize ≤ originSize)
    (slots : Nat → SlotMeta) (originAddr i : Nat) :
    ∃ marked, markTail slots originAddr originSize left i = .ok marked := by
  induction left generalizing slots originAddr originSize i with
  | zero => exact ⟨slots, rfl⟩
  | succ left ih =>
    rw [add_mul, one_mul] at long
    rw [markTail, if_neg (by omega)]
    exact ih (by omega) _ _ _

/-- Marking succeeds when the slots are in the area, and fails with an overflow of `used` only. -/
theorem markAllocated_ok_iff {originSize : Nat} (inside : i < area.len) (some : 0 < nSlots)
    (long : (nSlots - 1) * slotSize ≤ originSize) (originAddr padding : Nat) :
    (∃ marked, area.markAllocated i nSlots originSize originAddr padding = .ok marked) ↔
      i + nSlots ≤ area.len ∧ area.used + nSlots < 2 ^ 16 := by
  obtain ⟨slots, marks⟩ := markTail_returns long
    (Function.update area.slots i ⟨originAddr, originSize, none, padding⟩) originAddr (i + 1)
  simp only [markAllocated, bind, Except.bind, pure, Except.pure, throw, throwThe,
    MonadExceptOf.throw, if_neg (not_le.mpr inside), marks]
  by_cases room : nSlots = 0 ∨ area.len < i + nSlots
  · rw [if_pos room]
    exact iff_of_false (by rintro ⟨marked, ⟨⟩⟩) (by omega)
  · rw [if_neg room]
    by_cases full : 2 ^ 16 ≤ area.used + nSlots
    · simp only [if_pos full]
      exact iff_of_false (by rintro ⟨marked, ⟨⟩⟩) (by omega)
    · simp only [if_neg full]
      exact iff_of_true ⟨_, rfl⟩ (by omega)

/-- A free slot of an area, by its number in the pool. -/
def FreeAt (area : AreaInner) (index : Nat) : Prop :=
  area.slotOffset ≤ index ∧ index < area.slotOffset + area.len ∧
    (area.slots (index - area.slotOffset)).isFree = true

/-- A release of the slots behind a head gives back no others. -/
structure ReleaseExact (area : AreaInner) (i nSlots padding : Nat) : Prop where
  inside : area.releaseEnd i (padding + nSlots) ≤ area.len
  free : ∀ slot, i + nSlots ≤ slot → slot < area.releaseEnd i (padding + nSlots) →
    (area.slots slot).isFree = true
  used : (padding + nSlots) % 2 ^ 16 ≤ area.used + nSlots

theorem Marks.release_iff {originSize padding : Nat}
    (marks : area.Marks i (divCeil originSize slotSize) originSize padding after) :
    (∃ freed, after.freeSlots i = .ok freed ∧ ∀ index, freed.FreeAt index ↔ after.FreeAt index ∨
      area.slotOffset + i ≤ index ∧ index < area.slotOffset + i + divCeil originSize slotSize) ↔
    area.ReleaseExact i (divCeil originSize slotSize) padding := by
  have some := marks.some
  have room := marks.room
  have count : after.releaseCount i = padding + divCeil originSize slotSize := by
    rw [releaseCount, marks.padding, marks.size]
  have stop : after.releaseEnd i (padding + divCeil originSize slotSize) =
      area.releaseEnd i (padding + divCeil originSize slotSize) := by
    rw [releaseEnd, releaseEnd, marks.len, marks.behind _ (by omega)]
  have low := area.le_releaseEnd i (padding + divCeil originSize slotSize)
  have inArea : i < after.len := by
    rw [marks.len]
    omega
  have gives (freed : AreaInner) (ran : after.freeSlots i = .ok freed) :=
    freeSlots_ok inArea (by rw [count]; omega) ran
  have returns := freeSlots_returns inArea (by rw [count]; omega)
  rw [count, stop, marks.len, marks.used] at gives returns
  constructor
  · rintro ⟨freed, ran, exact⟩
    obtain ⟨inside, used, offsetEq, lenEq, isFree⟩ := gives freed ran
    refine ⟨inside, fun slot first before => ?_, used⟩
    have there : freed.FreeAt (area.slotOffset + slot) := by
      refine ⟨by rw [offsetEq, marks.slotOffset]; omega,
        by rw [offsetEq, marks.slotOffset, lenEq]; omega, ?_⟩
      rw [offsetEq, marks.slotOffset, Nat.add_sub_cancel_left]
      exact (isFree slot).mpr (.inr ⟨by omega, before⟩)
    rcases (exact _).mp there with ⟨-, -, free⟩ | range
    · rwa [marks.slotOffset, Nat.add_sub_cancel_left, marks.behind slot first] at free
    · omega
  · rintro ⟨inside, free, used⟩
    obtain ⟨freed, ran⟩ := returns inside used
    obtain ⟨-, -, offsetEq, lenEq, isFree⟩ := gives freed ran
    refine ⟨freed, ran, fun index => ?_⟩
    simp only [FreeAt, offsetEq, lenEq, marks.slotOffset, marks.len, isFree]
    constructor
    · rintro ⟨first, last, there | ⟨from', before⟩⟩
      · exact .inl ⟨first, last, there⟩
      · by_cases own : index < area.slotOffset + i + divCeil originSize slotSize
        · exact .inr ⟨by omega, own⟩
        · refine .inl ⟨first, last, ?_⟩
          rw [marks.behind _ (by omega)]
          exact free _ (by omega) before
    · rintro (⟨first, last, there⟩ | ⟨first, last⟩)
      · exact ⟨first, last, .inl there⟩
      · exact ⟨by omega, by omega, .inr ⟨by omega, by omega⟩⟩

end AreaInner

/-- A pool whose areas follow each other and whose counts are as documented. -/
structure PoolState where
  pool : BouncePool
  counted : ∀ area ∈ pool.areas, area.Counted
  ordered : pool.areas.Pairwise fun area next => area.slotOffset + area.len ≤ next.slotOffset

/-- A request for a bounce buffer. -/
structure BounceRequest where
  originSize : Nat
  originAddr : Nat
  align : Nat
  /-- The address bits in which the buffer has to agree with the original. -/
  offsetMask : Nat

namespace BounceRequest

variable (r : BounceRequest)

def nSlots : Nat := divCeil r.originSize slotSize

def counted : Nat := r.nSlots % 2 ^ 16

def alignSlots : Nat :=
  r.align * slotSize / Nat.gcd r.align slotSize / slotSize

variable {r} in
theorem alignSlots_mul (positive : 0 < r.align) :
    r.align = r.alignSlots * Nat.gcd r.align slotSize := by
  obtain ⟨quotient, split⟩ := Nat.gcd_dvd_left r.align slotSize
  have gcd := Nat.gcd_pos_of_pos_left slotSize positive
  unfold alignSlots
  generalize Nat.gcd r.align slotSize = divisor at split gcd
  rw [split, mul_assoc, Nat.mul_div_cancel_left _ gcd,
    Nat.mul_div_cancel _ (show 0 < slotSize by decide), mul_comm]

variable {r} in
theorem alignSlots_pos (positive : 0 < r.align) : 0 < r.alignSlots := by
  by_contra none
  have split := alignSlots_mul positive
  rw [Nat.eq_zero_of_not_pos none, zero_mul] at split
  omega

variable {r} in
/-- Behind an aligned start the aligned slots are the multiples of `align_slots`. -/
theorem dvd_slot_iff (positive : 0 < r.align) (start i : Nat) :
    r.align ∣ start + i * slotSize ↔
      if r.align ∣ start then r.alignSlots ∣ i else r.align ∣ start + i * slotSize := by
  split
  case isFalse => rfl
  case isTrue aligned =>
    have gcd := Nat.gcd_pos_of_pos_left slotSize positive
    have coprime := Nat.coprime_div_gcd_div_gcd gcd
    have split := alignSlots_mul positive
    have quotient : r.align / Nat.gcd r.align slotSize = r.alignSlots :=
      Nat.div_eq_of_eq_mul_left gcd split
    have slots : slotSize = slotSize / Nat.gcd r.align slotSize * Nat.gcd r.align slotSize :=
      (Nat.div_mul_cancel (Nat.gcd_dvd_right _ _)).symm
    rw [quotient] at coprime
    rw [Nat.dvd_add_right aligned]
    generalize Nat.gcd r.align slotSize = divisor at gcd coprime split slots
    rw [split, slots, ← mul_assoc, Nat.mul_dvd_mul_iff_right gcd]
    exact coprime.dvd_mul_right

/-- What `allocate` needs besides a free run: the slots are not too many for a buffer, the area and
its counter of used slots, and the alignment is one. -/
structure Grants (r : BounceRequest) (area : AreaInner) (i : Nat) : Prop where
  some : 0 < r.counted
  few : r.counted ≤ maxAllocSlots
  room : i + r.counted ≤ area.len
  used : area.used + r.counted < 2 ^ 16
  align_pos : 0 < r.align
  align_lt : r.align * slotSize < 2 ^ 64

/-- A run whose first slot is as good as the padded one, and whose release gives back no other slot:
if the area starts aligned the slot needs no padding, and if not it has to make up for it; the low
bits of its address are the required ones; behind the buffer there are as many free slots as the
padding has, and a count there does not leave the area. -/
structure Suits (r : BounceRequest) (base : Nat) (area : AreaInner) (i : Nat) : Prop where
  aligned : if r.align ∣ base + area.slotOffset * slotSize then r.alignSlots ∣ i
    else r.align ∣ base + area.slotOffset * slotSize + i * slotSize
  low : (base + (area.slotOffset + i) * slotSize) &&& r.offsetMask = r.originAddr &&& r.offsetMask
  short : r.nSlots < 2 ^ 16
  exact : area.ReleaseExact i r.nSlots (AreaInner.paddingAt r.alignSlots i)

end BounceRequest

def PoolState.allocate (s : PoolState) (r : BounceRequest) :
    Except IotlbPanic (Option Nat × BouncePool) :=
  s.pool.allocate r.originSize r.originAddr r.align

/-- The place that `allocate` takes: the first fit of the first area with a fit. A search of an area
without one has to start behind its first slot, or it does not end. -/
structure PoolState.Takes (s : PoolState) (r : BounceRequest) (area : AreaInner) (i : Nat) :
    Prop where
  split : ∃ front back, s.pool.areas = front ++ area :: back ∧
    ∀ earlier ∈ front, 0 < earlier.index ∧ ∀ j, earlier.Head j →
      ¬r.counted + j % r.alignSlots ≤ earlier.count j
  fit : area.FirstFit r.counted r.alignSlots i

/-- A slot of the pool is free. -/
def BouncePool.FreeAt (pool : BouncePool) (index : Nat) : Prop :=
  ∃ area ∈ pool.areas, area.FreeAt index

/-- A slot of the pool is taken. -/
def BouncePool.TakenAt (pool : BouncePool) (index : Nat) : Prop :=
  ∃ area ∈ pool.areas, area.slotOffset ≤ index ∧ index < area.slotOffset + area.len ∧
    (area.slots (index - area.slotOffset)).isFree = false

/-- The buffer is as requested, and its release gives back its slots. -/
structure BounceRequest.Served (r : BounceRequest) (addr : Nat) (after : BouncePool) : Prop where
  aligned : r.align ∣ addr
  low : addr &&& r.offsetMask = r.originAddr &&& r.offsetMask
  inside : ∀ byte, addr ≤ byte → byte < addr + r.originSize →
    (byte - after.paddrBase) / slotSize < (addr - after.paddrBase) / slotSize + r.counted ∧
      after.TakenAt ((byte - after.paddrBase) / slotSize)
  released : ∃ freed, after.deallocate addr = .ok freed ∧ ∀ index, freed.FreeAt index ↔
    after.FreeAt index ∨ (addr - after.paddrBase) / slotSize ≤ index ∧
      index < (addr - after.paddrBase) / slotSize + r.counted

section Loops

variable {nSlots originSize originAddr alignSlots : Nat} {areas after : List AreaInner}

/-- A request is served by the first area whose search finds something, if that can be marked. -/
theorem allocateIn_some_iff {index : Nat} : allocateIn nSlots originSize originAddr
      alignSlots areas = .ok (some index, after) ↔
    ∃ front area back padding i marked, areas = front ++ area :: back ∧
      (∀ earlier ∈ front, earlier.findConsecutiveFree nSlots alignSlots = .ok none) ∧
      area.findConsecutiveFree nSlots alignSlots = .ok (some (padding, i)) ∧
      area.markAllocated i nSlots originSize originAddr padding = .ok marked ∧
      index = marked.slotOffset + i ∧ after = front ++ marked :: back := by
  constructor
  · intro ran
    induction areas generalizing after with
    | nil => cases ran
    | cons first rest ih =>
      obtain ⟨⟨found, tried⟩, tries, ran⟩ := bind_eq_ok.mp ran
      obtain ⟨hit, searched, tries⟩ := bind_eq_ok.mp tries
      cases hit with
      | none =>
        cases tries
        obtain ⟨⟨others, later⟩, went, ran⟩ := bind_eq_ok.mp ran
        cases ran
        obtain ⟨front, area, back, padding, i, marked, rfl, misfits, hit, marking, rfl, rfl⟩ :=
          ih went
        exact ⟨first :: front, area, back, padding, i, marked, rfl,
          forall_mem_cons.mpr ⟨searched, misfits⟩, hit, marking, rfl, rfl⟩
      | some hit =>
        obtain ⟨marked, marking, tries⟩ := bind_eq_ok.mp tries
        cases tries
        cases ran
        exact ⟨[], first, rest, hit.1, hit.2, _, rfl, nofun, searched, marking, rfl, rfl⟩
  · rintro ⟨front, area, back, padding, i, marked, rfl, misfits, searched, marking, rfl, rfl⟩
    induction front with
    | nil =>
      rw [nil_append, allocateIn, AreaInner.tryAlloc, searched]
      simp only [ok_bind, marking]
      rfl
    | cons first front ih =>
      obtain ⟨misfit, later⟩ := forall_mem_cons.mp misfits
      rw [cons_append, allocateIn, AreaInner.tryAlloc, misfit]
      simp only [ok_bind, pure_ok, ih later]
      rfl

/-- A buffer is returned when its slots are few enough and some area serves it. -/
theorem allocate_some_iff {pool after : BouncePool} {align addr : Nat} :
    pool.allocate originSize originAddr align = .ok (some addr, after) ↔
      divCeil originSize slotSize % 2 ^ 16 ≤ maxAllocSlots ∧ align * slotSize < 2 ^ 64 ∧
      ∃ index areas, allocateIn (divCeil originSize slotSize % 2 ^ 16) originSize originAddr
          (align * slotSize / Nat.gcd align slotSize / slotSize) pool.areas =
            .ok (some index, areas) ∧
        addr = pool.paddrBase + index * slotSize ∧ after = ⟨pool.paddrBase, areas⟩ := by
  rw [BouncePool.allocate]
  split
  case isTrue many => exact iff_of_false (by rintro ⟨⟩) (by omega)
  case isFalse few =>
    dsimp only
    split
    case isTrue large => exact iff_of_false (by rintro ⟨⟩) (by omega)
    case isFalse small =>
      rw [and_iff_right (not_lt.mp few), and_iff_right (not_le.mp small)]
      constructor
      · intro ran
        obtain ⟨⟨found, areas⟩, went, ran⟩ := bind_eq_ok.mp ran
        cases found with
        | none => cases ran
        | some index =>
          cases ran
          exact ⟨index, areas, went, rfl, rfl⟩
      · rintro ⟨index, areas, went, rfl, rfl⟩
        exact bind_eq_ok.mpr ⟨_, went, rfl⟩

/-- An alignment of zero divides by zero at the first free slot. -/
theorem allocateIn_zero (index : Nat) :
    allocateIn nSlots originSize originAddr 0 areas ≠ .ok (some index, after) := by
  have search (area : AreaInner) (start rounds i : Nat) (hit : Nat × Nat) :
      area.findLoop nSlots 0 start rounds i ≠ .ok (some hit) := by
    induction rounds generalizing i with
    | zero => rintro ⟨⟩
    | succ rounds ih =>
      rw [AreaInner.findLoop]
      split
      · rintro ⟨⟩
      · split
        · rintro ⟨⟩
        · split
          · rintro ⟨⟩
          · exact ih _
  induction areas generalizing after with
  | nil => rintro ⟨⟩
  | cons first rest ih =>
    intro ran
    obtain ⟨⟨found, tried⟩, tries, ran⟩ := bind_eq_ok.mp ran
    obtain ⟨hit, searched, tries⟩ := bind_eq_ok.mp tries
    cases hit with
    | some hit => exact search _ _ _ _ _ searched
    | none =>
      cases tries
      obtain ⟨⟨others, later⟩, went, ran⟩ := bind_eq_ok.mp ran
      cases ran
      exact ih went

theorem deallocateIn_area {front back : List AreaInner} {area : AreaInner} {i : Nat}
    (before : ∀ earlier ∈ front, earlier.slotOffset + earlier.len ≤ area.slotOffset)
    (inside : i < area.len) :
    deallocateIn (area.slotOffset + i) (front ++ area :: back) =
      area.freeSlots i >>= fun freed => .ok (front ++ freed :: back) := by
  induction front with
  | nil =>
    rw [nil_append, deallocateIn, if_pos (by omega), Nat.add_sub_cancel_left]
    rfl
  | cons head front ih =>
    obtain ⟨first, others⟩ := forall_mem_cons.mp before
    rw [cons_append, deallocateIn, if_neg (by omega), ih others, bind_assoc]
    rfl

end Loops

section OneArea

variable {base : Nat} {front back : List AreaInner} {area marked : AreaInner}

theorem freeAt_split (base : Nat) (front back : List AreaInner) (area : AreaInner) (index : Nat) :
    BouncePool.FreeAt ⟨base, front ++ area :: back⟩ index ↔
      (∃ other ∈ front ++ back, other.FreeAt index) ∨ area.FreeAt index := by
  simp only [BouncePool.FreeAt, mem_append, mem_cons]
  constructor
  · rintro ⟨other, member | rfl | member, free⟩
    · exact .inl ⟨other, .inl member, free⟩
    · exact .inr free
    · exact .inl ⟨other, .inr member, free⟩
  · rintro (⟨other, member | member, free⟩ | free)
    · exact ⟨other, .inl member, free⟩
    · exact ⟨other, .inr (.inr member), free⟩
    · exact ⟨area, .inr (.inl rfl), free⟩

variable (ordered : (front ++ area :: back).Pairwise fun area next =>
  area.slotOffset + area.len ≤ next.slotOffset)
include ordered

theorem not_freeAt_others {index : Nat}
    (low : area.slotOffset ≤ index) (high : index < area.slotOffset + area.len) :
    ¬∃ other ∈ front ++ back, other.FreeAt index := by
  obtain ⟨-, later, earlier⟩ := pairwise_append.mp ordered
  rintro ⟨other, member, first, last, -⟩
  rcases mem_append.mp member with member | member
  · have := earlier other member area mem_cons_self
    omega
  · have := (pairwise_cons.mp later).1 other member
    omega

theorem released_iff {i nSlots : Nat}
    (offset : marked.slotOffset = area.slotOffset) (len : marked.len = area.len)
    (room : i + nSlots ≤ area.len) (inside : i < area.len) (some : 0 < marked.releaseCount i) :
    (∃ freed, deallocate ⟨base, front ++ marked :: back⟩
        (base + (area.slotOffset + i) * slotSize) = .ok freed ∧ ∀ index, freed.FreeAt index ↔
      BouncePool.FreeAt ⟨base, front ++ marked :: back⟩ index ∨
        area.slotOffset + i ≤ index ∧ index < area.slotOffset + i + nSlots) ↔
    ∃ freed, marked.freeSlots i = .ok freed ∧ ∀ index, freed.FreeAt index ↔
      marked.FreeAt index ∨ area.slotOffset + i ≤ index ∧ index < area.slotOffset + i + nSlots := by
  have before (earlier : AreaInner) (member : earlier ∈ front) :
      earlier.slotOffset + earlier.len ≤ marked.slotOffset := by
    rw [offset]
    exact (pairwise_append.mp ordered).2.2 earlier member area mem_cons_self
  have call : deallocate ⟨base, front ++ marked :: back⟩
      (base + (area.slotOffset + i) * slotSize) = marked.freeSlots i >>= fun freed =>
        .ok ⟨base, front ++ freed :: back⟩ := by
    rw [deallocate, Nat.add_sub_cancel_left,
      Nat.mul_div_cancel _ (show 0 < slotSize by decide), ← offset,
      deallocateIn_area before (by rw [len]; exact inside), bind_assoc]
    rfl
  rw [call]
  constructor
  · rintro ⟨pool, ran, exact⟩
    obtain ⟨freed, frees, made⟩ := bind_eq_ok.mp ran
    cases made
    obtain ⟨-, -, offsetEq, lenEq, -⟩ :=
      AreaInner.freeSlots_ok (by rw [len]; exact inside) some frees
    refine ⟨freed, frees, fun index => ?_⟩
    by_cases own : area.slotOffset ≤ index ∧ index < area.slotOffset + area.len
    · have others := not_freeAt_others ordered own.1 own.2
      have iff := exact index
      rwa [freeAt_split, freeAt_split, or_iff_right others, or_iff_right others] at iff
    · rw [AreaInner.FreeAt, AreaInner.FreeAt, offsetEq, lenEq, offset, len]
      exact ⟨fun free => absurd ⟨free.1, free.2.1⟩ own, by omega⟩
  · rintro ⟨freed, ran, exact⟩
    refine ⟨⟨base, front ++ freed :: back⟩, by rw [ran]; rfl, fun index => ?_⟩
    rw [freeAt_split, freeAt_split, exact index, or_assoc]

end OneArea

/-- A buffer is served rightly exactly when its slot suits. -/
theorem BounceRequest.served_iff (r : BounceRequest) {base i : Nat}
    {front back : List AreaInner} {area marked : AreaInner}
    (ordered : (front ++ area :: back).Pairwise fun area next =>
      area.slotOffset + area.len ≤ next.slotOffset)
    (positive : 0 < r.align)
    (marks : area.Marks i r.counted r.originSize (AreaInner.paddingAt r.alignSlots i) marked) :
    r.Served (base + (area.slotOffset + i) * slotSize) ⟨base, front ++ marked :: back⟩ ↔
      r.Suits base area i := by
  have some := marks.some
  have room := marks.room
  have counted : r.counted ≤ r.nSlots := mod_le _ _
  have first : (base + (area.slotOffset + i) * slotSize - base) / slotSize =
      area.slotOffset + i := by
    rw [Nat.add_sub_cancel_left, Nat.mul_div_cancel _ (show 0 < slotSize by decide)]
  have releases : 0 < marked.releaseCount i := by
    rw [AreaInner.releaseCount, marks.size]
    have : 0 < divCeil r.originSize slotSize := some.trans_le counted
    omega
  have whole : r.nSlots * slotSize ≤ r.originSize + slotSize - 1 := div_mul_le_self _ _
  constructor
  · rintro ⟨aligned, low, inside, released⟩
    have short : r.nSlots < 2 ^ 16 := by
      by_contra long
      -- The byte after the counted slots is one of the buffer.
      have less : r.counted + 1 ≤ r.nSlots := by
        unfold BounceRequest.counted
        omega
      have slot := (inside (base + (area.slotOffset + i + r.counted) * slotSize)
        (by rw [add_mul _ r.counted]; omega)
        (by rw [add_mul _ r.counted]; simp only [slotSize] at *; omega)).1
      simp only [Nat.add_sub_cancel_left,
        Nat.mul_div_cancel _ (show 0 < slotSize by decide), lt_irrefl] at slot
    have same : r.counted = r.nSlots := mod_eq_of_lt short
    refine ⟨(dvd_slot_iff positive _ _).mp (by rwa [add_assoc, ← add_mul]), low, short, ?_⟩
    rw [same] at marks room
    simp only [first, same] at released
    exact marks.release_iff.mp
      ((released_iff ordered marks.slotOffset marks.len room (by omega) releases).mp released)
  · rintro ⟨aligned, low, short, exact⟩
    have same : r.counted = r.nSlots := mod_eq_of_lt short
    have covers : r.originSize ≤ r.nSlots * slotSize := le_divCeil_mul (by decide)
    rw [same] at marks room
    have whole' := (dvd_slot_iff positive _ _).mpr aligned
    rw [add_assoc, ← add_mul] at whole'
    refine ⟨whole', low, fun byte from' before => ?_, ?_⟩
    · obtain ⟨offset, rfl⟩ := Nat.exists_eq_add_of_le from'
      have slot : (base + (area.slotOffset + i) * slotSize + offset - base) / slotSize =
          area.slotOffset + i + offset / slotSize := by
        rw [add_assoc, Nat.add_sub_cancel_left, mul_comm,
          mul_add_div (show 0 < slotSize by decide)]
      have own : offset / slotSize < r.nSlots :=
        (Nat.div_lt_iff_lt_mul (show 0 < slotSize by decide)).mpr (by omega)
      rw [slot, first, same]
      generalize offset / slotSize = passed at own
      refine ⟨by omega, marked, by simp, by rw [marks.slotOffset]; omega,
        by rw [marks.slotOffset, marks.len]; omega, ?_⟩
      rw [marks.slotOffset]
      exact marks.taken _ (by omega) (by omega)
    · simp only [first, same]
      exact (released_iff ordered marks.slotOffset marks.len room (by omega) releases).mpr
        (marks.release_iff.mpr exact)

namespace PoolState

variable (s : PoolState) (r : BounceRequest)

variable {s r}

theorem counted_long : (r.counted - 1) * slotSize ≤ r.originSize := by
  have counted : r.counted ≤ r.nSlots := mod_le _ _
  have whole : r.nSlots * slotSize ≤ r.originSize + slotSize - 1 := div_mul_le_self _ _
  have less : (r.counted - 1) * slotSize ≤ (r.nSlots - 1) * slotSize :=
    Nat.mul_le_mul_right _ (by omega)
  rw [Nat.sub_one_mul] at less ⊢
  simp only [slotSize] at *
  omega

/-- A buffer that `allocate` returns is the place it takes. -/
theorem allocate_some {addr : Nat} {after : BouncePool}
    (ran : s.allocate r = .ok (some addr, after)) :
    ∃ front area back i marked, s.pool.areas = front ++ area :: back ∧ s.Takes r area i ∧
      r.Grants area i ∧
      area.Marks i r.counted r.originSize (AreaInner.paddingAt r.alignSlots i) marked ∧
      addr = s.pool.paddrBase + (area.slotOffset + i) * slotSize ∧
      after = ⟨s.pool.paddrBase, front ++ marked :: back⟩ := by
  obtain ⟨few, small, index, areas, went, rfl, rfl⟩ := allocate_some_iff.mp ran
  have positive : 0 < r.align := by
    by_contra none
    have zero : r.align = 0 := by omega
    rw [zero] at went
    exact allocateIn_zero index (by simpa using went)
  have slots := BounceRequest.alignSlots_pos positive
  obtain ⟨front, area, back, padding, i, marked, areasEq, searches, search, marking, rfl, rfl⟩ :=
    allocateIn_some_iff.mp went
  have counted := s.counted
  rw [areasEq] at counted
  obtain ⟨fit, rfl⟩ := (search_some_iff (counted area (by simp)) slots).mp search
  have misfits (earlier : AreaInner) (member : earlier ∈ front) :=
    (search_none_iff (counted earlier (by simp [member])) slots).mp (searches earlier member)
  have marks := AreaInner.markAllocated_marks marking
  obtain ⟨room, used⟩ := (AreaInner.markAllocated_ok_iff fit.head.inside marks.some
    counted_long r.originAddr _).mp ⟨marked, marking⟩
  refine ⟨front, area, back, i, marked, areasEq, ⟨⟨front, back, areasEq, misfits⟩, fit⟩,
    ⟨marks.some, few, room, used, positive, small⟩, marks, ?_, rfl⟩
  rw [marks.slotOffset]

/-- `allocate` returns a buffer at the place it takes, if that is granted. -/
theorem allocate_takes {area : AreaInner} {i : Nat} (takes : s.Takes r area i)
    (grants : r.Grants area i) : ∃ front back marked, s.pool.areas = front ++ area :: back ∧
      area.Marks i r.counted r.originSize (AreaInner.paddingAt r.alignSlots i) marked ∧
      s.allocate r = .ok (some (s.pool.paddrBase + (area.slotOffset + i) * slotSize),
        ⟨s.pool.paddrBase, front ++ marked :: back⟩) := by
  obtain ⟨⟨front, back, areasEq, misfits⟩, fit⟩ := takes
  have counted := s.counted
  rw [areasEq] at counted
  obtain ⟨marked, marking⟩ := (AreaInner.markAllocated_ok_iff fit.head.inside grants.some
    counted_long r.originAddr (AreaInner.paddingAt r.alignSlots i)).mpr ⟨grants.room, grants.used⟩
  have marks := AreaInner.markAllocated_marks marking
  have slots := BounceRequest.alignSlots_pos grants.align_pos
  have found := allocateIn_some_iff.mpr ⟨front, area, back, _, i, marked, areasEq,
    fun earlier member => (search_none_iff (counted earlier (by simp [member])) slots).mpr
      (misfits earlier member),
    (search_some_iff (counted area (by simp)) slots).mpr ⟨fit, rfl⟩, marking, rfl, rfl⟩
  rw [marks.slotOffset] at found
  refine ⟨front, back, marked, areasEq, marks, ?_⟩
  exact allocate_some_iff.mpr ⟨grants.few, grants.align_lt, _, _, found, rfl, rfl⟩

variable (s r)

end PoolState

/-- The areas of `init` are counted up to the end of the pool. -/
theorem init_counted (base : Nat) {areas slotsPerArea : Nat} (some : 0 < slotsPerArea) :
    ∀ area ∈ (init base areas slotsPerArea).areas, area.Counted := by
  intro area member
  obtain ⟨k, inside, rfl⟩ := mem_map.mp member
  rw [mem_range] at inside
  have multiple : areas * slotsPerArea - k * slotsPerArea = (areas - k) * slotsPerArea :=
    (Nat.sub_mul ..).symm
  have least : 1 * slotsPerArea ≤ (areas - k) * slotsPerArea :=
    Nat.mul_le_mul_right _ (by omega)
  have reach (i : Nat) (less : i < slotsPerArea) :
      i + (areas * slotsPerArea - (k * slotsPerArea + i)) = (areas - k) * slotsPerArea := by omega
  refine ⟨some, fun i less _ => ?_, fun _ _ _ _ _ _ _ => rfl, fun i less _ ends => ?_,
    fun i less _ _ => ?_⟩
  · have less : i < slotsPerArea := less
    change 0 < areas * slotsPerArea - (k * slotsPerArea + i)
    omega
  · change i + (areas * slotsPerArea - (k * slotsPerArea + i)) < slotsPerArea at ends
    rw [reach i less] at ends
    exact absurd ends (by omega)
  · change slotsPerArea ∣ i + (areas * slotsPerArea - (k * slotsPerArea + i))
    rw [reach i less]
    exact dvd_mul_left _ _

/-- The pool as `init` makes it. -/
def initialPool : PoolState where
  pool := init 0 totalAreas slotsPerArea
  counted := init_counted 0 (by decide)
  ordered := by decide

def oneSlot : BounceRequest := ⟨slotSize, 0, 1, 0⟩

end Horizon.Iotlb
