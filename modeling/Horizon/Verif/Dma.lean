import Horizon.Kernel.Dma
import Horizon.Verif.IotlbGrant

/-!
# Segments and device constraints

The address mask is tested on the first byte of a buffer only, and neither the place of a bounce
buffer nor its length is tested; a coherent block is not compared with the longest segment. A bounce
buffer may come to lie at any place of the pool, so all of them have to meet the constraints.
-/

namespace Horizon.Dma

open Memory Iotlb Runs List Device DmaHandle Nat Source Constraints BitmapAlloc

variable {c : Constraints} {addr size : Nat}

/-- A segment meets the constraints, with the address mask of its kind. -/
structure Fits (c : Constraints) (mask addr size : Nat) : Prop where
  lastByte : size ≠ 0 → (addr + (size - 1)) &&& mask = addr + (size - 1)
  /-- First and last byte lie between the same two multiples of the boundary. -/
  boundary : c.boundaryMask ≠ 0 → size ≠ 0 →
    addr / (c.boundaryMask + 1) = (addr + (size - 1)) / (c.boundaryMask + 1)
  length : c.maxSegmentSize ≠ 0 → size ≤ c.maxSegmentSize

theorem fits_iff (c : Constraints) (mask addr size : Nat) : Fits c mask addr size ↔
    (size ≠ 0 → (addr + (size - 1)) &&& mask = addr + (size - 1)) ∧ (c.boundaryMask ≠ 0 → size ≠ 0 →
      addr / (c.boundaryMask + 1) = (addr + (size - 1)) / (c.boundaryMask + 1)) ∧
    (c.maxSegmentSize ≠ 0 → size ≤ c.maxSegmentSize) :=
  ⟨fun fits => ⟨fits.lastByte, fits.boundary, fits.length⟩,
    fun parts => ⟨parts.1, parts.2.1, parts.2.2⟩⟩

instance (c : Constraints) (mask addr size : Nat) : Decidable (Fits c mask addr size) :=
  decidable_of_iff _ (fits_iff c mask addr size).symm

/-- The boundary is a power of two, for which `crosses_boundary` is exact. -/
def PlainBoundary (c : Constraints) : Prop := ∃ k ≤ 64, c.boundaryMask = 2 ^ k - 1

theorem testBit_andNot (value mask i : Nat) :
    (andNot value mask).testBit i = (value.testBit i && !mask.testBit i) := by
  rw [andNot, testBit_xor, testBit_and]
  cases value.testBit i <;> cases mask.testBit i <;> rfl

theorem andNot_eq_iff (a b k : Nat) :
    andNot a (2 ^ k - 1) = andNot b (2 ^ k - 1) ↔ a / 2 ^ k = b / 2 ^ k := by
  constructor
  · intro same
    apply eq_of_testBit_eq
    intro i
    have bit := congrArg (fun word => word.testBit (i + k)) same
    have high : ¬ i + k < k := by omega
    simpa [testBit_andNot, testBit_two_pow_sub_one, testBit_div_two_pow, high] using bit
  · intro same
    apply eq_of_testBit_eq
    intro i
    rw [testBit_andNot, testBit_andNot, testBit_two_pow_sub_one]
    by_cases low : i < k
    · simp [low]
    · have bit := congrArg (fun word => word.testBit (i - k)) same
      have split : i - k + k = i := by omega
      simpa [testBit_div_two_pow, split, low] using bit

theorem PlainBoundary.of_not_crosses (plain : PlainBoundary c)
    (stays : c.crossesBoundary addr size = false) (bounded : c.boundaryMask ≠ 0) (some : size ≠ 0) :
    addr / (c.boundaryMask + 1) = (addr + (size - 1)) / (c.boundaryMask + 1) := by
  obtain ⟨k, _, mask⟩ := plain
  have power : c.boundaryMask + 1 = 2 ^ k := by
    have := Nat.two_pow_pos k
    omega
  rw [crossesBoundary, if_neg (by simp [bounded, some])] at stays
  split at stays
  · cases stays
  · rw [power]
    apply (andNot_eq_iff _ _ k).mp
    rw [← mask]
    simpa using stays

theorem div_eq_of_front {start short long step : Nat} (part : short ≤ long)
    (stays : start / step = (start + long) / step) : start / step = (start + short) / step := by
  have lower : start / step ≤ (start + short) / step := Nat.div_le_div_right (by omega)
  have upper : (start + short) / step ≤ (start + long) / step := Nat.div_le_div_right (by omega)
  omega

/-- What is left to ask when a buffer passed the tests: its last byte, and the boundary where it is
not a power of two. -/
def DirectFits (c : Constraints) (addr size : Nat) : Prop :=
  (size ≠ 0 → (addr + (size - 1)) &&& c.mask = addr + (size - 1)) ∧
  (PlainBoundary c ∨ (c.boundaryMask ≠ 0 → size ≠ 0 →
    addr / (c.boundaryMask + 1) = (addr + (size - 1)) / (c.boundaryMask + 1)))

/-- What is left to ask of a coherent block that passed the tests. -/
def CoherentFits (c : Constraints) (addr size : Nat) : Prop :=
  (size ≠ 0 → (addr + (size - 1)) &&& c.coherentMask = addr + (size - 1)) ∧
  (PlainBoundary c ∨ (c.boundaryMask ≠ 0 → size ≠ 0 →
    addr / (c.boundaryMask + 1) = (addr + (size - 1)) / (c.boundaryMask + 1))) ∧
  (c.maxSegmentSize ≠ 0 → size ≤ c.maxSegmentSize)

theorem fits_direct_iff (passed : c.needBounce addr size = false) :
    Fits c c.mask addr size ↔ DirectFits c addr size := by
  simp only [needBounce, Bool.or_eq_false_iff] at passed
  obtain ⟨⟨_, stays⟩, short⟩ := passed
  constructor
  · intro fits
    exact ⟨fits.lastByte, .inr fits.boundary⟩
  · intro rest
    refine ⟨rest.1, ?_, ?_⟩
    · cases rest.2 with
      | inl plain => exact fun bounded some => plain.of_not_crosses stays bounded some
      | inr kept => exact kept
    · intro limited
      simp only [exceedsMaxSegmentSize, decide_eq_false_iff_not] at short
      omega

theorem fits_coherent_iff {whole : Nat} (part : size ≤ whole)
    (stays : c.crossesBoundary addr whole = false) :
    Fits c c.coherentMask addr size ↔ CoherentFits c addr size := by
  constructor
  · intro fits
    exact ⟨fits.lastByte, .inr fits.boundary, fits.length⟩
  · intro rest
    refine ⟨rest.1, ?_, rest.2.2⟩
    cases rest.2.1 with
    | inl plain =>
      intro bounded some
      apply div_eq_of_front (Nat.sub_le_sub_right part 1)
      exact plain.of_not_crosses stays bounded (by omega)
    | inr kept => exact kept

/-- The ways to map memory for a device. -/
inductive Request
  | single (vaddr size : Nat)
  | scatter (entries : List Entry) (nEntries : Nat)
  | coherent (size : Nat)

def Request.mask (c : Constraints) : Request → Nat
  | .single _ _ => c.mask
  | .scatter _ _ => c.mask
  | .coherent _ => c.coherentMask

def segmentsOf (entries : List Entry) : List (Nat × Nat) :=
  (entries.filter fun entry => !entry.isEmpty).map fun entry => (entry.dmaAddr, entry.size)

/-- The segments a request hands to the device, or why it is refused. -/
def Device.serve (device : Device) (layout : Layout) :
    Request → Except DmaPanic (Except MemoryError (List (Nat × Nat)))
  | .single vaddr size => do
    let (answer, _) ← device.mapSingle layout vaddr size
    return answer.map fun handle => [(handle.dmaAddr, handle.size)]
  | .scatter entries nEntries => do
    let (answer, entries, _) ← device.mapSg layout entries nEntries
    return answer.map fun _ => segmentsOf (entries.take nEntries)
  | .coherent size => do
    let (answer, _) ← device.allocCoherent layout size
    return answer.map fun handle => [(handle.dmaAddr, handle.size)]

/-- The request itself and, for a list, each of its entries alone. -/
def Request.Part (part : Request) : Request → Prop
  | .scatter entries nEntries => part = .scatter entries nEntries ∨
    ∃ entry ∈ entries.take nEntries, part = .scatter [entry] 1
  | whole => part = whole

/-- The pool of the kernel at an address, cut into areas as `init` does, in any state. -/
structure PoolAt (base : Nat) (pool : BouncePool) : Prop where
  base : pool.paddrBase = base
  areas : pool.areas.map (fun area => (area.slotOffset, area.len)) =
    (range totalAreas).map fun k => (k * slotsPerArea, slotsPerArea)

/-- The sizes that the pool has buffers for, under a mask. -/
structure Bounceable (c : Constraints) (size : Nat) : Prop where
  mask : c.mask ≠ 0
  some : 0 < size
  short : size < 2 ^ 16 - 1
  align : 2 ^ trailingZeros c.mask * slotSize < 2 ^ 64

/-- A buffer of the size meets the constraints wherever in an area of the pool it lies. -/
def PoolFits (c : Constraints) (base size : Nat) : Prop :=
  Bounceable c size → ∀ k < totalAreas, ∀ i, i + divCeil size slotSize ≤ slotsPerArea →
    Fits c c.mask (base + (k * slotsPerArea + i) * slotSize) size

/-- A buffer at a physical address either passes the tests and ends inside the mask, or the pool
fits its size. -/
def BufferFits (c : Constraints) (base paddr size : Nat) : Prop :=
  if c.needBounce paddr size then PoolFits c base size else DirectFits c paddr size

/-- The requests that the tests of the source are enough for, by the constraints, the place of the
pool, the page tables and the blocks of the page allocator. -/
def Device.Suits (device : Device) (layout : Layout) : Request → Prop
  | .single vaddr size =>
    match directTranslate layout vaddr size with
    | .error _ => True
    | .ok none => (layout.translate vaddr).isSome → PoolFits device.constraints
        layout.pool.paddrBase size
    | .ok (some paddr) =>
      (device.constraints.needBounce paddr size → (layout.translate vaddr).isSome) →
        BufferFits device.constraints layout.pool.paddrBase paddr size
  | .scatter entries nEntries => ∀ entry ∈ entries.take nEntries, ∀ paddr,
      entry.physAddr = some paddr → paddr < 2 ^ 64 →
      BufferFits device.constraints layout.pool.paddrBase paddr entry.size
  | .coherent size => ∀ order vaddr paddr, size ≠ 0 →
      PerCpu.orderFromSize ⟨true⟩ size = .ok order →
      layout.pages (device.coherentAllocator.getD
        (CoherentAllocator.new device.constraints device.coherency)) order =
          .ok (vaddr, some paddr) →
      device.constraints.crossesBoundary paddr (2 ^ order * pageSize) = false →
      device.constraints.isCoherentSatisfied paddr = true →
      CoherentFits device.constraints paddr size

section Pool

variable {base place : Nat} {pool after : BouncePool}

/-- A bounce buffer lies in one area of the pool, which keeps its place. -/
theorem acquireBounce_place (at_ : PoolAt base pool)
    (ran : acquireBounce c pool addr size = .ok (.ok place, after)) :
    PoolAt base after ∧ Bounceable c size ∧ ∃ k < totalAreas, ∃ i,
      i + divCeil size slotSize ≤ slotsPerArea ∧
      place = base + (k * slotsPerArea + i) * slotSize := by
  obtain ⟨rfl, areas⟩ := at_
  rw [acquireBounce] at ran
  split at ran
  · cases ran
  rename_i short
  split at ran
  · cases ran
  rename_i mask
  obtain ⟨⟨found, taken⟩, allocated, ran⟩ := bind_eq_ok.mp ran
  cases found with
  | none => cases ran
  | some found =>
    cases ran
    have allocated : pool.allocate size addr (2 ^ trailingZeros c.mask) =
        .ok (some place, after) := by
      cases call : pool.allocate size addr (2 ^ trailingZeros c.mask) with
      | error panic =>
        rw [call] at allocated
        cases allocated
      | ok answer =>
        rw [call] at allocated
        cases allocated
        rfl
    obtain ⟨-, align, index, areas', went, rfl, rfl⟩ := allocate_some_iff.mp allocated
    obtain ⟨front, area, back, padding, i, marked, split, -, -, marking, rfl, rfl⟩ :=
      allocateIn_some_iff.mp went
    have marks := AreaInner.markAllocated_marks marking
    have count : divCeil size slotSize % 2 ^ 16 = divCeil size slotSize := by
      refine mod_eq_of_lt ?_
      simp only [divCeil, slotSize]
      omega
    rw [count] at marks
    have member : (area.slotOffset, area.len) ∈
        pool.areas.map fun area => (area.slotOffset, area.len) :=
      mem_map.mpr ⟨area, by simp [split], rfl⟩
    rw [areas, mem_map] at member
    obtain ⟨k, inside, same⟩ := member
    obtain ⟨offset, len⟩ := Prod.mk.inj same
    refine ⟨⟨rfl, ?_⟩, ⟨mask, ?_, not_le.mp short, align⟩, k, mem_range.mp inside, i, ?_, ?_⟩
    · rw [split] at areas
      simpa [marks.slotOffset, marks.len] using areas
    · by_contra none
      have := marks.some
      rw [Nat.eq_zero_of_not_pos none] at this
      exact absurd this (by decide)
    · rw [len]
      exact marks.room
    · rw [marks.slotOffset, offset]

/-- The areas of a pool with one free slot, of number `i` in area `k`. -/
def onlyArea (k i room area : Nat) : AreaInner where
  used := 0
  index := if area = k then i else 1
  slotOffset := area * slotsPerArea
  len := slotsPerArea
  slots slot := ⟨0, 0, if area = k ∧ slot = i then some room else none, 0⟩

/-- The search of an area without the free slot finds nothing. -/
theorem onlyArea_none {k area : Nat} (other : area ≠ k) (i room nSlots : Nat) {alignSlots : Nat}
    (positive : 0 < alignSlots) :
    (onlyArea k i room area).findConsecutiveFree nSlots alignSlots = .ok none := by
  have full (slot : Nat) : ((onlyArea k i room area).slots slot).isFree = false := by
    simp [onlyArea, SlotMeta.isFree, other]
  have index : (onlyArea k i room area).index = 1 := if_neg other
  have start : (onlyArea k i room area).index < slotsPerArea := by
    rw [index]
    decide
  have counted := AreaInner.counted_of_full start fun slot _ =>
    full slot
  refine (search_none_iff counted positive).mpr ⟨by rw [index]; decide, fun slot head => ?_⟩
  exact absurd (head.free.symm.trans (full slot)) (by decide)

/-- Every place is the one that some state of the pool hands out. -/
theorem acquireBounce_onlyPlace (bounceable : Bounceable c size) {k i : Nat}
    (inPool : k < totalAreas) (inside : i + divCeil size slotSize ≤ slotsPerArea)
    (base paddr : Nat) :
    ∃ pool after, PoolAt base pool ∧ acquireBounce c pool paddr size =
      .ok (.ok (base + (k * slotsPerArea + i) * slotSize), after) := by
  let request : BounceRequest := ⟨size, paddr, 2 ^ trailingZeros c.mask, 0⟩
  have slots : 0 < request.alignSlots := BounceRequest.alignSlots_pos (Nat.two_pow_pos _)
  have short := bounceable.short
  have filled := bounceable.some
  have few : 0 < divCeil size slotSize ∧ divCeil size slotSize ≤ maxAllocSlots := by
    simp only [divCeil, slotSize, maxAllocSlots]
    omega
  have counted : request.counted = divCeil size slotSize :=
    mod_eq_of_lt (few.2.trans_lt (by decide))
  let area := onlyArea k i (request.counted + i % request.alignSlots)
  -- The areas before the one with the place are full.
  obtain ⟨front, back, split⟩ := append_of_mem (mem_range.mpr inPool)
  have others : ∀ j ∈ front, j ≠ k := by
    have distinct := nodup_range (n := totalAreas)
    rw [split, nodup_append] at distinct
    exact fun j member => distinct.2.2 j member k mem_cons_self
  have search : (area k).findConsecutiveFree request.counted request.alignSlots =
      .ok (some (AreaInner.paddingAt request.alignSlots i, i)) := by
    have start : (area k).index = i := if_pos rfl
    rw [AreaInner.findConsecutiveFree, start]
    refine AreaInner.findLoop_fits (show i < slotsPerArea by omega) slots ⟨_, ?_, le_rfl⟩ _
    simp [area, onlyArea]
  have unused : (area k).used + request.counted < 2 ^ 16 := by
    rw [counted]
    exact (Nat.add_le_add_left few.2 0).trans_lt (by decide)
  obtain ⟨marked, marking⟩ := (AreaInner.markAllocated_ok_iff (show i < (area k).len from
    (by omega : i < slotsPerArea)) (by rw [counted]; exact few.1) PoolState.counted_long paddr
    (AreaInner.paddingAt request.alignSlots i)).mpr ⟨by rw [counted]; exact inside, unused⟩
  have went : BouncePool.allocateIn request.counted size paddr request.alignSlots
      ((range totalAreas).map area) =
      .ok (some (marked.slotOffset + i), front.map area ++ marked :: back.map area) := by
    refine allocateIn_some_iff.mpr ⟨_, area k, _, _, i, marked, ?_, ?_, search, marking, rfl, rfl⟩
    · rw [split, map_append, map_cons]
    · intro earlier member
      obtain ⟨j, inFront, rfl⟩ := mem_map.mp member
      exact onlyArea_none (others j inFront) _ _ _ slots
  refine ⟨⟨base, (range totalAreas).map area⟩, ⟨base, front.map area ++ marked :: back.map area⟩,
    ⟨rfl, by simp [area, onlyArea]⟩, ?_⟩
  have allocated : BouncePool.allocate ⟨base, (range totalAreas).map area⟩ size paddr
      (2 ^ trailingZeros c.mask) = .ok (some (base + (marked.slotOffset + i) * slotSize),
        ⟨base, front.map area ++ marked :: back.map area⟩) := by
    rw [← counted] at few
    exact allocate_some_iff.mpr ⟨few.2, bounceable.align, _, _, went, rfl, rfl⟩
  rw [(AreaInner.markAllocated_marks marking).slotOffset] at allocated
  rw [acquireBounce, if_neg (not_le.mpr short), if_neg bounceable.mask, allocated]
  rfl

end Pool

variable {device : Device} {layout : Layout} {segments : List (Nat × Nat)}

theorem new_direct (device : Device) (layout : Layout) (paddr vaddr size : Nat) :
    new device layout (.direct paddr size) (some vaddr) size =
      .ok (.ok ⟨.direct paddr size, vaddr, paddr, paddr, size⟩, device, layout.pool) := by
  simp [new, acquire, Backend.map, ok_bind, pure_ok]

variable {pool : BouncePool} {after : Device × BouncePool} {handle : DmaHandle} {entry : Entry}
  {done : List Entry} {count mapped paddr vaddr : Nat}

theorem new_bounce
    (made : new device layout (.softwareIotlb paddr size) (some vaddr) size =
      .ok (.ok handle, after)) : handle.size = size ∧ ∃ pool,
      acquireBounce device.constraints layout.pool paddr size = .ok (.ok handle.dmaAddr, pool) := by
  rw [new, bind_eq_ok] at made
  obtain ⟨⟨answer, device', pool'⟩, acquired, made⟩ := made
  rw [acquire, bind_eq_ok] at acquired
  obtain ⟨⟨bounced, pool⟩, found, acquired⟩ := acquired
  cases acquired
  cases bounced with
  | error error => cases made
  | ok bounce =>
    cases made
    exact ⟨rfl, _, found⟩

theorem new_coherent
    (made : new device layout (.coherent size) none size = .ok (.ok handle, after)) :
    handle.size = size ∧ ∃ vaddr device',
      allocateCoherent device layout size = .ok (.ok (vaddr, handle.dmaAddr), device') := by
  rw [new, bind_eq_ok] at made
  obtain ⟨⟨answer, device', pool'⟩, acquired, made⟩ := made
  rw [acquire, bind_eq_ok] at acquired
  obtain ⟨⟨block, kept⟩, found, acquired⟩ := acquired
  cases acquired
  cases block with
  | error error => cases made
  | ok block =>
    cases made
    exact ⟨rfl, block.1, _, found⟩

theorem segmentsOf_cons (entry : Entry) (rest : List Entry) : segmentsOf (entry :: rest) =
      if entry.isEmpty then segmentsOf rest
      else (entry.dmaAddr, entry.size) :: segmentsOf rest := by
  cases empty : entry.isEmpty <;> simp [segmentsOf, empty]

theorem Entry.physAddr_of_isEmpty (empty : entry.isEmpty = true) : entry.physAddr = none := by
  have kind : entry.entryType = .array none := by simpa [Entry.isEmpty] using empty
  simp [Entry.physAddr, kind]

/-- A round of `map_sg` that maps an entry. -/
structure SgRound (device : Device) (pool : BouncePool) (entry done : Entry)
    (after : BouncePool) : Prop where
  notEmpty : done.isEmpty = false
  size : done.size = entry.size
  place : ∃ paddr, entry.physAddr = some paddr ∧ paddr < 2 ^ 64 ∧
    ((device.constraints.needBounce paddr entry.size = false ∧ done.dmaAddr = paddr ∧
        after = pool) ∨
      (device.constraints.needBounce paddr entry.size = true ∧
        acquireBounce device.constraints pool paddr entry.size = .ok (.ok done.dmaAddr, after)))

theorem mapSgLoop_cons {rest : List Entry} {after : BouncePool}
    (run : device.mapSgLoop layout mapped pool (entry :: rest) = .ok (none, count, done, after)) :
    (entry.isEmpty = true ∧ ∃ tail, done = entry :: tail ∧
      device.mapSgLoop layout mapped pool rest = .ok (none, count, tail, after)) ∨
    (∃ head between tail, done = head :: tail ∧ SgRound device pool entry head between ∧
      device.mapSgLoop layout (mapped + 1) between rest = .ok (none, count, tail, after)) := by
  rw [mapSgLoop] at run
  split at run
  case isTrue empty =>
    rw [bind_eq_ok] at run
    obtain ⟨⟨stopped, count', tail, after'⟩, run, made⟩ := run
    simp only [pure_ok, Except.ok.injEq, Prod.mk.injEq] at made
    obtain ⟨rfl, rfl, rfl, rfl⟩ := made
    exact .inl ⟨empty, tail, rfl, run⟩
  case isFalse filled =>
    split at run
    · cases run
    · split at run
      case h_1 => cases run
      case h_2 paddr place =>
        split at run
        · cases run
        case isFalse small =>
          right
          rw [bind_eq_ok] at run
          obtain ⟨⟨answer, device', between⟩, acquired, run⟩ := run
          cases answer with
          | error error => cases run
          | ok acquiredAt =>
            simp only [Backend.map] at run
            rw [bind_eq_ok] at run
            obtain ⟨⟨stopped, count', tail, after'⟩, run, made⟩ := run
            simp only [pure_ok, Except.ok.injEq, Prod.mk.injEq] at made
            obtain ⟨rfl, rfl, rfl, rfl⟩ := made
            refine ⟨_, between, tail, rfl, ⟨rfl, rfl, paddr, place, not_le.mp small, ?_⟩, run⟩
            rw [sgSource] at acquired
            split at acquired
            case isTrue bounced =>
              right
              rw [acquire, bind_eq_ok] at acquired
              obtain ⟨⟨bounce, pool'⟩, found, acquired⟩ := acquired
              cases bounce with
              | error error => cases acquired
              | ok bounceAt =>
                simp only [Except.map, pure_ok, Except.ok.injEq,
                  Prod.mk.injEq] at acquired
                obtain ⟨rfl, rfl, rfl⟩ := acquired
                exact ⟨bounced, found⟩
            case isFalse straight =>
              left
              simp only [acquire, Except.ok.injEq, Prod.mk.injEq] at acquired
              obtain ⟨rfl, rfl, rfl⟩ := acquired
              exact ⟨by simpa using straight, rfl, rfl⟩

/-- If every entry fits, wherever in the pool its bounce buffer lies, so does every segment that a
run of the loop hands out, and the pool keeps its place. -/
theorem mapSgLoop_fits {base : Nat} {entries : List Entry} {after : BouncePool}
    (at_ : PoolAt base pool)
    (fit : ∀ entry ∈ entries, ∀ paddr, entry.physAddr = some paddr → paddr < 2 ^ 64 →
      BufferFits device.constraints base paddr entry.size)
    (run : device.mapSgLoop layout mapped pool entries = .ok (none, count, done, after)) :
    done.length = entries.length ∧ ∀ segment ∈ segmentsOf done,
      Fits device.constraints device.constraints.mask segment.1 segment.2 := by
  induction entries generalizing mapped pool done with
  | nil =>
    simp only [mapSgLoop, Except.ok.injEq, Prod.mk.injEq] at run
    obtain ⟨_, _, rfl, _⟩ := run
    simp [segmentsOf]
  | cons entry rest ih =>
    obtain ⟨here, others⟩ := forall_mem_cons.mp fit
    cases mapSgLoop_cons run with
    | inl skipped =>
      obtain ⟨empty, tail, rfl, onward⟩ := skipped
      have later := ih at_ others onward
      rw [segmentsOf_cons, if_pos empty]
      exact ⟨by simp [later.1], later.2⟩
    | inr taken =>
      obtain ⟨head, between, tail, rfl, round, onward⟩ := taken
      obtain ⟨paddr, place, small, kind⟩ := round.place
      have fits := here paddr place small
      rw [segmentsOf_cons, round.notEmpty, length_cons]
      simp only [Bool.false_eq_true, if_false, forall_mem_cons, round.size]
      cases kind with
      | inl straight =>
        obtain ⟨passed, at', rfl⟩ := straight
        have later := ih at_ others onward
        rw [BufferFits, if_neg (by simp [passed])] at fits
        exact ⟨by simp [later.1], by rw [at']; exact (fits_direct_iff passed).mpr fits, later.2⟩
      | inr bounced =>
        obtain ⟨needed, found⟩ := bounced
        obtain ⟨kept, bounceable, k, inPool, i, inside, lies⟩ := acquireBounce_place at_ found
        have later := ih kept others onward
        rw [BufferFits, if_pos needed] at fits
        exact ⟨by simp [later.1], by rw [lies]; exact fits bounceable k inPool i inside, later.2⟩

/-- An entry alone is handed to the device where it lies, or where the pool has a buffer for it. -/
theorem serve_entry {paddr place : Nat} (entry : Entry) (filled : entry.physAddr = some paddr)
    (small : paddr < 2 ^ 64)
    (lies : device.constraints.needBounce paddr entry.size = false ∧ place = paddr ∨
      device.constraints.needBounce paddr entry.size = true ∧ ∃ after,
        acquireBounce device.constraints layout.pool paddr entry.size = .ok (.ok place, after)) :
    device.serve layout (.scatter [entry] 1) = .ok (.ok [(place, entry.size)]) := by
  have notEmpty : entry.isEmpty = false := by
    cases empty : entry.isEmpty with
    | false => rfl
    | true =>
      rw [Entry.physAddr_of_isEmpty empty] at filled
      cases filled
  have acquired : ∃ vaddr after, (device.sgSource paddr entry.size).acquire device layout =
      .ok (.ok (vaddr, place), device, after) := by
    rcases lies with ⟨passed, rfl⟩ | ⟨needed, after, found⟩
    · exact ⟨none, layout.pool, by simp [sgSource, passed, acquire]⟩
    · exact ⟨_, after, by
        simp [sgSource, needed, acquire, found, ok_bind, pure_ok, Except.map]; rfl⟩
  obtain ⟨vaddr, after, acquired⟩ := acquired
  have limit : ¬(0 < device.constraints.maxSegments ∧ device.constraints.maxSegments ≤ 0) := by
    omega
  have loop : device.mapSgLoop layout 0 layout.pool [entry] =
      .ok (none, 1, [⟨.array (some (place / pageSize)), place % pageSize, entry.size, place⟩],
        after) := by
    rw [mapSgLoop, if_neg (by simp [notEmpty]), if_neg limit, filled]
    dsimp only
    rw [if_neg (not_le.mpr small), acquired]
    rfl
  rw [serve, mapSg, show take 1 [entry] = [entry] from rfl, loop]
  rfl

theorem le_of_orderFromSize {build : Build} {order : Nat}
    (made : PerCpu.orderFromSize build size = .ok order) : size ≤ 2 ^ order * pageSize := by
  rw [PerCpu.orderFromSize, bind_eq_ok] at made
  obtain ⟨_, _, made⟩ := made
  rw [bind_eq_ok] at made
  obtain ⟨_, _, made⟩ := made
  simp only [pure_ok, Except.ok.injEq] at made
  have enough := le_pow_clog (by decide : 1 < 2) (BitmapAlloc.divCeil size pageSize)
  rw [made] at enough
  simp only [BitmapAlloc.divCeil, pageSize] at enough ⊢
  omega

theorem allocateCoherent_ok {after : Device}
    (made : allocateCoherent device layout size = .ok (.ok (vaddr, paddr), after)) :
    ∃ order, size ≠ 0 ∧ PerCpu.orderFromSize ⟨true⟩ size = .ok order ∧
      layout.pages (device.coherentAllocator.getD
        (CoherentAllocator.new device.constraints device.coherency)) order =
          .ok (vaddr, some paddr) ∧
      device.constraints.crossesBoundary paddr (2 ^ order * pageSize) = false ∧
      device.constraints.isCoherentSatisfied paddr = true := by
  rw [allocateCoherent] at made
  split at made
  · cases made
  rename_i filled
  simp only at made
  split at made
  · cases made
  case h_2 order large =>
    split at made
    · cases made
    · cases made
    case h_3 vaddr' paddr' found =>
      split at made
      · cases made
      case isFalse stays =>
        split at made
        · cases made
        case isFalse within =>
          simp only [pure_ok, Except.ok.injEq, Prod.mk.injEq] at made
          obtain ⟨⟨rfl, rfl⟩, _⟩ := made
          exact ⟨order, filled, large, found, by simpa using stays, by simpa using within⟩

/-- A mapped buffer lies where it is, if it passes the tests, or in a bounce buffer. -/
theorem mapSingle_ok (made : device.mapSingle layout vaddr size = .ok (.ok handle, after)) :
    handle.size = size ∧
      ((directTranslate layout vaddr size = .ok (some handle.dmaAddr) ∧
          device.constraints.needBounce handle.dmaAddr size = false) ∨
        (∃ found, directTranslate layout vaddr size = .ok found ∧
          (∀ paddr, found = some paddr → device.constraints.needBounce paddr size = true) ∧
          ∃ paddr pool, layout.translate vaddr = some paddr ∧
            acquireBounce device.constraints layout.pool paddr size =
              .ok (.ok handle.dmaAddr, pool))) := by
  rw [mapSingle, bind_eq_ok] at made
  obtain ⟨found, translated, made⟩ := made
  cases found with
  | none =>
    dsimp only at made
    split at made
    · cases made
    case h_2 paddr place =>
      obtain ⟨same, pool, found⟩ := new_bounce made
      exact ⟨same, .inr ⟨none, translated, nofun, paddr, pool, place, found⟩⟩
  | some first =>
    cases needed : device.constraints.needBounce first size with
    | true =>
      simp only [needed, if_true] at made
      split at made
      · cases made
      case h_2 paddr place =>
        obtain ⟨same, pool, found⟩ := new_bounce made
        have bounces : ∀ other, some first = some other →
            device.constraints.needBounce other size = true := by
          rintro other ⟨⟩
          exact needed
        exact ⟨same, .inr ⟨_, translated, bounces, paddr, pool, place, found⟩⟩
    | false =>
      simp only [needed, Bool.false_eq_true, if_false] at made
      rw [new_direct] at made
      simp only [Except.ok.injEq, Prod.mk.injEq] at made
      obtain ⟨rfl, _⟩ := made
      exact ⟨rfl, .inl ⟨translated, needed⟩⟩

/-- A buffer that fails the tests is served by a bounce buffer where the pool has one. -/
theorem serve_bounced {place : Nat} {found : Option Nat} {after : BouncePool}
    (translated : directTranslate layout vaddr size = .ok found)
    (needed : ∀ paddr, found = some paddr → device.constraints.needBounce paddr size = true)
    (mapped : layout.translate vaddr = some paddr)
    (acquired : acquireBounce device.constraints layout.pool paddr size =
      .ok (.ok place, after)) :
    device.serve layout (.single vaddr size) = .ok (.ok [(place, size)]) := by
  have made : new device layout (.softwareIotlb paddr size) (some vaddr) size = .ok (.ok
      ⟨.softwareIotlb paddr size, layout.poolVaddr + (place - layout.pool.paddrBase), place, place,
        size⟩, device, after) := by
    simp [new, acquire, acquired, ok_bind, pure_ok, Except.map, Backend.map]
  rw [serve, mapSingle, translated]
  cases found with
  | none => simp [ok_bind, mapped, made, pure_ok, Except.map]
  | some first => simp [ok_bind, needed first rfl, mapped, made, pure_ok, Except.map]

/-- A coherent block is handed out when it passes the tests. -/
theorem serve_coherent {order : Nat} (filled : size ≠ 0)
    (large : PerCpu.orderFromSize ⟨true⟩ size = .ok order)
    (block : layout.pages (device.coherentAllocator.getD
      (CoherentAllocator.new device.constraints device.coherency)) order =
        .ok (vaddr, some paddr))
    (stays : device.constraints.crossesBoundary paddr (2 ^ order * pageSize) = false)
    (within : device.constraints.isCoherentSatisfied paddr = true) :
    device.serve layout (.coherent size) = .ok (.ok [(paddr, size)]) := by
  have allocated : ∃ after, allocateCoherent device layout size =
      .ok (.ok (vaddr, paddr), after) := by
    rw [allocateCoherent, if_neg filled]
    simp only [large, block, stays, within]
    exact ⟨_, rfl⟩
  obtain ⟨after, allocated⟩ := allocated
  simp [serve, allocCoherent, new, acquire, allocated, ok_bind, pure_ok, Except.map, Backend.map]

/-- In every state of the pool, every segment that a request hands to the device meets the
constraints. -/
def Device.AlwaysFits (device : Device) (layout : Layout) (request : Request) : Prop :=
  ∀ pool, PoolAt layout.pool.paddrBase pool → ∀ segments,
    device.serve { layout with pool } request = .ok (.ok segments) → ∀ segment ∈ segments,
      Fits device.constraints (request.mask device.constraints) segment.1 segment.2

theorem init_at (base : Nat) : PoolAt base (BouncePool.init base totalAreas slotsPerArea) :=
  ⟨rfl, by simp [BouncePool.init]⟩

/-- Single buffers. -/
theorem alwaysFits_single_iff (device : Device) (layout : Layout) (vaddr size : Nat) :
    device.AlwaysFits layout (.single vaddr size) ↔ device.Suits layout (.single vaddr size) := by
  constructor
  · intro fit
    have bounced {found : Option Nat} (translated : directTranslate layout vaddr size = .ok found)
        (needed : ∀ paddr, found = some paddr → device.constraints.needBounce paddr size = true)
        (mapped : (layout.translate vaddr).isSome) :
        PoolFits device.constraints layout.pool.paddrBase size := by
      intro bounceable k inPool i inside
      obtain ⟨paddr, mapped⟩ := Option.isSome_iff_exists.mp mapped
      obtain ⟨pool, after, at_, acquired⟩ :=
        acquireBounce_onlyPlace bounceable inPool inside layout.pool.paddrBase paddr
      exact fit pool at_ _ (@serve_bounced size device { layout with pool } paddr vaddr _ found
        after translated needed mapped acquired) _ (mem_singleton.mpr rfl)
    rw [Suits]
    split
    case h_1 => trivial
    case h_2 translated => exact bounced translated nofun
    case h_3 paddr translated =>
      intro mapped
      unfold BufferFits
      split
      case isTrue needed =>
        refine bounced translated (fun first same => ?_) (mapped needed)
        cases same
        exact needed
      case isFalse passed =>
        have passed : device.constraints.needBounce paddr size = false := by simpa using passed
        have served : device.serve { layout with
            pool := BouncePool.init layout.pool.paddrBase totalAreas slotsPerArea }
            (.single vaddr size) = .ok (.ok [(paddr, size)]) := by
          have translated : directTranslate { layout with
              pool := BouncePool.init layout.pool.paddrBase totalAreas slotsPerArea } vaddr size =
              .ok (some paddr) := translated
          simp [serve, mapSingle, translated, ok_bind, passed, new_direct, pure_ok, Except.map]
        exact (fits_direct_iff passed).mp (fit _ (init_at _) _ served _ (mem_singleton.mpr rfl))
  · intro suits pool at_ segments served
    rw [serve, bind_eq_ok] at served
    obtain ⟨⟨answer, after⟩, made, served⟩ := served
    cases answer with
    | error error => cases served
    | ok handle =>
      simp only [Except.map, pure, Except.pure, Except.ok.injEq] at served
      obtain ⟨same, place⟩ := mapSingle_ok made
      rw [← served, forall_mem_singleton, same]
      rw [Suits] at suits
      rcases place with ⟨translated, passed⟩ | ⟨first, translated, needed, paddr, _, mapped, found⟩
      · have translated : directTranslate layout vaddr size = .ok (some handle.dmaAddr) :=
          translated
        rw [translated] at suits
        have fits := suits fun needed => absurd (passed.symm.trans needed) (by decide)
        rw [BufferFits, if_neg (by simp [passed])] at fits
        exact (fits_direct_iff passed).mpr fits
      · obtain ⟨-, bounceable, k, inPool, i, inside, lies⟩ := acquireBounce_place at_ found
        have mapped : (layout.translate vaddr).isSome := Option.isSome_iff_exists.mpr ⟨_, mapped⟩
        have translated : directTranslate layout vaddr size = .ok first := translated
        have poolFits : PoolFits device.constraints layout.pool.paddrBase size := by
          rw [translated] at suits
          cases first with
          | none => exact suits mapped
          | some first =>
            have fits := suits fun _ => mapped
            rwa [BufferFits, if_pos (needed first rfl)] at fits
        rw [lies]
        exact poolFits bounceable k inPool i inside

/-- Lists of buffers. -/
theorem alwaysFits_scatter_iff (device : Device) (layout : Layout) (entries : List Entry)
    (nEntries : Nat) :
    (device.AlwaysFits layout (.scatter entries nEntries) ∧ ∀ entry ∈ entries.take nEntries,
        device.AlwaysFits layout (.scatter [entry] 1)) ↔
      device.Suits layout (.scatter entries nEntries) := by
  constructor
  · rintro ⟨-, alone⟩ entry member paddr filled small
    have fit := alone entry member
    unfold BufferFits
    split
    case isTrue needed =>
      intro bounceable k inPool i inside
      obtain ⟨pool, after, at_, acquired⟩ :=
        acquireBounce_onlyPlace bounceable inPool inside layout.pool.paddrBase paddr
      exact fit pool at_ _ (@serve_entry device { layout with pool } paddr _ entry filled small
        (.inr ⟨needed, after, acquired⟩)) _ (mem_singleton.mpr rfl)
    case isFalse passed =>
      have passed : device.constraints.needBounce paddr entry.size = false := by simpa using passed
      exact (fits_direct_iff passed).mp (fit _ (init_at _) _
        (serve_entry entry filled small (.inl ⟨passed, rfl⟩)) _ (mem_singleton.mpr rfl))
  · intro suits
    have all (entries : List Entry) (nEntries : Nat)
        (suits : device.Suits layout (.scatter entries nEntries)) :
        device.AlwaysFits layout (.scatter entries nEntries) := by
      intro pool at_ segments served
      rw [serve, bind_eq_ok] at served
      obtain ⟨⟨answer, entries', after⟩, made, served⟩ := served
      rw [mapSg, bind_eq_ok] at made
      obtain ⟨⟨stopped, count, done, pool⟩, run, made⟩ := made
      cases stopped with
      | some error =>
        rw [bind_eq_ok] at made
        obtain ⟨⟨undone, _⟩, _, made⟩ := made
        cases undone with
        | error | ok =>
          cases made
          cases served
      | none =>
        cases made
        simp only [Except.map, pure, Except.pure, Except.ok.injEq] at served
        obtain ⟨length, fits⟩ := mapSgLoop_fits at_ suits run
        have front : (done ++ entries.drop nEntries).take nEntries = done := by
          by_cases enough : nEntries ≤ entries.length
          · rw [take_append_of_le_length (by simp [length, enough])]
            exact take_of_length_le (by simp [length])
          · rw [drop_of_length_le (by omega), append_nil]
            exact take_of_length_le (by simp [length])
        rw [← served, front]
        exact fits
    refine ⟨all entries nEntries suits, fun entry member => all [entry] 1 fun other single => ?_⟩
    rw [mem_singleton.mp single]
    exact suits entry member

/-- Coherent blocks. -/
theorem alwaysFits_coherent_iff (device : Device) (layout : Layout) (size : Nat) :
    device.AlwaysFits layout (.coherent size) ↔ device.Suits layout (.coherent size) := by
  constructor
  · intro fit order vaddr paddr filled large block stays within
    have fits := fit _ (init_at _) _ (@serve_coherent size device { layout with
      pool := BouncePool.init layout.pool.paddrBase totalAreas slotsPerArea } paddr vaddr order
      filled large block stays within) _ (mem_singleton.mpr rfl)
    exact (fits_coherent_iff (le_of_orderFromSize large) stays).mp fits
  · intro suits pool at_ segments served
    rw [serve, bind_eq_ok] at served
    obtain ⟨⟨answer, after⟩, made, served⟩ := served
    cases answer with
    | error error => cases served
    | ok handle =>
      simp only [Except.map, pure, Except.pure, Except.ok.injEq] at served
      obtain ⟨same, vaddr, device', block⟩ := new_coherent made
      obtain ⟨order, filled, large, found, stays, within⟩ := allocateCoherent_ok block
      rw [← served, forall_mem_singleton, same]
      exact (fits_coherent_iff (le_of_orderFromSize large) stays).mpr
        (suits order vaddr handle.dmaAddr filled large found stays within)

/-- In every state of the pool, every segment that a request or an entry of it alone hands to the
device meets the constraints, exactly when the request suits: a buffer that passes the tests ends
inside the mask, every place of the pool is good for the size of any other, and a coherent block
that passes its tests ends inside its mask and is not too long. -/
theorem segments_fit_iff (device : Device) (layout : Layout) (request : Request) :
    (∀ part, part.Part request → device.AlwaysFits layout part) ↔
      device.Suits layout request := by
  cases request with
  | single vaddr size =>
    rw [← alwaysFits_single_iff]
    exact ⟨fun all => all _ rfl, fun fit part same => same ▸ fit⟩
  | coherent size =>
    rw [← alwaysFits_coherent_iff]
    exact ⟨fun all => all _ rfl, fun fit part same => same ▸ fit⟩
  | scatter entries nEntries =>
    rw [← alwaysFits_scatter_iff]
    constructor
    · intro all
      exact ⟨all _ (.inl rfl), fun entry member => all _ (.inr ⟨entry, member, rfl⟩)⟩
    · rintro ⟨whole, alone⟩ part (rfl | ⟨entry, member, rfl⟩)
      · exact whole
      · exact alone entry member

/-- A device with 24 address bits, a boundary of 4 GiB and segments of up to 4 KiB. -/
def narrowDevice : Device where
  constraints := ⟨2 ^ 24 - 1, 2 ^ 32 - 1, 2 ^ 32 - 1, 4096, 0⟩
  backend := .identity
  coherency := true
  coherentAllocator := none

/-- Memory with the bounce pool of the kernel, made by `init` at 32 MiB, no further page tables and
pages at 16 MiB. -/
def plainLayout : Layout where
  pool := BouncePool.init 0x2000000 totalAreas slotsPerArea
  poolVaddr := Paging.klinearBase + 0x2000000
  translate := fun _ => none
  pages := fun _ _ => .ok (Paging.klinearBase + 0x1000000, some 0x1000000)

/-- Two bytes that start on the last byte of the mask are mapped where they lie, a buffer longer
than a segment may be is mapped to a bounce buffer of the same length outside the mask, and a
coherent block may be too long. -/
theorem segments_outside_constraints :
    (narrowDevice.serve plainLayout (.single (Paging.klinearBase + 0xFFFFFF) 2) =
        .ok (.ok [(0xFFFFFF, 2)]) ∧
      ¬ Fits narrowDevice.constraints (2 ^ 24 - 1) 0xFFFFFF 2) ∧
    (narrowDevice.serve plainLayout (.scatter [⟨.array (some 5), 0, 8192, 0⟩] 1) =
        .ok (.ok [(0x2000000, 8192)]) ∧
      ¬ Fits narrowDevice.constraints (2 ^ 24 - 1) 0x2000000 8192) ∧
    (narrowDevice.serve plainLayout (.coherent 8192) = .ok (.ok [(0x1000000, 8192)]) ∧
      ¬ Fits narrowDevice.constraints (2 ^ 32 - 1) 0x1000000 8192) :=
  ⟨⟨by rfl, by decide +kernel⟩, ⟨by rfl, by decide +kernel⟩, ⟨by rfl, by decide +kernel⟩⟩

end Horizon.Dma
