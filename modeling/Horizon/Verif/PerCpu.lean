import Horizon.Kernel.PerCpu
import Horizon.Verif.BitmapRuns

/-!
# Per-CPU objects

The units of an area lie side by side in its block, each starts with the template, and what follows
is handed out by the bitmap.
-/

namespace Horizon.PerCpu

open Memory BitmapAlloc List Nat PercpuArea Runs Session

/-- A per-CPU variable by its handle. -/
structure DynObject where
  handle : Nat
  layout : Layout

/-- The area with the variables that are not dropped yet. -/
structure CpuSession where
  area : PercpuArea
  live : List DynObject

/-- The calls of a session. -/
inductive CpuCall
  | create (layout : Layout)
  | drop (handle : Nat)

namespace CpuSession

def apply (s : CpuSession) : CpuCall → Except PerCpuPanic CpuSession
  | .create layout => do
    match ← s.area.tryNewWith layout with
    | (.ok handle, area) => return ⟨area, ⟨handle, layout⟩ :: s.live⟩
    | (.error _, area) => return ⟨area, s.live⟩
  | .drop handle =>
    if s.live.any fun o => o.handle == handle then do
      let area ← s.area.drop handle
      return ⟨area, s.live.filter fun o => o.handle ≠ handle⟩
    else return s

/-- Two ranges of addresses do not meet. -/
def Apart (start size start' size' : Nat) : Prop :=
  start + size ≤ start' ∨ start' + size' ≤ start

/-- What a session must satisfy. -/
structure Right (s : CpuSession) : Prop where
  distinct : (s.live.map DynObject.handle).Nodup
  disjoint : ∀ o ∈ s.live, ∀ o' ∈ s.live, ∀ cpu < s.area.count, ∀ cpu' < s.area.count,
    o.handle ≠ o'.handle ∨ cpu ≠ cpu' →
      Apart (s.area.instanceAddress o.handle cpu) o.layout.size
        (s.area.instanceAddress o'.handle cpu') o'.layout.size
  aligned : ∀ o ∈ s.live, ∀ cpu < s.area.count,
    o.layout.align ∣ s.area.instanceAddress o.handle cpu
  inside : ∀ o ∈ s.live, ∀ cpu < s.area.count,
    s.area.index cpu ≤ s.area.instanceAddress o.handle cpu ∧
      s.area.instanceAddress o.handle cpu + o.layout.size ≤ s.area.index cpu + s.area.unitSize
  template : ∀ o ∈ s.live, ∀ cpu < s.area.count, ∀ cpu' < s.area.count,
    Apart (s.area.instanceAddress o.handle cpu) o.layout.size (s.area.index cpu')
      s.area.templateSize

end CpuSession

/-- The units are aligned, follow one another and fit the address space. -/
structure PercpuArea.LaidOut (area : PercpuArea) : Prop where
  start_lt : area.percpuStart < addressSpace
  unit_dvd : cachelineSize ∣ area.unitSize
  dynamic_dvd : cachelineSize ∣ area.dynamicStart
  base_dvd : cachelineSize ∣ area.base
  template_le : area.templateSize ≤ area.dynamicStart
  dynamic_le : area.dynamicStart ≤ area.unitSize
  units_le : area.base + area.count * area.unitSize ≤ addressSpace
  capacity : area.bitmap.size = area.unitSize - area.dynamicStart
  allocUnit_eq : area.bitmap.unitSize = allocUnit

variable {build : Build} {count frame order : Nat}

theorem le_of_orderFromSize {size : Nat} (call : orderFromSize build size = .ok order) :
    size ≤ pageSize * 2 ^ order := by
  have chosen : order = clog 2 (divCeil size pageSize) := by
    simp only [orderFromSize, debugAssert, bind, Except.bind, pure_ok] at call
    split at call
    · cases call
    · split at call
      · cases call
      · exact (Except.ok.inj call).symm
  have pages : divCeil size pageSize ≤ 2 ^ order := by
    rw [chosen]
    exact le_pow_clog (by decide) _
  calc size ≤ divCeil size pageSize * pageSize := le_divCeil_mul (by decide)
    _ ≤ 2 ^ order * pageSize := Nat.mul_le_mul_right _ pages
    _ = pageSize * 2 ^ order := mul_comm _ _

theorem cacheline_dvd_target (size : Nat) :
    cachelineSize ∣ Slub.nextPowerOfTwo (size + dynamicTargetSize) ∧
      size + dynamicTargetSize ≤ Slub.nextPowerOfTwo (size + dynamicTargetSize) := by
  have covered : size + dynamicTargetSize ≤ 2 ^ clog 2 (size + dynamicTargetSize) :=
    le_pow_clog (by decide) _
  have large : 2 ^ 6 < 2 ^ clog 2 (size + dynamicTargetSize) :=
    lt_of_lt_of_le (by unfold dynamicTargetSize; omega) covered
  have exponent := (Nat.pow_lt_pow_iff_right (by decide)).mp large
  exact ⟨pow_dvd_pow 2 exponent.le, covered⟩

variable {block : Option Nat}

theorem allocateBacking_size {nrCpus dynamicStart : Nat}
    (call : allocateBacking build nrCpus dynamicStart block = .ok (.ok (frame, order))) :
    Slub.nextPowerOfTwo (dynamicStart + dynamicTargetSize) * nrCpus ≤ pageSize * 2 ^ order ∧
      order ≤ maxOrder := by
  unfold allocateBacking at call
  cases chosen : orderFromSize build
      (Slub.nextPowerOfTwo (dynamicStart + dynamicTargetSize) * nrCpus) with
  | error panic => simp [chosen] at call
  | ok size =>
    cases block with
    | none => simp [chosen] at call
    | some start =>
      simp only [chosen] at call
      split at call
      · rename_i small
        cases call
        exact ⟨le_of_orderFromSize chosen, small⟩
      · cases call

theorem le_unitSize {bytes target : Nat} (positive : 0 < count) (line : cachelineSize ∣ target)
    (enough : target * count ≤ bytes) : target ≤ bytes / count / cachelineSize * cachelineSize := by
  have share := (Nat.le_div_iff_mul_le positive).mpr enough
  calc target = target / cachelineSize * cachelineSize := (Nat.div_mul_cancel line).symm
    _ ≤ bytes / count / cachelineSize * cachelineSize :=
      Nat.mul_le_mul_right _ (Nat.div_le_div_right share)

theorem count_mul_unitSize_le (bytes count : Nat) :
    count * (bytes / count / cachelineSize * cachelineSize) ≤ bytes :=
  calc count * (bytes / count / cachelineSize * cachelineSize) ≤ count * (bytes / count) :=
        Nat.mul_le_mul_left _ (div_mul_le_self _ _)
    _ ≤ bytes := mul_div_le _ _

variable {area : PercpuArea}

theorem tryNew_laidOut {percpuStart templateSize : Nat} {heap : Bool}
    (word : percpuStart < addressSpace) (positive : 0 < count) (small : order ≤ maxOrder)
    (enough : Slub.nextPowerOfTwo (dynamicStartOf templateSize + dynamicTargetSize) * count ≤
      pageSize * 2 ^ order)
    (call : tryNew percpuStart templateSize frame order count heap = .ok (.ok area)) :
    area.LaidOut ∧ Session.Sound ⟨area.bitmap, []⟩ := by
  obtain ⟨line, target⟩ := cacheline_dvd_target (dynamicStartOf templateSize)
  have unit := (target.trans (le_unitSize positive line enough))
  have block : pageSize * 2 ^ order ≤ 2 ^ 22 := by
    calc pageSize * 2 ^ order ≤ pageSize * 2 ^ maxOrder :=
          Nat.mul_le_mul_left _ (Nat.pow_le_pow_right (by decide) small)
      _ = 2 ^ 22 := by decide
  have total := count_mul_unitSize_le (pageSize * 2 ^ order) count
  have one : pageSize * 2 ^ order / count / cachelineSize * cachelineSize ≤ pageSize * 2 ^ order :=
    (div_mul_le_self _ _).trans (Nat.div_le_self _ _)
  simp only [tryNew, if_neg positive.ne', bind, Except.bind, pure_ok] at call
  generalize unitSize : pageSize * 2 ^ order / count / cachelineSize * cachelineSize = size at *
  by_cases linear : Paging.klinearSize ≤ frame * pageSize
  · simp [linear, throw, throwThe, MonadExceptOf.throw] at call
  have fits : ¬ size < dynamicStartOf templateSize := by omega
  have wraps : (size - dynamicStartOf templateSize) % 2 ^ 32 =
      size - dynamicStartOf templateSize := mod_eq_of_lt (by omega)
  simp only [if_neg linear, chunkBitmap, if_neg fits, wraps] at call
  cases created : Bitmap.tryNew allocUnit (size - dynamicStartOf templateSize) heap with
  | error error => simp [created] at call
  | ok bitmap =>
    simp only [created] at call
    cases call
    have units : (size - dynamicStartOf templateSize) / allocUnit ≤ maxUnits := by
      unfold allocUnit maxUnits
      omega
    obtain ⟨sound, unitEq, sizeEq⟩ := tryNew_sound created units
    refine ⟨?_, sound⟩
    exact {
      start_lt := word
      unit_dvd := unitSize ▸ dvd_mul_left _ _
      dynamic_dvd := dvd_mul_left _ _
      base_dvd := by
        apply dvd_add (by decide)
        exact Dvd.dvd.mul_left (by decide) _
      template_le := le_divCeil_mul (by decide)
      dynamic_le := not_lt.mp fits
      units_le := by
        show Paging.klinearBase + frame * pageSize + count * size ≤ addressSpace
        unfold Paging.klinearBase addressSpace
        unfold Paging.klinearSize at linear
        omega
      capacity := sizeEq
      allocUnit_eq := unitEq }

variable {percpuStart templateSize nrCpus : Nat}

theorem tryPercpuInit_laidOut {heap : Bool} (word : percpuStart < addressSpace)
    (call : tryPercpuInit build percpuStart templateSize nrCpus block heap = .ok (.ok area)) :
    area.LaidOut ∧ Session.Sound ⟨area.bitmap, []⟩ := by
  unfold tryPercpuInit at call
  by_cases cpus : nrCpus = 0 ∨ nrCpusMax < nrCpus
  · simp [cpus, pure_ok] at call
  cases backing : allocateBacking build nrCpus (dynamicStartOf templateSize) block with
  | error panic => simp [cpus, backing, bind, Except.bind] at call
  | ok result =>
    cases result with
    | error error => simp [cpus, backing, bind, Except.bind, pure_ok] at call
    | ok found =>
      simp only [if_neg cpus, backing, bind, Except.bind] at call
      have size := allocateBacking_size backing
      exact tryNew_laidOut word (by omega) size.2 size.1 call

namespace CpuSession

variable {s : CpuSession}

def allocation (area : PercpuArea) (o : DynObject) : Allocation :=
  ⟨o.handle - area.percpuStart - area.dynamicStart, o.layout⟩

/-- The invariant: the bitmap is sound for the variables, and their handles are in the dynamic
part. -/
structure Sound (s : CpuSession) : Prop where
  laidOut : s.area.LaidOut
  bitmap : Session.Sound ⟨s.area.bitmap, s.live.map (allocation s.area)⟩
  handle : ∀ o ∈ s.live, s.area.percpuStart + s.area.dynamicStart ≤ o.handle
  align : ∀ o ∈ s.live, o.layout.align ≤ cachelineSize

variable {o : DynObject}

theorem Sound.handle_eq (sound : Sound s) (live : o ∈ s.live) :
    o.handle = s.area.percpuStart + s.area.dynamicStart + (allocation s.area o).offset := by
  have low := sound.handle o live
  simp only [allocation]
  omega

theorem Sound.mem_allocation (live : o ∈ s.live) :
    allocation s.area o ∈ s.live.map (allocation s.area) := mem_map_of_mem live

theorem Sound.offset_le (sound : Sound s) (live : o ∈ s.live) :
    s.area.dynamicStart + (allocation s.area o).offset + o.layout.size ≤ s.area.unitSize := by
  have right := sound.bitmap.right
  have large := right.large _ (mem_allocation live)
  have inside := right.inside _ (mem_allocation live)
  have capacity := sound.laidOut.capacity
  have order := sound.laidOut.dynamic_le
  have size : (allocation s.area o).layout.size = o.layout.size := rfl
  simp only at inside large
  omega

theorem Sound.index_le (sound : Sound s) {cpu : Nat} (valid : cpu < s.area.count) :
    s.area.index cpu + s.area.unitSize ≤ addressSpace := by
  have units := sound.laidOut.units_le
  have next : (cpu + 1) * s.area.unitSize ≤ s.area.count * s.area.unitSize :=
    Nat.mul_le_mul_right _ valid
  rw [succ_mul] at next
  unfold index
  omega

theorem Sound.instanceAddress_eq (sound : Sound s) (live : o ∈ s.live) {cpu : Nat}
    (valid : cpu < s.area.count) (some : 0 < o.layout.size) : s.area.instanceAddress o.handle cpu =
      s.area.index cpu + s.area.dynamicStart + (allocation s.area o).offset := by
  have index := sound.index_le valid
  have offset := sound.offset_le live
  have start := sound.laidOut.start_lt
  rw [instanceAddress, delta, sound.handle_eq live]
  unfold addressSpace at *
  omega

theorem Sound.size_pos (sound : Sound s) (live : o ∈ s.live) : 0 < o.layout.size := by
  have units := sound.bitmap.nonempty _ (mem_allocation live)
  have unit := sound.bitmap.unit_pos
  by_contra empty
  have zero : o.layout.size = 0 := by omega
  have none : divCeil 0 s.area.bitmap.unitSize = 0 := div_eq_of_lt (by simp only at unit; omega)
  simp only [Allocation.units, allocation, zero, none] at units
  exact absurd units (by decide)

theorem index_add_le (area : PercpuArea) {cpu cpu' : Nat} (less : cpu < cpu') :
    area.index cpu + area.unitSize ≤ area.index cpu' := by
  have next : (cpu + 1) * area.unitSize ≤ cpu' * area.unitSize := Nat.mul_le_mul_right _ less
  rw [succ_mul] at next
  unfold index
  omega

/-- The invariant gives what a session must satisfy. -/
theorem Sound.right (sound : Sound s) : Right s where
  distinct := by
    have disjoint := sound.bitmap.disjoint
    rw [pairwise_map] at disjoint
    rw [Nodup, pairwise_map]
    refine disjoint.imp_of_mem ?_
    intro o o' live live' apart same
    have covered := sound.bitmap.covers_first (mem_allocation live)
    have covered' := sound.bitmap.covers_first (mem_allocation live')
    simp only [allocation, same] at apart covered covered'
    exact apart _ ⟨covered, covered'⟩
  disjoint := by
    intro o live o' live' cpu valid cpu' valid' different
    rw [sound.instanceAddress_eq live valid (sound.size_pos live),
      sound.instanceAddress_eq live' valid' (sound.size_pos live')]
    have first := sound.offset_le live
    have second := sound.offset_le live'
    unfold Apart
    -- Different CPUs have different units; in one unit the bitmap keeps the objects apart.
    rcases lt_trichotomy cpu cpu' with less | same | more
    · have next := index_add_le s.area less
      omega
    · subst same
      have handles : o.handle ≠ o'.handle := by
        rcases different with handles | cpus
        · exact handles
        · exact absurd rfl cpus
      have offsets : allocation s.area o ≠ allocation s.area o' := by
        intro equal
        rw [sound.handle_eq live, sound.handle_eq live', equal] at handles
        exact handles rfl
      have apart := sound.bitmap.bytes_apart (mem_allocation live)
        (mem_allocation live') fun position both =>
          offsets (sound.bitmap.eq_of_covers (mem_allocation live)
            (mem_allocation live') both.1 both.2)
      have right := sound.bitmap.right
      have large := right.large _ (mem_allocation live)
      have large' := right.large _ (mem_allocation live')
      have size : (allocation s.area o).layout.size = o.layout.size := rfl
      have size' : (allocation s.area o').layout.size = o'.layout.size := rfl
      omega
    · have next := index_add_le s.area more
      omega
  aligned := by
    intro o live cpu valid
    rw [sound.instanceAddress_eq live valid (sound.size_pos live)]
    have line : o.layout.align ∣ cachelineSize := by
      obtain ⟨k, power⟩ := o.layout.powerOfTwo
      have small := sound.align o live
      rw [power] at small ⊢
      have exponent : k ≤ 6 := (Nat.pow_le_pow_iff_right (by decide : 1 < 2)).mp small
      exact pow_dvd_pow 2 exponent
    have offset := sound.bitmap.aligned _ (mem_allocation live)
    have unit := Dvd.dvd.mul_left sound.laidOut.unit_dvd cpu
    have start := dvd_add (dvd_add sound.laidOut.base_dvd unit) sound.laidOut.dynamic_dvd
    exact dvd_add (line.trans start) offset
  inside := by
    intro o live cpu valid
    rw [sound.instanceAddress_eq live valid (sound.size_pos live)]
    have offset := sound.offset_le live
    omega
  template := by
    intro o live cpu valid cpu' valid'
    rw [sound.instanceAddress_eq live valid (sound.size_pos live)]
    have offset := sound.offset_le live
    have template := sound.laidOut.template_le
    unfold Apart
    rcases lt_trichotomy cpu cpu' with less | same | more
    · have next := index_add_le s.area less
      omega
    · subst same
      omega
    · have next := index_add_le s.area more
      omega

theorem tryNewWith_cases {after : PercpuArea} {layout : Layout}
    {result : Except BitmapAlloc.MemoryError Nat}
    (call : area.tryNewWith layout = .ok (result, after)) :
    ∃ outcome bitmap, area.bitmap.allocate layout = .ok (outcome, bitmap) ∧
      result = outcome.map (fun position => area.percpuStart + (area.dynamicStart + position)) ∧
      after = { area with bitmap := bitmap } := by
  unfold tryNewWith allocate at call
  cases inner : area.bitmap.allocate layout with
  | error panic => simp [inner, bind, Except.bind] at call
  | ok found =>
    obtain ⟨outcome, bitmap⟩ := found
    cases outcome with
    | error failure =>
      simp only [inner, bind, Except.bind, pure_ok] at call
      cases call
      exact ⟨.error failure, bitmap, rfl, rfl, rfl⟩
    | ok position =>
      by_cases large : addressSpace ≤ area.percpuStart + (area.dynamicStart + position)
      · simp [inner, newHandle, large, bind, Except.bind] at call
      · by_cases valid : ({ area with bitmap := bitmap } : PercpuArea).unitsValid = true
        · simp only [inner, newHandle, if_neg large, if_pos valid, bind, Except.bind,
            pure_ok] at call
          cases call
          exact ⟨.ok position, bitmap, rfl, rfl, rfl⟩
        · simp only [inner, newHandle, if_neg large, if_neg valid, bind, Except.bind,
            pure_ok] at call
          cases call

section

variable (sound : Sound s)
include sound

theorem Sound.withBitmap {bitmap : Bitmap} (unitSize : bitmap.unitSize = s.area.bitmap.unitSize)
    (size : bitmap.size = s.area.bitmap.size) :
    ({ s.area with bitmap := bitmap } : PercpuArea).LaidOut :=
  { sound.laidOut with
    capacity := size.trans sound.laidOut.capacity
    allocUnit_eq := unitSize.trans sound.laidOut.allocUnit_eq }

theorem Sound.create {layout : Layout} {after : CpuSession}
    (call : s.apply (.create layout) = .ok after) : Sound after := by
  simp only [CpuSession.apply, bind, Except.bind, pure_ok] at call
  cases inner : s.area.tryNewWith layout with
  | error panic => simp [inner] at call
  | ok found =>
    obtain ⟨result, area⟩ := found
    obtain ⟨outcome, bitmap, allocate, rfl, rfl⟩ := tryNewWith_cases inner
    simp only [inner] at call
    rcases sound.bitmap.allocate_cases layout with ⟨place, map, success, later⟩ | ⟨failure, same⟩
    · simp only at success
      rw [allocate] at success
      cases success
      cases call
      have offset : ∀ n, s.area.percpuStart + (s.area.dynamicStart + n) - s.area.percpuStart -
          s.area.dynamicStart = n := fun n => by omega
      refine ⟨sound.withBitmap rfl rfl, ?_, ?_, ?_⟩
      · have member : allocation s.area ⟨s.area.percpuStart + (s.area.dynamicStart +
            place * s.area.bitmap.unitSize), layout⟩ =
            ⟨place * s.area.bitmap.unitSize, layout⟩ := by
          simp only [allocation, offset]
        rw [map_cons]
        exact member ▸ later
      · exact List.forall_mem_cons.mpr ⟨by simp only; omega, sound.handle⟩
      · exact List.forall_mem_cons.mpr ⟨allocate_align allocate, sound.align⟩
    · simp only at same
      rw [allocate] at same
      cases same
      cases call
      exact sound

theorem Sound.map_others (live : o ∈ s.live) :
    (s.live.filter fun other => other.handle ≠ o.handle).map (allocation s.area) =
      others ⟨s.area.bitmap, s.live.map (allocation s.area)⟩
        (allocation s.area o).offset := by
  rw [others, filter_map]
  congr 1
  apply filter_congr
  intro other member
  have first := sound.handle_eq live
  have second := sound.handle_eq member
  simp only [Function.comp_apply, decide_not, Bool.not_eq_eq_eq_not, Bool.not_not, decide_eq_decide]
  omega

theorem Sound.drop (live : o ∈ s.live) (call : s.area.drop o.handle = .ok area) :
    Sound ⟨area, s.live.filter fun other => other.handle ≠ o.handle⟩ := by
  obtain ⟨bitmap, dealloc, later, unitSize, size, _⟩ :=
    sound.bitmap.deallocate_live (mem_allocation live)
  have low := sound.handle o live
  have position : ¬ o.handle - s.area.percpuStart < s.area.dynamicStart := by omega
  have changed : area = { s.area with bitmap := bitmap } := by
    have inner : s.area.bitmap.deallocate (o.handle - s.area.percpuStart - s.area.dynamicStart) =
      .ok (.ok (), bitmap) := dealloc
    simp only [PercpuArea.drop, deallocate, if_neg position, inner, ok_bind, pure_ok]
      at call
    split at call
    · exact (Except.ok.inj call).symm
    · cases call
  subst changed
  have kept : ∀ other ∈ s.live.filter fun other => other.handle ≠ o.handle, other ∈ s.live :=
    fun other member => (List.mem_filter.mp member).1
  refine ⟨sound.withBitmap unitSize size, ?_, fun other member => sound.handle other
    (kept other member), fun other member => sound.align other (kept other member)⟩
  have same := sound.map_others live
  exact same ▸ later

theorem Sound.apply {call : CpuCall} {after : CpuSession} (step : s.apply call = .ok after) :
    Sound after := by
  cases call with
  | create layout => exact sound.create step
  | drop handle =>
    simp only [CpuSession.apply, bind, Except.bind, pure_ok] at step
    split at step
    · rename_i known
      obtain ⟨o, live, same⟩ := List.any_eq_true.mp known
      rw [beq_iff_eq] at same
      subst same
      cases inner : s.area.drop o.handle with
      | error panic => simp [inner] at step
      | ok area =>
        simp only [inner] at step
        cases step
        exact sound.drop live inner
    · cases step
      exact sound

/-- The run lemma: every call keeps the invariant. -/
theorem Sound.run {calls : List CpuCall} {final : CpuSession}
    (run : calls.foldlM CpuSession.apply s = .ok final) : Sound final := by
  induction calls generalizing s with
  | nil =>
    cases run
    exact sound
  | cons call rest ih =>
    rw [foldlM_cons, bind_eq_ok] at run
    obtain ⟨after, step, run⟩ := run
    exact ih (sound.apply step) run

theorem Sound.progress (valid : s.area.unitsValid = true)
    (room : s.area.percpuStart + s.area.unitSize ≤ addressSpace) (call : CpuCall) :
    ∃ bitmap live, s.apply call = .ok ⟨{ s.area with bitmap := bitmap }, live⟩ := by
  have kept : ∀ bitmap, ({ s.area with bitmap := bitmap } : PercpuArea).unitsValid = true :=
    fun _ => valid
  cases call with
  | create layout =>
    rcases sound.bitmap.allocate_cases layout with ⟨place, map, success, later⟩ | ⟨failure, same⟩
    · have inside := later.offset_lt mem_cons_self
      have capacity := sound.laidOut.capacity
      simp only at inside success
      have word : ¬ addressSpace ≤ s.area.percpuStart +
          (s.area.dynamicStart + place * s.area.bitmap.unitSize) := by omega
      obtain ⟨bitmap, success⟩ : ∃ bitmap, s.area.bitmap.allocate layout =
        .ok (.ok (place * s.area.bitmap.unitSize), bitmap) := ⟨_, success⟩
      refine ⟨bitmap, ⟨s.area.percpuStart + (s.area.dynamicStart +
        place * s.area.bitmap.unitSize), layout⟩ :: s.live, ?_⟩
      simp only [CpuSession.apply, tryNewWith, allocate, success,
        newHandle, if_neg word, kept, if_true, ok_bind, pure_ok]
    · refine ⟨s.area.bitmap, s.live, ?_⟩
      simp only [CpuSession.apply, tryNewWith, allocate, same, ok_bind, pure_ok]
  | drop handle =>
    by_cases known : (s.live.any fun o => o.handle == handle) = true
    · obtain ⟨o, live, same⟩ := List.any_eq_true.mp known
      rw [beq_iff_eq] at same
      subst same
      obtain ⟨bitmap, dealloc, _⟩ := sound.bitmap.deallocate_live (mem_allocation live)
      have low := sound.handle o live
      have position : ¬ o.handle - s.area.percpuStart < s.area.dynamicStart := by omega
      have inner : s.area.bitmap.deallocate (o.handle - s.area.percpuStart -
        s.area.dynamicStart) = .ok (.ok (), bitmap) := dealloc
      refine ⟨bitmap, s.live.filter fun other => other.handle ≠ o.handle, ?_⟩
      simp only [CpuSession.apply, if_pos known, PercpuArea.drop, if_pos valid,
        deallocate, if_neg position, inner, ok_bind, pure_ok]
    · refine ⟨s.area.bitmap, s.live, ?_⟩
      simp only [CpuSession.apply, if_neg known, pure_ok]

/-- All calls of a session return. -/
theorem Sound.runs (valid : s.area.unitsValid = true)
    (room : s.area.percpuStart + s.area.unitSize ≤ addressSpace) (calls : List CpuCall) :
    ∃ final, calls.foldlM CpuSession.apply s = .ok final := by
  induction calls generalizing s with
  | nil => exact ⟨s, rfl⟩
  | cons call rest ih =>
    obtain ⟨bitmap, live, step⟩ := sound.progress valid room call
    obtain ⟨final, run⟩ := ih (sound.apply step) valid room
    refine ⟨final, ?_⟩
    rw [foldlM_cons, step]
    exact run

end

end CpuSession

/-- On an area with valid units below the end of memory no sequence of calls panics. -/
theorem percpu_runs {heap : Bool} (word : percpuStart < addressSpace)
    (init : tryPercpuInit build percpuStart templateSize nrCpus block heap = .ok (.ok area))
    (valid : area.unitsValid = true) (room : area.percpuStart + area.unitSize ≤ addressSpace)
    (calls : List CpuCall) :
    ∃ final, calls.foldlM CpuSession.apply ⟨area, []⟩ = .ok final ∧ final.Right := by
  obtain ⟨laidOut, bitmap⟩ := tryPercpuInit_laidOut word init
  have sound : CpuSession.Sound ⟨area, []⟩ := ⟨laidOut, bitmap, nofun, nofun⟩
  obtain ⟨final, run⟩ := sound.runs valid room calls
  exact ⟨final, run, (sound.run run).right⟩

/-- After every sequence of allocations and drops on the area that `try_percpu_init` made, the
instances of live objects are disjoint, aligned, inside their unit and apart from the templates. -/
theorem percpu_right {build : Build} {block : Option Nat}
    {heap : Bool} {area : PercpuArea} (word : percpuStart < addressSpace)
    (init : tryPercpuInit build percpuStart templateSize nrCpus block heap = .ok (.ok area))
    {calls : List CpuCall} {final : CpuSession}
    (run : calls.foldlM CpuSession.apply ⟨area, []⟩ = .ok final) : final.Right := by
  obtain ⟨laidOut, bitmap⟩ := tryPercpuInit_laidOut word init
  have sound : CpuSession.Sound ⟨area, []⟩ := ⟨laidOut, bitmap, nofun, nofun⟩
  exact (sound.run run).right

def twoCpuArea : PercpuArea where
  percpuStart := 0xFFFFFFFF80100000
  templateSize := 100
  base := 0xFFFF880000200000
  bitmap := ⟨8, ⟨64, fun _ => 0, fun _ => 0⟩, 32640, 0⟩
  dynamicStart := 128
  count := 2
  unitSize := 32768

theorem twoCpuArea_init :
    tryPercpuInit ⟨true⟩ 0xFFFFFFFF80100000 100 2 (some 512) true = .ok (.ok twoCpuArea) := by
  have target : Slub.nextPowerOfTwo (dynamicStartOf 100 + dynamicTargetSize) = 32768 := by
    decide +kernel
  have order : orderFromSize ⟨true⟩ (32768 * 2) = .ok 4 := by decide +kernel
  simp only [tryPercpuInit, allocateBacking, target, order]
  rfl

/-- An object for two CPUs is created. -/
theorem percpu_right_twoCpus :
    ∃ final, foldlM CpuSession.apply ⟨twoCpuArea, []⟩ [.create ⟨24, 16, ⟨4, rfl⟩⟩] =
      .ok final ∧ final.live ≠ [] ∧ final.Right := by
  have run : ∃ final, foldlM CpuSession.apply ⟨twoCpuArea, []⟩
      [.create ⟨24, 16, ⟨4, rfl⟩⟩] = .ok final ∧ final.live ≠ [] := ⟨_, rfl, by simp⟩
  obtain ⟨final, run, some⟩ := run
  exact ⟨final, run, some, percpu_right (by decide) twoCpuArea_init run⟩

/-- An object for two CPUs is created and, by the handle it got, dropped again. -/
theorem percpu_runs_twoCpus :
    (∃ created, CpuSession.apply ⟨twoCpuArea, []⟩ (.create ⟨24, 16, ⟨4, rfl⟩⟩) = .ok created ∧
      created.live.map DynObject.handle = [0xFFFFFFFF80100080]) ∧
    ∃ final, foldlM CpuSession.apply ⟨twoCpuArea, []⟩
      [.create ⟨24, 16, ⟨4, rfl⟩⟩, .drop 0xFFFFFFFF80100080] = .ok final ∧ final.Right :=
  ⟨⟨_, rfl, rfl⟩, percpu_runs (by decide) twoCpuArea_init (by decide) (by decide) _⟩

end Horizon.PerCpu
