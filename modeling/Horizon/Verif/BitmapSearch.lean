import Horizon.Verif.BitmapRuns

/-!
# What the search of the bitmap finds

`allocate` starts at the first free unit and goes on by the length of the request, rounded up to the
alignment. It finds no memory exactly when none of the places it visits is free, which says nothing
about the aligned places in between.
-/

namespace Horizon.BitmapAlloc

open Memory WordBits Runs Nat BitIndex

namespace AllocMap

variable {map : AllocMap} {start len : Nat}

/-- A unit of the run is allocated, and the maps reach it. -/
def Blocked (map : AllocMap) (start len : Nat) : Prop :=
  ∃ position, start ≤ position ∧ position < start + len ∧ position < map.words * 64 ∧
    bitAt map.allocMap position = true

theorem mask_clear_iff (map : AllocMap) (index : Nat) {bit count : Nat}
    (inside : bit + count ≤ 64) :
    map.allocMap index &&& mask bit count = 0 ↔
      ∀ position, index * 64 + bit ≤ position → position < index * 64 + bit + count →
        bitAt map.allocMap position = false := by
  have clear : ([(index, mask bit count)].all fun entry => map.allocMap entry.1 &&& entry.2 == 0) =
      true ↔ _ := all_and_eq_zero_iff (by decide)
  simp only [List.all_cons, List.all_nil, Bool.and_true, beq_iff_eq, covers_cons, covers_nil,
    Bool.or_false, Bool.and_eq_true] at clear
  rw [clear]
  refine forall_congr' fun position => ?_
  rw [mask, wordBits, getLsbD_run inside, decide_eq_true_eq]
  constructor
  · intro free low high
    exact free ⟨by omega, by omega⟩
  · intro free covered
    exact free (by omega) (by omega)

theorem allM_masks_iff (map : AllocMap) {rounds remaining bit : Nat} (index : Nat)
    (enough : remaining ≤ rounds) (inside : bit < 64) :
    ((maskWords rounds remaining bit index).allM fun (index, mask) => do
      map.checkIndex index
      return map.allocMap index &&& mask == 0) = (.ok false : Except Panic Bool) ↔
      map.Blocked (index * 64 + bit) remaining := by
  induction rounds generalizing remaining bit index with
  | zero =>
    refine iff_of_false (by simp [maskWords, pure_ok]) ?_
    rintro ⟨position, low, high, _⟩
    omega
  | succ rounds ih =>
    by_cases done : remaining = 0
    · refine iff_of_false (by simp [maskWords, done, pure_ok]) ?_
      rintro ⟨position, low, high, _⟩
      omega
    · have rest := @ih (remaining - min remaining (wordBits - bit)) 0 (index + 1)
        (by unfold wordBits; omega) (by decide)
      have word : bit + min remaining (wordBits - bit) ≤ 64 := by
        unfold wordBits
        omega
      have clear := mask_clear_iff map index word
      have taken : min remaining (wordBits - bit) = remaining ∨
          min remaining (wordBits - bit) = 64 - bit := by
        unfold wordBits
        omega
      have atMost : min remaining (wordBits - bit) ≤ remaining := min_le_left _ _
      simp only [maskWords, if_neg done, List.allM]
      generalize min remaining (wordBits - bit) = count at rest word clear taken atMost ⊢
      by_cases reach : index < map.words
      · rw [checkIndex_ok reach]
        by_cases free : map.allocMap index &&& mask bit count = 0
        · -- This word is free, so that an allocated unit lies in a later one.
          have first := clear.mp free
          simp only [bind, Except.bind, pure_ok, free, BEq.rfl]
          refine rest.trans ⟨?_, ?_⟩
          · rintro ⟨position, low, high, bound, set⟩
            exact ⟨position, by omega, by omega, bound, set⟩
          · rintro ⟨position, low, high, bound, set⟩
            have later : index * 64 + bit + count ≤ position := by
              by_contra early
              rw [first position low (by omega)] at set
              cases set
            exact ⟨position, by omega, by omega, bound, set⟩
        · have stops : (map.allocMap index &&& mask bit count == 0) = false := by
            simpa using free
          simp only [bind, Except.bind, pure_ok, stops, true_iff]
          by_contra none
          refine free (clear.mpr fun position low high => ?_)
          by_contra set
          refine none ⟨position, low, by omega, by omega, ?_⟩
          simpa using set
      · have panics : map.checkIndex index = .error .indexOutOfBounds := if_neg reach
        rw [panics]
        simp only [bind, Except.bind, reduceCtorEq, false_iff]
        rintro ⟨position, low, _, bound, _⟩
        omega

/-- `test` answers no at the first allocated unit, unless it leaves the maps before. -/
theorem test_false_iff (map : AllocMap) (start len : Nat) :
    map.test (new start) len = .ok false ↔ map.Blocked start len := by
  have split := div_add_mod' start 64
  have loop := allM_masks_iff map (start / 64) (le_refl len)
    (mod_lt start (by decide : 0 < 64))
  rw [split] at loop
  exact loop

theorem nextMultipleOf_add {units unitAlign : Nat} (align : 0 < unitAlign)
    (aligned : unitAlign ∣ start) :
    nextMultipleOf (start + units) unitAlign = start + nextMultipleOf units unitAlign := by
  obtain ⟨k, rfl⟩ := aligned
  unfold nextMultipleOf divCeil
  have sum : unitAlign * k + units + unitAlign - 1 = units + unitAlign - 1 + unitAlign * k := by
    omega
  rw [sum, add_mul_div_left _ _ align, add_mul, mul_comm k]
  omega

/-- The search runs out of places exactly when each multiple of its step is blocked. -/
theorem allocateLoop_outOfMemory_iff (unitSize firstFree : Nat)
    {units unitAlign capacityUnits rounds : Nat} (some : 0 < units) (align : 0 < unitAlign)
    (aligned : unitAlign ∣ start) (round : 0 < rounds) (enough : capacityUnits < start + rounds) :
    (∃ after, allocateLoop unitSize units unitAlign capacityUnits rounds map firstFree start =
      .ok (.error .outOfMemory, after)) ↔
    ∀ j, start + j * nextMultipleOf units unitAlign + units ≤ capacityUnits →
      map.Blocked (start + j * nextMultipleOf units unitAlign) units := by
  induction rounds generalizing start with
  | zero => cases round
  | succ rounds ih =>
    unfold allocateLoop
    by_cases room : start + units ≤ capacityUnits
    · rw [if_pos room]
      have blocked := test_false_iff map start units
      cases test : map.test (new start) units with
      | error panic =>
        refine iff_of_false (by simp [test, bind, Except.bind]) fun all => ?_
        have here := blocked.mpr (by simpa using all 0 (by simpa using room))
        rw [test] at here
        cases here
      | ok free =>
        cases free with
        | true =>
          refine iff_of_false ?_ fun all => ?_
          · cases marked : map.markAllocated (new start) units with
            | error panic => simp [test, marked, bind, Except.bind]
            | ok after => simp [test, marked, bind, Except.bind, pure_ok]
          · have here := blocked.mpr (by simpa using all 0 (by simpa using room))
            rw [test] at here
            cases here
        | false =>
          -- The start is blocked, and the other places are those of the search from the next one.
          have grows : units ≤ nextMultipleOf units unitAlign := le_divCeil_mul align
          have next := @ih (nextMultipleOf (start + units) unitAlign) (dvd_mul_left _ _)
            (by omega) (by rw [nextMultipleOf_add align aligned]; omega)
          simp only [test, bind, Except.bind, Bool.false_eq_true, if_false]
          rw [next, nextMultipleOf_add align aligned]
          constructor
          · intro later j inside
            cases j with
            | zero => simpa using blocked.mp test
            | succ j =>
              have same : start + (j + 1) * nextMultipleOf units unitAlign =
                  start + nextMultipleOf units unitAlign + j * nextMultipleOf units unitAlign := by
                rw [add_mul]
                omega
              rw [same] at inside ⊢
              exact later j inside
          · intro all j inside
            have same : start + nextMultipleOf units unitAlign +
                j * nextMultipleOf units unitAlign =
                start + (j + 1) * nextMultipleOf units unitAlign := by
              rw [add_mul]
              omega
            rw [same] at inside ⊢
            exact all (j + 1) inside
    · rw [if_neg room]
      refine iff_of_true ⟨_, rfl⟩ fun j inside => ?_
      omega

end AllocMap

namespace Bitmap

variable (bitmap : Bitmap) (layout : Layout)

/-- The number of units a request takes. -/
def requestUnits : Nat := divCeil layout.size bitmap.unitSize

/-- A run of free units inside the capacity that would serve the request from `place` on. -/
def FreeRun (place : Nat) : Prop :=
  layout.align ∣ place * bitmap.unitSize ∧
    place + bitmap.requestUnits layout ≤ bitmap.size / bitmap.unitSize ∧
    ∀ position, place ≤ position → position < place + bitmap.requestUnits layout →
      ¬ Session.Allocated bitmap position

/-- The request is one that `allocate` searches for. -/
def Searches : Prop :=
  0 < layout.size ∧ layout.size ≤ maxAllocSize ∧ max layout.align bitmap.unitSize ≤ cachelineSize

/-- The alignment of a request in units. -/
def requestAlign : Nat :=
  max layout.align bitmap.unitSize / bitmap.unitSize

/-- The places the search goes through, up to the capacity. -/
def visited (j : Nat) : Nat :=
  nextMultipleOf bitmap.firstFree (bitmap.requestAlign layout) +
    j * nextMultipleOf (bitmap.requestUnits layout) (bitmap.requestAlign layout)

/-- One of the places that the search looks at inside the capacity is not blocked. -/
def SearchHits : Prop :=
  ∃ j, bitmap.visited layout j + bitmap.requestUnits layout ≤ bitmap.size / bitmap.unitSize ∧
    ¬ bitmap.map.Blocked (bitmap.visited layout j) (bitmap.requestUnits layout)

/-- There is no memory for the search exactly when no place it visits is free. -/
theorem outOfMemory_iff {bitmap : Bitmap} (positive : 0 < bitmap.unitSize) (layout : Layout) :
    (∃ after, bitmap.allocate layout = .ok (.error .outOfMemory, after)) ↔
      bitmap.Searches layout ∧ ¬ bitmap.SearchHits layout := by
  have outer : (∃ after, bitmap.allocate layout = .ok (.error .outOfMemory, after)) ↔
      ∃ after, bitmap.map.allocate bitmap.unitSize layout bitmap.size bitmap.firstFree =
        .ok (.error .outOfMemory, after) := by
    unfold Bitmap.allocate
    cases bitmap.map.allocate bitmap.unitSize layout bitmap.size bitmap.firstFree with
    | error panic => simp [bind, Except.bind]
    | ok done =>
      rcases done with ⟨result, map, hint⟩
      simp [bind, Except.bind, pure_ok]
  rw [outer, AllocMap.allocate]
  by_cases size : layout.size = 0 ∨ maxAllocSize < layout.size
  · rw [if_pos size]
    refine iff_of_false (by simp) fun both => ?_
    have searches := both.1
    unfold Searches at searches
    omega
  · rw [if_neg size]
    by_cases align : cachelineSize < max layout.align bitmap.unitSize
    · dsimp only
      rw [if_pos align]
      refine iff_of_false (by simp) fun both => ?_
      exact absurd both.1.2.2 (not_le.mpr align)
    · have searches : bitmap.Searches layout := by
        unfold Searches
        omega
      dsimp only
      rw [if_neg align, and_iff_right searches]
      have units := divCeil_pos positive searches.1
      have unitAlign : 0 < max layout.align bitmap.unitSize / bitmap.unitSize :=
        Nat.div_pos (le_max_right _ _) positive
      have aligned : max layout.align bitmap.unitSize / bitmap.unitSize ∣
          nextMultipleOf bitmap.firstFree (max layout.align bitmap.unitSize / bitmap.unitSize) :=
        dvd_mul_left _ _
      rw [AllocMap.allocateLoop_outOfMemory_iff bitmap.unitSize bitmap.firstFree units unitAlign
        aligned (succ_pos _) (lt_of_lt_of_le (lt_succ_self _) (Nat.le_add_left _ _))]
      unfold SearchHits
      push Not
      exact Iff.rfl

section Sound

variable {s : Session} {layout : Layout} {place : Nat} (sound : s.Sound)
include sound

theorem align_dvd_iff :
    layout.align ∣ place * s.bitmap.unitSize ↔ s.bitmap.requestAlign layout ∣ place := by
  have both := dvd_max_of_isPowerOfTwo layout.powerOfTwo sound.unit_pow
  have units : s.bitmap.requestAlign layout * s.bitmap.unitSize =
      max layout.align s.bitmap.unitSize := Nat.div_mul_cancel both.2
  constructor
  · intro aligned
    apply Nat.dvd_of_mul_dvd_mul_right sound.unit_pos
    rw [units]
    rcases max_choice layout.align s.bitmap.unitSize with align | unit
    · rwa [align]
    · rw [unit]
      exact dvd_mul_left _ _
  · intro aligned
    exact both.1.trans (units ▸ Nat.mul_dvd_mul_right aligned _)

/-- The search hits exactly when one of the places it visits begins a free run. -/
theorem searchHits_iff :
    s.bitmap.SearchHits layout ↔ ∃ j, s.bitmap.FreeRun layout (s.bitmap.visited layout j) := by
  refine exists_congr fun j => ?_
  have aligned : layout.align ∣ s.bitmap.visited layout j * s.bitmap.unitSize :=
    (align_dvd_iff sound).mpr (dvd_add (dvd_mul_left _ _) ((dvd_mul_left _ _).mul_left j))
  rw [FreeRun, and_iff_right aligned]
  refine and_congr_right fun inside => ⟨fun free position low high used => ?_, ?_⟩
  · have mapped := sound.fits
    exact free ⟨position, low, high, by omega, used⟩
  · rintro free ⟨position, low, high, -, used⟩
    exact free position low high used

/-- No free run begins below the first free unit. -/
theorem FreeRun.firstFree_le (nonempty : 0 < layout.size) (free : s.bitmap.FreeRun layout place) :
    s.bitmap.firstFree ≤ place := by
  by_contra below
  have units : 0 < s.bitmap.requestUnits layout := divCeil_pos sound.unit_pos nonempty
  exact free.2.2 place le_rfl (by omega) (sound.below_firstFree place (Nat.lt_of_not_le below))

/-- A request of at most as many units as its alignment has visits every aligned place from the
first free unit on, so it hits whenever there is a free run. -/
theorem FreeRun.searchHits (nonempty : 0 < layout.size)
    (short : s.bitmap.requestUnits layout ≤ s.bitmap.requestAlign layout)
    (free : s.bitmap.FreeRun layout place) : s.bitmap.SearchHits layout := by
  have units : 0 < s.bitmap.requestUnits layout := divCeil_pos sound.unit_pos nonempty
  have least := free.firstFree_le sound nonempty
  obtain ⟨k, rfl⟩ := (align_dvd_iff sound).mp free.1
  have step : divCeil (s.bitmap.requestUnits layout) (s.bitmap.requestAlign layout) = 1 :=
    Nat.div_eq_of_lt_le (by omega) (by omega)
  have first : divCeil s.bitmap.firstFree (s.bitmap.requestAlign layout) ≤ k := by
    refine Nat.lt_succ_iff.mp ((Nat.div_lt_iff_lt_mul (by omega)).mpr ?_)
    rw [succ_mul, mul_comm]
    omega
  refine (searchHits_iff sound).mpr
    ⟨k - divCeil s.bitmap.firstFree (s.bitmap.requestAlign layout), ?_⟩
  have reached : s.bitmap.visited layout
      (k - divCeil s.bitmap.firstFree (s.bitmap.requestAlign layout)) =
        s.bitmap.requestAlign layout * k := by
    rw [visited, nextMultipleOf, nextMultipleOf, step, one_mul, ← add_mul,
      Nat.add_sub_cancel' first, mul_comm]
  exact reached ▸ free

end Sound

end Bitmap

/-- A bitmap with a history: it was created, and calls of `allocate` and `deallocate` led to it. -/
structure History where
  unitSize : Nat
  size : Nat
  created : Bitmap
  creation : Bitmap.tryNew unitSize size true = .ok created
  calls : List BitmapCall
  session : Session
  run : calls.foldlM Session.apply ⟨created, []⟩ = .ok session

namespace History

variable {bitmap : Bitmap} {after before : Session}

theorem allocate_unitSize {layout : Layout} {done : Except MemoryError Nat × Bitmap}
    (run : bitmap.allocate layout = .ok done) : done.2.unitSize = bitmap.unitSize := by
  obtain ⟨inner, _, rest⟩ := bind_eq_ok.mp run
  cases rest
  rfl

theorem deallocate_unitSize {offset : Nat} {done : Except MemoryError Unit × Bitmap}
    (run : bitmap.deallocate offset = .ok done) : done.2.unitSize = bitmap.unitSize := by
  unfold Bitmap.deallocate at run
  split at run
  · cases run
    rfl
  · obtain ⟨inner, _, rest⟩ := bind_eq_ok.mp run
    cases rest
    rfl

theorem apply_unitSize {call : BitmapCall} (run : before.apply call = .ok after) :
    after.bitmap.unitSize = before.bitmap.unitSize := by
  cases call with
  | allocate layout =>
    obtain ⟨⟨result, bitmap⟩, call, rest⟩ := bind_eq_ok.mp run
    have kept := allocate_unitSize call
    cases result <;> (cases rest; exact kept)
  | deallocate offset =>
    obtain ⟨⟨result, bitmap⟩, call, rest⟩ := bind_eq_ok.mp run
    have kept := deallocate_unitSize call
    cases result <;> (cases rest; exact kept)

theorem run_unitSize {calls : List BitmapCall}
    (run : calls.foldlM Session.apply before = .ok after) :
    after.bitmap.unitSize = before.bitmap.unitSize := by
  induction calls generalizing before with
  | nil =>
    cases run
    rfl
  | cons call rest ih =>
    rw [List.foldlM_cons] at run
    obtain ⟨next, first, later⟩ := bind_eq_ok.mp run
    exact (ih later).trans (apply_unitSize first)

/-- Every bitmap with a history has units of at least one byte. -/
theorem unit_pos (history : History) : 0 < history.session.bitmap.unitSize := by
  rw [run_unitSize history.run]
  have creation := history.creation
  unfold Bitmap.tryNew at creation
  split at creation
  · cases creation
  rename_i fits
  split at creation
  · cases creation
  rw [if_pos rfl] at creation
  rw [← Except.ok.inj creation]
  have power : history.unitSize.isPowerOfTwo := by
    by_contra other
    exact fits (.inl other)
  obtain ⟨k, power⟩ := power
  change 0 < history.unitSize
  rw [power]
  exact Nat.two_pow_pos k

/-- A history of a bitmap whose word count fits sixteen bits keeps its maps in step. -/
theorem sound (history : History) (small : history.size / history.unitSize ≤ maxUnits) :
    history.session.Sound := by
  obtain ⟨final, run, sound, -⟩ := (tryNew_sound history.creation small).1.run history.calls
  cases history.run.symm.trans run
  exact sound

/-- Out of memory is right for every request of at most as many units as its alignment has. -/
theorem outOfMemory_right_of_short (history : History) (layout : Layout)
    (small : history.size / history.unitSize ≤ maxUnits)
    (short : history.session.bitmap.requestUnits layout ≤
      history.session.bitmap.requestAlign layout)
    (refused : ∃ after, history.session.bitmap.allocate layout = .ok (.error .outOfMemory, after))
    (place : Nat) : ¬ history.session.bitmap.FreeRun layout place := by
  obtain ⟨searches, misses⟩ := (Bitmap.outOfMemory_iff history.unit_pos layout).mp refused
  exact fun free => misses (free.searchHits (history.sound small) searches.1 short)

/-- For every bitmap with a history and every request: `allocate` reports that there is no memory
only when there is no suitable run exactly when, if it searches and there is such a run, it also
visits a place that is not blocked. -/
theorem outOfMemory_right_iff (history : History) (layout : Layout) :
    ((∃ after, history.session.bitmap.allocate layout = .ok (.error .outOfMemory, after)) →
      ∀ place, ¬ history.session.bitmap.FreeRun layout place) ↔
    (history.session.bitmap.Searches layout →
      (∃ place, history.session.bitmap.FreeRun layout place) →
      history.session.bitmap.SearchHits layout) := by
  rw [Bitmap.outOfMemory_iff history.unit_pos]
  constructor
  · intro right searches run
    by_contra misses
    obtain ⟨place, free⟩ := run
    exact right ⟨searches, misses⟩ place free
  · rintro hits ⟨searches, misses⟩ place free
    exact misses (hits searches ⟨place, free⟩)

theorem one_isPowerOfTwo : isPowerOfTwo 1 := ⟨0, rfl⟩

def plainLayout (size : Nat) : Layout := ⟨size, 1, one_isPowerOfTwo⟩

/-- Three single units are taken from a bitmap of five units, and the first is given back. -/
def fragmenting : List BitmapCall :=
  [.allocate (plainLayout 1), .allocate (plainLayout 1), .allocate (plainLayout 1), .deallocate 0]

/-- In the state after these calls a request for two units is told that there is no memory, and
units 3 and 4 are free. -/
def misses (session : Session) : Bool :=
  (match session.bitmap.allocate (plainLayout 2) with
    | .ok (.error .outOfMemory, _) => true
    | _ => false) &&
  session.bitmap.unitSize == 1 && session.bitmap.size == 5 &&
  !bitAt session.bitmap.map.allocMap 3 && !bitAt session.bitmap.map.allocMap 4

def fiveUnits : Bitmap := ⟨1, ⟨1, fun _ => 0, fun _ => 0⟩, 5, 0⟩

theorem fragmenting_misses : (match fragmenting.foldlM Session.apply ⟨fiveUnits, []⟩ with
      | .ok session => misses session
      | .error _ => false) = true := by
  decide +kernel

/-- Units 3 and 4 are free then, but a request for two units looks at units 0 and 2 and at the end
of the map only. -/
theorem free_run_missed : ∃ history : History, history.size = 5 ∧ history.unitSize = 1 ∧
    history.calls = fragmenting ∧ ¬ ((∃ after, history.session.bitmap.allocate (plainLayout 2) =
        .ok (.error .outOfMemory, after)) →
      ∀ place, ¬ history.session.bitmap.FreeRun (plainLayout 2) place) := by
  have evaluated := fragmenting_misses
  cases run : fragmenting.foldlM Session.apply ⟨fiveUnits, []⟩ with
  | error panic => simp [run] at evaluated
  | ok session =>
    simp only [run, misses, Bool.and_eq_true, Bool.not_eq_true', beq_iff_eq] at evaluated
    obtain ⟨⟨⟨⟨refused, unit⟩, size⟩, third⟩, fourth⟩ := evaluated
    refine ⟨⟨1, 5, fiveUnits, rfl, fragmenting, session, run⟩, rfl, rfl, rfl, fun right => ?_⟩
    have fails : ∃ after, session.bitmap.allocate (plainLayout 2) =
        .ok (.error .outOfMemory, after) := by
      split at refused
      · rename_i after same
        exact ⟨_, same⟩
      · cases refused
    have units : session.bitmap.requestUnits (plainLayout 2) = 2 := by
      simp [Bitmap.requestUnits, plainLayout, divCeil, unit]
    refine right fails 3 ⟨one_dvd _, ?_, fun position low high => ?_⟩
    · simp [units, unit, size]
    · rw [units] at high
      have last : position = 3 ∨ position = 4 := by omega
      rcases last with rfl | rfl
      · simp [Session.Allocated, third]
      · simp [Session.Allocated, fourth]

end History

end Horizon.BitmapAlloc
