import Horizon.Kernel.Bitmap
import Horizon.Spec.Runs
import Horizon.Spec.WordBits

/-!
# Bitmap allocator

The extent of an allocation is not stored: every live allocation has a mark at its first unit and at
the unit after its last, and none between. Marks stay behind in free space; an allocation that comes
to lie over such a mark clears it.
-/

namespace Horizon.BitmapAlloc

open Memory WordBits List BitIndex AllocMap Runs BitVec

variable {bit index remaining rounds : Nat}

theorem covers_maskWords (enough : remaining ≤ rounds) (inside : bit < 64) (position : Nat) :
    covers (maskWords rounds remaining bit index) position =
      decide (index * 64 + bit ≤ position ∧ position < index * 64 + bit + remaining) := by
  induction rounds generalizing remaining bit index with
  | zero =>
    have none : ¬ (index * 64 + bit ≤ position ∧ position < index * 64 + bit + remaining) := by
      omega
    simp [maskWords, none]
  | succ rounds ih =>
    by_cases done : remaining = 0
    · subst done
      have none : ¬ (index * 64 + bit ≤ position ∧ position < index * 64 + bit + 0) := by omega
      simp only [maskWords, if_true, covers_nil, none, decide_false]
    · -- The bits of this round, then those of the following words.
      obtain ⟨taken, chosen⟩ : ∃ taken, taken = min remaining (64 - bit) := ⟨_, rfl⟩
      have word : bit + taken ≤ 64 := by omega
      rw [maskWords, if_neg done]
      simp only [mask, wordBits, ← chosen]
      rw [covers_cons, ih (by omega) (by decide), getLsbD_run word, Bool.eq_iff_iff]
      simp only [Bool.or_eq_true, Bool.and_eq_true, beq_iff_eq, decide_eq_true_eq]
      omega

theorem mem_maskWords (inside : bit < 64) {entry : Nat × BitVec 64}
    (member : entry ∈ maskWords rounds remaining bit index) :
    entry.1 * 64 < index * 64 + bit + remaining := by
  induction rounds generalizing remaining bit index with
  | zero => cases member
  | succ rounds ih =>
    unfold maskWords at member
    split at member
    · cases member
    · cases List.mem_cons.mp member with
      | inl first =>
        rw [first]
        simp only
        omega
      | inr later =>
        have bound := ih (by decide) later
        unfold wordBits at bound
        omega

theorem covers_masksFrom (start len position : Nat) :
    covers (masksFrom (new start) len) position =
      decide (start ≤ position ∧ position < start + len) := by
  have split := Nat.div_add_mod' start 64
  have result : covers (masksFrom (new start) len) position =
      decide (start / 64 * 64 + start % 64 ≤ position ∧
        position < start / 64 * 64 + start % 64 + len) :=
    covers_maskWords le_rfl (Nat.mod_lt _ (by decide)) position
  rwa [split] at result

variable {map : AllocMap} {start len : Nat}

theorem masksFrom_inside (fits : start + len ≤ map.words * 64) {entry : Nat × BitVec 64}
    (member : entry ∈ masksFrom (new start) len) : entry.1 < map.words := by
  have bound : entry.1 * 64 < start / 64 * 64 + start % 64 + len :=
    mem_maskWords (Nat.mod_lt start (by decide)) member
  omega

variable {index stop : Nat}

theorem checkIndex_ok (inside : index < map.words) : map.checkIndex index = .ok () := if_pos inside

theorem test_eq (fits : start + len ≤ map.words * 64) :
    ∃ free, map.test (new start) len = .ok free ∧
      (free = true ↔ ∀ position, start ≤ position → position < start + len →
        bitAt map.allocMap position = false) := by
  have whole : ∀ masks : List (Nat × BitVec 64), (∀ entry ∈ masks, entry.1 < map.words) →
      (masks.allM fun entry => do
        map.checkIndex entry.1
        return map.allocMap entry.1 &&& entry.2 == 0) =
      (.ok (masks.all fun entry => map.allocMap entry.1 &&& entry.2 == 0) : Except Panic Bool) := by
    intro masks inside
    induction masks with
    | nil => rfl
    | cons entry rest ih =>
      have later := ih fun other member => inside other (mem_cons_of_mem _ member)
      have check := checkIndex_ok (inside entry mem_cons_self)
      simp only [allM, check, all_cons, ok_bind, pure_ok]
      cases map.allocMap entry.1 &&& entry.2 == 0 with
      | false => rfl
      | true => exact later
  refine ⟨_, whole _ fun entry member => masksFrom_inside fits member, ?_⟩
  rw [all_and_eq_zero_iff (by decide)]
  simp only [covers_masksFrom, decide_eq_true_eq]
  exact ⟨fun clear position low high => clear position ⟨low, high⟩,
    fun clear position bounds => clear position bounds.1 bounds.2⟩

variable (masks : List (Nat × BitVec 64))

theorem foldlM_markWord (inside : ∀ entry ∈ masks, entry.1 < map.words) :
    masks.foldlM markWord map =
      .ok ⟨map.words, orMasks map.allocMap masks, clearMasks map.boundMap masks⟩ := by
  induction masks generalizing map with
  | nil => rfl
  | cons entry rest ih =>
    have check := checkIndex_ok (inside entry mem_cons_self)
    simp only [foldlM_cons, markWord, check, ok_bind, pure_ok]
    exact ih fun other member => inside other (mem_cons_of_mem _ member)

theorem foldlM_freeWord (inside : ∀ entry ∈ masks, entry.1 < map.words) :
    masks.foldlM freeWord map =
      .ok ⟨map.words, clearMasks map.allocMap masks, map.boundMap⟩ := by
  induction masks generalizing map with
  | nil => rfl
  | cons entry rest ih =>
    have check := checkIndex_ok (inside entry mem_cons_self)
    simp only [foldlM_cons, freeWord, check, ok_bind, pure_ok]
    exact ih fun other member => inside other (mem_cons_of_mem _ member)

theorem setBound_eq (map : AllocMap) {position : Nat} (same : index * 64 + bit = position)
    (inside : bit < 64) (fits : position < map.words * 64) :
    ∃ after, map.setBound index bit = .ok after ∧ after.words = map.words ∧
      after.allocMap = map.allocMap ∧
      ∀ other, bitAt after.boundMap other =
        (bitAt map.boundMap other || decide (other = position)) := by
  have check : map.checkIndex index = .ok () := checkIndex_ok (by omega)
  refine ⟨⟨map.words, map.allocMap, Function.update map.boundMap index
    (map.boundMap index ||| (1#64 <<< bit))⟩, ?_, rfl, rfl, ?_⟩
  · simp only [setBound, check, ok_bind, pure_ok]
  · intro other
    rw [bitAt_update]
    by_cases word : other / 64 = index
    · have bit_iff : other % 64 = bit ↔ other = position := by omega
      rw [if_pos word, getLsbD_or_one_shiftLeft (Nat.mod_lt _ (by decide))]
      simp only [bitAt, word, bit_iff]
    · have distinct : other ≠ position := by omega
      simp [word, distinct]

/-- What `mark_allocated` leaves: the bits are set, the marks between are cleared, and the first
unit and the unit after the last are marked. -/
structure Marked (map after : AllocMap) (start len : Nat) : Prop where
  words : after.words = map.words
  alloc : ∀ position, bitAt after.allocMap position =
    (bitAt map.allocMap position || decide (start ≤ position ∧ position < start + len))
  /-- Inside the run the first unit only is marked; the unit after it is marked, too. -/
  bound : ∀ position, bitAt after.boundMap position =
    ((bitAt map.boundMap position && !decide (start ≤ position ∧ position < start + len)) ||
      decide (position = start) || decide (position = start + len))

theorem markAllocated_eq (fits : start + len < map.words * 64) :
    ∃ after, map.markAllocated (new start) len = .ok after ∧
      Marked map after start len := by
  have loop := foldlM_markWord (masksFrom (new start) len)
    fun entry member => masksFrom_inside fits.le member
  have alloc := bitAt_orMasks map.allocMap (masksFrom (new start) len)
  have bound := bitAt_clearMasks (by decide) map.boundMap (masksFrom (new start) len)
  -- The maps after the loop, of which only these bits matter below.
  generalize orMasks map.allocMap (masksFrom (new start) len) = allocMap at loop alloc
  generalize clearMasks map.boundMap (masksFrom (new start) len) = boundMap at loop bound
  obtain ⟨first, firstCall, firstWords, firstAlloc, firstBound⟩ :=
    setBound_eq ⟨map.words, allocMap, boundMap⟩ (Nat.div_add_mod' start 64)
      (Nat.mod_lt _ (by decide)) (lt_of_le_of_lt (Nat.le_add_right start len) fits)
  have place : (start / 64 + (start % 64 + len) / 64) * 64 + (start % 64 + len) % 64 =
      start + len := by omega
  obtain ⟨last, lastCall, lastWords, lastAlloc, lastBound⟩ :=
    setBound_eq first place (Nat.mod_lt _ (by decide)) (firstWords ▸ fits)
  refine ⟨last, ?_, lastWords.trans firstWords, ?_, ?_⟩
  · simp only [markAllocated, loop, bind, Except.bind]
    simp only [new, wordBits, firstCall, lastCall]
  · intro position
    rw [lastAlloc, firstAlloc, alloc, covers_masksFrom]
  · intro position
    rw [lastBound, firstBound, bound, covers_masksFrom]

theorem markFree_eq (fits : stop ≤ map.words * 64) (order : start ≤ stop) :
    ∃ after, map.markFree (new start) (new stop) = .ok after ∧
      after.words = map.words ∧ after.boundMap = map.boundMap ∧
      ∀ position, bitAt after.allocMap position =
        (bitAt map.allocMap position && !decide (start ≤ position ∧ position < stop)) := by
  have length : (new stop).position - (new start).position = stop - start := by
    simp only [new, position, wordBits]
    omega
  have inside : ∀ entry ∈ masksFrom (new start) (stop - start), entry.1 < map.words :=
    fun entry member => masksFrom_inside (by omega) member
  have loop := foldlM_freeWord _ inside
  rw [← length, ← markFree] at loop
  refine ⟨_, loop, rfl, rfl, ?_⟩
  intro position
  rw [length, bitAt_clearMasks (by decide), covers_masksFrom, Nat.add_sub_cancel' order]

theorem scanBoundary_eq {word : BitVec 64} (enough : stop / 64 < index + rounds)
    (reached : index ≤ stop / 64) (fits : stop < map.words * 64)
    (marked : bitAt map.boundMap stop = true)
    (between : ∀ position, index * 64 ≤ position → position < stop →
      word.getLsbD (position % 64) = false ∨ index < position / 64)
    (later : ∀ position, index < position / 64 → position < stop →
      bitAt map.boundMap position = false)
    (shown : stop / 64 = index → word.getLsbD (stop % 64) = true) :
    map.scanBoundary rounds index word = .ok (new stop) := by
  induction rounds generalizing index word with
  | zero => omega
  | succ rounds ih =>
    unfold scanBoundary
    have clear : ∀ bit < 64, index * 64 + bit < stop → (!word.getLsbD bit) = true := by
      intro bit low below
      have clear := between (index * 64 + bit) (by omega) below
      rw [show (index * 64 + bit) % 64 = bit by omega] at clear
      simp [clear.resolve_right (by omega)]
    by_cases here : stop / 64 = index
    · have found : lowestOne word = some (stop % 64) := by
        rw [lowestOne, find?_range_eq_some]
        refine ⟨shown here, List.mem_range.mpr (Nat.mod_lt _ (by decide)), ?_⟩
        exact fun bit below => clear bit (by omega) (by omega)
      rw [found]
      simp only [new, wordBits, here]
    · have missing : lowestOne word = none := by
        rw [lowestOne, find?_range_eq_none]
        intro bit below
        unfold wordBits at below
        exact clear bit below (by omega)
      have check : map.checkIndex (index + 1) = .ok () := checkIndex_ok (by omega)
      rw [missing]
      simp only [check, ok_bind]
      apply ih (by omega) (by omega)
      · intro position low high
        by_cases word : index + 1 < position / 64
        · exact .inr word
        · have place : position / 64 = index + 1 := by omega
          have clear := later position (by omega) high
          rw [bitAt, place] at clear
          exact .inl clear
      · intro position next high
        exact later position (by omega) high
      · intro place
        rw [bitAt, place] at marked
        exact marked

theorem findBoundary_eq (order : start < stop) (fits : stop < map.words * 64)
    (marked : bitAt map.boundMap stop = true)
    (between : ∀ position, start < position → position < stop →
      bitAt map.boundMap position = false) :
    map.findBoundary (new start) = .ok (new stop) := by
  obtain ⟨index, place⟩ : ∃ index, index = start / 64 + (start % 64 + 1) / 64 := ⟨_, rfl⟩
  obtain ⟨bit, offset⟩ : ∃ bit, bit = (start % 64 + 1) % 64 := ⟨_, rfl⟩
  have check : map.checkIndex index = .ok () := checkIndex_ok (by omega)
  simp only [findBoundary, new, wordBits, ← place, ← offset, check, ok_bind]
  have shifted : ∀ k, k < 64 → (map.boundMap index &&& (allOnes 64 <<< bit)).getLsbD k =
      ((map.boundMap index).getLsbD k && decide (bit ≤ k)) := by
    intro k below
    rw [getLsbD_and, getLsbD_shiftLeft, getLsbD_allOnes]
    by_cases low : k < bit
    · simp [low, not_le.mpr low]
    · have inside : k - bit < 64 := by omega
      simp [below, low, inside, not_lt.mp low]
  apply scanBoundary_eq (by omega) (by omega) fits marked
  · intro position low high
    by_cases word : index < position / 64
    · exact .inr word
    · have here : position / 64 = index := by omega
      rw [shifted _ (Nat.mod_lt _ (by decide))]
      by_cases early : bit ≤ position % 64
      · have clear := between position (by omega) high
        rw [bitAt, here] at clear
        simp [clear]
      · simp [early]
  · intro position word high
    exact between position (by omega) high
  · intro here
    have reached : bit ≤ stop % 64 := by omega
    rw [bitAt, here] at marked
    rw [shifted _ (Nat.mod_lt _ (by decide)), marked]
    simp [reached]

end Horizon.BitmapAlloc
