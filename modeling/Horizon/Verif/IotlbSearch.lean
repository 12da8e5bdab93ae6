import Horizon.Spec.Runs
import Horizon.Verif.Iotlb

/-!
# The search for free slots

`find_consecutive_free` hops over the slots of an area by the stored counts, from the slot after the
last allocation on and around the end, until a slot fits or it passes its start; no hop passes a
start at the first slot. A slot fits when its count has room for the slots and for its distance from
the aligned slot before it.
-/

namespace Horizon.Iotlb

open Runs AreaInner

namespace AreaInner

variable {area : AreaInner} {nSlots alignSlots i k rounds : Nat}

/-- How far the search goes on from a slot that does not fit. -/
def skip (area : AreaInner) (i : Nat) : Nat := (area.slots i).nSlots.getD 1

def hop (area : AreaInner) (i : Nat) : Nat := (i + area.skip i) % area.len

/-- The slots that the search comes to, if it goes on. -/
def visit (area : AreaInner) (k : Nat) : Nat := area.hop^[k] area.index

/-- The test of the search: the count has room for the slots and for the offset of the slot. -/
def Fits (area : AreaInner) (nSlots alignSlots i : Nat) : Prop :=
  ∃ available, (area.slots i).nSlots = some available ∧ nSlots + i % alignSlots ≤ available

/-- The padding that the search returns with a slot. -/
def paddingAt (alignSlots i : Nat) : Nat := (alignSlots - i % alignSlots) % alignSlots % 2 ^ 16

/-- The hop from a slot passes the start of the search. -/
def Closes (area : AreaInner) (i : Nat) : Prop :=
  i < area.index ∧ area.index ≤ i + area.skip i

instance (area : AreaInner) (i : Nat) : Decidable (area.Closes i) :=
  inferInstanceAs (Decidable (_ ∧ _))

/-- A run of free slots that starts at an aligned slot. -/
def AlignedRun (area : AreaInner) (nSlots alignSlots : Nat) : Prop :=
  ∃ first, alignSlots ∣ first ∧ first + nSlots ≤ area.len ∧
    ∀ slot, first ≤ slot → slot < first + nSlots → (area.slots slot).isFree = true

/-- The count that a slot stores; an allocated slot stores none. -/
def count (area : AreaInner) (i : Nat) : Nat := (area.slots i).nSlots.getD 0

/-- The counts are as documented: a free slot stores the number of free slots from it on. A run at
the end of the area may be counted up to the end of a later area, as `init` does. -/
structure Counted (area : AreaInner) : Prop where
  index_lt : area.index < area.len
  pos : ∀ i < area.len, (area.slots i).isFree = true → 0 < area.count i
  free : ∀ i < area.len, (area.slots i).isFree = true → ∀ slot, i ≤ slot → slot < i + area.count i →
    slot < area.len → (area.slots slot).isFree = true
  ends : ∀ i < area.len, (area.slots i).isFree = true → i + area.count i < area.len →
    (area.slots (i + area.count i)).isFree = false
  turns : ∀ i < area.len, (area.slots i).isFree = true → area.len ≤ i + area.count i →
    area.len ∣ i + area.count i

/-- The first slot of a run of free slots. -/
structure RunFirst (area : AreaInner) (i : Nat) : Prop where
  inside : i < area.len
  free : (area.slots i).isFree = true
  first : ∀ j, j + 1 = i → (area.slots j).isFree = false

/-- The slots at which the search looks for room: the first ones of the runs, and the slot it starts
at, if that is free. -/
structure Head (area : AreaInner) (i : Nat) : Prop where
  inside : i < area.len
  free : (area.slots i).isFree = true
  first : i = area.index ∨ ∀ j, j + 1 = i → (area.slots j).isFree = false

/-- The end of the run from a free slot on. -/
def runEnd (area : AreaInner) (i : Nat) : Nat := min (i + area.count i) area.len

/-- The distance of a slot from the start of the search, around the end of the area. -/
def turn (area : AreaInner) (i : Nat) : Nat :=
  if area.index ≤ i then i - area.index else i + area.len - area.index

section Padding

variable {a first : Nat}

/-- The padding of a slot, without the remainders. -/
theorem padding_eq (positive : 0 < a) (i : Nat) :
    (a - i % a) % a = if i % a = 0 then 0 else a - i % a := by
  have small := Nat.mod_lt i positive
  split
  case isTrue none => rw [none, Nat.sub_zero, Nat.mod_self]
  case isFalse some => exact Nat.mod_eq_of_lt (by omega)

theorem dvd_add_padding (positive : 0 < a) (i : Nat) : a ∣ i + (a - i % a) % a := by
  have split := Nat.div_add_mod i a
  have small := Nat.mod_lt i positive
  rw [padding_eq positive]
  split_ifs with none
  · exact Nat.dvd_of_mod_eq_zero none
  · exact ⟨i / a + 1, by rw [Nat.mul_add_one]; omega⟩

/-- The padded slot is the first aligned one. -/
theorem add_padding_le (positive : 0 < a) (low : i ≤ first) (aligned : a ∣ first) :
    i + (a - i % a) % a ≤ first := by
  have split := Nat.div_add_mod i a
  rw [padding_eq positive]
  split_ifs with none
  · exact low
  · obtain ⟨multiple, rfl⟩ := aligned
    have more : i / a + 1 ≤ multiple := by
      by_contra less
      have := Nat.mul_le_mul_left a (show multiple ≤ i / a by omega)
      omega
    have := Nat.mul_le_mul_left a more
    rw [Nat.mul_add_one] at this
    omega

end Padding

section Round

variable (inside : i < area.len) (positive : 0 < alignSlots)

include inside positive

theorem findLoop_fits (fits : area.Fits nSlots alignSlots i) (start : Nat) :
    area.findLoop nSlots alignSlots start (rounds + 1) i =
      .ok (some (paddingAt alignSlots i, i)) := by
  obtain ⟨available, count, room⟩ := fits
  simp only [findLoop, if_neg (not_le.mpr inside), count,
    if_neg (pos_iff_ne_zero.mp positive), if_pos room, paddingAt]

theorem findLoop_misfit (misfit : ¬area.Fits nSlots alignSlots i) :
    area.findLoop nSlots alignSlots area.index (rounds + 1) i =
      if area.Closes i then .ok none
      else area.findLoop nSlots alignSlots area.index rounds (area.hop i) := by
  unfold Fits at misfit
  rcases Option.eq_none_or_eq_some (area.slots i).nSlots with count | ⟨available, count⟩
  · simp only [findLoop, if_neg (not_le.mpr inside), count, hop, Closes, skip, Option.getD_none]
  · have short : ¬nSlots + i % alignSlots ≤ available := fun room => misfit ⟨available, count, room⟩
    simp only [findLoop, if_neg (not_le.mpr inside), count,
      if_neg (pos_iff_ne_zero.mp positive), if_neg short, hop, Closes, skip, Option.getD_some]

end Round

theorem hop_lt (area : AreaInner) (i : Nat) (inside : i < area.len) : area.hop i < area.len :=
  Nat.mod_lt _ (by omega)

theorem visit_lt (start : area.index < area.len) (k : Nat) : area.visit k < area.len :=
  iterate_lt area.hop_lt start k

theorem findLoop_visit (start : area.index < area.len) (positive : 0 < alignSlots)
    (going : ∀ j < k, ¬area.Fits nSlots alignSlots (area.visit j) ∧ ¬area.Closes (area.visit j)) :
    area.findLoop nSlots alignSlots area.index (k + rounds) area.index =
      area.findLoop nSlots alignSlots area.index rounds (area.visit k) := by
  induction k generalizing rounds with
  | zero => rw [zero_add]; rfl
  | succ k ih =>
    obtain ⟨misfit, open'⟩ := going k (Nat.lt_succ_self k)
    rw [add_assoc, add_comm 1 rounds, ih fun j less => going j (Nat.lt_succ_of_lt less),
      findLoop_misfit (visit_lt start k) positive misfit, if_neg open']
    exact congrArg _ (Function.iterate_succ_apply' area.hop k area.index).symm

section Counted

theorem isFree_iff :
    (area.slots i).isFree = true ↔ (area.slots i).nSlots = some (area.count i) := by
  unfold SlotMeta.isFree count
  cases (area.slots i).nSlots <;> simp

theorem skip_of_free (free : (area.slots i).isFree = true) : area.skip i = area.count i := by
  rw [skip, isFree_iff.mp free, Option.getD_some]

theorem skip_of_taken (taken : (area.slots i).isFree = false) : area.skip i = 1 := by
  rw [SlotMeta.isFree, Option.isSome_eq_false_iff, Option.isNone_iff_eq_none] at taken
  rw [skip, taken, Option.getD_none]

theorem fits_iff (free : (area.slots i).isFree = true) :
    area.Fits nSlots alignSlots i ↔ nSlots + i % alignSlots ≤ area.count i := by
  rw [Fits, isFree_iff.mp free]
  simp

theorem Fits.isFree (fits : area.Fits nSlots alignSlots i) : (area.slots i).isFree = true := by
  obtain ⟨available, stored, -⟩ := fits
  rw [SlotMeta.isFree, stored, Option.isSome_some]

theorem visit_succ (area : AreaInner) (k : Nat) : area.visit (k + 1) = area.hop (area.visit k) :=
  Function.iterate_succ_apply' area.hop k area.index

/-- The run that a free slot belongs to. -/
theorem runFirst_of_free (inside : i < area.len) (free : (area.slots i).isFree = true) :
    ∃ first ≤ i, area.RunFirst first ∧
      ∀ slot, first ≤ slot → slot ≤ i → (area.slots slot).isFree = true := by
  induction i with
  | zero =>
    refine ⟨0, le_rfl, ⟨inside, free, fun j before => by omega⟩, fun slot _ high => ?_⟩
    rwa [Nat.le_zero.mp high]
  | succ i ih =>
    cases before : (area.slots i).isFree with
    | true =>
      obtain ⟨first, low, isFirst, run⟩ := ih (by omega) before
      refine ⟨first, by omega, isFirst, fun slot from' to' => ?_⟩
      rcases Nat.lt_or_ge i slot with last | earlier
      · rwa [show slot = i + 1 by omega]
      · exact run slot from' earlier
    | false =>
      refine ⟨i + 1, le_rfl, ⟨inside, free, fun j same => ?_⟩, fun slot from' to' => ?_⟩
      · rwa [show j = i by omega]
      · rwa [show slot = i + 1 by omega]

/-- An area with no free slot has no count to be wrong. -/
theorem counted_of_full (start : area.index < area.len)
    (full : ∀ i < area.len, (area.slots i).isFree = false) : area.Counted where
  index_lt := start
  pos i inside free := absurd (free.symm.trans (full i inside)) (by decide)
  free i inside free := absurd (free.symm.trans (full i inside)) (by decide)
  ends i inside free := absurd (free.symm.trans (full i inside)) (by decide)
  turns i inside free := absurd (free.symm.trans (full i inside)) (by decide)

variable (counted : area.Counted)

include counted

theorem Counted.skip_pos (inside : i < area.len) : 0 < area.skip i := by
  cases free : (area.slots i).isFree with
  | true =>
    rw [skip_of_free free]
    exact counted.pos i inside free
  | false =>
    rw [skip_of_taken free]
    exact Nat.one_pos

/-- A hop that leaves the area comes to its first slot. -/
theorem Counted.hop_eq_zero (inside : i < area.len) (leaves : area.len ≤ i + area.skip i) :
    area.hop i = 0 := by
  cases free : (area.slots i).isFree with
  | true =>
    rw [hop, skip_of_free free]
    rw [skip_of_free free] at leaves
    exact Nat.mod_eq_zero_of_dvd (counted.turns i inside free leaves)
  | false =>
    rw [skip_of_taken free] at leaves
    rw [hop, skip_of_taken free, show i + 1 = area.len by omega, Nat.mod_self]

/-- From a slot it comes to, the search comes to one whose hop passes any later slot. -/
theorem Counted.visit_covers (slot : Nat) (inside : slot < area.len) (low : area.visit k ≤ slot) :
    ∃ last ≥ k, area.visit last ≤ slot ∧ slot < area.visit last + area.skip (area.visit last) ∧
      area.visit k ≤ area.visit last ∧ ∀ j, k ≤ j → j < last →
        area.visit k ≤ area.visit j ∧ area.visit j + area.skip (area.visit j) ≤ slot := by
  -- By induction on the distance of the slot.
  induction distance : slot - area.visit k using Nat.strong_induction_on generalizing k with
  | _ distance ih =>
    by_cases passed : slot < area.visit k + area.skip (area.visit k)
    · exact ⟨k, le_rfl, low, passed, le_rfl, fun j from' before => by omega⟩
    · have onward := counted.skip_pos (show area.visit k < area.len by omega)
      have next : area.visit (k + 1) = area.visit k + area.skip (area.visit k) := by
        rw [visit_succ, hop, Nat.mod_eq_of_lt (by omega)]
      obtain ⟨last, later, below, above, high, between⟩ :=
        ih (slot - area.visit (k + 1)) (by omega) (by omega) rfl
      refine ⟨last, by omega, below, above, by omega, fun j from' before => ?_⟩
      rcases Nat.eq_or_lt_of_le from' with rfl | less
      · exact ⟨le_rfl, by omega⟩
      · have := between j less before
        omega

/-- The search comes to the first slot of the area, and to no slot before its start until then. -/
theorem Counted.visit_zero : ∃ k, area.visit k = 0 ∧ ∀ j < k, area.index ≤ area.visit j := by
  have start := counted.index_lt
  obtain ⟨last, -, below, above, high, between⟩ :=
    counted.visit_covers (k := 0) (area.len - 1) (by omega) (by change area.index ≤ _; omega)
  refine ⟨last + 1, ?_, fun j before => ?_⟩
  · rw [visit_succ]
    exact counted.hop_eq_zero (visit_lt start last) (by omega)
  · rcases Nat.lt_succ_iff_lt_or_eq.mp before with less | rfl
    · exact (between j (Nat.zero_le _) less).1
    · exact high

/-- The slot of a run whose hop passes a head is the head. -/
theorem Counted.eq_of_covers {first head : Nat} (inside : first < area.len)
    (isHead : area.Head head) (low : first ≤ head) (high : head < first + area.skip first)
    (start : head = area.index → first = head) : first = head := by
  cases free : (area.slots first).isFree with
  | false =>
    rw [skip_of_taken free] at high
    omega
  | true =>
    rw [skip_of_free free] at high
    rcases isHead.first with rfl | before
    · exact start rfl
    · by_contra different
      have taken := before (head - 1) (by omega)
      rw [counted.free first inside free (head - 1) (by omega) (by omega)
        (by have := isHead.inside; omega)] at taken
      cases taken

/-- The search comes to every head before it closes, and before it only to slots that are nearer to
its start. -/
theorem Counted.visit_head {head : Nat} (isHead : area.Head head) : ∃ k, area.visit k = head ∧
    ∀ j < k, ¬area.Closes (area.visit j) ∧ area.turn (area.visit j) < area.turn head := by
  have start := counted.index_lt
  have inside := isHead.inside
  rcases Nat.lt_or_ge head area.index with before | behind
  · -- The head stands before the start: the search comes to it after the end of the area.
    obtain ⟨wrap, atZero, firstTurn⟩ := counted.visit_zero
    obtain ⟨last, later, below, above, -, between⟩ :=
      counted.visit_covers (k := wrap) head inside (by omega)
    have here := counted.eq_of_covers (visit_lt start last) isHead below above (by omega)
    refine ⟨last, here, fun j less => ?_⟩
    rcases Nat.lt_or_ge j wrap with early | late
    · have := firstTurn j early
      have := visit_lt start j
      unfold Closes turn
      rw [if_pos (by omega), if_neg (by omega)]
      omega
    · have := (between j late less).2
      have := counted.skip_pos (visit_lt start j)
      unfold Closes turn
      rw [if_neg (by omega), if_neg (by omega)]
      omega
  · have low : area.visit 0 ≤ head := behind
    obtain ⟨last, -, below, above, high, between⟩ := counted.visit_covers head inside low
    have high : area.index ≤ area.visit last := high
    have here := counted.eq_of_covers (visit_lt start last) isHead below above (by omega)
    refine ⟨last, here, fun j less => ?_⟩
    obtain ⟨from', to'⟩ := between j (Nat.zero_le _) less
    have from' : area.index ≤ area.visit j := from'
    have := counted.skip_pos (visit_lt start j)
    unfold Closes turn
    rw [if_pos from', if_pos behind]
    omega

/-- A free slot that the search comes to is a head. -/
theorem Counted.head_of_visit (free : (area.slots (area.visit k)).isFree = true) :
    area.Head (area.visit k) := by
  have start := counted.index_lt
  refine ⟨visit_lt start k, free, ?_⟩
  cases k with
  | zero => exact .inl rfl
  | succ k =>
    right
    intro j before
    have here := visit_lt start k
    rw [visit_succ] at before free
    rcases Nat.lt_or_ge (area.visit k + area.skip (area.visit k)) area.len with stays | leaves
    · rw [hop, Nat.mod_eq_of_lt stays] at before free
      cases kind : (area.slots (area.visit k)).isFree with
      | true =>
        rw [skip_of_free kind] at free stays
        rw [counted.ends _ here kind stays] at free
        cases free
      | false =>
        rw [skip_of_taken kind] at before
        rw [show j = area.visit k by omega]
        exact kind
    · rw [counted.hop_eq_zero here leaves] at before
      omega

/-- The search closes exactly when it does not start at the first slot. -/
theorem Counted.closes_iff : (∃ k, area.Closes (area.visit k)) ↔ 0 < area.index := by
  constructor
  · rintro ⟨k, below, -⟩
    omega
  · intro positive
    have start := counted.index_lt
    obtain ⟨wrap, atZero, -⟩ := counted.visit_zero
    obtain ⟨last, -, below, above, -⟩ :=
      counted.visit_covers (k := wrap) (area.index - 1) (by omega) (by omega)
    exact ⟨last, by omega, by omega⟩

/-- There is an aligned run exactly when some run has room behind its padding. -/
theorem Counted.alignedRun_iff (positive : 0 < alignSlots) (some : 0 < nSlots) :
    area.AlignedRun nSlots alignSlots ↔ ∃ i, area.RunFirst i ∧
      i + (alignSlots - i % alignSlots) % alignSlots + nSlots ≤ area.runEnd i := by
  constructor
  · rintro ⟨aligned, multiple, room, free⟩
    obtain ⟨first, low, isFirst, run⟩ :=
      runFirst_of_free (show aligned < area.len by omega) (free aligned le_rfl (by omega))
    refine ⟨first, isFirst, ?_⟩
    have padded := add_padding_le positive low multiple
    have long : aligned + nSlots ≤ first + area.count first := by
      by_contra short
      have taken := counted.ends first isFirst.inside isFirst.free (by omega)
      rcases Nat.lt_or_ge aligned (first + area.count first) with behind | before
      · rw [free _ behind.le (by omega)] at taken
        cases taken
      · rw [run _ (by omega) before] at taken
        cases taken
    unfold runEnd
    omega
  · rintro ⟨i, isFirst, room⟩
    refine ⟨_, dvd_add_padding positive i, by unfold runEnd at room; omega, fun slot low high => ?_⟩
    unfold runEnd at room
    exact counted.free i isFirst.inside isFirst.free slot (by omega) (by omega) (by omega)

end Counted

end AreaInner

/-- A search: an area whose counts are as documented, and a request. -/
structure Search where
  area : AreaInner
  counted : area.Counted
  nSlots : Nat
  alignSlots : Nat
  align_pos : 0 < alignSlots

namespace Search

variable (search : Search)

def run : Except IotlbPanic (Option (Nat × Nat)) :=
  search.area.findConsecutiveFree search.nSlots search.alignSlots

/-- The free slots from `i` on are enough, with the padding. -/
def Fits (i : Nat) : Prop := search.area.Fits search.nSlots search.alignSlots i

/-- The area has an aligned run of free slots that is long enough. -/
def Available : Prop := search.area.AlignedRun search.nSlots search.alignSlots

/-- What the search has to be: it returns, with nothing only if there is nothing. -/
def Complete : Prop := ∃ answer, search.run = .ok answer ∧ (answer = none → ¬search.Available)

variable {search}

/-- The search ends at the first place that fits. -/
theorem run_first {k : Nat}
    (ends : search.Fits (search.area.visit k) ∨ search.area.Closes (search.area.visit k))
    (first : ∀ j < k, ¬search.Fits (search.area.visit j) ∧
      ¬search.area.Closes (search.area.visit j)) : (search.Fits (search.area.visit k) → search.run =
        .ok (some (paddingAt search.alignSlots (search.area.visit k),
          search.area.visit k))) ∧
      (¬search.Fits (search.area.visit k) → search.run = .ok none) := by
  have bound : k < search.area.len := by
    obtain ⟨j, small, same⟩ := iterate_repeats search.area.hop_lt search.counted.index_lt k
    have again : search.area.visit j = search.area.visit k := same
    rw [← again] at ends
    by_contra large
    have none := first j (by omega)
    tauto
  obtain ⟨rest, rounds⟩ : ∃ rest, 2 * search.area.len + 1 = k + (rest + 1) :=
    ⟨2 * search.area.len - k, by omega⟩
  have reached : search.area.findLoop search.nSlots search.alignSlots search.area.index
      (k + (rest + 1)) search.area.index = search.area.findLoop search.nSlots search.alignSlots
        search.area.index (rest + 1) (search.area.visit k) :=
    findLoop_visit search.counted.index_lt search.align_pos first
  have inside := visit_lt search.counted.index_lt k
  rw [run, findConsecutiveFree, rounds, reached]
  refine ⟨fun fits => findLoop_fits inside search.align_pos fits _, fun misfit => ?_⟩
  rw [findLoop_misfit inside search.align_pos misfit, if_pos (ends.resolve_left misfit)]

/-- A search that meets no place to end at goes on for ever. -/
theorem run_endless (never : ∀ k, ¬search.Fits (search.area.visit k) ∧
    ¬search.area.Closes (search.area.visit k)) : search.run = .error .endlessLoop := by
  have reached : search.area.findLoop search.nSlots search.alignSlots search.area.index
      (2 * search.area.len + 1 + 0) search.area.index = .error .endlessLoop :=
    findLoop_visit search.counted.index_lt search.align_pos fun j _ => never j
  exact reached

end Search

/-- The slot that a search takes: of the heads with room, the nearest to its start. -/
structure AreaInner.FirstFit (area : AreaInner) (nSlots alignSlots i : Nat) : Prop where
  head : area.Head i
  room : nSlots + i % alignSlots ≤ area.count i
  nearest : ∀ other, area.Head other → nSlots + other % alignSlots ≤ area.count other →
    area.turn i ≤ area.turn other

namespace Search

variable {search : Search} {i : Nat}

/-- Slots at the same distance from the start are the same. -/
theorem turn_injective (search : Search) {i j : Nat} (inside : i < search.area.len)
    (inside' : j < search.area.len) (same : search.area.turn i = search.area.turn j) : i = j := by
  have := search.counted.index_lt
  unfold turn at same
  split_ifs at same <;> omega

/-- A search that has room somewhere takes the first fit. -/
theorem run_firstFit (isHead : search.area.Head i)
    (room : search.nSlots + i % search.alignSlots ≤ search.area.count i) :
    ∃ found, search.area.FirstFit search.nSlots search.alignSlots found ∧
      search.run = .ok (some (paddingAt search.alignSlots found, found)) := by
  classical
  have counted := search.counted
  obtain ⟨k, rfl, before⟩ := counted.visit_head isHead
  have ended : ∃ k, search.Fits (search.area.visit k) ∨ search.area.Closes (search.area.visit k) :=
    ⟨k, .inl ((fits_iff isHead.free).mpr room)⟩
  have first (j : Nat) (less : j < Nat.find ended) := not_or.mp (Nat.find_min ended less)
  -- The search cannot close before it has come to the head.
  have fits : search.Fits (search.area.visit (Nat.find ended)) := by
    have bound : Nat.find ended ≤ k := Nat.find_min' ended (.inl ((fits_iff isHead.free).mpr room))
    rcases Nat.eq_or_lt_of_le bound with same | less
    · rw [same]
      exact (fits_iff isHead.free).mpr room
    · exact (Nat.find_spec ended).resolve_right (before _ less).1
  refine ⟨_, ⟨counted.head_of_visit fits.isFree, (fits_iff fits.isFree).mp fits, ?_⟩,
    (run_first (.inl fits) first).1 fits⟩
  intro other isHead room
  obtain ⟨k', rfl, before⟩ := counted.visit_head isHead
  rcases Nat.lt_or_ge k' (Nat.find ended) with less | more
  · exact absurd ((fits_iff isHead.free).mpr room) (first k' less).1
  · rcases Nat.eq_or_lt_of_le more with same | less
    · rw [same]
    · exact (before _ less).2.le

/-- A search that has room nowhere returns nothing, if it does not start at the first slot, and does
not return else. -/
theorem run_misfit (misfit : ∀ i, search.area.Head i →
    ¬search.nSlots + i % search.alignSlots ≤ search.area.count i) :
    search.run = if 0 < search.area.index then .ok none else .error .endlessLoop := by
  classical
  have counted := search.counted
  have never (k : Nat) : ¬search.Fits (search.area.visit k) := fun fits =>
    misfit _ (counted.head_of_visit fits.isFree) ((fits_iff fits.isFree).mp fits)
  split
  case isTrue positive =>
    have closes := counted.closes_iff.mpr positive
    exact (run_first (.inr (Nat.find_spec closes))
      fun j less => ⟨never j, Nat.find_min closes less⟩).2 (never _)
  case isFalse first =>
    exact run_endless fun k => ⟨never k, fun closes => first (counted.closes_iff.mp ⟨k, closes⟩)⟩

theorem run_of_firstFit (fit : search.area.FirstFit search.nSlots search.alignSlots i) :
    search.run = .ok (some (paddingAt search.alignSlots i, i)) := by
  obtain ⟨found, first, ran⟩ := run_firstFit fit.head fit.room
  have same : found = i := search.turn_injective first.head.inside fit.head.inside
    (le_antisymm (first.nearest i fit.head fit.room) (fit.nearest found first.head first.room))
  rw [ran, same]

/-- What a search finds, in terms of the free runs. -/
theorem run_some_iff {padding : Nat} : search.run = .ok (some (padding, i)) ↔
    search.area.FirstFit search.nSlots search.alignSlots i ∧
      padding = paddingAt search.alignSlots i := by
  constructor
  · intro ran
    by_cases found : ∃ i, search.area.Head i ∧
        search.nSlots + i % search.alignSlots ≤ search.area.count i
    · obtain ⟨other, isHead, room⟩ := found
      obtain ⟨first, fit, again⟩ := run_firstFit isHead room
      rw [again] at ran
      cases ran
      exact ⟨fit, rfl⟩
    · rw [run_misfit fun i isHead room => found ⟨i, isHead, room⟩] at ran
      split at ran <;> cases ran
  · rintro ⟨fit, rfl⟩
    exact run_of_firstFit fit

/-- When a search finds nothing. -/
theorem run_none_iff : search.run = .ok none ↔ 0 < search.area.index ∧
    ∀ i, search.area.Head i → ¬search.nSlots + i % search.alignSlots ≤ search.area.count i := by
  constructor
  · intro ran
    have misfit : ∀ i, search.area.Head i →
        ¬search.nSlots + i % search.alignSlots ≤ search.area.count i := by
      intro i isHead room
      obtain ⟨first, -, again⟩ := run_firstFit isHead room
      rw [again] at ran
      cases ran
    rw [run_misfit misfit] at ran
    split at ran
    case isTrue positive => exact ⟨positive, misfit⟩
    case isFalse => cases ran
  · rintro ⟨positive, misfit⟩
    rw [run_misfit misfit, if_pos positive]

end Search

section

variable {area : AreaInner} {nSlots alignSlots padding i : Nat} (counted : area.Counted)
  (positive : 0 < alignSlots)
include counted positive

theorem search_some_iff : area.findConsecutiveFree nSlots alignSlots = .ok (some (padding, i)) ↔
    area.FirstFit nSlots alignSlots i ∧ padding = paddingAt alignSlots i :=
  @Search.run_some_iff ⟨area, counted, nSlots, alignSlots, positive⟩ i padding

theorem search_none_iff : area.findConsecutiveFree nSlots alignSlots = .ok none ↔
    0 < area.index ∧ ∀ i, area.Head i → ¬nSlots + i % alignSlots ≤ area.count i :=
  @Search.run_none_iff ⟨area, counted, nSlots, alignSlots, positive⟩

end

/-- An area with no free slot, in the state in which the last allocation leaves it. -/
def fullArea : Search where
  area := ⟨slotsPerArea, 0, 0, slotsPerArea, fun _ => ⟨0, slotSize, none, 0⟩⟩
  counted := counted_of_full (by decide) fun _ _ => rfl
  nSlots := 1
  alignSlots := 1
  align_pos := by decide

end Horizon.Iotlb
