import Horizon.Kernel.Frame

/-!
# Facts about frame metadata operations

Alignment and trailing zeros, reads after `replace`, `set_tail_frames` as one pointwise description,
and what `from_allocator` returns.
-/

namespace Horizon.Memory

open UniqueFrames Vmemmap

theorem le_trailingZerosIn (width k number : Nat) :
    k ≤ trailingZerosIn width number ↔ k ≤ width ∧ 2 ^ k ∣ number := by
  induction width generalizing k number with
  | zero =>
    constructor
    · intro bound
      obtain rfl := Nat.le_zero.mp bound
      exact ⟨le_refl 0, one_dvd number⟩
    · exact fun both => both.1
  | succ width ih =>
    cases k with
    | zero => simp
    | succ k =>
      unfold trailingZerosIn
      by_cases odd : number % 2 = 1
      · rw [if_pos odd]
        constructor
        · intro bound
          exact absurd bound (by omega)
        · rintro ⟨-, divides⟩
          have even : 2 ∣ number := dvd_trans (dvd_pow_self 2 (Nat.succ_ne_zero k)) divides
          omega
      · rw [if_neg odd, Nat.add_le_add_iff_right, ih, Nat.add_le_add_iff_right]
        have half : number = 2 * (number / 2) := by omega
        have shift : 2 ^ (k + 1) ∣ number ↔ 2 ^ k ∣ number / 2 := by
          conv_lhs => rw [half, pow_succ, mul_comm]
          exact Nat.mul_dvd_mul_iff_left (by decide)
        rw [shift]

theorem le_trailingZeros {k number : Nat} (small : k ≤ 64) :
    k ≤ trailingZeros number ↔ 2 ^ k ∣ number := by
  unfold trailingZeros
  rw [le_trailingZerosIn]
  exact ⟨fun both => both.2, fun divides => ⟨small, divides⟩⟩

theorem alignDown_of_dvd {frame order : Nat} (aligned : 2 ^ order ∣ frame) :
    alignDown frame order = frame :=
  Nat.div_mul_cancel aligned

theorem trailingZerosIn_le (width number : Nat) : trailingZerosIn width number ≤ width := by
  induction width generalizing number with
  | zero => exact le_refl 0
  | succ width ih =>
    rw [trailingZerosIn]
    split
    · exact Nat.zero_le _
    · exact Nat.succ_le_succ (ih _)

theorem two_pow_trailingZeros_dvd (number : Nat) : 2 ^ trailingZeros number ∣ number :=
  (le_trailingZeros (trailingZerosIn_le 64 number)).mp (le_refl _)

theorem getRaw_of_lt {frame : Nat} (inside : frame < vmemmapFrames) : getRaw frame = .ok frame :=
  if_pos inside

theorem getRaw_cases (frame : Nat) :
    getRaw frame = .ok frame ∨ getRaw frame = .error .vmemmapOutOfRange := by
  unfold getRaw
  split
  · exact .inl rfl
  · exact .inr rfl

variable (build : Build)

@[simp] theorem debugAssert_true (panic : Panic) : debugAssert build true panic = .ok () := by
  simp [debugAssert]

section Pointwise

variable (frames : Vmemmap) (frame other : Nat) (tag : FrameTag) (data : FrameData) (buddy : Buddy)

@[simp] theorem replace_self :
    frames.replace frame tag data frame = ⟨(frames frame).refcount, data, tag⟩ := by
  simp [Vmemmap.replace]

theorem replace_ne {other : Nat} (different : other ≠ frame) :
    frames.replace frame tag data other = frames other := by
  simp [replace, different]

@[simp] theorem setBuddy_self : frames.setBuddy frame buddy frame =
      ⟨(frames frame).refcount, .buddy buddy, (frames frame).tag⟩ := by
  simp [setBuddy]

theorem setBuddy_ne {other : Nat} (different : other ≠ frame) :
    frames.setBuddy frame buddy other = frames other := by
  simp [setBuddy, different]

@[simp] theorem replace_refcount :
    (frames.replace frame tag data other).refcount = (frames other).refcount := by
  by_cases same : other = frame
  · subst same
    rw [replace_self]
  · rw [replace_ne _ _ _ _ same]

@[simp] theorem setBuddy_refcount :
    (frames.setBuddy frame buddy other).refcount = (frames other).refcount := by
  by_cases same : other = frame
  · subst same
    rw [setBuddy_self]
  · rw [setBuddy_ne _ _ _ same]

@[simp] theorem setBuddy_tag : (frames.setBuddy frame buddy other).tag = (frames other).tag := by
  by_cases same : other = frame
  · subst same
    rw [setBuddy_self]
  · rw [setBuddy_ne _ _ _ same]

end Pointwise

variable {frames : Vmemmap}

variable {buddy : Buddy} {frame n : Nat}

theorem buddy_of_head (tag : (frames frame).tag = .buddy)
    (data : (frames frame).data = .buddy buddy) : frames.buddy frame = .ok buddy := by
  simp [Vmemmap.buddy, tag, data]

theorem setTailFrames_apply (frames : Vmemmap) (owned : UniqueFrames) (n : Nat) :
    owned.setTailFrames frames n =
      if owned.start < n ∧ n < owned.start + 2 ^ owned.order then
        ⟨(frames n).refcount, .range ⟨owned.start, owned.start + 2 ^ owned.order⟩, .tail⟩
      else frames n := by
  -- The fold over the first `count` offsets rewrites the first `count` frames after the head.
  have prefixes : ∀ count,
      (List.range count).foldl (fun frames i => replace frames (owned.start + (i + 1)) .tail
        (.range ⟨owned.start, owned.start + toCount owned.order⟩)) frames n =
      if owned.start < n ∧ n ≤ owned.start + count then
        ⟨(frames n).refcount, .range ⟨owned.start, owned.start + 2 ^ owned.order⟩, .tail⟩
      else frames n := by
    intro count
    induction count with
    | zero => simp [show ¬ (owned.start < n ∧ n ≤ owned.start) by omega]
    | succ count ih =>
      rw [List.range_succ, List.foldl_append, List.foldl_cons, List.foldl_nil]
      by_cases last : n = owned.start + (count + 1)
      · subst last
        rw [replace_self, ih, if_neg (by omega), if_pos (by omega)]
        rfl
      · rw [replace_ne _ _ _ _ last, ih]
        by_cases early : owned.start < n ∧ n ≤ owned.start + count
        · rw [if_pos early, if_pos (by omega)]
        · rw [if_neg early, if_neg (by omega)]
  have positive : 0 < 2 ^ owned.order := Nat.two_pow_pos owned.order
  unfold setTailFrames
  rw [prefixes]
  have same : (owned.start < n ∧ n ≤ owned.start + (toCount owned.order - 1)) ↔
      (owned.start < n ∧ n < owned.start + 2 ^ owned.order) := by
    unfold toCount
    omega
  simp only [same]

theorem fromAllocator_buddy (frames : Vmemmap) {order : Nat}
    (aligned : 2 ^ order ∣ frame) (inside : frame < vmemmapFrames)
    (exclusive : (frames frame).refcount = 0) (tag : (frames frame).tag = .buddy) :
    fromAllocator build frames frame order = .ok (some ⟨frame, order⟩) := by
  simp [fromAllocator, alignDown_of_dvd aligned, getRaw_of_lt inside, exclusive, tag,
    ownable, bind, Except.bind, pure, Except.pure]

/-- The panics that reading the record of a foreign frame can raise. -/
inductive NeighbourPanic : Panic → Prop
  | vmemmapOutOfRange : NeighbourPanic .vmemmapOutOfRange
  | frameNotExclusive : NeighbourPanic .frameNotExclusive
  | unionMismatch : NeighbourPanic .unionMismatch

theorem fromAllocator_cases (frames : Vmemmap) (frame order : Nat) :
    fromAllocator build frames frame order =
        .ok (some ⟨alignDown frame order, order⟩) ∨
      fromAllocator build frames frame order = .ok none ∨
      ∃ panic, NeighbourPanic panic ∧
        fromAllocator build frames frame order = .error panic := by
  rcases getRaw_cases (alignDown frame order) with found | missing
  swap
  · exact .inr (.inr ⟨_, .vmemmapOutOfRange, by
      simp [fromAllocator, missing, bind, Except.bind]⟩)
  by_cases exclusive : debugAssert build ((frames frame).refcount == 0) .frameNotExclusive = .ok ()
  swap
  · refine .inr (.inr ⟨_, .frameNotExclusive, ?_⟩)
    have raised : debugAssert build ((frames frame).refcount == 0) .frameNotExclusive =
        .error .frameNotExclusive := by
      unfold debugAssert at exclusive ⊢
      split at exclusive
      · rw [if_pos ‹_›]
      · exact absurd rfl exclusive
    simp [fromAllocator, found, raised, bind, Except.bind]
  unfold fromAllocator
  simp only [found, exclusive, bind, Except.bind, pure, Except.pure]
  split
  · cases read : (frames frame).data.getRange with
    | error panic =>
      refine .inr (.inr ⟨panic, ?_, rfl⟩)
      cases data : (frames frame).data <;> simp_all [FrameData.getRange] <;>
        (subst read; exact .unionMismatch)
    | ok range =>
      rcases getRaw_cases range.start with head | missing
      · simp only [head]
        split
        · exact .inl rfl
        · exact .inr (.inl rfl)
      · exact .inr (.inr ⟨_, .vmemmapOutOfRange, by simp only [missing]⟩)
  · split
    · exact .inl rfl
    · exact .inr (.inl rfl)

/-- A record that `from_allocator` can read without a panic, whatever its tag. -/
structure Readable (frames : Vmemmap) (frame : Nat) : Prop where
  exclusive : (frames frame).refcount = 0
  tail : (frames frame).tag = .tail →
    ∃ range, (frames frame).data = .range range ∧ range.start < vmemmapFrames

theorem Readable.replace {tag : FrameTag} {data : FrameData} (readable : Readable frames n)
    (head : tag ≠ .tail) : Readable (frames.replace frame tag data) n := by
  by_cases same : n = frame
  · subst same
    refine ⟨?_, ?_⟩ <;> rw [replace_self]
    · exact readable.exclusive
    · exact fun tail => absurd tail head
  · refine ⟨?_, ?_⟩ <;> rw [replace_ne _ _ _ _ same]
    · exact readable.exclusive
    · exact readable.tail

theorem Readable.setBuddy (readable : Readable frames n) (head : (frames frame).tag ≠ .tail) :
    Readable (frames.setBuddy frame buddy) n := by
  by_cases same : n = frame
  · subst same
    refine ⟨?_, ?_⟩ <;> rw [setBuddy_self]
    · exact readable.exclusive
    · exact fun tail => absurd tail head
  · refine ⟨?_, ?_⟩ <;> rw [setBuddy_ne _ _ _ same]
    · exact readable.exclusive
    · exact readable.tail

theorem Readable.setTailFrames {owned : UniqueFrames} (readable : Readable frames n)
    (inside : owned.start < vmemmapFrames) : Readable (owned.setTailFrames frames) n := by
  refine ⟨?_, ?_⟩ <;> rw [setTailFrames_apply]
  · split <;> exact readable.exclusive
  · split
    · exact fun _ => ⟨_, rfl, inside⟩
    · exact readable.tail

theorem fromAllocator_readable (order : Nat) (readable : Readable frames frame)
    (inside : frame < vmemmapFrames) :
    ∃ result, fromAllocator build frames frame order = .ok result := by
  have found : getRaw (alignDown frame order) = .ok (alignDown frame order) :=
    getRaw_of_lt (lt_of_le_of_lt (Nat.div_mul_le_self _ _) inside)
  unfold fromAllocator
  simp only [found, readable.exclusive, beq_self_eq_true, debugAssert_true, bind, Except.bind, pure,
    Except.pure]
  split
  · rename_i tag
    obtain ⟨range, data, head⟩ := readable.tail tag
    simp only [data, FrameData.getRange, getRaw_of_lt head]
    split <;> exact ⟨_, rfl⟩
  · split <;> exact ⟨_, rfl⟩

end Horizon.Memory
