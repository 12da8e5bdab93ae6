import Horizon.Kernel.PageEntry

/-!
# What an encoded entry decodes to

Every bit of `X86PageFlags::from` is the flag it stands for. A mapped entry keeps its present bit,
its size bit and its frame, except that the memory-type bit of a large write-combining leaf lands in
the frame number.
-/

namespace Horizon.Paging

open Nat

theorem pageSize_eq : pageSize = 2 ^ 12 := rfl

theorem testBit_flag (flag : Bool) (i k : Nat) :
    (if flag then 2 ^ i else 0).testBit k = (flag && decide (i = k)) := by
  cases flag <;> simp [testBit_two_pow]

theorem testBit_fromFlags (flags : PageFlags) (level k : Nat) : (fromFlags flags level).testBit k =
      (flags.present && decide (0 = k) || flags.writable && decide (1 = k) ||
        flags.user && decide (2 = k) || (flags.hugePage && hugePage level) && decide (7 = k) ||
        flags.global && decide (8 = k) ||
        (cacheBits flags.cacheType (flags.hugePage && hugePage level) level).testBit k) := by
  simp only [fromFlags, testBit_or, testBit_flag]

section

variable (cacheType : PageCacheType) (huge : Bool) (level : Nat)
include cacheType huge level

theorem cacheBits_lt (ordinary : ¬(cacheType = .writeCombine ∧ 0 < level ∧ huge)) :
    cacheBits cacheType huge level < 2 ^ 8 := by
  cases cacheType with
  | writeCombine =>
    have small : ¬(0 < level ∧ huge) := fun large => ordinary ⟨rfl, large⟩
    simp only [cacheBits, if_neg small]
    split <;> decide
  | writeBack | writeThrough | uncached | uncachedMinus =>
    simp only [cacheBits]
    decide

theorem testBit_cacheBits_seven : (cacheBits cacheType huge level).testBit 7 =
      (decide (cacheType = .writeCombine) && decide (level = 0)) := by
  cases cacheType with
  | writeCombine =>
    by_cases zero : level = 0
    · subst zero
      simp only [cacheBits, lt_irrefl, false_and, if_false, if_true]
      decide
    · by_cases large : 0 < level ∧ huge
      · simp only [cacheBits, if_pos large, zero]
        decide
      · simp only [cacheBits, if_neg large, zero]
        decide
  | writeBack | writeThrough | uncached | uncachedMinus =>
    simp only [cacheBits, reduceCtorEq, decide_false, Bool.false_and]
    decide

theorem testBit_cacheBits_zero : (cacheBits cacheType huge level).testBit 0 = false := by
  cases cacheType with
  | writeCombine =>
    simp only [cacheBits]
    split
    · decide
    · split <;> decide
  | writeBack | writeThrough | uncached | uncachedMinus =>
    simp only [cacheBits]
    decide

end

theorem newMapped_eq (frame : Nat) (flags : PageFlags) (level : Nat) :
    newMapped frame flags level = frame * 2 ^ 12 ||| fromFlags flags level := by
  rw [newMapped, setFlags, pageSize_eq, Nat.mul_div_cancel _ (by decide)]

theorem testBit_newMapped (frame : Nat) (flags : PageFlags) {level k : Nat} (low : k < 12) :
    (newMapped frame flags level).testBit k = (fromFlags flags level).testBit k := by
  rw [newMapped_eq, testBit_or, testBit_mul_two_pow]
  simp [not_le.mpr low]

@[simp] theorem isPresent_newMapped (frame : Nat) (flags : PageFlags) (level : Nat) :
    isPresent (newMapped frame flags level) = flags.present := by
  rw [isPresent, testBit_newMapped frame flags (by decide), testBit_fromFlags,
    testBit_cacheBits_zero]
  simp

theorem isHuge_eq (word level : Nat) : isHuge word level = word.testBit 7 := by
  show (word % pageSize).testBit 7 = word.testBit 7
  rw [pageSize_eq, testBit_mod_two_pow]
  simp

theorem isHuge_newMapped (frame : Nat) (flags : PageFlags) (level at' : Nat) :
    isHuge (newMapped frame flags level) at' =
      (flags.hugePage && hugePage level ||
        decide (flags.cacheType = .writeCombine) && decide (level = 0)) := by
  rw [isHuge_eq, testBit_newMapped frame flags (by decide), testBit_fromFlags,
    testBit_cacheBits_seven]
  simp

theorem fromFlags_lt (flags : PageFlags) (level : Nat)
    (ordinary : ¬(flags.cacheType = .writeCombine ∧ 0 < level ∧
      (flags.hugePage && hugePage level) = true)) : fromFlags flags level < pageSize := by
  have cache := cacheBits_lt _ _ _ ordinary
  have wide : cacheBits flags.cacheType (flags.hugePage && hugePage level) level < 2 ^ 12 :=
    lt_trans cache (by decide)
  have flag : ∀ (set : Bool) (i : Nat), i < 12 → (if set then 2 ^ i else 0) < 2 ^ 12 := by
    intro set i low
    cases set
    · exact Nat.two_pow_pos 12
    · exact Nat.pow_lt_pow_right (by decide) low
  rw [fromFlags]
  exact or_lt_two_pow (or_lt_two_pow (or_lt_two_pow (or_lt_two_pow
    (or_lt_two_pow (flag _ 0 (by decide)) (flag _ 1 (by decide))) (flag _ 2 (by decide)))
      (flag _ 7 (by decide))) (flag _ 8 (by decide))) wide

variable {flags : PageFlags} {level : Nat}

section

variable (frame : Nat)
  (ordinary : ¬(flags.cacheType = .writeCombine ∧ 0 < level ∧
    (flags.hugePage && hugePage level) = true))
include frame ordinary

theorem newMapped_ordinary :
    newMapped frame flags level = frame * pageSize + fromFlags flags level := by
  rw [newMapped_eq, mul_comm, ← two_pow_add_eq_or_of_lt (fromFlags_lt flags level ordinary),
    pageSize_eq, mul_comm]

theorem newMapped_div_mod : newMapped frame flags level / pageSize = frame ∧
      newMapped frame flags level % pageSize = fromFlags flags level := by
  have small := fromFlags_lt flags level ordinary
  have positive : 0 < pageSize := by decide
  rw [newMapped_ordinary frame ordinary, mul_comm, mul_add_div positive,
    mul_add_mod, div_eq_of_lt small, mod_eq_of_lt small]
  exact ⟨add_zero frame, rfl⟩

end

theorem newMapped_table (frame : Nat) (flags : PageFlags) (level : Nat) :
    let word := newMapped frame { flags with hugePage := false, cacheType := .writeBack } level
    isPresent word = flags.present ∧ isHuge word level = false ∧ word / pageSize = frame := by
  intro word
  refine ⟨isPresent_newMapped _ _ _, ?_, (newMapped_div_mod frame (by simp)).1⟩
  rw [isHuge_newMapped]
  simp

theorem newMapped_small (frame : Nat) (flags : PageFlags) :
    newMapped frame { flags with hugePage := false } 0 = newMapped frame flags 0 := by
  simp [newMapped, setFlags, fromFlags, hugePage]

theorem newMapped_writeCombine_div (frame : Nat)
    (combine : flags.cacheType = .writeCombine) (above : 0 < level)
    (large : (flags.hugePage && hugePage level) = true) :
    newMapped frame flags level / pageSize = frame ||| 1 := by
  apply eq_of_testBit_eq
  intro k
  rw [pageSize_eq, testBit_div_two_pow, newMapped_eq, testBit_or,
    testBit_mul_two_pow, testBit_fromFlags, combine, cacheBits]
  simp only [above, large, and_self, if_true, testBit_or, testBit_two_pow]
  have high : ∀ i, i < 12 → decide (i = k + 12) = false := fun i low => decide_eq_false (by omega)
  rw [high 0 (by decide), high 1 (by decide), high 2 (by decide), high 7 (by decide),
    high 8 (by decide), high 3 (by decide)]
  cases k with
  | zero => simp
  | succ k => simp [testBit_succ]

/-- A present entry with the flags that the format has and software sets, large only where the level
has large leaves, and write-combining only for a leaf. -/
structure LegalFlags (flags : PageFlags) (level : Nat) : Prop where
  present : flags.present = true
  noExecute : flags.noExecute = false
  accessed : flags.accessed = false
  dirty : flags.dirty = false
  large : flags.hugePage = true → hugePage level = true
  combine : flags.cacheType = .writeCombine → level = 0 ∨ flags.hugePage = true

theorem LegalFlags.huge_eq (legal : LegalFlags flags level) :
    (flags.hugePage && hugePage level) = flags.hugePage := by
  cases large : flags.hugePage with
  | false => rfl
  | true => rw [legal.large large]; rfl

def decodedCache : PageCacheType → Nat → PageCacheType
  | .writeCombine, 0 => .writeCombine
  | .writeCombine, _ => .writeThrough
  | .uncached, _ => .uncachedMinus
  | .uncachedMinus, _ => .uncached
  | other, _ => other

theorem testBit_cacheBits_low (cacheType : PageCacheType) (huge : Bool) (level : Nat) {k : Nat}
    (low : k < 12) (leaf : cacheType = .writeCombine → level = 0 ∨ huge = true) :
    (cacheBits cacheType huge level).testBit k =
      (decide (cacheType = .writeThrough ∨ cacheType = .uncached ∨ cacheType = .writeCombine) &&
          decide (3 = k) ||
        decide (cacheType = .uncached ∨ cacheType = .uncachedMinus) && decide (4 = k) ||
        decide (cacheType = .writeCombine ∧ level = 0) && decide (7 = k)) := by
  have twelve : decide (12 = k) = false := decide_eq_false (by omega)
  cases cacheType with
  | writeBack => simp [cacheBits]
  | writeThrough =>
    simp only [cacheBits, testBit_two_pow]
    simp
  | uncached =>
    simp only [cacheBits, testBit_or, testBit_two_pow]
    simp [Bool.or_comm]
  | uncachedMinus =>
    simp only [cacheBits, testBit_two_pow]
    simp
  | writeCombine =>
    rcases Nat.eq_zero_or_pos level with zero | above
    · simp only [cacheBits, zero, lt_irrefl, false_and, if_false, if_true, testBit_or,
        testBit_two_pow]
      simp [Bool.or_comm]
    · have large : huge = true := (leaf rfl).resolve_left (ne_of_gt above)
      simp only [cacheBits, above, large, and_self, if_true, testBit_or, testBit_two_pow, twelve]
      simp [ne_of_gt above]

theorem testBit_fromFlags_legal {k : Nat} (legal : LegalFlags flags level) (low : k < 12) :
    (fromFlags flags level).testBit k =
      (decide (0 = k) || flags.writable && decide (1 = k) || flags.user && decide (2 = k) ||
        flags.hugePage && decide (7 = k) || flags.global && decide (8 = k) ||
        (decide (flags.cacheType = .writeThrough ∨ flags.cacheType = .uncached ∨
            flags.cacheType = .writeCombine) && decide (3 = k) ||
          decide (flags.cacheType = .uncached ∨ flags.cacheType = .uncachedMinus) &&
            decide (4 = k) ||
          decide (flags.cacheType = .writeCombine ∧ level = 0) && decide (7 = k))) := by
  rw [testBit_fromFlags, legal.huge_eq, testBit_cacheBits_low _ _ _ low legal.combine,
    legal.present]
  simp

section

variable (frame : Nat) (legal : LegalFlags flags level)
include frame legal

theorem entryFlags_newMapped : entryFlags (newMapped frame flags level) level = { flags with
      hugePage := flags.hugePage || decide (flags.cacheType = .writeCombine ∧ level = 0)
      cacheType := decodedCache flags.cacheType level } := by
  have bits : ∀ k < 12, (newMapped frame flags level % pageSize).testBit k =
      (fromFlags flags level).testBit k := by
    intro k low
    rw [pageSize_eq, testBit_mod_two_pow, testBit_newMapped frame flags low]
    simp [low]
  have twelve : (newMapped frame flags level % pageSize).testBit 12 = false := by
    rw [pageSize_eq, testBit_mod_two_pow]
    simp
  unfold entryFlags asPageFlags
  rw [bits 0 (by decide), bits 1 (by decide), bits 2 (by decide), bits 3 (by decide),
    bits 4 (by decide), bits 5 (by decide), bits 6 (by decide), bits 7 (by decide),
    bits 8 (by decide), twelve]
  simp only [testBit_fromFlags_legal legal (by decide : 0 < 12),
    testBit_fromFlags_legal legal (by decide : 1 < 12),
    testBit_fromFlags_legal legal (by decide : 2 < 12),
    testBit_fromFlags_legal legal (by decide : 3 < 12),
    testBit_fromFlags_legal legal (by decide : 4 < 12),
    testBit_fromFlags_legal legal (by decide : 5 < 12),
    testBit_fromFlags_legal legal (by decide : 6 < 12),
    testBit_fromFlags_legal legal (by decide : 7 < 12),
    testBit_fromFlags_legal legal (by decide : 8 < 12)]
  rcases flags with ⟨present, writable, user, noExecute, global, accessed, dirty, huge, cacheType⟩
  obtain ⟨rfl, rfl, rfl, rfl, large, _⟩ := legal
  cases level with
  | zero =>
    have small : huge = false := by
      cases huge with
      | false => rfl
      | true => cases large rfl
    cases cacheType <;> simp [decodedCache, small]
  | succ level => cases cacheType <;> simp [decodedCache]

theorem newMapped_div : newMapped frame flags level / pageSize =
      if flags.cacheType = .writeCombine ∧ 0 < level then frame ||| 1 else frame := by
  by_cases combine : flags.cacheType = .writeCombine ∧ 0 < level
  · have large := (legal.combine combine.1).resolve_left (ne_of_gt combine.2)
    rw [if_pos combine]
    exact newMapped_writeCombine_div frame combine.1 combine.2 (legal.huge_eq.trans large)
  · rw [if_neg combine]
    exact (newMapped_div_mod frame fun large => combine ⟨large.1, large.2.1⟩).1

theorem frameNumber_newMapped : frameNumber (newMapped frame flags level) =
      some (if flags.cacheType = .writeCombine ∧ 0 < level then frame ||| 1 else frame) := by
  rw [frameNumber, isPresent_newMapped, legal.present, if_pos rfl, newMapped_div frame legal]

end

theorem setFlags_eq (word : Nat) (flags : PageFlags) (level : Nat) :
    setFlags word flags level = newMapped (word / pageSize) flags level := by
  rw [newMapped, setFlags, setFlags, Nat.mul_div_cancel _ (by decide)]

theorem or_one_ne_of_aligned {frame : Nat} (aligned : levelCount level ∣ frame)
    (above : 0 < level) : frame ||| 1 ≠ frame := by
  have two : 2 ∣ levelCount level := by
    unfold levelCount levelShift indexBits
    exact dvd_pow_self 2 (by omega)
  obtain ⟨half, rfl⟩ := two.trans aligned
  intro same
  have bit := congrArg (fun number => number.testBit 0) same
  simp at bit

/-- An entry to write and read back: a frame aligned to the level with legal flags, and other legal
flags that may replace them. -/
structure Encoding where
  level : Nat
  frame : Nat
  aligned : levelCount level ∣ frame
  flags : PageFlags
  legal : LegalFlags flags level
  others : PageFlags
  othersLegal : LegalFlags others level

namespace Encoding

def word (e : Encoding) : Nat := newMapped e.frame e.flags e.level

/-- The frame and the flags read back as they were written, and changing the flags does not change
the frame that is read. -/
def Right (e : Encoding) : Prop :=
  frameNumber e.word = some e.frame ∧ entryFlags e.word e.level = e.flags ∧
    frameNumber (setFlags e.word e.others e.level) = frameNumber e.word

theorem decodedCache_eq_iff (cacheType : PageCacheType) (level : Nat) :
    decodedCache cacheType level = cacheType ↔ cacheType = .writeBack ∨
      cacheType = .writeThrough ∨ cacheType = .writeCombine ∧ level = 0 := by
  cases cacheType <;> cases level <;> simp [decodedCache]

/-- An entry reads back right exactly when its memory type is write-back or write-through, and the
flags that replace its own are not those of a large write-combining leaf. -/
theorem roundTrips_iff (e : Encoding) :
    e.Right ↔ (e.flags.cacheType = .writeBack ∨ e.flags.cacheType = .writeThrough) ∧
      ¬ (e.others.cacheType = .writeCombine ∧ 0 < e.level) := by
  have decoded := entryFlags_newMapped e.frame e.legal
  have frame := frameNumber_newMapped e.frame e.legal
  constructor
  · rintro ⟨sameFrame, sameFlags, kept⟩
    have type := congrArg PageFlags.cacheType (decoded.symm.trans sameFlags)
    have large := congrArg PageFlags.hugePage (decoded.symm.trans sameFlags)
    have ordinary : e.flags.cacheType = .writeBack ∨ e.flags.cacheType = .writeThrough := by
      rcases (decodedCache_eq_iff _ _).mp type with back | through | combine
      · exact .inl back
      · exact .inr through
      · -- A small write-combining leaf reads back as a large one.
        have huge : e.flags.hugePage = true := by simpa [combine.1, combine.2] using large
        have impossible := e.legal.large huge
        rw [combine.2] at impossible
        cases impossible
    refine ⟨ordinary, fun combine => ?_⟩
    rw [setFlags_eq, frameNumber_newMapped _ e.othersLegal, if_pos combine, sameFrame] at kept
    have word : e.word / pageSize = e.frame := by
      have read := newMapped_div e.frame e.legal
      rw [if_neg (by rcases ordinary with back | back <;> simp [back])] at read
      exact read
    rw [word] at kept
    exact or_one_ne_of_aligned e.aligned combine.2 (Option.some.inj kept)
  · rintro ⟨ordinary, small⟩
    have plain : ¬ (e.flags.cacheType = .writeCombine ∧ 0 < e.level) := by
      rcases ordinary with back | back <;> simp [back]
    rw [if_neg plain] at frame
    have word : e.word / pageSize = e.frame := by
      have read := newMapped_div e.frame e.legal
      rw [if_neg plain] at read
      exact read
    refine ⟨frame, ?_, ?_⟩
    · refine decoded.trans ?_
      have type : decodedCache e.flags.cacheType e.level = e.flags.cacheType :=
        (decodedCache_eq_iff _ _).mpr (ordinary.imp_right .inl)
      have notCombine : ¬ (e.flags.cacheType = .writeCombine ∧ e.level = 0) := by
        rcases ordinary with back | back <;> simp [back]
      rw [type, decide_eq_false notCombine, Bool.or_false]
    · rw [setFlags_eq, frameNumber_newMapped _ e.othersLegal, if_neg small, word]
      exact frame.symm

def uncachedFlags : PageFlags :=
  { PageFlags.new with hugePage := false, cacheType := .uncached }

theorem uncachedFlags_legal : LegalFlags uncachedFlags 0 where
  present := rfl
  noExecute := rfl
  accessed := rfl
  dirty := rfl
  large := nofun
  combine := nofun

theorem last_aligned (frame : Nat) : levelCount 0 ∣ frame := one_dvd frame

def uncachedPage : Encoding where
  level := 0
  frame := 1
  aligned := last_aligned 1
  flags := uncachedFlags
  legal := uncachedFlags_legal
  others := uncachedFlags
  othersLegal := uncachedFlags_legal

/-- The page reads back with another memory type: the bits of the two uncached types are read the
wrong way round. -/
theorem uncached_reads_as_minus : ¬ uncachedPage.Right := by
  intro right
  have type := congrArg PageFlags.cacheType right.2.1
  exact absurd type (by decide)

end Encoding

end Horizon.Paging
