import Horizon.Kernel.Vmemmap
import Horizon.Verif.PageIter

/-!
# The search for conflicts

`ensure_mapped` and `conflict_check` go through the entries of the page tables that meet the vmemmap
pages of a range. What a search over them finds is said by the pages: one that is not mapped, or a
leaf that is a hit.
-/

namespace Horizon.Memory

open Paging Runs Nat List FrameData

theorem onFrames_eq_ok {α : Type} {computation : Except Panic α} {value : α} :
    onFrames computation = .ok value ↔ computation = .ok value := by
  cases computation <;> simp [onFrames, Except.mapError]

theorem onPages_eq_ok {α : Type} {computation : Except PagePanic α} {value : α} :
    onPages computation = .ok value ↔ computation = .ok value := by
  cases computation <;> simp [onPages, Except.mapError]

variable {space : AddressSpace} {steps : List PtStep} {level rounds : Nat} {iter : PageTableIter}
  {α : Type}

theorem searchSteps_eq (visit : PtStep → Except Fault (Option α))
    (yields : PageTableIter.Yields space level iter steps)
    (enough : iter.callsLeft level < rounds) :
    searchSteps visit rounds iter (space.mem.hold (iter.heldBy level)) =
      (steps.findSomeM? visit).map fun found => (found, space.mem) := by
  induction yields generalizing rounds with
  | ended next dropped =>
    obtain ⟨rounds, rfl⟩ := exists_eq_succ_of_ne_zero (Nat.ne_zero_of_lt enough)
    simp only [searchSteps, onPages, next, dropped, Except.mapError, bind, Except.bind, pure_ok,
      findSomeM?, Except.map]
  | @step level below iter iter' step steps next standing fewer _ ih =>
    obtain ⟨rounds, rfl⟩ := exists_eq_succ_of_ne_zero (Nat.ne_zero_of_lt enough)
    have later := ih (fewer.trans_le (le_of_lt_succ enough))
    have dropped : iter'.lock.drop (space.mem.hold (iter'.heldBy below)) = .ok space.mem :=
      standing.locked.toPath.drop space.live
    simp only [searchSteps, onPages, next, Except.mapError, bind, Except.bind, findSomeM?]
    cases visit step with
    | error fault => rfl
    | ok found =>
      cases found with
      | none => exact later
      | some value => simp only [dropped, pure_ok, Except.map]

variable {visit : PtStep → Except Fault (Option α)} {result : Option α × PageMemory}

theorem searchSteps_mono {mem : PageMemory}
    {more : Nat} (searched : searchSteps visit rounds iter mem = .ok result) (le : rounds ≤ more) :
    searchSteps visit more iter mem = .ok result := by
  induction rounds generalizing iter mem more with
  | zero => cases searched
  | succ rounds ih =>
    obtain ⟨more, rfl⟩ := exists_eq_succ_of_ne_zero (Nat.ne_zero_of_lt le)
    rw [searchSteps] at searched ⊢
    obtain ⟨⟨step, iter', mem'⟩, next, rest⟩ := bind_eq_ok.mp searched
    refine bind_eq_ok.mpr ⟨_, next, ?_⟩
    cases step with
    | none => exact rest
    | some step =>
      obtain ⟨found, visited, rest⟩ := bind_eq_ok.mp rest
      refine bind_eq_ok.mpr ⟨found, visited, ?_⟩
      cases found with
      | some value => exact rest
      | none => exact ih rest (le_of_succ_le_succ le)

theorem searchSteps_ok (yields : PageTableIter.Yields space level iter steps)
    (searched : searchSteps visit rounds iter (space.mem.hold (iter.heldBy level)) = .ok result) :
    (steps.findSomeM? visit).map (fun found => (found, space.mem)) = .ok result := by
  rw [← searchSteps_eq visit yields (lt_succ_of_le (le_max_right rounds _))]
  exact searchSteps_mono searched (le_succ_of_le (le_max_left _ _))

def leafStart (space : AddressSpace) (page : Nat) : Option Nat :=
  match space.walk page with
  | .absent _ => none
  | .leaf _ level => some (levelMask level page)

section Pages

variable {space : AddressSpace} {first last place final : Nat} {steps : List PtStep}

theorem leafStart_of_reports {frame page : Nat} (aligned : levelCount level ∣ place)
    (reports : Reports space place level (.leaf place frame level))
    (low : place ≤ page) (high : page < place + levelCount level) :
    leafStart space page = some place := by
  cases reports with
  | leaf walks =>
    have block := (div_eq_iff_of_dvd (levelCount_pos level) aligned).mpr ⟨low, high⟩
    simp only [leafStart, walks page low high, levelMask, block, Nat.div_mul_cancel aligned]

section

variable {level : Nat} {step : PtStep} (reports : Reports space place level step)
include reports

theorem walk_level_of_reports : (space.walk place).level = level := by
  have inside : place < place + levelCount level := Nat.lt_add_of_pos_right (levelCount_pos level)
  cases reports with
  | absent walks =>
    rw [walks place (le_refl _) inside]
    rfl
  | leaf walks =>
    rw [walks place (le_refl _) inside]
    rfl

theorem entry_page (inside : place < last) (range : first < last)
    (meets : first < place + levelCount (space.walk place).level) :
    place ≤ max first place ∧ max first place < place + levelCount level ∧
      max first place < last := by
  rw [walk_level_of_reports reports] at meets
  have positive := levelCount_pos level
  omega

theorem entry_meets (meets : first < place + levelCount (space.walk place).level) :
    first < place + levelCount level ∧ first < place + levelCount level +
      levelCount (space.walk (place + levelCount level)).level := by
  rw [walk_level_of_reports reports] at meets
  have positive := levelCount_pos (space.walk (place + levelCount level)).level
  omega

end

theorem walk_level_le (mem : PageMemory) (page level table : Nat) :
    (mem.walk page level table).level ≤ level := by
  induction level generalizing table with
  | zero =>
    rw [PageMemory.walk]
    split <;> exact le_refl _
  | succ level ih =>
    rw [PageMemory.walk]
    split
    · exact le_refl _
    · split
      · exact le_refl _
      · exact le_succ_of_le (ih _)

/-- The first page of an absent entry that meets the pages from `first` up to `last`. -/
def AbsentEntry (first last page : Nat) : Prop :=
  ∃ level ≤ topLevel, levelCount level ∣ page ∧ page < last ∧ first < page + levelCount level

theorem absent_search (follows : Follows space last place steps final) (reach : last ≤ final)
    (range : first < last) (meets : first < place + levelCount (space.walk place).level) :
    ∃ found, steps.findSomeM? absentPage = .ok found ∧
      (found = none ↔ ∀ page, max first place ≤ page → page < last →
        leafStart space page ≠ none) ∧
      ∀ page, found = some page → AbsentEntry first last page := by
  induction follows with
  | done place =>
    refine ⟨none, rfl, iff_of_true rfl fun page low high => ?_, fun _ none => nomatch none⟩
    omega
  | table _ ih => exact ih reach meets
  | @entry place final level step steps inside aligned reports rest ih =>
    obtain ⟨low, high, before⟩ := entry_page reports inside range meets
    obtain ⟨past, meets'⟩ := entry_meets reports meets
    cases reports with
    | absent walks =>
      refine ⟨some place, rfl, iff_of_false (by simp) fun mapped => ?_, fun page found => ?_⟩
      · apply mapped (max first place) (le_refl _) before
        simp only [leafStart, walks _ low high]
      · cases found
        refine ⟨level, ?_, aligned, inside, past⟩
        rw [← walk_level_of_reports (.absent walks)]
        exact walk_level_le _ _ _ _
    | @leaf frame walks =>
      obtain ⟨found, searched, found_iff, entries⟩ := ih reach meets'
      refine ⟨found, searched, found_iff.trans ?_, entries⟩
      constructor
      · intro mapped page low' high'
        rcases lt_or_ge page (place + levelCount level) with here | later
        · rw [leafStart_of_reports aligned (.leaf walks) (by omega) here]
          simp
        · exact mapped page (by omega) high'
      · intro mapped page low' high'
        exact mapped page (by omega) high'

/-- On pages that are all mapped a search that looks at leaves only finds something exactly when the
leaf of one of them is a hit. -/
theorem leaf_search {value : α} {hit : Nat → Prop}
    (tables : ∀ base frame level, visit (.table base frame level) = .ok none)
    (hits : ∀ leaf frame level, hit leaf → visit (.leaf leaf frame level) = .ok (some value))
    (misses : ∀ leaf frame level, ¬ hit leaf → visit (.leaf leaf frame level) = .ok none)
    (follows : Follows space last place steps final) (reach : last ≤ final) (range : first < last)
    (meets : first < place + levelCount (space.walk place).level)
    (mapped : ∀ page, first ≤ page → page < last → leafStart space page ≠ none) :
    ∃ found, steps.findSomeM? visit = .ok found ∧
      (found.isSome = true ↔ ∃ page leaf, max first place ≤ page ∧ page < last ∧
        leafStart space page = some leaf ∧ hit leaf) := by
  induction follows with
  | done place =>
    refine ⟨none, rfl, iff_of_false (by simp) ?_⟩
    rintro ⟨page, leaf, low, high, -⟩
    omega
  | @table place final base frame level steps _ ih =>
    rw [findSomeM?, tables]
    exact ih reach meets
  | @entry place final level step steps inside aligned reports rest ih =>
    obtain ⟨low, high, before⟩ := entry_page reports inside range meets
    obtain ⟨past, meets'⟩ := entry_meets reports meets
    cases reports with
    | absent walks =>
      -- The range has no absent page.
      exfalso
      apply mapped (max first place) (by omega) before
      simp only [leafStart, walks _ low high]
    | @leaf frame walks =>
      have block {page : Nat} (low' : place ≤ page) (high' : page < place + levelCount level) :=
        leafStart_of_reports aligned (.leaf walks) low' high'
      rw [findSomeM?]
      by_cases here : hit place
      · rw [hits _ _ _ here]
        exact ⟨some value, rfl, iff_of_true rfl
          ⟨max first place, place, le_refl _, before, block low high, here⟩⟩
      · rw [misses _ _ _ here]
        obtain ⟨found, searched, found_iff⟩ := ih reach meets'
        refine ⟨found, searched, found_iff.trans ⟨?_, ?_⟩⟩
        · rintro ⟨page, leaf, low', rest⟩
          exact ⟨page, leaf, by omega, rest⟩
        · rintro ⟨page, leaf, low', high', start, there⟩
          refine ⟨page, leaf, ?_, high', start, there⟩
          by_contra near
          rw [block (by omega) (by omega), Option.some.injEq] at start
          exact here (start ▸ there)

end Pages

end Horizon.Memory
