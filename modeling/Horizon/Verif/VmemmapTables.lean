import Horizon.Verif.BuddyOps
import Horizon.Verif.PageBlock
import Horizon.Verif.VmemmapAssign

/-!
# What `assign` does to the page tables

`assign` maps single pages of the vmemmap area. Whatever it returns, the tables stay well formed and
no walk below the area changes.
-/

namespace Horizon.Memory

open Paging Runs

namespace BuddyState

variable {build : Build} {zone : ZoneType} {target : Nat} {s s' : BuddyState}
  {frames owned : UniqueFrames}

theorem splitLoop_order {order : Nat} (start : frames.order = order) (above : target ≤ order)
    (split : splitLoop build zone target order frames s = .ok (owned, s')) :
    owned.order = target := by
  induction order generalizing frames s with
  | zero =>
    rw [splitLoop] at split
    cases split
    omega
  | succ order ih =>
    rw [splitLoop] at split
    split at split
    · obtain ⟨⟨lower, upper⟩, halved, rest⟩ := bind_eq_ok.mp split
      have lowerOrder : lower.order = order := by
        rw [UniqueFrames.split] at halved
        obtain ⟨_, -, halved⟩ := bind_eq_ok.mp halved
        obtain ⟨_, -, halved⟩ := bind_eq_ok.mp halved
        cases halved
        exact (congrArg (· - 1) start).trans (Nat.add_sub_cancel order 1)
      dsimp only at rest
      split at rest
      · cases rest
      · obtain ⟨_, -, rest⟩ := bind_eq_ok.mp rest
        exact ih lowerOrder (by omega) rest
      · obtain ⟨_, -, rest⟩ := bind_eq_ok.mp rest
        exact ih lowerOrder (by omega) rest
      · cases rest
    · cases split
      omega

theorem fromAllocator_order {frames : Vmemmap} {frame order : Nat}
    (claimed : UniqueFrames.fromAllocator build frames frame order = .ok (some owned)) :
    owned.order = order := by
  rw [UniqueFrames.fromAllocator] at claimed
  obtain ⟨start, -, claimed⟩ := bind_eq_ok.mp claimed
  obtain ⟨_, -, claimed⟩ := bind_eq_ok.mp claimed
  split at claimed
  · obtain ⟨range, -, claimed⟩ := bind_eq_ok.mp claimed
    obtain ⟨head, -, claimed⟩ := bind_eq_ok.mp claimed
    split at claimed
    · cases claimed
      rfl
    · cases claimed
  · split at claimed
    · cases claimed
      rfl
    · cases claimed

theorem allocate_order {order : Nat}
    (allocated : s.allocate build zone order = .ok (some owned, s')) : owned.order = order := by
  have loop (left : Nat) : ∀ larger, order ≤ larger →
      allocateLoop build zone order s left larger = .ok (some owned, s') →
        owned.order = order := by
    induction left with
    | zero => exact fun _ _ run => nomatch run
    | succ left ih =>
      intro larger above run
      rw [allocateLoop] at run
      obtain ⟨list, -, run⟩ := bind_eq_ok.mp run
      cases list with
      | nil => exact ih (larger + 1) (by omega) run
      | cons frame rest =>
        obtain ⟨⟨taken, after⟩, take, run⟩ := bind_eq_ok.mp run
        cases run
        rw [takeBlock] at take
        obtain ⟨deleted, -, take⟩ := bind_eq_ok.mp take
        obtain ⟨got, claimed, take⟩ := bind_eq_ok.mp take
        cases got with
        | none => cases take
        | some claim =>
          have claimOrder := fromAllocator_order claimed
          obtain ⟨⟨piece, cut⟩, split, take⟩ := bind_eq_ok.mp take
          cases take
          rw [splitLarger] at split
          split at split
          · obtain ⟨⟨piece', cut'⟩, halved, split⟩ := bind_eq_ok.mp split
            obtain ⟨_, -, split⟩ := bind_eq_ok.mp split
            cases split
            exact splitLoop_order claimOrder above halved
          · rename_i same
            cases split
            rw [claimOrder]
            exact not_not.mp same
  exact loop _ order (le_refl _) allocated

end BuddyState

theorem AbsentEntry.vmemmap {start order page : Nat} (inside : start < vmemmapFrames)
    (order_le : order ≤ maxOrder)
    (entry : AbsentEntry (metadataRange start order).1 (metadataRange start order).2 page) :
    vmemmapBasePage ≤ page ∧ Canonical page := by
  obtain ⟨level, level_le, dvd, high, low⟩ := entry
  have count : toCount order ≤ 2 ^ 10 := Nat.pow_le_pow_right (by decide) order_le
  have frames : vmemmapFrames = 2 ^ 36 := by decide
  have base : vmemmapBasePage = 0xFFFFF80000000 := by decide
  have first : (metadataRange start order).1 = vmemmapBasePage + start / 64 := by
    simp only [metadataRange, vmemmapBase, frameRecordSize, pageSize, base]
    omega
  have last : (metadataRange start order).2 = vmemmapBasePage + start / 64 + toCount order := by
    rw [← first]
    rfl
  rw [first] at low
  rw [last] at high
  -- The area starts at an entry of the top level.
  have aligned : levelCount level ∣ vmemmapBasePage :=
    dvd_trans (levelCount_dvd level_le) (by decide)
  have above : vmemmapBasePage ≤ page := by
    by_contra below
    have next : page + levelCount level ≤ vmemmapBasePage := by
      obtain ⟨i, rfl⟩ := dvd
      obtain ⟨j, baseEq⟩ := aligned
      rw [baseEq] at below ⊢
      rw [← Nat.mul_succ]
      exact Nat.mul_le_mul_left _ (lt_of_mul_lt_mul_left (not_le.mp below) (Nat.zero_le _))
    omega
  refine ⟨above, .inr ⟨?_, ?_⟩⟩ <;> omega

theorem allocateAtomic_order {s s' : BuddyState} {owned : UniqueFrames}
    (allocated : allocateAtomic s = .ok (some owned, s')) : owned.order = 0 := by
  rw [allocateAtomic] at allocated
  obtain ⟨⟨frames, after⟩, first, rest⟩ := bind_eq_ok.mp allocated
  cases frames with
  | some frames =>
    cases rest
    exact BuddyState.allocate_order first
  | none => exact BuddyState.allocate_order rest

/-- The tables stay well formed, and walks below the vmemmap area stay. -/
structure KeptBelow (before after : PageMemory) (root : Nat) : Prop where
  wf : WellFormed after root
  walks : ∀ page, Canonical page → page < vmemmapBasePage →
    after.lookup root page = before.lookup root page

theorem KeptBelow.refl {tables : PageMemory} {root : Nat} (wf : WellFormed tables root) :
    KeptBelow tables tables root := ⟨wf, fun _ _ _ => rfl⟩

theorem KeptBelow.trans {before mid after : PageMemory} {root : Nat}
    (first : KeptBelow before mid root) (second : KeptBelow mid after root) :
    KeptBelow before after root :=
  ⟨second.wf, fun page there below =>
    (second.walks page there below).trans (first.walks page there below)⟩

section Assign

variable {root start order rounds : Nat} {s s' : FrameMemory}

variable {result : Except MemoryError Unit}

theorem mapVmemmapPage_kept {page : Nat} (wf : WellFormed s.tables root)
    (above : vmemmapBasePage ≤ page) (here : Canonical page)
    (mapped : mapVmemmapPage root page s = .ok (result, s')) :
    KeptBelow s.tables s'.tables root := by
  rw [mapVmemmapPage] at mapped
  obtain ⟨⟨frames, buddy⟩, allocated, rest⟩ := bind_eq_ok.mp mapped
  cases frames with
  | none =>
    cases rest
    exact .refl wf
  | some frames =>
    have order : frames.order = 0 := allocateAtomic_order (onFrames_eq_ok.mp allocated)
    obtain ⟨⟨outcome, tables⟩, mapping, rest⟩ := bind_eq_ok.mp rest
    have mapping := onPages_eq_ok.mp mapping
    rw [order] at mapping
    obtain ⟨wfAfter, kept⟩ := map_page_kept wf here rfl rfl mapping
    have below : KeptBelow s.tables tables root :=
      ⟨wfAfter, fun other there below => kept other there (by omega)⟩
    cases outcome with
    | error error =>
      cases rest
      exact below
    | ok done =>
      cases rest
      exact below

def attempt (s : FrameMemory) (wf : WellFormed s.tables root) (start : Nat)
    (order_le : order ≤ maxOrder) : Attempt where
  space := ⟨s.tables, root, wf.live, wf.closed⟩
  buddy := s.buddy
  mappedPages := s.mappedPages
  start := start
  order := order
  order_le := order_le

theorem ensureMapped_kept {calls : Nat} (wf : WellFormed s.tables root)
    (inside : start < vmemmapFrames) (order_le : order ≤ maxOrder)
    (ensured : ensureMapped root start order calls rounds s = .ok (result, s')) :
    KeptBelow s.tables s'.tables root := by
  induction rounds using Nat.strong_induction_on generalizing s with
  | _ rounds ih =>
    rcases Attempt.ensureMapped_search (a := attempt s wf start order_le) inside ensured with
      ⟨-, -, rfl⟩ | ⟨-, page, more, outcome, mid, fewer, entry, mapped, rest⟩
    · exact .refl wf
    · obtain ⟨above, here⟩ := entry.vmemmap inside order_le
      have first := mapVmemmapPage_kept wf above here mapped
      cases outcome with
      | error error =>
        obtain ⟨-, rfl⟩ := rest
        exact first
      | ok done => exact first.trans (ih more fewer first.wf rest)

theorem conflictCheck_tables {found : Bool} (wf : WellFormed s.tables root)
    (inside : start < vmemmapFrames) (order_le : order ≤ maxOrder)
    (checked : conflictCheck root rounds start order s = .ok (found, s')) :
    s'.tables = s.tables := by
  obtain ⟨level, iter, steps, final, yields, new, -⟩ :=
    Attempt.searched (a := attempt s wf start order_le) inside
  rw [conflictCheck] at checked
  obtain ⟨⟨got, tables⟩, opening, rest⟩ := bind_eq_ok.mp checked
  rw [show PageTableIter.new s.tables root (metadataRange start order).1
    (metadataRange start order).2 = _ from new] at opening
  cases opening
  obtain ⟨⟨hit, searched⟩, searching, rest⟩ := bind_eq_ok.mp rest
  cases rest
  have same := searchSteps_ok yields searching
  cases answer : steps.findSomeM? (conflictStep s.buddy.frames rounds start
      (start + toCount order)) with
  | error fault =>
    rw [answer] at same
    cases same
  | ok hit =>
    rw [answer] at same
    cases same
    rfl

theorem assign_kept {result : Except MemoryError UniqueFrames} (wf : WellFormed s.tables root)
    (inside : start < vmemmapFrames) (order_le : order ≤ maxOrder)
    (assigned : assign root rounds start order s = .ok (result, s')) :
    KeptBelow s.tables s'.tables root := by
  rw [assign] at assigned
  split at assigned
  · cases assigned
  · rename_i aligned
    obtain ⟨⟨outcome, mid⟩, ensured, rest⟩ := bind_eq_ok.mp assigned
    have first := ensureMapped_kept wf inside order_le ensured
    cases outcome with
    | error error =>
      cases rest
      exact first
    | ok done =>
      obtain ⟨⟨found, checked⟩, check, rest⟩ := bind_eq_ok.mp rest
      have tables := conflictCheck_tables first.wf inside order_le check
      cases found with
      | true =>
        cases rest
        rw [tables]
        exact first
      | false =>
        obtain ⟨-, -, rfl⟩ := assignFrames_ok (not_not.mp aligned) rest
        show KeptBelow s.tables checked.tables root
        rw [tables]
        exact first

theorem assign_ok {frames : UniqueFrames}
    (assigned : assign root rounds start order s = .ok (.ok frames, s')) :
    start < vmemmapFrames ∧ frames = ⟨start, order⟩ := by
  rw [assign] at assigned
  split at assigned
  · cases assigned
  · rename_i aligned
    obtain ⟨⟨outcome, mid⟩, -, rest⟩ := bind_eq_ok.mp assigned
    cases outcome with
    | error error => cases rest
    | ok done =>
      obtain ⟨⟨found, checked⟩, -, rest⟩ := bind_eq_ok.mp rest
      cases found with
      | true => cases rest
      | false =>
        obtain ⟨inside, owned, -⟩ := assignFrames_ok (not_not.mp aligned) rest
        cases owned
        exact ⟨inside, rfl⟩

end Assign

end Horizon.Memory
