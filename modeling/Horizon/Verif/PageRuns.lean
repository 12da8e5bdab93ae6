import Horizon.Verif.PageUnmap

/-!
# Page tables as maps of addresses

What a page table is for is a map from pages to frames and flags. Calls of `map` and `unmap` that
meet their conditions change this map on their block only, so after any sequence of such calls
`translate` answers what the last call on a page has said.
-/

namespace Horizon.Paging

open Runs Relation

/-- Which frame a page has, and with which flags. -/
abbrev AddressMap := Nat → Option (Nat × PageFlags)

namespace AddressMap

/-- The map with new entries for the pages of one block. -/
def set (view entries : AddressMap) (start order : Nat) : AddressMap := fun page =>
  if start ≤ page ∧ page < start + 2 ^ order then entries page else view page

/-- The physical address that the map gives a virtual one. -/
def translate (view : AddressMap) (vaddr : Nat) : Option Nat :=
  (view (vaddr / pageSize)).map fun entry => entry.1 * pageSize + vaddr % pageSize

end AddressMap

/-- What the walk of a page found is the entry of the page. -/
def Says (page : Nat) : Option (Nat × PageFlags) → Option (Nat × Nat) → Prop
  | none, found => found = none
  | some (frame, flags), found => ∃ level word, found = some (level, word) ∧
    word / pageSize + page % levelCount level = frame ∧ word % pageSize = fromFlags flags level

/-- Well-formed tables under which the walk of every canonical page finds the entry of the map. -/
structure Shows (root : Nat) (s : PageMemory × AddressMap) : Prop where
  wf : WellFormed s.1 root
  entry : ∀ page, Canonical page → Says page (s.2 page) (s.1.lookup root page)

/-- A call that returns `Ok` and meets the conditions of its block, on the tables and on the map. -/
inductive Call (root : Nat) : PageMemory × AddressMap → PageMemory × AddressMap → Prop
  | map {before after : PageMemory} {view : AddressMap} {start frame order : Nat}
    {flags : PageFlags} (order_le : order ≤ Memory.maxOrder)
    (exclusive : ∀ i < 2 ^ order, before.refcount (frame + i) = 0 ∧ frame + i ∉ before.pool)
    (canonical : ∀ i < 2 ^ order, Canonical (start + i)) (present : flags.present = true)
    (right : ∀ page, start ≤ page → page < start + 2 ^ order →
      WritesLarge before root start (start + 2 ^ order) frame page → LargeOk flags page)
    (ok : map before root start frame order flags = .ok (.ok (), after)) :
    Call root (before, view)
      (after, view.set (fun page => some (frame + (page - start), flags)) start order)
  | unmap {before after : PageMemory} {view : AddressMap} {start order level word head : Nat}
    (canonical : ∀ page, start ≤ page → page < start + 2 ^ order → Canonical page)
    (leaf : before.lookup root start = some (level, word)) (aligned : levelCount level ∣ start)
    (whole : levelCount level ∣ 2 ^ order)
    (inTable : entryIndex start level + 2 ^ order / levelCount level ≤ tableSize)
    (ok : unmap before root start order = .ok (.ok head, after)) :
    Call root (before, view) (after, view.set (fun _ => none) start order)

variable {root : Nat} {s s' : PageMemory × AddressMap}

/-- One call keeps tables and map in step. -/
theorem Shows.call (shows : Shows root s) (call : Call root s s') : Shows root s' := by
  cases call with
  | map order_le exclusive canonical present right ok =>
    rcases map_walks shows.wf order_le exclusive canonical present ok with
      ⟨-, wf, mapped, unchanged⟩ | ⟨page, low, high, large, wrong, -⟩
    · refine ⟨wf, fun page there => ?_⟩
      dsimp only [AddressMap.set]
      split
      case isTrue inside => exact mapped page inside.1 inside.2
      case isFalse outside =>
        rw [unchanged page there outside]
        exact shows.entry page there
    · exact absurd (right page low high large) wrong
  | unmap canonical leaf aligned whole inTable ok =>
    obtain ⟨bound, -, effect⟩ := unmap_walks shows.wf leaf ok
    refine ⟨unmap_wellFormed shows.wf ok, fun page there => ?_⟩
    have cleared := cleared_iff canonical there bound aligned whole inTable
    dsimp only [AddressMap.set]
    split
    case isTrue inside => exact (effect page).1 (cleared.mpr inside)
    case isFalse outside =>
      rw [(effect page).2 (mt cleared.mp outside)]
      exact shows.entry page there

/-- Tables in step with a map translate as the map does. -/
theorem Shows.translate (shows : Shows root s) {vaddr : Nat}
    (canonical : Canonical (vaddr / pageSize)) (unfixed : fixedMapping vaddr = none) :
    translate s.1 root vaddr = .ok (s.2.translate vaddr, s.1) := by
  have answer := shows.entry _ canonical
  rw [translate_eq, unfixed, Option.none_or, AddressMap.translate]
  cases entry : s.2 (vaddr / pageSize) with
  | none =>
    rw [entry] at answer
    rw [show s.1.lookup root (vaddr / pageSize) = none from answer]
    rfl
  | some given =>
    rw [entry] at answer
    obtain ⟨level, word, found, frame, -⟩ := answer
    have address := leafPhys_page (vaddr / pageSize) level word
      (Nat.mod_lt vaddr (show 0 < pageSize by decide))
    rw [Nat.div_add_mod', frame] at address
    rw [found, Option.map_some, address]
    rfl

/-- After any sequence of `map` and `unmap` calls that meet their conditions, the tables are well
formed, the walk of every canonical page finds the frame and the flags that the calls say, and every
canonical address outside the fixed mappings translates as they say. -/
theorem calls_translate (run : ReflTransGen (Call root) s s') (shows : Shows root s) :
    WellFormed s'.1 root ∧
      (∀ page, Canonical page → Says page (s'.2 page) (s'.1.lookup root page)) ∧
      ∀ vaddr, Canonical (vaddr / pageSize) → fixedMapping vaddr = none →
        translate s'.1 root vaddr = .ok (s'.2.translate vaddr, s'.1) := by
  have final := invariant_of_run (Shows root) run shows fun _ _ shows call => shows.call call
  exact ⟨final.wf, final.entry, fun _ canonical unfixed => final.translate canonical unfixed⟩

/-- Eight frames are mapped into an address space without mappings, and two pages of them are
unmapped again. -/
theorem calls_translate_block :
    ∃ mapped after, map (emptySpace 1 [2, 3, 4]) 1 0x1001 0x8000 3 .new = .ok (.ok (), mapped) ∧
      unmap mapped 1 0x1003 1 = .ok (.ok 0x8002, after) ∧
      translate after 1 (0x1001 * pageSize + 5) = .ok (some (0x8000 * pageSize + 5), after) ∧
      translate after 1 (0x1003 * pageSize + 5) = .ok (none, after) := by
  have shows : Shows 1 (emptySpace 1 [2, 3, 4], fun _ => none) :=
    ⟨emptySpace_wellFormed (by decide) (by decide), fun page _ => emptySpace_lookup _ page⟩
  obtain ⟨mapped, after, word, ok, leaf, gone⟩ : ∃ mapped after word,
      map (emptySpace 1 [2, 3, 4]) 1 0x1001 0x8000 3 .new = .ok (.ok (), mapped) ∧
      mapped.lookup 1 0x1003 = some (0, word) ∧
      unmap mapped 1 0x1003 1 = .ok (.ok 0x8002, after) := ⟨_, _, _, rfl, rfl, rfl⟩
  have first := @Call.map 1 _ mapped (fun _ => none) 0x1001 0x8000 3 .new (by decide) (by decide)
    (by decide) rfl (fun page low high large => ?_) ok
  · have canonical : ∀ page, 0x1003 ≤ page → page < 0x1003 + 2 ^ 1 → Canonical page := by
      intro page low high
      obtain rfl | rfl : page = 0x1003 ∨ page = 0x1004 := by omega
      all_goals decide
    have run := ReflTransGen.tail (.single first)
      (.unmap canonical leaf (one_dvd _) (one_dvd _) (by decide) gone)
    have final := (calls_translate run shows).2.2
    exact ⟨mapped, after, ok, gone, final _ (by decide) (by decide),
      final _ (by decide) (by decide)⟩
  · have fits := large.2.2
    rw [levelCount_one] at fits
    omega

end Horizon.Paging
