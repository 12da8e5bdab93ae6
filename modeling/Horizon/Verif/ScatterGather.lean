import Horizon.Kernel.ScatterGather

/-!
# Extending a scatter-gather list

An empty entry is not turned into a chain entry, and in a segment of one place the moved entry
overwrites the end mark.
-/

namespace Horizon.Dma

open Function List

def LinkedEntry.payload (entry : LinkedEntry) : Option (Option Nat × Nat × Nat × Nat) :=
  match entry.entryType with
  | .array frame => some (frame, entry.offset, entry.size, entry.dmaAddr)
  | .chain _ => none

namespace EntryHeap

/-- The iterator goes from an entry to another over the entries between them. -/
inductive Walks (heap : EntryHeap) : EntryPtr → List LinkedEntry → EntryPtr → Prop
  | here {p} : Walks heap p [] p
  | step {p q last entry between} : heap.next p = .ok (entry, some q) →
      Walks heap q between last → Walks heap p (entry :: between) last

variable {heap other : EntryHeap} {p q last : EntryPtr} {entry : LinkedEntry}
  {front between : List LinkedEntry}

namespace Walks

theorem trans (first : heap.Walks p front q) (second : heap.Walks q between last) :
    heap.Walks p (front ++ between) last := by
  induction first with
  | here => exact second
  | step next _ ih => exact .step next (ih second)

theorem rest (walks : heap.Walks p front q) (toEnd : heap.Walks p between last)
    (ends : heap.next last = .ok (entry, none)) : ∃ rest, heap.Walks q rest last := by
  induction walks generalizing between with
  | here => exact ⟨between, toEnd⟩
  | step next _ ih =>
    cases toEnd with
    | here => cases next.symm.trans ends
    | step next' toEnd =>
      cases next.symm.trans next'
      exact ih toEnd

theorem congr (walks : heap.Walks p front last) (ends : heap.next last = .ok (entry, none))
    (same : ∀ q, q ≠ last → heap.get q ≠ none → other.get q = heap.get q) :
    other.Walks p front last := by
  induction walks with
  | here => exact .here
  | @step p q last entry between next _ ih =>
    refine .step ?_ (ih ends same)
    have apart : p ≠ last := by
      rintro rfl
      cases next.symm.trans ends
    have allocated : heap.get p ≠ none := by
      intro absent
      rw [EntryHeap.next, absent] at next
      cases next
    rwa [EntryHeap.next, same p apart allocated]

end Walks

theorem walks_array (segment start : Nat) (kept : List LinkedEntry)
    (inside : ∀ i < kept.length, heap.get ⟨segment, start + i⟩ = kept[i]?)
    (plain : ∀ entry ∈ kept, entry.entryType = .array (entry.payload.bind Prod.fst) ∧
      entry.isEnd = false) : heap.Walks ⟨segment, start⟩ kept ⟨segment, start + kept.length⟩ := by
  induction kept generalizing start with
  | nil => exact .here
  | cons first rest ih =>
    obtain ⟨array, unmarked⟩ := plain first (by simp)
    have found : heap.get ⟨segment, start⟩ = some first := inside 0 (by simp)
    rw [length_cons, Nat.add_comm rest.length, ← Nat.add_assoc]
    refine .step ?_ (ih (start + 1) (fun i bound => ?_) fun entry member =>
      plain entry (mem_cons_of_mem _ member))
    · simp only [next, found, array, unmarked]
    · rw [Nat.add_assoc, Nat.add_comm 1]
      exact inside (i + 1) (by simpa using bound)

end EntryHeap

/-- A list that ends, and the array that the allocator gives next. -/
structure EntryChain where
  heap : EntryHeap
  head : EntryPtr
  front : List LinkedEntry
  last : EntryPtr
  entry : LinkedEntry
  walks : heap.Walks head front last
  ends : heap.next last = .ok (entry, none)
  fresh : Nat
  unused : heap fresh = none

namespace EntryChain

variable (c : EntryChain) {capacity : Nat}

/-- What of the last entry has to be kept: what it holds, unless it is empty. -/
def moved : List (Option Nat × Nat × Nat × Nat) :=
  if c.entry.entryType = .array none then [] else [c.entry].filterMap LinkedEntry.payload

/-- After `extend` the iterator gives the old entries and then the empty ones of the new segment,
and ends in that segment. -/
def Extended (capacity : Nat) (after : EntryHeap) : Prop :=
  ∃ front last entry, after.Walks c.head front last ∧ after.next last = .ok (entry, none) ∧
    (front ++ [entry]).filterMap LinkedEntry.payload = c.front.filterMap LinkedEntry.payload ++
      c.moved ++ replicate (capacity - c.moved.length) (none, 0, 0, 0) ∧
    last.segment = c.fresh

theorem last_eq : c.heap.get c.last = some c.entry ∧ c.entry.isEnd = true ∧
    ∃ frame, c.entry.entryType = .array frame := by
  have ends := c.ends
  rw [EntryHeap.next] at ends
  cases found : c.heap.get c.last with
  | none => simp [found] at ends
  | some entry =>
    simp only [found] at ends
    split at ends <;> cases ends
    case h_1 frame array marked => exact ⟨rfl, marked, frame, array⟩

theorem last_ne : c.last.segment ≠ c.fresh := by
  intro same
  have found := c.last_eq.1
  rw [EntryHeap.get, same, c.unused] at found
  cases found

theorem not_extended_of_empty (empty : c.entry.entryType = .array none) (capacity : Nat) :
    ∃ after, c.heap.extend c.last (some c.fresh) capacity = .ok (some after) ∧
      ¬ c.Extended capacity after := by
  refine ⟨update c.heap c.fresh (some (createSegment capacity)), ?_, ?_⟩
  · simp only [EntryHeap.extend, c.last_eq.1, empty, c.last_eq.2.1]
  · rintro ⟨front, last, entry, walks, ends, -, there⟩
    have same (q : EntryPtr) (allocated : c.heap.get q ≠ none) :
        EntryHeap.get (update c.heap c.fresh (some (createSegment capacity))) q =
          c.heap.get q := by
      have apart : q.segment ≠ c.fresh := by
        intro at_
        simp [EntryHeap.get, at_, c.unused] at allocated
      simp [EntryHeap.get, apart]
    have before := c.walks.congr c.ends fun q _ => same q
    obtain ⟨rest, walks⟩ := before.rest walks ends
    cases walks with
    | here => exact c.last_ne there
    | step next _ =>
      rw [EntryHeap.next, same c.last (by simp [c.last_eq.1]), ← EntryHeap.next, c.ends] at next
      cases next

def unmarked : LinkedEntry := { c.entry with isEnd := false }

/-- The arrays after the last entry, which holds a frame, moved to the new segment. -/
def linked (rest : List LinkedEntry) : EntryHeap :=
  EntryHeap.modify (update c.heap c.fresh (some (c.unmarked :: rest))) c.last
    fun entry => { entry with entryType := .chain ⟨c.fresh, 0⟩, isEnd := false }

theorem extend_eq {frame : Nat} (holds : c.entry.entryType = .array (some frame)) (n : Nat) :
    c.heap.extend c.last (some c.fresh) (n + 1) =
      .ok (some (c.linked (createSegment (n + 1)).tail)) := by
  cases n <;>
    simp [EntryHeap.extend, c.last_eq.1, holds, c.last_eq.2.1, createSegment, linked,
      unmarked, replicate_succ]

theorem linked_fresh (rest : List LinkedEntry) (i : Nat) :
    (c.linked rest).get ⟨c.fresh, i⟩ = (c.unmarked :: rest)[i]? := by
  simp [linked, EntryHeap.modify, EntryHeap.get, c.last_ne.symm]

theorem linked_walks (rest : List LinkedEntry) : ∃ chain : LinkedEntry, chain.payload = none ∧
    (c.linked rest).Walks c.head (c.front ++ [chain]) ⟨c.fresh, 0⟩ := by
  have same (q : EntryPtr) (apart : q ≠ c.last) (allocated : c.heap.get q ≠ none) :
      (c.linked rest).get q = c.heap.get q := by
    have old : q.segment ≠ c.fresh := by
      intro at_
      simp [EntryHeap.get, at_, c.unused] at allocated
    by_cases segment : q.segment = c.last.segment
    · have index : q.index ≠ c.last.index := fun index => apart (by cases q; simp_all)
      simp only [linked, EntryHeap.modify, EntryHeap.get, segment, update_self,
        update_of_ne c.last_ne]
      cases c.heap c.last.segment with
      | none => rfl
      | some entries => simp [index.symm]
    · simp [linked, EntryHeap.modify, EntryHeap.get, segment, old]
  have found := c.last_eq.1
  refine ⟨{ c.entry with entryType := .chain ⟨c.fresh, 0⟩, isEnd := false }, rfl,
    (c.walks.congr c.ends same).trans (.step ?_ .here)⟩
  have chain : (c.linked rest).get c.last =
      some { c.entry with entryType := .chain ⟨c.fresh, 0⟩, isEnd := false } := by
    simp only [linked, EntryHeap.modify, EntryHeap.get, update_self, update_of_ne c.last_ne]
    rw [EntryHeap.get] at found
    cases entries : c.heap c.last.segment with
    | none => simp [entries] at found
    | some entries' =>
      rw [entries] at found
      simp only [Option.map_some, Option.bind_some, getElem?_modify] at found ⊢
      simp [found]
  simp only [EntryHeap.next, chain]

theorem not_extended_of_single : ¬ c.Extended 1 (c.linked []) := by
  rintro ⟨front, last, entry, walks, ends, -, -⟩
  obtain ⟨chain, -, before⟩ := c.linked_walks []
  obtain ⟨frame, array⟩ := c.last_eq.2.2
  have step : (c.linked []).next ⟨c.fresh, 0⟩ = .ok (c.unmarked, some ⟨c.fresh, 1⟩) := by
    simp only [EntryHeap.next, c.linked_fresh, getElem?_cons_zero, unmarked, array]
  obtain ⟨rest, after⟩ := (before.trans (.step step .here)).rest walks ends
  have absent : (c.linked []).next ⟨c.fresh, 1⟩ = .error .outside := by
    simp [EntryHeap.next, c.linked_fresh]
  cases after with
  | here => cases absent.symm.trans ends
  | step next _ => cases absent.symm.trans next

theorem extended_of_frame {frame : Nat} (holds : c.entry.entryType = .array (some frame))
    (n : Nat) : c.Extended (n + 2) (c.linked (createSegment (n + 2)).tail) := by
  have tail : (createSegment (n + 2)).tail = replicate n .empty ++ [LinkedEntry.empty.markEnd] := by
    simp [createSegment, replicate_succ]
  rw [tail]
  generalize segment : replicate n LinkedEntry.empty ++ [LinkedEntry.empty.markEnd] = rest
  obtain ⟨chain, noPayload, before⟩ := c.linked_walks rest
  have held : c.unmarked.payload = c.entry.payload := rfl
  have kept : c.entry.payload = some (some frame, c.entry.offset, c.entry.size, c.entry.dmaAddr) :=
    by rw [LinkedEntry.payload, holds]
  have through := EntryHeap.walks_array c.fresh 0 (c.unmarked :: replicate n .empty)
    (fun i bound => (c.linked_fresh rest (0 + i)).trans (by
      rw [Nat.zero_add, ← segment, ← cons_append, getElem?_append_left bound]))
    (fun entry member => by
      rcases List.mem_cons.mp member with rfl | empty
      · exact ⟨by rw [held, kept]; exact holds, rfl⟩
      · rw [eq_of_mem_replicate empty]
        exact ⟨rfl, rfl⟩)
  rw [length_cons, length_replicate, Nat.zero_add] at through
  have marked : (c.linked rest).get ⟨c.fresh, n + 1⟩ = some LinkedEntry.empty.markEnd := by
    simp [c.linked_fresh, ← segment]
  refine ⟨_, ⟨c.fresh, n + 1⟩, LinkedEntry.empty.markEnd, before.trans through, ?_, ?_, rfl⟩
  · simp only [EntryHeap.next, marked]
    rfl
  · have empty : LinkedEntry.empty.payload = some (none, 0, 0, 0) := rfl
    have last : LinkedEntry.empty.markEnd.payload = some (none, 0, 0, 0) := rfl
    simp [filterMap_append, noPayload, held, kept, empty, last, moved, holds, replicate_succ']

/-- A list is carried over by `extend` of its last entry, if and only if that entry holds a frame
and the new segment does not have exactly one place. -/
theorem extend_extended_iff (capacity : Nat) :
    (∀ after, c.heap.extend c.last (some c.fresh) capacity = .ok (some after) →
      c.Extended capacity after) ↔ c.entry.entryType ≠ .array none ∧ capacity ≠ 1 := by
  obtain ⟨frame, array⟩ := c.last_eq.2.2
  cases frame with
  | none =>
    refine iff_of_false (fun extended => ?_) (by simp [array])
    obtain ⟨after, ran, fails⟩ := c.not_extended_of_empty array capacity
    exact fails (extended after ran)
  | some frame =>
    match capacity with
    | 0 =>
      refine iff_of_true (fun after ran => ?_) (by simp [array])
      simp [EntryHeap.extend, c.last_eq.1, array, c.last_eq.2.1, createSegment] at ran
    | 1 =>
      refine iff_of_false (fun extended => ?_) (by simp)
      exact c.not_extended_of_single (extended _ (c.extend_eq array 0))
    | n + 2 =>
      refine iff_of_true (fun after ran => ?_) (by simp [array])
      cases ran.symm.trans (c.extend_eq array (n + 1))
      exact c.extended_of_frame array n

end EntryChain

def emptyChain : EntryChain where
  heap := update (fun _ => none) 0 (some (createSegment 1))
  head := ⟨0, 0⟩
  front := []
  last := ⟨0, 0⟩
  entry := LinkedEntry.empty.markEnd
  walks := .here
  ends := rfl
  fresh := 1
  unused := rfl

/-- A new list of one empty entry is extended by four places, and the iterator ends where it did. -/
theorem emptyChain_not_extended :
    ∃ after, emptyChain.heap.extend emptyChain.last (some 1) 4 = .ok (some after) ∧
      ¬ emptyChain.Extended 4 after :=
  emptyChain.not_extended_of_empty rfl 4

end Horizon.Dma
