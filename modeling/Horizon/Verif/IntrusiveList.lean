import Horizon.Kernel.IntrusiveList
import Horizon.Spec.Ring
import Horizon.Spec.Runs

/-!
# Intrusive lists hold sequences

Every initialised list is a ring through the nodes of a sequence, and the sequences share no node.
`add_head`, `add_tail` and `delete` edit the ring of one list and leave all others alone.
-/

namespace Horizon.IntrusiveList

open Function Horizon.Ring Runs List Heap Option ListIterator

variable {η ν : Type} {s s' : Heap η ν} {p q r : Ptr η ν} {h : η} {n : ν}

namespace Heap

def next (s : Heap η ν) (p : Ptr η ν) : Ptr η ν := ((s.link p).map Link.next).getD .dangling

def prev (s : Heap η ν) (p : Ptr η ν) : Ptr η ν := ((s.link p).map Link.prev).getD .dangling

/-- The pointer is to a link. -/
def Linked (s : Heap η ν) (p : Ptr η ν) : Prop := (s.link p).isSome

theorem linked_head (s : Heap η ν) (h : η) : s.Linked (.head h) := rfl

variable [DecidableEq η] [DecidableEq ν]

theorem modify_ok (linked : s.Linked p) (f : Link η ν → Link η ν) :
    ∃ s', s.modify p f = .ok s' ∧ s'.link = update s.link p ((s.link p).map f) := by
  cases p with
  | dangling => cases linked
  | head h =>
    refine ⟨_, rfl, funext fun r => ?_⟩
    cases r with
    | dangling => rfl
    | head h' =>
      by_cases same : h' = h
      · subst same
        simp [link]
      · simp [link, same]
    | node n => rfl
  | node n =>
    obtain ⟨found, there⟩ := isSome_iff_exists.mp linked
    change s.node n = some found at there
    refine ⟨{ s with node := update s.node n (some (f found)) }, ?_, funext fun r => ?_⟩
    · rw [modify, there]
    · cases r with
      | dangling | head => rfl
      | node m =>
        by_cases same : m = n
        · subst same
          simp [link, there]
        · simp [link, same]

theorem setNext_ok (linked : s.Linked p) (q : Ptr η ν) :
    ∃ s', s.setNext p q = .ok s' ∧ s'.next = update s.next p q ∧ s'.prev = s.prev ∧
      ∀ r, s'.Linked r ↔ s.Linked r := by
  obtain ⟨s', ran, links⟩ := modify_ok linked fun link => { link with next := q }
  obtain ⟨found, there⟩ := isSome_iff_exists.mp linked
  refine ⟨s', ran, funext fun r => ?_, funext fun r => ?_, fun r => ?_⟩ <;>
    by_cases same : r = p
  all_goals simp [next, prev, Linked, links, same, there]

theorem setPrev_ok (linked : s.Linked p) (q : Ptr η ν) :
    ∃ s', s.setPrev p q = .ok s' ∧ s'.next = s.next ∧ s'.prev = update s.prev p q ∧
      ∀ r, s'.Linked r ↔ s.Linked r := by
  obtain ⟨s', ran, links⟩ := modify_ok linked fun link => { link with prev := q }
  obtain ⟨found, there⟩ := isSome_iff_exists.mp linked
  refine ⟨s', ran, funext fun r => ?_, funext fun r => ?_, fun r => ?_⟩ <;>
    by_cases same : r = p
  all_goals simp [next, prev, Linked, links, same, there]

theorem add_ok (unlinked : s.node n = none) (linkedPrev : s.Linked p) (linkedNext : s.Linked q) :
    ∃ s', s.add n p q = .ok s' ∧
      s'.next = update (update s.next (.node n) q) p (.node n) ∧
      s'.prev = update (update s.prev (.node n) p) q (.node n) ∧
      ∀ r, s'.Linked r ↔ r = .node n ∨ s.Linked r := by
  obtain ⟨linkedNode, linkedEq⟩ : ∃ t : Heap η ν,
    { s with node := update s.node n (some ⟨p, q⟩) } = t := ⟨_, rfl⟩
  have links : linkedNode.link = update s.link (.node n) (some ⟨p, q⟩) := by
    funext r
    cases r with
    | dangling | head => subst linkedEq; rfl
    | node m =>
      subst linkedEq
      by_cases same : m = n
      · subst same
        simp [link]
      · simp [link, same]
  have nextEq : linkedNode.next = update s.next (.node n) q := by
    funext r
    by_cases same : r = .node n <;> simp [next, links, same]
  have prevEq : linkedNode.prev = update s.prev (.node n) p := by
    funext r
    by_cases same : r = .node n <;> simp [prev, links, same]
  have linkedIff : ∀ r, linkedNode.Linked r ↔ r = .node n ∨ s.Linked r := by
    intro r
    by_cases same : r = .node n <;> simp [Linked, links, same]
  obtain ⟨t, ranNext, tNext, tPrev, tLinked⟩ := setNext_ok ((linkedIff p).mpr (.inr linkedPrev))
    (.node n)
  obtain ⟨u, ranPrev, uNext, uPrev, uLinked⟩ := setPrev_ok
    ((tLinked q).mpr ((linkedIff q).mpr (.inr linkedNext))) (.node n)
  refine ⟨u, ?_, ?_, ?_, fun r => ?_⟩
  · rw [add, unlinked]
    change (setNext _ p (.node n) >>= fun s => s.setPrev q (.node n)) = .ok u
    rw [linkedEq, ranNext]
    exact ranPrev
  · rw [uNext, tNext, nextEq]
  · rw [uPrev, tPrev, prevEq]
  · rw [uLinked, tLinked, linkedIff]

theorem delete_ok (linked : s.Linked (.node n)) (linkedPrev : s.Linked (s.prev (.node n)))
    (linkedNext : s.Linked (s.next (.node n))) (other : s.prev (.node n) ≠ .node n) :
    ∃ s', s.delete n = .ok s' ∧ s'.node n = none ∧
      (∀ r ≠ .node n,
        s'.next r = update s.next (s.prev (.node n)) (s.next (.node n)) r ∧
        s'.prev r = update s.prev (s.next (.node n)) (s.prev (.node n)) r) ∧
      ∀ r, s'.Linked r ↔ r ≠ .node n ∧ s.Linked r := by
  obtain ⟨found, there⟩ := isSome_iff_exists.mp linked
  have prevEq : s.prev (.node n) = found.prev := by rw [prev, there]; rfl
  have nextEq : s.next (.node n) = found.next := by rw [next, there]; rfl
  rw [prevEq] at linkedPrev other
  rw [nextEq] at linkedNext
  rw [prevEq, nextEq]
  obtain ⟨t, ranNext, tNext, tPrev, tLinked⟩ := setNext_ok linkedPrev found.next
  -- The node's own link is not the one that was written.
  obtain ⟨again, thereAgain⟩ := isSome_iff_exists.mp ((tLinked (.node n)).mpr linked)
  have againNext : again.next = found.next := by
    have own : t.next (.node n) = found.next := by
      rw [tNext, update_of_ne other.symm, nextEq]
    rw [← own, next, thereAgain]
    rfl
  have againPrev : again.prev = found.prev := by
    have own : t.prev (.node n) = found.prev := by rw [tPrev, prevEq]
    rw [← own, prev, thereAgain]
    rfl
  obtain ⟨u, ranPrev, uNext, uPrev, uLinked⟩ := setPrev_ok ((tLinked found.next).mpr linkedNext)
    found.prev
  refine ⟨{ u with node := update u.node n none }, ?_, by simp, ?_, ?_⟩
  · have node : s.node n = some found := there
    have nodeAgain : t.node n = some again := thereAgain
    simp only [delete, node, nodeAgain, elim_some, ok_bind, ranNext, againNext,
      againPrev, ranPrev]
    rfl
  · intro r away
    have same : ({ u with node := update u.node n none } : Heap η ν).link r = u.link r := by
      cases r with
      | dangling | head => rfl
      | node m => exact update_of_ne (fun same => away (congrArg _ same)) _ _
    rw [next, prev, same, ← tNext, ← uNext, ← tPrev, ← uPrev]
    exact ⟨rfl, rfl⟩
  · intro r
    cases r with
    | dangling => simp [Linked, link]
    | head h => simp [linked_head]
    | node m =>
      by_cases same : m = n
      · subst same
        simp [Linked, link]
      · have kept := (uLinked (.node m)).trans (tLinked (.node m))
        rw [← kept]
        simp [Linked, link, same]

end Heap

def links (η : Type) (xs : List ν) : List (Ptr η ν) := xs.map .node

/-- The lists, each with its sequence; one that is not initialised has none. -/
abbrev Lists (η ν : Type) := η → Option (List ν)

/-- The node is in no list. -/
def Lists.Free (lists : Lists η ν) (n : ν) : Prop := ∀ h xs, lists h = some xs → n ∉ xs

/-- The heap represents the lists: each as a ring without repetition, and no node in two. -/
structure Represents (lists : Lists η ν) (s : Heap η ν) : Prop where
  rings : ∀ h xs, lists h = some xs → Path s.next s.prev (.head h) (links η xs) (.head h)
  nodup : ∀ h xs, lists h = some xs → xs.Nodup
  apart : ∀ h h' xs xs' n, lists h = some xs → lists h' = some xs' → n ∈ xs → n ∈ xs' → h = h'
  unlinked : ∀ n, s.node n = none ↔ lists.Free n

@[simp]
theorem node_mem_links {xs : List ν} : Ptr.node n ∈ links η xs ↔ n ∈ xs := by simp [links]

@[simp]
theorem head_not_mem_links {xs : List ν} : Ptr.head h ∉ links η xs := by simp [links]

theorem nodup_links {xs : List ν} (nodup : xs.Nodup) : (links η xs).Nodup :=
  nodup.map fun _ _ same => Ptr.node.inj same

theorem fresh_represents : Represents (fun _ => none : Lists η ν) fresh where
  rings _ _ list := nomatch list
  nodup _ _ list := nomatch list
  apart _ _ _ _ _ list := nomatch list
  unlinked _ := iff_of_true rfl fun _ _ list => nomatch list

theorem Lists.Free.not_mem_ring {lists : Lists η ν} {xs : List ν} (free : lists.Free n)
    (list : lists h = some xs) : .node n ∉ .head h :: links η xs := by
  rw [mem_cons, node_mem_links]
  rintro (same | inside)
  · cases same
  · exact free h xs list inside

theorem Lists.of_update [DecidableEq η] {lists : Lists η ν} {h' : η} {ys zs : List ν}
    (list : update lists h (some ys) h' = some zs) :
    h' = h ∧ zs = ys ∨ h' ≠ h ∧ lists h' = some zs := by
  by_cases same : h' = h
  · subst same
    rw [update_self] at list
    cases list
    exact .inl ⟨rfl, rfl⟩
  · rw [update_of_ne same] at list
    exact .inr ⟨same, list⟩

namespace Represents

variable {lists : Lists η ν} {xs ys : List ν} (represents : Represents lists s)

include represents

theorem nodup_ring (list : lists h = some xs) : (.head h :: links η xs).Nodup :=
  List.nodup_cons.mpr ⟨head_not_mem_links, nodup_links (represents.nodup h xs list)⟩

theorem linked (list : lists h = some xs) (member : p ∈ .head h :: links η xs) : s.Linked p := by
  rcases mem_cons.mp member with rfl | member
  · exact s.linked_head h
  · obtain ⟨n, inside, rfl⟩ := List.mem_map.mp member
    have there : s.node n ≠ none := fun none => (represents.unlinked n).mp none h xs list inside
    exact isSome_iff_ne_none.mpr there

theorem apart_links {h' : η} (list : ∀ n ∈ xs, lists h = some xs)
    (list' : lists h' = some ys) (other : h' ≠ h) (member : p ∈ .head h' :: links η ys) :
    p ∉ .head h :: links η xs := by
  intro shared
  rcases mem_cons.mp member with rfl | member
  · rcases mem_cons.mp shared with same | shared
    · exact other (Ptr.head.inj same)
    · exact head_not_mem_links shared
  · obtain ⟨n, inside, rfl⟩ := List.mem_map.mp member
    rcases mem_cons.mp shared with same | shared
    · cases same
    · have mine := node_mem_links.mp shared
      exact other (represents.apart h' h ys xs n list' (list n mine) inside mine)

theorem kept_ring {h' : η} (list' : lists h' = some ys)
    (kept : ∀ p ∈ .head h' :: links η ys, s'.next p = s.next p ∧ s'.prev p = s.prev p) :
    Path s'.next s'.prev (.head h') (links η ys) (.head h') := by
  refine (represents.rings h' ys list').congr (fun p member => (kept p member).1) fun p member => ?_
  rw [mem_append, mem_singleton] at member
  exact (kept p (mem_cons.mpr member.symm)).2

variable [DecidableEq η]

theorem of_list (before : lists h = some xs ∨ lists h = none ∧ xs = []) (nodup : ys.Nodup)
    (ring : Path s'.next s'.prev (.head h) (links η ys) (.head h))
    (own : ∀ n ∈ ys, n ∈ xs ∨ lists.Free n)
    (others : ∀ p, p ∉ .head h :: links η xs → (∀ n ∈ ys, p ≠ .node n) →
      s'.next p = s.next p ∧ s'.prev p = s.prev p)
    (unlinked : ∀ n, s'.node n = none ↔ n ∉ ys ∧ (n ∈ xs ∨ s.node n = none)) :
    Represents (update lists h (some ys)) s' := by
  have list : ∀ n ∈ xs, lists h = some xs := by
    rcases before with list | ⟨-, rfl⟩
    · exact fun _ _ => list
    · exact fun _ inside => absurd inside not_mem_nil
  have away {h' : η} {zs : List ν} {n : ν} (other : h' ≠ h) (list' : lists h' = some zs)
      (inside : n ∈ zs) : n ∉ ys := by
    intro member
    rcases own n member with mine | free
    · exact other (represents.apart h' h zs xs n list' (list n mine) inside mine)
    · exact free h' zs list' inside
  constructor
  case rings =>
    intro h' zs list'
    rcases Lists.of_update list' with ⟨rfl, rfl⟩ | ⟨other, list'⟩
    · exact ring
    · refine represents.kept_ring list' fun p member => ?_
      refine others p (represents.apart_links list list' other member) fun n inside isNode => ?_
      subst isNode
      rcases mem_cons.mp member with isHead | member
      · cases isHead
      · exact away other list' (node_mem_links.mp member) inside
  case nodup =>
    intro h' zs list'
    rcases Lists.of_update list' with ⟨rfl, rfl⟩ | ⟨-, list'⟩
    · exact nodup
    · exact represents.nodup h' zs list'
  case apart =>
    intro h₁ h₂ xs₁ xs₂ n list₁ list₂ inside₁ inside₂
    rcases Lists.of_update list₁ with ⟨rfl, rfl⟩ | ⟨other₁, old₁⟩ <;>
      rcases Lists.of_update list₂ with ⟨rfl, rfl⟩ | ⟨other₂, old₂⟩
    · rfl
    · exact absurd inside₁ (away other₂ old₂ inside₂)
    · exact absurd inside₂ (away other₁ old₁ inside₁)
    · exact represents.apart h₁ h₂ xs₁ xs₂ n old₁ old₂ inside₁ inside₂
  case unlinked =>
    intro n
    rw [unlinked n, represents.unlinked n]
    constructor
    · rintro ⟨outside, old⟩ h' zs list'
      rcases Lists.of_update list' with ⟨rfl, rfl⟩ | ⟨other, list'⟩
      · exact outside
      · rcases old with mine | free
        · exact fun inside => other (represents.apart h' h zs xs n list' (list n mine) inside mine)
        · exact free h' zs list'
    · intro free
      refine ⟨free h ys (update_self ..), ?_⟩
      by_cases mine : n ∈ xs
      · exact .inl mine
      · refine .inr fun h' zs list' => ?_
        by_cases same : h' = h
        · subst same
          rcases before with list | ⟨none, -⟩
          · cases list.symm.trans list'
            exact mine
          · cases none.symm.trans list'
        · exact free h' zs (by rw [update_of_ne same, list'])

theorem init (unused : lists h = none ∨ lists h = some []) :
    Represents (update lists h (some [])) (s.init h) := by
  have kept {p : Ptr η ν} (other : p ≠ .head h) : (s.init h).link p = s.link p := by
    cases p with
    | dangling => rfl
    | head h' =>
      exact congrArg some (update_of_ne (fun same => other (congrArg _ same)) _ _)
    | node n => rfl
  have own : (s.init h).link (.head h) = some ⟨.head h, .head h⟩ := congrArg some (update_self ..)
  refine represents.of_list (unused.symm.imp_right fun none => ⟨none, rfl⟩) nodup_nil ?_
    (fun _ inside => absurd inside not_mem_nil) ?_ ?_
  · simp [links, Heap.next, Heap.prev, own]
  · intro p outside _
    have other : p ≠ .head h := by simpa [links] using outside
    rw [Heap.next, Heap.prev, kept other]
    exact ⟨rfl, rfl⟩
  · intro n
    simp [Heap.init]

variable [DecidableEq ν]

section

variable (list : lists h = some xs) (free : lists.Free n)
include list free

theorem add (perm : ys.Perm (n :: xs)) (memberPrev : p ∈ .head h :: links η xs)
    (memberNext : q ∈ .head h :: links η xs) (ring : ∀ next prev : Ptr η ν → Ptr η ν,
      next = update (update s.next (.node n) q) p (.node n) →
      prev = update (update s.prev (.node n) p) q (.node n) →
      Path next prev (.head h) (links η ys) (.head h)) :
    ∃ s', s.add n p q = .ok s' ∧ Represents (update lists h (some ys)) s' := by
  obtain ⟨s', ran, nextEq, prevEq, linkedIff⟩ := add_ok ((represents.unlinked n).mpr free)
    (represents.linked list memberPrev) (represents.linked list memberNext)
  refine ⟨s', ran, represents.of_list (.inl list) ?_ (ring _ _ nextEq prevEq) ?_ ?_ ?_⟩
  · exact perm.nodup_iff.mpr (List.nodup_cons.mpr ⟨free h xs list, represents.nodup h xs list⟩)
  · intro m member
    rcases mem_cons.mp (perm.mem_iff.mp member) with rfl | member
    · exact .inr free
    · exact .inl member
  · intro r outside notNode
    have away : r ≠ .node n := notNode n (perm.mem_iff.mpr mem_cons_self)
    have notPrev : r ≠ p := fun same => outside (same ▸ memberPrev)
    have notNext : r ≠ q := fun same => outside (same ▸ memberNext)
    rw [nextEq, prevEq]
    simp [away, notPrev, notNext]
  · intro m
    have found := linkedIff (.node m)
    simp only [Heap.Linked, link, Ptr.node.injEq, isSome_iff_ne_none] at found
    have inside : m ∈ xs → s.node m ≠ none :=
      fun member none => (represents.unlinked m).mp none h xs list member
    rw [perm.mem_iff, mem_cons]
    tauto

theorem addHead : ∃ s', s.addHead h n = .ok s' ∧
      Represents (update lists h (some (n :: xs))) s' := by
  have ring := represents.rings h xs list
  have first : (s.head h).next = (links η xs).headD (.head h) := ring.first.1
  rw [Heap.addHead, first]
  refine represents.add list free (List.Perm.refl _) mem_cons_self headD_mem_cons ?_
  rintro next prev rfl rfl
  exact ring.ring_cons (represents.nodup_ring list) (free.not_mem_ring list)

theorem addTail : ∃ s', s.addTail h n = .ok s' ∧
      Represents (update lists h (some (xs ++ [n]))) s' := by
  have ring := represents.rings h xs list
  have last : (s.head h).prev = (links η xs).getLastD (.head h) := ring.last.2
  rw [Heap.addTail, last]
  refine represents.add list free (perm_append_singleton n xs) getLastD_mem_cons
    mem_cons_self ?_
  rintro next prev rfl rfl
  rw [show links η (xs ++ [n]) = links η xs ++ [.node n] from map_append]
  exact ring.ring_append (represents.nodup_ring list) (free.not_mem_ring list)

end

theorem delete {front back : List ν} (list : lists h = some (front ++ n :: back)) :
    ∃ s', s.delete n = .ok s' ∧ s'.node n = none ∧
      Represents (update lists h (some (front ++ back))) s' := by
  have ring := represents.rings h _ list
  have nodupRing := represents.nodup_ring list
  have split : links η (front ++ n :: back) = links η front ++ .node n :: links η back := by
    simp [links]
  have splitRest : links η (front ++ back) = links η front ++ links η back := map_append
  rw [split] at ring nodupRing
  have perm : (front ++ n :: back).Perm (n :: (front ++ back)) := perm_middle
  have nodup := List.nodup_cons.mp (perm.nodup_iff.mp (represents.nodup h _ list))
  -- The neighbours of the node.
  have prevEq := (path_append.mp ring).1.last.2
  have nextEq := (path_append.mp ring).2.first.1
  have whole : ∀ p, p ∈ .head h :: links η front ∨ p ∈ .head h :: links η back →
      p ∈ .head h :: links η (front ++ n :: back) ∧ p ≠ .node n := by
    intro p member
    have inside : p = .head h ∨ p ∈ links η (front ++ back) := by
      rw [splitRest, mem_append]
      rw [mem_cons, mem_cons] at member
      tauto
    rcases inside with rfl | inside
    · exact ⟨mem_cons_self, by simp⟩
    · obtain ⟨m, inRest, rfl⟩ := List.mem_map.mp inside
      refine ⟨mem_cons_of_mem _ (node_mem_links.mpr
        (perm.mem_iff.mpr (mem_cons_of_mem _ inRest))), fun same => ?_⟩
      exact nodup.1 (Ptr.node.inj same ▸ inRest)
  have memberPrev := whole ((links η front).getLastD (.head h)) (.inl getLastD_mem_cons)
  have memberNext := whole ((links η back).headD (.head h)) (.inr headD_mem_cons)
  have memberThis : .node n ∈ .head h :: links η (front ++ n :: back) :=
    mem_cons_of_mem _ (node_mem_links.mpr (by simp))
  rw [← prevEq] at memberPrev
  rw [← nextEq] at memberNext
  obtain ⟨s', ran, gone, edits, linkedIff⟩ := delete_ok (represents.linked list memberThis)
    (represents.linked list memberPrev.1) (represents.linked list memberNext.1) memberPrev.2
  refine ⟨s', ran, gone, represents.of_list (.inl list) nodup.2 ?_ ?_ ?_ ?_⟩
  · rw [splitRest]
    rw [prevEq, nextEq] at edits
    exact ring.ring_remove nodupRing (fun p other => (edits p other).1)
      fun p other => (edits p other).2
  · exact fun m inside => .inl (perm.mem_iff.mpr (mem_cons_of_mem _ inside))
  · intro r outside _
    have other : ∀ p ∈ .head h :: links η (front ++ n :: back), r ≠ p :=
      fun p member same => outside (same ▸ member)
    obtain ⟨nextR, prevR⟩ := edits r (other _ memberThis)
    rw [update_of_ne (other _ memberPrev.1)] at nextR
    rw [update_of_ne (other _ memberNext.1)] at prevR
    exact ⟨nextR, prevR⟩
  · intro m
    have found := linkedIff (.node m)
    simp only [Heap.Linked, link, ne_eq, Ptr.node.injEq, isSome_iff_ne_none] at found
    have inside : m ∈ front ++ n :: back → s.node m ≠ none :=
      fun member none => (represents.unlinked m).mp none h _ list member
    have apart : m = n → m ∉ front ++ back := fun same => same ▸ nodup.1
    rw [perm.mem_iff, mem_cons] at inside ⊢
    tauto

end Represents

theorem collect_path [DecidableEq η] [DecidableEq ν] {head : Ptr η ν} {nodes : List (Ptr η ν)}
    {rounds : Nat} (path : Path s.next s.prev p nodes head) (linked : ∀ q ∈ nodes, s.Linked q)
    (away : head ∉ nodes) (enough : nodes.length < rounds) :
    collect s rounds ⟨head, if s.next p ≠ head then some (s.next p) else none⟩ =
      .ok nodes := by
  induction nodes generalizing p rounds with
  | nil =>
    cases rounds with
    | zero => exact absurd enough (Nat.not_lt_zero _)
    | succ rounds =>
      rw [path.1, if_neg (not_not.mpr rfl)]
      rfl
  | cons node nodes ih =>
    cases rounds with
    | zero => exact absurd enough (Nat.not_lt_zero _)
    | succ rounds =>
      have other : node ≠ head := fun same => away (same ▸ mem_cons_self)
      obtain ⟨link, there⟩ := isSome_iff_exists.mp (linked node mem_cons_self)
      have nextEq : link.next = s.next node := by rw [Heap.next, there]; rfl
      have rest := ih path.2.2 (fun q member => linked q (mem_cons_of_mem _ member))
        (fun member => away (mem_cons_of_mem _ member))
        (Nat.lt_of_succ_lt_succ enough)
      rw [path.1, if_pos other, collect]
      simp only [step, there, nextEq, ok_bind, rest]
      rfl

section History

variable [DecidableEq η] [DecidableEq ν]

/-- The list as its operations show it. -/
structure Heap.Shows (s : Heap η ν) (h : η) (xs : List ν) : Prop where
  ring : Path s.next s.prev (.head h) (links η xs) (.head h)
  nodup : xs.Nodup
  iterates : ∀ rounds, xs.length < rounds →
    (s.iter h >>= fun it => it.collect s rounds) = .ok (links η xs)
  isEmpty : s.isEmpty h = .ok (decide (xs = []))

/-- Links in step with the lists show the sequence of each. -/
theorem Represents.shows {lists : Lists η ν} {xs : List ν} (represents : Represents lists s)
    (list : lists h = some xs) : s.Shows h xs := by
  have ring := represents.rings h xs list
  have first : (s.head h).next = (links η xs).headD (.head h) := ring.first.1
  have last : (s.head h).prev = (links η xs).getLastD (.head h) := ring.last.2
  have notDangling : ∀ p ∈ .head h :: links η xs, p ≠ .dangling := by
    intro p member
    rcases mem_cons.mp member with rfl | member
    · simp
    · obtain ⟨n, -, rfl⟩ := List.mem_map.mp member
      simp
  have initialized : s.initialized h = true := by
    rw [initialized, first, last]
    simp only [Bool.and_eq_true, bne_iff_ne]
    exact ⟨notDangling _ getLastD_mem_cons, notDangling _ headD_mem_cons⟩
  refine ⟨ring, represents.nodup h xs list, fun rounds enough => ?_, ?_⟩
  · rw [Heap.iter, if_pos initialized]
    exact collect_path ring (fun q member => represents.linked list (mem_cons_of_mem _ member))
      head_not_mem_links (by simpa [links] using enough)
  · rw [Heap.isEmpty, if_pos initialized, first, last]
    cases xs with
    | nil | cons => simp [links]

/-- The calls on lists; `delete` names the list the node should be in, which the code does not. -/
inductive Op (η ν : Type)
  | init (h : η)
  | addHead (h : η) (n : ν)
  | addTail (h : η) (n : ν)
  | delete (h : η) (n : ν)
  deriving DecidableEq

def Op.run (s : Heap η ν) : Op η ν → Except ListPanic (Heap η ν)
  | .init h => .ok (s.init h)
  | .addHead h n => s.addHead h n
  | .addTail h n => s.addTail h n
  | .delete _ n => s.delete n

def Op.apply (lists : Lists η ν) : Op η ν → Lists η ν
  | .init h => update lists h (some [])
  | .addHead h n => update lists h ((lists h).map fun xs => n :: xs)
  | .addTail h n => update lists h ((lists h).map fun xs => xs ++ [n])
  | .delete h n => update lists h ((lists h).map fun xs => xs.erase n)

/-- A list is initialised while it has no node and before it is used, a node is added while it is in
no list, and it is deleted from the list it is in. -/
def Op.Allowed (lists : Lists η ν) : Op η ν → Prop
  | .init h => lists h = none ∨ lists h = some []
  | .addHead h n | .addTail h n => (∃ xs, lists h = some xs) ∧ lists.Free n
  | .delete h n => ∃ xs, lists h = some xs ∧ n ∈ xs

/-- An allowed call runs and keeps the links in step with the lists. -/
theorem Represents.step {lists : Lists η ν} (represents : Represents lists s) {op : Op η ν}
    (allowed : op.Allowed lists) : ∃ s', op.run s = .ok s' ∧ Represents (op.apply lists) s' := by
  cases op with
  | init h => exact ⟨s.init h, rfl, represents.init allowed⟩
  | addHead h n =>
    obtain ⟨⟨xs, list⟩, free⟩ := allowed
    rw [Op.apply, list]
    exact represents.addHead list free
  | addTail h n =>
    obtain ⟨⟨xs, list⟩, free⟩ := allowed
    rw [Op.apply, list]
    exact represents.addTail list free
  | delete h n =>
    obtain ⟨xs, list, inside⟩ := allowed
    obtain ⟨front, back, -, split, erased⟩ := exists_erase_eq inside
    obtain ⟨s', ran, -, after⟩ := represents.delete (list.trans (congrArg some split))
    rw [Op.apply, list, map_some, erased]
    exact ⟨s', ran, after⟩

/-- Each call is allowed in the lists that the calls before it left. -/
def AllAllowed : Lists η ν → List (Op η ν) → Prop
  | _, [] => True
  | lists, op :: ops => op.Allowed lists ∧ AllAllowed (op.apply lists) ops

/-- Allowed calls run and keep the links in step with the lists. -/
theorem Represents.run {lists : Lists η ν} (represents : Represents lists s) {ops : List (Op η ν)}
    (allowed : AllAllowed lists ops) : ∃ s', ops.foldlM (fun s op => op.run s) s = .ok s' ∧
      Represents (ops.foldl (fun lists op => op.apply lists) lists) s' := by
  induction ops generalizing lists s with
  | nil => exact ⟨s, rfl, represents⟩
  | cons op ops ih =>
    obtain ⟨t, ran, next⟩ := represents.step allowed.1
    obtain ⟨s', rest, after⟩ := ih next allowed.2
    refine ⟨s', ?_, after⟩
    rw [foldlM_cons, ran]
    exact rest

/-- Calls in an order that is allowed, from heads that are not initialised and nodes in no list. -/
structure History (η ν : Type) [DecidableEq η] [DecidableEq ν] where
  ops : List (Op η ν)
  allowed : AllAllowed (fun _ => none) ops

/-- What the lists should hold after the calls. -/
def History.lists (history : History η ν) : Lists η ν :=
  history.ops.foldl (fun lists op => op.apply lists) fun _ => none

/-- The links after the calls. -/
def History.run (history : History η ν) : Except ListPanic (Heap η ν) :=
  history.ops.foldlM (fun s op => op.run s) fresh

/-- After every history the lists are rings through their sequences, and iterators and `is_empty`
say so. Deleting a node takes it out of its sequence and its link away. A node in no list has no
link and can be added to every list. -/
theorem history_shows (history : History η ν) : ∃ s, history.run = .ok s ∧
    (∀ h xs, history.lists h = some xs → s.Shows h xs ∧
      ∀ n ∈ xs, ∃ t, s.delete n = .ok t ∧ t.isLinked n = false ∧ t.Shows h (xs.erase n)) ∧
    ∀ n, history.lists.Free n → s.isLinked n = false ∧
      ∀ h xs, history.lists h = some xs →
        (∃ t, s.addHead h n = .ok t ∧ t.Shows h (n :: xs)) ∧
          ∃ t, s.addTail h n = .ok t ∧ t.Shows h (xs ++ [n]) := by
  obtain ⟨s, ran, represents⟩ := fresh_represents.run history.allowed
  refine ⟨s, ran, fun h xs list => ⟨represents.shows list, fun n inside => ?_⟩,
    fun n free => ⟨?_, fun h xs list => ?_⟩⟩
  · obtain ⟨front, back, -, split, erased⟩ := exists_erase_eq inside
    obtain ⟨t, deleted, gone, after⟩ := represents.delete (list.trans (congrArg some split))
    refine ⟨t, deleted, by rw [isLinked, gone]; rfl, ?_⟩
    rw [erased]
    exact after.shows (update_self ..)
  · rw [isLinked, (represents.unlinked n).mpr free]
    rfl
  · obtain ⟨front, ranFront, afterFront⟩ := represents.addHead list free
    obtain ⟨back, ranBack, afterBack⟩ := represents.addTail list free
    exact ⟨⟨front, ranFront, afterFront.shows (update_self ..)⟩,
      back, ranBack, afterBack.shows (update_self ..)⟩

/-- Two nodes are added to a list, and the first is taken out again. -/
def twoNodes : History Unit Nat where
  ops := [.init (), .addTail () 1, .addTail () 2, .delete () 1]
  allowed := by simp [AllAllowed, Op.Allowed, Op.apply, Lists.Free]

/-- The second node is left in the ring, and the first can be added again. -/
theorem history_shows_twoNodes : ∃ s, twoNodes.run = .ok s ∧ s.Shows () [2] ∧
    ∃ t, s.addHead () 1 = .ok t ∧ t.Shows () [1, 2] := by
  obtain ⟨s, ran, shows, added⟩ := history_shows twoNodes
  have free : twoNodes.lists.Free 1 := by
    simp [History.lists, twoNodes, Op.apply, Lists.Free]
  exact ⟨s, ran, (shows () [2] rfl).1, ((added 1 free).2 () [2] rfl).1⟩

end History

end Horizon.IntrusiveList
