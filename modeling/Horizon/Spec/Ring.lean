import Mathlib

/-!
# Rings of nodes

Nodes that are linked forwards and backwards. A path leads from one node through others to a last
one; a ring is a path from a head back to it. Linking a node in and taking one out turn the last or
the first link of a path.
-/

namespace Horizon.Ring

open Function List

variable {α : Type*} {next prev next' prev' : α → α} {a b c : α} {nodes : List α}

/-- From the first node through the given ones to the last, each link in both directions. -/
def Path (next prev : α → α) : α → List α → α → Prop
  | a, [], b => next a = b ∧ prev b = a
  | a, node :: nodes, b => next a = node ∧ prev node = a ∧ Path next prev node nodes b

@[simp]
theorem path_nil : Path next prev a [] b ↔ next a = b ∧ prev b = a := Iff.rfl

@[simp]
theorem path_cons {node : α} : Path next prev a (node :: nodes) b ↔
    next a = node ∧ prev node = a ∧ Path next prev node nodes b := Iff.rfl

theorem path_append {front back : List α} : Path next prev a (front ++ c :: back) b ↔
      Path next prev a front c ∧ Path next prev c back b := by
  induction front generalizing a with
  | nil => simp [and_assoc]
  | cons node front ih => simp [ih, and_assoc]

section

variable (path : Path next prev a nodes b)
include path

theorem Path.last : next (nodes.getLastD a) = b ∧ prev b = nodes.getLastD a := by
  induction nodes generalizing a with
  | nil => exact path
  | cons node nodes ih =>
    rw [getLastD_cons]
    exact ih path.2.2

theorem Path.first : next a = nodes.headD b ∧ prev (nodes.headD b) = a := by
  cases nodes with
  | nil => exact path
  | cons node nodes => exact ⟨path.1, path.2.1⟩

theorem Path.congr (forward : ∀ c ∈ a :: nodes, next' c = next c)
    (backward : ∀ c ∈ nodes ++ [b], prev' c = prev c) : Path next' prev' a nodes b := by
  induction nodes generalizing a with
  | nil => exact ⟨(forward a (by simp)).trans path.1, (backward b (by simp)).trans path.2⟩
  | cons node nodes ih =>
    refine ⟨(forward a (by simp)).trans path.1, (backward node (by simp)).trans path.2.1, ?_⟩
    exact ih path.2.2 (fun c member => forward c (mem_cons_of_mem _ member))
      (fun c member => backward c (mem_cons_of_mem _ member))

theorem Path.redirect (nodup : (a :: nodes).Nodup)
    (forward : ∀ c ∈ a :: nodes, c ≠ nodes.getLastD a → next' c = next c)
    (backward : ∀ c ∈ nodes, prev' c = prev c)
    (linked : next' (nodes.getLastD a) = c ∧ prev' c = nodes.getLastD a) :
    Path next' prev' a nodes c := by
  induction nodes generalizing a with
  | nil => exact linked
  | cons node nodes ih =>
    rw [getLastD_cons] at linked forward
    rw [nodup_cons] at nodup
    -- The first node is not the last one.
    have other : a ≠ nodes.getLastD node := by
      intro same
      apply nodup.1
      rw [same]
      exact getLastD_mem_cons
    refine ⟨(forward a (by simp) other).trans path.1, (backward node (by simp)).trans path.2.1, ?_⟩
    exact ih path.2.2 nodup.2 (fun c member => forward c (mem_cons_of_mem _ member))
      (fun c member => backward c (mem_cons_of_mem _ member)) linked

theorem Path.restart (nodup : (nodes ++ [b]).Nodup) (forward : ∀ c ∈ nodes, next' c = next c)
    (backward : ∀ c ∈ nodes ++ [b], c ≠ nodes.headD b → prev' c = prev c)
    (linked : next' c = nodes.headD b ∧ prev' (nodes.headD b) = c) :
    Path next' prev' c nodes b := by
  cases nodes with
  | nil => exact linked
  | cons node nodes =>
    rw [headD_cons] at linked backward
    rw [cons_append, nodup_cons] at nodup
    refine ⟨linked.1, linked.2, path.2.2.congr forward fun c member => ?_⟩
    exact backward c (mem_cons_of_mem _ member) fun same => nodup.1 (same ▸ member)

end

section Ring

variable {head : α} {front back : List α}

theorem headD_mem_cons : nodes.headD head ∈ head :: nodes := by
  cases nodes with
  | nil => exact mem_cons_self
  | cons node nodes => exact mem_cons_of_mem _ mem_cons_self

variable [DecidableEq α]

section

variable (ring : Path next prev head nodes head) (nodup : (head :: nodes).Nodup)
  (new : c ∉ head :: nodes)
include ring nodup new

theorem Path.ring_cons : Path (update (update next c (nodes.headD head)) head c)
      (update (update prev c head) (nodes.headD head) c)
      head (c :: nodes) head := by
  have away : ∀ node ∈ head :: nodes, node ≠ c := fun node member same => new (same ▸ member)
  rw [nodup_cons] at nodup
  refine ⟨update_self .., ?_, ring.restart ?_ ?_ ?_ ⟨?_, update_self ..⟩⟩
  · rw [update_of_ne (away _ headD_mem_cons).symm, update_self]
  · rw [nodup_append_comm, singleton_append, nodup_cons]
    exact nodup
  · intro node inside
    have notHead : node ≠ head := fun same => nodup.1 (same ▸ inside)
    rw [update_of_ne notHead, update_of_ne (away node (mem_cons_of_mem _ inside))]
  · intro node inside notFirst
    rw [mem_append, mem_singleton] at inside
    rw [update_of_ne notFirst, update_of_ne (away node (List.mem_cons.mpr inside.symm))]
  · rw [update_of_ne (away _ mem_cons_self).symm, update_self]

theorem Path.ring_append : Path (update (update next c head) (nodes.getLastD head) c)
      (update (update prev c (nodes.getLastD head)) head c)
      head (nodes ++ [c]) head := by
  have away : ∀ node ∈ head :: nodes, node ≠ c := fun node member same => new (same ▸ member)
  rw [path_append]
  refine ⟨ring.redirect nodup ?_ ?_ ⟨update_self .., ?_⟩, ?_, update_self ..⟩
  · intro node inside notLast
    rw [update_of_ne notLast, update_of_ne (away node inside)]
  · intro node inside
    have notHead : node ≠ head := fun same => (nodup_cons.mp nodup).1 (same ▸ inside)
    rw [update_of_ne notHead, update_of_ne (away node (mem_cons_of_mem _ inside))]
  · rw [update_of_ne (away _ mem_cons_self).symm, update_self]
  · rw [update_of_ne (away _ getLastD_mem_cons).symm, update_self]

end

theorem Path.ring_remove (ring : Path next prev head (front ++ c :: back) head)
    (nodup : (head :: (front ++ c :: back)).Nodup) (forward : ∀ node ≠ c,
      next' node = update next (front.getLastD head) (back.headD head) node) (backward : ∀ node ≠ c,
      prev' node = update prev (back.headD head) (front.getLastD head) node) :
    Path next' prev' head (front ++ back) head := by
  rw [path_append] at ring
  have nodupFront : (head :: front).Nodup :=
    nodup.sublist (Sublist.cons_cons head (sublist_append_left _ _))
  obtain ⟨notHead, nodupRest⟩ := nodup_cons.mp nodup
  obtain ⟨-, nodupBack, apart⟩ := List.nodup_append.mp nodupRest
  have inFront : front.getLastD head ∈ head :: front := getLastD_mem_cons
  have notThis : ∀ node ∈ head :: front, node ≠ c := by
    intro node inside same
    rcases List.mem_cons.mp inside with rfl | inside
    · exact notHead (by simp [same])
    · exact apart node inside c mem_cons_self same
  cases back with
  | nil =>
    rw [append_nil]
    refine ring.1.redirect nodupFront (fun node inside notLast => ?_) (fun node inside => ?_) ?_
    · rw [forward node (notThis node inside), update_of_ne notLast]
    · have other : node ≠ head := fun same => (nodup_cons.mp nodupFront).1 (same ▸ inside)
      rw [backward node (notThis node (mem_cons_of_mem _ inside)), headD_nil, update_of_ne other]
    · rw [forward _ (notThis _ inFront), backward _ (notThis _ mem_cons_self),
        headD_nil, update_self, update_self]
      exact ⟨rfl, rfl⟩
  | cons z back =>
    rw [headD_cons] at forward backward
    rw [nodup_cons] at nodupBack
    have zNotThis : z ≠ c := fun same => nodupBack.1 (same ▸ mem_cons_self)
    rw [path_append]
    refine ⟨ring.1.redirect nodupFront (fun node inside notLast => ?_) (fun node inside => ?_) ?_,
      ring.2.2.2.congr (fun node inside => ?_) fun node inside => ?_⟩
    · rw [forward node (notThis node inside), update_of_ne notLast]
    · have other : node ≠ z := apart node inside z (mem_cons_of_mem _ mem_cons_self)
      rw [backward node (notThis node (mem_cons_of_mem _ inside)), update_of_ne other]
    · rw [forward _ (notThis _ inFront), backward _ zNotThis, update_self, update_self]
      exact ⟨rfl, rfl⟩
    · have notLast : node ≠ front.getLastD head := by
        intro same
        rw [same] at inside
        rcases List.mem_cons.mp inFront with isHead | inFront
        · rw [isHead] at inside
          exact notHead (mem_append_right _ (mem_cons_of_mem _ inside))
        · exact apart _ inFront _ (mem_cons_of_mem _ inside) rfl
      rw [forward node fun same => nodupBack.1 (same ▸ inside), update_of_ne notLast]
    · have inRest : node ∈ back ∨ node = head := by simpa using inside
      have notZ : node ≠ z := by
        rintro rfl
        rcases inRest with inside | isHead
        · exact (nodup_cons.mp nodupBack.2).1 inside
        · exact notHead (by simp [isHead])
      have other : node ≠ c := by
        rintro rfl
        rcases inRest with inside | isHead
        · exact nodupBack.1 (mem_cons_of_mem _ inside)
        · exact notHead (by simp [isHead])
      rw [backward node other, update_of_ne notZ]

end Ring

end Horizon.Ring
