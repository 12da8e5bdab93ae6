import Mathlib

/-!
# Tilings of a set of natural numbers by blocks

A multiset of blocks, each with a finite span, tiles a region when every point of it lies in exactly
one block and no block reaches outside. The covering blocks of a point are additive over multisets,
so a tiling is carried through moving, cutting and joining blocks by arithmetic on that count.
-/

namespace Horizon.Tiling

open Multiset

variable {β : Type*} {span : β → Finset ℕ} {blocks others : Multiset β} {region : Set ℕ}

def cover (span : β → Finset ℕ) (blocks : Multiset β) (point : ℕ) : ℕ :=
  blocks.countP (point ∈ span ·)

@[simp] theorem cover_zero (point : ℕ) : cover span 0 point = 0 := rfl

@[simp] theorem cover_cons (block : β) (point : ℕ) : cover span (block ::ₘ blocks) point =
      cover span blocks point + if point ∈ span block then 1 else 0 :=
  countP_cons _ _ _

@[simp] theorem cover_add (point : ℕ) :
    cover span (blocks + others) point = cover span blocks point + cover span others point :=
  countP_add _ _ _

theorem cover_pos {block : β} (member : block ∈ blocks) {point : ℕ} (inside : point ∈ span block) :
    0 < cover span blocks point :=
  Multiset.countP_pos.mpr ⟨block, member, inside⟩

/-- The blocks cover each point of the region once, and no other point. -/
def Tiles (span : β → Finset ℕ) (blocks : Multiset β) (region : Set ℕ) : Prop :=
  ∀ point, (point ∈ region → cover span blocks point = 1) ∧
    (point ∉ region → cover span blocks point = 0)

theorem tiles_of_cover_le_one (once : ∀ point, cover span blocks point ≤ 1) :
    Tiles span blocks {point | ∃ block ∈ blocks, point ∈ span block} := by
  intro point
  constructor
  · rintro ⟨block, member, inside⟩
    have := cover_pos member inside
    have := once point
    omega
  · intro outside
    exact Multiset.countP_eq_zero.mpr fun block member inside => outside ⟨block, member, inside⟩

theorem tiles_of_pairwise
    (apart : blocks.Pairwise fun block other => Disjoint (span block) (span other)) :
    Tiles span blocks {point | ∃ block ∈ blocks, point ∈ span block} := by
  obtain ⟨list, rfl, pairwise⟩ := apart
  refine tiles_of_cover_le_one ?_
  induction list with
  | nil => exact fun _ => Nat.zero_le 1
  | cons block rest ih =>
    obtain ⟨head, tail⟩ := List.pairwise_cons.mp pairwise
    intro point
    rw [← cons_coe, cover_cons]
    by_cases inside : point ∈ span block
    · have none : cover span (rest : Multiset β) point = 0 := by
        refine Multiset.countP_eq_zero.mpr fun other member inOther => ?_
        exact Finset.disjoint_left.mp (head other (by exact_mod_cast member)) inside inOther
      rw [if_pos inside, none]
    · rw [if_neg inside]
      exact ih tail point

section

variable (tiles : Tiles span blocks region)
include tiles

theorem Tiles.of_cover_eq (same : ∀ point, cover span others point = cover span blocks point) :
    Tiles span others region := by
  intro point
  rw [same]
  exact tiles point

theorem Tiles.mem_iff (point : ℕ) : point ∈ region ↔ ∃ block ∈ blocks, point ∈ span block := by
  constructor
  · intro inside
    have covered : 0 < cover span blocks point := by rw [(tiles point).1 inside]; exact one_pos
    exact Multiset.countP_pos.mp covered
  · rintro ⟨block, member, inside⟩
    by_contra outside
    have covered := cover_pos member inside
    rw [(tiles point).2 outside] at covered
    exact absurd covered (lt_irrefl 0)

theorem Tiles.cover_le_one (point : ℕ) : cover span blocks point ≤ 1 := by
  by_cases inside : point ∈ region
  · exact ((tiles point).1 inside).le
  · rw [(tiles point).2 inside]
    exact Nat.zero_le 1

theorem Tiles.sum_card_le {bound : ℕ} (below : ∀ block ∈ blocks, span block ⊆ Finset.range bound) :
    (blocks.map fun block => (span block).card).sum ≤ bound := by
  have counted : (blocks.map fun block => (span block).card).sum =
      ∑ point ∈ Finset.range bound, cover span blocks point := by
    clear tiles
    induction blocks using Multiset.induction_on with
    | empty => simp
    | cons block rest ih =>
      rw [map_cons, sum_cons, ih fun other member => below other (mem_cons_of_mem member)]
      simp only [cover_cons, Finset.sum_add_distrib, Finset.sum_boole, Nat.cast_id]
      rw [Finset.filter_mem_eq_inter,
        Finset.inter_eq_right.mpr (below block (mem_cons_self _ _)), add_comm]
  rw [counted]
  calc ∑ point ∈ Finset.range bound, cover span blocks point
      ≤ ∑ _point ∈ Finset.range bound, 1 :=
        Finset.sum_le_sum fun point _ => tiles.cover_le_one point
    _ = bound := by simp

end

theorem Tiles.disjoint_of_cons {block other : β} (tiles : Tiles span (block ::ₘ blocks) region)
    (member : other ∈ blocks) : Disjoint (span block) (span other) := by
  rw [Finset.disjoint_left]
  intro point inside inOther
  have once := tiles.cover_le_one point
  have covered := cover_pos member inOther
  rw [cover_cons, if_pos inside] at once
  omega

theorem Tiles.pairwise_disjoint (tiles : Tiles span blocks region) :
    blocks.Pairwise fun block other => Disjoint (span block) (span other) := by
  have spread : ∀ list : List β, (∀ point, cover span (list : Multiset β) point ≤ 1) →
      list.Pairwise fun block other => Disjoint (span block) (span other) := by
    intro list
    induction list with
    | nil => exact fun _ => List.Pairwise.nil
    | cons block rest ih =>
      intro once
      have step : ∀ point, cover span (rest : Multiset β) point +
          (if point ∈ span block then 1 else 0) ≤ 1 := by
        intro point
        have bound := once point
        rwa [← cons_coe, cover_cons] at bound
      refine List.Pairwise.cons (fun other member => ?_) (ih fun point => ?_)
      · rw [Finset.disjoint_left]
        intro point inside inOther
        have covered :=
          cover_pos (show other ∈ (rest : Multiset β) by exact_mod_cast member) inOther
        have bound := step point
        rw [if_pos inside] at bound
        omega
      · exact le_trans (Nat.le_add_right _ _) (step point)
  induction blocks using Quotient.inductionOn with
  | h list => exact ⟨list, rfl, spread list tiles.cover_le_one⟩

end Horizon.Tiling
