import Horizon.Kernel.Topology
import Horizon.Spec.Runs

/-!
# Filling the CPU registry

`register` puts the boot CPU at the first place and any other CPU one place behind its own, so the
places are all taken once only when the boot CPU is the last of the list.
-/

namespace Horizon.Topology

open Runs List

/-- A list of the firmware with the boot CPU on it once. -/
structure CpuList (T : Type) where
  cpus : List T
  bsp : CpuHardwareId
  f : T → CpuHardwareId
  once : (cpus.map f).count bsp = 1

/-- As long as the list, every CPU there once, the boot CPU with number zero, and the numbers are
the indices. -/
structure CpuList.Registered {T : Type} (list : CpuList T) (registry : List Cpu) : Prop where
  length : registry.length = list.cpus.length
  perm : (registry.map Cpu.hardwareId).Perm (list.cpus.map list.f)
  boot : ∀ cpu ∈ registry, cpu.hardwareId = list.bsp → cpu.id = ⟨0⟩
  ids : ∀ i (cpu : Cpu), registry[i]? = some cpu → cpu.id.id.toNat = i

section Loop

variable {T : Type} {bsp : CpuHardwareId} {f : T → CpuHardwareId} {registry : List (Option Cpu)}

def entryAt (f : T → CpuHardwareId) (i : Nat) (cpu : T) : Cpu :=
  ⟨⟨UInt32.ofNat (i + 1)⟩, f cpu⟩

theorem registerLoop_others {i : Nat} {cpus : List T} (others : ∀ cpu ∈ cpus, f cpu ≠ bsp)
    (rest : List T) (fits : i + cpus.length < registry.length) :
    registerLoop bsp f i (cpus ++ rest) registry =
      registerLoop bsp f (i + cpus.length) rest (registry.take (i + 1) ++
        cpus.mapIdx (fun k cpu => some (entryAt f (i + k) cpu)) ++
        registry.drop (i + 1 + cpus.length)) := by
  induction cpus generalizing i registry with
  | nil => simp
  | cons cpu cpus ih =>
    rw [length_cons] at fits
    have other : f cpu ≠ bsp := others cpu mem_cons_self
    have written : write registry (i + 1) (entryAt f i cpu) =
        .ok (registry.set (i + 1) (some (entryAt f i cpu))) := if_pos (by omega)
    rw [cons_append, registerLoop, if_neg other]
    change write registry (i + 1) (entryAt f i cpu) >>= _ = _
    rw [written]
    change registerLoop bsp f (i + 1) (cpus ++ rest) _ = _
    rw [ih (fun cpu member => others cpu (mem_cons_of_mem _ member))
      (by rw [length_set]; omega)]
    have front : (registry.set (i + 1) (some (entryAt f i cpu))).take (i + 1 + 1) =
        registry.take (i + 1) ++ [some (entryAt f i cpu)] := by
      rw [take_add_one, take_set_of_le (le_refl _), getElem?_set_self (by omega)]
      rfl
    have back : (registry.set (i + 1) (some (entryAt f i cpu))).drop (i + 1 + 1 + cpus.length) =
        registry.drop (i + 1 + (cpus.length + 1)) := by
      rw [drop_set_of_lt (by omega)]
      congr 1
      omega
    rw [front, back, mapIdx_cons, length_cons, add_assoc i 1, add_comm 1]
    simp [add_assoc, add_comm 1]

theorem registerLoop_last {i : Nat} {cpus : List T} {last : T} (other : f last ≠ bsp)
    (short : registry.length ≤ i + cpus.length + 1) :
    registerLoop bsp f i (cpus ++ [last]) registry = .error .indexOutOfBounds := by
  induction cpus generalizing i registry with
  | nil =>
    rw [nil_append, registerLoop, if_neg other, write, if_neg (by simpa using short)]
    rfl
  | cons cpu cpus ih =>
    rw [length_cons] at short
    have step : ∀ slot entry, (write registry slot entry >>= fun registry =>
        registerLoop bsp f (i + 1) (cpus ++ [last]) registry) = .error .indexOutOfBounds := by
      intro slot entry
      rw [write]
      split
      · exact ih (by rw [length_set]; omega)
      · rfl
    rw [cons_append, registerLoop]
    dsimp only
    split
    · exact step _ _
    · exact step _ _

end Loop

namespace CpuList

variable {T : Type} {list : CpuList T}

def registry (list : CpuList T) (others : List T) : List Cpu :=
  ⟨⟨0⟩, list.bsp⟩ :: others.mapIdx (entryAt list.f)

theorem registry_getElem? (others : List T) (i : Nat) :
    (list.registry others)[i + 1]? = others[i]?.map (entryAt list.f i) := by
  rw [registry, getElem?_cons_succ, getElem?_mapIdx]

section

variable {others : List T} {boot : T} (cpus : list.cpus = others ++ [boot])
  (isBoot : list.f boot = list.bsp)
include cpus isBoot

theorem register_of_last (distinct : ∀ cpu ∈ others, list.f cpu ≠ list.bsp) :
    register list.cpus list.bsp list.f = .ok ((list.registry others).map some) := by
  have length : list.cpus.length = others.length + 1 := by rw [cpus]; simp
  rw [register, length, cpus, registerLoop_others distinct [boot] (by simp)]
  have taken : (replicate (others.length + 1) (none : Option Cpu)).take (0 + 1) = [none] := by
    rw [take_replicate, show min (0 + 1) (others.length + 1) = 1 by omega]
    rfl
  have dropped : (replicate (others.length + 1) (none : Option Cpu)).drop
      (0 + 1 + others.length) = [] := by
    rw [drop_replicate, show others.length + 1 - (0 + 1 + others.length) = 0 by omega]
    rfl
  rw [taken, dropped, append_nil, registerLoop, if_pos isBoot, write]
  rw [if_pos (by simp), isBoot]
  have entries : others.mapIdx (fun k cpu => some (entryAt list.f (0 + k) cpu)) =
      (others.mapIdx (entryAt list.f)).map some := by
    apply ext_getElem?
    intro i
    simp [Function.comp_def]
  rw [entries]
  rfl

theorem others_ne : ∀ cpu ∈ others, list.f cpu ≠ list.bsp := by
  intro cpu member same
  have once := list.once
  rw [cpus, map_append, count_append, map_singleton, isBoot, count_singleton_self] at once
  have there : 0 < (others.map list.f).count list.bsp :=
    List.count_pos_iff.mpr (same ▸ mem_map_of_mem member)
  omega

theorem registry_registered (fits : list.cpus.length ≤ 2 ^ 32) :
    list.Registered (list.registry others) := by
  have length : list.cpus.length = others.length + 1 := by rw [cpus]; simp
  constructor
  case length => rw [length]; simp [registry]
  case perm =>
    have ids : (list.registry others).map Cpu.hardwareId = list.bsp :: others.map list.f := by
      apply ext_getElem?
      intro i
      cases i with
      | zero => rfl
      | succ i =>
        rw [getElem?_map, registry_getElem?, Option.map_map, getElem?_cons_succ, getElem?_map]
        rfl
    rw [ids, cpus, map_append, map_singleton, isBoot]
    exact (perm_append_singleton list.bsp _).symm
  case boot =>
    intro cpu member same
    rcases List.mem_cons.mp member with rfl | member
    · rfl
    · obtain ⟨i, inside, rfl⟩ := List.mem_mapIdx.mp member
      exact absurd same (others_ne cpus isBoot _ (getElem_mem inside))
  case ids =>
    intro i cpu found
    cases i with
    | zero =>
      cases found
      rfl
    | succ i =>
      rw [registry_getElem?, Option.map_eq_some_iff] at found
      obtain ⟨other, there, rfl⟩ := found
      have inside : i < others.length := (List.getElem?_eq_some_iff.mp there).1
      exact UInt32.toNat_ofNat_of_lt (lt_of_lt_of_le (by omega) fits)

end

end CpuList

/-- `register` fills the registry as it should exactly when the boot CPU is the last of the list, as
long as the numbers fit. -/
theorem register_right_iff {T : Type} (list : CpuList T) :
    (∃ registry, register list.cpus list.bsp list.f = .ok (registry.map some) ∧
        list.Registered registry) ↔
      (list.cpus.map list.f).getLast? = some list.bsp ∧ list.cpus.length ≤ 2 ^ 32 := by
  have split : ∃ others last, list.cpus = others ++ [last] := by
    rcases eq_nil_or_concat list.cpus with none | ⟨others, last, cpus⟩
    · have once := list.once
      rw [none] at once
      cases once
    · exact ⟨others, last, by rw [cpus, concat_eq_append]⟩
  obtain ⟨others, last, cpus⟩ := split
  have lastOf : (list.cpus.map list.f).getLast? = some (list.f last) := by
    rw [cpus, map_append, map_singleton, getLast?_concat]
  rw [lastOf]
  constructor
  · rintro ⟨registry, ran, registered⟩
    constructor
    · by_contra other
      have short : (replicate list.cpus.length (none : Option Cpu)).length ≤
          0 + others.length + 1 := by
        rw [length_replicate, cpus]
        simp
      have failed := registerLoop_last (fun same => other (congrArg some same)) short
      rw [← cpus] at failed
      rw [register, failed] at ran
      cases ran
    · by_contra long
      rw [not_le, ← registered.length] at long
      have number := registered.ids (2 ^ 32) registry[2 ^ 32] (getElem?_eq_getElem long)
      exact absurd number (ne_of_lt (UInt32.toNat_lt _))
  · rintro ⟨isBoot, fits⟩
    injection isBoot with isBoot
    exact ⟨list.registry others,
      CpuList.register_of_last cpus isBoot (CpuList.others_ne cpus isBoot),
      CpuList.registry_registered cpus isBoot fits⟩

def bootFirst : CpuList CpuHardwareId := ⟨[⟨0⟩, ⟨1⟩], ⟨0⟩, id, by decide⟩

/-- The second CPU is written past the end. -/
theorem register_bootFirst :
    ¬∃ registry, register bootFirst.cpus bootFirst.bsp bootFirst.f = .ok (registry.map some) ∧
      bootFirst.Registered registry := by
  rintro ⟨registry, ran, -⟩
  have failed : register bootFirst.cpus bootFirst.bsp bootFirst.f = .error .indexOutOfBounds := by
    decide
  rw [failed] at ran
  cases ran

end Horizon.Topology
