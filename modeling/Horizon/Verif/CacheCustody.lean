import Horizon.Kernel.MemCache
import Horizon.Spec.Custody
import Horizon.Verif.Slub

/-!
# Custody of slabs

Any number of `allocate` calls on one cache, interleaved at the exchanges of the slot and at the
critical sections. A failed `compare_exchange` returns the slab in the slot, not the one the call
holds: the call goes on with a slab that is still in the slot.
-/

namespace Horizon.Slub

open Custody MemCache List

/-- Where a call of `MemCache::allocate` stands; the flag says that the slab came from the slot. -/
inductive Task
  | idle
  | entered
  /-- Before `Slub::allocate` on the slab in hand. -/
  | allocating (slab : Nat) (fromSlot : Bool)
  | storing (slab : Nat) (fromSlot : Bool) (result : Option Nat)
  /-- In `store`, before the `compare_exchange`. -/
  | exchanging (slab : Nat) (fromSlot : Bool) (result : Option Nat)
  /-- In `store`, before `put` of what the exchange returned. -/
  | putting (slab : Nat) (fromSlot : Bool) (result : Option Nat)
  | fetching
  | creating
  | returned (result : Option Nat)
  deriving DecidableEq

namespace Task

def hand : Task → Option Nat
  | .allocating slab _ | .storing slab _ _ | .exchanging slab _ _ | .putting slab _ _ => some slab
  | _ => none

/-- What follows `store`: a call that got nothing from the slot goes to the node. -/
def afterStore (fromSlot : Bool) (result : Option Nat) : Task :=
  if fromSlot && result.isNone then .fetching else .returned result

@[simp] theorem hand_afterStore (fromSlot : Bool) (result : Option Nat) :
    (afterStore fromSlot result).hand = none := by
  unfold afterStore
  split <;> rfl

end Task

/-- A cache with its running calls and the blocks it took from the buddy allocator. -/
structure Machine where
  cache : MemCache
  tasks : Nat → Task
  taken : List Nat

/-- What happens to the cache: calls start and go on, and objects are freed. -/
inductive Event
  | call (task : Nat)
  /-- A call takes its next atomic step or critical section. -/
  | step (task : Nat)
  /-- `Slub::new` returns to a call, with a block and its contents or without. -/
  | create (task : Nat) (block : Option (Nat × (Nat → Nat)))
  | deallocate (slab object : Nat)

namespace Machine

def set (m : Machine) (cache : MemCache) (task : Nat) (next : Task) : Machine :=
  { m with cache := cache, tasks := Function.update m.tasks task next }

/-- The next atomic step of a call; a call that panics takes none. -/
def advance (memCache : Nat) (m : Machine) (task : Nat) : Option Machine :=
  match m.tasks task with
  | .entered =>
    match m.cache.swapSlot with
    | (some slab, cache) => some (m.set cache task (.allocating slab true))
    | (none, cache) => some (m.set cache task .fetching)
  | .allocating slab fromSlot =>
    let (result, cache) := m.cache.allocateFrom memCache slab
    some (m.set cache task (.storing slab fromSlot result))
  | .storing slab fromSlot result =>
    if m.cache.isFull slab then some (m.set m.cache task (.afterStore fromSlot result))
    else some (m.set m.cache task (.exchanging slab fromSlot result))
  | .exchanging slab fromSlot result =>
    match m.cache.compareExchange slab with
    | .ok cache => some (m.set cache task (.afterStore fromSlot result))
    | .error current => some (m.set m.cache task (.putting current fromSlot result))
  | .putting slab fromSlot result =>
    match m.cache.put slab with
    | .ok cache => some (m.set cache task (.afterStore fromSlot result))
    | .error _ => none
  | .fetching =>
    match m.cache.getPartial with
    | (some slab, cache) => some (m.set cache task (.allocating slab false))
    | (none, cache) => some (m.set cache task .creating)
  | .idle | .creating | .returned _ => none

/-- The machine after an event, if the event is possible. A new block is one the cache has not
taken. -/
def next (memCache : Nat) (m : Machine) : Event → Option Machine
  | .call task =>
    match m.tasks task with
    | .idle | .returned _ => some (m.set m.cache task .entered)
    | _ => none
  | .step task => m.advance memCache task
  | .create task block =>
    if m.tasks task = .creating then
      match block with
      | none => some (m.set m.cache task (.returned none))
      | some (block, mem) =>
        if block ∈ m.taken then none
        else some { m.set (m.cache.newSlab block mem) task (.allocating block false) with
          taken := block :: m.taken }
    else none
  | .deallocate slab object => some { m with cache := m.cache.deallocateIn slab object }

/-- Where a slab can be. -/
inductive Place
  | slot
  | partials
  | hands (task : Nat)
  deriving DecidableEq

/-- The slab is at the place. -/
def Holds (m : Machine) : Place → Nat → Prop
  | .slot, slab => m.cache.slot = some slab
  | .partials, slab => slab ∈ m.cache.partials
  | .hands task, slab => (m.tasks task).hand = some slab

/-- No slab is at two places, nor twice on the partial list. -/
structure OnePlace (m : Machine) : Prop where
  exclusive : Exclusive m.Holds
  nodup : m.cache.partials.Nodup

/-- Every state of the run has each slab at one place. -/
def AlwaysOnePlace (memCache : Nat) : Machine → List Event → Prop
  | m, [] => m.OnePlace
  | m, event :: rest =>
    m.OnePlace ∧ ∀ after, m.next memCache event = some after → AlwaysOnePlace memCache after rest

variable {events : List Event} {m : Machine} {memCache : Nat}

theorem AlwaysOnePlace.head (always : AlwaysOnePlace memCache m events) : m.OnePlace := by
  cases events with
  | nil => exact always
  | cons event rest => exact always.1

theorem AlwaysOnePlace.last {final : Machine} (always : AlwaysOnePlace memCache m events)
    (run : events.foldlM (next memCache) m = some final) : final.OnePlace := by
  induction events generalizing m with
  | nil =>
    cases run
    exact always
  | cons event rest ih =>
    rw [foldlM_cons, Option.bind_eq_bind, Option.bind_eq_some_iff] at run
    obtain ⟨after, step, run⟩ := run
    exact ih (always.2 after step) run

def exchangeClear (m : Machine) : Event → Bool
  | .step task =>
    match m.tasks task with
    | .exchanging _ _ _ => m.cache.slot.isNone
    | _ => true
  | _ => true

def exchangesClear (memCache : Nat) : Machine → List Event → Bool
  | _, [] => true
  | m, event :: rest =>
    m.exchangeClear event &&
      match m.next memCache event with
      | some after => exchangesClear memCache after rest
      | none => true

/-- The start of a run: no call is running, the slot and the partial list share nothing and hold
blocks the cache took. -/
structure Start (m : Machine) : Prop where
  idle : ∀ task, m.tasks task = .idle
  nodup : m.cache.partials.Nodup
  apart : ∀ slab, m.cache.slot = some slab → slab ∉ m.cache.partials
  slot_taken : ∀ slab, m.cache.slot = some slab → slab ∈ m.taken
  partials_taken : ∀ slab ∈ m.cache.partials, slab ∈ m.taken

/-- The invariant: what is held anywhere was taken. -/
structure Custody (m : Machine) : Prop extends OnePlace m where
  held_taken : ∀ place slab, m.Holds place slab → slab ∈ m.taken

section Steps

variable {memCache task moved : Nat} {m after : Machine} {cache : MemCache} {position : Task}

@[simp] theorem set_cache : (m.set cache task position).cache = cache := rfl

@[simp] theorem set_taken : (m.set cache task position).taken = m.taken := rfl

@[simp] theorem set_tasks_self : (m.set cache task position).tasks task = position := by
  simp [set]

theorem set_tasks_of_ne {other : Nat} (distinct : other ≠ task) :
    (m.set cache task position).tasks other = m.tasks other := by
  simp [set, distinct]

theorem holds_set_hands {other slab : Nat}
    (held : (m.set cache task position).Holds (.hands other) slab) :
    (other = task ∧ position.hand = some slab) ∨
      (other ≠ task ∧ m.Holds (.hands other) slab) := by
  by_cases same : other = task
  · subst same
    simp only [Holds, set_tasks_self] at held
    exact .inl ⟨rfl, held⟩
  · simp only [Holds, set_tasks_of_ne same] at held
    exact .inr ⟨same, held⟩

theorem Custody.shed (custody : Custody m)
    (still : ∀ place slab, after.Holds place slab → m.Holds place slab)
    (nodup : after.cache.partials.Nodup) (taken : after.taken = m.taken) : Custody after where
  exclusive := custody.exclusive.subset still
  nodup := nodup
  held_taken := fun place slab held => taken ▸ custody.held_taken place slab (still place slab held)

theorem Custody.move (custody : Custody m) (target : Place)
    (only : ∀ place, after.Holds place moved → place = target)
    (still : ∀ place slab, slab ≠ moved → after.Holds place slab → m.Holds place slab)
    (nodup : after.cache.partials.Nodup) (grows : ∀ slab ∈ m.taken, slab ∈ after.taken)
    (known : moved ∈ after.taken) : Custody after where
  exclusive := custody.exclusive.move only still
  nodup := nodup
  held_taken := by
    intro place slab held
    by_cases same : slab = moved
    · exact same ▸ known
    · exact grows slab (custody.held_taken place slab (still place slab same held))

theorem Custody.stay (custody : Custody m) (slot : cache.slot = m.cache.slot)
    (partials : cache.partials = m.cache.partials)
    (hand : ∀ slab, position.hand = some slab → (m.tasks task).hand = some slab) :
    Custody (m.set cache task position) := by
  refine custody.shed ?_ (by rw [set_cache, partials]; exact custody.nodup) rfl
  intro place slab held
  cases place with
  | slot => exact slot.symm.trans held
  | partials =>
    have inside : slab ∈ cache.partials := held
    rw [partials] at inside
    exact inside
  | hands other =>
    cases holds_set_hands held with
    | inl own => exact own.1 ▸ hand slab own.2
    | inr others => exact others.2

variable {position : Task} {slab other : Nat}

theorem holds_gained (hand : position.hand = some moved) (distinct : slab ≠ moved)
    (held : (m.set cache task position).Holds (.hands other) slab) :
    m.Holds (.hands other) slab := by
  cases holds_set_hands held with
  | inl own => exact absurd (Option.some.inj (own.2.symm.trans hand)) distinct
  | inr others => exact others.2

theorem holds_lost (empty : position.hand = none)
    (held : (m.set cache task position).Holds (.hands other) slab) :
    other ≠ task ∧ m.Holds (.hands other) slab := by
  cases holds_set_hands held with
  | inl own => exact absurd (empty.symm.trans own.2) nofun
  | inr others => exact others

section

variable (custody : Custody m)
include custody

theorem Custody.takeSlot (slot : m.cache.slot = some moved) (hand : position.hand = some moved) :
    Custody (m.set { m.cache with slot := none } task position) := by
  have from_slot : ∀ place, m.Holds place moved → place = .slot := fun place held =>
    custody.exclusive moved place .slot held slot
  refine custody.move (.hands task) ?_ ?_ custody.nodup (fun slab known => known)
    (custody.held_taken .slot moved slot)
  · intro place held
    cases place with
    | slot => cases held
    | partials => cases from_slot .partials held
    | hands other =>
      cases holds_set_hands held with
      | inl own => rw [own.1]
      | inr others => cases from_slot _ others.2
  · intro place slab distinct held
    cases place with
    | slot => cases held
    | partials => exact held
    | hands other => exact holds_gained hand distinct held

theorem Custody.fillSlot (hand : (m.tasks task).hand = some moved) (empty : position.hand = none) :
    Custody (m.set { m.cache with slot := some moved } task position) := by
  have from_hand : ∀ place, m.Holds place moved → place = .hands task := fun place held =>
    custody.exclusive moved place (.hands task) held hand
  refine custody.move .slot ?_ ?_ custody.nodup (fun slab known => known)
    (custody.held_taken (.hands task) moved hand)
  · intro place held
    cases place with
    | slot => rfl
    | partials => cases from_hand .partials held
    | hands other =>
      obtain ⟨apart, held⟩ := holds_lost empty held
      cases from_hand _ held
      exact absurd rfl apart
  · intro place slab distinct held
    cases place with
    | slot => exact absurd (Option.some.inj held).symm distinct
    | partials => exact held
    | hands other => exact (holds_lost empty held).2

theorem Custody.addTail (hand : (m.tasks task).hand = some moved) (empty : position.hand = none)
    {count : Nat} :
    Custody (m.set { m.cache with partials := m.cache.partials ++ [moved], count := count }
      task position) := by
  have from_hand : ∀ place, m.Holds place moved → place = .hands task := fun place held =>
    custody.exclusive moved place (.hands task) held hand
  have outside : moved ∉ m.cache.partials := fun inside => by cases from_hand .partials inside
  refine custody.move .partials ?_ ?_ ?_ (fun slab known => known)
    (custody.held_taken (.hands task) moved hand)
  · intro place held
    cases place with
    | slot => cases from_hand .slot held
    | partials => rfl
    | hands other =>
      obtain ⟨apart, held⟩ := holds_lost empty held
      cases from_hand _ held
      exact absurd rfl apart
  · intro place slab distinct held
    cases place with
    | slot => exact held
    | partials =>
      cases mem_append.mp held with
      | inl earlier => exact earlier
      | inr last => exact absurd (mem_singleton.mp last) distinct
    | hands other => exact (holds_lost empty held).2
  · exact nodup_append.mpr ⟨custody.nodup, nodup_singleton moved, by
      intro slab inside last member same
      rw [mem_singleton.mp member] at same
      exact outside (same ▸ inside)⟩

theorem Custody.takeHead {rest : List Nat} (partials : m.cache.partials = moved :: rest)
    (hand : position.hand = some moved) {count : Nat} :
    Custody (m.set { m.cache with partials := rest, count := count } task position) := by
  have inside : m.Holds .partials moved := by simp [Holds, partials]
  have from_list : ∀ place, m.Holds place moved → place = .partials := fun place held =>
    custody.exclusive moved place .partials held inside
  have nodup := custody.nodup
  rw [partials, nodup_cons] at nodup
  refine custody.move (.hands task) ?_ ?_ nodup.2 (fun slab known => known)
    (custody.held_taken .partials moved inside)
  · intro place held
    cases place with
    | slot => cases from_list .slot held
    | partials => exact absurd held nodup.1
    | hands other =>
      cases holds_set_hands held with
      | inl own => rw [own.1]
      | inr others => cases from_list _ others.2
  · intro place slab distinct held
    cases place with
    | slot => exact held
    | partials => exact (partials ▸ mem_cons_of_mem moved held : slab ∈ m.cache.partials)
    | hands other => exact holds_gained hand distinct held

theorem Custody.create (fresh : moved ∉ m.taken) (slot : cache.slot = m.cache.slot)
    (partials : cache.partials = m.cache.partials) (hand : position.hand = some moved) :
    Custody { m.set cache task position with taken := moved :: m.taken } := by
  have nowhere : ∀ place, ¬ m.Holds place moved := fun place held =>
    fresh (custody.held_taken place moved held)
  refine custody.move (.hands task) ?_ ?_ (partials ▸ custody.nodup)
    (fun slab known => mem_cons_of_mem _ known) mem_cons_self
  · intro place held
    cases place with
    | slot => exact absurd (slot.symm.trans held) (nowhere .slot)
    | partials => exact absurd (partials ▸ held : moved ∈ m.cache.partials) (nowhere .partials)
    | hands other =>
      have held : (m.set cache task position).Holds (.hands other) _ := held
      cases holds_set_hands held with
      | inl own => rw [own.1]
      | inr others => exact absurd others.2 (nowhere _)
  · intro place slab distinct held
    cases place with
    | slot => exact slot.symm.trans held
    | partials => exact (partials ▸ held : slab ∈ m.cache.partials)
    | hands other =>
      have held : (m.set cache task position).Holds (.hands other) _ := held
      exact holds_gained hand distinct held

end

theorem put_cases {changed : MemCache} (call : cache.put slab = .ok changed) :
    (changed.slot = cache.slot ∧ changed.partials = cache.partials) ∨
      changed = { cache with partials := cache.partials ++ [slab], count := cache.count + 1 } := by
  have added : cache.addPartial slab = .ok changed →
      changed = { cache with partials := cache.partials ++ [slab], count := cache.count + 1 } := by
    intro call
    unfold addPartial at call
    split at call
    · cases call
    · exact (Except.ok.inj call).symm
  unfold put at call
  split at call
  · cases destroyed : cache.tryDestroy slab with
    | none =>
      rw [destroyed] at call
      exact .inr (added call)
    | some result =>
      rw [destroyed] at call
      cases call
      unfold tryDestroy at destroyed
      split at destroyed
      · cases destroyed
      · split at destroyed
        · cases destroyed
          exact .inl ⟨rfl, rfl⟩
        · cases destroyed
  · exact .inr (added call)

theorem Custody.advance (custody : Custody m) (step : m.advance memCache task = some after)
    (clear : m.exchangeClear (.step task)) : Custody after := by
  unfold Machine.advance at step
  cases position : m.tasks task with
  | entered =>
    cases slot : m.cache.slot with
    | none =>
      simp only [position, swapSlot, slot, Option.some.injEq] at step
      rw [← step]
      exact custody.stay slot.symm rfl nofun
    | some slab =>
      simp only [position, swapSlot, slot, Option.some.injEq] at step
      rw [← step]
      exact custody.takeSlot slot rfl
  | allocating slab fromSlot =>
    simp only [position, Option.some.injEq] at step
    rw [← step]
    exact custody.stay rfl rfl fun slab hand => by rw [position]; exact hand
  | storing slab fromSlot result =>
    simp only [position] at step
    split at step
    · cases step
      exact custody.stay rfl rfl fun slab hand => by simp at hand
    · cases step
      exact custody.stay rfl rfl fun slab hand => by rw [position]; exact hand
  | exchanging slab fromSlot result =>
    have slot : m.cache.slot = none := by simpa [exchangeClear, position] using clear
    simp only [position, compareExchange, slot, Option.some.injEq] at step
    rw [← step]
    exact custody.fillSlot (by rw [position]; rfl) (by simp)
  | putting slab fromSlot result =>
    simp only [position] at step
    cases call : m.cache.put slab with
    | error error => simp [call] at step
    | ok changed =>
      simp only [call, Option.some.injEq] at step
      rw [← step]
      cases put_cases call with
      | inl destroyed => exact custody.stay destroyed.1 destroyed.2 fun slab hand => by simp at hand
      | inr added =>
        rw [added]
        exact custody.addTail (by rw [position]; rfl) (by simp)
  | fetching =>
    cases partials : m.cache.partials with
    | nil =>
      simp only [position, getPartial, partials, Option.some.injEq] at step
      rw [← step]
      exact custody.stay rfl rfl nofun
    | cons slab rest =>
      simp only [position, getPartial, partials, Option.some.injEq] at step
      rw [← step]
      exact custody.takeHead partials rfl
  | idle | creating | returned => simp [position] at step

variable {event : Event}

theorem Custody.next (custody : Custody m) (step : m.next memCache event = some after)
    (clear : m.exchangeClear event) : Custody after := by
  cases event with
  | call task =>
    have started : after = m.set m.cache task .entered := by
      simp only [Machine.next] at step
      split at step
      · exact (Option.some.inj step).symm
      · exact (Option.some.inj step).symm
      · cases step
    rw [started]
    exact custody.stay rfl rfl nofun
  | step task => exact custody.advance step clear
  | create task block =>
    simp only [Machine.next] at step
    split at step
    · cases block with
      | none =>
        cases step
        exact custody.stay rfl rfl nofun
      | some block =>
        simp only at step
        split at step
        · cases step
        · rename_i fresh
          cases step
          refine custody.create fresh ?_ ?_ ?_
          · rfl
          · rfl
          · rfl
    · cases step
  | deallocate slab object =>
    cases step
    refine custody.shed ?_ custody.nodup rfl
    intro place slab held
    cases place <;> exact held

theorem exchangeClear_eq_false (occupied : m.exchangeClear event = false) :
    ∃ task slab fromSlot result current, event = .step task ∧
      m.tasks task = .exchanging slab fromSlot result ∧ m.cache.slot = some current := by
  cases event with
  | step task =>
    cases position : m.tasks task with
    | exchanging slab fromSlot result =>
      cases slot : m.cache.slot with
      | none => simp [exchangeClear, position, slot] at occupied
      | some current => exact ⟨task, slab, fromSlot, result, current, rfl, position, rfl⟩
    | _ => simp [exchangeClear, position] at occupied
  | _ => cases occupied

theorem not_onePlace_of_occupied (memCache : Nat) (occupied : m.exchangeClear event = false) :
    ∃ after, m.next memCache event = some after ∧ ¬ after.OnePlace := by
  obtain ⟨task, slab, fromSlot, result, current, rfl, position, slot⟩ :=
    exchangeClear_eq_false occupied
  refine ⟨m.set m.cache task (.putting current fromSlot result), ?_, ?_⟩
  · simp only [Machine.next, Machine.advance, position, compareExchange, slot]
  · intro onePlace
    have held : (m.set m.cache task (.putting current fromSlot result)).Holds (.hands task)
        current := by
      simp [Holds, Task.hand]
    cases onePlace.exclusive current .slot (.hands task) slot held

/-- Over a run from a state with the invariant. -/
theorem Custody.alwaysOnePlace_iff (custody : Custody m) (events : List Event) :
    AlwaysOnePlace memCache m events ↔ exchangesClear memCache m events := by
  induction events generalizing m with
  | nil => exact ⟨fun _ => rfl, fun _ => custody.toOnePlace⟩
  | cons event rest ih =>
    cases clear : m.exchangeClear event with
    | true =>
      cases step : m.next memCache event with
      | none => simp [AlwaysOnePlace, exchangesClear, clear, step, custody.toOnePlace]
      | some after =>
        have later := ih (custody.next step clear)
        simpa [AlwaysOnePlace, exchangesClear, clear, step, custody.toOnePlace] using later
    | false =>
      obtain ⟨after, step, broken⟩ := not_onePlace_of_occupied memCache clear
      constructor
      · intro always
        exact absurd (always.2 after step).head broken
      · intro clears
        simp [exchangesClear, clear] at clears

theorem Start.custody (start : m.Start) : Custody m where
  exclusive := by
    have no_hand : ∀ task slab, ¬ m.Holds (.hands task) slab := by
      intro task slab held
      simp [Holds, start.idle task, Task.hand] at held
    intro slab first second one two
    cases first with
    | hands task => exact absurd one (no_hand task slab)
    | slot =>
      cases second with
      | slot => rfl
      | partials => exact absurd two (start.apart slab one)
      | hands task => exact absurd two (no_hand task slab)
    | partials =>
      cases second with
      | slot => exact absurd one (start.apart slab two)
      | partials => rfl
      | hands task => exact absurd two (no_hand task slab)
  nodup := start.nodup
  held_taken := by
    intro place slab held
    cases place with
    | slot => exact start.slot_taken slab held
    | partials => exact start.partials_taken slab held
    | hands task => simp [Holds, start.idle task, Task.hand] at held

end Steps

end Machine

/-- In every interleaving of `allocate` calls each slab is at one place at most in every state,
exactly when every `compare_exchange` of the run finds the slot empty. -/
theorem slabs_onePlace_iff {m : Machine} (start : m.Start) (memCache : Nat) (events : List Event) :
    m.AlwaysOnePlace memCache events ↔ m.exchangesClear memCache events :=
  start.custody.alwaysOnePlace_iff events

def emptyMachine : Machine where
  cache := ⟨twoObjects, none, [], 0, fun _ => ⟨fun _ => 0, 0, 0⟩, fun _ => ⟨0, .unused, .free⟩⟩
  tasks := fun _ => .idle
  taken := []

def upToExchange (task block : Nat) : List Event :=
  [.call task, .step task, .step task, .create task (some (block, fun _ => 0)), .step task,
    .step task]

theorem emptyMachine_start : emptyMachine.Start :=
  ⟨fun _ => rfl, nodup_nil, nofun, nofun, nofun⟩

/-- One call after the other: each exchange finds the slot empty. -/
theorem slabs_onePlace_emptyMachine : emptyMachine.AlwaysOnePlace 512
      (upToExchange 0 300 ++ [.step 0, .call 1, .step 1, .step 1, .step 1]) :=
  (slabs_onePlace_iff emptyMachine_start 512 _).mpr (by decide)

def crossedCalls : List Event :=
  upToExchange 0 300 ++ upToExchange 1 301 ++ [.step 0, .step 1]

/-- The first call fills the slot, and the exchange of the second puts the same slab into its
hands. -/
theorem slab_in_slot_and_hands :
    (∃ final, crossedCalls.foldlM (Machine.next 512) emptyMachine = some final ∧
      final.Holds .slot 300 ∧ final.Holds (.hands 1) 300) ∧
      ¬ emptyMachine.AlwaysOnePlace 512 crossedCalls := by
  have run : ∃ final, crossedCalls.foldlM (Machine.next 512) emptyMachine = some final ∧
      final.Holds .slot 300 ∧ final.Holds (.hands 1) 300 := ⟨_, rfl, rfl, rfl⟩
  refine ⟨run, ?_⟩
  intro always
  obtain ⟨final, run, slot, hands⟩ := run
  cases (always.last run).exclusive 300 .slot (.hands 1) slot hands

end Horizon.Slub
