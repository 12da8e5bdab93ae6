import Horizon.Kernel.StorageQueue
import Horizon.Spec.Accesses
import Horizon.Spec.Reorder
/-!
# The storage queue against one request at a time

The queue loses no request and takes none twice (`Accounted`). A request it hands to the driver does
what its members do one by one, provided its range covers them; the merging can cut it short. The
queue changes the order of requests, which is harmless as long as no request is put before one that
it conflicts with.
-/

namespace Horizon.Storage

open Function Accesses Reorder StorageRequest QueuedRequest StorageDevice
open List hiding after

def StorageRequest.access (request : StorageRequest) : Access :=
  ⟨request.id, request.rw, request.position, request.count⟩

/-- The members go the same way, a request that is not merged is a caller's own, and the range
starts at or before its members and has no gaps. -/
structure QueuedRequest.Sound (request : QueuedRequest) : Prop where
  same : ∀ member ∈ request.members, member.rw = request.rw
  single : request.merged = false → ∃ own : StorageRequest, request = own.queued
  start : ∀ member ∈ request.members, request.position ≤ member.position
  full : ∀ block, request.position ≤ block → block < request.position + request.count →
    ∃ member ∈ request.members, member.position ≤ block ∧ block < member.position + member.count

/-- The range reaches the end of every member. -/
def QueuedRequest.Covered (request : QueuedRequest) : Prop :=
  ∀ member ∈ request.members,
    member.position + member.count ≤ request.position + request.count

theorem StorageRequest.queued_sound (request : StorageRequest) : request.queued.Sound where
  same := forall_mem_singleton.mpr rfl
  single := fun _ => ⟨request, rfl⟩
  start := forall_mem_singleton.mpr (le_refl _)
  full := fun _ low high => ⟨request, mem_singleton_self _, low, high⟩

theorem StorageRequest.queued_covered (request : StorageRequest) : request.queued.Covered :=
  forall_mem_singleton.mpr (le_refl _)

section Merging

variable {new : StorageRequest} {request : QueuedRequest}

theorem QueuedRequest.Sound.add {whole : QueuedRequest} (sound : request.Sound)
    (way : new.rw = request.rw) (low : request.position ≤ new.position + new.count)
    (high : new.position ≤ request.position + request.count)
    (merged : whole.merged = true) (same : whole.rw = request.rw)
    (members : whole.members = request.members ++ [new])
    (first : whole.position = min request.position new.position)
    (last : whole.position + whole.count ≤
      max (new.position + new.count) (request.position + request.count)) : whole.Sound where
  same := by
    rw [members, same]
    exact forall_mem_append.mpr ⟨sound.same, forall_mem_singleton.mpr way⟩
  single plain := Bool.noConfusion (merged.symm.trans plain)
  start := by
    rw [members, first]
    refine forall_mem_append.mpr ⟨fun member old => ?_, forall_mem_singleton.mpr (min_le_right _ _)⟩
    exact min_le_of_left_le (sound.start member old)
  full := by
    intro block below above
    rw [members]
    by_cases inNew : new.position ≤ block ∧ block < new.position + new.count
    · exact ⟨new, mem_append_right _ (mem_singleton_self _), inNew⟩
    · obtain ⟨member, inside, place⟩ := sound.full block (by omega) (by omega)
      exact ⟨member, mem_append_left _ inside, place⟩

theorem modifyMergedRequest_sound (sound : request.Sound) (merged : request.merged = true)
    (way : new.rw = request.rw) (low : request.position ≤ new.position + new.count)
    (high : new.position ≤ request.position + request.count) :
    (modifyMergedRequest new request).Sound := by
  refine sound.add way low high merged rfl rfl rfl ?_
  simp only [modifyMergedRequest]
  omega

theorem newMergeRequest_sound (sound : request.Sound) (way : new.rw = request.rw)
    (low : request.position ≤ new.position + new.count)
    (high : new.position ≤ request.position + request.count) :
    (newMergeRequest new request).Sound := by
  refine sound.add way low high rfl way rfl (min_comm _ _) ?_
  simp only [newMergeRequest]
  omega

theorem tryMergeRequest_spec {maxCount : Nat} {memory : Bool} {result : QueuedRequest}
    (sound : request.Sound) (merge : tryMergeRequest new request maxCount memory = some result) :
    result.Sound ∧ result.members = request.members ++ [new] := by
  unfold tryMergeRequest at merge
  split_ifs at merge with way size apart merged room
  · cases merge
    exact ⟨modifyMergedRequest_sound sound merged way (by omega) (by omega), rfl⟩
  · cases merge
    exact ⟨newMergeRequest_sound sound way (by omega) (by omega), rfl⟩

theorem insertRequest_spec (new : StorageRequest) (maxCount : Nat) (memory : Bool)
    (queue : List QueuedRequest) (sound : ∀ waiting ∈ queue, waiting.Sound) :
    (∀ waiting ∈ insertRequest new maxCount memory queue, waiting.Sound) ∧
      ((insertRequest new maxCount memory queue).flatMap members).Perm
        (new :: queue.flatMap members) := by
  induction queue with
  | nil =>
    exact ⟨forall_mem_singleton.mpr new.queued_sound, List.Perm.refl _⟩
  | cons request rest ih =>
    obtain ⟨head, tail⟩ := forall_mem_cons.mp sound
    have later := ih tail
    unfold insertRequest
    cases merge : tryMergeRequest new request maxCount memory with
    | some merged =>
      have spec := tryMergeRequest_spec head merge
      refine ⟨forall_mem_cons.mpr ⟨spec.1, tail⟩, ?_⟩
      show (merged.members ++ rest.flatMap members).Perm _
      rw [spec.2, append_assoc]
      exact perm_middle
    | none =>
      simp only
      split
      · exact ⟨forall_mem_cons.mpr ⟨new.queued_sound, sound⟩, List.Perm.refl _⟩
      · refine ⟨forall_mem_cons.mpr ⟨head, later.1⟩, ?_⟩
        show (request.members ++ (insertRequest new maxCount memory rest).flatMap _).Perm _
        exact (later.2.append_left request.members).trans perm_middle

end Merging

def Event.requests : Event → List StorageRequest
  | .add request => [request]
  | _ => []

def requestsOf (events : List Event) : List StorageRequest := events.flatMap Event.requests

/-- Every request made so far is pending, waiting or handed to the driver, exactly once. -/
structure Accounted (device : StorageDevice) (made : List StorageRequest) : Prop where
  waiting : ∀ request ∈ device.ioQueue, request.Sound
  submitted : ∀ request ∈ device.submitted, request.Sound
  perm : (device.pending ++ (device.ioQueue.flatMap members ++
    device.submitted.flatMap members)).Perm made

namespace StorageDevice

variable {device : StorageDevice} {made : List StorageRequest}

theorem idle_accounted (maxCount : Nat) : Accounted (idle maxCount) [] :=
  ⟨fun _ inside => absurd inside not_mem_nil, fun _ inside => absurd inside not_mem_nil,
    List.Perm.refl _⟩

section

variable (accounted : Accounted device made)
include accounted

theorem addRequest_accounted (request : StorageRequest) :
    Accounted (device.addRequest request) (made ++ [request]) := by
  unfold addRequest
  split
  · refine ⟨accounted.waiting, forall_mem_append.mpr
      ⟨accounted.submitted, forall_mem_singleton.mpr request.queued_sound⟩, ?_⟩
    show (device.pending ++ (device.ioQueue.flatMap members ++
      (device.submitted ++ [request.queued]).flatMap members)).Perm _
    rw [flatMap_append, ← append_assoc, ← append_assoc, append_assoc
      device.pending]
    exact accounted.perm.append_right [request]
  · refine ⟨accounted.waiting, accounted.submitted, ?_⟩
    rw [append_assoc]
    have moved : ([request] ++ (device.ioQueue.flatMap members ++
        device.submitted.flatMap members)).Perm
        ((device.ioQueue.flatMap members ++
          device.submitted.flatMap members) ++ [request]) := perm_append_comm
    have whole := moved.append_left device.pending
    rw [← append_assoc] at whole
    rw [← append_assoc device.pending _ [request]] at whole
    rw [← append_assoc]
    exact whole.trans (accounted.perm.append_right [request])

theorem enqueueRequest_accounted (request : StorageRequest) (memory : Bool) :
    Accounted (device.enqueueRequest request memory) made := by
  unfold enqueueRequest
  split
  · rename_i pending
    have spec := insertRequest_spec request device.maxBlockPerRequest memory
      device.ioQueue accounted.waiting
    refine ⟨spec.1, accounted.submitted, ?_⟩
    have inner := (spec.2.append_right (device.submitted.flatMap members)).append_left
      (device.pending.erase request)
    have front := (perm_cons_erase pending).symm
    refine (inner.trans perm_middle).trans ?_
    exact (front.append_right _).trans accounted.perm
  · exact accounted

theorem periodicTask_accounted : Accounted device.periodicTask made := by
  unfold periodicTask
  split
  · rename_i request rest _ queue
    have soundQueue := accounted.waiting
    have perm := accounted.perm
    rw [queue] at soundQueue perm
    obtain ⟨first, others⟩ := forall_mem_cons.mp soundQueue
    refine ⟨others, forall_mem_append.mpr
      ⟨accounted.submitted, forall_mem_singleton.mpr first⟩, ?_⟩
    refine Perm.trans (Perm.append_left _ ?_) perm
    show (rest.flatMap members ++
      (device.submitted ++ [request]).flatMap members).Perm
        ((request :: rest).flatMap members ++
          device.submitted.flatMap members)
    simp only [flatMap_append, flatMap_cons, flatMap_nil, append_nil]
    rw [← append_assoc, append_assoc request.members]
    exact perm_append_comm
  · exact accounted

theorem finishRequest_accounted : Accounted device.finishRequest made := by
  unfold finishRequest
  split
  · exact accounted
  · exact { accounted with }

/-- The step lemma: no request is lost or taken twice. -/
theorem step_accounted (event : Event) :
    Accounted (device.step event) (made ++ event.requests) := by
  have kept : ∀ after, Accounted after made → Accounted after (made ++ []) := by
    simp only [append_nil, imp_self, implies_true]
  cases event with
  | add request => exact addRequest_accounted accounted request
  | enqueue request memory => exact kept _ (enqueueRequest_accounted accounted request memory)
  | periodic => exact kept _ (periodicTask_accounted accounted)
  | interrupt => exact kept _ (finishRequest_accounted accounted)

end

end StorageDevice

section Transfers

variable {V : Type} (requests : List StorageRequest) (memory : Memory V)

def applyRequest (request : StorageRequest) : Memory V :=
  if request.rw then memory.store request.position request.count (memory.buf request.id)
  else memory.fill request.id request.count fun place => memory.disk (request.position + place)

def oneByOne : Memory V :=
  requests.foldl applyRequest memory

theorem after_congr (values : Nat → Nat → V) {cells others : Nat → V} {cell : Nat}
    (same : cells cell = others cell) (accesses : List Access) :
    after values cells accesses cell = after values others accesses cell := by
  rw [after_eq, after_eq, same]

theorem oneByOne_writes (writes : ∀ request ∈ requests, request.rw = true) :
    oneByOne requests memory =
      ⟨after memory.buf memory.disk (requests.map access), memory.buf⟩ := by
  induction requests generalizing memory with
  | nil => rfl
  | cons request rest ih =>
    obtain ⟨first, others⟩ := forall_mem_cons.mp writes
    have step : applyRequest memory request =
        ⟨Accesses.apply memory.buf memory.disk request.access, memory.buf⟩ := by
      unfold applyRequest Memory.store Accesses.apply Access.Writes Access.Covers
      rw [if_pos first]
      simp only [access, first, true_and]
    show oneByOne rest (applyRequest memory request) = _
    rw [ih _ others, step]
    rfl

theorem solveWriteRequest_eq (start size : Nat) (members : List StorageRequest) (buffer : Nat → V)
    (writes : ∀ member ∈ members, member.rw = true)
    (low : ∀ member ∈ members, start ≤ member.position)
    (high : ∀ member ∈ members, member.position + member.count ≤ start + size) :
    ∃ result, solveWriteRequest memory start size members buffer = some result ∧
      ∀ place, result place = after memory.buf (fun block => buffer (block - start))
        (members.map access) (start + place) := by
  induction members generalizing buffer with
  | nil =>
    refine ⟨buffer, rfl, fun place => ?_⟩
    show buffer place = buffer (start + place - start)
    rw [Nat.add_sub_cancel_left]
  | cons member rest ih =>
    obtain ⟨write, writes⟩ := forall_mem_cons.mp writes
    obtain ⟨lowHere, low⟩ := forall_mem_cons.mp low
    obtain ⟨highHere, high⟩ := forall_mem_cons.mp high
    unfold solveWriteRequest
    simp only
    rw [if_pos (by omega)]
    obtain ⟨result, run, value⟩ := ih _ writes low high
    refine ⟨result, run, fun place => ?_⟩
    rw [value place]
    apply after_congr
    have inside : (member.access.Writes (start + place)) ↔
        member.position - start ≤ place ∧ place < member.position - start + member.count := by
      unfold Access.Writes Access.Covers access
      simp only [write, true_and]
      omega
    unfold Accesses.apply
    simp only [Nat.add_sub_cancel_left, inside]
    split
    · show memory.buf member.id _ = memory.buf member.id (start + place - member.position)
      congr 1
      omega
    · rfl

theorem solveWriteRequest_none (start size : Nat) (members : List StorageRequest) (buffer : Nat → V)
    (long : ∃ member ∈ members, size < member.position - start + member.count) :
    solveWriteRequest memory start size members buffer = none := by
  induction members generalizing buffer with
  | nil => simp at long
  | cons member rest ih =>
    unfold solveWriteRequest
    simp only
    split
    · exact ih _ (((exists_mem_cons_iff _ _ _).mp long).resolve_left (by omega))
    · rfl

theorem solveReadRequest_eq (start size : Nat) (members : List StorageRequest) (memory : Memory V)
    (disk : Nat → V) (unchanged : memory.disk = disk)
    (reads : ∀ member ∈ members, member.rw = false)
    (low : ∀ member ∈ members, start ≤ member.position)
    (high : ∀ member ∈ members, member.position + member.count ≤ start + size) :
    solveReadRequest start size (fun place => disk (start + place)) members memory =
      some (oneByOne members memory) := by
  induction members generalizing memory with
  | nil => rfl
  | cons member rest ih =>
    obtain ⟨read, reads⟩ := forall_mem_cons.mp reads
    obtain ⟨lowHere, low⟩ := forall_mem_cons.mp low
    obtain ⟨highHere, high⟩ := forall_mem_cons.mp high
    have step : applyRequest memory member = memory.fill member.id member.count fun place =>
        disk (start + (member.position - start + place)) := by
      unfold applyRequest
      rw [read]
      simp only [Bool.false_eq_true, if_false, unchanged, ← add_assoc]
      rw [Nat.add_sub_cancel' lowHere]
    unfold solveReadRequest
    simp only
    rw [if_pos (by omega), ← step]
    exact ih _ (by rw [step]; exact unchanged) reads low high

theorem solveReadRequest_none (start size : Nat) (buffer : Nat → V)
    (members : List StorageRequest) (memory : Memory V)
    (long : ∃ member ∈ members, size < member.position - start + member.count) :
    solveReadRequest start size buffer members memory = none := by
  induction members generalizing memory with
  | nil => simp at long
  | cons member rest ih =>
    unfold solveReadRequest
    simp only
    split
    · exact ih _ (((exists_mem_cons_iff _ _ _).mp long).resolve_left (by omega))
    · rfl

variable (junk : Nat → V)

theorem store_merged {request : QueuedRequest}
    (sound : request.Sound) (covered : request.Covered) (write : request.rw = true) :
    (solveWriteRequest memory request.position request.count request.members junk).map
        (memory.store request.position request.count) =
      some (oneByOne request.members memory) := by
  have writes : ∀ member ∈ request.members, member.rw = true := by
    intro member inside
    rw [sound.same member inside, write]
  obtain ⟨result, run, value⟩ := solveWriteRequest_eq memory request.position request.count
    request.members junk writes sound.start covered
  rw [run, Option.map_some, oneByOne_writes _ _ writes]
  have disk : (memory.store request.position request.count result).disk =
      after memory.buf memory.disk (request.members.map access) := by
    funext block
    show (if request.position ≤ block ∧ block < request.position + request.count then
      result (block - request.position) else memory.disk block) = _
    split
    · rename_i range
      rw [value, Nat.add_sub_cancel' range.1, after_eq, after_eq]
      cases writer : lastWriter (request.members.map access) block with
      | some access => rfl
      | none =>
        obtain ⟨member, inside, place⟩ := sound.full block range.1 range.2
        exact absurd writer (lastWriter_ne_none (mem_map_of_mem inside)
          ⟨writes member inside, place⟩)
    · rename_i range
      rw [after_eq, lastWriter_eq_none]
      · rfl
      · intro access inside writing
        obtain ⟨member, member_in, rfl⟩ := List.mem_map.mp inside
        have start := sound.start member member_in
        have stop := covered member member_in
        have place : member.position ≤ block ∧ block < member.position + member.count := writing.2
        omega
  rw [← disk]
  rfl

theorem transfer_spec (memory : Memory V) {request : QueuedRequest} (sound : request.Sound) :
    (request.Covered → transfer junk memory request = some (oneByOne request.members memory)) ∧
      (¬ request.Covered → transfer junk memory request = none) := by
  unfold transfer
  by_cases merged : request.merged = true
  · rw [if_pos merged]
    have long : ¬ request.Covered →
        ∃ member ∈ request.members,
          request.count < member.position - request.position + member.count := by
      intro open_end
      unfold QueuedRequest.Covered at open_end
      push Not at open_end
      obtain ⟨member, inside, beyond⟩ := open_end
      exact ⟨member, inside, by omega⟩
    by_cases write : request.rw = true
    · rw [if_pos write]
      refine ⟨fun covered => store_merged memory junk sound covered write, fun open_end => ?_⟩
      rw [solveWriteRequest_none memory _ _ _ _ (long open_end), Option.map_none]
    · have reads : ∀ member ∈ request.members, member.rw = false := by
        intro member inside
        rw [sound.same member inside]
        exact Bool.eq_false_iff.mpr write
      rw [if_neg write]
      exact ⟨fun covered => solveReadRequest_eq _ _ _ memory memory.disk rfl reads sound.start
        covered, fun open_end => solveReadRequest_none _ _ _ _ _ (long open_end)⟩
  · rw [if_neg merged]
    obtain ⟨own, same⟩ := sound.single (Bool.eq_false_iff.mpr merged)
    subst same
    refine ⟨fun _ => rfl, fun open_end => absurd own.queued_covered open_end⟩

theorem transferAll_eq (requests : List QueuedRequest) (memory : Memory V)
    (sound : ∀ request ∈ requests, request.Sound)
    (covered : ∀ request ∈ requests, request.Covered) :
    transferAll junk requests memory = some (oneByOne (requests.flatMap members) memory) := by
  induction requests generalizing memory with
  | nil => rfl
  | cons request rest ih =>
    obtain ⟨head, tail⟩ := forall_mem_cons.mp sound
    obtain ⟨headCovered, tailCovered⟩ := forall_mem_cons.mp covered
    unfold transferAll
    rw [(transfer_spec junk memory head).1 headCovered]
    simp only
    rw [ih _ tail tailCovered]
    unfold oneByOne
    rw [flatMap_cons, foldl_append]

end Transfers

/-- The request has the block. -/
def StorageRequest.Has (request : StorageRequest) (block : Nat) : Prop :=
  request.position ≤ block ∧ block < request.position + request.count

/-- Two requests whose order matters: they share a buffer, or a block that one of them writes. -/
def StorageRequest.Conflicts (one two : StorageRequest) : Prop :=
  one.id = two.id ∨ (one.rw = true ∨ two.rw = true) ∧ ∃ block, one.Has block ∧ two.Has block

theorem StorageRequest.Conflicts.symm {one two : StorageRequest} (conflicts : one.Conflicts two) :
    two.Conflicts one := by
  rcases conflicts with same | ⟨write, block, first, second⟩
  · exact .inl same.symm
  · exact .inr ⟨write.symm, block, second, first⟩

/-- Requests that do not conflict may change places. -/
def Free (one two : StorageRequest) : Prop := ¬ one.Conflicts two

section Commuting

variable {V : Type} {one two : StorageRequest}

theorem apply_write {request : StorageRequest} (write : request.rw = true) (memory : Memory V) :
    applyRequest memory request =
      memory.store request.position request.count (memory.buf request.id) :=
  if_pos write

theorem apply_read {request : StorageRequest} (read : request.rw = false) (memory : Memory V) :
    applyRequest memory request =
      memory.fill request.id request.count fun place => memory.disk (request.position + place) :=
  if_neg (by simp [read])

theorem writes_commute (memory : Memory V) (free : Free one two) (first : one.rw = true)
    (second : two.rw = true) :
    applyRequest (applyRequest memory one) two = applyRequest (applyRequest memory two) one := by
  simp only [apply_write first, apply_write second, Memory.store, Memory.mk.injEq, and_true]
  funext block
  by_cases inOne : one.position ≤ block ∧ block < one.position + one.count
  · have apart : ¬ (two.position ≤ block ∧ block < two.position + two.count) :=
      fun inTwo => free (.inr ⟨.inl first, block, inOne, inTwo⟩)
    rw [if_neg apart, if_pos inOne, if_pos inOne]
  · rw [if_neg inOne, if_neg inOne]

theorem write_read_commute (memory : Memory V) (free : Free one two) (write : one.rw = true)
    (read : two.rw = false) :
    applyRequest (applyRequest memory one) two = applyRequest (applyRequest memory two) one := by
  have different : one.id ≠ two.id := fun same => free (.inl same)
  simp only [apply_write write, apply_read read, Memory.store, Memory.fill, Memory.mk.injEq,
    update_of_ne different, true_and]
  congr 1
  funext place
  by_cases inside : place < two.count
  · have apart : ¬ (one.position ≤ two.position + place ∧
        two.position + place < one.position + one.count) := fun inOne =>
      free (.inr ⟨.inl write, _, inOne, Nat.le_add_right _ _, Nat.add_lt_add_left inside _⟩)
    rw [if_neg apart]
  · rw [if_neg inside, if_neg inside]

theorem reads_commute (memory : Memory V) (free : Free one two) (first : one.rw = false)
    (second : two.rw = false) :
    applyRequest (applyRequest memory one) two = applyRequest (applyRequest memory two) one := by
  have different : one.id ≠ two.id := fun same => free (.inl same)
  simp only [apply_read first, apply_read second, Memory.fill, Memory.mk.injEq,
    update_of_ne different, update_of_ne different.symm, true_and]
  exact update_comm different _ _ _

/-- Requests that do not conflict do the same in either order. -/
theorem free_commute (one two : StorageRequest) (memory : Memory V) (free : Free one two) :
    applyRequest (applyRequest memory one) two = applyRequest (applyRequest memory two) one := by
  have back : Free two one := fun conflicts => free conflicts.symm
  cases first : one.rw <;> cases second : two.rw
  · exact reads_commute memory free first second
  · exact (write_read_commute memory back second first).symm
  · exact write_read_commute memory free first second
  · exact writes_commute memory free first second

end Commuting

/-- The queue may merge the new request into a waiting one: they go the same way, touch or overlap,
are short enough together, and the waiting one is merged already or there is memory. -/
def Joins (maxCount : Nat) (memory : Bool) (new : StorageRequest) (waiting : QueuedRequest) :
    Prop :=
  new.rw = waiting.rw ∧ new.count + waiting.count ≤ maxCount ∧
    waiting.position ≤ new.position + new.count ∧
    new.position ≤ waiting.position + waiting.count ∧ (waiting.merged = true ∨ memory = true)

/-- The new request goes past a waiting one: it starts at or behind it and is not merged into it. -/
def Passes (maxCount : Nat) (memory : Bool) (new : StorageRequest) (waiting : QueuedRequest) :
    Prop :=
  waiting.position ≤ new.position ∧ ¬ Joins maxCount memory new waiting

/-- The end of a merged request is kept: its position is lowered only by a request that reaches to
its end. -/
def Reaches (new : StorageRequest) (request : QueuedRequest) : Prop :=
  request.merged = true → new.position < request.position →
    request.position + request.count ≤ new.position + new.count

/-- Where a request may be put into the queue. It gets behind each waiting request that it conflicts
with, or into it: it goes past all before that one, and past it or joins it. And it cuts off the end
of no request that it joins. -/
structure Placeable (maxCount : Nat) (memory : Bool) (new : StorageRequest)
    (queue : List QueuedRequest) : Prop where
  behind : ∀ front waiting back, queue = front ++ waiting :: back →
    (∃ member ∈ waiting.members, member.Conflicts new) →
      (∀ other ∈ front, Passes maxCount memory new other) ∧
        (waiting.position ≤ new.position ∨ Joins maxCount memory new waiting)
  reaches : ∀ front waiting back, queue = front ++ waiting :: back →
    (∀ other ∈ front, Passes maxCount memory new other) → Joins maxCount memory new waiting →
      Reaches new waiting

section Placing

variable {new : StorageRequest} {request merged : QueuedRequest} {maxCount : Nat} {memory : Bool}
  {rest : List QueuedRequest}

theorem tryMergeRequest_isSome :
    (tryMergeRequest new request maxCount memory).isSome ↔ Joins maxCount memory new request := by
  unfold tryMergeRequest Joins
  split_ifs <;> simp_all
  omega

theorem merged_covered_iff (sound : request.Sound) (covered : request.Covered)
    (merge : tryMergeRequest new request maxCount memory = some merged) :
    merged.Covered ↔ Reaches new request := by
  unfold tryMergeRequest at merge
  split_ifs at merge with way size apart old room <;> cases merge
  · unfold QueuedRequest.Covered Reaches
    simp only [modifyMergedRequest, forall_mem_append, forall_mem_singleton]
    refine ⟨fun reached _ before => ?_, fun reaches => ⟨fun member listed => ?_, by omega⟩⟩
    · -- The last block of the range belongs to a member, whose end the merged request reaches.
      by_contra beyond
      obtain ⟨member, listed, low, high⟩ :=
        sound.full (request.position + request.count - 1) (by omega) (by omega)
      have stop := reached.1 member listed
      omega
    · have stop := covered member listed
      have reach := reaches old
      omega
  · refine iff_of_true ?_ fun merged => absurd merged old
    refine forall_mem_append.mpr ⟨fun member listed => ?_, forall_mem_singleton.mpr ?_⟩
    · have stop := covered member listed
      simp only [newMergeRequest]
      omega
    · simp only [newMergeRequest]
      omega

theorem Placeable.tail (placeable : Placeable maxCount memory new (request :: rest))
    (passes : Passes maxCount memory new request) : Placeable maxCount memory new rest where
  behind front waiting back split conflicts := by
    have here := placeable.behind (request :: front) waiting back (by rw [split]; rfl) conflicts
    exact ⟨(forall_mem_cons.mp here.1).2, here.2⟩
  reaches front waiting back split passed :=
    placeable.reaches (request :: front) waiting back (by rw [split]; rfl)
      (forall_mem_cons.mpr ⟨passes, passed⟩)

/-- What stands behind a request that is not passed is free of the new one. -/
theorem Placeable.free_rest (placeable : Placeable maxCount memory new (request :: rest))
    (stops : ¬ Passes maxCount memory new request) :
    ∀ member ∈ rest.flatMap members, Free new member := by
  intro member inside conflicts
  obtain ⟨waiting, listed, own⟩ := List.mem_flatMap.mp inside
  obtain ⟨front, back, split⟩ := List.append_of_mem listed
  have here := placeable.behind (request :: front) waiting back (by rw [split]; rfl)
    ⟨member, own, conflicts.symm⟩
  exact stops ((forall_mem_cons.mp here.1).1)

/-- The loop of `storage_add_request` puts a request at a place that is as good as the last one, and
cuts off no end. -/
theorem insertRequest_reordered (queue : List QueuedRequest)
    (sound : ∀ waiting ∈ queue, waiting.Sound) (covered : ∀ waiting ∈ queue, waiting.Covered)
    (placeable : Placeable maxCount memory new queue) :
    Reordered Free ((insertRequest new maxCount memory queue).flatMap members)
        (queue.flatMap members ++ [new]) ∧
      ∀ waiting ∈ insertRequest new maxCount memory queue, waiting.Covered := by
  induction queue with
  | nil => exact ⟨.refl _, forall_mem_singleton.mpr new.queued_covered⟩
  | cons request rest ih =>
    obtain ⟨head, tail⟩ := forall_mem_cons.mp sound
    obtain ⟨headCovered, tailCovered⟩ := forall_mem_cons.mp covered
    unfold insertRequest
    cases merge : tryMergeRequest new request maxCount memory with
    | some merged =>
      have joins := tryMergeRequest_isSome.mp (Option.isSome_of_mem merge)
      have free := placeable.free_rest fun passes => passes.2 joins
      have reaches := placeable.reaches [] request rest rfl (by simp) joins
      refine ⟨?_, forall_mem_cons.mpr
        ⟨(merged_covered_iff head headCovered merge).mpr reaches, tailCovered⟩⟩
      have moved := (reordered_last _ free).append_left request.members
      simpa [(tryMergeRequest_spec head merge).2] using moved
    | none =>
      have apart : ¬ Joins maxCount memory new request := by
        rw [← tryMergeRequest_isSome, merge]
        simp
      simp only
      split_ifs with before
      · have free := placeable.free_rest fun passes => absurd passes.1 (not_le.mpr before)
        have own : ∀ member ∈ request.members, Free new member := by
          intro member inside conflicts
          have here := placeable.behind [] request rest rfl ⟨member, inside, conflicts.symm⟩
          rcases here.2 with low | joins
          · omega
          · exact apart joins
        refine ⟨?_, forall_mem_cons.mpr ⟨new.queued_covered, covered⟩⟩
        refine reordered_last ((request :: rest).flatMap members) fun member inside => ?_
        rw [flatMap_cons] at inside
        rcases List.mem_append.mp inside with here | later
        · exact own member here
        · exact free member later
      · obtain ⟨reordered, rest'⟩ :=
          ih tail tailCovered (placeable.tail ⟨not_lt.mp before, apart⟩)
        refine ⟨?_, forall_mem_cons.mpr ⟨headCovered, rest'⟩⟩
        simpa using reordered.append_left request.members

end Placing

/-- The condition on the state before an event. A request that an idle device takes at once
conflicts with no call that is still between its two parts. A request that is put into the queue
conflicts with no call that was made before it and is still there, and finds its place. -/
def StorageDevice.InTurn (device : StorageDevice) : Event → Prop
  | .add request => device.ioQueue = [] → device.current = none →
      ∀ earlier ∈ device.pending, Free request earlier
  | .enqueue request memory => request ∈ device.pending →
      (∀ earlier ∈ device.pending.takeWhile (· ≠ request), Free request earlier) ∧
        Placeable device.maxBlockPerRequest memory request device.ioQueue
  | .periodic | .interrupt => True

/-- Every event comes in turn. -/
def StorageDevice.AlwaysInTurn (device : StorageDevice) : List Event → Prop
  | [] => True
  | event :: rest => device.InTurn event ∧ (device.step event).AlwaysInTurn rest

/-- The order in which the requests will be carried out, if nothing more is added. -/
def StorageDevice.order (device : StorageDevice) : List StorageRequest :=
  device.submitted.flatMap members ++ (device.ioQueue.flatMap members ++ device.pending)

/-- The invariant: what was made is accounted for, no range is cut, and the order is as good as the
order of making. -/
structure Ordered (device : StorageDevice) (made : List StorageRequest) : Prop where
  accounted : Accounted device made
  waiting : ∀ request ∈ device.ioQueue, request.Covered
  submitted : ∀ request ∈ device.submitted, request.Covered
  order : Reordered Free device.order made

namespace StorageDevice

variable {device : StorageDevice} {made : List StorageRequest}

/-- Making a request in turn keeps the order. -/
theorem addRequest_ordered (ordered : Ordered device made) {request : StorageRequest}
    (turn : device.InTurn (.add request)) :
    Ordered (device.addRequest request) (made ++ [request]) := by
  have accounted := addRequest_accounted ordered.accounted request
  have before := ordered.order.append_right [request]
  unfold addRequest at accounted ⊢
  split_ifs at accounted ⊢ with idle
  · refine ⟨accounted, ordered.waiting, forall_mem_append.mpr
      ⟨ordered.submitted, forall_mem_singleton.mpr request.queued_covered⟩, .trans ?_ before⟩
    have moved := (reordered_last device.pending (turn idle.1 idle.2)).append_left
      (device.submitted.flatMap members)
    simpa [order, submitRequest, idle.1, queued] using moved
  · refine ⟨accounted, ordered.waiting, ordered.submitted, ?_⟩
    simpa [order] using before

/-- Putting a request into the queue in turn keeps the order. -/
theorem enqueueRequest_ordered (ordered : Ordered device made) {request : StorageRequest}
    {memory : Bool} (turn : device.InTurn (.enqueue request memory)) :
    Ordered (device.enqueueRequest request memory) made := by
  have accounted := enqueueRequest_accounted ordered.accounted request memory
  unfold enqueueRequest at accounted ⊢
  split_ifs at accounted ⊢ with pending
  · obtain ⟨free, placeable⟩ := turn pending
    obtain ⟨reordered, covered⟩ :=
      insertRequest_reordered _ ordered.accounted.waiting ordered.waiting placeable
    refine ⟨accounted, covered, ordered.submitted, .trans ?_ ordered.order⟩
    obtain ⟨early, late, fresh, split, erased⟩ := exists_erase_eq pending
    have early_eq : device.pending.takeWhile (· ≠ request) = early := by
      have others : ∀ other ∈ early, decide (other ≠ request) = true := by
        intro other inside
        rw [decide_eq_true_eq]
        rintro rfl
        exact fresh inside
      rw [split, takeWhile_append_of_pos others]
      simp
    rw [early_eq] at free
    have placed := reordered.around (device.submitted.flatMap members) (early ++ late)
    have moved := (reordered_last early free).around
      (device.submitted.flatMap members ++ device.ioQueue.flatMap members) late
    refine .trans (by simpa [order, erased] using placed) ?_
    simpa [order, split] using moved
  · exact ordered

/-- The next request is handed to the driver. -/
theorem periodicTask_ordered (ordered : Ordered device made) :
    Ordered device.periodicTask made := by
  have accounted := periodicTask_accounted ordered.accounted
  have waiting := ordered.waiting
  have order := ordered.order
  unfold periodicTask at accounted ⊢
  split at accounted
  · rename_i request rest current queue
    rw [queue] at waiting
    obtain ⟨first, others⟩ := forall_mem_cons.mp waiting
    refine ⟨accounted, others, forall_mem_append.mpr
      ⟨ordered.submitted, forall_mem_singleton.mpr first⟩, ?_⟩
    simpa [StorageDevice.order, submitRequest, queue] using order
  · exact ordered

/-- The step lemma: an event in turn keeps the order. -/
theorem step_ordered (ordered : Ordered device made) {event : Event} (turn : device.InTurn event) :
    Ordered (device.step event) (made ++ event.requests) := by
  have kept : ∀ after, Ordered after made → Ordered after (made ++ []) := by
    simp only [append_nil, imp_self, implies_true]
  cases event with
  | add request => exact addRequest_ordered ordered turn
  | enqueue request memory => exact kept _ (enqueueRequest_ordered ordered turn)
  | periodic => exact kept _ (periodicTask_ordered ordered)
  | interrupt =>
    have accounted := finishRequest_accounted ordered.accounted
    refine kept _ ?_
    simp only [step, finishRequest] at accounted ⊢
    split at accounted
    · exact ordered
    · exact ⟨accounted, ordered.waiting, ordered.submitted, ordered.order⟩

/-- The run lemma: events in turn keep the order. -/
theorem run_ordered (ordered : Ordered device made) {events : List Event}
    (turns : device.AlwaysInTurn events) :
    Ordered (device.run events) (made ++ requestsOf events) := by
  induction events generalizing device made with
  | nil =>
    rw [show requestsOf [] = [] from rfl, append_nil]
    exact ordered
  | cons event rest ih =>
    rw [show requestsOf (event :: rest) = event.requests ++ requestsOf rest from rfl,
      ← append_assoc]
    exact ih (step_ordered ordered turns.1) turns.2

/-- An idle device satisfies the invariant. -/
theorem idle_ordered (maxCount : Nat) : Ordered (idle maxCount) [] :=
  ⟨idle_accounted maxCount, fun _ inside => absurd inside not_mem_nil,
    fun _ inside => absurd inside not_mem_nil, .refl _⟩

end StorageDevice

/-- Events on a device that started idle, after which every request made was handed to the
driver. -/
structure History where
  maxBlockPerRequest : Nat
  events : List Event
  pending : ((idle maxBlockPerRequest).run events).pending = []
  waiting : ((idle maxBlockPerRequest).run events).ioQueue = []

namespace History

variable (history : History)

def made : List StorageRequest := requestsOf history.events

def submitted : List QueuedRequest :=
  ((idle history.maxBlockPerRequest).run history.events).submitted

/-- Whatever the disk and the buffers hold, the transfers leave the disk and every read's buffer as
the requests would, carried out one by one in the order in which they were made. -/
def Right : Prop :=
  ∀ (V : Type) (junk : Nat → V) (memory : Memory V),
    ∃ final, transferAll junk history.submitted memory = some final ∧
      (∀ block, final.disk block = (oneByOne history.made memory).disk block) ∧
      ∀ request ∈ history.made, request.rw = false → ∀ place < request.count,
        final.buf request.id place = (oneByOne history.made memory).buf request.id place

/-- Over every history whose events come in turn, the disk and the reads are as if the requests were
carried out one by one. -/
theorem right_in_turn (turns : (idle history.maxBlockPerRequest).AlwaysInTurn history.events) :
    history.Right := by
  have ordered := run_ordered (idle_ordered history.maxBlockPerRequest) turns
  have order : Reordered Free (history.submitted.flatMap members) history.made := by
    simpa [StorageDevice.order, history.waiting, history.pending, submitted, made] using
      ordered.order
  intro V junk memory
  have same : oneByOne (history.submitted.flatMap members) memory =
      oneByOne history.made memory := order.foldl_eq free_commute memory
  refine ⟨oneByOne history.made memory, ?_, fun _ => rfl, fun _ _ _ _ _ => rfl⟩
  rw [← same]
  exact transferAll_eq junk _ memory ordered.accounted.submitted ordered.submitted

end History

def busyWrite : StorageRequest := { id := 0, rw := true, position := 100, count := 1 }

def blockWrite : StorageRequest := { id := 1, rw := true, position := 5, count := 1 }

def rangeRead : StorageRequest := { id := 2, rw := false, position := 3, count := 5 }

def blockRead : StorageRequest := { id := 2, rw := false, position := 5, count := 2 }

/-- A read is made after the write of block 5, while the device is busy, and both are served
afterwards. -/
def readAfterWrite (read : StorageRequest) : List Event :=
  [.add busyWrite, .add blockWrite, .enqueue blockWrite true, .add read, .enqueue read true,
    .interrupt, .periodic, .interrupt, .periodic, .interrupt]

def following : History := ⟨8, readAfterWrite blockRead, by decide, by decide⟩

/-- A request that passes the only one in the queue has its place behind it. -/
theorem placeable_single {maxCount : Nat} {memory : Bool} {new : StorageRequest}
    {waiting : QueuedRequest} (passes : Passes maxCount memory new waiting) :
    Placeable maxCount memory new [waiting] := by
  have only : ∀ front other back, [waiting] = front ++ other :: back →
      front = [] ∧ other = waiting := by
    intro front other back split
    cases front with
    | nil => exact ⟨rfl, (cons.inj split).1.symm⟩
    | cons first front => simp at split
  constructor
  · intro front other back split _
    obtain ⟨rfl, rfl⟩ := only front other back split
    exact ⟨by simp, .inl passes.1⟩
  · intro front other back split _ joins
    obtain ⟨rfl, rfl⟩ := only front other back split
    exact absurd joins passes.2

/-- A read that starts at the block of the write gets behind it in the queue. -/
theorem following_right : following.Right := by
  have first : Placeable 8 true blockWrite [] :=
    ⟨fun front _ _ split => by simp at split, fun front _ _ split => by simp at split⟩
  have second : Placeable 8 true blockRead [blockWrite.queued] :=
    placeable_single ⟨by decide, fun joins => absurd joins.1 (by decide)⟩
  refine following.right_in_turn ⟨fun _ _ _ inside => (nomatch inside), ?_⟩
  refine ⟨fun _ busy => (nomatch busy), fun _ => ⟨fun _ inside => (nomatch inside), first⟩, ?_⟩
  refine ⟨fun empty => (nomatch empty), fun _ => ⟨fun _ inside => (nomatch inside), second⟩, ?_⟩
  exact ⟨trivial, trivial, trivial, trivial, trivial, trivial⟩

def overtaking : History := ⟨8, readAfterWrite rangeRead, by decide, by decide⟩

/-- The read overtakes the write and returns what block 5 held before it. -/
theorem read_overtakes_write : ¬ overtaking.Right := by
  intro right
  obtain ⟨final, run, _, reads⟩ := right Nat (fun _ => 0) ⟨fun _ => 0, fun id _ => id + 1⟩
  have returned := reads rangeRead (by decide) rfl 2 (by decide)
  cases run
  exact absurd returned (by decide)

end Horizon.Storage
