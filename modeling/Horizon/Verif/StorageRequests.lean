import Horizon.Verif.StorageQueue
/-!
# Merged requests and what becomes of every request

A merge that lowers the position of a merged request computes its end from the new position, so the
range loses its end unless the new request reaches it. Every request is still handed to the driver
once and signalled once.
-/

namespace Horizon.Storage

open List

/-- The blocks are those of the members, no more than a request may have, and the copies stay inside
the buffers. -/
structure QueuedRequest.Fits (request : QueuedRequest) (maxCount : Nat) : Prop where
  union : ∀ block, (request.position ≤ block ∧ block < request.position + request.count) ↔
    ∃ member ∈ request.members, member.position ≤ block ∧ block < member.position + member.count
  short : request.count ≤ maxCount
  copies : ∀ {V : Type} (junk : Nat → V) (memory : Memory V), transfer junk memory request ≠ none

/-- Every merge fits, one after the other. -/
def AllFit (maxCount : Nat) : QueuedRequest → List StorageRequest → Prop
  | _, [] => True
  | request, new :: rest => ∀ memory merged,
    tryMergeRequest new request maxCount memory = some merged →
      merged.Fits maxCount ∧ AllFit maxCount merged rest

/-- No merge cuts off an end, one after the other. -/
def NoneCut (maxCount : Nat) : QueuedRequest → List StorageRequest → Prop
  | _, [] => True
  | request, new :: rest => ∀ memory merged,
    tryMergeRequest new request maxCount memory = some merged →
      Reaches new request ∧ NoneCut maxCount merged rest

section

variable {new : StorageRequest} {request merged : QueuedRequest} {maxCount : Nat} {memory : Bool}

theorem fits_iff (sound : request.Sound) (short : request.count ≤ maxCount) :
    request.Fits maxCount ↔ request.Covered := by
  constructor
  · intro fits
    by_contra cut
    exact fits.copies (fun _ => ()) ⟨fun _ => (), fun _ _ => ()⟩ ((transfer_spec _ _ sound).2 cut)
  · refine fun covered => ⟨fun block => ⟨fun inside => sound.full block inside.1 inside.2, ?_⟩,
      short, fun junk memory => ?_⟩
    · rintro ⟨member, listed, low, high⟩
      have start := sound.start member listed
      have stop := covered member listed
      omega
    · rw [(transfer_spec junk memory sound).1 covered]
      exact Option.some_ne_none _

theorem merged_count_le (merge : tryMergeRequest new request maxCount memory = some merged) :
    merged.count ≤ maxCount := by
  unfold tryMergeRequest at merge
  split_ifs at merge <;> cases merge
  · simp only [modifyMergedRequest]
    omega
  · simp only [newMergeRequest]
    omega

theorem allFit_iff (sound : request.Sound) (covered : request.Covered)
    (news : List StorageRequest) :
    AllFit maxCount request news ↔ NoneCut maxCount request news := by
  induction news generalizing request with
  | nil => exact Iff.rfl
  | cons new rest ih =>
    refine forall_congr' fun memory => forall_congr' fun merged => forall_congr' fun merge => ?_
    have whole := (tryMergeRequest_spec sound merge).1
    have fits :=
      (fits_iff whole (merged_count_le merge)).trans (merged_covered_iff sound covered merge)
    rw [fits]
    refine and_congr_right fun reaches => ih whole ?_
    exact (merged_covered_iff sound covered merge).mpr reaches

end

/-- Whatever requests are merged into one, the merged request has the union of their ranges, is not
too long and is copied inside the buffers, exactly when no request that is merged before an already
merged one ends before it. -/
theorem merged_requests_fit_iff (maxCount : Nat) (first : StorageRequest)
    (news : List StorageRequest) :
    AllFit maxCount first.queued news ↔ NoneCut maxCount first.queued news :=
  allFit_iff first.queued_sound first.queued_covered news

/-- Blocks 10 to 13 and 14 to 17 are merged, then blocks 8 and 9: the range ends at block 15. -/
theorem merge_loses_end :
    ¬ AllFit 16 (StorageRequest.queued ⟨0, true, 10, 4, by decide, by decide⟩)
      [⟨1, true, 14, 4, by decide, by decide⟩, ⟨2, true, 8, 2, by decide, by decide⟩] := by
  intro fit
  have wrong := ((fit true _ rfl).2 true _ rfl).1.union 17
  revert wrong
  decide

namespace Traffic

def idle (maxCount : Nat) : Traffic := ⟨.idle maxCount, [], []⟩

def added : List Action → List StorageRequest
  | [] => []
  | .queue event :: rest => event.requests ++ added rest
  | _ :: rest => added rest

def idleRuns (t : Traffic) : List Action → Nat
  | [] => 0
  | action :: rest =>
    (if action = .queue .periodic ∧ t.device.current = none then 1 else 0) +
      (t.step action).idleRuns rest

/-- No call of `storage_add_request` starts or goes on. -/
def Calm (actions : List Action) : Prop :=
  ∀ action ∈ actions, ∀ event, action = .queue event → event = .periodic ∨ event = .interrupt

/-- Every added request is between the two parts of its call, waiting, or handed to the driver, as
it is or in a merged request, and each handed request is unfinished or signalled; all once. -/
structure Once (t : Traffic) (made : List StorageRequest) : Prop where
  accounted : Accounted t.device made
  signalled : (t.signalled ++ t.outstanding.flatMap QueuedRequest.members).Perm
    (t.device.submitted.flatMap QueuedRequest.members)

variable {t : Traffic} {made : List StorageRequest}

theorem step_submitted (device : StorageDevice) (event : Event) :
    ∃ new, (device.step event).submitted = device.submitted ++ new := by
  cases event with
  | add request =>
    simp only [StorageDevice.step, StorageDevice.addRequest]
    split
    · exact ⟨_, rfl⟩
    · exact ⟨[], (append_nil _).symm⟩
  | enqueue request memory =>
    refine ⟨[], ?_⟩
    simp only [StorageDevice.step, StorageDevice.enqueueRequest]
    split <;> simp
  | periodic =>
    simp only [StorageDevice.step, StorageDevice.periodicTask]
    split
    · exact ⟨_, rfl⟩
    · exact ⟨[], (append_nil _).symm⟩
  | interrupt =>
    refine ⟨[], ?_⟩
    simp only [StorageDevice.step, StorageDevice.finishRequest]
    split <;> simp

/-- The step lemma. -/
theorem Once.step (once : t.Once made) (action : Action) :
    (t.step action).Once (made ++ added [action]) := by
  cases action with
  | queue event =>
    refine ⟨?_, ?_⟩
    · rw [added, added, append_nil]
      exact StorageDevice.step_accounted once.accounted event
    · obtain ⟨new, submitted⟩ := step_submitted t.device event
      simp only [Traffic.step, submitted, drop_left, flatMap_append]
      rw [← append_assoc]
      exact once.signalled.append_right _
  | busy current =>
    refine ⟨?_, once.signalled⟩
    rw [show made ++ added [.busy current] = made from append_nil _]
    exact { once.accounted with }
  | finish request =>
    rw [show made ++ added [.finish request] = made from append_nil _]
    simp only [Traffic.step]
    split
    · rename_i listed
      refine ⟨once.accounted, ?_⟩
      have front := ((perm_cons_erase listed).flatMap_right QueuedRequest.members).symm
      simp only [append_assoc]
      exact (front.append_left t.signalled).trans once.signalled
    · exact once

/-- The run lemma. -/
theorem Once.run (once : t.Once made) (actions : List Action) :
    (t.run actions).Once (made ++ added actions) := by
  induction actions generalizing t made with
  | nil =>
    rw [added, append_nil]
    exact once
  | cons action rest ih =>
    rw [show added (action :: rest) = added [action] ++ added rest by cases action <;> simp [added],
      ← append_assoc]
    exact ih (once.step action)

theorem queue_drains {actions : List Action} (calm : Calm actions) :
    (t.run actions).device.ioQueue.length = t.device.ioQueue.length - t.idleRuns actions := by
  induction actions generalizing t with
  | nil => rfl
  | cons action rest ih =>
    obtain ⟨here, later⟩ := forall_mem_cons.mp calm
    refine (ih (t := t.step action) later).trans ?_
    have one : (t.step action).device.ioQueue.length = t.device.ioQueue.length -
        if action = .queue .periodic ∧ t.device.current = none then 1 else 0 := by
      cases action with
      | busy => rfl
      | finish =>
        simp only [Traffic.step]
        split <;> rfl
      | queue event =>
        rcases here event rfl with rfl | rfl
        · cases current : t.device.current <;> cases waiting : t.device.ioQueue <;>
            simp [Traffic.step, StorageDevice.step, StorageDevice.periodicTask, current, waiting]
        · cases current : t.device.current <;>
            simp [Traffic.step, StorageDevice.step, StorageDevice.finishRequest, current]
    rw [one, idleRuns, Nat.sub_sub]

end Traffic

end Horizon.Storage
