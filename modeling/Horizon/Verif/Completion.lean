import Horizon.Kernel.Completion
import Horizon.Spec.Census

/-!
# Completions lose no wakeup

A waiter takes the queue lock before it gives up the lock under which it saw a count of zero, so
every completion that comes later still has its `wake_one` to do when the waiter is linked.
-/

namespace Horizon.Threads

open Function Census List

/-- The state of a thread at each place of `wait`. -/
def WaitThread.Consistent (thread : WaitThread) : Prop :=
  match thread.pc with
  | .outside => (thread.state = .running ∨ thread.state = .ready) ∧ thread.removed = false
  | .checking => thread.state = .running ∨ thread.state = .ready
  | .unsatisfied | .bothLocks | .queueLock => thread.state = .running ∧ thread.removed = false
  | .committing => thread.state = if thread.removed then .running else .blocking
  | .switching =>
    if thread.removed then thread.state = .waking ∨ thread.state = .ready
    else thread.state = .blocked

namespace Completion

variable {τ κ : Type}

/-- What a state must satisfy. -/
structure Right (s : Completion τ κ) : Prop where
  balance : s.returned + s.count = s.increments
  /-- A stored completion and a sleeping waiter do not stay together: a wakeup or a check is still
  to come. -/
  noLostWakeup : 0 < s.count → s.waiters ≠ [] →
    (∃ k, s.caller k = .raised) ∨ ∃ t, (s.thread t).removed = true

/-- Locks and queue say the same about a thread as its place in the code. -/
structure Agrees (s : Completion τ κ) (t : τ) : Prop where
  condition : s.conditionLock = some t ↔
    (s.thread t).pc = .unsatisfied ∨ (s.thread t).pc = .bothLocks
  queue : s.queueLock = some t ↔ (s.thread t).pc = .bothLocks ∨ (s.thread t).pc = .queueLock
  linked : t ∈ s.waiters ↔
    ((s.thread t).pc = .committing ∨ (s.thread t).pc = .switching) ∧ (s.thread t).removed = false
  consistent : (s.thread t).Consistent

variable {t : τ}

variable {s s' : Completion τ κ}

theorem Agrees.of_eq (agrees : s.Agrees t) (thread : s'.thread t = s.thread t)
    (condition : s'.conditionLock = some t ↔ s.conditionLock = some t)
    (queue : s'.queueLock = some t ↔ s.queueLock = some t)
    (linked : t ∈ s'.waiters ↔ t ∈ s.waiters) : s'.Agrees t := by
  constructor
  · rw [condition, agrees.condition, thread]
  · rw [queue, agrees.queue, thread]
  · rw [linked, agrees.linked, thread]
  · rw [thread]
    exact agrees.consistent

theorem Agrees.of_caller (agrees : ∀ t, s.Agrees t) (thread : s'.thread = s.thread)
    (condition : s'.conditionLock = s.conditionLock) (queue : s'.queueLock = s.queueLock)
    (waiters : s'.waiters = s.waiters) (t : τ) : s'.Agrees t :=
  (agrees t).of_eq (by rw [thread]) (by rw [condition]) (by rw [queue]) (by rw [waiters])

variable [Fintype τ] [Fintype κ]

def pending (s : Completion τ κ) : Nat :=
  census s.caller (· == .raised) + census s.thread WaitThread.removed

/-- The invariant: while somebody is linked or about to be, every stored completion has a wakeup or
a check to come. -/
structure Sound (s : Completion τ κ) : Prop where
  balance : s.returned + s.count = s.increments
  bound : s.count ≤ maxCount
  /-- The count stays zero while a waiter that found it so keeps the lock. -/
  zero : s.conditionLock ≠ none → s.count = 0
  covered : s.waiters ≠ [] ∨ s.queueLock ≠ none → s.count ≤ s.pending
  nodup : s.waiters.Nodup
  agrees : ∀ t, s.Agrees t

variable {s : Completion τ κ}

/-- The invariant gives what a state must satisfy. -/
theorem Sound.right (sound : s.Sound) : s.Right := by
  constructor
  · exact sound.balance
  · intro stored sleeping
    have covered := sound.covered (.inl sleeping)
    unfold pending at covered
    by_cases raised : 0 < census s.caller (· == .raised)
    · obtain ⟨k, found⟩ := exists_of_census_pos raised
      exact .inl ⟨k, by simpa using found⟩
    · have removed : 0 < census s.thread WaitThread.removed := by omega
      exact .inr (exists_of_census_pos removed)

/-- The initial state satisfies the invariant. -/
theorem initial_sound : (initial : Completion τ κ).Sound where
  balance := rfl
  bound := by simp [initial]
  zero := by simp [initial]
  covered := by simp [initial]
  nodup := nodup_nil
  agrees t := by constructor <;> simp [initial, WaitThread.Consistent]

/-- The action does not happen, or it leaves a sound state. -/
def Kept (result : Except Halt (Completion τ κ)) : Prop :=
  result = .error .disabled ∨ ∃ s', result = .ok s' ∧ s'.Sound

theorem Sound.agrees_step (sound : s.Sound) (t : τ) (agrees : s'.Agrees t)
    (others : ∀ u ≠ t, s'.thread u = s.thread u ∧
      (s'.conditionLock = some u ↔ s.conditionLock = some u) ∧
      (s'.queueLock = some u ↔ s.queueLock = some u) ∧ (u ∈ s'.waiters ↔ u ∈ s.waiters))
    (u : τ) : s'.Agrees u := by
  by_cases here : u = t
  · rw [here]
    exact agrees
  · have same := others u here
    exact (sound.agrees u).of_eq same.1 same.2.1 same.2.2.1 same.2.2.2

variable [DecidableEq τ]

theorem Sound.of_thread {value : WaitThread} (sound : s.Sound)
    (removed : value.removed = (s.thread t).removed)
    (agrees : (s.setThread t value).Agrees t) : (s.setThread t value).Sound :=
  { sound with
    covered := fun occupied => by
      have same : (s.setThread t value).pending = s.pending := by
        simp only [pending, setThread, census_update_same removed]
      rw [same]
      exact sound.covered occupied
    agrees := sound.agrees_step t agrees fun u apart => by simp [setThread, apart] }

omit [DecidableEq τ] in
theorem Kept.guard {condition : Prop} [Decidable condition] (sound : condition → s'.Sound) : Kept
    (if condition then .ok s' else .error .disabled) := by
  split
  case isTrue enabled => exact .inr ⟨s', rfl, sound enabled⟩
  case isFalse => exact .inl rfl

theorem check_kept (sound : s.Sound) : Kept (s.check t) := by
  rw [check]
  split
  case isFalse => exact .inl rfl
  case isTrue enabled =>
    obtain ⟨place, running, free⟩ := enabled
    have agrees := sound.agrees t
    have outsideQueue : t ∉ s.waiters := by simp [agrees.linked, place]
    have noQueueLock : s.queueLock ≠ some t := by simp [agrees.queue, place]
    split
    case isTrue stored =>
      refine .inr ⟨_, rfl, ?_⟩
      have balance := sound.balance
      exact { sound with
        balance := by
          simp only [setThread]
          omega
        bound := le_trans (Nat.sub_le _ _) sound.bound
        zero := fun locked => absurd free locked
        covered := fun occupied => by
          have before := sound.covered occupied
          -- One completion less, and at most one check less.
          simp only [pending, setThread] at before ⊢
          cases removed : (s.thread t).removed with
          | false =>
            rw [census_update_same (by rw [removed])]
            omega
          | true =>
            have left := census_update_leave ⟨.outside, .running, false⟩ removed rfl
            omega
        agrees := sound.agrees_step t (by constructor <;>
          simp [setThread, free, noQueueLock, outsideQueue, WaitThread.Consistent])
          fun u apart => by simp [setThread, apart] }
    case isFalse empty =>
      refine .inr ⟨_, rfl, ?_⟩
      have none : s.count = 0 := by omega
      exact { sound with
        zero := fun _ => none
        covered := fun _ => by simp [setThread, none]
        agrees := sound.agrees_step t (by constructor <;>
          simp [setThread, noQueueLock, outsideQueue, WaitThread.Consistent])
          fun u apart => by simp [setThread, apart, free, Ne.symm apart] }

/-- Linking a waiter keeps the invariant. -/
theorem enqueue_sound (sound : s.Sound)
    (place : (s.thread t).pc = .queueLock) : ∃ s', s.enqueue t = .ok s' ∧ s'.Sound := by
  have agrees := sound.agrees t
  have queue := agrees.queue.mpr (.inr place)
  have unlinked : t ∉ s.waiters := by simp [agrees.linked, place]
  have noCondition : s.conditionLock ≠ some t := by simp [agrees.condition, place]
  have consistent := agrees.consistent
  simp only [WaitThread.Consistent, place] at consistent
  refine ⟨_, by rw [enqueue, if_pos place, if_neg unlinked, consistent.1]; rfl, ?_⟩
  exact { sound with
    covered := fun _ => by
      have before := sound.covered (.inr (by simp [queue]))
      have same : census (update s.thread t
          { s.thread t with pc := .committing, state := .blocking }) WaitThread.removed =
          census s.thread WaitThread.removed := census_update_same rfl
      simp only [pending, setThread, same] at before ⊢
      exact before
    nodup := by
      apply nodup_append.mpr
      refine ⟨sound.nodup, nodup_singleton t, ?_⟩
      intro u member v here same
      rw [same, mem_singleton.mp here] at member
      exact unlinked member
    agrees := sound.agrees_step t (by constructor <;>
      simp [setThread, noCondition, consistent.2, WaitThread.Consistent])
      fun u apart => by simp [setThread, apart, queue, Ne.symm apart] }

/-- Going to sleep keeps the invariant. -/
theorem commit_sound (sound : s.Sound)
    (place : (s.thread t).pc = .committing) (free : s.queueLock = none) :
    ∃ s', s.commit t = .ok s' ∧ s'.Sound := by
  have agrees := sound.agrees t
  have consistent := agrees.consistent
  have noCondition : s.conditionLock ≠ some t := by simp [agrees.condition, place]
  simp only [WaitThread.Consistent, place] at consistent
  cases removed : (s.thread t).removed with
  | true =>
    have running : (s.thread t).state = .running := by simpa [removed] using consistent
    have unlinked : t ∉ s.waiters := by simp [agrees.linked, removed]
    refine ⟨_, by rw [commit, if_pos ⟨place, free⟩, running]; exact if_neg unlinked, ?_⟩
    refine sound.of_thread rfl ?_
    constructor <;> simp [setThread, noCondition, free, unlinked, running, WaitThread.Consistent]
  | false =>
    have blocking : (s.thread t).state = .blocking := by simpa [removed] using consistent
    have linked : t ∈ s.waiters := by simp [agrees.linked, place, removed]
    refine ⟨_, by rw [commit, if_pos ⟨place, free⟩, blocking]; exact if_pos linked, ?_⟩
    refine sound.of_thread rfl ?_
    constructor <;> simp [setThread, noCondition, free, linked, removed, WaitThread.Consistent]

/-- A thread that only moves on keeps the invariant. -/
theorem move_sound {value : WaitThread} (sound : s.Sound)
    (place : (s.thread t).pc = .outside ∨ (s.thread t).pc = .checking ∨
      ((s.thread t).pc = .switching ∧ (s.thread t).removed = true))
    (next : value.pc = .outside ∨ value.pc = .checking ∨
      (value.pc = .switching ∧ value.removed = true))
    (removed : value.removed = (s.thread t).removed) (consistent : value.Consistent) :
    (s.setThread t value).Sound := by
  have agrees := sound.agrees t
  apply sound.of_thread removed
  have noCondition : s.conditionLock ≠ some t := by
    rw [Ne, agrees.condition]
    rcases place with h | h | ⟨h, _⟩ <;> simp [h]
  have noQueue : s.queueLock ≠ some t := by
    rw [Ne, agrees.queue]
    rcases place with h | h | ⟨h, _⟩ <;> simp [h]
  have unlinked : t ∉ s.waiters := by
    rw [agrees.linked]
    rcases place with h | h | ⟨h, r⟩
    · simp [h]
    · simp [h]
    · simp [r]
  rcases next with h | h | ⟨h, r⟩
  · constructor <;> simp [setThread, noCondition, noQueue, unlinked, h, consistent]
  · constructor <;> simp [setThread, noCondition, noQueue, unlinked, h, consistent]
  · constructor <;> simp [setThread, noCondition, noQueue, unlinked, h, r, consistent]

variable [DecidableEq κ]

theorem lockQueue_kept (sound : s.Sound) : Kept (s.apply (.lockQueue t)) := by
  apply Kept.guard
  rintro ⟨place, free⟩
  have agrees := sound.agrees t
  have condition := agrees.condition.mpr (.inl place)
  have none : s.count = 0 := sound.zero (by simp [condition])
  have consistent := agrees.consistent
  simp only [WaitThread.Consistent, place] at consistent
  exact { sound with
    covered := fun _ => by simp [setThread, none]
    agrees := sound.agrees_step t (by constructor <;>
      simp [setThread, condition, agrees.linked, place, consistent, WaitThread.Consistent])
      fun u apart => by simp [setThread, apart, free, Ne.symm apart] }

theorem dropCondition_kept (sound : s.Sound) : Kept (s.apply (.dropCondition t)) := by
  apply Kept.guard
  intro place
  have agrees := sound.agrees t
  have condition := agrees.condition.mpr (.inr place)
  have queue := agrees.queue.mpr (.inl place)
  have none : s.count = 0 := sound.zero (by simp [condition])
  have consistent := agrees.consistent
  simp only [WaitThread.Consistent, place] at consistent
  exact { sound with
    zero := fun locked => absurd rfl locked
    covered := fun _ => by simp [setThread, none]
    agrees := sound.agrees_step t (by constructor <;>
      simp [setThread, queue, agrees.linked, place, consistent, WaitThread.Consistent])
      fun u apart => by simp [setThread, apart, condition, Ne.symm apart] }

theorem enter_kept (sound : s.Sound) : Kept (s.apply (.enter t)) := by
  apply Kept.guard
  intro enabled
  have consistent := (sound.agrees t).consistent
  simp only [WaitThread.Consistent, enabled.1] at consistent
  exact move_sound sound (.inl enabled.1) (.inr (.inl rfl)) consistent.2.symm (.inl rfl)

theorem preempt_kept (sound : s.Sound) : Kept (s.apply (.preempt t)) := by
  apply Kept.guard
  intro enabled
  have consistent := (sound.agrees t).consistent
  cases enabled.1 with
  | inl outside =>
    simp only [WaitThread.Consistent, outside] at consistent
    exact move_sound sound (.inl outside) (.inl outside) rfl
      (by simp [WaitThread.Consistent, outside, consistent.2])
  | inr checking =>
    exact move_sound sound (.inr (.inl checking)) (.inr (.inl checking)) rfl
      (by simp [WaitThread.Consistent, checking])

variable {k : κ}

omit [Fintype τ] [Fintype κ] [DecidableEq τ] [DecidableEq κ] in
theorem removed_of_woken (agrees : s.Agrees t) (place : (s.thread t).pc = .switching)
    (woken : (s.thread t).state ≠ .blocked) : (s.thread t).removed = true := by
  have consistent := agrees.consistent
  cases kept : (s.thread t).removed with
  | false => simp [WaitThread.Consistent, place, kept, woken] at consistent
  | true => rfl

theorem makeReady_kept (sound : s.Sound) : Kept (s.apply (.makeReady t)) := by
  apply Kept.guard
  intro enabled
  have removed := removed_of_woken (sound.agrees t) enabled.1 (by simp [enabled.2])
  exact move_sound sound (.inr (.inr ⟨enabled.1, removed⟩)) (.inr (.inr ⟨enabled.1, removed⟩)) rfl
    (by simp [WaitThread.Consistent, enabled.1, removed])

theorem dispatch_kept (sound : s.Sound) : Kept (s.apply (.dispatch t)) := by
  apply Kept.guard
  intro ready
  have consistent := (sound.agrees t).consistent
  simp only [WaitThread.Consistent, ready] at consistent
  cases place : (s.thread t).pc with
  | outside =>
    simp only [place] at consistent
    exact move_sound sound (.inl place) (.inl (by simp)) rfl
      (by simp [WaitThread.Consistent, consistent.2])
  | checking =>
    exact move_sound sound (.inr (.inl place)) (.inr (.inl (by simp))) rfl
      (by simp [WaitThread.Consistent])
  | switching =>
    have removed := removed_of_woken (sound.agrees t) place (by simp [ready])
    exact move_sound sound (.inr (.inr ⟨place, removed⟩)) (.inr (.inl (by simp))) rfl
      (by simp [WaitThread.Consistent])
  | committing => cases removed : (s.thread t).removed <;> simp [place, removed] at consistent
  | _ => simp [place] at consistent

theorem complete_kept (sound : s.Sound) : Kept (s.apply (.complete k)) := by
  apply Kept.guard
  intro enabled
  have balance := sound.balance
  have bound := sound.bound
  exact { sound with
    balance := by
      show s.returned + min (s.count + 1) maxCount =
        if s.count < maxCount then s.increments + 1 else s.increments
      split <;> omega
    bound := min_le_right _ _
    zero := fun locked => absurd enabled.2 locked
    covered := fun occupied => by
      have before := sound.covered occupied
      have joined : census (update s.caller k .raised) (· == .raised) =
          census s.caller (· == .raised) + 1 :=
        census_update_join _ (by simp [enabled.1]) (by simp)
      simp only [pending, setCaller] at before ⊢
      have grown := min_le_left (s.count + 1) maxCount
      omega
    agrees := Agrees.of_caller sound.agrees rfl rfl rfl rfl }

/-- A wakeup keeps the invariant. -/
theorem wakeOne_sound (sound : s.Sound) (raised : s.caller k = .raised)
    (free : s.queueLock = none) : ∃ s', s.wakeOne k = .ok s' ∧ s'.Sound := by
  have left : census (update s.caller k .outside) (· == .raised) + 1 =
      census s.caller (· == .raised) := census_update_leave _ (by simp [raised]) (by simp)
  cases queued : s.waiters with
  | nil =>
    refine ⟨s.setCaller k .outside, by rw [wakeOne, if_pos ⟨raised, free⟩, queued], ?_⟩
    exact { sound with
      covered := fun occupied => by simp [setCaller, queued, free] at occupied
      agrees := Agrees.of_caller sound.agrees rfl rfl rfl rfl }
  | cons t rest =>
    have agrees := sound.agrees t
    have linked := agrees.linked.mp (by simp [queued])
    have nodup := sound.nodup
    rw [queued, nodup_cons] at nodup
    obtain ⟨state, woken, consistent⟩ : ∃ state, (s.thread t).state.wake = .ok state ∧
        (WaitThread.mk (s.thread t).pc state true).Consistent := by
      have before := agrees.consistent
      cases linked.1 with
      | inl place =>
        simp only [WaitThread.Consistent, place, linked.2] at before
        exact ⟨.running, by rw [before]; rfl, by simp [WaitThread.Consistent, place]⟩
      | inr place =>
        simp only [WaitThread.Consistent, place, linked.2] at before
        exact ⟨.waking, by rw [before]; rfl, by simp [WaitThread.Consistent, place]⟩
    refine ⟨_, by rw [wakeOne, if_pos ⟨raised, free⟩, queued]; simp only [woken]; rfl, ?_⟩
    have joined : census (update s.thread t ⟨(s.thread t).pc, state, true⟩)
        WaitThread.removed = census s.thread WaitThread.removed + 1 :=
      census_update_join _ linked.2 rfl
    exact { sound with
      covered := fun _ => by
        have before := sound.covered (.inl (by simp [queued]))
        simp only [pending, setThread, setCaller] at before ⊢
        omega
      nodup := nodup.2
      agrees := sound.agrees_step t (by constructor <;>
        simp [setThread, setCaller, agrees.condition, agrees.queue, nodup.1, consistent])
        fun u apart => by simp [setThread, setCaller, apart, queued] }

theorem apply_kept (sound : s.Sound) (action : Action τ κ) : Kept (s.apply action) := by
  cases action with
  | enter t => exact enter_kept sound
  | check t => exact check_kept sound
  | lockQueue t => exact lockQueue_kept sound
  | dropCondition t => exact dropCondition_kept sound
  | enqueue t =>
    by_cases place : (s.thread t).pc = .queueLock
    · exact .inr (enqueue_sound sound place)
    · exact .inl (if_neg place)
  | commit t =>
    by_cases enabled : (s.thread t).pc = .committing ∧ s.queueLock = none
    · exact .inr (commit_sound sound enabled.1 enabled.2)
    · exact .inl (if_neg enabled)
  | preempt t => exact preempt_kept sound
  | makeReady t => exact makeReady_kept sound
  | dispatch t => exact dispatch_kept sound
  | complete k => exact complete_kept sound
  | wakeOne k =>
    by_cases enabled : s.caller k = .raised ∧ s.queueLock = none
    · exact .inr (wakeOne_sound sound enabled.1 enabled.2)
    · exact .inl (if_neg enabled)

/-- The completion is right at every moment of the steps, and no step ends in a panic. A step that
is not enabled is not taken. -/
def AlwaysRight : List (Action τ κ) → Completion τ κ → Prop
  | [], s => s.Right
  | action :: rest, s => s.Right ∧
    match s.apply action with
    | .ok after => AlwaysRight rest after
    | .error .disabled => AlwaysRight rest s
    | .error (.panic _) => False

/-- The run lemma. -/
theorem alwaysRight_of_sound (actions : List (Action τ κ)) (sound : s.Sound) :
    AlwaysRight actions s := by
  induction actions generalizing s with
  | nil => exact sound.right
  | cons action rest ih =>
    refine ⟨sound.right, ?_⟩
    cases apply_kept sound action with
    | inl disabled =>
      rw [disabled]
      exact ih sound
    | inr taken =>
      obtain ⟨s', step, after⟩ := taken
      rw [step]
      exact ih after

/-- With any number of waiting threads and of callers of `complete`, after any steps in any order:
the returned waits and the stored count add up to the completions, and while a completion is stored
and a waiter is linked, some caller has its `wake_one` to do or some removed waiter its check. -/
theorem completion_right (actions : List (Action τ κ)) : AlwaysRight actions initial :=
  alwaysRight_of_sound actions initial_sound

end Completion

end Horizon.Threads
