import Horizon.Kernel.WaitQueue
import Horizon.Spec.Ownership

/-!
# Wait queues: links, states and joiners

A waiter is linked exactly while its thread is `Blocking` or `Blocked`, on the one queue of the call
the thread is in. A joiner keeps `inner` of the thread it joins until it has the lock of that
thread's queue; so a joiner that saw the thread alive is linked before the `wake_all` of `finish`,
and after it nobody is.
-/

namespace Horizon.Threads

open Function Ownership

/-- The states a thread can be in, by its place in `wait`. -/
def WaitPc.Allows : WaitPc → ThreadState → Prop
  | .outside, state =>
    state = .new ∨ state = .registered ∨ state = .ready ∨ state = .running ∨ state = .dead
  | .checking, state => state = .running ∨ state = .ready
  | .unsatisfied, state | .bothLocks, state | .queueLock, state => state = .running
  | .committing, state => state = .running ∨ state = .blocking
  | .switching, state => state = .blocked ∨ state = .waking ∨ state = .ready

variable {τ κ ι : Type}

/-- What the fields of a thread say agrees. -/
structure QueueThread.Consistent (thread : QueueThread τ κ ι) : Prop where
  place : thread.pc.Allows thread.state
  linked : thread.linked = true ↔ thread.state = .blocking ∨ thread.state = .blocked
  call : thread.call = none ↔ thread.pc = .outside
  finish : thread.finish = .alive ↔ thread.state ≠ .dead

variable (thread : QueueThread τ κ ι)

/-- The condition lock of its call that a thread has, between the check and the drop. -/
def QueueThread.conditionLock : Option (LockId τ ι) :=
  if thread.pc = .unsatisfied ∨ thread.pc = .bothLocks then thread.call.map WaitCall.lock
  else none

/-- The lock of its call's queue that a thread has. -/
def QueueThread.ownQueue : Option (QueueId τ κ) :=
  if thread.pc = .bothLocks ∨ thread.pc = .queueLock then thread.call.map WaitCall.queue else none

/-- The queue a thread is linked to. -/
def QueueThread.linkedTo : Option (QueueId τ κ) :=
  if thread.linked then thread.call.map WaitCall.queue else none

/-- A place where a thread has no lock between steps. -/
def Unlocked (pc : WaitPc) : Prop :=
  pc = .outside ∨ pc = .checking ∨ pc = .committing ∨ pc = .switching

section

variable {thread : QueueThread τ κ ι}

theorem Unlocked.conditionLock (unlocked : Unlocked thread.pc) : thread.conditionLock = none := by
  cases pc : thread.pc <;> simp [pc, Unlocked, QueueThread.conditionLock] at unlocked ⊢

theorem Unlocked.ownQueue (unlocked : Unlocked thread.pc) : thread.ownQueue = none := by
  cases pc : thread.pc <;> simp [pc, Unlocked, QueueThread.ownQueue] at unlocked ⊢

theorem QueueThread.Consistent.unlinked (consistent : thread.Consistent)
    (apart : thread.state ≠ .blocking ∧ thread.state ≠ .blocked) : thread.linked = false := by
  rw [← Bool.not_eq_true, consistent.linked]
  simp [apart]

/-- A linked thread is in the second half of `wait`. -/
theorem QueueThread.Consistent.waits (consistent : thread.Consistent)
    (linked : thread.linked = true) :
    thread.state = .blocking ∧ thread.pc = .committing ∨
      thread.state = .blocked ∧ thread.pc = .switching := by
  have place := consistent.place
  cases consistent.linked.mp linked with
  | inl blocking | inr blocked =>
    cases pc : thread.pc <;> simp_all [WaitPc.Allows]

end

/-- The thread is in `wait` and comes to the head of the loop without being woken: it has not
checked yet, or it was woken since. -/
def QueueThread.Rechecks : Prop :=
  (thread.pc = .checking ∨ thread.pc = .committing ∨ thread.pc = .switching) ∧
    thread.linked = false

/-- The thread found the condition unsatisfied and sleeps or is about to. -/
def QueueThread.Sleeps : Prop :=
  thread.pc = .unsatisfied ∨ thread.pc = .bothLocks ∨ thread.pc = .queueLock ∨
    thread.linked = true

theorem QueueThread.Consistent.rechecks {thread : QueueThread τ κ ι}
    (consistent : thread.Consistent) (call : thread.call ≠ none) (awake : ¬ thread.Sleeps) :
    thread.Rechecks := by
  have inside : thread.pc ≠ .outside := fun outside => call (consistent.call.mpr outside)
  simp only [Sleeps, not_or, Bool.not_eq_true] at awake
  cases pc : thread.pc <;> simp [pc, Rechecks, awake] at inside awake ⊢

/-- What the steps between two checks do to a thread: it keeps its call, is not sent to sleep
without a check, and rechecks if it had to. -/
structure QueueThread.Follows (before after : QueueThread τ κ ι) : Prop where
  call : after.call = before.call
  rechecks : before.Rechecks → after.Rechecks
  sleeps : after.Sleeps → before.Sleeps

theorem QueueThread.Follows.refl : thread.Follows thread :=
  ⟨rfl, id, id⟩

theorem QueueThread.Follows.trans {first second third : QueueThread τ κ ι}
    (before : first.Follows second) (after : second.Follows third) : first.Follows third :=
  ⟨after.call.trans before.call, fun had => after.rechecks (before.rechecks had),
    fun sleeps => before.sleeps (after.sleeps sleeps)⟩

namespace WaitQueues

/-- What a state must satisfy. -/
structure Right (s : WaitQueues τ κ ι) : Prop where
  linkedIff : ∀ t, (∃ queue, t ∈ s.waiters queue) ↔
    (s.thread t).state = .blocking ∨ (s.thread t).state = .blocked
  oneQueue : ∀ t queue other, t ∈ s.waiters queue → t ∈ s.waiters other → queue = other
  once : ∀ queue, (s.waiters queue).Nodup
  finished : ∀ t, (s.thread t).finish = .completed → s.waiters (.joiners t) = []

/-- The invariant. -/
structure Sound (s : WaitQueues τ κ ι) : Prop where
  locks : Owned s.lock (QueueThread.conditionLock ∘ s.thread)
  queueLocks : Owned s.queueLock (QueueThread.ownQueue ∘ s.thread)
  links : Listed s.waiters (QueueThread.linkedTo ∘ s.thread)
  consistent : ∀ t, (s.thread t).Consistent
  /-- A joiner that found a thread alive keeps it so until it has the lock of the queue. -/
  alive : ∀ t, (s.thread t).finish ≠ .alive → s.lock (.inner t) = none
  /-- From the end of `finish` on nobody joins. -/
  finished : ∀ t, (s.thread t).finish = .completed →
    s.queueLock (.joiners t) = none ∧ s.waiters (.joiners t) = []

variable {s : WaitQueues τ κ ι}

theorem Sound.mem_waiters (sound : s.Sound) (queue : QueueId τ κ) (t : τ) :
    t ∈ s.waiters queue ↔
      (s.thread t).linked = true ∧ (s.thread t).call.map WaitCall.queue = some queue := by
  simp [sound.links.mem_iff, QueueThread.linkedTo]

/-- The invariant gives what a state must satisfy. -/
theorem Sound.right (sound : s.Sound) : s.Right where
  linkedIff t := by
    have consistent := sound.consistent t
    simp only [← consistent.linked, sound.mem_waiters]
    constructor
    · exact fun ⟨queue, linked, _⟩ => linked
    · intro linked
      have inside : (s.thread t).call ≠ none := by
        rw [Ne, consistent.call]
        rcases consistent.waits linked with ⟨-, pc⟩ | ⟨-, pc⟩ <;> simp [pc]
      obtain ⟨call, found⟩ := Option.ne_none_iff_exists'.mp inside
      exact ⟨call.queue, linked, by simp [found]⟩
  oneQueue t queue other here there :=
    Option.some.inj (((sound.links.mem_iff queue t).mp here).symm.trans
      ((sound.links.mem_iff other t).mp there))
  once := sound.links.nodup
  finished t completed := (sound.finished t completed).2

/-- The initial state satisfies the invariant. -/
theorem initial_sound : (initial : WaitQueues τ κ ι).Sound where
  locks _ _ := by simp [initial, QueueThread.conditionLock]
  queueLocks _ _ := by simp [initial, QueueThread.ownQueue]
  links := ⟨fun _ => List.nodup_nil, fun _ _ => by simp [initial, QueueThread.linkedTo]⟩
  consistent _ := by constructor <;> simp [initial, WaitPc.Allows]
  alive _ _ := rfl
  finished _ _ := ⟨rfl, rfl⟩

variable {t : τ} {result : Except QueueHalt (WaitQueues τ κ ι)} {call : WaitCall τ κ ι}

theorem Sound.lock_eq (sound : s.Sound) (found : (s.thread t).call = some call)
    (place : (s.thread t).pc = .unsatisfied ∨ (s.thread t).pc = .bothLocks) :
    s.lock call.lock = some t := by
  simp [sound.locks _ _, QueueThread.conditionLock, place, found]

theorem Sound.queueLock_eq (sound : s.Sound) (found : (s.thread t).call = some call)
    (place : (s.thread t).pc = .bothLocks ∨ (s.thread t).pc = .queueLock) :
    s.queueLock call.queue = some t := by
  simp [sound.queueLocks _ _, QueueThread.ownQueue, place, found]

/-- A step that is not enabled, or keeps the invariant and the finished threads. -/
def Kept (s : WaitQueues τ κ ι) (result : Except QueueHalt (WaitQueues τ κ ι)) : Prop :=
  result = .error .disabled ∨ ∃ s', result = .ok s' ∧ s'.Sound ∧
    ∀ t, (s.thread t).finish = .completed → (s'.thread t).finish = .completed

theorem Kept.of_finish {s' : WaitQueues τ κ ι} (sound : s'.Sound)
    (finish : ∀ u, (s'.thread u).finish = (s.thread u).finish) : s.Kept (.ok s') :=
  .inr ⟨s', rfl, sound, fun t completed => by rw [finish, completed]⟩

theorem Kept.guard {enabled : Prop} [Decidable enabled] (kept : enabled → s.Kept result) :
    s.Kept (if enabled then result else .error .disabled) := by
  split
  case isTrue holds => exact kept holds
  case isFalse => exact .inl rfl

theorem Kept.of_transition {next state : ThreadState}
    {rest : ThreadState → Except QueueHalt (WaitQueues τ κ ι)}
    (allowed : (s.thread t).state.transitionTo next = .ok state)
    (after : s.lock (.inner t) = none → s.Kept (rest state)) :
    s.Kept (s.transitionTo t next >>= rest) := by
  rw [transitionTo]
  split
  case isTrue free =>
    rw [allowed]
    exact after free
  case isFalse => exact .inl rfl

theorem alive_of_unsatisfied {answer : Bool} {target : τ} (sound : s.Sound)
    (unsatisfied : ¬ s.isSatisfied answer (.join target) = true) :
    (s.thread target).finish = .alive := by
  rw [(sound.consistent target).finish]
  simpa [isSatisfied] using unsatisfied

/-- What a wakeup leaves. -/
structure Woken (s s' : WaitQueues τ κ ι) : Prop where
  sound : s'.Sound
  lock : s'.lock = s.lock
  queueLock : s'.queueLock = s.queueLock
  follows : ∀ u, (s.thread u).Follows (s'.thread u)
  finish : ∀ u, (s'.thread u).finish = (s.thread u).finish

theorem Woken.refl (sound : s.Sound) : s.Woken s :=
  ⟨sound, rfl, rfl, fun _ => .refl _, fun _ => rfl⟩

theorem Woken.trans {first second third : WaitQueues τ κ ι} (before : first.Woken second)
    (after : second.Woken third) : first.Woken third where
  sound := after.sound
  lock := after.lock.trans before.lock
  queueLock := after.queueLock.trans before.queueLock
  follows u := (before.follows u).trans (after.follows u)
  finish u := (after.finish u).trans (before.finish u)

theorem Kept.of_woken {rest : WaitQueues τ κ ι → Prop}
    (spec : result = .error .disabled ∨ ∃ s', result = .ok s' ∧ s.Woken s' ∧ rest s') :
    s.Kept result := by
  cases spec with
  | inl waits => exact .inl waits
  | inr done =>
    obtain ⟨s', ended, woken, -⟩ := done
    rw [ended]
    exact .of_finish woken.sound woken.finish

theorem wake_of_linked {thread : QueueThread τ κ ι} (consistent : thread.Consistent)
    (linked : thread.linked = true) : ∃ state, thread.state.wake = .ok state ∧
      QueueThread.Consistent { thread with state := state, linked := false } ∧
      (thread.pc = .committing ∨ thread.pc = .switching) := by
  have call := consistent.call
  have finish := consistent.finish
  rcases consistent.waits linked with ⟨blocking, pc⟩ | ⟨blocked, pc⟩
  · exact ⟨.running, by rw [blocking]; rfl, ⟨by simp [pc, WaitPc.Allows], by simp, call,
      by simpa [blocking] using finish⟩, .inl pc⟩
  · exact ⟨.waking, by rw [blocked]; rfl, ⟨by simp [pc, WaitPc.Allows], by simp, call,
      by simpa [blocked] using finish⟩, .inr pc⟩

variable [DecidableEq τ]

theorem setThread_finish {value : QueueThread τ κ ι}
    (finish : value.finish = (s.thread t).finish) (u : τ) :
    ((s.setThread t value).thread u).finish = (s.thread u).finish := by
  by_cases here : u = t
  · simp [WaitQueues.setThread, here, finish]
  · simp [WaitQueues.setThread, here]

section Updates

variable {value : QueueThread τ κ ι} {lock : LockId τ ι → Option τ}
  {queueLock : QueueId τ κ → Option τ} {waiters : QueueId τ κ → List τ} (sound : s.Sound)
include sound

/-- A step changes one thread, with the locks and links that the thread then has. -/
theorem Sound.changed
    (locks : Owned lock (update (QueueThread.conditionLock ∘ s.thread) t value.conditionLock))
    (queueLocks : Owned queueLock (update (QueueThread.ownQueue ∘ s.thread) t value.ownQueue))
    (links : Listed waiters (update (QueueThread.linkedTo ∘ s.thread) t value.linkedTo))
    (consistent : value.Consistent)
    (alive : ∀ u, (update s.thread t value u).finish ≠ .alive → lock (.inner u) = none)
    (finished : ∀ u, (update s.thread t value u).finish = .completed →
      queueLock (.joiners u) = none ∧ waiters (.joiners u) = []) :
    Sound ⟨lock, queueLock, waiters, update s.thread t value⟩ where
  locks := by rwa [comp_update]
  queueLocks := by rwa [comp_update]
  links := by rwa [comp_update]
  consistent := (forall_update_iff s.thread fun _ => QueueThread.Consistent).mpr
    ⟨consistent, fun u _ => sound.consistent u⟩
  alive := alive
  finished := finished

/-- So does a step that is not one of `finish`. -/
theorem Sound.step (finish : value.finish = (s.thread t).finish)
    (locks : Owned lock (update (QueueThread.conditionLock ∘ s.thread) t value.conditionLock))
    (queueLocks : Owned queueLock (update (QueueThread.ownQueue ∘ s.thread) t value.ownQueue))
    (links : Listed waiters (update (QueueThread.linkedTo ∘ s.thread) t value.linkedTo))
    (consistent : value.Consistent)
    (alive : ∀ u, (s.thread u).finish ≠ .alive → lock (.inner u) = none)
    (finished : ∀ u, (s.thread u).finish = .completed →
      queueLock (.joiners u) = none ∧ waiters (.joiners u) = []) :
    s.Kept (.ok ⟨lock, queueLock, waiters, update s.thread t value⟩) := by
  have same := setThread_finish finish
  refine Kept.of_finish (sound.changed locks queueLocks links consistent ?_ ?_) same
  · exact fun u ended => alive u (same u ▸ ended)
  · exact fun u completed => finished u (same u ▸ completed)

theorem Kept.setThread (before : Unlocked (s.thread t).pc) (after : Unlocked value.pc)
    (linkedTo : value.linkedTo = (s.thread t).linkedTo)
    (finish : value.finish = (s.thread t).finish) (consistent : value.Consistent) :
    s.Kept (.ok (s.setThread t value)) :=
  sound.step finish (sound.locks.keep (after.conditionLock.trans before.conditionLock.symm))
    (sound.queueLocks.keep (after.ownQueue.trans before.ownQueue.symm)) (sound.links.keep linkedTo)
    consistent sound.alive sound.finished

theorem move_kept {state next : ThreadState} (before : (s.thread t).state = state)
    (allowed : state.transitionTo next = .ok next)
    (moves : state ∉ [.blocking, .blocked, .dead] ∧ next ∉ [.blocking, .blocked, .dead])
    (place : (s.thread t).pc.Allows state →
      Unlocked (s.thread t).pc ∧ (s.thread t).pc.Allows next) : s.Kept (s.move t next) := by
  have consistent := sound.consistent t
  subst before
  simp only [List.mem_cons, List.not_mem_nil, or_false, not_or] at moves
  obtain ⟨unlocked, after⟩ := place consistent.place
  apply Kept.of_transition allowed
  intro _
  apply Kept.setThread sound unlocked
  · exact unlocked
  · rfl
  · rfl
  · constructor
    · exact after
    · simp [consistent.unlinked ⟨moves.1.1, moves.1.2.1⟩, moves.2]
    · exact consistent.call
    · simp [consistent.finish, moves]

end Updates

theorem enter_kept (t : τ) (call : WaitCall τ κ ι) (sound : s.Sound) : s.Kept (s.enter t call) := by
  refine Kept.guard fun enabled => ?_
  have consistent := sound.consistent t
  have unlinked := consistent.unlinked (by simp [enabled.2])
  have entered : s.Kept (.ok (s.setThread t
      { s.thread t with pc := .checking, call := some call })) := by
    apply Kept.setThread sound (.inl enabled.1)
    · exact .inr (.inl rfl)
    · simp [QueueThread.linkedTo, unlinked]
    · rfl
    · exact { consistent with place := .inl enabled.2, call := by simp }
  cases call with
  | object queue lock => exact entered
  | join target =>
    simp only
    split
    · exact .inl rfl
    · split
      · exact Kept.of_finish sound (fun _ => rfl)
      · exact entered

theorem commit_kept (sound : s.Sound) : s.Kept (s.commit t) := by
  have consistent := sound.consistent t
  rw [commit]
  split
  case h_1 => exact .inl rfl
  case h_2 call found =>
    refine Kept.guard fun enabled => ?_
    have place := consistent.place
    have unlocked : Unlocked (s.thread t).pc := .inr (.inr (.inl enabled.1))
    simp only [enabled.1, WaitPc.Allows] at place
    cases place with
    | inl running =>
      have unlinked := consistent.unlinked (by simp [running])
      simp only [running, unlinked]
      apply Kept.setThread sound unlocked (.inr (.inl rfl))
      · simp [QueueThread.linkedTo, unlinked]
      · rfl
      · exact ⟨.inl rfl, by simp, by simp [found], by simp [consistent.finish, running]⟩
    | inr blocking =>
      have linked := consistent.linked.mpr (.inl blocking)
      have allowed : (s.thread t).state.transitionTo .blocked = .ok .blocked := by
        rw [blocking]
        rfl
      simp only [blocking, linked]
      apply Kept.of_transition allowed
      intro _
      apply Kept.setThread sound unlocked (.inr (.inr (.inr rfl)))
      · simp [QueueThread.linkedTo, linked]
      · rfl
      · exact ⟨.inl rfl, by simp, by simp [found], by simp [consistent.finish, blocking]⟩

section ConditionLocks

variable [DecidableEq ι]

variable {s : WaitQueues τ κ ι}

theorem check_kept (t : τ) (answer : Bool) (sound : s.Sound) : s.Kept (s.check t answer) := by
  have consistent := sound.consistent t
  rw [check]
  split
  case h_1 => exact .inl rfl
  case h_2 call found =>
    refine Kept.guard fun enabled => ?_
    have unlocked : Unlocked (s.thread t).pc := .inr (.inl enabled.1)
    split
    case isTrue =>
      apply Kept.setThread sound unlocked (.inl rfl)
      · simp [QueueThread.linkedTo, consistent.unlinked, enabled.2.1]
      · rfl
      · exact { consistent with place := by simp [WaitPc.Allows, enabled.2.1], call := by simp }
    case isFalse unsatisfied =>
      refine sound.step rfl ?_ (sound.queueLocks.keep ?_) (sound.links.keep rfl) ?_ ?_
        sound.finished
      · simpa [setThread, QueueThread.conditionLock, found] using
          sound.locks.take enabled.2.2 unlocked.conditionLock
      · simp [QueueThread.ownQueue, enabled.1]
      · exact { consistent with place := enabled.2.1, call := by simp [found] }
      · intro u ended
        -- Of a thread that is joined the condition was that it is dead.
        have apart : LockId.inner u ≠ call.lock := by
          intro same
          cases call with
          | object queue lock => cases same
          | join target =>
            cases same
            exact ended (alive_of_unsatisfied sound unsatisfied)
        simpa [setThread, apart] using sound.alive u ended

theorem dropCondition_kept (sound : s.Sound) : s.Kept (s.dropCondition t) := by
  have consistent := sound.consistent t
  rw [dropCondition]
  split
  case h_1 => exact .inl rfl
  case h_2 call found =>
    refine Kept.guard fun place => ?_
    have running : (s.thread t).state = .running := by
      simpa [place, WaitPc.Allows] using consistent.place
    refine sound.step rfl ?_ (sound.queueLocks.keep ?_) (sound.links.keep rfl) ?_ ?_ sound.finished
    · have held : (QueueThread.conditionLock ∘ s.thread) t = some call.lock := by
        simp [QueueThread.conditionLock, place, found]
      simpa [setThread, QueueThread.conditionLock] using sound.locks.drop held
    · simp [QueueThread.ownQueue, place]
    · exact { consistent with place := running, call := by simp [found] }
    · intro u ended
      by_cases here : LockId.inner u = call.lock
      · simp [here]
      · simpa [setThread, here] using sound.alive u ended

end ConditionLocks

variable [DecidableEq κ]

theorem lockQueue_kept (sound : s.Sound) : s.Kept (s.lockQueue t) := by
  have consistent := sound.consistent t
  rw [lockQueue]
  split
  case h_1 => exact .inl rfl
  case h_2 call found =>
    refine Kept.guard fun enabled => ?_
    have running : (s.thread t).state = .running := by
      simpa [enabled.1, WaitPc.Allows] using consistent.place
    refine sound.step rfl (sound.locks.keep ?_) ?_ (sound.links.keep rfl) ?_ sound.alive ?_
    · simp [QueueThread.conditionLock, enabled.1]
    · have without : (QueueThread.ownQueue ∘ s.thread) t = none := by
        simp [QueueThread.ownQueue, enabled.1]
      simpa [setThread, QueueThread.ownQueue, found] using
        sound.queueLocks.take enabled.2 without
    · exact { consistent with place := running, call := by simp [found] }
    · intro u completed
      -- The joiner still has `inner` of the thread it joins.
      have apart : QueueId.joiners u ≠ call.queue := by
        intro same
        cases call with
        | object queue lock => cases same
        | join target =>
          cases same
          have owned := sound.lock_eq found (.inl enabled.1)
          rw [WaitCall.lock, sound.alive u (by simp [completed])] at owned
          cases owned
      simpa [setThread, apart] using sound.finished u completed

theorem enqueue_kept (sound : s.Sound) : s.Kept (s.enqueue t) := by
  have consistent := sound.consistent t
  rw [enqueue]
  split
  case h_1 => exact .inl rfl
  case h_2 call found =>
    refine Kept.guard fun place => ?_
    have running : (s.thread t).state = .running := by
      simpa [place, WaitPc.Allows] using consistent.place
    have unlinked := consistent.unlinked (by simp [running])
    have owned := sound.queueLock_eq found (.inr place)
    have allowed : (s.thread t).state.transitionTo .blocking = .ok .blocking := by
      rw [running]
      rfl
    rw [if_neg (by simp [unlinked])]
    apply Kept.of_transition allowed
    intro _
    refine sound.step rfl (sound.locks.keep ?_) ?_ ?_ ?_ sound.alive ?_
    · simp [QueueThread.conditionLock, place]
    · simpa [setQueueLock, setThread, QueueThread.ownQueue] using
        sound.queueLocks.drop ((sound.queueLocks _ _).mp owned)
    · have without : (QueueThread.linkedTo ∘ s.thread) t = none := by
        simp [QueueThread.linkedTo, unlinked]
      simpa [setQueueLock, setThread, QueueThread.linkedTo, found] using
        sound.links.push call.queue without
    · exact ⟨.inr rfl, by simp, by simp [found], by simp [consistent.finish, running]⟩
    · intro u completed
      have apart : QueueId.joiners u ≠ call.queue := by
        intro same
        rw [← same, (sound.finished u completed).1] at owned
        cases owned
      simpa [setQueueLock, setThread, apart] using sound.finished u completed

variable (queue : QueueId τ κ)

theorem wakeFirst_spec (sound : s.Sound) : s.wakeFirst queue = .error .disabled ∨
    (s.wakeFirst queue = .ok none ∧ s.waiters queue = []) ∨
    ∃ s', s.wakeFirst queue = .ok (some s') ∧ Woken s s' ∧
      s'.waiters queue = (s.waiters queue).tail ∧
      ∃ t ∈ s.waiters queue, (s'.thread t).Rechecks := by
  rw [wakeFirst]
  split
  case h_1 empty => exact .inr (.inl ⟨rfl, empty⟩)
  case h_2 t rest queued =>
    split
    case isTrue => exact .inl rfl
    case isFalse =>
      have linked := ((sound.mem_waiters queue t).mp (by simp [queued])).1
      obtain ⟨state, woken, consistent, inside⟩ := wake_of_linked (sound.consistent t) linked
      have unlocked : Unlocked (s.thread t).pc := .inr (.inr inside)
      have rechecks : QueueThread.Rechecks { s.thread t with state := state, linked := false } :=
        ⟨.inr inside, rfl⟩
      simp only [woken, linked]
      have follows : ∀ u, (s.thread u).Follows (((s.setThread t { s.thread t with
          state := state, linked := false }).setWaiters queue rest).thread u) := by
        intro u
        by_cases here : u = t
        · rw [here]
          simp only [setWaiters, setThread, update_self]
          exact ⟨rfl, fun _ => rechecks, fun sleeps => .inr (.inr (.inr linked))⟩
        · simp only [setWaiters, setThread, update_of_ne here]
          exact .refl _
      have finish : ∀ u, ((s.setThread t { s.thread t with state := state, linked := false }).thread
          u).finish = (s.thread u).finish := setThread_finish rfl
      refine .inr (.inr ⟨_, rfl, ⟨?_, rfl, rfl, follows, finish⟩, by simp [setWaiters, queued],
        t, by simp [queued], by simpa [setWaiters, setThread] using rechecks⟩)
      refine sound.changed (sound.locks.keep rfl) (sound.queueLocks.keep rfl)
        (by simpa [setThread, QueueThread.linkedTo] using sound.links.pop queued) consistent ?_ ?_
      · exact fun u ended => sound.alive u (finish u ▸ ended)
      · intro u completed
        have before := sound.finished u (finish u ▸ completed)
        have apart : QueueId.joiners u ≠ queue := by
          intro same
          rw [same, queued] at before
          cases before.2
        simpa [setThread, apart] using before

theorem wakeOne_spec (sound : s.Sound) :
    s.wakeOne queue = .error .disabled ∨ ∃ s', s.wakeOne queue = .ok s' ∧ Woken s s' ∧
      s.queueLock queue = none ∧
      (s.waiters queue = [] ∨ ∃ t ∈ s.waiters queue, (s'.thread t).Rechecks) := by
  rw [wakeOne]
  split
  case isFalse => exact .inl rfl
  case isTrue free =>
    cases wakeFirst_spec queue sound with
    | inl waits =>
      rw [waits]
      exact .inl rfl
    | inr done =>
      cases done with
      | inl empty =>
        rw [empty.1]
        exact .inr ⟨s, rfl, .refl sound, free, .inl empty.2⟩
      | inr found =>
        obtain ⟨s', first, woken, _, rechecks⟩ := found
        rw [first]
        exact .inr ⟨s', rfl, woken, free, .inr rechecks⟩

theorem wakeLoop_spec (rounds : Nat) (sound : s.Sound)
    (enough : (s.waiters queue).length < rounds) : wakeLoop queue rounds s = .error .disabled ∨
    ∃ s', wakeLoop queue rounds s = .ok s' ∧ Woken s s' ∧ s'.waiters queue = [] := by
  induction rounds generalizing s with
  | zero => exact absurd enough (Nat.not_lt_zero _)
  | succ rounds ih =>
    rw [wakeLoop]
    cases wakeFirst_spec queue sound with
    | inl waits =>
      rw [waits]
      exact .inl rfl
    | inr done =>
      cases done with
      | inl empty =>
        rw [empty.1]
        exact .inr ⟨s, rfl, .refl sound, empty.2⟩
      | inr found =>
        obtain ⟨s', first, woken, shorter, _⟩ := found
        rw [first]
        have fewer : (s'.waiters queue).length < rounds := by
          cases queued : s.waiters queue with
          | nil => simp [wakeFirst, queued] at first
          | cons t rest =>
            rw [shorter, queued]
            rw [queued] at enough
            exact Nat.lt_of_succ_lt_succ enough
        cases ih woken.sound fewer with
        | inl waits => exact .inl waits
        | inr ended =>
          obtain ⟨last, looped, after, empty⟩ := ended
          exact .inr ⟨last, looped, woken.trans after, empty⟩

theorem wakeAll_spec (sound : s.Sound) :
    s.wakeAll queue = .error .disabled ∨ ∃ s', s.wakeAll queue = .ok s' ∧ Woken s s' ∧
      s.queueLock queue = none ∧ s'.waiters queue = [] := by
  rw [wakeAll]
  split
  case isFalse => exact .inl rfl
  case isTrue free =>
    cases wakeLoop_spec queue _ sound (Nat.lt_succ_self _) with
    | inl waits => exact .inl waits
    | inr done =>
      obtain ⟨s', looped, woken, empty⟩ := done
      exact .inr ⟨s', looped, woken, free, empty⟩

omit [DecidableEq κ] in
theorem markDead_kept (sound : s.Sound) : s.Kept (s.markDead t) := by
  have consistent := sound.consistent t
  refine Kept.guard fun enabled => ?_
  have allowed : (s.thread t).state.transitionTo .dead = .ok .dead := by
    rw [enabled.2]
    rfl
  have alive : (s.thread t).finish = .alive := by
    rw [consistent.finish]
    simp [enabled.2]
  have unlinked := consistent.unlinked (by simp [enabled.2])
  apply Kept.of_transition allowed
  intro free
  refine .inr ⟨_, rfl, ?_, ?_⟩
  · refine sound.changed (sound.locks.keep rfl) (sound.queueLocks.keep rfl) (sound.links.keep rfl)
      ⟨?_, ?_, consistent.call, by simp⟩ ?_ ?_
    · simp [enabled.1, WaitPc.Allows]
    · simp [unlinked]
    · intro u ended
      by_cases here : u = t
      · rwa [here]
      · exact sound.alive u (by simpa [here] using ended)
    · intro u completed
      by_cases here : u = t
      · simp [here] at completed
      · exact sound.finished u (by simpa [here] using completed)
  · intro u completed
    by_cases here : u = t
    · rw [here, alive] at completed
      cases completed
    · simpa [setThread, here] using completed

theorem finishWake_kept (sound : s.Sound) : s.Kept (s.finishWake t) := by
  refine Kept.guard fun dead => ?_
  cases wakeAll_spec (.joiners t) sound with
  | inl waits =>
    rw [waits]
    exact .inl rfl
  | inr done =>
    obtain ⟨s', all, woken, free, empty⟩ := done
    rw [all]
    have sound := woken.sound
    have still : (s'.thread t).finish = .dead := by rw [woken.finish, dead]
    refine .inr ⟨_, rfl, ?_, ?_⟩
    · refine sound.changed (sound.locks.keep rfl) (sound.queueLocks.keep rfl) (sound.links.keep rfl)
        ?_ ?_ ?_
      · have consistent := sound.consistent t
        exact { consistent with finish := by simpa [still] using consistent.finish }
      · intro u ended
        by_cases here : u = t
        · exact sound.alive u (by simp [here, still])
        · exact sound.alive u (by simpa [here] using ended)
      · intro u completed
        by_cases here : u = t
        · rw [here]
          exact ⟨woken.queueLock ▸ free, empty⟩
        · exact sound.finished u (by simpa [here] using completed)
    · intro u completed
      by_cases here : u = t
      · simp [setThread, here]
      · simpa [setThread, here, woken.finish] using completed

variable [DecidableEq ι]

theorem dispatch_kept (sound : s.Sound) : s.Kept (s.apply (.dispatch t)) := by
  refine Kept.guard fun ready => ?_
  have consistent := sound.consistent t
  have place := consistent.place
  have unlinked := consistent.unlinked (by simp [ready])
  have unlocked : Unlocked (s.thread t).pc := by
    cases pc : (s.thread t).pc <;> simp [pc, ready, WaitPc.Allows, Unlocked] at place ⊢
  have allowed : (s.thread t).state.transitionTo .running = .ok .running := by
    rw [ready]
    rfl
  apply Kept.of_transition allowed
  intro _
  apply Kept.setThread sound unlocked
  · cases pc : (s.thread t).pc <;> simp [pc, Unlocked] at unlocked ⊢
  · rfl
  · rfl
  · constructor
    · cases pc : (s.thread t).pc <;> simp [pc, ready, WaitPc.Allows] at place ⊢
    · simp [unlinked]
    · have call := consistent.call
      cases pc : (s.thread t).pc <;> simp [pc] at call ⊢ <;> exact call
    · simp [consistent.finish, ready]

/-- The step lemma. -/
theorem apply_kept (sound : s.Sound) (action : QueueAction τ κ ι) : s.Kept (s.apply action) := by
  cases action with
  | register t =>
    exact Kept.guard fun new => move_kept sound new rfl (by decide)
      (by cases (s.thread t).pc <;> simp [WaitPc.Allows, Unlocked])
  | start t =>
    exact Kept.guard fun registered => move_kept sound registered rfl (by decide)
      (by cases (s.thread t).pc <;> simp [WaitPc.Allows, Unlocked])
  | enter t call => exact enter_kept t call sound
  | check t answer => exact check_kept t answer sound
  | lockQueue t => exact lockQueue_kept sound
  | dropCondition t => exact dropCondition_kept sound
  | enqueue t => exact enqueue_kept sound
  | commit t => exact commit_kept sound
  | preempt t =>
    refine Kept.guard fun enabled => move_kept sound enabled.2 rfl (by decide) fun _ => ?_
    rcases enabled.1 with outside | checking
    · simp [outside, WaitPc.Allows, Unlocked]
    · simp [checking, WaitPc.Allows, Unlocked]
  | makeReady t =>
    exact Kept.guard fun enabled => move_kept sound enabled.2 rfl (by decide)
      (by simp [enabled.1, WaitPc.Allows, Unlocked])
  | dispatch t => exact dispatch_kept sound
  | wakeOne queue => exact Kept.of_woken (wakeOne_spec queue sound)
  | wakeAll queue => exact Kept.of_woken (wakeAll_spec queue sound)
  | markDead t => exact markDead_kept sound
  | finishWake t => exact finishWake_kept sound

/-- At every moment of the steps the queues are right, no step ends in a panic, and a thread whose
`finish` is over stays so. A step that is not enabled is not taken. -/
def AlwaysRight : List (QueueAction τ κ ι) → WaitQueues τ κ ι → Prop
  | [], s => s.Right
  | action :: rest, s => s.Right ∧
    match s.apply action with
    | .ok after => (∀ t, (s.thread t).finish = .completed → (after.thread t).finish = .completed) ∧
      AlwaysRight rest after
    | .error .disabled => AlwaysRight rest s
    | .error _ => False

/-- The run lemma. -/
theorem alwaysRight_of_sound (actions : List (QueueAction τ κ ι))
    (sound : s.Sound) : AlwaysRight actions s := by
  induction actions generalizing s with
  | nil => exact sound.right
  | cons action rest ih =>
    refine ⟨sound.right, ?_⟩
    cases apply_kept sound action with
    | inl disabled =>
      rw [disabled]
      exact ih sound
    | inr taken =>
      obtain ⟨s', step, after, completed⟩ := taken
      rw [step]
      exact ⟨completed, ih after⟩

/-- With any number of threads, wait queues and conditions, after any steps in any order: a thread
is linked exactly while it is `Blocking` or `Blocked`, on one queue and once, no assertion fails,
and from the end of its `finish` on nobody is linked to join it. -/
theorem wait_queues_right (actions : List (QueueAction τ κ ι)) : AlwaysRight actions initial :=
  alwaysRight_of_sound actions initial_sound

end WaitQueues

end Horizon.Threads
