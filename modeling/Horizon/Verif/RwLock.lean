import Horizon.Kernel.RwLockWait
import Horizon.Spec.Census
import Horizon.Spec.Runs
import Horizon.Verif.WaitQueue

/-!
# The reader-writer lock does not get stuck

A writer falls asleep only while the lock is held, and the last unlock wakes a writer if any has
announced itself; so a free lock with announced writers always has one that tries again. A reader
falls asleep only while the lock is written or a writer has announced itself, and the unlock after
which neither is the case wakes all readers.
-/

namespace Horizon.Threads

open Function Census Runs WaitQueues RwLock

section Follows

variable {τ κ ι : Type} [DecidableEq τ]

theorem follows_update {thread : τ → QueueThread τ κ ι} {t : τ} {value : QueueThread τ κ ι}
    (follows : (thread t).Follows value) (u : τ) :
    (thread u).Follows (update thread t value u) := by
  by_cases here : u = t
  · rw [here, update_self]
    exact follows
  · rw [update_of_ne here]
    exact .refl _

theorem WaitQueues.move_follows {s s' : WaitQueues τ κ ι} {t : τ} {next : ThreadState}
    (moved : s.move t next = .ok s') (u : τ) : (s.thread u).Follows (s'.thread u) := by
  obtain ⟨state, _, done⟩ := bind_eq_ok.mp moved
  cases done
  apply follows_update
  exact ⟨rfl, id, id⟩

variable [DecidableEq κ] [DecidableEq ι]

theorem WaitQueues.apply_follows {s s' : WaitQueues τ κ ι} {step : QueueAction τ κ ι}
    (leaves : step.leavesLock = true) (taken : s.apply step = .ok s') (u : τ) :
    (s.thread u).Follows (s'.thread u) := by
  cases step with
  | register t | start t | preempt t | makeReady t =>
    exact move_follows (guard_eq_ok.mp taken).2 u
  | lockQueue t =>
    simp only [apply, lockQueue] at taken
    split at taken
    · cases taken
    obtain ⟨enabled, taken⟩ := guard_eq_ok.mp taken
    cases taken
    apply follows_update
    constructor <;> simp [QueueThread.Rechecks, QueueThread.Sleeps, enabled.1]
  | dropCondition t =>
    simp only [apply, dropCondition] at taken
    split at taken
    · cases taken
    obtain ⟨place, taken⟩ := guard_eq_ok.mp taken
    cases taken
    apply follows_update
    constructor <;> simp [QueueThread.Rechecks, QueueThread.Sleeps, place]
  | enqueue t =>
    simp only [apply, enqueue] at taken
    split at taken
    · cases taken
    obtain ⟨place, taken⟩ := guard_eq_ok.mp taken
    split at taken
    · cases taken
    obtain ⟨state, _, done⟩ := bind_eq_ok.mp taken
    cases done
    apply follows_update
    constructor <;> simp [QueueThread.Rechecks, QueueThread.Sleeps, place]
  | commit t =>
    simp only [apply, commit] at taken
    split at taken
    · cases taken
    obtain ⟨enabled, taken⟩ := guard_eq_ok.mp taken
    split at taken
    · split at taken
      · cases taken
      · cases taken
        apply follows_update
        constructor <;> simp [QueueThread.Rechecks, QueueThread.Sleeps, enabled.1]
    · obtain ⟨_, taken⟩ := guard_eq_ok.mp taken
      obtain ⟨state, _, done⟩ := bind_eq_ok.mp taken
      cases done
      apply follows_update
      constructor <;> simp [QueueThread.Rechecks, QueueThread.Sleeps, enabled.1]
    · cases taken
  | dispatch t =>
    obtain ⟨state, _, done⟩ := bind_eq_ok.mp (guard_eq_ok.mp taken).2
    cases done
    apply follows_update
    cases pc : (s.thread t).pc <;>
      constructor <;> simp [QueueThread.Rechecks, QueueThread.Sleeps, pc]
  | _ => cases leaves

end Follows

namespace RwSystem

variable {τ : Type} {waits : WaitQueues τ RwQueue Unit} {t : τ}

theorem linked_of_sleeps {queue : RwQueue}
    (sound : waits.Sound) (status : waits.lock (.object ()) = none)
    (free : waits.queueLock (.object queue) = none)
    (call : (waits.thread t).call = some (.object queue ()))
    (sleeps : (waits.thread t).Sleeps) : t ∈ waits.waiters (.object queue) := by
  have noStatus : ¬ ((waits.thread t).pc = .unsatisfied ∨ (waits.thread t).pc = .bothLocks) := by
    intro place
    exact absurd (status.symm.trans (sound.lock_eq call place)) (by simp)
  have noQueue : (waits.thread t).pc ≠ .queueLock := by
    intro place
    exact absurd (free.symm.trans (sound.queueLock_eq call (.inr place))) (by simp)
  have linked : (waits.thread t).linked = true := by
    simpa [QueueThread.Sleeps, noQueue, not_or.mp noStatus] using sleeps
  exact (sound.mem_waiters _ t).mpr ⟨linked, by rw [call]; rfl⟩

variable [DecidableEq τ]

/-- The thread has called `rwlock_write_lock`, announced itself and not acquired the lock. -/
def announced (thread : QueueThread τ RwQueue Unit) : Bool := decide (thread.call = some writeCall)

theorem announced_iff {thread : QueueThread τ RwQueue Unit} :
    announced thread = true ↔ thread.call = some writeCall := decide_eq_true_iff

theorem enter_object (t : τ) (queue : RwQueue) (sound : waits.Sound) :
    waits.enter t (.object queue ()) = .error .disabled ∨
    ∃ waits', waits.enter t (.object queue ()) = .ok waits' ∧ waits'.Sound ∧
      (waits.thread t).call = none ∧
      waits' = waits.setThread t ⟨.checking, .running, false, some (.object queue ()),
        (waits.thread t).finish⟩ := by
  cases enter_kept t (.object queue ()) sound with
  | inl disabled => exact .inl disabled
  | inr taken =>
    obtain ⟨waits', step, after, _⟩ := taken
    refine .inr ⟨waits', step, after, ?_⟩
    have consistent := sound.consistent t
    simp only [enter] at step
    split at step
    case isFalse => cases step
    case isTrue enabled =>
      cases step
      have unlinked := consistent.unlinked (by simp [enabled.2])
      refine ⟨consistent.call.mpr enabled.1, ?_⟩
      rw [enabled.2, unlinked]

theorem check_object {queue : RwQueue} (answer : Bool) (sound : waits.Sound)
    (call : (waits.thread t).call = some (.object queue ())) :
    waits.check t answer = .error .disabled ∨
    ∃ waits', waits.check t answer = .ok waits' ∧ waits'.Sound ∧
      ∃ value : QueueThread τ RwQueue Unit,
      waits'.thread = (waits.setThread t value).thread ∧ (waits.thread t).linked = false ∧
      value.linked = false ∧
      value.call = if answer then none else some (.object queue ()) := by
  cases check_kept t answer sound with
  | inl disabled => exact .inl disabled
  | inr taken =>
    obtain ⟨waits', step, after, _⟩ := taken
    refine .inr ⟨waits', step, after, ?_⟩
    simp only [WaitQueues.check, call, WaitQueues.isSatisfied] at step
    split at step
    case isFalse => cases step
    case isTrue enabled =>
      have unlinked := (sound.consistent t).unlinked (by simp [enabled.2.1])
      cases answer with
      | true =>
        cases step
        exact ⟨_, rfl, unlinked, unlinked, rfl⟩
      | false =>
        cases step
        exact ⟨_, rfl, unlinked, unlinked, rfl⟩

variable {s : RwSystem τ} {value : QueueThread τ RwQueue Unit}

theorem covered_update (reader : (s.waits.thread t).call ≠ some writeCall)
    (found : ∃ u, announced (s.waits.thread u) = true ∧ (s.waits.thread u).Rechecks) :
    ∃ u, announced ((s.waits.setThread t value).thread u) = true ∧
      ((s.waits.setThread t value).thread u).Rechecks := by
  obtain ⟨u, writer, rechecks⟩ := found
  have apart : u ≠ t := by
    intro same
    rw [same, announced_iff] at writer
    exact reader writer
  exact ⟨u, by simpa [setThread, apart] using ⟨writer, rechecks⟩⟩

theorem sleepers_update {cause : Prop} (others : ∀ u, (s.waits.thread u).call = some readCall →
      (s.waits.thread u).Sleeps → cause)
    (self : value.call = some readCall → value.Sleeps → cause) (u : τ)
    (call : ((s.waits.setThread t value).thread u).call = some readCall)
    (sleeps : ((s.waits.setThread t value).thread u).Sleeps) : cause := by
  by_cases here : u = t
  · rw [here] at call sleeps
    simp only [setThread, update_self] at call sleeps
    exact self call sleeps
  · simp only [setThread, update_of_ne here] at call sleeps
    exact others u call sleeps

variable [Fintype τ]

/-- What the lock promises: one writer and no reader beside it, a count of the announced writers,
and somebody who checks again when the lock is free and a thread sleeps. -/
structure Right (s : RwSystem τ) : Prop where
  oneWriter : s.lock.writeCount ≤ 1
  exclusive : 0 < s.lock.writeCount → s.lock.readCount = 0
  waiting : s.lock.writeWaiting = census s.waits.thread announced
  notStuck : (∀ t, s.readHeld t = 0 ∧ s.writeHeld t = 0) →
    ∀ queue, ∀ t ∈ s.waits.waiters queue,
      ∃ u ≠ t, announced (s.waits.thread u) = true ∧ (s.waits.thread u).Rechecks

/-- The invariant of every reachable state: the counters count the locks held, a free lock with
announced writers has one that rechecks, and a sleeping reader has a cause to sleep. -/
structure Sound (s : RwSystem τ) : Prop where
  waits : s.waits.Sound
  reads : s.lock.readCount = ∑ t, s.readHeld t
  writes : s.lock.writeCount = ∑ t, s.writeHeld t
  exclusive : s.lock.writeCount = 0 ∨ s.lock.writeCount = 1 ∧ s.lock.readCount = 0
  waiting : s.lock.writeWaiting = census s.waits.thread announced
  calls : ∀ t, (s.waits.thread t).call = none ∨ (s.waits.thread t).call = some readCall ∨
    (s.waits.thread t).call = some writeCall
  /-- While the lock is free and writers are announced, one of them rechecks. -/
  covered : s.lock.readCount = 0 → s.lock.writeCount = 0 → 0 < s.lock.writeWaiting →
    ∃ t, announced (s.waits.thread t) = true ∧ (s.waits.thread t).Rechecks
  sleepers : ∀ t, (s.waits.thread t).call = some readCall → (s.waits.thread t).Sleeps →
    s.lock.writeCount ≠ 0 ∨ s.lock.writeWaiting ≠ 0

/-- The invariant gives the promises. -/
theorem Sound.right (sound : s.Sound) : s.Right where
  oneWriter := by
    have exclusive := sound.exclusive
    omega
  exclusive positive := by
    have exclusive := sound.exclusive
    omega
  waiting := sound.waiting
  notStuck free queue t member := by
    have linked := (sound.waits.mem_waiters queue t).mp member
    have reads : s.lock.readCount = 0 := by
      rw [sound.reads, Finset.sum_eq_zero (fun u _ => (free u).1)]
      rfl
    have writes : s.lock.writeCount = 0 := by
      rw [sound.writes, Finset.sum_eq_zero (fun u _ => (free u).2)]
      rfl
    have waiting : 0 < s.lock.writeWaiting := by
      rw [sound.waiting]
      cases sound.calls t with
      | inl none => simp [none] at linked
      | inr some =>
        cases some with
        | inl reads =>
          -- A reader sleeps on a lock that is not written: a writer is announced.
          have cause := sound.sleepers t reads (.inr (.inr (.inr linked.1)))
          rw [sound.waiting] at cause
          have positive : 0 < census s.waits.thread announced := by omega
          exact_mod_cast positive
        | inr writes =>
          have positive := census_pos (announced_iff.mpr writes)
          exact_mod_cast positive
    obtain ⟨u, writer, rechecks⟩ := sound.covered reads writes waiting
    refine ⟨u, ?_, writer, rechecks⟩
    intro same
    rw [same] at rechecks
    exact absurd (linked.1.symm.trans rechecks.2) (by simp)

/-- With fewer than `2^31` read locks held and fewer than `2^31` threads, no counter leaves the
range of a C `int`. -/
theorem Sound.counters_fit (sound : s.Sound) (held : ∑ t, s.readHeld t < 2 ^ 31)
    (threads : Fintype.card τ < 2 ^ 31) :
    (0 ≤ s.lock.readCount ∧ s.lock.readCount < 2 ^ 31) ∧
      (0 ≤ s.lock.writeCount ∧ s.lock.writeCount ≤ 1) ∧
      0 ≤ s.lock.writeWaiting ∧ s.lock.writeWaiting < 2 ^ 31 := by
  have reads := sound.reads
  have exclusive := sound.exclusive
  have waiting := sound.waiting
  have few : census s.waits.thread announced ≤ Fintype.card τ := Finset.card_filter_le _ _
  refine ⟨?_, ?_, ?_⟩ <;> omega

/-- The initial state satisfies the invariant. -/
theorem initial_sound : (initial : RwSystem τ).Sound where
  waits := WaitQueues.initial_sound
  reads := by simp [initial, init]
  writes := by simp [initial, init]
  exclusive := .inl rfl
  waiting := by
    have none : census (initial : RwSystem τ).waits.thread announced = 0 :=
      census_eq_zero (fun t => by simp [initial, WaitQueues.initial, announced])
    rw [none]
    rfl
  calls t := .inl rfl
  covered _ _ waiting := by simp [initial, init] at waiting
  sleepers t call := by simp [initial, WaitQueues.initial] at call

/-- The action is not enabled, or it ends in a sound state. -/
def Kept (result : Except QueueHalt (RwSystem τ)) : Prop :=
  result = .error .disabled ∨ ∃ s', result = .ok s' ∧ s'.Sound

theorem Kept.bind {α : Type} {first : Except QueueHalt α} {gives : α → Prop}
    {rest : α → Except QueueHalt (RwSystem τ)}
    (spec : first = .error .disabled ∨ ∃ a, first = .ok a ∧ gives a)
    (after : ∀ a, first = .ok a → gives a → Kept (rest a)) : Kept (first >>= rest) := by
  rcases spec with disabled | ⟨a, step, given⟩
  · rw [disabled]
    exact .inl rfl
  · rw [step]
    exact after a step given

theorem Sound.of_follows (sound : s.Sound)
    (after : waits.Sound) (follows : ∀ u, (s.waits.thread u).Follows (waits.thread u)) :
    (s.withWaits waits).Sound :=
  { sound with
    waits := after
    waiting := by
      have same : census waits.thread announced = census s.waits.thread announced :=
        census_congr (fun u => by simp only [announced, (follows u).call])
      exact sound.waiting.trans (by rw [← same]; rfl)
    calls t := by
      simp only [withWaits, (follows t).call]
      exact sound.calls t
    covered reads writes waiting := by
      obtain ⟨t, writer, rechecks⟩ := sound.covered reads writes waiting
      refine ⟨t, ?_, (follows t).rechecks rechecks⟩
      rw [announced_iff] at writer ⊢
      exact (follows t).call.trans writer
    sleepers t call sleeps := by
      simp only [withWaits, (follows t).call] at call
      exact sound.sleepers t call ((follows t).sleeps sleeps) }

theorem thread_kept {step : QueueAction τ RwQueue Unit} (sound : s.Sound) :
    Kept (s.apply (.thread step)) := by
  simp only [apply]
  split
  case isFalse => exact .inl rfl
  case isTrue leaves =>
    refine Kept.bind (apply_kept sound.waits step) fun waits step taken => ?_
    obtain ⟨after, _⟩ := taken
    exact .inr ⟨_, rfl, sound.of_follows after (apply_follows leaves step)⟩

theorem sum_grant (shares : τ → Nat) (t : τ) :
    ∑ u, update shares t (shares t + 1) u = ∑ u, shares u + 1 := by
  have total := sum_update_add shares t (shares t + 1)
  omega

section

variable (sound : s.Sound)
include sound

theorem one_writer (free : s.lock.writeCount = 0) :
    (1 : Int) = ∑ u, update s.writeHeld t (s.writeHeld t + 1) u := by
  have writes := sound.writes
  rw [sum_grant]
  omega

theorem calls_update
    (call : value.call = none ∨ value.call = some readCall ∨ value.call = some writeCall) (u : τ) :
    ((s.waits.setThread t value).thread u).call = none ∨
      ((s.waits.setThread t value).thread u).call = some readCall ∨
      ((s.waits.setThread t value).thread u).call = some writeCall := by
  by_cases here : u = t
  · simpa [setThread, here] using call
  · simpa [setThread, here] using sound.calls u

theorem waiting_update (same : announced value = announced (s.waits.thread t)) :
    s.lock.writeWaiting = census (s.waits.setThread t value).thread announced := by
  have equal : census (s.waits.setThread t value).thread announced =
      census s.waits.thread announced := census_update_same same
  rw [equal]
  exact sound.waiting

theorem readLock_kept : Kept (s.apply (.readLock t)) := by
  simp only [apply]
  refine Kept.bind (enter_object t .readers sound.waits) fun waits _ entered => ?_
  obtain ⟨after, outside, rfl⟩ := entered
  exact .inr ⟨_, rfl, { sound with
    waits := after
    waiting := waiting_update sound (by simp [outside, announced, writeCall])
    calls := calls_update sound (.inr (.inl rfl))
    covered := fun reads writes waiting =>
      covered_update (by simp [outside]) (sound.covered reads writes waiting)
    sleepers := sleepers_update sound.sleepers (by simp [QueueThread.Sleeps]) }⟩

theorem writeLock_kept : Kept (s.writeLock t) := by
  rw [writeLock]
  split
  case isFalse => exact .inl rfl
  case isTrue =>
    refine Kept.bind (enter_object t .writers sound.waits) fun waits _ entered => ?_
    obtain ⟨after, outside, rfl⟩ := entered
    have joined : census (s.waits.setThread t ⟨.checking, .running, false,
        some (.object .writers ()), (s.waits.thread t).finish⟩).thread announced =
        census s.waits.thread announced + 1 :=
      census_update_join _ (by simp [announced, outside]) (by simp [announced, writeCall])
    have waiting := sound.waiting
    exact .inr ⟨_, rfl, { sound with
      waits := after
      waiting := by
        simp only [announceWrite, joined, waiting]
        exact (Nat.cast_succ _).symm
      calls := calls_update sound (.inr (.inr rfl))
      covered := fun _ _ _ => ⟨t, by simp [setThread, announced, writeCall],
        by simp [setThread, QueueThread.Rechecks]⟩
      sleepers := fun u call sleeps => by
        right
        simp only [announceWrite, waiting]
        omega }⟩

theorem checkRead_kept (call : (s.waits.thread t).call = some readCall) : Kept (s.check t) := by
  have reader : (s.waits.thread t).call ≠ some writeCall := by simp [call, readCall, writeCall]
  simp only [check, call, readCall]
  split
  case h_1 refused =>
    have cause : s.lock.writeCount ≠ 0 ∨ s.lock.writeWaiting ≠ 0 := by
      simp only [tryRead] at refused
      split at refused
      case isTrue busy => exact busy
      case isFalse => cases refused
    refine Kept.bind (check_object false sound.waits call) fun waits _ checked => ?_
    obtain ⟨after, value, thread, _, _, kept⟩ := checked
    have stays : value.call = some readCall := kept
    exact .inr ⟨_, rfl, { sound with
      waits := after
      waiting := thread ▸ waiting_update sound (by simp only [announced, stays, call])
      calls := thread ▸ calls_update sound (.inr (.inl stays))
      covered := fun reads writes waiting =>
        thread ▸ covered_update reader (sound.covered reads writes waiting)
      sleepers := fun _ _ _ => cause }⟩
  case h_2 lock granted =>
    have free : s.lock.writeCount = 0 ∧ s.lock.writeWaiting = 0 := by
      by_contra busy
      simp [tryRead, show s.lock.writeCount ≠ 0 ∨ s.lock.writeWaiting ≠ 0 by omega]
        at granted
    have taken : lock = { s.lock with readCount := s.lock.readCount + 1 } := by
      simpa [tryRead, free] using granted.symm
    rw [taken]
    refine Kept.bind (check_object true sound.waits call) fun waits _ checked => ?_
    obtain ⟨after, value, thread, _, unlinked, left⟩ := checked
    have gone : value.call = none := left
    have more := sum_grant s.readHeld t
    have reads := sound.reads
    exact .inr ⟨_, rfl, { sound with
      waits := after
      reads := by
        simp only [more]
        omega
      exclusive := .inl free.1
      waiting := thread ▸ waiting_update sound (by simp [announced, gone, reader])
      calls := thread ▸ calls_update sound (.inl gone)
      covered := fun none => by
        simp only at none
        omega
      sleepers := thread ▸ sleepers_update sound.sleepers (by simp [gone]) }⟩

theorem checkWrite_kept (call : (s.waits.thread t).call = some writeCall) : Kept (s.check t) := by
  simp only [check, call, writeCall]
  split
  case h_1 refused =>
    have held : s.lock.readCount ≠ 0 ∨ s.lock.writeCount ≠ 0 := by
      simp only [tryWrite] at refused
      split at refused
      case isTrue busy => exact busy
      case isFalse => cases refused
    refine Kept.bind (check_object false sound.waits call) fun waits _ checked => ?_
    obtain ⟨after, value, thread, _, _, kept⟩ := checked
    have stays : value.call = some writeCall := kept
    exact .inr ⟨_, rfl, { sound with
      waits := after
      waiting := thread ▸ waiting_update sound (by simp only [announced, stays, call])
      calls := thread ▸ calls_update sound (.inr (.inr stays))
      covered := fun reads writes => absurd held (by simp [show s.lock.readCount = 0 from reads,
        show s.lock.writeCount = 0 from writes])
      sleepers := thread ▸ sleepers_update sound.sleepers
        (by simp [stays, readCall, writeCall]) }⟩
  case h_2 lock granted =>
    have free : s.lock.readCount = 0 ∧ s.lock.writeCount = 0 := by
      by_contra busy
      simp [tryWrite, show s.lock.readCount ≠ 0 ∨ s.lock.writeCount ≠ 0 by omega]
        at granted
    have taken : lock = ⟨0, 1, s.lock.writeWaiting - 1⟩ := by
      simpa [tryWrite, free] using granted.symm
    rw [taken]
    refine Kept.bind (check_object true sound.waits call) fun waits _ checked => ?_
    obtain ⟨after, value, thread, _, unlinked, left⟩ := checked
    have gone : value.call = none := left
    have fewer : census (s.waits.setThread t value).thread announced + 1 =
        census s.waits.thread announced :=
      census_update_leave value (announced_iff.mpr call) (by simp [announced, gone])
    have waiting := sound.waiting
    exact .inr ⟨_, rfl, {
      waits := after
      reads := free.1.symm.trans sound.reads
      writes := one_writer sound free.2
      exclusive := .inr ⟨rfl, rfl⟩
      waiting := by
        simp only [thread, waiting]
        omega
      calls := thread ▸ calls_update sound (.inl gone)
      covered := fun _ none => absurd none one_ne_zero
      sleepers := fun _ _ _ => .inl one_ne_zero }⟩

theorem check_kept : Kept (s.check t) := by
  cases sound.calls t with
  | inl outside =>
    simp only [check, outside]
    exact .inl rfl
  | inr inside =>
    cases inside with
    | inl reads => exact checkRead_kept sound reads
    | inr writes => exact checkWrite_kept sound writes

theorem writeTryLock_kept : Kept (s.writeTryLock t) := by
  rw [writeTryLock]
  split
  case isFalse => exact .inl rfl
  case isTrue =>
    split
    case h_1 => exact .inr ⟨s, rfl, sound⟩
    case h_2 lock granted =>
      have free : s.lock.readCount = 0 ∧ s.lock.writeCount = 0 := by
        by_contra busy
        simp [RwLock.writeTryLock, busy] at granted
      have taken : lock = { s.lock with writeCount := 1 } := by
        simpa [RwLock.writeTryLock, free] using granted.symm
      rw [taken]
      exact .inr ⟨_, rfl, { sound with
        writes := one_writer sound free.2
        exclusive := .inr ⟨rfl, free.1⟩
        covered := fun _ none => absurd none one_ne_zero
        sleepers := fun _ _ _ => .inl one_ne_zero }⟩

theorem covered_of_wakeOne (status : s.waits.lock (.object ()) = none)
    (free : s.waits.queueLock (.object .writers) = none) (woken : s.waits.Woken waits)
    (waiting : 0 < s.lock.writeWaiting)
    (found : s.waits.waiters (.object .writers) = [] ∨ ∃ t ∈ s.waits.waiters (.object .writers),
      (waits.thread t).Rechecks) :
    ∃ t, announced (waits.thread t) = true ∧ (waits.thread t).Rechecks := by
  cases found with
  | inl empty =>
    rw [sound.waiting] at waiting
    obtain ⟨t, writer⟩ := exists_of_census_pos (Int.natCast_pos.mp waiting)
    have call := announced_iff.mp writer
    have awake : ¬ (s.waits.thread t).Sleeps := by
      intro sleeps
      have member := linked_of_sleeps sound.waits status free call sleeps
      simp [empty] at member
    have rechecks := (sound.waits.consistent t).rechecks (by simp [call]) awake
    refine ⟨t, ?_, (woken.follows t).rechecks rechecks⟩
    rw [announced_iff, (woken.follows t).call, call]
  | inr one =>
    obtain ⟨t, member, rechecks⟩ := one
    refine ⟨t, ?_, rechecks⟩
    rw [announced_iff, (woken.follows t).call]
    have linked := ((sound.waits.mem_waiters _ t).mp member).2
    cases sound.calls t with
    | inl none => simp [none] at linked
    | inr inside =>
      cases inside with
      | inl reads => simp [reads, readCall, WaitCall.queue] at linked
      | inr writes => exact writes

end

theorem sum_release (shares : τ → Nat) (holds : 0 < shares t) :
    (∑ u, update shares t (shares t - 1) u) + 1 = ∑ u, shares u := by
  have total := sum_update_add shares t (shares t - 1)
  omega

theorem readUnlock_kept (sound : s.Sound) : Kept (s.readUnlock t) := by
  rw [readUnlock]
  split
  case isFalse => exact .inl rfl
  case isTrue enabled =>
    have status := (of_decide_eq_true enabled.1).2.2
    have fewer := sum_release s.readHeld enabled.2
    have reads := sound.reads
    have exclusive := sound.exclusive
    -- The unlock is the same with and without a wakeup, once somebody covers a free lock.
    have unlocked : ∀ waits, s.waits.Woken waits →
        (s.lock.readUnlock.readCount = 0 → 0 < s.lock.writeWaiting →
          ∃ u, announced (waits.thread u) = true ∧ (waits.thread u).Rechecks) →
        (RwSystem.mk s.lock.readUnlock waits
          (update s.readHeld t (s.readHeld t - 1)) s.writeHeld).Sound := by
      intro waits woken covered
      exact { sound.of_follows woken.sound woken.follows with
        reads := by
          simp only [RwLock.readUnlock]
          omega
        exclusive := by
          simp only [RwLock.readUnlock]
          omega
        covered := fun free _ waiting => covered free waiting }
    cases wakes : s.lock.readUnlockWakes with
    | false =>
      refine .inr ⟨_, rfl, unlocked s.waits (.refl sound.waits) ?_⟩
      intro free waiting
      simp only [RwLock.readUnlockWakes, decide_eq_false_iff_not] at wakes
      exact absurd ⟨free, waiting⟩ wakes
    | true =>
      simp only [↓reduceIte]
      refine Kept.bind (wakeOne_spec (.object .writers) sound.waits) fun waits _ one => ?_
      obtain ⟨woken, free, found⟩ := one
      refine .inr ⟨_, rfl, unlocked waits woken ?_⟩
      intro _ waiting
      exact covered_of_wakeOne sound status free woken waiting found

theorem writeUnlock_kept (sound : s.Sound) : Kept (s.writeUnlock t) := by
  rw [writeUnlock]
  split
  case isFalse => exact .inl rfl
  case isTrue enabled =>
    have status := (of_decide_eq_true enabled.1).2.2
    have fewer := sum_release s.writeHeld enabled.2
    have writes := sound.writes
    have exclusive := sound.exclusive
    have unlocked : ∀ waits, s.waits.Woken waits →
        (0 < s.lock.writeWaiting →
          ∃ u, announced (waits.thread u) = true ∧ (waits.thread u).Rechecks) →
        (∀ u, (waits.thread u).call = some readCall → (waits.thread u).Sleeps →
          s.lock.writeWaiting ≠ 0) →
        (RwSystem.mk s.lock.writeUnlock waits s.readHeld
          (update s.writeHeld t (s.writeHeld t - 1))).Sound := by
      intro waits woken covered sleepers
      exact { sound.of_follows woken.sound woken.follows with
        writes := by
          simp only [RwLock.writeUnlock]
          omega
        exclusive := by
          simp only [RwLock.writeUnlock]
          omega
        covered := fun _ _ waiting => covered waiting
        sleepers := fun u call sleeps => .inr (sleepers u call sleeps) }
    cases wakes : s.lock.writeUnlockWakesWriter with
    | true =>
      have waiting : 0 < s.lock.writeWaiting := of_decide_eq_true wakes
      simp only [↓reduceIte]
      refine Kept.bind (wakeOne_spec (.object .writers) sound.waits) fun waits _ one => ?_
      obtain ⟨woken, free, found⟩ := one
      refine .inr ⟨_, rfl, unlocked waits woken ?_ ?_⟩
      · intro _
        exact covered_of_wakeOne sound status free woken waiting found
      · intro u _ _
        omega
    | false =>
      have nobody := of_decide_eq_false wakes
      simp only [Bool.false_eq_true, ↓reduceIte]
      refine Kept.bind (wakeAll_spec (.object .readers) sound.waits) fun waits _ all => ?_
      obtain ⟨woken, free, empty⟩ := all
      refine .inr ⟨_, rfl, unlocked waits woken ?_ ?_⟩
      · intro waiting
        exact absurd waiting nobody
      · intro u call sleeps
        -- All readers were linked, and the queue is empty now.
        have linked := linked_of_sleeps woken.sound (woken.lock ▸ status)
          (woken.queueLock ▸ free) call sleeps
        simp [empty] at linked

/-- Every action keeps the invariant, or is not enabled. -/
theorem apply_kept (sound : s.Sound) (action : RwAction τ) : Kept (s.apply action) := by
  cases action with
  | thread step => exact thread_kept sound
  | readLock t => exact readLock_kept sound
  | writeLock t => exact writeLock_kept sound
  | check t => exact check_kept sound
  | writeTryLock t => exact writeTryLock_kept sound
  | readUnlock t => exact readUnlock_kept sound
  | writeUnlock t => exact writeUnlock_kept sound

/-- The lock is right at every moment of the steps, and no step ends in a panic. A step that is not
enabled is not taken. -/
def AlwaysRight : List (RwAction τ) → RwSystem τ → Prop
  | [], s => s.Right
  | action :: rest, s => s.Right ∧
    match s.apply action with
    | .ok after => AlwaysRight rest after
    | .error .disabled => AlwaysRight rest s
    | .error _ => False

/-- From a sound state every run of actions is right throughout. -/
theorem alwaysRight_of_sound (actions : List (RwAction τ)) (sound : s.Sound) :
    AlwaysRight actions s := by
  induction actions generalizing s with
  | nil => exact sound.right
  | cons action rest ih =>
    refine ⟨sound.right, ?_⟩
    cases apply_kept sound action with
    | inl disabled =>
      rw [disabled]
      exact ih sound
    | inr taken =>
      obtain ⟨s', step, after⟩ := taken
      rw [step]
      exact ih after

/-- With any number of threads that lock, try and unlock, after any steps in any order: there is one
writer at most and no reader beside it, `write_waiting` counts the announced writers, and when
nobody holds the lock and a thread is linked, another, announced thread checks again. -/
theorem rwlock_right (actions : List (RwAction τ)) : AlwaysRight actions initial :=
  alwaysRight_of_sound actions initial_sound

end RwSystem

end Horizon.Threads
