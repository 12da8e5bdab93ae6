import Horizon.Kernel.Thread

/-!
# Completions

`completion.rs` over `wait_queue.rs`, in steps of one critical section. A waiting thread keeps the
lock of the count until it has the lock of the queue, so it is followed from lock to lock. `τ` are
the threads that wait and `κ` the callers of `complete`.
-/

namespace Horizon.Threads

/-- Where a thread is in `WaitQueue::wait`. -/
inductive WaitPc
  | outside
  | checking
  | unsatisfied
  | bothLocks
  /-- With the queue lock, after `drop(condition_guard)`. -/
  | queueLock
  /-- Between the two sections of the queue lock. -/
  | committing
  /-- In `switch_blocked`. -/
  | switching
  deriving DecidableEq

/-- A thread that may wait for the completion. -/
structure WaitThread where
  pc : WaitPc
  state : ThreadState
  /-- A waker removed its waiter, and it has not checked the condition since. -/
  removed : Bool
  deriving DecidableEq

/-- Where a caller is in `Completion::complete`. -/
inductive CompletePc
  | outside
  /-- The count is raised, `wake_one` is to come. -/
  | raised
  deriving DecidableEq

/-- A completion with its threads and callers; each lock names the thread that holds it. -/
structure Completion (τ κ : Type) where
  /-- `state`, the count. -/
  count : Nat
  conditionLock : Option τ
  queueLock : Option τ
  waiters : List τ
  thread : τ → WaitThread
  caller : κ → CompletePc
  returned : Nat
  /-- Calls of `complete` that raised the count. -/
  increments : Nat

/-- Why an action does not happen. -/
inductive Halt
  /-- It is not the next one of its thread, or a lock is taken. -/
  | disabled
  | panic (reason : ThreadPanic)
  deriving DecidableEq

/-- A transition of a thread state inside a step. -/
def liftPanic {α : Type} : Except ThreadPanic α → Except Halt α
  | .ok value => .ok value
  | .error reason => .error (.panic reason)

/-- The actions of waiting threads and of the callers that complete. -/
inductive Action (τ κ : Type)
  | enter (t : τ)
  /-- It takes the condition lock and looks at the count. -/
  | check (t : τ)
  | lockQueue (t : τ)
  | dropCondition (t : τ)
  /-- It becomes `Blocking` and links its waiter. -/
  | enqueue (t : τ)
  | commit (t : τ)
  | preempt (t : τ)
  | makeReady (t : τ)
  | dispatch (t : τ)
  /-- A caller of `complete` raises the count. -/
  | complete (k : κ)
  | wakeOne (k : κ)

namespace Completion

variable {τ κ : Type} [DecidableEq τ] [DecidableEq κ]

def maxCount : Nat := 2 ^ 64 - 1

/-- `Completion::new` with all threads running elsewhere. -/
def initial : Completion τ κ where
  count := 0
  conditionLock := none
  queueLock := none
  waiters := []
  thread := fun _ => ⟨.outside, .running, false⟩
  caller := fun _ => .outside
  returned := 0
  increments := 0

variable (s : Completion τ κ)

def setThread (t : τ) (value : WaitThread) : Completion τ κ :=
  { s with thread := Function.update s.thread t value }

def setCaller (k : κ) (value : CompletePc) : Completion τ κ :=
  { s with caller := Function.update s.caller k value }

/-- The head of the loop of `wait`, with the decrement of `Completion::wait` when the count is not
zero; the guard is held up to the decrement. -/
def check (t : τ) : Except Halt (Completion τ κ) :=
  if (s.thread t).pc = .checking ∧ (s.thread t).state = .running ∧ s.conditionLock = none then
    if s.count ≠ 0 then
      .ok { s.setThread t ⟨.outside, .running, false⟩ with
        count := s.count - 1, returned := s.returned + 1 }
    else
      .ok { s.setThread t ⟨.unsatisfied, .running, false⟩ with conditionLock := some t }
  else .error .disabled

/-- The first section of the queue lock in `wait`, after the condition lock is dropped. -/
def enqueue (t : τ) : Except Halt (Completion τ κ) :=
  if (s.thread t).pc = .queueLock then
    if t ∈ s.waiters then .error (.panic .alreadyLinked)
    else do
      let state ← liftPanic ((s.thread t).state.transitionTo .blocking)
      return { s.setThread t { s.thread t with pc := .committing, state := state } with
        queueLock := none, waiters := s.waiters ++ [t] }
  else .error .disabled

/-- The second section of the queue lock in `wait`. -/
def commit (t : τ) : Except Halt (Completion τ κ) :=
  if (s.thread t).pc = .committing ∧ s.queueLock = none then
    match (s.thread t).state with
    | .running =>
      if t ∈ s.waiters then .error (.panic .stillLinked)
      else .ok (s.setThread t { s.thread t with pc := .checking })
    | .blocking =>
      if t ∈ s.waiters then do
        let state ← liftPanic (ThreadState.transitionTo .blocking .blocked)
        return s.setThread t { s.thread t with pc := .switching, state := state }
      else .error (.panic .missingWaiter)
    | state => .error (.panic (.invalidCommit state))
  else .error .disabled

/-- `wake_one`, one section of the queue lock, with `wake_first`. -/
def wakeOne (k : κ) : Except Halt (Completion τ κ) :=
  if s.caller k = .raised ∧ s.queueLock = none then
    match s.waiters with
    | [] => .ok (s.setCaller k .outside)
    | t :: rest => do
      let state ← liftPanic (s.thread t).state.wake
      return { (s.setThread t { s.thread t with state := state, removed := true }).setCaller k
        .outside with waiters := rest }
  else .error .disabled

/-- A step of a thread or a caller. -/
def apply : Action τ κ → Except Halt (Completion τ κ)
  | .enter t =>
    if (s.thread t).pc = .outside ∧ (s.thread t).state = .running then
      .ok (s.setThread t ⟨.checking, .running, false⟩)
    else .error .disabled
  | .check t => s.check t
  | .lockQueue t =>
    if (s.thread t).pc = .unsatisfied ∧ s.queueLock = none then
      .ok { s.setThread t { s.thread t with pc := .bothLocks } with queueLock := some t }
    else .error .disabled
  | .dropCondition t =>
    if (s.thread t).pc = .bothLocks then
      .ok { s.setThread t { s.thread t with pc := .queueLock } with conditionLock := none }
    else .error .disabled
  | .enqueue t => s.enqueue t
  | .commit t => s.commit t
  -- From the condition lock to the switch, interrupts or preemption are off.
  | .preempt t =>
    if ((s.thread t).pc = .outside ∨ (s.thread t).pc = .checking) ∧
        (s.thread t).state = .running then
      .ok (s.setThread t { s.thread t with state := .ready })
    else .error .disabled
  | .makeReady t =>
    if (s.thread t).pc = .switching ∧ (s.thread t).state = .waking then
      .ok (s.setThread t { s.thread t with state := .ready })
    else .error .disabled
  | .dispatch t =>
    if (s.thread t).state = .ready then
      .ok (s.setThread t { s.thread t with
        pc := if (s.thread t).pc = .switching then .checking else (s.thread t).pc
        state := .running })
    else .error .disabled
  | .complete k =>
    if s.caller k = .outside ∧ s.conditionLock = none then
      .ok { s.setCaller k .raised with
        count := min (s.count + 1) maxCount
        increments := if s.count < maxCount then s.increments + 1 else s.increments }
    else .error .disabled
  | .wakeOne k => s.wakeOne k

end Completion

end Horizon.Threads
