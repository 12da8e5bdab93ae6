import Horizon.Kernel.Completion

/-!
# Wait queues, `join` and `finish`

`wait_queue.rs` and the joining part of `thread/core/thread.rs`, for any threads and queues, in
steps of one critical section. `κ` are the wait queues of the kernel's objects and `ι` the locks of
the conditions waited for there; every thread has one more queue, `join_waiters`, whose condition is
protected by the thread's `inner`. A waiting thread keeps the condition lock until it has the queue
lock, so it is followed from lock to lock. The idle threads, which never wait and are never joined,
are left out.
-/

namespace Horizon.Threads

/-- What a thread waits for. -/
inductive WaitCall (τ κ ι : Type)
  /-- A condition of an object: the queue and the lock given to `WaitQueue::wait`. -/
  | object (queue : κ) (lock : ι)
  /-- The end of a thread, in `Thread::join`. -/
  | join (target : τ)
  deriving DecidableEq

/-- The queues of objects, and those of the threads that join a thread. -/
inductive QueueId (τ κ : Type)
  | object (queue : κ)
  | joiners (target : τ)
  deriving DecidableEq

/-- The locks that conditions are read under. -/
inductive LockId (τ ι : Type)
  | object (lock : ι)
  /-- `inner` of a thread. -/
  | inner (target : τ)
  deriving DecidableEq

/-- The queue a call waits on. -/
def WaitCall.queue {τ κ ι : Type} : WaitCall τ κ ι → QueueId τ κ
  | .object queue _ => .object queue
  | .join target => .joiners target

/-- `condition_lock`. -/
def WaitCall.lock {τ κ ι : Type} : WaitCall τ κ ι → LockId τ ι
  | .object _ lock => .object lock
  | .join target => .inner target

/-- Where a thread is in `Thread::finish`. -/
inductive FinishPc
  | alive
  /-- The state is `Dead`, `wake_all` is to come. -/
  | dead
  | completed
  deriving DecidableEq

/-- A thread: where it is in `wait` and in `finish`, and whether its waiter is linked. -/
structure QueueThread (τ κ ι : Type) where
  pc : WaitPc
  state : ThreadState
  linked : Bool
  call : Option (WaitCall τ κ ι)
  finish : FinishPc
  deriving DecidableEq

/-- Threads, queues and locks; each lock names the thread that holds it. -/
structure WaitQueues (τ κ ι : Type) where
  lock : LockId τ ι → Option τ
  queueLock : QueueId τ κ → Option τ
  waiters : QueueId τ κ → List τ
  thread : τ → QueueThread τ κ ι

/-- Why an action does not happen. -/
inductive QueueHalt
  /-- It is not the next one of its thread, or a lock is taken. -/
  | disabled
  | panic (reason : ThreadPanic)
  | unlinkedRemoved
  deriving DecidableEq

/-- The actions of the threads. -/
inductive QueueAction (τ κ ι : Type)
  | register (t : τ)
  /-- A registered thread enters a ready queue. -/
  | start (t : τ)
  | enter (t : τ) (call : WaitCall τ κ ι)
  /-- It takes the condition lock and looks at the condition; for an object the answer is free. -/
  | check (t : τ) (satisfied : Bool)
  | lockQueue (t : τ)
  | dropCondition (t : τ)
  /-- It becomes `Blocking` and links its waiter. -/
  | enqueue (t : τ)
  /-- It commits the wait, or finds that it was woken. -/
  | commit (t : τ)
  | preempt (t : τ)
  | makeReady (t : τ)
  | dispatch (t : τ)
  | wakeOne (queue : QueueId τ κ)
  | wakeAll (queue : QueueId τ κ)
  /-- A thread that ends publishes `Dead`, first half of `finish`. -/
  | markDead (t : τ)
  /-- It wakes its joiners, second half of `finish`. -/
  | finishWake (t : τ)

namespace WaitQueues

variable {τ κ ι : Type} [DecidableEq τ] [DecidableEq κ] [DecidableEq ι]

/-- Every thread is new and no lock is held. -/
def initial : WaitQueues τ κ ι where
  lock := fun _ => none
  queueLock := fun _ => none
  waiters := fun _ => []
  thread := fun _ => ⟨.outside, .new, false, none, .alive⟩

variable (s : WaitQueues τ κ ι) (t : τ)

def setThread (value : QueueThread τ κ ι) : WaitQueues τ κ ι :=
  { s with thread := Function.update s.thread t value }

def setLock (lock : LockId τ ι) (owner : Option τ) : WaitQueues τ κ ι :=
  { s with lock := Function.update s.lock lock owner }

variable (queue : QueueId τ κ)

def setQueueLock (owner : Option τ) : WaitQueues τ κ ι :=
  { s with queueLock := Function.update s.queueLock queue owner }

def setWaiters (waiters : List τ) : WaitQueues τ κ ι :=
  { s with waiters := Function.update s.waiters queue waiters }

/-- `Thread::transition_to` inside a step: the new state, or the panic of `expect`. It waits for
`inner`, which a joiner may have. -/
def transitionTo (s : WaitQueues τ κ ι) (t : τ) (next : ThreadState) :
    Except QueueHalt ThreadState :=
  if s.lock (.inner t) = none then
    match (s.thread t).state.transitionTo next with
    | .ok state => .ok state
    | .error reason => .error (.panic reason)
  else .error .disabled

/-- A change of a thread's state and nothing else. -/
def move (next : ThreadState) : Except QueueHalt (WaitQueues τ κ ι) := do
  let state ← s.transitionTo t next
  return s.setThread t { s.thread t with state := state }

/-- `Thread::join` up to `wait`, or the call of `wait` itself. A dead thread is not waited for. -/
def enter (call : WaitCall τ κ ι) : Except QueueHalt (WaitQueues τ κ ι) :=
  if (s.thread t).pc = .outside ∧ (s.thread t).state = .running then
    match call with
    | .object _ _ => .ok (s.setThread t { s.thread t with pc := .checking, call := some call })
    | .join target =>
      if target = t ∨ s.lock (.inner target) ≠ none then .error .disabled
      else if (s.thread target).state = .dead then .ok s
      else .ok (s.setThread t { s.thread t with pc := .checking, call := some call })
  else .error .disabled

/-- `is_satisfied`: `JoinCondition` looks at the state of the thread. -/
def isSatisfied (satisfied : Bool) : WaitCall τ κ ι → Bool
  | .object _ _ => satisfied
  | .join target => decide ((s.thread target).state = .dead)

/-- The head of the loop of `wait`. -/
def check (satisfied : Bool) : Except QueueHalt (WaitQueues τ κ ι) :=
  match (s.thread t).call with
  | none => .error .disabled
  | some call =>
    if (s.thread t).pc = .checking ∧ (s.thread t).state = .running ∧ s.lock call.lock = none then
      if s.isSatisfied satisfied call then
        .ok (s.setThread t { s.thread t with pc := .outside, call := none })
      else
        .ok ((s.setThread t { s.thread t with pc := .unsatisfied }).setLock call.lock (some t))
    else .error .disabled

/-- `self.waiters().lock_pinned()` with the condition lock still held. -/
def lockQueue : Except QueueHalt (WaitQueues τ κ ι) :=
  match (s.thread t).call with
  | none => .error .disabled
  | some call =>
    if (s.thread t).pc = .unsatisfied ∧ s.queueLock call.queue = none then
      .ok ((s.setThread t { s.thread t with pc := .bothLocks }).setQueueLock call.queue (some t))
    else .error .disabled

/-- `drop(condition_guard)`. -/
def dropCondition : Except QueueHalt (WaitQueues τ κ ι) :=
  match (s.thread t).call with
  | none => .error .disabled
  | some call =>
    if (s.thread t).pc = .bothLocks then
      .ok ((s.setThread t { s.thread t with pc := .queueLock }).setLock call.lock none)
    else .error .disabled

/-- The rest of the first section of the queue lock in `wait`. -/
def enqueue : Except QueueHalt (WaitQueues τ κ ι) :=
  match (s.thread t).call with
  | none => .error .disabled
  | some call =>
    if (s.thread t).pc = .queueLock then
      if (s.thread t).linked then .error (.panic .alreadyLinked)
      else do
        let state ← s.transitionTo t .blocking
        return ((s.setThread t { s.thread t with
          pc := .committing, state := state, linked := true }).setQueueLock call.queue
            none).setWaiters call.queue (s.waiters call.queue ++ [t])
    else .error .disabled

/-- The second section of the queue lock in `wait`. -/
def commit : Except QueueHalt (WaitQueues τ κ ι) :=
  match (s.thread t).call with
  | none => .error .disabled
  | some call =>
    if (s.thread t).pc = .committing ∧ s.queueLock call.queue = none ∧
        s.lock (.inner t) = none then
      match (s.thread t).state with
      | .running =>
        if (s.thread t).linked then .error (.panic .stillLinked)
        else .ok (s.setThread t { s.thread t with pc := .checking })
      | .blocking =>
        if (s.thread t).linked then do
          let state ← s.transitionTo t .blocked
          return s.setThread t { s.thread t with pc := .switching, state := state }
        else .error (.panic .missingWaiter)
      | state => .error (.panic (.invalidCommit state))
    else .error .disabled

/-- `WaitQueueInner::wake_first`: nothing if the queue is empty. -/
def wakeFirst : Except QueueHalt (Option (WaitQueues τ κ ι)) :=
  match s.waiters queue with
  | [] => .ok none
  | t :: rest =>
    if s.lock (.inner t) ≠ none then .error .disabled
    else
      match (s.thread t).state.wake with
      | .error reason => .error (.panic reason)
      | .ok state =>
        if (s.thread t).linked then
          .ok (some ((s.setThread t { s.thread t with
            state := state, linked := false }).setWaiters queue rest))
        else .error .unlinkedRemoved

/-- `WaitQueue::wake_one`. -/
def wakeOne : Except QueueHalt (WaitQueues τ κ ι) :=
  if s.queueLock queue = none then do
    let woken ← s.wakeFirst queue
    return woken.getD s
  else .error .disabled

/-- The loop of `wake_all`, for as many rounds as the queue needs. -/
def wakeLoop (queue : QueueId τ κ) : Nat → WaitQueues τ κ ι → Except QueueHalt (WaitQueues τ κ ι)
  | 0, s => .ok s
  | rounds + 1, s =>
    match s.wakeFirst queue with
    | .error halt => .error halt
    | .ok none => .ok s
    | .ok (some s') => wakeLoop queue rounds s'

/-- `WaitQueue::wake_all`. -/
def wakeAll : Except QueueHalt (WaitQueues τ κ ι) :=
  if s.queueLock queue = none then wakeLoop queue ((s.waiters queue).length + 1) s
  else .error .disabled

/-- The first half of `finish`, by the running thread itself. -/
def markDead : Except QueueHalt (WaitQueues τ κ ι) :=
  if (s.thread t).pc = .outside ∧ (s.thread t).state = .running then do
    let state ← s.transitionTo t .dead
    return s.setThread t { s.thread t with state := state, finish := .dead }
  else .error .disabled

/-- The second half of `finish`. -/
def finishWake : Except QueueHalt (WaitQueues τ κ ι) :=
  if (s.thread t).finish = .dead then do
    let woken ← s.wakeAll (.joiners t)
    return woken.setThread t { woken.thread t with finish := .completed }
  else .error .disabled

/-- One action. -/
def apply : QueueAction τ κ ι → Except QueueHalt (WaitQueues τ κ ι)
  | .register t => if (s.thread t).state = .new then s.move t .registered else .error .disabled
  | .start t => if (s.thread t).state = .registered then s.move t .ready else .error .disabled
  | .enter t call => s.enter t call
  | .check t satisfied => s.check t satisfied
  | .lockQueue t => s.lockQueue t
  | .dropCondition t => s.dropCondition t
  | .enqueue t => s.enqueue t
  | .commit t => s.commit t
  -- From the condition lock to the switch, interrupts or preemption are off.
  | .preempt t =>
    if ((s.thread t).pc = .outside ∨ (s.thread t).pc = .checking) ∧
        (s.thread t).state = .running then s.move t .ready
    else .error .disabled
  | .makeReady t =>
    if (s.thread t).pc = .switching ∧ (s.thread t).state = .waking then s.move t .ready
    else .error .disabled
  | .dispatch t =>
    if (s.thread t).state = .ready then do
      let state ← s.transitionTo t .running
      return s.setThread t { s.thread t with
        pc := if (s.thread t).pc = .switching then .checking else (s.thread t).pc
        state := state }
    else .error .disabled
  | .wakeOne queue => s.wakeOne queue
  | .wakeAll queue => s.wakeAll queue
  | .markDead t => s.markDead t
  | .finishWake t => s.finishWake t

end WaitQueues

end Horizon.Threads
