import Mathlib

/-!
# Thread states

`thread/core`: the states of a thread and the transitions `ThreadInner::transition_to` allows, and
what `WaitQueueInner::wake_first` does to the state of a waiting thread.
-/

namespace Horizon.Threads

/-- The states of a thread. -/
inductive ThreadState
  | new
  | registered
  | idle
  | ready
  | running
  | blocking
  | blocked
  | waking
  | dead
  deriving DecidableEq

/-- The assertions and expectations of the thread code. -/
inductive ThreadPanic
  /-- `expect` on `ThreadError::InvalidTransition`. -/
  | invalidTransition (before after : ThreadState)
  /-- "thread is already in a WaitQueue", "Waiter added to two queues". -/
  | alreadyLinked
  | stillLinked
  | missingWaiter
  /-- "invalid current state while committing wait". -/
  | invalidCommit (state : ThreadState)
  | notWaiting (state : ThreadState)
  | idleWaits
  /-- "current thread must not be in the ready queue", "previous context switch has not been
  finished", "pending_exit must be empty before exit_self". -/
  | badSwitch
  /-- `assert_eq!(exited.state(), ThreadState::Dead)`. -/
  | exitedNotDead
  deriving DecidableEq

/-- `ThreadInner::transition_to`, unwrapped by its callers. -/
def ThreadState.transitionTo : ThreadState → ThreadState → Except ThreadPanic ThreadState
  | .new, .registered => .ok .registered
  | .registered, .ready => .ok .ready
  | .registered, .idle => .ok .idle
  | .ready, .running => .ok .running
  | .idle, .running => .ok .running
  | .running, .ready => .ok .ready
  | .running, .idle => .ok .idle
  | .running, .blocking => .ok .blocking
  | .running, .running => .ok .running
  | .blocking, .blocked => .ok .blocked
  | .blocking, .running => .ok .running
  | .blocked, .waking => .ok .waking
  | .waking, .ready => .ok .ready
  | .running, .dead => .ok .dead
  | before, after => .error (.invalidTransition before after)

/-- The state `wake_first` gives to the thread whose waiter it removes. -/
def ThreadState.wake : ThreadState → Except ThreadPanic ThreadState
  | .blocking => transitionTo .blocking .running
  | .blocked => transitionTo .blocked .waking
  | state => .error (.notWaiting state)

end Horizon.Threads
