import Horizon.Kernel.Completion

/-!
# Scheduling on several CPUs

`scheduler.rs` with the parts of `wait_queue.rs` that put threads to sleep and wake them, in steps
of one critical section or one access to `on_cpu`. `ρ` are the CPUs, `τ` the threads and `ω` the
wait queues. A CPU in the middle of `wake_first` does nothing else: the waker runs with interrupts
off. The time slice, the request to reschedule, which only asks for a `schedule` that may happen at
any time here, and the reference counts are left out.
-/

namespace Horizon.Threads

open Function

/-- Why a CPU leaves its current thread. -/
inductive Leave
  /-- `switch_blocked`. -/
  | block
  /-- `schedule`. -/
  | yield
  | exit
  deriving DecidableEq

/-- Where a CPU is in the code of the scheduler. -/
inductive CpuPc (τ ω : Type)
  | running
  /-- In `wait` on a queue, linked and not yet committed. -/
  | waiting (queue : ω)
  /-- The current thread is blocked or dead, `get_next` is to come. -/
  | leaving (reason : Leave)
  /-- `get_next` gave the thread. -/
  | picked (reason : Leave) (next : τ)
  /-- In `schedule`, with the current thread handed back. -/
  | parked (next : τ)
  /-- The next thread is `Running`. -/
  | committed (reason : Leave) (next : τ)
  /-- On the stack of the next thread, in `finish_switch`. -/
  | switched
  /-- `on_cpu` of the new thread is stored again. -/
  | claimed
  /-- `on_cpu` of the previous thread is cleared. -/
  | released (previous : τ)
  | finishing
  deriving DecidableEq

/-- Where a CPU is in `wake_first`, with the queue whose lock it has. -/
inductive WakePc (τ ω : Type)
  /-- The thread is `Waking`, `on_cpu` is to be read. -/
  | woken (queue : ω) (thread : τ)
  /-- `on_cpu` was read as false. -/
  | offCpu (queue : ω) (thread : τ)
  deriving DecidableEq

/-- `Thread`, as far as the scheduler reads it. -/
structure Thread where
  state : ThreadState
  onCpu : Bool
  deriving DecidableEq

/-- `Scheduler`, the one of a CPU, and where the CPU is. -/
structure Cpu (τ ω : Type) where
  ready : List τ
  current : τ
  previous : Option τ
  idle : τ
  pendingExit : Option τ
  pc : CpuPc τ ω
  wake : Option (WakePc τ ω)

/-- CPUs, threads, and the wait queues with their locks. -/
structure Machine (ρ τ ω : Type) where
  cpu : ρ → Cpu τ ω
  thread : τ → Thread
  waiters : ω → List τ
  lock : ω → Option ρ

/-- The moves of a CPU. -/
inductive Move (τ ω : Type)
  | start (t : τ)
  /-- `wait`, up to the end of its first section of the queue lock. -/
  | beginWait (q : ω)
  | commitWait
  /-- `finish` of the current thread, up to the wakeup of its joiners. -/
  | beginExit
  | pickNext
  /-- `schedule` hands the current thread back. -/
  | park
  /-- `transition_to(Running)` of the next thread. -/
  | commitNext
  | prepare
  /-- `finish_switch` stores `on_cpu` of the new thread. -/
  | claim
  /-- `finish_switch` clears `on_cpu` of the previous thread. -/
  | release
  /-- `finish_switch` tries to enqueue the previous thread. -/
  | enqueuePrevious
  | finish
  /-- `wake_first`, up to the state of the thread. -/
  | wake (q : ω)
  | load
  /-- `wake_first` tries to enqueue the thread. -/
  | enqueueWoken
  deriving DecidableEq

namespace Machine

variable {ρ τ ω : Type} [DecidableEq ρ] [DecidableEq τ] [DecidableEq ω] (s : Machine ρ τ ω) (c : ρ)

def setCpu (value : Cpu τ ω) : Machine ρ τ ω :=
  { s with cpu := update s.cpu c value }

def setState (t : τ) (state : ThreadState) : Machine ρ τ ω :=
  { s with thread := update s.thread t ⟨state, (s.thread t).onCpu⟩ }

/-- The machine with `on_cpu` of a thread changed. -/
def setOnCpu (t : τ) (onCpu : Bool) : Machine ρ τ ω :=
  { s with thread := update s.thread t ⟨(s.thread t).state, onCpu⟩ }

def goto (pc : CpuPc τ ω) : Machine ρ τ ω :=
  s.setCpu c { s.cpu c with pc := pc }

/-- `ReadyQueue::enqueue`, on the queue of a CPU. -/
def enqueue (t : τ) : Except Halt (Machine ρ τ ω) := do
  let state ← liftPanic ((s.thread t).state.transitionTo .ready)
  return (s.setState t state).setCpu c { s.cpu c with ready := (s.cpu c).ready ++ [t] }

/-- `try_enqueue_woken`: only a thread that is still `Waking` is linked. -/
def tryEnqueueWoken (t : τ) : Machine ρ τ ω :=
  if (s.thread t).state = .waking then
    (s.setState t .ready).setCpu c { s.cpu c with ready := (s.cpu c).ready ++ [t] }
  else s

/-- `beginWait`; the idle thread must not wait. The assertions that the waiter of the running thread
is not linked are left out. -/
def beginWait (q : ω) : Except Halt (Machine ρ τ ω) :=
  if s.lock q ≠ none then .error .disabled
  else if (s.cpu c).current = (s.cpu c).idle then .error (.panic .idleWaits)
  else do
    let t := (s.cpu c).current
    let state ← liftPanic ((s.thread t).state.transitionTo .blocking)
    let s := { s.setState t state with
      waiters := update s.waiters q (s.waiters q ++ [t]) }
    return s.goto c (.waiting q)

/-- The second section of the queue lock in `wait`. -/
def commitWait (q : ω) : Except Halt (Machine ρ τ ω) :=
  if s.lock q ≠ none then .error .disabled
  else
    let t := (s.cpu c).current
    match (s.thread t).state with
    | .running =>
      if t ∈ s.waiters q then .error (.panic .stillLinked) else .ok (s.goto c .running)
    | .blocking =>
      if t ∈ s.waiters q then .ok ((s.setState t .blocked).goto c (.leaving .block))
      else .error (.panic .missingWaiter)
    | state => .error (.panic (.invalidCommit state))

/-- `get_next().unwrap_or(idle)`, and the early return of `schedule` on the idle thread. -/
def pickNext (reason : Leave) : Except Halt (Machine ρ τ ω) :=
  match (s.cpu c).ready with
  | next :: rest =>
    if next = (s.cpu c).current then .error (.panic .badSwitch)
    else .ok (s.setCpu c { s.cpu c with ready := rest, pc := .picked reason next })
  | [] =>
    if reason = .yield ∧ (s.cpu c).current = (s.cpu c).idle then .ok s
    else .ok (s.goto c (.picked reason (s.cpu c).idle))

/-- `schedule` between `get_next` and the commit of the next thread. -/
def park (next : τ) : Except Halt (Machine ρ τ ω) := do
  let current := (s.cpu c).current
  if current = (s.cpu c).idle then
    let state ← liftPanic ((s.thread current).state.transitionTo .idle)
    return (s.setState current state).goto c (.parked next)
  else
    let s ← s.enqueue c current
    return s.goto c (.parked next)

def commitNext (reason : Leave) (next : τ) : Except Halt (Machine ρ τ ω) := do
  let state ← liftPanic ((s.thread next).state.transitionTo .running)
  return (s.setState next state).goto c (.committed reason next)

/-- `prepare_switch`, with `pending_exit` of a thread that exits. -/
def prepare (reason : Leave) (next : τ) : Except Halt (Machine ρ τ ω) :=
  let cpu := s.cpu c
  if cpu.current = next ∨ cpu.previous ≠ none ∨ (reason = .exit ∧ cpu.pendingExit ≠ none) then
    .error (.panic .badSwitch)
  else
    .ok ((s.setOnCpu next true).setCpu c { cpu with
      previous := some cpu.current
      current := next
      pendingExit := if reason = .exit then some cpu.current else cpu.pendingExit
      pc := .switched })

/-- `finish_switch` takes `previous` and clears its `on_cpu`. -/
def release : Machine ρ τ ω :=
  match (s.cpu c).previous with
  | some t => (s.setOnCpu t false).setCpu c { s.cpu c with previous := none, pc := .released t }
  | none => s.goto c .finishing

/-- The end of `finish_switch`. -/
def finish : Except Halt (Machine ρ τ ω) :=
  match (s.cpu c).pendingExit with
  | some t =>
    if (s.thread t).state = .dead then
      .ok (s.setCpu c { s.cpu c with pendingExit := none, pc := .running })
    else .error (.panic .exitedNotDead)
  | none => .ok (s.goto c .running)

/-- Interrupts are on, or the joiners of a thread that exits are woken. -/
def canWake : CpuPc τ ω → Bool
  | .running | .picked .yield _ | .parked _ | .committed .yield _ | .leaving .exit => true
  | _ => false

/-- `wake_first` up to the state of the thread; the lock stays taken if `on_cpu` is to be read. -/
def wake (s : Machine ρ τ ω) (c : ρ) (q : ω) : Except Halt (Machine ρ τ ω) :=
  if s.lock q ≠ none ∨ canWake (s.cpu c).pc = false then .error .disabled
  else
    match s.waiters q with
    | [] => .ok s
    | t :: rest => do
      let state ← liftPanic (s.thread t).state.wake
      let s := { s.setState t state with waiters := update s.waiters q rest }
      if state = .waking then
        return { s.setCpu c { s.cpu c with wake := some (.woken q t) } with
          lock := update s.lock q (some c) }
      else return s

/-- `wake_first` ends and gives its lock back. -/
def endWake (q : ω) : Machine ρ τ ω :=
  { s.setCpu c { s.cpu c with wake := none } with lock := update s.lock q none }

/-- A step of a CPU that is not in `wake_first`. -/
def applyPc : CpuPc τ ω → Move τ ω → Except Halt (Machine ρ τ ω)
  | .running, .start t => if (s.thread t).state = .registered then s.enqueue c t
      else .error .disabled
  | .running, .beginWait q => s.beginWait c q
  | .waiting q, .commitWait => s.commitWait c q
  | .running, .beginExit =>
    if (s.cpu c).current = (s.cpu c).idle then .error .disabled
    else do
      let state ← liftPanic ((s.thread (s.cpu c).current).state.transitionTo .dead)
      return (s.setState (s.cpu c).current state).goto c (.leaving .exit)
  | .running, .pickNext => s.pickNext c .yield
  | .leaving reason, .pickNext => s.pickNext c reason
  | .picked .yield next, .park => s.park c next
  | .picked .block next, .commitNext => s.commitNext c .block next
  | .picked .exit next, .commitNext => s.commitNext c .exit next
  | .parked next, .commitNext => s.commitNext c .yield next
  | .committed reason next, .prepare => s.prepare c reason next
  | .switched, .claim => .ok ((s.setOnCpu (s.cpu c).current true).goto c .claimed)
  | .claimed, .release => .ok (s.release c)
  | .released t, .enqueuePrevious => .ok ((s.tryEnqueueWoken c t).goto c .finishing)
  | .finishing, .finish => s.finish c
  | _, .wake q => s.wake c q
  | _, _ => .error .disabled

/-- One move of a CPU. -/
def apply (move : Move τ ω) : Except Halt (Machine ρ τ ω) :=
  match (s.cpu c).wake with
  | none => s.applyPc c (s.cpu c).pc move
  | some (.woken q t) =>
    if move = .load then
      if (s.thread t).onCpu then .ok (s.endWake c q)
      else .ok (s.setCpu c { s.cpu c with wake := some (.offCpu q t) })
    else .error .disabled
  | some (.offCpu q t) =>
    if move = .enqueueWoken then .ok ((s.tryEnqueueWoken c t).endWake c q)
    else .error .disabled

end Machine

/-- The threads the CPUs start with: no thread is on two CPUs, and idle threads are apart. -/
structure Startup (ρ τ : Type) where
  boot : ρ → τ
  idle : ρ → τ
  boot_injective : Function.Injective boot
  idle_injective : Function.Injective idle
  apart : ∀ c d, boot c ≠ idle d

/-- The machine after startup. -/
def Machine.initial {ρ τ ω : Type} [Fintype ρ] [DecidableEq τ] (startup : Startup ρ τ) :
    Machine ρ τ ω where
  cpu c := ⟨[], startup.boot c, none, startup.idle c, none, .running, none⟩
  thread t :=
    if ∃ c, startup.boot c = t then ⟨.running, true⟩
    else if ∃ c, startup.idle c = t then ⟨.idle, false⟩
    else ⟨.registered, false⟩
  waiters _ := []
  lock _ := none

end Horizon.Threads
