import Horizon.Kernel.Scheduler

/-!
# Who has a thread

A thread that is ready, picked, running or being switched away from is in the hands of one CPU. Here
are the invariant that says so and the kinds of steps that keep it.
-/

namespace Horizon.Threads

open Function List

def CpuPc.next {τ ω : Type} : CpuPc τ ω → Option τ
  | .picked _ next | .parked next | .committed _ next => some next
  | _ => none

def WakePc.thread {τ ω : Type} : WakePc τ ω → τ
  | .woken _ t | .offCpu _ t => t

variable {ρ τ ω : Type}

/-- The CPU runs the thread, is about to, or has it in its queue. -/
def Cpu.Has (cpu : Cpu τ ω) (t : τ) : Prop :=
  cpu.current = t ∨ cpu.idle = t ∨ cpu.previous = some t ∨ cpu.pc.next = some t ∨ t ∈ cpu.ready

/-- A ready thread is in the queue of a CPU, or was just taken from it. -/
def Cpu.Keeps (cpu : Cpu τ ω) (t : τ) : Prop :=
  t ∈ cpu.ready ∨ (∃ reason, cpu.pc = .picked reason t) ∨ cpu.pc = .parked t

/-- The thread is on the CPU, as it says itself. -/
def Machine.OnCpu (s : Machine ρ τ ω) (c : ρ) (t : τ) : Prop :=
  (s.thread t).onCpu = true ∧ ((s.cpu c).current = t ∨ (s.cpu c).previous = some t)

/-- What a state must satisfy. -/
structure Machine.Right [DecidableEq τ] (s : Machine ρ τ ω) : Prop where
  apart : ∀ c d t, t ∈ (s.cpu c).ready → s.OnCpu d t → c = d
  current : ∀ c d, (s.cpu c).current = (s.cpu d).current → c = d
  /-- A ready thread is in one ready queue once, except that a CPU that has just taken it to run it
  has it alone. -/
  ready : ∀ t, (s.thread t).state = .ready →
    (∃ c, (s.cpu c).ready.count t = 1 ∧ ∀ d ≠ c, t ∉ (s.cpu d).ready) ∨
    ∃ c, (s.cpu c).pc.next = some t ∧ ∀ d, t ∉ (s.cpu d).ready

/-- The state of a thread that is left for the reason. -/
def Leave.Fits (reason : Leave) (state : ThreadState) : Prop :=
  match reason with
  | .block => state = .blocked ∨ state = .waking
  | .yield => state = .running
  | .exit => state = .dead

/-- A thread that was handed back, and is still on the stack. -/
def Cpu.Parked (cpu : Cpu τ ω) (state : τ → ThreadState) (t : τ) : Prop :=
  cpu.idle = t ∨ (state t = .ready ∧ t ∈ cpu.ready)

/-- The thread is idle, or ready and out of the queue. -/
def Cpu.Taken (cpu : Cpu τ ω) (state : τ → ThreadState) (t : τ) : Prop :=
  cpu.idle = t ∨ (state t = .ready ∧ t ∉ cpu.ready)

/-- Threads have the states that belong to the CPU's place in the code. -/
def Cpu.Place (cpu : Cpu τ ω) (state : τ → ThreadState) : Prop :=
  match cpu.pc with
  | .running | .finishing => state cpu.current = .running ∧ cpu.previous = none
  | .waiting _ =>
    (state cpu.current = .blocking ∨ state cpu.current = .running) ∧ cpu.previous = none
  | .leaving reason =>
    reason ≠ .yield ∧ reason.Fits (state cpu.current) ∧ cpu.previous = none
  | .picked reason next =>
    reason.Fits (state cpu.current) ∧ cpu.previous = none ∧ next ≠ cpu.current ∧
      cpu.Taken state next
  | .parked next =>
    cpu.Parked state cpu.current ∧ cpu.previous = none ∧ next ≠ cpu.current ∧
      cpu.Taken state next
  | .committed reason next =>
    (reason = .yield ∧ cpu.Parked state cpu.current ∨
      reason ≠ .yield ∧ reason.Fits (state cpu.current)) ∧ cpu.previous = none ∧
      next ≠ cpu.current ∧ state next = .running
  | .switched | .claimed =>
    state cpu.current = .running ∧ ∃ t, cpu.previous = some t ∧ t ≠ cpu.current ∧
      (cpu.Parked state t ∨ ∃ reason : Leave, reason ≠ .yield ∧ reason.Fits (state t))
  | .released t =>
    state cpu.current = .running ∧ cpu.previous = none ∧ t ≠ cpu.current

/-- The threads of a CPU have the states that belong to where they are. -/
structure Cpu.Agrees (cpu : Cpu τ ω) (state : τ → ThreadState) : Prop where
  readyState : ∀ t ∈ cpu.ready, state t = .ready
  nodup : cpu.ready.Nodup
  idle : state cpu.idle = .idle ∨ state cpu.idle = .running
  place : cpu.Place state
  wake : ∀ wake, cpu.wake = some wake →
    wake.thread ≠ cpu.current ∧ cpu.previous ≠ some wake.thread

/-- What a wakeup does to a state. -/
def Woken (before after : ThreadState) : Prop :=
  after = before ∨ (before = .blocking ∧ after = .running) ∨ (before = .blocked ∧ after = .waking)

def Machine.states (s : Machine ρ τ ω) (t : τ) : ThreadState := (s.thread t).state

/-- The invariant: each thread is at one CPU, in the state that belongs there. -/
structure Machine.Ordered (s : Machine ρ τ ω) : Prop where
  one : ∀ c d t, (s.cpu c).Has t → (s.cpu d).Has t → c = d
  agrees : ∀ c, (s.cpu c).Agrees s.states
  onCpu : ∀ t, (s.thread t).onCpu = true ↔
    ∃ c, (s.cpu c).current = t ∨ (s.cpu c).previous = some t
  kept : ∀ t, s.states t = .ready → ∃ c, (s.cpu c).Keeps t

theorem Woken.eq_of_awake {before after : ThreadState} (woken : Woken before after)
    (awake : before ≠ .blocking) (sleepless : before ≠ .blocked) : after = before := by
  rcases woken with same | ⟨was, _⟩ | ⟨was, _⟩
  · exact same
  · exact absurd was awake
  · exact absurd was sleepless

theorem Leave.Fits.of_woken {reason : Leave} {before after : ThreadState}
    (fits : reason.Fits before) (woken : Woken before after) : reason.Fits after := by
  cases reason with
  | block =>
    rcases woken with same | ⟨was, _⟩ | ⟨_, becomes⟩
    · rw [same]
      exact fits
    · rcases fits with h | h <;> rw [was] at h <;> cases h
    · exact .inr becomes
  | yield =>
    have same := woken.eq_of_awake (by rw [fits]; decide) (by rw [fits]; decide)
    exact same.trans fits
  | exit =>
    have same := woken.eq_of_awake (by rw [fits]; decide) (by rw [fits]; decide)
    exact same.trans fits

variable {cpu : Cpu τ ω} {state state' : τ → ThreadState} {t : τ}

theorem Cpu.Parked.of_woken (parked : cpu.Parked state t) (woken : Woken (state t) (state' t)) :
    cpu.Parked state' t := by
  rcases parked with idle | ⟨ready, member⟩
  · exact .inl idle
  · exact .inr ⟨(woken.eq_of_awake (by rw [ready]; decide) (by rw [ready]; decide)).trans ready,
      member⟩

theorem Cpu.Taken.of_woken (taken : cpu.Taken state t) (woken : Woken (state t) (state' t)) :
    cpu.Taken state' t := by
  rcases taken with idle | ⟨ready, member⟩
  · exact .inl idle
  · exact .inr ⟨(woken.eq_of_awake (by rw [ready]; decide) (by rw [ready]; decide)).trans ready,
      member⟩

theorem Cpu.Place.transport {cpu' : Cpu τ ω} (place : cpu.Place state) (pc : cpu'.pc = cpu.pc)
    (current : cpu'.current = cpu.current) (previous : cpu'.previous = cpu.previous)
    (running : ∀ u, cpu.Has u → state u = .running → state' u = .running)
    (blocking : state cpu.current = .blocking →
      state' cpu.current = .blocking ∨ state' cpu.current = .running)
    (fits : ∀ u, cpu.Has u → ∀ reason : Leave, reason.Fits (state u) → reason.Fits (state' u))
    (parked : ∀ u, cpu.Has u → cpu.Parked state u → cpu'.Parked state' u)
    (taken : ∀ u, cpu.Has u → cpu.Taken state u → cpu'.Taken state' u) : cpu'.Place state' := by
  have here : cpu.Has cpu.current := .inl rfl
  unfold Place at place ⊢
  rw [pc, current, previous]
  cases at_ : cpu.pc <;> rw [at_] at place
  case running | finishing | released => exact ⟨running _ here place.1, place.2⟩
  case waiting queue =>
    refine ⟨?_, place.2⟩
    rcases place.1 with was | was
    · exact blocking was
    · exact .inr (running _ here was)
  case leaving reason => exact ⟨place.1, fits _ here _ place.2.1, place.2.2⟩
  case picked reason next =>
    have has : cpu.Has next := by simp [Has, at_, CpuPc.next]
    exact ⟨fits _ here _ place.1, place.2.1, place.2.2.1, taken next has place.2.2.2⟩
  case parked next =>
    have has : cpu.Has next := by simp [Has, at_, CpuPc.next]
    exact ⟨parked _ here place.1, place.2.1, place.2.2.1, taken next has place.2.2.2⟩
  case committed reason next =>
    have has : cpu.Has next := by simp [Has, at_, CpuPc.next]
    refine ⟨?_, place.2.1, place.2.2.1, running next has place.2.2.2⟩
    rcases place.1 with ⟨yields, handed⟩ | ⟨leaves, left⟩
    · exact .inl ⟨yields, parked _ here handed⟩
    · exact .inr ⟨leaves, fits _ here _ left⟩
  case switched | claimed =>
    obtain ⟨runs, t, before, other, gone⟩ := place
    have has : cpu.Has t := .inr (.inr (.inl before))
    refine ⟨running _ here runs, t, before, other, ?_⟩
    rcases gone with handed | ⟨reason, leaves, left⟩
    · exact .inl (parked t has handed)
    · exact .inr ⟨reason, leaves, fits t has _ left⟩

theorem Cpu.Agrees.of_woken (agrees : cpu.Agrees state)
    (woken : ∀ t, cpu.Has t → Woken (state t) (state' t)) : cpu.Agrees state' := by
  have stays : ∀ t, cpu.Has t → ∀ {was}, state t = was → was ≠ .blocking → was ≠ .blocked →
      state' t = was := by
    intro t has was is awake sleepless
    subst is
    exact (woken t has).eq_of_awake awake sleepless
  have running : ∀ t, cpu.Has t → state t = .running → state' t = .running :=
    fun t has was => stays t has was (by decide) (by decide)
  constructor
  · intro t member
    exact stays t (.inr (.inr (.inr (.inr member)))) (agrees.readyState t member) (by decide)
      (by decide)
  · exact agrees.nodup
  · have has : cpu.Has cpu.idle := .inr (.inl rfl)
    rcases agrees.idle with was | was
    · exact .inl (stays _ has was (by decide) (by decide))
    · exact .inr (running _ has was)
  · refine agrees.place.transport rfl rfl rfl running (fun was => ?_)
      (fun u has _ fits => fits.of_woken (woken u has))
      (fun u has parked => parked.of_woken (woken u has))
      (fun u has taken => taken.of_woken (woken u has))
    rcases woken cpu.current (.inl rfl) with same | ⟨_, becomes⟩ | ⟨sleeps, _⟩
    · exact .inl (same.trans was)
    · exact .inr becomes
    · cases was.symm.trans sleeps
  · exact agrees.wake

variable {s s' : Machine ρ τ ω} {c : ρ}

theorem Leave.Fits.states {reason : Leave} {state : ThreadState} (fits : reason.Fits state) :
    state = .running ∨ state = .blocked ∨ state = .waking ∨ state = .dead := by
  cases reason with
  | block => exact .inr (Or.imp_right .inl fits)
  | yield => exact .inl fits
  | exit => exact .inr (.inr (.inr fits))

theorem Cpu.Agrees.states_of_has (agrees : cpu.Agrees state) (has : cpu.Has t) :
    (state t = .idle ∨ state t = .running ∨ state t = .ready) ∨
    ((cpu.current = t ∨ cpu.previous = some t) ∧
      (state t = .blocking ∨ state t = .blocked ∨ state t = .waking ∨ state t = .dead)) := by
  have place := agrees.place
  have idle : cpu.idle = t → state t = .idle ∨ state t = .running ∨ state t = .ready := by
    intro same
    rw [← same]
    exact Or.imp_right .inl agrees.idle
  have parked : cpu.Parked state t → state t = .idle ∨ state t = .running ∨ state t = .ready := by
    intro parked
    rcases parked with same | ready
    · exact idle same
    · exact .inr (.inr ready.1)
  have taken : cpu.Taken state t → state t = .idle ∨ state t = .running ∨ state t = .ready := by
    intro taken
    rcases taken with same | ready
    · exact idle same
    · exact .inr (.inr ready.1)
  have fits : ∀ {reason : Leave}, reason.Fits (state t) → cpu.current = t ∨ cpu.previous = some t →
      (state t = .idle ∨ state t = .running ∨ state t = .ready) ∨
      ((cpu.current = t ∨ cpu.previous = some t) ∧
        (state t = .blocking ∨ state t = .blocked ∨ state t = .waking ∨ state t = .dead)) := by
    intro reason fits stack
    rcases fits.states with running | gone
    · exact .inl (.inr (.inl running))
    · exact .inr ⟨stack, .inr gone⟩
  unfold Place at place
  rcases has with current | same | previous | next | member
  · subst current
    cases pc : cpu.pc <;> rw [pc] at place
    case running | switched | claimed | released | finishing => exact .inl (.inr (.inl place.1))
    case waiting =>
      rcases place.1 with blocking | running
      · exact .inr ⟨.inl rfl, .inl blocking⟩
      · exact .inl (.inr (.inl running))
    case leaving => exact fits place.2.1 (.inl rfl)
    case picked => exact fits place.1 (.inl rfl)
    case parked => exact .inl (parked place.1)
    case committed =>
      rcases place.1 with yields | leaves
      · exact .inl (parked yields.2)
      · exact fits leaves.2 (.inl rfl)
  · exact .inl (idle same)
  · cases pc : cpu.pc <;> rw [pc] at place
    case switched | claimed =>
      obtain ⟨_, p, is, _, gone⟩ := place
      rw [previous] at is
      cases is
      rcases gone with handed | ⟨reason, _, leaves⟩
      · exact .inl (parked handed)
      · exact fits leaves (.inr previous)
    all_goals simp [previous] at place
  · cases pc : cpu.pc <;> rw [pc] at place next
    case picked | parked =>
      cases next
      exact .inl (taken place.2.2.2)
    case committed =>
      cases next
      exact .inl (.inr (.inl place.2.2.2))
    all_goals cases next
  · exact .inl (.inr (.inr (agrees.readyState t member)))

theorem Cpu.Agrees.of_canWake (agrees : cpu.Agrees state) (can : Machine.canWake cpu.pc = true) :
    state cpu.current ≠ .blocked ∧ cpu.previous = none := by
  have place := agrees.place
  have parked : cpu.Parked state cpu.current → state cpu.current ≠ .blocked := by
    intro parked
    rcases parked with idle | ready
    · have states := agrees.idle
      rw [idle] at states
      intro blocked
      rw [blocked] at states
      simp at states
    · rw [ready.1]
      decide
  unfold Place at place
  cases pc : cpu.pc with
  | running =>
    rw [pc] at place
    exact ⟨by rw [place.1]; decide, place.2⟩
  | leaving reason =>
    rw [pc] at place can
    cases reason with
    | exit => exact ⟨by rw [place.2.1]; decide, place.2.2⟩
    | block | yield => cases can
  | picked reason next =>
    rw [pc] at place can
    cases reason with
    | yield => exact ⟨by rw [place.1]; decide, place.2.1⟩
    | block | exit => cases can
  | parked next =>
    rw [pc] at place
    exact ⟨parked place.1, place.2.1⟩
  | committed reason next =>
    rw [pc] at place can
    cases reason with
    | yield =>
      rcases place.1 with yields | leaves
      · exact ⟨parked yields.2, place.2.1⟩
      · exact absurd rfl leaves.1
    | block | exit => cases can
  | waiting | switched | claimed | released | finishing =>
    rw [pc] at can
    cases can

theorem Cpu.Keeps.has (keeps : cpu.Keeps t) : cpu.Has t := by
  rcases keeps with member | ⟨reason, pc⟩ | pc
  · exact .inr (.inr (.inr (.inr member)))
  · simp [Has, pc, CpuPc.next]
  · simp [Has, pc, CpuPc.next]

/-- The invariant gives what a state must satisfy. -/
theorem Machine.Ordered.right [DecidableEq τ] (ordered : s.Ordered) : s.Right := by
  have member : ∀ {c t}, t ∈ (s.cpu c).ready → (s.cpu c).Has t := by
    intro c t h
    exact .inr (.inr (.inr (.inr h)))
  constructor
  · intro c d t ready onCpu
    apply ordered.one c d t (member ready)
    rcases onCpu.2 with current | previous
    · exact .inl current
    · exact .inr (.inr (.inl previous))
  · intro c d same
    exact ordered.one c d _ (.inl rfl) (.inl same.symm)
  · intro t ready
    obtain ⟨c, keeps⟩ := ordered.kept t ready
    by_cases queued : t ∈ (s.cpu c).ready
    · left
      refine ⟨c, count_eq_one_of_mem (ordered.agrees c).nodup queued, ?_⟩
      intro d other there
      exact other (ordered.one d c t (member there) (member queued))
    · right
      refine ⟨c, ?_, ?_⟩
      · rcases keeps with here | ⟨reason, pc⟩ | pc
        · exact absurd here queued
        · rw [pc]
          rfl
        · rw [pc]
          rfl
      · intro d there
        have same := ordered.one d c t (member there) keeps.has
        rw [same] at there
        exact queued there

variable {pc : CpuPc τ ω}

section

variable (ordered : s.Ordered)
include ordered

/-- A step of one CPU keeps the invariant, if what it changes agrees. -/
theorem Machine.Ordered.of_step (others : ∀ d ≠ c, s'.cpu d = s.cpu d)
    (states : ∀ d ≠ c, ∀ t, (s.cpu d).Has t → Woken (s.states t) (s'.states t))
    (has : ∀ t, (s'.cpu c).Has t → (s.cpu c).Has t ∨ ∀ d ≠ c, ¬ (s.cpu d).Has t)
    (agrees : (s'.cpu c).Agrees s'.states)
    (onCpu : ∀ t, (s'.thread t).onCpu = true ↔ ∃ d, (s'.cpu d).current = t ∨
      (s'.cpu d).previous = some t)
    (kept : ∀ t, s'.states t = .ready → (s'.cpu c).Keeps t ∨ s.states t = .ready ∧
      ((s.cpu c).Keeps t → (s'.cpu c).Keeps t)) : s'.Ordered where
  one := by
    have cross : ∀ d ≠ c, ∀ t, (s'.cpu c).Has t → (s'.cpu d).Has t → False := by
      intro d other t here there
      rw [others d other] at there
      rcases has t here with before | free
      · exact other (ordered.one d c t there before)
      · exact free d other there
    intro d e t first second
    by_cases dc : d = c
    · by_cases ec : e = c
      · rw [dc, ec]
      · rw [dc] at first
        exact (cross e ec t first second).elim
    · by_cases ec : e = c
      · rw [ec] at second
        exact (cross d dc t second first).elim
      · rw [others d dc] at first
        rw [others e ec] at second
        exact ordered.one d e t first second
  agrees d := by
    by_cases here : d = c
    · rw [here]
      exact agrees
    · rw [others d here]
      exact (ordered.agrees d).of_woken (states d here)
  onCpu := onCpu
  kept t ready := by
    rcases kept t ready with now | ⟨before, stays⟩
    · exact ⟨c, now⟩
    · obtain ⟨d, keeps⟩ := ordered.kept t before
      by_cases here : d = c
      · rw [here] at keeps
        exact ⟨c, stays keeps⟩
      · exact ⟨d, by rw [others d here]; exact keeps⟩

theorem Machine.Ordered.onCpu_of_same (others : ∀ d ≠ c, s'.cpu d = s.cpu d)
    (current : (s'.cpu c).current = (s.cpu c).current)
    (previous : (s'.cpu c).previous = (s.cpu c).previous)
    (flags : ∀ t, (s'.thread t).onCpu = (s.thread t).onCpu) (t : τ) : (s'.thread t).onCpu = true ↔
      ∃ d, (s'.cpu d).current = t ∨ (s'.cpu d).previous = some t := by
  have same : ∀ d, (s'.cpu d).current = (s.cpu d).current ∧
      (s'.cpu d).previous = (s.cpu d).previous := by
    intro d
    by_cases here : d = c
    · rw [here]
      exact ⟨current, previous⟩
    · rw [others d here]
      exact ⟨rfl, rfl⟩
  rw [flags, ordered.onCpu]
  simp only [(same _).1, (same _).2]

theorem Machine.Ordered.free_of_waking (waking : s.states t = .waking)
    (off : (s.thread t).onCpu = false) (d : ρ) : ¬ (s.cpu d).Has t := by
  intro has
  have states := (ordered.agrees d).states_of_has has
  rw [waking] at states
  have stack : (s.cpu d).current = t ∨ (s.cpu d).previous = some t := by simpa using states
  have set := (ordered.onCpu t).mpr ⟨d, stack⟩
  rw [off] at set
  cases set

theorem Machine.Ordered.of_cpu [DecidableEq ρ] {value : Cpu τ ω}
    (cpus : s'.cpu = update s.cpu c value) (threads : s'.thread = s.thread)
    (current : value.current = (s.cpu c).current) (previous : value.previous = (s.cpu c).previous)
    (has : ∀ u, value.Has u → (s.cpu c).Has u) (agrees : value.Agrees s.states)
    (keeps : ∀ u, (s.cpu c).Keeps u → value.Keeps u) : s'.Ordered := by
  have here : s'.cpu c = value := by rw [cpus, update_self]
  have others : ∀ d ≠ c, s'.cpu d = s.cpu d := by
    intro d other
    rw [cpus, update_of_ne other]
  have states : s'.states = s.states := by
    funext u
    simp [Machine.states, threads]
  apply ordered.of_step others
  · intro d other u there
    left
    rw [states]
  · intro u now
    rw [here] at now
    exact .inl (has u now)
  · rw [here, states]
    exact agrees
  · apply ordered.onCpu_of_same others
    · rw [here, current]
    · rw [here, previous]
    · intro u
      rw [threads]
  · intro u ready
    rw [states] at ready
    rw [here]
    exact .inr ⟨ready, keeps u⟩

theorem Machine.Ordered.of_wake [DecidableEq ρ] (wake : Option (WakePc τ ω))
    (cpus : s'.cpu = update s.cpu c { s.cpu c with wake := wake })
    (threads : s'.thread = s.thread)
    (waking : ∀ w, wake = some w →
      w.thread ≠ (s.cpu c).current ∧ (s.cpu c).previous ≠ some w.thread) :
    s'.Ordered := by
  refine ordered.of_cpu cpus threads rfl rfl (fun _ has => has) ?_ (fun _ keeps => keeps)
  exact { ordered.agrees c with wake := waking }

theorem Machine.Ordered.alone (has : (s.cpu c).Has t) : ∀ d ≠ c, ¬ (s.cpu d).Has t :=
  fun d other there => other (ordered.one d c t there has)

end

theorem Cpu.Agrees.of_pc (agrees : cpu.Agrees state) (awake : cpu.wake = none)
    (ready : ∀ u ∈ cpu.ready, state' u = .ready)
    (idle : state' cpu.idle = .idle ∨ state' cpu.idle = .running)
    (place : ({ cpu with pc := pc } : Cpu τ ω).Place state') :
    ({ cpu with pc := pc } : Cpu τ ω).Agrees state' where
  readyState := ready
  nodup := agrees.nodup
  idle := idle
  place := place
  wake := by simp [awake]

theorem Cpu.Has.of_pc (has : ({ cpu with pc := pc } : Cpu τ ω).Has t)
    (target : pc.next = none ∨ pc.next = cpu.pc.next) : cpu.Has t := by
  rcases has with h | h | h | h | h
  · exact .inl h
  · exact .inr (.inl h)
  · exact .inr (.inr (.inl h))
  · rcases target with none | same
    · cases none.symm.trans h
    · exact .inr (.inr (.inr (.inl (same.symm.trans h))))
  · exact .inr (.inr (.inr (.inr h)))

theorem Machine.Ordered.of_goto [DecidableEq ρ] (ordered : s.Ordered)
    (awake : (s.cpu c).wake = none) (cpus : s'.cpu = update s.cpu c { s.cpu c with pc := pc })
    (threads : s'.thread = s.thread) (target : pc.next = none ∨ pc.next = (s.cpu c).pc.next)
    (keeps : ∀ u, (s.cpu c).Keeps u → ({ s.cpu c with pc := pc } : Cpu τ ω).Keeps u)
    (place : ({ s.cpu c with pc := pc } : Cpu τ ω).Place s.states) : s'.Ordered := by
  have agrees := ordered.agrees c
  exact ordered.of_cpu cpus threads rfl rfl (fun _ has => has.of_pc target)
    (agrees.of_pc awake agrees.readyState agrees.idle place) keeps

variable [DecidableEq τ] {value : Cpu τ ω} {next : ThreadState}

theorem Machine.states_of_update
    (threads : s'.thread = update s.thread t ⟨next, (s.thread t).onCpu⟩) :
    s'.states = update s.states t next := by
  funext u
  by_cases here : u = t
  · simp [states, threads, here]
  · simp [states, threads, here]

theorem Machine.states_of_flag {flag : Bool}
    (threads : s'.thread = update s.thread t ⟨(s.thread t).state, flag⟩) :
    s'.states = s.states := by
  funext u
  by_cases here : u = t
  · simp [states, threads, here]
  · simp [states, threads, here]

variable [DecidableEq ρ]

theorem Machine.Ordered.of_private (ordered : s.Ordered) (cpus : s'.cpu = update s.cpu c value)
    (threads : s'.thread = update s.thread t ⟨next, (s.thread t).onCpu⟩)
    (alone : ∀ d ≠ c, ¬ (s.cpu d).Has t) (current : value.current = (s.cpu c).current)
    (previous : value.previous = (s.cpu c).previous)
    (has : ∀ u, value.Has u → (s.cpu c).Has u ∨ u = t)
    (agrees : value.Agrees (update s.states t next))
    (kept : ∀ u, update s.states t next u = .ready → value.Keeps u ∨
      s.states u = .ready ∧ ((s.cpu c).Keeps u → value.Keeps u)) : s'.Ordered := by
  have states := states_of_update threads
  have here : s'.cpu c = value := by rw [cpus, update_self]
  have others : ∀ d ≠ c, s'.cpu d = s.cpu d := by
    intro d other
    rw [cpus, update_of_ne other]
  apply ordered.of_step others
  · intro d other u there
    left
    rw [states, update_of_ne]
    intro same
    rw [same] at there
    exact alone d other there
  · intro u now
    rw [here] at now
    rcases has u now with before | same
    · exact .inl before
    · rw [same]
      exact .inr alone
  · rw [here, states]
    exact agrees
  · apply ordered.onCpu_of_same others
    · rw [here, current]
    · rw [here, previous]
    · intro u
      by_cases same : u = t
      · simp [threads, same]
      · simp [threads, same]
  · rw [here, states]
    exact kept

theorem Machine.Ordered.of_current (ordered : s.Ordered) (awake : (s.cpu c).wake = none)
    (pc : CpuPc τ ω) (cpus : s'.cpu = update s.cpu c { s.cpu c with pc := pc })
    (threads : s'.thread = update s.thread (s.cpu c).current
      ⟨next, (s.thread (s.cpu c).current).onCpu⟩)
    (was : s.states (s.cpu c).current ≠ .ready) (becomes : next ≠ .ready)
    (idle : (s.cpu c).idle = (s.cpu c).current → next = .idle ∨ next = .running)
    (target : pc.next = none ∨ pc.next = (s.cpu c).pc.next)
    (keeps : ∀ u, (s.cpu c).Keeps u → ({ s.cpu c with pc := pc } : Cpu τ ω).Keeps u)
    (place : ({ s.cpu c with pc := pc } : Cpu τ ω).Place
      (update s.states (s.cpu c).current next)) : s'.Ordered := by
  have agrees := ordered.agrees c
  apply ordered.of_private cpus threads (ordered.alone (.inl rfl)) rfl rfl
  · exact fun u now => .inl (now.of_pc target)
  · apply agrees.of_pc awake _ _ place
    · intro u member
      have ready := agrees.readyState u member
      rw [update_of_ne]
      · exact ready
      · intro same
        rw [same] at ready
        exact was ready
    · by_cases same : (s.cpu c).idle = (s.cpu c).current
      · rw [same, update_self]
        exact idle same
      · rw [update_of_ne same]
        exact agrees.idle
  · intro u ready
    right
    by_cases same : u = (s.cpu c).current
    · rw [same, update_self] at ready
      exact absurd ready becomes
    · rw [update_of_ne same] at ready
      exact ⟨ready, keeps u⟩

theorem Machine.Ordered.of_link (ordered : s.Ordered) (pc : CpuPc τ ω) (wake : Option (WakePc τ ω))
    (cpus : s'.cpu = update s.cpu c
      { s.cpu c with ready := (s.cpu c).ready ++ [t], pc := pc, wake := wake })
    (threads : s'.thread = update s.thread t ⟨.ready, (s.thread t).onCpu⟩)
    (was : s.states t ≠ .ready) (alone : ∀ d ≠ c, ¬ (s.cpu d).Has t)
    (notIdle : (s.cpu c).idle ≠ t) (target : pc.next = none ∨ pc.next = (s.cpu c).pc.next)
    (keeps : ∀ u, (∃ reason, (s.cpu c).pc = .picked reason u) ∨ (s.cpu c).pc = .parked u →
      (∃ reason, pc = .picked reason u) ∨ pc = .parked u)
    (waking : ∀ w, wake = some w →
      w.thread ≠ (s.cpu c).current ∧ (s.cpu c).previous ≠ some w.thread)
    (place : ({ s.cpu c with ready := (s.cpu c).ready ++ [t], pc := pc, wake := wake } :
      Cpu τ ω).Place (update s.states t .ready)) : s'.Ordered := by
  have agrees := ordered.agrees c
  have fresh : t ∉ (s.cpu c).ready := fun member => was (agrees.readyState t member)
  apply ordered.of_private cpus threads alone rfl rfl
  · intro u now
    rcases now with h | h | h | h | h
    · exact .inl (.inl h)
    · exact .inl (.inr (.inl h))
    · exact .inl (.inr (.inr (.inl h)))
    · rcases target with none | same
      · rw [none] at h
        cases h
      · rw [same] at h
        exact .inl (.inr (.inr (.inr (.inl h))))
    · rcases mem_append.mp h with old | new
      · exact .inl (.inr (.inr (.inr (.inr old))))
      · exact .inr (mem_singleton.mp new)
  · constructor
    · intro u member
      by_cases same : u = t
      · rw [same, update_self]
      · rw [update_of_ne same]
        rcases mem_append.mp member with old | new
        · exact agrees.readyState u old
        · exact absurd (mem_singleton.mp new) same
    · apply nodup_append.mpr
      refine ⟨agrees.nodup, nodup_singleton t, ?_⟩
      intro u member v here same
      rw [same, mem_singleton.mp here] at member
      exact fresh member
    · rw [update_of_ne notIdle]
      exact agrees.idle
    · exact place
    · exact waking
  · intro u ready
    by_cases same : u = t
    · left
      exact .inl (mem_append.mpr (.inr (mem_singleton.mpr same)))
    · right
      rw [update_of_ne same] at ready
      refine ⟨ready, ?_⟩
      intro before
      rcases before with member | taken
      · exact .inl (mem_append.mpr (.inl member))
      · exact .inr (keeps u taken)

theorem Cpu.Place.of_link (place : cpu.Place state) (free : ¬ cpu.Has t)
    (wake : Option (WakePc τ ω)) :
    ({ cpu with ready := cpu.ready ++ [t], wake := wake } : Cpu τ ω).Place
      (update state t .ready) := by
  have same : ∀ u, cpu.Has u → update state t .ready u = state u := by
    intro u has
    rw [update_of_ne]
    intro is
    rw [is] at has
    exact free has
  have parked : ∀ u, cpu.Has u → cpu.Parked state u →
      ({ cpu with ready := cpu.ready ++ [t], wake := wake } : Cpu τ ω).Parked
        (update state t .ready) u := by
    intro u has parked
    rcases parked with idle | ⟨ready, member⟩
    · exact .inl idle
    · exact .inr ⟨(same u has).trans ready, mem_append.mpr (.inl member)⟩
  have taken : ∀ u, cpu.Has u → cpu.Taken state u →
      ({ cpu with ready := cpu.ready ++ [t], wake := wake } : Cpu τ ω).Taken
        (update state t .ready) u := by
    intro u has taken
    rcases taken with idle | ⟨ready, fresh⟩
    · exact .inl idle
    · refine .inr ⟨(same u has).trans ready, ?_⟩
      intro member
      rcases mem_append.mp member with old | new
      · exact fresh old
      · rw [mem_singleton.mp new] at has
        exact free has
  exact place.transport rfl rfl rfl (fun u has was => (same u has).trans was)
    (fun was => .inl ((same _ (.inl rfl)).trans was))
    (fun u has _ fits => by rw [same u has]; exact fits) parked taken

theorem Machine.Ordered.of_link_free (ordered : s.Ordered) (wake : Option (WakePc τ ω))
    (cpus : s'.cpu = update s.cpu c
      { s.cpu c with ready := (s.cpu c).ready ++ [t], wake := wake })
    (threads : s'.thread = update s.thread t ⟨.ready, (s.thread t).onCpu⟩)
    (was : s.states t ≠ .ready) (free : ∀ d, ¬ (s.cpu d).Has t)
    (waking : ∀ w, wake = some w →
      w.thread ≠ (s.cpu c).current ∧ (s.cpu c).previous ≠ some w.thread) : s'.Ordered :=
  ordered.of_link (s.cpu c).pc wake cpus threads was (fun d _ => free d)
    (fun same => free c (.inr (.inl same))) (.inr rfl) (fun _ before => before) waking
    ((ordered.agrees c).place.of_link (free c) wake)

end Horizon.Threads
