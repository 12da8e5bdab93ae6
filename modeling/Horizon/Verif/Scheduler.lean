import Horizon.Spec.Runs
import Horizon.Verif.SchedulerOrder

/-!
# One CPU per thread

Every step keeps a thread in the hands of one CPU, except one: `try_enqueue_woken` looks at the
state of the thread only, so a waker or a switch that was late links a thread that has been woken a
second time and is still on the stack of another CPU.
-/

namespace Horizon.Threads

open Function Runs Machine ThreadState List

variable {ρ τ ω : Type} {s s' : Machine ρ τ ω} {c : ρ} {t : τ}

theorem Machine.Ordered.finish [DecidableEq ρ] (ordered : s.Ordered) (awake : (s.cpu c).wake = none)
    (pc : (s.cpu c).pc = .finishing) (step : s.finish c = .ok s') : s'.Ordered := by
  have agrees := ordered.agrees c
  have place := agrees.place
  simp only [Cpu.Place, pc] at place
  rw [Machine.finish] at step
  split at step
  · split at step
    · cases step
      refine ordered.of_cpu rfl rfl rfl rfl ?_ ?_ ?_
      · intro u has
        simpa [Cpu.Has, pc, CpuPc.next] using has
      · exact ⟨agrees.readyState, agrees.nodup, agrees.idle, place, by simp [awake]⟩
      · intro u keeps
        simpa [Cpu.Keeps, pc] using keeps
    · cases step
  · cases step
    refine ordered.of_goto awake rfl rfl (.inl rfl) (fun u keeps => ?_) place
    simpa [Cpu.Keeps, pc] using keeps

variable [DecidableEq ρ] [DecidableEq τ]

theorem ThreadState.transitionTo_ok {before after result : ThreadState}
    (ok : liftPanic (before.transitionTo after) = .ok result) : result = after := by
  cases before <;> cases after <;> simp_all [transitionTo, liftPanic]

theorem Machine.Ordered.start (ordered : s.Ordered) (awake : (s.cpu c).wake = none)
    (was : s.states t = .registered) (step : s.enqueue c t = .ok s') : s'.Ordered := by
  have free : ∀ d, ¬ (s.cpu d).Has t := by
    intro d has
    have states := (ordered.agrees d).states_of_has has
    rw [was] at states
    simp at states
  rw [enqueue, bind_eq_ok] at step
  obtain ⟨state, moved, made⟩ := step
  cases transitionTo_ok moved
  cases made
  exact ordered.of_link_free (s.cpu c).wake rfl rfl (by rw [was]; decide) free
    (by simp [awake])

theorem Machine.Ordered.beginExit (ordered : s.Ordered) (awake : (s.cpu c).wake = none)
    (pc : (s.cpu c).pc = .running) (notIdle : (s.cpu c).current ≠ (s.cpu c).idle) :
    ((s.setState (s.cpu c).current .dead).goto c (.leaving .exit)).Ordered := by
  have place := (ordered.agrees c).place
  simp only [Cpu.Place, pc] at place
  apply ordered.of_current awake (.leaving .exit) rfl rfl
  · rw [place.1]
    decide
  · decide
  · intro same
    exact absurd same.symm notIdle
  · exact .inl rfl
  · intro u keeps
    simpa [Cpu.Keeps, pc] using keeps
  · simp [Cpu.Place, Leave.Fits, place.2]

variable {q : ω}

section

variable (ordered : s.Ordered) (awake : (s.cpu c).wake = none)
include ordered awake

theorem Machine.Ordered.commitWait (pc : (s.cpu c).pc = .waiting q)
    (step : s.commitWait c q = .ok s') : s'.Ordered := by
  have agrees := ordered.agrees c
  have place := agrees.place
  simp only [Cpu.Place, pc] at place
  simp only [Machine.commitWait] at step
  split at step
  · cases step
  · split at step
    case h_1 runs =>
      split at step
      · cases step
      · cases step
        refine ordered.of_goto awake rfl rfl (.inl rfl) (fun u keeps => ?_) ⟨runs, place.2⟩
        simpa [Cpu.Keeps, pc] using keeps
    case h_2 blocks =>
      split at step
      · cases step
        apply ordered.of_current awake (.leaving .block) rfl rfl
        · rw [states, blocks]
          decide
        · decide
        · intro same
          have idle := agrees.idle
          rw [same, states, blocks] at idle
          simp at idle
        · exact .inl rfl
        · intro u keeps
          simpa [Cpu.Keeps, pc] using keeps
        · simp [Cpu.Place, Leave.Fits, place.2]
      · cases step
    case h_3 => cases step

variable {reason : Leave} {n : τ}

theorem Machine.Ordered.pickNext
    (place : reason.Fits (s.states (s.cpu c).current) ∧ (s.cpu c).previous = none)
    (kept : ∀ u, (s.cpu c).Keeps u → u ∈ (s.cpu c).ready) (step : s.pickNext c reason = .ok s') :
    s'.Ordered := by
  have agrees := ordered.agrees c
  rw [Machine.pickNext] at step
  split at step
  case h_1 next rest queue =>
    split at step
    · cases step
    case isFalse other =>
      cases step
      have nodup := agrees.nodup
      rw [queue, nodup_cons] at nodup
      have ready := agrees.readyState next (by simp [queue])
      refine ordered.of_cpu rfl rfl rfl rfl ?_ ?_ ?_
      · intro u has
        rcases has with h | h | h | h | h
        · exact .inl h
        · exact .inr (.inl h)
        · exact .inr (.inr (.inl h))
        · cases h
          exact .inr (.inr (.inr (.inr (by simp [queue]))))
        · exact .inr (.inr (.inr (.inr (by rw [queue]; exact mem_cons_of_mem _ h))))
      · constructor
        · intro u member
          exact agrees.readyState u (by rw [queue]; exact mem_cons_of_mem _ member)
        · exact nodup.2
        · exact agrees.idle
        · exact ⟨place.1, place.2, other, .inr ⟨ready, nodup.1⟩⟩
        · simp [awake]
      · intro u keeps
        have member := kept u keeps
        rw [queue] at member
        rcases mem_cons.mp member with same | old
        · rw [same]
          exact .inr (.inl ⟨reason, rfl⟩)
        · exact .inl old
  case h_2 queue =>
    split at step
    · cases step
      exact ordered
    case isFalse leaves =>
      cases step
      have notIdle : (s.cpu c).idle ≠ (s.cpu c).current := by
        intro same
        have idle := agrees.idle
        rw [same] at idle
        have fits := place.1
        cases reason with
        | yield => exact leaves ⟨rfl, same.symm⟩
        | block => rcases fits with h | h <;> rw [h] at idle <;> simp at idle
        | exit => rw [fits] at idle; simp at idle
      refine ordered.of_cpu rfl rfl rfl rfl ?_ ?_ ?_
      · rintro u (h | h | h | h | h)
        · exact .inl h
        · exact .inr (.inl h)
        · exact .inr (.inr (.inl h))
        · cases h
          exact .inr (.inl rfl)
        · exact .inr (.inr (.inr (.inr h)))
      · exact agrees.of_pc awake agrees.readyState agrees.idle
          ⟨place.1, place.2, notIdle, .inl rfl⟩
      · intro u keeps
        exact .inl (kept u keeps)

theorem Machine.Ordered.park (pc : (s.cpu c).pc = .picked .yield n) (step : s.park c n = .ok s') :
    s'.Ordered := by
  have agrees := ordered.agrees c
  have place := agrees.place
  simp only [Cpu.Place, pc] at place
  obtain ⟨runs, noPrevious, other, taken⟩ := place
  have runs := runs
  rw [Machine.park] at step
  split at step
  case isTrue idle =>
    rw [bind_eq_ok] at step
    obtain ⟨state, moved, made⟩ := step
    cases transitionTo_ok moved
    cases made
    refine ordered.of_current awake (.parked n) rfl rfl (by rw [runs]; decide) (by decide)
      (fun _ => .inl rfl) (.inr (by rw [pc]; rfl)) ?_ ?_
    · intro u keeps
      simpa [Cpu.Keeps, pc] using keeps
    · refine ⟨.inl idle.symm, noPrevious, other, ?_⟩
      rcases taken with same | ready
      · exact .inl same
      · exact .inr ⟨by rw [update_of_ne other]; exact ready.1, ready.2⟩
  case isFalse notIdle =>
    rw [bind_eq_ok] at step
    obtain ⟨between, linked, made⟩ := step
    rw [enqueue, bind_eq_ok] at linked
    obtain ⟨state, moved, linked⟩ := linked
    cases transitionTo_ok moved
    cases linked
    cases made
    refine ordered.of_link (.parked n) none ?_ rfl (by rw [runs]; decide)
      (ordered.alone (.inl rfl)) (fun same => notIdle same.symm) (.inr (by rw [pc]; rfl)) ?_
      (by simp) ?_
    · simp [goto, setCpu, setState, awake]
    · intro u keeps
      simpa [pc] using keeps
    · refine ⟨.inr ⟨update_self _ _ _, by simp⟩, noPrevious, other, ?_⟩
      rcases taken with same | ready
      · exact .inl same
      · refine .inr ⟨by rw [update_of_ne other]; exact ready.1, ?_⟩
        simp [ready.2, other]

theorem Machine.Ordered.commitNext
    (pc : (s.cpu c).pc = .picked reason n ∧ reason ≠ .yield ∨ (s.cpu c).pc = .parked n ∧
      reason = .yield) (step : s.commitNext c reason n = .ok s') : s'.Ordered := by
  have agrees := ordered.agrees c
  have place := agrees.place
  have next : (s.cpu c).pc.next = some n := by
    rcases pc with ⟨pc, _⟩ | ⟨pc, _⟩ <;> rw [pc] <;> rfl
  obtain ⟨left, noPrevious, other, taken⟩ : (reason = .yield ∧
        (s.cpu c).Parked s.states (s.cpu c).current ∨
      reason ≠ .yield ∧ reason.Fits (s.states (s.cpu c).current)) ∧
      (s.cpu c).previous = none ∧ n ≠ (s.cpu c).current ∧ (s.cpu c).Taken s.states n := by
    rcases pc with ⟨pc, leaves⟩ | ⟨pc, yields⟩
    · simp only [Cpu.Place, pc] at place
      exact ⟨.inr ⟨leaves, place.1⟩, place.2⟩
    · simp only [Cpu.Place, pc] at place
      exact ⟨.inl ⟨yields, place.1⟩, place.2⟩
  have fresh : n ∉ (s.cpu c).ready := by
    rcases taken with idle | ready
    · intro member
      have states := agrees.idle
      rw [idle, agrees.readyState n member] at states
      simp at states
    · exact ready.2
  rw [Machine.commitNext, bind_eq_ok] at step
  obtain ⟨state, moved, made⟩ := step
  cases transitionTo_ok moved
  cases made
  refine ordered.of_private rfl rfl
    (ordered.alone (.inr (.inr (.inr (.inl next))))) rfl rfl ?_ ?_ ?_
  · exact fun u now => .inl (now.of_pc (.inr next.symm))
  · apply agrees.of_pc awake
    · intro u member
      rw [update_of_ne]
      · exact agrees.readyState u member
      · intro same
        rw [same] at member
        exact fresh member
    · by_cases same : (s.cpu c).idle = n
      · rw [same, update_self]
        exact .inr rfl
      · rw [update_of_ne same]
        exact agrees.idle
    · refine ⟨?_, noPrevious, other, update_self _ _ _⟩
      have current : update s.states n .running (s.cpu c).current =
          s.states (s.cpu c).current := update_of_ne other.symm _ _
      rcases left with ⟨yields, parked⟩ | ⟨leaves, fits⟩
      · refine .inl ⟨yields, ?_⟩
        rcases parked with idle | ready
        · exact .inl idle
        · exact .inr ⟨current.trans ready.1, ready.2⟩
      · exact .inr ⟨leaves, by rw [current]; exact fits⟩
  · intro u ready
    by_cases same : u = n
    · rw [same, update_self] at ready
      cases ready
    · rw [update_of_ne same] at ready
      refine .inr ⟨ready, ?_⟩
      intro keeps
      rcases keeps with member | ⟨r, at_⟩ | at_
      · exact .inl member
      · rw [at_] at next
        cases next
        exact absurd rfl same
      · rw [at_] at next
        cases next
        exact absurd rfl same

theorem Machine.Ordered.prepare (pc : (s.cpu c).pc = .committed reason n)
    (step : s.prepare c reason n = .ok s') : s'.Ordered := by
  have agrees := ordered.agrees c
  have place := agrees.place
  simp only [Cpu.Place, pc] at place
  obtain ⟨left, noPrevious, other, runs⟩ := place
  have next : (s.cpu c).pc.next = some n := by rw [pc]; rfl
  simp only [Machine.prepare] at step
  split at step
  · cases step
  cases step
  have states : (s.setOnCpu n true).states = s.states := states_of_flag rfl
  refine ordered.of_step (c := c) (fun d apart => update_of_ne apart _ _) ?_ ?_ ?_ ?_ ?_
  · intro d apart u _
    exact .inl (congrFun states u)
  · intro u now
    left
    simp only [setCpu, update_self] at now
    rcases now with h | h | h | h | h
    · exact .inr (.inr (.inr (.inl (h ▸ next))))
    · exact .inr (.inl h)
    · exact .inl (Option.some.inj h)
    · cases h
    · exact .inr (.inr (.inr (.inr h)))
  · show Cpu.Agrees (update s.cpu c _ c) (s.setOnCpu n true).states
    rw [states, update_self]
    refine ⟨agrees.readyState, agrees.nodup, agrees.idle, ?_, by simp [awake]⟩
    refine ⟨runs, (s.cpu c).current, rfl, other.symm, ?_⟩
    rcases left with ⟨_, parked⟩ | ⟨leaves, fits⟩
    · exact .inl parked
    · exact .inr ⟨reason, leaves, fits⟩
  · intro u
    have before := ordered.onCpu u
    by_cases same : u = n
    · rw [same]
      simp only [setCpu, setOnCpu, update_self, true_iff]
      exact ⟨c, .inl (by simp)⟩
    · simp only [setCpu, setOnCpu, update_of_ne same, before]
      constructor
      · rintro ⟨d, stack⟩
        refine ⟨d, ?_⟩
        by_cases here : d = c
        · rw [here] at stack ⊢
          simp only [update_self]
          rcases stack with current | previous
          · exact .inr (congrArg some current)
          · rw [noPrevious] at previous
            cases previous
        · rw [update_of_ne here]
          exact stack
      · rintro ⟨d, stack⟩
        refine ⟨d, ?_⟩
        by_cases here : d = c
        · rw [here] at stack ⊢
          simp only [update_self] at stack
          rcases stack with current | previous
          · exact absurd current.symm same
          · exact .inl (Option.some.inj previous)
        · rw [update_of_ne here] at stack
          exact stack
  · intro u ready
    right
    refine ⟨(congrFun states u).symm.trans ready, ?_⟩
    intro keeps
    simp only [setCpu, update_self]
    left
    simpa [Cpu.Keeps, pc] using keeps

theorem Machine.Ordered.claim (pc : (s.cpu c).pc = .switched) :
    ((s.setOnCpu (s.cpu c).current true).goto c .claimed).Ordered := by
  have agrees := ordered.agrees c
  have place := agrees.place
  simp only [Cpu.Place, pc] at place
  have set := (ordered.onCpu _).mpr ⟨c, .inl rfl⟩
  have threads : update s.thread (s.cpu c).current
      ⟨(s.thread (s.cpu c).current).state, true⟩ = s.thread := by
    rw [← set]
    exact update_eq_self _ _
  refine ordered.of_goto awake rfl threads (.inl rfl) (fun u keeps => ?_) place
  simpa [Cpu.Keeps, pc] using keeps

theorem Machine.Ordered.release (pc : (s.cpu c).pc = .claimed) : (s.release c).Ordered := by
  have agrees := ordered.agrees c
  have place := agrees.place
  simp only [Cpu.Place, pc] at place
  obtain ⟨runs, p, previous, other, _⟩ := place
  rw [Machine.release, previous]
  have states : (s.setOnCpu p false).states = s.states := states_of_flag rfl
  have alone := ordered.alone (.inr (.inr (.inl previous)))
  refine ordered.of_step (c := c) (fun d apart => update_of_ne apart _ _) ?_ ?_ ?_ ?_ ?_
  · intro d apart u _
    exact .inl (congrFun states u)
  · intro u now
    left
    simp only [setCpu, update_self] at now
    rcases now with h | h | h | h | h
    · exact .inl h
    · exact .inr (.inl h)
    · cases h
    · cases h
    · exact .inr (.inr (.inr (.inr h)))
  · show Cpu.Agrees (update s.cpu c _ c) (s.setOnCpu p false).states
    rw [states, update_self]
    exact ⟨agrees.readyState, agrees.nodup, agrees.idle, ⟨runs, rfl, other⟩, by simp [awake]⟩
  · intro u
    have before := ordered.onCpu u
    by_cases same : u = p
    · rw [same]
      simp only [setCpu, setOnCpu, update_self]
      constructor
      · intro set
        cases set
      · rintro ⟨d, stack⟩
        exfalso
        by_cases here : d = c
        · rw [here, update_self] at stack
          rcases stack with current | none
          · exact other current.symm
          · cases none
        · rw [update_of_ne here] at stack
          apply alone d here
          rcases stack with current | previous
          · exact .inl current
          · exact .inr (.inr (.inl previous))
    · simp only [setCpu, setOnCpu, update_of_ne same, before]
      apply exists_congr
      intro d
      by_cases here : d = c
      · rw [here, update_self, previous]
        simp [Ne.symm same]
      · rw [update_of_ne here]
  · intro u ready
    right
    refine ⟨(congrFun states u).symm.trans ready, ?_⟩
    intro keeps
    simp only [setCpu, update_self]
    left
    simpa [Cpu.Keeps, pc] using keeps

theorem Machine.Ordered.enqueuePrevious (pc : (s.cpu c).pc = .released t)
    (inTime : s.states t = .waking → (s.thread t).onCpu = false) :
    ((s.tryEnqueueWoken c t).goto c .finishing).Ordered := by
  have agrees := ordered.agrees c
  have place := agrees.place
  simp only [Cpu.Place, pc] at place
  by_cases waking : (s.thread t).state = .waking
  · have free := ordered.free_of_waking waking (inTime waking)
    rw [tryEnqueueWoken, if_pos waking]
    refine ordered.of_link (t := t) .finishing none ?_ rfl (by simp [states, waking])
      (fun d _ => free d) (fun same => free c (.inr (.inl same))) (.inl rfl) ?_ (by simp) ?_
    · simp [goto, setCpu, setState, awake]
    · intro u keeps
      simp [pc] at keeps
    · refine ⟨?_, place.2.1⟩
      rw [update_of_ne place.2.2.symm]
      exact place.1
  · rw [tryEnqueueWoken, if_neg waking]
    refine ordered.of_goto awake rfl rfl (.inl rfl) (fun u keeps => ?_) ⟨place.1, place.2.1⟩
    simpa [Cpu.Keeps, pc] using keeps

end

theorem ThreadState.wake_ok {before result : ThreadState}
    (ok : liftPanic before.wake = .ok result) :
    (before = .blocking ∧ result = .running) ∨ (before = .blocked ∧ result = .waking) := by
  cases before <;> simp_all [wake, transitionTo, liftPanic]

variable [DecidableEq ω]

theorem Machine.Ordered.beginWait (ordered : s.Ordered) (awake : (s.cpu c).wake = none)
    (pc : (s.cpu c).pc = .running) (step : s.beginWait c q = .ok s') : s'.Ordered := by
  have place := (ordered.agrees c).place
  simp only [Cpu.Place, pc] at place
  rw [Machine.beginWait] at step
  split at step
  · cases step
  · split at step
    · cases step
    case isFalse notIdle =>
      rw [bind_eq_ok] at step
      obtain ⟨state, moved, made⟩ := step
      cases transitionTo_ok moved
      cases made
      apply ordered.of_current awake (.waiting q) rfl rfl
      · rw [place.1]
        decide
      · decide
      · intro same
        exact absurd same.symm notIdle
      · exact .inl rfl
      · intro u keeps
        simpa [Cpu.Keeps, pc] using keeps
      · simp [Cpu.Place, place.2]

theorem Machine.Ordered.wake (ordered : s.Ordered) (awake : (s.cpu c).wake = none)
    (step : s.wake c q = .ok s') : s'.Ordered := by
  have agrees := ordered.agrees c
  rw [Machine.wake] at step
  split at step
  · cases step
  case isFalse enabled =>
    have can : canWake (s.cpu c).pc = true := by simpa using fun h => enabled (.inr h)
    split at step
    case h_1 =>
      cases step
      exact ordered
    case h_2 t rest queue =>
      rw [bind_eq_ok] at step
      obtain ⟨state, moved, made⟩ := step
      have woken := wake_ok moved
      have notReady : state ≠ .ready := by
        rcases woken with ⟨_, is⟩ | ⟨_, is⟩ <;> rw [is] <;> decide
      -- The two results differ in the wakeup in progress only.
      obtain ⟨wake, cpus, threads, waking⟩ : ∃ wake,
          s'.cpu = update s.cpu c { s.cpu c with wake := wake } ∧
          s'.thread = update s.thread t ⟨state, (s.thread t).onCpu⟩ ∧
          ∀ w, wake = some w →
            w.thread ≠ (s.cpu c).current ∧ (s.cpu c).previous ≠ some w.thread := by
        split at made
        case isTrue is =>
          cases made
          refine ⟨some (.woken q t), rfl, rfl, ?_⟩
          intro w same
          cases same
          have stack := agrees.of_canWake can
          refine ⟨?_, by simp [stack.2]⟩
          intro current
          rcases woken with ⟨_, other⟩ | ⟨blocked, _⟩
          · rw [is] at other
            cases other
          · apply stack.1
            rw [← current]
            exact blocked
        case isFalse =>
          cases made
          refine ⟨none, ?_, rfl, by simp⟩
          rw [← awake]
          exact (update_eq_self _ _).symm
      have states := states_of_update threads
      have change : ∀ u, Woken (s.states u) (s'.states u) := by
        intro u
        rw [states]
        by_cases here : u = t
        · rw [here, update_self]
          exact .inr woken
        · rw [update_of_ne here]
          exact .inl rfl
      have here : s'.cpu c = { s.cpu c with wake := wake } := by rw [cpus, update_self]
      have others : ∀ d ≠ c, s'.cpu d = s.cpu d := by
        intro d apart
        rw [cpus, update_of_ne apart]
      refine ordered.of_step others (fun d _ u _ => change u) ?_ ?_ ?_ ?_
      · intro u now
        rw [here] at now
        exact .inl now
      · rw [here]
        exact { agrees.of_woken fun u _ => change u with wake := waking }
      · apply ordered.onCpu_of_same others
        · rw [here]
        · rw [here]
        · intro u
          by_cases same : u = t
          · simp [threads, same]
          · simp [threads, same]
      · intro u ready
        right
        rw [here]
        refine ⟨?_, fun keeps => keeps⟩
        rw [states] at ready
        by_cases same : u = t
        · rw [same, update_self] at ready
          exact absurd ready notReady
        · rw [update_of_ne same] at ready
          exact ready

theorem Machine.Ordered.enqueueWoken (ordered : s.Ordered)
    (inTime : s.states t = .waking → (s.thread t).onCpu = false) :
    ((s.tryEnqueueWoken c t).endWake c q).Ordered := by
  by_cases waking : (s.thread t).state = .waking
  · rw [tryEnqueueWoken, if_pos waking]
    refine ordered.of_link_free (t := t) (c := c) none ?_ rfl (by simp [states, waking])
      (ordered.free_of_waking waking (inTime waking)) (by simp)
    simp [endWake, setCpu, setState]
  · rw [tryEnqueueWoken, if_neg waking]
    exact ordered.of_wake none rfl rfl (by simp)

def Machine.late (s : Machine ρ τ ω) (t : τ) : Bool :=
  (s.thread t).state == .waking && (s.thread t).onCpu

/-- A waker that read `on_cpu` as false, or a switch that cleared it, comes to the ready queue after
the thread has run, blocked and been woken again on another CPU. -/
def Machine.stale (s : Machine ρ τ ω) (c : ρ) (move : Move τ ω) : Bool :=
  match (s.cpu c).wake, (s.cpu c).pc, move with
  | some (.offCpu _ t), _, .enqueueWoken => s.late t
  | none, .released t, .enqueuePrevious => s.late t
  | _, _, _ => false

theorem Machine.Ordered.apply (ordered : s.Ordered) {move : Move τ ω}
    (inTime : s.stale c move = false) (step : s.apply c move = .ok s') : s'.Ordered := by
  have onTime : ∀ t, s.late t = false → s.states t = .waking → (s.thread t).onCpu = false := by
    intro t early waking
    have waking : (s.thread t).state = .waking := waking
    simpa [late, waking] using early
  rw [Machine.apply] at step
  cases wake : (s.cpu c).wake with
  | some w =>
    rw [wake] at step
    have apart := (ordered.agrees c).wake w wake
    cases w with
    | woken q t =>
      simp only at step
      split at step
      · split at step
        · cases step
          exact ordered.of_wake none rfl rfl (by simp)
        · cases step
          refine ordered.of_wake (some (.offCpu q t)) rfl rfl ?_
          intro w same
          cases same
          exact apart
      · cases step
    | offCpu q t =>
      simp only at step
      split at step
      case isTrue is =>
        cases step
        apply ordered.enqueueWoken
        apply onTime
        simpa [stale, wake, is] using inTime
      case isFalse => cases step
  | none =>
    rw [wake] at step
    have place := (ordered.agrees c).place
    unfold Cpu.Place at place
    cases pc : (s.cpu c).pc with
    | running =>
      rw [pc] at step place
      cases move with
      | start t =>
        simp only [applyPc] at step
        split at step
        case isTrue was => exact ordered.start wake was step
        case isFalse => cases step
      | beginWait q => exact ordered.beginWait wake pc step
      | beginExit =>
        simp only [applyPc] at step
        split at step
        · cases step
        case isFalse notIdle =>
          rw [bind_eq_ok] at step
          obtain ⟨state, moved, made⟩ := step
          cases transitionTo_ok moved
          cases made
          exact ordered.beginExit wake pc notIdle
      | pickNext =>
        have fits : Leave.yield.Fits (s.states (s.cpu c).current) := place.1
        refine ordered.pickNext wake ⟨fits, place.2⟩ ?_ step
        intro u keeps
        simpa [Cpu.Keeps, pc] using keeps
      | wake q => exact ordered.wake wake step
      | _ => cases step
    | waiting q =>
      rw [pc] at step
      cases move with
      | commitWait => exact ordered.commitWait wake pc step
      | wake q => exact ordered.wake wake step
      | _ => cases step
    | leaving reason =>
      rw [pc] at step place
      cases move with
      | pickNext =>
        refine ordered.pickNext wake place.2 ?_ step
        intro u keeps
        simpa [Cpu.Keeps, pc] using keeps
      | wake q => exact ordered.wake wake step
      | _ => cases step
    | picked reason next =>
      rw [pc] at step
      cases move with
      | park =>
        cases reason with
        | yield => exact ordered.park wake pc step
        | block | exit => cases step
      | commitNext =>
        cases reason with
        | block | exit => exact ordered.commitNext wake (.inl ⟨pc, by decide⟩) step
        | yield => cases step
      | wake q =>
        cases reason <;> exact ordered.wake wake step
      | _ => cases reason <;> cases step
    | parked next =>
      rw [pc] at step
      cases move with
      | commitNext => exact ordered.commitNext wake (.inr ⟨pc, rfl⟩) step
      | wake q => exact ordered.wake wake step
      | _ => cases step
    | committed reason next =>
      rw [pc] at step
      cases move with
      | prepare => exact ordered.prepare wake pc step
      | wake q => exact ordered.wake wake step
      | _ => cases step
    | switched =>
      rw [pc] at step
      cases move with
      | claim =>
        cases step
        exact ordered.claim wake pc
      | wake q => exact ordered.wake wake step
      | _ => cases step
    | claimed =>
      rw [pc] at step
      cases move with
      | release =>
        cases step
        exact ordered.release wake pc
      | wake q => exact ordered.wake wake step
      | _ => cases step
    | released t =>
      rw [pc] at step
      cases move with
      | enqueuePrevious =>
        cases step
        apply ordered.enqueuePrevious wake pc
        apply onTime
        simpa [stale, wake, pc] using inTime
      | wake q => exact ordered.wake wake step
      | _ => cases step
    | finishing =>
      rw [pc] at step
      cases move with
      | finish => exact ordered.finish wake pc step
      | wake q => exact ordered.wake wake step
      | _ => cases step

/-- What the scheduler promises holds at every moment of the steps. A step that is not enabled is
not taken, and the kernel stops at a panic. -/
def Machine.AlwaysRight : List (ρ × Move τ ω) → Machine ρ τ ω → Prop
  | [], s => s.Right
  | (c, move) :: rest, s => s.Right ∧
    match s.apply c move with
    | .ok after => AlwaysRight rest after
    | .error .disabled => AlwaysRight rest s
    | .error (.panic _) => True

def Machine.neverStale : List (ρ × Move τ ω) → Machine ρ τ ω → Bool
  | [], _ => true
  | (c, move) :: rest, s =>
    match s.apply c move with
    | .ok after => !s.stale c move && neverStale rest after
    | .error .disabled => neverStale rest s
    | .error (.panic _) => true

theorem Machine.AlwaysRight.right {moves : List (ρ × Move τ ω)} (always : s.AlwaysRight moves) :
    s.Right := by
  cases moves with
  | nil => exact always
  | cons step rest => exact always.1

omit [DecidableEq ρ] [DecidableEq ω] in
/-- A late thread that enters a ready queue is on another CPU as well. -/
theorem Machine.Ordered.not_right_of_late (ordered : s.Ordered) (late : s.late t = true)
    (current : (s.cpu c).current ≠ t) (previous : (s.cpu c).previous ≠ some t)
    (ready : t ∈ (s'.cpu c).ready) (others : ∀ d ≠ c, s'.cpu d = s.cpu d)
    (flag : (s'.thread t).onCpu = (s.thread t).onCpu) : ¬ s'.Right := by
  simp only [Machine.late, Bool.and_eq_true] at late
  obtain ⟨d, stack⟩ := (ordered.onCpu t).mp late.2
  have other : d ≠ c := by
    intro same
    rw [same] at stack
    rcases stack with h | h
    · exact current h
    · exact previous h
  intro right
  apply other
  refine (right.apart c d t ready ⟨flag.trans late.2, ?_⟩).symm
  rw [others d other]
  exact stack

/-- A stale wakeup puts a thread into two places. -/
theorem Machine.Ordered.not_right_of_stale (ordered : s.Ordered) {move : Move τ ω}
    (stale : s.stale c move = true) (step : s.apply c move = .ok s') : ¬ s'.Right := by
  have agrees := ordered.agrees c
  cases wake : (s.cpu c).wake with
  | some w =>
    have apart := agrees.wake w wake
    cases w with
    | woken q t => simp [Machine.stale, wake] at stale
    | offCpu q t =>
      cases move with
      | enqueueWoken =>
        have late : s.late t = true := by simpa [Machine.stale, wake] using stale
        have waking : (s.thread t).state = .waking := by
          simp only [Machine.late, Bool.and_eq_true, beq_iff_eq] at late
          exact late.1
        simp only [Machine.apply, wake, if_true, tryEnqueueWoken, if_pos waking] at step
        cases step
        apply ordered.not_right_of_late (c := c) late apart.1.symm apart.2
        · simp [endWake, setCpu]
        · intro d other
          simp [endWake, setCpu, setState, other]
        · simp [endWake, setCpu, setState]
      | _ => simp [Machine.stale, wake] at stale
  | none =>
    cases pc : (s.cpu c).pc with
    | released t =>
      cases move with
      | enqueuePrevious =>
        have place := agrees.place
        simp only [Cpu.Place, pc] at place
        have late : s.late t = true := by simpa [Machine.stale, wake, pc] using stale
        have waking : (s.thread t).state = .waking := by
          simp only [Machine.late, Bool.and_eq_true, beq_iff_eq] at late
          exact late.1
        simp only [Machine.apply, wake, pc, applyPc, tryEnqueueWoken, if_pos waking] at step
        cases step
        apply ordered.not_right_of_late (c := c) late place.2.2.symm (by simp [place.2.1])
        · simp [goto, setCpu]
        · intro d other
          simp [goto, setCpu, setState, other]
        · simp [goto, setCpu, setState]
      | _ => simp [Machine.stale, wake, pc] at stale
    | _ => simp [Machine.stale, wake, pc] at stale

/-- Over every run from an ordered state. -/
theorem Machine.Ordered.alwaysRight_iff (ordered : s.Ordered) (moves : List (ρ × Move τ ω)) :
    s.AlwaysRight moves ↔ s.neverStale moves = true := by
  induction moves generalizing s with
  | nil => simp [AlwaysRight, neverStale, ordered.right]
  | cons step rest ih =>
    obtain ⟨c, move⟩ := step
    simp only [AlwaysRight, neverStale, ordered.right, true_and]
    cases result : s.apply c move with
    | error halt =>
      cases halt with
      | disabled => exact ih ordered
      | panic reason => simp
    | ok after =>
      simp only [Bool.and_eq_true, Bool.not_eq_true']
      cases stale : s.stale c move with
      | false => simpa using ih (ordered.apply stale result)
      | true =>
        have broken := ordered.not_right_of_stale stale result
        constructor
        · intro always
          exact absurd always.right broken
        · intro claims
          cases claims.1

omit [DecidableEq ρ] [DecidableEq ω] in
/-- The state after startup satisfies the invariant. -/
theorem Machine.initial_ordered [Fintype ρ] (startup : Startup ρ τ) :
    (initial startup : Machine ρ τ ω).Ordered := by
  have boot : ∀ c, (initial startup : Machine ρ τ ω).thread (startup.boot c) =
      ⟨.running, true⟩ := by
    intro c
    simp only [initial]
    rw [if_pos ⟨c, rfl⟩]
  have idle : ∀ c, (initial startup : Machine ρ τ ω).thread (startup.idle c) = ⟨.idle, false⟩ := by
    intro c
    simp only [initial]
    rw [if_neg (fun ⟨d, same⟩ => startup.apart d c same), if_pos ⟨c, rfl⟩]
  constructor
  · intro c d t first second
    simp only [initial, Cpu.Has, CpuPc.next, not_mem_nil, reduceCtorEq, or_false]
      at first second
    rcases first with first | first <;> rcases second with second | second
    · exact startup.boot_injective (first.trans second.symm)
    · exact absurd (first.trans second.symm) (startup.apart c d)
    · exact absurd (second.trans first.symm) (startup.apart d c)
    · exact startup.idle_injective (first.trans second.symm)
  · intro c
    constructor
    · simp [initial]
    · simp [initial]
    · left
      exact congrArg Thread.state (idle c)
    · exact ⟨congrArg Thread.state (boot c), rfl⟩
    · simp [initial]
  · intro t
    simp only [initial, reduceCtorEq, or_false]
    constructor
    · intro set
      by_contra none
      rw [if_neg none] at set
      split at set <;> cases set
    · intro booted
      rw [if_pos booted]
  · intro t ready
    simp only [states, initial] at ready
    split at ready
    · cases ready
    · split at ready <;> cases ready

/-- With any number of CPUs, threads and wait queues, after any steps in any order: a thread in a
ready queue is on no other CPU, no thread is current on two CPUs and every ready thread is in one
queue once, exactly as long as no thread is linked by `try_enqueue_woken` while it is `Waking` and
still `on_cpu`. -/
theorem scheduler_right_iff [Fintype ρ] (startup : Startup ρ τ) (moves : List (ρ × Move τ ω)) :
    (initial startup : Machine ρ τ ω).AlwaysRight moves ↔
      (initial startup : Machine ρ τ ω).neverStale moves = true :=
  (initial_ordered startup).alwaysRight_iff moves

omit [DecidableEq ρ] [DecidableEq τ] [DecidableEq ω] in
theorem Machine.Ordered.not_stale [Subsingleton ρ] (ordered : s.Ordered) (move : Move τ ω) :
    s.stale c move = false := by
  have agrees := ordered.agrees c
  have onTime (t : τ) (late : s.late t = true) (current : (s.cpu c).current ≠ t)
      (previous : (s.cpu c).previous ≠ some t) : False := by
    simp only [Machine.late, Bool.and_eq_true] at late
    obtain ⟨d, stack⟩ := (ordered.onCpu t).mp late.2
    rw [Subsingleton.elim d c] at stack
    exact stack.elim current previous
  by_contra stale
  rw [Bool.not_eq_false] at stale
  unfold Machine.stale at stale
  split at stale
  case h_1 q t wake =>
    have apart := agrees.wake _ wake
    exact onTime t stale apart.1.symm apart.2
  case h_2 t wake pc =>
    have place := agrees.place
    simp only [Cpu.Place, pc] at place
    exact onTime t stale place.2.2.symm (by simp [place.2.1])
  case h_3 => cases stale

/-- With one CPU every run is right. -/
theorem Machine.Ordered.alwaysRight [Subsingleton ρ] (ordered : s.Ordered)
    (moves : List (ρ × Move τ ω)) : s.AlwaysRight moves := by
  induction moves generalizing s with
  | nil => exact ordered.right
  | cons step rest ih =>
    refine ⟨ordered.right, ?_⟩
    cases result : s.apply step.1 step.2 with
    | ok after => exact ih (ordered.apply (ordered.not_stale _) result)
    | error halt =>
      cases halt with
      | disabled => exact ih ordered
      | panic => trivial

/-- On one CPU, after any steps in any order, every ready thread is in the queue once, or was just
taken from it. -/
theorem one_cpu_right (startup : Startup Unit τ) (moves : List (Unit × Move τ ω)) :
    (initial startup : Machine Unit τ ω).AlwaysRight moves :=
  (initial_ordered startup).alwaysRight moves

def threeCpus : Startup (Fin 3) (Fin 6) where
  boot c := ⟨c, by omega⟩
  idle c := ⟨c + 3, by omega⟩
  boot_injective := by decide
  idle_injective := by decide
  apart := by decide

/-- Thread 0 blocks on CPU 0 and is woken by CPU 1 before CPU 0 has finished the switch. CPU 1 runs
it, it blocks again and is woken by CPU 2 while CPU 1 still has it. Then CPU 0 finishes its switch
and runs it too. -/
def lateSwitch : List (Fin 3 × Move (Fin 6) Unit) :=
  [(0, .beginWait ()), (0, .commitWait), (0, .pickNext), (0, .commitNext), (0, .prepare),
    (0, .claim), (0, .release),
    (1, .wake ()), (1, .load), (1, .enqueueWoken), (1, .pickNext), (1, .park), (1, .commitNext),
    (1, .prepare), (1, .claim), (1, .release), (1, .enqueuePrevious), (1, .finish),
    (1, .beginWait ()), (1, .commitWait),
    (2, .wake ()), (2, .load),
    (0, .enqueuePrevious), (0, .finish), (0, .pickNext), (0, .park), (0, .commitNext),
    (0, .prepare)]

/-- The thread is current on two CPUs at the end. -/
theorem thread_current_on_two_cpus :
    (lateSwitch.foldlM (fun (s : Machine (Fin 3) (Fin 6) Unit) step => s.apply step.1 step.2)
      (initial threeCpus)).map
        (fun s => ((s.cpu 0).current, (s.cpu 1).current)) = .ok (0, 0) ∧
    ¬ (initial threeCpus : Machine (Fin 3) (Fin 6) Unit).AlwaysRight lateSwitch := by
  constructor
  · decide +kernel
  · rw [(initial_ordered threeCpus).alwaysRight_iff]
    decide +kernel

end Horizon.Threads
