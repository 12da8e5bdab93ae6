import Mathlib

/-!
# Locks and lists against their holders

A table of locks names the agent that has each lock; every agent says of itself which lock it has.
The two agree through taking and dropping. So do lists of agents with the place of each agent.
-/

namespace Horizon.Ownership

open Function

variable {Key Agent : Type*} {owner : Key → Option Agent} {holds place : Agent → Option Key}
  {members : Key → List Agent} {key : Key} {agent : Agent} {value : Option Key}

/-- The table names an agent for exactly the lock the agent has. -/
def Owned (owner : Key → Option Agent) (holds : Agent → Option Key) : Prop :=
  ∀ key agent, owner key = some agent ↔ holds agent = some key

/-- Each list has the agents that are at its place, once. -/
structure Listed (members : Key → List Agent) (place : Agent → Option Key) : Prop where
  nodup : ∀ key, (members key).Nodup
  mem_iff : ∀ key agent, agent ∈ members key ↔ place agent = some key

variable [DecidableEq Agent]

theorem Owned.keep (owned : Owned owner holds) (same : value = holds agent) :
    Owned owner (update holds agent value) := by
  rwa [same, update_eq_self]

theorem Listed.keep (listed : Listed members place) (same : value = place agent) :
    Listed members (update place agent value) := by
  rwa [same, update_eq_self]

variable [DecidableEq Key]

/-- An agent without a lock takes a free one. -/
theorem Owned.take (owned : Owned owner holds) (free : owner key = none)
    (without : holds agent = none) :
    Owned (update owner key (some agent)) (update holds agent (some key)) := by
  intro other someone
  have before := owned other someone
  by_cases there : other = key <;> by_cases same : someone = agent <;>
    simp_all [eq_comm]

/-- An agent drops its lock. -/
theorem Owned.drop (owned : Owned owner holds) (held : holds agent = some key) :
    Owned (update owner key none) (update holds agent none) := by
  intro other someone
  have before := owned other someone
  have owns := (owned key agent).mpr held
  by_cases there : other = key <;> by_cases same : someone = agent <;>
    simp_all [eq_comm]

/-- An agent that is on no list comes to the end of one. -/
theorem Listed.push (listed : Listed members place) (key : Key) (without : place agent = none) :
    Listed (update members key (members key ++ [agent])) (update place agent (some key)) where
  nodup other := by
    by_cases there : other = key
    · have absent : agent ∉ members key := by simp [listed.mem_iff, without]
      simpa [there, List.nodup_append] using
        ⟨listed.nodup key, fun someone member => ne_of_mem_of_not_mem member absent⟩
    · simpa [there] using listed.nodup other
  mem_iff other someone := by
    have before := listed.mem_iff other someone
    by_cases there : other = key <;> by_cases same : someone = agent <;>
      simp_all [eq_comm]

/-- The first agent leaves its list. -/
theorem Listed.pop (listed : Listed members place) {rest : List Agent}
    (first : members key = agent :: rest) :
    Listed (update members key rest) (update place agent none) where
  nodup other := by
    by_cases there : other = key
    · have nodup := listed.nodup key
      rw [first] at nodup
      simpa [there] using nodup.of_cons
    · simpa [there] using listed.nodup other
  mem_iff other someone := by
    have nodup := listed.nodup key
    have before := listed.mem_iff other someone
    have here := (listed.mem_iff key agent).mp (by simp [first])
    rw [first, List.nodup_cons] at nodup
    by_cases there : other = key <;> by_cases same : someone = agent <;>
      simp_all [eq_comm]

end Horizon.Ownership
