import Mathlib

/-!
# Chains through memory

A chain of nodes in which the word stored at each node is the next one. The last word is the stop
of the chain, which need not be a null pointer.
-/

namespace Horizon.FreeChain

variable {α : Type*} {mem : α → α} {stop head node word : α} {nodes : List α}

/-- From `head` the memory leads through the nodes in order and ends at `stop`. -/
def Chain (mem : α → α) (stop : α) : α → List α → Prop
  | head, [] => head = stop
  | head, node :: rest => head = node ∧ Chain mem stop (mem node) rest

@[simp] theorem chain_nil : Chain mem stop head [] ↔ head = stop := Iff.rfl

@[simp] theorem chain_cons :
    Chain mem stop head (node :: nodes) ↔ head = node ∧ Chain mem stop (mem node) nodes := Iff.rfl

variable [DecidableEq α]

theorem Chain.update (chain : Chain mem stop head nodes) (outside : node ∉ nodes) :
    Chain (Function.update mem node word) stop head nodes := by
  induction nodes generalizing head with
  | nil => exact chain
  | cons first rest ih =>
    have distinct : first ≠ node := fun same => outside (same ▸ List.mem_cons_self)
    refine ⟨chain.1, ?_⟩
    rw [Function.update_of_ne distinct]
    exact ih chain.2 fun inside => outside (List.mem_cons_of_mem _ inside)

theorem Chain.push (chain : Chain mem stop head nodes) (outside : node ∉ nodes) :
    Chain (Function.update mem node head) stop node (node :: nodes) := by
  refine ⟨rfl, ?_⟩
  rw [Function.update_self]
  exact chain.update outside

end Horizon.FreeChain
