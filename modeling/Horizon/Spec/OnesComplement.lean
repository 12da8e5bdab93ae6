import Mathlib.Algebra.BigOperators.Group.List.Basic
import Mathlib.Data.Nat.ModEq
/-!
# Sums of 16-bit words in ones' complement

Ones' complement addition carries around the end, so a sum is known by its residue modulo 65535 and
by whether it is zero. `canon` picks the word with that residue; every way to fold carries keeps it.
-/

namespace Horizon.OnesComplement

/-- Addition with the carry around the end. -/
def add (a b : Nat) : Nat := if a + b < 65536 then a + b else a + b - 65535

def sum (words : List Nat) : Nat := words.foldl add 0

/-- The 16-bit word that stands for `n`; zero only for zero. -/
def canon (n : Nat) : Nat := if n = 0 then 0 else (n - 1) % 65535 + 1

/-- The word with its two bytes exchanged. -/
def swap (word : Nat) : Nat := word % 256 * 256 + word / 256

variable {m n : Nat}

theorem canon_of_lt (word : n < 65536) : canon n = n := by
  unfold canon
  split <;> omega

theorem canon_lt (n : Nat) : canon n < 65536 := by
  unfold canon
  split <;> omega

theorem canon_eq_iff : canon m = canon n ↔ (m = 0 ↔ n = 0) ∧ m % 65535 = n % 65535 := by
  unfold canon
  split <;> split <;> omega

theorem complement_inj (same : 0xFFFF - canon m = 0xFFFF - canon n) : canon m = canon n := by
  have first := canon_lt m
  have second := canon_lt n
  omega

theorem canon_fold (n : Nat) : canon (n % 65536 + n / 65536) = canon n :=
  canon_eq_iff.mpr (by omega)

theorem canon_add (same : canon m = canon n) (k : Nat) : canon (m + k) = canon (n + k) := by
  have both := canon_eq_iff.mp same
  exact canon_eq_iff.mpr (by omega)

theorem canon_mul {k : Nat} (positive : 0 < k) (same : canon m = canon n) :
    canon (k * m) = canon (k * n) := by
  have both := canon_eq_iff.mp same
  refine canon_eq_iff.mpr ⟨?_, Nat.ModEq.mul_left k both.2⟩
  simp [positive.ne', both.1]

theorem canon_mul_256 (n : Nat) : canon (256 * n) = swap (canon n) := by
  have word := canon_lt n
  have residue := (canon_eq_iff.mp (canon_of_lt word)).2
  have zero := (canon_eq_iff.mp (canon_of_lt word)).1
  have swapped : swap (canon n) < 65536 := by
    unfold swap
    omega
  rw [← canon_of_lt swapped]
  refine canon_eq_iff.mpr ?_
  unfold swap
  omega

theorem sum_eq {words : List Nat} (small : ∀ word ∈ words, word < 65536) :
    sum words = canon words.sum := by
  have step : ∀ start < 65536, words.foldl add start = canon (start + words.sum) := by
    induction words with
    | nil => exact fun start word => (canon_of_lt word).symm
    | cons word rest ih =>
      intro start bound
      have next : word < 65536 := small word (by simp)
      have carried : add start word < 65536 := by
        unfold add
        split <;> omega
      have same : canon (add start word) = canon (start + word) := by
        refine canon_eq_iff.mpr ?_
        unfold add
        split <;> omega
      rw [List.foldl_cons, ih (fun w member => small w (by simp [member])) _ carried,
        List.sum_cons, ← Nat.add_assoc]
      exact canon_add same rest.sum
  rw [sum, step 0 (by decide), Nat.zero_add]

end Horizon.OnesComplement
