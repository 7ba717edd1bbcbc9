/-
**Totals over a family of parties.**

A finite family of parties is a function from an index type to the state each of them is in.  A
weight on these states has a total over the family, and a step of one party changes it by the
difference of two weights.  With weights in the natural numbers this counts the parties in some kind
of state; with weights in the multisets it collects what they carry.
-/

import Mathlib

set_option autoImplicit false

namespace Family

variable {ι P M : Type*} [Fintype ι] [AddCommMonoid M]

/-- The sum of a weight over a family. -/
def total (w : P → M) (p : ι → P) : M := ∑ i, w (p i)

/-- A step of one party replaces its weight by another. -/
theorem total_update [DecidableEq ι] (w : P → M) (p : ι → P) (i : ι) (x : P) :
    total w (Function.update p i x) + w (p i) = total w p + w x := by
  have hcomp : ∀ j, w (Function.update p i x j) = Function.update (fun j => w (p j)) i (w x) j := by
    intro j
    by_cases hj : j = i
    · subst hj
      simp
    · simp [hj]
  have hrest : total w p = w (p i) + ∑ j ∈ Finset.univ \ {i}, w (p j) :=
    Finset.sum_eq_add_sum_sdiff_singleton_of_mem (Finset.mem_univ i) fun j => w (p j)
  unfold total at hrest ⊢
  simp only [hcomp]
  rw [Finset.sum_update_of_mem (Finset.mem_univ i), hrest]
  abel

theorem total_update_of_eq [DecidableEq ι] [IsRightCancelAdd M] {w : P → M} {p : ι → P} {i : ι}
    {x : P} (h : w x = w (p i)) : total w (Function.update p i x) = total w p := by
  have hstep := total_update w p i x
  rw [h] at hstep
  exact add_right_cancel hstep

theorem total_eq_zero {w : P → M} {p : ι → P} (h : ∀ i, w (p i) = 0) : total w p = 0 :=
  Finset.sum_eq_zero fun i _ => h i

theorem le_total (w : P → ℕ) (p : ι → P) (i : ι) : w (p i) ≤ total w p :=
  Finset.single_le_sum (f := fun i => w (p i)) (fun _ _ => Nat.zero_le _) (Finset.mem_univ i)

end Family
