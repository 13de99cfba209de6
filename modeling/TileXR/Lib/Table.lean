import Mathlib.Algebra.BigOperators.Group.Finset.Piecewise
import Mathlib.Algebra.BigOperators.Intervals
import Mathlib.Algebra.Order.BigOperators.Group.Finset

/-!
# One- and two-dimensional counter tables

Arrays of counters as total functions, with the two updates `t[i] += n` and `t[i] -= n`, and what the
updates do to sums over a row or a column.
-/

namespace Lib

variable {α β : Type*} [DecidableEq α] [DecidableEq β]

/-- `f[a] += n`. -/
def add1 (f : α → ℕ) (a : α) (n : ℕ) : α → ℕ := Function.update f a (f a + n)

/-- `f[a] -= n`. -/
def sub1 (f : α → ℕ) (a : α) (n : ℕ) : α → ℕ := Function.update f a (f a - n)

/-- `f[a][b] += n`. -/
def add2 (f : α → β → ℕ) (a : α) (b : β) (n : ℕ) : α → β → ℕ :=
  Function.update f a (add1 (f a) b n)

/-- `f[a][b] -= n`. -/
def sub2 (f : α → β → ℕ) (a : α) (b : β) (n : ℕ) : α → β → ℕ :=
  Function.update f a (sub1 (f a) b n)

theorem add1_apply (f : α → ℕ) (a x : α) (n : ℕ) :
    add1 f a n x = f x + if x = a then n else 0 := by
  by_cases h : x = a
  · subst h; simp [add1]
  · simp [add1, h]

theorem sub1_apply (f : α → ℕ) (a x : α) (n : ℕ) :
    sub1 f a n x = f x - if x = a then n else 0 := by
  by_cases h : x = a
  · subst h; simp [sub1]
  · simp [sub1, h]

theorem add2_apply (f : α → β → ℕ) (a x : α) (b y : β) (n : ℕ) :
    add2 f a b n x y = f x y + if x = a ∧ y = b then n else 0 := by
  by_cases h : x = a
  · subst h; simp [add2, add1_apply]
  · simp [add2, h]

theorem sub2_apply (f : α → β → ℕ) (a x : α) (b y : β) (n : ℕ) :
    sub2 f a b n x y = f x y - if x = a ∧ y = b then n else 0 := by
  by_cases h : x = a
  · subst h; simp [sub2, sub1_apply]
  · simp [sub2, h]

/-- Adding to one entry adds to the sum over any set holding it. -/
theorem sum_add1 (f : α → ℕ) (a : α) (n : ℕ) (s : Finset α) :
    ∑ x ∈ s, add1 f a n x = ∑ x ∈ s, f x + if a ∈ s then n else 0 := by
  simp only [add1_apply, Finset.sum_add_distrib, Finset.sum_ite_eq']

theorem sum_sub1 (f : α → ℕ) (a : α) (n : ℕ) (s : Finset α) (hn : n ≤ f a) :
    ∑ x ∈ s, sub1 f a n x + (if a ∈ s then n else 0) = ∑ x ∈ s, f x := by
  rw [← Finset.sum_ite_eq' s a fun _ => n, ← Finset.sum_add_distrib]
  refine Finset.sum_congr rfl fun x _ => ?_
  rw [sub1_apply]
  split
  · rename_i h; subst h; omega
  · rfl

end Lib
