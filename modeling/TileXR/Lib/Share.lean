import Mathlib.Algebra.BigOperators.Group.Finset.Basic
import Mathlib.Algebra.Order.BigOperators.Group.Finset
import Mathlib.Algebra.Order.Field.Rat
import Mathlib.Algebra.Order.Field.Basic

/-!
# Dealing out servers

Each item of a finite set has some work and a number of servers that share it. Servers dealt out one at
a time, always to an item with the largest load, are dealt out as well as possible: no other way of
giving every item at least one server and using as many servers in all has a smaller largest load.
-/

namespace Lib

open Function (update)

variable {ι : Type*} {s : Finset ι} {work count : ι → ℕ}

def load (work count : ι → ℕ) (i : ι) : ℚ := work i / count i

/-- Taking a server away from an item would make its load at least the largest one there is. -/
def Balanced (s : Finset ι) (work count : ι → ℕ) : Prop :=
  ∀ j ∈ s, 1 < count j → ∀ i ∈ s, load work count i ≤ work j / (count j - 1 : ℚ)

theorem balanced_ones (s : Finset ι) (work : ι → ℕ) : Balanced s work fun _ => 1 :=
  fun _ _ h => absurd h (Nat.lt_irrefl 1)

theorem load_le_load {count' : ι → ℕ} {i : ι} (hpos : 0 < count i) (hle : count i ≤ count' i) :
    load work count' i ≤ load work count i :=
  div_le_div_of_nonneg_left (Nat.cast_nonneg _) (Nat.cast_pos.2 hpos) (Nat.cast_le.2 hle)

theorem Balanced.give [DecidableEq ι] (h : Balanced s work count) (hpos : ∀ i ∈ s, 0 < count i) {j : ι}
    (hj : ∀ i ∈ s, load work count i ≤ load work count j) : Balanced s work (update count j (count j + 1)) := by
  intro k hk hmore i hi
  have hless : load work (update count j (count j + 1)) i ≤ load work count i := by
    refine load_le_load (hpos i hi) ?_
    rcases eq_or_ne i j with rfl | hne
    · rw [Function.update_self]
      exact Nat.le_succ _
    · rw [Function.update_of_ne hne]
  refine hless.trans ?_
  rcases eq_or_ne k j with rfl | hne
  · rw [Function.update_self, Nat.cast_succ, add_sub_cancel_right]
    exact hj i hi
  · rw [Function.update_of_ne hne] at hmore ⊢
    exact h k hk hmore i hi

/-- A balanced deal has the smallest largest load among all deals of as many servers. -/
theorem Balanced.exists_load_le (h : Balanced s work count) {other : ι → ℕ} (hother : ∀ i ∈ s, 0 < other i)
    (hsum : ∑ i ∈ s, count i = ∑ i ∈ s, other i) {i : ι} (hi : i ∈ s) :
    ∃ j ∈ s, load work count i ≤ load work other j := by
  by_cases hless : ∃ j ∈ s, other j < count j
  · -- an item that the other deal gives less has at least the load of the worst item
    obtain ⟨j, hj, hlt⟩ := hless
    have hpos := hother j hj
    refine ⟨j, hj, (h j hj (by omega) i hi).trans ?_⟩
    have hle : (other j : ℚ) ≤ count j - 1 := by
      rw [le_sub_iff_add_le]
      exact_mod_cast hlt
    exact div_le_div_of_nonneg_left (Nat.cast_nonneg _) (Nat.cast_pos.2 hpos) hle
  · push Not at hless
    have heq := (Finset.sum_eq_sum_iff_of_le hless).1 hsum
    refine ⟨i, hi, ?_⟩
    rw [load, load, heq i hi]

end Lib
