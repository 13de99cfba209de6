import Mathlib.Algebra.BigOperators.Intervals
import Mathlib.Algebra.Order.BigOperators.Group.Finset

/-!
# Consecutive blocks

Blocks of given sizes laid out one after the other from zero: where a block starts, that a position
inside a block determines the block, sizes rounded up to a multiple, and items shared in strides.
-/

namespace Lib
open Nat
variable {a a' padding : ℕ}

def blockStart (size : ℕ → ℕ) (g : ℕ) : ℕ := ∑ i ∈ Finset.range g, size i

variable {size : ℕ → ℕ} {g g' n : ℕ}

@[simp] theorem blockStart_zero : blockStart size 0 = 0 := rfl

theorem blockStart_succ : blockStart size (g + 1) = blockStart size g + size g :=
  Finset.sum_range_succ ..

theorem blockStart_mono (h : g ≤ g') : blockStart size g ≤ blockStart size g' :=
  Finset.sum_le_sum_of_subset (Finset.range_mono h)

theorem blockStart_add_le (size : ℕ → ℕ) (h : g < n) : blockStart size g + size g ≤ blockStart size n := by
  rw [← blockStart_succ]; exact blockStart_mono h

theorem block_unique {i i' : ℕ} (hi : i < size g) (hi' : i' < size g')
    (h : blockStart size g + i = blockStart size g' + i') : g = g' ∧ i = i' := by
  rcases lt_trichotomy g g' with hlt | rfl | hlt
  · have := blockStart_add_le size hlt; omega
  · exact ⟨rfl, by omega⟩
  · have := blockStart_add_le size hlt; omega

/-- A position before the end of some blocks lies in one of them. -/
theorem exists_block_add {x : ℕ} (h : x < blockStart size n) : ∃ g < n, ∃ i < size g, x = blockStart size g + i := by
  induction n with
  | zero => exact absurd h (Nat.not_lt_zero x)
  | succ n ih =>
    rw [blockStart_succ] at h
    rcases Nat.lt_or_ge x (blockStart size n) with hlt | hge
    · obtain ⟨g, hg, hi⟩ := ih hlt
      exact ⟨g, lt_succ_of_lt hg, hi⟩
    · exact ⟨n, lt_succ_self n, x - blockStart size n, by omega, by omega⟩

theorem row_unique {o o' size : ℕ} (ho : o < size) (ho' : o' < size)
    (h : a * size + o = a' * size + o') : a = a' ∧ o = o' := by
  have hdiv : ∀ b r, r < size → (b * size + r) / size = b := by
    intro b r hr
    rw [Nat.add_comm, add_mul_div_right _ _ (by omega), div_eq_of_lt hr, Nat.zero_add]
  obtain rfl : a = a' := by rw [← hdiv a o ho, h, hdiv a' o' ho']
  exact ⟨rfl, by omega⟩

theorem row_apart (size : ℕ) (h : a ≠ a') : a * size + size ≤ a' * size ∨ a' * size + size ≤ a * size := by
  rcases Nat.lt_or_gt_of_ne h with h | h
  · left; rw [← succ_mul]; exact Nat.mul_le_mul_right _ h
  · right; rw [← succ_mul]; exact Nat.mul_le_mul_right _ h

theorem row_le {n : ℕ} (size : ℕ) (h : a < n) : a * size + size ≤ n * size := by
  rw [← succ_mul]; exact Nat.mul_le_mul_right _ h

/-- `n` rounded up to a multiple of `padding`. -/
def roundUp (padding n : ℕ) : ℕ := (n + padding - 1) / padding * padding

@[simp] theorem roundUp_zero (h : 0 < padding) : roundUp padding 0 = 0 := by
  rw [roundUp, Nat.zero_add, div_eq_of_lt (by omega), Nat.zero_mul]

theorem le_roundUp {padding : ℕ} (h : 0 < padding) (n : ℕ) : n ≤ roundUp padding n := by
  have h1 := div_add_mod (n + padding - 1) padding
  have h2 := mod_lt (n + padding - 1) h
  rw [Nat.mul_comm] at h1
  rw [roundUp]; omega

theorem roundUp_mono {m n : ℕ} (h : m ≤ n) : roundUp padding m ≤ roundUp padding n :=
  Nat.mul_le_mul_right _ (Nat.div_le_div_right (by omega))

/-- Rounding up a positive number gives at least one multiple. -/
theorem padding_le_roundUp {n : ℕ} (h : 0 < padding) (hn : 0 < n) : padding ≤ roundUp padding n := by
  have : 1 ≤ (n + padding - 1) / padding := (Nat.one_le_div_iff h).2 (by omega)
  exact Nat.le_mul_of_pos_left _ this

theorem div_add_ite (n : ℕ) {w : ℕ} (hw : 0 < w) :
    (n / w + if n % w = 0 then 0 else 1) = (n + w - 1) / w := by
  have hn := mod_add_div n w
  have hlt := mod_lt n hw
  generalize n % w = r at hn hlt ⊢
  generalize n / w = q at hn ⊢
  subst hn
  split_ifs with h
  · rw [show r + w * q + w - 1 = w - 1 + w * q by omega, add_mul_div_left _ _ hw,
      div_eq_of_lt (by omega), Nat.add_comm]
  · rw [show r + w * q + w - 1 = r - 1 + w * (q + 1) by rw [mul_succ]; omega,
      add_mul_div_left _ _ hw, div_eq_of_lt (by omega), Nat.zero_add]

/-- Items shared by workers in strides: each is done by one worker in one round. -/
theorem stride_existsUnique {items cores item : ℕ} (hcores : 0 < cores) (hitem : item < items) :
    ∃! x : ℕ × ℕ, x.1 < cores ∧ x.2 < (items + cores - 1) / cores ∧ x.1 + x.2 * cores = item := by
  refine ⟨(item % cores, item / cores), ⟨mod_lt _ hcores, ?_, ?_⟩, fun x ⟨h1, _, h3⟩ => ?_⟩
  · rw [show items + cores - 1 = items - 1 + cores by omega, add_div_right _ hcores]
    exact lt_succ_of_le (Nat.div_le_div_right (by omega))
  · rw [Nat.mul_comm, mod_add_div]
  · subst h3
    ext
    · rw [add_mul_mod_self_right, mod_eq_of_lt h1]
    · rw [add_mul_div_right _ _ hcores, div_eq_of_lt h1, Nat.zero_add]

end Lib
