import Mathlib.Data.List.Iterate
import Mathlib.Data.List.Nodup
import Mathlib.Data.List.Perm.Subperm
import Mathlib.Data.Nat.ModEq

/-!
# Walks that wrap around

A walk through `0, …, n - 1` with a fixed stride, taken back by `n` when it leaves the range. When the
stride has no factor in common with `n`, the first `n` stops are all the indices.
-/

namespace Lib
open List Nat
variable {n stride x : ℕ}

def wrapNext (n stride x : ℕ) : ℕ := if x + stride ≥ n then x + stride - n else x + stride

section
variable (hx : x < n) (hs : stride ≤ n)
include hx hs

theorem wrapNext_eq : wrapNext n stride x = (x + stride) % n := by
  unfold wrapNext
  split_ifs with h
  · rw [mod_eq_sub_mod h, mod_eq_of_lt (by omega)]
  · rw [mod_eq_of_lt (by omega)]

theorem wrapNext_lt : wrapNext n stride x < n := by
  unfold wrapNext
  split_ifs <;> omega

theorem iterate_wrapNext (k : ℕ) : (wrapNext n stride)^[k] x = (x + k * stride) % n := by
  induction k with
  | zero => simp [mod_eq_of_lt hx]
  | succ k ih =>
    rw [Function.iterate_succ_apply', ih, wrapNext_eq (mod_lt _ (by omega)) hs, mod_add_mod,
      succ_mul, Nat.add_assoc]

theorem iterate_wrapNext_inj {j k : ℕ} (hcop : n.Coprime stride)
    (hj : j < n) (hk : k < n) (h : (wrapNext n stride)^[j] x = (wrapNext n stride)^[k] x) : j = k := by
  rw [iterate_wrapNext hx hs, iterate_wrapNext hx hs] at h
  have hmul : j * stride ≡ k * stride [MOD n] := Nat.ModEq.add_left_cancel' x h
  exact (ModEq.cancel_right_of_coprime hcop hmul).eq_of_lt_of_lt hj hk

end

theorem range_map_perm {f : ℕ → ℕ} (hlt : ∀ k < n, f k < n)
    (hinj : ∀ j < n, ∀ k < n, f j = f k → j = k) : ((List.range n).map f).Perm (List.range n) := by
  have hnodup : ((List.range n).map f).Nodup :=
    Nodup.map_on (fun j hj k hk h => hinj j (mem_range.1 hj) k (mem_range.1 hk) h) nodup_range
  refine (subperm_of_subset hnodup fun y hy => ?_).perm_of_length_le (by simp)
  obtain ⟨k, hk, rfl⟩ := mem_map.1 hy
  exact mem_range.2 (hlt k (mem_range.1 hk))

/-- A walk whose stride is coprime to the length of the range stops once at every index. -/
theorem iterate_wrapNext_perm (hx : x < n) (hs : stride ≤ n) (hcop : n.Coprime stride) :
    (List.iterate (wrapNext n stride) x n).Perm (List.range n) := by
  rw [← range_map_iterate]
  refine range_map_perm (fun k _ => ?_) fun j hj k hk h => iterate_wrapNext_inj hx hs hcop hj hk h
  rw [iterate_wrapNext hx hs]
  exact mod_lt _ (by omega)

theorem iterate_eq_of_lt {f g : ℕ → ℕ} (h : ∀ x < n, f x = g x) (hg : ∀ x < n, g x < n) (k : ℕ)
    (hx : x < n) : List.iterate f x k = List.iterate g x k := by
  induction k generalizing x with
  | zero => rfl
  | succ k ih => rw [List.iterate, List.iterate, h x hx, ih (hg x hx)]

end Lib
