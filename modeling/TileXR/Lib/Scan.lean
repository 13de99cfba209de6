import Mathlib.Data.List.Basic
import Mathlib.Data.List.Range

/-!
# Skipping, collecting and cutting

A scan of a list that skips the first matches and collects up to a given number of the next ones, and
lists put together from consecutive pieces.
-/

namespace Lib
open List
variable {α β : Type*}

/-- One turn of a loop that skips `skip` matches and collects at most `count` of the next. The first
component counts the matches seen. -/
def scanStep (p : α → Bool) (skip count : ℕ) (scan : ℕ × List α) (x : α) : ℕ × List α :=
  if scan.2.length < count ∧ p x then
    if scan.1 < skip then (scan.1 + 1, scan.2) else (scan.1 + 1, scan.2 ++ [x])
  else scan

theorem foldl_scanStep (p : α → Bool) (skip count : ℕ) (l : List α) (scan : ℕ × List α) :
    (l.foldl (scanStep p skip count) scan).2 =
      scan.2 ++ ((l.filter p).drop (skip - scan.1)).take (count - scan.2.length) := by
  induction l generalizing scan with
  | nil => simp
  | cons x l ih =>
    rw [foldl_cons, ih]
    by_cases hfull : scan.2.length < count
    · by_cases hx : p x
      · by_cases hskip : scan.1 < skip
        · obtain ⟨k, hk⟩ : ∃ k, skip - scan.1 = k + 1 := ⟨skip - scan.1 - 1, by omega⟩
          simp only [scanStep, hfull, hx, and_self, if_true, hskip, filter_cons_of_pos]
          rw [hk, drop_succ_cons, show skip - (scan.1 + 1) = k by omega]
        · obtain ⟨k, hk⟩ : ∃ k, count - scan.2.length = k + 1 := ⟨count - scan.2.length - 1, by omega⟩
          simp only [scanStep, hfull, hx, and_self, if_true, hskip, if_false, filter_cons_of_pos,
            length_append, length_singleton, append_assoc]
          rw [show skip - (scan.1 + 1) = 0 by omega, show skip - scan.1 = 0 by omega, hk, drop_zero,
            drop_zero, take_succ_cons, show count - (scan.2.length + 1) = k by omega]
          rfl
      · simp only [scanStep, hx, Bool.false_eq_true, and_false, if_false, not_false_eq_true, filter_cons_of_neg]
    · simp only [scanStep, hfull, false_and, if_false]
      rw [show count - scan.2.length = 0 by omega, take_zero, take_zero]

/-- A match is found in the list of matches behind the matches before it. -/
theorem getElem?_filter_countP {p : α → Bool} {l : List α} {j : ℕ} {x : α} (hx : l[j]? = some x)
    (hp : p x = true) : (l.filter p)[(l.take j).countP p]? = some x := by
  obtain ⟨hj, rfl⟩ := List.getElem?_eq_some_iff.1 hx
  have hl : l = l.take j ++ l[j] :: l.drop (j + 1) := by
    rw [← drop_eq_getElem_cons hj, take_append_drop]
  conv_lhs => rw [hl]
  rw [filter_append, filter_cons_of_pos hp, countP_eq_length_filter]
  simp only [take_append, take_take, Nat.min_self, length_take, Nat.min_eq_left hj.le, Nat.sub_self, take_zero,
    append_nil, List.getElem?_append_right (Nat.le_refl _), List.getElem?_cons_zero]

/-- Of a list put together from a range of pieces only one piece is not empty. -/
theorem flatMap_range_eq {n k : ℕ} (f : ℕ → List β) (hk : k < n) (h : ∀ i, i ≠ k → f i = []) :
    (List.range n).flatMap f = f k := by
  induction n with
  | zero => omega
  | succ n ih =>
    rw [range_succ, flatMap_append, flatMap_singleton]
    rcases Nat.lt_or_ge k n with hlt | hge
    · rw [ih hlt, h n (by omega), append_nil]
    · obtain rfl : k = n := by omega
      have hnil : (List.range k).flatMap f = [] := by
        rw [flatMap_eq_nil_iff]
        exact fun i hi => h i (Nat.ne_of_lt (mem_range.1 hi))
      rw [hnil, nil_append]

theorem flatMap_pieces (l : List α) (size n : ℕ) :
    (List.range n).flatMap (fun i => (l.drop (i * size)).take size) = l.take (n * size) := by
  induction n with
  | zero => simp
  | succ n ih =>
    rw [range_succ, flatMap_append, ih, flatMap_singleton, Nat.succ_mul, take_add]

end Lib
