import Mathlib.Algebra.BigOperators.Group.Finset.Piecewise
import Mathlib.Algebra.BigOperators.Group.List.Basic
import Mathlib.Algebra.Order.BigOperators.Group.List
import Mathlib.Algebra.Order.Ring.Nat
import Mathlib.Data.List.Basic
import Mathlib.Data.Nat.Basic

/-!
# Chained transfer logs

A log of transfers, each moving a block of `count` consecutive items of a source to consecutive places
of a destination. The log is chained when every block starts, on both sides, where the blocks logged
before it end. A chained log is a bijection between the items sent and the places filled:
`Sends log a i b j` says that item `i` of source `a` goes to place `j` of destination `b`; it is a
function of `(a, i)`, injective, defined for every item below the source's total and onto the places
below the destination's total.
-/

namespace Lib
open List

variable {i j : ℕ}
variable {α β : Type*}

structure Transfer (α β : Type*) where
  src : α
  dst : β
  srcBegin : ℕ
  dstBegin : ℕ
  count : ℕ

/-- The same block, read from its destination. -/
def Transfer.swap (t : Transfer α β) : Transfer β α := ⟨t.dst, t.src, t.dstBegin, t.srcBegin, t.count⟩

def srcTotal [DecidableEq α] (log : List (Transfer α β)) (a : α) : ℕ :=
  (log.map fun t => if t.src = a then t.count else 0).sum

def dstTotal [DecidableEq β] (log : List (Transfer α β)) (b : β) : ℕ :=
  (log.map fun t => if t.dst = b then t.count else 0).sum

@[simp] theorem srcTotal_nil [DecidableEq α] (a : α) : srcTotal ([] : List (Transfer α β)) a = 0 := rfl

theorem srcTotal_snoc [DecidableEq α] (log : List (Transfer α β)) (t : Transfer α β) (a : α) :
    srcTotal (log ++ [t]) a = srcTotal log a + if t.src = a then t.count else 0 := by
  simp [srcTotal]

theorem dstTotal_snoc [DecidableEq β] (log : List (Transfer α β)) (t : Transfer α β) (b : β) :
    dstTotal (log ++ [t]) b = dstTotal log b + if t.dst = b then t.count else 0 := by
  simp [dstTotal]

theorem dstTotal_eq_zero [DecidableEq β] {log : List (Transfer α β)} {b : β}
    (h : ∀ t ∈ log, t.dst ≠ b) : dstTotal log b = 0 :=
  sum_eq_zero fun x hx => by
    obtain ⟨t, ht, rfl⟩ := mem_map.1 hx
    exact if_neg (h t ht)

theorem srcTotal_swap [DecidableEq β] (log : List (Transfer α β)) (b : β) :
    srcTotal (log.map Transfer.swap) b = dstTotal log b := by
  rw [srcTotal, map_map]; rfl

theorem dstTotal_swap [DecidableEq α] (log : List (Transfer α β)) (a : α) :
    dstTotal (log.map Transfer.swap) a = srcTotal log a := by
  rw [dstTotal, map_map]; rfl

/-- Every block starts where the earlier blocks of its source and of its destination end. -/
inductive Chained [DecidableEq α] [DecidableEq β] : List (Transfer α β) → Prop
  | nil : Chained []
  | snoc {log : List (Transfer α β)} {t : Transfer α β} (h : Chained log)
      (hsrc : t.srcBegin = srcTotal log t.src) (hdst : t.dstBegin = dstTotal log t.dst)
      (hpos : 0 < t.count) : Chained (log ++ [t])

/-- Item `i` of `a` goes to place `j` of `b`. -/
def Sends (log : List (Transfer α β)) (a : α) (i : ℕ) (b : β) (j : ℕ) : Prop :=
  ∃ t ∈ log, t.src = a ∧ t.dst = b ∧ t.srcBegin ≤ i ∧ i < t.srcBegin + t.count ∧
    j = t.dstBegin + (i - t.srcBegin)

theorem Sends.swap {log : List (Transfer α β)} {a : α} {b : β}
    (h : Sends log a i b j) : Sends (log.map Transfer.swap) b j a i := by
  obtain ⟨t, ht, rfl, rfl, hle, hlt, rfl⟩ := h
  exact ⟨t.swap, mem_map_of_mem ht, rfl, rfl, by simp [Transfer.swap], by
    simp only [Transfer.swap]; omega, by simp only [Transfer.swap]; omega⟩

namespace Chained
variable [DecidableEq α] [DecidableEq β] {log : List (Transfer α β)}

section
variable (h : Chained log)
include h

theorem swap : Chained (log.map Transfer.swap) := by
  induction h with
  | nil => exact .nil
  | snoc _ hsrc hdst hpos ih =>
    rw [map_append]
    exact ih.snoc (by rw [srcTotal_swap]; exact hdst) (by rw [dstTotal_swap]; exact hsrc) hpos

theorem pos {t : Transfer α β} (ht : t ∈ log) : 0 < t.count := by
  induction h with
  | nil => simp at ht
  | snoc _ _ _ hpos ih =>
    rcases mem_append.1 ht with ht | ht
    · exact ih ht
    · rw [mem_singleton.1 ht]; exact hpos

theorem src_le {t : Transfer α β} (ht : t ∈ log) : t.srcBegin + t.count ≤ srcTotal log t.src := by
  induction h with
  | nil => simp at ht
  | snoc _ hsrc _ _ ih =>
    rw [srcTotal_snoc]
    rcases mem_append.1 ht with ht | ht
    · exact (ih ht).trans (Nat.le_add_right _ _)
    · rw [mem_singleton.1 ht, hsrc, if_pos rfl]

/-- Two blocks of a source that share an item are one block. -/
theorem src_unique {t t' : Transfer α β} (ht : t ∈ log) (ht' : t' ∈ log)
    (hsrc : t.src = t'.src) (hi : t.srcBegin ≤ i ∧ i < t.srcBegin + t.count)
    (hi' : t'.srcBegin ≤ i ∧ i < t'.srcBegin + t'.count) : t = t' := by
  induction h with
  | nil => simp at ht
  | snoc hlog hs _ _ ih =>
    rcases mem_append.1 ht with ht | ht <;> rcases mem_append.1 ht' with ht' | ht'
    · exact ih ht ht'
    · rw [mem_singleton.1 ht'] at hsrc hi'
      have := hlog.src_le ht
      rw [hsrc] at this; omega
    · rw [mem_singleton.1 ht] at hsrc hi
      have := hlog.src_le ht'
      rw [← hsrc] at this; omega
    · rw [mem_singleton.1 ht, mem_singleton.1 ht']

theorem src_covered {a : α} (hi : i < srcTotal log a) :
    ∃ t ∈ log, t.src = a ∧ t.srcBegin ≤ i ∧ i < t.srcBegin + t.count := by
  induction h with
  | nil => simp at hi
  | @snoc log t _ hsrc _ _ ih =>
    by_cases hlt : i < srcTotal log a
    · obtain ⟨u, hu, hrest⟩ := ih hlt
      exact ⟨u, mem_append_left _ hu, hrest⟩
    · rw [srcTotal_snoc] at hi
      have hta : t.src = a := by
        by_contra hne
        rw [if_neg hne] at hi; omega
      rw [if_pos hta] at hi
      subst hta
      exact ⟨t, by simp, rfl, by omega, by omega⟩

section
variable {a : α} {b : β} (hs : Sends log a i b j)
include hs

theorem sends_lt : i < srcTotal log a := by
  obtain ⟨t, ht, rfl, -, -, hlt, -⟩ := hs
  exact hlt.trans_le (h.src_le ht)

theorem sends_lt_dst : j < dstTotal log b := by
  rw [← srcTotal_swap]; exact h.swap.sends_lt hs.swap

theorem sends_functional {b' : β} {j' : ℕ} (hs' : Sends log a i b' j') : b = b' ∧ j = j' := by
  obtain ⟨t, ht, hta, rfl, hle, hlt, rfl⟩ := hs
  obtain ⟨t', ht', hta', rfl, hle', hlt', rfl⟩ := hs'
  obtain rfl := h.src_unique ht ht' (hta.trans hta'.symm) ⟨hle, hlt⟩ ⟨hle', hlt'⟩
  exact ⟨rfl, rfl⟩

theorem sends_injective {a' : α} {i' : ℕ} (hs' : Sends log a' i' b j) : a = a' ∧ i = i' :=
  h.swap.sends_functional hs.swap hs'.swap

end

theorem sends_onto {b : β} (hj : j < dstTotal log b) : ∃ a i, Sends log a i b j := by
  rw [← srcTotal_swap] at hj
  obtain ⟨t, ht, rfl, hle, hlt⟩ := h.swap.src_covered hj
  obtain ⟨u, hu, rfl⟩ := mem_map.1 ht
  simp only [Transfer.swap] at hle hlt ⊢
  exact ⟨u.src, u.srcBegin + (j - u.dstBegin), u, hu, rfl, rfl, by omega, by omega, by omega⟩

end

end Chained

def total (log : List (Transfer α β)) : ℕ := (log.map (·.count)).sum

theorem sum_srcTotal [DecidableEq α] {log : List (Transfer α β)} {S : Finset α}
    (h : ∀ t ∈ log, t.src ∈ S) : ∑ a ∈ S, srcTotal log a = total log := by
  induction log with
  | nil => simp [total]
  | cons t log ih =>
    have ih := ih fun u hu => h u (mem_cons_of_mem _ hu)
    have hone : ∑ a ∈ S, (if t.src = a then t.count else 0) = t.count := by
      rw [Finset.sum_ite_eq, if_pos (h t mem_cons_self)]
    simp only [srcTotal, total, map_cons, sum_cons, Finset.sum_add_distrib] at ih ⊢
    rw [hone, ih]

theorem dstTotal_le [DecidableEq β] (log : List (Transfer α β)) (b : β) : dstTotal log b ≤ total log := by
  refine sum_le_sum fun t _ => ?_
  split <;> omega

theorem Chained.length_le [DecidableEq α] [DecidableEq β] {log : List (Transfer α β)} (h : Chained log) :
    log.length ≤ total log := by
  have := length_le_sum_of_one_le (log.map (·.count)) fun n hn => by
    obtain ⟨t, ht, rfl⟩ := mem_map.1 hn
    exact h.pos ht
  rwa [length_map] at this

/-- The blocks `[begin, begin + count)` tile `[0, n)`: every item below `n` is in exactly one of them,
and none above. -/
def Tiles (blocks : List (ℕ × ℕ)) (n : ℕ) : Prop :=
  ∀ j, blocks.countP (fun b => b.1 ≤ j ∧ j < b.1 + b.2) = if j < n then 1 else 0

theorem Tiles.snoc {blocks : List (ℕ × ℕ)} {n : ℕ} (h : Tiles blocks n) (count : ℕ) :
    Tiles (blocks ++ [(n, count)]) (n + count) := by
  intro j
  rw [countP_append, h j, countP_singleton]
  by_cases hlow : j < n
  · simp [hlow, Nat.not_le.2 hlow, Nat.lt_add_right count hlow]
  · by_cases hhigh : j < n + count
    · simp [hlow, hhigh, Nat.le_of_not_lt hlow]
    · simp [hlow, hhigh]

def srcBlocks [DecidableEq α] (log : List (Transfer α β)) (a : α) : List (ℕ × ℕ) :=
  (log.filter (·.src = a)).map fun t => (t.srcBegin, t.count)

def dstBlocks [DecidableEq β] (log : List (Transfer α β)) (b : β) : List (ℕ × ℕ) :=
  (log.filter (·.dst = b)).map fun t => (t.dstBegin, t.count)

namespace Chained
variable [DecidableEq α] [DecidableEq β] {log : List (Transfer α β)}

theorem tiles_src (h : Chained log) (a : α) : Tiles (srcBlocks log a) (srcTotal log a) := by
  induction h with
  | nil => exact fun j => rfl
  | @snoc log t _ hsrc _ _ ih =>
    rw [srcTotal_snoc, srcBlocks, filter_append, map_append]
    by_cases hta : t.src = a
    · subst hta
      simpa [srcBlocks, hsrc] using ih.snoc t.count
    · simpa [srcBlocks, hta] using ih

theorem tiles_dst (h : Chained log) (b : β) : Tiles (dstBlocks log b) (dstTotal log b) := by
  have hswap : dstBlocks log b = srcBlocks (log.map Transfer.swap) b := by
    simp only [dstBlocks, srcBlocks, filter_map, map_map]; rfl
  rw [hswap, ← srcTotal_swap]
  exact h.swap.tiles_src b

end Chained

end Lib
