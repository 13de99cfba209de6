import Mathlib.Data.List.Perm.Basic
import TileXR.Lib.Sweep

/-!
# Dealing out a list

A loop that collects something for every index of a range may walk the range in even parts, in chunks or
dealt out in turn. What is collected is the same, up to the order.
-/

namespace Lib
open List

variable {α β : Type*}

/-- What a loop keeps about its state and what it has collected. -/
theorem foldl_collects {σ : Type*} {P : σ → List β → Prop} {f : σ → α → σ} {g : α → List β} {l : List α}
    (hstep : ∀ a ∈ l, ∀ s out, P s out → P (f s a) (out ++ g a)) {s : σ} {out : List β} (h : P s out) :
    P (l.foldl f s) (out ++ l.flatMap g) := by
  induction l generalizing s out with
  | nil => exact (append_nil out).symm ▸ h
  | cons a l ih =>
    rw [flatMap_cons, ← append_assoc]
    exact ih (fun b hb => hstep b (.tail a hb)) (hstep a (.head l) s out h)

theorem flatMap_comm_perm {γ : Type*} (l : List α) (m : List β) (f : α → β → List γ) :
    (l.flatMap fun a => m.flatMap (f a)).Perm (m.flatMap fun b => l.flatMap fun a => f a b) := by
  induction l with
  | nil => simp
  | cons a l ih =>
    simp only [flatMap_cons]
    exact (ih.append_left _).trans (flatMap_append_perm m _ _)

theorem flatMap_evenParts (l : List α) {parts : ℕ} (hp : 0 < parts) : ((List.range parts).flatMap fun i =>
      (l.drop (evenPart l.length parts i).1).take (evenPart l.length parts i).2) = l := by
  have hfirst : ∀ n, ((List.range n).flatMap fun i =>
      (l.drop (evenPart l.length parts i).1).take (evenPart l.length parts i).2) =
      l.take (evenPart l.length parts n).1 := by
    intro n
    induction n with
    | zero => simp [evenPart_zero]
    | succ n ih =>
      rw [range_succ, flatMap_append, ih, flatMap_singleton, ← take_add, evenPart_next]
  rw [hfirst, evenPart_last _ _ hp, take_length]

/-- The chunks of a range follow each other, the last one cut off. -/
theorem flatMap_chunks (count : ℕ) {size : ℕ} (hs : 0 < size) : ((strided count size 0).flatMap fun start =>
    (List.range (min (count - start) size)).map (start + ·)) = List.range count := by
  have hfirst : ∀ n, ((List.range n).flatMap fun j =>
      (List.range (min (count - (0 + j * size)) size)).map (0 + j * size + ·)) =
      List.range (min count (n * size)) := by
    intro n
    induction n with
    | zero => simp
    | succ n ih =>
      rw [range_succ, flatMap_append, ih, flatMap_singleton, Nat.zero_add, Nat.succ_mul]
      rcases Nat.le_total count (n * size) with hle | hle
      · rw [Nat.sub_eq_zero_of_le hle, Nat.zero_min, range_zero, map_nil, append_nil,
          Nat.min_eq_left hle, Nat.min_eq_left (hle.trans (Nat.le_add_right _ _))]
      · rw [Nat.min_eq_right hle, ← range_add]
        congr 1
        omega
  have hcount : count ≤ (count - 0 + size - 1) / size * size := by
    have := Nat.div_add_mod (count - 0 + size - 1) size
    have := Nat.mod_lt (count - 0 + size - 1) hs
    rw [Nat.mul_comm]
    omega
  rw [strided, flatMap_map, hfirst, Nat.min_eq_left hcount]

theorem strided_nodup (count i : ℕ) {blocks : ℕ} (hb : 0 < blocks) : (strided count blocks i).Nodup := by
  refine Nodup.map (fun j k h => ?_) nodup_range
  exact Nat.eq_of_mul_eq_mul_right hb (Nat.add_left_cancel h)

theorem blockRows_perm (count : ℕ) {blocks : ℕ} (hb : 0 < blocks) :
    (blockRows count blocks).Perm (List.range count) := by
  refine (perm_ext_iff_of_nodup ?_ nodup_range).2 fun x => by rw [mem_blockRows hb, mem_range]
  rw [blockRows, nodup_flatMap]
  refine ⟨fun i _ => strided_nodup count i hb, nodup_range.imp_of_mem fun hi hj hne => ?_⟩
  -- an index says which block has it
  intro x hxi hxj
  obtain ⟨-, k, rfl⟩ := (mem_strided hb).1 hxi
  obtain ⟨-, l, hl⟩ := (mem_strided hb).1 hxj
  have hmod := congrArg (· % blocks) hl
  simp only [Nat.add_mul_mod_self_right, Nat.mod_eq_of_lt (mem_range.1 hi), Nat.mod_eq_of_lt (mem_range.1 hj)] at hmod
  exact hne hmod

/-! ## Counting -/

theorem countP_eq_ite_mem [DecidableEq α] {l : List α} (hl : l.Nodup) {p : α → Bool} {a : α}
    (hp : ∀ b ∈ l, p b = true ↔ b = a) : l.countP p = if a ∈ l then 1 else 0 := by
  have hcount : l.countP p = l.count a := by
    rw [List.count]
    refine countP_congr fun b hb => ?_
    rw [hp b hb, beq_iff_eq]
  rw [hcount]
  split_ifs with ha
  · exact count_eq_one_of_mem hl ha
  · exact count_eq_zero_of_not_mem ha

/-- What each item contributes at most once is counted by the items that contribute. -/
theorem countP_flatMap_ite {l : List α} {f : α → List β} {p : β → Bool} {q : α → Bool}
    (h : ∀ a ∈ l, (f a).countP p = if q a then 1 else 0) : (l.flatMap f).countP p = l.countP q := by
  induction l with
  | nil => rfl
  | cons a l ih =>
    rw [flatMap_cons, countP_append, h a mem_cons_self,
      ih fun b hb => h b (mem_cons_of_mem a hb), countP_cons, Nat.add_comm]

end Lib
