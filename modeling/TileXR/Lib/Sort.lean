import Mathlib.Data.List.Sort

/-!
# In-place insertion sort and its agreement with a library sort

`insertSort lt` is the C idiom: take the next value, walk back over the sorted part while the value
is better than the entry before it, and drop it there. The sorted part is kept reversed, so the walk
back is a walk along the list. `stdSort lt` is any library sort of the same comparator; for a strict
total order both give the one sorted permutation of the input (`insertSort_eq_stdSort`), which is
what lets a model of hand-written sorting be compared with a model of `std::sort`.
-/

namespace Lib
open List

variable {α β : Type*}

def insertBack (lt : α → α → Bool) (v : α) : List α → List α
  | [] => [v]
  | r :: rest => if lt v r then r :: insertBack lt v rest else v :: r :: rest

/-- Insertion sort by a Boolean `better than`. -/
def insertSort (lt : α → α → Bool) (xs : List α) : List α :=
  (xs.foldl (fun acc v => insertBack lt v acc) []).reverse

def stdSort (lt : α → α → Bool) (xs : List α) : List α :=
  xs.insertionSort fun a b => ¬ lt b a = true

/-- A Boolean comparator that is a strict total order. -/
structure StrictTotal (lt : α → α → Bool) : Prop where
  irrefl : ∀ a, ¬ lt a a = true
  trans : ∀ a b c, lt a b = true → lt b c = true → lt a c = true
  tri : ∀ a b, a ≠ b → lt a b = true ∨ lt b a = true

namespace StrictTotal
variable {lt : α → α → Bool}

theorem of_lt [LinearOrder α] : StrictTotal fun a b : α => decide (a < b) where
  irrefl a := by simp
  trans a b c := by simpa using lt_trans
  tri a b hne := by simpa using lt_or_gt_of_ne hne

theorem flip (h : StrictTotal lt) : StrictTotal fun a b => lt b a :=
  ⟨h.irrefl, fun a b c hab hbc => h.trans c b a hbc hab, fun a b hne => (h.tri a b hne).symm⟩

/-- Compare by a key, and where the keys agree by another comparator. -/
theorem thenBy {κ : Type*} [DecidableEq κ] {ltκ : κ → κ → Bool} (key : α → κ) (hk : StrictTotal ltκ)
    (h : StrictTotal lt) : StrictTotal fun a b => if key a ≠ key b then ltκ (key a) (key b) else lt a b where
  irrefl a := by simpa using h.irrefl a
  trans a b c := by
    have := hk.irrefl (key a)
    have := hk.trans (key a) (key b) (key c)
    have := h.trans a b c
    grind
  tri a b hne := by
    have := hk.tri (key a) (key b)
    have := h.tri a b hne
    grind

theorem asymm (h : StrictTotal lt) {a b : α} (hab : lt a b = true) : ¬ lt b a = true :=
  fun hba => h.irrefl a (h.trans a b a hab hba)

theorem notWorse_trans (h : StrictTotal lt) (a b c : α) (hab : ¬ lt b a = true)
    (hbc : ¬ lt c b = true) : ¬ lt c a = true := by
  intro hca
  by_cases hba : b = a
  · exact hbc (hba ▸ hca)
  · have hab' : lt a b = true := (h.tri a b (Ne.symm hba)).resolve_right hab
    exact hbc (h.trans c a b hca hab')

end StrictTotal

theorem insertBack_perm (lt : α → α → Bool) (v : α) (xs : List α) : (insertBack lt v xs).Perm (v :: xs) := by
  induction xs with
  | nil => exact Perm.refl _
  | cons r rest ih =>
    rw [insertBack]
    split
    · exact (ih.cons r).trans (Perm.swap v r rest)
    · exact Perm.refl _

private theorem foldl_insertBack_perm (lt : α → α → Bool) (xs acc : List α) :
    (xs.foldl (fun acc v => insertBack lt v acc) acc).Perm (xs ++ acc) := by
  induction xs generalizing acc with
  | nil => exact Perm.refl _
  | cons x xs ih =>
    rw [foldl_cons]
    refine (ih _).trans (((insertBack_perm lt x acc).append_left xs).trans ?_)
    exact perm_middle

theorem insertSort_perm (lt : α → α → Bool) (xs : List α) : (insertSort lt xs).Perm xs := by
  refine (reverse_perm _).trans ?_
  simpa using foldl_insertBack_perm lt xs []

@[simp] theorem mem_insertSort {lt : α → α → Bool} {xs : List α} {a : α} :
    a ∈ insertSort lt xs ↔ a ∈ xs := (insertSort_perm lt xs).mem_iff

@[simp] theorem length_insertSort (lt : α → α → Bool) (xs : List α) :
    (insertSort lt xs).length = xs.length := (insertSort_perm lt xs).length_eq

theorem nodup_insertSort {lt : α → α → Bool} {xs : List α} :
    (insertSort lt xs).Nodup ↔ xs.Nodup := (insertSort_perm lt xs).nodup_iff

theorem insertBack_pairwise {lt : α → α → Bool} (h : StrictTotal lt) (v : α) {xs : List α}
    (hs : xs.Pairwise fun a b => ¬ lt a b = true) : (insertBack lt v xs).Pairwise fun a b => ¬ lt a b = true := by
  induction xs with
  | nil => exact pairwise_singleton _ _
  | cons r rest ih =>
    rw [insertBack]
    obtain ⟨hr, hrest⟩ := pairwise_cons.1 hs
    split
    · rename_i hvr
      refine pairwise_cons.2 ⟨fun b hb => ?_, ih hrest⟩
      rcases mem_cons.1 ((insertBack_perm lt v rest).mem_iff.1 hb) with rfl | hb
      · exact h.asymm hvr
      · exact hr b hb
    · rename_i hvr
      refine pairwise_cons.2 ⟨fun b hb => ?_, hs⟩
      rcases mem_cons.1 hb with rfl | hb
      · exact hvr
      · exact h.notWorse_trans b r v (hr b hb) hvr

theorem insertSort_congr {lt lt' : α → α → Bool} {xs : List α} (hnd : xs.Nodup)
    (h : ∀ a ∈ xs, ∀ b ∈ xs, a ≠ b → lt a b = lt' a b) : insertSort lt xs = insertSort lt' xs := by
  have hins : ∀ (v : α) (acc : List α), (∀ r ∈ acc, lt v r = lt' v r) →
      insertBack lt v acc = insertBack lt' v acc := by
    intro v acc
    induction acc with
    | nil => exact fun _ => rfl
    | cons r rest ih =>
      intro hr
      rw [insertBack, insertBack, hr r mem_cons_self, ih fun q hq => hr q (mem_cons_of_mem _ hq)]
  suffices ∀ ys acc : List α, (∀ a ∈ ys, a ∈ xs) → (∀ a ∈ acc, a ∈ xs) → ys.Nodup →
      (∀ a ∈ ys, a ∉ acc) → ys.foldl (fun acc v => insertBack lt v acc) acc =
        ys.foldl (fun acc v => insertBack lt' v acc) acc by
    rw [insertSort, insertSort, this xs [] (fun _ h => h) (by simp) hnd (by simp)]
  intro ys
  induction ys with
  | nil => exact fun _ _ _ _ _ => rfl
  | cons y ys ih =>
    intro acc hys hacc hnd hdis
    obtain ⟨hy, hnd⟩ := nodup_cons.1 hnd
    have hyx := hys y mem_cons_self
    rw [foldl_cons, foldl_cons, hins y acc fun r hr => h y hyx r (hacc r hr) fun he => hdis y mem_cons_self (he ▸ hr)]
    have hmem : ∀ a, a ∈ insertBack lt' y acc ↔ a = y ∨ a ∈ acc := fun a => by
      rw [(insertBack_perm lt' y acc).mem_iff, mem_cons]
    refine ih _ (fun a ha => hys a (mem_cons_of_mem _ ha)) (fun a ha => ?_) hnd fun a ha hm => ?_
    · rcases (hmem a).1 ha with rfl | ha
      exacts [hyx, hacc a ha]
    · rcases (hmem a).1 hm with rfl | hm
      exacts [hy ha, hdis a (mem_cons_of_mem _ ha) hm]

theorem insertSort_pairwise {lt : α → α → Bool} (h : StrictTotal lt) (xs : List α) :
    (insertSort lt xs).Pairwise fun a b => ¬ lt b a = true := by
  rw [insertSort, pairwise_reverse]
  suffices ∀ acc : List α, (acc.Pairwise fun a b => ¬ lt a b = true) →
      (xs.foldl (fun acc v => insertBack lt v acc) acc).Pairwise fun a b => ¬ lt a b = true from
    this [] Pairwise.nil
  induction xs with
  | nil => exact fun acc hacc => hacc
  | cons x xs ih => exact fun acc hacc => ih _ (insertBack_pairwise h x hacc)

theorem insertSort_eq_stdSort {lt : α → α → Bool} (h : StrictTotal lt) (xs : List α) :
    insertSort lt xs = stdSort lt xs := by
  have htotal : Std.Total fun a b => ¬ lt b a = true := ⟨fun a b => by
    by_cases hab : lt b a = true
    · exact .inr (h.asymm hab)
    · exact .inl hab⟩
  have htrans : IsTrans α fun a b => ¬ lt b a = true := ⟨h.notWorse_trans⟩
  have hstd : (stdSort lt xs).Pairwise fun a b => ¬ lt b a = true :=
    pairwise_insertionSort (fun a b => ¬ lt b a = true) xs
  have hperm : (stdSort lt xs).Perm xs := perm_insertionSort _ xs
  refine Perm.eq_of_pairwise (fun a b _ _ hab hba => ?_) (insertSort_pairwise h xs) hstd
    ((insertSort_perm lt xs).trans hperm.symm)
  by_contra hne
  exact (h.tri a b hne).elim hba hab

theorem map_stdSort {lt : α → α → Bool} {lt' : β → β → Bool} (f : α → β) (xs : List α)
    (h : ∀ a ∈ xs, ∀ b ∈ xs, lt a b = lt' (f a) (f b)) : (stdSort lt xs).map f = stdSort lt' (xs.map f) := by
  refine map_insertionSort _ _ f xs fun a ha b hb => ?_
  rw [h b hb a ha]

@[simp] theorem mem_stdSort {lt : α → α → Bool} {xs : List α} {a : α} :
    a ∈ stdSort lt xs ↔ a ∈ xs := (perm_insertionSort _ xs).mem_iff

end Lib
