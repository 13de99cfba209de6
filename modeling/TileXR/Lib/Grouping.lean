import Mathlib.Algebra.BigOperators.Group.List.Lemmas
import Mathlib.Data.List.Dedup
import TileXR.Lib.Blocks

/-!
# Places grouped by their keys

Some of the places `0, 1, …` have a key. The keys below a place, in the order in which they appear, and
the places of each key; the places of all keys one key after the other are blocks that fill the number of
places with a key (`blockStart_groupSize`).
-/

namespace Lib

/-- Blocks of the sizes of the members of a list end at the sum of these sizes. -/
theorem blockStart_getElem? {α : Type*} (l : List α) (f : α → ℕ) :
    blockStart (fun g => (l[g]?).elim 0 f) l.length = (l.map f).sum := by
  induction l using List.reverseRecOn with
  | nil => rfl
  | append_singleton l a ih =>
    rw [List.length_append, List.length_singleton, blockStart_succ, List.map_append, List.sum_append, ← ih]
    have hsame : blockStart (fun g => ((l ++ [a])[g]?).elim 0 f) l.length =
        blockStart (fun g => (l[g]?).elim 0 f) l.length := by
      refine Finset.sum_congr rfl fun g hg => ?_
      dsimp only
      rw [List.getElem?_append_left (Finset.mem_range.1 hg)]
    rw [hsame, List.getElem?_concat_length]
    simp

section Keys
variable {κ : Type*} (key : ℕ → Option κ)

def keyedCount (n : ℕ) : ℕ := ((List.range n).filterMap key).length

variable {key} {n m g : ℕ} {p q : κ}

theorem keyedCount_none (h : key n = none) : keyedCount key (n + 1) = keyedCount key n := by
  rw [keyedCount, List.range_succ, List.filterMap_append, List.filterMap_cons_none h]
  simp [keyedCount]

theorem keyedCount_some (h : key n = some p) : keyedCount key (n + 1) = keyedCount key n + 1 := by
  rw [keyedCount, List.range_succ, List.filterMap_append, List.filterMap_cons_some h]
  simp [keyedCount]

theorem keyedCount_le (key : ℕ → Option κ) (n : ℕ) : keyedCount key n ≤ n := by
  have h := List.length_filterMap_le key (List.range n)
  rwa [List.length_range] at h

variable [DecidableEq κ] (key)

/-- The keys below a place, in the order of their first places. -/
def firstKeys : ℕ → List κ
  | 0 => []
  | n + 1 =>
    match key n with
    | none => firstKeys n
    | some p => if p ∈ firstKeys n then firstKeys n else firstKeys n ++ [p]

def placesOf (n : ℕ) (p : κ) : List ℕ := (List.range n).filter fun x => key x = some p

/-- The number of places below `n` with the key number `g` of a list. -/
def groupSize (n : ℕ) (keys : List κ) (g : ℕ) : ℕ := (keys[g]?).elim 0 fun p => (placesOf key n p).length

variable {key}

/-! ## One place more -/

theorem firstKeys_none (h : key n = none) : firstKeys key (n + 1) = firstKeys key n := by
  rw [firstKeys, h]

theorem firstKeys_old (h : key n = some p) (hp : p ∈ firstKeys key n) : firstKeys key (n + 1) = firstKeys key n := by
  rw [firstKeys, h]; exact if_pos hp

theorem firstKeys_new (h : key n = some p) (hp : p ∉ firstKeys key n) :
    firstKeys key (n + 1) = firstKeys key n ++ [p] := by
  rw [firstKeys, h]; exact if_neg hp

theorem placesOf_same (h : key n = some p) : placesOf key (n + 1) p = placesOf key n p ++ [n] := by
  rw [placesOf, List.range_succ, List.filter_append, List.filter_cons_of_pos (by simpa using h)]; rfl

theorem placesOf_other (h : key n ≠ some p) : placesOf key (n + 1) p = placesOf key n p := by
  rw [placesOf, List.range_succ, List.filter_append, List.filter_cons_of_neg (by simpa using h)]
  exact List.append_nil _

/-! ## Keys and places -/

theorem mem_firstKeys : p ∈ firstKeys key n ↔ ∃ x < n, key x = some p := by
  induction n with
  | zero => simp [firstKeys]
  | succ n ih =>
    have hlast : (∃ x < n + 1, key x = some p) ↔ (∃ x < n, key x = some p) ∨ key n = some p := by
      constructor
      · rintro ⟨x, hx, hp⟩
        rcases Nat.lt_succ_iff_lt_or_eq.1 hx with h | rfl
        exacts [.inl ⟨x, h, hp⟩, .inr hp]
      · rintro (⟨x, hx, hp⟩ | hp)
        exacts [⟨x, by omega, hp⟩, ⟨n, by omega, hp⟩]
    rw [hlast, ← ih]
    rcases hk : key n with _ | q
    · simp [firstKeys_none hk]
    · by_cases hq : q ∈ firstKeys key n
      · rw [firstKeys_old hk hq]
        refine ⟨.inl, fun h => h.elim id fun h => Option.some.inj h ▸ hq⟩
      · rw [firstKeys_new hk hq]
        simp [eq_comm]

theorem firstKeys_nodup : (firstKeys key n).Nodup := by
  induction n with
  | zero => exact List.nodup_nil
  | succ n ih =>
    rcases hk : key n with _ | q
    · rwa [firstKeys_none hk]
    · by_cases hq : q ∈ firstKeys key n
      · rwa [firstKeys_old hk hq]
      · rw [firstKeys_new hk hq]
        refine ih.append (List.nodup_singleton q) ?_
        simpa using hq

theorem mem_placesOf {x : ℕ} : x ∈ placesOf key n p ↔ x < n ∧ key x = some p := by
  simp [placesOf]

theorem placesOf_mono (key : ℕ → Option κ) (p : κ) (h : n ≤ m) : placesOf key n p <+: placesOf key m p := by
  induction m with
  | zero => rw [Nat.le_zero.1 h]
  | succ m ih =>
    rcases Nat.le_succ_iff.1 h with h | rfl
    · by_cases hm : key m = some p
      · rw [placesOf_same hm]; exact (ih h).trans (List.prefix_append _ _)
      · rw [placesOf_other hm]; exact ih h
    · exact List.prefix_refl _

theorem placesOf_length_pos (h : p ∈ firstKeys key n) : 0 < (placesOf key n p).length := by
  obtain ⟨x, hx, hp⟩ := mem_firstKeys.1 h
  exact List.length_pos_of_mem (mem_placesOf.2 ⟨hx, hp⟩)

/-- Before a place with the key comes less than all of its places. -/
theorem placesOf_length_lt {x : ℕ} (hx : x < n) (h : key x = some p) :
    (placesOf key x p).length < (placesOf key n p).length := by
  have hle := (placesOf_mono key p (Nat.succ_le_of_lt hx)).length_le
  rw [placesOf_same h, List.length_append, List.length_singleton] at hle
  omega

/-! ## Counts -/

theorem firstKeys_length_le (key : ℕ → Option κ) (n : ℕ) : (firstKeys key n).length ≤ keyedCount key n := by
  induction n with
  | zero => exact Nat.zero_le _
  | succ n ih =>
    rcases hk : key n with _ | q
    · rwa [firstKeys_none hk, keyedCount_none hk]
    · rw [keyedCount_some hk]
      by_cases hq : q ∈ firstKeys key n
      · rw [firstKeys_old hk hq]; omega
      · rw [firstKeys_new hk hq, List.length_append, List.length_singleton]; omega

section Groups
variable {keys : List κ}

theorem groupSize_eq (h : keys[g]? = some p) : groupSize key n keys g = (placesOf key n p).length := by
  rw [groupSize, h]; rfl

/-- The groups of all keys together have all places with a key. -/
theorem blockStart_groupSize (hnodup : keys.Nodup) (hmem : ∀ p, p ∈ keys ↔ ∃ x < n, key x = some p) :
    blockStart (groupSize key n keys) keys.length = keyedCount key n := by
  have hcount : ∀ p, (placesOf key n p).length = ((List.range n).filterMap key).count p := by
    intro p
    rw [List.count_filterMap, List.countP_eq_length_filter, placesOf]
    simp only [beq_eq_decide]
  have hperm : keys.Perm ((List.range n).filterMap key).dedup := by
    refine (List.perm_ext_iff_of_nodup hnodup (List.nodup_dedup _)).2 fun p => ?_
    rw [hmem, List.mem_dedup, List.mem_filterMap]
    simp only [List.mem_range]
  calc blockStart (groupSize key n keys) keys.length
      = (keys.map fun p => (placesOf key n p).length).sum := blockStart_getElem? _ _
    _ = (((List.range n).filterMap key).dedup.map fun p => ((List.range n).filterMap key).count p).sum := by
        simp only [hcount]; exact (hperm.map _).sum_eq
    _ = keyedCount key n := List.sum_map_count_dedup_eq_length _

end Groups

end Keys

end Lib
