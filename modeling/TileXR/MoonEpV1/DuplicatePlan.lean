import TileXR.Lib.Grouping
import TileXR.MoonEpV1.Dispatch

/-!
# The table of duplicates

`BuildDuplicatePlan` finds in the window, for each slot that is a duplicate, the slot of its primary.
It lists the primaries in the order in which they appear and gives each a block of `dupLoffs`, with its
duplicates in increasing order (`DuplicateTable`). It counts the duplicates of each primary, replaces
the counts by starts, and counts once more while it fills the blocks. From the table
`ExpandDuplicateRows` copies the row of each primary to its duplicates (`expandDuplicateRows_spec`).
-/

namespace TileXR.MoonEpV1
open Int List Option
open Function (update update_self update_of_ne)
open Lib

variable {done keys : List ℕ}
variable {p n g : ℕ} {st : DupState}

/-- Groups of duplicates: `prim` gives the primary of a slot that is a duplicate. Group `g` is that of the
`g`-th primary. The blocks of `loffs` follow each other in the order of the groups, and each has the
duplicates of its primary in increasing order. -/
structure DuplicateTable (nvS : ℕ) (prim : ℕ → Option ℕ) (primaries : List ℕ) (groups loffs counts : ℕ → ℤ) :
    Prop where
  nodup : primaries.Nodup
  mem : ∀ p, p ∈ primaries ↔ ∃ x < nvS, prim x = some p
  groupCount : counts 0 = primaries.length
  duplicateCount : counts 1 = keyedCount prim nvS
  primary : ∀ g p : ℕ, primaries[g]? = some p → groups (g * 3) = p
  start : ∀ g < primaries.length, groups (g * 3 + 1) = blockStart (groupSize prim nvS primaries) g
  count : ∀ g p : ℕ, primaries[g]? = some p → groups (g * 3 + 2) = (placesOf prim nvS p).length
  loffs : ∀ g p : ℕ, primaries[g]? = some p → ∀ i x : ℕ, (placesOf prim nvS p)[i]? = some x →
    loffs (blockStart (groupSize prim nvS primaries) g + i) = x

section Plan
variable {L : DispatchLayout} {prim : ℕ → Option ℕ} {w₀ : Bytes}

/-- The window before the plan is built. -/
structure ParentsIn (L : DispatchLayout) (prim : ℕ → Option ℕ) (w : Bytes) : Prop where
  parent : ∀ x < L.nvS, w.loadInt (L.dedupParentsOffset + x * 4) = (prim x).elim 0 fun p => p + 1
  groupMap : ∀ p < L.nvS, w.loadInt (L.dedupGroupMapOffset + p * 4) = 0
  lt : ∀ x < L.nvS, ∀ p, prim x = some p → p < L.nvS
  apart : L.dedupParentsOffset + L.nvS * 4 ≤ L.dedupGroupMapOffset
  small : L.nvS < 2 ^ 31

/-- The group map has the numbers of some primaries, and nothing else of the window is changed. -/
structure Marked (L : DispatchLayout) (keys : List ℕ) (w₀ w : Bytes) : Prop where
  set : ∀ g p : ℕ, keys[g]? = some p → w.loadInt (L.dedupGroupMapOffset + p * 4) = g + 1
  unset : ∀ p < L.nvS, p ∉ keys → w.loadInt (L.dedupGroupMapOffset + p * 4) = 0
  same : ∀ a, (a < L.dedupGroupMapOffset ∨ L.dedupGroupMapOffset + L.nvS * 4 ≤ a) → w a = w₀ a

theorem Marked.parent {w : Bytes} (hm : Marked L keys w₀ w) (h : ParentsIn L prim w₀) {x : ℕ}
    (hx : x < L.nvS) : w.loadInt (L.dedupParentsOffset + x * 4) = (prim x).elim 0 fun p => p + 1 := by
  have hapart := h.apart
  rw [← h.parent x hx]
  exact Bytes.loadInt_congr fun i hi => hm.same _ (by omega)

theorem Marked.concat {w : Bytes} (hm : Marked L keys w₀ w) (hp : p < L.nvS)
    (hnew : p ∉ keys) (hlen : keys.length < 2 ^ 31 - 1) :
    Marked L (keys ++ [p]) w₀ (w.storeInt (L.dedupGroupMapOffset + p * 4) (keys.length + 1)) := by
  refine ⟨fun g q hq => ?_, fun q hq hmem => ?_, fun a ha => ?_⟩
  · rcases Nat.lt_trichotomy g keys.length with hg | rfl | hg
    · rw [List.getElem?_append_left hg] at hq
      have hne : q ≠ p := fun h => hnew (h ▸ mem_of_getElem? hq)
      rw [Bytes.loadInt_storeInt_of_ne (by omega)]
      exact hm.set g q hq
    · rw [List.getElem?_concat_length] at hq
      obtain rfl := some.inj hq
      exact Bytes.loadInt_storeInt (by omega) (by omega)
    · rw [List.getElem?_eq_none (by simp; omega)] at hq
      exact nomatch hq
  · rw [mem_append, mem_singleton, not_or] at hmem
    rw [Bytes.loadInt_storeInt_of_ne (by omega)]
    exact hm.unset q hq hmem.1
  · exact (if_neg (by omega)).trans (hm.same a ha)

theorem firstKeys_index {g' : ℕ} (h : (firstKeys prim n)[g]? = some p)
    (h' : (firstKeys prim n)[g']? = some p) : g = g' :=
  (List.getElem?_inj (List.getElem?_eq_some_iff.1 h).1 firstKeys_nodup).1 (h.trans h'.symm)

/-! ## The first loop -/

structure Counted (L : DispatchLayout) (prim : ℕ → Option ℕ) (w₀ : Bytes) (n : ℕ) (st : DupState) :
    Prop where
  ok : st.ok = true
  groupCount : st.groupCount = (firstKeys prim n).length
  duplicateCount : st.duplicateCount = keyedCount prim n
  total : st.total = 0
  marked : Marked L (firstKeys prim n) w₀ st.window
  primary : ∀ g p : ℕ, (firstKeys prim n)[g]? = some p → st.groups (g * 3) = p
  count : ∀ g p : ℕ, (firstKeys prim n)[g]? = some p → st.groups (g * 3 + 2) = (placesOf prim n p).length

theorem Counted.step (hw : ParentsIn L prim w₀) (h : Counted L prim w₀ n st) (hn : n < L.nvS) :
    Counted L prim w₀ (n + 1) (countDuplicate L st n) := by
  have hword := h.marked.parent hw hn
  have hkeys := firstKeys_length_le prim n
  have hdups := keyedCount_le prim n
  have hsmall := hw.small
  rcases hk : prim n with _ | p
  · have hsame : countDuplicate L st n = st := if_pos (by simp [hword, hk])
    rw [hsame]
    refine ⟨h.ok, by rw [firstKeys_none hk, h.groupCount], by rw [keyedCount_none hk, h.duplicateCount],
      h.total, by rw [firstKeys_none hk]; exact h.marked, ?_, ?_⟩ <;> rw [firstKeys_none hk]
    · exact h.primary
    · intro g p hg
      rw [placesOf_other (by simp [hk]), h.count g p hg]
  · have hp := hw.lt n hn p hk
    have hword' : st.window.loadInt (L.dedupParentsOffset + n * 4) = p + 1 := by rw [hword, hk]; rfl
    have hdc := h.duplicateCount
    have hgc := h.groupCount
    have hne : ¬ (!st.ok || (p : ℤ) + 1 == 0) = true := by simp [h.ok]; omega
    have hrange : ¬ ((p : ℤ) < 0 ∨ (L.nvS : ℤ) ≤ p ∨ L.nvS ≤ st.duplicateCount) := by omega
    by_cases hmem : p ∈ firstKeys prim n
    · obtain ⟨g, hg⟩ := mem_iff_getElem?.1 hmem
      have hmark := h.marked.set g p hg
      have hstep : countDuplicate L st n = { st with
          groups := update st.groups (g * 3 + 2) (st.groups (g * 3 + 2) + 1)
          duplicateCount := st.duplicateCount + 1 } := by
        simp only [countDuplicate, hword', if_neg hne, Int.add_sub_cancel, if_neg hrange, toNat_natCast,
          hmark, if_neg (show ¬ (g : ℤ) + 1 = 0 by omega)]
      rw [hstep]
      refine ⟨h.ok, by rw [firstKeys_old hk hmem, h.groupCount], by rw [keyedCount_some hk, h.duplicateCount],
        h.total, by rw [firstKeys_old hk hmem]; exact h.marked, ?_, ?_⟩ <;> rw [firstKeys_old hk hmem]
      · intro g' p' hg'
        dsimp only
        rw [update_of_ne (by omega)]
        exact h.primary g' p' hg'
      · intro g' p' hg'
        dsimp only
        by_cases hgg : g' = g
        · subst hgg
          obtain rfl := some.inj (hg.symm.trans hg')
          rw [update_self, placesOf_same hk, h.count g' p hg, length_append]
          rfl
        · have hpp : p ≠ p' := by
            rintro rfl
            exact hgg (firstKeys_index hg' hg)
          rw [update_of_ne (by omega), placesOf_other (by simp [hk, hpp]), h.count g' p' hg']
    · have hmark := h.marked.unset p hp hmem
      have hstep : countDuplicate L st n = { st with
          groups := update (update (update st.groups (st.groupCount * 3) p) (st.groupCount * 3 + 1) 0)
            (st.groupCount * 3 + 2) 1
          window := st.window.storeInt (L.dedupGroupMapOffset + p * 4) (st.groupCount + 1)
          groupCount := st.groupCount + 1
          duplicateCount := st.duplicateCount + 1 } := by
        simp only [countDuplicate, hword', if_neg hne, Int.add_sub_cancel, if_neg hrange, toNat_natCast,
          hmark, if_true, if_neg (show ¬ L.nvS ≤ st.groupCount by omega)]
      have hplaces : placesOf prim n p = [] := by
        refine eq_nil_iff_forall_not_mem.2 fun x hx => hmem (mem_firstKeys.2 ?_)
        exact ⟨x, mem_placesOf.1 hx⟩
      rw [hstep]
      refine ⟨h.ok, by rw [firstKeys_new hk hmem, h.groupCount, length_append]; rfl,
        by rw [keyedCount_some hk, h.duplicateCount], h.total, ?_, ?_, ?_⟩ <;> rw [firstKeys_new hk hmem]
      · rw [hgc]
        exact h.marked.concat hp hmem (by omega)
      · intro g' p' hg'
        dsimp only
        rw [update_of_ne (by omega), update_of_ne (by omega), hgc]
        rcases Nat.lt_trichotomy g' (firstKeys prim n).length with hlt | rfl | hlt
        · rw [update_of_ne (by omega)]
          rw [List.getElem?_append_left hlt] at hg'
          exact h.primary g' p' hg'
        · rw [List.getElem?_concat_length] at hg'
          rw [update_self, some.inj hg']
        · rw [List.getElem?_eq_none (by simp; omega)] at hg'
          exact nomatch hg'
      · intro g' p' hg'
        dsimp only
        rw [hgc]
        rcases Nat.lt_trichotomy g' (firstKeys prim n).length with hlt | rfl | hlt
        · rw [update_of_ne (by omega), update_of_ne (by omega), update_of_ne (by omega)]
          rw [List.getElem?_append_left hlt] at hg'
          have hpp : p ≠ p' := fun hpp => hmem (hpp ▸ mem_of_getElem? hg')
          rw [placesOf_other (by simp [hk, hpp]), h.count g' p' hg']
        · rw [List.getElem?_concat_length] at hg'
          obtain rfl := some.inj hg'
          rw [update_self, placesOf_same hk, hplaces]
          rfl
        · rw [List.getElem?_eq_none (by simp; omega)] at hg'
          exact nomatch hg'

theorem counted_foldl (hw : ParentsIn L prim w₀) (groups loffs : ℕ → ℤ) (hn : n ≤ L.nvS) :
    Counted L prim w₀ n ((List.range n).foldl (countDuplicate L) ⟨w₀, groups, loffs, 0, 0, 0, true⟩) := by
  induction n with
  | zero =>
    refine ⟨rfl, rfl, rfl, rfl, ⟨?_, fun p hp _ => hw.groupMap p hp, fun _ _ => rfl⟩, ?_, ?_⟩ <;>
      intro g p hg <;> exact nomatch hg
  | succ n ih =>
    rw [range_succ, foldl_append]
    exact (ih (by omega)).step hw hn

/-! ## The second loop -/

/-- After the first `g` groups. -/
structure Started (L : DispatchLayout) (prim : ℕ → Option ℕ) (w₀ : Bytes) (g : ℕ) (st : DupState) :
    Prop where
  ok : st.ok = true
  groupCount : st.groupCount = (firstKeys prim L.nvS).length
  duplicateCount : st.duplicateCount = keyedCount prim L.nvS
  total : st.total = blockStart (groupSize prim L.nvS (firstKeys prim L.nvS)) g
  marked : Marked L (firstKeys prim L.nvS) w₀ st.window
  primary : ∀ h p : ℕ, (firstKeys prim L.nvS)[h]? = some p → st.groups (h * 3) = p
  start : ∀ h < g, st.groups (h * 3 + 1) = blockStart (groupSize prim L.nvS (firstKeys prim L.nvS)) h
  zero : ∀ h < g, st.groups (h * 3 + 2) = 0
  count : ∀ h, g ≤ h → h < (firstKeys prim L.nvS).length →
    st.groups (h * 3 + 2) = groupSize prim L.nvS (firstKeys prim L.nvS) h

theorem Counted.started (h : Counted L prim w₀ L.nvS st) : Started L prim w₀ 0 st := by
  refine ⟨h.ok, h.groupCount, h.duplicateCount, h.total, h.marked, h.primary, fun _ h => absurd h (by omega),
    fun _ h => absurd h (by omega), fun g _ hg => ?_⟩
  have hget := List.getElem?_eq_getElem hg
  rw [groupSize_eq hget]
  exact h.count g _ hget

theorem Started.step (h : Started L prim w₀ g st) (hg : g < (firstKeys prim L.nvS).length) :
    Started L prim w₀ (g + 1) (startGroup L st g) := by
  have hcount := h.count g (Nat.le_refl _) hg
  have hpos : 0 < groupSize prim L.nvS (firstKeys prim L.nvS) g := by
    rw [groupSize_eq (List.getElem?_eq_getElem hg)]
    exact placesOf_length_pos (getElem_mem hg)
  have hle := blockStart_add_le (groupSize prim L.nvS (firstKeys prim L.nvS)) hg
  rw [blockStart_groupSize firstKeys_nodup fun _ => mem_firstKeys] at hle
  have hdups := keyedCount_le prim L.nvS
  have htotal := h.total
  have hstep : startGroup L st g = { st with
      groups := update (update st.groups (g * 3 + 1) st.total) (g * 3 + 2) 0
      total := st.total + groupSize prim L.nvS (firstKeys prim L.nvS) g } := by
    simp only [startGroup, h.ok, Bool.not_true, Bool.false_eq_true, if_false, hcount]
    rw [if_neg (by omega)]
  rw [hstep]
  refine ⟨h.ok, h.groupCount, h.duplicateCount, ?_, h.marked, fun i p hi => ?_, fun i hi => ?_, fun i hi => ?_,
    fun i hi hi' => ?_⟩ <;> dsimp only
  · rw [htotal, blockStart_succ]
    push_cast
    rfl
  · rw [update_of_ne (by omega), update_of_ne (by omega)]
    exact h.primary i p hi
  · rw [update_of_ne (by omega)]
    by_cases hig : i = g
    · rw [hig, update_self, htotal]
    · rw [update_of_ne (by omega)]
      exact h.start i (by omega)
  · by_cases hig : i = g
    · rw [hig, update_self]
    · rw [update_of_ne (by omega), update_of_ne (by omega)]
      exact h.zero i (by omega)
  · rw [update_of_ne (by omega), update_of_ne (by omega)]
    exact h.count i (by omega) hi'

theorem started_foldl (h : Counted L prim w₀ L.nvS st) (hg : g ≤ (firstKeys prim L.nvS).length) :
    Started L prim w₀ g ((List.range g).foldl (startGroup L) st) := by
  induction g with
  | zero => exact h.started
  | succ g ih =>
    rw [range_succ, foldl_append]
    exact (ih (by omega)).step hg

/-! ## The third loop -/

structure Filled (L : DispatchLayout) (prim : ℕ → Option ℕ) (w₀ : Bytes) (n : ℕ) (st : DupState) :
    Prop where
  ok : st.ok = true
  groupCount : st.groupCount = (firstKeys prim L.nvS).length
  duplicateCount : st.duplicateCount = keyedCount prim L.nvS
  marked : Marked L (firstKeys prim L.nvS) w₀ st.window
  primary : ∀ g p : ℕ, (firstKeys prim L.nvS)[g]? = some p → st.groups (g * 3) = p
  start : ∀ g < (firstKeys prim L.nvS).length,
    st.groups (g * 3 + 1) = blockStart (groupSize prim L.nvS (firstKeys prim L.nvS)) g
  count : ∀ g p : ℕ, (firstKeys prim L.nvS)[g]? = some p →
    st.groups (g * 3 + 2) = (placesOf prim n p).length
  loffs : ∀ g p : ℕ, (firstKeys prim L.nvS)[g]? = some p → ∀ i x : ℕ, (placesOf prim n p)[i]? = some x →
    st.loffs (blockStart (groupSize prim L.nvS (firstKeys prim L.nvS)) g + i) = x

theorem Started.filled (h : Started L prim w₀ (firstKeys prim L.nvS).length st) : Filled L prim w₀ 0 st := by
  refine ⟨h.ok, h.groupCount, h.duplicateCount, h.marked, h.primary, h.start, fun g p hg => ?_,
    fun g p _ i x hx => nomatch hx⟩
  exact h.zero g (List.getElem?_eq_some_iff.1 hg).1

theorem Filled.step (hw : ParentsIn L prim w₀) (h : Filled L prim w₀ n st) (hn : n < L.nvS) :
    Filled L prim w₀ (n + 1) (fillDuplicate L st n) := by
  have hword := h.marked.parent hw hn
  rcases hk : prim n with _ | p
  · have hsame : fillDuplicate L st n = st := if_pos (by simp [hword, hk])
    have hplaces : ∀ p, placesOf prim (n + 1) p = placesOf prim n p := fun p =>
      placesOf_other (by simp [hk])
    rw [hsame]
    exact ⟨h.ok, h.groupCount, h.duplicateCount, h.marked, h.primary, h.start,
      fun g p hg => by rw [hplaces, h.count g p hg],
      fun g p hg i x hx => h.loffs g p hg i x (by rwa [hplaces] at hx)⟩
  · obtain ⟨g, hg⟩ := mem_iff_getElem?.1 (mem_firstKeys.2 ⟨n, hn, hk⟩)
    have hlen := (List.getElem?_eq_some_iff.1 hg).1
    have hstart := h.start g hlen
    have hcount := h.count g p hg
    have hlt := placesOf_length_lt hn hk
    have hle := blockStart_add_le (groupSize prim L.nvS (firstKeys prim L.nvS)) hlen
    rw [blockStart_groupSize firstKeys_nodup fun _ => mem_firstKeys, groupSize_eq hg] at hle
    have hgc := h.groupCount
    have hdc := h.duplicateCount
    have hstep : fillDuplicate L st n = { st with
        loffs := update st.loffs
          (blockStart (groupSize prim L.nvS (firstKeys prim L.nvS)) g + (placesOf prim n p).length) n
        groups := update st.groups (g * 3 + 2) ((placesOf prim n p).length + 1) } := by
      have hword' : st.window.loadInt (L.dedupParentsOffset + n * 4) = p + 1 := by rw [hword, hk]; rfl
      have hne : ¬ (!st.ok || (p : ℤ) + 1 == 0) = true := by simp [h.ok]; omega
      simp only [fillDuplicate, hword', if_neg hne, Int.add_sub_cancel, toNat_natCast,
        h.marked.set g p hg, hstart, hcount, if_neg (show ¬ ((g : ℤ) < 0 ∨ (st.groupCount : ℤ) ≤ g) by omega)]
      rw [if_neg (by omega), ← natCast_add, toNat_natCast]
    rw [hstep]
    refine ⟨h.ok, h.groupCount, h.duplicateCount, h.marked, fun i q hi => ?_, fun i hi => ?_, fun i q hi => ?_,
      fun i q hi j x hx => ?_⟩ <;> dsimp only
    · rw [update_of_ne (by omega)]
      exact h.primary i q hi
    · rw [update_of_ne (by omega)]
      exact h.start i hi
    · by_cases hig : i = g
      · subst hig
        obtain rfl := some.inj (hg.symm.trans hi)
        rw [update_self, placesOf_same hk, length_append]
        rfl
      · have hpq : p ≠ q := by
          rintro rfl
          exact hig (firstKeys_index hi hg)
        rw [update_of_ne (by omega), placesOf_other (by simp [hk, hpq]), h.count i q hi]
    · -- the new entry stands behind those of its group, and outside the blocks of the others
      have hj := (List.getElem?_eq_some_iff.1 hx).1
      by_cases hig : i = g
      · subst hig
        obtain rfl := some.inj (hg.symm.trans hi)
        rw [placesOf_same hk] at hx hj
        rw [length_append, length_singleton] at hj
        by_cases hlast : j = (placesOf prim n p).length
        · rw [hlast, List.getElem?_concat_length] at hx
          rw [hlast, update_self, some.inj hx]
        · rw [List.getElem?_append_left (by omega)] at hx
          rw [update_of_ne (by omega)]
          exact h.loffs i p hi j x hx
      · have hpq : p ≠ q := by
          rintro rfl
          exact hig (firstKeys_index hi hg)
        rw [placesOf_other (by simp [hk, hpq])] at hx hj
        have hqle := (placesOf_mono prim q hn.le).length_le
        rw [update_of_ne]
        · exact h.loffs i q hi j x hx
        · intro heq
          exact hig (block_unique (by rw [groupSize_eq hi]; omega) (by rw [groupSize_eq hg]; omega) heq).1

theorem filled_foldl (hw : ParentsIn L prim w₀) (h : Started L prim w₀ (firstKeys prim L.nvS).length st)
    (hn : n ≤ L.nvS) : Filled L prim w₀ n ((List.range n).foldl (fillDuplicate L) st) := by
  induction n with
  | zero => exact h.filled
  | succ n ih =>
    rw [range_succ, foldl_append]
    exact (ih (by omega)).step hw hn

/-! ## The whole table -/

theorem duplicatePlan_filled (hw : ParentsIn L prim w₀) (groups loffs : ℕ → ℤ) :
    Filled L prim w₀ L.nvS (duplicatePlan L w₀ groups loffs) := by
  have hcounted := counted_foldl hw groups loffs (Nat.le_refl L.nvS)
  unfold duplicatePlan
  generalize (List.range L.nvS).foldl (countDuplicate L) _ = counted at hcounted
  have hstarted := started_foldl hcounted (Nat.le_refl _)
  have htotal := hstarted.total
  rw [blockStart_groupSize firstKeys_nodup fun _ => mem_firstKeys, ← hstarted.duplicateCount] at htotal
  dsimp only
  rw [hcounted.groupCount, if_neg (by simp [hstarted.ok, htotal])]
  exact filled_foldl hw hstarted (Nat.le_refl _)

theorem Filled.table (h : Filled L prim w₀ L.nvS st) {counts : ℕ → ℤ} (h0 : counts 0 = st.groupCount)
    (h1 : counts 1 = st.duplicateCount) :
    DuplicateTable L.nvS prim (firstKeys prim L.nvS) st.groups st.loffs counts where
  nodup := firstKeys_nodup
  mem _ := mem_firstKeys
  groupCount := by rw [h0, h.groupCount]
  duplicateCount := by rw [h1, h.duplicateCount]
  primary := h.primary
  start := h.start
  count := h.count
  loffs := h.loffs

end Plan

/-! ## Rows -/

theorem copyBytesGmToGm_const (m : Bytes) (d : ℕ) (src : Bytes) (s bytes : ℕ) :
    copyBytesGmToGm m d (fun _ => src) s bytes = m.copy d src s bytes :=
  Cells.copyTiles_eq (by decide) fun _ _ _ _ => rfl

theorem copyBytesGmToGm_id {m : Bytes} {d s bytes : ℕ} (h : d + bytes ≤ s ∨ s + bytes ≤ d) :
    copyBytesGmToGm m d id s bytes = m.copy d m s bytes :=
  Cells.copyTiles_eq (by decide) fun m' hm' i hi => hm' _ (by omega)

section Expand
variable {L : DispatchLayout} {prim : ℕ → Option ℕ} {chunk : ℕ} {w : Bytes}

/-- Some duplicates have the rows of their primaries. -/
structure Expanded (L : DispatchLayout) (prim : ℕ → Option ℕ) (chunk : ℕ) (w : Bytes) (done : List ℕ)
    (st : Bytes × Bool) : Prop where
  ok : st.2 = true
  duplicate : ∀ x ∈ done, prim x ≠ none
  row : ∀ x < L.nvS, ∀ b < L.bytesOf chunk, st.1 (x * L.hiddenChunkStride + b) =
    w ((if x ∈ done then (prim x).getD x else x) * L.hiddenChunkStride + b)
  rest : ∀ a, L.nvS * L.hiddenChunkStride ≤ a → st.1 a = w a

/-- Primaries are slots that are no duplicates. -/
structure PrimariesOk (nvS : ℕ) (prim : ℕ → Option ℕ) : Prop where
  lt : ∀ x < nvS, ∀ p, prim x = some p → p < nvS
  none : ∀ x < nvS, ∀ p, prim x = some p → prim p = none

theorem bytesOf_le (chunk : ℕ) (hL : L.hiddenChunkBytes ≤ L.hiddenChunkStride) :
    L.bytesOf chunk ≤ L.hiddenChunkStride :=
  (Nat.min_le_right _ _).trans hL

theorem Expanded.expandRow {st : Bytes × Bool} {loffs : ℕ → ℤ} {start : ℤ} {index x : ℕ}
    (hL : L.hiddenChunkBytes ≤ L.hiddenChunkStride) (hprim : PrimariesOk L.nvS prim)
    (h : Expanded L prim chunk w done st) (hx : x < L.nvS) (hp : prim x = some p)
    (hloff : loffs (start + index).toNat = x) :
    Expanded L prim chunk w (done ++ [x]) (expandRow L chunk p loffs start st index) := by
  have hpp := hprim.none x hx p hp
  have hne : x ≠ p := by
    rintro rfl
    rw [hpp] at hp
    exact nomatch hp
  have hbytes := bytesOf_le chunk hL
  have hapart := row_apart L.hiddenChunkStride hne
  have hstep : MoonEpV1.expandRow L chunk p loffs start st index =
      (st.1.copy (x * L.hiddenChunkStride) st.1 (p * L.hiddenChunkStride) (L.bytesOf chunk), true) := by
    simp only [MoonEpV1.expandRow, h.ok, hloff, Bool.not_true, Bool.false_eq_true, if_false]
    rw [if_neg (by omega), toNat_natCast, copyBytesGmToGm_id (by omega)]
  rw [hstep]
  refine ⟨rfl, fun y hy => ?_, fun y hy b hb => ?_, fun a ha => ?_⟩
  · rcases mem_append.1 hy with hy | hy
    · exact h.duplicate y hy
    · rw [mem_singleton.1 hy, hp]
      exact nofun
  · dsimp only [Cells.copy]
    by_cases hyx : y = x
    · subst hyx
      rw [if_pos (by omega), if_pos (by simp), hp, Nat.add_sub_cancel_left, h.row p (hprim.lt y hy p hp) b hb,
        if_neg fun hmem => h.duplicate p hmem hpp]
      rfl
    · have hother := row_apart L.hiddenChunkStride hyx
      rw [if_neg (by omega), h.row y hy b hb]
      simp [hyx]
  · have hend := row_le L.hiddenChunkStride hx
    exact (if_neg (by omega)).trans (h.rest a ha)

variable {primaries : List ℕ} {groups loffs counts : ℕ → ℤ}

theorem Expanded.expandGroup {st : Bytes × Bool}
    (hL : L.hiddenChunkBytes ≤ L.hiddenChunkStride) (hprim : PrimariesOk L.nvS prim)
    (ht : DuplicateTable L.nvS prim primaries groups loffs counts) (hg : primaries[g]? = some p)
    (h : Expanded L prim chunk w done st) : Expanded L prim chunk w (done ++ placesOf prim L.nvS p)
      (expandGroup L chunk groups loffs (counts 1) st g) := by
  have hlen := (List.getElem?_eq_some_iff.1 hg).1
  have hstart := ht.start g hlen
  have hcount := ht.count g p hg
  have hle := blockStart_add_le (groupSize prim L.nvS primaries) hlen
  rw [blockStart_groupSize ht.nodup ht.mem, groupSize_eq hg] at hle
  have htotal := ht.duplicateCount
  obtain ⟨y, hy, hyp⟩ := (ht.mem p).1 (mem_of_getElem? hg)
  have hlt := hprim.lt y hy p hyp
  have hpos : 0 < (placesOf prim L.nvS p).length := length_pos_of_mem (mem_placesOf.2 ⟨hy, hyp⟩)
  have hstep : MoonEpV1.expandGroup L chunk groups loffs (counts 1) st g =
      (List.range (placesOf prim L.nvS p).length).foldl
        (MoonEpV1.expandRow L chunk p loffs (groups (g * 3 + 1))) st := by
    simp only [MoonEpV1.expandGroup, h.ok, ht.primary g p hg, hcount, Bool.not_true, Bool.false_eq_true,
      if_false, toNat_natCast]
    rw [if_neg (by omega)]
  rw [hstep]
  have hrun : ∀ n ≤ (placesOf prim L.nvS p).length,
      Expanded L prim chunk w (done ++ (placesOf prim L.nvS p).take n)
        ((List.range n).foldl (MoonEpV1.expandRow L chunk p loffs (groups (g * 3 + 1))) st) := by
    intro n
    induction n with
    | zero => intro _; simpa using h
    | succ n ih =>
      intro hn
      have hget := List.getElem?_eq_getElem (Nat.lt_of_succ_le hn)
      have hmem := mem_placesOf.1 (getElem_mem (Nat.lt_of_succ_le hn))
      rw [range_succ, foldl_append, take_succ_eq_append_getElem (Nat.lt_of_succ_le hn), ← append_assoc]
      refine (ih (by omega)).expandRow hL hprim hmem.1 hmem.2 ?_
      rw [hstart, ← natCast_add, toNat_natCast]
      exact ht.loffs g p hg n _ hget
  have hall := hrun _ (Nat.le_refl _)
  rwa [take_length] at hall

theorem expanded_foldl (chunk : ℕ) (w : Bytes) (hL : L.hiddenChunkBytes ≤ L.hiddenChunkStride)
    (hprim : PrimariesOk L.nvS prim) (ht : DuplicateTable L.nvS prim primaries groups loffs counts)
    (hn : n ≤ primaries.length) : Expanded L prim chunk w ((primaries.take n).flatMap (placesOf prim L.nvS))
      ((List.range n).foldl (expandGroup L chunk groups loffs (counts 1)) (w, true)) := by
  induction n with
  | zero => exact ⟨rfl, nofun, fun _ _ _ _ => rfl, fun _ _ => rfl⟩
  | succ n ih =>
    have hn' := Nat.lt_of_succ_le hn
    rw [range_succ, foldl_append, take_succ_eq_append_getElem hn', flatMap_append, flatMap_singleton]
    exact (ih (by omega)).expandGroup hL hprim ht (List.getElem?_eq_getElem hn')

theorem expandDuplicateRows_spec {t : DispatchTask} {rank : ℕ} {m : DispatchMem} (chunk : ℕ)
    (hL : t.layout.hiddenChunkBytes ≤ t.layout.hiddenChunkStride) (hprim : PrimariesOk t.layout.nvS prim)
    (ht : DuplicateTable t.layout.nvS prim primaries (m.dupGroups rank) (m.dupLoffs rank) (m.dupCounts rank)) :
    ∃ w, expandDuplicateRows t rank chunk m = ({ m with window := update m.window rank w }, true) ∧
      (∀ x < t.layout.nvS, ∀ b < t.layout.bytesOf chunk, w (x * t.layout.hiddenChunkStride + b) =
        m.window rank ((prim x).getD x * t.layout.hiddenChunkStride + b)) ∧
      ∀ a, t.layout.nvS * t.layout.hiddenChunkStride ≤ a → w a = m.window rank a := by
  have h := expanded_foldl chunk (m.window rank) hL hprim ht (Nat.le_refl primaries.length)
  rw [take_length] at h
  have hgroups := ht.groupCount
  have hdups := ht.duplicateCount
  have hle := keyedCount_le prim t.layout.nvS
  have hkeys : primaries.length ≤ keyedCount prim t.layout.nvS := by
    rw [(perm_ext_iff_of_nodup ht.nodup firstKeys_nodup).2 (fun p => (ht.mem p).trans mem_firstKeys.symm)
      |>.length_eq]
    exact firstKeys_length_le prim t.layout.nvS
  refine ⟨_, ?_, fun x hx b hb => ?_, h.rest⟩
  · rw [expandDuplicateRows]
    dsimp only
    rw [if_neg (by omega), hgroups, toNat_natCast, h.ok]
  · rw [h.row x hx b hb]
    rcases hp : prim x with _ | p
    · simp
    · rw [if_pos]
      exact mem_flatMap.2 ⟨p, (ht.mem p).2 ⟨x, hx, hp⟩, mem_placesOf.2 ⟨hx, hp⟩⟩

end Expand

end TileXR.MoonEpV1
