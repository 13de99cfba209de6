import TileXR.Lib.Blocks
import TileXR.Plan.Run

/-!
# What `BuildLayouts` lays out

On each destination the groups are consecutive blocks: group `e` for an expert that is not in the
remote row, group `expertNum + slot` for the entry of a remote slot, each rounded up to the padding.
`buildLayouts_spec`: when every remote row fits its slots, the call succeeds exactly when the blocks of
every destination end at or below `nvS`, and then `expertPhysicalBase` is where the expert's block
starts. An alignment that does not fit an `int32` never matters: such a block would not fit `nvS`
either.
-/

namespace TileXR.Plan
open Function Lib
open List (range)

variable {a : GroupAcc} {o : Layout} {base : ℕ → ℕ → ℕ}
variable {p : Params} {t : Tables} {dst e n : ℕ} {c : Ctx}

/-- The remote row of a destination: its foreign experts by allocation, largest first, then by id. -/
def remoteRowOf (p : Params) (t : Tables) (dst : ℕ) : List ℕ :=
  insertSort (betterRemote (t.alloc dst)) (foreignExperts p t dst)

def groupSize (p : Params) (t : Tables) (dst g : ℕ) : ℕ :=
  roundUp p.tokenPadding
    (groupCount (t.alloc dst) (groupExpert p.expertNum (remoteRowOf p t dst) g))

/-- The group an expert is laid out in. -/
def groupOf (p : Params) (t : Tables) (dst e : ℕ) : ℕ :=
  if e ∈ remoteRowOf p t dst then p.expertNum + (remoteRowOf p t dst).idxOf e else e

def paddedSum (p : Params) (t : Tables) (dst : ℕ) : ℕ :=
  blockStart (groupSize p t dst) (p.expertNum + p.prefetchSlots)

theorem mem_foreignExperts :
    e ∈ foreignExperts p t dst ↔ e < p.expertNum ∧ p.homeRank e ≠ dst ∧ 0 < t.alloc dst e := by
  simp [foreignExperts]

theorem mem_remoteRowOf : e ∈ remoteRowOf p t dst ↔ e < p.expertNum ∧ p.homeRank e ≠ dst ∧ 0 < t.alloc dst e := by
  rw [remoteRowOf, mem_insertSort, mem_foreignExperts]

theorem remoteRowOf_nodup (p : Params) (t : Tables) (dst : ℕ) : (remoteRowOf p t dst).Nodup :=
  nodup_insertSort.2 (List.nodup_range.filter _)

theorem remoteRow_eq (h : (foreignExperts p t dst).length ≤ p.prefetchSlots) :
    remoteRow p t dst = some (remoteRowOf p t dst) := if_neg (by omega)

/-! ## Groups and experts -/

theorem groupExpert_groupOf (dst : ℕ) (he : e < p.expertNum) :
    groupExpert p.expertNum (remoteRowOf p t dst) (groupOf p t dst e) = some e := by
  unfold groupExpert groupOf
  by_cases hmem : e ∈ remoteRowOf p t dst
  · rw [if_pos hmem, if_neg (by omega), Nat.add_sub_cancel_left]
    exact List.getElem?_idxOf hmem
  · rw [if_neg hmem, if_pos he, if_neg (by simpa using hmem)]

theorem groupOf_lt (he : e < p.expertNum) (hfit : (foreignExperts p t dst).length ≤ p.prefetchSlots) :
    groupOf p t dst e < p.expertNum + p.prefetchSlots := by
  unfold groupOf
  split
  · rename_i hmem
    have hlt := List.idxOf_lt_length_of_mem hmem
    have hlen : (remoteRowOf p t dst).length = (foreignExperts p t dst).length := length_insertSort ..
    omega
  · omega

/-- A group holds one expert, and an expert is in one group. -/
theorem groupExpert_eq_some {g : ℕ} (h : groupExpert p.expertNum (remoteRowOf p t dst) g = some e) :
    e < p.expertNum ∧ g = groupOf p t dst e := by
  unfold groupExpert at h
  split at h
  · rename_i hg
    split at h
    · cases h
    · rename_i hmem
      obtain rfl := Option.some.inj h
      exact ⟨hg, (if_neg (by simpa using hmem)).symm⟩
  · rename_i hg
    have hmem : e ∈ remoteRowOf p t dst := List.mem_of_getElem? h
    refine ⟨(mem_remoteRowOf.1 hmem).1, ?_⟩
    obtain ⟨hlt, hget⟩ := List.getElem?_eq_some_iff.1 h
    have hidx := (remoteRowOf_nodup p t dst).idxOf_getElem _ hlt
    rw [hget] at hidx
    rw [groupOf, if_pos hmem, hidx]
    omega

theorem groupSize_groupOf (he : e < p.expertNum) :
    groupSize p t dst (groupOf p t dst e) = roundUp p.tokenPadding (t.alloc dst e) := by
  rw [groupSize, groupExpert_groupOf dst he]; rfl

/-- The code's padding of a count, against rounding up: it fails only where the block cannot fit. -/
theorem paddedCount_cases {padding : ℕ} (count : ℕ) (hpad : 0 < padding) :
    paddedCount padding count = some (roundUp padding count) ∨
      (paddedCount padding count = none ∧ int32Max < roundUp padding count) := by
  unfold paddedCount alignCount
  split
  · rename_i h0; rw [h0, roundUp_zero hpad]; exact .inl rfl
  · rename_i h0
    split
    · rename_i hbig
      exact .inr ⟨rfl, hbig.2.trans_le (padding_le_roundUp hpad hbig.1)⟩
    · dsimp only
      split
      · rename_i hbig; exact .inr ⟨rfl, hbig⟩
      · exact .inl rfl

/-! ## The remote rows -/

structure RowsDone (c : Ctx) (t : Tables) (n : ℕ) (o : Layout) : Prop where
  rows : ∀ d < n, o.rows d = remoteRowOf c.toParams t d
  remoteExperts : c.metadata = true → ∀ d < n, o.remoteExperts d = slotEntry (remoteRowOf c.toParams t d)
  expertsToCopy : c.rank < n → o.expertsToCopy = slotEntry (remoteRowOf c.toParams t c.rank)

theorem recordRows_done (hfit : ∀ d < c.rankSize, (foreignExperts c.toParams t d).length ≤ c.prefetchSlots)
    (hn : n ≤ c.rankSize) : ((range n).foldl (recordRows c t) (Layout.initial, true)).2 = true ∧
      RowsDone c t n ((range n).foldl (recordRows c t) (Layout.initial, true)).1 := by
  induction n with
  | zero =>
    exact ⟨rfl, fun d hd => absurd hd (Nat.not_lt_zero _), fun _ d hd => absurd hd (Nat.not_lt_zero _),
      fun hr => absurd hr (Nat.not_lt_zero _)⟩
  | succ n ih =>
    obtain ⟨hok, hrows⟩ := ih (by omega)
    rw [foldl_range_succ]
    generalize (range n).foldl (recordRows c t) (Layout.initial, true) = a at hok hrows ⊢
    unfold recordRows
    rw [if_neg (by rw [hok]; decide), remoteRow_eq (hfit n hn)]
    refine ⟨rfl, fun d hd => ?_, fun hm d hd => ?_, fun hr => ?_⟩
    · by_cases hdn : d = n
      · rw [hdn]; exact update_self ..
      · exact (update_of_ne hdn ..).trans (hrows.rows d (by omega))
    · simp only [recordRow, hm, if_true]
      by_cases hdn : d = n
      · rw [hdn]; exact update_self ..
      · exact (update_of_ne hdn ..).trans (hrows.remoteExperts hm d (by omega))
    · by_cases hrn : n = c.rank
      · exact (if_pos hrn).trans (by rw [hrn])
      · exact (if_neg hrn).trans (hrows.expertsToCopy (by omega))

/-! ## The groups of one destination -/

theorem setBase_self (base : ℕ → ℕ → ℕ) (dst e start : ℕ) :
    setBase base dst (some e) start dst e = start := by simp [setBase]

theorem setBase_of_ne {start : ℕ} {physical : Option ℕ} (h : physical ≠ some e) :
    setBase base dst physical start dst e = base dst e := by
  cases physical with
  | none => rfl
  | some e' =>
    have : e ≠ e' := fun he => h (he ▸ rfl)
    simp [setBase, this]

theorem setBase_of_ne_rank {d start : ℕ} (h : d ≠ dst) (physical : Option ℕ) :
    setBase base dst physical start d = base d := by
  cases physical with
  | none => rfl
  | some e => simp [setBase, h]

/-- After the first `n` groups of `dst`, from the arrays `o`. -/
structure GroupsDone (c : Ctx) (t : Tables) (dst : ℕ) (o : Layout) (n : ℕ) (a : GroupAcc) : Prop where
  ok : a.ok = true
  previousEnd : a.previousEnd = blockStart (groupSize c.toParams t dst) n
  base : ∀ g < n, ∀ e, groupExpert c.expertNum (remoteRowOf c.toParams t dst) g = some e →
    a.out.expertPhysicalBase dst e = blockStart (groupSize c.toParams t dst) g
  frame : ∀ d ≠ dst, a.out.expertPhysicalBase d = o.expertPhysicalBase d
  ends : dst = c.rank → ∀ g < n,
    a.out.cuSeqlens g = blockStart (groupSize c.toParams t dst) (g + 1)
  endsFrame : dst ≠ c.rank → a.out.cuSeqlens = o.cuSeqlens
  rows : a.out.rows = o.rows
  remoteExperts : a.out.remoteExperts = o.remoteExperts
  expertsToCopy : a.out.expertsToCopy = o.expertsToCopy

theorem layoutGroup_step (hpad : 0 < c.tokenPadding) (hnvS : c.nvS ≤ int32Max)
    (h : GroupsDone c t dst o n a) : (blockStart (groupSize c.toParams t dst) (n + 1) ≤ c.nvS →
      GroupsDone c t dst o (n + 1) (layoutGroup c t dst (remoteRowOf c.toParams t dst) a n)) ∧
    (c.nvS < blockStart (groupSize c.toParams t dst) (n + 1) →
      (layoutGroup c t dst (remoteRowOf c.toParams t dst) a n).ok = false) := by
  set size := groupSize c.toParams t dst with hsize
  set physical := groupExpert c.expertNum (remoteRowOf c.toParams t dst) n with hphys
  have hsn : size n = roundUp c.tokenPadding (groupCount (t.alloc dst) physical) := rfl
  unfold layoutGroup
  rw [if_neg (by rw [h.ok]; decide)]
  dsimp only
  rw [← hphys, blockStart_succ, hsn]
  rcases paddedCount_cases (groupCount (t.alloc dst) physical) hpad with hp | ⟨hp, hbig⟩
  · rw [hp]
    dsimp only
    rw [h.previousEnd, ← hsize]
    constructor
    · intro hle
      rw [if_neg (by omega)]
      -- the base written for this group's expert is not the base of an earlier group's expert
      have hbase : ∀ g e, groupExpert c.expertNum (remoteRowOf c.toParams t dst) g = some e → g ≠ n →
          physical ≠ some e := by
        intro g e hg hne hpe
        rw [hphys] at hpe
        exact hne ((groupExpert_eq_some (p := c.toParams) hg).2.trans
          (groupExpert_eq_some (p := c.toParams) hpe).2.symm)
      refine
        { ok := rfl, previousEnd := by rw [blockStart_succ, ← hsize, hsn], base := fun g hg e he => ?_
          frame := fun d hd => (setBase_of_ne_rank hd _).trans (h.frame d hd)
          ends := fun hdst g hg => ?_
          endsFrame := fun hdst => (if_neg hdst).trans (h.endsFrame hdst), rows := h.rows
          remoteExperts := h.remoteExperts, expertsToCopy := h.expertsToCopy }
      · by_cases hgn : g = n
        · subst hgn
          rw [← hphys] at he
          rw [he]
          exact setBase_self ..
        · exact (setBase_of_ne (hbase g e he hgn)).trans (h.base g (by omega) e he)
      · dsimp only
        rw [if_pos hdst]
        by_cases hgn : g = n
        · rw [hgn, update_self, blockStart_succ, ← hsize, hsn]
        · exact (update_of_ne hgn ..).trans (h.ends hdst g (by omega))
    · intro hlt
      rw [if_pos (by omega)]
  · rw [hp]
    exact ⟨fun hle => by omega, fun _ => rfl⟩

theorem layoutGroup_stopped {row : List ℕ} (h : a.ok = false) (g : ℕ) : layoutGroup c t dst row a g = a := by
  unfold layoutGroup; rw [if_pos (by simp [h])]

theorem layoutGroups_spec (hpad : 0 < c.tokenPadding) (hnvS : c.nvS ≤ int32Max) (dst : ℕ) (o : Layout) (n : ℕ) :
    (blockStart (groupSize c.toParams t dst) n ≤ c.nvS → GroupsDone c t dst o n ((range n).foldl
        (layoutGroup c t dst (remoteRowOf c.toParams t dst)) ⟨o, 0, true⟩)) ∧
    (c.nvS < blockStart (groupSize c.toParams t dst) n → ((range n).foldl
        (layoutGroup c t dst (remoteRowOf c.toParams t dst)) ⟨o, 0, true⟩).ok = false) := by
  induction n with
  | zero =>
    refine ⟨fun _ => ⟨rfl, rfl, fun g hg => absurd hg (Nat.not_lt_zero _), fun _ _ => rfl,
      fun _ g hg => absurd hg (Nat.not_lt_zero _), fun _ => rfl, rfl, rfl, rfl⟩, fun h => ?_⟩
    rw [blockStart_zero] at h; omega
  | succ n ih =>
    rw [foldl_range_succ]
    rcases Nat.lt_or_ge c.nvS (blockStart (groupSize c.toParams t dst) n) with hover | hle
    · have hmono : blockStart (groupSize c.toParams t dst) n ≤
          blockStart (groupSize c.toParams t dst) (n + 1) := blockStart_mono (Nat.le_succ n)
      rw [layoutGroup_stopped (ih.2 hover)]
      exact ⟨fun h => by omega, fun _ => ih.2 hover⟩
    · exact layoutGroup_step hpad hnvS (ih.1 hle)

/-! ## All destinations -/

/-- What `BuildLayouts` leaves behind when it has laid out the destinations below `n`. -/
structure LayoutOk (c : Ctx) (t : Tables) (n : ℕ) (o : Layout) : Prop where
  rows : ∀ d < c.rankSize, o.rows d = remoteRowOf c.toParams t d
  remoteExperts : c.metadata = true → ∀ d < c.rankSize,
    o.remoteExperts d = slotEntry (remoteRowOf c.toParams t d)
  expertsToCopy : c.rank < c.rankSize → o.expertsToCopy = slotEntry (remoteRowOf c.toParams t c.rank)
  base : ∀ d < n, ∀ e < c.expertNum,
    o.expertPhysicalBase d e = blockStart (groupSize c.toParams t d) (groupOf c.toParams t d e)
  ends : c.rank < n → ∀ g < c.expertNum + c.prefetchSlots,
    o.cuSeqlens g = blockStart (groupSize c.toParams t c.rank) (g + 1)

theorem layoutRank_stopped {a : Layout × Bool} (h : a.2 = false) (d : ℕ) : layoutRank c t a d = a := by
  unfold layoutRank; rw [if_pos (by simp [h])]

theorem layoutRanks_spec (hpad : 0 < c.tokenPadding) (hnvS : c.nvS ≤ int32Max)
    (hfit : ∀ d < c.rankSize, (foreignExperts c.toParams t d).length ≤ c.prefetchSlots)
    (ho : RowsDone c t c.rankSize o) (hn : n ≤ c.rankSize) : ((∀ d < n, paddedSum c.toParams t d ≤ c.nvS) →
      ((range n).foldl (layoutRank c t) (o, true)).2 = true ∧
      LayoutOk c t n ((range n).foldl (layoutRank c t) (o, true)).1) ∧
    ((∃ d < n, c.nvS < paddedSum c.toParams t d) → ((range n).foldl (layoutRank c t) (o, true)).2 = false) := by
  induction n with
  | zero =>
    exact ⟨fun _ => ⟨rfl, ho.rows, ho.remoteExperts, ho.expertsToCopy, fun d hd => absurd hd (Nat.not_lt_zero _),
      fun hr => absurd hr (Nat.not_lt_zero _)⟩, fun ⟨d, hd, _⟩ => absurd hd (Nat.not_lt_zero _)⟩
  | succ n ih =>
    obtain ⟨ih1, ih2⟩ := ih (by omega)
    rw [foldl_range_succ]
    by_cases hall : ∀ d < n, paddedSum c.toParams t d ≤ c.nvS
    · obtain ⟨hok, hdone⟩ := ih1 hall
      generalize (range n).foldl (layoutRank c t) (o, true) = a at hok hdone ⊢
      unfold layoutRank
      rw [if_neg (by rw [hok]; decide), hdone.rows n hn]
      obtain ⟨hs1, hs2⟩ := layoutGroups_spec (t := t) hpad hnvS n a.1 (c.expertNum + c.prefetchSlots)
      constructor
      · intro hall'
        have hg := hs1 (hall' n (by omega))
        dsimp only
        rw [if_neg (by rw [hg.ok]; decide)]
        refine ⟨rfl, ?_⟩
        have key : LayoutOk c t (n + 1) ((range (c.expertNum + c.prefetchSlots)).foldl
            (layoutGroup c t n (remoteRowOf c.toParams t n)) ⟨a.1, 0, true⟩).out := by
          refine ⟨by rw [hg.rows]; exact hdone.rows, by rw [hg.remoteExperts]; exact hdone.remoteExperts,
            by rw [hg.expertsToCopy]; exact hdone.expertsToCopy, fun d hd e he => ?_, fun hr => ?_⟩
          · by_cases hdn : d = n
            · subst hdn
              exact hg.base _ (groupOf_lt (p := c.toParams) he (hfit d hn)) e
                (groupExpert_groupOf (p := c.toParams) _ he)
            · rw [hg.frame d hdn]; exact hdone.base d (by omega) e he
          · by_cases hrn : n = c.rank
            · rw [← hrn]; exact hg.ends hrn
            · rw [hg.endsFrame hrn]; exact hdone.ends (by omega)
        split
        · exact ⟨key.rows, key.remoteExperts, key.expertsToCopy, key.base, key.ends⟩
        · exact key
      · rintro ⟨d, hd, hover⟩
        obtain rfl : d = n := by
          by_contra hne
          have := hall d (by omega); omega
        dsimp only
        rw [if_pos (by rw [hs2 hover]; rfl)]
    · have hex : ∃ d < n, c.nvS < paddedSum c.toParams t d := by
        by_contra hno
        exact hall fun d hd => Nat.le_of_not_lt fun hlt => hno ⟨d, hd, hlt⟩
      rw [layoutRank_stopped (ih2 hex)]
      exact ⟨fun h => absurd (fun d hd => h d (by omega)) hall, fun _ => ih2 hex⟩

theorem buildLayouts_spec (hpad : 0 < c.tokenPadding) (hnvS : c.nvS ≤ int32Max)
    (hfit : ∀ d < c.rankSize, (foreignExperts c.toParams t d).length ≤ c.prefetchSlots) :
    ((∀ d < c.rankSize, paddedSum c.toParams t d ≤ c.nvS) ∧ (buildLayouts c t).2 = .ok ∧
      LayoutOk c t c.rankSize (buildLayouts c t).1) ∨ ((∃ d < c.rankSize, c.nvS < paddedSum c.toParams t d) ∧
      (buildLayouts c t).2 = .errorLayoutExceedsNvS) := by
  obtain ⟨hok, hrows⟩ := recordRows_done hfit le_rfl
  obtain ⟨h1, h2⟩ := layoutRanks_spec hpad hnvS hfit hrows le_rfl
  unfold buildLayouts
  rw [if_neg (by rw [hok]; decide)]
  dsimp only
  by_cases hall : ∀ d < c.rankSize, paddedSum c.toParams t d ≤ c.nvS
  · obtain ⟨hg, hdone⟩ := h1 hall
    exact .inl ⟨hall, if_pos hg, hdone⟩
  · have hex : ∃ d < c.rankSize, c.nvS < paddedSum c.toParams t d := by
      by_contra hno
      exact hall fun d hd => Nat.le_of_not_lt fun hlt => hno ⟨d, hd, hlt⟩
    exact .inr ⟨hex, if_neg (by rw [h2 hex]; decide)⟩

end TileXR.Plan
