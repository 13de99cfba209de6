import TileXR.Plan.LayoutSpec
import TileXR.Plan.Sim

/-!
# The layout of one rank against the reference layout

Both planners run `BuildLayouts` over the same tables; the reference planner writes the arrays of all
ranks, a rank only its own slice and, for all destinations, the remote rows. `LayoutSim` relates the
two after any number of destinations, also when the groups of a destination do not fit and the call
returns early: what was written before the return agrees as well.

The only difference is the index `dst * prefetchSlots` of the reference planner, an `int32` product:
`RowsRepresentable` says it does not overflow for a destination that has a remote row.
-/

namespace TileXR.Plan
open List
open Function (update update_self update_of_ne)
open Lib
open Reference (RefLayout)
open List (range)

variable {a : Layout × Bool} {b : RefLayout × Bool}
variable {c : Ctx} {n : ℕ} {o : Layout} {r : RefLayout} {t : Tables}

/-- The reference planner's index of every remote row fits an `int32`. -/
def RowsRepresentable (p : Params) (t : Tables) : Prop :=
  ∀ d < p.rankSize, foreignExperts p t d ≠ [] → d * p.prefetchSlots ≤ int32Max

/-- What both planners keep of the remote rows. -/
structure LayoutSim (c : Ctx) (o : Layout) (r : RefLayout) : Prop where
  rows : o.rows = r.rows
  remoteExperts : c.metadata = true → o.remoteExperts = r.expertsToCopy
  expertsToCopy : o.expertsToCopy = r.expertsToCopy c.rank
  expertTargets : c.metadata = true →
    ∀ l < c.expertsPerRank, o.expertTargets l = r.expertTargets (c.rank * c.expertsPerRank + l)
  remoteStats0 : o.remoteStats0 = r.remoteStats0 c.rank
  remoteStats1 : o.remoteStats1 = r.remoteStats1 c.rank
  base : o.expertPhysicalBase = r.expertPhysicalBase
  cuSeqlens : o.cuSeqlens = r.cuSeqlens c.rank

theorem LayoutSim.initial (c : Ctx) : LayoutSim c Layout.initial RefLayout.initial :=
  ⟨rfl, fun _ => rfl, rfl, fun _ _ _ => rfl, rfl, rfl, rfl, rfl⟩

/-! ## The remote rows -/

theorem stdSort_foreignExperts (p : Params) (t : Tables) (d : ℕ) :
    stdSort (Reference.expertBefore (t.alloc d)) (foreignExperts p t d) = remoteRowOf p t d :=
  (insertSort_eq_stdSort (expertBefore_strict _) _).symm

/-- Entry `k + i` of a slot table after writing `row` from slot `k` on. -/
def writtenSlots (f : ℕ → ℤ) (k : ℕ) (row : List ℕ) (slot : ℕ) : ℤ :=
  if k ≤ slot then (match row[slot - k]? with
    | some e => (e : ℤ)
    | none => f slot) else f slot

theorem writtenSlots_cons (f : ℕ → ℤ) (k e : ℕ) (row : List ℕ) :
    writtenSlots (update f k (e : ℤ)) (k + 1) row = writtenSlots f k (e :: row) := by
  funext slot
  unfold writtenSlots
  rcases Nat.lt_trichotomy slot k with hlt | rfl | hgt
  · rw [if_neg (by omega), if_neg (by omega), update_of_ne (by omega)]
  · rw [if_neg (by omega), if_pos le_rfl, update_self, Nat.sub_self]; rfl
  · rw [if_pos (by omega), if_pos (by omega), update_of_ne (by omega),
      show slot - k = slot - (k + 1) + 1 by omega, List.getElem?_cons_succ]

theorem writtenSlots_initial (row : List ℕ) : writtenSlots (fun _ => -1) 0 row = slotEntry row := by
  funext slot
  rw [writtenSlots, if_pos (Nat.zero_le _), Nat.sub_zero]
  rfl

/-- The loop over the slots of a row, in the reference planner. -/
theorem recordSlots_eq (p : Params) (dst : ℕ) (row : List ℕ) (k : ℕ) (o : RefLayout) :
    (row.zipIdx k).foldl (fun o er => Reference.recordSlot p dst o er.2 er.1) o =
      { o with
        expertsToCopy := update o.expertsToCopy dst (writtenSlots (o.expertsToCopy dst) k row)
        remoteStats1 := fun r => o.remoteStats1 r + (row.filter (p.homeRank · = r)).length
        expertTargets := row.foldl (markTarget dst) o.expertTargets } := by
  induction row generalizing k o with
  | nil =>
    have hw : writtenSlots (o.expertsToCopy dst) k [] = o.expertsToCopy dst := by
      funext slot; simp [writtenSlots]
    simp [hw]
  | cons e row ih =>
    rw [zipIdx_cons, foldl_cons, ih]
    unfold Reference.recordSlot
    dsimp only
    have hindex : p.homeRank e * p.expertsPerRank + (e - p.homeRank e * p.expertsPerRank) = e :=
      Nat.add_sub_of_le (Nat.div_mul_le_self _ _)
    rw [update_self, Function.update_idem, writtenSlots_cons, hindex]
    congr 1
    funext r
    rw [add1_apply]
    by_cases hr : p.homeRank e = r
    · rw [filter_cons_of_pos (by simpa using hr), if_pos hr.symm, length_cons]; omega
    · rw [filter_cons_of_neg (by simpa using hr), if_neg fun h => hr h.symm]; omega

/-- The target masks of the owned experts, read in the table of all experts. -/
theorem markTargets_owned (hE : 0 < c.expertsPerRank) (dst : ℕ) (row : List ℕ) {tg tg' : ℕ → ℕ → BitVec 64}
    (h : ∀ l < c.expertsPerRank, tg l = tg' (c.rank * c.expertsPerRank + l)) {l : ℕ}
    (hl : l < c.expertsPerRank) : (row.filter (c.homeRank · = c.rank)).foldl
        (fun tg e => markTarget dst tg (e - c.rank * c.expertsPerRank)) tg l =
      row.foldl (markTarget dst) tg' (c.rank * c.expertsPerRank + l) := by
  induction row generalizing tg tg' with
  | nil => exact h l hl
  | cons e row ih =>
    rw [foldl_cons]
    by_cases hhome : c.homeRank e = c.rank
    · rw [filter_cons_of_pos (by simpa using hhome), foldl_cons]
      have hle : c.rank * c.expertsPerRank ≤ e := hhome ▸ Nat.div_mul_le_self _ _
      refine ih fun l hl => ?_
      unfold markTarget
      by_cases hsame : l = e - c.rank * c.expertsPerRank
      · have heq : c.rank * c.expertsPerRank + l = e := by omega
        rw [heq, ← hsame, update_self, update_self, h l hl, heq]
      · rw [update_of_ne hsame, update_of_ne (by omega), h l hl]
    · rw [filter_cons_of_neg (by simpa using hhome)]
      refine ih fun l hl => ?_
      -- an expert of another home is not in this rank's part of the table
      have hne : c.rank * c.expertsPerRank + l ≠ e := by
        rintro rfl
        apply hhome
        rw [Params.homeRank, Nat.mul_comm, Nat.mul_add_div hE, Nat.div_eq_of_lt hl, Nat.add_zero]
      unfold markTarget
      rw [update_of_ne hne, h l hl]

structure RowsSim (c : Ctx) (n : ℕ) (o : Layout) (r : RefLayout) : Prop extends LayoutSim c o r where
  localEnd : o.localEnd = r.cuSeqlens c.rank (c.expertNum + c.prefetchSlots - 1)
  fresh : ∀ d, n ≤ d → r.expertsToCopy d = fun _ => -1
  maxRemote : o.maxRemote = (List.range n).foldl (fun m d => max m (r.remoteStats0 d)) 0

theorem recordRow_sim (hE : 0 < c.expertsPerRank) (h : RowsSim c n o r) (row : List ℕ) :
    RowsSim c (n + 1) (recordRow c o n row)
      (row.zipIdx.foldl (fun o er => Reference.recordSlot c.toParams n o er.2 er.1)
        { r with
          rows := update r.rows n row
          remoteStats0 := update r.remoteStats0 n row.length }) := by
  rw [recordSlots_eq]
  dsimp only
  rw [h.fresh n le_rfl, writtenSlots_initial]
  refine
    { rows := ?_, remoteExperts := fun hm => ?_, expertsToCopy := ?_, expertTargets := fun hm l hl => ?_
      remoteStats0 := ?_, remoteStats1 := ?_, base := h.base, cuSeqlens := h.cuSeqlens
      localEnd := h.localEnd, fresh := fun d hd => ?_, maxRemote := ?_ }
  · simp only [recordRow, h.rows]
  · simp only [recordRow, hm, if_true, h.remoteExperts hm]
  · simp only [recordRow]
    by_cases hn : n = c.rank
    · rw [if_pos hn, hn, update_self]
    · rw [if_neg hn, update_of_ne fun h => hn h.symm, h.expertsToCopy]
  · simp only [recordRow, hm, if_true]
    exact markTargets_owned hE n row (h.expertTargets hm) hl
  · simp only [recordRow]
    by_cases hn : n = c.rank
    · rw [if_pos hn, hn, update_self]
    · rw [if_neg hn, update_of_ne fun h => hn h.symm, h.remoteStats0]
  · simp only [recordRow, h.remoteStats1]
  · simp only [update_of_ne (show d ≠ n by omega)]
    exact h.fresh d (by omega)
  · have hprefix : (range n).foldl (fun m d => max m (update r.remoteStats0 n row.length d)) 0
        = (range n).foldl (fun m d => max m (r.remoteStats0 d)) 0 :=
      foldl_ext _ _ _ fun m d hd => by
        rw [update_of_ne (mem_range.1 hd).ne]
    rw [foldl_range_succ, hprefix, ← h.maxRemote]
    simp only [recordRow, update_self]

/-- The first loop of `BuildLayouts`, when every row fits its slots. -/
theorem recordRows_sim (hE : 0 < c.expertsPerRank)
    (hfit : ∀ d < c.rankSize, (foreignExperts c.toParams t d).length ≤ c.prefetchSlots) (hn : n ≤ c.rankSize) :
    ((∀ d < n, foreignExperts c.toParams t d ≠ [] → d * c.prefetchSlots ≤ int32Max) → ∃ r,
      (range n).foldl (Reference.recordRows c.toParams t) (some (RefLayout.initial, true)) = some (r,
      true) ∧ RowsSim c n ((range n).foldl (recordRows c t) (Layout.initial, true)).1 r) ∧
    ((∃ d < n, foreignExperts c.toParams t d ≠ [] ∧ int32Max < d * c.prefetchSlots) →
      (range n).foldl (Reference.recordRows c.toParams t) (some (RefLayout.initial, true)) = none) := by
  induction n with
  | zero =>
    exact ⟨fun _ => ⟨_, rfl, { LayoutSim.initial c with
      localEnd := rfl, fresh := fun _ _ => rfl, maxRemote := rfl }⟩,
      fun ⟨d, hd, _⟩ => absurd hd (Nat.not_lt_zero _)⟩
  | succ n ih =>
    obtain ⟨ih1, ih2⟩ := ih (by omega)
    obtain ⟨hok, -⟩ := recordRows_done hfit (show n ≤ c.rankSize by omega)
    rw [foldl_range_succ, foldl_range_succ]
    have hlen : (remoteRowOf c.toParams t n).length ≤ c.prefetchSlots :=
      (length_insertSort ..).le.trans (hfit n hn)
    have hnil : remoteRowOf c.toParams t n ≠ [] ↔ foreignExperts c.toParams t n ≠ [] := by
      rw [← length_pos_iff, ← length_pos_iff, remoteRowOf, length_insertSort]
    by_cases hex : ∃ d < n, foreignExperts c.toParams t d ≠ [] ∧ int32Max < d * c.prefetchSlots
    · rw [ih2 hex]
      obtain ⟨d, hd, hne, hbig⟩ := hex
      exact ⟨fun hall => by have := hall d (by omega) hne; omega, fun _ => rfl⟩
    · obtain ⟨r, hr, hsim⟩ := ih1 fun d hd hne => Nat.le_of_not_lt fun hbig => hex ⟨d, hd, hne, hbig⟩
      rw [hr]
      generalize (range n).foldl (recordRows c t) (Layout.initial, true) = a at hok hsim ⊢
      unfold recordRows Reference.recordRows
      rw [if_neg (by rw [hok]; decide), remoteRow_eq (hfit n hn)]
      dsimp only
      rw [if_neg (by decide), stdSort_foreignExperts, if_neg (by omega)]
      constructor
      · intro hall
        rw [if_neg fun h => by have := hall n (by omega) (hnil.1 h.1); have := h.2; omega]
        exact ⟨_, rfl, recordRow_sim hE hsim _⟩
      · rintro ⟨d, hd, hne, hbig⟩
        obtain rfl : d = n := by
          by_contra hdn
          exact hex ⟨d, by omega, hne, hbig⟩
        rw [if_pos ⟨hnil.2 hne, hbig⟩]

/-! ## The groups -/

/-- After `n` groups of `dst`, from the arrays `o` and `r`. -/
structure GroupSim (c : Ctx) (dst n : ℕ) (o : Layout) (r : RefLayout) (a : GroupAcc)
    (b : Reference.RefGroupAcc) : Prop where
  ok : a.ok = b.ok
  previousEnd : a.previousEnd = b.previousEnd
  sim : LayoutSim c a.out b.out
  localEnd : a.out.localEnd = o.localEnd
  maxRemote : a.out.maxRemote = o.maxRemote
  stats : b.out.remoteStats0 = r.remoteStats0
  others : dst ≠ c.rank → b.out.cuSeqlens c.rank = r.cuSeqlens c.rank
  ahead : b.ok = true → ∀ g, n ≤ g → b.out.cuSeqlens c.rank g = r.cuSeqlens c.rank g
  last : b.ok = true → 0 < n → b.out.cuSeqlens dst (n - 1) = b.previousEnd
  failed : b.ok = false → b.out.cuSeqlens c.rank (c.expertNum + c.prefetchSlots - 1) =
    r.cuSeqlens c.rank (c.expertNum + c.prefetchSlots - 1)

theorem LayoutSim.setBase (h : LayoutSim c o r) (dst : ℕ) (physical : Option ℕ) (start : ℕ) :
    LayoutSim c { o with expertPhysicalBase := Plan.setBase o.expertPhysicalBase dst physical start }
      { r with expertPhysicalBase := Plan.setBase r.expertPhysicalBase dst physical start } :=
  { h with base := by dsimp only; rw [h.base] }

theorem layoutGroup_sim {dst : ℕ} (hn : n < c.expertNum + c.prefetchSlots) (row : List ℕ) {a : GroupAcc}
    {b : Reference.RefGroupAcc} (h : GroupSim c dst n o r a b) :
    GroupSim c dst (n + 1) o r (layoutGroup c t dst row a n) (Reference.layoutGroup c.toParams t dst row b n) := by
  unfold layoutGroup Reference.layoutGroup
  rw [h.ok]
  cases hb : b.ok with
  | false =>
    rw [if_pos (by decide), if_pos (by decide)]
    refine { h with ahead := fun ht => ?_, last := fun ht => ?_ }
    · rw [hb] at ht; cases ht
    · rw [hb] at ht; cases ht
  | true =>
    rw [if_neg (by decide), if_neg (by decide)]
    dsimp only
    have hexpert : (if n < c.expertNum then if row.contains n then none else some n
        else row[n - c.expertNum]?) = groupExpert c.expertNum row n := rfl
    rw [h.previousEnd, hexpert]
    have hbase := h.sim.setBase dst (groupExpert c.expertNum row n) b.previousEnd
    have hfail : GroupSim c dst (n + 1) o r
        { a with
          out := { a.out with
            expertPhysicalBase := setBase a.out.expertPhysicalBase dst
              (groupExpert c.expertNum row n) b.previousEnd }
          previousEnd := b.previousEnd
          ok := false }
        { b with
          out := { b.out with
            expertPhysicalBase := setBase b.out.expertPhysicalBase dst
              (groupExpert c.expertNum row n) b.previousEnd }
          ok := false } :=
      { ok := rfl, previousEnd := rfl, sim := hbase, localEnd := h.localEnd
        maxRemote := h.maxRemote, stats := h.stats, others := h.others
        ahead := fun ht => absurd ht Bool.false_ne_true, last := fun ht => absurd ht Bool.false_ne_true
        failed := fun _ => h.ahead hb _ (by omega) }
    cases paddedCount c.tokenPadding
      (groupCount (t.alloc dst) (groupExpert c.expertNum row n)) with
    | none => exact hfail
    | some padded =>
      dsimp only
      split
      · exact hfail
      · refine
          { ok := rfl, previousEnd := rfl, sim := { hbase with cuSeqlens := ?_ }
            localEnd := h.localEnd, maxRemote := h.maxRemote, stats := h.stats
            others := fun hd => ?_, ahead := fun _ g hg => ?_, last := fun _ _ => ?_
            failed := fun hf => by cases hf }
        · dsimp only
          by_cases hd : dst = c.rank
          · rw [if_pos hd, hd, update_self, h.sim.cuSeqlens]
          · rw [if_neg hd, update_of_ne fun he => hd he.symm, h.sim.cuSeqlens]
        · dsimp only
          rw [update_of_ne fun he => hd he.symm]
          exact h.others hd
        · dsimp only
          by_cases hd : c.rank = dst
          · rw [hd, update_self, update_of_ne (by omega), ← hd]
            exact h.ahead hb g (by omega)
          · rw [update_of_ne hd]
            exact h.ahead hb g (by omega)
        · dsimp only
          rw [update_self, Nat.add_sub_cancel, update_self]

theorem layoutGroups_sim (dst : ℕ) (row : List ℕ) (h : LayoutSim c o r) (hn : n ≤ c.expertNum + c.prefetchSlots) :
    GroupSim c dst n o r ((range n).foldl (layoutGroup c t dst row) ⟨o, 0, true⟩)
      ((range n).foldl (Reference.layoutGroup c.toParams t dst row) ⟨r, 0, true⟩) := by
  induction n with
  | zero => exact ⟨rfl, rfl, h, rfl, rfl, rfl, fun _ => rfl, fun _ _ _ => rfl, nofun, nofun⟩
  | succ n ih =>
    rw [foldl_range_succ, foldl_range_succ]
    exact layoutGroup_sim hn row (ih (by omega))

/-- After the groups of some destinations. -/
structure RanksSim (c : Ctx) (o : Layout) (r : RefLayout) : Prop extends LayoutSim c o r where
  localEnd : o.localEnd = r.cuSeqlens c.rank (c.expertNum + c.prefetchSlots - 1)
  maxRemote : o.maxRemote = (List.range c.rankSize).foldl (fun m d => max m (r.remoteStats0 d)) 0

theorem layoutRank_sim (hpos : 0 < c.expertNum + c.prefetchSlots) (dst : ℕ) (h : RanksSim c a.1 b.1)
    (hok : a.2 = b.2) : RanksSim c (layoutRank c t a dst).1 (Reference.layoutRank c.toParams t b dst).1 ∧
      (layoutRank c t a dst).2 = (Reference.layoutRank c.toParams t b dst).2 := by
  unfold layoutRank Reference.layoutRank
  rw [hok]
  split
  · exact ⟨h, hok⟩
  dsimp only
  rw [h.rows]
  have hg := layoutGroups_sim (t := t) dst (b.1.rows dst) h.toLayoutSim le_rfl
  generalize (range (c.expertNum + c.prefetchSlots)).foldl
    (layoutGroup c t dst (b.1.rows dst)) ⟨a.1, 0, true⟩ = x at hg ⊢
  generalize (range (c.expertNum + c.prefetchSlots)).foldl
    (Reference.layoutGroup c.toParams t dst (b.1.rows dst)) ⟨b.1, 0, true⟩ = y at hg ⊢
  have hmax : x.out.maxRemote =
      (range c.rankSize).foldl (fun m d => max m (y.out.remoteStats0 d)) 0 := by
    rw [hg.maxRemote, h.maxRemote, hg.stats]
  rw [hg.ok]
  cases hy : y.ok with
  | false =>
    rw [if_pos (by decide)]
    exact ⟨{ hg.sim with
      localEnd := by rw [hg.localEnd, h.localEnd, hg.failed hy], maxRemote := hmax }, rfl⟩
  | true =>
    refine ⟨?_, rfl⟩
    simp only [Bool.not_true, Bool.false_eq_true, if_false]
    by_cases hd : dst = c.rank
    · rw [if_pos hd]
      refine { hg.sim with localEnd := ?_, maxRemote := hmax }
      dsimp only
      rw [hg.previousEnd, ← hd, hg.last hy hpos]
    · rw [if_neg hd]
      exact { hg.sim with
        localEnd := by rw [hg.localEnd, h.localEnd, hg.others hd], maxRemote := hmax }

theorem layoutRanks_sim (hpos : 0 < c.expertNum + c.prefetchSlots) (dsts : List ℕ)
    (h : RanksSim c a.1 b.1) (hok : a.2 = b.2) :
    RanksSim c (dsts.foldl (layoutRank c t) a).1 (dsts.foldl (Reference.layoutRank c.toParams t) b).1 ∧
      (dsts.foldl (layoutRank c t) a).2 = (dsts.foldl (Reference.layoutRank c.toParams t) b).2 := by
  exact foldl_rel (r := fun (a : Layout × Bool) (b : RefLayout × Bool) => RanksSim c a.1 b.1 ∧ a.2 = b.2)
    ⟨h, hok⟩ fun dst _ _ _ h => layoutRank_sim hpos dst h.1 h.2

/-- `BuildLayouts` of both planners, when every row fits its slots: the same arrays and status, or an
index of the reference planner overflows. -/
theorem buildLayouts_sim (hE : 0 < c.expertsPerRank) (hpos : 0 < c.expertNum + c.prefetchSlots)
    (hfit : ∀ d < c.rankSize, (foreignExperts c.toParams t d).length ≤ c.prefetchSlots) :
    (RowsRepresentable c.toParams t → ∃ r, Reference.buildLayouts c.toParams t =
        some (r, (buildLayouts c t).2) ∧ RanksSim c (buildLayouts c t).1 r) ∧
    (¬ RowsRepresentable c.toParams t → Reference.buildLayouts c.toParams t = none) := by
  obtain ⟨hfits, hover⟩ := recordRows_sim hE hfit le_rfl
  obtain ⟨hok, -⟩ := recordRows_done hfit le_rfl
  unfold Reference.buildLayouts
  constructor
  · intro hrep
    obtain ⟨r, hr, hsim⟩ := hfits hrep
    unfold buildLayouts
    rw [hr, if_neg (by rw [hok]; decide)]
    dsimp only
    rw [if_neg (by decide)]
    generalize (range c.rankSize).foldl (recordRows c t) (Layout.initial, true) = a at hok hsim ⊢
    obtain ⟨h', hok'⟩ := layoutRanks_sim (t := t) hpos (range c.rankSize) (a := (a.1, true))
      (b := (r, true)) { hsim with } rfl
    exact ⟨_, by rw [hok'], h'⟩
  · intro hrep
    rw [hover]
    by_contra hno
    exact hrep fun d hd hne => Nat.le_of_not_lt fun hbig => hno ⟨d, hd, hne, hbig⟩

end TileXR.Plan
