import Mathlib.Algebra.Order.BigOperators.Group.Finset
import TileXR.MoonEpV1.Scatter

/-!
# What a dispatch delivers

The invariant of the launch, phase by phase. Between chunks the outputs have the chunks that are done
(`Kept`); in the phase of the routes the windows have what the ranks have sent so far (`Scattered`); in the
last phase of a chunk each rank works for itself (`Draining`).
-/

namespace TileXR.MoonEpV1
open Option
open Function (update update_self update_of_ne)
open Lib

section Spec
variable (t : DispatchTask)

/-- A byte of the row that belongs into a slot. -/
def rowByte (d x b : ℕ) : BitVec 8 :=
  (t.routes.routeTo d x).elim 0 fun route =>
    t.hiddenSh route.1 (route.2 / t.layout.k * t.layout.hiddenRowBytes + b)

def weightByte (d x b : ℕ) : BitVec 8 :=
  (t.routes.routeTo d x).elim 0 fun route => t.routeWeightsSk route.1 (route.2 * 4 + b)

end Spec

structure RankMem where
  window : Bytes
  hiddenNvsh : Bytes
  routeWeightsNvs : Bytes
  dupGroups : ℕ → ℤ
  dupLoffs : ℕ → ℤ
  dupCounts : ℕ → ℤ

def DispatchMem.rank (m : DispatchMem) (d : ℕ) : RankMem :=
  ⟨m.window d, m.hiddenNvsh d, m.routeWeightsNvs d, m.dupGroups d, m.dupLoffs d, m.dupCounts d⟩

section Parts
variable (t : DispatchTask) (d : ℕ)

def RowsDone (chunks : ℕ) (m : RankMem) : Prop :=
  ∀ x < t.layout.nvS, ∀ b < t.layout.hiddenRowBytes, b < chunks * t.layout.hiddenChunkBytes →
    m.hiddenNvsh (x * t.layout.hiddenRowBytes + b) = rowByte t d x b

def WeightsDone (m : RankMem) : Prop :=
  0 < t.layout.routeWeightsBytes → ∀ x < t.layout.nvS, ∀ b < 4, m.routeWeightsNvs (x * 4 + b) = weightByte t d x b

def TableDone (m : RankMem) : Prop :=
  ∃ primaries, DuplicateTable t.layout.nvS (t.routes.primaryOf d) primaries m.dupGroups m.dupLoffs m.dupCounts

structure Kept (chunks : ℕ) (m : RankMem) : Prop where
  rows : RowsDone t d chunks m
  weights : 0 < chunks → WeightsDone t d m
  table : 0 < chunks → TableDone t d m

/-- In the last phase of a chunk, before the given step. -/
structure Draining (chunk step : ℕ) (m : RankMem) : Prop where
  scattered : step = 0 → Scattered t chunk (fun _ => t.layout.n) d m.window
  sent : step = 1 → ∀ x < t.layout.nvS, ∀ b < t.layout.bytesOf chunk,
    m.window (x * t.layout.hiddenChunkStride + b) =
      ((t.routes.routeTo d x).filter fun route => 0 ≤ t.dst route.1 route.2).elim 0 fun route =>
        t.hiddenSh route.1
          (route.2 / t.layout.k * t.layout.hiddenRowBytes + chunk * t.layout.hiddenChunkBytes + b)
  expanded : step = 2 → ∀ x < t.layout.nvS, ∀ b < t.layout.bytesOf chunk,
    m.window (x * t.layout.hiddenChunkStride + b) = rowByte t d x (chunk * t.layout.hiddenChunkBytes + b)
  weight : step ≤ 3 → chunk = 0 → 0 < t.layout.routeWeightsBytes → ∀ x < t.layout.nvS, ∀ b < 4,
    m.window (t.layout.routeWeightsOffset + x * 4 + b) = weightByte t d x b
  rows : RowsDone t d (if step ≤ 2 then chunk else chunk + 1) m
  weights : 0 < chunk ∨ step = 4 → WeightsDone t d m
  table : 0 < chunk ∨ 0 < step → TableDone t d m

end Parts

section Local
variable {t : DispatchTask} {world d chunk : ℕ} {m : DispatchMem}

theorem takenTo_all (hR : t.routes.Proper) (d x : ℕ) :
    takenTo t (fun _ => t.layout.n) d x = t.routes.routeTo d x := by
  rcases hroute : t.routes.routeTo d x with _ | ⟨r, i⟩
  · rw [takenTo, hroute]
    rfl
  · have hi : i < t.layout.n := ((Routes.routeTo_eq_some hR).1 hroute).2.1
    rw [takenTo, hroute, filter_some, if_pos (by simpa using hi)]

theorem Draining.plan (hL : t.layout.Accepted world) (hdedup : buildDedup t.layout.flags) (hR : t.routes.Proper)
    (h : Draining t d 0 0 (m.rank d)) : ∃ m', buildDuplicatePlan t d m = (m', true) ∧ Draining t d 0 1 (m'.rank d) ∧
      ∀ d', d' ≠ d → m'.rank d' = m.rank d' := by
  obtain ⟨h1, h2, h3, h4, h5⟩ := hL.regions hdedup
  have hs := h.scattered rfl
  have hprim := Routes.primariesOk hR d
  have hparents : ParentsIn t.layout (t.routes.primaryOf d) (m.window d) := by
    refine ⟨fun x hx => ?_, hs.groupMap rfl, hprim.lt, h4, h5⟩
    have hparent := hs.parent rfl x hx
    rw [takenTo_all hR] at hparent
    rw [show m.window d = (m.rank d).window from rfl, hparent]
    rcases hroute : t.routes.routeTo d x with _ | route
    · rw [Routes.primaryOf_none hroute]
      rfl
    · rfl
  have hfilled := duplicatePlan_filled hparents (m.dupGroups d) (m.dupLoffs d)
  have hsame := hfilled.marked.same
  refine ⟨(buildDuplicatePlan t d m).1, Prod.ext rfl hfilled.ok, ⟨nofun, fun _ x hx b hb => ?_, nofun,
    fun _ _ hpos x hx b hb => ?_, h.rows, fun h => absurd h (by omega),
    fun _ => ⟨firstKeys (t.routes.primaryOf d) t.layout.nvS, ?_⟩⟩, fun d' hd' => ?_⟩
  · have hrow := hs.row x hx b hb
    have hbytes := bytesOf_le 0 hL.chunk_le
    have hend := row_le t.layout.hiddenChunkStride hx
    rw [takenTo_all hR] at hrow
    rw [← hrow]
    simp only [buildDuplicatePlan, DispatchMem.rank, update_self]
    exact hsame _ (by omega)
  · have hweight := hs.weight rfl hpos x hx b hb
    rw [takenTo_all hR] at hweight
    rw [weightByte, ← hweight]
    have hend := h2 hpos
    simp only [buildDuplicatePlan, DispatchMem.rank, update_self]
    exact hsame _ (by omega)
  · simp only [buildDuplicatePlan, DispatchMem.rank, update_self]
    refine hfilled.table ?_ ?_
    · rw [if_pos hfilled.ok, update_of_ne (by decide), update_self]
    · rw [if_pos hfilled.ok, update_self]
  · simp only [buildDuplicatePlan, DispatchMem.rank, update_of_ne hd']

theorem Draining.noPlan (hR : t.routes.Proper) (hchunk : chunk ≠ 0) (h : Draining t d chunk 0 (m.rank d)) :
    Draining t d chunk 1 (m.rank d) := by
  have hs := h.scattered rfl
  refine ⟨nofun, fun _ x hx b hb => ?_, nofun, fun _ h0 => absurd h0 hchunk, h.rows,
    fun _ => h.weights (.inl (by omega)), fun _ => h.table (.inl (by omega))⟩
  have hrow := hs.row x hx b hb
  rwa [takenTo_all hR] at hrow

theorem rowByte_primary (hR : t.routes.Proper) {x : ℕ} (hx : x < t.layout.nvS) (b : ℕ) :
    ((t.routes.routeTo d ((t.routes.primaryOf d x).getD x)).filter fun route =>
      0 ≤ t.dst route.1 route.2).elim 0 (fun route =>
        t.hiddenSh route.1 (route.2 / t.layout.k * t.layout.hiddenRowBytes + b)) = rowByte t d x b := by
  rcases hroute : t.routes.routeTo d x with _ | ⟨r, i⟩
  · rw [Routes.primaryOf_none hroute, getD_none, hroute, rowByte, hroute]
    rfl
  · by_cases hneg : t.dst r i < 0
    · obtain ⟨p, hp⟩ := Routes.primaryOf_of_neg hR hx hroute hneg
      obtain ⟨-, r', i₀, i', hroute', -, -, htoken, hnonneg, hroute₂⟩ := Routes.primaryOf_eq_some hR hp
      obtain ⟨rfl, rfl⟩ := Prod.mk.inj (some.inj (hroute.symm.trans hroute'))
      have htoken' : i' / t.layout.k = i / t.layout.k := htoken
      have hnonneg' : 0 ≤ t.dst r i' := hnonneg
      rw [hp, getD_some, hroute₂, filter_some, if_pos (by simpa using hnonneg'), rowByte, hroute]
      dsimp only [elim_some]
      rw [htoken']
    · have hnonneg : 0 ≤ t.dst r i := Int.not_lt.1 hneg
      rw [Routes.primaryOf_of_nonneg hroute hnonneg, getD_none, hroute, filter_some,
        if_pos (by simpa using hnonneg), rowByte, hroute]

/-- `ExpandDuplicateRows` -/
theorem Draining.expand (hL : t.layout.Accepted world) (hR : t.routes.Proper) (h : Draining t d chunk 1 (m.rank d)) :
    ∃ m', expandDuplicateRows t d chunk m = (m', true) ∧ Draining t d chunk 2 (m'.rank d) ∧
      ∀ d', d' ≠ d → m'.rank d' = m.rank d' := by
  obtain ⟨primaries, htable⟩ := h.table (.inr Nat.one_pos)
  have hprim : PrimariesOk t.layout.nvS (t.routes.primaryOf d) := Routes.primariesOk hR d
  obtain ⟨w, hexpand, hrow, hrest⟩ := expandDuplicateRows_spec chunk hL.chunk_le hprim htable
  refine ⟨_, hexpand, ⟨nofun, nofun, fun _ x hx b hb => ?_, fun _ h0 hpos x hx b hb => ?_, h.rows,
    fun h' => h.weights (h'.imp id nofun), fun _ => ⟨primaries, htable⟩⟩, fun d' hd' => ?_⟩
  · have hslot : (t.routes.primaryOf d x).getD x < t.layout.nvS := by
      rcases hp : t.routes.primaryOf d x with _ | p
      · exact hx
      · exact hprim.lt x hx p hp
    have hsent := h.sent rfl _ hslot b hb
    simp only [DispatchMem.rank, update_self] at hsent ⊢
    rw [hrow x hx b hb, hsent]
    simp only [Nat.add_assoc]
    exact rowByte_primary hR hx _
  · have hw := h.weight (by decide) h0 hpos x hx b hb
    have hge := hL.weights_ge
    rw [hL.payload_eq] at hge
    rw [← hw]
    simp only [DispatchMem.rank, update_self]
    exact hrest _ (by omega)
  · simp only [DispatchMem.rank, update_of_ne hd']

theorem foldl_copyRows {out src : Bytes} {rowBytes stride offset bytes : ℕ} (hrow : offset + bytes ≤ rowBytes)
    (n : ℕ) {x b : ℕ} (hb : b < rowBytes) :
    (List.range n).foldl (fun out row =>
        copyBytesGmToGm out (row * rowBytes + offset) (fun _ => src) (row * stride) bytes) out (x * rowBytes + b) =
      if x < n ∧ offset ≤ b ∧ b < offset + bytes then src (x * stride + (b - offset))
      else out (x * rowBytes + b) := by
  induction n with
  | zero => rw [if_neg fun h => Nat.not_lt_zero _ h.1]; rfl
  | succ n ih =>
    rw [List.range_succ, List.foldl_append, List.foldl_cons, List.foldl_nil, copyBytesGmToGm_const, Cells.copy]
    by_cases hx : x = n
    · subst hx
      by_cases hin : offset ≤ b ∧ b < offset + bytes
      · rw [if_pos (by omega), if_pos (by omega),
          show x * rowBytes + b - (x * rowBytes + offset) = b - offset by omega]
      · rw [if_neg (by omega), ih, if_neg (by omega), if_neg (by omega)]
    · have hapart := row_apart rowBytes hx
      have hiff : x < n + 1 ↔ x < n := by omega
      rw [if_neg (by omega), ih]
      simp only [hiff]

theorem chunk_lt (hL : t.layout.Accepted world) (h : chunk < t.layout.chunkCount) :
    chunk * t.layout.hiddenChunkBytes < t.layout.hiddenRowBytes := by
  have hpos := hL.row_pos
  rw [hL.chunkCount_eq, Nat.lt_succ_iff, Nat.le_div_iff_mul_le hL.chunk_pos] at h
  omega

/-- `DrainHidden` -/
theorem Draining.drain (hL : t.layout.Accepted world) (hchunk : chunk < t.layout.chunkCount)
    (h : Draining t d chunk 2 (m.rank d)) : Draining t d chunk 3 ((drainHidden t d chunk m).rank d) := by
  refine ⟨nofun, nofun, nofun, fun _ => h.weight (by decide), fun x hx b hb hlt => ?_,
    fun h' => h.weights (h'.imp id nofun), fun _ => h.table (.inr (by decide))⟩
  rw [if_neg (by decide), Nat.succ_mul] at hlt
  have hlast := chunk_lt hL hchunk
  have hbytes : t.layout.bytesOf chunk =
      min (t.layout.hiddenRowBytes - chunk * t.layout.hiddenChunkBytes) t.layout.hiddenChunkBytes := rfl
  simp only [drainHidden, DispatchMem.rank, update_self]
  by_cases hold : b < chunk * t.layout.hiddenChunkBytes
  · rw [foldl_copyRows (by omega) _ hb, if_neg (by omega)]
    exact h.rows x hx b hb hold
  · rw [foldl_copyRows (by omega) _ hb, if_pos (by omega)]
    have hrow := h.expanded rfl x hx (b - chunk * t.layout.hiddenChunkBytes) (by omega)
    rw [Nat.add_sub_cancel' (Nat.le_of_not_lt hold)] at hrow
    exact hrow

theorem Draining.weightsOut (hL : t.layout.Accepted world) (hchunk : chunk = 0)
    (hpos : 0 < t.layout.routeWeightsBytes) (h : Draining t d chunk 3 (m.rank d)) :
    Draining t d chunk 4 ((copyWeights t d m).rank d) := by
  refine ⟨nofun, nofun, nofun, fun h => absurd h (by decide), h.rows, fun _ _ x hx b hb => ?_,
    fun _ => h.table (.inr (by decide))⟩
  have hbytes : t.layout.routeWeightsBytes = t.layout.nvS * 4 := by
    rcases hL.weights_eq with h | h
    · omega
    · exact h
  have hw := h.weight (by decide) hchunk hpos x hx b hb
  simp only [copyWeights, DispatchMem.rank, update_self, copyBytesGmToGm_const] at hw ⊢
  rw [← hw, Cells.copy, if_pos (by omega), Nat.sub_zero, Nat.add_assoc]

theorem Draining.noWeights (hno : ¬ (chunk = 0 ∧ 0 < t.layout.routeWeightsBytes))
    (h : Draining t d chunk 3 (m.rank d)) : Draining t d chunk 4 (m.rank d) := by
  refine ⟨nofun, nofun, nofun, fun h => absurd h (by decide), h.rows, fun _ => ?_,
    fun _ => h.table (.inr (by decide))⟩
  by_cases hchunk : chunk = 0
  · exact fun hpos => absurd ⟨hchunk, hpos⟩ hno
  · exact h.weights (.inl (by omega))

theorem Draining.step (hL : t.layout.Accepted world) (hdedup : buildDedup t.layout.flags)
    (hR : t.routes.Proper) {phase step : ℕ} (hlt : phase < 3 * t.layout.chunkCount) (hphase : phase % 3 = 2)
    (hstep : step < 4) (h : Draining t d (phase / 3) step (m.rank d)) :
    ∃ m', dispatchStep t d phase step m = (m', true) ∧ Draining t d (phase / 3) (step + 1) (m'.rank d) ∧
      ∀ d', d' ≠ d → m'.rank d' = m.rank d' := by
  obtain rfl | rfl | rfl | rfl : step = 0 ∨ step = 1 ∨ step = 2 ∨ step = 3 := by omega
  · by_cases hchunk : phase / 3 = 0
    · rw [hchunk] at h ⊢
      obtain ⟨m', hplan, hm'⟩ := h.plan hL hdedup hR
      refine ⟨m', ?_, hm'⟩
      simp only [dispatchStep, hphase, hchunk]
      rw [if_pos ⟨trivial, hdedup⟩, hplan]
    · refine ⟨m, ?_, h.noPlan hR hchunk, fun _ _ => rfl⟩
      simp only [dispatchStep, hphase]
      rw [if_neg fun h => hchunk h.1]
  · obtain ⟨m', hexpand, hm'⟩ := h.expand hL hR
    refine ⟨m', ?_, hm'⟩
    simp only [dispatchStep, hphase]
    exact hexpand
  · refine ⟨drainHidden t d (phase / 3) m, by simp only [dispatchStep, hphase],
      h.drain hL (by omega), fun d' hd' => ?_⟩
    simp only [drainHidden, DispatchMem.rank, update_of_ne hd']
  · by_cases hout : phase / 3 = 0 ∧ 0 < t.layout.routeWeightsBytes
    · refine ⟨copyWeights t d m, ?_, h.weightsOut hL hout.1 hout.2, fun d' hd' => ?_⟩
      · simp only [dispatchStep, hphase]
        rw [if_pos hout]
      · simp only [copyWeights, DispatchMem.rank, update_of_ne hd']
    · refine ⟨m, ?_, h.noWeights hout, fun _ _ => rfl⟩
      simp only [dispatchStep, hphase]
      rw [if_neg hout]

/-! ## The phases -/

theorem windowBytes_eq (hL : t.layout.Accepted world) :
    t.layout.windowBytes = t.layout.dedupGroupMapOffset + t.layout.dedupGroupMapBytes := by
  have h1 := hL.weights_ge
  have h2 := hL.parents_ge
  have h3 := hL.groupMap_ge
  unfold DispatchLayout.windowBytes
  omega

theorem scattered_clear (hL : t.layout.Accepted world) (hdedup : buildDedup t.layout.flags) (w : Bytes) :
    Scattered t chunk (fun _ => 0) d (clearLocalWindow t.layout w) := by
  obtain ⟨h1, h2, h3, h4, h5⟩ := hL.regions hdedup
  have heven : t.layout.windowBytes / 2 * 2 = t.layout.dedupGroupMapOffset + t.layout.nvS * 4 := by
    obtain ⟨c, hc⟩ := hL.groupMap_dvd
    rw [windowBytes_eq hL, hL.groupMap_eq, hL.parents_eq, if_pos hdedup, hc, kMoonEpStageAlignment]
    omega
  have hnone : ∀ x, takenTo t (fun _ => 0) d x = none := by
    intro x
    rw [takenTo]
    rcases t.routes.routeTo d x with _ | route <;> rfl
  have hzero : ∀ a < t.layout.dedupGroupMapOffset + t.layout.nvS * 4, clearLocalWindow t.layout w a = 0 := by
    intro a ha
    rw [clearLocalWindow, Cells.clearTiles_eq (by decide), heven]
    exact if_pos ⟨Nat.zero_le _, by omega⟩
  have hword : ∀ a, a + 4 ≤ t.layout.dedupGroupMapOffset + t.layout.nvS * 4 →
      (clearLocalWindow t.layout w).loadInt a = 0 := by
    intro a ha
    rw [clearLocalWindow, Cells.clearTiles_eq (by decide), heven]
    exact Bytes.loadInt_clear (Nat.zero_le _) (by omega)
  refine ⟨fun x hx b hb => ?_, fun _ hpos x hx b hb => ?_, fun _ x hx => ?_, fun _ x hx => hword _ (by omega)⟩
  · have hend := row_le t.layout.hiddenChunkStride hx
    have hbytes := bytesOf_le chunk hL.chunk_le
    rw [hnone, hzero _ (by omega)]
    rfl
  · have hend := h2 hpos
    rw [hnone, hzero _ (by omega)]
    rfl
  · rw [hnone, hword _ (by omega)]
    rfl

end Local

def Place.step : Place → ℕ
  | .at step => step
  | .failed => 0

@[simp] theorem Place.step_at (step : ℕ) : (Place.at step).step = step := rfl

/-- The invariant of the launch, for ranks that are all in one phase. -/
structure DispatchInv (t : DispatchTask) (phase : ℕ) (l : ℕ → Place) (m : DispatchMem) : Prop where
  place : ∀ d < t.rankSize, l d = .at (l d).step ∧ (l d).step ≤ dispatchSteps t.layout phase
  kept : phase % 3 ≤ 1 → ∀ d < t.rankSize, Kept t d (phase / 3) (m.rank d)
  cleared : phase % 3 = 0 → ∀ d < t.rankSize, l d = .at 1 →
    Scattered t (phase / 3) (fun _ => 0) d (m.window d)
  scattered : phase % 3 = 1 → ∀ d < t.rankSize,
    Scattered t (phase / 3) (fun r => (l r).step) d (m.window d)
  draining : phase % 3 = 2 → ∀ d < t.rankSize, Draining t d (phase / 3) (l d).step (m.rank d)

section Run
variable {t : DispatchTask} {phase : ℕ} {l : ℕ → Place} {m : DispatchMem} {p j : ℕ}

theorem DispatchInv.place_update (h : DispatchInv t phase l m) (hlt : j < dispatchSteps t.layout phase) :
    ∀ d < t.rankSize, update l p (.at (j + 1)) d = .at (update l p (.at (j + 1)) d).step ∧
      (update l p (.at (j + 1)) d).step ≤ dispatchSteps t.layout phase := by
  intro d hd
  by_cases hdp : d = p
  · subst hdp
    rw [update_self]
    exact ⟨rfl, hlt⟩
  · rw [update_of_ne hdp]
    exact h.place d hd

theorem step_update (l : ℕ → Place) (p j : ℕ) :
    (fun r => (update l p (.at j) r).step) = update (fun r => (l r).step) p j := by
  funext r
  by_cases hr : r = p
  · subst hr
    rw [update_self, update_self]
    rfl
  · rw [update_of_ne hr, update_of_ne hr]

variable (hL : t.layout.Accepted t.rankSize) (hdedup : buildDedup t.layout.flags) (hR : t.routes.Proper)
include hL hdedup

theorem DispatchInv.clear (h : DispatchInv t phase l m) (hphase : phase % 3 = 0)
    (hlt : j < dispatchSteps t.layout phase) :
    ∃ m', dispatchStep t p phase j m = (m', true) ∧ DispatchInv t phase (update l p (.at (j + 1))) m' := by
  have hstep : dispatchStep t p phase j m =
      ({ m with window := update m.window p (clearLocalWindow t.layout (m.window p)) }, true) := by
    simp only [dispatchStep, hphase]
  refine ⟨_, hstep, h.place_update hlt, fun _ d hd => ?_, fun _ d hd hone => ?_, by omega, by omega⟩
  · have hk := h.kept (by omega) d hd
    exact ⟨hk.rows, hk.weights, hk.table⟩
  · by_cases hdp : d = p
    · subst hdp
      dsimp only
      rw [update_self]
      exact scattered_clear hL hdedup _
    · dsimp only
      rw [update_of_ne hdp] at hone ⊢
      exact h.cleared hphase d hd hone

include hR

theorem DispatchInv.scatter (h : DispatchInv t phase l m) (hphase : phase % 3 = 1) (hp : p < t.rankSize)
    (hj : l p = .at j) (hlt : j < dispatchSteps t.layout phase) :
    ∃ m', dispatchStep t p phase j m = (m', true) ∧ DispatchInv t phase (update l p (.at (j + 1))) m' := by
  have hn : j < t.layout.n := by simpa only [dispatchSteps, hphase] using hlt
  obtain ⟨d, hd, x, hx, hraw, -, -⟩ := Routes.raw_eq hR hp hn
  have hroute := (Routes.routeTo_eq_some hR).2 ⟨hp, hn, hraw⟩
  have hstep := scatterRoute_eq (phase / 3) m hdedup hR hx hd hroute
  refine ⟨_, by simp only [dispatchStep, hphase]; exact hstep, h.place_update hlt, fun _ d' hd' => ?_,
    by omega, fun _ d' hd' => ?_, by omega⟩
  · have hk := h.kept (by omega) d' hd'
    exact ⟨hk.rows, hk.weights, hk.table⟩
  · have hs := h.scattered hphase d' hd'
    have hdone : (l p).step = j := by rw [hj]; rfl
    rw [step_update, ← hdone]
    rw [← hdone] at hroute
    dsimp only
    by_cases hdd : d' = d
    · subst hdd
      rw [update_self]
      exact hs.route hL hdedup hR hx hroute
    · rw [update_of_ne hdd]
      refine hs.other fun y hy heq => hdd ?_
      have heq' := ((Routes.routeTo_eq_some hR).1 heq).2.2
      have hroute' := ((Routes.routeTo_eq_some hR).1 hroute).2.2
      have hrow : d' * t.layout.nvS + y = d * t.layout.nvS + x := by
        exact_mod_cast heq'.symm.trans hroute'
      exact (row_unique hy hx hrow).1

theorem DispatchInv.step (h : DispatchInv t phase l m) (hlast : phase < 3 * t.layout.chunkCount)
    (hp : p < t.rankSize) (hj : l p = .at j) (hlt : j < dispatchSteps t.layout phase) :
    ∃ m', dispatchStep t p phase j m = (m', true) ∧ DispatchInv t phase (update l p (.at (j + 1))) m' := by
  obtain hphase | hphase | hphase : phase % 3 = 0 ∨ phase % 3 = 1 ∨ phase % 3 = 2 := by omega
  · exact h.clear hL hdedup hphase hlt
  · exact h.scatter hL hdedup hR hphase hp hj hlt
  · have hd := h.draining hphase p hp
    have hfour : j < 4 := by simpa only [dispatchSteps, hphase] using hlt
    rw [hj] at hd
    obtain ⟨m', hstep, hdrain, hframe⟩ := Draining.step hL hdedup hR hlast hphase hfour hd
    refine ⟨m', hstep, h.place_update hlt, by omega, by omega, by omega, fun _ d hd => ?_⟩
    by_cases hdp : d = p
    · subst hdp
      rw [update_self]
      exact hdrain
    · rw [update_of_ne hdp, hframe d hdp]
      exact h.draining hphase d hd

omit hL hdedup in
theorem DispatchInv.next (h : DispatchInv t phase l m)
    (hdone : ∀ d < t.rankSize, l d = .at (dispatchSteps t.layout phase)) :
    DispatchInv t (phase + 1) (fun _ => .at 0) m := by
  refine ⟨fun _ _ => ⟨rfl, Nat.zero_le _⟩, fun hle d hd => ?_, fun _ _ _ h => ?_, fun h1 d hd => ?_,
    fun h2 d hd => ?_⟩
  · obtain hphase | hphase : phase % 3 = 0 ∨ phase % 3 = 2 := by omega
    · rw [show (phase + 1) / 3 = phase / 3 by omega]
      exact h.kept (by omega) d hd
    · have hdrain := h.draining hphase d hd
      have hfour : (l d).step = 4 := by rw [hdone d hd, dispatchSteps, hphase]; rfl
      rw [hfour] at hdrain
      rw [show (phase + 1) / 3 = phase / 3 + 1 by omega]
      exact ⟨hdrain.rows, fun _ => hdrain.weights (.inr rfl), fun _ => hdrain.table (.inr (by decide))⟩
  · exact absurd (Place.at.inj h) (by decide)
  · rw [show (phase + 1) / 3 = phase / 3 by omega]
    refine h.cleared (by omega) d hd ?_
    rw [hdone d hd, dispatchSteps, show phase % 3 = 0 by omega]
    rfl
  · have hs : Scattered t (phase / 3) (fun _ => t.layout.n) d (m.window d) := by
      refine (h.scattered (by omega) d hd).congr hR fun r hr => ?_
      rw [hdone r hr, dispatchSteps, show phase % 3 = 1 by omega]
      rfl
    have hk := h.kept (by omega) d hd
    rw [show (phase + 1) / 3 = phase / 3 by omega]
    refine ⟨fun _ => hs, nofun, nofun, fun _ h0 hpos x hx b hb => ?_, hk.rows,
      fun h' => hk.weights (h'.resolve_right nofun), fun h' => hk.table (h'.resolve_right (by decide))⟩
    have hweight := hs.weight h0 hpos x hx b hb
    rwa [takenTo_all hR] at hweight

omit hR in
theorem dispatchValid_of_accepted (hmagic : 0 < t.magic) (hp : p < t.rankSize) :
    dispatchValid t.layout p t.rankSize t.magic = true := by
  have hn : 0 < t.layout.n := by
    rw [hL.n_eq]
    exact Nat.mul_pos hL.s_pos hL.k_pos
  have hwindow := windowBytes_eq hL
  have hle := hL.window_le
  have hparents := hL.parents_eq
  rw [if_pos hdedup] at hparents
  simp only [dispatchValid, Bool.and_eq_true, Bool.or_eq_true, decide_eq_true_eq, beq_iff_eq, hdedup,
    Bool.not_true, Bool.false_eq_true, false_and, true_and, false_or, and_assoc]
  refine ⟨hp, hL.s_pos, hL.k_pos, hL.k_le, hL.n_eq, hL.nvS_ge, hL.row_pos, hL.chunk_pos, hL.chunk_le,
    Nat.mod_eq_zero_of_dvd hL.stride_dvd, ?_, hL.payload_eq, by omega, hmagic, hL.flags_lt, hL.weights_eq,
    hparents, hL.groupMap_eq⟩
  rw [hL.chunkCount_eq]
  exact Nat.succ_pos _

end Run

end TileXR.MoonEpV1
