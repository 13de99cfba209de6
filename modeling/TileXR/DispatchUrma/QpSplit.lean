import TileXR.Udma.Queue

/-!
# The two queue pairs of a peer

`dispatch_wqe_batch.h`: the routes to a peer are split over two queue pairs, every fourth one going to
QP 1. The position in the period of four is carried from chunk to chunk as the sequence phase. Here the
split is inverted: a route goes to QP 1 exactly if its position counted from the phase is 3 modulo 4.
`combine_v2_wqe_batch.h` and the lane counts of `moonep_combine_schedule.h` are written down again there
and give the same split.
-/

namespace TileXR.DispatchUrma

open Udma (U32)

def kDispatchQpSplitPeriod : U32 := 4

/-- The first position that goes to QP 1. -/
def firstQp1 (sequencePhase : U32) : U32 := (3 - (sequencePhase &&& 3)) &&& 3

def dispatchQp1RouteCount (routeCount sequencePhase : U32) : U32 :=
  let first := firstQp1 sequencePhase
  if routeCount ≤ first then 0 else 1 + (routeCount - 1 - first) / kDispatchQpSplitPeriod

def dispatchQpRouteCount (routeCount sequencePhase qpIdx : U32) : U32 :=
  let qp1Count := dispatchQp1RouteCount routeCount sequencePhase
  if qpIdx = 0 then routeCount - qp1Count else if qpIdx = 1 then qp1Count else 0

def dispatchQpSelectedIndex (qpRouteIndex sequencePhase qpIdx : U32) : U32 :=
  let first := firstQp1 sequencePhase
  if qpIdx = 1 then first + qpRouteIndex * kDispatchQpSplitPeriod
  else if qpIdx ≠ 0 then BitVec.allOnes 32
  else if qpRouteIndex < first then qpRouteIndex
  else
    let after := qpRouteIndex - first
    first + 1 + after / 3 * kDispatchQpSplitPeriod + after % 3

def carryPhase (sequencePhase selectedCount : U32) : U32 := (sequencePhase + selectedCount) &&& 3

end TileXR.DispatchUrma

namespace TileXR.MoonEpCombineV2

open Udma (U32)

def kMoonEpCombineV2QpSplitPeriod : U32 := 4

def qp1TokenCount (tokenCount sequencePhase : U32) : U32 :=
  let firstQp1 := (3 - (sequencePhase &&& 3)) &&& 3
  if tokenCount ≤ firstQp1 then 0
  else 1 + (tokenCount - 1 - firstQp1) / kMoonEpCombineV2QpSplitPeriod

def qpTokenCount (tokenCount sequencePhase qpIdx : U32) : U32 :=
  let qp1Count := qp1TokenCount tokenCount sequencePhase
  if qpIdx = 0 then tokenCount - qp1Count else if qpIdx = 1 then qp1Count else 0

def qpSelectedIndex (qpTokenIndex sequencePhase qpIdx : U32) : U32 :=
  let firstQp1 := (3 - (sequencePhase &&& 3)) &&& 3
  if qpIdx = 1 then firstQp1 + qpTokenIndex * kMoonEpCombineV2QpSplitPeriod
  else if qpIdx ≠ 0 then BitVec.allOnes 32
  else if qpTokenIndex < firstQp1 then qpTokenIndex
  else
    let after := qpTokenIndex - firstQp1
    firstQp1 + 1 + after / 3 * kMoonEpCombineV2QpSplitPeriod + after % 3

def MOONEP_COMBINE_V2_SIX_PORT : U32 := 0
def MOONEP_COMBINE_V2_TWO_PORT : U32 := 1

def laneForPosition (position : U32) : U32 :=
  if position &&& 3 = 3 then MOONEP_COMBINE_V2_TWO_PORT else MOONEP_COMBINE_V2_SIX_PORT

/-- `MoonEpCombineV2ControlWqesPerLane`, which reads neither the step nor the step count. -/
def controlWqesPerLane (_step _stepCount : U32) (finalBatch : Bool) : U32 := if finalBatch then 2 else 0

structure LaneCounts where
  sixPort : U32
  twoPort : U32

def batchLaneCounts (logicalRows sequencePhase step stepCount : U32) (finalBatch : Bool) : LaneCounts :=
  let firstTwoPort := (3 - (sequencePhase &&& 3)) &&& 3
  let twoPort := if logicalRows ≤ firstTwoPort then 0 else 1 + (logicalRows - 1 - firstTwoPort) / 4
  let control := controlWqesPerLane step stepCount finalBatch
  ⟨logicalRows - twoPort + control, twoPort + control⟩

end TileXR.MoonEpCombineV2

namespace TileXR.DispatchUrma
open BitVec

open Udma (U32)
open BitVec (toNat_sub lt_def toNat_ofNat toNat_add)
open MoonEpCombineV2

/-! ## The words as numbers -/

theorem toNat_and_three (x : U32) : (x &&& 3).toNat = x.toNat % 4 := by
  rw [toNat_and]
  exact Nat.and_two_pow_sub_one_eq_mod x.toNat 2

section Numbers
variable (n phase : U32)

theorem firstQp1_toNat : (firstQp1 phase).toNat = 3 - phase.toNat % 4 := by
  rw [firstQp1, toNat_and_three, toNat_sub, toNat_and_three]
  simp
  omega

theorem dispatchQp1RouteCount_toNat : (dispatchQp1RouteCount n phase).toNat = (n.toNat + phase.toNat % 4) / 4 := by
  have hf := firstQp1_toNat phase
  simp only [dispatchQp1RouteCount, le_def, kDispatchQpSplitPeriod]
  split_ifs with h
  · simp
    omega
  · have hn := n.isLt
    simp [toNat_udiv, toNat_sub]
    omega

theorem dispatchQpRouteCount_one : dispatchQpRouteCount n phase 1 = dispatchQp1RouteCount n phase := rfl

theorem dispatchQpRouteCount_zero_toNat :
    (dispatchQpRouteCount n phase 0).toNat = n.toNat - (n.toNat + phase.toNat % 4) / 4 := by
  have h1 := dispatchQp1RouteCount_toNat n phase
  have hn := n.isLt
  simp [dispatchQpRouteCount, toNat_sub]
  omega

theorem dispatchQpRouteCount_other {qp : U32} (h0 : qp ≠ 0) (h1 : qp ≠ 1) : dispatchQpRouteCount n phase qp = 0 := by
  rw [dispatchQpRouteCount, if_neg h0, if_neg h1]

variable {n phase} {i : U32}

/-- The routes of QP 1 in terms of numbers: nothing wraps below the count. -/
theorem dispatchQpSelectedIndex_one_toNat (h : i < dispatchQpRouteCount n phase 1) :
    (dispatchQpSelectedIndex i phase 1).toNat = 3 - phase.toNat % 4 + 4 * i.toNat := by
  rw [dispatchQpRouteCount_one, lt_def, dispatchQp1RouteCount_toNat] at h
  have hf := firstQp1_toNat phase
  have hn := n.isLt
  simp [dispatchQpSelectedIndex, kDispatchQpSplitPeriod, hf]
  omega

theorem dispatchQpSelectedIndex_zero_toNat (h : i < dispatchQpRouteCount n phase 0) :
    (dispatchQpSelectedIndex i phase 0).toNat =
      if i.toNat < 3 - phase.toNat % 4 then i.toNat
      else 3 - phase.toNat % 4 + 1 + (i.toNat - (3 - phase.toNat % 4)) / 3 * 4 +
        (i.toNat - (3 - phase.toNat % 4)) % 3 := by
  rw [lt_def, dispatchQpRouteCount_zero_toNat] at h
  have hf := firstQp1_toNat phase
  have hn := n.isLt
  simp only [dispatchQpSelectedIndex, kDispatchQpSplitPeriod, lt_def, hf]
  rw [if_neg (by decide), if_neg (by decide)]
  split_ifs with hlt
  · rfl
  · have hsub : (i - firstQp1 phase).toNat = i.toNat - (3 - phase.toNat % 4) := by
      rw [toNat_sub, hf]
      omega
    simp [toNat_udiv, toNat_umod, hsub, hf]
    omega

end Numbers

/-! ## Where a route goes -/

/-- The route at a position is one of those of a queue pair. -/
def GoesTo (n phase qp p : U32) : Prop :=
  ∃ i, i < dispatchQpRouteCount n phase qp ∧ dispatchQpSelectedIndex i phase qp = p

section Route
variable (n phase p : U32)

theorem goesTo_one_iff : GoesTo n phase 1 p ↔ p < n ∧ (phase.toNat + p.toNat) % 4 = 3 := by
  have hcount := dispatchQp1RouteCount_toNat n phase
  constructor
  · rintro ⟨i, hi, rfl⟩
    have hsel := dispatchQpSelectedIndex_one_toNat hi
    rw [dispatchQpRouteCount_one, lt_def] at hi
    rw [lt_def, hsel]
    omega
  · rintro ⟨hp, hmod⟩
    rw [lt_def] at hp
    have hlt := p.isLt
    have hi : BitVec.ofNat 32 (p.toNat / 4) < dispatchQpRouteCount n phase 1 := by
      rw [dispatchQpRouteCount_one, lt_def, toNat_ofNat]
      omega
    refine ⟨_, hi, eq_of_toNat_eq ?_⟩
    rw [dispatchQpSelectedIndex_one_toNat hi, toNat_ofNat]
    omega

theorem goesTo_zero_iff : GoesTo n phase 0 p ↔ p < n ∧ (phase.toNat + p.toNat) % 4 ≠ 3 := by
  have hcount := dispatchQpRouteCount_zero_toNat n phase
  constructor
  · rintro ⟨i, hi, rfl⟩
    have hsel := dispatchQpSelectedIndex_zero_toNat hi
    rw [lt_def] at hi
    rw [lt_def, hsel]
    split_ifs <;> omega
  · rintro ⟨hp, hmod⟩
    rw [lt_def] at hp
    have hlt := p.isLt
    -- the positions of QP 1 before `p` are left out
    have hi : BitVec.ofNat 32 (p.toNat - (p.toNat + phase.toNat % 4) / 4) <
        dispatchQpRouteCount n phase 0 := by
      rw [lt_def, toNat_ofNat]
      omega
    refine ⟨_, hi, eq_of_toNat_eq ?_⟩
    rw [dispatchQpSelectedIndex_zero_toNat hi, toNat_ofNat, Nat.mod_eq_of_lt (by omega)]
    split_ifs <;> omega

theorem not_goesTo {qp : U32} (h0 : qp ≠ 0) (h1 : qp ≠ 1) : ¬ GoesTo n phase qp p := by
  rintro ⟨i, hi, -⟩
  rw [dispatchQpRouteCount_other n phase h0 h1] at hi
  simp at hi

theorem dispatchQpSelectedIndex_lt {qp i j : U32} (hij : i < j) (hj : j < dispatchQpRouteCount n phase qp) :
    dispatchQpSelectedIndex i phase qp < dispatchQpSelectedIndex j phase qp := by
  have hi : i < dispatchQpRouteCount n phase qp := by
    rw [lt_def] at hij hj ⊢
    omega
  by_cases h1 : qp = 1
  · subst h1
    rw [lt_def, dispatchQpSelectedIndex_one_toNat hi, dispatchQpSelectedIndex_one_toNat hj]
    rw [lt_def] at hij
    omega
  by_cases h0 : qp = 0
  · subst h0
    rw [lt_def, dispatchQpSelectedIndex_zero_toNat hi, dispatchQpSelectedIndex_zero_toNat hj]
    rw [lt_def] at hij
    split_ifs <;> omega
  · rw [dispatchQpRouteCount_other n phase h0 h1] at hj
    simp at hj

theorem foldl_carryPhase_toNat (sizes : List U32) :
    (sizes.foldl carryPhase phase).toNat % 4 = (phase.toNat + (sizes.map BitVec.toNat).sum) % 4 := by
  induction sizes generalizing phase with
  | nil => simp
  | cons size sizes ih =>
    have hcarry : (carryPhase phase size).toNat % 4 = (phase.toNat + size.toNat) % 4 := by
      rw [carryPhase, toNat_and_three, toNat_add]
      omega
    rw [List.foldl_cons, ih, List.map_cons, List.sum_cons]
    omega

/-- A route of a chunk goes where it goes in the whole sequence. -/
theorem goesTo_chunk_iff {before : List U32} {size qp : U32} (hp : p < size)
    (hfit : (before.map BitVec.toNat).sum + size.toNat ≤ n.toNat) : GoesTo size (before.foldl carryPhase phase) qp p ↔
      GoesTo n phase qp (BitVec.ofNat 32 ((before.map BitVec.toNat).sum + p.toNat)) := by
  have hphase := foldl_carryPhase_toNat phase before
  have hn := n.isLt
  rw [lt_def] at hp
  by_cases h1 : qp = 1
  · subst h1
    rw [goesTo_one_iff, goesTo_one_iff, lt_def, lt_def, toNat_ofNat]
    omega
  by_cases h0 : qp = 0
  · subst h0
    rw [goesTo_zero_iff, goesTo_zero_iff, lt_def, lt_def, toNat_ofNat]
    omega
  · exact iff_of_false (not_goesTo _ _ _ h0 h1) (not_goesTo _ _ _ h0 h1)

/-! ## The combine versions -/

theorem laneForPosition_eq_one_iff : laneForPosition (phase + p) = 1 ↔ (phase.toNat + p.toNat) % 4 = 3 := by
  have hand : (phase + p) &&& 3 = 3 ↔ (phase.toNat + p.toNat) % 4 = 3 := by
    rw [← toNat_inj, toNat_and_three, toNat_add]
    simp
  rw [laneForPosition, ← hand]
  split_ifs with h
  · exact iff_of_true rfl h
  · exact iff_of_false (by decide) h

theorem laneForPosition_eq_zero_iff : laneForPosition (phase + p) = 0 ↔ (phase.toNat + p.toNat) % 4 ≠ 3 := by
  rw [Ne, ← laneForPosition_eq_one_iff, laneForPosition]
  split_ifs <;> simp [MOONEP_COMBINE_V2_TWO_PORT, MOONEP_COMBINE_V2_SIX_PORT]

theorem batchLaneCounts_toNat (step stepCount : U32) (finalBatch : Bool) :
    (batchLaneCounts n phase step stepCount finalBatch).sixPort.toNat =
      (dispatchQpRouteCount n phase 0).toNat + (if finalBatch then 2 else 0) ∧
    (batchLaneCounts n phase step stepCount finalBatch).twoPort.toNat =
      (dispatchQpRouteCount n phase 1).toNat + (if finalBatch then 2 else 0) := by
  have h0 := dispatchQpRouteCount_zero_toNat n phase
  have h1 := dispatchQp1RouteCount_toNat n phase
  have hn := n.isLt
  -- the lane counts are those of the queue pairs with the control entries added
  have hlane : batchLaneCounts n phase step stepCount finalBatch =
      ⟨dispatchQpRouteCount n phase 0 + controlWqesPerLane step stepCount finalBatch,
        dispatchQpRouteCount n phase 1 + controlWqesPerLane step stepCount finalBatch⟩ := rfl
  rw [hlane, dispatchQpRouteCount_one, toNat_add, toNat_add, h0, h1]
  cases finalBatch <;> simp [controlWqesPerLane] <;> omega

end Route

/-- The split over the two queue pairs: each pair's routes are in order, the two share every position,
chunks do not change where a route goes, and the combine versions agree. -/
theorem dispatchQp_partition (n phase : U32) :
    (∀ qp i j, i < j → j < dispatchQpRouteCount n phase qp →
      dispatchQpSelectedIndex i phase qp < dispatchQpSelectedIndex j phase qp) ∧
    (∀ p, ¬ (GoesTo n phase 0 p ∧ GoesTo n phase 1 p) ∧
      (p < n ↔ GoesTo n phase 0 p ∨ GoesTo n phase 1 p)) ∧
    (∀ p, p < n → (GoesTo n phase 1 p ↔ (phase.toNat + p.toNat) % 4 = 3)) ∧
    (∀ (before : List U32) (size p qp : U32), p < size →
      (before.map BitVec.toNat).sum + size.toNat ≤ n.toNat →
      (GoesTo size (before.foldl carryPhase phase) qp p ↔
        GoesTo n phase qp (BitVec.ofNat 32 ((before.map BitVec.toNat).sum + p.toNat)))) ∧
    (∀ qp, qpTokenCount n phase qp = dispatchQpRouteCount n phase qp) ∧
    (∀ qp i, qpSelectedIndex i phase qp = dispatchQpSelectedIndex i phase qp) ∧
    (∀ step stepCount finalBatch,
      (batchLaneCounts n phase step stepCount finalBatch).sixPort.toNat =
        (dispatchQpRouteCount n phase 0).toNat + (if finalBatch then 2 else 0) ∧
      (batchLaneCounts n phase step stepCount finalBatch).twoPort.toNat =
        (dispatchQpRouteCount n phase 1).toNat + (if finalBatch then 2 else 0)) ∧
    (∀ p, p < n → (laneForPosition (phase + p) = MOONEP_COMBINE_V2_SIX_PORT ↔ GoesTo n phase 0 p) ∧
      (laneForPosition (phase + p) = MOONEP_COMBINE_V2_TWO_PORT ↔ GoesTo n phase 1 p)) := by
  have hone := goesTo_one_iff n phase
  have hzero := goesTo_zero_iff n phase
  refine ⟨fun qp i j => dispatchQpSelectedIndex_lt n phase, fun p => ⟨?_, ?_⟩, fun p hp => ?_,
    fun before size p qp => goesTo_chunk_iff n phase p, fun _ => rfl, fun _ _ => rfl,
    fun step stepCount final => batchLaneCounts_toNat n phase step stepCount final, fun p hp => ⟨?_, ?_⟩⟩
  · rw [hone, hzero]
    exact fun h => h.1.2 h.2.2
  · rw [hone, hzero]
    tauto
  · rw [hone]
    simp [hp]
  · refine (laneForPosition_eq_zero_iff phase p).trans ?_
    rw [hzero]
    simp [hp]
  · refine (laneForPosition_eq_one_iff phase p).trans ?_
    rw [hone]
    simp [hp]

end TileXR.DispatchUrma
