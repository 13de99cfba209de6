import Mathlib.Algebra.BigOperators.Fin
import Mathlib.Tactic.IntervalCases
import Mathlib.Tactic.Linarith
import Mathlib.Tactic.Ring
import TileXR.Lib.Share
import TileXR.ReduceGrad.Layout

/-!
# How the queue pairs are shared

`AllocateProjectionQps` with its lanes. Every projection starts with one queue pair and each further one
goes to a projection with the most bytes per queue pair, compared by quotient and remainder. The
comparison is that of the exact ratios, so the queue pairs are dealt out as `Lib.Balanced` says, and the
largest ratio is as small as it can be.
-/

namespace TileXR.ReduceGrad
open List Nat
open Function (update)
open Lib
variable {counts : ℕ → ℕ} {p qpCount : ℕ}

/-! ## Lanes -/

/-- What the second loop of `AllocateProjectionQps` writes. -/
@[ext]
structure Lanes where
  projectionQpBase : ℕ → ℕ
  qpProjection : ℕ → ℕ
  cursor : ℕ

def assignLanes (qpCount projection : ℕ) : ℕ → Lanes → Option Lanes
  | 0, l => some l
  | lanes + 1, l =>
    if l.cursor ≥ qpCount ∨ l.cursor ≥ kReduceGradMaxUdmaQpCount then none
    else assignLanes qpCount projection lanes
      { l with qpProjection := update l.qpProjection l.cursor projection, cursor := l.cursor + 1 }

/-- `AllocateProjectionQps`: the counts and the lanes. -/
def allocateProjectionLanes (rowBytes : ℕ → ℕ) (qpCount : ℕ) : Option ((ℕ → ℕ) × Lanes) := do
  guard (kReduceGradMinMultiRankQpCount ≤ qpCount ∧ qpCount ≤ kReduceGradMaxUdmaQpCount)
  let counts := allocateProjectionQps rowBytes qpCount
  let lanes ← (List.range kReduceGradProjectionCount).foldlM
    (fun l projection => assignLanes qpCount projection (counts projection)
      { l with projectionQpBase := update l.projectionQpBase projection l.cursor })
    ⟨fun _ => 0, fun _ => 0, 0⟩
  guard (lanes.cursor = qpCount)
  return (counts, lanes)

theorem assignLanes_eq (hq : qpCount ≤ kReduceGradMaxUdmaQpCount) (projection lanes : ℕ)
    {l : Lanes} (h : l.cursor + lanes ≤ qpCount) :
    assignLanes qpCount projection lanes l = some
      { l with
        qpProjection := fun x => if l.cursor ≤ x ∧ x < l.cursor + lanes then projection else l.qpProjection x
        cursor := l.cursor + lanes } := by
  induction lanes generalizing l with
  | zero =>
    refine congrArg some (Lanes.ext rfl (funext fun x => ?_) rfl)
    dsimp only
    rw [if_neg (by omega)]
  | succ lanes ih =>
    rw [assignLanes, if_neg (by omega), ih (by dsimp only; omega)]
    refine congrArg some (Lanes.ext rfl (funext fun x => ?_) (by dsimp only; omega))
    · dsimp only
      rcases eq_or_ne x l.cursor with rfl | hne
      · rw [if_neg (by omega), Function.update_self, if_pos (by omega)]
      · rw [Function.update_of_ne hne]
        congr 1
        exact propext (by omega)

theorem foldlM_assignLanes (hq : qpCount ≤ kReduceGradMaxUdmaQpCount) (counts : ℕ → ℕ) :
    ∀ n, blockStart counts n ≤ qpCount → ∃ l : Lanes,
      (List.range n).foldlM (fun l projection => assignLanes qpCount projection (counts projection)
        { l with projectionQpBase := update l.projectionQpBase projection l.cursor })
        ⟨fun _ => 0, fun _ => 0, 0⟩ = some l ∧
      l.cursor = blockStart counts n ∧
      ∀ p < n, l.projectionQpBase p = blockStart counts p ∧
        ∀ i < counts p, l.qpProjection (blockStart counts p + i) = p := by
  intro n
  induction n with
  | zero => exact fun _ => ⟨_, rfl, rfl, fun p hp => absurd hp (Nat.not_lt_zero p)⟩
  | succ n ih =>
    intro hle
    rw [blockStart_succ] at hle
    obtain ⟨l, hl, hcursor, hlanes⟩ := ih (by omega)
    rw [← hcursor] at hle
    rw [range_succ, foldlM_append, hl, Option.bind_eq_bind, Option.bind_some, foldlM_cons,
      assignLanes_eq hq n _ (by exact hle)]
    refine ⟨_, rfl, by rw [blockStart_succ, ← hcursor], fun p hp => ?_⟩
    dsimp only
    rcases Nat.lt_succ_iff_lt_or_eq.1 hp with hlt | rfl
    · -- the lanes of an earlier projection lie below the cursor
      obtain ⟨hbase, hproj⟩ := hlanes p hlt
      rw [Function.update_of_ne (by omega)]
      refine ⟨hbase, fun i hi => ?_⟩
      have hbelow := blockStart_add_le counts hlt
      rw [if_neg (by omega), hproj i hi]
    · rw [Function.update_self]
      refine ⟨hcursor, fun i hi => ?_⟩
      rw [if_pos (by omega)]

/-! ## The comparison -/

/-- Numbers with one digit below the base are compared by the rest first. -/
theorem lt_iff_lex {base high high' low low' : ℕ} (hlow : low < base) (hlow' : low' < base) :
    base * high' + low' < base * high + low ↔ high' < high ∨ high' = high ∧ low' < low := by
  rcases Nat.lt_trichotomy high' high with hlt | rfl | hgt
  · have := Nat.mul_le_mul_left base (succ_le_of_lt hlt)
    rw [mul_succ] at this
    omega
  · omega
  · have := Nat.mul_le_mul_left base (succ_le_of_lt hgt)
    rw [mul_succ] at this
    omega

theorem scoreGreater_iff {lhsCount rhsCount : ℕ} (hl : 0 < lhsCount) (hr : 0 < rhsCount)
    (lhsBytes rhsBytes : ℕ) : scoreGreater lhsBytes lhsCount rhsBytes rhsCount = true ↔
      (rhsBytes / rhsCount : ℚ) < lhsBytes / lhsCount := by
  rw [div_lt_div_iff₀ (by exact_mod_cast hr) (by exact_mod_cast hl)]
  norm_cast
  -- over the common denominator the quotients are the high digits and the scaled remainders the low ones
  have hlow : lhsBytes % lhsCount * rhsCount < lhsCount * rhsCount :=
    Nat.mul_lt_mul_of_pos_right (mod_lt _ hl) hr
  have hlow' : rhsBytes % rhsCount * lhsCount < lhsCount * rhsCount := by
    rw [Nat.mul_comm lhsCount]
    exact Nat.mul_lt_mul_of_pos_right (mod_lt _ hr) hl
  have hlhs : lhsBytes * rhsCount =
      lhsCount * rhsCount * (lhsBytes / lhsCount) + lhsBytes % lhsCount * rhsCount := by
    conv_lhs => rw [← div_add_mod lhsBytes lhsCount]
    ring
  have hrhs : rhsBytes * lhsCount =
      lhsCount * rhsCount * (rhsBytes / rhsCount) + rhsBytes % rhsCount * lhsCount := by
    conv_lhs => rw [← div_add_mod rhsBytes rhsCount]
    ring
  rw [hlhs, hrhs, lt_iff_lex hlow hlow']
  unfold scoreGreater
  split_ifs with hne
  · rw [decide_eq_true_eq]
    omega
  · rw [decide_eq_true_eq]
    omega

theorem score_product_lt {count count' : ℕ} (hpos : 0 < count) (hle : count ≤ kReduceGradMaxUdmaQpCount)
    (hle' : count' ≤ kReduceGradMaxUdmaQpCount) (bytes : ℕ) : bytes % count * count' < 2 ^ 64 := by
  have hmod := mod_lt bytes hpos
  unfold kReduceGradMaxUdmaQpCount at hle hle'
  calc bytes % count * count' ≤ 8 * 8 := Nat.mul_le_mul (by omega) hle'
    _ < 2 ^ 64 := by decide

/-! ## The shares -/

section Shares
variable (rowBytes : ℕ → ℕ)

theorem selectProjection_spec (hpos : ∀ p, 0 < counts p) : selectProjection rowBytes counts < 3 ∧
      ∀ p ∈ Finset.range 3, load rowBytes counts p ≤ load rowBytes counts (selectProjection rowBytes counts) := by
  have hgreater : ∀ p q, (scoreGreater (rowBytes p) (counts p) (rowBytes q) (counts q) = true) ↔
      load rowBytes counts q < load rowBytes counts p := fun p q => scoreGreater_iff (hpos p) (hpos q) _ _
  simp only [selectProjection, foldl_cons, foldl_nil, hgreater]
  refine ⟨by split_ifs <;> decide, fun p hp => ?_⟩
  have hp3 := Finset.mem_range.1 hp
  split_ifs with h1 h2 h2 <;> interval_cases p <;> linarith

/-- The counts after some queue pairs beyond the first three. -/
theorem allocate_rounds (rounds : ℕ) :
    ∑ p ∈ Finset.range 3, allocateProjectionQps rowBytes (3 + rounds) p = 3 + rounds ∧
      Balanced (Finset.range 3) rowBytes (allocateProjectionQps rowBytes (3 + rounds)) := by
  induction rounds with
  | zero => exact ⟨rfl, balanced_ones _ _⟩
  | succ rounds ih =>
    have hpos := allocateProjectionQps_pos rowBytes (3 + rounds)
    have hstep : allocateProjectionQps rowBytes (3 + (rounds + 1)) =
        update (allocateProjectionQps rowBytes (3 + rounds))
          (selectProjection rowBytes (allocateProjectionQps rowBytes (3 + rounds)))
          (allocateProjectionQps rowBytes (3 + rounds)
            (selectProjection rowBytes (allocateProjectionQps rowBytes (3 + rounds))) + 1) := by
      rw [allocateProjectionQps, show 3 + (rounds + 1) - kReduceGradProjectionCount = rounds + 1 by
        unfold kReduceGradProjectionCount; omega, range_succ, foldl_append, foldl_cons,
        foldl_nil, allocateProjectionQps, show 3 + rounds - kReduceGradProjectionCount = rounds by
        unfold kReduceGradProjectionCount; omega]
    generalize allocateProjectionQps rowBytes (3 + rounds) = counts at *
    obtain ⟨hlt, hmax⟩ := selectProjection_spec rowBytes hpos
    rw [hstep]
    refine ⟨?_, ih.2.give (fun p _ => hpos p) hmax⟩
    have hrest := Finset.sum_eq_add_sum_sdiff_singleton_of_mem (Finset.mem_range.2 hlt) counts
    rw [Finset.sum_update_of_mem (Finset.mem_range.2 hlt)]
    omega

/-- The largest number of row bytes per queue pair. -/
def largestRatio (counts : ℕ → ℕ) : ℚ :=
  max (load rowBytes counts 0) (max (load rowBytes counts 1) (load rowBytes counts 2))

theorem largestRatio_le_iff {x : ℚ} : largestRatio rowBytes counts ≤ x ↔ ∀ p < 3, load rowBytes counts p ≤ x := by
  rw [largestRatio, max_le_iff, max_le_iff]
  constructor
  · rintro ⟨h0, h1, h2⟩ p hp
    interval_cases p <;> assumption
  · intro h
    exact ⟨h 0 (by omega), h 1 (by omega), h 2 (by omega)⟩

theorem load_le_largestRatio (counts : ℕ → ℕ) (hp : p < 3) : load rowBytes counts p ≤ largestRatio rowBytes counts :=
  (largestRatio_le_iff rowBytes).1 le_rfl p hp

/-- No other way of giving every projection a queue pair has a smaller largest ratio. -/
theorem largestRatio_allocate_le (hq : kReduceGradMinMultiRankQpCount ≤ qpCount)
    {other : ℕ → ℕ} (hother : ∀ p < 3, 0 < other p) (hsum : ∑ p ∈ Finset.range 3, other p = qpCount) :
    largestRatio rowBytes (allocateProjectionQps rowBytes qpCount) ≤ largestRatio rowBytes other := by
  obtain ⟨rounds, rfl⟩ := Nat.exists_eq_add_of_le hq
  obtain ⟨htotal, hbalanced⟩ := allocate_rounds rowBytes rounds
  refine (largestRatio_le_iff rowBytes).2 fun p hp => ?_
  obtain ⟨j, hj, hle⟩ := hbalanced.exists_load_le (fun i hi => hother i (Finset.mem_range.1 hi))
    (htotal.trans hsum.symm) (Finset.mem_range.2 hp)
  exact hle.trans (load_le_largestRatio rowBytes other (Finset.mem_range.1 hj))

end Shares

/-- The counts before each further queue pair keep the products of the comparison in range. -/
theorem allocate_product_lt (rowBytes : ℕ → ℕ) {assigned : ℕ} (hmin : 3 ≤ assigned)
    (hmax : assigned ≤ kReduceGradMaxUdmaQpCount) {p' : ℕ} (hp : p < 3) (hp' : p' < 3) :
    rowBytes p % allocateProjectionQps rowBytes assigned p * allocateProjectionQps rowBytes assigned p' < 2 ^ 64 := by
  have hle : ∀ p < 3, allocateProjectionQps rowBytes assigned p ≤ kReduceGradMaxUdmaQpCount := by
    intro p hp
    obtain ⟨rounds, rfl⟩ := Nat.exists_eq_add_of_le hmin
    refine le_trans ?_ hmax
    conv_rhs => rw [← (allocate_rounds rowBytes rounds).1]
    exact Finset.single_le_sum (fun _ _ => Nat.zero_le _) (Finset.mem_range.2 hp)
  exact score_product_lt (allocateProjectionQps_pos _ _ _) (hle p hp) (hle p' hp') _

theorem blockStart_three (counts : ℕ → ℕ) : blockStart counts 3 = counts 0 + counts 1 + counts 2 := by
  rw [blockStart_succ, blockStart_succ, blockStart_succ, blockStart_zero, Nat.zero_add]

/-- Every projection gets a queue pair, the lanes are the blocks of the projections one after the other,
and the largest ratio of row bytes to queue pairs is as small as it can be. -/
theorem allocateProjectionLanes_optimal (rowBytes : ℕ → ℕ) {qpCount : ℕ}
    (hmin : kReduceGradMinMultiRankQpCount ≤ qpCount) (hmax : qpCount ≤ kReduceGradMaxUdmaQpCount) :
    (∀ assigned, 3 ≤ assigned → assigned ≤ qpCount → ∀ p < 3, ∀ p' < 3,
      rowBytes p % allocateProjectionQps rowBytes assigned p * allocateProjectionQps rowBytes assigned p' <
        2 ^ 64) ∧
    ∃ counts lanes, allocateProjectionLanes rowBytes qpCount = some (counts, lanes) ∧
      (∀ p < 3, 1 ≤ counts p) ∧
      counts 0 + counts 1 + counts 2 = qpCount ∧
      lanes.projectionQpBase 0 = 0 ∧
      (∀ p < 2, lanes.projectionQpBase (p + 1) = lanes.projectionQpBase p + counts p) ∧
      (∀ lane < qpCount, lanes.qpProjection lane < 3 ∧ ∀ p < 3, lanes.qpProjection lane = p ↔
        lanes.projectionQpBase p ≤ lane ∧ lane < lanes.projectionQpBase p + counts p) ∧
      ∀ other : ℕ → ℕ, (∀ p < 3, 1 ≤ other p) → other 0 + other 1 + other 2 = qpCount →
        largestRatio rowBytes counts ≤ largestRatio rowBytes other := by
  refine ⟨fun assigned h3 hle p hp p' hp' => allocate_product_lt rowBytes h3 (hle.trans hmax) hp hp', ?_⟩
  have hpos := allocateProjectionQps_pos rowBytes qpCount
  have hsum : blockStart (allocateProjectionQps rowBytes qpCount) 3 = qpCount := by
    obtain ⟨rounds, rfl⟩ := Nat.exists_eq_add_of_le hmin
    exact (allocate_rounds rowBytes rounds).1
  obtain ⟨l, hl, hcursor, hlanes⟩ := foldlM_assignLanes hmax _ 3 hsum.le
  have hopt : ∀ other : ℕ → ℕ, (∀ p < 3, 1 ≤ other p) → other 0 + other 1 + other 2 = qpCount →
      largestRatio rowBytes (allocateProjectionQps rowBytes qpCount) ≤ largestRatio rowBytes other :=
    fun other hother htotal => largestRatio_allocate_le rowBytes hmin hother
      ((blockStart_three other).trans htotal)
  have hrun : allocateProjectionLanes rowBytes qpCount =
      some (allocateProjectionQps rowBytes qpCount, l) := by
    simp only [allocateProjectionLanes, kReduceGradProjectionCount, hl, hcursor, hsum, hmin, hmax, and_self,
      guard_true, Option.pure_def, Option.bind_eq_bind, Option.bind_some]
  refine ⟨_, l, hrun, fun p _ => hpos p, (blockStart_three _).symm.trans hsum, ?_, ?_, ?_, hopt⟩
  · rw [(hlanes 0 (by omega)).1, blockStart_zero]
  · intro p hp
    rw [(hlanes p (by omega)).1, (hlanes (p + 1) (by omega)).1, blockStart_succ]
  · intro lane hlane
    -- the lane lies in the block of some projection, and in no other one
    obtain ⟨p, hp, i, hi, rfl⟩ := exists_block_add (hlane.trans_eq hsum.symm)
    rw [(hlanes p hp).2 i hi]
    refine ⟨hp, fun p' hp' => ?_⟩
    rw [(hlanes p' hp').1]
    constructor
    · rintro rfl
      omega
    · rintro ⟨hge, hlt⟩
      exact (block_unique hi (show _ - _ < _ by omega) (Nat.add_sub_cancel' hge).symm).1

/-- Rows whose down projection is wider than the other two. -/
def wideDown (projection : ℕ) : ℕ := if projection = 2 then 14336 else 4096

theorem allocateProjectionLanes_wideDown :
    ∃ counts lanes, allocateProjectionLanes wideDown 8 = some (counts, lanes) ∧
      counts 0 + counts 1 + counts 2 = 8 ∧
      ∀ other : ℕ → ℕ, (∀ p < 3, 1 ≤ other p) → other 0 + other 1 + other 2 = 8 →
        largestRatio wideDown counts ≤ largestRatio wideDown other := by
  obtain ⟨counts, lanes, hrun, -, hsum, -, -, -, hopt⟩ :=
    (allocateProjectionLanes_optimal wideDown (show _ ≤ 8 by decide) (by decide)).2
  exact ⟨counts, lanes, hrun, hsum, hopt⟩

example : (allocateProjectionLanes wideDown 8).map (fun r => ((List.range 3).map r.1,
    (List.range 8).map r.2.qpProjection)) = some ([2, 2, 4], [0, 0, 1, 1, 2, 2, 2, 2]) := by decide

end TileXR.ReduceGrad
