import TileXR.EpMemory.Config
import TileXR.Lib.Sweep
import Mathlib.Algebra.Order.BigOperators.Group.List

/-!
# The shape of a launched call

What the kernels are launched with, as natural numbers, and how `SetTilingDataAndCal` of the dispatch
kernel divides the vector cores. `Shape.Accepted` collects what the kernels rely on.
-/

namespace TileXR.EpMemory
open Int
open Option (bind_eq_some_iff)
variable {a : LayoutArgs}

/-- The arguments of a kernel that decide where its rows go. -/
structure Shape where
  epWorldSize : ℕ
  epRankId : ℕ
  axisBS : ℕ
  axisK : ℕ
  moeExpertNum : ℕ
  sharedExpertNum : ℕ
  sharedExpertRankNum : ℕ
  aivNum : ℕ

namespace Shape
variable (s : Shape)

/-! ## `SetTilingDataAndCal` -/

def isShareExpertRank : Prop := s.epRankId < s.sharedExpertRankNum

instance : Decidable s.isShareExpertRank := inferInstanceAs (Decidable (_ < _))

def rankNumPerSharedExpert : ℕ :=
  if 0 < s.sharedExpertNum then s.sharedExpertRankNum / s.sharedExpertNum else 0

def moeExpertRankNum : ℕ := s.epWorldSize - s.sharedExpertRankNum
def moeExpertNumPerRank : ℕ := s.moeExpertNum / s.moeExpertRankNum
def expertIdsCnt : ℕ := s.axisBS * s.axisK

def rscvStatusNum : ℕ :=
  if s.isShareExpertRank then s.epWorldSize else s.epWorldSize * s.moeExpertNumPerRank

def totalExpertNum : ℕ := s.sharedExpertRankNum + s.moeExpertNum

def cumsumMaxCoreNum : ℕ := 8

/-- The cores that count; the source narrows the number in steps. -/
def aivUsedCumSum : ℕ :=
  let used := s.totalExpertNum / 16
  let used := if used = 0 then 1 else used
  let used := if used ≥ s.aivNum / 2 then s.aivNum / 2 else used
  let used := if used ≥ cumsumMaxCoreNum then cumsumMaxCoreNum else used
  if used ≥ s.rscvStatusNum then s.rscvStatusNum else used

def aivUsedAllToAll : ℕ := s.aivNum - s.aivUsedCumSum

/-- The last of them send to the shared experts. -/
def sharedUsedAivNum : ℕ :=
  if s.sharedExpertRankNum ≠ 0 then
    let share := s.aivUsedAllToAll * s.sharedExpertNum / (s.axisK + s.sharedExpertNum)
    if share = 0 then 1 else share
  else 0

def moeUsedAivNum : ℕ := s.aivUsedAllToAll - s.sharedUsedAivNum

/-- `SplitToCore`: where the part of a core begins, and how many it has. -/
def splitToCore (curSendCnt curUseAivNum newAivId : ℕ) : ℕ × ℕ := Lib.evenPart curSendCnt curUseAivNum newAivId

/-! ## Accepted shapes -/

structure Accepted : Prop where
  rank_lt : s.epRankId < s.epWorldSize
  bs_pos : 0 < s.axisBS
  topK_pos : 0 < s.axisK
  experts_pos : 0 < s.moeExpertNum
  shared_iff : s.sharedExpertNum = 0 ↔ s.sharedExpertRankNum = 0
  sharedRank_lt : s.sharedExpertRankNum < s.epWorldSize
  shared_dvd : s.sharedExpertNum ∣ s.sharedExpertRankNum
  experts_dvd : s.moeExpertRankNum ∣ s.moeExpertNum
  cumSum_pos : 0 < s.aivUsedCumSum
  cumSum_lt : s.aivUsedCumSum < s.aivNum
  sharedUsed_lt : s.sharedUsedAivNum < s.aivUsedAllToAll
  /-- The masks of a row of the batch are kept twice in the buffers of a core. -/
  bs_le : s.axisBS * 128 ≤ 190 * 1024

variable {s}

theorem Accepted.moeUsed_pos (h : s.Accepted) : 0 < s.moeUsedAivNum := by
  have := h.sharedUsed_lt
  unfold moeUsedAivNum
  omega

theorem Accepted.moeUsed_add (h : s.Accepted) : s.moeUsedAivNum + s.sharedUsedAivNum = s.aivUsedAllToAll := by
  have := h.sharedUsed_lt
  unfold moeUsedAivNum
  omega

theorem sharedUsed_pos (h : s.sharedExpertRankNum ≠ 0) : 0 < s.sharedUsedAivNum := by
  rw [sharedUsedAivNum, if_pos h]
  dsimp only
  generalize s.aivUsedAllToAll * s.sharedExpertNum / (s.axisK + s.sharedExpertNum) = share
  split <;> omega

theorem Accepted.perRank_pos (h : s.Accepted) : 0 < s.moeExpertNumPerRank :=
  Nat.div_pos (Nat.le_of_dvd h.experts_pos h.experts_dvd) (Nat.sub_pos_of_lt h.sharedRank_lt)

end Shape

def LayoutArgs.shape (a : LayoutArgs) : Shape where
  epWorldSize := a.rankSize.toNat
  epRankId := a.rank.toNat
  axisBS := a.bs.toNat
  axisK := a.topK.toNat
  moeExpertNum := a.moeExpertNum.toNat
  sharedExpertNum := a.sharedExpertNum.toNat
  sharedExpertRankNum := a.sharedExpertRankNum.toNat
  aivNum := a.blockDim.toNat

/-- Host and kernel take the same number of cores for counting. -/
theorem Shape.aivUsedCumSum_eq (s : Shape) (htotal : 0 < s.totalExpertNum) (hcores : 2 ≤ s.aivNum) :
    (s.aivUsedCumSum : ℤ) = memoryCountCoreNum s.totalExpertNum s.rscvStatusNum s.aivNum := by
  unfold aivUsedCumSum memoryCountCoreNum kEpMemoryMaxCountCoreNum cumsumMaxCoreNum
  dsimp only
  split_ifs <;> omega

theorem rscvStatusNum_eq (hok : a.ShapeOk) :
    (if a.rank < a.sharedExpertRankNum then a.rankSize else a.rankSize * a.moeExpertNumPerRank) =
      (a.shape.rscvStatusNum : ℤ) := by
  obtain ⟨hranks, -, hrank, -, -, -, -, hexperts, -, hshared, -, -, -, -, -, hlt, -⟩ := hok
  have hiff : a.shape.isShareExpertRank ↔ a.rank < a.sharedExpertRankNum := by
    show a.rank.toNat < a.sharedExpertRankNum.toNat ↔ _
    omega
  unfold Shape.rscvStatusNum
  by_cases hshare : a.rank < a.sharedExpertRankNum
  · rw [if_pos hshare, if_pos (hiff.2 hshare)]
    exact (toNat_of_nonneg hranks.le).symm
  · rw [if_neg hshare, if_neg (mt hiff.1 hshare)]
    unfold LayoutArgs.moeExpertNumPerRank LayoutArgs.moeRankNum
    show _ = ((a.rankSize.toNat * (a.moeExpertNum.toNat / (a.rankSize.toNat - a.sharedExpertRankNum.toNat)) : ℕ) : ℤ)
    rw [Nat.cast_mul, natCast_div, Nat.cast_sub (by omega), toNat_of_nonneg hranks.le,
      toNat_of_nonneg hexperts.le, toNat_of_nonneg hshared]

theorem totalExpertNum_eq (hok : a.ShapeOk) : a.sharedExpertRankNum + a.moeExpertNum = a.shape.totalExpertNum := by
  obtain ⟨-, -, -, -, -, -, -, hexperts, -, hshared, -⟩ := hok
  show _ = ((a.sharedExpertRankNum.toNat + a.moeExpertNum.toNat : ℕ) : ℤ)
  omega

theorem coreSplit_spec (hok : a.ShapeOk) (hblocks : 2 ≤ a.blockDim) {cores : CoreSplit}
    (h : dispatchCoreSplit a a.shape.totalExpertNum a.shape.rscvStatusNum = some cores) :
    cores.aivUsedCumSum = a.shape.aivUsedCumSum ∧ 0 < a.shape.aivUsedCumSum ∧ a.shape.aivUsedCumSum < a.shape.aivNum ∧
      a.shape.sharedUsedAivNum < a.shape.aivUsedAllToAll := by
  have htotal := totalExpertNum_eq hok
  obtain ⟨-, -, -, -, -, -, hk, hexperts, hnum, hshared, -⟩ := hok
  have haiv : a.blockDim = a.shape.aivNum := (toNat_of_nonneg (by omega)).symm
  obtain ⟨hcount, h⟩ := guard_bind h
  obtain ⟨hless, h⟩ := guard_bind h
  cases h
  dsimp only
  rw [haiv, ← a.shape.aivUsedCumSum_eq (by omega) (by omega)] at hcount hless ⊢
  refine ⟨rfl, by omega, by omega, ?_⟩
  have hall : (a.shape.aivNum : ℤ) - a.shape.aivUsedCumSum = a.shape.aivUsedAllToAll := by
    unfold Shape.aivUsedAllToAll
    omega
  have hshare : (a.shape.aivUsedAllToAll : ℤ) * a.sharedExpertNum / (a.topK + a.sharedExpertNum) =
      (a.shape.aivUsedAllToAll * a.shape.sharedExpertNum / (a.shape.axisK + a.shape.sharedExpertNum) : ℕ) := by
    show _ = ((_ * a.sharedExpertNum.toNat / (a.topK.toNat + a.sharedExpertNum.toNat) : ℕ) : ℤ)
    rw [natCast_div, Nat.cast_mul, Nat.cast_add, toNat_of_nonneg hnum, toNat_of_nonneg hk.le]
  rw [hall, hshare] at hless
  have hranks : a.sharedExpertRankNum = a.shape.sharedExpertRankNum := (toNat_of_nonneg hshared).symm
  rw [hranks] at hless
  unfold Shape.sharedUsedAivNum
  dsimp only at hless ⊢
  split_ifs at hless ⊢ <;> omega

end TileXR.EpMemory
