import TileXR.EpMemory.Sizes

/-!
# The sizes the dispatch kernel computes

`SetTilingDataAndCal` in the words of the kernel. It runs for the quantised mode only on the architecture
that quantises, so that `useMxfp8_` is decided by the mode. For an accepted layout no word wraps around, and
the sizes of a row are those of the host.
-/

namespace TileXR.EpMemory
open Lib Word

namespace DispatchKernel
variable (a : LayoutArgs)

def epWorldSize : Word := arg32 a.rankSize
def moeExpertNumPerRank : Word := u32 (exact a.shape.moeExpertNumPerRank)
def rscvStatusNum : Word := u32 (exact a.shape.rscvStatusNum)
def aivUsedCumSum : Word := u32 (exact a.shape.aivUsedCumSum)
def statusCntAlign : Word := u32 (alignUp (u32 (exact a.shape.totalExpertNum)) (exact 8))
def expertIdsCnt : Word := u32 (axisBS a * axisK a)

/-! ## A row -/

def hOutSize : Word := u32 (axisH a * exact (if a.quantMode = 4 then 1 else 2))
def scaleOutBytes : Word := u32 (u32 (ceilDiv (axisH a) (exact 32) + exact 1) / exact 2 * exact 2)
def quantComputeCount : Word := u32 (alignUp (axisH a) (exact 256))
def quantComputeScaleCount : Word := quantComputeCount a / exact 32
def hAlignSize : Word :=
  if a.quantMode = 4 then u32 (quantComputeCount a * exact 2) else u32 (alignUp (axisH a * exact 2) (exact 32))

/-- In elements of four bytes. -/
def tokenQuantAlign : Word :=
  if a.quantMode = 4 then
    let quantPayloadBytes := u32 (u32 (alignUp (hOutSize a) (exact 256)) + scaleOutBytes a)
    u32 (alignUp quantPayloadBytes (exact 32)) / exact 4
  else hAlignSize a / exact 4

def quantWorkBytes : Word :=
  u32 (alignUp (u32 (alignUp (quantComputeScaleCount a) (exact 32)) * exact 4 +
    quantComputeScaleCount a * exact 2) (exact 32))
def hOutSizeAlign : Word := u32 (tokenQuantAlign a * exact 4 + exact 32)
def blockCntPerToken : Word := ceilDiv (hOutSizeAlign a) (exact 480)
def packedPayloadBytes : Word := u32 (blockCntPerToken a * exact 480)
def inputTensorBytes : Word := if a.quantMode = 4 then hAlignSize a else packedPayloadBytes a
def quantTensorBytes : Word := packedPayloadBytes a
def hCommuSize : Word := u32 (blockCntPerToken a * exact 512)

/-! ## The ids and the mask -/

def expertIdsSize : Word := u32 (alignUp (expertIdsCnt a * exact 4) (exact 32))
def expertIdsBufSize : Word := u32 (alignUp (expertIdsCnt a * exact 4) (exact 256))
def expertMaskRowBytes : Word := u32 (alignUp (axisK a) (exact 32))
def expertMaskBytes : Word := u32 (u32 (axisBS a * expertMaskRowBytes a) * exact 2)
def maxSize : Word :=
  let size := max (expertIdsSize a) (expertMaskBytes a)
  if a.quantMode = 4 then max size (quantWorkBytes a) else size

/-! ## The values -/

structure Small : Prop where
  h_le : a.h.toNat ≤ 2 ^ 16
  bs_pos : 0 < a.bs.toNat
  bs_le : a.bs.toNat ≤ 2 ^ 11
  ids_le : a.bs.toNat * a.topK.toNat ≤ 2 ^ 15
  mask_le : a.bs.toNat * roundUp 32 a.topK.toNat ≤ 2 ^ 16
  ranks_le : a.rankSize.toNat ≤ 128
  rscv_le : a.shape.rscvStatusNum ≤ 2 ^ 13
  total_le : a.shape.totalExpertNum ≤ 2 ^ 13
  perRank_le : a.shape.moeExpertNumPerRank ≤ 2 ^ 13
  cores_le : a.blockDim.toNat ≤ 200
  counting_le : a.shape.aivUsedCumSum ≤ 8

variable {a}

theorem Small.topK_le (hs : Small a) : a.topK.toNat ≤ 2 ^ 15 :=
  (Nat.le_mul_of_pos_left _ hs.bs_pos).trans hs.ids_le

variable (hs : Small a)
include hs

theorem Small.axes : SmallAxes a := by
  have hh := hs.h_le
  have hbs := hs.bs_le
  have hk := hs.topK_le
  have hcores := hs.cores_le
  exact ⟨by omega, by omega, by omega, by omega⟩

theorem epWorldSize_eq : epWorldSize a = exact a.rankSize.toNat := u32_exact (by have := hs.ranks_le; omega)

theorem moeExpertNumPerRank_eq : moeExpertNumPerRank a = exact a.shape.moeExpertNumPerRank :=
  u32_exact (by have := hs.perRank_le; omega)

theorem rscvStatusNum_eq : rscvStatusNum a = exact a.shape.rscvStatusNum :=
  u32_exact (by have := hs.rscv_le; omega)

theorem aivUsedCumSum_eq : aivUsedCumSum a = exact a.shape.aivUsedCumSum :=
  u32_exact (by have := hs.counting_le; omega)

theorem statusCntAlign_eq : statusCntAlign a = exact (roundUp 8 a.shape.totalExpertNum) := by
  have hle := hs.total_le
  rw [statusCntAlign, u32_exact (by omega), exact_alignUp (by omega) (by omega),
    u32_roundUp (by omega)]

theorem expertIdsCnt_eq : expertIdsCnt a = exact (a.bs.toNat * a.topK.toNat) := by
  have hle := hs.ids_le
  rw [expertIdsCnt, axisBS_eq hs.axes, axisK_eq hs.axes, exact_mul (by omega), u32_exact (by omega)]

theorem scaleOutBytes_eq : scaleOutBytes a = exact (scaleCount a.h.toNat) := by
  have hle := hs.h_le
  rw [scaleOutBytes, axisH_eq hs.axes, exact_ceilDiv (by omega), exact_add (by omega), u32_exact (by omega),
    exact_div, exact_mul (by omega), u32_exact (by omega), scaleCount, roundUp]
  congr 2

theorem quantComputeCount_eq : quantComputeCount a = exact (roundUp 256 a.h.toNat) := by
  have hle := hs.h_le
  rw [quantComputeCount, axisH_eq hs.axes, exact_alignUp (by omega) (by omega), u32_roundUp (by omega)]

theorem quantComputeScaleCount_eq : quantComputeScaleCount a = exact (roundUp 256 a.h.toNat / 32) := by
  rw [quantComputeScaleCount, quantComputeCount_eq hs, exact_div]

theorem hAlignSize_eq : hAlignSize a =
    exact (if a.quantMode = 4 then roundUp 256 a.h.toNat * 2 else roundUp 32 (a.h.toNat * 2)) := by
  have hle := hs.h_le
  rw [hAlignSize]
  split_ifs
  · rw [quantComputeCount_eq hs, exact_mul (by unfold roundUp; omega), u32_exact (by unfold roundUp; omega)]
  · rw [axisH_eq hs.axes, exact_mul (by omega), exact_alignUp (by omega) (by omega),
      u32_roundUp (by omega)]

theorem tokenQuantAlign_eq :
    tokenQuantAlign a = exact (roundUp 32 (dispatchPayload (a.quantMode = 4) a.h.toNat) / 4) := by
  have hle := hs.h_le
  rw [tokenQuantAlign, dispatchPayload, hAlignSize_eq hs]
  split_ifs with hmx
  · have hscale : scaleCount a.h.toNat ≤ 2 ^ 12 := by
      unfold scaleCount roundUp
      omega
    have hround : roundUp 256 a.h.toNat ≤ 2 ^ 17 := by
      unfold roundUp
      omega
    rw [hOutSize, axisH_eq hs.axes, if_pos hmx, exact_mul (by omega), mul_one, u32_exact (by omega),
      exact_alignUp (by omega) (by omega), u32_exact (by omega), scaleOutBytes_eq hs]
    dsimp only
    rw [exact_add (by omega), u32_exact (by omega), exact_alignUp (by omega) (by omega),
      u32_exact (by unfold roundUp at *; omega), exact_div]
  · rw [exact_div, roundUp_of_dvd (by decide) (dvd_roundUp 32 _)]

theorem hOutSizeAlign_eq :
    hOutSizeAlign a = exact (roundUp 32 (dispatchPayload (a.quantMode = 4) a.h.toNat) + 32) := by
  have hle := hs.h_le
  have hpayload : dispatchPayload (a.quantMode = 4) a.h.toNat ≤ 2 ^ 18 := by
    unfold dispatchPayload scaleCount roundUp
    split_ifs <;> omega
  generalize hp : dispatchPayload (a.quantMode = 4) a.h.toNat = payload at *
  have hround : roundUp 32 payload / 4 * 4 = roundUp 32 payload := by
    unfold roundUp
    omega
  have hlt : roundUp 32 payload ≤ 2 ^ 19 := by
    unfold roundUp
    omega
  rw [hOutSizeAlign, tokenQuantAlign_eq hs, hp, exact_mul (by omega), hround, exact_add (by omega),
    u32_exact (by omega)]

theorem rowBlocks_le : a.rowBlocks ≤ 300 := by
  have hle := hs.h_le
  unfold LayoutArgs.rowBlocks dispatchBlocks dispatchPayload scaleCount roundUp
  split_ifs <;> omega

theorem blockCntPerToken_eq : blockCntPerToken a = exact a.rowBlocks := by
  rw [blockCntPerToken, hOutSizeAlign_eq hs, exact_ceilDiv (by omega)]
  rfl

theorem packedPayloadBytes_eq : packedPayloadBytes a = exact (a.rowBlocks * 480) := by
  have hle := rowBlocks_le hs
  rw [packedPayloadBytes, blockCntPerToken_eq hs, exact_mul (by omega), u32_exact (by omega)]

theorem hCommuSize_eq : hCommuSize a = exact (a.rowBlocks * 512) := by
  have hle := rowBlocks_le hs
  rw [hCommuSize, blockCntPerToken_eq hs, exact_mul (by omega), u32_exact (by omega)]

theorem inputTensorBytes_eq : inputTensorBytes a =
    exact (if a.quantMode = 4 then roundUp 256 a.h.toNat * 2 else a.rowBlocks * 480) := by
  rw [inputTensorBytes, hAlignSize_eq hs, packedPayloadBytes_eq hs]
  split_ifs <;> rfl

theorem quantWorkBytes_eq : quantWorkBytes a = exact (quantWork (scaleCount a.h.toNat)) := by
  have hle := hs.h_le
  have hscales : roundUp 256 a.h.toNat / 32 ≤ 2 ^ 12 := by
    unfold roundUp
    omega
  -- the kernel pads the row to 256 elements before it counts the scales
  have hpad : quantWork (scaleCount a.h.toNat) = quantWork (roundUp 256 a.h.toNat / 32) := by
    unfold quantWork scaleCount roundUp
    omega
  rw [hpad, quantWorkBytes, quantComputeScaleCount_eq hs]
  generalize roundUp 256 a.h.toNat / 32 = scales at hscales
  have hround : roundUp 32 scales ≤ 2 ^ 13 := by
    unfold roundUp
    omega
  rw [exact_alignUp (by omega) (by omega), u32_exact (by omega), exact_mul (by omega), exact_mul (by omega),
    exact_add (by omega), exact_alignUp (by omega) (by omega), u32_exact (by unfold roundUp at *; omega),
    quantWork]

theorem expertIdsSize_eq : expertIdsSize a = exact (roundUp 32 (a.bs.toNat * a.topK.toNat * 4)) := by
  have hle := hs.ids_le
  rw [expertIdsSize, expertIdsCnt_eq hs, exact_mul (by omega), exact_alignUp (by omega) (by omega),
    u32_roundUp (by omega)]

theorem expertIdsBufSize_eq : expertIdsBufSize a = exact (roundUp 256 (a.bs.toNat * a.topK.toNat * 4)) := by
  have hle := hs.ids_le
  rw [expertIdsBufSize, expertIdsCnt_eq hs, exact_mul (by omega), exact_alignUp (by omega) (by omega),
    u32_roundUp (by omega)]

theorem expertMaskBytes_eq : expertMaskBytes a = exact (a.bs.toNat * roundUp 32 a.topK.toNat * 2) := by
  have hle := hs.mask_le
  have hk := hs.topK_le
  rw [expertMaskBytes, expertMaskRowBytes, axisBS_eq hs.axes, axisK_eq hs.axes, exact_alignUp (by omega) (by omega),
    u32_roundUp (by omega), exact_mul (by omega), u32_exact (by omega), exact_mul (by omega),
    u32_exact (by omega)]

theorem maxSize_eq : maxSize a = exact (ubMaxSize (a.quantMode = 4) a.h.toNat a.topK.toNat a.bs.toNat) := by
  rw [maxSize, ubMaxSize, expertIdsSize_eq hs, expertMaskBytes_eq hs, quantWorkBytes_eq hs]
  split_ifs <;> rfl

end DispatchKernel

theorem Shape.aivUsedCumSum_le (s : Shape) : s.aivUsedCumSum ≤ 8 := by
  unfold Shape.aivUsedCumSum Shape.cumsumMaxCoreNum
  dsimp only
  split_ifs <;> omega

theorem Shape.aivUsedCumSum_le_rscv (s : Shape) : s.aivUsedCumSum ≤ s.rscvStatusNum := by
  unfold Shape.aivUsedCumSum
  dsimp only
  split_ifs <;> omega

theorem Shape.moeExpertNumPerRank_le (s : Shape) : s.moeExpertNumPerRank ≤ s.totalExpertNum :=
  (Nat.div_le_self _ _).trans (Nat.le_add_left _ _)

/-- The buffers of dispatch grow with the row, the ids and the mask. -/
theorem le_allToAllBytes (mx : Prop) [Decidable mx] (h k bs : ℕ) :
    h * 4 ≤ allToAllBytes mx h k bs ∧ bs * k * 8 ≤ allToAllBytes mx h k bs ∧
      bs * roundUp 32 k * 4 ≤ allToAllBytes mx h k bs := by
  have hrow : h * 2 ≤ roundUp (if mx then 128 else 32) (h * 2) := le_roundUp (by split_ifs <;> decide) _
  have hids := @le_roundUp 256 (by decide) (bs * k * 4)
  have hmask : bs * roundUp 32 k * 2 ≤ ubMaxSize mx h k bs := by
    unfold ubMaxSize
    dsimp only
    split_ifs <;> omega
  unfold allToAllBytes
  omega

theorem le_countBytes (mx : Prop) [Decidable mx] (h k bs ranks perRank rscv total cores used : ℕ) :
    rscv * 32 ≤ countBytes mx h k bs ranks perRank rscv total cores used ∧
      total * 32 ≤ countBytes mx h k bs ranks perRank rscv total cores used := by
  have htotal := @le_roundUp 8 (by decide) total
  unfold countBytes
  dsimp only
  omega

theorem DispatchSizes.small {a : LayoutArgs} {config : DispatchReferenceConfig} (h : DispatchSizes a config)
    (haccepted : a.shape.Accepted) : DispatchKernel.Small a := by
  obtain ⟨-, hranks, -, -, -, -, -, -, -, -, -, -, hcores, -⟩ := h.shapeOk
  unfold kEpMemoryMaxVectorCoreNum at hcores
  unfold tilexrMaxRankSize at hranks
  obtain ⟨hh, hids, hmask⟩ := le_allToAllBytes (a.quantMode = 4) a.h.toNat a.topK.toNat a.bs.toNat
  obtain ⟨hrscv, htotal⟩ := le_countBytes (a.quantMode = 4) a.h.toNat a.topK.toNat a.bs.toNat a.rankSize.toNat
    a.moeExpertNumPerRank.toNat a.shape.rscvStatusNum a.shape.totalExpertNum a.blockDim.toNat
    a.shape.aivUsedCumSum
  have hsend := h.allToAll_le
  have hcount := h.count_le
  have hbs : a.bs.toNat * 128 ≤ 190 * 1024 := haccepted.bs_le
  have hper := a.shape.moeExpertNumPerRank_le
  exact ⟨by omega, haccepted.bs_pos, by omega, by omega, by omega, by omega, by omega, by omega, by omega,
    by omega, a.shape.aivUsedCumSum_le⟩

end TileXR.EpMemory
