import TileXR.EpMemory.DispatchTiling

/-!
# The on-chip buffers of dispatch

The buffers that a core of the dispatch kernel initialises: those of `Init`, then those of
`AllToAllDispatch` or of `CalCumSum`, and after a reset of the pipe those of `LocalWindowCopy`. The buffers
of the pipe lie one behind the other, so that the distance between two of them is the sum of the sizes
between.
-/

namespace TileXR.EpMemory
open Lib List Word

namespace DispatchKernel
variable (a : LayoutArgs) (activeMaskType : ℤ)

def isTokenMaskFlag : Prop := activeMaskType = activeMaskToken
def isExpertMaskFlag : Prop := activeMaskType = activeMaskExpert

instance : Decidable (isTokenMaskFlag activeMaskType) := inferInstanceAs (Decidable (_ = _))
instance : Decidable (isExpertMaskFlag activeMaskType) := inferInstanceAs (Decidable (_ = _))

/-- `Init` and `SetDataStatus` -/
def initBuffers : List Word := [exact 32, exact 32]

def expertActiveMaskInit : List Word :=
  [u32 (alignUp (axisBS a * exact 4) (exact 32)), max (expertIdsSize a) (expertMaskBytes a)]

def runPosRecord : List Word := [exact 32]

/-! ## `AllToAllDispatch` -/

/-- The buffers of a core that sends, before those its rows are sent from. The pool of the buffer that is
cleared shares the memory of the pool of the input queue. -/
def allToAllBuffers : List Word :=
  let calTokenIdxBuffSize := u32 (alignUp (u32 (axisBS a * axisK a) * exact 4) (exact 32))
  let needMaskCalFlag := isTokenMaskFlag activeMaskType ∨ isExpertMaskFlag activeMaskType
  initBuffers ++ [u32 (exact 2 * inputTensorBytes a), expertIdsBufSize a] ++
    (if needMaskCalFlag then [expertIdsBufSize a] else []) ++
    (if a.quantMode = 4 then [quantTensorBytes a, maxSize a, maxSize a]
      else if needMaskCalFlag then [maxSize a, maxSize a]
      else [calTokenIdxBuffSize, calTokenIdxBuffSize]) ++
    [calTokenIdxBuffSize] ++ (if isExpertMaskFlag activeMaskType then expertActiveMaskInit a else [])

/-- `CalcSendTokenBufNum`: the buffers that rows are sent from; their number is a `uint8_t`. -/
def sendTokenBufNum : ℕ :=
  let remainUbSize := exact (190 * 1024) - (exact ((allToAllBuffers a activeMaskType).map value).sum + exact 32)
  min ((remainUbSize / hCommuSize a).value % 2 ^ 8) 8

/-- `AllToAllDispatch`; the core goes on to send when a token is active. -/
def allToAllDispatch (active : Bool) : List Word :=
  allToAllBuffers a activeMaskType ++
    if active then
      exact 32 :: if sendTokenBufNum a activeMaskType = 0 then []
        else [u32 (hCommuSize a * exact (sendTokenBufNum a activeMaskType))]
    else []

/-! ## `CalCumSum` -/

/-- `BufferInit`, for the number of status records of the core. -/
def bufferInit (recStatusNumPerCore : ℕ) : List Word :=
  let perCore := u32 (exact recStatusNumPerCore)
  let recStatusNumPerCoreSpace := alignUp (perCore * exact 4) (exact 32)
  let recvWinBlockNumSpace := u32 (epWorldSize a * moeExpertNumPerRank a) * exact 4
  [u32 (alignUp (u32 (perCore * exact 32)) (exact 256)), max recStatusNumPerCoreSpace recvWinBlockNumSpace,
    u32 (aivNum a * exact 32), u32 (aivNum a * exact 32), alignUp (aivNum a * exact 4) (exact 32), exact 96,
    u32 (rscvStatusNum a * exact 32), u32 (alignUp (moeExpertNumPerRank a * exact 8) (exact 32)),
    u32 (alignUp (epWorldSize a * exact 4) (exact 32))]

/-- The status records of a count core, by its number among the count cores. -/
def recStatusNum (newAivId : ℕ) : ℕ :=
  (Shape.splitToCore a.shape.rscvStatusNum a.shape.aivUsedCumSum newAivId).2

def calCumSum (newAivId : ℕ) : List Word :=
  initBuffers ++ [maxSize a, maxSize a, expertIdsBufSize a, expertIdsBufSize a,
    u32 (statusCntAlign a * exact 32)] ++
    (if isExpertMaskFlag activeMaskType then expertActiveMaskInit a else []) ++
    bufferInit a (recStatusNum a newAivId) ++ runPosRecord

/-! ## `LocalWindowCopy` -/

/-- The status records that a core copies the rows of. -/
def sendNum (aivId : ℕ) : ℕ := (Shape.splitToCore a.shape.rscvStatusNum a.shape.aivNum aivId).2

def rscvNumAlign : Word := u32 (alignUp (rscvStatusNum a * exact 4) (exact 32))
def expInfoSize (aivId : ℕ) : Word := u32 (alignUp (u32 (exact (sendNum a aivId)) * exact 4) (exact 32))

/-- What is left of the chip, for the rows. -/
def tBufRealSize (aivId : ℕ) : Word :=
  u32 (exact (190 * 1024) - (exact 32 + rscvNumAlign a + exact 2 * aivUsedCumSum a * exact 32) -
    expInfoSize a aivId * exact 3 - exact 64 - blockCntPerToken a * exact 32)

/-- The buffers from the reset on. A core without status records returns early; the first core also writes
the numbers of tokens out, and a core that copied a row records its position once more. -/
def localWindowCopy (aivId : ℕ) (copied : Bool) : List Word :=
  [exact 32, u32 (aivUsedCumSum a * exact 32), rscvNumAlign a, u32 (aivUsedCumSum a * exact 32)] ++
    runPosRecord ++
    if sendNum a aivId = 0 then []
    else
      [expInfoSize a aivId, expInfoSize a aivId, expInfoSize a aivId, exact 64,
        u32 (blockCntPerToken a * exact 32), tBufRealSize a aivId] ++
      (if aivId = 0 then [u32 (alignUp (moeExpertNumPerRank a * exact 8) (exact 32))] else []) ++
      if copied then runPosRecord else []

/-! ## The sums -/

/-- What the buffers of an expert mask take. -/
def maskSpace : ℕ :=
  roundUp 32 (a.bs.toNat * 4) +
    max (roundUp 32 (a.bs.toNat * a.topK.toNat * 4)) (a.bs.toNat * roundUp 32 a.topK.toNat * 2)

/-- What a sending core needs beside the buffers the host counts. -/
def sendLeftOut : ℕ :=
  (if isExpertMaskFlag activeMaskType then maskSpace a else 0) +
    if a.quantMode = 4 then 4 * roundUp 256 a.h.toNat else 0

/-- What the host counts beside the buffers of a sending core. -/
def sendSpare : ℕ :=
  (if a.quantMode = 4 then 4 * roundUp 128 (a.h.toNat * 2) else 2 * roundUp 32 (a.h.toNat * 2)) +
    if isTokenMaskFlag activeMaskType ∨ isExpertMaskFlag activeMaskType then 0
    else roundUp 256 (a.bs.toNat * a.topK.toNat * 4) +
      if a.quantMode = 4 then 0
      else 2 * (ubMaxSize (a.quantMode = 4) a.h.toNat a.topK.toNat a.bs.toNat -
        roundUp 32 (a.bs.toNat * a.topK.toNat * 4))

/-- What a count core needs beside the buffers the host counts: the status records are those of the core
itself, and the buffer that gathers them is also wide enough for the records of a rank that is not one of the
shared experts. -/
def countLeftOut (newAivId : ℕ) : ℕ :=
  64 + (if isExpertMaskFlag activeMaskType then maskSpace a else 0) +
    roundUp 256 (recStatusNum a newAivId * 32) +
    max (roundUp 32 (recStatusNum a newAivId * 4)) (a.rankSize.toNat * a.shape.moeExpertNumPerRank * 4)

/-- What the host counts beside the buffers of a count core. -/
def countSpare : ℕ :=
  let perCore := (a.shape.rscvStatusNum + a.shape.aivUsedCumSum - 1) / a.shape.aivUsedCumSum
  roundUp 256 (perCore * 32) + roundUp 32 (perCore * 4) + perCore * 32

/-- Row buffers behind `n` bytes and the end mark fit, and there is one at least, when there is room for one
and the number of those that there is room for does not vanish in eight bits. -/
theorem rows_fit_iff {n row num : ℕ} (hrow : 512 ≤ row)
    (hnum : n + 32 ≤ 190 * 1024 → num = min ((190 * 1024 - (n + 32)) / row % 2 ^ 8) 8) :
    n + 32 + row * num ≤ 190 * 1024 ∧ 0 < num ↔
      n + 32 + row ≤ 190 * 1024 ∧ (190 * 1024 - (n + 32 + row)) / row ≠ 255 := by
  have hprev (hroom : n + 32 + row ≤ 190 * 1024) :
      (190 * 1024 - (n + 32)) / row = (190 * 1024 - (n + 32 + row)) / row + 1 := by
    rw [Nat.div_eq_sub_div (by omega) (by omega), Nat.sub_sub]
  have hlt : (190 * 1024 - (n + 32)) / row ≤ 380 := Nat.div_le_of_le_mul (by omega)
  have hmul : row * ((190 * 1024 - (n + 32)) / row) ≤ 190 * 1024 - (n + 32) := Nat.mul_div_le _ _
  constructor
  · rintro ⟨hfits, hpos⟩
    have hone := Nat.le_mul_of_pos_right row hpos
    have hroom : n + 32 + row ≤ 190 * 1024 := by omega
    refine ⟨hroom, fun h255 => ?_⟩
    rw [hprev hroom, h255] at hnum
    have := hnum (by omega)
    omega
  · rintro ⟨hroom, h255⟩
    specialize hnum (by omega)
    rw [hprev hroom] at hnum hlt hmul
    obtain ⟨q, hq⟩ : ∃ q, (190 * 1024 - (n + 32 + row)) / row = q := ⟨_, rfl⟩
    rw [hq] at h255 hnum hlt hmul
    have := Nat.mul_le_mul_left row (show num ≤ q + 1 by omega)
    exact ⟨by omega, by omega⟩

section Sums
variable {a} (hs : Small a)
include hs

theorem expertActiveMaskInit_sums : Sums (expertActiveMaskInit a) (maskSpace a) := by
  have hle := hs.bs_le
  rw [expertActiveMaskInit, axisBS_eq hs.axes, exact_mul (by omega), exact_alignUp (by omega) (by omega),
    u32_roundUp (by omega), expertIdsSize_eq hs, expertMaskBytes_eq hs, exact_max]
  exact sums_map [_, _]

theorem allToAllBuffers_sums : ∃ n, Sums (allToAllBuffers a activeMaskType) n ∧
    n + a.rowBlocks * 512 + sendSpare a activeMaskType =
      allToAllBytes (a.quantMode = 4) a.h.toNat a.topK.toNat a.bs.toNat + sendLeftOut a activeMaskType := by
  have hids : u32 (alignUp (u32 (axisBS a * axisK a) * exact 4) (exact 32)) =
      exact (roundUp 32 (a.bs.toNat * a.topK.toNat * 4)) := expertIdsSize_eq hs
  have hinput : u32 (exact 2 * inputTensorBytes a) =
      exact (2 * if a.quantMode = 4 then roundUp 256 a.h.toNat * 2 else a.rowBlocks * 480) := by
    have hh := hs.h_le
    have hblocks := rowBlocks_le hs
    have hlt : 2 * (if a.quantMode = 4 then roundUp 256 a.h.toNat * 2 else a.rowBlocks * 480) < 2 ^ 32 := by
      unfold roundUp
      split_ifs <;> omega
    rw [inputTensorBytes_eq hs, exact_mul (by omega), u32_exact hlt]
  have hmax : roundUp 32 (a.bs.toNat * a.topK.toNat * 4) ≤
      ubMaxSize (a.quantMode = 4) a.h.toNat a.topK.toNat a.bs.toNat := by
    unfold ubMaxSize
    dsimp only
    split_ifs <;> omega
  rw [allToAllBuffers, hids, hinput, expertIdsBufSize_eq hs, maxSize_eq hs, quantTensorBytes,
    packedPayloadBytes_eq hs]
  refine ⟨_, sums_append (sums_append (sums_append (sums_append (sums_append (sums_map [32, 32]) (sums_map [_,
    _])) (sums_ite (sums_map [_]) sums_nil)) (sums_ite (sums_map [_, _, _]) (sums_ite (sums_map [_, _]) (sums_map [_,
    _])))) (sums_map [_])) (sums_ite (expertActiveMaskInit_sums hs) sums_nil), ?_⟩
  rw [sendSpare, sendLeftOut, allToAllBytes, LayoutArgs.rowBlocks]
  simp only [sum_cons, sum_nil]
  split_ifs <;> omega

omit hs in
/-- A core that has room for the end mark has the quotient of the rest as buffers, in eight bits. -/
theorem sendTokenBufNum_eq (hcommu : hCommuSize a = exact (a.rowBlocks * 512)) {n : ℕ}
    (hn : Sums (allToAllBuffers a activeMaskType) n) (hle : n + 32 ≤ 190 * 1024) :
    sendTokenBufNum a activeMaskType = min ((190 * 1024 - (n + 32)) / (a.rowBlocks * 512) % 2 ^ 8) 8 := by
  rw [sendTokenBufNum, hn.2, hcommu, exact_add (by omega), exact_sub (by omega) hle, exact_div]
  rfl

theorem allToAllDispatch_sums {n : ℕ} (hn : Sums (allToAllBuffers a activeMaskType) n) :
    ((allToAllDispatch a activeMaskType true).map value).sum =
      n + 32 + a.rowBlocks * 512 * sendTokenBufNum a activeMaskType := by
  have hblocks := rowBlocks_le hs
  have hnum : sendTokenBufNum a activeMaskType ≤ 8 := min_le_right _ _
  have hrow : a.rowBlocks * 512 * sendTokenBufNum a activeMaskType ≤ 300 * 512 * 8 := by gcongr
  rw [allToAllDispatch, if_pos rfl, hCommuSize_eq hs, exact_mul (by omega), u32_exact (by omega),
    map_append, sum_append, hn.2, map_cons, sum_cons, add_assoc]
  split_ifs with hzero
  · rw [hzero]
    rfl
  · rfl

theorem allToAllDispatch_fits_iff {n : ℕ} (hn : Sums (allToAllBuffers a activeMaskType) n) :
    Fits (allToAllDispatch a activeMaskType true) ∧ 0 < sendTokenBufNum a activeMaskType ↔
      n + 32 + a.rowBlocks * 512 ≤ 190 * 1024 ∧
        (190 * 1024 - (n + 32 + a.rowBlocks * 512)) / (a.rowBlocks * 512) ≠ 255 := by
  have hpos : 0 < a.rowBlocks := by
    unfold LayoutArgs.rowBlocks dispatchBlocks
    omega
  rw [Fits, allToAllDispatch_sums activeMaskType hs hn]
  exact rows_fit_iff (by omega) (sendTokenBufNum_eq activeMaskType (hCommuSize_eq hs) hn)

theorem bufferInit_sums {r : ℕ} (hr : r ≤ 2 ^ 14) : Sums (bufferInit a r) (roundUp 256 (r * 32) +
      max (roundUp 32 (r * 4)) (a.rankSize.toNat * a.shape.moeExpertNumPerRank * 4) +
      2 * a.blockDim.toNat * 32 + roundUp 32 (a.blockDim.toNat * 4) + 96 + a.shape.rscvStatusNum * 32 +
      roundUp 32 (a.shape.moeExpertNumPerRank * 8) + roundUp 32 (a.rankSize.toNat * 4)) := by
  have hranks := hs.ranks_le
  have hper := hs.perRank_le
  have hcores := hs.cores_le
  have hrscv := hs.rscv_le
  have hrecords : a.rankSize.toNat * a.shape.moeExpertNumPerRank ≤ 128 * 2 ^ 13 := by gcongr
  simp (disch := omega) only [bufferInit, epWorldSize_eq hs, moeExpertNumPerRank_eq hs, aivNum_eq hs.axes,
    rscvStatusNum_eq hs, exact_mul, exact_alignUp, exact_max, u32_exact, u32_roundUp]
  refine Eq.mp (congrArg (Sums _) ?_) (sums_map [_, _, _, _, _, _, _, _, _])
  simp only [sum_cons, sum_nil]
  omega

theorem calCumSum_sums (hper : a.moeExpertNumPerRank.toNat = a.shape.moeExpertNumPerRank)
    (hused : 0 < a.shape.aivUsedCumSum) (newAivId : ℕ) :
    ∃ n, Sums (calCumSum a activeMaskType newAivId) n ∧ n + countSpare a =
      countBytes (a.quantMode = 4) a.h.toNat a.topK.toNat a.bs.toNat a.rankSize.toNat
        a.moeExpertNumPerRank.toNat a.shape.rscvStatusNum a.shape.totalExpertNum a.blockDim.toNat
        a.shape.aivUsedCumSum + countLeftOut a activeMaskType newAivId := by
  have hrec : recStatusNum a newAivId ≤ 2 ^ 14 := by
    have hrscv := hs.rscv_le
    have hcount := hs.counting_le
    have hceil := @evenPart_le_ceil a.shape.rscvStatusNum _ hused newAivId
    have hdiv := Nat.div_le_self (a.shape.rscvStatusNum + a.shape.aivUsedCumSum - 1) a.shape.aivUsedCumSum
    exact hceil.trans (by omega)
  have hstatus : u32 (statusCntAlign a * exact 32) = exact (roundUp 8 a.shape.totalExpertNum * 32) := by
    have htotal := hs.total_le
    have hround : roundUp 8 a.shape.totalExpertNum ≤ 2 ^ 14 := by
      unfold roundUp
      omega
    rw [statusCntAlign_eq hs, exact_mul (by omega), u32_exact (by omega)]
  rw [calCumSum, hstatus, maxSize_eq hs, expertIdsBufSize_eq hs]
  refine ⟨_, sums_append (sums_append (sums_append (sums_append (sums_map [32, 32]) (sums_map [_, _, _, _,
    _])) (sums_ite (expertActiveMaskInit_sums hs) sums_nil)) (bufferInit_sums hs hrec)) (sums_map [32]), ?_⟩
  rw [hper, countSpare, countLeftOut, countBytes]
  simp only [sum_cons, sum_nil]
  split_ifs <;> omega

theorem expInfoSize_eq (hcores : 0 < a.blockDim.toNat) (aivId : ℕ) :
    expInfoSize a aivId = exact (roundUp 32 (sendNum a aivId * 4)) := by
  have hrscv := hs.rscv_le
  have hle := hs.cores_le
  have hsend : sendNum a aivId ≤ 2 ^ 13 + 200 := by
    have hdiv := Nat.div_le_self (a.shape.rscvStatusNum + a.blockDim.toNat - 1) a.blockDim.toNat
    exact (@evenPart_le_ceil a.shape.rscvStatusNum _ hcores aivId).trans (by omega)
  rw [expInfoSize, u32_exact (by omega), exact_mul (by omega), exact_alignUp (by omega) (by omega),
    u32_roundUp (by omega)]

/-- The rows get all that the other buffers of the phase leave, but for the positions that are recorded. -/
theorem tBufRealSize_eq (hcores : 0 < a.blockDim.toNat) (aivId : ℕ)
    (hcopy : localCopyBytes a.rowBlocks a.shape.rscvStatusNum a.blockDim.toNat a.shape.aivUsedCumSum ≤ 190 * 1024) :
    ∃ rows, tBufRealSize a aivId = exact rows ∧ rows + 32 + roundUp 32 (a.shape.rscvStatusNum * 4) +
      2 * a.shape.aivUsedCumSum * 32 + 3 * roundUp 32 (sendNum a aivId * 4) + 64 + a.rowBlocks * 32 = 190 * 1024 := by
  have hrscv := hs.rscv_le
  have hcount := hs.counting_le
  have hblocks := rowBlocks_le hs
  have hinfo : roundUp 32 (sendNum a aivId * 4) ≤
      roundUp 32 ((a.shape.rscvStatusNum + a.blockDim.toNat - 1) / a.blockDim.toNat * 4) :=
    roundUp_mono (Nat.mul_le_mul_right 4 (evenPart_le_ceil hcores aivId))
  unfold localCopyBytes at hcopy
  refine ⟨190 * 1024 - (32 + roundUp 32 (a.shape.rscvStatusNum * 4) + 2 * a.shape.aivUsedCumSum * 32) -
    roundUp 32 (sendNum a aivId * 4) * 3 - 64 - a.rowBlocks * 32, ?_, by omega⟩
  rw [tBufRealSize, rscvNumAlign, expInfoSize_eq hs hcores, rscvStatusNum_eq hs, aivUsedCumSum_eq hs,
    blockCntPerToken_eq hs]
  simp (disch := omega) only [exact_mul, exact_add, exact_sub, exact_alignUp, u32_exact]

/-- A core with status records to copy from runs over: the rows leave no room for the position. -/
theorem localWindowCopy_fits_iff {aivId : ℕ} (hcore : aivId < a.blockDim.toNat)
    (hcopy : localCopyBytes a.rowBlocks a.shape.rscvStatusNum a.blockDim.toNat a.shape.aivUsedCumSum ≤ 190 * 1024)
    (copied : Bool) : Fits (localWindowCopy a aivId copied) ↔ a.shape.rscvStatusNum ≤ aivId := by
  have hrscv := hs.rscv_le
  have hcount := hs.counting_le
  have hblocks := rowBlocks_le hs
  have hnum : sendNum a aivId = 0 ↔ a.shape.rscvStatusNum ≤ aivId := evenPart_eq_zero hcore
  have hfront : Sums ([exact 32, u32 (aivUsedCumSum a * exact 32), rscvNumAlign a,
      u32 (aivUsedCumSum a * exact 32)] ++ runPosRecord)
      (64 + 2 * a.shape.aivUsedCumSum * 32 + roundUp 32 (a.shape.rscvStatusNum * 4)) := by
    rw [rscvNumAlign, rscvStatusNum_eq hs, aivUsedCumSum_eq hs, exact_mul (by omega), u32_exact (by omega),
      exact_mul (by omega), exact_alignUp (by omega) (by omega), u32_roundUp (by omega)]
    refine Eq.mp (congrArg (Sums _) ?_) (sums_map [_, _, _, _, 32])
    simp only [sum_cons, sum_nil]
    omega
  rw [Fits, localWindowCopy, map_append, sum_append, hfront.2, ← hnum]
  by_cases hzero : sendNum a aivId = 0
  · rw [if_pos hzero]
    unfold localCopyBytes at hcopy
    simp only [map_nil, sum_nil]
    omega
  · have hcores : 0 < a.blockDim.toNat := by omega
    obtain ⟨rows, hrows, hsum⟩ := tBufRealSize_eq hs hcores aivId hcopy
    rw [if_neg hzero, hrows, expInfoSize_eq hs hcores, blockCntPerToken_eq hs, exact_mul (by omega),
      u32_exact (by omega)]
    simp only [cons_append, nil_append, map_cons, sum_cons]
    simp only [exact]
    omega

end Sums

end DispatchKernel

open DispatchKernel in
/-- The buffers of a launched dispatch, phase by phase. A sending core without an active token fits, and one
with active tokens fits and has a buffer for its rows, exactly when what the host leaves out is no more than
what it counts too much and the number of rows that there is room for is not 256. A count core fits exactly
when the same holds of its own buffers. A core that copies rows out of the window never fits. -/
theorem dispatch_buffers_fit_iff {params : DispatchParams} {commArgs : CommArgs} {blockDim : ℤ}
    {config : DispatchReferenceConfig}
    (h : validateDispatchMemoryConfig params commArgs blockDim = .ok config) {a : LayoutArgs}
    (ha : a = params.layout commArgs blockDim) :
    (Fits (allToAllDispatch a params.activeMaskType false) ↔
      config.allToAllUbBytes + sendLeftOut a params.activeMaskType ≤
        190 * 1024 + sendSpare a params.activeMaskType + config.hCommuSize) ∧
    (Fits (allToAllDispatch a params.activeMaskType true) ∧ 0 < sendTokenBufNum a params.activeMaskType ↔
      config.allToAllUbBytes + sendLeftOut a params.activeMaskType + 32 ≤
        190 * 1024 + sendSpare a params.activeMaskType ∧
      (190 * 1024 + sendSpare a params.activeMaskType -
        (config.allToAllUbBytes + sendLeftOut a params.activeMaskType + 32)) / config.hCommuSize ≠ 255) ∧
    (∀ newAivId < a.shape.aivUsedCumSum, Fits (calCumSum a params.activeMaskType newAivId) ↔
      countBytes (a.quantMode = 4) a.h.toNat a.topK.toNat a.bs.toNat a.rankSize.toNat
        a.moeExpertNumPerRank.toNat a.shape.rscvStatusNum a.shape.totalExpertNum a.blockDim.toNat
        a.shape.aivUsedCumSum + countLeftOut a params.activeMaskType newAivId ≤ 190 * 1024 + countSpare a) ∧
    ∀ aivId < a.blockDim.toNat, ∀ copied,
      Fits (localWindowCopy a aivId copied) ↔ a.shape.rscvStatusNum ≤ aivId := by
  obtain ⟨dtype, hbuild⟩ := build_of_validateDispatch h
  rw [← CommonParams.layout, ← ha] at hbuild
  have hsizes := dispatchBuild_spec hbuild
  have haccepted := hsizes.accepted
  have hs := hsizes.small haccepted
  obtain ⟨n, hn, hsum⟩ := allToAllBuffers_sums params.activeMaskType hs
  rw [hsizes.allToAll_eq, hsizes.hCommu_eq]
  refine ⟨?_, ?_, fun newAivId _ => ?_, fun aivId hcore copied => ?_⟩
  · rw [Fits, allToAllDispatch, List.map_append, List.sum_append, hn.2]
    simp only [Bool.false_eq_true, if_false, List.map_nil, List.sum_nil]
    omega
  · rw [allToAllDispatch_fits_iff _ hs hn]
    have hroom : n + 32 + a.rowBlocks * 512 ≤ 190 * 1024 ↔
        (allToAllBytes (a.quantMode = 4) a.h.toNat a.topK.toNat a.bs.toNat : ℤ) +
          sendLeftOut a params.activeMaskType + 32 ≤ 190 * 1024 + sendSpare a params.activeMaskType := by omega
    rw [← hroom]
    refine and_congr_right fun hle => not_congr ?_
    rw [show (190 * 1024 + sendSpare a params.activeMaskType -
        (allToAllBytes (a.quantMode = 4) a.h.toNat a.topK.toNat a.bs.toNat +
          sendLeftOut a params.activeMaskType + 32) : ℤ) =
        (190 * 1024 - (n + 32 + a.rowBlocks * 512) : ℕ) by omega, ← Int.natCast_div]
    exact Nat.cast_inj.symm
  · obtain ⟨m, hm, hcount⟩ := calCumSum_sums params.activeMaskType hs hsizes.shapeOk.perRank_toNat
      haccepted.cumSum_pos newAivId
    rw [Fits, hm.2]
    omega
  · have hcopy := hsizes.localCopy_le
    exact localWindowCopy_fits_iff hs hcore (by omega) copied

/-- Rows of seven elements to eight experts on one rank. -/
def shortRows (bs activeMaskType : ℤ) : DispatchParams where
  xActiveMask := activeMaskType ≠ 0
  activeMaskType := activeMaskType
  expertScales := false
  bs := bs
  h := 7
  topK := 8
  moeExpertNum := 8
  epWorldSize := 1
  epRankId := 0
  tpWorldSize := 1
  tpRankId := 0
  expertShardType := 0
  sharedExpertNum := 0
  sharedExpertRankNum := 0
  quantMode := 0
  globalBs := 0
  dtype := .fp16
  scales := false
  expertTokenNumsType := 0
  dynamicScalesOut := false
  tpRecvCountsOut := false
  expandScalesOut := false
  expandXOutDtype := .fp16

open DispatchKernel in
theorem dispatch_buffers_fit_shortRows :
    ∃ config, validateDispatchMemoryConfig (shortRows 64 2) soleRank 48 = .ok config ∧
      (Fits (allToAllDispatch ((shortRows 64 2).layout soleRank 48) 2 true) ∧
        0 < sendTokenBufNum ((shortRows 64 2).layout soleRank 48) 2) ∧
      Fits (calCumSum ((shortRows 64 2).layout soleRank 48) 2 0) ∧
      Fits (localWindowCopy ((shortRows 64 2).layout soleRank 48) 8 false) := by
  obtain ⟨-, hsend, hcount, hcopy⟩ := dispatch_buffers_fit_iff
    (rfl : validateDispatchMemoryConfig (shortRows 64 2) soleRank 48 = .ok _) rfl
  exact ⟨_, rfl, hsend.2 (by decide), (hcount 0 (by decide)).2 (by decide),
    (hcopy 8 (by decide) false).2 (by decide)⟩

open DispatchKernel in
/-- Accepted calls. With 485 tokens there is room for 256 rows, which is no buffer at all in eight bits; with
800 tokens under an expert mask the sending core runs over, and so does the first core whenever it copies. -/
theorem dispatch_buffers_overflow :
    (∃ config, validateDispatchMemoryConfig (shortRows 485 0) soleRank 48 = .ok config ∧
      sendTokenBufNum ((shortRows 485 0).layout soleRank 48) 0 = 0) ∧
    (∃ config, validateDispatchMemoryConfig (shortRows 800 2) soleRank 48 = .ok config ∧
      ¬ Fits (allToAllDispatch ((shortRows 800 2).layout soleRank 48) 2 true)) ∧
    ∃ config, validateDispatchMemoryConfig (shortRows 64 0) soleRank 48 = .ok config ∧
      ¬ Fits (localWindowCopy ((shortRows 64 0).layout soleRank 48) 0 true) :=
  ⟨⟨_, rfl, by decide⟩, ⟨_, rfl, by decide⟩, ⟨_, rfl, by decide⟩⟩

end TileXR.EpMemory
