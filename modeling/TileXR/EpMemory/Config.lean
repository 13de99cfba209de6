import TileXR.Checked
import TileXR.Types

/-!
# Which calls of the memory path are launched

The host side of the EP memory operators: `TileXREpValidateDispatchMemoryConfig` and
`TileXREpValidateCombineMemoryConfig` with the layout builders of `ep_memory_layout.cpp`. A kernel runs
only for a call that they accept. Of a pointer only whether it is set matters.
-/

namespace TileXR.EpMemory

inductive ReturnCode
  | paraCheckFail | notSupport | notInitialized
  deriving DecidableEq

def tilexrMaxRankSize : ℤ := 128
def ipcBuffMaxSize : ℤ := 512 * 1024 * 1024
def kEpMemoryStateWindowBytes : ℤ := 1024 * 1024
def kEpMemoryWindowAlignmentBytes : ℤ := 32
def kEpMemorySplitBlockBytes : ℤ := 512
def kEpMemorySplitPayloadBytes : ℤ := 480
def kEpMemoryFullUbBytes : ℤ := 190 * 1024
def kEpMemoryMaxCountCoreNum : ℤ := 8
def kEpMemoryMaxVectorCoreNum : ℤ := 200
def kEpExpertTokenNumsTypePrefixSum : ℤ := 0
def kEpExpertTokenNumsTypeCount : ℤ := 1
def activeMaskNone : ℤ := 0
def activeMaskToken : ℤ := 1
def activeMaskExpert : ℤ := 2

/-- `TileXREpDataTypeSize`, for the types that get there. -/
def dataTypeSize : DataType → ℤ
  | .int8 => 1
  | .fp16 | .bfp16 => 2
  | _ => -1

/-! ## Layouts -/

structure LayoutArgs where
  rankSize : ℤ
  rank : ℤ
  bs : ℤ
  h : ℤ
  topK : ℤ
  moeExpertNum : ℤ
  sharedExpertNum : ℤ
  sharedExpertRankNum : ℤ
  globalBs : ℤ
  dtype : DataType
  quantMode : ℤ
  blockDim : ℤ

namespace LayoutArgs
variable (a : LayoutArgs)

def moeRankNum : ℤ := a.rankSize - a.sharedExpertRankNum
def moeExpertNumPerRank : ℤ := a.moeExpertNum / a.moeRankNum

/-- The checks on the shape that both builders make. -/
def ShapeOk : Prop :=
  0 < a.rankSize ∧ a.rankSize ≤ tilexrMaxRankSize ∧ 0 ≤ a.rank ∧ a.rank < a.rankSize ∧ 0 < a.bs ∧
    0 < a.h ∧ 0 < a.topK ∧ 0 < a.moeExpertNum ∧ 0 ≤ a.sharedExpertNum ∧ 0 ≤ a.sharedExpertRankNum ∧
    0 < a.globalBs ∧ a.globalBs % a.rankSize = 0 ∧ a.blockDim ≤ kEpMemoryMaxVectorCoreNum ∧
    (a.dtype = .fp16 ∨ a.dtype = .bfp16) ∧
    (a.sharedExpertNum = 0 ↔ a.sharedExpertRankNum = 0) ∧ a.sharedExpertRankNum < a.rankSize ∧
    (0 < a.sharedExpertNum → a.sharedExpertRankNum % a.sharedExpertNum = 0) ∧ 0 < a.moeRankNum ∧
    a.moeExpertNum % a.moeRankNum = 0

instance : Decidable a.ShapeOk := by unfold ShapeOk; infer_instance

def workspaceBytes : Option ℤ := do
  let workspaceStatusNum ← mulInt64 a.rankSize a.moeExpertNumPerRank
  let workspaceRawBytes ← mulInt64 a.blockDim workspaceStatusNum
  let workspaceRawBytes ← mulInt64 workspaceRawBytes 4
  alignUpInt64 workspaceRawBytes kEpMemoryWindowAlignmentBytes

end LayoutArgs

def memoryCountCoreNum (totalExpertNum rscvStatusNum blockDim : ℤ) : ℤ :=
  if totalExpertNum ≤ 0 ∨ rscvStatusNum ≤ 0 ∨ blockDim < 2 then 0
  else min (min (min (max (totalExpertNum / 16) 1) (blockDim / 2)) kEpMemoryMaxCountCoreNum) rscvStatusNum

/-! ## Dispatch -/

structure DispatchReferenceConfig where
  localExpertNum : ℤ
  rscvStatusNum : ℤ
  blockDim : ℤ
  aivUsedCumSum : ℤ
  aivUsedAllToAll : ℤ
  sharedUsedAivNum : ℤ
  moeUsedAivNum : ℤ
  hCommuSize : ℤ
  hOutSize : ℤ
  scaleOutBytes : ℤ
  tokenQuantAlignBytes : ℤ
  expertPerSizeOnWin : ℤ
  combineReserveBytes : ℤ
  workspaceBytes : ℤ
  totalWinSize : ℤ
  dispatchHalfBytes : ℤ
  maxSizeForUbBuffer : ℤ
  totalUbSize : ℤ
  allToAllUbBytes : ℤ

section Dispatch
variable (a : LayoutArgs)

/-- How the vector cores are divided: count cores, cores for the shared experts, cores for the others. -/
structure CoreSplit where
  aivUsedCumSum : ℤ
  aivUsedAllToAll : ℤ
  sharedUsedAivNum : ℤ
  moeUsedAivNum : ℤ

def dispatchCoreSplit (totalExpertNum rscvStatusNum : ℤ) : Option CoreSplit := do
  let aivUsedCumSum := memoryCountCoreNum totalExpertNum rscvStatusNum a.blockDim
  guard (¬ (aivUsedCumSum = 0 ∨ aivUsedCumSum ≥ a.blockDim))
  let aivUsedAllToAll := a.blockDim - aivUsedCumSum
  let sharedUsedAivNum :=
    if a.sharedExpertRankNum > 0 then
      let share := aivUsedAllToAll * a.sharedExpertNum / (a.topK + a.sharedExpertNum)
      if share = 0 then 1 else share
    else 0
  guard (¬ sharedUsedAivNum ≥ aivUsedAllToAll)
  return ⟨aivUsedCumSum, aivUsedAllToAll, sharedUsedAivNum, aivUsedAllToAll - sharedUsedAivNum⟩

/-- The sizes of one token row, in the order of the source. -/
structure DispatchRow where
  inputBytes : ℤ
  hOutSize : ℤ
  scaleOutBytes : ℤ
  tokenQuantAlignBytes : ℤ
  packedPayloadBytes : ℤ
  hCommuSize : ℤ

def dispatchScaleBytes : Option ℤ :=
  if a.quantMode = 4 then do alignUpInt64 (← ceilDivInt64 a.h 32) 2 else some 0

def dispatchRow : Option DispatchRow := do
  let useMxfp8 := a.quantMode = 4
  let dtypeBytes := dataTypeSize a.dtype
  let inputBytes ← mulInt64 a.h dtypeBytes
  let hOutBytes ← mulInt64 a.h (if useMxfp8 then 1 else dtypeBytes)
  let tokenPayloadBytes ← alignUpInt64 hOutBytes (if useMxfp8 then 256 else kEpMemoryWindowAlignmentBytes)
  let scaleOutBytes ← dispatchScaleBytes a
  let payloadAndScaleBytes ← addInt64 tokenPayloadBytes scaleOutBytes
  let tokenQuantAlignBytes ← alignUpInt64 payloadAndScaleBytes kEpMemoryWindowAlignmentBytes
  let hOutSizeAlign ← addInt64 tokenQuantAlignBytes kEpMemoryWindowAlignmentBytes
  let blockCntPerToken ← ceilDivInt64 hOutSizeAlign kEpMemorySplitPayloadBytes
  let packedPayloadBytes ← mulInt64 blockCntPerToken kEpMemorySplitPayloadBytes
  let hCommuSize ← mulInt64 blockCntPerToken kEpMemorySplitBlockBytes
  return ⟨inputBytes, hOutBytes, scaleOutBytes, tokenQuantAlignBytes, packedPayloadBytes, hCommuSize⟩

def combineReserve : Option ℤ := do
  let combinePayloadBytes ← mulInt64 a.h (dataTypeSize a.dtype)
  let combineBlockCount ← ceilDivInt64 combinePayloadBytes kEpMemorySplitPayloadBytes
  let combineRowBytes ← mulInt64 combineBlockCount kEpMemorySplitBlockBytes
  let routesPerToken ← addInt64 a.topK a.sharedExpertNum
  let combineRows ← mulInt64 (a.globalBs / a.rankSize) routesPerToken
  mulInt64 combineRows combineRowBytes

/-- The larger of a buffer and the work space of the quantisation. -/
def withQuantWork (scaleOutBytes size : ℤ) : Option ℤ :=
  if a.quantMode = 4 then do
    let alignedScaleCount ← alignUpInt64 scaleOutBytes 32
    let quantWorkBytes ← mulInt64 alignedScaleCount 4
    let quantWorkBytes ← addInt64 quantWorkBytes (scaleOutBytes * 2)
    let quantWorkBytes ← alignUpInt64 quantWorkBytes kEpMemoryWindowAlignmentBytes
    return max size quantWorkBytes
  else some size

/-- Bytes of the expert ids, rounded up, and the largest of the buffers that are used twice. -/
def maxSizeForUbBuffer (scaleOutBytes : ℤ) : Option (ℤ × ℤ × ℤ) := do
  let expertIdsBytes ← mulInt64 a.bs a.topK
  let expertIdsBytes ← mulInt64 expertIdsBytes 4
  let expertIdsAligned ← alignUpInt64 expertIdsBytes kEpMemoryWindowAlignmentBytes
  let expertMaskRowBytes ← alignUpInt64 a.topK kEpMemoryWindowAlignmentBytes
  let expertMaskBytes ← mulInt64 a.bs expertMaskRowBytes
  let expertMaskHalfBytes ← mulInt64 expertMaskBytes 2
  let size ← withQuantWork a scaleOutBytes (max expertIdsAligned expertMaskHalfBytes)
  guard (¬ (size ≤ 0 ∨ size ≥ kEpMemoryFullUbBytes))
  return (expertIdsBytes, expertIdsAligned, size)

def allToAllUb (row : DispatchRow) (expertIdsAligned expertIdsVecBytes maxSize : ℤ) : Option ℤ := do
  let useMxfp8 := a.quantMode = 4
  let hAlignBytes ← alignUpInt64 row.inputBytes (if useMxfp8 then 128 else kEpMemoryWindowAlignmentBytes)
  let inputBuffersPerSlotBytes ← addInt64 (if useMxfp8 then hAlignBytes else row.packedPayloadBytes) hAlignBytes
  let inputPoolBytes ← mulInt64 2 inputBuffersPerSlotBytes
  let idsTerm ← mulInt64 2 expertIdsVecBytes
  let maxTerm ← mulInt64 2 maxSize
  let bytes ← sumInt64 (2 * kEpMemoryWindowAlignmentBytes)
    ([inputPoolBytes, idsTerm, maxTerm, expertIdsAligned] ++
      (if useMxfp8 then [row.packedPayloadBytes] else []) ++ [row.hCommuSize])
  guard (¬ bytes > kEpMemoryFullUbBytes)
  return bytes

def countUbOk (rscvStatusNum totalExpertNum aivUsedCumSum expertIdsVecBytes maxSize : ℤ) : Option Unit := do
  let recvStatusPerCore := rscvStatusNum / aivUsedCumSum + if rscvStatusNum % aivUsedCumSum = 0 then 0 else 1
  let statusBytes ← mulInt64 recvStatusPerCore kEpMemoryWindowAlignmentBytes
  let waitStatusBytes ← alignUpInt64 statusBytes 256
  let scalars ← mulInt64 recvStatusPerCore 4
  let recvStatusScalarBytes ← alignUpInt64 scalars kEpMemoryWindowAlignmentBytes
  let sums ← mulInt64 a.blockDim 4
  let sumContinueBytes ← alignUpInt64 sums kEpMemoryWindowAlignmentBytes
  let tokenNums ← mulInt64 a.moeExpertNumPerRank 8
  let tokenNumBytes ← alignUpInt64 tokenNums kEpMemoryWindowAlignmentBytes
  let works ← mulInt64 a.rankSize 4
  let workLocalBytes ← alignUpInt64 works kEpMemoryWindowAlignmentBytes
  let statusCountAligned ← alignUpInt64 totalExpertNum 8
  let maxTerm ← mulInt64 2 maxSize
  let idsTerm ← mulInt64 2 expertIdsVecBytes
  let statusTerm ← mulInt64 statusCountAligned kEpMemoryWindowAlignmentBytes
  let coreTerm ← mulInt64 (2 * a.blockDim) kEpMemoryWindowAlignmentBytes
  let recvTerm ← mulInt64 rscvStatusNum kEpMemoryWindowAlignmentBytes
  let bytes ← sumInt64 kEpMemoryWindowAlignmentBytes
    [maxTerm, idsTerm, statusTerm, waitStatusBytes, recvStatusScalarBytes, statusBytes, coreTerm,
      sumContinueBytes, 3 * kEpMemoryWindowAlignmentBytes, recvTerm, tokenNumBytes, workLocalBytes]
  guard (¬ bytes > kEpMemoryFullUbBytes)

def localCopyUbOk (rscvStatusNum aivUsedCumSum hCommuSize : ℤ) : Option Unit := do
  let statesPerAiv := rscvStatusNum / a.blockDim + if rscvStatusNum % a.blockDim = 0 then 0 else 1
  let counts ← mulInt64 rscvStatusNum 4
  let receiveCountBytes ← alignUpInt64 counts kEpMemoryWindowAlignmentBytes
  let states ← mulInt64 statesPerAiv 4
  let sourceInfoBytes ← alignUpInt64 states kEpMemoryWindowAlignmentBytes
  let flagTerm ← mulInt64 (2 * aivUsedCumSum) kEpMemoryWindowAlignmentBytes
  let infoTerm ← mulInt64 3 sourceInfoBytes
  let blockTerm ← mulInt64 (hCommuSize / kEpMemorySplitBlockBytes) kEpMemoryWindowAlignmentBytes
  let bytes ← sumInt64 kEpMemoryWindowAlignmentBytes
    [receiveCountBytes, flagTerm, infoTerm, 2 * kEpMemoryWindowAlignmentBytes, blockTerm]
  guard (¬ (bytes ≥ kEpMemoryFullUbBytes ∨ kEpMemoryFullUbBytes - bytes < hCommuSize))

def buildMemoryDispatchReferenceConfig (expandXOutDtype : DataType) : Option DispatchReferenceConfig := do
  guard (a.ShapeOk ∧ 2 ≤ a.blockDim ∧ (a.quantMode = 0 ∨ a.quantMode = 4) ∧
    if a.quantMode = 4 then expandXOutDtype = .fp8e4m3 ∨ expandXOutDtype = .fp8e5m2
    else expandXOutDtype = a.dtype)
  let isSharedExpertRank := a.rank < a.sharedExpertRankNum
  let localExpertNum := if isSharedExpertRank then 1 else a.moeExpertNumPerRank
  let rscvStatusNum := if isSharedExpertRank then a.rankSize else a.rankSize * a.moeExpertNumPerRank
  let totalExpertNum ← addInt64 a.sharedExpertRankNum a.moeExpertNum
  let cores ← dispatchCoreSplit a totalExpertNum rscvStatusNum
  let row ← dispatchRow a
  let expertPerSizeOnWin ← mulInt64 (a.globalBs / a.rankSize) row.hCommuSize
  let combineReserveBytes ← combineReserve a
  let workspaceBytes ← a.workspaceBytes
  let totalWinSize := ipcBuffMaxSize - kEpMemoryStateWindowBytes - workspaceBytes
  guard (¬ totalWinSize ≤ 0)
  let dispatchDataBytes ← mulInt64 rscvStatusNum expertPerSizeOnWin
  let requiredHalfBytes ← addInt64 combineReserveBytes dispatchDataBytes
  guard (¬ requiredHalfBytes > totalWinSize / 2)
  let (expertIdsBytes, expertIdsAligned, maxSize) ← maxSizeForUbBuffer a row.scaleOutBytes
  let expertIdsVecBytes ← alignUpInt64 expertIdsBytes 256
  let allToAllUbBytes ← allToAllUb a row expertIdsAligned expertIdsVecBytes maxSize
  countUbOk a rscvStatusNum totalExpertNum cores.aivUsedCumSum expertIdsVecBytes maxSize
  localCopyUbOk a rscvStatusNum cores.aivUsedCumSum row.hCommuSize
  return {
    localExpertNum, rscvStatusNum, blockDim := a.blockDim
    aivUsedCumSum := cores.aivUsedCumSum, aivUsedAllToAll := cores.aivUsedAllToAll
    sharedUsedAivNum := cores.sharedUsedAivNum, moeUsedAivNum := cores.moeUsedAivNum
    hCommuSize := row.hCommuSize, hOutSize := row.hOutSize, scaleOutBytes := row.scaleOutBytes
    tokenQuantAlignBytes := row.tokenQuantAlignBytes, expertPerSizeOnWin, combineReserveBytes
    workspaceBytes, totalWinSize, dispatchHalfBytes := totalWinSize / 2, maxSizeForUbBuffer := maxSize
    totalUbSize := kEpMemoryFullUbBytes, allToAllUbBytes }

end Dispatch

/-! ## Combine -/

structure CombineReferenceConfig where
  moeExpertNumPerRank : ℤ
  blockDim : ℤ
  blockCntPerToken : ℤ
  packedRowBytes : ℤ
  combineReserveBytes : ℤ
  workspaceBytes : ℤ
  totalWinSize : ℤ
  combineHalfBytes : ℤ
  receiveUbBytes : ℤ
  sendUbBytes : ℤ

section Combine
variable (a : LayoutArgs)

/-- Whether rows are quantised on the way. -/
def LayoutArgs.CommMxfp8 : Prop := a.quantMode = 3 ∨ a.quantMode = 4

instance : Decidable a.CommMxfp8 := by unfold LayoutArgs.CommMxfp8; infer_instance

structure CombineRow where
  rowBytes : ℤ
  inputAlignBytes : ℤ
  scaleCount : ℤ
  blockCntPerToken : ℤ
  packedRowBytes : ℤ

/-- Bytes on the way, aligned bytes of the input and number of scales. -/
def combineCommData (rowBytes : ℤ) : Option (ℤ × ℤ × ℤ) :=
  if a.CommMxfp8 then do
    let fp8PayloadBytes ← alignUpInt64 a.h 256
    let scaleCount ← ceilDivInt64 a.h 32
    let scaleCount ← alignUpInt64 scaleCount 2
    let commDataBytes ← addInt64 fp8PayloadBytes scaleCount
    let inputAlignBytes ← alignUpInt64 a.h 128
    let inputAlignBytes ← mulInt64 inputAlignBytes (dataTypeSize a.dtype)
    return (commDataBytes, inputAlignBytes, scaleCount)
  else do
    let inputAlignBytes ← alignUpInt64 rowBytes kEpMemoryWindowAlignmentBytes
    return (rowBytes, inputAlignBytes, 0)

def combineRow : Option CombineRow := do
  let rowBytes ← mulInt64 a.h (dataTypeSize a.dtype)
  let (commDataBytes, inputAlignBytes, scaleCount) ← combineCommData a rowBytes
  let blockCntPerToken ← ceilDivInt64 commDataBytes kEpMemorySplitPayloadBytes
  let packedRowBytes ← mulInt64 blockCntPerToken kEpMemorySplitBlockBytes
  return ⟨rowBytes, inputAlignBytes, scaleCount, blockCntPerToken, packedRowBytes⟩

/-- Two scale buffers for the dequantisation. -/
def dequantScaleBytes (scaleCount : ℤ) : Option (List ℤ) :=
  if a.CommMxfp8 then do
    let bytes ← alignUpInt64 scaleCount 128
    let bytes ← mulInt64 bytes 8
    return [bytes]
  else some []

def receiveUb (row : CombineRow) (routesPerToken : ℤ) : Option ℤ := do
  let totalPackedBlocks ← mulInt64 routesPerToken row.blockCntPerToken
  let flagFloatCount ← mulInt64 totalPackedBlocks (kEpMemoryWindowAlignmentBytes / 4)
  let compareCount ← alignUpInt64 flagFloatCount 64
  let checkFlagBytes ← mulInt64 compareCount 4
  let checkCompareBytes ← mulInt64 compareCount 1
  let checkCompareBytes ← alignUpInt64 checkCompareBytes 256
  let checkFlagsBytes ← addInt64 checkFlagBytes checkCompareBytes
  let compactPayloadBytes ← mulInt64 row.blockCntPerToken kEpMemorySplitPayloadBytes
  let floatRowBytes ← mulInt64 a.h 4
  let alignedFloatRowBytes ←
    alignUpInt64 floatRowBytes (if a.CommMxfp8 then 512 else kEpMemoryWindowAlignmentBytes)
  let alignedOutputBytes ← alignUpInt64 row.rowBytes kEpMemoryWindowAlignmentBytes
  let scales ← mulInt64 a.topK 4
  let scaleBytes ← alignUpInt64 scales kEpMemoryWindowAlignmentBytes
  let maskBytes ← alignUpInt64 a.bs kEpMemoryWindowAlignmentBytes
  let clearFlagBytes ← mulInt64 row.blockCntPerToken kEpMemoryWindowAlignmentBytes
  let rowTerm ← mulInt64 3 alignedFloatRowBytes
  let dequant ← dequantScaleBytes a row.scaleCount
  sumInt64 (4 * kEpMemoryWindowAlignmentBytes)
    ([checkFlagsBytes, max compactPayloadBytes alignedOutputBytes, rowTerm, alignedOutputBytes, scaleBytes,
      maskBytes, clearFlagBytes] ++ dequant)

/-- The quantised row and the work space of the quantisation. -/
def sendQuantBytes (scaleCount compactPayloadBytes : ℤ) : Option (List ℤ) :=
  if a.CommMxfp8 then do
    let alignedScaleCount ← alignUpInt64 scaleCount 32
    let quantWorkBytes ← mulInt64 alignedScaleCount 4
    let quantWorkBytes ← addInt64 quantWorkBytes (scaleCount * 2)
    let quantWorkBytes ← alignUpInt64 quantWorkBytes kEpMemoryWindowAlignmentBytes
    return [compactPayloadBytes, quantWorkBytes]
  else some []

def sendUb (row : CombineRow) : Option ℤ := do
  let compactPayloadBytes ← mulInt64 row.blockCntPerToken kEpMemorySplitPayloadBytes
  let sendInputBytes :=
    if a.CommMxfp8 then row.inputAlignBytes else max row.inputAlignBytes compactPayloadBytes
  let quantBytes ← sendQuantBytes a row.scaleCount compactPayloadBytes
  sumInt64 kEpMemoryWindowAlignmentBytes ([sendInputBytes, row.packedRowBytes] ++ quantBytes)

def buildMemoryCombineReferenceConfig : Option CombineReferenceConfig := do
  guard (a.ShapeOk ∧ 0 < a.blockDim ∧ (a.quantMode = 0 ∨ a.CommMxfp8))
  let row ← combineRow a
  let routesPerToken ← addInt64 a.topK a.sharedExpertNum
  let combineRows ← mulInt64 (a.globalBs / a.rankSize) routesPerToken
  let combineReserveBytes ← mulInt64 combineRows row.packedRowBytes
  let workspaceBytes ← a.workspaceBytes
  let totalWinSize := ipcBuffMaxSize - kEpMemoryStateWindowBytes - workspaceBytes
  guard (¬ (totalWinSize ≤ 0 ∨ combineReserveBytes > totalWinSize / 2))
  let receiveUbBytes ← receiveUb a row routesPerToken
  let sendUbBytes ← sendUb a row
  guard (¬ (sendUbBytes > kEpMemoryFullUbBytes ∨ receiveUbBytes > kEpMemoryFullUbBytes))
  return {
    moeExpertNumPerRank := a.moeExpertNumPerRank, blockDim := a.blockDim
    blockCntPerToken := row.blockCntPerToken, packedRowBytes := row.packedRowBytes, combineReserveBytes
    workspaceBytes, totalWinSize, combineHalfBytes := totalWinSize / 2, receiveUbBytes, sendUbBytes }

end Combine

/-! ## Calls -/

/-- `CommArgs`, as far as the validation reads it. -/
structure CommArgs where
  rank : ℤ
  rankSize : ℤ
  /-- Whether the memory of a peer is mapped. -/
  peerMems : ℕ → Bool

/-- A communicator of one rank. -/
def soleRank : CommArgs := ⟨0, 1, fun _ => true⟩

/-- What `EpDispatchParams` and `EpCombineParams` have in common. -/
structure CommonParams where
  xActiveMask : Bool
  activeMaskType : ℤ
  expertScales : Bool
  bs : ℤ
  h : ℤ
  topK : ℤ
  moeExpertNum : ℤ
  epWorldSize : ℤ
  epRankId : ℤ
  tpWorldSize : ℤ
  tpRankId : ℤ
  expertShardType : ℤ
  sharedExpertNum : ℤ
  sharedExpertRankNum : ℤ
  quantMode : ℤ
  globalBs : ℤ
  dtype : DataType

structure DispatchParams extends CommonParams where
  scales : Bool
  expertTokenNumsType : ℤ
  dynamicScalesOut : Bool
  tpRecvCountsOut : Bool
  expandScalesOut : Bool
  expandXOutDtype : DataType

structure CombineParams extends CommonParams where

variable {commArgs : CommArgs} {blockDim : ℤ}

/-- `TileXREpMemoryGlobalBs` and `ResolveGlobalBs` -/
def memoryGlobalBs (params : CommonParams) (commArgs : CommArgs) : Option ℤ :=
  if params.bs ≤ 0 ∨ commArgs.rankSize ≤ 0 ∨ params.bs > maxInt64 / commArgs.rankSize then none
  else if params.globalBs ≠ 0 ∧ params.globalBs ≠ params.bs * commArgs.rankSize then none
  else some (params.bs * commArgs.rankSize)

/-- The rank and the peers of the communicator, checked first. -/
def checkCommArgs (commArgs : CommArgs) : Except ReturnCode Unit :=
  if commArgs.rankSize ≤ 0 ∨ commArgs.rankSize > tilexrMaxRankSize ∨ commArgs.rank < 0 ∨
      commArgs.rank ≥ commArgs.rankSize then .error .paraCheckFail
  else if ∃ rank < commArgs.rankSize.toNat, commArgs.peerMems rank = false then .error .notInitialized
  else .ok ()

def LayoutArgs.of (params : CommonParams) (commArgs : CommArgs) (globalBs blockDim : ℤ) : LayoutArgs where
  rankSize := commArgs.rankSize
  rank := commArgs.rank
  bs := params.bs
  h := params.h
  topK := params.topK
  moeExpertNum := params.moeExpertNum
  sharedExpertNum := params.sharedExpertNum
  sharedExpertRankNum := params.sharedExpertRankNum
  globalBs := globalBs
  dtype := params.dtype
  quantMode := params.quantMode
  blockDim := blockDim

def errorUnless (ok : Prop) [Decidable ok] (code : ReturnCode) : Except ReturnCode Unit :=
  if ok then .ok () else .error code

def orParaCheckFail {α : Type} : Option α → Except ReturnCode α
  | some x => .ok x
  | none => .error .paraCheckFail

def effectiveTpWorldSize (tpWorldSize : ℤ) : ℤ := if tpWorldSize = 0 then 1 else tpWorldSize

/-- `TileXREpValidateMemoryMask` -/
def validateDispatchMask (params : DispatchParams) : Except ReturnCode Unit :=
  if params.activeMaskType = activeMaskNone then errorUnless (params.xActiveMask = false) .paraCheckFail
  else if params.activeMaskType = activeMaskToken ∨ params.activeMaskType = activeMaskExpert then
    errorUnless (params.xActiveMask = true) .paraCheckFail
  else .error .paraCheckFail

/-- `ValidateMask` of combine; it does not take an expert mask. -/
def validateCombineMask (params : CombineParams) : Except ReturnCode Unit :=
  if params.activeMaskType = activeMaskNone then errorUnless (params.xActiveMask = false) .paraCheckFail
  else if params.activeMaskType = activeMaskToken then
    errorUnless (params.xActiveMask = true) .paraCheckFail
  else if params.activeMaskType = activeMaskExpert then .error .notSupport
  else .error .paraCheckFail

/-- The checks on the parallel layout that both validations make. -/
def checkWorld (params : CommonParams) (commArgs : CommArgs) : Prop :=
  params.expertShardType = 0 ∧ (params.epWorldSize = 0 ∨ params.epWorldSize = commArgs.rankSize) ∧
    (params.epRankId = 0 ∨ params.epRankId = commArgs.rank)

instance (params : CommonParams) (commArgs : CommArgs) : Decidable (checkWorld params commArgs) := by
  unfold checkWorld; infer_instance

/-- The type and the scales that the output must have. -/
def checkExpandXOut (params : DispatchParams) (expandXOutDtype : DataType) : Except ReturnCode Unit :=
  if params.quantMode = 0 then
    errorUnless (params.dynamicScalesOut = false ∧ expandXOutDtype = params.dtype) .paraCheckFail
  else if params.quantMode = 4 then
    errorUnless (params.dynamicScalesOut = true ∧
      (expandXOutDtype = .fp8e4m3 ∨ expandXOutDtype = .fp8e5m2)) .paraCheckFail
  else .error .notSupport

def validateDispatchMemoryConfig (params : DispatchParams) (commArgs : CommArgs) (blockDim : ℤ) :
    Except ReturnCode DispatchReferenceConfig := do
  checkCommArgs commArgs
  errorUnless (effectiveTpWorldSize params.tpWorldSize = 1 ∧ params.tpRankId = 0 ∧
    params.tpRecvCountsOut = false ∧ params.scales = false ∧ params.expertScales = false ∧
    params.expandScalesOut = false) .notSupport
  let expandXOutDtype :=
    if params.expandXOutDtype = .reserved then params.dtype else params.expandXOutDtype
  checkExpandXOut params expandXOutDtype
  errorUnless (checkWorld params.toCommonParams commArgs ∧
    kEpExpertTokenNumsTypePrefixSum ≤ params.expertTokenNumsType ∧
    params.expertTokenNumsType ≤ kEpExpertTokenNumsTypeCount) .paraCheckFail
  validateDispatchMask params
  let globalBs ← orParaCheckFail (memoryGlobalBs params.toCommonParams commArgs)
  orParaCheckFail (buildMemoryDispatchReferenceConfig
    (LayoutArgs.of params.toCommonParams commArgs globalBs blockDim) expandXOutDtype)

def validateCombineMemoryConfig (params : CombineParams) (commArgs : CommArgs) (blockDim : ℤ) :
    Except ReturnCode CombineReferenceConfig := do
  checkCommArgs commArgs
  errorUnless (effectiveTpWorldSize params.tpWorldSize = 1 ∧ params.tpRankId = 0 ∧
    (params.quantMode = 0 ∨ params.quantMode = 3 ∨ params.quantMode = 4)) .notSupport
  errorUnless (params.quantMode = 3 ∨ params.quantMode = 4 → params.expertScales = true) .paraCheckFail
  errorUnless (checkWorld params.toCommonParams commArgs) .paraCheckFail
  validateCombineMask params
  let globalBs ← orParaCheckFail (memoryGlobalBs params.toCommonParams commArgs)
  orParaCheckFail (buildMemoryCombineReferenceConfig
    (LayoutArgs.of params.toCommonParams commArgs globalBs blockDim))

/-! ## What an accepted call went through -/

theorem bind_ok {α β : Type} {x : Except ReturnCode α} {f : α → Except ReturnCode β} {b : β}
    (h : (x >>= f) = .ok b) : ∃ a, x = .ok a ∧ f a = .ok b := by
  cases x with
  | error e => cases h
  | ok a => exact ⟨a, rfl, h⟩

theorem orParaCheckFail_ok {α : Type} {x : Option α} {a : α} (h : orParaCheckFail x = .ok a) : x = some a := by
  cases x with
  | none => cases h
  | some b => cases h; rfl

/-- The builder is called with the batch of the whole world. -/
theorem memoryGlobalBs_eq {params : CommonParams} {globalBs : ℤ}
    (h : memoryGlobalBs params commArgs = some globalBs) : globalBs = params.bs * commArgs.rankSize := by
  unfold memoryGlobalBs at h
  split_ifs at h
  exact (Option.some.inj h).symm

theorem build_of_validateDispatch {params : DispatchParams} {config : DispatchReferenceConfig}
    (h : validateDispatchMemoryConfig params commArgs blockDim = .ok config) :
    ∃ dtype, buildMemoryDispatchReferenceConfig (LayoutArgs.of params.toCommonParams commArgs
      (params.bs * commArgs.rankSize) blockDim) dtype = some config := by
  obtain ⟨-, -, h⟩ := bind_ok h
  obtain ⟨-, -, h⟩ := bind_ok h
  obtain ⟨-, -, h⟩ := bind_ok h
  obtain ⟨-, -, h⟩ := bind_ok h
  obtain ⟨-, -, h⟩ := bind_ok h
  obtain ⟨globalBs, hglobal, h⟩ := bind_ok h
  rw [memoryGlobalBs_eq (orParaCheckFail_ok hglobal)] at h
  exact ⟨_, orParaCheckFail_ok h⟩

theorem build_of_validateCombine {params : CombineParams} {config : CombineReferenceConfig}
    (h : validateCombineMemoryConfig params commArgs blockDim = .ok config) :
    buildMemoryCombineReferenceConfig (LayoutArgs.of params.toCommonParams commArgs
      (params.bs * commArgs.rankSize) blockDim) = some config := by
  obtain ⟨-, -, h⟩ := bind_ok h
  obtain ⟨-, -, h⟩ := bind_ok h
  obtain ⟨-, -, h⟩ := bind_ok h
  obtain ⟨-, -, h⟩ := bind_ok h
  obtain ⟨-, -, h⟩ := bind_ok h
  obtain ⟨globalBs, hglobal, h⟩ := bind_ok h
  rw [memoryGlobalBs_eq (orParaCheckFail_ok hglobal)] at h
  exact orParaCheckFail_ok h

end TileXR.EpMemory
