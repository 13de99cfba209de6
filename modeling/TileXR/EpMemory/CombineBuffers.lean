import TileXR.EpMemory.Sizes

/-!
# The on-chip buffers of combine

`Init`, `InitSendBuffers` and `InitReceiveBuffers` of the combine kernel. Its sizes are 32-bit words. The
kernel runs for a quantised mode only on the architecture that quantises, so that `useMxfp8_` is decided
by the mode. The host reserves 128 bytes where the kernel keeps a status for every token of its core.
-/

namespace TileXR.EpMemory
open Lib List Word

namespace CombineKernel
variable (a : LayoutArgs)

def slotCount : Word := u32 (axisK a + arg32 a.sharedExpertNum)

/-! ## `Init` -/

def rowBytes : Word := u32 (axisH a * exact 2)
def rowAlignBytes : Word := u32 (alignUp (rowBytes a) (exact 32))
def floatRowAlignBytes : Word :=
  u32 (alignUp (axisH a * exact 4) (exact (if a.CommMxfp8 then 512 else 32)))
def quantPayloadBytes : Word := u32 (alignUp (axisH a) (exact 256))
def quantScaleCount : Word := u32 (alignUp (ceilDiv (axisH a) (exact 32)) (exact 2))
def quantComputeScaleCount : Word := quantPayloadBytes a / exact 32
def inputAlignBytes : Word :=
  if a.CommMxfp8 then u32 (quantPayloadBytes a * exact 2) else rowAlignBytes a
def commDataBytes : Word :=
  if a.CommMxfp8 then u32 (quantPayloadBytes a + quantScaleCount a) else rowBytes a
def quantWorkBytes : Word :=
  if a.CommMxfp8 then
    u32 (alignUp (alignUp (quantComputeScaleCount a) (exact 32) * exact 4 +
      quantComputeScaleCount a * exact 2) (exact 32))
  else exact 0
def blockCntPerToken : Word := u32 (ceilDiv (commDataBytes a) (exact 480))
def packedRowBytes : Word := u32 (blockCntPerToken a * exact 512)
def compactPayloadBytes : Word := u32 (blockCntPerToken a * exact 480)
def sendInputBytes : Word :=
  if a.CommMxfp8 then inputAlignBytes a else max (inputAlignBytes a) (compactPayloadBytes a)
def receiveInputBytes : Word := max (rowAlignBytes a) (compactPayloadBytes a)

/-! ## The two phases -/

/-- `InitSendBuffers`: the sizes that the pipe is asked for, in order. -/
def initSendBuffers : List Word :=
  [exact 32, sendInputBytes a, packedRowBytes a] ++
    if a.CommMxfp8 then [compactPayloadBytes a, quantWorkBytes a] else []

def compareCount : Word :=
  let totalBlocks := u32 (slotCount a * blockCntPerToken a)
  let flagFloatCount := u32 (totalBlocks * exact 8)
  u32 (alignUp flagFloatCount (exact 64))

def tokenStatusBytes : Word :=
  alignUp (u32 (ceilDiv (axisBS a) (aivNum a)) * exact 4) (exact 32)

def initReceiveBuffers : List Word :=
  [compareCount a * exact 4, alignUp (compareCount a) (exact 256), receiveInputBytes a, floatRowAlignBytes a,
    floatRowAlignBytes a, floatRowAlignBytes a] ++
  (if a.CommMxfp8 then [alignUp (quantScaleCount a) (exact 128) * exact 4 * exact 2] else []) ++
  [rowAlignBytes a, alignUp (axisK a * exact 4) (exact 32), alignUp (axisBS a) (exact 32),
    u32 (blockCntPerToken a * exact 32), tokenStatusBytes a]

/-! ## The values -/

/-- How large the shape of a launched combine can be. -/
structure Small : Prop where
  h_le : a.h.toNat ≤ 2 ^ 14
  bs_le : a.bs.toNat ≤ 2 ^ 18
  topK_le : a.topK.toNat ≤ 2 ^ 18
  slots_le : a.slots ≤ 2 ^ 13
  blocks_le : a.slots * combineBlocks a.CommMxfp8 a.h.toNat ≤ 2 ^ 13
  blockDim_pos : 0 < a.blockDim.toNat
  blockDim_le : a.blockDim.toNat ≤ 200

variable {a} (hs : Small a)
include hs

theorem Small.axes : SmallAxes a := by
  obtain ⟨hh, hbs, hk, -, -, -, hcores⟩ := hs
  exact ⟨by omega, by omega, by omega, by omega⟩

theorem slotCount_eq : slotCount a = exact a.slots := by
  have hslots := hs.slots_le
  unfold LayoutArgs.slots at hslots
  rw [slotCount, axisK_eq hs.axes, arg32, u32_exact (by omega), exact_add (by omega), u32_exact (by omega),
    LayoutArgs.slots]

theorem rowBytes_eq : rowBytes a = exact (a.h.toNat * 2) := by
  have hle := hs.h_le
  rw [rowBytes, axisH_eq hs.axes, exact_mul (by omega), u32_exact (by omega)]

theorem rowAlignBytes_eq : rowAlignBytes a = exact (roundUp 32 (a.h.toNat * 2)) := by
  have hle := hs.h_le
  rw [rowAlignBytes, rowBytes_eq hs, exact_alignUp (by omega) (by omega), u32_roundUp (by omega)]

theorem floatRowAlignBytes_eq : floatRowAlignBytes a = exact (floatRowBytes a.CommMxfp8 a.h.toNat) := by
  have hle := hs.h_le
  rw [floatRowAlignBytes, floatRowBytes, axisH_eq hs.axes, exact_mul (by omega)]
  split_ifs
  · rw [exact_alignUp (by omega) (by omega), u32_roundUp (by omega)]
  · rw [exact_alignUp (by omega) (by omega), u32_roundUp (by omega)]

theorem quantPayloadBytes_eq : quantPayloadBytes a = exact (roundUp 256 a.h.toNat) := by
  have hle := hs.h_le
  rw [quantPayloadBytes, axisH_eq hs.axes, exact_alignUp (by omega) (by omega), u32_roundUp (by omega)]

theorem quantScaleCount_eq : quantScaleCount a = exact (scaleCount a.h.toNat) := by
  have hle := hs.h_le
  rw [quantScaleCount, axisH_eq hs.axes, exact_ceilDiv (by omega), exact_alignUp (by omega) (by omega),
    u32_roundUp (by omega)]
  rfl

theorem quantComputeScaleCount_eq : quantComputeScaleCount a = exact (roundUp 256 a.h.toNat / 32) := by
  rw [quantComputeScaleCount, quantPayloadBytes_eq hs, exact_div]

theorem commDataBytes_eq : commDataBytes a = exact (combineComm a.CommMxfp8 a.h.toNat) := by
  have hle := hs.h_le
  rw [commDataBytes, combineComm]
  split_ifs
  · have hlt : roundUp 256 a.h.toNat + scaleCount a.h.toNat < 2 ^ 32 := by
      unfold scaleCount roundUp
      omega
    rw [quantPayloadBytes_eq hs, quantScaleCount_eq hs, exact_add (by omega), u32_exact hlt]
  · exact rowBytes_eq hs

theorem combineBlocks_le : combineBlocks a.CommMxfp8 a.h.toNat ≤ 70 := by
  have hle := hs.h_le
  unfold combineBlocks combineComm scaleCount roundUp
  split_ifs <;> omega

theorem blockCntPerToken_eq : blockCntPerToken a = exact (combineBlocks a.CommMxfp8 a.h.toNat) := by
  have hle := combineBlocks_le hs
  rw [blockCntPerToken, commDataBytes_eq hs, exact_ceilDiv (by omega)]
  exact u32_exact (hle.trans_lt (by decide))

theorem packedRowBytes_eq : packedRowBytes a = exact (combineBlocks a.CommMxfp8 a.h.toNat * 512) := by
  have hle := combineBlocks_le hs
  rw [packedRowBytes, blockCntPerToken_eq hs, exact_mul (by omega), u32_exact (by omega)]

theorem compactPayloadBytes_eq : compactPayloadBytes a = exact (combineBlocks a.CommMxfp8 a.h.toNat * 480) := by
  have hle := combineBlocks_le hs
  rw [compactPayloadBytes, blockCntPerToken_eq hs, exact_mul (by omega), u32_exact (by omega)]

theorem inputAlignBytes_eq : inputAlignBytes a =
    exact (if a.CommMxfp8 then roundUp 256 a.h.toNat * 2 else roundUp 32 (a.h.toNat * 2)) := by
  have hle := hs.h_le
  rw [inputAlignBytes]
  split_ifs
  · rw [quantPayloadBytes_eq hs, exact_mul (by unfold roundUp; omega), u32_exact (by unfold roundUp; omega)]
  · exact rowAlignBytes_eq hs

/-- The work space is computed from the scales of the padded row. -/
theorem quantWorkBytes_eq (hmx : a.CommMxfp8) :
    quantWorkBytes a = exact (quantWork (roundUp 256 a.h.toNat / 32)) := by
  have hle := hs.h_le
  have hscales : roundUp 256 a.h.toNat / 32 ≤ 2 ^ 10 := by
    unfold roundUp
    omega
  rw [quantWorkBytes, if_pos hmx, quantComputeScaleCount_eq hs]
  generalize roundUp 256 a.h.toNat / 32 = scales at hscales
  have hround : roundUp 32 scales ≤ 2 ^ 11 := by
    unfold roundUp
    omega
  rw [exact_alignUp (by omega) (by omega), exact_mul (by omega), exact_mul (by omega), exact_add (by omega),
    exact_alignUp (by omega) (by omega), u32_exact (by unfold roundUp at *; omega), quantWork]

theorem compareCount_eq :
    compareCount a = exact (roundUp 64 (a.slots * combineBlocks a.CommMxfp8 a.h.toNat * 8)) := by
  have hle := hs.blocks_le
  rw [compareCount, slotCount_eq hs, blockCntPerToken_eq hs, exact_mul (by omega), u32_exact (by omega)]
  rw [exact_mul (by omega), u32_exact (by omega), exact_alignUp (by omega) (by omega),
    u32_roundUp (by omega)]

theorem tokenStatusBytes_eq : tokenStatusBytes a =
    exact (roundUp 32 ((a.bs.toNat + a.blockDim.toNat - 1) / a.blockDim.toNat * 4)) := by
  have hle := hs.bs_le
  have hpos := hs.blockDim_pos
  have htokens : (a.bs.toNat + a.blockDim.toNat - 1) / a.blockDim.toNat ≤ 2 ^ 18 + 200 := by
    refine (Nat.div_le_self _ _).trans ?_
    have := hs.blockDim_le
    omega
  rw [tokenStatusBytes, axisBS_eq hs.axes, aivNum_eq hs.axes, exact_ceilDiv hpos, u32_exact (by omega),
    exact_mul (by omega), exact_alignUp (by omega) (by omega)]

/-- The receive buffers are those the host counts and the status of the tokens. -/
theorem initReceiveBuffers_sums : Sums (initReceiveBuffers a)
    (receiveBytes a.CommMxfp8 a.h.toNat a.slots a.topK.toNat a.bs.toNat +
      roundUp 32 ((a.bs.toNat + a.blockDim.toNat - 1) / a.blockDim.toNat * 4)) := by
  have hh := hs.h_le
  have hbs := hs.bs_le
  have hk := hs.topK_le
  have hblocks := combineBlocks_le hs
  have hflags := hs.blocks_le
  have hscales : scaleCount a.h.toNat ≤ 2 ^ 10 := by
    unfold scaleCount roundUp
    omega
  have hcompare : roundUp 64 (a.slots * combineBlocks a.CommMxfp8 a.h.toNat * 8) ≤ 2 ^ 17 := by
    unfold roundUp
    omega
  have hdequant : roundUp 128 (scaleCount a.h.toNat) ≤ 2 ^ 11 := by
    unfold roundUp
    omega
  have hquant : Sums (if a.CommMxfp8 then [alignUp (quantScaleCount a) (exact 128) * exact 4 * exact 2] else [])
      (if a.CommMxfp8 then roundUp 128 (scaleCount a.h.toNat) * 4 * 2 else 0) := by
    rw [quantScaleCount_eq hs, exact_alignUp (by omega) (by omega), exact_mul (by omega), exact_mul (by omega)]
    split_ifs
    · exact sums_map [_]
    · exact sums_map []
  rw [initReceiveBuffers, compareCount_eq hs, floatRowAlignBytes_eq hs, rowAlignBytes_eq hs,
    blockCntPerToken_eq hs, tokenStatusBytes_eq hs, axisBS_eq hs.axes, axisK_eq hs.axes, receiveInputBytes,
    rowAlignBytes_eq hs, compactPayloadBytes_eq hs, exact_max, exact_mul (by omega),
    exact_alignUp (by omega) (by omega), exact_mul (by omega), exact_alignUp (by omega) (by omega),
    exact_alignUp (by omega) (by omega), exact_mul (by omega), u32_exact (by omega)]
  refine Eq.mp (congrArg (Sums _) ?_)
    (sums_append (sums_append (sums_map [_, _, _, _, _, _]) hquant) (sums_map [_, _, _, _, _]))
  rw [receiveBytes, max_comm]
  simp only [sum_cons, sum_nil]
  split_ifs <;> omega

/-- The send buffers fit, also with the wider input row of the quantised modes. -/
theorem initSendBuffers_sums (hsend : sendBytes a.CommMxfp8 a.h.toNat ≤ 190 * 1024) :
    ∃ n ≤ 190 * 1024, Sums (initSendBuffers a) n := by
  have hblocks := combineBlocks_le hs
  rw [initSendBuffers, sendInputBytes, inputAlignBytes_eq hs, packedRowBytes_eq hs, compactPayloadBytes_eq hs]
  by_cases hmx : a.CommMxfp8
  · simp only [if_pos hmx]
    rw [quantWorkBytes_eq hs hmx]
    refine ⟨_, ?_, sums_map [_, _, _, _, _]⟩
    have hh := hs.h_le
    have hinput : roundUp 256 a.h.toNat * 2 ≤ 2 ^ 16 := by
      unfold roundUp
      omega
    have hwork : quantWork (roundUp 256 a.h.toNat / 32) ≤ 2 ^ 14 := by
      unfold quantWork roundUp
      omega
    simp only [sum_cons, sum_nil]
    omega
  · simp only [if_neg hmx, exact_max, append_nil]
    refine ⟨_, ?_, sums_map [_, _, _]⟩
    rw [sendBytes, if_neg hmx, if_neg hmx] at hsend
    simp only [sum_cons, sum_nil]
    omega

end CombineKernel

theorem le_receiveBytes (mx : Prop) [Decidable mx] (h slots k bs : ℕ) :
    h * 12 ≤ receiveBytes mx h slots k bs ∧ bs ≤ receiveBytes mx h slots k bs ∧ k * 4 ≤ receiveBytes mx h slots k bs ∧
      slots * combineBlocks mx h * 32 ≤ receiveBytes mx h slots k bs := by
  have hrow : h * 4 ≤ floatRowBytes mx h := le_roundUp (by split_ifs <;> decide) _
  have hflags := @le_roundUp 64 (by decide) (slots * combineBlocks mx h * 8)
  have hk := @le_roundUp 32 (by decide) (k * 4)
  have hbs := @le_roundUp 32 (by decide) bs
  unfold receiveBytes
  omega

/-- A launched combine is small: most of the chip is taken by what grows with the shape. -/
theorem small_of_build {a : LayoutArgs} {config : CombineReferenceConfig}
    (h : buildMemoryCombineReferenceConfig a = some config) : CombineKernel.Small a := by
  have hsizes := combineBuild_spec h
  have hblock := hsizes.blockDim_pos
  have hfit := hsizes.receive_le
  obtain ⟨-, -, -, -, -, hpos, -, -, -, -, -, -, hcores, -⟩ := hsizes.shapeOk
  rw [hsizes.receive_eq, kEpMemoryFullUbBytes] at hfit
  unfold kEpMemoryMaxVectorCoreNum at hcores
  obtain ⟨hh, hbs, hk, hflags⟩ := le_receiveBytes a.CommMxfp8 a.h.toNat a.slots a.topK.toNat a.bs.toNat
  have hblocks := combineBlocks_pos a.CommMxfp8 (Int.lt_toNat.2 hpos)
  have hslots := Nat.le_mul_of_pos_right a.slots hblocks
  exact ⟨by omega, by omega, by omega, by omega, by omega, by omega, by omega⟩

/-- The buffers of a launched combine are computed without overflow and fit, those it sends with always
and those it receives with exactly when the status of the tokens of a core takes no more than what the
host's estimate leaves, beside the 128 bytes in it. -/
theorem combine_buffers_fit_iff {params : CombineParams} {commArgs : CommArgs} {blockDim : ℤ}
    {config : CombineReferenceConfig}
    (h : validateCombineMemoryConfig params commArgs blockDim = .ok config) :
    (∀ w ∈ CombineKernel.initSendBuffers (params.layout commArgs blockDim) ++
      CombineKernel.initReceiveBuffers (params.layout commArgs blockDim), w.wrapped = false) ∧
    (Fits (CombineKernel.initSendBuffers (params.layout commArgs blockDim)) ∧
      Fits (CombineKernel.initReceiveBuffers (params.layout commArgs blockDim)) ↔
      config.receiveUbBytes +
          (roundUp 32 ((params.bs.toNat + blockDim.toNat - 1) / blockDim.toNat * 4) : ℕ) ≤
        190 * 1024 + 128) := by
  have hbuild := build_of_validateCombine h
  have hs := small_of_build hbuild
  have hsizes := combineBuild_spec hbuild
  obtain ⟨n, hn, hsendSums⟩ := CombineKernel.initSendBuffers_sums hs hsizes.send_le
  have hreceiveSums := CombineKernel.initReceiveBuffers_sums hs
  refine ⟨List.forall_mem_append.2 ⟨hsendSums.1, hreceiveSums.1⟩, ?_⟩
  rw [Fits, Fits, CommonParams.layout, hsendSums.2, hreceiveSums.2, and_iff_right hn, hsizes.receive_eq]
  simp only [LayoutArgs.of]
  omega

/-- One rank with one expert, rows of one element, and a large batch. -/
def wideBatch (bs : ℤ) : CombineParams where
  xActiveMask := false
  activeMaskType := 0
  expertScales := false
  bs := bs
  h := 1
  topK := 1
  moeExpertNum := 1
  epWorldSize := 1
  epRankId := 0
  tpWorldSize := 1
  tpRankId := 0
  expertShardType := 0
  sharedExpertNum := 0
  sharedExpertRankNum := 0
  quantMode := 0
  globalBs := 0
  dtype := .fp16

theorem combine_buffers_fit_wideBatch :
    ∃ config, validateCombineMemoryConfig (wideBatch 1024) soleRank 48 = .ok config ∧
      Fits (CombineKernel.initReceiveBuffers ((wideBatch 1024).layout soleRank 48)) :=
  ⟨_, rfl, ((combine_buffers_fit_iff (rfl : validateCombineMemoryConfig (wideBatch 1024) soleRank 48 = .ok _)).2.2
    (by decide)).2⟩

/-- A batch of 185000 tokens is accepted for 48 cores. The mask and the status of the tokens do not fit
side by side. -/
theorem combine_buffers_overflow :
    ∃ config, validateCombineMemoryConfig (wideBatch 185000) soleRank 48 = .ok config ∧
      ¬ Fits (CombineKernel.initReceiveBuffers ((wideBatch 185000).layout soleRank 48)) :=
  ⟨_, rfl, by decide⟩

end TileXR.EpMemory
