import TileXR.EpMemory.CombineBuffers
import TileXR.EpMemory.DispatchTiling

/-!
# The window of the memory path

A rank lends the others a window of 512 MB. It begins with the status of the arrivals; the two halves behind
it are used in turn, each with the slots of combine in front of the blocks of dispatch; at the end the count
cores leave the counts for the others. The builders reserve the parts in checked 64-bit sums, the kernels
form addresses in words of 32 and 64 bits. All addresses are from the start of the window on.
-/

namespace TileXR.EpMemory
open Lib List Nat Word

def LayoutArgs.onRank (a : LayoutArgs) (rank : ℕ) : LayoutArgs := { a with rank := rank }

def LayoutArgs.withMode (a : LayoutArgs) (quantMode : ℤ) : LayoutArgs := { a with quantMode := quantMode }

/-! ## The dispatch kernel -/

namespace DispatchKernel
variable (a : LayoutArgs)

def axisMaxBS : Word := arg32 a.globalBs / epWorldSize a
def expertPerSizeOnWin : Word := u32 (axisMaxBS a * hCommuSize a)
def routesPerToken : Word := u32 (axisK a + arg32 a.sharedExpertNum)

def workspaceBytes : Word := alignUp (aivNum a * (epWorldSize a * moeExpertNumPerRank a) * exact 4) (exact 32)
def totalWinSize : Word := exact (512 * 2 ^ 20) - exact (2 ^ 20) - workspaceBytes a

def reserveBytes : Word :=
  let hSizeAlignCombine := ceilDiv (u32 (axisH a * exact 2)) (exact 480) * exact 512
  u32 (axisMaxBS a * routesPerToken a) * hSizeAlignCombine

def winDataSizeOffset (dataState : ℕ) : Word :=
  exact dataState * (totalWinSize a / exact 2) + reserveBytes a

/-- `GetWindAddrByRankId` -/
def windAddr (dataState : ℕ) : Word := exact (2 ^ 20) + winDataSizeOffset a dataState

/-- `GetWindStateAddrByRankId` -/
def windStateAddr (dataState : ℕ) : Word := exact dataState * exact (384 * 1024)

def recvCntWorkspace : Word := exact (512 * 2 ^ 20) - workspaceBytes a

/-- `scaleOutBytes_`, which stays zero without quantisation. -/
def scaleOut : Word := if a.quantMode = 4 then scaleOutBytes a else exact 0

end DispatchKernel

/-! ## The combine kernel -/

namespace CombineKernel
variable (a : LayoutArgs)

def moeExpertNumPerRank : Word := u32 (exact a.shape.moeExpertNumPerRank)
def workspaceBytes : Word :=
  alignUp (aivNum a * (arg32 a.rankSize * moeExpertNumPerRank a) * exact 4) (exact 32)
def totalWinSize : Word := exact (512 * 2 ^ 20) - exact (2 ^ 20) - workspaceBytes a
def halfWinSize : Word := totalWinSize a / exact 2

def combineWindowBase (dataState : ℕ) : Word := exact (2 ^ 20) + exact dataState * halfWinSize a

def slotAddr (dataState token slot : ℕ) : Word :=
  combineWindowBase a dataState + (exact token * slotCount a + exact slot) * packedRowBytes a

end CombineKernel

/-! ## Parts and accesses -/

inductive WindowPart
  | status
  | combine (half : ℕ)
  | dispatch (half : ℕ)
  | recvCount
  deriving DecidableEq

def windowParts : List WindowPart :=
  [.status, .combine 0, .dispatch 0, .combine 1, .dispatch 1, .recvCount]

/-- What the builders reserve in the window of a rank. -/
def WindowPart.reserved (d : DispatchReferenceConfig) (c : CombineReferenceConfig) : WindowPart → Region
  | status => ⟨0, kEpMemoryStateWindowBytes.toNat⟩
  | combine half =>
    ⟨kEpMemoryStateWindowBytes.toNat + half * c.combineHalfBytes.toNat, c.combineReserveBytes.toNat⟩
  | dispatch half =>
    ⟨kEpMemoryStateWindowBytes.toNat + half * d.dispatchHalfBytes.toNat + d.combineReserveBytes.toNat,
      (d.rscvStatusNum * d.expertPerSizeOnWin).toNat⟩
  | recvCount => ⟨ipcBuffMaxSize.toNat - d.workspaceBytes.toNat, d.workspaceBytes.toNat⟩

/-- What the kernels of a rank read and write in a window. -/
inductive Access
  /-- A row for a shared expert. -/
  | sendShared (expert token : ℕ)
  /-- A row for one of the other experts. -/
  | sendMoe (expert token : ℕ)
  /-- A row that arrived, by its status record. -/
  | arrived (record token : ℕ)
  /-- The status for an expert of a rank. -/
  | sendStatus (rank expert : ℕ)
  | waitStatus (record : ℕ)
  /-- The state and the position of a core. -/
  | dataState (core : ℕ)
  /-- The sum that one count core leaves for another. -/
  | cumSum (core other : ℕ)
  /-- The flag of a count core for a core. -/
  | cumSumFlag (core counter : ℕ)
  | recvCount (core record : ℕ)
  /-- A row of combine in the slot of a token of a rank. -/
  | slot (rank token index : ℕ)

variable {x : Access} {half n : ℕ}

namespace Access
variable (a : LayoutArgs)

def rank : Access → ℕ
  | sendShared expert _ =>
    a.shape.epRankId % a.shape.rankNumPerSharedExpert + expert * a.shape.rankNumPerSharedExpert
  | sendMoe expert _ => expert / a.shape.moeExpertNumPerRank + a.shape.sharedExpertRankNum
  | sendStatus rank _ => rank
  | slot rank _ _ => rank
  | _ => a.shape.epRankId

/-- The indices are those of the shape; a token is one of the largest batch. -/
def Valid : Access → Prop
  | sendShared expert token => expert < a.shape.sharedExpertNum ∧ token < a.maxBs
  | sendMoe expert token => expert < a.shape.moeExpertNum ∧ token < a.maxBs
  | arrived record token => record < a.shape.rscvStatusNum ∧ token < a.maxBs
  | sendStatus rank expert => rank < a.shape.epWorldSize ∧
      expert < if rank < a.shape.sharedExpertRankNum then 1 else a.shape.moeExpertNumPerRank
  | waitStatus record => record < a.shape.rscvStatusNum
  | dataState core => core < a.shape.aivNum
  | cumSum core other => core < a.shape.aivUsedCumSum ∧ other < a.shape.aivUsedCumSum
  | cumSumFlag core counter => core < a.shape.aivNum ∧ counter < a.shape.aivUsedCumSum
  | recvCount core record => core < a.shape.aivNum ∧ record < a.shape.rscvStatusNum
  | slot rank token index => rank < a.shape.epWorldSize ∧ token < a.maxBs ∧ index < a.slots

def part (half : ℕ) : Access → WindowPart
  | sendShared _ _ => .dispatch half
  | sendMoe _ _ => .dispatch half
  | arrived _ _ => .dispatch half
  | recvCount _ _ => .recvCount
  | slot _ _ _ => .combine half
  | _ => .status

/-- The block of the window that a row for an expert goes to. -/
def moeBlock (expert : ℕ) : Word :=
  let toRankId := expert / a.shape.moeExpertNumPerRank + a.shape.sharedExpertRankNum
  u32 (u32 (exact ((a.shape.epRankId + toRankId) % a.shape.epWorldSize) *
    DispatchKernel.moeExpertNumPerRank a) + exact (expert % a.shape.moeExpertNumPerRank))

/-- `srcDataBlockIdx`: the block that the rows of a status record arrive in. -/
def srcDataBlockIdx (record : ℕ) : Word :=
  let localExpertNum := if a.shape.isShareExpertRank then exact 1 else DispatchKernel.moeExpertNumPerRank a
  let source := if a.shape.isShareExpertRank then record % a.shape.epWorldSize
    else (record + a.shape.epRankId) % a.shape.epWorldSize
  u32 (u32 (exact source * localExpertNum) + exact (record / a.shape.epWorldSize))

/-- Where it is, as the kernels compute it; combine runs with a mode of its own. -/
def address (combineMode : ℤ) (half : ℕ) : Access → Word
  | sendShared _ token =>
    DispatchKernel.windAddr a half + DispatchKernel.expertPerSizeOnWin a * exact a.shape.epRankId +
      u32 (exact token * DispatchKernel.hCommuSize a)
  | sendMoe expert token =>
    DispatchKernel.windAddr a half + DispatchKernel.expertPerSizeOnWin a * moeBlock a expert +
      u32 (exact token * DispatchKernel.hCommuSize a)
  | arrived record token =>
    DispatchKernel.windAddr a half + srcDataBlockIdx a record * DispatchKernel.expertPerSizeOnWin a +
      u32 (exact token * DispatchKernel.hCommuSize a)
  | sendStatus _ expert =>
    DispatchKernel.windStateAddr half + u32 (exact 32 * exact a.shape.epRankId) +
      exact expert * (DispatchKernel.epWorldSize a * exact 32)
  | waitStatus record => DispatchKernel.windStateAddr half + u32 (exact record * exact 32)
  | dataState core => exact (768 * 1024) + exact core * exact 512
  | cumSum core other =>
    exact (868 * 1024) + u32 (u32 (exact core * DispatchKernel.aivUsedCumSum a) * exact 32) +
      u32 (exact other * exact 32)
  | cumSumFlag core counter =>
    exact (876 * 1024) + u32 (u32 (exact core * DispatchKernel.aivUsedCumSum a) * exact 32) +
      u32 (exact counter * exact 32)
  | recvCount core record =>
    DispatchKernel.recvCntWorkspace a +
      u32 (u32 (exact core * DispatchKernel.rscvStatusNum a) + exact record) * exact 4
  | slot _ token index => CombineKernel.slotAddr (a.withMode combineMode) half token index

def bytes (combineMode : ℤ) : Access → Word
  | sendShared _ _ => DispatchKernel.hCommuSize a
  | sendMoe _ _ => DispatchKernel.hCommuSize a
  | arrived _ _ => DispatchKernel.hCommuSize a
  | recvCount _ _ => exact 4
  | slot _ _ _ => CombineKernel.packedRowBytes (a.withMode combineMode)
  | _ => exact 32

end Access

/-! ## What the sizes come to -/

/-- How large the window parts of a launched dispatch can be. -/
structure DispatchKernel.SmallWindow (a : LayoutArgs) : Prop extends DispatchKernel.Small a where
  rankSize_pos : 0 < a.rankSize.toNat
  globalBs_eq : a.globalBs.toNat = a.maxBs * a.rankSize.toNat
  routes_le : a.maxBs * a.slots ≤ 2 ^ 19
  slots_pos : 0 < a.slots
  workspace_lt : a.workspace < 511 * 2 ^ 20
  reserve_le : a.reserve ≤ 2 ^ 28
  blocks_le : a.shape.rscvStatusNum * a.blockBytes ≤ 2 ^ 28
  rscv_pos : 0 < a.shape.rscvStatusNum
  maxBs_pos : 0 < a.maxBs
  perRank_eq : a.moeExpertNumPerRank.toNat = a.shape.moeExpertNumPerRank

theorem DispatchSizes.smallWindow {a : LayoutArgs} {config : DispatchReferenceConfig} (h : DispatchSizes a config)
    (haccepted : a.shape.Accepted) : DispatchKernel.SmallWindow a := by
  obtain ⟨hranks, -, -, -, -, hh, hk, -, -, -, hglobal, hmod, -⟩ := h.shapeOk
  have hrankPos : 0 < a.rankSize.toNat := by omega
  have hhalf := h.half_le
  have hdata : a.dataBytes ≤ 511 * 2 ^ 20 := sub_le _ _
  have hslots : 0 < a.slots := by
    unfold LayoutArgs.slots
    omega
  have hrow : a.maxBs * a.slots * 512 ≤ a.reserve := by
    unfold LayoutArgs.reserve
    exact Nat.mul_le_mul_left _ (by omega)
  have hdvd : a.rankSize.toNat ∣ a.globalBs.toNat := by
    rw [← Int.natCast_dvd_natCast, Int.toNat_of_nonneg hranks.le, Int.toNat_of_nonneg hglobal.le]
    exact Int.dvd_of_emod_eq_zero hmod
  refine ⟨h.small haccepted, hrankPos, (Nat.div_mul_cancel hdvd).symm, by omega, hslots, h.workspace_lt, by omega,
    by omega, haccepted.cumSum_pos.trans_le a.shape.aivUsedCumSum_le_rscv, ?_, h.shapeOk.perRank_toNat⟩
  exact Nat.div_pos (le_of_dvd (by omega) hdvd) hrankPos

theorem halfOffset_le (a : LayoutArgs) (hhalf : half < 2) : half * (a.dataBytes / 2) ≤ 511 * 2 ^ 20 := by
  have hdata : a.dataBytes ≤ 511 * 2 ^ 20 := sub_le _ _
  have hmul : half * (a.dataBytes / 2) ≤ 1 * (a.dataBytes / 2) := Nat.mul_le_mul_right _ (by omega)
  omega

namespace DispatchKernel
variable {a : LayoutArgs} (hs : SmallWindow a)
include hs

theorem maxBs_le : a.maxBs ≤ 2 ^ 19 := (Nat.le_mul_of_pos_right _ hs.slots_pos).trans hs.routes_le

theorem slots_le : a.slots ≤ 2 ^ 19 := (Nat.le_mul_of_pos_left _ hs.maxBs_pos).trans hs.routes_le

theorem blockBytes_le : a.blockBytes ≤ 2 ^ 28 := (Nat.le_mul_of_pos_left _ hs.rscv_pos).trans hs.blocks_le

theorem axisMaxBS_eq : axisMaxBS a = exact a.maxBs := by
  have hglobal : a.globalBs.toNat < 2 ^ 32 := by
    have : a.maxBs * a.rankSize.toNat ≤ 2 ^ 19 * 128 := Nat.mul_le_mul (maxBs_le hs) hs.ranks_le
    rw [hs.globalBs_eq]
    omega
  rw [axisMaxBS, epWorldSize_eq hs.toSmall, arg32, u32_exact hglobal, exact_div]
  rfl

theorem expertPerSizeOnWin_eq : expertPerSizeOnWin a = exact a.blockBytes := by
  have hle := blockBytes_le hs
  unfold LayoutArgs.blockBytes at *
  rw [expertPerSizeOnWin, axisMaxBS_eq hs, hCommuSize_eq hs.toSmall, exact_mul (by omega), u32_exact (by omega)]

theorem routesPerToken_eq : routesPerToken a = exact a.slots := by
  have hle := slots_le hs
  unfold LayoutArgs.slots at *
  rw [routesPerToken, axisK_eq hs.axes, arg32, u32_exact (by omega), exact_add (by omega),
    u32_exact (by omega)]

theorem workspaceBytes_eq : workspaceBytes a = exact a.workspace := by
  have hrecords : a.rankSize.toNat * a.shape.moeExpertNumPerRank ≤ 128 * 2 ^ 13 :=
    Nat.mul_le_mul hs.ranks_le hs.perRank_le
  have hcounts : a.blockDim.toNat * (a.rankSize.toNat * a.shape.moeExpertNumPerRank) ≤ 200 * (128 * 2 ^ 13) :=
    Nat.mul_le_mul hs.cores_le hrecords
  rw [workspaceBytes, aivNum_eq hs.axes, epWorldSize_eq hs.toSmall, moeExpertNumPerRank_eq hs.toSmall,
    exact_mul (by omega), exact_mul (by omega), exact_mul (by omega), exact_alignUp (by omega) (by omega),
    LayoutArgs.workspace, LayoutArgs.moeStatusNum, hs.perRank_eq]

theorem totalWinSize_eq : totalWinSize a = exact a.dataBytes := by
  have hlt := hs.workspace_lt
  rw [totalWinSize, workspaceBytes_eq hs, exact_sub (by omega) (by omega), exact_sub (by omega) (by omega)]
  rfl

theorem recvCntWorkspace_eq : recvCntWorkspace a = exact (512 * 2 ^ 20 - a.workspace) := by
  have hlt := hs.workspace_lt
  rw [recvCntWorkspace, workspaceBytes_eq hs, exact_sub (by omega) (by omega)]

theorem reserveBytes_eq : reserveBytes a = exact a.reserve := by
  have hle := hs.reserve_le
  have hroutes := hs.routes_le
  have hh := hs.h_le
  unfold LayoutArgs.reserve at *
  rw [reserveBytes, axisMaxBS_eq hs, routesPerToken_eq hs, axisH_eq hs.axes, exact_mul (by omega),
    u32_exact (by omega), exact_mul (by omega), u32_exact (by omega), exact_ceilDiv (by omega),
    exact_mul (by omega), show a.h.toNat * 2 + 480 - 1 = a.h.toNat * 2 + 479 by omega, exact_mul (by omega)]

theorem windAddr_eq (hhalf : half < 2) : windAddr a half = exact (2 ^ 20 + half * (a.dataBytes / 2) + a.reserve) := by
  have hle := hs.reserve_le
  have hmul := halfOffset_le a hhalf
  rw [windAddr, winDataSizeOffset, totalWinSize_eq hs, reserveBytes_eq hs, exact_div, exact_mul (by omega),
    exact_add (by omega), exact_add (by omega), add_assoc]

end DispatchKernel

namespace CombineKernel
variable {a : LayoutArgs}

theorem combineWindowBase_eq (hs : DispatchKernel.SmallWindow a) {mode : ℤ} (hhalf : half < 2) :
    combineWindowBase (a.withMode mode) half = exact (2 ^ 20 + half * (a.dataBytes / 2)) := by
  have hsame : halfWinSize (a.withMode mode) = DispatchKernel.totalWinSize a / exact 2 := rfl
  have hmul := halfOffset_le a hhalf
  rw [combineWindowBase, hsame, DispatchKernel.totalWinSize_eq hs, exact_div, exact_mul (by omega),
    exact_add (by omega)]

theorem slotAddr_eq (hs : DispatchKernel.SmallWindow a) {mode : ℤ} (hc : Small (a.withMode mode))
    (hhalf : half < 2) {token index : ℕ} (htoken : token < a.maxBs) (hindex : index < a.slots) :
    slotAddr (a.withMode mode) half token index = exact (2 ^ 20 + half * (a.dataBytes / 2) +
      (token * a.slots + index) * ((a.withMode mode).slotBlocks * 512)) := by
  have hmul := halfOffset_le a hhalf
  have hblocks : (a.withMode mode).slotBlocks * 512 ≤ 70 * 512 := Nat.mul_le_mul_right _ (combineBlocks_le hc)
  have hrow := row_le a.slots htoken
  have hroutes := hs.routes_le
  have hrows : (token * a.slots + index) * ((a.withMode mode).slotBlocks * 512) ≤ 2 ^ 19 * (70 * 512) :=
    Nat.mul_le_mul (by omega) hblocks
  have hslots : slotCount (a.withMode mode) = exact a.slots := slotCount_eq hc
  have hpacked : packedRowBytes (a.withMode mode) = exact ((a.withMode mode).slotBlocks * 512) :=
    packedRowBytes_eq hc
  rw [slotAddr, combineWindowBase_eq hs hhalf, hslots, hpacked, exact_mul (by omega), exact_add (by omega),
    exact_mul (by omega), exact_add (by omega)]

end CombineKernel

/-! ## Where the accesses are -/

/-- An access lies in a region, and neither its address nor its length has wrapped around. -/
def Region.Holds (r : Region) (address bytes : Word) : Prop :=
  ∃ n m, address = exact n ∧ bytes = exact m ∧ r.offset ≤ n ∧ n + m ≤ r.offset + r.bytes

theorem WindowPart.status_holds {d : DispatchReferenceConfig} {c : CombineReferenceConfig} {address : Word}
    (haddr : address = exact n) (hn : n + 32 ≤ 2 ^ 20) :
    Region.Holds (WindowPart.status.reserved d c) address (exact 32) :=
  ⟨n, 32, haddr, rfl, Nat.zero_le _, hn.trans (Nat.le_add_left _ _)⟩

section Rows
variable {a : LayoutArgs} (hs : DispatchKernel.SmallWindow a)
include hs

theorem row_holds {token : ℕ} (hhalf : half < 2) (hn : n * a.blockBytes ≤ 2 ^ 28) (htoken : token < a.maxBs)
    {block : Word} (hblock : ∃ b < n, block = exact b) :
    Region.Holds ⟨2 ^ 20 + half * (a.dataBytes / 2) + a.reserve, n * a.blockBytes⟩
      (DispatchKernel.windAddr a half + DispatchKernel.expertPerSizeOnWin a * block +
        u32 (exact token * DispatchKernel.hCommuSize a)) (DispatchKernel.hCommuSize a) := by
  obtain ⟨b, hb, rfl⟩ := hblock
  have hblocks := row_le a.blockBytes hb
  have hrows : token * (a.rowBlocks * 512) + a.rowBlocks * 512 ≤ a.blockBytes := row_le _ htoken
  have hreserve := hs.reserve_le
  have hmul := halfOffset_le a hhalf
  have hstart : exact a.blockBytes * exact b = exact (b * a.blockBytes) := by
    rw [exact_mul (by rw [Nat.mul_comm]; omega), Nat.mul_comm]
  rw [DispatchKernel.windAddr_eq hs hhalf, DispatchKernel.expertPerSizeOnWin_eq hs,
    DispatchKernel.hCommuSize_eq hs.toSmall, hstart, exact_mul (by omega), u32_exact (by omega),
    exact_add (by omega), exact_add (by omega)]
  exact ⟨_, _, rfl, rfl, by dsimp only; omega, by dsimp only; omega⟩

theorem moeBlock_eq (hper : 0 < a.shape.moeExpertNumPerRank) (expert : ℕ) :
    ∃ block < a.shape.epWorldSize * a.shape.moeExpertNumPerRank, Access.moeBlock a expert = exact block := by
  have hranks : a.shape.epWorldSize ≤ 128 := hs.ranks_le
  have hrecords : a.shape.epWorldSize * a.shape.moeExpertNumPerRank ≤ 128 * 2 ^ 13 :=
    Nat.mul_le_mul hranks hs.perRank_le
  obtain ⟨source, hsource, hlt⟩ : ∃ source, (a.shape.epRankId +
      (expert / a.shape.moeExpertNumPerRank + a.shape.sharedExpertRankNum)) % a.shape.epWorldSize = source ∧
      source < a.shape.epWorldSize := ⟨_, rfl, mod_lt _ hs.rankSize_pos⟩
  have hrow := row_le a.shape.moeExpertNumPerRank hlt
  have hmod := mod_lt expert hper
  refine ⟨source * a.shape.moeExpertNumPerRank + expert % a.shape.moeExpertNumPerRank, by omega, ?_⟩
  rw [Access.moeBlock, hsource, DispatchKernel.moeExpertNumPerRank_eq hs.toSmall, exact_mul (by omega),
    u32_exact (by omega), exact_add (by omega), u32_exact (by omega)]

theorem srcDataBlockIdx_eq {record : ℕ} (hrecord : record < a.shape.rscvStatusNum) :
    ∃ block < a.shape.rscvStatusNum, Access.srcDataBlockIdx a record = exact block := by
  have hranks : a.shape.epWorldSize ≤ 128 := hs.ranks_le
  have hpos : 0 < a.shape.epWorldSize := hs.rankSize_pos
  unfold Access.srcDataBlockIdx
  unfold Shape.rscvStatusNum at *
  by_cases hshared : a.shape.isShareExpertRank
  · simp only [if_pos hshared] at hrecord ⊢
    have hdiv : record / a.shape.epWorldSize = 0 := div_eq_of_lt hrecord
    refine ⟨record, hrecord, ?_⟩
    rw [mod_eq_of_lt hrecord, hdiv, exact_mul (by omega), u32_exact (by omega), exact_add (by omega),
      u32_exact (by omega), mul_one, add_zero]
  · simp only [if_neg hshared] at hrecord ⊢
    have hrecords : a.shape.epWorldSize * a.shape.moeExpertNumPerRank ≤ 128 * 2 ^ 13 :=
      Nat.mul_le_mul hranks hs.perRank_le
    have hrow := row_le a.shape.moeExpertNumPerRank (mod_lt (record + a.shape.epRankId) hpos)
    have hdiv : record / a.shape.epWorldSize < a.shape.moeExpertNumPerRank :=
      Nat.div_lt_of_lt_mul hrecord
    refine ⟨(record + a.shape.epRankId) % a.shape.epWorldSize * a.shape.moeExpertNumPerRank +
      record / a.shape.epWorldSize, by omega, ?_⟩
    rw [DispatchKernel.moeExpertNumPerRank_eq hs.toSmall, exact_mul (by omega), u32_exact (by omega),
      exact_add (by omega), u32_exact (by omega)]

end Rows

/-- A packed row of combine is never longer than what dispatch leaves for it, in any mode. -/
theorem combineBlocks_le_reserved (mx : Prop) [Decidable mx] {h : ℕ} (hpos : 0 < h) :
    combineBlocks mx h ≤ (h * 2 + 479) / 480 := by
  unfold combineBlocks combineComm
  split_ifs
  · rcases Nat.lt_or_ge h 512 with hlt | hge
    · unfold scaleCount roundUp
      omega
    · have hle : roundUp 256 h + scaleCount h ≤ h * 2 := by
        unfold scaleCount roundUp
        omega
      omega
  · exact le_rfl

/-- The call is accepted by both builders on every rank of the world, by that of combine in a mode of its
own. -/
structure WorldAccepts (a : LayoutArgs) (dtype : DataType) (combineMode : ℤ) (d : ℕ → DispatchReferenceConfig)
    (c : ℕ → CombineReferenceConfig) : Prop where
  dispatch : ∀ rank < a.rankSize.toNat, buildMemoryDispatchReferenceConfig (a.onRank rank) dtype = some (d rank)
  combine : ∀ rank < a.rankSize.toNat,
    buildMemoryCombineReferenceConfig ((a.onRank rank).withMode combineMode) = some (c rank)

section Parts
variable {a : LayoutArgs} {mode : ℤ} {d : DispatchReferenceConfig} {c : CombineReferenceConfig}
  (hd : DispatchSizes a d) (hc : CombineSizes (a.withMode mode) c)

include hc in
theorem reserved_combine (half : ℕ) : (WindowPart.combine half).reserved d c =
    ⟨2 ^ 20 + half * (a.dataBytes / 2), a.maxBs * a.slots * ((a.withMode mode).slotBlocks * 512)⟩ := by
  simp only [WindowPart.reserved, hc.half_eq, hc.reserve_eq, Int.toNat_natCast]
  rfl

include hd

theorem reserved_dispatch (half : ℕ) : (WindowPart.dispatch half).reserved d c =
    ⟨2 ^ 20 + half * (a.dataBytes / 2) + a.reserve, a.shape.rscvStatusNum * a.blockBytes⟩ := by
  simp only [WindowPart.reserved, hd.half_eq, hd.reserve_eq, hd.rscv_eq, hd.expertPerSize_eq, ← cast_mul,
    Int.toNat_natCast]
  rfl

theorem reserved_recvCount : WindowPart.recvCount.reserved d c = ⟨512 * 2 ^ 20 - a.workspace, a.workspace⟩ := by
  simp only [WindowPart.reserved, hd.workspace_eq, Int.toNat_natCast]
  rfl

include hc

theorem reserved_regionsOk : RegionsOk 16 (windowParts.map (·.reserved d c)) (512 * 2 ^ 20) := by
  obtain ⟨q, hq⟩ : 32 ∣ a.workspace := dvd_roundUp _ _
  have hlt := hd.workspace_lt
  have hdata : a.dataBytes = 511 * 2 ^ 20 - a.workspace := rfl
  have hhalf := hd.half_le
  have hcombine : a.maxBs * a.slots * ((a.withMode mode).slotBlocks * 512) ≤ a.reserve :=
    Nat.mul_le_mul_left _ (Nat.mul_le_mul_right _ (combineBlocks_le_reserved _ (by
      have := hd.shapeOk.2.2.2.2.2.1
      show 0 < a.h.toNat
      omega)))
  obtain ⟨rows, hrows⟩ : 16 ∣ a.reserve :=
    Dvd.dvd.mul_left (Dvd.dvd.mul_left (by decide) _) _
  have hstatus : WindowPart.status.reserved d c = ⟨0, 2 ^ 20⟩ := rfl
  simp only [windowParts, map_cons, map_nil, hstatus, reserved_combine hc, reserved_dispatch hd,
    reserved_recvCount hd]
  refine regionsOk_of_chain ?_ ?_ ?_ (by decide)
  · simp only [forall_mem_cons]
    refine ⟨by omega, by omega, by omega, by omega, by omega, by omega, fun _ h => absurd h not_mem_nil⟩
  · simp only [forall_mem_cons]
    refine ⟨by omega, by omega, by omega, by omega, by omega, by omega, fun _ h => absurd h not_mem_nil⟩
  · simp only [isChain_cons_cons, isChain_singleton, Region.Before, and_true]
    omega

end Parts

/-! ## The target ranks -/

namespace Shape
variable {s : Shape} (h : s.Accepted)
include h

theorem Accepted.sharedRank_lt_of_expert {expert : ℕ} (hexpert : expert < s.sharedExpertNum) :
    s.epRankId % s.rankNumPerSharedExpert + expert * s.rankNumPerSharedExpert < s.sharedExpertRankNum := by
  have hpos : 0 < s.sharedExpertNum := by omega
  have hranks : 0 < s.sharedExpertRankNum := Nat.pos_of_ne_zero (mt h.shared_iff.2 (by omega))
  rw [rankNumPerSharedExpert, if_pos hpos]
  have hmul := Nat.mul_div_cancel' h.shared_dvd
  have hper : 0 < s.sharedExpertRankNum / s.sharedExpertNum :=
    Nat.div_pos (le_of_dvd hranks h.shared_dvd) hpos
  have hmod := mod_lt s.epRankId hper
  have hrow := row_le (s.sharedExpertRankNum / s.sharedExpertNum) hexpert
  omega

theorem Accepted.moeRank_lt_of_expert {expert : ℕ} (hexpert : expert < s.moeExpertNum) :
    expert / s.moeExpertNumPerRank + s.sharedExpertRankNum < s.epWorldSize := by
  have hlt := h.sharedRank_lt
  have hmul : s.moeExpertNumPerRank * s.moeExpertRankNum = s.moeExpertNum := Nat.div_mul_cancel h.experts_dvd
  have hdiv : expert / s.moeExpertNumPerRank < s.moeExpertRankNum :=
    Nat.div_lt_of_lt_mul (by rw [hmul]; exact hexpert)
  unfold moeExpertRankNum at hdiv
  omega

theorem Accepted.le_rscvStatusNum : s.epWorldSize ≤ s.rscvStatusNum := by
  unfold rscvStatusNum
  split_ifs
  · exact le_rfl
  · exact Nat.le_mul_of_pos_right _ h.perRank_pos

theorem Accepted.rscvStatusNum_le : s.rscvStatusNum ≤ s.epWorldSize * s.moeExpertNumPerRank := by
  unfold rscvStatusNum
  split_ifs
  · exact Nat.le_mul_of_pos_right _ h.perRank_pos
  · exact le_rfl

end Shape

theorem Access.rank_lt {a : LayoutArgs} (h : a.shape.Accepted) (hx : x.Valid a) : x.rank a < a.shape.epWorldSize := by
  cases x with
  | sendShared expert token => exact (h.sharedRank_lt_of_expert hx.1).trans h.sharedRank_lt
  | sendMoe expert token => exact h.moeRank_lt_of_expert hx.1
  | sendStatus rank expert => exact hx.1
  | slot rank token index => exact hx.1
  | _ => exact h.rank_lt

/-- An access of a rank to a window lies in the part of the window that is reserved for it, when the two
builders accept the call on both ranks. -/
theorem Access.held {a : LayoutArgs} {mode : ℤ} {d : DispatchReferenceConfig} {c : CombineReferenceConfig}
    (hhalf : half < 2) (hs : DispatchKernel.SmallWindow a)
    (hcs : CombineKernel.Small (a.withMode mode)) (ha : a.shape.Accepted) (hx : x.Valid a)
    (htarget : DispatchKernel.SmallWindow (a.onRank (x.rank a))) (htargetOk : (a.onRank (x.rank a)).shape.Accepted)
    (hd : DispatchSizes (a.onRank (x.rank a)) d) (hc : CombineSizes ((a.onRank (x.rank a)).withMode mode) c) :
    Region.Holds ((x.part half).reserved d c) (x.address a mode half) (x.bytes a mode) := by
  have hranks : a.shape.epWorldSize ≤ 128 := hs.ranks_le
  have hrank := ha.rank_lt
  have hcores : a.shape.aivNum ≤ 200 := hs.cores_le
  have hcounting := hs.counting_le
  have hrscv := hs.rscv_le
  have hstate : DispatchKernel.windStateAddr half = exact (half * (384 * 1024)) := exact_mul (by omega)
  have hworld : DispatchKernel.epWorldSize a = exact a.shape.epWorldSize := DispatchKernel.epWorldSize_eq hs.toSmall
  cases x with
  | sendShared expert token =>
    rw [Access.part, reserved_dispatch hd]
    exact row_holds hs hhalf htarget.blocks_le hx.2 ⟨_, hrank.trans_le htargetOk.le_rscvStatusNum, rfl⟩
  | sendMoe expert token =>
    have hmoe : ¬ (a.onRank ((Access.sendMoe expert token).rank a)).shape.isShareExpertRank :=
      not_lt.2 (Nat.le_add_left _ _)
    have hcount : (a.onRank ((Access.sendMoe expert token).rank a)).shape.rscvStatusNum =
        a.shape.epWorldSize * a.shape.moeExpertNumPerRank := if_neg hmoe
    rw [Access.part, reserved_dispatch hd]
    exact row_holds hs hhalf htarget.blocks_le hx.2 (hcount ▸ moeBlock_eq hs ha.perRank_pos expert)
  | arrived record token =>
    rw [Access.part, reserved_dispatch hd, Access.address, Word.mul_comm (srcDataBlockIdx a record)]
    exact row_holds hs hhalf hs.blocks_le hx.2 (srcDataBlockIdx_eq hs hx.1)
  | sendStatus rank expert =>
    have hrecords : (expert * a.shape.epWorldSize + a.shape.epRankId) < 2 ^ 13 := by
      refine lt_of_lt_of_le ?_ htarget.rscv_le
      have hexpert := hx.2
      show _ < if rank < a.shape.sharedExpertRankNum then a.shape.epWorldSize
        else a.shape.epWorldSize * a.shape.moeExpertNumPerRank
      split_ifs at hexpert ⊢
      · rw [lt_one_iff.1 hexpert]
        omega
      · have := row_le a.shape.epWorldSize hexpert
        rw [Nat.mul_comm a.shape.epWorldSize]
        omega
    have hstride : expert * (a.shape.epWorldSize * 32) = expert * a.shape.epWorldSize * 32 := by ring
    refine WindowPart.status_holds (n := half * (384 * 1024) + 32 * a.shape.epRankId +
      expert * (a.shape.epWorldSize * 32)) ?_ (by omega)
    rw [Access.address, hstate, hworld]
    simp (disch := omega) only [exact_mul, exact_add, u32_exact]
  | waitStatus record =>
    have hrecord : record < a.shape.rscvStatusNum := hx
    refine WindowPart.status_holds (n := half * (384 * 1024) + record * 32) ?_ (by omega)
    rw [Access.address, hstate]
    simp (disch := omega) only [exact_mul, exact_add, u32_exact]
  | dataState core =>
    have hcore : core < a.shape.aivNum := hx
    refine WindowPart.status_holds (n := 768 * 1024 + core * 512) ?_ (by omega)
    rw [Access.address, exact_mul (by omega), exact_add (by omega)]
  | cumSum core other =>
    obtain ⟨hcore, hother⟩ := hx
    have hsums : core * a.shape.aivUsedCumSum ≤ 8 * 8 := Nat.mul_le_mul (by omega) hcounting
    refine WindowPart.status_holds (n := 868 * 1024 + core * a.shape.aivUsedCumSum * 32 + other * 32) ?_ (by omega)
    rw [Access.address, DispatchKernel.aivUsedCumSum_eq hs.toSmall]
    simp (disch := omega) only [exact_mul, exact_add, u32_exact]
  | cumSumFlag core counter =>
    obtain ⟨hcore, hcounter⟩ := hx
    have hflags : core * a.shape.aivUsedCumSum ≤ 200 * 8 := Nat.mul_le_mul (by omega) hcounting
    refine WindowPart.status_holds (n := 876 * 1024 + core * a.shape.aivUsedCumSum * 32 + counter * 32) ?_ (by omega)
    rw [Access.address, DispatchKernel.aivUsedCumSum_eq hs.toSmall]
    simp (disch := omega) only [exact_mul, exact_add, u32_exact]
  | recvCount core record =>
    obtain ⟨hcore, hrecord⟩ := hx
    rw [Access.part, reserved_recvCount hd]
    have hlt := hs.workspace_lt
    have hrows : core * a.shape.rscvStatusNum + a.shape.rscvStatusNum ≤ a.shape.aivNum * a.shape.rscvStatusNum :=
      row_le _ hcore
    have hcounts : a.shape.aivNum * a.shape.rscvStatusNum ≤ 200 * 2 ^ 13 := Nat.mul_le_mul hcores hrscv
    have hspace : a.shape.aivNum * a.shape.rscvStatusNum * 4 ≤ a.workspace := by
      have hround := @le_roundUp 32 (by decide) (a.blockDim.toNat * a.moeStatusNum * 4)
      have hle : a.shape.aivNum * a.shape.rscvStatusNum ≤ a.blockDim.toNat * a.moeStatusNum := by
        refine Nat.mul_le_mul_left _ (ha.rscvStatusNum_le.trans_eq ?_)
        rw [LayoutArgs.moeStatusNum, hs.perRank_eq]
        rfl
      unfold LayoutArgs.workspace
      omega
    refine ⟨512 * 2 ^ 20 - a.workspace + (core * a.shape.rscvStatusNum + record) * 4, 4, ?_, rfl,
      Nat.le_add_right _ _, ?_⟩
    · rw [Access.address, DispatchKernel.recvCntWorkspace_eq hs, DispatchKernel.rscvStatusNum_eq hs.toSmall]
      simp (disch := omega) only [exact_mul, exact_add, u32_exact]
    · show _ ≤ 512 * 2 ^ 20 - a.workspace + a.workspace
      omega
  | slot rank token index =>
    obtain ⟨-, htoken, hindex⟩ := hx
    rw [Access.part, reserved_combine hc]
    have hrows := row_le a.slots htoken
    have hfit := row_le ((a.withMode mode).slotBlocks * 512)
      (show token * a.slots + index < a.maxBs * a.slots by omega)
    refine ⟨_, _, CombineKernel.slotAddr_eq hs hcs hhalf htoken hindex, CombineKernel.packedRowBytes_eq hcs,
      Nat.le_add_right _ _, ?_⟩
    show _ ≤ 2 ^ 20 + half * (a.dataBytes / 2) + a.maxBs * a.slots * ((a.withMode mode).slotBlocks * 512)
    show _ + (a.withMode mode).slotBlocks * 512 ≤ _
    omega

/-! ## Host and kernels -/

/-- A kernel computes a size of the host without wrapping around. -/
def Computes (w : Word) (size : ℤ) : Prop := ∃ n : ℕ, w = exact n ∧ size = n

/-- The sizes of the window that host and kernels compute each for themselves. -/
structure KernelsAgree (a : LayoutArgs) (combineMode : ℤ) (d : DispatchReferenceConfig)
    (c : CombineReferenceConfig) : Prop where
  hOutSize : Computes (DispatchKernel.hOutSize a) d.hOutSize
  scaleOutBytes : Computes (DispatchKernel.scaleOut a) d.scaleOutBytes
  tokenQuantAlign : Computes (DispatchKernel.tokenQuantAlign a * exact 4) d.tokenQuantAlignBytes
  hCommuSize : Computes (DispatchKernel.hCommuSize a) d.hCommuSize
  expertPerSizeOnWin : Computes (DispatchKernel.expertPerSizeOnWin a) d.expertPerSizeOnWin
  combineReserve : Computes (DispatchKernel.reserveBytes a) d.combineReserveBytes
  workspace : Computes (DispatchKernel.workspaceBytes a) d.workspaceBytes
  totalWinSize : Computes (DispatchKernel.totalWinSize a) d.totalWinSize
  half : Computes (DispatchKernel.totalWinSize a / exact 2) d.dispatchHalfBytes
  maxSize : Computes (DispatchKernel.maxSize a) d.maxSizeForUbBuffer
  combineBlockCnt : Computes (CombineKernel.blockCntPerToken (a.withMode combineMode)) c.blockCntPerToken
  combinePackedRow : Computes (CombineKernel.packedRowBytes (a.withMode combineMode)) c.packedRowBytes
  combineWorkspace : Computes (CombineKernel.workspaceBytes (a.withMode combineMode)) c.workspaceBytes
  combineTotalWinSize : Computes (CombineKernel.totalWinSize (a.withMode combineMode)) c.totalWinSize
  combineHalf : Computes (CombineKernel.halfWinSize (a.withMode combineMode)) c.combineHalfBytes

namespace DispatchKernel
variable {a : LayoutArgs} (hs : Small a)
include hs

theorem hOutSize_eq : hOutSize a = exact (if a.quantMode = 4 then a.h.toNat else a.h.toNat * 2) := by
  have hle := hs.h_le
  rw [hOutSize, axisH_eq hs.axes]
  split_ifs
  · rw [exact_mul (by omega), mul_one, u32_exact (by omega)]
  · rw [exact_mul (by omega), u32_exact (by omega)]

theorem scaleOut_eq : scaleOut a = exact (if a.quantMode = 4 then scaleCount a.h.toNat else 0) := by
  rw [scaleOut, scaleOutBytes_eq hs]
  split_ifs <;> rfl

theorem tokenQuantAlign_mul :
    tokenQuantAlign a * exact 4 = exact (roundUp 32 (dispatchPayload (a.quantMode = 4) a.h.toNat)) := by
  have hle := hs.h_le
  have hround : roundUp 32 (dispatchPayload (a.quantMode = 4) a.h.toNat) ≤ 2 ^ 19 := by
    unfold dispatchPayload scaleCount roundUp
    split_ifs <;> omega
  obtain ⟨q, hq⟩ := dvd_roundUp 32 (dispatchPayload (a.quantMode = 4) a.h.toNat)
  rw [tokenQuantAlign_eq hs, hq, exact_mul (by omega)]
  exact congrArg Word.exact (by omega)

end DispatchKernel

theorem kernelsAgree {a : LayoutArgs} {mode : ℤ} {d : DispatchReferenceConfig} {c : CombineReferenceConfig}
    (hd : DispatchSizes a d) (hc : CombineSizes (a.withMode mode) c) (hs : DispatchKernel.SmallWindow a)
    (hcs : CombineKernel.Small (a.withMode mode)) : KernelsAgree a mode d c where
  hOutSize := ⟨_, DispatchKernel.hOutSize_eq hs.toSmall, hd.hOut_eq⟩
  scaleOutBytes := ⟨_, DispatchKernel.scaleOut_eq hs.toSmall, hd.scaleOut_eq⟩
  tokenQuantAlign := ⟨_, DispatchKernel.tokenQuantAlign_mul hs.toSmall, hd.tokenQuant_eq⟩
  hCommuSize := ⟨_, DispatchKernel.hCommuSize_eq hs.toSmall, hd.hCommu_eq⟩
  expertPerSizeOnWin := ⟨_, DispatchKernel.expertPerSizeOnWin_eq hs, hd.expertPerSize_eq⟩
  combineReserve := ⟨_, DispatchKernel.reserveBytes_eq hs, hd.reserve_eq⟩
  workspace := ⟨_, DispatchKernel.workspaceBytes_eq hs, hd.workspace_eq⟩
  totalWinSize := ⟨_, DispatchKernel.totalWinSize_eq hs, hd.totalWin_eq⟩
  half := ⟨_, by rw [DispatchKernel.totalWinSize_eq hs, exact_div], hd.half_eq⟩
  maxSize := ⟨_, DispatchKernel.maxSize_eq hs.toSmall, hd.maxSize_eq⟩
  combineBlockCnt := ⟨_, CombineKernel.blockCntPerToken_eq hcs, hc.blockCnt_eq⟩
  combinePackedRow := ⟨_, CombineKernel.packedRowBytes_eq hcs, hc.packedRow_eq⟩
  -- combine computes workspace and halves by the expressions of dispatch
  combineWorkspace := ⟨_, @DispatchKernel.workspaceBytes_eq a hs, hc.workspace_eq⟩
  combineTotalWinSize := ⟨_, @DispatchKernel.totalWinSize_eq a hs, hc.totalWin_eq⟩
  combineHalf := ⟨_, congrArg (· / exact 2) (DispatchKernel.totalWinSize_eq hs), hc.half_eq⟩

/-- When the builders accept a call on every rank, the parts of a window are apart, what a rank reads and
writes in its own window or in that of another rank lies in the part for it, and the kernels compute the
sizes of the host. -/
theorem window_layout {a : LayoutArgs} {dtype : DataType} {combineMode : ℤ} {d : ℕ → DispatchReferenceConfig}
    {c : ℕ → CombineReferenceConfig} (h : WorldAccepts a dtype combineMode d c) {rank : ℕ}
    (hrank : rank < a.rankSize.toNat) :
    RegionsOk 16 (windowParts.map (·.reserved (d rank) (c rank))) (512 * 2 ^ 20) ∧
    (∀ half < 2, ∀ x : Access, x.Valid (a.onRank rank) →
      x.rank (a.onRank rank) < a.rankSize.toNat ∧
      Region.Holds ((x.part half).reserved (d (x.rank (a.onRank rank))) (c (x.rank (a.onRank rank))))
        (x.address (a.onRank rank) combineMode half) (x.bytes (a.onRank rank) combineMode)) ∧
    KernelsAgree (a.onRank rank) combineMode (d rank) (c rank) := by
  have hd {t : ℕ} (ht : t < a.rankSize.toNat) := dispatchBuild_spec (h.dispatch t ht)
  have hc {t : ℕ} (ht : t < a.rankSize.toNat) := combineBuild_spec (h.combine t ht)
  have haccepted {t : ℕ} (ht : t < a.rankSize.toNat) := (hd ht).accepted
  have hs {t : ℕ} (ht : t < a.rankSize.toNat) := (hd ht).smallWindow (haccepted ht)
  have hcs := small_of_build (h.combine rank hrank)
  refine ⟨reserved_regionsOk (hd hrank) (hc hrank), fun half hhalf x hx => ?_,
    kernelsAgree (hd hrank) (hc hrank) (hs hrank) hcs⟩
  have htarget : x.rank (a.onRank rank) < a.rankSize.toNat := Access.rank_lt (haccepted hrank) hx
  exact ⟨htarget, Access.held hhalf (hs hrank) hcs (haccepted hrank) hx (hs htarget) (haccepted htarget)
    (hd htarget) (hc htarget)⟩

/-- Two ranks, the first with a shared expert. -/
def twoRanks (bs moeExpertNum globalBs : ℤ) : LayoutArgs where
  rankSize := 2
  rank := 0
  bs := bs
  h := 7168
  topK := 8
  moeExpertNum := moeExpertNum
  sharedExpertNum := 1
  sharedExpertRankNum := 1
  globalBs := globalBs
  dtype := .fp16
  quantMode := 0
  blockDim := 48

theorem window_layout_twoRanks : ∃ d c, WorldAccepts (twoRanks 16 8 32) .fp16 0 d c ∧
    RegionsOk 16 (windowParts.map (·.reserved (d 1) (c 1))) (512 * 2 ^ 20) := by
  obtain ⟨d₀, hd₀⟩ : ∃ d, buildMemoryDispatchReferenceConfig ((twoRanks 16 8 32).onRank 0) .fp16 = some d := ⟨_, rfl⟩
  obtain ⟨d₁, hd₁⟩ : ∃ d, buildMemoryDispatchReferenceConfig ((twoRanks 16 8 32).onRank 1) .fp16 = some d := ⟨_, rfl⟩
  obtain ⟨c₀, hc₀⟩ : ∃ c, buildMemoryCombineReferenceConfig (((twoRanks 16 8 32).onRank 0).withMode 0) = some c :=
    ⟨_, rfl⟩
  obtain ⟨c₁, hc₁⟩ : ∃ c, buildMemoryCombineReferenceConfig (((twoRanks 16 8 32).onRank 1).withMode 0) = some c :=
    ⟨_, rfl⟩
  have h : WorldAccepts (twoRanks 16 8 32) .fp16 0 (fun rank => if rank = 0 then d₀ else d₁)
      (fun rank => if rank = 0 then c₀ else c₁) :=
    ⟨fun | 0, _ => hd₀ | 1, _ => hd₁, fun | 0, _ => hc₀ | 1, _ => hc₁⟩
  exact ⟨_, _, h, (window_layout h (by decide : 1 < 2)).1⟩

/-- With a hundred experts the rank of the shared expert accepts and sends rows for the last of them behind
the end of the window; the rank of these experts rejects the call. A batch of two is accepted where each rank
may have one token, and the slots of the second token are behind those that are reserved. -/
theorem window_layout_exceeded :
    (∃ d c, buildMemoryDispatchReferenceConfig (twoRanks 256 100 512) .fp16 = some d ∧
      buildMemoryCombineReferenceConfig (twoRanks 256 100 512) = some c ∧
      buildMemoryDispatchReferenceConfig ((twoRanks 256 100 512).onRank 1) .fp16 = none ∧
      512 * 2 ^ 20 ≤ ((Access.sendMoe 99 255).address (twoRanks 256 100 512) 0 0).value) ∧
    ∃ d c, buildMemoryDispatchReferenceConfig (twoRanks 2 8 2) .fp16 = some d ∧
      buildMemoryCombineReferenceConfig (twoRanks 2 8 2) = some c ∧
      ((Access.slot 1 1 0).address (twoRanks 2 8 2) 0 0).value =
        ((WindowPart.combine 0).reserved d c).offset + ((WindowPart.combine 0).reserved d c).bytes :=
  ⟨⟨_, _, rfl, rfl, rfl, by decide⟩, ⟨_, _, rfl, rfl, by decide⟩⟩

end TileXR.EpMemory
