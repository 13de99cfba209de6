import Mathlib.Data.Nat.Cast.Order.Ring
import Mathlib.Tactic.Ring
import TileXR.EpMemory.Shape
import TileXR.Lib.Regions
import TileXR.Lib.Word

/-!
# Sizes of an accepted layout

What the checked sums of `ep_memory_layout.cpp` come to, as natural numbers: once a builder has accepted a
shape, every size is the plain formula in the shape. The kernels compute the same sizes in 32-bit words.
-/

namespace TileXR.EpMemory
open Int List
open Option (bind_eq_some_iff)
open Lib
variable {row : CombineRow} {cores n rscv scales used : ℕ}

/-! ## Words of the kernels -/

def u32 (w : Word) : Word := Word.narrow 32 w

/-- An `int64_t` argument that is not negative, as a `uint32_t`. -/
def arg32 (x : ℤ) : Word := u32 (.exact x.toNat)

theorem u32_exact (h : n < 2 ^ 32) : u32 (.exact n) = .exact n := Word.exact_narrow h

theorem u32_roundUp {m : ℕ} (h : n + m ≤ 2 ^ 32) : u32 (.exact (roundUp m n)) = .exact (roundUp m n) := by
  refine u32_exact ?_
  have := Nat.div_mul_le_self (n + m - 1) m
  unfold roundUp
  omega

section Axes
variable (a : LayoutArgs)

def axisBS : Word := arg32 a.bs
def axisH : Word := arg32 a.h
def axisK : Word := arg32 a.topK
def aivNum : Word := arg32 a.blockDim

/-- What both kernels are launched with fits into their words. -/
structure SmallAxes : Prop where
  bs_lt : a.bs.toNat < 2 ^ 32
  h_lt : a.h.toNat < 2 ^ 32
  topK_lt : a.topK.toNat < 2 ^ 32
  blockDim_lt : a.blockDim.toNat < 2 ^ 32

variable {a} (ha : SmallAxes a)
include ha

theorem axisBS_eq : axisBS a = .exact a.bs.toNat := u32_exact ha.bs_lt

theorem axisH_eq : axisH a = .exact a.h.toNat := u32_exact ha.h_lt

theorem axisK_eq : axisK a = .exact a.topK.toNat := u32_exact ha.topK_lt

theorem aivNum_eq : aivNum a = .exact a.blockDim.toNat := u32_exact ha.blockDim_lt

end Axes

/-- Buffers that fit into the part of the chip the host checks against. -/
def Fits (buffers : List Word) : Prop := (buffers.map Word.value).sum ≤ 190 * 1024

instance (buffers : List Word) : Decidable (Fits buffers) := inferInstanceAs (Decidable (_ ≤ _))

def CommonParams.layout (params : CommonParams) (commArgs : CommArgs) (blockDim : ℤ) : LayoutArgs :=
  LayoutArgs.of params commArgs (params.bs * commArgs.rankSize) blockDim

/-! ## Checked arithmetic on natural numbers -/

section Checked
variable {x y : ℕ} {out : ℤ}

theorem mulInt64_nat (h : mulInt64 x y = some out) : out = (x * y : ℕ) := by
  rw [(mulInt64_eq h).2.2, Nat.cast_mul]

theorem addInt64_nat (h : addInt64 x y = some out) : out = (x + y : ℕ) := by
  rw [(addInt64_eq h).2.2, Nat.cast_add]

theorem alignUpInt64_nat (h : alignUpInt64 x y = some out) : out = (roundUp y x : ℕ) := by
  obtain ⟨-, hpos, -⟩ := alignUpInt64_spec h
  have hy : 0 < y := by omega
  unfold alignUpInt64 at h
  rw [if_neg (by omega)] at h
  have hmod : (x : ℤ) % y = (x % y : ℕ) := (natCast_mod x y).symm
  rw [hmod] at h
  split_ifs at h with hzero
  · rw [← Option.some.inj h, roundUp_of_dvd hy (Nat.dvd_of_mod_eq_zero (by omega))]
  · have hlt := Nat.mod_lt x hy
    rw [(addInt64_eq h).2.2, roundUp_eq_add hy (by omega)]
    omega

theorem div_add_ite_cast (x : ℕ) (hy : 0 < y) :
    ((x : ℤ) / y + if (x : ℤ) % y = 0 then 0 else 1) = ((x + y - 1) / y : ℕ) := by
  have hmod : (x : ℤ) % y = (x % y : ℕ) := (natCast_mod x y).symm
  rw [← div_add_ite x hy]
  simp only [hmod, ← natCast_div, Nat.cast_add, Nat.cast_eq_zero, Nat.cast_ite, Nat.cast_zero, Nat.cast_one]

theorem ceilDivInt64_nat (h : ceilDivInt64 x y = some out) : out = ((x + y - 1) / y : ℕ) := by
  unfold ceilDivInt64 at h
  split at h
  · cases h
  rw [← Option.some.inj h, div_add_ite_cast x (by omega)]

variable {α : Type} {f : ℤ → Option α} {b : α}

theorem mulInt64_bind (h : (mulInt64 x y >>= f) = some b) : f (x * y : ℕ) = some b := by
  obtain ⟨out, hout, h⟩ := bind_eq_some_iff.1 h
  rwa [mulInt64_nat hout] at h

theorem addInt64_bind (h : (addInt64 x y >>= f) = some b) : f (x + y : ℕ) = some b := by
  obtain ⟨out, hout, h⟩ := bind_eq_some_iff.1 h
  rwa [addInt64_nat hout] at h

theorem alignUpInt64_bind (h : (alignUpInt64 x y >>= f) = some b) : f (roundUp y x : ℕ) = some b := by
  obtain ⟨out, hout, h⟩ := bind_eq_some_iff.1 h
  rwa [alignUpInt64_nat hout] at h

theorem ceilDivInt64_bind (h : (ceilDivInt64 x y >>= f) = some b) : f ((x + y - 1) / y : ℕ) = some b := by
  obtain ⟨out, hout, h⟩ := bind_eq_some_iff.1 h
  rwa [ceilDivInt64_nat hout] at h

end Checked

/-! ## A row of combine -/

section Combine
variable (mx : Prop) [Decidable mx] (h : ℕ)

def scaleCount : ℕ := roundUp 2 ((h + 31) / 32)

def combineComm : ℕ := if mx then roundUp 256 h + scaleCount h else h * 2

/-- The blocks of 512 bytes, of which 480 are payload, that a row is packed into. -/
def combineBlocks : ℕ := (combineComm mx h + 479) / 480

variable {h} in
theorem combineBlocks_pos (hh : 0 < h) : 0 < combineBlocks mx h := by
  unfold combineBlocks combineComm roundUp
  split_ifs <;> omega

def floatRowBytes : ℕ := roundUp (if mx then 512 else 32) (h * 4)

def quantWork (scales : ℕ) : ℕ := roundUp 32 (roundUp 32 scales * 4 + scales * 2)

/-- The buffers that a core receives with, all but the status of its tokens. -/
def receiveBytes (slots k bs : ℕ) : ℕ :=
  roundUp 64 (slots * combineBlocks mx h * 8) * 4 + roundUp 256 (roundUp 64 (slots * combineBlocks mx h * 8)) +
    max (combineBlocks mx h * 480) (roundUp 32 (h * 2)) + 3 * floatRowBytes mx h + roundUp 32 (h * 2) +
    roundUp 32 (k * 4) + roundUp 32 bs + combineBlocks mx h * 32 +
    if mx then roundUp 128 (scaleCount h) * 8 else 0

def sendBytes : ℕ :=
  32 + (if mx then roundUp 128 h * 2 else max (roundUp 32 (h * 2)) (combineBlocks mx h * 480)) +
    combineBlocks mx h * 512 + if mx then combineBlocks mx h * 480 + quantWork (scaleCount h) else 0

end Combine

section CombineHost
variable {a : LayoutArgs} {h : ℕ} (ha : a.h = h)
include ha

theorem combineCommData_nat (hdtype : dataTypeSize a.dtype = 2) {comm input scales : ℤ}
    (hdata : combineCommData a ((h * 2 : ℕ) : ℤ) = some (comm, input, scales)) :
    comm = combineComm a.CommMxfp8 h ∧
      input = ((if a.CommMxfp8 then roundUp 128 h * 2 else roundUp 32 (h * 2) : ℕ) : ℤ) ∧
      scales = ((if a.CommMxfp8 then scaleCount h else 0 : ℕ) : ℤ) := by
  unfold combineCommData at hdata
  unfold combineComm
  by_cases hmx : a.CommMxfp8
  · rw [if_pos hmx] at hdata
    simp only [if_pos hmx]
    rw [ha, hdtype] at hdata
    replace hdata := alignUpInt64_bind (y := 256) hdata
    replace hdata := ceilDivInt64_bind (y := 32) hdata
    replace hdata := alignUpInt64_bind (y := 2) hdata
    replace hdata := addInt64_bind hdata
    replace hdata := alignUpInt64_bind (y := 128) hdata
    replace hdata := mulInt64_bind (y := 2) hdata
    cases hdata
    exact ⟨rfl, rfl, rfl⟩
  · rw [if_neg hmx] at hdata
    simp only [if_neg hmx]
    replace hdata := alignUpInt64_bind (y := 32) hdata
    cases hdata
    exact ⟨rfl, rfl, rfl⟩

theorem combineRow_nat (hdtype : dataTypeSize a.dtype = 2) (hrow : combineRow a = some row) :
    row.rowBytes = (h * 2 : ℕ) ∧
      row.inputAlignBytes = ((if a.CommMxfp8 then roundUp 128 h * 2 else roundUp 32 (h * 2) : ℕ) : ℤ) ∧
      row.scaleCount = ((if a.CommMxfp8 then scaleCount h else 0 : ℕ) : ℤ) ∧
      row.blockCntPerToken = combineBlocks a.CommMxfp8 h ∧
      row.packedRowBytes = (combineBlocks a.CommMxfp8 h * 512 : ℕ) := by
  unfold combineRow at hrow
  rw [ha, hdtype] at hrow
  replace hrow := mulInt64_bind (y := 2) hrow
  obtain ⟨⟨comm, input, scales⟩, hdata, hrow⟩ := bind_eq_some_iff.1 hrow
  obtain ⟨rfl, rfl, rfl⟩ := combineCommData_nat ha hdtype hdata
  replace hrow := ceilDivInt64_bind (y := 480) hrow
  replace hrow := mulInt64_bind (y := 512) hrow
  cases hrow
  exact ⟨rfl, rfl, rfl, rfl, rfl⟩

omit ha in
theorem dequantScaleBytes_nat {dequant : List ℤ} (hscales : dequantScaleBytes a scales = some dequant) :
    dequant = (if a.CommMxfp8 then [roundUp 128 scales * 8] else [] : List ℕ).map (↑) := by
  unfold dequantScaleBytes at hscales
  split_ifs at hscales ⊢
  · replace hscales := alignUpInt64_bind (y := 128) hscales
    replace hscales := mulInt64_bind (y := 8) hscales
    cases hscales
    rfl
  · cases hscales
    rfl

/-- The host counts 128 bytes on top of the buffers that grow with the row. -/
theorem receiveUb_nat (hdtype : dataTypeSize a.dtype = 2) (hrow : combineRow a = some row)
    {slots k bs : ℕ} (hk : a.topK = k) (hbs : a.bs = bs) {bytes : ℤ} (hub : receiveUb a row slots = some bytes) :
    bytes = (128 + receiveBytes a.CommMxfp8 h slots k bs : ℕ) := by
  obtain ⟨hrowBytes, -, hscales, hblocks, -⟩ := combineRow_nat ha hdtype hrow
  have hwidth : (if a.CommMxfp8 then 512 else kEpMemoryWindowAlignmentBytes) =
      ((if a.CommMxfp8 then 512 else 32 : ℕ) : ℤ) := by split_ifs <;> rfl
  unfold receiveUb at hub
  rw [ha, hk, hbs, hrowBytes, hscales, hblocks, hwidth] at hub
  replace hub := mulInt64_bind hub
  replace hub := mulInt64_bind (y := 8) hub
  replace hub := alignUpInt64_bind (y := 64) hub
  replace hub := mulInt64_bind (y := 4) hub
  replace hub := mulInt64_bind (y := 1) hub
  replace hub := alignUpInt64_bind (y := 256) hub
  replace hub := addInt64_bind hub
  replace hub := mulInt64_bind (y := 480) hub
  replace hub := mulInt64_bind (y := 4) hub
  replace hub := alignUpInt64_bind hub
  replace hub := alignUpInt64_bind (y := 32) hub
  replace hub := mulInt64_bind (y := 4) hub
  replace hub := alignUpInt64_bind (y := 32) hub
  replace hub := alignUpInt64_bind (y := 32) hub
  replace hub := mulInt64_bind (y := 32) hub
  replace hub := mulInt64_bind (x := 3) hub
  obtain ⟨dequant, hdequant, hub⟩ := bind_eq_some_iff.1 hub
  have hscaleBytes : dequant =
      (if a.CommMxfp8 then [roundUp 128 (scaleCount h) * 8] else [] : List ℕ).map (↑) := by
    rw [dequantScaleBytes_nat hdequant]
    split_ifs <;> rfl
  rw [(sumInt64_spec hub).2, hscaleBytes, receiveBytes, floatRowBytes, sum_append]
  simp only [sum_cons, sum_nil, mul_one, kEpMemoryWindowAlignmentBytes]
  push_cast
  split_ifs <;> simp only [map_cons, map_nil, sum_cons, sum_nil] <;> push_cast <;> ring

theorem sendUb_nat (hdtype : dataTypeSize a.dtype = 2) (hrow : combineRow a = some row)
    {bytes : ℤ} (hub : sendUb a row = some bytes) : bytes = (sendBytes a.CommMxfp8 h : ℕ) := by
  obtain ⟨-, hinput, hscales, hblocks, hpacked⟩ := combineRow_nat ha hdtype hrow
  unfold sendUb at hub
  rw [hinput, hscales, hblocks, hpacked] at hub
  replace hub := mulInt64_bind (y := 480) hub
  obtain ⟨quant, hquant, hub⟩ := bind_eq_some_iff.1 hub
  have hwork : quant = (if a.CommMxfp8 then
      [combineBlocks a.CommMxfp8 h * 480, quantWork (scaleCount h)] else [] : List ℕ).map (↑) := by
    unfold sendQuantBytes at hquant
    split_ifs at hquant ⊢
    · replace hquant := alignUpInt64_bind (y := 32) hquant
      replace hquant := mulInt64_bind (y := 4) hquant
      replace hquant := addInt64_bind (y := scaleCount h * 2) hquant
      replace hquant := alignUpInt64_bind (y := 32) hquant
      cases hquant
      rfl
    · cases hquant
      rfl
  rw [(sumInt64_spec hub).2, hwork, sendBytes, sum_append]
  simp only [sum_cons, sum_nil, kEpMemoryWindowAlignmentBytes]
  push_cast
  split_ifs <;> simp only [map_cons, map_nil, sum_cons, sum_nil] <;> push_cast <;> ring

end CombineHost

/-! ## Shapes -/

namespace LayoutArgs
variable {a : LayoutArgs} (hok : a.ShapeOk)
include hok

theorem ShapeOk.dtype_eq : dataTypeSize a.dtype = 2 := by
  obtain ⟨-, -, -, -, -, -, -, -, -, -, -, -, -, hdtype, -⟩ := hok
  rcases hdtype with h | h <;> rw [h] <;> rfl

theorem ShapeOk.h_eq : a.h = a.h.toNat := (toNat_of_nonneg hok.2.2.2.2.2.1.le).symm

theorem ShapeOk.bs_eq : a.bs = a.bs.toNat := (toNat_of_nonneg hok.2.2.2.2.1.le).symm

theorem ShapeOk.topK_eq : a.topK = a.topK.toNat := (toNat_of_nonneg hok.2.2.2.2.2.2.1.le).symm

theorem ShapeOk.shared_eq : a.sharedExpertNum = a.sharedExpertNum.toNat :=
  (toNat_of_nonneg hok.2.2.2.2.2.2.2.2.1).symm

theorem ShapeOk.rankSize_eq : a.rankSize = a.rankSize.toNat := (toNat_of_nonneg hok.1.le).symm

theorem ShapeOk.globalBs_eq : a.globalBs = a.globalBs.toNat :=
  (toNat_of_nonneg hok.2.2.2.2.2.2.2.2.2.2.1.le).symm

theorem ShapeOk.perRank_eq : a.moeExpertNumPerRank = a.moeExpertNumPerRank.toNat := by
  obtain ⟨-, -, -, -, -, -, -, hexperts, -, -, -, -, -, -, -, -, -, hmoe, -⟩ := hok
  exact (toNat_of_nonneg (ediv_nonneg hexperts.le hmoe.le)).symm

theorem ShapeOk.perRank_toNat : a.moeExpertNumPerRank.toNat = a.shape.moeExpertNumPerRank := by
  have hper := hok.perRank_eq
  obtain ⟨hranks, -, -, -, -, -, -, hexperts, -, hshared, -, -, -, -, -, hlt, -⟩ := hok
  unfold moeExpertNumPerRank moeRankNum at hper
  show _ = a.moeExpertNum.toNat / (a.rankSize.toNat - a.sharedExpertRankNum.toNat)
  apply ofNat_inj.1
  rw [natCast_div, Nat.cast_sub (by omega), toNat_of_nonneg hranks.le, toNat_of_nonneg hexperts.le,
    toNat_of_nonneg hshared]
  exact hper.symm

end LayoutArgs

/-- The slots of a token: one per expert it goes to. -/
def LayoutArgs.slots (a : LayoutArgs) : ℕ := a.topK.toNat + a.sharedExpertNum.toNat

def LayoutArgs.maxBs (a : LayoutArgs) : ℕ := a.globalBs.toNat / a.rankSize.toNat

/-- The status records of a rank that is not one of the shared experts. -/
def LayoutArgs.moeStatusNum (a : LayoutArgs) : ℕ := a.rankSize.toNat * a.moeExpertNumPerRank.toNat

/-- The counts that the cores hand to each other, at the end of the window. -/
def LayoutArgs.workspace (a : LayoutArgs) : ℕ := roundUp 32 (a.blockDim.toNat * a.moeStatusNum * 4)

def LayoutArgs.dataBytes (a : LayoutArgs) : ℕ := 511 * 2 ^ 20 - a.workspace

theorem workspaceBytes_nat {a : LayoutArgs} (hok : a.ShapeOk) (hblock : 0 ≤ a.blockDim) {bytes : ℤ}
    (h : a.workspaceBytes = some bytes) : bytes = (a.workspace : ℕ) := by
  unfold LayoutArgs.workspaceBytes at h
  rw [hok.rankSize_eq, hok.perRank_eq, ← toNat_of_nonneg hblock] at h
  replace h := mulInt64_bind h
  replace h := mulInt64_bind h
  replace h := mulInt64_bind (y := 4) h
  exact alignUpInt64_nat (y := 32) h

/-- The blocks of a packed row of combine, for the shape of a call. -/
def LayoutArgs.slotBlocks (a : LayoutArgs) : ℕ := combineBlocks a.CommMxfp8 a.h.toNat

structure CombineSizes (a : LayoutArgs) (config : CombineReferenceConfig) : Prop where
  shapeOk : a.ShapeOk
  blockDim_pos : 0 < a.blockDim
  blockCnt_eq : config.blockCntPerToken = (a.slotBlocks : ℕ)
  packedRow_eq : config.packedRowBytes = (a.slotBlocks * 512 : ℕ)
  reserve_eq : config.combineReserveBytes = (a.maxBs * a.slots * (a.slotBlocks * 512) : ℕ)
  workspace_eq : config.workspaceBytes = (a.workspace : ℕ)
  totalWin_eq : config.totalWinSize = (a.dataBytes : ℕ)
  half_eq : config.combineHalfBytes = (a.dataBytes / 2 : ℕ)
  workspace_lt : a.workspace < 511 * 2 ^ 20
  half_le : a.maxBs * a.slots * (a.slotBlocks * 512) ≤ a.dataBytes / 2
  receive_eq : config.receiveUbBytes =
    (128 + receiveBytes a.CommMxfp8 a.h.toNat a.slots a.topK.toNat a.bs.toNat : ℕ)
  receive_le : config.receiveUbBytes ≤ kEpMemoryFullUbBytes
  send_le : sendBytes a.CommMxfp8 a.h.toNat ≤ 190 * 1024

theorem combineBuild_spec {a : LayoutArgs} {config : CombineReferenceConfig}
    (h : buildMemoryCombineReferenceConfig a = some config) : CombineSizes a config := by
  obtain ⟨⟨hok, hblock, -⟩, h⟩ := guard_bind h
  obtain ⟨row, hrow, h⟩ := bind_eq_some_iff.1 h
  obtain ⟨-, -, -, hblocks, hpacked⟩ := combineRow_nat hok.h_eq hok.dtype_eq hrow
  rw [hok.topK_eq, hok.shared_eq, hok.globalBs_eq, hok.rankSize_eq, ← natCast_div] at h
  replace h := addInt64_bind h
  replace h := mulInt64_bind h
  rw [hpacked] at h
  replace h := mulInt64_bind h
  obtain ⟨workspace, hworkspace, h⟩ := bind_eq_some_iff.1 h
  obtain rfl := workspaceBytes_nat hok hblock.le hworkspace
  obtain ⟨hhalf, h⟩ := guard_bind h
  obtain ⟨receive, hreceive, h⟩ := bind_eq_some_iff.1 h
  obtain ⟨send, hsend, h⟩ := bind_eq_some_iff.1 h
  obtain ⟨hfit, h⟩ := guard_bind h
  cases h
  rw [not_or, not_lt, not_lt] at hfit
  have hle := hfit.1
  rw [sendUb_nat hok.h_eq hok.dtype_eq hrow hsend, kEpMemoryFullUbBytes] at hle
  unfold ipcBuffMaxSize kEpMemoryStateWindowBytes at *
  have hdata : 512 * 1024 * 1024 - 1024 * 1024 - (a.workspace : ℤ) = (a.dataBytes : ℕ) := by
    unfold LayoutArgs.dataBytes
    omega
  rw [hdata] at hhalf ⊢
  refine ⟨hok, hblock, hblocks, rfl, rfl, rfl, rfl, rfl, ?_, ?_,
    receiveUb_nat hok.h_eq hok.dtype_eq hrow hok.topK_eq hok.bs_eq hreceive, hfit.2, by omega⟩
  · unfold LayoutArgs.dataBytes at hhalf
    omega
  · unfold LayoutArgs.maxBs LayoutArgs.slots LayoutArgs.slotBlocks
    omega

/-! ## A row of dispatch -/

section Dispatch
variable (mx : Prop) [Decidable mx] (h k bs : ℕ)

def dispatchPayload : ℕ := if mx then roundUp 256 h + scaleCount h else roundUp 32 (h * 2)

/-- The blocks that a token and 32 bytes of its origin are packed into. -/
def dispatchBlocks : ℕ := (roundUp 32 (dispatchPayload mx h) + 32 + 479) / 480

def ubMaxSize : ℕ :=
  let size := max (roundUp 32 (bs * k * 4)) (bs * roundUp 32 k * 2)
  if mx then max size (quantWork (scaleCount h)) else size

theorem le_ubMaxSize : bs * roundUp 32 k * 2 ≤ ubMaxSize mx h k bs := by
  unfold ubMaxSize
  dsimp only
  split_ifs <;> omega

def allToAllBytes : ℕ :=
  64 + 2 * ((if mx then roundUp 128 (h * 2) else dispatchBlocks mx h * 480) +
      roundUp (if mx then 128 else 32) (h * 2)) +
    2 * roundUp 256 (bs * k * 4) + 2 * ubMaxSize mx h k bs + roundUp 32 (bs * k * 4) +
    (if mx then dispatchBlocks mx h * 480 else 0) + dispatchBlocks mx h * 512

def countBytes (ranks perRank rscvStatusNum totalExpertNum cores countCores : ℕ) : ℕ :=
  let perCore := (rscvStatusNum + countCores - 1) / countCores
  32 + 2 * ubMaxSize mx h k bs + 2 * roundUp 256 (bs * k * 4) + roundUp 8 totalExpertNum * 32 +
    roundUp 256 (perCore * 32) + roundUp 32 (perCore * 4) + perCore * 32 + 2 * cores * 32 +
    roundUp 32 (cores * 4) + 96 + rscvStatusNum * 32 + roundUp 32 (perRank * 8) + roundUp 32 (ranks * 4)

def localCopyBytes (blocks rscvStatusNum cores countCores : ℕ) : ℕ :=
  32 + roundUp 32 (rscvStatusNum * 4) + 2 * countCores * 32 +
    3 * roundUp 32 ((rscvStatusNum + cores - 1) / cores * 4) + 64 + blocks * 32

end Dispatch

section DispatchHost
variable {a : LayoutArgs} {h : ℕ} (ha : a.h = h)
include ha

theorem dispatchRow_nat (hdtype : dataTypeSize a.dtype = 2) {row : DispatchRow} (hrow : dispatchRow a = some row) :
    row.inputBytes = (h * 2 : ℕ) ∧ row.hOutSize = ((if a.quantMode = 4 then h else h * 2 : ℕ) : ℤ) ∧
      row.scaleOutBytes = ((if a.quantMode = 4 then scaleCount h else 0 : ℕ) : ℤ) ∧
      row.tokenQuantAlignBytes = (roundUp 32 (dispatchPayload (a.quantMode = 4) h) : ℕ) ∧
      row.packedPayloadBytes = (dispatchBlocks (a.quantMode = 4) h * 480 : ℕ) ∧
      row.hCommuSize = (dispatchBlocks (a.quantMode = 4) h * 512 : ℕ) := by
  have hout : (if a.quantMode = 4 then 1 else (2 : ℤ)) = ((if a.quantMode = 4 then 1 else 2 : ℕ) : ℤ) := by
    split_ifs <;> rfl
  have hwidth : (if a.quantMode = 4 then 256 else kEpMemoryWindowAlignmentBytes) =
      ((if a.quantMode = 4 then 256 else 32 : ℕ) : ℤ) := by split_ifs <;> rfl
  unfold dispatchRow at hrow
  simp only [hdtype, hout, hwidth] at hrow
  rw [ha] at hrow
  replace hrow := mulInt64_bind (y := 2) hrow
  replace hrow := mulInt64_bind hrow
  replace hrow := alignUpInt64_bind hrow
  obtain ⟨scale, hscale, hrow⟩ := bind_eq_some_iff.1 hrow
  obtain rfl : scale = ((if a.quantMode = 4 then scaleCount h else 0 : ℕ) : ℤ) := by
    unfold dispatchScaleBytes at hscale
    split_ifs at hscale ⊢
    · rw [ha] at hscale
      replace hscale := ceilDivInt64_bind (y := 32) hscale
      exact alignUpInt64_nat (y := 2) hscale
    · cases hscale
      rfl
  replace hrow := addInt64_bind hrow
  replace hrow := alignUpInt64_bind (y := 32) hrow
  replace hrow := addInt64_bind (y := 32) hrow
  replace hrow := ceilDivInt64_bind (y := 480) hrow
  replace hrow := mulInt64_bind (y := 480) hrow
  replace hrow := mulInt64_bind (y := 512) hrow
  have hpayload : roundUp (if a.quantMode = 4 then 256 else 32) (h * if a.quantMode = 4 then 1 else 2) +
      (if a.quantMode = 4 then scaleCount h else 0) = dispatchPayload (a.quantMode = 4) h := by
    unfold dispatchPayload
    split_ifs
    · rw [mul_one]
    · rfl
  rw [hpayload] at hrow
  cases hrow
  refine ⟨rfl, ?_, rfl, rfl, rfl, rfl⟩
  split_ifs <;> simp

theorem combineReserve_nat (hdtype : dataTypeSize a.dtype = 2) (hok : a.ShapeOk) {bytes : ℤ}
    (hreserve : combineReserve a = some bytes) : bytes = (a.maxBs * a.slots * ((h * 2 + 479) / 480 * 512) : ℕ) := by
  unfold combineReserve at hreserve
  rw [hdtype, ha, hok.topK_eq, hok.shared_eq, hok.globalBs_eq, hok.rankSize_eq, ← natCast_div] at hreserve
  replace hreserve := mulInt64_bind (y := 2) hreserve
  replace hreserve := ceilDivInt64_bind (y := 480) hreserve
  replace hreserve := mulInt64_bind (y := 512) hreserve
  replace hreserve := addInt64_bind hreserve
  replace hreserve := mulInt64_bind hreserve
  exact mulInt64_nat hreserve

omit ha in
theorem withQuantWork_nat {size : ℕ} {out : ℤ}
    (hwork : withQuantWork a ((if a.quantMode = 4 then scales else 0 : ℕ) : ℤ) size = some out) :
    out = ((if a.quantMode = 4 then max size (quantWork scales) else size : ℕ) : ℤ) := by
  unfold withQuantWork at hwork
  split_ifs at hwork ⊢
  · replace hwork := alignUpInt64_bind (y := 32) hwork
    replace hwork := mulInt64_bind (y := 4) hwork
    replace hwork := addInt64_bind (y := scales * 2) hwork
    replace hwork := alignUpInt64_bind (y := 32) hwork
    rw [← Option.some.inj hwork, Nat.cast_max]
    rfl
  · exact (Option.some.inj hwork).symm

omit ha in
theorem maxSizeForUbBuffer_nat {k bs : ℕ} (hk : a.topK = k) (hbs : a.bs = bs) {ids aligned size : ℤ}
    (hsize : maxSizeForUbBuffer a ((if a.quantMode = 4 then scaleCount h else 0 : ℕ) : ℤ) =
      some (ids, aligned, size)) :
    ids = (bs * k * 4 : ℕ) ∧ aligned = (roundUp 32 (bs * k * 4) : ℕ) ∧
      size = (ubMaxSize (a.quantMode = 4) h k bs : ℕ) := by
  unfold maxSizeForUbBuffer at hsize
  rw [hk, hbs] at hsize
  replace hsize := mulInt64_bind hsize
  replace hsize := mulInt64_bind (y := 4) hsize
  replace hsize := alignUpInt64_bind (y := 32) hsize
  replace hsize := alignUpInt64_bind (y := 32) hsize
  replace hsize := mulInt64_bind hsize
  replace hsize := mulInt64_bind (y := 2) hsize
  obtain ⟨work, hwork, hsize⟩ := bind_eq_some_iff.1 hsize
  rw [← Nat.cast_max] at hwork
  obtain rfl := withQuantWork_nat hwork
  obtain ⟨-, hsize⟩ := guard_bind hsize
  cases hsize
  exact ⟨rfl, rfl, rfl⟩

theorem allToAllUb_nat (hdtype : dataTypeSize a.dtype = 2) {row : DispatchRow} (hrow : dispatchRow a = some row)
    {k bs : ℕ} {bytes : ℤ} (hub : allToAllUb a row (roundUp 32 (bs * k * 4) : ℕ) (roundUp 256 (bs * k * 4) : ℕ)
      (ubMaxSize (a.quantMode = 4) h k bs : ℕ) = some bytes) :
    bytes = (allToAllBytes (a.quantMode = 4) h k bs : ℕ) ∧ bytes ≤ kEpMemoryFullUbBytes := by
  obtain ⟨hinput, -, -, -, hpacked, hcommu⟩ := dispatchRow_nat ha hdtype hrow
  have hwidth : (if a.quantMode = 4 then 128 else kEpMemoryWindowAlignmentBytes) =
      ((if a.quantMode = 4 then 128 else 32 : ℕ) : ℤ) := by split_ifs <;> rfl
  unfold allToAllUb at hub
  simp only [hwidth, hinput, hpacked, hcommu] at hub
  replace hub := alignUpInt64_bind hub
  rw [← Nat.cast_ite] at hub
  replace hub := addInt64_bind hub
  replace hub := mulInt64_bind (x := 2) hub
  replace hub := mulInt64_bind (x := 2) hub
  replace hub := mulInt64_bind (x := 2) hub
  obtain ⟨sum, hsum, hub⟩ := bind_eq_some_iff.1 hub
  obtain ⟨hle, hub⟩ := guard_bind hub
  cases hub
  refine ⟨?_, not_lt.1 hle⟩
  rw [(sumInt64_spec hsum).2, allToAllBytes]
  simp only [kEpMemoryWindowAlignmentBytes, sum_append, sum_cons, sum_nil]
  push_cast
  split_ifs <;> simp only [sum_cons, sum_nil] <;> ring

omit ha in
theorem countUbOk_nat {k bs ranks perRank total : ℕ} (hcores : a.blockDim = cores)
    (hranks : a.rankSize = ranks) (hper : a.moeExpertNumPerRank = perRank) (hused : 0 < used)
    (hub : countUbOk a rscv total used (roundUp 256 (bs * k * 4) : ℕ)
      (ubMaxSize (a.quantMode = 4) h k bs : ℕ) = some ()) :
    countBytes (a.quantMode = 4) h k bs ranks perRank rscv total cores used ≤ 190 * 1024 := by
  unfold countUbOk at hub
  rw [hcores, hranks, hper, div_add_ite_cast rscv hused] at hub
  replace hub := mulInt64_bind (y := 32) hub
  replace hub := alignUpInt64_bind (y := 256) hub
  replace hub := mulInt64_bind (y := 4) hub
  replace hub := alignUpInt64_bind (y := 32) hub
  replace hub := mulInt64_bind (y := 4) hub
  replace hub := alignUpInt64_bind (y := 32) hub
  replace hub := mulInt64_bind (y := 8) hub
  replace hub := alignUpInt64_bind (y := 32) hub
  replace hub := mulInt64_bind (y := 4) hub
  replace hub := alignUpInt64_bind (y := 32) hub
  replace hub := alignUpInt64_bind (y := 8) hub
  replace hub := mulInt64_bind (x := 2) hub
  replace hub := mulInt64_bind (x := 2) hub
  replace hub := mulInt64_bind (y := 32) hub
  rw [show 2 * (cores : ℤ) = (2 * cores : ℕ) by push_cast; rfl] at hub
  replace hub := mulInt64_bind (y := 32) hub
  replace hub := mulInt64_bind (y := 32) hub
  obtain ⟨sum, hsum, hub⟩ := bind_eq_some_iff.1 hub
  have hle := (Option.guard_eq_some' _).1 hub
  rw [(sumInt64_spec hsum).2] at hle
  simp only [kEpMemoryWindowAlignmentBytes, kEpMemoryFullUbBytes, sum_cons, sum_nil] at hle
  rw [countBytes]
  omega

omit ha in
theorem localCopyUbOk_nat {blocks : ℕ} (hcores : a.blockDim = cores) (hpos : 0 < cores)
    (hub : localCopyUbOk a rscv used (blocks * 512 : ℕ) = some ()) :
    localCopyBytes blocks rscv cores used < 190 * 1024 ∧
      localCopyBytes blocks rscv cores used + blocks * 512 ≤ 190 * 1024 := by
  unfold localCopyUbOk at hub
  rw [hcores, div_add_ite_cast rscv hpos, show (2 : ℤ) * used = (2 * used : ℕ) by push_cast; rfl,
    show ((blocks * 512 : ℕ) : ℤ) / kEpMemorySplitBlockBytes = blocks by
      unfold kEpMemorySplitBlockBytes; omega] at hub
  replace hub := mulInt64_bind (y := 4) hub
  replace hub := alignUpInt64_bind (y := 32) hub
  replace hub := mulInt64_bind (y := 4) hub
  replace hub := alignUpInt64_bind (y := 32) hub
  replace hub := mulInt64_bind (y := 32) hub
  replace hub := mulInt64_bind (x := 3) hub
  replace hub := mulInt64_bind (y := 32) hub
  obtain ⟨sum, hsum, hub⟩ := bind_eq_some_iff.1 hub
  have hle := (Option.guard_eq_some' _).1 hub
  rw [(sumInt64_spec hsum).2] at hle
  simp only [kEpMemoryWindowAlignmentBytes, kEpMemoryFullUbBytes, sum_cons, sum_nil] at hle
  rw [localCopyBytes]
  omega

end DispatchHost

/-- The blocks of a packed row of dispatch, for the shape of a call. -/
def LayoutArgs.rowBlocks (a : LayoutArgs) : ℕ := dispatchBlocks (a.quantMode = 4) a.h.toNat

def LayoutArgs.reserve (a : LayoutArgs) : ℕ := a.maxBs * a.slots * ((a.h.toNat * 2 + 479) / 480 * 512)

/-- The bytes of a block: a row for every token of the largest batch. -/
def LayoutArgs.blockBytes (a : LayoutArgs) : ℕ := a.maxBs * (a.rowBlocks * 512)

structure DispatchSizes (a : LayoutArgs) (config : DispatchReferenceConfig) : Prop where
  shapeOk : a.ShapeOk
  two_le_blockDim : 2 ≤ a.blockDim
  cores : 0 < a.shape.aivUsedCumSum ∧ a.shape.aivUsedCumSum < a.shape.aivNum ∧
    a.shape.sharedUsedAivNum < a.shape.aivUsedAllToAll
  rscv_eq : config.rscvStatusNum = (a.shape.rscvStatusNum : ℕ)
  hCommu_eq : config.hCommuSize = (a.rowBlocks * 512 : ℕ)
  hOut_eq : config.hOutSize = ((if a.quantMode = 4 then a.h.toNat else a.h.toNat * 2 : ℕ) : ℤ)
  scaleOut_eq : config.scaleOutBytes = ((if a.quantMode = 4 then scaleCount a.h.toNat else 0 : ℕ) : ℤ)
  tokenQuant_eq : config.tokenQuantAlignBytes = (roundUp 32 (dispatchPayload (a.quantMode = 4) a.h.toNat) : ℕ)
  expertPerSize_eq : config.expertPerSizeOnWin = (a.blockBytes : ℕ)
  reserve_eq : config.combineReserveBytes = (a.reserve : ℕ)
  workspace_eq : config.workspaceBytes = (a.workspace : ℕ)
  totalWin_eq : config.totalWinSize = (a.dataBytes : ℕ)
  half_eq : config.dispatchHalfBytes = (a.dataBytes / 2 : ℕ)
  maxSize_eq : config.maxSizeForUbBuffer =
    (ubMaxSize (a.quantMode = 4) a.h.toNat a.topK.toNat a.bs.toNat : ℕ)
  workspace_lt : a.workspace < 511 * 2 ^ 20
  /-- Both halves of the window hold what is left to combine and the blocks of the rows. -/
  half_le : a.reserve + a.shape.rscvStatusNum * a.blockBytes ≤ a.dataBytes / 2
  allToAll_eq : config.allToAllUbBytes =
    (allToAllBytes (a.quantMode = 4) a.h.toNat a.topK.toNat a.bs.toNat : ℕ)
  allToAll_le : allToAllBytes (a.quantMode = 4) a.h.toNat a.topK.toNat a.bs.toNat ≤ 190 * 1024
  count_le : countBytes (a.quantMode = 4) a.h.toNat a.topK.toNat a.bs.toNat a.rankSize.toNat
    a.moeExpertNumPerRank.toNat a.shape.rscvStatusNum a.shape.totalExpertNum a.blockDim.toNat
    a.shape.aivUsedCumSum ≤ 190 * 1024
  localCopy_le : localCopyBytes a.rowBlocks a.shape.rscvStatusNum a.blockDim.toNat a.shape.aivUsedCumSum +
    a.rowBlocks * 512 ≤ 190 * 1024

theorem dispatchBuild_spec {a : LayoutArgs} {dtype : DataType} {config : DispatchReferenceConfig}
    (h : buildMemoryDispatchReferenceConfig a dtype = some config) : DispatchSizes a config := by
  obtain ⟨⟨hok, hblocks, -⟩, h⟩ := guard_bind h
  have hcores : a.blockDim = a.blockDim.toNat := (toNat_of_nonneg (by omega)).symm
  dsimp only at h
  rw [rscvStatusNum_eq hok] at h
  obtain ⟨total, htotal, h⟩ := bind_eq_some_iff.1 h
  obtain rfl : total = a.shape.totalExpertNum := by rw [(addInt64_eq htotal).2.2, totalExpertNum_eq hok]
  obtain ⟨split, hsplit, h⟩ := bind_eq_some_iff.1 h
  obtain ⟨hused, hsplit⟩ := coreSplit_spec hok hblocks hsplit
  obtain ⟨row, hrow, h⟩ := bind_eq_some_iff.1 h
  obtain ⟨-, hout, hscale, hquant, -, hcommu⟩ := dispatchRow_nat hok.h_eq hok.dtype_eq hrow
  rw [hcommu, hok.globalBs_eq, hok.rankSize_eq, ← natCast_div] at h
  replace h := mulInt64_bind h
  obtain ⟨reserve, hreserve, h⟩ := bind_eq_some_iff.1 h
  obtain rfl := combineReserve_nat hok.h_eq hok.dtype_eq hok hreserve
  obtain ⟨workspace, hworkspace, h⟩ := bind_eq_some_iff.1 h
  obtain rfl := workspaceBytes_nat hok (by omega) hworkspace
  obtain ⟨hwin, h⟩ := guard_bind h
  replace h := mulInt64_bind h
  replace h := addInt64_bind h
  obtain ⟨hhalf, h⟩ := guard_bind h
  obtain ⟨⟨ids, aligned, size⟩, hsize, h⟩ := bind_eq_some_iff.1 h
  rw [hscale] at hsize
  obtain ⟨rfl, rfl, rfl⟩ := maxSizeForUbBuffer_nat hok.topK_eq hok.bs_eq hsize
  replace h := alignUpInt64_bind (y := 256) h
  obtain ⟨bytes, hbytes, h⟩ := bind_eq_some_iff.1 h
  obtain ⟨hbytes, hbytesLe⟩ := allToAllUb_nat hok.h_eq hok.dtype_eq hrow hbytes
  obtain ⟨_, hcount, h⟩ := bind_eq_some_iff.1 h
  obtain ⟨_, hcopy, h⟩ := bind_eq_some_iff.1 h
  cases h
  rw [hused] at hcount hcopy
  unfold ipcBuffMaxSize kEpMemoryStateWindowBytes at *
  have hdata : 512 * 1024 * 1024 - 1024 * 1024 - (a.workspace : ℤ) = (a.dataBytes : ℕ) := by
    unfold LayoutArgs.dataBytes
    omega
  rw [hdata] at hwin hhalf ⊢
  rw [hbytes, kEpMemoryFullUbBytes] at hbytesLe
  refine ⟨hok, hblocks, hsplit, rfl, rfl, hout, hscale, hquant, rfl, rfl, rfl, rfl, rfl, rfl, ?_, ?_, hbytes,
    by omega, ?_, ?_⟩
  · unfold LayoutArgs.dataBytes at hwin
    omega
  · unfold LayoutArgs.reserve LayoutArgs.blockBytes LayoutArgs.maxBs LayoutArgs.rowBlocks at *
    omega
  · exact countUbOk_nat hcores hok.rankSize_eq hok.perRank_eq hsplit.1 hcount
  · exact (localCopyUbOk_nat hcores (by omega) hcopy).2

/-- A dispatch that the host launches has an accepted shape. -/
theorem DispatchSizes.accepted {a : LayoutArgs} {config : DispatchReferenceConfig} (h : DispatchSizes a config) :
    a.shape.Accepted := by
  obtain ⟨hcount, hcountlt, hshared⟩ := h.cores
  have hub := h.allToAll_le
  obtain ⟨hranks, -, hrank, hranklt, hbspos, -, hk, hexperts, hnum, hsharedRank, -, -, -, -, hiff, hlt, hdvd,
    hmoe, hmod⟩ := h.shapeOk
  unfold LayoutArgs.moeRankNum at hmoe hmod
  -- one row of the mask takes at least 32 bytes
  have hbs : a.bs.toNat * 32 ≤ a.bs.toNat * roundUp 32 a.topK.toNat :=
    Nat.mul_le_mul_left _ (padding_le_roundUp (by decide) (by omega))
  have hmask := le_ubMaxSize (a.quantMode = 4) a.h.toNat a.topK.toNat a.bs.toNat
  unfold allToAllBytes at hub
  refine ⟨?_, ?_, ?_, ?_, ?_, ?_, ?_, ?_, hcount, hcountlt, hshared, ?_⟩
  · show a.rank.toNat < a.rankSize.toNat
    omega
  · show 0 < a.bs.toNat
    omega
  · show 0 < a.topK.toNat
    omega
  · show 0 < a.moeExpertNum.toNat
    omega
  · show a.sharedExpertNum.toNat = 0 ↔ a.sharedExpertRankNum.toNat = 0
    omega
  · show a.sharedExpertRankNum.toNat < a.rankSize.toNat
    omega
  · show a.sharedExpertNum.toNat ∣ a.sharedExpertRankNum.toNat
    rcases hnum.lt_or_eq with hpos | hzero
    · rw [← natCast_dvd_natCast, toNat_of_nonneg hnum, toNat_of_nonneg hsharedRank]
      exact dvd_of_emod_eq_zero (hdvd hpos)
    · rw [hiff.1 hzero.symm]
      exact Nat.dvd_zero _
  · show a.rankSize.toNat - a.sharedExpertRankNum.toNat ∣ a.moeExpertNum.toNat
    rw [← natCast_dvd_natCast, Nat.cast_sub (by omega), toNat_of_nonneg hranks.le,
      toNat_of_nonneg hsharedRank, toNat_of_nonneg hexperts.le]
    exact dvd_of_emod_eq_zero hmod
  · show a.bs.toNat * 128 ≤ 190 * 1024
    omega

end TileXR.EpMemory
