import TileXR.Checked
import TileXR.Lib.Blocks
import Mathlib.Data.Nat.Basic
import Mathlib.Algebra.Order.Group.Unbundled.Int

/-!
# The layout of the gradient reduction

`TileXRMoonEpBuildReduceGradLayout`: which shapes are taken, how the queue pairs are dealt out to the
three projections, and where lane state and staging banks lie in the workspace. What is accepted is
collected in `Layout.Accepted`, which is all that the kernel needs to know of it.
-/

namespace TileXR.ReduceGrad
open Option
open Function (update)
open Lib (blockStart)
variable {env : Option (Option ℤ)}

def kReduceGradDefaultChunkBytes : ℕ := 8 * 2 ^ 20
def kReduceGradUdmaAlignment : ℕ := 512
def kReduceGradWorkspaceAlignment : ℕ := 2 * 2 ^ 20
def kReduceGradBankCount : ℕ := 2
def kReduceGradLaneStateStrideBytes : ℕ := 8 * 2 ^ 10
def kReduceGradProjectionCount : ℕ := 3
def kReduceGradMinRankCount : ℕ := 4
def kReduceGradMaxUdmaQpCount : ℕ := 8
def kReduceGradMaxTransportQpCount : ℕ := 48
def kReduceGradMinMultiRankQpCount : ℕ := kReduceGradProjectionCount
def kReduceGradMaxAivBlockCount : ℕ := 64
def tilexrMaxRankSize : ℕ := 128
def int32Max : ℕ := 2 ^ 31 - 1

def alignUp (value alignment : ℕ) : Option ℕ :=
  if value % alignment = 0 then some value else checkedAdd value (alignment - value % alignment)

/-! ## Queue pairs -/

def scoreGreater (lhsBytes lhsCount rhsBytes rhsCount : ℕ) : Bool :=
  if lhsBytes / lhsCount ≠ rhsBytes / rhsCount then rhsBytes / rhsCount < lhsBytes / lhsCount
  else rhsBytes % rhsCount * lhsCount < lhsBytes % lhsCount * rhsCount

/-- The projection that gets the next queue pair. -/
def selectProjection (rowBytes counts : ℕ → ℕ) : ℕ :=
  [1, 2].foldl (fun selected projection =>
    if scoreGreater (rowBytes projection) (counts projection) (rowBytes selected) (counts selected) then
      projection
    else selected) 0

/-- The counts of `AllocateProjectionQps`. -/
def allocateProjectionQps (rowBytes : ℕ → ℕ) (qpCount : ℕ) : ℕ → ℕ :=
  (List.range (qpCount - kReduceGradProjectionCount)).foldl (fun counts _ =>
    update counts (selectProjection rowBytes counts) (counts (selectProjection rowBytes counts) + 1))
    fun _ => 1

/-- `ResolveBlockDim`. The environment variable is unset or empty, or is a text that is or is not a
number. -/
def resolveBlockDim (laneCount : ℕ) (value : Option (Option ℤ)) : Option ℕ := do
  let selected ← value.getD (some (kReduceGradMaxAivBlockCount : ℤ))
  guard (0 < selected ∧ selected ≤ kReduceGradMaxAivBlockCount ∧ 2 * laneCount ≤ selected.toNat)
  return selected.toNat

/-! ## The layout -/

structure Layout where
  rank : ℕ
  rankSize : ℕ
  expertCount : ℕ
  expertsPerRank : ℕ
  prefetchSlots : ℕ
  blockDim : ℕ
  rowElements : ℕ → ℕ
  rowBytes : ℕ → ℕ
  chunkCounts : ℕ → ℕ
  projectionQpBase : ℕ → ℕ
  projectionQpCounts : ℕ → ℕ
  laneCount : ℕ
  stagingOffset : ℕ
  bankStrideBytes : ℕ
  laneStrideBytes : ℕ
  chunkBytes : ℕ
  workspaceBytes : ℕ

/-- `TileXRMoonEpBuildReduceGradLayout`, with the environment variable of the block count. -/
def buildReduceGradLayout (rank rankSize expertCount prefetchSlots : ℤ) (rowElements : ℕ → ℕ)
    (transportQpCount requestedChunkBytes : ℕ) (env : Option (Option ℤ)) : Option Layout := do
  guard (kReduceGradMinRankCount ≤ rankSize ∧ rankSize ≤ tilexrMaxRankSize ∧ 0 ≤ rank ∧ rank < rankSize ∧
    0 < expertCount ∧ expertCount % rankSize = 0 ∧ 0 < prefetchSlots ∧ expertCount ≤ int32Max ∧
    prefetchSlots ≤ int32Max ∧ prefetchSlots ≤ int32Max / rankSize ∧
    kReduceGradMinMultiRankQpCount ≤ transportQpCount ∧
    transportQpCount ≤ kReduceGradMaxTransportQpCount ∧
    (kReduceGradMaxUdmaQpCount < transportQpCount →
      transportQpCount = kReduceGradMaxTransportQpCount))
  let laneCount := if transportQpCount = kReduceGradMaxTransportQpCount then kReduceGradProjectionCount
    else transportQpCount
  guard (∀ projection < kReduceGradProjectionCount,
    rowElements projection ≠ 0 ∧ (checkedMul (rowElements projection) 4).isSome)
  let rowBytes := fun projection => rowElements projection * 4
  let blockDim ← resolveBlockDim laneCount env
  guard (kReduceGradMinMultiRankQpCount ≤ laneCount ∧ laneCount ≤ kReduceGradMaxUdmaQpCount)
  let counts := allocateProjectionQps rowBytes laneCount
  guard (blockStart counts kReduceGradProjectionCount = laneCount)
  let desiredChunk := if requestedChunkBytes = 0 then kReduceGradDefaultChunkBytes
    else requestedChunkBytes
  guard (desiredChunk ≤ uint32Max)
  let chunkBytes ← alignUp desiredChunk kReduceGradUdmaAlignment
  guard (chunkBytes ≤ uint32Max)
  let stateBytes ← checkedMul laneCount kReduceGradLaneStateStrideBytes
  let laneStateBytes ← alignUp stateBytes kReduceGradUdmaAlignment
  let bankStrideBytes ← checkedMul rankSize.toNat chunkBytes
  let laneStrideBytes ← checkedMul kReduceGradBankCount bankStrideBytes
  let payloadBytes ← checkedMul laneCount laneStrideBytes
  let cursor ← checkedAdd laneStateBytes payloadBytes
  let workspaceBytes ← alignUp cursor kReduceGradWorkspaceAlignment
  return {
    rank := rank.toNat, rankSize := rankSize.toNat, expertCount := expertCount.toNat
    expertsPerRank := (expertCount / rankSize).toNat, prefetchSlots := prefetchSlots.toNat
    blockDim := blockDim, rowElements := rowElements, rowBytes := rowBytes
    chunkCounts := fun projection => divideRoundUp (rowBytes projection) chunkBytes
    projectionQpBase := blockStart counts, projectionQpCounts := counts
    laneCount := laneCount, stagingOffset := laneStateBytes
    bankStrideBytes := bankStrideBytes, laneStrideBytes := laneStrideBytes
    chunkBytes := chunkBytes, workspaceBytes := workspaceBytes }

structure Layout.Accepted (L : Layout) : Prop where
  rankSize_ge : kReduceGradMinRankCount ≤ L.rankSize
  rank_lt : L.rank < L.rankSize
  expertCount_eq : L.expertCount = L.rankSize * L.expertsPerRank
  slotsPos : 0 < L.prefetchSlots
  rowPos : ∀ projection < kReduceGradProjectionCount, 0 < L.rowElements projection
  rowBytes_eq : ∀ projection, L.rowBytes projection = L.rowElements projection * 4
  chunkPos : 0 < L.chunkBytes
  chunk_dvd : kReduceGradUdmaAlignment ∣ L.chunkBytes
  chunkCounts_eq : ∀ projection,
    L.chunkCounts projection = divideRoundUp (L.rowBytes projection) L.chunkBytes
  qpPos : ∀ projection, 0 < L.projectionQpCounts projection
  qpBase_eq : L.projectionQpBase = blockStart L.projectionQpCounts
  qp_sum : blockStart L.projectionQpCounts kReduceGradProjectionCount = L.laneCount
  laneCount_ge : kReduceGradProjectionCount ≤ L.laneCount
  blockDim_ge : 2 * L.laneCount ≤ L.blockDim
  blockDim_le : L.blockDim ≤ kReduceGradMaxAivBlockCount
  bankStride_eq : L.bankStrideBytes = L.rankSize * L.chunkBytes
  laneStride_eq : L.laneStrideBytes = kReduceGradBankCount * L.bankStrideBytes

theorem alignUp_dvd {value alignment out : ℕ} (h : alignUp value alignment = some out)
    (hpos : 0 < alignment) : value ≤ out ∧ alignment ∣ out := by
  unfold alignUp at h
  split at h
  · next h0 => exact ⟨(some.inj h).le, some.inj h ▸ Nat.dvd_of_mod_eq_zero h0⟩
  · have hmod := Nat.mod_lt value hpos
    have hdiv := Nat.div_add_mod value alignment
    rw [checkedAdd_eq h]
    refine ⟨by omega, value / alignment + 1, ?_⟩
    rw [Nat.mul_add]
    omega

theorem allocateProjectionQps_pos (rowBytes : ℕ → ℕ) (qpCount projection : ℕ) :
    0 < allocateProjectionQps rowBytes qpCount projection := by
  revert projection
  refine List.foldlRecOn (motive := fun counts : ℕ → ℕ => ∀ p, 0 < counts p) _ _ (fun _ => Nat.one_pos)
    fun counts h _ _ p => ?_
  rcases eq_or_ne p (selectProjection rowBytes counts) with rfl | hne
  · rw [Function.update_self]; exact Nat.succ_pos _
  · rw [Function.update_of_ne hne]; exact h p

theorem resolveBlockDim_bounds {laneCount blockDim : ℕ} (h : resolveBlockDim laneCount env = some blockDim) :
    2 * laneCount ≤ blockDim ∧ blockDim ≤ kReduceGradMaxAivBlockCount := by
  unfold resolveBlockDim at h
  obtain ⟨selected, -, h⟩ := bind_eq_some_iff.1 h
  obtain ⟨⟨-, hle, hge⟩, h⟩ := guard_bind h
  rw [← some.inj h]
  exact ⟨hge, by omega⟩

theorem buildReduceGradLayout_accepted {rank rankSize expertCount prefetchSlots : ℤ}
    {rowElements : ℕ → ℕ} {transportQpCount requestedChunkBytes : ℕ}
    {L : Layout} (h : buildReduceGradLayout rank rankSize expertCount prefetchSlots rowElements
      transportQpCount requestedChunkBytes env = some L) : L.Accepted := by
  unfold buildReduceGradLayout at h
  obtain ⟨⟨hR, -, hr, hrR, hE, hmod, hB, -⟩, h⟩ := guard_bind h
  obtain ⟨hrow, h⟩ := guard_bind h
  obtain ⟨blockDim, hblock, h⟩ := bind_eq_some_iff.1 h
  obtain ⟨⟨hlane, -⟩, h⟩ := guard_bind h
  obtain ⟨hsum, h⟩ := guard_bind h
  obtain ⟨-, h⟩ := guard_bind h
  obtain ⟨chunkBytes, hchunk, h⟩ := bind_eq_some_iff.1 h
  obtain ⟨-, h⟩ := guard_bind h
  obtain ⟨_, -, h⟩ := bind_eq_some_iff.1 h
  obtain ⟨_, -, h⟩ := bind_eq_some_iff.1 h
  obtain ⟨bankStride, hbank, h⟩ := bind_eq_some_iff.1 h
  obtain ⟨laneStride, hstride, h⟩ := bind_eq_some_iff.1 h
  obtain ⟨_, -, h⟩ := bind_eq_some_iff.1 h
  obtain ⟨_, -, h⟩ := bind_eq_some_iff.1 h
  obtain ⟨_, -, h⟩ := bind_eq_some_iff.1 h
  rw [← some.inj h]
  have hpos : 0 < if requestedChunkBytes = 0 then kReduceGradDefaultChunkBytes
      else requestedChunkBytes := by
    split
    · decide
    · exact Nat.pos_of_ne_zero ‹_›
  obtain ⟨hle, hdvd⟩ := alignUp_dvd hchunk (by decide)
  obtain ⟨hge, hle'⟩ := resolveBlockDim_bounds hblock
  have hexperts : expertCount.toNat = rankSize.toNat * (expertCount / rankSize).toNat := by
    have hdiv : rankSize * (expertCount / rankSize) = expertCount :=
      Int.mul_ediv_cancel' (Int.dvd_of_emod_eq_zero hmod)
    have hnonneg : 0 ≤ expertCount / rankSize := Int.ediv_nonneg hE.le (by omega)
    rw [← Int.toNat_mul (by omega) hnonneg, hdiv]
  exact
    { rankSize_ge := by dsimp only; omega
      rank_lt := by dsimp only; omega
      expertCount_eq := hexperts
      slotsPos := by dsimp only; omega
      rowPos := fun p hp => Nat.pos_of_ne_zero (hrow p hp).1
      rowBytes_eq := fun _ => rfl
      chunkPos := Nat.lt_of_lt_of_le hpos hle
      chunk_dvd := hdvd
      chunkCounts_eq := fun _ => rfl
      qpPos := allocateProjectionQps_pos _ _
      qpBase_eq := rfl
      qp_sum := hsum
      laneCount_ge := hlane
      blockDim_ge := hge
      blockDim_le := hle'
      bankStride_eq := checkedMul_eq hbank
      laneStride_eq := checkedMul_eq hstride }

end TileXR.ReduceGrad
