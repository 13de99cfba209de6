import TileXR.Checked
import TileXR.Lib.Regions
import TileXR.Lib.Word
import TileXR.Plan.Types

/-!
# Planner v2: the workspace of host and kernel

`BuildPlanWorkspaceLayout` of `ep_plan_layout.cpp` places the regions of the two workspaces with checked
arithmetic; `BuildMetaOffsets` and `BuildLocalOffsets` of the planner kernel compute the offsets again
with unchecked `uint64_t`, modelled by words that remember an overflow.
-/

namespace TileXR.Plan
open Option (bind_eq_some_iff)
open Lib
variable {cursor n : ℕ}

def kPlanMaxLogicalRankSize : ℤ := 512
def kPlanWorkspaceAlignment : ℕ := 64
def kPlanHeaderStrideBytes : ℕ := 128
def kPlanStatusStrideBytes : ℕ := 64
def kPlanBarrierSlotBytes : ℕ := 64
def kPlanMaxUdmaTransferBytes : ℕ := 0xFFFFFFFF
def sizeofInt32 : ℕ := 4
def sizeofTokenSegmentMove : ℕ := 24
def sizeofPlanEpochState : ℕ := 32

/-! ## The host -/

/-- `AlignUp` of the host -/
def planAlignUp (value alignment : ℕ) : Option ℕ :=
  if alignment = 0 then none
  else if value % alignment = 0 then some value
  else checkedAdd value (alignment - value % alignment)

/-- `AddRegion`: the region, a `PlanRegion`, and the new cursor. -/
def addRegion (bytes cursor : ℕ) : Option (Region × ℕ) := do
  let offset ← planAlignUp cursor kPlanWorkspaceAlignment
  let last ← checkedAdd offset bytes
  return (⟨offset, bytes⟩, last)

/-- `CountBytes` and `AddRegion`, as the two macros put them together. -/
def addCounted (count elementBytes cursor : ℕ) : Option (Region × ℕ) := do
  let bytes ← checkedMul count elementBytes
  addRegion bytes cursor

/-- `FinishLayout`; `size_t` has 64 bits. -/
def finishLayout (cursor : ℕ) : Option ℕ := planAlignUp cursor kPlanWorkspaceAlignment

structure PlanLocalWorkspaceLayout where
  expertCount : Region
  rankLoad : Region
  remainingTpe : Region
  alloc : Region
  remoteExpertSet : Region
  srcExpertCursor : Region
  dstExpertCursor : Region
  expertPhysicalBase : Region
  localExpertOrdinal : Region
  tokenSegments : Region
  routedPairTokens : Region
  scratchStatus : Region
  totalBytes : ℕ
  deriving Inhabited

structure PlanRegisteredMetaLayout where
  planCallHeaders : Region
  tpe : Region
  globalRankIds : Region
  epochState : Region
  affinityOrder : Region
  localStatusByRank : Region
  barrierFlags : Region
  totalBytes : ℕ
  deriving Inhabited

structure PlanWorkspaceLayout where
  localLayout : PlanLocalWorkspaceLayout
  registeredMeta : PlanRegisteredMetaLayout
  deriving Inhabited

/-- The counts a layout is built from. -/
structure PlanCounts where
  r : ℕ
  e : ℕ
  tokenCount : ℕ
  re : ℕ
  rb : ℕ
  rr : ℕ
  statusCount : ℕ

/-- The checks, and the products they compute. -/
def planCounts (rankSize s topK expertNum : ℤ) (config : PlanConfig) : Option PlanCounts := do
  guard (0 < rankSize ∧ rankSize ≤ kPlanMaxLogicalRankSize ∧ 0 < s ∧ 0 < topK ∧ topK ≤ 32 ∧
    0 < expertNum ∧ expertNum % rankSize = 0 ∧
    expertNum.toNat * sizeofInt32 % 2 ^ 64 ≤ kPlanMaxUdmaTransferBytes ∧
    0 < config.prefetchSlots ∧ config.prefetchSlots ≤ int32Max ∧ 0 < config.tokenPadding ∧
    config.cardsPerServer = kPlanCardsPerServer ∧ config.cardsPerCabinet = kPlanCardsPerCabinet ∧
    config.crossCandidateCount = kPlanCrossCandidateCount ∧ 0 < config.rankTokenCapacity ∧
    0 < config.nvS ∧ 0 ≤ config.tokenRouteLimitPerPair)
  let r := rankSize.toNat
  let e := expertNum.toNat
  let b := config.prefetchSlots.toNat
  let sk ← checkedMul s.toNat topK.toNat
  guard ((sk : ℤ) ≤ maxInt64 ∧ config.rankTokenCapacity = sk ∧ config.rankTokenCapacity ≤ config.nvS ∧
    config.tokenRouteLimitPerPair ≤ config.rankTokenCapacity)
  let rankSlots ← checkedMul r config.nvS.toNat
  guard (rankSlots ≤ int32Max)
  let re ← checkedMul r e
  let rb ← checkedMul r b
  let rr ← checkedMul r r
  let statusCount ← checkedMul r kPlanStatusWords
  return ⟨r, e, sk, re, rb, rr, statusCount⟩

/-- The region of the routed pairs, which is there only with a limit. -/
def addRouted (tokenRouteLimitPerPair : ℤ) (rr cursor : ℕ) : Option (Region × ℕ) :=
  if tokenRouteLimitPerPair ≠ 0 then addCounted rr sizeofInt32 cursor else some (⟨0, 0⟩, cursor)

def buildLocalLayout (c : PlanCounts) (tokenRouteLimitPerPair : ℤ) :
    Option PlanLocalWorkspaceLayout := do
  let (expertCount, cursor) ← addCounted c.e sizeofInt32 0
  let (rankLoad, cursor) ← addCounted c.r sizeofInt32 cursor
  let (remainingTpe, cursor) ← addCounted c.re sizeofInt32 cursor
  let (alloc, cursor) ← addCounted c.re sizeofInt32 cursor
  let (remoteExpertSet, cursor) ← addCounted c.rb sizeofInt32 cursor
  let (srcExpertCursor, cursor) ← addCounted c.re sizeofInt32 cursor
  let (dstExpertCursor, cursor) ← addCounted c.re sizeofInt32 cursor
  let (expertPhysicalBase, cursor) ← addCounted c.re sizeofInt32 cursor
  let (localExpertOrdinal, cursor) ← addCounted c.tokenCount sizeofInt32 cursor
  let (tokenSegments, cursor) ← addCounted c.tokenCount sizeofTokenSegmentMove cursor
  let (routedPairTokens, cursor) ← addRouted tokenRouteLimitPerPair c.rr cursor
  let (scratchStatus, cursor) ← addCounted (c.statusCount + c.r * 8) sizeofInt32 cursor
  let totalBytes ← finishLayout cursor
  return ⟨expertCount, rankLoad, remainingTpe, alloc, remoteExpertSet, srcExpertCursor, dstExpertCursor,
    expertPhysicalBase, localExpertOrdinal, tokenSegments, routedPairTokens, scratchStatus, totalBytes⟩

def buildMetaLayout (c : PlanCounts) : Option PlanRegisteredMetaLayout := do
  let (planCallHeaders, cursor) ← addCounted (c.r * kPlanHeaderStrideBytes) 1 0
  let (tpe, cursor) ← addCounted c.re sizeofInt32 cursor
  let (globalRankIds, cursor) ← addCounted c.r sizeofInt32 cursor
  let (epochState, cursor) ← addCounted 1 sizeofPlanEpochState cursor
  let (affinityOrder, cursor) ← addCounted c.rr sizeofInt32 cursor
  let (localStatusByRank, cursor) ← addCounted (c.r * kPlanStatusStrideBytes) 1 cursor
  let (barrierFlags, cursor) ← addCounted (c.r * 3 * kPlanBarrierSlotBytes) 1 cursor
  let totalBytes ← finishLayout cursor
  return ⟨planCallHeaders, tpe, globalRankIds, epochState, affinityOrder, localStatusByRank,
    barrierFlags, totalBytes⟩

/-- `BuildPlanWorkspaceLayout`, on what the caller's layout held. -/
def buildPlanWorkspaceLayout (rankSize s topK expertNum : ℤ) (config : PlanConfig)
    (layout : PlanWorkspaceLayout) : Bool × PlanWorkspaceLayout :=
  storeResult (do
    let c ← planCounts rankSize s topK expertNum config
    let localLayout ← buildLocalLayout c config.tokenRouteLimitPerPair
    let registeredMeta ← buildMetaLayout c
    return ⟨localLayout, registeredMeta⟩) layout

/-! ## The kernel -/

def toUint64 (x : ℤ) : Word := .exact (x % 2 ^ 64).toNat

/-- `AlignUp` of the kernel: `(value + kAlign - 1) & ~(kAlign - 1)` -/
def kernelAlignUp (value : Word) : Word :=
  (value + .exact kPlanWorkspaceAlignment - .exact 1) &&& .exact (2 ^ 64 - kPlanWorkspaceAlignment)

/-- `AddRegion` of the kernel: the offset and the new cursor. -/
def kernelAddRegion (cursor bytes : Word) : Word × Word :=
  (kernelAlignUp cursor, kernelAlignUp cursor + bytes)

structure MetaOffsets where
  headers : Word
  tpe : Word
  globalRankIds : Word
  epochState : Word
  affinityOrder : Word
  localStatus : Word
  barrierFlags : Word
  cursor : Word

def buildMetaOffsets (rankSize expertNum : ℤ) : MetaOffsets :=
  let r := toUint64 rankSize
  let e := toUint64 expertNum
  let (headers, cursor) := kernelAddRegion (.exact 0) (r * .exact kPlanHeaderStrideBytes)
  let (tpe, cursor) := kernelAddRegion cursor (r * e * .exact sizeofInt32)
  let (globalRankIds, cursor) := kernelAddRegion cursor (r * .exact sizeofInt32)
  let (epochState, cursor) := kernelAddRegion cursor (.exact sizeofPlanEpochState)
  let (affinityOrder, cursor) := kernelAddRegion cursor (r * r * .exact sizeofInt32)
  let (localStatus, cursor) := kernelAddRegion cursor (r * .exact kPlanStatusStrideBytes)
  let (barrierFlags, cursor) := kernelAddRegion cursor (r * .exact 3 * .exact kPlanBarrierSlotBytes)
  ⟨headers, tpe, globalRankIds, epochState, affinityOrder, localStatus, barrierFlags, cursor⟩

structure LocalOffsets where
  expertCount : Word
  rankLoad : Word
  remainingTpe : Word
  alloc : Word
  remoteExpertSet : Word
  srcExpertCursor : Word
  dstExpertCursor : Word
  expertPhysicalBase : Word
  localExpertOrdinal : Word
  tokenSegments : Word
  routedPairTokens : Word
  scratch : Word
  cursor : Word

def buildLocalOffsets (rankSize s topK expertNum prefetchSlots tokenRouteLimitPerPair : ℤ) :
    LocalOffsets :=
  let r := toUint64 rankSize
  let e := toUint64 expertNum
  let cap := toUint64 s * toUint64 topK
  let (expertCount, cursor) := kernelAddRegion (.exact 0) (e * .exact sizeofInt32)
  let (rankLoad, cursor) := kernelAddRegion cursor (r * .exact sizeofInt32)
  let (remainingTpe, cursor) := kernelAddRegion cursor (r * e * .exact sizeofInt32)
  let (alloc, cursor) := kernelAddRegion cursor (r * e * .exact sizeofInt32)
  let (remoteExpertSet, cursor) :=
    kernelAddRegion cursor (r * toUint64 prefetchSlots * .exact sizeofInt32)
  let (srcExpertCursor, cursor) := kernelAddRegion cursor (r * e * .exact sizeofInt32)
  let (dstExpertCursor, cursor) := kernelAddRegion cursor (r * e * .exact sizeofInt32)
  let (expertPhysicalBase, cursor) := kernelAddRegion cursor (r * e * .exact sizeofInt32)
  let (localExpertOrdinal, cursor) := kernelAddRegion cursor (cap * .exact sizeofInt32)
  let (tokenSegments, cursor) := kernelAddRegion cursor (cap * .exact sizeofTokenSegmentMove)
  let (routedPairTokens, cursor) :=
    if tokenRouteLimitPerPair = 0 then (.exact 0, cursor)
    else kernelAddRegion cursor (r * r * .exact sizeofInt32)
  let (scratch, cursor) := kernelAddRegion cursor (r * .exact 16 * .exact sizeofInt32)
  ⟨expertCount, rankLoad, remainingTpe, alloc, remoteExpertSet, srcExpertCursor, dstExpertCursor,
    expertPhysicalBase, localExpertOrdinal, tokenSegments, routedPairTokens, scratch, cursor⟩

/-! ## One region -/

theorem planAlignUp_eq {value alignment out : ℕ} (hv : value < 2 ^ 64) (ha : 0 < alignment)
    (h : planAlignUp value alignment = some out) : out = roundUp alignment value ∧ out < 2 ^ 64 := by
  rw [planAlignUp, if_neg ha.ne'] at h
  split_ifs at h with hmod
  · cases h
    exact ⟨(roundUp_of_dvd ha (Nat.dvd_of_mod_eq_zero hmod)).symm, hv⟩
  · obtain ⟨hlt, rfl⟩ := (checkedAdd_eq_some_iff hv).1 h
    exact ⟨(roundUp_eq_add ha hmod).symm, hlt⟩

theorem roundUp_lt (cursor : ℕ) : roundUp 64 cursor < cursor + 64 := by
  unfold roundUp
  omega

theorem kernelAlignUp_exact (h : cursor + 64 < 2 ^ 64) :
    kernelAlignUp (.exact cursor) = .exact (roundUp 64 cursor) := by
  rw [kernelAlignUp, kPlanWorkspaceAlignment, Word.exact_add h, Word.exact_sub h (by omega)]
  exact Word.exact_and_high (k := 6) (by decide) (by omega)

/-- The regions so far end below `n` times this bound. -/
def stepBytes : ℕ := 2 ^ 51

/-- A region of the host, and the same region in the kernel. -/
structure SameRegion (n cursor bytes : ℕ) (region : Region) (last : ℕ) : Prop where
  region_eq : region = ⟨roundUp 64 cursor, bytes⟩
  last_eq : last = roundUp 64 cursor + bytes
  bound : last ≤ (n + 1) * stepBytes
  kernel : kernelAddRegion (.exact cursor) (.exact bytes) = (.exact region.offset, .exact last)

theorem bind_sameRegion {β : Type*} {count elementBytes : ℕ} {f : Region × ℕ → Option β} {l : β}
    (h : (addCounted count elementBytes cursor).bind f = some l) (hn : n < 16) (hcursor : cursor ≤ n * stepBytes)
    (hbytes : count * elementBytes ≤ 2 ^ 50) :
    ∃ region last, SameRegion n cursor (count * elementBytes) region last ∧ f (region, last) = some l := by
  obtain ⟨⟨region, last⟩, hadd, h⟩ := bind_eq_some_iff.1 h
  refine ⟨region, last, ?_, h⟩
  have hup := roundUp_lt cursor
  have hle := le_roundUp (show 0 < 64 by decide) cursor
  have hmax : n * stepBytes ≤ 15 * stepBytes := Nat.mul_le_mul_right _ (by omega)
  have hstep : (n + 1) * stepBytes = n * stepBytes + stepBytes := Nat.succ_mul _ _
  unfold stepBytes at *
  obtain ⟨bytes, hb, hadd⟩ := bind_eq_some_iff.1 hadd
  obtain ⟨-, rfl⟩ := checkedMul_eq_some_iff.1 hb
  obtain ⟨offset, ho, hadd⟩ := bind_eq_some_iff.1 hadd
  obtain ⟨rfl, hlt⟩ := planAlignUp_eq (by omega) (by decide) ho
  obtain ⟨sum, hs, hadd⟩ := bind_eq_some_iff.1 hadd
  obtain ⟨hfit, rfl⟩ := (checkedAdd_eq_some_iff hlt).1 hs
  obtain ⟨rfl, rfl⟩ := Prod.mk.inj (Option.some.inj hadd)
  rw [kPlanWorkspaceAlignment] at *
  refine ⟨rfl, rfl, by unfold stepBytes; omega, ?_⟩
  rw [kernelAddRegion, kernelAlignUp_exact (by omega), Word.exact_add hfit]

theorem finishLayout_eq {total : ℕ} (h : finishLayout cursor = some total) (hn : n ≤ 16)
    (hcursor : cursor ≤ n * stepBytes) : total = roundUp 64 cursor ∧ total < 2 ^ 64 := by
  have hmax : n * stepBytes ≤ 16 * stepBytes := Nat.mul_le_mul_right _ hn
  unfold stepBytes at *
  exact planAlignUp_eq (by omega) (by decide) h

/-! ## The counts -/

/-- What is known of the counts a layout is built from. -/
structure PlanCounts.Of (c : PlanCounts) (rankSize s topK expertNum prefetchSlots : ℤ) : Prop where
  rankSize_eq : rankSize = c.r
  expertNum_eq : expertNum = c.e
  cap : toUint64 s * toUint64 topK = .exact c.tokenCount
  re : c.re = c.r * c.e
  rb : c.rb = c.r * prefetchSlots.toNat
  rr : c.rr = c.r * c.r
  statusCount : c.statusCount = c.r * 8
  r_le : c.r ≤ 512
  tokenCount_le : c.tokenCount ≤ int32Max
  expertBytes : c.e * 4 % 2 ^ 64 < 2 ^ 32
  prefetch : 0 ≤ prefetchSlots ∧ prefetchSlots ≤ int32Max

theorem toUint64_natCast (h : n < 2 ^ 64) : toUint64 n = .exact n := by
  rw [toUint64]
  congr 1
  omega

theorem planCounts_of {rankSize s topK expertNum : ℤ} {config : PlanConfig} {c : PlanCounts}
    (h : planCounts rankSize s topK expertNum config = some c) :
    c.Of rankSize s topK expertNum config.prefetchSlots := by
  obtain ⟨hshape, h⟩ := guard_bind h
  obtain ⟨sk, hsk, h⟩ := bind_eq_some_iff.1 h
  obtain ⟨hcap, h⟩ := guard_bind h
  obtain ⟨rankSlots, hslots, h⟩ := bind_eq_some_iff.1 h
  obtain ⟨hmax, h⟩ := guard_bind h
  obtain ⟨re, hre, h⟩ := bind_eq_some_iff.1 h
  obtain ⟨rb, hrb, h⟩ := bind_eq_some_iff.1 h
  obtain ⟨rr, hrr, h⟩ := bind_eq_some_iff.1 h
  obtain ⟨statusCount, hstatus, h⟩ := bind_eq_some_iff.1 h
  obtain rfl := Option.some.inj h
  rw [checkedMul_eq_some_iff] at hsk hslots hre hrb hrr hstatus
  obtain ⟨hR, hRmax, hs, hk, -, hE, -, hbytes, hb, hbmax, -⟩ := hshape
  -- a rank has at least `s * topK` slots, so the token count is below the bound of all slots
  have hsk_le : sk ≤ rankSlots := by
    have hnvS : sk ≤ config.nvS.toNat := by omega
    have : 1 * config.nvS.toNat ≤ rankSize.toNat * config.nvS.toNat := Nat.mul_le_mul_right _ (by omega)
    omega
  have hs_le : s.toNat ≤ sk := by
    rw [hsk.2]
    exact Nat.le_mul_of_pos_right _ (by omega)
  have hk_le : topK.toNat ≤ sk := by
    rw [hsk.2]
    exact Nat.le_mul_of_pos_left _ (by omega)
  have hint : int32Max < 2 ^ 31 := by decide
  refine ⟨(Int.toNat_of_nonneg hR.le).symm, (Int.toNat_of_nonneg hE.le).symm, ?_, hre.2, hrb.2, hrr.2,
    hstatus.2, ?_, hsk_le.trans hmax, ?_, hb.le, hbmax⟩
  · rw [← Int.toNat_of_nonneg hs.le, ← Int.toNat_of_nonneg hk.le, toUint64_natCast (by omega),
      toUint64_natCast (by omega), Word.exact_mul (by omega), hsk.2]
  · rw [kPlanMaxLogicalRankSize] at hRmax
    dsimp only
    omega
  · rw [sizeofInt32, kPlanMaxUdmaTransferBytes] at hbytes
    dsimp only
    omega

/-! ## Host and kernel -/

def PlanLocalWorkspaceLayout.regions (l : PlanLocalWorkspaceLayout) : List Region :=
  [l.expertCount, l.rankLoad, l.remainingTpe, l.alloc, l.remoteExpertSet, l.srcExpertCursor,
    l.dstExpertCursor, l.expertPhysicalBase, l.localExpertOrdinal, l.tokenSegments, l.routedPairTokens,
    l.scratchStatus]

def PlanRegisteredMetaLayout.regions (l : PlanRegisteredMetaLayout) : List Region :=
  [l.planCallHeaders, l.tpe, l.globalRankIds, l.epochState, l.affinityOrder, l.localStatusByRank,
    l.barrierFlags]

def LocalOffsets.offsets (o : LocalOffsets) : List Word :=
  [o.expertCount, o.rankLoad, o.remainingTpe, o.alloc, o.remoteExpertSet, o.srcExpertCursor,
    o.dstExpertCursor, o.expertPhysicalBase, o.localExpertOrdinal, o.tokenSegments, o.routedPairTokens,
    o.scratch]

def MetaOffsets.offsets (o : MetaOffsets) : List Word :=
  [o.headers, o.tpe, o.globalRankIds, o.epochState, o.affinityOrder, o.localStatus, o.barrierFlags]

section Layouts
variable {c : PlanCounts} {rankSize s topK expertNum prefetchSlots : ℤ}
  (hc : c.Of rankSize s topK expertNum prefetchSlots)
include hc

theorem PlanCounts.Of.products (he : c.e * 4 < 2 ^ 64) :
    toUint64 rankSize = .exact c.r ∧ toUint64 expertNum = .exact c.e ∧
    Word.exact c.r * Word.exact c.e = .exact c.re ∧ Word.exact c.r * toUint64 prefetchSlots = .exact c.rb ∧
    Word.exact c.r * Word.exact c.r = .exact c.rr ∧ c.re * 4 ≤ 2 ^ 50 ∧ c.rb * 4 ≤ 2 ^ 50 ∧ c.rr * 4 ≤ 2 ^ 50 := by
  have hr := hc.r_le
  have hbytes := hc.expertBytes
  have hb := hc.prefetch
  have hint : int32Max < 2 ^ 31 := by decide
  have he32 : c.e < 2 ^ 30 := by omega
  have hb32 : prefetchSlots.toNat < 2 ^ 31 := by omega
  have hre : c.re ≤ 512 * 2 ^ 30 := hc.re ▸ Nat.mul_le_mul hr he32.le
  have hrb : c.rb ≤ 512 * 2 ^ 31 := hc.rb ▸ Nat.mul_le_mul hr hb32.le
  have hrr : c.rr ≤ 512 * 512 := hc.rr ▸ Nat.mul_le_mul hr hr
  refine ⟨?_, ?_, ?_, ?_, ?_, by omega, by omega, by omega⟩
  · rw [hc.rankSize_eq, toUint64_natCast (by omega)]
  · rw [hc.expertNum_eq, toUint64_natCast (by omega)]
  · rw [Word.exact_mul (by rw [← hc.re]; omega), hc.re]
  · rw [← Int.toNat_of_nonneg hb.1, toUint64_natCast (by omega),
      Word.exact_mul (by rw [← hc.rb]; omega), hc.rb]
  · rw [Word.exact_mul (by rw [← hc.rr]; omega), hc.rr]

theorem buildMetaLayout_agrees {l : PlanRegisteredMetaLayout} (he : c.e * 4 < 2 ^ 64)
    (h : buildMetaLayout c = some l) :
    (buildMetaOffsets rankSize expertNum).offsets = l.regions.map (fun r => .exact r.offset) ∧
      (buildMetaOffsets rankSize expertNum).cursor.wrapped = false ∧ RegionsOk 64 l.regions l.totalBytes := by
  obtain ⟨hR, hE, hre, -, hrr, hre_le, -, hrr_le⟩ := hc.products he
  have hr := hc.r_le
  unfold buildMetaLayout kPlanHeaderStrideBytes kPlanStatusStrideBytes kPlanBarrierSlotBytes sizeofInt32
    sizeofPlanEpochState at h
  obtain ⟨r1, c1, s1, h⟩ := bind_sameRegion (n := 0) h (by decide) (by decide) (by omega)
  obtain ⟨r2, c2, s2, h⟩ := bind_sameRegion h (by decide) s1.bound (by omega)
  obtain ⟨r3, c3, s3, h⟩ := bind_sameRegion h (by decide) s2.bound (by omega)
  obtain ⟨r4, c4, s4, h⟩ := bind_sameRegion h (by decide) s3.bound (by omega)
  obtain ⟨r5, c5, s5, h⟩ := bind_sameRegion h (by decide) s4.bound (by omega)
  obtain ⟨r6, c6, s6, h⟩ := bind_sameRegion h (by decide) s5.bound (by omega)
  obtain ⟨r7, c7, s7, h⟩ := bind_sameRegion h (by decide) s6.bound (by omega)
  obtain ⟨total, ht, h⟩ := bind_eq_some_iff.1 h
  obtain rfl := Option.some.inj h
  obtain ⟨htotal, hlt⟩ := finishLayout_eq ht (by decide) s7.bound
  simp only [Nat.mul_one, Nat.one_mul] at s1 s2 s3 s4 s5 s6 s7
  have hkernel : buildMetaOffsets rankSize expertNum =
      ⟨.exact r1.offset, .exact r2.offset, .exact r3.offset, .exact r4.offset, .exact r5.offset,
        .exact r6.offset, .exact r7.offset, .exact c7⟩ := by
    simp only [buildMetaOffsets, kPlanHeaderStrideBytes, kPlanStatusStrideBytes, kPlanBarrierSlotBytes,
      sizeofInt32, sizeofPlanEpochState, hR, hE, hre, hrr]
    rw [Word.exact_mul (by omega), Word.exact_mul (by omega), Word.exact_mul (by omega),
      Word.exact_mul (by omega), Word.exact_mul (by omega), Word.exact_mul (by omega),
      Word.exact_mul (by omega)]
    simp only [s1.kernel, s2.kernel, s3.kernel, s4.kernel, s5.kernel, s6.kernel, s7.kernel]
  have hplace : place 64 0 [c.r * 128, c.re * 4, c.r * 4, 32, c.rr * 4, c.r * 64, c.r * 3 * 64] =
      ([r1, r2, r3, r4, r5, r6, r7], c7) := by
    rw [s7.region_eq, s7.last_eq, s6.region_eq, s6.last_eq, s5.region_eq, s5.last_eq, s4.region_eq,
      s4.last_eq, s3.region_eq, s3.last_eq, s2.region_eq, s2.last_eq, s1.region_eq, s1.last_eq]
    rfl
  rw [hkernel]
  exact ⟨rfl, rfl, regionsOk_of_place (by decide) hplace (htotal ▸ le_roundUp (by decide) _) hlt⟩

theorem buildLocalLayout_agrees {l : PlanLocalWorkspaceLayout} {limit : ℤ}
    (h : buildLocalLayout c limit = some l) : c.e * 4 < 2 ^ 64 ∧
      (buildLocalOffsets rankSize s topK expertNum prefetchSlots limit).offsets =
        l.regions.map (fun r => .exact r.offset) ∧
      (buildLocalOffsets rankSize s topK expertNum prefetchSlots limit).cursor.wrapped = false ∧
      RegionsOk 64 l.regions l.totalBytes := by
  unfold buildLocalLayout sizeofInt32 sizeofTokenSegmentMove at h
  have he : c.e * 4 < 2 ^ 64 := by
    obtain ⟨_, h1, -⟩ := bind_eq_some_iff.1 h
    obtain ⟨bytes, hb, -⟩ := bind_eq_some_iff.1 h1
    exact (checkedMul_eq_some_iff.1 hb).1
  obtain ⟨hR, hE, hre, hrb, hrr, hre_le, hrb_le, hrr_le⟩ := hc.products he
  have hr := hc.r_le
  have hbytes := hc.expertBytes
  have htokens := hc.tokenCount_le
  have hint : int32Max < 2 ^ 31 := by decide
  have hstatus := hc.statusCount
  obtain ⟨r1, c1, s1, h⟩ := bind_sameRegion (n := 0) h (by decide) (by decide) (by omega)
  obtain ⟨r2, c2, s2, h⟩ := bind_sameRegion h (by decide) s1.bound (by omega)
  obtain ⟨r3, c3, s3, h⟩ := bind_sameRegion h (by decide) s2.bound (by omega)
  obtain ⟨r4, c4, s4, h⟩ := bind_sameRegion h (by decide) s3.bound (by omega)
  obtain ⟨r5, c5, s5, h⟩ := bind_sameRegion h (by decide) s4.bound (by omega)
  obtain ⟨r6, c6, s6, h⟩ := bind_sameRegion h (by decide) s5.bound (by omega)
  obtain ⟨r7, c7, s7, h⟩ := bind_sameRegion h (by decide) s6.bound (by omega)
  obtain ⟨r8, c8, s8, h⟩ := bind_sameRegion h (by decide) s7.bound (by omega)
  obtain ⟨r9, c9, s9, h⟩ := bind_sameRegion h (by decide) s8.bound (by omega)
  obtain ⟨r10, c10, s10, h⟩ := bind_sameRegion h (by decide) s9.bound (by omega)
  have hscratch : (c.statusCount + c.r * 8) * 4 = c.r * 16 * 4 := by omega
  have hfront : place 64 0 [c.e * 4, c.r * 4, c.re * 4, c.re * 4, c.rb * 4, c.re * 4, c.re * 4, c.re * 4,
      c.tokenCount * 4, c.tokenCount * 24] = ([r1, r2, r3, r4, r5, r6, r7, r8, r9, r10], c10) := by
    rw [s10.region_eq, s10.last_eq, s9.region_eq, s9.last_eq, s8.region_eq, s8.last_eq, s7.region_eq,
      s7.last_eq, s6.region_eq, s6.last_eq, s5.region_eq, s5.last_eq, s4.region_eq, s4.last_eq,
      s3.region_eq, s3.last_eq, s2.region_eq, s2.last_eq, s1.region_eq, s1.last_eq]
    rfl
  have hkernel : ∀ {routed : Word} {n c11 c12 : ℕ} {r12 : Region},
      (if limit = 0 then (Word.exact 0, Word.exact c10)
        else kernelAddRegion (.exact c10) (.exact (c.rr * 4))) = (routed, .exact c11) →
      SameRegion n c11 ((c.statusCount + c.r * 8) * 4) r12 c12 →
      buildLocalOffsets rankSize s topK expertNum prefetchSlots limit =
        ⟨.exact r1.offset, .exact r2.offset, .exact r3.offset, .exact r4.offset, .exact r5.offset,
          .exact r6.offset, .exact r7.offset, .exact r8.offset, .exact r9.offset, .exact r10.offset,
          routed, .exact r12.offset, .exact c12⟩ := by
    intro routed n c11 c12 r12 hrouted s12
    have hmul : ∀ {a b : ℕ}, a * b < 2 ^ 64 → Word.exact a * .exact b = .exact (a * b) := Word.exact_mul
    simp only [buildLocalOffsets, sizeofInt32, sizeofTokenSegmentMove, hR, hE, hre, hrb, hrr, hc.cap,
      hmul (show c.e * 4 < 2 ^ 64 from he), hmul (show c.r * 4 < 2 ^ 64 by omega),
      hmul (show c.re * 4 < 2 ^ 64 by omega), hmul (show c.rb * 4 < 2 ^ 64 by omega),
      hmul (show c.tokenCount * 4 < 2 ^ 64 by omega), hmul (show c.tokenCount * 24 < 2 ^ 64 by omega),
      hmul (show c.rr * 4 < 2 ^ 64 by omega), hmul (show c.r * 16 < 2 ^ 64 by omega),
      hmul (show c.r * 16 * 4 < 2 ^ 64 by omega), s1.kernel, s2.kernel, s3.kernel, s4.kernel, s5.kernel,
      s6.kernel, s7.kernel, s8.kernel, s9.kernel, s10.kernel, hrouted, ← hscratch, s12.kernel]
  unfold addRouted sizeofInt32 at h
  dsimp only at h
  by_cases hlimit : limit = 0
  · -- no limit, no region: the last region follows the token segments
    rw [if_neg (not_not.2 hlimit)] at h
    obtain ⟨_, h11, h⟩ := bind_eq_some_iff.1 h
    cases h11
    obtain ⟨r12, c12, s12, h⟩ := bind_sameRegion h (by decide) s10.bound (by omega)
    obtain ⟨total, ht, h⟩ := bind_eq_some_iff.1 h
    obtain rfl := Option.some.inj h
    obtain ⟨htotal, hlt⟩ := finishLayout_eq ht (by decide) s12.bound
    rw [hkernel (if_pos hlimit) s12]
    refine ⟨he, rfl, rfl, ?_⟩
    refine @regionsOk_insert 64 [r1, r2, r3, r4, r5, r6, r7, r8, r9, r10] [r12] _ ?_
    refine @regionsOk_of_place 64 ([c.e * 4, c.r * 4, c.re * 4, c.re * 4, c.rb * 4, c.re * 4, c.re * 4,
      c.re * 4, c.tokenCount * 4, c.tokenCount * 24] ++ [(c.statusCount + c.r * 8) * 4])
      _ 0 _ _ (by decide) ?_ (htotal ▸ le_roundUp (by decide) _) hlt
    rw [place_append, hfront, s12.region_eq, s12.last_eq]
    rfl
  · rw [if_pos hlimit] at h
    obtain ⟨r11, c11, s11, h⟩ := bind_sameRegion h (by decide) s10.bound (by omega)
    obtain ⟨r12, c12, s12, h⟩ := bind_sameRegion h (by decide) s11.bound (by omega)
    obtain ⟨total, ht, h⟩ := bind_eq_some_iff.1 h
    obtain rfl := Option.some.inj h
    obtain ⟨htotal, hlt⟩ := finishLayout_eq ht (by decide) s12.bound
    rw [hkernel ((if_neg hlimit).trans s11.kernel) s12]
    refine ⟨he, rfl, rfl, ?_⟩
    refine @regionsOk_of_place 64 ([c.e * 4, c.r * 4, c.re * 4, c.re * 4, c.rb * 4, c.re * 4, c.re * 4, c.re * 4,
      c.tokenCount * 4, c.tokenCount * 24] ++ [c.rr * 4, (c.statusCount + c.r * 8) * 4])
      _ 0 _ _ (by decide) ?_ (htotal ▸ le_roundUp (by decide) _) hlt
    rw [place_append, hfront, s12.region_eq, s12.last_eq, s11.region_eq, s11.last_eq]
    rfl

end Layouts

/-- Every accepted configuration: the kernel's offsets are the host's, computed without a wrap, and the
regions are aligned, apart and inside the sizes the host returns. A rejected one leaves the caller's
layout as it was. -/
theorem buildPlanWorkspaceLayout_agrees (rankSize s topK expertNum : ℤ) (config : PlanConfig)
    (caller layout : PlanWorkspaceLayout) :
    (buildPlanWorkspaceLayout rankSize s topK expertNum config caller = (true, layout) →
      ((buildLocalOffsets rankSize s topK expertNum config.prefetchSlots
          config.tokenRouteLimitPerPair).offsets =
          layout.localLayout.regions.map (fun r => .exact r.offset) ∧
        (buildLocalOffsets rankSize s topK expertNum config.prefetchSlots
          config.tokenRouteLimitPerPair).cursor.wrapped = false ∧
        RegionsOk 64 layout.localLayout.regions layout.localLayout.totalBytes) ∧
      ((buildMetaOffsets rankSize expertNum).offsets =
          layout.registeredMeta.regions.map (fun r => .exact r.offset) ∧
        (buildMetaOffsets rankSize expertNum).cursor.wrapped = false ∧
        RegionsOk 64 layout.registeredMeta.regions layout.registeredMeta.totalBytes)) ∧
    (buildPlanWorkspaceLayout rankSize s topK expertNum config caller = (false, layout) →
      layout = caller) := by
  refine ⟨fun h => ?_, fun h => storeResult_false h⟩
  obtain ⟨c, hc, h⟩ := Option.bind_eq_some_iff.1 (storeResult_true h)
  obtain ⟨l, hl, h⟩ := Option.bind_eq_some_iff.1 h
  obtain ⟨m, hm, h⟩ := Option.bind_eq_some_iff.1 h
  obtain rfl := Option.some.inj h
  obtain ⟨he, hlocal⟩ := buildLocalLayout_agrees (planCounts_of hc) hl
  exact ⟨hlocal, buildMetaLayout_agrees (planCounts_of hc) he hm⟩

theorem planLayout_accepted :
    ∃ layout, buildPlanWorkspaceLayout 8 8 2 16 ⟨2, 16, 16, 1, 0, 8, 64, 3⟩ default = (true, layout) ∧
      RegionsOk 64 layout.localLayout.regions layout.localLayout.totalBytes :=
  ⟨_, rfl, ((buildPlanWorkspaceLayout_agrees 8 8 2 16 ⟨2, 16, 16, 1, 0, 8, 64, 3⟩ default _).1
    rfl).1.2.2⟩

end TileXR.Plan
