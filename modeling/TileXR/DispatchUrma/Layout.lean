import TileXR.Checked
import TileXR.DispatchUrma.Schedule
import TileXR.Lib.Regions
import TileXR.Plan.Types

/-!
# The workspace of the URMA dispatch

`dispatch_layout.cpp`. `TileXRMoonEpBuildDispatchUrmaLayout` places the data regions of the shape from
the start of the workspace on, rounds the size to the registration alignment and moves the common tail
(flags, credits, signals and records) to the end. `TileXRMoonEpBindDispatchUrmaWorkspace` moves the tail
to the end of a larger workspace. Unchecked `uint64_t` sums and differences are taken modulo `2^64`.
-/

namespace TileXR.DispatchUrma
open Option
open Option (bind_eq_some_iff)
open Lib Plan

def TILEXR_MAX_RANK_SIZE : ℤ := 128
def kDispatchQpCount : ℕ := 2
def kDispatchMaxDesignRankCount : ℕ := 512
def kDispatchScratchBufferCount : ℕ := 2
def kDispatchInternalAlignmentBytes : ℕ := 64
def kDispatchRegistrationAlignmentBytes : ℕ := 2 * 1024 * 1024
def kDispatchSignalStrideBytes : ℕ := 64
/-- `DISPATCH_CREDIT_IPC_BYTES`: two planes of 128 ranks with 512 bytes each. -/
def kDispatchCreditBytes : ℕ := 2 * (128 * 512)
def kDispatchCreditMaxGroupCount : ℕ := 16
def kDispatchCreditSourceStrideBytes : ℕ := 64
def kDispatchCreditSourceBytes : ℕ :=
  kDispatchAivCoreCount * kDispatchCreditMaxGroupCount * kDispatchCreditSourceStrideBytes
def sizeofDispatchProfileRecord : ℕ := 256
def sizeofDispatchDfxRecord : ℕ := 128
def sizeofDispatchKernelStatus : ℕ := 64
def maxInt64 : ℕ := 2 ^ 63 - 1

def add64 (a b : ℕ) : ℕ := (a + b) % 2 ^ 64

def sub64 (a b : ℕ) : ℕ := (a + 2 ^ 64 - b) % 2 ^ 64

theorem sub64_eq {a b : ℕ} (h : b ≤ a) (ha : a < 2 ^ 64) : sub64 a b = a - b := by
  unfold sub64
  omega

def dispatchUrmaAlignUp (value alignment : ℕ) : ℕ :=
  if alignment = 0 ∨ value > uint64Max - (alignment - 1) then uint64Max
  else sub64 (add64 value alignment) 1 / alignment * alignment

def appendBytes (bytes cursor : ℕ) : Option (ℕ × ℕ) := do
  let aligned := dispatchUrmaAlignUp cursor kDispatchInternalAlignmentBytes
  guard (aligned ≠ uint64Max)
  let last ← checkedAdd aligned bytes
  return (aligned, last)

structure DispatchUrmaActiveLayout where
  rowBytes : ℕ
  sourceOffset : ℕ
  sourceBytes : ℕ
  scratchOffset : ℕ
  scratchSlotBytes : ℕ
  scratchBytes : ℕ
  activeDataBytes : ℕ
  deriving DecidableEq, Inhabited

/-- `BuildActiveLayout`: the layout and the new cursor. -/
def buildActiveLayout (sourceRows destinationCapacity rowBytes cursor : ℕ) :
    Option (DispatchUrmaActiveLayout × ℕ) := do
  guard (sourceRows ≠ 0 ∧ destinationCapacity ≠ 0 ∧ rowBytes ≠ 0)
  let sourceBytes ← checkedMul sourceRows rowBytes
  let (sourceOffset, mid) ← appendBytes sourceBytes cursor
  let scratchSlotBytes ← checkedMul destinationCapacity rowBytes
  let scratchBytes ← checkedMul scratchSlotBytes kDispatchScratchBufferCount
  let (scratchOffset, last) ← appendBytes scratchBytes mid
  return (⟨rowBytes, sourceOffset, sourceBytes, scratchOffset, scratchSlotBytes, scratchBytes,
    sub64 last cursor⟩, last)

/-- The fields of `MoonEpDispatchUrmaLayout` for the regions of the common tail. -/
structure DispatchUrmaCommonLayout where
  commonOffset : ℕ
  completionFlagsOffset : ℕ
  completionFlagsBytes : ℕ
  creditOffset : ℕ
  creditBytes : ℕ
  creditSourceOffset : ℕ
  creditSourceBytes : ℕ
  signalOffset : ℕ
  signalBytes : ℕ
  hiddenProfileOffset : ℕ
  weightProfileOffset : ℕ
  profileBytes : ℕ
  hiddenDfxOffset : ℕ
  weightDfxOffset : ℕ
  dfxBytes : ℕ
  kernelStatusOffset : ℕ
  kernelStatusBytes : ℕ
  deriving DecidableEq, Inhabited

structure MoonEpDispatchUrmaLayout where
  rankSize : ℤ
  s : ℤ
  k : ℤ
  h : ℤ
  routeCount : ℤ
  destinationCapacity : ℤ
  hidden : DispatchUrmaActiveLayout
  weight : DispatchUrmaActiveLayout
  common : DispatchUrmaCommonLayout
  requiredBytes : ℕ
  totalBytes : ℕ
  deriving DecidableEq, Inhabited

variable {a : DispatchUrmaActiveLayout} {c : DispatchUrmaCommonLayout} {l l' : MoonEpDispatchUrmaLayout}
  {cursor last nextCommonOffset : ℕ} {destinationCapacity h k rankSize s : ℤ}

/-- The common tail behind the data, from its aligned offset on, and the new cursor. -/
def appendCommon (commonOffset : ℕ) : Option (DispatchUrmaCommonLayout × ℕ) := do
  guard (commonOffset ≠ uint64Max)
  let completionFlagsBytes ← checkedMul (kDispatchMaxDesignRankCount * kDispatchQpCount) 8
  let (completionFlagsOffset, cursor) ← appendBytes completionFlagsBytes commonOffset
  let (creditOffset, cursor) ← appendBytes kDispatchCreditBytes cursor
  let (creditSourceOffset, cursor) ← appendBytes kDispatchCreditSourceBytes cursor
  let signalBytes ← checkedMul kDispatchAivCoreCount kDispatchSignalStrideBytes
  let (signalOffset, cursor) ← appendBytes signalBytes cursor
  let profileBytes ← checkedMul kDispatchAivCoreCount sizeofDispatchProfileRecord
  let (hiddenProfileOffset, cursor) ← appendBytes profileBytes cursor
  let (weightProfileOffset, cursor) ← appendBytes profileBytes cursor
  let dfxBytes ← checkedMul kDispatchAivCoreCount sizeofDispatchDfxRecord
  let (hiddenDfxOffset, cursor) ← appendBytes dfxBytes cursor
  let (weightDfxOffset, cursor) ← appendBytes dfxBytes cursor
  let (kernelStatusOffset, cursor) ← appendBytes sizeofDispatchKernelStatus cursor
  return (⟨commonOffset, completionFlagsOffset, completionFlagsBytes, creditOffset, kDispatchCreditBytes,
    creditSourceOffset, kDispatchCreditSourceBytes, signalOffset, signalBytes, hiddenProfileOffset,
    weightProfileOffset, profileBytes, hiddenDfxOffset, weightDfxOffset, dfxBytes, kernelStatusOffset,
    sizeofDispatchKernelStatus⟩, cursor)

/-- Both functions move the tail to a new offset by adding the difference to each of its offsets. -/
def DispatchUrmaCommonLayout.moveTo (c : DispatchUrmaCommonLayout) (nextCommonOffset : ℕ) :
    DispatchUrmaCommonLayout :=
  let shift := sub64 nextCommonOffset c.commonOffset
  { c with
    commonOffset := nextCommonOffset
    completionFlagsOffset := add64 c.completionFlagsOffset shift
    creditOffset := add64 c.creditOffset shift
    creditSourceOffset := add64 c.creditSourceOffset shift
    signalOffset := add64 c.signalOffset shift
    hiddenProfileOffset := add64 c.hiddenProfileOffset shift
    weightProfileOffset := add64 c.weightProfileOffset shift
    hiddenDfxOffset := add64 c.hiddenDfxOffset shift
    weightDfxOffset := add64 c.weightDfxOffset shift
    kernelStatusOffset := add64 c.kernelStatusOffset shift }

/-- What `TileXRMoonEpBuildDispatchUrmaLayout` accepts: the route count and the bytes of a hidden row. -/
def dispatchShape (rankSize s k h destinationCapacity : ℤ) : Option (ℕ × ℕ) := do
  guard (0 < rankSize ∧ rankSize ≤ TILEXR_MAX_RANK_SIZE ∧ 0 < s ∧ 0 < k ∧ 0 < h ∧
    0 < destinationCapacity)
  let routeCount ← checkedMul s.toNat k.toNat
  guard (routeCount ≠ 0 ∧ routeCount ≤ maxInt64 ∧ routeCount ≤ destinationCapacity.toNat ∧
    destinationCapacity.toNat ≤ uint32Max)
  let hiddenRowBytes ← checkedMul h.toNat 2
  guard (hiddenRowBytes ≠ 0 ∧ hiddenRowBytes ≤ uint32Max)
  let encodedCapacity ← checkedMul rankSize.toNat destinationCapacity.toNat
  guard (encodedCapacity ≤ int32Max + 1)
  return (routeCount, hiddenRowBytes)

/-- `TileXRMoonEpBuildDispatchUrmaLayout`, on what the caller's layout held; `size_t` has 64 bits. -/
def buildDispatchUrmaLayout (rankSize s k h destinationCapacity : ℤ) (out : MoonEpDispatchUrmaLayout) :
    Bool × MoonEpDispatchUrmaLayout :=
  storeResult (do
    let (routeCount, hiddenRowBytes) ← dispatchShape rankSize s k h destinationCapacity
    let (hidden, cursor) ← buildActiveLayout s.toNat destinationCapacity.toNat hiddenRowBytes 0
    let (weight, cursor) ← buildActiveLayout routeCount destinationCapacity.toNat 4 cursor
    let (common, cursor) ← appendCommon (dispatchUrmaAlignUp cursor kDispatchInternalAlignmentBytes)
    let totalBytes := dispatchUrmaAlignUp cursor kDispatchRegistrationAlignmentBytes
    guard (totalBytes ≠ uint64Max)
    let commonBytes := sub64 cursor common.commonOffset
    return ⟨rankSize, s, k, h, routeCount, destinationCapacity, hidden, weight,
      common.moveTo (sub64 totalBytes commonBytes), cursor, totalBytes⟩) out

/-- `TileXRMoonEpBindDispatchUrmaWorkspace`, on the caller's layout. -/
def bindDispatchUrmaWorkspace (workspaceBytes : ℕ) (layout : MoonEpDispatchUrmaLayout) :
    Bool × MoonEpDispatchUrmaLayout :=
  storeResult (do
    guard (workspaceBytes ≠ 0 ∧ workspaceBytes % kDispatchRegistrationAlignmentBytes = 0 ∧
      layout.totalBytes ≠ 0 ∧ layout.totalBytes ≤ workspaceBytes)
    let commonBytes := sub64 layout.totalBytes layout.common.commonOffset
    let nextCommonOffset := sub64 workspaceBytes commonBytes
    guard (layout.common.commonOffset ≤ nextCommonOffset)
    return { layout with common := layout.common.moveTo nextCommonOffset, totalBytes := workspaceBytes })
    layout

/-! ## The regions -/

/-- The source and both halves of the scratch. -/
def DispatchUrmaActiveLayout.regions (a : DispatchUrmaActiveLayout) : List Region :=
  [⟨a.sourceOffset, a.sourceBytes⟩, ⟨a.scratchOffset, a.scratchBytes⟩]

/-- The half that calls of one parity of `magic` use. -/
def DispatchUrmaActiveLayout.scratchHalf (a : DispatchUrmaActiveLayout) (scratchIndex : ℕ) : Region :=
  ⟨a.scratchOffset + scratchIndex * a.scratchSlotBytes, a.scratchSlotBytes⟩

def DispatchUrmaCommonLayout.regions (c : DispatchUrmaCommonLayout) : List Region :=
  [⟨c.completionFlagsOffset, c.completionFlagsBytes⟩, ⟨c.creditOffset, c.creditBytes⟩,
    ⟨c.creditSourceOffset, c.creditSourceBytes⟩, ⟨c.signalOffset, c.signalBytes⟩,
    ⟨c.hiddenProfileOffset, c.profileBytes⟩, ⟨c.weightProfileOffset, c.profileBytes⟩,
    ⟨c.hiddenDfxOffset, c.dfxBytes⟩, ⟨c.weightDfxOffset, c.dfxBytes⟩,
    ⟨c.kernelStatusOffset, c.kernelStatusBytes⟩]

def MoonEpDispatchUrmaLayout.dataRegions (l : MoonEpDispatchUrmaLayout) : List Region :=
  l.hidden.regions ++ l.weight.regions

def MoonEpDispatchUrmaLayout.regions (l : MoonEpDispatchUrmaLayout) : List Region :=
  l.dataRegions ++ l.common.regions

/-- The sizes of the regions of the tail: they depend on nothing. -/
def commonSizes : List ℕ := [8192, 131072, 65536, 4096, 16384, 16384, 8192, 8192, 64]

def commonBytes : ℕ := 258112

def tailRegions (workspaceBytes : ℕ) : List Region :=
  (place 64 (workspaceBytes - commonBytes) commonSizes).1

def shapeRegions (s k h destinationCapacity : ℕ) : List Region :=
  (place 64 0 [s * (h * 2), destinationCapacity * (h * 2) * 2, s * k * 4, destinationCapacity * 4 * 2]).1

theorem place_common {offset : ℕ} (h : 64 ∣ offset) :
    place 64 offset commonSizes = ((place 64 0 commonSizes).1.map (·.shift offset), commonBytes + offset) := by
  have := place_add (show 0 < 64 by decide) h 0 commonSizes
  rwa [Nat.zero_add] at this

/-! ## Placing -/

theorem dispatchUrmaAlignUp_eq {value alignment : ℕ} (hv : value < 2 ^ 64) (ha : 0 < alignment)
    (hmax : alignment < 2 ^ 64) (h : dispatchUrmaAlignUp value alignment ≠ uint64Max) :
    dispatchUrmaAlignUp value alignment = roundUp alignment value ∧ roundUp alignment value < 2 ^ 64 := by
  unfold dispatchUrmaAlignUp at *
  split_ifs at h ⊢ with hbig
  · exact absurd rfl h
  · rw [uint64Max] at *
    -- the sum is `2^64` at most, where it wraps to 0 and the decrement wraps back
    have hsum : sub64 (add64 value alignment) 1 = value + alignment - 1 := by
      unfold sub64 add64
      omega
    rw [hsum]
    refine ⟨rfl, ?_⟩
    have := Nat.div_mul_le_self (value + alignment - 1) alignment
    unfold roundUp
    omega

theorem appendBytes_eq {bytes offset : ℕ} (hc : cursor < 2 ^ 64)
    (h : appendBytes bytes cursor = some (offset, last)) :
    offset = roundUp 64 cursor ∧ last = roundUp 64 cursor + bytes ∧ last < 2 ^ 64 := by
  obtain ⟨hne, h⟩ := guard_bind h
  obtain ⟨heq, hlt⟩ := dispatchUrmaAlignUp_eq hc (by decide) (by decide) hne
  obtain ⟨sum, hs, h⟩ := bind_eq_some_iff.1 h
  rw [heq] at hs h
  obtain ⟨hfit, rfl⟩ := (checkedAdd_eq_some_iff hlt).1 hs
  obtain ⟨rfl, rfl⟩ := Prod.mk.inj (some.inj h)
  exact ⟨rfl, rfl, hfit⟩

theorem buildActiveLayout_eq {sourceRows destinationCapacity rowBytes : ℕ} (hc : cursor < 2 ^ 64)
    (h : buildActiveLayout sourceRows destinationCapacity rowBytes cursor = some (a, last)) :
    place 64 cursor [sourceRows * rowBytes, destinationCapacity * rowBytes * 2] = (a.regions, last) ∧
      a.scratchBytes = a.scratchSlotBytes * 2 ∧ last < 2 ^ 64 := by
  obtain ⟨-, h⟩ := guard_bind h
  obtain ⟨sourceBytes, hsource, h⟩ := bind_eq_some_iff.1 h
  obtain ⟨⟨sourceOffset, mid⟩, hmid, h⟩ := bind_eq_some_iff.1 h
  obtain ⟨slotBytes, hslot, h⟩ := bind_eq_some_iff.1 h
  obtain ⟨scratchBytes, hscratch, h⟩ := bind_eq_some_iff.1 h
  obtain ⟨⟨scratchOffset, end'⟩, hend, h⟩ := bind_eq_some_iff.1 h
  obtain ⟨rfl, rfl⟩ := Prod.mk.inj (some.inj h)
  obtain ⟨rfl, rfl, hlt⟩ := appendBytes_eq hc hmid
  obtain ⟨rfl, rfl, hlt'⟩ := appendBytes_eq hlt hend
  obtain rfl := checkedMul_eq hsource
  obtain rfl := checkedMul_eq hslot
  obtain rfl := checkedMul_eq hscratch
  exact ⟨rfl, rfl, hlt'⟩

theorem appendCommon_eq {commonOffset : ℕ} (hc : commonOffset < 2 ^ 64)
    (h : appendCommon commonOffset = some (c, last)) :
    place 64 commonOffset commonSizes = (c.regions, last) ∧ c.commonOffset = commonOffset ∧ last < 2 ^ 64 := by
  obtain ⟨-, h⟩ := guard_bind h
  obtain ⟨b1, hb1, h⟩ := bind_eq_some_iff.1 h
  obtain ⟨⟨o1, c1⟩, h1, h⟩ := bind_eq_some_iff.1 h
  obtain ⟨⟨o2, c2⟩, h2, h⟩ := bind_eq_some_iff.1 h
  obtain ⟨⟨o3, c3⟩, h3, h⟩ := bind_eq_some_iff.1 h
  obtain ⟨b4, hb4, h⟩ := bind_eq_some_iff.1 h
  obtain ⟨⟨o4, c4⟩, h4, h⟩ := bind_eq_some_iff.1 h
  obtain ⟨b5, hb5, h⟩ := bind_eq_some_iff.1 h
  obtain ⟨⟨o5, c5⟩, h5, h⟩ := bind_eq_some_iff.1 h
  obtain ⟨⟨o6, c6⟩, h6, h⟩ := bind_eq_some_iff.1 h
  obtain ⟨b7, hb7, h⟩ := bind_eq_some_iff.1 h
  obtain ⟨⟨o7, c7⟩, h7, h⟩ := bind_eq_some_iff.1 h
  obtain ⟨⟨o8, c8⟩, h8, h⟩ := bind_eq_some_iff.1 h
  obtain ⟨⟨o9, c9⟩, h9, h⟩ := bind_eq_some_iff.1 h
  obtain ⟨rfl, rfl⟩ := Prod.mk.inj (some.inj h)
  obtain ⟨rfl, rfl, l1⟩ := appendBytes_eq hc h1
  obtain ⟨rfl, rfl, l2⟩ := appendBytes_eq l1 h2
  obtain ⟨rfl, rfl, l3⟩ := appendBytes_eq l2 h3
  obtain ⟨rfl, rfl, l4⟩ := appendBytes_eq l3 h4
  obtain ⟨rfl, rfl, l5⟩ := appendBytes_eq l4 h5
  obtain ⟨rfl, rfl, l6⟩ := appendBytes_eq l5 h6
  obtain ⟨rfl, rfl, l7⟩ := appendBytes_eq l6 h7
  obtain ⟨rfl, rfl, l8⟩ := appendBytes_eq l7 h8
  obtain ⟨rfl, rfl, l9⟩ := appendBytes_eq l8 h9
  obtain rfl := checkedMul_eq hb1
  obtain rfl := checkedMul_eq hb4
  obtain rfl := checkedMul_eq hb5
  obtain rfl := checkedMul_eq hb7
  exact ⟨rfl, rfl, l9⟩

theorem dispatchShape_eq {routeCount hiddenRowBytes : ℕ}
    (heq : dispatchShape rankSize s k h destinationCapacity = some (routeCount, hiddenRowBytes)) :
    routeCount = s.toNat * k.toNat ∧ hiddenRowBytes = h.toNat * 2 := by
  obtain ⟨-, heq⟩ := guard_bind heq
  obtain ⟨count, hcount, heq⟩ := bind_eq_some_iff.1 heq
  obtain ⟨-, heq⟩ := guard_bind heq
  obtain ⟨row, hrow, heq⟩ := bind_eq_some_iff.1 heq
  obtain ⟨-, heq⟩ := guard_bind heq
  obtain ⟨encoded, -, heq⟩ := bind_eq_some_iff.1 heq
  obtain ⟨rfl, rfl⟩ := Prod.mk.inj (some.inj (guard_bind heq).2)
  exact ⟨checkedMul_eq hcount, checkedMul_eq hrow⟩

theorem moveTo_regions (h : c.regions = (place 64 c.commonOffset commonSizes).1) (h64 : 64 ∣ c.commonOffset)
    (h64' : 64 ∣ nextCommonOffset) (hle : c.commonOffset ≤ nextCommonOffset)
    (hlt : nextCommonOffset + commonBytes < 2 ^ 64) :
    (c.moveTo nextCommonOffset).regions = (place 64 nextCommonOffset commonSizes).1 := by
  have hmoved : (c.moveTo nextCommonOffset).regions = c.regions.map fun r =>
      ⟨add64 r.offset (sub64 nextCommonOffset c.commonOffset), r.bytes⟩ := rfl
  rw [hmoved, h, place_common h64, place_common h64', List.map_map]
  dsimp only
  refine List.map_congr_left fun r hr => ?_
  have hend : r.offset + r.bytes ≤ commonBytes := (mem_place (by decide) hr).2.2
  simp only [Function.comp_apply, Region.shift, Region.mk.injEq, and_true]
  unfold add64 sub64
  omega

/-! ## Layouts -/

/-- What holds of a layout that was built and of one that was bound. -/
structure LayoutOk (l : MoonEpDispatchUrmaLayout) : Prop where
  data : ∃ sizes last, place 64 0 sizes = (l.dataRegions, last) ∧ last ≤ l.common.commonOffset
  hidden : l.hidden.scratchBytes = l.hidden.scratchSlotBytes * 2
  weight : l.weight.scratchBytes = l.weight.scratchSlotBytes * 2
  common : l.common.regions = (place 64 l.common.commonOffset commonSizes).1
  total : l.common.commonOffset + commonBytes = l.totalBytes
  aligned : 64 ∣ l.common.commonOffset
  total_lt : l.totalBytes < 2 ^ 64

theorem buildDispatchUrmaLayout_ok {out : MoonEpDispatchUrmaLayout}
    (hbuild : buildDispatchUrmaLayout rankSize s k h destinationCapacity out = (true, l)) :
    LayoutOk l ∧ l.dataRegions = shapeRegions s.toNat k.toNat h.toNat destinationCapacity.toNat := by
  obtain ⟨⟨routeCount, hiddenRowBytes⟩, hshape, hl⟩ := bind_eq_some_iff.1 (storeResult_true hbuild)
  obtain ⟨⟨hidden, c1⟩, hhidden, hl⟩ := bind_eq_some_iff.1 hl
  obtain ⟨⟨weight, c2⟩, hweight, hl⟩ := bind_eq_some_iff.1 hl
  obtain ⟨⟨common, c3⟩, hcommon, hl⟩ := bind_eq_some_iff.1 hl
  obtain ⟨htotal, hl⟩ := guard_bind hl
  obtain rfl := some.inj hl
  obtain ⟨hroutes, hrow⟩ := dispatchShape_eq hshape
  obtain ⟨hplace, hhalves, hlt⟩ := buildActiveLayout_eq (by decide) hhidden
  obtain ⟨hplace', hhalves', hlt'⟩ := buildActiveLayout_eq hlt hweight
  have hoffset : dispatchUrmaAlignUp c2 64 ≠ uint64Max := (guard_bind hcommon).1
  obtain ⟨heq, hup⟩ := dispatchUrmaAlignUp_eq hlt' (by decide) (by decide) hoffset
  rw [kDispatchInternalAlignmentBytes, heq] at hcommon
  obtain ⟨htail, hcommonOffset, hlt3⟩ := appendCommon_eq hup hcommon
  obtain ⟨htotal_eq, htotal_lt⟩ := dispatchUrmaAlignUp_eq hlt3 (by decide) (by decide) htotal
  have h64 : 64 ∣ roundUp 64 c2 := dvd_roundUp _ _
  have hc3 : c3 = commonBytes + roundUp 64 c2 := by
    rw [place_common h64] at htail
    exact (congrArg Prod.snd htail).symm
  have hdata : place 64 0 [s.toNat * (h.toNat * 2), destinationCapacity.toNat * (h.toNat * 2) * 2,
      s.toNat * k.toNat * 4, destinationCapacity.toNat * 4 * 2] = (hidden.regions ++ weight.regions, c2) := by
    rw [hroutes] at hplace'
    rw [hrow] at hplace
    have := place_append 64 0 [s.toNat * (h.toNat * 2), destinationCapacity.toNat * (h.toNat * 2) * 2]
      [s.toNat * k.toNat * 4, destinationCapacity.toNat * 4 * 2]
    rw [hplace, hplace'] at this
    exact this
  have hle := le_roundUp (show 0 < kDispatchRegistrationAlignmentBytes by decide) c3
  have hle2 := le_roundUp (show 0 < 64 by decide) c2
  have hdvd : 64 ∣ roundUp kDispatchRegistrationAlignmentBytes c3 :=
    Nat.dvd_trans ⟨32768, rfl⟩ (dvd_roundUp _ _)
  have hnext : sub64 (roundUp kDispatchRegistrationAlignmentBytes c3) (sub64 c3 common.commonOffset) =
      roundUp kDispatchRegistrationAlignmentBytes c3 - commonBytes := by
    rw [hcommonOffset, sub64_eq (by omega) hlt3, show c3 - roundUp 64 c2 = commonBytes by omega,
      sub64_eq (by omega) htotal_lt]
  rw [htotal_eq, hnext]
  have h64' : 64 ∣ roundUp kDispatchRegistrationAlignmentBytes c3 - commonBytes :=
    Nat.dvd_sub hdvd ⟨4033, rfl⟩
  refine ⟨⟨⟨_, c2, hdata, ?_⟩, hhalves, hhalves', ?_, ?_, h64', htotal_lt⟩, (congrArg Prod.fst hdata).symm⟩
  · show c2 ≤ _ - commonBytes
    omega
  · refine moveTo_regions ?_ (hcommonOffset ▸ h64) h64' ?_ ?_
    · rw [hcommonOffset, htail]
    · omega
    · omega
  · exact Nat.sub_add_cancel (by omega)

theorem LayoutOk.move (hl : LayoutOk l) {totalBytes : ℕ}
    (hle : l.common.commonOffset ≤ nextCommonOffset) (h64 : 64 ∣ nextCommonOffset)
    (htotal : nextCommonOffset + commonBytes = totalBytes) (hlt : totalBytes < 2 ^ 64)
    (hl' : l' = { l with common := l.common.moveTo nextCommonOffset, totalBytes := totalBytes }) :
    LayoutOk l' ∧ l'.dataRegions = l.dataRegions ∧ l'.totalBytes = totalBytes := by
  obtain ⟨sizes, last, hplace, hlast⟩ := hl.data
  subst hl'
  exact ⟨⟨⟨sizes, last, hplace, hlast.trans hle⟩, hl.hidden, hl.weight,
    moveTo_regions hl.common hl.aligned h64 hle (by omega), htotal, h64, hlt⟩, rfl, rfl⟩

theorem bindDispatchUrmaWorkspace_ok {workspaceBytes : ℕ} (hl : LayoutOk l)
    (hw : workspaceBytes < 2 ^ 64) (hbind : bindDispatchUrmaWorkspace workspaceBytes l = (true, l')) :
    LayoutOk l' ∧ l'.dataRegions = l.dataRegions ∧ l'.totalBytes = workspaceBytes := by
  obtain ⟨⟨-, hmul, -, hle⟩, h⟩ := guard_bind (storeResult_true hbind)
  obtain ⟨hnext, h⟩ := guard_bind h
  replace h := some.inj h
  have htotal := hl.total
  have hlt := hl.total_lt
  rw [sub64_eq (by omega) hlt, show l.totalBytes - l.common.commonOffset = commonBytes by omega,
    sub64_eq (by omega) hw] at hnext h
  have h64 : 64 ∣ workspaceBytes - commonBytes := by
    have : 64 ∣ workspaceBytes := Nat.dvd_trans ⟨32768, rfl⟩ (Nat.dvd_of_mod_eq_zero hmul)
    exact Nat.dvd_sub this ⟨4033, rfl⟩
  exact hl.move hnext h64 (Nat.sub_add_cancel (by omega)) hw h.symm

theorem LayoutOk.regionsOk (hl : LayoutOk l) : RegionsOk 64 l.regions l.totalBytes := by
  obtain ⟨sizes, last, hplace, hlast⟩ := hl.data
  have htotal := hl.total
  have hlt := hl.total_lt
  have hpos : 0 < 64 := by decide
  have hfront := regionsOk_of_place hpos hplace hlast (by omega)
  have hback := @regionsOk_of_place 64 commonSizes l.common.regions l.common.commonOffset _ l.totalBytes hpos
    (by rw [place_common hl.aligned, hl.common, place_common hl.aligned]) (by omega) hlt
  refine hfront.append hback (by omega) fun r hr => ?_
  rw [hl.common] at hr
  exact (mem_place hpos hr).2.1

/-- The two halves of a scratch area: one directly behind the other, and the second one aligned only if
the size of a half is. -/
structure HalvesOk (a : DispatchUrmaActiveLayout) : Prop where
  first : (a.scratchHalf 0).offset = a.scratchOffset
  second : (a.scratchHalf 1).offset = (a.scratchHalf 0).offset + (a.scratchHalf 0).bytes
  last : (a.scratchHalf 1).offset + (a.scratchHalf 1).bytes = a.scratchOffset + a.scratchBytes
  aligned : 64 ∣ (a.scratchHalf 1).offset ↔ 64 ∣ a.scratchSlotBytes

theorem halvesOk (h : a.scratchBytes = a.scratchSlotBytes * 2) (haligned : 64 ∣ a.scratchOffset) : HalvesOk a := by
  refine ⟨?_, ?_, ?_, ?_⟩ <;> simp only [DispatchUrmaActiveLayout.scratchHalf]
  · omega
  · omega
  · omega
  · rw [Nat.one_mul]
    exact (Nat.dvd_add_iff_right haligned).symm

/-- A layout that was built for an accepted shape and bound to an accepted workspace: the regions are
aligned, apart and inside the workspace. The tail depends on the workspace size only, the source and
scratch regions on the shape only. A call that fails leaves the layout as it was. -/
theorem dispatchUrmaLayout_bound (rankSize s k h destinationCapacity : ℤ) (workspaceBytes : ℕ)
    (hw : workspaceBytes < 2 ^ 64) (out layout : MoonEpDispatchUrmaLayout) :
    (∀ built bound, buildDispatchUrmaLayout rankSize s k h destinationCapacity out = (true, built) →
      bindDispatchUrmaWorkspace workspaceBytes built = (true, bound) →
        RegionsOk 64 bound.regions workspaceBytes ∧ HalvesOk bound.hidden ∧ HalvesOk bound.weight ∧
        bound.common.regions = tailRegions workspaceBytes ∧
        bound.dataRegions = shapeRegions s.toNat k.toNat h.toNat destinationCapacity.toNat) ∧
    (∀ after, buildDispatchUrmaLayout rankSize s k h destinationCapacity out = (false, after) →
      after = out) ∧
    (∀ after, bindDispatchUrmaWorkspace workspaceBytes layout = (false, after) → after = layout) := by
  refine ⟨fun built bound hbuild hbind => ?_, fun after h => storeResult_false h,
    fun after h => storeResult_false h⟩
  obtain ⟨hok, hdata⟩ := buildDispatchUrmaLayout_ok hbuild
  obtain ⟨hok', hdata', htotal⟩ := bindDispatchUrmaWorkspace_ok hok hw hbind
  have hregions := hok'.regionsOk
  refine ⟨htotal ▸ hregions, ?_, ?_, ?_, hdata'.trans hdata⟩
  · exact halvesOk hok'.hidden (hregions.aligned ⟨_, bound.hidden.scratchBytes⟩ (by
      simp [MoonEpDispatchUrmaLayout.regions, MoonEpDispatchUrmaLayout.dataRegions,
        DispatchUrmaActiveLayout.regions]))
  · exact halvesOk hok'.weight (hregions.aligned ⟨_, bound.weight.scratchBytes⟩ (by
      simp [MoonEpDispatchUrmaLayout.regions, MoonEpDispatchUrmaLayout.dataRegions,
        DispatchUrmaActiveLayout.regions]))
  · have := hok'.total
    rw [hok'.common, tailRegions, ← htotal, ← this, Nat.add_sub_cancel]

theorem dispatchUrmaLayout_bound_eightRanks :
    ∃ built bound, buildDispatchUrmaLayout 8 128 8 7168 4096 default = (true, built) ∧
      bindDispatchUrmaWorkspace 268435456 built = (true, bound) ∧ RegionsOk 64 bound.regions 268435456 ∧
      HalvesOk bound.hidden ∧ HalvesOk bound.weight := by
  refine ⟨_, _, rfl, rfl, ?_⟩
  obtain ⟨hregions, hhidden, hweight, -⟩ :=
    (dispatchUrmaLayout_bound 8 128 8 7168 4096 268435456 (by decide) default default).1 _ _ rfl rfl
  exact ⟨hregions, hhidden, hweight⟩

/-- Two shapes in workspaces of one size: the hidden scratch, which peers write to, is elsewhere. The
second half of the first one is not aligned. -/
theorem scratch_depends_on_shape :
    ∃ built bound built' bound', buildDispatchUrmaLayout 2 1 1 1 1 default = (true, built) ∧
      bindDispatchUrmaWorkspace 2097152 built = (true, bound) ∧
      buildDispatchUrmaLayout 2 1 1 64 1 default = (true, built') ∧
      bindDispatchUrmaWorkspace 2097152 built' = (true, bound') ∧
      bound.hidden.scratchHalf 0 = ⟨64, 2⟩ ∧ bound'.hidden.scratchHalf 0 = ⟨128, 128⟩ ∧
      ¬ 64 ∣ (bound.hidden.scratchHalf 1).offset :=
  ⟨_, _, _, _, rfl, rfl, rfl, rfl, rfl, rfl, by decide⟩

end TileXR.DispatchUrma
