import TileXR.Checked
import TileXR.Plan.Types

/-!
# Window layouts

`moonep_stage_layout.h` and the layout builders of the first dispatch and combine kernels: which plans and
tensors they take, into how many chunks a hidden row is cut, and where the regions of a rank's window are.
What a kernel needs of an accepted layout is collected in `DispatchLayout.Accepted`; above all the regions
do not overlap.
-/

namespace TileXR.MoonEpV1
open Option (bind_eq_some_iff)
open Plan (int32Max)
variable {alignment value : ℕ} {commRank commWorld : ℤ}

def tilexrMoonEpAbiVersionV1 : ℕ := 1
def tilexrMoonEpMaxTensorRank : ℕ := 4
def ipcBuffMaxSize : ℕ := 512 * 1024 * 1024
def kMoonEpStageAlignment : ℕ := 32
def int64Max : ℕ := 2 ^ 63 - 1

/-! ## What is handed in -/

inductive Dtype where
  | int32
  | float16
  | float32
  | bfloat16
  deriving DecidableEq

/-- `TileXRMoonEpTensorV1`; `data` says whether the pointer is set. -/
structure Tensor where
  structSize : ℕ
  abiVersion : ℕ
  data : Bool
  elementCount : ℕ
  dtype : Dtype
  rank : ℕ
  shape : ℕ → ℤ

/-- `TileXRMoonEpPlanV1`, of its pointers only whether they are set. -/
structure PlanV1 where
  structSize : ℕ
  abiVersion : ℕ
  n : ℤ
  r : ℤ
  e : ℤ
  b : ℤ
  nvS : ℤ
  k : ℤ
  dst : Bool
  expertsToCopy : Bool
  zeroFillRanges : Bool
  remoteStats : Bool
  dupGroups : Bool
  dupLoffs : Bool
  dupCounts : Bool
  status : Bool

def tensorHeaderValid (t : Tensor) : Bool :=
  decide (64 ≤ t.structSize) && t.abiVersion == tilexrMoonEpAbiVersionV1 && t.data && t.rank != 0 &&
    decide (t.rank ≤ tilexrMoonEpMaxTensorRank) && t.elementCount != 0 &&
    (List.range tilexrMoonEpMaxTensorRank).foldlM (fun elements dim =>
      if dim < t.rank then if t.shape dim ≤ 0 then none else checkedMul elements (t.shape dim).toNat
      else if t.shape dim ≠ 0 then none else some elements) 1 == some t.elementCount

/-- `PlanValid`, with the number `s` of tokens. -/
def planValid (commRank commWorld : ℤ) (plan : PlanV1) : Option ℤ := do
  guard (120 ≤ plan.structSize ∧ plan.abiVersion = tilexrMoonEpAbiVersionV1 ∧ 0 < commWorld ∧
    commWorld ≤ 128 ∧ 0 ≤ commRank ∧ commRank < commWorld ∧ 0 < plan.n ∧ plan.r = commWorld ∧ 0 < plan.e ∧
    0 < plan.b ∧ plan.n ≤ plan.nvS ∧ 0 < plan.k ∧ plan.k ≤ 32 ∧ plan.n % plan.k = 0 ∧
    plan.e % plan.r = 0 ∧ plan.b ≤ plan.e / plan.r ∧ plan.e ≤ int64Max - plan.b)
  guard (plan.dst ∧ plan.expertsToCopy ∧ plan.zeroFillRanges ∧ plan.remoteStats ∧ plan.dupGroups ∧
    plan.dupLoffs ∧ plan.dupCounts ∧ plan.status)
  let encodedCapacity ← checkedMul plan.r.toNat plan.nvS.toNat
  guard (encodedCapacity ≤ int32Max + 1)
  guard (0 < plan.n / plan.k)
  return plan.n / plan.k

/-- `HiddenValid`, with the bytes of a row. -/
def hiddenValid (input output : Tensor) (inputRows outputRows : ℤ) : Option ℕ := do
  guard (tensorHeaderValid input ∧ tensorHeaderValid output ∧ input.dtype = .bfloat16 ∧
    output.dtype = .bfloat16 ∧ input.rank = 2 ∧ output.rank = 2 ∧ input.shape 0 = inputRows ∧
    0 < input.shape 1 ∧ output.shape 0 = outputRows ∧ output.shape 1 = input.shape 1)
  checkedMul (input.shape 1).toNat 2

theorem planValid_spec {s : ℤ} {plan : PlanV1}
    (h : planValid commRank commWorld plan = some s) : 0 < commWorld.toNat ∧ 0 < plan.k.toNat ∧
      plan.k.toNat ≤ 32 ∧ 0 < s.toNat ∧ plan.n.toNat = s.toNat * plan.k.toNat ∧
      plan.n.toNat ≤ plan.nvS.toNat ∧ commWorld.toNat * plan.nvS.toNat ≤ 2 ^ 31 := by
  unfold planValid at h
  obtain ⟨⟨-, -, hworld, -, -, -, hn, hr, -, -, hnvS, hk, hk32, hmod, -⟩, h⟩ := guard_bind h
  obtain ⟨-, h⟩ := guard_bind h
  obtain ⟨capacity, hcap, h⟩ := bind_eq_some_iff.1 h
  obtain ⟨hle, h⟩ := guard_bind h
  obtain ⟨hpos, h⟩ := guard_bind h
  rw [← Option.some.inj h]
  have hdiv : plan.n / plan.k * plan.k = plan.n := Int.ediv_mul_cancel (Int.dvd_of_emod_eq_zero hmod)
  refine ⟨by omega, by omega, by omega, by omega, ?_, by omega, ?_⟩
  · rw [← Int.toNat_mul hpos.le hk.le, hdiv]
  · rw [checkedMul_eq hcap, hr, int32Max] at hle
    omega

/-! ## Regions -/

def alignUp (value alignment : ℕ) : ℕ :=
  if alignment = 0 ∨ value > uint64Max - (alignment - 1) then uint64Max
  else (value + alignment - 1) / alignment * alignment

/-- `AppendRegion`: the offset of the region and the new cursor. -/
def appendRegion (bytes alignment cursor : ℕ) : Option (ℕ × ℕ) := do
  let aligned := alignUp cursor alignment
  guard (aligned ≠ uint64Max)
  let last ← checkedAdd aligned bytes
  return (aligned, last)

theorem le_alignUp (h : 0 < alignment) (hne : alignUp value alignment ≠ uint64Max) :
    value ≤ alignUp value alignment := by
  unfold alignUp at hne ⊢
  split at hne
  · exact absurd rfl hne
  · next hc =>
    rw [if_neg hc]
    have hdiv := Nat.div_add_mod (value + alignment - 1) alignment
    have hmod := Nat.mod_lt (value + alignment - 1) h
    rw [Nat.mul_comm] at hdiv
    omega

theorem alignUp_dvd (hne : alignUp value alignment ≠ uint64Max) : alignment ∣ alignUp value alignment := by
  unfold alignUp at hne ⊢
  split at hne
  · exact absurd rfl hne
  · next hc => rw [if_neg hc]; exact Nat.dvd_mul_left _ _

/-- The bytes of a region with one word of 4 bytes a row, if there is to be one. -/
def wordsBytes (present : Bool) (nvS : ℕ) : Option ℕ := if present then checkedMul nvS 4 else some 0

theorem wordsBytes_eq {present : Bool} {nvS bytes : ℕ} (h : wordsBytes present nvS = some bytes) :
    bytes = if present then nvS * 4 else 0 := by
  unfold wordsBytes at h
  split at h
  · next hp => rw [if_pos hp]; exact checkedMul_eq h
  · next hp => rw [if_neg hp]; exact (Option.some.inj h).symm

/-- A region begins behind the cursor and ends at the new one. -/
theorem appendRegion_spec {bytes cursor : ℕ} {region : ℕ × ℕ} (h : 0 < alignment)
    (hr : appendRegion bytes alignment cursor = some region) :
    cursor ≤ region.1 ∧ region.2 = region.1 + bytes ∧ alignment ∣ region.1 := by
  unfold appendRegion at hr
  obtain ⟨hne, hr⟩ := guard_bind hr
  obtain ⟨last, hlast, hr⟩ := bind_eq_some_iff.1 hr
  rw [← Option.some.inj hr]
  exact ⟨le_alignUp h hne, checkedAdd_eq hlast, alignUp_dvd hne⟩

/-! ## Dispatch -/

def kMoonEpDispatchWindowClearedStep : ℕ := 101
def kMoonEpDispatchDataReadyStep : ℕ := 102
def kMoonEpDispatchWindowDrainedStep : ℕ := 103

def chunkStep (base chunk : ℕ) : ℕ := base + chunk * 4

/-- The peers `WaitAllPeers` visits: the rank itself first, then round. -/
def dispatchPeers (rankSize rank : ℕ) : List ℕ :=
  (List.range rankSize).map fun offset => (rank + offset) % rankSize

theorem mem_dispatchPeers {rankSize r : ℕ} (hr : r < rankSize) (p : ℕ) :
    p ∈ dispatchPeers rankSize r ↔ p < rankSize := by
  rw [dispatchPeers, List.mem_map]
  constructor
  · rintro ⟨offset, -, rfl⟩
    exact Nat.mod_lt _ (by omega)
  · intro hp
    refine ⟨(p + (rankSize - r)) % rankSize, List.mem_range.2 (Nat.mod_lt _ (by omega)), ?_⟩
    rw [Nat.add_mod_mod, show r + (p + (rankSize - r)) = p + rankSize by omega, Nat.add_mod_right,
      Nat.mod_eq_of_lt hp]

/-- `TILEXR_MOONEP_FLAG_BUILD_DEDUP` -/
def buildDedup (flags : ℕ) : Bool := flags.testBit 0

/-- `WeightsValid` of the dispatch. -/
def dispatchWeightsValid (input output : Option Tensor) (s k nvS : ℤ) : Bool :=
  match input, output with
  | none, none => true
  | some input, some output => tensorHeaderValid input && tensorHeaderValid output &&
      input.dtype == .float32 && output.dtype == .float32 && input.rank == 2 && input.shape 0 == s &&
      input.shape 1 == k && output.rank == 1 && output.shape 0 == nvS
  | _, _ => false

/-- The fields of the layout that the kernel is launched with. -/
structure DispatchLayout where
  s : ℕ
  k : ℕ
  n : ℕ
  nvS : ℕ
  chunkCount : ℕ
  flags : ℕ
  hiddenRowBytes : ℕ
  hiddenChunkBytes : ℕ
  hiddenChunkStride : ℕ
  hiddenPayloadBytes : ℕ
  routeWeightsOffset : ℕ
  routeWeightsBytes : ℕ
  dedupParentsOffset : ℕ
  dedupParentsBytes : ℕ
  dedupGroupMapOffset : ℕ
  dedupGroupMapBytes : ℕ

def buildDispatchLayout (commRank commWorld : ℤ) (plan : PlanV1) (hiddenSh : Tensor)
    (routeWeightsSk : Option Tensor) (hiddenNvsh : Tensor) (routeWeightsNvs : Option Tensor) (flags : ℕ) :
    Option DispatchLayout := do
  guard (flags < 4)
  let s ← planValid commRank commWorld plan
  let hiddenRowBytes ← hiddenValid hiddenSh hiddenNvsh s plan.nvS
  guard (dispatchWeightsValid routeWeightsSk routeWeightsNvs s plan.k plan.nvS)
  let nvS := plan.nvS.toNat
  let routeWeightsBytes ← wordsBytes routeWeightsSk.isSome nvS
  let dedupBytes ← wordsBytes (buildDedup flags) nvS
  let fixedBytes ← checkedAdd routeWeightsBytes dedupBytes
  let fixedBytes ← checkedAdd fixedBytes dedupBytes
  guard (fixedBytes ≤ ipcBuffMaxSize - 3 * (kMoonEpStageAlignment - 1))
  let available := ipcBuffMaxSize - fixedBytes - 3 * (kMoonEpStageAlignment - 1)
  let maxStride := available / nvS / kMoonEpStageAlignment * kMoonEpStageAlignment
  guard (maxStride ≠ 0)
  let hiddenChunkBytes := min hiddenRowBytes maxStride
  let hiddenChunkStride := alignUp hiddenChunkBytes kMoonEpStageAlignment
  guard (hiddenChunkStride ≠ uint64Max)
  let hiddenPayloadBytes ← checkedMul nvS hiddenChunkStride
  let hidden ← appendRegion hiddenPayloadBytes kMoonEpStageAlignment 0
  guard (hidden.1 = 0)
  let weights ← appendRegion routeWeightsBytes kMoonEpStageAlignment hidden.2
  let parents ← appendRegion dedupBytes kMoonEpStageAlignment weights.2
  let groupMap ← appendRegion dedupBytes kMoonEpStageAlignment parents.2
  guard (groupMap.2 ≤ ipcBuffMaxSize)
  let chunkCount := (hiddenRowBytes - 1) / hiddenChunkBytes + 1
  guard (chunkCount ≤ (int32Max - kMoonEpDispatchWindowDrainedStep) / 4)
  return {
    s := s.toNat, k := plan.k.toNat, n := plan.n.toNat, nvS := nvS, chunkCount := chunkCount
    flags := flags, hiddenRowBytes := hiddenRowBytes, hiddenChunkBytes := hiddenChunkBytes
    hiddenChunkStride := hiddenChunkStride, hiddenPayloadBytes := hiddenPayloadBytes
    routeWeightsOffset := weights.1, routeWeightsBytes := routeWeightsBytes
    dedupParentsOffset := parents.1, dedupParentsBytes := dedupBytes
    dedupGroupMapOffset := groupMap.1, dedupGroupMapBytes := dedupBytes }

/-- What is known of an accepted layout for `world` ranks. -/
structure DispatchLayout.Accepted (L : DispatchLayout) (world : ℕ) : Prop where
  world_pos : 0 < world
  k_pos : 0 < L.k
  k_le : L.k ≤ 32
  s_pos : 0 < L.s
  n_eq : L.n = L.s * L.k
  nvS_ge : L.n ≤ L.nvS
  capacity : world * L.nvS ≤ 2 ^ 31
  row_pos : 0 < L.hiddenRowBytes
  chunk_pos : 0 < L.hiddenChunkBytes
  chunk_le : L.hiddenChunkBytes ≤ L.hiddenChunkStride
  stride_dvd : kMoonEpStageAlignment ∣ L.hiddenChunkStride
  chunkCount_eq : L.chunkCount = (L.hiddenRowBytes - 1) / L.hiddenChunkBytes + 1
  chunkCount_le : L.chunkCount ≤ (2 ^ 31 - 1 - kMoonEpDispatchWindowDrainedStep) / 4
  payload_eq : L.hiddenPayloadBytes = L.nvS * L.hiddenChunkStride
  weights_ge : L.hiddenPayloadBytes ≤ L.routeWeightsOffset
  weights_eq : L.routeWeightsBytes = 0 ∨ L.routeWeightsBytes = L.nvS * 4
  parents_ge : L.routeWeightsOffset + L.routeWeightsBytes ≤ L.dedupParentsOffset
  parents_eq : L.dedupParentsBytes = if buildDedup L.flags then L.nvS * 4 else 0
  groupMap_ge : L.dedupParentsOffset + L.dedupParentsBytes ≤ L.dedupGroupMapOffset
  groupMap_eq : L.dedupGroupMapBytes = L.dedupParentsBytes
  groupMap_dvd : kMoonEpStageAlignment ∣ L.dedupGroupMapOffset
  window_le : L.dedupGroupMapOffset + L.dedupGroupMapBytes ≤ ipcBuffMaxSize
  flags_lt : L.flags < 4

theorem buildDispatchLayout_accepted {plan : PlanV1} {hiddenSh hiddenNvsh : Tensor}
    {routeWeightsSk routeWeightsNvs : Option Tensor} {flags : ℕ} {L : DispatchLayout}
    (h : buildDispatchLayout commRank commWorld plan hiddenSh routeWeightsSk hiddenNvsh routeWeightsNvs
      flags = some L) : L.Accepted commWorld.toNat ∧ L.flags = flags ∧
        (L.routeWeightsBytes = if routeWeightsSk.isSome then L.nvS * 4 else 0) := by
  unfold buildDispatchLayout at h
  obtain ⟨hflags, h⟩ := guard_bind h
  obtain ⟨s, hs, h⟩ := bind_eq_some_iff.1 h
  obtain ⟨rowBytes, hrow, h⟩ := bind_eq_some_iff.1 h
  obtain ⟨-, h⟩ := guard_bind h
  obtain ⟨weightsBytes, hw, h⟩ := bind_eq_some_iff.1 h
  obtain ⟨dedupBytes, hd, h⟩ := bind_eq_some_iff.1 h
  obtain ⟨_, -, h⟩ := bind_eq_some_iff.1 h
  obtain ⟨_, -, h⟩ := bind_eq_some_iff.1 h
  obtain ⟨-, h⟩ := guard_bind h
  obtain ⟨hmax, h⟩ := guard_bind h
  obtain ⟨hstride, h⟩ := guard_bind h
  obtain ⟨payload, hpayload, h⟩ := bind_eq_some_iff.1 h
  obtain ⟨hidden, hhidden, h⟩ := bind_eq_some_iff.1 h
  obtain ⟨hzero, h⟩ := guard_bind h
  obtain ⟨weights, hweights, h⟩ := bind_eq_some_iff.1 h
  obtain ⟨parents, hparents, h⟩ := bind_eq_some_iff.1 h
  obtain ⟨groupMap, hgroupMap, h⟩ := bind_eq_some_iff.1 h
  obtain ⟨hwindow, h⟩ := guard_bind h
  obtain ⟨hcount, h⟩ := guard_bind h
  rw [← Option.some.inj h]
  obtain ⟨hworld, hk, hk32, hspos, hn, hnvS, hcap⟩ := planValid_spec hs
  unfold hiddenValid at hrow
  obtain ⟨⟨-, -, -, -, -, -, -, hcols, -⟩, hrow⟩ := guard_bind hrow
  have hrow' := checkedMul_eq hrow
  have hnpos : 0 < plan.n.toNat := hn ▸ Nat.mul_pos hspos hk
  have hchunk : 0 < min rowBytes _ := Nat.lt_min.2 ⟨by omega, Nat.pos_of_ne_zero hmax⟩
  obtain ⟨-, hhidden₂, -⟩ := appendRegion_spec (by decide) hhidden
  obtain ⟨hw₁, hw₂, -⟩ := appendRegion_spec (by decide) hweights
  obtain ⟨hp₁, hp₂, -⟩ := appendRegion_spec (by decide) hparents
  obtain ⟨hg₁, hg₂, hg₃⟩ := appendRegion_spec (by decide) hgroupMap
  have hw' := wordsBytes_eq hw
  refine ⟨?_, rfl, hw'⟩
  exact
    { world_pos := hworld
      k_pos := hk
      k_le := hk32
      s_pos := hspos
      n_eq := hn
      nvS_ge := hnvS
      capacity := hcap
      row_pos := by dsimp only; omega
      chunk_pos := hchunk
      chunk_le := le_alignUp (by decide) hstride
      stride_dvd := alignUp_dvd hstride
      chunkCount_eq := rfl
      chunkCount_le := hcount
      payload_eq := checkedMul_eq hpayload
      weights_ge := by dsimp only; omega
      weights_eq := by
        dsimp only
        rw [hw']
        split
        · exact .inr rfl
        · exact .inl rfl
      parents_ge := by dsimp only; omega
      parents_eq := wordsBytes_eq hd
      groupMap_ge := by dsimp only; omega
      groupMap_eq := rfl
      groupMap_dvd := hg₃
      window_le := by dsimp only; omega
      flags_lt := hflags }

/-! ## Steps and tokens of the combine -/

def kMoonEpCombineDataReadyStep : ℕ := 111
def kChunkReadyStepBase : ℕ := 2 ^ 10
def kChunkDrainedStepBase : ℕ := 2 ^ 25
def kMaxChunkCount : ℕ := 0xFFFFFF

def doneToken (magic chunk step : ℕ) : ℕ := magic % 2 ^ 32 * 2 ^ 32 + chunk * 2 ^ 8 + step

end TileXR.MoonEpV1
