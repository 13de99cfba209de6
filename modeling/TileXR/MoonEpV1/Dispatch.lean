import TileXR.Lib.Bytes
import TileXR.Lib.Phased
import TileXR.MoonEpV1.Layout
import TileXR.Sync

/-!
# The memory dispatch

`tilexr_moonep_dispatch_kernel.cpp`, one launch on all ranks. For each chunk of the hidden rows a rank
clears its window, writes the rows of its routes into the windows of the ranks they go to, and copies its
own window out; with the first chunk go the weights and, for routes to a rank that has the row already,
the place of that row (`ScatterRoutes`), from which the rank builds its table of duplicates
(`BuildDuplicatePlan`).

Windows and tensors are memories of bytes; the tables of the plan are arrays of integers. Before and after
the routes of a chunk and at its end the ranks wait for each other, so that a launch is a system in phases,
three for each chunk. A step of a phase is one route, or one of the local procedures. A rank that fails
stays where it is, and the others wait for it.
-/

namespace TileXR.MoonEpV1
open Function (update)
open Lib

def kClearTileElements : ℕ := 16 * 1024
def kMoonEpWorkUbBytes : ℕ := 192 * 1024
def kMoonEpDispatchStatusInvalidRoute : ℤ := 2001

structure DispatchTask where
  rankSize : ℕ
  layout : DispatchLayout
  magic : ℕ
  dst : ℕ → ℕ → ℤ
  hiddenSh : ℕ → Bytes
  routeWeightsSk : ℕ → Bytes

structure DispatchMem where
  window : ℕ → Bytes
  hiddenNvsh : ℕ → Bytes
  routeWeightsNvs : ℕ → Bytes
  dupGroups : ℕ → ℕ → ℤ
  dupLoffs : ℕ → ℕ → ℤ
  dupCounts : ℕ → ℕ → ℤ
  status : ℕ → ℤ

def copyBytesGmToGm (m : Bytes) (d : ℕ) (src : Bytes → Bytes) (s bytes : ℕ) : Bytes :=
  m.copyTiles kMoonEpWorkUbBytes d src s bytes

section Layout
variable (L : DispatchLayout)

def DispatchLayout.windowBytes : ℕ :=
  max (max (max L.hiddenPayloadBytes (L.routeWeightsOffset + L.routeWeightsBytes))
    (L.dedupParentsOffset + L.dedupParentsBytes)) (L.dedupGroupMapOffset + L.dedupGroupMapBytes)

/-- `Valid`, for pointers that are set as the layout says. -/
def dispatchValid (rank rankSize magic : ℕ) : Bool :=
  rank < rankSize && 0 < L.s && 0 < L.k && L.k ≤ 32 && L.n == L.s * L.k && L.n ≤ L.nvS &&
    0 < L.hiddenRowBytes && 0 < L.hiddenChunkBytes && L.hiddenChunkBytes ≤ L.hiddenChunkStride &&
    L.hiddenChunkStride % kMoonEpStageAlignment == 0 && 0 < L.chunkCount &&
    L.hiddenPayloadBytes == L.nvS * L.hiddenChunkStride && L.windowBytes ≤ ipcBuffMaxSize && 0 < magic &&
    L.flags < 4 && (L.routeWeightsBytes == 0 || L.routeWeightsBytes == L.nvS * 4) &&
    (!buildDedup L.flags && L.dedupParentsBytes == 0 && L.dedupGroupMapBytes == 0 ||
      buildDedup L.flags && L.dedupParentsBytes == L.nvS * 4 && L.dedupGroupMapBytes == L.dedupParentsBytes)

def clearLocalWindow (window : Bytes) : Bytes :=
  window.clearTiles (kClearTileElements * 2) 0 (L.windowBytes / 2 * 2)

def DispatchLayout.bytesOf (chunk : ℕ) : ℕ :=
  min (L.hiddenRowBytes - chunk * L.hiddenChunkBytes) L.hiddenChunkBytes

/-! ## Routes -/

def rawRoute (encoded : ℤ) : ℤ := if 0 ≤ encoded then encoded else -encoded - 1

/-- `DecodeRoute`: peer and offset. -/
def decodeRoute (rankSize : ℕ) (encoded : ℤ) : Option (ℕ × ℕ) :=
  let raw := rawRoute encoded
  let peer := raw / L.nvS
  let offset := raw % L.nvS
  if raw < 0 ∨ peer < 0 ∨ rankSize ≤ peer ∨ offset < 0 ∨ L.nvS ≤ offset then none
  else some (peer.toNat, offset.toNat)

/-- The loop of `FindPrimaryOffset`. -/
def findPrimary (rankSize : ℕ) (dst : ℕ → ℤ) (destRank : ℕ) : List ℕ → ℤ
  | [] => -1
  | candidate :: rest =>
    if dst candidate < 0 then findPrimary rankSize dst destRank rest
    else
      match decodeRoute L rankSize (dst candidate) with
      | none => -1
      | some (peer, offset) =>
        if peer = destRank then offset else findPrimary rankSize dst destRank rest

def findPrimaryOffset (rankSize : ℕ) (dst : ℕ → ℤ) (route destRank : ℕ) : ℤ :=
  let tokenStart := route / L.k * L.k
  findPrimary L rankSize dst destRank (List.range' tokenStart (route - tokenStart))

end Layout

section Kernel
variable (t : DispatchTask)

/-- One turn of the loop of `ScatterRoutes`, and whether it goes on. -/
def scatterRoute (rank chunk route : ℕ) (m : DispatchMem) : DispatchMem × Bool :=
  let L := t.layout
  let encoded := t.dst rank route
  match decodeRoute L t.rankSize encoded with
  | none => (m, false)
  | some (destRank, destOffset) =>
    let row := if 0 ≤ encoded then
        copyBytesGmToGm (m.window destRank) (destOffset * L.hiddenChunkStride) (fun _ => t.hiddenSh rank)
          (route / L.k * L.hiddenRowBytes + chunk * L.hiddenChunkBytes) (L.bytesOf chunk)
      else m.window destRank
    let weight := if chunk = 0 ∧ 0 < L.routeWeightsBytes then
        copyBytesGmToGm row (L.routeWeightsOffset + destOffset * 4) (fun _ => t.routeWeightsSk rank)
          (route * 4) 4
      else row
    let go := fun window => { m with window := update m.window destRank window }
    if chunk = 0 ∧ buildDedup L.flags ∧ encoded < 0 then
      let primary := findPrimaryOffset L t.rankSize (t.dst rank) route destRank
      if primary < 0 ∨ L.nvS ≤ primary then (go weight, false)
      else (go (weight.storeInt (L.dedupParentsOffset + destOffset * 4) (primary + 1)), true)
    else (go weight, true)

/-! ## Duplicates -/

/-- The variables of `BuildDuplicatePlan`; `ok` is false when it has failed. -/
structure DupState where
  window : Bytes
  groups : ℕ → ℤ
  loffs : ℕ → ℤ
  groupCount : ℕ
  duplicateCount : ℕ
  total : ℤ
  ok : Bool

/-- One turn of the first loop, which counts the duplicates of each primary. -/
def countDuplicate (L : DispatchLayout) (st : DupState) (loff : ℕ) : DupState :=
  let parent := st.window.loadInt (L.dedupParentsOffset + loff * 4)
  if !st.ok || parent == 0 then st
  else
    let primary := parent - 1
    if primary < 0 ∨ L.nvS ≤ primary ∨ L.nvS ≤ st.duplicateCount then { st with ok := false }
    else
      let mapAddress := L.dedupGroupMapOffset + primary.toNat * 4
      let groupMarker := st.window.loadInt mapAddress
      if groupMarker = 0 then
        if L.nvS ≤ st.groupCount then { st with ok := false }
        else
          let base := st.groupCount * 3
          { st with
            groups := update (update (update st.groups base primary) (base + 1) 0) (base + 2) 1
            window := st.window.storeInt mapAddress (st.groupCount + 1)
            groupCount := st.groupCount + 1
            duplicateCount := st.duplicateCount + 1 }
      else
        let count := (groupMarker - 1).toNat * 3 + 2
        { st with
          groups := update st.groups count (st.groups count + 1)
          duplicateCount := st.duplicateCount + 1 }

/-- One turn of the second loop: `total` is `prefix`. -/
def startGroup (L : DispatchLayout) (st : DupState) (group : ℕ) : DupState :=
  let count := st.groups (group * 3 + 2)
  if !st.ok then st
  else if count ≤ 0 ∨ L.nvS - count < st.total then { st with ok := false }
  else { st with
    groups := update (update st.groups (group * 3 + 1) st.total) (group * 3 + 2) 0
    total := st.total + count }

/-- One turn of the third loop, with the count of a group as its cursor. -/
def fillDuplicate (L : DispatchLayout) (st : DupState) (loff : ℕ) : DupState :=
  let parent := st.window.loadInt (L.dedupParentsOffset + loff * 4)
  if !st.ok || parent == 0 then st
  else
    let group := st.window.loadInt (L.dedupGroupMapOffset + (parent - 1).toNat * 4) - 1
    if group < 0 ∨ st.groupCount ≤ group then { st with ok := false }
    else
      let start := st.groups (group.toNat * 3 + 1)
      let count := st.groups (group.toNat * 3 + 2)
      if start < 0 ∨ count < 0 ∨ st.duplicateCount ≤ start + count then { st with ok := false }
      else { st with
        loffs := update st.loffs (start + count).toNat loff
        groups := update st.groups (group.toNat * 3 + 2) (count + 1) }

def duplicatePlan (L : DispatchLayout) (window : Bytes) (groups loffs : ℕ → ℤ) : DupState :=
  let counted := (List.range L.nvS).foldl (countDuplicate L) ⟨window, groups, loffs, 0, 0, 0, true⟩
  let started := (List.range counted.groupCount).foldl (startGroup L) counted
  if !started.ok || started.total != started.duplicateCount then { started with ok := false }
  else (List.range L.nvS).foldl (fillDuplicate L) started

def buildDuplicatePlan (rank : ℕ) (m : DispatchMem) : DispatchMem × Bool :=
  let st := duplicatePlan t.layout (m.window rank) (m.dupGroups rank) (m.dupLoffs rank)
  let counts := update (update (m.dupCounts rank) 0 0) 1 0
  ({ m with
    window := update m.window rank st.window
    dupGroups := update m.dupGroups rank st.groups
    dupLoffs := update m.dupLoffs rank st.loffs
    dupCounts := update m.dupCounts rank
      (if st.ok then update (update counts 0 st.groupCount) 1 st.duplicateCount else counts) }, st.ok)

/-- One turn of the inner loop of `ExpandDuplicateRows`. -/
def expandRow (L : DispatchLayout) (chunk primary : ℕ) (loffs : ℕ → ℤ) (start : ℤ) (st : Bytes × Bool)
    (index : ℕ) : Bytes × Bool :=
  let duplicate := loffs (start + index).toNat
  if !st.2 then st
  else if duplicate < 0 ∨ L.nvS ≤ duplicate then (st.1, false)
  else (copyBytesGmToGm st.1 (duplicate.toNat * L.hiddenChunkStride) id (primary * L.hiddenChunkStride)
    (L.bytesOf chunk), true)

def expandGroup (L : DispatchLayout) (chunk : ℕ) (groups loffs : ℕ → ℤ) (duplicateCount : ℤ)
    (st : Bytes × Bool) (group : ℕ) : Bytes × Bool :=
  let primary := groups (group * 3)
  let start := groups (group * 3 + 1)
  let count := groups (group * 3 + 2)
  if !st.2 then st
  else if primary < 0 ∨ L.nvS ≤ primary ∨ start < 0 ∨ count ≤ 0 ∨ duplicateCount < start + count then
    (st.1, false)
  else (List.range count.toNat).foldl (expandRow L chunk primary.toNat loffs start) st

def expandDuplicateRows (rank chunk : ℕ) (m : DispatchMem) : DispatchMem × Bool :=
  let L := t.layout
  let groupCount := m.dupCounts rank 0
  let duplicateCount := m.dupCounts rank 1
  if groupCount < 0 ∨ L.nvS < groupCount ∨ duplicateCount < 0 ∨ L.nvS < duplicateCount then (m, false)
  else
    let st := (List.range groupCount.toNat).foldl
      (expandGroup L chunk (m.dupGroups rank) (m.dupLoffs rank) duplicateCount) (m.window rank, true)
    ({ m with window := update m.window rank st.1 }, st.2)

/-! ## The end of a chunk -/

def drainHidden (rank chunk : ℕ) (m : DispatchMem) : DispatchMem :=
  let L := t.layout
  { m with
    hiddenNvsh := update m.hiddenNvsh rank ((List.range L.nvS).foldl (fun out row =>
      copyBytesGmToGm out (row * L.hiddenRowBytes + chunk * L.hiddenChunkBytes) (fun _ => m.window rank)
        (row * L.hiddenChunkStride) (L.bytesOf chunk)) (m.hiddenNvsh rank)) }

def copyWeights (rank : ℕ) (m : DispatchMem) : DispatchMem :=
  { m with
    routeWeightsNvs := update m.routeWeightsNvs rank
      (copyBytesGmToGm (m.routeWeightsNvs rank) 0 (fun _ => m.window rank) t.layout.routeWeightsOffset
        t.layout.routeWeightsBytes) }

/-! ## The launch -/

/-- How far a rank is with the steps of a phase. -/
inductive Place where
  | at (step : ℕ)
  | failed
  deriving DecidableEq

def dispatchSteps (L : DispatchLayout) (phase : ℕ) : ℕ :=
  match phase % 3 with
  | 0 => 1
  | 1 => L.n
  | _ => 4

/-- One step of `Process` between two barriers, and whether it goes on. -/
def dispatchStep (rank phase step : ℕ) (m : DispatchMem) : DispatchMem × Bool :=
  let L := t.layout
  let chunk := phase / 3
  match phase % 3, step with
  | 0, _ => ({ m with window := update m.window rank (clearLocalWindow L (m.window rank)) }, true)
  | 1, route => scatterRoute t rank chunk route m
  | _, 0 => if chunk = 0 ∧ buildDedup L.flags then buildDuplicatePlan t rank m else (m, true)
  | _, 1 => expandDuplicateRows t rank chunk m
  | _, 2 => (drainHidden t rank chunk m, true)
  | _, _ => (if chunk = 0 ∧ 0 < L.routeWeightsBytes then copyWeights t rank m else m, true)

def dispatchWork (rank phase : ℕ) (_ : Unit) (place : Place) (m : DispatchMem) : Option (Place × DispatchMem) :=
  match place with
  | .failed => none
  | .at step =>
    if dispatchValid t.layout rank t.rankSize t.magic ∧ step < dispatchSteps t.layout phase then
      match dispatchStep t rank phase step m with
      | (m', true) => some (.at (step + 1), m')
      | (m', false) => some (.failed,
          { m' with status := update m'.status rank kMoonEpDispatchStatusInvalidRoute })
    else none

def dispatchToken (magic phase : ℕ) : ℕ :=
  mergeMagicWithValue magic (chunkStep (kMoonEpDispatchWindowClearedStep + phase % 3) (phase / 3))

def dispatch : Phased ℕ Unit Place DispatchMem ℕ where
  members := List.range t.rankSize
  phases := 3 * t.layout.chunkCount
  start := fun _ _ => .at 0
  work := dispatchWork t
  complete := fun _ phase place => place == .at (dispatchSteps t.layout phase)
  order := dispatchPeers t.rankSize
  token := dispatchToken t.magic

end Kernel

end TileXR.MoonEpV1
