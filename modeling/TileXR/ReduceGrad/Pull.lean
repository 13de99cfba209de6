import TileXR.Lib.Log
import TileXR.ReduceGrad.Layout
import Mathlib.Logic.Function.Basic

/-!
# The owner-pull kernel

One launch of `ReduceGradKernel` on one rank, between the check of the plan and the completion barrier.
Every lane has a leader block, which reads the contributions to one wave of an expert's chunk into one
of two staging banks, and helper blocks, which add what is staged, and what is local, to the gradient.
Leader and helpers of a lane meet only in token words; lanes share the gradient and the workspace.

Memories of floats are indexed by the byte offset at which a float begins. The buffers exist, so offsets
into them are not reduced modulo 2^64; the 32-bit sequence numbers are. A read that has been posted is
executed some time later, in any order; `CompleteWave` waits until nothing that was posted up to its
wave is left. Waits are not cut short by their retry limit.
-/

namespace TileXR.ReduceGrad
open Function (update)
open Lib (Reachable)

def kReduceGradLaneFlagStrideBytes : ℕ := 64
def kReduceGradBankReadyOffset : ℕ := 0
def kReduceGradDoneTokenBytes : ℕ := 64
def kReduceGradDoneTokenCount : ℕ := 32
def kReduceGradDoneBankStrideBytes : ℕ := kReduceGradDoneTokenCount * kReduceGradDoneTokenBytes
def kReduceGradBankDoneOffset : ℕ := kReduceGradBankCount * kReduceGradLaneFlagStrideBytes
def kReduceGradBankItemOffset : ℕ :=
  kReduceGradBankDoneOffset + kReduceGradBankCount * kReduceGradDoneBankStrideBytes
def kReduceGradLaneErrorOffset : ℕ :=
  kReduceGradBankItemOffset + kReduceGradBankCount * kReduceGradLaneFlagStrideBytes
def kReduceGradKernelTileBytes : ℕ := 40 * 1024
def kReduceGradDeviceInvalidState : ℕ := 1

/-- The data of a launch. `sources rank projection` is the source buffer of a rank. -/
structure Task (α : Type*) where
  layout : Layout
  expertsToCopy : ℕ → ℤ
  sources : ℕ → ℕ → ℕ → α
  magic : ℕ

/-- `ReduceGradBankItemKind` -/
inductive Kind where
  | work
  | terminal
  deriving DecidableEq

/-- `ReduceGradBankItem` -/
structure Item where
  token : ℕ
  chunkIndex : ℕ
  chunkBytes : ℕ
  kind : Kind
  projection : ℕ
  localExpert : ℕ
  waveStart : ℕ
  contributorCount : ℕ
  remoteContributorCount : ℕ

/-- One turn of the inner loop of `RunLaneLeader`. -/
structure Wave where
  localExpert : ℕ
  chunk : ℕ
  waveStart : ℕ
  contributorCount : ℕ

/-- A posted read of a remote source into the workspace. -/
structure Read where
  sourceRank : ℕ
  projection : ℕ
  remoteOffset : ℕ
  localOffset : ℕ
  bytes : ℕ
  deriving DecidableEq

/-- A read on its way, with the wave it was posted for. -/
structure Flight where
  wave : ℕ
  read : Read
  deriving DecidableEq

/-! ## Shape -/

/-- `helperCount` of `HelperShape` -/
def helperShape (L : Layout) (lane : ℕ) : ℕ :=
  let totalHelpers := L.blockDim - L.laneCount
  totalHelpers / L.laneCount + if lane < totalHelpers % L.laneCount then 1 else 0

/-- `helperBegin` of `HelperShape` -/
def helperBegin (L : Layout) (lane : ℕ) : ℕ :=
  let totalHelpers := L.blockDim - L.laneCount
  let extra := totalHelpers % L.laneCount
  L.laneCount + lane * (totalHelpers / L.laneCount) + if lane < extra then lane else extra

/-- `HelperLane`: lane, index and number of helpers of a block. -/
def helperLane (L : Layout) (blockIdx : ℕ) : ℕ × ℕ × ℕ :=
  let ordinal := blockIdx - L.laneCount
  let totalHelpers := L.blockDim - L.laneCount
  let base := totalHelpers / L.laneCount
  let extra := totalHelpers % L.laneCount
  let wider := (base + 1) * extra
  if ordinal < wider then (ordinal / (base + 1), ordinal % (base + 1), base + 1)
  else (extra + (ordinal - wider) / base, (ordinal - wider) % base, base)

def projectionForLane (L : Layout) (lane : ℕ) : ℕ :=
  ((List.range kReduceGradProjectionCount).find? fun projection =>
    L.projectionQpBase projection ≤ lane ∧
      lane < L.projectionQpBase projection + L.projectionQpCounts projection).getD
    kReduceGradProjectionCount

section Task
variable {α : Type*} (t : Task α)

def Task.entries : ℕ := t.layout.rankSize * t.layout.prefetchSlots

def Task.globalExpert (localExpert : ℕ) : ℕ :=
  t.layout.rank * t.layout.expertsPerRank + localExpert

/-- `ValidatePlanEntries` of all blocks finds nothing. -/
def validatePlanEntries : Bool :=
  (List.range t.layout.blockDim).all fun blockIdx => (List.range t.entries).all fun entry =>
    entry % t.layout.blockDim != blockIdx ||
      (decide (-1 ≤ t.expertsToCopy entry) && decide (t.expertsToCopy entry < t.layout.expertCount))

def countContributors (globalExpert : ℕ) : ℕ :=
  (List.range t.entries).foldl (fun count entry =>
    if t.expertsToCopy entry = globalExpert then count + 1 else count) 0

/-- The waves of a lane, in the order of the loops of `RunLaneLeader`. -/
def laneWaves (lane : ℕ) : List Wave :=
  let L := t.layout
  let projection := projectionForLane L lane
  (List.range L.expertsPerRank).flatMap fun localExpert =>
    let totalContributors := countContributors t (t.globalExpert localExpert)
    if totalContributors = 0 then []
    else (List.range (L.chunkCounts projection)).flatMap fun chunk =>
      if (localExpert * L.chunkCounts projection + chunk) % L.projectionQpCounts projection ≠
          lane - L.projectionQpBase projection then []
      else (List.range (divideRoundUp totalContributors L.rankSize)).map fun turn =>
        ⟨localExpert, chunk, turn * L.rankSize, min (totalContributors - turn * L.rankSize) L.rankSize⟩

/-! ## The two scans of the plan -/

def chunkBytesOf (projection chunk : ℕ) : ℕ :=
  min (t.layout.rowBytes projection - chunk * t.layout.chunkBytes) t.layout.chunkBytes

def bankPayload (L : Layout) (lane bank : ℕ) : ℕ :=
  L.stagingOffset + lane * L.laneStrideBytes + bank * L.bankStrideBytes

/-- What `IssueWave` counts and posts. -/
structure Issue where
  matching : ℕ
  collected : ℕ
  remoteContributorCount : ℕ
  reads : List Read

/-- One turn of the loop of `IssueWave`. -/
def issueEntry (lane projection bank : ℕ) (wave : Wave) (scan : Issue) (entry : ℕ) : Issue :=
  let L := t.layout
  if scan.collected < wave.contributorCount ∧
      t.expertsToCopy entry = t.globalExpert wave.localExpert then
    if scan.matching < wave.waveStart then { scan with matching := scan.matching + 1 }
    else if entry / L.prefetchSlots ≠ L.rank then
      { matching := scan.matching + 1
        collected := scan.collected + 1
        remoteContributorCount := scan.remoteContributorCount + 1
        reads := scan.reads ++ [{
          sourceRank := entry / L.prefetchSlots
          projection := projection
          remoteOffset := entry % L.prefetchSlots * L.rowBytes projection + wave.chunk * L.chunkBytes
          localOffset := bankPayload L lane bank + scan.remoteContributorCount * L.chunkBytes
          bytes := chunkBytesOf t projection wave.chunk }] }
    else { scan with matching := scan.matching + 1, collected := scan.collected + 1 }
  else scan

def issueWave (lane projection bank : ℕ) (wave : Wave) : Issue :=
  (List.range t.entries).foldl (issueEntry t lane projection bank wave) ⟨0, 0, 0, []⟩

/-- One turn of the loop of `CollectWaveContributors`. -/
def collectEntry (globalExpert waveStart contributorCount : ℕ) (scan : ℕ × List ℕ) (entry : ℕ) :
    ℕ × List ℕ :=
  if scan.2.length < contributorCount ∧ t.expertsToCopy entry = globalExpert then
    if scan.1 < waveStart then (scan.1 + 1, scan.2) else (scan.1 + 1, scan.2 ++ [entry])
  else scan

def collectWaveContributors (localExpert waveStart contributorCount : ℕ) : List ℕ :=
  ((List.range t.entries).foldl
    (collectEntry t (t.globalExpert localExpert) waveStart contributorCount) (0, [])).2

/-! ## Tokens -/

def laneToken (sequence : ℕ) : ℕ := t.magic % 2 ^ 32 * 2 ^ 32 + sequence

def laneAbortToken : ℕ := laneToken t uint32Max

end Task

/-- The bank of a sequence number, `(sequence - 1U) % kReduceGradBankCount`. -/
def bankOf (sequence : ℕ) : ℕ := (sequence + uint32Max) % 2 ^ 32 % kReduceGradBankCount

def bankReady (bank : ℕ) : ℕ := kReduceGradBankReadyOffset + bank * kReduceGradLaneFlagStrideBytes

def bankDoneToken (bank helperIndex : ℕ) : ℕ :=
  kReduceGradBankDoneOffset + bank * kReduceGradDoneBankStrideBytes +
    helperIndex * kReduceGradDoneTokenBytes

/-! ## State -/

/-- The fields of `ReduceGradPendingWave` but for the completion frontiers, for which the wave stands. -/
structure PendingWave where
  wave : ℕ
  chunkIndex : ℕ
  itemChunkBytes : ℕ
  sequence : ℕ
  projection : ℕ
  localExpert : ℕ
  waveStart : ℕ
  contributorCount : ℕ
  remoteContributorCount : ℕ

inductive LeaderPhase where
  | begins
  /-- in front of a wave, having seen the done tokens of so many helpers -/
  | await (helper : ℕ)
  | issue
  /-- completing the next ready bank, then copying its item -/
  | complete
  /-- storing the ready token of the item -/
  | publish
  | drain
  | lastAwait (bank helper : ℕ)
  | terminal
  | terminalPublish
  | finished
  deriving DecidableEq

/-- The variables of `RunLaneLeader`; `wave` counts the turns of its inner loop. -/
structure Leader where
  phase : LeaderPhase
  wave : ℕ
  sequence : ℕ
  nextReadySequence : ℕ
  bankIssued : ℕ → Bool
  bankPublished : ℕ → Bool
  bankSequence : ℕ → ℕ
  pending : ℕ → PendingWave

/-- What `ProcessBankItem` works on. -/
structure Work where
  projection : ℕ
  localExpert : ℕ
  chunkIndex : ℕ
  itemChunkBytes : ℕ
  contributors : List ℕ

/-- Where a helper is in `RunLaneHelper`. Tiles in local memory are indexed by element. -/
inductive HelperPhase (α : Type*) where
  | waiting
  | loading
  /-- `contributor` contributions have been added to the tile -/
  | adding (work : Work) (tile contributor remoteOrdinal : ℕ) (accum : ℕ → α)
  /-- the tile is about to be stored, the accumulator of the next one has been loaded -/
  | storing (work : Work) (tile : ℕ) (accum next : ℕ → α)
  | done
  | last
  | finished

structure Helper (α : Type*) where
  phase : HelperPhase α
  sequence : ℕ

/-- Tokens are at their offsets in the state of their lane; `stored` marks the gradient elements that
have been written. -/
structure State (α : Type*) where
  leader : ℕ → Leader
  helper : ℕ → Helper α
  token : ℕ → ℕ → ℕ
  item : ℕ → ℕ → Item
  flight : ℕ → List Flight
  workspace : ℕ → α
  gradient : ℕ → ℕ → α
  stored : ℕ → ℕ → Bool
  status : ℕ

section Steps
variable {α : Type*} (t : Task α)

def State.setLeader (s : State α) (lane : ℕ) (l : Leader) : State α :=
  { s with leader := update s.leader lane l }

def State.setHelper (s : State α) (blockIdx : ℕ) (h : Helper α) : State α :=
  { s with helper := update s.helper blockIdx h }

/-- `StoreLaneToken` -/
def State.storeToken (s : State α) (lane offset value : ℕ) : State α :=
  { s with token := update s.token lane (update (s.token lane) offset value) }

def State.setItem (s : State α) (lane bank : ℕ) (item : Item) : State α :=
  { s with item := update s.item lane (update (s.item lane) bank item) }

def State.publishStatus (s : State α) (value : ℕ) : State α :=
  { s with status := if s.status = 0 then value else s.status }

def State.laneAborted (s : State α) (lane : ℕ) : Prop :=
  s.token lane kReduceGradLaneErrorOffset = laneAbortToken t

instance (s : State α) (lane : ℕ) : Decidable (s.laneAborted t lane) :=
  inferInstanceAs (Decidable (_ = _))

/-! ## The leader -/

/-- The leader returns after `PublishStatus` and `FailLane`. -/
def failLane (lane : ℕ) (s : State α) : State α :=
  ((s.publishStatus kReduceGradDeviceInvalidState).storeToken lane kReduceGradLaneErrorOffset
    (laneAbortToken t)).setLeader lane { s.leader lane with phase := .finished }

/-- One load of `WaitForHelpers`, going on with `l` when the helper is done. -/
def waitForHelper (lane bank helper : ℕ) (l : Leader) (s : State α) : Option (State α) :=
  if s.token lane (bankDoneToken bank helper) = laneToken t ((s.leader lane).bankSequence bank) then
    some (s.setLeader lane l)
  else if s.laneAborted t lane then some (s.setLeader lane { s.leader lane with phase := .finished })
  else none

/-- The next turn of the loop over waves. -/
def Leader.nextWave (l : Leader) : Leader :=
  { l with phase := .await 0, wave := l.wave + 1, sequence := (l.sequence + 1) % 2 ^ 32 }

/-- The item `PublishItem` copies for a wave. -/
def PendingWave.item (p : PendingWave) : Item where
  token := laneToken t p.sequence
  chunkIndex := p.chunkIndex
  chunkBytes := p.itemChunkBytes
  kind := .work
  projection := p.projection
  localExpert := p.localExpert
  waveStart := p.waveStart
  contributorCount := p.contributorCount
  remoteContributorCount := p.remoteContributorCount

def terminalItem (sequence : ℕ) : Item := ⟨laneToken t sequence, 0, 0, .terminal, 0, 0, 0, 0, 0⟩

/-- The pending wave `IssueWave` fills in. -/
def pendingWave (lane index sequence : ℕ) (wave : Wave) : PendingWave where
  wave := index
  chunkIndex := wave.chunk
  itemChunkBytes := chunkBytesOf t (projectionForLane t.layout lane) wave.chunk
  sequence := sequence
  projection := projectionForLane t.layout lane
  localExpert := wave.localExpert
  waveStart := wave.waveStart
  contributorCount := wave.contributorCount
  remoteContributorCount :=
    (issueWave t lane (projectionForLane t.layout lane) (bankOf sequence) wave).remoteContributorCount

/-- The body of the loop over waves from `IssueWave` on. -/
def leaderIssue (lane : ℕ) (wave : Wave) (s : State α) : State α :=
  let l := s.leader lane
  let bank := bankOf l.sequence
  if l.bankIssued bank then failLane t lane s
  else
    let issue := issueWave t lane (projectionForLane t.layout lane) bank wave
    if issue.collected ≠ wave.contributorCount then failLane t lane s
    else
      let l' := { l with
        bankIssued := update l.bankIssued bank true
        pending := update l.pending bank (pendingWave t lane l.wave l.sequence wave) }
      { s with
        flight := update s.flight lane (s.flight lane ++ issue.reads.map (⟨l.wave, ·⟩))
        leader := update s.leader lane
          (if kReduceGradBankCount ≤ l.sequence then { l' with phase := .complete } else l'.nextWave) }

/-- One step of `RunLaneLeader`. -/
def leaderStep (lane : ℕ) (s : State α) : Option (State α) :=
  let l := s.leader lane
  let go := fun phase => some (s.setLeader lane { l with phase := phase })
  match l.phase with
  | .begins =>
    if kReduceGradProjectionCount ≤ projectionForLane t.layout lane ∨ helperShape t.layout lane = 0 then
      some (failLane t lane s)
    else go (.await 0)
  | .await helper =>
    let bank := bankOf l.sequence
    if (laneWaves t lane).length ≤ l.wave then go .drain
    else if l.bankPublished bank then
      if helper < helperShape t.layout lane then
        waitForHelper t lane bank helper { l with phase := .await (helper + 1) } s
      else some (s.setLeader lane
        { l with phase := .issue, bankPublished := update l.bankPublished bank false })
    else go .issue
  | .issue => ((laneWaves t lane)[l.wave]?).map fun wave => leaderIssue t lane wave s
  | .complete =>
    let bank := bankOf l.nextReadySequence
    let ready := l.pending bank
    if ¬ l.bankIssued bank ∨ ready.sequence ≠ l.nextReadySequence then some (failLane t lane s)
    else if ∃ f ∈ s.flight lane, f.wave ≤ ready.wave then none
    else some ((s.setItem lane bank (ready.item t)).setLeader lane { l with phase := .publish })
  | .publish =>
    let bank := bankOf l.nextReadySequence
    let l' := { l with
      nextReadySequence := (l.nextReadySequence + 1) % 2 ^ 32
      bankIssued := update l.bankIssued bank false
      bankPublished := update l.bankPublished bank true
      bankSequence := update l.bankSequence bank (l.pending bank).sequence }
    some ((s.storeToken lane (bankReady bank) (laneToken t (l.pending bank).sequence)).setLeader lane
      (if l.wave < (laneWaves t lane).length then l'.nextWave else { l' with phase := .drain }))
  | .drain => go (if l.nextReadySequence < l.sequence then .complete else .lastAwait 0 0)
  | .lastAwait bank helper =>
    if kReduceGradBankCount ≤ bank then go .terminal
    else if l.bankPublished bank ∧ helper < helperShape t.layout lane then
      waitForHelper t lane bank helper { l with phase := .lastAwait bank (helper + 1) } s
    else go (.lastAwait (bank + 1) 0)
  | .terminal =>
    some ((s.setItem lane (bankOf l.sequence) (terminalItem t l.sequence)).setLeader lane
      { l with phase := .terminalPublish })
  | .terminalPublish =>
    some ((s.storeToken lane (bankReady (bankOf l.sequence)) (laneToken t l.sequence)).setLeader lane
      { l with phase := .finished })
  | .finished => none

/-! ## A helper -/

def copyGmToUb (memory : ℕ → α) (address : ℕ) : ℕ → α := fun i => memory (address + 4 * i)

/-- Whether a float begins at `x` in a copy of `bytes` bytes to `address`. -/
def inCopy (address bytes x : ℕ) : Bool :=
  address ≤ x && x < address + bytes && (x - address) % 4 == 0

def copyUbToGm (memory : ℕ → α) (address : ℕ) (tile : ℕ → α) (bytes : ℕ) : ℕ → α := fun x =>
  if inCopy address bytes x then tile ((x - address) / 4) else memory x

def outputAddress (projection localExpert chunkIndex : ℕ) : ℕ :=
  t.globalExpert localExpert * t.layout.rowBytes projection + chunkIndex * t.layout.chunkBytes

/-- Where `ContributorAddress` points: the tile of a contribution, and the ordinal of the next remote
one. -/
def contributorTile (s : State α) (lane bank : ℕ) (work : Work) (contributor remoteOrdinal tileOffset : ℕ) :
    (ℕ → α) × ℕ :=
  let L := t.layout
  if contributor / L.prefetchSlots = L.rank then
    (copyGmToUb (t.sources L.rank work.projection) (contributor % L.prefetchSlots *
      L.rowBytes work.projection + work.chunkIndex * L.chunkBytes + tileOffset), remoteOrdinal)
  else
    (copyGmToUb s.workspace (bankPayload L lane bank + remoteOrdinal * L.chunkBytes + tileOffset),
      remoteOrdinal + 1)

def Work.tiles (w : Work) : ℕ := divideRoundUp w.itemChunkBytes kReduceGradKernelTileBytes

def Work.tileBytes (w : Work) (tile : ℕ) : ℕ :=
  min (w.itemChunkBytes - tile * kReduceGradKernelTileBytes) kReduceGradKernelTileBytes

/-- `PrefetchAccumulator` -/
def Work.loadTile (w : Work) (s : State α) (tile : ℕ) : ℕ → α :=
  copyGmToUb (s.gradient w.projection)
    (outputAddress t w.projection w.localExpert w.chunkIndex + tile * kReduceGradKernelTileBytes)

/-- `ProcessBankItem` up to its loop over tiles. -/
def processBankItem (blockIdx helperIndex : ℕ) (item : Item) (s : State α) : State α :=
  let L := t.layout
  let contributors := collectWaveContributors t item.localExpert item.waveStart item.contributorCount
  let work : Work :=
    ⟨item.projection, item.localExpert, item.chunkIndex, item.chunkBytes, contributors⟩
  let go := fun phase => s.setHelper blockIdx { s.helper blockIdx with phase := phase }
  if kReduceGradProjectionCount ≤ item.projection ∨ L.expertsPerRank ≤ item.localExpert ∨
      item.contributorCount = 0 ∨ L.rankSize < item.contributorCount ∨
      L.chunkCounts item.projection ≤ item.chunkIndex ∨ item.chunkBytes = 0 ∨
      L.chunkBytes < item.chunkBytes then
    (go .done).publishStatus kReduceGradDeviceInvalidState
  else if contributors.length ≠ item.contributorCount then
    (go .done).publishStatus kReduceGradDeviceInvalidState
  else if contributors.countP (fun contributor => contributor / L.prefetchSlots ≠ L.rank) ≠
      item.remoteContributorCount then
    (go .done).publishStatus kReduceGradDeviceInvalidState
  else if work.tiles ≤ helperIndex then go .done
  else go (.adding work helperIndex 0 0 (work.loadTile t s helperIndex))

/-- One step of `RunLaneHelper`. -/
def helperStep [Add α] (blockIdx : ℕ) (s : State α) : Option (State α) :=
  let (lane, helperIndex, helperCount) := helperLane t.layout blockIdx
  let h := s.helper blockIdx
  let bank := bankOf h.sequence
  let go := fun phase => s.setHelper blockIdx { h with phase := phase }
  match h.phase with
  | .waiting =>
    if s.token lane (bankReady bank) = laneToken t h.sequence then some (go .loading)
    else if s.laneAborted t lane then some (go .finished)
    else none
  | .loading =>
    let item := s.item lane bank
    if item.token ≠ laneToken t h.sequence then
      some ((go .done).publishStatus kReduceGradDeviceInvalidState)
    else
      match item.kind with
      | .terminal => some (go .last)
      | .work => some (processBankItem t blockIdx helperIndex item s)
  | .adding work tile contributor remoteOrdinal accum =>
    work.contributors[contributor]?.map fun entry =>
      let input := contributorTile t s lane bank work entry remoteOrdinal
        (tile * kReduceGradKernelTileBytes)
      let sum := fun i => if i < work.tileBytes tile / 4 then accum i + input.1 i else accum i
      if contributor + 1 < work.contributors.length then
        go (.adding work tile (contributor + 1) input.2 sum)
      else go (.storing work tile sum (work.loadTile t s (tile + helperCount)))
  | .storing work tile accum next =>
    let address := outputAddress t work.projection work.localExpert work.chunkIndex +
      tile * kReduceGradKernelTileBytes
    let s' := { s with
      gradient := update s.gradient work.projection
        (copyUbToGm (s.gradient work.projection) address accum (work.tileBytes tile))
      stored := update s.stored work.projection fun x =>
        inCopy address (work.tileBytes tile) x || s.stored work.projection x }
    some (s'.setHelper blockIdx { h with phase :=
      if tile + helperCount < work.tiles then .adding work (tile + helperCount) 0 0 next else .done })
  | .done =>
    some ((s.storeToken lane (bankDoneToken bank helperIndex) (laneToken t h.sequence)).setHelper blockIdx
      { phase := .waiting, sequence := (h.sequence + 1) % 2 ^ 32 })
  | .last =>
    some ((s.storeToken lane (bankDoneToken bank helperIndex) (laneToken t h.sequence)).setHelper blockIdx
      { h with phase := .finished })
  | .finished => none

/-! ## The launch -/

def execute (r : Read) (workspace : ℕ → α) : ℕ → α := fun x =>
  if r.localOffset ≤ x ∧ x < r.localOffset + r.bytes then
    t.sources r.sourceRank r.projection (r.remoteOffset + (x - r.localOffset))
  else workspace x

/-- The read is executed and leaves the queue. -/
def transferStep (lane index : ℕ) (s : State α) : Option (State α) :=
  (s.flight lane)[index]?.map fun f =>
    { s with
      flight := update s.flight lane ((s.flight lane).eraseIdx index)
      workspace := execute t f.read s.workspace }

inductive Actor where
  | leader (lane : ℕ)
  | helper (blockIdx : ℕ)
  | transfer (lane index : ℕ)

def Actor.lane (L : Layout) : Actor → ℕ
  | .leader lane => lane
  | .helper blockIdx => (helperLane L blockIdx).1
  | .transfer lane _ => lane

def step [Add α] (s : State α) : Actor → Option (State α)
  | .leader lane => if lane < t.layout.laneCount then leaderStep t lane s else none
  | .helper blockIdx =>
    if t.layout.laneCount ≤ blockIdx ∧ blockIdx < t.layout.blockDim then helperStep t blockIdx s else none
  | .transfer lane index => if lane < t.layout.laneCount then transferStep t lane index s else none

def Leader.start : Leader :=
  ⟨.begins, 0, 1, 1, fun _ => false, fun _ => false, fun _ => 0, fun _ => ⟨0, 0, 0, 0, 0, 0, 0, 0, 0⟩⟩

/-- After the check of the plan. Workspace and gradient hold anything. -/
def start (token : ℕ → ℕ → ℕ) (item : ℕ → ℕ → Item) (workspace : ℕ → α) (gradient : ℕ → ℕ → α) :
    State α where
  leader := fun _ => .start
  helper := fun _ => ⟨.waiting, 1⟩
  token := token
  item := item
  flight := fun _ => []
  workspace := workspace
  gradient := gradient
  stored := fun _ _ => false
  status := if validatePlanEntries t then 0 else kReduceGradDeviceInvalidState

end Steps

end TileXR.ReduceGrad
