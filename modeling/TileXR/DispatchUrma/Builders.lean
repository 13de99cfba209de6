import TileXR.Checked
import TileXR.DispatchUrma.QpSplit
import TileXR.DispatchUrma.Ring

/-!
# The WQE builders of the URMA dispatch

A peer's routes come in chunks. For each of them a queue pair gets one task for the hidden row of every
route it serves and, with weights, one for its weight; behind the last chunk comes the signal that tells
the peer that all is there. `AppendDispatchWqes` fills the issue buffer across chunks and submits it
whenever it is full; `DispatchBuildGroupedQpBatch` builds one batch at a time, which is staged at once.
`uintDiv` is `AscendC::Simt::UintDiv`, the division by `topK`. The threads of the vector function that
fills the buffer write one WQE each for the tasks of their residue, so it is modelled as one update.
-/

namespace TileXR.DispatchUrma
open Lib Udma

def TILEXR_UDMA_SQE_FLAG_STRONG_ORDER : BitVec 8 := 0x02
def TILEXR_UDMA_SQE_FLAG_ORDERED_COMPLETION : BitVec 8 :=
  TILEXR_UDMA_SQE_FLAG_COMPLETION ||| TILEXR_UDMA_SQE_FLAG_STRONG_ORDER
def kDispatchQpSelectionSingleLane : U32 := 1 <<< 4
def kRouteSelectChunkElements : ℕ := 8192

/-- The fields of `DispatchWqeBatchState` that stay the same. -/
structure QpPeer where
  qpIdx : U32
  singleLane : U32
  hiddenRemoteScratchBase : BitVec 64
  weightRemoteScratchBase : BitVec 64
  remoteSignalAddr : BitVec 64

/-- The routes of a chunk that go to the peer, and what the builders are told about them. The routes are
selected from at most `kRouteSelectChunkElements` ones. -/
structure RouteChunk where
  selectedRouteIndices : ℕ → BitVec 16
  dstValues : ℕ → U32
  hiddenLocalSourceBase : BitVec 64
  hiddenRowBytes : BitVec 64
  weightLocalSourceBase : BitVec 64
  weightRowBytes : BitVec 64
  hasWeight : Bool
  routeCountMask : BitVec 64
  topKMagic : U32
  topKShift : U32
  selectedRouteCount : U32
  signalLocalAddr : BitVec 64
  sequencePhase : U32
  routePlanStart : U32
  selected_le : selectedRouteCount.toNat ≤ kRouteSelectChunkElements

/-! ## Tasks -/

def dispatchPayloadWqesPerRoute (hasWeight : Bool) : U32 := if hasWeight then 2 else 1

def dispatchDataWqeCount (routeCount : ℕ) (hasWeight : Bool) : Option ℕ :=
  let perRoute := (dispatchPayloadWqesPerRoute hasWeight).toNat
  if routeCount > uint64Max / perRoute then none else some (routeCount * perRoute)

def dispatchDataTaskRouteIndex (dataTask : U32) (hasWeight : Bool) : U32 :=
  if hasWeight then dataTask / 2 else dataTask

def dispatchDataTaskIsWeight (dataTask : U32) (hasWeight : Bool) : Bool :=
  hasWeight && dataTask &&& 1 ≠ 0

structure WriteTask where
  sqeFlag : BitVec 8
  localAddr : BitVec 64
  remoteAddr : BitVec 64
  rowBytes : BitVec 64

/-- What `BuildDispatchWriteWqeBatch` packs into `qpSelection`. -/
def qpSelection (peer : QpPeer) (c : RouteChunk) : U32 :=
  peer.qpIdx <<< 2 ||| c.sequencePhase &&& 3 |||
    if peer.singleLane ≠ 0 then kDispatchQpSelectionSingleLane else 0

/-- The data task of a number, as `DispatchPatchWriteWqeBatchVf` computes it. -/
def dataTask (uintDiv : U32 → U32 → U32 → U32) (peer : QpPeer) (c : RouteChunk) (task : U32) :
    WriteTask :=
  let weightTask := dispatchDataTaskIsWeight task c.hasWeight
  let qpRouteIndex := dispatchDataTaskRouteIndex task c.hasWeight
  let selection := qpSelection peer c
  let selectedIndex :=
    if selection &&& kDispatchQpSelectionSingleLane ≠ 0 then qpRouteIndex
    else dispatchQpSelectedIndex qpRouteIndex (selection &&& 3) (selection >>> 2 &&& 1)
  let routeInChunk := c.selectedRouteIndices selectedIndex.toNat
  let routeId := c.routePlanStart + routeInChunk.setWidth 32
  let targetSlot := (c.dstValues routeInChunk.toNat).setWidth 64 &&& c.routeCountMask
  let sourceRow := if weightTask then routeId else uintDiv routeId c.topKMagic c.topKShift
  let rowBytes := if weightTask then c.weightRowBytes else c.hiddenRowBytes
  { sqeFlag := 0
    localAddr := (if weightTask then c.weightLocalSourceBase else c.hiddenLocalSourceBase) +
      sourceRow.setWidth 64 * rowBytes
    remoteAddr := (if weightTask then peer.weightRemoteScratchBase else peer.hiddenRemoteScratchBase) +
      targetSlot * rowBytes
    rowBytes := rowBytes }

def signalTask (peer : QpPeer) (c : RouteChunk) : WriteTask where
  sqeFlag := TILEXR_UDMA_SQE_FLAG_ORDERED_COMPLETION
  localAddr := c.signalLocalAddr
  remoteAddr := peer.remoteSignalAddr
  rowBytes := 8

def WriteTask.wqe (t : WriteTask) (wqeHead : U32) : Wqe where
  flag := t.sqeFlag
  sqeBbIdx := (wqeHead % TILEXR_UDMA_SQ_BB_COUNT).setWidth 16
  owner := wqeHead &&& TILEXR_UDMA_SQ_BB_COUNT = 0
  rmtAddrLOrTokenId := (t.remoteAddr &&& 0xFFFFFFFF).setWidth 32
  rmtAddrHOrTokenValue := (t.remoteAddr >>> 32 &&& 0xFFFFFFFF).setWidth 32
  len := t.rowBytes.setWidth 32
  va := t.localAddr

section Builders
variable (uintDiv : U32 → U32 → U32 → U32) (cq : ℕ → ℕ → ℕ → Cqe) (peer : QpPeer)

/-- The task of a position behind the WQEs that are in the issue buffer. -/
def batchTask (c : RouteChunk) (dataTaskStart dataTaskCount : U32) (task : ℕ) : WriteTask :=
  if task < dataTaskCount.toNat then dataTask uintDiv peer c (dataTaskStart + BitVec.ofNat 32 task)
  else signalTask peer c

/-- `BuildDispatchWriteWqeBatch`: the tasks go behind the WQEs that are in the issue buffer. -/
def buildDispatchWriteWqeBatch (c : RouteChunk) (dataTaskStart dataTaskCount : U32) (appendSignal : Bool)
    (q : SendQueue) : SendQueue :=
  let taskCount := dataTaskCount + if appendSignal then 1 else 0
  { q with
    issue := fun i =>
      if q.batchCount.toNat ≤ i ∧ i < q.batchCount.toNat + taskCount.toNat then
        (batchTask uintDiv peer c dataTaskStart dataTaskCount (i - q.batchCount.toNat)).wqe
          (q.head + BitVec.ofNat 32 i)
      else q.issue i }

/-- How much of a chunk is in the issue buffer or behind it. -/
structure TaskCursor where
  dataTaskStart : U32
  signalPending : Bool

/-- The tasks that fit into what is left of a batch: how many data tasks, and whether the signal follows
them. -/
def planBatch (available dataTaskCount : U32) (cursor : TaskCursor) : U32 × Bool :=
  let dataTaskRemaining := dataTaskCount - cursor.dataTaskStart
  let appendSignalNow := cursor.signalPending && dataTaskRemaining.toNat + 1 ≤ available.toNat
  let dataTaskCapacity := available - if appendSignalNow then 1 else 0
  (if dataTaskRemaining < dataTaskCapacity then dataTaskRemaining else dataTaskCapacity, appendSignalNow)

/-- The batch with the planned tasks, and the cursor behind them. -/
def fillBatch (c : RouteChunk) (cursor : TaskCursor) (plan : U32 × Bool) (q : SendQueue) :
    SendQueue × TaskCursor :=
  let built := buildDispatchWriteWqeBatch uintDiv peer c cursor.dataTaskStart plan.1 plan.2 q
  ({ built with batchCount := q.batchCount + (plan.1 + if plan.2 then 1 else 0) },
    ⟨cursor.dataTaskStart + plan.1, cursor.signalPending && !plan.2⟩)

/-- Where a builder stands: whether it is done without error, the queue, and the cursor. -/
structure BuildState where
  ok : Bool
  queue : SendQueue
  cursor : TaskCursor

/-- `SubmitDispatchWqeBatch`, where the batch is full. -/
def submitFull (phase : U32) (q : SendQueue) : Bool × SendQueue :=
  if q.batchCount = q.batchLimit then submitDispatchWqeBatch cq phase q else (true, q)

/-- One round of the loop of `AppendDispatchWqes`. -/
def appendRound (c : RouteChunk) (dataTaskCount phase : U32) (s : BuildState) : Step BuildState :=
  if s.cursor.dataTaskStart < dataTaskCount ∨ s.cursor.signalPending = true then
    match submitFull cq phase s.queue with
    | (false, q) => .done { s with ok := false, queue := q }
    | (true, q) =>
      let plan := planBatch (q.batchLimit - q.batchCount) dataTaskCount s.cursor
      let (q, cursor) := fillBatch uintDiv peer c s.cursor plan q
      match submitFull cq phase q with
      | (false, q) => .done ⟨false, q, cursor⟩
      | (true, q) => .next ⟨false, q, cursor⟩
  else .done { s with ok := true }

def tasksLeft (dataTaskCount : U32) (s : BuildState) : ℕ :=
  (dataTaskCount.toNat - s.cursor.dataTaskStart.toNat) + if s.cursor.signalPending then 1 else 0

def appendDispatchWqes (c : RouteChunk) (appendSignal : Bool) (phase : U32) (q : SendQueue) :
    Bool × SendQueue :=
  match dispatchDataWqeCount c.selectedRouteCount.toNat c.hasWeight with
  | none => (false, q)
  | some dataTaskCount64 =>
    if dataTaskCount64 > uint32Max then (false, q)
    else
      let dataTaskCount := BitVec.ofNat 32 dataTaskCount64
      let s := loop (tasksLeft dataTaskCount) (appendRound uintDiv cq peer c dataTaskCount phase)
        ⟨false, q, 0, appendSignal⟩
      if s.ok = false then (false, s.queue)
      else if appendSignal = false then (true, s.queue)
      else submitDispatchWqeBatch cq phase s.queue

/-- `DispatchBuildGroupedQpBatch`: the result, the queue and the cursor, and whether this is the final
batch. -/
def dispatchBuildGroupedQpBatch (c : RouteChunk) (cursor : TaskCursor) (q : SendQueue) :
    Bool × SendQueue × TaskCursor × Bool :=
  let q := { q with batchCount := 0 }
  match dispatchDataWqeCount c.selectedRouteCount.toNat c.hasWeight with
  | none => (false, q, cursor, false)
  | some dataTaskCount64 =>
    if dataTaskCount64 > uint32Max then (false, q, cursor, false)
    else
      let dataTaskCount := BitVec.ofNat 32 dataTaskCount64
      if cursor.dataTaskStart ≥ dataTaskCount ∧ cursor.signalPending = false then (true, q, cursor, false)
      else if q.batchLimit = 0 then (false, q, cursor, false)
      else
        let plan := planBatch q.batchLimit dataTaskCount cursor
        if plan.1 = 0 ∧ plan.2 = false then (false, q, cursor, false)
        else
          let (q, cursor) := fillBatch uintDiv peer c cursor plan q
          (true, q, cursor, plan.2)

/-- One round of the loop over a chunk in the grouped modes, for one queue pair: a batch is built and, if
it has WQEs, staged. -/
def groupedRound (c : RouteChunk) (dataTaskCount group : U32) (s : BuildState) : Step BuildState :=
  if s.cursor.dataTaskStart < dataTaskCount ∨ s.cursor.signalPending = true then
    match dispatchBuildGroupedQpBatch uintDiv peer c s.cursor s.queue with
    | (false, q, cursor, _) => .done ⟨false, q, cursor⟩
    | (true, q, cursor, finalBatch) =>
      if q.batchCount = 0 then .next ⟨false, q, cursor⟩
      else
        match stageDispatchQpBatch cq finalBatch group q with
        | (false, q) => .done ⟨false, q, cursor⟩
        | (true, q) => .next ⟨false, q, cursor⟩
  else .done { s with ok := true }

/-- The loop over a chunk in the grouped modes. -/
def groupedChunk (c : RouteChunk) (appendSignal : Bool) (group : U32) (q : SendQueue) : Bool × SendQueue :=
  let dataTaskCount := c.selectedRouteCount * dispatchPayloadWqesPerRoute c.hasWeight
  let s := loop (tasksLeft dataTaskCount) (groupedRound uintDiv cq peer c dataTaskCount group)
    ⟨false, q, 0, appendSignal⟩
  (s.ok, s.queue)

end Builders

/-- The chunks of a peer with one of the two builders: the signal goes behind the last chunk, and an
error ends the loop. -/
def sendChunks (send : RouteChunk → Bool → SendQueue → Bool × SendQueue) :
    List RouteChunk → RouteChunk → SendQueue → Bool × SendQueue
  | [], last, q => send last true q
  | c :: chunks, last, q =>
    match send c false q with
    | (false, q) => (false, q)
    | (true, q) => sendChunks send chunks last q

end TileXR.DispatchUrma
