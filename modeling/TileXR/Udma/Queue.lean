import Mathlib.Data.BitVec
import Mathlib.Logic.Function.Basic

/-!
# One UDMA send queue

The software words of a send queue and its completion queue, the completion ring, and the two producers
that share them: `UDMAPostSend` of `tilexr_udma.h` posts one WQE of one or two building blocks that asks
for a completion; `SubmitDispatchWqeBatch` of the URMA dispatch kernel posts a batch of WQEs of one
building block each, of which only the last asks for one. Both count completions in the same word.

The hardware completes in order and without error: it writes the index of the last building block of a
completed WQE into the next slot of the ring and turns the owner bit of the slot, which alternates with
every lap. A wait for a completion is not cut short by its retry limit; the batch poll, which takes
what is there, is told how far the hardware has come.
-/

namespace TileXR.Udma

abbrev U32 := BitVec 32

def TILEXR_UDMA_CQ_DEPTH : U32 := 16384
def TILEXR_UDMA_MAX_SQE_BB_NUM : U32 := 4
def TILEXR_UDMA_SQ_BB_COUNT : U32 := 4096 * TILEXR_UDMA_MAX_SQE_BB_NUM
def kDispatchWqeBatchCapacity : U32 := 128
def kDispatchSqPollReserve : ℕ := 10
/-- `kRelayUbBytes / sizeof(UDMACqeCtx)` -/
def kDispatchCqePollBatchCapacity : U32 := 64

inductive Status where
  | success
  | invalid
  | sqFull
  | cqTimeout
  | cqError (code : ℕ)
  deriving DecidableEq

/-- The fields of `UDMACqeCtx` the pollers read. -/
structure Cqe where
  owner : Bool
  entryIdx : BitVec 16
  status : BitVec 8
  substatus : BitVec 8

/-- The queue. `inFlight` has, for every WQE that asks for a completion and has not got it, its last
building block, oldest first; `spans` has the building blocks each completion covers that software has
not taken yet. -/
structure Queue where
  sqHead : U32
  sqTail : U32
  wqeCnt : U32
  cqTail : U32
  cq : ℕ → Cqe
  cqHead : U32
  inFlight : List U32
  spans : List ℕ

def Queue.fresh : Queue := ⟨0, 0, 0, 0, fun _ => ⟨false, 0, 0, 0⟩, 0, [], []⟩

def slot (c : U32) : ℕ := (c &&& (TILEXR_UDMA_CQ_DEPTH - 1)).toNat

/-- The owner bit a slot has from the lap before the `c`-th completion. -/
def validOwner (c : U32) : Bool := (c / TILEXR_UDMA_CQ_DEPTH) &&& 1 != 0

def Queue.completeOne (q : Queue) : Queue :=
  match q.inFlight with
  | [] => q
  | e :: es =>
    { q with
      cq := Function.update q.cq (slot q.cqHead) ⟨!validOwner q.cqHead, e.setWidth 16, 0, 0⟩
      cqHead := q.cqHead + 1
      inFlight := es }

def Queue.complete (q : Queue) : ℕ → Queue
  | 0 => q
  | n + 1 => q.completeOne.complete n

def Queue.completeAll (q : Queue) : Queue := q.complete q.inFlight.length

/-! ## `tilexr_udma.h` -/

/-- One round of the loop of `UDMAPollCQ`. -/
def pollCqe (q : Queue) : Except Status Queue :=
  let cqe := q.cq (slot q.cqTail)
  if validOwner q.cqTail = cqe.owner then .error .cqTimeout
  else if cqe.status ≠ 0 ∨ cqe.substatus ≠ 0 then
    .error (.cqError (cqe.status.toNat * 2 ^ 8 + cqe.substatus.toNat))
  else
    let sqOutstanding := q.sqHead - q.sqTail
    if sqOutstanding = 0 ∨ sqOutstanding > TILEXR_UDMA_SQ_BB_COUNT then .error .invalid
    else
      let tailIndex := q.sqTail % TILEXR_UDMA_SQ_BB_COUNT
      let completedEntryIndex := cqe.entryIdx.setWidth 32 % TILEXR_UDMA_SQ_BB_COUNT
      let completedBb :=
        (completedEntryIndex + TILEXR_UDMA_SQ_BB_COUNT - tailIndex) % TILEXR_UDMA_SQ_BB_COUNT + 1
      if completedBb > TILEXR_UDMA_MAX_SQE_BB_NUM ∨ completedBb > sqOutstanding then .error .invalid
      else
        .ok { q with
          sqTail := q.sqTail + completedBb
          cqTail := q.cqTail + 1
          spans := q.spans.tail }

def pollCqLoop : ℕ → Queue → Status × Queue
  | 0, q => (.success, q)
  | n + 1, q =>
    match pollCqe q with
    | .ok q' => pollCqLoop n q'
    | .error status => (status, q)

/-- `UDMAPollCQ`, which waits for the hardware. -/
def udmaPollCQ (idx : U32) (q : Queue) : Status × Queue :=
  let completionCount := idx - q.cqTail
  if completionCount > TILEXR_UDMA_CQ_DEPTH then (.invalid, q)
  else pollCqLoop completionCount.toNat q.completeAll

def udmaQuietStatusOnQp (q : Queue) : Status × Queue := udmaPollCQ q.wqeCnt q

def udmaWqeBBCnt (notify : Bool) : U32 := if notify then 2 else 1

/-- What `UDMAValidatePostSend` says about the room in the queue. -/
def udmaValidatePostSend (requiredBb : U32) (q : Queue) : Status :=
  let outstanding := q.sqHead - q.sqTail
  if outstanding > TILEXR_UDMA_SQ_BB_COUNT then .invalid
  else if requiredBb > TILEXR_UDMA_SQ_BB_COUNT - outstanding then .sqFull
  else .success

/-- The new head and completion count of a submission of `bb` building blocks. -/
def Queue.submit (q : Queue) (bb : U32) : Queue :=
  { q with
    sqHead := q.sqHead + bb
    wqeCnt := q.wqeCnt + 1
    inFlight := q.inFlight ++ [q.sqHead + bb - 1]
    spans := q.spans ++ [bb.toNat] }

/-- `UDMAPostSend` of a write or read, or of a write with notification. -/
def udmaPostSend (notify ringDoorbell : Bool) (q : Queue) : Status × Queue :=
  let bb := udmaWqeBBCnt notify
  let reclaimed :=
    if udmaValidatePostSend bb q = .sqFull ∧ ringDoorbell then udmaPollCQ q.wqeCnt q
    else (.success, q)
  match reclaimed with
  | (.success, q) =>
    match udmaValidatePostSend bb q with
    | .success => (.success, q.submit bb)
    | status => (status, q)
  | (status, q) => (status, q)

/-! ## The URMA dispatch kernel -/

/-- `DispatchWqeBatchCount` for unboundedly many WQEs. -/
def dispatchWqeBatchCount (sqHead : U32) : U32 :=
  let ringRemaining := TILEXR_UDMA_SQ_BB_COUNT - sqHead % TILEXR_UDMA_SQ_BB_COUNT
  if kDispatchWqeBatchCapacity > ringRemaining then ringRemaining else kDispatchWqeBatchCapacity

def dispatchCqePollBatchCount (cqTail : U32) : U32 :=
  let ringRemaining := TILEXR_UDMA_CQ_DEPTH - cqTail % TILEXR_UDMA_CQ_DEPTH
  if ringRemaining < kDispatchCqePollBatchCapacity then ringRemaining
  else kDispatchCqePollBatchCapacity

def dispatchCompletedSqTail (sqTail outstanding cqeEntryIdx : U32) : Option U32 :=
  if outstanding = 0 ∨ outstanding ≥ TILEXR_UDMA_SQ_BB_COUNT then none
  else
    let completedRingTail := (cqeEntryIdx % TILEXR_UDMA_SQ_BB_COUNT + 1) % TILEXR_UDMA_SQ_BB_COUNT
    let currentRingTail := sqTail % TILEXR_UDMA_SQ_BB_COUNT
    let advance :=
      (completedRingTail + TILEXR_UDMA_SQ_BB_COUNT - currentRingTail) % TILEXR_UDMA_SQ_BB_COUNT
    if advance = 0 ∨ advance > outstanding then none else some (sqTail + advance)

/-- The scan of `DispatchPollCqBatch` over at most `n` more completions: how many are valid, and the
furthest tail among them, or the error. -/
def scanCqes (q : Queue) : ℕ → ℕ → U32 → Except ℕ (ℕ × U32)
  | 0, validCount, completedSqTail => .ok (validCount, completedSqTail)
  | n + 1, validCount, completedSqTail =>
    let absoluteCqTail := q.cqTail + BitVec.ofNat 32 validCount
    let cqe := q.cq (slot absoluteCqTail)
    if cqe.owner = validOwner absoluteCqTail then .ok (validCount, completedSqTail)
    else if cqe.status ≠ 0 ∨ cqe.substatus ≠ 0 then
      .error (cqe.status.toNat * 2 ^ 8 + cqe.substatus.toNat)
    else
      match dispatchCompletedSqTail q.sqTail (q.sqHead - q.sqTail) (cqe.entryIdx.setWidth 32) with
      | none => .error 0xFE
      | some candidateSqTail =>
        scanCqes q n (validCount + 1)
          (if candidateSqTail - q.sqTail > completedSqTail - q.sqTail then candidateSqTail
           else completedSqTail)

/-- `DispatchPollCqBatch` on what the hardware has completed. -/
@[irreducible]
def dispatchPollCqBatch (q : Queue) : Except ℕ Queue :=
  match scanCqes q (dispatchCqePollBatchCount q.cqTail).toNat 0 q.sqTail with
  | .error status => .error status
  | .ok (validCount, completedSqTail) =>
    if validCount = 0 then .error 0xFF
    else
      .ok { q with
        cqTail := q.cqTail + BitVec.ofNat 32 validCount
        sqTail := completedSqTail
        spans := q.spans.drop validCount }

/-- The batch fits behind what is outstanding, with the reserve left. -/
def hasSqBatchCapacity (batchCount : U32) (q : Queue) : Bool :=
  (q.sqHead - q.sqTail).toNat + batchCount.toNat ≤
    TILEXR_UDMA_SQ_BB_COUNT.toNat - kDispatchSqPollReserve

/-- `DispatchEnsureSqBatchCapacity`; before its polls the hardware completes what the list says. -/
def dispatchEnsureSqBatchCapacity (batchCount : U32) : List ℕ → Queue → Bool × Queue
  | [], q => (hasSqBatchCapacity batchCount q, q)
  | n :: progress, q =>
    if hasSqBatchCapacity batchCount q then (true, q)
    else
      match dispatchPollCqBatch (q.complete n) with
      | .error _ => (false, q.complete n)
      | .ok q' => dispatchEnsureSqBatchCapacity batchCount progress q'

/-- `SubmitDispatchWqeBatch` on a batch state that `InitDispatchWqeBatchState` has just loaded. -/
def submitDispatchWqeBatch (batchCount : U32) (progress : List ℕ) (q : Queue) : Bool × Queue :=
  if q.sqHead - q.sqTail ≥ TILEXR_UDMA_SQ_BB_COUNT then (false, q)
  else if batchCount = 0 then (true, q)
  else if batchCount > dispatchWqeBatchCount q.sqHead then (false, q)
  else
    match dispatchEnsureSqBatchCapacity batchCount progress q with
    | (true, q) => (true, q.submit batchCount)
    | (false, q) => (false, q)

/-! ## Histories -/

inductive Event where
  | post (notify ringDoorbell : Bool)
  | batch (batchCount : U32) (progress : List ℕ)
  | complete (n : ℕ)
  | quiet

def Event.run (q : Queue) : Event → Queue
  | post notify ringDoorbell => (udmaPostSend notify ringDoorbell q).2
  | batch batchCount progress => (submitDispatchWqeBatch batchCount progress q).2
  | complete n => q.complete n
  | quiet => (udmaQuietStatusOnQp q).2

def after (history : List Event) : Queue := history.foldl Event.run .fresh

end TileXR.Udma
