import Mathlib.Logic.Relation
import TileXR.Lib.Loop
import TileXR.Udma.Queue

/-!
# One queue pair of the URMA dispatch

The send queue of a `DispatchWqeBatchState` in `tilexr_moonep_dispatch_kernel.cpp`: the batches the
kernel copies from its issue buffer into the ring, and the polls of the completion queue that free the
positions again. Head and tail are 32-bit counters that wrap; the ring has `TILEXR_UDMA_SQ_BB_COUNT`
positions. What the hardware writes to the completion queue is given from outside: `cq n r i` is slot `i`
when the `n`-th poll copies the queue for the `r`-th time. Traces are left out.
-/

namespace TileXR.DispatchUrma
open BitVec Lib Udma

def TILEXR_UDMA_MAX_RETRY_TIMES : ℕ := 1000000
def TILEXR_UDMA_SQE_FLAG_COMPLETION : BitVec 8 := 0x20
def kDispatchDfxQuietError : U32 := 1 <<< 3

/-- The fields of `UDMASqeCtx` and `UDMASgeCtx` that are filled for each task; the others are the same in
all WQEs to a peer. -/
structure Wqe where
  flag : BitVec 8
  sqeBbIdx : BitVec 16
  owner : Bool
  rmtAddrLOrTokenId : U32
  rmtAddrHOrTokenValue : U32
  len : U32
  va : BitVec 64
  deriving DecidableEq, Inhabited

/-- The words of the queue in device memory. -/
structure QueueWords where
  sqHead : U32
  sqTail : U32
  wqeCnt : U32
  cqTail : U32
  cqDoorbell : U32

/-- The references for diagnostics that the calls update. -/
structure Dfx where
  dfxFlags : U32
  firstQuietStatus : ℕ
  firstQuietPhase : U32

structure Batch where
  head : U32
  limit : U32
  wqes : List Wqe

/-- The queue: the fields of `DispatchWqeBatchState` that change, the issue buffer, the ring, the words in
device memory and the diagnostics. `polls` counts the polls and `batches` keeps the batches. -/
structure SendQueue where
  head : U32
  completionCount : U32
  tail : U32
  cqTail : U32
  outstanding : U32
  batchCount : U32
  batchLimit : U32
  stagedDoorbellHead : U32
  stagedWqeCount : U32
  finalHead : U32
  doorbellPending : U32
  finalStaged : U32
  issue : ℕ → Wqe
  ring : ℕ → Wqe
  words : QueueWords
  dfx : Dfx
  polls : ℕ
  batches : List Batch

/-- What `InitDispatchWqeBatchState` loads from the words of a queue. -/
def initDispatchWqeBatchState (words : QueueWords) (issue ring : ℕ → Wqe) (dfx : Dfx) : Bool × SendQueue :=
  let outstanding := words.sqHead - words.sqTail
  let batchLimit := dispatchWqeBatchCount words.sqHead
  (batchLimit ≠ 0 ∧ outstanding < TILEXR_UDMA_SQ_BB_COUNT,
    { head := words.sqHead
      completionCount := words.wqeCnt
      tail := words.sqTail
      cqTail := words.cqTail
      outstanding := outstanding
      batchCount := 0
      batchLimit := batchLimit
      stagedDoorbellHead := words.sqHead
      stagedWqeCount := 0
      finalHead := words.sqHead
      doorbellPending := 0
      finalStaged := 0
      issue := issue
      ring := ring
      words := words
      dfx := dfx
      polls := 0
      batches := [] })

/-! ## Polling -/

/-- The records of one copy of the completion queue: which are valid, and the furthest tail among them,
or the error. `DispatchCqeOwnerReady` compares the owner bit with the lap. -/
def scanRecords (q : SendQueue) (record : ℕ → Cqe) : ℕ → ℕ → U32 → Except ℕ (ℕ × U32)
  | 0, validCount, completedSqTail => .ok (validCount, completedSqTail)
  | n + 1, validCount, completedSqTail =>
    let cqe := record validCount
    if cqe.owner = validOwner (q.cqTail + BitVec.ofNat 32 validCount) then .ok (validCount, completedSqTail)
    else if cqe.status ≠ 0 ∨ cqe.substatus ≠ 0 then
      .error (cqe.status.toNat * 2 ^ 8 + cqe.substatus.toNat)
    else
      match dispatchCompletedSqTail q.tail q.outstanding (cqe.entryIdx.setWidth 32) with
      | none => .error 0xFE
      | some candidateSqTail =>
        -- `DispatchSqTailIsFurther`
        scanRecords q record n (validCount + 1)
          (if candidateSqTail - q.tail > completedSqTail - q.tail then candidateSqTail
           else completedSqTail)

def SendQueue.take (q : SendQueue) (validCount : ℕ) (completedSqTail : U32) : SendQueue :=
  let newCqTail := q.cqTail + BitVec.ofNat 32 validCount
  { q with
    cqTail := newCqTail
    tail := completedSqTail
    outstanding := q.head - completedSqTail
    words := { q.words with
      cqTail := newCqTail
      cqDoorbell := newCqTail &&& 0xFFFFFF
      sqTail := completedSqTail } }

/-- The retries that are left, after `retry` of them. -/
def pollRetries (q : SendQueue) (record : ℕ → ℕ → Cqe) (pollCount : ℕ) : ℕ → ℕ → ℕ × SendQueue
  | 0, _ => (0xFF, q)
  | n + 1, retry =>
    match scanRecords q (record retry) pollCount 0 q.tail with
    | .error status => (status, q)
    | .ok (0, _) => pollRetries q record pollCount n (retry + 1)
    | .ok (validCount + 1, completedSqTail) => (0, q.take (validCount + 1) completedSqTail)

/-- The records that a copy of the next poll reads. -/
def SendQueue.record (q : SendQueue) (cq : ℕ → ℕ → ℕ → Cqe) (retry i : ℕ) : Cqe :=
  cq q.polls retry ((q.cqTail % TILEXR_UDMA_CQ_DEPTH).toNat + i)

/-- `DispatchPollCqBatch`: the status, 0 if records were taken. -/
@[irreducible]
def dispatchPollCqBatch (cq : ℕ → ℕ → ℕ → Cqe) (q : SendQueue) : ℕ × SendQueue :=
  let pollCount := dispatchCqePollBatchCount q.cqTail
  let (status, q') :=
    if pollCount = 0 then (0xFF, q)
    else pollRetries q (q.record cq) pollCount.toNat TILEXR_UDMA_MAX_RETRY_TIMES 0
  (status, { q' with polls := q.polls + 1 })

/-! ## Submitting -/

/-- The positions that may be outstanding. -/
def usableSqEntries : ℕ := TILEXR_UDMA_SQ_BB_COUNT.toNat - kDispatchSqPollReserve

def Dfx.quietError (dfx : Dfx) (status : ℕ) (phase : U32) : Dfx where
  dfxFlags := dfx.dfxFlags ||| kDispatchDfxQuietError
  firstQuietStatus := if dfx.firstQuietStatus = 0 then status else dfx.firstQuietStatus
  firstQuietPhase := if dfx.firstQuietStatus = 0 then phase else dfx.firstQuietPhase

/-- One round of `DispatchEnsureSqBatchCapacity`, on the result and the queue. -/
def ensureRound (cq : ℕ → ℕ → ℕ → Cqe) (batchCount phase : U32) (s : Bool × SendQueue) :
    Step (Bool × SendQueue) :=
  if s.2.outstanding.toNat + batchCount.toNat > usableSqEntries then
    match dispatchPollCqBatch cq s.2 with
    | (0, q) => .next (false, q)
    | (status + 1, q) => .done (false, { q with dfx := q.dfx.quietError (status + 1) phase })
  else .done (true, s.2)

def dispatchEnsureSqBatchCapacity (cq : ℕ → ℕ → ℕ → Cqe) (batchCount phase : U32) (q : SendQueue) :
    Bool × SendQueue :=
  loop (fun s => s.2.outstanding.toNat) (ensureRound cq batchCount phase) (false, q)

def Wqe.completing (w : Wqe) : Wqe := { w with flag := w.flag ||| TILEXR_UDMA_SQE_FLAG_COMPLETION }

/-- What submitting and staging share: the last WQE asks for a completion, the issue buffer is copied to
the ring, and the counters move on. -/
def SendQueue.publish (q : SendQueue) : SendQueue :=
  let count := q.batchCount.toNat
  let start := (q.head % TILEXR_UDMA_SQ_BB_COUNT).toNat
  let issue := Function.update q.issue (count - 1) (q.issue (count - 1)).completing
  let batchEndHead := q.head + q.batchCount
  { q with
    issue := issue
    ring := fun p => if start ≤ p ∧ p < start + count then issue (p - start) else q.ring p
    head := batchEndHead
    completionCount := q.completionCount + 1
    outstanding := q.outstanding + q.batchCount
    stagedDoorbellHead := batchEndHead
    stagedWqeCount := q.stagedWqeCount + q.batchCount
    doorbellPending := 1
    words := { q.words with sqHead := batchEndHead, wqeCnt := q.completionCount + 1 }
    batchCount := 0
    batchLimit := dispatchWqeBatchCount batchEndHead
    batches := q.batches ++ [⟨q.head, q.batchLimit, (List.range count).map issue⟩] }

def submitDispatchWqeBatch (cq : ℕ → ℕ → ℕ → Cqe) (phase : U32) (q : SendQueue) : Bool × SendQueue :=
  if q.batchCount = 0 then (true, q)
  else if q.batchCount > q.batchLimit then (false, q)
  else
    match dispatchEnsureSqBatchCapacity cq q.batchCount phase q with
    | (false, q) => (false, q)
    | (true, q) => (q.publish.batchLimit ≠ 0, q.publish)

def stageDispatchQpBatch (cq : ℕ → ℕ → ℕ → Cqe) (finalBatch : Bool) (phase : U32) (q : SendQueue) :
    Bool × SendQueue :=
  if q.batchCount = 0 ∨ q.batchCount > q.batchLimit then (false, q)
  else
    match dispatchEnsureSqBatchCapacity cq q.batchCount phase q with
    | (false, q) => (false, q)
    | (true, q) =>
      let staged := q.publish
      (staged.batchLimit ≠ 0,
        if finalBatch then { staged with finalHead := staged.head, finalStaged := 1 } else staged)

/-! ## Runs -/

/-- What happens to the queue. A builder has left `batchCount` WQEs in the issue buffer. -/
inductive QpEvent where
  | poll
  | submit (batchCount : U32) (issue : ℕ → Wqe) (phase : U32)
  | stage (batchCount : U32) (issue : ℕ → Wqe) (finalBatch : Bool) (phase : U32)

def QpEvent.call (cq : ℕ → ℕ → ℕ → Cqe) (q : SendQueue) : QpEvent → Bool × SendQueue
  | .poll => ((dispatchPollCqBatch cq q).1 = 0, (dispatchPollCqBatch cq q).2)
  | .submit batchCount issue phase =>
    submitDispatchWqeBatch cq phase { q with batchCount := batchCount, issue := issue }
  | .stage batchCount issue finalBatch phase =>
    stageDispatchQpBatch cq finalBatch phase { q with batchCount := batchCount, issue := issue }

def runQp (cq : ℕ → ℕ → ℕ → Cqe) (q : SendQueue) (events : List QpEvent) : SendQueue :=
  events.foldl (fun q e => (e.call cq q).2) q

/-! ## Words -/

def ringPos (c : U32) : ℕ := c.toNat % 16384

theorem sq_count : TILEXR_UDMA_SQ_BB_COUNT = 16384#32 := by decide

theorem usable : usableSqEntries = 16374 := by decide

theorem toNat_umod_sq (c : U32) : (c % TILEXR_UDMA_SQ_BB_COUNT).toNat = ringPos c := by
  rw [sq_count, toNat_umod]
  rfl

theorem ringPos_add (c : U32) (k : ℕ) : ringPos (c + BitVec.ofNat 32 k) = (c.toNat + k) % 16384 := by
  rw [ringPos, toNat_add, toNat_ofNat]
  omega

theorem dispatchWqeBatchCount_toNat (head : U32) :
    (dispatchWqeBatchCount head).toNat = min 128 (16384 - ringPos head) := by
  have hlt : ringPos head < 16384 := Nat.mod_lt _ (by decide)
  have hrest : (TILEXR_UDMA_SQ_BB_COUNT - head % TILEXR_UDMA_SQ_BB_COUNT).toNat = 16384 - ringPos head := by
    rw [toNat_sub, toNat_umod_sq, sq_count, toNat_ofNat]
    omega
  have hcap : kDispatchWqeBatchCapacity.toNat = 128 := by decide
  simp only [dispatchWqeBatchCount]
  split_ifs with h <;> rw [gt_iff_lt, lt_def] at h <;> omega

theorem dispatchCqePollBatchCount_toNat (cqTail : U32) :
    (dispatchCqePollBatchCount cqTail).toNat = min 64 (16384 - cqTail.toNat % 16384) := by
  have hrest : (TILEXR_UDMA_CQ_DEPTH - cqTail % TILEXR_UDMA_CQ_DEPTH).toNat =
      16384 - cqTail.toNat % 16384 := by
    rw [show TILEXR_UDMA_CQ_DEPTH = 16384#32 by decide, toNat_sub, toNat_umod,
      show (16384#32).toNat = 16384 from rfl]
    omega
  have hcap : kDispatchCqePollBatchCapacity.toNat = 64 := by decide
  simp only [dispatchCqePollBatchCount]
  split_ifs with h <;> rw [lt_def] at h <;> omega

theorem advance_toNat (tail idx : U32) :
    (((idx % TILEXR_UDMA_SQ_BB_COUNT + 1) % TILEXR_UDMA_SQ_BB_COUNT + TILEXR_UDMA_SQ_BB_COUNT -
      tail % TILEXR_UDMA_SQ_BB_COUNT) % TILEXR_UDMA_SQ_BB_COUNT).toNat =
      (ringPos idx + 1 + 16384 - ringPos tail) % 16384 := by
  have htail : ringPos tail < 16384 := Nat.mod_lt _ (by decide)
  have hidx : ringPos idx < 16384 := Nat.mod_lt _ (by decide)
  have hnext : ((idx % TILEXR_UDMA_SQ_BB_COUNT + 1) % TILEXR_UDMA_SQ_BB_COUNT).toNat =
      (ringPos idx + 1) % 16384 := by
    rw [toNat_umod_sq, ringPos, toNat_add, toNat_umod_sq, show (1 : U32).toNat = 1 from rfl]
    omega
  rw [toNat_umod_sq, ringPos, toNat_sub, toNat_umod_sq, toNat_add, hnext,
    show TILEXR_UDMA_SQ_BB_COUNT.toNat = 16384 from rfl]
  omega

/-- The tail one past an entry is found exactly for the outstanding entries. -/
theorem dispatchCompletedSqTail_eq_some_iff {tail outstanding idx t : U32} (h : outstanding.toNat < 16384) :
    dispatchCompletedSqTail tail outstanding idx = some t ↔
      ∃ k < outstanding.toNat, ringPos idx = ringPos (tail + BitVec.ofNat 32 k) ∧
        t = tail + BitVec.ofNat 32 (k + 1) := by
  have hadvance := advance_toNat tail idx
  have hidx : ringPos idx < 16384 := Nat.mod_lt _ (by decide)
  simp only [dispatchCompletedSqTail]
  generalize ((idx % TILEXR_UDMA_SQ_BB_COUNT + 1) % TILEXR_UDMA_SQ_BB_COUNT + TILEXR_UDMA_SQ_BB_COUNT -
      tail % TILEXR_UDMA_SQ_BB_COUNT) % TILEXR_UDMA_SQ_BB_COUNT = advance at *
  have hring : ∀ k < outstanding.toNat, ringPos idx = ringPos (tail + BitVec.ofNat 32 k) ↔
      advance.toNat = k + 1 := by
    intro k hk
    rw [ringPos_add, hadvance, ringPos, ringPos]
    omega
  rw [sq_count]
  by_cases hnone : outstanding = 0 ∨ outstanding ≥ 16384#32
  · rw [if_pos hnone]
    refine iff_of_false nofun ?_
    rintro ⟨k, hk, -⟩
    rcases hnone with rfl | hge
    · exact absurd hk (Nat.not_lt_zero _)
    · exact absurd (le_def.1 hge) (by simpa using h)
  · rw [if_neg hnone]
    by_cases hadv : advance = 0 ∨ advance > outstanding
    · rw [if_pos hadv]
      refine iff_of_false nofun ?_
      rintro ⟨k, hk, hpos, -⟩
      have := (hring k hk).1 hpos
      rcases hadv with rfl | hgt
      · exact absurd this (by simp)
      · have := lt_def.1 hgt
        omega
    · rw [if_neg hadv, Option.some.injEq]
      have hne : advance.toNat ≠ 0 := fun h0 => hadv (.inl (eq_of_toNat_eq h0))
      have hle : advance.toNat ≤ outstanding.toNat := by
        by_contra hgt
        exact hadv (.inr (lt_def.2 (by omega)))
      have heq : ∀ k, advance.toNat = k + 1 → tail + advance = tail + BitVec.ofNat 32 (k + 1) :=
        fun k hk => by rw [← hk, ofNat_toNat, setWidth_eq]
      constructor
      · rintro rfl
        exact ⟨advance.toNat - 1, by omega, (hring _ (by omega)).2 (by omega), heq _ (by omega)⟩
      · rintro ⟨k, hk, hpos, rfl⟩
        exact heq k ((hring k hk).1 hpos)

end TileXR.DispatchUrma
