import TileXR.DispatchUrma.Builders
import TileXR.DispatchUrma.RingInv

/-!
# What the builders post

The WQEs that were copied to the ring, followed by those that wait in the issue buffer, are the stream of
a queue. A builder appends tasks to the stream; submitting and staging move the border between the two
parts and polls change nothing (`Stream`). So both builders put the tasks of all chunks into the stream
in order, with the signal behind them, and end with an empty issue buffer. They stop early only if a poll
fails, which needs more tasks than the ring has room for.
-/

namespace TileXR.DispatchUrma
open Lib List Udma
variable {send : RouteChunk → Bool → SendQueue → Bool × SendQueue} {E I : SendQueue → Prop} {available : U32}

def SendQueue.posted (q : SendQueue) : List Wqe := q.batches.flatMap (·.wqes)

def SendQueue.waiting (q : SendQueue) : List Wqe := (List.range q.batchCount.toNat).map q.issue

/-- A WQE that was asked for, maybe with the request for a completion that the end of a batch adds. -/
def Wqe.PostedAs (w v : Wqe) : Prop := w = v ∨ w = v.completing

def wqesOf (head : U32) (tasks : List WriteTask) : List Wqe :=
  tasks.mapIdx fun i t => t.wqe (head + BitVec.ofNat 32 i)

theorem completing_completing (w : Wqe) : w.completing.completing = w.completing := by
  have h : ∀ f : BitVec 8, f ||| TILEXR_UDMA_SQE_FLAG_COMPLETION ||| TILEXR_UDMA_SQE_FLAG_COMPLETION =
      f ||| TILEXR_UDMA_SQE_FLAG_COMPLETION := by decide
  simp only [Wqe.completing, h]

theorem Wqe.PostedAs.trans {u v w : Wqe} (hu : u.PostedAs v) (hv : v.PostedAs w) : u.PostedAs w := by
  rcases hu with rfl | rfl
  · exact hv
  · rcases hv with rfl | rfl
    · exact .inr rfl
    · exact .inr (completing_completing w)

theorem postedAs_trans {us vs ws : List Wqe} (hu : List.Forall₂ Wqe.PostedAs us vs)
    (hv : List.Forall₂ Wqe.PostedAs vs ws) : List.Forall₂ Wqe.PostedAs us ws := by
  induction hu generalizing ws with
  | nil => exact hv
  | cons h _ ih =>
    cases hv with
    | cons h' hv => exact .cons (h.trans h') (ih hv)

theorem postedAs_refl (ws : List Wqe) : List.Forall₂ Wqe.PostedAs ws ws :=
  forall₂_same.2 fun _ _ => .inl rfl

theorem wqesOf_append (head : U32) (tasks more : List WriteTask) : wqesOf head (tasks ++ more) =
      wqesOf head tasks ++ wqesOf (head + BitVec.ofNat 32 tasks.length) more := by
  unfold wqesOf
  rw [mapIdx_append]
  congr 2
  funext i t
  rw [Nat.add_comm, BitVec.ofNat_add, BitVec.add_assoc]

theorem wqesOf_map_range (head : U32) (n : ℕ) (task : ℕ → WriteTask) : wqesOf head ((List.range n).map task) =
      (List.range n).map fun i => (task i).wqe (head + BitVec.ofNat 32 i) := by
  refine ext_getElem (by simp [wqesOf]) fun i h h' => ?_
  simp [wqesOf]

/-- The stream of a queue that started at a head with `out₀` entries outstanding has the tasks. -/
structure Stream (head₀ : U32) (out₀ : ℕ) (tasks : List WriteTask) (q : SendQueue) : Prop where
  ring : RingOk q
  count_le : q.batchCount.toNat ≤ q.batchLimit.toNat
  wqes : List.Forall₂ Wqe.PostedAs (q.posted ++ q.waiting) (wqesOf head₀ tasks)
  head : q.head + q.batchCount = head₀ + BitVec.ofNat 32 tasks.length
  outstanding_le : q.outstanding.toNat + q.batchCount.toNat ≤ out₀ + tasks.length
  batches : ∀ b ∈ q.batches, b.wqes.length ≤ b.limit.toNat ∧ b.limit = dispatchWqeBatchCount b.head

section Stream
variable {head₀ : U32} {out₀ : ℕ} {tasks : List WriteTask} {cq : ℕ → ℕ → ℕ → Cqe} {q q' : SendQueue}

theorem Polls.outstanding_le (hq : RingOk q) (h : Polls cq q q') : q'.outstanding.toNat ≤ q.outstanding.toNat := by
  induction h with
  | refl => exact le_rfl
  | tail hpolls hstep ih =>
    obtain ⟨_, _, k, hpolled⟩ := hstep
    have := hpolled.outstanding_toNat (hq.polls hpolls)
    omega

section
variable (h : Stream head₀ out₀ tasks q)
include h

theorem Stream.polls (hpolls : Polls cq q q') : Stream head₀ out₀ tasks q' := by
  have hring := h.ring.polls hpolls
  have hle := hpolls.outstanding_le h.ring
  have hout := h.outstanding_le
  obtain ⟨_, _, _, _, _, rfl⟩ := hpolls.sameBatch
  exact ⟨hring, h.count_le, h.wqes, h.head, (Nat.add_le_add_right hle _).trans hout, h.batches⟩

theorem Stream.pollError (status : ℕ) (phase : U32) :
    Stream head₀ out₀ tasks (q.pollError status phase) :=
  ⟨h.ring.of_eq rfl rfl rfl rfl, h.count_le, h.wqes, h.head, h.outstanding_le, h.batches⟩

theorem Stream.setFinal (finalHead finalStaged : U32) :
    Stream head₀ out₀ tasks { q with finalHead := finalHead, finalStaged := finalStaged } :=
  ⟨h.ring.setFinal _ _, h.count_le, h.wqes, h.head, h.outstanding_le, h.batches⟩

end

/-- Copying the batch to the ring moves the border in the stream. -/
theorem Stream.publish (h : Stream head₀ out₀ tasks q)
    (hroom : q.outstanding.toNat + q.batchCount.toNat ≤ usableSqEntries) : Stream head₀ out₀ tasks q.publish := by
  have hissue : List.Forall₂ Wqe.PostedAs ((List.range q.batchCount.toNat).map (Function.update q.issue
      (q.batchCount.toNat - 1) (q.issue (q.batchCount.toNat - 1)).completing)) q.waiting := by
    rw [SendQueue.waiting, forall₂_map_left_iff, forall₂_map_right_iff, forall₂_same]
    intro i _
    rcases eq_or_ne i (q.batchCount.toNat - 1) with rfl | hne
    · exact .inr (Function.update_self ..)
    · exact .inl (Function.update_of_ne hne ..)
  refine ⟨h.ring.publish hroom, Nat.zero_le _, ?_, ?_, ?_, ?_⟩
  · refine postedAs_trans ?_ h.wqes
    show List.Forall₂ _ ((q.batches ++ [_]).flatMap _ ++ []) _
    rw [append_nil, flatMap_append, flatMap_singleton]
    exact rel_append (postedAs_refl _) hissue
  · show q.head + q.batchCount + 0 = _
    rw [add_zero, h.head]
  · show (q.outstanding + q.batchCount).toNat + 0 ≤ _
    have := h.outstanding_le
    rw [BitVec.toNat_add]
    omega
  · intro b hb
    rcases mem_append.1 hb with hb | hb
    · exact h.batches b hb
    · obtain rfl := mem_singleton.1 hb
      refine ⟨?_, h.ring.limit⟩
      simpa using h.count_le

/-- A poll has failed: there were more tasks than the ring has room for. -/
structure Failed (out₀ : ℕ) (tasks : List WriteTask) (q : SendQueue) : Prop where
  flagged : q.dfx.dfxFlags &&& kDispatchDfxQuietError = kDispatchDfxQuietError
  full : usableSqEntries < out₀ + tasks.length

theorem quietError_flagged (dfx : Dfx) (status : ℕ) (phase : U32) :
    (dfx.quietError status phase).dfxFlags &&& kDispatchDfxQuietError = kDispatchDfxQuietError := by
  show (dfx.dfxFlags ||| kDispatchDfxQuietError) &&& kDispatchDfxQuietError = _
  rw [BitVec.and_comm]
  apply BitVec.eq_of_getLsbD_eq
  intro i _
  rw [BitVec.getLsbD_and, BitVec.getLsbD_or]
  cases kDispatchDfxQuietError.getLsbD i <;> simp

theorem Posted.room_toNat (h : Posted q q') : q.outstanding.toNat + q.batchCount.toNat ≤ usableSqEntries :=
  h.outstanding ▸ h.room

/-- Waiting for room and copying the batch: the stream stays, unless a poll fails. -/
theorem Stream.post_cases (cq : ℕ → ℕ → ℕ → Cqe) (h : Stream head₀ out₀ tasks q) (hpos : q.batchCount ≠ 0)
    (phase : U32) : (∃ mid, dispatchEnsureSqBatchCapacity cq q.batchCount phase q = (true, mid) ∧
      Stream head₀ out₀ tasks mid.publish ∧ SameBatch q mid) ∨
    (∃ q', dispatchEnsureSqBatchCapacity cq q.batchCount phase q = (false, q') ∧
      Stream head₀ out₀ tasks q' ∧ Failed out₀ tasks q') := by
  rcases DispatchUrma.post_cases cq h.ring hpos (BitVec.le_def.2 h.count_le) phase with
    ⟨mid, heq, hpolls, hposted, -⟩ | ⟨mid, status, heq, hpolls, hfull, -⟩
  · exact .inl ⟨mid, heq, (h.polls hpolls).publish hposted.room_toNat, hpolls.sameBatch⟩
  · refine .inr ⟨_, heq, (h.polls hpolls).pollError status phase, quietError_flagged .., ?_⟩
    have := (h.polls hpolls).outstanding_le
    obtain ⟨_, _, _, _, _, rfl⟩ := hpolls.sameBatch
    exact hfull.trans_le this

theorem Stream.submit (cq : ℕ → ℕ → ℕ → Cqe) (h : Stream head₀ out₀ tasks q) (phase : U32) :
    (∃ q', submitDispatchWqeBatch cq phase q = (true, q') ∧ Stream head₀ out₀ tasks q' ∧ q'.batchCount = 0) ∨
    (∃ q', submitDispatchWqeBatch cq phase q = (false, q') ∧ Stream head₀ out₀ tasks q' ∧ Failed out₀ tasks q') := by
  unfold submitDispatchWqeBatch
  by_cases hzero : q.batchCount = 0
  · exact .inl ⟨q, by rw [if_pos hzero], h, hzero⟩
  rw [if_neg hzero, if_neg (BitVec.not_lt.2 (BitVec.le_def.2 h.count_le))]
  rcases h.post_cases cq hzero phase with ⟨mid, heq, hstream, -⟩ | ⟨q', heq, hstream, hfailed⟩
  · refine .inl ⟨mid.publish, ?_, hstream, rfl⟩
    rw [heq]
    dsimp only
    rw [publish_batchLimit_ne_zero]
  · refine .inr ⟨q', ?_, hstream, hfailed⟩
    rw [heq]

/-- The final batch is recorded. -/
def SendQueue.FinalStaged (q : SendQueue) : Prop := q.finalStaged = 1 ∧ q.finalHead = q.head

theorem Stream.stage (cq : ℕ → ℕ → ℕ → Cqe) (h : Stream head₀ out₀ tasks q)
    (hpos : q.batchCount ≠ 0) (finalBatch : Bool) (phase : U32) :
    (∃ q', stageDispatchQpBatch cq finalBatch phase q = (true, q') ∧ Stream head₀ out₀ tasks q' ∧
      q'.batchCount = 0 ∧ (finalBatch = true → q'.FinalStaged)) ∨
    (∃ q', stageDispatchQpBatch cq finalBatch phase q = (false, q') ∧ Stream head₀ out₀ tasks q' ∧
      Failed out₀ tasks q') := by
  unfold stageDispatchQpBatch
  rw [if_neg (not_or.2 ⟨hpos, BitVec.not_lt.2 (BitVec.le_def.2 h.count_le)⟩)]
  rcases h.post_cases cq hpos phase with ⟨mid, heq, hstream, -⟩ | ⟨q', heq, hstream, hfailed⟩
  · rw [heq]
    dsimp only
    rw [publish_batchLimit_ne_zero]
    cases finalBatch
    · exact .inl ⟨_, rfl, hstream, rfl, nofun⟩
    · exact .inl ⟨_, rfl, hstream.setFinal _ _, rfl, fun _ => ⟨rfl, rfl⟩⟩
  · refine .inr ⟨q', ?_, hstream, hfailed⟩
    rw [heq]

theorem Stream.limit_pos (h : Stream head₀ out₀ tasks q) : 0 < q.batchLimit.toNat := by
  have hlt : ringPos q.head < 16384 := Nat.mod_lt _ (by decide)
  rw [h.ring.limit, dispatchWqeBatchCount_toNat]
  omega

theorem Stream.limit_le (h : Stream head₀ out₀ tasks q) : q.batchLimit.toNat ≤ 128 := by
  rw [h.ring.limit, dispatchWqeBatchCount_toNat]
  omega

theorem Stream.submitFull (cq : ℕ → ℕ → ℕ → Cqe) (h : Stream head₀ out₀ tasks q) (phase : U32) :
    (∃ q', submitFull cq phase q = (true, q') ∧ Stream head₀ out₀ tasks q' ∧
      q'.batchCount.toNat < q'.batchLimit.toNat) ∨
    (∃ q', submitFull cq phase q = (false, q') ∧ Stream head₀ out₀ tasks q' ∧ Failed out₀ tasks q') := by
  unfold DispatchUrma.submitFull
  by_cases hfull : q.batchCount = q.batchLimit
  · rw [if_pos hfull]
    rcases h.submit cq phase with ⟨q', heq, hstream, hzero⟩ | hfailed
    · refine .inl ⟨q', heq, hstream, ?_⟩
      rw [hzero]
      exact hstream.limit_pos
    · exact .inr hfailed
  · rw [if_neg hfull]
    have hne : q.batchCount.toNat ≠ q.batchLimit.toNat := fun h => hfull (BitVec.eq_of_toNat_eq h)
    have := h.count_le
    exact .inl ⟨q, rfl, h, by omega⟩

end Stream

/-! ## Filling a batch -/

section Fill
variable (uintDiv : U32 → U32 → U32 → U32) (peer : QpPeer) (c : RouteChunk)

def chunkTasks : List WriteTask :=
  (List.range (c.selectedRouteCount.toNat * (dispatchPayloadWqesPerRoute c.hasWeight).toNat)).map
    fun i => dataTask uintDiv peer c (BitVec.ofNat 32 i)

def signalIf (sent : Bool) : List WriteTask := if sent then [signalTask peer c] else []

/-- What a plan puts into a batch. -/
structure PlanOk (available dataTaskCount : U32) (cursor : TaskCursor) (plan : U32 × Bool) : Prop where
  pos : 0 < plan.1.toNat + plan.2.toNat
  le : plan.1.toNat + plan.2.toNat ≤ available.toNat
  within : cursor.dataTaskStart.toNat + plan.1.toNat ≤ dataTaskCount.toNat
  signal : plan.2 = true → cursor.signalPending = true ∧
    cursor.dataTaskStart.toNat + plan.1.toNat = dataTaskCount.toNat

theorem toNat_min (a b : U32) : (if a < b then a else b).toNat = min a.toNat b.toNat := by
  split_ifs with h <;> rw [BitVec.lt_def] at h <;> omega

theorem planBatch_ok (available : U32) {dataTaskCount : U32} {cursor : TaskCursor} (hav : 0 < available.toNat)
    (hstart : cursor.dataTaskStart.toNat ≤ dataTaskCount.toNat)
    (hmore : cursor.dataTaskStart < dataTaskCount ∨ cursor.signalPending = true) :
    PlanOk available dataTaskCount cursor (planBatch available dataTaskCount cursor) := by
  obtain ⟨start, pending⟩ := cursor
  dsimp only at hstart hmore
  have hremaining : (dataTaskCount - start).toNat = dataTaskCount.toNat - start.toNat := by
    rw [BitVec.toNat_sub]
    omega
  simp only [planBatch, hremaining]
  by_cases hnow : pending = true ∧ dataTaskCount.toNat - start.toNat + 1 ≤ available.toNat
  · -- all that is left fits, and the signal behind it
    rw [hnow.1, decide_eq_true hnow.2]
    have hcapacity : (available - 1).toNat = available.toNat - 1 := by
      rw [BitVec.toNat_sub, show (1 : U32).toNat = 1 from rfl]
      omega
    have hcount : (if dataTaskCount - start < available - 1 then dataTaskCount - start
        else available - 1).toNat = dataTaskCount.toNat - start.toNat := by
      rw [toNat_min, hremaining, hcapacity]
      omega
    constructor <;> simp only [Bool.and_self, if_true, hcount, Bool.toNat_true]
    · omega
    · omega
    · omega
    · exact fun _ => ⟨trivial, by omega⟩
  · have hlater : (pending && decide (dataTaskCount.toNat - start.toNat + 1 ≤ available.toNat)) = false := by
      rw [Bool.and_eq_false_iff, decide_eq_false_iff_not]
      rw [not_and] at hnow
      cases pending
      exacts [.inl rfl, .inr (hnow rfl)]
    rw [hlater]
    have hcount : (if dataTaskCount - start < available - 0 then dataTaskCount - start
        else available - 0).toNat = min (dataTaskCount.toNat - start.toNat) available.toNat := by
      rw [sub_zero, toNat_min, hremaining]
    -- a batch without tasks would leave only the signal, which then fits
    have hleft : 0 < dataTaskCount.toNat - start.toNat := by
      rcases hmore with hlt | hpending
      · have := BitVec.lt_def.1 hlt
        omega
      · by_contra hzero
        exact hnow ⟨hpending, by omega⟩
    constructor <;> simp only [Bool.false_eq_true, if_false, hcount, Bool.toNat_false]
    · omega
    · omega
    · omega
    · exact nofun

def planTasks (cursor : TaskCursor) (plan : U32 × Bool) : List WriteTask :=
  (List.range (plan.1.toNat + plan.2.toNat)).map (batchTask uintDiv peer c cursor.dataTaskStart plan.1)

theorem toNat_taskCount (plan : U32 × Bool) (hle : plan.1.toNat + plan.2.toNat ≤ 128) :
    (plan.1 + if plan.2 then 1 else 0).toNat = plan.1.toNat + plan.2.toNat := by
  cases plan.2 <;> rw [BitVec.toNat_add] <;> simp <;> omega

variable {head₀ : U32} {out₀ : ℕ} {tasks : List WriteTask} {q : SendQueue}

theorem Stream.fill (h : Stream head₀ out₀ tasks q) (cursor : TaskCursor) (plan : U32 × Bool)
    (hle : q.batchCount.toNat + (plan.1.toNat + plan.2.toNat) ≤ q.batchLimit.toNat) :
    Stream head₀ out₀ (tasks ++ planTasks uintDiv peer c cursor plan) (fillBatch uintDiv peer c cursor plan q).1 := by
  have hlimit := h.limit_le
  have htaskCount := toNat_taskCount plan (by omega)
  have hcount : (q.batchCount + (plan.1 + if plan.2 then 1 else 0)).toNat =
      q.batchCount.toNat + (plan.1.toNat + plan.2.toNat) := by
    rw [BitVec.toNat_add, htaskCount]
    omega
  have hwaiting : (fillBatch uintDiv peer c cursor plan q).1.waiting = q.waiting ++
      (List.range (plan.1.toNat + plan.2.toNat)).map fun i =>
        (batchTask uintDiv peer c cursor.dataTaskStart plan.1 i).wqe
          (q.head + BitVec.ofNat 32 (q.batchCount.toNat + i)) := by
    show (List.range (q.batchCount + (plan.1 + if plan.2 then 1 else 0)).toNat).map
      (buildDispatchWriteWqeBatch uintDiv peer c cursor.dataTaskStart plan.1 plan.2 q).issue = _
    rw [hcount, range_add, map_append, map_map]
    congr 1
    · refine map_congr_left fun i hi => ?_
      exact if_neg fun hin => absurd (mem_range.1 hi) (by omega)
    · refine map_congr_left fun i hi => ?_
      have hi := mem_range.1 hi
      have hin : q.batchCount.toNat + i <
          q.batchCount.toNat + (plan.1 + if plan.2 then 1 else 0).toNat := by
        rw [htaskCount]
        omega
      exact (if_pos ⟨Nat.le_add_right _ _, hin⟩).trans (by rw [Nat.add_sub_cancel_left])
  refine ⟨h.ring.of_eq rfl rfl rfl rfl, hcount.trans_le hle, ?_, ?_, ?_, h.batches⟩
  · show List.Forall₂ _ (q.posted ++ _) _
    rw [hwaiting, wqesOf_append, planTasks, wqesOf_map_range, ← append_assoc]
    refine rel_append h.wqes ?_
    rw [forall₂_map_left_iff, forall₂_map_right_iff, forall₂_same]
    intro i _
    rw [← h.head, BitVec.ofNat_add, BitVec.ofNat_toNat, BitVec.setWidth_eq, BitVec.add_assoc]
    exact .inl rfl
  · show q.head + (q.batchCount + _) = _
    rw [← BitVec.add_assoc, h.head, length_append, planTasks, length_map, length_range,
      BitVec.ofNat_add, ← htaskCount, BitVec.ofNat_toNat, BitVec.setWidth_eq, BitVec.add_assoc]
  · show q.outstanding.toNat + (q.batchCount + _).toNat ≤ _
    have := h.outstanding_le
    rw [hcount, length_append, planTasks, length_map, length_range]
    omega

theorem planTasks_eq {dataTaskCount : U32} {cursor : TaskCursor} {plan : U32 × Bool} (hcount : dataTaskCount.toNat =
      c.selectedRouteCount.toNat * (dispatchPayloadWqesPerRoute c.hasWeight).toNat)
    (hplan : PlanOk available dataTaskCount cursor plan) : planTasks uintDiv peer c cursor plan =
      ((chunkTasks uintDiv peer c).drop cursor.dataTaskStart.toNat).take plan.1.toNat ++ signalIf peer c plan.2 := by
  have hwithin := hplan.within
  have hdata : (List.range plan.1.toNat).map (batchTask uintDiv peer c cursor.dataTaskStart plan.1) =
      ((chunkTasks uintDiv peer c).drop cursor.dataTaskStart.toNat).take plan.1.toNat := by
    refine ext_getElem ?_ fun i hi hi' => ?_
    · simp [chunkTasks]
      omega
    · have hi : i < plan.1.toNat := by simpa using hi
      simp only [getElem_map, getElem_range, getElem_take, getElem_drop, chunkTasks]
      rw [batchTask, if_pos hi, BitVec.ofNat_add, BitVec.ofNat_toNat, BitVec.setWidth_eq]
  rw [planTasks]
  cases plan.2
  · simpa [signalIf] using hdata
  · rw [Bool.toNat_true, range_succ, map_append, hdata]
    simp [signalIf, batchTask]

end Fill

/-! ## One chunk -/

section Chunk
variable {uintDiv : U32 → U32 → U32 → U32} {cq : ℕ → ℕ → ℕ → Cqe} {peer : QpPeer} {c : RouteChunk}
  {head₀ : U32} {out₀ : ℕ} {base : List WriteTask} {dataTaskCount phase : U32} {appendSignal : Bool}

def chunkStream (uintDiv : U32 → U32 → U32 → U32) (peer : QpPeer) (c : RouteChunk) (appendSignal : Bool) :
    List WriteTask :=
  chunkTasks uintDiv peer c ++ signalIf peer c appendSignal

def sentTasks (uintDiv : U32 → U32 → U32 → U32) (peer : QpPeer) (c : RouteChunk) (appendSignal : Bool)
    (cursor : TaskCursor) : List WriteTask :=
  (chunkTasks uintDiv peer c).take cursor.dataTaskStart.toNat ++
    signalIf peer c (appendSignal && !cursor.signalPending)

/-- A cursor in a chunk: the signal is sent behind all data tasks. -/
structure CursorOk (dataTaskCount : U32) (appendSignal : Bool) (cursor : TaskCursor) : Prop where
  start_le : cursor.dataTaskStart.toNat ≤ dataTaskCount.toNat
  pending : cursor.signalPending = true → appendSignal = true
  sent : (appendSignal && !cursor.signalPending) = true →
    cursor.dataTaskStart.toNat = dataTaskCount.toNat

theorem cursorOk_start : CursorOk dataTaskCount appendSignal ⟨0, appendSignal⟩ :=
  ⟨Nat.zero_le _, id, by simp⟩

theorem sentTasks_start : sentTasks uintDiv peer c appendSignal ⟨0, appendSignal⟩ = [] := by
  simp [sentTasks, signalIf]

theorem length_chunkTasks : (chunkTasks uintDiv peer c).length =
    c.selectedRouteCount.toNat * (dispatchPayloadWqesPerRoute c.hasWeight).toNat := by
  rw [chunkTasks, length_map, length_range]

theorem CursorOk.unsent {cursor : TaskCursor} (h : CursorOk dataTaskCount appendSignal cursor)
    (hmore : cursor.dataTaskStart < dataTaskCount ∨ cursor.signalPending = true) :
    (appendSignal && !cursor.signalPending) = false := by
  by_contra hsent
  have heq := h.sent (Bool.eq_true_of_not_eq_false hsent)
  rcases hmore with hlt | hpending
  · have := BitVec.lt_def.1 hlt
    omega
  · simp [hpending] at hsent

theorem CursorOk.advance (uintDiv : U32 → U32 → U32 → U32) (peer : QpPeer) {cursor : TaskCursor}
    {plan : U32 × Bool} (h : CursorOk dataTaskCount appendSignal cursor)
    (hmore : cursor.dataTaskStart < dataTaskCount ∨ cursor.signalPending = true)
    (hcount : dataTaskCount.toNat = c.selectedRouteCount.toNat * (dispatchPayloadWqesPerRoute c.hasWeight).toNat)
    (hplan : PlanOk available dataTaskCount cursor plan) (q : SendQueue) :
    let cursor' := (fillBatch uintDiv peer c cursor plan q).2
    CursorOk dataTaskCount appendSignal cursor' ∧
      sentTasks uintDiv peer c appendSignal cursor' =
        sentTasks uintDiv peer c appendSignal cursor ++ planTasks uintDiv peer c cursor plan := by
  obtain ⟨start, pending⟩ := cursor
  obtain ⟨n, signal⟩ := plan
  have hwithin : start.toNat + n.toNat ≤ dataTaskCount.toNat := hplan.within
  have hstart : (start + n).toNat = start.toNat + n.toNat := by
    rw [BitVec.toNat_add]
    omega
  have hunsent : (appendSignal && !pending) = false := h.unsent hmore
  have hsent : (appendSignal && !(pending && !signal)) = signal := by
    cases hsig : signal
    · simpa using hunsent
    · have := h.pending (hplan.signal hsig).1
      simp [this]
  show CursorOk dataTaskCount appendSignal ⟨start + n, pending && !signal⟩ ∧ _ = _
  refine ⟨⟨?_, fun hp => h.pending (Bool.and_eq_true_iff.1 hp).1, fun hs => ?_⟩, ?_⟩
  · exact hstart.trans_le hwithin
  · exact hstart.trans (hplan.signal (hsent ▸ hs)).2
  · rw [planTasks_eq uintDiv peer c hcount hplan]
    show (chunkTasks uintDiv peer c).take (start + n).toNat ++
      signalIf peer c (appendSignal && !(pending && !signal)) = (chunkTasks uintDiv peer c).take start.toNat ++
      signalIf peer c (appendSignal && !pending) ++ _
    rw [hsent, hunsent, hstart, take_add]
    simp [signalIf]

theorem PlanOk.tasksLeft_lt (uintDiv : U32 → U32 → U32 → U32) (peer : QpPeer) (c : RouteChunk) {plan : U32 × Bool}
    (q : SendQueue) (s : BuildState) (ok : Bool) (hplan : PlanOk available dataTaskCount s.cursor plan)
    (q' : SendQueue) : tasksLeft dataTaskCount ⟨ok, q', (fillBatch uintDiv peer c s.cursor plan q).2⟩ <
      tasksLeft dataTaskCount s := by
  obtain ⟨n, signal⟩ := plan
  have hwithin : s.cursor.dataTaskStart.toNat + n.toNat ≤ dataTaskCount.toNat := hplan.within
  have hpos : 0 < n.toNat + signal.toNat := hplan.pos
  have hstart : (s.cursor.dataTaskStart + n).toNat = s.cursor.dataTaskStart.toNat + n.toNat := by
    rw [BitVec.toNat_add]
    omega
  simp only [tasksLeft, fillBatch, hstart]
  cases hsig : signal
  · rw [hsig] at hpos
    simp only [Bool.not_false, Bool.and_true]
    have : 0 < n.toNat := hpos
    omega
  · have hpending : s.cursor.signalPending = true := (hplan.signal hsig).1
    simp only [hpending, Bool.not_true, Bool.and_false, Bool.false_eq_true, if_false, if_true]
    omega

theorem sentTasks_end {cursor : TaskCursor}
    (hdone : ¬ (cursor.dataTaskStart < dataTaskCount ∨ cursor.signalPending = true)) (hcount : dataTaskCount.toNat =
      c.selectedRouteCount.toNat * (dispatchPayloadWqesPerRoute c.hasWeight).toNat) :
    sentTasks uintDiv peer c appendSignal cursor = chunkStream uintDiv peer c appendSignal := by
  rw [not_or, BitVec.not_lt, Bool.not_eq_true] at hdone
  have hle := BitVec.le_def.1 hdone.1
  rw [sentTasks, chunkStream, hdone.2, take_of_length_le (by rw [length_chunkTasks]; omega),
    Bool.not_false, Bool.and_true]

theorem CursorOk.exists_rest (uintDiv : U32 → U32 → U32 → U32) (peer : QpPeer) {cursor : TaskCursor}
    (h : CursorOk dataTaskCount appendSignal cursor) (hcount : dataTaskCount.toNat =
      c.selectedRouteCount.toNat * (dispatchPayloadWqesPerRoute c.hasWeight).toNat) :
    ∃ rest, chunkStream uintDiv peer c appendSignal = sentTasks uintDiv peer c appendSignal cursor ++ rest := by
  rw [sentTasks, chunkStream]
  cases hsent : appendSignal && !cursor.signalPending
  · refine ⟨(chunkTasks uintDiv peer c).drop cursor.dataTaskStart.toNat ++ signalIf peer c appendSignal, ?_⟩
    rw [signalIf, signalIf, if_neg Bool.false_ne_true, append_nil, ← append_assoc, take_append_drop]
  · have hall := h.sent hsent
    refine ⟨[], ?_⟩
    rw [(Bool.and_eq_true_iff.1 hsent).1, take_of_length_le (by rw [length_chunkTasks]; omega),
      append_nil]

/-- A builder that stopped: the stream has a first part of the tasks, and a poll has failed. -/
def Stopped (head₀ : U32) (out₀ : ℕ) (all : List WriteTask) (q : SendQueue) : Prop :=
  ∃ sent rest, all = sent ++ rest ∧ Stream head₀ out₀ sent q ∧ Failed out₀ all q

theorem Stopped.append {all more : List WriteTask} {q : SendQueue} (h : Stopped head₀ out₀ all q) :
    Stopped head₀ out₀ (all ++ more) q := by
  obtain ⟨sent, rest, rfl, hstream, hflagged, hfull⟩ := h
  refine ⟨sent, rest ++ more, append_assoc .., hstream, hflagged, ?_⟩
  rw [length_append]
  omega

theorem CursorOk.stopped {cursor : TaskCursor} (h : CursorOk dataTaskCount appendSignal cursor)
    (hcount : dataTaskCount.toNat = c.selectedRouteCount.toNat * (dispatchPayloadWqesPerRoute c.hasWeight).toNat)
    {q : SendQueue} (hstream : Stream head₀ out₀ (base ++ sentTasks uintDiv peer c appendSignal cursor) q)
    (hfailed : Failed out₀ (base ++ sentTasks uintDiv peer c appendSignal cursor) q) :
    Stopped head₀ out₀ (base ++ chunkStream uintDiv peer c appendSignal) q := by
  obtain ⟨rest, hrest⟩ := h.exists_rest uintDiv peer hcount
  rw [hrest, ← append_assoc]
  exact Stopped.append ⟨_, [], (append_nil _).symm, hstream, hfailed⟩

theorem dataTaskCount_le (c : RouteChunk) :
    c.selectedRouteCount.toNat * (dispatchPayloadWqesPerRoute c.hasWeight).toNat ≤ 16384 := by
  have hle : c.selectedRouteCount.toNat ≤ 8192 := c.selected_le
  cases c.hasWeight <;> simp [dispatchPayloadWqesPerRoute] <;> omega

theorem dispatchDataWqeCount_chunk (c : RouteChunk) : dispatchDataWqeCount c.selectedRouteCount.toNat c.hasWeight =
      some (c.selectedRouteCount.toNat * (dispatchPayloadWqesPerRoute c.hasWeight).toNat) := by
  have hle : c.selectedRouteCount.toNat ≤ 8192 := c.selected_le
  simp only [dispatchDataWqeCount]
  refine if_neg (Nat.not_lt.2 ?_)
  cases c.hasWeight
  · exact hle.trans (by decide)
  · exact hle.trans (by decide)

/-- Inside a chunk: the stream has the tasks before the cursor. -/
structure InChunk (uintDiv : U32 → U32 → U32 → U32) (peer : QpPeer) (c : RouteChunk) (head₀ : U32) (out₀ : ℕ)
    (base : List WriteTask) (dataTaskCount : U32) (appendSignal : Bool) (cursor : TaskCursor)
    (q : SendQueue) : Prop where
  count : dataTaskCount.toNat =
    c.selectedRouteCount.toNat * (dispatchPayloadWqesPerRoute c.hasWeight).toNat
  cursor_ok : CursorOk dataTaskCount appendSignal cursor
  stream : Stream head₀ out₀ (base ++ sentTasks uintDiv peer c appendSignal cursor) q

/-- Behind a chunk: the stream has all its tasks, or the builder stopped. -/
def AfterChunk (uintDiv : U32 → U32 → U32 → U32) (peer : QpPeer) (c : RouteChunk) (head₀ : U32) (out₀ : ℕ)
    (base : List WriteTask) (appendSignal : Bool) (r : Bool × SendQueue) : Prop :=
  (r.1 = true ∧ Stream head₀ out₀ (base ++ chunkStream uintDiv peer c appendSignal) r.2) ∨
  (r.1 = false ∧ Stopped head₀ out₀ (base ++ chunkStream uintDiv peer c appendSignal) r.2)

theorem inChunk_start {q : SendQueue} (h : Stream head₀ out₀ base q) (hcount : dataTaskCount.toNat =
      c.selectedRouteCount.toNat * (dispatchPayloadWqesPerRoute c.hasWeight).toNat) :
    InChunk uintDiv peer c head₀ out₀ base dataTaskCount appendSignal ⟨0, appendSignal⟩ q := by
  refine ⟨hcount, cursorOk_start, ?_⟩
  rw [sentTasks_start, append_nil]
  exact h

section InChunk
variable {cursor : TaskCursor} {q : SendQueue}

section
variable (h : InChunk uintDiv peer c head₀ out₀ base dataTaskCount appendSignal cursor q)
include h

theorem InChunk.fill (hmore : cursor.dataTaskStart < dataTaskCount ∨ cursor.signalPending = true) {plan : U32 × Bool}
    (hplan : PlanOk available dataTaskCount cursor plan)
    (hle : q.batchCount.toNat + available.toNat ≤ q.batchLimit.toNat) :
    InChunk uintDiv peer c head₀ out₀ base dataTaskCount appendSignal
      (fillBatch uintDiv peer c cursor plan q).2 (fillBatch uintDiv peer c cursor plan q).1 := by
  obtain ⟨hcursor, hsent⟩ := h.cursor_ok.advance uintDiv peer hmore h.count hplan q
  have hfits := hplan.le
  have hfill := h.stream.fill uintDiv peer c cursor plan (by omega)
  rw [append_assoc, ← hsent] at hfill
  exact ⟨h.count, hcursor, hfill⟩

theorem InChunk.stopped
    {q' : SendQueue} (hstream : Stream head₀ out₀ (base ++ sentTasks uintDiv peer c appendSignal cursor) q')
    (hfailed : Failed out₀ (base ++ sentTasks uintDiv peer c appendSignal cursor) q') :
    AfterChunk uintDiv peer c head₀ out₀ base appendSignal (false, q') :=
  .inr ⟨rfl, h.cursor_ok.stopped h.count hstream hfailed⟩

theorem InChunk.end (hdone : ¬ (cursor.dataTaskStart < dataTaskCount ∨ cursor.signalPending = true)) :
    AfterChunk uintDiv peer c head₀ out₀ base appendSignal (true, q) :=
  .inl ⟨rfl, sentTasks_end hdone h.count ▸ h.stream⟩

end

end InChunk

theorem appendRound_meets {s : BuildState}
    (h : InChunk uintDiv peer c head₀ out₀ base dataTaskCount appendSignal s.cursor s.queue) :
    (appendRound uintDiv cq peer c dataTaskCount phase s).Meets
      (fun s => InChunk uintDiv peer c head₀ out₀ base dataTaskCount appendSignal s.cursor s.queue)
      (fun s => AfterChunk uintDiv peer c head₀ out₀ base appendSignal (s.ok, s.queue))
      (tasksLeft dataTaskCount) s := by
  rw [appendRound]
  by_cases hmore : s.cursor.dataTaskStart < dataTaskCount ∨ s.cursor.signalPending = true
  · rw [if_pos hmore]
    rcases h.stream.submitFull cq phase with ⟨q, heq, hq, hroom⟩ | ⟨q, heq, hq, hfailed⟩
    · rw [heq]
      have hav : (q.batchLimit - q.batchCount).toNat = q.batchLimit.toNat - q.batchCount.toNat := by
        rw [BitVec.toNat_sub]
        omega
      have hplan := planBatch_ok (q.batchLimit - q.batchCount) (by omega) h.cursor_ok.start_le hmore
      have hfill := InChunk.fill ⟨h.count, h.cursor_ok, hq⟩ hmore hplan (by omega)
      have hleft := hplan.tasksLeft_lt uintDiv peer c q s false
      dsimp only
      generalize fillBatch uintDiv peer c s.cursor
        (planBatch (q.batchLimit - q.batchCount) dataTaskCount s.cursor) q = filled at *
      rcases hfill.stream.submitFull cq phase with ⟨q', heq', hq', -⟩ | ⟨q', heq', hq', hfailed⟩
      · rw [heq']
        exact ⟨⟨h.count, hfill.cursor_ok, hq'⟩, hleft q'⟩
      · rw [heq']
        exact hfill.stopped hq' hfailed
    · rw [heq]
      exact h.stopped hq hfailed
  · rw [if_neg hmore]
    exact h.end hmore

/-- What a builder does with one chunk: it needs `I` of the queue and keeps it, and has `E` behind the
signal. -/
def Sends (uintDiv : U32 → U32 → U32 → U32) (peer : QpPeer) (I E : SendQueue → Prop)
    (send : RouteChunk → Bool → SendQueue → Bool × SendQueue) : Prop :=
  ∀ head₀ out₀ base c appendSignal q, Stream head₀ out₀ base q → I q →
    AfterChunk uintDiv peer c head₀ out₀ base appendSignal (send c appendSignal q) ∧
      ((send c appendSignal q).1 = true →
        if appendSignal then E (send c appendSignal q).2 else I (send c appendSignal q).2)

theorem toNat_dataTaskCount (c : RouteChunk) :
    (BitVec.ofNat 32 (c.selectedRouteCount.toNat * (dispatchPayloadWqesPerRoute c.hasWeight).toNat)).toNat =
      c.selectedRouteCount.toNat * (dispatchPayloadWqesPerRoute c.hasWeight).toNat := by
  have hle := dataTaskCount_le c
  rw [BitVec.toNat_ofNat]
  omega

/-- `AppendDispatchWqes` carries a partial batch on to the next chunk and submits it behind the signal. -/
theorem appendDispatchWqes_sends (cq : ℕ → ℕ → ℕ → Cqe) (phase : U32) :
    Sends uintDiv peer (fun _ => True) (fun q => q.batchCount = 0)
      fun c appendSignal q => appendDispatchWqes uintDiv cq peer c appendSignal phase q := by
  intro head₀ out₀ base c appendSignal q hstream _
  have hfits : ¬ c.selectedRouteCount.toNat * (dispatchPayloadWqesPerRoute c.hasWeight).toNat > uint32Max :=
    Nat.not_lt.2 ((dataTaskCount_le c).trans (by decide))
  have hloop := @loop_meets BuildState _ _ _ _
    (fun s h => @appendRound_meets uintDiv cq peer c head₀ out₀ base _ phase appendSignal s h)
    ⟨false, q, 0, appendSignal⟩ (inChunk_start hstream (toNat_dataTaskCount c))
  simp only [appendDispatchWqes, dispatchDataWqeCount_chunk, if_neg hfits]
  generalize loop _ _ _ = s at *
  rcases hloop with ⟨hok, hs⟩ | ⟨hok, hs⟩
  · dsimp only at hok hs
    rw [hok, if_neg Bool.true_eq_false_eq_False]
    cases appendSignal with
    | false => exact ⟨.inl ⟨rfl, hs⟩, fun _ => trivial⟩
    | true =>
      rw [if_neg Bool.true_eq_false_eq_False]
      rcases hs.submit cq phase with ⟨q', heq, hq', hzero⟩ | ⟨q', heq, hq', hfailed⟩
      · rw [heq]
        exact ⟨.inl ⟨rfl, hq'⟩, fun _ => hzero⟩
      · rw [heq]
        exact ⟨.inr ⟨rfl, _, [], (append_nil _).symm, hq', hfailed⟩, nofun⟩
  · dsimp only at hok hs
    rw [hok, if_pos rfl]
    exact ⟨.inr ⟨rfl, hs⟩, nofun⟩

/-! ### The grouped builder -/

/-- Between the batches of the grouped builder the issue buffer is empty, and the signal is in a batch that
was staged as the final one. -/
structure Between (appendSignal : Bool) (cursor : TaskCursor) (q : SendQueue) : Prop where
  empty : q.batchCount = 0
  final : (appendSignal && !cursor.signalPending) = true → q.FinalStaged

theorem dispatchBuildGroupedQpBatch_eq {cursor : TaskCursor} {q : SendQueue} (hempty : q.batchCount = 0)
    (h : InChunk uintDiv peer c head₀ out₀ base dataTaskCount appendSignal cursor q)
    (hmore : cursor.dataTaskStart < dataTaskCount ∨ cursor.signalPending = true)
    (hplan : PlanOk q.batchLimit dataTaskCount cursor (planBatch q.batchLimit dataTaskCount cursor)) :
    let plan := planBatch q.batchLimit dataTaskCount cursor
    let filled := fillBatch uintDiv peer c cursor plan q
    dispatchBuildGroupedQpBatch uintDiv peer c cursor q = (true, filled.1, filled.2, plan.2) := by
  have hfits : ¬ c.selectedRouteCount.toNat * (dispatchPayloadWqesPerRoute c.hasWeight).toNat > uint32Max :=
    Nat.not_lt.2 ((dataTaskCount_le c).trans (by decide))
  have hcount : BitVec.ofNat 32 (c.selectedRouteCount.toNat *
      (dispatchPayloadWqesPerRoute c.hasWeight).toNat) = dataTaskCount := by
    rw [← h.count, BitVec.ofNat_toNat, BitVec.setWidth_eq]
  have hreset : { q with batchCount := 0 } = q := by
    rw [← hempty]
  have hleft : ¬ (cursor.dataTaskStart ≥ dataTaskCount ∧ cursor.signalPending = false) := by
    rintro ⟨hge, hnone⟩
    rcases hmore with hlt | hpending
    · exact absurd hlt (BitVec.not_lt.2 hge)
    · rw [hnone] at hpending
      cases hpending
  have hlimit : ¬ q.batchLimit = 0 := by
    intro hzero
    have := h.stream.limit_pos
    rw [hzero] at this
    exact absurd this (Nat.lt_irrefl 0)
  have hsome : ¬ ((planBatch q.batchLimit dataTaskCount cursor).1 = 0 ∧
      (planBatch q.batchLimit dataTaskCount cursor).2 = false) := by
    rintro ⟨hzero, hnone⟩
    have := hplan.pos
    rw [hzero, hnone] at this
    exact absurd this (Nat.lt_irrefl 0)
  simp only [dispatchBuildGroupedQpBatch, dispatchDataWqeCount_chunk, if_neg hfits, hcount, hreset,
    if_neg hleft, if_neg hlimit, if_neg hsome]

theorem PlanOk.fill_ne_zero (uintDiv : U32 → U32 → U32 → U32) (peer : QpPeer) (c : RouteChunk)
    {cursor : TaskCursor} {plan : U32 × Bool} {q : SendQueue}
    (hplan : PlanOk available dataTaskCount cursor plan) (hempty : q.batchCount = 0)
    (hle : available.toNat ≤ 128) : (fillBatch uintDiv peer c cursor plan q).1.batchCount ≠ 0 := by
  have hpos := hplan.pos
  have hcount := toNat_taskCount plan (hplan.le.trans hle)
  intro hzero
  rw [fillBatch, hempty] at hzero
  dsimp only at hzero
  rw [zero_add] at hzero
  rw [hzero] at hcount
  exact absurd hpos (Nat.not_lt.2 hcount.ge)

/-- The cursor passes the signal only with a batch that has it. -/
theorem CursorOk.passed (uintDiv : U32 → U32 → U32 → U32) (peer : QpPeer) (c : RouteChunk) {cursor : TaskCursor}
    (h : CursorOk dataTaskCount appendSignal cursor)
    (hmore : cursor.dataTaskStart < dataTaskCount ∨ cursor.signalPending = true) (plan : U32 × Bool) (q : SendQueue)
    (hsent : (appendSignal && !(fillBatch uintDiv peer c cursor plan q).2.signalPending) = true) : plan.2 = true := by
  have hunsent := h.unsent hmore
  by_contra hnot
  simp [fillBatch, Bool.eq_false_of_not_eq_true hnot, hunsent] at hsent

theorem groupedRound_meets {s : BuildState}
    (h : InChunk uintDiv peer c head₀ out₀ base dataTaskCount appendSignal s.cursor s.queue ∧
      Between appendSignal s.cursor s.queue) : (groupedRound uintDiv cq peer c dataTaskCount phase s).Meets
      (fun s => InChunk uintDiv peer c head₀ out₀ base dataTaskCount appendSignal s.cursor s.queue ∧
        Between appendSignal s.cursor s.queue)
      (fun s => AfterChunk uintDiv peer c head₀ out₀ base appendSignal (s.ok, s.queue) ∧
        (s.ok = true → s.queue.batchCount = 0 ∧ (appendSignal = true → s.queue.FinalStaged)))
      (tasksLeft dataTaskCount) s := by
  obtain ⟨h, hbetween⟩ := h
  rw [groupedRound]
  by_cases hmore : s.cursor.dataTaskStart < dataTaskCount ∨ s.cursor.signalPending = true
  · have hplan := planBatch_ok s.queue.batchLimit h.stream.limit_pos h.cursor_ok.start_le hmore
    have hfill := h.fill hmore hplan (by rw [hbetween.empty]; exact (Nat.zero_add _).le)
    have hleft := hplan.tasksLeft_lt uintDiv peer c s.queue s false
    rw [if_pos hmore, dispatchBuildGroupedQpBatch_eq hbetween.empty h hmore hplan]
    dsimp only
    rw [if_neg (hplan.fill_ne_zero uintDiv peer c hbetween.empty h.stream.limit_le)]
    have hpassed := h.cursor_ok.passed uintDiv peer c hmore
      (planBatch s.queue.batchLimit dataTaskCount s.cursor) s.queue
    have hstage := hfill.stream.stage cq
      (hplan.fill_ne_zero uintDiv peer c hbetween.empty h.stream.limit_le)
      (planBatch s.queue.batchLimit dataTaskCount s.cursor).2 phase
    generalize fillBatch uintDiv peer c s.cursor
      (planBatch s.queue.batchLimit dataTaskCount s.cursor) s.queue = filled at *
    rcases hstage with ⟨q', heq, hq', hzero, hfinal⟩ | ⟨q', heq, hq', hfailed⟩
    · rw [heq]
      exact ⟨⟨⟨h.count, hfill.cursor_ok, hq'⟩, hzero, fun hsent => hfinal (hpassed hsent)⟩, hleft q'⟩
    · rw [heq]
      exact ⟨hfill.stopped hq' hfailed, nofun⟩
  · rw [if_neg hmore]
    refine ⟨h.end hmore, fun _ => ⟨hbetween.empty, fun hsignal => hbetween.final ?_⟩⟩
    rw [not_or, Bool.not_eq_true] at hmore
    rw [hsignal, hmore.2]
    rfl

/-- The grouped builder stages every batch and records the one with the signal as the final one. -/
theorem groupedChunk_sends (cq : ℕ → ℕ → ℕ → Cqe) (group : U32) :
    Sends uintDiv peer (fun q => q.batchCount = 0) (fun q => q.batchCount = 0 ∧ q.FinalStaged)
      fun c appendSignal q => groupedChunk uintDiv cq peer c appendSignal group q := by
  intro head₀ out₀ base c appendSignal q hstream hempty
  have hcount : (c.selectedRouteCount * dispatchPayloadWqesPerRoute c.hasWeight).toNat =
      c.selectedRouteCount.toNat * (dispatchPayloadWqesPerRoute c.hasWeight).toNat := by
    have hle := dataTaskCount_le c
    rw [BitVec.toNat_mul]
    omega
  have hloop := @loop_meets BuildState _ _ _ _
    (fun s h => @groupedRound_meets uintDiv cq peer c head₀ out₀ base _ group appendSignal s h)
    ⟨false, q, 0, appendSignal⟩ ⟨inChunk_start hstream hcount, hempty, by simp⟩
  refine ⟨hloop.1, fun hok => ?_⟩
  have hend := hloop.2 hok
  cases appendSignal with
  | false => exact hend.1
  | true => exact ⟨hend.1, hend.2 rfl⟩

end Chunk

/-! ## All chunks -/

/-- The tasks of a peer: the data tasks of all chunks, and the signal. -/
def peerTasks (uintDiv : U32 → U32 → U32 → U32) (peer : QpPeer) (chunks : List RouteChunk)
    (last : RouteChunk) : List WriteTask :=
  (chunks ++ [last]).flatMap (chunkTasks uintDiv peer) ++ [signalTask peer last]

theorem sendChunks_cases {uintDiv : U32 → U32 → U32 → U32} {peer : QpPeer}
    (hsend : Sends uintDiv peer I E send) {head₀ : U32} {out₀ : ℕ} (chunks : List RouteChunk)
    (last : RouteChunk) {base : List WriteTask} {q : SendQueue} (hstream : Stream head₀ out₀ base q)
    (hI : I q) : let r := sendChunks send chunks last q
    let all := base ++ peerTasks uintDiv peer chunks last
    (r.1 = true ∧ Stream head₀ out₀ all r.2 ∧ E r.2) ∨ (r.1 = false ∧ Stopped head₀ out₀ all r.2) := by
  induction chunks generalizing base q with
  | nil =>
    obtain ⟨hafter, hE⟩ := hsend head₀ out₀ base last true q hstream hI
    have hall : chunkStream uintDiv peer last true = peerTasks uintDiv peer [] last := by
      simp [chunkStream, peerTasks, signalIf]
    rw [AfterChunk, hall] at hafter
    rcases hafter with ⟨hok, hs⟩ | hstopped
    · exact .inl ⟨hok, hs, hE hok⟩
    · exact .inr hstopped
  | cons c chunks ih =>
    obtain ⟨hafter, hI'⟩ := hsend head₀ out₀ base c false q hstream hI
    have hall : chunkStream uintDiv peer c false ++ peerTasks uintDiv peer chunks last =
        peerTasks uintDiv peer (c :: chunks) last := by
      simp [chunkStream, peerTasks, signalIf]
    rw [sendChunks, ← hall, ← append_assoc]
    rcases hsent : send c false q with ⟨ok, q'⟩
    rw [hsent] at hafter hI'
    rcases hafter with ⟨rfl, hs⟩ | ⟨rfl, hs⟩
    · exact ih hs (hI' rfl)
    · exact .inr ⟨rfl, hs.append⟩

/-- What a builder did with a peer's tasks. If it succeeds it has posted them all, in order and each once,
with the signal at the end; if not, a poll has failed in a ring without room for them, and it has posted a
first part. -/
structure PostsAll (words : QueueWords) (tasks : List WriteTask) (r : Bool × SendQueue) : Prop where
  posted : r.1 = true →
    List.Forall₂ Wqe.PostedAs r.2.posted (wqesOf words.sqHead tasks) ∧ r.2.batchCount = 0
  stopped : r.1 = false →
    (∃ sent, sent <+: tasks ∧ List.Forall₂ Wqe.PostedAs r.2.posted (wqesOf words.sqHead sent)) ∧
      r.2.dfx.dfxFlags &&& kDispatchDfxQuietError = kDispatchDfxQuietError ∧
      usableSqEntries < (words.sqHead - words.sqTail).toNat + tasks.length
  batches : ∀ b ∈ r.2.batches, b.wqes.length ≤ b.limit.toNat ∧ b.limit = dispatchWqeBatchCount b.head

theorem stream_init {words : QueueWords} {issue ring : ℕ → Wqe} {dfx : Dfx}
    (h : words.sqHead - words.sqTail < TILEXR_UDMA_SQ_BB_COUNT) :
    Stream words.sqHead (words.sqHead - words.sqTail).toNat []
      (initDispatchWqeBatchState words issue ring dfx).2 where
  ring := ringOk_init h
  count_le := Nat.zero_le _
  wqes := .nil
  head := by
    dsimp only [initDispatchWqeBatchState, length_nil]
    rfl
  outstanding_le := Nat.le_refl _
  batches := nofun

theorem Stream.posted_of_empty {head₀ : U32} {out₀ : ℕ} {tasks : List WriteTask} {q : SendQueue}
    (h : Stream head₀ out₀ tasks q) (hempty : q.batchCount = 0) :
    List.Forall₂ Wqe.PostedAs q.posted (wqesOf head₀ tasks) := by
  have hwqes := h.wqes
  rw [SendQueue.waiting, hempty] at hwqes
  simpa using hwqes

theorem Stream.posted_first {head₀ : U32} {out₀ : ℕ} {tasks : List WriteTask} {q : SendQueue}
    (h : Stream head₀ out₀ tasks q) :
    List.Forall₂ Wqe.PostedAs q.posted (wqesOf head₀ (tasks.take q.posted.length)) := by
  have hwqes := forall₂_take q.posted.length h.wqes
  rw [take_left] at hwqes
  have htake : (wqesOf head₀ tasks).take q.posted.length = wqesOf head₀ (tasks.take q.posted.length) := by
    refine ext_getElem (by simp [wqesOf]) fun i hi hi' => ?_
    simp [wqesOf]
  rwa [htake] at hwqes

theorem sendChunks_postsAll {uintDiv : U32 → U32 → U32 → U32} {peer : QpPeer}
    (hsend : Sends uintDiv peer I E send)
    (hE : ∀ q, E q → q.batchCount = 0) (words : QueueWords) (issue ring : ℕ → Wqe) (dfx : Dfx)
    (h : words.sqHead - words.sqTail < TILEXR_UDMA_SQ_BB_COUNT)
    (hI : I (initDispatchWqeBatchState words issue ring dfx).2) (chunks : List RouteChunk)
    (last : RouteChunk) :
    let r := sendChunks send chunks last (initDispatchWqeBatchState words issue ring dfx).2
    PostsAll words (peerTasks uintDiv peer chunks last) r ∧ (r.1 = true → E r.2) := by
  intro r
  rcases sendChunks_cases hsend chunks last (stream_init h) hI with ⟨hok, hs, hend⟩ | ⟨hok, hs⟩
  · have hempty := hE _ hend
    refine ⟨⟨fun _ => ⟨hs.posted_of_empty hempty, hempty⟩, fun hfalse => ?_, hs.batches⟩, fun _ => hend⟩
    exact absurd (hok.symm.trans hfalse) Bool.true_eq_false_eq_False
  · obtain ⟨sent, rest, hall, hstream, hflagged, hfull⟩ := hs
    rw [nil_append] at hall hfull
    refine ⟨⟨fun htrue => ?_, fun _ => ⟨⟨_, ?_, hstream.posted_first⟩, hflagged, hfull⟩,
      hstream.batches⟩, fun htrue => ?_⟩
    · exact absurd (hok.symm.trans htrue) Bool.false_ne_true
    · refine ⟨sent.drop r.2.posted.length ++ rest, ?_⟩
      rw [← append_assoc, take_append_drop, hall]
    · exact absurd (hok.symm.trans htrue) Bool.false_ne_true

end TileXR.DispatchUrma
