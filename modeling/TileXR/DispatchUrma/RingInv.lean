import TileXR.DispatchUrma.Ring

/-!
# The ring over a run

`RingOk`: the outstanding count is the distance of the counters and below the size of the ring. A poll
takes records that all name outstanding entries and moves the tail behind the furthest of them (`Polled`),
or it fails, for want of a record or at a bad one (`PollFailed`), and leaves the queue as it was; a
submission polls until there is room and then copies its batch to free positions (`Posted`), or fails with
the first poll that does. Every run keeps `RingOk`, so every call of every run does one of these.
-/

namespace TileXR.DispatchUrma
open Lib Udma

structure RingOk (q : SendQueue) : Prop where
  outstanding_eq : q.outstanding = q.head - q.tail
  outstanding_lt : q.outstanding.toNat < 16384
  limit : q.batchLimit = dispatchWqeBatchCount q.head

theorem RingOk.of_eq {q q' : SendQueue} (h : RingOk q) (hhead : q'.head = q.head) (htail : q'.tail = q.tail)
    (houtstanding : q'.outstanding = q.outstanding) (hlimit : q'.batchLimit = q.batchLimit) : RingOk q' := by
  constructor
  · rw [houtstanding, hhead, htail, h.outstanding_eq]
  · rw [houtstanding]
    exact h.outstanding_lt
  · rw [hlimit, hhead, h.limit]

theorem RingOk.setFinal {q : SendQueue} (h : RingOk q) (finalHead finalStaged : U32) :
    RingOk { q with finalHead := finalHead, finalStaged := finalStaged } := h.of_eq rfl rfl rfl rfl

/-! ## One poll -/

/-- The hardware has written record `i` in this lap. -/
def SendQueue.Ready (q : SendQueue) (cqe : Cqe) (i : ℕ) : Prop :=
  cqe.owner ≠ validOwner (q.cqTail + BitVec.ofNat 32 i)

def Cqe.Succeeded (cqe : Cqe) : Prop := cqe.status = 0 ∧ cqe.substatus = 0

/-- A completion names the `k`-th outstanding entry, counted from 0. -/
def SendQueue.Names (q : SendQueue) (cqe : Cqe) (k : ℕ) : Prop :=
  k < q.outstanding.toNat ∧ cqe.entryIdx.toNat % 16384 = ringPos (q.tail + BitVec.ofNat 32 k)

/-- A record that stops a poll with `status`: it reports an error, or it names no outstanding entry. -/
def SendQueue.Refused (q : SendQueue) (cqe : Cqe) (status : ℕ) : Prop :=
  (¬ Cqe.Succeeded cqe ∧ status = cqe.status.toNat * 2 ^ 8 + cqe.substatus.toNat) ∨
  (Cqe.Succeeded cqe ∧ (∀ k, ¬ q.Names cqe k) ∧ status = 0xFE)

theorem SendQueue.Refused.ne_zero {q : SendQueue} {cqe : Cqe} {status : ℕ} (h : q.Refused cqe status) :
    status ≠ 0 := by
  rcases h with ⟨hbad, rfl⟩ | ⟨-, -, rfl⟩
  · intro h0
    exact hbad ⟨BitVec.eq_of_toNat_eq (by simp; omega), BitVec.eq_of_toNat_eq (by simp; omega)⟩
  · decide

theorem ringPos_entryIdx (cqe : Cqe) : ringPos (cqe.entryIdx.setWidth 32) = cqe.entryIdx.toNat % 16384 := by
  rw [ringPos, BitVec.toNat_setWidth_of_le (by decide)]

/-- `DispatchSqTailIsFurther` keeps the larger distance from the tail. -/
theorem further_eq (tail : U32) {a b : ℕ} (ha : a < 2 ^ 32) (hb : b < 2 ^ 32) :
    (if tail + BitVec.ofNat 32 a - tail > tail + BitVec.ofNat 32 b - tail then tail + BitVec.ofNat 32 a
      else tail + BitVec.ofNat 32 b) = tail + BitVec.ofNat 32 (max b a) := by
  have hsub : ∀ {n : ℕ}, n < 2 ^ 32 → (tail + BitVec.ofNat 32 n - tail).toNat = n := fun {n} hn => by
    rw [BitVec.add_comm, BitVec.add_sub_cancel, BitVec.toNat_ofNat, Nat.mod_eq_of_lt hn]
  have hlt : (tail + BitVec.ofNat 32 a - tail > tail + BitVec.ofNat 32 b - tail) ↔ b < a := by
    rw [gt_iff_lt, BitVec.lt_def, hsub ha, hsub hb]
  by_cases h : b < a
  · rw [if_pos (hlt.2 h), Nat.max_eq_right h.le]
  · rw [if_neg (mt hlt.1 h), Nat.max_eq_left (by omega)]

section Scan
variable {q : SendQueue} {record : ℕ → Cqe} (hq : q.outstanding.toNat < 16384)
include hq

/-- What a scan from record `i` on has found up to record `i'`: the furthest tail was `m` entries behind
the tail before and is `m'` behind it now. -/
structure Scanned (q : SendQueue) (record : ℕ → Cqe) (i i' m m' : ℕ) : Prop where
  le : i ≤ i'
  mono : m ≤ m'
  bound : m' ≤ q.outstanding.toNat
  ready : ∀ j, i ≤ j → j < i' → q.Ready (record j) j ∧ Cqe.Succeeded (record j)
  names : ∀ j, i ≤ j → j < i' → ∃ k < m', q.Names (record j) k
  furthest : m' = m ∨ ∃ j, i ≤ j ∧ j < i' ∧ q.Names (record j) (m' - 1)

omit hq in
theorem Scanned.refl {i m : ℕ} (hm : m ≤ q.outstanding.toNat) : Scanned q record i i m m :=
  ⟨le_rfl, le_rfl, hm, fun _ h h' => absurd h (by omega), fun _ h h' => absurd h (by omega), .inl rfl⟩

theorem scanRecords_ok {n i m : ℕ} (hm : m ≤ q.outstanding.toNat) {i' : ℕ} {t : U32}
    (h : scanRecords q record n i (q.tail + BitVec.ofNat 32 m) = .ok (i', t)) :
    ∃ m', t = q.tail + BitVec.ofNat 32 m' ∧ Scanned q record i i' m m' ∧ i' ≤ i + n ∧
      (i' < i + n → ¬ q.Ready (record i') i') := by
  induction n generalizing i m with
  | zero =>
    obtain ⟨rfl, rfl⟩ := Prod.mk.inj (Except.ok.inj h)
    exact ⟨m, rfl, .refl hm, by omega, fun h => absurd h (by omega)⟩
  | succ n ih =>
    rw [scanRecords] at h
    split_ifs at h with howner hstatus
    · obtain ⟨rfl, rfl⟩ := Prod.mk.inj (Except.ok.inj h)
      exact ⟨m, rfl, .refl hm, by omega, fun _ hready => hready howner⟩
    · split at h
      · cases h
      · rename_i candidate hcandidate
        obtain ⟨k, hk, hpos, rfl⟩ := (dispatchCompletedSqTail_eq_some_iff hq).1 hcandidate
        rw [ringPos_entryIdx] at hpos
        rw [further_eq q.tail (by omega) (by omega)] at h
        obtain ⟨m', ht, hscan, hle, hstop⟩ := ih (by omega) h
        have hi := hscan.le
        have hmono := hscan.mono
        rw [not_or, not_not, not_not] at hstatus
        refine ⟨m', ht, ⟨by omega, by omega, hscan.bound, fun j hj hj' => ?_, fun j hj hj' => ?_, ?_⟩,
          by omega, fun hlt => hstop (by omega)⟩
        · rcases Nat.eq_or_lt_of_le hj with rfl | hj
          · exact ⟨howner, hstatus⟩
          · exact hscan.ready j hj hj'
        · rcases Nat.eq_or_lt_of_le hj with rfl | hj
          · exact ⟨k, by omega, hk, hpos⟩
          · exact hscan.names j hj hj'
        · -- the furthest is the old one, this record's or a later one's
          rcases hscan.furthest with heq | ⟨j, hj, hj', hnames⟩
          · rcases Nat.le_total m (k + 1) with hmk | hmk
            · refine .inr ⟨i, le_rfl, by omega, ?_⟩
              rw [heq, Nat.max_eq_right hmk]
              exact ⟨hk, hpos⟩
            · exact .inl (by omega)
          · exact .inr ⟨j, by omega, hj', hnames⟩

/-- A scan stops with an error only at a record that is refused. -/
theorem scanRecords_error {n i : ℕ} {t : U32} {status : ℕ} (h : scanRecords q record n i t = .error status) :
    ∃ j, i ≤ j ∧ j < i + n ∧ q.Ready (record j) j ∧ q.Refused (record j) status := by
  induction n generalizing i t with
  | zero => cases h
  | succ n ih =>
    rw [scanRecords] at h
    split_ifs at h with howner hstatus
    · exact ⟨i, le_rfl, by omega, howner, .inl ⟨fun hgood => hstatus.elim (· hgood.1) (· hgood.2),
        (Except.error.inj h).symm⟩⟩
    · split at h
      · rename_i hnone
        rw [not_or, not_not, not_not] at hstatus
        refine ⟨i, le_rfl, by omega, howner, .inr ⟨hstatus, fun k ⟨hk, hpos⟩ => ?_, (Except.error.inj h).symm⟩⟩
        rw [← ringPos_entryIdx] at hpos
        have := (dispatchCompletedSqTail_eq_some_iff hq).2 ⟨k, hk, hpos, rfl⟩
        rw [hnone] at this
        cases this
      · obtain ⟨j, hj, hj', hrest⟩ := ih h
        exact ⟨j, by omega, by omega, hrest⟩

end Scan

/-- A poll that took the records `0, …, n - 1` of a copy, of which one names the `k`-th outstanding entry
and none a later one. -/
structure PolledBy (q : SendQueue) (record : ℕ → Cqe) (n k : ℕ) (q' : SendQueue) : Prop where
  pos : 0 < n
  le : n ≤ (dispatchCqePollBatchCount q.cqTail).toNat
  ready : ∀ i < n, q.Ready (record i) i ∧ Cqe.Succeeded (record i)
  stop : n < (dispatchCqePollBatchCount q.cqTail).toNat → ¬ q.Ready (record n) n
  names : ∀ i < n, ∃ j ≤ k, q.Names (record i) j
  furthest : ∃ i < n, q.Names (record i) k
  within : k < (q.head - q.tail).toNat
  eq : q' = { q.take n (q.tail + BitVec.ofNat 32 (k + 1)) with polls := q.polls + 1 }

def Polled (cq : ℕ → ℕ → ℕ → Cqe) (q q' : SendQueue) : Prop :=
  ∃ retry n k, PolledBy q (q.record cq retry) n k q'

/-- Why a poll fails with `status`: no copy has a record that is ready, or a record of a copy is refused. -/
def PollFailed (cq : ℕ → ℕ → ℕ → Cqe) (q : SendQueue) (status : ℕ) : Prop :=
  (status = 0xFF ∧ ∀ retry < TILEXR_UDMA_MAX_RETRY_TIMES, ¬ q.Ready (q.record cq retry 0) 0) ∨
  ∃ retry < TILEXR_UDMA_MAX_RETRY_TIMES, ∃ i < (dispatchCqePollBatchCount q.cqTail).toNat,
    q.Ready (q.record cq retry i) i ∧ q.Refused (q.record cq retry i) status

theorem PollFailed.ne_zero {cq : ℕ → ℕ → ℕ → Cqe} {q : SendQueue} {status : ℕ} (h : PollFailed cq q status) :
    status ≠ 0 := by
  rcases h with ⟨rfl, -⟩ | ⟨_, -, _, -, -, hrefused⟩
  exacts [by decide, hrefused.ne_zero]

theorem pollCount_pos (cqTail : U32) : 0 < (dispatchCqePollBatchCount cqTail).toNat := by
  rw [dispatchCqePollBatchCount_toNat]
  omega

theorem pollRetries_cases {q : SendQueue} (record : ℕ → ℕ → Cqe) (hq : q.outstanding.toNat < 16384)
    {pollCount : ℕ} (hpos : 0 < pollCount) (n retry : ℕ) : (∃ r i m, pollRetries q record pollCount n retry =
      (0, q.take i (q.tail + BitVec.ofNat 32 m)) ∧ 0 < i ∧ i ≤ pollCount ∧
      Scanned q (record r) 0 i 0 m ∧ (i < pollCount → ¬ q.Ready (record r i) i)) ∨
    (∃ status, pollRetries q record pollCount n retry = (status, q) ∧
      ((status = 0xFF ∧ ∀ r, retry ≤ r → r < retry + n → ¬ q.Ready (record r 0) 0) ∨
        ∃ r < retry + n, ∃ i < pollCount, q.Ready (record r i) i ∧ q.Refused (record r i) status)) := by
  induction n generalizing retry with
  | zero => exact .inr ⟨_, rfl, .inl ⟨rfl, fun r _ _ => by omega⟩⟩
  | succ n ih =>
    rw [pollRetries]
    split
    · rename_i status hscan
      obtain ⟨j, -, hj, hready, hrefused⟩ := scanRecords_error hq hscan
      exact .inr ⟨status, rfl, .inr ⟨retry, by omega, j, by omega, hready, hrefused⟩⟩
    · rename_i t hscan
      rw [← BitVec.add_zero q.tail] at hscan
      obtain ⟨-, -, -, -, hstop⟩ := scanRecords_ok (m := 0) hq (Nat.zero_le _) hscan
      rw [show retry + (n + 1) = retry + 1 + n by omega]
      -- the first record of this copy was not ready
      rcases ih (retry + 1) with hfound | ⟨status, heq, ⟨rfl, hsilent⟩ | hrefused⟩
      · exact .inl hfound
      · refine .inr ⟨_, heq, .inl ⟨rfl, fun r hr hr' => ?_⟩⟩
        rcases Nat.eq_or_lt_of_le hr with rfl | hr
        exacts [hstop (by omega), hsilent r hr hr']
      · exact .inr ⟨status, heq, .inr hrefused⟩
    · rename_i i t hscan
      rw [← BitVec.add_zero q.tail] at hscan
      obtain ⟨m, rfl, hfound, hle, hstop⟩ := scanRecords_ok (m := 0) hq (Nat.zero_le _) hscan
      exact .inl ⟨retry, i + 1, m, rfl, Nat.succ_pos _, by omega, hfound, fun h => hstop (by omega)⟩

theorem dispatchPollCqBatch_eq (cq : ℕ → ℕ → ℕ → Cqe) (q : SendQueue) :
    dispatchPollCqBatch cq q =
      let r := pollRetries q (q.record cq) (dispatchCqePollBatchCount q.cqTail).toNat
        TILEXR_UDMA_MAX_RETRY_TIMES 0
      (r.1, { r.2 with polls := q.polls + 1 }) := by
  have hpos := pollCount_pos q.cqTail
  have hne : dispatchCqePollBatchCount q.cqTail ≠ 0 := fun h => by
    rw [h] at hpos
    exact absurd hpos (by decide)
  unfold dispatchPollCqBatch
  simp only [if_neg hne]

/-- A poll takes records, or it fails and leaves the queue as it was. -/
theorem dispatchPollCqBatch_cases (cq : ℕ → ℕ → ℕ → Cqe) {q : SendQueue} (hq : RingOk q) :
    (∃ q', dispatchPollCqBatch cq q = (0, q') ∧ Polled cq q q') ∨
    (∃ status, dispatchPollCqBatch cq q = (status + 1, { q with polls := q.polls + 1 }) ∧
      PollFailed cq q (status + 1)) := by
  rw [dispatchPollCqBatch_eq]
  rcases pollRetries_cases (q.record cq) hq.outstanding_lt (pollCount_pos q.cqTail)
      TILEXR_UDMA_MAX_RETRY_TIMES 0 with ⟨r, i, m, heq, hi, hle, hfound, hstop⟩ | ⟨status, heq, hstatus⟩
  · rw [heq]
    refine .inl ⟨_, rfl, ?_⟩
    -- the first record names an entry, so the tail has moved
    obtain ⟨k, hk, -⟩ := hfound.names 0 le_rfl hi
    rcases hfound.furthest with rfl | ⟨j, -, hj, hnames⟩
    · exact absurd hk (Nat.not_lt_zero _)
    · refine ⟨r, i, m - 1, hi, hle, fun j hj => hfound.ready j (Nat.zero_le _) hj, hstop,
        fun j hj => ?_, ⟨j, hj, hnames⟩, hq.outstanding_eq ▸ hnames.1, ?_⟩
      · obtain ⟨k', hk', hnames'⟩ := hfound.names j (Nat.zero_le _) hj
        exact ⟨k', by omega, hnames'⟩
      · rw [show m - 1 + 1 = m by omega]
  · rw [Nat.zero_add] at hstatus
    have hfailed : PollFailed cq q status :=
      hstatus.imp_left fun ⟨hff, hsilent⟩ => ⟨hff, fun r hr => hsilent r (Nat.zero_le _) hr⟩
    obtain ⟨status, rfl⟩ := Nat.exists_eq_succ_of_ne_zero hfailed.ne_zero
    rw [heq]
    exact .inr ⟨status, rfl, hfailed⟩

/-! ## The invariant -/

theorem ringOk_init {words : QueueWords} {issue ring : ℕ → Wqe} {dfx : Dfx}
    (h : words.sqHead - words.sqTail < TILEXR_UDMA_SQ_BB_COUNT) :
    RingOk (initDispatchWqeBatchState words issue ring dfx).2 := by
  rw [sq_count] at h
  constructor
  case outstanding_lt => exact BitVec.lt_def.1 h
  all_goals dsimp only [initDispatchWqeBatchState]

section Steps
variable {cq : ℕ → ℕ → ℕ → Cqe} {q q' : SendQueue}

theorem PolledBy.outstanding_toNat (hq : RingOk q) {record : ℕ → Cqe} {n k : ℕ}
    (h : PolledBy q record n k q') : q'.outstanding.toNat = q.outstanding.toNat - (k + 1) := by
  obtain ⟨i, -, hk, -⟩ := h.furthest
  have hlt := hq.outstanding_lt
  have heq : q'.outstanding = q.outstanding - BitVec.ofNat 32 (k + 1) := by
    rw [h.eq, hq.outstanding_eq]
    show q.head - (q.tail + _) = _
    rw [sub_add_eq_sub_sub]
  rw [heq, BitVec.toNat_sub, BitVec.toNat_ofNat]
  omega

theorem Polled.ringOk (hq : RingOk q) (h : Polled cq q q') : RingOk q' := by
  obtain ⟨retry, n, k, h⟩ := h
  have hlt := h.outstanding_toNat hq
  have hmax := hq.outstanding_lt
  refine ⟨?_, by omega, ?_⟩
  · rw [h.eq]
    rfl
  · rw [h.eq]
    exact hq.limit

def Polls (cq : ℕ → ℕ → ℕ → Cqe) : SendQueue → SendQueue → Prop := Relation.ReflTransGen (Polled cq)

/-- Polls do not touch the batch, the ring and the head. -/
def SameBatch (q q' : SendQueue) : Prop :=
  ∃ tail cqTail outstanding words polls, q' = { q with
    tail := tail, cqTail := cqTail, outstanding := outstanding, words := words, polls := polls }

theorem Polls.sameBatch (h : Polls cq q q') : SameBatch q q' := by
  induction h with
  | refl => exact ⟨_, _, _, _, _, rfl⟩
  | tail _ hstep ih =>
    obtain ⟨_, _, _, _, _, rfl⟩ := ih
    obtain ⟨_, _, _, hpolled⟩ := hstep
    rw [hpolled.eq]
    exact ⟨_, _, _, _, _, rfl⟩

theorem RingOk.polls (hq : RingOk q) (h : Polls cq q q') : RingOk q' := by
  induction h with
  | refl => exact hq
  | tail _ hstep ih => exact hstep.ringOk ih

/-- The queue after a poll that failed while waiting for room. -/
def SendQueue.pollError (q : SendQueue) (status : ℕ) (phase : U32) : SendQueue :=
  { q with polls := q.polls + 1, dfx := q.dfx.quietError status phase }

/-- How waiting for room ends: it is there, or there is none yet and a poll fails. -/
def RoomOrFailed (cq : ℕ → ℕ → ℕ → Cqe) (q : SendQueue) (batchCount phase : U32)
    (r : Bool × SendQueue) : Prop :=
  (∃ mid, r = (true, mid) ∧ Polls cq q mid ∧ mid.outstanding.toNat + batchCount.toNat ≤ usableSqEntries) ∨
  (∃ mid status, r = (false, mid.pollError status phase) ∧ Polls cq q mid ∧
    usableSqEntries < mid.outstanding.toNat + batchCount.toNat ∧ PollFailed cq mid status)

theorem dispatchEnsureSqBatchCapacity_cases (cq : ℕ → ℕ → ℕ → Cqe) (hq : RingOk q) (batchCount phase : U32) :
    RoomOrFailed cq q batchCount phase (dispatchEnsureSqBatchCapacity cq batchCount phase q) := by
  refine @loop_meets (Bool × SendQueue) _ _ (fun s => Polls cq q s.2) _ (fun s hm => ?_) (false, q) .refl
  have hok := hq.polls hm
  rw [ensureRound]
  split_ifs with hroom
  · rcases dispatchPollCqBatch_cases cq hok with ⟨q', heq, hpolled⟩ | ⟨status, heq, hfailed⟩
    · rw [heq]
      refine ⟨hm.tail hpolled, ?_⟩
      -- the poll has taken an entry, so fewer are outstanding
      obtain ⟨_, _, k, hby⟩ := hpolled
      have hlt := hby.outstanding_toNat hok
      have hwithin := hby.within
      rw [← hok.outstanding_eq] at hwithin
      dsimp only at *
      omega
    · rw [heq]
      exact .inr ⟨s.2, status + 1, rfl, hm, hroom, hfailed⟩
  · exact .inl ⟨s.2, rfl, hm, by omega⟩

/-! ## One batch -/

/-- A batch that was copied to the ring: it lies in one piece behind the outstanding entries, on none of
their positions, and leaves the reserve free. -/
structure Posted (q q' : SendQueue) : Prop where
  pos : 0 < q.batchCount.toNat
  le_limit : q.batchCount.toNat ≤ q.batchLimit.toNat
  within : ringPos q.head + q.batchCount.toNat ≤ 16384
  free : ∀ i < q.batchCount.toNat, ∀ k < q.outstanding.toNat,
    ringPos q.head + i ≠ ringPos (q.tail + BitVec.ofNat 32 k)
  ring : ∀ p, q'.ring p =
    if ringPos q.head ≤ p ∧ p < ringPos q.head + q.batchCount.toNat then q'.issue (p - ringPos q.head)
    else q.ring p
  head : q'.head = q.head + q.batchCount
  tail : q'.tail = q.tail
  outstanding : q'.outstanding.toNat = q.outstanding.toNat + q.batchCount.toNat
  room : q'.outstanding.toNat ≤ usableSqEntries

theorem Posted.setFinal (h : Posted q q') (finalHead finalStaged : U32) :
    Posted q { q' with finalHead := finalHead, finalStaged := finalStaged } :=
  ⟨h.pos, h.le_limit, h.within, h.free, h.ring, h.head, h.tail, h.outstanding, h.room⟩

theorem posted_publish (hq : RingOk q) (hpos : q.batchCount ≠ 0) (hle : q.batchCount ≤ q.batchLimit)
    (hroom : q.outstanding.toNat + q.batchCount.toNat ≤ usableSqEntries) : Posted q q.publish := by
  rw [usable] at hroom
  have hlimit := hq.limit ▸ dispatchWqeBatchCount_toNat q.head
  have hcount := BitVec.le_def.1 hle
  have hlt : ringPos q.head < 16384 := Nat.mod_lt _ (by decide)
  have hsum : (q.outstanding + q.batchCount).toNat = q.outstanding.toNat + q.batchCount.toNat := by
    rw [BitVec.toNat_add]
    omega
  refine ⟨Nat.pos_of_ne_zero fun h0 => hpos (BitVec.eq_of_toNat_eq h0), hcount, by omega,
    fun i hi k hk => ?_, fun p => ?_, rfl, rfl, hsum, ?_⟩
  · -- position `i` of the batch is entry `outstanding + i`, less than one lap behind entry `k`
    have hdist := congrArg BitVec.toNat hq.outstanding_eq
    rw [BitVec.toNat_sub] at hdist
    have hhead := q.head.isLt
    have htail := q.tail.isLt
    rw [ringPos_add]
    unfold ringPos at *
    omega
  · show (if _ ≤ p ∧ p < _ then _ else _) = _
    rw [toNat_umod_sq]
    rfl
  · rw [usable]
    show (q.outstanding + q.batchCount).toNat ≤ _
    omega

theorem RingOk.publish (hq : RingOk q)
    (hroom : q.outstanding.toNat + q.batchCount.toNat ≤ usableSqEntries) : RingOk q.publish := by
  rw [usable] at hroom
  refine ⟨?_, ?_, by dsimp only [SendQueue.publish]⟩
  · show q.outstanding + q.batchCount = q.head + q.batchCount - q.tail
    rw [hq.outstanding_eq, sub_add_eq_add_sub]
  · show (q.outstanding + q.batchCount).toNat < 16384
    rw [BitVec.toNat_add]
    omega

theorem batchLimit_ne_zero (head : U32) : dispatchWqeBatchCount head ≠ 0 := by
  intro h
  have := dispatchWqeBatchCount_toNat head
  rw [h] at this
  have hlt : ringPos head < 16384 := Nat.mod_lt _ (by decide)
  simp at this
  omega

theorem publish_batchLimit_ne_zero (q : SendQueue) : decide (q.publish.batchLimit ≠ 0) = true := by
  rw [decide_eq_true_eq]
  dsimp only [SendQueue.publish]
  exact batchLimit_ne_zero _

/-- Both calls for a batch that is not empty and fits the limit: it is posted, or there was no room for it
when a poll failed. -/
theorem post_cases (cq : ℕ → ℕ → ℕ → Cqe) (hq : RingOk q) (hpos : q.batchCount ≠ 0)
    (hle : q.batchCount ≤ q.batchLimit) (phase : U32) :
    (∃ mid, dispatchEnsureSqBatchCapacity cq q.batchCount phase q = (true, mid) ∧ Polls cq q mid ∧
      Posted mid mid.publish ∧ RingOk mid.publish) ∨
    (∃ mid status, dispatchEnsureSqBatchCapacity cq q.batchCount phase q = (false, mid.pollError status phase) ∧
      Polls cq q mid ∧ usableSqEntries < mid.outstanding.toNat + q.batchCount.toNat ∧
      PollFailed cq mid status) := by
  refine (dispatchEnsureSqBatchCapacity_cases cq hq q.batchCount phase).imp_left ?_
  rintro ⟨mid, heq, hpolls, hroom⟩
  have hok := hq.polls hpolls
  obtain ⟨_, _, _, _, _, rfl⟩ := hpolls.sameBatch
  exact ⟨_, heq, hpolls, posted_publish hok hpos hle hroom, hok.publish hroom⟩

end Steps

/-! ## Runs -/

/-- A call for a batch: it is posted after polls that made room, it is refused for its size, or there is
no room for it when a poll fails. -/
def PostOk (cq : ℕ → ℕ → ℕ → Cqe) (phase : U32) (q : SendQueue) (r : Bool × SendQueue) : Prop :=
  (∃ mid, Polls cq q mid ∧ r.1 = true ∧ Posted mid r.2) ∨
  (r = (false, q) ∧ (q.batchCount = 0 ∨ q.batchLimit < q.batchCount)) ∨
  ∃ mid status, Polls cq q mid ∧ r = (false, mid.pollError status phase) ∧
    usableSqEntries < mid.outstanding.toNat + q.batchCount.toNat ∧ PollFailed cq mid status

def CallOk (cq : ℕ → ℕ → ℕ → Cqe) (q : SendQueue) (r : Bool × SendQueue) : QpEvent → Prop
  | .poll => (r.1 = true ∧ Polled cq q r.2) ∨
      (r = (false, { q with polls := q.polls + 1 }) ∧ PollFailed cq q (dispatchPollCqBatch cq q).1)
  | .submit batchCount issue phase =>
    let q := { q with batchCount := batchCount, issue := issue }
    if batchCount = 0 then r = (true, q) else PostOk cq phase q r
  | .stage batchCount issue _ phase =>
    let q := { q with batchCount := batchCount, issue := issue }
    PostOk cq phase q r

section Calls
variable {q : SendQueue}

section
variable (cq : ℕ → ℕ → ℕ → Cqe) (hq : RingOk q)
include cq hq

theorem submitDispatchWqeBatch_ok (phase : U32) : RingOk (submitDispatchWqeBatch cq phase q).2 ∧
      (q.batchCount ≠ 0 → PostOk cq phase q (submitDispatchWqeBatch cq phase q)) := by
  unfold submitDispatchWqeBatch
  split_ifs with hzero hgt
  · exact ⟨hq, fun h => absurd hzero h⟩
  · exact ⟨hq, fun _ => .inr (.inl ⟨rfl, .inr hgt⟩)⟩
  rcases post_cases cq hq hzero (BitVec.not_lt.1 hgt) phase with ⟨mid, heq, hpolls, hposted, hok⟩ |
    ⟨mid, status, heq, hpolls, hfull, hfailed⟩
  · rw [heq]
    refine ⟨hok, fun _ => .inl ⟨mid, hpolls, ?_, hposted⟩⟩
    dsimp only
    exact publish_batchLimit_ne_zero mid
  · rw [heq]
    exact ⟨(hq.polls hpolls).of_eq rfl rfl rfl rfl,
      fun _ => .inr (.inr ⟨mid, status, hpolls, rfl, hfull, hfailed⟩)⟩

theorem stageDispatchQpBatch_ok (finalBatch : Bool) (phase : U32) :
    RingOk (stageDispatchQpBatch cq finalBatch phase q).2 ∧
      PostOk cq phase q (stageDispatchQpBatch cq finalBatch phase q) := by
  unfold stageDispatchQpBatch
  by_cases hbad : q.batchCount = 0 ∨ q.batchCount > q.batchLimit
  · rw [if_pos hbad]
    exact ⟨hq, .inr (.inl ⟨rfl, hbad⟩)⟩
  rw [if_neg hbad]
  rw [not_or] at hbad
  rcases post_cases cq hq hbad.1 (BitVec.not_lt.1 hbad.2) phase with ⟨mid, heq, hpolls, hposted, hok⟩ |
    ⟨mid, status, heq, hpolls, hfull, hfailed⟩
  · rw [heq]
    dsimp only
    rw [publish_batchLimit_ne_zero]
    cases finalBatch
    · exact ⟨hok, .inl ⟨mid, hpolls, rfl, hposted⟩⟩
    · exact ⟨hok.setFinal _ _, .inl ⟨mid, hpolls, rfl, hposted.setFinal _ _⟩⟩
  · rw [heq]
    exact ⟨(hq.polls hpolls).of_eq rfl rfl rfl rfl, .inr (.inr ⟨mid, status, hpolls, rfl, hfull, hfailed⟩)⟩

theorem QpEvent.call_ok (e : QpEvent) : RingOk (e.call cq q).2 ∧ CallOk cq q (e.call cq q) e := by
  cases e with
  | poll =>
    unfold QpEvent.call CallOk
    rcases dispatchPollCqBatch_cases cq hq with ⟨q', heq, hpolled⟩ | ⟨status, heq, hfailed⟩
    · rw [heq]
      exact ⟨hpolled.ringOk hq, .inl ⟨rfl, hpolled⟩⟩
    · rw [heq]
      exact ⟨hq.of_eq rfl rfl rfl rfl, .inr ⟨rfl, hfailed⟩⟩
  | submit batchCount issue phase =>
    have hstart : RingOk { q with batchCount := batchCount, issue := issue } :=
      hq.of_eq rfl rfl rfl rfl
    obtain ⟨hok, hpost⟩ := submitDispatchWqeBatch_ok cq hstart phase
    refine ⟨hok, ?_⟩
    show if batchCount = 0 then _ else _
    split_ifs with hzero
    · show submitDispatchWqeBatch cq phase _ = _
      rw [submitDispatchWqeBatch, if_pos hzero]
    · exact hpost hzero
  | stage batchCount issue finalBatch phase =>
    have hstart : RingOk { q with batchCount := batchCount, issue := issue } :=
      hq.of_eq rfl rfl rfl rfl
    exact stageDispatchQpBatch_ok cq hstart finalBatch phase

theorem runQp_ok (events : List QpEvent) : RingOk (runQp cq q events) := by
  induction events generalizing q with
  | nil => exact hq
  | cons e events ih => exact ih (e.call_ok cq hq).1

end

end Calls

/-- Every run of a queue whose counters start less than a lap apart. -/
theorem dispatchQp_run (cq : ℕ → ℕ → ℕ → Cqe) (words : QueueWords) (issue ring : ℕ → Wqe) (dfx : Dfx)
    (h : words.sqHead - words.sqTail < TILEXR_UDMA_SQ_BB_COUNT) (events : List QpEvent) (e : QpEvent) :
    let q := runQp cq (initDispatchWqeBatchState words issue ring dfx).2 events
    RingOk q ∧ CallOk cq q (e.call cq q) e ∧ RingOk (e.call cq q).2 ∧
      ∀ idx t, dispatchCompletedSqTail q.tail q.outstanding idx = some t ↔
        ∃ k < q.outstanding.toNat, ringPos idx = ringPos (q.tail + BitVec.ofNat 32 k) ∧
          t = q.tail + BitVec.ofNat 32 (k + 1) := by
  intro q
  have hq : RingOk q := runQp_ok cq (ringOk_init h) events
  obtain ⟨hok, hcall⟩ := e.call_ok cq hq
  exact ⟨hq, hcall, hok, fun idx t => dispatchCompletedSqTail_eq_some_iff hq.outstanding_lt⟩

/-- Eight entries across the wrap of the counters, and a batch of three behind them. -/
theorem dispatchQp_run_wrapped :
    let silent : ℕ → ℕ → ℕ → Cqe := fun _ _ _ => ⟨false, 0, 0, 0⟩
    let q := (initDispatchWqeBatchState ⟨5, -3, 0, 0, 0⟩ default default ⟨0, 0, 0⟩).2
    let batch : QpEvent := .submit 3 default 0
    (batch.call silent q).1 = true ∧ CallOk silent q (batch.call silent q) batch :=
  ⟨by decide +kernel, (dispatchQp_run _ ⟨5, -3, 0, 0, 0⟩ default default ⟨0, 0, 0⟩ (by decide) [] _).2.1⟩

end TileXR.DispatchUrma
