import TileXR.Udma.Queue

/-!
# Quiet over a mixed history

`Inv` ties the words of a queue to the list of spans: the head is the tail plus all spans, the counter
is ahead of the completion tail by their number, and the completion of the `i`-th span names the last
building block of the first `i + 1` of them, in the ring if it is done and in flight otherwise. The
hardware, a submission and the taking of completions keep it (`Inv.completeOne`, `Inv.submit`,
`Inv.taken`), so every history does (`inv_after`).

`UDMAPollCQ` reads the span of a completion off the ring correctly but accepts it only up to
`TILEXR_UDMA_MAX_SQE_BB_NUM` building blocks, as for a single WQE: it takes a batch only if it is that
short (`pollCqe_eq`).
-/

namespace TileXR.Udma
open List
open BitVec (ofNat toNat_add toNat_ofNat toNat_inj lt_def)
variable {bb : U32} {n : ℕ}

/-! ## Words -/

theorem slot_add (c : U32) (i : ℕ) : slot (c + ofNat 32 i) = (c.toNat + i) % 16384 := by
  have h : (c + ofNat 32 i).toNat % 16384 = (c.toNat + i) % 16384 := by
    simp only [toNat_add, toNat_ofNat]; omega
  rw [slot, show TILEXR_UDMA_CQ_DEPTH - 1 = ofNat 32 (2 ^ 14 - 1) by decide, BitVec.toNat_and]
  rw [toNat_ofNat, Nat.mod_eq_of_lt (by decide), Nat.and_two_pow_sub_one_eq_mod]
  exact h

theorem validOwner_add (c : U32) (i : ℕ) : validOwner (c + ofNat 32 i) = ((c.toNat + i) / 16384 % 2 == 1) := by
  have h : (((c + ofNat 32 i) / TILEXR_UDMA_CQ_DEPTH) &&& 1).toNat = (c.toNat + i) / 16384 % 2 := by
    rw [BitVec.toNat_and, show (1 : U32).toNat = 1 from rfl, Nat.and_one_is_mod, BitVec.toNat_udiv,
      toNat_add, toNat_ofNat, show TILEXR_UDMA_CQ_DEPTH.toNat = 16384 from rfl]
    omega
  rw [validOwner, Bool.eq_iff_iff, bne_iff_ne, beq_iff_eq, ← h, ne_eq, ← toNat_inj]
  have := Nat.mod_two_eq_zero_or_one ((c.toNat + i) / 16384)
  rw [h]
  show _ ≠ 0 ↔ _
  omega

theorem completedBb_eq (t : U32) (hpos : 0 < n) (hn : n ≤ 16384) :
    (((t + ofNat 32 n - 1).setWidth 16).setWidth 32 % TILEXR_UDMA_SQ_BB_COUNT +
        TILEXR_UDMA_SQ_BB_COUNT - t % TILEXR_UDMA_SQ_BB_COUNT) % TILEXR_UDMA_SQ_BB_COUNT + 1 = ofNat 32 n := by
  have hD : TILEXR_UDMA_SQ_BB_COUNT = 16384#32 := by decide
  apply BitVec.eq_of_toNat_eq
  have ht := t.isLt
  simp only [hD, BitVec.ofNat_eq_ofNat, toNat_add, BitVec.toNat_sub, BitVec.toNat_umod,
    BitVec.toNat_setWidth, toNat_ofNat, Nat.reducePow, Nat.reduceMod]
  omega

theorem add_ofNat (c : U32) (a b : ℕ) : c + ofNat 32 a + ofNat 32 b = c + ofNat 32 (a + b) := by
  rw [BitVec.ofNat_add, BitVec.add_assoc]

theorem sub_add_ofNat (c : U32) (h : n < 2 ^ 32) : (c + ofNat 32 n - c).toNat = n := by
  rw [BitVec.add_comm, BitVec.add_sub_cancel, toNat_ofNat, Nat.mod_eq_of_lt h]

/-! ## The invariant -/

/-- The last building block of the first `i + 1` spans. -/
def Queue.lastBb (q : Queue) (i : ℕ) : U32 := q.sqTail + BitVec.ofNat 32 (q.spans.take (i + 1)).sum - 1

def Queue.taken (q : Queue) (m : ℕ) : Queue :=
  { q with
    sqTail := q.sqTail + BitVec.ofNat 32 (q.spans.take m).sum
    cqTail := q.cqTail + BitVec.ofNat 32 m
    spans := q.spans.drop m }

/-- The queue with `done` completions in the ring. -/
structure Inv (q : Queue) (done : ℕ) : Prop where
  pos : ∀ n ∈ q.spans, 0 < n
  sum_le : q.spans.sum ≤ 16384
  sqHead : q.sqHead = q.sqTail + BitVec.ofNat 32 q.spans.sum
  wqeCnt : q.wqeCnt = q.cqTail + BitVec.ofNat 32 q.spans.length
  cqHead : q.cqHead = q.cqTail + BitVec.ofNat 32 done
  done_le : done ≤ q.spans.length
  inFlight : q.inFlight = ((List.range q.spans.length).map q.lastBb).drop done
  ring : ∀ i < done, q.cq ((q.cqTail.toNat + i) % 16384) =
    ⟨!((q.cqTail.toNat + i) / 16384 % 2 == 1), (q.lastBb i).setWidth 16, 0, 0⟩
  stale : ∀ i, done ≤ i → i < 16384 →
    (q.cq ((q.cqTail.toNat + i) % 16384)).owner = ((q.cqTail.toNat + i) / 16384 % 2 == 1)

theorem length_le_sum {l : List ℕ} (h : ∀ n ∈ l, 0 < n) : l.length ≤ l.sum := by
  induction l with
  | nil => simp
  | cons a l ih =>
    have := h a (by simp)
    have := ih fun n hn => h n (mem_cons_of_mem _ hn)
    simp only [length_cons, sum_cons]
    omega

namespace Inv
variable {q : Queue} {done : ℕ}

theorem length_le (h : Inv q done) : q.spans.length ≤ 16384 :=
  Nat.le_trans (length_le_sum h.pos) h.sum_le

theorem fresh : Inv Queue.fresh 0 := by
  refine ⟨nofun, by simp [Queue.fresh], rfl, rfl, rfl, Nat.le_refl _, rfl, nofun, fun i _ hi => ?_⟩
  have : i / 16384 % 2 = 0 := by omega
  simp [Queue.fresh, this]

theorem completeOne (h : Inv q done) : Inv q.completeOne (min (done + 1) q.spans.length) := by
  have hlen := h.length_le
  have hdone := h.done_le
  rcases Nat.lt_or_ge done q.spans.length with hlt | hge
  · -- the oldest in flight is the span after the done ones
    have hfly : q.inFlight = q.lastBb done ::
        ((List.range q.spans.length).map q.lastBb).drop (done + 1) := by
      rw [h.inFlight, drop_eq_getElem_cons (by simpa using hlt)]
      simp
    have hslot : slot q.cqHead = (q.cqTail.toNat + done) % 16384 := by rw [h.cqHead, slot_add]
    have hown : validOwner q.cqHead = ((q.cqTail.toNat + done) / 16384 % 2 == 1) := by
      rw [h.cqHead, validOwner_add]
    rw [Nat.min_eq_left hlt, Queue.completeOne, hfly]
    refine ⟨h.pos, h.sum_le, h.sqHead, h.wqeCnt, ?_, hlt, rfl, fun i hi => ?_, fun i hi hD => ?_⟩
    · exact h.cqHead ▸ add_ofNat q.cqTail done 1
    · show Function.update q.cq (slot q.cqHead) _ ((q.cqTail.toNat + i) % 16384) = _
      rw [hslot, hown]
      rcases Nat.lt_succ_iff_lt_or_eq.1 hi with hi | rfl
      · rw [Function.update_of_ne (by omega)]
        exact h.ring i hi
      · rw [Function.update_self]
        rfl
    · show (Function.update q.cq (slot q.cqHead) _ ((q.cqTail.toNat + i) % 16384)).owner = _
      rw [hslot, Function.update_of_ne (by omega)]
      exact h.stale i (by omega) hD
  · have hnil : q.inFlight = [] := by
      rw [h.inFlight, drop_eq_nil_of_le (by simpa using hge)]
    rw [Nat.min_eq_right (by omega), Queue.completeOne, hnil]
    exact (show done = q.spans.length by omega) ▸ h

theorem spans_completeOne (q : Queue) : q.completeOne.spans = q.spans := by
  rw [Queue.completeOne]; split <;> rfl

theorem spans_complete (q : Queue) (n : ℕ) : (q.complete n).spans = q.spans := by
  induction n generalizing q with
  | zero => rfl
  | succ n ih => rw [Queue.complete, ih, spans_completeOne]

theorem complete (h : Inv q done) (n : ℕ) : Inv (q.complete n) (min (done + n) q.spans.length) := by
  induction n generalizing q done with
  | zero => rwa [Nat.add_zero, Nat.min_eq_left h.done_le]
  | succ n ih =>
    have hn := ih h.completeOne
    rw [spans_completeOne] at hn
    rwa [Queue.complete, show min (done + (n + 1)) q.spans.length =
      min (min (done + 1) q.spans.length + n) q.spans.length by omega]

theorem completeAll (h : Inv q done) : Inv q.completeAll q.spans.length := by
  have hlen : q.inFlight.length = q.spans.length - done := by simp [h.inFlight]
  have hn := h.complete q.inFlight.length
  have hle := h.done_le
  rwa [Nat.min_eq_right (by omega)] at hn

theorem lastBb_taken (q : Queue) (m i : ℕ) : (q.taken m).lastBb i = q.lastBb (m + i) := by
  have : (q.spans.take m).sum + ((q.spans.drop m).take (i + 1)).sum = (q.spans.take (m + i + 1)).sum := by
    rw [Nat.add_assoc m i 1, ← sum_append, ← take_add]
  simp only [Queue.lastBb, Queue.taken, add_ofNat, this]

theorem taken (h : Inv q done) {m : ℕ} (hm : m ≤ done) : Inv (q.taken m) (done - m) := by
  have hlen := h.length_le
  have hdone := h.done_le
  have hsum : (q.spans.take m).sum + (q.spans.drop m).sum = q.spans.sum := by
    rw [← sum_append, take_append_drop]
  have htail : ∀ i, ((q.cqTail + ofNat 32 m).toNat + i) % 16384 =
      (q.cqTail.toNat + (m + i)) % 16384 := by
    intro i; rw [toNat_add, toNat_ofNat]; omega
  have hlap : ∀ i, ((q.cqTail + ofNat 32 m).toNat + i) / 16384 % 2 =
      (q.cqTail.toNat + (m + i)) / 16384 % 2 := by
    intro i; rw [toNat_add, toNat_ofNat]; omega
  refine ⟨fun n hn => h.pos n (mem_of_mem_drop hn), ?_, ?_, ?_, ?_, ?_, ?_, ?_, ?_⟩
  · show (q.spans.drop m).sum ≤ 16384
    have := h.sum_le
    omega
  · show q.sqHead = q.sqTail + ofNat 32 (q.spans.take m).sum + ofNat 32 (q.spans.drop m).sum
    rw [add_ofNat, hsum, h.sqHead]
  · show q.wqeCnt = q.cqTail + ofNat 32 m + ofNat 32 (q.spans.drop m).length
    rw [add_ofNat, length_drop, h.wqeCnt, show m + (q.spans.length - m) = q.spans.length by omega]
  · show q.cqHead = q.cqTail + ofNat 32 m + ofNat 32 (done - m)
    rw [add_ofNat, h.cqHead, show m + (done - m) = done by omega]
  · show done - m ≤ (q.spans.drop m).length
    rw [length_drop]; omega
  · show q.inFlight = _
    rw [h.inFlight]
    refine ext_getElem (by simp [Queue.taken]; omega) fun i h₁ h₂ => ?_
    simp [lastBb_taken, show m + (done - m + i) = done + i by omega]
  · intro i hi
    show q.cq _ = _
    rw [show (q.taken m).cqTail = q.cqTail + ofNat 32 m from rfl, htail, hlap, lastBb_taken]
    exact h.ring (m + i) (by omega)
  · intro i hi hD
    show (q.cq _).owner = _
    rw [show (q.taken m).cqTail = q.cqTail + ofNat 32 m from rfl, htail, hlap]
    rcases Nat.lt_or_ge (m + i) 16384 with hlt | hge
    · exact h.stale (m + i) (by omega) hlt
    · -- a slot that was just taken has the owner bit of the lap that has ended
      have hring := h.ring (m + i - 16384) (by omega)
      rw [show (q.cqTail.toNat + (m + i)) % 16384 = (q.cqTail.toNat + (m + i - 16384)) % 16384 by omega,
        hring]
      have : (q.cqTail.toNat + (m + i)) / 16384 = (q.cqTail.toNat + (m + i - 16384)) / 16384 + 1 := by
        omega
      rw [this]
      rcases Nat.mod_two_eq_zero_or_one ((q.cqTail.toNat + (m + i - 16384)) / 16384) with h0 | h1
      · rw [h0, show (_ + 1) % 2 = 1 by omega]; rfl
      · rw [h1, show (_ + 1) % 2 = 0 by omega]; rfl

theorem submit (h : Inv q done) (hpos : 0 < bb.toNat)
    (hroom : q.spans.sum + bb.toNat ≤ 16384) : Inv (q.submit bb) done := by
  have hlen := h.length_le
  have hdone := h.done_le
  have hbb : ofNat 32 bb.toNat = bb := by rw [BitVec.ofNat_toNat, BitVec.setWidth_eq]
  have hlast : ∀ i < q.spans.length, (q.submit bb).lastBb i = q.lastBb i := by
    intro i hi
    simp only [Queue.lastBb, Queue.submit]
    rw [take_append_of_le_length (by omega)]
  have hnew : (q.submit bb).lastBb q.spans.length = q.sqHead + bb - 1 := by
    simp only [Queue.lastBb, Queue.submit]
    rw [take_of_length_le (by simp), sum_append, sum_singleton, ← add_ofNat, ← h.sqHead,
      hbb]
  refine ⟨?_, ?_, ?_, ?_, h.cqHead, ?_, ?_, ?_, h.stale⟩
  · intro n hn
    rcases mem_append.1 hn with hn | hn
    · exact h.pos n hn
    · rw [mem_singleton.1 hn]; exact hpos
  · show (q.spans ++ [bb.toNat]).sum ≤ 16384
    simpa using hroom
  · show q.sqHead + bb = q.sqTail + ofNat 32 (q.spans ++ [bb.toNat]).sum
    rw [sum_append, sum_singleton, ← add_ofNat, ← h.sqHead, hbb]
  · show q.wqeCnt + 1 = q.cqTail + ofNat 32 (q.spans ++ [bb.toNat]).length
    rw [length_append, ← add_ofNat, ← h.wqeCnt]; rfl
  · show done ≤ (q.spans ++ [bb.toNat]).length
    rw [length_append]; omega
  · show q.inFlight ++ [q.sqHead + bb - 1] = _
    rw [h.inFlight, show (q.submit bb).spans.length = q.spans.length + 1 by simp [Queue.submit],
      range_succ, map_append, map_singleton, hnew,
      drop_append_of_le_length (by simpa using hdone)]
    congr 2
    exact map_congr_left fun i hi => (hlast i (mem_range.1 hi)).symm
  · intro i hi
    rw [hlast i (by omega)]
    exact h.ring i hi

theorem outstanding (h : Inv q done) : (q.sqHead - q.sqTail).toNat = q.spans.sum := by
  rw [h.sqHead, sub_add_ofNat _ (Nat.lt_of_le_of_lt h.sum_le (by decide))]

theorem sum_take_le (h : Inv q done) (i : ℕ) : (q.spans.take i).sum ≤ 16384 := by
  have hsum : (q.spans.take i).sum + (q.spans.drop i).sum = q.spans.sum := by
    rw [← sum_append, take_append_drop]
  have := h.sum_le
  omega

end Inv

theorem taken_zero (q : Queue) : q.taken 0 = q := by
  simp [Queue.taken]

theorem taken_taken (q : Queue) (a b : ℕ) : (q.taken a).taken b = q.taken (a + b) := by
  simp [Queue.taken, add_ofNat, take_add]

/-! ## `UDMAPollCQ` -/

section
variable {q : Queue} {done : ℕ} (h : Inv q done)
include h

theorem pollCqe_eq {rest : List ℕ} (hdone : 0 < done)
    (hspans : q.spans = n :: rest) : pollCqe q = if n ≤ 4 then .ok (q.taken 1) else .error .invalid := by
  have hD : TILEXR_UDMA_SQ_BB_COUNT = 16384#32 := by decide
  have hn : 0 < n := h.pos n (by simp [hspans])
  have hsum : q.spans.sum = n + rest.sum := by simp [hspans]
  have hle := h.sum_le
  have hcqe : q.cq (slot q.cqTail) = ⟨!validOwner q.cqTail, (q.lastBb 0).setWidth 16, 0, 0⟩ := by
    have := h.ring 0 hdone
    rwa [← slot_add, ← validOwner_add, BitVec.add_zero] at this
  have hlast : q.lastBb 0 = q.sqTail + ofNat 32 n - 1 := by simp [Queue.lastBb, hspans]
  have hout := h.outstanding
  have hbb := completedBb_eq q.sqTail hn (by omega)
  have hroom : ¬ (q.sqHead - q.sqTail = 0 ∨ q.sqHead - q.sqTail > TILEXR_UDMA_SQ_BB_COUNT) := by
    rw [hD, not_or, gt_iff_lt, lt_def, ← toNat_inj, hout]
    simp
    omega
  rw [pollCqe, hcqe]
  simp only [Bool.eq_not_self, if_false, ne_eq, not_true_eq_false, or_self, hroom, hlast, hbb]
  have hlimit : (ofNat 32 n > TILEXR_UDMA_MAX_SQE_BB_NUM ∨ ofNat 32 n > q.sqHead - q.sqTail) ↔
      ¬ n ≤ 4 := by
    rw [gt_iff_lt, gt_iff_lt, lt_def, lt_def, hout, toNat_ofNat,
      show TILEXR_UDMA_MAX_SQE_BB_NUM.toNat = 4 from rfl]
    omega
  by_cases h4 : n ≤ 4
  · rw [if_neg (by rw [hlimit]; simpa using h4), if_pos h4]
    simp [Queue.taken, hspans]
  · rw [if_pos (hlimit.2 h4), if_neg h4]

/-- The poller takes completions up to the first that covers more than four building blocks. -/
theorem pollCqLoop_spec : ∀ n ≤ done,
    ∃ j ≤ n, (pollCqLoop n q).2 = q.taken j ∧ (((pollCqLoop n q).1 = .success ∧ j = n ∧ ∀ m ∈ q.spans.take n, m ≤ 4) ∨
        ((pollCqLoop n q).1 = .invalid ∧ ¬ ∀ m ∈ q.spans.take n, m ≤ 4)) := by
  intro n
  induction n generalizing q done with
  | zero => exact fun _ => ⟨0, Nat.le_refl _, (taken_zero q).symm, .inl ⟨rfl, rfl, by simp⟩⟩
  | succ n ih =>
    intro hn
    obtain ⟨a, rest, hspans⟩ : ∃ a rest, q.spans = a :: rest :=
      exists_cons_of_length_pos (by have := h.done_le; omega)
    rw [pollCqLoop, pollCqe_eq h (by omega) hspans]
    by_cases h4 : a ≤ 4
    · have htail : (q.taken 1).spans = rest := by simp [Queue.taken, hspans]
      obtain ⟨j, hj, hq, hst⟩ := ih (h.taken (m := 1) (by omega)) (by omega)
      rw [htail] at hst
      rw [taken_taken] at hq
      simp only [h4, if_true, hspans, take_succ_cons, mem_cons, forall_eq_or_imp, true_and]
      exact ⟨1 + j, by omega, hq, hst.imp (fun h => ⟨h.1, by omega, h.2.2⟩) id⟩
    · refine ⟨0, by omega, ?_, .inr ⟨?_, fun hall => h4 (hall a (by simp [hspans]))⟩⟩
      · rw [if_neg h4, taken_zero]
      · rw [if_neg h4]

theorem udmaPollCQ_eq : udmaPollCQ q.wqeCnt q = pollCqLoop q.spans.length q.completeAll := by
  have hlen := h.length_le
  have hcount : (q.wqeCnt - q.cqTail).toNat = q.spans.length := by
    rw [h.wqeCnt, sub_add_ofNat _ (by omega)]
  rw [udmaPollCQ, if_neg, hcount]
  rw [gt_iff_lt, lt_def, hcount, show TILEXR_UDMA_CQ_DEPTH.toNat = 16384 from rfl]
  omega

theorem Inv.pollCQ : ∃ d, Inv (udmaPollCQ q.wqeCnt q).2 d := by
  obtain ⟨j, hj, hq, -⟩ := pollCqLoop_spec h.completeAll _ (Nat.le_refl _)
  rw [udmaPollCQ_eq h, hq]
  exact ⟨_, h.completeAll.taken hj⟩

end

/-! ## The batch poller -/

theorem advance_eq (t : U32) (hpos : 0 < n) (hn : n < 16384) :
    ((((t + ofNat 32 n - 1).setWidth 16).setWidth 32 % TILEXR_UDMA_SQ_BB_COUNT + 1) %
        TILEXR_UDMA_SQ_BB_COUNT + TILEXR_UDMA_SQ_BB_COUNT - t % TILEXR_UDMA_SQ_BB_COUNT) %
        TILEXR_UDMA_SQ_BB_COUNT = ofNat 32 n := by
  have hD : TILEXR_UDMA_SQ_BB_COUNT = 16384#32 := by decide
  apply BitVec.eq_of_toNat_eq
  have ht := t.isLt
  simp only [hD, BitVec.ofNat_eq_ofNat, toNat_add, BitVec.toNat_sub, BitVec.toNat_umod,
    BitVec.toNat_setWidth, toNat_ofNat, Nat.reducePow, Nat.reduceMod]
  omega

theorem Inv.sum_take_lt {q : Queue} {done v : ℕ} (h : Inv q done) (hv : v < q.spans.length) :
    (q.spans.take v).sum < (q.spans.take (v + 1)).sum := by
  have := h.pos _ (getElem_mem hv)
  rw [take_add_one, List.getElem?_eq_getElem hv, sum_append]
  simpa using this

theorem Inv.sum_take_le_sum {q : Queue} (v : ℕ) : (q.spans.take v).sum ≤ q.spans.sum := by
  have hsum : (q.spans.take v).sum + (q.spans.drop v).sum = q.spans.sum := by
    rw [← sum_append, take_append_drop]
  omega

theorem dispatchCompletedSqTail_eq {q : Queue} {done i : ℕ} (h : Inv q done) (hi : i < q.spans.length)
    (hlt : q.spans.sum < 16384) :
    dispatchCompletedSqTail q.sqTail (q.sqHead - q.sqTail) (((q.lastBb i).setWidth 16).setWidth 32) =
      some (q.sqTail + ofNat 32 (q.spans.take (i + 1)).sum) := by
  have hout := h.outstanding
  have hpos := h.sum_take_lt hi
  have hle := Inv.sum_take_le_sum (q := q) (i + 1)
  have hD : TILEXR_UDMA_SQ_BB_COUNT = 16384#32 := by decide
  have hroom : ¬ (q.sqHead - q.sqTail = 0 ∨ q.sqHead - q.sqTail ≥ TILEXR_UDMA_SQ_BB_COUNT) := by
    rw [hD, not_or, ge_iff_le, BitVec.le_def, ← toNat_inj, hout]
    simp
    omega
  rw [dispatchCompletedSqTail, if_neg hroom]
  simp only [Queue.lastBb, advance_eq q.sqTail (show 0 < (q.spans.take (i + 1)).sum by omega)
    (by omega)]
  rw [if_neg]
  rw [not_or, gt_iff_lt, lt_def, hout, ← toNat_inj, toNat_ofNat]
  simp only [BitVec.ofNat_eq_ofNat, toNat_ofNat, Nat.reducePow, Nat.zero_mod]
  omega

/-- The scan finds what the hardware has completed, and the tail behind it. -/
theorem scanCqes_eq {q : Queue} {done : ℕ} (h : Inv q done) (hlt : q.spans.sum < 16384) : ∀ n v, v ≤ done →
      scanCqes q n v (q.sqTail + ofNat 32 (q.spans.take v).sum) =
        .ok (min done (v + n), q.sqTail + ofNat 32 (q.spans.take (min done (v + n))).sum) := by
  intro n
  have hdone := h.done_le
  have hlen := length_le_sum h.pos
  induction n with
  | zero => intro v hv; rw [scanCqes, Nat.add_zero, Nat.min_eq_right hv]
  | succ n ih =>
    intro v hv
    rcases Nat.lt_or_ge v done with hlt' | hge
    · have hcqe : q.cq (slot (q.cqTail + ofNat 32 v)) =
          ⟨!validOwner (q.cqTail + ofNat 32 v), (q.lastBb v).setWidth 16, 0, 0⟩ := by
        rw [slot_add, validOwner_add]; exact h.ring v hlt'
      have hfurther : q.sqTail + ofNat 32 (q.spans.take (v + 1)).sum - q.sqTail >
          q.sqTail + ofNat 32 (q.spans.take v).sum - q.sqTail := by
        have h₁ := h.sum_take_lt (v := v) (by omega)
        have h₂ := h.sum_take_le (v + 1)
        rw [gt_iff_lt, lt_def, sub_add_ofNat _ (by omega), sub_add_ofNat _ (by omega)]
        exact h₁
      rw [scanCqes]
      simp only [hcqe, Bool.not_eq_self, if_false, ne_eq, not_true_eq_false, or_self,
        dispatchCompletedSqTail_eq h (show v < q.spans.length by omega) hlt, hfurther, if_true]
      rw [ih (v + 1) hlt', show v + 1 + n = v + (n + 1) by omega]
    · have hown : (q.cq (slot (q.cqTail + ofNat 32 v))).owner =
          validOwner (q.cqTail + ofNat 32 v) := by
        rw [slot_add, validOwner_add]; exact h.stale v hge (by omega)
      rw [scanCqes]
      simp only [hown, if_true]
      rw [Nat.min_eq_left (by omega), show v = done by omega]

theorem dispatchPollCqBatch_spec {q q' : Queue} {done : ℕ} (h : Inv q done) (hlt : q.spans.sum < 16384)
    (hq : dispatchPollCqBatch q = .ok q') : ∃ v ≤ done, q' = q.taken v := by
  unfold dispatchPollCqBatch at hq
  generalize BitVec.toNat (dispatchCqePollBatchCount q.cqTail) = n at hq
  have hscan := scanCqes_eq h hlt n 0 (Nat.zero_le _)
  rw [take_zero, sum_nil, BitVec.add_zero, Nat.zero_add] at hscan
  rw [hscan] at hq
  dsimp only at hq
  split at hq
  · cases hq
  · exact ⟨_, Nat.min_le_left _ _, (Except.ok.inj hq).symm⟩

/-- There is room for `bb` more building blocks. -/
def Fits (q : Queue) (bb : U32) : Prop := q.spans.sum + bb.toNat ≤ 16384

theorem Inv.fits {q : Queue} {done : ℕ} (h : Inv q done) (hcap : hasSqBatchCapacity bb q) : Fits q bb := by
  have hroom : TILEXR_UDMA_SQ_BB_COUNT.toNat - kDispatchSqPollReserve ≤ 16384 := by decide
  rw [hasSqBatchCapacity, decide_eq_true_iff, h.outstanding] at hcap
  exact Nat.le_trans hcap hroom

theorem Inv.ensureSqBatchCapacity (bb : U32) (progress : List ℕ) {q : Queue} {done : ℕ} (h : Inv q done)
    (hlt : q.spans.sum < 16384) : ∃ d, Inv (dispatchEnsureSqBatchCapacity bb progress q).2 d ∧
      ((dispatchEnsureSqBatchCapacity bb progress q).1 →
        Fits (dispatchEnsureSqBatchCapacity bb progress q).2 bb) := by
  induction progress generalizing q done with
  | nil => unfold dispatchEnsureSqBatchCapacity; exact ⟨done, h, fun hcap => h.fits hcap⟩
  | cons n progress ih =>
    unfold dispatchEnsureSqBatchCapacity
    split
    · next hcap => exact ⟨done, h, fun _ => h.fits hcap⟩
    · have hn := h.complete n
      have hsum : (q.complete n).spans.sum < 16384 := by rwa [Inv.spans_complete]
      split
      · exact ⟨_, hn, by simp⟩
      · next q' hq =>
        obtain ⟨v, hv, rfl⟩ := dispatchPollCqBatch_spec hn hsum hq
        refine ih (hn.taken hv) ?_
        have hsplit : ((q.complete n).spans.take v).sum + ((q.complete n).spans.drop v).sum =
            (q.complete n).spans.sum := by rw [← sum_append, take_append_drop]
        show ((q.complete n).spans.drop v).sum < 16384
        omega

/-! ## Histories -/

section
variable {q : Queue} {done : ℕ} (h : Inv q done)
include h

theorem Inv.fits_post (hval : udmaValidatePostSend bb q = .success) : Fits q bb := by
  have hD : TILEXR_UDMA_SQ_BB_COUNT.toNat = 16384 := by decide
  have hout := h.outstanding
  unfold udmaValidatePostSend at hval
  dsimp only at hval
  split at hval
  · cases hval
  · next hle =>
    split at hval
    · cases hval
    · next hroom =>
      rw [gt_iff_lt, lt_def, hout, hD] at hle
      rw [gt_iff_lt, lt_def, BitVec.toNat_sub, hout, hD] at hroom
      rw [Fits]
      omega

theorem Inv.post (notify ringDoorbell : Bool) : ∃ d, Inv (udmaPostSend notify ringDoorbell q).2 d := by
  have hpos : 0 < (udmaWqeBBCnt notify).toNat := by cases notify <;> decide
  generalize hbb : udmaWqeBBCnt notify = bb at hpos
  rw [udmaPostSend, hbb]
  -- with or without reclaiming, the queue is in order before the second check
  obtain ⟨st, q', d, heq, h'⟩ : ∃ st q' d,
      (if udmaValidatePostSend bb q = .sqFull ∧ ringDoorbell then udmaPollCQ q.wqeCnt q
        else (.success, q)) = (st, q') ∧ Inv q' d := by
    split
    · obtain ⟨d, hd⟩ := h.pollCQ
      exact ⟨_, _, d, rfl, hd⟩
    · exact ⟨_, _, done, rfl, h⟩
  rw [heq]
  cases st with
  | success =>
    dsimp only
    split
    · next hval => exact ⟨d, h'.submit hpos (h'.fits_post hval)⟩
    · exact ⟨d, h'⟩
  | _ => exact ⟨d, h'⟩

theorem Inv.batch (bb : U32) (progress : List ℕ) : ∃ d, Inv (submitDispatchWqeBatch bb progress q).2 d := by
  unfold submitDispatchWqeBatch
  split
  · exact ⟨done, h⟩
  next hout =>
  split
  · exact ⟨done, h⟩
  next hzero =>
  split
  · exact ⟨done, h⟩
  have hlt : q.spans.sum < 16384 := by
    rw [ge_iff_le, BitVec.le_def, h.outstanding, show TILEXR_UDMA_SQ_BB_COUNT.toNat = 16384 by decide]
      at hout
    omega
  have hpos : 0 < bb.toNat := by
    rcases Nat.eq_zero_or_pos bb.toNat with h0 | h0
    · exact absurd (BitVec.eq_of_toNat_eq (by simpa using h0)) hzero
    · exact h0
  obtain ⟨d, hd, hfits⟩ := h.ensureSqBatchCapacity bb progress hlt
  split
  · next q' heq =>
    rw [heq] at hd hfits
    exact ⟨d, hd.submit hpos (hfits rfl)⟩
  · next q' heq => rw [heq] at hd; exact ⟨d, hd⟩

end

theorem inv_after (history : List Event) : ∃ d, Inv (after history) d := by
  refine foldlRecOn (motive := fun q => ∃ d, Inv q d) _ _ ⟨_, Inv.fresh⟩ fun q hq e _ => ?_
  obtain ⟨d, h⟩ := hq
  cases e with
  | post notify ringDoorbell => exact h.post notify ringDoorbell
  | batch bb progress => exact h.batch bb progress
  | complete n => exact ⟨_, h.complete n⟩
  | quiet => exact h.pollCQ

/-- A quiet stops at the first completion that covers more than four building blocks. -/
theorem Inv.quiet {q : Queue} {done : ℕ} (h : Inv q done) : ((udmaQuietStatusOnQp q).1 = .success ∧
      (udmaQuietStatusOnQp q).2.sqTail = (udmaQuietStatusOnQp q).2.sqHead) ↔ ∀ n ∈ q.spans, n ≤ 4 := by
  have hall := h.completeAll
  have hspans : q.completeAll.spans = q.spans := Inv.spans_complete _ _
  obtain ⟨j, hj, hq, hst⟩ := pollCqLoop_spec hall _ (Nat.le_refl _)
  rw [hspans, take_length] at hst
  rw [udmaQuietStatusOnQp, udmaPollCQ_eq h]
  rcases hst with ⟨hok, rfl, hle⟩ | ⟨hbad, hle⟩
  · refine iff_of_true ⟨hok, ?_⟩ hle
    -- nothing is left between the tail and the head
    have hend := (hall.taken (Nat.le_refl _)).sqHead
    rw [hq, hend]
    simp [Queue.taken, hspans]
  · exact iff_of_false (fun hs => by rw [hbad] at hs; cases hs.1) hle

/-- After any history a quiet succeeds and empties the queue exactly if no completion that is left
covers more than four building blocks. -/
theorem quiet_iff (history : List Event) :
    ((udmaQuietStatusOnQp (after history)).1 = .success ∧
      (udmaQuietStatusOnQp (after history)).2.sqTail = (udmaQuietStatusOnQp (after history)).2.sqHead) ↔
      ∀ n ∈ (after history).spans, n ≤ 4 := by
  obtain ⟨_, h⟩ := inv_after history
  exact h.quiet

/-- A batch of five WQEs on a fresh queue. -/
theorem quiet_batchOfFive :
    ¬ ((udmaQuietStatusOnQp (after [.batch 5 []])).1 = .success ∧
      (udmaQuietStatusOnQp (after [.batch 5 []])).2.sqTail =
        (udmaQuietStatusOnQp (after [.batch 5 []])).2.sqHead) := by
  obtain ⟨_, h⟩ := inv_after [.batch 5 []]
  have hspans : (after [.batch 5 []]).spans = [5] := rfl
  rw [h.quiet, hspans]
  decide

end TileXR.Udma
