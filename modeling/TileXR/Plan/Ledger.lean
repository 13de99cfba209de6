import Mathlib.Data.List.GetD
import TileXR.Lib.Transfer
import TileXR.Plan.Loads

/-!
# The ledger of moves

The segments of the reference planner, in the order they are made, are a chained transfer log: the
items of source `(src, expert)` are the expert's routes on that rank by ordinal, the places of
destination `(dst, expert)` the offsets in the expert's group on that rank. `LogOk` says that the
cursors and remainders are the totals of the log. `Ledger` adds what holds until the remainders are
appended: away from home an allocation is what the log brought there, at home it is what the sources
still have; a load is the sum of the rank's allocations; and the remote set of a rank lists exactly its
allocations away from home, within the prefetch slots.
-/

namespace TileXR.Plan
open Lib List
variable {a : Assignment} {segments : List TokenSegmentMove} {t t₀ : RefState} {dst e home src : ℕ}

/-- The block of routes a segment moves. -/
def TokenSegmentMove.toTransfer (m : TokenSegmentMove) : Transfer (ℕ × ℕ) (ℕ × ℕ) :=
  ⟨(m.srcRank, m.expertId), (m.dstRank, m.expertId), m.srcExpertBegin, m.dstExpertBegin, m.tokenCount⟩

def transfers (segments : List TokenSegmentMove) : List (Transfer (ℕ × ℕ) (ℕ × ℕ)) :=
  segments.map TokenSegmentMove.toTransfer

structure LogOk (p : Params) (t : Tables) (segments : List TokenSegmentMove) : Prop where
  chained : Chained (transfers segments)
  inRange : ∀ m ∈ segments, m.srcRank < p.rankSize ∧ m.dstRank < p.rankSize ∧ m.expertId < p.expertNum
  srcCursor : ∀ src e, t.srcExpertCursor src e = srcTotal (transfers segments) (src, e)
  dstCursor : ∀ dst e, t.dstExpertCursor dst e = dstTotal (transfers segments) (dst, e)
  remaining : ∀ src e,
    t.remainingTpe src e + srcTotal (transfers segments) (src, e) = p.tokensPerExpert src e

theorem LogOk.initial (p : Params) : LogOk p (Tables.initial p) [] where
  chained := .nil
  inRange m hm := by simp at hm
  srcCursor _ _ := rfl
  dstCursor _ _ := rfl
  remaining _ _ := rfl

theorem LogOk.congr {p : Params} {t t' : Tables} (h : LogOk p t segments)
    (hr : t'.remainingTpe = t.remainingTpe) (hs : t'.srcExpertCursor = t.srcExpertCursor)
    (hd : t'.dstExpertCursor = t.dstExpertCursor) : LogOk p t' segments where
  chained := h.chained
  inRange := h.inRange
  srcCursor := hs ▸ h.srcCursor
  dstCursor := hd ▸ h.dstCursor
  remaining := hr ▸ h.remaining

theorem LogOk.give {p : Params} {t : Tables} (h : LogOk p t segments)
    {expert count : ℕ} (hsrc : src < p.rankSize) (hdst : dst < p.rankSize) (he : expert < p.expertNum)
    (hpos : 0 < count) (hle : count ≤ t.remainingTpe src expert) :
    LogOk p (t.give expert src dst count) (segments ++ [t.nextSegment expert src dst count]) := by
  have hlog : transfers (segments ++ [t.nextSegment expert src dst count]) = transfers segments ++
      [(t.nextSegment expert src dst count).toTransfer] := by simp [transfers]
  refine
    { chained := hlog ▸ h.chained.snoc (h.srcCursor src expert) (h.dstCursor dst expert) hpos
      inRange := fun m hm => ?_, srcCursor := fun src' e => ?_, dstCursor := fun dst' e => ?_
      remaining := fun src' e => ?_ }
  · rcases mem_append.1 hm with hm | hm
    · exact h.inRange m hm
    · rw [mem_singleton.1 hm]; exact ⟨hsrc, hdst, he⟩
  · rw [hlog, srcTotal_snoc, ← h.srcCursor]
    simp only [Tables.give, add2_apply, TokenSegmentMove.toTransfer, Tables.nextSegment, Prod.mk.injEq, eq_comm]
  · rw [hlog, dstTotal_snoc, ← h.dstCursor]
    simp only [Tables.give, add2_apply, TokenSegmentMove.toTransfer, Tables.nextSegment, Prod.mk.injEq, eq_comm]
  · rw [hlog, srcTotal_snoc, ← h.remaining]
    simp only [Tables.give, sub2_apply, TokenSegmentMove.toTransfer, Tables.nextSegment, Prod.mk.injEq]
    by_cases hsame : src = src' ∧ expert = e
    · obtain ⟨rfl, rfl⟩ := hsame
      simp only [and_self, if_true]; omega
    · rw [if_neg hsame, if_neg fun hc => hsame ⟨hc.1.symm, hc.2.symm⟩]; omega

namespace Reference

structure Ledger (p : Params) (t : RefState) : Prop where
  log : LogOk p t.toTables t.segments
  away : ∀ m ∈ t.segments, m.dstRank ≠ p.homeRank m.expertId
  allocAway : ∀ dst e, dst ≠ p.homeRank e → t.alloc dst e = t.dstExpertCursor dst e
  allocHome : ∀ e, t.alloc (p.homeRank e) e = ∑ src ∈ Finset.range p.rankSize, t.remainingTpe src e
  load : ∀ r, t.rankLoad r = ∑ e ∈ Finset.range p.expertNum, t.alloc r e
  remote : ∀ dst e, e ∈ t.remoteExpertSets dst ↔ dst ≠ p.homeRank e ∧ 0 < t.alloc dst e
  slots : ∀ dst, (t.remoteExpertSets dst).card ≤ p.prefetchSlots
  supply : t.sawSupplyBlock = false

theorem Ledger.initial (p : Params) : Ledger p (RefState.initial p) where
  log := LogOk.initial p
  away m hm := by simp [RefState.initial] at hm
  allocAway dst e h := if_neg h
  allocHome e := if_pos rfl
  load r := by
    show (∑ e ∈ (Finset.range p.expertNum).filter (p.homeRank · = r), p.expertTotal e) =
      ∑ e ∈ Finset.range p.expertNum, if r = p.homeRank e then p.expertTotal e else 0
    rw [Finset.sum_filter]
    exact Finset.sum_congr rfl fun e _ => by simp only [eq_comm]
  remote dst e := by
    simp only [RefState.initial, Tables.initial, Finset.notMem_empty, false_iff, not_and]
    intro h; simp [h]
  slots dst := Nat.zero_le _
  supply := rfl

/-- The rounds and the other flags are not part of the ledger. -/
theorem Ledger.congr {p : Params} {t' : RefState} (h : Ledger p t) (htab : t'.toTables = t.toTables)
    (hrem : t'.remoteExpertSets = t.remoteExpertSets) (hseg : t'.segments = t.segments)
    (hsup : t'.sawSupplyBlock = t.sawSupplyBlock) : Ledger p t' where
  log := by rw [htab, hseg]; exact h.log
  away := by rw [hseg]; exact h.away
  allocAway := by rw [htab]; exact h.allocAway
  allocHome := by rw [htab]; exact h.allocHome
  load := by rw [htab]; exact h.load
  remote := by rw [htab, hrem]; exact h.remote
  slots := by rw [hrem]; exact h.slots
  supply := by rw [hsup]; exact h.supply

/-! ## One expert -/

/-- `AssignTokenSources` in progress: the log so far, and what has been assigned. -/
structure Assigning (p : Params) (t : RefState) (expert dst : ℕ) (a : Assignment) : Prop where
  log : LogOk p (writeBack p t.toTables expert dst a) (t.segments ++ a.segments)
  assigned : a.actualAssigned + ∑ src ∈ Finset.range p.rankSize, a.remaining src =
    ∑ src ∈ Finset.range p.rankSize, t.remainingTpe src expert
  cursor : a.dstCursor = t.dstExpertCursor dst expert + a.actualAssigned
  toDst : ∀ m ∈ a.segments, m.dstRank = dst ∧ m.expertId = expert
  nil : a.actualAssigned = 0 → a.segments = []

theorem Assigning.initial {p : Params} (h : Ledger p t) (expert dst n : ℕ) :
    Assigning p t expert dst ⟨(t.remainingTpe · expert), (t.routedPairTokens · dst),
      (t.srcExpertCursor · expert), t.dstExpertCursor dst expert, [], 0, n⟩ where
  log := by
    rw [append_nil]
    refine h.log.congr ?_ ?_ ?_ <;> funext x y <;> simp only [writeBack] <;> split
    · rename_i hc; rw [hc.2]
    · rfl
    · rename_i hc; rw [hc.2]
    · rfl
    · rename_i hc; rw [hc.1, hc.2]
    · rfl
  assigned := Nat.zero_add _
  cursor := rfl
  toDst m hm := by simp at hm
  nil _ := rfl

theorem Assigning.step {p : Params} {expert take : ℕ}
    (h : Assigning p t expert dst a) (hdst : dst < p.rankSize) (he : expert < p.expertNum)
    (hsrc : src < p.rankSize) (hpos : 0 < take) (hle : take ≤ a.remaining src) :
    Assigning p t expert dst (a.take p expert src dst take) where
  log := by
    rw [← writeBack_give _ _ _ _ _ _ _ hsrc, Assignment.take, ← append_assoc, ← nextSegment_writeBack a take hsrc]
    have hrem : take ≤ (writeBack p t.toTables expert dst a).remainingTpe src expert := by
      simpa only [writeBack, hsrc, and_self, if_true] using hle
    refine (h.log.give hsrc hdst he hpos hrem).congr ?_ ?_ ?_ <;> unfold Tables.route <;> split <;> rfl
  assigned := by
    have hsum := sum_sub1 a.remaining src take (Finset.range p.rankSize) hle
    rw [if_pos (Finset.mem_range.2 hsrc)] at hsum
    have := h.assigned
    dsimp only [Assignment.take]
    omega
  cursor := by rw [Assignment.take, h.cursor, Nat.add_assoc]
  toDst m hm := by
    rcases mem_append.1 hm with hm | hm
    · exact h.toDst m hm
    · rw [mem_singleton.1 hm]; exact ⟨rfl, rfl⟩
  nil h0 := by dsimp only [Assignment.take] at h0; omega

theorem Assigning.of_assign {p : Params} (h : Ledger p t) {expert request : ℕ}
    (hdst : dst < p.rankSize) (he : expert < p.expertNum) {order : List ℕ} {asg : Assignment}
    (hasg : assignTokenSources p expert dst request order (t.remainingTpe · expert)
      (t.routedPairTokens · dst) (t.srcExpertCursor · expert) (t.dstExpertCursor dst expert) = some asg) :
    Assigning p t expert dst asg :=
  assignTokenSources_inv (P := Assigning p t expert dst)
    (fun _ _ _ ha hsrc hpos hle _ _ => ha.step hdst he hsrc hpos hle) order
    (Assigning.initial h expert dst request) hasg

theorem book_alloc (t : Tables) (home dst expert n r e : ℕ) :
    (t.book home dst expert n).alloc r e =
      t.alloc r e - (if r = home ∧ e = expert then n else 0) +
        if r = dst ∧ e = expert then n else 0 := by
  simp only [Tables.book, add2_apply, sub2_apply]

theorem book_rankLoad (t : Tables) (home dst expert n r : ℕ) :
    (t.book home dst expert n).rankLoad r =
      t.rankLoad r - (if r = home then n else 0) + if r = dst then n else 0 := by
  simp only [Tables.book, add1_apply, sub1_apply]

theorem book_load {p : Params} {t : Tables} {expert n : ℕ} (he : expert < p.expertNum) (hne : dst ≠ home)
    (hn : n ≤ t.alloc home expert) (h : ∀ r, t.rankLoad r = ∑ e ∈ Finset.range p.expertNum, t.alloc r e)
    (r : ℕ) : (t.book home dst expert n).rankLoad r =
      ∑ e ∈ Finset.range p.expertNum, (t.book home dst expert n).alloc r e := by
  rw [book_rankLoad, h r]
  by_cases hh : r = home
  · have hd : ¬ r = dst := fun hd => hne (hd.symm.trans hh)
    have hrow : (t.book home dst expert n).alloc r = sub1 (t.alloc r) expert n := by
      funext e; rw [book_alloc, sub1_apply]; simp [hh, hne.symm]
    have hsum := sum_sub1 (t.alloc r) expert n (Finset.range p.expertNum) (hh ▸ hn)
    rw [if_pos (Finset.mem_range.2 he)] at hsum
    rw [hrow, if_pos hh, if_neg hd]; omega
  · by_cases hd : r = dst
    · have hrow : (t.book home dst expert n).alloc r = add1 (t.alloc r) expert n := by
        funext e; rw [book_alloc, add1_apply]; simp [hd, hne]
      rw [hrow, sum_add1, if_pos (Finset.mem_range.2 he), if_neg hh, if_pos hd]; rfl
    · have hrow : (t.book home dst expert n).alloc r = t.alloc r := by
        funext e; rw [book_alloc]; simp [hh, hd]
      rw [hrow, if_neg hh, if_neg hd]; rfl

section Book
variable {p : Params} {expert request : ℕ} {remote : Bool}

theorem bookMove_tables (t : RefState) (a : Assignment) :
    (bookMove p home dst expert request remote t a).toTables =
      (writeBack p t.toTables expert dst a).book home dst expert a.actualAssigned := by
  rw [bookMove_eq]

theorem bookMove_remote (t : RefState) (a : Assignment) :
    (bookMove p home dst expert request remote t a).remoteExpertSets =
      if 0 < a.actualAssigned ∧ remote = false then
        Function.update t.remoteExpertSets dst (insert expert (t.remoteExpertSets dst))
      else t.remoteExpertSets := by
  rw [bookMove_eq]

theorem Assigning.bookMove_segments (ha : Assigning p t expert dst a) :
    (bookMove p home dst expert request remote t a).segments = t.segments ++ a.segments := by
  rw [bookMove_eq]
  dsimp only
  split_ifs with h0
  · rfl
  · rw [ha.nil (by omega)]

theorem bookMove_alloc (t : RefState) (a : Assignment) (r e : ℕ) :
    (bookMove p home dst expert request remote t a).alloc r e =
      t.alloc r e - (if r = home ∧ e = expert then a.actualAssigned else 0) +
        if r = dst ∧ e = expert then a.actualAssigned else 0 := by
  rw [bookMove_tables, book_alloc]
  rfl

theorem Assigning.bookMove_cursor (ha : Assigning p t expert dst a) (r e : ℕ) :
    (bookMove p home dst expert request remote t a).dstExpertCursor r e =
      t.dstExpertCursor r e + if r = dst ∧ e = expert then a.actualAssigned else 0 := by
  rw [bookMove_tables]
  show (writeBack p t.toTables expert dst a).dstExpertCursor r e = _
  simp only [writeBack]
  split
  · rename_i hc; rw [hc.1, hc.2, ha.cursor]
  · rfl

theorem mem_bookMove_remote {t : RefState} {a : Assignment} {r e : ℕ} :
    e ∈ (bookMove p home dst expert request (decide (expert ∈ t.remoteExpertSets dst)) t a).remoteExpertSets r ↔
      e ∈ t.remoteExpertSets r ∨ (0 < a.actualAssigned ∧ r = dst ∧ e = expert) := by
  simp only [bookMove_remote, decide_eq_false_iff_not]
  split_ifs with h
  · rw [Function.update_apply]
    split_ifs with hr
    · subst hr; simp [h.1, or_comm]
    · simp [hr]
  · refine ⟨.inl, ?_⟩
    rintro (hm | ⟨hn, rfl, rfl⟩)
    · exact hm
    · rw [not_and, not_not] at h
      exact h hn

/-- A rank takes a new expert only where it has a slot. -/
theorem bookMove_slots (h : ∀ r, (t.remoteExpertSets r).card ≤ p.prefetchSlots)
    (hslot : expert ∈ t.remoteExpertSets dst ∨ (t.remoteExpertSets dst).card < p.prefetchSlots) (r : ℕ) :
    ((bookMove p home dst expert request (decide (expert ∈ t.remoteExpertSets dst)) t a).remoteExpertSets r).card ≤
      p.prefetchSlots := by
  simp only [bookMove_remote, decide_eq_false_iff_not]
  split_ifs with hnew
  · rw [Function.update_apply]
    split_ifs with hr
    · rw [Finset.card_insert_of_notMem hnew.2]
      exact hslot.resolve_left hnew.2
    · exact h r
  · exact h r

/-- What is still asked for is still at home, so some source has it. -/
theorem bookMove_supply (hsupply : 0 < a.demand → 0 < ∑ src ∈ Finset.range p.rankSize, a.remaining src) :
    (bookMove p home dst expert request remote t a).sawSupplyBlock = t.sawSupplyBlock := by
  rw [bookMove_eq]
  by_cases hd : 0 < a.demand
  · simp [Assignment.supplyExhausted, (hsupply hd).ne']
  · simp [hd]

/-- The rows of the remainders after a booking: only the expert's row has changed. -/
theorem Assigning.bookMove_home (h : Ledger p t) (ha : Assigning p t expert dst a)
    (hhome : p.homeRank expert = home) (hne : dst ≠ home) (e : ℕ) :
    (bookMove p home dst expert request remote t a).alloc (p.homeRank e) e =
      ∑ src ∈ Finset.range p.rankSize, (bookMove p home dst expert request remote t a).remainingTpe src e := by
  rw [bookMove_alloc, bookMove_tables, h.allocHome]
  show _ = ∑ src ∈ Finset.range p.rankSize, (writeBack p t.toTables expert dst a).remainingTpe src e
  by_cases hee : e = expert
  · subst hee
    rw [hhome, if_pos ⟨rfl, rfl⟩, if_neg fun hc => hne hc.1.symm, ← ha.assigned, Nat.add_zero,
      Nat.add_sub_cancel_left]
    refine Finset.sum_congr rfl fun src hsrc => ?_
    simp only [writeBack, Finset.mem_range.1 hsrc, and_self, if_true]
  · rw [if_neg fun hc => hee hc.2, if_neg fun hc => hee hc.2]
    simp only [Nat.add_zero, Nat.sub_zero, writeBack, hee, and_false, if_false]

theorem bookMove_ledger (h : Ledger p t) (hhome : p.homeRank expert = home) (hne : dst ≠ home)
    (he : expert < p.expertNum)
    (hslot : expert ∈ t.remoteExpertSets dst ∨ (t.remoteExpertSets dst).card < p.prefetchSlots)
    (ha : Assigning p t expert dst a) (hdemand : a.demand + a.actualAssigned ≤ t.alloc home expert) :
    Ledger p (bookMove p home dst expert request (decide (expert ∈ t.remoteExpertSets dst)) t a) := by
  have hhomeAlloc : t.alloc home expert =
      a.actualAssigned + ∑ src ∈ Finset.range p.rankSize, a.remaining src := by
    rw [ha.assigned, ← hhome]; exact h.allocHome expert
  refine
    { log := ?_, away := fun m hm => ?_, allocAway := fun r e hr => ?_
      allocHome := ha.bookMove_home h hhome hne, load := fun r => ?_, remote := fun r e => ?_
      slots := bookMove_slots h.slots hslot, supply := ?_ }
  · rw [ha.bookMove_segments]
    exact ha.log.congr (by rw [bookMove_tables]; rfl) (by rw [bookMove_tables]; rfl) (by rw [bookMove_tables]; rfl)
  · rw [ha.bookMove_segments] at hm
    rcases mem_append.1 hm with hm | hm
    · exact h.away m hm
    · rw [(ha.toDst m hm).1, (ha.toDst m hm).2, hhome]; exact hne
  · rw [bookMove_alloc, ha.bookMove_cursor, h.allocAway r e hr, if_neg, Nat.sub_zero]
    rintro ⟨rfl, rfl⟩; exact hr hhome.symm
  · rw [bookMove_tables]
    exact book_load he hne (hhomeAlloc ▸ Nat.le_add_right _ _) h.load r
  · rw [mem_bookMove_remote, bookMove_alloc, h.remote]
    by_cases hre : r = dst ∧ e = expert
    · obtain ⟨rfl, rfl⟩ := hre
      have h2 : r ≠ p.homeRank e := hhome ▸ hne
      rw [if_neg fun hc : r = home ∧ e = e => hne hc.1, if_pos ⟨rfl, rfl⟩, Nat.sub_zero]
      simp only [h2, and_self, and_true, ne_eq, not_false_eq_true, true_and]
      omega
    · rw [if_neg hre, Nat.add_zero]
      constructor
      · rintro (⟨h1, h2⟩ | ⟨-, hc⟩)
        · rw [if_neg]
          · exact ⟨h1, h2⟩
          · rintro ⟨rfl, rfl⟩; exact h1 hhome.symm
        · exact absurd hc hre
      · rintro ⟨h1, h2⟩; exact .inl ⟨h1, h2.trans_le (Nat.sub_le _ _)⟩
  · rw [bookMove_supply fun _ => by omega]
    exact h.supply

end Book

/-! ## One move -/

theorem moveExpert_ledger {p : Params} {aff : ℕ → List ℕ} {expert : ℕ} (hhome : p.homeRank expert = home)
    (hne : dst ≠ home) (he : expert < p.expertNum) (hdst : dst < p.rankSize) {a : RefMoveAcc}
    (h : Ledger p a.st) : Ledger p (moveExpert p aff home dst a expert).st := by
  unfold moveExpert
  split
  · exact h
  dsimp only
  split
  · exact h
  split
  · exact h.congr rfl rfl rfl rfl
  rename_i hslot
  split
  · exact h.congr rfl rfl rfl rfl
  rename_i asg hasg
  have htotal := assignTokenSources_total hasg
  refine bookMove_ledger h hhome hne he ?_ (Assigning.of_assign h hdst he hasg) ?_
  · by_contra hc
    rw [not_or] at hc
    exact hslot (by simp [hc.1]; omega)
  · rw [htotal]; exact min_le_left _ _

theorem mem_home {p : Params}
    (he : e ∈ List.range' (home * p.expertsPerRank) p.expertsPerRank) : p.homeRank e = home := by
  rw [List.mem_range'_1] at he
  exact Nat.div_eq_of_lt_le he.1 (by rw [Nat.add_mul, Nat.one_mul]; exact he.2)

theorem lt_expertNum_of_home {p : Params} (hhome : home < p.rankSize)
    (he : e ∈ List.range' (home * p.expertsPerRank) p.expertsPerRank) : e < p.expertNum := by
  rw [List.mem_range'_1] at he
  calc e < (home + 1) * p.expertsPerRank := by rw [Nat.add_mul, Nat.one_mul]; exact he.2
    _ ≤ p.rankSize * p.expertsPerRank := Nat.mul_le_mul_right _ hhome
    _ ≤ p.expertNum := Nat.mul_div_le _ _

theorem applyExpertMove_ledger {p : Params} (aff : ℕ → List ℕ) (h : Ledger p t) (hhome : home < p.rankSize)
    (hdst : dst < p.rankSize) (request : ℕ) : Ledger p (applyExpertMove p aff t home dst request).1 := by
  unfold applyExpertMove
  split
  · exact h
  rename_i hgo
  have hne : dst ≠ home := fun hd => hgo (.inr hd.symm)
  have hend : Ledger p ((stdSort (expertBefore (t.alloc home))
      ((List.range' (home * p.expertsPerRank) p.expertsPerRank).filter (0 < t.alloc home ·))).foldl
        (moveExpert p aff home dst) ⟨t, request, false⟩).st := by
    refine foldlRecOn (motive := fun a : RefMoveAcc => Ledger p a.st) _ _ h fun a h e he => ?_
    have he := mem_of_mem_filter (mem_stdSort.1 he)
    exact moveExpert_ledger (mem_home he) hne (lt_expertNum_of_home hhome he) hdst h
  dsimp only
  split
  · exact hend.congr rfl rfl rfl rfl
  · exact hend

/-! ## The phases -/

/-- A property of the reference state that moves between ranks keep, whatever the round counters and
the pair flag are, holds throughout the moves. -/
structure MoveInvariant (p : Params) (aff : ℕ → List ℕ) (P : RefState → Prop) : Prop where
  move : ∀ t home dst request, home < p.rankSize → dst < p.rankSize → P t →
    P (applyExpertMove p aff t home dst request).1
  count : ∀ t n i j (b : Bool), P t → P { t with
    roundCounter := n, intraRounds := i, interRounds := j, sawRouteOrPairBlock := b }

namespace MoveInvariant
variable {p : Params} {aff : ℕ → List ℕ} {P : RefState → Prop} (h : MoveInvariant p aff P)
include h

theorem intraRound {members : List ℕ} (hmem : ∀ r ∈ members, r < p.rankSize) (hR : 0 < p.rankSize)
    (ht : P t) : P (intraRound p aff members t).state := by
  have hget : ∀ i, members.getD i 0 < p.rankSize := fun i => by
    rcases Nat.lt_or_ge i members.length with hi | hi
    · rw [getD_eq_getElem _ _ hi]; exact hmem _ (getElem_mem hi)
    · rw [getD_eq_default _ _ hi]; exact hR
  have hfold (pairs : List ReferenceRankPair) : P (pairs.foldl (movePair p aff members) (t, 0)).1 :=
    foldlRecOn (motive := fun a : RefState × ℕ => P a.1) _ _ ht fun _ ha _ _ =>
      h.move _ _ _ _ (hget _) (hget _) ha
  unfold Reference.intraRound
  split
  · exact ht
  dsimp only
  split
  · exact ht
  split <;> exact h.count _ _ _ _ _ (hfold _)

theorem intraServer (hR : 0 < p.rankSize) (ht : P t) (key : ℕ) : P (intraServer p aff t key) := by
  have hmem : ∀ r ∈ membersOf p key, r < p.rankSize := fun r hr =>
    mem_range.1 (mem_of_mem_filter hr)
  exact loop_keeps (fun t ht => h.intraRound hmem hR ht) ht

theorem runIntraServerStage (hR : 0 < p.rankSize) (ht : P t) : P (runIntraServerStage p aff t) := by
  exact foldlRecOn _ _ ht fun _ ht k _ => h.intraServer hR ht k

theorem tryCandidates (hdst : dst < p.rankSize) {cands : List ℕ} (hc : ∀ r ∈ cands, r < p.rankSize)
    {a : RefInterAcc} (ha : P a.st) : P (tryCandidates p aff dst cands a).st := by
  induction cands generalizing a with
  | nil => exact ha
  | cons src rest ih =>
    have ih := fun {a} => @ih (fun r hr => hc r (mem_cons_of_mem _ hr)) a
    unfold Reference.tryCandidates
    split
    · exact ih ha
    dsimp only
    split
    · exact ih ha
    have hm := h.move a.st src dst (requestedUnits p.cap a.st.rankLoad src dst)
      (hc src mem_cons_self) hdst ha
    split
    · exact hm
    · exact ih hm

theorem interRound (ht : P t) : P (interRound p aff t).state := by
  unfold Reference.interRound
  dsimp only
  set items := ((List.range p.rankSize).map fun r =>
    (⟨r, t.rankLoad r, p.globalRankIds r⟩ : RankedLoad)).filter (·.load ≠ p.cap) with hitems
  have hrank : ∀ it ∈ items, it.rank < p.rankSize := by
    intro it hit
    obtain ⟨r, hr, rfl⟩ := mem_map.1 (mem_of_mem_filter hit)
    exact mem_range.1 hr
  have hserve (senders receivers : List ℕ) (hs : ∀ r ∈ senders, r < p.rankSize)
      (hr : ∀ r ∈ receivers, r < p.rankSize) : P (receivers.foldl (serveReceiver p aff senders) ⟨t, ∅, 0⟩).st := by
    refine foldlRecOn (motive := fun a : RefInterAcc => P a.st) _ _ ht fun a ha dst hdst => ?_
    refine h.tryCandidates (hr dst hdst) (fun r hx => hs r ?_) ha
    have := mem_filter.1 (mem_of_mem_take hx)
    simpa using this.2
  split
  · exact ht
  split
  · exact ht
  set k := (stdSort heavier items).length -
    min (items.filter (·.load < p.cap)).length ((stdSort heavier items).length / 2) with hk
  have hend := hserve (((stdSort heavier items).take k).map (·.rank))
    ((stdSort lighter ((stdSort heavier items).drop k)).map (·.rank))
    (fun r hr => by
      obtain ⟨it, hit, rfl⟩ := mem_map.1 hr
      exact hrank it (mem_stdSort.1 (mem_of_mem_take hit)))
    (fun r hr => by
      obtain ⟨it, hit, rfl⟩ := mem_map.1 hr
      exact hrank it (mem_stdSort.1 (mem_of_mem_drop (mem_stdSort.1 hit))))
  split <;> exact h.count _ _ _ _ _ hend

theorem runInterServerStage (ht : P t) : P (runInterServerStage p aff t) :=
  loop_keeps (fun _ ht => h.interRound ht) ht

end MoveInvariant

theorem ledger_moveInvariant (p : Params) (aff : ℕ → List ℕ) : MoveInvariant p aff (Ledger p) where
  move _ _ _ request hhome hdst h := applyExpertMove_ledger aff h hhome hdst request
  count _ _ _ _ _ h := h.congr rfl rfl rfl rfl

theorem ledger_moves {p : Params} (hR : 0 < p.rankSize) (aff : ℕ → List ℕ) :
    Ledger p (runInterServerStage p aff (runIntraServerStage p aff (RefState.initial p))) :=
  (ledger_moveInvariant p aff).runInterServerStage
    ((ledger_moveInvariant p aff).runIntraServerStage hR (Ledger.initial p))

/-! ## The remainders -/

/-- While the remainders are appended: what is allocated to a rank is what the log brought there,
plus, at home, what the sources still have. -/
structure Settling (p : Params) (t₀ t : RefState) : Prop where
  log : LogOk p t.toTables t.segments
  alloc : t.alloc = t₀.alloc
  rankLoad : t.rankLoad = t₀.rankLoad
  allocAway : ∀ dst e, dst ≠ p.homeRank e → t.alloc dst e = t.dstExpertCursor dst e
  allocHome : ∀ e, t.alloc (p.homeRank e) e =
    t.dstExpertCursor (p.homeRank e) e + ∑ src ∈ Finset.range p.rankSize, t.remainingTpe src e
  remote : t.remoteExpertSets = t₀.remoteExpertSets
  moves : t.expertMoves = t₀.expertMoves
  supply : t.sawSupplyBlock = t₀.sawSupplyBlock

theorem Ledger.settling {p : Params} (h : Ledger p t) : Settling p t t where
  log := h.log
  alloc := rfl
  rankLoad := rfl
  allocAway := h.allocAway
  allocHome e := by
    rw [h.allocHome, h.log.dstCursor, dstTotal_eq_zero, Nat.zero_add]
    intro x hx hd
    obtain ⟨m, hm, rfl⟩ := mem_map.1 hx
    simp only [TokenSegmentMove.toTransfer, Prod.mk.injEq] at hd
    exact h.away m hm (by rw [hd.1, hd.2])
  remote := rfl
  moves := rfl
  supply := rfl

theorem appendRemainder_remaining (p : Params) (t : RefState) (expert src x e : ℕ) :
    (appendRemainder p t expert src).remainingTpe x e =
      if x = src ∧ e = expert then 0 else t.remainingTpe x e := by
  unfold appendRemainder
  dsimp only
  split
  · rename_i h0
    split
    · rename_i hc; rw [hc.1, hc.2, h0]
    · rfl
  · simp only [Tables.give, sub2_apply]
    split
    · rename_i hc; rw [hc.1, hc.2, Nat.sub_self]
    · rfl

theorem Settling.step {p : Params} (h : Settling p t₀ t) {expert : ℕ}
    (he : expert < p.expertNum) (hhome : p.homeRank expert < p.rankSize) (hsrc : src < p.rankSize) :
    Settling p t₀ (appendRemainder p t expert src) := by
  unfold appendRemainder
  dsimp only
  split
  · exact h
  rename_i h0
  set n := t.remainingTpe src expert with hn
  have hcursor : ∀ r e, (t.give expert src (p.homeRank expert) n).dstExpertCursor r e =
      t.dstExpertCursor r e + if r = p.homeRank expert ∧ e = expert then n else 0 := by
    intro r e; simp only [Tables.give, add2_apply]
  refine
    { log := h.log.give hsrc hhome he (Nat.pos_of_ne_zero h0) le_rfl
      alloc := h.alloc, rankLoad := h.rankLoad, remote := h.remote, moves := h.moves
      supply := h.supply, allocAway := fun dst e hd => ?_, allocHome := fun e => ?_ }
  · dsimp only
    rw [hcursor, if_neg fun hc => hd (by rw [hc.1, hc.2])]
    exact h.allocAway dst e hd
  · dsimp only
    rw [hcursor]
    show t.alloc (p.homeRank e) e = _
    rw [h.allocHome]
    by_cases hee : e = expert
    · subst hee
      have hcol : ∑ x ∈ Finset.range p.rankSize, (t.give e src (p.homeRank e) n).remainingTpe x e =
          ∑ x ∈ Finset.range p.rankSize, sub1 (t.remainingTpe · e) src n x :=
        Finset.sum_congr rfl fun x _ => by
          simp only [Tables.give, sub2_apply, sub1_apply, and_true]
      have hsum := sum_sub1 (t.remainingTpe · e) src n (Finset.range p.rankSize) le_rfl
      rw [if_pos (Finset.mem_range.2 hsrc)] at hsum
      rw [if_pos ⟨rfl, rfl⟩, hcol]
      omega
    · rw [if_neg fun hc => hee hc.2, Nat.add_zero]
      simp only [Tables.give, sub2_apply, hee, and_false, if_false, Nat.sub_zero]

/-- The state after the remainders: everything is sent, and every allocation is what the log brought. -/
structure Settled (p : Params) (t₀ t : RefState) : Prop extends Settling p t₀ t where
  sent : ∀ src < p.rankSize, ∀ e < p.expertNum, t.remainingTpe src e = 0

theorem appendRemainderSegments_settled {p : Params} (h : Ledger p t)
    (hhome : ∀ e < p.expertNum, p.homeRank e < p.rankSize) : Settled p t (appendRemainderSegments p t) := by
  have hrow : ∀ expert < p.expertNum, ∀ (srcs : List ℕ), (∀ x ∈ srcs, x < p.rankSize) →
      ∀ t' : RefState, Settling p t t' →
      Settling p t (srcs.foldl (appendRemainder p · expert) t') ∧
      ∀ x e, (srcs.foldl (appendRemainder p · expert) t').remainingTpe x e =
        if x ∈ srcs ∧ e = expert then 0 else t'.remainingTpe x e := by
    intro expert he srcs
    induction srcs with
    | nil => intro _ t' ht; exact ⟨ht, fun x e => by simp⟩
    | cons src srcs ih =>
      intro hs t' ht
      obtain ⟨h1, h2⟩ := ih (fun x hx => hs x (mem_cons_of_mem _ hx)) _
        (ht.step he (hhome expert he) (hs src mem_cons_self))
      refine ⟨h1, fun x e => ?_⟩
      rw [foldl_cons, h2, appendRemainder_remaining]
      by_cases hee : e = expert <;> by_cases hx : x = src <;> by_cases hxs : x ∈ srcs <;>
        simp [hee, hx, hxs]
  have hall : ∀ (experts : List ℕ), (∀ e ∈ experts, e < p.expertNum) → ∀ t' : RefState,
      Settling p t t' →
      Settling p t (experts.foldl
        (fun t expert => (List.range p.rankSize).foldl (appendRemainder p · expert) t) t') ∧
      ∀ x < p.rankSize, ∀ e, (experts.foldl
        (fun t expert => (List.range p.rankSize).foldl (appendRemainder p · expert) t) t').remainingTpe
          x e = if e ∈ experts then 0 else t'.remainingTpe x e := by
    intro experts
    induction experts with
    | nil => intro _ t' ht; exact ⟨ht, fun x _ e => by simp⟩
    | cons expert experts ih =>
      intro he t' ht
      obtain ⟨h1, h2⟩ := hrow expert (he expert mem_cons_self) (List.range p.rankSize)
        (fun x hx => mem_range.1 hx) t' ht
      obtain ⟨h3, h4⟩ := ih (fun x hx => he x (mem_cons_of_mem _ hx)) _ h1
      refine ⟨h3, fun x hx e => ?_⟩
      rw [foldl_cons, h4 x hx, h2]
      by_cases hee : e = expert <;> by_cases hes : e ∈ experts <;> simp [hee, hes, hx]
  obtain ⟨h1, h2⟩ := hall (List.range p.expertNum) (fun e he => mem_range.1 he) t h.settling
  exact { h1 with sent := fun src hsrc e he => (h2 src hsrc e).trans (if_pos (mem_range.2 he)) }

/-- The totals of a settled log: all routes of each source, all of each allocation. -/
theorem Settled.srcTotal {p : Params} (h : Settled p t₀ t) (hsrc : src < p.rankSize) (he : e < p.expertNum) :
    Lib.srcTotal (transfers t.segments) (src, e) = p.tokensPerExpert src e := by
  rw [← h.log.remaining, h.sent src hsrc e he, Nat.zero_add]

theorem Settled.dstTotal {p : Params} (h : Settled p t₀ t) (dst : ℕ)
    (he : e < p.expertNum) : Lib.dstTotal (transfers t.segments) (dst, e) = t.alloc dst e := by
  rw [← h.log.dstCursor]
  by_cases hd : dst = p.homeRank e
  · rw [hd, h.allocHome, Finset.sum_eq_zero fun src hsrc => h.sent src (Finset.mem_range.1 hsrc) e he]
    rfl
  · exact (h.allocAway dst e hd).symm

end Reference

end TileXR.Plan
