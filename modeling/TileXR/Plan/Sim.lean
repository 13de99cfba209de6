import TileXR.Plan.Ledger

/-!
# The per-rank planner simulates the reference planner

`Sim c s t`: after the same moves, the state `s` of rank `c.rank` has the tables of the reference
state `t`, its remote rows list `t`'s remote sets, and its segments are those of `t` with this rank as
source. The rank never runs out of segment records when it has `cap` of them: every segment it records
takes at least one token off its remainders (`room`). A rank with fewer records may have stopped with an
error (`Overflown`).
-/

namespace TileXR.Plan
open Function Lib List Reference

variable {c : Ctx} {t : Tables} {expert src dst home : ℕ} {s₀ : State} {a : TakeAcc} {b : Assignment}

/-! ## The sorts agree -/

theorem betterRank_strict (L ids : ℕ → ℕ) (asc : Bool) : StrictTotal (betterRank L ids asc) := by
  cases asc with
  | true => exact .thenBy L .of_lt (.thenBy ids .of_lt .of_lt)
  | false => exact .thenBy L (.flip .of_lt) (.thenBy ids .of_lt .of_lt)

theorem betterAffinity_strict (ids : ℕ → ℕ) (dst : ℕ) : StrictTotal (betterAffinity ids dst) :=
  .thenBy (ids · ^^^ ids dst) .of_lt (.thenBy ids .of_lt .of_lt)

theorem expertBefore_strict (alloc : ℕ → ℕ) : StrictTotal (expertBefore alloc) :=
  .thenBy alloc (.flip .of_lt) .of_lt

theorem buildAffinity_eq (p : Params) (dst : ℕ) : buildAffinity p dst = buildAffinityOrders p dst :=
  insertSort_eq_stdSort (betterAffinity_strict _ _) _

theorem expertOrder_eq (p : Params) (t : Tables) (home : ℕ) :
    expertOrder p t home = stdSort (expertBefore (t.alloc home))
      ((List.range' (home * p.expertsPerRank) p.expertsPerRank).filter (0 < t.alloc home ·)) := by
  rw [expertOrder, ← insertSort_eq_stdSort (expertBefore_strict _)]
  refine insertSort_congr (Nodup.filter _ (nodup_range' ..)) fun a _ b _ hne => ?_
  unfold betterExpert expertBefore
  rcases lt_trichotomy (t.alloc home a) (t.alloc home b) with h | h | h
  · simp [h, h.ne]; omega
  · by_cases hab : b < a
    · simp [h, hab]; omega
    · simp [h, hab]; omega
  · simp [h, h.ne', h.not_gt]

/-! ## The relation -/

/-- The state of one rank's planner against the reference state (see the module doc). -/
structure Sim (c : Ctx) (s : State) (t : RefState) : Prop where
  tables : s.toTables = t.toTables
  nodup : ∀ d, (s.remoteExpertSet d).Nodup
  remote : ∀ d e, e ∈ s.remoteExpertSet d ↔ e ∈ t.remoteExpertSets d
  segments : s.tokenSegments = t.segments.filter (·.srcRank = c.rank)
  expertMoves : s.expertMoves = t.expertMoves.length
  intraRounds : s.intraRounds = t.intraRounds
  interRounds : s.interRounds = t.interRounds
  slotBlock : s.slotBlock = t.sawSlotBlock
  supplyBlock : s.supplyBlock = t.sawSupplyBlock
  fatal : s.fatal = .ok
  room : s.tokenSegments.length + ∑ e ∈ Finset.range c.expertNum, s.remainingTpe c.rank e ≤ c.cap

/-- The rank stopped because it had too few segment records. -/
def Overflown (c : Ctx) (s : State) : Prop := s.fatal ≠ .ok ∧ c.tokenSegmentCapacity < c.cap

theorem Sim.card {s : State} {t : RefState} (h : Sim c s t) (d : ℕ) :
    (s.remoteExpertSet d).length = (t.remoteExpertSets d).card := by
  rw [← toFinset_card_of_nodup (h.nodup d)]
  congr 1
  ext e
  rw [mem_toFinset, h.remote]

/-! ## Taking tokens from the sources -/

/-- The loop over the affinity row against `AssignTokenSources`, both started from `s₀` and `t`. -/
structure TakeSim (c : Ctx) (s₀ : State) (t : Tables) (expert dst : ℕ) (a : TakeAcc)
    (b : Assignment) : Prop where
  ok : a.ok = true
  st : a.st = { s₀ with
    toTables := writeBack c.toParams t expert dst b
    tokenSegments := s₀.tokenSegments ++ b.segments.filter (·.srcRank = c.rank)
    globalSegments := a.st.globalSegments }
  demand : a.expertDemand = b.demand
  actual : a.actual = b.actualAssigned
  empty : b.actualAssigned = 0 → b.segments = []
  room : a.st.tokenSegments.length + ∑ e ∈ Finset.range c.expertNum, a.st.remainingTpe c.rank e ≤ c.cap

theorem appendSegment_cases (c : Ctx) (s : State) (m : TokenSegmentMove) :
    (m.srcRank = c.rank ∧ c.tokenSegmentCapacity ≤ s.tokenSegments.length ∧
      ∃ s', appendSegment c s m = (s', false) ∧ s'.fatal ≠ .ok) ∨
    appendSegment c s m = ({ s with
      globalSegments := s.globalSegments + 1
      tokenSegments := s.tokenSegments ++ [m].filter (·.srcRank = c.rank) }, true) := by
  unfold appendSegment
  dsimp only
  by_cases hsrc : m.srcRank = c.rank
  · rw [if_neg (not_not.2 hsrc)]
    by_cases hfull : s.tokenSegments.length ≥ c.tokenSegmentCapacity
    · rw [if_pos hfull]; exact .inl ⟨hsrc, hfull, _, rfl, fun h => by cases h⟩
    · rw [if_neg hfull]; right; simp [hsrc]
  · rw [if_pos hsrc]; right; simp [hsrc]

/-- A source that gives tokens away keeps the room for its segments. -/
theorem room_give {take len : ℕ} (dst : ℕ) (he : expert < c.expertNum) (h0 : 0 < take)
    (hle : take ≤ t.remainingTpe src expert)
    (hroom : len + ∑ e ∈ Finset.range c.expertNum, t.remainingTpe c.rank e ≤ c.cap) :
    len + (if src = c.rank then 1 else 0) +
      ∑ e ∈ Finset.range c.expertNum, (t.give expert src dst take).remainingTpe c.rank e ≤ c.cap := by
  by_cases hsrc : src = c.rank
  · have hrow : (t.give expert src dst take).remainingTpe c.rank =
        sub1 (t.remainingTpe c.rank) expert take := by
      funext e; simp only [Tables.give, sub2_apply, sub1_apply, hsrc, true_and]
    have hsum := sum_sub1 (t.remainingTpe c.rank) expert take (Finset.range c.expertNum) (hsrc ▸ hle)
    rw [if_pos (Finset.mem_range.2 he)] at hsum
    rw [hrow, if_pos hsrc]; omega
  · have hrow : (t.give expert src dst take).remainingTpe c.rank = t.remainingTpe c.rank := by
      funext e
      simp only [Tables.give, sub2_apply, Ne.symm hsrc, false_and, if_false, Nat.sub_zero]
    rw [hrow, if_neg hsrc]; exact hroom

/-- A rank with room for its tokens and no record left has fewer records than tokens. -/
theorem overflow_of_room {take len : ℕ} (he : expert < c.expertNum) (h0 : 0 < take)
    (hle : take ≤ t.remainingTpe c.rank expert)
    (hroom : len + ∑ e ∈ Finset.range c.expertNum, t.remainingTpe c.rank e ≤ c.cap)
    (hfull : c.tokenSegmentCapacity ≤ len) : c.tokenSegmentCapacity < c.cap := by
  have := Finset.single_le_sum (f := fun e => t.remainingTpe c.rank e) (fun _ _ => Nat.zero_le _)
    (Finset.mem_range.2 he)
  omega

theorem takeAmount_writeBack {p : Params} (b : Assignment) (hsrc : src < p.rankSize) :
    takeAmount p (writeBack p t expert dst b) dst expert src b.demand =
      min (min (b.remaining src) b.demand)
        (if p.routeLimit ≠ 0 then p.routeLimit - b.routed src else b.demand) := by
  simp only [takeAmount, writeBack, hsrc, and_self, if_true]

theorem TakeSim.step (he : expert < c.expertNum) (hsrc : src < c.rankSize) (h : TakeSim c s₀ t expert dst a b) :
    (∃ b', assignFromSource c.toParams expert dst (some b) src = some b' ∧
      TakeSim c s₀ t expert dst (takeFromSource c dst expert a src) b') ∨
    ((takeFromSource c dst expert a src).ok = false ∧ Overflown c (takeFromSource c dst expert a src).st) := by
  have htab : a.st.toTables = writeBack c.toParams t expert dst b := by rw [h.st]
  unfold takeFromSource assignFromSource
  simp only [h.ok, Bool.not_true, Bool.false_or, decide_eq_true_eq, h.demand]
  by_cases hd : b.demand = 0
  · simp only [hd, if_true]
    exact .inl ⟨b, rfl, h⟩
  rw [if_neg hd, if_neg hd, if_neg (by omega), htab, takeAmount_writeBack b hsrc]
  set take := min (min (b.remaining src) b.demand)
    (if c.routeLimit ≠ 0 then c.routeLimit - b.routed src else b.demand) with htake
  by_cases h0 : take = 0
  · rw [if_pos h0, if_pos h0]; exact .inl ⟨b, rfl, h⟩
  rw [if_neg h0, if_neg h0]
  have hle : take ≤ (writeBack c.toParams t expert dst b).remainingTpe src expert := by
    simp only [writeBack, hsrc, and_self, if_true]; omega
  have hroom := h.room
  rw [htab] at hroom
  rcases appendSegment_cases c a.st
    (Tables.nextSegment (writeBack c.toParams t expert dst b) expert src dst take) with
    ⟨hown, hfull, s', happ, hfat⟩ | happ
  · rw [happ]
    refine .inr ⟨rfl, hfat, ?_⟩
    have hown : src = c.rank := hown
    exact overflow_of_room he (Nat.pos_of_ne_zero h0) (hown ▸ hle) hroom hfull
  · rw [happ]
    refine .inl ⟨_, rfl, ⟨rfl, ?_, rfl, congrArg (· + take) h.actual, fun hz => ?_, ?_⟩⟩
    · dsimp only
      rw [h.st]
      dsimp only
      rw [← writeBack_give _ _ _ _ _ _ _ hsrc, Assignment.take, nextSegment_writeBack b take hsrc, filter_append,
        append_assoc]
    · dsimp only [Assignment.take] at hz; omega
    · dsimp only
      rw [htab, Tables.route_remainingTpe, length_append]
      have := room_give dst he (Nat.pos_of_ne_zero h0) hle hroom
      by_cases hown : src = c.rank
      · simpa [Tables.nextSegment, hown, Nat.add_assoc] using this
      · simpa [Tables.nextSegment, hown] using this

theorem takeFromSource_stopped (h : a.ok = false) (src : ℕ) : takeFromSource c dst expert a src = a := by
  unfold takeFromSource
  rw [if_pos (by simp [h])]

theorem TakeSim.foldl (he : expert < c.expertNum) {order : List ℕ} (horder : ∀ r ∈ order, r < c.rankSize)
    (h : TakeSim c s₀ t expert dst a b) :
    (∃ b', order.foldl (assignFromSource c.toParams expert dst) (some b) = some b' ∧
      TakeSim c s₀ t expert dst (order.foldl (takeFromSource c dst expert) a) b') ∨
    ((order.foldl (takeFromSource c dst expert) a).ok = false ∧
      Overflown c (order.foldl (takeFromSource c dst expert) a).st) := by
  refine foldl_rel (r := fun a b => (∃ b', b = some b' ∧ TakeSim c s₀ t expert dst a b') ∨
    (a.ok = false ∧ Overflown c a.st)) (.inl ⟨b, rfl, h⟩) fun src hsrc a b hab => ?_
  rcases hab with ⟨b', rfl, h⟩ | hstop
  · exact h.step he (horder src hsrc)
  · rw [takeFromSource_stopped hstop.1]
    exact .inr hstop

/-! ## One move -/

theorem routeBlocked_writeBack (p : Params) (t : Tables) (expert dst : ℕ) (b : Assignment) :
    routeBlocked p (writeBack p t expert dst b) dst expert = b.routeLimited p := by
  unfold routeBlocked Assignment.routeLimited
  rw [Bool.eq_iff_iff, any_eq_true, any_eq_true]
  refine exists_congr fun src => and_congr_right fun hsrc => ?_
  simp only [writeBack, mem_range.1 hsrc, and_self, if_true]

theorem supply_writeBack (p : Params) (t : Tables) (expert dst : ℕ) (b : Assignment) :
    decide (supply p (writeBack p t expert dst b) expert = 0) = b.supplyExhausted p := by
  unfold supply Assignment.supplyExhausted
  rw [Finset.sum_congr rfl fun src hsrc => ?_]
  simp only [writeBack, Finset.mem_range.1 hsrc, and_self, if_true]

theorem bookMove_sim {t : RefState} (h : Sim c s₀ t) (home request : ℕ)
    (ht : TakeSim c s₀ t.toTables expert dst a b) :
    Sim c (bookMove c home dst expert (findRemote s₀ dst expert) a)
      (Reference.bookMove c.toParams home dst expert request
        (decide (expert ∈ t.remoteExpertSets dst)) t b) := by
  have hfind : findRemote s₀ dst expert = decide (expert ∈ t.remoteExpertSets dst) := by
    unfold findRemote; rw [Bool.eq_iff_iff]; simp [h.remote]
  have hroom := ht.room
  -- the state after the booking, before the blocks are noted
  have hmid : Sim c
      (if 0 < a.actual then
        { a.st with
          toTables := a.st.book home dst expert a.actual
          remoteExpertSet :=
            if findRemote s₀ dst expert then a.st.remoteExpertSet
            else Function.update a.st.remoteExpertSet dst (a.st.remoteExpertSet dst ++ [expert])
          expertMoves := a.st.expertMoves + 1 }
      else a.st)
      (if 0 < b.actualAssigned then
        { t with
          toTables := (writeBack c.toParams t.toTables expert dst b).book home dst expert b.actualAssigned
          remoteExpertSets :=
            if decide (expert ∈ t.remoteExpertSets dst) then t.remoteExpertSets
            else Function.update t.remoteExpertSets dst (insert expert (t.remoteExpertSets dst))
          segments := t.segments ++ b.segments
          expertMoves := t.expertMoves ++
            [⟨expert, home, dst, request, b.actualAssigned, t.roundCounter⟩] }
      else { t with toTables := writeBack c.toParams t.toTables expert dst b }) := by
    rw [ht.actual, hfind]
    by_cases hpos : 0 < b.actualAssigned
    · rw [if_pos hpos, if_pos hpos]
      rw [ht.st] at hroom ⊢
      refine
        { tables := rfl, nodup := fun d => ?_, remote := fun d e => ?_, segments := ?_
          expertMoves := by simp [h.expertMoves], intraRounds := h.intraRounds
          interRounds := h.interRounds, slotBlock := h.slotBlock, supplyBlock := h.supplyBlock
          fatal := h.fatal, room := hroom }
      · dsimp only
        by_cases hin : expert ∈ t.remoteExpertSets dst
        · simpa only [hin, decide_true, if_true] using h.nodup d
        · simp only [hin, decide_false, Bool.false_eq_true, if_false]
          by_cases hd : d = dst
          · subst hd
            rw [update_self]
            refine (h.nodup d).append (nodup_singleton _) ?_
            simpa [h.remote] using hin
          · rw [update_of_ne hd]; exact h.nodup d
      · dsimp only
        by_cases hin : expert ∈ t.remoteExpertSets dst
        · simpa only [hin, decide_true, if_true] using h.remote d e
        · simp only [hin, decide_false, Bool.false_eq_true, if_false]
          by_cases hd : d = dst
          · subst hd
            rw [update_self, update_self, mem_append, mem_singleton, Finset.mem_insert, h.remote, or_comm]
          · rw [update_of_ne hd, update_of_ne hd]; exact h.remote d e
      · dsimp only
        rw [filter_append, h.segments]
    · rw [if_neg hpos, if_neg hpos]
      have hnil := ht.empty (by omega)
      rw [ht.st] at hroom ⊢
      exact
        { tables := rfl, nodup := h.nodup, remote := h.remote
          segments := by simp [hnil, h.segments], expertMoves := h.expertMoves
          intraRounds := h.intraRounds, interRounds := h.interRounds, slotBlock := h.slotBlock
          supplyBlock := h.supplyBlock, fatal := h.fatal, room := hroom }
  unfold bookMove Reference.bookMove
  dsimp only
  generalize hs : (if 0 < a.actual then _ else a.st : State) = s at hmid ⊢
  generalize hr : (if 0 < b.actualAssigned then _ else _ : RefState) = r at hmid ⊢
  have hblock : routeBlocked c.toParams s.toTables dst expert = b.routeLimited c.toParams := by
    rw [← routeBlocked_writeBack c.toParams t.toTables expert dst b, hmid.tables, ← hr]
    split <;> rfl
  have hsupply : decide (supply c.toParams s.toTables expert = 0) = b.supplyExhausted c.toParams := by
    rw [← supply_writeBack c.toParams t.toTables expert dst b, hmid.tables, ← hr]
    split <;> rfl
  rw [ht.demand, hblock]
  split
  · split
    · exact { hmid with }
    · rw [← hsupply]
      split
      · rename_i hz; rw [if_pos (by simpa using hz)]; exact { hmid with supplyBlock := rfl }
      · rename_i hz; rw [if_neg (by simpa using hz)]; exact hmid
  · exact hmid

/-- The loop over the home rank's experts, related while no record is missing. -/
structure MoveSim (c : Ctx) (a : MoveAcc) (b : RefMoveAcc) : Prop where
  ok : a.ok = true
  st : Sim c a.st b.st
  demand : a.demand = b.demand
  found : a.found = b.found

theorem MoveSim.step (haff : ∀ d, ∀ r ∈ c.affinityOrder d, r < c.rankSize) (he : expert < c.expertNum)
    {a : MoveAcc} {b : RefMoveAcc} (h : MoveSim c a b) : MoveSim c (moveExpert c home dst a expert)
      (Reference.moveExpert c.toParams c.affinityOrder home dst b expert) ∨
    ((moveExpert c home dst a expert).ok = false ∧ Overflown c (moveExpert c home dst a expert).st) := by
  have htab := h.st.tables
  have hfind : findRemote a.st dst expert = decide (expert ∈ b.st.remoteExpertSets dst) := by
    unfold findRemote; rw [Bool.eq_iff_iff]; simp [h.st.remote]
  unfold moveExpert Reference.moveExpert
  simp only [h.ok, Bool.not_true, Bool.false_or, decide_eq_true_eq, h.demand, htab]
  split
  · exact .inl h
  split
  · exact .inl h
  rw [hfind, h.st.card]
  split
  · exact .inl ⟨rfl, { h.st with tables := rfl, slotBlock := rfl, room := htab ▸ h.st.room }, rfl,
      h.found⟩
  have hstart : TakeSim c a.st b.st.toTables expert dst
      ⟨a.st, min (b.st.alloc home expert) b.demand, 0, true⟩
      ⟨(b.st.remainingTpe · expert), (b.st.routedPairTokens · dst), (b.st.srcExpertCursor · expert),
        b.st.dstExpertCursor dst expert, [], 0, min (b.st.alloc home expert) b.demand⟩ :=
    { ok := rfl
      st := by
        have : writeBack c.toParams b.st.toTables expert dst
            ⟨(b.st.remainingTpe · expert), (b.st.routedPairTokens · dst),
              (b.st.srcExpertCursor · expert), b.st.dstExpertCursor dst expert, [], 0,
              min (b.st.alloc home expert) b.demand⟩ = a.st.toTables := by
          rw [htab]; unfold writeBack
          congr 1 <;> funext x y <;> dsimp only <;> split <;> simp_all
        rw [this]; simp
      demand := rfl, actual := rfl, empty := fun _ => rfl, room := h.st.room }
  rcases hstart.foldl he (haff dst) with ⟨asg, hasg, ht⟩ | ⟨hok, hov⟩
  · rw [assignTokenSources, hasg]
    left
    rw [if_neg (by rw [ht.ok]; decide)]
    have hb := bookMove_sim h.st home (min (b.st.alloc home expert) b.demand) ht
    rw [hfind] at hb
    exact ⟨rfl, hb, by rw [ht.actual], rfl⟩
  · right
    rw [if_pos (by rw [hok]; rfl)]
    exact ⟨rfl, hov⟩

theorem moveExpert_stopped {a : MoveAcc} (h : a.ok = false) (expert : ℕ) : moveExpert c home dst a expert = a := by
  unfold moveExpert
  rw [if_pos (by simp [h])]

theorem MoveSim.foldl (haff : ∀ d, ∀ r ∈ c.affinityOrder d, r < c.rankSize) (home dst : ℕ) {experts : List ℕ}
    (he : ∀ e ∈ experts, e < c.expertNum) {a : MoveAcc} {b : RefMoveAcc} (h : MoveSim c a b) :
    MoveSim c (experts.foldl (moveExpert c home dst) a)
      (experts.foldl (Reference.moveExpert c.toParams c.affinityOrder home dst) b) ∨
    ((experts.foldl (moveExpert c home dst) a).ok = false ∧
      Overflown c (experts.foldl (moveExpert c home dst) a).st) := by
  refine foldl_rel (r := fun a b => MoveSim c a b ∨ (a.ok = false ∧ Overflown c a.st)) (.inl h)
    fun e hmem a b hab => ?_
  rcases hab with h | hstop
  · exact h.step haff (he e hmem)
  · rw [moveExpert_stopped hstop.1]
    exact .inr hstop

theorem applyExpertMove_sim (haff : ∀ d, ∀ r ∈ c.affinityOrder d, r < c.rankSize) {s : State} {t : RefState}
    (h : Sim c s t) (hhome : home < c.rankSize) (dst request : ℕ) : (Sim c (applyExpertMove c s home dst request).1
        (Reference.applyExpertMove c.toParams c.affinityOrder t home dst request).1 ∧
      (applyExpertMove c s home dst request).2 =
        (Reference.applyExpertMove c.toParams c.affinityOrder t home dst request).2) ∨
    Overflown c (applyExpertMove c s home dst request).1 := by
  unfold applyExpertMove Reference.applyExpertMove
  by_cases hskip : request = 0 ∨ home = dst
  · rw [if_pos (hskip.imp_right .inl), if_pos hskip]; exact .inl ⟨h, rfl⟩
  rw [if_neg (by simpa [h.fatal, or_assoc] using hskip), if_neg hskip, expertOrder_eq, h.tables]
  set experts := stdSort (expertBefore (t.alloc home))
    ((List.range' (home * c.expertsPerRank) c.expertsPerRank).filter (0 < t.alloc home ·)) with hexp
  have he : ∀ e ∈ experts, e < c.expertNum := by
    intro e he
    rw [hexp, mem_stdSort] at he
    exact lt_expertNum_of_home hhome (mem_of_mem_filter he)
  have hstart : MoveSim c ⟨s, request, false, true⟩ ⟨t, request, false⟩ := ⟨rfl, h, rfl, rfl⟩
  dsimp only
  rcases hstart.foldl haff home dst he with hm | ⟨hok, hov⟩
  · left
    rw [hm.ok, hm.demand, hm.found]
    simp only [Bool.not_true, Bool.false_eq_true, if_false]
    refine ⟨?_, trivial⟩
    split
    · exact { hm.st with }
    · exact hm.st
  · right
    rw [hok]; exact hov

end TileXR.Plan
