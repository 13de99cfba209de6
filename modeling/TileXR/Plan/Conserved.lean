import TileXR.Plan.Collective
import TileXR.Plan.Steps

/-!
# What the moves conserve

Two groups of facts hold in every state of the moves, also inside a call and after a call that ran out
of records. `Logged`: the segments made so far tile the source and destination cursors, those of this
rank are the recorded ones, and the pair counters are their totals. `Balanced`: every expert's tokens
are all allocated, loads are sums of allocations, no rank crosses the capacity, and the remote rows list
the allocations away from home. Between calls, as long as no record is missing, the allocation at home
is what the sources still have (`Called.atHome`); a call that stops for want of a record has taken
tokens without booking them, and there the equation fails.
-/

namespace TileXR.Plan
open Lib List

variable {new : List TokenSegmentMove}
variable {p : Params} {c : Ctx} {s s' : State} {log : List TokenSegmentMove}

/-- The tokens that the segments bring from `src` to `dst`. -/
def pairTokens (log : List TokenSegmentMove) (src dst : ℕ) : ℕ :=
  (log.map fun m => if m.srcRank = src ∧ m.dstRank = dst then m.tokenCount else 0).sum

theorem pairTokens_append (log new : List TokenSegmentMove) (src dst : ℕ) :
    pairTokens (log ++ new) src dst = pairTokens log src dst + pairTokens new src dst := by
  simp [pairTokens]

/-- The tables and records against the segments made so far. -/
structure Logged (c : Ctx) (s : State) (log : List TokenSegmentMove) : Prop where
  tables : LogOk c.toParams s.toTables log
  own : s.tokenSegments = log.filter (·.srcRank = c.rank)
  made : s.globalSegments ≤ log.length + if s.fatal = .ok then 0 else 1
  routed : c.routeLimit ≠ 0 → ∀ src dst, s.routedPairTokens src dst = pairTokens log src dst ∧
    s.routedPairTokens src dst ≤ c.routeLimit

theorem Logged.initial (c : Ctx) : Logged c (State.initial c.toParams) [] where
  tables := LogOk.initial c.toParams
  own := rfl
  made := Nat.zero_le _
  routed _ _ _ := ⟨rfl, Nat.zero_le _⟩

theorem takeAmount_le_room (hl : p.routeLimit ≠ 0) (t : Tables) (dst expert src demand : ℕ) :
    takeAmount p t dst expert src demand ≤ p.routeLimit - t.routedPairTokens src dst := by
  unfold takeAmount
  rw [if_pos hl]
  exact min_le_right _ _

theorem Tables.route_routed (hl : p.routeLimit ≠ 0) (t : Tables) (src dst n : ℕ) :
    (t.route p src dst n).routedPairTokens = add2 t.routedPairTokens src dst n := by
  unfold Tables.route; rw [if_pos hl]

theorem Logged.step (h : Logged c s log) (hstep : Prim c s new s') : Logged c s' (log ++ new) := by
  cases hstep with
  | @take s₁ dst expert src demand n hsrc hdst he hpos hn hok happ =>
    rw [appendSegment_true happ]
    have hle : n ≤ s.remainingTpe src expert := hn ▸ (takeAmount_le ..).1
    refine
      { tables := (h.tables.give hsrc hdst he hpos hle).congr ?_ ?_ ?_
        own := ?_, made := ?_, routed := fun hl src' dst' => ?_ }
    · unfold Tables.route; split <;> rfl
    · unfold Tables.route; split <;> rfl
    · unfold Tables.route; split <;> rfl
    · dsimp only
      rw [h.own, filter_append]
    · have := h.made
      dsimp only
      rw [length_append, length_singleton]
      omega
    · have hroom : n ≤ c.routeLimit - s.routedPairTokens src dst :=
        hn ▸ takeAmount_le_room hl s.toTables dst expert src demand
      obtain ⟨heq, hlim⟩ := h.routed hl src' dst'
      have hseg : pairTokens [s.nextSegment expert src dst n] src' dst' =
          if src = src' ∧ dst = dst' then n else 0 := by simp [pairTokens, Tables.nextSegment]
      dsimp only
      rw [Tables.route_routed hl, add2_apply, pairTokens_append, hseg]
      show s.routedPairTokens src' dst' + _ = _ ∧ s.routedPairTokens src' dst' + _ ≤ _
      by_cases hsame : src = src' ∧ dst = dst'
      · obtain ⟨rfl, rfl⟩ := hsame
        simp only [and_self, if_true]
        omega
      · rw [if_neg hsame, if_neg fun hc => hsame ⟨hc.1.symm, hc.2.symm⟩]
        exact ⟨by omega, by omega⟩
  | full _ _ _ _ hok happ =>
    have hs : s' = { s with globalSegments := s.globalSegments + 1, fatal := .errorMoveRecordOverflow } := by
      unfold appendSegment at happ
      dsimp only at happ
      split at happ
      · simp at happ
      · split at happ
        · exact (Prod.mk.inj happ).1.symm
        · simp at happ
    have hmade := h.made
    rw [if_pos hok] at hmade
    rw [hs, append_nil]
    exact { tables := h.tables, own := h.own, made := by simp; omega, routed := h.routed }
  | book =>
    rw [append_nil]
    exact { tables := h.tables.congr rfl rfl rfl, own := h.own, made := h.made, routed := h.routed }
  | note =>
    rw [append_nil]
    exact { tables := h.tables, own := h.own, made := h.made, routed := h.routed }

theorem Made.logged (h : Made c s log) : Logged c s log := by
  induction h with
  | initial => exact .initial c
  | step _ hstep ih => exact ih.step hstep
  | count _ intra inter pair ih =>
    exact { tables := ih.tables, own := ih.own, made := ih.made, routed := ih.routed }

structure Balanced (c : Ctx) (s : State) : Prop where
  allocated : ∀ e < c.expertNum, ∑ r ∈ Finset.range c.rankSize, s.alloc r e = c.expertTotal e
  loads : ∀ r, s.rankLoad r = ∑ e ∈ Finset.range c.expertNum, s.alloc r e
  above : ∀ r, c.cap ≤ (Tables.initial c.toParams).rankLoad r → c.cap ≤ s.rankLoad r
  below : ∀ r, (Tables.initial c.toParams).rankLoad r ≤ c.cap → s.rankLoad r ≤ c.cap
  registered : ∀ d e, d ≠ c.homeRank e → 0 < s.alloc d e → e ∈ s.remoteExpertSet d
  slots : ∀ d, (s.remoteExpertSet d).length ≤ c.prefetchSlots
  nodup : ∀ d, (s.remoteExpertSet d).Nodup
  moves : s.expertMoves + s.toTables.deficit c.toParams ≤ (Tables.initial c.toParams).deficit c.toParams

theorem Balanced.initial (hc : c.toParams.Valid) : Balanced c (State.initial c.toParams) where
  allocated e he := by
    have hhome := hc.homeRank_lt he
    show ∑ r ∈ Finset.range c.rankSize, (if r = c.homeRank e then c.expertTotal e else 0) = _
    rw [Finset.sum_ite_eq', if_pos (Finset.mem_range.2 hhome)]
  loads r := (Reference.Ledger.initial c.toParams).load r
  above _ h := h
  below _ h := h
  registered d e hd h := by
    rw [show (State.initial c.toParams).alloc d e = 0 from if_neg hd] at h
    exact absurd h (lt_irrefl 0)
  slots _ := Nat.zero_le _
  nodup _ := nodup_nil
  moves := (Nat.zero_add _).le

theorem Balanced.congr (h : Balanced c s) (halloc : s'.alloc = s.alloc) (hload : s'.rankLoad = s.rankLoad)
    (hrows : s'.remoteExpertSet = s.remoteExpertSet) (hmoves : s'.expertMoves = s.expertMoves) : Balanced c s' where
  allocated := halloc ▸ h.allocated
  loads := by rw [halloc, hload]; exact h.loads
  above := hload ▸ h.above
  below := hload ▸ h.below
  registered := by rw [halloc, hrows]; exact h.registered
  slots := hrows ▸ h.slots
  nodup := hrows ▸ h.nodup
  moves := by unfold Tables.deficit; rw [hmoves, hload]; exact h.moves

/-- Booking moves tokens of one expert from one rank to another. -/
theorem book_allocated {t : Tables} {home dst expert n e : ℕ} (hhome : home < p.rankSize) (hdst : dst < p.rankSize)
    (hle : n ≤ t.alloc home expert) : ∑ r ∈ Finset.range p.rankSize, (t.book home dst expert n).alloc r e =
      ∑ r ∈ Finset.range p.rankSize, t.alloc r e := by
  by_cases hee : e = expert
  · subst hee
    have hcol : (fun r => (t.book home dst e n).alloc r e) =
        add1 (sub1 (t.alloc · e) home n) dst n := by
      funext r; rw [Reference.book_alloc, add1_apply, sub1_apply]; simp
    have hsub := sum_sub1 (t.alloc · e) home n (Finset.range p.rankSize) hle
    rw [if_pos (Finset.mem_range.2 hhome)] at hsub
    rw [hcol, sum_add1, if_pos (Finset.mem_range.2 hdst), hsub]
  · refine Finset.sum_congr rfl fun r _ => ?_
    rw [Reference.book_alloc, if_neg fun hc => hee hc.2, if_neg fun hc => hee hc.2]
    rfl

theorem Balanced.step (h : Balanced c s) (hstep : Prim c s new s') : Balanced c s' := by
  cases hstep with
  | take hsrc hdst he hpos hn hok happ =>
    rw [appendSegment_true happ]
    exact h.congr (by simp [Tables.give]) (by simp [Tables.give]) rfl rfl
  | @full _ dst expert src _ n _ _ _ _ hok happ =>
    have hf := appendSegment_frame c s (s.nextSegment expert src dst n)
    rw [happ] at hf
    dsimp only at hf
    exact h.congr (by rw [hf.1]) (by rw [hf.1]) hf.2.1 hf.2.2.1
  | note => exact h.congr rfl rfl rfl rfl
  | @book home dst expert n rows hhome hdst he howner hne hpos hclip hle hrows =>
    have hover : n ≤ s.rankLoad home - c.cap := hclip.trans (min_le_left _ _)
    have hunder : n ≤ c.cap - s.rankLoad dst := hclip.trans (min_le_right _ _)
    have hload : Moved s.rankLoad home dst n (s.book home dst expert n).rankLoad := rfl
    have hrow : ∀ d, rows d = s.remoteExpertSet d ∨ (d = dst ∧ expert ∉ s.remoteExpertSet dst ∧
        (s.remoteExpertSet dst).length < c.prefetchSlots ∧ rows d = s.remoteExpertSet dst ++ [expert]) := by
      intro d
      rcases hrows with ⟨_, rfl⟩ | ⟨hnew, hlen, rfl⟩
      · exact .inl rfl
      · by_cases hd : d = dst
        · subst hd; exact .inr ⟨rfl, hnew, hlen, Function.update_self ..⟩
        · exact .inl (Function.update_of_ne hd ..)
    refine
      { allocated := fun e he => ?_, loads := Reference.book_load he hne.symm hle h.loads
        above := fun r hr => ?_, below := fun r hr => ?_, registered := fun d e hd hpos => ?_
        slots := fun d => ?_, nodup := fun d => ?_, moves := ?_ }
    · exact (book_allocated hhome hdst hle).trans (h.allocated e he)
    · have := h.above r hr
      dsimp only
      rw [hload.apply]
      by_cases hh : r = home
      · subst hh; rw [if_pos rfl, if_neg hne]; omega
      · rw [if_neg hh]; omega
    · have := h.below r hr
      dsimp only
      rw [hload.apply]
      by_cases hd : r = dst
      · subst hd; rw [if_neg hne.symm, if_pos rfl]; omega
      · rw [if_neg hd]; omega
    · dsimp only at hpos ⊢
      rw [Reference.book_alloc] at hpos
      by_cases hin : d = dst ∧ e = expert
      · obtain ⟨rfl, rfl⟩ := hin
        rcases hrows with ⟨hmem, rfl⟩ | ⟨_, _, rfl⟩
        · exact hmem
        · rw [Function.update_self]; simp
      · rw [if_neg hin, Nat.add_zero] at hpos
        have hold := h.registered d e hd (hpos.trans_le (Nat.sub_le _ _))
        rcases hrow d with heq | ⟨rfl, _, _, heq⟩
        · rw [heq]; exact hold
        · rw [heq]; exact mem_append_left _ hold
    · rcases hrow d with heq | ⟨rfl, _, hlen, heq⟩
      · show (rows d).length ≤ _; rw [heq]; exact h.slots d
      · show (rows d).length ≤ _; rw [heq, length_append]; exact hlen
    · rcases hrow d with heq | ⟨rfl, hnew, _, heq⟩
      · show (rows d).Nodup; rw [heq]; exact h.nodup d
      · show (rows d).Nodup
        rw [heq]
        exact (h.nodup d).append (nodup_singleton _) (by simpa using hnew)
    · have hd : (s.book home dst expert n).deficit c.toParams + n = s.toTables.deficit c.toParams :=
        deficit_moved c.toParams hdst hclip hload
      have := h.moves
      dsimp only
      omega

theorem Made.balanced (hc : c.toParams.Valid) (h : Made c s log) : Balanced c s := by
  induction h with
  | initial => exact .initial hc
  | step _ hstep ih => exact ih.step hstep
  | count _ _ _ _ ih => exact ih.congr rfl rfl rfl rfl

/-! ## Between the calls -/

/-- The phases are between two calls of `ApplyExpertMove`. -/
inductive BetweenCalls (c : Ctx) : State → Prop
  | intraHead {key : ℕ} {s : State} (h : IntraHead c key s) : BetweenCalls c s
  | interHead {s : State} (h : InterHead c s) : BetweenCalls c s
  | before {home dst : ℕ} {s : State} (h : CallAt c s home dst) : BetweenCalls c s
  | after {home dst : ℕ} {s : State} (h : CallAt c s home dst) : BetweenCalls c
      (applyExpertMove c s home dst (requestedUnits c.cap s.rankLoad home dst)).1
  | afterIntra : BetweenCalls c (runIntra c (State.initial c.toParams))
  | afterInter (h : (runIntra c (State.initial c.toParams)).fatal = .ok) :
      BetweenCalls c (runInter c (runIntra c (State.initial c.toParams)))

theorem BetweenCalls.called (haff : ∀ d, ∀ r ∈ c.affinityOrder d, r < c.rankSize) (h : BetweenCalls c s) :
    Called c s := by
  have hinv := called_invariant (c := c)
  have hcall : ∀ {s home dst}, CallAt c s home dst → Called c s ∧ home < c.rankSize ∧ dst < c.rankSize :=
    hinv.callAt haff .initial
  cases h with
  | intraHead h => exact (hinv.heads haff .initial).1 _ _ h
  | interHead h => exact (hinv.heads haff .initial).2 _ h
  | before h => exact (hcall h).1
  | after h => exact (hcall h).1.call (hcall h).2.1 (hcall h).2.2
  | afterIntra => exact hinv.runIntra .initial
  | afterInter _ => exact hinv.runInter haff (hinv.runIntra .initial)

/-- After a sequence of calls the state is the view of a reference state with its ledger, unless a
record was missing. -/
theorem Called.sim (hc : c.Valid) (haff : ∀ d, ∀ r ∈ c.affinityOrder d, r < c.rankSize) (h : Called c s) :
    (∃ t, Sim c s t ∧ Reference.Ledger c.toParams t) ∨ Overflown c s := by
  induction h with
  | initial =>
    exact .inl ⟨_, Sim.initial (hc.shared.row _ hc.rank_lt), Reference.Ledger.initial c.toParams⟩
  | @call s home dst _ hhome hdst ih =>
    rcases ih with ⟨t, hsim, hledger⟩ | hover
    · rcases applyExpertMove_sim haff hsim hhome dst
        (requestedUnits c.cap s.rankLoad home dst) with ⟨hsim', _⟩ | hover
      · exact .inl ⟨_, hsim', Reference.applyExpertMove_ledger _ hledger hhome hdst _⟩
      · exact .inr hover
    · right
      rw [show (applyExpertMove c s home dst (requestedUnits c.cap s.rankLoad home dst)).1 = s by
        unfold applyExpertMove; rw [if_pos (.inr (.inr hover.1))]]
      exact hover
  | @count s _ intra inter pair ih =>
    rcases ih with ⟨t, hsim, hledger⟩ | hover
    · exact .inl ⟨{ t with intraRounds := intra, interRounds := inter },
        { hsim with intraRounds := rfl, interRounds := rfl }, hledger.congr rfl rfl rfl rfl⟩
    · exact .inr hover

/-- Between calls, what is allocated to an expert's home rank is what its sources still have. -/
theorem Called.atHome (hc : c.Valid) (haff : ∀ d, ∀ r ∈ c.affinityOrder d, r < c.rankSize) (h : Called c s)
    (hok : s.fatal = .ok) (e : ℕ) :
    s.alloc (c.homeRank e) e = ∑ src ∈ Finset.range c.rankSize, s.remainingTpe src e := by
  rcases h.sim hc haff with ⟨t, hsim, hledger⟩ | hover
  · rw [hsim.tables]; exact hledger.allocHome e
  · exact absurd hok hover.1

/-- The segments of a log tile the cursors, and those of this rank are its records. -/
structure SegmentsTile (c : Ctx) (s : State) (log : List TokenSegmentMove) : Prop where
  own : s.tokenSegments = log.filter (·.srcRank = c.rank)
  source : ∀ src e, Tiles (srcBlocks (transfers log) (src, e)) (s.srcExpertCursor src e)
  destination : ∀ dst e, Tiles (dstBlocks (transfers log) (dst, e)) (s.dstExpertCursor dst e)

theorem Logged.tiles (h : Logged c s log) : SegmentsTile c s log where
  own := h.own
  source src e := by rw [h.tables.srcCursor]; exact h.tables.chained.tiles_src _
  destination dst e := by rw [h.tables.dstCursor]; exact h.tables.chained.tiles_dst _

theorem ctxOf_affinity_lt {x : PlanAlgorithmInput} (ptr : PlanPointers) {ws : PlanAlgorithmWorkspace}
    (hcache : ws.affinityOrderValid = true → ∀ d, ∀ r ∈ ws.affinityOrder d, r < x.rankSize.toNat) :
    ∀ d, ∀ r ∈ (ctxOf x ptr ws).affinityOrder d, r < (ctxOf x ptr ws).rankSize := by
  intro d r hr
  have hr : r ∈ (if ws.affinityOrderValid then ws.affinityOrder
    else buildAffinity (ctxOf x ptr ws).toParams) d := hr
  split at hr
  · rename_i hv; exact hcache hv d r hr
  · exact mem_buildAffinity.1 hr

/-- What the calls of an accepted plan conserve, after any sequence of them. -/
theorem moves_conserve {x : PlanAlgorithmInput} {ptr : PlanPointers} {ws : PlanAlgorithmWorkspace}
    (hvalid : validate x ptr ws = .ok)
    (hcache : ws.affinityOrderValid = true → ∀ d, ∀ r ∈ ws.affinityOrder d, r < x.rankSize.toNat) :
    (∀ s, BetweenCalls (ctxOf x ptr ws) s → Called (ctxOf x ptr ws) s) ∧
    ∀ s, Called (ctxOf x ptr ws) s →
      Balanced (ctxOf x ptr ws) s ∧
      (∃ log, Made (ctxOf x ptr ws) s log ∧ SegmentsTile (ctxOf x ptr ws) s log) ∧
      (s.fatal = .ok → ∀ e, s.alloc ((ctxOf x ptr ws).homeRank e) e =
        ∑ src ∈ Finset.range (ctxOf x ptr ws).rankSize, s.remainingTpe src e) := by
  have hc := validate_ok hvalid
  have haff := ctxOf_affinity_lt ptr hcache
  refine ⟨fun s h => h.called haff, fun s h => ?_⟩
  obtain ⟨log, hmade⟩ := h.made haff
  exact ⟨hmade.balanced hc.shared, ⟨log, hmade, hmade.logged.tiles⟩, h.atHome hc haff⟩

/-- Two ranks whose four routes all go to expert 0, at most one route per pair of ranks, on a rank
without segment records. -/
def noRecords : PlanAlgorithmInput where
  rank := 0
  rankSize := 2
  s := 2
  topK := 1
  expertNum := 2
  config := { rankTokenCapacity := 2, prefetchSlots := 1, nvS := 4, tokenRouteLimitPerPair := 1 }
  topkExperts _ := 0
  tokensPerExpert i := if i % 2 = 0 then 2 else 0
  globalRankIds r := r

def recordsWorkspace (capacity : ℤ) : PlanAlgorithmWorkspace where
  tokenSegmentCapacity := capacity
  scratchCount := 32
  affinityOrder _ := []
  affinityOrderValid := false

def recordsCtx (capacity : ℤ) : Ctx := ctxOf noRecords {} (recordsWorkspace capacity)

/-- With two records two routes move to rank 1, one from each source. -/
theorem moves_conserve_records :
    Balanced (recordsCtx 2) (runIntra (recordsCtx 2) (State.initial (recordsCtx 2).toParams)) ∧
    (runIntra (recordsCtx 2) (State.initial (recordsCtx 2).toParams)).alloc 1 0 = 2 := by
  have h := @moves_conserve noRecords {} (recordsWorkspace 2) (by decide) nofun
  exact ⟨(h.2 _ (h.1 _ .afterIntra)).1, by decide⟩

/-- Without a record the first call takes a route of rank 1, cannot record the one of rank 0 and
returns; the route taken is still allocated to rank 0. -/
theorem noRecords_unbooked :
    validate noRecords {} (recordsWorkspace 0) = .ok ∧
    ∃ s, BetweenCalls (recordsCtx 0) s ∧ s.alloc ((recordsCtx 0).homeRank 0) 0 ≠
      ∑ src ∈ Finset.range (recordsCtx 0).rankSize, s.remainingTpe src 0 := by
  have hhead : IntraHead (recordsCtx 0) 0 (State.initial (recordsCtx 0).toParams) :=
    ⟨none, _, .enter, by decide, .enter⟩
  have hcall : CallAt (recordsCtx 0) (State.initial (recordsCtx 0).toParams) 0 1 :=
    .intra (n := 0) hhead (by decide) rfl
  exact ⟨by decide, _, .after hcall, by decide⟩

/-! ## The route limit -/

/-- With a limit per pair of ranks, the pair counters are the tokens of the segments made so far, and
within the limit, at every point and in whatever order the steps are taken. -/
theorem routedPairTokens_exact {x : PlanAlgorithmInput} {ptr : PlanPointers}
    {ws : PlanAlgorithmWorkspace} (hvalid : validate x ptr ws = .ok)
    (hcache : ws.affinityOrderValid = true → ∀ d, ∀ r ∈ ws.affinityOrder d, r < x.rankSize.toNat)
    (hlimit : x.config.tokenRouteLimitPerPair ≠ 0) :
    (∀ s, MovePoint (ctxOf x ptr ws) s → ∃ log, Made (ctxOf x ptr ws) s log) ∧
    ∀ s log, Made (ctxOf x ptr ws) s log →
      s.tokenSegments = log.filter (·.srcRank = (ctxOf x ptr ws).rank) ∧
      ∀ src dst, s.routedPairTokens src dst = pairTokens log src dst ∧
        (s.routedPairTokens src dst : ℤ) ≤ x.config.tokenRouteLimitPerPair := by
  have haff := ctxOf_affinity_lt ptr hcache
  refine ⟨fun s h => h.made haff, fun s log h => ⟨h.logged.own, fun src dst => ?_⟩⟩
  have hpos : 0 ≤ x.config.tokenRouteLimitPerPair := (validate_config hvalid).limit.1
  have hl : (ctxOf x ptr ws).routeLimit ≠ 0 := by
    show x.config.tokenRouteLimitPerPair.toNat ≠ 0
    omega
  obtain ⟨heq, hle⟩ := h.logged.routed hl src dst
  have hle : s.routedPairTokens src dst ≤ x.config.tokenRouteLimitPerPair.toNat := hle
  exact ⟨heq, by omega⟩

/-- With one record less than there are moves, the counters still agree after the call that failed. -/
theorem routedPairTokens_records :
    ∃ log, Made (recordsCtx 0) (runIntra (recordsCtx 0) (State.initial (recordsCtx 0).toParams)) log ∧
      pairTokens log 1 1 = 1 ∧ pairTokens log 0 1 = 0 := by
  have h := @routedPairTokens_exact noRecords {} (recordsWorkspace 0) (by decide) nofun (by decide)
  obtain ⟨log, hlog⟩ := h.1 _ .afterIntra
  have hpair := (h.2 _ log hlog).2
  exact ⟨log, hlog, (hpair 1 1).1.symm.trans (by decide), (hpair 0 1).1.symm.trans (by decide)⟩

end TileXR.Plan
