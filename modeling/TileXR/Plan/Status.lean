import TileXR.Plan.Collective

/-!
# The status of a plan

What `RunPlanAlgorithm` returns after an accepted call with enough segment records: `PLAN_OK` or the
layout error when the moves end with every rank at capacity, one of two partial statuses otherwise.
The remaining statuses guard against states the ledger excludes.
-/

namespace TileXR.Plan
open Lib
open Reference (Ledger RefState Settled)

def AtCapacity (p : Params) (t : Tables) : Prop := ∀ d < p.rankSize, t.rankLoad d = p.cap

theorem balanced_iff {p : Params} {t : Tables} : balanced p t = true ↔ AtCapacity p t := by
  simp [balanced, AtCapacity]

theorem balanceStatus_of_supplied {slotBlock supplyBlock : Bool} (h : supplyBlock = false) :
    balanceStatus slotBlock supplyBlock = .partialPrefetchSlotExhausted ∨
      balanceStatus slotBlock supplyBlock = .partialNoFeasiblePair := by
  subst h
  cases slotBlock
  · exact .inr rfl
  · exact .inl rfl

theorem deficit_cast (p : Params) (t : Tables) :
    (t.deficit p : ℤ) = ∑ d ∈ Finset.range p.rankSize, max 0 ((p.cap : ℤ) - t.rankLoad d) := by
  unfold Tables.deficit
  induction p.rankSize with
  | zero => rfl
  | succ n ih => rw [Finset.sum_range_succ, Finset.sum_range_succ]; omega

/-- The result of a call, in terms of the tables its moves end with. -/
structure StatusExplained (c : Ctx) (r : PlanResult) : Prop where
  state : r.state = some (runMoves c)
  ok : r.status = .ok ↔ AtCapacity c.toParams (runMoves c).toTables ∧
    ∀ d < c.rankSize, paddedSum c.toParams (runMoves c).toTables d ≤ c.nvS
  exceeds : r.status = .errorLayoutExceedsNvS ↔ AtCapacity c.toParams (runMoves c).toTables ∧
    ∃ d < c.rankSize, c.nvS < paddedSum c.toParams (runMoves c).toTables d
  unbalanced : ¬ AtCapacity c.toParams (runMoves c).toTables →
    r.status = .partialPrefetchSlotExhausted ∨ r.status = .partialNoFeasiblePair
  supplied : r.status ≠ .partialTokenSupply
  recorded : (runMoves c).fatal = .ok ∧ r.status ≠ .errorMoveRecordOverflow
  matched : (∀ d, r.dst = some d → d.2 = .ok) ∧ r.status ≠ .errorInternalInvariant
  slots : (buildLayouts c (runMoves c).toTables).2 ≠ .partialPrefetchSlotExhausted
  missing : r.statusWords[3]? = some (∑ d ∈ Finset.range c.rankSize,
    max 0 ((c.cap : ℤ) - (runMoves c).rankLoad d))

section planFrom
variable {c : Ctx} (h : (runMoves c).fatal = .ok)
include h

theorem planFrom_state : (planFrom c).state = some (runMoves c) := by
  unfold planFrom; dsimp only; rw [if_neg (not_not.2 h)]

theorem planFrom_dst : (planFrom c).dst = if (buildLayouts c (runMoves c).toTables).2 = .ok then
    some (buildDst c (runMoves c).tokenSegments
      (buildLayouts c (runMoves c).toTables).1.expertPhysicalBase) else none := by
  unfold planFrom; dsimp only; rw [if_neg (not_not.2 h)]

theorem planFrom_missing : (planFrom c).statusWords[3]? =
    some (((runMoves c).toTables.deficit c.toParams : ℕ) : ℤ) := by
  unfold planFrom; dsimp only; rw [if_neg (not_not.2 h)]; rfl

/-- The status of a balanced plan is that of the last phase it got to. -/
theorem planFrom_status_balanced (hb : AtCapacity c.toParams (runMoves c).toTables) :
    (planFrom c).status = match (planFrom c).dst with
      | none => (buildLayouts c (runMoves c).toTables).2
      | some d => d.2 := by
  rw [planFrom_dst h]
  unfold planFrom
  dsimp only
  rw [if_neg (not_not.2 h)]
  exact if_pos (balanced_iff.2 hb)

theorem planFrom_status_unbalanced (hb : ¬ AtCapacity c.toParams (runMoves c).toTables) :
    (planFrom c).status = balanceStatus (runMoves c).slotBlock (runMoves c).supplyBlock := by
  unfold planFrom
  dsimp only
  rw [if_neg (not_not.2 h)]
  exact if_neg fun hbal => hb (balanced_iff.1 hbal)

end planFrom

theorem planFrom_cases {c : Ctx} (hfatal : (runMoves c).fatal = .ok) (hsupply : (runMoves c).supplyBlock = false)
    (hdst : ∀ d, (planFrom c).dst = some d → d.2 = .ok)
    (hlayout : ((∀ d < c.rankSize, paddedSum c.toParams (runMoves c).toTables d ≤ c.nvS) ∧
      (buildLayouts c (runMoves c).toTables).2 = .ok) ∨
      ((∃ d < c.rankSize, c.nvS < paddedSum c.toParams (runMoves c).toTables d) ∧
      (buildLayouts c (runMoves c).toTables).2 = .errorLayoutExceedsNvS)) :
    (AtCapacity c.toParams (runMoves c).toTables ∧
      (∀ d < c.rankSize, paddedSum c.toParams (runMoves c).toTables d ≤ c.nvS) ∧ (planFrom c).status = .ok) ∨
    (AtCapacity c.toParams (runMoves c).toTables ∧
      (∃ d < c.rankSize, c.nvS < paddedSum c.toParams (runMoves c).toTables d) ∧
      (planFrom c).status = .errorLayoutExceedsNvS) ∨ (¬ AtCapacity c.toParams (runMoves c).toTables ∧
      ((planFrom c).status = .partialPrefetchSlotExhausted ∨ (planFrom c).status = .partialNoFeasiblePair)) := by
  by_cases hbal : AtCapacity c.toParams (runMoves c).toTables
  · have hstatus := planFrom_status_balanced hfatal hbal
    have hbuilt := planFrom_dst hfatal
    rcases hlayout with ⟨hsums, hok⟩ | ⟨hover, hbad⟩
    · rw [if_pos hok] at hbuilt
      rw [hbuilt] at hstatus
      exact .inl ⟨hbal, hsums, hstatus.trans (hdst _ hbuilt)⟩
    · rw [if_neg (by rw [hbad]; decide)] at hbuilt
      rw [hbuilt] at hstatus
      exact .inr (.inl ⟨hbal, hover, hstatus.trans hbad⟩)
  · rw [planFrom_status_unbalanced hfatal hbal]
    exact .inr (.inr ⟨hbal, balanceStatus_of_supplied hsupply⟩)

theorem planFrom_status {c : Ctx} (hc : c.Valid) (haff : ∀ d, ∀ r ∈ c.affinityOrder d, r < c.rankSize)
    (hseg : c.cap ≤ c.tokenSegmentCapacity) : StatusExplained c (planFrom c) := by
  have hsim := (sim_of_valid hc haff).resolve_right fun hover => by have := hover.2; omega
  obtain ⟨t₀, hledger, hsettled⟩ := runMoves_settled hc.shared c.affinityOrder
  have hfit := foreignExperts_fit hledger hsettled
  rw [← hsim.tables] at hfit
  have hsupply : (runMoves c).supplyBlock = false := by
    rw [hsim.supplyBlock, hsettled.supply, hledger.supply]
  have hdst : ∀ d, (planFrom c).dst = some d → d.2 = .ok := by
    intro d hd
    obtain ⟨place, hb⟩ := planFrom_built hc haff (by rw [hd]; rfl)
    have := hb.dstOk
    rw [hd] at this
    exact Option.some.inj this
  have hlayout := buildLayouts_spec hc.shared.paddingPos hc.shared.nvS_le (c := c)
    (t := (runMoves c).toTables) fun d _ => hfit d
  have hslots : (buildLayouts c (runMoves c).toTables).2 ≠ .partialPrefetchSlotExhausted := by
    rcases hlayout with ⟨-, hok, -⟩ | ⟨-, hbad⟩
    · rw [hok]; decide
    · rw [hbad]; decide
  have hcases := planFrom_cases hsim.fatal hsupply hdst (hlayout.imp_left fun h => ⟨h.1, h.2.1⟩)
  have hmissing := planFrom_missing hsim.fatal
  rw [deficit_cast] at hmissing
  refine
    { state := planFrom_state hsim.fatal, ok := ?_, exceeds := ?_, unbalanced := fun hno => ?_
      supplied := ?_, recorded := ⟨hsim.fatal, ?_⟩, matched := ⟨hdst, ?_⟩, slots := hslots
      missing := hmissing }
  · rcases hcases with ⟨hbal, hsums, hst⟩ | ⟨-, ⟨d, hd, hover⟩, hst⟩ | ⟨hbal, hst⟩
    · exact ⟨fun _ => ⟨hbal, hsums⟩, fun _ => hst⟩
    · exact ⟨fun h => absurd (hst.symm.trans h) (by decide), fun h => by have := h.2 d hd; omega⟩
    · exact ⟨fun h => absurd h (by rcases hst with hst | hst <;> rw [hst] <;> decide),
        fun h => absurd h.1 hbal⟩
  · rcases hcases with ⟨-, hsums, hst⟩ | ⟨hbal, hover, hst⟩ | ⟨hbal, hst⟩
    · exact ⟨fun h => absurd (hst.symm.trans h) (by decide),
        fun ⟨_, d, hd, hlt⟩ => by have := hsums d hd; omega⟩
    · exact ⟨fun _ => ⟨hbal, hover⟩, fun _ => hst⟩
    · exact ⟨fun h => absurd h (by rcases hst with hst | hst <;> rw [hst] <;> decide),
        fun h => absurd h.1 hbal⟩
  · rcases hcases with ⟨hbal, -⟩ | ⟨hbal, -⟩ | ⟨-, hst⟩
    · exact absurd hbal hno
    · exact absurd hbal hno
    · exact hst
  -- the guards: the plan ends in one of four other statuses
  all_goals
    rcases hcases with ⟨-, -, hst⟩ | ⟨-, -, hst⟩ | ⟨-, hst | hst⟩ <;> rw [hst] <;> decide

/-- An accepted call with a segment record for every route. -/
theorem runPlanAlgorithm_status {x : PlanAlgorithmInput} {ptr : PlanPointers}
    {ws : PlanAlgorithmWorkspace} (hvalid : validate x ptr ws = .ok)
    (hseg : x.s * x.topK ≤ ws.tokenSegmentCapacity)
    (hcache : ws.affinityOrderValid = true → ∀ d, ∀ r ∈ ws.affinityOrder d, r < x.rankSize.toNat) :
    StatusExplained (ctxOf x ptr ws) (runPlanAlgorithm x ptr ws) := by
  have hc := validate_ok hvalid
  have hrun : runPlanAlgorithm x ptr ws = planFrom (ctxOf x ptr ws) := if_neg (not_not.2 hvalid)
  rw [hrun]
  refine planFrom_status hc (fun d r hr => ?_) ?_
  · have hr : r ∈ (if ws.affinityOrderValid then ws.affinityOrder
      else buildAffinity (ctxOf x ptr ws).toParams) d := hr
    split at hr
    · rename_i hv; exact hcache hv d r hr
    · exact mem_buildAffinity.1 hr
  · have hcap : x.config.rankTokenCapacity = x.s * x.topK := (validate_config hvalid).capacity
    show x.config.rankTokenCapacity.toNat ≤ ws.tokenSegmentCapacity.toNat
    omega

/-- Two ranks, two routes each, three of the four to expert 0: one route moves, and the plan is full. -/
theorem runPlanAlgorithm_status_twoRanks :
    StatusExplained (twoRanks.ctx 0) (twoRanks.run 0) ∧ (twoRanks.run 0).status = .ok :=
  ⟨runPlanAlgorithm_status (by decide) (by decide) nofun, by decide⟩

end TileXR.Plan
