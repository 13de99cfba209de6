import TileXR.Plan.DstSpec

/-!
# What `Validate` accepts

`Ctx.Valid`: the facts the planner may rely on once `Validate` has returned `PLAN_OK`, read off its
checks. They carry no assumption about the workspace: whether a cached affinity table is the one
`BuildAffinity` would build is the separate `CacheOk`.
-/

namespace TileXR.Plan
open Lib List
variable {own : Bool} {x y : PlanAlgorithmInput} {w ws : PlanAlgorithmWorkspace} {ptr : PlanPointers}
  {row : ℕ → ℤ} {hist : ℤ → ℕ} {expertNum n : ℕ} {cap : ℤ}

/-- The shared part of an accepted call. -/
structure Params.Valid (p : Params) : Prop where
  rankPos : 0 < p.rankSize
  rankLe : p.rankSize ≤ 128
  expertPos : 0 < p.expertNum
  dvd : p.rankSize ∣ p.expertNum
  topKPos : 0 < p.topK
  topKLe : p.topK ≤ 32
  sPos : 0 < p.s
  cap_eq : p.cap = p.s * p.topK
  slotsPos : 0 < p.prefetchSlots
  cap_le : p.cap ≤ p.nvS
  range : p.rankSize * p.nvS ≤ int32Max
  paddingPos : 0 < p.tokenPadding
  row : ∀ src < p.rankSize, ∑ e ∈ Finset.range p.expertNum, p.tokensPerExpert src e = p.cap

/-- An accepted call of one rank. -/
structure Ctx.Valid (c : Ctx) : Prop where
  shared : c.toParams.Valid
  rank_lt : c.rank < c.rankSize
  route_lt : ∀ i < c.cap, c.topkExperts i < c.expertNum
  own : ∀ e < c.expertNum, c.tokensPerExpert c.rank e = routeCount c.topkExperts c.cap e

namespace Params.Valid
variable {p : Params} (h : p.Valid)
include h

theorem capPos : 0 < p.cap := by rw [h.cap_eq]; exact Nat.mul_pos h.sPos h.topKPos

theorem nvS_le : p.nvS ≤ int32Max :=
  (Nat.le_mul_of_pos_left _ h.rankPos).trans h.range

theorem expertNum_eq : p.expertNum = p.rankSize * p.expertsPerRank :=
  (Nat.mul_div_cancel' h.dvd).symm

theorem expertsPerRank_pos : 0 < p.expertsPerRank :=
  Nat.div_pos (Nat.le_of_dvd h.expertPos h.dvd) h.rankPos

theorem homeRank_lt {e : ℕ} (he : e < p.expertNum) : p.homeRank e < p.rankSize := by
  rw [Params.homeRank, Nat.div_lt_iff_lt_mul h.expertsPerRank_pos, ← h.expertNum_eq]
  exact he

end Params.Valid

/-- A cached affinity table is the one `BuildAffinity` builds. -/
def CacheOk (p : Params) (ws : PlanAlgorithmWorkspace) : Prop :=
  ws.affinityOrderValid = true → ws.affinityOrder = buildAffinity p

theorem mem_buildAffinity {p : Params} {dst r : ℕ} : r ∈ buildAffinity p dst ↔ r < p.rankSize := by
  simp [buildAffinity]

theorem ctxOf_affinityOrder (h : CacheOk (ctxOf x ptr ws).toParams ws) :
    (ctxOf x ptr ws).affinityOrder = buildAffinity (ctxOf x ptr ws).toParams := by
  show (if ws.affinityOrderValid then ws.affinityOrder else _) = _
  split
  · rename_i hv; exact h hv
  · rfl

/-- What a row of the token matrix satisfies when `Validate` has no complaint about it. -/
theorem checkRow_none (h : checkRow expertNum cap row hist own = none) :
    (∀ e < expertNum, 0 ≤ row e ∧ (own = true → row e = hist e)) ∧ ∑ e ∈ Finset.range expertNum, row e = cap := by
  unfold checkRow at h
  generalize hf : (List.range expertNum).findSome? _ = first at h
  obtain rfl : first = none := by cases first with | none => rfl | some v => cases h
  have h1 := List.findSome?_eq_none_iff.1 hf
  have h2 : (if ∑ e ∈ Finset.range expertNum, row e ≠ cap then some PlanStatus.errorTpeMismatch
    else none) = none := h
  constructor
  · intro e he
    have := h1 e (mem_range.2 he)
    split at this
    · cases this
    · rename_i hneg
      split at this
      · cases this
      · rename_i hne
        refine ⟨by omega, fun ho => ?_⟩
        simpa [ho] using hne
  · split at h2
    · cases h2
    · rename_i hs; exact not_not.1 hs

theorem checkRow_eq_none (hrow : ∀ e < expertNum, 0 ≤ row e ∧ (own = true → row e = hist e))
    (hsum : ∑ e ∈ Finset.range expertNum, row e = cap) : checkRow expertNum cap row hist own = none := by
  unfold checkRow
  rw [if_neg (not_not.2 hsum)]
  have hfirst : ((List.range expertNum).findSome? fun e =>
      if row e < 0 then some PlanStatus.errorConfigMismatch
      else if own && row e ≠ hist e then some .errorTpeMismatch
      else none) = none := by
    refine List.findSome?_eq_none_iff.2 fun e he => ?_
    obtain ⟨hpos, hown⟩ := hrow e (mem_range.1 he)
    rw [if_neg (by omega), if_neg]
    rw [Bool.and_eq_true, decide_eq_true_eq]
    exact fun hc => hc.2 (hown hc.1)
  rw [hfirst]
  rfl

theorem histogram_eq {topk : ℕ → ℤ} (h : ∀ i < n, 0 ≤ topk i) (e : ℕ) :
    histogram topk n e = routeCount (fun i => (topk i).toNat) n e := by
  unfold histogram routeCount
  refine countP_congr fun i hi => ?_
  have := h i (mem_range.1 hi)
  simp only [decide_eq_true_eq]
  omega

theorem sum_toNat (hrow : ∀ e < n, 0 ≤ row e) :
    ((∑ e ∈ Finset.range n, (row e).toNat : ℕ) : ℤ) = ∑ e ∈ Finset.range n, row e := by
  induction n with
  | zero => rfl
  | succ n ih =>
    have h0 := hrow n (by omega)
    have ih := ih fun e he => hrow e (by omega)
    rw [Finset.sum_range_succ, Finset.sum_range_succ]
    omega

theorem checkRow_ne_ok : checkRow expertNum cap row hist own ≠ some .ok := by
  intro h
  unfold checkRow at h
  generalize hg : (List.range expertNum).findSome? _ = first at h
  cases first with
  | none =>
    have h : (if ∑ e ∈ Finset.range expertNum, row e ≠ cap then
      some PlanStatus.errorTpeMismatch else none) = some .ok := h
    split at h <;> cases h
  | some w =>
    obtain ⟨e, -, he⟩ := exists_of_findSome?_eq_some hg
    obtain rfl : w = .ok := Option.some.inj h
    split at he
    · cases he
    · split at he <;> cases he

theorem findSome_none {f : ℕ → Option PlanStatus} (hf : ∀ i, f i ≠ some .ok)
    (h : ((List.range n).findSome? f).getD .ok = .ok) : ∀ i < n, f i = none := by
  intro i hi
  generalize hg : (List.range n).findSome? f = first at h
  cases first with
  | none => exact List.findSome?_eq_none_iff.1 hg i (mem_range.2 hi)
  | some v =>
    obtain ⟨r, -, hr⟩ := exists_of_findSome?_eq_some hg
    exact absurd (hr.trans (congrArg some h)) (hf r)

theorem badShape_false (h : ¬ badShape x ptr ws = true) :
    (0 < x.rankSize ∧ x.rankSize ≤ 128) ∧ (0 ≤ x.rank ∧ x.rank < x.rankSize) ∧ 0 < x.s ∧
      (0 < x.topK ∧ x.topK ≤ 32) ∧ 0 < x.expertNum ∧ x.expertNum % x.rankSize = 0 := by
  simp only [badShape, Bool.or_eq_true, decide_eq_true_eq, not_or, not_lt, not_le, ne_eq, not_not] at h
  refine ⟨⟨?_, ?_⟩, ⟨?_, ?_⟩, ?_, ⟨?_, ?_⟩, ?_, ?_⟩ <;> omega

structure PlanConfig.Good (c : PlanConfig) (cap rankSize : ℤ) : Prop where
  capacity : c.rankTokenCapacity = cap
  slots : 0 < c.prefetchSlots ∧ c.prefetchSlots ≤ int32Max
  nvS : cap ≤ c.nvS ∧ c.nvS ≤ int32Max
  padding : 0 < c.tokenPadding
  limit : 0 ≤ c.tokenRouteLimitPerPair ∧ c.tokenRouteLimitPerPair ≤ cap
  cards : c.cardsPerServer = kPlanCardsPerServer ∧ c.cardsPerCabinet = kPlanCardsPerCabinet ∧
    c.crossCandidateCount = kPlanCrossCandidateCount
  range : rankSize * c.nvS ≤ int32Max

theorem PlanConfig.bad_iff {c : PlanConfig} {cap rankSize : ℤ} :
    ¬ c.bad cap rankSize = true ↔ c.Good cap rankSize := by
  simp only [bad, Bool.or_eq_true, decide_eq_true_eq, not_or, not_lt, not_le, ne_eq, not_not]
  constructor
  · intro h
    constructor <;> omega
  · rintro ⟨hcap, hslots, hnvS, hpad, hlimit, hcards, hrange⟩
    omega

theorem not_badShape (hR : 0 < y.rankSize ∧ y.rankSize ≤ 128) (hrank : 0 ≤ y.rank ∧ y.rank < y.rankSize)
    (hs : 0 < y.s) (hk : 0 < y.topK ∧ y.topK ≤ 32) (hE : 0 < y.expertNum ∧ y.expertNum ≤ int32Max)
    (hdvd : y.expertNum % y.rankSize = 0) (hscratch : y.rankSize * 16 ≤ w.scratchCount)
    (hcap : y.s * y.topK ≤ int32Max) : ¬ badShape y {} w = true := by
  have hrows : y.s ≤ int32Max / y.topK := (Int.le_ediv_iff_mul_le hk.1).2 hcap
  simp only [badShape, Bool.or_eq_true, decide_eq_true_eq, Bool.not_true, bne_self_eq_false,
    Bool.false_eq_true, or_false, not_or, not_lt, not_le, ne_eq, not_not]
  omega

theorem not_badConfig (h : y.config.Good (y.s * y.topK) y.rankSize) (hseg : 0 ≤ w.tokenSegmentCapacity) :
    ¬ badConfig y {} w = true := by
  simp only [badConfig, Bool.or_eq_true, decide_eq_true_eq, Bool.not_true, Bool.and_false, Bool.false_eq_true,
    or_false, not_or, not_lt]
  exact ⟨PlanConfig.bad_iff.2 h, hseg⟩

section
variable (h : validate x ptr ws = .ok)
include h

theorem validate_shape : ¬ badShape x ptr ws = true := fun hbad => by
  rw [validate, if_pos hbad] at h
  cases h

theorem validate_config : x.config.Good (x.s * x.topK) x.rankSize := by
  rw [validate, if_neg (validate_shape h)] at h
  refine PlanConfig.bad_iff.1 fun hbad => ?_
  rw [if_pos (by simp [badConfig, hbad])] at h
  cases h

/-- The sizes of an accepted call that `Validate` compares with `INT32_MAX` one by one. -/
theorem validate_sizes : (ctxOf x ptr ws).expertNum ≤ int32Max ∧
      (ctxOf x ptr ws).prefetchSlots ≤ int32Max ∧ (ctxOf x ptr ws).routeLimit ≤ (ctxOf x ptr ws).cap := by
  have hshape := validate_shape h
  have hconfig := validate_config h
  simp only [badShape, Bool.or_eq_true, decide_eq_true_eq, not_or, not_lt] at hshape
  refine ⟨?_, Int.toNat_le.2 hconfig.slots.2, Int.toNat_le_toNat (hconfig.limit.2.trans_eq hconfig.capacity.symm)⟩
  show x.expertNum.toNat ≤ int32Max
  omega

/-- `Validate` returning `PLAN_OK`, as facts about the call. -/
theorem validate_ok : (ctxOf x ptr ws).Valid := by
  obtain ⟨⟨hR, hR'⟩, ⟨hr0, hr⟩, hs, ⟨hk, hk'⟩, hE, hmod⟩ := badShape_false (validate_shape h)
  obtain ⟨hcap, hb, hnvS, hpad, -, -, hrange⟩ := validate_config h
  unfold validate at h
  split at h
  · cases h
  split at h
  · cases h
  dsimp only at h
  split at h
  · cases h
  split at h
  · cases h
  rename_i _ hroutes
  have hrows := findSome_none (fun _ => checkRow_ne_ok) h
  have hroute : ∀ i < (x.s * x.topK).toNat, 0 ≤ x.topkExperts i ∧ x.topkExperts i < x.expertNum := by
    intro i hi
    simp only [any_eq_true, mem_range, Bool.or_eq_true, decide_eq_true_eq, not_exists,
      not_and, not_or, not_lt, not_le, ge_iff_le] at hroutes
    have := hroutes i hi
    omega
  have hcapNat : x.config.rankTokenCapacity.toNat = x.s.toNat * x.topK.toNat := by
    rw [hcap, Int.toNat_mul hs.le hk.le]
  have hcap0 : 0 ≤ x.s * x.topK := Int.mul_nonneg hs.le hk.le
  refine
    { shared :=
        { rankPos := by show 0 < x.rankSize.toNat; omega
          rankLe := by show x.rankSize.toNat ≤ 128; omega
          expertPos := by show 0 < x.expertNum.toNat; omega
          dvd := ?_
          topKPos := by show 0 < x.topK.toNat; omega
          topKLe := by show x.topK.toNat ≤ 32; omega
          sPos := by show 0 < x.s.toNat; omega
          cap_eq := hcapNat
          slotsPos := by show 0 < x.config.prefetchSlots.toNat; omega
          cap_le := by show x.config.rankTokenCapacity.toNat ≤ x.config.nvS.toNat; omega
          range := ?_
          paddingPos := by show 0 < x.config.tokenPadding.toNat; omega
          row := fun src hsrc => ?_ }
      rank_lt := by show x.rank.toNat < x.rankSize.toNat; omega
      route_lt := fun i hi => ?_
      own := fun e he => ?_ }
  · show x.rankSize.toNat ∣ x.expertNum.toNat
    rw [← Int.natCast_dvd_natCast, Int.toNat_of_nonneg hR.le, Int.toNat_of_nonneg hE.le]
    exact Int.dvd_of_emod_eq_zero hmod
  · show x.rankSize.toNat * x.config.nvS.toNat ≤ int32Max
    rw [← Int.toNat_mul hR.le (hcap0.trans hnvS.1)]
    omega
  · obtain ⟨h1, h2⟩ := checkRow_none (hrows src hsrc)
    have hsum := sum_toNat fun e he => (h1 e he).1
    rw [h2] at hsum
    show (∑ e ∈ Finset.range x.expertNum.toNat,
      (x.tokensPerExpert (src * x.expertNum.toNat + e)).toNat) = x.config.rankTokenCapacity.toNat
    omega
  · have hi : i < (x.s * x.topK).toNat := by rw [← hcap]; exact hi
    have := hroute i hi
    show (x.topkExperts i).toNat < x.expertNum.toNat
    omega
  · have hrank : x.rank.toNat < x.rankSize.toNat := by omega
    obtain ⟨h1, -⟩ := checkRow_none (hrows x.rank.toNat hrank)
    have hown := (h1 e he).2 (by simp; omega)
    rw [histogram_eq fun i hi => (hroute i hi).1, ← hcap] at hown
    show (x.tokensPerExpert (x.rank.toNat * x.expertNum.toNat + e)).toNat =
      routeCount (fun route => (x.topkExperts route).toNat) x.config.rankTokenCapacity.toNat e
    omega

end

end TileXR.Plan
