import TileXR.Plan.Placement
import TileXR.Plan.SimRounds

/-!
# The plan of all ranks together

Every rank runs `RunPlanAlgorithm` alone. `Collective` is one such round: the shared inputs with each
rank's own routes, pointers and workspace. Through the simulation every rank that gets as far as
`BuildDst` has computed its slice of the one plan of the reference planner (`planFrom_built`), so
what holds of that plan holds across the ranks: `OnePlan`.
-/

namespace TileXR.Plan
open Lib
open Reference (Ledger RefState Settled)
variable {d group i : ℕ}

namespace PlanResult

/-- The arrays of `BuildLayouts`, as far as they were written. -/
def written (r : PlanResult) : Layout := r.layout.getD Layout.initial

def dstWritten (r : PlanResult) : ℕ → ℤ := (r.dst.map Prod.fst).getD fun _ => 0

/-- The workspace's `alloc`: tokens of an expert on a destination. -/
def allocation (r : PlanResult) : ℕ → ℕ → ℕ := match r.state with
  | some s => s.alloc
  | none => fun _ _ => 0

end PlanResult

/-! ## One rank -/

/-- A call that got to `BuildDst` holds its slice of the plan `t`; `place` is where its routes go. -/
structure Built (c : Ctx) (t : RefState) (place : ℕ → ℕ × ℕ) (r : PlanResult) : Prop where
  alloc : r.allocation = t.alloc
  sums : ∀ d < c.rankSize, paddedSum c.toParams t.toTables d ≤ c.nvS
  layout : LayoutOk c t.toTables c.rankSize r.written
  dstOk : r.dst.map Prod.snd = some .ok
  dst : ∀ token < c.s, ∀ k < c.topK,
    r.dstWritten (token * c.topK + k) = encodedPlace c place token k
  lands : ∀ i < c.cap, Lands c.toParams t c.rank (c.topkExperts i)
    (routeCount c.topkExperts i (c.topkExperts i)) (place i) ∧ (place i).1 < c.rankSize
  slot : ∀ i < c.cap, (place i).2 < c.nvS

/-- The moves of a rank that did not run out of segment records are its view of the reference moves. -/
theorem sim_of_valid {c : Ctx} (hc : c.Valid) (haff : ∀ d, ∀ r ∈ c.affinityOrder d, r < c.rankSize) :
    Sim c (runMoves c) (Reference.runMoves c.toParams c.affinityOrder) ∨ Overflown c (runMoves c) :=
  runMoves_sim haff hc.shared.capPos.ne' (hc.shared.row _ hc.rank_lt)

theorem planFrom_built {c : Ctx} (hc : c.Valid)
    (haff : ∀ d, ∀ r ∈ c.affinityOrder d, r < c.rankSize) (hdst : (planFrom c).dst.isSome) :
    ∃ place, Built c (Reference.runMoves c.toParams c.affinityOrder) place (planFrom c) := by
  rcases sim_of_valid hc haff with hsim | hover
  swap
  · -- a rank without room for its segments never gets to `BuildDst`
    unfold planFrom at hdst
    dsimp only at hdst
    rw [if_pos hover.1] at hdst
    cases hdst
  obtain ⟨t₀, hledger, hsettled⟩ := runMoves_settled hc.shared c.affinityOrder
  set t := Reference.runMoves c.toParams c.affinityOrder with ht
  have hfit := foreignExperts_fit hledger hsettled
  unfold planFrom at hdst ⊢
  dsimp only at hdst ⊢
  rw [if_neg (not_not.2 hsim.fatal)] at hdst ⊢
  dsimp only at hdst ⊢
  rw [hsim.tables] at hdst ⊢
  rcases buildLayouts_spec hc.shared.paddingPos hc.shared.nvS_le (c := c) (t := t.toTables)
    (fun d _ => hfit d) with ⟨hsums, hok, hlayout⟩ | ⟨-, hbad⟩
  · obtain ⟨place, hplaces, hlands⟩ := exists_places hc hsettled hfit hsums hlayout
    obtain ⟨hdok, hd⟩ := buildDst_spec hc.shared.cap_eq hplaces
    rw [if_pos hok, hsim.segments]
    refine ⟨place, ?_, hsums, hlayout, ?_, hd, hlands, hplaces.slot⟩
    · show (runMoves c).toTables.alloc = _
      rw [hsim.tables]
    · show some (buildDst _ _ _).2 = _
      rw [hdok]
  · rw [if_neg (by rw [hbad]; decide)] at hdst
    cases hdst

namespace Built
variable {c : Ctx} {t : RefState} {place : ℕ → ℕ × ℕ} {r : PlanResult}

theorem decode (h : Built c t place r) (hcap : c.cap = c.s * c.topK) (hi : i < c.cap) :
    decodeDst (r.dstWritten i) = (place i).1 * c.nvS + (place i).2 := by
  have htopK : 0 < c.topK := by
    rcases Nat.eq_zero_or_pos c.topK with h0 | h0
    · rw [hcap, h0] at hi; omega
    · exact h0
  have htoken : i / c.topK < c.s := Nat.div_lt_of_lt_mul (by rw [Nat.mul_comm, ← hcap]; exact hi)
  have hroute := h.dst _ htoken _ (Nat.mod_lt i htopK)
  rw [Nat.div_add_mod'] at hroute
  rw [hroute, encodedPlace, decodeDst_encodeDst, Nat.div_add_mod']

end Built

/-! ## All ranks -/

/-- One planning round: what the ranks share, and each rank's routes, pointers and workspace. -/
structure Collective where
  shared : PlanAlgorithmInput
  topkExperts : ℕ → ℕ → ℤ
  ptr : ℕ → PlanPointers
  ws : ℕ → PlanAlgorithmWorkspace

namespace Collective

def input (g : Collective) (rank : ℕ) : PlanAlgorithmInput :=
  { g.shared with rank := rank, topkExperts := g.topkExperts rank }

def ctx (g : Collective) (rank : ℕ) : Ctx := ctxOf (g.input rank) (g.ptr rank) (g.ws rank)

def params (g : Collective) : Params := (g.ctx 0).toParams

def run (g : Collective) (rank : ℕ) : PlanResult :=
  runPlanAlgorithm (g.input rank) (g.ptr rank) (g.ws rank)

/-- Every rank accepts its call, and a cached affinity table is the right one. -/
structure Accepted (g : Collective) : Prop where
  valid : ∀ rank < g.params.rankSize, validate (g.input rank) (g.ptr rank) (g.ws rank) = .ok
  cache : ∀ rank < g.params.rankSize, CacheOk g.params (g.ws rank)

def plan (g : Collective) : RefState := Reference.runMoves g.params (buildAffinity g.params)

/-- Where group `group` of a rank begins: at the end of the group before it. -/
def groupBegin (g : Collective) (d group : ℕ) : ℕ :=
  if group = 0 then 0 else (g.run d).written.cuSeqlens (group - 1)

/-- Group `group` of rank `d` is the one of expert `e`: the expert's own number if `d` is its home,
otherwise the group of a remote slot that `d` lists, and every rank that lists remote slots. -/
def HoldsExpert (g : Collective) (d group e : ℕ) : Prop :=
  (g.params.homeRank e = d ∧ group = e) ∨
  (g.params.homeRank e ≠ d ∧ ∃ slot < g.params.prefetchSlots, group = g.params.expertNum + slot ∧
    (g.run d).written.expertsToCopy slot = e ∧
    ∀ rank < g.params.rankSize, (g.ptr rank).remoteExperts = true →
      (g.run rank).written.remoteExperts d slot = e)

def expert (g : Collective) (rank i : ℕ) : ℕ := (g.ctx rank).topkExperts i

def raw (g : Collective) (rank i : ℕ) : ℕ := decodeDst ((g.run rank).dstWritten i)

/-- The ranks' outputs are one plan: the routes of all ranks fill exactly the slots that hold tokens,
each once and each in the group of its expert. -/
structure OnePlan (g : Collective) : Prop where
  dstOk : ∀ rank < g.params.rankSize, (g.run rank).dst.map Prod.snd = some .ok
  agree : ∀ rank < g.params.rankSize, ∀ rank' < g.params.rankSize,
    (g.run rank).allocation = (g.run rank').allocation
  lt : ∀ rank < g.params.rankSize, ∀ i < g.params.cap,
    g.raw rank i < g.params.rankSize * g.params.nvS
  injective : ∀ rank < g.params.rankSize, ∀ rank' < g.params.rankSize, ∀ i < g.params.cap,
    ∀ i' < g.params.cap, g.raw rank i = g.raw rank' i' → rank = rank' ∧ i = i'
  /-- A route is among the first `alloc` slots of its own expert's group on its destination. -/
  group : ∀ rank < g.params.rankSize, ∀ i < g.params.cap, ∃ d < g.params.rankSize,
    ∃ group < g.params.expertNum + g.params.prefetchSlots,
      g.HoldsExpert d group (g.expert rank i) ∧
      (∃ j < (g.run d).allocation d (g.expert rank i),
        g.raw rank i = d * g.params.nvS + (g.groupBegin d group + j)) ∧
      g.groupBegin d group + (g.run d).allocation d (g.expert rank i) ≤
        (g.run d).written.cuSeqlens group ∧
      (g.run d).written.cuSeqlens group ≤ g.params.nvS
  /-- All of these slots are hit. -/
  onto : ∀ d < g.params.rankSize, ∀ e < g.params.expertNum, ∀ j < (g.run d).allocation d e,
    ∃ group < g.params.expertNum + g.params.prefetchSlots, g.HoldsExpert d group e ∧
      ∃ rank < g.params.rankSize, ∃ i < g.params.cap, g.expert rank i = e ∧
        g.raw rank i = d * g.params.nvS + (g.groupBegin d group + j)
  /-- A slot of a group that is hit is one of them, so none in the padding is. -/
  padding : ∀ d < g.params.rankSize, ∀ group < g.params.expertNum + g.params.prefetchSlots, ∀ slot,
    g.groupBegin d group ≤ slot → slot < (g.run d).written.cuSeqlens group →
    ∀ rank < g.params.rankSize, ∀ i < g.params.cap, g.raw rank i = d * g.params.nvS + slot →
      g.HoldsExpert d group (g.expert rank i) ∧
      slot < g.groupBegin d group + (g.run d).allocation d (g.expert rank i)

section OnePlan
variable {g : Collective}

section
variable {rank : ℕ} (h : g.Accepted) (hr : rank < g.params.rankSize)
include h hr

theorem Accepted.ctxValid : (g.ctx rank).Valid := validate_ok (h.valid rank hr)

theorem Accepted.paramsValid : g.params.Valid := (h.ctxValid hr).shared

theorem Accepted.affinity :
    (g.ctx rank).affinityOrder = buildAffinity g.params := ctxOf_affinityOrder (h.cache rank hr)

theorem Accepted.run_eq : g.run rank = planFrom (g.ctx rank) := if_neg (not_not.2 (h.valid rank hr))

theorem Accepted.affinity_lt : ∀ d, ∀ r ∈ (g.ctx rank).affinityOrder d, r < (g.ctx rank).rankSize := by
  intro d r hmem
  rw [h.affinity hr] at hmem
  exact mem_buildAffinity.1 hmem

/-- Every rank that builds `dst` holds its slice of the plan. -/
theorem Accepted.built (hdst : (g.run rank).dst.isSome) : ∃ place, Built (g.ctx rank) g.plan place (g.run rank) := by
  rw [h.run_eq hr] at hdst ⊢
  have hb := planFrom_built (h.ctxValid hr) (h.affinity_lt hr) hdst
  rw [h.affinity hr] at hb
  exact hb

end

/-- What the ranks have computed, once they all hold their slice. -/
structure Sliced (g : Collective) (place : ℕ → ℕ → ℕ × ℕ) (t₀ : RefState) : Prop where
  valid : g.params.Valid
  settled : Settled g.params t₀ g.plan
  fit : ∀ d, (foreignExperts g.params g.plan.toTables d).length ≤ g.params.prefetchSlots
  ctx : ∀ rank < g.params.rankSize, (g.ctx rank).Valid
  slice : ∀ rank < g.params.rankSize, Built (g.ctx rank) g.plan (place rank) (g.run rank)

theorem Accepted.sliced (h : g.Accepted) (hR : 0 < g.params.rankSize)
    (hdst : ∀ rank < g.params.rankSize, (g.run rank).dst.isSome) : ∃ place t₀, Sliced g place t₀ := by
  have hex : ∀ rank, ∃ place, rank < g.params.rankSize →
      Built (g.ctx rank) g.plan place (g.run rank) := by
    intro rank
    by_cases hr : rank < g.params.rankSize
    · obtain ⟨place, hb⟩ := h.built hr (hdst rank hr)
      exact ⟨place, fun _ => hb⟩
    · exact ⟨fun _ => (0, 0), fun hlt => absurd hlt hr⟩
  choose place hplace using hex
  obtain ⟨t₀, hledger, hsettled⟩ := runMoves_settled (h.paramsValid hR) (buildAffinity g.params)
  exact ⟨place, t₀, h.paramsValid hR, hsettled, foreignExperts_fit hledger hsettled,
    fun rank hr => h.ctxValid hr, hplace⟩

namespace Sliced
variable {place : ℕ → ℕ → ℕ × ℕ} {t₀ : RefState} (h : Sliced g place t₀)
include h

section
variable (hd : d < g.params.rankSize)
include hd

theorem groupBegin_eq (hg : group < g.params.expertNum + g.params.prefetchSlots) :
    g.groupBegin d group = blockStart (groupSize g.params g.plan.toTables d) group := by
  have hrank : (g.ctx d).rank = d := Int.toNat_natCast d
  have hends := (h.slice d hd).layout.ends (by rw [hrank]; exact hd)
  unfold groupBegin
  cases group with
  | zero => rfl
  | succ group =>
    rw [if_neg (Nat.succ_ne_zero _), Nat.add_sub_cancel]
    have := hends group (Nat.lt_of_succ_lt hg)
    rwa [hrank] at this

theorem cuSeqlens_eq (hg : group < g.params.expertNum + g.params.prefetchSlots) : (g.run d).written.cuSeqlens group =
      blockStart (groupSize g.params g.plan.toTables d) (group + 1) := by
  have hrank : (g.ctx d).rank = d := Int.toNat_natCast d
  have := (h.slice d hd).layout.ends (by rw [hrank]; exact hd) group hg
  rwa [hrank] at this

theorem alloc_eq : (g.run d).allocation = g.plan.alloc :=
  (h.slice d hd).alloc

/-- The group an expert's tokens are laid out in holds the expert. -/
theorem holdsExpert {e : ℕ} (he : e < g.params.expertNum)
    (hpos : 0 < g.plan.alloc d e) : g.HoldsExpert d (groupOf g.params g.plan.toTables d e) e := by
  by_cases hhome : g.params.homeRank e = d
  · have hnot : e ∉ remoteRowOf g.params g.plan.toTables d := fun hmem =>
      (mem_remoteRowOf.1 hmem).2.1 hhome
    exact .inl ⟨hhome, if_neg hnot⟩
  · have hmem : e ∈ remoteRowOf g.params g.plan.toTables d := mem_remoteRowOf.2 ⟨he, hhome, hpos⟩
    have hgroup : groupOf g.params g.plan.toTables d e = g.params.expertNum +
        (remoteRowOf g.params g.plan.toTables d).idxOf e := if_pos hmem
    have hslot := groupOf_lt he (h.fit d)
    have hentry : slotEntry (remoteRowOf g.params g.plan.toTables d)
        ((remoteRowOf g.params g.plan.toTables d).idxOf e) = e := by
      rw [slotEntry, List.getElem?_idxOf hmem]
    refine .inr ⟨hhome, _, by omega, hgroup, ?_, fun rank hr hm => ?_⟩
    · have hrank : (g.ctx d).rank = d := Int.toNat_natCast d
      have hcopy := (h.slice d hd).layout.expertsToCopy (by rw [hrank]; exact hd)
      rw [hcopy, hrank]
      exact hentry
    · have hrow := (h.slice rank hr).layout.remoteExperts hm d hd
      rw [hrow]
      exact hentry

end

section
variable {rank : ℕ} (hr : rank < g.params.rankSize) (hi : i < g.params.cap)
include hr hi

theorem raw_eq : g.raw rank i = (place rank i).1 * g.params.nvS + (place rank i).2 :=
  (h.slice rank hr).decode h.valid.cap_eq hi

theorem expert_lt : g.expert rank i < g.params.expertNum := (h.ctx rank hr).route_lt i hi

theorem place_eq {slot : ℕ} (hslot : slot < g.params.nvS)
    (hraw : g.raw rank i = d * g.params.nvS + slot) : place rank i = (d, slot) := by
  rw [h.raw_eq hr hi] at hraw
  obtain ⟨h1, h2⟩ := route_injective ((h.slice rank hr).slot i hi) hslot hraw
  exact Prod.ext h1 h2

theorem lands : Lands g.params g.plan rank (g.expert rank i)
      (routeCount (g.ctx rank).topkExperts i (g.expert rank i)) (place rank i) := by
  have hl := ((h.slice rank hr).lands i hi).1
  have hrank : (g.ctx rank).rank = rank := Int.toNat_natCast rank
  rw [hrank] at hl
  exact hl

theorem route_group : ∃ d < g.params.rankSize, ∃ j < g.plan.alloc d (g.expert rank i), place rank i = (d,
      blockStart (groupSize g.params g.plan.toTables d)
        (groupOf g.params g.plan.toTables d (g.expert rank i)) + j) := by
  obtain ⟨j, hsend, hj⟩ := h.lands hr hi
  exact ⟨_, (sends_inRange h.settled hsend).2, j, sends_lt_alloc h.settled (h.expert_lt hr hi) hsend, Prod.ext rfl hj⟩

end

theorem onePlan : g.OnePlan where
  dstOk rank hr := (h.slice rank hr).dstOk
  agree rank hr rank' hr' := (h.alloc_eq hr).trans (h.alloc_eq hr').symm
  lt rank hr i hi := by
    have hd := ((h.slice rank hr).lands i hi).2
    have hslot := (h.slice rank hr).slot i hi
    have hrow : ((place rank i).1 + 1) * g.params.nvS ≤ g.params.rankSize * g.params.nvS :=
      Nat.mul_le_mul_right _ hd
    rw [h.raw_eq hr hi]
    rw [Nat.add_mul, Nat.one_mul] at hrow
    exact (Nat.add_lt_add_left hslot _).trans_le hrow
  injective rank hr rank' hr' i hi i' hi' hraw := by
    rw [h.raw_eq hr' hi'] at hraw
    have hplace := h.place_eq hr hi ((h.slice rank' hr').slot i' hi') hraw
    have hl := h.lands hr hi
    rw [hplace] at hl
    obtain ⟨rfl, hexp, hord⟩ := hl.injective h.valid h.settled (h.expert_lt hr hi)
      (h.expert_lt hr' hi') (h.lands hr' hi')
    exact ⟨rfl, ordinal_injective hexp hord⟩
  group rank hr i hi := by
    obtain ⟨d, hd, j, hj, hplace⟩ := h.route_group hr hi
    have he := h.expert_lt hr hi
    have hg := groupOf_lt he (h.fit d)
    have hend := blockStart_add_le (groupSize g.params g.plan.toTables d) hg
    have halloc := alloc_le_groupSize h.valid g.plan.toTables he d
    refine ⟨d, hd, _, hg, h.holdsExpert hd he (by omega), ⟨j, by rw [h.alloc_eq hd]; exact hj, ?_⟩,
      ?_, ?_⟩
    · rw [h.raw_eq hr hi, hplace, h.groupBegin_eq hd hg]
    · rw [h.groupBegin_eq hd hg, h.cuSeqlens_eq hd hg, h.alloc_eq hd, blockStart_succ]
      omega
    · rw [h.cuSeqlens_eq hd hg]
      exact (blockStart_mono hg).trans ((h.slice d hd).sums d hd)
  onto d hd e he j hj := by
    rw [h.alloc_eq hd] at hj
    have hg := groupOf_lt he (h.fit d)
    obtain ⟨rank, hr, o, ho, hl⟩ := lands_onto h.settled he hj
    have hrank : (g.ctx rank).rank = rank := Int.toNat_natCast rank
    have hown : g.params.tokensPerExpert rank e = routeCount (g.ctx rank).topkExperts g.params.cap e := by
      have := (h.ctx rank hr).own e he
      rwa [hrank] at this
    rw [hown] at ho
    obtain ⟨i, hi, rfl, rfl⟩ := ordinal_surjective ho
    refine ⟨_, hg, h.holdsExpert hd he (by omega), rank, hr, i, hi, rfl, ?_⟩
    obtain ⟨j', hsend', hj'⟩ := h.lands hr hi
    obtain ⟨j'', hsend'', hj''⟩ := hl
    obtain ⟨hdst, rfl⟩ := h.settled.log.chained.sends_functional hsend' hsend''
    rw [h.raw_eq hr hi, hj', h.groupBegin_eq hd hg, (Prod.mk.inj hdst).1]
    dsimp only at hj''
    rw [hj'']
    rfl
  padding d hd group hg slot hle hlt rank hr i hi hraw := by
    rw [h.groupBegin_eq hd hg] at hle ⊢
    rw [h.cuSeqlens_eq hd hg] at hlt
    have hslot : slot < g.params.nvS :=
      hlt.trans_le ((blockStart_mono hg).trans ((h.slice d hd).sums d hd))
    have he := h.expert_lt hr hi
    obtain ⟨d', -, j, hj, hplace⟩ := h.route_group hr hi
    rw [h.place_eq hr hi hslot hraw] at hplace
    obtain ⟨rfl, hpos⟩ := Prod.mk.inj hplace
    have hjsize := hj.trans_le (alloc_le_groupSize h.valid g.plan.toTables he d)
    -- the slot lies in this block and in the block of the route's group
    obtain ⟨hgroup, hoff⟩ := block_unique (i := slot - blockStart (groupSize g.params
      g.plan.toTables d) group) (g := group) (by rw [blockStart_succ] at hlt; omega) hjsize (by omega)
    rw [hgroup, h.alloc_eq hd]
    exact ⟨h.holdsExpert hd he (by omega), by omega⟩

end Sliced

/-- The plan of all ranks that build `dst` is one plan. -/
theorem onePlan_of_accepted (h : g.Accepted)
    (hdst : ∀ rank < g.params.rankSize, (g.run rank).dst.isSome) : g.OnePlan := by
  rcases Nat.eq_zero_or_pos g.params.rankSize with h0 | hR
  · have hno : ∀ {n : ℕ}, ¬ n < g.params.rankSize := fun hn => by omega
    exact ⟨fun _ hr => absurd hr hno, fun _ hr => absurd hr hno, fun _ hr => absurd hr hno,
      fun _ hr => absurd hr hno, fun _ hr => absurd hr hno, fun _ hr => absurd hr hno,
      fun _ hr => absurd hr hno⟩
  · obtain ⟨place, t₀, hs⟩ := h.sliced hR hdst
    exact hs.onePlan

end OnePlan

end Collective

/-- Two ranks with one expert each; three of the four routes go to expert 0, so one of them moves. -/
def twoRanks : Collective where
  shared :=
    { rank := 0, rankSize := 2, s := 2, topK := 1, expertNum := 2
      config := { rankTokenCapacity := 2, prefetchSlots := 1, nvS := 4, tokenPadding := 2 }
      topkExperts := fun _ => 0
      tokensPerExpert := fun i => if i = 0 then 2 else if i = 1 then 0 else 1
      globalRankIds := fun r => r }
  topkExperts rank i := if rank = 1 ∧ i = 1 then 1 else 0
  ptr _ := {}
  ws _ :=
    { tokenSegmentCapacity := 2, scratchCount := 32, affinityOrder := fun _ => []
      affinityOrderValid := false }

theorem twoRanks_onePlan : twoRanks.OnePlan :=
  Collective.onePlan_of_accepted ⟨by decide, fun _ _ => nofun⟩ (by decide)

end TileXR.Plan
