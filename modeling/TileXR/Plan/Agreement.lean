import TileXR.Plan.LayoutSim
import TileXR.Plan.Status

/-!
# Every rank computes its slice of the reference plan

`RunPlanAlgorithm` of each rank against `BuildReferencePlan` on the same inputs: the moves agree by the
simulation, the layouts by `buildLayouts_sim`, and `dst` because both planners write the place the
ledger and the layout give a route (`refBuildDst_spec`). The reference planner is undefined where its
`int32` index of a remote row overflows; otherwise the two agree in every array and status word.
-/

namespace TileXR.Plan
open Lib List
open Reference (RefDstAcc RefState Settled)
variable {a : RefDstAcc} {l : Reference.RefLayout} {cap expertNum src : ℕ}

/-! ## `dst` of the reference planner -/

theorem TokenSegmentMove.toTransfer_injective {m m' : TokenSegmentMove}
    (h : m.toTransfer = m'.toTransfer) : m = m' := by
  obtain ⟨e, s, d, sb, db, n⟩ := m
  obtain ⟨e', s', d', sb', db', n'⟩ := m'
  simp only [TokenSegmentMove.toTransfer, Transfer.mk.injEq, Prod.mk.injEq] at h
  obtain ⟨⟨rfl, rfl⟩, ⟨rfl, -⟩, rfl, rfl, rfl⟩ := h
  rfl

/-- The sorted segments of a source and expert give the same match as the rank's own list. -/
theorem find_segmentsBySourceExpert {p : Params} {t : Tables} {segments : List TokenSegmentMove}
    (h : LogOk p t segments) {e ordinal : ℕ} {m : TokenSegmentMove}
    (hm : matchSegment (segments.filter (·.srcRank = src)) e ordinal = some m) :
    (Reference.segmentsBySourceExpert segments src e).find? (fun m =>
      m.srcExpertBegin ≤ ordinal && ordinal < m.srcExpertBegin + m.tokenCount) = some m := by
  have hmem := mem_of_find?_eq_some hm
  have hprop := List.find?_some hm
  simp only [mem_filter, decide_eq_true_eq] at hmem
  simp only [Bool.and_eq_true, decide_eq_true_eq] at hprop
  have hlisted : m ∈ Reference.segmentsBySourceExpert segments src e := by
    rw [Reference.segmentsBySourceExpert, mem_stdSort]
    simp [hmem.1, hmem.2, hprop.1.1]
  have hsome : ((Reference.segmentsBySourceExpert segments src e).find? (fun m =>
      m.srcExpertBegin ≤ ordinal && ordinal < m.srcExpertBegin + m.tokenCount)).isSome := by
    rw [List.find?_isSome]
    exact ⟨m, hlisted, by simpa using ⟨hprop.1.2, hprop.2⟩⟩
  obtain ⟨m', hm'⟩ := Option.isSome_iff_exists.1 hsome
  have hmem' := mem_of_find?_eq_some hm'
  have hprop' := List.find?_some hm'
  rw [Reference.segmentsBySourceExpert, mem_stdSort] at hmem'
  simp only [mem_filter, Bool.and_eq_true, decide_eq_true_eq] at hmem' hprop'
  -- both hold the ordinal, and blocks of one source do not overlap
  have heq : m.toTransfer = m'.toTransfer := h.chained.src_unique (mem_map_of_mem hmem.1)
    (mem_map_of_mem hmem'.1)
    (by simp only [TokenSegmentMove.toTransfer, hmem.2, hmem'.2.1, hprop.1.1, hmem'.2.2])
    ⟨hprop.1.2, hprop.2⟩ hprop'
  rw [hm', TokenSegmentMove.toTransfer_injective heq]

/-- Where the segments and the layout put the routes of all ranks. -/
structure RefPlaces (p : Params) (topk : ℕ → ℕ → ℕ) (segments : List TokenSegmentMove)
    (base : ℕ → ℕ → ℕ) (place : ℕ → ℕ → ℕ × ℕ) : Prop where
  found : ∀ src < p.rankSize, ∀ i < p.cap, ∃ m,
    matchSegment (segments.filter (·.srcRank = src)) (topk src i)
      (routeCount (topk src) i (topk src i)) = some m ∧
    place src i = (m.dstRank, base m.dstRank (topk src i) + m.dstExpertBegin +
      (routeCount (topk src) i (topk src i) - m.srcExpertBegin))
  slot : ∀ src < p.rankSize, ∀ i < p.cap, (place src i).2 < p.nvS
  raw : ∀ src < p.rankSize, ∀ i < p.cap, (place src i).1 * p.nvS + (place src i).2 ≤ int32Max

/-- What `dst` should hold for a route of `src`. -/
def encodedRoute (p : Params) (place : ℕ → ℕ → ℕ × ℕ) (src token k : ℕ) : ℤ :=
  encodeDst (firstVisit p.topK (place src) token k)
    ((place src (token * p.topK + k)).1 * p.nvS + (place src (token * p.topK + k)).2)

/-- The routes of `src` below `token * topK + k` are written, and so are those of earlier sources. -/
structure RefDone (p : Params) (topk : ℕ → ℕ → ℕ) (place : ℕ → ℕ → ℕ × ℕ) (src token k : ℕ)
    (a : RefDstAcc) : Prop where
  ok : a.ok = true
  earlier : ∀ src' < src, ∀ t < p.s, ∀ j < p.topK,
    a.dst src' (t * p.topK + j) = encodedRoute p place src' t j
  done : ∀ t j, j < p.topK → (t < token ∨ t = token ∧ j < k) →
    a.dst src (t * p.topK + j) = encodedRoute p place src t j
  ordinal : ∀ e, a.ordinal e = routeCount (topk src) (token * p.topK + k) e

/-- The same inside a token, with the ranks it was sent to. -/
structure RefWritten (p : Params) (topk : ℕ → ℕ → ℕ) (place : ℕ → ℕ → ℕ × ℕ) (src token k : ℕ)
    (a : RefDstAcc) : Prop extends RefDone p topk place src token k a where
  seen : ∀ r, r ∈ a.seenRanks ↔ ∃ j < k, (place src (token * p.topK + j)).1 = r

section RefDst
variable {p : Params} {topk : ℕ → ℕ → ℕ} {segments : List TokenSegmentMove} {base : ℕ → ℕ → ℕ}
  {place : ℕ → ℕ → ℕ × ℕ} {t : Tables} (hlog : LogOk p t segments) (hcap : p.cap = p.s * p.topK)
  (hp : RefPlaces p topk segments base place)
include hlog hcap hp

theorem refWriteRoute_written {token k : ℕ} (hsrc : src < p.rankSize) (ht : token < p.s) (hk : k < p.topK)
    (h : RefWritten p topk place src token k a) : RefWritten p topk place src token (k + 1)
      (Reference.writeRoute p topk segments base src token a k) := by
  have hlt : token * p.topK + k < p.cap := by
    rw [hcap]
    calc token * p.topK + k < (token + 1) * p.topK := by rw [Nat.add_mul, Nat.one_mul]; omega
      _ ≤ p.s * p.topK := Nat.mul_le_mul_right _ ht
  obtain ⟨m, hm, hplace⟩ := hp.found src hsrc _ hlt
  have hslot := hp.slot src hsrc _ hlt
  have hraw := hp.raw src hsrc _ hlt
  have hfind := find_segmentsBySourceExpert hlog hm
  have hord : ∀ e, add1 a.ordinal (topk src (token * p.topK + k)) 1 e =
      routeCount (topk src) (token * p.topK + (k + 1)) e := by
    intro e
    rw [add1_apply, h.ordinal, ← Nat.add_assoc, routeCount_succ]
    simp only [eq_comm]
  have hfirst : decide (m.dstRank ∉ a.seenRanks) = firstVisit p.topK (place src) token k := by
    rw [Bool.eq_iff_iff, decide_eq_true_eq, h.seen, firstVisit, all_eq_true]
    simp only [mem_range, decide_eq_true_eq, not_exists, not_and, hplace]
  unfold Reference.writeRoute
  rw [if_neg (by rw [h.ok]; decide)]
  dsimp only
  rw [h.ordinal, hfind]
  dsimp only
  rw [hplace] at hslot hraw
  dsimp only at hslot hraw
  rw [if_neg (by simp; omega), hfirst]
  refine ⟨⟨rfl, fun src' hs' t' ht' j hj => ?_, fun t' j hj hbefore => ?_, hord⟩, fun r => ?_⟩
  · dsimp only
    rw [Function.update_of_ne (by omega)]
    exact h.earlier src' hs' t' ht' j hj
  · dsimp only
    rw [Function.update_self]
    by_cases hsame : t' * p.topK + j = token * p.topK + k
    · obtain ⟨rfl, rfl⟩ := route_injective hj hk hsame
      rw [Function.update_self, encodedRoute, hplace]
    · rw [Function.update_of_ne hsame]
      refine h.done t' j hj (hbefore.imp_right fun hb => ⟨hb.1, ?_⟩)
      have : j ≠ k := fun hjk => hsame (by rw [hb.1, hjk])
      omega
  · dsimp only
    rw [Finset.mem_insert, h.seen]
    constructor
    · rintro (rfl | ⟨j, hj, hr⟩)
      · exact ⟨k, by omega, by rw [hplace]⟩
      · exact ⟨j, by omega, hr⟩
    · rintro ⟨j, hj, hr⟩
      rcases Nat.lt_or_ge j k with hlt | hge
      · exact .inr ⟨j, hlt, hr⟩
      · obtain rfl : j = k := by omega
        exact .inl (by rw [← hr, hplace])

/-- The tokens of one source; the set of ranks seen starts empty for each. -/
theorem refWriteTokens_done (hsrc : src < p.rankSize)
    (h : RefDone p topk place src 0 0 a) {n : ℕ} (hn : n ≤ p.s) :
    RefDone p topk place src n 0 ((List.range n).foldl
      (fun a token => (List.range p.topK).foldl
        (Reference.writeRoute p topk segments base src token)
        (if a.ok then { a with seenRanks := ∅ } else a)) a) := by
  have hrow : ∀ token < p.s, ∀ n ≤ p.topK, ∀ a, RefWritten p topk place src token 0 a →
      RefWritten p topk place src token n
        ((List.range n).foldl (Reference.writeRoute p topk segments base src token) a) := by
    intro token ht n
    induction n with
    | zero => exact fun _ a ha => ha
    | succ n ih =>
      intro hn a ha
      rw [foldl_range_succ]
      exact refWriteRoute_written hlog hcap hp hsrc ht hn (ih (by omega) a ha)
  induction n with
  | zero => exact h
  | succ n ih =>
    have hw := ih (by omega)
    rw [foldl_range_succ]
    generalize (List.range n).foldl _ a = b at hw ⊢
    rw [if_pos hw.ok]
    have hend := hrow n hn p.topK le_rfl { b with seenRanks := ∅ }
      ⟨⟨hw.ok, hw.earlier, hw.done, hw.ordinal⟩, fun r => by simp⟩
    refine ⟨hend.ok, hend.earlier, fun t' j hj hbefore => hend.done t' j hj (by omega), fun e => ?_⟩
    rw [hend.ordinal, Nat.add_mul, Nat.one_mul, Nat.add_zero]

/-- `BuildDst` of the reference planner when every route has a place. -/
theorem refBuildDst_spec : (Reference.buildDst p topk segments base).2 = .ok ∧
    ∀ src < p.rankSize, ∀ token < p.s, ∀ k < p.topK,
      (Reference.buildDst p topk segments base).1 src (token * p.topK + k) = encodedRoute p place src token k := by
  set body : RefDstAcc → ℕ → RefDstAcc := fun a src =>
    if !a.ok then a
    else (List.range p.s).foldl
      (fun a token => (List.range p.topK).foldl (Reference.writeRoute p topk segments base src token)
        (if a.ok then { a with seenRanks := ∅ } else a))
      { a with ordinal := fun _ => 0 } with hbody
  have hall : ∀ n ≤ p.rankSize, let a := (List.range n).foldl body ⟨fun _ _ => 0, fun _ => 0, ∅, true⟩
      a.ok = true ∧ ∀ src < n, ∀ t < p.s, ∀ j < p.topK,
        a.dst src (t * p.topK + j) = encodedRoute p place src t j := by
    intro n
    induction n with
    | zero => exact fun _ => ⟨rfl, fun src hsrc => absurd hsrc (Nat.not_lt_zero _)⟩
    | succ n ih =>
      intro hn
      obtain ⟨hok, hdone⟩ := ih (by omega)
      rw [foldl_range_succ]
      generalize (List.range n).foldl body _ = a at hok hdone ⊢
      have hend := refWriteTokens_done hlog hcap hp hn (a := { a with ordinal := fun _ => 0 })
        ⟨hok, hdone, fun t j _ hb => by omega, fun e => by simp [routeCount]⟩ le_rfl
      rw [hbody]
      dsimp only
      rw [if_neg (by rw [hok]; decide)]
      refine ⟨hend.ok, fun src hsrc t ht j hj => ?_⟩
      rcases Nat.lt_succ_iff_lt_or_eq.1 hsrc with hlt | rfl
      · exact hend.earlier src hlt t ht j hj
      · exact hend.done t j hj (.inl ht)
  obtain ⟨hok, hdone⟩ := hall p.rankSize le_rfl
  unfold Reference.buildDst
  refine ⟨?_, hdone⟩
  dsimp only
  rw [← hbody, hok]; rfl

end RefDst

/-! ## The slices -/

namespace Reference.ReferenceOutput

def written (out : ReferenceOutput) : Reference.RefLayout :=
  out.layout.getD Reference.RefLayout.initial

def dstWritten (out : ReferenceOutput) : ℕ → ℕ → ℤ :=
  (out.dst.map Prod.fst).getD fun _ _ => 0

end Reference.ReferenceOutput

structure SameSlice (p : Params) (rank : ℕ) (r : PlanResult) (out : Reference.ReferenceOutput) :
    Prop where
  status : r.status = out.finalStatus
  statusWords : r.statusWords = out.statusByRank rank
  dstBuilt : r.dst.isSome = out.dst.isSome
  dst : ∀ route < p.cap, r.dstWritten route = out.dstWritten rank route
  cuSeqlens : ∀ group < p.expertNum + p.prefetchSlots,
    r.written.cuSeqlens group = out.written.cuSeqlens rank group
  remoteExperts : ∀ d < p.rankSize, ∀ slot < p.prefetchSlots,
    r.written.remoteExperts d slot = out.written.expertsToCopy d slot
  expertsToCopy : ∀ slot < p.prefetchSlots,
    r.written.expertsToCopy slot = out.written.expertsToCopy rank slot
  expertTargets : ∀ l < p.expertsPerRank, ∀ word < (p.rankSize + 63) / 64,
    r.written.expertTargets l word =
      out.written.expertTargets (rank * p.expertsPerRank + l) word
  remoteStats0 : r.written.remoteStats0 = out.written.remoteStats0 rank
  remoteStats1 : r.written.remoteStats1 = out.written.remoteStats1 rank

/-- The status after the layouts and `dst`, as both planners choose it. -/
def planStatus {α : Type} (p : Params) (t : RefState) (layout : PlanStatus)
    (dst : Option (α × PlanStatus)) : PlanStatus :=
  if balanced p t.toTables then
    match dst with
    | none => layout
    | some d => d.2
  else balanceStatus t.sawSlotBlock t.sawSupplyBlock

namespace Collective
variable {g : Collective}

def routes (g : Collective) (rank i : ℕ) : ℕ := (g.ctx rank).topkExperts i

theorem runMoves_eq_plan : Reference.runMoves g.params (Reference.buildAffinityOrders g.params) = g.plan :=
  congrArg (Reference.runMoves g.params) (funext fun d => (buildAffinity_eq g.params d).symm)

theorem reference_eq {st : PlanStatus} (hl : Reference.buildLayouts g.params g.plan.toTables = some (l, st)) :
    ∃ state, Reference.planFrom g.params g.routes =
      let dst := if st = .ok then
          some (Reference.buildDst g.params g.routes g.plan.segments l.expertPhysicalBase)
        else none
      let status := planStatus g.params g.plan st dst
      some
        { finalStatus := status
          state := state, layout := some l, dst := dst
          statusByRank := Reference.fillStatus g.params g.plan l status } := by
  refine ⟨some g.plan, ?_⟩
  unfold Reference.planFrom
  simp only [runMoves_eq_plan, hl]
  by_cases hok : st = .ok
  · simp only [if_pos hok]
    rfl
  · simp only [if_neg hok]
    rfl

/-- Every rank has a segment record for each of its routes and pointers for the remote rows. -/
structure Roomy (g : Collective) : Prop extends Accepted g where
  segments : ∀ rank < g.params.rankSize, g.params.cap ≤ (g.ctx rank).tokenSegmentCapacity
  metadata : ∀ rank < g.params.rankSize, (g.ctx rank).metadata = true

section Roomy
variable (h : g.Roomy)
include h

section
variable {rank : ℕ} (hr : rank < g.params.rankSize)
include hr

theorem Roomy.sim : Sim (g.ctx rank) (runMoves (g.ctx rank)) g.plan := by
  have hsim := (sim_of_valid (h.ctxValid hr) (h.affinity_lt hr)).resolve_right fun hover => by
    have hroom : (g.ctx rank).cap ≤ (g.ctx rank).tokenSegmentCapacity := h.segments rank hr
    exact absurd hover.2 (Nat.not_lt.2 hroom)
  rw [h.affinity hr] at hsim
  exact hsim

theorem Roomy.fit (d : ℕ) : (foreignExperts g.params g.plan.toTables d).length ≤ g.params.prefetchSlots := by
  obtain ⟨t₀, hledger, hsettled⟩ := runMoves_settled (h.paramsValid hr) (buildAffinity g.params)
  exact foreignExperts_fit hledger hsettled d

/-- `BuildLayouts` of every rank is a slice of one reference layout. -/
theorem Roomy.layouts :
    (RowsRepresentable g.params g.plan.toTables → ∃ l, Reference.buildLayouts g.params g.plan.toTables =
        some (l, (buildLayouts (g.ctx rank) g.plan.toTables).2) ∧
      RanksSim (g.ctx rank) (buildLayouts (g.ctx rank) g.plan.toTables).1 l) ∧
    (¬ RowsRepresentable g.params g.plan.toTables → Reference.buildLayouts g.params g.plan.toTables = none) := by
  have hv := h.paramsValid hr
  exact buildLayouts_sim (c := g.ctx rank) hv.expertsPerRank_pos
    (Nat.add_pos_left hv.expertPos _) fun d _ => h.fit hr d

end

section
variable (hR : 0 < g.params.rankSize) (hl : ∀ rank < g.params.rankSize,
    RanksSim (g.ctx rank) (buildLayouts (g.ctx rank) g.plan.toTables).1 l)
  (hsums : ∀ d < g.params.rankSize, paddedSum g.params g.plan.toTables d ≤ g.params.nvS)
include hR hl hsums

/-- The places of the routes of all ranks, when the groups of every destination fit. -/
theorem Roomy.places :
    ∃ place, RefPlaces g.params g.routes g.plan.segments l.expertPhysicalBase place ∧
      ∀ rank < g.params.rankSize, Places (g.ctx rank)
        (g.plan.segments.filter (·.srcRank = rank)) l.expertPhysicalBase (place rank) := by
  obtain ⟨t₀, hledger, hsettled⟩ := runMoves_settled (h.paramsValid hR) (buildAffinity g.params)
  have hex : ∀ rank, ∃ place, rank < g.params.rankSize → Places (g.ctx rank)
      (g.plan.segments.filter (·.srcRank = rank)) l.expertPhysicalBase place := by
    intro rank
    by_cases hr : rank < g.params.rankSize
    · have hv := h.ctxValid hr
      rcases buildLayouts_spec hv.shared.paddingPos hv.shared.nvS_le (c := g.ctx rank)
        (t := g.plan.toTables) (fun d _ => h.fit hr d) with ⟨-, -, hlay⟩ | ⟨⟨d, hd, hbig⟩, -⟩
      · obtain ⟨place, hplaces, -⟩ := exists_places hv hsettled (h.fit hr) hsums hlay
        rw [(hl rank hr).base, show (g.ctx rank).rank = rank from Int.toNat_natCast rank] at hplaces
        exact ⟨place, fun _ => hplaces⟩
      · exact absurd (hsums d hd) (Nat.not_le.2 hbig)
    · exact ⟨fun _ => (0, 0), fun hlt => absurd hlt hr⟩
  choose place hplace using hex
  exact ⟨place, ⟨fun src hsrc i hi => (hplace src hsrc).found i hi, fun src hsrc i hi => (hplace src hsrc).slot i hi,
    fun src hsrc i hi => (hplace src hsrc).raw i hi⟩, hplace⟩

theorem Roomy.sameDst {rank : ℕ} (hr : rank < g.params.rankSize) :
    (buildDst (g.ctx rank) (g.plan.segments.filter (·.srcRank = rank)) l.expertPhysicalBase).2 =
      (Reference.buildDst g.params g.routes g.plan.segments l.expertPhysicalBase).2 ∧ ∀ route < g.params.cap,
      (buildDst (g.ctx rank) (g.plan.segments.filter (·.srcRank = rank)) l.expertPhysicalBase).1 route =
      (Reference.buildDst g.params g.routes g.plan.segments l.expertPhysicalBase).1 rank route := by
  obtain ⟨place, hplaces, hrank⟩ := h.places hR hl hsums
  have hv := h.ctxValid hr
  obtain ⟨hok, hdst⟩ := buildDst_spec hv.shared.cap_eq (hrank rank hr)
  obtain ⟨t₀, -, hsettled⟩ := runMoves_settled hv.shared (buildAffinity g.params)
  obtain ⟨hok', hdst'⟩ := refBuildDst_spec hsettled.log hv.shared.cap_eq hplaces
  refine ⟨hok.trans hok'.symm, fun route hroute => ?_⟩
  have hroute : route < g.params.s * g.params.topK := hv.shared.cap_eq ▸ hroute
  have hpos : 0 < g.params.topK := hv.shared.topKPos
  have htoken : route / g.params.topK < g.params.s := Nat.div_lt_of_lt_mul (by rwa [Nat.mul_comm])
  have hk := Nat.mod_lt route hpos
  have heq : route = route / g.params.topK * g.params.topK + route % g.params.topK :=
    (Nat.div_add_mod' _ _).symm
  rw [heq]
  exact (hdst _ htoken _ hk).trans (hdst' rank hr _ htoken _ hk).symm

end

theorem Roomy.oneLayout (hR : 0 < g.params.rankSize) (hrep : RowsRepresentable g.params g.plan.toTables) :
    ∃ l st, Reference.buildLayouts g.params g.plan.toTables = some (l, st) ∧
      ∀ rank < g.params.rankSize, (buildLayouts (g.ctx rank) g.plan.toTables).2 = st ∧
        RanksSim (g.ctx rank) (buildLayouts (g.ctx rank) g.plan.toTables).1 l := by
  obtain ⟨l, hl, -⟩ := (h.layouts hR).1 hrep
  refine ⟨l, _, hl, fun rank hr => ?_⟩
  obtain ⟨l', hl', hsim⟩ := (h.layouts hr).1 hrep
  obtain ⟨rfl, hst⟩ := Prod.mk.inj (Option.some.inj (hl.symm.trans hl'))
  exact ⟨hst.symm, hsim⟩

/-- A layout without error means that every destination's groups fit. -/
theorem Roomy.sums {rank : ℕ} (hr : rank < g.params.rankSize)
    (hok : (buildLayouts (g.ctx rank) g.plan.toTables).2 = .ok) :
    ∀ d < g.params.rankSize, paddedSum g.params g.plan.toTables d ≤ g.params.nvS := by
  have hv := (h.ctxValid hr).shared
  rcases buildLayouts_spec hv.paddingPos hv.nvS_le (c := g.ctx rank) (t := g.plan.toTables)
    (fun d _ => h.fit hr d) with ⟨hsums, -, -⟩ | ⟨-, hbad⟩
  · exact hsums
  · exact absurd (hok.symm.trans hbad) (by decide)

theorem Roomy.run_eq {rank : ℕ} (hr : rank < g.params.rankSize) :
    ∃ state, g.run rank =
      let l := buildLayouts (g.ctx rank) g.plan.toTables
      let dst := if l.2 = .ok then
          some (buildDst (g.ctx rank) (g.plan.segments.filter (·.srcRank = rank))
            l.1.expertPhysicalBase)
        else none
      let status := planStatus g.params g.plan l.2 dst
      { status := status
        statusWords := [status.code, g.plan.intraRounds, g.plan.interRounds,
          g.plan.toTables.deficit g.params, l.1.maxRemote, l.1.localEnd, g.plan.expertMoves.length,
          (g.plan.segments.filter (·.srcRank = rank)).length]
        state := state, layout := some l.1, dst := dst } := by
  have hsim := h.sim hr
  have hrank : (g.ctx rank).rank = rank := Int.toNat_natCast rank
  refine ⟨some (runMoves (g.ctx rank)), ?_⟩
  rw [h.toAccepted.run_eq hr]
  unfold planFrom
  rw [if_neg (not_not.2 hsim.fatal)]
  simp only [fillStatus, hsim.tables, hsim.segments, hsim.expertMoves, hsim.intraRounds,
    hsim.interRounds, hsim.slotBlock, hsim.supplyBlock, hrank]
  by_cases hok : (buildLayouts (g.ctx rank) g.plan.toTables).2 = .ok
  · simp only [if_pos hok]
    rfl
  · simp only [if_neg hok]
    rfl

/-- Every rank's result is its slice of what the reference planner returns. -/
theorem Roomy.slices (hR : 0 < g.params.rankSize) (hrep : RowsRepresentable g.params g.plan.toTables) :
    ∃ out, Reference.planFrom g.params g.routes = some out ∧
      ∀ rank < g.params.rankSize, SameSlice g.params rank (g.run rank) out := by
  obtain ⟨l, st, href, hl⟩ := h.oneLayout hR hrep
  obtain ⟨state, hplan⟩ := reference_eq href
  refine ⟨_, hplan, fun rank hr => ?_⟩
  obtain ⟨state', hrun⟩ := h.run_eq hr
  obtain ⟨hst, hsim⟩ := hl rank hr
  have hrank : (g.ctx rank).rank = rank := Int.toNat_natCast rank
  have hmeta := h.metadata rank hr
  have hstatus : planStatus g.params g.plan st
      (if st = .ok then some (buildDst (g.ctx rank) (g.plan.segments.filter (·.srcRank = rank))
        l.expertPhysicalBase) else none) =
    planStatus g.params g.plan st (if st = .ok then
      some (Reference.buildDst g.params g.routes g.plan.segments l.expertPhysicalBase) else none) := by
    by_cases hok : st = .ok
    · simp only [if_pos hok, planStatus]
      rw [(h.sameDst hR (fun r hr => (hl r hr).2) (h.sums hr (hst.trans hok)) hr).1]
    · simp only [if_neg hok, planStatus]
  rw [hrun]
  dsimp only
  rw [hst, hsim.base, hstatus]
  refine ⟨rfl, ?_, ?_, ?_, ?_, ?_, ?_, ?_, ?_, ?_⟩
  · -- the status words
    simp only [Reference.fillStatus]
    rw [hsim.maxRemote, hsim.localEnd, hrank]
    rfl
  · -- both planners build `dst`, or neither does
    by_cases hok : st = .ok
    · simp only [if_pos hok, Option.isSome_some]
    · simp only [if_neg hok, Option.isSome_none]
  · intro route hroute
    by_cases hok : st = .ok
    · simp only [PlanResult.dstWritten, Reference.ReferenceOutput.dstWritten, if_pos hok, Option.map_some,
        Option.getD_some]
      exact (h.sameDst hR (fun r hr => (hl r hr).2) (h.sums hr (hst.trans hok)) hr).2 route hroute
    · simp only [PlanResult.dstWritten, Reference.ReferenceOutput.dstWritten, if_neg hok, Option.map_none,
        Option.getD_none]
  · intro group _
    exact (congrFun hsim.cuSeqlens group).trans (by rw [hrank]; rfl)
  · intro d _ slot _
    exact congrFun (congrFun (hsim.remoteExperts hmeta) d) slot
  · intro slot _
    exact (congrFun hsim.expertsToCopy slot).trans (by rw [hrank]; rfl)
  · intro e he word _
    exact (congrFun (hsim.expertTargets hmeta e he) word).trans (by rw [hrank]; rfl)
  · exact hsim.remoteStats0.trans (by rw [hrank]; rfl)
  · exact hsim.remoteStats1.trans (by rw [hrank]; rfl)

/-- Where a row's index overflows, the reference planner has no result. -/
theorem Roomy.undefined (hR : 0 < g.params.rankSize) (hrep : ¬ RowsRepresentable g.params g.plan.toTables) :
    Reference.planFrom g.params g.routes = none := by
  unfold Reference.planFrom
  simp only [runMoves_eq_plan, (h.layouts hR).2 hrep]

end Roomy

end Collective

/-! ## The calls of the ranks on a reference input -/

/-- The calls of all ranks on the input of the reference planner. -/
def ReferenceInput.calls (x : ReferenceInput) (ws : ℕ → PlanAlgorithmWorkspace) : Collective where
  shared :=
    { rank := 0, rankSize := x.rankSize, s := x.s, topK := x.topK, expertNum := x.expertNum
      config := x.config, topkExperts := fun _ => 0
      tokensPerExpert := fun i => x.tokensPerExpert.getD i 0
      globalRankIds := fun r => x.globalRankIds.getD r 0 }
  topkExperts rank route := x.topkExperts.getD (rank * (x.s * x.topK).toNat + route) 0
  ptr _ := {}
  ws := ws

structure FreshWorkspace (x : ReferenceInput) (ws : PlanAlgorithmWorkspace) : Prop where
  segments : x.s * x.topK ≤ ws.tokenSegmentCapacity
  scratch : x.rankSize * 16 ≤ ws.scratchCount
  affinity : ws.affinityOrderValid = false

theorem badInput_false {x : ReferenceInput} (h : ¬ Reference.badInput x = true) :
    (0 < x.rankSize ∧ x.rankSize ≤ 512) ∧ 0 < x.s ∧ (0 < x.topK ∧ x.topK ≤ 32) ∧ 0 < x.expertNum ∧
      x.expertNum % x.rankSize = 0 ∧ x.s * x.topK ≤ int32Max ∧ x.config.Good (x.s * x.topK) x.rankSize := by
  simp only [Reference.badInput, Bool.or_eq_true, not_or, PlanConfig.bad_iff, decide_eq_true_eq, not_lt, not_le,
    ne_eq, not_not] at h
  generalize x.s * x.topK = cap at h ⊢
  refine ⟨⟨?_, ?_⟩, ?_, ⟨?_, ?_⟩, ?_, ?_, ?_, h.1.1.1.2⟩ <;> omega

variable {x : ReferenceInput} {ws : ℕ → PlanAlgorithmWorkspace}

/-- What `ValidateInput` has checked about a rank's row suffices for every rank. -/
theorem checkRow_calls {cap : ℤ} {row : ℕ → ℤ} {hist hist' : ℤ → ℕ} {own : Bool}
    (h : checkRow expertNum cap row hist true = none) (hown : own = true → hist' = hist) :
    checkRow expertNum cap row hist' own = none := by
  obtain ⟨hrow, hsum⟩ := checkRow_none h
  unfold checkRow
  have hnone : ((List.range expertNum).findSome? fun e =>
      if row e < 0 then some PlanStatus.errorConfigMismatch
      else if own && row e ≠ hist' e then some .errorTpeMismatch
      else none) = none := by
    rw [List.findSome?_eq_none_iff]
    intro e he
    obtain ⟨hpos, heq⟩ := hrow e (mem_range.1 he)
    rw [if_neg (Int.not_lt.2 hpos), if_neg]
    cases own with
    | false => simp
    | true => simp [hown rfl, heq rfl]
  rw [hnone, if_neg (not_not.2 hsum)]
  rfl

theorem checkRank_ne_ok {topk tpe : ℕ → ℤ} : Reference.checkRank expertNum cap topk tpe ≠ some .ok := by
  unfold Reference.checkRank
  split
  · decide
  · exact checkRow_ne_ok

theorem checkRank_none {topk tpe : ℕ → ℤ} (h : Reference.checkRank expertNum cap topk tpe = none) :
    (¬ ((List.range cap).any fun route => topk route < 0 || topk route ≥ expertNum) = true) ∧
      checkRow expertNum cap tpe (histogram topk cap) true = none := by
  unfold Reference.checkRank at h
  split at h
  · cases h
  · exact ⟨‹_›, h⟩

/-- Every rank accepts its call on an input that the reference planner accepts. -/
theorem calls_roomy (hvalid : Reference.validateInput x = .ok) (hR : x.rankSize ≤ 128)
    (hE : x.rankSize * x.expertNum ≤ int32Max) (hws : ∀ rank, FreshWorkspace x (ws rank)) : (x.calls ws).Roomy := by
  unfold Reference.validateInput at hvalid
  split at hvalid
  · cases hvalid
  rename_i hbad
  obtain ⟨⟨hpos, -⟩, hs, hk, he, hdvd, hcap, hcfg⟩ := badInput_false hbad
  dsimp only at hvalid
  split at hvalid
  · cases hvalid
  rename_i hids
  have hranks := findSome_none (fun rank => checkRank_ne_ok) hvalid
  have hcap0 : 0 ≤ x.s * x.topK := Int.mul_nonneg hs.le hk.1.le
  have hexperts : x.expertNum ≤ x.rankSize * x.expertNum := by
    have := Int.mul_le_mul_of_nonneg_right (show 1 ≤ x.rankSize from hpos) he.le
    rwa [Int.one_mul] at this
  refine ⟨⟨fun rank hr => ?_, fun rank _ hcached => ?_⟩, fun rank _ => ?_, fun _ _ => rfl⟩
  · have hr : rank < x.rankSize.toNat := hr
    have hshape := not_badShape (y := (x.calls ws).input rank) (w := ws rank) ⟨hpos, hR⟩
      ⟨Int.natCast_nonneg rank, show (rank : ℤ) < x.rankSize by omega⟩ hs hk
      ⟨he, hexperts.trans hE⟩ hdvd (hws rank).scratch hcap
    have hconfig := not_badConfig (y := (x.calls ws).input rank) (w := ws rank) hcfg
      (hcap0.trans (hws rank).segments)
    have hroutes := (checkRank_none (hranks rank hr)).1
    have hrows : ((List.range x.rankSize.toNat).findSome? fun src =>
        checkRow x.expertNum.toNat (x.s * x.topK).toNat
          (fun e => x.tokensPerExpert.getD (src * x.expertNum.toNat + e) 0)
          (histogram ((x.calls ws).topkExperts rank) (x.s * x.topK).toNat)
          (decide ((src : ℤ) = rank))) = none := by
      rw [List.findSome?_eq_none_iff]
      intro src hsrc
      refine checkRow_calls (checkRank_none (hranks src (mem_range.1 hsrc))).2 fun hown => ?_
      rw [Int.ofNat_inj.1 (of_decide_eq_true hown)]
      rfl
    exact (if_neg hshape).trans ((if_neg hconfig).trans ((if_neg hids).trans
      ((if_neg hroutes).trans (congrArg (fun first => first.getD PlanStatus.ok) hrows))))
  · rw [show (x.calls ws).ws rank = ws rank from rfl, (hws rank).affinity] at hcached
    cases hcached
  · have hseg := (hws rank).segments
    have := hcfg.capacity
    show x.config.rankTokenCapacity.toNat ≤ (ws rank).tokenSegmentCapacity.toNat
    omega

/-- On an input that the reference planner accepts, every rank returns its slice of the reference plan,
status and status words included, exactly when the reference planner can index its remote rows: each
destination that has a foreign expert after the moves begins at an `int32` index. -/
theorem referencePlan_slices_iff (x : ReferenceInput) (ws : ℕ → PlanAlgorithmWorkspace)
    (hvalid : Reference.validateInput x = .ok) (hR : x.rankSize ≤ 128)
    (hE : x.rankSize * x.expertNum ≤ int32Max) (hws : ∀ rank, FreshWorkspace x (ws rank)) :
    (∃ out, Reference.buildReferencePlan x = some out ∧
      ∀ rank < x.rankSize.toNat, SameSlice (Reference.paramsOf x) rank
        (runPlanAlgorithm ((x.calls ws).input rank) {} (ws rank)) out) ↔
    RowsRepresentable (Reference.paramsOf x)
      (Reference.runMoves (Reference.paramsOf x)
        (Reference.buildAffinityOrders (Reference.paramsOf x))).toTables := by
  have h := calls_roomy hvalid hR hE hws
  have hpos : 0 < (x.calls ws).params.rankSize := by
    have hbad : ¬ Reference.badInput x = true := fun hbad => by
      unfold Reference.validateInput at hvalid
      rw [if_pos hbad] at hvalid
      cases hvalid
    have := (badInput_false hbad).1.1
    show 0 < x.rankSize.toNat
    omega
  have hplan : Reference.buildReferencePlan x =
      Reference.planFrom (x.calls ws).params (x.calls ws).routes := if_neg (not_not.2 hvalid)
  have haff : Reference.buildAffinityOrders (Reference.paramsOf x) =
      buildAffinity (Reference.paramsOf x) := funext fun d => (buildAffinity_eq _ d).symm
  rw [hplan, haff]
  constructor
  · rintro ⟨out, hout, -⟩
    by_contra hrep
    rw [h.undefined hpos hrep] at hout
    cases hout
  · exact h.slices hpos

theorem rowsRepresentable_of_le {p : Params} (t : Tables)
    (h : (p.rankSize - 1) * p.prefetchSlots ≤ int32Max) : RowsRepresentable p t :=
  fun _ hd _ => (Nat.mul_le_mul_right _ (Nat.le_sub_one_of_lt hd)).trans h

/-- Three ranks with one token and one expert each; the expert of rank 2 is not used. -/
def threeRanks (prefetchSlots : ℤ) : ReferenceInput where
  rankSize := 3
  s := 1
  topK := 1
  expertNum := 3
  config := { rankTokenCapacity := 1, prefetchSlots := prefetchSlots, nvS := 4 }
  globalRankIds := [0, 1, 2]
  topkExperts := [0, 1, 0]
  tokensPerExpert := [1, 0, 0, 0, 1, 0, 1, 0, 0]

def roomyWorkspace : PlanAlgorithmWorkspace where
  tokenSegmentCapacity := 1
  scratchCount := 48
  affinityOrder _ := []
  affinityOrderValid := false

theorem roomyWorkspace_fresh (slots : ℤ) : FreshWorkspace (threeRanks slots) roomyWorkspace :=
  ⟨le_rfl, le_rfl, rfl⟩

/-- With one prefetch slot every rank returns its slice. -/
theorem threeRanks_slices :
    ∃ out, Reference.buildReferencePlan (threeRanks 1) = some out ∧
      ∀ rank < 3, SameSlice (Reference.paramsOf (threeRanks 1)) rank
        (runPlanAlgorithm (((threeRanks 1).calls fun _ => roomyWorkspace).input rank) {}
          roomyWorkspace) out :=
  (referencePlan_slices_iff (threeRanks 1) (fun _ => roomyWorkspace) (by decide) (by decide)
    (by decide) fun _ => roomyWorkspace_fresh 1).2 (rowsRepresentable_of_le _ (by decide))

/-- With `INT32_MAX` prefetch slots the row of rank 2, which receives expert 0, has no `int32`
index. -/
theorem threeRanks_not_slices :
    Reference.validateInput (threeRanks 2147483647) = .ok ∧
    (threeRanks 2147483647).rankSize ≤ 128 ∧
    (threeRanks 2147483647).rankSize * (threeRanks 2147483647).expertNum ≤ int32Max ∧
    FreshWorkspace (threeRanks 2147483647) roomyWorkspace ∧
    ¬ ∃ out, Reference.buildReferencePlan (threeRanks 2147483647) = some out ∧
      ∀ rank < 3, SameSlice (Reference.paramsOf (threeRanks 2147483647)) rank
        (runPlanAlgorithm (((threeRanks 2147483647).calls fun _ => roomyWorkspace).input rank) {}
          roomyWorkspace) out := by
  refine ⟨by decide, by decide, by decide, roomyWorkspace_fresh _, ?_⟩
  rintro ⟨out, hout, -⟩
  have hnone : (Reference.buildReferencePlan (threeRanks 2147483647)).isNone = true := by decide
  rw [hout] at hnone
  cases hnone

/-- The `while (true)` loops of the reference planner end, in the states the model computes. -/
theorem referenceStages_end {p : Params} (hcap : p.cap ≠ 0) (aff : ℕ → List ℕ) (t : RefState) :
    (∀ key, Ends (Reference.intraRound p aff (Reference.membersOf p key)) t
      (Reference.intraServer p aff t key)) ∧
      Ends (Reference.interRound p aff) t (Reference.runInterServerStage p aff t) :=
  ⟨fun key => ends_loop (refIntraRound_decreases hcap aff key) t, ends_loop (refInterRound_decreases p aff) t⟩

/-- All tokens are for rank 0, which shares its server with rank 1 only: one round of each stage moves. -/
def splitServers : ReferenceInput :=
  { threeRanks 1 with
    globalRankIds := [0, 1, 8], topkExperts := [0, 0, 0], tokensPerExpert := [1, 0, 0, 1, 0, 0, 1, 0, 0] }

theorem referenceStages_end_splitServers :
    let p := Reference.paramsOf splitServers
    let aff := Reference.buildAffinityOrders p
    let t := Reference.intraServer p aff (Reference.RefState.initial p) 0
    let t' := Reference.runInterServerStage p aff t
    Ends (Reference.intraRound p aff (Reference.membersOf p 0)) (Reference.RefState.initial p) t ∧
      Ends (Reference.interRound p aff) t t' ∧ t.segments.length = 1 ∧ t'.segments.length = 2 :=
  ⟨(referenceStages_end (by decide) _ _).1 0, (referenceStages_end (by decide) _ _).2, by decide, by decide⟩

end TileXR.Plan
