import TileXR.MoonEpV1.DispatchExact
import TileXR.Plan.Received

/-!
# A plan and its dispatch

The planner writes `dst` for the routes of each rank, and the memory dispatch copies rows to where `dst`
says. Together they bring to every expert group of every rank the rows of the tokens that chose its expert,
and nothing else (`dispatch_of_plan`): the planner's `dst` is what the dispatch relies on, with a
complemented entry only behind the route that carries the row.
-/

namespace TileXR.MoonEpV1
open Lib Nat Plan
variable {g : Collective} {t : DispatchTask} {m : DispatchMem} {d x r i : ℕ}

/-- What the planner has written, as the dispatch reads it. -/
def planRoutes (g : Collective) : Routes :=
  ⟨g.params.rankSize, g.params.cap, g.params.topK, g.params.nvS, fun r => (g.run r).dstWritten⟩

/-- Slot `x` of rank `d` holds the row of the token of route `i` of rank `r`. -/
def HasRow (t : DispatchTask) (m : DispatchMem) (d x r i : ℕ) : Prop :=
  ∀ b < t.layout.hiddenRowBytes, m.hiddenNvsh d (x * t.layout.hiddenRowBytes + b) =
    t.hiddenSh r (i / t.layout.k * t.layout.hiddenRowBytes + b)

/-- Every route's row is in the group of its expert, and a group has no other rows. -/
structure GroupsFilled (g : Collective) (t : DispatchTask) (m : DispatchMem) : Prop where
  arrives : ∀ r < g.params.rankSize, ∀ i < g.params.cap, ∃ d < g.params.rankSize,
    ∃ group < g.params.expertNum + g.params.prefetchSlots, g.HoldsExpert d group (g.expert r i) ∧
      ∃ j < (g.run d).allocation d (g.expert r i), HasRow t m d (g.groupBegin d group + j) r i
  belongs : ∀ d < g.params.rankSize, ∀ group < g.params.expertNum + g.params.prefetchSlots, ∀ x,
    g.groupBegin d group ≤ x → x < (g.run d).written.cuSeqlens group →
    (∃ r < g.params.rankSize, ∃ i < g.params.cap,
      g.HoldsExpert d group (g.expert r i) ∧ HasRow t m d x r i) ∨
    ∀ b < t.layout.hiddenRowBytes, m.hiddenNvsh d (x * t.layout.hiddenRowBytes + b) = 0

theorem rawRoute_dstWritten (g : Collective) (r i : ℕ) : rawRoute ((g.run r).dstWritten i) = g.raw r i := by
  simp only [rawRoute, Collective.raw, decodeDst]
  split <;> omega

theorem slot_div {n : ℕ} (hx : x < n) : (d * n + x) / n = d := by
  rw [Nat.mul_comm, mul_add_div (by omega), div_eq_of_lt hx, Nat.add_zero]

section Sliced
variable {place : ℕ → ℕ → ℕ × ℕ} {t₀ : Reference.RefState} (h : g.Sliced place t₀)
include h

theorem raw_div (hr : r < g.params.rankSize) (hi : i < g.params.cap) : g.raw r i / g.params.nvS = (place r i).1 := by
  have hslot : (place r i).2 < g.params.nvS := (h.slice r hr).slot i hi
  rw [h.raw_eq hr hi, slot_div hslot]

/-- Before a complemented entry there is one of the same token to the same rank that is not. -/
theorem exists_primary (hr : r < g.params.rankSize) (hi : i < g.params.cap)
    (hneg : (g.run r).dstWritten i < 0) : ∃ i' < i, i' / g.params.topK = i / g.params.topK ∧
      0 ≤ (g.run r).dstWritten i' ∧ g.raw r i' / g.params.nvS = g.raw r i / g.params.nvS := by
  have hpos := h.valid.topKPos
  have ht : i / g.params.topK < g.params.s := (div_lt_iff_lt_mul hpos).2 (h.valid.cap_eq ▸ hi)
  have hk := mod_lt i hpos
  have hi₀ := div_add_mod' i g.params.topK
  have hself := h.encoded_eq hr ht hk
  obtain ⟨k₀, hk₀, hd, hfirst, hmin, -⟩ :=
    Collective.exists_firstVisit hk (rfl : (place r (i / g.params.topK * _ + _)).1 = _)
  rw [hi₀] at hd hself
  -- the route itself is not the first of its token to its rank
  have hne : k₀ ≠ i % g.params.topK := by
    rintro rfl
    rw [Collective.encoded, hi₀] at hself
    exact (hself ▸ encodeDst_nonneg.2 hfirst).not_gt hneg
  have hle := hmin _ hk (by rw [hi₀])
  refine ⟨i / g.params.topK * g.params.topK + k₀, by omega, ?_, ?_, ?_⟩
  · exact slot_div hk₀
  · exact (encodeDst_nonneg.2 hfirst).trans_eq (h.encoded_eq hr ht hk₀).symm
  · rw [raw_div h hr hi, raw_div h hr (h.route_lt ht hk₀), hd]

theorem planRoutes_proper : (planRoutes g).Proper where
  k_pos := h.valid.topKPos
  nvS_pos := h.valid.capPos.trans_le h.valid.cap_le
  lt r hr i hi := by
    have hlt := h.onePlan.lt r hr i hi
    simp only [planRoutes, rawRoute_dstWritten]
    exact_mod_cast hlt
  distinct r hr i hi r' hr' i' hi' heq := by
    simp only [planRoutes, rawRoute_dstWritten, Int.natCast_inj] at heq
    exact h.onePlan.injective r hr r' hr' i hi i' hi' heq
  primary r hr i hi hneg := by
    obtain ⟨i', hlt, htoken, hnonneg, hrank⟩ := exists_primary h hr hi hneg
    refine ⟨i', hlt, htoken, hnonneg, ?_⟩
    simp only [planRoutes]
    rw [← Routes.rawRoute_of_nonneg hnonneg, rawRoute_dstWritten, rawRoute_dstWritten]
    exact_mod_cast hrank

theorem groupsFilled (ht : t.routes = planRoutes g)
    (hrows : ∀ d < g.params.rankSize, ∀ x < g.params.nvS, ∀ b < t.layout.hiddenRowBytes,
      m.hiddenNvsh d (x * t.layout.hiddenRowBytes + b) = rowByte t d x b) : GroupsFilled g t m := by
  simp only [rowByte, ht] at hrows
  have hroute : ∀ {d x r i : ℕ}, (planRoutes g).routeTo d x = some (r, i) ↔
      r < g.params.rankSize ∧ i < g.params.cap ∧ g.raw r i = d * g.params.nvS + x := by
    intro d x r i
    rw [Routes.routeTo_eq_some (planRoutes_proper h)]
    simp only [planRoutes, rawRoute_dstWritten]
    norm_cast
  have hrow : ∀ {d x r i : ℕ}, d < g.params.rankSize → x < g.params.nvS →
      (planRoutes g).routeTo d x = some (r, i) → HasRow t m d x r i := by
    intro d x r i hd hx hto b hb
    rw [hrows d hd x hx b hb, hto]
    rfl
  refine ⟨fun r hr i hi => ?_, fun d hd group hg x hle hlt => ?_⟩
  · obtain ⟨d, hd, group, hg, hholds, ⟨j, hj, hraw⟩, hend, hfit⟩ := h.onePlan.group r hr i hi
    exact ⟨d, hd, group, hg, hholds, j, hj, hrow hd (by omega) (hroute.2 ⟨hr, hi, hraw⟩)⟩
  · have hx : x < g.params.nvS := by
      rw [h.cuSeqlens_eq hd hg] at hlt
      exact hlt.trans_le ((blockStart_mono hg).trans ((h.slice d hd).sums d hd))
    rcases hto : (planRoutes g).routeTo d x with _ | ⟨r, i⟩
    · exact .inr fun b hb => by rw [hrows d hd x hx b hb, hto]; rfl
    · obtain ⟨hr, hi, hraw⟩ := hroute.1 hto
      exact .inl ⟨r, hr, i, hi, (h.onePlan.padding d hd group hg x hle hlt r hr i hi hraw).1, hrow hd hx hto⟩

end Sliced

/-- Ranks that have planned together and launch the dispatch with their plan: its routes are what the dispatch
relies on, the launch can finish, and whenever it does, the expert groups are filled. -/
theorem dispatch_of_plan {commRank commWorld : ℤ} {plan : PlanV1} {hiddenSh hiddenNvsh : Tensor}
    {routeWeightsSk routeWeightsNvs : Option Tensor} {flags : ℕ} (hg : g.Accepted)
    (hdst : ∀ rank < g.params.rankSize, (g.run rank).dst.isSome) (ht : t.routes = planRoutes g)
    (hlayout : buildDispatchLayout commRank commWorld plan hiddenSh routeWeightsSk hiddenNvsh routeWeightsNvs
      flags = some t.layout) (hworld : t.rankSize = commWorld.toNat) (hdedup : buildDedup flags)
    (hmagic : 0 < t.magic) (flag : ℕ → ℕ) (hflag : ∀ p < t.rankSize, flag p / 2 ^ 32 ≠ t.magic % 2 ^ 32)
    (m₀ : DispatchMem) : (planRoutes g).Proper ∧
    (∃ s, (dispatch t).Runs flag m₀ s ∧ (dispatch t).Finished s) ∧
    ∀ s, (dispatch t).Runs flag m₀ s → (dispatch t).Finished s → GroupsFilled g t s.mem := by
  obtain ⟨hL, rfl, -⟩ := buildDispatchLayout_accepted hlayout
  rw [← hworld] at hL
  have hsize : t.rankSize = g.params.rankSize := congrArg Routes.rankSize ht
  have hnvS : t.layout.nvS = g.params.nvS := congrArg Routes.nvS ht
  obtain ⟨place, t₀, h⟩ := hg.sliced (hsize ▸ hL.world_pos) hdst
  have hR := ht ▸ planRoutes_proper h
  refine ⟨planRoutes_proper h, dispatch_exists_run hL hdedup hR hmagic flag m₀, fun s hs hfin => ?_⟩
  obtain ⟨l, hinv⟩ := Phased.Runs.finished (List.ne_nil_of_mem (List.mem_range.2 hL.world_pos))
    (dispatch_sound hL hflag) (dispatchInv_start m₀) (dispatch_kept hL hdedup hR hmagic) hs hfin
  refine groupsFilled h ht fun d hd x hx b hb => ?_
  have hk := hinv.kept ((mul_mod_right 3 _).trans_le (by decide)) d (hsize ▸ hd)
  rw [show (dispatch t).phases / 3 = t.layout.chunkCount from Nat.mul_div_cancel_left _ (by decide)] at hk
  have hdiv := lt_div_mul_add hL.chunk_pos (a := t.layout.hiddenRowBytes - 1)
  refine hk.rows x (hnvS ▸ hx) b hb ?_
  rw [hL.chunkCount_eq, succ_mul]
  omega

def plannedLayout : Option DispatchLayout :=
  buildDispatchLayout 0 2 { twoRanksPlan with nvS := 4, k := 1 } (twoRanksHidden 2) none (twoRanksHidden 4)
    none 1

theorem plannedLayout_isSome : plannedLayout.isSome := by decide +kernel

/-- The dispatch of a plan of two ranks, in which one route moves. -/
def planned : DispatchTask :=
  { twoRanks with
    layout := plannedLayout.get plannedLayout_isSome
    dst := fun r => (Plan.twoRanks.run r).dstWritten }

theorem dispatch_of_plan_twoRanks : (planRoutes Plan.twoRanks).Proper ∧
    ∃ s, (dispatch planned).Finished s ∧ GroupsFilled Plan.twoRanks planned s.mem := by
  have ht : planned.routes = planRoutes Plan.twoRanks := by
    simp only [DispatchTask.routes, planRoutes, Routes.mk.injEq]
    exact ⟨by decide, by decide +kernel, by decide +kernel, by decide +kernel, rfl⟩
  obtain ⟨hproper, ⟨s, hs, hfin⟩, h⟩ := dispatch_of_plan (g := Plan.twoRanks)
    ⟨by decide, fun _ _ => nofun⟩ (by decide) ht (Option.some_get plannedLayout_isSome).symm rfl (by decide)
    (by decide) (fun _ => 0) (fun _ _ => by decide)
    ⟨fun _ _ => 0, fun _ _ => 0, fun _ _ => 0, fun _ _ => 0, fun _ _ => 0, fun _ _ => 0, fun _ => 0⟩
  exact ⟨hproper, s, hfin, h s hs hfin⟩

end TileXR.MoonEpV1
