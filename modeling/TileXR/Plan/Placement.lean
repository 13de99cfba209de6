import TileXR.Plan.LayoutSpec
import TileXR.Plan.Ledger
import TileXR.Plan.Valid

/-!
# Where the routes land

The settled ledger gives every route (by source rank, expert and ordinal) an offset in its expert's
group on one destination, the layout gives the group a place on that destination. `Lands` is the
composition of the two. It is injective and onto the slots that hold tokens, and it is what `BuildDst`
of each rank computes from its own segments (`exists_places`).
-/

namespace TileXR.Plan
open Lib List
open Reference (Ledger RefState Settled)

/-- The moves and the remainders of the reference planner, as a settled ledger. -/
theorem runMoves_settled {p : Params} (hp : p.Valid) (aff : ℕ → List ℕ) :
    ∃ t₀, Ledger p t₀ ∧ Settled p t₀ (Reference.runMoves p aff) :=
  have h := Reference.ledger_moves hp.rankPos aff
  ⟨_, h, Reference.appendRemainderSegments_settled h fun _ he => hp.homeRank_lt he⟩

theorem foreignExperts_fit {p : Params} {t₀ t : RefState} (h₀ : Ledger p t₀) (h : Settled p t₀ t)
    (d : ℕ) : (foreignExperts p t.toTables d).length ≤ p.prefetchSlots := by
  have hnodup : (foreignExperts p t.toTables d).Nodup := nodup_range.filter _
  rw [← toFinset_card_of_nodup hnodup]
  refine (Finset.card_le_card fun e he => ?_).trans (h₀.slots d)
  obtain ⟨-, hne, hpos⟩ := mem_foreignExperts.1 (mem_toFinset.1 he)
  exact (h₀.remote d e).2 ⟨hne.symm, h.alloc ▸ hpos⟩

theorem alloc_le_groupSize {p : Params} (hp : p.Valid) (t : Tables) {e : ℕ} (he : e < p.expertNum)
    (d : ℕ) : t.alloc d e ≤ groupSize p t d (groupOf p t d e) := by
  rw [groupSize_groupOf he]; exact le_roundUp hp.paddingPos _

/-- The plan puts a route of `rank`, given by its expert and ordinal, at `place`: in the expert's group
on the destination, at the offset the transfer log gives it. -/
def Lands (p : Params) (t : RefState) (rank e ordinal : ℕ) (place : ℕ × ℕ) : Prop :=
  ∃ j, Sends (transfers t.segments) (rank, e) ordinal (place.1, e) j ∧
    place.2 = blockStart (groupSize p t.toTables place.1) (groupOf p t.toTables place.1 e) + j

section Lands
variable {p : Params} (hp : p.Valid) {t₀ t : RefState} (hs : Settled p t₀ t)
  {rank rank' e e' o o' : ℕ} {place : ℕ × ℕ}
include hs

theorem sends_lt_alloc {d j : ℕ} (he : e < p.expertNum)
    (h : Sends (transfers t.segments) (rank, e) o (d, e) j) : j < t.alloc d e := by
  rw [← hs.dstTotal d he]; exact hs.log.chained.sends_lt_dst h

theorem sends_inRange {d j : ℕ} (h : Sends (transfers t.segments) (rank, e) o (d, e) j) :
    rank < p.rankSize ∧ d < p.rankSize := by
  obtain ⟨x, hx, hsrc, hdst, -⟩ := h
  obtain ⟨m, hm, rfl⟩ := mem_map.1 hx
  obtain ⟨h1, h2, -⟩ := hs.log.inRange m hm
  simp only [TokenSegmentMove.toTransfer, Prod.mk.injEq] at hsrc hdst
  exact ⟨hsrc.1 ▸ h1, hdst.1 ▸ h2⟩

include hp

theorem Lands.injective (he : e < p.expertNum) (he' : e' < p.expertNum) (h : Lands p t rank e o place)
    (h' : Lands p t rank' e' o' place) : rank = rank' ∧ e = e' ∧ o = o' := by
  obtain ⟨j, hsend, hj⟩ := h
  obtain ⟨j', hsend', hj'⟩ := h'
  have hlt := (sends_lt_alloc hs he hsend).trans_le (alloc_le_groupSize hp t.toTables he _)
  have hlt' := (sends_lt_alloc hs he' hsend').trans_le (alloc_le_groupSize hp t.toTables he' _)
  obtain ⟨hgroup, rfl⟩ := block_unique hlt hlt' (hj ▸ hj')
  -- one group holds one expert
  have hexp := groupExpert_groupOf (p := p) (t := t.toTables) place.1 he
  rw [hgroup, groupExpert_groupOf _ he'] at hexp
  obtain rfl := Option.some.inj hexp
  obtain ⟨hrank, rfl⟩ := hs.log.chained.sends_injective hsend hsend'
  exact ⟨(Prod.mk.inj hrank).1, rfl, rfl⟩

/-- A route stays below the end of its destination's groups. -/
theorem Lands.lt_paddedSum (hfit : ∀ d, (foreignExperts p t.toTables d).length ≤ p.prefetchSlots)
    (he : e < p.expertNum) (h : Lands p t rank e o place) : place.2 < paddedSum p t.toTables place.1 := by
  obtain ⟨j, hsend, hj⟩ := h
  have hlt := (sends_lt_alloc hs he hsend).trans_le (alloc_le_groupSize hp t.toTables he _)
  have hend := blockStart_add_le (groupSize p t.toTables place.1) (groupOf_lt he (hfit place.1))
  rw [paddedSum]; omega

omit hp

theorem lands_onto (he : e < p.expertNum) {d j : ℕ} (hj : j < t.alloc d e) :
    ∃ rank < p.rankSize, ∃ o < p.tokensPerExpert rank e, Lands p t rank e o
      (d, blockStart (groupSize p t.toTables d) (groupOf p t.toTables d e) + j) := by
  rw [← hs.dstTotal d he] at hj
  obtain ⟨⟨rank, e'⟩, o, hsend⟩ := hs.log.chained.sends_onto hj
  obtain rfl : e' = e := by
    obtain ⟨x, hx, hsrc, hdst, -⟩ := hsend
    obtain ⟨m, hm, rfl⟩ := mem_map.1 hx
    exact (Prod.mk.inj hsrc).2.symm.trans (Prod.mk.inj hdst).2
  have hrank := (sends_inRange hs hsend).1
  refine ⟨rank, hrank, o, ?_, j, hsend, rfl⟩
  rw [← hs.srcTotal hrank he]
  exact hs.log.chained.sends_lt hsend

end Lands

/-! ## The look-up of one rank -/

/-- The segment of an ordinal, found among the segments of its own rank. -/
theorem matchSegment_own {p : Params} {t : Tables} {segments : List TokenSegmentMove} (h : LogOk p t segments)
    {rank e ordinal : ℕ} (ho : ordinal < srcTotal (transfers segments) (rank, e)) :
    ∃ m ∈ segments, matchSegment (segments.filter (·.srcRank = rank)) e ordinal = some m ∧
      m.srcRank = rank ∧ m.expertId = e ∧ m.srcExpertBegin ≤ ordinal ∧ ordinal < m.srcExpertBegin + m.tokenCount := by
  obtain ⟨x, hx, hsrc, hle, hlt⟩ := h.chained.src_covered ho
  obtain ⟨m, hm, rfl⟩ := mem_map.1 hx
  obtain ⟨hrank, hexp⟩ := Prod.mk.inj hsrc
  have hsome : (matchSegment (segments.filter (·.srcRank = rank)) e ordinal).isSome := by
    rw [matchSegment, List.find?_isSome]
    refine ⟨m, by simpa using ⟨hm, hrank⟩, ?_⟩
    simpa using ⟨⟨hexp, hle⟩, hlt⟩
  obtain ⟨m', hm'⟩ := Option.isSome_iff_exists.1 hsome
  have hmem := mem_of_find?_eq_some hm'
  have hprop := List.find?_some hm'
  simp only [mem_filter, decide_eq_true_eq] at hmem
  simp only [Bool.and_eq_true, decide_eq_true_eq] at hprop
  exact ⟨m', hmem.1, hm', hmem.2, hprop.1.1, hprop.1.2, hprop.2⟩

/-- Each route of a rank has its place, and the rank finds it from its own segments and layout. -/
theorem exists_places {c : Ctx} (hc : c.Valid) {t₀ t : RefState} (hs : Settled c.toParams t₀ t)
    (hfit : ∀ d, (foreignExperts c.toParams t.toTables d).length ≤ c.prefetchSlots)
    (hsum : ∀ d < c.rankSize, paddedSum c.toParams t.toTables d ≤ c.nvS) {o : Layout}
    (ho : LayoutOk c t.toTables c.rankSize o) :
    ∃ place, Places c (t.segments.filter (·.srcRank = c.rank)) o.expertPhysicalBase place ∧
      ∀ i < c.cap, Lands c.toParams t c.rank (c.topkExperts i)
        (routeCount c.topkExperts i (c.topkExperts i)) (place i) ∧ (place i).1 < c.rankSize := by
  have hroute : ∀ i, ∃ pl : ℕ × ℕ, i < c.cap →
      (∃ m, matchSegment (t.segments.filter (·.srcRank = c.rank)) (c.topkExperts i)
          (routeCount c.topkExperts i (c.topkExperts i)) = some m ∧
        pl = (m.dstRank, o.expertPhysicalBase m.dstRank (c.topkExperts i) + m.dstExpertBegin +
          (routeCount c.topkExperts i (c.topkExperts i) - m.srcExpertBegin))) ∧
      Lands c.toParams t c.rank (c.topkExperts i) (routeCount c.topkExperts i (c.topkExperts i)) pl ∧
        pl.1 < c.rankSize := by
    intro i
    by_cases hi : i < c.cap
    · set e := c.topkExperts i with hedef
      have he : e < c.expertNum := hc.route_lt i hi
      have hord : routeCount c.topkExperts i e < srcTotal (transfers t.segments) (c.rank, e) := by
        rw [hs.srcTotal hc.rank_lt he, hc.own e he]; exact ordinal_lt c.topkExperts hi
      obtain ⟨m, hm, hmatch, hrank, hexp, hle, hlt⟩ := matchSegment_own hs.log hord
      have hdst : m.dstRank < c.rankSize := (hs.log.inRange m hm).2.1
      refine ⟨_, fun _ => ⟨⟨m, hmatch, rfl⟩, ⟨m.dstExpertBegin + (routeCount c.topkExperts i e - m.srcExpertBegin),
        ⟨m.toTransfer, mem_map_of_mem hm, ?_, ?_, hle, hlt, rfl⟩, ?_⟩, hdst⟩⟩
      · simp only [TokenSegmentMove.toTransfer, hrank, hexp]
      · simp only [TokenSegmentMove.toTransfer, hexp]
      · dsimp only
        rw [ho.base _ hdst _ he, Nat.add_assoc]
    · exact ⟨(0, 0), fun h => absurd h hi⟩
  choose place hplace using hroute
  have hslot : ∀ i < c.cap, (place i).2 < c.nvS := fun i hi =>
    ((hplace i hi).2.1.lt_paddedSum hc.shared hs hfit (hc.route_lt i hi)).trans_le
      (hsum _ (hplace i hi).2.2)
  refine ⟨place, ⟨fun i hi => (hplace i hi).1, hslot, fun i hi => ?_⟩, fun i hi => (hplace i hi).2⟩
  have hrow : ((place i).1 + 1) * c.nvS ≤ c.rankSize * c.nvS :=
    Nat.mul_le_mul_right _ (hplace i hi).2.2
  have := hslot i hi
  have := hc.shared.range
  rw [Nat.add_mul, Nat.one_mul] at hrow
  omega

end TileXR.Plan
