import Mathlib.Data.Nat.Cast.Basic
import TileXR.Plan.Duplicates
import TileXR.Plan.Status

/-!
# What a rank receives

The routes of all ranks, decoded with `DecodeMoonEPDst` and collected per destination, are records
`BuildMoonEPDuplicateMetadata` takes in any order: one record per route, distinct slots, and for each
token exactly one primary record, the first by `topKId`. The metadata then describes the duplicates of
the destination, unless the `int32` index of a group overflows.
-/

namespace TileXR.Plan
open Lib List Nat
open Reference (Ledger RefState Settled)
variable {r : MoonEPReceivedRoute} {p : Params}

theorem planFrom_ok_built {c : Ctx} (h : (planFrom c).status = .ok) : (planFrom c).dst.isSome := by
  unfold planFrom at h ⊢
  dsimp only at h ⊢
  split at h
  · rename_i hf; exact absurd h hf
  rename_i hf
  rw [if_neg hf]
  dsimp only at h ⊢
  by_cases hl : (buildLayouts c (runMoves c).toTables).2 = .ok
  · rw [if_pos hl]; rfl
  · rw [if_neg hl] at h
    split at h
    · exact absurd h hl
    · unfold balanceStatus at h
      split at h
      · cases h
      · split at h <;> cases h

namespace Collective

def allRoutes (g : Collective) : List ((ℕ × ℕ) × ℕ) :=
  (allTokens g.params.rankSize g.params.s).flatMap fun token =>
    (List.range g.params.topK).map fun k => (token, k)

def encoded (g : Collective) (route : (ℕ × ℕ) × ℕ) : ℤ :=
  (g.run route.1.1).dstWritten (route.1.2 * g.params.topK + route.2)

/-- The record a route leaves on rank `d`, if it goes there. -/
def recordAt (g : Collective) (d : ℕ) (route : (ℕ × ℕ) × ℕ) : Option MoonEPReceivedRoute :=
  match decodeMoonEPDst (g.encoded route) g.params.nvS g.params.rankSize with
  | .error _ => none
  | .ok target =>
    if target.dstRank = d then
      some ⟨route.1.1, route.1.2, route.2, target.recvSlot, if 0 ≤ g.encoded route then 1 else 0⟩
    else none

def receivedRoutes (g : Collective) (d : ℕ) : List MoonEPReceivedRoute :=
  g.allRoutes.filterMap (g.recordAt d)

theorem mem_allRoutes {g : Collective} {route : (ℕ × ℕ) × ℕ} : route ∈ g.allRoutes ↔
    route.1.1 < g.params.rankSize ∧ route.1.2 < g.params.s ∧ route.2 < g.params.topK := by
  obtain ⟨⟨rank, token⟩, k⟩ := route
  simp [allRoutes, mem_allTokens, and_assoc]

theorem allRoutes_nodup (g : Collective) : g.allRoutes.Nodup := by
  rw [allRoutes, nodup_flatMap]
  refine ⟨fun _ _ => nodup_range.map fun a b h => (Prod.mk.inj h).2, ?_⟩
  refine (allTokens_nodup _ _).imp fun {a b} hne => ?_
  rw [Function.onFun, disjoint_left]
  intro x hx hx'
  obtain ⟨_, _, rfl⟩ := mem_map.1 hx
  obtain ⟨_, _, h⟩ := mem_map.1 hx'
  exact hne (Prod.mk.inj h).1.symm

theorem length_allRoutes (g : Collective) : g.allRoutes.length = g.params.rankSize * g.params.s * g.params.topK := by
  simp [allRoutes, allTokens, length_flatMap, Nat.mul_assoc]

theorem decodeMoonEPDst_encodeDst {nvS rankSize d slot : ℕ} (hR : rankSize ≤ 128)
    (hrange : rankSize * nvS ≤ int32Max) (hd : d < rankSize) (hslot : slot < nvS) (first : Bool) :
    decodeMoonEPDst (encodeDst first (d * nvS + slot)) nvS rankSize =
      .ok ⟨(d * nvS + slot : ℕ), d, slot, if first then 1 else 0, 1⟩ := by
  have hnvS : nvS ≤ int32Max := (Nat.le_mul_of_pos_left _ (by omega)).trans hrange
  have hprod : (rankSize * nvS : ℤ) ≤ int32Max := by exact_mod_cast hrange
  have hraw : (if 0 ≤ encodeDst first (d * nvS + slot) then encodeDst first (d * nvS + slot)
      else -encodeDst first (d * nvS + slot) - 1) = ((d * nvS + slot : ℕ) : ℤ) := by
    cases first
    · rw [if_neg (by rw [encodeDst_nonneg]; decide)]; simp [encodeDst]
    · rw [if_pos (by rw [encodeDst_nonneg])]; simp [encodeDst]
  have hdiv : ((d * nvS + slot : ℕ) : ℤ) / nvS = d := by
    rw [← Int.natCast_ediv, Nat.mul_comm, mul_add_div (by omega), div_eq_of_lt hslot,
      Nat.add_zero]
  have hmod : ((d * nvS + slot : ℕ) : ℤ) % nvS = slot := by
    rw [← Int.natCast_emod, Nat.mul_comm, mul_add_mod, mod_eq_of_lt hslot]
  have hsend : (if 0 ≤ encodeDst first (d * nvS + slot) then (1 : ℤ) else 0) =
      if first = true then 1 else 0 := by simp only [encodeDst_nonneg]
  unfold decodeMoonEPDst
  rw [if_neg (by omega)]
  dsimp only
  rw [hraw, hdiv, hmod, if_neg (by omega), hsend]

theorem receivedRoutes_nodup (g : Collective) (d : ℕ) : (g.receivedRoutes d).Nodup := by
  refine g.allRoutes_nodup.filterMap ?_
  rintro ⟨⟨rank, token⟩, k⟩ ⟨⟨rank', token'⟩, k'⟩ r hr hr'
  -- a record names its route
  have hname : ∀ {route : (ℕ × ℕ) × ℕ} {r : MoonEPReceivedRoute}, g.recordAt d route = some r →
      r.srcRank = route.1.1 ∧ r.tokenId = route.1.2 ∧ r.topKId = route.2 := by
    intro route r hrec
    unfold recordAt at hrec
    split at hrec
    · cases hrec
    · split at hrec
      · obtain rfl := Option.some.inj hrec; exact ⟨rfl, rfl, rfl⟩
      · cases hrec
  obtain ⟨h1, h2, h3⟩ := hname hr
  obtain ⟨h1', h2', h3'⟩ := hname hr'
  simp only [Prod.mk.injEq]
  dsimp only at h1 h2 h3 h1' h2' h3'
  omega

theorem exists_firstVisit {place : ℕ → ℕ × ℕ} {topK d token k : ℕ} (hk : k < topK)
    (hd : (place (token * topK + k)).1 = d) : ∃ k₀ < topK, (place (token * topK + k₀)).1 = d ∧
      firstVisit topK place token k₀ = true ∧ (∀ k' < topK, (place (token * topK + k')).1 = d → k₀ ≤ k') ∧
      ∀ k' < topK, (place (token * topK + k')).1 = d → firstVisit topK place token k' = true → k' = k₀ := by
  have hex : ∃ k', (place (token * topK + k')).1 = d := ⟨k, hd⟩
  have hfirst : ∀ k', firstVisit topK place token k' = true ↔
      ∀ prior < k', (place (token * topK + prior)).1 ≠
        (place (token * topK + k')).1 := by
    intro k'; simp [firstVisit]
  have hspec := Nat.find_spec hex
  refine ⟨Nat.find hex, (Nat.find_min' hex hd).trans_lt hk, hspec, (hfirst _).2 fun prior hp hsame =>
    Nat.find_min hex hp (hsame.trans hspec), fun k' _ hd' => Nat.find_min' hex hd', fun k' _ hd' hf => ?_⟩
  by_contra hne
  have hlt : Nat.find hex < k' := lt_of_le_of_ne (Nat.find_min' hex hd') (Ne.symm hne)
  exact (hfirst k').1 hf _ hlt (hspec.trans hd'.symm)

section Received
variable {g : Collective} {place : ℕ → ℕ → ℕ × ℕ} {t₀ : RefState} (h : Sliced g place t₀)
include h

/-- Rank and slot of a route, and whether it is the token's first to that rank. -/
theorem Sliced.encoded_eq {rank token k : ℕ} (hr : rank < g.params.rankSize) (ht : token < g.params.s)
    (hk : k < g.params.topK) : g.encoded ((rank, token), k) =
      encodeDst (firstVisit g.params.topK (place rank) token k)
        ((place rank (token * g.params.topK + k)).1 * g.params.nvS + (place rank (token * g.params.topK + k)).2) :=
  (h.slice rank hr).dst token ht k hk

theorem Sliced.route_lt {token k : ℕ} (ht : token < g.params.s) (hk : k < g.params.topK) :
    token * g.params.topK + k < g.params.cap := token_route_lt (c := g.ctx 0) h.valid.cap_eq ht hk

theorem Sliced.recordAt_eq {rank token k : ℕ} (hr : rank < g.params.rankSize) (ht : token < g.params.s)
    (hk : k < g.params.topK) (d : ℕ) : g.recordAt d ((rank, token), k) =
      if (place rank (token * g.params.topK + k)).1 = d then
        some ⟨rank, token, k, (place rank (token * g.params.topK + k)).2,
          if firstVisit g.params.topK (place rank) token k then 1 else 0⟩
      else none := by
  have hi := h.route_lt ht hk
  have hdec := decodeMoonEPDst_encodeDst h.valid.rankLe h.valid.range
    ((h.slice rank hr).lands _ hi).2 ((h.slice rank hr).slot _ hi)
    (firstVisit g.params.topK (place rank) token k)
  unfold recordAt
  rw [h.encoded_eq hr ht hk, hdec]
  dsimp only
  simp only [encodeDst_nonneg, Int.natCast_inj]

theorem Sliced.mem_receivedRoutes {d : ℕ} : r ∈ g.receivedRoutes d ↔
    ∃ rank < g.params.rankSize, ∃ token < g.params.s, ∃ k < g.params.topK,
      (place rank (token * g.params.topK + k)).1 = d ∧
      r = ⟨rank, token, k, (place rank (token * g.params.topK + k)).2,
        if firstVisit g.params.topK (place rank) token k then 1 else 0⟩ := by
  rw [receivedRoutes, mem_filterMap]
  constructor
  · rintro ⟨⟨⟨rank, token⟩, k⟩, hroute, hrec⟩
    obtain ⟨hr, ht, hk⟩ := mem_allRoutes.1 hroute
    rw [h.recordAt_eq hr ht hk] at hrec
    split at hrec
    · rename_i hd
      exact ⟨rank, hr, token, ht, k, hk, hd, (Option.some.inj hrec).symm⟩
    · cases hrec
  · rintro ⟨rank, hr, token, ht, k, hk, hd, rfl⟩
    exact ⟨((rank, token), k), mem_allRoutes.2 ⟨hr, ht, hk⟩, by
      rw [h.recordAt_eq hr ht hk, if_pos hd]⟩

theorem Sliced.slot_injective {d rank rank' token token' k k' : ℕ} (hr : rank < g.params.rankSize)
    (hr' : rank' < g.params.rankSize) (ht : token < g.params.s) (ht' : token' < g.params.s) (hk : k < g.params.topK)
    (hk' : k' < g.params.topK) (hd : (place rank (token * g.params.topK + k)).1 = d)
    (hd' : (place rank' (token' * g.params.topK + k')).1 = d) (hslot : (place rank (token * g.params.topK + k)).2 =
      (place rank' (token' * g.params.topK + k')).2) : rank = rank' ∧ token = token' ∧ k = k' := by
  have hi := h.route_lt ht hk
  have hi' := h.route_lt ht' hk'
  have hraw : g.raw rank (token * g.params.topK + k) = g.raw rank' (token' * g.params.topK + k') := by
    rw [h.raw_eq hr hi, h.raw_eq hr' hi', hd, hd', hslot]
  obtain ⟨rfl, hroute⟩ := h.onePlan.injective rank hr rank' hr' _ hi _ hi' hraw
  exact ⟨rfl, route_injective hk hk' hroute⟩

variable {d : ℕ} {records : List MoonEPReceivedRoute} (hperm : records.Perm (g.receivedRoutes d))
include hperm

theorem Sliced.mem_tokenRoutes_iff {token : ℕ × ℕ} :
    r ∈ tokenRoutes records token ↔ (token.1 < g.params.rankSize ∧ token.2 < g.params.s) ∧
      ∃ k < g.params.topK, (place token.1 (token.2 * g.params.topK + k)).1 = d ∧
        r = ⟨token.1, token.2, k, (place token.1 (token.2 * g.params.topK + k)).2,
          if firstVisit g.params.topK (place token.1) token.2 k then 1 else 0⟩ := by
  rw [mem_tokenRoutes, hperm.mem_iff, h.mem_receivedRoutes]
  constructor
  · rintro ⟨⟨rank, hr, t, ht, k, hk, hd, rfl⟩, h1, h2⟩
    obtain ⟨src, tok⟩ := token
    obtain rfl : rank = src := by dsimp only at h1; omega
    obtain rfl : t = tok := by dsimp only at h2; omega
    exact ⟨⟨hr, ht⟩, k, hk, hd, rfl⟩
  · rintro ⟨⟨hr, ht⟩, k, hk, hd, rfl⟩
    exact ⟨⟨_, hr, _, ht, k, hk, hd, rfl⟩, rfl, rfl⟩

/-- A token that reaches `d` has one primary record there, the first by `topKId`. -/
theorem Sliced.primary_first {token : ℕ × ℕ} (hne : tokenRoutes records token ≠ []) :
    ∃ r, primariesOf records token = [r] ∧ ∀ r' ∈ tokenRoutes records token, r.topKId ≤ r'.topKId := by
  obtain ⟨r₁, hr₁⟩ := exists_mem_of_ne_nil _ hne
  obtain ⟨htok, k₁, hk₁, hd₁, -⟩ := (h.mem_tokenRoutes_iff hperm).1 hr₁
  obtain ⟨k₀, hk₀, hd₀, hfirst, hmin, huniq⟩ := exists_firstVisit hk₁ hd₁
  have hnodup : (primariesOf records token).Nodup :=
    ((hperm.nodup_iff.2 (g.receivedRoutes_nodup d)).filter _).filter _
  refine ⟨⟨token.1, token.2, k₀, (place token.1 (token.2 * g.params.topK + k₀)).2, 1⟩, ?_, ?_⟩
  · refine perm_singleton.1 ((perm_ext_iff_of_nodup hnodup (nodup_singleton _)).2 fun r => ?_)
    rw [primariesOf, mem_filter, h.mem_tokenRoutes_iff hperm, mem_singleton, decide_eq_true_eq]
    constructor
    · rintro ⟨⟨-, k, hk, hd, rfl⟩, hp⟩
      have hfv : firstVisit g.params.topK (place token.1) token.2 k = true := by
        by_contra hno
        exact hp (if_neg hno)
      obtain rfl := huniq k hk hd hfv
      rw [if_pos hfv]
    · rintro rfl
      exact ⟨⟨htok, k₀, hk₀, hd₀, by rw [if_pos hfirst]⟩, Int.one_ne_zero⟩
  · intro r' hr'
    obtain ⟨-, k', hk', hd', rfl⟩ := (h.mem_tokenRoutes_iff hperm).1 hr'
    have := hmin k' hk' hd'
    dsimp only
    omega

theorem Sliced.recordsOk : RecordsOk records g.params.rankSize g.params.s g.params.topK g.params.nvS := by
  have hmem := fun r (hr : r ∈ records) => h.mem_receivedRoutes.1 (hperm.mem_iff.1 hr)
  have hnodup : records.Nodup := hperm.nodup_iff.2 (g.receivedRoutes_nodup d)
  refine
    { srcRank := fun r hr => ?_, tokenId := fun r hr => ?_, topKId := fun r hr => ?_
      recvSlot := fun r hr => ?_, isPrimary := fun r hr => ?_, routes := ?_, slots := ?_
      primary := fun token hne => ?_, count := ?_ }
  · obtain ⟨rank, hrank, token, ht, k, hk, -, rfl⟩ := hmem r hr; exact ⟨rank, hrank, rfl⟩
  · obtain ⟨rank, hrank, token, ht, k, hk, -, rfl⟩ := hmem r hr; exact ⟨token, ht, rfl⟩
  · obtain ⟨rank, hrank, token, ht, k, hk, -, rfl⟩ := hmem r hr; exact ⟨k, hk, rfl⟩
  · obtain ⟨rank, hrank, token, ht, k, hk, -, rfl⟩ := hmem r hr
    exact ⟨_, (h.slice rank hrank).slot _ (h.route_lt ht hk), rfl⟩
  · obtain ⟨rank, hrank, token, ht, k, hk, -, rfl⟩ := hmem r hr
    dsimp only
    split
    · exact .inr rfl
    · exact .inl rfl
  · -- records of one route are one record
    refine hnodup.imp_of_mem fun {r r'} hr hr' hne => ?_
    obtain ⟨rank, hrank, token, ht, k, hk, -, rfl⟩ := hmem r hr
    obtain ⟨rank', hrank', token', ht', k', hk', -, rfl⟩ := hmem r' hr'
    by_contra hsame
    simp only [sameRoute, Bool.not_eq_false, Bool.and_eq_true, decide_eq_true_eq, Int.natCast_inj] at hsame
    obtain ⟨⟨rfl, rfl⟩, rfl⟩ := hsame
    exact hne rfl
  · refine hnodup.map_on fun r hr r' hr' hslot => ?_
    obtain ⟨rank, hrank, token, ht, k, hk, hd, rfl⟩ := hmem r hr
    obtain ⟨rank', hrank', token', ht', k', hk', hd', rfl⟩ := hmem r' hr'
    obtain ⟨rfl, rfl, rfl⟩ := h.slot_injective hrank hrank' ht ht' hk hk' hd hd'
      (Int.natCast_inj.1 hslot)
    rfl
  · obtain ⟨r, hr, -⟩ := h.primary_first hperm hne
    rw [hr]; rfl
  · rw [hperm.length_eq, ← g.length_allRoutes]
    exact length_filterMap_le ..

end Received

/-- What downstream makes of the records of rank `d`: every entry of `dst` decodes, each token that
reaches `d` has one primary record, the first by `topKId`, and the metadata describes the rest. -/
structure ReceivedWell (g : Collective) (d : ℕ) (records : List MoonEPReceivedRoute) : Prop where
  decodes : ∀ route ∈ g.allRoutes, ∃ target,
    decodeMoonEPDst (g.encoded route) g.params.nvS g.params.rankSize = .ok target
  primary : ∀ token, tokenRoutes records token ≠ [] → ∃ r, primariesOf records token = [r] ∧
    ∀ r' ∈ tokenRoutes records token, r.topKId ≤ r'.topKId
  metadata : ∃ st, buildMoonEPDuplicateMetadata records g.params.rankSize g.params.s g.params.topK
      g.params.nvS {} = some (st, .ok) ∧ ∃ tokens offset, Describes records st tokens offset

theorem Accepted.sliced_of_ok {g : Collective} (h : g.Accepted) (hR : 0 < g.params.rankSize)
    (hok : ∀ rank < g.params.rankSize, (g.run rank).status = .ok) : ∃ place t₀, Sliced g place t₀ := by
  refine h.sliced hR fun rank hr => ?_
  have hst := hok rank hr
  rw [h.run_eq hr] at hst ⊢
  exact planFrom_ok_built hst

theorem Sliced.receivedWell_iff {g : Collective} {place : ℕ → ℕ → ℕ × ℕ} {t₀ : RefState}
    (hs : Sliced g place t₀) {d : ℕ} {records : List MoonEPReceivedRoute}
    (hperm : records.Perm (g.receivedRoutes d)) : g.ReceivedWell d records ↔
      3 * (sharedTokens records (allTokens g.params.rankSize g.params.s)).length ≤ int32Max + 1 := by
  have hv := hs.valid
  have hcap : g.params.s * g.params.topK ≤ int32Max := by
    rw [← hv.cap_eq]; exact hv.cap_le.trans hv.nvS_le
  obtain ⟨hfit, hover⟩ := buildMoonEPDuplicateMetadata_spec (hs.recordsOk hperm)
    ⟨hv.rankPos, hv.rankLe⟩ hv.sPos ⟨hv.topKPos, hv.topKLe⟩
    ⟨hv.capPos.trans_le hv.cap_le, hv.nvS_le⟩ hcap
  constructor
  · intro hw
    by_contra hlt
    obtain ⟨st, hst, -⟩ := hw.metadata
    rw [hover (by omega)] at hst
    cases hst
  · intro hle
    obtain ⟨st, hst, hg⟩ := hfit hle
    refine ⟨?_, fun token hne => hs.primary_first hperm hne, st, hst, _, _, hg.describes (hs.recordsOk hperm)⟩
    rintro ⟨⟨rank, token⟩, k⟩ hroute
    obtain ⟨hr, ht, hk⟩ := mem_allRoutes.1 hroute
    have hi := hs.route_lt ht hk
    rw [hs.encoded_eq hr ht hk]
    exact ⟨_, decodeMoonEPDst_encodeDst hv.rankLe hv.range ((hs.slice rank hr).lands _ hi).2
      ((hs.slice rank hr).slot _ hi) _⟩

/-- The records of a plan all ranks report as `PLAN_OK` are handled well exactly when the index of the
last group fits an `int32`. -/
theorem receivedWell_iff_index_fits {g : Collective} (h : g.Accepted)
    (hok : ∀ rank < g.params.rankSize, (g.run rank).status = .ok) {d : ℕ} (hd : d < g.params.rankSize)
    {records : List MoonEPReceivedRoute} (hperm : records.Perm (g.receivedRoutes d)) :
    g.ReceivedWell d records ↔
      3 * (sharedTokens records (allTokens g.params.rankSize g.params.s)).length ≤ int32Max + 1 := by
  obtain ⟨place, t₀, hs⟩ := h.sliced_of_ok (Nat.zero_lt_of_lt hd) hok
  exact hs.receivedWell_iff hperm

end Collective

/-- Two ranks, one token each with two routes. Both routes of rank 0 go to expert 0, so rank 0 receives
the token of rank 0 twice. -/
def twoRoutes : Collective where
  shared :=
    { rank := 0, rankSize := 2, s := 1, topK := 2, expertNum := 2
      config := { rankTokenCapacity := 2, prefetchSlots := 1, nvS := 4 }
      topkExperts := fun _ => 0
      tokensPerExpert := fun i => if i = 0 ∨ i = 3 then 2 else 0
      globalRankIds := fun r => r }
  topkExperts rank _ := rank
  ptr _ := {}
  ws _ :=
    { tokenSegmentCapacity := 2, scratchCount := 32, affinityOrder := fun _ => []
      affinityOrderValid := false }

theorem twoRoutes_receivedWell : twoRoutes.ReceivedWell 0 (twoRoutes.receivedRoutes 0) ∧
    (sharedTokens (twoRoutes.receivedRoutes 0) (allTokens 2 1)).length = 1 :=
  ⟨(Collective.receivedWell_iff_index_fits (g := twoRoutes) ⟨by decide, fun _ _ => nofun⟩ (by decide) (by decide)
    (List.Perm.refl _)).2 (by decide), by decide⟩

/-! ## A single rank -/

theorem single_rank (hp : p.Valid) (hR : p.rankSize = 1) (aff : ℕ → List ℕ) :
    (∀ e < p.expertNum, (Reference.runMoves p aff).alloc 0 e = p.tokensPerExpert 0 e) ∧
      (Reference.runMoves p aff).rankLoad 0 = p.cap := by
  obtain ⟨t₀, hledger, hsettled⟩ := runMoves_settled hp aff
  have hhome : ∀ e < p.expertNum, p.homeRank e = 0 := fun e he => by
    have := hp.homeRank_lt he; omega
  have hsegs : t₀.segments = [] := by
    refine eq_nil_iff_forall_not_mem.2 fun m hm => ?_
    obtain ⟨-, hdst, he⟩ := hledger.log.inRange m hm
    exact hledger.away m hm (by rw [hhome _ he]; omega)
  have halloc : ∀ e < p.expertNum, t₀.alloc 0 e = p.tokensPerExpert 0 e := by
    intro e he
    have h1 := hledger.allocHome e
    have h2 := hledger.log.remaining 0 e
    rw [hhome e he, hR, Finset.sum_range_one] at h1
    rw [hsegs] at h2
    rw [h1, ← h2]
    rfl
  refine ⟨fun e he => by rw [hsettled.alloc]; exact halloc e he, ?_⟩
  rw [hsettled.rankLoad, hledger.load, ← hp.row 0 hp.rankPos]
  exact Finset.sum_congr rfl fun e he => halloc e (Finset.mem_range.1 he)

theorem single_rank_paddedSum (hp : p.Valid) (hR : p.rankSize = 1) (hpad : p.tokenPadding = 1)
    (t : Tables) : paddedSum p t 0 = ∑ e ∈ Finset.range p.expertNum, t.alloc 0 e := by
  have hrow : remoteRowOf p t 0 = [] := by
    refine eq_nil_iff_forall_not_mem.2 fun e he => ?_
    obtain ⟨he, hne, -⟩ := mem_remoteRowOf.1 he
    have := hp.homeRank_lt he
    omega
  have hsize : ∀ g, groupSize p t 0 g = if g < p.expertNum then t.alloc 0 g else 0 := by
    intro g
    rw [groupSize, hrow, hpad, roundUp, Nat.add_sub_cancel, Nat.div_one, Nat.mul_one, groupExpert]
    split <;> simp [groupCount]
  rw [paddedSum, blockStart, Finset.sum_range_add, Finset.sum_eq_zero (s := Finset.range p.prefetchSlots),
    Nat.add_zero]
  · exact Finset.sum_congr rfl fun e he => by rw [hsize, if_pos (Finset.mem_range.1 he)]
  · intro b _
    rw [hsize, if_neg (by omega)]

/-- One rank with one expert, and `s` tokens that each have two routes to it. -/
def oneRank (s : ℕ) : Collective where
  shared :=
    { rank := 0, rankSize := 1, s := s, topK := 2, expertNum := 1
      config := { rankTokenCapacity := s * 2, prefetchSlots := 1, nvS := s * 2 }
      topkExperts := fun _ => 0
      tokensPerExpert := fun _ => s * 2
      globalRankIds := fun _ => 0 }
  topkExperts _ _ := 0
  ptr _ := {}
  ws _ :=
    { tokenSegmentCapacity := s * 2, scratchCount := 16, affinityOrder := fun _ => []
      affinityOrderValid := false }

section oneRank
variable {s : ℕ} (hs : 0 < s) (hmax : s * 2 ≤ int32Max)
include hs hmax

theorem oneRank_valid : validate ((oneRank s).input 0) ((oneRank s).ptr 0) ((oneRank s).ws 0) = .ok := by
  have hmax' : (s : ℤ) * 2 ≤ int32Max := by omega
  have hpos : (0 : ℤ) ≤ (s : ℤ) * 2 := by omega
  have h1 : (1 : ℤ) ≤ 128 := by decide
  have h2 : (0 : ℤ) < 2 ∧ (2 : ℤ) ≤ 32 := by decide
  have h3 : (0 : ℤ) < 1 ∧ (1 : ℤ) ≤ int32Max := by decide
  have hshape := not_badShape (y := (oneRank s).input 0) (w := (oneRank s).ws 0) ⟨Int.one_pos, h1⟩
    ⟨le_rfl, Int.one_pos⟩ (Int.natCast_pos.2 hs) h2 h3 (Int.emod_self) le_rfl hmax'
  have hconfig := not_badConfig (y := (oneRank s).input 0) (w := (oneRank s).ws 0)
    ⟨rfl, h3, ⟨le_rfl, hmax'⟩, Int.one_pos, ⟨le_rfl, hpos⟩, ⟨rfl, rfl, rfl⟩, (Int.one_mul _).trans_le hmax'⟩ hpos
  refine (if_neg hshape).trans ((if_neg hconfig).trans ?_)
  have hcap : ((oneRank s).input 0).s * ((oneRank s).input 0).topK = (s * 2 : ℕ) := by
    simp [Collective.input, oneRank]
  rw [hcap]
  have hneg : ¬ (s : ℤ) * 2 < 0 := by omega
  simp [Collective.input, oneRank, badRankIds, checkRow, histogram, hneg]

theorem oneRank_accepted : (oneRank s).Accepted where
  valid rank hr := by
    obtain rfl : rank = 0 := lt_one_iff.1 hr
    exact oneRank_valid hs hmax
  cache _ _ := nofun

theorem oneRank_ok : ∀ rank < (oneRank s).params.rankSize, ((oneRank s).run rank).status = .ok := by
  intro rank hr
  obtain rfl : rank = 0 := lt_one_iff.1 hr
  have hacc := oneRank_accepted hs hmax
  have hv := hacc.ctxValid hr
  rw [hacc.run_eq hr]
  have hseg : ((oneRank s).ctx 0).cap ≤ ((oneRank s).ctx 0).tokenSegmentCapacity := le_rfl
  refine (planFrom_status hv (hacc.affinity_lt hr) hseg).ok.2 ?_
  have hsim := (sim_of_valid hv (hacc.affinity_lt hr)).resolve_right fun hover => by
    have := hover.2; omega
  obtain ⟨halloc, hload⟩ := single_rank hv.shared rfl ((oneRank s).ctx 0).affinityOrder
  rw [hsim.tables]
  refine ⟨fun d hd => ?_, fun d hd => ?_⟩
  · obtain rfl : d = 0 := lt_one_iff.1 hd
    exact hload
  · obtain rfl : d = 0 := lt_one_iff.1 hd
    have hsum : paddedSum ((oneRank s).ctx 0).toParams (Reference.runMoves ((oneRank s).ctx 0).toParams
        ((oneRank s).ctx 0).affinityOrder).toTables 0 = ((oneRank s).ctx 0).cap := by
      rw [single_rank_paddedSum hv.shared rfl rfl, ← hv.shared.row 0 hr]
      exact Finset.sum_congr rfl fun e he => halloc e (Finset.mem_range.1 he)
    exact hsum.le

theorem oneRank_shared : (sharedTokens ((oneRank s).receivedRoutes 0) (allTokens 1 s)).length = s := by
  have hacc := oneRank_accepted hs hmax
  obtain ⟨place, t₀, hsl⟩ := hacc.sliced_of_ok Nat.one_pos (oneRank_ok hs hmax)
  have hall : sharedTokens ((oneRank s).receivedRoutes 0) (allTokens 1 s) = allTokens 1 s := by
    refine filter_eq_self.2 fun token htok => ?_
    rw [decide_eq_true_eq]
    obtain ⟨h1, h2⟩ := mem_allTokens.1 htok
    have hd : ∀ k < 2, (place token.1 (token.2 * 2 + k)).1 = 0 := fun k hk =>
      lt_one_iff.1 ((hsl.slice _ h1).lands _ (hsl.route_lt h2 hk)).2
    -- both routes of the token arrive
    have hsub : [(⟨token.1, token.2, (0 : ℕ), (place token.1 (token.2 * 2 + 0)).2,
          if firstVisit 2 (place token.1) token.2 0 then 1 else 0⟩ : MoonEPReceivedRoute),
        ⟨token.1, token.2, (1 : ℕ), (place token.1 (token.2 * 2 + 1)).2,
          if firstVisit 2 (place token.1) token.2 1 then 1 else 0⟩] ⊆
        tokenRoutes ((oneRank s).receivedRoutes 0) token := by
      intro r hr
      rw [hsl.mem_tokenRoutes_iff (Perm.refl _)]
      rcases mem_cons.1 hr with rfl | hr
      · exact ⟨⟨h1, h2⟩, 0, Nat.zero_lt_two, hd 0 Nat.zero_lt_two, rfl⟩
      · rw [mem_singleton.1 hr]
        exact ⟨⟨h1, h2⟩, 1, Nat.one_lt_two, hd 1 Nat.one_lt_two, rfl⟩
    exact (subperm_of_subset (by simp) hsub).length_le
  rw [hall]
  simp [allTokens]

theorem oneRank_overflow (hbig : int32Max + 1 < 3 * s) :
    ¬ (oneRank s).ReceivedWell 0 ((oneRank s).receivedRoutes 0) := by
  intro hw
  obtain ⟨place, t₀, hsl⟩ := (oneRank_accepted hs hmax).sliced_of_ok Nat.one_pos (oneRank_ok hs hmax)
  have hfit : 3 * (sharedTokens ((oneRank s).receivedRoutes 0) (allTokens 1 s)).length ≤ int32Max + 1 :=
    (hsl.receivedWell_iff (Perm.refl _)).1 hw
  rw [oneRank_shared hs hmax] at hfit
  omega

end oneRank

/-- 715827883 tokens with two routes each on a single rank: the index of the last group overflows. -/
theorem oneRank_not_receivedWell : (oneRank 715827883).Accepted ∧
    (∀ rank < (oneRank 715827883).params.rankSize, ((oneRank 715827883).run rank).status = .ok) ∧
    ¬ (oneRank 715827883).ReceivedWell 0 ((oneRank 715827883).receivedRoutes 0) :=
  have hs : 0 < 715827883 := by decide
  have hmax : 715827883 * 2 ≤ int32Max := by decide
  ⟨oneRank_accepted hs hmax, oneRank_ok hs hmax, oneRank_overflow hs hmax (by decide)⟩

end TileXR.Plan
