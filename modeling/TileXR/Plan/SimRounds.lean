import Mathlib.Data.List.GetD
import TileXR.Plan.Sim

/-!
# The rounds of both planners correspond

Inside a server the reference planner pairs the positions of a list of members and asks each pair for
what the loads were before the round; the per-rank planner pairs ranks and asks for what the loads are.
Both are the same because a rank is in at most one pair of a round. Between servers the candidate scan
with its counter is the scan of the first three senders of the affinity row. With one round related,
`loop_sim` relates the phases, and `runMoves_sim` the whole move part.
-/

namespace TileXR.Plan
open Lib List Reference

variable {a : InterAcc} {pairs : List (ℕ × ℕ)} {items : List RankedLoad} {keys members : List ℕ}
  {previous : Option ℕ} {b : RefState × ℕ}
variable {cap : ℕ} {L : ℕ → ℕ} {p : Params} {c : Ctx} {s : State} {t : RefState}
  (haff : ∀ d, ∀ r ∈ c.affinityOrder d, r < c.rankSize)

/-! ## Pairs -/

theorem splitPoint_congr {f g : ℕ → ℕ} : ∀ {m : ℕ}, (∀ i ≤ m, f i = g i) → splitPoint cap f m = splitPoint cap g m
  | 0, _ => rfl
  | m + 1, h => by
    rw [splitPoint, splitPoint, h m (by omega), h (m + 1) le_rfl,
      splitPoint_congr fun i hi => h i (by omega)]

/-- A pair of positions as a pair of ranks, with what it asks for. -/
def globalPair (members : List ℕ) (pr : ReferenceRankPair) : ℕ × ℕ × ℕ :=
  (members.getD pr.srcRank 0, members.getD pr.dstRank 0, pr.requestedUnits)

theorem pairLoads_map {active : List RankedLoad} (hload : ∀ it ∈ active, it.load = L (members.getD it.rank 0)) :
    (pairLoads cap active).map (globalPair members) =
      ((pairRanks cap L (active.map fun it => members.getD it.rank 0)).getD []).map
        fun pr => (pr.1, pr.2, requestedUnits cap L pr.1 pr.2) := by
  set f : RankedLoad → ℕ := fun it => members.getD it.rank 0 with hf
  have hat : ∀ i < active.length,
      (active.getD i ⟨0, 0, 0⟩).load = L ((active.map f).getD i 0) := by
    intro i hi
    rw [getD_eq_getElem _ _ hi, getD_eq_getElem _ _ (by simpa using hi), getElem_map]
    exact hload _ (getElem_mem hi)
  unfold pairLoads pairRanks
  dsimp only
  rw [length_map]
  by_cases hc : active.length < 2
  · simp [hc]
  have h0 := hat 0 (by omega)
  have h1 := hat 1 (by omega)
  have hl := hat (active.length - 1) (by omega)
  have hs : splitPoint cap (fun i => (active.getD i ⟨0, 0, 0⟩).load) (active.length / 2) =
      splitPoint cap (fun i => L ((active.map f).getD i 0)) (active.length / 2) :=
    splitPoint_congr fun i hi => hat i (by omega)
  simp only [h0, h1, hl, hs]
  split
  · rfl
  split
  · rfl
  set m := splitPoint cap (fun i => L ((active.map f).getD i 0)) (active.length / 2) with hm
  have hsend : ((active.map f).take m).reverse.filter (cap < L ·) =
      ((active.take m).reverse.filter (cap < ·.load)).map f := by
    rw [← map_take, ← map_reverse, filter_map]
    congr 1
    refine filter_congr fun it hit => ?_
    rw [Function.comp, hload it (mem_of_mem_take (mem_reverse.1 hit))]
  have hrecv : ((active.map f).drop m).filter (L · < cap) =
      ((active.drop m).filter (·.load < cap)).map f := by
    rw [← map_drop, filter_map]
    congr 1
    refine filter_congr fun it hit => ?_
    rw [Function.comp, hload it (mem_of_mem_drop hit)]
  rw [hsend, hrecv, zip_map, Option.getD_some, map_map]
  have hall : ∀ pr ∈ ((active.take m).reverse.filter (cap < ·.load)).zip
      ((active.drop m).filter (·.load < cap)),
      pr.1 ∈ active ∧ pr.2 ∈ active ∧ cap < pr.1.load ∧ pr.2.load < cap := by
    intro pr hpr
    obtain ⟨ha, hb⟩ := of_mem_zip (show (pr.1, pr.2) ∈ _ from hpr)
    rw [mem_filter] at ha hb
    exact ⟨mem_of_mem_take (mem_reverse.1 ha.1), mem_of_mem_drop hb.1,
      by simpa using ha.2, by simpa using hb.2⟩
  generalize ((active.take m).reverse.filter (cap < ·.load)).zip
    ((active.drop m).filter (·.load < cap)) = pairs at hall
  induction pairs with
  | nil => rfl
  | cons pr pairs ih =>
    obtain ⟨ha, hb, hlt, hgt⟩ := hall pr mem_cons_self
    have hpos : 0 < min (pr.1.load - cap) (cap - pr.2.load) := by omega
    rw [filterMap_cons, if_pos hpos, map_cons, map_cons, ih fun q hq => hall q (mem_cons_of_mem _ hq)]
    congr 1
    simp only [globalPair, Function.comp, Prod.map, requestedUnits, hf, ← hload _ ha, ← hload _ hb]

theorem sortedMembers (L ids : ℕ → ℕ) (cap : ℕ) (hsorted : members.Pairwise (· < ·)) :
    let items := (List.range (members.map L).length).map fun i =>
      (⟨i, (members.map L).getD i 0, (members.map ids).getD i 0⟩ : RankedLoad)
    (∀ it ∈ items, it.load = L (members.getD it.rank 0)) ∧
    (stdSort heavier (items.filter (·.load ≠ cap))).map (fun it => members.getD it.rank 0) =
      insertSort (betterRank L ids false) (members.filter (L · ≠ cap)) := by
  intro items
  have hitems : ∀ it ∈ items, it.rank < members.length ∧ it.load = L (members.getD it.rank 0) ∧
      it.globalRankId = ids (members.getD it.rank 0) := by
    intro it hit
    obtain ⟨i, hi, rfl⟩ := mem_map.1 hit
    rw [mem_range, length_map] at hi
    exact ⟨hi, by simp [getD_eq_getElem?_getD, hi], by simp [getD_eq_getElem?_getD, hi]⟩
  refine ⟨fun it hit => (hitems it hit).2.1, ?_⟩
  have hmap : items.map (fun it => members.getD it.rank 0) = members := by
    refine ext_getElem (by simp [items]) fun i hi hi' => ?_
    simp [items, getD_eq_getElem?_getD, hi']
  have hfilter : (items.filter (·.load ≠ cap)).map (fun it => members.getD it.rank 0) =
      members.filter (L · ≠ cap) := by
    conv_rhs => rw [← hmap, filter_map]
    congr 1
    refine filter_congr fun it hit => ?_
    simp [(hitems it hit).2.1]
  rw [insertSort_eq_stdSort (betterRank_strict _ _ _), ← hfilter]
  refine map_stdSort _ _ fun a ha b hb => ?_
  obtain ⟨har, hal, hag⟩ := hitems a (mem_of_mem_filter ha)
  obtain ⟨hbr, hbl, hbg⟩ := hitems b (mem_of_mem_filter hb)
  have hlt : a.rank < b.rank ↔ members.getD a.rank 0 < members.getD b.rank 0 := by
    rw [getD_eq_getElem _ _ har, getD_eq_getElem _ _ hbr]
    have hmono := pairwise_iff_getElem.1 hsorted
    refine ⟨hmono _ _ har hbr, fun hlt => ?_⟩
    rcases lt_trichotomy a.rank b.rank with h | h | h
    · exact h
    · simp only [h, lt_irrefl] at hlt
    · exact absurd (hmono _ _ hbr har h) hlt.not_gt
  unfold heavier betterRank
  rw [hal, hbl, hag, hbg]
  simp [hlt]

/-! ## Rounds inside a server -/

theorem membersOf_sorted (p : Params) (key : ℕ) : (membersOf p key).Pairwise (· < ·) :=
  Pairwise.filter _ pairwise_lt_range

theorem activeInServer_eq (p : Params) (t : Tables) (key : ℕ) :
    activeInServer p t key = (membersOf p key).filter (t.rankLoad · ≠ p.cap) := by
  rw [activeInServer, membersOf, filter_filter]
  refine filter_congr fun r _ => ?_
  rw [Bool.and_comm]

theorem buildIntraServerPairs_eq (hcap : p.cap ≠ 0) (t : Tables) (key : ℕ) :
    ∃ pairs, buildIntraServerPairs ((membersOf p key).map t.rankLoad)
        ((membersOf p key).map p.globalRankIds) p.cap = some pairs ∧ pairs.map (globalPair (membersOf p key)) =
        ((pairRanks p.cap t.rankLoad (insertSort (betterRank t.rankLoad p.globalRankIds false)
          (activeInServer p t key))).getD []).map
          fun pr => (pr.1, pr.2, requestedUnits p.cap t.rankLoad pr.1 pr.2) := by
  unfold buildIntraServerPairs
  rw [if_neg (by simp [hcap])]
  refine ⟨_, rfl, ?_⟩
  obtain ⟨hload, hsort⟩ := sortedMembers t.rankLoad p.globalRankIds p.cap (membersOf_sorted p key)
  rw [pairLoads_map fun it hit => hload it (mem_of_mem_filter (mem_stdSort.1 hit)), hsort, ← activeInServer_eq]

def moveCurrent (p : Params) (aff : ℕ → List ℕ) (b : RefState × ℕ) (pr : ℕ × ℕ) : RefState × ℕ :=
  let r := Reference.applyExpertMove p aff b.1 pr.1 pr.2
    (requestedUnits p.cap b.1.rankLoad pr.1 pr.2)
  (r.1, b.2 + r.2)

/-- The requests of a round may be read off the loads before the round or off the current ones: every
rank is in at most one pair. -/
theorem foldl_snapshot (p : Params) (aff : ℕ → List ℕ) {senders receivers : List ℕ} (hs : senders.Nodup)
    (hr : receivers.Nodup) (hdis : senders.Disjoint receivers)
    (hb : ∀ r, r ∈ senders ∨ r ∈ receivers → b.1.rankLoad r = L r) :
    ((senders.zip receivers).map fun pr => (pr.1, pr.2, requestedUnits p.cap L pr.1 pr.2)).foldl
        (fun b q => let r := Reference.applyExpertMove p aff b.1 q.1 q.2.1 q.2.2
          (r.1, b.2 + r.2)) b =
      (senders.zip receivers).foldl (moveCurrent p aff) b := by
  induction senders generalizing receivers b with
  | nil => rfl
  | cons x senders ih =>
    cases receivers with
    | nil => rfl
    | cons y receivers =>
      obtain ⟨hx, hs⟩ := nodup_cons.1 hs
      obtain ⟨hy, hr⟩ := nodup_cons.1 hr
      have hreq : requestedUnits p.cap L x y = requestedUnits p.cap b.1.rankLoad x y := by
        rw [requestedUnits, requestedUnits, hb x (.inl mem_cons_self), hb y (.inr mem_cons_self)]
      rw [zip_cons_cons, map_cons, foldl_cons, foldl_cons, hreq]
      rw [ih hs hr (fun r h1 h2 => hdis (mem_cons_of_mem _ h1) (mem_cons_of_mem _ h2)) fun r hmem => ?_]
      · rfl
      · have hm := (Reference.applyExpertMove_load p aff b.1 x y (requestedUnits p.cap b.1.rankLoad x y)).2
        have hrx : r ≠ x := by
          rintro rfl
          exact hmem.elim hx fun h => hdis mem_cons_self (mem_cons_of_mem _ h)
        have hry : r ≠ y := by
          rintro rfl
          exact hmem.elim (fun h => hdis (mem_cons_of_mem _ h) mem_cons_self) hy
        have := hm.apply r
        rw [if_neg hrx, if_neg hry] at this
        dsimp only
        rw [this, ← hb r (hmem.imp (mem_cons_of_mem _) (mem_cons_of_mem _))]
        rfl

theorem pairRanks_zip {active : List ℕ} (hnd : active.Nodup) (h : pairRanks cap L active = some pairs) :
    ∃ senders receivers : List ℕ, pairs = senders.zip receivers ∧ senders.Nodup ∧ receivers.Nodup ∧
      senders.Disjoint receivers := by
  unfold pairRanks at h
  dsimp only at h
  split at h
  · cases h
  split at h
  · cases h
  refine ⟨_, _, (Option.some.inj h).symm, (nodup_reverse.2 (hnd.sublist (take_sublist ..))).filter _,
    (hnd.sublist (drop_sublist ..)).filter _, ?_⟩
  exact disjoint_of_subset_left
    (fun x hx => mem_reverse.1 (mem_of_mem_filter hx))
    (disjoint_of_subset_right (fun x hx => mem_of_mem_filter hx) (disjoint_take_drop hnd le_rfl))

include haff in
theorem movePairs_sim (hp : ∀ pr ∈ pairs, pr.1 < c.rankSize) {a : State × ℕ} (h : Sim c a.1 b.1) (heq : a.2 = b.2) :
    (Sim c (pairs.foldl (movePair c) a).1 (pairs.foldl (moveCurrent c.toParams c.affinityOrder) b).1 ∧
      (pairs.foldl (movePair c) a).2 = (pairs.foldl (moveCurrent c.toParams c.affinityOrder) b).2) ∨
    Overflown c (pairs.foldl (movePair c) a).1 := by
  refine foldl_rel (r := fun (a : State × ℕ) (b : RefState × ℕ) =>
    (Sim c a.1 b.1 ∧ a.2 = b.2) ∨ Overflown c a.1) (.inl ⟨h, heq⟩) fun pr hpr a b hab => ?_
  unfold movePair
  rcases hab with ⟨h, heq⟩ | hov
  · rw [if_neg (not_not.2 h.fatal), h.tables, heq]
    rcases applyExpertMove_sim haff h (hp pr hpr) pr.2 (requestedUnits c.cap b.1.rankLoad pr.1 pr.2) with
      ⟨h', heq'⟩ | hov
    · exact .inl ⟨h', congrArg (b.2 + ·) heq'⟩
    · exact .inr hov
  · rw [if_pos hov.1]
    exact .inr hov

theorem sortRanks_eq {ranks : List ℕ} {ids : ℕ → ℕ} {n : ℕ} {asc : Bool} (hlen : ranks.length ≤ n)
    (hlt : ∀ r ∈ ranks, r < n) : sortRanks ranks L ids n asc = some (insertSort (betterRank L ids asc) ranks) := by
  unfold sortRanks
  rw [if_neg (by omega), if_neg]
  simp only [any_eq_true, decide_eq_true_eq, not_exists, not_and, not_le]
  exact hlt

theorem activeInServer_nodup (p : Params) (t : Tables) (key : ℕ) : (activeInServer p t key).Nodup :=
  nodup_range.filter _

theorem activeInServer_length (p : Params) (t : Tables) (key : ℕ) : (activeInServer p t key).length ≤ p.rankSize :=
  (length_filter_le ..).trans (by simp)

theorem Sim.blocked (h : Sim c s t) :
    Sim c { s with pairBlock := true }
      { t with roundCounter := t.roundCounter + 1, sawRouteOrPairBlock := true } := { h with }

theorem Sim.nextIntra (h : Sim c s t) :
    Sim c { s with intraRounds := s.intraRounds + 1 }
      { t with roundCounter := t.roundCounter + 1, intraRounds := t.intraRounds + 1 } :=
  { h with intraRounds := by rw [h.intraRounds] }

theorem Sim.nextInter (h : Sim c s t) :
    Sim c { s with interRounds := s.interRounds + 1 }
      { t with roundCounter := t.roundCounter + 1, interRounds := t.interRounds + 1 } :=
  { h with interRounds := by rw [h.interRounds] }

def serverPairs (p : Params) (t : Tables) (key : ℕ) : List (ℕ × ℕ) :=
  (pairRanks p.cap t.rankLoad (insertSort (betterRank t.rankLoad p.globalRankIds false)
    (activeInServer p t key))).getD []

theorem mem_serverPairs {t : Tables} (key : ℕ) (pr : ℕ × ℕ) (h : pr ∈ serverPairs p t key) :
    pr.1 < p.rankSize ∧ pr.2 < p.rankSize ∧ pr.1 ≠ pr.2 := by
  unfold serverPairs at h
  cases hpairs : pairRanks p.cap t.rankLoad (insertSort (betterRank t.rankLoad p.globalRankIds false)
    (activeInServer p t key)) with
  | none => rw [hpairs] at h; simp at h
  | some pairs =>
    rw [hpairs, Option.getD_some] at h
    obtain ⟨⟨hsrc, h1⟩, hdst, h3⟩ := pairRanks_mem hpairs h
    exact ⟨mem_activeInServer (mem_insertSort.1 hsrc), mem_activeInServer (mem_insertSort.1 hdst),
      fun he => by rw [he] at h1; omega⟩

/-- A round of the reference planner, in terms of ranks and current loads. -/
theorem refIntraRound_eq (hcap : p.cap ≠ 0) (aff : ℕ → List ℕ) (key : ℕ) (t : RefState) :
    Reference.intraRound p aff (membersOf p key) t =
      if (serverPairs p t.toTables key).isEmpty then .done t
      else
        let r := (serverPairs p t.toTables key).foldl (moveCurrent p aff) (t, 0)
        let t := { r.1 with roundCounter := r.1.roundCounter + 1 }
        if r.2 = 0 then .done { t with sawRouteOrPairBlock := true }
        else .next { t with intraRounds := t.intraRounds + 1 } := by
  unfold Reference.intraRound
  obtain ⟨lp, hlp, hmap⟩ := buildIntraServerPairs_eq hcap t.toTables key
  rw [hlp]
  dsimp only
  change lp.map (globalPair (membersOf p key)) = (serverPairs p t.toTables key).map _ at hmap
  have hnil : lp.isEmpty = (serverPairs p t.toTables key).isEmpty := by
    have := congrArg List.isEmpty hmap; simpa using this
  have hfold : lp.foldl (Reference.movePair p aff (membersOf p key)) (t, 0) =
      (serverPairs p t.toTables key).foldl (moveCurrent p aff) (t, 0) := by
    obtain ⟨S, R, hSR, hS, hR, hdis⟩ : ∃ S R : List ℕ, serverPairs p t.toTables key = S.zip R ∧
        S.Nodup ∧ R.Nodup ∧ S.Disjoint R := by
      unfold serverPairs
      cases hpairs : pairRanks p.cap t.rankLoad (insertSort (betterRank t.rankLoad p.globalRankIds
        false) (activeInServer p t.toTables key)) with
      | none => exact ⟨[], [], rfl, nodup_nil, nodup_nil, disjoint_nil_left _⟩
      | some pairs => exact pairRanks_zip (nodup_insertSort.2 (activeInServer_nodup ..)) hpairs
    have hsnap := foldl_snapshot p aff hS hR hdis (b := (t, 0)) (L := t.rankLoad) fun _ _ => rfl
    rw [← hSR, ← hmap, foldl_map] at hsnap
    exact hsnap
  rw [hnil, hfold]

include haff in
theorem intraRound_sim (hcap : c.cap ≠ 0) (key : ℕ) (h : Sim c s t) :
    StepRel (Sim c) (Overflown c) (intraRound c key s)
      (Reference.intraRound c.toParams c.affinityOrder (membersOf c.toParams key) t) := by
  rw [refIntraRound_eq hcap]
  have hmem := mem_serverPairs (p := c.toParams) (t := t.toTables) key
  unfold intraRound
  unfold serverPairs at hmem ⊢
  rw [h.tables, sortRanks_eq (activeInServer_length ..) fun r hr => mem_activeInServer hr]
  dsimp only
  cases hpairs : pairRanks c.cap t.rankLoad (insertSort (betterRank t.rankLoad c.globalRankIds false)
    (activeInServer c.toParams t.toTables key)) with
  | none => exact .done h
  | some pairs =>
    rw [hpairs, Option.getD_some] at hmem
    rw [Option.getD_some]
    dsimp only
    rcases movePairs_sim haff (fun pr hpr => (hmem pr hpr).1) (a := (s, 0)) (b := (t, 0)) h rfl with
      ⟨h', heq⟩ | hov
    · rw [if_neg (not_not.2 h'.fatal), heq]
      cases hempty : pairs.isEmpty with
      | true =>
        obtain rfl := isEmpty_iff.1 hempty
        exact .done { h with }
      | false =>
        simp only [Bool.false_eq_true, if_false]
        split
        · exact .done h'.blocked
        · exact .next h'.nextIntra
    · rw [if_pos hov.1]; exact .stop hov _

theorem moveCurrent_deficit (p : Params) (aff : ℕ → List ℕ) (pairs : List (ℕ × ℕ))
    (hp : ∀ pr ∈ pairs, pr.2 < p.rankSize) (b : RefState × ℕ) :
    (pairs.foldl (moveCurrent p aff) b).1.toTables.deficit p + (pairs.foldl (moveCurrent p aff) b).2 =
      b.1.toTables.deficit p + b.2 := by
  refine foldlRecOn (motive := fun b' : RefState × ℕ => b'.1.toTables.deficit p + b'.2 = _) _ _ rfl
    fun b' hb pr hpr => ?_
  obtain ⟨hle, hload⟩ := Reference.applyExpertMove_load p aff b'.1 pr.1 pr.2
    (requestedUnits p.cap b'.1.rankLoad pr.1 pr.2)
  have := deficit_moved p (hp pr hpr) hle hload
  simp only [moveCurrent]
  omega

/-- Every round of a server that goes on has moved something, in the reference planner too. -/
theorem refIntraRound_decreases (hcap : p.cap ≠ 0) (aff : ℕ → List ℕ) (key : ℕ) :
    Decreases (fun t : RefState => t.toTables.deficit p) (Reference.intraRound p aff (membersOf p key)) := by
  intro t t' h
  rw [refIntraRound_eq hcap] at h
  split at h
  · cases h
  dsimp only at h
  split at h
  · cases h
  rename_i hmoved
  obtain rfl := Step.next.inj h
  have hd := moveCurrent_deficit p aff (serverPairs p t.toTables key)
    (fun pr hpr => (mem_serverPairs _ pr hpr).2.1) (t, 0)
  dsimp only at hd ⊢
  omega

include haff in
theorem intraServer_sim (hcap : c.cap ≠ 0) (key : ℕ) (h : Sim c s t) :
    Sim c (intraServer c key s) (Reference.intraServer c.toParams c.affinityOrder t key) ∨
      Overflown c (intraServer c key s) :=
  loop_sim (fun s t h => by rw [h.tables]) (fun _ _ h => intraRound_sim haff hcap key h) h

/-! ## The servers in order -/

theorem mem_serverKeys {key : ℕ} : key ∈ serverKeys p ↔ ∃ r < p.rankSize, p.serverKey r = key := by
  have hfold : ∀ (rs keys : List ℕ), key ∈ rs.foldl (fun keys r =>
      if keys.contains (p.serverKey r) then keys else keys ++ [p.serverKey r]) keys ↔
      key ∈ keys ∨ ∃ r ∈ rs, p.serverKey r = key := by
    intro rs
    induction rs with
    | nil => simp
    | cons r rs ih =>
      intro keys
      rw [foldl_cons, ih]
      by_cases hr : p.serverKey r ∈ keys
      · rw [if_pos (by simpa using hr)]
        constructor
        · exact Or.imp_right fun ⟨q, hq, he⟩ => ⟨q, mem_cons_of_mem _ hq, he⟩
        · rintro (h | ⟨q, hq, rfl⟩)
          · exact .inl h
          · rcases mem_cons.1 hq with rfl | hq
            exacts [.inl hr, .inr ⟨q, hq, rfl⟩]
      · rw [if_neg (by simpa using hr)]
        simp [mem_cons, or_and_right, exists_or, or_assoc, eq_comm]
  rw [serverKeys, hfold]
  simp

theorem serverKeys_nodup (p : Params) : (serverKeys p).Nodup := by
  refine foldlRecOn _ _ nodup_nil fun keys hk r _ => ?_
  split
  · exact hk
  · rename_i hr
    exact hk.append (nodup_singleton _) (by simpa using hr)

theorem sortedKeys_pairwise (p : Params) : (stdSort (· < ·) (serverKeys p)).Pairwise (· < ·) := by
  have hstrict : StrictTotal fun a b : ℕ => decide (a < b) := .of_lt
  have hle := insertSort_pairwise hstrict (serverKeys p)
  have hnd : (insertSort (fun a b : ℕ => decide (a < b)) (serverKeys p)).Nodup :=
    nodup_insertSort.2 (serverKeys_nodup p)
  rw [← insertSort_eq_stdSort hstrict]
  refine (hle.and hnd).imp fun {a b} ⟨h1, h2⟩ => ?_
  have : a ≤ b := by simpa using h1
  omega

/-- `RunIntra` scans for the next larger key; on a sorted list of the keys left that is its head. -/
theorem nextServerKey_eq (hsorted : keys.Pairwise (· < ·))
    (hmem : ∀ k, k ∈ keys ↔ (∃ r < p.rankSize, p.serverKey r = k) ∧ previous.all (· < k)) :
    nextServerKey p previous = keys.head? := by
  have hlist : ∀ k, k ∈ ((List.range p.rankSize).map p.serverKey).filter (fun k => previous.all (· < k)) ↔
      k ∈ keys := by
    intro k; rw [hmem]; simp
  unfold nextServerKey
  cases keys with
  | nil =>
    rw [List.head?_nil, List.min?_eq_none_iff, eq_nil_iff_forall_not_mem]
    intro k hk; simpa using (hlist k).1 hk
  | cons k keys =>
    rw [List.head?_cons, List.min?_eq_some_iff]
    refine ⟨(hlist k).2 mem_cons_self, fun q hq => ?_⟩
    rcases mem_cons.1 ((hlist q).1 hq) with rfl | hq
    · exact le_rfl
    · exact (rel_of_pairwise_cons hsorted hq).le

include haff in
theorem runIntra_sim_from (hcap : c.cap ≠ 0) (hsorted : keys.Pairwise (· < ·))
    (hmem : ∀ k, k ∈ keys ↔ (∃ r < c.rankSize, c.serverKey r = k) ∧ previous.all (· < k)) (h : Sim c s t) :
    Sim c (loop (fun a => serversLeft c.toParams a.1) (intraStep c) (previous, s)).2
      (keys.foldl (Reference.intraServer c.toParams c.affinityOrder) t) ∨
    Overflown c (loop (fun a => serversLeft c.toParams a.1) (intraStep c) (previous, s)).2 := by
  induction keys generalizing previous s t with
  | nil =>
    rw [loop_eq (intraStep_decreases c)]
    unfold intraStep
    rw [nextServerKey_eq hsorted hmem]
    exact .inl h
  | cons k keys ih =>
    rw [loop_eq (intraStep_decreases c)]
    unfold intraStep
    rw [nextServerKey_eq hsorted hmem]
    dsimp only [List.head?_cons]
    rcases intraServer_sim haff hcap k h with h' | hov
    · rw [if_neg (not_not.2 h'.fatal)]
      refine ih hsorted.of_cons (fun q => ?_) h'
      have hk := (hmem k).1 mem_cons_self
      constructor
      · intro hq
        exact ⟨((hmem q).1 (mem_cons_of_mem _ hq)).1,
          by simpa using rel_of_pairwise_cons hsorted hq⟩
      · rintro ⟨hr, hlt⟩
        have hlt : k < q := by simpa using hlt
        have hq : q ∈ k :: keys := (hmem q).2 ⟨hr, by
          cases hp : previous with
          | none => rfl
          | some v =>
            have : v < k := by simpa [hp] using hk.2
            simpa using this.trans hlt⟩
        rcases mem_cons.1 hq with rfl | hq
        · exact absurd hlt (lt_irrefl _)
        · exact hq
    · rw [if_pos hov.1]; exact .inr hov

include haff in
theorem runIntra_sim (hcap : c.cap ≠ 0) (h : Sim c s t) :
    Sim c (runIntra c s) (runIntraServerStage c.toParams c.affinityOrder t) ∨ Overflown c (runIntra c s) :=
  runIntra_sim_from haff hcap (sortedKeys_pairwise _) (fun k => by simp [mem_serverKeys]) h

/-! ## Rounds between servers -/

/-- A round between servers in both planners. -/
structure InterSim (c : Ctx) (a : InterAcc) (b : RefInterAcc) : Prop where
  st : Sim c a.st b.st
  occupied : ∀ r, r ∈ a.occupied ↔ r ∈ b.occupied
  actualRound : a.actualRound = b.actualRound

include haff in
theorem tryCandidates_sim (senders : List ℕ) (dst : ℕ) {row : List ℕ} (hrow : ∀ r ∈ row, r < c.rankSize)
    (n : ℕ) {b : RefInterAcc} (h : InterSim c a b) :
    InterSim c (tryCandidates c senders dst row n a) (Reference.tryCandidates c.toParams c.affinityOrder dst
        ((row.filter senders.contains).take (kPlanCrossCandidateCount - n)) b) ∨
    Overflown c (tryCandidates c senders dst row n a).st := by
  induction row generalizing n a b with
  | nil => left; simpa [tryCandidates, Reference.tryCandidates] using h
  | cons src rest ih =>
    have hrest : ∀ r ∈ rest, r < c.rankSize := fun r hr => hrow r (mem_cons_of_mem _ hr)
    unfold tryCandidates
    by_cases hn : n ≥ kPlanCrossCandidateCount
    · rw [if_pos hn, Nat.sub_eq_zero_of_le hn, take_zero, Reference.tryCandidates]
      exact .inl h
    rw [if_neg hn]
    by_cases hsend : senders.contains src = true
    swap
    · rw [if_pos (by simpa using hsend), filter_cons_of_neg hsend]
      exact ih hrest n h
    rw [if_neg (by simpa using hsend), filter_cons_of_pos hsend,
      show kPlanCrossCandidateCount - n = (kPlanCrossCandidateCount - (n + 1)) + 1 by omega,
      take_succ_cons, Reference.tryCandidates]
    by_cases hocc : src ∈ b.occupied
    · rw [if_pos (by simpa [h.occupied] using hocc), if_pos hocc]
      exact ih hrest (n + 1) h
    rw [if_neg (by simpa [h.occupied] using hocc), if_neg hocc]
    dsimp only
    rw [h.st.tables]
    by_cases hreq : requestedUnits c.cap b.st.rankLoad src dst = 0
    · rw [if_pos hreq, if_pos hreq]; exact ih hrest (n + 1) h
    rw [if_neg hreq, if_neg hreq]
    rcases applyExpertMove_sim haff h.st (hrow src mem_cons_self) dst
      (requestedUnits c.cap b.st.rankLoad src dst) with ⟨h', heq⟩ | hov
    · rw [if_neg (not_not.2 h'.fatal), heq]
      split
      · exact .inl ⟨h', fun r => by simp [h.occupied], by simp [h.actualRound]⟩
      · exact ih hrest (n + 1) ⟨h', h.occupied, h.actualRound⟩
    · rw [if_pos hov.1]; exact .inr hov

include haff in
theorem serveReceivers_sim (senders receivers : List ℕ) {b : RefInterAcc} (h : InterSim c a b) :
    InterSim c (receivers.foldl (serveReceiver c senders) a)
      (receivers.foldl (Reference.serveReceiver c.toParams c.affinityOrder senders) b) ∨
    Overflown c (receivers.foldl (serveReceiver c senders) a).st := by
  refine foldl_rel (r := fun a b => InterSim c a b ∨ Overflown c a.st) (.inl h) fun dst _ a b hab => ?_
  unfold serveReceiver
  rcases hab with h | hov
  · rw [if_neg (not_not.2 h.st.fatal)]
    exact tryCandidates_sim haff senders dst (haff dst) 0 h
  · rw [if_pos hov.1]
    exact .inr hov

theorem sortedEntries (p : Params) (t : Tables) :
    let items := (List.range p.rankSize).map fun r =>
      (⟨r, t.rankLoad r, p.globalRankIds r⟩ : RankedLoad)
    (∀ it ∈ items, it.load = t.rankLoad it.rank ∧ it.globalRankId = p.globalRankIds it.rank) ∧
    (items.filter (·.load ≠ p.cap)).map (·.rank) = activeRanks p t := by
  intro items
  have hitems : ∀ it ∈ items, it.load = t.rankLoad it.rank ∧
      it.globalRankId = p.globalRankIds it.rank := by
    intro it hit
    obtain ⟨r, _, rfl⟩ := mem_map.1 hit
    exact ⟨rfl, rfl⟩
  refine ⟨hitems, ?_⟩
  rw [activeRanks, filter_map, map_map]
  simp [Function.comp_def]

theorem map_stdSort_rank (asc : Bool) {t : Tables}
    (hitems : ∀ it ∈ items, it.load = t.rankLoad it.rank ∧ it.globalRankId = p.globalRankIds it.rank) :
    (stdSort (if asc then lighter else heavier) items).map (·.rank) =
      insertSort (betterRank t.rankLoad p.globalRankIds asc) (items.map (·.rank)) := by
  rw [insertSort_eq_stdSort (betterRank_strict _ _ _)]
  refine map_stdSort _ _ fun a ha b hb => ?_
  cases asc <;> simp [heavier, lighter, betterRank, hitems a ha, hitems b hb]

theorem activeRanks_length (p : Params) (t : Tables) : (activeRanks p t).length ≤ p.rankSize :=
  (length_filter_le ..).trans (by simp)

include haff in
theorem interRound_sim (h : Sim c s t) : StepRel (Sim c) (Overflown c) (interRound c s)
      (Reference.interRound c.toParams c.affinityOrder t) := by
  obtain ⟨hitems, hactive⟩ := sortedEntries c.toParams t.toTables
  unfold interRound Reference.interRound
  dsimp only at hitems hactive ⊢
  rw [h.tables]
  set items := ((List.range c.rankSize).map fun r =>
    (⟨r, t.rankLoad r, c.globalRankIds r⟩ : RankedLoad)).filter (·.load ≠ c.cap) with hdef
  have hitems : ∀ it ∈ items, it.load = t.rankLoad it.rank ∧
      it.globalRankId = c.globalRankIds it.rank := fun it hit =>
    hitems it (mem_of_mem_filter hit)
  have hlen : items.length = (activeRanks c.toParams t.toTables).length := by
    rw [← hactive, length_map]
  have hunder : (items.filter (·.load < c.cap)).length =
      ((activeRanks c.toParams t.toTables).filter (t.rankLoad · < c.cap)).length := by
    rw [← hactive, filter_map, length_map]
    congr 1
    refine filter_congr fun it hit => ?_
    rw [Function.comp, (hitems it hit).1]
  have hsorted : (stdSort heavier items).map (·.rank) = _ := map_stdSort_rank false hitems
  rw [hactive] at hsorted
  have hslen : (stdSort heavier items).length = (activeRanks c.toParams t.toTables).length := by
    rw [← hlen]; exact (perm_insertionSort _ _).length_eq
  rw [hlen, hunder, hslen, sortRanks_eq (activeRanks_length ..) fun r hr => mem_activeRanks hr]
  set under := ((activeRanks c.toParams t.toTables).filter (t.rankLoad · < c.cap)).length with hu
  split
  · exact .done h
  dsimp only
  rw [length_insertSort]
  split
  · exact .done h
  set k := (activeRanks c.toParams t.toTables).length -
    min under ((activeRanks c.toParams t.toTables).length / 2) with hk
  rw [← hsorted, ← map_drop, ← map_take]
  have hdrop : ∀ it ∈ (stdSort heavier items).drop k, it.load = t.rankLoad it.rank ∧
      it.globalRankId = c.globalRankIds it.rank := fun it hit =>
    hitems it (mem_stdSort.1 (mem_of_mem_drop hit))
  rw [show (stdSort lighter _).map (·.rank) = _ from map_stdSort_rank true hdrop, sortRanks_eq]
  rotate_left
  · rw [length_map, length_drop, hslen]
    exact (Nat.sub_le _ _).trans (activeRanks_length ..)
  · intro r hr
    obtain ⟨it, hit, rfl⟩ := mem_map.1 hr
    have : it.rank ∈ (items.map (·.rank)) :=
      mem_map_of_mem (mem_stdSort.1 (mem_of_mem_drop hit))
    rw [hactive] at this
    exact mem_activeRanks this
  dsimp only
  have hstart : InterSim c ⟨s, [], 0⟩ ⟨t, ∅, 0⟩ := ⟨h, by simp, rfl⟩
  rcases serveReceivers_sim haff (((stdSort heavier items).take k).map (·.rank)) _ hstart with
    h' | hov
  · rw [if_neg (not_not.2 h'.st.fatal), h'.actualRound]
    split
    · exact .done h'.st.blocked
    · exact .next h'.st.nextInter
  · rw [if_pos hov.1]; exact .stop hov _

include haff in
theorem runInter_sim (h : Sim c s t) :
    Sim c (runInter c s) (runInterServerStage c.toParams c.affinityOrder t) ∨ Overflown c (runInter c s) :=
  loop_sim (fun s t h => by rw [h.tables]) (fun _ _ h => interRound_sim haff h) h

theorem refTryCandidates_deficit (aff : ℕ → List ℕ) {dst : ℕ} (hdst : dst < p.rankSize) (cands : List ℕ)
    (a : RefInterAcc) : (Reference.tryCandidates p aff dst cands a).st.toTables.deficit p +
        (Reference.tryCandidates p aff dst cands a).actualRound = a.st.toTables.deficit p + a.actualRound := by
  induction cands generalizing a with
  | nil => rfl
  | cons src rest ih =>
    unfold Reference.tryCandidates
    split
    · exact ih a
    dsimp only
    split
    · exact ih a
    obtain ⟨hle, hload⟩ := Reference.applyExpertMove_load p aff a.st src dst
      (requestedUnits p.cap a.st.rankLoad src dst)
    have hd := deficit_moved p hdst hle hload
    split
    · dsimp only; omega
    · rw [ih]; dsimp only; omega

/-- Every round between servers that goes on has moved something, in the reference planner too. -/
theorem refInterRound_decreases (p : Params) (aff : ℕ → List ℕ) :
    Decreases (fun t : RefState => t.toTables.deficit p) (Reference.interRound p aff) := by
  intro t t' h
  unfold Reference.interRound at h
  dsimp only at h
  split at h
  · cases h
  split at h
  · cases h
  split at h
  · cases h
  rename_i hmoved
  obtain rfl := Step.next.inj h
  have hlower : ∀ rs senders : List ℕ, (∀ r ∈ rs, r < p.rankSize) →
      ¬ (rs.foldl (Reference.serveReceiver p aff senders) ⟨t, ∅, 0⟩).actualRound = 0 →
      (rs.foldl (Reference.serveReceiver p aff senders) ⟨t, ∅, 0⟩).st.toTables.deficit p <
        t.toTables.deficit p := by
    intro rs senders hrs h0
    have hd := foldlRecOn (motive := fun a : RefInterAcc =>
      a.st.toTables.deficit p + a.actualRound = t.toTables.deficit p) rs (Reference.serveReceiver p aff senders)
      (b := ⟨t, ∅, 0⟩) rfl fun a ha r hr => (refTryCandidates_deficit aff (hrs r hr) _ _).trans ha
    omega
  refine hlower _ _ (fun r hr => ?_) hmoved
  obtain ⟨it, hit, rfl⟩ := mem_map.1 hr
  have hit := mem_of_mem_filter (mem_stdSort.1 (mem_of_mem_drop (mem_stdSort.1 hit)))
  obtain ⟨r', hr', rfl⟩ := mem_map.1 hit
  exact mem_range.1 hr'

/-! ## The remainders, and all phases -/

theorem appendRemainder_sim {expert src : ℕ} (he : expert < c.expertNum) (h : Sim c s t) :
    Sim c (appendRemainder c s expert src) (Reference.appendRemainder c.toParams t expert src) ∨
      Overflown c (appendRemainder c s expert src) := by
  unfold appendRemainder Reference.appendRemainder
  rw [if_neg (not_not.2 h.fatal), h.tables]
  dsimp only
  split
  · exact .inl h
  rename_i h0
  have hroom := h.room
  rw [h.tables] at hroom
  rcases appendSegment_cases c s (Tables.nextSegment t.toTables expert src (c.homeRank expert)
    (t.remainingTpe src expert)) with ⟨hown, hfull, s', happ, hfat⟩ | happ
  · rw [happ]
    have hown : src = c.rank := hown
    exact .inr ⟨hfat, overflow_of_room he (Nat.pos_of_ne_zero h0) (hown ▸ le_rfl) hroom hfull⟩
  · rw [happ]
    refine .inl { h with tables := by rw [h.tables], segments := ?_, room := ?_ }
    · dsimp only; rw [filter_append, h.segments]
    · dsimp only
      rw [h.tables, length_append]
      have := room_give (c.homeRank expert) he (Nat.pos_of_ne_zero h0) le_rfl hroom
      by_cases hown : src = c.rank
      · simpa [Tables.nextSegment, hown, Nat.add_assoc] using this
      · simpa [Tables.nextSegment, hown] using this

theorem appendRemainder_overflown (h : Overflown c s) (expert src : ℕ) :
    appendRemainder c s expert src = s := if_pos h.1

theorem appendRemainders_sim (h : Sim c s t) : Sim c (appendRemainders c s) (appendRemainderSegments c.toParams t) ∨
      Overflown c (appendRemainders c s) := by
  refine foldl_rel (r := fun s t => Sim c s t ∨ Overflown c s) (.inl h) fun expert he s t h => ?_
  refine foldl_rel (r := fun s t => Sim c s t ∨ Overflown c s) h fun src _ s t h => ?_
  rcases h with h | hov
  · exact appendRemainder_sim (mem_range.1 he) h
  · exact .inr ((appendRemainder_overflown hov expert src).symm ▸ hov)

theorem Sim.initial (hrow : ∑ e ∈ Finset.range c.expertNum, c.tokensPerExpert c.rank e = c.cap) :
    Sim c (State.initial c.toParams) (RefState.initial c.toParams) where
  tables := rfl
  nodup _ := nodup_nil
  remote _ _ := by simp [State.initial, RefState.initial]
  segments := rfl
  expertMoves := rfl
  intraRounds := rfl
  interRounds := rfl
  slotBlock := rfl
  supplyBlock := rfl
  fatal := rfl
  room := by simp [State.initial, Tables.initial, hrow]

include haff in
/-- The move phases: unless the rank has fewer segment records than routes and ran out of them, its
state is its view of the reference state. -/
theorem runMoves_sim (hcap : c.cap ≠ 0) (hrow : ∑ e ∈ Finset.range c.expertNum, c.tokensPerExpert c.rank e = c.cap) :
    Sim c (runMoves c) (Reference.runMoves c.toParams c.affinityOrder) ∨ Overflown c (runMoves c) := by
  have hinit := Sim.initial hrow
  unfold runMoves Reference.runMoves
  dsimp only
  rcases runIntra_sim haff hcap hinit with h1 | hov
  · rw [if_pos h1.fatal]
    rcases runInter_sim haff h1 with h2 | hov
    · rw [if_pos h2.fatal]; exact appendRemainders_sim h2
    · rw [if_neg hov.1]; exact .inr hov
  · rw [if_neg hov.1, if_neg hov.1]; exact .inr hov

end TileXR.Plan
