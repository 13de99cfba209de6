import TileXR.Plan.DuplicateRuns

/-!
# Which calls of `BuildMoonEPDuplicateMetadata` succeed, and what they write

A call that returns `PLAN_OK` has listed the tokens with several records in the order of source and
token, each with its primary slot and, by increasing `topKId`, the slots of its other records
(`ListsGroups`), whatever the order of the records. A call whose records are in range fails with
`PLAN_ERROR_INTERNAL_INVARIANT` if a route comes twice or if a token without a unique primary is reached
before the capacity is used up. The call is undefined where a token count or a group index passes
`INT32_MAX` before an error ends it.
-/

namespace TileXR.Plan
open List Option
variable {st : DuplicateState} {a : Option (DuplicateState × PlanStatus)}

/-- The groups of the arrays are those of `tokens`, where `others token` are the records of a token that
are not primary. -/
structure ListsGroups (records : List MoonEPReceivedRoute) (st : DuplicateState) (tokens : List (ℕ × ℕ))
    (others : ℕ × ℕ → List MoonEPReceivedRoute) : Prop where
  shared : ∀ token, token ∈ tokens ↔ 2 ≤ (tokenRoutes records token).length
  sorted : tokens.Pairwise fun a b => a.1 < b.1 ∨ a.1 = b.1 ∧ a.2 < b.2
  mem_others : ∀ token r, r ∈ others token ↔ r ∈ tokenRoutes records token ∧ r.isPrimary = 0
  others_sorted : ∀ token, (others token).Pairwise fun r r' => r.topKId < r'.topKId
  groupCount : st.groupCount = tokens.length
  duplicateCount : st.duplicateCount = (tokens.map fun token => (others token).length).sum
  primary : ∀ i token, tokens[i]? = some token → ∃ r,
    (∀ r', r' ∈ tokenRoutes records token ∧ r'.isPrimary = 1 ↔ r' = r) ∧ st.dupGroups (i * 3) = r.recvSlot
  offset : ∀ i token, tokens[i]? = some token →
    st.dupGroups (i * 3 + 1) = ((tokens.take i).map fun token => (others token).length).sum
  size : ∀ i token, tokens[i]? = some token → st.dupGroups (i * 3 + 2) = (others token).length
  slots : ∀ i token, tokens[i]? = some token → ∀ j r, (others token)[j]? = some r →
    st.dupLoffs (((tokens.take i).map fun token => (others token).length).sum + j) = r.recvSlot
  groups_rest : ∀ i, st.groupCount * 3 ≤ i → st.dupGroups i = -1
  loffs_rest : ∀ i, st.duplicateCount ≤ i → st.dupLoffs i = -1

theorem allTokens_sorted (rankSize s : ℕ) :
    (allTokens rankSize s).Pairwise fun a b => a.1 < b.1 ∨ a.1 = b.1 ∧ a.2 < b.2 := by
  rw [allTokens, pairwise_flatMap]
  constructor
  · intro src _
    exact pairwise_lt_range.map _ fun a b hlt => .inr ⟨rfl, hlt⟩
  · refine pairwise_lt_range.imp fun {a b} hlt x hx y hy => .inl ?_
    obtain ⟨_, _, rfl⟩ := mem_map.1 hx
    obtain ⟨_, _, rfl⟩ := mem_map.1 hy
    exact hlt

/-! ## From the loops to the call -/

theorem shape_of_call {recordCount : ℕ} {rankSize s topK nvS : ℤ} {ptr : DuplicatePointers}
    (h : badDuplicateCall recordCount rankSize s topK nvS ptr = false) :
    0 < rankSize ∧ 0 < s ∧ 0 < topK ∧ 0 < nvS ∧ nvS ≤ int32Max := by
  simp only [badDuplicateCall, Bool.or_eq_false_iff, decide_eq_false_iff_not, not_lt, not_le] at h
  exact ⟨by tauto, by tauto, by tauto, by tauto, by tauto⟩

theorem checkRecords_ne_ok {rankSize s topK nvS : ℤ} (prior records : List MoonEPReceivedRoute) :
    checkRecords rankSize s topK nvS prior records ≠ some .ok := by
  induction records generalizing prior with
  | nil => simp [checkRecords]
  | cons r rest ih =>
    unfold checkRecords
    split_ifs
    · decide
    · decide
    · exact ih _

section Call
variable {records : List MoonEPReceivedRoute} {rankSize s topK nvS : ℕ} {ptr : DuplicatePointers}
  (hcall : badDuplicateCall records.length rankSize s topK nvS ptr = false)
include hcall

theorem build_of_not_recordsIn (hin : ¬ RecordsIn records rankSize s topK nvS) :
    ∃ status, status ≠ .ok ∧ checkRecords rankSize s topK nvS [] records = some status ∧
      buildMoonEPDuplicateMetadata records rankSize s topK nvS ptr = some (.initial, status) := by
  cases hc : checkRecords rankSize s topK nvS [] records with
  | none => exact absurd (checkRecords_eq_none_iff.1 hc) hin
  | some status =>
    refine ⟨status, fun h => checkRecords_ne_ok [] records (by rw [hc, h]), rfl, ?_⟩
    simp [buildMoonEPDuplicateMetadata, hcall, hc]

theorem build_of_recordsIn (hin : RecordsIn records rankSize s topK nvS) :
    buildMoonEPDuplicateMetadata records rankSize s topK nvS ptr =
      (List.range rankSize).foldl (groupSource records s topK nvS) (some (.initial, .ok)) := by
  simp [buildMoonEPDuplicateMetadata, hcall, checkRecords_eq_none_iff.2 hin]

theorem running_of_ok (hs : s ≤ int32Max)
    (h : buildMoonEPDuplicateMetadata records rankSize s topK nvS ptr = some (st, .ok)) :
    RecordsIn records rankSize s topK nvS ∧ Passes records nvS (allTokens rankSize s) ∧
      Running records topK nvS (allTokens rankSize s) st := by
  by_cases hin : RecordsIn records rankSize s topK nvS
  swap
  · obtain ⟨status, hne, -, hb⟩ := build_of_not_recordsIn hcall hin
    rw [hb] at h
    exact absurd (congrArg Prod.snd (some.inj h)) hne
  rw [build_of_recordsIn hcall hin, foldl_groupSource hs] at h
  obtain ⟨hp, st', hrun, hst⟩ | ⟨-, hst⟩ | ⟨before, token, after, st', -, -, -, -, hst⟩ :=
    groupTokens_cases hin (allTokens rankSize s)
  · rw [hst] at h
    obtain rfl := congrArg Prod.fst (some.inj h)
    exact ⟨hin, hp, hrun⟩
  · rw [hst] at h
    cases h
  · rw [hst] at h
    exact absurd (congrArg Prod.snd (some.inj h)) (stopStatus_ne_ok records token)

end Call

/-! ## What a successful call writes -/

section Success
variable {records : List MoonEPReceivedRoute} {rankSize s topK nvS : ℕ}

theorem Passes.primary {tokens : List (ℕ × ℕ)} {token : ℕ × ℕ} (h : Passes records nvS tokens) (hmem : token ∈ tokens)
    (hne : tokenRoutes records token ≠ []) : (primariesOf records token).length = 1 := by
  obtain ⟨before, after, rfl⟩ := append_of_mem hmem
  by_contra hprim
  exact h before token after rfl ⟨hne, .inl hprim⟩

theorem Running.listsGroups (hin : RecordsIn records rankSize s topK nvS)
    (hp : Passes records nvS (allTokens rankSize s)) (h : Running records topK nvS (allTokens rankSize s) st) :
    ListsGroups records st (sharedTokens records (allTokens rankSize s)) (duplicatesOf records topK) := by
  set tokens := sharedTokens records (allTokens rankSize s) with htokens
  have hsum : ∀ l : List (ℕ × ℕ), (l.map fun token => (duplicatesOf records topK token).length).sum =
      (l.flatMap (duplicatesOf records topK)).length := fun l => length_flatMap.symm
  refine
    { shared := fun token => mem_sharedTokens hin
      sorted := (allTokens_sorted rankSize s).filter _
      mem_others := fun token r => mem_duplicatesOf hin
      others_sorted := duplicatesOf_sorted hin
      groupCount := h.grouped.groupCount
      duplicateCount := by rw [h.grouped.offsets.count, hsum, length_map]; rfl
      primary := fun i token hi => ?_
      offset := fun i token hi => by rw [hsum]; exact (h.grouped.group i token hi).2.1
      size := fun i token hi => (h.grouped.group i token hi).2.2
      slots := fun i token hi j r hr => ?_
      groups_rest := h.rest
      loffs_rest := fun i hi => ?_ }
  · have hmem := mem_of_getElem? hi
    have htwo := (mem_sharedTokens hin).1 hmem
    have hprim := hp.primary (mem_of_mem_filter hmem) fun h0 => by rw [h0] at htwo; simp at htwo
    obtain ⟨r, hr⟩ := length_eq_one_iff.1 hprim
    refine ⟨r, fun r' => ?_, ?_⟩
    · rw [← @mem_singleton _ r' r, ← hr, primariesOf, mem_filter, decide_eq_true_eq]
      refine and_congr_right fun hr' => ?_
      have := hin.isPrimary r' (mem_tokenRoutes.1 hr').1
      omega
    · rw [(h.grouped.group i token hi).1, primarySlot, hr]
      rfl
  · obtain ⟨hj, rfl⟩ := List.getElem?_eq_some_iff.1 hr
    have := congrArg (·[j]?) (h.grouped.read_block hi)
    simpa [hsum, hj] using this
  · rw [h.grouped.offsets.entry, getD_eq_default _ _ (by rw [← h.grouped.offsets.count]; exact hi)]

end Success

/-! ## The order of the records -/

section Order
variable {records records' : List MoonEPReceivedRoute} {rankSize s topK nvS : ℕ}
  (hperm : records'.Perm records)
include hperm

section
variable (h : RecordsIn records rankSize s topK nvS)
include h

theorem RecordsIn.perm : RecordsIn records' rankSize s topK nvS := by
  have hsymm : ∀ {r r' : MoonEPReceivedRoute}, sameRoute r r' = false → sameRoute r' r = false := by
    intro r r' hne
    rw [← hne]
    simp only [sameRoute, eq_comm]
  have hmem : ∀ r ∈ records', r ∈ records := fun r => hperm.mem_iff.1
  exact ⟨fun r hr => h.srcRank r (hmem r hr), fun r hr => h.tokenId r (hmem r hr),
    fun r hr => h.topKId r (hmem r hr), fun r hr => h.recvSlot r (hmem r hr),
    fun r hr => h.isPrimary r (hmem r hr), (hperm.pairwise_iff hsymm).2 h.routes⟩

theorem duplicatesOf_eq_of_perm (token : ℕ × ℕ) :
    duplicatesOf records' topK token = duplicatesOf records topK token := by
  have h' := h.perm hperm
  refine Perm.eq_of_pairwise (fun a b _ _ hab hba => absurd (hab.trans hba) (lt_irrefl _))
    (duplicatesOf_sorted h' token) (duplicatesOf_sorted h token) ?_
  exact ((duplicatesOf_perm h' token).trans ((hperm.filter _).filter _)).trans
    (duplicatesOf_perm h token).symm

/-- A token with no or one primary record is handled the same way for both orders. -/
theorem groupToken_eq_of_perm {token : ℕ × ℕ}
    (hprim : tokenRoutes records token ≠ [] → (primariesOf records token).length = 1)
    (a : Option (DuplicateState × PlanStatus)) :
    groupToken records' topK nvS a token = groupToken records topK nvS a token := by
  have hroutes : (tokenRoutes records' token).Perm (tokenRoutes records token) := hperm.filter _
  have hprims : (primariesOf records' token).Perm (primariesOf records token) := hroutes.filter _
  match a with
  | none => rfl
  | some (st, status) =>
    unfold groupToken
    dsimp only
    rw [hroutes.length_eq, hprims.length_eq]
    by_cases h0 : (tokenRoutes records token).length = 0
    · simp only [h0, if_true]
    have hlen := hprim fun hnil => h0 (by rw [hnil]; rfl)
    -- the only primary record of one order is the only one of the other
    have hslot : primarySlot records' token = primarySlot records token := by
      obtain ⟨r, hr⟩ := length_eq_one_iff.1 hlen
      rw [hr] at hprims
      rw [primarySlot, primarySlot, hr, perm_singleton.1 hprims]
    rw [duplicatesOf_eq_of_perm hperm h, hslot]

end

theorem build_eq_of_perm {ptr : DuplicatePointers} (hs : s ≤ int32Max)
    (hcall : badDuplicateCall records.length rankSize s topK nvS ptr = false)
    (h : buildMoonEPDuplicateMetadata records rankSize s topK nvS ptr = some (st, .ok)) :
    buildMoonEPDuplicateMetadata records' rankSize s topK nvS ptr = some (st, .ok) := by
  obtain ⟨hin, hp, -⟩ := running_of_ok hcall hs h
  rw [← h, build_of_recordsIn (by rw [hperm.length_eq]; exact hcall) (hin.perm hperm),
    build_of_recordsIn hcall hin, foldl_groupSource hs, foldl_groupSource hs]
  exact foldl_ext _ _ _ fun a token hmem =>
    groupToken_eq_of_perm hperm hin (fun hne => hp.primary hmem hne) a

end Order

/-! ## Calls that are rejected -/

/-- Some token has no unique primary record, and the tokens before it leave room for their other
records. -/
def ReachesBadPrimary (records : List MoonEPReceivedRoute) (rankSize s nvS : ℕ) : Prop :=
  ∃ before token after, allTokens rankSize s = before ++ token :: after ∧
    tokenRoutes records token ≠ [] ∧ (primariesOf records token).length ≠ 1 ∧
    surplus records before ≤ nvS ∧ 3 * (sharedTokens records before).length ≤ int32Max + 1

theorem cut_cases {α : Type*} {before after front back : List α} {x : α} (h : before ++ x :: after = front ++ back) :
    (∃ rest, before = front ++ rest) ∨ ∃ rest, front = before ++ x :: rest := by
  rcases append_eq_append_iff.1 h with ⟨rest, rfl, h'⟩ | ⟨rest, rfl, -⟩
  · cases rest with
    | nil => exact .inl ⟨[], by simp⟩
    | cons y rest =>
      obtain ⟨rfl, -⟩ := List.cons.inj h'
      exact .inr ⟨rest, rfl⟩
  · exact .inl ⟨rest, rfl⟩

section Reject
variable {records : List MoonEPReceivedRoute} {rankSize s topK nvS : ℕ}

/-- The first token that ends the call is not one for which the capacity is missing. -/
theorem groupTokens_badPrimary (hin : RecordsIn records rankSize s topK nvS)
    (h : ReachesBadPrimary records rankSize s nvS) :
    ∃ st, (allTokens rankSize s).foldl (groupToken records topK nvS) (some (.initial, .ok)) =
      some (st, .errorInternalInvariant) := by
  obtain ⟨before, token, after, heq, hne, hprim, hroom, hindex⟩ := h
  have hstop : Stops records nvS before token := ⟨hne, .inl hprim⟩
  obtain ⟨hp, -⟩ | ⟨⟨front, back, heq', hp, hover⟩, -⟩ | ⟨front, x, back, st, heq', hp, hx, -, hst⟩ :=
    groupTokens_cases hin (allTokens rankSize s)
  · exact absurd hstop (hp before token after heq)
  · rcases cut_cases (heq.symm.trans heq') with ⟨rest, rfl⟩ | ⟨rest, rfl⟩
    · have := sharedTokens_le_append records front rest
      omega
    · exact absurd hstop (hp before token rest rfl)
  · rcases cut_cases (heq.symm.trans heq') with ⟨rest, rfl⟩ | ⟨rest, rfl⟩
    swap
    · exact absurd hstop (hp before token rest rfl)
    have hxprim : (primariesOf records x).length ≠ 1 := by
      cases rest with
      | nil =>
        rw [append_nil, heq', append_cancel_left_eq] at heq
        obtain ⟨rfl, -⟩ := List.cons.inj heq
        exact hprim
      | cons y rest =>
        rw [heq', append_assoc, append_cancel_left_eq] at heq
        obtain ⟨rfl, -⟩ := List.cons.inj heq
        refine hx.2.resolve_right fun hover => ?_
        have := surplus_le_append records (front ++ [x]) rest
        rw [append_assoc, singleton_append] at this
        omega
    exact ⟨st, by rw [hst, stopStatus, if_pos hxprim]⟩

theorem groupTokens_internal_iff (hin : RecordsIn records rankSize s topK nvS) :
    (∃ st, (allTokens rankSize s).foldl (groupToken records topK nvS) (some (.initial, .ok)) =
      some (st, .errorInternalInvariant)) ↔ ReachesBadPrimary records rankSize s nvS := by
  refine ⟨fun ⟨st, hst⟩ => ?_, groupTokens_badPrimary hin⟩
  obtain ⟨-, st', -, hst'⟩ | ⟨-, hst'⟩ | ⟨before, x, after, st', heq, -, hx, hrun, hst'⟩ :=
    groupTokens_cases hin (allTokens rankSize s)
  · rw [hst'] at hst
    exact absurd (congrArg Prod.snd (some.inj hst)) (by simp)
  · rw [hst'] at hst
    cases hst
  · rw [hst'] at hst
    have hstatus : stopStatus records x = .errorInternalInvariant :=
      congrArg Prod.snd (some.inj hst)
    refine ⟨before, x, after, heq, hx.1, fun hprim => ?_, hrun.room, hrun.index⟩
    rw [stopStatus, if_neg (not_not.2 hprim)] at hstatus
    cases hstatus

/-- A token without a unique primary record that the loops do not get to: the capacity ends the call
before, or an index into the groups overflows. -/
theorem groupTokens_unreached (hin : RecordsIn records rankSize s topK nvS) {token : ℕ × ℕ}
    (hmem : token ∈ allTokens rankSize s) (hne : tokenRoutes records token ≠ [])
    (hprim : (primariesOf records token).length ≠ 1) (h : ¬ ReachesBadPrimary records rankSize s nvS) :
    (∃ st, (allTokens rankSize s).foldl (groupToken records topK nvS) (some (.initial, .ok)) =
      some (st, .errorMoveRecordOverflow)) ∨
    ((allTokens rankSize s).foldl (groupToken records topK nvS) (some (.initial, .ok)) = none ∧
      ∃ before after, allTokens rankSize s = before ++ after ∧ Passes records nvS before ∧
        int32Max + 1 < 3 * (sharedTokens records before).length) := by
  obtain ⟨hp, -⟩ | ⟨hover, hst⟩ | ⟨before, x, after, st, heq, -, hx, hrun, hst⟩ :=
    groupTokens_cases hin (allTokens rankSize s)
  · obtain ⟨before, after, heq⟩ := append_of_mem hmem
    exact absurd ⟨hne, .inl hprim⟩ (hp before token after heq)
  · exact .inr ⟨hst, hover⟩
  · refine .inl ⟨st, ?_⟩
    rw [hst, stopStatus, if_neg fun hbad => h ⟨before, x, after, heq, hx.1, hbad, hrun.room, hrun.index⟩]

end Reject

/-- Every call with `s` in the range of `int32_t`: what it writes if it succeeds, when it rejects
records in range, and what comes of a token without a unique primary record that is not reached. -/
theorem buildMoonEPDuplicateMetadata_lists (records : List MoonEPReceivedRoute) (rankSize s topK nvS : ℤ)
    (ptr : DuplicatePointers) (hs : s ≤ int32Max) :
    (∀ st, buildMoonEPDuplicateMetadata records rankSize s topK nvS ptr = some (st, .ok) →
      (∃ tokens others, ListsGroups records st tokens others) ∧
      ∀ records', records'.Perm records →
        buildMoonEPDuplicateMetadata records' rankSize s topK nvS ptr = some (st, .ok)) ∧
    (badDuplicateCall records.length rankSize s topK nvS ptr = false →
      (∀ r ∈ records, badRecord rankSize s topK nvS r = false) →
      ((∃ st, buildMoonEPDuplicateMetadata records rankSize s topK nvS ptr =
          some (st, .errorInternalInvariant)) ↔
        ¬ records.Pairwise (fun r r' => sameRoute r r' = false) ∨
        ReachesBadPrimary records rankSize.toNat s.toNat nvS.toNat) ∧
      (records.Pairwise (fun r r' => sameRoute r r' = false) →
        ¬ ReachesBadPrimary records rankSize.toNat s.toNat nvS.toNat →
        ∀ token ∈ allTokens rankSize.toNat s.toNat, tokenRoutes records token ≠ [] →
          (primariesOf records token).length ≠ 1 →
          (∃ st, buildMoonEPDuplicateMetadata records rankSize s topK nvS ptr =
            some (st, .errorMoveRecordOverflow)) ∨
          (buildMoonEPDuplicateMetadata records rankSize s topK nvS ptr = none ∧
            ∃ before after, allTokens rankSize.toNat s.toNat = before ++ after ∧
              Passes records nvS.toNat before ∧
              int32Max + 1 < 3 * (sharedTokens records before).length))) := by
  by_cases hcall : badDuplicateCall records.length rankSize s topK nvS ptr = true
  · refine ⟨fun st h => ?_, fun h => absurd h (by simp [hcall])⟩
    rw [buildMoonEPDuplicateMetadata, if_pos hcall] at h
    exact absurd (congrArg Prod.snd (Option.some.inj h)) (by simp)
  rw [Bool.not_eq_true] at hcall
  obtain ⟨hR, hs0, hk, hn, -⟩ := shape_of_call hcall
  obtain ⟨rankSize, rfl⟩ := Int.eq_ofNat_of_zero_le hR.le
  obtain ⟨s, rfl⟩ := Int.eq_ofNat_of_zero_le hs0.le
  obtain ⟨topK, rfl⟩ := Int.eq_ofNat_of_zero_le hk.le
  obtain ⟨nvS, rfl⟩ := Int.eq_ofNat_of_zero_le hn.le
  have hs : s ≤ int32Max := by exact_mod_cast hs
  simp only [Int.toNat_natCast]
  refine ⟨fun st h => ?_, fun _ hrange => ?_⟩
  · obtain ⟨hin, hp, hrun⟩ := running_of_ok hcall hs h
    exact ⟨⟨_, _, hrun.listsGroups hin hp⟩, fun records' hperm => build_eq_of_perm hperm hs hcall h⟩
  · by_cases hroutes : records.Pairwise fun r r' => sameRoute r r' = false
    · have hin : RecordsIn records rankSize s topK nvS := recordsIn_iff.2 ⟨hrange, hroutes⟩
      rw [build_of_recordsIn hcall hin, foldl_groupSource hs, groupTokens_internal_iff hin]
      refine ⟨by simp [hroutes], fun _ h token hmem hne hprim => groupTokens_unreached hin hmem hne hprim h⟩
    · obtain ⟨status, -, hc, hb⟩ := build_of_not_recordsIn hcall fun hin => hroutes hin.routes
      rw [checkRecords_of_range hrange [] List.Pairwise.nil, if_neg (by simpa using hroutes)] at hc
      obtain rfl := Option.some.inj hc
      exact ⟨by simp [hroutes, hb], fun h => absurd h hroutes⟩

/-- Token 0 of one source takes both offsets, so token 1, which has no primary record, is not reached. -/
def crowdedRecords : List MoonEPReceivedRoute :=
  [⟨0, 0, 0, 0, 1⟩, ⟨0, 0, 1, 0, 0⟩, ⟨0, 0, 2, 0, 0⟩, ⟨0, 1, 0, 0, 0⟩]

theorem crowdedRecords_overflow :
    badDuplicateCall crowdedRecords.length 1 2 3 1 {} = false ∧
    (∀ r ∈ crowdedRecords, badRecord 1 2 3 1 r = false) ∧
    tokenRoutes crowdedRecords (0, 1) ≠ [] ∧ (primariesOf crowdedRecords (0, 1)).length ≠ 1 ∧
    (buildMoonEPDuplicateMetadata crowdedRecords 1 2 3 1 {}).map (·.2) =
      some .errorMoveRecordOverflow := by
  decide

theorem duplicates_listed_pair :
    ∃ st, buildMoonEPDuplicateMetadata [⟨0, 0, 1, 1, 0⟩, ⟨0, 0, 0, 0, 1⟩] 1 1 2 2 {} = some (st, .ok) ∧
      ∃ tokens others, ListsGroups [⟨0, 0, 1, 1, 0⟩, ⟨0, 0, 0, 0, 1⟩] st tokens others :=
  ⟨_, rfl, ((buildMoonEPDuplicateMetadata_lists _ 1 1 2 2 {} (by decide)).1 _ rfl).1⟩

/-! ## Where the counters stay in range -/

/-- The tokens the loops come to before a token count can overflow. -/
def loopTokens (rankSize s : ℕ) : List (ℕ × ℕ) :=
  if s ≤ int32Max then allTokens rankSize s else sourceTokens 0 (int32Max + 1)

section Range
variable {records : List MoonEPReceivedRoute} {rankSize s topK nvS : ℕ}

theorem groupSource_settled (h : ∀ st, a ≠ some (st, .ok)) (src : ℕ) : groupSource records s topK nvS a src = a := by
  have hfix : ∀ tokens : List (ℕ × ℕ), tokens.foldl (groupToken records topK nvS) a = a := by
    refine foldl_fixed' fun token => ?_
    rcases a with _ | ⟨st, status⟩
    · rfl
    · have : status ≠ .ok := fun h0 => h st (by rw [h0])
      simp [groupToken, this]
  rw [groupSource, hfix, hfix]
  rcases a with _ | ⟨st, status⟩
  · simp
  · have : status ≠ .ok := fun h0 => h st (by rw [h0])
    simp [this]

theorem foldl_groupSource_settled (h : ∀ st, a ≠ some (st, .ok))
    (sources : List ℕ) : sources.foldl (groupSource records s topK nvS) a = a :=
  foldl_fixed' (groupSource_settled h) sources

theorem filter_ne_ok (a : Option (DuplicateState × PlanStatus)) (st : DuplicateState) :
    a.filter (fun x => x.2 ≠ .ok) ≠ some (st, .ok) := fun h => by
  simp [filter_eq_some_iff] at h

/-- Above `INT32_MAX` tokens only source 0 counts: it ends the call or overflows. -/
theorem foldl_groupSource_of_lt (hs : int32Max < s) (hR : 0 < rankSize) :
    (List.range rankSize).foldl (groupSource records s topK nvS) (some (.initial, .ok)) =
      ((loopTokens rankSize s).foldl (groupToken records topK nvS) (some (.initial, .ok))).filter
        fun x => x.2 ≠ .ok := by
  obtain ⟨n, rfl⟩ := Nat.exists_eq_add_of_le' hR
  rw [range_succ_eq_map, foldl_cons, groupSource, if_neg (not_le.2 hs), loopTokens, if_neg (not_le.2 hs)]
  exact foldl_groupSource_settled (filter_ne_ok _) _

/-- A prefix of the tokens that does not end the call has few enough groups. -/
def FewGroups (records : List MoonEPReceivedRoute) (nvS : ℕ) (tokens : List (ℕ × ℕ)) : Prop :=
  ∀ before after, tokens = before ++ after → Passes records nvS before →
    3 * (sharedTokens records before).length ≤ int32Max + 1

/-- The loops after some tokens: an overflow of a group index, or a state with its counters in range,
unfinished exactly if no token has ended the call. -/
theorem groupTokens_range (hin : RecordsIn records rankSize s topK nvS) (tokens : List (ℕ × ℕ)) :
    (¬ FewGroups records nvS tokens ∧ tokens.foldl (groupToken records topK nvS) (some (.initial, .ok)) = none) ∨
    (FewGroups records nvS tokens ∧ ∃ st status,
      tokens.foldl (groupToken records topK nvS) (some (.initial, .ok)) = some (st, status) ∧
      (status = .ok ↔ Passes records nvS tokens) ∧ st.groupCount * 3 ≤ int32Max + 1 ∧ st.duplicateCount ≤ nvS) := by
  have hbound : ∀ {before st}, Running records topK nvS before st →
      st.groupCount * 3 ≤ int32Max + 1 ∧ st.duplicateCount ≤ nvS := fun hrun =>
    ⟨by rw [hrun.grouped.groupCount, Nat.mul_comm]; exact hrun.index, by rw [hrun.count]; exact hrun.room⟩
  obtain ⟨hp, st, hrun, hst⟩ | ⟨⟨before, after, heq, hp, hover⟩, hst⟩ |
    ⟨before, x, after, st, heq, hp, hx, hrun, hst⟩ := groupTokens_cases hin tokens
  · refine .inr ⟨fun front back heq _ => ?_, st, .ok, hst, by simp [hp], hbound hrun⟩
    have := sharedTokens_le_append records front back
    have := hrun.index
    rw [heq] at this
    omega
  · exact .inl ⟨fun h => by have := h before after heq hp; omega, hst⟩
  · refine .inr ⟨fun front back heq' hfront => ?_, st, _, hst, ?_, hbound hrun⟩
    · -- a front that passes ends before the token that ends the call
      rcases cut_cases (heq.symm.trans heq') with ⟨rest, rfl⟩ | ⟨rest, rfl⟩
      · have := sharedTokens_le_append records front rest
        have := hrun.index
        omega
      · exact absurd hx (hfront before x rest rfl)
    · simp only [stopStatus_ne_ok, false_iff]
      exact fun h => h before x after heq hx

end Range

/-- Every call that passes the entry checks: its loops end with the counters in range exactly if the
records are rejected at once, or every list of tokens handled without an error has at most 715827882
groups and, where `s` is above `INT32_MAX`, some token of source 0 ends the call. -/
theorem buildMoonEPDuplicateMetadata_range_iff (records : List MoonEPReceivedRoute)
    (rankSize s topK nvS : ℤ) (ptr : DuplicatePointers)
    (hcall : badDuplicateCall records.length rankSize s topK nvS ptr = false) :
    (∃ st status, buildMoonEPDuplicateMetadata records rankSize s topK nvS ptr = some (st, status) ∧
      st.groupCount * 3 ≤ int32Max + 1 ∧ st.duplicateCount ≤ int32Max) ↔
    (¬ RecordsIn records rankSize.toNat s.toNat topK.toNat nvS.toNat ∨
      FewGroups records nvS.toNat (loopTokens rankSize.toNat s.toNat) ∧
        (int32Max < s → ¬ Passes records nvS.toNat (loopTokens rankSize.toNat s.toNat))) := by
  obtain ⟨hR, hs0, hk, hn, hnmax⟩ := shape_of_call hcall
  obtain ⟨rankSize, rfl⟩ := Int.eq_ofNat_of_zero_le hR.le
  obtain ⟨s, rfl⟩ := Int.eq_ofNat_of_zero_le hs0.le
  obtain ⟨topK, rfl⟩ := Int.eq_ofNat_of_zero_le hk.le
  obtain ⟨nvS, rfl⟩ := Int.eq_ofNat_of_zero_le hn.le
  simp only [Int.toNat_natCast, Int.ofNat_lt]
  by_cases hin : RecordsIn records rankSize s topK nvS
  swap
  · obtain ⟨status, -, -, hb⟩ := build_of_not_recordsIn hcall hin
    exact ⟨fun _ => .inl hin, fun _ => ⟨_, _, hb, by simp [DuplicateState.initial],
      by simp [DuplicateState.initial]⟩⟩
  rw [build_of_recordsIn hcall hin]
  simp only [hin, not_true_eq_false, false_or]
  have hmax : nvS ≤ int32Max := by omega
  by_cases hs : s ≤ int32Max
  · have hloop : loopTokens rankSize s = allTokens rankSize s := if_pos hs
    rw [foldl_groupSource hs, hloop]
    obtain ⟨hfew, hst⟩ | ⟨hfew, st, status, hst, -, hg, hd⟩ :=
      groupTokens_range hin (allTokens rankSize s)
    · simp [hst, hfew]
    · refine ⟨fun _ => ⟨hfew, fun h => by omega⟩, fun _ => ⟨st, status, hst, hg, by omega⟩⟩
  · rw [foldl_groupSource_of_lt (by omega) (by omega)]
    obtain ⟨hfew, hst⟩ | ⟨hfew, st, status, hst, hok, hg, hd⟩ :=
      groupTokens_range hin (loopTokens rankSize s)
    · simp [hst, hfew]
    · by_cases hp : Passes records nvS (loopTokens rankSize s)
      · simp [hst, hok.2 hp, hp, hs]
      · have hne : status ≠ .ok := fun h => hp (hok.1 h)
        refine ⟨fun _ => ⟨hfew, fun _ => hp⟩, fun _ => ⟨st, status, ?_, hg, by omega⟩⟩
        simp [hst, hne]

/-- No records, and more tokens than `int32_t` counts: the token counter overflows. -/
theorem duplicates_token_overflow :
    badDuplicateCall 0 1 (2 ^ 31) 1 1 {} = false ∧
      buildMoonEPDuplicateMetadata [] 1 (2 ^ 31) 1 1 {} = none := by
  have hcall : badDuplicateCall 0 1 (2 ^ 31) 1 1 {} = false := by decide
  have hin : RecordsIn [] 1 (2 ^ 31) 1 1 := by constructor <;> simp
  have hidle : ∀ tokens : List (ℕ × ℕ), tokens.foldl (groupToken [] 1 1) (some (.initial, .ok)) =
      some (.initial, .ok) := List.foldl_fixed' fun _ => rfl
  refine ⟨hcall, ?_⟩
  have := @build_of_recordsIn [] 1 (2 ^ 31) 1 1 {} (by exact_mod_cast hcall) hin
  rw [foldl_groupSource_of_lt (by decide) (by decide), hidle] at this
  exact_mod_cast this

theorem duplicates_range_pair :
    ∃ st status, buildMoonEPDuplicateMetadata [⟨0, 0, 1, 1, 0⟩, ⟨0, 0, 0, 0, 1⟩] 1 1 2 2 {} =
      some (st, status) ∧ st.groupCount * 3 ≤ int32Max + 1 ∧ st.duplicateCount ≤ int32Max := by
  refine (buildMoonEPDuplicateMetadata_range_iff _ 1 1 2 2 {} (by decide)).2 (.inr ⟨?_, ?_⟩)
  · intro before after heq _
    have hone : before.length ≤ 1 := by
      have := congrArg List.length heq
      rw [List.length_append, show (loopTokens (1 : ℤ).toNat (1 : ℤ).toNat).length = 1 from rfl] at this
      omega
    have : (sharedTokens [⟨0, 0, 1, 1, 0⟩, ⟨0, 0, 0, 0, 1⟩] before).length ≤ before.length :=
      List.length_filter_le _ _
    have : 3 ≤ int32Max := by decide
    omega
  · exact fun h => absurd h (by decide)

end TileXR.Plan
