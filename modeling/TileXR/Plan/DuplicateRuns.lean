import Mathlib.Data.List.GetD
import Mathlib.Data.List.Induction
import TileXR.Plan.Downstream

/-!
# Runs of `BuildMoonEPDuplicateMetadata`

The loops over the tokens, for records that pass the checks of the call (`RecordsIn`). A token ends the
call with an error if it has no unique primary record, or if the records beyond the first of each token
so far exceed `nvS` (`Stops`). Without such a token (`Passes`) the arrays list the tokens with several
records (`Running`), up to the group whose `int32_t` index overflows.
-/

namespace TileXR.Plan
open List
open Function (update_self update_of_ne)

variable {r : MoonEPReceivedRoute}

/-- Records that pass the checks of the call. -/
structure RecordsIn (records : List MoonEPReceivedRoute) (rankSize s topK nvS : ℕ) : Prop where
  srcRank : ∀ r ∈ records, ∃ n < rankSize, r.srcRank = (n : ℤ)
  tokenId : ∀ r ∈ records, ∃ n < s, r.tokenId = (n : ℤ)
  topKId : ∀ r ∈ records, ∃ n < topK, r.topKId = (n : ℤ)
  recvSlot : ∀ r ∈ records, ∃ n < nvS, r.recvSlot = (n : ℤ)
  isPrimary : ∀ r ∈ records, r.isPrimary = 0 ∨ r.isPrimary = 1
  routes : records.Pairwise fun r r' => sameRoute r r' = false

def sharedTokens (records : List MoonEPReceivedRoute) (tokens : List (ℕ × ℕ)) : List (ℕ × ℕ) :=
  tokens.filter fun token => 2 ≤ (tokenRoutes records token).length

def sharedDuplicates (records : List MoonEPReceivedRoute) (topK : ℕ) (tokens : List (ℕ × ℕ)) :
    List MoonEPReceivedRoute :=
  (sharedTokens records tokens).flatMap (duplicatesOf records topK)

theorem recordMatches_iff {src token : ℕ} :
    recordMatches r src token = true ↔ r.srcRank = src ∧ r.tokenId = token := by
  simp [recordMatches]

theorem mem_tokenRoutes {records : List MoonEPReceivedRoute} {token : ℕ × ℕ} :
    r ∈ tokenRoutes records token ↔ r ∈ records ∧ r.srcRank = token.1 ∧ r.tokenId = token.2 := by
  rw [tokenRoutes, mem_filter, recordMatches_iff]

theorem mem_allTokens {rankSize s : ℕ} {token : ℕ × ℕ} :
    token ∈ allTokens rankSize s ↔ token.1 < rankSize ∧ token.2 < s := by
  obtain ⟨src, t⟩ := token
  simp [allTokens]

theorem allTokens_nodup (rankSize s : ℕ) : (allTokens rankSize s).Nodup := by
  rw [allTokens, nodup_flatMap]
  refine ⟨fun r _ => nodup_range.map fun a b h => (Prod.mk.inj h).2, ?_⟩
  refine nodup_range.imp fun {a b} hne => ?_
  rw [Function.onFun, disjoint_left]
  intro x hx hx'
  obtain ⟨_, _, rfl⟩ := mem_map.1 hx
  obtain ⟨_, _, h⟩ := mem_map.1 hx'
  exact hne (Prod.mk.inj h).1.symm

/-! ## The check of the records -/

theorem badRecord_eq_false_iff {rankSize s topK nvS : ℕ} : badRecord rankSize s topK nvS r = false ↔
      (∃ n < rankSize, r.srcRank = (n : ℤ)) ∧ (∃ n < s, r.tokenId = (n : ℤ)) ∧
      (∃ n < topK, r.topKId = (n : ℤ)) ∧ (∃ n < nvS, r.recvSlot = (n : ℤ)) ∧ (r.isPrimary = 0 ∨ r.isPrimary = 1) := by
  have hnat : ∀ (x : ℤ) (b : ℕ), (∃ n < b, x = (n : ℤ)) ↔ 0 ≤ x ∧ x < b := fun x b =>
    ⟨fun ⟨n, hn, hx⟩ => by omega, fun h => ⟨x.toNat, by omega, by omega⟩⟩
  simp only [badRecord, Bool.or_eq_false_iff, decide_eq_false_iff_not, not_lt, ge_iff_le, not_le,
    Bool.and_eq_false_iff, ne_eq, not_not, hnat]
  tauto

theorem recordsIn_iff {records : List MoonEPReceivedRoute} {rankSize s topK nvS : ℕ} :
    RecordsIn records rankSize s topK nvS ↔ (∀ r ∈ records, badRecord rankSize s topK nvS r = false) ∧
      records.Pairwise fun r r' => sameRoute r r' = false := by
  constructor
  · intro h
    exact ⟨fun r hr => badRecord_eq_false_iff.2 ⟨h.srcRank r hr, h.tokenId r hr, h.topKId r hr,
      h.recvSlot r hr, h.isPrimary r hr⟩, h.routes⟩
  · rintro ⟨hrange, hroutes⟩
    have hr := fun r hr => badRecord_eq_false_iff.1 (hrange r hr)
    exact ⟨fun r h => (hr r h).1, fun r h => (hr r h).2.1, fun r h => (hr r h).2.2.1,
      fun r h => (hr r h).2.2.2.1, fun r h => (hr r h).2.2.2.2, hroutes⟩

/-- Records in range: the check passes if their routes are distinct, and otherwise finds the repeated
route. -/
theorem checkRecords_of_range {records : List MoonEPReceivedRoute} {rankSize s topK nvS : ℤ}
    (hrange : ∀ r ∈ records, badRecord rankSize s topK nvS r = false) (prior : List MoonEPReceivedRoute)
    (hprior : prior.Pairwise fun r r' => sameRoute r r' = false) :
    checkRecords rankSize s topK nvS prior records =
      if (prior ++ records).Pairwise fun r r' => sameRoute r r' = false then none
      else some .errorInternalInvariant := by
  induction records generalizing prior with
  | nil => simp [checkRecords, hprior]
  | cons r rest ih =>
    unfold checkRecords
    rw [if_neg (by simpa using hrange r (by simp))]
    by_cases hany : prior.any (sameRoute · r) = true
    · obtain ⟨x, hx, hsame⟩ := any_eq_true.1 hany
      rw [if_pos hany, if_neg fun h => ?_]
      have := (pairwise_append.1 h).2.2 x hx r (by simp)
      simp [hsame] at this
    · have hsnoc : (prior ++ [r]).Pairwise fun r r' => sameRoute r r' = false := by
        refine pairwise_append.2 ⟨hprior, pairwise_singleton _ _, fun x hx y hy => ?_⟩
        obtain rfl := mem_singleton.1 hy
        exact Bool.eq_false_iff.2 fun h => hany (any_eq_true.2 ⟨x, hx, h⟩)
      rw [if_neg hany, ih (fun x hx => hrange x (mem_cons_of_mem _ hx)) _ hsnoc]
      simp

theorem range_of_checkRecords {records prior : List MoonEPReceivedRoute} {rankSize s topK nvS : ℤ}
    (h : checkRecords rankSize s topK nvS prior records = none) :
    ∀ r ∈ records, badRecord rankSize s topK nvS r = false := by
  induction records generalizing prior with
  | nil => simp
  | cons r rest ih =>
    unfold checkRecords at h
    split_ifs at h with hbad hany
    intro x hx
    rcases mem_cons.1 hx with rfl | hx
    · simpa using hbad
    · exact ih h x hx

theorem checkRecords_eq_none_iff {records : List MoonEPReceivedRoute} {rankSize s topK nvS : ℕ} :
    checkRecords rankSize s topK nvS [] records = none ↔ RecordsIn records rankSize s topK nvS := by
  rw [recordsIn_iff]
  constructor
  · intro h
    have hrange := range_of_checkRecords h
    refine ⟨hrange, ?_⟩
    rw [checkRecords_of_range hrange [] Pairwise.nil] at h
    by_contra hne
    simp [hne] at h
  · rintro ⟨hrange, hroutes⟩
    rw [checkRecords_of_range hrange [] Pairwise.nil, if_pos (by simpa using hroutes)]

/-! ## Records of a token -/

section Records
variable {records : List MoonEPReceivedRoute} {rankSize s topK nvS : ℕ}
  (h : RecordsIn records rankSize s topK nvS)
include h

theorem RecordsIn.nodup : records.Nodup :=
  h.routes.imp fun {r r'} hne heq => by simp [heq, sameRoute] at hne

theorem mem_duplicatesOf {token : ℕ × ℕ} :
    r ∈ duplicatesOf records topK token ↔ r ∈ tokenRoutes records token ∧ r.isPrimary = 0 := by
  simp only [duplicatesOf, mem_flatMap, mem_range, mem_filter, Bool.and_eq_true,
    decide_eq_true_eq, recordMatches_iff, mem_tokenRoutes]
  constructor
  · rintro ⟨k, -, hr, ⟨hm, -⟩, hp⟩
    exact ⟨⟨hr, hm⟩, hp⟩
  · rintro ⟨⟨hr, hm⟩, hp⟩
    obtain ⟨k, hk, hrk⟩ := h.topKId r hr
    exact ⟨k, hk, hr, ⟨hm, hrk⟩, hp⟩

theorem duplicatesOf_sorted (token : ℕ × ℕ) :
    (duplicatesOf records topK token).Pairwise fun r r' => r.topKId < r'.topKId := by
  rw [duplicatesOf, pairwise_flatMap]
  refine ⟨fun k _ => ?_, pairwise_lt_range.imp fun {k k'} hlt r hr r' hr' => ?_⟩
  · -- two records of one token and one `topKId` have one route
    refine (h.routes.filter _).imp_of_mem fun {r r'} hr hr' hne => ?_
    simp only [mem_filter, Bool.and_eq_true, decide_eq_true_eq, recordMatches_iff] at hr hr'
    simp [sameRoute, hr.2.1, hr'.2.1] at hne
  · simp only [mem_filter, Bool.and_eq_true, decide_eq_true_eq] at hr hr'
    omega

theorem duplicatesOf_nodup (token : ℕ × ℕ) : (duplicatesOf records topK token).Nodup :=
  (duplicatesOf_sorted h token).imp fun {r r'} hlt heq => by rw [heq] at hlt; exact lt_irrefl _ hlt

theorem duplicatesOf_perm (token : ℕ × ℕ) : (duplicatesOf records topK token).Perm
    ((tokenRoutes records token).filter (·.isPrimary = 0)) := by
  refine (perm_ext_iff_of_nodup (duplicatesOf_nodup h token) ((h.nodup.filter _).filter _)).2 fun r => ?_
  rw [mem_duplicatesOf h, mem_filter, decide_eq_true_eq]
  rfl

theorem length_duplicatesOf {token : ℕ × ℕ} (hprim : (primariesOf records token).length = 1) :
    (duplicatesOf records topK token).length + 1 = (tokenRoutes records token).length := by
  have hneg : (tokenRoutes records token).filter (·.isPrimary = 0) =
      (tokenRoutes records token).filter fun r => !decide (r.isPrimary ≠ 0) := by simp
  rw [(duplicatesOf_perm h token).length_eq, hneg, ← hprim, primariesOf, Nat.add_comm]
  exact (length_eq_length_filter_add fun r : MoonEPReceivedRoute => decide (r.isPrimary ≠ 0)).symm

theorem token_mem_allTokens {token : ℕ × ℕ} (hne : tokenRoutes records token ≠ []) :
    token ∈ allTokens rankSize s := by
  obtain ⟨r, hr⟩ := exists_mem_of_ne_nil _ hne
  obtain ⟨hmem, h1, h2⟩ := mem_tokenRoutes.1 hr
  obtain ⟨n1, hn1, e1⟩ := h.srcRank r hmem
  obtain ⟨n2, hn2, e2⟩ := h.tokenId r hmem
  exact mem_allTokens.2 ⟨by omega, by omega⟩

theorem mem_sharedTokens {token : ℕ × ℕ} : token ∈ sharedTokens records (allTokens rankSize s) ↔
    2 ≤ (tokenRoutes records token).length := by
  rw [sharedTokens, mem_filter, decide_eq_true_eq]
  refine ⟨fun h => h.2, fun h2 => ⟨token_mem_allTokens h fun h0 => ?_, h2⟩⟩
  rw [h0] at h2; simp at h2

theorem primarySlot_eq {token : ℕ × ℕ} (hprim : (primariesOf records token).length = 1) :
    ∃ r ∈ tokenRoutes records token, r.isPrimary = 1 ∧ primarySlot records token = r.recvSlot := by
  obtain ⟨r, hr⟩ := length_eq_one_iff.1 hprim
  have hmem : r ∈ primariesOf records token := by rw [hr]; simp
  rw [primariesOf, mem_filter] at hmem
  refine ⟨r, hmem.1, ?_, by rw [primarySlot, hr]; rfl⟩
  exact (h.isPrimary r (mem_tokenRoutes.1 hmem.1).1).resolve_left (by simpa using hmem.2)

end Records

/-! ## The offsets -/

theorem map_getD_block {α : Type*} (before block after : List α) (d : α) :
    ((List.range block.length).map fun j => (before ++ (block ++ after)).getD (before.length + j) d) = block := by
  refine ext_getElem (by simp) fun j h1 h2 => ?_
  rw [getElem_map, getElem_range, getD_append_right _ _ _ _ (by omega),
    Nat.add_sub_cancel_left, getD_append _ _ _ _ h2, getD_eq_getElem _ _ h2]

structure OffsetsAre (st : DuplicateState) (slots : List ℤ) : Prop where
  count : st.duplicateCount = slots.length
  entry : ∀ i, st.dupLoffs i = slots.getD i (-1)

theorem OffsetsAre.addSlot {st : DuplicateState} {slots : List ℤ} (h : OffsetsAre st slots) (x : ℤ) :
    OffsetsAre (st.addSlot x) (slots ++ [x]) where
  count := by simp [DuplicateState.addSlot, h.count]
  entry i := by
    simp only [DuplicateState.addSlot, h.count]
    rcases Nat.lt_trichotomy i slots.length with hlt | rfl | hgt
    · rw [update_of_ne (by omega), h.entry, getD_append _ _ _ _ hlt]
    · rw [update_self, getD_append_right _ _ _ _ le_rfl, Nat.sub_self]; rfl
    · rw [update_of_ne (by omega), h.entry, getD_eq_default _ _ (by omega),
        getD_eq_default _ _ (by simp; omega)]

theorem OffsetsAre.foldl {st : DuplicateState} {slots : List ℤ} (h : OffsetsAre st slots)
    (more : List ℤ) : OffsetsAre (more.foldl DuplicateState.addSlot st) (slots ++ more) := by
  induction more generalizing st slots with
  | nil => simpa using h
  | cons x more ih =>
    have := ih (h.addSlot x)
    rwa [append_assoc] at this

theorem foldl_addSlot_groups (st : DuplicateState) (slots : List ℤ) :
    (slots.foldl DuplicateState.addSlot st).dupGroups = st.dupGroups ∧
      (slots.foldl DuplicateState.addSlot st).groupCount = st.groupCount := by
  induction slots generalizing st with
  | nil => exact ⟨rfl, rfl⟩
  | cons x slots ih => exact ih _

/-! ## The groups -/

/-- The arrays after the tokens `tokens`. -/
structure Grouped (records : List MoonEPReceivedRoute) (topK : ℕ) (tokens : List (ℕ × ℕ))
    (st : DuplicateState) : Prop where
  groupCount : st.groupCount = (sharedTokens records tokens).length
  offsets : OffsetsAre st ((sharedDuplicates records topK tokens).map (·.recvSlot))
  group : ∀ i token, (sharedTokens records tokens)[i]? = some token →
    st.dupGroups (i * 3) = primarySlot records token ∧
    st.dupGroups (i * 3 + 1) =
      (((sharedTokens records tokens).take i).flatMap (duplicatesOf records topK)).length ∧
    st.dupGroups (i * 3 + 2) = (duplicatesOf records topK token).length

theorem Grouped.nil (records : List MoonEPReceivedRoute) (topK : ℕ) : Grouped records topK [] .initial where
  groupCount := rfl
  offsets := ⟨rfl, fun _ => rfl⟩
  group i token h := by simp [sharedTokens] at h

section Groups
variable {records : List MoonEPReceivedRoute} {rankSize s topK nvS : ℕ} {tokens : List (ℕ × ℕ)}
  {token : ℕ × ℕ} {st : DuplicateState}

theorem sharedTokens_snoc_of_lt (tokens : List (ℕ × ℕ)) (h : (tokenRoutes records token).length < 2) :
    sharedTokens records (tokens ++ [token]) = sharedTokens records tokens := by
  rw [sharedTokens, filter_append, filter_cons_of_neg (by simpa using h)]
  simp [sharedTokens]

theorem sharedTokens_snoc (tokens : List (ℕ × ℕ)) (h : 2 ≤ (tokenRoutes records token).length) :
    sharedTokens records (tokens ++ [token]) = sharedTokens records tokens ++ [token] := by
  rw [sharedTokens, filter_append, filter_cons_of_pos (by simpa using h)]
  rfl

section
variable (h : Grouped records topK tokens st)
include h

theorem Grouped.skip
    (hlt : (tokenRoutes records token).length < 2) : Grouped records topK (tokens ++ [token]) st := by
  have heq := sharedTokens_snoc_of_lt tokens hlt
  exact ⟨by rw [heq]; exact h.groupCount, by rw [sharedDuplicates, heq]; exact h.offsets,
    by rw [heq]; exact h.group⟩

/-- A token with several records adds a group and its offsets. -/
theorem Grouped.add (htwo : 2 ≤ (tokenRoutes records token).length) {count : ℕ}
    (hcount : count = (duplicatesOf records topK token).length) : Grouped records topK (tokens ++ [token])
      (((duplicatesOf records topK token).map (·.recvSlot)).foldl DuplicateState.addSlot
        (st.addGroup (primarySlot records token) count)) := by
  have heq := sharedTokens_snoc tokens htwo
  obtain ⟨hgroups, hgc⟩ := foldl_addSlot_groups (st.addGroup (primarySlot records token) count)
    ((duplicatesOf records topK token).map (·.recvSlot))
  have hoff : OffsetsAre (st.addGroup (primarySlot records token) count)
      ((sharedDuplicates records topK tokens).map (·.recvSlot)) := ⟨h.offsets.count, h.offsets.entry⟩
  refine ⟨?_, ?_, fun i tok hi => ?_⟩
  · rw [hgc, heq, length_append, ← h.groupCount]; rfl
  · have := hoff.foldl ((duplicatesOf records topK token).map (·.recvSlot))
    rwa [← map_append, show sharedDuplicates records topK tokens ++ duplicatesOf records topK token
      = sharedDuplicates records topK (tokens ++ [token]) by simp [sharedDuplicates, heq]] at this
  · rw [heq] at hi ⊢
    rw [hgroups]
    simp only [DuplicateState.addGroup]
    have hlen := (List.getElem?_eq_some_iff.1 hi).1
    rw [length_append, length_singleton, ← h.groupCount] at hlen
    rcases Nat.lt_or_ge i st.groupCount with hlt | hge
    · -- an earlier group: none of the three words written now is one of its words
      rw [List.getElem?_append_left (by rw [← h.groupCount]; exact hlt)] at hi
      rw [take_append_of_le_length (by rw [← h.groupCount]; exact hlt.le)]
      obtain ⟨h1, h2, h3⟩ := h.group i tok hi
      refine ⟨?_, ?_, ?_⟩
      all_goals rw [update_of_ne (by omega), update_of_ne (by omega),
        update_of_ne (by omega)]; assumption
    · obtain rfl : i = st.groupCount := by omega
      rw [h.groupCount, List.getElem?_concat_length] at hi
      obtain rfl := Option.some.inj hi
      refine ⟨?_, ?_, ?_⟩
      · rw [update_of_ne (by omega), update_of_ne (by omega), update_self]
      · rw [update_of_ne (by omega), update_self, h.offsets.count, h.groupCount,
          take_left', length_map]
        · rfl
        · rfl
      · rw [update_self, hcount]

/-- The offsets of a group, read through the offset and the number the group holds. -/
theorem Grouped.read_block {i : ℕ} (hi : (sharedTokens records tokens)[i]? = some token) :
    ((List.range (duplicatesOf records topK token).length).map fun j => st.dupLoffs
      ((((sharedTokens records tokens).take i).flatMap (duplicatesOf records topK)).length + j)) =
      (duplicatesOf records topK token).map (·.recvSlot) := by
  set shared := sharedTokens records tokens with hshared
  have hsplit : shared.take i ++ token :: shared.drop (i + 1) = shared := by
    obtain ⟨hlt, rfl⟩ := List.getElem?_eq_some_iff.1 hi
    rw [← drop_eq_getElem_cons hlt, take_append_drop]
  have hlist : (sharedDuplicates records topK tokens).map (·.recvSlot) =
      ((shared.take i).flatMap (duplicatesOf records topK)).map (·.recvSlot) ++
      ((duplicatesOf records topK token).map (·.recvSlot) ++
        ((shared.drop (i + 1)).flatMap (duplicatesOf records topK)).map (·.recvSlot)) := by
    rw [sharedDuplicates, ← hshared, ← map_append, ← map_append, ← flatMap_cons, ← flatMap_append, hsplit]
  have hblock := map_getD_block (((shared.take i).flatMap (duplicatesOf records topK)).map
    (·.recvSlot)) ((duplicatesOf records topK token).map (·.recvSlot))
    (((shared.drop (i + 1)).flatMap (duplicatesOf records topK)).map (·.recvSlot)) (-1)
  rw [← hlist, length_map, length_map] at hblock
  simp only [h.offsets.entry]
  exact hblock

end

end Groups

/-! ## The loops -/

/-- The records beyond the first of each token. -/
def surplus (records : List MoonEPReceivedRoute) (tokens : List (ℕ × ℕ)) : ℕ :=
  (tokens.map fun token => (tokenRoutes records token).length - 1).sum

/-- The token after `before` ends the call with an error. -/
def Stops (records : List MoonEPReceivedRoute) (nvS : ℕ) (before : List (ℕ × ℕ)) (token : ℕ × ℕ) : Prop :=
  tokenRoutes records token ≠ [] ∧
    ((primariesOf records token).length ≠ 1 ∨ nvS < surplus records (before ++ [token]))

def stopStatus (records : List MoonEPReceivedRoute) (token : ℕ × ℕ) : PlanStatus :=
  if (primariesOf records token).length ≠ 1 then .errorInternalInvariant else .errorMoveRecordOverflow

theorem stopStatus_ne_ok (records : List MoonEPReceivedRoute) (token : ℕ × ℕ) : stopStatus records token ≠ .ok := by
  unfold stopStatus
  split_ifs <;> decide

/-- No token of the list ends the call. -/
def Passes (records : List MoonEPReceivedRoute) (nvS : ℕ) (tokens : List (ℕ × ℕ)) : Prop :=
  ∀ before token after, tokens = before ++ token :: after → ¬ Stops records nvS before token

/-- The call after the tokens `tokens`, none of which has ended it. -/
structure Running (records : List MoonEPReceivedRoute) (topK nvS : ℕ) (tokens : List (ℕ × ℕ))
    (st : DuplicateState) : Prop where
  grouped : Grouped records topK tokens st
  count : st.duplicateCount = surplus records tokens
  room : surplus records tokens ≤ nvS
  index : 3 * (sharedTokens records tokens).length ≤ int32Max + 1
  rest : ∀ i, st.groupCount * 3 ≤ i → st.dupGroups i = -1

section Runs
variable {records : List MoonEPReceivedRoute} {rankSize s topK nvS : ℕ} {tokens : List (ℕ × ℕ)}
  {token : ℕ × ℕ} {st : DuplicateState}

theorem surplus_snoc (records : List MoonEPReceivedRoute) (tokens : List (ℕ × ℕ)) (token : ℕ × ℕ) :
    surplus records (tokens ++ [token]) = surplus records tokens + ((tokenRoutes records token).length - 1) := by
  simp [surplus]

theorem surplus_le_append (records : List MoonEPReceivedRoute) (before after : List (ℕ × ℕ)) :
    surplus records before ≤ surplus records (before ++ after) := by
  simp [surplus]

theorem sharedTokens_le_append (records : List MoonEPReceivedRoute) (before after : List (ℕ × ℕ)) :
    (sharedTokens records before).length ≤ (sharedTokens records (before ++ after)).length :=
  ((sublist_append_left before after).filter _).length_le

theorem sharedTokens_le_surplus (records : List MoonEPReceivedRoute) (tokens : List (ℕ × ℕ)) :
    (sharedTokens records tokens).length ≤ surplus records tokens := by
  induction tokens using List.reverseRecOn with
  | nil => exact le_rfl
  | append_singleton tokens token ih =>
    rw [surplus_snoc]
    by_cases htwo : 2 ≤ (tokenRoutes records token).length
    · rw [sharedTokens_snoc _ htwo, length_append, length_singleton]
      omega
    · rw [sharedTokens_snoc_of_lt _ (by omega)]
      omega

theorem passes_nil : Passes records nvS [] := fun before token after h => by simp at h

theorem Passes.left {before after : List (ℕ × ℕ)} (h : Passes records nvS (before ++ after)) :
    Passes records nvS before := fun b t a heq => h b t (a ++ after) (by rw [heq]; simp)

theorem passes_snoc : Passes records nvS (tokens ++ [token]) ↔
    Passes records nvS tokens ∧ ¬ Stops records nvS tokens token := by
  refine ⟨fun h => ⟨h.left, h tokens token [] rfl⟩, fun ⟨h, hstop⟩ before t after heq => ?_⟩
  rcases eq_nil_or_concat' after with rfl | ⟨after, x, rfl⟩
  · obtain ⟨rfl, hx⟩ := append_inj' heq rfl
    obtain rfl := singleton_inj.1 hx
    exact hstop
  · rw [← cons_append, ← append_assoc] at heq
    exact h before t after (append_inj' heq rfl).1

theorem Running.initial : Running records topK nvS [] .initial where
  grouped := .nil _ _
  count := rfl
  room := Nat.zero_le _
  index := by simp [sharedTokens]
  rest _ _ := rfl

theorem Running.skip (h : Running records topK nvS tokens st)
    (hlt : (tokenRoutes records token).length < 2) : Running records topK nvS (tokens ++ [token]) st := by
  have hsur : surplus records (tokens ++ [token]) = surplus records tokens := by
    rw [surplus_snoc]; omega
  exact ⟨h.grouped.skip hlt, by rw [hsur]; exact h.count, by rw [hsur]; exact h.room,
    by rw [sharedTokens_snoc_of_lt _ hlt]; exact h.index, h.rest⟩

/-- A token with several records, one of them primary, for which there is room. -/
theorem Running.add (h : Running records topK nvS tokens st) (hin : RecordsIn records rankSize s topK nvS)
    (htwo : 2 ≤ (tokenRoutes records token).length) (hprim : (primariesOf records token).length = 1)
    (hroom : surplus records (tokens ++ [token]) ≤ nvS)
    (hindex : 3 * (sharedTokens records (tokens ++ [token])).length ≤ int32Max + 1) :
    Running records topK nvS (tokens ++ [token])
      (((duplicatesOf records topK token).map (·.recvSlot)).foldl DuplicateState.addSlot
        (st.addGroup (primarySlot records token) ((tokenRoutes records token).length - 1))) := by
  have hlen := length_duplicatesOf hin hprim
  have hg := h.grouped.add htwo (show (tokenRoutes records token).length - 1 = _ by omega)
  obtain ⟨hgroups, hgc⟩ := foldl_addSlot_groups
    (st.addGroup (primarySlot records token) ((tokenRoutes records token).length - 1))
    ((duplicatesOf records topK token).map (·.recvSlot))
  refine ⟨hg, ?_, hroom, hindex, fun i hi => ?_⟩
  · rw [hg.offsets.count, sharedDuplicates, sharedTokens_snoc _ htwo, flatMap_append,
      flatMap_singleton, map_append, length_append, surplus_snoc, ← h.count,
      h.grouped.offsets.count, length_map, length_map, length_map, sharedDuplicates]
    omega
  · rw [hgc] at hi
    rw [hgroups]
    simp only [DuplicateState.addGroup] at hi ⊢
    rw [update_of_ne (by omega), update_of_ne (by omega),
      update_of_ne (by omega)]
    exact h.rest i (by omega)

theorem groupToken_cases (hin : RecordsIn records rankSize s topK nvS) (h : Running records topK nvS tokens st)
    (token : ℕ × ℕ) : (¬ Stops records nvS tokens token ∧ ∃ st', Running records topK nvS (tokens ++ [token]) st' ∧
      groupToken records topK nvS (some (st, .ok)) token = some (st', .ok)) ∨
    (¬ Stops records nvS tokens token ∧ int32Max + 1 < 3 * (sharedTokens records (tokens ++ [token])).length ∧
      groupToken records topK nvS (some (st, .ok)) token = none) ∨ (Stops records nvS tokens token ∧
      groupToken records topK nvS (some (st, .ok)) token = some (st, stopStatus records token)) := by
  unfold groupToken
  dsimp only
  rw [if_neg (by decide)]
  by_cases h0 : (tokenRoutes records token).length = 0
  · rw [if_pos h0]
    exact .inl ⟨fun hs => hs.1 (length_eq_zero_iff.1 h0), st, h.skip (by omega), rfl⟩
  have hne : tokenRoutes records token ≠ [] := fun hnil => h0 (by rw [hnil]; rfl)
  rw [if_neg h0]
  by_cases hprim : (primariesOf records token).length = 1
  swap
  · rw [if_pos hprim]
    exact .inr (.inr ⟨⟨hne, .inl hprim⟩, by rw [stopStatus, if_pos hprim]⟩)
  rw [if_neg (not_not.2 hprim)]
  have hstops : Stops records nvS tokens token ↔ nvS < surplus records (tokens ++ [token]) :=
    ⟨fun hs => hs.2.resolve_left (not_not.2 hprim), fun hs => ⟨hne, .inr hs⟩⟩
  have hsur := surplus_snoc records tokens token
  have hcount := h.count
  have hroom := h.room
  rw [hstops]
  by_cases h1 : (tokenRoutes records token).length = 1
  · rw [if_pos h1]
    exact .inl ⟨by omega, st, h.skip (by omega), rfl⟩
  rw [if_neg h1]
  have htwo : 2 ≤ (tokenRoutes records token).length := by omega
  have hgroups : (sharedTokens records (tokens ++ [token])).length = st.groupCount + 1 := by
    rw [sharedTokens_snoc _ htwo, length_append, h.grouped.groupCount, length_singleton]
  have hle := sharedTokens_le_surplus records (tokens ++ [token])
  by_cases hover : nvS < surplus records (tokens ++ [token])
  · rw [if_pos (by omega)]
    exact .inr (.inr ⟨hover, by rw [stopStatus, if_neg (not_not.2 hprim)]⟩)
  rw [if_neg (by omega)]
  by_cases hindex : st.groupCount * 3 + 2 > int32Max
  · rw [if_pos hindex]
    exact .inr (.inl ⟨hover, by omega, rfl⟩)
  · rw [if_neg hindex]
    exact .inl ⟨hover, _, h.add hin htwo hprim (by omega) (by omega), rfl⟩

theorem groupTokens_cases (hin : RecordsIn records rankSize s topK nvS) (tokens : List (ℕ × ℕ)) :
    (Passes records nvS tokens ∧ ∃ st, Running records topK nvS tokens st ∧
      tokens.foldl (groupToken records topK nvS) (some (.initial, .ok)) = some (st, .ok)) ∨
    ((∃ before after, tokens = before ++ after ∧ Passes records nvS before ∧
        int32Max + 1 < 3 * (sharedTokens records before).length) ∧
      tokens.foldl (groupToken records topK nvS) (some (.initial, .ok)) = none) ∨
    ∃ before token after st, tokens = before ++ token :: after ∧ Passes records nvS before ∧
      Stops records nvS before token ∧ Running records topK nvS before st ∧
      tokens.foldl (groupToken records topK nvS) (some (.initial, .ok)) = some (st, stopStatus records token) := by
  induction tokens using List.reverseRecOn with
  | nil => exact .inl ⟨passes_nil, _, .initial, rfl⟩
  | append_singleton tokens token ih =>
    rw [foldl_append, foldl_cons, foldl_nil]
    obtain ⟨hp, st, hrun, hst⟩ | ⟨⟨before, after, heq, hp, hover⟩, hst⟩ |
      ⟨before, t, after, st, heq, hp, hstop, hrun, hst⟩ := ih
    · rw [hst]
      obtain ⟨hs, st', hrun', hst'⟩ | ⟨hs, hover, hst'⟩ | ⟨hs, hst'⟩ :=
        groupToken_cases hin hrun token
      · exact .inl ⟨passes_snoc.2 ⟨hp, hs⟩, st', hrun', hst'⟩
      · exact .inr (.inl ⟨⟨tokens ++ [token], [], by simp, passes_snoc.2 ⟨hp, hs⟩, hover⟩, hst'⟩)
      · exact .inr (.inr ⟨tokens, token, [], st, rfl, hp, hs, hrun, hst'⟩)
    · rw [hst]
      exact .inr (.inl ⟨⟨before, after ++ [token], by simp [heq], hp, hover⟩, rfl⟩)
    · rw [hst]
      refine .inr (.inr ⟨before, t, after ++ [token], st, by simp [heq], hp, hstop, hrun, ?_⟩)
      simp [groupToken, stopStatus_ne_ok]

end Runs

/-- With `s` in range the two loops are one over all tokens. -/
theorem foldl_groupSource {records : List MoonEPReceivedRoute} {rankSize s topK nvS : ℕ} (hs : s ≤ int32Max)
    (a : Option (DuplicateState × PlanStatus)) : (List.range rankSize).foldl (groupSource records s topK nvS) a =
      (allTokens rankSize s).foldl (groupToken records topK nvS) a := by
  rw [allTokens, foldl_flatMap]
  congr 1
  funext a src
  rw [groupSource, if_pos hs]
  rfl

end TileXR.Plan
