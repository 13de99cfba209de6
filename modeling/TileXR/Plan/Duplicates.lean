import Mathlib.Data.List.Perm.Subperm
import TileXR.Plan.DuplicateRuns

/-!
# What `BuildMoonEPDuplicateMetadata` writes

For records in range with distinct routes, distinct slots and one primary per token (`RecordsOk`) the
call succeeds as long as the `int32` index of the last group does not overflow: `dupGroups` lists the
tokens with several records in the order of the loops, each with its primary slot and the block of
`dupLoffs` that holds its other slots. The two capacity checks cannot fail, because a token with `n`
records uses one group entry and `n - 1` offsets, and the records have distinct slots below `nvS`.
-/

namespace TileXR.Plan
open List

/-- Records a plan can deliver to one rank. -/
structure RecordsOk (records : List MoonEPReceivedRoute) (rankSize s topK nvS : ℕ) : Prop
    extends RecordsIn records rankSize s topK nvS where
  slots : (records.map (·.recvSlot)).Nodup
  primary : ∀ token, tokenRoutes records token ≠ [] → (primariesOf records token).length = 1
  count : records.length ≤ rankSize * s * topK

section Records
variable {records : List MoonEPReceivedRoute} {rankSize s topK nvS : ℕ}

section
variable (h : RecordsOk records rankSize s topK nvS)
include h

theorem sum_tokenRoutes_le {tokens : List (ℕ × ℕ)}
    (hnodup : tokens.Nodup) : (tokens.flatMap (tokenRoutes records)).length ≤ records.length := by
  refine List.Subperm.length_le (subperm_of_subset ?_ fun r hr => ?_)
  · rw [nodup_flatMap]
    refine ⟨fun _ _ => h.nodup.filter _, hnodup.imp fun {a b} hne => ?_⟩
    rw [Function.onFun, disjoint_left]
    intro r hr hr'
    obtain ⟨-, h1, h2⟩ := mem_tokenRoutes.1 hr
    obtain ⟨-, h1', h2'⟩ := mem_tokenRoutes.1 hr'
    exact hne (Prod.ext (by omega) (by omega))
  · obtain ⟨_, _, hr⟩ := mem_flatMap.1 hr
    exact (mem_tokenRoutes.1 hr).1

theorem RecordsOk.length_le : records.length ≤ nvS := by
  have hsub : records.map (·.recvSlot) ⊆ (List.range nvS).map fun n : ℕ => (n : ℤ) := by
    intro x hx
    obtain ⟨r, hr, rfl⟩ := mem_map.1 hx
    obtain ⟨n, hn, hrn⟩ := h.recvSlot r hr
    exact mem_map.2 ⟨n, mem_range.2 hn, hrn.symm⟩
  have := (subperm_of_subset h.slots hsub).length_le
  simpa using this

end

theorem surplus_le (records : List MoonEPReceivedRoute) (tokens : List (ℕ × ℕ)) :
    surplus records tokens ≤ (tokens.flatMap (tokenRoutes records)).length := by
  rw [surplus, length_flatMap]
  exact sum_le_sum fun token _ => Nat.sub_le _ _

theorem RecordsOk.passes (h : RecordsOk records rankSize s topK nvS) {tokens : List (ℕ × ℕ)}
    (hnodup : tokens.Nodup) : Passes records nvS tokens := by
  rintro before token after rfl ⟨hne, hstop⟩
  have hsub : (before ++ [token]).Nodup := hnodup.sublist (by simp)
  have hroom := ((surplus_le records _).trans (sum_tokenRoutes_le h hsub)).trans h.length_le
  exact hstop.elim (fun hp => hp (h.primary token hne)) (by omega)

end Records

/-! ## The whole call -/

theorem buildMoonEPDuplicateMetadata_spec {records : List MoonEPReceivedRoute} {rankSize s topK nvS : ℕ}
    (hok : RecordsOk records rankSize s topK nvS) (hR : 0 < rankSize ∧ rankSize ≤ 128) (hs : 0 < s)
    (hk : 0 < topK ∧ topK ≤ 32) (hnvS : 0 < nvS ∧ nvS ≤ int32Max) (hcap : s * topK ≤ int32Max) :
    (3 * (sharedTokens records (allTokens rankSize s)).length ≤ int32Max + 1 → ∃ st,
      buildMoonEPDuplicateMetadata records rankSize s topK nvS {} = some (st, .ok) ∧
      Grouped records topK (allTokens rankSize s) st) ∧
    (int32Max + 1 < 3 * (sharedTokens records (allTokens rankSize s)).length →
      buildMoonEPDuplicateMetadata records rankSize s topK nvS {} = none) := by
  have hcall : badDuplicateCall records.length rankSize s topK nvS {} = false := by
    have hcount := hok.count
    have hprod : (0 : ℤ) < s * topK := by exact_mod_cast Nat.mul_pos hs hk.1
    have h1 : (s : ℤ) ≤ int64Max / topK := by
      rw [Int.le_ediv_iff_mul_le (by omega)]
      have : (s * topK : ℤ) ≤ int32Max := by exact_mod_cast hcap
      exact this.trans (by decide)
    have h2 : (rankSize : ℤ) ≤ int64Max / (s * topK) := by
      rw [Int.le_ediv_iff_mul_le hprod]
      calc (rankSize : ℤ) * (s * topK) ≤ 128 * int32Max := by
            exact_mod_cast Nat.mul_le_mul hR.2 hcap
        _ ≤ int64Max := by decide
    have h3 : (records.length : ℤ) ≤ rankSize * s * topK := by exact_mod_cast hcount
    simp only [badDuplicateCall, Bool.or_eq_false_iff, decide_eq_false_iff_not, not_lt, not_le]
    refine ⟨⟨⟨⟨⟨⟨⟨⟨⟨⟨⟨⟨⟨rfl, ?_⟩, ?_⟩, ?_⟩, ?_⟩, ?_⟩, ?_⟩, ?_⟩, rfl⟩, rfl⟩, rfl⟩, h1⟩, h2⟩, h3⟩ <;>
      omega
  have hsmall : s ≤ int32Max := (Nat.le_mul_of_pos_right s hk.1).trans hcap
  have hpass := hok.passes (allTokens_nodup rankSize s)
  unfold buildMoonEPDuplicateMetadata
  rw [hcall, checkRecords_eq_none_iff.2 hok.toRecordsIn]
  simp only [Int.toNat_natCast, foldl_groupSource hsmall, Bool.false_eq_true, if_false]
  obtain ⟨-, st, hrun, hst⟩ | ⟨⟨before, after, heq, -, hover⟩, hst⟩ |
    ⟨before, token, after, st, heq, -, hstop, -⟩ :=
      groupTokens_cases hok.toRecordsIn (allTokens rankSize s)
  · exact ⟨fun _ => ⟨st, hst, hrun.grouped⟩, fun h => by have := hrun.index; omega⟩
  · rw [heq] at hst ⊢
    have := sharedTokens_le_append records before after
    exact ⟨fun h => by omega, fun _ => hst⟩
  · exact absurd hstop (hpass before token after heq)

/-! ## What the metadata says -/

/-- The metadata names exactly the tokens with several records, each with its primary slot and a block
of `dupLoffs` that holds the slots of its other records. The blocks follow each other, and together they
hold the slots of all records that are not primary. -/
structure Describes (records : List MoonEPReceivedRoute) (st : DuplicateState) (tokens : List (ℕ × ℕ))
    (offset : ℕ → ℕ) : Prop where
  nodup : tokens.Nodup
  shared : ∀ token, token ∈ tokens ↔ 2 ≤ (tokenRoutes records token).length
  groupCount : st.groupCount = tokens.length
  first : offset 0 = 0
  last : offset tokens.length = st.duplicateCount
  primary : ∀ i token, tokens[i]? = some token → ∃ r ∈ tokenRoutes records token,
    r.isPrimary = 1 ∧ st.dupGroups (i * 3) = r.recvSlot
  block : ∀ i token, tokens[i]? = some token → ∃ n, offset (i + 1) = offset i + n ∧
    st.dupGroups (i * 3 + 1) = offset i ∧ st.dupGroups (i * 3 + 2) = n ∧
    ((List.range n).map fun j => st.dupLoffs (offset i + j)).Perm
      (((tokenRoutes records token).filter (·.isPrimary = 0)).map (·.recvSlot))
  slots : ((List.range st.duplicateCount).map st.dupLoffs).Perm
    ((records.filter (·.isPrimary = 0)).map (·.recvSlot))

section Describes
variable {records : List MoonEPReceivedRoute} {rankSize s topK nvS : ℕ}
  (hok : RecordsOk records rankSize s topK nvS)
include hok

/-- A record that is not primary belongs to a token with several records. -/
theorem mem_sharedDuplicates {r : MoonEPReceivedRoute} :
    r ∈ sharedDuplicates records topK (allTokens rankSize s) ↔ r ∈ records ∧ r.isPrimary = 0 := by
  simp only [sharedDuplicates, mem_flatMap, mem_sharedTokens hok.toRecordsIn, mem_duplicatesOf hok.toRecordsIn]
  constructor
  · rintro ⟨token, -, hr, hp⟩
    exact ⟨(mem_tokenRoutes.1 hr).1, hp⟩
  · rintro ⟨hr, hp⟩
    obtain ⟨n1, -, e1⟩ := hok.srcRank r hr
    obtain ⟨n2, -, e2⟩ := hok.tokenId r hr
    have hmem : r ∈ tokenRoutes records (n1, n2) := mem_tokenRoutes.2 ⟨hr, e1, e2⟩
    have hlen := length_duplicatesOf hok.toRecordsIn (hok.primary _ (ne_nil_of_mem hmem))
    have hdup : r ∈ duplicatesOf records topK (n1, n2) := (mem_duplicatesOf hok.toRecordsIn).2 ⟨hmem, hp⟩
    have := length_pos_of_mem hdup
    exact ⟨(n1, n2), by omega, hmem, hp⟩

theorem sharedDuplicates_nodup {tokens : List (ℕ × ℕ)} (hnodup : tokens.Nodup) :
    (sharedDuplicates records topK tokens).Nodup := by
  rw [sharedDuplicates, nodup_flatMap]
  refine ⟨fun token _ => duplicatesOf_nodup hok.toRecordsIn token, (hnodup.filter _).imp fun {a b} hne => ?_⟩
  rw [Function.onFun, disjoint_left]
  intro r hr hr'
  obtain ⟨-, h1, h2⟩ := mem_tokenRoutes.1 ((mem_duplicatesOf hok.toRecordsIn).1 hr).1
  obtain ⟨-, h1', h2'⟩ := mem_tokenRoutes.1 ((mem_duplicatesOf hok.toRecordsIn).1 hr').1
  exact hne (Prod.ext (by omega) (by omega))

theorem Grouped.describes {st : DuplicateState} (h : Grouped records topK (allTokens rankSize s) st) :
    Describes records st (sharedTokens records (allTokens rankSize s)) fun i =>
      (((sharedTokens records (allTokens rankSize s)).take i).flatMap (duplicatesOf records topK)).length := by
  set tokens := sharedTokens records (allTokens rankSize s) with htokens
  have hcount : st.duplicateCount = (sharedDuplicates records topK (allTokens rankSize s)).length := by
    rw [h.offsets.count, length_map]
  refine
    { nodup := (allTokens_nodup rankSize s).filter _
      shared := fun token => mem_sharedTokens hok.toRecordsIn
      groupCount := h.groupCount, first := rfl
      last := by rw [take_length, hcount]; rfl
      primary := fun i token hi => ?_, block := fun i token hi => ?_, slots := ?_ }
  · have htwo := (mem_sharedTokens hok.toRecordsIn).1 (mem_of_getElem? hi)
    obtain ⟨r, hr, hp, hslot⟩ := primarySlot_eq hok.toRecordsIn (hok.primary token fun h0 => by
      rw [h0] at htwo; simp at htwo)
    exact ⟨r, hr, hp, (h.group i token hi).1.trans hslot⟩
  · obtain ⟨-, hoff, hnum⟩ := h.group i token hi
    refine ⟨(duplicatesOf records topK token).length, ?_, hoff, hnum, ?_⟩
    · rw [take_add_one, hi]
      simp
    · rw [h.read_block hi]
      exact (duplicatesOf_perm hok.toRecordsIn token).map _
  · have hall := map_getD_block [] ((sharedDuplicates records topK (allTokens rankSize s)).map
      (·.recvSlot)) [] (-1)
    have hread : (List.range st.duplicateCount).map st.dupLoffs =
        (sharedDuplicates records topK (allTokens rankSize s)).map (·.recvSlot) := by
      rw [nil_append, append_nil] at hall
      rw [h.offsets.count]
      refine Eq.trans (map_congr_left fun i _ => ?_) hall
      rw [h.offsets.entry]; simp
    rw [hread]
    refine Perm.map _ ((perm_ext_iff_of_nodup
      (sharedDuplicates_nodup hok (allTokens_nodup rankSize s)) (hok.nodup.filter _)).2 fun r => ?_)
    rw [mem_sharedDuplicates hok, mem_filter, decide_eq_true_eq]

end Describes

end TileXR.Plan
