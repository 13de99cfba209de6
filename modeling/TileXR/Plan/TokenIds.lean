import TileXR.Plan.Types
import Mathlib.Algebra.Order.Ring.Int

/-!
# Global token ids

`EncodeMoonEPGlobalTokenId` and `DecodeMoonEPGlobalTokenId` of `ep_plan_downstream.cpp`, for output pointers
that are given. Words of 64 bits are natural numbers that are cut back where the source may wrap. Both
functions compute one relation between indices and ids, `IsTokenId` (`encode_eq_ok_iff`,
`decode_eq_ok_iff`): the row-major number of the index, without wrap and below the reserved id.
-/

namespace TileXR.Plan
open Int Nat

/-- `UINT64_MAX`, which is also `TILEXR_MOONEP_INVALID_GLOBAL_TOKEN_ID`. -/
def uint64Max : ℕ := 2 ^ 64 - 1

/-- An `int32_t`. -/
@[ext]
structure Word32 where
  val : ℤ
  lower : -2 ^ 31 ≤ val
  upper : val ≤ int32Max
  deriving DecidableEq

@[ext]
structure TokenIndex where
  srcRank : Word32
  tokenId : Word32
  topKId : Word32
  deriving DecidableEq

def encodeMoonEPGlobalTokenId (t : TokenIndex) (rankSize s topK : ℤ) : Except PlanStatus (BitVec 64) :=
  if rankSize ≤ 0 ∨ s ≤ 0 ∨ topK ≤ 0 ∨ t.srcRank.val < 0 ∨ t.srcRank.val ≥ rankSize ∨ t.tokenId.val < 0 ∨
      t.tokenId.val ≥ s ∨ t.topKId.val < 0 ∨ t.topKId.val ≥ topK then .error .errorConfigMismatch
  else
    let ur := t.srcRank.val.toNat
    let us := s.toNat
    let uk := topK.toNat
    let ut := t.tokenId.val.toNat
    if ur > uint64Max / us ∨ ur * us % 2 ^ 64 > uint64Max - ut then .error .errorConfigMismatch
    else
      let tokenBase := (ur * us + ut) % 2 ^ 64
      if tokenBase > uint64Max / uk ∨ tokenBase * uk % 2 ^ 64 > uint64Max - t.topKId.val.toNat then
        .error .errorConfigMismatch
      else
        let globalTokenId := BitVec.ofNat 64 (tokenBase * uk + t.topKId.val.toNat)
        if globalTokenId.toNat = uint64Max then .error .errorConfigMismatch else .ok globalTokenId

/-- A word that fits an `int32_t`. -/
def Word32.ofNat (n : ℕ) (h : n ≤ int32Max) : Word32 := ⟨n, by omega, by omega⟩

def decodeMoonEPGlobalTokenId (globalTokenId : BitVec 64) (rankSize s topK : ℤ) :
    Except PlanStatus TokenIndex :=
  if rankSize ≤ 0 ∨ s ≤ 0 ∨ topK ≤ 0 ∨ globalTokenId.toNat = uint64Max then .error .errorConfigMismatch
  else
    let tokenBase := globalTokenId.toNat / topK.toNat
    let rank := tokenBase / s.toNat
    let token := tokenBase % s.toNat
    let topKIndex := globalTokenId.toNat % topK.toNat
    if h : rank ≥ rankSize.toNat ∨ rank > int32Max ∨ token > int32Max ∨ topKIndex > int32Max then
      .error .errorConfigMismatch
    else .ok ⟨.ofNat rank (by omega), .ofNat token (by omega), .ofNat topKIndex (by omega)⟩

structure TokenIndex.InShape (t : TokenIndex) (rankSize s topK : ℤ) : Prop where
  src : 0 ≤ t.srcRank.val ∧ t.srcRank.val < rankSize
  token : 0 ≤ t.tokenId.val ∧ t.tokenId.val < s
  topK : 0 ≤ t.topKId.val ∧ t.topKId.val < topK

/-- The row-major number of an index. -/
def TokenIndex.number (t : TokenIndex) (s topK : ℤ) : ℤ :=
  (t.srcRank.val * s + t.tokenId.val) * topK + t.topKId.val

structure IsTokenId (rankSize s topK : ℤ) (t : TokenIndex) (id : BitVec 64) : Prop where
  shape : t.InShape rankSize s topK
  number : (id.toNat : ℤ) = t.number s topK
  valid : id.toNat < uint64Max

variable {rankSize s topK : ℤ} {t t' : TokenIndex} {id id' : BitVec 64}

/-! ## Encoding -/

/-- What the guard of a step lets through is a product and a sum that do not wrap. -/
theorem guard_iff {a b c : ℕ} (hb : 0 < b) (hc : c ≤ uint64Max) :
    ¬ (a > uint64Max / b ∨ a * b % 2 ^ 64 > uint64Max - c) ↔ a * b + c ≤ uint64Max := by
  rw [not_or, not_lt, Nat.le_div_iff_mul_le hb, not_lt]
  unfold uint64Max at hc ⊢
  constructor
  · rintro ⟨hab, hmod⟩
    rw [mod_eq_of_lt (by omega)] at hmod
    omega
  · intro hle
    rw [mod_eq_of_lt (by omega)]
    omega

theorem TokenIndex.InShape.number_eq (h : t.InShape rankSize s topK) : t.number s topK =
      ((t.srcRank.val.toNat * s.toNat + t.tokenId.val.toNat) * topK.toNat + t.topKId.val.toNat : ℕ) := by
  have hsrc := h.src
  have htoken := h.token
  have htopK := h.topK
  rw [number]
  push_cast
  rw [toNat_of_nonneg hsrc.1, toNat_of_nonneg htoken.1, toNat_of_nonneg htopK.1,
    toNat_of_nonneg (by omega), toNat_of_nonneg (by omega)]

theorem encode_eq_ok_iff : encodeMoonEPGlobalTokenId t rankSize s topK = .ok id ↔ IsTokenId rankSize s topK t id := by
  unfold encodeMoonEPGlobalTokenId
  by_cases hshape : t.InShape rankSize s topK
  swap
  · rw [if_pos]
    · exact ⟨fun h => (by cases h), fun h => absurd h.shape hshape⟩
    · by_contra hnot
      exact hshape ⟨by omega, by omega, by omega⟩
  have hsrc := hshape.src
  have htoken := hshape.token
  have htopK := hshape.topK
  rw [if_neg (by omega)]
  have hnumber := hshape.number_eq
  have hut := t.tokenId.upper
  have huk := t.topKId.upper
  dsimp only
  generalize t.srcRank.val.toNat = ur at hnumber ⊢
  have hs : 0 < s.toNat := by omega
  have hk : 0 < topK.toNat := by omega
  have hut' : t.tokenId.val.toNat ≤ uint64Max := by unfold uint64Max int32Max at *; omega
  have huk' : t.topKId.val.toNat ≤ uint64Max := by unfold uint64Max int32Max at *; omega
  generalize t.tokenId.val.toNat = ut at hnumber hut' ⊢
  generalize t.topKId.val.toNat = k at hnumber huk' ⊢
  generalize s.toNat = us at hnumber hs ⊢
  generalize topK.toNat = uk at hnumber hk ⊢
  have hlarge : ur * us + ut ≤ (ur * us + ut) * uk + k := by
    calc ur * us + ut ≤ (ur * us + ut) * uk := Nat.le_mul_of_pos_right _ hk
      _ ≤ _ := Nat.le_add_right _ _
  -- too large a number stops at one of the two guards, or in the case of the reserved id at the end
  by_cases hbase : ur * us + ut ≤ uint64Max
  swap
  · rw [if_pos (not_not.mp (mt (guard_iff hs hut').mp hbase))]
    refine ⟨fun h => (by cases h), fun h => ?_⟩
    have := h.valid
    have := h.number
    omega
  rw [if_neg ((guard_iff hs hut').mpr hbase), mod_eq_of_lt (by unfold uint64Max at hbase; omega)]
  by_cases hid : (ur * us + ut) * uk + k ≤ uint64Max
  swap
  · rw [if_pos (not_not.mp (mt (guard_iff hk huk').mp hid))]
    refine ⟨fun h => (by cases h), fun h => ?_⟩
    have := h.valid
    have := h.number
    omega
  rw [if_neg ((guard_iff hk huk').mpr hid), BitVec.toNat_ofNat,
    mod_eq_of_lt (by unfold uint64Max at hid; omega)]
  split_ifs with hmax
  · refine ⟨fun h => (by cases h), fun h => ?_⟩
    have := h.valid
    have := h.number
    omega
  · have hword : (BitVec.ofNat 64 ((ur * us + ut) * uk + k)).toNat = (ur * us + ut) * uk + k := by
      rw [BitVec.toNat_ofNat, mod_eq_of_lt (by unfold uint64Max at hid; omega)]
    constructor
    · rintro ⟨⟩
      exact ⟨hshape, by rw [hword, hnumber], by omega⟩
    · intro h
      congr 1
      apply BitVec.eq_of_toNat_eq
      have := h.number
      omega

/-! ## Decoding -/

theorem decode_eq_ok_iff : decodeMoonEPGlobalTokenId id rankSize s topK = .ok t ↔ IsTokenId rankSize s topK t id := by
  have hlt := id.isLt
  unfold decodeMoonEPGlobalTokenId
  split_ifs with hbad
  · refine ⟨fun h => (by cases h), fun h => ?_⟩
    have hsrc := h.shape.src
    have htoken := h.shape.token
    have htopK := h.shape.topK
    have := h.valid
    omega
  have hs : 0 < s.toNat := by omega
  have hk : 0 < topK.toNat := by omega
  have hvalid : id.toNat < uint64Max := by
    unfold uint64Max at hbad ⊢
    omega
  dsimp only
  constructor
  · intro h
    split_ifs at h with hrange
    obtain rfl := Except.ok.inj h
    have hshape : TokenIndex.InShape ⟨.ofNat (id.toNat / topK.toNat / s.toNat) (by omega),
        .ofNat (id.toNat / topK.toNat % s.toNat) (by omega), .ofNat (id.toNat % topK.toNat) (by omega)⟩
        rankSize s topK := by
      have htoken := mod_lt (id.toNat / topK.toNat) hs
      have htopK := mod_lt id.toNat hk
      constructor
      · exact ⟨natCast_nonneg _, by simp only [Word32.ofNat]; omega⟩
      · exact ⟨natCast_nonneg _, by simp only [Word32.ofNat]; omega⟩
      · exact ⟨natCast_nonneg _, by simp only [Word32.ofNat]; omega⟩
    refine ⟨hshape, ?_, hvalid⟩
    rw [hshape.number_eq]
    simp only [Word32.ofNat, toNat_natCast]
    rw [Nat.mul_comm (id.toNat / topK.toNat / s.toNat), div_add_mod, Nat.mul_comm, div_add_mod]
  · intro h
    have hnumber : id.toNat = (t.srcRank.val.toNat * s.toNat + t.tokenId.val.toNat) * topK.toNat +
        t.topKId.val.toNat := by
      have := h.number
      rw [h.shape.number_eq] at this
      exact_mod_cast this
    have hsrc := h.shape.src
    have htoken := h.shape.token
    have htopK := h.shape.topK
    have hbase : id.toNat / topK.toNat = t.srcRank.val.toNat * s.toNat + t.tokenId.val.toNat := by
      rw [hnumber, Nat.mul_comm, mul_add_div hk, div_eq_of_lt (by omega), Nat.add_zero]
    have hslot : id.toNat % topK.toNat = t.topKId.val.toNat := by
      rw [hnumber, Nat.mul_comm, mul_add_mod, mod_eq_of_lt (by omega)]
    have hrank : id.toNat / topK.toNat / s.toNat = t.srcRank.val.toNat := by
      rw [hbase, Nat.mul_comm, mul_add_div hs, div_eq_of_lt (by omega), Nat.add_zero]
    have htok : id.toNat / topK.toNat % s.toNat = t.tokenId.val.toNat := by
      rw [hbase, Nat.mul_comm, mul_add_mod, mod_eq_of_lt (by omega)]
    have hu1 := t.srcRank.upper
    have hu2 := t.tokenId.upper
    have hu3 := t.topKId.upper
    rw [dif_neg (by rw [hrank, htok, hslot]; omega)]
    congr 1
    ext
    · exact (congrArg Nat.cast hrank).trans (toNat_of_nonneg hsrc.1)
    · exact (congrArg Nat.cast htok).trans (toNat_of_nonneg htoken.1)
    · exact (congrArg Nat.cast hslot).trans (toNat_of_nonneg htopK.1)

/-! ## Order -/

def TokenIndex.Before (t t' : TokenIndex) : Prop :=
  t.srcRank.val < t'.srcRank.val ∨ t.srcRank.val = t'.srcRank.val ∧
    (t.tokenId.val < t'.tokenId.val ∨ t.tokenId.val = t'.tokenId.val ∧ t.topKId.val < t'.topKId.val)

/-- A number with a smaller leading digit is smaller, whatever the last digits are. -/
theorem digits_lt {a a' d d' b : ℤ} (ha : a < a') (hd : 0 ≤ d ∧ d < b) (hd' : 0 ≤ d') : a * b + d < a' * b + d' := by
  have := mul_le_mul_of_nonneg_right (show a + 1 ≤ a' by omega) (show 0 ≤ b by omega)
  rw [add_mul, one_mul] at this
  omega

theorem number_lt_of_before (h : t.InShape rankSize s topK) (h' : t'.InShape rankSize s topK)
    (hlt : t.Before t') : t.number s topK < t'.number s topK := by
  have htoken := h.token
  have htopK := h.topK
  have htoken' := h'.token
  have htopK' := h'.topK
  unfold TokenIndex.number
  rcases hlt with hsrc | ⟨hsrc, htok | ⟨htok, hslot⟩⟩
  · exact digits_lt (digits_lt hsrc htoken htoken'.1) htopK htopK'.1
  · exact digits_lt (by rw [hsrc]; omega) htopK htopK'.1
  · rw [hsrc, htok]
    omega

theorem TokenIndex.before_trichotomy (t t' : TokenIndex) : t.Before t' ∨ t = t' ∨ t'.Before t := by
  unfold Before
  by_cases heq : t = t'
  · exact .inr (.inl heq)
  · have hne : t.srcRank.val ≠ t'.srcRank.val ∨ t.tokenId.val ≠ t'.tokenId.val ∨
        t.topKId.val ≠ t'.topKId.val := by
      by_contra hsame
      refine heq ?_
      ext <;> omega
    omega

/-- Encoding and decoding are inverse to each other, and encoding keeps the order: an index that is encoded
has its row-major number as id and is what the id decodes to; of two indices the smaller one has the smaller
id; and an id that is decoded is the id of what it decodes to. -/
theorem globalTokenId_inverse (rankSize s topK : ℤ) :
    (∀ t id, encodeMoonEPGlobalTokenId t rankSize s topK = .ok id →
      (id.toNat : ℤ) = (t.srcRank.val * s + t.tokenId.val) * topK + t.topKId.val ∧
        decodeMoonEPGlobalTokenId id rankSize s topK = .ok t) ∧
    (∀ t t' id id', encodeMoonEPGlobalTokenId t rankSize s topK = .ok id →
      encodeMoonEPGlobalTokenId t' rankSize s topK = .ok id' → (t.Before t' ↔ id.toNat < id'.toNat)) ∧
    ∀ id t, decodeMoonEPGlobalTokenId id rankSize s topK = .ok t →
      encodeMoonEPGlobalTokenId t rankSize s topK = .ok id := by
  simp only [encode_eq_ok_iff, decode_eq_ok_iff]
  refine ⟨fun t id h => ⟨h.number, h⟩, fun t t' id id' h h' => ⟨fun hlt => ?_, fun hlt => ?_⟩, fun id t h => h⟩
  · have := number_lt_of_before h.shape h'.shape hlt
    have := h.number
    have := h'.number
    omega
  · rcases t.before_trichotomy t' with hbefore | rfl | hafter
    · exact hbefore
    · have := h.number
      have := h'.number
      omega
    · have := number_lt_of_before h'.shape h.shape hafter
      have := h.number
      have := h'.number
      omega

end TileXR.Plan
