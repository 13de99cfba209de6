import TileXR.EpMemory.Shape

/-!
# What dispatch sends

The sending half of the dispatch kernel: the active mask (`ExpIdsCopyAndMaskCal`), the loops over the
ordinary and the shared experts, and where in the destination's window a row goes. `DispatchInput.sends`
lists what all cores of a rank send; `mem_sends` says which (token, slot) pairs that is.

`Sum` of the vector library adds in half precision. Only its documented behaviour is used: it is exact as
long as the sum has at most eleven bits.
-/

namespace TileXR.EpMemory
open Lib Nat

/-- `xActiveMask` with its type: none, one entry per token, or one per token and expert. -/
inductive ActiveMask
  | none
  | token (mask : ℕ → Bool)
  | expert (mask : ℕ → Bool)

/-- The tensors that decide where the rows of a rank go, expert ids token by token. -/
structure DispatchInput where
  shape : Shape
  expertIds : ℕ → ℤ
  mask : ActiveMask

/-- `Sum` over a row of zeros and ones in half precision. -/
structure HalfSum where
  sum : List Bool → ℕ
  exact : ∀ l : List Bool, l.length ≤ 2048 → sum l = l.count true

/-- One row on its way: the block of the destination's window, the place in the block, and the triple
(`FillTriple`) that travels with it next to the source rank. -/
structure Send where
  toRank : ℕ
  block : ℕ
  position : ℕ
  token : ℕ
  slot : ℕ
  deriving DecidableEq

namespace DispatchInput
variable (S : HalfSum) (x : DispatchInput)

/-! ## The mask -/

/-- `validBsIndexTensor_` of `CalValidBSCnt`: the tokens with an active expert. -/
def validBsIndex (mask : ℕ → Bool) : List ℕ :=
  (List.range x.shape.axisBS).filter fun t =>
    (List.range x.shape.axisK).any fun k => mask (t * x.shape.axisK + k)

/-- `activeMaskBsCnt_`; `TokenActiveMaskCal` takes the sum of the mask. -/
def activeMaskBsCnt : ℕ :=
  match x.mask with
  | .none => x.shape.axisBS
  | .token mask => S.sum ((List.range x.shape.axisBS).map mask)
  | .expert mask => (x.validBsIndex mask).length

/-- The bits of the float `-1` that `Select` puts in place of a masked id. -/
def maskedId : ℤ := -1082130432

/-- `validExpertIdsTensor_` -/
def validExpertIds (index : ℕ) : ℤ :=
  match x.mask with
  | .expert mask =>
    if index < x.shape.expertIdsCnt then (if mask index then x.expertIds index else maskedId) else -1
  | _ => if index < x.activeMaskBsCnt S * x.shape.axisK then x.expertIds index else -1

/-! ## The sending loops -/

/-- The loop bound of `SendToMoeExpert`. -/
def validTokenNum : ℕ :=
  match x.mask with
  | .token _ => x.activeMaskBsCnt S * x.shape.axisK
  | _ => x.shape.expertIdsCnt

/-- What `Sub`, `Abs` and `Mins` make of an id and an expert is zero: `Abs` works on floats and only clears
the sign bit of the difference. -/
def sameExpert (id dstExpertId : ℤ) : Bool := (id - dstExpertId) % 2 ^ 31 = 0

def calTokenSendExpertCnt (dstExpertId : ℤ) (calCnt : ℕ) : ℕ :=
  if calCnt < x.shape.axisK then 0
  else calCnt - (List.range calCnt).countP fun i => !sameExpert (x.validExpertIds S i) dstExpertId

/-- One round of the loop of `SendToMoeExpert`. -/
def moeSend (index : ℕ) : Option Send :=
  let s := x.shape
  let expertId := x.validExpertIds S index
  if expertId ≥ s.moeExpertNum ∨ expertId < 0 then none
  else
    let expert := expertId.toNat
    let toRank := expert / s.moeExpertNumPerRank + s.sharedExpertRankNum
    some
      { toRank
        block := (s.epRankId + toRank) % s.epWorldSize * s.moeExpertNumPerRank +
          expert % s.moeExpertNumPerRank
        position := x.calTokenSendExpertCnt S expertId index
        token := index / s.axisK
        slot := index % s.axisK }

/-- `SendToMoeExpert` of a core. -/
def sendToMoeExpert (aivId : ℕ) : List Send :=
  (strided (x.validTokenNum S) x.shape.moeUsedAivNum aivId).filterMap (x.moeSend S)

/-- One round of the loop of `SendToSharedExpert`. -/
def sharedSend (virtualTokenIndex : ℕ) : Send :=
  let s := x.shape
  let sendTokenIndex := virtualTokenIndex % x.activeMaskBsCnt S
  let toSharedExpertIndex := virtualTokenIndex / x.activeMaskBsCnt S
  { toRank := s.epRankId % s.rankNumPerSharedExpert + toSharedExpertIndex * s.rankNumPerSharedExpert
    block := s.epRankId
    position := sendTokenIndex
    token :=
      match x.mask with
      | .expert mask => (x.validBsIndex mask).getD sendTokenIndex 0
      | _ => sendTokenIndex
    slot := s.axisK + toSharedExpertIndex }

/-- `SendToSharedExpert` of a core. -/
def sendToSharedExpert (aivId : ℕ) : List Send :=
  let s := x.shape
  let part := Shape.splitToCore (x.activeMaskBsCnt S * s.sharedExpertNum) s.sharedUsedAivNum
    (aivId - s.moeUsedAivNum)
  (List.range' part.1 part.2).map (x.sharedSend S)

/-- `AllToAllDispatch` of a core. -/
def allToAllDispatch (aivId : ℕ) : List Send :=
  if x.activeMaskBsCnt S = 0 then []
  else if aivId ≥ x.shape.moeUsedAivNum ∧ x.shape.sharedExpertRankNum ≠ 0 then x.sendToSharedExpert S aivId
  else x.sendToMoeExpert S aivId

def sends : List Send := (List.range x.shape.aivUsedAllToAll).flatMap (x.allToAllDispatch S)

/-! ## Which rows are sent -/

variable {S x}

theorem mem_sends (h : x.shape.Accepted) {r : Send} : r ∈ x.sends S ↔ 0 < x.activeMaskBsCnt S ∧
      ((∃ index < x.validTokenNum S, x.moeSend S index = some r) ∨
        ∃ v < x.activeMaskBsCnt S * x.shape.sharedExpertNum, x.sharedSend S v = r) := by
  have hadd := h.moeUsed_add
  simp only [sends, List.mem_flatMap, List.mem_range]
  constructor
  · rintro ⟨aivId, haiv, hr⟩
    unfold allToAllDispatch at hr
    split_ifs at hr with hzero hshared
    · simp at hr
    · refine ⟨by omega, Or.inr ?_⟩
      obtain ⟨v, hv, rfl⟩ := List.mem_map.mp hr
      rw [List.mem_range'_1] at hv
      exact ⟨v, hv.2.trans_le (evenPart_le (by omega)), rfl⟩
    · refine ⟨by omega, Or.inl ?_⟩
      obtain ⟨index, hindex, hsend⟩ := List.mem_filterMap.mp hr
      exact ⟨index, ((mem_strided h.moeUsed_pos).mp hindex).1, hsend⟩
  · rintro ⟨hpos, ⟨index, hlt, hsend⟩ | ⟨v, hv, rfl⟩⟩
    · have hmod := mod_lt index h.moeUsed_pos
      refine ⟨index % x.shape.moeUsedAivNum, by omega, ?_⟩
      rw [allToAllDispatch, if_neg (by omega), if_neg (by omega)]
      refine List.mem_filterMap.mpr ⟨index, (mem_strided h.moeUsed_pos).mpr ⟨hlt, index / x.shape.moeUsedAivNum, ?_⟩,
        hsend⟩
      rw [Nat.mul_comm]
      exact (mod_add_div index _).symm
    · have hranks : x.shape.sharedExpertRankNum ≠ 0 := by
        rintro hzero
        rw [h.shared_iff.mpr hzero, Nat.mul_zero] at hv
        omega
      obtain ⟨i, hi, hle, hlt⟩ := exists_evenPart hv (Shape.sharedUsed_pos hranks)
      refine ⟨x.shape.moeUsedAivNum + i, by omega, ?_⟩
      rw [allToAllDispatch, if_neg (by omega), if_pos ⟨by omega, hranks⟩, sendToSharedExpert]
      refine List.mem_map.mpr ⟨v, ?_, rfl⟩
      rw [List.mem_range'_1, Nat.add_sub_cancel_left]
      exact ⟨hle, hlt⟩

/-- The mask, if there is one, has one entry per token. -/
def PerToken (x : DispatchInput) : Prop := ∀ mask, x.mask ≠ .expert mask

theorem PerToken.validTokenNum (h : x.PerToken) : x.validTokenNum S = x.activeMaskBsCnt S * x.shape.axisK := by
  unfold DispatchInput.validTokenNum activeMaskBsCnt
  cases hm : x.mask with
  | none => rfl
  | token mask => simp only
  | expert mask => exact absurd hm (h mask)

theorem PerToken.validExpertIds (h : x.PerToken) {index : ℕ} (hi : index < x.validTokenNum S) :
    x.validExpertIds S index = x.expertIds index := by
  rw [h.validTokenNum] at hi
  unfold DispatchInput.validExpertIds
  split
  · exact absurd ‹_› (h _)
  · rw [if_pos hi]

theorem PerToken.sharedSend_token (h : x.PerToken) (v : ℕ) : (x.sharedSend S v).token = v % x.activeMaskBsCnt S := by
  unfold sharedSend
  dsimp only
  split
  · exact absurd ‹_› (h _)
  · rfl

def ValidId (x : DispatchInput) (index : ℕ) : Prop :=
  0 ≤ x.expertIds index ∧ x.expertIds index < x.shape.moeExpertNum

theorem PerToken.moeSend_eq_some (h : x.PerToken) {index : ℕ} (hi : index < x.validTokenNum S) {r : Send} :
    x.moeSend S index = some r → x.ValidId index ∧ r.token = index / x.shape.axisK ∧
      r.slot = index % x.shape.axisK := by
  unfold moeSend
  rw [h.validExpertIds hi]
  dsimp only
  split_ifs with hid
  · simp
  · rintro ⟨⟩
    exact ⟨⟨by omega, by omega⟩, rfl, rfl⟩

theorem PerToken.exists_moeSend (h : x.PerToken) {index : ℕ} (hi : index < x.validTokenNum S)
    (hid : x.ValidId index) : ∃ r, x.moeSend S index = some r := by
  unfold moeSend
  rw [h.validExpertIds hi]
  dsimp only
  rw [if_neg (by have := hid.1; have := hid.2; omega)]
  exact ⟨_, rfl⟩

/-- The slots of the first tokens, as many tokens as the mask has active ones: the slots of valid ids and
all shared slots. -/
theorem PerToken.exists_send_iff (hm : x.PerToken) (h : x.shape.Accepted) {t k : ℕ} :
    (∃ r ∈ x.sends S, r.token = t ∧ r.slot = k) ↔ t < x.activeMaskBsCnt S ∧
      (k < x.shape.axisK ∧ x.ValidId (t * x.shape.axisK + k) ∨
        x.shape.axisK ≤ k ∧ k < x.shape.axisK + x.shape.sharedExpertNum) := by
  have hK := h.topK_pos
  constructor
  · rintro ⟨r, hr, rfl, rfl⟩
    obtain ⟨hpos, ⟨index, hi, hsend⟩ | ⟨v, hv, rfl⟩⟩ := (mem_sends h).mp hr
    · obtain ⟨hid, htoken, hslot⟩ := hm.moeSend_eq_some hi hsend
      rw [hm.validTokenNum] at hi
      rw [htoken, hslot, Nat.mul_comm, div_add_mod]
      exact ⟨(Nat.div_lt_iff_lt_mul hK).mpr hi, Or.inl ⟨mod_lt _ hK, hid⟩⟩
    · rw [hm.sharedSend_token]
      refine ⟨mod_lt _ hpos, Or.inr ⟨Nat.le_add_right _ _, ?_⟩⟩
      exact Nat.add_lt_add_left (Nat.div_lt_of_lt_mul hv) _
  · rintro ⟨ht, ⟨hk, hid⟩ | ⟨hle, hlt⟩⟩
    · have hi : t * x.shape.axisK + k < x.validTokenNum S := by
        rw [hm.validTokenNum]
        calc t * x.shape.axisK + k < (t + 1) * x.shape.axisK := by rw [succ_mul]; omega
          _ ≤ _ := Nat.mul_le_mul_right _ ht
      obtain ⟨r, hr⟩ := hm.exists_moeSend hi hid
      obtain ⟨-, htoken, hslot⟩ := hm.moeSend_eq_some hi hr
      refine ⟨r, (mem_sends h).mpr ⟨by omega, Or.inl ⟨_, hi, hr⟩⟩, ?_, ?_⟩
      · rw [htoken, Nat.add_comm, add_mul_div_right _ _ hK, div_eq_of_lt hk, Nat.zero_add]
      · rw [hslot, Nat.add_comm, add_mul_mod_self_right, mod_eq_of_lt hk]
    · have hpos : 0 < x.activeMaskBsCnt S := by omega
      obtain ⟨j, rfl⟩ := Nat.exists_eq_add_of_le hle
      refine ⟨x.sharedSend S (t + x.activeMaskBsCnt S * j), (mem_sends h).mpr ⟨hpos, Or.inr ⟨_, ?_, rfl⟩⟩, ?_, ?_⟩
      · calc t + x.activeMaskBsCnt S * j < x.activeMaskBsCnt S * (j + 1) := by rw [mul_succ]; omega
          _ ≤ _ := Nat.mul_le_mul_left _ (by omega)
      · rw [hm.sharedSend_token, add_mul_mod_self_left, mod_eq_of_lt ht]
      · show x.shape.axisK + (t + x.activeMaskBsCnt S * j) / x.activeMaskBsCnt S = _
        rw [add_mul_div_left _ _ hpos, div_eq_of_lt ht, Nat.zero_add]

end DispatchInput

end TileXR.EpMemory
