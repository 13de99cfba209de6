import TileXR.EpMemory.Arrival
import TileXR.EpMemory.Sizes
import Mathlib.Order.Interval.Finset.Nat

/-!
# Dispatch and combine under a token mask

Dispatch reads the mask as a number: with `n` active tokens it sends the first `n`. Combine asks for each
token whether it is active. The two agree on the routes of a rank for the masks that begin with their active
tokens, and only where the active tokens have no invalid expert id: dispatch skips such an id, combine waits
for the slot.
-/

namespace TileXR.EpMemory
open Finset
open Option (bind_eq_some_iff)
variable {config : CombineReferenceConfig} {a : LayoutArgs} {k n t : ℕ}

/-! ## The calls -/

/-- The mask tensor under its `activeMaskType`. -/
def ActiveMask.of (activeMaskType : ℤ) (xActiveMask : ℕ → Bool) : ActiveMask :=
  if activeMaskType = activeMaskToken then .token xActiveMask
  else if activeMaskType = activeMaskExpert then .expert xActiveMask
  else .none

def DispatchParams.input (params : DispatchParams) (commArgs : CommArgs) (blockDim : ℤ)
    (expertIds : ℕ → ℤ) (xActiveMask : ℕ → Bool) : DispatchInput where
  shape := (params.layout commArgs blockDim).shape
  expertIds := expertIds
  mask := .of params.activeMaskType xActiveMask

/-- What a combine call launches its kernel with, under the layout its validation returned. -/
def CombineParams.input (params : CombineParams) (commArgs : CommArgs) (blockDim : ℤ)
    (config : CombineReferenceConfig) (xActiveMask : ℕ → Bool) : CombineInput where
  shape := (params.layout commArgs blockDim).shape
  blockCntPerToken := config.blockCntPerToken.toNat
  mask := .of params.activeMaskType xActiveMask

/-- Dispatch sends the row of slot `k` of token `t`. -/
def DispatchInput.SendsRoute (S : HalfSum) (x : DispatchInput) (t k : ℕ) : Prop :=
  ∃ r ∈ x.sends S, r.token = t ∧ r.slot = k

/-! ## Active tokens at the front -/

theorem count_map_range (mask : ℕ → Bool) (n : ℕ) :
    ((List.range n).map mask).count true = ((Finset.range n).filter fun t => mask t = true).card := by
  induction n with
  | zero => rfl
  | succ n ih =>
    rw [List.range_succ, List.map_append, List.count_append, ih, range_add_one, filter_insert]
    split_ifs with hn
    · rw [card_insert_of_notMem (by simp)]
      simp [hn]
    · simp [hn]

/-- Where no active token lies behind the count, the active tokens are the first ones. -/
theorem active_eq_range {mask : ℕ → Bool} (h : ∀ t < n, mask t = true → t < ((List.range n).map mask).count true)
    (ht : t < n) : mask t = true ↔ t < ((List.range n).map mask).count true := by
  rw [count_map_range] at h ⊢
  have hsub : (Finset.range n).filter (fun t => mask t = true) ⊆
      Finset.range ((Finset.range n).filter fun t => mask t = true).card := by
    intro u hu
    obtain ⟨hlt, hactive⟩ := Finset.mem_filter.mp hu
    exact Finset.mem_range.mpr (h u (Finset.mem_range.mp hlt) hactive)
  have heq := eq_of_subset_of_card_le hsub (card_range _).le
  refine ⟨h t ht, fun hlt => ?_⟩
  rw [← mem_range, ← heq, mem_filter] at hlt
  exact hlt.2

/-- An active token has all tokens before it active, and counts them. -/
theorem lt_count_of_lower {mask : ℕ → Bool} (ht : t < n) (h : ∀ u ≤ t, mask u = true) :
    t < ((List.range n).map mask).count true := by
  rw [count_map_range]
  calc t < (Finset.range (t + 1)).card := by rw [card_range]; omega
    _ ≤ _ := card_le_card fun u hu => by
      rw [mem_range] at hu
      exact Finset.mem_filter.mpr ⟨Finset.mem_range.mpr (by omega), h u (by omega)⟩

/-! ## Which routes the two sides mean -/

variable {S : HalfSum} {commArgs : CommArgs} {blockDim : ℤ} {expertIds : ℕ → ℤ} {mask : ℕ → Bool}

theorem sendsRoute_iff {params : DispatchParams} {config : DispatchReferenceConfig}
    (h : validateDispatchMemoryConfig params commArgs blockDim = .ok config)
    (hmask : params.activeMaskType = activeMaskToken) :
    (params.input commArgs blockDim expertIds mask).SendsRoute S t k ↔
      t < ((List.range params.bs.toNat).map mask).count true ∧
        (k < params.topK.toNat ∧ 0 ≤ expertIds (t * params.topK.toNat + k) ∧
            expertIds (t * params.topK.toNat + k) < params.moeExpertNum ∨
          params.topK.toNat ≤ k ∧ k < params.topK.toNat + params.sharedExpertNum.toNat) := by
  obtain ⟨dtype, hbuild⟩ := build_of_validateDispatch h
  have hsizes := dispatchBuild_spec hbuild
  have haccepted := hsizes.accepted
  have hexperts : 0 < params.moeExpertNum := hsizes.shapeOk.2.2.2.2.2.2.2.1
  have htoken : (params.input commArgs blockDim expertIds mask).mask = .token mask := by
    simp [DispatchParams.input, ActiveMask.of, hmask]
  have hper : (params.input commArgs blockDim expertIds mask).PerToken := by
    intro m
    rw [htoken]
    exact ActiveMask.noConfusion
  have hcount : (params.input commArgs blockDim expertIds mask).activeMaskBsCnt S =
      ((List.range params.bs.toNat).map mask).count true := by
    unfold DispatchInput.activeMaskBsCnt
    rw [htoken]
    refine S.exact _ ?_
    have hbs : params.bs.toNat * 128 ≤ 190 * 1024 := haccepted.bs_le
    rw [List.length_map, List.length_range]
    show params.bs.toNat ≤ 2048
    omega
  rw [DispatchInput.SendsRoute, hper.exists_send_iff haccepted, hcount]
  have hid : (params.input commArgs blockDim expertIds mask).ValidId (t * params.topK.toNat + k) ↔
      0 ≤ expertIds (t * params.topK.toNat + k) ∧
        expertIds (t * params.topK.toNat + k) < params.moeExpertNum := by
    show _ ∧ _ < ((params.moeExpertNum.toNat : ℕ) : ℤ) ↔ _
    rw [Int.toNat_of_nonneg hexperts.le]
    rfl
  exact and_congr_right fun _ => or_congr_left (and_congr_right fun _ => hid)

theorem combine_waitsFor_iff {params : CombineParams}
    (h : validateCombineMemoryConfig params commArgs blockDim = .ok config)
    (hmask : params.activeMaskType = activeMaskToken) : (params.input commArgs blockDim config mask).WaitsFor t k ↔
      t < params.bs.toNat ∧ mask t = true ∧ k < params.topK.toNat + params.sharedExpertNum.toNat := by
  have hsizes := combineBuild_spec (build_of_validateCombine h)
  have hblocks : 0 < config.blockCntPerToken.toNat := by
    rw [hsizes.blockCnt_eq, Int.toNat_natCast]
    exact combineBlocks_pos _ (Int.lt_toNat.mpr hsizes.shapeOk.2.2.2.2.2.1)
  rw [CombineInput.waitsFor_iff (Int.lt_toNat.mpr hsizes.blockDim_pos) hblocks]
  have htoken : (params.input commArgs blockDim config mask).tokenActive t = mask t := by
    simp [CombineInput.tokenActive, CombineParams.input, ActiveMask.of, hmask]
  rw [htoken]
  exact Iff.rfl

/-- A batch of two tokens with one expert each on a world of one rank. -/
def pairParams : CommonParams where
  xActiveMask := true
  activeMaskType := activeMaskToken
  expertScales := false
  bs := 2
  h := 16
  topK := 1
  moeExpertNum := 1
  epWorldSize := 0
  epRankId := 0
  tpWorldSize := 0
  tpRankId := 0
  expertShardType := 0
  sharedExpertNum := 0
  sharedExpertRankNum := 0
  quantMode := 0
  globalBs := 0
  dtype := .fp16

def pairDispatch : DispatchParams where
  toCommonParams := pairParams
  scales := false
  expertTokenNumsType := 0
  dynamicScalesOut := false
  tpRecvCountsOut := false
  expandScalesOut := false
  expandXOutDtype := .reserved

def pairCombine : CombineParams := ⟨pairParams⟩

theorem pairDispatch_ok : ∃ config, validateDispatchMemoryConfig pairDispatch soleRank 2 = .ok config :=
  ⟨_, rfl⟩

theorem pairCombine_ok : ∃ config, validateCombineMemoryConfig pairCombine soleRank 2 = .ok config :=
  ⟨_, rfl⟩

def exactSum : HalfSum := ⟨List.count true, fun _ _ => rfl⟩

end TileXR.EpMemory
