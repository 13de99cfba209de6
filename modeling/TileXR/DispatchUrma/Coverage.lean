import TileXR.DispatchUrma.Schedule

/-!
# The walk of the cores

The cores of a rank share its work in strides: core `c` of `n` does the items `c`, `c + n`, `c + 2 n` and
so on, up to a work count rounded up. Every item below the total is then done once. For the grouped modes
the items are the places of the schedule, for the legacy mode the ranks of a group of 64 in every phase.
-/

namespace TileXR.DispatchUrma

variable {core workIndex phase : ℕ}

/-! ## Grouped modes -/

section Grouped
variable {rankSize rank : ℤ} {groupWidth coreCount : ℕ}

section
variable (hmax : rankSize < 2 ^ 31) (hW : DispatchGroupWidthValid groupWidth)
include hmax hW

theorem dispatchGroupedAssignmentCount_lt : dispatchGroupedAssignmentCount rankSize groupWidth < 2 ^ 32 := by
  have hwidth : groupWidth ≤ 16 := by rcases hW with rfl | rfl <;> decide
  rw [dispatchGroupedAssignmentCount]
  by_cases hR : 2 ≤ rankSize
  · rw [dispatchGroupedGroupCount_eq ⟨hR, hmax⟩ hW]
    exact (Nat.div_mul_le_self _ _).trans_lt (by omega)
  · rw [dispatchGroupedGroupCount, if_pos (.inl (by omega)), Nat.zero_mul]
    decide

section
variable (hC : 1 ≤ coreCount ∧ coreCount ≤ 64)
include hC

theorem dispatchGroupedPeerWorkCount_eq : dispatchGroupedPeerWorkCount rankSize groupWidth coreCount =
      (dispatchGroupedAssignmentCount rankSize groupWidth + coreCount - 1) / coreCount := by
  have hcount := dispatchGroupedAssignmentCount_lt hmax hW
  have hvalid : ¬ (coreCount = 0 ∨ coreCount > kDispatchAivCoreCount) := by
    rw [kDispatchAivCoreCount]
    omega
  rw [dispatchGroupedPeerWorkCount, if_neg hvalid]
  dsimp only
  generalize dispatchGroupedAssignmentCount rankSize groupWidth = n at hcount ⊢
  rw [Lib.div_add_ite _ hC.1]
  split_ifs with h0
  · rw [h0, Nat.zero_add, Nat.div_eq_of_lt (by omega)]
  · rw [Nat.mod_eq_of_lt]
    refine (Nat.div_lt_of_lt_mul ?_)
    have : coreCount + n ≤ coreCount * 2 ^ 32 := by
      have := Nat.mul_le_mul_right (2 ^ 32) hC.1
      omega
    omega

theorem dispatchGroupedPeerForCore_eq (hcore : core < coreCount) :
    dispatchGroupedPeerForCore rank rankSize groupWidth core coreCount workIndex =
      if dispatchGroupedAssignmentCount rankSize groupWidth ≤ core + workIndex * coreCount then
        ⟨-1, 2 ^ 32 - 1, 2 ^ 32 - 1⟩
      else
        ⟨dispatchGroupedPeer rank rankSize ((core + workIndex * coreCount) / groupWidth)
            ((core + workIndex * coreCount) % groupWidth) groupWidth,
          (core + workIndex * coreCount) / groupWidth, (core + workIndex * coreCount) % groupWidth⟩ := by
  have hcount := dispatchGroupedAssignmentCount_lt hmax hW
  have hvalid : ¬ (coreCount = 0 ∨ coreCount > kDispatchAivCoreCount ∨ core ≥ coreCount) := by
    rw [kDispatchAivCoreCount]
    omega
  rw [dispatchGroupedPeerForCore, if_neg hvalid]
  dsimp only
  by_cases hin : dispatchGroupedAssignmentCount rankSize groupWidth ≤ core + workIndex * coreCount
  · rw [if_pos hin, if_pos hin]
  · rw [if_neg hin, if_neg hin,
      Nat.mod_eq_of_lt ((Nat.div_le_self (core + workIndex * coreCount) groupWidth).trans_lt (by omega))]

theorem dispatchGroupedPeerForCore_place_iff {group lane : ℕ} (hcore : core < coreCount)
    (hg : group < dispatchGroupedGroupCount rankSize groupWidth) (hl : lane < groupWidth) :
    (dispatchGroupedPeerForCore rank rankSize groupWidth core coreCount workIndex).group = group ∧
      (dispatchGroupedPeerForCore rank rankSize groupWidth core coreCount workIndex).lane = lane ↔
      core + workIndex * coreCount = group * groupWidth + lane := by
  have hcount := dispatchGroupedAssignmentCount_lt hmax hW
  have hlast := Lib.row_le groupWidth hg
  rw [dispatchGroupedAssignmentCount] at hcount
  have hgroup : group ≤ group * groupWidth := Nat.le_mul_of_pos_right _ (groupWidth_pos hW)
  rw [dispatchGroupedPeerForCore_eq hmax hW hC hcore, dispatchGroupedAssignmentCount]
  by_cases hin : dispatchGroupedGroupCount rankSize groupWidth * groupWidth ≤
      core + workIndex * coreCount
  · rw [if_pos hin]
    exact iff_of_false (by dsimp only; omega) (by omega)
  · rw [if_neg hin]
    exact div_mod_iff hl

end

end

theorem dispatchGroupedPeerForCore_peer_iff {peer : ℤ} (hR : 2 ≤ rankSize) (hmax : rankSize < 2 ^ 31)
    (hW : DispatchGroupWidthValid groupWidth) (hC : 1 ≤ coreCount ∧ coreCount ≤ 64) (hcore : core < coreCount)
    (hr : 0 ≤ rank ∧ rank < rankSize) (hp : 0 ≤ peer ∧ peer < rankSize) (hne : peer ≠ rank) :
    (dispatchGroupedPeerForCore rank rankSize groupWidth core coreCount workIndex).peer = peer ↔
      core + workIndex * coreCount = (peerSlot rankSize groupWidth rank peer).1 * groupWidth +
        (peerSlot rankSize groupWidth rank peer).2 := by
  obtain ⟨hg, hl⟩ := peerSlot_lt ⟨hR, hmax⟩ hW hr hp hne
  have hlast := Lib.row_le groupWidth hg
  rw [dispatchGroupedPeerForCore_eq hmax hW hC hcore, dispatchGroupedAssignmentCount]
  by_cases hin : dispatchGroupedGroupCount rankSize groupWidth * groupWidth ≤
      core + workIndex * coreCount
  · rw [if_pos hin]
    exact iff_of_false (by dsimp only; omega) (by omega)
  · rw [if_neg hin, ← div_mod_iff hl]
    dsimp only
    rw [dispatchGroupedPeer_eq_iff ⟨hR, hmax⟩ hW hr hp, Prod.ext_iff]
    exact ⟨fun h => ⟨h.2.1.symm, h.2.2.symm⟩, fun h => ⟨hne, h.1.symm, h.2.symm⟩⟩

theorem dispatchGroupedPeerForCore_range (hmax : rankSize < 2 ^ 31) (hW : DispatchGroupWidthValid groupWidth)
    (hC : 1 ≤ coreCount ∧ coreCount ≤ 64) (hcore : core < coreCount) (hr : 0 ≤ rank ∧ rank < rankSize)
    (h : 0 ≤ (dispatchGroupedPeerForCore rank rankSize groupWidth core coreCount workIndex).peer) :
    (dispatchGroupedPeerForCore rank rankSize groupWidth core coreCount workIndex).peer < rankSize ∧
      (dispatchGroupedPeerForCore rank rankSize groupWidth core coreCount workIndex).peer ≠ rank := by
  rw [dispatchGroupedPeerForCore_eq hmax hW hC hcore] at h ⊢
  by_cases hin : dispatchGroupedAssignmentCount rankSize groupWidth ≤ core + workIndex * coreCount
  · rw [if_pos hin] at h
    exact absurd h (by decide)
  · rw [if_neg hin] at h ⊢
    dsimp only at h ⊢
    have hR : 2 ≤ rankSize := by
      by_contra hsmall
      rw [dispatchGroupedAssignmentCount, dispatchGroupedGroupCount, if_pos (.inl (by omega))] at hin
      omega
    have hrange := dispatchGroupedPeer_range hr (fun h0 => by rw [h0] at h; exact absurd h (by decide))
    exact ⟨hrange.2, ((dispatchGroupedPeer_eq_iff ⟨hR, hmax⟩ hW hr hrange).1 rfl).1⟩

end Grouped

/-! ## Legacy mode -/

section Legacy
variable {rankSize rank : ℤ} {coreCount : ℕ}

theorem dispatchPeerWorkCount_eq (hC : 1 ≤ coreCount ∧ coreCount ≤ 64) :
    dispatchPeerWorkCount coreCount = (64 + coreCount - 1) / coreCount := by
  have hvalid : ¬ (coreCount = 0 ∨ coreCount > kDispatchAivCoreCount) := by
    rw [kDispatchAivCoreCount]
    omega
  rw [dispatchPeerWorkCount, if_neg hvalid, Lib.div_add_ite _ hC.1]
  rfl

theorem dispatchGroupCount_pos (hr : 0 ≤ rank ∧ rank < rankSize) : rank / 64 < dispatchGroupCount rankSize := by
  rw [dispatchGroupCount, if_neg (by omega), kDispatchRankGroupSize]
  split_ifs <;> omega

theorem dispatchTargetGroup_eq_iff {target : ℤ} (hr : 0 ≤ rank ∧ rank < rankSize)
    (hphase : (phase : ℤ) < dispatchGroupCount rankSize)
    (htarget : 0 ≤ target ∧ target < dispatchGroupCount rankSize) :
    dispatchTargetGroup rank rankSize phase = target ↔
      stepsTo (dispatchGroupCount rankSize) (rank / 64) target = phase := by
  have hown := dispatchGroupCount_pos hr
  rw [dispatchTargetGroup, if_neg (by omega)]
  exact @forward_eq_iff _ (rank / 64) target phase ⟨by omega, hown⟩ htarget hphase

theorem dispatchTargetGroup_range (hr : 0 ≤ rank ∧ rank < rankSize)
    (hphase : (phase : ℤ) < dispatchGroupCount rankSize) : 0 ≤ dispatchTargetGroup rank rankSize phase ∧
      dispatchTargetGroup rank rankSize phase < dispatchGroupCount rankSize := by
  have hown := dispatchGroupCount_pos hr
  rw [dispatchTargetGroup, if_neg (by omega)]
  exact ⟨Int.emod_nonneg _ (by omega), Int.emod_lt_of_pos _ (by omega)⟩

theorem dispatchPeerForCore_eq_iff {peer : ℤ} (hC : 1 ≤ coreCount ∧ coreCount ≤ 64) (hcore : core < coreCount)
    (hr : 0 ≤ rank ∧ rank < rankSize) (hphase : (phase : ℤ) < dispatchGroupCount rankSize)
    (hp : 0 ≤ peer ∧ peer < rankSize) : dispatchPeerForCore rank rankSize phase core coreCount workIndex = peer ↔
      stepsTo (dispatchGroupCount rankSize) (rank / 64) (peer / 64) = phase ∧
        core + workIndex * coreCount = (peer % 64).toNat := by
  have htarget := dispatchTargetGroup_range hr hphase
  have hvalid : ¬ (coreCount = 0 ∨ coreCount > kDispatchAivCoreCount ∨ core ≥ coreCount) := by
    rw [kDispatchAivCoreCount]
    omega
  rw [← dispatchTargetGroup_eq_iff hr hphase ⟨by omega, dispatchGroupCount_pos hp⟩,
    dispatchPeerForCore, if_neg hvalid]
  dsimp only
  rw [kDispatchRankGroupSize, if_neg (show ¬ dispatchTargetGroup rank rankSize phase < 0 by omega)]
  split_ifs <;> omega

end Legacy

/-- The walk over all cores and work indices covers the schedule of a rank: in the grouped modes every
place once, and with them every other rank once; in the legacy mode every rank once. -/
theorem dispatch_walk_covers (rankSize rank : ℤ) (coreCount : ℕ) (hmax : rankSize < 2 ^ 31)
    (hC : 1 ≤ coreCount ∧ coreCount ≤ 64) (hr : 0 ≤ rank ∧ rank < rankSize) :
    (∀ groupWidth, DispatchGroupWidthValid groupWidth →
      (∀ group < dispatchGroupedGroupCount rankSize groupWidth, ∀ lane < groupWidth,
        ∃! x : ℕ × ℕ, x.1 < coreCount ∧
          x.2 < dispatchGroupedPeerWorkCount rankSize groupWidth coreCount ∧
          (dispatchGroupedPeerForCore rank rankSize groupWidth x.1 coreCount x.2).group = group ∧
          (dispatchGroupedPeerForCore rank rankSize groupWidth x.1 coreCount x.2).lane = lane) ∧
      (∀ peer, 0 ≤ peer → peer < rankSize → peer ≠ rank →
        ∃! x : ℕ × ℕ, x.1 < coreCount ∧
          x.2 < dispatchGroupedPeerWorkCount rankSize groupWidth coreCount ∧
          (dispatchGroupedPeerForCore rank rankSize groupWidth x.1 coreCount x.2).peer = peer) ∧
      (∀ core < coreCount, ∀ workIndex < dispatchGroupedPeerWorkCount rankSize groupWidth coreCount,
        0 ≤ (dispatchGroupedPeerForCore rank rankSize groupWidth core coreCount workIndex).peer →
        (dispatchGroupedPeerForCore rank rankSize groupWidth core coreCount workIndex).peer < rankSize ∧
        (dispatchGroupedPeerForCore rank rankSize groupWidth core coreCount workIndex).peer ≠ rank)) ∧
    (∀ peer, 0 ≤ peer → peer < rankSize →
      ∃! x : ℕ × ℕ × ℕ, (x.1 : ℤ) < dispatchGroupCount rankSize ∧ x.2.1 < coreCount ∧
        x.2.2 < dispatchPeerWorkCount coreCount ∧
        dispatchPeerForCore rank rankSize x.1 x.2.1 coreCount x.2.2 = peer) := by
  refine ⟨fun groupWidth hW => ⟨fun group hg lane hl => ?_, fun peer h0 h1 hne => ?_,
    fun core hcore workIndex _ => dispatchGroupedPeerForCore_range hmax hW hC hcore hr⟩,
    fun peer h0 h1 => ?_⟩
  · have hlast := Lib.row_le groupWidth hg
    rw [dispatchGroupedPeerWorkCount_eq hmax hW hC]
    refine (existsUnique_congr fun x => ?_).2 (Lib.stride_existsUnique hC.1
      (show group * groupWidth + lane < dispatchGroupedAssignmentCount rankSize groupWidth by
        rw [dispatchGroupedAssignmentCount]; omega))
    refine and_congr_right fun hcore => and_congr_right fun _ => ?_
    exact dispatchGroupedPeerForCore_place_iff hmax hW hC hcore hg hl
  · obtain ⟨hg, hl⟩ := peerSlot_lt ⟨by omega, hmax⟩ hW hr ⟨h0, h1⟩ hne
    have hlast := Lib.row_le groupWidth hg
    rw [dispatchGroupedPeerWorkCount_eq hmax hW hC]
    refine (existsUnique_congr fun x => ?_).2 (Lib.stride_existsUnique hC.1
      (show (peerSlot rankSize groupWidth rank peer).1 * groupWidth +
          (peerSlot rankSize groupWidth rank peer).2 <
        dispatchGroupedAssignmentCount rankSize groupWidth by
          rw [dispatchGroupedAssignmentCount]; omega))
    refine and_congr_right fun hcore => and_congr_right fun _ => ?_
    exact dispatchGroupedPeerForCore_peer_iff (by omega) hmax hW hC hcore hr ⟨h0, h1⟩ hne
  · obtain ⟨x, ⟨hx1, hx2, hx3⟩, hunique⟩ := Lib.stride_existsUnique hC.1
      (show (peer % 64).toNat < 64 by omega)
    have hown := dispatchGroupCount_pos hr
    have htarget := @dispatchGroupCount_pos rankSize peer ⟨h0, h1⟩
    have hphase : (stepsTo (dispatchGroupCount rankSize) (rank / 64) (peer / 64) : ℤ) <
        dispatchGroupCount rankSize := by
      have := @stepsTo_lt _ (rank / 64) (peer / 64) ⟨by omega, hown⟩ ⟨by omega, htarget⟩
      omega
    rw [dispatchPeerWorkCount_eq hC]
    refine ⟨(stepsTo (dispatchGroupCount rankSize) (rank / 64) (peer / 64), x), ⟨hphase, hx1, hx2,
      (dispatchPeerForCore_eq_iff hC hx1 hr hphase ⟨h0, h1⟩).2 ⟨rfl, hx3⟩⟩, ?_⟩
    rintro ⟨phase, core, workIndex⟩ ⟨h2, h3, h4, h5⟩
    obtain ⟨hp, hitem⟩ := (dispatchPeerForCore_eq_iff hC h3 hr h2 ⟨h0, h1⟩).1 h5
    exact Prod.ext hp.symm (hunique (core, workIndex) ⟨h3, h4, hitem⟩)

theorem dispatch_walk_covers_three :
    (∃! x : ℕ × ℕ, x.1 < 2 ∧ x.2 < dispatchGroupedPeerWorkCount 3 8 2 ∧
      (dispatchGroupedPeerForCore 0 3 8 x.1 2 x.2).peer = 2) ∧
    ∃! x : ℕ × ℕ × ℕ, (x.1 : ℤ) < dispatchGroupCount 3 ∧ x.2.1 < 2 ∧ x.2.2 < dispatchPeerWorkCount 2 ∧
      dispatchPeerForCore 0 3 x.1 x.2.1 2 x.2.2 = 0 :=
  have h := dispatch_walk_covers 3 0 2 (by decide) (by decide) (by decide)
  ⟨(h.1 8 (by decide)).2.1 2 (by decide) (by decide) (by decide), h.2 0 (by decide) (by decide)⟩

end TileXR.DispatchUrma
