import Mathlib.Algebra.Order.Ring.Nat

/-!
# The peer schedule

`moonep_combine_schedule.h`: which peer a core of a rank sends to in a step, and in which step a rank
receives from a source. With at most eight ranks a core per peer does everything in one step; from
sixteen ranks on, sixteen cores serve two rings of groups of eight ranks, one ring for each half of the
ranks. The functions are on `uint32_t`; with at most 128 ranks nothing wraps.
-/

namespace TileXR.MoonEpCombineV2

def kRankCount : ℕ := 128
def kGroupSize : ℕ := 8
def kCoreCount : ℕ := 16

def RankSizeSupported (rankSize : ℕ) : Prop :=
  (2 ≤ rankSize ∧ rankSize ≤ kGroupSize) ∨ rankSize = 16 ∨ rankSize = 32 ∨ rankSize = 64 ∨
    rankSize = kRankCount

instance : DecidablePred RankSizeSupported := fun _ => inferInstanceAs (Decidable (_ ∨ _))

def activeCoreCount (rankSize : ℕ) : ℕ := if rankSize ≤ kGroupSize then rankSize else kCoreCount

def stepCount (rankSize : ℕ) : ℕ := if rankSize ≤ kGroupSize then 1 else rankSize / kCoreCount

def groupsPerHalf (rankSize : ℕ) : ℕ := rankSize / kCoreCount

def singleRingPeer (sourceRank step core rankSize : ℕ) : ℕ :=
  if rankSize ≤ kGroupSize then core
  else
    let groups := groupsPerHalf rankSize
    let sourceGroup := sourceRank / kGroupSize % groups
    let targetHalf := core / kGroupSize
    let targetOffset := core % kGroupSize
    let distance := (step + 1) % groups
    let targetIndex :=
      if core < kGroupSize then (sourceGroup + distance) % groups
      else (sourceGroup + groups - distance) % groups
    (targetIndex + targetHalf * groups) * kGroupSize + targetOffset

def singleRingReceiveStep (destinationRank sourceRank rankSize : ℕ) : ℕ :=
  if rankSize ≤ kGroupSize then 0
  else
    let groups := groupsPerHalf rankSize
    let destinationIndex := destinationRank / kGroupSize % groups
    let sourceIndex := sourceRank / kGroupSize % groups
    let delta :=
      if destinationRank < rankSize / 2 then (destinationIndex + groups - sourceIndex) % groups
      else (sourceIndex + groups - destinationIndex) % groups
    let distance := if delta = 0 then groups else delta
    distance - 1

def sourceForCore (core sourceIndex rankSize : ℕ) : ℕ := core + sourceIndex * activeCoreCount rankSize

theorem activeCoreCount_le (rankSize : ℕ) : activeCoreCount rankSize ≤ kCoreCount := by
  rw [activeCoreCount]
  split
  · next h => exact h.trans (by decide)
  · exact Nat.le_refl _

theorem activeCoreCount_pos {rankSize : ℕ} (h : 0 < rankSize) : 0 < activeCoreCount rankSize := by
  rw [activeCoreCount]
  split
  · exact h
  · decide

end TileXR.MoonEpCombineV2
