import TileXR.Lib.Blocks

/-!
# The peer schedule of the URMA dispatch

`dispatch_schedule.h`. In the grouped modes a rank serves its peers in groups of 8 or 16 lanes: the first
half of the lanes goes forward around the ring of ranks, the second half backward, by increasing
distance. With 128 ranks and 16 lanes the first half of the lanes stays in the own half of the ranks and
the second half goes to the other one. The legacy mode walks groups of 64 ranks, a phase for each. The
dividends of the signed remainders are never negative.
-/

namespace TileXR.DispatchUrma
open Int

def kDispatchAivCoreCount : ℕ := 64
def kDispatchRankGroupSize : ℕ := 64
def kDispatchValidationGroupWidth : ℕ := 8
def kDispatchDefaultGroupWidth : ℕ := 16
def kDispatchSplitRankSize : ℤ := 128
def kDispatchSplitHalfRankSize : ℤ := 64

def DispatchGroupWidthValid (groupWidth : ℕ) : Prop :=
  groupWidth = kDispatchValidationGroupWidth ∨ groupWidth = kDispatchDefaultGroupWidth

instance : DecidablePred DispatchGroupWidthValid := fun _ => inferInstanceAs (Decidable (_ ∨ _))

def dispatchGroupedGroupCount (rankSize : ℤ) (groupWidth : ℕ) : ℕ :=
  if rankSize ≤ 1 ∨ ¬ DispatchGroupWidthValid groupWidth then 0
  else
    let remotePeerCount := (rankSize - 1).toNat
    (remotePeerCount / groupWidth + if remotePeerCount % groupWidth = 0 then 0 else 1) % 2 ^ 32

def dispatchSplit128RingPeer (halfBase center offset : ℤ) : ℤ :=
  let index := (center + offset + kDispatchSplitHalfRankSize) % kDispatchSplitHalfRankSize
  halfBase + index

/-- The steps `1, -1, 2, -2, ..` by ordinal. -/
def alternating (ordinal : ℕ) : ℤ :=
  let distance : ℤ := (ordinal / 2 + 1 : ℕ)
  if ordinal % 2 = 0 then distance else -distance

def splitRemoteOffset (group remoteLane : ℕ) : ℤ :=
  if group = 0 then
    if remoteLane = 1 then kDispatchSplitHalfRankSize / 2
    else if remoteLane ≥ 2 then alternating (remoteLane - 2)
    else 0
  else
    let distance : ℤ := (group * (8 / 2) + remoteLane / 2 : ℕ)
    if remoteLane % 2 = 0 then distance else -distance

def dispatchGroupedPeerSplit128 (rank : ℤ) (group lane : ℕ) : ℤ :=
  let splitGroupWidth := 16
  let halfGroupWidth := splitGroupWidth / 2
  let splitGroupCount := 8
  if rank < 0 ∨ rank ≥ kDispatchSplitRankSize ∨ group ≥ splitGroupCount ∨ lane ≥ splitGroupWidth then -1
  else
    let localHalfBase := if rank < kDispatchSplitHalfRankSize then 0 else kDispatchSplitHalfRankSize
    let remoteHalfBase := kDispatchSplitHalfRankSize - localHalfBase
    let center := rank - localHalfBase
    if lane < halfGroupWidth then
      let ordinal := group * halfGroupWidth + lane
      if (ordinal : ℤ) ≥ kDispatchSplitHalfRankSize - 1 then -1
      else dispatchSplit128RingPeer localHalfBase center (alternating ordinal)
    else
      dispatchSplit128RingPeer remoteHalfBase center (splitRemoteOffset group (lane - halfGroupWidth))

def dispatchGroupedPeer (rank rankSize : ℤ) (group lane groupWidth : ℕ) : ℤ :=
  let groupCount := dispatchGroupedGroupCount rankSize groupWidth
  if rank < 0 ∨ rank ≥ rankSize ∨ group ≥ groupCount ∨ lane ≥ groupWidth then -1
  else if rankSize = kDispatchSplitRankSize ∧ groupWidth = 16 then
    dispatchGroupedPeerSplit128 rank group lane
  else
    let halfWidth := groupWidth / 2
    let index := if lane < halfWidth then lane else lane - halfWidth
    let distance := group * halfWidth + index + 1
    let diameter := rankSize.toNat / 2
    if distance > diameter ∨ (lane ≥ halfWidth ∧ distance = diameter ∧ rankSize % 2 = 0) then -1
    else if lane < halfWidth then (rank + distance) % rankSize
    else (rank - distance + rankSize) % rankSize

def dispatchGroupedAssignmentCount (rankSize : ℤ) (groupWidth : ℕ) : ℕ :=
  dispatchGroupedGroupCount rankSize groupWidth * groupWidth

def dispatchGroupedPeerWorkCount (rankSize : ℤ) (groupWidth coreCount : ℕ) : ℕ :=
  if coreCount = 0 ∨ coreCount > kDispatchAivCoreCount then 0
  else
    let assignments := dispatchGroupedAssignmentCount rankSize groupWidth
    if assignments = 0 then 0
    else (assignments / coreCount + if assignments % coreCount = 0 then 0 else 1) % 2 ^ 32

/-- What `DispatchGroupedPeerForCore` returns and stores. -/
structure CorePeer where
  peer : ℤ
  group : ℕ
  lane : ℕ
  deriving DecidableEq

def dispatchGroupedPeerForCore (rank rankSize : ℤ) (groupWidth core coreCount workIndex : ℕ) : CorePeer :=
  let none : CorePeer := ⟨-1, 2 ^ 32 - 1, 2 ^ 32 - 1⟩
  if coreCount = 0 ∨ coreCount > kDispatchAivCoreCount ∨ core ≥ coreCount then none
  else
    let assignment := core + workIndex * coreCount
    if assignment ≥ dispatchGroupedAssignmentCount rankSize groupWidth then none
    else
      let group := assignment / groupWidth % 2 ^ 32
      let lane := assignment % groupWidth
      ⟨dispatchGroupedPeer rank rankSize group lane groupWidth, group, lane⟩

def dispatchGroupCount (rankSize : ℤ) : ℤ :=
  if rankSize ≤ 0 then 0
  else rankSize / kDispatchRankGroupSize + if rankSize % kDispatchRankGroupSize = 0 then 0 else 1

def dispatchTargetGroup (rank rankSize phase : ℤ) : ℤ :=
  let groupCount := dispatchGroupCount rankSize
  if rank < 0 ∨ rank ≥ rankSize ∨ phase < 0 ∨ phase ≥ groupCount then -1
  else (rank / kDispatchRankGroupSize + phase) % groupCount

def dispatchPeerForCore (rank rankSize phase : ℤ) (core coreCount workIndex : ℕ) : ℤ :=
  if coreCount = 0 ∨ coreCount > kDispatchAivCoreCount ∨ core ≥ coreCount then -1
  else
    let peerOffset := core + workIndex * coreCount
    if peerOffset ≥ kDispatchRankGroupSize then -1
    else
      let targetGroup := dispatchTargetGroup rank rankSize phase
      if targetGroup < 0 then -1
      else
        let peer := targetGroup * kDispatchRankGroupSize + peerOffset
        if peer < rankSize then peer else -1

def dispatchPeerWorkCount (coreCount : ℕ) : ℕ :=
  if coreCount = 0 ∨ coreCount > kDispatchAivCoreCount then 0
  else
    kDispatchRankGroupSize / coreCount + if kDispatchRankGroupSize % coreCount = 0 then 0 else 1

/-! ## The place of a peer -/

/-- The steps forward from one place of a ring to another. -/
def stepsTo (size source target : ℤ) : ℕ :=
  (if source ≤ target then target - source else target - source + size).toNat

def ringSlot (rankSize : ℤ) (groupWidth : ℕ) (rank peer : ℤ) : ℕ × ℕ :=
  let forward := stepsTo rankSize rank peer
  let backward := stepsTo rankSize peer rank
  let halfWidth := groupWidth / 2
  if forward ≤ backward then ((forward - 1) / halfWidth, (forward - 1) % halfWidth)
  else ((backward - 1) / halfWidth, halfWidth + (backward - 1) % halfWidth)

/-- The ordinal of a step around a ring of 64 among `1, -1, 2, -2, ..`. -/
def alternatingOrdinal (steps : ℕ) : ℕ := if steps ≤ 32 then 2 * (steps - 1) else 2 * (63 - steps) + 1

/-- The group and lane of a peer in the other half of 128 ranks. -/
def remoteSlot (steps : ℕ) : ℕ × ℕ :=
  let distance := min steps (64 - steps)
  let backward := if steps ≤ 32 then 0 else 1
  if steps = 0 then (0, 8)
  else if steps = 32 then (0, 9)
  else if distance < 4 then (0, 10 + 2 * (distance - 1) + backward)
  else (distance / 4, 8 + 2 * (distance % 4) + backward)

def splitSlot (rank peer : ℤ) : ℕ × ℕ :=
  let steps := stepsTo 64 (rank % 64) (peer % 64)
  if rank / 64 = peer / 64 then (alternatingOrdinal steps / 8, alternatingOrdinal steps % 8)
  else remoteSlot steps

/-- The group and lane in which a rank serves a peer. -/
def peerSlot (rankSize : ℤ) (groupWidth : ℕ) (rank peer : ℤ) : ℕ × ℕ :=
  if rankSize = 128 ∧ groupWidth = 16 then splitSlot rank peer
  else ringSlot rankSize groupWidth rank peer

theorem stepsTo_lt {size source target : ℤ} (hs : 0 ≤ source ∧ source < size)
    (ht : 0 ≤ target ∧ target < size) : stepsTo size source target < size.toNat := by
  unfold stepsTo
  split_ifs <;> omega

theorem stepsTo_eq_zero {size source target : ℤ} (hs : 0 ≤ source ∧ source < size)
    (ht : 0 ≤ target ∧ target < size) : stepsTo size source target = 0 ↔ target = source := by
  unfold stepsTo
  split_ifs <;> omega

/-! ## The split schedule -/

theorem ringPeer_eq_iff {base center index offset : ℤ} (hc : 0 ≤ center ∧ center < 64)
    (hi : 0 ≤ index ∧ index < 64) : dispatchSplit128RingPeer base center offset = base + index ↔
      (offset % 64).toNat = stepsTo 64 center index := by
  simp only [dispatchSplit128RingPeer, stepsTo, kDispatchSplitHalfRankSize]
  split_ifs <;> omega

theorem ringPeer_range (base center offset : ℤ) : base ≤ dispatchSplit128RingPeer base center offset ∧
      dispatchSplit128RingPeer base center offset < base + 64 := by
  simp only [dispatchSplit128RingPeer, kDispatchSplitHalfRankSize]
  omega

theorem alternatingOrdinal_alternating : ∀ ordinal < 63, (alternating ordinal % 64).toNat ≠ 0 ∧
    alternatingOrdinal (alternating ordinal % 64).toNat = ordinal := by decide

theorem alternating_alternatingOrdinal : ∀ steps < 64, steps ≠ 0 → alternatingOrdinal steps < 63 ∧
    (alternating (alternatingOrdinal steps) % 64).toNat = steps := by decide

theorem remoteSlot_splitRemoteOffset : ∀ group < 8, ∀ remoteLane < 8,
    remoteSlot (splitRemoteOffset group remoteLane % 64).toNat = (group, 8 + remoteLane) := by decide

theorem remoteSlot_lt : ∀ steps < 64, (remoteSlot steps).1 < 8 ∧ (remoteSlot steps).2 < 16 := by decide

theorem alternatingOrdinal_group : ∀ steps < 64, steps ≠ 0 →
    alternatingOrdinal (64 - steps) / 8 = alternatingOrdinal steps / 8 := by decide

theorem remoteSlot_group : ∀ steps < 64, (remoteSlot ((64 - steps) % 64)).1 = (remoteSlot steps).1 := by
  decide

theorem splitRemoteOffset_remoteSlot : ∀ steps < 64, 8 ≤ (remoteSlot steps).2 ∧
    (splitRemoteOffset (remoteSlot steps).1 ((remoteSlot steps).2 - 8) % 64).toNat = steps := by decide

theorem alternating_eq_iff {ordinal steps : ℕ} (ho : ordinal < 63) (hs : steps < 64) :
    (alternating ordinal % 64).toNat = steps ↔ steps ≠ 0 ∧ alternatingOrdinal steps = ordinal := by
  constructor
  · rintro rfl
    exact alternatingOrdinal_alternating ordinal ho
  · rintro ⟨hne, rfl⟩
    exact (alternating_alternatingOrdinal steps hs hne).2

theorem splitRemoteOffset_eq_iff {group remoteLane steps : ℕ} (hg : group < 8) (hl : remoteLane < 8)
    (hs : steps < 64) : (splitRemoteOffset group remoteLane % 64).toNat = steps ↔
      remoteSlot steps = (group, 8 + remoteLane) := by
  constructor
  · rintro rfl
    exact remoteSlot_splitRemoteOffset group hg remoteLane hl
  · intro h
    have := (splitRemoteOffset_remoteSlot steps hs).2
    rwa [h, Nat.add_sub_cancel_left] at this

theorem dispatchGroupedPeerSplit128_of_valid {rank : ℤ} {group lane : ℕ} (hr : 0 ≤ rank ∧ rank < 128)
    (hg : group < 8) (hl : lane < 16) :
    dispatchGroupedPeerSplit128 rank group lane =
      if lane < 8 then
        if 63 ≤ group * 8 + lane then -1
        else dispatchSplit128RingPeer (64 * (rank / 64)) (rank % 64) (alternating (group * 8 + lane))
      else
        dispatchSplit128RingPeer (64 - 64 * (rank / 64)) (rank % 64)
          (splitRemoteOffset group (lane - 8)) := by
  have hvalid : ¬ (rank < 0 ∨ rank ≥ kDispatchSplitRankSize ∨ group ≥ 8 ∨ lane ≥ 16) := by
    rw [kDispatchSplitRankSize]
    omega
  have hbase : (if rank < kDispatchSplitHalfRankSize then 0 else kDispatchSplitHalfRankSize) =
      64 * (rank / 64) := by
    rw [kDispatchSplitHalfRankSize]
    split_ifs <;> omega
  have hcenter : rank - 64 * (rank / 64) = rank % 64 := by omega
  have hlast : ((group * 8 + lane : ℕ) : ℤ) ≥ kDispatchSplitHalfRankSize - 1 ↔ 63 ≤ group * 8 + lane := by
    rw [kDispatchSplitHalfRankSize]
    omega
  simp only [dispatchGroupedPeerSplit128, if_neg hvalid, hbase, hcenter]
  by_cases hlane : lane < 8
  · rw [if_pos hlane, if_pos hlane]
    exact if_congr hlast rfl rfl
  · rw [if_neg hlane, if_neg hlane]
    rfl

theorem dispatchGroupedPeerSplit128_eq_iff {rank peer : ℤ} {group lane : ℕ} (hr : 0 ≤ rank ∧ rank < 128)
    (hp : 0 ≤ peer ∧ peer < 128) (hg : group < 8) (hl : lane < 16) :
    dispatchGroupedPeerSplit128 rank group lane = peer ↔ peer ≠ rank ∧ splitSlot rank peer = (group, lane) := by
  have hc : 0 ≤ rank % 64 ∧ rank % 64 < 64 := by omega
  have hi : 0 ≤ peer % 64 ∧ peer % 64 < 64 := by omega
  have hsteps := stepsTo_lt hc hi
  have hzero := stepsTo_eq_zero hc hi
  have hlocal := ringPeer_range (64 * (rank / 64)) (rank % 64) (alternating (group * 8 + lane))
  have hother := ringPeer_range (64 - 64 * (rank / 64)) (rank % 64) (splitRemoteOffset group (lane - 8))
  rw [dispatchGroupedPeerSplit128_of_valid hr hg hl, splitSlot]
  generalize hst : stepsTo 64 (rank % 64) (peer % 64) = steps at hsteps hzero ⊢
  have hremote := (splitRemoteOffset_remoteSlot steps hsteps).1
  by_cases hlane : lane < 8 <;> by_cases hhalf : rank / 64 = peer / 64
  · have hne : peer ≠ rank ↔ steps ≠ 0 := by omega
    rw [if_pos hlane, if_pos hhalf, Prod.mk.injEq]
    by_cases ho : 63 ≤ group * 8 + lane
    · rw [if_pos ho]
      refine iff_of_false (by omega) fun ⟨hpr, h1, h2⟩ => ?_
      have := (alternating_alternatingOrdinal steps hsteps (hne.1 hpr)).1
      omega
    · have hpeer : peer = 64 * (rank / 64) + peer % 64 := by omega
      rw [if_neg ho, hne]
      conv_lhs => rw [hpeer, ringPeer_eq_iff hc hi, hst, alternating_eq_iff (by omega) hsteps]
      exact and_congr_right fun _ => by omega
  · -- a lane of the own half, and a peer of the other one
    rw [if_pos hlane, if_neg hhalf]
    refine iff_of_false ?_ fun ⟨_, h⟩ => by rw [h] at hremote; omega
    split_ifs <;> omega
  · rw [if_neg hlane, if_pos hhalf, Prod.mk.injEq]
    exact iff_of_false (by omega) (by omega)
  · have hpeer : peer = 64 - 64 * (rank / 64) + peer % 64 := by omega
    rw [if_neg hlane, if_neg hhalf]
    conv_lhs => rw [hpeer, ringPeer_eq_iff hc hi, hst, splitRemoteOffset_eq_iff hg (by omega) hsteps,
      show 8 + (lane - 8) = lane by omega]
    exact ⟨fun h => ⟨by omega, h⟩, fun h => h.2⟩

/-! ## The ring schedule -/

section Ring
variable {rankSize rank peer : ℤ}

theorem forward_eq_iff {distance : ℕ} (hr : 0 ≤ rank ∧ rank < rankSize)
    (hp : 0 ≤ peer ∧ peer < rankSize) (hd : (distance : ℤ) < rankSize) :
    (rank + distance) % rankSize = peer ↔ stepsTo rankSize rank peer = distance := by
  unfold stepsTo
  rcases lt_or_ge (rank + distance) rankSize with hlt | hge
  · rw [emod_eq_of_lt (by omega) hlt]
    split_ifs <;> omega
  · rw [← sub_emod_right, emod_eq_of_lt (by omega) (by omega)]
    split_ifs <;> omega

theorem backward_eq_iff {distance : ℕ} (hr : 0 ≤ rank ∧ rank < rankSize)
    (hp : 0 ≤ peer ∧ peer < rankSize) (hd : (distance : ℤ) < rankSize) :
    (rank - distance + rankSize) % rankSize = peer ↔ stepsTo rankSize peer rank = distance := by
  unfold stepsTo
  rw [add_emod_right]
  rcases lt_or_ge (rank - distance) 0 with hlt | hge
  · rw [← add_emod_right, emod_eq_of_lt (by omega) (by omega)]
    split_ifs <;> omega
  · rw [emod_eq_of_lt (by omega) (by omega)]
    split_ifs <;> omega

theorem stepsTo_add (hr : 0 ≤ rank ∧ rank < rankSize) (hp : 0 ≤ peer ∧ peer < rankSize)
    (hne : peer ≠ rank) : stepsTo rankSize rank peer + stepsTo rankSize peer rank = rankSize.toNat := by
  unfold stepsTo
  split_ifs <;> omega

theorem groupWidth_pos {groupWidth : ℕ} (hW : DispatchGroupWidthValid groupWidth) : 0 < groupWidth := by
  rcases hW with rfl | rfl <;> decide

theorem dispatchGroupedGroupCount_eq {groupWidth : ℕ} (hR : 2 ≤ rankSize ∧ rankSize < 2 ^ 31)
    (hW : DispatchGroupWidthValid groupWidth) :
    dispatchGroupedGroupCount rankSize groupWidth = (rankSize.toNat + groupWidth - 2) / groupWidth := by
  have hvalid : ¬ (rankSize ≤ 1 ∨ ¬ DispatchGroupWidthValid groupWidth) := by
    rw [not_or, not_not]
    exact ⟨by omega, hW⟩
  have hpos := groupWidth_pos hW
  rw [dispatchGroupedGroupCount, if_neg hvalid]
  dsimp only
  rw [Lib.div_add_ite _ hpos, show (rankSize - 1).toNat + groupWidth - 1 = rankSize.toNat + groupWidth - 2
    by omega, Nat.mod_eq_of_lt]
  have : groupWidth ≤ 16 := by rcases hW with rfl | rfl <;> decide
  exact (Nat.div_le_self _ _).trans_lt (by omega)

theorem ringSlot_lt {groupWidth : ℕ} (hR : 2 ≤ rankSize ∧ rankSize < 2 ^ 31) (hW : DispatchGroupWidthValid groupWidth)
    (hr : 0 ≤ rank ∧ rank < rankSize) (hp : 0 ≤ peer ∧ peer < rankSize) (hne : peer ≠ rank) :
    (ringSlot rankSize groupWidth rank peer).1 < dispatchGroupedGroupCount rankSize groupWidth ∧
      (ringSlot rankSize groupWidth rank peer).2 < groupWidth := by
  have hsum := stepsTo_add hr hp hne
  rw [dispatchGroupedGroupCount_eq hR hW, ringSlot]
  rcases hW with rfl | rfl <;>
    simp only [kDispatchValidationGroupWidth, kDispatchDefaultGroupWidth] <;> split_ifs <;>
      dsimp only <;> omega

theorem dispatchGroupedPeer_forward {group lane half : ℕ} (hr : 0 ≤ rank ∧ rank < rankSize)
    (hg : group < dispatchGroupedGroupCount rankSize (2 * half)) (hl : lane < half)
    (hring : ¬ (rankSize = kDispatchSplitRankSize ∧ 2 * half = 16)) :
    dispatchGroupedPeer rank rankSize group lane (2 * half) =
      if rankSize.toNat / 2 < group * half + lane + 1 then -1
      else (rank + (group * half + lane + 1 : ℕ)) % rankSize := by
  unfold dispatchGroupedPeer
  dsimp only
  rw [if_neg (by omega), if_neg hring, Nat.mul_div_cancel_left half (by decide), if_pos hl, if_pos hl]
  exact if_congr (by omega) rfl rfl

theorem dispatchGroupedPeer_backward {group lane half : ℕ} (hr : 0 ≤ rank ∧ rank < rankSize)
    (hg : group < dispatchGroupedGroupCount rankSize (2 * half)) (hl : lane < half)
    (hring : ¬ (rankSize = kDispatchSplitRankSize ∧ 2 * half = 16)) :
    dispatchGroupedPeer rank rankSize group (half + lane) (2 * half) =
      if rankSize.toNat ≤ 2 * (group * half + lane + 1) then -1
      else (rank - (group * half + lane + 1 : ℕ) + rankSize) % rankSize := by
  unfold dispatchGroupedPeer
  dsimp only
  rw [if_neg (by omega), if_neg hring, Nat.mul_div_cancel_left half (by decide),
    if_neg (show ¬ half + lane < half by omega), if_neg (show ¬ half + lane < half by omega),
    Nat.add_sub_cancel_left]
  exact if_congr (by omega) rfl rfl

theorem div_mod_iff {n half group index : ℕ} (hi : index < half) :
    n / half = group ∧ n % half = index ↔ n = group * half + index := by
  rw [Nat.div_mod_unique (by omega), Nat.mul_comm half group, Nat.add_comm, eq_comm]
  simp [hi]

theorem dispatchGroupedPeer_ring_iff {group lane half : ℕ} (hr : 0 ≤ rank ∧ rank < rankSize)
    (hp : 0 ≤ peer ∧ peer < rankSize) (hg : group < dispatchGroupedGroupCount rankSize (2 * half))
    (hl : lane < 2 * half) (hring : ¬ (rankSize = kDispatchSplitRankSize ∧ 2 * half = 16)) :
    dispatchGroupedPeer rank rankSize group lane (2 * half) = peer ↔
      peer ≠ rank ∧ ringSlot rankSize (2 * half) rank peer = (group, lane) := by
  have hsum := stepsTo_add hr hp
  have hzero := stepsTo_eq_zero hr hp
  have hzero' := stepsTo_eq_zero hp hr
  simp only [ringSlot, Nat.mul_div_cancel_left half (show 0 < 2 by decide)]
  rcases Nat.lt_or_ge lane half with hlow | hhigh
  · have hiff := @forward_eq_iff rankSize rank peer (group * half + lane + 1) hr hp
    have hslot := @div_mod_iff (stepsTo rankSize rank peer - 1) half group lane hlow
    rw [dispatchGroupedPeer_forward hr hg hlow hring]
    generalize group * half = x at *
    split_ifs with hfar hnear hnear
    · rw [Prod.mk.injEq, hslot]
      omega
    · rw [Prod.mk.injEq]
      omega
    · rw [Prod.mk.injEq, hslot, hiff (by omega)]
      omega
    · rw [Prod.mk.injEq, hiff (by omega)]
      omega
  · obtain ⟨index, rfl⟩ := Nat.exists_eq_add_of_le hhigh
    have hiff := @backward_eq_iff rankSize rank peer (group * half + index + 1) hr hp
    have hslot := @div_mod_iff (stepsTo rankSize peer rank - 1) half group index (by omega)
    rw [dispatchGroupedPeer_backward hr hg (by omega) hring]
    have hmod := Nat.mod_lt (stepsTo rankSize rank peer - 1) (show 0 < half by omega)
    generalize group * half = x at *
    split_ifs with hfar hnear hnear
    · rw [Prod.mk.injEq]
      omega
    · rw [Prod.mk.injEq, Nat.add_left_cancel_iff, hslot]
      omega
    · rw [Prod.mk.injEq, hiff (by omega)]
      omega
    · rw [Prod.mk.injEq, Nat.add_left_cancel_iff, hslot, hiff (by omega)]
      omega

end Ring

/-! ## Both schedules -/

section Schedule
variable {rankSize rank peer : ℤ} {group lane groupWidth : ℕ}

theorem groupWidth_eq (hW : DispatchGroupWidthValid groupWidth) : ∃ half, groupWidth = 2 * half ∧ 0 < half := by
  rcases hW with rfl | rfl
  · exact ⟨4, rfl, by decide⟩
  · exact ⟨8, rfl, by decide⟩

theorem dispatchGroupedPeer_of_split (hr : 0 ≤ rank ∧ rank < 128) (hg : group < 8) (hl : lane < 16) :
    dispatchGroupedPeer rank 128 group lane 16 = dispatchGroupedPeerSplit128 rank group lane := by
  have hcount : dispatchGroupedGroupCount 128 16 = 8 := by decide
  unfold dispatchGroupedPeer
  dsimp only
  rw [hcount, if_neg (by omega), if_pos ⟨rfl, rfl⟩]

theorem splitSlot_lt (hne : peer ≠ rank) : (splitSlot rank peer).1 < 8 ∧ (splitSlot rank peer).2 < 16 := by
  have hc : 0 ≤ rank % 64 ∧ rank % 64 < 64 := by omega
  have hi : 0 ≤ peer % 64 ∧ peer % 64 < 64 := by omega
  have hsteps := stepsTo_lt hc hi
  rw [splitSlot]
  split_ifs with hhalf
  · have hzero : stepsTo 64 (rank % 64) (peer % 64) ≠ 0 := by
      rw [Ne, stepsTo_eq_zero hc hi]
      omega
    have := (alternating_alternatingOrdinal _ hsteps hzero).1
    dsimp only
    omega
  · exact remoteSlot_lt _ hsteps

theorem peerSlot_lt (hR : 2 ≤ rankSize ∧ rankSize < 2 ^ 31) (hW : DispatchGroupWidthValid groupWidth)
    (hr : 0 ≤ rank ∧ rank < rankSize) (hp : 0 ≤ peer ∧ peer < rankSize) (hne : peer ≠ rank) :
    (peerSlot rankSize groupWidth rank peer).1 < dispatchGroupedGroupCount rankSize groupWidth ∧
      (peerSlot rankSize groupWidth rank peer).2 < groupWidth := by
  rw [peerSlot]
  split_ifs with hsplit
  · obtain ⟨rfl, rfl⟩ := hsplit
    exact splitSlot_lt hne
  · exact ringSlot_lt hR hW hr hp hne

theorem dispatchGroupedPeer_eq_iff (hR : 2 ≤ rankSize ∧ rankSize < 2 ^ 31)
    (hW : DispatchGroupWidthValid groupWidth) (hr : 0 ≤ rank ∧ rank < rankSize)
    (hp : 0 ≤ peer ∧ peer < rankSize) : dispatchGroupedPeer rank rankSize group lane groupWidth = peer ↔
      peer ≠ rank ∧ peerSlot rankSize groupWidth rank peer = (group, lane) := by
  by_cases hin : group < dispatchGroupedGroupCount rankSize groupWidth ∧ lane < groupWidth
  · rw [peerSlot]
    split_ifs with hsplit
    · obtain ⟨rfl, rfl⟩ := hsplit
      have hg : group < 8 := hin.1
      rw [dispatchGroupedPeer_of_split hr hg hin.2, dispatchGroupedPeerSplit128_eq_iff hr hp hg hin.2]
    · obtain ⟨half, rfl, -⟩ := groupWidth_eq hW
      exact dispatchGroupedPeer_ring_iff hr hp hin.1 hin.2 hsplit
  · have hnone : dispatchGroupedPeer rank rankSize group lane groupWidth = -1 := by
      unfold dispatchGroupedPeer
      dsimp only
      rw [if_pos (by omega)]
    rw [hnone]
    refine iff_of_false (by omega) fun ⟨hne, hslot⟩ => hin ?_
    have := peerSlot_lt hR hW hr hp hne
    rwa [hslot] at this

theorem dispatchGroupedPeer_range (hr : 0 ≤ rank ∧ rank < rankSize)
    (h : dispatchGroupedPeer rank rankSize group lane groupWidth ≠ -1) :
    0 ≤ dispatchGroupedPeer rank rankSize group lane groupWidth ∧
      dispatchGroupedPeer rank rankSize group lane groupWidth < rankSize := by
  unfold dispatchGroupedPeer at h ⊢
  dsimp only at h ⊢
  have hmod : ∀ x, 0 ≤ x % rankSize ∧ x % rankSize < rankSize := fun x =>
    ⟨emod_nonneg _ (by omega), emod_lt_of_pos _ (by omega)⟩
  by_cases hbad : rank < 0 ∨ rank ≥ rankSize ∨ group ≥ dispatchGroupedGroupCount rankSize groupWidth ∨
      lane ≥ groupWidth
  · rw [if_pos hbad] at h
    exact absurd rfl h
  rw [if_neg hbad] at h ⊢
  by_cases hsplit : rankSize = kDispatchSplitRankSize ∧ groupWidth = 16
  · rw [if_pos hsplit] at h ⊢
    obtain ⟨rfl, rfl⟩ := hsplit
    have hg : group < 8 ∧ lane < 16 := by
      have hcount : dispatchGroupedGroupCount kDispatchSplitRankSize 16 = 8 := by decide
      omega
    rw [kDispatchSplitRankSize] at hr ⊢
    have hlocal := ringPeer_range (64 * (rank / 64)) (rank % 64) (alternating (group * 8 + lane))
    have hother := ringPeer_range (64 - 64 * (rank / 64)) (rank % 64) (splitRemoteOffset group (lane - 8))
    rw [dispatchGroupedPeerSplit128_of_valid hr hg.1 hg.2] at h ⊢
    split_ifs at h ⊢ <;> omega
  · rw [if_neg hsplit] at h ⊢
    split_ifs at h ⊢
    all_goals first | exact absurd rfl h | exact hmod _

theorem peerSlot_group (hne : peer ≠ rank) :
    (peerSlot rankSize groupWidth peer rank).1 = (peerSlot rankSize groupWidth rank peer).1 := by
  unfold peerSlot
  split_ifs with hsplit
  · have hc : 0 ≤ rank % 64 ∧ rank % 64 < 64 := by omega
    have hi : 0 ≤ peer % 64 ∧ peer % 64 < 64 := by omega
    have hsteps := stepsTo_lt hc hi
    have hzero := stepsTo_eq_zero hc hi
    have hback : stepsTo 64 (peer % 64) (rank % 64) = (64 - stepsTo 64 (rank % 64) (peer % 64)) % 64 := by
      unfold stepsTo
      split_ifs <;> omega
    unfold splitSlot
    rw [hback]
    split_ifs with h1 h2 h2
    · have hmoved : stepsTo 64 (rank % 64) (peer % 64) ≠ 0 := by
        rw [Ne, hzero]
        omega
      rw [Nat.mod_eq_of_lt (by omega)]
      exact alternatingOrdinal_group _ hsteps hmoved
    · omega
    · omega
    · exact remoteSlot_group _ hsteps
  · unfold ringSlot
    dsimp only
    split_ifs with h1 h2 h2
    · rw [le_antisymm h1 h2]
    · rfl
    · rfl
    · omega

/-- A lane that has a peer in a group has one in the group before. -/
theorem dispatchGroupedPeer_closed (hW : DispatchGroupWidthValid groupWidth) (hr : 0 ≤ rank ∧ rank < rankSize)
    (h : dispatchGroupedPeer rank rankSize (group + 1) lane groupWidth ≠ -1) :
    dispatchGroupedPeer rank rankSize group lane groupWidth ≠ -1 := by
  have hin : group + 1 < dispatchGroupedGroupCount rankSize groupWidth ∧ lane < groupWidth := by
    by_contra hout
    refine h ?_
    unfold dispatchGroupedPeer
    dsimp only
    rw [if_pos (by omega)]
  by_cases hsplit : rankSize = kDispatchSplitRankSize ∧ groupWidth = 16
  · obtain ⟨rfl, rfl⟩ := hsplit
    have hg : group + 1 < 8 := hin.1
    have hlocal := ringPeer_range (64 * (rank / 64)) (rank % 64) (alternating (group * 8 + lane))
    have hother := ringPeer_range (64 - 64 * (rank / 64)) (rank % 64) (splitRemoteOffset group (lane - 8))
    rw [kDispatchSplitRankSize] at *
    rw [dispatchGroupedPeer_of_split hr hg hin.2, dispatchGroupedPeerSplit128_of_valid hr hg hin.2] at h
    rw [dispatchGroupedPeer_of_split hr (by omega) hin.2,
      dispatchGroupedPeerSplit128_of_valid hr (by omega) hin.2]
    split_ifs at h ⊢ <;> omega
  · obtain ⟨half, rfl, hpos⟩ := groupWidth_eq hW
    have hnonneg : ∀ x, x % rankSize ≠ -1 := fun x => by
      have := emod_nonneg x (show rankSize ≠ 0 by omega)
      omega
    have hstep : (group + 1) * half = group * half + half := Nat.succ_mul _ _
    rcases Nat.lt_or_ge lane half with hlow | hhigh
    · rw [dispatchGroupedPeer_forward hr hin.1 hlow hsplit] at h
      rw [dispatchGroupedPeer_forward hr (by omega) hlow hsplit]
      have hnear : ¬ rankSize.toNat / 2 < (group + 1) * half + lane + 1 := fun hfar => h (if_pos hfar)
      rw [if_neg (by omega)]
      exact hnonneg _
    · obtain ⟨index, rfl⟩ := Nat.exists_eq_add_of_le hhigh
      rw [dispatchGroupedPeer_backward hr hin.1 (by omega) hsplit] at h
      rw [dispatchGroupedPeer_backward hr (by omega) (by omega) hsplit]
      have hnear : ¬ rankSize.toNat ≤ 2 * ((group + 1) * half + index + 1) := fun hfar => h (if_pos hfar)
      rw [if_neg (by omega)]
      exact hnonneg _

end Schedule

/-- A schedule in which every two ranks exchange in one group, over one lane each. -/
structure ConflictFree (rankSize : ℤ) (peer : ℤ → ℕ → ℕ → ℤ) : Prop where
  range : ∀ rank group lane, 0 ≤ rank → rank < rankSize → peer rank group lane ≠ -1 →
    0 ≤ peer rank group lane ∧ peer rank group lane < rankSize ∧ peer rank group lane ≠ rank
  once : ∀ rank target, 0 ≤ rank → rank < rankSize → 0 ≤ target → target < rankSize → target ≠ rank →
    ∃! slot : ℕ × ℕ, peer rank slot.1 slot.2 = target
  exchange : ∀ rank target group, 0 ≤ rank → rank < rankSize → 0 ≤ target → target < rankSize →
    ((∃ lane, peer rank group lane = target) ↔ ∃ lane, peer target group lane = rank)
  closed : ∀ rank group lane, 0 ≤ rank → rank < rankSize →
    peer rank (group + 1) lane ≠ -1 → peer rank group lane ≠ -1

theorem dispatchGroupedPeer_conflictFree (rankSize : ℤ) (groupWidth : ℕ) (hR : 2 ≤ rankSize)
    (hmax : rankSize < 2 ^ 31) (hW : DispatchGroupWidthValid groupWidth) :
    ConflictFree rankSize fun rank group lane =>
      dispatchGroupedPeer rank rankSize group lane groupWidth := by
  have hiff := fun {rank peer : ℤ} {group lane : ℕ} (hr : 0 ≤ rank ∧ rank < rankSize)
    (hp : 0 ≤ peer ∧ peer < rankSize) =>
      @dispatchGroupedPeer_eq_iff rankSize rank peer group lane groupWidth ⟨hR, hmax⟩ hW hr hp
  refine ⟨fun rank group lane h0 h1 h => ?_, fun rank target h0 h1 h2 h3 hne => ?_,
    fun rank target group h0 h1 h2 h3 => ?_,
    fun rank group lane h0 h1 => dispatchGroupedPeer_closed hW ⟨h0, h1⟩⟩
  · have hrange := dispatchGroupedPeer_range ⟨h0, h1⟩ h
    exact ⟨hrange.1, hrange.2, ((hiff ⟨h0, h1⟩ hrange).1 rfl).1⟩
  · refine ⟨peerSlot rankSize groupWidth rank target, (hiff ⟨h0, h1⟩ ⟨h2, h3⟩).2 ⟨hne, rfl⟩, ?_⟩
    exact fun slot h => ((hiff ⟨h0, h1⟩ ⟨h2, h3⟩).1 h).2.symm
  · -- the slots of both ranks are in one group
    have hslot : ∀ {a b : ℤ}, 0 ≤ a ∧ a < rankSize → 0 ≤ b ∧ b < rankSize →
        (∃ lane, dispatchGroupedPeer a rankSize group lane groupWidth = b) →
        ∃ lane, dispatchGroupedPeer b rankSize group lane groupWidth = a := by
      rintro a b ha hb ⟨lane, h⟩
      obtain ⟨hne, hslot⟩ := (hiff ha hb).1 h
      refine ⟨(peerSlot rankSize groupWidth b a).2, (hiff hb ha).2 ⟨hne.symm, Prod.ext ?_ rfl⟩⟩
      rw [peerSlot_group hne, hslot]
    exact ⟨hslot ⟨h0, h1⟩ ⟨h2, h3⟩, hslot ⟨h2, h3⟩ ⟨h0, h1⟩⟩

theorem conflictFree_split_and_odd :
    (ConflictFree 128 fun rank group lane => dispatchGroupedPeer rank 128 group lane 16) ∧
      ConflictFree 5 fun rank group lane => dispatchGroupedPeer rank 5 group lane 8 :=
  ⟨dispatchGroupedPeer_conflictFree 128 16 (by decide) (by decide) (by decide),
    dispatchGroupedPeer_conflictFree 5 8 (by decide) (by decide) (by decide)⟩

end TileXR.DispatchUrma
