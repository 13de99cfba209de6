import TileXR.Lib.Scan
import TileXR.ReduceGrad.Pull

/-!
# Who adds what

The leader and its helpers scan the plan on their own, wave by wave; both find the same piece of the list
of contributors of the expert (`collectWaveContributors_eq`, `issueWave_eq`), and the pieces of all
waves a lane runs for one chunk make up the whole list (`flatMap_laneWaves`). Every chunk belongs to one
lane (`ownerLane`) and every block past the leaders is one helper of one lane (`helperLane_spec`).
-/

namespace TileXR.ReduceGrad
open Lib List Nat

variable {lane projection : ℕ}

/-! ## Helpers -/

section Helpers
variable {L : Layout}

section
variable (hL : L.Accepted)
include hL

theorem Layout.Accepted.laneCount_pos : 0 < L.laneCount :=
  Nat.lt_of_lt_of_le (by decide) hL.laneCount_ge

theorem Layout.Accepted.base_pos : 0 < (L.blockDim - L.laneCount) / L.laneCount := by
  have := hL.blockDim_ge
  exact Nat.div_pos (by omega) hL.laneCount_pos

theorem helperShape_pos (lane : ℕ) : 0 < helperShape L lane :=
  Nat.lt_of_lt_of_le hL.base_pos (Nat.le_add_right _ _)

theorem helperShape_le (lane : ℕ) : helperShape L lane ≤ kReduceGradDoneTokenCount := by
  have h₁ := hL.blockDim_le
  have h₂ := hL.laneCount_ge
  rw [kReduceGradMaxAivBlockCount] at h₁
  rw [kReduceGradProjectionCount] at h₂
  have hbase : (L.blockDim - L.laneCount) / L.laneCount ≤ 21 := by
    refine Nat.le_trans (div_le_div_left h₂ (by decide)) ?_
    omega
  rw [helperShape, kReduceGradDoneTokenCount]
  split <;> omega

theorem helperLane_spec {blockIdx : ℕ} (hlo : L.laneCount ≤ blockIdx) (hhi : blockIdx < L.blockDim)
    {helperIndex helperCount : ℕ} (h : helperLane L blockIdx = (lane, helperIndex, helperCount)) :
    lane < L.laneCount ∧ helperCount = helperShape L lane ∧ helperIndex < helperCount ∧
      blockIdx = L.laneCount + lane * ((L.blockDim - L.laneCount) / L.laneCount) +
        min lane ((L.blockDim - L.laneCount) % L.laneCount) + helperIndex := by
  have hbase := hL.base_pos
  have hdiv := div_add_mod (L.blockDim - L.laneCount) L.laneCount
  have hmod := mod_lt (L.blockDim - L.laneCount) hL.laneCount_pos
  rw [helperLane] at h
  rw [helperShape]
  generalize (L.blockDim - L.laneCount) / L.laneCount = base at h hbase hdiv ⊢
  generalize (L.blockDim - L.laneCount) % L.laneCount = extra at h hdiv hmod ⊢
  split at h
  · next hlt =>
    obtain ⟨rfl, rfl, rfl⟩ : _ = lane ∧ _ = helperIndex ∧ _ = helperCount := by simpa using h
    have hq : (blockIdx - L.laneCount) / (base + 1) < extra := (Nat.div_lt_iff_lt_mul (by omega)).2 (by
      rw [Nat.mul_comm]; exact hlt)
    have hord := div_add_mod (blockIdx - L.laneCount) (base + 1)
    rw [Nat.add_mul, Nat.one_mul, Nat.mul_comm] at hord
    refine ⟨by omega, by rw [if_pos hq], mod_lt _ (by omega), ?_⟩
    rw [Nat.min_eq_left hq.le]
    omega
  · next hge =>
    obtain ⟨rfl, rfl, rfl⟩ : _ = lane ∧ _ = helperIndex ∧ _ = helperCount := by simpa using h
    rw [Nat.add_mul, Nat.one_mul] at hge
    have hcount : base * L.laneCount = base * extra + base * (L.laneCount - extra) := by
      rw [← Nat.mul_add]; congr 1; omega
    rw [Nat.mul_comm] at hdiv
    have hq : (blockIdx - L.laneCount - (base + 1) * extra) / base < L.laneCount - extra :=
      (Nat.div_lt_iff_lt_mul hbase).2 (by rw [Nat.add_mul, Nat.one_mul, Nat.mul_comm _ base]; omega)
    have hord := div_add_mod (blockIdx - L.laneCount - (base + 1) * extra) base
    have hr := mod_lt (blockIdx - L.laneCount - (base + 1) * extra) hbase
    generalize (blockIdx - L.laneCount - (base + 1) * extra) / base = q at hq hord ⊢
    generalize (blockIdx - L.laneCount - (base + 1) * extra) % base = r at hr hord ⊢
    refine ⟨by omega, by rw [if_neg (by omega), Nat.add_zero], hr, ?_⟩
    rw [Nat.min_eq_right (by omega), Nat.mul_comm _ base, Nat.mul_add]
    rw [Nat.add_mul, Nat.one_mul] at hord
    omega

theorem exists_helper {helperIndex : ℕ} (hlane : lane < L.laneCount)
    (hidx : helperIndex < helperShape L lane) : ∃ blockIdx, L.laneCount ≤ blockIdx ∧ blockIdx < L.blockDim ∧
      helperLane L blockIdx = (lane, helperIndex, helperShape L lane) := by
  have hbase := hL.base_pos
  have hdiv := div_add_mod (L.blockDim - L.laneCount) L.laneCount
  have hmod := mod_lt (L.blockDim - L.laneCount) hL.laneCount_pos
  have hdim := hL.blockDim_ge
  rw [helperShape] at hidx ⊢
  simp only [helperLane] at hidx ⊢
  generalize (L.blockDim - L.laneCount) / L.laneCount = base at hbase hdiv hidx ⊢
  generalize (L.blockDim - L.laneCount) % L.laneCount = extra at hdiv hmod hidx ⊢
  rw [Nat.mul_comm] at hdiv
  have hsplit : base * L.laneCount = base * lane + base + base * (L.laneCount - lane - 1) := by
    rw [← mul_succ, ← Nat.mul_add]; congr 1; omega
  refine ⟨L.laneCount + (base * lane + min lane extra + helperIndex), by omega, ?_, ?_⟩
  · split at hidx <;> omega
  · rw [Nat.add_sub_cancel_left]
    by_cases hlt : lane < extra
    · rw [if_pos hlt] at hidx ⊢
      have hwide : base * lane + min lane extra + helperIndex = helperIndex + (base + 1) * lane := by
        rw [Nat.min_eq_left hlt.le, Nat.add_mul]; omega
      have hle : (base + 1) * (lane + 1) ≤ (base + 1) * extra := Nat.mul_le_mul_left _ hlt
      rw [mul_succ] at hle
      rw [hwide, if_pos (by omega), add_mul_div_left _ _ (by omega), add_mul_mod_self_left,
        div_eq_of_lt hidx, mod_eq_of_lt hidx, Nat.zero_add]
    · rw [if_neg hlt, Nat.add_zero] at hidx
      have hrest : base * lane + min lane extra + helperIndex - (base + 1) * extra =
          helperIndex + base * (lane - extra) := by
        obtain ⟨d, rfl⟩ : ∃ d, lane = extra + d := ⟨lane - extra, by omega⟩
        rw [Nat.min_eq_right (by omega), Nat.add_mul, Nat.mul_add, Nat.add_sub_cancel_left]
        omega
      have hge : ¬ base * lane + min lane extra + helperIndex < (base + 1) * extra := by
        obtain ⟨d, rfl⟩ : ∃ d, lane = extra + d := ⟨lane - extra, by omega⟩
        rw [Nat.min_eq_right (by omega), Nat.add_mul, Nat.mul_add]
        omega
      rw [if_neg hge, hrest, if_neg hlt, add_mul_div_left _ _ hbase, add_mul_mod_self_left,
        div_eq_of_lt hidx, mod_eq_of_lt hidx]
      simp only [Nat.zero_add, Nat.add_zero, Prod.mk.injEq, and_true]
      omega

end

end Helpers

/-! ## Lanes -/

def ownerLane (L : Layout) (projection localExpert chunk : ℕ) : ℕ :=
  L.projectionQpBase projection +
    (localExpert * L.chunkCounts projection + chunk) % L.projectionQpCounts projection

section Lanes
variable {L : Layout}

section
variable (hL : L.Accepted) (hp : projection < kReduceGradProjectionCount)
include hL hp

theorem projectionForLane_eq {i : ℕ} (hi : i < L.projectionQpCounts projection) :
    projectionForLane L (L.projectionQpBase projection + i) = projection := by
  rw [projectionForLane, hL.qpBase_eq]
  -- the lanes of the projections lie one behind the other
  have hfind : (List.range kReduceGradProjectionCount).find? (fun p =>
      decide (blockStart L.projectionQpCounts p ≤ blockStart L.projectionQpCounts projection + i ∧
        blockStart L.projectionQpCounts projection + i <
          blockStart L.projectionQpCounts p + L.projectionQpCounts p)) = some projection := by
    rw [List.find?_range_eq_some]
    refine ⟨by simp only [decide_eq_true_eq]; omega, mem_range.2 hp, fun q hq => ?_⟩
    have := blockStart_add_le L.projectionQpCounts hq
    simp only [Bool.not_eq_true', decide_eq_false_iff_not]
    omega
  rw [hfind]
  rfl

theorem ownerLane_lt (localExpert chunk : ℕ) : ownerLane L projection localExpert chunk < L.laneCount := by
  have h₁ := blockStart_add_le L.projectionQpCounts hp
  have h₂ := mod_lt (localExpert * L.chunkCounts projection + chunk) (hL.qpPos projection)
  rw [hL.qp_sum] at h₁
  rw [ownerLane, hL.qpBase_eq]
  omega

theorem projectionForLane_ownerLane
    (localExpert chunk : ℕ) : projectionForLane L (ownerLane L projection localExpert chunk) = projection :=
  projectionForLane_eq hL hp (mod_lt _ (hL.qpPos projection))

end

theorem projectionForLane_lt (hL : L.Accepted) (hlane : lane < L.laneCount) :
    projectionForLane L lane < kReduceGradProjectionCount ∧ L.projectionQpBase (projectionForLane L lane) ≤ lane := by
  obtain ⟨p, hp, i, hi, rfl⟩ : ∃ p < kReduceGradProjectionCount, ∃ i < L.projectionQpCounts p,
      lane = L.projectionQpBase p + i := by
    rw [hL.qpBase_eq]
    rw [← hL.qp_sum] at hlane
    generalize kReduceGradProjectionCount = n at hlane
    induction n with
    | zero => simp at hlane
    | succ n ih =>
      rcases Nat.lt_or_ge lane (blockStart L.projectionQpCounts n) with hlt | hge
      · obtain ⟨p, hp, h⟩ := ih hlt
        exact ⟨p, by omega, h⟩
      · rw [blockStart_succ] at hlane
        exact ⟨n, by omega, lane - blockStart L.projectionQpCounts n, by omega, by omega⟩
  rw [projectionForLane_eq hL hp hi]
  exact ⟨hp, Nat.le_add_right _ _⟩

end Lanes

/-! ## Contributors -/

section Contributors
variable {α : Type*} (t : Task α)

/-- The entries of the plan that name an expert of the rank, in ascending order. -/
def contributors (localExpert : ℕ) : List ℕ :=
  (List.range t.entries).filter fun entry => t.expertsToCopy entry = t.globalExpert localExpert

def Wave.contributors (w : Wave) : List ℕ :=
  ((ReduceGrad.contributors t w.localExpert).drop w.waveStart).take w.contributorCount

def Task.isRemote (entry : ℕ) : Bool := entry / t.layout.prefetchSlots ≠ t.layout.rank

/-- The read of the `ordinal`-th remote contributor of a wave. -/
def waveRead (lane projection bank : ℕ) (w : Wave) (ordinal entry : ℕ) : Read where
  sourceRank := entry / t.layout.prefetchSlots
  projection := projection
  remoteOffset := entry % t.layout.prefetchSlots * t.layout.rowBytes projection +
    w.chunk * t.layout.chunkBytes
  localOffset := bankPayload t.layout lane bank + ordinal * t.layout.chunkBytes
  bytes := chunkBytesOf t projection w.chunk

theorem countContributors_eq (localExpert : ℕ) :
    countContributors t (t.globalExpert localExpert) = (contributors t localExpert).length := by
  rw [countContributors, contributors]
  suffices h : ∀ (l : List ℕ) (c : ℕ), l.foldl (fun count entry =>
      if t.expertsToCopy entry = t.globalExpert localExpert then count + 1 else count) c =
      c + (l.filter fun entry => t.expertsToCopy entry = t.globalExpert localExpert).length from by
    rw [h, Nat.zero_add]
  intro l
  induction l with
  | nil => simp
  | cons x l ih =>
    intro c
    rw [foldl_cons, ih, filter_cons]
    by_cases hx : t.expertsToCopy x = t.globalExpert localExpert
    · simp only [hx, if_true, decide_true, length_cons]; omega
    · simp only [hx, if_false, decide_false, Bool.false_eq_true]

theorem collectEntry_eq (localExpert waveStart contributorCount : ℕ) :
    collectEntry t (t.globalExpert localExpert) waveStart contributorCount =
      scanStep (fun entry => t.expertsToCopy entry = t.globalExpert localExpert) waveStart contributorCount := by
  funext scan entry
  simp [collectEntry, scanStep]

theorem collectWaveContributors_eq (w : Wave) :
    collectWaveContributors t w.localExpert w.waveStart w.contributorCount = w.contributors t := by
  rw [collectWaveContributors, collectEntry_eq, foldl_scanStep]
  rfl

theorem issueWave_eq (lane projection bank : ℕ) (w : Wave) :
    (issueWave t lane projection bank w).collected = (w.contributors t).length ∧
      (issueWave t lane projection bank w).remoteContributorCount =
        ((w.contributors t).filter t.isRemote).length ∧ (issueWave t lane projection bank w).reads =
        ((w.contributors t).filter t.isRemote).mapIdx (waveRead t lane projection bank w) := by
  rw [← collectWaveContributors_eq, collectWaveContributors, issueWave]
  -- by induction on the entries scanned, with the count of matches in step as well
  suffices h : ∀ (l : List ℕ) (i : Issue) (c : ℕ × List ℕ),
      i.matching = c.1 → i.collected = c.2.length →
      i.remoteContributorCount = (c.2.filter t.isRemote).length →
      i.reads = (c.2.filter t.isRemote).mapIdx (waveRead t lane projection bank w) →
      let i' := l.foldl (issueEntry t lane projection bank w) i
      let c' := (l.foldl (collectEntry t (t.globalExpert w.localExpert) w.waveStart w.contributorCount) c).2
      i'.collected = c'.length ∧ i'.remoteContributorCount = (c'.filter t.isRemote).length ∧
        i'.reads = (c'.filter t.isRemote).mapIdx (waveRead t lane projection bank w) from
    h _ _ _ rfl rfl rfl rfl
  intro l
  induction l with
  | nil => exact fun i c _ h₁ h₂ h₃ => ⟨h₁, h₂, h₃⟩
  | cons x l ih =>
    intro i c h₀ h₁ h₂ h₃
    rw [foldl_cons, foldl_cons]
    by_cases hx : c.2.length < w.contributorCount ∧ t.expertsToCopy x = t.globalExpert w.localExpert
    · by_cases hskip : c.1 < w.waveStart
      · apply ih <;> simp [issueEntry, collectEntry, h₀, h₁, h₂, h₃, hx, hskip]
      · by_cases hrem : x / t.layout.prefetchSlots = t.layout.rank
        · have hloc : t.isRemote x = false := by simp [Task.isRemote, hrem]
          apply ih <;> simp [issueEntry, collectEntry, h₀, h₁, h₂, h₃, hx, hskip, hrem, hloc]
        · have hloc : t.isRemote x = true := by simp [Task.isRemote, hrem]
          apply ih <;>
            simp [issueEntry, collectEntry, h₀, h₁, h₂, h₃, hx, hskip, hrem, hloc, waveRead, mapIdx_append]
    · rw [issueEntry, collectEntry, if_neg (by rwa [h₁]), if_neg hx]
      exact ih i c h₀ h₁ h₂ h₃

/-! ## The waves of a lane -/

structure Wave.Valid (lane : ℕ) (w : Wave) : Prop where
  expert : w.localExpert < t.layout.expertsPerRank
  chunk : w.chunk < t.layout.chunkCounts (projectionForLane t.layout lane)
  count_pos : 0 < w.contributorCount
  count_le : w.contributorCount ≤ t.layout.rankSize
  length : (w.contributors t).length = w.contributorCount
  owner : ownerLane t.layout (projectionForLane t.layout lane) w.localExpert w.chunk = lane

variable {t}

theorem valid_of_mem_laneWaves (hL : t.layout.Accepted) (hlane : lane < t.layout.laneCount) {w : Wave}
    (hw : w ∈ laneWaves t lane) : w.Valid t lane := by
  rw [laneWaves] at hw
  simp only [mem_flatMap, mem_range] at hw
  obtain ⟨e, he, hw⟩ := hw
  split at hw
  · cases hw
  obtain ⟨c, hc, hw⟩ := mem_flatMap.1 hw
  split at hw
  · cases hw
  next howner =>
  obtain ⟨turn, hturn, rfl⟩ := mem_map.1 hw
  have hpos : 0 < t.layout.rankSize := Nat.lt_of_lt_of_le (by decide) hL.rankSize_ge
  have hlt := (lt_divideRoundUp hpos).1 (mem_range.1 hturn)
  refine ⟨he, mem_range.1 hc, by dsimp only; omega, Nat.min_le_right _ _, ?_, ?_⟩
  · rw [countContributors_eq] at hlt
    simp only [Wave.contributors, length_take, length_drop, countContributors_eq]
    omega
  · have := (projectionForLane_lt hL hlane).2
    rw [ownerLane, Decidable.not_not.1 howner]
    omega

theorem flatMap_laneWaves (hL : t.layout.Accepted) {localExpert chunk : ℕ}
    (hp : projection < kReduceGradProjectionCount) (he : localExpert < t.layout.expertsPerRank)
    (hc : chunk < t.layout.chunkCounts projection) :
    (laneWaves t (ownerLane t.layout projection localExpert chunk)).flatMap (fun w =>
      if w.localExpert = localExpert ∧ w.chunk = chunk then w.contributors t else []) =
      contributors t localExpert := by
  have hpos : 0 < t.layout.rankSize := Nat.lt_of_lt_of_le (by decide) hL.rankSize_ge
  rw [laneWaves, projectionForLane_ownerLane hL hp]
  dsimp only
  -- only the turns of the expert and the chunk have waves with this expert and chunk
  rw [flatMap_assoc, flatMap_range_eq _ he]
  · rw [countContributors_eq]
    split
    · next h0 => rw [flatMap_nil, length_eq_zero_iff.1 h0]
    · rw [flatMap_assoc, flatMap_range_eq _ hc]
      · rw [if_neg (by rw [ownerLane, Nat.add_sub_cancel_left]; simp), flatMap_map]
        simp only [and_self, if_true, Wave.contributors]
        have hpieces : ∀ turn, ((contributors t localExpert).drop (turn * t.layout.rankSize)).take
            (min ((contributors t localExpert).length - turn * t.layout.rankSize) t.layout.rankSize) =
            ((contributors t localExpert).drop (turn * t.layout.rankSize)).take t.layout.rankSize := by
          intro turn
          rw [← length_drop, take_eq_take_iff]
          omega
        simp only [hpieces, flatMap_pieces]
        refine take_of_length_le (Nat.le_of_not_lt fun hlt => ?_)
        exact Nat.lt_irrefl _ ((lt_divideRoundUp hpos).2 hlt)
      · intro i hi
        split
        · rfl
        · rw [flatMap_map, flatMap_eq_nil_iff]
          exact fun _ _ => if_neg fun h => hi h.2
  · intro i hi
    split
    · rfl
    · rw [flatMap_assoc, flatMap_eq_nil_iff]
      intro c _
      split
      · rfl
      · rw [flatMap_map, flatMap_eq_nil_iff]
        exact fun _ _ => if_neg fun h => hi h.1

end Contributors

end TileXR.ReduceGrad
