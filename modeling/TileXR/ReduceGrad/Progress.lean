import TileXR.ReduceGrad.PullMoves
import Mathlib.Algebra.Order.BigOperators.Group.Finset

/-!
# What is left to do

Every step of a lane that does not fail lowers a number (`laneLeft`): the waves the leader has before it,
the reads on their way, the items and tiles its helpers have before them. All this takes is that the
sequence numbers of the lane do not wrap at the wrong place (`Falling`), which the invariant of the launch
says of lanes with few waves. As such a launch is never stuck, it can end from wherever it is
(`exists_finished`).
-/

namespace TileXR.ReduceGrad
open Lib List
open Function (update update_self update_of_ne)

section Defs
variable {α : Type*} (t : Task α)

def waveSteps (lane : ℕ) : ℕ := helperShape t.layout lane + t.entries + 4

def Leader.left (lane : ℕ) (l : Leader) : ℕ :=
  let n := (laneWaves t lane).length
  let helperCount := helperShape t.layout lane
  let rest := 3 * helperCount + 12
  match l.phase with
  | .begins => rest + n * waveSteps t lane + helperCount + 1
  | .await helper => rest + (n - l.wave) * waveSteps t lane + (helperCount - helper)
  | .issue => rest + (n - l.wave - 1) * waveSteps t lane + helperCount + t.entries + 3
  -- a wave is published when the next one is issued, the last one while the leader drains
  | .complete =>
    if l.wave < n then rest + (n - l.wave - 1) * waveSteps t lane + helperCount + 2 else 3 * helperCount + 10
  | .publish =>
    if l.wave < n then rest + (n - l.wave - 1) * waveSteps t lane + helperCount + 1 else 3 * helperCount + 9
  | .drain => if l.nextReadySequence < l.sequence then 3 * helperCount + 11 else 3 * helperCount + 8
  | .lastAwait bank helper => 3 + (kReduceGradBankCount - bank) * (helperCount + 2) + (helperCount - helper)
  | .terminal => 2
  | .terminalPublish => 1
  | .finished => 0

def itemSteps : ℕ :=
  divideRoundUp t.layout.chunkBytes kReduceGradKernelTileBytes * (t.layout.rankSize + 2) +
    t.layout.rankSize + 2

def Helper.left (h : Helper α) : ℕ :=
  (2 ^ 32 - h.sequence) * (itemSteps t + 2) +
    match h.phase with
    | .waiting => itemSteps t + 1
    | .loading => itemSteps t
    | .adding work tile j _ _ =>
      1 + (work.tiles - tile) * (work.contributors.length + 2) + (work.contributors.length - j)
    | .storing work tile _ _ => 1 + (work.tiles - tile) * (work.contributors.length + 2)
    | .last => 1
    | .done | .finished => 0

def laneLeft (lane : ℕ) (s : State α) : ℕ :=
  (s.leader lane).left t lane + (s.flight lane).length +
    ∑ helperIndex ∈ Finset.range (helperShape t.layout lane),
      (s.helper (helperBegin t.layout lane + helperIndex)).left t

/-- Where the sequence numbers of a lane have not wrapped, or not at a place where the lane goes on. -/
structure Falling (lane : ℕ) (s : State α) : Prop where
  abort : ¬ s.laneAborted t lane
  begins : (s.leader lane).phase = .begins → (s.leader lane).wave = 0
  publish : (s.leader lane).phase = .publish → (laneWaves t lane).length ≤ (s.leader lane).wave →
    (s.leader lane).sequence ≤ ((s.leader lane).nextReadySequence + 1) % 2 ^ 32
  drain : (s.leader lane).phase = .drain →
    (s.leader lane).nextReadySequence < (s.leader lane).sequence →
      (laneWaves t lane).length ≤ (s.leader lane).wave
  helpers : ∀ blockIdx helperIndex, IsHelper t.layout blockIdx lane helperIndex →
    (s.helper blockIdx).sequence ≤ 2 ^ 32 - 1 ∧
      ((s.helper blockIdx).phase = .done → (s.helper blockIdx).sequence < 2 ^ 32 - 1)

end Defs

section Steps
variable {α : Type*} {t : Task α} {s s' : State α} {lane : ℕ}

theorem LeaderMove.left_lt {posted : ℕ} (h : Falling t lane s)
    (hm : LeaderMove t lane (s.leader lane) (s'.leader lane) posted) :
    (s'.leader lane).left t lane + posted < (s.leader lane).left t lane := by
  have hbegins := h.begins
  have hpublish := h.publish
  have hdrain := h.drain
  generalize s.leader lane = l at *
  generalize s'.leader lane = l' at *
  have hsplit : l.wave < (laneWaves t lane).length →
      ((laneWaves t lane).length - l.wave) * waveSteps t lane =
        ((laneWaves t lane).length - l.wave - 1) * waveSteps t lane +
          (helperShape t.layout lane + t.entries + 4) := by
    intro hlt
    obtain ⟨d, hd⟩ : ∃ d, (laneWaves t lane).length - l.wave = d + 1 := ⟨_, (Nat.succ_pred (by omega)).symm⟩
    rw [hd, Nat.add_mul, Nat.one_mul, Nat.add_sub_cancel]
    rfl
  have hnext : (laneWaves t lane).length - (l.wave + 1) = (laneWaves t lane).length - l.wave - 1 := by omega
  cases hm with
  | begins hp => simp only [Leader.left, hp, hbegins hp, Nat.sub_zero]; omega
  | noWave hp hw => simp only [Leader.left, hp]; split <;> omega
  | await hp hw | lastAwait hp hw | served hp | terminal hp | last hp => simp only [Leader.left, hp]; omega
  | issue _ _ hp hw hposted => simp only [Leader.left, hp, if_pos hw]; omega
  | complete hp => simp only [Leader.left, hp]; split <;> omega
  | free _ hp hw => simp only [Leader.left, hp, hsplit hw]; omega
  | first _ _ hp hw hposted => simp only [Leader.left, Leader.nextWave, hp, hnext]; omega
  | publish _ _ _ hp hw => simp only [Leader.left, Leader.nextWave, hp, hnext, if_pos hw]; omega
  | publishRest _ _ _ hp hw =>
    simp only [Leader.left, hp, if_neg (Nat.not_lt_of_le hw), if_neg (Nat.not_lt_of_le (hpublish hp hw))]
    omega
  | drain hp hlt =>
    simp only [Leader.left, hp, if_pos hlt, if_neg (Nat.not_lt_of_le (hdrain hp hlt))]
    omega
  | drained hp => simp only [Leader.left, hp, kReduceGradBankCount]; split <;> omega
  | @nextBank bank _ hp hbank =>
    have hd : kReduceGradBankCount - bank = (kReduceGradBankCount - (bank + 1)) + 1 := by omega
    simp only [Leader.left, hp]
    rw [hd, Nat.add_mul, Nat.one_mul]
    omega

theorem tiles_le {work : Work} (h : work.itemChunkBytes ≤ t.layout.chunkBytes) :
    work.tiles ≤ divideRoundUp t.layout.chunkBytes kReduceGradKernelTileBytes := by
  rw [Work.tiles, divideRoundUp, divideRoundUp, kReduceGradKernelTileBytes]
  split <;> split <;> omega

theorem HelperMove.left_lt {helperIndex : ℕ} {h h' : Helper α} (hm : HelperMove t lane helperIndex h h')
    (hpos : 0 < helperShape t.layout lane) (hseq : h.sequence ≤ 2 ^ 32 - 1)
    (hdone : h.phase = .done → h.sequence < 2 ^ 32 - 1) : h'.left t < h.left t := by
  have hitem : 1 < itemSteps t := by rw [itemSteps]; omega
  cases hm with
  | ready hp | skip hp | terminal hp | add hp hj | added hp hj | stored hp | last hp =>
    simp only [Helper.left, hp]; omega
  | @take work accum hp hbytes hlen =>
    have hle : (work.tiles - helperIndex) * (work.contributors.length + 2) ≤
        divideRoundUp t.layout.chunkBytes kReduceGradKernelTileBytes * (t.layout.rankSize + 2) :=
      Nat.mul_le_mul (Nat.le_trans (Nat.sub_le _ _) (tiles_le hbytes)) (Nat.add_le_add_right hlen 2)
    simp only [Helper.left, hp]
    rw [itemSteps] at *
    omega
  | @store work tile accum next hp hlt =>
    have hle : (work.tiles - (tile + helperShape t.layout lane)) * (work.contributors.length + 2) +
        (work.contributors.length + 2) ≤ (work.tiles - tile) * (work.contributors.length + 2) := by
      rw [← Nat.succ_mul]
      exact Nat.mul_le_mul_right _ (by omega)
    simp only [Helper.left, hp]
    omega
  | done hp =>
    have hlt := hdone hp
    have hd : 2 ^ 32 - h.sequence = (2 ^ 32 - (h.sequence + 1)) + 1 := by omega
    simp only [Helper.left, hp]
    rw [Nat.mod_eq_of_lt (by omega), hd, Nat.add_mul, Nat.one_mul]
    omega

theorem step_lane_lt [Add α] (hL : t.layout.Accepted) {a : Actor} (hstep : step t s a = some s') :
    a.lane t.layout < t.layout.laneCount := by
  cases a with
  | leader lane | transfer lane index =>
    rw [step] at hstep
    split at hstep
    · assumption
    · cases hstep
  | helper blockIdx =>
    rw [step] at hstep
    split at hstep
    · next hb => exact (isHelper_of_block hL hb.1 hb.2).lane_lt hL
    · cases hstep

/-- A step of a lane that does not fail lowers what is left to do. -/
theorem step_laneLeft [Add α] (hL : t.layout.Accepted) (hlane : lane < t.layout.laneCount)
    (h : Falling t lane s) {a : Actor} (ha : a.lane t.layout = lane)
    (hstep : step t s a = some s') (hstatus : s'.status = 0) : laneLeft t lane s' < laneLeft t lane s := by
  cases a with
  | leader lane' =>
    obtain rfl : lane' = lane := ha
    rw [step, if_pos hlane] at hstep
    have hout := leaderStep_outside hstep
    obtain ⟨posted, hm, hflight⟩ := leaderStep_move hstatus h.abort hstep
    have hlt := hm.left_lt h
    rw [laneLeft, laneLeft, hflight, hout.helper]
    omega
  | helper blockIdx =>
    rw [step] at hstep
    split at hstep
    · next hblock =>
      have hb : IsHelper t.layout blockIdx lane (helperLane t.layout blockIdx).2.1 :=
        ha ▸ isHelper_of_block hL hblock.1 hblock.2
      have hmoves := helperStep_moves hb hstep
      obtain ⟨hle, hdone⟩ := h.helpers _ _ hb
      have hlt := (helperStep_move hb hstatus h.abort hstep).left_lt (helperShape_pos hL lane) hle hdone
      rw [laneLeft, laneLeft, hmoves.leader, hmoves.flight]
      refine Nat.add_lt_add_left (Finset.sum_lt_sum (fun i _ => ?_) ⟨_, Finset.mem_range.2 (hb.index_lt hL), ?_⟩) _
      · by_cases heq : helperBegin t.layout lane + i = blockIdx
        · rw [heq]
          exact hlt.le
        · rw [hmoves.helper _ heq]
      · rw [← hb.block_eq hL]
        exact hlt
    · cases hstep
  | transfer lane' index =>
    obtain rfl : lane' = lane := ha
    rw [step, if_pos hlane] at hstep
    obtain ⟨f, hf, rfl⟩ := Option.map_eq_some_iff.1 hstep
    have hidx := (List.getElem?_eq_some_iff.1 hf).1
    have hlen : ((s.flight lane').eraseIdx index).length < (s.flight lane').length := by
      rw [length_eraseIdx_of_lt hidx]
      omega
    simp only [laneLeft, update_self]
    omega

theorem step_laneLeft_other [Add α] (hL : t.layout.Accepted) (hlane : lane < t.layout.laneCount) {a : Actor}
    (ha : a.lane t.layout ≠ lane) (hstep : step t s a = some s') : laneLeft t lane s' = laneLeft t lane s := by
  cases a with
  | leader lane' =>
    rw [step] at hstep
    split at hstep
    · have hout := leaderStep_outside hstep
      rw [laneLeft, laneLeft, hout.leader _ (Ne.symm ha), hout.flight _ (Ne.symm ha), hout.helper]
    · cases hstep
  | helper blockIdx =>
    rw [step] at hstep
    split at hstep
    · next hblock =>
      have hb := isHelper_of_block hL hblock.1 hblock.2
      have hmoves := helperStep_moves hb hstep
      rw [laneLeft, laneLeft, hmoves.leader, hmoves.flight]
      refine congrArg _ (Finset.sum_congr rfl fun i hi => ?_)
      obtain ⟨blockIdx', hlo, hhi, heq⟩ := exists_helper hL hlane (Finset.mem_range.1 hi)
      have hb' : IsHelper t.layout blockIdx' lane i := ⟨hlo, hhi, heq⟩
      rw [← hb'.block_eq hL, hmoves.helper]
      rintro rfl
      exact ha (hb.unique hb').1
    · cases hstep
  | transfer lane' index =>
    rw [step] at hstep
    split at hstep
    · obtain ⟨f, -, rfl⟩ := Option.map_eq_some_iff.1 hstep
      have hne : lane ≠ lane' := Ne.symm ha
      simp only [laneLeft, update_of_ne hne]
    · cases hstep

end Steps

section Launch
variable {α : Type*} [Add α] {t : Task α} {s : State α} {token₀ : ℕ → ℕ → ℕ} {gradient₀ : ℕ → ℕ → α} {lane : ℕ}

theorem LaneInv.falling (hfresh : Fresh t token₀) (hn : (laneWaves t lane).length ≤ 2 ^ 32 - 2) {v : View}
    (h : LaneInv t token₀ gradient₀ s lane v) : Falling t lane s := by
  have hphase := h.phase
  simp only [PhaseOk] at hphase
  refine ⟨?_, fun hp => ?_, fun hp hw => ?_, fun hp _ => ?_, fun blockIdx helperIndex hb => ?_⟩
  · rw [State.laneAborted, h.abort]
    exact hfresh.ne (by decide) _
  · simp only [hp] at hphase
    exact hphase.1
  · -- what is left to publish is the last wave
    have hloc := h.locals (by rw [hp]; rfl)
    simp only [hp] at hphase
    rw [hloc.sequence, hloc.nextReady]
    rcases hphase.1 with hb | hb <;> omega
  · simp only [hp] at hphase
    exact hphase.1.ge
  · have hi := h.helpers _ _ hb
    have hok := hi.phase
    have hpub := h.phase.bounds.published
    simp only [HelperOk] at hok
    rw [hi.sequence]
    refine ⟨?_, fun hp => ?_⟩
    · split at hok <;> omega
    · simp only [hp] at hok
      omega

/-- A launch whose lanes do not run out of sequence numbers can end well from wherever it is. -/
theorem exists_finished (hL : t.layout.Accepted) (hfresh : Fresh t token₀) (hn : t.Counted)
    (h : Inv t token₀ gradient₀ s) : ∃ s', Reachable (fun s s' => ∃ a, step t s a = some s') s s' ∧
      Finished t s' ∧ s'.status = 0 := by
  have hlower : ∀ s s', Inv t token₀ gradient₀ s → (∃ a, step t s a = some s') → Inv t token₀ gradient₀ s' ∧
      ∑ lane ∈ Finset.range t.layout.laneCount, laneLeft t lane s' <
        ∑ lane ∈ Finset.range t.layout.laneCount, laneLeft t lane s := by
    rintro s s' hs ⟨a, hstep⟩
    have hs' := step_inv hL hfresh hn hs hstep
    have ha := step_lane_lt hL hstep
    have hlt := step_laneLeft hL ha ((hs.lanes _ ha).choose_spec.falling hfresh (hn _ ha)) rfl hstep hs'.status
    refine ⟨hs', Finset.sum_lt_sum (fun lane hlane => ?_) ⟨_, Finset.mem_range.2 ha, hlt⟩⟩
    rcases eq_or_ne (a.lane t.layout) lane with rfl | hne
    · exact hlt.le
    · exact (step_laneLeft_other hL (Finset.mem_range.1 hlane) hne hstep).le
  obtain ⟨s', hreach, hs', hend⟩ := Reachable.exists_final _ hlower h
  refine ⟨s', hreach, not_not.1 fun hfin => ?_, hs'.status⟩
  obtain ⟨a, s'', hstep⟩ := enabled_of_inv hL hs' hfin
  exact hend s'' ⟨a, hstep⟩

end Launch

end TileXR.ReduceGrad
