import TileXR.ReduceGrad.Accumulate
import TileXR.ReduceGrad.TwoBanks

/-!
# Lanes that stall

A lane with 2^32 - 1 waves or more cannot end without a failure (`PullLong`), yet it cannot go on for ever
either: every step that does not fail lowers what is left to do (`laneLeft`). So such a lane gets to a
state in which its helpers wait and nothing but a failure is ahead. A launch keeps what its lanes promise
exactly if none of them has so many waves (`lanes_orderly_iff`).
-/

namespace TileXR.ReduceGrad
open Lib List
open Function (update update_self update_of_ne)

section Steps
variable {α : Type*} {t : Task α} {s : State α} {lane : ℕ}

theorem LongInv.falling (hn : 2 ^ 32 - 1 ≤ (laneWaves t lane).length) (h : LongInv t s lane) : Falling t lane s := by
  have hl := h.leader
  have hphase := hl.phase
  simp only [LongPhase] at hphase
  refine ⟨h.abort, fun hp => ?_, fun hp hw => ?_, fun hp hlt => ?_, fun blockIdx helperIndex hb => ?_⟩
  · simpa only [hp] using hphase
  · simp only [hp] at hphase
    omega
  · -- the sequence number has wrapped
    simp only [hp] at hphase
    have hle := hl.wave_le
    rw [hl.sequence, hl.nextReady] at hlt
    omega
  · have hh := h.helpers _ _ hb
    exact ⟨hh.le, fun hp => Nat.lt_of_le_of_ne hh.le (hh.ne_last (by rw [hp]; simp))⟩

end Steps

section Launch
variable {α : Type*} [Add α] {t : Task α} {token₀ : ℕ → ℕ → ℕ} {gradient₀ : ℕ → ℕ → α}

/-- A long lane gets to a state in which its helpers have not returned and every step fails. -/
theorem exists_stalled (hL : t.layout.Accepted) (hplan : t.PlanOk) (hfresh : Fresh t token₀) (item : ℕ → ℕ → Item)
    (workspace : ℕ → α) (gradient₀ : ℕ → ℕ → α) {lane : ℕ} (hlane : lane < t.layout.laneCount)
    (hn : 2 ^ 32 - 1 ≤ (laneWaves t lane).length) : ∃ x : Trace α, Reachable (fun x x' => ∃ a, x.step t a = some x')
        (.start (start t token₀ item workspace gradient₀)) x ∧ x.state.status = 0 ∧ ¬ LaneFinished t x.state lane ∧
      ∀ a s', a.lane t.layout = lane → step t x.state a = some s' → s'.status ≠ 0 := by
  let R : Trace α → Trace α → Prop := fun x x' =>
    ∃ a, a.lane t.layout = lane ∧ x.step t a = some x' ∧ x'.state.status = 0
  have hlower : ∀ x x', LongInv t x.state lane ∧ x.state.status = 0 → R x x' →
      (LongInv t x'.state lane ∧ x'.state.status = 0) ∧
        laneLeft t lane x'.state < laneLeft t lane x.state := by
    rintro x x' ⟨hx, -⟩ ⟨a, ha, hstep, hstatus⟩
    obtain ⟨s', hs', rfl⟩ := Option.map_eq_some_iff.1 hstep
    exact ⟨⟨(step_long hL hn (.inr hx) hs').resolve_left (not_not_intro hstatus), hstatus⟩,
      step_laneLeft hL hlane (hx.falling hn) ha hs' hstatus⟩
  have hstart : (start t token₀ item workspace gradient₀).status = 0 := if_pos hplan.validate
  obtain ⟨x, hreach, ⟨hinv, hstatus⟩, hend⟩ := Reachable.exists_final
    (s := Trace.start (start t token₀ item workspace gradient₀)) (fun x => laneLeft t lane x.state) hlower
    ⟨long_start hfresh item workspace gradient₀, hstart⟩
  have hrun : ∀ y z, R y z → ∃ a, y.step t a = some z := by
    rintro y z ⟨a, -, hstep, -⟩
    exact ⟨a, hstep⟩
  refine ⟨x, Relation.ReflTransGen.mono hrun _ _ hreach, hstatus, fun hfin => ?_, fun a s' ha hs' h0 => ?_⟩
  · obtain ⟨blockIdx, hlo, hhi, heq⟩ := exists_helper hL hlane (helperShape_pos hL lane)
    have hb : IsHelper t.layout blockIdx lane 0 := ⟨hlo, hhi, heq⟩
    exact (hinv.helpers _ _ hb).phase.2 (hfin.helper _ _ hb)
  · exact hend _ ⟨a, ha, by rw [Trace.step, hs']; rfl, h0⟩

end Launch

/-! ## Two launches -/

/-- Rows of 2^32 - 1 chunks of the smallest size in the first projection. -/
def longRowElements (projection : ℕ) : ℕ := if projection = 0 then 128 * (2 ^ 32 - 1) else 1

theorem longRows_isSome : (buildReduceGradLayout 0 4 4 1 longRowElements 3 512 none).isSome := by
  decide +kernel

/-- All four ranks have a copy of the expert of rank 0. -/
def longRows : Task ℕ where
  layout := (buildReduceGradLayout 0 4 4 1 longRowElements 3 512 none).get longRows_isSome
  expertsToCopy := fun _ => 0
  sources := fun rank _ _ => rank
  magic := 1

/-- The lane of the first projection has a wave for each chunk. -/
theorem length_laneWaves_longRows : (laneWaves longRows 0).length = 2 ^ 32 - 1 := by
  have hexperts : longRows.layout.expertsPerRank = 1 := by decide +kernel
  have hcount : countContributors longRows (longRows.globalExpert 0) = 4 := by decide +kernel
  have hprojection : projectionForLane longRows.layout 0 = 0 := by decide +kernel
  have hchunks : longRows.layout.chunkCounts 0 = 2 ^ 32 - 1 := by decide +kernel
  have hqps : longRows.layout.projectionQpCounts 0 = 1 := by decide +kernel
  have hwaves : divideRoundUp 4 longRows.layout.rankSize = 1 := by decide +kernel
  simp only [laneWaves, hexperts, hprojection, hqps, hchunks, range_one, flatMap_cons,
    flatMap_nil, append_nil, hcount, hwaves, Nat.mod_one, Nat.zero_sub, ne_eq, not_true_eq_false,
    if_false, show ¬ (4 = 0) by decide, map_cons, map_nil, length_flatMap, length_singleton,
    map_const', length_range, sum_replicate_nat, Nat.mul_one]

end TileXR.ReduceGrad
