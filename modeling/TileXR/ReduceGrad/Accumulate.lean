import TileXR.ReduceGrad.Progress

/-!
# What a launch of the owner-pull kernel adds up

When all leaders and helpers have returned and no failure was recorded, every helper has served all waves
of its lane, so that the tiles it owns hold the whole sums (`gradient_of_finished`). Whatever is not marked
as stored is as it was (`gradient_of_not_stored`).
-/

namespace TileXR.ReduceGrad
open Lib

variable {i localExpert projection x : ℕ}
variable {α : Type*} [Add α] {t : Task α} {s s' : State α} {token₀ : ℕ → ℕ → ℕ} {gradient₀ : ℕ → ℕ → α}

omit [Add α] in
theorem exists_owner (hL : t.layout.Accepted)
    (hp : projection < kReduceGradProjectionCount) (he : localExpert < t.layout.expertsPerRank)
    (hi : i < t.layout.rowElements projection) : ∃ blockIdx, Owns t blockIdx projection localExpert i := by
  have hlane := ownerLane_lt hL hp localExpert (chunkOf t i)
  obtain ⟨blockIdx, hlo, hhi, heq⟩ := exists_helper hL hlane (Nat.mod_lt (tileOf t i) (helperShape_pos hL _))
  exact ⟨blockIdx, hp, he, hi, hlo, hhi, heq⟩

theorem gradient_of_finished (hL : t.layout.Accepted) (h : Inv t token₀ gradient₀ s) (hfin : Finished t s)
    (hp : projection < kReduceGradProjectionCount) (he : localExpert < t.layout.expertsPerRank)
    (hi : i < t.layout.rowElements projection) : s.gradient projection (elemAddress t projection localExpert i) =
      accumulated t gradient₀ projection localExpert i (contributors t localExpert) := by
  obtain ⟨blockIdx, ho⟩ := exists_owner hL hp he hi
  have hb := ho.helper
  have hphase := hfin.helper blockIdx hb.lo hb.hi
  obtain ⟨v, hv⟩ := h.lanes _ (hb.lane_lt hL)
  have hok := (hv.helpers _ _ hb).phase
  simp only [HelperOk, hphase] at hok
  have happlied : (s.helper blockIdx).phase.applied (s.served blockIdx) (tileOf t i) =
      (laneWaves t (ownerLane t.layout projection localExpert (chunkOf t i))).length := by
    rw [hphase]
    exact hok.1
  rw [h.gradient blockIdx projection localExpert i ho, happlied, contributed, List.take_length,
    flatMap_laneWaves hL hp he (element_tile hL hi).1]

omit [Add α] in
theorem unstored_of_eq (hg : s'.gradient = s.gradient) (hst : s'.stored = s.stored)
    (hx : s'.stored projection x = false) :
    s.stored projection x = false ∧ s'.gradient projection x = s.gradient projection x :=
  ⟨hst ▸ hx, by rw [hg]⟩

theorem helperStep_gradient {blockIdx : ℕ} (hstep : helperStep t blockIdx s = some s')
    (hx : s'.stored projection x = false) :
    s.stored projection x = false ∧ s'.gradient projection x = s.gradient projection x := by
  simp only [helperStep] at hstep
  split at hstep
  · split at hstep
    · obtain rfl := Option.some.inj hstep; exact unstored_of_eq rfl rfl hx
    · split at hstep
      · obtain rfl := Option.some.inj hstep; exact unstored_of_eq rfl rfl hx
      · cases hstep
  · split at hstep
    · obtain rfl := Option.some.inj hstep; exact unstored_of_eq rfl rfl hx
    · split at hstep
      · obtain rfl := Option.some.inj hstep; exact unstored_of_eq rfl rfl hx
      · obtain rfl := Option.some.inj hstep
        rcases processBankItem_cases t s blockIdx (helperLane t.layout blockIdx).2.1
          (s.item (helperLane t.layout blockIdx).1 (bankOf (s.helper blockIdx).sequence))
          with ⟨h, heq⟩ | ⟨phase, heq, -⟩
        · rw [heq] at hx ⊢; exact unstored_of_eq rfl rfl hx
        · rw [heq] at hx ⊢; exact unstored_of_eq rfl rfl hx
  · obtain ⟨entry, -, rfl⟩ := Option.map_eq_some_iff.1 hstep
    split at hx
    · next hj => rw [if_pos hj]; exact unstored_of_eq rfl rfl hx
    · next hj => rw [if_neg hj]; exact unstored_of_eq rfl rfl hx
  · next work tile accum next hp =>
    obtain rfl := Option.some.inj hstep
    simp only [State.setHelper] at hx ⊢
    rcases eq_or_ne projection work.projection with rfl | hne
    · rw [Function.update_self, Bool.or_eq_false_iff] at hx
      rw [Function.update_self, copyUbToGm, if_neg (by rw [hx.1]; decide)]
      exact ⟨hx.2, rfl⟩
    · rw [Function.update_of_ne hne] at hx ⊢
      exact ⟨hx, rfl⟩
  · obtain rfl := Option.some.inj hstep; exact unstored_of_eq rfl rfl hx
  · obtain rfl := Option.some.inj hstep; exact unstored_of_eq rfl rfl hx
  · cases hstep

/-- A step changes the gradient only where it marks it as stored. -/
theorem step_gradient {a : Actor} (hstep : step t s a = some s') (hx : s'.stored projection x = false) :
    s.stored projection x = false ∧ s'.gradient projection x = s.gradient projection x := by
  cases a with
  | leader lane =>
    rw [step] at hstep
    split at hstep
    · have hout := leaderStep_outside hstep
      exact unstored_of_eq hout.gradient hout.stored hx
    · cases hstep
  | helper blockIdx =>
    rw [step] at hstep
    split at hstep
    · exact helperStep_gradient hstep hx
    · cases hstep
  | transfer lane index =>
    rw [step] at hstep
    split at hstep
    · obtain ⟨f, -, rfl⟩ := Option.map_eq_some_iff.1 hstep
      exact unstored_of_eq rfl rfl hx
    · cases hstep

theorem gradient_of_not_stored {item : ℕ → ℕ → Item} {workspace : ℕ → α}
    (hs : Reachable (fun s s' => ∃ a, step t s a = some s') (start t token₀ item workspace gradient₀) s) :
    s.stored projection x = false → s.gradient projection x = gradient₀ projection x :=
  hs.invariant (P := fun s => s.stored projection x = false → s.gradient projection x = gradient₀ projection x)
    (fun _ => rfl) fun s s' h hstep hx => by
      obtain ⟨a, hstep⟩ := hstep
      obtain ⟨hold, hg⟩ := step_gradient hstep hx
      exact hg.trans (h hold)

theorem fourRanks_isSome : (buildReduceGradLayout 0 4 4 1 (fun _ => 1) 3 0 none).isSome := by decide +kernel

/-- Four ranks with one expert, one slot and rows of one element each; ranks 1 and 3 have copies of the
expert of rank 0. -/
def fourRanks : Task ℕ where
  layout := (buildReduceGradLayout 0 4 4 1 (fun _ => 1) 3 0 none).get fourRanks_isSome
  expertsToCopy := fun entry => if entry % 2 = 1 then 0 else -1
  sources := fun rank _ _ => rank
  magic := 1

theorem fourRanks_accepted : buildReduceGradLayout 0 4 4 1 (fun _ => 1) 3 0 none = some fourRanks.layout ∧
    fourRanks.PlanOk ∧ fourRanks.Counted := by
  have hcount : fourRanks.layout.expertCount = 4 := by decide +kernel
  refine ⟨(Option.some_get fourRanks_isSome).symm, fun entry _ => ?_, ?_⟩
  · rw [hcount]
    simp only [fourRanks]
    split <;> decide
  · unfold Task.Counted
    decide +kernel

end TileXR.ReduceGrad
