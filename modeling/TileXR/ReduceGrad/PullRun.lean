import TileXR.ReduceGrad.PullHelper

/-!
# Runs of the owner-pull kernel

The invariant holds at the start and is kept by every step, as long as no lane has so many waves that its
sequence numbers wrap. It leaves no state stuck: a helper that waits has served all that is published, so
its done tokens let the leader on, and reads on their way can be executed (`enabled_of_inv`).
-/

namespace TileXR.ReduceGrad
open Lib List
open Function (update update_self update_of_ne)

variable {α : Type*} {t : Task α} {s s' : State α} [Add α] {token₀ : ℕ → ℕ → ℕ} {gradient₀ : ℕ → ℕ → α}

def Enabled (t : Task α) (s : State α) : Prop := ∃ a s', step t s a = some s'

def LaneEnabled (t : Task α) (s : State α) (lane : ℕ) : Prop :=
  ∃ a s', a.lane t.layout = lane ∧ step t s a = some s'

structure LaneFinished (t : Task α) (s : State α) (lane : ℕ) : Prop where
  leader : (s.leader lane).phase = .finished
  helper : ∀ blockIdx helperIndex, IsHelper t.layout blockIdx lane helperIndex →
    (s.helper blockIdx).phase = .finished

structure Finished (t : Task α) (s : State α) : Prop where
  leader : ∀ lane < t.layout.laneCount, (s.leader lane).phase = .finished
  helper : ∀ blockIdx, t.layout.laneCount ≤ blockIdx → blockIdx < t.layout.blockDim →
    (s.helper blockIdx).phase = .finished

/-- The entries of the plan are -1 or name an expert. -/
def Task.PlanOk (t : Task α) : Prop :=
  ∀ entry < t.entries, -1 ≤ t.expertsToCopy entry ∧ t.expertsToCopy entry < t.layout.expertCount

/-- No lane runs out of sequence numbers. -/
def Task.Counted (t : Task α) : Prop :=
  ∀ lane < t.layout.laneCount, (laneWaves t lane).length ≤ 2 ^ 32 - 2

omit [Add α] in
theorem Task.PlanOk.validate (h : t.PlanOk) : validatePlanEntries t = true := by
  rw [validatePlanEntries, all_eq_true]
  refine fun blockIdx _ => all_eq_true.2 fun entry hentry => ?_
  have hok := h entry (mem_range.1 hentry)
  simp [hok.1, hok.2]

/-! ## The invariant of a run -/

theorem inv_start (hplan : t.PlanOk) (item : ℕ → ℕ → Item) (workspace : ℕ → α) :
    Inv t token₀ gradient₀ (start t token₀ item workspace gradient₀) := by
  have hstatus : (start t token₀ item workspace gradient₀).status = 0 := if_pos hplan.validate
  refine ⟨hstatus, fun lane hlane => ⟨⟨0, 0, 0⟩, ⟨rfl, rfl, rfl, rfl⟩, fun _ => ?_, fun b hb => ?_, rfl,
    fun k _ hk => absurd hk (Nat.not_lt_zero _), fun f hf => absurd hf not_mem_nil,
    fun k _ hk => absurd hk (Nat.not_lt_zero _), fun blockIdx helperIndex hb => ?_⟩, ?_, ?_⟩
  · have hnone : ∀ b, false = true ↔ ∃ k, 0 ≤ k ∧ k < 0 ∧ k % 2 = b := by simp
    exact ⟨rfl, rfl, fun b _ => hnone b, fun b _ => hnone b, fun k _ hk => absurd hk (Nat.not_lt_zero _),
      fun k w _ hk => absurd hk (Nat.not_lt_zero _)⟩
  · rw [shown_zero]; rfl
  · exact ⟨rfl, Nat.le_refl _, Nat.le_refl _, Nat.zero_le _, fun b _ => by
      show _ = shown _ _ b 0
      rw [shown_zero]; rfl⟩
  · intro blockIdx projection localExpert i _
    show _ = accumulated _ _ _ _ _ (contributed _ _ 0 _ _)
    rw [contributed, take_zero]
    rfl
  · intro projection x hx
    cases hx

theorem step_inv (hL : t.layout.Accepted) (hfresh : Fresh t token₀) (hn : t.Counted)
    (h : Inv t token₀ gradient₀ s) {a : Actor} (hstep : step t s a = some s') : Inv t token₀ gradient₀ s' := by
  unfold step at hstep
  split at hstep
  · next lane =>
    split at hstep
    · next hlane =>
      obtain ⟨v, hv⟩ := h.lanes lane hlane
      have hout := leaderStep_outside hstep
      obtain ⟨hstatus, hlane'⟩ := leaderStep_inv hL hlane hfresh (hn lane hlane) hv hstep
      refine ⟨hstatus.trans h.status, fun lane' hl => ?_, ?_, ?_⟩
      · rcases eq_or_ne lane' lane with rfl | hne
        · exact hlane'
        · obtain ⟨v', hv'⟩ := h.lanes lane' hl
          refine ⟨v', hv'.frame (hout.leader _ hne) (hout.token _ hne) (hout.item _ hne) (hout.flight _ hne)
            (fun k r _ hr b hb => ?_) fun b i _ => by rw [hout.helper]⟩
          rw [hout.workspace]
          exact hr b hb
      · intro b projection localExpert i ho
        rw [hout.gradient, State.served, hout.helper]
        exact h.gradient b projection localExpert i ho
      · intro projection x hx
        rw [hout.stored] at hx
        exact h.stored projection x hx
    · cases hstep
  · next blockIdx =>
    split at hstep
    · next hb => exact helperStep_inv hL hfresh hn h (isHelper_of_block hL hb.1 hb.2) hstep
    · cases hstep
  · next lane index =>
    split at hstep
    · next hlane => exact transferStep_inv hL hlane h hstep
    · cases hstep

/-! ## Progress -/

section Progress
variable {lane blockIdx helperIndex : ℕ} {v : View}

theorem enabled_leader (hlane : lane < t.layout.laneCount) (h : (leaderStep t lane s).isSome) :
    LaneEnabled t s lane := by
  obtain ⟨s', hs'⟩ := Option.isSome_iff_exists.1 h
  exact ⟨.leader lane, s', rfl, by rw [step, if_pos hlane, hs']⟩

theorem enabled_helper (hb : IsHelper t.layout blockIdx lane helperIndex)
    (h : (helperStep t blockIdx s).isSome) : LaneEnabled t s lane := by
  obtain ⟨s', hs'⟩ := Option.isSome_iff_exists.1 h
  exact ⟨.helper blockIdx, s', congrArg Prod.fst hb.eq, by rw [step, if_pos ⟨hb.lo, hb.hi⟩, hs']⟩

/-- A helper that cannot go on has served all that is published. -/
theorem acknowledged_of_stuck (hb : IsHelper t.layout blockIdx lane helperIndex)
    (hv : LaneInv t token₀ gradient₀ s lane v) (hstuck : ¬ LaneEnabled t s lane) :
    (s.helper blockIdx).phase.acknowledged (s.served blockIdx) = v.published ∧
      ((s.helper blockIdx).phase = .finished ∨ s.served blockIdx = v.published) := by
  have hi := hv.helpers _ _ hb
  have hok := hi.phase
  have hbank : bankOf (s.helper blockIdx).sequence = s.served blockIdx % 2 := by
    rw [hi.sequence, bankOf_succ]
  have hstep : helperStep t blockIdx s = none := by
    by_contra hne
    exact hstuck (enabled_helper hb (Option.isSome_iff_ne_none.2 hne))
  have hbounds := hv.phase.bounds
  simp only [HelperOk] at hok
  rcases hp : (s.helper blockIdx).phase with _ | _ | ⟨work, tile, j, remoteOrdinal, accum⟩ |
    ⟨work, tile, accum, next⟩ | _ | _ | _
  · -- waiting for an item that is published would end
    simp only [hp] at hok
    have hge : v.published ≤ s.served blockIdx := by
      by_contra hlt
      have hknown := hi.known
      have hbanks := hbounds.banks
      have htok : s.token lane (bankReady (s.served blockIdx % 2)) =
          laneToken t (s.helper blockIdx).sequence := by
        rw [hv.ready _ (Nat.mod_lt _ (by decide)), hi.sequence, shown_of_lt (by omega)]
        rcases hbounds.order with h | h <;> omega
      simp only [helperStep, hb.eq, hp, hbank, htok, if_true, reduceCtorEq] at hstep
    have := hi.served
    exact ⟨Nat.le_antisymm this hge, .inr (by omega)⟩
  · simp only [helperStep, hb.eq, hp] at hstep
    split at hstep
    · cases hstep
    · split at hstep <;> cases hstep
  · simp only [hp] at hok
    obtain ⟨-, w, -, hj, -⟩ := hok
    simp only [helperStep, hb.eq, hp, List.getElem?_eq_getElem hj, Option.map_some, reduceCtorEq] at hstep
  · simp only [helperStep, hb.eq, hp, reduceCtorEq] at hstep
  · simp only [helperStep, hb.eq, hp, reduceCtorEq] at hstep
  · simp only [helperStep, hb.eq, hp, reduceCtorEq] at hstep
  · simp only [hp] at hok
    exact ⟨show s.served blockIdx + 1 = v.published by omega, .inl rfl⟩

section
variable (hL : t.layout.Accepted) (hlane : lane < t.layout.laneCount) (hv : LaneInv t token₀ gradient₀ s lane v)
  (hstuck : ¬ LaneEnabled t s lane)
include hL hlane hv hstuck

/-- The leader need not wait for helpers that have served everything. -/
theorem waitForHelper_ne_none
    (hloc : Locals t lane (s.leader lane) v) {bank helper : ℕ} (hbank : bank < 2)
    (hpub : (s.leader lane).bankPublished bank = true) (hhelper : helper < helperShape t.layout lane)
    {l : Leader} : waitForHelper t lane bank helper l s ≠ none := by
  obtain ⟨k, hk, hk', rfl⟩ := (hloc.bankPublished bank hbank).1 hpub
  obtain ⟨blockIdx, hlo, hhi, heq⟩ := exists_helper hL hlane hhelper
  have hb : IsHelper t.layout blockIdx lane helper := ⟨hlo, hhi, heq⟩
  have hbounds := hv.phase.bounds
  have hbanks := hbounds.banks
  have hdone : s.token lane (bankDoneToken (k % 2) helper) =
      laneToken t ((s.leader lane).bankSequence (k % 2)) := by
    rw [(hv.helpers _ _ hb).done _ hbank, (acknowledged_of_stuck hb hv hstuck).1,
      hloc.bankSequence k hk hk', shown_of_lt hk']
    rcases hbounds.order with h | h <;> omega
  rw [waitForHelper, if_pos hdone]
  exact Option.some_ne_none _

theorem leader_of_stuck : (s.leader lane).phase = .finished := by
  have hstep : leaderStep t lane s = none := by
    by_contra hne
    exact hstuck (enabled_leader hlane (Option.isSome_iff_ne_none.2 hne))
  have hflight : s.flight lane = [] := by
    by_contra hne
    have hlen := length_pos_iff.2 hne
    have hsome : (transferStep t lane 0 s).isSome := by
      rw [transferStep, List.getElem?_eq_getElem hlen]
      rfl
    obtain ⟨s', hs'⟩ := Option.isSome_iff_exists.1 hsome
    exact hstuck ⟨.transfer lane 0, s', rfl, by rw [step, if_pos hlane, hs']⟩
  have hphase := hv.phase
  unfold PhaseOk at hphase
  dsimp only at hphase
  unfold leaderStep at hstep
  dsimp only at hstep
  cases hp : (s.leader lane).phase with
  | finished => rfl
  | begins =>
    simp only [hp] at hstep
    split at hstep <;> cases hstep
  | await helper =>
    have hloc := hv.locals (by rw [hp]; rfl)
    simp only [hp] at hstep
    split at hstep
    · cases hstep
    · split at hstep
      · next hpub =>
        split at hstep
        · next hhelper =>
          exact absurd hstep
            (waitForHelper_ne_none hL hlane hv hstuck hloc (Nat.mod_lt _ (by decide)) hpub hhelper)
        · cases hstep
      · cases hstep
  | issue =>
    simp only [hp] at hstep hphase
    rw [List.getElem?_eq_getElem hphase.1] at hstep
    cases hstep
  | complete =>
    simp only [hp, hflight, not_mem_nil, false_and, exists_false, if_false] at hstep
    split at hstep <;> cases hstep
  | publish => simp only [hp, reduceCtorEq] at hstep
  | drain => simp only [hp, reduceCtorEq] at hstep
  | lastAwait bank helper =>
    have hloc := hv.locals (by rw [hp]; rfl)
    simp only [hp] at hstep
    split at hstep
    · cases hstep
    · next hbank =>
      split at hstep
      · next hpub =>
        exact absurd hstep
          (waitForHelper_ne_none hL hlane hv hstuck hloc (Nat.lt_of_not_le hbank) hpub.1 hpub.2)
      · cases hstep
  | terminal => simp only [hp, reduceCtorEq] at hstep
  | terminalPublish => simp only [hp, reduceCtorEq] at hstep

theorem laneFinished_of_stuck : LaneFinished t s lane := by
  have hleader := leader_of_stuck hL hlane hv hstuck
  refine ⟨hleader, fun blockIdx helperIndex hb => ?_⟩
  rcases (acknowledged_of_stuck hb hv hstuck).2 with hp | hserved
  · exact hp
  · -- the leader is through, so the terminal item is published, which nobody has served
    exfalso
    have hphase := hv.phase
    unfold PhaseOk at hphase
    simp only [hleader] at hphase
    have hok := (hv.helpers _ _ hb).phase
    unfold HelperOk at hok
    dsimp only at hok
    split at hok <;> omega

end

theorem enabled_of_inv (hL : t.layout.Accepted) (h : Inv t token₀ gradient₀ s) (hnot : ¬ Finished t s) :
    Enabled t s := by
  by_contra hstuck
  have hlanes : ∀ lane < t.layout.laneCount, LaneFinished t s lane := fun lane hlane => by
    obtain ⟨v, hv⟩ := h.lanes lane hlane
    refine laneFinished_of_stuck hL hlane hv ?_
    rintro ⟨a, s', -, hstep⟩
    exact hstuck ⟨a, s', hstep⟩
  refine hnot ⟨fun lane hlane => (hlanes lane hlane).leader, fun blockIdx hlo hhi => ?_⟩
  have hb := isHelper_of_block hL hlo hhi
  exact (hlanes _ (hb.lane_lt hL)).helper _ _ hb

end Progress

end TileXR.ReduceGrad
