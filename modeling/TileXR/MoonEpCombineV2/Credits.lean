import Mathlib.Algebra.Order.BigOperators.Group.Finset
import Mathlib.Order.WellFounded
import TileXR.Checked
import TileXR.Lib.Log
import TileXR.MoonEpCombineV2.Peers

/-!
# The credits between the steps of combine V2

The step loop of `tilexr_moonep_combine_v2_kernel.h`. In a step a worker, a core of a rank, waits for the
credit of the worker that receives from it, posts its rows and waits for their completion, waits for the done
words of the source it receives from itself, and gives its next source the credit. The done words of a
transfer arrive one by one, at any time before its completion; timeouts and failed completions are left out.

In every interleaving a worker posts rows only after their receiver has got those of the step before,
somebody can always go on, and each turn lowers what is left, so that all get through (`steps_paced`).
-/

namespace TileXR.MoonEpCombineV2
open Function (update update_self update_of_ne)

/-- `MoonEpCombineV2ExpectedDoneCount` -/
def expectedDoneCount (source destination localRankSize : ℕ) : ℕ :=
  if source = destination then 0
  else if 0 < localRankSize ∧ localRankSize ≤ kGroupSize ∧
    source / localRankSize = destination / localRankSize then 1
  else 2

def token (magic step : ℕ) : ℕ := magic <<< 3 ||| step

/-- A rank and a core. -/
abbrev Worker := ℕ × ℕ

def kCreditMarker : ℕ := 0x43524454

def creditGuard (magic transitionStep : ℕ) (source target : Worker) : ℕ :=
  let route := source.1 ||| source.2 <<< 7 ||| target.1 <<< 11 ||| target.2 <<< 18 ||| transitionStep <<< 22
  magic ^^^ kCreditMarker <<< 32 ^^^ route

/-- The words of a credit signal that are not zero. -/
def creditSignal (magic transitionStep : ℕ) (source target : Worker) : List ℕ :=
  [magic, creditGuard magic transitionStep source target, transitionStep <<< 32 ||| kCreditMarker,
    source.2 <<< 32 ||| source.1, target.2 <<< 32 ||| target.1]

def kEpochCount : ℕ := 2
def kCreditTransitionCount : ℕ := 7
def kCreditSignalBytes : ℕ := 64

/-- The signals lie behind those of the dispatch, two for each of 128 ranks at a stride of 512. -/
def kCreditBaseBytes : ℕ := 2 * (128 * 512)

def epoch (magic : ℕ) : ℕ := magic &&& 1

def creditSignalIndex (epoch transitionStep targetCore : ℕ) : ℕ :=
  if kEpochCount ≤ epoch ∨ transitionStep = 0 ∨ kCreditTransitionCount < transitionStep ∨
    kCoreCount ≤ targetCore then uint64Max
  else (epoch * kCreditTransitionCount + transitionStep - 1) * kCoreCount + targetCore

def creditReceiveOffset (epoch transitionStep targetCore : ℕ) : ℕ :=
  let index := creditSignalIndex epoch transitionStep targetCore
  if index = uint64Max then uint64Max else kCreditBaseBytes + index * kCreditSignalBytes

/-- `passed` counts the stages of a worker, four in a step, with its rows posted after the first; `done` are
the words of a destination for a source, of the two lanes and of the weights, and `credit` the signals in the
credit memory of a rank by their offset. -/
structure State where
  passed : Worker → ℕ
  done : ℕ × ℕ × ℕ → ℕ
  credit : ℕ × ℕ → List ℕ

inductive Outcome
  | waits
  | fails
  | goes (σ : State)

/-- `creditMems` says of which ranks the credit memory is mapped. -/
structure Launch where
  rankSize : ℕ
  localRankSize : ℕ
  magic : ℕ
  hasRouteWeight : Bool
  creditMems : ℕ → Bool

namespace Launch
variable (L : Launch)

def Active (w : Worker) : Prop := w.1 < L.rankSize ∧ w.2 < activeCoreCount L.rankSize

instance : DecidablePred L.Active := fun _ => inferInstanceAs (Decidable (_ ∧ _))

def steps : ℕ := stepCount L.rankSize

/-- Who gets what `w` sends. -/
def receiver (w : Worker) (step : ℕ) : Worker :=
  let rank := serverPairPeer w.1 step w.2 L.rankSize
  (rank, receiveCore rank w.1 step L.rankSize)

/-- Who sends what `w` gets. -/
def sender (w : Worker) (step : ℕ) : Worker :=
  let rank := receiveSource w.1 step w.2 L.rankSize
  (rank, transferCore rank w.1 step L.rankSize)

/-- The done words of a transfer, of one lane within a server and of both between servers. -/
def words (source destination : ℕ) : List ℕ :=
  List.range (expectedDoneCount source destination L.localRankSize) ++ if L.hasRouteWeight then [2] else []

def Arrived (σ : State) (source destination step : ℕ) : Prop :=
  ∀ x ∈ L.words source destination, σ.done (destination, source, x) = token L.magic step

instance {σ : State} {r d s : ℕ} : Decidable (L.Arrived σ r d s) := inferInstanceAs (Decidable (∀ _ ∈ _, _))

/-- Where `w` finds its credit for a step. -/
def creditSlot (w : Worker) (step : ℕ) : ℕ × ℕ := (w.1, creditReceiveOffset (epoch L.magic) step w.2)

/-- The check before `w` reads its credit from `peer`, or is given it. -/
def CreditOk (peer w : Worker) (step : ℕ) : Prop :=
  L.Active peer ∧ (L.creditSlot w step).2 ≠ uint64Max ∧ L.creditMems w.1

instance {v w : Worker} {s : ℕ} : Decidable (L.CreditOk v w s) := inferInstanceAs (Decidable (_ ∧ _))

/-- The stages `WaitStepCredit`, `WaitStepCqs`, `WaitInboundDone` and `PublishNextCredit`: the configuration is
checked, then there is something to wait for. -/
def run (σ : State) (w : Worker) : Outcome :=
  let step := σ.passed w / 4
  let source := L.sender w step
  let target := L.sender w (step + 1)
  let next := { σ with passed := update σ.passed w (σ.passed w + 1) }
  let await := fun (config ready : Bool) => if !config then .fails else if !ready then .waits else .goes next
  if L.steps ≤ step then .waits
  else match σ.passed w % 4 with
    | 0 => await (step = 0 ∨ L.CreditOk (L.receiver w step) w step)
        (step = 0 ∨ σ.credit (L.creditSlot w step) = creditSignal L.magic step (L.receiver w step) w)
    | 1 => await true (L.Arrived σ w.1 (L.receiver w step).1 step)
    | 2 => await (source.1 < L.rankSize) (L.Arrived σ source.1 w.1 step)
    | _ =>
      if L.steps ≤ step + 1 then .goes next
      else if ¬L.CreditOk target target (step + 1) then .fails
      else .goes { next with
        credit := update σ.credit (L.creditSlot target (step + 1)) (creditSignal L.magic (step + 1) w target) }

/-- A worker goes on, or a word of a transfer it has posted arrives. -/
inductive Turn (σ : State) : State → Prop
  | run (w : Worker) (σ' : State) (hw : L.Active w) (h : L.run σ w = .goes σ') : Turn σ σ'
  | arrive (w : Worker) (s x : ℕ) (hw : L.Active w) (hs : s < L.steps) (h : σ.passed w = 4 * s + 1)
    (hx : x ∈ L.words w.1 (L.receiver w s).1)
    (hnew : σ.done ((L.receiver w s).1, w.1, x) ≠ token L.magic s) :
    Turn σ { σ with done := update σ.done ((L.receiver w s).1, w.1, x) (token L.magic s) }

/-- `Init` and the host go on only if the credit memory of every rank is mapped. -/
def Mapped : Prop := ∀ rank < L.rankSize, L.creditMems rank

/-- The magic of the launch is not yet in memory. -/
structure Starts (σ : State) : Prop where
  passed : ∀ w, σ.passed w = 0
  done : ∀ x s, σ.done x ≠ token L.magic s
  credit : ∀ x, (σ.credit x).head? ≠ some L.magic

variable {L} {w : Worker} {s : ℕ} (H : Regular L.rankSize) (hw : L.Active w) (hs : s < L.steps)
include H hw hs

theorem receive_peer : serverPairReceive (L.receiver w s).1 w.1 L.rankSize = (s, w.2) :=
  (H.receive_iff _ _ s w.2 (H.peer_lt _ _ _ hw.2) hs hw.2).2 rfl

theorem receiver_active : L.Active (L.receiver w s) ∧ L.sender (L.receiver w s) s = w := by
  have hp := H.peer_lt w.1 s w.2 hw.2
  obtain ⟨hc, hsource⟩ := H.receiveSource_receiveCore hp hs hw.1 (congrArg Prod.fst (receive_peer H hw hs))
  exact ⟨⟨hp, hc⟩, by simp only [sender, receiver, hsource, H.transferCore_eq hp hs hw.2 rfl]⟩

/-- Two ranks meet once. -/
theorem meet_once {v : Worker} {t : ℕ} (hv : L.Active v) (ht : t < L.steps)
    (hto : (L.receiver v t).1 = (L.receiver w s).1) (hfrom : v.1 = w.1) : s = t ∧ w = v := by
  have hpair := receive_peer H hv ht
  rw [hto, hfrom, receive_peer H hw hs, Prod.mk.injEq] at hpair
  exact ⟨hpair.1, Prod.ext hfrom.symm hpair.2⟩

theorem sender_active : L.Active (L.sender w s) ∧ L.receiver (L.sender w s) s = w := by
  obtain ⟨r, hr, hsource, hstep, hcore⟩ := H.receiveCore_receiveSource hw.1 hs hw.2
  have hc := (H.receive_lt w.1 r hw.1).2
  have hpeer := (H.receive_iff w.1 r s _ hw.1 hs hc).1 (Prod.ext hstep rfl)
  have hsender : L.sender w s = (r, (serverPairReceive w.1 r L.rankSize).2) := by
    rw [sender, hsource, H.transferCore_eq hw.1 hs hc hpeer]
  rw [hsender]
  exact ⟨⟨hr, hc⟩, by simp only [receiver, hpeer, hcore]⟩

theorem creditSlot_eq (hp : 0 < s) : L.creditSlot w s =
    (w.1, kCreditBaseBytes + ((epoch L.magic * 7 + (s - 1)) * 16 + w.2) * 64) ∧ w.2 < 16 ∧ s < 8 ∧
      epoch L.magic < 2 := by
  have hc : w.2 < 16 := hw.2.trans_le (activeCoreCount_le _)
  have hs8 : s < 8 := hs.trans_le H.steps_le
  have he : epoch L.magic < 2 := Nat.lt_succ_of_le Nat.and_le_right
  have hindex : creditSignalIndex (epoch L.magic) s w.2 = (epoch L.magic * 7 + s - 1) * 16 + w.2 := by
    rw [creditSignalIndex, if_neg (by rw [kEpochCount, kCreditTransitionCount, kCoreCount]; omega)]
    rfl
  refine ⟨?_, hc, hs8, he⟩
  simp only [creditSlot, creditReceiveOffset, hindex, kCreditSignalBytes, Prod.mk.injEq, true_and]
  rw [if_neg (by rw [uint64Max]; omega), Nat.add_sub_assoc hp]

theorem creditOk (hm : L.Mapped) (hp : 0 < s) {v : Worker} (hv : L.Active v) : L.CreditOk v w s := by
  obtain ⟨hslot, hc, hs8, he⟩ := creditSlot_eq H hw hs hp
  refine ⟨hv, ?_, hm _ hw.1⟩
  rw [hslot, uint64Max, kCreditBaseBytes]
  dsimp only
  omega

theorem creditSlot_inj {v : Worker} {t : ℕ} (hp : 0 < s) (hv : L.Active v) (ht : t < L.steps)
    (hq : 0 < t) (h : L.creditSlot w s = L.creditSlot v t) : w = v ∧ s = t := by
  obtain ⟨hslot, hc, -⟩ := creditSlot_eq H hw hs hp
  obtain ⟨hslot', hc', -⟩ := creditSlot_eq H hv ht hq
  rw [hslot, hslot', Prod.mk.injEq] at h
  exact ⟨Prod.ext h.1 (by omega), by omega⟩

/-- The configuration is right, so that a worker goes on as soon as what it waits for is there. -/
theorem run_eq (hm : L.Mapped) {σ : State} {k : ℕ} (hx : σ.passed w = 4 * s + k) (hk : k < 4) :
    L.run σ w = (if (k = 0 → 0 < s → σ.credit (L.creditSlot w s) = creditSignal L.magic s (L.receiver w s) w) ∧
        (k = 1 → L.Arrived σ w.1 (L.receiver w s).1 s) ∧ (k = 2 → L.Arrived σ (L.sender w s).1 w.1 s) then
      .goes ⟨update σ.passed w (σ.passed w + 1), σ.done, if k = 3 ∧ s + 1 < L.steps then
        update σ.credit (L.creditSlot (L.sender w (s + 1)) (s + 1))
          (creditSignal L.magic (s + 1) w (L.sender w (s + 1))) else σ.credit⟩ else .waits) := by
  have hdiv : σ.passed w / 4 = s := by omega
  have hmod : σ.passed w % 4 = k := by omega
  have hsource := (sender_active H hw hs).1.1
  have htarget := fun hs => (sender_active H hw (s := s + 1) hs).1
  simp only [run, hdiv, hmod, if_neg (not_le.2 hs)]
  obtain rfl | rfl | rfl | rfl : k = 0 ∨ k = 1 ∨ k = 2 ∨ k = 3 := by omega
  · rcases Nat.eq_zero_or_pos s with rfl | hp
    · simp
    · simp [hp, hp.ne', creditOk H hw hs hm hp (receiver_active H hw hs).1]
  · simp
  · simp [hsource]
  · by_cases hlast : s + 1 < L.steps
    · have hok := creditOk H (htarget hlast) hlast hm (Nat.succ_pos s) (htarget hlast)
      simp [not_le.2 hlast, hlast, hok]
    · simp [not_lt.1 hlast, hlast]

end Launch

/-! ## What holds in every run -/

/-- What the words say of the transfer of `w` to `v` in a step. -/
structure Tells (L : Launch) (σ : State) (w v : Worker) (s : ℕ) : Prop where
  arrived : 4 * s + 2 ≤ σ.passed w → L.Arrived σ w.1 v.1 s
  credit : 0 < s → (σ.credit (L.creditSlot w s) = creditSignal L.magic s v w ↔ 4 * s ≤ σ.passed v)
  paced : 0 < s → 4 * s + 1 ≤ σ.passed w → 4 * s ≤ σ.passed v
  posted : ∀ x, σ.done (v.1, w.1, x) = token L.magic s → 4 * s + 1 ≤ σ.passed w
  taken : 4 * s + 3 ≤ σ.passed v → L.Arrived σ w.1 v.1 s

def Inv (L : Launch) (σ : State) : Prop := ∀ w s, L.Active w → s < L.steps → Tells L σ w (L.receiver w s) s

theorem exists_stage (n : ℕ) : ∃ s k, k < 4 ∧ n = 4 * s + k :=
  ⟨n / 4, _, Nat.mod_lt _ (by decide), (Nat.div_add_mod _ 4).symm⟩

/-- After a turn of `w` nobody is further than before, except for `w` by one stage. -/
theorem le_update_iff {passed : Worker → ℕ} {v w : Worker} {n : ℕ} :
    n ≤ update passed w (passed w + 1) v ↔ n ≤ passed v ∨ v = w ∧ n = passed w + 1 := by
  by_cases hv : v = w
  · subst hv
    rw [update_self, and_iff_right rfl]
    omega
  · rw [update_of_ne hv, or_iff_left fun h => hv h.1]

namespace Inv
variable {L : Launch} {σ σ' : State} {w : Worker} {s : ℕ}

theorem of_starts (h : L.Starts σ) : Inv L σ := by
  refine fun w s _ _ => ⟨?_, fun hp => ?_, ?_, fun x hx => absurd hx (h.done _ _), ?_⟩ <;> rw [h.passed]
  · omega
  · exact ⟨fun hc => absurd (congrArg List.head? hc) (h.credit _), by omega⟩
  · omega
  · omega

variable (H : Regular L.rankSize) (h : Inv L σ) (hw : L.Active w)
include H h hw

theorem run (hm : L.Mapped) (hrun : L.run σ w = .goes σ') : Inv L σ' := by
  obtain ⟨t, k, hk, hx⟩ := exists_stage (σ.passed w)
  have ht : t < L.steps := by
    by_contra ht
    rw [Launch.run, if_pos (by omega)] at hrun
    cases hrun
  rw [Launch.run_eq H hw ht hm hx hk] at hrun
  split at hrun
  case isFalse => cases hrun
  next hready =>
  cases hrun
  refine fun v s hv hs => ⟨fun hc => ?_, fun hp => ?_, fun hp hc => ?_,
    fun x hx => le_update_iff.2 (.inl ((h v s hv hs).posted x hx)), fun hc => ?_⟩ <;> dsimp only at *
  · rcases le_update_iff.1 hc with hold | ⟨rfl, hc⟩
    · exact (h v s hv hs).arrived hold
    · obtain rfl : s = t := by omega
      exact hready.2.1 (by omega)
  · -- a new credit goes to the one sender of which this worker is the receiver in the next step
    have hback := (Launch.receiver_active H hv hs).2
    rw [le_update_iff]
    by_cases hnew : L.receiver v s = w ∧ 4 * s = σ.passed w + 1
    · obtain ⟨rfl, rfl⟩ : L.receiver v s = w ∧ s = t + 1 := ⟨hnew.1, by omega⟩
      rw [if_pos ⟨by omega, hs⟩, hback, update_self]
      exact iff_of_true rfl (.inr hnew)
    · rw [or_iff_left hnew, ← (h v s hv hs).credit hp]
      split_ifs with hlast
      · rw [update_of_ne fun hto => hnew ?_]
        obtain ⟨hact, hto'⟩ := Launch.sender_active H hw hlast.2
        obtain ⟨rfl, rfl⟩ := Launch.creditSlot_inj H hv hs hp hact hlast.2 (Nat.succ_pos t) hto
        exact ⟨hto', by omega⟩
      · rfl
  · refine le_update_iff.2 (.inl ?_)
    rcases le_update_iff.1 hc with hold | ⟨rfl, hc⟩
    · exact (h v s hv hs).paced hp hold
    · obtain rfl : s = t := by omega
      exact ((h v s hv hs).credit hp).1 (hready.1 (by omega) hp)
  · rcases le_update_iff.1 hc with hold | ⟨rfl, hc⟩
    · exact (h v s hv hs).taken hold
    · obtain rfl : s = t := by omega
      have harr := hready.2.2 (by omega)
      rwa [(Launch.receiver_active H hv hs).2] at harr

theorem arrive {x : ℕ} (hs : s < L.steps) (hx : σ.passed w = 4 * s + 1) :
    Inv L { σ with done := update σ.done ((L.receiver w s).1, w.1, x) (token L.magic s) } := by
  intro v t hv ht
  have hv' := h v t hv ht
  have hmeet : ∀ y, ((L.receiver v t).1, v.1, y) = ((L.receiver w s).1, w.1, x) → s = t ∧ w = v := by
    intro y hto
    simp only [Prod.mk.injEq] at hto
    exact Launch.meet_once H hw hs hv ht hto.1 hto.2.1
  have hkeep : L.Arrived σ v.1 (L.receiver v t).1 t → L.Arrived
      { σ with done := update σ.done ((L.receiver w s).1, w.1, x) (token L.magic s) } v.1 (L.receiver v t).1 t := by
    intro hall y hy
    by_cases hto : ((L.receiver v t).1, v.1, y) = ((L.receiver w s).1, w.1, x)
    · rw [hto, ← (hmeet y hto).1]
      exact update_self ..
    · exact (update_of_ne hto ..).trans (hall y hy)
  refine ⟨fun hc => hkeep (hv'.arrived hc), hv'.credit, hv'.paced, fun y hy => ?_, fun hc => hkeep (hv'.taken hc)⟩
  by_cases hto : ((L.receiver v t).1, v.1, y) = ((L.receiver w s).1, w.1, x)
  · obtain ⟨rfl, rfl⟩ := hmeet y hto
    exact hx.ge
  · exact hv'.posted y ((update_of_ne hto ..).symm.trans hy)

/-- A worker that is least far goes on, or a word of its transfer is still to arrive. -/
theorem exists_turn (hm : L.Mapped) (hlt : σ.passed w < 4 * L.steps)
    (hmin : ∀ v, L.Active v → σ.passed w ≤ σ.passed v) : ∃ σ', L.Turn σ σ' := by
  obtain ⟨s, k, hk, hx⟩ := exists_stage (σ.passed w)
  have hs : s < L.steps := by omega
  by_cases harr : k = 1 → L.Arrived σ w.1 (L.receiver w s).1 s
  · refine ⟨_, .run w _ hw (by rw [Launch.run_eq H hw hs hm hx hk, if_pos ⟨fun _ hp => ?_, harr, fun _ => ?_⟩])⟩
    · have := hmin _ (Launch.receiver_active H hw hs).1
      exact ((h w s hw hs).credit hp).2 (by omega)
    · obtain ⟨hact, hback⟩ := Launch.sender_active H hw hs
      have := hmin _ hact
      have harr := (h _ s hact hs).arrived (by omega)
      rwa [hback] at harr
  · simp only [Launch.Arrived, not_forall] at harr
    obtain ⟨rfl, x, hmem, hnew⟩ := harr
    exact ⟨_, .arrive w s x hw hs hx hmem hnew⟩

end Inv

/-! ## Getting through -/

namespace Launch
variable (L : Launch)

/-- The words of its transfer that a worker waits for and that are still to arrive. -/
def missing (σ : State) (w : Worker) : Finset ℕ :=
  let step := σ.passed w / 4
  (L.words w.1 (L.receiver w step).1).toFinset.filter fun x =>
    step < L.steps ∧ σ.passed w % 4 = 1 ∧ σ.done ((L.receiver w step).1, w.1, x) ≠ token L.magic step

def workers : Finset Worker := Finset.range L.rankSize ×ˢ Finset.range (activeCoreCount L.rankSize)

/-- A transfer has at most three words, so a stage outweighs what arrives within it. -/
def left (σ : State) : ℕ := ∑ w ∈ L.workers, (4 * (4 * L.steps - σ.passed w) + (L.missing σ w).card)

variable {L} {σ σ' : State} {w : Worker}

theorem mem_workers : w ∈ L.workers ↔ L.Active w := by simp [workers, Active]

theorem card_missing_le (σ : State) (w : Worker) : (L.missing σ w).card ≤ 3 := by
  refine (Finset.card_filter_le _ _).trans ((List.toFinset_card_le _).trans ?_)
  rw [words, List.length_append, List.length_range, expectedDoneCount]
  split_ifs <;> simp

theorem run_goes (h : L.run σ w = .goes σ') : σ.passed w < 4 * L.steps ∧
    σ'.passed = update σ.passed w (σ.passed w + 1) ∧ σ'.done = σ.done := by
  unfold run at h
  dsimp only at h
  split at h
  · cases h
  next hstep =>
  refine ⟨by omega, ?_⟩
  split at h <;> split_ifs at h <;> cases h <;> exact ⟨rfl, rfl⟩

theorem missing_congr (hp : σ'.passed w = σ.passed w)
    (hd : σ.passed w / 4 < L.steps → ∀ x, σ'.done ((L.receiver w (σ.passed w / 4)).1, w.1, x) =
      σ.done ((L.receiver w (σ.passed w / 4)).1, w.1, x)) : L.missing σ' w = L.missing σ w := by
  simp only [missing, hp]
  exact Finset.filter_congr fun x _ => and_congr_right fun hs => by rw [hd hs x]

theorem left_run (hw : L.Active w) (h : L.run σ w = .goes σ') : L.left σ' < L.left σ := by
  obtain ⟨hlt, hp, hd⟩ := run_goes h
  have hself : 4 * (4 * L.steps - σ'.passed w) + (L.missing σ' w).card <
      4 * (4 * L.steps - σ.passed w) + (L.missing σ w).card := by
    have := card_missing_le (L := L) σ' w
    rw [hp, update_self]
    omega
  refine Finset.sum_lt_sum (fun v _ => ?_) ⟨w, mem_workers.2 hw, hself⟩
  rcases eq_or_ne v w with rfl | hv
  · exact hself.le
  · have hpv : σ'.passed v = σ.passed v := by rw [hp, update_of_ne hv]
    rw [hpv, missing_congr hpv fun _ x => by rw [hd]]

theorem left_arrive (H : Regular L.rankSize) {s x : ℕ} (hw : L.Active w) (hs : s < L.steps)
    (h : σ.passed w = 4 * s + 1) (hx : x ∈ L.words w.1 (L.receiver w s).1)
    (hnew : σ.done ((L.receiver w s).1, w.1, x) ≠ token L.magic s) (hp : σ'.passed = σ.passed)
    (hd : σ'.done = update σ.done ((L.receiver w s).1, w.1, x) (token L.magic s)) : L.left σ' < L.left σ := by
  have hdiv : σ.passed w / 4 = s := by omega
  have hmem : x ∈ L.missing σ w := by
    rw [missing, Finset.mem_filter, hdiv]
    exact ⟨List.mem_toFinset.2 hx, hs, by omega, hnew⟩
  have hself : (L.missing σ' w).card < (L.missing σ w).card := by
    refine (Finset.card_le_card fun y hy => ?_).trans_lt (Finset.card_erase_lt_of_mem hmem)
    simp only [missing, Finset.mem_filter, hp, hd, hdiv] at hy
    have hyx : y ≠ x := fun hyx => hy.2.2.2 (by rw [hyx, update_self])
    rw [update_of_ne (by simpa using hyx)] at hy
    rw [Finset.mem_erase, missing, Finset.mem_filter, hdiv]
    exact ⟨hyx, hy⟩
  rw [left, left, hp]
  refine Finset.sum_lt_sum (fun v hv => ?_) ⟨w, mem_workers.2 hw, Nat.add_lt_add_left hself _⟩
  rcases eq_or_ne v w with rfl | hne
  · exact Nat.add_le_add_left hself.le _
  · have hsame : L.missing σ' v = L.missing σ v := missing_congr (by rw [hp]) fun ht y => by
      rw [hd, update_of_ne]
      intro hto
      simp only [Prod.mk.injEq] at hto
      exact hne (meet_once H hw hs (mem_workers.1 hv) ht hto.1 hto.2.1).2.symm
    rw [hsame]

end Launch

/-- Somebody can go on until all are through. -/
theorem Inv.through {L : Launch} {σ : State} (H : Regular L.rankSize) (hm : L.Mapped) (h : Inv L σ)
    (hend : ∀ σ', ¬ L.Turn σ σ') {w : Worker} (hw : L.Active w) : 4 * L.steps ≤ σ.passed w := by
  by_contra hlt
  obtain ⟨v, hv, hmin⟩ := (measure σ.passed).wf.has_min {w | L.Active w} ⟨w, hw⟩
  have hle : ∀ w, L.Active w → σ.passed v ≤ σ.passed w := fun w hw => not_lt.1 (hmin w hw)
  obtain ⟨σ', hturn⟩ := h.exists_turn H hv hm ((hle w hw).trans_lt (not_le.1 hlt)) hle
  exact hend σ' hturn

theorem Inv.turn {L : Launch} {σ σ' : State} (H : Regular L.rankSize) (hm : L.Mapped) (h : Inv L σ)
    (hturn : L.Turn σ σ') : Inv L σ' ∧ L.left σ' < L.left σ := by
  rcases hturn with ⟨w, _, hw, hrun⟩ | ⟨w, s, x, hw, hs, hx, hmem, hnew⟩
  · exact ⟨h.run H hw hm hrun, Launch.left_run hw hrun⟩
  · exact ⟨h.arrive H hw hs hx, Launch.left_arrive H hw hs hx hmem hnew rfl rfl⟩

/-- In every run no worker fails, a worker posts the rows of a step only after the one that receives them is
through with the steps before, which gets on only after rows of another rank are posted, until all are
through somebody can go on, and all can get through from wherever they are. -/
theorem steps_paced {L : Launch} {σ₀ σ : State} (hL : ServerPairRankSize L.rankSize) (hm : L.Mapped)
    (h0 : L.Starts σ₀) (h : Lib.Reachable L.Turn σ₀ σ) : (∀ w, L.Active w → L.run σ w ≠ .fails) ∧
      (∀ w s, L.Active w → s < L.steps → 4 * s + 1 ≤ σ.passed w → 4 * s ≤ σ.passed (L.receiver w s)) ∧
      (∀ w s, L.Active w → s < L.steps → w.1 ≠ (L.receiver w s).1 → 4 * s + 3 ≤ σ.passed (L.receiver w s) →
        4 * s + 1 ≤ σ.passed w) ∧
      ((∀ w, L.Active w → 4 * L.steps ≤ σ.passed w) ∨ ∃ σ', L.Turn σ σ') ∧
      ∃ σ', Lib.Reachable L.Turn σ σ' ∧ ∀ w, L.Active w → 4 * L.steps ≤ σ'.passed w := by
  have H := regular hL
  have hinv : Inv L σ := h.invariant (Inv.of_starts h0) fun _ _ h hturn => (h.turn H hm hturn).1
  refine ⟨fun w hw => ?_, fun w s hw hs hc => ?_, fun w s hw hs hne hc => ?_, ?_, ?_⟩
  · by_cases hs : L.steps ≤ σ.passed w / 4
    · rw [Launch.run, if_pos hs]
      nofun
    · rw [Launch.run_eq H hw (not_le.1 hs) hm (Nat.div_add_mod _ 4).symm (Nat.mod_lt _ (by decide))]
      split <;> nofun
  · rcases Nat.eq_zero_or_pos s with rfl | hp
    · exact Nat.zero_le _
    · exact (hinv w s hw hs).paced hp hc
  · have hword : 0 ∈ L.words w.1 (L.receiver w s).1 := by
      simp only [Launch.words, expectedDoneCount, if_neg hne, List.mem_append, List.mem_range]
      split_ifs <;> simp
    exact (hinv w s hw hs).posted 0 ((hinv w s hw hs).taken hc 0 hword)
  · by_cases hturn : ∃ σ', L.Turn σ σ'
    · exact .inr hturn
    · exact .inl fun w hw => hinv.through H hm (not_exists.1 hturn) hw
  · obtain ⟨σ', hreach, hinv', hend⟩ := Lib.Reachable.exists_final L.left
      (fun _ _ h hturn => h.turn H hm hturn) hinv
    exact ⟨σ', hreach, fun w hw => hinv'.through H hm hend hw⟩

/-- Thirty-two ranks get through both of their steps. -/
theorem steps_paced_thirtyTwo :
    let L : Launch := ⟨32, 8, 1, true, fun _ => true⟩
    let σ₀ : State := ⟨fun _ => 0, fun _ => 0, fun _ => []⟩
    ∃ σ, Lib.Reachable L.Turn σ₀ σ ∧ (∀ w, L.Active w → 8 ≤ σ.passed w ∧ L.run σ w ≠ .fails) ∧
      4 ≤ σ.passed (L.receiver (0, 0) 1) := by
  intro L σ₀
  have h0 : L.Starts σ₀ :=
    ⟨fun _ => rfl, fun _ _ => (Nat.left_le_or.trans_lt' (Nat.succ_pos 7)).ne, fun _ => by simp [σ₀]⟩
  have hpaced := fun σ (h : Lib.Reachable L.Turn σ₀ σ) => steps_paced (by decide) (fun _ _ => rfl) h0 h
  obtain ⟨σ, hreach, hall⟩ := (hpaced σ₀ .refl).2.2.2.2
  obtain ⟨hok, hpace, -⟩ := hpaced σ hreach
  have hw : L.Active (0, 0) := by decide
  exact ⟨σ, hreach, fun w hw => ⟨Nat.le_trans (by decide) (hall w hw), hok w hw⟩,
    hpace (0, 0) 1 hw (by decide) (Nat.le_trans (by decide) (hall _ hw))⟩

end TileXR.MoonEpCombineV2
