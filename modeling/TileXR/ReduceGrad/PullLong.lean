import TileXR.ReduceGrad.PullRun

/-!
# Lanes that run out of sequence numbers

A lane with 2^32 - 1 waves or more wraps its 32-bit sequence numbers. After the wrap `sequence` is below
the number of banks and below `nextReadySequence`, so that the wave with the last number is never published:
the helpers of the lane wait for it for ever, unless the leader gets to a bank it has not published and
fails. Either way such a launch does not end well (`status_of_long`).
-/

namespace TileXR.ReduceGrad
open Lib Option
open Function (update update_self update_of_ne)

variable {l : Leader} {helper k : ℕ}
variable {α : Type*} {t : Task α} {s s' : State α} {lane : ℕ} {token₀ : ℕ → ℕ → ℕ}

section Defs
variable (t)

/-- A word shows a token of this launch. -/
def Launched (word : ℕ) : Prop := word / 2 ^ 32 = t.magic % 2 ^ 32

/-- Some helpers of a lane are past the first wave. -/
def Past (s : State α) (lane : ℕ) (which : ℕ → Prop) : Prop :=
  ∀ blockIdx helperIndex, IsHelper t.layout blockIdx lane helperIndex → which helperIndex →
    2 ≤ (s.helper blockIdx).sequence

def LongPhase (s : State α) (lane : ℕ) (l : Leader) : Prop :=
  match l.phase with
  | .begins => l.wave = 0
  | .await helper =>
    (l.wave = 2 → l.bankPublished 0 = true ∧ l.bankSequence 0 = 1 ∧ Past t s lane (· < helper)) ∧
      (3 ≤ l.wave → Past t s lane fun _ => True)
  | .issue => 2 ≤ l.wave → Past t s lane fun _ => True
  | .complete => 1 ≤ l.wave ∧ l.wave ≤ 2 ^ 32 - 2 ∧ l.bankIssued (bankOf l.sequence) = true ∧
      (2 ≤ l.wave → Past t s lane fun _ => True)
  | .publish => 1 ≤ l.wave ∧ l.wave ≤ 2 ^ 32 - 2 ∧ l.bankIssued (bankOf l.sequence) = true ∧
      (l.pending (bankOf l.nextReadySequence)).sequence = l.nextReadySequence ∧
      (s.item lane (bankOf l.nextReadySequence)).kind = .work ∧ (2 ≤ l.wave → Past t s lane fun _ => True)
  | .drain | .lastAwait _ _ | .terminal => 2 ^ 32 - 1 ≤ l.wave ∧ Past t s lane fun _ => True
  | .terminalPublish => 2 ^ 32 - 1 ≤ l.wave ∧ (Past t s lane fun _ => True) ∧
      ∃ q < 2, (s.item lane (bankOf l.sequence)).token = laneToken t q
  | .finished => True

structure LongLeader (s : State α) (lane : ℕ) (l : Leader) : Prop where
  wave_le : l.wave ≤ 2 ^ 32
  sequence : l.sequence = (l.wave + 1) % 2 ^ 32
  nextReady : l.nextReadySequence = max 1 (min l.wave (2 ^ 32 - 1))
  issued : 0 < l.wave → l.bankIssued (bankOf l.nextReadySequence) = true
  phase : LongPhase t s lane l

structure LongHelper (s : State α) (blockIdx lane helperIndex : ℕ) : Prop where
  pos : 1 ≤ (s.helper blockIdx).sequence
  le : (s.helper blockIdx).sequence ≤ 2 ^ 32 - 1
  stalled : (s.helper blockIdx).sequence = 2 ^ 32 - 1 → (s.helper blockIdx).phase = .waiting
  phase : (s.helper blockIdx).phase ≠ .last ∧ (s.helper blockIdx).phase ≠ .finished
  loading : (s.helper blockIdx).phase = .loading →
    Launched t (s.token lane (bankReady (bankOf (s.helper blockIdx).sequence)))
  done : ∀ b < 2, Launched t (s.token lane (bankDoneToken b helperIndex)) →
    s.token lane (bankDoneToken b helperIndex) < laneToken t (s.helper blockIdx).sequence

structure LongInv (s : State α) (lane : ℕ) : Prop where
  leader : LongLeader t s lane (s.leader lane)
  ready : ∀ b < 2, s.token lane (bankReady b) ≠ laneToken t (2 ^ 32 - 1)
  abort : ¬ s.laneAborted t lane
  items : ∀ b < 2, Launched t (s.token lane (bankReady b)) → (s.item lane b).kind = .terminal →
    (∃ q < 2, (s.item lane b).token = laneToken t q) ∧ Past t s lane fun _ => True
  helpers : ∀ blockIdx helperIndex, IsHelper t.layout blockIdx lane helperIndex →
    LongHelper t s blockIdx lane helperIndex

end Defs

/-! ## Words and banks -/

theorem launched_laneToken (hk : k < 2 ^ 32) : Launched t (laneToken t k) := laneToken_div hk

theorem bankOf_lt (q : ℕ) : bankOf q < 2 := Nat.mod_lt _ (by decide)

theorem bankOf_eq (q : ℕ) : bankOf q = (q + 1) % 2 := by
  rw [bankOf, uint32Max, kReduceGradBankCount]
  omega

/-! ## Moving on -/

theorem Past.mono {which : ℕ → Prop} (h : Past t s lane which)
    (hle : ∀ b i, IsHelper t.layout b lane i → (s.helper b).sequence ≤ (s'.helper b).sequence) :
    Past t s' lane which :=
  fun b i hb hw => Nat.le_trans (h b i hb hw) (hle b i hb)

theorem LongPhase.mono (h : LongPhase t s lane l) (hitem : s'.item lane = s.item lane)
    (hle : ∀ b i, IsHelper t.layout b lane i → (s.helper b).sequence ≤ (s'.helper b).sequence) :
    LongPhase t s' lane l := by
  unfold LongPhase at h ⊢
  rw [hitem]
  split at h
  · exact h
  · exact ⟨fun hw => ⟨(h.1 hw).1, (h.1 hw).2.1, (h.1 hw).2.2.mono hle⟩, fun hw => (h.2 hw).mono hle⟩
  · exact fun hw => (h hw).mono hle
  · exact ⟨h.1, h.2.1, h.2.2.1, fun hw => (h.2.2.2 hw).mono hle⟩
  · exact ⟨h.1, h.2.1, h.2.2.1, h.2.2.2.1, h.2.2.2.2.1, fun hw => (h.2.2.2.2.2 hw).mono hle⟩
  · exact ⟨h.1, h.2.mono hle⟩
  · exact ⟨h.1, h.2.mono hle⟩
  · exact ⟨h.1, h.2.mono hle⟩
  · exact ⟨h.1, h.2.1.mono hle, h.2.2⟩
  · trivial

/-- Leader, items and ready words stay; helpers only move on. -/
theorem LongInv.mono (h : LongInv t s lane) (hleader : s'.leader lane = s.leader lane)
    (hready : ∀ b < 2, s'.token lane (bankReady b) = s.token lane (bankReady b))
    (habort : s'.token lane kReduceGradLaneErrorOffset = s.token lane kReduceGradLaneErrorOffset)
    (hitem : s'.item lane = s.item lane)
    (hle : ∀ b i, IsHelper t.layout b lane i → (s.helper b).sequence ≤ (s'.helper b).sequence)
    (hhelpers : ∀ b i, IsHelper t.layout b lane i → LongHelper t s' b lane i) : LongInv t s' lane where
  leader := by
    rw [hleader]
    exact { h.leader with phase := h.leader.phase.mono hitem hle }
  ready := fun b hb => by rw [hready b hb]; exact h.ready b hb
  abort := by rw [State.laneAborted, habort]; exact h.abort
  items := fun b hb hw hk => by
    rw [hready b hb] at hw
    rw [hitem] at hk ⊢
    exact ⟨(h.items b hb hw hk).1, (h.items b hb hw hk).2.mono hle⟩
  helpers := hhelpers

theorem LongHelper.mono {blockIdx helperIndex : ℕ} (h : LongHelper t s blockIdx lane helperIndex)
    (hhelper : s'.helper blockIdx = s.helper blockIdx)
    (hready : ∀ b < 2, Launched t (s.token lane (bankReady b)) → Launched t (s'.token lane (bankReady b)))
    (hdone : ∀ b < 2, s'.token lane (bankDoneToken b helperIndex) =
      s.token lane (bankDoneToken b helperIndex)) : LongHelper t s' blockIdx lane helperIndex := by
  refine ⟨?_, ?_, ?_, ?_, ?_, fun b hb => ?_⟩
  · rw [hhelper]; exact h.pos
  · rw [hhelper]; exact h.le
  · rw [hhelper]; exact h.stalled
  · rw [hhelper]; exact h.phase
  · rw [hhelper]; exact fun hp => hready _ (bankOf_lt _) (h.loading hp)
  · rw [hhelper, hdone b hb]; exact h.done b hb

section
variable (h : LongInv t s lane)
include h

theorem LongInv.frame (hleader : s'.leader lane = s.leader lane)
    (htoken : s'.token lane = s.token lane) (hitem : s'.item lane = s.item lane)
    (hhelper : ∀ b i, IsHelper t.layout b lane i → s'.helper b = s.helper b) : LongInv t s' lane :=
  h.mono hleader (fun _ _ => by rw [htoken]) (by rw [htoken]) hitem
    (fun b i hb => by rw [hhelper b i hb]) fun b i hb => (h.helpers b i hb).mono (hhelper b i hb)
      (fun _ _ => by rw [htoken]; exact id) fun _ _ => by rw [htoken]

/-- A step of the leader, which stores no token but ready tokens. -/
theorem LongInv.leaderMoves (hhelper : s'.helper = s.helper) (hl : LongLeader t s' lane (s'.leader lane))
    (hready : ∀ b < 2, s'.token lane (bankReady b) = s.token lane (bankReady b) ∨
      ∃ k < 2 ^ 32 - 1, s'.token lane (bankReady b) = laneToken t k)
    (hdone : ∀ b < 2, ∀ i, s'.token lane (bankDoneToken b i) = s.token lane (bankDoneToken b i))
    (habort : s'.token lane kReduceGradLaneErrorOffset = s.token lane kReduceGradLaneErrorOffset)
    (hitems : ∀ b < 2, Launched t (s'.token lane (bankReady b)) → (s'.item lane b).kind = .terminal →
      (∃ q < 2, (s'.item lane b).token = laneToken t q) ∧ Past t s lane fun _ => True) : LongInv t s' lane where
  leader := hl
  ready := fun b hb => by
    rcases hready b hb with heq | ⟨k, hk, heq⟩
    · rw [heq]; exact h.ready b hb
    · rw [heq]
      intro hk'
      exact absurd (laneToken_inj hk') (by omega)
  abort := by rw [State.laneAborted, habort]; exact h.abort
  items := fun b hb hw hk => ⟨(hitems b hb hw hk).1, (hitems b hb hw hk).2.mono fun _ _ _ => by rw [hhelper]⟩
  helpers := fun blockIdx i hb => by
    refine (h.helpers blockIdx i hb).mono (by rw [hhelper]) (fun b hb hw => ?_) fun b hb => hdone b hb i
    rcases hready b hb with heq | ⟨k, hk, heq⟩
    · rwa [heq]
    · rw [heq]; exact launched_laneToken (by omega)

theorem LongInv.setLeader (hl : LongLeader t s lane l) : LongInv t (s.setLeader lane l) lane := by
  refine h.leaderMoves rfl ?_ (fun _ _ => .inl rfl) (fun _ _ _ => rfl) rfl h.items
  rw [show (s.setLeader lane l).leader lane = l from update_self _ _ _]
  exact { hl with }

theorem LongInv.setItem {bank : ℕ} {item : Item}
    (hitem : item.kind = .terminal → (∃ q < 2, item.token = laneToken t q) ∧ Past t s lane fun _ => True)
    (hl : LongLeader t (s.setItem lane bank item) lane l) :
    LongInv t ((s.setItem lane bank item).setLeader lane l) lane := by
  refine h.leaderMoves rfl ?_ (fun _ _ => .inl rfl) (fun _ _ _ => rfl) rfl fun b hb hw => ?_
  · rw [show ((s.setItem lane bank item).setLeader lane l).leader lane = l from update_self _ _ _]
    exact { hl with }
  · show (update s.item lane (update (s.item lane) bank item) lane b).kind = _ →
      (∃ q < 2, (update s.item lane (update (s.item lane) bank item) lane b).token = _) ∧ _
    rw [update_self]
    rcases eq_or_ne b bank with rfl | hne
    · rw [update_self]; exact hitem
    · rw [update_of_ne hne]; exact h.items b hb hw

theorem LongInv.storeReady {bank : ℕ} (hbank : bank < 2)
    (hk : k < 2 ^ 32 - 1) (hitem : (s.item lane bank).kind = .terminal →
      (∃ q < 2, (s.item lane bank).token = laneToken t q) ∧ Past t s lane fun _ => True)
    (hl : LongLeader t s lane l) :
    LongInv t ((s.storeToken lane (bankReady bank) (laneToken t k)).setLeader lane l) lane := by
  have htoken : ∀ offset, offset ≠ bankReady bank →
      ((s.storeToken lane (bankReady bank) (laneToken t k)).setLeader lane l).token lane offset =
        s.token lane offset := by
    intro offset hne
    show update s.token lane _ lane offset = _
    rw [update_self, update_of_ne hne]
  refine h.leaderMoves rfl ?_ (fun b hb => ?_) (fun b hb i => htoken _ (bankReady_ne_done hbank).symm)
    (htoken _ (bankReady_ne_error hbank).symm) fun b hb hw => ?_
  · rw [show ((s.storeToken lane (bankReady bank) (laneToken t k)).setLeader lane l).leader lane = l from
      update_self _ _ _]
    exact { hl with }
  · rcases eq_or_ne b bank with rfl | hne
    · refine .inr ⟨k, hk, ?_⟩
      show update s.token lane _ lane _ = _
      rw [update_self, update_self]
    · exact .inl (htoken _ (bankReady_ne hne))
  · rcases eq_or_ne b bank with rfl | hne
    · exact hitem
    · rw [htoken _ (bankReady_ne hne)] at hw
      exact h.items b hb hw

end

/-! ## The leader -/

theorem status_failLane : (failLane t lane s).status ≠ 0 := by
  show (if s.status = 0 then kReduceGradDeviceInvalidState else s.status) ≠ 0
  split
  · decide
  · assumption

section
variable (h : LongInv t s lane) (hstep : leaderStep t lane s = some s')
include h hstep

theorem long_await (hL : t.layout.Accepted) (hn : 2 ^ 32 - 1 ≤ (laneWaves t lane).length)
    (hp : (s.leader lane).phase = .await helper) : LongInv t s' lane := by
  have hl := h.leader
  have hphase := hl.phase
  simp only [LongPhase, hp] at hphase
  simp only [leaderStep, hp] at hstep
  split at hstep
  · next hge =>
    obtain rfl := some.inj hstep
    have hwave : 2 ^ 32 - 1 ≤ (s.leader lane).wave := Nat.le_trans hn hge
    exact h.setLeader { hl with phase := ⟨hwave, hphase.2 (by omega)⟩ }
  · split at hstep
    · split at hstep
      · next hhelper =>
        unfold waitForHelper at hstep
        split at hstep
        · next htok =>
          obtain rfl := some.inj hstep
          refine h.setLeader { hl with phase := ⟨fun hw => ?_, hphase.2⟩ }
          obtain ⟨hpub, hseq, hpast⟩ := hphase.1 hw
          refine ⟨hpub, hseq, fun b i hb hi => ?_⟩
          rcases Nat.lt_succ_iff_lt_or_eq.1 hi with hlt | rfl
          · exact hpast b i hb hlt
          · have hbank : bankOf (s.leader lane).sequence = 0 := by rw [hl.sequence, hw, bankOf_eq]; rfl
            rw [hbank, hseq] at htok
            have hdone := (h.helpers b i hb).done 0 (by decide)
              (by rw [htok]; exact launched_laneToken (by decide))
            rw [htok] at hdone
            exact Nat.lt_of_add_lt_add_left hdone
        · rw [if_neg h.abort] at hstep
          cases hstep
      · next hhelper =>
        obtain rfl := some.inj hstep
        refine h.setLeader { hl with phase := fun hw => ?_ }
        rcases Nat.lt_or_ge 2 (s.leader lane).wave with hlt | hge
        · exact hphase.2 hlt
        · intro b i hb _
          exact (hphase.1 (Nat.le_antisymm hge hw)).2.2 b i hb
            (Nat.lt_of_lt_of_le (hb.index_lt hL) (Nat.le_of_not_lt hhelper))
    · next hpub =>
      obtain rfl := some.inj hstep
      refine h.setLeader { hl with phase := fun hw => ?_ }
      rcases Nat.lt_or_ge 2 (s.leader lane).wave with hlt | hge
      · exact hphase.2 hlt
      · have hw' : (s.leader lane).wave = 2 := Nat.le_antisymm hge hw
        have hbank : bankOf (s.leader lane).sequence = 0 := by rw [hl.sequence, hw', bankOf_eq]; rfl
        rw [hbank] at hpub
        exact absurd (hphase.1 hw').1 hpub

theorem long_issue (hp : (s.leader lane).phase = .issue) : s'.status ≠ 0 ∨ LongInv t s' lane := by
  have hl := h.leader
  have hphase := hl.phase
  simp only [LongPhase, hp] at hphase
  simp only [leaderStep, hp] at hstep
  obtain ⟨w, -, rfl⟩ := map_eq_some_iff.1 hstep
  unfold leaderIssue
  dsimp only
  split
  · exact .inl status_failLane
  next hfree =>
  split
  · exact .inl status_failLane
  refine .inr (h.leaderMoves rfl ?_ (fun _ _ => .inl rfl) (fun _ _ _ => rfl) rfl h.items)
  dsimp only
  rw [update_self]
  have hseq := hl.sequence
  have hnext := hl.nextReady
  have hle := hl.wave_le
  -- the number of the last wave but one wraps to a bank that is taken
  have hne : (s.leader lane).wave ≠ 2 ^ 32 := by
    intro heq
    refine hfree ?_
    rw [hseq, heq, bankOf_eq]
    have hissued := hl.issued (by omega)
    rw [hnext, heq, bankOf_eq] at hissued
    exact hissued
  have hissued : 0 < (s.leader lane).wave → update (s.leader lane).bankIssued
      (bankOf (s.leader lane).sequence) true (bankOf (s.leader lane).nextReadySequence) = true := by
    intro hpos
    rw [Function.update_apply]
    split
    · rfl
    · exact hl.issued hpos
  split
  · next hbanks =>
    rw [kReduceGradBankCount] at hbanks
    constructor <;> dsimp only [LongPhase]
    · exact hle
    · exact hseq
    · exact hnext
    · exact hissued
    · exact ⟨by omega, by omega, update_self _ _ _, hphase⟩
  · next hbanks =>
    rw [kReduceGradBankCount] at hbanks
    have hwave : (s.leader lane).wave = 0 ∨ (s.leader lane).wave = 2 ^ 32 - 1 := by omega
    constructor <;> dsimp only [Leader.nextWave, LongPhase]
    · omega
    · omega
    · omega
    · intro _
      rcases hwave with h0 | hlast
      · rw [hseq, hnext, h0]
        exact update_self _ _ _
      · exact hissued (by omega)
    · exact ⟨by omega, fun hw => hphase (by omega)⟩

theorem long_complete (hp : (s.leader lane).phase = .complete) : s'.status ≠ 0 ∨ LongInv t s' lane := by
  have hl := h.leader
  have hphase := hl.phase
  simp only [LongPhase, hp] at hphase
  simp only [leaderStep, hp] at hstep
  split at hstep
  · obtain rfl := some.inj hstep
    exact .inl status_failLane
  next hready =>
  split at hstep
  · cases hstep
  obtain rfl := some.inj hstep
  have hseq : ((s.leader lane).pending (bankOf (s.leader lane).nextReadySequence)).sequence =
      (s.leader lane).nextReadySequence := by
    by_contra hne
    exact hready (.inr hne)
  refine .inr (h.setItem (fun hk => by cases hk) { hl with phase := ?_ })
  refine ⟨hphase.1, hphase.2.1, hphase.2.2.1, hseq, ?_, hphase.2.2.2⟩
  show (update s.item lane (update (s.item lane) _ _) lane _).kind = _
  rw [update_self, update_self]
  rfl

theorem long_publish (hn : 2 ^ 32 - 1 ≤ (laneWaves t lane).length) (hp : (s.leader lane).phase = .publish) :
    LongInv t s' lane := by
  have hl := h.leader
  have hphase := hl.phase
  simp only [LongPhase, hp] at hphase
  obtain ⟨hpos, hle, hissued, hseq, hkind, hpast⟩ := hphase
  have hnext := hl.nextReady
  have hsequence := hl.sequence
  simp only [leaderStep, hp] at hstep
  rw [if_pos (by omega)] at hstep
  obtain rfl := some.inj hstep
  rw [hseq]
  refine h.storeReady (bankOf_lt _) (by omega) (fun hk => by rw [hkind] at hk; cases hk) ?_
  have hr : (s.leader lane).nextReadySequence = (s.leader lane).wave := by omega
  have hq : (s.leader lane).sequence = (s.leader lane).wave + 1 := by omega
  constructor <;> dsimp only [Leader.nextWave, LongPhase]
  · omega
  · omega
  · omega
  · intro _
    rw [hr, Nat.mod_eq_of_lt (by omega), update_of_ne]
    · rwa [hq] at hissued
    · rw [bankOf_eq, bankOf_eq]
      omega
  · refine ⟨fun hw => ?_, fun hw => hpast (by omega)⟩
    have hbank : bankOf (s.leader lane).nextReadySequence = 0 := by
      rw [hr, bankOf_eq]
      omega
    rw [hbank, update_self, update_self]
    exact ⟨rfl, by omega, fun _ _ _ hi => absurd hi (Nat.not_lt_zero _)⟩

theorem long_lastAwait {bank : ℕ} (hp : (s.leader lane).phase = .lastAwait bank helper) : LongInv t s' lane := by
  have hl := h.leader
  have hphase := hl.phase
  simp only [LongPhase, hp] at hphase
  simp only [leaderStep, hp] at hstep
  split at hstep
  · obtain rfl := some.inj hstep
    exact h.setLeader { hl with phase := hphase }
  · split at hstep
    · unfold waitForHelper at hstep
      split at hstep
      · obtain rfl := some.inj hstep
        exact h.setLeader { hl with phase := hphase }
      · rw [if_neg h.abort] at hstep
        cases hstep
    · obtain rfl := some.inj hstep
      exact h.setLeader { hl with phase := hphase }

theorem leaderStep_long (hL : t.layout.Accepted) (hn : 2 ^ 32 - 1 ≤ (laneWaves t lane).length) :
    s'.status ≠ 0 ∨ LongInv t s' lane := by
  have hl := h.leader
  have hphase := hl.phase
  cases hp : (s.leader lane).phase with
  | begins =>
    simp only [LongPhase, hp] at hphase
    simp only [leaderStep, hp] at hstep
    split at hstep
    · obtain rfl := some.inj hstep
      exact .inl status_failLane
    · obtain rfl := some.inj hstep
      refine .inr (h.setLeader { hl with phase := ⟨?_, ?_⟩ })
      · show (s.leader lane).wave = 2 → _
        omega
      · show 3 ≤ (s.leader lane).wave → _
        omega
  | await helper => exact .inr (long_await h hstep hL hn hp)
  | issue => exact long_issue h hstep hp
  | complete => exact long_complete h hstep hp
  | publish => exact .inr (long_publish h hstep hn hp)
  | drain =>
    simp only [LongPhase, hp] at hphase
    simp only [leaderStep, hp] at hstep
    have hseq := hl.sequence
    have hnext := hl.nextReady
    have hle := hl.wave_le
    rw [if_neg (by omega)] at hstep
    obtain rfl := some.inj hstep
    exact .inr (h.setLeader { hl with phase := hphase })
  | lastAwait bank helper => exact .inr (long_lastAwait h hstep hp)
  | terminal =>
    simp only [LongPhase, hp] at hphase
    simp only [leaderStep, hp] at hstep
    obtain rfl := some.inj hstep
    have hseq := hl.sequence
    have hle := hl.wave_le
    have hitem : ∃ q < 2, (terminalItem t (s.leader lane).sequence).token = laneToken t q :=
      ⟨_, by omega, rfl⟩
    refine .inr (h.setItem (fun _ => ⟨hitem, hphase.2⟩) { hl with phase := ⟨hphase.1, hphase.2, ?_⟩ })
    show ∃ q < 2, (update s.item lane (update (s.item lane) _ _) lane _).token = laneToken t q
    rw [update_self, update_self]
    exact hitem
  | terminalPublish =>
    simp only [LongPhase, hp] at hphase
    simp only [leaderStep, hp] at hstep
    obtain rfl := some.inj hstep
    have hseq := hl.sequence
    have hle := hl.wave_le
    exact .inr (h.storeReady (bankOf_lt _) (by omega) (fun _ => ⟨hphase.2.2, hphase.2.1⟩)
      { hl with phase := trivial })
  | finished => simp [leaderStep, hp] at hstep

end

/-! ## The helpers -/

section Helpers
variable {blockIdx helperIndex : ℕ}

/-- What a helper leaves alone, whatever it finds. -/
structure HelperMoves (blockIdx lane helperIndex : ℕ) (s s' : State α) : Prop where
  leader : s'.leader = s.leader
  item : s'.item = s.item
  flight : s'.flight = s.flight
  helper : ∀ b, b ≠ blockIdx → s'.helper b = s.helper b
  token : ∀ lane' offset, (lane' ≠ lane ∨ ∀ b < 2, offset ≠ bankDoneToken b helperIndex) →
    s'.token lane' offset = s.token lane' offset
  status : s.status ≠ 0 → s'.status ≠ 0

theorem helperMoves_go (h : Helper α) : HelperMoves blockIdx lane helperIndex s (s.setHelper blockIdx h) :=
  ⟨rfl, rfl, rfl, fun _ hne => update_of_ne hne _ _, fun _ _ _ => rfl, id⟩

theorem status_publishStatus (value : ℕ) (hvalue : value ≠ 0) : (s.publishStatus value).status ≠ 0 := by
  show (if s.status = 0 then value else s.status) ≠ 0
  split <;> assumption

theorem helperMoves_fail (h : Helper α) : HelperMoves blockIdx lane helperIndex s
    ((s.setHelper blockIdx h).publishStatus kReduceGradDeviceInvalidState) :=
  ⟨rfl, rfl, rfl, fun _ hne => update_of_ne hne _ _, fun _ _ _ => rfl,
    fun _ => status_publishStatus _ (by decide)⟩

theorem helperMoves_done (h : Helper α) {b : ℕ} (hb : b < 2) (value : ℕ) : HelperMoves blockIdx lane helperIndex s
      ((s.storeToken lane (bankDoneToken b helperIndex) value).setHelper blockIdx h) :=
  have ho : OnlyHelper blockIdx lane helperIndex s _ := onlyHelper_done h hb value
  ⟨ho.leader, ho.item, ho.flight, ho.helper, ho.token, id⟩

/-- `ProcessBankItem` fails, or the helper goes to a tile or is done. -/
theorem processBankItem_cases (t : Task α) (s : State α) (blockIdx helperIndex : ℕ) (item : Item) :
    (∃ h, processBankItem t blockIdx helperIndex item s =
      (s.setHelper blockIdx h).publishStatus kReduceGradDeviceInvalidState) ∨
    ∃ phase, processBankItem t blockIdx helperIndex item s =
        s.setHelper blockIdx { s.helper blockIdx with phase := phase } ∧
      phase ≠ .loading ∧ phase ≠ .last ∧ phase ≠ .finished := by
  unfold processBankItem
  dsimp only
  split
  · exact .inl ⟨_, rfl⟩
  split
  · exact .inl ⟨_, rfl⟩
  split
  · exact .inl ⟨_, rfl⟩
  split
  · exact .inr ⟨.done, rfl, by simp⟩
  · exact .inr ⟨_, rfl, by simp⟩

theorem helperStep_moves [Add α] (hb : IsHelper t.layout blockIdx lane helperIndex)
    (hstep : helperStep t blockIdx s = some s') : HelperMoves blockIdx lane helperIndex s s' := by
  simp only [helperStep, hb.eq] at hstep
  split at hstep
  · split at hstep
    · obtain rfl := some.inj hstep; exact helperMoves_go _
    · split at hstep
      · obtain rfl := some.inj hstep; exact helperMoves_go _
      · cases hstep
  · split at hstep
    · obtain rfl := some.inj hstep; exact helperMoves_fail _
    · split at hstep
      · obtain rfl := some.inj hstep; exact helperMoves_go _
      · obtain rfl := some.inj hstep
        rcases processBankItem_cases t s blockIdx helperIndex
          (s.item lane (bankOf (s.helper blockIdx).sequence)) with ⟨h, heq⟩ | ⟨phase, heq, -⟩
        · rw [heq]; exact helperMoves_fail _
        · rw [heq]; exact helperMoves_go _
  · obtain ⟨entry, -, rfl⟩ := map_eq_some_iff.1 hstep
    split <;> exact helperMoves_go _
  · obtain rfl := some.inj hstep
    exact ⟨rfl, rfl, rfl, fun _ hne => update_of_ne hne _ _, fun _ _ _ => rfl, id⟩
  · obtain rfl := some.inj hstep; exact helperMoves_done _ (bankOf_lt _) _
  · obtain rfl := some.inj hstep; exact helperMoves_done _ (bankOf_lt _) _
  · cases hstep

theorem HelperMoves.long (hL : t.layout.Accepted) (hm : HelperMoves blockIdx lane helperIndex s s')
    (hb : IsHelper t.layout blockIdx lane helperIndex) (h : LongInv t s lane)
    (hle : (s.helper blockIdx).sequence ≤ (s'.helper blockIdx).sequence)
    (hinv : LongHelper t s' blockIdx lane helperIndex) : LongInv t s' lane := by
  have hready : ∀ b < 2, s'.token lane (bankReady b) = s.token lane (bankReady b) := fun b hb' =>
    hm.token _ _ (.inr fun _ _ => bankReady_ne_done hb')
  have hcount := helperShape_le hL lane
  have hidx := hb.index_lt hL
  refine h.mono (by rw [hm.leader]) hready (hm.token _ _ (.inr fun b hb' => ?_)) (by rw [hm.item])
    (fun b i _ => ?_) fun b i hb' => ?_
  · exact (bankDoneToken_ne_error hb' (by omega)).symm
  · rcases eq_or_ne b blockIdx with rfl | hne
    · exact hle
    · rw [hm.helper b hne]
  · rcases eq_or_ne b blockIdx with rfl | hne
    · obtain ⟨-, rfl⟩ := hb.unique hb'
      exact hinv
    · have hne' : i ≠ helperIndex := fun heq => hne (hb'.block_unique hL (heq ▸ hb))
      have hi := hb'.index_lt hL
      exact (h.helpers b i hb').mono (hm.helper b hne) (fun c hc => by rw [hready c hc]; exact id)
        fun c _ => hm.token _ _ (.inr fun c' _ heq => hne' (bankDoneToken_inj (by omega) (by omega) heq).2)

section
variable (h : LongHelper t s blockIdx lane helperIndex)
include h

theorem LongHelper.ne_last (hp : (s.helper blockIdx).phase ≠ .waiting) : (s.helper blockIdx).sequence ≠ 2 ^ 32 - 1 :=
  fun heq => hp (h.stalled heq)

theorem LongHelper.next (hlt : (s.helper blockIdx).sequence ≠ 2 ^ 32 - 1) :
    LongHelper t ((s.storeToken lane (bankDoneToken (bankOf (s.helper blockIdx).sequence) helperIndex)
      (laneToken t (s.helper blockIdx).sequence)).setHelper blockIdx
        ⟨.waiting, ((s.helper blockIdx).sequence + 1) % 2 ^ 32⟩) blockIdx lane helperIndex := by
  have hpos := h.pos
  have hle := h.le
  rw [Nat.mod_eq_of_lt (by omega)]
  refine ⟨?_, ?_, ?_, ?_, ?_, fun b hb => ?_⟩ <;> simp only [State.setHelper, update_self]
  · omega
  · omega
  · exact fun _ => trivial
  · simp
  · simp
  · show Launched t (update s.token lane _ lane _) → update s.token lane _ lane _ < _
    rw [update_self, Function.update_apply]
    split
    · exact fun _ => Nat.add_lt_add_left (Nat.lt_succ_self _) _
    · exact fun hw => Nat.lt_trans (h.done b hb hw) (Nat.add_lt_add_left (Nat.lt_succ_self _) _)

theorem LongHelper.go {phase : HelperPhase α}
    (hlt : (s.helper blockIdx).sequence ≠ 2 ^ 32 - 1)
    (hs : s'.helper blockIdx = { s.helper blockIdx with phase := phase }) (htoken : s'.token = s.token)
    (hphase : phase ≠ .last ∧ phase ≠ .finished)
    (hloading : phase = .loading → Launched t (s.token lane (bankReady (bankOf (s.helper blockIdx).sequence)))) :
    LongHelper t s' blockIdx lane helperIndex := by
  refine ⟨?_, ?_, ?_, ?_, ?_, ?_⟩ <;> rw [hs]
  · exact h.pos
  · exact h.le
  · exact fun heq => absurd heq hlt
  · exact hphase
  · rw [htoken]; exact hloading
  · rw [htoken]; exact h.done

end

theorem helperStep_long [Add α] (hL : t.layout.Accepted) (h : LongInv t s lane)
    (hb : IsHelper t.layout blockIdx lane helperIndex) (hstep : helperStep t blockIdx s = some s') :
    s'.status ≠ 0 ∨ LongInv t s' lane := by
  have hm := helperStep_moves hb hstep
  have hh := h.helpers _ _ hb
  have hgo : ∀ {phase : HelperPhase α} {s'' : State α}, (s.helper blockIdx).sequence ≠ 2 ^ 32 - 1 →
      s''.helper blockIdx = { s.helper blockIdx with phase := phase } → s''.token = s.token →
      phase ≠ .last ∧ phase ≠ .finished → (phase = .loading →
        Launched t (s.token lane (bankReady (bankOf (s.helper blockIdx).sequence)))) →
      HelperMoves blockIdx lane helperIndex s s'' → LongInv t s'' lane :=
    fun hlt hs htoken hphase hloading hm =>
      hm.long hL hb h (by rw [hs]) (hh.go hlt hs htoken hphase hloading)
  simp only [helperStep, hb.eq] at hstep
  split at hstep
  · split at hstep
    · next hp htok =>
      -- the last number is never shown
      have hlt : (s.helper blockIdx).sequence ≠ 2 ^ 32 - 1 := by
        intro heq
        rw [heq] at htok
        exact h.ready _ (bankOf_lt _) htok
      obtain rfl := some.inj hstep
      refine .inr (hgo hlt (update_self _ _ _) rfl (by simp) (fun _ => ?_) hm)
      rw [htok]
      exact launched_laneToken (by have := hh.le; omega)
    · rw [if_neg h.abort] at hstep
      cases hstep
  · next hp =>
    have hlt := hh.ne_last (by rw [hp]; simp)
    split at hstep
    · obtain rfl := some.inj hstep
      exact .inl (status_publishStatus _ (by decide))
    · next htok =>
      split at hstep
      · next hkind =>
        -- a terminal item has a number that all helpers are past
        exfalso
        obtain ⟨⟨q, hq, heq⟩, hpast⟩ := h.items _ (bankOf_lt _) (hh.loading hp) hkind
        rw [heq] at htok
        have hseq := laneToken_inj (not_not.1 htok)
        have := hpast _ _ hb trivial
        omega
      · obtain rfl := some.inj hstep
        rcases processBankItem_cases t s blockIdx helperIndex
          (s.item lane (bankOf (s.helper blockIdx).sequence)) with ⟨h', heq⟩ | ⟨phase, heq, hphase⟩
        · rw [heq]
          exact .inl (status_publishStatus _ (by decide))
        · rw [heq] at hm ⊢
          exact .inr (hgo hlt (update_self _ _ _) rfl hphase.2 (fun hl => absurd hl hphase.1) hm)
  · next hp =>
    have hlt := hh.ne_last (by rw [hp]; simp)
    obtain ⟨entry, -, rfl⟩ := map_eq_some_iff.1 hstep
    split at hm
    · next hmore =>
      rw [if_pos hmore]
      exact .inr (hgo hlt (update_self _ _ _) rfl (by simp) (by simp) hm)
    · next hlast =>
      rw [if_neg hlast]
      exact .inr (hgo hlt (update_self _ _ _) rfl (by simp) (by simp) hm)
  · next hp =>
    have hlt := hh.ne_last (by rw [hp]; simp)
    obtain rfl := some.inj hstep
    refine .inr (hgo hlt (update_self _ _ _) rfl ?_ ?_ hm) <;> split <;> simp
  · next hp =>
    have hlt := hh.ne_last (by rw [hp]; simp)
    obtain rfl := some.inj hstep
    refine .inr (hm.long hL hb h ?_ (hh.next hlt))
    have hle := hh.le
    simp only [State.setHelper, update_self]
    omega
  · next hp => exact absurd hp hh.phase.1
  · cases hstep

/-! ## The launch -/

theorem long_start (hfresh : Fresh t token₀) (item : ℕ → ℕ → Item) (workspace : ℕ → α)
    (gradient : ℕ → ℕ → α) : LongInv t (start t token₀ item workspace gradient) lane := by
  have hnew : ∀ offset, ¬ Launched t (token₀ lane offset) := fun offset => hfresh lane offset
  refine ⟨⟨Nat.zero_le _, rfl, rfl, fun h => absurd h (Nat.lt_irrefl _), rfl⟩, fun b hb => ?_, ?_,
    fun b hb hw => absurd hw (hnew _), fun b i hb => ⟨Nat.le_refl _, show 1 ≤ 2 ^ 32 - 1 by decide,
    fun _ => rfl, ?_, ?_, fun b hb hw => absurd hw (hnew _)⟩⟩
  · exact hfresh.ne (by decide) _
  · exact hfresh.ne (by decide) _
  · exact ⟨nofun, nofun⟩
  · exact nofun

theorem step_long [Add α] (hL : t.layout.Accepted) (hn : 2 ^ 32 - 1 ≤ (laneWaves t lane).length)
    (h : s.status ≠ 0 ∨ LongInv t s lane) {a : Actor} (hstep : step t s a = some s') :
    s'.status ≠ 0 ∨ LongInv t s' lane := by
  unfold step at hstep
  split at hstep
  · next lane' =>
    split at hstep
    · have hout := leaderStep_outside hstep
      rcases h with h | h
      · exact .inl (hout.status h)
      rcases eq_or_ne lane lane' with rfl | hne
      · exact leaderStep_long h hstep hL hn
      · exact .inr (h.frame (hout.leader _ hne) (hout.token _ hne) (hout.item _ hne) fun _ _ _ => by
          rw [hout.helper])
    · cases hstep
  · next blockIdx =>
    split at hstep
    · next hblock =>
      have hb := isHelper_of_block hL hblock.1 hblock.2
      have hm := helperStep_moves hb hstep
      rcases h with h | h
      · exact .inl (hm.status h)
      rcases eq_or_ne lane (helperLane t.layout blockIdx).1 with heq | hne
      · exact helperStep_long hL h (heq ▸ hb) hstep
      · refine .inr (h.frame (by rw [hm.leader]) (funext fun _ => hm.token _ _ (.inl hne)) (by rw [hm.item])
          fun b i hb' => hm.helper b ?_)
        rintro rfl
        exact hne (hb'.unique hb).1
    · cases hstep
  · next lane' index =>
    split at hstep
    · obtain ⟨f, -, rfl⟩ := map_eq_some_iff.1 hstep
      exact h.imp id fun h => h.frame rfl rfl rfl fun _ _ _ => rfl
    · cases hstep

/-- A launch with a lane that runs out of sequence numbers does not end without a failure. -/
theorem status_of_long [Add α] (hL : t.layout.Accepted) (hfresh : Fresh t token₀)
    {item : ℕ → ℕ → Item} {workspace : ℕ → α} {gradient : ℕ → ℕ → α}
    (hs : Reachable (fun s s' => ∃ a, step t s a = some s') (start t token₀ item workspace gradient) s)
    (hfin : Finished t s) (hlong : ¬ t.Counted) : s.status ≠ 0 := by
  simp only [Task.Counted, not_forall] at hlong
  obtain ⟨lane, hlane, hn⟩ := hlong
  have hinv : s.status ≠ 0 ∨ LongInv t s lane := by
    refine Reachable.invariant (P := fun s => s.status ≠ 0 ∨ LongInv t s lane)
      (.inr (long_start hfresh item workspace gradient)) (fun s s' h hstep => ?_) hs
    obtain ⟨a, hstep⟩ := hstep
    exact step_long hL (by omega) h hstep
  rcases hinv with h | h
  · exact h
  · obtain ⟨blockIdx, hlo, hhi, heq⟩ := exists_helper hL hlane (helperShape_pos hL lane)
    exact absurd (hfin.helper blockIdx hlo hhi) (h.helpers blockIdx 0 ⟨hlo, hhi, heq⟩).phase.2

end Helpers

end TileXR.ReduceGrad
