import TileXR.Commit.Protocol
import Mathlib.Data.List.GetD

/-!
# What a rank sees of another one's writes

Every write of a log has a stamp, the call and the phase that published it, and a rank's clock counts
the phases it has published. A flag is the last write of its phase, so a rank that sees it sees
everything up to its stamp (`Saw`); each register of a mailbox then holds a write that is at least as
late (`mailbox_last`). All that is said here of the past stays true: `Grows` collects what a step can
do to logs, clocks and histories.
-/

namespace TileXR.Commit
open Lib List Plan
variable {w : Sent} {n r : ℕ}

/-! ## Stamps and clocks -/

def Sent.stamp (w : Sent) : ℕ := 4 * w.call + w.phase.index

theorem Phase.index_lt (ph : Phase) : ph.index < 4 := by cases ph <;> decide

theorem Sent.stamp_inj {ph : Phase} (h : w.stamp = 4 * n + ph.index) : w.call = n ∧ w.phase = ph := by
  have h1 := w.phase.index_lt
  have h2 := ph.index_lt
  unfold Sent.stamp at h
  have hidx : w.phase.index = ph.index := by omega
  refine ⟨by omega, ?_⟩
  cases hw : w.phase <;> cases ph <;> simp [Phase.index, hw] at hidx ⊢

theorem Sent.call_le (h : w.stamp < 4 * n + 4) : w.call ≤ n := by
  unfold Sent.stamp at h; omega

theorem Sent.le_call (h : 4 * n ≤ w.stamp) : n ≤ w.call := by
  have := w.phase.index_lt
  unfold Sent.stamp at h; omega

/-- How many phases of the call are published. -/
def Pc.published : Pc → ℕ
  | .publish ph => ph.index
  | .wait ph _ => ph.index + 1
  | .gather _ _ => 1
  | .plan => 1
  | .collect ph _ => ph.index + 1
  | .finish => 4

def RankState.clock (rs : RankState) : ℕ := 4 * rs.call + rs.pc.published

def State.clock (s : State) (r : ℕ) : ℕ := (s.rank r).clock

def Write.isFlag : Write → Bool
  | .flag _ _ => true
  | _ => false

def Sent.Before (w w' : Sent) : Prop :=
  w.stamp ≤ w'.stamp ∧ (w.write.isFlag = true → w.stamp < w'.stamp)

/-! ## Registers -/

section Registers
variable {s : State} {src owner : ℕ}

theorem visible_subset : ∀ w ∈ s.visible src owner, w ∈ s.log src := by
  intro w hw
  unfold State.visible at hw
  split at hw
  · exact hw
  · exact mem_of_mem_take hw

theorem visible_ordered (h : (s.log src).Pairwise Sent.Before) : (s.visible src owner).Pairwise Sent.Before := by
  unfold State.visible
  split
  · exact h
  · exact h.sublist (take_sublist _ _)

theorem visible_self : s.visible src src = s.log src := if_pos rfl

/-- A register of a mailbox holds the latest visible write to it. -/
theorem mailbox_last {γ : Type} {g : Mailbox → γ} {sel : Write → Option γ}
    (hget : ∀ b w, g (b.apply w) = (sel w).getD (g b)) (h : (s.log src).Pairwise Sent.Before)
    (hex : ∃ w ∈ s.visible src owner, (sel w.write).isSome) :
    ∃ w ∈ s.visible src owner, sel w.write = some (g (s.mailbox src owner)) ∧
      ∀ w' ∈ s.visible src owner, (sel w'.write).isSome → w'.stamp ≤ w.stamp := by
  have hsorted : (s.visible src owner).Pairwise (Sent.stamp · ≤ Sent.stamp ·) :=
    (visible_ordered h).imp fun hb => hb.1
  exact foldl_last (f := fun b (w : Sent) => b.apply w.write) (g := g) (p := fun w => sel w.write)
    Sent.stamp (fun b w => hget b w.write) Mailbox.zero hsorted hex

theorem mailbox_zero {γ : Type} {g : Mailbox → γ} {sel : Write → Option γ}
    (hget : ∀ b w, g (b.apply w) = (sel w).getD (g b)) (hnone : ∀ w ∈ s.visible src owner, sel w.write = none) :
    g (s.mailbox src owner) = g Mailbox.zero :=
  foldl_none (f := fun b (w : Sent) => b.apply w.write) (p := fun w : Sent => sel w.write)
    (fun b w => hget b w.write) Mailbox.zero hnone

end Registers

namespace Write

def line0? : Write → Option HeaderLine0
  | .line0 v => some v
  | _ => none

def line1? : Write → Option HeaderLine1
  | .line1 v => some v
  | _ => none

def globalRankId? : Write → Option ℤ
  | .globalRankId v => some v
  | _ => none

def status? : Write → Option (List ℤ)
  | .status v => some v
  | _ => none

def tpe? (e : ℕ) : Write → Option ℤ
  | .tpe line v => if e / tpeLineWords = line then some (v e) else none
  | _ => none

def flag? (ph : Phase) : Write → Option ℕ
  | .flag ph' v => if ph = ph' then some v else none
  | _ => none

theorem apply_line0 (b : Mailbox) (w : Write) : (b.apply w).line0 = w.line0?.getD b.line0 := by
  cases w <;> rfl

theorem apply_line1 (b : Mailbox) (w : Write) : (b.apply w).line1 = w.line1?.getD b.line1 := by
  cases w <;> rfl

theorem apply_globalRankId (b : Mailbox) (w : Write) :
    (b.apply w).globalRankId = w.globalRankId?.getD b.globalRankId := by
  cases w <;> rfl

theorem apply_status (b : Mailbox) (w : Write) : (b.apply w).status = w.status?.getD b.status := by
  cases w <;> rfl

theorem apply_tpe (e : ℕ) (b : Mailbox) (w : Write) : (b.apply w).tpe e = (w.tpe? e).getD (b.tpe e) := by
  cases w with
  | tpe line v => simp only [Mailbox.apply, tpe?]; split <;> rfl
  | _ => rfl

theorem apply_flag (ph : Phase) (b : Mailbox) (w : Write) : (b.apply w).flag ph = (w.flag? ph).getD (b.flag ph) := by
  cases w with
  | flag ph' v => simp only [Mailbox.apply, flag?, Function.update_apply]; split <;> rfl
  | _ => rfl

end Write

/-! ## Histories -/

/-- `owner` sees all that `src` has written up to stamp `τ`, which `src` has published. -/
def Saw (s : State) (src owner τ : ℕ) : Prop :=
  τ < s.clock src ∧ ∀ w ∈ s.log src, w.stamp ≤ τ → w ∈ s.visible src owner

def PlanOk (s : State) (r n : ℕ) : Prop := ∃ p, (s.rank r).plans n = some p ∧ p.status = 0

/-- The rank went into the consensus phase of call `n` with status `PLAN_OK`. -/
def Cleared (s : State) (r n : ℕ) : Prop :=
  ∃ w ∈ s.log r, w.call = n ∧ w.phase = .consensus ∧ ∃ v, w.write = .status v ∧ v.getD 0 0 = 0

/-- The rank has started another call after `n`, which it had not cleared. -/
def Skipped (s : State) (r n : ℕ) : Prop := 4 * n + 4 < s.clock r ∧ ¬ Cleared s r n

/-- What a step does to the logs and histories. -/
structure Grows (s s' : State) : Prop where
  clock : ∀ r, s.clock r ≤ s'.clock r
  log : ∀ r, ∃ new, s'.log r = s.log r ++ new ∧ ∀ w ∈ new, s.clock r ≤ w.stamp
  seen : ∀ src owner, s.seen src owner ≤ s'.seen src owner
  plans : ∀ r n p, (s.rank r).plans n = some p → (s'.rank r).plans n = some p

namespace Grows
variable {s s' : State} (h : Grows s s')
include h

theorem mem_log (hw : w ∈ s.log r) : w ∈ s'.log r := by
  obtain ⟨new, heq, -⟩ := h.log r
  rw [heq]; exact mem_append_left _ hw

theorem mem_visible {src owner : ℕ} (hw : w ∈ s.visible src owner) : w ∈ s'.visible src owner := by
  obtain ⟨new, heq, -⟩ := h.log src
  unfold State.visible at hw ⊢
  split at hw
  · rename_i he
    rw [if_pos he, heq]; exact mem_append_left _ hw
  · rename_i hne
    rw [if_neg hne, heq, take_append]
    exact mem_append_left _ ((take_sublist_take_left (h.seen src owner)).subset hw)

theorem saw {src owner τ : ℕ} (hs : Saw s src owner τ) : Saw s' src owner τ := by
  refine ⟨hs.1.trans_le (h.clock src), fun w hw hle => ?_⟩
  obtain ⟨new, heq, hnew⟩ := h.log src
  rw [heq] at hw
  rcases mem_append.1 hw with hw | hw
  · exact h.mem_visible (hs.2 w hw hle)
  · have := hnew w hw
    have := hs.1
    omega

theorem planOk (hp : PlanOk s r n) : PlanOk s' r n := by
  obtain ⟨p, hp, h0⟩ := hp
  exact ⟨p, h.plans r n p hp, h0⟩

theorem cleared (hc : Cleared s r n) : Cleared s' r n := by
  obtain ⟨w, hw, hrest⟩ := hc
  exact ⟨w, h.mem_log hw, hrest⟩

theorem skipped (hs : Skipped s r n) : Skipped s' r n := by
  refine ⟨hs.1.trans_le (h.clock r), fun hc => hs.2 ?_⟩
  obtain ⟨w, hw, hcall, hph, hv⟩ := hc
  obtain ⟨new, heq, hnew⟩ := h.log r
  rw [heq] at hw
  rcases mem_append.1 hw with hw | hw
  · exact ⟨w, hw, hcall, hph, hv⟩
  · have := hnew w hw
    have := hs.1
    simp only [Sent.stamp, hcall, hph, Phase.index] at *
    omega

end Grows

end TileXR.Commit
