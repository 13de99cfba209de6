import TileXR.Commit.Steps

/-!
# Flags and publications

A rank that finds the flag of a phase sees all that the peer wrote up to it (`flag_saw`); here the
magics of different calls have to differ in the half that the flag carries. A rank that publishes
appends a row that shows its inputs and then the flag, which keeps its log in order (`publish_inv`).
-/

namespace TileXR.Commit
open Lib List Plan

variable {own : Mailbox} {rs : RankState} {w : Write}
variable {sys : System} {s s' : State}

/-! ## Flags -/

theorem barrierValue_div (magic : ℤ) (ph : Phase) : barrierValue magic ph / 2 ^ 32 = (magic % 2 ^ 32).toNat := by
  have := ph.index_lt
  unfold barrierValue Phase.code
  omega

/-- A rank that finds the flag of a phase sees everything that came before it. -/
theorem flag_saw {src owner n : ℕ} {ph : Phase} (h : LogInv sys s src)
    (hfresh : ∀ w ∈ s.log src, sys.magic w.call % 2 ^ 32 = sys.magic n % 2 ^ 32 → w.call = n)
    (hflag : flagReady (sys.magic n) ph ((s.mailbox src owner).flag ph) = true) :
    Saw s src owner (4 * n + ph.index) := by
  simp only [flagReady, Bool.and_eq_true, decide_eq_true_eq] at hflag
  by_cases hex : ∃ w ∈ s.visible src owner, (w.write.flag? ph).isSome
  · obtain ⟨w, hvis, hval, -⟩ :=
      mailbox_last (g := (·.flag ph)) (Write.apply_flag ph) h.ordered hex
    have hw := visible_subset w hvis
    obtain ⟨hph, hv⟩ := (h.writes w hw).flag ph _ hval
    have hcall : w.call = n := by
      refine hfresh w hw ?_
      have hhigh := hflag.1
      rw [hv, barrierValue_div, barrierValue_div] at hhigh
      omega
    have hstamp : w.stamp = 4 * n + ph.index := by unfold Sent.stamp; rw [hcall, hph]
    have hisFlag : w.write.isFlag = true := by
      cases hwrite : w.write <;> rw [hwrite] at hval <;> first | rfl | cases hval
    refine ⟨hstamp ▸ h.stamps w hw, fun w' hw' hle => ?_⟩
    -- the flag is a fence: nothing of its stamp or before comes after it
    unfold State.visible at hvis ⊢
    split
    · exact hw'
    · rename_i hne
      rw [if_neg hne] at hvis
      exact mem_take_of_fence h.ordered hvis hw' fun hb => absurd (hb.2 hisFlag) (by omega)
  · -- the slot is still zero
    have hzero := mailbox_zero (g := (·.flag ph)) (Write.apply_flag ph)
      fun (w : Sent) (hw : w ∈ s.visible src owner) =>
        Option.not_isSome_iff_eq_none.1 fun hs => hex ⟨w, hw, hs⟩
    have hle := hflag.2
    rw [hzero] at hle
    exact absurd hle (by unfold barrierValue Phase.code; simp [Mailbox.zero])

/-! ## Publishing -/

section Publish
variable {r n : ℕ} {ph : Phase} {b : Mailbox} {lines : ℕ}

theorem mem_rowWrites : w ∈ rowWrites b lines ↔
    w = .line0 b.line0 ∨ w = .line1 b.line1 ∨ w = .globalRankId b.globalRankId ∨ w = .status b.status ∨
      ∃ line < lines, w = .tpe line b.tpe := by
  simp [rowWrites, eq_comm]

theorem rowWrites_ok (hb : Shows sys r n b) (hst : 0 ≤ b.status.getD 0 0 ∧
    (b.status.getD 0 0 = 0 → Backed s r ⟨n, ph, .status b.status⟩)) :
    ∀ w ∈ rowWrites b lines, WriteOk sys s r ⟨n, ph, w⟩ := by
  intro w hw
  rcases mem_rowWrites.1 hw with rfl | rfl | rfl | rfl | ⟨line, -, rfl⟩
  · constructor <;> intros <;> rename_i hv <;> cases hv
    exact hb.line0
  · constructor <;> intros <;> rename_i hv <;> cases hv
    exact hb.line1
  · constructor <;> intros <;> rename_i hv <;> cases hv
    exact hb.globalRankId
  · constructor <;> intros <;> rename_i hv <;> cases hv
    exact hst
  · constructor <;> intros <;> rename_i hv <;> try cases hv
    rename_i e he v
    simp only [Write.tpe?] at hv
    split at hv
    · rw [← Option.some.inj hv]; exact hb.tpe e he
    · cases hv

theorem flagWrite_ok : WriteOk sys s r ⟨n, ph, .flag ph (barrierValue (sys.magic n) ph)⟩ := by
  constructor <;> intros <;> rename_i hv <;> try cases hv
  rename_i ph' v
  simp only [Write.flag?] at hv
  split at hv
  next heq => rw [← Option.some.inj hv, heq]; exact ⟨rfl, rfl⟩
  next => cases hv

theorem div_lt_inputLines {e expertNum : ℕ} (h : e < expertNum) : e / tpeLineWords < inputLines expertNum := by
  unfold tpeLineWords inputLines
  omega

def publishedRow (sys : System) (r : ℕ) (own : Mailbox) (rs : RankState) : Phase → Mailbox
  | .data => inputRow sys r rs.call own
  | _ => { own with status := rs.status }

theorem publishWrites_eq (sys : System) (r : ℕ) (own : Mailbox) (rs : RankState) (ph : Phase) :
    ∃ row, publishWrites sys r own rs ph = row ++ [.flag ph (barrierValue (sys.magic rs.call) ph)] ∧
      (ph ≠ .ready → ∃ lines, row = rowWrites (publishedRow sys r own rs ph) lines ∧
        (ph = .data → lines = inputLines (sys.args r rs.call).expertNum.toNat)) ∧ (ph = .ready → row = []) := by
  cases ph with
  | data => exact ⟨_, rfl, fun _ => ⟨_, rfl, fun _ => rfl⟩, nofun⟩
  | ready => exact ⟨_, rfl, fun h => absurd rfl h, fun _ => rfl⟩
  | status => exact ⟨_, rfl, fun _ => ⟨_, rfl, nofun⟩, nofun⟩
  | consensus => exact ⟨_, rfl, fun _ => ⟨_, rfl, nofun⟩, nofun⟩

theorem publishWrites_ok (hrow : ph ≠ .ready → Shows sys r rs.call (publishedRow sys r own rs ph) ∧
      0 ≤ (publishedRow sys r own rs ph).status.getD 0 0 ∧ ((publishedRow sys r own rs ph).status.getD 0 0 = 0 →
      Backed s r ⟨rs.call, ph, .status (publishedRow sys r own rs ph).status⟩)) :
    ∀ w ∈ publishWrites sys r own rs ph, WriteOk sys s r ⟨rs.call, ph, w⟩ := by
  intro w hw
  obtain ⟨row, heq, hlines, hempty⟩ := publishWrites_eq sys r own rs ph
  rw [heq] at hw
  rcases mem_append.1 hw with hw | hw
  · by_cases hph : ph = .ready
    · rw [hempty hph] at hw; cases hw
    · obtain ⟨lines, rfl, -⟩ := hlines hph
      exact rowWrites_ok (hrow hph).1 (hrow hph).2 w hw
  · rw [mem_singleton.1 hw]; exact flagWrite_ok

theorem publishWrites_ordered : ((publishWrites sys r own rs ph).map (Sent.mk n ph)).Pairwise Sent.Before := by
  obtain ⟨row, heq, hlines, hempty⟩ := publishWrites_eq sys r own rs ph
  have hrow : ∀ w ∈ row, w.isFlag = false := by
    intro w hw
    by_cases hph : ph = .ready
    · rw [hempty hph] at hw; cases hw
    · obtain ⟨lines, rfl, -⟩ := hlines hph
      rcases mem_rowWrites.1 hw with rfl | rfl | rfl | rfl | ⟨line, -, rfl⟩ <;> rfl
  rw [heq, pairwise_map, pairwise_append]
  -- of one phase, only the flag, which comes last, is a fence
  refine ⟨?_, pairwise_singleton .., fun w hw w' _ =>
    ⟨Nat.le_refl _, fun hf => absurd hf (by simp [hrow w hw])⟩⟩
  refine pairwise_iff_forall_sublist.2 fun {w w'} hsub => ⟨Nat.le_refl _, fun hf => ?_⟩
  simp [hrow w (hsub.subset mem_cons_self)] at hf

theorem own_shows (h : LogInv sys s r) (hpc : (s.rank r).pc = .publish ph) (hph : ph ≠ .data) :
    Shows sys r (s.rank r).call (s.mailbox r r) := by
  have hclock := clock_publish hpc
  have hidx : 0 < ph.index := by cases ph <;> first | exact absurd rfl hph | decide
  have hlt := ph.index_lt
  refine h.shows (saw_self (by omega)) fun w hw hle => ?_
  have hstamp := h.stamps w hw
  exact Nat.le_antisymm (Sent.call_le (by omega)) (Sent.le_call hle)

/-- The status in the rank's own row when it starts a call: that of the consensus phase before. -/
theorem own_status (h : LogInv sys s r) (hpc : (s.rank r).pc = .publish .data) :
    0 ≤ (s.mailbox r r).status.getD 0 0 ∧ ((s.mailbox r r).status.getD 0 0 = 0 →
      ∀ m, (s.rank r).call = m + 1 → Cleared s r m) := by
  have hclock : s.clock r = 4 * (s.rank r).call := clock_publish hpc
  cases hcall : (s.rank r).call with
  | zero =>
    have hzero : (s.mailbox r r).status = Mailbox.zero.status :=
      mailbox_zero Write.apply_status fun w hw => by
        have := h.stamps w (visible_subset w hw)
        omega
    exact ⟨by rw [hzero]; decide, nofun⟩
  | succ m =>
    rw [hcall] at hclock
    obtain ⟨w, hw, hval, hle⟩ := h.read (n := m) .consensus Write.apply_status
      (saw_self (by rw [hclock]; show 4 * m + 3 < 4 * (m + 1); omega))
      (h.status m .consensus nofun (by rw [hclock]; show 4 * m + 3 < 4 * (m + 1); omega))
    have hstamp := h.stamps w hw
    obtain ⟨hc, hph⟩ : w.call = m ∧ w.phase = .consensus := Sent.stamp_inj (by
      simp only [Phase.index] at hle ⊢; omega)
    obtain ⟨hnonneg, hback⟩ := (h.writes w hw).status _ hval
    refine ⟨hnonneg, fun h0 m' hm' => ?_⟩
    obtain rfl : m = m' := Nat.succ.inj hm'
    have hcl := hback h0
    rw [Backed, hph, hc] at hcl
    exact hcl

theorem publish_writes (h : RankInv sys s r) (hpc : (s.rank r).pc = .publish ph) :
    ∀ w ∈ publishWrites sys r (s.mailbox r r) (s.rank r) ph,
      WriteOk sys (s.publish sys r ph) r ⟨(s.rank r).call, ph, w⟩ := by
  have hg : Grows s (s.publish sys r ph) := publish_grows hpc
  have hpcInv : Entering sys s r (s.rank r) ph := by
    have := h.pc; unfold PcInv at this; rw [hpc] at this; exact this
  refine publishWrites_ok fun hready => ?_
  cases ph with
  | ready => exact absurd rfl hready
  | data =>
    have hown := own_status h.log hpc
    refine ⟨⟨rfl, rfl, rfl, fun e he => if_pos he⟩, hown.1, fun h0 m hm => hg.cleared (hown.2 h0 m hm)⟩
  | status =>
    obtain ⟨h0, h1, hid, htpe⟩ := own_shows h.log hpc nofun
    exact ⟨⟨h0, h1, hid, htpe⟩, h.status.2, fun hz => hg.planOk (hpcInv.1 hz)⟩
  | consensus =>
    obtain ⟨h0, h1, hid, htpe⟩ := own_shows h.log hpc nofun
    refine ⟨⟨h0, h1, hid, htpe⟩, h.status.2, fun hz => ?_⟩
    refine ⟨⟨(s.rank r).call, .consensus, .status (s.rank r).status⟩, ?_, rfl, rfl, _, rfl, hz⟩
    rw [publish_log_self]
    refine mem_append_right _ (mem_map.2 ⟨_, ?_, rfl⟩)
    exact mem_append_left _ (mem_rowWrites.2 (.inr (.inr (.inr (.inl rfl)))))

theorem published_cases (hpc : (s.rank r).pc = .publish ph) {m : ℕ} (ph' : Phase)
    (h : 4 * m + ph'.index < (s.publish sys r ph).clock r) :
    4 * m + ph'.index < s.clock r ∨ m = (s.rank r).call ∧ ph' = ph := by
  rw [publish_clock] at h
  rw [clock_publish hpc]
  rcases Nat.lt_succ_iff_lt_or_eq.1 h with h | h
  · exact .inl h
  · exact .inr (Sent.stamp_inj (w := ⟨m, ph', .flag ph' 0⟩) h)

theorem wrote_publish {γ : Type} {sel : Write → Option γ} (hsel : (sel w).isSome)
    (hw : w ∈ publishWrites sys r (s.mailbox r r) (s.rank r) ph) :
    Wrote (s.publish sys r ph) r sel (s.rank r).call ph := by
  refine ⟨⟨(s.rank r).call, ph, w⟩, ?_, rfl, hsel⟩
  rw [publish_log_self]
  exact mem_append_right _ (mem_map.2 ⟨w, hw, rfl⟩)

theorem publish_log (h : RankInv sys s r) (hpc : (s.rank r).pc = .publish ph) :
    LogInv sys (s.publish sys r ph) r := by
  have hg : Grows s (s.publish sys r ph) := publish_grows hpc
  have hold := h.log
  have hclock := clock_publish hpc
  -- an input line that was written in an earlier call, or is written now
  have hinput : ∀ {γ : Type} {sel : Write → Option γ} (m : ℕ),
      4 * m < (s.publish sys r ph).clock r → (4 * m < s.clock r → Wrote s r sel m .data) →
      (m = (s.rank r).call → ph = .data → ∃ w ∈ rowWrites (publishedRow sys r (s.mailbox r r) (s.rank r)
        .data) (inputLines (sys.args r m).expertNum.toNat), (sel w).isSome) →
      Wrote (s.publish sys r ph) r sel m .data := by
    intro γ sel m hm hbefore hnow
    rcases published_cases hpc .data hm with hlt | ⟨rfl, rfl⟩
    · exact (hbefore hlt).mono hg
    · obtain ⟨w, hw, hsel⟩ := hnow rfl rfl
      exact wrote_publish hsel (mem_append_left _ hw)
  refine ⟨?_, ?_, ?_, fun m hm => hinput m hm (hold.line0 m) fun _ _ => ?_,
    fun m hm => hinput m hm (hold.line1 m) fun _ _ => ?_,
    fun m hm => hinput m hm (hold.globalRankId m) fun _ _ => ?_,
    fun m hm e he => hinput m hm (hold.tpe m · e he) fun _ _ => ?_, fun m ph' hready hm => ?_⟩
  · rw [publish_log_self, pairwise_append]
    refine ⟨hold.ordered, publishWrites_ordered, fun w hw w' hw' => ?_⟩
    obtain ⟨v, -, rfl⟩ := mem_map.1 hw'
    have hlt : w.stamp < 4 * (s.rank r).call + ph.index := hclock ▸ hold.stamps w hw
    exact ⟨hlt.le, fun _ => hlt⟩
  · rw [publish_log_self, publish_clock]
    intro w hw
    rcases mem_append.1 hw with hw | hw
    · have := hold.stamps w hw; omega
    · obtain ⟨v, -, rfl⟩ := mem_map.1 hw
      exact Nat.lt_succ_self _
  · rw [publish_log_self]
    intro w hw
    rcases mem_append.1 hw with hw | hw
    · exact (hold.writes w hw).mono hg
    · obtain ⟨v, hv, rfl⟩ := mem_map.1 hw
      exact publish_writes h hpc v hv
  · exact ⟨_, mem_rowWrites.2 (.inl rfl), rfl⟩
  · exact ⟨_, mem_rowWrites.2 (.inr (.inl rfl)), rfl⟩
  · exact ⟨_, mem_rowWrites.2 (.inr (.inr (.inl rfl))), rfl⟩
  · exact ⟨_, mem_rowWrites.2 (.inr (.inr (.inr (.inr ⟨_, div_lt_inputLines he, rfl⟩)))), by
      simp [Write.tpe?]⟩
  · rcases published_cases hpc ph' hm with hlt | ⟨rfl, rfl⟩
    · exact (hold.status m ph' hready hlt).mono hg
    · obtain ⟨row, heq, hlines, -⟩ :=
        publishWrites_eq sys r (s.mailbox r r) (s.rank r) ph'
      obtain ⟨lines, rfl, -⟩ := hlines hready
      refine wrote_publish
        (w := .status (publishedRow sys r (s.mailbox r r) (s.rank r) ph').status) rfl ?_
      rw [heq]
      exact mem_append_left _ (mem_rowWrites.2 (.inr (.inr (.inr (.inl rfl)))))

theorem publish_inv (h : RankInv sys s r) (hr : r < sys.rankSize) (hpc : (s.rank r).pc = .publish ph) :
    RankInv sys (s.publish sys r ph) r := by
  have hg : Grows s (s.publish sys r ph) := publish_grows hpc
  have hplans : ((s.publish sys r ph).rank r).plans = (s.rank r).plans := by rw [publish_rank_self]
  have hent : Entering sys s r (s.rank r) ph := by
    have := h.pc; unfold PcInv at this; rw [hpc] at this; exact this
  refine ⟨publish_log h hpc, ?_, ?_, ?_, ?_, ?_, ?_⟩
  · rw [publish_rank_self]
    exact fun n p hp => ⟨(h.plans n p hp).1, (h.plans n p hp).2.mono hg⟩
  · rintro n ⟨w, hw, hcall, hph, v, hv, h0⟩
    rw [publish_log_self] at hw
    rcases mem_append.1 hw with hw | hw
    · obtain ⟨hok, hclock⟩ := h.cleared n ⟨w, hw, hcall, hph, v, hv, h0⟩
      exact ⟨hg.planOk hok, fun x hx => (hclock x hx).trans (hg.clock x)⟩
    · -- the rank clears the call now: all ready flags are there
      obtain ⟨u, hu, rfl⟩ := mem_map.1 hw
      obtain rfl : (s.rank r).call = n := hcall
      obtain rfl : ph = .consensus := hph
      obtain rfl : u = .status v := hv
      have hstatus : v = (s.rank r).status := by
        rcases mem_append.1 hu with hu | hu
        · rcases mem_rowWrites.1 hu with hu | hu | hu | hu | ⟨line, -, hu⟩ <;> cases hu
          rfl
        · cases mem_singleton.1 hu
      obtain ⟨hok, -, hsaw⟩ := hent (hstatus ▸ h0)
      exact ⟨hg.planOk hok, fun x hx => (Nat.succ_le_of_lt (hsaw x hx).1).trans (hg.clock x)⟩
  · rw [publish_rank_self]
    exact fun n hn x hx => hg.cleared (h.commits n hn x hx)
  · rw [publish_rank_self]; exact h.cache
  · rw [publish_rank_self]; exact h.status
  · rw [publish_rank_self]
    refine ⟨?_, (Nat.zero_le r).trans_lt hr, fun j hj => absurd hj (Nat.not_lt_zero j)⟩
    have hent' := hent.mono hg (planOk_of_eq hplans)
    cases ph <;> exact hent'

end Publish

end TileXR.Commit
