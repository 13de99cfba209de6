import TileXR.Commit.Publish

/-!
# Every step keeps the invariant

`RankInv` of the rank that moves, step by step. A status word 0 behind the consensus barrier is that of
a peer which cleared the call, even if the peer is in a later call by then (`cleared_of_status`); a row
gathered behind the data barrier is that of the call, or the peer never clears it
(`shows_or_skipped`).
-/

namespace TileXR.Commit
open List
open Function (update update_self update_of_ne)
open Lib Plan

variable {sys : System} {s s' : State}

/-! ## Waiting -/

/-- The magics of the calls the ranks have come to differ in the half that the flags carry. -/
def FreshMagics (sys : System) (s : State) : Prop :=
  ∀ m n, m < n → (∃ r < sys.rankSize, n ≤ (s.rank r).call) →
    sys.magic m % 2 ^ 32 ≠ sys.magic n % 2 ^ 32

theorem FreshMagics.of_moves (hm : Moves sys s s') (h : FreshMagics sys s') : FreshMagics sys s := by
  rintro m n hlt ⟨r, hr, hn⟩
  exact h m n hlt ⟨r, hr, hn.trans (hm.call_le r)⟩

theorem FreshMagics.call_eq {src r : ℕ} (h : FreshMagics sys s) (hlog : LogInv sys s src)
    (hsrc : src < sys.rankSize) (hr : r < sys.rankSize) : ∀ w ∈ s.log src,
    sys.magic w.call % 2 ^ 32 = sys.magic (s.rank r).call % 2 ^ 32 → w.call = (s.rank r).call := by
  intro w hw heq
  have hle : w.call ≤ (s.rank src).call := by
    have hstamp := hlog.stamps w hw
    have := (s.rank src).pc.published_le
    unfold State.clock RankState.clock at hstamp
    exact Sent.call_le (by omega)
  rcases Nat.lt_trichotomy w.call (s.rank r).call with hlt | heq' | hlt
  · exact absurd heq (h _ _ hlt ⟨r, hr, Nat.le_refl _⟩)
  · exact heq'
  · exact absurd heq.symm (h _ _ hlt ⟨src, hsrc, hle⟩)

/-- The ranks that a barrier waits for, one after the other, are all ranks. -/
theorem offset_surj {R r x : ℕ} (hx : x < R) (hr : r < R) : ∃ j < R, (r + j) % R = x := by
  rcases Nat.lt_or_ge x r with h | h
  · exact ⟨x + R - r, by omega, by rw [show r + (x + R - r) = x + R by omega, Nat.add_mod_right,
      Nat.mod_eq_of_lt hx]⟩
  · exact ⟨x - r, by omega, by rw [show r + (x - r) = x by omega, Nat.mod_eq_of_lt hx]⟩

section Quiet
variable {r : ℕ} {rs : RankState}

/-- The rank can go on to `rs` without publishing. -/
structure Advances (sys : System) (s : State) (r : ℕ) (rs : RankState) : Prop where
  grows : Grows s (s.setRank r rs)
  inv : RankInv sys (s.setRank r rs) r

theorem RankInv.setRank (h : RankInv sys s r) (hclock : rs.clock = (s.rank r).clock) (hg : Grows s (s.setRank r rs))
    (hplans : ∀ n p, rs.plans n = some p → n ≤ rs.call ∧ PlanInv sys (s.setRank r rs) r n p)
    (hcommits : ∀ n ∈ rs.commits, ∀ x < sys.rankSize, Cleared (s.setRank r rs) x n)
    (hcache : rs.cache.valid = true → ∀ d, ∀ x ∈ rs.cache.order d, x < sys.rankSize)
    (hstatus : rs.status ≠ [] ∧ 0 ≤ rs.status.getD 0 0) (hpc : PcInv sys (s.setRank r rs) r rs) :
    Advances sys s r rs where
  grows := hg
  inv := {
    log := h.log.mono hg rfl (by unfold State.clock; rw [setRank_self, hclock])
    plans := by rw [setRank_self]; exact hplans
    cleared := fun n hc =>
      ⟨hg.planOk (h.cleared n hc).1, fun x hx => ((h.cleared n hc).2 x hx).trans (hg.clock x)⟩
    commits := by rw [setRank_self]; exact hcommits
    cache := by rw [setRank_self]; exact hcache
    status := by rw [setRank_self]; exact hstatus
    pc := by rw [setRank_self]; exact hpc }

/-- A rank that moves on within its call: only its place and its status have to be looked at. -/
theorem RankInv.keep (h : RankInv sys s r) (hcall : rs.call = (s.rank r).call)
    (hpublished : rs.pc.published = (s.rank r).pc.published) (hplans : rs.plans = (s.rank r).plans)
    (hcommits : rs.commits = (s.rank r).commits) (hcache : rs.cache = (s.rank r).cache)
    (hstatus : rs.status ≠ [] ∧ 0 ≤ rs.status.getD 0 0)
    (hpc : Grows s (s.setRank r rs) → (∀ n, PlanOk (s.setRank r rs) r n → PlanOk s r n) →
      PcInv sys (s.setRank r rs) r rs) : Advances sys s r rs := by
  have hclock : rs.clock = (s.rank r).clock := by unfold RankState.clock; rw [hcall, hpublished]
  have hg : Grows s (s.setRank r rs) := setRank_grows hclock.ge (by rw [hplans]; exact fun _ _ h => h)
  refine h.setRank hclock hg ?_ ?_ (by rw [hcache]; exact h.cache) hstatus
    (hpc hg fun n => planOk_of_eq (by rw [setRank_self, hplans]))
  · rw [hplans, hcall]
    exact fun n p hp => ⟨(h.plans n p hp).1, (h.plans n p hp).2.mono hg⟩
  · rw [hcommits]
    exact fun n hn x hx => hg.cleared (h.commits n hn x hx)

/-- A flag is there: the rank waits for the next one, or is past the barrier. -/
theorem ready_inv {ph : Phase} {offset : ℕ} (h : RankInv sys s r) (hr : r < sys.rankSize)
    (hpc : (s.rank r).pc = .wait ph offset)
    (hsaw : Saw s ((r + offset) % sys.rankSize) r (4 * (s.rank r).call + ph.index)) :
    Advances sys s r { s.rank r with
      pc := if offset + 1 < sys.rankSize then .wait ph (offset + 1) else passed ph } := by
  have hinv := h.pc
  unfold PcInv at hinv
  rw [hpc] at hinv
  obtain ⟨hent, hlt, hbefore⟩ := hinv
  have hall : ∀ j < offset + 1, Saw s ((r + j) % sys.rankSize) r (4 * (s.rank r).call + ph.index) := by
    intro j hj
    rcases Nat.lt_succ_iff_lt_or_eq.1 hj with hj | rfl
    · exact hbefore j hj
    · exact hsaw
  by_cases hnext : offset + 1 < sys.rankSize
  · simp only [if_pos hnext]
    refine h.keep rfl (by rw [hpc]; rfl) rfl rfl rfl h.status fun hg hp => ?_
    refine ⟨?_, hnext, fun j hj => hg.saw (hall j hj)⟩
    have hent' := hent.mono hg (hp _)
    cases ph <;> exact hent'
  · simp only [if_neg hnext]
    have hevery : AllSaw sys s r (s.rank r).call ph := by
      intro x hx
      obtain ⟨j, hj, rfl⟩ := offset_surj hx hr
      exact hall j (by omega)
    have hpos : 0 < sys.rankSize := (Nat.zero_le r).trans_lt hr
    refine h.keep rfl (by rw [hpc]; cases ph <;> rfl) rfl rfl rfl h.status fun hg hp => ?_
    have hevery' := hevery.mono hg
    cases ph with
    | data =>
      exact ⟨hent, hevery', hpos, Nat.lt_of_lt_of_le (by decide) (Nat.le_add_right 3 _),
        fun x hx => absurd hx (Nat.not_lt_zero x), .inr .zero⟩
    | status =>
      exact ⟨.inl rfl, fun _ hok => hent.2 (hp _ hok), hevery', hpos, fun x hx => absurd hx (Nat.not_lt_zero x)⟩
    | ready => exact fun h0 => ⟨hg.planOk (hent h0).1, (hent h0).2, hevery'⟩
    | consensus =>
      exact ⟨.inr rfl, nofun, hevery', hpos, fun x hx => absurd hx (Nat.not_lt_zero x)⟩

theorem debugStatus_pos (sys : System) (r peer : ℕ) (ph : Phase) :
    0 < (debugStatus sys r (kPlannerStatusTimeoutBase + peer) ph peer).getD 0 0 := by
  show 0 < kPlannerStatusTimeoutBase + (peer : ℤ)
  unfold kPlannerStatusTimeoutBase
  omega

theorem timeout_inv {ph : Phase} {offset : ℕ} (h : RankInv sys s r) (hpc : (s.rank r).pc = .wait ph offset)
    (peer : ℕ) : Advances sys s r (timedOut sys r (s.rank r) ph peer) := by
  have hinv := h.pc
  unfold PcInv at hinv
  rw [hpc] at hinv
  obtain ⟨hent, -, -⟩ := hinv
  have hpos := debugStatus_pos sys r peer ph
  -- an error that is already reported stays; the debug status is never 0
  have hguarded : ((s.rank r).status.getD 0 0 = 0 → (s.rank r).status.getD 1 0 ≠ kBarrierDebugBuildTag) →
      (if (s.rank r).status.getD 1 0 ≠ kBarrierDebugBuildTag then
        debugStatus sys r (kPlannerStatusTimeoutBase + peer) ph peer else (s.rank r).status) ≠ [] ∧
      0 < (if (s.rank r).status.getD 1 0 ≠ kBarrierDebugBuildTag then
        debugStatus sys r (kPlannerStatusTimeoutBase + peer) ph peer
        else (s.rank r).status).getD 0 0 := by
    intro htag
    split
    · exact ⟨nofun, hpos⟩
    · rename_i hmarked
      have hne : (s.rank r).status.getD 0 0 ≠ 0 := fun h0 => hmarked (htag h0)
      exact ⟨h.status.1, lt_of_le_of_ne h.status.2 hne.symm⟩
  cases ph with
  | data =>
    refine h.keep rfl (by rw [hpc]; rfl) rfl rfl rfl ⟨nofun, hpos.le⟩ fun hg hp => ?_
    refine ⟨fun h0 => absurd h0 hpos.ne', fun hok => ?_⟩
    obtain ⟨p, hsome, -⟩ := hp _ hok
    exact absurd (hent.symm.trans hsome) nofun
  | status =>
    exact h.keep rfl (by rw [hpc]; rfl) rfl rfl rfl ⟨nofun, hpos.le⟩ fun hg hp h0 => absurd h0 hpos.ne'
  | ready =>
    obtain ⟨hne, hpos'⟩ := hguarded fun h0 => (hent h0).2
    exact h.keep rfl (by rw [hpc]; rfl) rfl rfl rfl ⟨hne, hpos'.le⟩ fun hg hp h0 => absurd h0 hpos'.ne'
  | consensus =>
    obtain ⟨hne, hpos'⟩ := hguarded fun h0 => (hent h0).2.1
    exact h.keep rfl (by rw [hpc]; rfl) rfl rfl rfl ⟨hne, hpos'.le⟩ fun hg hp h0 => absurd h0 hpos'.ne'

/-- While a rank gathers, a peer's mailbox shows the inputs of the call or the peer has skipped it. -/
theorem shows_or_skipped {src n : ℕ} (h : RankInv sys s src) (hr : r < sys.rankSize) (hclock : s.clock r < 4 * n + 3)
    (hsaw : Saw s src r (4 * n)) : Skipped s src n ∨ Shows sys src n (s.mailbox src r) := by
  have hnot : ¬ Cleared s src n := fun hc => absurd ((h.cleared n hc).2 r hr) (by omega)
  exact (h.log.call_or_skipped hnot).symm.imp id (h.log.shows hsaw)

theorem gather_inv {src piece : ℕ} (hall : ∀ x < sys.rankSize, RankInv sys s x) (hr : r < sys.rankSize)
    (hpc : (s.rank r).pc = .gather src piece) : Advances sys s r (gathering sys s r src piece) := by
  have h := hall r hr
  have hinv := h.pc
  unfold PcInv at hinv
  rw [hpc] at hinv
  obtain ⟨hplan, hsaw, hsrc, hpiece, hrows, hrow⟩ := hinv
  have hclock : s.clock r < 4 * (s.rank r).call + 3 := by
    unfold State.clock RankState.clock; rw [hpc]; show _ + 1 < _ + 3; omega
  unfold gathering
  set expertNum := (sys.args r (s.rank r).call).expertNum.toNat with hE
  -- the row with the next piece
  have hnew : Row sys src (s.rank r).call s expertNum (piece + 1)
      (gatherPiece expertNum piece (s.mailbox src r) ((s.rank r).gathered src)) := by
    rcases hrow with hskip | hrow
    · exact .inl hskip
    · exact (shows_or_skipped (hall src hsrc) hr hclock (hsaw src hsrc)).imp id
        fun hshow => hrow.piece hshow hpiece
  have hrows' : ∀ x < src, Row sys x (s.rank r).call s expertNum (rowPieces expertNum)
      (update (s.rank r).gathered src
        (gatherPiece expertNum piece (s.mailbox src r) ((s.rank r).gathered src)) x) := by
    intro x hx
    rw [update_of_ne hx.ne]
    exact hrows x hx
  by_cases hmore : piece < 2 + gatherLines expertNum
  · simp only [if_pos hmore]
    refine h.keep rfl (by rw [hpc]; rfl) rfl rfl rfl h.status fun hg _ => ?_
    refine ⟨hplan, hsaw.mono hg, hsrc, ?_, fun x hx => (hrows' x hx).mono hg, ?_⟩
    · show piece + 1 < 3 + gatherLines expertNum
      omega
    · dsimp only
      rw [update_self]
      exact hnew.mono hg
  · have hfull : piece + 1 = rowPieces expertNum := by unfold rowPieces at hpiece ⊢; omega
    have hdone : ∀ x < src + 1, Row sys x (s.rank r).call s expertNum (rowPieces expertNum)
        (update (s.rank r).gathered src
          (gatherPiece expertNum piece (s.mailbox src r) ((s.rank r).gathered src)) x) := by
      intro x hx
      rcases Nat.lt_succ_iff_lt_or_eq.1 hx with hx | rfl
      · exact hrows' x hx
      · rw [update_self, ← hfull]; exact hnew
    simp only [if_neg hmore]
    by_cases hnext : src + 1 < sys.rankSize
    · simp only [if_pos hnext]
      refine h.keep rfl (by rw [hpc]; rfl) rfl rfl rfl h.status fun hg _ => ?_
      exact ⟨hplan, hsaw.mono hg, hnext, Nat.lt_of_lt_of_le (by decide) (Nat.le_add_right 3 _),
        fun x hx => (hdone x hx).mono hg, .inr .zero⟩
    · simp only [if_neg hnext]
      refine h.keep rfl (by rw [hpc]; rfl) rfl rfl rfl h.status fun hg _ => ?_
      exact ⟨hplan, hsaw.mono hg, fun x hx => (hdone x (by omega)).mono hg⟩

theorem RankInv.planned {q : Planned} (h : RankInv sys s r) (hpc : (s.rank r).pc = .plan)
    (hpc' : rs.pc = .publish .status) (hcall : rs.call = (s.rank r).call)
    (hplans : rs.plans = update (s.rank r).plans (s.rank r).call (some q))
    (hcommits : rs.commits = (s.rank r).commits)
    (hcache : rs.cache.valid = true → ∀ d, ∀ x ∈ rs.cache.order d, x < sys.rankSize)
    (hstatus : rs.status.getD 0 0 = q.status) (hne : rs.status ≠ []) (hnonneg : 0 ≤ q.status)
    (htag : q.status = 0 → rs.status.getD 1 0 ≠ kBarrierDebugBuildTag)
    (hq : PlanInv sys s r (s.rank r).call q) : Advances sys s r rs := by
  have hnone : (s.rank r).plans (s.rank r).call = none := by
    have hinv := h.pc
    unfold PcInv at hinv
    rw [hpc] at hinv
    exact hinv.1
  have hclock : rs.clock = (s.rank r).clock := by
    unfold RankState.clock; rw [hpc, hpc', hcall]; rfl
  have hg : Grows s (s.setRank r rs) := by
    refine setRank_grows hclock.ge fun n p hp => ?_
    have hn : n ≠ (s.rank r).call := by rintro rfl; rw [hnone] at hp; cases hp
    rw [hplans, update_of_ne hn]
    exact hp
  refine h.setRank hclock hg ?_ ?_ hcache ⟨hne, hstatus ▸ hnonneg⟩ ?_
  · rw [hplans, hcall]
    intro n p hp
    rcases eq_or_ne n (s.rank r).call with rfl | hn
    · rw [update_self] at hp
      exact ⟨Nat.le_refl _, Option.some.inj hp ▸ hq.mono hg⟩
    · rw [update_of_ne hn] at hp
      exact ⟨(h.plans n p hp).1, (h.plans n p hp).2.mono hg⟩
  · rw [hcommits]
    exact fun n hn x hx => hg.cleared (h.commits n hn x hx)
  · have hrecord : ((s.setRank r rs).rank r).plans rs.call = some q := by
      rw [setRank_self, hplans, hcall, update_self]
    unfold PcInv
    rw [hpc']
    refine ⟨fun h0 => ⟨q, hrecord, hstatus ▸ h0⟩, ?_⟩
    rintro ⟨p, hp, h0⟩
    rw [hrecord] at hp
    exact htag (Option.some.inj hp ▸ h0)

theorem plan_inv (h : RankInv sys s r) (hpc : (s.rank r).pc = .plan) :
    Advances sys s r (planStep sys r (s.rank r)) := by
  have hinv := h.pc
  unfold PcInv at hinv
  rw [hpc] at hinv
  obtain ⟨-, hsaw, hrows⟩ := hinv
  unfold planStep
  split
  next hmatch =>
    dsimp only
    set x := planInput sys r (s.rank r).call (s.rank r).gathered
    set ws := planWorkspace sys r (s.rank r).call (s.rank r).cache
    have haff : ws.affinityOrderValid = true → ∀ d, ∀ y ∈ ws.affinityOrder d, y < x.rankSize.toNat :=
      fun hv => h.cache ((Bool.and_eq_true _ _).mp hv).1
    obtain ⟨rounds, rest, hwords, htag⟩ :=
      runPlanAlgorithm_words (sys.args r (s.rank r).call).ptr haff
    refine h.planned hpc rfl rfl rfl rfl ?_ ?_ ?_ ?_ ?_ fun _ => ⟨hmatch, fun y hy => ⟨(hsaw y hy).1, hrows y hy⟩⟩
    · dsimp only
      split
      · -- the order just built is of ranks
        rename_i hbuilt
        simp only [Bool.and_eq_true, Bool.not_eq_true'] at hbuilt
        intro _ d y hy
        change y ∈ (if ws.affinityOrderValid then ws.affinityOrder else
          buildAffinity (ctxOf x (sys.args r (s.rank r).call).ptr ws).toParams) d at hy
        rw [hbuilt.2] at hy
        exact mem_buildAffinity.1 hy
      · exact h.cache
    · dsimp only
      rw [hwords]
      rfl
    · dsimp only
      rw [hwords]
      exact cons_ne_nil _ _
    · exact code_nonneg _
    · intro h0
      dsimp only
      rw [hwords]
      exact htag (code_eq_zero h0)
  next =>
    have hbad : ¬ PlanStatus.errorConfigMismatch.code = 0 := by decide
    exact h.planned hpc rfl rfl rfl rfl h.cache rfl (cons_ne_nil _ _)
      (code_nonneg .errorConfigMismatch) (fun h0 => absurd h0 hbad) fun h0 => absurd h0 hbad

/-! ## Statuses -/

theorem status_nonneg {src n : ℕ} {ph : Phase} (h : LogInv sys s src) (hph : ph ≠ .ready)
    (hsaw : Saw s src r (4 * n + ph.index)) : 0 ≤ (s.mailbox src r).status.getD 0 0 := by
  obtain ⟨w, hw, hval, -⟩ := h.read ph Write.apply_status hsaw (h.status n ph hph hsaw.1)
  exact ((h.writes w hw).status _ hval).1

/-- The rank's own status behind the status barrier is that of its plan. -/
theorem planOk_of_status {n : ℕ} (h : LogInv sys s r) (hclock : s.clock r = 4 * n + 2)
    (h0 : (s.mailbox r r).status.getD 0 0 = 0) : PlanOk s r n := by
  have hlt : 4 * n + Phase.index .status < s.clock r := by
    rw [hclock]; show 4 * n + 1 < 4 * n + 2; omega
  obtain ⟨w, hw, hval, hle⟩ :=
    h.read .status Write.apply_status (saw_self hlt) (h.status n .status nofun hlt)
  have hstamp := h.stamps w hw
  obtain ⟨hcall, hph⟩ : w.call = n ∧ w.phase = .status := Sent.stamp_inj (by
    simp only [Phase.index] at hle ⊢; omega)
  have hback := ((h.writes w hw).status _ hval).2 h0
  rw [Backed, hph, hcall] at hback
  exact hback

/-- A status 0 behind the consensus barrier comes from a peer that cleared the call. A peer in a later
call cannot have cleared or planned that one, since this rank has not published its inputs for it. -/
theorem cleared_of_status {src n : ℕ} (h : RankInv sys s src) (hr : r < sys.rankSize)
    (hclock : s.clock r = 4 * n + 4) (hsaw : Saw s src r (4 * n + Phase.index .consensus))
    (h0 : (s.mailbox src r).status.getD 0 0 = 0) : Cleared s src n := by
  have hplan : ∀ m, PlanOk s src m → m ≤ n := by
    rintro m ⟨p, hp, hz⟩
    have := (((h.plans m p hp).2 hz).2 r hr).1
    omega
  have hclear : ∀ m, n ≤ m → Cleared s src m → Cleared s src n := by
    intro m hle hc
    obtain rfl : m = n := Nat.le_antisymm (hplan m (h.cleared m hc).1) hle
    exact hc
  obtain ⟨w, hw, hval, hle⟩ :=
    h.log.read .consensus Write.apply_status hsaw (h.log.status n .consensus nofun hsaw.1)
  have hback := ((h.log.writes w hw).status _ hval).2 h0
  unfold Backed at hback
  simp only [Sent.stamp, Phase.index] at hle
  cases hph : w.phase with
  | data =>
    rw [hph] at hback hle
    dsimp only at hle
    exact hclear (w.call - 1) (by omega) (hback _ (by omega))
  | status =>
    rw [hph] at hback hle
    have := hplan _ hback
    dsimp only at hle
    omega
  | ready => rw [hph] at hback; exact hback.elim
  | consensus =>
    rw [hph] at hback hle
    dsimp only at hle
    exact hclear _ (by omega) hback

theorem reduceGlobalPlanStatus_spec {n : ℕ} {statuses : ℕ → List ℤ} (h : ∀ x < n, 0 ≤ (statuses x).getD 0 0) :
    0 ≤ reduceGlobalPlanStatus n statuses ∧
      (reduceGlobalPlanStatus n statuses = 0 → ∀ x < n, (statuses x).getD 0 0 = 0) := by
  induction n with
  | zero => exact ⟨Int.le_refl 0, fun _ x hx => absurd hx (Nat.not_lt_zero x)⟩
  | succ n ih =>
    obtain ⟨hnonneg, hzero⟩ := ih fun x hx => h x (Nat.lt_succ_of_lt hx)
    have hn := h n (Nat.lt_succ_self n)
    have hsucc : reduceGlobalPlanStatus (n + 1) statuses =
        if ((statuses n).getD 0 0 ≥ 4 ∧ (reduceGlobalPlanStatus n statuses < 4 ∨
            (statuses n).getD 0 0 > reduceGlobalPlanStatus n statuses)) ∨
          ((statuses n).getD 0 0 > reduceGlobalPlanStatus n statuses ∧
            reduceGlobalPlanStatus n statuses < 4) then (statuses n).getD 0 0
        else reduceGlobalPlanStatus n statuses := by
      unfold reduceGlobalPlanStatus
      rw [range_succ, foldl_append]
      rfl
    rw [hsucc]
    generalize reduceGlobalPlanStatus n statuses = result at *
    refine ⟨by split <;> omega, fun h0 => ?_⟩
    have hboth : result = 0 ∧ (statuses n).getD 0 0 = 0 := by
      split at h0 <;> constructor <;> omega
    intro x hx
    rcases Nat.lt_succ_iff_lt_or_eq.1 hx with hx | rfl
    · exact hzero hboth.1 x hx
    · exact hboth.2

section Collect
variable {ph : Phase} {src : ℕ}

section
variable (hall : ∀ x < sys.rankSize, RankInv sys s x) (hr : r < sys.rankSize)
  (hpc : (s.rank r).pc = .collect ph src)
include hall hr hpc

theorem collect_statuses : ∀ x < src + 1, 0 ≤ (update (s.rank r).statuses src (s.mailbox src r).status x).getD 0 0 ∧
        ((update (s.rank r).statuses src (s.mailbox src r).status x).getD 0 0 = 0 →
          Vouched s r (s.rank r).call ph x) := by
  have hinv := (hall r hr).pc
  unfold PcInv at hinv
  rw [hpc] at hinv
  obtain ⟨hph, -, hsaw, hsrc, hbefore⟩ := hinv
  have hclock : s.clock r = 4 * (s.rank r).call + (ph.index + 1) := by
    unfold State.clock RankState.clock; rw [hpc]; rfl
  intro x hx
  rcases Nat.lt_succ_iff_lt_or_eq.1 hx with hx | rfl
  · rw [update_of_ne hx.ne]; exact hbefore x hx
  rw [update_self]
  have hready : ph ≠ .ready := by rintro rfl; rcases hph with h | h <;> cases h
  refine ⟨status_nonneg (hall x hsrc).log hready (hsaw x hsrc), fun h0 => ?_⟩
  rcases hph with rfl | rfl
  · rintro rfl
    exact planOk_of_status (hall x hsrc).log hclock h0
  · exact cleared_of_status (hall x hsrc) hr hclock (hsaw x hsrc) h0

theorem collect_inv (hlt : src + 1 < sys.rankSize) :
    Advances sys s r { s.rank r with
      statuses := update (s.rank r).statuses src (s.mailbox src r).status
      pc := .collect ph (src + 1) } := by
  have h := hall r hr
  have hst := collect_statuses hall hr hpc
  have hinv := h.pc
  unfold PcInv at hinv
  rw [hpc] at hinv
  obtain ⟨hph, htag, hsaw, -, -⟩ := hinv
  refine h.keep rfl (by rw [hpc]; rfl) rfl rfl rfl h.status fun hg hp => ?_
  refine ⟨hph, fun h1 h2 => htag h1 (hp _ h2), hsaw.mono hg, hlt, fun x hx => ⟨(hst x hx).1, fun h0 => ?_⟩⟩
  have hv := (hst x hx).2 h0
  rcases hph with rfl | rfl
  · exact fun he => hg.planOk (hv he)
  · exact hg.cleared hv

theorem reduce_inv (hlast : ¬ src + 1 < sys.rankSize) :
    Advances sys s r { s.rank r with
      statuses := update (s.rank r).statuses src (s.mailbox src r).status
      status := (s.rank r).status.set 0 (reduceGlobalPlanStatus sys.rankSize
        (update (s.rank r).statuses src (s.mailbox src r).status))
      pc := if ph = .status then .publish .ready else .finish } := by
  have h := hall r hr
  have hst := collect_statuses hall hr hpc
  have hinv := h.pc
  unfold PcInv at hinv
  rw [hpc] at hinv
  obtain ⟨hph, htag, -, -, -⟩ := hinv
  generalize update (s.rank r).statuses src (s.mailbox src r).status = statuses at hst ⊢
  obtain ⟨hnonneg, hzero⟩ := reduceGlobalPlanStatus_spec fun x (hx : x < sys.rankSize) =>
    (hst x (by omega)).1
  generalize reduceGlobalPlanStatus sys.rankSize statuses = result at *
  obtain ⟨word, rest, hwords⟩ := exists_cons_of_ne_nil h.status.1
  rw [hwords] at htag ⊢
  have hvouched : result = 0 → ∀ x < sys.rankSize, Vouched s r (s.rank r).call ph x :=
    fun h0 x hx => (hst x (by omega)).2 (hzero h0 x hx)
  rcases hph with rfl | rfl
  · refine h.keep rfl (by rw [hpc]; rfl) rfl rfl rfl ⟨nofun, hnonneg⟩ fun hg hp => ?_
    intro h0
    have hok := hvouched h0 r hr rfl
    exact ⟨hg.planOk hok, htag rfl hok⟩
  · refine h.keep rfl (by rw [hpc]; rfl) rfl rfl rfl ⟨nofun, hnonneg⟩ fun hg hp => ?_
    exact fun h0 x hx => hg.cleared (hvouched h0 x hx)

end

end Collect

/-! ## Whole steps -/

theorem finish_inv {epoch : ℕ} {commits : List ℕ} (h : RankInv sys s r)
    (hpc : (s.rank r).pc = .finish)
    (hcommits : ∀ n ∈ commits, ∀ x < sys.rankSize, Cleared s x n) :
    Advances sys s r { s.rank r with
      call := (s.rank r).call + 1, pc := .publish .data, committedEpoch := epoch
      commits := commits } := by
  have hclock : ∀ rs : RankState, rs.call = (s.rank r).call + 1 → rs.pc = .publish .data →
      rs.clock = (s.rank r).clock := by
    intro rs hcall hpc'
    unfold RankState.clock
    rw [hcall, hpc', hpc]
    show 4 * ((s.rank r).call + 1) + 0 = 4 * (s.rank r).call + 4
    omega
  have hg : Grows s (s.setRank r { s.rank r with
      call := (s.rank r).call + 1, pc := .publish .data, committedEpoch := epoch
      commits := commits }) := setRank_grows (hclock _ rfl rfl).ge fun _ _ hp => hp
  refine h.setRank (hclock _ rfl rfl) hg
    (fun n p hp => ⟨Nat.le_succ_of_le (h.plans n p hp).1, (h.plans n p hp).2.mono hg⟩)
    (fun n hn x hx => hg.cleared (hcommits n hn x hx)) h.cache h.status ?_
  -- nothing is planned yet in the next call
  show (s.rank r).plans ((s.rank r).call + 1) = none
  cases hsome : (s.rank r).plans ((s.rank r).call + 1) with
  | none => rfl
  | some p => exact absurd (h.plans _ p hsome).1 (Nat.not_succ_le_self _)

theorem quiet_inv (hall : ∀ x < sys.rankSize, RankInv sys s x) (hfresh : FreshMagics sys s)
    (hr : r < sys.rankSize) (hq : Quiet sys s r rs) : Advances sys s r rs := by
  have h := hall r hr
  cases hq with
  | @ready ph offset hpc hflag =>
    have hsrc : (r + offset) % sys.rankSize < sys.rankSize :=
      Nat.mod_lt _ ((Nat.zero_le r).trans_lt hr)
    exact ready_inv h hr hpc
      (flag_saw (hall _ hsrc).log (hfresh.call_eq (hall _ hsrc).log hsrc hr) hflag)
  | timeout hpc => exact timeout_inv h hpc _
  | gather hpc => exact gather_inv hall hr hpc
  | plan hpc => exact plan_inv h hpc
  | collect hpc hlt => exact collect_inv hall hr hpc hlt
  | reduce hpc hlast => exact reduce_inv hall hr hpc hlast
  | commit hpc hok =>
    refine finish_inv h hpc fun n hn => ?_
    rcases mem_cons.1 hn with rfl | hn
    · have hinv := h.pc
      unfold PcInv at hinv
      rw [hpc] at hinv
      exact hinv hok
    · exact h.commits n hn
  | giveUp hpc => exact finish_inv h hpc h.commits

end Quiet

def Inv (sys : System) (s : State) : Prop := ∀ x < sys.rankSize, RankInv sys s x

theorem Inv.moves (h : Inv sys s) (hfresh : FreshMagics sys s) (hm : Moves sys s s') : Inv sys s' := by
  cases hm with
  | deliver src owner => exact fun x hx => (h x hx).mono (deliver_grows s src owner) rfl rfl
  | @publish r ph hr hpc =>
    intro x hx
    rcases eq_or_ne x r with rfl | hne
    · exact publish_inv (h x hx) hx hpc
    · exact (h x hx).mono (publish_grows hpc) (publish_rank_of_ne sys s ph hne)
        (publish_log_of_ne sys s ph hne)
  | @quiet r rs hr hq =>
    obtain ⟨hg, hinv⟩ := quiet_inv h hfresh hr hq
    intro x hx
    rcases eq_or_ne x r with rfl | hne
    · exact hinv
    · exact (h x hx).mono hg (setRank_of_ne s rs hne) rfl

theorem Inv.initial (sys : System) : Inv sys State.initial := fun x _ =>
  { log :=
      { ordered := Pairwise.nil
        stamps := fun w hw => absurd hw not_mem_nil
        writes := fun w hw => absurd hw not_mem_nil
        line0 := fun n hn => absurd hn (Nat.not_lt_zero _)
        line1 := fun n hn => absurd hn (Nat.not_lt_zero _)
        globalRankId := fun n hn => absurd hn (Nat.not_lt_zero _)
        tpe := fun n hn => absurd hn (Nat.not_lt_zero _)
        status := fun n ph _ hn => absurd hn (Nat.not_lt_zero _) }
    plans := fun n p hp => by cases hp
    cleared := by rintro n ⟨w, hw, -⟩; exact absurd hw not_mem_nil
    commits := fun n hn => absurd hn not_mem_nil
    cache := fun hv => by cases hv
    status := ⟨cons_ne_nil _ _, Int.le_refl 0⟩
    pc := rfl }

theorem Runs.inv (h : Runs sys s) : FreshMagics sys s → Inv sys s := by
  refine Reachable.invariant (P := fun s => FreshMagics sys s → Inv sys s) (fun _ => Inv.initial sys)
    ?_ h
  rintro s s' ih ⟨a, ha⟩ hfresh
  have hm := step_cases ha
  exact (ih (hfresh.of_moves hm)).moves (hfresh.of_moves hm) hm

end TileXR.Commit
