import TileXR.Commit.Invariant

/-!
# Steps and what they leave alone

`step_cases` says once what a step can do: a write becomes visible, a rank publishes a phase, or a rank
moves on without writing to a mailbox (`Quiet`). All of them let logs, clocks and histories grow, so
what is known of a rank that does not move stays true (`RankInv.mono`).
-/

namespace TileXR.Commit
open Option
open Function (update update_self update_of_ne)
open Lib Plan
variable {ph : Phase}

section Cases
variable (sys : System) (s : State)

def State.publish (r : ℕ) (ph : Phase) : State :=
  { s with
    rank := Function.update s.rank r
      { s.rank r with
        pc := .wait ph 0
        committedEpoch := if ph = .data then 0 else (s.rank r).committedEpoch }
    log := Function.update s.log r
      (s.log r ++ (publishWrites sys r (s.mailbox r r) (s.rank r) ph).map (⟨(s.rank r).call, ph, ·⟩)) }

def State.deliver (src owner : ℕ) : State :=
  { s with
    seen := Function.update s.seen src
      (Function.update (s.seen src) owner (s.seen src owner + 1)) }

def gathering (r src piece : ℕ) : RankState :=
  let expertNum := (sys.args r (s.rank r).call).expertNum.toNat
  { s.rank r with
    gathered := Function.update (s.rank r).gathered src
      (gatherPiece expertNum piece (s.mailbox src r) ((s.rank r).gathered src))
    pc :=
      if piece < 2 + gatherLines expertNum then .gather src (piece + 1)
      else if src + 1 < sys.rankSize then .gather (src + 1) 0
      else .plan }

/-- A step of rank `r` that publishes nothing, with the state it leaves the rank in. -/
inductive Quiet (r : ℕ) : RankState → Prop
  | ready {ph : Phase} {offset : ℕ} (hpc : (s.rank r).pc = .wait ph offset)
      (hflag : flagReady (sys.magic (s.rank r).call) ph
        ((s.mailbox ((r + offset) % sys.rankSize) r).flag ph) = true) :
      Quiet r { s.rank r with
        pc := if offset + 1 < sys.rankSize then .wait ph (offset + 1) else passed ph }
  | timeout {ph : Phase} {offset : ℕ} (hpc : (s.rank r).pc = .wait ph offset) :
      Quiet r (timedOut sys r (s.rank r) ph ((r + offset) % sys.rankSize))
  | gather {src piece : ℕ} (hpc : (s.rank r).pc = .gather src piece) :
      Quiet r (gathering sys s r src piece)
  | plan (hpc : (s.rank r).pc = .plan) : Quiet r (planStep sys r (s.rank r))
  | collect {ph : Phase} {src : ℕ} (hpc : (s.rank r).pc = .collect ph src)
      (hlt : src + 1 < sys.rankSize) :
      Quiet r { s.rank r with
        statuses := Function.update (s.rank r).statuses src (s.mailbox src r).status
        pc := .collect ph (src + 1) }
  | reduce {ph : Phase} {src : ℕ} (hpc : (s.rank r).pc = .collect ph src)
      (hlast : ¬ src + 1 < sys.rankSize) :
      Quiet r { s.rank r with
        statuses := Function.update (s.rank r).statuses src (s.mailbox src r).status
        status := (s.rank r).status.set 0 (reduceGlobalPlanStatus sys.rankSize
          (Function.update (s.rank r).statuses src (s.mailbox src r).status))
        pc := if ph = .status then .publish .ready else .finish }
  | commit (hpc : (s.rank r).pc = .finish) (hok : (s.rank r).status.getD 0 0 = 0) :
      Quiet r { s.rank r with
        call := (s.rank r).call + 1, pc := .publish .data, committedEpoch := sys.epoch (s.rank r).call
        commits := (s.rank r).call :: (s.rank r).commits }
  | giveUp (hpc : (s.rank r).pc = .finish) (hbad : (s.rank r).status.getD 0 0 ≠ 0) :
      Quiet r { s.rank r with
        call := (s.rank r).call + 1, pc := .publish .data }

inductive Moves : State → Prop
  | deliver (src owner : ℕ) : Moves (s.deliver src owner)
  | publish {r : ℕ} {ph : Phase} (hr : r < sys.rankSize) (hpc : (s.rank r).pc = .publish ph) :
      Moves (s.publish sys r ph)
  | quiet {r : ℕ} {rs : RankState} (hr : r < sys.rankSize) (hq : Quiet sys s r rs) :
      Moves (s.setRank r rs)

end Cases

variable {sys : System} {s s' : State}

theorem rankStep_cases {r : ℕ} (hr : r < sys.rankSize) (h : rankStep sys r s = some s') : Moves sys s s' := by
  unfold rankStep at h
  dsimp only at h
  split at h
  next ph hpc =>
    rw [← some.inj h]
    exact .publish hr hpc
  next ph offset hpc =>
    split at h
    next hflag => rw [← some.inj h]; exact .quiet hr (.ready hpc hflag)
    next => cases h
  next src piece hpc => rw [← some.inj h]; exact .quiet hr (.gather hpc)
  next hpc => rw [← some.inj h]; exact .quiet hr (.plan hpc)
  next ph src hpc =>
    split at h
    next hlt => rw [← some.inj h]; exact .quiet hr (.collect hpc hlt)
    next hlast => rw [← some.inj h]; exact .quiet hr (.reduce hpc hlast)
  next hpc =>
    rw [← some.inj h]
    split
    next hok => exact .quiet hr (.commit hpc hok)
    next hbad => exact .quiet hr (.giveUp hpc hbad)

theorem step_cases {a : Action} (h : step sys s a = some s') : Moves sys s s' := by
  cases a with
  | run r =>
    unfold step at h
    dsimp only at h
    split at h
    next hr => exact rankStep_cases hr h
    next => cases h
  | timeout r =>
    unfold step at h
    dsimp only at h
    split at h
    next hr =>
      split at h
      next ph offset hpc => rw [← some.inj h]; exact .quiet hr (.timeout hpc)
      next => cases h
    next => cases h
  | deliver src owner =>
    unfold step at h
    dsimp only at h
    split at h
    next => rw [← some.inj h]; exact .deliver src owner
    next => cases h

/-! ## Calls and clocks -/

theorem Pc.published_le (pc : Pc) : pc.published ≤ 4 := by
  cases pc with
  | publish ph => have := ph.index_lt; show ph.index ≤ 4; omega
  | wait ph _ => have := ph.index_lt; show ph.index + 1 ≤ 4; omega
  | collect ph _ => have := ph.index_lt; show ph.index + 1 ≤ 4; omega
  | gather _ _ => show 1 ≤ 4; omega
  | plan => show 1 ≤ 4; omega
  | finish => exact Nat.le_refl _

theorem planStep_call (r : ℕ) (rs : RankState) : (planStep sys r rs).call = rs.call := by
  unfold planStep; split <;> rfl

theorem timedOut_call (r : ℕ) (rs : RankState) (ph : Phase) (peer : ℕ) :
    (timedOut sys r rs ph peer).call = rs.call := by
  cases ph <;> rfl

theorem Quiet.call_le {r : ℕ} {rs : RankState} (h : Quiet sys s r rs) : (s.rank r).call ≤ rs.call := by
  cases h with
  | timeout => rw [timedOut_call]
  | plan => rw [planStep_call]
  | commit => exact Nat.le_succ _
  | giveUp => exact Nat.le_succ _
  | _ => exact Nat.le_refl _

theorem Moves.call_le (h : Moves sys s s') (x : ℕ) : (s.rank x).call ≤ (s'.rank x).call := by
  cases h with
  | deliver => exact Nat.le_refl _
  | @publish r ph hr hpc =>
    show _ ≤ (update s.rank r _ x).call
    rcases eq_or_ne x r with rfl | hne
    · rw [update_self]
    · rw [update_of_ne hne]
  | @quiet r rs hr hq =>
    show _ ≤ (update s.rank r rs x).call
    rcases eq_or_ne x r with rfl | hne
    · rw [update_self]; exact hq.call_le
    · rw [update_of_ne hne]

/-! ## Growth -/

@[simp] theorem setRank_self (s : State) (r : ℕ) (rs : RankState) : (s.setRank r rs).rank r = rs :=
  update_self ..

theorem setRank_of_ne (s : State) {r x : ℕ} (rs : RankState) (h : x ≠ r) : (s.setRank r rs).rank x = s.rank x :=
  update_of_ne h ..

theorem Grows.refl (s : State) : Grows s s where
  clock _ := Nat.le_refl _
  log _ := ⟨[], (List.append_nil _).symm, fun _ h => absurd h List.not_mem_nil⟩
  seen _ _ := Nat.le_refl _
  plans _ _ _ h := h

theorem deliver_grows (s : State) (src owner : ℕ) : Grows s (s.deliver src owner) :=
  { Grows.refl s with
    seen := fun x y => by
      show _ ≤ update s.seen src _ x y
      rcases eq_or_ne x src with rfl | hx
      · rw [update_self]
        rcases eq_or_ne y owner with rfl | hy
        · rw [update_self]; exact Nat.le_succ _
        · rw [update_of_ne hy]
      · rw [update_of_ne hx] }

theorem setRank_grows {r : ℕ} {rs : RankState} (hclock : (s.rank r).clock ≤ rs.clock)
    (hplans : ∀ n p, (s.rank r).plans n = some p → rs.plans n = some p) : Grows s (s.setRank r rs) :=
  { Grows.refl s with
    clock := fun x => by
      show (s.rank x).clock ≤ ((s.setRank r rs).rank x).clock
      rcases eq_or_ne x r with rfl | hx
      · rw [setRank_self]; exact hclock
      · rw [setRank_of_ne s rs hx]
    plans := fun x n p h => by
      rcases eq_or_ne x r with rfl | hx
      · rw [setRank_self]; exact hplans n p h
      · rw [setRank_of_ne s rs hx]; exact h }

theorem publish_rank_self (sys : System) (s : State) (r : ℕ) (ph : Phase) :
    (s.publish sys r ph).rank r =
      { s.rank r with
        pc := .wait ph 0
        committedEpoch := if ph = .data then 0 else (s.rank r).committedEpoch } :=
  update_self ..

theorem publish_rank_of_ne (sys : System) (s : State) {r x : ℕ} (ph : Phase) (h : x ≠ r) :
    (s.publish sys r ph).rank x = s.rank x :=
  update_of_ne h ..

theorem publish_log_self (sys : System) (s : State) (r : ℕ) (ph : Phase) : (s.publish sys r ph).log r = s.log r ++
      (publishWrites sys r (s.mailbox r r) (s.rank r) ph).map (⟨(s.rank r).call, ph, ·⟩) :=
  update_self ..

theorem publish_log_of_ne (sys : System) (s : State) {r x : ℕ} (ph : Phase) (h : x ≠ r) :
    (s.publish sys r ph).log x = s.log x :=
  update_of_ne h ..

theorem clock_publish {r : ℕ} (hpc : (s.rank r).pc = .publish ph) : s.clock r = 4 * (s.rank r).call + ph.index := by
  unfold State.clock RankState.clock; rw [hpc]; rfl

theorem publish_clock (sys : System) (s : State) (r : ℕ) (ph : Phase) :
    (s.publish sys r ph).clock r = 4 * (s.rank r).call + ph.index + 1 := by
  unfold State.clock RankState.clock; rw [publish_rank_self]; rfl

theorem publish_grows {r : ℕ} (hpc : (s.rank r).pc = .publish ph) : Grows s (s.publish sys r ph) where
  clock x := by
    rcases eq_or_ne x r with rfl | hx
    · rw [clock_publish hpc, publish_clock]; exact Nat.le_succ _
    · unfold State.clock; rw [publish_rank_of_ne sys s ph hx]
  log x := by
    rcases eq_or_ne x r with rfl | hx
    · refine ⟨_, publish_log_self sys s x ph, fun w hw => ?_⟩
      obtain ⟨v, -, rfl⟩ := List.mem_map.1 hw
      exact (clock_publish hpc).le
    · exact ⟨[], by rw [publish_log_of_ne sys s ph hx, List.append_nil],
        fun _ h => absurd h List.not_mem_nil⟩
  seen _ _ := Nat.le_refl _
  plans x n p h := by
    rcases eq_or_ne x r with rfl | hx
    · rw [publish_rank_self]; exact h
    · rw [publish_rank_of_ne sys s ph hx]; exact h

/-! ## Ranks that do not move -/

theorem AllSaw.mono {r n : ℕ} (hg : Grows s s') (h : AllSaw sys s r n ph) : AllSaw sys s' r n ph :=
  fun x hx => hg.saw (h x hx)

theorem PlanInv.mono {r n : ℕ} {p : Planned} (hg : Grows s s') (h : PlanInv sys s r n p) : PlanInv sys s' r n p :=
  fun h0 => ⟨(h h0).1, fun x hx => ⟨((h h0).2 x hx).1.trans_le (hg.clock x), ((h h0).2 x hx).2.mono hg⟩⟩

section Mono
variable {r : ℕ} {rs : RankState} (hg : Grows s s') (hp : PlanOk s' r rs.call → PlanOk s r rs.call)
include hg hp

theorem Entering.mono (h : Entering sys s r rs ph) : Entering sys s' r rs ph := by
  cases ph with
  | data => exact h
  | status => exact ⟨fun h0 => hg.planOk (h.1 h0), fun hok => h.2 (hp hok)⟩
  | ready => exact fun h0 => ⟨hg.planOk (h h0).1, (h h0).2⟩
  | consensus => exact fun h0 => ⟨hg.planOk (h h0).1, (h h0).2.1, (h h0).2.2.mono hg⟩

theorem PcInv.mono (h : PcInv sys s r rs) : PcInv sys s' r rs := by
  unfold PcInv at h ⊢
  dsimp only at h ⊢
  split at h
  next ph hpc => exact h.mono hg hp
  next ph offset hpc =>
    obtain ⟨hent, hlt, hsaw⟩ := h
    exact ⟨hent.mono hg hp, hlt, fun j hj => hg.saw (hsaw j hj)⟩
  next src piece hpc =>
    obtain ⟨hplan, hsaw, hsrc, hpiece, hrows, hrow⟩ := h
    exact ⟨hplan, hsaw.mono hg, hsrc, hpiece, fun x hx => (hrows x hx).mono hg, hrow.mono hg⟩
  next hpc =>
    obtain ⟨hplan, hsaw, hrows⟩ := h
    exact ⟨hplan, hsaw.mono hg, fun x hx => (hrows x hx).mono hg⟩
  next ph src hpc =>
    obtain ⟨hph, htag, hsaw, hsrc, hst⟩ := h
    refine ⟨hph, fun h1 h2 => htag h1 (hp h2), hsaw.mono hg, hsrc, fun x hx => ⟨(hst x hx).1, fun h0 => ?_⟩⟩
    have hv := (hst x hx).2 h0
    rcases hph with rfl | rfl
    · exact fun he => hg.planOk (hv he)
    · exact hg.cleared hv
  next hpc => exact fun h0 x hx => hg.cleared (h h0 x hx)

end Mono

theorem planOk_of_eq {r n : ℕ} (h : (s'.rank r).plans = (s.rank r).plans) (hp : PlanOk s' r n) : PlanOk s r n := by
  obtain ⟨p, hp, h0⟩ := hp
  exact ⟨p, h ▸ hp, h0⟩

theorem RankInv.mono {r : ℕ} (hg : Grows s s') (hrank : s'.rank r = s.rank r)
    (hlog : s'.log r = s.log r) (h : RankInv sys s r) : RankInv sys s' r where
  log := h.log.mono hg hlog (by unfold State.clock; rw [hrank])
  plans := by
    rw [hrank]
    exact fun n p hp => ⟨(h.plans n p hp).1, (h.plans n p hp).2.mono hg⟩
  cleared := by
    rintro n ⟨w, hw, hrest⟩
    obtain ⟨hok, hclock⟩ := h.cleared n ⟨w, hlog ▸ hw, hrest⟩
    exact ⟨hg.planOk hok, fun x hx => (hclock x hx).trans (hg.clock x)⟩
  commits := by
    rw [hrank]
    exact fun n hn x hx => hg.cleared (h.commits n hn x hx)
  cache := by rw [hrank]; exact h.cache
  status := by rw [hrank]; exact h.status
  pc := by
    rw [hrank]
    exact h.pc.mono hg (planOk_of_eq (by rw [hrank]))

end TileXR.Commit
