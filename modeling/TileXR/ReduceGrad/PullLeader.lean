import TileXR.ReduceGrad.PullInv

/-!
# Steps of a leader

A leader touches only its own lane (`leaderStep_outside`), and every step keeps the invariant of the lane
with a view that has moved on (`leaderStep_inv`). The checks of `RunLaneLeader` never fail: the bank it
issues into is free because its last item is done, and the bank it completes was issued.
-/

namespace TileXR.ReduceGrad
open Lib Option
open Function (update update_self update_of_ne)

variable {l : Leader} {helper : ℕ}
variable {α : Type*} {t : Task α} {s s' : State α} {lane : ℕ} {v v' : View}

/-! ## What a leader leaves alone -/

/-- Nothing changes outside the words of a lane. -/
structure OnlyLane (lane : ℕ) (s s' : State α) : Prop where
  leader : ∀ lane', lane' ≠ lane → s'.leader lane' = s.leader lane'
  token : ∀ lane', lane' ≠ lane → s'.token lane' = s.token lane'
  item : ∀ lane', lane' ≠ lane → s'.item lane' = s.item lane'
  flight : ∀ lane', lane' ≠ lane → s'.flight lane' = s.flight lane'
  helper : s'.helper = s.helper
  workspace : s'.workspace = s.workspace
  gradient : s'.gradient = s.gradient
  stored : s'.stored = s.stored
  status : s.status ≠ 0 → s'.status ≠ 0

namespace OnlyLane

theorem refl (s : State α) : OnlyLane lane s s := ⟨fun _ _ => rfl, fun _ _ => rfl, fun _ _ => rfl,
  fun _ _ => rfl, rfl, rfl, rfl, rfl, id⟩

theorem setLeader (h : OnlyLane lane s s') (l : Leader) : OnlyLane lane s (s'.setLeader lane l) :=
  { h with leader := fun _ hne => (update_of_ne hne _ _).trans (h.leader _ hne) }

theorem storeToken (h : OnlyLane lane s s') (offset value : ℕ) : OnlyLane lane s (s'.storeToken lane offset value) :=
  { h with token := fun _ hne => (update_of_ne hne _ _).trans (h.token _ hne) }

theorem setItem (h : OnlyLane lane s s') (bank : ℕ) (item : Item) : OnlyLane lane s (s'.setItem lane bank item) :=
  { h with item := fun _ hne => (update_of_ne hne _ _).trans (h.item _ hne) }

theorem failLane (s : State α) : OnlyLane lane s (failLane t lane s) :=
  { ((refl s).storeToken kReduceGradLaneErrorOffset (laneAbortToken t)).setLeader
      { s.leader lane with phase := .finished } with
    status := fun h => by
      show (if s.status = 0 then kReduceGradDeviceInvalidState else s.status) ≠ 0
      rwa [if_neg h] }

theorem waitForHelper {bank : ℕ} (h : waitForHelper t lane bank helper l s = some s') : OnlyLane lane s s' := by
  unfold ReduceGrad.waitForHelper at h
  split at h
  · obtain rfl := some.inj h; exact (refl s).setLeader _
  · split at h
    · obtain rfl := some.inj h; exact (refl s).setLeader _
    · cases h

end OnlyLane

theorem leaderIssue_outside (wave : Wave) : OnlyLane lane s (leaderIssue t lane wave s) := by
  unfold leaderIssue
  dsimp only
  split
  · exact .failLane s
  · split
    · exact .failLane s
    · exact { OnlyLane.refl s with
        leader := fun _ hne => update_of_ne hne _ _
        flight := fun _ hne => update_of_ne hne _ _ }

theorem leaderStep_outside (h : leaderStep t lane s = some s') : OnlyLane lane s s' := by
  have hs : OnlyLane lane s s := .refl s
  unfold leaderStep at h
  dsimp only at h
  split at h
  · split at h <;> obtain rfl := some.inj h
    · exact .failLane s
    · exact hs.setLeader _
  · split at h
    · obtain rfl := some.inj h; exact hs.setLeader _
    · split at h
      · split at h
        · exact .waitForHelper h
        · obtain rfl := some.inj h; exact hs.setLeader _
      · obtain rfl := some.inj h; exact hs.setLeader _
  · obtain ⟨w, -, rfl⟩ := map_eq_some_iff.1 h; exact leaderIssue_outside w
  · split at h
    · obtain rfl := some.inj h; exact .failLane s
    · split at h
      · cases h
      · obtain rfl := some.inj h; exact (hs.setItem _ _).setLeader _
  · obtain rfl := some.inj h; exact (hs.storeToken _ _).setLeader _
  · obtain rfl := some.inj h; exact hs.setLeader _
  · split at h
    · obtain rfl := some.inj h; exact hs.setLeader _
    · split at h
      · exact .waitForHelper h
      · obtain rfl := some.inj h; exact hs.setLeader _
  · obtain rfl := some.inj h; exact (hs.setItem _ _).setLeader _
  · obtain rfl := some.inj h; exact (hs.storeToken _ _).setLeader _
  · cases h

/-! ## Moving on -/

section Moving
variable [Add α] {token₀ : ℕ → ℕ → ℕ} {gradient₀ : ℕ → ℕ → α}

theorem HelperInv.mono {blockIdx helperIndex : ℕ} (h : HelperInv t token₀ gradient₀ s blockIdx lane helperIndex v)
    (hhelper : s'.helper blockIdx = s.helper blockIdx)
    (htoken : ∀ b < 2, s'.token lane (bankDoneToken b helperIndex) = s.token lane (bankDoneToken b helperIndex))
    (hknown : v'.known ≤ s.served blockIdx) (hpub : v.published ≤ v'.published)
    (hle : v'.published ≤ (laneWaves t lane).length + 1) :
    HelperInv t token₀ gradient₀ s' blockIdx lane helperIndex v' := by
  have hserved : s'.served blockIdx = s.served blockIdx := by rw [State.served, State.served, hhelper]
  refine ⟨by rw [hhelper, hserved, h.sequence], by rwa [hserved],
    by rw [hserved]; exact Nat.le_trans h.served hpub, ?_, fun b hb => by
      rw [htoken b hb, hhelper, hserved, h.done b hb]⟩
  have hph := h.phase
  unfold HelperOk at hph ⊢
  rw [hserved, hhelper]
  generalize (s.helper blockIdx).phase = p at hph ⊢
  cases p with
  | waiting => exact hph
  | loading => exact Nat.lt_of_lt_of_le hph hpub
  | adding => exact ⟨Nat.lt_of_lt_of_le hph.1 hpub, hph.2⟩
  | storing => exact ⟨Nat.lt_of_lt_of_le hph.1 hpub, hph.2⟩
  | done => exact ⟨Nat.lt_of_lt_of_le hph.1 hpub, hph.2⟩
  | last => dsimp only at hph ⊢; omega
  | finished => dsimp only at hph ⊢; omega

omit [Add α] in
theorem PhaseOk.mono (h : PhaseOk t s lane v) (hleader : s'.leader lane = s.leader lane)
    (hitem : s'.item lane = s.item lane) (hflight : ∀ f ∈ s'.flight lane, f ∈ s.flight lane)
    (hserved : ∀ blockIdx helperIndex, IsHelper t.layout blockIdx lane helperIndex →
      s.served blockIdx ≤ s'.served blockIdx) : PhaseOk t s' lane v := by
  have hserved' : ∀ n which, Served t s lane n which → Served t s' lane n which :=
    fun n which hs blockIdx helperIndex hb hw => Nat.le_trans (hs _ _ hb hw) (hserved _ _ hb)
  unfold PhaseOk at h ⊢
  rw [hleader, hitem]
  dsimp only at h ⊢
  split at h
  case h_2 => exact ⟨h.1, h.2.1, h.2.2.1, h.2.2.2.1, fun h2 => hserved' _ _ (h.2.2.2.2 h2)⟩
  case h_5 => exact ⟨h.1, h.2.1, fun f hf => h.2.2 f (hflight f hf)⟩
  case h_7 => exact ⟨h.1, h.2.1, h.2.2.1, h.2.2.2.1, fun k hk hk' =>
    ⟨fun hb => hserved' _ _ ((h.2.2.2.2 k hk hk').1 hb), fun hb => hserved' _ _ ((h.2.2.2.2 k hk hk').2 hb)⟩⟩
  all_goals exact h

theorem LaneInv.frame (h : LaneInv t token₀ gradient₀ s lane v) (hleader : s'.leader lane = s.leader lane)
    (htoken : s'.token lane = s.token lane) (hitem : s'.item lane = s.item lane)
    (hflight : s'.flight lane = s.flight lane) (hstaged : ∀ k, ∀ r ∈ readsAt t lane k, Staged t s r → Staged t s' r)
    (hhelper : ∀ blockIdx helperIndex, IsHelper t.layout blockIdx lane helperIndex →
      s'.helper blockIdx = s.helper blockIdx) : LaneInv t token₀ gradient₀ s' lane v where
  phase := h.phase.mono hleader hitem (fun f hf => by rwa [hflight] at hf) fun blockIdx helperIndex hb => by
    rw [State.served, State.served, hhelper _ _ hb]
  locals := by rw [hleader]; exact h.locals
  ready := by rw [htoken]; exact h.ready
  abort := by rw [htoken]; exact h.abort
  items := by rw [hitem]; exact h.items
  flights := by rw [hflight]; exact h.flights
  staged := fun k hk hk' r hr => by
    rw [hflight]; exact (h.staged k hk hk' r hr).imp_right (hstaged k r hr)
  helpers := fun blockIdx helperIndex hb => (h.helpers _ _ hb).mono (hhelper _ _ hb)
    (fun _ _ => by rw [htoken]) (h.helpers _ _ hb).known (Nat.le_refl _) h.phase.bounds.published

omit [Add α] in
theorem Locals.bankOf_sequence (h : Locals t lane l v) : bankOf l.sequence = l.wave % 2 := by
  rw [h.sequence, bankOf_succ]

omit [Add α] in
theorem Locals.bankOf_nextReady (h : Locals t lane l v) : bankOf l.nextReadySequence = v.published % 2 := by
  rw [h.nextReady, bankOf_succ]

omit [Add α] in
theorem Locals.setPhase (h : Locals t lane l v) (phase : LeaderPhase) :
    Locals t lane { l with phase := phase } v :=
  ⟨h.sequence, h.nextReady, h.bankIssued, h.bankPublished, h.bankSequence, h.pending⟩

section
variable (h : LaneInv t token₀ gradient₀ s lane v)
include h

/-- The leader goes on, perhaps knowing more of its helpers. -/
theorem LaneInv.setLeader (hissued : v'.issued = v.issued)
    (hpub : v'.published = v.published) (hknown : v.known ≤ v'.known)
    (hserved : Served t s lane v'.known fun _ => True) (hphase : PhaseOk t (s.setLeader lane l) lane v')
    (hlocals : l.phase.busy → Locals t lane l v') : LaneInv t token₀ gradient₀ (s.setLeader lane l) lane v' where
  phase := hphase
  locals := by
    rw [show (s.setLeader lane l).leader lane = l from update_self _ _ _]
    exact hlocals
  ready := by rw [hpub]; exact h.ready
  abort := h.abort
  items := fun k hk hk' => h.items k (Nat.le_trans hknown hk) (hpub ▸ hk')
  flights := by rw [hissued, hpub]; exact h.flights
  staged := fun k hk hk' => h.staged k (Nat.le_trans hknown hk) (hissued ▸ hk')
  helpers := fun blockIdx helperIndex hb => (h.helpers _ _ hb).mono rfl (fun _ _ => rfl)
    (hserved _ _ hb trivial) (Nat.le_of_eq hpub.symm) hphase.bounds.published

theorem LaneInv.knows : Served t s lane v.known fun _ => True :=
  fun _ _ hb _ => (h.helpers _ _ hb).known

/-- A state of the leader's own words, none of which a helper reads or writes. -/
theorem LaneInv.helpers_of_eq (hhelper : s'.helper = s.helper) (htoken : s'.token = s.token)
    (hknown : v'.known = v.known) (hpub : v'.published = v.published) (blockIdx helperIndex : ℕ)
    (hb : IsHelper t.layout blockIdx lane helperIndex) :
    HelperInv t token₀ gradient₀ s' blockIdx lane helperIndex v' :=
  (h.helpers _ _ hb).mono (by rw [hhelper]) (fun _ _ => by rw [htoken]) (hknown ▸ (h.helpers _ _ hb).known)
    hpub.ge (hpub ▸ h.phase.bounds.published)

theorem LaneInv.setPhase (hl : Locals t lane (s.leader lane) v)
    {phase : LeaderPhase} (hphase : PhaseOk t (s.setLeader lane { s.leader lane with phase := phase }) lane v) :
    LaneInv t token₀ gradient₀ (s.setLeader lane { s.leader lane with phase := phase }) lane v :=
  h.setLeader rfl rfl (Nat.le_refl _) h.knows hphase fun _ => hl.setPhase _

end

theorem LaneInv.publish (h : LaneInv t token₀ gradient₀ s lane v) {l : Leader} (hissued : v'.issued = v.issued)
    (hpub : v'.published = v.published + 1) (hknown : v'.known = v.known)
    (hitem : s.item lane (v.published % 2) = itemAt t lane v.published)
    (hflight : ∀ f ∈ s.flight lane, v.published < f.wave)
    (hphase : PhaseOk t ((s.storeToken lane (bankReady (v.published % 2))
      (laneToken t (v.published + 1))).setLeader lane l) lane v') (hlocals : l.phase.busy → Locals t lane l v') :
    LaneInv t token₀ gradient₀ ((s.storeToken lane (bankReady (v.published % 2))
      (laneToken t (v.published + 1))).setLeader lane l) lane v' := by
  have htoken : ∀ offset, offset ≠ bankReady (v.published % 2) →
      ((s.storeToken lane (bankReady (v.published % 2)) (laneToken t (v.published + 1))).setLeader lane
        l).token lane offset = s.token lane offset := by
    intro offset hne
    show update s.token lane _ lane offset = _
    rw [update_self, update_of_ne hne]
  have hbank : v.published % 2 < 2 := Nat.mod_lt _ (by decide)
  refine ⟨hphase, ?_, fun b hb => ?_, ?_, fun k hk hk' => ?_, fun f hf => ?_, ?_, ?_⟩
  · rw [show ((s.storeToken lane _ _).setLeader lane l).leader lane = l from update_self _ _ _]
    exact hlocals
  · rw [hpub]
    rcases eq_or_ne b (v.published % 2) with rfl | hne
    · rw [shown_of_lt (by omega) (by omega)]
      show update s.token lane _ lane _ = _
      rw [update_self, update_self]
    · rw [htoken _ (bankReady_ne hne), shown_succ_of_ne hb hne, h.ready b hb]
  · rw [htoken _ (bankReady_ne_error hbank).symm, h.abort]
  · rcases Nat.lt_or_ge k v.published with hlt | hge
    · exact h.items k (hknown ▸ hk) hlt
    · obtain rfl : k = v.published := by omega
      exact hitem
  · have := hflight f hf
    exact ⟨by omega, hissued ▸ (h.flights f hf).2⟩
  · rw [hissued, hknown]; exact h.staged
  · intro blockIdx helperIndex hb
    have hh := h.helpers _ _ hb
    refine hh.mono rfl (fun b _ => htoken _ (bankReady_ne_done hbank).symm) (hknown ▸ hh.known) (by omega)
      hphase.bounds.published

/-! ## The phases -/

/-- The lane is still in order, and nothing has failed. -/
structure KeepsLane (t : Task α) (token₀ : ℕ → ℕ → ℕ) (gradient₀ : ℕ → ℕ → α) (lane : ℕ) (s s' : State α) :
    Prop where
  status : s'.status = s.status
  inv : ∃ v, LaneInv t token₀ gradient₀ s' lane v

omit [Add α] in
theorem Between.spec {n wave : ℕ} (h : Between n wave v) :
    v.published < v.issued ∧ v.published < n ∧ v.published ≤ v.known + 1 := by
  rcases h with h | h <;> omega

theorem waitForHelper_spec (hfresh : Fresh t token₀) (hn : (laneWaves t lane).length ≤ 2 ^ 32 - 2)
    (h : LaneInv t token₀ gradient₀ s lane v) (hle : v.published ≤ (laneWaves t lane).length) {k : ℕ}
    (hk' : k < v.published) (hseq : (s.leader lane).bankSequence (k % 2) = k + 1)
    (hstep : waitForHelper t lane (k % 2) helper l s = some s') : s' = s.setLeader lane l ∧
      ∀ blockIdx, IsHelper t.layout blockIdx lane helper → k + 1 ≤ s.served blockIdx := by
  unfold waitForHelper at hstep
  split at hstep
  · next htok =>
    refine ⟨(some.inj hstep).symm, fun blockIdx hb => ?_⟩
    have hh := h.helpers _ _ hb
    rw [hh.done _ (Nat.mod_lt _ (by decide)), hseq] at htok
    have hack : k < (s.helper blockIdx).phase.acknowledged (s.served blockIdx) := by
      refine (lt_of_shown ?_ ?_ htok).1
      · exact hfresh.ne (by omega) _
      · intro j _ hj
        have := laneToken_inj hj
        omega
    -- a helper that has finished has the terminal item, which is not published yet
    have hph := hh.phase
    unfold HelperOk at hph
    generalize (s.helper blockIdx).phase = p at hack hph
    cases p with
    | finished => dsimp only at hph; omega
    | _ => exact hack
  · split at hstep
    · next hab =>
      rw [State.laneAborted, h.abort] at hab
      exact absurd hab (hfresh.ne (by decide) _)
    · cases hstep

section
variable (h : LaneInv t token₀ gradient₀ s lane v) (hstep : leaderStep t lane s = some s')
include h hstep

theorem leader_begins (hL : t.layout.Accepted) (hlane : lane < t.layout.laneCount)
    (hp : (s.leader lane).phase = .begins) : KeepsLane t token₀ gradient₀ lane s s' := by
  have hph := h.phase
  simp only [PhaseOk, hp] at hph
  have h₁ := (projectionForLane_lt hL hlane).1
  have h₂ := helperShape_pos hL lane
  simp only [leaderStep, hp, show ¬ (kReduceGradProjectionCount ≤ projectionForLane t.layout lane ∨
    helperShape t.layout lane = 0) by omega, if_false, Option.some.injEq] at hstep
  subst hstep
  refine ⟨rfl, v, h.setPhase (h.locals (by rw [hp]; rfl)) ?_⟩
  simp only [PhaseOk, State.setLeader, update_self]
  omega

theorem leader_await (hL : t.layout.Accepted) (hfresh : Fresh t token₀)
    (hn : (laneWaves t lane).length ≤ 2 ^ 32 - 2) (hp : (s.leader lane).phase = .await helper) :
    KeepsLane t token₀ gradient₀ lane s s' := by
  have hph := h.phase
  simp only [PhaseOk, hp] at hph
  obtain ⟨hwave, hissued, hpub, hknown, hserved⟩ := hph
  have hl := h.locals (by rw [hp]; rfl)
  simp only [leaderStep, hp, hl.bankOf_sequence] at hstep
  split at hstep
  · -- no wave is left
    obtain rfl := some.inj hstep
    refine ⟨rfl, v, h.setPhase hl ?_⟩
    simp only [PhaseOk, State.setLeader, update_self]
    omega
  next hlt =>
  split at hstep
  · next hbank =>
    obtain ⟨k, hk, hk', hpar⟩ := (hl.bankPublished _ (Nat.mod_lt _ (by decide))).1 hbank
    have hseq := hl.bankSequence k hk hk'
    split at hstep
    · rw [← hpar] at hstep
      obtain ⟨rfl, hdone⟩ := waitForHelper_spec hfresh hn h (by omega) hk' hseq hstep
      refine ⟨rfl, v, h.setPhase hl ?_⟩
      simp only [PhaseOk, State.setLeader, update_self]
      refine ⟨hwave, hissued, hpub, hknown, fun h2 blockIdx helperIndex hb hlt' => ?_⟩
      rcases Nat.lt_or_ge helperIndex helper with hlt'' | hge
      · exact hserved h2 _ _ hb hlt''
      · obtain rfl : helperIndex = helper := by omega
        have := hdone _ hb
        show _ ≤ s.served blockIdx
        omega
    · next hcount =>
      -- all helpers are done with the last item of the bank
      obtain rfl := some.inj hstep
      have hall' : Served t s lane ((s.leader lane).wave - 1) fun _ => True := fun _ _ hb _ =>
        hserved (by omega) _ _ hb (Nat.lt_of_lt_of_le (hb.index_lt hL) (Nat.le_of_not_lt hcount))
      refine ⟨rfl, ⟨v.issued, v.published, (s.leader lane).wave - 1⟩, h.setLeader rfl rfl
        (by dsimp only; omega) hall' ?_ fun _ => ⟨hl.sequence, hl.nextReady, hl.bankIssued, ?_, ?_, hl.pending⟩⟩
      · simp only [PhaseOk, State.setLeader, update_self]
        exact ⟨by omega, hissued, hpub, trivial⟩
      · intro b hb
        dsimp only
        constructor
        · intro hb'
          rcases eq_or_ne b ((s.leader lane).wave % 2) with rfl | hne
          · rw [update_self] at hb'; cases hb'
          · rw [update_of_ne hne] at hb'
            obtain ⟨k', hk₁, hk₂, hk₃⟩ := (hl.bankPublished b hb).1 hb'
            omega
        · rintro ⟨k', hk₁, hk₂, -⟩; omega
      · intro k' hk₁ hk₂; dsimp only at hk₁ hk₂; omega
  · next hbank =>
    -- the first item of a bank waits for nobody
    obtain rfl := some.inj hstep
    have hfirst : (s.leader lane).wave < 2 := by
      refine Nat.lt_of_not_le fun h2 => hbank ((hl.bankPublished _ (Nat.mod_lt _ (by decide))).2
        ⟨(s.leader lane).wave - 2, ?_⟩)
      omega
    refine ⟨rfl, v, h.setPhase hl ?_⟩
    simp only [PhaseOk, State.setLeader, update_self]
    omega

theorem leader_issue (hL : t.layout.Accepted) (hlane : lane < t.layout.laneCount)
    (hp : (s.leader lane).phase = .issue) : KeepsLane t token₀ gradient₀ lane s s' := by
  have hph := h.phase
  simp only [PhaseOk, hp] at hph
  obtain ⟨hwave, hissued, hpub, hknown⟩ := hph
  have hl := h.locals (by rw [hp]; rfl)
  simp only [leaderStep, hp, List.getElem?_eq_getElem hwave, map_some, Option.some.injEq] at hstep
  obtain ⟨w, hw⟩ : ∃ w, (laneWaves t lane)[(s.leader lane).wave] = w := ⟨_, rfl⟩
  have hw? : (laneWaves t lane)[(s.leader lane).wave]? = some w := by
    rw [List.getElem?_eq_getElem hwave, hw]
  have hvalid := valid_of_mem_laneWaves hL hlane (hw ▸ List.getElem_mem hwave)
  have hfree : (s.leader lane).bankIssued ((s.leader lane).wave % 2) = false := by
    rw [Bool.eq_false_iff, ne_eq, hl.bankIssued _ (Nat.mod_lt _ (by decide))]
    rintro ⟨k, hk, hk', hpar⟩
    omega
  have hissue := issueWave_eq t lane (projectionForLane t.layout lane) ((s.leader lane).wave % 2) w
  rw [hw] at hstep
  simp only [leaderIssue, hl.bankOf_sequence, hfree, Bool.false_eq_true, if_false, hissue.1, hvalid.length, ne_eq,
    not_true_eq_false] at hstep
  have hreads : readsAt t lane (s.leader lane).wave =
      (issueWave t lane (projectionForLane t.layout lane) ((s.leader lane).wave % 2) w).reads := by
    rw [readsAt, hw?]
  -- the lane after `IssueWave`, whichever phase comes next
  have hlane' : ∀ l : Leader, l.sequence = l.wave + 1 →
      l.nextReadySequence = (s.leader lane).nextReadySequence →
      l.bankIssued = update (s.leader lane).bankIssued ((s.leader lane).wave % 2) true →
      l.bankPublished = (s.leader lane).bankPublished →
      l.bankSequence = (s.leader lane).bankSequence →
      l.pending = update (s.leader lane).pending ((s.leader lane).wave % 2)
        (pendingWave t lane (s.leader lane).wave (s.leader lane).sequence w) →
      let s' : State α := { s with
        flight := update s.flight lane (s.flight lane ++ (issueWave t lane
          (projectionForLane t.layout lane) ((s.leader lane).wave % 2) w).reads.map
            (⟨(s.leader lane).wave, ·⟩))
        leader := update s.leader lane l }
      PhaseOk t s' lane ⟨(s.leader lane).wave + 1, v.published, v.known⟩ →
      LaneInv t token₀ gradient₀ s' lane ⟨(s.leader lane).wave + 1, v.published, v.known⟩ := by
    intro l h₁ h₂ h₃ h₄ h₅ h₆ s' hphase
    refine ⟨hphase, fun _ => ?_, h.ready, h.abort, h.items, fun f hf => ?_, fun k hk hk' r hr => ?_,
      h.helpers_of_eq rfl rfl rfl rfl⟩
    · rw [show s'.leader lane = l from update_self _ _ _]
      refine ⟨h₁, by rw [h₂]; exact hl.nextReady, fun b hb => ?_, by rw [h₄]; exact hl.bankPublished,
        by rw [h₅]; exact hl.bankSequence, fun k w' hk hk' hkw => ?_⟩
      · rw [h₃]
        rcases eq_or_ne b ((s.leader lane).wave % 2) with rfl | hne
        · rw [update_self]
          exact iff_of_true rfl ⟨(s.leader lane).wave, by dsimp only; omega, by dsimp only; omega, rfl⟩
        · rw [update_of_ne hne, hl.bankIssued b hb]
          refine exists_congr fun k => ⟨fun hk => ?_, fun hk => ?_⟩ <;> dsimp only at hk ⊢ <;> omega
      · dsimp only at hk hk'
        rw [h₆]
        rcases eq_or_ne k (s.leader lane).wave with rfl | hne
        · rw [hw?, Option.some.injEq] at hkw
          rw [update_self, hkw, hl.sequence]
        · rw [update_of_ne (by omega)]
          exact hl.pending k w' hk (by omega) hkw
    · rw [show s'.flight lane = _ from update_self _ _ _] at hf
      rcases List.mem_append.1 hf with hf | hf
      · have := h.flights f hf
        exact ⟨this.1, by dsimp only; omega, this.2.2⟩
      · obtain ⟨r, hr, rfl⟩ := List.mem_map.1 hf
        exact ⟨by dsimp only; omega, by dsimp only; omega, by rw [hreads]; exact hr⟩
    · rw [show s'.flight lane = _ from update_self _ _ _]
      rcases eq_or_ne k (s.leader lane).wave with rfl | hne
      · rw [hreads] at hr
        exact .inl (List.mem_append_right _ (List.mem_map.2 ⟨r, hr, rfl⟩))
      · exact (h.staged k hk (by dsimp only at hk'; omega) r hr).imp_left (List.mem_append_left _)
  split at hstep
  · next hseq =>
    subst hstep
    refine ⟨rfl, _, hlane' _ hl.sequence rfl rfl rfl rfl rfl ?_⟩
    rw [hl.sequence, kReduceGradBankCount] at hseq
    simp only [PhaseOk, update_self]
    exact .inl ⟨hwave, by omega, rfl, hpub, hknown⟩
  · next hseq =>
    subst hstep
    rw [hl.sequence, kReduceGradBankCount] at hseq
    refine ⟨rfl, _, hlane' _ ?_ rfl rfl rfl rfl rfl ?_⟩
    · simp only [Leader.nextWave, hl.sequence]
      omega
    · simp only [PhaseOk, update_self, Leader.nextWave]
      exact ⟨by omega, trivial, by omega, by omega, fun _ _ _ _ hlt => absurd hlt (Nat.not_lt_zero _)⟩

theorem leader_complete (hp : (s.leader lane).phase = .complete) :
    KeepsLane t token₀ gradient₀ lane s s' := by
  have hph := h.phase
  simp only [PhaseOk, hp] at hph
  have hl := h.locals (by rw [hp]; rfl)
  obtain ⟨hlt, hltn, hclose⟩ := hph.spec
  obtain ⟨w, hw⟩ : ∃ w, (laneWaves t lane)[v.published]? = some w := ⟨_, List.getElem?_eq_getElem hltn⟩
  have hpending := hl.pending _ w (Nat.le_refl _) hlt hw
  have hissued : (s.leader lane).bankIssued (v.published % 2) = true :=
    (hl.bankIssued _ (Nat.mod_lt _ (by decide))).2 ⟨_, Nat.le_refl _, hlt, rfl⟩
  have hok : ¬ (¬ (s.leader lane).bankIssued (v.published % 2) = true ∨
      ((s.leader lane).pending (v.published % 2)).sequence ≠ (s.leader lane).nextReadySequence) := by
    rw [hissued, hpending, hl.nextReady]
    simp [pendingWave]
  simp only [leaderStep, hp, hl.bankOf_nextReady, hok, if_false] at hstep
  split at hstep
  · cases hstep
  next hfly =>
  rw [hpending] at hstep hfly
  obtain rfl := some.inj hstep
  have hitem : ∀ b, (s.setItem lane (v.published % 2)
      ((pendingWave t lane v.published (v.published + 1) w).item t)).item lane b =
      update (s.item lane) (v.published % 2) (itemAt t lane v.published) b := by
    intro b
    show update s.item lane _ lane b = _
    rw [update_self, itemAt, hw]
  refine ⟨rfl, v, ?_, fun _ => ?_, h.ready, h.abort, fun k hk hk' => ?_, h.flights, h.staged,
    h.helpers_of_eq rfl rfl rfl rfl⟩
  · simp only [PhaseOk, State.setLeader, update_self]
    refine ⟨hph, by rw [hitem, update_self], fun f hf => Nat.lt_of_not_le fun hle => hfly ⟨f, hf, hle⟩⟩
  · rw [show ((s.setItem lane _ _).setLeader lane _).leader lane = _ from update_self _ _ _]
    exact hl.setPhase _
  · show (s.setItem lane _ _).item lane (k % 2) = _
    rw [hitem, update_of_ne (by omega)]
    exact h.items k hk hk'

theorem leader_publish (hn : (laneWaves t lane).length ≤ 2 ^ 32 - 2) (hp : (s.leader lane).phase = .publish) :
    KeepsLane t token₀ gradient₀ lane s s' := by
  have hph := h.phase
  simp only [PhaseOk, hp] at hph
  obtain ⟨hbetween, hitem, hflight⟩ := hph
  have hl := h.locals (by rw [hp]; rfl)
  obtain ⟨hlt, hltn, hclose⟩ := hbetween.spec
  obtain ⟨w, hw⟩ : ∃ w, (laneWaves t lane)[v.published]? = some w := ⟨_, List.getElem?_eq_getElem hltn⟩
  have hpending := hl.pending _ w (Nat.le_refl _) hlt hw
  simp only [leaderStep, hp, hl.bankOf_nextReady, hpending, Option.some.injEq] at hstep
  have hlocals : ∀ l : Leader, l.sequence = l.wave + 1 →
      l.nextReadySequence = ((s.leader lane).nextReadySequence + 1) % 2 ^ 32 →
      l.bankIssued = update (s.leader lane).bankIssued (v.published % 2) false →
      l.bankPublished = update (s.leader lane).bankPublished (v.published % 2) true →
      l.bankSequence = update (s.leader lane).bankSequence (v.published % 2) (v.published + 1) →
      l.pending = (s.leader lane).pending →
      Locals t lane l ⟨v.issued, v.published + 1, v.known⟩ := by
    intro l h₁ h₂ h₃ h₄ h₅ h₆
    have hbanks := h.phase.bounds.banks
    have hknown := h.phase.bounds.known
    refine ⟨h₁, by rw [h₂, hl.nextReady]; dsimp only; omega, fun b hb => ?_, fun b hb => ?_,
      fun k hk hk' => ?_, fun k w' hk hk' => by rw [h₆]; exact hl.pending k w' (by dsimp only at hk; omega) hk'⟩
    · rw [h₃]
      rcases eq_or_ne b (v.published % 2) with rfl | hne
      · rw [update_self]
        refine iff_of_false Bool.false_ne_true ?_
        rintro ⟨k, hk, hk', hpar⟩
        dsimp only at hk hk'
        omega
      · rw [update_of_ne hne, hl.bankIssued b hb]
        refine exists_congr fun k => ⟨fun hk => ?_, fun hk => ?_⟩ <;> dsimp only at hk ⊢ <;> omega
    · rw [h₄]
      rcases eq_or_ne b (v.published % 2) with rfl | hne
      · rw [update_self]
        exact iff_of_true rfl ⟨v.published, h.phase.bounds.known, Nat.lt_succ_self _, rfl⟩
      · rw [update_of_ne hne, hl.bankPublished b hb]
        refine exists_congr fun k => ⟨fun hk => ?_, fun hk => ?_⟩ <;> dsimp only at hk ⊢ <;> omega
    · dsimp only at hk hk'
      rw [h₅]
      rcases eq_or_ne k v.published with rfl | hne
      · rw [update_self]
      · rw [update_of_ne (by omega)]
        exact hl.bankSequence k hk (by omega)
  rw [show (pendingWave t lane v.published (v.published + 1) w).sequence = v.published + 1 from rfl] at hstep
  split at hstep
  · next hwave =>
    subst hstep
    refine ⟨rfl, ⟨v.issued, v.published + 1, v.known⟩, h.publish rfl rfl rfl hitem hflight ?_
      fun _ => hlocals _ ?_ rfl rfl rfl rfl rfl⟩
    · simp only [PhaseOk, State.setLeader, update_self, Leader.nextWave]
      rcases hbetween with hph | hph
      · exact ⟨hwave, by omega, by omega, by omega, fun _ _ _ _ hlt => absurd hlt (Nat.not_lt_zero _)⟩
      · omega
    · simp only [Leader.nextWave, hl.sequence]
      omega
  · next hwave =>
    subst hstep
    refine ⟨rfl, ⟨v.issued, v.published + 1, v.known⟩, h.publish rfl rfl rfl hitem hflight ?_
      fun _ => hlocals _ hl.sequence rfl rfl rfl rfl rfl⟩
    simp only [PhaseOk, State.setLeader, update_self]
    rcases hbetween with hph | hph <;> omega

theorem leader_drain (hp : (s.leader lane).phase = .drain) :
    KeepsLane t token₀ gradient₀ lane s s' := by
  have hph := h.phase
  simp only [PhaseOk, hp] at hph
  have hl := h.locals (by rw [hp]; rfl)
  simp only [leaderStep, hp, Option.some.injEq] at hstep
  subst hstep
  refine ⟨rfl, v, h.setPhase hl ?_⟩
  simp only [PhaseOk, State.setLeader, update_self, hl.nextReady, hl.sequence]
  by_cases hlt : v.published + 1 < (s.leader lane).wave + 1
  · rw [if_pos hlt]
    exact .inr (by omega)
  · rw [if_neg hlt]
    exact ⟨by omega, by omega, by omega, by omega, fun k _ _ => ⟨fun hb => absurd hb (Nat.not_lt_zero _),
      fun _ _ _ _ hb => absurd hb (Nat.not_lt_zero _)⟩⟩

theorem leader_lastAwait (hL : t.layout.Accepted) (hfresh : Fresh t token₀)
    (hn : (laneWaves t lane).length ≤ 2 ^ 32 - 2) {bank : ℕ} (hp : (s.leader lane).phase = .lastAwait bank helper) :
    KeepsLane t token₀ gradient₀ lane s s' := by
  have hph := h.phase
  simp only [PhaseOk, hp] at hph
  obtain ⟨hwave, hissued, hpub, hknown, hserved⟩ := hph
  have hl := h.locals (by rw [hp]; rfl)
  simp only [leaderStep, hp] at hstep
  split at hstep
  · next hbank =>
    rw [kReduceGradBankCount] at hbank
    obtain rfl := some.inj hstep
    have hall' : Served t s lane (laneWaves t lane).length fun _ => True := by
      intro blockIdx helperIndex hb _
      rcases Nat.eq_zero_or_pos (laneWaves t lane).length with h0 | hpos
      · omega
      · have := (hserved ((laneWaves t lane).length - 1) (by omega) (by omega)).1 (by omega) _ _ hb trivial
        omega
    refine ⟨rfl, ⟨v.issued, v.published, (laneWaves t lane).length⟩, h.setLeader rfl rfl
      (by dsimp only; omega) hall' ?_ fun hb => by cases hb⟩
    simp only [PhaseOk, State.setLeader, update_self]
    exact ⟨by rw [hl.sequence, hwave], hissued, hpub, trivial⟩
  next hbank =>
  rw [kReduceGradBankCount] at hbank
  split at hstep
  · next hcond =>
    obtain ⟨k, hk, hk', hpar⟩ := (hl.bankPublished bank (by omega)).1 hcond.1
    rw [← hpar] at hstep
    obtain ⟨rfl, hdone⟩ := waitForHelper_spec hfresh hn h (by omega) hk' (hl.bankSequence k hk hk') hstep
    refine ⟨rfl, v, h.setPhase hl ?_⟩
    simp only [PhaseOk, State.setLeader, update_self]
    refine ⟨hwave, hissued, hpub, hknown, fun k' hk₁ hk₂ => ⟨fun hb => (hserved k' hk₁ hk₂).1 (by omega),
      fun hb blockIdx helperIndex hblock hlt => ?_⟩⟩
    obtain rfl : k' = k := by omega
    rcases Nat.lt_or_ge helperIndex helper with hlt' | hge
    · exact (hserved k' hk₁ hk₂).2 (by omega) _ _ hblock hlt'
    · obtain rfl : helperIndex = helper := by omega
      exact hdone _ hblock
  · next hcond =>
    obtain rfl := some.inj hstep
    refine ⟨rfl, v, h.setPhase hl ?_⟩
    simp only [PhaseOk, State.setLeader, update_self]
    refine ⟨hwave, hissued, hpub, hknown, fun k hk hk' => ⟨fun hb => ?_, fun _ _ _ _ hb =>
      absurd hb (Nat.not_lt_zero _)⟩⟩
    rcases Nat.lt_or_ge (k % 2) bank with hlt | hge
    · exact (hserved k hk hk').1 hlt
    · -- all helpers have been waited for
      have hpar : k % 2 = bank := by omega
      have hpublished := (hl.bankPublished bank (by omega)).2 ⟨k, by omega, by omega, hpar⟩
      intro blockIdx helperIndex hblock _
      refine (hserved k hk hk').2 hpar _ _ hblock (Nat.lt_of_not_le fun hle => hcond ⟨hpublished, ?_⟩)
      exact Nat.lt_of_le_of_lt hle (hblock.index_lt hL)

theorem leader_terminal (hp : (s.leader lane).phase = .terminal) :
    KeepsLane t token₀ gradient₀ lane s s' := by
  have hph := h.phase
  simp only [PhaseOk, hp] at hph
  obtain ⟨hseq, hissued, hpub, hknown⟩ := hph
  simp only [leaderStep, hp, hseq, bankOf_succ, Option.some.injEq] at hstep
  subst hstep
  refine ⟨rfl, v, ?_, ?_, h.ready, h.abort, fun k hk hk' => absurd hk' (by omega), h.flights, h.staged,
    h.helpers_of_eq rfl rfl rfl rfl⟩
  · simp only [PhaseOk, State.setLeader, State.setItem, update_self, itemAt, List.getElem?_eq_none (Nat.le_refl _)]
    exact ⟨trivial, hissued, hpub, hknown, trivial⟩
  · rw [show ((s.setItem lane _ _).setLeader lane _).leader lane = _ from update_self _ _ _]
    nofun

theorem leader_terminalPublish (hp : (s.leader lane).phase = .terminalPublish) :
    KeepsLane t token₀ gradient₀ lane s s' := by
  have hph := h.phase
  simp only [PhaseOk, hp] at hph
  obtain ⟨hseq, hissued, hpub, hknown, hitem⟩ := hph
  simp only [leaderStep, hp, hseq, bankOf_succ, Option.some.injEq] at hstep
  rw [← hpub] at hstep hitem
  subst hstep
  refine ⟨rfl, ⟨v.issued, v.published + 1, v.known⟩, h.publish rfl rfl rfl hitem (fun f hf => ?_) ?_ nofun⟩
  · have := h.flights f hf
    omega
  · simp only [PhaseOk, State.setLeader, update_self]
    omega

end

/-- Every step of a leader keeps its lane in order, and fails nothing. -/
theorem leaderStep_inv (hL : t.layout.Accepted) (hlane : lane < t.layout.laneCount) (hfresh : Fresh t token₀)
    (hn : (laneWaves t lane).length ≤ 2 ^ 32 - 2) (h : LaneInv t token₀ gradient₀ s lane v)
    (hstep : leaderStep t lane s = some s') : KeepsLane t token₀ gradient₀ lane s s' := by
  cases hp : (s.leader lane).phase with
  | begins => exact leader_begins h hstep hL hlane hp
  | await helper => exact leader_await h hstep hL hfresh hn hp
  | issue => exact leader_issue h hstep hL hlane hp
  | complete => exact leader_complete h hstep hp
  | publish => exact leader_publish h hstep hn hp
  | drain => exact leader_drain h hstep hp
  | lastAwait bank helper => exact leader_lastAwait h hstep hL hfresh hn hp
  | terminal => exact leader_terminal h hstep hp
  | terminalPublish => exact leader_terminalPublish h hstep hp
  | finished => simp [leaderStep, hp] at hstep

end Moving

end TileXR.ReduceGrad
