import TileXR.ReduceGrad.PullLong

/-!
# Steps that do not fail

What a step of a leader or of a helper does to the variables of its block when no failure is recorded and
the lane is not aborted: one constructor for each way on (`leaderStep_move`, `helperStep_move`).
-/

namespace TileXR.ReduceGrad
open List Option
open Function (update update_self)

variable {blockIdx helperIndex : ℕ}
variable {α : Type*} {t : Task α} {s s' : State α} {lane : ℕ}

theorem State.leader_setLeader (s : State α) (lane : ℕ) (l : Leader) : (s.setLeader lane l).leader lane = l :=
  update_self _ _ _

theorem State.helper_setHelper (s : State α) (blockIdx : ℕ) (h : Helper α) :
    (s.setHelper blockIdx h).helper blockIdx = h := update_self _ _ _

/-! ## The leader -/

/-- A step of a leader that sends off `posted` reads. -/
inductive LeaderMove (t : Task α) (lane : ℕ) (l : Leader) : Leader → ℕ → Prop
  | begins (hp : l.phase = .begins) : LeaderMove t lane l { l with phase := .await 0 } 0
  | noWave {helper : ℕ} (hp : l.phase = .await helper) (hw : (laneWaves t lane).length ≤ l.wave) :
    LeaderMove t lane l { l with phase := .drain } 0
  | await {helper : ℕ} (hp : l.phase = .await helper) (hlt : helper < helperShape t.layout lane) :
    LeaderMove t lane l { l with phase := .await (helper + 1) } 0
  | free {helper : ℕ} (bankPublished : ℕ → Bool) (hp : l.phase = .await helper)
    (hw : l.wave < (laneWaves t lane).length) :
    LeaderMove t lane l { l with phase := .issue, bankPublished := bankPublished } 0
  | issue {posted : ℕ} (bankIssued : ℕ → Bool) (pending : ℕ → PendingWave) (hp : l.phase = .issue)
    (hw : l.wave < (laneWaves t lane).length) (hposted : posted ≤ t.entries) :
    LeaderMove t lane l { l with phase := .complete, bankIssued := bankIssued, pending := pending } posted
  | first {posted : ℕ} (bankIssued : ℕ → Bool) (pending : ℕ → PendingWave) (hp : l.phase = .issue)
    (hw : l.wave < (laneWaves t lane).length) (hposted : posted ≤ t.entries) :
    LeaderMove t lane l (Leader.nextWave { l with bankIssued := bankIssued, pending := pending }) posted
  | complete (hp : l.phase = .complete) : LeaderMove t lane l { l with phase := .publish } 0
  | publish (bankIssued bankPublished : ℕ → Bool) (bankSequence : ℕ → ℕ) (hp : l.phase = .publish)
    (hw : l.wave < (laneWaves t lane).length) :
    LeaderMove t lane l (Leader.nextWave { l with
      nextReadySequence := (l.nextReadySequence + 1) % 2 ^ 32, bankIssued := bankIssued
      bankPublished := bankPublished, bankSequence := bankSequence }) 0
  | publishRest (bankIssued bankPublished : ℕ → Bool) (bankSequence : ℕ → ℕ) (hp : l.phase = .publish)
    (hw : (laneWaves t lane).length ≤ l.wave) :
    LeaderMove t lane l { l with
      phase := .drain, nextReadySequence := (l.nextReadySequence + 1) % 2 ^ 32, bankIssued := bankIssued
      bankPublished := bankPublished, bankSequence := bankSequence } 0
  | drain (hp : l.phase = .drain) (hlt : l.nextReadySequence < l.sequence) :
    LeaderMove t lane l { l with phase := .complete } 0
  | drained (hp : l.phase = .drain) : LeaderMove t lane l { l with phase := .lastAwait 0 0 } 0
  | lastAwait {bank helper : ℕ} (hp : l.phase = .lastAwait bank helper)
    (hlt : helper < helperShape t.layout lane) :
    LeaderMove t lane l { l with phase := .lastAwait bank (helper + 1) } 0
  | nextBank {bank helper : ℕ} (hp : l.phase = .lastAwait bank helper) (hbank : bank < kReduceGradBankCount) :
    LeaderMove t lane l { l with phase := .lastAwait (bank + 1) 0 } 0
  | served {bank helper : ℕ} (hp : l.phase = .lastAwait bank helper) :
    LeaderMove t lane l { l with phase := .terminal } 0
  | terminal (hp : l.phase = .terminal) : LeaderMove t lane l { l with phase := .terminalPublish } 0
  | last (hp : l.phase = .terminalPublish) : LeaderMove t lane l { l with phase := .finished } 0

/-- A leader that is not aborted goes on when a helper is done. -/
theorem waitForHelper_move (hab : ¬ s.laneAborted t lane) {bank helper : ℕ} {l : Leader}
    (hstep : waitForHelper t lane bank helper l s = some s') : s' = s.setLeader lane l := by
  unfold waitForHelper at hstep
  split at hstep
  · exact (some.inj hstep).symm
  · cases hstep

theorem length_issueWave_le (lane projection bank : ℕ) (w : Wave) :
    (issueWave t lane projection bank w).reads.length ≤ t.entries := by
  have hstep : ∀ (l : List ℕ) (scan : Issue),
      (l.foldl (issueEntry t lane projection bank w) scan).reads.length ≤ scan.reads.length + l.length := by
    intro l
    induction l with
    | nil => exact fun _ => Nat.le_refl _
    | cons entry l ih =>
      intro scan
      have hentry : (issueEntry t lane projection bank w scan entry).reads.length ≤ scan.reads.length + 1 := by
        unfold issueEntry
        dsimp only
        split
        · split
          · exact Nat.le_succ _
          · split
            · rw [length_append]; exact Nat.le_refl _
            · exact Nat.le_succ _
        · exact Nat.le_succ _
      have := ih (issueEntry t lane projection bank w scan entry)
      rw [foldl_cons, length_cons]
      omega
  have := hstep (List.range t.entries) ⟨0, 0, 0, []⟩
  rw [length_nil, length_range, Nat.zero_add] at this
  exact this

theorem leaderStep_move (hstatus : s'.status = 0) (hab : ¬ s.laneAborted t lane)
    (hstep : leaderStep t lane s = some s') : ∃ posted, LeaderMove t lane (s.leader lane) (s'.leader lane) posted ∧
      (s'.flight lane).length = (s.flight lane).length + posted := by
  have hself : ∀ {s₀ : State α} {l : Leader} {posted : ℕ}, s' = s₀.setLeader lane l →
      (s₀.flight lane).length = (s.flight lane).length + posted →
      LeaderMove t lane (s.leader lane) l posted →
      ∃ posted, LeaderMove t lane (s.leader lane) (s'.leader lane) posted ∧
        (s'.flight lane).length = (s.flight lane).length + posted := by
    rintro s₀ l posted rfl hflight hm
    refine ⟨posted, ?_, hflight⟩
    rw [State.leader_setLeader]
    exact hm
  unfold leaderStep at hstep
  dsimp only at hstep
  split at hstep
  · next hp =>
    split at hstep
    · obtain rfl := some.inj hstep
      exact absurd hstatus status_failLane
    · exact hself (some.inj hstep).symm rfl (.begins hp)
  · next helper hp =>
    split at hstep
    · next hw => exact hself (some.inj hstep).symm rfl (.noWave hp hw)
    · next hw =>
      have hlt := Nat.lt_of_not_le hw
      split at hstep
      · split at hstep
        · next hhelper => exact hself (waitForHelper_move hab hstep) rfl (.await hp hhelper)
        · exact hself (some.inj hstep).symm rfl (.free _ hp hlt)
      · exact hself (some.inj hstep).symm rfl (.free _ hp hlt)
  · next hp =>
    obtain ⟨w, hw, rfl⟩ := map_eq_some_iff.1 hstep
    have hlt := (List.getElem?_eq_some_iff.1 hw).1
    unfold leaderIssue at hstatus ⊢
    dsimp only at hstatus ⊢
    split at hstatus
    · exact absurd hstatus status_failLane
    next hfree =>
    split at hstatus
    · exact absurd hstatus status_failLane
    next hall =>
    rw [if_neg hfree, if_neg hall]
    dsimp only
    rw [update_self, update_self]
    refine ⟨_, ?_, by rw [length_append, length_map]⟩
    split
    · exact .issue _ _ hp hlt (length_issueWave_le _ _ _ w)
    · exact .first _ _ hp hlt (length_issueWave_le _ _ _ w)
  · next hp =>
    split at hstep
    · obtain rfl := some.inj hstep
      exact absurd hstatus status_failLane
    · split at hstep
      · cases hstep
      · exact hself (some.inj hstep).symm rfl (.complete hp)
  · next hp =>
    split at hstep
    · next hw => exact hself (some.inj hstep).symm rfl (.publish _ _ _ hp hw)
    · next hw => exact hself (some.inj hstep).symm rfl (.publishRest _ _ _ hp (Nat.le_of_not_lt hw))
  · next hp =>
    split at hstep
    · next hlt => exact hself (some.inj hstep).symm rfl (.drain hp hlt)
    · exact hself (some.inj hstep).symm rfl (.drained hp)
  · next bank helper hp =>
    split at hstep
    · exact hself (some.inj hstep).symm rfl (.served hp)
    · next hbank =>
      split at hstep
      · next hpub => exact hself (waitForHelper_move hab hstep) rfl (.lastAwait hp hpub.2)
      · exact hself (some.inj hstep).symm rfl (.nextBank hp (Nat.lt_of_not_le hbank))
  · next hp => exact hself (some.inj hstep).symm rfl (.terminal hp)
  · next hp => exact hself (some.inj hstep).symm rfl (.last hp)
  · cases hstep

/-! ## Helpers -/

/-- A step of a helper with this index in its lane. -/
inductive HelperMove (t : Task α) (lane helperIndex : ℕ) (h : Helper α) : Helper α → Prop
  | ready (hp : h.phase = .waiting) : HelperMove t lane helperIndex h { h with phase := .loading }
  | skip (hp : h.phase = .loading) : HelperMove t lane helperIndex h { h with phase := .done }
  | take {work : Work} {accum : ℕ → α} (hp : h.phase = .loading)
    (hbytes : work.itemChunkBytes ≤ t.layout.chunkBytes)
    (hlen : work.contributors.length ≤ t.layout.rankSize) :
    HelperMove t lane helperIndex h { h with phase := .adding work helperIndex 0 0 accum }
  | terminal (hp : h.phase = .loading) : HelperMove t lane helperIndex h { h with phase := .last }
  | add {work : Work} {tile j o o' : ℕ} {accum accum' : ℕ → α} (hp : h.phase = .adding work tile j o accum)
    (hj : j < work.contributors.length) :
    HelperMove t lane helperIndex h { h with phase := .adding work tile (j + 1) o' accum' }
  | added {work : Work} {tile j o : ℕ} {accum accum' next : ℕ → α} (hp : h.phase = .adding work tile j o accum)
    (hj : j < work.contributors.length) :
    HelperMove t lane helperIndex h { h with phase := .storing work tile accum' next }
  | store {work : Work} {tile : ℕ} {accum next : ℕ → α} (hp : h.phase = .storing work tile accum next)
    (hlt : tile + helperShape t.layout lane < work.tiles) :
    HelperMove t lane helperIndex h
      { h with phase := .adding work (tile + helperShape t.layout lane) 0 0 next }
  | stored {work : Work} {tile : ℕ} {accum next : ℕ → α} (hp : h.phase = .storing work tile accum next) :
    HelperMove t lane helperIndex h { h with phase := .done }
  | done (hp : h.phase = .done) :
    HelperMove t lane helperIndex h ⟨.waiting, (h.sequence + 1) % 2 ^ 32⟩
  | last (hp : h.phase = .last) : HelperMove t lane helperIndex h { h with phase := .finished }

theorem processBankItem_move (item : Item) (hp : (s.helper blockIdx).phase = .loading)
    (hstatus : (processBankItem t blockIdx helperIndex item s).status = 0) :
    HelperMove t lane helperIndex (s.helper blockIdx)
      ((processBankItem t blockIdx helperIndex item s).helper blockIdx) := by
  unfold processBankItem at hstatus ⊢
  dsimp only at hstatus ⊢
  split at hstatus
  · exact absurd hstatus (status_publishStatus _ (by decide))
  next hok =>
  split at hstatus
  · exact absurd hstatus (status_publishStatus _ (by decide))
  next hlen =>
  split at hstatus
  · exact absurd hstatus (status_publishStatus _ (by decide))
  next hremote =>
  rw [if_neg hok, if_neg hlen, if_neg hremote]
  rw [not_not] at hlen
  split
  · rw [State.helper_setHelper]
    exact .skip hp
  · rw [State.helper_setHelper]
    refine .take hp ?_ ?_
    · dsimp only; omega
    · dsimp only; omega

theorem helperStep_move [Add α] (hb : IsHelper t.layout blockIdx lane helperIndex)
    (hstatus : s'.status = 0) (hab : ¬ s.laneAborted t lane) (hstep : helperStep t blockIdx s = some s') :
    HelperMove t lane helperIndex (s.helper blockIdx) (s'.helper blockIdx) := by
  have hself : ∀ {s₀ : State α} {h : Helper α}, s' = s₀.setHelper blockIdx h →
      HelperMove t lane helperIndex (s.helper blockIdx) h →
      HelperMove t lane helperIndex (s.helper blockIdx) (s'.helper blockIdx) := by
    rintro s₀ h rfl hm
    rw [State.helper_setHelper]
    exact hm
  simp only [helperStep, hb.eq] at hstep
  split at hstep
  · next hp =>
    split at hstep
    · exact hself (some.inj hstep).symm (.ready hp)
    · cases hstep
  · next hp =>
    split at hstep
    · obtain rfl := some.inj hstep
      exact absurd hstatus (status_publishStatus _ (by decide))
    · split at hstep
      · exact hself (some.inj hstep).symm (.terminal hp)
      · obtain rfl := some.inj hstep
        exact processBankItem_move _ hp hstatus
  · next work tile j o accum hp =>
    obtain ⟨entry, hentry, hs⟩ := map_eq_some_iff.1 hstep
    have hj := (List.getElem?_eq_some_iff.1 hentry).1
    split at hs
    · exact hself hs.symm (.add hp hj)
    · exact hself hs.symm (.added hp hj)
  · next work tile accum next hp =>
    refine hself (some.inj hstep).symm ?_
    split
    · next hlt => exact .store hp hlt
    · exact .stored hp
  · next hp => exact hself (some.inj hstep).symm (.done hp)
  · next hp => exact hself (some.inj hstep).symm (.last hp)
  · cases hstep

end TileXR.ReduceGrad
