import TileXR.ReduceGrad.PullMoves

/-!
# The two banks of a lane

A run keeps a record of the items the leaders publish and of the items the helpers take up. Records are
what the positions of leader and helpers say: the leader has published the first items of its lane
(`Leader.published`), a helper has taken up the first ones of them (`HelperPhase.taken`). With the
invariant of the launch this gives all a lane promises (`Orderly`): items are taken up once and in order,
with what was read for them in place; what the leader is about to write nobody may still read; and the
lane goes on until all its blocks have returned.
-/

namespace TileXR.ReduceGrad
open Lib List
open Function (update update_self update_of_ne)

/-! ## Teams -/

/-- Leader and helpers of a lane agree on who they are: the blocks of the lane are the ones from
`helperBegin` on, as many as the leader waits for, and each knows its place among them. -/
structure Team (L : Layout) (lane : ℕ) : Prop where
  pos : 0 < helperShape L lane
  block : ∀ blockIdx, L.laneCount ≤ blockIdx ∧ blockIdx < L.blockDim ∧ (helperLane L blockIdx).1 = lane ↔
    ∃ helperIndex < helperShape L lane, blockIdx = helperBegin L lane + helperIndex
  place : ∀ helperIndex < helperShape L lane, helperLane L (helperBegin L lane + helperIndex) =
    (lane, helperIndex, helperShape L lane)

theorem team_of_accepted {L : Layout} (hL : L.Accepted) {lane : ℕ} (hlane : lane < L.laneCount) : Team L lane := by
  have hplace : ∀ helperIndex < helperShape L lane,
      IsHelper L (helperBegin L lane + helperIndex) lane helperIndex := by
    intro helperIndex hidx
    obtain ⟨blockIdx, hlo, hhi, heq⟩ := exists_helper hL hlane hidx
    have hb : IsHelper L blockIdx lane helperIndex := ⟨hlo, hhi, heq⟩
    rw [← hb.block_eq hL]
    exact hb
  refine ⟨helperShape_pos hL lane, fun blockIdx => ⟨?_, ?_⟩, fun helperIndex hidx => (hplace _ hidx).eq⟩
  · rintro ⟨hlo, hhi, rfl⟩
    have hb := isHelper_of_block hL hlo hhi
    exact ⟨_, hb.index_lt hL, hb.block_eq hL⟩
  · rintro ⟨helperIndex, hidx, rfl⟩
    have hb := hplace _ hidx
    exact ⟨hb.lo, hb.hi, congrArg Prod.fst hb.eq⟩

section Defs
variable {α : Type*} (t : Task α)

/-! ## Records -/

/-- The item a step of a leader makes ready, with the lane. -/
def publishedBy (s : State α) : Actor → Option (ℕ × Item)
  | .leader lane =>
    match (s.leader lane).phase with
    | .publish => some (lane, s.item lane (bankOf (s.leader lane).nextReadySequence))
    | .terminalPublish => some (lane, s.item lane (bankOf (s.leader lane).sequence))
    | _ => none
  | _ => none

/-- The item a step of a helper takes up, with the block. -/
def takenBy (s : State α) : Actor → Option (ℕ × Item)
  | .helper blockIdx =>
    let item := s.item (helperLane t.layout blockIdx).1 (bankOf (s.helper blockIdx).sequence)
    match (s.helper blockIdx).phase with
    | .loading => if item.token = laneToken t (s.helper blockIdx).sequence then some (blockIdx, item) else none
    | _ => none
  | _ => none

def record (log : ℕ → List Item) : Option (ℕ × Item) → ℕ → List Item
  | none => log
  | some (i, item) => update log i (log i ++ [item])

/-- A state with what each lane has published and each helper has taken up on the way to it. -/
structure Trace (α : Type*) where
  state : State α
  published : ℕ → List Item
  taken : ℕ → List Item

def Trace.start (s : State α) : Trace α := ⟨s, fun _ => [], fun _ => []⟩

def Trace.step [Add α] (x : Trace α) (a : Actor) : Option (Trace α) :=
  (ReduceGrad.step t x.state a).map fun s =>
    ⟨s, record x.published (publishedBy x.state a), record x.taken (takenBy t x.state a)⟩

/-! ## What a lane promises -/

def laneItems (lane : ℕ) : List Item :=
  (List.range ((laneWaves t lane).length + 1)).map (itemAt t lane)

/-- The helper reads the bank of its sequence number, or finds it ready when it looks next. -/
def MayRead (s : State α) (blockIdx : ℕ) : Prop :=
  let h := s.helper blockIdx
  match h.phase with
  | .waiting => s.token (helperLane t.layout blockIdx).1 (bankReady (bankOf h.sequence)) =
      laneToken t h.sequence
  | .loading | .adding .. | .storing .. => True
  | .done | .last | .finished => False

/-- The bank into which the next step of a leader posts reads or copies an item. -/
def Leader.writes (l : Leader) : Option ℕ :=
  match l.phase with
  | .issue | .terminal => some (bankOf l.sequence)
  | .complete => some (bankOf l.nextReadySequence)
  | _ => none

structure Orderly [Add α] (x : Trace α) (lane : ℕ) : Prop where
  published : x.published lane <+: laneItems t lane
  order : ∀ blockIdx helperIndex, IsHelper t.layout blockIdx lane helperIndex →
    x.taken blockIdx <+: x.published lane
  all : LaneFinished t x.state lane → x.published lane = laneItems t lane ∧
    ∀ blockIdx helperIndex, IsHelper t.layout blockIdx lane helperIndex →
      x.taken blockIdx = x.published lane
  /-- the bank a helper may read holds the item of its sequence number and what was read for it, and
  nothing is on its way there -/
  payload : ∀ blockIdx helperIndex, IsHelper t.layout blockIdx lane helperIndex → MayRead t x.state blockIdx →
    let k := x.state.served blockIdx
    let bank := bankOf (x.state.helper blockIdx).sequence
    (x.published lane)[k]? = some (x.state.item lane bank) ∧
      (∀ r ∈ readsAt t lane k, Staged t x.state r) ∧
      ∀ f ∈ x.state.flight lane, f.read.localOffset + f.read.bytes ≤ bankPayload t.layout lane bank ∨
        bankPayload t.layout lane bank + t.layout.bankStrideBytes ≤ f.read.localOffset
  exclusive : ∀ blockIdx helperIndex, IsHelper t.layout blockIdx lane helperIndex →
    MayRead t x.state blockIdx →
      (x.state.leader lane).writes ≠ some (bankOf (x.state.helper blockIdx).sequence)
  progress : ¬ LaneFinished t x.state lane →
    ∃ a s', a.lane t.layout = lane ∧ step t x.state a = some s' ∧ s'.status = 0

/-! ## Positions -/

/-- The number of items a leader has published, of a lane with `n` waves. -/
def Leader.published (l : Leader) (n : ℕ) : ℕ :=
  match l.phase with
  | .finished => n + 1
  | .terminal | .terminalPublish => n
  | _ => l.nextReadySequence - 1

/-- The number of items a helper has taken up when it is through with `c`. -/
def HelperPhase.taken (phase : HelperPhase α) (c : ℕ) : ℕ :=
  match phase with
  | .waiting | .loading => c
  | _ => c + 1

end Defs

section Facts
variable {α : Type*} {t : Task α} {s s' : State α} [Add α] {token₀ : ℕ → ℕ → ℕ} {gradient₀ : ℕ → ℕ → α}
  {lane blockIdx helperIndex : ℕ} {v : View}

theorem record_self (log : ℕ → List Item) (i : ℕ) (item : Item) :
    record log (some (i, item)) i = log i ++ [item] := update_self _ _ _

theorem record_of_ne (log : ℕ → List Item) {i j : ℕ} (h : j ≠ i) (item : Item) :
    record log (some (i, item)) j = log j := update_of_ne h _ _

/-! ## Published items -/

theorem LaneInv.published_eq (h : LaneInv t token₀ gradient₀ s lane v) :
    (s.leader lane).published (laneWaves t lane).length = v.published := by
  have hphase := h.phase
  have hloc := h.locals
  unfold PhaseOk at hphase
  unfold Leader.published
  dsimp only at hphase ⊢
  split <;> rename_i hp
  · simp only [hp] at hphase; omega
  · simp only [hp] at hphase; omega
  · simp only [hp] at hphase; omega
  · have hbusy : (s.leader lane).phase.busy = true := by
      unfold LeaderPhase.busy
      split <;> simp_all
    rw [(hloc hbusy).nextReady]
    rfl

theorem LeaderMove.published (hn : (laneWaves t lane).length ≤ 2 ^ 32 - 2) (h : LaneInv t token₀ gradient₀ s lane v)
    {l : Leader} {posted : ℕ} (hm : LeaderMove t lane (s.leader lane) l posted) :
    publishedBy s (.leader lane) = none ∧ l.published (laneWaves t lane).length = v.published ∨
      publishedBy s (.leader lane) = some (lane, itemAt t lane v.published) ∧
        l.published (laneWaves t lane).length = v.published + 1 := by
  have heq := h.published_eq
  have hphase := h.phase
  have hloc := h.locals
  unfold PhaseOk at hphase
  dsimp only at hphase
  have hnext : (s.leader lane).phase = .publish →
      publishedBy s (.leader lane) = some (lane, itemAt t lane v.published) ∧
        (s.leader lane).nextReadySequence + 1 < 2 ^ 32 := by
    intro hp
    have hl := (hloc (by rw [hp]; rfl)).nextReady
    simp only [hp] at hphase
    obtain ⟨hbetween, hitem, -⟩ := hphase
    refine ⟨?_, ?_⟩
    · simp only [publishedBy, hp, hl, bankOf_succ, hitem]
    · rcases hbetween with hb | hb <;> omega
  cases hm with
  | begins hp | noWave hp | await hp | free _ hp | issue _ _ hp | complete hp | drain hp | drained hp
  | lastAwait hp | nextBank hp | terminal hp =>
    -- most steps change nothing that counts
    refine .inl ⟨by simp only [publishedBy, hp], .trans ?_ heq⟩
    simp only [Leader.published, hp]
  | first _ _ hp =>
    refine .inl ⟨by simp only [publishedBy, hp], .trans ?_ heq⟩
    simp only [Leader.published, Leader.nextWave, hp]
  | publish _ _ _ hp | publishRest _ _ _ hp =>
    have hl := (hloc (by rw [hp]; rfl)).nextReady
    refine .inr ⟨(hnext hp).1, ?_⟩
    simp only [Leader.published, Leader.nextWave, Nat.mod_eq_of_lt (hnext hp).2]
    omega
  | served hp =>
    simp only [hp] at hphase
    exact .inl ⟨by simp only [publishedBy, hp], hphase.2.2.1.symm⟩
  | last hp =>
    simp only [hp] at hphase
    obtain ⟨hseq, -, hpub, -, hitem⟩ := hphase
    refine .inr ⟨?_, ?_⟩
    · simp only [publishedBy, hp, hseq, bankOf_succ, hitem, hpub]
    · simp only [Leader.published, hpub]

/-! ## Items taken up -/

theorem HelperMove.taken (hn : (laneWaves t lane).length ≤ 2 ^ 32 - 2)
    (hb : IsHelper t.layout blockIdx lane helperIndex) (hv : LaneInv t token₀ gradient₀ s lane v) {h : Helper α}
    (hm : HelperMove t lane helperIndex (s.helper blockIdx) h) : takenBy t s (.helper blockIdx) = none ∧
        h.phase.taken (h.sequence - 1) = (s.helper blockIdx).phase.taken (s.served blockIdx) ∨
      takenBy t s (.helper blockIdx) = some (blockIdx, itemAt t lane (s.served blockIdx)) ∧
        (s.helper blockIdx).phase.taken (s.served blockIdx) = s.served blockIdx ∧
        h.phase.taken (h.sequence - 1) = s.served blockIdx + 1 := by
  have hi := hv.helpers _ _ hb
  have hok := hi.phase
  unfold HelperOk at hok
  dsimp only at hok
  have hitem : (s.helper blockIdx).phase = .loading →
      takenBy t s (.helper blockIdx) = some (blockIdx, itemAt t lane (s.served blockIdx)) := by
    intro hp
    simp only [hp] at hok
    have htoken : (itemAt t lane (s.served blockIdx)).token = laneToken t (s.served blockIdx + 1) := by
      unfold itemAt
      split <;> rfl
    simp only [takenBy, hb.eq, hp]
    rw [hi.sequence, bankOf_succ, hv.items _ hi.known hok, if_pos htoken]
  cases hm with
  | skip hp | take hp | terminal hp =>
    exact .inr ⟨hitem hp, by simp only [HelperPhase.taken, hp], by simp only [HelperPhase.taken, State.served]⟩
  | ready hp | add hp | added hp | store hp | stored hp | last hp =>
    exact .inl ⟨by simp only [takenBy, hp], by simp only [HelperPhase.taken, hp, State.served]⟩
  | done hp =>
    refine .inl ⟨by simp only [takenBy, hp], ?_⟩
    simp only [hp] at hok
    have hseq := hi.sequence
    simp only [HelperPhase.taken, hp]
    rw [hseq, Nat.mod_eq_of_lt (by omega)]
    rfl

end Facts

/-! ## Records of a run -/

section Runs
variable {α : Type*} {t : Task α} [Add α] {token₀ : ℕ → ℕ → ℕ} {gradient₀ : ℕ → ℕ → α} {x x' : Trace α}

/-- The records are what the positions say. -/
structure Recorded (t : Task α) (token₀ : ℕ → ℕ → ℕ) (gradient₀ : ℕ → ℕ → α) (x : Trace α) : Prop where
  inv : Inv t token₀ gradient₀ x.state
  published : ∀ lane < t.layout.laneCount, x.published lane =
    (List.range ((x.state.leader lane).published (laneWaves t lane).length)).map (itemAt t lane)
  taken : ∀ blockIdx lane helperIndex, IsHelper t.layout blockIdx lane helperIndex → x.taken blockIdx =
    (List.range ((x.state.helper blockIdx).phase.taken (x.state.served blockIdx))).map (itemAt t lane)

theorem recorded_start (hplan : t.PlanOk) (item : ℕ → ℕ → Item) (workspace : ℕ → α) :
    Recorded t token₀ gradient₀ (.start (start t token₀ item workspace gradient₀)) :=
  ⟨inv_start hplan item workspace, fun _ _ => rfl, fun _ _ _ _ => rfl⟩

theorem LaneInv.not_aborted {s : State α} {lane : ℕ} {v : View} (hfresh : Fresh t token₀)
    (h : LaneInv t token₀ gradient₀ s lane v) : ¬ s.laneAborted t lane := by
  rw [State.laneAborted, h.abort]
  exact hfresh.ne (by decide) _

theorem recorded_step (hL : t.layout.Accepted) (hfresh : Fresh t token₀) (hn : t.Counted)
    (h : Recorded t token₀ gradient₀ x) {a : Actor} (hstep : x.step t a = some x') :
    Recorded t token₀ gradient₀ x' := by
  obtain ⟨s', hs', rfl⟩ := Option.map_eq_some_iff.1 hstep
  have hinv' := step_inv hL hfresh hn h.inv hs'
  cases a with
  | leader lane =>
    rw [step] at hs'
    split at hs'
    · next hlane =>
      have hout := leaderStep_outside hs'
      obtain ⟨v, hv⟩ := h.inv.lanes lane hlane
      obtain ⟨posted, hm, -⟩ := leaderStep_move hinv'.status (hv.not_aborted hfresh) hs'
      refine ⟨hinv', fun lane' hlane' => ?_, fun blockIdx lane' helperIndex hb => ?_⟩
      · have hold := h.published lane' hlane'
        rcases eq_or_ne lane' lane with rfl | hne
        · rw [hv.published_eq] at hold
          rcases hm.published (hn _ hlane) hv with ⟨hnone, heq⟩ | ⟨hsome, heq⟩
          · rw [hnone, heq]
            exact hold
          · dsimp only
            rw [hsome, record_self, hold, heq, range_succ, map_append]
            rfl
        · dsimp only
          rw [hout.leader _ hne, ← hold]
          rcases hm.published (hn _ hlane) hv with ⟨hnone, -⟩ | ⟨hsome, -⟩
          · rw [hnone]; rfl
          · rw [hsome, record_of_ne _ hne]
      · rw [State.served, hout.helper]
        exact h.taken blockIdx lane' helperIndex hb
    · cases hs'
  | helper blockIdx =>
    rw [step] at hs'
    split at hs'
    · next hblock =>
      have hb := isHelper_of_block hL hblock.1 hblock.2
      have hmoves := helperStep_moves hb hs'
      obtain ⟨v, hv⟩ := h.inv.lanes _ (hb.lane_lt hL)
      have hm := helperStep_move hb hinv'.status (hv.not_aborted hfresh) hs'
      refine ⟨hinv', fun lane' hlane' => ?_, fun blockIdx' lane' helperIndex' hb' => ?_⟩
      · dsimp only
        rw [hmoves.leader]
        exact h.published lane' hlane'
      · have hold := h.taken blockIdx' lane' helperIndex' hb'
        have hcases := hm.taken (hn _ (hb.lane_lt hL)) hb hv
        rcases eq_or_ne blockIdx' blockIdx with rfl | hne
        · obtain ⟨rfl, -⟩ := hb'.unique hb
          rw [State.served]
          rcases hcases with ⟨hnone, heq⟩ | ⟨hsome, hnow, heq⟩
          · rw [hnone, heq]
            exact hold
          · dsimp only
            rw [hsome, record_self, hold, heq, hnow, range_succ, map_append]
            rfl
        · dsimp only
          rw [State.served, hmoves.helper _ hne]
          refine Eq.trans ?_ hold
          rcases hcases with ⟨hnone, -⟩ | ⟨hsome, -⟩
          · rw [hnone]; rfl
          · rw [hsome, record_of_ne _ hne]
    · cases hs'
  | transfer lane index =>
    rw [step] at hs'
    split at hs'
    · obtain ⟨f, -, rfl⟩ := Option.map_eq_some_iff.1 hs'
      exact ⟨hinv', h.published, h.taken⟩
    · cases hs'

/-! ## The promise is kept -/

variable {s : State α} {lane blockIdx helperIndex : ℕ} {v : View}

theorem MayRead.lt (hfresh : Fresh t token₀) (hn : (laneWaves t lane).length ≤ 2 ^ 32 - 2)
    (hb : IsHelper t.layout blockIdx lane helperIndex) (hv : LaneInv t token₀ gradient₀ s lane v)
    (h : MayRead t s blockIdx) : s.served blockIdx < v.published := by
  have hi := hv.helpers _ _ hb
  have hok := hi.phase
  unfold HelperOk at hok
  unfold MayRead at h
  dsimp only at hok h
  split at h
  · next hp =>
    simp only [hp] at hok
    rw [hb.eq, hi.sequence, bankOf_succ, hv.ready _ (Nat.mod_lt _ (by decide))] at h
    refine (lt_of_shown ?_ ?_ h).1
    · exact hfresh.ne (by omega) _
    · intro j _ hj
      have := laneToken_inj hj
      omega
  · next hp =>
    simp only [hp] at hok
    exact hok
  · next hp =>
    simp only [hp] at hok
    exact hok.1
  · next hp =>
    simp only [hp] at hok
    exact hok.1
  · exact h.elim
  · exact h.elim
  · exact h.elim

omit [Add α] in
theorem read_in_bank (hL : t.layout.Accepted) (hlane : lane < t.layout.laneCount) {k : ℕ} {r : Read}
    (hr : r ∈ readsAt t lane k) : bankPayload t.layout lane (k % 2) ≤ r.localOffset ∧
      r.localOffset + r.bytes ≤ bankPayload t.layout lane (k % 2) + t.layout.bankStrideBytes := by
  obtain ⟨w, o, entry, hw, ho, rfl⟩ := mem_readsAt hr
  have hlt := ordinal_lt hL hlane hw ho
  have hbytes : chunkBytesOf t (projectionForLane t.layout lane) w.chunk ≤ t.layout.chunkBytes :=
    Nat.min_le_right _ _
  have hstride := hL.bankStride_eq
  have hle : (o + 1) * t.layout.chunkBytes ≤ t.layout.rankSize * t.layout.chunkBytes :=
    Nat.mul_le_mul_right _ hlt
  rw [Nat.add_mul, Nat.one_mul] at hle
  simp only [waveRead]
  omega

omit [Add α] in
theorem bankPayload_apart (lane : ℕ) {b b' : ℕ} (hb : b < 2) (hb' : b' < 2) (hne : b ≠ b') :
    bankPayload t.layout lane b + t.layout.bankStrideBytes ≤ bankPayload t.layout lane b' ∨
      bankPayload t.layout lane b' + t.layout.bankStrideBytes ≤ bankPayload t.layout lane b := by
  have hcase : b = 0 ∧ b' = 1 ∨ b = 1 ∧ b' = 0 := by omega
  rcases hcase with ⟨rfl, rfl⟩ | ⟨rfl, rfl⟩ <;> simp only [bankPayload] <;> omega

theorem LaneInv.writes_ne (hv : LaneInv t token₀ gradient₀ s lane v)
    (hb : IsHelper t.layout blockIdx lane helperIndex) (hlt : s.served blockIdx < v.published) :
    (s.leader lane).writes ≠ some (s.served blockIdx % 2) := by
  have hknown := (hv.helpers _ _ hb).known
  have hphase := hv.phase
  have hloc := hv.locals
  unfold PhaseOk at hphase
  unfold Leader.writes
  dsimp only at hphase ⊢
  split <;> rename_i hp
  · simp only [hp] at hphase; omega
  · simp only [hp] at hphase; omega
  · -- only at the end a helper may be behind when an item is copied, and then in the other bank
    have hl := (hloc (by rw [hp]; rfl)).nextReady
    simp only [hp] at hphase
    rw [hl, bankOf_succ, ne_eq, Option.some.injEq]
    rcases hphase with h | h <;> omega
  · exact nofun

theorem orderly_of_recorded (hL : t.layout.Accepted) (hfresh : Fresh t token₀) (hn : t.Counted)
    (h : Recorded t token₀ gradient₀ x) (hlane : lane < t.layout.laneCount) : Orderly t x lane := by
  obtain ⟨v, hv⟩ := h.inv.lanes lane hlane
  have hpub := h.published lane hlane
  rw [hv.published_eq] at hpub
  have hbounds := hv.phase.bounds
  have hpre : ∀ {m n : ℕ}, m ≤ n → (List.range m).map (itemAt t lane) <+: (List.range n).map (itemAt t lane) :=
    fun {m n} hle => by
      obtain ⟨d, rfl⟩ := Nat.exists_eq_add_of_le hle
      rw [range_add, map_append]
      exact prefix_append _ _
  have htaken : ∀ blockIdx helperIndex, IsHelper t.layout blockIdx lane helperIndex →
      (x.state.helper blockIdx).phase.taken (x.state.served blockIdx) ≤ v.published := by
    intro blockIdx helperIndex hb
    have hi := hv.helpers _ _ hb
    have hok := hi.phase
    have hserved := hi.served
    unfold HelperOk at hok
    unfold HelperPhase.taken
    dsimp only at hok
    split at hok <;> simp only [*] <;> omega
  refine ⟨?_, fun blockIdx helperIndex hb => ?_, fun hfin => ?_, fun blockIdx helperIndex hb hread => ?_,
    fun blockIdx helperIndex hb hread => ?_, fun hnot => ?_⟩
  · rw [hpub]
    exact hpre hbounds.published
  · rw [hpub, h.taken _ _ _ hb]
    exact hpre (htaken _ _ hb)
  · have hphase := hv.phase
    simp only [PhaseOk, hfin.leader] at hphase
    have hall : x.published lane = laneItems t lane := by rw [hpub, hphase.2.1]; rfl
    refine ⟨hall, fun blockIdx helperIndex hb => ?_⟩
    have hok := (hv.helpers _ _ hb).phase
    simp only [HelperOk, hfin.helper _ _ hb] at hok
    rw [hall, h.taken _ _ _ hb, hfin.helper _ _ hb, hok.1]
    rfl
  · have hi := hv.helpers _ _ hb
    have hlt := hread.lt hfresh (hn lane hlane) hb hv
    dsimp only
    rw [hi.sequence, bankOf_succ, hpub, hv.items _ hi.known hlt]
    refine ⟨by rw [List.getElem?_map, List.getElem?_range hlt]; rfl, fun r hr => ?_, fun f hf => ?_⟩
    · have hissued : x.state.served blockIdx < v.issued := by
        rcases hbounds.order with ho | ho
        · omega
        · obtain ⟨w, -, -, hw, -⟩ := mem_readsAt hr
          have := (List.getElem?_eq_some_iff.1 hw).1
          omega
      rcases hv.staged _ hi.known hissued r hr with hflight | hstaged
      · have := (hv.flights _ hflight).1
        dsimp only at this
        omega
      · exact hstaged
    · obtain ⟨hlo, hhi, hr⟩ := hv.flights f hf
      have hknown := hi.known
      have hbanks := hbounds.banks
      have hin := read_in_bank hL hlane hr
      rcases bankPayload_apart (t := t) lane (Nat.mod_lt f.wave (by decide))
        (Nat.mod_lt (x.state.served blockIdx) (by decide)) (by omega) with hap | hap <;> omega
  · rw [(hv.helpers _ _ hb).sequence, bankOf_succ]
    exact hv.writes_ne hb (hread.lt hfresh (hn lane hlane) hb hv)
  · by_contra hstuck
    refine hnot (laneFinished_of_stuck hL hlane hv ?_)
    rintro ⟨a, s', ha, hs'⟩
    exact hstuck ⟨a, s', ha, hs', (step_inv hL hfresh hn h.inv hs').status⟩

end Runs

end TileXR.ReduceGrad
