import TileXR.Commit.Visible
import TileXR.Plan.Collective
import TileXR.Plan.Rounds

/-!
# The invariant of the planner kernel

Each rank's log is in order and says what the rank published (`LogInv`); the rows a rank has gathered
in a call are those its peers published for that call, unless the peer has skipped it (`Row`); a rank
clears a call only after every rank is past its own plan (`RankInv.cleared`). The three hang together: a
peer that overwrote its row before it was read cannot have seen the reader's ready flag, so it has not
cleared the call.
-/

namespace TileXR.Commit
open Lib Plan
variable {m : Meta} {w : Sent} {expertNum : ℕ}

/-! ## The status words of a plan -/

theorem code_nonneg (st : PlanStatus) : 0 ≤ st.code := by cases st <;> decide

theorem code_eq_zero {st : PlanStatus} (h : st.code = 0) : st = .ok := by
  cases st <;> first | rfl | exact absurd h (by decide)

/-- The words of `RunPlanAlgorithm`: the first is its status, and the rounds of a plan that is
`PLAN_OK` are too few to be taken for the debug tag. -/
theorem runPlanAlgorithm_words {x : PlanAlgorithmInput} {ws : PlanAlgorithmWorkspace} (ptr : PlanPointers)
    (haff : ws.affinityOrderValid = true → ∀ d, ∀ r ∈ ws.affinityOrder d, r < x.rankSize.toNat) :
    ∃ rounds rest, (runPlanAlgorithm x ptr ws).statusWords =
      (runPlanAlgorithm x ptr ws).status.code :: rounds :: rest ∧
      ((runPlanAlgorithm x ptr ws).status = .ok → rounds ≠ kBarrierDebugBuildTag) := by
  unfold runPlanAlgorithm
  dsimp only
  split
  · exact ⟨0, _, rfl, fun _ => by decide⟩
  rename_i hval
  have hc := validate_ok (not_not.1 hval)
  have haff' : ∀ d, ∀ r ∈ (ctxOf x ptr ws).affinityOrder d, r < (ctxOf x ptr ws).rankSize := by
    intro d r hr
    change r ∈ (if ws.affinityOrderValid then ws.affinityOrder else
      buildAffinity (ctxOf x ptr ws).toParams) d at hr
    split at hr
    · rename_i hv; exact haff hv d r hr
    · exact mem_buildAffinity.1 hr
  rcases sim_of_valid hc haff' with hsim | hover
  · have hbound : ((runMoves (ctxOf x ptr ws)).intraRounds : ℤ) ≠ kBarrierDebugBuildTag := by
      have hle := Reference.intraRounds_le hc.shared.expertsPerRank_pos hc.shared.capPos.ne' haff'
      have hR := hc.shared.rankLe
      have hsq := Nat.mul_le_mul hR hR
      rw [hsim.intraRounds]
      unfold kBarrierDebugBuildTag
      omega
    unfold planFrom
    dsimp only
    split
    · exact ⟨_, _, rfl, fun _ => hbound⟩
    · exact ⟨_, _, rfl, fun _ => hbound⟩
  · unfold planFrom
    dsimp only
    rw [if_pos hover.1]
    exact ⟨_, _, rfl, fun h => absurd h hover.1⟩

/-! ## Logs -/

section Logs
variable (sys : System) (s : State) (r : ℕ)

/-- What a published status word 0 says of the rank; the ready phase publishes none. -/
def Backed (w : Sent) : Prop :=
  match w.phase with
  | .data => ∀ n, w.call = n + 1 → Cleared s r n
  | .status => PlanOk s r w.call
  | .ready => False
  | .consensus => Cleared s r w.call

/-- A write of the rank's log is what the rank publishes in that call and phase. -/
structure WriteOk (w : Sent) : Prop where
  line0 : ∀ v, w.write.line0? = some v → v = fillLine0 sys r w.call
  line1 : ∀ v, w.write.line1? = some v → v = fillLine1 sys r w.call
  globalRankId : ∀ v, w.write.globalRankId? = some v → v = (sys.args r w.call).globalRankIds r
  status : ∀ v, w.write.status? = some v → 0 ≤ v.getD 0 0 ∧ (v.getD 0 0 = 0 → Backed s r w)
  tpe : ∀ e < (sys.args r w.call).expertNum.toNat, ∀ v, w.write.tpe? e = some v →
    v = (sys.args r w.call).tokensPerExpert e
  flag : ∀ ph v, w.write.flag? ph = some v →
    ph = w.phase ∧ v = barrierValue (sys.magic w.call) ph

/-- The rank has written to a register in a phase. -/
def Wrote {γ : Type} (sel : Write → Option γ) (n : ℕ) (ph : Phase) : Prop :=
  ∃ w ∈ s.log r, w.stamp = 4 * n + ph.index ∧ (sel w.write).isSome

structure LogInv : Prop where
  ordered : (s.log r).Pairwise Sent.Before
  stamps : ∀ w ∈ s.log r, w.stamp < s.clock r
  writes : ∀ w ∈ s.log r, WriteOk sys s r w
  line0 : ∀ n, 4 * n < s.clock r → Wrote s r Write.line0? n .data
  line1 : ∀ n, 4 * n < s.clock r → Wrote s r Write.line1? n .data
  globalRankId : ∀ n, 4 * n < s.clock r → Wrote s r Write.globalRankId? n .data
  tpe : ∀ n, 4 * n < s.clock r → ∀ e < (sys.args r n).expertNum.toNat,
    Wrote s r (Write.tpe? e) n .data
  status : ∀ n ph, ph ≠ .ready → 4 * n + ph.index < s.clock r → Wrote s r Write.status? n ph

/-- A mailbox shows the inputs of a rank for call `n`. -/
structure Shows (n : ℕ) (b : Mailbox) : Prop where
  line0 : b.line0 = fillLine0 sys r n
  line1 : b.line1 = fillLine1 sys r n
  globalRankId : b.globalRankId = (sys.args r n).globalRankIds r
  tpe : ∀ e < (sys.args r n).expertNum.toNat, b.tpe e = (sys.args r n).tokensPerExpert e

end Logs

theorem saw_self {s : State} {r τ : ℕ} (h : τ < s.clock r) : Saw s r r τ :=
  ⟨h, fun w hw _ => by rw [visible_self]; exact hw⟩

section
variable {s s' : State} (hg : Grows s s')
include hg

theorem Backed.mono {r : ℕ} (h : Backed s r w) : Backed s' r w := by
  unfold Backed at h ⊢
  cases hph : w.phase with
  | data => rw [hph] at h; exact fun n hn => hg.cleared (h n hn)
  | status => rw [hph] at h; exact hg.planOk h
  | ready => rw [hph] at h; exact h
  | consensus => rw [hph] at h; exact hg.cleared h

theorem WriteOk.mono {sys : System} {r : ℕ} (h : WriteOk sys s r w) : WriteOk sys s' r w :=
  { h with status := fun v hv => ⟨(h.status v hv).1, fun h0 => ((h.status v hv).2 h0).mono hg⟩ }

theorem Wrote.mono {γ : Type} {sel : Write → Option γ} {r n : ℕ} {ph : Phase} (h : Wrote s r sel n ph) :
    Wrote s' r sel n ph := by
  obtain ⟨w, hw, hrest⟩ := h
  exact ⟨w, hg.mem_log hw, hrest⟩

theorem LogInv.mono {sys : System} {r : ℕ} (hlog : s'.log r = s.log r)
    (hclock : s'.clock r = s.clock r) (h : LogInv sys s r) : LogInv sys s' r where
  ordered := by rw [hlog]; exact h.ordered
  stamps := by rw [hlog, hclock]; exact h.stamps
  writes := by rw [hlog]; exact fun w hw => (h.writes w hw).mono hg
  line0 := by rw [hclock]; exact fun n hn => (h.line0 n hn).mono hg
  line1 := by rw [hclock]; exact fun n hn => (h.line1 n hn).mono hg
  globalRankId := by rw [hclock]; exact fun n hn => (h.globalRankId n hn).mono hg
  tpe := by rw [hclock]; exact fun n hn e he => (h.tpe n hn e he).mono hg
  status := by rw [hclock]; exact fun n ph hph hn => (h.status n ph hph hn).mono hg

end

namespace LogInv
variable {sys : System} {s : State} {src owner n : ℕ} (h : LogInv sys s src)
include h

/-- A register that was written in a phase the owner has seen holds a write at least as late. -/
theorem read {γ : Type} {g : Mailbox → γ} {sel : Write → Option γ} (ph : Phase)
    (hget : ∀ b w, g (b.apply w) = (sel w).getD (g b)) (hsaw : Saw s src owner (4 * n + ph.index))
    (hwrote : Wrote s src sel n ph) : ∃ w ∈ s.log src, sel w.write = some (g (s.mailbox src owner)) ∧
      4 * n + ph.index ≤ w.stamp := by
  obtain ⟨w₀, hw₀, hstamp, hsome⟩ := hwrote
  have hvis := hsaw.2 w₀ hw₀ hstamp.le
  obtain ⟨w, hw, hval, hmax⟩ := mailbox_last hget h.ordered ⟨w₀, hvis, hsome⟩
  exact ⟨w, visible_subset w hw, hval, hstamp ▸ hmax w₀ hvis hsome⟩

/-- The inputs of the call, while the source has published no later ones. -/
theorem shows (hsaw : Saw s src owner (4 * n)) (hcall : ∀ w ∈ s.log src, 4 * n ≤ w.stamp → w.call = n) :
    Shows sys src n (s.mailbox src owner) := by
  refine ⟨?_, ?_, ?_, fun e he => ?_⟩
  · obtain ⟨w, hw, hval, hle⟩ := h.read .data Write.apply_line0 hsaw (h.line0 n hsaw.1)
    rw [(h.writes w hw).line0 _ hval, hcall w hw hle]
  · obtain ⟨w, hw, hval, hle⟩ := h.read .data Write.apply_line1 hsaw (h.line1 n hsaw.1)
    rw [(h.writes w hw).line1 _ hval, hcall w hw hle]
  · obtain ⟨w, hw, hval, hle⟩ :=
      h.read .data Write.apply_globalRankId hsaw (h.globalRankId n hsaw.1)
    rw [(h.writes w hw).globalRankId _ hval, hcall w hw hle]
  · obtain ⟨w, hw, hval, hle⟩ :=
      h.read .data (g := (·.tpe e)) (Write.apply_tpe e) hsaw (h.tpe n hsaw.1 e he)
    have hn := hcall w hw hle
    rw [(h.writes w hw).tpe e (hn ▸ he) _ hval, hn]

/-- The call of a later write, if the source has cleared nothing of call `n`. -/
theorem call_or_skipped (hnot : ¬ Cleared s src n) :
    (∀ w ∈ s.log src, 4 * n ≤ w.stamp → w.call = n) ∨ Skipped s src n := by
  by_cases hs : Skipped s src n
  · exact .inr hs
  refine .inl fun w hw hle => ?_
  have hn := Sent.le_call hle
  have hclock := h.stamps w hw
  by_contra hne
  refine hs ⟨?_, hnot⟩
  unfold Sent.stamp at hclock
  omega

end LogInv

/-! ## Gathered rows -/

section Rows
variable (sys : System) (src n : ℕ)

/-- The first `k` pieces of a row of `expertNum` experts are the inputs `src` published for call `n`. -/
structure Gathered (expertNum k : ℕ) (m : Meta) : Prop where
  line0 : 0 < k → m.line0 = fillLine0 sys src n
  line1 : 1 < k → m.line1 = fillLine1 sys src n
  tpe : ∀ e < expertNum, e < (sys.args src n).expertNum.toNat → e / tpeLineWords + 2 < k →
    m.tpe e = (sys.args src n).tokensPerExpert e
  globalRankId : 2 + gatherLines expertNum < k →
    m.globalRankId = (sys.args src n).globalRankIds src

/-- The row as far as it is gathered, unless `src` has skipped the call. -/
def Row (s : State) (expertNum k : ℕ) (m : Meta) : Prop :=
  Skipped s src n ∨ Gathered sys src n expertNum k m

end Rows

def rowPieces (expertNum : ℕ) : ℕ := 3 + gatherLines expertNum

theorem div_lt_gatherLines {e : ℕ} (h : e < expertNum) : e / tpeLineWords < gatherLines expertNum := by
  unfold gatherLines tpeLineWords
  omega

theorem Gathered.zero {sys : System} {src n : ℕ} : Gathered sys src n expertNum 0 m :=
  ⟨fun h => absurd h (Nat.not_lt_zero _), fun h => absurd h (Nat.not_lt_zero _),
    fun _ _ _ h => absurd h (Nat.not_lt_zero _), fun h => absurd h (Nat.not_lt_zero _)⟩

/-- Copying the next piece out of a mailbox that shows the inputs. -/
theorem Gathered.piece {sys : System} {src n k : ℕ} {b : Mailbox}
    (h : Gathered sys src n expertNum k m) (hb : Shows sys src n b) (hk : k < rowPieces expertNum) :
    Gathered sys src n expertNum (k + 1) (gatherPiece expertNum k b m) := by
  unfold rowPieces at hk
  unfold gatherPiece
  split
  · exact ⟨fun _ => hb.line0, fun _ => by omega,
      fun _ _ _ hlt => absurd ((Nat.le_add_left 2 _).trans_lt hlt) (by omega), fun _ => by omega⟩
  split
  · exact ⟨fun _ => h.line0 (by omega), fun _ => hb.line1,
      fun _ _ _ hlt => absurd ((Nat.le_add_left 2 _).trans_lt hlt) (by omega), fun _ => by omega⟩
  split
  · refine ⟨fun _ => h.line0 (by omega), fun _ => h.line1 (by omega), fun e he he' hlt => ?_,
      fun _ => by omega⟩
    dsimp only
    split
    · exact hb.tpe e he'
    · exact h.tpe e he he' (by omega)
  · have hlast : k = 2 + gatherLines expertNum := by omega
    refine ⟨fun _ => h.line0 (by omega), fun _ => h.line1 (by omega), fun e he he' _ => ?_,
      fun _ => hb.globalRankId⟩
    have := div_lt_gatherLines he
    exact h.tpe e he he' (by omega)

theorem Row.mono {sys : System} {s s' : State} {src n k : ℕ}
    (hg : Grows s s') (h : Row sys src n s expertNum k m) : Row sys src n s' expertNum k m :=
  h.imp hg.skipped id

/-! ## Ranks -/

section Ranks
variable (sys : System) (s : State) (r : ℕ)

/-- All flags of a phase of call `n` are there. -/
def AllSaw (n : ℕ) (ph : Phase) : Prop := ∀ x < sys.rankSize, Saw s x r (4 * n + ph.index)

def PlanInv (n : ℕ) (p : Planned) : Prop :=
  p.status = 0 → headersMatch sys p.gathered = true ∧
    ∀ x < sys.rankSize, 4 * n < s.clock x ∧
      Row sys x n s (sys.args r n).expertNum.toNat (rowPieces (sys.args r n).expertNum.toNat)
        (p.gathered x)

/-- What a rank knows when it publishes a phase. -/
def Entering (rs : RankState) (ph : Phase) : Prop :=
  match ph with
  | .data => rs.plans rs.call = none
  | .status =>
    (rs.status.getD 0 0 = 0 → PlanOk s r rs.call) ∧
      (PlanOk s r rs.call → rs.status.getD 1 0 ≠ kBarrierDebugBuildTag)
  | .ready => rs.status.getD 0 0 = 0 → PlanOk s r rs.call ∧ rs.status.getD 1 0 ≠ kBarrierDebugBuildTag
  | .consensus =>
    rs.status.getD 0 0 = 0 → PlanOk s r rs.call ∧ rs.status.getD 1 0 ≠ kBarrierDebugBuildTag ∧
      AllSaw sys s r rs.call .ready

/-- What a status 0 read behind the status or the consensus barrier says. -/
def Vouched (n : ℕ) (ph : Phase) (x : ℕ) : Prop :=
  match ph with
  | .status => x = r → PlanOk s r n
  | .consensus => Cleared s x n
  | _ => True

def PcInv (rs : RankState) : Prop :=
  let expertNum := (sys.args r rs.call).expertNum.toNat
  match rs.pc with
  | .publish ph => Entering sys s r rs ph
  | .wait ph offset =>
    Entering sys s r rs ph ∧ offset < sys.rankSize ∧
      ∀ j < offset, Saw s ((r + j) % sys.rankSize) r (4 * rs.call + ph.index)
  | .gather src piece =>
    rs.plans rs.call = none ∧ AllSaw sys s r rs.call .data ∧ src < sys.rankSize ∧
      piece < rowPieces expertNum ∧
      (∀ x < src, Row sys x rs.call s expertNum (rowPieces expertNum) (rs.gathered x)) ∧
      Row sys src rs.call s expertNum piece (rs.gathered src)
  | .plan =>
    rs.plans rs.call = none ∧ AllSaw sys s r rs.call .data ∧
      ∀ x < sys.rankSize, Row sys x rs.call s expertNum (rowPieces expertNum) (rs.gathered x)
  | .collect ph src =>
    (ph = .status ∨ ph = .consensus) ∧
      (ph = .status → PlanOk s r rs.call → rs.status.getD 1 0 ≠ kBarrierDebugBuildTag) ∧
      AllSaw sys s r rs.call ph ∧ src < sys.rankSize ∧
      ∀ x < src, 0 ≤ (rs.statuses x).getD 0 0 ∧
        ((rs.statuses x).getD 0 0 = 0 → Vouched s r rs.call ph x)
  | .finish => rs.status.getD 0 0 = 0 → ∀ x < sys.rankSize, Cleared s x rs.call

structure RankInv : Prop where
  log : LogInv sys s r
  plans : ∀ n p, (s.rank r).plans n = some p → n ≤ (s.rank r).call ∧ PlanInv sys s r n p
  cleared : ∀ n, Cleared s r n → PlanOk s r n ∧ ∀ x < sys.rankSize, 4 * n + 3 ≤ s.clock x
  commits : ∀ n ∈ (s.rank r).commits, ∀ x < sys.rankSize, Cleared s x n
  cache : (s.rank r).cache.valid = true → ∀ d, ∀ x ∈ (s.rank r).cache.order d, x < sys.rankSize
  status : (s.rank r).status ≠ [] ∧ 0 ≤ (s.rank r).status.getD 0 0
  pc : PcInv sys s r (s.rank r)

end Ranks

end TileXR.Commit
