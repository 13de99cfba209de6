import TileXR.Plan.Conserved

/-!
# The rounds of the move phases are bounded

A call lowers the total deficit by what it moves, also when it stops for want of a record, so no call
raises it (`applyExpertMove_deficit_le`). A round that is counted has moved something; hence the sum of
the counted rounds and the deficit never grows (`roundsAndDeficit`), and the rounds of both phases
together are at most the deficit the plan starts with.
-/

namespace TileXR.Plan
open Lib List

variable {c : Ctx} {s s' : State} {key : ℕ}
variable {dst : ℕ} {pairs : List (ℕ × ℕ)}

theorem applyExpertMove_deficit_le (c : Ctx) (s : State) (home : ℕ) (hdst : dst < c.rankSize) :
    (applyExpertMove c s home dst (requestedUnits c.cap s.rankLoad home dst)).1.toTables.deficit
      c.toParams ≤ s.toTables.deficit c.toParams := by
  have hpaid := (applyExpertMove_paid c s home 0 hdst le_rfl fun _ => rfl).paid
  dsimp only at hpaid
  omega

/-! ## Rounds -/

def roundsAndDeficit (c : Ctx) (s : State) : ℕ := s.countedRounds + s.toTables.deficit c.toParams

theorem Paid.potential_le {a b : State × ℕ} (h : Paid c a b) : roundsAndDeficit c b.1 ≤ roundsAndDeficit c a.1 := by
  have := h.le
  have := h.paid
  unfold roundsAndDeficit
  rw [h.rounds]
  omega

theorem pairs_lt {p : Params} {t : Tables}
    (h : pairRanks p.cap t.rankLoad (insertSort (betterRank t.rankLoad p.globalRankIds false)
      (activeInServer p t key)) = some pairs) : ∀ pr ∈ pairs, pr.2 < p.rankSize := by
  intro pr hpr
  have := mem_serverPairs (p := p) (t := t) key pr
  unfold serverPairs at this
  rw [h, Option.getD_some] at this
  exact (this hpr).2.1

theorem interReceivers_paid (c : Ctx) (s : State) : Paid c (s, 0) ((interReceivers c.toParams s.toTables).foldl
    (serveReceiver c (interSenders c.toParams s.toTables)) ⟨s, [], 0⟩).moved :=
  serveReceivers_paid c _ (fun _ hr => mem_interReceivers hr) ⟨s, [], 0⟩

theorem serverPairs_paid (c : Ctx) (s : State) (key n : ℕ) :
    Paid c (s, 0) (((serverPairs c.toParams s.toTables key).take n).foldl (movePair c) (s, 0)) :=
  movePairs_paid c (fun pr hpr => (mem_serverPairs key pr (mem_of_mem_take hpr)).2.1) _

theorem interBefore_paid (c : Ctx) (s : State) (n : ℕ) : Paid c (s, 0) (interBefore c s n).moved :=
  serveReceivers_paid c _ (fun _ hr => mem_interReceivers (mem_of_mem_take hr)) ⟨s, [], 0⟩

theorem intraRound_next (h : intraRound c key s = .next s') :
    s'.toTables.deficit c.toParams < s.toTables.deficit c.toParams ∧ s'.countedRounds = s.countedRounds + 1 := by
  refine ⟨intraRound_decreases c key s s' h, ?_⟩
  rw [intraRound_eq] at h
  split at h
  · cases h
  rename_i pairs hpairs
  dsimp only at h
  split at h
  · cases h
  split at h
  · cases h
  obtain rfl := Step.next.inj h
  have := (movePairs_paid c (pairs_lt hpairs) (s, 0)).rounds
  unfold State.countedRounds at this ⊢
  dsimp only at this ⊢
  omega

theorem interRound_next (h : interRound c s = .next s') :
    s'.toTables.deficit c.toParams < s.toTables.deficit c.toParams ∧ s'.countedRounds = s.countedRounds + 1 := by
  refine ⟨interRound_decreases c s s' h, ?_⟩
  rw [interRound_eq] at h
  split at h
  · cases h
  dsimp only at h
  split at h
  · cases h
  split at h
  · cases h
  obtain rfl := Step.next.inj h
  have := (interReceivers_paid c s).rounds
  unfold State.countedRounds InterAcc.moved at this
  unfold State.countedRounds
  dsimp only at this ⊢
  omega

theorem intraRound_potential_le (c : Ctx) (key : ℕ) (s : State) :
    roundsAndDeficit c (intraRound c key s).state ≤ roundsAndDeficit c s := by
  cases hround : intraRound c key s with
  | next s' =>
    obtain ⟨h1, h2⟩ := intraRound_next hround
    unfold roundsAndDeficit
    rw [Step.state, h2]
    omega
  | done s' =>
    rw [intraRound_eq] at hround
    split at hround
    · obtain rfl := Step.done.inj hround; exact le_rfl
    rename_i pairs hpairs
    have hle := (movePairs_paid c (pairs_lt hpairs) (s, 0)).potential_le
    dsimp only at hround
    split at hround
    · obtain rfl := Step.done.inj hround; exact hle
    · split at hround
      · obtain rfl := Step.done.inj hround; exact hle
      · cases hround

theorem interRound_potential_le (c : Ctx) (s : State) :
    roundsAndDeficit c (interRound c s).state ≤ roundsAndDeficit c s := by
  cases hround : interRound c s with
  | next s' =>
    obtain ⟨h1, h2⟩ := interRound_next hround
    unfold roundsAndDeficit
    rw [Step.state, h2]
    omega
  | done s' =>
    rw [interRound_eq] at hround
    split at hround
    · obtain rfl := Step.done.inj hround; exact le_rfl
    have hle := (interReceivers_paid c s).potential_le
    dsimp only at hround
    generalize (interReceivers c.toParams s.toTables).foldl
      (serveReceiver c (interSenders c.toParams s.toTables)) ⟨s, [], 0⟩ = r at hle hround
    split at hround
    · obtain rfl := Step.done.inj hround; exact hle
    · split at hround
      · obtain rfl := Step.done.inj hround; exact hle
      · cases hround

theorem intraStep_potential_le (c : Ctx) (a : Option ℕ × State) :
    roundsAndDeficit c (intraStep c a).state.2 ≤ roundsAndDeficit c a.2 := by
  unfold intraStep
  split
  · exact le_rfl
  rename_i key _
  have hserver : roundsAndDeficit c (intraServer c key a.2) ≤ roundsAndDeficit c a.2 :=
    loop_keeps (P := fun s' => roundsAndDeficit c s' ≤ roundsAndDeficit c a.2)
      (fun s' hs' => (intraRound_potential_le c key s').trans hs') le_rfl
  dsimp only
  split <;> exact hserver

theorem runIntra_potential_le (c : Ctx) (s : State) : roundsAndDeficit c (runIntra c s) ≤ roundsAndDeficit c s := by
  unfold runIntra
  exact loop_keeps (P := fun a : Option ℕ × State => roundsAndDeficit c a.2 ≤ roundsAndDeficit c s)
    (fun a ha => (intraStep_potential_le c a).trans ha) le_rfl

theorem runInter_potential_le (c : Ctx) (s : State) : roundsAndDeficit c (runInter c s) ≤ roundsAndDeficit c s :=
  loop_keeps (P := fun s' => roundsAndDeficit c s' ≤ roundsAndDeficit c s)
    (fun s' hs' => (interRound_potential_le c s').trans hs') le_rfl

theorem appendRemainder_rounds (c : Ctx) (s : State) (expert src : ℕ) :
    (appendRemainder c s expert src).countedRounds = s.countedRounds := by
  unfold appendRemainder
  split
  · rfl
  dsimp only
  split
  · rfl
  obtain ⟨-, -, -, hintra, hinter⟩ := appendSegment_frame c s
    (s.nextSegment expert src (c.homeRank expert) (s.remainingTpe src expert))
  split <;> rename_i happ <;> rw [happ] at hintra hinter <;> exact congrArg₂ (· + ·) hintra hinter

theorem appendRemainders_rounds (c : Ctx) (s : State) : (appendRemainders c s).countedRounds = s.countedRounds := by
  refine foldlRecOn (motive := fun s' : State => s'.countedRounds = s.countedRounds) _ _ rfl fun s' hs e _ => ?_
  exact foldlRecOn (motive := fun s' : State => s'.countedRounds = s.countedRounds) _ _ hs
    fun _ hs _ _ => (appendRemainder_rounds ..).trans hs

theorem runMoves_rounds_le (c : Ctx) : (runMoves c).intraRounds + (runMoves c).interRounds ≤
      (Tables.initial c.toParams).deficit c.toParams := by
  have hstart : roundsAndDeficit c (State.initial c.toParams) =
      (Tables.initial c.toParams).deficit c.toParams := Nat.zero_add _
  have hintra := runIntra_potential_le c (State.initial c.toParams)
  have hinter := runInter_potential_le c (runIntra c (State.initial c.toParams))
  unfold runMoves
  dsimp only
  set s₁ := runIntra c (State.initial c.toParams) with hs₁
  set s₂ := (if s₁.fatal = .ok then runInter c s₁ else s₁) with hs₂
  have hle : roundsAndDeficit c s₂ ≤ roundsAndDeficit c (State.initial c.toParams) := by
    rw [hs₂]
    split
    · exact hinter.trans hintra
    · exact hintra
  have hend : (if s₂.fatal = .ok then appendRemainders c s₂ else s₂).countedRounds = s₂.countedRounds := by
    split
    · exact appendRemainders_rounds c s₂
    · rfl
  unfold roundsAndDeficit at hle
  show State.countedRounds _ ≤ _
  rw [hend]
  unfold roundsAndDeficit at hstart
  omega

/-- The phases end: the loops of the source, without a bound, come to an end in the states the model
computes, and count at most as many rounds as tokens are missing at the start. Nothing about the call is
used, so this holds for every call that `Validate` accepts. -/
theorem moves_terminate (c : Ctx) :
    (∃ key, Ends (intraStep c) (none, State.initial c.toParams)
      (key, runIntra c (State.initial c.toParams))) ∧
    (∀ key s, Ends (intraRound c key) s (intraServer c key s)) ∧
    (∀ s, Ends (interRound c) s (runInter c s)) ∧
    (runMoves c).intraRounds + (runMoves c).interRounds ≤
      (Tables.initial c.toParams).deficit c.toParams ∧
    (∀ key s s', intraRound c key s = .next s' →
      s'.toTables.deficit c.toParams < s.toTables.deficit c.toParams ∧
        s'.countedRounds = s.countedRounds + 1) ∧
    (∀ s s', interRound c s = .next s' →
      s'.toTables.deficit c.toParams < s.toTables.deficit c.toParams ∧
        s'.countedRounds = s.countedRounds + 1) ∧
    ∀ s home dst, dst < c.rankSize →
      (applyExpertMove c s home dst (requestedUnits c.cap s.rankLoad home dst)).1.toTables.deficit
        c.toParams ≤ s.toTables.deficit c.toParams := by
  refine ⟨⟨_, ends_loop (intraStep_decreases c) _⟩, fun key s => ends_loop (intraRound_decreases c key) s,
    fun s => ends_loop (interRound_decreases c) s, runMoves_rounds_le c, fun key s s' h => intraRound_next h,
    fun s s' h => interRound_next h, fun s home dst hdst => applyExpertMove_deficit_le c s home hdst⟩

end TileXR.Plan
