import TileXR.Commit.Preserve

/-!
# A commit is everyone's

A rank that commits a call knows that every rank has cleared it, hence planned it with `PLAN_OK` from
the inputs that all ranks published for that call. This needs the flags of different calls to differ:
the flag of a phase carries the low half of the call's 64-bit magic only, and a run of two ranks shows
what happens when two calls have equal halves.
-/

namespace TileXR.Commit
open Lib Plan

/-- A gathered row is what `src` published for call `n`. -/
structure IsInput (sys : System) (n src : ℕ) (m : Meta) : Prop where
  line0 : m.line0 = fillLine0 sys src n
  line1 : m.line1 = fillLine1 sys src n
  globalRankId : m.globalRankId = (sys.args src n).globalRankIds src
  tpe : ∀ e < (sys.args src n).expertNum.toNat, m.tpe e = (sys.args src n).tokensPerExpert e

/-- Every rank has planned call `n` with `PLAN_OK`, from equal headers and from the inputs that the
ranks published for this call. -/
def CommitSafe (sys : System) (s : State) (n : ℕ) : Prop :=
  ∀ r < sys.rankSize, ∃ p, (s.rank r).plans n = some p ∧ p.status = PlanStatus.ok.code ∧
    headersMatch sys p.gathered = true ∧ ∀ src < sys.rankSize, IsInput sys n src (p.gathered src)

theorem headersMatch_iff {sys : System} {gathered : ℕ → Meta} : headersMatch sys gathered = true ↔
    ∀ x < sys.rankSize, (gathered x).line0 = (gathered 0).line0 ∧ (gathered x).line1 = (gathered 0).line1 := by
  simp [headersMatch]

/-- A rank commits only what every rank has planned, as long as the magics are fresh. -/
theorem commitSafe_of_freshMagics {sys : System} {s : State} (h : Runs sys s)
    (hfresh : FreshMagics sys s) {r n : ℕ} (hr : r < sys.rankSize) (hc : n ∈ (s.rank r).commits) :
    CommitSafe sys s n := by
  have hinv := h.inv hfresh
  have hcleared := (hinv r hr).commits n hc
  intro x hx
  obtain ⟨p, hp, h0⟩ := ((hinv x hx).cleared n (hcleared x hx)).1
  obtain ⟨hmatch, hrows⟩ := ((hinv x hx).plans n p hp).2 h0
  -- nobody skipped the call, so every row is the one that was published
  have hrow : ∀ src < sys.rankSize, Gathered sys src n (sys.args x n).expertNum.toNat
      (rowPieces (sys.args x n).expertNum.toNat) (p.gathered src) := fun src hsrc =>
    (hrows src hsrc).2.resolve_left fun hskip => hskip.2 (hcleared src hsrc)
  have hline0 : ∀ src < sys.rankSize, (p.gathered src).line0 = fillLine0 sys src n := fun src hsrc =>
    (hrow src hsrc).line0 (by unfold rowPieces; omega)
  have hexperts : ∀ src < sys.rankSize, (sys.args src n).expertNum = (sys.args x n).expertNum := by
    intro src hsrc
    have heq := ((headersMatch_iff.1 hmatch src hsrc).1).trans (headersMatch_iff.1 hmatch x hx).1.symm
    rw [hline0 src hsrc, hline0 x hx] at heq
    exact congrArg HeaderLine0.expertNum heq
  refine ⟨p, hp, h0, hmatch, fun src hsrc => ⟨hline0 src hsrc, ?_, ?_, fun e he => ?_⟩⟩
  · exact (hrow src hsrc).line1 (by unfold rowPieces; omega)
  · exact (hrow src hsrc).globalRankId (by unfold rowPieces; omega)
  · have he' : e < (sys.args x n).expertNum.toNat := hexperts src hsrc ▸ he
    have := div_lt_gatherLines he'
    exact (hrow src hsrc).tpe e he' he (by unfold rowPieces; omega)

/-! ## Two calls with one flag -/

def oneTokenConfig : PlanConfig where
  rankTokenCapacity := 1
  prefetchSlots := 1
  nvS := 2
  tokenPadding := 1
  tokenRouteLimitPerPair := 0
  cardsPerServer := kPlanCardsPerServer
  cardsPerCabinet := kPlanCardsPerCabinet
  crossCandidateCount := kPlanCrossCandidateCount

/-- Two ranks of one expert and one token each. In call 1 rank 1 sends its token to its own expert, in
call 0 it went to rank 0's. -/
def twoCalls (magic : ℕ → ℤ) : System where
  rankSize := 2
  args r call :=
    let expert : ℤ := if r = 1 ∧ call = 1 then 1 else 0
    { s := 1, topK := 1, expertNum := 2, config := oneTokenConfig, topkExperts := fun _ => expert
      tokensPerExpert := fun e => if (e : ℤ) = expert then 1 else 0
      globalRankIds := fun r => r, ptr := {} }
  epoch call := call + 1
  magic := magic
  addressWords _ := [0, 0, 0, 0]

def both (n : ℕ) : List Action := List.replicate n (.run 0) ++ List.replicate n (.run 1)

def exchange (n : ℕ) : List Action :=
  List.replicate n (.deliver 0 1) ++ List.replicate n (.deliver 1 0)

/-- From the status phase to the end of the call, with every write seen in time. -/
def agreement : List Action :=
  both 1 ++ exchange 9 ++ both 4 ++ (both 1 ++ exchange 1 ++ both 2) ++
    (both 1 ++ exchange 9 ++ both 4) ++ both 1

/-- The final state, if the actions can be made and rank 0 commits call `n` at the end. -/
theorem exists_commit (sys : System) (actions : List Action) (n : ℕ) (check : State → Bool)
    (h : (runActions (step sys) actions State.initial).any
      (fun s => decide (n ∈ (s.rank 0).commits) && check s) = true) :
    ∃ s, Runs sys s ∧ n ∈ (s.rank 0).commits ∧ check s = true := by
  cases hrun : runActions (step sys) actions State.initial with
  | none => rw [hrun] at h; cases h
  | some s =>
    rw [hrun, Option.any_some, Bool.and_eq_true, decide_eq_true_eq] at h
    exact ⟨s, reachable_of_run hrun, h⟩

/-- Two ranks that see each other's writes in time commit their first call. -/
theorem twoCalls_commitSafe : ∃ s, Runs (twoCalls fun call => 1 + call) s ∧ 0 ∈ (s.rank 0).commits ∧
    FreshMagics (twoCalls fun call => 1 + call) s ∧
    CommitSafe (twoCalls fun call => 1 + call) s 0 := by
  obtain ⟨s, hrun, hcommit, hcalls⟩ := exists_commit (twoCalls fun call => 1 + call)
    (both 1 ++ exchange 9 ++ both 11 ++ agreement) 0
    (fun s => decide ((s.rank 0).call ≤ 1) && decide ((s.rank 1).call ≤ 1)) (by decide +kernel)
  have hfresh : FreshMagics (twoCalls fun call => 1 + call) s := by
    rintro m n hlt ⟨r, hr, hn⟩
    simp only [Bool.and_eq_true, decide_eq_true_eq] at hcalls
    change (1 + (m : ℤ)) % 2 ^ 32 ≠ (1 + (n : ℤ)) % 2 ^ 32
    change r < 2 at hr
    rcases (by omega : r = 0 ∨ r = 1) with rfl | rfl <;> omega
  exact ⟨s, hrun, hcommit, hfresh, commitSafe_of_freshMagics hrun hfresh (by decide) hcommit⟩

/-- The magics of the calls are equal in their low halves. -/
def wrappedMagic (call : ℕ) : ℤ := 1 + call * 2 ^ 32

/-- A call in which every barrier times out. -/
def lostCall (r : ℕ) : List Action :=
  (List.replicate 4 [.run r, .run r, .timeout r]).flatten ++ [.run r]

/-- Both ranks lose call 0. In call 1 rank 0 takes the data flag of call 0 for that of call 1 and copies
rank 1's row while its lines arrive: the header of call 1, the token counts of call 0. -/
def staleFlag : List Action :=
  lostCall 1 ++ lostCall 0 ++ List.replicate 9 (.deliver 1 0) ++ List.replicate 7 (.run 0) ++ [.run 1] ++
    List.replicate 21 (.deliver 1 0) ++ List.replicate 5 (.run 0) ++ List.replicate 7 (.deliver 1 0) ++
    List.replicate 37 (.deliver 0 1) ++ List.replicate 11 (.run 1) ++ agreement

/-- With equal halves, a rank commits call 1 although it planned from token counts of call 0. -/
theorem wrappedMagic_not_commitSafe : ∃ s, Runs (twoCalls wrappedMagic) s ∧ 1 ∈ (s.rank 0).commits ∧
    ¬ CommitSafe (twoCalls wrappedMagic) s 1 := by
  obtain ⟨s, hrun, hcommit, hcount⟩ := exists_commit (twoCalls wrappedMagic) staleFlag 1
    (fun s => ((s.rank 0).plans 1).any fun p : Planned => decide ((p.gathered 1).tpe 0 = 1))
    (by decide +kernel)
  refine ⟨s, hrun, hcommit, fun hsafe => ?_⟩
  obtain ⟨p, hp, -, -, hrow⟩ := hsafe 0 (by decide)
  rw [hp, Option.any_some, decide_eq_true_eq] at hcount
  have hzero := (hrow 1 (by decide)).tpe 0 (by decide)
  rw [hcount] at hzero
  exact absurd hzero (by decide)

end TileXR.Commit
