import Mathlib.Algebra.Group.Action.Defs
import TileXR.Plan.Targets
import TileXR.Plan.Termination

/-!
# Bounds on every state of a run

At every point of an accepted run, the remainders included, the tables count tokens of the
`rankSize * cap` that the plan distributes: cursors, allocations and numbers of segments are bounded by
them, the counters of rounds and moves by the deficit of the start (`RunState`). A call that finds no
record is still within the bounds, because the tokens it could not record are left over
(`Recorded.left`).
-/

namespace TileXR.Plan
open Lib List

variable {src e : ℕ} {t : Tables} {log : List TokenSegmentMove} {s : State}

def Params.tokens (p : Params) : ℕ := p.rankSize * p.cap

section Tokens
variable {p : Params} (hp : p.Valid)
include hp

theorem Params.Valid.tokens_le : p.tokens ≤ int32Max :=
  (Nat.mul_le_mul_left _ hp.cap_le).trans hp.range

theorem Params.Valid.cap_le_tokens : p.cap ≤ p.tokens := Nat.le_mul_of_pos_left _ hp.rankPos

theorem Params.Valid.sum_tokens :
    ∑ a ∈ Finset.range p.rankSize ×ˢ Finset.range p.expertNum, p.tokensPerExpert a.1 a.2 = p.tokens := by
  rw [Finset.sum_product, Finset.sum_congr rfl fun src hsrc => hp.row src (Finset.mem_range.1 hsrc),
    Finset.sum_const, Finset.card_range, smul_eq_mul, Params.tokens]

theorem Params.Valid.tokensPerExpert_le (hsrc : src < p.rankSize) (he : e < p.expertNum) :
    p.tokensPerExpert src e ≤ p.cap := by
  rw [← hp.row src hsrc]
  exact Finset.single_le_sum_of_canonicallyOrdered (f := p.tokensPerExpert src) (Finset.mem_range.2 he)

theorem Params.Valid.sum_expertTotal : ∑ e ∈ Finset.range p.expertNum, p.expertTotal e = p.tokens := by
  rw [← hp.sum_tokens, Finset.sum_product_right]
  rfl

theorem Params.Valid.expertTotal_le (he : e < p.expertNum) : p.expertTotal e ≤ p.tokens := by
  rw [← hp.sum_expertTotal]
  exact Finset.single_le_sum_of_canonicallyOrdered (f := p.expertTotal) (Finset.mem_range.2 he)

omit hp in
theorem deficit_le_tokens (t : Tables) : t.deficit p ≤ p.tokens := by
  unfold Tables.deficit Params.tokens
  refine (Finset.sum_le_card_nsmul _ _ p.cap fun r _ => Nat.sub_le _ _).trans ?_
  rw [Finset.card_range, smul_eq_mul]

/-- What the segments carry and what is left are all tokens. -/
theorem LogOk.total_add (h : LogOk p t log) : total (transfers log) +
      ∑ a ∈ Finset.range p.rankSize ×ˢ Finset.range p.expertNum, t.remainingTpe a.1 a.2 = p.tokens := by
  have hsrc : ∀ u ∈ transfers log, u.src ∈ Finset.range p.rankSize ×ˢ Finset.range p.expertNum := by
    intro u hu
    obtain ⟨m, hm, rfl⟩ := mem_map.1 hu
    obtain ⟨h1, _, h3⟩ := h.inRange m hm
    exact Finset.mem_product.2 ⟨Finset.mem_range.2 h1, Finset.mem_range.2 h3⟩
  rw [← sum_srcTotal hsrc, ← hp.sum_tokens, Nat.add_comm, ← Finset.sum_add_distrib]
  exact Finset.sum_congr rfl fun a _ => h.remaining a.1 a.2

theorem LogOk.length_le (h : LogOk p t log) : log.length ≤ p.tokens := by
  have hlen : (transfers log).length = log.length := length_map _
  have := h.chained.length_le
  have := h.total_add hp
  omega

theorem LogOk.length_lt (h : LogOk p t log) (hsrc : src < p.rankSize) (he : e < p.expertNum)
    (hleft : 0 < t.remainingTpe src e) : log.length < p.tokens := by
  have hlen : (transfers log).length = log.length := length_map _
  have hone := Finset.single_le_sum_of_canonicallyOrdered
    (f := fun a : ℕ × ℕ => t.remainingTpe a.1 a.2) (i := (src, e))
    (Finset.mem_product.2 ⟨Finset.mem_range.2 hsrc, Finset.mem_range.2 he⟩)
  have := h.chained.length_le
  have := h.total_add hp
  dsimp only at hone
  omega

theorem LogOk.dstCursor_le (h : LogOk p t log) (dst e : ℕ) : t.dstExpertCursor dst e ≤ p.tokens := by
  rw [h.dstCursor]
  have := dstTotal_le (transfers log) (dst, e)
  have := h.total_add hp
  omega

end Tokens

/-! ## The invariant -/

/-- The tables and records against the segments made, with a token left if a record was missing. -/
structure Recorded (c : Ctx) (s : State) (log : List TokenSegmentMove) : Prop where
  tables : LogOk c.toParams s.toTables log
  own : s.tokenSegments = log.filter (·.srcRank = c.rank)
  made : s.globalSegments ≤ log.length + if s.fatal = .ok then 0 else 1
  left : s.fatal ≠ .ok → ∃ src < c.rankSize, ∃ e < c.expertNum, 0 < s.remainingTpe src e

structure RunState (c : Ctx) (s : State) : Prop where
  recorded : ∃ log, Recorded c s log
  balanced : Balanced c s
  routed : c.routeLimit ≠ 0 → ∀ src dst, s.routedPairTokens src dst ≤ c.routeLimit
  rounds : s.countedRounds ≤ (Tables.initial c.toParams).deficit c.toParams

theorem Made.left {c : Ctx} (h : Made c s log) :
    s.fatal ≠ .ok → ∃ src < c.rankSize, ∃ e < c.expertNum, 0 < s.remainingTpe src e := by
  induction h with
  | initial => exact fun h => absurd rfl h
  | count _ _ _ _ ih => exact ih
  | step _ hstep ih =>
    cases hstep with
    | take _ _ _ _ _ hok happ =>
      rw [appendSegment_true happ]
      exact fun h => absurd hok h
    | @full _ dst expert src _ n hsrc he hpos hn _ happ =>
      intro _
      obtain ⟨htables, _⟩ := appendSegment_frame c _ (Tables.nextSegment _ expert src dst n)
      rw [happ] at htables
      dsimp only at htables
      rw [htables]
      exact ⟨src, hsrc, expert, he, hpos.trans_le (hn ▸ (takeAmount_le ..).1)⟩
    | book => exact ih
    | note => exact ih

theorem Made.recorded {c : Ctx} (h : Made c s log) : Recorded c s log :=
  ⟨h.logged.tables, h.logged.own, h.logged.made, h.left⟩

/-! ## Points of the move phases -/

section Moves
variable {c : Ctx}

theorem IntraHead.rounds_le {key : ℕ} (h : IntraHead c key s) :
    roundsAndDeficit c s ≤ roundsAndDeficit c (State.initial c.toParams) := by
  obtain ⟨previous, s₀, hserver, _, hround⟩ := h
  have hs₀ := Heads.keeps (P := fun a : Option ℕ × State =>
      roundsAndDeficit c a.2 ≤ roundsAndDeficit c (State.initial c.toParams))
    (fun a ha => (intraStep_potential_le c a).trans ha) le_rfl hserver
  exact Heads.keeps (P := fun s => roundsAndDeficit c s ≤ roundsAndDeficit c (State.initial c.toParams))
    (fun s hs => (intraRound_potential_le c key s).trans hs) hs₀ hround

theorem InterHead.rounds_le (h : InterHead c s) :
    roundsAndDeficit c s ≤ roundsAndDeficit c (State.initial c.toParams) :=
  Heads.keeps (P := fun s => roundsAndDeficit c s ≤ roundsAndDeficit c (State.initial c.toParams))
    (fun s hs => (interRound_potential_le c s).trans hs) (runIntra_potential_le c _) h.2

theorem roundsAndDeficit_initial (c : Ctx) :
    roundsAndDeficit c (State.initial c.toParams) = (Tables.initial c.toParams).deficit c.toParams :=
  Nat.zero_add _

/-- The rounds counted before a call are those at the head of its round. -/
theorem CallAt.rounds_le {home dst : ℕ} (h : CallAt c s home dst) :
    s.countedRounds ≤ (Tables.initial c.toParams).deficit c.toParams := by
  rw [← roundsAndDeficit_initial]
  cases h with
  | @intra key n _ _ s hhead hpair hok =>
    have hle := hhead.rounds_le
    have := (serverPairs_paid c s key n).rounds
    unfold roundsAndDeficit at hle ⊢
    dsimp only at this
    omega
  | @inter n m _ _ s hhead hbusy hdst =>
    have hle := hhead.rounds_le
    have h1 : (interBefore c s n).st.countedRounds = s.countedRounds :=
      (interBefore_paid c s n).rounds
    have h2 : (interWithin c s n dst m).st.countedRounds = (interBefore c s n).st.countedRounds :=
      (tryCandidates_paid c (interSenders c.toParams s.toTables)
        (mem_interReceivers (mem_of_getElem? hdst)) ((c.affinityOrder dst).take m) 0 (interBefore c s n)).rounds
    unfold roundsAndDeficit at hle ⊢
    omega

theorem CallPoint.rounds {s' : State} {home dst request : ℕ} (hne : home ≠ dst)
    (h : CallPoint c s home dst request s') : s'.countedRounds = s.countedRounds := by
  cases h with
  | turn i => exact (MoveKeeps.start hne ..).rounds
  | source j _ ha _ =>
    refine (TakeKeeps.start ..).rounds.trans ?_
    rw [ha]
    exact (MoveKeeps.start hne ..).rounds
  | returned => exact (applyExpertMove_moved ..).1

theorem MovePoint.rounds_le (h : MovePoint c s) :
    s.countedRounds ≤ (Tables.initial c.toParams).deficit c.toParams := by
  have hintra := runIntra_potential_le c (State.initial c.toParams)
  rw [← roundsAndDeficit_initial]
  cases h with
  | intraHead h => exact (Nat.le_add_right _ _).trans h.rounds_le
  | interHead h => exact (Nat.le_add_right _ _).trans h.rounds_le
  | inCall hcall hne _ hp =>
    rw [hp.rounds hne, roundsAndDeficit_initial]
    exact hcall.rounds_le
  | afterIntra => exact (Nat.le_add_right _ _).trans hintra
  | afterInter _ => exact (Nat.le_add_right _ _).trans ((runInter_potential_le c _).trans hintra)

theorem MovePoint.runState (hc : c.toParams.Valid) (haff : ∀ d, ∀ r ∈ c.affinityOrder d, r < c.rankSize)
    (h : MovePoint c s) : RunState c s := by
  obtain ⟨log, hmade⟩ := h.made haff
  exact ⟨⟨log, hmade.recorded⟩, hmade.balanced hc, fun hl src dst => (hmade.logged.routed hl src dst).2, h.rounds_le⟩

end Moves

/-! ## The remainders -/

def remainderPairs (p : Params) : List (ℕ × ℕ) :=
  (List.range p.expertNum).flatMap fun e => (List.range p.rankSize).map fun src => (e, src)

/-- `AppendRemainders` after `k` pairs of an expert and a source. -/
def remaindersAt (c : Ctx) (s : State) (k : ℕ) : State :=
  ((remainderPairs c.toParams).take k).foldl (fun s a => appendRemainder c s a.1 a.2) s

theorem remaindersAt_end (c : Ctx) (s : State) :
    remaindersAt c s (remainderPairs c.toParams).length = appendRemainders c s := by
  rw [remaindersAt, take_length, remainderPairs, foldl_flatMap]
  unfold appendRemainders
  congr 1
  funext s e
  rw [foldl_map]

theorem mem_remainderPairs {p : Params} {a : ℕ × ℕ} (h : a ∈ remainderPairs p) :
    a.1 < p.expertNum ∧ a.2 < p.rankSize := by
  obtain ⟨e, he, ha⟩ := mem_flatMap.1 h
  obtain ⟨src, hsrc, rfl⟩ := mem_map.1 ha
  exact ⟨mem_range.1 he, mem_range.1 hsrc⟩

theorem RunState.appendRemainder {c : Ctx} (hc : c.toParams.Valid) (h : RunState c s) {expert : ℕ}
    (he : expert < c.expertNum) (hsrc : src < c.rankSize) : RunState c (appendRemainder c s expert src) := by
  have hrounds := appendRemainder_rounds c s expert src
  unfold Plan.appendRemainder at hrounds ⊢
  by_cases hok : s.fatal = .ok
  swap
  · rw [if_pos hok]; exact h
  rw [if_neg (not_not.2 hok)] at hrounds ⊢
  dsimp only at hrounds ⊢
  by_cases h0 : s.remainingTpe src expert = 0
  · rw [if_pos h0]; exact h
  rw [if_neg h0] at hrounds ⊢
  obtain ⟨log, hlog⟩ := h.recorded
  set m := s.nextSegment expert src (c.homeRank expert) (s.remainingTpe src expert) with hm
  obtain ⟨hframe, hrows, hmoves, _⟩ := appendSegment_frame c s m
  cases happ : appendSegment c s m with
  | mk s' ok =>
    rw [happ] at hframe hrows hmoves hrounds
    dsimp only at hframe hrows hmoves
    cases ok with
    | false =>
      dsimp only at hrounds ⊢
      have hmade : s'.globalSegments = s.globalSegments + 1 ∧ s'.tokenSegments = s.tokenSegments ∧
          s'.fatal ≠ .ok := by
        unfold appendSegment at happ
        dsimp only at happ
        split at happ
        · cases happ
        · split at happ
          · cases happ; exact ⟨rfl, rfl, by simp⟩
          · cases happ
      refine ⟨⟨log, hframe ▸ hlog.tables, hmade.2.1 ▸ hlog.own, ?_, fun _ => ?_⟩,
        h.balanced.congr (by rw [hframe]) (by rw [hframe]) hrows hmoves, by rw [hframe]; exact h.routed,
        hrounds ▸ h.rounds⟩
      · have := hlog.made
        rw [if_pos hok] at this
        rw [if_neg hmade.2.2, hmade.1]
        omega
      · exact ⟨src, hsrc, expert, he, by rw [hframe]; omega⟩
    | true =>
      dsimp only at hrounds ⊢
      have hs' := appendSegment_true happ
      have hgive : LogOk c.toParams (s'.give expert src (c.homeRank expert) (s.remainingTpe src expert))
          (log ++ [m]) := by
        rw [hframe]
        exact hlog.tables.give hsrc (hc.homeRank_lt he) he (Nat.pos_of_ne_zero h0) le_rfl
      refine ⟨⟨log ++ [m], hgive, ?_, ?_, fun hf => ?_⟩,
        h.balanced.congr (by rw [← hframe]; rfl) (by rw [← hframe]; rfl) hrows hmoves,
        fun hl a b => ?_, hrounds ▸ h.rounds⟩
      · rw [hs', filter_append]
        dsimp only
        rw [hlog.own]
      · have := hlog.made
        rw [hs', length_append]
        dsimp only
        rw [if_pos hok] at this ⊢
        simp only [length_singleton]
        omega
      · rw [hs'] at hf
        exact absurd hok hf
      · have := h.routed hl a b
        rw [← hframe] at this
        exact this

/-- The points of a run: those of the move phases, and between two remainders. -/
inductive RunPoint (c : Ctx) : State → Prop
  | moves {s : State} (h : MovePoint c s) : RunPoint c s
  | remainders (k : ℕ) (hintra : (runIntra c (State.initial c.toParams)).fatal = .ok)
      (hinter : (runInter c (runIntra c (State.initial c.toParams))).fatal = .ok) :
      RunPoint c (remaindersAt c (runInter c (runIntra c (State.initial c.toParams))) k)

theorem RunPoint.runState {c : Ctx} (hc : c.toParams.Valid)
    (haff : ∀ d, ∀ r ∈ c.affinityOrder d, r < c.rankSize) (h : RunPoint c s) : RunState c s := by
  cases h with
  | moves h => exact h.runState hc haff
  | remainders k hintra _ =>
    refine foldlRecOn _ _ ((MovePoint.afterInter hintra).runState hc haff) fun s hs a ha => ?_
    obtain ⟨he, hsrc⟩ := mem_remainderPairs (mem_of_mem_take ha)
    exact hs.appendRemainder hc he hsrc

theorem runPoint_runMoves (c : Ctx) : RunPoint c (runMoves c) := by
  unfold runMoves
  dsimp only
  by_cases hintra : (runIntra c (State.initial c.toParams)).fatal = .ok
  swap
  · rw [if_neg hintra, if_neg hintra]
    exact .moves .afterIntra
  rw [if_pos hintra]
  by_cases hinter : (runInter c (runIntra c (State.initial c.toParams))).fatal = .ok
  swap
  · rw [if_neg hinter]
    exact .moves (.afterInter hintra)
  rw [if_pos hinter, ← remaindersAt_end]
  exact .remainders _ hintra hinter

end TileXR.Plan
