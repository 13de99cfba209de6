import TileXR.Plan.Reference

/-!
# The rounds of the move phases end

A move takes `a` routes off one rank's load and puts them on another's (`Moved`). No call moves more
than it was asked for, and the rounds only ask for what brings the sender down to, and the receiver
up to, capacity; so every round that moves anything lowers the total deficit, which makes the loops
of both planners the unrolled `while (true)` loops of the source (`Decreases`).
-/

namespace TileXR.Plan
open Lib List
variable {asg : Assignment} {c : Ctx} {pairs : List (ℕ × ℕ)} {p : Params} {t : Tables} {aff : ℕ → List ℕ}
  {s : State} {L : ℕ → ℕ} {r request : ℕ}

/-- `L` is `L₀` after `a` routes went from `home` to `dst`. -/
def Moved (L₀ : ℕ → ℕ) (home dst a : ℕ) (L : ℕ → ℕ) : Prop := L = add1 (sub1 L₀ home a) dst a

namespace Moved
variable {L₀ L₁ L₂ : ℕ → ℕ} {home dst a b : ℕ}

theorem refl (L : ℕ → ℕ) (home dst : ℕ) : Moved L home dst 0 L := by
  funext x; simp [add1_apply, sub1_apply]

theorem apply (h : Moved L₀ home dst a L₁) (x : ℕ) :
    L₁ x = L₀ x - (if x = home then a else 0) + if x = dst then a else 0 := by
  rw [h, add1_apply, sub1_apply]

theorem trans (hne : home ≠ dst) (h₁ : Moved L₀ home dst a L₁) (h₂ : Moved L₁ home dst b L₂) :
    Moved L₀ home dst (a + b) L₂ := by
  funext x
  rw [h₂.apply, h₁.apply, add1_apply, sub1_apply]
  by_cases hh : x = home
  · have hd : ¬ x = dst := fun hd => hne (hh.symm.trans hd)
    simp only [hh, if_true, hne, if_false]; omega
  · simp only [hh, if_false]
    by_cases hd : x = dst
    · simp only [hd, if_true]; omega
    · simp only [hd, if_false]; omega

end Moved

/-- A move of at most the surplus and at most the gap lowers the deficit by what it moves. -/
theorem deficit_moved (p : Params) {t' : Tables} {src dst a : ℕ} (hdst : dst < p.rankSize)
    (ha : a ≤ requestedUnits p.cap t.rankLoad src dst)
    (h : Moved t.rankLoad src dst a t'.rankLoad) : t'.deficit p + a = t.deficit p := by
  have hle : a ≤ t.rankLoad src - p.cap ∧ a ≤ p.cap - t.rankLoad dst := by
    rw [requestedUnits] at ha; exact ⟨ha.trans (min_le_left _ _), ha.trans (min_le_right _ _)⟩
  have hgap : (fun r => p.cap - t'.rankLoad r) = sub1 (fun r => p.cap - t.rankLoad r) dst a := by
    funext r
    rw [sub1_apply, h.apply]
    by_cases hs : r = src
    · subst hs
      by_cases hd : r = dst
      · subst hd; simp only [if_true]; omega
      · simp only [if_true, hd, if_false]; omega
    · simp only [hs, if_false]
      split <;> omega
  have hsum := sum_sub1 (fun r => p.cap - t.rankLoad r) dst a (Finset.range p.rankSize) hle.2
  rw [if_pos (Finset.mem_range.2 hdst)] at hsum
  rw [Tables.deficit, hgap, hsum, Tables.deficit]

/-! ## The per-rank planner -/

theorem appendSegment_frame (c : Ctx) (s : State) (m : TokenSegmentMove) :
    (appendSegment c s m).1.toTables = s.toTables ∧ (appendSegment c s m).1.remoteExpertSet = s.remoteExpertSet ∧
      (appendSegment c s m).1.expertMoves = s.expertMoves ∧ (appendSegment c s m).1.intraRounds = s.intraRounds ∧
      (appendSegment c s m).1.interRounds = s.interRounds := by
  unfold appendSegment
  dsimp only
  split
  · exact ⟨rfl, rfl, rfl, rfl, rfl⟩
  · split <;> exact ⟨rfl, rfl, rfl, rfl, rfl⟩

theorem appendSegment_false {s : State} {m : TokenSegmentMove}
    (h : (appendSegment c s m).2 = false) : (appendSegment c s m).1.fatal ≠ .ok := by
  unfold appendSegment at h ⊢; dsimp only at h ⊢; split at h
  · simp at h
  · rename_i h1
    rw [if_neg h1]
    split at h
    · rename_i h2; rw [if_pos h2]; exact fun h => by cases h
    · simp at h

def State.countedRounds (s : State) : ℕ := s.intraRounds + s.interRounds

/-- Taking tokens leaves the loads, the allocations, the remote rows, the rounds and what is asked for in
total alone. -/
structure TakeKeeps (s : State) (request : ℕ) (a : TakeAcc) : Prop where
  load : a.st.rankLoad = s.rankLoad
  alloc : a.st.alloc = s.alloc
  rows : a.st.remoteExpertSet = s.remoteExpertSet
  rounds : a.st.countedRounds = s.countedRounds
  total : a.expertDemand + a.actual = request
  fatal : a.ok = false → a.st.fatal ≠ .ok

theorem takeFromSource_cases (c : Ctx) (dst expert : ℕ) (a : TakeAcc) (src : ℕ) :
    takeFromSource c dst expert a src = a ∨
    (a.ok = true ∧ ∃ take s', 0 < take ∧
      take = takeAmount c.toParams a.st.toTables dst expert src a.expertDemand ∧
      ((appendSegment c a.st (a.st.nextSegment expert src dst take) = (s', false) ∧
        takeFromSource c dst expert a src = { a with st := s', ok := false }) ∨
      (appendSegment c a.st (a.st.nextSegment expert src dst take) = (s', true) ∧
        takeFromSource c dst expert a src =
          { st := { s' with toTables := (s'.give expert src dst take).route c.toParams src dst take }
            expertDemand := a.expertDemand - take, actual := a.actual + take, ok := true }))) := by
  unfold takeFromSource
  by_cases hrun : (!a.ok || a.expertDemand = 0) = true
  · rw [if_pos hrun]; exact .inl rfl
  rw [if_neg hrun]
  dsimp only
  set take := takeAmount c.toParams a.st.toTables dst expert src a.expertDemand with htake
  by_cases h0 : take = 0
  · rw [if_pos h0]; exact .inl rfl
  rw [if_neg h0]
  refine .inr ⟨by simp at hrun; exact hrun.1, take, ?_⟩
  cases happ : appendSegment c a.st (a.st.nextSegment expert src dst take) with
  | mk s' ok =>
    refine ⟨s', Nat.pos_of_ne_zero h0, rfl, ?_⟩
    cases ok with
    | false => exact .inl ⟨rfl, rfl⟩
    | true => exact .inr ⟨rfl, rfl⟩

theorem takeAmount_le (p : Params) (t : Tables) (dst expert src demand : ℕ) :
    takeAmount p t dst expert src demand ≤ t.remainingTpe src expert ∧
      takeAmount p t dst expert src demand ≤ demand :=
  ⟨(min_le_left _ _).trans (min_le_left _ _), (min_le_left _ _).trans (min_le_right _ _)⟩

@[simp] theorem Tables.route_remainingTpe (p : Params) (t : Tables) (src dst n : ℕ) :
    (t.route p src dst n).remainingTpe = t.remainingTpe := by
  unfold Tables.route; split <;> rfl

@[simp] theorem Tables.route_rankLoad (p : Params) (t : Tables) (src dst n : ℕ) :
    (t.route p src dst n).rankLoad = t.rankLoad := by
  unfold Tables.route; split <;> rfl

@[simp] theorem Tables.route_alloc (p : Params) (t : Tables) (src dst n : ℕ) :
    (t.route p src dst n).alloc = t.alloc := by
  unfold Tables.route; split <;> rfl

theorem TakeKeeps.step {dst expert : ℕ} {a : TakeAcc} (h : TakeKeeps s request a) (src : ℕ) :
    TakeKeeps s request (takeFromSource c dst expert a src) := by
  rcases takeFromSource_cases c dst expert a src with he | ⟨_, take, s', _, htake, hc⟩
  · rw [he]; exact h
  have hle : take ≤ a.expertDemand := htake ▸ (takeAmount_le _ _ _ _ _ _).2
  obtain ⟨htables, hrows, -, hintra, hinter⟩ :=
    appendSegment_frame c a.st (a.st.nextSegment expert src dst take)
  have hrounds : (appendSegment c a.st (a.st.nextSegment expert src dst take)).1.countedRounds =
      s.countedRounds := by
    rw [← h.rounds, State.countedRounds, hintra, hinter]
    rfl
  rcases hc with ⟨happ, he⟩ | ⟨happ, he⟩ <;> rw [he] <;> rw [happ] at htables hrows hrounds
  · have hf := appendSegment_false (c := c) (s := a.st) (by rw [happ])
    rw [happ] at hf
    exact ⟨htables ▸ h.load, htables ▸ h.alloc, hrows.trans h.rows, hrounds, h.total, fun _ => hf⟩
  · refine ⟨?_, ?_, hrows.trans h.rows, hrounds, ?_, fun hf => by simp at hf⟩
    · rw [← h.load, ← htables]; exact Tables.route_rankLoad ..
    · rw [← h.alloc, ← htables]; exact Tables.route_alloc ..
    · have := h.total; show a.expertDemand - take + (a.actual + take) = request; omega

def startTake (s : State) (home expert demand : ℕ) : TakeAcc :=
  ⟨s, min (s.alloc home expert) demand, 0, true⟩

theorem TakeKeeps.start (s : State) (home dst expert demand : ℕ) (srcs : List ℕ) :
    TakeKeeps s (min (s.alloc home expert) demand)
      (srcs.foldl (takeFromSource c dst expert) (startTake s home expert demand)) :=
  foldlRecOn _ _ ⟨rfl, rfl, rfl, rfl, by simp [startTake], fun hf => by simp [startTake] at hf⟩
    fun _ h src _ => h.step src

/-- The turn of an expert runs: there are tokens to ask for and a slot for it. -/
def TurnRuns (c : Ctx) (home dst expert : ℕ) (a : MoveAcc) : Prop :=
  a.ok = true ∧ a.demand ≠ 0 ∧ a.st.alloc home expert ≠ 0 ∧
    (findRemote a.st dst expert = true ∨ (a.st.remoteExpertSet dst).length < c.prefetchSlots)

theorem moveExpert_cases (c : Ctx) (home dst expert : ℕ) (a : MoveAcc) :
    moveExpert c home dst a expert = a ∨
    moveExpert c home dst a expert = { a with st := { a.st with slotBlock := true } } ∨
    (TurnRuns c home dst expert a ∧
      ∃ t, t = (c.affinityOrder dst).foldl (takeFromSource c dst expert)
        (startTake a.st home expert a.demand) ∧
      ((t.ok = false ∧ moveExpert c home dst a expert = { a with st := t.st, found := true, ok := false }) ∨
        (t.ok = true ∧ moveExpert c home dst a expert =
          ⟨bookMove c home dst expert (findRemote a.st dst expert) t, a.demand - t.actual, true, true⟩))) := by
  unfold moveExpert
  by_cases hrun : (!a.ok || a.demand = 0) = true
  · rw [if_pos hrun]; exact .inl rfl
  rw [if_neg hrun]
  dsimp only
  by_cases h0 : a.st.alloc home expert = 0
  · rw [if_pos h0]; exact .inl rfl
  rw [if_neg h0]
  by_cases hslot : (!findRemote a.st dst expert && c.prefetchSlots ≤ (a.st.remoteExpertSet dst).length) = true
  · rw [if_pos hslot]; exact .inr (.inl rfl)
  rw [if_neg hslot]
  refine .inr (.inr ⟨?_, _, rfl, ?_⟩)
  · simp only [Bool.or_eq_true, Bool.not_eq_true', decide_eq_true_eq, not_or] at hrun
    simp only [Bool.and_eq_true, Bool.not_eq_true', decide_eq_true_eq, not_and, not_le] at hslot
    refine ⟨by simpa using hrun.1, hrun.2, h0, ?_⟩
    cases hf : findRemote a.st dst expert with
    | true => exact .inl rfl
    | false => exact .inr (hslot hf)
  · unfold startTake
    cases hok : ((c.affinityOrder dst).foldl (takeFromSource c dst expert)
        ⟨a.st, min (a.st.alloc home expert) a.demand, 0, true⟩).ok with
    | false => exact .inl ⟨rfl, if_pos rfl⟩
    | true => exact .inr ⟨rfl, if_neg (by simp)⟩

theorem book_zero (t : Tables) (home dst expert : ℕ) : t.book home dst expert 0 = t := by
  unfold Tables.book
  congr 1
  · exact (Moved.refl t.rankLoad home dst).symm
  · funext r e; simp [add2_apply, sub2_apply]

theorem bookMove_frame (c : Ctx) (home dst expert : ℕ) (remote : Bool) (t : TakeAcc) :
    (bookMove c home dst expert remote t).toTables = t.st.book home dst expert t.actual ∧
      (bookMove c home dst expert remote t).fatal = t.st.fatal ∧
      (bookMove c home dst expert remote t).countedRounds = t.st.countedRounds := by
  unfold bookMove
  by_cases h : 0 < t.actual
  · simp only [h, if_true]
    split_ifs <;> exact ⟨rfl, rfl, rfl⟩
  · rw [show t.actual = 0 by omega, book_zero]
    simp only [lt_irrefl, if_false]
    split_ifs <;> exact ⟨rfl, rfl, rfl⟩

theorem bookMove_rankLoad (c : Ctx) (home dst expert : ℕ) (remote : Bool) (t : TakeAcc) :
    Moved t.st.rankLoad home dst t.actual (bookMove c home dst expert remote t).rankLoad := by
  rw [(bookMove_frame ..).1]
  rfl

structure MoveKeeps (s : State) (home dst request : ℕ) (a : MoveAcc) : Prop where
  le : a.demand ≤ request
  load : Moved s.rankLoad home dst (request - a.demand) a.st.rankLoad
  rounds : a.st.countedRounds = s.countedRounds
  fatal : a.ok = false → a.st.fatal ≠ .ok

theorem MoveKeeps.step {home dst : ℕ} (hne : home ≠ dst) {a : MoveAcc} (h : MoveKeeps s home dst request a)
    (expert : ℕ) : MoveKeeps s home dst request (moveExpert c home dst a expert) := by
  rcases moveExpert_cases c home dst expert a with hsame | hslot | ⟨_, t, ht, hc⟩
  · rw [hsame]; exact h
  · rw [hslot]; exact ⟨h.le, h.load, h.rounds, h.fatal⟩
  have hk : TakeKeeps a.st (min (a.st.alloc home expert) a.demand) t := ht ▸ TakeKeeps.start ..
  have hrounds := hk.rounds.trans h.rounds
  rcases hc with ⟨hok, hres⟩ | ⟨_, hres⟩ <;> rw [hres]
  · exact ⟨h.le, by rw [hk.load]; exact h.load, hrounds, fun _ => hk.fatal hok⟩
  · have hle : t.actual ≤ a.demand := by
      have h1 := hk.total
      have h2 : min (a.st.alloc home expert) a.demand ≤ a.demand := min_le_right _ _
      omega
    have hd := h.le
    refine ⟨(Nat.sub_le _ _).trans hd, ?_, (bookMove_frame ..).2.2.trans hrounds, fun hf => by simp at hf⟩
    have hb := bookMove_rankLoad c home dst expert (findRemote a.st dst expert) t
    rw [hk.load] at hb
    have hq : request - (a.demand - t.actual) = request - a.demand + t.actual := by omega
    show Moved s.rankLoad home dst (request - (a.demand - t.actual)) _
    rw [hq]
    exact h.load.trans hne hb

theorem MoveKeeps.start {home dst : ℕ} (hne : home ≠ dst) (s : State) (request : ℕ) (experts : List ℕ) :
    MoveKeeps s home dst request (experts.foldl (moveExpert c home dst) ⟨s, request, false, true⟩) :=
  foldlRecOn _ _ ⟨le_rfl, by simpa using Moved.refl _ _ _, rfl, fun hf => by simp at hf⟩
    fun _ h e _ => h.step hne e

/-- Every call, failed or not, moves some routes off the one load and onto the other; it returns no more
than these, and just these unless it fails. -/
theorem applyExpertMove_moved (c : Ctx) (s : State) (home dst request : ℕ) :
    (applyExpertMove c s home dst request).1.countedRounds = s.countedRounds ∧
    ∃ a ≤ request, Moved s.rankLoad home dst a (applyExpertMove c s home dst request).1.rankLoad ∧
      (applyExpertMove c s home dst request).2 ≤ a ∧
      ((applyExpertMove c s home dst request).1.fatal = .ok → (applyExpertMove c s home dst request).2 = a) := by
  unfold applyExpertMove
  split
  · exact ⟨rfl, 0, Nat.zero_le _, Moved.refl .., le_rfl, fun _ => rfl⟩
  rename_i h
  have hk := MoveKeeps.start (c := c) (fun he => h (.inr (.inl he))) s request
    (expertOrder c.toParams s.toTables home)
  generalize (expertOrder c.toParams s.toTables home).foldl (moveExpert c home dst)
    ⟨s, request, false, true⟩ = a at hk ⊢
  dsimp only
  split
  · rename_i hok
    exact ⟨hk.rounds, request - a.demand, Nat.sub_le _ _, hk.load, Nat.zero_le _,
      fun hf => absurd hf (hk.fatal (by simpa using hok))⟩
  · dsimp only
    split <;> exact ⟨hk.rounds, request - a.demand, Nat.sub_le _ _, hk.load, le_rfl, fun _ => rfl⟩

/-- What the calls of a round do to the state and the tokens moved in it: they pay for these with the
deficit, to the last one unless a call fails, and count no rounds. -/
structure Paid (c : Ctx) (a b : State × ℕ) : Prop where
  le : a.2 ≤ b.2
  paid : b.2 + b.1.toTables.deficit c.toParams ≤ a.2 + a.1.toTables.deficit c.toParams
  whole : b.1.fatal = .ok → b.2 + b.1.toTables.deficit c.toParams = a.2 + a.1.toTables.deficit c.toParams
  rounds : b.1.countedRounds = a.1.countedRounds

theorem Paid.refl (a : State × ℕ) : Paid c a a := ⟨le_rfl, le_rfl, fun _ => rfl, rfl⟩

theorem Paid.trans {a₁ a₂ a₃ : State × ℕ} (h : Paid c a₁ a₂) (hok : a₂.1.fatal = .ok) (h' : Paid c a₂ a₃) :
    Paid c a₁ a₃ :=
  ⟨h.le.trans h'.le, h'.paid.trans h.paid, fun hf => (h'.whole hf).trans (h.whole hok), h'.rounds.trans h.rounds⟩

/-- A call of the phases, of whose tokens `m` are counted. -/
theorem applyExpertMove_paid (c : Ctx) (s : State) (home : ℕ) {dst m : ℕ} (n : ℕ) (hdst : dst < c.rankSize)
    (hm : m ≤ (applyExpertMove c s home dst (requestedUnits c.cap s.rankLoad home dst)).2)
    (hall : (applyExpertMove c s home dst (requestedUnits c.cap s.rankLoad home dst)).1.fatal = .ok →
      m = (applyExpertMove c s home dst (requestedUnits c.cap s.rankLoad home dst)).2) :
    Paid c (s, n) ((applyExpertMove c s home dst (requestedUnits c.cap s.rankLoad home dst)).1, n + m) := by
  obtain ⟨hrounds, a, ha, hmoved, hle, heq⟩ :=
    applyExpertMove_moved c s home dst (requestedUnits c.cap s.rankLoad home dst)
  have hdeficit := deficit_moved c.toParams (t := s.toTables) hdst ha hmoved
  refine ⟨Nat.le_add_right _ _, ?_, fun hf => ?_, hrounds⟩
  · dsimp only; omega
  · have := hall hf
    have := heq hf
    dsimp only
    omega

theorem movePairs_paid (c : Ctx) (hp : ∀ pr ∈ pairs, pr.2 < c.rankSize) (a : State × ℕ) :
    Paid c a (pairs.foldl (movePair c) a) := by
  refine foldlRecOn (motive := Paid c a) _ _ (.refl a) fun b hb pr hpr => ?_
  unfold movePair
  split
  · exact hb
  · rename_i hok
    exact hb.trans (not_not.1 hok) (applyExpertMove_paid c b.1 pr.1 b.2 (hp pr hpr) le_rfl fun _ => rfl)

theorem sortRanks_some {ranks sorted : List ℕ} {ids : ℕ → ℕ} {n : ℕ} {asc : Bool}
    (h : sortRanks ranks L ids n asc = some sorted) : sorted = insertSort (betterRank L ids asc) ranks := by
  unfold sortRanks at h
  split at h
  · cases h
  · split at h
    · cases h
    · exact (Option.some.inj h).symm

theorem pairRanks_mem {cap : ℕ} {active : List ℕ} (h : pairRanks cap L active = some pairs) {pr : ℕ × ℕ}
    (hpr : pr ∈ pairs) : (pr.1 ∈ active ∧ cap < L pr.1) ∧ (pr.2 ∈ active ∧ L pr.2 < cap) := by
  unfold pairRanks at h
  dsimp only at h
  split at h
  · cases h
  split at h
  · cases h
  obtain rfl := Option.some.inj h
  obtain ⟨h1, h2⟩ := of_mem_zip (show (pr.1, pr.2) ∈ _ from hpr)
  rw [mem_filter] at h1 h2
  exact ⟨⟨mem_of_mem_take (mem_reverse.1 h1.1), by simpa using h1.2⟩,
    mem_of_mem_drop h2.1, by simpa using h2.2⟩

theorem mem_activeInServer {key : ℕ} (h : r ∈ activeInServer p t key) :
    r < p.rankSize := mem_range.1 (mem_of_mem_filter h)

theorem intraRound_decreases (c : Ctx) (key : ℕ) :
    Decreases (fun s : State => s.toTables.deficit c.toParams) (intraRound c key) := by
  intro s s' h
  unfold intraRound at h
  split at h
  · cases h
  rename_i active hsort
  split at h
  · cases h
  rename_i pairs hpairs
  dsimp only at h
  split at h
  · cases h
  rename_i hfatal
  split at h
  · cases h
  rename_i hmoved
  obtain rfl := Step.next.inj h
  have hp : ∀ pr ∈ pairs, pr.2 < c.rankSize := by
    intro pr hpr
    obtain ⟨-, h2, -⟩ := pairRanks_mem hpairs hpr
    rw [sortRanks_some hsort, mem_insertSort] at h2
    exact mem_activeInServer h2
  have hd := (movePairs_paid c hp (s, 0)).whole (not_not.1 hfatal)
  dsimp only at hd ⊢
  omega

def InterAcc.moved (a : InterAcc) : State × ℕ := (a.st, a.actualRound)

theorem tryCandidates_paid (c : Ctx) (senders : List ℕ) {dst : ℕ} (hdst : dst < c.rankSize)
    (cands : List ℕ) (n : ℕ) (a : InterAcc) : Paid c a.moved (tryCandidates c senders dst cands n a).moved := by
  induction cands generalizing n a with
  | nil => exact .refl _
  | cons src rest ih =>
    have hpaid := fun m => applyExpertMove_paid c a.st src (m := m) a.actualRound hdst
    unfold tryCandidates
    split
    · exact .refl _
    split
    · exact ih n a
    split
    · exact ih (n + 1) a
    dsimp only
    split
    · exact ih (n + 1) a
    split
    · rename_i hbad
      exact hpaid 0 (Nat.zero_le _) fun hok => absurd hok hbad
    rename_i hok
    split
    · exact hpaid _ le_rfl fun _ => rfl
    · have hcall := hpaid 0 (Nat.zero_le _) fun _ => by omega
      exact hcall.trans (not_not.1 hok) (ih (n + 1) { a with st := _ })

theorem serveReceivers_paid (c : Ctx) (senders : List ℕ) {rs : List ℕ} (hrs : ∀ r ∈ rs, r < c.rankSize)
    (a : InterAcc) : Paid c a.moved (rs.foldl (serveReceiver c senders) a).moved := by
  refine foldlRecOn (motive := fun b : InterAcc => Paid c a.moved b.moved) _ _ (.refl _) fun b hb r hr => ?_
  unfold serveReceiver
  split
  · exact hb
  · rename_i hok
    exact hb.trans (not_not.1 hok) (tryCandidates_paid c senders (hrs r hr) _ _ _)

theorem foldl_serveReceiver_fatal {senders : List ℕ} (rs : List ℕ) (a : InterAcc)
    (h : a.st.fatal ≠ .ok) : rs.foldl (serveReceiver c senders) a = a :=
  foldl_fixed' (f := serveReceiver c senders) (fun _ => if_pos h) rs

theorem mem_activeRanks (h : r ∈ activeRanks p t) : r < p.rankSize := mem_range.1 (mem_of_mem_filter h)

theorem interRound_decreases (c : Ctx) :
    Decreases (fun s : State => s.toTables.deficit c.toParams) (interRound c) := by
  intro s s' h
  unfold interRound at h
  dsimp only at h
  split at h
  · cases h
  split at h
  · cases h
  rename_i active hsort
  split at h
  · cases h
  split at h
  · cases h
  rename_i receivers hrecv
  split at h
  · cases h
  rename_i hfatal
  split at h
  · cases h
  rename_i hmoved
  obtain rfl := Step.next.inj h
  have hrs : ∀ r ∈ receivers, r < c.rankSize := by
    intro r hr
    rw [sortRanks_some hrecv, mem_insertSort] at hr
    have hr := mem_of_mem_drop hr
    rw [sortRanks_some hsort, mem_insertSort] at hr
    exact mem_activeRanks hr
  have hd := (serveReceivers_paid c _ hrs _).whole (not_not.1 hfatal)
  dsimp only [InterAcc.moved] at hd ⊢
  omega

theorem intraStep_decreases (c : Ctx) :
    Decreases (fun a : Option ℕ × State => serversLeft c.toParams a.1) (intraStep c) := by
  intro a a' h
  unfold intraStep at h
  split at h
  · cases h
  rename_i key hkey
  dsimp only at h
  split at h
  · cases h
  obtain rfl := Step.next.inj h
  have hmem : key ∈ ((List.range c.rankSize).map c.serverKey).filter fun k => a.1.all (· < k) :=
    List.min?_mem hkey
  rw [mem_filter] at hmem
  unfold serversLeft
  -- the keys above `key` are among those above the previous key, and `key` is not one of them
  have hsub : ((List.range c.rankSize).map c.serverKey).filter (fun k => (some key).all (· < k)) =
      (((List.range c.rankSize).map c.serverKey).filter fun k => a.1.all (· < k)).filter
        (fun k => decide (key < k)) := by
    rw [filter_filter]
    refine filter_congr fun k _ => ?_
    cases ha : a.1 with
    | none => simp
    | some q =>
      have : q < key := by simpa [ha] using hmem.2
      simp only [Option.all_some]
      by_cases hk : key < k
      · simp [hk, this.trans hk]
      · simp [hk]
  show _ < _
  dsimp only
  rw [hsub]
  refine length_filter_lt_length_iff_exists.2 ⟨key, mem_filter.2 hmem, by simp⟩

/-! ## The reference planner -/

namespace Reference

theorem assignFromSource_cases (p : Params) (expert dst : ℕ) (a : Assignment) (src : ℕ) :
    assignFromSource p expert dst (some a) src = some a ∨
    assignFromSource p expert dst (some a) src = none ∧ p.rankSize ≤ src ∨
    (src < p.rankSize ∧ ∃ take, 0 < take ∧ take ≤ a.remaining src ∧ take ≤ a.demand ∧
      (p.routeLimit ≠ 0 → take ≤ p.routeLimit - a.routed src) ∧
      assignFromSource p expert dst (some a) src = some (a.take p expert src dst take)) := by
  unfold assignFromSource
  dsimp only
  by_cases hd : a.demand = 0
  · rw [if_pos hd]; exact .inl rfl
  rw [if_neg hd]
  by_cases hs : src ≥ p.rankSize
  · rw [if_pos hs]; exact .inr (.inl ⟨rfl, hs⟩)
  rw [if_neg hs]
  set room := if p.routeLimit ≠ 0 then p.routeLimit - a.routed src else a.demand with hroom
  by_cases h0 : min (min (a.remaining src) a.demand) room = 0
  · rw [if_pos h0]; exact .inl rfl
  rw [if_neg h0]
  refine .inr (.inr ⟨by omega, _, Nat.pos_of_ne_zero h0, by omega, by omega, fun hl => ?_, rfl⟩)
  rw [if_pos hl] at hroom
  rw [← hroom]; exact min_le_right _ _

theorem foldl_assign_none (p : Params) (expert dst : ℕ) (order : List ℕ) :
    order.foldl (assignFromSource p expert dst) none = none :=
  foldl_fixed' (fun _ => rfl) order

theorem assignTokenSources_inv {expert dst : ℕ} {P : Assignment → Prop}
    (hstep : ∀ a src take, P a → src < p.rankSize → 0 < take → take ≤ a.remaining src →
      take ≤ a.demand → (p.routeLimit ≠ 0 → take ≤ p.routeLimit - a.routed src) →
      P (a.take p expert src dst take))
    (order : List ℕ) {a : Assignment} (ha : P a)
    (h : order.foldl (assignFromSource p expert dst) (some a) = some asg) : P asg := by
  induction order generalizing a with
  | nil => obtain rfl := Option.some.inj h; exact ha
  | cons src order ih =>
    rw [foldl_cons] at h
    rcases assignFromSource_cases p expert dst a src with he | ⟨he, -⟩ |
      ⟨hs, take, h0, hr, hd, hl, he⟩
    · rw [he] at h; exact ih ha h
    · rw [he, foldl_assign_none] at h; cases h
    · rw [he] at h; exact ih (hstep a src take ha hs h0 hr hd hl) h

theorem assignTokenSources_isSome {expert dst : ℕ} {order : List ℕ} (horder : ∀ r ∈ order, r < p.rankSize)
    (a : Assignment) : ∃ asg, order.foldl (assignFromSource p expert dst) (some a) = some asg := by
  induction order generalizing a with
  | nil => exact ⟨a, rfl⟩
  | cons src order ih =>
    rw [foldl_cons]
    have hsrc := horder src mem_cons_self
    have ih := ih fun r hr => horder r (mem_cons_of_mem _ hr)
    rcases assignFromSource_cases p expert dst a src with he | ⟨-, hs⟩ | ⟨-, take, -, -, -, -, he⟩
    · rw [he]; exact ih a
    · omega
    · rw [he]; exact ih _

theorem assignTokenSources_total {expert dst requested : ℕ} {order : List ℕ}
    {remaining routed cursors : ℕ → ℕ} {dstCursor : ℕ}
    (h : assignTokenSources p expert dst requested order remaining routed cursors dstCursor = some asg) :
    asg.demand + asg.actualAssigned = requested := by
  refine assignTokenSources_inv (P := fun a => a.demand + a.actualAssigned = requested)
    (fun a src take ha _ _ _ hd _ => ?_) order (by simp) h
  dsimp only [Assignment.take]; omega

/-- Giving tokens away commutes with writing the columns back. -/
theorem writeBack_give (p : Params) (t : Tables) (expert dst src take : ℕ) (b : Assignment)
    (hsrc : src < p.rankSize) :
    ((writeBack p t expert dst b).give expert src dst take).route p src dst take =
      writeBack p t expert dst (b.take p expert src dst take) := by
  unfold Tables.route Tables.give writeBack Assignment.take
  by_cases hl : p.routeLimit = 0
  · simp only [hl, ne_eq, not_true_eq_false, if_false, Tables.mk.injEq, true_and, and_true]
    refine ⟨?_, ?_, ?_⟩ <;> funext x y
    · rw [sub2_apply, sub1_apply]; grind
    · rw [add2_apply, add1_apply]; grind
    · rw [add2_apply]; grind
  · simp only [hl, ne_eq, not_false_eq_true, if_true, Tables.mk.injEq, true_and]
    refine ⟨?_, ?_, ?_, ?_⟩ <;> funext x y
    · rw [sub2_apply, sub1_apply]; grind
    · rw [add2_apply, add1_apply]; grind
    · rw [add2_apply]; grind
    · rw [add2_apply, add1_apply]; grind

theorem nextSegment_writeBack {expert dst src : ℕ} (b : Assignment) (take : ℕ)
    (hsrc : src < p.rankSize) : (writeBack p t expert dst b).nextSegment expert src dst take =
      ⟨expert, src, dst, b.cursors src, b.dstCursor, take⟩ := by
  simp only [Tables.nextSegment, writeBack, hsrc, and_self, if_true]

/-- What a booking writes, whether or not a source gave anything. -/
theorem bookMove_eq (p : Params) (home dst expert request : ℕ) (remote : Bool) (t : RefState)
    (a : Assignment) : bookMove p home dst expert request remote t a =
      { t with
        toTables := (writeBack p t.toTables expert dst a).book home dst expert a.actualAssigned
        remoteExpertSets :=
          if 0 < a.actualAssigned ∧ remote = false then
            Function.update t.remoteExpertSets dst (insert expert (t.remoteExpertSets dst))
          else t.remoteExpertSets
        segments := t.segments ++ if 0 < a.actualAssigned then a.segments else []
        expertMoves := t.expertMoves ++
          if 0 < a.actualAssigned then [⟨expert, home, dst, request, a.actualAssigned, t.roundCounter⟩] else []
        sawRouteOrPairBlock := t.sawRouteOrPairBlock || 0 < a.demand && a.routeLimited p
        sawSupplyBlock := t.sawSupplyBlock || 0 < a.demand && !a.routeLimited p && a.supplyExhausted p } := by
  -- the flags, for any state that the booking leaves
  have hflags : ∀ t : RefState,
      (if 0 < a.demand then
        if a.routeLimited p then { t with sawRouteOrPairBlock := true }
        else if a.supplyExhausted p then { t with sawSupplyBlock := true }
        else t
      else t) = { t with
        sawRouteOrPairBlock := t.sawRouteOrPairBlock || 0 < a.demand && a.routeLimited p
        sawSupplyBlock := t.sawSupplyBlock || 0 < a.demand && !a.routeLimited p && a.supplyExhausted p } := by
    intro t
    by_cases hd : 0 < a.demand
    · cases hr : a.routeLimited p <;> cases hs : a.supplyExhausted p <;> simp [hd]
    · simp [hd]
  refine (hflags _).trans ?_
  by_cases hn : 0 < a.actualAssigned
  · cases remote <;> simp [hn]
  · rw [show a.actualAssigned = 0 by omega, book_zero]
    simp

theorem bookMove_rankLoad (p : Params) (home dst expert request : ℕ) (remote : Bool) (t : RefState)
    (a : Assignment) : Moved t.rankLoad home dst a.actualAssigned
      (bookMove p home dst expert request remote t a).rankLoad := by
  rw [bookMove_eq]
  rfl

structure MoveKeeps (L : ℕ → ℕ) (home dst request : ℕ) (a : RefMoveAcc) : Prop where
  le : a.demand ≤ request
  load : Moved L home dst (request - a.demand) a.st.rankLoad

theorem MoveKeeps.step {home dst : ℕ} (hne : home ≠ dst) {a : RefMoveAcc} (h : MoveKeeps L home dst request a)
    (expert : ℕ) : MoveKeeps L home dst request (moveExpert p aff home dst a expert) := by
  unfold moveExpert
  split
  · exact h
  dsimp only
  split
  · exact h
  split
  · exact ⟨h.le, h.load⟩
  split
  · exact ⟨h.le, h.load⟩
  rename_i asg hasg
  have htot := assignTokenSources_total hasg
  have hmin : min (a.st.alloc home expert) a.demand ≤ a.demand := min_le_right _ _
  have hd := h.le
  refine ⟨(Nat.sub_le _ _).trans hd, ?_⟩
  have hq : request - (a.demand - asg.actualAssigned) =
      request - a.demand + asg.actualAssigned := by omega
  show Moved L home dst (request - (a.demand - asg.actualAssigned)) _
  rw [hq]
  exact h.load.trans hne (bookMove_rankLoad ..)

theorem MoveKeeps.foldl {home dst : ℕ}
    (hne : home ≠ dst) (experts : List ℕ) {a : RefMoveAcc} (h : MoveKeeps L home dst request a) :
    MoveKeeps L home dst request (experts.foldl (moveExpert p aff home dst) a) := by
  exact foldlRecOn _ _ h fun _ h e _ => h.step hne e

/-- One call moves at most what it is asked for, off the one load and onto the other. -/
theorem applyExpertMove_load (p : Params) (aff : ℕ → List ℕ) (t : RefState) (home dst request : ℕ) :
    (applyExpertMove p aff t home dst request).2 ≤ request ∧
      Moved t.rankLoad home dst (applyExpertMove p aff t home dst request).2
        (applyExpertMove p aff t home dst request).1.rankLoad := by
  unfold applyExpertMove
  split
  · exact ⟨Nat.zero_le _, Moved.refl _ _ _⟩
  · rename_i h
    have hne : home ≠ dst := fun he => h (.inr he)
    have hk : MoveKeeps t.rankLoad home dst request ⟨t, request, false⟩ :=
      ⟨le_rfl, by simpa using Moved.refl t.rankLoad home dst⟩
    refine ⟨Nat.sub_le _ _, ?_⟩
    dsimp only
    split <;> exact (hk.foldl hne _).load

end Reference

end TileXR.Plan
