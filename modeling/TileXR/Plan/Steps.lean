import TileXR.Plan.SimRounds

/-!
# The steps of the move phases

`ApplyExpertMove` changes the state in few ways: a source gives tokens away (`take`), there is no
record left for that (`full`), what was taken for an expert is booked (`book`), a block is noted
(`note`). `Prim` lists them with the segments they make, `Made` is a state reached by any such steps in
any order, with all segments made on the way, on whatever rank they are recorded. Every point of
`RunIntra` and `RunInter`, inside a call or between two, is such a state (`MovePoint.made`); the points
between calls are those after a sequence of calls (`Called`).
-/

namespace TileXR.Plan
open Lib List
variable {log new : List TokenSegmentMove} {s s' : State} {t : Tables} {a : TakeAcc} {home request : ℕ}

/-- One change of the state in `ApplyExpertMove`, and the segments it makes. -/
inductive Prim (c : Ctx) : State → List TokenSegmentMove → State → Prop
  | take {s s' : State} {dst expert src demand n : ℕ} (hsrc : src < c.rankSize)
      (hdst : dst < c.rankSize) (he : expert < c.expertNum) (hpos : 0 < n)
      (hn : n = takeAmount c.toParams s.toTables dst expert src demand) (hok : s.fatal = .ok)
      (happ : appendSegment c s (s.nextSegment expert src dst n) = (s', true)) :
      Prim c s [s.nextSegment expert src dst n]
        { s' with toTables := (s'.give expert src dst n).route c.toParams src dst n }
  | full {s s' : State} {dst expert src demand n : ℕ} (hsrc : src < c.rankSize)
      (he : expert < c.expertNum) (hpos : 0 < n)
      (hn : n = takeAmount c.toParams s.toTables dst expert src demand) (hok : s.fatal = .ok)
      (happ : appendSegment c s (s.nextSegment expert src dst n) = (s', false)) : Prim c s [] s'
  | book {s : State} {home dst expert n : ℕ} {rows : ℕ → List ℕ} (hhome : home < c.rankSize)
      (hdst : dst < c.rankSize) (he : expert < c.expertNum) (howner : c.homeRank expert = home)
      (hne : home ≠ dst) (hpos : 0 < n) (hclip : n ≤ requestedUnits c.cap s.rankLoad home dst)
      (hle : n ≤ s.alloc home expert)
      (hrows : (expert ∈ s.remoteExpertSet dst ∧ rows = s.remoteExpertSet) ∨
        (expert ∉ s.remoteExpertSet dst ∧ (s.remoteExpertSet dst).length < c.prefetchSlots ∧
          rows = Function.update s.remoteExpertSet dst (s.remoteExpertSet dst ++ [expert]))) :
      Prim c s [] { s with
        toTables := s.book home dst expert n
        remoteExpertSet := rows
        expertMoves := s.expertMoves + 1 }
  | note {s : State} (slot supply pair : Bool) :
      Prim c s [] { s with slotBlock := slot, supplyBlock := supply, pairBlock := pair }

/-- Some steps, and all segments they make. -/
inductive Prims (c : Ctx) (s : State) : List TokenSegmentMove → State → Prop
  | refl : Prims c s [] s
  | step {s' s'' : State} {log new : List TokenSegmentMove} (h : Prims c s log s')
      (hstep : Prim c s' new s'') : Prims c s (log ++ new) s''

theorem Prims.single {c : Ctx} (h : Prim c s new s') : Prims c s new s' := by simpa using Prims.refl.step h

theorem Prims.trans {c : Ctx} {s'' : State} {log' : List TokenSegmentMove}
    (h : Prims c s log s') (h' : Prims c s' log' s'') : Prims c s (log ++ log') s'' := by
  induction h' with
  | refl => simpa using h
  | step _ hstep ih => rw [← append_assoc]; exact ih.step hstep

/-- A state of the moves: steps in any order from the start, with the rounds counted at any time; and
all segments made so far. -/
inductive Made (c : Ctx) : State → List TokenSegmentMove → Prop
  | initial : Made c (State.initial c.toParams) []
  | step {s s' : State} {log new : List TokenSegmentMove} (h : Made c s log)
      (hstep : Prim c s new s') : Made c s' (log ++ new)
  | count {s : State} {log : List TokenSegmentMove} (h : Made c s log) (intra inter : ℕ) (pair : Bool) :
      Made c { s with intraRounds := intra, interRounds := inter, pairBlock := pair } log

theorem Made.steps {c : Ctx} (h : Made c s log) (hsteps : Prims c s new s') : Made c s' (log ++ new) := by
  induction hsteps with
  | refl => simpa using h
  | step _ hstep ih => rw [← append_assoc]; exact ih.step hstep

/-! ## A call is made of steps -/

section Call
variable {c : Ctx} {dst expert : ℕ} (haff : ∀ d, ∀ r ∈ c.affinityOrder d, r < c.rankSize)

theorem appendSegment_true {m : TokenSegmentMove}
    (h : appendSegment c s m = (s', true)) : s' = { s with
      globalSegments := s.globalSegments + 1
      tokenSegments := s.tokenSegments ++ [m].filter (·.srcRank = c.rank) } := by
  rcases appendSegment_cases c s m with ⟨_, _, s₁, happ, _⟩ | happ
  · rw [h] at happ; simp at happ
  · rw [h] at happ; exact (Prod.mk.inj happ).1

theorem takeFromSource_prims {src : ℕ} (hsrc : src < c.rankSize) (hdst : dst < c.rankSize) (he : expert < c.expertNum)
    (ha : a.ok = true → a.st.fatal = .ok) : (∃ new, Prims c a.st new (takeFromSource c dst expert a src).st) ∧
      ((takeFromSource c dst expert a src).ok = true → (takeFromSource c dst expert a src).st.fatal = .ok) := by
  rcases takeFromSource_cases c dst expert a src with hsame | ⟨hok, take, s', hpos, htake, hc⟩
  · rw [hsame]; exact ⟨⟨[], .refl⟩, ha⟩
  rcases hc with ⟨happ, hres⟩ | ⟨happ, hres⟩
  · rw [hres]; exact ⟨⟨_, .single (.full hsrc he hpos htake (ha hok) happ)⟩, fun hf => by simp at hf⟩
  · rw [hres]
    refine ⟨⟨_, .single (.take hsrc hdst he hpos htake (ha hok) happ)⟩, fun _ => ?_⟩
    rw [appendSegment_true happ]
    exact ha hok

theorem takeFromSources_prims {srcs : List ℕ} (hsrcs : ∀ r ∈ srcs, r < c.rankSize) (hdst : dst < c.rankSize)
    (he : expert < c.expertNum) (ha : a.ok = true → a.st.fatal = .ok) :
    (∃ new, Prims c a.st new (srcs.foldl (takeFromSource c dst expert) a).st) ∧
      ((srcs.foldl (takeFromSource c dst expert) a).ok = true →
        (srcs.foldl (takeFromSource c dst expert) a).st.fatal = .ok) := by
  induction srcs generalizing a with
  | nil => exact ⟨⟨[], .refl⟩, ha⟩
  | cons src srcs ih =>
    obtain ⟨⟨new, h⟩, ha'⟩ := takeFromSource_prims (hsrcs src mem_cons_self) hdst he ha
    obtain ⟨⟨new', h'⟩, hend⟩ := ih (fun r hr => hsrcs r (mem_cons_of_mem _ hr)) ha'
    exact ⟨⟨new ++ new', h.trans h'⟩, hend⟩

theorem bookMove_prims {t : TakeAcc} (hhome : home < c.rankSize) (hdst : dst < c.rankSize) (he : expert < c.expertNum)
    (howner : c.homeRank expert = home) (hne : home ≠ dst) (ht : TakeKeeps s request t)
    (halloc : request ≤ s.alloc home expert) (hclip : request ≤ requestedUnits c.cap s.rankLoad home dst)
    (hslot : findRemote s dst expert = true ∨ (s.remoteExpertSet dst).length < c.prefetchSlots) :
    ∃ new, Prims c t.st new (bookMove c home dst expert (findRemote s dst expert) t) := by
  have hactual : t.actual ≤ request := by have := ht.total; omega
  -- the booking, if anything was taken
  obtain ⟨s₁, hs₁, hbook⟩ : ∃ s₁, s₁ = (if 0 < t.actual then
      { t.st with
        toTables := t.st.book home dst expert t.actual
        remoteExpertSet :=
          if findRemote s dst expert then t.st.remoteExpertSet
          else Function.update t.st.remoteExpertSet dst (t.st.remoteExpertSet dst ++ [expert])
        expertMoves := t.st.expertMoves + 1 }
      else t.st : State) ∧ Prims c t.st [] s₁ := by
    refine ⟨_, rfl, ?_⟩
    by_cases hpos : 0 < t.actual
    · rw [if_pos hpos]
      refine .single (.book hhome hdst he howner hne hpos ?_ ?_ ?_)
      · rw [ht.load]; exact hactual.trans hclip
      · rw [ht.alloc]; exact hactual.trans halloc
      · rw [ht.rows]
        cases hfind : findRemote s dst expert with
        | true => exact .inl ⟨by simpa [findRemote] using hfind, if_pos rfl⟩
        | false =>
          refine .inr ⟨by simpa [findRemote] using hfind, ?_, if_neg (by simp)⟩
          exact hslot.resolve_left (by simp [hfind])
    · rw [if_neg hpos]; exact .refl
  unfold bookMove
  dsimp only
  rw [← hs₁]
  split
  · split
    · exact ⟨_, hbook.trans (.single (.note s₁.slotBlock s₁.supplyBlock true))⟩
    · split
      · exact ⟨_, hbook.trans (.single (.note s₁.slotBlock true s₁.pairBlock))⟩
      · exact ⟨_, hbook⟩
  · exact ⟨_, hbook⟩

/-- The loop over the experts: it asks for no more than brings both ranks to capacity. -/
structure MoveClip (c : Ctx) (home dst : ℕ) (a : MoveAcc) : Prop where
  clip : a.demand ≤ requestedUnits c.cap a.st.rankLoad home dst
  fatal : a.ok = true → a.st.fatal = .ok

theorem requestedUnits_moved {cap a : ℕ} {L L' : ℕ → ℕ} (hne : home ≠ dst)
    (h : Moved L home dst a L') : requestedUnits cap L' home dst = requestedUnits cap L home dst - a := by
  unfold requestedUnits
  rw [h.apply, h.apply, if_pos rfl, if_neg hne, if_neg hne.symm, if_pos rfl]
  omega

include haff in
theorem moveExpert_prims (hhome : home < c.rankSize) (hdst : dst < c.rankSize)
    (he : expert < c.expertNum) (howner : c.homeRank expert = home) (hne : home ≠ dst) {a : MoveAcc}
    (h : MoveClip c home dst a) : (∃ new, Prims c a.st new (moveExpert c home dst a expert).st) ∧
      MoveClip c home dst (moveExpert c home dst a expert) := by
  rcases moveExpert_cases c home dst expert a with hsame | hslot | ⟨hrun, t, ht, hc⟩
  · rw [hsame]; exact ⟨⟨[], .refl⟩, h⟩
  · rw [hslot]
    exact ⟨⟨[], .single (.note true a.st.supplyBlock a.st.pairBlock)⟩, ⟨h.clip, h.fatal⟩⟩
  have hframe : TakeKeeps a.st (min (a.st.alloc home expert) a.demand) t := ht ▸ TakeKeeps.start ..
  obtain ⟨⟨new, htake⟩, hfatal⟩ := takeFromSources_prims (haff dst) hdst he
    (a := startTake a.st home expert a.demand) fun _ => h.fatal hrun.1
  rw [← ht] at htake hfatal
  rcases hc with ⟨_, hres⟩ | ⟨hok, hres⟩
  · rw [hres]
    refine ⟨⟨new, htake⟩, ⟨?_, fun hf => by simp at hf⟩⟩
    dsimp only
    rw [hframe.load]; exact h.clip
  · obtain ⟨new', hbook⟩ := bookMove_prims hhome hdst he howner hne hframe (min_le_left _ _)
      ((min_le_right _ _).trans h.clip) hrun.2.2.2
    rw [hres]
    refine ⟨⟨new ++ new', htake.trans hbook⟩, ⟨?_, fun _ => (bookMove_frame ..).2.1.trans (hfatal hok)⟩⟩
    have hload := bookMove_rankLoad c home dst expert (findRemote a.st dst expert) t
    rw [hframe.load] at hload
    dsimp only
    rw [requestedUnits_moved hne hload]
    exact Nat.sub_le_sub_right h.clip _

include haff in
theorem moveExperts_prims (hhome : home < c.rankSize) (hdst : dst < c.rankSize) (hne : home ≠ dst)
    {experts : List ℕ} (hexp : ∀ e ∈ experts, e < c.expertNum ∧ c.homeRank e = home) {a : MoveAcc}
    (h : MoveClip c home dst a) : (∃ new, Prims c a.st new (experts.foldl (moveExpert c home dst) a).st) ∧
      MoveClip c home dst (experts.foldl (moveExpert c home dst) a) := by
  induction experts generalizing a with
  | nil => exact ⟨⟨[], .refl⟩, h⟩
  | cons e es ih =>
    obtain ⟨he, howner⟩ := hexp e mem_cons_self
    obtain ⟨⟨new, h₁⟩, hclip⟩ := moveExpert_prims haff hhome hdst he howner hne h
    obtain ⟨⟨new', h₂⟩, hclip'⟩ := ih (fun x hx => hexp x (mem_cons_of_mem _ hx)) hclip
    exact ⟨⟨new ++ new', h₁.trans h₂⟩, hclip'⟩

theorem mem_expertOrder {e : ℕ} (hhome : home < c.rankSize)
    (he : e ∈ expertOrder c.toParams t home) : e < c.expertNum ∧ c.homeRank e = home := by
  rw [expertOrder, mem_insertSort] at he
  have he := mem_of_mem_filter he
  exact ⟨Reference.lt_expertNum_of_home hhome he, Reference.mem_home he⟩

include haff in
/-- A call of `ApplyExpertMove` that asks for at most what both ranks lack or have over. -/
theorem applyExpertMove_prims (s : State) (hhome : home < c.rankSize)
    (hdst : dst < c.rankSize) (hclip : request ≤ requestedUnits c.cap s.rankLoad home dst) :
    ∃ new, Prims c s new (applyExpertMove c s home dst request).1 := by
  unfold applyExpertMove
  split
  · exact ⟨[], .refl⟩
  rename_i hgo
  have hne : home ≠ dst := fun h => hgo (.inr (.inl h))
  have hok : s.fatal = .ok := not_not.1 fun h => hgo (.inr (.inr h))
  have hstart : MoveClip c home dst ⟨s, request, false, true⟩ := ⟨hclip, fun _ => hok⟩
  obtain ⟨⟨new, h⟩, -⟩ := moveExperts_prims haff hhome hdst hne
    (fun e he => mem_expertOrder hhome he) hstart
  dsimp only
  split
  · exact ⟨new, h⟩
  · dsimp only
    split
    · exact ⟨_, h.trans (.single (.note _ _ true))⟩
    · exact ⟨new, h⟩

end Call

/-! ## The phases are made of calls -/

/-- A property that calls between ranks keep, asking for what the phases ask for, and that does not
depend on the counters of rounds. -/
structure CallInvariant (c : Ctx) (P : State → Prop) : Prop where
  call : ∀ s home dst, home < c.rankSize → dst < c.rankSize → P s →
    P (applyExpertMove c s home dst (requestedUnits c.cap s.rankLoad home dst)).1
  count : ∀ s intra inter (pair : Bool), P s →
    P { s with intraRounds := intra, interRounds := inter, pairBlock := pair }

theorem intraRound_eq (c : Ctx) (key : ℕ) (s : State) :
    intraRound c key s =
      match pairRanks c.cap s.rankLoad (insertSort (betterRank s.rankLoad c.globalRankIds false)
          (activeInServer c.toParams s.toTables key)) with
      | none => .done s
      | some pairs =>
        let r := pairs.foldl (movePair c) (s, 0)
        if r.1.fatal ≠ .ok then .done r.1
        else if r.2 = 0 then .done { r.1 with pairBlock := true }
        else .next { r.1 with intraRounds := r.1.intraRounds + 1 } := by
  have hsorted : sortRanks (activeInServer c.toParams s.toTables key) s.rankLoad c.globalRankIds
      c.rankSize false = some (insertSort (betterRank s.rankLoad c.globalRankIds false)
        (activeInServer c.toParams s.toTables key)) :=
    sortRanks_eq (activeInServer_length ..) fun r hr => mem_activeInServer hr
  unfold intraRound
  generalize sortRanks (activeInServer c.toParams s.toTables key) s.rankLoad c.globalRankIds
    c.rankSize false = sorted at hsorted ⊢
  subst hsorted
  rfl

def heavyFirst (p : Params) (t : Tables) : List ℕ :=
  insertSort (betterRank t.rankLoad p.globalRankIds false) (activeRanks p t)

def underloadedCount (p : Params) (t : Tables) : ℕ :=
  ((activeRanks p t).filter (t.rankLoad · < p.cap)).length

def receiverCount (p : Params) (t : Tables) : ℕ :=
  min (underloadedCount p t) ((activeRanks p t).length / 2)

def interSenders (p : Params) (t : Tables) : List ℕ :=
  (heavyFirst p t).take ((activeRanks p t).length - receiverCount p t)

def interReceivers (p : Params) (t : Tables) : List ℕ :=
  insertSort (betterRank t.rankLoad p.globalRankIds true)
    ((heavyFirst p t).drop ((activeRanks p t).length - receiverCount p t))

/-- There is nothing to balance for a round of `RunInter`. -/
def interIdle (p : Params) (t : Tables) : Prop :=
  (activeRanks p t).length < 2 ∨ underloadedCount p t = 0 ∨
    underloadedCount p t = (activeRanks p t).length

instance (p : Params) (t : Tables) : Decidable (interIdle p t) := by unfold interIdle; infer_instance

theorem heavyFirst_length (p : Params) (t : Tables) :
    (heavyFirst p t).length = (activeRanks p t).length := length_insertSort ..

theorem mem_interReceivers {p : Params} {r : ℕ} (h : r ∈ interReceivers p t) : r < p.rankSize := by
  rw [interReceivers, mem_insertSort] at h
  have h := mem_of_mem_drop h
  rw [heavyFirst, mem_insertSort] at h
  exact mem_activeRanks h

/-- A round of `RunInter` in terms of its senders and receivers. -/
theorem interRound_eq (c : Ctx) (s : State) :
    interRound c s =
      if interIdle c.toParams s.toTables then .done s
      else
        let r := (interReceivers c.toParams s.toTables).foldl
          (serveReceiver c (interSenders c.toParams s.toTables)) ⟨s, [], 0⟩
        if r.st.fatal ≠ .ok then .done r.st
        else if r.actualRound = 0 then .done { r.st with pairBlock := true }
        else .next { r.st with interRounds := r.st.interRounds + 1 } := by
  have hsorted : sortRanks (activeRanks c.toParams s.toTables) s.rankLoad c.globalRankIds c.rankSize
      false = some (heavyFirst c.toParams s.toTables) :=
    sortRanks_eq (activeRanks_length ..) fun r hr => mem_activeRanks hr
  unfold interRound
  dsimp only
  rw [hsorted]
  dsimp only
  rw [heavyFirst_length]
  change (if _ then _ else if receiverCount c.toParams s.toTables = 0 then _ else _) = _
  by_cases hidle : interIdle c.toParams s.toTables
  · rw [if_pos, if_pos hidle]
    simpa [interIdle, underloadedCount, or_assoc] using hidle
  · have hidle' := hidle
    unfold interIdle at hidle'
    rw [if_neg, if_neg hidle, if_neg]
    · have hdrop : ((heavyFirst c.toParams s.toTables).drop
          ((activeRanks c.toParams s.toTables).length - receiverCount c.toParams s.toTables)).length ≤
          c.rankSize := by
        rw [length_drop, heavyFirst_length]
        have := activeRanks_length c.toParams s.toTables
        omega
      have hrecv : sortRanks ((heavyFirst c.toParams s.toTables).drop
          ((activeRanks c.toParams s.toTables).length - receiverCount c.toParams s.toTables))
          s.rankLoad c.globalRankIds c.rankSize true = some (interReceivers c.toParams s.toTables) :=
        sortRanks_eq hdrop fun r hr => mem_interReceivers (mem_insertSort.2 hr)
      unfold receiverCount underloadedCount at hrecv
      rw [hrecv]
      rfl
    · unfold receiverCount; omega
    · simpa [interIdle, underloadedCount, or_assoc] using hidle

namespace CallInvariant
variable {c : Ctx} {P : State → Prop} (h : CallInvariant c P)
include h

theorem movePairs {pairs : List (ℕ × ℕ)} (hp : ∀ pr ∈ pairs, pr.1 < c.rankSize ∧ pr.2 < c.rankSize)
    {a : State × ℕ} (ha : P a.1) : P (pairs.foldl (movePair c) a).1 := by
  refine foldlRecOn (motive := fun a : State × ℕ => P a.1) _ _ ha fun a ha pr hpr => ?_
  unfold movePair
  split
  · exact ha
  · exact h.call _ _ _ (hp pr hpr).1 (hp pr hpr).2 ha

theorem intraRound (key : ℕ) (hs : P s) : P (intraRound c key s).state := by
  rw [intraRound_eq]
  have hpairs := mem_serverPairs (p := c.toParams) (t := s.toTables) key
  unfold serverPairs at hpairs
  split
  · exact hs
  rename_i pairs heq
  rw [heq, Option.getD_some] at hpairs
  have hin : ∀ pr ∈ pairs, pr.1 < c.rankSize ∧ pr.2 < c.rankSize := fun pr hpr =>
    ⟨(hpairs pr hpr).1, (hpairs pr hpr).2.1⟩
  have hend := h.movePairs hin (a := (s, 0)) hs
  dsimp only
  split
  · exact hend
  · split
    · exact h.count _ _ _ _ hend
    · exact h.count _ _ _ _ hend

theorem intraServer (key : ℕ) (hs : P s) : P (intraServer c key s) :=
  loop_keeps (fun _ hs => h.intraRound key hs) hs

theorem intraStep {a : Option ℕ × State} (ha : P a.2) : P (intraStep c a).state.2 := by
  unfold Plan.intraStep
  split
  · exact ha
  · dsimp only
    split <;> exact h.intraServer _ ha

theorem runIntra (hs : P s) : P (runIntra c s) := by
  unfold Plan.runIntra
  exact loop_keeps (P := fun a : Option ℕ × State => P a.2) (fun _ ha => h.intraStep ha) hs

theorem tryCandidates (senders : List ℕ) {dst : ℕ} (hdst : dst < c.rankSize) {cands : List ℕ}
    (hc : ∀ r ∈ cands, r < c.rankSize) (n : ℕ) {a : InterAcc} (ha : P a.st) :
    P (tryCandidates c senders dst cands n a).st := by
  induction cands generalizing n a with
  | nil => exact ha
  | cons src rest ih =>
    have ih := fun n {a} => @ih (fun r hr => hc r (mem_cons_of_mem _ hr)) n a
    have hm := h.call a.st src dst (hc src mem_cons_self) hdst ha
    unfold Plan.tryCandidates
    split
    · exact ha
    split
    · exact ih n ha
    split
    · exact ih (n + 1) ha
    dsimp only
    split
    · exact ih (n + 1) ha
    split
    · exact hm
    split
    · exact hm
    · exact ih (n + 1) hm

section
variable (haff : ∀ d, ∀ r ∈ c.affinityOrder d, r < c.rankSize)
include haff

theorem serveReceivers (senders : List ℕ) (rs : List ℕ)
    (hrs : ∀ r ∈ rs, r < c.rankSize) {a : InterAcc} (ha : P a.st) : P (rs.foldl (serveReceiver c senders) a).st := by
  refine foldlRecOn (motive := fun a : InterAcc => P a.st) _ _ ha fun a ha dst hdst => ?_
  unfold serveReceiver
  split
  · exact ha
  · exact h.tryCandidates senders (hrs dst hdst) (haff dst) 0 ha

theorem interRound (hs : P s) : P (interRound c s).state := by
  rw [interRound_eq]
  split
  · exact hs
  have hend := h.serveReceivers haff (interSenders c.toParams s.toTables)
    (interReceivers c.toParams s.toTables) (fun r hr => mem_interReceivers hr) (a := ⟨s, [], 0⟩) hs
  dsimp only
  split
  · exact hend
  · split
    · exact h.count _ _ _ _ hend
    · exact h.count _ _ _ _ hend

theorem runInter (hs : P s) : P (runInter c s) :=
  loop_keeps (fun _ hs => h.interRound haff hs) hs

end

end CallInvariant

/-! ## The points of the phases -/

/-- `RunIntra` is at the head of a round of the server `key`. -/
def IntraHead (c : Ctx) (key : ℕ) (s : State) : Prop :=
  ∃ previous s₀, Heads (intraStep c) (none, State.initial c.toParams) (previous, s₀) ∧
    nextServerKey c.toParams previous = some key ∧ Heads (intraRound c key) s₀ s

def InterHead (c : Ctx) (s : State) : Prop :=
  (runIntra c (State.initial c.toParams)).fatal = .ok ∧
    Heads (interRound c) (runIntra c (State.initial c.toParams)) s

/-- The round of `RunInter` before its receiver `n`. -/
def interBefore (c : Ctx) (s : State) (n : ℕ) : InterAcc :=
  ((interReceivers c.toParams s.toTables).take n).foldl
    (serveReceiver c (interSenders c.toParams s.toTables)) ⟨s, [], 0⟩

/-- The receiver `dst` after `m` ranks of its affinity row. -/
def interWithin (c : Ctx) (s : State) (n dst m : ℕ) : InterAcc :=
  tryCandidates c (interSenders c.toParams s.toTables) dst ((c.affinityOrder dst).take m) 0
    (interBefore c s n)

/-- The phases are at a call of `ApplyExpertMove` from `home` to `dst`. -/
inductive CallAt (c : Ctx) : State → ℕ → ℕ → Prop
  | intra {key n home dst : ℕ} {s : State} (h : IntraHead c key s)
      (hpair : (serverPairs c.toParams s.toTables key)[n]? = some (home, dst))
      (hok : (((serverPairs c.toParams s.toTables key).take n).foldl (movePair c) (s, 0)).1.fatal = .ok) :
      CallAt c (((serverPairs c.toParams s.toTables key).take n).foldl (movePair c) (s, 0)).1 home dst
  | inter {n m home dst : ℕ} {s : State} (h : InterHead c s) (hbusy : ¬ interIdle c.toParams s.toTables)
      (hdst : (interReceivers c.toParams s.toTables)[n]? = some dst)
      (hrow : (c.affinityOrder dst)[m]? = some home)
      (hsender : home ∈ interSenders c.toParams s.toTables)
      (htried : (((c.affinityOrder dst).take m).filter
        (interSenders c.toParams s.toTables).contains).length < kPlanCrossCandidateCount)
      (hmoved : (interWithin c s n dst m).actualRound = (interBefore c s n).actualRound)
      (hfree : home ∉ (interWithin c s n dst m).occupied)
      (hok : (interWithin c s n dst m).st.fatal = .ok) :
      CallAt c (interWithin c s n dst m).st home dst

/-- The states between the calls: after any sequence of calls, each asking for what brings the heavier
rank down or the lighter one up to capacity, with the rounds counted at any time. -/
inductive Called (c : Ctx) : State → Prop
  | initial : Called c (State.initial c.toParams)
  | call {s : State} {home dst : ℕ} (h : Called c s) (hhome : home < c.rankSize)
      (hdst : dst < c.rankSize) :
      Called c (applyExpertMove c s home dst (requestedUnits c.cap s.rankLoad home dst)).1
  | count {s : State} (h : Called c s) (intra inter : ℕ) (pair : Bool) :
      Called c { s with intraRounds := intra, interRounds := inter, pairBlock := pair }

/-- The states a call passes through: between two experts, and between two sources of one expert. -/
inductive CallPoint (c : Ctx) (s : State) (home dst request : ℕ) : State → Prop
  | turn (i : ℕ) : CallPoint c s home dst request
      (((expertOrder c.toParams s.toTables home).take i).foldl (moveExpert c home dst)
        ⟨s, request, false, true⟩).st
  | source {i expert : ℕ} {a : MoveAcc} (j : ℕ)
      (hexpert : (expertOrder c.toParams s.toTables home)[i]? = some expert)
      (ha : a = ((expertOrder c.toParams s.toTables home).take i).foldl (moveExpert c home dst)
        ⟨s, request, false, true⟩) (hrun : TurnRuns c home dst expert a) :
      CallPoint c s home dst request
        (((c.affinityOrder dst).take j).foldl (takeFromSource c dst expert)
          (startTake a.st home expert a.demand)).st
  | returned : CallPoint c s home dst request (applyExpertMove c s home dst request).1

/-- The points of `RunIntra` and `RunInter`. -/
inductive MovePoint (c : Ctx) : State → Prop
  | intraHead {key : ℕ} {s : State} (h : IntraHead c key s) : MovePoint c s
  | interHead {s : State} (h : InterHead c s) : MovePoint c s
  | inCall {home dst : ℕ} {s s' : State} (h : CallAt c s home dst) (hne : home ≠ dst)
      (hreq : 0 < requestedUnits c.cap s.rankLoad home dst)
      (hp : CallPoint c s home dst (requestedUnits c.cap s.rankLoad home dst) s') : MovePoint c s'
  | afterIntra : MovePoint c (runIntra c (State.initial c.toParams))
  | afterInter (h : (runIntra c (State.initial c.toParams)).fatal = .ok) :
      MovePoint c (runInter c (runIntra c (State.initial c.toParams)))

section Points
variable {c : Ctx} (haff : ∀ d, ∀ r ∈ c.affinityOrder d, r < c.rankSize)
include haff

/-- At a head and at a call every call invariant holds, and the call is between ranks. -/
theorem CallInvariant.heads {P : State → Prop} (h : CallInvariant c P) (h0 : P (State.initial c.toParams)) :
    (∀ key s, IntraHead c key s → P s) ∧ (∀ s, InterHead c s → P s) := by
  constructor
  · rintro key s ⟨previous, s₀, hserver, _, hround⟩
    have hs₀ : P s₀ := Heads.keeps (P := fun a : Option ℕ × State => P a.2)
      (fun _ ha => h.intraStep ha) h0 hserver
    exact Heads.keeps (fun _ hs => h.intraRound key hs) hs₀ hround
  · rintro s ⟨_, hround⟩
    exact Heads.keeps (fun _ hs => h.interRound haff hs) (h.runIntra h0) hround

theorem CallInvariant.callAt {P : State → Prop} (h : CallInvariant c P) (h0 : P (State.initial c.toParams))
    {dst : ℕ} (hcall : CallAt c s home dst) : P s ∧ home < c.rankSize ∧ dst < c.rankSize := by
  obtain ⟨hintra, hinter⟩ := h.heads haff h0
  cases hcall with
  | @intra key n _ _ s hhead hpair hok =>
    have hmem := mem_serverPairs (p := c.toParams) (t := s.toTables) key
    have hin := hmem _ (mem_of_getElem? hpair)
    refine ⟨h.movePairs (fun pr hpr => ?_) (a := (s, 0)) (hintra key s hhead), hin.1, hin.2.1⟩
    have := hmem pr (mem_of_mem_take hpr)
    exact ⟨this.1, this.2.1⟩
  | @inter n m _ _ s hhead hbusy hdst hrow hsender htried hmoved hfree hok =>
    have hdst := mem_interReceivers (mem_of_getElem? hdst)
    have hhome := haff dst home (mem_of_getElem? hrow)
    refine ⟨h.tryCandidates _ hdst (fun r hr => haff dst r (mem_of_mem_take hr)) 0 ?_, hhome, hdst⟩
    exact h.serveReceivers haff _ _ (fun r hr => mem_interReceivers (mem_of_mem_take hr))
      (a := ⟨s, [], 0⟩) (hinter s hhead)

omit haff in
theorem CallAt.fatal {dst : ℕ} (h : CallAt c s home dst) : s.fatal = .ok := by
  cases h with
  | intra _ _ hok => exact hok
  | inter _ _ _ _ _ _ _ _ hok => exact hok

omit haff in
theorem called_invariant : CallInvariant c (Called c) where
  call _ _ _ hhome hdst h := h.call hhome hdst
  count _ intra inter pair h := h.count intra inter pair

theorem made_invariant : CallInvariant c (fun s => ∃ log, Made c s log) where
  call s home dst hhome hdst h := by
    obtain ⟨log, h⟩ := h
    obtain ⟨new, hp⟩ := applyExpertMove_prims haff s hhome hdst (le_refl (requestedUnits c.cap s.rankLoad home dst))
    exact ⟨_, h.steps hp⟩
  count s intra inter pair h := by
    obtain ⟨log, h⟩ := h
    exact ⟨log, h.count intra inter pair⟩

theorem Called.made (h : Called c s) : ∃ log, Made c s log := by
  induction h with
  | initial => exact ⟨[], .initial⟩
  | call _ hhome hdst ih => exact (made_invariant haff).call _ _ _ hhome hdst ih
  | count _ intra inter pair ih => exact (made_invariant haff).count _ intra inter pair ih

theorem CallPoint.prims {dst : ℕ} (hhome : home < c.rankSize) (hdst : dst < c.rankSize) (hne : home ≠ dst)
    (hok : s.fatal = .ok) (hclip : request ≤ requestedUnits c.cap s.rankLoad home dst)
    (h : CallPoint c s home dst request s') : ∃ new, Prims c s new s' := by
  have howned : ∀ i, ∀ e ∈ (expertOrder c.toParams s.toTables home).take i,
      e < c.expertNum ∧ c.homeRank e = home := fun i e he =>
    mem_expertOrder hhome (mem_of_mem_take he)
  have hturn := fun i => moveExperts_prims haff hhome hdst hne (howned i)
    (a := ⟨s, request, false, true⟩) ⟨hclip, fun _ => hok⟩
  cases h with
  | turn i => exact (hturn i).1
  | @source i expert a j hexpert ha hrun =>
    obtain ⟨⟨new, h₁⟩, hfatal⟩ := hturn i
    rw [← ha] at h₁ hfatal
    obtain ⟨he, _⟩ := mem_expertOrder hhome (mem_of_getElem? hexpert)
    have hrow : ∀ r ∈ (c.affinityOrder dst).take j, r < c.rankSize := fun r hr =>
      haff dst r (mem_of_mem_take hr)
    obtain ⟨⟨new', h₂⟩, -⟩ := takeFromSources_prims hrow hdst he
      (a := startTake a.st home expert a.demand) fun _ => hfatal.fatal hrun.1
    exact ⟨new ++ new', h₁.trans h₂⟩
  | returned => exact applyExpertMove_prims haff s hhome hdst hclip

theorem MovePoint.made (h : MovePoint c s) : ∃ log, Made c s log := by
  have hinv := made_invariant haff
  have h0 : ∃ log, Made c (State.initial c.toParams) log := ⟨[], .initial⟩
  cases h with
  | intraHead h => exact (hinv.heads haff h0).1 _ _ h
  | interHead h => exact (hinv.heads haff h0).2 _ h
  | inCall hcall hne hreq hp =>
    obtain ⟨⟨log, hs⟩, hhome, hdst⟩ := hinv.callAt haff h0 hcall
    obtain ⟨new, hp⟩ := hp.prims haff hhome hdst hne hcall.fatal le_rfl
    exact ⟨_, hs.steps hp⟩
  | afterIntra => exact hinv.runIntra h0
  | afterInter _ => exact hinv.runInter haff (hinv.runIntra h0)

end Points

end TileXR.Plan
