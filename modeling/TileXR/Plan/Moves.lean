import TileXR.Lib.Loop
import TileXR.Lib.Sort
import TileXR.Plan.Types

/-!
# Planner v2: the move phases of `ep_plan_algorithm_impl.h`

Every rank runs this code on the shared `tokensPerExpert` matrix and keeps, of all segments, only
those it is itself the source of. `RunIntra` and `RunInter` move expert tokens from overloaded home
ranks to underloaded ranks, `ApplyExpertMove` doing one move; `AppendRemainders` leaves the rest on
the home ranks. The `while (true)` loops run under `Lib.loop` with the total deficit as measure.
-/

namespace TileXR.Plan
open Lib

/-- A rank's call: the shared parameters, its routes, and its workspace. -/
structure Ctx extends Params where
  rank : ℕ
  topkExperts : ℕ → ℕ
  tokenSegmentCapacity : ℕ
  /-- `out.remoteExperts != nullptr` -/
  metadata : Bool
  affinityOrder : ℕ → List ℕ

/-- `State`. Row `dst` of `remoteExpertSet` holds its first `scratch[dst]` entries. -/
structure State extends Tables where
  remoteExpertSet : ℕ → List ℕ
  tokenSegments : List TokenSegmentMove
  globalSegments : ℕ
  expertMoves : ℕ
  intraRounds : ℕ
  interRounds : ℕ
  slotBlock : Bool
  supplyBlock : Bool
  pairBlock : Bool
  fatal : PlanStatus

/-- The order of `SortRanks`: by load, then global id, then rank. -/
def betterRank (rankLoad globalRankIds : ℕ → ℕ) (ascending : Bool) (value rhs : ℕ) : Bool :=
  if rankLoad value ≠ rankLoad rhs then
    if ascending then rankLoad value < rankLoad rhs else rankLoad value > rankLoad rhs
  else if globalRankIds value ≠ globalRankIds rhs then globalRankIds value < globalRankIds rhs
  else value < rhs

/-- `SortRanks`; `none` is its `false`. -/
def sortRanks (ranks : List ℕ) (rankLoad globalRankIds : ℕ → ℕ) (rankSize : ℕ)
    (ascending : Bool) : Option (List ℕ) :=
  if ranks.length > rankSize then none
  else if ranks.any (rankSize ≤ ·) then none
  else some (insertSort (betterRank rankLoad globalRankIds ascending) ranks)

/-- `AppendSegment`: counts the segment, records it if this rank is its source. -/
def appendSegment (c : Ctx) (s : State) (m : TokenSegmentMove) : State × Bool :=
  let s := { s with globalSegments := s.globalSegments + 1 }
  if m.srcRank ≠ c.rank then (s, true)
  else if s.tokenSegments.length ≥ c.tokenSegmentCapacity then
    ({ s with fatal := .errorMoveRecordOverflow }, false)
  else ({ s with tokenSegments := s.tokenSegments ++ [m] }, true)

/-- `BetterAffinity`: by the distance `id xor dstId`, then id, then rank. -/
def betterAffinity (globalRankIds : ℕ → ℕ) (dst lhs rhs : ℕ) : Bool :=
  let did := globalRankIds dst
  let lid := globalRankIds lhs
  let rid := globalRankIds rhs
  let ld := lid ^^^ did
  let rd := rid ^^^ did
  if ld ≠ rd then ld < rd
  else if lid ≠ rid then lid < rid
  else lhs < rhs

/-- `BuildAffinity`: row `dst`. -/
def buildAffinity (p : Params) (dst : ℕ) : List ℕ :=
  insertSort (betterAffinity p.globalRankIds dst) (List.range p.rankSize)

/-- `FindRemote(s, dst, expert) >= 0`. -/
def findRemote (s : State) (dst expert : ℕ) : Bool := (s.remoteExpertSet dst).contains expert

/-- The order in which a home rank's experts are offered: larger allocation first, then smaller id. -/
def betterExpert (alloc : ℕ → ℕ) (value prior : ℕ) : Bool :=
  !(alloc value < alloc prior || (alloc value == alloc prior && value > prior))

/-- The experts of `home` that still have tokens there, in offering order. -/
def expertOrder (p : Params) (t : Tables) (home : ℕ) : List ℕ :=
  insertSort (betterExpert (t.alloc home))
    ((List.range' (home * p.expertsPerRank) p.expertsPerRank).filter (0 < t.alloc home ·))

/-- The loop over the affinity row: what is still asked for, what was taken. -/
structure TakeAcc where
  st : State
  expertDemand : ℕ
  actual : ℕ
  ok : Bool

/-- What a source can give: its remainder, what is asked for, and the room towards `dst`. -/
def takeAmount (p : Params) (t : Tables) (dst expert src demand : ℕ) : ℕ :=
  let pairRemain := if p.routeLimit ≠ 0 then p.routeLimit - t.routedPairTokens src dst else demand
  min (min (t.remainingTpe src expert) demand) pairRemain

def takeFromSource (c : Ctx) (dst expert : ℕ) (a : TakeAcc) (src : ℕ) : TakeAcc :=
  if !a.ok || a.expertDemand = 0 then a
  else
    let s := a.st
    let take := takeAmount c.toParams s.toTables dst expert src a.expertDemand
    if take = 0 then a
    else
      match appendSegment c s (s.nextSegment expert src dst take) with
      | (s, false) => { a with st := s, ok := false }
      | (s, true) =>
        { st := { s with toTables := (s.give expert src dst take).route c.toParams src dst take }
          expertDemand := a.expertDemand - take
          actual := a.actual + take
          ok := true }

/-- Some source still has tokens of `expert` but no room left towards `dst`. -/
def routeBlocked (p : Params) (t : Tables) (dst expert : ℕ) : Bool :=
  (List.range p.rankSize).any fun src =>
    p.routeLimit ≠ 0 && 0 < t.remainingTpe src expert && p.routeLimit ≤ t.routedPairTokens src dst

/-- Tokens of `expert` that no source has given away yet. -/
def supply (p : Params) (t : Tables) (expert : ℕ) : ℕ :=
  ∑ src ∈ Finset.range p.rankSize, t.remainingTpe src expert

structure MoveAcc where
  st : State
  demand : ℕ
  found : Bool
  ok : Bool

/-- The part of an expert's turn after its tokens were taken: book them, note what blocked. -/
def bookMove (c : Ctx) (home dst expert : ℕ) (alreadyRemote : Bool) (t : TakeAcc) : State :=
  let s := t.st
  let s :=
    if 0 < t.actual then
      { s with
        toTables := s.book home dst expert t.actual
        remoteExpertSet :=
          if alreadyRemote then s.remoteExpertSet
          else Function.update s.remoteExpertSet dst (s.remoteExpertSet dst ++ [expert])
        expertMoves := s.expertMoves + 1 }
    else s
  if 0 < t.expertDemand then
    if routeBlocked c.toParams s.toTables dst expert then { s with pairBlock := true }
    else if supply c.toParams s.toTables expert = 0 then { s with supplyBlock := true }
    else s
  else s

def moveExpert (c : Ctx) (home dst : ℕ) (a : MoveAcc) (expert : ℕ) : MoveAcc :=
  if !a.ok || a.demand = 0 then a
  else
    let s := a.st
    let availableAlloc := s.alloc home expert
    if availableAlloc = 0 then a
    else
      let alreadyRemote := findRemote s dst expert
      if !alreadyRemote && c.prefetchSlots ≤ (s.remoteExpertSet dst).length then
        { a with st := { s with slotBlock := true } }
      else
        let expertRequest := min availableAlloc a.demand
        let t := (c.affinityOrder dst).foldl (takeFromSource c dst expert) ⟨s, expertRequest, 0, true⟩
        if !t.ok then { a with st := t.st, found := true, ok := false }
        else
          { st := bookMove c home dst expert alreadyRemote t
            demand := a.demand - t.actual
            found := true
            ok := true }

/-- `ApplyExpertMove`: the new state and the number of routes moved. -/
def applyExpertMove (c : Ctx) (s : State) (home dst requested : ℕ) : State × ℕ :=
  if requested = 0 ∨ home = dst ∨ s.fatal ≠ .ok then (s, 0)
  else
    let a := (expertOrder c.toParams s.toTables home).foldl (moveExpert c home dst)
      ⟨s, requested, false, true⟩
    if !a.ok then (a.st, 0)
    else
      (if 0 < a.demand && !a.found then { a.st with pairBlock := true } else a.st,
        requested - a.demand)

/-- `while (middle > 0 && load[middle-1] + load[middle] <= cap) --middle;` -/
def splitPoint (cap : ℕ) (load : ℕ → ℕ) : ℕ → ℕ
  | 0 => 0
  | m + 1 => if load m + load (m + 1) ≤ cap then splitPoint cap load m else m + 1

/-- The sender/receiver pairs of one round inside a server, from the sorted unbalanced ranks;
`none` where the round breaks off before pairing. -/
def pairRanks (cap : ℕ) (rankLoad : ℕ → ℕ) (active : List ℕ) : Option (List (ℕ × ℕ)) :=
  let loadAt i := rankLoad (active.getD i 0)
  let count := active.length
  if count < 2 || loadAt 0 + loadAt 1 < cap || loadAt (count - 1) > cap then none
  else
    let middle := splitPoint cap loadAt (count / 2)
    if middle = 0 then none
    else
      let senders := (active.take middle).reverse.filter (cap < rankLoad ·)
      let receivers := (active.drop middle).filter (rankLoad · < cap)
      some (senders.zip receivers)

/-- `MinI32(load[src] - cap, cap - load[dst])`, when positive. -/
def requestedUnits (cap : ℕ) (rankLoad : ℕ → ℕ) (src dst : ℕ) : ℕ :=
  min (rankLoad src - cap) (cap - rankLoad dst)

/-- One pair of a round: its state and the tokens moved in the round so far. -/
def movePair (c : Ctx) (a : State × ℕ) (pair : ℕ × ℕ) : State × ℕ :=
  if a.1.fatal ≠ .ok then a
  else
    let r := applyExpertMove c a.1 pair.1 pair.2 (requestedUnits c.cap a.1.rankLoad pair.1 pair.2)
    (r.1, a.2 + r.2)

def activeInServer (p : Params) (t : Tables) (key : ℕ) : List ℕ :=
  (List.range p.rankSize).filter fun r => p.serverKey r = key && t.rankLoad r ≠ p.cap

/-- One round of `RunIntra` in the server `key`. -/
def intraRound (c : Ctx) (key : ℕ) (s : State) : Step State :=
  match sortRanks (activeInServer c.toParams s.toTables key) s.rankLoad c.globalRankIds c.rankSize
      false with
  | none => .done { s with fatal := .errorInternalInvariant }
  | some active =>
    match pairRanks c.cap s.rankLoad active with
    | none => .done s
    | some pairs =>
      let r := pairs.foldl (movePair c) (s, 0)
      if r.1.fatal ≠ .ok then .done r.1
      else if r.2 = 0 then .done { r.1 with pairBlock := true }
      else .next { r.1 with intraRounds := r.1.intraRounds + 1 }

def intraServer (c : Ctx) (key : ℕ) (s : State) : State :=
  loop (fun s => s.toTables.deficit c.toParams) (intraRound c key) s

/-- The next server: the smallest key above the previous one (`none`: before the first). -/
def nextServerKey (p : Params) (previous : Option ℕ) : Option ℕ :=
  (((List.range p.rankSize).map p.serverKey).filter fun key => previous.all (· < key)).min?

/-- One server of `RunIntra`, with the previous key. -/
def intraStep (c : Ctx) (a : Option ℕ × State) : Step (Option ℕ × State) :=
  match nextServerKey c.toParams a.1 with
  | none => .done a
  | some key =>
    let s := intraServer c key a.2
    if s.fatal ≠ .ok then .done (some key, s) else .next (some key, s)

/-- The servers that `RunIntra` has not visited yet, counted by their ranks. -/
def serversLeft (p : Params) (previous : Option ℕ) : ℕ :=
  (((List.range p.rankSize).map p.serverKey).filter fun key => previous.all (· < key)).length

def runIntra (c : Ctx) (s : State) : State :=
  (loop (fun a => serversLeft c.toParams a.1) (intraStep c) (none, s)).2

/-- A round of `RunInter`: the state, the senders already used, the tokens moved. -/
structure InterAcc where
  st : State
  occupied : List ℕ
  actualRound : ℕ

/-- The candidates of a receiver along its affinity row; `n` have been tried. -/
def tryCandidates (c : Ctx) (senders : List ℕ) (dst : ℕ) : List ℕ → ℕ → InterAcc → InterAcc
  | [], _, a => a
  | src :: rest, n, a =>
    if n ≥ kPlanCrossCandidateCount then a
    else if !senders.contains src then tryCandidates c senders dst rest n a
    else if a.occupied.contains src then tryCandidates c senders dst rest (n + 1) a
    else
      let requested := requestedUnits c.cap a.st.rankLoad src dst
      if requested = 0 then tryCandidates c senders dst rest (n + 1) a
      else
        let r := applyExpertMove c a.st src dst requested
        if r.1.fatal ≠ .ok then { a with st := r.1 }
        else if 0 < r.2 then
          { st := r.1, occupied := src :: a.occupied, actualRound := a.actualRound + r.2 }
        else tryCandidates c senders dst rest (n + 1) { a with st := r.1 }

def serveReceiver (c : Ctx) (senders : List ℕ) (a : InterAcc) (dst : ℕ) : InterAcc :=
  if a.st.fatal ≠ .ok then a
  else tryCandidates c senders dst (c.affinityOrder dst) 0 a

def activeRanks (p : Params) (t : Tables) : List ℕ :=
  (List.range p.rankSize).filter (t.rankLoad · ≠ p.cap)

/-- One round of `RunInter`. -/
def interRound (c : Ctx) (s : State) : Step State :=
  let active := activeRanks c.toParams s.toTables
  let underloaded := (active.filter (s.rankLoad · < c.cap)).length
  if active.length < 2 || underloaded = 0 || underloaded = active.length then .done s
  else
    match sortRanks active s.rankLoad c.globalRankIds c.rankSize false with
    | none => .done { s with fatal := .errorInternalInvariant }
    | some active =>
      let receiverCount := min underloaded (active.length / 2)
      if receiverCount = 0 then .done s
      else
        let senderCount := active.length - receiverCount
        let senders := active.take senderCount
        match sortRanks (active.drop senderCount) s.rankLoad c.globalRankIds c.rankSize true with
        | none => .done { s with fatal := .errorInternalInvariant }
        | some receivers =>
          let r := receivers.foldl (serveReceiver c senders) ⟨s, [], 0⟩
          if r.st.fatal ≠ .ok then .done r.st
          else if r.actualRound = 0 then .done { r.st with pairBlock := true }
          else .next { r.st with interRounds := r.st.interRounds + 1 }

def runInter (c : Ctx) (s : State) : State :=
  loop (fun s => s.toTables.deficit c.toParams) (interRound c) s

/-- One expert and source of `AppendRemainders`. -/
def appendRemainder (c : Ctx) (s : State) (expert src : ℕ) : State :=
  if s.fatal ≠ .ok then s
  else
    let dst := c.homeRank expert
    let count := s.remainingTpe src expert
    if count = 0 then s
    else
      match appendSegment c s (s.nextSegment expert src dst count) with
      | (s, false) => s
      | (s, true) => { s with toTables := s.give expert src dst count }

def appendRemainders (c : Ctx) (s : State) : State :=
  (List.range c.expertNum).foldl
    (fun s expert => (List.range c.rankSize).foldl (appendRemainder c · expert) s) s

/-- The state `RunPlanAlgorithm` sets up. -/
def State.initial (p : Params) : State where
  toTables := Tables.initial p
  remoteExpertSet _ := []
  tokenSegments := []
  globalSegments := 0
  expertMoves := 0
  intraRounds := 0
  interRounds := 0
  slotBlock := false
  supplyBlock := false
  pairBlock := false
  fatal := .ok

/-- The three move phases, each skipped after a fatal error. -/
def runMoves (c : Ctx) : State :=
  let s := runIntra c (State.initial c.toParams)
  let s := if s.fatal = .ok then runInter c s else s
  if s.fatal = .ok then appendRemainders c s else s

end TileXR.Plan
