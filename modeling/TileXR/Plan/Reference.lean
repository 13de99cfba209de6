import TileXR.Plan.Run

/-!
# Planner v2: the reference planner of `ep_plan_reference.cpp`

The reference planner sees all ranks at once: it keeps every segment, the remote experts of a rank as
a set, and writes the arrays of all ranks. `none` stands for undefined behaviour: the one place where
an accepted input can reach it is the `int32` product `dst * prefetchSlots` of `BuildLayouts`.
-/

namespace TileXR.Plan
open Lib

structure ReferenceInput where
  rankSize : ℤ
  s : ℤ
  topK : ℤ
  expertNum : ℤ
  config : PlanConfig
  globalRankIds : List ℤ
  topkExperts : List ℤ
  tokensPerExpert : List ℤ

structure ReferenceRankPair where
  srcRank : ℕ
  dstRank : ℕ
  requestedUnits : ℕ

structure ReferenceExpertMove where
  expertId : ℕ
  srcHomeRank : ℕ
  dstRank : ℕ
  requestedUnits : ℕ
  actualAssigned : ℕ
  round : ℕ

structure RankedLoad where
  rank : ℕ
  load : ℕ
  globalRankId : ℕ

namespace Reference

/-- `PlannerState`, without its constants. -/
structure RefState extends Tables where
  remoteExpertSets : ℕ → Finset ℕ
  segments : List TokenSegmentMove
  expertMoves : List ReferenceExpertMove
  roundCounter : ℕ
  intraRounds : ℕ
  interRounds : ℕ
  sawSlotBlock : Bool
  sawSupplyBlock : Bool
  sawRouteOrPairBlock : Bool

/-! ## ValidateInput -/

/-- The configuration and shape checks of `ValidateInput`. -/
def badInput (x : ReferenceInput) : Bool :=
  let cap := x.s * x.topK
  x.rankSize ≤ 0 || x.rankSize > 512 || x.s ≤ 0 || x.topK ≤ 0 || x.topK > 32 || x.expertNum ≤ 0 ||
  x.expertNum % x.rankSize ≠ 0 || cap ≤ 0 || cap > int32Max ||
  x.config.bad cap x.rankSize ||
  (x.globalRankIds.length : ℤ) ≠ x.rankSize ||
  (x.topkExperts.length : ℤ) ≠ x.rankSize * cap ||
  (x.tokensPerExpert.length : ℤ) ≠ x.rankSize * x.expertNum

/-- The routes and token counts of one rank. -/
def checkRank (expertNum cap : ℕ) (topk tpe : ℕ → ℤ) : Option PlanStatus :=
  if (List.range cap).any fun route => topk route < 0 || topk route ≥ expertNum then
    some .errorConfigMismatch
  else checkRow expertNum cap tpe (histogram topk cap) true

def validateInput (x : ReferenceInput) : PlanStatus :=
  if badInput x then .errorConfigMismatch
  else
    let rankSize := x.rankSize.toNat
    let expertNum := x.expertNum.toNat
    let cap := (x.s * x.topK).toNat
    if badRankIds rankSize (x.globalRankIds.getD · 0) then .errorConfigMismatch
    else
      ((List.range rankSize).findSome? fun rank =>
        checkRank expertNum cap (fun route => x.topkExperts.getD (rank * cap + route) 0)
          (fun e => x.tokensPerExpert.getD (rank * expertNum + e) 0)).getD .ok

def paramsOf (x : ReferenceInput) : Params where
  rankSize := x.rankSize.toNat
  s := x.s.toNat
  topK := x.topK.toNat
  expertNum := x.expertNum.toNat
  cap := x.config.rankTokenCapacity.toNat
  prefetchSlots := x.config.prefetchSlots.toNat
  nvS := x.config.nvS.toNat
  tokenPadding := x.config.tokenPadding.toNat
  routeLimit := x.config.tokenRouteLimitPerPair.toNat
  tokensPerExpert src e := (x.tokensPerExpert.getD (src * x.expertNum.toNat + e) 0).toNat
  globalRankIds r := (x.globalRankIds.getD r 0).toNat

def routesOf (x : ReferenceInput) (rank route : ℕ) : ℕ :=
  (x.topkExperts.getD (rank * (x.s * x.topK).toNat + route) 0).toNat

/-! ## The move phases -/

/-- `BuildAffinityOrders`: row `dst`. -/
def buildAffinityOrders (p : Params) (dst : ℕ) : List ℕ :=
  stdSort (betterAffinity p.globalRankIds dst) (List.range p.rankSize)

/-- The vectors `AssignTokenSources` works on and its result so far. -/
structure Assignment where
  remaining : ℕ → ℕ
  routed : ℕ → ℕ
  cursors : ℕ → ℕ
  dstCursor : ℕ
  segments : List TokenSegmentMove
  actualAssigned : ℕ
  demand : ℕ

/-- A source gives tokens to `dst`. -/
def Assignment.take (p : Params) (expert src dst take : ℕ) (a : Assignment) : Assignment where
  remaining := sub1 a.remaining src take
  routed := if p.routeLimit ≠ 0 then add1 a.routed src take else a.routed
  cursors := add1 a.cursors src take
  dstCursor := a.dstCursor + take
  segments := a.segments ++ [⟨expert, src, dst, a.cursors src, a.dstCursor, take⟩]
  actualAssigned := a.actualAssigned + take
  demand := a.demand - take

/-- One source of `AssignTokenSources`; `none` is its `false`. -/
def assignFromSource (p : Params) (expert dst : ℕ) (a : Option Assignment) (src : ℕ) :
    Option Assignment :=
  match a with
  | none => none
  | some a =>
    if a.demand = 0 then some a
    else if src ≥ p.rankSize then none
    else
      let pairRemain := if p.routeLimit ≠ 0 then p.routeLimit - a.routed src else a.demand
      let take := min (min (a.remaining src) a.demand) pairRemain
      if take = 0 then some a else some (a.take p expert src dst take)

def assignTokenSources (p : Params) (expert dst requested : ℕ) (affinityOrder : List ℕ)
    (remaining routed cursors : ℕ → ℕ) (dstCursor : ℕ) : Option Assignment :=
  affinityOrder.foldl (assignFromSource p expert dst)
    (some ⟨remaining, routed, cursors, dstCursor, [], 0, requested⟩)

/-- `assignment.routeLimited` -/
def Assignment.routeLimited (p : Params) (a : Assignment) : Bool :=
  (List.range p.rankSize).any fun src =>
    p.routeLimit ≠ 0 && 0 < a.remaining src && p.routeLimit ≤ a.routed src

/-- `assignment.supplyExhausted` -/
def Assignment.supplyExhausted (p : Params) (a : Assignment) : Bool :=
  ∑ src ∈ Finset.range p.rankSize, a.remaining src = 0

def writeBack (p : Params) (t : Tables) (expert dst : ℕ) (a : Assignment) : Tables :=
  { t with
    remainingTpe := fun src e => if src < p.rankSize ∧ e = expert then a.remaining src
      else t.remainingTpe src e
    routedPairTokens := fun src d => if src < p.rankSize ∧ d = dst then a.routed src
      else t.routedPairTokens src d
    srcExpertCursor := fun src e => if src < p.rankSize ∧ e = expert then a.cursors src
      else t.srcExpertCursor src e
    dstExpertCursor := fun d e => if d = dst ∧ e = expert then a.dstCursor
      else t.dstExpertCursor d e }

def bookMove (p : Params) (home dst expert expertRequest : ℕ) (alreadyRemote : Bool) (t : RefState)
    (a : Assignment) : RefState :=
  let t := { t with toTables := writeBack p t.toTables expert dst a }
  let t :=
    if 0 < a.actualAssigned then
      { t with
        toTables := t.book home dst expert a.actualAssigned
        remoteExpertSets :=
          if alreadyRemote then t.remoteExpertSets
          else Function.update t.remoteExpertSets dst (insert expert (t.remoteExpertSets dst))
        segments := t.segments ++ a.segments
        expertMoves := t.expertMoves ++
          [⟨expert, home, dst, expertRequest, a.actualAssigned, t.roundCounter⟩] }
    else t
  if 0 < a.demand then
    if a.routeLimited p then { t with sawRouteOrPairBlock := true }
    else if a.supplyExhausted p then { t with sawSupplyBlock := true }
    else t
  else t

structure RefMoveAcc where
  st : RefState
  demand : ℕ
  found : Bool

/-- One expert of `ApplyExpertMove`. -/
def moveExpert (p : Params) (affinityOrder : ℕ → List ℕ) (home dst : ℕ) (a : RefMoveAcc)
    (expert : ℕ) : RefMoveAcc :=
  if a.demand = 0 then a
  else
    let t := a.st
    let availableAlloc := t.alloc home expert
    if availableAlloc = 0 then a
    else
      let alreadyRemote : Bool := expert ∈ t.remoteExpertSets dst
      if !alreadyRemote && p.prefetchSlots ≤ (t.remoteExpertSets dst).card then
        { a with st := { t with sawSlotBlock := true } }
      else
        let expertRequest := min availableAlloc a.demand
        match assignTokenSources p expert dst expertRequest (affinityOrder dst)
          (t.remainingTpe · expert) (t.routedPairTokens · dst) (t.srcExpertCursor · expert)
          (t.dstExpertCursor dst expert) with
        | none => { st := { t with sawRouteOrPairBlock := true }, demand := a.demand, found := true }
        | some asg =>
          { st := bookMove p home dst expert expertRequest alreadyRemote t asg
            demand := a.demand - asg.actualAssigned
            found := true }

/-- The order of the home rank's experts in `ApplyExpertMove`. -/
def expertBefore (alloc : ℕ → ℕ) (lhs rhs : ℕ) : Bool :=
  if alloc lhs ≠ alloc rhs then alloc lhs > alloc rhs else lhs < rhs

def applyExpertMove (p : Params) (affinityOrder : ℕ → List ℕ) (t : RefState)
    (home dst requested : ℕ) : RefState × ℕ :=
  if requested = 0 ∨ home = dst then (t, 0)
  else
    let experts := stdSort (expertBefore (t.alloc home))
      ((List.range' (home * p.expertsPerRank) p.expertsPerRank).filter (0 < t.alloc home ·))
    let a := experts.foldl (moveExpert p affinityOrder home dst) ⟨t, requested, false⟩
    (if 0 < a.demand && !a.found then { a.st with sawRouteOrPairBlock := true } else a.st,
      requested - a.demand)

def heavier (lhs rhs : RankedLoad) : Bool :=
  if lhs.load ≠ rhs.load then lhs.load > rhs.load
  else if lhs.globalRankId ≠ rhs.globalRankId then lhs.globalRankId < rhs.globalRankId
  else lhs.rank < rhs.rank

def lighter (lhs rhs : RankedLoad) : Bool :=
  if lhs.load ≠ rhs.load then lhs.load < rhs.load
  else if lhs.globalRankId ≠ rhs.globalRankId then lhs.globalRankId < rhs.globalRankId
  else lhs.rank < rhs.rank

/-- The pairs of one round, from the sorted unbalanced entries. -/
def pairLoads (cap : ℕ) (active : List RankedLoad) : List ReferenceRankPair :=
  let loadAt i := (active.getD i ⟨0, 0, 0⟩).load
  let count := active.length
  if count < 2 || loadAt 0 + loadAt 1 < cap || loadAt (count - 1) > cap then []
  else
    let middle := splitPoint cap loadAt (count / 2)
    if middle = 0 then []
    else
      let senders := (active.take middle).reverse.filter (cap < ·.load)
      let receivers := (active.drop middle).filter (·.load < cap)
      (senders.zip receivers).filterMap fun pr =>
        let requested := min (pr.1.load - cap) (cap - pr.2.load)
        if 0 < requested then some ⟨pr.1.rank, pr.2.rank, requested⟩ else none

/-- `BuildIntraServerPairs`; `none` is its `false`. The ranks of the pairs are positions. -/
def buildIntraServerPairs (rankLoad globalRankIds : List ℕ) (cap : ℕ) :
    Option (List ReferenceRankPair) :=
  if cap = 0 ∨ rankLoad.length ≠ globalRankIds.length then none
  else
    let items := (List.range rankLoad.length).map fun i =>
      (⟨i, rankLoad.getD i 0, globalRankIds.getD i 0⟩ : RankedLoad)
    some (pairLoads cap (stdSort heavier (items.filter (·.load ≠ cap))))

def membersOf (p : Params) (key : ℕ) : List ℕ := (List.range p.rankSize).filter (p.serverKey · = key)

/-- One pair of a round; the ranks of the pair are positions in `members`. -/
def movePair (p : Params) (affinityOrder : ℕ → List ℕ) (members : List ℕ) (a : RefState × ℕ)
    (pr : ReferenceRankPair) : RefState × ℕ :=
  let r := applyExpertMove p affinityOrder a.1 (members.getD pr.srcRank 0)
    (members.getD pr.dstRank 0) pr.requestedUnits
  (r.1, a.2 + r.2)

/-- One round of `RunIntraServerStage`. -/
def intraRound (p : Params) (affinityOrder : ℕ → List ℕ) (members : List ℕ) (t : RefState) :
    Step RefState :=
  match buildIntraServerPairs (members.map t.rankLoad) (members.map p.globalRankIds) p.cap with
  | none => .done t
  | some pairs =>
    if pairs.isEmpty then .done t
    else
      let r := pairs.foldl (movePair p affinityOrder members) (t, 0)
      let t := { r.1 with roundCounter := r.1.roundCounter + 1 }
      if r.2 = 0 then .done { t with sawRouteOrPairBlock := true }
      else .next { t with intraRounds := t.intraRounds + 1 }

/-- The server keys in the order of their first rank. -/
def serverKeys (p : Params) : List ℕ :=
  (List.range p.rankSize).foldl
    (fun keys r => if keys.contains (p.serverKey r) then keys else keys ++ [p.serverKey r]) []

def intraServer (p : Params) (affinityOrder : ℕ → List ℕ) (t : RefState) (key : ℕ) : RefState :=
  loop (fun t => t.toTables.deficit p) (intraRound p affinityOrder (membersOf p key)) t

def runIntraServerStage (p : Params) (affinityOrder : ℕ → List ℕ) (t : RefState) : RefState :=
  (stdSort (· < ·) (serverKeys p)).foldl (intraServer p affinityOrder) t

def buildStaticTopCandidates (senders affinityOrder : List ℕ) : List ℕ :=
  (affinityOrder.filter senders.contains).take kPlanCrossCandidateCount

/-- A round of `RunInterServerStage`. -/
structure RefInterAcc where
  st : RefState
  occupied : Finset ℕ
  actualRound : ℕ

def tryCandidates (p : Params) (affinityOrder : ℕ → List ℕ) (dst : ℕ) :
    List ℕ → RefInterAcc → RefInterAcc
  | [], a => a
  | src :: rest, a =>
    if src ∈ a.occupied then tryCandidates p affinityOrder dst rest a
    else
      let requested := requestedUnits p.cap a.st.rankLoad src dst
      if requested = 0 then tryCandidates p affinityOrder dst rest a
      else
        let r := applyExpertMove p affinityOrder a.st src dst requested
        if 0 < r.2 then
          { st := r.1, occupied := insert src a.occupied, actualRound := a.actualRound + r.2 }
        else tryCandidates p affinityOrder dst rest { a with st := r.1 }

def serveReceiver (p : Params) (affinityOrder : ℕ → List ℕ) (senders : List ℕ) (a : RefInterAcc)
    (dst : ℕ) : RefInterAcc :=
  tryCandidates p affinityOrder dst (buildStaticTopCandidates senders (affinityOrder dst)) a

/-- One round of `RunInterServerStage`. -/
def interRound (p : Params) (affinityOrder : ℕ → List ℕ) (t : RefState) : Step RefState :=
  let items := (List.range p.rankSize).map fun r =>
    (⟨r, t.rankLoad r, p.globalRankIds r⟩ : RankedLoad)
  let active := items.filter (·.load ≠ p.cap)
  let underloaded := (active.filter (·.load < p.cap)).length
  if active.length < 2 || underloaded = 0 || underloaded = active.length then .done t
  else
    let active := stdSort heavier active
    let receiverCount := min underloaded (active.length / 2)
    if receiverCount = 0 then .done t
    else
      let senderCount := active.length - receiverCount
      let senders := (active.take senderCount).map (·.rank)
      let receivers := (stdSort lighter (active.drop senderCount)).map (·.rank)
      let r := receivers.foldl (serveReceiver p affinityOrder senders) ⟨t, ∅, 0⟩
      let t := { r.st with roundCounter := r.st.roundCounter + 1 }
      if r.actualRound = 0 then .done { t with sawRouteOrPairBlock := true }
      else .next { t with interRounds := t.interRounds + 1 }

def runInterServerStage (p : Params) (affinityOrder : ℕ → List ℕ) (t : RefState) : RefState :=
  loop (fun t => t.toTables.deficit p) (interRound p affinityOrder) t

/-- One expert and source of `AppendRemainderSegments`. -/
def appendRemainder (p : Params) (t : RefState) (expert src : ℕ) : RefState :=
  let dst := p.homeRank expert
  let count := t.remainingTpe src expert
  if count = 0 then t
  else
    { t with
      segments := t.segments ++ [t.nextSegment expert src dst count]
      toTables := t.give expert src dst count }

def appendRemainderSegments (p : Params) (t : RefState) : RefState :=
  (List.range p.expertNum).foldl
    (fun t expert => (List.range p.rankSize).foldl (appendRemainder p · expert) t) t

def RefState.initial (p : Params) : RefState where
  toTables := Tables.initial p
  remoteExpertSets _ := ∅
  segments := []
  expertMoves := []
  roundCounter := 0
  intraRounds := 0
  interRounds := 0
  sawSlotBlock := false
  sawSupplyBlock := false
  sawRouteOrPairBlock := false

def runMoves (p : Params) (affinityOrder : ℕ → List ℕ) : RefState :=
  appendRemainderSegments p
    (runInterServerStage p affinityOrder (runIntraServerStage p affinityOrder (RefState.initial p)))

/-! ## BuildLayouts -/

/-- The vectors `BuildLayouts` writes, for all ranks. -/
structure RefLayout where
  rows : ℕ → List ℕ
  /-- destination, slot -/
  expertsToCopy : ℕ → ℕ → ℤ
  /-- expert, word of the target mask -/
  expertTargets : ℕ → ℕ → BitVec 64
  remoteStats0 : ℕ → ℕ
  remoteStats1 : ℕ → ℕ
  /-- rank, group -/
  cuSeqlens : ℕ → ℕ → ℕ
  expertPhysicalBase : ℕ → ℕ → ℕ

def RefLayout.initial : RefLayout where
  rows _ := []
  expertsToCopy _ _ := -1
  expertTargets _ _ := 0
  remoteStats0 _ := 0
  remoteStats1 _ := 0
  cuSeqlens _ _ := 0
  expertPhysicalBase _ _ := 0

def recordSlot (p : Params) (dst : ℕ) (o : RefLayout) (slot expert : ℕ) : RefLayout :=
  let home := p.homeRank expert
  let localExpert := expert - home * p.expertsPerRank
  { o with
    expertsToCopy := Function.update o.expertsToCopy dst
      (Function.update (o.expertsToCopy dst) slot expert)
    remoteStats1 := add1 o.remoteStats1 home 1
    expertTargets := markTarget dst o.expertTargets (home * p.expertsPerRank + localExpert) }

/-- One destination of the first loop; `none`: the index `dst * prefetchSlots` overflows. The flag
turns false at the early return. -/
def recordRows (p : Params) (t : Tables) (a : Option (RefLayout × Bool)) (dst : ℕ) :
    Option (RefLayout × Bool) :=
  match a with
  | none => none
  | some a =>
    if !a.2 then some a
    else
      let row := stdSort (expertBefore (t.alloc dst)) (foreignExperts p t dst)
      if row.length > p.prefetchSlots then
        some ({ a.1 with rows := Function.update a.1.rows dst row }, false)
      else if row ≠ [] ∧ dst * p.prefetchSlots > int32Max then none
      else
        let o :=
          { a.1 with
            rows := Function.update a.1.rows dst row
            remoteStats0 := Function.update a.1.remoteStats0 dst row.length }
        some (row.zipIdx.foldl (fun o er => recordSlot p dst o er.2 er.1) o, true)

/-- The group loop of one destination. -/
structure RefGroupAcc where
  out : RefLayout
  previousEnd : ℕ
  ok : Bool

def layoutGroup (p : Params) (t : Tables) (dst : ℕ) (row : List ℕ) (a : RefGroupAcc) (group : ℕ) :
    RefGroupAcc :=
  if !a.ok then a
  else
    let physical :=
      if group < p.expertNum then if row.contains group then none else some group
      else row[group - p.expertNum]?
    let out :=
      { a.out with
        expertPhysicalBase := setBase a.out.expertPhysicalBase dst physical a.previousEnd }
    match paddedCount p.tokenPadding (groupCount (t.alloc dst) physical) with
    | none => { a with out := out, ok := false }
    | some padded =>
      if a.previousEnd + padded > p.nvS then { a with out := out, ok := false }
      else
        { out :=
            { out with
              cuSeqlens := Function.update out.cuSeqlens dst
                (Function.update (out.cuSeqlens dst) group (a.previousEnd + padded)) }
          previousEnd := a.previousEnd + padded
          ok := true }

def layoutRank (p : Params) (t : Tables) (a : RefLayout × Bool) (dst : ℕ) : RefLayout × Bool :=
  if !a.2 then a
  else
    let g := (List.range (p.expertNum + p.prefetchSlots)).foldl
      (layoutGroup p t dst (a.1.rows dst)) ⟨a.1, 0, true⟩
    (g.out, g.ok)

def buildLayouts (p : Params) (t : Tables) : Option (RefLayout × PlanStatus) :=
  match (List.range p.rankSize).foldl (recordRows p t) (some (RefLayout.initial, true)) with
  | none => none
  | some a =>
    if !a.2 then some (a.1, .partialPrefetchSlotExhausted)
    else
      let g := (List.range p.rankSize).foldl (layoutRank p t) (a.1, true)
      some (g.1, if g.2 then .ok else .errorLayoutExceedsNvS)

/-! ## BuildDst -/

/-- The segments of a source and expert, by their first ordinal. -/
def segmentsBySourceExpert (segments : List TokenSegmentMove) (src expert : ℕ) :
    List TokenSegmentMove :=
  stdSort (fun lhs rhs => lhs.srcExpertBegin < rhs.srcExpertBegin)
    (segments.filter fun m => m.srcRank = src && m.expertId = expert)

/-- The loop over a token's routes: `dst`, the ordinals of the source, the ranks seen, no error. -/
structure RefDstAcc where
  dst : ℕ → ℕ → ℤ
  ordinal : ℕ → ℕ
  seenRanks : Finset ℕ
  ok : Bool

/-- One route of `BuildDst`. -/
def writeRoute (p : Params) (topkExperts : ℕ → ℕ → ℕ) (segments : List TokenSegmentMove)
    (base : ℕ → ℕ → ℕ) (src token : ℕ) (a : RefDstAcc) (k : ℕ) : RefDstAcc :=
  if !a.ok then a
  else
    let localRoute := token * p.topK + k
    let expert := topkExperts src localRoute
    let currentOrdinal := a.ordinal expert
    let ordinal := add1 a.ordinal expert 1
    let matched := (segmentsBySourceExpert segments src expert).find? fun m =>
      m.srcExpertBegin ≤ currentOrdinal && currentOrdinal < m.srcExpertBegin + m.tokenCount
    match matched with
    | none => { a with ordinal := ordinal, ok := false }
    | some m =>
      let localOffset :=
        base m.dstRank expert + m.dstExpertBegin + (currentOrdinal - m.srcExpertBegin)
      let raw := m.dstRank * p.nvS + localOffset
      if localOffset ≥ p.nvS || raw > int32Max then { a with ordinal := ordinal, ok := false }
      else
        { dst := Function.update a.dst src
            (Function.update (a.dst src) localRoute (encodeDst (m.dstRank ∉ a.seenRanks) raw))
          ordinal := ordinal
          seenRanks := insert m.dstRank a.seenRanks
          ok := true }

def buildDst (p : Params) (topkExperts : ℕ → ℕ → ℕ) (segments : List TokenSegmentMove)
    (base : ℕ → ℕ → ℕ) : (ℕ → ℕ → ℤ) × PlanStatus :=
  let a := (List.range p.rankSize).foldl
    (fun (a : RefDstAcc) src =>
      if !a.ok then a
      else (List.range p.s).foldl
        (fun a token => (List.range p.topK).foldl (writeRoute p topkExperts segments base src token)
          (if a.ok then { a with seenRanks := ∅ } else a))
        { a with ordinal := fun _ => 0 })
    ⟨fun _ _ => 0, fun _ => 0, ∅, true⟩
  (a.dst, if a.ok then .ok else .errorInternalInvariant)

/-! ## BuildReferencePlan -/

/-- `FillStatus`: the words of a rank. -/
def fillStatus (p : Params) (t : RefState) (l : RefLayout) (status : PlanStatus) (rank : ℕ) : List ℤ :=
  [status.code, t.intraRounds, t.interRounds, t.toTables.deficit p,
    ((List.range p.rankSize).foldl (fun m r => max m (l.remoteStats0 r)) 0 : ℕ),
    l.cuSeqlens rank (p.expertNum + p.prefetchSlots - 1),
    t.expertMoves.length, (t.segments.filter (·.srcRank = rank)).length]

/-- `ReferenceOutput`, with `none` for the vectors that stay empty. -/
structure ReferenceOutput where
  finalStatus : PlanStatus
  state : Option RefState
  layout : Option RefLayout
  dst : Option ((ℕ → ℕ → ℤ) × PlanStatus)
  statusByRank : ℕ → List ℤ

/-- `BuildReferencePlan` after the validation. -/
def planFrom (p : Params) (topkExperts : ℕ → ℕ → ℕ) : Option ReferenceOutput :=
  let t := runMoves p (buildAffinityOrders p)
  match buildLayouts p t.toTables with
  | none => none
  | some l =>
    let dst := if l.2 = .ok then some (buildDst p topkExperts t.segments l.1.expertPhysicalBase)
      else none
    let status :=
      if balanced p t.toTables then
        match dst with
        | none => l.2
        | some d => d.2
      else balanceStatus t.sawSlotBlock t.sawSupplyBlock
    some
      { finalStatus := status, state := some t, layout := some l.1, dst := dst,
        statusByRank := fillStatus p t l.1 status }

def buildReferencePlan (x : ReferenceInput) : Option ReferenceOutput :=
  let validation := validateInput x
  if validation ≠ .ok then
    some { finalStatus := validation, state := none, layout := none, dst := none,
           statusByRank := fun _ => [] }
  else planFrom (paramsOf x) (routesOf x)

end Reference

end TileXR.Plan
