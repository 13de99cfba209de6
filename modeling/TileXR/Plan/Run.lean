import TileXR.Plan.Moves

/-!
# Planner v2: validation, layout, `dst` and `RunPlanAlgorithm`

`Validate`, `BuildLayouts`, `BuildDst`, `FillStatus` and `RunPlanAlgorithm` of
`ep_plan_algorithm_impl.h`. Loops with an early `return` are folds over their index range with a flag
that turns the remaining iterations off; what was written before the return stays written.
-/

namespace TileXR.Plan
open Lib

/-! ## Validate -/

/-- The first block of checks of `Validate`: shapes and pointers. -/
def badShape (x : PlanAlgorithmInput) (ptr : PlanPointers) (ws : PlanAlgorithmWorkspace) : Bool :=
  x.rankSize ≤ 0 || x.rankSize > 128 || x.rank < 0 || x.rank ≥ x.rankSize ||
  x.s ≤ 0 || x.topK ≤ 0 || x.topK > 32 || x.expertNum ≤ 0 ||
  x.expertNum > int32Max || x.expertNum % x.rankSize ≠ 0 ||
  !ptr.topkExperts || !ptr.tokensPerExpert || !ptr.globalRankIds ||
  !ptr.dst || !ptr.cuSeqlens || !ptr.expertsToCopy || !ptr.remoteStats || !ptr.status ||
  (!ptr.remoteExperts) != (!ptr.expertTargets) ||
  !ptr.expertCount || !ptr.rankLoad || !ptr.remainingTpe || !ptr.alloc ||
  !ptr.srcExpertCursor || !ptr.dstExpertCursor || !ptr.expertPhysicalBase ||
  !ptr.localExpertOrdinal || !ptr.tokenSegments || !ptr.scratch || !ptr.affinityOrder ||
  ws.scratchCount < x.rankSize * 16 || x.s > int32Max / x.topK

/-- The checks of a configuration that `Validate` and the reference planner share. -/
def PlanConfig.bad (c : PlanConfig) (cap rankSize : ℤ) : Bool :=
  c.rankTokenCapacity ≠ cap || c.prefetchSlots ≤ 0 ||
  c.prefetchSlots > int32Max || c.nvS < cap || c.nvS > int32Max || c.tokenPadding ≤ 0 ||
  c.tokenRouteLimitPerPair < 0 || c.tokenRouteLimitPerPair > cap ||
  c.cardsPerServer ≠ kPlanCardsPerServer || c.cardsPerCabinet ≠ kPlanCardsPerCabinet ||
  c.crossCandidateCount ≠ kPlanCrossCandidateCount ||
  rankSize * c.nvS > int32Max

/-- The second block of checks of `Validate`: the configuration. -/
def badConfig (x : PlanAlgorithmInput) (ptr : PlanPointers) (ws : PlanAlgorithmWorkspace) : Bool :=
  x.config.bad (x.s * x.topK) x.rankSize || ws.tokenSegmentCapacity < 0 ||
  (x.config.prefetchSlots > 0 && !ptr.remoteExpertSet) ||
  (x.config.tokenRouteLimitPerPair ≠ 0 && !ptr.routedPairTokens)

def badRankIds (rankSize : ℕ) (ids : ℕ → ℤ) : Bool :=
  (List.range rankSize).any fun lhs => ids lhs < 0 || (List.range lhs).any fun rhs => ids lhs = ids rhs

def histogram (topkExperts : ℕ → ℤ) (n : ℕ) (e : ℤ) : ℕ := (List.range n).countP (topkExperts · = e)

/-- One row of `tokensPerExpert`; `own` is set for the row of this rank. -/
def checkRow (expertNum : ℕ) (cap : ℤ) (row : ℕ → ℤ) (hist : ℤ → ℕ) (own : Bool) :
    Option PlanStatus :=
  ((List.range expertNum).findSome? fun e =>
    if row e < 0 then some .errorConfigMismatch
    else if own && row e ≠ hist e then some .errorTpeMismatch
    else none) <|>
  if ∑ e ∈ Finset.range expertNum, row e ≠ cap then some .errorTpeMismatch else none

def validate (x : PlanAlgorithmInput) (ptr : PlanPointers) (ws : PlanAlgorithmWorkspace) :
    PlanStatus :=
  if badShape x ptr ws then .errorConfigMismatch
  else if badConfig x ptr ws then .errorConfigMismatch
  else
    let rankSize := x.rankSize.toNat
    let expertNum := x.expertNum.toNat
    let cap := (x.s * x.topK).toNat
    if badRankIds rankSize x.globalRankIds then .errorConfigMismatch
    else if (List.range cap).any fun route =>
        x.topkExperts route < 0 || x.topkExperts route ≥ expertNum then .errorConfigMismatch
    else
      ((List.range rankSize).findSome? fun src =>
        checkRow expertNum cap (fun e => x.tokensPerExpert (src * expertNum + e))
          (histogram x.topkExperts cap) (src = x.rank)).getD .ok

/-- The call after its validation. -/
def ctxOf (x : PlanAlgorithmInput) (ptr : PlanPointers) (ws : PlanAlgorithmWorkspace) : Ctx :=
  let p : Params :=
    { rankSize := x.rankSize.toNat
      s := x.s.toNat
      topK := x.topK.toNat
      expertNum := x.expertNum.toNat
      cap := x.config.rankTokenCapacity.toNat
      prefetchSlots := x.config.prefetchSlots.toNat
      nvS := x.config.nvS.toNat
      tokenPadding := x.config.tokenPadding.toNat
      routeLimit := x.config.tokenRouteLimitPerPair.toNat
      tokensPerExpert := fun src e => (x.tokensPerExpert (src * x.expertNum.toNat + e)).toNat
      globalRankIds := fun r => (x.globalRankIds r).toNat }
  { toParams := p
    rank := x.rank.toNat
    topkExperts := fun route => (x.topkExperts route).toNat
    tokenSegmentCapacity := ws.tokenSegmentCapacity.toNat
    metadata := ptr.remoteExperts
    affinityOrder := if ws.affinityOrderValid then ws.affinityOrder else buildAffinity p }

/-! ## BuildLayouts -/

/-- `BetterRemote`: larger allocation first, then smaller id. -/
def betterRemote (alloc : ℕ → ℕ) (lhs rhs : ℕ) : Bool :=
  if alloc lhs ≠ alloc rhs then alloc lhs > alloc rhs else lhs < rhs

/-- The experts that `dst` holds tokens of without being their home. -/
def foreignExperts (p : Params) (t : Tables) (dst : ℕ) : List ℕ :=
  (List.range p.expertNum).filter fun e => p.homeRank e ≠ dst && 0 < t.alloc dst e

/-- The remote row of `dst`, unless it has more entries than prefetch slots. -/
def remoteRow (p : Params) (t : Tables) (dst : ℕ) : Option (List ℕ) :=
  let foreign := foreignExperts p t dst
  if foreign.length > p.prefetchSlots then none
  else some (insertSort (betterRemote (t.alloc dst)) foreign)

/-- `AlignCount`; `none` is `ok = false`. -/
def alignCount (value alignment : ℕ) : Option ℕ :=
  if 0 < value ∧ alignment > int32Max then none
  else
    let aligned := (value + alignment - 1) / alignment * alignment
    if aligned > int32Max then none else some aligned

/-- The arrays `BuildLayouts` writes. -/
structure Layout where
  rows : ℕ → List ℕ
  expertsToCopy : ℕ → ℤ
  remoteExperts : ℕ → ℕ → ℤ
  /-- owned expert, word of the target mask -/
  expertTargets : ℕ → ℕ → BitVec 64
  remoteStats0 : ℕ
  remoteStats1 : ℕ
  maxRemote : ℕ
  cuSeqlens : ℕ → ℕ
  /-- Already all zero when `BuildLayouts` clears it again, so the bound of that loop is immaterial. -/
  expertPhysicalBase : ℕ → ℕ → ℕ
  localEnd : ℕ

def Layout.initial : Layout where
  rows _ := []
  expertsToCopy _ := -1
  remoteExperts _ _ := -1
  expertTargets _ _ := 0
  remoteStats0 := 0
  remoteStats1 := 0
  maxRemote := 0
  cuSeqlens _ := 0
  expertPhysicalBase _ _ := 0
  localEnd := 0

/-- `row[slot]`, where the unused slots hold -1. -/
def slotEntry (row : List ℕ) (slot : ℕ) : ℤ := match row[slot]? with
  | some e => e
  | none => -1

/-- Set the bit of destination `dst` in the target mask of an owned expert. -/
def markTarget (dst : ℕ) (targets : ℕ → ℕ → BitVec 64) (localExpert : ℕ) : ℕ → ℕ → BitVec 64 :=
  Function.update targets localExpert
    (Function.update (targets localExpert) (dst / 64)
      (targets localExpert (dst / 64) ||| (1#64 <<< (dst % 64))))

/-- The first loop of `BuildLayouts` for one destination whose remote row fits. -/
def recordRow (c : Ctx) (o : Layout) (dst : ℕ) (row : List ℕ) : Layout :=
  let owned := row.filter (c.homeRank · = c.rank)
  { o with
    rows := Function.update o.rows dst row
    maxRemote := max o.maxRemote row.length
    remoteStats0 := if dst = c.rank then row.length else o.remoteStats0
    remoteStats1 := o.remoteStats1 + owned.length
    expertsToCopy := if dst = c.rank then slotEntry row else o.expertsToCopy
    remoteExperts :=
      if c.metadata then Function.update o.remoteExperts dst (slotEntry row) else o.remoteExperts
    expertTargets :=
      if c.metadata then
        owned.foldl (fun tg e => markTarget dst tg (e - c.rank * c.expertsPerRank)) o.expertTargets
      else o.expertTargets }

def recordRows (c : Ctx) (t : Tables) (a : Layout × Bool) (dst : ℕ) : Layout × Bool :=
  if !a.2 then a
  else
    match remoteRow c.toParams t dst with
    | none => (a.1, false)
    | some row => (recordRow c a.1 dst row, true)

/-- The expert laid out in a group of `dst`: groups below `expertNum` hold the experts that are not
in the remote row, group `expertNum + slot` the entry of a remote slot. -/
def groupExpert (expertNum : ℕ) (row : List ℕ) (group : ℕ) : Option ℕ :=
  if group < expertNum then
    if row.contains group then none else some group
  else row[group - expertNum]?

def groupCount (alloc : ℕ → ℕ) : Option ℕ → ℕ
  | none => 0
  | some e => alloc e

def paddedCount (padding count : ℕ) : Option ℕ := if count = 0 then some 0 else alignCount count padding

/-- `expertPhysicalBase[dst][physicalExpert] = start`, if the group has an expert. -/
def setBase (base : ℕ → ℕ → ℕ) (dst : ℕ) (physical : Option ℕ) (start : ℕ) : ℕ → ℕ → ℕ :=
  match physical with
  | none => base
  | some e => Function.update base dst (Function.update (base dst) e start)

/-- The group loop of one destination: the arrays, the end of the previous group, not yet returned. -/
structure GroupAcc where
  out : Layout
  previousEnd : ℕ
  ok : Bool

def layoutGroup (c : Ctx) (t : Tables) (dst : ℕ) (row : List ℕ) (a : GroupAcc) (group : ℕ) :
    GroupAcc :=
  if !a.ok then a
  else
    let physical := groupExpert c.expertNum row group
    let out :=
      { a.out with
        expertPhysicalBase := setBase a.out.expertPhysicalBase dst physical a.previousEnd }
    match paddedCount c.tokenPadding (groupCount (t.alloc dst) physical) with
    | none => { a with out := out, ok := false }
    | some padded =>
      if a.previousEnd + padded > c.nvS then { a with out := out, ok := false }
      else
        { out :=
            { out with
              cuSeqlens :=
                if dst = c.rank then Function.update out.cuSeqlens group (a.previousEnd + padded)
                else out.cuSeqlens }
          previousEnd := a.previousEnd + padded
          ok := true }

def layoutRank (c : Ctx) (t : Tables) (a : Layout × Bool) (dst : ℕ) : Layout × Bool :=
  if !a.2 then a
  else
    let g := (List.range (c.expertNum + c.prefetchSlots)).foldl
      (layoutGroup c t dst (a.1.rows dst)) ⟨a.1, 0, true⟩
    if !g.ok then (g.out, false)
    else (if dst = c.rank then { g.out with localEnd := g.previousEnd } else g.out, true)

def buildLayouts (c : Ctx) (t : Tables) : Layout × PlanStatus :=
  let a := (List.range c.rankSize).foldl (recordRows c t) (Layout.initial, true)
  if !a.2 then (a.1, .partialPrefetchSlotExhausted)
  else
    let g := (List.range c.rankSize).foldl (layoutRank c t) (a.1, true)
    (g.1, if g.2 then .ok else .errorLayoutExceedsNvS)

/-! ## BuildDst -/

/-- The pass that numbers the routes of each expert: the counters, and the number of each route. -/
def numberRoutes (topkExperts : ℕ → ℕ) (n : ℕ) : (ℕ → ℕ) × (ℕ → ℕ) :=
  (List.range n).foldl
    (fun a route => (add1 a.1 (topkExperts route) 1,
      Function.update a.2 route (a.1 (topkExperts route))))
    (fun _ => 0, fun _ => 0)

/-- `encoded >= 0 ? encoded : ~encoded`. -/
def decodeDst (encoded : ℤ) : ℕ := if 0 ≤ encoded then encoded.toNat else (-encoded - 1).toNat

/-- `first ? rawDst : ~rawDst`. -/
def encodeDst (first : Bool) (raw : ℕ) : ℤ := if first then raw else -(raw : ℤ) - 1

def matchSegment (segments : List TokenSegmentMove) (expert ordinal : ℕ) : Option TokenSegmentMove :=
  segments.find? fun m =>
    m.expertId = expert && m.srcExpertBegin ≤ ordinal && ordinal < m.srcExpertBegin + m.tokenCount

/-- One route of `BuildDst`. -/
def writeRoute (c : Ctx) (segments : List TokenSegmentMove) (base : ℕ → ℕ → ℕ) (ordinals : ℕ → ℕ)
    (token : ℕ) (a : (ℕ → ℤ) × Bool) (k : ℕ) : (ℕ → ℤ) × Bool :=
  if !a.2 then a
  else
    let route := token * c.topK + k
    let expert := c.topkExperts route
    let ordinal := ordinals route
    match matchSegment segments expert ordinal with
    | none => (a.1, false)
    | some m =>
      let localOffset := base m.dstRank expert + m.dstExpertBegin + (ordinal - m.srcExpertBegin)
      let raw := m.dstRank * c.nvS + localOffset
      if localOffset ≥ c.nvS || raw > int32Max then (a.1, false)
      else
        let first := (List.range k).all fun prior =>
          decodeDst (a.1 (token * c.topK + prior)) / c.nvS ≠ m.dstRank
        (Function.update a.1 route (encodeDst first raw), true)

/-- `BuildDst`: the array and the status. -/
def buildDst (c : Ctx) (segments : List TokenSegmentMove) (base : ℕ → ℕ → ℕ) :
    (ℕ → ℤ) × PlanStatus :=
  let ordinals := (numberRoutes c.topkExperts c.cap).2
  let a := (List.range c.s).foldl
    (fun a token => (List.range c.topK).foldl (writeRoute c segments base ordinals token) a)
    (fun _ => 0, true)
  (a.1, if a.2 then .ok else .errorInternalInvariant)

/-! ## RunPlanAlgorithm -/

def fillStatus (c : Ctx) (s : State) (status : PlanStatus) (maxRemote localEnd : ℕ) : List ℤ :=
  [status.code, s.intraRounds, s.interRounds, s.toTables.deficit c.toParams, maxRemote, localEnd,
    s.expertMoves, s.tokenSegments.length]

/-- What a call leaves behind: its status, `out.status`, and, as far as the run got, the state of the
workspace after the moves, the arrays of `BuildLayouts`, and the array and status of `BuildDst`. -/
structure PlanResult where
  status : PlanStatus
  statusWords : List ℤ
  state : Option State
  layout : Option Layout
  dst : Option ((ℕ → ℤ) × PlanStatus)

def balanced (p : Params) (t : Tables) : Bool :=
  (List.range p.rankSize).all (t.rankLoad · = p.cap)

/-- The status of a plan whose loads are not all at capacity. -/
def balanceStatus (slotBlock supplyBlock : Bool) : PlanStatus :=
  if slotBlock then .partialPrefetchSlotExhausted
  else if supplyBlock then .partialTokenSupply
  else .partialNoFeasiblePair

/-- `RunPlanAlgorithm` after the validation. -/
def planFrom (c : Ctx) : PlanResult :=
  let s := runMoves c
  if s.fatal ≠ .ok then
    { status := s.fatal, statusWords := fillStatus c s s.fatal 0 0, state := some s, layout := none,
      dst := none }
  else
    let l := buildLayouts c s.toTables
    let dst :=
      if l.2 = .ok then some (buildDst c s.tokenSegments l.1.expertPhysicalBase) else none
    let status :=
      if balanced c.toParams s.toTables then
        match dst with
        | none => l.2
        | some d => d.2
      else balanceStatus s.slotBlock s.supplyBlock
    { status := status, statusWords := fillStatus c s status l.1.maxRemote l.1.localEnd,
      state := some s, layout := some l.1, dst := dst }

def runPlanAlgorithm (x : PlanAlgorithmInput) (ptr : PlanPointers) (ws : PlanAlgorithmWorkspace) :
    PlanResult :=
  let validation := validate x ptr ws
  if validation ≠ .ok then
    { status := validation, statusWords := [validation.code, 0, 0, 0, 0, 0, 0, 0], state := none,
      layout := none, dst := none }
  else planFrom (ctxOf x ptr ws)

end TileXR.Plan
