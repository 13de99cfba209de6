import TileXR.Lib.Table

/-!
# Planner v2: the data both planners work on

The types of `tilexr_ep_plan.h`, `ep_plan_types.h` and `ep_plan_algorithm.h`. What the caller hands
over (`PlanAlgorithmInput`, `PlanAlgorithmWorkspace`, …) keeps the signed integers of the source, so
that the validation can reject them; `Params` is what is left once the input has been accepted:
natural numbers, and the two shared tables with their flat indices resolved. `Tables` are the six
counter arrays that the per-rank planner and the reference planner both carry through the moves.
-/

namespace TileXR.Plan
open Lib

def int32Max : ℕ := 2147483647

def kPlanCardsPerServer : ℕ := 8
def kPlanCardsPerCabinet : ℕ := 64
def kPlanCrossCandidateCount : ℕ := 3
def kPlanStatusWords : ℕ := 8

inductive PlanStatus where
  | ok
  | partialNoFeasiblePair
  | partialPrefetchSlotExhausted
  | partialTokenSupply
  | errorConfigMismatch
  | errorTpeMismatch
  | errorLayoutExceedsNvS
  | errorMoveRecordOverflow
  | errorInternalInvariant
  deriving DecidableEq, Repr

def PlanStatus.code : PlanStatus → ℤ
  | .ok => 0
  | .partialNoFeasiblePair => 1
  | .partialPrefetchSlotExhausted => 2
  | .partialTokenSupply => 3
  | .errorConfigMismatch => 4
  | .errorTpeMismatch => 5
  | .errorLayoutExceedsNvS => 6
  | .errorMoveRecordOverflow => 7
  | .errorInternalInvariant => 8

/-- The defaults are those of `MakeMoonEpCompatConfig`. -/
structure PlanConfig where
  prefetchSlots : ℤ
  rankTokenCapacity : ℤ
  nvS : ℤ
  tokenPadding : ℤ := 1
  tokenRouteLimitPerPair : ℤ := 0
  cardsPerServer : ℤ := kPlanCardsPerServer
  cardsPerCabinet : ℤ := kPlanCardsPerCabinet
  crossCandidateCount : ℤ := kPlanCrossCandidateCount

/-- `PlanAlgorithmInput`; the arrays are read through their flat index. -/
structure PlanAlgorithmInput where
  rank : ℤ
  rankSize : ℤ
  s : ℤ
  topK : ℤ
  expertNum : ℤ
  config : PlanConfig
  topkExperts : ℕ → ℤ
  tokensPerExpert : ℕ → ℤ
  globalRankIds : ℕ → ℤ

/-- Which of the caller's pointers are not null. -/
structure PlanPointers where
  topkExperts : Bool := true
  tokensPerExpert : Bool := true
  globalRankIds : Bool := true
  dst : Bool := true
  cuSeqlens : Bool := true
  expertsToCopy : Bool := true
  remoteExperts : Bool := true
  expertTargets : Bool := true
  remoteStats : Bool := true
  status : Bool := true
  expertCount : Bool := true
  rankLoad : Bool := true
  remainingTpe : Bool := true
  alloc : Bool := true
  remoteExpertSet : Bool := true
  srcExpertCursor : Bool := true
  dstExpertCursor : Bool := true
  expertPhysicalBase : Bool := true
  localExpertOrdinal : Bool := true
  tokenSegments : Bool := true
  routedPairTokens : Bool := true
  scratch : Bool := true
  affinityOrder : Bool := true

/-- What the planner reads of `PlanAlgorithmWorkspace` before writing it. Row `dst` of the affinity
table is a list of source ranks. -/
structure PlanAlgorithmWorkspace where
  tokenSegmentCapacity : ℤ
  scratchCount : ℤ
  affinityOrder : ℕ → List ℕ
  affinityOrderValid : Bool

/-- `TokenSegmentMove`: `tokenCount` routes of `expertId` on `srcRank`, from ordinal
`srcExpertBegin` on, go to `dstRank`, from offset `dstExpertBegin` of the expert's group there on. -/
structure TokenSegmentMove where
  expertId : ℕ
  srcRank : ℕ
  dstRank : ℕ
  srcExpertBegin : ℕ
  dstExpertBegin : ℕ
  tokenCount : ℕ
  deriving DecidableEq, Repr

/-- An accepted call, without what only one rank has. -/
structure Params where
  rankSize : ℕ
  s : ℕ
  topK : ℕ
  expertNum : ℕ
  cap : ℕ
  prefetchSlots : ℕ
  nvS : ℕ
  tokenPadding : ℕ
  routeLimit : ℕ
  tokensPerExpert : ℕ → ℕ → ℕ
  globalRankIds : ℕ → ℕ

namespace Params

def expertsPerRank (p : Params) : ℕ := p.expertNum / p.rankSize

def homeRank (p : Params) (e : ℕ) : ℕ := e / p.expertsPerRank

/-- The server a rank sits in: its global id over the cards of a server. -/
def serverKey (p : Params) (r : ℕ) : ℕ := p.globalRankIds r / kPlanCardsPerServer

def expertTotal (p : Params) (e : ℕ) : ℕ := ∑ src ∈ Finset.range p.rankSize, p.tokensPerExpert src e

end Params

/-- The counters both planners keep: tokens on a rank, tokens of an expert not yet given away by a
source, tokens of an expert on a destination, and the cursors that number segments. -/
structure Tables where
  rankLoad : ℕ → ℕ
  remainingTpe : ℕ → ℕ → ℕ
  alloc : ℕ → ℕ → ℕ
  srcExpertCursor : ℕ → ℕ → ℕ
  dstExpertCursor : ℕ → ℕ → ℕ
  routedPairTokens : ℕ → ℕ → ℕ

/-- The tables before any move: every expert's tokens sit on its home rank. -/
def Tables.initial (p : Params) : Tables where
  rankLoad r := ∑ e ∈ (Finset.range p.expertNum).filter (p.homeRank · = r), p.expertTotal e
  remainingTpe := p.tokensPerExpert
  alloc r e := if r = p.homeRank e then p.expertTotal e else 0
  srcExpertCursor _ _ := 0
  dstExpertCursor _ _ := 0
  routedPairTokens _ _ := 0

namespace Tables

/-- Routes still missing on the ranks below capacity. -/
def deficit (p : Params) (t : Tables) : ℕ := ∑ r ∈ Finset.range p.rankSize, (p.cap - t.rankLoad r)

/-- The next segment of `expert` from `src` to `dst`. -/
def nextSegment (t : Tables) (expert src dst count : ℕ) : TokenSegmentMove :=
  ⟨expert, src, dst, t.srcExpertCursor src expert, t.dstExpertCursor dst expert, count⟩

/-- A source gives `count` tokens of `expert` to `dst`: its remainder and both cursors. -/
def give (t : Tables) (expert src dst count : ℕ) : Tables :=
  { t with
    remainingTpe := sub2 t.remainingTpe src expert count
    srcExpertCursor := add2 t.srcExpertCursor src expert count
    dstExpertCursor := add2 t.dstExpertCursor dst expert count }

/-- Count the tokens towards the route limit of the pair, if there is one. -/
def route (p : Params) (t : Tables) (src dst count : ℕ) : Tables :=
  if p.routeLimit ≠ 0 then { t with routedPairTokens := add2 t.routedPairTokens src dst count } else t

/-- `count` tokens of `expert` are computed on `dst` in place of `home`. -/
def book (t : Tables) (home dst expert count : ℕ) : Tables :=
  { t with
    alloc := add2 (sub2 t.alloc home expert count) dst expert count
    rankLoad := add1 (sub1 t.rankLoad home count) dst count }

end Tables

end TileXR.Plan
