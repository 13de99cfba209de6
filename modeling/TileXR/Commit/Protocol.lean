import TileXR.Plan.Run
import TileXR.Lib.Log

/-!
# The planner kernel of all ranks

`tilexr_ep_plan_kernel` as a system of ranks that write to each other's mailboxes. In a call every
rank publishes its row (call header, global rank id, status, tokens per expert), passes the data
barrier, gathers the rows of all ranks and plans; then it publishes its status and reduces the statuses
of all ranks behind the status barrier, passes the ready barrier, publishes its status again, reduces
once more behind the consensus barrier and commits the call if the result is `PLAN_OK`. Every wait of
a barrier may time out, and a rank that timed out goes on to the next barrier and the next call.

The writes of a rank to its peers' mailboxes are one log, in the order in which the kernel makes them:
a row goes out in cache lines, first line first, and a flag after the row it announces. Each peer sees
a prefix of that log, which grows on its own. Publishing appends a whole row at once; since a peer may
see it line by line and as late as it likes, this leaves out no interleaving. Rows are copied out of a
mailbox one cache line at a time.
-/

namespace TileXR.Commit
open Lib Plan

/-- `kPhaseData` to `kPhaseConsensus`. -/
inductive Phase where
  | data
  | status
  | ready
  | consensus
  deriving DecidableEq

def Phase.index : Phase → ℕ
  | .data => 0
  | .status => 1
  | .ready => 2
  | .consensus => 3

def Phase.code (ph : Phase) : ℕ := ph.index + 1

def kPlanAbiVersion : ℤ := 1
def headerBytes : ℤ := 112
def kPlannerStatusTimeoutBase : ℤ := 1000
def kBarrierDebugBuildTag : ℤ := 0x5A17C0DE

/-- The first cache line of `PlanCallHeader`. -/
structure HeaderLine0 where
  abiVersion : ℤ
  headerBytes : ℤ
  rankSize : ℤ
  s : ℤ
  k : ℤ
  expertNum : ℤ
  prefetchSlots : ℤ
  rankTokenCapacity : ℤ
  nvS : ℤ
  deriving DecidableEq

/-- The second cache line of `PlanCallHeader`. -/
structure HeaderLine1 where
  tokenPadding : ℤ
  tokenRouteLimitPerPair : ℤ
  cardsPerServer : ℤ
  cardsPerCabinet : ℤ
  crossCandidateCount : ℤ
  epoch : ℕ
  topologyHash : BitVec 64
  deriving DecidableEq

/-- What the host passes to one rank in one call. -/
structure CallArgs where
  s : ℤ
  topK : ℤ
  expertNum : ℤ
  config : PlanConfig
  topkExperts : ℕ → ℤ
  tokensPerExpert : ℕ → ℤ
  globalRankIds : ℕ → ℤ
  ptr : PlanPointers

/-- The ranks and their calls. All ranks run the same sequence of epochs and magics. -/
structure System where
  rankSize : ℕ
  /-- rank, call -/
  args : ℕ → ℕ → CallArgs
  epoch : ℕ → ℕ
  /-- the `int64` that `NextMagic` returned for the call -/
  magic : ℕ → ℤ
  /-- the flag addresses of a rank, as words of a debug status -/
  addressWords : ℕ → List ℤ

/-! ## Mailboxes -/

/-- A source's row in an owner's mailbox, and its barrier slots there. -/
structure Mailbox where
  line0 : HeaderLine0
  line1 : HeaderLine1
  globalRankId : ℤ
  status : List ℤ
  tpe : ℕ → ℤ
  flag : Phase → ℕ

/-- The memory is cleared when the communicator is set up. -/
def Mailbox.zero : Mailbox where
  line0 := ⟨0, 0, 0, 0, 0, 0, 0, 0, 0⟩
  line1 := ⟨0, 0, 0, 0, 0, 0, 0⟩
  globalRankId := 0
  status := List.replicate kPlanStatusWords 0
  tpe _ := 0
  flag _ := 0

/-- A write to a mailbox: a cache line of the row, or a flag. -/
inductive Write where
  | line0 (v : HeaderLine0)
  | line1 (v : HeaderLine1)
  | globalRankId (v : ℤ)
  | status (v : List ℤ)
  /-- line `line` of the token counts, 16 words -/
  | tpe (line : ℕ) (v : ℕ → ℤ)
  | flag (ph : Phase) (v : ℕ)

def tpeLineWords : ℕ := 16

def Mailbox.apply (b : Mailbox) : Write → Mailbox
  | .line0 v => { b with line0 := v }
  | .line1 v => { b with line1 := v }
  | .globalRankId v => { b with globalRankId := v }
  | .status v => { b with status := v }
  | .tpe line v => { b with tpe := fun e => if e / tpeLineWords = line then v e else b.tpe e }
  | .flag ph v => { b with flag := Function.update b.flag ph v }

/-- The flag of a phase: the low half of the magic above the phase number. -/
def barrierValue (magic : ℤ) (ph : Phase) : ℕ := (magic % 2 ^ 32).toNat * 2 ^ 32 + ph.code

/-- The test of `WaitPhase`. -/
def flagReady (magic : ℤ) (ph : Phase) (value : ℕ) : Bool :=
  value / 2 ^ 32 = barrierValue magic ph / 2 ^ 32 && barrierValue magic ph ≤ value

/-! ## The published rows -/

def topologyHash (globalRankIds : ℕ → ℤ) (rankSize : ℕ) : BitVec 64 :=
  (List.range rankSize).foldl
    (fun hash r => (hash ^^^ (BitVec.ofInt 32 (globalRankIds r)).zeroExtend 64) * 1099511628211)
    1469598103934665603

section Rows
variable (sys : System) (rank call : ℕ)

/-- `FillHeader` -/
def fillLine0 : HeaderLine0 :=
  let a := sys.args rank call
  { abiVersion := kPlanAbiVersion, headerBytes := headerBytes, rankSize := sys.rankSize, s := a.s
    k := a.topK, expertNum := a.expertNum, prefetchSlots := a.config.prefetchSlots
    rankTokenCapacity := a.config.rankTokenCapacity, nvS := a.config.nvS }

/-- `FillHeader` -/
def fillLine1 : HeaderLine1 :=
  let a := sys.args rank call
  { tokenPadding := a.config.tokenPadding, tokenRouteLimitPerPair := a.config.tokenRouteLimitPerPair
    cardsPerServer := a.config.cardsPerServer, cardsPerCabinet := a.config.cardsPerCabinet
    crossCandidateCount := a.config.crossCandidateCount, epoch := sys.epoch call
    topologyHash := topologyHash a.globalRankIds sys.rankSize }

/-- The rank's own row after `PublishInputs`. -/
def inputRow (own : Mailbox) : Mailbox :=
  let a := sys.args rank call
  { own with
    line0 := fillLine0 sys rank call
    line1 := fillLine1 sys rank call
    globalRankId := a.globalRankIds rank
    tpe := fun e => if e < a.expertNum.toNat then a.tokensPerExpert e else own.tpe e }

end Rows

/-- The lines of token counts that `layout.inputBytes` covers: it is rounded up to 512 bytes, and the
counts begin at byte 256. -/
def inputLines (expertNum : ℕ) : ℕ := ((256 + 4 * expertNum + 511) / 512 * 512 - 256) / 64

/-- The lines of token counts in the first 512 bytes of a row. -/
def statusLines : ℕ := 4

/-- A row as `PushPeerMailboxRowMte` sends it. -/
def rowWrites (b : Mailbox) (lines : ℕ) : List Write :=
  [.line0 b.line0, .line1 b.line1, .globalRankId b.globalRankId, .status b.status] ++
    (List.range lines).map fun line => .tpe line b.tpe

/-! ## The state -/

/-- What a rank has gathered of another one's row. -/
structure Meta where
  line0 : HeaderLine0
  line1 : HeaderLine1
  globalRankId : ℤ
  tpe : ℕ → ℤ

inductive Pc where
  | publish (ph : Phase)
  /-- waiting for the flag of the `offset`-th rank after this one -/
  | wait (ph : Phase) (offset : ℕ)
  | gather (src piece : ℕ)
  | plan
  | collect (ph : Phase) (src : ℕ)
  | finish
  deriving DecidableEq

/-- The affinity order kept between calls, with the topology it was built for. -/
structure AffinityCache where
  valid : Bool
  topologyHash : BitVec 64
  order : ℕ → List ℕ

/-- What a rank planned from, and the status it computed. -/
structure Planned where
  gathered : ℕ → Meta
  status : ℤ

structure RankState where
  call : ℕ
  pc : Pc
  status : List ℤ
  gathered : ℕ → Meta
  statuses : ℕ → List ℤ
  cache : AffinityCache
  committedEpoch : ℕ
  /-- history: the plan of each call -/
  plans : ℕ → Option Planned
  /-- history: the committed calls -/
  commits : List ℕ

/-- A write in a rank's log, with the call and the phase that published it (which no rank reads). -/
structure Sent where
  call : ℕ
  phase : Phase
  write : Write

structure State where
  rank : ℕ → RankState
  log : ℕ → List Sent
  /-- source, owner: how many of the source's writes are visible in the owner's mailbox -/
  seen : ℕ → ℕ → ℕ

namespace State

/-- The writes of `src` that `owner` sees. A rank's own row needs no transfer. -/
def visible (s : State) (src owner : ℕ) : List Sent :=
  if src = owner then s.log src else (s.log src).take (s.seen src owner)

def mailbox (s : State) (src owner : ℕ) : Mailbox :=
  (s.visible src owner).foldl (fun b w => b.apply w.write) Mailbox.zero

def setRank (s : State) (r : ℕ) (rs : RankState) : State :=
  { s with rank := Function.update s.rank r rs }

end State

/-! ## The steps of a rank -/

def toInt32 (z : ℤ) : ℤ := Int.bmod z (2 ^ 32)

section Steps
variable (sys : System) (r : ℕ)

def debugStatus (value : ℤ) (ph : Phase) (peer : ℕ) : List ℤ :=
  [value, kBarrierDebugBuildTag, ph.code, peer] ++ sys.addressWords r

def publishWrites (own : Mailbox) (rs : RankState) (ph : Phase) : List Write :=
  (match ph with
    | .data => rowWrites (inputRow sys r rs.call own) (inputLines (sys.args r rs.call).expertNum.toNat)
    | .ready => []
    | .status | .consensus => rowWrites { own with status := rs.status } statusLines) ++
  [.flag ph (barrierValue (sys.magic rs.call) ph)]

def headersMatch (gathered : ℕ → Meta) : Bool :=
  (List.range sys.rankSize).all fun rank =>
    (gathered rank).line0 = (gathered 0).line0 && (gathered rank).line1 = (gathered 0).line1

/-- The input of `RunPlanAlgorithm`: the arguments of the call and the gathered tables. -/
def planInput (call : ℕ) (gathered : ℕ → Meta) : PlanAlgorithmInput :=
  let a := sys.args r call
  { rank := r, rankSize := sys.rankSize, s := a.s, topK := a.topK, expertNum := a.expertNum
    config := a.config, topkExperts := a.topkExperts
    tokensPerExpert := fun i =>
      (gathered (i / a.expertNum.toNat)).tpe (i % a.expertNum.toNat)
    globalRankIds := fun src => (gathered src).globalRankId }

/-- `BindAlgorithmWorkspace` -/
def planWorkspace (call : ℕ) (cache : AffinityCache) : PlanAlgorithmWorkspace :=
  let a := sys.args r call
  { tokenSegmentCapacity := toInt32 (a.s * a.topK), scratchCount := toInt32 (sys.rankSize * 16)
    affinityOrder := cache.order
    affinityOrderValid := cache.valid && cache.topologyHash = topologyHash a.globalRankIds sys.rankSize }

/-- The rank plans, or reports that the headers differ. -/
def planStep (rs : RankState) : RankState :=
  if headersMatch sys rs.gathered then
    let x := planInput sys r rs.call rs.gathered
    let ptr := (sys.args r rs.call).ptr
    let ws := planWorkspace sys r rs.call rs.cache
    let result := runPlanAlgorithm x ptr ws
    { rs with
      status := result.statusWords
      cache :=
        if validate x ptr ws = .ok && !ws.affinityOrderValid then
          { valid := true
            topologyHash := topologyHash (sys.args r rs.call).globalRankIds sys.rankSize
            order := (ctxOf x ptr ws).affinityOrder }
        else rs.cache
      plans := Function.update rs.plans rs.call (some ⟨rs.gathered, result.status.code⟩)
      pc := .publish .status }
  else
    { rs with
      status := debugStatus sys r PlanStatus.errorConfigMismatch.code .data r
      plans := Function.update rs.plans rs.call
        (some ⟨rs.gathered, PlanStatus.errorConfigMismatch.code⟩)
      pc := .publish .status }

def passed (ph : Phase) : Pc :=
  match ph with
  | .data => .gather 0 0
  | .status => .collect .status 0
  | .ready => .publish .consensus
  | .consensus => .collect .consensus 0

def timedOut (rs : RankState) (ph : Phase) (peer : ℕ) : RankState :=
  let debug := debugStatus sys r (kPlannerStatusTimeoutBase + peer) ph peer
  let guarded := if rs.status.getD 1 0 ≠ kBarrierDebugBuildTag then debug else rs.status
  match ph with
  | .data => { rs with status := debug, pc := .publish .status }
  | .status => { rs with status := debug, pc := .publish .ready }
  | .ready => { rs with status := guarded, pc := .publish .consensus }
  | .consensus => { rs with status := guarded, pc := .finish }

/-- The lines of token counts that `GatherInputs` copies. -/
def gatherLines (expertNum : ℕ) : ℕ := (expertNum + tpeLineWords - 1) / tpeLineWords

/-- One cache line of `GatherInputs`: the header, the token counts, then the id. -/
def gatherPiece (expertNum piece : ℕ) (b : Mailbox) (m : Meta) : Meta :=
  if piece = 0 then { m with line0 := b.line0 }
  else if piece = 1 then { m with line1 := b.line1 }
  else if piece < 2 + gatherLines expertNum then
    { m with tpe := fun e =>
        if e / tpeLineWords = piece - 2 ∧ e < expertNum then b.tpe e else m.tpe e }
  else { m with globalRankId := b.globalRankId }

def reduceGlobalPlanStatus (rankSize : ℕ) (statuses : ℕ → List ℤ) : ℤ :=
  (List.range rankSize).foldl
    (fun result rank =>
      let candidate := (statuses rank).getD 0 0
      if (candidate ≥ PlanStatus.errorConfigMismatch.code ∧
          (result < PlanStatus.errorConfigMismatch.code ∨ candidate > result)) ∨
        (candidate > result ∧ result < PlanStatus.errorConfigMismatch.code) then candidate
      else result)
    0

/-- One step of a rank that does not time out; `none` while the flag it waits for is not there. -/
def rankStep (s : State) : Option State :=
  let rs := s.rank r
  match rs.pc with
  | .publish ph =>
    let writes := publishWrites sys r (s.mailbox r r) rs ph
    some
      { s with
        rank := Function.update s.rank r
          { rs with
            pc := .wait ph 0
            committedEpoch := if ph = .data then 0 else rs.committedEpoch }
        log := Function.update s.log r (s.log r ++ writes.map fun w => ⟨rs.call, ph, w⟩) }
  | .wait ph offset =>
    let src := (r + offset) % sys.rankSize
    if flagReady (sys.magic rs.call) ph ((s.mailbox src r).flag ph) then
      some (s.setRank r
        { rs with pc := if offset + 1 < sys.rankSize then .wait ph (offset + 1) else passed ph })
    else none
  | .gather src piece =>
    let expertNum := (sys.args r rs.call).expertNum.toNat
    some (s.setRank r
      { rs with
        gathered := Function.update rs.gathered src
          (gatherPiece expertNum piece (s.mailbox src r) (rs.gathered src))
        pc :=
          if piece < 2 + gatherLines expertNum then .gather src (piece + 1)
          else if src + 1 < sys.rankSize then .gather (src + 1) 0
          else .plan })
  | .plan => some (s.setRank r (planStep sys r rs))
  | .collect ph src =>
    let statuses := Function.update rs.statuses src (s.mailbox src r).status
    if src + 1 < sys.rankSize then
      some (s.setRank r { rs with statuses := statuses, pc := .collect ph (src + 1) })
    else
      some (s.setRank r
        { rs with
          statuses := statuses
          status := rs.status.set 0 (reduceGlobalPlanStatus sys.rankSize statuses)
          pc := if ph = .status then .publish .ready else .finish })
  | .finish =>
    some (s.setRank r
      (if rs.status.getD 0 0 = 0 then
        { rs with
          call := rs.call + 1, pc := .publish .data, committedEpoch := sys.epoch rs.call
          commits := rs.call :: rs.commits }
      else { rs with call := rs.call + 1, pc := .publish .data }))

end Steps

/-- What can happen: a rank goes on, a wait times out, a write becomes visible to an owner. -/
inductive Action where
  | run (r : ℕ)
  | timeout (r : ℕ)
  | deliver (src owner : ℕ)

def step (sys : System) (s : State) : Action → Option State
  | .run r => if r < sys.rankSize then rankStep sys r s else none
  | .timeout r =>
    if r < sys.rankSize then
      match (s.rank r).pc with
      | .wait ph offset =>
        some (s.setRank r (timedOut sys r (s.rank r) ph ((r + offset) % sys.rankSize)))
      | _ => none
    else none
  | .deliver src owner =>
    if s.seen src owner < (s.log src).length then
      some
        { s with
          seen := Function.update s.seen src
            (Function.update (s.seen src) owner (s.seen src owner + 1)) }
    else none

def State.initial : State where
  rank _ :=
    { call := 0, pc := .publish .data, status := List.replicate kPlanStatusWords 0
      gathered := fun _ => ⟨Mailbox.zero.line0, Mailbox.zero.line1, 0, fun _ => 0⟩
      statuses := fun _ => [], cache := ⟨false, 0, fun _ => []⟩, committedEpoch := 0
      plans := fun _ => none, commits := [] }
  log _ := []
  seen _ _ := 0

def Runs (sys : System) : State → Prop :=
  Reachable (fun s s' => ∃ a, step sys s a = some s') State.initial

end TileXR.Commit
