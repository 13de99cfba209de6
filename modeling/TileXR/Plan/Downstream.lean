import TileXR.Plan.Types

/-!
# Planner v2: the downstream helpers

`DecodeMoonEPDst`, `BuildMoonEPExpertTargets` and `BuildMoonEPDuplicateMetadata` of
`ep_plan_downstream.cpp`. The records of a call are a list, so `recordCount` is its length. The `int32_t`
index of a group entry is `groupCount * 3 + 2` at most, and the token loop counts up to the `int64_t`
`s` in an `int32_t`; the call is undefined, `none`, where one of the two overflows.
-/

namespace TileXR.Plan

def int64Max : ℕ := 2 ^ 63 - 1

structure MoonEPRouteTarget where
  rawDst : ℤ
  dstRank : ℤ
  recvSlot : ℤ
  sendHidden : ℤ
  writeRouteWeight : ℤ
  deriving DecidableEq, Repr

/-- `DecodeMoonEPDst`, for a target that is given. -/
def decodeMoonEPDst (encoded nvS rankSize : ℤ) : Except PlanStatus MoonEPRouteTarget :=
  if nvS ≤ 0 ∨ nvS > int32Max ∨ rankSize ≤ 0 ∨ rankSize > 128 ∨ rankSize * nvS > int32Max + 1 then
    .error .errorConfigMismatch
  else
    let rawDst := if 0 ≤ encoded then encoded else -encoded - 1
    let dstRank := rawDst / nvS
    let recvSlot := rawDst % nvS
    if dstRank < 0 ∨ dstRank ≥ rankSize ∨ recvSlot < 0 ∨ recvSlot ≥ nvS then
      .error .errorConfigMismatch
    else .ok ⟨rawDst, dstRank, recvSlot, if 0 ≤ encoded then 1 else 0, 1⟩

/-- The shape and pointer checks of `BuildMoonEPExpertTargets`. -/
def badTargetsCall (rankSize expertNum prefetchSlots ownerRank : ℤ) (remoteExperts expertTargets : Bool) :
    Bool :=
  !remoteExperts || !expertTargets || rankSize ≤ 0 || rankSize > 128 || expertNum ≤ 0 ||
  expertNum % rankSize ≠ 0 || prefetchSlots < 0 || ownerRank < 0 || ownerRank ≥ rankSize

/-- What the loop of `BuildMoonEPExpertTargets` reads. -/
structure TargetTable where
  remoteExperts : ℕ → ℤ
  prefetchSlots : ℕ
  expertNum : ℕ
  expertsPerRank : ℕ
  words : ℕ
  ownerRank : ℕ

/-- One entry of the remote table, a pair of destination and slot: the words and whether the loop still
runs. -/
def targetEntry (x : TargetTable) (a : (ℕ → BitVec 64) × Bool) (entry : ℕ × ℕ) : (ℕ → BitVec 64) × Bool :=
  if !a.2 then a
  else
    let expert := x.remoteExperts (entry.1 * x.prefetchSlots + entry.2)
    if expert < 0 then a
    else if expert ≥ x.expertNum then (a.1, false)
    else if expert.toNat / x.expertsPerRank = x.ownerRank then
      let localExpert := expert.toNat - x.ownerRank * x.expertsPerRank
      let word := localExpert * x.words + entry.1 / 64
      (Function.update a.1 word (a.1 word ||| 1#64 <<< (entry.1 % 64)), true)
    else a

/-- The entries of the remote table, in the order of the loops. -/
def tableEntries (rankSize prefetchSlots : ℕ) : List (ℕ × ℕ) :=
  (List.range rankSize).flatMap fun dst => (List.range prefetchSlots).map fun slot => (dst, slot)

/-- `BuildMoonEPExpertTargets`: the words, from what the array held before, and the status. -/
def buildMoonEPExpertTargets (remoteExperts : ℕ → ℤ) (rankSize expertNum prefetchSlots ownerRank : ℤ)
    (expertTargets : ℕ → BitVec 64) (expertTargetsCount : ℕ) (remoteGiven targetsGiven : Bool) :
    (ℕ → BitVec 64) × PlanStatus :=
  if badTargetsCall rankSize expertNum prefetchSlots ownerRank remoteGiven targetsGiven then
    (expertTargets, .errorConfigMismatch)
  else
    let expertsPerRank := expertNum.toNat / rankSize.toNat
    let words := (rankSize.toNat + 63) / 64
    if expertTargetsCount ≠ expertsPerRank * words then (expertTargets, .errorConfigMismatch)
    else
      let a := (tableEntries rankSize.toNat prefetchSlots.toNat).foldl
        (targetEntry ⟨remoteExperts, prefetchSlots.toNat, expertNum.toNat, expertsPerRank, words,
          ownerRank.toNat⟩)
        (fun i => if i < expertTargetsCount then 0 else expertTargets i, true)
      (a.1, if a.2 then .ok else .errorInternalInvariant)

structure MoonEPReceivedRoute where
  srcRank : ℤ
  tokenId : ℤ
  topKId : ℤ
  recvSlot : ℤ
  isPrimary : ℤ
  deriving DecidableEq, Repr

/-- Which pointers of `BuildMoonEPDuplicateMetadata` are not null. -/
structure DuplicatePointers where
  records : Bool := true
  dupGroups : Bool := true
  dupLoffs : Bool := true
  dupCounts : Bool := true

/-- The shape and pointer checks. -/
def badDuplicateCall (recordCount : ℕ) (rankSize s topK nvS : ℤ) (ptr : DuplicatePointers) : Bool :=
  (!ptr.records && recordCount ≠ 0) || rankSize ≤ 0 || rankSize > 128 || s ≤ 0 || topK ≤ 0 ||
  topK > 32 || nvS ≤ 0 || nvS > int32Max || !ptr.dupGroups || !ptr.dupLoffs || !ptr.dupCounts ||
  s > int64Max / topK || rankSize > int64Max / (s * topK) || (recordCount : ℤ) > rankSize * s * topK

def badRecord (rankSize s topK nvS : ℤ) (r : MoonEPReceivedRoute) : Bool :=
  r.srcRank < 0 || r.srcRank ≥ rankSize || r.tokenId < 0 || r.tokenId ≥ s ||
  r.topKId < 0 || r.topKId ≥ topK || r.recvSlot < 0 || r.recvSlot ≥ nvS ||
  (r.isPrimary ≠ 0 && r.isPrimary ≠ 1)

def sameRoute (r r' : MoonEPReceivedRoute) : Bool :=
  r.srcRank = r'.srcRank && r.tokenId = r'.tokenId && r.topKId = r'.topKId

/-- The loop that checks the records in order, each against those before it. -/
def checkRecords (rankSize s topK nvS : ℤ) :
    List MoonEPReceivedRoute → List MoonEPReceivedRoute → Option PlanStatus
  | _, [] => none
  | prior, r :: rest =>
    if badRecord rankSize s topK nvS r then some .errorConfigMismatch
    else if prior.any (sameRoute · r) then some .errorInternalInvariant
    else checkRecords rankSize s topK nvS (prior ++ [r]) rest

def recordMatches (r : MoonEPReceivedRoute) (srcRank tokenId : ℕ) : Bool :=
  r.srcRank = srcRank && r.tokenId = tokenId

/-- The output arrays and the two counters. -/
structure DuplicateState where
  dupGroups : ℕ → ℤ
  dupLoffs : ℕ → ℤ
  groupCount : ℕ
  duplicateCount : ℕ

def DuplicateState.initial : DuplicateState := ⟨fun _ => -1, fun _ => -1, 0, 0⟩

/-- The three words of the next group. -/
def DuplicateState.addGroup (st : DuplicateState) (primarySlot : ℤ) (count : ℕ) : DuplicateState :=
  let base := st.groupCount * 3
  { st with
    dupGroups := Function.update (Function.update (Function.update st.dupGroups base primarySlot)
      (base + 1) st.duplicateCount) (base + 2) count
    groupCount := st.groupCount + 1 }

/-- `dupLoffs[duplicateCount++] = recvSlot`. -/
def DuplicateState.addSlot (st : DuplicateState) (recvSlot : ℤ) : DuplicateState :=
  { st with
    dupLoffs := Function.update st.dupLoffs st.duplicateCount recvSlot
    duplicateCount := st.duplicateCount + 1 }

def tokenRoutes (records : List MoonEPReceivedRoute) (token : ℕ × ℕ) : List MoonEPReceivedRoute :=
  records.filter (recordMatches · token.1 token.2)

def primariesOf (records : List MoonEPReceivedRoute) (token : ℕ × ℕ) : List MoonEPReceivedRoute :=
  (tokenRoutes records token).filter (·.isPrimary ≠ 0)

def primarySlot (records : List MoonEPReceivedRoute) (token : ℕ × ℕ) : ℤ :=
  ((primariesOf records token).getLast?.map (·.recvSlot)).getD (-1)

/-- The records of a token that are not primary, by `topKId`. -/
def duplicatesOf (records : List MoonEPReceivedRoute) (topK : ℕ) (token : ℕ × ℕ) :
    List MoonEPReceivedRoute :=
  (List.range topK).flatMap fun k : ℕ => records.filter fun r =>
    recordMatches r token.1 token.2 && r.topKId = k && r.isPrimary = 0

/-- One token of one source: the state and status after it, as long as the status was `PLAN_OK`. -/
def groupToken (records : List MoonEPReceivedRoute) (topK nvS : ℕ)
    (a : Option (DuplicateState × PlanStatus)) (token : ℕ × ℕ) : Option (DuplicateState × PlanStatus) :=
  match a with
  | none => none
  | some (st, status) =>
    if status ≠ .ok then some (st, status)
    else
      let routes := tokenRoutes records token
      let primaries := primariesOf records token
      if routes.length = 0 then some (st, .ok)
      else if primaries.length ≠ 1 then some (st, .errorInternalInvariant)
      else if routes.length = 1 then some (st, .ok)
      else
        let localDuplicateCount := routes.length - 1
        if st.groupCount ≥ nvS ∨ st.duplicateCount + localDuplicateCount > nvS then
          some (st, .errorMoveRecordOverflow)
        else if st.groupCount * 3 + 2 > int32Max then none
        else
          some (((duplicatesOf records topK token).map (·.recvSlot)).foldl
            DuplicateState.addSlot (st.addGroup (primarySlot records token) localDuplicateCount), .ok)

def sourceTokens (srcRank count : ℕ) : List (ℕ × ℕ) := (List.range count).map fun t => (srcRank, t)

/-- The tokens of one source. `tokenId` is an `int32_t` and `s` is not: where `s` is above `INT32_MAX` the
counter overflows after that many tokens, unless one of them has ended the call. -/
def groupSource (records : List MoonEPReceivedRoute) (s topK nvS : ℕ)
    (a : Option (DuplicateState × PlanStatus)) (srcRank : ℕ) : Option (DuplicateState × PlanStatus) :=
  if s ≤ int32Max then (sourceTokens srcRank s).foldl (groupToken records topK nvS) a
  else
    ((sourceTokens srcRank (int32Max + 1)).foldl (groupToken records topK nvS) a).filter fun x =>
      x.2 ≠ .ok

/-- The tokens of all sources, in the order of the loops. -/
def allTokens (rankSize s : ℕ) : List (ℕ × ℕ) :=
  (List.range rankSize).flatMap fun r => (List.range s).map fun t => (r, t)

/-- `BuildMoonEPDuplicateMetadata`: the arrays, with `dupCounts` as the two counters, and the status.
A call that fails does not store its counters, and one with a bad shape does not clear the arrays. -/
def buildMoonEPDuplicateMetadata (records : List MoonEPReceivedRoute) (rankSize s topK nvS : ℤ)
    (ptr : DuplicatePointers) : Option (DuplicateState × PlanStatus) :=
  if badDuplicateCall records.length rankSize s topK nvS ptr then
    some (.initial, .errorConfigMismatch)
  else
    match checkRecords rankSize s topK nvS [] records with
    | some status => some (.initial, status)
    | none =>
      (List.range rankSize.toNat).foldl (groupSource records s.toNat topK.toNat nvS.toNat)
        (some (.initial, .ok))

end TileXR.Plan
