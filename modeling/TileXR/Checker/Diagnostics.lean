import Mathlib.Algebra.Ring.Nat
import TileXR.Lib.Sort

/-!
# The checker's ordering pass

`CheckOrdering` of `tools/checker/src/diagnostics.cpp` over a log of events, with the findings it
reports. Magics are 64-bit words, sizes and offsets `size_t`; ranks, slots and the like are `int`, where
-1 stands for none.
-/

namespace TileXR.Checker
open Lib

/-! ## Events -/

inductive EventKind
  | rankStart | rankEnd | copy | read | write | flagStore | flagWait | pipeSet | pipeWait | pipeBarrier
  | barrier | diagnostic
  deriving DecidableEq

inductive BufferRole
  | userInput | userOutput | commFlag | commData | localUb | metadata | registeredCommBuffer
  deriving DecidableEq

/-- `Event`, with the defaults of the source. -/
structure Event where
  id : ℕ := 0
  kind : EventKind := .diagnostic
  rank : ℤ := -1
  peerRank : ℤ := -1
  server : ℤ := -1
  peerServer : ℤ := -1
  core : ℤ := -1
  bufferRole : BufferRole := .metadata
  slot : ℤ := -1
  pipe : ℤ := -1
  eventId : ℤ := -1
  magic : BitVec 64 := 0
  offset : ℕ := 0
  bytes : ℕ := 0
  allowFutureProducer : Bool := false
  sourceFile : String := ""
  sourceLine : ℤ := 0
  detail : String := ""

/-! ## Findings -/

inductive FindingKind
  | outputMismatch | unsupportedApi | readBeforeWrite | readBeforeCopy | bufferLifetime | flagNoProducer
  | flagStaleMagic | deadlock | directPeerUserBuffer | pipeWaitNoProducer | eventCoverageGap
  | ambiguousSource
  deriving DecidableEq

inductive Severity
  | info | warning | error | fatal
  deriving DecidableEq

def FindingKind.text : FindingKind → String
  | .outputMismatch => "OUTPUT_MISMATCH"
  | .unsupportedApi => "UNSUPPORTED_API"
  | .readBeforeWrite => "READ_BEFORE_WRITE"
  | .readBeforeCopy => "READ_BEFORE_COPY"
  | .bufferLifetime => "BUFFER_LIFETIME"
  | .flagNoProducer => "FLAG_NO_PRODUCER"
  | .flagStaleMagic => "FLAG_STALE_MAGIC"
  | .deadlock => "DEADLOCK"
  | .directPeerUserBuffer => "DIRECT_PEER_USER_BUFFER"
  | .pipeWaitNoProducer => "PIPE_WAIT_NO_PRODUCER"
  | .eventCoverageGap => "EVENT_COVERAGE_GAP"
  | .ambiguousSource => "AMBIGUOUS_SOURCE"

def findingPriority : FindingKind → ℕ
  | .deadlock => 0
  | .flagStaleMagic => 1
  | .flagNoProducer => 2
  | .readBeforeCopy => 3
  | .readBeforeWrite => 4
  | .pipeWaitNoProducer => 5
  | .directPeerUserBuffer => 6
  | .outputMismatch => 7
  | .unsupportedApi => 8
  | .eventCoverageGap => 9
  | .bufferLifetime => 10
  | .ambiguousSource => 11

/-- `Finding`, with the defaults of the source; the confidence in hundredths. -/
structure Finding where
  id : String
  kind : FindingKind := .ambiguousSource
  severity : Severity := .info
  message : String
  nextAction : String
  eventLogId : ℕ := 0
  rank : ℤ := -1
  peerRank : ℤ := -1
  server : ℤ := -1
  peerServer : ℤ := -1
  core : ℤ := -1
  pipe : ℤ := -1
  eventId : ℤ := -1
  slot : ℤ := -1
  bufferRole : BufferRole := .metadata
  offset : ℕ := 0
  bytes : ℕ := 0
  sourceFile : String := ""
  sourceLine : ℤ := 0
  hasExpectedActual : Bool := false
  expected : ℤ := 0
  actual : ℤ := 0
  context : String := ""
  confidence : ℕ
  deriving DecidableEq

def makeFindingId (kind : FindingKind) (event : Event) : String :=
  kind.text ++ ":" ++ toString event.id

def makeFindingFromEvent (kind : FindingKind) (severity : Severity) (event : Event)
    (message nextAction : String) (confidence : ℕ) : Finding where
  id := makeFindingId kind event
  kind := kind
  severity := severity
  message := message
  nextAction := nextAction
  eventLogId := event.id
  rank := event.rank
  peerRank := event.peerRank
  server := event.server
  peerServer := event.peerServer
  core := event.core
  pipe := event.pipe
  eventId := event.eventId
  slot := event.slot
  bufferRole := event.bufferRole
  offset := event.offset
  bytes := event.bytes
  sourceFile := event.sourceFile
  sourceLine := event.sourceLine
  confidence := confidence

/-- The comparator of `SortFindings`. -/
def findingBefore (lhs rhs : Finding) : Bool :=
  if findingPriority lhs.kind ≠ findingPriority rhs.kind then
    findingPriority lhs.kind < findingPriority rhs.kind
  else if lhs.rank ≠ rhs.rank then lhs.rank < rhs.rank
  else if lhs.peerRank ≠ rhs.peerRank then lhs.peerRank < rhs.peerRank
  else if lhs.server ≠ rhs.server then lhs.server < rhs.server
  else if lhs.peerServer ≠ rhs.peerServer then lhs.peerServer < rhs.peerServer
  else lhs.id < rhs.id

/-- `FindingSet::Add`. -/
def addFinding (findings : List Finding) (finding : Finding) : List Finding :=
  stdSort findingBefore (findings ++ [finding])

/-! ## Matching -/

def containsInsensitive (text needle : String) : Bool :=
  (text.toList.map Char.toLower).tails.any (needle.toList.map Char.toLower).isPrefixOf

def isTraceCoverageDiagnostic (event : Event) : Bool :=
  event.kind = .diagnostic &&
    (containsInsensitive event.detail "unresolved trace address" ||
      containsInsensitive event.detail "unsupported trace data copy" ||
      containsInsensitive event.detail "exceeds registered storage")

/-- `SafeAdd` of two `size_t`. -/
def safeAdd (lhs rhs : ℕ) : Option ℕ :=
  if lhs > 2 ^ 64 - 1 - rhs then none else some (lhs + rhs)

def covers (read producer : Event) : Bool :=
  match safeAdd producer.offset producer.bytes, safeAdd read.offset read.bytes with
  | some producerEnd, some readEnd => producer.offset ≤ read.offset && readEnd ≤ producerEnd
  | _, _ => false

def isReadSatisfiedByProducer (read producer : Event) : Bool :=
  (read.allowFutureProducer || producer.id < read.id) &&
    (producer.kind = .copy || producer.kind = .write) &&
    producer.bufferRole = .commData && read.bufferRole = .commData &&
    producer.peerRank = read.peerRank && producer.slot = read.slot && covers read producer

def isRegisteredWindowReadSatisfiedByProducer (read producer : Event) : Bool :=
  (read.allowFutureProducer || producer.id < read.id) &&
    read.kind = .read && read.bufferRole = .registeredCommBuffer &&
    (producer.kind = .write || producer.kind = .copy) &&
    producer.bufferRole = .registeredCommBuffer &&
    producer.rank = read.peerRank && producer.peerRank = read.rank &&
    producer.slot = read.slot && covers read producer

def epoch (magic : BitVec 64) : BitVec 64 := magic >>> 32

def flagValue (magic : BitVec 64) : BitVec 32 := magic.setWidth 32

/-- The store publishes to the slot that the wait polls. -/
def sameWaitSlot (wait store : Event) : Bool :=
  store.kind = .flagStore && (store.peerRank = -1 || wait.rank = store.peerRank) &&
    wait.peerRank = store.rank && wait.slot = store.slot

def isMatchingStore (wait store : Event) : Bool :=
  sameWaitSlot wait store && epoch wait.magic = epoch store.magic &&
    flagValue wait.magic ≤ flagValue store.magic

def isNewerStoreSameWaitSlot (wait store : Event) : Bool :=
  sameWaitSlot wait store && epoch wait.magic < epoch store.magic

def isMatchingPipeSet (wait set : Event) : Bool :=
  set.kind = .pipeSet && set.id < wait.id && set.rank = wait.rank && set.core = wait.core &&
    set.pipe = wait.pipe && set.eventId = wait.eventId

def hasMatchingStore (wait : Event) (entries : List Event) : Bool := entries.any (isMatchingStore wait)

def isMutualFlagWait (lhs rhs : Event) : Bool :=
  lhs.kind = .flagWait && rhs.kind = .flagWait && lhs.rank = rhs.peerRank &&
    lhs.peerRank = rhs.rank && lhs.slot = rhs.slot && lhs.magic = rhs.magic

/-! ## CheckOrdering -/

def makeDeadlockFinding (first second : Event) : Finding :=
  makeFindingFromEvent .deadlock .fatal first
    ("Mutual flag wait cycle: rank " ++ toString first.rank ++ " waits rank " ++
      toString first.peerRank ++ ", and rank " ++ toString second.rank ++ " waits rank " ++
      toString second.peerRank ++ " on slot " ++ toString first.slot ++ ".")
    "Break the cycle by publishing at least one StoreFlag before entering the matching WaitFlag path, or use a phased ordering with distinct magic/slot values."
    97

/-- The first loop: the event `first`, and the events behind it in the log. -/
def checkMutualWaits (entries : List Event) : List Event → List Finding → List Finding
  | [], findings => findings
  | first :: rest, findings =>
    let findings :=
      if first.kind ≠ .flagWait || hasMatchingStore first entries then findings
      else
        match rest.find? fun second => isMutualFlagWait first second && !hasMatchingStore second entries with
        | none => findings
        | some second => addFinding findings (makeDeadlockFinding first second)
    checkMutualWaits entries rest findings

/-- A flag wait of the second loop. -/
def checkFlagWait (entries : List Event) (event : Event) (findings : List Finding) : List Finding :=
  if event.kind = .flagWait then
    if entries.any (isNewerStoreSameWaitSlot event) then
      addFinding findings (makeFindingFromEvent .flagStaleMagic .error event
        "WaitFlag observed an older magic after a newer producer store on the same slot."
        "Verify that the consumer and producer reuse the same magic for each flag round."
        95)
    else if !entries.any (isMatchingStore event) then
      addFinding findings (makeFindingFromEvent .flagNoProducer .error event
        "WaitFlag does not have an earlier matching StoreFlag producer."
        "Check whether the producer path skipped the StoreFlag or wrote the wrong peer, slot, or magic."
        98)
    else findings
  else findings

/-- A finding about `event`, when `bad`. -/
def reportIf (bad : Bool) (kind : FindingKind) (event : Event) (message nextAction : String)
    (confidence : ℕ) (findings : List Finding) : List Finding :=
  if bad then addFinding findings (makeFindingFromEvent kind .error event message nextAction confidence)
  else findings

/-- A copy the trace hooks could not attribute. -/
def checkCoverage (event : Event) : List Finding → List Finding :=
  reportIf (isTraceCoverageDiagnostic event) .unsupportedApi event
    "Trace hook observed a GM copy that is not fully covered by a registered checker range."
    "Update RegisterCollectiveTraceRanges, InstallCollectiveTracePeerMems, or the adapter shim so this production memory path is visible to the checker."
    96

def checkPipeWait (entries : List Event) (event : Event) : List Finding → List Finding :=
  reportIf (event.kind = .pipeWait && !entries.any (isMatchingPipeSet event)) .pipeWaitNoProducer event
    ("Pipe wait has no earlier matching SetFlag for pipe " ++ toString event.pipe ++ " event " ++
      toString event.eventId ++ ".")
    "Check the AICore pipe ordering around SetFlag, WaitFlag, PipeBarrier, and DataCopy."
    95

def checkPeerUserBuffer (event : Event) : List Finding → List Finding :=
  reportIf (event.kind = .read && (event.bufferRole = .userInput || event.bufferRole = .userOutput) &&
      0 ≤ event.peerRank && event.peerRank ≠ event.rank) .directPeerUserBuffer event
    "Read directly accesses a peer user buffer instead of staged comm data."
    "Route peer reads through comm data or another checker-supported staging buffer."
    99

def checkCommRead (entries : List Event) (event : Event) : List Finding → List Finding :=
  reportIf (event.kind = .read && event.bufferRole = .commData &&
      !entries.any (isReadSatisfiedByProducer event)) .readBeforeCopy event
    "Comm data was read before any earlier copy or write prepared that region."
    "Check whether the producer copy is skipped, delayed, or guarded by the wrong flag."
    97

def checkWindowRead (entries : List Event) (event : Event) : List Finding → List Finding :=
  reportIf (event.kind = .read && event.bufferRole = .registeredCommBuffer &&
      !entries.any (isRegisteredWindowReadSatisfiedByProducer event)) .readBeforeWrite event
    "Registered communication window was read before a covering producer write."
    "Check EP dispatch window header/slot header publication, source slot count, and combine-side window reuse before reading this rank/slot range."
    96

def checkEvent (entries : List Event) (findings : List Finding) (event : Event) : List Finding :=
  checkWindowRead entries event <| checkCommRead entries event <| checkPeerUserBuffer event <|
    checkPipeWait entries event <| checkCoverage event <| checkFlagWait entries event findings

def checkOrdering (entries : List Event) : List Finding :=
  entries.foldl (checkEvent entries) (checkMutualWaits entries entries [])

/-! ## What an empty report says -/

variable {event : Event} {findings : List Finding}

theorem addFinding_ne_nil (findings : List Finding) (f : Finding) : addFinding findings f ≠ [] := by
  intro h
  have := List.length_insertionSort (fun a b => ¬ findingBefore b a = true) (findings ++ [f])
  rw [show List.insertionSort _ _ = [] from h] at this
  simp at this

@[simp] theorem reportIf_eq_nil {bad : Bool} {kind : FindingKind} {message nextAction : String} {confidence : ℕ} :
    reportIf bad kind event message nextAction confidence findings = [] ↔ bad = false ∧ findings = [] := by
  cases bad <;> simp [reportIf, addFinding_ne_nil]

/-- What the second loop asks of an event, in a log with the events `entries`. -/
structure Clean (entries : List Event) (event : Event) : Prop where
  fresh : event.kind = .flagWait → entries.any (isNewerStoreSameWaitSlot event) = false
  produced : event.kind = .flagWait → hasMatchingStore event entries = true
  covered : isTraceCoverageDiagnostic event = false
  piped : event.kind = .pipeWait → entries.any (isMatchingPipeSet event) = true
  staged : event.kind = .read → event.bufferRole = .userInput ∨ event.bufferRole = .userOutput →
    0 ≤ event.peerRank → event.peerRank = event.rank
  copied : event.kind = .read → event.bufferRole = .commData → entries.any (isReadSatisfiedByProducer event) = true
  written : event.kind = .read → event.bufferRole = .registeredCommBuffer →
    entries.any (isRegisteredWindowReadSatisfiedByProducer event) = true

theorem checkFlagWait_eq_nil {entries : List Event} : checkFlagWait entries event findings = [] ↔
    findings = [] ∧ (event.kind = .flagWait →
      entries.any (isNewerStoreSameWaitSlot event) = false ∧ hasMatchingStore event entries = true) := by
  unfold checkFlagWait hasMatchingStore
  split_ifs with hkind hnewer hmatch <;> simp_all [addFinding_ne_nil]

theorem checkEvent_eq_nil {entries : List Event} :
    checkEvent entries findings event = [] ↔ findings = [] ∧ Clean entries event := by
  simp only [checkEvent, checkWindowRead, checkCommRead, checkPeerUserBuffer, checkPipeWait, checkCoverage,
    reportIf_eq_nil, checkFlagWait_eq_nil]
  constructor
  · rintro ⟨hwritten, hcopied, hstaged, hpiped, hcovered, hnil, hwait⟩
    refine ⟨hnil, fun hk => (hwait hk).1, fun hk => (hwait hk).2, hcovered, ?_, ?_, ?_, ?_⟩ <;> grind
  · rintro ⟨hnil, h⟩
    refine ⟨?_, ?_, ?_, ?_, h.covered, hnil, fun hk => ⟨h.fresh hk, h.produced hk⟩⟩ <;> grind [Clean]

/-- A mutual wait is a pair of waits without a store. -/
theorem checkMutualWaits_nil {entries : List Event} {rest : List Event}
    (h : ∀ e ∈ rest, e.kind = .flagWait → hasMatchingStore e entries = true) :
    checkMutualWaits entries rest findings = findings := by
  induction rest with
  | nil => rfl
  | cons first rest ih =>
    have hfirst : (first.kind ≠ .flagWait || hasMatchingStore first entries) = true := by
      have := h first List.mem_cons_self
      grind
    rw [checkMutualWaits, if_pos hfirst]
    exact ih fun e he => h e (List.mem_cons_of_mem _ he)

/-- The report is empty exactly when the second loop finds every event clean. -/
theorem checkOrdering_nil_iff {entries : List Event} :
    checkOrdering entries = [] ↔ ∀ event ∈ entries, Clean entries event := by
  have hloop : ∀ (rest : List Event) (findings : List Finding), rest.foldl (checkEvent entries) findings = [] ↔
      findings = [] ∧ ∀ e ∈ rest, Clean entries e := by
    intro rest
    induction rest with
    | nil => simp
    | cons e rest ih =>
      intro findings
      rw [List.foldl_cons, ih, checkEvent_eq_nil, and_assoc, List.forall_mem_cons]
  rw [checkOrdering, hloop]
  exact ⟨And.right, fun h => ⟨checkMutualWaits_nil fun e he => (h e he).produced, h⟩⟩

end TileXR.Checker
