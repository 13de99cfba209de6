import Mathlib.Algebra.Ring.Nat
import Mathlib.Data.Fin.Basic
import Mathlib.Data.List.DropRight

/-!
# The queue pairs and their routes

Which route each queue pair takes is set by a text in the environment of every rank. The ranks exchange
what they read as a descriptor of fixed size, and go on only when every descriptor is valid and all are
equal; the configuration in use is then the one decoded from the wire. A text that is empty stands for the
single queue pair of old, whose descriptor has no route at all.
-/

namespace TileXR.UdmaConfig
open List
variable {error : String} {qp : ℕ}

abbrev U32 := BitVec 32

def maxQpCount : ℕ := 48

instance : NeZero maxQpCount := ⟨by decide⟩

/-! ## The configuration -/

inductive QpRouteSelector
  | topology
  | portCount
  deriving DecidableEq

def QpRouteSelector.code : QpRouteSelector → U32
  | topology => 1
  | portCount => 2

structure QpRouteRule where
  selector : QpRouteSelector := .topology
  value : U32 := 0
  deriving DecidableEq

structure QpConfig where
  explicitConfig : Bool := false
  sharedQp : Bool := false
  routes : List QpRouteRule := []
  deriving DecidableEq

/-! ## The text -/

/-- `std::isspace` in the locale a program starts in. -/
def isSpace (ch : Char) : Bool := ch ∈ [' ', '\t', '\n', '\x0b', '\x0c', '\r']

def trim (value : List Char) : List Char := (value.dropWhile isSpace).rdropWhile isSpace

def parseDigit (parsed : U32) (ch : Char) : Option U32 :=
  if ch < '0' ∨ '9' < ch then none
  else
    let digit := BitVec.ofNat 32 (ch.toNat - '0'.toNat)
    if parsed > (BitVec.allOnes 32 - digit) / 10 then none else some (parsed * 10 + digit)

def parsePositiveUint32 (text : List Char) : Option U32 :=
  if text = [] then none
  else do
    let parsed ← text.foldlM parseDigit 0
    if parsed = 0 then none else some parsed

def portCountWord : List Char := "port_count:".toList

/-- One rule of the text, between two commas. -/
def parseRule (ruleText : List Char) : Except String QpRouteRule :=
  if ruleText = "topology".toList then .ok { selector := .topology }
  else if ruleText.take portCountWord.length ≠ portCountWord then
    .error ("unknown UDMA QP route selector: " ++ String.ofList ruleText)
  else
    match parsePositiveUint32 (ruleText.drop portCountWord.length) with
    | none => .error "UDMA QP port_count must be a positive decimal uint32"
    | some portCount => .ok ⟨.portCount, portCount⟩

def appendRule (routes : List QpRouteRule) (piece : List Char) : Except String (List QpRouteRule) :=
  if trim piece = [] then .error "UDMA QP route specification contains an empty rule"
  else if routes.length = maxQpCount then .error "UDMA QP route specification requests more than 48 QPs"
  else (parseRule (trim piece)).map (routes ++ [·])

/-- `ParseUDMAQpRouteSpec`; there is no text when the variable is not set. -/
def parseQpRouteSpec (routeSpec : Option (List Char)) : Except String QpConfig :=
  let normalized := trim (routeSpec.getD [])
  if normalized = [] then .ok {}
  else ((normalized.splitOn ',').foldlM appendRule []).map fun routes => { explicitConfig := true, routes }

/-! ## The descriptor -/

inductive QpConfigParseStatus
  | success
  | invalid

def QpConfigParseStatus.code : QpConfigParseStatus → U32
  | success => 0
  | invalid => 1

structure QpRouteWireRule where
  selectorKind : U32 := 0
  selectorValue : U32 := 0
  deriving DecidableEq

def wireVersion : U32 := 3

structure QpConfigWireDescriptor where
  version : U32 := wireVersion
  parseStatus : U32 := QpConfigParseStatus.success.code
  qpCount : U32 := 1
  sharedQp : U32 := 0
  routeRules : Fin maxQpCount → QpRouteWireRule := fun _ => {}

def QpRouteRule.toWire (rule : QpRouteRule) : QpRouteWireRule := ⟨rule.selector.code, rule.value⟩

def qpConfigQpCount (config : QpConfig) : U32 :=
  if !config.explicitConfig then 1
  else if config.routes = [] ∨ config.routes.length > maxQpCount then 0
  else BitVec.ofNat 32 config.routes.length

/-- The rule of a queue pair; those behind the last route keep their zeros. -/
def QpConfig.wireRule (config : QpConfig) (qp : ℕ) : QpRouteWireRule :=
  (config.routes[qp]?).elim {} QpRouteRule.toWire

/-- `BuildUDMAQpConfigWireDescriptor` -/
def buildWireDescriptor (config : QpConfig) : QpConfigParseStatus → QpConfigWireDescriptor
  | .invalid => { parseStatus := QpConfigParseStatus.invalid.code, qpCount := 0 }
  | .success =>
    let qpCount := qpConfigQpCount config
    let sharedQp := if config.sharedQp then 1 else 0
    if !config.explicitConfig ∨ qpCount = 0 then { qpCount, sharedQp }
    else { qpCount, sharedQp, routeRules := fun i => config.wireRule i }

namespace QpRouteWireRule
variable (rule : QpRouteWireRule)

/-- `RuleEmpty` -/
def Empty : Prop := rule.selectorKind = 0 ∧ rule.selectorValue = 0

def KnownSelector : Prop :=
  rule.selectorKind = QpRouteSelector.topology.code ∨ rule.selectorKind = QpRouteSelector.portCount.code

instance : Decidable rule.Empty := inferInstanceAs (Decidable (_ ∧ _))
instance : Decidable rule.KnownSelector := inferInstanceAs (Decidable (_ ∨ _))

/-- `RuleValid` -/
def Valid : Prop :=
  rule.KnownSelector ∧
    if rule.selectorKind = QpRouteSelector.topology.code then rule.selectorValue = 0 else rule.selectorValue ≠ 0

instance : Decidable rule.Valid := inferInstanceAs (Decidable (_ ∧ _))

end QpRouteWireRule

def sharedQpExpectedPortCount (qp : ℕ) : U32 := if qp < 16 then 6 else 2

def SharedQpRouteMatchesProfile (qp : ℕ) (rule : QpRouteWireRule) : Prop :=
  rule.selectorKind = QpRouteSelector.portCount.code ∧ rule.selectorValue = sharedQpExpectedPortCount qp

instance (qp : ℕ) (rule : QpRouteWireRule) : Decidable (SharedQpRouteMatchesProfile qp rule) :=
  inferInstanceAs (Decidable (_ ∧ _))

/-- `BuildUDMASharedQpConfig`: the fixed profile of a domain that shares its queue pairs. -/
def buildSharedQpConfig : QpConfig where
  explicitConfig := true
  sharedQp := true
  routes := (List.range maxQpCount).map fun qp => ⟨.portCount, sharedQpExpectedPortCount qp⟩

def rejectIf (bad : Prop) [Decidable bad] (error : String) : Except String Unit :=
  if bad then .error error else .ok ()

def forRules (check : Fin maxQpCount → Except String Unit) : Except String Unit :=
  (List.finRange maxQpCount).forM check

section Validate
variable (d : QpConfigWireDescriptor)

/-- The descriptor of a text that could not be read. -/
def checkFailed : Except String Unit := do
  rejectIf (d.qpCount ≠ 0 ∨ d.sharedQp ≠ 0) "failed UDMA QP configuration must report zero QPs"
  forRules fun i => rejectIf (¬ (d.routeRules i).Empty) "failed UDMA QP configuration contains route data"

def checkProfile : Except String Unit :=
  if d.sharedQp ≠ 0 then do
    rejectIf (d.qpCount ≠ maxQpCount) "shared UDMA descriptor must contain the fixed 48-QP profile"
    forRules fun i => rejectIf (¬ SharedQpRouteMatchesProfile i (d.routeRules i))
      "shared UDMA descriptor route does not match the fixed profile"
  else .ok ()

def checkRule (legacy : Prop) [Decidable legacy] (i : Fin maxQpCount) : Except String Unit :=
  if i < d.qpCount.toNat then
    rejectIf (if legacy then ¬ (d.routeRules i).Empty else ¬ (d.routeRules i).Valid)
      "invalid active UDMA QP route rule"
  else rejectIf (¬ (d.routeRules i).Empty) "inactive UDMA QP route rule is not zero"

/-- `ValidateUDMAQpConfigWireDescriptor` -/
def validateWireDescriptor : Except String Unit := do
  rejectIf (d.version ≠ wireVersion) "unsupported UDMA QP configuration wire version"
  rejectIf (d.parseStatus ≠ QpConfigParseStatus.success.code ∧ d.parseStatus ≠ QpConfigParseStatus.invalid.code)
    "invalid UDMA QP configuration parse status"
  if d.parseStatus = QpConfigParseStatus.invalid.code then checkFailed d
  else do
    rejectIf (d.qpCount = 0 ∨ d.qpCount > maxQpCount) "UDMA QP configuration wire count is out of range"
    let legacy : Prop := (d.routeRules 0).Empty
    rejectIf (d.sharedQp > 1 ∨ (d.sharedQp ≠ 0 ∧ legacy)) "invalid shared UDMA QP configuration"
    rejectIf (legacy ∧ d.qpCount ≠ 1) "legacy UDMA QP configuration must use one QP"
    checkProfile d
    forRules (checkRule d legacy)

end Validate

def WireDescriptorsEqual (lhs rhs : QpConfigWireDescriptor) : Prop :=
  (lhs.version = rhs.version ∧ lhs.parseStatus = rhs.parseStatus ∧ lhs.qpCount = rhs.qpCount ∧
    lhs.sharedQp = rhs.sharedQp) ∧
  ∀ i, (lhs.routeRules i).selectorKind = (rhs.routeRules i).selectorKind ∧
    (lhs.routeRules i).selectorValue = (rhs.routeRules i).selectorValue

/-- The cast of a kind that has passed the validation. -/
def QpRouteSelector.ofCode (kind : U32) : QpRouteSelector :=
  if kind = QpRouteSelector.topology.code then .topology else .portCount

def QpRouteWireRule.toRule (rule : QpRouteWireRule) : QpRouteRule :=
  ⟨.ofCode rule.selectorKind, rule.selectorValue⟩

def QpConfigWireDescriptor.routes (d : QpConfigWireDescriptor) : List QpRouteRule :=
  ((List.finRange maxQpCount).take d.qpCount.toNat).map fun i => (d.routeRules i).toRule

/-- `UDMAQpConfigFromWireDescriptor`; a failed configuration gives no error text. -/
def configFromWireDescriptor (d : QpConfigWireDescriptor) : Except String QpConfig := do
  validateWireDescriptor d
  rejectIf (d.parseStatus ≠ QpConfigParseStatus.success.code) ""
  if (d.routeRules 0).selectorKind = 0 then .ok {}
  else .ok { explicitConfig := true, sharedQp := d.sharedQp ≠ 0, routes := d.routes }

/-! ## Loops and checks -/

theorem rejectIf_eq_ok {bad : Prop} [Decidable bad] : rejectIf bad error = .ok () ↔ ¬ bad := by
  unfold rejectIf
  split_ifs with h
  · simp [h]
  · simp [h]

theorem bind_eq_ok {α β : Type} {x : Except String α} {f : α → Except String β} {b : β} :
    x >>= f = .ok b ↔ ∃ a, x = .ok a ∧ f a = .ok b := by
  cases x with
  | error e => exact iff_of_false nofun fun ⟨_, h, _⟩ => nomatch h
  | ok a => exact ⟨fun h => ⟨a, rfl, h⟩, fun ⟨_, h, h'⟩ => Except.ok.inj h ▸ h'⟩

theorem map_eq_ok {α β : Type} {x : Except String α} {f : α → β} {b : β} :
    x.map f = .ok b ↔ ∃ a, x = .ok a ∧ f a = b := by
  cases x with
  | error e => exact iff_of_false nofun fun ⟨_, h, _⟩ => nomatch h
  | ok a => exact ⟨fun h => ⟨a, rfl, Except.ok.inj h⟩, fun ⟨_, h, h'⟩ => Except.ok.inj h ▸ congrArg _ h'⟩

theorem forM_eq_ok {α : Type} {l : List α} {f : α → Except String Unit} :
    l.forM f = .ok () ↔ ∀ a ∈ l, f a = .ok () := by
  induction l with
  | nil => exact iff_of_true rfl (by simp)
  | cons a l ih =>
    change (f a >>= fun _ => l.forM f) = .ok () ↔ _
    rw [bind_eq_ok, forall_mem_cons, ← ih]
    exact ⟨fun ⟨_, h⟩ => h, fun h => ⟨(), h⟩⟩

theorem forRules_eq_ok {check : Fin maxQpCount → Except String Unit} :
    forRules check = .ok () ↔ ∀ i, check i = .ok () := by
  rw [forRules, forM_eq_ok]
  exact ⟨fun h i => h i (mem_finRange i), fun h i _ => h i⟩

theorem reject_bind {bad : Prop} [Decidable bad] {next : Unit → Except String Unit} :
    rejectIf bad error >>= next = .ok () ↔ ¬ bad ∧ next () = .ok () := by
  rw [bind_eq_ok, ← rejectIf_eq_ok]
  exact ⟨fun ⟨_, h⟩ => h, fun h => ⟨(), h⟩⟩

/-! ## Configurations that can be sent -/

/-- What the parser returns, and the fixed profile. -/
structure QpConfig.WellFormed (config : QpConfig) : Prop where
  shared : config.sharedQp = true → config = buildSharedQpConfig
  explicit_iff : config.explicitConfig = true ↔ config.routes ≠ []
  length_le : config.routes.length ≤ maxQpCount
  rules : ∀ rule ∈ config.routes, rule.toWire.Valid

theorem toWire_valid_portCount {value : U32} (h : value ≠ 0) : (QpRouteRule.mk .portCount value).toWire.Valid :=
  ⟨.inr rfl, (if_neg (by decide : (2 : U32) ≠ 1)).mpr h⟩

theorem parseRule_valid {text : List Char} {rule : QpRouteRule} (h : parseRule text = .ok rule) :
    rule.toWire.Valid := by
  unfold parseRule at h
  split_ifs at h
  · cases h
    decide
  · split at h
    · cases h
    · next portCount hcount =>
      cases h
      unfold parsePositiveUint32 at hcount
      split_ifs at hcount
      obtain ⟨parsed, -, hparsed⟩ := Option.bind_eq_some_iff.1 hcount
      split_ifs at hparsed with hzero
      cases hparsed
      exact toWire_valid_portCount hzero

theorem appendRule_spec {routes out : List QpRouteRule} {piece : List Char} (h : appendRule routes piece = .ok out) :
    routes.length ≠ maxQpCount ∧ ∃ rule : QpRouteRule, rule.toWire.Valid ∧ out = routes ++ [rule] := by
  unfold appendRule at h
  split_ifs at h with _ hlength
  obtain ⟨rule, hrule, hout⟩ := map_eq_ok.1 h
  exact ⟨hlength, rule, parseRule_valid hrule, hout.symm⟩

theorem foldlM_appendRule {pieces : List (List Char)} {routes out : List QpRouteRule}
    (h : pieces.foldlM appendRule routes = .ok out) (hlength : routes.length ≤ maxQpCount)
    (hvalid : ∀ rule ∈ routes, rule.toWire.Valid) :
    routes.length + pieces.length = out.length ∧ out.length ≤ maxQpCount ∧ ∀ rule ∈ out, rule.toWire.Valid := by
  induction pieces generalizing routes with
  | nil =>
    obtain rfl := Except.ok.inj h
    exact ⟨rfl, hlength, hvalid⟩
  | cons piece pieces ih =>
    rw [foldlM_cons, bind_eq_ok] at h
    obtain ⟨next, hnext, h⟩ := h
    obtain ⟨hne, rule, hrule, rfl⟩ := appendRule_spec hnext
    obtain ⟨hsum, hrest⟩ := ih h (by rw [length_append, length_singleton]; omega) (by
      simp only [forall_mem_append, forall_mem_singleton]
      exact ⟨hvalid, hrule⟩)
    rw [length_append, length_singleton] at hsum
    exact ⟨by rw [length_cons]; omega, hrest⟩

theorem wellFormed_of_parse {spec : Option (List Char)} {config : QpConfig}
    (h : parseQpRouteSpec spec = .ok config) : config.WellFormed := by
  unfold parseQpRouteSpec at h
  dsimp only at h
  split_ifs at h
  · cases h
    exact ⟨nofun, by simp, Nat.zero_le _, by simp⟩
  · obtain ⟨routes, hroutes, rfl⟩ := map_eq_ok.1 h
    obtain ⟨hlength, hle, hrules⟩ := foldlM_appendRule hroutes (Nat.zero_le _) (by simp)
    -- a text has a piece more than commas
    have hpieces : 0 < ((trim (spec.getD [])).splitOn ',').length :=
      length_pos_of_ne_nil (splitOn_ne_nil _ _)
    have hne : routes ≠ [] := ne_nil_of_length_pos (by rw [← hlength, length_nil]; omega)
    exact ⟨nofun, iff_of_true rfl hne, hle, hrules⟩

/-! ## There and back -/

namespace QpRouteWireRule

theorem Valid.not_empty {rule : QpRouteWireRule} (h : rule.Valid) : ¬ rule.Empty := by
  rintro ⟨hkind, -⟩
  rcases h.1 with hk | hk
  · exact absurd (hkind.symm.trans hk) (by decide)
  · exact absurd (hkind.symm.trans hk) (by decide)

end QpRouteWireRule

theorem QpRouteRule.toRule_toWire (rule : QpRouteRule) : rule.toWire.toRule = rule := by
  obtain ⟨selector, value⟩ := rule
  cases selector <;> rfl

/-- The checks on the descriptor of a configuration that was read without an error. -/
structure QpConfigWireDescriptor.Checked (d : QpConfigWireDescriptor) : Prop where
  count : ¬ (d.qpCount = 0 ∨ d.qpCount > maxQpCount)
  shared : ¬ (d.sharedQp > 1 ∨ (d.sharedQp ≠ 0 ∧ (d.routeRules 0).Empty))
  legacy : ¬ ((d.routeRules 0).Empty ∧ d.qpCount ≠ 1)
  profile : d.sharedQp ≠ 0 → d.qpCount = maxQpCount ∧
    ∀ i : Fin maxQpCount, SharedQpRouteMatchesProfile i (d.routeRules i)
  rules : ∀ i : Fin maxQpCount, if i < d.qpCount.toNat then
      if (d.routeRules 0).Empty then (d.routeRules i).Empty else (d.routeRules i).Valid
    else (d.routeRules i).Empty

theorem validateWireDescriptor_eq_ok {d : QpConfigWireDescriptor} (hversion : d.version = wireVersion)
    (hstatus : d.parseStatus = QpConfigParseStatus.success.code) : validateWireDescriptor d = .ok () ↔ d.Checked := by
  have hprofile : checkProfile d = .ok () ↔
      (d.sharedQp ≠ 0 → d.qpCount = maxQpCount ∧
        ∀ i : Fin maxQpCount, SharedQpRouteMatchesProfile i (d.routeRules i)) := by
    unfold checkProfile
    split_ifs with hshared
    · simp only [reject_bind, forRules_eq_ok, rejectIf_eq_ok, not_not, hshared, ne_eq, not_false_iff, true_imp_iff]
    · exact iff_of_true rfl fun h => absurd h hshared
  have hrule (i : Fin maxQpCount) : checkRule d (d.routeRules 0).Empty i = .ok () ↔
      if i < d.qpCount.toNat then
        if (d.routeRules 0).Empty then (d.routeRules i).Empty else (d.routeRules i).Valid
      else (d.routeRules i).Empty := by
    unfold checkRule
    split_ifs <;> simp only [rejectIf_eq_ok, not_not]
  unfold validateWireDescriptor
  rw [reject_bind, reject_bind, if_neg (by rw [hstatus]; decide), reject_bind]
  dsimp only
  rw [reject_bind, reject_bind, bind_eq_ok]
  simp only [forRules_eq_ok, hrule]
  constructor
  · rintro ⟨-, -, hcount, hshared, hlegacy, ⟨⟩, hp, hrules⟩
    exact ⟨hcount, hshared, hlegacy, hprofile.1 hp, hrules⟩
  · rintro ⟨hcount, hshared, hlegacy, hp, hrules⟩
    exact ⟨not_not.2 hversion, fun h => h.1 hstatus, hcount, hshared, hlegacy, (), hprofile.2 hp, hrules⟩

theorem configFromWireDescriptor_eq {d : QpConfigWireDescriptor} (hversion : d.version = wireVersion)
    (hstatus : d.parseStatus = QpConfigParseStatus.success.code) (h : d.Checked) :
    configFromWireDescriptor d = .ok (if (d.routeRules 0).selectorKind = 0 then {}
      else { explicitConfig := true, sharedQp := d.sharedQp ≠ 0, routes := d.routes }) := by
  unfold configFromWireDescriptor
  rw [(validateWireDescriptor_eq_ok hversion hstatus).2 h, rejectIf, if_neg (not_not.2 hstatus)]
  change (if _ then _ else _) = _
  split_ifs <;> rfl

theorem QpConfig.wireRule_of_lt {config : QpConfig} (h : qp < config.routes.length) :
    config.wireRule qp = config.routes[qp].toWire := by
  rw [wireRule, List.getElem?_eq_getElem h]
  rfl

theorem QpConfig.wireRule_of_ge {config : QpConfig} (h : config.routes.length ≤ qp) : (config.wireRule qp).Empty := by
  rw [wireRule, List.getElem?_eq_none h]
  exact ⟨rfl, rfl⟩

namespace QpConfigWireDescriptor
variable {d : QpConfigWireDescriptor}

theorem length_routes (h : d.qpCount.toNat ≤ maxQpCount) : d.routes.length = d.qpCount.toNat := by
  simpa [routes] using h

theorem getElem_routes (hqp : qp < d.routes.length) (hlt : qp < maxQpCount) :
    d.routes[qp] = (d.routeRules ⟨qp, hlt⟩).toRule := by
  simp [routes]

end QpConfigWireDescriptor

namespace QpConfig.WellFormed
variable {config : QpConfig} (h : config.WellFormed)
include h

theorem eq_legacy (hexplicit : config.explicitConfig = false) : config = {} := by
  obtain ⟨explicitConfig, sharedQp, routes⟩ := config
  obtain rfl : explicitConfig = false := hexplicit
  have hroutes : routes = [] := by
    by_contra hne
    exact absurd (h.explicit_iff.2 hne) (by simp)
  cases sharedQp with
  | false => rw [hroutes]
  | true => exact nomatch congrArg QpConfig.explicitConfig (h.shared rfl)

theorem rule_valid (hqp : qp < config.routes.length) : (config.wireRule qp).Valid := by
  rw [wireRule_of_lt hqp]
  exact h.rules _ (getElem_mem hqp)

variable (hexplicit : config.explicitConfig = true)
include hexplicit

theorem length_pos : 0 < config.routes.length := length_pos_of_ne_nil (h.explicit_iff.1 hexplicit)

theorem qpCount_toNat : (qpConfigQpCount config).toNat = config.routes.length := by
  have hle := h.length_le
  unfold maxQpCount at hle
  rw [qpConfigQpCount, hexplicit, if_neg (by decide), if_neg, BitVec.toNat_ofNat, Nat.mod_eq_of_lt (by omega)]
  exact not_or.2 ⟨h.explicit_iff.1 hexplicit, not_lt.2 h.length_le⟩

theorem build_eq : buildWireDescriptor config .success = {
    qpCount := qpConfigQpCount config
    sharedQp := if config.sharedQp then 1 else 0
    routeRules := fun i => config.wireRule i } := by
  have hcount : qpConfigQpCount config ≠ 0 := by
    intro hzero
    have hlength := h.qpCount_toNat hexplicit
    rw [hzero] at hlength
    exact absurd hlength (h.length_pos hexplicit).ne
  unfold buildWireDescriptor
  exact if_neg (not_or.2 ⟨by simp [hexplicit], hcount⟩)

theorem first_not_empty : ¬ (config.wireRule 0).Empty :=
  (h.rule_valid (h.length_pos hexplicit)).not_empty

theorem checked_explicit : (buildWireDescriptor config .success).Checked := by
  have hcount := h.qpCount_toNat hexplicit
  have hpos := h.length_pos hexplicit
  have hle := h.length_le
  have hfirst := h.first_not_empty hexplicit
  rw [h.build_eq hexplicit]
  refine ⟨?_, ?_, fun hlegacy => hfirst hlegacy.1, fun hshared => ?_, fun i => ?_⟩
  · show ¬ (qpConfigQpCount config = 0 ∨ qpConfigQpCount config > BitVec.ofNat 32 48)
    unfold maxQpCount at hle
    rintro (hzero | hgt)
    · rw [hzero] at hcount
      exact hpos.ne hcount
    · rw [gt_iff_lt, BitVec.lt_def, hcount] at hgt
      exact absurd hgt (not_lt.2 hle)
  · rintro (hgt | hlegacy)
    · revert hgt
      show ¬ ((if config.sharedQp then 1 else 0 : U32) > 1)
      split_ifs <;> decide
    · exact hfirst hlegacy.2
  · have hbool : config.sharedQp = true := by
      by_contra hfalse
      exact hshared (if_neg hfalse)
    rw [h.shared hbool]
    exact ⟨by decide, by decide⟩
  · show if (i : ℕ) < (qpConfigQpCount config).toNat then
        if (config.wireRule 0).Empty then (config.wireRule i).Empty else (config.wireRule i).Valid
      else (config.wireRule i).Empty
    rw [hcount, if_neg hfirst]
    split_ifs with hi
    · exact h.rule_valid hi
    · exact wireRule_of_ge (not_lt.1 hi)

end QpConfig.WellFormed

theorem QpConfig.WellFormed.checked {config : QpConfig} (h : config.WellFormed) :
    (buildWireDescriptor config .success).Checked := by
  cases hexplicit : config.explicitConfig with
  | true => exact h.checked_explicit hexplicit
  | false =>
    rw [h.eq_legacy hexplicit]
    exact ⟨by decide, by decide, by decide, by decide, by decide⟩

theorem build_version (config : QpConfig) : (buildWireDescriptor config .success).version = wireVersion := by
  unfold buildWireDescriptor
  dsimp only
  split_ifs <;> rfl

theorem build_parseStatus (config : QpConfig) :
    (buildWireDescriptor config .success).parseStatus = QpConfigParseStatus.success.code := by
  unfold buildWireDescriptor
  dsimp only
  split_ifs <;> rfl

theorem QpConfig.WellFormed.roundTrip {config : QpConfig} (h : config.WellFormed) :
    configFromWireDescriptor (buildWireDescriptor config .success) = .ok config := by
  rw [configFromWireDescriptor_eq (build_version _) (build_parseStatus _) h.checked]
  cases hexplicit : config.explicitConfig with
  | false =>
    rw [h.eq_legacy hexplicit]
    rfl
  | true =>
    have hkind : (config.wireRule 0).selectorKind ≠ 0 := by
      rcases (h.rule_valid (h.length_pos hexplicit)).1 with hk | hk
      · rw [hk]
        decide
      · rw [hk]
        decide
    have hcount := h.qpCount_toNat hexplicit
    have hroutes : (buildWireDescriptor config .success).routes = config.routes := by
      rw [h.build_eq hexplicit]
      refine ext_getElem ?_ fun qp hqp hqp' => ?_
      · exact (QpConfigWireDescriptor.length_routes (hcount.trans_le h.length_le)).trans hcount
      · rw [QpConfigWireDescriptor.getElem_routes hqp (hqp'.trans_le h.length_le)]
        exact (congrArg QpRouteWireRule.toRule (wireRule_of_lt hqp')).trans (QpRouteRule.toRule_toWire _)
    rw [hroutes, h.build_eq hexplicit]
    change Except.ok (if (config.wireRule 0).selectorKind = 0 then _ else _) = _
    rw [if_neg hkind]
    obtain ⟨explicitConfig, sharedQp, routes⟩ := config
    obtain rfl : explicitConfig = true := hexplicit
    cases sharedQp <;> rfl

theorem wireDescriptorsEqual_iff {lhs rhs : QpConfigWireDescriptor} : WireDescriptorsEqual lhs rhs ↔ lhs = rhs := by
  constructor
  · obtain ⟨version, parseStatus, qpCount, sharedQp, routeRules⟩ := lhs
    obtain ⟨version', parseStatus', qpCount', sharedQp', routeRules'⟩ := rhs
    rintro ⟨⟨rfl, rfl, rfl, rfl⟩, hrules⟩
    have hsame : routeRules = routeRules' := funext fun i => by
      obtain ⟨hkind, hvalue⟩ := hrules i
      cases hl : routeRules i
      cases hr : routeRules' i
      simp_all
    rw [hsame]
  · rintro rfl
    exact ⟨⟨rfl, rfl, rfl, rfl⟩, fun _ => ⟨rfl, rfl⟩⟩

/-- The descriptor of an accepted text is valid and decoded to what was parsed, and two accepted texts have
the same descriptor exactly when they have the same configuration. -/
theorem route_spec_survives_wire {spec spec' : Option (List Char)} {config config' : QpConfig}
    (h : parseQpRouteSpec spec = .ok config) (h' : parseQpRouteSpec spec' = .ok config') :
    validateWireDescriptor (buildWireDescriptor config .success) = .ok () ∧
    configFromWireDescriptor (buildWireDescriptor config .success) = .ok config ∧
    (WireDescriptorsEqual (buildWireDescriptor config .success) (buildWireDescriptor config' .success) ↔
      config = config') := by
  have hconfig := wellFormed_of_parse h
  refine ⟨(validateWireDescriptor_eq_ok (build_version _) (build_parseStatus _)).2 hconfig.checked,
    hconfig.roundTrip, ?_⟩
  rw [wireDescriptorsEqual_iff]
  refine ⟨fun heq => ?_, fun heq => by rw [heq]⟩
  have hback := hconfig.roundTrip
  rw [heq, (wellFormed_of_parse h').roundTrip] at hback
  exact (Except.ok.inj hback).symm

theorem route_spec_survives_wire_threeRules :
    ∃ config, parseQpRouteSpec (some " port_count:6,topology , port_count:0002".toList) = .ok config ∧
      config.routes = [⟨.portCount, 6⟩, ⟨.topology, 0⟩, ⟨.portCount, 2⟩] ∧
      configFromWireDescriptor (buildWireDescriptor config .success) = .ok config :=
  ⟨_, rfl, by decide, (route_spec_survives_wire
    (rfl : parseQpRouteSpec (some " port_count:6,topology , port_count:0002".toList) = .ok _)
    (rfl : parseQpRouteSpec none = .ok _)).2.1⟩

end TileXR.UdmaConfig
