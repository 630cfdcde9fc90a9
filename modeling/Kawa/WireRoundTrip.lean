import Kawa.Archive
import Kawa.CodecRoundTrip
import Kawa.EmitProgress

/-!
Wire documents as they are received: untyped envelopes, and payload text that is parsed and
validated into the typed payloads.  What `to_wire` ships reads back, and an accepted document
cannot be altered under its identity.
-/

namespace Kawa

/-! ## Validation -/

/-- The lax conversions of the validation library, on what `json.loads` gives. -/
structure Coercions where
  int : Json → Option Int
  float : Json → Option Json.Double
  bool : Json → Option Bool

/-- A value of the type is taken as it is, a truth value is 0 or 1, and no array or object
converts to an integer. -/
structure Coercions.Lawful (coercions : Coercions) : Prop where
  int : ∀ value, coercions.int (.int value) = some value
  float : ∀ value, coercions.float (.float value) = some value
  bool : ∀ value, coercions.bool (.bool value) = some value
  intBool : ∀ value read, coercions.int (.bool value) = some read → read = if value then 1 else 0
  intArr : ∀ items, coercions.int (.arr items) = none
  intObj : ∀ members, coercions.int (.obj members) = none

/-- Conversions that take the values of the type and no others. -/
def Coercions.strict : Coercions where
  int
    | .int value => some value
    | _ => none
  float
    | .float value => some value
    | _ => none
  bool
    | .bool value => some value
    | _ => none

theorem Coercions.strict_lawful : Coercions.strict.Lawful where
  int _ := rfl
  float _ := rfl
  bool _ := rfl
  intBool _ _ read := by cases read
  intArr _ := rfl
  intObj _ := rfl

/-- The members of an object that is being validated, by key. -/
abbrev Fields := String → Option Json

section Fields

variable {α : Type}

/-- A field that must be there. -/
def required (held : Option Json) (read : Json → Option α) : Option α := held.bind read

/-- `T | None`. -/
def nullable (read : Json → Option α) : Json → Option (Option α)
  | .null => some none
  | value => (read value).map some

/-- A field `T | None = None`. -/
def optional (held : Option Json) (read : Json → Option α) : Option (Option α) :=
  match held with
  | none => some none
  | some value => nullable read value

def defaulted (held : Option Json) (default : α) (read : Json → Option α) : Option α :=
  match held with
  | none => some default
  | some value => read value

/-- One of the listed members of an enumeration, by its value. -/
def literal (all : List α) (text : α → String) : Json → Option α
  | .str found => all.find? (text · = found)
  | _ => none

def textItems : Json → Option (List String)
  | .arr items => items.mapM textOf?
  | _ => none

end Fields

def EventKind.all : List EventKind :=
  [planCreated, planLifecycleChanged, workDerived, workDependencyDeclared, resultRecorded,
    linkAsserted, observationRecorded, claimRecorded, workRetired, authorityConfiguration,
    authorityReceipt]

def Lifecycle.all : List Lifecycle := [draft, reviewing, ready, running, blocked, ended]

def EndReason.all : List EndReason := [completed, cancelled, failed, superseded]

def RetireReason.all : List RetireReason := [superseded, cancelled, obsolete]

def SatisfactionPolicy.every : List SatisfactionPolicy := [all, any]

def Outcome.all : List Outcome := [success, failure, conflicted, executionUnknown]

def Relation.all : List Relation :=
  [supports, contradicts, basedOn, reasonFor, addresses, reviews, corrects, resolves, supersedes,
    causedBy, satisfies]

def ObservationMethod.all : List ObservationMethod :=
  [commandExit, httpProbe, fileDigest, apiFetch, metricRead, manualHuman]

/-- The fields of each payload model, which forbids others. -/
def EventKind.fields : EventKind → List String
  | planCreated => ["kind", "plan_ref", "project_ref", "objective", "rationale", "lifecycle",
      "scope", "constraints", "expected_observations", "domain"]
  | planLifecycleChanged => ["kind", "plan_ref", "lifecycle", "end_reason"]
  | workDerived => ["kind", "work_ref", "plan_ref", "work_kind", "role_requirement",
      "subject_ref", "objective", "constraints", "expected_observations", "domain"]
  | workDependencyDeclared => ["kind", "work_ref", "dependency_work_ref", "satisfaction_policy"]
  | resultRecorded => ["kind", "work_ref", "outcome", "result_ref", "summary", "occurrence_key"]
  | linkAsserted => ["kind", "source_ref", "relation", "target_ref"]
  | observationRecorded => ["kind", "predicate", "value_text", "value_number", "value_bool",
      "value_time", "observation_method_class", "occurred_at", "source_ref", "source_revision",
      "content_digest", "fetched_at"]
  | claimRecorded => ["kind", "proposition", "basis_note"]
  | workRetired => ["kind", "work_ref", "reason", "note"]
  | authorityConfiguration => ["kind", "authority_key", "configuration_digest",
      "authority_epoch", "members", "quorum", "prior_configuration_digest", "succession_proof"]
  | authorityReceipt => ["kind", "authority_key", "operation_digest", "configuration_digest",
      "authority_epoch", "prior_authority_receipt_digest", "policy_digest", "quorum_proof"]

def readPlanCreated (fields : Fields) : Option PlanCreated := do
  let planRef ← required (fields "plan_ref") textOf?
  let projectRef ← required (fields "project_ref") textOf?
  let objective ← required (fields "objective") textOf?
  let rationale ← optional (fields "rationale") textOf?
  let lifecycle ← defaulted (fields "lifecycle") .draft (literal Lifecycle.all Lifecycle.value)
  let scope ← optional (fields "scope") textOf?
  let constraints ← optional (fields "constraints") textItems
  let expectedObservations ← optional (fields "expected_observations") textItems
  let domain ← optional (fields "domain") textOf?
  return {
    planRef := planRef
    projectRef := projectRef
    objective := objective
    rationale := rationale
    lifecycle := lifecycle
    scope := scope
    constraints := constraints
    expectedObservations := expectedObservations
    domain := domain }

def readPlanLifecycleChanged (fields : Fields) : Option PlanLifecycleChanged := do
  let planRef ← required (fields "plan_ref") textOf?
  let lifecycle ← required (fields "lifecycle") (literal Lifecycle.all Lifecycle.value)
  let endReason ← optional (fields "end_reason") (literal EndReason.all EndReason.value)
  return { planRef := planRef, lifecycle := lifecycle, endReason := endReason }

def readWorkDerived (fields : Fields) : Option WorkDerived := do
  let workRef ← required (fields "work_ref") textOf?
  let planRef ← required (fields "plan_ref") textOf?
  let workKind ← required (fields "work_kind") textOf?
  let roleRequirement ← optional (fields "role_requirement") textOf?
  let subjectRef ← optional (fields "subject_ref") textOf?
  let objective ← optional (fields "objective") textOf?
  let constraints ← optional (fields "constraints") textItems
  let expectedObservations ← optional (fields "expected_observations") textItems
  let domain ← optional (fields "domain") textOf?
  return {
    workRef := workRef
    planRef := planRef
    workKind := workKind
    roleRequirement := roleRequirement
    subjectRef := subjectRef
    objective := objective
    constraints := constraints
    expectedObservations := expectedObservations
    domain := domain }

def readWorkDependencyDeclared (fields : Fields) : Option WorkDependencyDeclared := do
  let workRef ← required (fields "work_ref") textOf?
  let dependencyWorkRef ← required (fields "dependency_work_ref") textOf?
  let satisfactionPolicy ← defaulted (fields "satisfaction_policy") .all
    (literal SatisfactionPolicy.every SatisfactionPolicy.value)
  return {
    workRef := workRef
    dependencyWorkRef := dependencyWorkRef
    satisfactionPolicy := satisfactionPolicy }

def readResultRecorded (fields : Fields) : Option ResultRecorded := do
  let workRef ← required (fields "work_ref") textOf?
  let outcome ← required (fields "outcome") (literal Outcome.all Outcome.value)
  let resultRef ← required (fields "result_ref") textOf?
  let summary ← optional (fields "summary") textOf?
  let occurrenceKey ← optional (fields "occurrence_key") textOf?
  return {
    workRef := workRef
    outcome := outcome
    resultRef := resultRef
    summary := summary
    occurrenceKey := occurrenceKey }

def readLinkAsserted (fields : Fields) : Option LinkAsserted := do
  let sourceRef ← required (fields "source_ref") textOf?
  let relation ← required (fields "relation") (literal Relation.all Relation.value)
  let targetRef ← required (fields "target_ref") textOf?
  if noSelfLink : sourceRef ≠ targetRef then
    return {
      sourceRef := sourceRef
      relation := relation
      targetRef := targetRef
      noSelfLink := noSelfLink }
  else none

/-- Exactly one of the four values is set. -/
def oneValue : Option String → Option Json.Double → Option Bool → Option String →
    Option ObservedValue
  | some value, none, none, none => some (.text value)
  | none, some value, none, none => some (.number value)
  | none, none, some value, none => some (.bool value)
  | none, none, none, some value => some (.time value)
  | _, _, _, _ => none

/-- The source fields are all unset, or hold the coherent tuple. -/
def coherentSource : Option String → Option String → Option String → Option String →
    Option (Option SourceBinding)
  | some sourceRef, sourceRevision, some contentDigest, some fetchedAt =>
      some (some {
        sourceRef := sourceRef
        sourceRevision := sourceRevision
        contentDigest := contentDigest
        fetchedAt := fetchedAt })
  | none, none, none, none => some none
  | _, _, _, _ => none

def readObservationRecorded (coercions : Coercions) (fields : Fields) :
    Option ObservationRecorded := do
  let predicate ← required (fields "predicate") textOf?
  let valueText ← optional (fields "value_text") textOf?
  let valueNumber ← optional (fields "value_number") coercions.float
  let valueBool ← optional (fields "value_bool") coercions.bool
  let valueTime ← optional (fields "value_time") textOf?
  let observationMethodClass ← required (fields "observation_method_class")
    (literal ObservationMethod.all ObservationMethod.value)
  let occurredAt ← optional (fields "occurred_at") textOf?
  let sourceRef ← optional (fields "source_ref") textOf?
  let sourceRevision ← optional (fields "source_revision") textOf?
  let contentDigest ← optional (fields "content_digest") textOf?
  let fetchedAt ← optional (fields "fetched_at") textOf?
  let value ← oneValue valueText valueNumber valueBool valueTime
  let source ← coherentSource sourceRef sourceRevision contentDigest fetchedAt
  return {
    predicate := predicate
    value := value
    observationMethodClass := observationMethodClass
    occurredAt := occurredAt
    source := source }

def readClaimRecorded (fields : Fields) : Option ClaimRecorded := do
  let proposition ← required (fields "proposition") textOf?
  let basisNote ← optional (fields "basis_note") textOf?
  return { proposition := proposition, basisNote := basisNote }

def readWorkRetired (fields : Fields) : Option WorkRetired := do
  let workRef ← required (fields "work_ref") textOf?
  let reason ← required (fields "reason") (literal RetireReason.all RetireReason.value)
  let note ← optional (fields "note") textOf?
  return { workRef := workRef, reason := reason, note := note }

def readAuthorityConfiguration (coercions : Coercions) (fields : Fields) :
    Option AuthorityConfiguration := do
  let authorityKey ← required (fields "authority_key") textOf?
  let configurationDigest ← required (fields "configuration_digest") textOf?
  let authorityEpoch ← required (fields "authority_epoch") coercions.int
  let members ← required (fields "members") textItems
  let quorum ← required (fields "quorum") coercions.int
  let priorConfigurationDigest ← optional (fields "prior_configuration_digest") textOf?
  let successionProof ← optional (fields "succession_proof") textOf?
  if uniqueMembers : members.Nodup then
    return {
      authorityKey := authorityKey
      configurationDigest := configurationDigest
      authorityEpoch := authorityEpoch
      members := members
      quorum := quorum
      priorConfigurationDigest := priorConfigurationDigest
      successionProof := successionProof
      uniqueMembers := uniqueMembers }
  else none

def readAuthorityReceipt (coercions : Coercions) (fields : Fields) : Option AuthorityReceipt := do
  let authorityKey ← required (fields "authority_key") textOf?
  let operationDigest ← required (fields "operation_digest") textOf?
  let configurationDigest ← required (fields "configuration_digest") textOf?
  let authorityEpoch ← required (fields "authority_epoch") coercions.int
  let priorAuthorityReceiptDigest ← optional (fields "prior_authority_receipt_digest") textOf?
  let policyDigest ← optional (fields "policy_digest") textOf?
  let quorumProof ← defaulted (fields "quorum_proof") "" textOf?
  return {
    authorityKey := authorityKey
    operationDigest := operationDigest
    configurationDigest := configurationDigest
    authorityEpoch := authorityEpoch
    priorAuthorityReceiptDigest := priorAuthorityReceiptDigest
    policyDigest := policyDigest
    quorumProof := quorumProof }

/-- The payload model that the discriminator names. -/
def readOfKind (coercions : Coercions) (fields : Fields) : EventKind → Option Payload
  | .planCreated => (readPlanCreated fields).map .planCreated
  | .planLifecycleChanged => (readPlanLifecycleChanged fields).map .planLifecycleChanged
  | .workDerived => (readWorkDerived fields).map .workDerived
  | .workDependencyDeclared => (readWorkDependencyDeclared fields).map .workDependencyDeclared
  | .resultRecorded => (readResultRecorded fields).map .resultRecorded
  | .linkAsserted => (readLinkAsserted fields).map .linkAsserted
  | .observationRecorded => (readObservationRecorded coercions fields).map .observationRecorded
  | .claimRecorded => (readClaimRecorded fields).map .claimRecorded
  | .workRetired => (readWorkRetired fields).map .workRetired
  | .authorityConfiguration =>
      (readAuthorityConfiguration coercions fields).map .authorityConfiguration
  | .authorityReceipt => (readAuthorityReceipt coercions fields).map .authorityReceipt

/-- `_PAYLOAD.validate_python(json.loads(text))`. -/
def readPayload (platform : Platform) (coercions : Coercions) (text : String) : Option Payload :=
  match Json.loads platform.readFloat text with
  | some (.obj members) => do
      let kind ← required (Dict.get? members "kind") (literal EventKind.all EventKind.value)
      if members.all fun member => kind.fields.contains member.1 then
        readOfKind coercions (Dict.get? members) kind
      else none
  | _ => none

/-! ## A payload reads back from its dump -/

section Fields

variable {α : Type}

@[simp] theorem required_some (value : Json) (read : Json → Option α) :
    required (some value) read = read value := rfl

@[simp] theorem optional_some (value : Json) (read : Json → Option α) :
    optional (some value) read = nullable read value := rfl

@[simp] theorem defaulted_some (value : Json) (default : α) (read : Json → Option α) :
    defaulted (some value) default read = read value := rfl

@[simp] theorem textOf?_str (text : String) : textOf? (.str text) = some text := rfl

@[simp] theorem nullable_optionalText (value : Option String) :
    nullable textOf? (optionalText value) = some value := by
  cases value <;> rfl

@[simp] theorem textItems_textList (items : List String) :
    textItems (textList items) = some items := by
  induction items with
  | nil => rfl
  | cons item items ih =>
      simp only [textItems, textList, List.map_cons, List.mapM_cons, textOf?] at ih ⊢
      rw [ih]
      rfl

/-- A text that is dumped only when it is set. -/
@[simp] theorem optional_text (value : Option String) :
    optional (value.map .str) textOf? = some value := by
  cases value <;> rfl

@[simp] theorem optional_items (value : Option (List String)) :
    optional (value.map textList) textItems = some value := by
  cases value with
  | none => rfl
  | some items =>
      change (textItems (textList items)).map some = _
      rw [textItems_textList]
      rfl

/-- A literal field reads back, when the enumeration lists it and its values are distinct. -/
theorem literal_value {all : List α} {text : α → String} {value : α} (listed : value ∈ all)
    (injective : Function.Injective text) : literal all text (.str (text value)) = some value := by
  change all.find? (text · = text value) = some value
  cases found : all.find? (text · = text value) with
  | none =>
      have absent := List.find?_eq_none.mp found value listed
      simp at absent
  | some other =>
      have same := List.find?_some found
      rw [injective (of_decide_eq_true same)]

theorem get?_append (front back : Dict String Json) (key : String) :
    Dict.get? (front ++ back) key = (Dict.get? front key).or (Dict.get? back key) := by
  induction front with
  | nil => simp
  | cons member front ih =>
      obtain ⟨other, value⟩ := member
      rw [List.cons_append, Dict.get?_cons, Dict.get?_cons, ih]
      split <;> rfl

theorem get?_setOnly (name key : String) (value : Option Json) :
    Dict.get? (setOnly name value) key = if name = key then value else none := by
  cases value with
  | none => simp [setOnly]
  | some value => simp [setOnly, Dict.get?_cons]

end Fields

@[simp] theorem literal_kind (kind : EventKind) :
    literal EventKind.all EventKind.value (.str kind.value) = some kind :=
  literal_value (by cases kind <;> decide) EventKind.value_injective

@[simp] theorem literal_lifecycle (lifecycle : Lifecycle) :
    literal Lifecycle.all Lifecycle.value (.str lifecycle.value) = some lifecycle := by
  cases lifecycle <;> rfl

@[simp] theorem literal_endReason (reason : Option EndReason) :
    nullable (literal EndReason.all EndReason.value) (optionalText (reason.map EndReason.value)) =
      some reason := by
  cases reason with
  | none => rfl
  | some reason => cases reason <;> rfl

@[simp] theorem literal_retireReason (reason : RetireReason) :
    literal RetireReason.all RetireReason.value (.str reason.value) = some reason := by
  cases reason <;> rfl

@[simp] theorem literal_policy (policy : SatisfactionPolicy) :
    literal SatisfactionPolicy.every SatisfactionPolicy.value (.str policy.value) =
      some policy := by
  cases policy <;> rfl

@[simp] theorem literal_outcome (outcome : Outcome) :
    literal Outcome.all Outcome.value (.str outcome.value) = some outcome := by
  cases outcome <;> rfl

@[simp] theorem literal_relation (relation : Relation) :
    literal Relation.all Relation.value (.str relation.value) = some relation := by
  cases relation <;> rfl

@[simp] theorem literal_method (method : ObservationMethod) :
    literal ObservationMethod.all ObservationMethod.value (.str method.value) = some method := by
  cases method <;> rfl

theorem readPlanCreated_dump (p : PlanCreated) : readPlanCreated (Dict.get? p.dump) = some p := by
  simp [readPlanCreated, PlanCreated.dump, get?_append, get?_setOnly, Dict.get?_cons]

theorem readPlanLifecycleChanged_dump (p : PlanLifecycleChanged) :
    readPlanLifecycleChanged (Dict.get? p.dump) = some p := by
  simp [readPlanLifecycleChanged, PlanLifecycleChanged.dump, Dict.get?_cons]

theorem readWorkDerived_dump (p : WorkDerived) : readWorkDerived (Dict.get? p.dump) = some p := by
  simp [readWorkDerived, WorkDerived.dump, get?_append, get?_setOnly, Dict.get?_cons]

theorem readWorkDependencyDeclared_dump (p : WorkDependencyDeclared) :
    readWorkDependencyDeclared (Dict.get? p.dump) = some p := by
  simp [readWorkDependencyDeclared, WorkDependencyDeclared.dump, Dict.get?_cons]

theorem readResultRecorded_dump (p : ResultRecorded) :
    readResultRecorded (Dict.get? p.dump) = some p := by
  simp [readResultRecorded, ResultRecorded.dump, get?_setOnly, Dict.get?_cons]

theorem readLinkAsserted_dump (p : LinkAsserted) :
    readLinkAsserted (Dict.get? p.dump) = some p := by
  simp [readLinkAsserted, LinkAsserted.dump, Dict.get?_cons, p.noSelfLink]

theorem readClaimRecorded_dump (p : ClaimRecorded) :
    readClaimRecorded (Dict.get? p.dump) = some p := by
  simp [readClaimRecorded, ClaimRecorded.dump, Dict.get?_cons]

theorem readWorkRetired_dump (p : WorkRetired) : readWorkRetired (Dict.get? p.dump) = some p := by
  simp [readWorkRetired, WorkRetired.dump, Dict.get?_cons]

theorem oneValue_dump (p : ObservationRecorded) :
    oneValue p.valueText p.valueNumber p.valueBool p.valueTime = some p.value := by
  obtain ⟨predicate, value, method, occurredAt, source⟩ := p
  cases value <;> rfl

theorem coherentSource_dump (p : ObservationRecorded) :
    coherentSource p.sourceRef p.sourceRevision p.contentDigest p.fetchedAt = some p.source := by
  obtain ⟨predicate, value, method, occurredAt, source⟩ := p
  cases source <;> rfl

section Coerced

variable {coercions : Coercions} (lawful : coercions.Lawful)

include lawful

theorem nullable_float (value : Option Json.Double) :
    nullable coercions.float (value.elim .null .float) = some value := by
  cases value with
  | none => rfl
  | some value =>
      change (coercions.float (.float value)).map some = _
      rw [lawful.float]
      rfl

theorem nullable_bool (value : Option Bool) :
    nullable coercions.bool (value.elim .null .bool) = some value := by
  cases value with
  | none => rfl
  | some value =>
      change (coercions.bool (.bool value)).map some = _
      rw [lawful.bool]
      rfl

theorem readObservationRecorded_dump (p : ObservationRecorded) :
    readObservationRecorded coercions (Dict.get? p.dump) = some p := by
  simp [readObservationRecorded, ObservationRecorded.dump, Dict.get?_cons, nullable_float lawful,
    nullable_bool lawful]
  rw [oneValue_dump, coherentSource_dump]
  rfl

theorem readAuthorityConfiguration_dump (p : AuthorityConfiguration) :
    readAuthorityConfiguration coercions (Dict.get? p.dump) = some p := by
  simp [readAuthorityConfiguration, AuthorityConfiguration.dump, Dict.get?_cons, lawful.int,
    p.uniqueMembers]

theorem readAuthorityReceipt_dump (p : AuthorityReceipt) :
    readAuthorityReceipt coercions (Dict.get? p.dump) = some p := by
  simp [readAuthorityReceipt, AuthorityReceipt.dump, Dict.get?_cons, lawful.int]

theorem readOfKind_dump (payload : Payload) :
    readOfKind coercions (Dict.get? payload.dump) payload.kind = some payload := by
  cases payload with
  | planCreated p => simp [readOfKind, Payload.dump, Payload.kind, readPlanCreated_dump]
  | planLifecycleChanged p =>
      simp [readOfKind, Payload.dump, Payload.kind, readPlanLifecycleChanged_dump]
  | workDerived p => simp [readOfKind, Payload.dump, Payload.kind, readWorkDerived_dump]
  | workDependencyDeclared p =>
      simp [readOfKind, Payload.dump, Payload.kind, readWorkDependencyDeclared_dump]
  | resultRecorded p => simp [readOfKind, Payload.dump, Payload.kind, readResultRecorded_dump]
  | linkAsserted p => simp [readOfKind, Payload.dump, Payload.kind, readLinkAsserted_dump]
  | observationRecorded p =>
      simp [readOfKind, Payload.dump, Payload.kind, readObservationRecorded_dump lawful]
  | claimRecorded p => simp [readOfKind, Payload.dump, Payload.kind, readClaimRecorded_dump]
  | workRetired p => simp [readOfKind, Payload.dump, Payload.kind, readWorkRetired_dump]
  | authorityConfiguration p =>
      simp [readOfKind, Payload.dump, Payload.kind, readAuthorityConfiguration_dump lawful]
  | authorityReceipt p =>
      simp [readOfKind, Payload.dump, Payload.kind, readAuthorityReceipt_dump lawful]

end Coerced

theorem dump_kind (payload : Payload) :
    Dict.get? payload.dump "kind" = some (.str payload.kind.value) := by
  cases payload <;> rfl

/-- A dump has only fields of its model. -/
theorem dump_keys (payload : Payload) : (payload.dump.map (·.1)).Sublist payload.kind.fields := by
  cases payload with
  | planCreated p =>
      simp only [Payload.dump, PlanCreated.dump, List.map_append, List.map_cons, List.map_nil]
      exact ((((List.Sublist.refl _).append (setOnly_keys _ _)).append
        (setOnly_keys _ _)).append (setOnly_keys _ _)).append (setOnly_keys _ _)
  | workDerived p =>
      simp only [Payload.dump, WorkDerived.dump, List.map_append, List.map_cons, List.map_nil]
      exact ((((List.Sublist.refl _).append (setOnly_keys _ _)).append
        (setOnly_keys _ _)).append (setOnly_keys _ _)).append (setOnly_keys _ _)
  | resultRecorded p =>
      simp only [Payload.dump, ResultRecorded.dump, List.map_append, List.map_cons, List.map_nil]
      exact (List.Sublist.refl _).append (setOnly_keys _ _)
  | _ => exact List.Sublist.refl _

theorem setOnly_sorted (key : String) {α : Type} (value : Option α) {print : α → Json}
    (stable : ∀ item, (print item).sortKeys = print item) :
    Json.sortMembers (setOnly key (value.map print)) = setOnly key (value.map print) := by
  cases value with
  | none => rfl
  | some item => simp [setOnly, Json.sortMembers, stable]

theorem sortMembers_append (front back : List (String × Json)) :
    Json.sortMembers (front ++ back) = Json.sortMembers front ++ Json.sortMembers back := by
  induction front with
  | nil => rfl
  | cons member front ih =>
      obtain ⟨key, value⟩ := member
      simp only [List.cons_append, Json.sortMembers, ih]

/-- Sorting the keys of a dump leaves its values as they are. -/
theorem dump_sorted (payload : Payload) : Json.sortMembers payload.dump = payload.dump := by
  have texts : ∀ text, (Json.str text).sortKeys = .str text := fun _ => rfl
  cases payload with
  | planCreated p =>
      simp only [Payload.dump, PlanCreated.dump, sortMembers_append, setOnly_sorted _ _ texts,
        setOnly_sorted _ _ textList_sortKeys]
      simp [Json.sortMembers, Json.sortKeys]
  | workDerived p =>
      simp only [Payload.dump, WorkDerived.dump, sortMembers_append, setOnly_sorted _ _ texts,
        setOnly_sorted _ _ textList_sortKeys]
      simp [Json.sortMembers, Json.sortKeys]
  | resultRecorded p =>
      simp only [Payload.dump, ResultRecorded.dump, sortMembers_append, setOnly_sorted _ _ texts]
      simp [Json.sortMembers, Json.sortKeys]
  | planLifecycleChanged p =>
      simp [Payload.dump, PlanLifecycleChanged.dump, Json.sortMembers, Json.sortKeys]
  | workDependencyDeclared p =>
      simp [Payload.dump, WorkDependencyDeclared.dump, Json.sortMembers, Json.sortKeys]
  | linkAsserted p => simp [Payload.dump, LinkAsserted.dump, Json.sortMembers, Json.sortKeys]
  | observationRecorded p =>
      have number : ∀ value : Option Json.Double,
          (value.elim Json.null .float).sortKeys = value.elim .null .float := by
        intro value
        cases value <;> rfl
      have bool : ∀ value : Option Bool,
          (value.elim Json.null .bool).sortKeys = value.elim .null .bool := by
        intro value
        cases value <;> rfl
      simp [Payload.dump, ObservationRecorded.dump, Json.sortMembers, Json.sortKeys, number, bool]
  | claimRecorded p => simp [Payload.dump, ClaimRecorded.dump, Json.sortMembers, Json.sortKeys]
  | workRetired p => simp [Payload.dump, WorkRetired.dump, Json.sortMembers, Json.sortKeys]
  | authorityConfiguration p =>
      simp [Payload.dump, AuthorityConfiguration.dump, Json.sortMembers, Json.sortKeys]
  | authorityReceipt p =>
      simp [Payload.dump, AuthorityReceipt.dump, Json.sortMembers, Json.sortKeys]

/-- What is shipped for a payload reads back as the payload. -/
theorem readPayload_canonical {platform : Platform} {coercions : Coercions}
    (doubles : Json.ReadsDoubles platform.readFloat) (lawful : coercions.Lawful)
    (payload : Payload) :
    readPayload platform coercions (Json.canonicalJson payload.modelDump) = some payload := by
  have keyed := modelDump_wellKeyed payload
  rw [modelDump_eq] at keyed ⊢
  -- the parsed object is the dump with its keys sorted: the same lookups
  have sorted : ((Json.sortMembers payload.dump).insertionSort fun a b => a.1 ≤ b.1).Perm
      payload.dump := by
    rw [dump_sorted]
    exact List.perm_insertionSort _ _
  have distinct : Dict.Distinct payload.dump := keyed.1
  have sortedDistinct := (sorted.map Prod.fst).nodup_iff.mpr distinct
  have lookups : Dict.get? ((Json.sortMembers payload.dump).insertionSort fun a b => a.1 ≤ b.1) =
      Dict.get? payload.dump := by
    funext key
    refine Option.ext fun value => ?_
    rw [← Dict.mem_iff_get? distinct, ← Dict.mem_iff_get? sortedDistinct, sorted.mem_iff]
  have listed : (((Json.sortMembers payload.dump).insertionSort fun a b => a.1 ≤ b.1).all
      fun member => payload.kind.fields.contains member.1) = true := by
    refine List.all_eq_true.mpr fun member held => List.contains_iff_mem.mpr ?_
    exact (dump_keys payload).subset (List.mem_map_of_mem (sorted.mem_iff.mp held))
  unfold readPayload
  rw [Json.loads_canonicalJson doubles keyed, Json.sortKeys]
  dsimp only
  rw [lookups, dump_kind, required_some, literal_kind]
  simp only [Option.bind_eq_bind, Option.bind_some]
  rw [if_pos listed]
  exact readOfKind_dump lawful payload

/-! ## Received documents -/

/-- A wire document: the envelope is an untyped dictionary, as it came. -/
structure WireDoc where
  envelope : Dict String Json
  payloadCanonical : Option String

/-- The fields of an envelope on the wire. -/
def Envelope.wire (envelope : Envelope) : Dict String Json :=
  [("event_id", .str envelope.eventId),
   ("origin_node", .str envelope.originNode),
   ("origin_seq", .int envelope.originSeq),
   ("hlc", .str envelope.hlc),
   ("kind", .str envelope.kind.value),
   ("subject_ref", optionalText envelope.subjectRef),
   ("actor_ref", .str envelope.actorRef),
   ("policy_digest", optionalText envelope.policyDigest),
   ("payload_digest", .str envelope.payloadDigest),
   ("prev_hash", optionalText envelope.prevHash),
   ("self_hash", .str envelope.selfHash),
   ("envelope_version", .int envelope.envelopeVersion),
   ("scope_ref", optionalText envelope.scopeRef),
   ("scope_digest", optionalText envelope.scopeDigest),
   ("signature", optionalText envelope.signature),
   ("signing_key_ref", optionalText envelope.signingKeyRef),
   ("signature_scheme", optionalText envelope.signatureScheme)]

def WireEvent.doc (wire : WireEvent) : WireDoc where
  envelope := wire.envelope.wire
  payloadCanonical := wire.payloadCanonical

/-- `value == n`, where a truth value and a float may equal an integer too. -/
def equalsInt (coercions : Coercions) (n : Int) : Json → Bool
  | .int value => value = n
  | .bool value => (if value then 1 else 0) = n
  | .float value => coercions.int (.float value) = some n
  | _ => false

def isNull : Json → Bool
  | .null => true
  | _ => false

/-- The nine fields that the hash of either version covers. -/
def hashedFields : List String :=
  ["origin_node", "origin_seq", "hlc", "kind", "subject_ref", "actor_ref", "policy_digest",
    "payload_digest", "prev_hash"]

namespace WireDoc

variable (platform : Platform) (coercions : Coercions) (doc : WireDoc)

/-- `env.get("envelope_version", 1)` -/
def version : Json := (Dict.get? doc.envelope "envelope_version").getD (.int 1)

def scopeDigest : Json := (Dict.get? doc.envelope "scope_digest").getD .null

def scopeRef : Json := (Dict.get? doc.envelope "scope_ref").getD .null

/-- The preimage over the received values; a missing field raises. -/
def preimage : Option (List (String × Json)) :=
  hashedFields.mapM fun key => (Dict.get? doc.envelope key).map fun value => (key, value)

/-- `event_hash` over the received values. -/
def hash : Option String := do
  let preimage ← doc.preimage
  if equalsInt coercions 1 doc.version then return digest platform (.obj preimage)
  else if equalsInt coercions 2 doc.version then
    return digest platform (.obj (preimage ++
      [("envelope_version", .int 2), ("scope_digest", doc.scopeDigest)]))
  else none

/-- The typed envelope that the event model validates. -/
def readEnvelope : Option Envelope := do
  let fields := Dict.get? doc.envelope
  let eventId ← required (fields "event_id") textOf?
  let originNode ← required (fields "origin_node") textOf?
  let originSeq ← required (fields "origin_seq") coercions.int
  let hlc ← required (fields "hlc") textOf?
  let kind ← required (fields "kind") (literal EventKind.all EventKind.value)
  let subjectRef ← required (fields "subject_ref") (nullable textOf?)
  let actorRef ← required (fields "actor_ref") textOf?
  let policyDigest ← required (fields "policy_digest") (nullable textOf?)
  let payloadDigest ← required (fields "payload_digest") textOf?
  let prevHash ← required (fields "prev_hash") (nullable textOf?)
  let selfHash ← required (fields "self_hash") textOf?
  let envelopeVersion ← coercions.int doc.version
  let scopeRef ← nullable textOf? doc.scopeRef
  let scopeDigest ← nullable textOf? doc.scopeDigest
  let signature ← required (fields "signature") (nullable textOf?)
  let signingKeyRef ← required (fields "signing_key_ref") (nullable textOf?)
  let signatureScheme ← required (fields "signature_scheme") (nullable textOf?)
  return {
    eventId := eventId
    originNode := originNode
    originSeq := originSeq
    hlc := hlc
    kind := kind
    subjectRef := subjectRef
    actorRef := actorRef
    policyDigest := policyDigest
    payloadDigest := payloadDigest
    prevHash := prevHash
    selfHash := selfHash
    envelopeVersion := envelopeVersion
    scopeRef := scopeRef
    scopeDigest := scopeDigest
    signature := signature
    signingKeyRef := signingKeyRef
    signatureScheme := signatureScheme }

/-- The payload, where there is text to read. -/
def payload : Option (Option Payload) :=
  match doc.payloadCanonical with
  | none => some none
  | some text => (readPayload platform coercions text).map some

/-- `from_wire`: verify the received bytes, then parse; `none` where the source raises. -/
def receive : Option Event := do
  guard (equalsInt coercions 1 doc.version → isNull doc.scopeDigest ∧ isNull doc.scopeRef)
  guard (doc.payloadCanonical.all fun text =>
    required (Dict.get? doc.envelope "payload_digest") textOf? =
      some ("sha256:" ++ platform.sha256 text))
  let selfHash ← doc.hash platform coercions
  guard (required (Dict.get? doc.envelope "self_hash") textOf? = some selfHash ∧
    required (Dict.get? doc.envelope "event_id") textOf? = some selfHash)
  let payload ← doc.payload platform coercions
  let envelope ← doc.readEnvelope coercions
  let event : Event := { envelope with payload := payload }
  guard (isNull doc.scopeRef || event.verify platform)
  return event

end WireDoc

section WireDocs

variable {platform : Platform} {coercions : Coercions}

/-! ## What is shipped reads back -/

/-- What a receiver makes of a shipped event: of a stub, the event without its cleartext
scope. -/
def Event.shipped (event : Event) (asStub : Bool) : Event :=
  if asStub || event.isStub then { event with scopeRef := none, payload := none } else event

theorem withheld_verify {event : Event} (verified : event.verify platform = true) :
    ({ event with scopeRef := none, payload := none } : Event).verify platform = true := by
  have checked := (Event.verify_iff platform event).mp verified
  rw [Event.verify_iff]
  exact {
    version := checked.version
    scopeless := fun one => ⟨rfl, (checked.scopeless one).2⟩
    scopeOpens := rfl
    payloadDigest := rfl
    selfHash := checked.selfHash
    eventId := checked.eventId }

@[simp] theorem doc_version (wire : WireEvent) :
    wire.doc.version = .int wire.envelope.envelopeVersion := rfl

@[simp] theorem doc_scopeDigest (wire : WireEvent) :
    wire.doc.scopeDigest = optionalText wire.envelope.scopeDigest := rfl

@[simp] theorem doc_scopeRef (wire : WireEvent) :
    wire.doc.scopeRef = optionalText wire.envelope.scopeRef := rfl

theorem isNull_optionalText (value : Option String) :
    isNull (optionalText value) = value.isNone := by
  cases value <;> rfl

theorem doc_preimage (wire : WireEvent) :
    wire.doc.preimage = some wire.envelope.toHashedEnvelope.preimage := rfl

theorem doc_hash (wire : WireEvent) :
    wire.doc.hash platform coercions = eventHash platform wire.envelope.toHashedEnvelope := by
  unfold WireDoc.hash eventHash
  rw [doc_preimage]
  simp only [Option.bind_eq_bind, Option.bind_some, doc_version, doc_scopeDigest, equalsInt,
    decide_eq_true_eq]
  rfl

theorem doc_readEnvelope (lawful : coercions.Lawful) (wire : WireEvent) :
    wire.doc.readEnvelope coercions = some wire.envelope := by
  simp [WireDoc.readEnvelope, WireEvent.doc, Envelope.wire, Dict.get?_cons, lawful.int,
    WireDoc.version, WireDoc.scopeRef, WireDoc.scopeDigest]

/-- The document of an event that verifies, with the text of its payload, is accepted. -/
theorem receive_doc (lawful : coercions.Lawful) {wire : WireEvent} {event : Event}
    (verified : event.verify platform = true) (envelope : wire.envelope = event.toEnvelope)
    (digested : ∀ text, wire.payloadCanonical = some text →
      event.payloadDigest = "sha256:" ++ platform.sha256 text)
    (parsed : wire.doc.payload platform coercions = some event.payload) :
    wire.doc.receive platform coercions = some event := by
  have accepted := (Event.verify_iff platform event).mp verified
  have unscoped : equalsInt coercions 1 wire.doc.version = true →
      isNull wire.doc.scopeDigest = true ∧ isNull wire.doc.scopeRef = true := by
    intro one
    rw [doc_version, envelope, equalsInt, decide_eq_true_eq] at one
    rw [doc_scopeDigest, doc_scopeRef, isNull_optionalText, isNull_optionalText, envelope,
      (accepted.scopeless one).1, (accepted.scopeless one).2]
    exact ⟨rfl, rfl⟩
  have bytes : (wire.doc.payloadCanonical.all fun text =>
      required (Dict.get? wire.doc.envelope "payload_digest") textOf? =
        some ("sha256:" ++ platform.sha256 text)) = true := by
    cases shipped : wire.payloadCanonical with
    | none => simp [WireEvent.doc, shipped]
    | some text =>
        have held : required (Dict.get? wire.doc.envelope "payload_digest") textOf? =
            some wire.envelope.payloadDigest := rfl
        have carried : wire.doc.payloadCanonical = some text := shipped
        rw [carried, held, envelope, digested text shipped]
        simp
  have named : required (Dict.get? wire.doc.envelope "self_hash") textOf? = some event.selfHash ∧
      required (Dict.get? wire.doc.envelope "event_id") textOf? = some event.selfHash := by
    have ids : required (Dict.get? wire.doc.envelope "self_hash") textOf? =
          some wire.envelope.selfHash ∧
        required (Dict.get? wire.doc.envelope "event_id") textOf? = some wire.envelope.eventId :=
      ⟨rfl, rfl⟩
    rw [ids.1, ids.2, envelope, accepted.eventId]
    exact ⟨rfl, rfl⟩
  unfold WireDoc.receive
  rw [doc_hash, doc_readEnvelope lawful, envelope, accepted.selfHash, parsed]
  simp only [Option.bind_eq_bind, Option.bind_some]
  have opened : (isNull wire.doc.scopeRef || event.verify platform) = true := by
    rw [verified, Bool.or_true]
  rw [(Option.guard_eq_some' ()).mpr unscoped, (Option.guard_eq_some' ()).mpr bytes,
    Option.bind_some, Option.bind_some, (Option.guard_eq_some' ()).mpr named, Option.bind_some,
    (Option.guard_eq_some' ()).mpr opened]
  rfl

/-! ## An accepted document cannot be altered -/

theorem textOf?_eq_some {value : Json} {text : String} (read : textOf? value = some text) :
    value = .str text := by
  cases value <;> cases read
  rfl

theorem required_textOf? {held : Option Json} {text : String}
    (read : required held textOf? = some text) : held = some (.str text) := by
  obtain ⟨value, rfl, found⟩ := Option.bind_eq_some_iff.mp read
  rw [textOf?_eq_some found]

theorem nullable_textOf? {value : Json} {text : Option String}
    (read : nullable textOf? value = some text) : value = optionalText text := by
  cases value <;> cases read <;> rfl

theorem required_nullable {held : Option Json} {text : Option String}
    (read : required held (nullable textOf?) = some text) : held = some (optionalText text) := by
  obtain ⟨value, rfl, found⟩ := Option.bind_eq_some_iff.mp read
  rw [nullable_textOf? found]

theorem required_kind {held : Option Json} {kind : EventKind}
    (read : required held (literal EventKind.all EventKind.value) = some kind) :
    held = some (.str kind.value) := by
  obtain ⟨value, rfl, found⟩ := Option.bind_eq_some_iff.mp read
  cases value with
  | str text =>
      have same := List.find?_some found
      rw [of_decide_eq_true same]
  | _ => cases found

/-- The nine fields with the sequence number as it was received. -/
def HashedEnvelope.received (envelope : HashedEnvelope) (seq : Json) : List (String × Json) :=
  [("origin_node", .str envelope.originNode),
   ("origin_seq", seq),
   ("hlc", .str envelope.hlc),
   ("kind", .str envelope.kind.value),
   ("subject_ref", optionalText envelope.subjectRef),
   ("actor_ref", .str envelope.actorRef),
   ("policy_digest", optionalText envelope.policyDigest),
   ("payload_digest", .str envelope.payloadDigest),
   ("prev_hash", optionalText envelope.prevHash)]

/-- What a document says of the envelope that is read from it. -/
structure WireDoc.Reads (coercions : Coercions) (doc : WireDoc) (envelope : Envelope)
    (seq : Json) : Prop where
  eventId : Dict.get? doc.envelope "event_id" = some (.str envelope.eventId)
  payloadDigest : Dict.get? doc.envelope "payload_digest" = some (.str envelope.payloadDigest)
  read : coercions.int seq = some envelope.originSeq
  preimage : doc.preimage = some (envelope.received seq)
  version : coercions.int doc.version = some envelope.envelopeVersion
  scopeDigest : doc.scopeDigest = optionalText envelope.scopeDigest

theorem WireDoc.reads {doc : WireDoc} {envelope : Envelope}
    (read : doc.readEnvelope coercions = some envelope) :
    ∃ seq, doc.Reads coercions envelope seq := by
  unfold WireDoc.readEnvelope at read
  obtain ⟨eventId, eventIdRead, read⟩ := Option.bind_eq_some_iff.mp read
  obtain ⟨originNode, originNodeRead, read⟩ := Option.bind_eq_some_iff.mp read
  obtain ⟨originSeq, originSeqRead, read⟩ := Option.bind_eq_some_iff.mp read
  obtain ⟨hlc, hlcRead, read⟩ := Option.bind_eq_some_iff.mp read
  obtain ⟨kind, kindRead, read⟩ := Option.bind_eq_some_iff.mp read
  obtain ⟨subjectRef, subjectRefRead, read⟩ := Option.bind_eq_some_iff.mp read
  obtain ⟨actorRef, actorRefRead, read⟩ := Option.bind_eq_some_iff.mp read
  obtain ⟨policyDigest, policyDigestRead, read⟩ := Option.bind_eq_some_iff.mp read
  obtain ⟨payloadDigest, payloadDigestRead, read⟩ := Option.bind_eq_some_iff.mp read
  obtain ⟨prevHash, prevHashRead, read⟩ := Option.bind_eq_some_iff.mp read
  obtain ⟨_, _, read⟩ := Option.bind_eq_some_iff.mp read
  obtain ⟨version, versionRead, read⟩ := Option.bind_eq_some_iff.mp read
  obtain ⟨_, _, read⟩ := Option.bind_eq_some_iff.mp read
  obtain ⟨scopeDigest, scopeDigestRead, read⟩ := Option.bind_eq_some_iff.mp read
  obtain ⟨_, _, read⟩ := Option.bind_eq_some_iff.mp read
  obtain ⟨_, _, read⟩ := Option.bind_eq_some_iff.mp read
  obtain ⟨_, _, read⟩ := Option.bind_eq_some_iff.mp read
  cases read
  obtain ⟨seq, seqHeld, seqRead⟩ := Option.bind_eq_some_iff.mp originSeqRead
  refine ⟨seq, required_textOf? eventIdRead, required_textOf? payloadDigestRead, seqRead, ?_,
    versionRead, nullable_textOf? scopeDigestRead⟩
  simp [WireDoc.preimage, hashedFields, HashedEnvelope.received, required_textOf? originNodeRead,
    seqHeld, required_textOf? hlcRead, required_kind kindRead, required_nullable subjectRefRead,
    required_textOf? actorRefRead, required_nullable policyDigestRead,
    required_textOf? payloadDigestRead, required_nullable prevHashRead]

/-- What `from_wire` has established of a document that it accepts. -/
structure WireDoc.Accepted (platform : Platform) (coercions : Coercions) (doc : WireDoc)
    (event : Event) : Prop where
  unscoped : equalsInt coercions 1 doc.version = true → isNull doc.scopeDigest = true
  payloadDigest : ∀ text, doc.payloadCanonical = some text →
    event.payloadDigest = "sha256:" ++ platform.sha256 text
  hashed : doc.hash platform coercions = some event.eventId
  reads : ∃ seq, doc.Reads coercions event.toEnvelope seq
  payload : doc.payload platform coercions = some event.payload

theorem WireDoc.receive_some {doc : WireDoc} {event : Event}
    (received : doc.receive platform coercions = some event) :
    doc.Accepted platform coercions event := by
  unfold WireDoc.receive at received
  simp only [Option.bind_eq_bind, Option.bind_eq_some_iff] at received
  obtain ⟨_, unscoped, _, bytes, selfHash, hashed, _, named, payload, parsed, envelope, read, _,
    _, result⟩ := received
  simp only [Option.pure_def, Option.some.injEq] at result
  subst result
  rw [Option.guard_eq_some'] at unscoped bytes named
  obtain ⟨seq, reads⟩ := doc.reads read
  refine ⟨fun one => (unscoped one).1, fun text carried => ?_, ?_, ⟨seq, reads⟩, parsed⟩
  · rw [carried, Option.all_some, decide_eq_true_eq, reads.payloadDigest] at bytes
    exact Option.some.inj bytes
  · have id := named.2
    rw [reads.eventId] at id
    rw [hashed, ← Option.some.inj id]

/-- The JSON that a text or an integer was read from has no keys to sort. -/
theorem scalar_of_int (lawful : coercions.Lawful) {seq : Json} {n : Int}
    (read : coercions.int seq = some n) : seq.WellKeyed ∧ seq.sortKeys = seq := by
  cases seq with
  | arr items =>
      rw [lawful.intArr] at read
      cases read
  | obj members =>
      rw [lawful.intObj] at read
      cases read
  | _ => exact ⟨trivial, rfl⟩

theorem equalsInt_read (lawful : coercions.Lawful) {n read : Int} {value : Json}
    (equal : equalsInt coercions n value = true) (held : coercions.int value = some read) :
    read = n := by
  cases value with
  | int value =>
      rw [lawful.int] at held
      cases held
      exact of_decide_eq_true equal
  | bool value =>
      rw [lawful.intBool value read held]
      exact of_decide_eq_true equal
  | float value =>
      have same := of_decide_eq_true equal
      rw [held] at same
      exact Option.some.inj same
  | _ => cases equal

def HashedEnvelope.scopedReceived (envelope : HashedEnvelope) (seq : Json) :
    List (String × Json) :=
  envelope.received seq ++
    [("envelope_version", .int 2), ("scope_digest", optionalText envelope.scopeDigest)]

theorem received_wellKeyed (envelope : HashedEnvelope) {seq : Json} (scalar : seq.WellKeyed) :
    (Json.obj (envelope.received seq)).WellKeyed := by
  refine ⟨by simp [HashedEnvelope.received], (Json.wellKeyedMembers_iff _).mpr ?_⟩
  simp only [HashedEnvelope.received, List.forall_mem_cons, optionalText_wellKeyed, scalar,
    List.not_mem_nil, false_implies, implies_true, and_true, true_and]
  exact ⟨trivial, trivial, trivial, trivial, trivial⟩

theorem scopedReceived_wellKeyed (envelope : HashedEnvelope) {seq : Json}
    (scalar : seq.WellKeyed) : (Json.obj (envelope.scopedReceived seq)).WellKeyed := by
  refine ⟨by simp [HashedEnvelope.scopedReceived, HashedEnvelope.received],
    (Json.wellKeyedMembers_iff _).mpr ?_⟩
  have base := (Json.wellKeyedMembers_iff _).mp (received_wellKeyed envelope scalar).2
  simp only [HashedEnvelope.scopedReceived, List.forall_mem_append, List.forall_mem_cons,
    optionalText_wellKeyed, List.not_mem_nil, false_implies, implies_true, and_true]
  exact ⟨base, trivial⟩

/-- What the hash of an accepted document is over. -/
theorem WireDoc.Accepted.version_cases (lawful : coercions.Lawful) {doc : WireDoc} {event : Event}
    (accepted : doc.Accepted platform coercions event) :
    ∃ seq, doc.Reads coercions event.toEnvelope seq ∧
      ((event.envelopeVersion = 1 ∧ event.scopeDigest = none ∧
          event.eventId = digest platform (.obj (event.received seq))) ∨
        (event.envelopeVersion = 2 ∧
          event.eventId = digest platform (.obj (event.scopedReceived seq)))) := by
  obtain ⟨seq, reads⟩ := accepted.reads
  refine ⟨seq, reads, ?_⟩
  have hashed := accepted.hashed
  unfold WireDoc.hash at hashed
  rw [reads.preimage] at hashed
  simp only [Option.bind_eq_bind, Option.bind_some] at hashed
  split_ifs at hashed with one two
  · have unscoped := accepted.unscoped one
    rw [reads.scopeDigest, isNull_optionalText, Option.isNone_iff_eq_none] at unscoped
    exact .inl ⟨equalsInt_read lawful one reads.version, unscoped, (Option.some.inj hashed).symm⟩
  · rw [reads.scopeDigest] at hashed
    exact .inr ⟨equalsInt_read lawful two reads.version, (Option.some.inj hashed).symm⟩

/-- Documents of one version that hash to one identity agree on everything that is hashed. -/
theorem received_injective {left right : HashedEnvelope} {leftSeq rightSeq : Json}
    (leftScalar : leftSeq.sortKeys = leftSeq) (rightScalar : rightSeq.sortKeys = rightSeq)
    (same : (Json.obj (left.received leftSeq)).sortKeys =
      (Json.obj (right.received rightSeq)).sortKeys) :
    left.received leftSeq = right.received rightSeq := by
  have members := Json.members_eq_of_sortKeys same rfl (by simp [HashedEnvelope.received])
  simpa only [HashedEnvelope.received, Json.sortMembers, Json.sortKeys, optionalText_sortKeys,
    leftScalar, rightScalar] using members

theorem scopedReceived_injective {left right : HashedEnvelope} {leftSeq rightSeq : Json}
    (leftScalar : leftSeq.sortKeys = leftSeq) (rightScalar : rightSeq.sortKeys = rightSeq)
    (same : (Json.obj (left.scopedReceived leftSeq)).sortKeys =
      (Json.obj (right.scopedReceived rightSeq)).sortKeys) :
    left.received leftSeq = right.received rightSeq ∧ left.scopeDigest = right.scopeDigest := by
  have members := Json.members_eq_of_sortKeys same rfl
    (by simp [HashedEnvelope.scopedReceived, HashedEnvelope.received])
  simp only [HashedEnvelope.scopedReceived, HashedEnvelope.received, List.cons_append,
    List.nil_append, Json.sortMembers, Json.sortKeys, optionalText_sortKeys, leftScalar,
    rightScalar, List.cons.injEq, Prod.mk.injEq, true_and, and_true] at members ⊢
  obtain ⟨node, seq, hlc, kind, subject, actor, policy, payload, prev, scope⟩ := members
  exact ⟨⟨node, seq, hlc, kind, subject, actor, policy, payload, prev⟩,
    optionalText_injective scope⟩

/-- Documents with one preimage read as one hashed envelope, apart from version and scope. -/
theorem sameFields_of_received {left right : HashedEnvelope} {leftSeq rightSeq : Json}
    (leftRead : coercions.int leftSeq = some left.originSeq)
    (rightRead : coercions.int rightSeq = some right.originSeq)
    (same : left.received leftSeq = right.received rightSeq)
    (version : left.envelopeVersion = right.envelopeVersion)
    (scope : left.scopeDigest = right.scopeDigest) : left = right := by
  simp only [HashedEnvelope.received, List.cons.injEq, Prod.mk.injEq, true_and, Json.str.injEq,
    and_true] at same
  obtain ⟨node, seq, hlc, kind, subject, actor, policy, payload, prev⟩ := same
  have number : left.originSeq = right.originSeq := by
    rw [seq, rightRead] at leftRead
    exact (Option.some.inj leftRead).symm
  obtain ⟨_, _, _, _, _, _, _, _, _, _, _⟩ := left
  obtain ⟨_, _, _, _, _, _, _, _, _, _, _⟩ := right
  simp only [HashedEnvelope.mk.injEq]
  exact ⟨node, number, hlc, EventKind.value_injective kind, optionalText_injective subject, actor,
    optionalText_injective policy, payload, optionalText_injective prev, version, scope⟩

/-- The preimages of the two versions never hash alike. -/
theorem versions_apart (collisionFree : CollisionFree platform) {left right : HashedEnvelope}
    {leftSeq rightSeq : Json} (leftScalar : leftSeq.WellKeyed) (rightScalar : rightSeq.WellKeyed) :
    digest platform (.obj (left.received leftSeq)) ≠
      digest platform (.obj (right.scopedReceived rightSeq)) := by
  intro same
  have sorted := digest_injective collisionFree (received_wellKeyed left leftScalar)
    (scopedReceived_wellKeyed right rightScalar) same
  have lengths := (Json.keys_perm_of_sortKeys sorted).length_eq
  simp [HashedEnvelope.scopedReceived, HashedEnvelope.received] at lengths

/-- Accepted documents of one identity have one preimage and read as one hashed envelope. -/
theorem WireDoc.Accepted.agree (collisionFree : CollisionFree platform)
    (lawful : coercions.Lawful) {first second : WireDoc} {left right : Event}
    (leftAccepted : first.Accepted platform coercions left)
    (rightAccepted : second.Accepted platform coercions right)
    (same : left.eventId = right.eventId) :
    first.preimage = second.preimage ∧ left.toHashedEnvelope = right.toHashedEnvelope := by
  obtain ⟨leftSeq, leftReads, leftHash⟩ := leftAccepted.version_cases lawful
  obtain ⟨rightSeq, rightReads, rightHash⟩ := rightAccepted.version_cases lawful
  obtain ⟨leftKeyed, leftScalar⟩ := scalar_of_int lawful leftReads.read
  obtain ⟨rightKeyed, rightScalar⟩ := scalar_of_int lawful rightReads.read
  rw [leftReads.preimage, rightReads.preimage]
  rcases leftHash with ⟨leftOne, leftScope, leftHash⟩ | ⟨leftTwo, leftHash⟩ <;>
    rcases rightHash with ⟨rightOne, rightScope, rightHash⟩ | ⟨rightTwo, rightHash⟩
  · have raw := received_injective leftScalar rightScalar
      (digest_injective collisionFree (received_wellKeyed _ leftKeyed)
        (received_wellKeyed _ rightKeyed) (leftHash.symm.trans (same.trans rightHash)))
    exact ⟨by rw [raw], sameFields_of_received leftReads.read rightReads.read raw
      (leftOne.trans rightOne.symm) (leftScope.trans rightScope.symm)⟩
  · exact absurd (leftHash.symm.trans (same.trans rightHash))
      (versions_apart collisionFree leftKeyed rightKeyed)
  · exact absurd (rightHash.symm.trans (same.symm.trans leftHash))
      (versions_apart collisionFree rightKeyed leftKeyed)
  · obtain ⟨raw, scope⟩ := scopedReceived_injective leftScalar rightScalar
      (digest_injective collisionFree (scopedReceived_wellKeyed _ leftKeyed)
        (scopedReceived_wellKeyed _ rightKeyed) (leftHash.symm.trans (same.trans rightHash)))
    exact ⟨by rw [raw], sameFields_of_received leftReads.read rightReads.read raw
      (leftTwo.trans rightTwo.symm) scope⟩

/-- One payload digest, one text, one payload. -/
theorem WireDoc.Accepted.samePayload (collisionFree : CollisionFree platform)
    {first second : WireDoc} {left right : Event}
    (leftAccepted : first.Accepted platform coercions left)
    (rightAccepted : second.Accepted platform coercions right)
    (same : left.payloadDigest = right.payloadDigest)
    (leftText : first.payloadCanonical.isSome) (rightText : second.payloadCanonical.isSome) :
    first.payloadCanonical = second.payloadCanonical ∧ left.payload = right.payload := by
  obtain ⟨text, carried⟩ := Option.isSome_iff_exists.mp leftText
  obtain ⟨other, otherCarried⟩ := Option.isSome_iff_exists.mp rightText
  have digests := (leftAccepted.payloadDigest text carried).symm.trans
    (same.trans (rightAccepted.payloadDigest other otherCarried))
  have texts : text = other := collisionFree (append_left_cancel digests)
  subst texts
  have parsed := leftAccepted.payload
  have otherParsed := rightAccepted.payload
  unfold WireDoc.payload at parsed otherParsed
  rw [carried] at parsed
  rw [otherCarried, parsed] at otherParsed
  exact ⟨carried.trans otherCarried.symm, Option.some.inj otherParsed⟩

/-- The wire form of an event, or of its stub, is accepted as what was shipped. -/
theorem receive_toWire (doubles : Json.ReadsDoubles platform.readFloat)
    (lawful : coercions.Lawful) {event : Event} (verified : event.verify platform = true)
    (asStub : Bool) :
    (toWire event asStub).doc.receive platform coercions = some (event.shipped asStub) := by
  have checked := (Event.verify_iff platform event).mp verified
  have stub : ∀ wire : WireEvent,
      wire = { envelope := { event.toEnvelope with scopeRef := none }, payloadCanonical := none } →
      wire.doc.receive platform coercions =
        some { event with scopeRef := none, payload := none } := by
    rintro wire rfl
    exact receive_doc lawful (withheld_verify verified) rfl (fun _ carried => by cases carried) rfl
  unfold toWire Event.shipped
  cases held : event.payload with
  | none =>
      have isStub : event.isStub = true := by rw [Event.isStub, held]; rfl
      rw [isStub, Bool.or_true, if_pos rfl]
      exact stub _ rfl
  | some payload =>
      have whole : event.isStub = false := by rw [Event.isStub, held]; rfl
      rw [whole, Bool.or_false]
      cases asStub with
      | true => exact stub _ rfl
      | false =>
          rw [if_neg Bool.false_ne_true]
          refine receive_doc lawful verified rfl (fun text carried => ?_) ?_
          · cases carried
            rw [← checked.payloadDigest, Event.derivedDigest, held]
            rfl
          · change (readPayload platform coercions (Json.canonicalJson payload.modelDump)).map some =
              some event.payload
            rw [readPayload_canonical doubles lawful, held]
            rfl

end WireDocs

/-- What `to_wire` ships of a verified event reads back, a stub without its cleartext scope;
accepted documents of one identity agree on all that is hashed, and on the payload where both
carry it. -/
theorem wire_faithful (platform : Platform) (coercions : Coercions)
    (collisionFree : CollisionFree platform) (doubles : Json.ReadsDoubles platform.readFloat)
    (lawful : coercions.Lawful) :
    (∀ (event : Event) (asStub : Bool), event.verify platform = true →
      (toWire event asStub).doc.receive platform coercions = some (event.shipped asStub)) ∧
    ∀ (first second : WireDoc) (left right : Event),
      first.receive platform coercions = some left →
      second.receive platform coercions = some right → left.eventId = right.eventId →
      first.preimage = second.preimage ∧ left.toHashedEnvelope = right.toHashedEnvelope ∧
      (first.payloadCanonical.isSome → second.payloadCanonical.isSome →
        first.payloadCanonical = second.payloadCanonical ∧ left.payload = right.payload) := by
  refine ⟨fun event asStub verified => receive_toWire doubles lawful verified asStub, ?_⟩
  intro first second left right leftReceived rightReceived same
  have leftAccepted := first.receive_some leftReceived
  have rightAccepted := second.receive_some rightReceived
  obtain ⟨raw, hashed⟩ := leftAccepted.agree collisionFree lawful rightAccepted same
  exact ⟨raw, hashed, leftAccepted.samePayload collisionFree rightAccepted
    (congrArg HashedEnvelope.payloadDigest hashed)⟩

namespace Shipped

/-- A scoped observation, under version 2 of the envelope. -/
def payload : Payload :=
  .observationRecorded {
    predicate := "reachable"
    value := .bool true
    observationMethodClass := .httpProbe
    occurredAt := none
    source := none }

def hashed : HashedEnvelope where
  originNode := "node"
  originSeq := 1
  hlc := "1.0.node"
  kind := .observationRecorded
  subjectRef := none
  actorRef := "actor"
  policyDigest := none
  payloadDigest := digest plainPlatform payload.modelDump
  prevHash := none
  envelopeVersion := 2
  scopeDigest := some (scopeDigestOf plainPlatform "team")

def identity : String := digest plainPlatform (.obj (hashed.preimage ++
  [("envelope_version", .int 2), ("scope_digest", optionalText hashed.scopeDigest)]))

def observation : Event where
  toHashedEnvelope := hashed
  eventId := identity
  selfHash := identity
  scopeRef := some "team"
  signature := none
  signingKeyRef := none
  signatureScheme := none
  payload := some payload

theorem observation_verified : observation.verify plainPlatform = true := by
  rw [Event.verify_iff]
  exact {
    version := .inr rfl
    scopeless := fun one => absurd one (by decide)
    scopeOpens := by
      change (!reservedScope "team" &&
        (observation.scopeDigest == some (scopeDigestOf plainPlatform "team"))) = true
      exact Bool.and_eq_true_iff.mpr ⟨by decide, beq_self_eq_true _⟩
    payloadDigest := rfl
    selfHash := rfl
    eventId := rfl }

/-- The observation reads back whole, and as a stub that still hides its scope. -/
theorem observation_received :
    (toWire observation false).doc.receive plainPlatform Coercions.strict = some observation ∧
    (toWire observation true).doc.receive plainPlatform Coercions.strict =
      some { observation with scopeRef := none, payload := none } := by
  have faithful := wire_faithful plainPlatform Coercions.strict plainPlatform_collisionFree
    plainPlatform_readsDoubles Coercions.strict_lawful
  exact ⟨faithful.1 observation false observation_verified,
    faithful.1 observation true observation_verified⟩

end Shipped

end Kawa
