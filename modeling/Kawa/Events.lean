import Kawa.Ids

/-! The typed event vocabulary: payloads with their validators, the envelope, `verify`. -/

namespace Kawa

inductive EventKind
  | planCreated
  | planLifecycleChanged
  | workDerived
  | workDependencyDeclared
  | resultRecorded
  | linkAsserted
  | observationRecorded
  | claimRecorded
  | workRetired
  | authorityConfiguration
  | authorityReceipt
deriving DecidableEq, Repr

def EventKind.value : EventKind → String
  | planCreated => "plan.created"
  | planLifecycleChanged => "plan.lifecycle_changed"
  | workDerived => "work.derived"
  | workDependencyDeclared => "work.dependency_declared"
  | resultRecorded => "result.recorded"
  | linkAsserted => "link.asserted"
  | observationRecorded => "observation.recorded"
  | claimRecorded => "claim.recorded"
  | workRetired => "work.retired"
  | authorityConfiguration => "authority.configuration"
  | authorityReceipt => "authority.receipt"

inductive Lifecycle
  | draft | reviewing | ready | running | blocked | ended
deriving DecidableEq, Repr

def Lifecycle.value : Lifecycle → String
  | draft => "draft"
  | reviewing => "reviewing"
  | ready => "ready"
  | running => "running"
  | blocked => "blocked"
  | ended => "ended"

inductive EndReason
  | completed | cancelled | failed | superseded
deriving DecidableEq, Repr

def EndReason.value : EndReason → String
  | completed => "completed"
  | cancelled => "cancelled"
  | failed => "failed"
  | superseded => "superseded"

inductive RetireReason
  | superseded | cancelled | obsolete
deriving DecidableEq, Repr

def RetireReason.value : RetireReason → String
  | superseded => "superseded"
  | cancelled => "cancelled"
  | obsolete => "obsolete"

inductive SatisfactionPolicy
  | all | any
deriving DecidableEq, Repr

def SatisfactionPolicy.value : SatisfactionPolicy → String
  | all => "ALL"
  | any => "ANY"

inductive Outcome
  | success | failure | conflicted | executionUnknown
deriving DecidableEq, Repr

def Outcome.value : Outcome → String
  | success => "success"
  | failure => "failure"
  | conflicted => "conflicted"
  | executionUnknown => "execution_unknown"

inductive Relation
  | supports | contradicts | basedOn | reasonFor | addresses | reviews | corrects | resolves
  | supersedes | causedBy | satisfies
deriving DecidableEq, Repr

def Relation.value : Relation → String
  | supports => "supports"
  | contradicts => "contradicts"
  | basedOn => "based_on"
  | reasonFor => "reason_for"
  | addresses => "addresses"
  | reviews => "reviews"
  | corrects => "corrects"
  | resolves => "resolves"
  | supersedes => "supersedes"
  | causedBy => "caused_by"
  | satisfies => "satisfies"

inductive ObservationMethod
  | commandExit | httpProbe | fileDigest | apiFetch | metricRead | manualHuman
deriving DecidableEq, Repr

def ObservationMethod.value : ObservationMethod → String
  | commandExit => "command_exit"
  | httpProbe => "http_probe"
  | fileDigest => "file_digest"
  | apiFetch => "api_fetch"
  | metricRead => "metric_read"
  | manualHuman => "manual_human"

/-! ## Payloads -/

structure PlanCreated where
  planRef : String
  projectRef : String
  objective : String
  rationale : Option String
  lifecycle : Lifecycle
  scope : Option String
  constraints : Option (List String)
  expectedObservations : Option (List String)
  domain : Option String
deriving DecidableEq

structure PlanLifecycleChanged where
  planRef : String
  lifecycle : Lifecycle
  endReason : Option EndReason
deriving DecidableEq

structure WorkDerived where
  workRef : String
  planRef : String
  workKind : String
  roleRequirement : Option String
  subjectRef : Option String
  objective : Option String
  constraints : Option (List String)
  expectedObservations : Option (List String)
  domain : Option String
deriving DecidableEq

structure WorkRetired where
  workRef : String
  reason : RetireReason
  note : Option String
deriving DecidableEq

structure WorkDependencyDeclared where
  workRef : String
  dependencyWorkRef : String
  satisfactionPolicy : SatisfactionPolicy
deriving DecidableEq

structure ResultRecorded where
  workRef : String
  outcome : Outcome
  resultRef : String
  summary : Option String
  occurrenceKey : Option String
deriving DecidableEq

/-- A typed relation; a link never joins a ref to itself. -/
structure LinkAsserted where
  sourceRef : String
  relation : Relation
  targetRef : String
  noSelfLink : sourceRef ≠ targetRef
deriving DecidableEq

/-- The one value of an observation. -/
inductive ObservedValue
  | text (value : String)
  | number (value : Json.Double)
  | bool (value : Bool)
  | time (value : String)
deriving DecidableEq

/-- The source snapshot of an observation: a coherent tuple. -/
structure SourceBinding where
  sourceRef : String
  sourceRevision : Option String
  contentDigest : String
  fetchedAt : String
deriving DecidableEq

/-- What a collector measured: exactly one value, and all or nothing of a source. -/
structure ObservationRecorded where
  predicate : String
  value : ObservedValue
  observationMethodClass : ObservationMethod
  occurredAt : Option String
  source : Option SourceBinding
deriving DecidableEq

structure ClaimRecorded where
  proposition : String
  basisNote : Option String
deriving DecidableEq

/-- One configuration of an authority key; its members are a set. -/
structure AuthorityConfiguration where
  authorityKey : String
  configurationDigest : String
  authorityEpoch : Int
  members : List String
  quorum : Int
  priorConfigurationDigest : Option String
  successionProof : Option String
  uniqueMembers : members.Nodup
deriving DecidableEq

structure AuthorityReceipt where
  authorityKey : String
  operationDigest : String
  configurationDigest : String
  authorityEpoch : Int
  priorAuthorityReceiptDigest : Option String
  policyDigest : Option String
  quorumProof : String
deriving DecidableEq

inductive Payload
  | planCreated (payload : PlanCreated)
  | planLifecycleChanged (payload : PlanLifecycleChanged)
  | workDerived (payload : WorkDerived)
  | workDependencyDeclared (payload : WorkDependencyDeclared)
  | resultRecorded (payload : ResultRecorded)
  | linkAsserted (payload : LinkAsserted)
  | observationRecorded (payload : ObservationRecorded)
  | claimRecorded (payload : ClaimRecorded)
  | workRetired (payload : WorkRetired)
  | authorityConfiguration (payload : AuthorityConfiguration)
  | authorityReceipt (payload : AuthorityReceipt)
deriving DecidableEq

def Payload.kind : Payload → EventKind
  | planCreated _ => .planCreated
  | planLifecycleChanged _ => .planLifecycleChanged
  | workDerived _ => .workDerived
  | workDependencyDeclared _ => .workDependencyDeclared
  | resultRecorded _ => .resultRecorded
  | linkAsserted _ => .linkAsserted
  | observationRecorded _ => .observationRecorded
  | claimRecorded _ => .claimRecorded
  | workRetired _ => .workRetired
  | authorityConfiguration _ => .authorityConfiguration
  | authorityReceipt _ => .authorityReceipt

/-! ## `model_dump(mode="json")` -/

def optionalText (value : Option String) : Json := value.elim .null .str

def textList (items : List String) : Json := .arr (items.map .str)

/-- A key that appears in the dump only when it is set. -/
def setOnly (key : String) (value : Option Json) : List (String × Json) :=
  value.elim [] fun value => [(key, value)]

@[simp] theorem optionalText_wellKeyed (value : Option String) : (optionalText value).WellKeyed := by
  cases value <;> trivial

@[simp] theorem textList_wellKeyed (items : List String) : (textList items).WellKeyed := by
  change Json.WellKeyedItems _
  induction items with
  | nil => trivial
  | cons item items ih => exact ⟨trivial, ih⟩

@[simp] theorem optionalText_sortKeys (value : Option String) :
    (optionalText value).sortKeys = optionalText value := by
  cases value <;> simp [optionalText, Json.sortKeys]

@[simp] theorem textList_sortKeys (items : List String) :
    (textList items).sortKeys = textList items := by
  simp only [textList, Json.sortKeys, Json.arr.injEq]
  induction items with
  | nil => simp [Json.sortItems]
  | cons item items ih => simp [Json.sortItems, Json.sortKeys, ih]

theorem optionalText_injective : Function.Injective optionalText := by
  intro left right same
  cases left <;> cases right <;> simp_all [optionalText]

theorem textList_injective : Function.Injective textList := by
  intro left right same
  simp only [textList, Json.arr.injEq] at same
  exact List.map_injective_iff.mpr (fun _ _ same => Json.str.inj same) same

def PlanCreated.dump (p : PlanCreated) : List (String × Json) :=
  [("kind", .str EventKind.planCreated.value),
   ("plan_ref", .str p.planRef),
   ("project_ref", .str p.projectRef),
   ("objective", .str p.objective),
   ("rationale", optionalText p.rationale),
   ("lifecycle", .str p.lifecycle.value)] ++
  setOnly "scope" (p.scope.map .str) ++
  setOnly "constraints" (p.constraints.map textList) ++
  setOnly "expected_observations" (p.expectedObservations.map textList) ++
  setOnly "domain" (p.domain.map .str)

def PlanLifecycleChanged.dump (p : PlanLifecycleChanged) : List (String × Json) :=
  [("kind", .str EventKind.planLifecycleChanged.value),
   ("plan_ref", .str p.planRef),
   ("lifecycle", .str p.lifecycle.value),
   ("end_reason", optionalText (p.endReason.map EndReason.value))]

def WorkDerived.dump (p : WorkDerived) : List (String × Json) :=
  [("kind", .str EventKind.workDerived.value),
   ("work_ref", .str p.workRef),
   ("plan_ref", .str p.planRef),
   ("work_kind", .str p.workKind),
   ("role_requirement", optionalText p.roleRequirement),
   ("subject_ref", optionalText p.subjectRef)] ++
  setOnly "objective" (p.objective.map .str) ++
  setOnly "constraints" (p.constraints.map textList) ++
  setOnly "expected_observations" (p.expectedObservations.map textList) ++
  setOnly "domain" (p.domain.map .str)

def WorkRetired.dump (p : WorkRetired) : List (String × Json) :=
  [("kind", .str EventKind.workRetired.value),
   ("work_ref", .str p.workRef),
   ("reason", .str p.reason.value),
   ("note", optionalText p.note)]

def WorkDependencyDeclared.dump (p : WorkDependencyDeclared) : List (String × Json) :=
  [("kind", .str EventKind.workDependencyDeclared.value),
   ("work_ref", .str p.workRef),
   ("dependency_work_ref", .str p.dependencyWorkRef),
   ("satisfaction_policy", .str p.satisfactionPolicy.value)]

def ResultRecorded.dump (p : ResultRecorded) : List (String × Json) :=
  [("kind", .str EventKind.resultRecorded.value),
   ("work_ref", .str p.workRef),
   ("outcome", .str p.outcome.value),
   ("result_ref", .str p.resultRef),
   ("summary", optionalText p.summary)] ++
  setOnly "occurrence_key" (p.occurrenceKey.map .str)

def LinkAsserted.dump (p : LinkAsserted) : List (String × Json) :=
  [("kind", .str EventKind.linkAsserted.value),
   ("source_ref", .str p.sourceRef),
   ("relation", .str p.relation.value),
   ("target_ref", .str p.targetRef)]

namespace ObservationRecorded

def valueText (p : ObservationRecorded) : Option String :=
  match p.value with
  | .text value => some value
  | _ => none

def valueNumber (p : ObservationRecorded) : Option Json.Double :=
  match p.value with
  | .number value => some value
  | _ => none

def valueBool (p : ObservationRecorded) : Option Bool :=
  match p.value with
  | .bool value => some value
  | _ => none

def valueTime (p : ObservationRecorded) : Option String :=
  match p.value with
  | .time value => some value
  | _ => none

def sourceRef (p : ObservationRecorded) : Option String := p.source.map (·.sourceRef)

def sourceRevision (p : ObservationRecorded) : Option String := p.source.bind (·.sourceRevision)

def contentDigest (p : ObservationRecorded) : Option String := p.source.map (·.contentDigest)

def fetchedAt (p : ObservationRecorded) : Option String := p.source.map (·.fetchedAt)

def dump (p : ObservationRecorded) : List (String × Json) :=
  [("kind", .str EventKind.observationRecorded.value),
   ("predicate", .str p.predicate),
   ("value_text", optionalText p.valueText),
   ("value_number", p.valueNumber.elim .null .float),
   ("value_bool", p.valueBool.elim .null .bool),
   ("value_time", optionalText p.valueTime),
   ("observation_method_class", .str p.observationMethodClass.value),
   ("occurred_at", optionalText p.occurredAt),
   ("source_ref", optionalText p.sourceRef),
   ("source_revision", optionalText p.sourceRevision),
   ("content_digest", optionalText p.contentDigest),
   ("fetched_at", optionalText p.fetchedAt)]

end ObservationRecorded

def ClaimRecorded.dump (p : ClaimRecorded) : List (String × Json) :=
  [("kind", .str EventKind.claimRecorded.value),
   ("proposition", .str p.proposition),
   ("basis_note", optionalText p.basisNote)]

def AuthorityConfiguration.dump (p : AuthorityConfiguration) : List (String × Json) :=
  [("kind", .str EventKind.authorityConfiguration.value),
   ("authority_key", .str p.authorityKey),
   ("configuration_digest", .str p.configurationDigest),
   ("authority_epoch", .int p.authorityEpoch),
   ("members", textList p.members),
   ("quorum", .int p.quorum),
   ("prior_configuration_digest", optionalText p.priorConfigurationDigest),
   ("succession_proof", optionalText p.successionProof)]

def AuthorityReceipt.dump (p : AuthorityReceipt) : List (String × Json) :=
  [("kind", .str EventKind.authorityReceipt.value),
   ("authority_key", .str p.authorityKey),
   ("operation_digest", .str p.operationDigest),
   ("configuration_digest", .str p.configurationDigest),
   ("authority_epoch", .int p.authorityEpoch),
   ("prior_authority_receipt_digest", optionalText p.priorAuthorityReceiptDigest),
   ("policy_digest", optionalText p.policyDigest),
   ("quorum_proof", .str p.quorumProof)]

/-- `payload.model_dump(mode="json")`: the digested fields. -/
def Payload.modelDump : Payload → Json
  | planCreated p => .obj p.dump
  | planLifecycleChanged p => .obj p.dump
  | workDerived p => .obj p.dump
  | workDependencyDeclared p => .obj p.dump
  | resultRecorded p => .obj p.dump
  | linkAsserted p => .obj p.dump
  | observationRecorded p => .obj p.dump
  | claimRecorded p => .obj p.dump
  | workRetired p => .obj p.dump
  | authorityConfiguration p => .obj p.dump
  | authorityReceipt p => .obj p.dump

/-! ## The envelope -/

/-- The fields that the chain hash commits to. -/
structure HashedEnvelope where
  originNode : String
  originSeq : Int
  hlc : String
  kind : EventKind
  subjectRef : Option String
  actorRef : String
  policyDigest : Option String
  payloadDigest : String
  prevHash : Option String
  envelopeVersion : Int
  scopeDigest : Option String
deriving DecidableEq

/-- The nine fields of the version 1 preimage. -/
def HashedEnvelope.preimage (envelope : HashedEnvelope) : List (String × Json) :=
  [("origin_node", .str envelope.originNode),
   ("origin_seq", .int envelope.originSeq),
   ("hlc", .str envelope.hlc),
   ("kind", .str envelope.kind.value),
   ("subject_ref", optionalText envelope.subjectRef),
   ("actor_ref", .str envelope.actorRef),
   ("policy_digest", optionalText envelope.policyDigest),
   ("payload_digest", .str envelope.payloadDigest),
   ("prev_hash", optionalText envelope.prevHash)]

/-- The chain hash under the envelope's own version; `none` where the source raises. -/
def eventHash (platform : Platform) (envelope : HashedEnvelope) : Option String :=
  if envelope.envelopeVersion = 1 then some (digest platform (.obj envelope.preimage))
  else if envelope.envelopeVersion = 2 then
    some (digest platform (.obj (envelope.preimage ++
      [("envelope_version", .int 2), ("scope_digest", optionalText envelope.scopeDigest)])))
  else none

structure Envelope extends HashedEnvelope where
  eventId : String
  selfHash : String
  scopeRef : Option String
  signature : Option String
  signingKeyRef : Option String
  signatureScheme : Option String
deriving DecidableEq

/-- A committed event; without a payload it is a stub. -/
structure Event extends Envelope where
  payload : Option Payload
deriving DecidableEq

def Event.isStub (event : Event) : Bool := event.payload.isNone

/-- The cleartext scope, where there is one, opens the commitment. -/
def Envelope.scopeOpens (platform : Platform) (envelope : Envelope) : Bool :=
  match envelope.scopeRef with
  | none => true
  | some scopeRef =>
      !reservedScope scopeRef && envelope.scopeDigest == some (scopeDigestOf platform scopeRef)

/-- The payload digest that `verify` derives: of the payload, or the commitment of a stub. -/
def Event.derivedDigest (platform : Platform) (event : Event) : String :=
  event.payload.elim event.payloadDigest fun payload => digest platform payload.modelDump

/-- Re-derive the payload digest and the chain hash under the envelope's own version. -/
def Event.verify (platform : Platform) (event : Event) : Bool :=
  if event.envelopeVersion ≠ 1 ∧ event.envelopeVersion ≠ 2 then false
  else if event.envelopeVersion = 1 ∧ (event.scopeRef.isSome ∨ event.scopeDigest.isSome) then false
  else if !event.scopeOpens platform then false
  else
    let payloadDigest := event.derivedDigest platform
    let selfHash := eventHash platform
      { event.toHashedEnvelope with payloadDigest := payloadDigest }
    payloadDigest == event.payloadDigest && selfHash == some event.selfHash &&
      event.selfHash == event.eventId

/-- What `verify` accepts. -/
structure Event.Verified (platform : Platform) (event : Event) : Prop where
  version : event.envelopeVersion = 1 ∨ event.envelopeVersion = 2
  scopeless : event.envelopeVersion = 1 → event.scopeRef = none ∧ event.scopeDigest = none
  scopeOpens : event.scopeOpens platform = true
  payloadDigest : event.derivedDigest platform = event.payloadDigest
  selfHash : eventHash platform event.toHashedEnvelope = some event.selfHash
  eventId : event.selfHash = event.eventId

theorem Event.verify_iff (platform : Platform) (event : Event) :
    event.verify platform = true ↔ event.Verified platform := by
  unfold Event.verify
  constructor
  · intro accepted
    split at accepted
    · simp at accepted
    · rename_i version
      split at accepted
      · simp at accepted
      · rename_i scopeless
        split at accepted
        · simp at accepted
        · rename_i opens
          simp only [Bool.and_eq_true, beq_iff_eq] at accepted
          obtain ⟨⟨payloadDigest, selfHash⟩, eventId⟩ := accepted
          rw [payloadDigest] at selfHash
          refine ⟨by omega, ?_, by simpa using opens, payloadDigest, selfHash, eventId⟩
          intro one
          simpa [one] using scopeless
  · intro verified
    have version : ¬ (event.envelopeVersion ≠ 1 ∧ event.envelopeVersion ≠ 2) := by
      have := verified.version; omega
    have scopeless : ¬ (event.envelopeVersion = 1 ∧
        (event.scopeRef.isSome ∨ event.scopeDigest.isSome)) := by
      rintro ⟨one, some⟩
      simp [(verified.scopeless one).1, (verified.scopeless one).2] at some
    simp only [version, scopeless, verified.scopeOpens, verified.payloadDigest,
      verified.selfHash, verified.eventId, ↓reduceIte, Bool.not_true, Bool.false_eq_true,
      beq_self_eq_true, Bool.and_self]

end Kawa
