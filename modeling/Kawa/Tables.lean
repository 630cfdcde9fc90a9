import Kawa.Events
import Kawa.Lib.Result
import Kawa.Lib.Table

/-!
The tables of the store.  The log holds envelopes and one typed payload row for each
materialized event; the projections are what the reducers write; the security plane
is written by admission and by the gates.
-/

namespace Kawa

open Result

/-- What makes a statement or a loader raise. -/
inductive StoreError
  | unstorableText | outOfRange | invalidUuid | uniqueViolation | checkViolation
  | notNullViolation | appendOnly | malformedHlc | missingRow | invalidPayload
  | scopedVersion1 | unknownVersion | unattested | unverified | missingReducer
deriving DecidableEq, Repr

/-! ## The log -/

/-- A row of `events`; `kind` is the envelope's. -/
structure EventRow extends Envelope where
  recordedAt : Int
  materialized : Bool
deriving DecidableEq

structure EventPlanRow where
  eventId : String
  planRef : String
  projectRef : String
  objective : Option String
  rationale : Option String
  lifecycle : Option Lifecycle
  endReason : Option EndReason
  scope : Option String
  constraints : Option (List String)
  expectedObservations : Option (List String)
  domain : Option String
deriving DecidableEq

structure EventWorkRow where
  eventId : String
  workRef : String
  planRef : String
  workKind : String
  roleRequirement : Option String
  subjectRef : Option String
  objective : Option String
  constraints : Option (List String)
  expectedObservations : Option (List String)
  domain : Option String
deriving DecidableEq

structure EventWorkDependencyRow where
  eventId : String
  workRef : String
  dependencyWorkRef : String
  satisfactionPolicy : SatisfactionPolicy
deriving DecidableEq

structure EventResultRow where
  eventId : String
  workRef : String
  outcome : Outcome
  resultRef : String
  summary : Option String
  occurrenceKey : Option String
deriving DecidableEq

structure EventWorkRetiredRow where
  eventId : String
  workRef : String
  reason : RetireReason
  note : Option String
deriving DecidableEq

structure EventLinkRow where
  eventId : String
  sourceRef : String
  relation : Relation
  targetRef : String
deriving DecidableEq

structure EventObservationRow where
  eventId : String
  predicate : String
  valueText : Option String
  valueNumber : Option Json.Double
  valueBool : Option Bool
  valueTime : Option String
  observationMethodClass : ObservationMethod
  occurredAt : Option String
  sourceRef : Option String
  sourceRevision : Option String
  contentDigest : Option String
  fetchedAt : Option String
deriving DecidableEq

structure EventClaimRow where
  eventId : String
  proposition : String
  basisNote : Option String
deriving DecidableEq

/-- `members` is the canonical JSON text of the list. -/
structure EventAuthorityConfigurationRow where
  eventId : String
  authorityKey : String
  configurationDigest : String
  authorityEpoch : Int
  members : String
  quorum : Int
  priorConfigurationDigest : Option String
  successionProof : Option String
deriving DecidableEq

structure EventAuthorityReceiptRow where
  eventId : String
  authorityKey : String
  operationDigest : String
  configurationDigest : String
  authorityEpoch : Int
  priorAuthorityReceiptDigest : Option String
  policyDigest : Option String
  quorumProof : String
deriving DecidableEq

structure Log where
  events : Table EventRow (·.eventId) := ∅
  eventPlan : Table EventPlanRow (·.eventId) := ∅
  eventWork : Table EventWorkRow (·.eventId) := ∅
  eventWorkDependency : Table EventWorkDependencyRow (·.eventId) := ∅
  eventResult : Table EventResultRow (·.eventId) := ∅
  eventWorkRetired : Table EventWorkRetiredRow (·.eventId) := ∅
  eventLink : Table EventLinkRow (·.eventId) := ∅
  eventObservation : Table EventObservationRow (·.eventId) := ∅
  eventClaim : Table EventClaimRow (·.eventId) := ∅
  eventAuthorityConfiguration : Table EventAuthorityConfigurationRow (·.eventId) := ∅
  eventAuthorityReceipt : Table EventAuthorityReceiptRow (·.eventId) := ∅
deriving DecidableEq

/-! ## The projections -/

inductive DependencyState
  | pending | satisfied | failed | conflicted | retired
deriving DecidableEq, Repr

inductive Execution
  | ready | blocked | finished | retryable | resultRecorded | executionUnknown | retired
deriving DecidableEq, Repr

inductive ClaimStanding
  | unevaluated | groundedSupported | contradicted | contested | superseded
deriving DecidableEq, Repr

structure CurrentPlan where
  planRef : String
  projectRef : String
  objective : String
  rationale : Option String
  lifecycle : Lifecycle
  endReason : Option EndReason
deriving DecidableEq

structure CurrentWork where
  workRef : String
  planRef : String
  workKind : String
  subjectRef : Option String
  roleRequirement : Option String
  execution : Execution
  dependencyTotal : Nat
  dependencySatisfied : Nat
  dependencyConflicted : Nat
deriving DecidableEq

structure CurrentWorkDependency where
  workRef : String
  dependencyWorkRef : String
  satisfactionPolicy : SatisfactionPolicy
  dependencyState : DependencyState
  resultRef : Option String
deriving DecidableEq

structure OccurrenceQuarantine where
  eventId : String
  workRef : String
  occurrenceKey : String
  firstEventId : String
deriving DecidableEq

/-- The order columns of a link endpoint, which are set together. -/
structure EndpointStamp where
  hlcPhys : Nat
  hlcLogical : Nat
  originNode : String
deriving DecidableEq

/-- A row of `event_links`.  `targetScopeRef` is never null; the other endpoint columns
are null until the endpoint is held. -/
structure LinkRow where
  sourceRef : String
  relation : Relation
  targetRef : String
  resolved : Bool
  assertedByEventId : String
  asserterScopeRef : String
  targetScopeRef : String
  targetStamp : Option EndpointStamp
  source : Option (String × EndpointStamp)
deriving DecidableEq

structure CurrentClaimStanding where
  claimEventId : String
  standing : ClaimStanding
deriving DecidableEq

structure Projections where
  currentPlans : Table CurrentPlan (·.planRef) := ∅
  currentWork : Table CurrentWork (·.workRef) := ∅
  currentWorkDependency :
    Table CurrentWorkDependency (fun row => (row.workRef, row.dependencyWorkRef)) := ∅
  resultOccurrenceQuarantine : Table OccurrenceQuarantine (·.eventId) := ∅
  eventLinks : Table LinkRow (fun row => (row.sourceRef, row.relation, row.targetRef)) := ∅
  currentClaimStanding : Table CurrentClaimStanding (·.claimEventId) := ∅
deriving DecidableEq

/-! ## The security plane -/

inductive ForkClassification
  | equivocation | restoreFork
deriving DecidableEq, Repr

structure ForkEvidence where
  originNode : String
  originSeq : Int
  heldEventId : String
  heldHash : String
  rivalEventId : String
  rivalHash : String
  heldKeyRef : Option String
  rivalKeyRef : Option String
  heldIncarnation : Option String
  rivalIncarnation : Option String
  classification : ForkClassification
  frozen : Bool
  resolvedBy : Option String
  chosenHead : Option String
  reason : Option String
deriving DecidableEq

structure AuthorityConflict where
  authorityKey : String
  digestA : String
  digestB : String
deriving DecidableEq

structure PolicyLineageRow where
  policyDigest : String
  canonicalBundle : String
  establishedReceiptDigest : String
  priorPolicyDigest : Option String
  supersededBy : Option String
deriving DecidableEq

structure ArchiveSegment where
  commitmentDigest : String
  originNode : String
  fromSeq : Int
  toSeq : Int
  fromHash : Option String
  toHash : String
  eventSetDigest : String
  archiverKeyRef : String
  detached : Bool
deriving DecidableEq

structure SecurityPlane where
  forkEvidence :
    Table ForkEvidence (fun row => (row.originNode, row.originSeq, row.rivalHash)) := ∅
  authorityConflict :
    Table AuthorityConflict (fun row => (row.authorityKey, row.digestA, row.digestB)) := ∅
  policyLineage : Table PolicyLineageRow (·.policyDigest) := ∅
  archiveSegment : Table ArchiveSegment (·.commitmentDigest) := ∅
deriving DecidableEq

structure Store where
  log : Log := {}
  projections : Projections := {}
  security : SecurityPlane := {}
deriving DecidableEq

/-! ## What the column types refuse -/

/-- A text column holds any text without NUL. -/
def storableText (text : String) : Bool := !text.toList.contains (Char.ofNat 0)

def storableTexts (texts : List String) : Bool := texts.all storableText

def bigintRange (n : Int) : Bool := decide (-(2 ^ 63) ≤ n ∧ n < 2 ^ 63)

def intRange (n : Int) : Bool := decide (-(2 ^ 31) ≤ n ∧ n < 2 ^ 31)

/-- A check that a statement makes before it writes. -/
def require (condition : Bool) (error : StoreError) : Except StoreError Unit :=
  if condition then .ok () else .error error

/-- `(text)::uuid` for a nullable column. -/
def castSubject (platform : Platform) (subjectRef : Option String) :
    Except StoreError (Option String) :=
  match subjectRef with
  | none => .ok none
  | some text =>
      match platform.castUuid text with
      | some stored => .ok (some stored)
      | none => .error .invalidUuid

@[simp] theorem require_ok {condition : Bool} {error : StoreError} {u : Unit} :
    require condition error = .ok u ↔ condition = true := by
  unfold require; split <;> simp_all

theorem castSubject_ok {platform : Platform} {subjectRef stored : Option String}
    (cast : castSubject platform subjectRef = .ok stored) :
    (subjectRef = none ∧ stored = none) ∨
      ∃ text printed, subjectRef = some text ∧ platform.castUuid text = some printed ∧
        stored = some printed := by
  unfold castSubject at cast
  split at cast
  · exact .inl ⟨rfl, by cases cast; rfl⟩
  · split at cast
    · rename_i printed found
      exact .inr ⟨_, printed, rfl, found, by cases cast; rfl⟩
    · cases cast

end Kawa
