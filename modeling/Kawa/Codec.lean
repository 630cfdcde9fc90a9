import Kawa.Tables

/-!
The storage codec: `insertPayload` writes the typed payload row of an event and
`loadPayload` reads it back; `rebuildEvent` puts a stored envelope and its payload
together again.
-/

namespace Kawa

/-- One INSERT: its text parameters must be storable and its key new. -/
def insertRow {ρ : Type} {key : ρ → String} (table : Table ρ key) (row : ρ)
    (texts : List String) : Except StoreError (Table ρ key) :=
  if !storableTexts texts then .error .unstorableText
  else
    match table.insert? row with
    | some next => .ok next
    | none => .error .uniqueViolation

/-- `SELECT … WHERE event_id=%s`, unpacked: raises where there is no row. -/
def fetchRow {ρ : Type} {key : ρ → String} (table : Table ρ key) (eventId : String) :
    Except StoreError ρ :=
  match table.find? eventId with
  | some row => .ok row
  | none => .error .missingRow

theorem insertRow_ok {ρ : Type} {key : ρ → String} {table next : Table ρ key} {row : ρ}
    {texts : List String} (inserted : insertRow table row texts = .ok next) :
    ∃ fresh : table.holds (key row) = false, next = table.append row fresh := by
  unfold insertRow at inserted
  split at inserted
  · cases inserted
  · split at inserted
    · rename_i appended
      obtain ⟨fresh, rfl⟩ := Table.insert?_eq_some.mp appended
      cases inserted
      exact ⟨fresh, rfl⟩
    · cases inserted

theorem fetchRow_ok {ρ : Type} {key : ρ → String} {table : Table ρ key} {eventId : String}
    {row : ρ} : fetchRow table eventId = .ok row ↔ row ∈ table ∧ key row = eventId := by
  rw [← Table.find?_eq_some]
  unfold fetchRow
  cases table.find? eventId <;> simp

/-! ## Writing a payload -/

def textsOf (value : Option String) : List String := value.toList

def itemsOf (value : Option (List String)) : List String := value.getD []

def insertPlanCreated (log : Log) (eventId : String) (p : PlanCreated) : Except StoreError Log := do
  let eventPlan ← insertRow log.eventPlan
    { eventId := eventId
      planRef := p.planRef
      projectRef := p.projectRef
      objective := some p.objective
      rationale := p.rationale
      lifecycle := some p.lifecycle
      endReason := none
      scope := p.scope
      constraints := p.constraints
      expectedObservations := p.expectedObservations
      domain := p.domain }
    ([p.planRef, p.projectRef, p.objective] ++ textsOf p.rationale ++ textsOf p.scope ++
      itemsOf p.constraints ++ itemsOf p.expectedObservations ++ textsOf p.domain)
  return { log with eventPlan := eventPlan }

def insertPlanLifecycleChanged (log : Log) (eventId : String) (p : PlanLifecycleChanged) :
    Except StoreError Log := do
  let eventPlan ← insertRow log.eventPlan
    { eventId := eventId
      planRef := p.planRef
      projectRef := ""
      objective := none
      rationale := none
      lifecycle := some p.lifecycle
      endReason := p.endReason
      scope := none
      constraints := none
      expectedObservations := none
      domain := none }
    [p.planRef]
  return { log with eventPlan := eventPlan }

def insertWorkDerived (platform : Platform) (log : Log) (eventId : String) (p : WorkDerived) :
    Except StoreError Log := do
  let subjectRef ← castSubject platform p.subjectRef
  let eventWork ← insertRow log.eventWork
    { eventId := eventId
      workRef := p.workRef
      planRef := p.planRef
      workKind := p.workKind
      roleRequirement := p.roleRequirement
      subjectRef := subjectRef
      objective := p.objective
      constraints := p.constraints
      expectedObservations := p.expectedObservations
      domain := p.domain }
    ([p.workRef, p.planRef, p.workKind] ++ textsOf p.roleRequirement ++ textsOf p.objective ++
      itemsOf p.constraints ++ itemsOf p.expectedObservations ++ textsOf p.domain)
  return { log with eventWork := eventWork }

def insertWorkRetired (log : Log) (eventId : String) (p : WorkRetired) : Except StoreError Log := do
  let eventWorkRetired ← insertRow log.eventWorkRetired
    { eventId := eventId, workRef := p.workRef, reason := p.reason, note := p.note }
    (p.workRef :: textsOf p.note)
  return { log with eventWorkRetired := eventWorkRetired }

def insertWorkDependencyDeclared (log : Log) (eventId : String) (p : WorkDependencyDeclared) :
    Except StoreError Log := do
  let eventWorkDependency ← insertRow log.eventWorkDependency
    { eventId := eventId
      workRef := p.workRef
      dependencyWorkRef := p.dependencyWorkRef
      satisfactionPolicy := p.satisfactionPolicy }
    [p.workRef, p.dependencyWorkRef]
  return { log with eventWorkDependency := eventWorkDependency }

def insertResultRecorded (log : Log) (eventId : String) (p : ResultRecorded) :
    Except StoreError Log := do
  let eventResult ← insertRow log.eventResult
    { eventId := eventId
      workRef := p.workRef
      outcome := p.outcome
      resultRef := p.resultRef
      summary := p.summary
      occurrenceKey := p.occurrenceKey }
    ([p.workRef, p.resultRef] ++ textsOf p.summary ++ textsOf p.occurrenceKey)
  return { log with eventResult := eventResult }

def insertLinkAsserted (log : Log) (eventId : String) (p : LinkAsserted) :
    Except StoreError Log := do
  let eventLink ← insertRow log.eventLink
    { eventId := eventId
      sourceRef := p.sourceRef
      relation := p.relation
      targetRef := p.targetRef }
    [p.sourceRef, p.targetRef]
  return { log with eventLink := eventLink }

def insertObservationRecorded (log : Log) (eventId : String) (p : ObservationRecorded) :
    Except StoreError Log := do
  let eventObservation ← insertRow log.eventObservation
    { eventId := eventId
      predicate := p.predicate
      valueText := p.valueText
      valueNumber := p.valueNumber
      valueBool := p.valueBool
      valueTime := p.valueTime
      observationMethodClass := p.observationMethodClass
      occurredAt := p.occurredAt
      sourceRef := p.sourceRef
      sourceRevision := p.sourceRevision
      contentDigest := p.contentDigest
      fetchedAt := p.fetchedAt }
    (p.predicate :: textsOf p.valueText ++ textsOf p.valueTime ++ textsOf p.occurredAt ++
      textsOf p.sourceRef ++ textsOf p.sourceRevision ++ textsOf p.contentDigest ++
      textsOf p.fetchedAt)
  return { log with eventObservation := eventObservation }

def insertClaimRecorded (log : Log) (eventId : String) (p : ClaimRecorded) :
    Except StoreError Log := do
  let eventClaim ← insertRow log.eventClaim
    { eventId := eventId, proposition := p.proposition, basisNote := p.basisNote }
    (p.proposition :: textsOf p.basisNote)
  return { log with eventClaim := eventClaim }

def insertAuthorityConfiguration (log : Log) (eventId : String) (p : AuthorityConfiguration) :
    Except StoreError Log := do
  require (bigintRange p.authorityEpoch && intRange p.quorum) .outOfRange
  let eventAuthorityConfiguration ← insertRow log.eventAuthorityConfiguration
    { eventId := eventId
      authorityKey := p.authorityKey
      configurationDigest := p.configurationDigest
      authorityEpoch := p.authorityEpoch
      members := Json.canonicalJson (textList p.members)
      quorum := p.quorum
      priorConfigurationDigest := p.priorConfigurationDigest
      successionProof := p.successionProof }
    ([p.authorityKey, p.configurationDigest] ++ textsOf p.priorConfigurationDigest ++
      textsOf p.successionProof)
  return { log with eventAuthorityConfiguration := eventAuthorityConfiguration }

def insertAuthorityReceipt (log : Log) (eventId : String) (p : AuthorityReceipt) :
    Except StoreError Log := do
  require (bigintRange p.authorityEpoch) .outOfRange
  let eventAuthorityReceipt ← insertRow log.eventAuthorityReceipt
    { eventId := eventId
      authorityKey := p.authorityKey
      operationDigest := p.operationDigest
      configurationDigest := p.configurationDigest
      authorityEpoch := p.authorityEpoch
      priorAuthorityReceiptDigest := p.priorAuthorityReceiptDigest
      policyDigest := p.policyDigest
      quorumProof := p.quorumProof }
    ([p.authorityKey, p.operationDigest, p.configurationDigest, p.quorumProof] ++
      textsOf p.priorAuthorityReceiptDigest ++ textsOf p.policyDigest)
  return { log with eventAuthorityReceipt := eventAuthorityReceipt }

/-- The typed payload row of one event. -/
def insertPayload (platform : Platform) (log : Log) (eventId : String) :
    Payload → Except StoreError Log
  | .planCreated p => insertPlanCreated log eventId p
  | .planLifecycleChanged p => insertPlanLifecycleChanged log eventId p
  | .workDerived p => insertWorkDerived platform log eventId p
  | .workDependencyDeclared p => insertWorkDependencyDeclared log eventId p
  | .resultRecorded p => insertResultRecorded log eventId p
  | .linkAsserted p => insertLinkAsserted log eventId p
  | .observationRecorded p => insertObservationRecorded log eventId p
  | .claimRecorded p => insertClaimRecorded log eventId p
  | .workRetired p => insertWorkRetired log eventId p
  | .authorityConfiguration p => insertAuthorityConfiguration log eventId p
  | .authorityReceipt p => insertAuthorityReceipt log eventId p

/-! ## Reading a payload -/

/-- The validation error of a payload constructor. -/
def validated {α : Type} (value : Option α) : Except StoreError α :=
  match value with
  | some value => .ok value
  | none => .error .invalidPayload

def loadPlanCreated (log : Log) (eventId : String) : Except StoreError PlanCreated := do
  let row ← fetchRow log.eventPlan eventId
  let objective ← validated row.objective
  let lifecycle ← validated row.lifecycle
  -- the SELECT names every column of the payload but `domain`
  return {
    planRef := row.planRef
    projectRef := row.projectRef
    objective := objective
    rationale := row.rationale
    lifecycle := lifecycle
    scope := row.scope
    constraints := row.constraints
    expectedObservations := row.expectedObservations
    domain := none }

def loadPlanLifecycleChanged (log : Log) (eventId : String) :
    Except StoreError PlanLifecycleChanged := do
  let row ← fetchRow log.eventPlan eventId
  let lifecycle ← validated row.lifecycle
  return { planRef := row.planRef, lifecycle := lifecycle, endReason := row.endReason }

def loadWorkDerived (log : Log) (eventId : String) : Except StoreError WorkDerived := do
  let row ← fetchRow log.eventWork eventId
  return {
    workRef := row.workRef
    planRef := row.planRef
    workKind := row.workKind
    roleRequirement := row.roleRequirement
    subjectRef := row.subjectRef
    objective := row.objective
    constraints := row.constraints
    expectedObservations := row.expectedObservations
    domain := none }

def loadWorkDependencyDeclared (log : Log) (eventId : String) :
    Except StoreError WorkDependencyDeclared := do
  let row ← fetchRow log.eventWorkDependency eventId
  return {
    workRef := row.workRef
    dependencyWorkRef := row.dependencyWorkRef
    satisfactionPolicy := row.satisfactionPolicy }

def loadResultRecorded (log : Log) (eventId : String) : Except StoreError ResultRecorded := do
  let row ← fetchRow log.eventResult eventId
  return {
    workRef := row.workRef
    outcome := row.outcome
    resultRef := row.resultRef
    summary := row.summary
    occurrenceKey := row.occurrenceKey }

def loadLinkAsserted (log : Log) (eventId : String) : Except StoreError LinkAsserted := do
  let row ← fetchRow log.eventLink eventId
  validated (if noSelfLink : row.sourceRef ≠ row.targetRef then
    some {
      sourceRef := row.sourceRef
      relation := row.relation
      targetRef := row.targetRef
      noSelfLink := noSelfLink }
  else none)

/-- Exactly one of the four value columns is set. -/
def observedValue (row : EventObservationRow) : Option ObservedValue :=
  match row.valueText, row.valueNumber, row.valueBool, row.valueTime with
  | some value, none, none, none => some (.text value)
  | none, some value, none, none => some (.number value)
  | none, none, some value, none => some (.bool value)
  | none, none, none, some value => some (.time value)
  | _, _, _, _ => none

/-- The source columns are all unset, or hold the coherent tuple. -/
def sourceBinding (row : EventObservationRow) : Option (Option SourceBinding) :=
  match row.sourceRef, row.contentDigest, row.fetchedAt with
  | some sourceRef, some contentDigest, some fetchedAt =>
      some (some {
        sourceRef := sourceRef
        sourceRevision := row.sourceRevision
        contentDigest := contentDigest
        fetchedAt := fetchedAt })
  | none, none, none => if row.sourceRevision.isNone then some none else none
  | _, _, _ => none

def loadObservationRecorded (log : Log) (eventId : String) :
    Except StoreError ObservationRecorded := do
  let row ← fetchRow log.eventObservation eventId
  let value ← validated (observedValue row)
  let source ← validated (sourceBinding row)
  return {
    predicate := row.predicate
    value := value
    observationMethodClass := row.observationMethodClass
    occurredAt := row.occurredAt
    source := source }

def loadClaimRecorded (log : Log) (eventId : String) : Except StoreError ClaimRecorded := do
  let row ← fetchRow log.eventClaim eventId
  return { proposition := row.proposition, basisNote := row.basisNote }

def loadWorkRetired (log : Log) (eventId : String) : Except StoreError WorkRetired := do
  let row ← fetchRow log.eventWorkRetired eventId
  return { workRef := row.workRef, reason := row.reason, note := row.note }

/-- The text of a JSON string. -/
def textOf? : Json → Option String
  | .str text => some text
  | _ => none

/-- `json.loads(members)`, validated as a list of texts. -/
def readMembersText (platform : Platform) (text : String) : Option (List String) :=
  match Json.loads platform.readFloat text with
  | some (.arr items) => items.mapM textOf?
  | _ => none

def loadAuthorityConfiguration (platform : Platform) (log : Log) (eventId : String) :
    Except StoreError AuthorityConfiguration := do
  let row ← fetchRow log.eventAuthorityConfiguration eventId
  let members ← validated (readMembersText platform row.members)
  validated (if uniqueMembers : members.Nodup then
    some {
      authorityKey := row.authorityKey
      configurationDigest := row.configurationDigest
      authorityEpoch := row.authorityEpoch
      members := members
      quorum := row.quorum
      priorConfigurationDigest := row.priorConfigurationDigest
      successionProof := row.successionProof
      uniqueMembers := uniqueMembers }
  else none)

def loadAuthorityReceipt (log : Log) (eventId : String) : Except StoreError AuthorityReceipt := do
  let row ← fetchRow log.eventAuthorityReceipt eventId
  return {
    authorityKey := row.authorityKey
    operationDigest := row.operationDigest
    configurationDigest := row.configurationDigest
    authorityEpoch := row.authorityEpoch
    priorAuthorityReceiptDigest := row.priorAuthorityReceiptDigest
    policyDigest := row.policyDigest
    quorumProof := row.quorumProof }

/-- The payload stored for an event, read from the table its envelope kind names. -/
def loadPayload (platform : Platform) (log : Log) (eventId : String) :
    EventKind → Except StoreError Payload
  | .planCreated => .planCreated <$> loadPlanCreated log eventId
  | .planLifecycleChanged => .planLifecycleChanged <$> loadPlanLifecycleChanged log eventId
  | .workDerived => .workDerived <$> loadWorkDerived log eventId
  | .workDependencyDeclared => .workDependencyDeclared <$> loadWorkDependencyDeclared log eventId
  | .resultRecorded => .resultRecorded <$> loadResultRecorded log eventId
  | .authorityConfiguration =>
      .authorityConfiguration <$> loadAuthorityConfiguration platform log eventId
  | .authorityReceipt => .authorityReceipt <$> loadAuthorityReceipt log eventId
  | .linkAsserted => .linkAsserted <$> loadLinkAsserted log eventId
  | .observationRecorded => .observationRecorded <$> loadObservationRecorded log eventId
  | .claimRecorded => .claimRecorded <$> loadClaimRecorded log eventId
  | .workRetired => .workRetired <$> loadWorkRetired log eventId

/-- A stored event, put together again; a row that is not materialized is a stub. -/
def rebuildEvent (platform : Platform) (log : Log) (row : EventRow) : Except StoreError Event :=
  if row.materialized then do
    let payload ← loadPayload platform log row.eventId row.kind
    return { row.toEnvelope with payload := some payload }
  else .ok { row.toEnvelope with payload := none }

end Kawa
