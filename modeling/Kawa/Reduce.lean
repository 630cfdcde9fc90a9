import Kawa.Stream

/-!
The reducers: one event into the projections, and the rebuild that replays the log.
A reducer reads the log and writes projections only.
-/

namespace Kawa

open Latest

/-! ## The causal order of stored rows -/

/-- `(hlc_physical, hlc_logical, origin_node, event_id)`. -/
abbrev CausalKey := Nat ×ₗ Nat ×ₗ String ×ₗ String

/-- The ordering components, or the raise on a malformed stamp. -/
def hlcParts (hlc : String) : Except StoreError (Nat × Nat) :=
  match parseHlc hlc with
  | some (phys, logical, _) => .ok (phys, logical)
  | none => .error .malformedHlc

def causalKey (hlc originNode eventId : String) : CausalKey :=
  let (phys, logical) := ((parseHlc hlc).map fun (phys, logical, _) => (phys, logical)).getD (0, 0)
  toLex (phys, toLex (logical, toLex (originNode, eventId)))

def Envelope.causalKey (envelope : Envelope) : CausalKey :=
  Kawa.causalKey envelope.hlc envelope.originNode envelope.eventId

/-- `JOIN events e ON e.event_id = …`. -/
def Log.joined {ρ : Type} (log : Log) (eventId : ρ → String) (rows : List ρ) :
    List (EventRow × ρ) :=
  rows.filterMap fun row => (log.events.find? (eventId row)).map (·, row)

/-- The sort expression casts the stamp of every row it meets. -/
def requireStamps {ρ : Type} (joined : List (EventRow × ρ)) : Except StoreError Unit :=
  require (joined.all fun pair => (parseHlc pair.1.hlc).isSome) .malformedHlc

/-- `ORDER BY … DESC LIMIT 1` in the causal order. -/
def latestRow {ρ : Type} (joined : List (EventRow × ρ)) : Except StoreError (Option ρ) := do
  requireStamps joined
  return (latest (·.1.causalKey) joined).map (·.2)

/-! ## Outcomes -/

/-- The dependency state that a dependency's latest result outcome gives. -/
def depState : Outcome → DependencyState
  | .success => .satisfied
  | .failure => .failed
  | .conflicted => .conflicted
  | .executionUnknown => .pending

/-- The work's own execution under its latest result outcome. -/
def ownExec : Outcome → Execution
  | .success => .finished
  | .failure => .retryable
  | .conflicted => .resultRecorded
  | .executionUnknown => .executionUnknown

/-- The order in which an unordered SELECT over the dependency rows returns them. -/
structure Scan where
  order : List CurrentWorkDependency → List CurrentWorkDependency
  perm : ∀ rows, (order rows).Perm rows

/-- The scan that returns rows as they are stored. -/
def Scan.stored : Scan := ⟨id, fun _ => .refl _⟩

section Reducers

variable (log : Log)

/-! ## Queries over the payload fact set -/

def latestResult (projections : Projections) (workRef : String) :
    Except StoreError (Option EventResultRow) :=
  latestRow (log.joined (·.eventId) (log.eventResult.rows.filter fun row =>
    row.workRef = workRef ∧ projections.resultOccurrenceQuarantine.holds row.eventId = false))

def latestDerive (workRef : String) : Except StoreError (Option EventWorkRow) :=
  latestRow (log.joined (·.eventId) (log.eventWork.rows.filter (·.workRef = workRef)))

def latestPlanCreated (planRef : String) : Except StoreError (Option EventPlanRow) :=
  latestRow ((log.joined (·.eventId) (log.eventPlan.rows.filter (·.planRef = planRef))).filter
    fun pair => pair.1.kind = .planCreated)

def latestLifecycle (planRef : String) : Except StoreError (Option EventPlanRow) :=
  latestRow (log.joined (·.eventId) (log.eventPlan.rows.filter fun row =>
    row.planRef = planRef ∧ row.lifecycle.isSome))

def retiredFact (workRef : String) : Bool := log.eventWorkRetired.rows.any (·.workRef = workRef)

/-- The results that carry an occurrence key, earliest first. -/
def occurrenceConsumers (workRef occurrenceKey : String) : Except StoreError (List String) := do
  let joined := log.joined (·.eventId) (log.eventResult.rows.filter fun row =>
    row.workRef = workRef ∧ row.occurrenceKey = some occurrenceKey)
  requireStamps joined
  return (joined.insertionSort fun left right => left.1.causalKey ≤ right.1.causalKey).map
    (·.2.eventId)

/-! ## Work -/

/-- Duplicate containment: the first consumer keeps the key, the others are quarantined. -/
def requarantineOccurrence (projections : Projections) (workRef occurrenceKey : String) :
    Except StoreError Projections := do
  match ← occurrenceConsumers log workRef occurrenceKey with
  | [] => return projections
  | winner :: losers =>
      let cleared := projections.resultOccurrenceQuarantine.delete fun row =>
        row.workRef = workRef ∧ row.occurrenceKey = occurrenceKey
      return { projections with
        resultOccurrenceQuarantine := losers.foldl (fun table loser => table.insertNew
          { eventId := loser
            workRef := workRef
            occurrenceKey := occurrenceKey
            firstEventId := winner }) cleared }

/-- Ready or blocked, from the dependency rows as they were read. -/
def readiness (rows : List CurrentWorkDependency) : Execution :=
  let resolved := rows.countP fun row =>
    row.dependencyState = .satisfied ∨ row.dependencyState = .conflicted
  let hasFailed := rows.any (·.dependencyState = .failed)
  let hasRetired := rows.any (·.dependencyState = .retired)
  match rows with
  | [] => .ready
  | first :: _ =>
      if first.satisfactionPolicy = .any then
        if 1 ≤ resolved then .ready else .blocked
      else if hasRetired || hasFailed then .blocked
      else if resolved = rows.length then .ready
      else .blocked

def recomputeReadiness (scan : Scan) (projections : Projections) (workRef : String) :
    Projections :=
  let rows := scan.order (projections.currentWorkDependency.rows.filter (·.workRef = workRef))
  { projections with
    currentWork := projections.currentWork.update
      (fun row => row.workRef = workRef ∧ row.execution ≠ .retired)
      (fun row => { row with
        dependencyTotal := rows.length
        dependencySatisfied := rows.countP fun row =>
          row.dependencyState = .satisfied ∨ row.dependencyState = .conflicted
        dependencyConflicted := rows.countP fun row => row.dependencyState = .conflicted
        execution := readiness rows })
      fun _ => rfl }

/-- The one writer of a work row: latest derive, retirement, latest result, readiness. -/
def recomputeWorkState (scan : Scan) (projections : Projections) (workRef : String) :
    Except StoreError Projections := do
  match ← latestDerive log workRef with
  | none => return projections
  | some derive =>
      let retired := retiredFact log workRef
      let result ← latestResult log projections workRef
      let execution :=
        if retired then Execution.retired
        else (result.map fun row => ownExec row.outcome).getD .ready
      let written := { projections with
        currentWork := projections.currentWork.upsert
          { workRef := workRef
            planRef := derive.planRef
            workKind := derive.workKind
            subjectRef := derive.subjectRef
            roleRequirement := derive.roleRequirement
            execution := execution
            dependencyTotal := 0
            dependencySatisfied := 0
            dependencyConflicted := 0 }
          (fun row => { row with
            planRef := derive.planRef
            workKind := derive.workKind
            subjectRef := derive.subjectRef
            roleRequirement := derive.roleRequirement
            execution := execution })
          fun _ => rfl }
      if !retired && result.isNone then return recomputeReadiness scan written workRef
      else return written

/-- Set the edges into `workRef` from its latest result, never over a retired edge. -/
def applyLatestResultToDependents (projections : Projections) (workRef : String)
    (onlyDependent : Option String) : Except StoreError Projections := do
  match ← latestResult log projections workRef with
  | none => return projections
  | some result => return { projections with
      currentWorkDependency := projections.currentWorkDependency.update
        (fun row => row.dependencyWorkRef = workRef ∧ row.dependencyState ≠ .retired ∧
          onlyDependent.all (· = row.workRef))
        (fun row => { row with
          dependencyState := depState result.outcome
          resultRef := some result.resultRef })
        fun _ => rfl }

/-- Resolve the edges into `workRef`, or the one from `onlyDependent`: retirement
dominates, else the latest result. -/
def settleEdges (projections : Projections) (workRef : String) (onlyDependent : Option String) :
    Except StoreError Projections :=
  if retiredFact log workRef then
    .ok { projections with
      currentWorkDependency := projections.currentWorkDependency.update
        (fun row => row.dependencyWorkRef = workRef ∧ onlyDependent.all (· = row.workRef))
        (fun row => { row with dependencyState := .retired })
        fun _ => rfl }
  else applyLatestResultToDependents log projections workRef onlyDependent

/-- Resolve every edge into `workRef`, then recompute each dependent through the fold. -/
def propagateToDependents (scan : Scan) (projections : Projections) (workRef : String) :
    Except StoreError Projections := do
  let settled ← settleEdges log projections workRef none
  let dependents := ((settled.currentWorkDependency.rows.filter
    (·.dependencyWorkRef = workRef)).map (·.workRef)).dedup
  dependents.foldlM (recomputeWorkState log scan) settled

/-- A dependency declaration: the first policy of an edge is kept. -/
def declareDependency (scan : Scan) (projections : Projections) (p : WorkDependencyDeclared) :
    Except StoreError Projections := do
  let declared := { projections with
    currentWorkDependency := projections.currentWorkDependency.insertNew
      { workRef := p.workRef
        dependencyWorkRef := p.dependencyWorkRef
        satisfactionPolicy := p.satisfactionPolicy
        dependencyState := .pending
        resultRef := none } }
  let settled ← settleEdges log declared p.dependencyWorkRef (some p.workRef)
  recomputeWorkState log scan settled p.workRef

/-- A result that carries no occurrence key contains nothing. -/
def containOccurrence (projections : Projections) (p : ResultRecorded) :
    Except StoreError Projections :=
  match p.occurrenceKey with
  | some occurrenceKey => requarantineOccurrence log projections p.workRef occurrenceKey
  | none => .ok projections

def reduceResult (scan : Scan) (projections : Projections) (p : ResultRecorded) :
    Except StoreError Projections := do
  let contained ← containOccurrence log projections p
  let own ← recomputeWorkState log scan contained p.workRef
  propagateToDependents log scan own p.workRef

def reduceRetired (scan : Scan) (projections : Projections) (p : WorkRetired) :
    Except StoreError Projections := do
  let own ← recomputeWorkState log scan projections p.workRef
  propagateToDependents log scan own p.workRef

/-! ## Plans -/

/-- The one writer of a plan row. -/
def recomputePlanState (projections : Projections) (planRef : String) :
    Except StoreError Projections := do
  match ← latestPlanCreated log planRef with
  | none => return projections
  | some created =>
      match ← latestLifecycle log planRef with
      | none => .error .missingRow
      | some moved =>
          match created.objective, moved.lifecycle with
          | some objective, some lifecycle =>
              let row : CurrentPlan :=
                { planRef := planRef
                  projectRef := created.projectRef
                  objective := objective
                  rationale := created.rationale
                  lifecycle := lifecycle
                  endReason := moved.endReason }
              return { projections with
                currentPlans := projections.currentPlans.upsert row
                  (fun old => { row with planRef := old.planRef }) fun _ => rfl }
          | _, _ => .error .notNullViolation

/-! ## Links -/

/-- `event.scope_ref or PUBLIC_SCOPE`. -/
def asserterScope (scopeRef : Option String) : String :=
  match scopeRef with
  | some "" => publicScope
  | some scopeRef => scopeRef
  | none => publicScope

/-- `COALESCE(e.scope_ref, '$public')`. -/
def endpointScope (row : EventRow) : String := row.scopeRef.getD publicScope

def endpointStamp (parts : Nat × Nat) (row : EventRow) : EndpointStamp :=
  { hlcPhys := parts.1, hlcLogical := parts.2, originNode := row.originNode }

/-- Fill the endpoint columns of the links that name a held event; the count is
whether any row was touched. -/
def resolveEndpoints (projections : Projections) (parts : Nat × Nat) (row : EventRow) :
    Projections × Bool :=
  let awaitsTarget : LinkRow → Bool := fun link =>
    link.targetRef = row.eventId ∧ link.resolved = false
  let targeted := projections.eventLinks.update awaitsTarget
    (fun link => { link with
      resolved := true
      targetScopeRef := endpointScope row
      targetStamp := some (endpointStamp parts row) }) fun _ => rfl
  let awaitsSource : LinkRow → Bool := fun link =>
    link.sourceRef = row.eventId ∧ link.source = none
  let sourced := targeted.update awaitsSource
    (fun link => { link with
      source := some (endpointScope row, endpointStamp parts row) }) fun _ => rfl
  ({ projections with eventLinks := sourced },
    projections.eventLinks.rows.any awaitsTarget || targeted.rows.any awaitsSource)

/-- The stamp columns of a held endpoint. -/
def endpointOf (eventId : String) : Except StoreError (Option (EventRow × EndpointStamp)) :=
  match log.events.find? eventId with
  | none => .ok none
  | some row => (hlcParts row.hlc).map fun parts => some (row, endpointStamp parts row)

/-- `INSERT INTO event_links … ON CONFLICT DO NOTHING`. -/
def insertLink (projections : Projections) (event : Envelope) (p : LinkAsserted) :
    Except StoreError Projections := do
  let target ← endpointOf log p.targetRef
  let source ← endpointOf log p.sourceRef
  return { projections with
    eventLinks := projections.eventLinks.insertNew
      { sourceRef := p.sourceRef
        relation := p.relation
        targetRef := p.targetRef
        resolved := target.isSome
        assertedByEventId := event.eventId
        asserterScopeRef := asserterScope event.scopeRef
        targetScopeRef := (target.map fun held => endpointScope held.1).getD publicScope
        targetStamp := target.map (·.2)
        source := source.map fun held => (endpointScope held.1, held.2) } }

/-! ## Claim standing -/

/-- The links that standing is derived from: endpoints and relation of each resolved row. -/
def resolvedLinks (projections : Projections) : List (String × Relation × String) :=
  (projections.eventLinks.rows.filter (·.resolved)).map fun link =>
    (link.sourceRef, link.relation, link.targetRef)

section Standing

variable (claims observations : List String) (links : List (String × Relation × String))

def supersededClaims : List String :=
  claims.filter fun claim => links.any fun link =>
    link.2.1 = .supersedes ∧ link.2.2 = claim

def supportsInto (target : String) : List String :=
  (links.filter fun link => link.2.1 = .supports ∧ link.2.2 = target).map (·.1)

/-- One popped claim's sources: `none` once an observation is met, else what is left
to visit and what has been seen. -/
def visitSources (superseded : List String) :
    List String → List String → List String → Option (List String × List String)
  | [], stack, seen => some (stack, seen)
  | source :: sources, stack, seen =>
      if source ∈ observations then none
      else if source ∈ claims ∧ source ∉ superseded ∧ source ∉ seen then
        visitSources superseded sources (source :: stack) (source :: seen)
      else visitSources superseded sources stack seen

/-- The support walk: each round pops one claim, and a claim is pushed at most once. -/
def walkSupports (superseded : List String) : Nat → List String → List String → Bool
  | 0, _, _ => false
  | _ + 1, [], _ => false
  | fuel + 1, claim :: stack, seen =>
      match visitSources claims observations superseded (supportsInto links claim) stack seen with
      | none => true
      | some (stack, seen) => walkSupports superseded fuel stack seen

def grounded (claim : String) : Bool :=
  walkSupports claims observations links (supersededClaims claims links) (claims.length + 2)
    [claim] [claim]

def contradictedClaim (claim : String) : Bool :=
  links.any fun (source, relation, target) =>
    relation = .contradicts ∧ target = claim ∧ (source ∈ claims ∨ source ∈ observations) ∧
      ¬ (source ∈ claims ∧ source ∈ supersededClaims claims links)

def claimStanding (claim : String) : ClaimStanding :=
  if claim ∈ supersededClaims claims links then .superseded
  else
    match grounded claims observations links claim, contradictedClaim claims observations links claim with
    | true, true => .contested
    | true, false => .groundedSupported
    | false, true => .contradicted
    | false, false => .unevaluated

end Standing

/-- Every claim's standing, over the current resolved links. -/
def recomputeStanding (projections : Projections) : Projections :=
  let claims := log.eventClaim.rows.map (·.eventId)
  let observations := log.eventObservation.rows.map (·.eventId)
  let links := resolvedLinks projections
  { projections with
    currentClaimStanding := (claims.insertionSort (· ≤ ·)).foldl (fun table claim =>
      table.upsert { claimEventId := claim, standing := claimStanding claims observations links claim }
        (fun row => { row with standing := claimStanding claims observations links claim })
        fun _ => rfl) projections.currentClaimStanding }

/-! ## One event -/

/-- The payload's own branch, and whether it touches what standing is derived from. -/
def reducePayload (scan : Scan) (projections : Projections) (event : Envelope) :
    Option Payload → Except StoreError (Projections × Bool)
  | some (.planCreated p) => (·, false) <$> recomputePlanState log projections p.planRef
  | some (.planLifecycleChanged p) => (·, false) <$> recomputePlanState log projections p.planRef
  | some (.workDerived p) => (·, false) <$> recomputeWorkState log scan projections p.workRef
  | some (.workDependencyDeclared p) => (·, false) <$> declareDependency log scan projections p
  | some (.resultRecorded p) => (·, false) <$> reduceResult log scan projections p
  | some (.workRetired p) => (·, false) <$> reduceRetired log scan projections p
  | some (.linkAsserted p) => (·, true) <$> insertLink log projections event p
  | some (.observationRecorded _) => .ok (projections, true)
  | some (.claimRecorded _) => .ok ({ projections with
      currentClaimStanding := projections.currentClaimStanding.insertNew
        { claimEventId := event.eventId, standing := .unevaluated } }, true)
  | some (.authorityConfiguration _) => .ok (projections, false)
  | some (.authorityReceipt _) => .ok (projections, false)
  | none => .error .missingReducer

/-- The endpoint columns of the links that name this event, if it is held. -/
def resolveHeld (projections : Projections) (event : Envelope) :
    Except StoreError (Projections × Bool) := do
  let parts ← hlcParts event.hlc
  match log.events.find? event.eventId with
  | none => return (projections, false)
  | some row => return resolveEndpoints projections parts row

/-- Reduce one event into the projections. -/
def reduce (scan : Scan) (event : Event) (projections : Projections) :
    Except StoreError Projections := do
  let (linked, resolvedAny) ← resolveHeld log projections event.toEnvelope
  let (reduced, touched) ← reducePayload log scan linked event.toEnvelope event.payload
  if resolvedAny || touched then return recomputeStanding log reduced
  else return reduced

end Reducers

/-- Truncate the projections and replay the log; every stored event must verify. -/
def rebuild (platform : Platform) (scan : Scan) (log : Log) : Except StoreError Projections := do
  let events ← loadEvents platform log
  events.foldlM (fun projections event => do
    require (event.verify platform) .unverified
    if event.isStub then return projections
    else reduce log scan event projections) {}

end Kawa
