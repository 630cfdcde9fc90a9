import Kawa.Reduce
import Kawa.Lib.DistinctOn

/-!
The refresh of the console projections, on a connection that owns its transaction: the facets of
a node, the fleet, the provenance of evidence and the situation cards.  Times are texts in the
log and are cast where rows are put in order.
-/

namespace Kawa

namespace Console

open DistinctOn Result

inductive RefreshError
  | invalidTimestamp | checkViolation | replay (error : StoreError)
deriving DecidableEq

def ensure (condition : Bool) (error : RefreshError) : Except RefreshError Unit :=
  if condition then .ok () else .error error

/-! ## Facets -/

/-- `REGISTRY`: the predicates that are facets, with their units. -/
def registry : List (String × Option String) :=
  [("node_cpu_load1", some "load"), ("node_cpu_cores", some "count"),
    ("node_mem_total_bytes", some "bytes"), ("node_mem_available_bytes", some "bytes"),
    ("node_disk_total_bytes", some "bytes"), ("node_disk_free_bytes", some "bytes"),
    ("node_gpu_model", none), ("node_gpu_vram_total_bytes", some "bytes"),
    ("node_gpu_vram_used_bytes", some "bytes"), ("node_reachable", none)]

/-- What follows the first occurrence of a mark. -/
def afterMark (mark : List Char) : List Char → Option (List Char)
  | [] => if mark.isEmpty then some [] else none
  | c :: rest =>
      if mark.isPrefixOf (c :: rest) then some ((c :: rest).drop mark.length)
      else afterMark mark rest

/-- `coalesce(substring(source_revision FROM 'qualifier=(.*)$'), '')` -/
def qualifierOf (sourceRevision : Option String) : String :=
  ((sourceRevision.bind fun text => afterMark "qualifier=".toList text.toList).map
    String.ofList).getD ""

structure FacetRow where
  nodeRef : String
  predicate : String
  qualifier : String
  valueNumber : Option Json.Double
  valueText : Option String
  valueBool : Option Bool
  unit : Option String
  occurredAt : String
  fetchedAt : String
  sourceRef : String
  sourceEventId : String
deriving DecidableEq

def FacetRow.key (row : FacetRow) : String × String × String :=
  (row.nodeRef, row.predicate, row.qualifier)

/-- `num_nonnulls(value_number, value_text, value_bool) = 1` -/
def FacetRow.oneValue (row : FacetRow) : Bool :=
  [row.valueNumber.isSome, row.valueText.isSome, row.valueBool.isSome].count true = 1

/-- A row of the facet query, with the number that its order ends on. -/
structure Reading extends FacetRow where
  originSeq : Int
deriving DecidableEq

def readingOf (row : EventObservationRow) (event : EventRow) : Option Reading := do
  let (_, unit) ← registry.find? (·.1 = row.predicate)
  let occurredAt ← row.occurredAt
  let fetchedAt ← row.fetchedAt
  let sourceRef ← row.sourceRef
  return {
    nodeRef := event.originNode
    predicate := row.predicate
    qualifier := qualifierOf row.sourceRevision
    valueNumber := row.valueNumber
    valueText := row.valueText
    valueBool := row.valueBool
    unit := unit
    occurredAt := occurredAt
    fetchedAt := fetchedAt
    sourceRef := sourceRef
    sourceEventId := row.eventId
    originSeq := event.originSeq }

def readings (log : Log) : List Reading :=
  log.eventObservation.rows.filterMap fun row =>
    (log.events.find? row.eventId).bind (readingOf row)

section Refresh

variable {τ : Type} [LinearOrder τ] (timestamp : String → Option τ)

/-- Both casts to a timestamp. -/
def castTimes (row : FacetRow) : Option (τ × τ) := do
  return (← timestamp row.occurredAt, ← timestamp row.fetchedAt)

/-- A row with the instants that it is ordered by. -/
structure Dated (τ ρ : Type) where
  row : ρ
  occurred : τ
  fetched : τ

def date {ρ : Type} (facet : ρ → FacetRow) (row : ρ) : Except RefreshError (Dated τ ρ) :=
  match castTimes timestamp (facet row) with
  | some times => .ok ⟨row, times.1, times.2⟩
  | none => .error .invalidTimestamp

/-- `occurred_at DESC, fetched_at DESC, origin_seq DESC` -/
def readingOrder (dated : Dated τ Reading) : τ ×ₗ τ ×ₗ Int :=
  toLex (dated.occurred, toLex (dated.fetched, dated.row.originSeq))

abbrev FacetTable := Table FacetRow FacetRow.key

def latestFacets (dated : List (Dated τ Reading)) : FacetTable where
  rows := (distinctOn (·.row.key) readingOrder dated).map (·.row.toFacetRow)
  unique := by
    rw [List.map_map]
    exact nodup_groups dated

def refreshFleetNodeFacet (log : Log) : Except RefreshError FacetTable := do
  let dated ← (readings log).mapM (date timestamp Reading.toFacetRow)
  let facets := latestFacets dated
  ensure (facets.rows.all FacetRow.oneValue) .checkViolation
  return facets

/-! ## The fleet -/

inductive Reachability
  | ok | crit | unknown
deriving DecidableEq

structure FleetNode (τ : Type) where
  nodeRef : String
  reachability : Reachability
  reachabilitySource : Option String
  reachabilityAsOf : Option τ
  lastOriginSeq : Int
  lastEventAt : Option Int

/-- The checks of the table on the reachability. -/
def FleetNode.valid (node : FleetNode τ) : Bool :=
  (node.reachability = .unknown) = node.reachabilitySource.isNone ∧
    (node.reachability = .unknown ∨ node.reachabilityAsOf.isSome)

/-- `occurred_at DESC, fetched_at DESC, node_ref DESC, source_event_id DESC` -/
def probeOrder (dated : Dated τ FacetRow) : τ ×ₗ τ ×ₗ String ×ₗ String :=
  toLex (dated.occurred, toLex (dated.fetched, toLex (dated.row.nodeRef, dated.row.sourceEventId)))

/-- A node as its latest probe has it. -/
def fleetNode (log : Log) (probes : List (Dated τ FacetRow)) (nodeRef : String) : FleetNode τ :=
  let lastEventAt :=
    ((log.events.rows.filter (·.originNode = nodeRef)).map (·.recordedAt)).max?
  match probes.find? (·.row.qualifier = nodeRef) with
  | some probe =>
      { nodeRef := nodeRef
        reachability := if probe.row.valueBool = some true then .ok else .crit
        reachabilitySource :=
          some ("observation:node_reachable label=" ++ probe.row.qualifier)
        reachabilityAsOf := some probe.occurred
        lastOriginSeq := log.headSeq nodeRef
        lastEventAt := lastEventAt }
  | none =>
      { nodeRef := nodeRef
        reachability := .unknown
        reachabilitySource := none
        reachabilityAsOf := none
        lastOriginSeq := log.headSeq nodeRef
        lastEventAt := lastEventAt }

def refreshFleetNode (log : Log) (facets : FacetTable) :
    Except RefreshError (List (FleetNode τ)) := do
  let dated ← (facets.rows.filter (·.predicate = "node_reachable")).mapM (date timestamp id)
  let probes := distinctOn (·.row.qualifier) probeOrder dated
  let nodes := log.origins.map (fleetNode log probes)
  ensure (nodes.all FleetNode.valid) .checkViolation
  return nodes

/-! ## Evidence -/

structure EvidenceProvenance where
  linkEventId : String
  sourceRef : String
  relation : Relation
  targetRef : String
  recordedAt : Int
  actorRef : String
  sourceKind : Option EventKind
  targetKind : Option EventKind

def refreshEvidenceProvenance (log : Log) : List EvidenceProvenance :=
  log.eventLink.rows.filterMap fun link =>
    (log.events.find? link.eventId).map fun event =>
      { linkEventId := link.eventId
        sourceRef := link.sourceRef
        relation := link.relation
        targetRef := link.targetRef
        recordedAt := event.recordedAt
        actorRef := event.actorRef
        sourceKind := (log.events.find? link.sourceRef).map (·.kind)
        targetKind := (log.events.find? link.targetRef).map (·.kind) }

/-! ## The situation -/

/-- The projections that `_register_projection_state` has set to current. -/
def registered : List String :=
  ["fleet_node", "situation_rollup", "evidence_provenance", "fleet_node_facet"]

inductive Dimension
  | authority | execution | epistemic | healthReach | projectionFreshness
deriving DecidableEq

inductive SituationState
  | ok | attention | crit | unknown | incomplete
deriving DecidableEq

structure Situation where
  dimension : Dimension
  state : SituationState
  gap : Option String := none
  countTotal : Option Nat := none
  countNongreen : Option Nat := none
  residue : Option String := none
  sourceProjection : String

/-- The checks of the table. -/
def Situation.valid (card : Situation) : Bool :=
  (card.state ≠ .incomplete ∨ card.gap.any (· ≠ "")) ∧
    (card.gap = none ∨ card.state = .incomplete) ∧
    (∀ nongreen ∈ card.countNongreen, ∀ total ∈ card.countTotal, nongreen ≤ total) ∧
    card.residue ≠ some "" ∧
    (∀ nongreen ∈ card.countNongreen, nongreen = 0 ∨ card.residue.isSome)

/-- `_residue` -/
def residueOf (refs : List String) : Option String :=
  if refs = [] then none
  else
    let listed := ", ".intercalate (refs.take 10)
    if refs.length ≤ 10 then some listed
    else some (listed ++ " (+" ++ toString (refs.length - 10) ++ " more)")

def nongreenWork (work : CurrentWork) : Bool :=
  work.execution = .blocked ∨ work.execution = .retryable ∨ work.execution = .executionUnknown

def nongreenClaim (claim : CurrentClaimStanding) : Bool :=
  claim.standing = .contradicted ∨ claim.standing = .contested

def authorityCard : Situation where
  dimension := .authority
  state := .incomplete
  gap := some "verifier read-model absent (phase 2+)"
  sourceProjection := "none (deferred)"

def executionCard (projections : Projections) : Situation :=
  let rows := projections.currentWork.rows
  let nongreen := (rows.filter nongreenWork).map (·.workRef)
  { dimension := .execution
    state := if nongreen = [] then .ok else .attention
    countTotal := some rows.length
    countNongreen := some nongreen.length
    residue := residueOf nongreen
    sourceProjection := "current_work" }

def epistemicCard (projections : Projections) : Situation :=
  let rows := projections.currentClaimStanding.rows
  let nongreen := (rows.filter nongreenClaim).map fun claim =>
    String.ofList (claim.claimEventId.toList.take 24)
  { dimension := .epistemic
    state := if nongreen = [] then .ok else .attention
    countTotal := some rows.length
    countNongreen := some nongreen.length
    residue := residueOf nongreen
    sourceProjection := "current_claim_standing" }

/-- Workload and replication have no source and stay unknown. -/
def healthReachCard (nodes : List (FleetNode τ)) : Situation :=
  let bad := (nodes.filter (·.reachability = .crit)).map (·.nodeRef)
  { dimension := .healthReach
    state :=
      if bad ≠ [] then .crit
      else if nodes.all (·.reachability = .unknown) then .unknown
      else .ok
    countTotal := some nodes.length
    countNongreen := some bad.length
    residue := residueOf bad
    sourceProjection := "fleet_node" }

def freshnessCard : Situation where
  dimension := .projectionFreshness
  state := .incomplete
  gap := some ("core projections do not report state yet (only fleet_node, situation_rollup " ++
    "register)")
  countTotal := some registered.length
  countNongreen := some 0
  residue := residueOf []
  sourceProjection := "projection_state"

def refreshSituationRollup (projections : Projections) (nodes : List (FleetNode τ)) :
    Except RefreshError (List Situation) := do
  let cards := [authorityCard, executionCard projections, epistemicCard projections,
    healthReachCard nodes, freshnessCard]
  ensure (cards.all Situation.valid) .checkViolation
  return cards

structure ConsoleProjections (τ : Type) where
  facets : FacetTable
  nodes : List (FleetNode τ)
  evidence : List EvidenceProvenance
  situation : List Situation

def refreshConsoleProjections (log : Log) (projections : Projections) :
    Except RefreshError (ConsoleProjections τ) := do
  let facets ← refreshFleetNodeFacet timestamp log
  let nodes ← refreshFleetNode timestamp log facets
  let evidence := refreshEvidenceProvenance log
  let situation ← refreshSituationRollup projections nodes
  return { facets := facets, nodes := nodes, evidence := evidence, situation := situation }

/-- The rebuild with the refresh that ends it. -/
def rebuildAll (platform : Platform) (scan : Scan) (log : Log) :
    Except RefreshError (Projections × ConsoleProjections τ) := do
  let projections ← (rebuild platform scan log).mapError .replay
  let console ← refreshConsoleProjections timestamp log projections
  return (projections, console)

end Refresh

end Console

end Kawa
