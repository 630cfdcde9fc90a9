import Kawa.Reduce
import Kawa.Lib.Ranking

/-!
Retrieval of a neighborhood: a breadth-first walk over the resolved links.  At each node
one bounded seek is made for every scope pair of the viewer and every direction, and
the rows that come back are ranked before they are stepped over.
-/

namespace Kawa

open Ranking

def maxViewerScopes : Nat := 8
def leafBudget : Nat := 128
def candidatePerNode : Nat := 20
def pathEdgeBudget : Nat := 8

/-! ## Scope pairs -/

def pairsOf (scopes : List String) : List (String × String) :=
  (scopes.map fun scope => (scope, scope)) ++
    scopes.flatMap fun endpoint =>
      (scopes.filter (endpoint ≠ ·)).map fun asserter => (endpoint, asserter)

/-- Every viewer holds the scope that stands for a null column. -/
def heldScopes (viewerScopes : Finset String) : Finset String := insert publicScope viewerScopes

/-- A viewer of more scopes is served on the first ones. -/
def consultedScopes (viewerScopes : Finset String) : List String :=
  ((heldScopes viewerScopes).sort (· ≤ ·)).take maxViewerScopes

/-- The (endpoint, asserter) scopes that are consulted, and how many were dropped. -/
def scopePairs (viewerScopes : Finset String) : List (String × String) × Nat :=
  let kept := (pairsOf (consultedScopes viewerScopes)).take (leafBudget / 2)
  (kept, (pairsOf ((heldScopes viewerScopes).sort (· ≤ ·))).length - kept.length)

/-! ## Leaves -/

inductive Direction
  | out | into
deriving DecidableEq, Repr

def Direction.value : Direction → String
  | out => "out"
  | into => "in"

namespace LinkRow

/-- The endpoint that is stood on. -/
def near (link : LinkRow) : Direction → String
  | .out => link.sourceRef
  | .into => link.targetRef

/-- The endpoint that is stepped to. -/
def other (link : LinkRow) : Direction → String
  | .out => link.targetRef
  | .into => link.sourceRef

def otherScope (link : LinkRow) : Direction → Option String
  | .out => some link.targetScopeRef
  | .into => link.source.map (·.1)

def otherStamp (link : LinkRow) : Direction → Option EndpointStamp
  | .out => link.targetStamp
  | .into => link.source.map (·.2)

end LinkRow

def Relation.rank : Relation → Nat
  | supersedes => 0
  | contradicts => 1
  | supports => 2
  | reasonFor => 3
  | basedOn => 4
  | addresses => 5
  | causedBy => 6
  | corrects => 7
  | resolves => 8
  | reviews => 9
  | satisfies => 10

def EndpointStamp.parts (stamp : EndpointStamp) : Nat ×ₗ Nat ×ₗ String :=
  toLex (stamp.hlcPhys, toLex (stamp.hlcLogical, stamp.originNode))

structure Candidate where
  relation : Relation
  other : String
  direction : Direction
  leaf : Nat
  stamp : Option EndpointStamp
deriving DecidableEq

/-- The `WHERE` of a leaf; all its scopes are equalities. -/
def matchesLeaf (node : String) (direction : Direction) (pair : String × String)
    (relation : Option Relation) (link : LinkRow) : Bool :=
  link.near direction = node && link.resolved && link.otherScope direction = some pair.1 &&
    link.asserterScopeRef = pair.2 && relation.all (· = link.relation)

/-- The `ORDER BY` of a leaf: descending after the rank, where a null comes first. -/
def leafOrder (direction : Direction) (link : LinkRow) :
    Nat ×ₗ (WithTop (Nat ×ₗ Nat ×ₗ String) ×ₗ String)ᵒᵈ :=
  toLex (link.relation.rank,
    OrderDual.toDual (toLex ((link.otherStamp direction).map EndpointStamp.parts,
      link.other direction)))

def oneLeaf (links : List LinkRow) (node : String) (direction : Direction)
    (pair : String × String) (perNode : Nat) (relation : Option Relation) (leaf : Nat) :
    List Candidate :=
  ((sortBy (leafOrder direction) (links.filter (matchesLeaf node direction pair relation))).take
      perNode).map fun link =>
    { relation := link.relation
      other := link.other direction
      direction := direction
      leaf := leaf
      stamp := link.otherStamp direction }

def leafPlan (pairs : List (String × String)) : List (Direction × String × String) :=
  [Direction.out, Direction.into].flatMap fun direction => pairs.map fun pair => (direction, pair)

def leaves (links : List LinkRow) (node : String) (plan : List (Direction × String × String))
    (perNode : Nat) (relation : Option Relation) : List Candidate :=
  plan.zipIdx.flatMap fun entry =>
    oneLeaf links node entry.1.1 entry.1.2 perNode relation entry.2

/-! ## Candidate edges -/

/-- The order in which the database hands back the rows of a `UNION ALL`; a statement is
named by the node and the relation it asks for. -/
structure RowOrder where
  arrange : String → Option Relation → List Candidate → List Candidate
  perm : ∀ node relation rows, (arrange node relation rows).Perm rows

def RowOrder.asWritten : RowOrder where
  arrange _ _ rows := rows
  perm _ _ _ := List.Perm.refl _

/-- The relations of one budget group, as they are sorted. -/
def fairShare : List Relation := [.contradicts, .supports]

def saturatedLeaves (rows : List Candidate) (perNode : Nat) : List Nat :=
  ((rows.map (·.leaf)).dedup).filter fun leaf => perNode ≤ rows.countP (·.leaf = leaf)

/-- The saturated leaves that brought back no row of a relation. -/
def starvedLeaves (rows : List Candidate) (perNode : Nat) (relation : Relation) : List Nat :=
  (sortBy id (saturatedLeaves rows perNode)).filter fun leaf =>
    !rows.any fun row => row.leaf = leaf ∧ row.relation = relation

/-- The candidate edges at one node, and how many leaves the cap saturated. -/
def candidateEdges (order : RowOrder) (links : List LinkRow) (node : String)
    (pairs : List (String × String)) (perNode : Nat) : List Candidate × Nat :=
  let plan := leafPlan pairs
  let rows := order.arrange node none (leaves links node plan perNode none)
  let topUp := fairShare.flatMap fun relation =>
    order.arrange node (some relation)
      (leaves links node ((starvedLeaves rows perNode relation).filterMap (plan[·]?)) perNode
        (some relation))
  (rows ++ topUp, (saturatedLeaves rows perNode).length)

/-! ## Ranking the edges of a node -/

structure Edge where
  relation : Relation
  other : String
  direction : Direction
  stamp : Option EndpointStamp
deriving DecidableEq

def Candidate.edge (row : Candidate) : Edge :=
  { relation := row.relation, other := row.other, direction := row.direction, stamp := row.stamp }

/-- The edge as the tuple that `sorted` compares. -/
def Edge.tuple (edge : Edge) : String ×ₗ String ×ₗ String ×ₗ WithBot (Nat ×ₗ Nat ×ₗ String) :=
  toLex (edge.relation.value, toLex (edge.other, toLex (edge.direction.value,
    edge.stamp.map EndpointStamp.parts)))

/-- `hlc_parts_sort_key`: an absent stamp is below every present one. -/
def hlcPartsSortKey (stamp : Option EndpointStamp) (unique : String ×ₗ String) :
    WithBot (Nat ×ₗ Nat ×ₗ String) ×ₗ String ×ₗ String :=
  toLex (stamp.map EndpointStamp.parts, unique)

def Edge.key (edge : Edge) : WithBot (Nat ×ₗ Nat ×ₗ String) ×ₗ String ×ₗ String :=
  hlcPartsSortKey edge.stamp (toLex (edge.other, edge.direction.value))

def Relation.group : Relation → Nat
  | supersedes => 0
  | supports | contradicts => 1
  | reasonFor => 2
  | basedOn => 3
  | addresses | causedBy | corrects | resolves | reviews | satisfies => 4

/-- One of the left, one of the right, and so on; then what is left over. -/
def interleave : List Edge → List Edge → List Edge
  | [], right => right
  | left, [] => left
  | l :: left, r :: right => l :: r :: interleave left right

/-- The edges of a node in the order they are expanded. -/
def expansionOrder (rows : List Candidate) : List Edge :=
  let distinct := sortBy Edge.tuple (rows.map Candidate.edge).dedup
  let recent := sortBy (fun edge => OrderDual.toDual edge.key) distinct
  let edges := sortBy (fun edge => toLex (edge.relation.group, edge.relation.value)) recent
  edges.filter (·.relation.group < 1) ++
    interleave (edges.filter (·.relation = .supports)) (edges.filter (·.relation = .contradicts)) ++
    edges.filter (1 < ·.relation.group)

/-! ## Records -/

inductive FrontierReason
  | depthLimit | rowCap | cycle | unresolved
deriving DecidableEq, Repr

structure FrontierEntry where
  sourceNode : String
  relation : Relation
  nextRef : String
  reason : FrontierReason
deriving DecidableEq

structure Record where
  ref : String
  kind : String
  summary : String
  backend : String
  classId : String
  path : String
  pathTruncated : Bool
  standing : Option ClaimStanding
deriving DecidableEq

/-- `text[:n]`. -/
def clip (text : String) (n : Nat) : String := String.ofList (text.toList.take n)

/-- The first row for an event, where the query expects one. -/
def fetchOne {ρ : Type} (row : Option ρ) : Except StoreError ρ :=
  match row with
  | some row => .ok row
  | none => .error .missingRow

section Summary

variable (numberText : Json.Double → String) (log : Log)

/-- `coalesce(value_text, value_number::text, value_bool::text, value_time)`. -/
def observedText (row : EventObservationRow) : String :=
  (row.valueText.orElse fun _ => (row.valueNumber.map numberText).orElse fun _ =>
    (row.valueBool.map fun value => if value then "true" else "false").orElse fun _ =>
      row.valueTime).getD "None"

def planSummary (row : EventPlanRow) : String :=
  row.planRef ++ ": " ++
    (row.objective.orElse fun _ => row.lifecycle.map Lifecycle.value).getD "None"

def summaryOf (eventId : String) : Except StoreError (String × String) :=
  match log.events.find? eventId with
  | none => .ok ("unknown", "")
  | some event =>
      (match event.kind with
        | .claimRecorded => (fetchOne (log.eventClaim.find? eventId)).map
            fun (row : EventClaimRow) => row.proposition
        | .observationRecorded => (fetchOne (log.eventObservation.find? eventId)).map
            fun (row : EventObservationRow) =>
            row.predicate ++ " = " ++ observedText numberText row
        | .linkAsserted => (fetchOne (log.eventLink.find? eventId)).map
            fun (row : EventLinkRow) =>
            clip row.sourceRef 20 ++ "… --" ++ row.relation.value ++ "--> " ++
              clip row.targetRef 20 ++ "…"
        | .planCreated | .planLifecycleChanged =>
            (fetchOne (log.eventPlan.find? eventId)).map planSummary
        | .workDerived => (fetchOne (log.eventWork.find? eventId)).map
            fun (row : EventWorkRow) =>
            row.workRef ++ " (" ++ row.planRef ++ ")"
        | .resultRecorded => (fetchOne (log.eventResult.find? eventId)).map
            fun (row : EventResultRow) =>
            row.workRef ++ ": " ++ row.outcome.value
        | _ => .ok "").map fun summary => (event.kind.value, summary)

end Summary

def standingOf (projections : Projections) (eventId : String) : Option ClaimStanding :=
  (projections.currentClaimStanding.find? eventId).map (·.standing)

/-! ## The walk -/

structure Request where
  root : String
  relationDepth : Int
  backend : String
  classId : String
  budget : Int
  viewerScopes : Finset String

structure CandidateTruncation where
  nodes : Nat
  worstNode : String
  worstLeaves : Nat
  perNode : Nat
  scopePairsDropped : Nat
deriving DecidableEq

/-- The walk between two nodes. -/
structure Walk where
  queue : List (String × Nat × String)
  visited : List String
  records : List Record := []
  traversalFrontier : List FrontierEntry := []
  saturating : List (Nat × String) := []
  withheld : Nat := 0

/-- The most saturated leaves, and the least node that has so many. -/
def worst (saturating : List (Nat × String)) : Nat × String :=
  let most := (saturating.map (·.1)).foldl max 0
  match (saturating.filter (·.1 = most)).map (·.2) with
  | [] => (0, "")
  | ref :: refs => (most, refs.foldl min ref)

section Walk

variable (numberText : Json.Double → String) (order : RowOrder) (store : Store)
  (request : Request)

/-- Resolved links at a node that the viewer may not see.  The `WHERE` is unknown for an
asserter in scope whose far endpoint is not held. -/
def withheldAt (node : String) : Nat :=
  store.projections.eventLinks.rows.countP fun link =>
    link.resolved && (link.sourceRef = node || link.targetRef = node) &&
      (link.asserterScopeRef ∉ request.viewerScopes ||
        (link.otherScope (if link.sourceRef = node then .out else .into)).any
          (· ∉ request.viewerScopes))

def arrow (relation : Relation) : Direction → String
  | .out => "-" ++ relation.value ++ "->"
  | .into => "<-" ++ relation.value ++ "-"

def recordOf (depth : Nat) (newPath other : String) : Except StoreError Record := do
  let truncated := decide (pathEdgeBudget < newPath.toList.count '-' / 2)
  let (kind, summary) ← summaryOf numberText store.log other
  return {
    ref := other
    kind := kind
    summary := summary
    backend := request.backend
    classId := request.classId
    path :=
      if truncated then
        request.root ++ " …(+" ++ toString (depth + 1) ++ " edges) " ++ clip other 16 ++ "…"
      else newPath
    pathTruncated := truncated
    standing := standingOf store.projections other }

/-- Step over one edge of a node. -/
def visitEdge (node : String) (depth : Nat) (path : String) (walk : Walk) (edge : Edge) :
    Except StoreError Walk :=
  let stopped := fun reason =>
    { walk with
      traversalFrontier := walk.traversalFrontier ++ [⟨node, edge.relation, edge.other, reason⟩] }
  if edge.other ∈ walk.visited then .ok (stopped .cycle)
  else if (depth : Int) + 1 > request.relationDepth then .ok (stopped .depthLimit)
  else if (walk.records.length : Int) ≥ request.budget then .ok (stopped .rowCap)
  else
    let newPath := path ++ " " ++ arrow edge.relation edge.direction ++ " " ++ clip edge.other 16 ++ "…"
    (recordOf numberText store request depth newPath edge.other).map fun record =>
      { walk with
        visited := edge.other :: walk.visited
        records := walk.records ++ [record]
        queue := walk.queue ++ [(edge.other, depth + 1, newPath)] }

/-- Expand the first node of the queue. -/
def expandNode (walk : Walk) (node : String) (depth : Nat) (path : String) :
    Except StoreError Walk :=
  let (rows, saturated) := candidateEdges order store.projections.eventLinks.rows node
    (scopePairs request.viewerScopes).1 candidatePerNode
  (expansionOrder rows).foldlM (visitEdge numberText store request node depth path)
    { walk with
      saturating :=
        if saturated = 0 then walk.saturating else walk.saturating ++ [(saturated, node)]
      withheld := walk.withheld + withheldAt store request node }

def walkQueue : Nat → Walk → Except StoreError Walk
  | 0, walk => .ok walk
  | fuel + 1, walk =>
      match walk.queue with
      | [] => .ok walk
      | (node, depth, path) :: queue =>
          (expandNode numberText order store request { walk with queue } node depth path).bind
            (walkQueue fuel)

/-- What one walk adds to a bundle. -/
structure Neighborhood where
  records : List Record
  traversalFrontier : List FrontierEntry
  unresolvedFrontier : List FrontierEntry
  withheld : Nat
  candidateTruncation : Option CandidateTruncation
  expanded : List String

/-- Links of the root whose target is not held, where the asserting event is in scope. -/
def unresolvedFrontier : List FrontierEntry :=
  (store.projections.eventLinks.rows.filter fun link =>
    !link.resolved && (link.sourceRef = request.root || link.targetRef = request.root) &&
      (store.log.events.find? link.assertedByEventId).any fun asserting =>
        asserting.scopeRef.all (· ∈ request.viewerScopes)).map fun link =>
    ⟨link.sourceRef, link.relation, link.targetRef, .unresolved⟩

def candidateTruncation (saturating : List (Nat × String)) (pairsDropped : Nat) :
    Option CandidateTruncation :=
  if saturating = [] ∧ pairsDropped = 0 then none
  else
    let (worstLeaves, worstNode) := worst saturating
    some {
      nodes := saturating.length
      worstNode := worstNode
      worstLeaves := worstLeaves
      perNode := candidatePerNode
      scopePairsDropped := pairsDropped }

/-- A node is queued once for each record, so the walk takes at most one step more than
the budget. -/
def execNeighborhood : Except StoreError Neighborhood :=
  (walkQueue numberText order store request (request.budget.toNat + 1)
    { queue := [(request.root, 0, request.root)], visited := [request.root] }).map fun walk =>
    { records := walk.records
      traversalFrontier := walk.traversalFrontier
      unresolvedFrontier := unresolvedFrontier store request
      withheld := walk.withheld
      candidateTruncation :=
        candidateTruncation walk.saturating (scopePairs request.viewerScopes).2
      expanded := walk.visited }

end Walk

/-! ## The walk ends -/

section Drained

open Result

variable {numberText : Json.Double → String} {order : RowOrder} {store : Store}
  {request : Request}

/-- What the walk still has to do at most: nodes to expand, and records to spend. -/
def Walk.load (walk : Walk) (request : Request) : Nat :=
  walk.queue.length + (request.budget.toNat - walk.records.length)

theorem visitEdge_load {node : String} {depth : Nat} {path : String} {walk next : Walk}
    {edge : Edge} (visited : visitEdge numberText store request node depth path walk edge = .ok next) :
    next.load request ≤ walk.load request := by
  unfold visitEdge at visited
  by_cases seen : edge.other ∈ walk.visited
  · simp only [seen, ↓reduceIte] at visited
    cases visited
    exact le_refl _
  by_cases deep : (depth : Int) + 1 > request.relationDepth
  · simp only [seen, deep, ↓reduceIte] at visited
    cases visited
    exact le_refl _
  by_cases full : (walk.records.length : Int) ≥ request.budget
  · simp only [seen, deep, full, ↓reduceIte] at visited
    cases visited
    exact le_refl _
  simp only [seen, deep, full, ↓reduceIte] at visited
  obtain ⟨record, _, rfl⟩ := map_ok.mp visited
  unfold Walk.load
  simp only [List.length_append, List.length_cons, List.length_nil]
  omega

theorem expandNode_load {walk next : Walk} {node : String} {depth : Nat} {path : String}
    (expanded : expandNode numberText order store request walk node depth path = .ok next) :
    next.load request ≤ walk.load request := by
  unfold expandNode at expanded
  generalize candidateEdges order store.projections.eventLinks.rows node _ _ = found at expanded
  obtain ⟨rows, saturated⟩ := found
  have stepped : ∀ state edge later, edge ∈ expansionOrder rows →
      state.load request ≤ walk.load request →
      visitEdge numberText store request node depth path state edge = .ok later →
      later.load request ≤ walk.load request :=
    fun _ _ _ _ below step => (visitEdge_load step).trans below
  refine foldlM_invariant stepped ?_ expanded
  exact le_refl (walk.load request)

theorem walkQueue_drained (fuel : Nat) {walk ended : Walk} (enough : walk.load request ≤ fuel)
    (walked : walkQueue numberText order store request fuel walk = .ok ended) :
    ended.queue = [] := by
  induction fuel generalizing walk with
  | zero =>
      cases walked
      unfold Walk.load at enough
      exact List.length_eq_zero_iff.mp (by omega)
  | succ fuel ih =>
      unfold walkQueue at walked
      cases queued : walk.queue with
      | nil =>
          rw [queued] at walked
          cases walked
          exact queued
      | cons first queue =>
          obtain ⟨node, depth, path⟩ := first
          rw [queued] at walked
          obtain ⟨next, expanded, rest⟩ := bind_ok.mp walked
          have lighter := expandNode_load expanded
          refine ih ?_ rest
          unfold Walk.load at enough lighter ⊢
          rw [queued] at enough
          simp only [List.length_cons] at enough lighter ⊢
          omega

/-- The fuel of a neighborhood is enough: its walk ends with nothing left to expand. -/
theorem neighborhood_drained {ended : Walk}
    (walked : walkQueue numberText order store request (request.budget.toNat + 1)
      { queue := [(request.root, 0, request.root)], visited := [request.root] } = .ok ended) :
    ended.queue = [] := by
  refine walkQueue_drained _ ?_ walked
  unfold Walk.load
  simp only [List.length_cons, List.length_nil]
  omega

end Drained

end Kawa
