import Kawa.Reduce
import Kawa.Lib.Discovery
import Kawa.Lib.Dict

/-!
The bounded walk over the relations of plans, works, results and claims, in both directions.
It caps what it reads at a node and what it returns altogether, and reports a truncation.
-/

namespace Kawa

namespace Relations

open Result Discovery

/-! ## Relations -/

structure Relation where
  sourceKind : String
  sourceId : String
  relationKind : String
  targetKind : String
  targetId : String
  basisEvent : String
  effectiveHlc : String
deriving DecidableEq

/-- `_RELATION_KEY` -/
def Relation.key (row : Relation) : String × String × String × String × String :=
  (row.sourceKind, row.sourceId, row.relationKind, row.targetKind, row.targetId)

/-- `current_relations` -/
abbrev RelationTable := Table Relation Relation.key

/-- A kind and an id. -/
abbrev Subject := String × String

def Relation.source (row : Relation) : Subject := (row.sourceKind, row.sourceId)

def Relation.target (row : Relation) : Subject := (row.targetKind, row.targetId)

def Relation.endpoints (row : Relation) : List Subject := [row.source, row.target]

inductive Standing
  | current | superseded | retired | unknown
deriving DecidableEq

def standingOf (projections : Projections) (kind subjectId : String) : Standing :=
  if kind = "plan" then
    match projections.currentPlans.find? subjectId with
    | none => .unknown
    | some plan =>
        if plan.lifecycle ≠ .ended then .current
        else if plan.endReason = some .superseded then .superseded
        else .retired
  else if kind = "work" then
    match projections.currentWork.find? subjectId with
    | none => .unknown
    | some work => if work.execution = .retired then .retired else .current
  else if kind = "claim" then
    match projections.currentClaimStanding.find? subjectId with
    | none => .unknown
    | some claim => if claim.standing = .superseded then .superseded else .current
  else if kind = "result" ∨ kind = "observation" then .current
  else .unknown

/-! ## The walk -/

def maxDepth : Int := 3
def maxFanOut : Nat := 20
def maxTotal : Nat := 100

/-- `_EDGE_ORDER`, every component of which descends. -/
def Relation.order (row : Relation) :
    ℕ ×ₗ ℕ ×ₗ String ×ₗ String ×ₗ String ×ₗ String ×ₗ String ×ₗ String :=
  let (phys, logical) :=
    ((parseHlc row.effectiveHlc).map fun (phys, logical, _) => (phys, logical)).getD (0, 0)
  toLex (phys, toLex (logical, toLex (row.basisEvent, toLex (row.sourceKind, toLex (row.sourceId,
    toLex (row.relationKind, toLex (row.targetKind, row.targetId)))))))

def matching (relations : RelationTable) (subject : Subject) : List Relation :=
  relations.rows.filter fun row => subject ∈ row.endpoints

def edgesAt (relations : RelationTable) (subject : Subject) : List Relation :=
  (matching relations subject).mergeSort fun left right => decide (right.order ≤ left.order)

/-- The query at a subject; its sort casts the stamp of every row. -/
def fetchEdges (relations : RelationTable) (subject : Subject) :
    Except StoreError (List Relation) := do
  require ((matching relations subject).all fun row => (parseHlc row.effectiveHlc).isSome)
    .malformedHlc
  return edgesAt relations subject

/-- `seen_nodes` in the order of insertion, of which `next_frontier` is the end. -/
structure Walk where
  edges : List Relation := []
  seenNodes : List Subject
  seenEdges : List (String × String × String × String × String) := []
  nextFrontier : List Subject := []
  isTruncated : Bool := false
  truncatedAtDepth : Option Nat := none

def Walk.truncate (walk : Walk) (depth : Nat) : Walk :=
  { walk with
    isTruncated := true
    truncatedAtDepth := walk.truncatedAtDepth <|> some depth }

def Walk.meet (walk : Walk) (subject : Subject) : Walk :=
  if subject ∈ walk.seenNodes then walk
  else
    { walk with
      seenNodes := walk.seenNodes ++ [subject]
      nextFrontier := walk.nextFrontier ++ [subject] }

def Walk.add (walk : Walk) (row : Relation) : Walk :=
  ({ walk with
      seenEdges := walk.seenEdges ++ [row.key]
      edges := walk.edges ++ [row] }.meet row.source).meet row.target

/-- The rows of one subject; the total cap ends the scan. -/
def scanRows (depth : Nat) : Walk → List Relation → Walk
  | walk, [] => walk
  | walk, row :: rows =>
      if row.key ∈ walk.seenEdges then scanRows depth walk rows
      else if maxTotal ≤ walk.edges.length then walk.truncate depth
      else scanRows depth (walk.add row) rows

/-- The subjects of one level; the total cap ends the level. -/
def visitFrontier (relations : RelationTable) (depth : Nat) :
    Walk → List Subject → Except StoreError Walk
  | walk, [] => .ok walk
  | walk, subject :: frontier =>
      if maxTotal ≤ walk.edges.length then .ok (walk.truncate depth)
      else if subject.1 = "unknown" then visitFrontier relations depth walk frontier
      else do
        let rows ← fetchEdges relations subject
        let scanned :=
          if maxFanOut < rows.length then
            scanRows depth (walk.truncate depth) (rows.take maxFanOut)
          else scanRows depth walk rows
        visitFrontier relations depth scanned frontier

/-- So many more levels, from the given one on. -/
def walkLevels (relations : RelationTable) :
    Nat → Nat → Walk → List Subject → Except StoreError Walk
  | 0, _, walk, _ => .ok walk
  | levels + 1, depth, walk, frontier => do
      let walk ← visitFrontier relations depth { walk with nextFrontier := [] } frontier
      if walk.nextFrontier = [] ∨ maxTotal ≤ walk.edges.length then return walk
      else walkLevels relations levels (depth + 1) walk walk.nextFrontier

def clampDepth (depth : Int) : Nat := (max 1 (min depth maxDepth)).toNat

structure Traversal where
  subject : Subject
  depth : Nat
  edges : List Relation
  nodeStanding : Dict String Standing
  isTruncated : Bool
  truncatedAtDepth : Option Nat
  totalEdgesDiscovered : Nat

def traverse (relations : RelationTable) (projections : Projections)
    (subjectKind subjectId : String) (depth : Int) : Except StoreError Traversal := do
  let subject := (subjectKind, subjectId)
  let walk ← walkLevels relations (clampDepth depth) 1 { seenNodes := [subject] } [subject]
  return {
    subject := subject
    depth := clampDepth depth
    edges := walk.edges
    nodeStanding := walk.seenNodes.foldl (fun nodes node =>
      Dict.set nodes (node.1 ++ ":" ++ node.2) (standingOf projections node.1 node.2)) []
    isTruncated := walk.isTruncated
    truncatedAtDepth := walk.truncatedAtDepth
    totalEdgesDiscovered := walk.edges.length }

end Relations

end Kawa
