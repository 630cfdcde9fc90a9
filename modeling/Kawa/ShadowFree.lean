import Kawa.Retrieval

/-!
What a neighborhood says to a viewer does not depend on the links hidden from them.  A
hidden link matches no leaf, so it takes no place under a cap; the rest of the walk
reads the candidate edges only as a set.
-/

namespace Kawa

open Ranking

/-- Resolved, and invisible from both ends: the asserter's scope is not held, or no far
endpoint's is. -/
def LinkRow.Hidden (held : Finset String) (link : LinkRow) : Prop :=
  link.resolved = true ∧
    (link.asserterScopeRef ∉ held ∨
      ∀ direction, ∀ scope ∈ link.otherScope direction, scope ∉ held)

/-- Two stores that differ in hidden links at most. -/
structure SameButHidden (held : Finset String) (left right : Store) : Prop where
  log : left.log = right.log
  projections :
    { left.projections with eventLinks := ∅ } = { right.projections with eventLinks := ∅ }
  links : ∀ link : LinkRow, ¬link.Hidden held →
    (link ∈ left.projections.eventLinks ↔ link ∈ right.projections.eventLinks)

/-- What the viewer is told, and the nodes that were expanded for it. -/
def Neighborhood.answer (neighborhood : Neighborhood) :
    List Record × List FrontierEntry × Option CandidateTruncation × List String :=
  (neighborhood.records, neighborhood.traversalFrontier, neighborhood.candidateTruncation,
    neighborhood.expanded)

/-! ## Leaves -/

theorem mem_pairsOf {scopes : List String} {pair : String × String} :
    pair ∈ pairsOf scopes ↔ pair.1 ∈ scopes ∧ pair.2 ∈ scopes := by
  obtain ⟨endpoint, asserter⟩ := pair
  unfold pairsOf
  rw [List.mem_append, List.mem_map, List.mem_flatMap]
  constructor
  · rintro (⟨scope, held, same⟩ | ⟨first, firstHeld, listed⟩)
    · cases same
      exact ⟨held, held⟩
    · obtain ⟨second, secondHeld, same⟩ := List.mem_map.mp listed
      cases same
      exact ⟨firstHeld, List.mem_of_mem_filter secondHeld⟩
  · rintro ⟨endpointHeld, asserterHeld⟩
    by_cases same : endpoint = asserter
    · exact .inl ⟨endpoint, endpointHeld, by rw [same]⟩
    · refine .inr ⟨endpoint, endpointHeld, List.mem_map.mpr ⟨asserter, ?_, rfl⟩⟩
      exact List.mem_filter.mpr ⟨asserterHeld, by simpa using same⟩

theorem scopePairs_held {viewer : Finset String} {pair : String × String}
    (kept : pair ∈ (scopePairs viewer).1) :
    pair.1 ∈ heldScopes viewer ∧ pair.2 ∈ heldScopes viewer := by
  have listed := mem_pairsOf.mp (List.mem_of_mem_take kept)
  exact ⟨(Finset.mem_sort _).mp (List.mem_of_mem_take listed.1),
    (Finset.mem_sort _).mp (List.mem_of_mem_take listed.2)⟩

theorem matchesLeaf_iff {node : String} {direction : Direction} {pair : String × String}
    {relation : Option Relation} {link : LinkRow} :
    matchesLeaf node direction pair relation link = true ↔
      link.near direction = node ∧ link.resolved = true ∧
        link.otherScope direction = some pair.1 ∧ link.asserterScopeRef = pair.2 ∧
          ∀ asked ∈ relation, asked = link.relation := by
  unfold matchesLeaf
  simp only [Bool.and_eq_true, decide_eq_true_eq, Option.all_eq_true, and_assoc]
  rfl

theorem matchesLeaf_visible {held : Finset String} {node : String} {direction : Direction}
    {pair : String × String} {relation : Option Relation} {link : LinkRow}
    (endpointHeld : pair.1 ∈ held) (asserterHeld : pair.2 ∈ held)
    (matched : matchesLeaf node direction pair relation link = true) : ¬link.Hidden held := by
  obtain ⟨_, _, endpoint, asserter, _⟩ := matchesLeaf_iff.mp matched
  rintro ⟨_, unheld | unheld⟩
  · exact unheld (asserter ▸ asserterHeld)
  · exact unheld direction pair.1 endpoint endpointHeld

theorem Relation.rank_injective : Function.Injective Relation.rank := by
  intro left right same
  cases left <;> cases right <;> first | rfl | cases same

theorem Relation.value_injective : Function.Injective Relation.value := by
  intro left right same
  cases left <;> cases right <;> first | rfl | exact absurd same (by decide)

theorem Direction.value_injective : Function.Injective Direction.value := by
  intro left right same
  cases left <;> cases right <;> first | rfl | exact absurd same (by decide)

/-- Within a leaf the order columns name the row. -/
theorem leafOrder_distinct {table : Table LinkRow fun row => (row.sourceRef, row.relation, row.targetRef)}
    {node : String} {direction : Direction} {left right : LinkRow}
    (leftHeld : left ∈ table) (rightHeld : right ∈ table) (leftNear : left.near direction = node)
    (rightNear : right.near direction = node)
    (same : leafOrder direction left = leafOrder direction right) : left = right := by
  have parts := Prod.ext_iff.mp (toLex_inj.mp same)
  have relations : left.relation = right.relation := Relation.rank_injective parts.1
  have others : left.other direction = right.other direction :=
    (Prod.ext_iff.mp (toLex_inj.mp (OrderDual.toDual_inj.mp parts.2))).2
  refine Table.eq_of_key leftHeld rightHeld ?_
  cases direction with
  | out => exact Prod.ext (leftNear.trans rightNear.symm) (Prod.ext relations others)
  | into => exact Prod.ext others (Prod.ext relations (leftNear.trans rightNear.symm))

section Tables

variable {held : Finset String}
  {left right : Table LinkRow fun row => (row.sourceRef, row.relation, row.targetRef)}

theorem oneLeaf_same
    (same : ∀ link : LinkRow, ¬link.Hidden held → (link ∈ left ↔ link ∈ right))
    {node : String} {direction : Direction} {pair : String × String} {perNode : Nat}
    {relation : Option Relation} {leaf : Nat}
    (pairHeld : pair.1 ∈ held ∧ pair.2 ∈ held) :
    oneLeaf left.rows node direction pair perNode relation leaf =
      oneLeaf right.rows node direction pair perNode relation leaf := by
  have members : ∀ link,
      link ∈ left.rows.filter (matchesLeaf node direction pair relation) ↔
        link ∈ right.rows.filter (matchesLeaf node direction pair relation) := by
    intro link
    rw [List.mem_filter, List.mem_filter]
    constructor
    · rintro ⟨listed, matched⟩
      exact ⟨(same link (matchesLeaf_visible pairHeld.1 pairHeld.2 matched)).mp listed, matched⟩
    · rintro ⟨listed, matched⟩
      exact ⟨(same link (matchesLeaf_visible pairHeld.1 pairHeld.2 matched)).mpr listed, matched⟩
  have sorted : sortBy (leafOrder direction)
      (left.rows.filter (matchesLeaf node direction pair relation)) =
      sortBy (leafOrder direction)
        (right.rows.filter (matchesLeaf node direction pair relation)) := by
    refine sortBy_of_perm
      (perm_of_mem_iff (left.rows_nodup.filter _) (right.rows_nodup.filter _) members) ?_
    intro a aListed b bListed sameKey
    obtain ⟨aHeld, aMatched⟩ := List.mem_filter.mp aListed
    obtain ⟨bHeld, bMatched⟩ := List.mem_filter.mp bListed
    exact leafOrder_distinct (Table.mem_rows.mp aHeld) (Table.mem_rows.mp bHeld)
      (matchesLeaf_iff.mp aMatched).1 (matchesLeaf_iff.mp bMatched).1 sameKey
  unfold oneLeaf
  rw [sorted]

theorem leaves_same
    (same : ∀ link : LinkRow, ¬link.Hidden held → (link ∈ left ↔ link ∈ right))
    {node : String} {plan : List (Direction × String × String)} {perNode : Nat}
    {relation : Option Relation}
    (planHeld : ∀ entry ∈ plan, entry.2.1 ∈ held ∧ entry.2.2 ∈ held) :
    leaves left.rows node plan perNode relation = leaves right.rows node plan perNode relation := by
  unfold leaves
  refine List.flatMap_congr fun entry listed => ?_
  have planned : entry.1 ∈ plan := List.fst_mem_of_mem_zipIdx listed
  exact oneLeaf_same same (planHeld entry.1 planned)

/-! ## Candidate edges -/

theorem saturatedLeaves_perm {rows others : List Candidate} (perm : rows.Perm others)
    (perNode : Nat) :
    (saturatedLeaves rows perNode).Perm (saturatedLeaves others perNode) := by
  have counts : ∀ leaf, rows.countP (fun row => row.leaf = leaf) =
      others.countP fun row => row.leaf = leaf := fun leaf => perm.countP_eq _
  unfold saturatedLeaves
  simp only [counts]
  exact ((perm.map _).dedup).filter _

theorem starvedLeaves_perm {rows others : List Candidate} (perm : rows.Perm others)
    (perNode : Nat) (relation : Relation) :
    starvedLeaves rows perNode relation = starvedLeaves others perNode relation := by
  have present : ∀ leaf, rows.any (fun row => row.leaf = leaf ∧ row.relation = relation) =
      others.any fun row => row.leaf = leaf ∧ row.relation = relation :=
    fun leaf => perm.any_eq
  have sorted : sortBy id (saturatedLeaves rows perNode) =
      sortBy id (saturatedLeaves others perNode) :=
    sortBy_of_perm (saturatedLeaves_perm perm perNode) fun _ _ _ _ sameKey => sameKey
  unfold starvedLeaves
  rw [sorted]
  simp only [present]

theorem candidateEdges_same
    (same : ∀ link : LinkRow, ¬link.Hidden held → (link ∈ left ↔ link ∈ right))
    (leftOrder rightOrder : RowOrder) (node : String) {pairs : List (String × String)}
    (perNode : Nat) (pairsHeld : ∀ pair ∈ pairs, pair.1 ∈ held ∧ pair.2 ∈ held) :
    (candidateEdges leftOrder left.rows node pairs perNode).1.Perm
        (candidateEdges rightOrder right.rows node pairs perNode).1 ∧
      (candidateEdges leftOrder left.rows node pairs perNode).2 =
        (candidateEdges rightOrder right.rows node pairs perNode).2 := by
  have planHeld : ∀ entry ∈ leafPlan pairs, entry.2.1 ∈ held ∧ entry.2.2 ∈ held := by
    intro entry listed
    obtain ⟨direction, _, listed⟩ := List.mem_flatMap.mp listed
    obtain ⟨pair, pairListed, rfl⟩ := List.mem_map.mp listed
    exact pairsHeld pair pairListed
  have rows : (leftOrder.arrange node none
      (leaves left.rows node (leafPlan pairs) perNode none)).Perm
      (rightOrder.arrange node none (leaves right.rows node (leafPlan pairs) perNode none)) := by
    rw [leaves_same same planHeld]
    exact (leftOrder.perm ..).trans (rightOrder.perm ..).symm
  unfold candidateEdges
  refine ⟨rows.append ?_, (saturatedLeaves_perm rows perNode).length_eq⟩
  refine List.Perm.flatMap_left _ fun relation _ => ?_
  rw [starvedLeaves_perm rows perNode relation]
  refine (leftOrder.perm ..).trans (List.Perm.trans ?_ (rightOrder.perm ..).symm)
  rw [leaves_same same]
  intro entry listed
  obtain ⟨leaf, _, found⟩ := List.mem_filterMap.mp listed
  exact planHeld entry (List.mem_of_getElem? found)

end Tables

/-! ## Expansion order -/

theorem EndpointStamp.parts_injective : Function.Injective EndpointStamp.parts := by
  intro left right same
  have outer := Prod.ext_iff.mp (toLex_inj.mp same)
  have inner := Prod.ext_iff.mp (toLex_inj.mp outer.2)
  cases left
  cases right
  simp only at outer inner
  rw [EndpointStamp.mk.injEq]
  exact ⟨outer.1, inner.1, inner.2⟩

theorem Edge.tuple_injective : Function.Injective Edge.tuple := by
  intro left right same
  have first := Prod.ext_iff.mp (toLex_inj.mp same)
  have second := Prod.ext_iff.mp (toLex_inj.mp first.2)
  have third := Prod.ext_iff.mp (toLex_inj.mp second.2)
  have stamps : left.stamp = right.stamp :=
    Option.map_injective EndpointStamp.parts_injective third.2
  cases left
  cases right
  rw [Edge.mk.injEq]
  exact ⟨Relation.value_injective first.1, second.1, Direction.value_injective third.1, stamps⟩

/-- The order of expansion is a function of the set of candidate edges. -/
theorem expansionOrder_perm {rows others : List Candidate} (perm : rows.Perm others) :
    expansionOrder rows = expansionOrder others := by
  unfold expansionOrder
  rw [sortBy_of_perm ((perm.map Candidate.edge).dedup) fun _ _ _ _ sameKey =>
    Edge.tuple_injective sameKey]

/-! ## The walk -/

section Walk

variable {numberText : Json.Double → String} {left right : Store} {request : Request}

/-- The walk without the count of what was withheld. -/
def Walk.told (walk : Walk) : Walk := { walk with withheld := 0 }

theorem told_inj {walk other : Walk} (told : walk.told = other.told) :
    walk.queue = other.queue ∧ walk.visited = other.visited ∧ walk.records = other.records ∧
      walk.traversalFrontier = other.traversalFrontier ∧ walk.saturating = other.saturating := by
  unfold Walk.told at told
  simp only [Walk.mk.injEq, and_true] at told
  exact told

theorem recordOf_same (same : SameButHidden (heldScopes request.viewerScopes) left right)
    (depth : Nat) (newPath other : String) :
    recordOf numberText left request depth newPath other =
      recordOf numberText right request depth newPath other := by
  have standings : left.projections.currentClaimStanding =
      right.projections.currentClaimStanding := by
    have tables := same.projections
    simp only [Projections.mk.injEq] at tables
    exact tables.2.2.2.2.2
  unfold recordOf standingOf
  rw [same.log, standings]

theorem visitEdge_told (same : SameButHidden (heldScopes request.viewerScopes) left right)
    (node : String) (depth : Nat) (path : String) (walk : Walk) (edge : Edge) :
    (visitEdge numberText left request node depth path walk edge).map Walk.told =
      visitEdge numberText right request node depth path walk.told edge := by
  unfold visitEdge
  simp only [recordOf_same same, Walk.told]
  by_cases seen : edge.other ∈ walk.visited
  · simp only [seen, ↓reduceIte]
    rfl
  by_cases deep : (depth : Int) + 1 > request.relationDepth
  · simp only [seen, deep, ↓reduceIte]
    rfl
  by_cases full : (walk.records.length : Int) ≥ request.budget
  · simp only [seen, deep, full, ↓reduceIte]
    rfl
  simp only [seen, deep, full, ↓reduceIte]
  cases recordOf numberText right request depth _ edge.other with
  | error raised => rfl
  | ok record => rfl

theorem visitEdges_told (same : SameButHidden (heldScopes request.viewerScopes) left right)
    (node : String) (depth : Nat) (path : String) (edges : List Edge) (walk : Walk) :
    (edges.foldlM (visitEdge numberText left request node depth path) walk).map Walk.told =
      edges.foldlM (visitEdge numberText right request node depth path) walk.told := by
  induction edges generalizing walk with
  | nil => rfl
  | cons edge edges ih =>
      rw [List.foldlM_cons, List.foldlM_cons, ← visitEdge_told same]
      cases visitEdge numberText left request node depth path walk edge with
      | error raised => rfl
      | ok next => exact ih next

theorem expandNode_told (same : SameButHidden (heldScopes request.viewerScopes) left right)
    (leftOrder rightOrder : RowOrder) {walk other : Walk} (told : walk.told = other.told)
    (node : String) (depth : Nat) (path : String) :
    (expandNode numberText leftOrder left request walk node depth path).map Walk.told =
      (expandNode numberText rightOrder right request other node depth path).map Walk.told := by
  obtain ⟨rows, saturated⟩ := candidateEdges_same same.links leftOrder rightOrder node
    candidatePerNode fun pair kept => scopePairs_held kept
  have refl : SameButHidden (heldScopes request.viewerScopes) right right :=
    ⟨rfl, rfl, fun _ _ => Iff.rfl⟩
  unfold expandNode
  simp only
  rw [visitEdges_told same, visitEdges_told refl, expansionOrder_perm rows, saturated]
  congr 1
  obtain ⟨queues, visited, records, frontiers, saturating⟩ := told_inj told
  unfold Walk.told
  rw [queues, visited, records, frontiers, saturating]

theorem walkQueue_told (same : SameButHidden (heldScopes request.viewerScopes) left right)
    (leftOrder rightOrder : RowOrder) (fuel : Nat) {walk other : Walk}
    (told : walk.told = other.told) :
    (walkQueue numberText leftOrder left request fuel walk).map Walk.told =
      (walkQueue numberText rightOrder right request fuel other).map Walk.told := by
  induction fuel generalizing walk other with
  | zero => exact congrArg Except.ok told
  | succ fuel ih =>
      obtain ⟨queues, visited, records, frontiers, saturating⟩ := told_inj told
      unfold walkQueue
      rw [← queues]
      cases walk.queue with
      | nil => exact congrArg Except.ok told
      | cons first queue =>
          obtain ⟨node, depth, path⟩ := first
          have popped : ({ walk with queue } : Walk).told = ({ other with queue } : Walk).told := by
            unfold Walk.told
            rw [visited, records, frontiers, saturating]
          have step :
              (expandNode numberText leftOrder left request { walk with queue } node depth path).map
                  Walk.told =
                (expandNode numberText rightOrder right request { other with queue } node depth
                  path).map Walk.told :=
            expandNode_told same leftOrder rightOrder popped node depth path
          dsimp only
          generalize expandNode numberText leftOrder left request { walk with queue } node depth
            path = ours at step ⊢
          generalize expandNode numberText rightOrder right request { other with queue } node
            depth path = theirs at step ⊢
          cases ours with
          | error raised =>
              cases theirs with
              | error other => exact congrArg Except.error (Except.error.inj step)
              | ok other => cases step
          | ok next =>
              cases theirs with
              | error raised => cases step
              | ok other => exact ih (Except.ok.inj step)

/-- The viewer is told the same of any two stores that differ in hidden links at most, in
whatever order the database returns rows. -/
theorem shadow_free (same : SameButHidden (heldScopes request.viewerScopes) left right)
    (leftOrder rightOrder : RowOrder) :
    (execNeighborhood numberText leftOrder left request).map Neighborhood.answer =
      (execNeighborhood numberText rightOrder right request).map Neighborhood.answer := by
  let root : Walk := { queue := [(request.root, 0, request.root)], visited := [request.root] }
  have walks :
      (walkQueue numberText leftOrder left request (request.budget.toNat + 1) root).map Walk.told =
        (walkQueue numberText rightOrder right request (request.budget.toNat + 1) root).map
          Walk.told :=
    walkQueue_told same leftOrder rightOrder _ rfl
  unfold execNeighborhood
  generalize walkQueue numberText leftOrder left request _ root = ours at walks ⊢
  generalize walkQueue numberText rightOrder right request _ root = theirs at walks ⊢
  cases ours with
  | error raised =>
      cases theirs with
      | error other => exact congrArg Except.error (Except.error.inj walks)
      | ok other => cases walks
  | ok ended =>
      cases theirs with
      | error raised => cases walks
      | ok other =>
          obtain ⟨_, visited, records, frontiers, saturating⟩ := told_inj (Except.ok.inj walks)
          refine congrArg Except.ok ?_
          unfold Neighborhood.answer
          simp only
          rw [visited, records, frontiers, saturating]

end Walk

namespace Shadow

def publicLink : LinkRow where
  sourceRef := "root"
  relation := .supports
  targetRef := "near"
  resolved := true
  assertedByEventId := "first"
  asserterScopeRef := publicScope
  targetScopeRef := publicScope
  targetStamp := some ⟨5, 0, "origin"⟩
  source := none

def shadow : LinkRow := { publicLink with targetRef := "far", asserterScopeRef := "isolated" }

def plainStore : Store :=
  { projections := { eventLinks := (∅ : Table LinkRow _).insertNew publicLink } }

def floodedStore : Store :=
  { projections := { eventLinks := ((∅ : Table LinkRow _).insertNew publicLink).insertNew shadow } }

def request : Request where
  root := "root"
  relationDepth := 2
  backend := "traversal"
  classId := "neighborhood"
  budget := 10
  viewerScopes := {"fleet"}

theorem shadow_hidden : shadow.Hidden (heldScopes request.viewerScopes) :=
  ⟨rfl, .inl (by simp [shadow, request, heldScopes, publicScope])⟩

theorem sameButShadow :
    SameButHidden (heldScopes request.viewerScopes) plainStore floodedStore where
  log := rfl
  projections := rfl
  links link shown := by
    change link ∈ (∅ : Table LinkRow _).insertNew publicLink ↔
      link ∈ ((∅ : Table LinkRow _).insertNew publicLink).insertNew shadow
    refine Iff.trans ?_ Table.mem_insertNew.symm
    constructor
    · exact .inl
    · rintro (held | ⟨rfl, _⟩)
      · exact held
      · exact absurd shadow_hidden shown

theorem flood_untold :
    (execNeighborhood Json.Double.text .asWritten plainStore request).map Neighborhood.answer =
      (execNeighborhood Json.Double.text .asWritten floodedStore request).map
        Neighborhood.answer :=
  shadow_free sameButShadow .asWritten .asWritten

end Shadow

end Kawa
