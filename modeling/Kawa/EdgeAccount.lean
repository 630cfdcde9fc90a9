import Kawa.EvidenceShare
import Kawa.LinkVisibility

/-!
What a neighborhood walk says of the edges it meets.  Of every node that it expands, each edge
that the viewer may see has produced a record, stands in the frontier, or falls under the
truncation that the bundle reports.
-/

namespace Kawa

open Ranking Result

/-- Whether the viewer may see the edge: the far endpoint and the asserter are in scopes of
theirs, by the columns of the link. -/
def LinkRow.VisibleAcross (viewer : Finset String) (direction : Direction) (link : LinkRow) : Prop :=
  link.asserterScopeRef ∈ heldScopes viewer ∧
    ∃ scope ∈ link.otherScope direction, scope ∈ heldScopes viewer

section Walk

variable (numberText : Json.Double → String) (order : RowOrder) (store : Store)
  (request : Request)

/-- The candidates at a node of the walk, and its saturated leaves. -/
def candidatesAt (node : String) : List Candidate × Nat :=
  candidateEdges order store.projections.eventLinks.rows node
    (scopePairs request.viewerScopes).1 candidatePerNode

/-- A node that candidate edges lead to from the root in so many steps. -/
inductive WalksTo : Nat → String → Prop
  | root : WalksTo 0 request.root
  | step {depth : Nat} {node : String} {edge : Edge} : WalksTo depth node →
      edge ∈ expansionOrder (candidatesAt order store request node).1 → WalksTo (depth + 1) edge.other

/-- The record that stepping over the edge returns. -/
def Produces (edge : Edge) (record : Record) : Prop :=
  ∃ depth path, recordOf numberText store request depth
    (path ++ " " ++ arrow edge.relation edge.direction ++ " " ++ clip edge.other 16 ++ "…")
    edge.other = .ok record

/-- Why an edge is not stepped over. -/
def stopReasons : List FrontierReason := [.cycle, .depthLimit, .rowCap]

/-- The edge has produced a record, or the frontier says why not. -/
def EdgeAccounted (records : List Record) (frontier : List FrontierEntry) (node : String)
    (edge : Edge) : Prop :=
  (∃ record ∈ records, Produces numberText store request edge record) ∨
    ∃ reason ∈ stopReasons, ⟨node, edge.relation, edge.other, reason⟩ ∈ frontier

/-- What is said of a node that was expanded. -/
structure NodeAccounted (walk : Walk) (node : String) : Prop where
  edges : ∀ edge ∈ expansionOrder (candidatesAt order store request node).1,
    EdgeAccounted numberText store request walk.records walk.traversalFrontier node edge
  saturated : (candidatesAt order store request node).2 ≠ 0 → walk.saturating ≠ []

/-- The walk between two nodes: `started` have left the queue, and `done` are expanded. -/
structure WalkInvariant (started done : List String) (walk : Walk) : Prop where
  visited : walk.visited.reverse = request.root :: walk.records.map (·.ref)
  nodup : walk.visited.Nodup
  split : walk.visited.reverse = started ++ walk.queue.map (·.1)
  queued : ∀ entry ∈ walk.queue, WalksTo order store request entry.2.1 entry.1
  within : ∀ record ∈ walk.records, ∃ depth : Nat, (depth : Int) ≤ request.relationDepth ∧
    WalksTo order store request depth record.ref
  withheld : walk.withheld = (started.map (withheldAt store request)).sum
  accounted : ∀ node ∈ done, NodeAccounted numberText order store request walk node

end Walk

section Steps

variable {numberText : Json.Double → String} {order : RowOrder} {store : Store}
  {request : Request} {node : String} {depth : Nat} {path : String} {walk next : Walk}
  {edge : Edge} {started done : List String}

/-- Stepping over an edge stops at it or returns its record. -/
theorem visitEdge_cases
    (visited : visitEdge numberText store request node depth path walk edge = .ok next) :
    (∃ reason ∈ stopReasons, next = { walk with
      traversalFrontier :=
        walk.traversalFrontier ++ [⟨node, edge.relation, edge.other, reason⟩] }) ∨
      ∃ newPath record, edge.other ∉ walk.visited ∧ (depth : Int) + 1 ≤ request.relationDepth ∧
        newPath = path ++ " " ++ arrow edge.relation edge.direction ++ " " ++ clip edge.other 16 ++
          "…" ∧
        recordOf numberText store request depth newPath edge.other = .ok record ∧
        next = { walk with
          visited := edge.other :: walk.visited
          records := walk.records ++ [record]
          queue := walk.queue ++ [(edge.other, depth + 1, newPath)] } := by
  unfold visitEdge at visited
  dsimp only at visited
  split at visited
  · cases visited
    exact .inl ⟨.cycle, by decide, rfl⟩
  rename_i fresh
  split at visited
  · cases visited
    exact .inl ⟨.depthLimit, by decide, rfl⟩
  rename_i shallow
  split at visited
  · cases visited
    exact .inl ⟨.rowCap, by decide, rfl⟩
  obtain ⟨record, made, rfl⟩ := map_ok.mp visited
  exact .inr ⟨_, record, fresh, not_lt.mp shallow, rfl, made, rfl⟩

theorem recordOf_ref {newPath other : String} {record : Record}
    (made : recordOf numberText store request depth newPath other = .ok record) :
    record.ref = other := by
  unfold recordOf at made
  obtain ⟨⟨kind, summary⟩, _, shaped⟩ := bind_ok.mp made
  cases shaped
  rfl

theorem EdgeAccounted.mono {records more : List Record} {frontier later : List FrontierEntry}
    (accounted : EdgeAccounted numberText store request records frontier node edge)
    (records_mono : records ⊆ more) (frontier_mono : frontier ⊆ later) :
    EdgeAccounted numberText store request more later node edge := by
  rcases accounted with ⟨record, held, produced⟩ | ⟨reason, listed, entered⟩
  · exact .inl ⟨record, records_mono held, produced⟩
  · exact .inr ⟨reason, listed, frontier_mono entered⟩

/-- Nothing that was said is taken back. -/
theorem visitEdge_grows
    (visited : visitEdge numberText store request node depth path walk edge = .ok next) :
    walk.records ⊆ next.records ∧ walk.traversalFrontier ⊆ next.traversalFrontier ∧
      next.saturating = walk.saturating := by
  rcases visitEdge_cases visited with ⟨reason, _, rfl⟩ | ⟨newPath, record, _, _, _, _, rfl⟩
  · exact ⟨List.Subset.refl _, List.subset_append_left _ _, rfl⟩
  · exact ⟨List.subset_append_left _ _, List.Subset.refl _, rfl⟩

theorem NodeAccounted.visitEdge {other : String}
    (accounted : NodeAccounted numberText order store request walk other)
    (visited : visitEdge numberText store request node depth path walk edge = .ok next) :
    NodeAccounted numberText order store request next other := by
  obtain ⟨records, frontier, saturating⟩ := visitEdge_grows visited
  exact ⟨fun edge listed => (accounted.edges edge listed).mono records frontier,
    saturating ▸ accounted.saturated⟩

theorem visitEdge_accounts
    (visited : visitEdge numberText store request node depth path walk edge = .ok next) :
    EdgeAccounted numberText store request next.records next.traversalFrontier node edge := by
  rcases visitEdge_cases visited with ⟨reason, listed, rfl⟩ | ⟨newPath, record, _, _, rfl, made, rfl⟩
  · exact .inr ⟨reason, listed, List.mem_append_right _ (List.mem_singleton_self _)⟩
  · exact .inl ⟨record, List.mem_append_right _ (List.mem_singleton_self _), depth, path, made⟩

/-- Every edge that was gone through is accounted for. -/
theorem visitEdges_account {edges : List Edge}
    (walked : edges.foldlM (visitEdge numberText store request node depth path) walk = .ok next) :
    ∀ edge ∈ edges,
      EdgeAccounted numberText store request next.records next.traversalFrontier node edge := by
  induction edges generalizing walk with
  | nil =>
      intro edge member
      cases member
  | cons first edges ih =>
      rw [List.foldlM_cons] at walked
      obtain ⟨middle, stepped, rest⟩ := bind_ok.mp walked
      intro edge member
      rcases List.mem_cons.mp member with rfl | later
      · have kept : ∀ state other after, other ∈ edges →
            EdgeAccounted numberText store request state.records state.traversalFrontier node edge →
            visitEdge numberText store request node depth path state other = .ok after →
            EdgeAccounted numberText store request after.records after.traversalFrontier node
              edge := by
          intro state other after _ accounted visited
          obtain ⟨records, frontier, _⟩ := visitEdge_grows visited
          exact accounted.mono records frontier
        exact foldlM_invariant kept (visitEdge_accounts stepped) rest
      · exact ih rest edge later

theorem WalkInvariant.visitEdge (invariant : WalkInvariant numberText order store request started done walk)
    (reached : WalksTo order store request depth node)
    (listed : edge ∈ expansionOrder (candidatesAt order store request node).1)
    (visited : visitEdge numberText store request node depth path walk edge = .ok next) :
    WalkInvariant numberText order store request started done next := by
  have accounted : ∀ other ∈ done, NodeAccounted numberText order store request next other :=
    fun other member => (invariant.accounted other member).visitEdge visited
  rcases visitEdge_cases visited with
    ⟨reason, _, rfl⟩ | ⟨newPath, record, fresh, shallow, _, made, rfl⟩
  · exact ⟨invariant.visited, invariant.nodup, invariant.split, invariant.queued,
      invariant.within, invariant.withheld, accounted⟩
  · have stepped : WalksTo order store request (depth + 1) edge.other := .step reached listed
    refine ⟨?_, List.nodup_cons.mpr ⟨fresh, invariant.nodup⟩, ?_, ?_, ?_, invariant.withheld,
      accounted⟩
    · rw [List.reverse_cons, invariant.visited, List.map_append, List.map_singleton,
        recordOf_ref made, List.cons_append]
    · rw [List.reverse_cons, invariant.split, List.map_append, List.map_singleton,
        List.append_assoc]
    · intro entry member
      rcases List.mem_append.mp member with old | new
      · exact invariant.queued entry old
      · rw [List.mem_singleton.mp new]
        exact stepped
    · intro other member
      rcases List.mem_append.mp member with old | new
      · exact invariant.within other old
      · rw [List.mem_singleton.mp new, recordOf_ref made]
        exact ⟨depth + 1, by exact_mod_cast shallow, stepped⟩

/-- Expanding the first node of the queue. -/
theorem WalkInvariant.expandNode {queue : List (String × Nat × String)}
    (invariant : WalkInvariant numberText order store request started started walk)
    (first : walk.queue = (node, depth, path) :: queue)
    (expanded : expandNode numberText order store request { walk with queue } node depth path =
      .ok next) :
    WalkInvariant numberText order store request (started ++ [node]) (started ++ [node]) next := by
  unfold Kawa.expandNode at expanded
  have reached : WalksTo order store request depth node :=
    invariant.queued (node, depth, path) (first ▸ List.mem_cons_self)
  change (expansionOrder (candidatesAt order store request node).1).foldlM
    (Kawa.visitEdge numberText store request node depth path)
    { walk with
      queue := queue
      saturating :=
        if (candidatesAt order store request node).2 = 0 then walk.saturating
        else walk.saturating ++ [((candidatesAt order store request node).2, node)]
      withheld := walk.withheld + withheldAt store request node } = .ok next at expanded
  have begun : WalkInvariant numberText order store request (started ++ [node]) started
      { walk with
        queue := queue
        saturating :=
          if (candidatesAt order store request node).2 = 0 then walk.saturating
          else walk.saturating ++ [((candidatesAt order store request node).2, node)]
        withheld := walk.withheld + withheldAt store request node } := by
    refine ⟨invariant.visited, invariant.nodup, ?_, ?_, invariant.within, ?_, ?_⟩
    · have split := invariant.split
      rw [first] at split
      simpa using split
    · intro entry member
      exact invariant.queued entry (first ▸ List.mem_cons_of_mem _ member)
    · simp [invariant.withheld]
    · intro other member
      have accounted := invariant.accounted other member
      refine ⟨accounted.edges, fun saturated => ?_⟩
      dsimp only
      split
      · exact accounted.saturated saturated
      · simp
  have kept : ∀ state edge after, edge ∈ expansionOrder (candidatesAt order store request node).1 →
      WalkInvariant numberText order store request (started ++ [node]) started state ∧
        ((candidatesAt order store request node).2 ≠ 0 → state.saturating ≠ []) →
      Kawa.visitEdge numberText store request node depth path state edge = .ok after →
      WalkInvariant numberText order store request (started ++ [node]) started after ∧
        ((candidatesAt order store request node).2 ≠ 0 → after.saturating ≠ []) := by
    intro state edge after listed holds visited
    refine ⟨holds.1.visitEdge reached listed visited, ?_⟩
    rw [(visitEdge_grows visited).2.2]
    exact holds.2
  have ended := foldlM_invariant kept ⟨begun, fun saturated => by simp [saturated]⟩ expanded
  refine { ended.1 with accounted := fun other member => ?_ }
  rcases List.mem_append.mp member with old | new
  · exact ended.1.accounted other old
  · rw [List.mem_singleton.mp new]
    exact ⟨visitEdges_account expanded, ended.2⟩

theorem walkQueue_invariant (fuel : Nat) {ended : Walk}
    (invariant : WalkInvariant numberText order store request started started walk)
    (walked : walkQueue numberText order store request fuel walk = .ok ended) :
    ∃ all, WalkInvariant numberText order store request all all ended := by
  induction fuel generalizing walk started with
  | zero =>
      cases walked
      exact ⟨started, invariant⟩
  | succ fuel ih =>
      unfold walkQueue at walked
      cases queued : walk.queue with
      | nil =>
          rw [queued] at walked
          cases walked
          exact ⟨started, invariant⟩
      | cons first queue =>
          obtain ⟨node, depth, path⟩ := first
          rw [queued] at walked
          obtain ⟨next, expanded, rest⟩ := bind_ok.mp walked
          exact ih (invariant.expandNode queued expanded) rest

end Steps

/-! ## Candidates -/

theorem mem_interleave_of {left right : List Edge} {edge : Edge}
    (member : edge ∈ left ∨ edge ∈ right) : edge ∈ interleave left right := by
  induction left, right using interleave.induct with
  | case1 right => simpa [interleave] using member
  | case2 left empty => simpa [interleave, empty] using member
  | case3 first left second right ih =>
      simp only [interleave, List.mem_cons] at member ⊢
      rcases member with (rfl | inLeft) | (rfl | inRight)
      · exact .inl rfl
      · exact .inr (.inr (ih (.inl inLeft)))
      · exact .inr (.inl rfl)
      · exact .inr (.inr (ih (.inr inRight)))

/-- Regrouping the candidates by relation loses none of them. -/
theorem mem_expansionOrder_of {rows : List Candidate} {row : Candidate} (member : row ∈ rows) :
    row.edge ∈ expansionOrder rows := by
  have sorted : row.edge ∈ sortBy (fun edge : Edge => toLex (edge.relation.group, edge.relation.value))
      (sortBy (fun edge : Edge => OrderDual.toDual edge.key)
        (sortBy Edge.tuple (rows.map Candidate.edge).dedup)) := by
    simp only [mem_sortBy, List.mem_dedup]
    exact List.mem_map_of_mem member
  have kept : ∀ p : Edge → Bool, p row.edge = true → row.edge ∈ List.filter p (sortBy
      (fun edge : Edge => toLex (edge.relation.group, edge.relation.value))
      (sortBy (fun edge : Edge => OrderDual.toDual edge.key)
        (sortBy Edge.tuple (rows.map Candidate.edge).dedup))) :=
    fun p holds => List.mem_filter.mpr ⟨sorted, holds⟩
  unfold expansionOrder
  rw [List.mem_append, List.mem_append]
  cases relation : row.edge.relation with
  | supersedes => exact .inl (.inl (kept _ (by rw [relation]; rfl)))
  | supports => exact .inl (.inr (mem_interleave_of (.inl (kept _ (by rw [relation]; rfl)))))
  | contradicts => exact .inl (.inr (mem_interleave_of (.inr (kept _ (by rw [relation]; rfl)))))
  | _ => exact .inr (kept _ (by rw [relation]; rfl))

theorem pairsOf_nodup {scopes : List String} (nodup : scopes.Nodup) : (pairsOf scopes).Nodup := by
  unfold pairsOf
  refine List.nodup_append.mpr ⟨nodup.map fun left right same => (Prod.mk.inj same).1, ?_, ?_⟩
  · refine List.nodup_flatMap.mpr ⟨fun endpoint _ => ?_, nodup.imp fun {left right} apart => ?_⟩
    · exact (nodup.filter _).map fun left right same => (Prod.mk.inj same).2
    · intro pair inLeft inRight
      obtain ⟨_, _, rfl⟩ := List.mem_map.mp inLeft
      obtain ⟨_, _, same⟩ := List.mem_map.mp inRight
      exact apart (Prod.mk.inj same).1.symm
  · rintro _ same other apart rfl
    obtain ⟨scope, _, rfl⟩ := List.mem_map.mp same
    obtain ⟨endpoint, _, inner⟩ := List.mem_flatMap.mp apart
    obtain ⟨asserter, differs, pair⟩ := List.mem_map.mp inner
    obtain ⟨rfl, rfl⟩ := Prod.mk.inj pair
    simpa using (List.mem_filter.mp differs).2

/-- A pair of held scopes is consulted, or the report says that pairs were dropped. -/
theorem scopePairs_or_dropped {viewer : Finset String} {pair : String × String}
    (held : pair.1 ∈ heldScopes viewer ∧ pair.2 ∈ heldScopes viewer) :
    pair ∈ (scopePairs viewer).1 ∨ (scopePairs viewer).2 ≠ 0 := by
  let every := (heldScopes viewer).sort (· ≤ ·)
  have nodup : every.Nodup := Finset.sort_nodup _ _
  have listed : pair ∈ pairsOf every :=
    mem_pairsOf.mpr ⟨(Finset.mem_sort _).mpr held.1, (Finset.mem_sort _).mpr held.2⟩
  by_cases kept : pair ∈ (scopePairs viewer).1
  · exact .inl kept
  · -- the pairs that are kept and this one are all different
    have keptNodup : (scopePairs viewer).1.Nodup :=
      (pairsOf_nodup (nodup.sublist (List.take_sublist _ _))).sublist (List.take_sublist _ _)
    have inside : pair :: (scopePairs viewer).1 ⊆ pairsOf every := by
      refine List.cons_subset.mpr ⟨listed, fun other otherKept => ?_⟩
      have both := scopePairs_held otherKept
      exact mem_pairsOf.mpr ⟨(Finset.mem_sort _).mpr both.1, (Finset.mem_sort _).mpr both.2⟩
    have longer := ((List.nodup_cons.mpr ⟨kept, keptNodup⟩).subperm inside).length_le
    rw [List.length_cons] at longer
    refine .inr (Nat.pos_iff_ne_zero.mp ?_)
    change 0 < (pairsOf every).length - (scopePairs viewer).1.length
    omega

section Visible

variable {order : RowOrder} {store : Store} {request : Request} {node : String}
  {direction : Direction} {link : LinkRow}

/-- A link of a consulted pair is a candidate unless a leaf of the node is saturated. -/
theorem candidate_or_saturated {pair : String × String}
    (consulted : pair ∈ (scopePairs request.viewerScopes).1)
    (inLinks : link ∈ store.projections.eventLinks)
    (matched : matchesLeaf node direction pair none link = true) :
    edgeOf (direction, link) ∈ expansionOrder (candidatesAt order store request node).1 ∨
      (candidatesAt order store request node).2 ≠ 0 := by
  by_cases kept : link ∈ keptEdges store.projections.eventLinks.rows node direction pair
      candidatePerNode none
  · obtain ⟨row, inLeaves, same⟩ := mem_leaves_of_kept consulted kept
    rw [← same]
    refine .inl (mem_expansionOrder_of (List.mem_append_left _ ?_))
    exact (order.perm node none _).mem_iff.mpr inLeaves
  · have inLeaf : link ∈ sortBy (leafOrder direction) (store.projections.eventLinks.rows.filter
        (matchesLeaf node direction pair none)) :=
      mem_sortBy.mpr (List.mem_filter.mpr ⟨inLinks, matched⟩)
    -- the leaf is longer than its cap
    have longer : candidatePerNode < (sortBy (leafOrder direction)
        (store.projections.eventLinks.rows.filter
          (matchesLeaf node direction pair none))).length := by
      by_contra short
      refine kept ?_
      unfold keptEdges
      rw [List.take_of_length_le (not_lt.mp short)]
      exact inLeaf
    have full : (keptEdges store.projections.eventLinks.rows node direction pair candidatePerNode
        none).length = candidatePerNode := by
      unfold keptEdges
      rw [List.length_take]
      omega
    obtain ⟨leaf, found⟩ := List.mem_iff_getElem?.mp (mem_leafPlan.mpr
      (show ((direction, pair) : Direction × String × String).2 ∈
        (scopePairs request.viewerScopes).1 from consulted))
    have saturated := (mem_saturatedLeaves (order.perm node none (leaves
      store.projections.eventLinks.rows node (leafPlan (scopePairs request.viewerScopes).1)
        candidatePerNode none)) found).mpr ⟨full.ge, List.length_pos_iff.mp (by rw [full]; decide)⟩
    exact .inr (Nat.pos_iff_ne_zero.mp (List.length_pos_of_mem saturated))

theorem visible_candidate (inLinks : link ∈ store.projections.eventLinks)
    (resolved : link.resolved = true) (near : link.near direction = node)
    (visible : link.VisibleAcross request.viewerScopes direction) :
    edgeOf (direction, link) ∈ expansionOrder (candidatesAt order store request node).1 ∨
      (candidatesAt order store request node).2 ≠ 0 ∨ (scopePairs request.viewerScopes).2 ≠ 0 := by
  obtain ⟨asserter, scope, column, held⟩ := visible
  rcases @scopePairs_or_dropped request.viewerScopes (scope, link.asserterScopeRef)
    ⟨held, asserter⟩ with consulted | dropped
  · have matched : matchesLeaf node direction (scope, link.asserterScopeRef) none link = true :=
      matchesLeaf_iff.mpr ⟨near, resolved, column, rfl, fun _ none => by cases none⟩
    rcases candidate_or_saturated consulted inLinks matched with candidate | saturated
    · exact .inl candidate
    · exact .inr (.inl saturated)
  · exact .inr (.inr dropped)

end Visible

/-! ## Neighborhoods -/

/-- What a walk from the root has established when it ends. -/
theorem execNeighborhood_ended {numberText : Json.Double → String} {order : RowOrder}
    {store : Store} {request : Request} {neighborhood : Neighborhood}
    (executed : execNeighborhood numberText order store request = .ok neighborhood) :
    ∃ ended : Walk, WalkInvariant numberText order store request ended.visited.reverse
        ended.visited.reverse ended ∧
      neighborhood.records = ended.records ∧
      neighborhood.traversalFrontier = ended.traversalFrontier ∧
      neighborhood.withheld = ended.withheld ∧ neighborhood.expanded = ended.visited ∧
      neighborhood.candidateTruncation =
        candidateTruncation ended.saturating (scopePairs request.viewerScopes).2 := by
  unfold execNeighborhood at executed
  obtain ⟨ended, walked, rfl⟩ := map_ok.mp executed
  have begun : WalkInvariant numberText order store request [] []
      { queue := [(request.root, 0, request.root)], visited := [request.root] } := by
    refine ⟨rfl, List.nodup_singleton _, rfl, ?_, ?_, rfl, ?_⟩
    · intro entry member
      rw [List.mem_singleton.mp member]
      exact .root
    · intro record member
      cases member
    · intro node member
      cases member
  obtain ⟨all, invariant⟩ := walkQueue_invariant _ begun walked
  have whole : ended.visited.reverse = all := by
    have split := invariant.split
    rw [neighborhood_drained walked, List.map_nil, List.append_nil] at split
    exact split
  exact ⟨ended, whole ▸ invariant, rfl, rfl, rfl, rfl, rfl⟩

theorem candidateTruncation_reported {saturating : List (Nat × String)} {dropped : Nat}
    (cut : saturating ≠ [] ∨ dropped ≠ 0) : candidateTruncation saturating dropped ≠ none := by
  unfold candidateTruncation
  rw [if_neg fun none => cut.elim (fun some => some none.1) fun some => some none.2]
  exact Option.some_ne_none _

/-! ## Walks that do not raise -/

section Succeeds

variable {numberText : Json.Double → String} {order : RowOrder} {store : Store}
  {request : Request}

theorem visitEdge_succeeds {node : String} {depth : Nat} {path : String} {walk : Walk} {edge : Edge}
    (read : ∃ summary, summaryOf numberText store.log edge.other = .ok summary) :
    ∃ next, visitEdge numberText store request node depth path walk edge = .ok next := by
  obtain ⟨summary, read⟩ := read
  unfold visitEdge
  dsimp only
  split_ifs
  · exact ⟨_, rfl⟩
  · exact ⟨_, rfl⟩
  · exact ⟨_, rfl⟩
  · unfold recordOf
    rw [read]
    exact ⟨_, rfl⟩

theorem expandNode_succeeds {walk : Walk} {node : String} {depth : Nat} {path : String}
    (read : ∀ edge ∈ expansionOrder (candidatesAt order store request node).1,
      ∃ summary, summaryOf numberText store.log edge.other = .ok summary) :
    ∃ next, expandNode numberText order store request walk node depth path = .ok next := by
  unfold expandNode
  exact foldlM_succeeds (fun state edge listed => visitEdge_succeeds (read edge listed)) _

theorem walkQueue_succeeds
    (read : ∀ node, ∀ edge ∈ expansionOrder (candidatesAt order store request node).1,
      ∃ summary, summaryOf numberText store.log edge.other = .ok summary) (fuel : Nat) (walk : Walk) :
    ∃ ended, walkQueue numberText order store request fuel walk = .ok ended := by
  induction fuel generalizing walk with
  | zero => exact ⟨walk, rfl⟩
  | succ fuel ih =>
      unfold walkQueue
      cases walk.queue with
      | nil => exact ⟨walk, rfl⟩
      | cons first queue =>
          obtain ⟨node, depth, path⟩ := first
          exact bind_succeeds (expandNode_succeeds (read node)) ih

/-- A neighborhood is returned where every candidate has a summary. -/
theorem execNeighborhood_succeeds
    (read : ∀ node, ∀ edge ∈ expansionOrder (candidatesAt order store request node).1,
      ∃ summary, summaryOf numberText store.log edge.other = .ok summary) :
    ∃ neighborhood, execNeighborhood numberText order store request = .ok neighborhood := by
  obtain ⟨ended, walked⟩ := walkQueue_succeeds read (request.budget.toNat + 1)
    { queue := [(request.root, 0, request.root)], visited := [request.root] }
  unfold execNeighborhood
  rw [walked]
  exact ⟨_, rfl⟩

end Succeeds

end Kawa
