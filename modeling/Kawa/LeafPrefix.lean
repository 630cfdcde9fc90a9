import Kawa.ShadowFree

/-!
The bounded leaves lose nothing that the whole scan would rank first: an edge with fewer than
`perNode` edges before it in the node's whole list has fewer before it in its leaf.
-/

namespace Kawa

open Ranking

abbrev LinkTable := Table LinkRow fun row => (row.sourceRef, row.relation, row.targetRef)

/-- Every edge of the node that some consulted pair may see, in both directions. -/
def visibleEdges (links : List LinkRow) (node : String) (pairs : List (String × String)) :
    List (Direction × LinkRow) :=
  [Direction.out, Direction.into].flatMap fun direction =>
    (links.filter fun link => pairs.any fun pair => matchesLeaf node direction pair none link).map
      fun link => (direction, link)

/-- The leaf ranking, over both directions. -/
def edgeOrder (edge : Direction × LinkRow) : Nat ×ₗ (WithTop (Nat ×ₗ Nat ×ₗ String) ×ₗ String)ᵒᵈ :=
  leafOrder edge.1 edge.2

def edgeOf (edge : Direction × LinkRow) : Edge where
  relation := edge.2.relation
  other := edge.2.other edge.1
  direction := edge.1
  stamp := edge.2.otherStamp edge.1

section Leaves

variable {links : LinkTable} {node : String} {pairs : List (String × String)} {perNode : Nat}

theorem mem_visibleEdges {edge : Direction × LinkRow} :
    edge ∈ visibleEdges links.rows node pairs ↔
      edge.2 ∈ links.rows ∧ ∃ pair ∈ pairs, matchesLeaf node edge.1 pair none edge.2 = true := by
  obtain ⟨direction, link⟩ := edge
  unfold visibleEdges
  rw [List.mem_flatMap]
  constructor
  · rintro ⟨asked, _, listed⟩
    obtain ⟨held, kept, same⟩ := List.mem_map.mp listed
    obtain ⟨rfl, rfl⟩ := Prod.mk.inj same
    obtain ⟨inLinks, seen⟩ := List.mem_filter.mp kept
    exact ⟨inLinks, List.any_eq_true.mp seen⟩
  · rintro ⟨inLinks, seen⟩
    refine ⟨direction, by cases direction <;> simp, List.mem_map_of_mem ?_⟩
    exact List.mem_filter.mpr ⟨inLinks, List.any_eq_true.mpr seen⟩

/-- A row that its leaf's cap keeps is among the rows of the leaves. -/
theorem mem_leaves_of_kept {direction : Direction} {pair : String × String} (asked : pair ∈ pairs)
    {link : LinkRow}
    (kept : link ∈ (sortBy (leafOrder direction)
      (links.rows.filter (matchesLeaf node direction pair none))).take perNode) :
    ∃ row ∈ leaves links.rows node (leafPlan pairs) perNode none,
      row.edge = edgeOf (direction, link) := by
  have planned : (direction, pair) ∈ leafPlan pairs := by
    unfold leafPlan
    refine List.mem_flatMap.mpr ⟨direction, by cases direction <;> simp, ?_⟩
    exact List.mem_map_of_mem asked
  obtain ⟨leaf, found, same⟩ := List.getElem_of_mem planned
  refine ⟨_, List.mem_flatMap.mpr ⟨((direction, pair), leaf), ?_, List.mem_map_of_mem kept⟩, rfl⟩
  rw [List.mk_mem_zipIdx_iff_getElem?, List.getElem?_eq_getElem found, same]

/-- An edge that few edges of the node come before is kept by its leaf. -/
theorem kept_of_few {direction : Direction} {pair : String × String} (asked : pair ∈ pairs)
    {link : LinkRow} (inLinks : link ∈ links.rows)
    (matched : matchesLeaf node direction pair none link = true)
    {listing : List (Direction × LinkRow)}
    (complete : listing.Perm (visibleEdges links.rows node pairs))
    (few : (listing.filter (edgeOrder · < edgeOrder (direction, link))).length < perNode) :
    link ∈ (sortBy (leafOrder direction)
      (links.rows.filter (matchesLeaf node direction pair none))).take perNode := by
  have nodup : (links.rows.filter (matchesLeaf node direction pair none)).Nodup :=
    links.rows_nodup.filter _
  have near : ∀ row ∈ links.rows.filter (matchesLeaf node direction pair none),
      row ∈ links.rows ∧ row.near direction = node := by
    intro row member
    obtain ⟨held, seen⟩ := List.mem_filter.mp member
    exact ⟨held, (matchesLeaf_iff.mp seen).1⟩
  refine mem_take_sortBy nodup (fun left leftHeld right rightHeld same => ?_)
    (List.mem_filter.mpr ⟨inLinks, matched⟩) (lt_of_le_of_lt ?_ few)
  · exact leafOrder_distinct (near left leftHeld).1 (near right rightHeld).1
      (near left leftHeld).2 (near right rightHeld).2 same
  · -- what comes before the edge in its leaf comes before it in the whole list
    rw [← List.length_map fun row => (direction, row)]
    refine (List.Nodup.subperm ((nodup.filter _).map fun left right same =>
      (Prod.mk.inj same).2) ?_).length_le
    intro edge member
    obtain ⟨row, before, rfl⟩ := List.mem_map.mp member
    obtain ⟨inLeaf, below⟩ := List.mem_filter.mp before
    obtain ⟨held, seen⟩ := List.mem_filter.mp inLeaf
    refine List.mem_filter.mpr ⟨complete.mem_iff.mpr ?_, below⟩
    exact mem_visibleEdges.mpr ⟨held, pair, asked, seen⟩

end Leaves

/-- The first edges of the node's whole list, however its ties are arranged, are all among the
candidates. -/
theorem candidateEdges_prefix (order : RowOrder) (links : LinkTable) (node : String)
    (pairs : List (String × String)) (perNode : Nat) (listing : List (Direction × LinkRow))
    (complete : listing.Perm (visibleEdges links.rows node pairs))
    (ranked : listing.Pairwise fun left right => edgeOrder left ≤ edgeOrder right) :
    ∀ edge ∈ listing.take perNode,
      ∃ row ∈ (candidateEdges order links.rows node pairs perNode).1, row.edge = edgeOf edge := by
  intro edge first
  obtain ⟨inLinks, pair, asked, matched⟩ :=
    mem_visibleEdges.mp (complete.mem_iff.mp (List.mem_of_mem_take first))
  have kept := kept_of_few asked inLinks matched complete (few_before ranked first)
  obtain ⟨row, inLeaves, same⟩ := mem_leaves_of_kept asked kept
  refine ⟨row, List.mem_append_left _ ?_, same⟩
  exact (order.perm node none _).mem_iff.mpr inLeaves

namespace TwoLinks

def link (relation : Relation) (target : String) : LinkRow where
  sourceRef := "node"
  relation := relation
  targetRef := target
  resolved := true
  assertedByEventId := "link"
  asserterScopeRef := publicScope
  targetScopeRef := publicScope
  targetStamp := some { hlcPhys := 1, hlcLogical := 0, originNode := "origin" }
  source := some (publicScope, { hlcPhys := 2, hlcLogical := 0, originNode := "origin" })

def links : LinkTable := ⟨[link .supports "late", link .contradicts "early"], by decide⟩

/-- A contradiction ranks before a support. -/
theorem contradiction_kept :
    ∃ row ∈ (candidateEdges RowOrder.asWritten links.rows "node" [(publicScope, publicScope)] 1).1,
      row.edge = edgeOf (.out, link .contradicts "early") :=
  candidateEdges_prefix RowOrder.asWritten links "node" [(publicScope, publicScope)] 1
    [(.out, link .contradicts "early"), (.out, link .supports "late")]
    (by decide) (by decide) _ (by decide)

end TwoLinks

end Kawa
