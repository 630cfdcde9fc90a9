import Kawa.LeafPrefix

/-!
What a capped leaf leaves of the evidence.  Contradictions and supports share a budget, yet a
leaf fills in the order of its ranks, and only a side that is missing altogether is asked for
again.  A contradiction that is cut in part is not missing.
-/

namespace Kawa

open Ranking

/-- The edges of one relation in a leaf. -/
def leafEdges (links : List LinkRow) (node : String) (direction : Direction)
    (pair : String × String) (relation : Relation) : List LinkRow :=
  links.filter (matchesLeaf node direction pair (some relation))

/-- The edges of one relation in a leaf that are among the candidates of the node. -/
def returnedEdges (order : RowOrder) (links : List LinkRow) (node : String)
    (pairs : List (String × String)) (perNode : Nat) (direction : Direction)
    (pair : String × String) (relation : Relation) : List LinkRow :=
  (leafEdges links node direction pair relation).filter fun link =>
    (candidateEdges order links node pairs perNode).1.any fun row =>
      row.edge = edgeOf (direction, link)

/-- Both sides of the evidence of a leaf come back, and support does not outnumber a
contradiction that is cut. -/
structure FairLeaf (order : RowOrder) (links : List LinkRow) (node : String)
    (pairs : List (String × String)) (perNode : Nat) (direction : Direction)
    (pair : String × String) : Prop where
  balanced : (∃ link ∈ leafEdges links node direction pair .contradicts,
      link ∉ returnedEdges order links node pairs perNode direction pair .contradicts) →
    (returnedEdges order links node pairs perNode direction pair .supports).length ≤
      (returnedEdges order links node pairs perNode direction pair .contradicts).length
  represented : ∀ relation ∈ fairShare, leafEdges links node direction pair relation ≠ [] →
    returnedEdges order links node pairs perNode direction pair relation ≠ []

/-! ## What a leaf keeps -/

/-- The first edges of a leaf, or of one relation in it. -/
def keptEdges (links : List LinkRow) (node : String) (direction : Direction)
    (pair : String × String) (perNode : Nat) (relation : Option Relation) : List LinkRow :=
  (sortBy (leafOrder direction) (links.filter (matchesLeaf node direction pair relation))).take
    perNode

/-- The cap saturates the leaf and has left nothing of the relation. -/
structure StarvedLeaf (links : List LinkRow) (node : String) (direction : Direction)
    (pair : String × String) (perNode : Nat) (relation : Relation) : Prop where
  saturated : perNode ≤ (keptEdges links node direction pair perNode none).length
  listed : keptEdges links node direction pair perNode none ≠ []
  missing : ∀ link ∈ keptEdges links node direction pair perNode none, link.relation ≠ relation

/-- The edges of a relation that a cap leaves, where `below` edges of the leaf rank before it:
the places that are left over, or a cap of its own where there are none. -/
def share (perNode total below count : Nat) : Nat :=
  if 0 < perNode ∧ perNode ≤ total ∧ min count (perNode - below) = 0 then min count perNode
  else min count (perNode - below)

section Leaf

variable {order : RowOrder} {links : LinkTable} {node : String} {pairs : List (String × String)}
  {perNode : Nat} {direction : Direction} {pair : String × String} {relation : Relation}
  {link : LinkRow}

theorem mem_leafEdges : link ∈ leafEdges links.rows node direction pair relation ↔
    link ∈ links.rows ∧ matchesLeaf node direction pair none link = true ∧
      link.relation = relation := by
  unfold leafEdges
  rw [List.mem_filter, matchesLeaf_iff, matchesLeaf_iff]
  simp only [Option.mem_def, Option.some.injEq, forall_eq', reduceCtorEq, false_implies,
    implies_true, and_true, and_congr_right_iff]
  tauto

theorem leafEdges_eq_filter : leafEdges links.rows node direction pair relation =
    (links.rows.filter (matchesLeaf node direction pair none)).filter (·.relation = relation) := by
  unfold leafEdges
  rw [List.filter_filter]
  refine List.filter_congr fun link held => Bool.eq_iff_iff.mpr ?_
  have member := @mem_leafEdges links node direction pair relation link
  unfold leafEdges at member
  rw [List.mem_filter, and_iff_right held, and_iff_right held] at member
  rw [Bool.and_eq_true, decide_eq_true_eq, member, and_comm]

theorem mem_keptEdges {asked : Option Relation}
    (kept : link ∈ keptEdges links.rows node direction pair perNode asked) :
    link ∈ links.rows ∧ matchesLeaf node direction pair asked link = true :=
  List.mem_filter.mp (mem_sortBy.mp (List.mem_of_mem_take kept))

/-- At one node an edge names its link and its direction. -/
theorem edgeOf_injective {other : Direction} {left right : LinkRow} (leftHeld : left ∈ links.rows)
    (rightHeld : right ∈ links.rows) (leftNear : left.near direction = node)
    (rightNear : right.near other = node)
    (same : edgeOf (direction, left) = edgeOf (other, right)) :
    direction = other ∧ left = right := by
  have directions : direction = other := congrArg Edge.direction same
  subst directions
  have relations : left.relation = right.relation := congrArg Edge.relation same
  have others : left.other direction = right.other direction := congrArg Edge.other same
  refine ⟨rfl, Table.eq_of_key (Table.mem_rows.mp leftHeld) (Table.mem_rows.mp rightHeld) ?_⟩
  cases direction with
  | out => exact Prod.ext (leftNear.trans rightNear.symm) (Prod.ext relations others)
  | into => exact Prod.ext others (Prod.ext relations (leftNear.trans rightNear.symm))

/-- A link lies in one leaf of a direction. -/
theorem pair_of_matched {other : String × String} {asked : Option Relation}
    (mine : matchesLeaf node direction pair none link = true)
    (theirs : matchesLeaf node direction other asked link = true) : other = pair := by
  obtain ⟨_, _, endpoint, asserter, _⟩ := matchesLeaf_iff.mp mine
  obtain ⟨_, _, otherEndpoint, otherAsserter, _⟩ := matchesLeaf_iff.mp theirs
  refine Prod.ext (Option.some.inj ?_) ?_
  · exact otherEndpoint.symm.trans endpoint
  · exact otherAsserter.symm.trans asserter

/-- A plan entry that names the position of a row's leaf. -/
theorem leaves_at {plan : List (Direction × String × String)} {asked : Option Relation}
    {row : Candidate} : row ∈ leaves links.rows node plan perNode asked ↔
      ∃ entry, plan[row.leaf]? = some entry ∧
        ∃ link ∈ keptEdges links.rows node entry.1 entry.2 perNode asked,
          row.edge = edgeOf (entry.1, link) := by
  constructor
  · intro member
    obtain ⟨⟨entry, position⟩, listed, inLeaf⟩ := List.mem_flatMap.mp member
    obtain ⟨link, taken, rfl⟩ := List.mem_map.mp inLeaf
    exact ⟨entry, List.mk_mem_zipIdx_iff_getElem?.mp listed, link, taken, rfl⟩
  · rintro ⟨entry, found, link, taken, same⟩
    refine List.mem_flatMap.mpr ⟨(entry, row.leaf), List.mk_mem_zipIdx_iff_getElem?.mpr found,
      List.mem_map.mpr ⟨link, taken, ?_⟩⟩
    obtain ⟨relation, other, direction, leaf, stamp⟩ := row
    simp only [Candidate.edge, edgeOf, Edge.mk.injEq] at same
    obtain ⟨rfl, rfl, rfl, rfl⟩ := same
    rfl

/-- The leaves that stand behind a position of a plan have no row of it. -/
theorem countP_behind {plan : List (Direction × String × String)} {asked : Option Relation}
    {first leaf : Nat} (behind : leaf < first) :
    ((plan.zipIdx first).flatMap fun entry =>
      oneLeaf links.rows node entry.1.1 entry.1.2 perNode asked entry.2).countP (·.leaf = leaf) =
        0 := by
  rw [List.countP_eq_zero]
  intro row member
  obtain ⟨⟨entry, position⟩, listed, inLeaf⟩ := List.mem_flatMap.mp member
  obtain ⟨link, _, rfl⟩ := List.mem_map.mp inLeaf
  have later := (List.mk_mem_zipIdx_iff_le_and_getElem?_sub.mp listed).1
  simp only [decide_eq_true_eq]
  omega

/-- The rows of one leaf of a plan are the edges that its cap keeps. -/
theorem leaves_countP {plan : List (Direction × String × String)} {asked : Option Relation}
    {leaf : Nat} {entry : Direction × String × String} (found : plan[leaf]? = some entry) :
    (leaves links.rows node plan perNode asked).countP (·.leaf = leaf) =
      (keptEdges links.rows node entry.1 entry.2 perNode asked).length := by
  unfold leaves
  suffices counted : ∀ first, ((plan.zipIdx first).flatMap fun entry =>
      oneLeaf links.rows node entry.1.1 entry.1.2 perNode asked entry.2).countP
        (·.leaf = first + leaf) =
          (keptEdges links.rows node entry.1 entry.2 perNode asked).length by
    simpa using counted 0
  induction plan generalizing leaf with
  | nil => cases found
  | cons head plan ih =>
      intro first
      rw [List.zipIdx_cons, List.flatMap_cons, List.countP_append]
      cases leaf with
      | zero =>
          cases found
          rw [countP_behind (Nat.lt_succ_self _), Nat.add_zero, List.countP_eq_length.mpr]
          · exact List.length_map _
          · intro row inLeaf
            obtain ⟨link, _, rfl⟩ := List.mem_map.mp inLeaf
            exact decide_eq_true rfl
      | succ leaf =>
          have rest := ih found (first + 1)
          rw [Nat.add_right_comm] at rest
          rw [← Nat.add_assoc, rest, List.countP_eq_zero.mpr, Nat.zero_add]
          intro row inLeaf
          obtain ⟨link, _, rfl⟩ := List.mem_map.mp inLeaf
          simp only [decide_eq_true_eq]
          omega

/-! ## What comes back -/

/-- The leaf of a position is saturated when its cap is reached. -/
theorem mem_saturatedLeaves {rows : List Candidate}
    (same : rows.Perm (leaves links.rows node (leafPlan pairs) perNode none)) {leaf : Nat}
    {entry : Direction × String × String} (found : (leafPlan pairs)[leaf]? = some entry) :
    leaf ∈ saturatedLeaves rows perNode ↔
      perNode ≤ (keptEdges links.rows node entry.1 entry.2 perNode none).length ∧
        keptEdges links.rows node entry.1 entry.2 perNode none ≠ [] := by
  have counted := @leaves_countP links node perNode (leafPlan pairs) none leaf entry found
  rw [← same.countP_eq] at counted
  unfold saturatedLeaves
  rw [List.mem_filter, List.mem_dedup, List.mem_map, decide_eq_true_eq, counted, and_comm,
    and_congr_right_iff]
  intro _
  rw [← List.length_pos_iff, ← counted, List.countP_pos_iff]
  simp only [decide_eq_true_eq]

theorem mem_starvedLeaves {rows : List Candidate}
    (same : rows.Perm (leaves links.rows node (leafPlan pairs) perNode none)) {leaf : Nat}
    {entry : Direction × String × String} (found : (leafPlan pairs)[leaf]? = some entry) :
    leaf ∈ starvedLeaves rows perNode relation ↔
      StarvedLeaf links.rows node entry.1 entry.2 perNode relation := by
  unfold starvedLeaves
  rw [List.mem_filter, mem_sortBy, mem_saturatedLeaves same found]
  simp only [Bool.not_eq_true', List.any_eq_false, decide_eq_true_eq, not_and]
  constructor
  · rintro ⟨⟨saturated, listed⟩, missing⟩
    refine ⟨saturated, listed, fun link kept sided => ?_⟩
    let row : Candidate := ⟨link.relation, link.other entry.1, entry.1, leaf, link.otherStamp entry.1⟩
    have member : row ∈ rows := same.mem_iff.mpr (leaves_at.mpr ⟨entry, found, link, kept, rfl⟩)
    exact missing row member rfl sided
  · rintro ⟨saturated, listed, missing⟩
    refine ⟨⟨saturated, listed⟩, fun row member here sided => ?_⟩
    obtain ⟨own, ownFound, link, kept, edge⟩ := leaves_at.mp (same.mem_iff.mp member)
    rw [here, found] at ownFound
    cases ownFound
    exact missing link kept ((congrArg Edge.relation edge).symm.trans sided)

theorem mem_leafPlan {entry : Direction × String × String} :
    entry ∈ leafPlan pairs ↔ entry.2 ∈ pairs := by
  obtain ⟨direction, pair⟩ := entry
  unfold leafPlan
  cases direction <;> simp

/-- The one leaf of a link's direction that brings it back. -/
theorem kept_of_leaves {plan : List (Direction × String × String)} {asked : Option Relation}
    {row : Candidate} (held : link ∈ links.rows)
    (matched : matchesLeaf node direction pair none link = true)
    (member : row ∈ leaves links.rows node plan perNode asked)
    (same : row.edge = edgeOf (direction, link)) :
    plan[row.leaf]? = some (direction, pair) ∧
      link ∈ keptEdges links.rows node direction pair perNode asked := by
  obtain ⟨⟨other, scopes⟩, found, own, kept, edge⟩ := leaves_at.mp member
  obtain ⟨ownHeld, ownMatched⟩ := mem_keptEdges kept
  have near : link.near direction = node := (matchesLeaf_iff.mp matched).1
  obtain ⟨rfl, rfl⟩ := edgeOf_injective held ownHeld near (matchesLeaf_iff.mp ownMatched).1
    (same.symm.trans edge)
  obtain rfl := pair_of_matched matched ownMatched
  exact ⟨found, kept⟩

/-- An edge of a leaf comes back with the first rows of the leaf, or with those of its relation
when the leaf is starved of it. -/
theorem mem_returnedEdges (asked : pair ∈ pairs)
    (inLeaf : link ∈ leafEdges links.rows node direction pair relation) :
    link ∈ returnedEdges order links.rows node pairs perNode direction pair relation ↔
      link ∈ keptEdges links.rows node direction pair perNode none ∨
        relation ∈ fairShare ∧ StarvedLeaf links.rows node direction pair perNode relation ∧
          link ∈ keptEdges links.rows node direction pair perNode (some relation) := by
  obtain ⟨held, matched, sided⟩ := mem_leafEdges.mp inLeaf
  have arranged := order.perm node none (leaves links.rows node (leafPlan pairs) perNode none)
  obtain ⟨leaf, found⟩ := List.mem_iff_getElem?.mp
    (mem_leafPlan.mpr (show ((direction, pair) : Direction × String × String).2 ∈ pairs from asked))
  unfold returnedEdges
  rw [List.mem_filter, and_iff_right inLeaf, List.any_eq_true]
  simp only [decide_eq_true_eq]
  unfold candidateEdges
  dsimp only
  constructor
  · rintro ⟨row, member, same⟩
    rcases List.mem_append.mp member with first | extra
    · exact .inl (kept_of_leaves held matched (arranged.mem_iff.mp first) same).2
    · obtain ⟨topped, fair, inTopped⟩ := List.mem_flatMap.mp extra
      obtain ⟨position, kept⟩ :=
        kept_of_leaves held matched ((order.perm _ _ _).mem_iff.mp inTopped) same
      obtain rfl : topped = relation :=
        ((matchesLeaf_iff.mp (mem_keptEdges kept).2).2.2.2.2 topped rfl).trans sided
      obtain ⟨own, starved, at_⟩ := List.mem_filterMap.mp (List.mem_of_getElem? position)
      exact .inr ⟨fair, (mem_starvedLeaves arranged at_).mp starved, kept⟩
  · rintro (kept | ⟨fair, starved, kept⟩)
    · refine ⟨⟨link.relation, link.other direction, direction, leaf, link.otherStamp direction⟩,
        List.mem_append_left _ (arranged.mem_iff.mpr (leaves_at.mpr ?_)), rfl⟩
      exact ⟨(direction, pair), found, link, kept, rfl⟩
    · have listed := (mem_starvedLeaves arranged found).mpr starved
      obtain ⟨position, placed⟩ := List.mem_iff_getElem?.mp
        (List.mem_filterMap.mpr ⟨leaf, listed, found⟩)
      refine ⟨⟨link.relation, link.other direction, direction, position, link.otherStamp direction⟩,
        List.mem_append_right _ (List.mem_flatMap.mpr ⟨relation, fair, ?_⟩), rfl⟩
      exact (order.perm _ _ _).mem_iff.mpr
        (leaves_at.mpr ⟨(direction, pair), placed, link, kept, rfl⟩)

/-! ## Counting -/

theorem keptEdges_nodup {asked : Option Relation} :
    (keptEdges links.rows node direction pair perNode asked).Nodup := by
  have sorted := (sortBy_perm (leafOrder direction)
    (links.rows.filter (matchesLeaf node direction pair asked))).nodup_iff.mpr
      (links.rows_nodup.filter _)
  exact sorted.sublist (List.take_sublist _ _)

theorem keptEdges_length {asked : Option Relation} :
    (keptEdges links.rows node direction pair perNode asked).length =
      min perNode (links.rows.filter (matchesLeaf node direction pair asked)).length := by
  unfold keptEdges
  rw [List.length_take, (sortBy_perm _ _).length_eq]

/-- The edges of a leaf that rank before a relation. -/
def precedingEdges (links : List LinkRow) (node : String) (direction : Direction)
    (pair : String × String) (relation : Relation) : List LinkRow :=
  (links.filter (matchesLeaf node direction pair none)).filter (·.relation.rank < relation.rank)

/-- The first edges of a leaf, of one relation. -/
theorem keptEdges_relation :
    ((keptEdges links.rows node direction pair perNode none).filter
        (·.relation = relation)).length =
      min (leafEdges links.rows node direction pair relation).length
        (perNode - (precedingEdges links.rows node direction pair relation).length) := by
  let leaf := links.rows.filter (matchesLeaf node direction pair none)
  have perm := sortBy_perm (leafOrder direction) leaf
  have ranked : (sortBy (leafOrder direction) leaf).Pairwise fun left right =>
      left.relation.rank ≤ right.relation.rank := by
    refine (sortBy_sorted (leafOrder direction) leaf).imp fun below => ?_
    rcases Prod.Lex.le_iff.mp below with first | same
    · exact first.le
    · exact same.1.le
  have counted := length_filter_take ranked relation.rank perNode
  rw [(perm.filter _).length_eq, (perm.filter _).length_eq] at counted
  have sides : ∀ rows : List LinkRow, rows.filter (·.relation.rank = relation.rank) =
      rows.filter (·.relation = relation) :=
    fun rows => List.filter_congr fun link _ => by simp [Relation.rank_injective.eq_iff]
  rw [sides, sides] at counted
  rw [← leafEdges_eq_filter] at counted
  exact counted

theorem starvedLeaf_iff : StarvedLeaf links.rows node direction pair perNode relation ↔
    0 < perNode ∧ perNode ≤ (links.rows.filter (matchesLeaf node direction pair none)).length ∧
      min (leafEdges links.rows node direction pair relation).length
        (perNode - (precedingEdges links.rows node direction pair relation).length) = 0 := by
  have length := @keptEdges_length links node perNode direction pair none
  rw [← keptEdges_relation, List.length_eq_zero_iff, List.filter_eq_nil_iff]
  simp only [decide_eq_true_eq]
  constructor
  · rintro ⟨saturated, listed, missing⟩
    have some := List.length_pos_iff.mpr listed
    exact ⟨by omega, by omega, missing⟩
  · rintro ⟨positive, full, missing⟩
    exact ⟨by omega, List.length_pos_iff.mp (by omega), missing⟩

theorem returnedEdges_length (asked : pair ∈ pairs) (fair : relation ∈ fairShare) :
    (returnedEdges order links.rows node pairs perNode direction pair relation).length =
      share perNode (links.rows.filter (matchesLeaf node direction pair none)).length
        (precedingEdges links.rows node direction pair relation).length
        (leafEdges links.rows node direction pair relation).length := by
  have nodup : (leafEdges links.rows node direction pair relation).Nodup :=
    links.rows_nodup.filter _
  have back := fun link (inLeaf : link ∈ leafEdges links.rows node direction pair relation) =>
    @mem_returnedEdges order links node pairs perNode direction pair relation link asked inLeaf
  have kept : ∀ keeps : List LinkRow, keeps.Nodup →
      (∀ link, link ∈ keeps ↔ link ∈ leafEdges links.rows node direction pair relation ∧
        link ∈ returnedEdges order links.rows node pairs perNode direction pair relation) →
      (returnedEdges order links.rows node pairs perNode direction pair relation).length =
        keeps.length := by
    intro keeps keepsNodup same
    refine (perm_of_mem_iff (nodup.filter _) keepsNodup fun link => ?_).length_eq
    exact ⟨fun held => (same link).mpr ⟨List.mem_of_mem_filter held, held⟩,
      fun held => ((same link).mp held).2⟩
  unfold share
  by_cases starved : StarvedLeaf links.rows node direction pair perNode relation
  · rw [if_pos (starvedLeaf_iff.mp starved),
      kept (keptEdges links.rows node direction pair perNode (some relation)) keptEdges_nodup,
      keptEdges_length, min_comm]
    · rfl
    · intro link
      constructor
      · intro first
        have inLeaf := List.mem_filter.mpr (mem_keptEdges first)
        exact ⟨inLeaf, (back link inLeaf).mpr (.inr ⟨fair, starved, first⟩)⟩
      · rintro ⟨inLeaf, returned⟩
        rcases (back link inLeaf).mp returned with first | topped
        · exact absurd (mem_leafEdges.mp inLeaf).2.2 (starved.missing link first)
        · exact topped.2.2
  · rw [if_neg fun met => starved (starvedLeaf_iff.mpr met), ← keptEdges_relation]
    refine kept _ (keptEdges_nodup.filter _) fun link => ?_
    rw [List.mem_filter, decide_eq_true_eq]
    constructor
    · rintro ⟨first, sided⟩
      obtain ⟨held, matched⟩ := mem_keptEdges first
      have inLeaf := mem_leafEdges.mpr ⟨held, matched, sided⟩
      exact ⟨inLeaf, (back link inLeaf).mpr (.inl first)⟩
    · rintro ⟨inLeaf, returned⟩
      refine ⟨((back link inLeaf).mp returned).resolve_right fun topped => starved topped.2.1, ?_⟩
      exact (mem_leafEdges.mp inLeaf).2.2

theorem omitted_iff : (∃ link ∈ leafEdges links.rows node direction pair relation,
      link ∉ returnedEdges order links.rows node pairs perNode direction pair relation) ↔
    (returnedEdges order links.rows node pairs perNode direction pair relation).length <
      (leafEdges links.rows node direction pair relation).length := by
  unfold returnedEdges
  rw [List.length_filter_lt_length_iff_exists]
  refine exists_congr fun link => and_congr_right fun inLeaf => ?_
  rw [List.mem_filter, and_iff_right inLeaf]

end Leaf

/-- How many edges of a relation a leaf has. -/
def leafCount (links : List LinkRow) (node : String) (direction : Direction)
    (pair : String × String) (relation : Relation) : Nat :=
  (leafEdges links node direction pair relation).length

section Fairness

variable {order : RowOrder} {links : LinkTable} {node : String} {pairs : List (String × String)}
  {perNode : Nat} {direction : Direction} {pair : String × String}

theorem preceding_contradicts : (precedingEdges links.rows node direction pair .contradicts).length =
    leafCount links.rows node direction pair .supersedes := by
  unfold leafCount precedingEdges
  rw [leafEdges_eq_filter]
  refine congrArg List.length (List.filter_congr fun link _ => ?_)
  cases link.relation <;> rfl

theorem preceding_supports : (precedingEdges links.rows node direction pair .supports).length =
    leafCount links.rows node direction pair .supersedes +
      leafCount links.rows node direction pair .contradicts := by
  unfold leafCount precedingEdges
  rw [leafEdges_eq_filter, leafEdges_eq_filter]
  induction links.rows.filter (matchesLeaf node direction pair none) with
  | nil => rfl
  | cons link rows ih =>
      simp only [List.filter_cons]
      cases link.relation <;> simp [Relation.rank] at ih ⊢ <;> omega

theorem leafCount_le : leafCount links.rows node direction pair .supersedes +
    leafCount links.rows node direction pair .contradicts +
    leafCount links.rows node direction pair .supports ≤
      (links.rows.filter (matchesLeaf node direction pair none)).length := by
  unfold leafCount
  rw [leafEdges_eq_filter, leafEdges_eq_filter, leafEdges_eq_filter]
  induction links.rows.filter (matchesLeaf node direction pair none) with
  | nil => exact le_refl _
  | cons link rows ih =>
      simp only [List.filter_cons]
      cases link.relation <;> simp at ih ⊢ <;> omega

/-- What comes back of the two sides, from the edges of the leaf alone. -/
theorem returned_counts (asked : pair ∈ pairs) :
    (returnedEdges order links.rows node pairs perNode direction pair .contradicts).length =
        share perNode (links.rows.filter (matchesLeaf node direction pair none)).length
          (leafCount links.rows node direction pair .supersedes)
          (leafCount links.rows node direction pair .contradicts) ∧
      (returnedEdges order links.rows node pairs perNode direction pair .supports).length =
        share perNode (links.rows.filter (matchesLeaf node direction pair none)).length
          (leafCount links.rows node direction pair .supersedes +
            leafCount links.rows node direction pair .contradicts)
          (leafCount links.rows node direction pair .supports) := by
  constructor
  · rw [returnedEdges_length asked (by decide), preceding_contradicts]
    rfl
  · rw [returnedEdges_length asked (by decide), preceding_supports]
    rfl

/-- The two sides of a leaf are fair as far as their numbers are. -/
theorem fairLeaf_counts : FairLeaf order links.rows node pairs perNode direction pair ↔
    ((returnedEdges order links.rows node pairs perNode direction pair .contradicts).length <
        leafCount links.rows node direction pair .contradicts →
      (returnedEdges order links.rows node pairs perNode direction pair .supports).length ≤
        (returnedEdges order links.rows node pairs perNode direction pair .contradicts).length) ∧
      (0 < leafCount links.rows node direction pair .contradicts → 0 <
        (returnedEdges order links.rows node pairs perNode direction pair .contradicts).length) ∧
      (0 < leafCount links.rows node direction pair .supports → 0 <
        (returnedEdges order links.rows node pairs perNode direction pair .supports).length) := by
  unfold leafCount
  simp only [List.length_pos_iff]
  constructor
  · intro fair
    exact ⟨fun fewer => fair.balanced (omitted_iff.mpr fewer),
      fair.represented .contradicts (by decide), fair.represented .supports (by decide)⟩
  · rintro ⟨balanced, contradicts, supports⟩
    refine ⟨fun omitted => balanced (omitted_iff.mp omitted), fun relation fair => ?_⟩
    rcases List.mem_pair.mp fair with rfl | rfl
    · exact contradicts
    · exact supports

end Fairness

/-- A leaf is fair unless its superseding edges leave the contradictions fewer places than they
need and than the supports fill with a cap of their own. -/
theorem fairLeaf_iff (order : RowOrder) (links : LinkTable) (node : String)
    (pairs : List (String × String)) (perNode : Nat) (direction : Direction)
    (pair : String × String) (asked : pair ∈ pairs) :
    FairLeaf order links.rows node pairs perNode direction pair ↔
      ¬(0 < leafCount links.rows node direction pair .supersedes ∧
          leafCount links.rows node direction pair .supersedes < perNode ∧
          perNode < leafCount links.rows node direction pair .supersedes +
            leafCount links.rows node direction pair .contradicts ∧
          perNode < leafCount links.rows node direction pair .supersedes +
            leafCount links.rows node direction pair .supports) ∧
        (perNode = 0 → leafCount links.rows node direction pair .contradicts = 0 ∧
          leafCount links.rows node direction pair .supports = 0) := by
  have total := @leafCount_le links node direction pair
  rw [fairLeaf_counts, (returned_counts asked).1, (returned_counts asked).2]
  unfold share
  generalize leafCount links.rows node direction pair .supersedes = supersedes at total ⊢
  generalize leafCount links.rows node direction pair .contradicts = contradicts at total ⊢
  generalize leafCount links.rows node direction pair .supports = supports at total ⊢
  generalize (links.rows.filter (matchesLeaf node direction pair none)).length = all at total ⊢
  split_ifs <;> omega

namespace CutContradiction

def link (relation : Relation) (source : String) : LinkRow where
  sourceRef := source
  relation := relation
  targetRef := "claim"
  resolved := true
  assertedByEventId := "link"
  asserterScopeRef := publicScope
  targetScopeRef := publicScope
  targetStamp := some { hlcPhys := 1, hlcLogical := 0, originNode := "origin" }
  source := some (publicScope, { hlcPhys := 2, hlcLogical := 0, originNode := "origin" })

def numbered (relation : Relation) (name : Char) : List LinkRow :=
  (List.range 20).map fun length => link relation (String.ofList (List.replicate (length + 1) name))

/-- One edge that supersedes the claim, twenty against it and twenty for it. -/
def links : LinkTable :=
  ⟨link .supersedes "newer" :: (numbered .contradicts 'c' ++ numbered .supports 's'),
    by decide +kernel⟩

/-- Nineteen contradictions come back, and all the supports. -/
theorem contradiction_cut : ¬FairLeaf RowOrder.asWritten links.rows "claim"
    [(publicScope, publicScope)] candidatePerNode .into (publicScope, publicScope) := by
  intro fair
  have counts := fairLeaf_counts.mp fair
  have returned := @returned_counts RowOrder.asWritten links "claim" [(publicScope, publicScope)]
    candidatePerNode .into (publicScope, publicScope) (by decide)
  have total : (links.rows.filter
      (matchesLeaf "claim" .into (publicScope, publicScope) none)).length = 41 := by decide +kernel
  have supersedes : leafCount links.rows "claim" .into (publicScope, publicScope) .supersedes = 1 := by
    decide +kernel
  have contradicts :
      leafCount links.rows "claim" .into (publicScope, publicScope) .contradicts = 20 := by
    decide +kernel
  have supports : leafCount links.rows "claim" .into (publicScope, publicScope) .supports = 20 := by
    decide +kernel
  rw [returned.1, returned.2, total, supersedes, contradicts, supports] at counts
  exact absurd (counts.1 (by decide)) (by decide)

end CutContradiction

/-- Where nothing supersedes the node, both sides come back under any cap. -/
theorem TwoLinks.fair : FairLeaf RowOrder.asWritten TwoLinks.links.rows "node"
    [(publicScope, publicScope)] 1 .out (publicScope, publicScope) :=
  (fairLeaf_iff RowOrder.asWritten TwoLinks.links "node" [(publicScope, publicScope)] 1 .out
    (publicScope, publicScope) (by decide)).mpr ⟨by decide, by decide⟩

end Kawa
