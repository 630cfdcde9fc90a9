import Kawa.Console
import Kawa.AnchorCurrency

/-!
When the refresh of the console raises, and what a facet shows.  A facet is the latest reading of
its node, predicate and qualifier; the order of the readings casts the times of all of them.
-/

namespace Kawa

namespace Console

open DistinctOn Latest Result

variable {τ : Type} {timestamp : String → Option τ}

/-! ## Dated rows -/

theorem ensure_ok {condition : Bool} {error : RefreshError} :
    (∃ done, ensure condition error = .ok done) ↔ condition = true := by
  unfold ensure
  cases condition <;> simp

theorem date_ok {ρ : Type} {facet : ρ → FacetRow} {row : ρ} {dated : Dated τ ρ} :
    date timestamp facet row = .ok dated ↔
      dated.row = row ∧ castTimes timestamp (facet row) = some (dated.occurred, dated.fetched) := by
  unfold date
  cases castTimes timestamp (facet row) with
  | none => simp
  | some times =>
      constructor
      · intro done
        cases done
        exact ⟨rfl, rfl⟩
      · rintro ⟨rfl, same⟩
        cases same
        rfl

theorem date_succeeds {ρ : Type} {facet : ρ → FacetRow} {row : ρ} :
    (∃ dated, date timestamp facet row = .ok dated) ↔
      (castTimes timestamp (facet row)).isSome = true := by
  unfold date
  cases castTimes timestamp (facet row) <;> simp

/-- The list of all rows with their instants. -/
theorem mem_dated {ρ : Type} {facet : ρ → FacetRow} {rows : List ρ} {list : List (Dated τ ρ)}
    (done : rows.mapM (date timestamp facet) = .ok list) {dated : Dated τ ρ} :
    dated ∈ list ↔ dated.row ∈ rows ∧ date timestamp facet dated.row = .ok dated := by
  constructor
  · intro member
    obtain ⟨row, held, made⟩ := mem_mapM done member
    obtain ⟨rfl, _⟩ := date_ok.mp made
    exact ⟨held, made⟩
  · rintro ⟨held, made⟩
    obtain ⟨other, member, again⟩ := mapM_mem done held
    rw [made] at again
    cases again
    exact member

theorem fleetNode_valid (log : Log) (probes : List (Dated τ FacetRow)) (nodeRef : String) :
    (fleetNode log probes nodeRef).valid = true := by
  unfold fleetNode FleetNode.valid
  cases probes.find? (·.row.qualifier = nodeRef) with
  | none => simp
  | some probe => by_cases reached : probe.row.valueBool = some true <;> simp [reached]

@[simp] theorem fleetNode_nodeRef (log : Log) (probes : List (Dated τ FacetRow))
    (nodeRef : String) : (fleetNode log probes nodeRef).nodeRef = nodeRef := by
  unfold fleetNode
  split <;> rfl

theorem situation_succeeds_iff {projections : Projections} {nodes : List (FleetNode τ)} :
    (∃ cards, refreshSituationRollup projections nodes = .ok cards) ↔
      (executionCard projections).valid = true ∧ (epistemicCard projections).valid = true ∧
        (healthReachCard nodes).valid = true := by
  have fixed : authorityCard.valid = true ∧ freshnessCard.valid = true := by decide
  simp only [refreshSituationRollup, bind_ok, pure_ok]
  constructor
  · rintro ⟨_, passed, ensured, rfl⟩
    have all := ensure_ok.mp ⟨passed, ensured⟩
    simp only [List.all_cons, Bool.and_eq_true] at all
    exact ⟨all.2.1, all.2.2.1, all.2.2.2.1⟩
  · rintro ⟨execution, epistemic, reach⟩
    obtain ⟨passed, ensured⟩ : ∃ done, ensure ([authorityCard, executionCard projections,
        epistemicCard projections, healthReachCard nodes, freshnessCard].all Situation.valid)
        .checkViolation = .ok done :=
      ensure_ok.mpr (by simp [fixed, execution, epistemic, reach])
    exact ⟨_, passed, ensured, rfl⟩

/-! ## The latest readings -/

variable [LinearOrder τ]

theorem readingOf_some {row : EventObservationRow} {event : EventRow} {reading : Reading}
    (read : readingOf row event = some reading) : reading.nodeRef = event.originNode ∧
      reading.originSeq = event.originSeq ∧ reading.sourceEventId = row.eventId := by
  simp only [readingOf, Option.bind_eq_bind, Option.bind_eq_some_iff] at read
  obtain ⟨_, _, _, _, _, _, _, _, made⟩ := read
  cases made
  exact ⟨rfl, rfl, rfl⟩

theorem mem_readings {log : Log} {reading : Reading} : reading ∈ readings log ↔
    ∃ row ∈ log.eventObservation, ∃ event, log.events.find? row.eventId = some event ∧
      readingOf row event = some reading := by
  simp only [readings, List.mem_filterMap, Table.mem_rows, Option.bind_eq_some_iff]

/-- The readings of a node have different numbers. -/
theorem readings_separated {log : Log} (placed : log.Placed) {left right : Reading}
    (leftHeld : left ∈ readings log) (rightHeld : right ∈ readings log)
    (node : left.nodeRef = right.nodeRef) (seq : left.originSeq = right.originSeq) :
    left = right := by
  obtain ⟨leftRow, inLeft, leftEvent, leftFound, leftRead⟩ := mem_readings.mp leftHeld
  obtain ⟨rightRow, inRight, rightEvent, rightFound, rightRead⟩ := mem_readings.mp rightHeld
  obtain ⟨leftNode, leftSeq, _⟩ := readingOf_some leftRead
  obtain ⟨rightNode, rightSeq, _⟩ := readingOf_some rightRead
  obtain ⟨leftStored, leftNamed⟩ := Table.find?_eq_some.mp leftFound
  obtain ⟨rightStored, rightNamed⟩ := Table.find?_eq_some.mp rightFound
  obtain rfl : leftEvent = rightEvent := by
    refine placed _ leftStored _ rightStored ?_ ?_
    · rw [← leftNode, ← rightNode, node]
    · rw [← leftSeq, ← rightSeq, seq]
  obtain rfl : leftRow = rightRow :=
    Table.eq_of_key inLeft inRight (leftNamed.symm.trans rightNamed)
  rw [leftRead] at rightRead
  exact Option.some.inj rightRead

/-- No reading of its key is after it. -/
structure LatestReading (timestamp : String → Option τ) (log : Log) (dated : Dated τ Reading) :
    Prop where
  listed : dated.row ∈ readings log
  cast : date timestamp Reading.toFacetRow dated.row = .ok dated
  latest : ∀ other : Dated τ Reading, other.row ∈ readings log →
    date timestamp Reading.toFacetRow other.row = .ok other → other.row.key = dated.row.key →
      readingOrder other ≤ readingOrder dated

theorem mem_latest {log : Log} (placed : log.Placed) {list : List (Dated τ Reading)}
    (done : (readings log).mapM (date timestamp Reading.toFacetRow) = .ok list)
    {dated : Dated τ Reading} :
    dated ∈ distinctOn (·.row.key) readingOrder list ↔ LatestReading timestamp log dated := by
  rw [mem_distinctOn_iff fun left leftHeld right rightHeld same order => ?_]
  · constructor
    · rintro ⟨member, latest⟩
      obtain ⟨listed, cast⟩ := (mem_dated done).mp member
      exact ⟨listed, cast, fun other held made key =>
        latest other ((mem_dated done).mpr ⟨held, made⟩) key⟩
    · intro holds
      refine ⟨(mem_dated done).mpr ⟨holds.listed, holds.cast⟩, fun other member key => ?_⟩
      obtain ⟨listed, cast⟩ := (mem_dated done).mp member
      exact holds.latest other listed cast key
  · obtain ⟨inLeft, leftCast⟩ := (mem_dated done).mp leftHeld
    obtain ⟨inRight, rightCast⟩ := (mem_dated done).mp rightHeld
    have rows : left.row = right.row := by
      refine readings_separated placed inLeft inRight (congrArg Prod.fst same) ?_
      have last := congrArg (fun order => (ofLex (ofLex order).2).2) order
      exact last
    rw [rows, rightCast] at leftCast
    exact (Except.ok.inj leftCast).symm

/-- A facet is the latest reading of its key: readings of other keys have no part in it. -/
theorem facet_rows {log : Log} (placed : log.Placed) {facets : FacetTable}
    (refreshed : refreshFleetNodeFacet timestamp log = .ok facets) {row : FacetRow} :
    row ∈ facets ↔ ∃ dated, LatestReading timestamp log dated ∧ dated.row.toFacetRow = row := by
  simp only [refreshFleetNodeFacet, bind_ok, pure_ok] at refreshed
  obtain ⟨list, done, _, _, rfl⟩ := refreshed
  rw [← Table.mem_rows]
  simp only [latestFacets, List.mem_map, mem_latest placed done]

theorem facet_succeeds_iff {log : Log} (placed : log.Placed) :
    (∃ facets, refreshFleetNodeFacet timestamp log = .ok facets) ↔
      (∀ reading ∈ readings log, (castTimes timestamp reading.toFacetRow).isSome = true) ∧
      ∀ dated, LatestReading timestamp log dated → dated.row.oneValue = true := by
  have checked : ∀ list, (readings log).mapM (date timestamp Reading.toFacetRow) = .ok list →
      ((latestFacets list).rows.all FacetRow.oneValue = true ↔
        ∀ dated, LatestReading timestamp log dated → dated.row.oneValue = true) := by
    intro list done
    simp only [latestFacets, List.all_eq_true, List.forall_mem_map, mem_latest placed done]
  constructor
  · rintro ⟨facets, refreshed⟩
    simp only [refreshFleetNodeFacet, bind_ok, pure_ok] at refreshed
    obtain ⟨list, done, passed, ensured, _⟩ := refreshed
    refine ⟨fun reading held => date_succeeds.mp (mapM_reads done held), ?_⟩
    exact (checked list done).mp (ensure_ok.mp ⟨passed, ensured⟩)
  · rintro ⟨dates, values⟩
    obtain ⟨list, done⟩ : ∃ list, (readings log).mapM (date timestamp Reading.toFacetRow) =
        .ok list :=
      mapM_succeeds fun reading held => date_succeeds.mpr (dates reading held)
    obtain ⟨passed, ensured⟩ : ∃ done, ensure ((latestFacets list).rows.all FacetRow.oneValue)
        .checkViolation = .ok done :=
      ensure_ok.mpr ((checked list done).mpr values)
    refine ⟨latestFacets list, ?_⟩
    simp only [refreshFleetNodeFacet, bind_ok, pure_ok]
    exact ⟨list, done, passed, ensured, rfl⟩

/-! ## The probes -/

/-- The row of a reading, with its instants. -/
def Dated.facet (dated : Dated τ Reading) : Dated τ FacetRow :=
  ⟨dated.row.toFacetRow, dated.occurred, dated.fetched⟩

/-- The last of the facets that tell whether the node of a label is reachable. -/
structure LatestProbe (timestamp : String → Option τ) (log : Log) (probe : Dated τ Reading) :
    Prop where
  latest : LatestReading timestamp log probe
  reachable : probe.row.predicate = "node_reachable"
  last : ∀ other, LatestReading timestamp log other → other.row.predicate = "node_reachable" →
    other.row.qualifier = probe.row.qualifier → probeOrder other.facet ≤ probeOrder probe.facet

/-- The last probe of a node did not reach it. -/
def Refused (timestamp : String → Option τ) (log : Log) (nodeRef : String) : Prop :=
  ∃ probe, LatestProbe timestamp log probe ∧ probe.row.qualifier = nodeRef ∧
    probe.row.valueBool ≠ some true

section Nodes

variable {log : Log} {facets : FacetTable} {list : List (Dated τ FacetRow)}

theorem mem_reachable (placed : log.Placed)
    (refreshed : refreshFleetNodeFacet timestamp log = .ok facets)
    (done : (facets.rows.filter (·.predicate = "node_reachable")).mapM (date timestamp id) =
      .ok list) {dated : Dated τ FacetRow} :
    dated ∈ list ↔ ∃ reading, LatestReading timestamp log reading ∧
      reading.row.predicate = "node_reachable" ∧ reading.facet = dated := by
  rw [mem_dated done, List.mem_filter, decide_eq_true_eq, Table.mem_rows,
    facet_rows placed refreshed]
  constructor
  · rintro ⟨⟨⟨reading, latest, same⟩, predicate⟩, cast⟩
    refine ⟨reading, latest, ?_, ?_⟩
    · rw [same]
      exact predicate
    · have times := (date_ok.mp latest.cast).2
      rw [same] at times
      have own := (date_ok.mp cast).2
      rw [id_eq, times] at own
      cases dated
      cases own
      cases same
      rfl
  · rintro ⟨reading, latest, predicate, rfl⟩
    exact ⟨⟨⟨reading, latest, rfl⟩, predicate⟩, date_ok.mpr ⟨rfl, (date_ok.mp latest.cast).2⟩⟩

theorem mem_probes (placed : log.Placed)
    (refreshed : refreshFleetNodeFacet timestamp log = .ok facets)
    (done : (facets.rows.filter (·.predicate = "node_reachable")).mapM (date timestamp id) =
      .ok list) {dated : Dated τ FacetRow} :
    dated ∈ distinctOn (·.row.qualifier) probeOrder list ↔
      ∃ probe, LatestProbe timestamp log probe ∧ probe.facet = dated := by
  have listed : ∀ {dated : Dated τ FacetRow}, dated ∈ list ↔
      ∃ reading, LatestReading timestamp log reading ∧
        reading.row.predicate = "node_reachable" ∧ reading.facet = dated :=
    mem_reachable placed refreshed done
  rw [mem_distinctOn_iff fun left leftHeld right rightHeld same order => ?_]
  · constructor
    · rintro ⟨member, last⟩
      obtain ⟨reading, latest, predicate, rfl⟩ := listed.mp member
      exact ⟨reading, ⟨latest, predicate, fun other otherLatest otherPredicate label =>
        last other.facet (listed.mpr ⟨other, otherLatest, otherPredicate, rfl⟩) label⟩, rfl⟩
    · rintro ⟨probe, holds, rfl⟩
      refine ⟨listed.mpr ⟨probe, holds.latest, holds.reachable, rfl⟩, fun other member label => ?_⟩
      obtain ⟨reading, latest, predicate, rfl⟩ := listed.mp member
      exact holds.last reading latest predicate label
  · obtain ⟨inLeft, leftCast⟩ := (mem_dated done).mp leftHeld
    obtain ⟨inRight, rightCast⟩ := (mem_dated done).mp rightHeld
    obtain ⟨leftRow, leftReachable⟩ := List.mem_filter.mp inLeft
    obtain ⟨rightRow, rightReachable⟩ := List.mem_filter.mp inRight
    have node : left.row.nodeRef = right.row.nodeRef :=
      congrArg (fun order => (ofLex (ofLex (ofLex order).2).2).1) order
    have predicate : left.row.predicate = right.row.predicate :=
      (of_decide_eq_true leftReachable).trans (of_decide_eq_true rightReachable).symm
    have rows : left.row = right.row := by
      refine Table.eq_of_key leftRow rightRow ?_
      unfold FacetRow.key
      rw [node, predicate, same]
    rw [rows, rightCast] at leftCast
    exact (Except.ok.inj leftCast).symm

theorem fleetNode_crit {items : List (Dated τ FacetRow)} {nodeRef : String} :
    (fleetNode log (distinctOn (·.row.qualifier) probeOrder items) nodeRef).reachability = .crit ↔
      ∃ probe ∈ distinctOn (·.row.qualifier) probeOrder items, probe.row.qualifier = nodeRef ∧
        probe.row.valueBool ≠ some true := by
  unfold fleetNode
  cases found : (distinctOn (·.row.qualifier) probeOrder items).find?
      (·.row.qualifier = nodeRef) with
  | none =>
      simp only [reduceCtorEq, false_iff]
      rintro ⟨probe, held, named, _⟩
      simpa [named] using List.find?_eq_none.mp found probe held
  | some first =>
      have held := List.mem_of_find?_eq_some found
      have named : first.row.qualifier = nodeRef := by simpa using List.find?_some found
      constructor
      · intro crit
        refine ⟨first, held, named, fun reached => ?_⟩
        simp [reached] at crit
      · rintro ⟨probe, other, label, missed⟩
        obtain rfl := distinctOn_unique held other (named.trans label.symm)
        simp [missed]

/-- Facets that have been refreshed give the nodes, whatever they say. -/
theorem nodes_refreshed (placed : log.Placed)
    (refreshed : refreshFleetNodeFacet timestamp log = .ok facets) :
    ∃ nodes, refreshFleetNode timestamp log facets = .ok nodes := by
  obtain ⟨list, done⟩ : ∃ list, (facets.rows.filter (·.predicate = "node_reachable")).mapM
      (date timestamp id) = .ok list := by
    refine mapM_succeeds fun row held => date_succeeds.mpr ?_
    obtain ⟨dated, latest, rfl⟩ :=
      (facet_rows placed refreshed).mp (Table.mem_rows.mp (List.mem_filter.mp held).1)
    rw [id_eq, (date_ok.mp latest.cast).2, Option.isSome_some]
  have valid : (log.origins.map (fleetNode log (distinctOn (·.row.qualifier) probeOrder list))).all
      FleetNode.valid = true := by
    simp only [List.all_eq_true, List.forall_mem_map, fleetNode_valid, implies_true]
  obtain ⟨passed, ensured⟩ : ∃ done, ensure _ .checkViolation = .ok done := ensure_ok.mpr valid
  exact ⟨_, bind_ok.mpr ⟨list, done, bind_ok.mpr ⟨passed, ensured, rfl⟩⟩⟩

theorem critical_nodes (placed : log.Placed)
    (refreshed : refreshFleetNodeFacet timestamp log = .ok facets) {nodes : List (FleetNode τ)}
    (made : refreshFleetNode timestamp log facets = .ok nodes) {nodeRef : String} :
    nodeRef ∈ (nodes.filter (·.reachability = .crit)).map (·.nodeRef) ↔
      nodeRef ∈ log.origins ∧ Refused timestamp log nodeRef := by
  simp only [refreshFleetNode, bind_ok, pure_ok] at made
  obtain ⟨list, done, _, _, rfl⟩ := made
  have refused : ∀ other, (fleetNode log (distinctOn (·.row.qualifier) probeOrder list)
      other).reachability = .crit ↔ Refused timestamp log other := by
    intro other
    simp only [fleetNode_crit, mem_probes placed refreshed done]
    constructor
    · rintro ⟨_, ⟨probe, holds, rfl⟩, label, missed⟩
      exact ⟨probe, holds, label, missed⟩
    · rintro ⟨probe, holds, label, missed⟩
      exact ⟨probe.facet, ⟨probe, holds, rfl⟩, label, missed⟩
  simp only [List.mem_map, List.mem_filter, decide_eq_true_eq]
  constructor
  · rintro ⟨_, ⟨⟨other, listed, rfl⟩, crit⟩, rfl⟩
    rw [fleetNode_nodeRef]
    exact ⟨listed, (refused other).mp crit⟩
  · rintro ⟨listed, missed⟩
    exact ⟨_, ⟨⟨nodeRef, listed, rfl⟩, (refused nodeRef).mpr missed⟩, fleetNode_nodeRef _ _ _⟩

theorem critical_nodup {nodes : List (FleetNode τ)}
    (made : refreshFleetNode timestamp log facets = .ok nodes) :
    ((nodes.filter (·.reachability = .crit)).map (·.nodeRef)).Nodup := by
  simp only [refreshFleetNode, bind_ok, pure_ok] at made
  obtain ⟨list, _, _, _, rfl⟩ := made
  have origins : log.origins.Nodup :=
    (List.perm_insertionSort _ _).nodup_iff.mpr (List.nodup_dedup _)
  refine List.Nodup.sublist (List.Sublist.map _ List.filter_sublist) ?_
  rw [List.map_map, List.map_congr_left (g := id) fun other _ => ?_, List.map_id]
  · exact origins
  · exact fleetNode_nodeRef _ _ _

end Nodes

/-! ## The cards -/

theorem residueOf_isSome {refs : List String} (some : refs ≠ []) :
    (residueOf refs).isSome = true := by
  unfold residueOf
  rw [if_neg some]
  split <;> rfl

theorem append_ne_empty {left right : String} (set : right ≠ "") : left ++ right ≠ "" := by
  intro empty
  have chars := congrArg String.toList empty
  rw [String.toList_append, String.toList_empty, List.append_eq_nil_iff] at chars
  exact set (String.toList_eq_nil_iff.mp chars.2)

theorem intercalate_eq_empty {refs : List String} (some : refs ≠ []) :
    ", ".intercalate refs = "" ↔ refs = [""] := by
  rw [← String.toList_eq_nil_iff, String.toList_intercalate]
  cases refs with
  | nil => exact absurd rfl some
  | cons first rest =>
      cases rest with
      | nil => simp
      | cons second rest => simp [List.intercalate]

/-- The residue says nothing only where the one thing that it lists has no name. -/
theorem residueOf_eq_empty {refs : List String} : residueOf refs = some "" ↔ refs = [""] := by
  unfold residueOf
  by_cases none : refs = []
  · simp [none]
  · rw [if_neg none]
    by_cases short : refs.length ≤ 10
    · rw [if_pos short, Option.some_inj, List.take_of_length_le short, intercalate_eq_empty none]
    · rw [if_neg short, Option.some_inj]
      constructor
      · intro empty
        refine absurd empty ?_
        rw [String.append_assoc, String.append_assoc]
        refine append_ne_empty fun said => ?_
        have chars := congrArg String.toList said
        simp at chars
      · rintro rfl
        exact absurd (by decide) short

/-- A card that counts what it lists. -/
theorem counted_valid {card : Situation} {refs : List String} {total : Nat}
    (state : card.state ≠ .incomplete) (gap : card.gap = none)
    (countTotal : card.countTotal = some total)
    (countNongreen : card.countNongreen = some refs.length)
    (bound : refs.length ≤ total) (residue : card.residue = residueOf refs) :
    card.valid = true ↔ refs ≠ [""] := by
  have listed : refs.length = 0 ∨ (residueOf refs).isSome = true := by
    by_cases none : refs = []
    · exact .inl (congrArg List.length none)
    · exact .inr (residueOf_isSome none)
  unfold Situation.valid
  rw [gap, countTotal, countNongreen, residue]
  simp only [ne_eq, state, not_false_eq_true, true_or, true_and, Option.mem_def, Option.some_inj,
    forall_eq', bound, listed, and_true, decide_eq_true_eq, residueOf_eq_empty]

theorem singleton_iff {refs : List String} (nodup : refs.Nodup) {only : String} :
    refs = [only] ↔ ∀ ref, ref ∈ refs ↔ ref = only := by
  rw [← List.perm_singleton, List.perm_ext_iff_of_nodup nodup (List.nodup_singleton only)]
  simp only [List.mem_singleton]

/-- What a card lists is one thing, and its name is the empty text. -/
def OnlyUnnamed (listed : String → Prop) : Prop := ∀ ref, listed ref ↔ ref = ""

def NongreenWork (projections : Projections) (ref : String) : Prop :=
  ∃ work ∈ projections.currentWork, nongreenWork work = true ∧ work.workRef = ref

def NongreenClaim (projections : Projections) (ref : String) : Prop :=
  ∃ claim ∈ projections.currentClaimStanding, nongreenClaim claim = true ∧
    claim.claimEventId = ref

theorem executionCard_valid {projections : Projections} :
    (executionCard projections).valid = true ↔ ¬OnlyUnnamed (NongreenWork projections) := by
  have nodup : ((projections.currentWork.rows.filter nongreenWork).map (·.workRef)).Nodup :=
    projections.currentWork.unique.sublist (List.Sublist.map _ List.filter_sublist)
  rw [counted_valid ?_ rfl rfl rfl ?_ rfl, ne_eq, singleton_iff nodup]
  · simp only [OnlyUnnamed, NongreenWork, List.mem_map, List.mem_filter, Table.mem_rows, and_assoc]
  · unfold executionCard
    dsimp only
    split <;> exact fun impossible => by cases impossible
  · rw [List.length_map]
    exact List.length_filter_le _ _

/-- The first characters of a text are none only where the text is empty. -/
theorem take_eq_empty {text : String} : String.ofList (text.toList.take 24) = "" ↔ text = "" := by
  rw [← String.toList_eq_nil_iff, String.toList_ofList, List.take_eq_nil_iff]
  simp

theorem epistemicCard_valid {projections : Projections} :
    (epistemicCard projections).valid = true ↔ ¬OnlyUnnamed (NongreenClaim projections) := by
  have nodup : ((projections.currentClaimStanding.rows.filter nongreenClaim).map
      (·.claimEventId)).Nodup :=
    projections.currentClaimStanding.unique.sublist (List.Sublist.map _ List.filter_sublist)
  have cut : ∀ claims : List CurrentClaimStanding,
      claims.map (fun claim => String.ofList (claim.claimEventId.toList.take 24)) = [""] ↔
        claims.map (·.claimEventId) = [""] := by
    intro claims
    simp only [List.map_eq_singleton_iff, take_eq_empty]
  rw [counted_valid ?_ rfl rfl rfl ?_ rfl, ne_eq, cut, singleton_iff nodup]
  · simp only [OnlyUnnamed, NongreenClaim, List.mem_map, List.mem_filter, Table.mem_rows, and_assoc]
  · unfold epistemicCard
    dsimp only
    split <;> exact fun impossible => by cases impossible
  · rw [List.length_map]
    exact List.length_filter_le _ _

theorem healthReachCard_valid {log : Log} {facets : FacetTable} {nodes : List (FleetNode τ)}
    (placed : log.Placed) (refreshed : refreshFleetNodeFacet timestamp log = .ok facets)
    (made : refreshFleetNode timestamp log facets = .ok nodes) :
    (healthReachCard nodes).valid = true ↔
      ¬OnlyUnnamed fun ref => ref ∈ log.origins ∧ Refused timestamp log ref := by
  rw [counted_valid ?_ rfl rfl rfl ?_ rfl, ne_eq, singleton_iff (critical_nodup made)]
  · simp only [OnlyUnnamed, critical_nodes placed refreshed made]
  · unfold healthReachCard
    dsimp only
    split
    · exact fun impossible => by cases impossible
    · split <;> exact fun impossible => by cases impossible
  · rw [List.length_map]
    exact List.length_filter_le _ _

/-! ## The refresh -/

/-- Everything that the refresh reads can be shown. -/
structure Presentable (timestamp : String → Option τ) (log : Log) (projections : Projections) :
    Prop where
  dated : ∀ reading ∈ readings log, (castTimes timestamp reading.toFacetRow).isSome = true
  valued : ∀ reading, LatestReading timestamp log reading → reading.row.oneValue = true
  works : ¬OnlyUnnamed (NongreenWork projections)
  claims : ¬OnlyUnnamed (NongreenClaim projections)
  nodes : ¬OnlyUnnamed fun ref => ref ∈ log.origins ∧ Refused timestamp log ref

theorem console_succeeds_iff {log : Log} (placed : log.Placed) {projections : Projections} :
    (∃ console, refreshConsoleProjections timestamp log projections = .ok console) ↔
      Presentable timestamp log projections := by
  simp only [refreshConsoleProjections, bind_ok, pure_ok]
  constructor
  · rintro ⟨_, facets, refreshed, nodes, made, cards, shown, _⟩
    obtain ⟨dated, valued⟩ := (facet_succeeds_iff placed).mp ⟨facets, refreshed⟩
    obtain ⟨execution, epistemic, reach⟩ := situation_succeeds_iff.mp ⟨cards, shown⟩
    exact ⟨dated, valued, executionCard_valid.mp execution, epistemicCard_valid.mp epistemic,
      (healthReachCard_valid placed refreshed made).mp reach⟩
  · intro presentable
    obtain ⟨facets, refreshed⟩ :=
      (facet_succeeds_iff placed).mpr ⟨presentable.dated, presentable.valued⟩
    obtain ⟨nodes, made⟩ := nodes_refreshed placed refreshed
    obtain ⟨cards, shown⟩ := situation_succeeds_iff.mpr
      ⟨executionCard_valid.mpr presentable.works, epistemicCard_valid.mpr presentable.claims,
        (healthReachCard_valid placed refreshed made).mpr presentable.nodes⟩
    exact ⟨_, facets, refreshed, nodes, made, cards, shown, rfl⟩

/-! ## Runs -/

variable {platform : Platform} {readPayload : String → Option Payload}

theorem placed_written {log next : Log} {eventId : String} {payload : Payload}
    (placed : log.Placed) (written : insertPayload platform log eventId payload = .ok next) :
    next.Placed := by
  unfold Log.Placed
  rw [insertPayload_events written]
  exact placed

theorem admitStep_placed {receiver : Receiver} {state next : AdmitState} {event : Event}
    (placed : state.store.log.Placed) (step : AdmitStep platform receiver state event next) :
    next.store.log.Placed := by
  cases step with
  | kept log _ _ _ =>
      rw [log]
      exact placed
  | upgraded row upgrade _ _ =>
      obtain ⟨payload, middle, _, upgraded, written, _⟩ := upgrade.written
      exact placed_written (Log.Placed.upgrade placed upgraded) written
  | inserted stored passed form write _ _ =>
      obtain ⟨log, row, inserted, wrote⟩ := write.written
      have entered := Log.Placed.insert placed inserted
      rcases wrote with ⟨_, sameLog, _⟩ | ⟨payload, _, written, _⟩
      · rw [sameLog]
        exact entered
      · exact placed_written entered written

/-- A call of any kind keeps the positions apart. -/
theorem called_placed {store next : Store} {call : Call} (placed : store.log.Placed)
    (called : Called platform readPayload store call next) : next.log.Placed := by
  cases called_cases called with
  | emitted emitter now recordedAt request event row middle requested emitted _ =>
      exact placed_written (Log.Placed.insert placed emitted.inserted) emitted.payload
  | delivered receiver clock batch final offered admitted log _ =>
      rw [log]
      exact admitBatch_invariant (fun state => state.store.log.Placed)
        (fun _ _ _ _ kept step => admitStep_placed kept step) placed admitted

theorem run_placed {calls : List Call} {store : Store}
    (run : Run (Called platform readPayload) {} calls store) : store.log.Placed :=
  run.invariant (fun store => store.log.Placed) (fun _ _ _ kept step => called_placed kept step)
    fun left held => by cases held

/-- No refresh raises, and each facet shows the latest reading of its own key. -/
structure ConsoleTotal (timestamp : String → Option τ) (log : Log) (projections : Projections) :
    Prop where
  facets : ∃ facets, refreshFleetNodeFacet timestamp log = .ok facets ∧
    (∀ row, row ∈ facets ↔
      ∃ dated, LatestReading timestamp log dated ∧ dated.row.toFacetRow = row) ∧
    ∃ nodes, refreshFleetNode timestamp log facets = .ok nodes
  console : ∃ console, refreshConsoleProjections timestamp log projections = .ok console

/-- The refresh and the rebuild go through exactly where every reading has two timestamps, the
latest readings have one value and no card lists the empty name alone. -/
theorem console_total_iff {calls : List Call} {store : Store}
    (run : Run (Called platform readPayload) {} calls store) (timestamp : String → Option τ) :
    (ConsoleTotal timestamp store.log store.projections ↔
      Presentable timestamp store.log store.projections) ∧
    ∀ scan projections, rebuild platform scan store.log = .ok projections →
      ((∃ both, rebuildAll timestamp platform scan store.log = .ok both) ↔
        Presentable timestamp store.log projections) := by
  have placed := run_placed run
  refine ⟨⟨fun total => (console_succeeds_iff placed).mp total.console, fun presentable => ?_⟩,
    fun scan projections rebuilt => ?_⟩
  · obtain ⟨facets, refreshed⟩ :=
      (facet_succeeds_iff placed).mpr ⟨presentable.dated, presentable.valued⟩
    exact ⟨⟨facets, refreshed, fun row => facet_rows placed refreshed,
      nodes_refreshed placed refreshed⟩, (console_succeeds_iff placed).mpr presentable⟩
  · rw [← console_succeeds_iff placed]
    simp only [rebuildAll, bind_ok, mapError_ok, pure_ok, rebuilt, Except.ok.injEq,
      exists_eq_left']
    constructor
    · rintro ⟨_, console, done, _⟩
      exact ⟨console, done⟩
    · rintro ⟨console, done⟩
      exact ⟨_, console, done, rfl⟩

/-! ## A probe with a time -/

namespace Probed

open Overshadowed

def noon : String := "2026-01-01T12:00:00+00:00"

/-- A timestamp that reads one text. -/
def clock (text : String) : Option Nat := if text = noon then some 0 else none

def probe (occurredAt : String) : ObservationRecorded where
  predicate := "node_reachable"
  value := .bool true
  observationMethodClass := .commandExit
  occurredAt := some occurredAt
  source := some {
    sourceRef := "probe"
    sourceRevision := some "qualifier=node"
    contentDigest := "digest"
    fetchedAt := noon }

/-- The probe, as it is stored. -/
def stored (eventId occurredAt : String) : EventObservationRow where
  eventId := eventId
  predicate := "node_reachable"
  valueText := none
  valueNumber := none
  valueBool := some true
  valueTime := none
  observationMethodClass := .commandExit
  occurredAt := some occurredAt
  sourceRef := some "probe"
  sourceRevision := some "qualifier=node"
  contentDigest := some "digest"
  fetchedAt := some noon

/-- The reading of a probe that is delivered first. -/
theorem probed {occurredAt : String}
    (writable : (Payload.observationRecorded (probe occurredAt)).Writable plainPlatform) :
    ∃ (event : Event) (store : Store),
      event.payload = some (.observationRecorded (probe occurredAt)) ∧
      Called plainPlatform (fun _ => none) {} (delivery "node" event) store ∧
      (∃ reading, readings store.log = [reading] ∧ reading.occurredAt = occurredAt ∧
        reading.fetchedAt = noon ∧ reading.oneValue = true ∧ reading.valueBool = some true) ∧
      store.projections.currentWork.rows = [] ∧
      store.projections.currentClaimStanding.rows = [] := by
  obtain ⟨event, sent⟩ := plain_sent (by decide : "node" ≠ "") (by decide) writable none
    fun scope set => by cases set
  obtain ⟨store, middle, called, _, inserted, written, reduced⟩ :=
    holds_empty.arrival (by decide) sent rfl rfl writable
  have found : store.log.events.find? event.eventId = some (storedRow event 0 true) := by
    rw [insertPayload_events written]
    exact Table.find?_of_mem (inserted.mem_iff.mpr (.inr rfl))
  obtain ⟨_, same⟩ := inserted.appended
  subst same
  simp only [insertPayload, insertObservationRecorded, bind_ok, pure_ok] at written
  obtain ⟨observations, added, made⟩ := written
  have observed : store.log.eventObservation.rows = [stored event.eventId occurredAt] := by
    rw [← made]
    exact insertRow_rows added
  have unclaimed : store.log.eventClaim.rows = [] := by
    rw [← made]
    rfl
  refine ⟨event, store, sent.carried, called, ?_, ?_⟩
  · obtain ⟨reading, read, shown⟩ : ∃ reading,
        readingOf (stored event.eventId occurredAt) (storedRow event 0 true) = some reading ∧
          reading.occurredAt = occurredAt ∧ reading.fetchedAt = noon ∧ reading.oneValue = true ∧
          reading.valueBool = some true := ⟨_, rfl, rfl, rfl, rfl, rfl⟩
    refine ⟨reading, ?_, shown⟩
    unfold readings
    rw [observed, List.filterMap_cons_some (b := reading) ?_, List.filterMap_nil]
    change (store.log.events.find? event.eventId).bind _ = _
    rw [found]
    exact read
  · simp only [reduce, bind_ok] at reduced
    obtain ⟨⟨linked, any⟩, resolved, ⟨middle, touched⟩, own, finished⟩ := reduced
    rw [sent.carried] at own
    cases own
    rw [Bool.or_true, if_pos rfl, pure_ok] at finished
    simp only [resolveHeld, bind_ok] at resolved
    obtain ⟨parts, _, resolved⟩ := resolved
    rw [found] at resolved
    cases resolved
    rw [← finished]
    unfold recomputeStanding
    rw [unclaimed]
    exact ⟨rfl, rfl⟩

theorem probe_writable {occurredAt : String} (storable : storableText occurredAt = true) :
    (Payload.observationRecorded (probe occurredAt)).Writable plainPlatform := by
  intro log eventId unused
  refine (insertPayload_succeeds_iff unused).mpr ⟨?_, rfl, trivial⟩
  change storableTexts ["node_reachable", occurredAt, "probe", "qualifier=node", "digest", noon] =
    true
  have others : storableTexts ["node_reachable", "probe", "qualifier=node", "digest", noon] =
      true := by decide
  simp only [storableTexts, List.all_cons, Bool.and_eq_true] at others ⊢
  exact ⟨others.1, storable, others.2⟩

/-- One observation whose time is no timestamp stops every refresh. -/
theorem malformed_raises : ∃ (event : Event) (store : Store),
    event.payload = some (.observationRecorded (probe "not a time")) ∧
    Called plainPlatform (fun _ => none) {} (delivery "node" event) store ∧
    ¬ConsoleTotal clock store.log store.projections := by
  obtain ⟨event, store, carried, called, ⟨reading, listed, occurred, _⟩, _⟩ :=
    probed (probe_writable (by decide : storableText "not a time" = true))
  refine ⟨event, store, carried, called, fun total => ?_⟩
  have placed := run_placed (.cons called (.nil _))
  have dated := ((console_succeeds_iff placed).mp total.console).dated reading
    (by rw [listed]; exact List.mem_singleton_self _)
  have unread : clock "not a time" = none := by decide
  unfold castTimes at dated
  rw [occurred, unread] at dated
  cases dated

/-- With a timestamp the same observation is shown. -/
theorem dated_shown : ∃ (event : Event) (store : Store),
    event.payload = some (.observationRecorded (probe noon)) ∧
    Called plainPlatform (fun _ => none) {} (delivery "node" event) store ∧
    ConsoleTotal clock store.log store.projections := by
  obtain ⟨event, store, carried, called, ⟨reading, listed, occurred, fetched, valued, reached⟩,
    works, claims⟩ := probed (probe_writable (by decide : storableText noon = true))
  refine ⟨event, store, carried, called,
    (console_total_iff (.cons called (.nil _)) clock).1.mpr ⟨?_, ?_, ?_, ?_, ?_⟩⟩
  · intro other held
    rw [listed, List.mem_singleton] at held
    rw [held, castTimes, occurred, fetched]
    rfl
  · intro dated latest
    have held := latest.listed
    rw [listed, List.mem_singleton] at held
    rw [held]
    exact valued
  · intro only
    obtain ⟨work, held, _⟩ := (only "").mpr rfl
    rw [← Table.mem_rows, works] at held
    cases held
  · intro only
    obtain ⟨claim, held, _⟩ := (only "").mpr rfl
    rw [← Table.mem_rows, claims] at held
    cases held
  · intro only
    obtain ⟨_, probe, latest, _, missed⟩ := (only "").mpr rfl
    have held := latest.latest.listed
    rw [listed, List.mem_singleton] at held
    rw [held] at missed
    exact missed reached

end Probed

end Console

end Kawa
