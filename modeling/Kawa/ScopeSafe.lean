import Kawa.Bundle
import Kawa.LinkVisibility
import Kawa.ScopeCommitment

/-!
What the records of a bundle say: their summaries are texts of events that the viewer may
read, or say the state of a plan, a work or a claim, or quote a document.  A scope that was
stripped, or a column that an upgrade has left behind, lets a hidden text out.
-/

namespace Kawa

open Result Ranking

variable {platform : Platform} {readPayload : String → Option Payload}

/-- The event is held with its payload and commits to a scope that is not among those read. -/
def Log.Hidden (platform : Platform) (log : Log) (scopes : Finset String) (eventId : String) :
    Prop :=
  ∃ row ∈ log.events, row.eventId = eventId ∧ row.materialized = true ∧
    ∃ committed, row.scopeDigest = some committed ∧
      ∀ scope ∈ scopes, scopeDigestOf platform scope ≠ committed

/-- Where a record has its summary from, the events among those that may be read. -/
inductive Sourced (numberText : Json.Double → String) (log : Log) (seen : String → Prop) :
    BundleRecord → Prop
  | summary (record : Record) (eventId kind : String)
      (read : summaryOf numberText log eventId = .ok (kind, record.summary))
      (allowed : seen eventId) : Sourced numberText log seen (.record record)
  | proposition (record : Record) (row : EventClaimRow) (held : row ∈ log.eventClaim)
      (text : record.summary = row.proposition) (allowed : seen row.eventId) :
      Sourced numberText log seen (.record record)
  | objective (record : Record) (row : EventPlanRow) (held : row ∈ log.eventPlan) (tag text : String)
      (set : row.objective = some text) (shown : record.summary = tag ++ text)
      (tagged : tag = "" ∨ ∃ lifecycle : Lifecycle, tag = lifecycle.tag)
      (allowed : seen row.eventId) : Sourced numberText log seen (.record record)
  | work (record : Record) (row : EventWorkRow) (held : row ∈ log.eventWork) (execution : Execution)
      (text : record.summary =
        "[" ++ execution.value ++ "] " ++ row.workKind ++ " of " ++ row.planRef)
      (allowed : seen row.eventId) : Sourced numberText log seen (.record record)
  | result (record : Record) (row : EventResultRow) (held : row ∈ log.eventResult)
      (text : record.summary = row.workRef ++ ": " ++ row.outcome.value)
      (allowed : seen row.eventId) : Sourced numberText log seen (.record record)
  | planState (record : Record) (lifecycle : Lifecycle)
      (text : record.summary = lifecycle.tag ++ "") : Sourced numberText log seen (.record record)
  | workState (record : Record) (execution : Execution)
      (text : record.summary = "[" ++ execution.value ++ "] " ++ "" ++ " of " ++ "") :
      Sourced numberText log seen (.record record)
  | standing (record : Record) (standing : ClaimStanding) (text : record.summary = standing.value) :
      Sourced numberText log seen (.record record)
  | document (record : DocSectionRecord) : Sourced numberText log seen (.section record)

section Executors

variable {engine : TextEngine} {store : Store} {viewer : Finset String} {index : VectorIndex}
  {embedder : Option Embedder} {repository : Repository} {bound : BoundIntent}
  {queryClass : QueryClass} {seen : String → Prop}

/-- What is in a scope of the viewer, or in none, may be read. -/
def Reads (store : Store) (viewer : Finset String) (seen : String → Prop) : Prop :=
  ∀ row ∈ store.log.events, endpointScope row ∈ heldScopes viewer → seen row.eventId

theorem Reads.visible (reads : Reads store viewer seen) {eventId : String}
    (shown : visibleEvent store viewer eventId = true) : seen eventId := by
  obtain ⟨row, found, visible⟩ := (Option.any_eq_true _ _).mp shown
  obtain ⟨held, named⟩ := Table.find?_eq_some.mp found
  refine named ▸ reads row held ?_
  unfold EventRow.visible at visible
  unfold endpointScope heldScopes
  cases scope : row.scopeRef with
  | none => exact Finset.mem_insert_self _ _
  | some scopeRef =>
      rw [scope] at visible
      exact Finset.mem_insert_of_mem (of_decide_eq_true visible)

theorem visibleEvent_of {event : EventRow} {eventId : String}
    (found : store.log.events.find? eventId = some event) (visible : event.visible viewer = true) :
    visibleEvent store viewer eventId = true := by
  unfold visibleEvent
  rw [found]
  exact visible

theorem mem_latestFirst {ρ : Type} {eventId : ρ → String} {rows : List ρ} {row : ρ}
    (member : row ∈ latestFirst engine store viewer eventId rows) :
    row ∈ rows ∧ visibleEvent store viewer (eventId row) = true := by
  unfold latestFirst at member
  obtain ⟨⟨found, event⟩, sorted, rfl⟩ := List.mem_map.mp member
  obtain ⟨source, held, joined⟩ := List.mem_filterMap.mp ((List.mergeSort_perm _ _).mem_iff.mp sorted)
  obtain ⟨own, ownFound, kept⟩ := Option.bind_eq_some_iff.mp joined
  split at kept
  · rename_i visible
    cases kept
    exact ⟨held, visibleEvent_of ownFound visible⟩
  · cases kept

theorem latestObjective_seen {planRef : String} {row : EventPlanRow}
    (found : latestObjective engine store viewer planRef = some row) :
    row ∈ store.log.eventPlan ∧ (∃ text, row.objective = some text) ∧
      visibleEvent store viewer row.eventId = true := by
  obtain ⟨listed, visible⟩ := mem_latestFirst (List.mem_of_mem_head? found)
  obtain ⟨held, asked⟩ := List.mem_filter.mp listed
  simp only [decide_eq_true_eq] at asked
  exact ⟨Table.mem_rows.mp held, Option.isSome_iff_exists.mp asked.2, visible⟩

theorem latestWork_seen {workRef : String} {row : EventWorkRow}
    (found : latestWork engine store viewer workRef = some row) :
    row ∈ store.log.eventWork ∧ visibleEvent store viewer row.eventId = true := by
  obtain ⟨listed, visible⟩ := mem_latestFirst (List.mem_of_mem_head? found)
  exact ⟨Table.mem_rows.mp (List.mem_filter.mp listed).1, visible⟩

theorem hydrate_sourced {ref path : String} {record : Record}
    (made : hydrate engine store queryClass ref path = .ok record) (allowed : seen ref) :
    Sourced engine.numberText store.log seen (.record record) := by
  unfold hydrate at made
  obtain ⟨⟨kind, summary⟩, read, made⟩ := bind_ok.mp made
  cases made
  exact .summary _ ref kind read allowed

/-- An anchor that names an event names one in scope. -/
theorem resolveBindings_seen {intent : Intent} {ref : String}
    (anchored : (resolveBindings store viewer intent).anchor = some (.claimEvent, ref) ∨
      (resolveBindings store viewer intent).anchor = some (.event, ref)) :
    visibleEvent store viewer ref = true := by
  unfold resolveBindings at anchored
  dsimp only at anchored
  cases about : intent.about with
  | none => simp [about] at anchored
  | some given =>
      simp only [about] at anchored
      split_ifs at anchored with _ claim event <;> simp at anchored
      · simp only [Bool.and_eq_true] at claim
        exact anchored ▸ claim.2
      · exact anchored ▸ event

theorem execAnchor_sourced {intent : Intent} {executed : Executed}
    (reads : Reads store viewer seen)
    (ran : execAnchor engine store viewer (resolveBindings store viewer intent) queryClass =
      .ok executed) :
    ∀ record ∈ executed.records, Sourced engine.numberText store.log seen record := by
  unfold execAnchor at ran
  intro record member
  split at ran
  · cases ran
    cases member
  · rename_i ref anchored
    obtain ⟨made, hydrated, rest⟩ := bind_ok.mp ran
    cases rest
    rw [List.mem_singleton.mp member]
    exact hydrate_sourced hydrated (reads.visible (resolveBindings_seen (.inl anchored)))
  · rename_i ref anchored
    obtain ⟨made, hydrated, rest⟩ := bind_ok.mp ran
    cases rest
    rw [List.mem_singleton.mp member]
    exact hydrate_sourced hydrated (reads.visible (resolveBindings_seen (.inr anchored)))
  · rename_i ref anchored
    obtain ⟨row, fetched, rest⟩ := bind_ok.mp ran
    cases rest
    rw [List.mem_singleton.mp member]
    cases found : latestObjective engine store viewer ref with
    | none => exact .planState _ row.lifecycle rfl
    | some plan =>
        obtain ⟨held, ⟨text, set⟩, visible⟩ := latestObjective_seen found
        refine .objective _ plan held row.lifecycle.tag text set ?_ (.inr ⟨_, rfl⟩)
          (reads.visible visible)
        simp [plainRecord, set]
  · rename_i ref anchored
    obtain ⟨row, fetched, rest⟩ := bind_ok.mp ran
    cases rest
    rw [List.mem_singleton.mp member]
    cases found : latestWork engine store viewer ref with
    | none => exact .workState _ row.execution rfl
    | some work =>
        obtain ⟨held, visible⟩ := latestWork_seen found
        exact .work _ work held row.execution rfl (reads.visible visible)

theorem execStanding_sourced :
    ∀ record ∈ (execStanding store bound queryClass).records,
      Sourced engine.numberText store.log seen record := by
  intro record member
  unfold execStanding at member
  dsimp only at member
  split at member
  · cases member
  · rename_i standing _
    rw [List.mem_singleton.mp member]
    exact .standing _ standing rfl

theorem mem_alternate {α : Type} {left right : List α} {item : α}
    (member : item ∈ alternate left right) : item ∈ left ∨ item ∈ right := by
  induction left, right using alternate.induct with
  | case1 right => exact .inr (by simpa [alternate] using member)
  | case2 left empty => exact .inl (by simpa [alternate, empty] using member)
  | case3 first left second right ih =>
      simp only [alternate, List.mem_cons] at member ⊢
      rcases member with rfl | rfl | rest
      · exact .inl (.inl rfl)
      · exact .inr (.inl rfl)
      · exact (ih rest).imp .inr .inr

theorem execEvidence_sourced {executed : Executed} (reads : Reads store viewer seen)
    (ran : execEvidence engine store viewer bound queryClass = .ok executed) :
    ∀ record ∈ executed.records, Sourced engine.numberText store.log seen record := by
  unfold execEvidence at ran
  obtain ⟨records, mapped, made⟩ := bind_ok.mp ran
  cases made
  intro record member
  obtain ⟨plain, listed, rfl⟩ := List.mem_map.mp member
  obtain ⟨⟨relation, ref⟩, taken, hydrated⟩ := mem_mapM mapped listed
  have window : ∀ asked, ref ∈ ((((evidenceLinks store asked bound.anchorRef).filter
      (disclosed store viewer)).map (·.sourceRef)).mergeSort engine.collate).take
        queryClass.budget → visibleEvent store viewer ref = true := by
    intro asked inWindow
    obtain ⟨link, kept, rfl⟩ :=
      List.mem_map.mp ((List.mergeSort_perm _ _).mem_iff.mp (List.mem_of_mem_take inWindow))
    have shown := (List.mem_filter.mp kept).2
    unfold disclosed at shown
    simp only [Bool.and_eq_true] at shown
    exact shown.1
  refine hydrate_sourced hydrated (reads.visible ?_)
  rcases mem_alternate (List.mem_of_mem_take taken) with left | right
  · obtain ⟨other, inWindow, same⟩ := List.mem_map.mp left
    cases same
    exact window _ inWindow
  · obtain ⟨other, inWindow, same⟩ := List.mem_map.mp right
    cases same
    exact window _ inWindow

theorem execLexical_sourced (reads : Reads store viewer seen) :
    ∀ record ∈ (execLexical engine store viewer bound queryClass).records,
      Sourced engine.numberText store.log seen record := by
  intro record member
  unfold execLexical at member
  dsimp only at member
  rcases List.mem_append.mp member with claim | plan
  · obtain ⟨row, taken, rfl⟩ := List.mem_map.mp claim
    obtain ⟨held, asked⟩ :=
      List.mem_filter.mp ((List.mergeSort_perm _ _).mem_iff.mp (List.mem_of_mem_take taken))
    simp only [Bool.and_eq_true] at asked
    exact .proposition _ row (Table.mem_rows.mp held) rfl (reads.visible asked.2)
  · obtain ⟨⟨planRef, objective⟩, taken, rfl⟩ := List.mem_map.mp plan
    obtain ⟨held, _⟩ :=
      List.mem_filter.mp ((List.mergeSort_perm _ _).mem_iff.mp (List.mem_of_mem_take taken))
    obtain ⟨other, _, latest⟩ := List.mem_filterMap.mp held
    obtain ⟨row, found, set⟩ := Option.bind_eq_some_iff.mp latest
    obtain ⟨text, objectiveSet, same⟩ := Option.map_eq_some_iff.mp set
    cases same
    obtain ⟨inLog, _, visible⟩ := latestObjective_seen found
    exact .objective _ row inLog "" objective objectiveSet (by simp [plainRecord]) (.inl rfl)
      (reads.visible visible)

/-! ### Vectors -/

theorem scanRow_sourced {model origin : String} {scan next : VectorScan} {row : EventRow × String}
    (allowed : seen row.1.eventId)
    (holds : ∀ record ∈ scan.records, Sourced engine.numberText store.log seen (.record record))
    (scanned : scanRow engine store queryClass model origin scan row = .ok next) :
    ∀ record ∈ next.records, Sourced engine.numberText store.log seen (.record record) := by
  unfold scanRow at scanned
  dsimp only at scanned
  split at scanned
  · cases scanned
    exact holds
  split at scanned
  · cases scanned
    exact holds
  split at scanned
  · cases scanned
    exact holds
  · obtain ⟨⟨kind, summary⟩, read, made⟩ := bind_ok.mp scanned
    cases made
    intro record member
    rcases List.mem_append.mp member with old | new
    · exact holds record old
    · rw [List.mem_singleton.mp new]
      exact .summary _ row.1.eventId kind read allowed

theorem scanChunks_sourced {model origin : String} {chunk : Nat} (fuel : Nat)
    {rows : List (EventRow × String)} {scan ended : VectorScan}
    (allowed : ∀ row ∈ rows, seen row.1.eventId)
    (holds : ∀ record ∈ scan.records, Sourced engine.numberText store.log seen (.record record))
    (scanned : scanChunks engine store queryClass model origin chunk fuel rows scan = .ok ended) :
    ∀ record ∈ ended.records, Sourced engine.numberText store.log seen (.record record) := by
  induction fuel generalizing rows scan with
  | zero =>
      cases scanned
      exact holds
  | succ fuel ih =>
      unfold scanChunks at scanned
      split at scanned
      · split at scanned
        · cases scanned
          exact holds
        · rename_i first rest taken
          obtain ⟨next, chunked, later⟩ := bind_ok.mp scanned
          refine ih (fun row member => allowed row (List.mem_of_mem_drop member)) ?_ later
          have stepped : ∀ (now : VectorScan) (row : EventRow × String) (after : VectorScan),
              row ∈ first :: rest →
              (∀ record ∈ now.records,
                Sourced engine.numberText store.log seen (.record record)) →
              scanRow engine store queryClass model origin now row = .ok after →
              ∀ record ∈ after.records,
                Sourced engine.numberText store.log seen (.record record) :=
            fun _ row _ member kept step => scanRow_sourced
              (allowed row (List.mem_of_mem_take (taken ▸ member))) kept step
          exact foldlM_invariant stepped holds chunked
      · cases scanned
        exact holds

theorem execVector_sourced {executed : Executed} (reads : Reads store viewer seen)
    (ran : execVector engine store viewer index embedder bound queryClass = .ok executed) :
    ∀ record ∈ executed.records, Sourced engine.numberText store.log seen record := by
  unfold execVector at ran
  dsimp only at ran
  intro record member
  split at ran
  · cases ran
    cases member
  · split at ran
    · cases ran
      cases member
    · obtain ⟨scan, scanned, rfl⟩ := map_ok.mp ran
      obtain ⟨plain, listed, rfl⟩ := List.mem_map.mp member
      refine scanChunks_sourced _ (fun row ranked => ?_) (fun _ absent => (by cases absent)) scanned plain
        listed
      obtain ⟨⟨eventId, similarity⟩, _, joined⟩ := List.mem_filterMap.mp ranked
      obtain ⟨event, found, kept⟩ := Option.bind_eq_some_iff.mp joined
      split at kept
      · rename_i shown
        cases kept
        simp only [Bool.and_eq_true] at shown
        obtain ⟨_, named⟩ := Table.find?_eq_some.mp found
        exact named ▸ reads.visible (visibleEvent_of found shown.2)
      · cases kept

/-! ### Documents and precedents -/

theorem execRepositoryNormative_sourced :
    ∀ record ∈ (execRepositoryNormative engine store viewer repository bound queryClass).records,
      Sourced engine.numberText store.log seen record := by
  unfold execRepositoryNormative
  split
  · exact fun record member => (by cases member)
  · rename_i index _
    dsimp only
    have mapped : ∀ (scan : SectionScan) (anchorRef : String),
        (∀ record ∈ scan.records, Sourced engine.numberText store.log seen record) →
        ∀ record ∈ (scanMapped queryClass index scan anchorRef).records,
          Sourced engine.numberText store.log seen record := by
      intro scan anchorRef holds
      unfold scanMapped
      split
      · exact holds
      · split
        · exact holds
        · split
          · exact holds
          · intro record member
            rcases List.mem_append.mp member with old | new
            · exact holds record old
            · rw [List.mem_singleton.mp new]
              exact .document _
    have headed : ∀ (terms : List String) (scan : SectionScan) (row : DocSection),
        (∀ record ∈ scan.records, Sourced engine.numberText store.log seen record) →
        ∀ record ∈ (scanHeading engine queryClass index terms scan row).records,
          Sourced engine.numberText store.log seen record := by
      intro terms scan row holds
      unfold scanHeading
      split
      · exact holds
      · split
        · exact holds
        · split
          · intro record member
            rcases List.mem_append.mp member with old | new
            · exact holds record old
            · rw [List.mem_singleton.mp new]
              exact .document _
          · exact holds
    have primary : ∀ anchors : List String, ∀ record ∈ (anchors.foldl (scanMapped queryClass index)
        { records := [], seen := [], notes := [] }).records,
          Sourced engine.numberText store.log seen record :=
      fun anchors => List.foldlRecOn anchors _ (fun _ absent => (by cases absent))
        fun scan holds anchorRef _ => mapped scan anchorRef holds
    split
    · exact primary _
    · exact List.foldlRecOn index.sections _ (primary _)
        fun scan holds row _ => headed _ scan row holds

theorem execPrecedent_sourced (reads : Reads store viewer seen) :
    ∀ record ∈ (execPrecedent engine store viewer bound queryClass).records,
      Sourced engine.numberText store.log seen record := by
  unfold execPrecedent
  refine List.foldlRecOn (motive := fun records : List BundleRecord => ∀ record ∈ records,
      Sourced engine.numberText store.log seen record) (precedentWorks engine store bound.anchor) _
    (fun _ absent => (by cases absent)) fun records holds workRef _ => ?_
  unfold scanPrecedents
  split
  · exact holds
  · intro record member
    rcases List.mem_append.mp member with old | new
    · exact holds record old
    · obtain ⟨row, taken, rfl⟩ := List.mem_map.mp new
      obtain ⟨listed, visible⟩ := mem_latestFirst (List.mem_of_mem_take taken)
      obtain ⟨held, named⟩ := List.mem_filter.mp listed
      exact .result _ row (Table.mem_rows.mp held)
        (by rw [of_decide_eq_true named]; rfl) (reads.visible visible)

/-! ### The walk -/

theorem mem_interleave {left right : List Edge} {edge : Edge}
    (member : edge ∈ interleave left right) : edge ∈ left ∨ edge ∈ right := by
  induction left, right using interleave.induct with
  | case1 right => exact .inr (by simpa [interleave] using member)
  | case2 left empty => exact .inl (by simpa [interleave, empty] using member)
  | case3 first left second right ih =>
      simp only [interleave, List.mem_cons] at member ⊢
      rcases member with rfl | rfl | rest
      · exact .inl (.inl rfl)
      · exact .inr (.inl rfl)
      · exact (ih rest).imp .inr .inr

theorem mem_expansionOrder {rows : List Candidate} {edge : Edge}
    (member : edge ∈ expansionOrder rows) : ∃ row ∈ rows, row.edge = edge := by
  have sorted : edge ∈ sortBy (fun edge : Edge => toLex (edge.relation.group, edge.relation.value))
      (sortBy (fun edge : Edge => OrderDual.toDual edge.key)
        (sortBy Edge.tuple (rows.map Candidate.edge).dedup)) := by
    unfold expansionOrder at member
    rcases List.mem_append.mp member with front | last
    · rcases List.mem_append.mp front with first | shared
      · exact (List.mem_filter.mp first).1
      · rcases mem_interleave shared with supports | contradicts
        · exact (List.mem_filter.mp supports).1
        · exact (List.mem_filter.mp contradicts).1
    · exact (List.mem_filter.mp last).1
  simp only [mem_sortBy, List.mem_dedup] at sorted
  exact List.mem_map.mp sorted

/-- A candidate is the far end of a link that one of the leaves matches. -/
theorem mem_leaves {links : List LinkRow} {node : String}
    {plan : List (Direction × String × String)} {perNode : Nat} {relation : Option Relation}
    {row : Candidate} (member : row ∈ leaves links node plan perNode relation) :
    ∃ link ∈ links, ∃ leaf ∈ plan,
      matchesLeaf node leaf.1 leaf.2 relation link = true ∧ row.other = link.other leaf.1 := by
  obtain ⟨entry, listed, inLeaf⟩ := List.mem_flatMap.mp member
  obtain ⟨link, taken, rfl⟩ := List.mem_map.mp inLeaf
  have matched := List.mem_filter.mp (mem_sortBy.mp (List.mem_of_mem_take taken))
  exact ⟨link, matched.1, entry.1, List.fst_mem_of_mem_zipIdx listed, matched.2, rfl⟩

theorem mem_candidateEdges {order : RowOrder} {links : List LinkRow} {node : String}
    {pairs : List (String × String)} {perNode : Nat} {row : Candidate}
    (member : row ∈ (candidateEdges order links node pairs perNode).1) :
    ∃ link ∈ links, ∃ direction, ∃ pair ∈ pairs, ∃ relation,
      matchesLeaf node direction pair relation link = true ∧ row.other = link.other direction := by
  have planned : ∀ leaf ∈ leafPlan pairs, leaf.2 ∈ pairs := by
    intro leaf listed
    obtain ⟨direction, _, inDirection⟩ := List.mem_flatMap.mp listed
    obtain ⟨pair, held, rfl⟩ := List.mem_map.mp inDirection
    exact held
  unfold candidateEdges at member
  rcases List.mem_append.mp member with first | extra
  · obtain ⟨link, inLinks, leaf, listed, matched⟩ :=
      mem_leaves ((order.perm _ _ _).mem_iff.mp first)
    exact ⟨link, inLinks, leaf.1, leaf.2, planned leaf listed, _, matched⟩
  · obtain ⟨relation, _, inRelation⟩ := List.mem_flatMap.mp extra
    obtain ⟨link, inLinks, leaf, listed, matched⟩ :=
      mem_leaves ((order.perm _ _ _).mem_iff.mp inRelation)
    obtain ⟨position, _, at_⟩ := List.mem_filterMap.mp listed
    exact ⟨link, inLinks, leaf.1, leaf.2, planned leaf (List.mem_of_getElem? at_), _, matched⟩

/-- The far end of a resolved link is held, in the scope that the link's column names. -/
theorem LinksFaithful.far {log : Log} {projections : Projections}
    (faithful : LinksFaithful log projections none) {link : LinkRow}
    (inLinks : link ∈ projections.eventLinks) (resolved : link.resolved = true)
    {direction : Direction} {scope : String} (column : link.otherScope direction = some scope) :
    ∃ row ∈ log.events, row.eventId = link.other direction ∧ endpointScope row = scope := by
  cases direction with
  | out =>
      obtain ⟨row, held, named, same⟩ := faithful.target link inLinks resolved
      cases column
      exact ⟨row, held, named, same.symm⟩
  | into =>
      obtain ⟨filled, set, rfl⟩ := Option.map_eq_some_iff.mp column
      obtain ⟨row, held, named, same⟩ := faithful.source link inLinks filled set
      exact ⟨row, held, named, same.symm⟩

section Walking

variable {request : Request}

theorem edge_seen (reads : Reads store request.viewerScopes seen)
    (faithful : LinksFaithful store.log store.projections none) {order : RowOrder}
    {node : String} {edge : Edge}
    (member : edge ∈ expansionOrder (candidateEdges order store.projections.eventLinks.rows node
      (scopePairs request.viewerScopes).1 candidatePerNode).1) : seen edge.other := by
  obtain ⟨row, listed, rfl⟩ := mem_expansionOrder member
  obtain ⟨link, inLinks, direction, pair, held, relation, matched, other⟩ :=
    mem_candidateEdges listed
  obtain ⟨_, resolved, column, _⟩ := matchesLeaf_iff.mp matched
  obtain ⟨far, inLog, named, scope⟩ :=
    faithful.far (Table.mem_rows.mp inLinks) resolved column
  change seen row.other
  rw [other, ← named]
  exact reads far inLog (scope ▸ (scopePairs_held held).1)

theorem visitEdge_sourced {node : String} {depth : Nat} {path : String} {walk next : Walk}
    {edge : Edge} (allowed : seen edge.other)
    (holds : ∀ record ∈ walk.records, Sourced engine.numberText store.log seen (.record record))
    (visited : visitEdge engine.numberText store request node depth path walk edge = .ok next) :
    ∀ record ∈ next.records, Sourced engine.numberText store.log seen (.record record) := by
  unfold visitEdge at visited
  dsimp only at visited
  split at visited
  · cases visited
    exact holds
  split at visited
  · cases visited
    exact holds
  split at visited
  · cases visited
    exact holds
  · obtain ⟨record, made, rfl⟩ := map_ok.mp visited
    intro other member
    rcases List.mem_append.mp member with old | new
    · exact holds other old
    · rw [List.mem_singleton.mp new]
      unfold recordOf at made
      obtain ⟨⟨kind, summary⟩, read, shaped⟩ := bind_ok.mp made
      cases shaped
      exact .summary _ edge.other kind read allowed

theorem expandNode_sourced (reads : Reads store request.viewerScopes seen)
    (faithful : LinksFaithful store.log store.projections none)
    {walk next : Walk} {node : String} {depth : Nat} {path : String}
    (holds : ∀ record ∈ walk.records, Sourced engine.numberText store.log seen (.record record))
    (expanded : expandNode engine.numberText engine.order store request walk node depth path =
      .ok next) :
    ∀ record ∈ next.records, Sourced engine.numberText store.log seen (.record record) := by
  unfold expandNode at expanded
  have stepped : ∀ (now : Walk) (edge : Edge) (after : Walk),
      edge ∈ expansionOrder (candidateEdges engine.order store.projections.eventLinks.rows node
        (scopePairs request.viewerScopes).1 candidatePerNode).1 →
      (∀ record ∈ now.records, Sourced engine.numberText store.log seen (.record record)) →
      visitEdge engine.numberText store request node depth path now edge = .ok after →
      ∀ record ∈ after.records, Sourced engine.numberText store.log seen (.record record) :=
    fun _ _ _ member kept step => visitEdge_sourced (edge_seen reads faithful member) kept step
  refine foldlM_invariant stepped ?_ expanded
  exact holds

theorem walkQueue_sourced (reads : Reads store request.viewerScopes seen)
    (faithful : LinksFaithful store.log store.projections none) (fuel : Nat) {walk ended : Walk}
    (holds : ∀ record ∈ walk.records, Sourced engine.numberText store.log seen (.record record))
    (walked : walkQueue engine.numberText engine.order store request fuel walk = .ok ended) :
    ∀ record ∈ ended.records, Sourced engine.numberText store.log seen (.record record) := by
  induction fuel generalizing walk with
  | zero =>
      cases walked
      exact holds
  | succ fuel ih =>
      unfold walkQueue at walked
      split at walked
      · cases walked
        exact holds
      · obtain ⟨next, expanded, rest⟩ := bind_ok.mp walked
        refine ih (expandNode_sourced reads faithful ?_ expanded) rest
        exact holds

end Walking

theorem execBoundNeighborhood_sourced {executed : Executed} (reads : Reads store viewer seen)
    (faithful : LinksFaithful store.log store.projections none)
    (ran : execBoundNeighborhood engine store viewer bound queryClass = .ok executed) :
    ∀ record ∈ executed.records, Sourced engine.numberText store.log seen record := by
  unfold execBoundNeighborhood at ran
  obtain ⟨found, neighborhood, rfl⟩ := map_ok.mp ran
  unfold execNeighborhood at neighborhood
  obtain ⟨walk, walked, rfl⟩ := map_ok.mp neighborhood
  intro record member
  obtain ⟨plain, listed, rfl⟩ := List.mem_map.mp member
  exact walkQueue_sourced reads faithful _ (fun _ absent => (by cases absent)) walked plain listed

/-! ## A bundle -/

theorem execute_sourced {intent : Intent} {executed : Executed} (reads : Reads store viewer seen)
    (faithful : LinksFaithful store.log store.projections none)
    (ran : execute engine store viewer index embedder repository
      (resolveBindings store viewer intent) queryClass = .ok executed) :
    ∀ record ∈ executed.records, Sourced engine.numberText store.log seen record := by
  unfold execute at ran
  split at ran
  · exact execAnchor_sourced reads ran
  · cases ran
    exact execStanding_sourced
  · cases ran
    exact execRepositoryNormative_sourced
  · exact execEvidence_sourced reads ran
  · exact execBoundNeighborhood_sourced reads faithful ran
  · cases ran
    exact execPrecedent_sourced reads
  · cases ran
    exact execLexical_sourced reads
  · exact execVector_sourced reads ran

/-- Every record of every section has its text from where it may. -/
def Bundle.Sourced (numberText : Json.Double → String) (log : Log) (seen : String → Prop)
    (bundle : Bundle) : Prop :=
  ∀ classId records, (classId, records) ∈ bundle.sections →
    ∀ record ∈ records, Kawa.Sourced numberText log seen record

theorem retrieveClass_sourced {intent : Intent} {state next : Bundle × Nat}
    (reads : Reads store viewer seen) (faithful : LinksFaithful store.log store.projections none)
    (holds : state.1.Sourced engine.numberText store.log seen)
    (ran : retrieveClass engine store viewer index embedder repository
      (resolveBindings store viewer intent) state queryClass = .ok next) :
    next.1.Sourced engine.numberText store.log seen := by
  obtain ⟨bundle, total⟩ := state
  unfold retrieveClass at ran
  dsimp only at ran
  split at ran
  · cases ran
    exact holds
  · obtain ⟨executed, execution, rest⟩ := bind_ok.mp ran
    have sourced := execute_sourced reads faithful execution
    split at rest
    · cases rest
      exact holds
    · cases rest
      intro classId records held
      rcases mem_set held with old | ⟨rfl, rfl⟩
      · exact holds classId records old
      · exact sourced

theorem retrieve_sourced {intent : Intent} {bundle : Bundle} (reads : Reads store viewer seen)
    (faithful : LinksFaithful store.log store.projections none)
    (retrieved : retrieve engine store viewer index embedder repository intent = .ok bundle) :
    bundle.Sourced engine.numberText store.log seen := by
  unfold retrieve at retrieved
  obtain ⟨plan, compiled, rest⟩ := bind_ok.mp retrieved
  obtain ⟨⟨final, structural⟩, ran, made⟩ := bind_ok.mp rest
  cases made
  rw [Result.mapError_ok] at compiled ran
  rw [(compilePlan_total compiled).2] at ran
  have stepped : ∀ (now : Bundle × Nat) (queryClass : QueryClass) (after : Bundle × Nat),
      queryClass ∈ plan.queryClasses → now.1.Sourced engine.numberText store.log seen →
      retrieveClass engine store viewer index embedder repository
        (resolveBindings store viewer intent) now queryClass = .ok after →
      after.1.Sourced engine.numberText store.log seen :=
    fun _ _ _ _ kept step => retrieveClass_sourced reads faithful kept step
  exact foldlM_invariant stepped (fun _ _ absent => (by cases absent)) ran

end Executors

/-! ## Runs -/

/-- Deliveries come with their scopes opened, and no link column is left behind by its
endpoint. -/
def Call.KeepsScopes (platform : Platform) (readPayload : String → Option Payload) (store : Store)
    (call : Call) : Prop :=
  call.OffersOpened platform readPayload store ∧ call.KeepsColumns platform readPayload store

theorem opened_reads {store : Store} (opened : store.log.Opened platform)
    (viewer : Finset String) :
    Reads store viewer fun eventId => ¬ store.log.Hidden platform (heldScopes viewer) eventId := by
  rintro row held inScope ⟨other, otherHeld, named, whole, committed, commits, foreign⟩
  obtain rfl := Table.eq_of_key otherHeld held named
  obtain ⟨scope, cleartext, opens⟩ := opened other held whole committed commits
  unfold endpointScope at inScope
  rw [cleartext] at inScope
  exact foreign scope inScope opens

/-- In every store that is reached so, a bundle says nothing of an event whose scope is hidden
from the viewer. -/
theorem bundles_scoped (collisionFree : CollisionFree platform) {calls : List Call} {store : Store}
    (run : Run (Run.when (Call.KeepsScopes platform readPayload) (Called platform readPayload)) {}
      calls store)
    (engine : TextEngine) (viewer : Finset String) (index : VectorIndex)
    (embedder : Option Embedder) (repository : Repository) (intent : Intent) (bundle : Bundle)
    (retrieved : retrieve engine store viewer index embedder repository intent = .ok bundle) :
    bundle.Sourced engine.numberText store.log
      fun eventId => ¬ store.log.Hidden platform (heldScopes viewer) eventId := by
  have kept := run.invariant
    (fun store => store.log.Stemmed platform ∧ store.log.Opened platform ∧
      LinksFaithful store.log store.projections none) (by
      rintro state call next ⟨stemmed, opened, faithful⟩ ⟨⟨offered, columns⟩, called⟩
      exact ⟨called_stemmed collisionFree stemmed called,
        called_opened collisionFree stemmed opened offered called,
        called_links faithful columns called⟩)
    ⟨empty_stemmed, fun row held => (by cases held), empty_links⟩
  exact retrieve_sourced (opened_reads kept.2.1 viewer) kept.2.2 retrieved

namespace Leaked

/-- What is asked about one event, with room for one record. -/
def intent (eventId : String) : Intent where
  about := some eventId
  textTerms := none
  relationDepth := 0
  limit := 1
  fallbackPolicy := none

/-- A store that holds one claim, delivered whole. -/
structure HoldsClaim (event : Event) (store : Store) : Prop where
  called : Called plainPlatform (fun _ => none) {} (Overshadowed.delivery "node" event) store
  row : store.log.events.find? event.eventId = some (storedRow event 0 true)
  claim : store.log.eventClaim.find? event.eventId =
    some { eventId := event.eventId, proposition := "proposition", basisNote := none }

theorem delivered {event : Event} (arrives : Arrives "node" (.claimRecorded plainClaim) event)
    (first : event.originSeq = 1 ∧ event.prevHash = none) :
    ∃ store, HoldsClaim event store := by
  have ready : ({} : Store).log.Ready plainPlatform 0 := empty_ready
  obtain ⟨store, middle, called, inserted, written, _⟩ := arrive_whole ready rfl arrives none 0
    first.1 first.2 rfl rfl plainClaim_writable
    fun _ log _ _ => reduce_claim {} (by rw [arrives.hlc]; rfl) arrives.carried
  refine ⟨store, called, ?_, ?_⟩
  · have held : storedRow event 0 true ∈ store.log.events := by
      rw [← Table.mem_rows, insertPayload_events written, Table.mem_rows]
      exact inserted.mem_iff.mpr (.inr rfl)
    exact Table.find?_of_mem held
  · simp only [insertPayload, insertClaimRecorded, bind_ok, pure_ok] at written
    obtain ⟨claims, added, same⟩ := written
    have held := insertRow_mem added
    rw [← same]
    exact Table.find?_of_mem held

def boundTo (eventId : String) : BoundIntent where
  intent := intent eventId
  anchor := some (.claimEvent, eventId)
  unboundText := none

/-- The classes of a claim's anchor, in the order in which they run. -/
def tiered : List (Purpose × Option FtsReason) :=
  [.anchorLookup, .standing, .repositoryNormative, .evidence, .neighborhood, .precedent,
    .vector].map fun purpose => (purpose, none)

theorem tierOrder_purposes (eventId : String) :
    tierOrder (purposesOf (boundTo eventId)) = tiered := by
  rw [show purposesOf (boundTo eventId) = purposesOf (boundTo "") from rfl]
  decide

/-- A limit of one is spent on the first class. -/
theorem apportion_tiered (eventId : String) :
    apportion (wantsOf (boundTo eventId)) (tiered.map (·.1)) 1 = [(.anchorLookup, 1)] := by
  rw [show wantsOf (boundTo eventId) = wantsOf (boundTo "") from rfl]
  decide

def lookup : QueryClass where
  classId := classIdOf tiered .anchorLookup
  purpose := .anchorLookup
  budget := 1
  ftsReason := none

theorem planned (eventId : String) : ∃ plan, compilePlan (boundTo eventId) = .ok plan ∧
    plan.queryClasses = [lookup] ∧ plan.bound = boundTo eventId := by
  have some_purpose : purposesOf (boundTo eventId) ≠ [] := by
    rw [show purposesOf (boundTo eventId) = purposesOf (boundTo "") from rfl]
    decide
  unfold compilePlan
  dsimp only
  rw [tierOrder_purposes, show (boundTo eventId).intent.limit.toNat = 1 from rfl,
    apportion_tiered, if_neg some_purpose]
  exact ⟨_, rfl, rfl, rfl⟩

/-- The claim is found by its id, where its cleartext scope is one of the viewer's or absent. -/
theorem anchored {event : Event} {store : Store} (holds : HoldsClaim event store)
    (kind : event.kind = .claimRecorded) (named : event.eventId ≠ "") {viewer : Finset String}
    (shown : (storedRow event 0 true).visible viewer = true) :
    ∃ bundle record, retrieve Bounded.engine store viewer Bounded.index none Bounded.repository
        (intent event.eventId) = .ok bundle ∧
      bundle.sections = [(lookup.classId, [.record record])] ∧ record.ref = event.eventId ∧
      record.summary = plainClaim.proposition := by
  have visible : visibleEvent store viewer event.eventId = true := visibleEvent_of holds.row shown
  have bound : resolveBindings store viewer (intent event.eventId) = boundTo event.eventId := by
    unfold resolveBindings intent boundTo
    simp [named, holds.claim, visible, intent]
  have text : summaryOf Bounded.engine.numberText store.log event.eventId =
      .ok ("claim.recorded", plainClaim.proposition) := by
    have rowKind : (storedRow event 0 true).kind = .claimRecorded := kind
    unfold summaryOf
    rw [holds.row]
    dsimp only
    rw [rowKind, holds.claim]
    rfl
  obtain ⟨plan, compiled, classes, same⟩ := planned event.eventId
  have hydrated : execute Bounded.engine store viewer Bounded.index none Bounded.repository
      (boundTo event.eventId) lookup = .ok { records := [.record
        { ref := event.eventId
          kind := "claim.recorded"
          summary := plainClaim.proposition
          backend := lookup.backend
          classId := lookup.classId
          path := event.eventId
          pathTruncated := false
          standing := standingOf store.projections event.eventId }] } := by
    simp only [execute, lookup, execAnchor, boundTo, hydrate, text]
    rfl
  unfold retrieve
  rw [bound, compiled]
  simp only [Except.mapError, bind, Except.bind, classes, same, List.foldlM, retrieveClass, hydrated]
  exact ⟨_, _, rfl, rfl, rfl, rfl⟩

theorem named {platform : Platform} {event : Event} (verified : event.verify platform = true) :
    event.eventId ≠ "" := by
  have checked := (Event.verify_iff _ _).mp verified
  have hashed := checked.selfHash
  rw [checked.eventId] at hashed
  intro unnamed
  rw [unnamed] at hashed
  unfold eventHash at hashed
  split at hashed
  · simp [digest] at hashed
  · split at hashed
    · simp [digest] at hashed
    · cases hashed

/-- A viewer of no scope reads what was committed to a team: its cleartext was stripped on the
way, and the event was stored as if public. -/
theorem leaked : ∃ (event : Event) (store : Store) (bundle : Bundle) (record : Record)
    (classId : String),
    Run (Called plainPlatform fun _ => none) {} [Overshadowed.delivery "node" event] store ∧
    store.log.Hidden plainPlatform (heldScopes ∅) event.eventId ∧
    event.payload = some (.claimRecorded plainClaim) ∧
    retrieve Bounded.engine store ∅ Bounded.index none Bounded.repository
      (intent event.eventId) = .ok bundle ∧
    (classId, [.record record]) ∈ bundle.sections ∧ record.ref = event.eventId ∧
    record.summary = plainClaim.proposition := by
  obtain ⟨event, sent⟩ := StrippedScope.sent
  have arrives := sent.arrives.withoutScope
  obtain ⟨store, holds⟩ := delivered arrives ⟨sent.originSeq, sent.prevHash⟩
  obtain ⟨bundle, record, retrieved, sections, ref, text⟩ :=
    anchored holds sent.kind (named arrives.verified)
      (show (storedRow _ 0 true).visible ∅ = true from rfl)
  refine ⟨_, store, bundle, record, lookup.classId, .cons holds.called (.nil _), ?_,
    arrives.carried, retrieved, ?_, ref, text⟩
  · refine ⟨storedRow _ 0 true, (Table.find?_eq_some.mp holds.row).1, rfl, rfl, _,
      sent.scopeDigest, ?_⟩
    rintro scope held same
    have team := scopeDigestOf_injective plainPlatform_collisionFree same
    subst team
    revert held
    decide
  · rw [sections]
    exact List.mem_cons_self

/-- The same event as it was sent, read by one of the team. -/
theorem read_in_scope : ∃ (event : Event) (store : Store) (bundle : Bundle),
    Run (Run.when (Call.KeepsScopes plainPlatform fun _ => none)
      (Called plainPlatform fun _ => none)) {} [Overshadowed.delivery "node" event] store ∧
    retrieve Bounded.engine store {"team"} Bounded.index none Bounded.repository
      (intent event.eventId) = .ok bundle ∧ bundle.sections ≠ [] ∧
    bundle.Sourced Bounded.engine.numberText store.log
      fun eventId => ¬ store.log.Hidden plainPlatform (heldScopes {"team"}) eventId := by
  obtain ⟨event, sent⟩ := StrippedScope.sent
  obtain ⟨store, holds⟩ := delivered sent.arrives ⟨sent.originSeq, sent.prevHash⟩
  have shown : (storedRow event 0 true).visible {"team"} = true := by
    have cleartext : (storedRow event 0 true).scopeRef = some "team" := sent.scopeRef
    unfold EventRow.visible
    rw [cleartext]
    decide
  obtain ⟨bundle, record, retrieved, sections, _, _⟩ :=
    anchored holds sent.kind (named sent.verified) shown
  have offered : (Overshadowed.delivery "node" event).OffersOpened plainPlatform
      (fun _ => none) {} := by
    rintro receiver batch ⟨rfl, rfl⟩
    refine .inr fun delivered member _ _ => ?_
    rw [List.mem_singleton.mp member, sent.scopeRef]
    rfl
  have columns : (Overshadowed.delivery "node" event).KeepsColumns plainPlatform
      (fun _ => none) {} :=
    Overshadowed.delivery_keeps Overshadowed.holds_empty (by simp [Event.isStub, sent.carried])
  have run : Run (Run.when (Call.KeepsScopes plainPlatform fun _ => none)
      (Called plainPlatform fun _ => none)) {} [Overshadowed.delivery "node" event] store :=
    .cons ⟨⟨offered, columns⟩, holds.called⟩ (.nil _)
  refine ⟨event, store, bundle, run, retrieved, ?_, bundles_scoped plainPlatform_collisionFree run
    _ _ _ _ _ _ _ retrieved⟩
  rw [sections]
  exact List.cons_ne_nil _ _

end Leaked

end Kawa
