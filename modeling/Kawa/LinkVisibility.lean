import Kawa.AdmittedLog
import Kawa.ClaimStanding
import Kawa.ShadowFree

/-!
Which leaves a link row matches, against which assertions of its triple are held.  A row
keeps the scope of the assertion that arrived first and the scopes that its endpoints
had when they were filled in.
-/

namespace Kawa

open Result

variable {platform : Platform} {readPayload : String → Option Payload}

/-! ## What the held facts say -/

/-- `_IN_SCOPE`: the event is held, unscoped or in a scope of the viewer. -/
def Log.inScope (log : Log) (viewer : Finset String) (eventId : String) : Prop :=
  ∃ row ∈ log.events, row.eventId = eventId ∧ endpointScope row ∈ heldScopes viewer

def Log.assertedInScope (log : Log) (viewer : Finset String)
    (triple : String × Relation × String) : Prop :=
  ∃ fact ∈ log.eventLink, fact.triple = triple ∧ log.inScope viewer fact.eventId

/-- The assertion of a triple that arrived first. -/
def Log.firstAssertion (log : Log) (triple : String × Relation × String) : Option EventLinkRow :=
  log.eventLink.rows.find? (·.triple = triple)

/-- The first assertion and the far endpoint are in scopes that are consulted. -/
def Log.firstConsulted (log : Log) (viewer : Finset String) (triple : String × Relation × String)
    (far : String) : Prop :=
  (∃ fact, log.firstAssertion triple = some fact ∧ ∃ row ∈ log.events,
    row.eventId = fact.eventId ∧ asserterScope row.scopeRef ∈ consultedScopes viewer) ∧
  ∃ row ∈ log.events, row.eventId = far ∧ endpointScope row ∈ consultedScopes viewer

/-- A leaf of the near endpoint matches the row. -/
def LinkRow.reached (viewer : Finset String) (direction : Direction) (link : LinkRow) : Prop :=
  ∃ pair ∈ (scopePairs viewer).1, matchesLeaf (link.near direction) direction pair none link = true

/-! ## Leaves -/

theorem length_pairsOf_le (scopes : List String) :
    (pairsOf scopes).length ≤ scopes.length * scopes.length := by
  have row : ∀ n ∈ scopes.map (fun endpoint =>
      ((scopes.filter (endpoint ≠ ·)).map fun asserter => (endpoint, asserter)).length),
      n ≤ scopes.length - 1 := by
    intro n listed
    obtain ⟨endpoint, member, rfl⟩ := List.mem_map.mp listed
    rw [List.length_map]
    have shorter : (scopes.filter (endpoint ≠ ·)).length < scopes.length :=
      List.length_filter_lt_length_iff_exists.mpr ⟨endpoint, member, by simp⟩
    omega
  have rows := List.sum_le_card_nsmul _ _ row
  unfold pairsOf
  rw [List.length_append, List.length_map, List.length_flatMap]
  rw [List.length_map, smul_eq_mul] at rows
  cases counted : scopes.length with
  | zero =>
      rw [counted] at rows
      omega
  | succ n =>
      rw [counted] at rows
      simp only [Nat.add_sub_cancel] at rows
      calc n + 1 + _ ≤ n + 1 + (n + 1) * n := Nat.add_le_add_left rows _
        _ = (n + 1) * (n + 1) := by ring

theorem mem_scopePairs {viewer : Finset String} {pair : String × String} :
    pair ∈ (scopePairs viewer).1 ↔
      pair.1 ∈ consultedScopes viewer ∧ pair.2 ∈ consultedScopes viewer := by
  have few : (consultedScopes viewer).length ≤ maxViewerScopes := List.length_take_le _ _
  have fits : (pairsOf (consultedScopes viewer)).length ≤ leafBudget / 2 :=
    (length_pairsOf_le _).trans (Nat.mul_le_mul few few)
  unfold scopePairs
  rw [List.take_of_length_le fits]
  exact mem_pairsOf

theorem reached_iff {viewer : Finset String} {direction : Direction} {link : LinkRow}
    (resolved : link.resolved = true) :
    link.reached viewer direction ↔
      link.asserterScopeRef ∈ consultedScopes viewer ∧
        ∃ scope ∈ link.otherScope direction, scope ∈ consultedScopes viewer := by
  constructor
  · rintro ⟨pair, kept, matched⟩
    obtain ⟨_, _, endpoint, asserter, _⟩ := matchesLeaf_iff.mp matched
    obtain ⟨endpointKept, asserterKept⟩ := mem_scopePairs.mp kept
    exact ⟨asserter ▸ asserterKept, pair.1, endpoint, endpointKept⟩
  · rintro ⟨asserterKept, scope, endpoint, endpointKept⟩
    refine ⟨(scope, link.asserterScopeRef), mem_scopePairs.mpr ⟨endpointKept, asserterKept⟩, ?_⟩
    refine matchesLeaf_iff.mpr ⟨rfl, resolved, endpoint, rfl, ?_⟩
    intro asked set
    cases set

theorem consulted_held {viewer : Finset String} {scope : String}
    (consulted : scope ∈ consultedScopes viewer) : scope ∈ heldScopes viewer :=
  (Finset.mem_sort _).mp (List.mem_of_mem_take consulted)

/-! ## The invariant -/

/-- Link rows and held link facts: `arriving` names an event whose row is stored but not
reduced yet. -/
structure LinksFaithful (log : Log) (projections : Projections) (arriving : Option String) :
    Prop where
  recorded : ∀ fact ∈ log.eventLink, ∃ link ∈ projections.eventLinks, link.triple = fact.triple
  asserted : ∀ link ∈ projections.eventLinks, ∃ fact, log.firstAssertion link.triple = some fact ∧
    ∃ row ∈ log.events, row.eventId = fact.eventId ∧ row.materialized = true ∧
      link.asserterScopeRef = asserterScope row.scopeRef
  target : ∀ link ∈ projections.eventLinks, link.resolved = true →
    ∃ row ∈ log.events, row.eventId = link.targetRef ∧ link.targetScopeRef = endpointScope row
  source : ∀ link ∈ projections.eventLinks, ∀ filled ∈ link.source,
    ∃ row ∈ log.events, row.eventId = link.sourceRef ∧ filled.1 = endpointScope row
  absent : ∀ link ∈ projections.eventLinks, link.source = none →
    ∀ row ∈ log.events, row.eventId = link.sourceRef → arriving = some row.eventId

/-- Against faithful rows, a leaf reaches a link by its first assertion. -/
theorem LinksFaithful.reached_iff {log : Log} {projections : Projections}
    (faithful : LinksFaithful log projections none) {viewer : Finset String}
    {direction : Direction} {link : LinkRow} (inLinks : link ∈ projections.eventLinks)
    (resolved : link.resolved = true) :
    link.reached viewer direction ↔
      log.firstConsulted viewer link.triple (link.other direction) := by
  obtain ⟨fact, first, row, inLog, named, _, asserter⟩ := faithful.asserted link inLinks
  have asserters : link.asserterScopeRef ∈ consultedScopes viewer ↔
      ∃ fact, log.firstAssertion link.triple = some fact ∧ ∃ row ∈ log.events,
        row.eventId = fact.eventId ∧ asserterScope row.scopeRef ∈ consultedScopes viewer := by
    constructor
    · intro consulted
      exact ⟨fact, first, row, inLog, named, asserter ▸ consulted⟩
    · rintro ⟨other, found, otherRow, otherHeld, otherNamed, consulted⟩
      rw [first, Option.some.injEq] at found
      subst found
      rw [asserter, Table.eq_of_key inLog otherHeld (named.trans otherNamed.symm)]
      exact consulted
  have endpoints : (∃ scope ∈ link.otherScope direction, scope ∈ consultedScopes viewer) ↔
      ∃ row ∈ log.events, row.eventId = link.other direction ∧
        endpointScope row ∈ consultedScopes viewer := by
    cases direction with
    | out =>
        obtain ⟨held, heldIn, heldNamed, scope⟩ := faithful.target link inLinks resolved
        constructor
        · rintro ⟨found, set, consulted⟩
          cases set
          exact ⟨held, heldIn, heldNamed, scope ▸ consulted⟩
        · rintro ⟨other, otherHeld, otherNamed, consulted⟩
          refine ⟨link.targetScopeRef, rfl, ?_⟩
          rw [scope, Table.eq_of_key heldIn otherHeld (heldNamed.trans otherNamed.symm)]
          exact consulted
    | into =>
        cases filled : link.source with
        | none =>
            constructor
            · rintro ⟨scope, set, _⟩
              simp only [LinkRow.otherScope, filled, Option.map_none] at set
              cases set
            · rintro ⟨other, otherHeld, otherNamed, _⟩
              have arriving := faithful.absent link inLinks filled other otherHeld otherNamed
              cases arriving
        | some endpoint =>
            obtain ⟨held, heldIn, heldNamed, scope⟩ := faithful.source link inLinks endpoint filled
            constructor
            · rintro ⟨found, set, consulted⟩
              simp only [LinkRow.otherScope, filled, Option.map_some, Option.mem_some] at set
              subst set
              exact ⟨held, heldIn, heldNamed, scope ▸ consulted⟩
            · rintro ⟨other, otherHeld, otherNamed, consulted⟩
              refine ⟨endpoint.1, by simp [LinkRow.otherScope, filled], ?_⟩
              rw [scope, Table.eq_of_key heldIn otherHeld (heldNamed.trans otherNamed.symm)]
              exact consulted
  rw [Kawa.reached_iff resolved, asserters, endpoints]
  rfl

/-! ## Reducing -/

def Payload.linkFacts (eventId : String) : Payload → List EventLinkRow
  | .linkAsserted p =>
      [{ eventId := eventId, sourceRef := p.sourceRef, relation := p.relation
         targetRef := p.targetRef }]
  | _ => []

theorem linkFacts_triples (eventId : String) (payload : Payload) :
    (payload.linkFacts eventId).map EventLinkRow.triple = payload.links := by
  cases payload <;> rfl

theorem insertPayload_linkFacts {log next : Log} {eventId : String} {payload : Payload}
    (inserted : insertPayload platform log eventId payload = .ok next) :
    next.eventLink.rows = log.eventLink.rows ++ payload.linkFacts eventId := by
  cases payload <;>
    simp only [insertPayload, insertPlanCreated, insertPlanLifecycleChanged, insertWorkDerived,
      insertWorkRetired, insertWorkDependencyDeclared, insertResultRecorded, insertLinkAsserted,
      insertObservationRecorded, insertClaimRecorded, insertAuthorityConfiguration,
      insertAuthorityReceipt, bind_ok, pure_ok] at inserted <;>
    first
      | obtain ⟨table, inserted, rfl⟩ := inserted
      | obtain ⟨_, _, table, inserted, rfl⟩ := inserted
  all_goals simp [Payload.linkFacts, insertRow_rows inserted]

/-- What resolving an event leaves of a link row, and what it fills in. -/
theorem resolvedBy_columns (parts : Nat × Nat) (row : EventRow) (link : LinkRow) :
    let now := link.resolvedBy parts row
    now.triple = link.triple ∧ now.asserterScopeRef = link.asserterScopeRef ∧
      (now.resolved = true →
        link.resolved = true ∧ now.targetScopeRef = link.targetScopeRef ∨
          link.targetRef = row.eventId ∧ now.targetScopeRef = endpointScope row) ∧
      (now.source = link.source ∨
        link.sourceRef = row.eventId ∧ now.source.map (·.1) = some (endpointScope row)) ∧
      (now.source = none → link.source = none ∧ link.sourceRef ≠ row.eventId) := by
  unfold LinkRow.resolvedBy
  dsimp only
  by_cases targeted : link.targetRef = row.eventId ∧ link.resolved = false
  · rw [if_pos targeted]
    dsimp only
    by_cases sourced : link.sourceRef = row.eventId ∧ link.source = none
    · rw [if_pos sourced]
      exact ⟨rfl, rfl, fun _ => .inr ⟨targeted.1, rfl⟩, .inr ⟨sourced.1, rfl⟩,
        fun empty => by cases empty⟩
    · rw [if_neg sourced]
      exact ⟨rfl, rfl, fun _ => .inr ⟨targeted.1, rfl⟩, .inl rfl,
        fun empty => ⟨empty, fun named => sourced ⟨named, empty⟩⟩⟩
  · rw [if_neg targeted]
    by_cases sourced : link.sourceRef = row.eventId ∧ link.source = none
    · rw [if_pos sourced]
      exact ⟨rfl, rfl, fun resolved => .inl ⟨resolved, rfl⟩, .inr ⟨sourced.1, rfl⟩,
        fun empty => by cases empty⟩
    · rw [if_neg sourced]
      exact ⟨rfl, rfl, fun resolved => .inl ⟨resolved, rfl⟩, .inl rfl,
        fun empty => ⟨empty, fun named => sourced ⟨named, empty⟩⟩⟩

theorem recomputeStanding_links (log : Log) (projections : Projections) :
    (recomputeStanding log projections).eventLinks = projections.eventLinks := rfl

/-- The link rows after a reduction: the old ones with the event's endpoints filled in, and
the asserted one where its triple is new. -/
theorem reduce_links {log : Log} {before after : Projections} {scan : Scan} {event : Event}
    {payload : Payload} (carried : event.payload = some payload)
    (reduced : reduce log scan event before = .ok after)
    (stored : ∃ row ∈ log.events, row.eventId = event.eventId) :
    ∃ parts, ∃ row ∈ log.events, row.eventId = event.eventId ∧
      (∀ old ∈ before.eventLinks, old.resolvedBy parts row ∈ after.eventLinks) ∧
      (∀ triple ∈ payload.links, ∃ link ∈ after.eventLinks, link.triple = triple) ∧
      ∀ link ∈ after.eventLinks,
        (∃ old ∈ before.eventLinks, link = old.resolvedBy parts row) ∨
          (payload.links = [link.triple] ∧ link.Records log event.toEnvelope ∧
            ∀ old ∈ before.eventLinks, old.triple ≠ link.triple) := by
  simp only [Kawa.reduce, bind_ok] at reduced
  obtain ⟨⟨linked, resolvedAny⟩, held, ⟨middle, touched⟩, own, finished⟩ := reduced
  obtain ⟨parts, row, inLog, named, resolving⟩ := resolveHeld_ok held stored
  obtain ⟨rows, _, _⟩ := resolveEndpoints_links resolving
  rw [carried] at own
  have outcome := reducePayload_links own
  have sameLinks : after.eventLinks = middle.eventLinks := by
    by_cases again : (resolvedAny || touched) = true
    · rw [if_pos again, pure_ok] at finished
      subst finished
      exact recomputeStanding_links log middle
    · rw [if_neg again, pure_ok] at finished
      subst finished
      rfl
  have fromBefore : ∀ link, link ∈ linked.eventLinks ↔
      ∃ old ∈ before.eventLinks, link = old.resolvedBy parts row := by
    intro link
    rw [← Table.mem_rows, rows, List.mem_map]
    exact exists_congr fun old => and_congr_right fun _ => eq_comm
  have fresh : ∀ link : LinkRow, linked.eventLinks.holds (link.sourceRef, link.relation, link.targetRef) =
      false → ∀ old ∈ before.eventLinks, old.triple ≠ link.triple := by
    intro link unheld old inBefore same
    refine Table.holds_eq_false.mp unheld _ ((fromBefore _).mpr ⟨old, inBefore, rfl⟩) ?_
    exact ((resolvedBy_columns parts row old).1).trans same
  refine ⟨parts, row, inLog, named, ?_⟩
  rw [sameLinks]
  rcases outcome with ⟨_, noLinks, same⟩ | ⟨_, link, only, same, records⟩ | ⟨noLinks, _, _, same, _⟩
  · rw [same, noLinks]
    refine ⟨fun old inBefore => (fromBefore _).mpr ⟨old, inBefore, rfl⟩, ?_, ?_⟩
    · intro triple listed
      cases listed
    · exact fun link inLinked => .inl ((fromBefore link).mp inLinked)
  · rw [same]
    refine ⟨?_, ?_, ?_⟩
    · exact fun old inBefore => Table.mem_insertNew.mpr (.inl ((fromBefore _).mpr ⟨old, inBefore, rfl⟩))
    · intro triple listed
      rw [only, List.mem_singleton] at listed
      subst listed
      by_cases taken : linked.eventLinks.holds link.triple = false
      · exact ⟨link, Table.mem_insertNew.mpr (.inr ⟨rfl, taken⟩), rfl⟩
      · obtain ⟨other, inLinked, sameTriple⟩ := Table.holds_iff.mp (Bool.not_eq_false _ ▸ taken)
        exact ⟨other, Table.mem_insertNew.mpr (.inl inLinked), sameTriple⟩
    · intro other inAfter
      rcases Table.mem_insertNew.mp inAfter with old | ⟨rfl, unheld⟩
      · exact .inl ((fromBefore other).mp old)
      · exact .inr ⟨only, records, fresh other unheld⟩
  · rw [same, noLinks]
    refine ⟨fun old inBefore => (fromBefore _).mpr ⟨old, inBefore, rfl⟩, ?_, ?_⟩
    · intro triple listed
      cases listed
    · exact fun link inLinked => .inl ((fromBefore link).mp inLinked)

theorem firstAssertion_append {log next : Log} {facts : List EventLinkRow}
    (rows : next.eventLink.rows = log.eventLink.rows ++ facts)
    {triple : String × Relation × String} {fact : EventLinkRow}
    (first : log.firstAssertion triple = some fact) : next.firstAssertion triple = some fact := by
  unfold Log.firstAssertion at first ⊢
  rw [rows, List.find?_append, first]
  rfl

theorem linkFacts_of_links {payload : Payload} {triple : String × Relation × String}
    (only : payload.links = [triple]) (eventId : String) :
    ∃ fact : EventLinkRow, payload.linkFacts eventId = [fact] ∧ fact.eventId = eventId ∧
      fact.triple = triple := by
  cases payload with
  | linkAsserted p =>
      refine ⟨_, rfl, rfl, ?_⟩
      exact List.head_eq_of_cons_eq only
  | _ => cases only

theorem triple_targetRef {left right : LinkRow} (same : left.triple = right.triple) :
    left.targetRef = right.targetRef := congrArg (·.2.2) same

theorem triple_sourceRef {left right : LinkRow} (same : left.triple = right.triple) :
    left.sourceRef = right.sourceRef := congrArg (·.1) same

/-- The payload row of a materialized event, and its reduction. -/
theorem LinksFaithful.reduce {log next : Log} {before after : Projections} {scan : Scan}
    {event : Event} {payload : Payload} {row : EventRow} {arriving : Option String}
    (faithful : LinksFaithful log before arriving)
    (mine : ∀ eventId, arriving = some eventId → eventId = event.eventId)
    (inLog : row ∈ log.events) (named : row.eventId = event.eventId)
    (whole : row.materialized = true) (scope : row.scopeRef = event.scopeRef)
    (carried : event.payload = some payload)
    (written : insertPayload platform log event.eventId payload = .ok next)
    (reduced : reduce next scan event before = .ok after) : LinksFaithful next after none := by
  obtain ⟨parts, arrived, arrivedHeld, arrivedNamed, kept, listed, member⟩ :=
    reduce_links carried reduced
      ⟨row, by rw [insertPayload_events written]; exact inLog, named⟩
  have rows := insertPayload_linkFacts written
  have events := insertPayload_events written
  refine ⟨?_, ?_, ?_, ?_, ?_⟩
  · intro fact held
    rw [← Table.mem_rows, rows, List.mem_append] at held
    rcases held with old | new
    · obtain ⟨link, inLinks, triple⟩ := faithful.recorded fact old
      exact ⟨_, kept link inLinks, (resolvedBy_columns parts arrived link).1.trans triple⟩
    · refine listed fact.triple ?_
      rw [← linkFacts_triples event.eventId payload]
      exact List.mem_map_of_mem new
  · intro link inAfter
    rcases member link inAfter with ⟨old, inBefore, rfl⟩ | ⟨only, records, unknown⟩
    · obtain ⟨fact, first, held, heldIn, heldNamed, heldWhole, asserter⟩ :=
        faithful.asserted old inBefore
      obtain ⟨triple, sameAsserter, _⟩ := resolvedBy_columns parts arrived old
      refine ⟨fact, ?_, held, events ▸ heldIn, heldNamed, heldWhole, sameAsserter.trans asserter⟩
      rw [triple]
      exact firstAssertion_append rows first
    · obtain ⟨fact, facts, factNamed, factTriple⟩ := linkFacts_of_links only event.eventId
      refine ⟨fact, ?_, row, events ▸ inLog, named.trans factNamed.symm, whole, ?_⟩
      · have absent : log.eventLink.rows.find? (fun fact => fact.triple = link.triple) = none := by
          refine List.find?_eq_none.mpr fun other otherHeld same => ?_
          obtain ⟨old, inBefore, triple⟩ := faithful.recorded other otherHeld
          exact unknown old inBefore (triple.trans (of_decide_eq_true same))
        unfold Log.firstAssertion
        rw [rows, List.find?_append, absent, facts, Option.none_or]
        exact List.find?_cons_of_pos (by simpa using factTriple)
      · rw [records.asserter, scope]
  · intro link inAfter resolved
    rcases member link inAfter with ⟨old, inBefore, rfl⟩ | ⟨_, records, _⟩
    · obtain ⟨triple, _, targets, _⟩ := resolvedBy_columns parts arrived old
      rw [triple_targetRef triple]
      rcases targets resolved with ⟨wasResolved, sameScope⟩ | ⟨target, filled⟩
      · obtain ⟨held, heldIn, heldNamed, heldScope⟩ := faithful.target old inBefore wasResolved
        exact ⟨held, events ▸ heldIn, heldNamed, sameScope.trans heldScope⟩
      · exact ⟨arrived, arrivedHeld, target.symm, filled⟩
    · obtain ⟨held, heldIn, heldNamed⟩ := records.resolved resolved
      exact ⟨held, heldIn, heldNamed, (records.target held heldIn heldNamed).2⟩
  · intro link inAfter filled set
    rcases member link inAfter with ⟨old, inBefore, rfl⟩ | ⟨_, records, _⟩
    · obtain ⟨triple, _, _, sources, _⟩ := resolvedBy_columns parts arrived old
      rw [triple_sourceRef triple]
      rcases sources with same | ⟨sourceRef, scopes⟩
      · rw [same] at set
        obtain ⟨held, heldIn, heldNamed, heldScope⟩ := faithful.source old inBefore filled set
        exact ⟨held, events ▸ heldIn, heldNamed, heldScope⟩
      · rw [Option.mem_def.mp set, Option.map_some, Option.some.injEq] at scopes
        exact ⟨arrived, arrivedHeld, sourceRef.symm, scopes⟩
    · obtain ⟨held, heldIn, heldNamed⟩ := records.sourced (by rw [Option.mem_def.mp set]; simp)
      have scopes := records.source held heldIn heldNamed
      rw [Option.mem_def.mp set, Option.map_some, Option.some.injEq] at scopes
      exact ⟨held, heldIn, heldNamed, scopes⟩
  · intro link inAfter empty held heldIn heldNamed
    rcases member link inAfter with ⟨old, inBefore, rfl⟩ | ⟨_, records, _⟩
    · obtain ⟨triple, _, _, _, unsourced⟩ := resolvedBy_columns parts arrived old
      obtain ⟨wasEmpty, other⟩ := unsourced empty
      rw [triple_sourceRef triple] at heldNamed
      have pending := faithful.absent old inBefore wasEmpty held (events ▸ heldIn) heldNamed
      exact absurd (heldNamed.symm.trans ((mine _ pending).trans arrivedNamed.symm)) other
    · have scopes := records.source held heldIn heldNamed
      rw [empty] at scopes
      cases scopes

/-! ## Storing rows -/

theorem LinksFaithful.insert {log next : Log} {projections : Projections} {event : Event}
    {materialized : Bool} {recordedAt : Int} {row : EventRow}
    (faithful : LinksFaithful log projections none)
    (inserted : EventInserted platform log event materialized recordedAt row next) :
    LinksFaithful next projections (some event.eventId) := by
  have kept : ∀ old ∈ log.events, old ∈ next.events := fun old inLog =>
    inserted.mem_iff.mpr (.inl inLog)
  have rowId : row.eventId = event.eventId := by
    obtain ⟨_, _, shape⟩ := inserted.envelope
    rw [shape]
  have facts : next.eventLink = log.eventLink := by
    obtain ⟨_, same⟩ := inserted.appended
    rw [same]
  refine ⟨?_, ?_, ?_, ?_, ?_⟩
  · rw [facts]
    exact faithful.recorded
  · intro link inLinks
    obtain ⟨fact, first, held, heldIn, heldNamed, whole, asserter⟩ := faithful.asserted link inLinks
    refine ⟨fact, ?_, held, kept held heldIn, heldNamed, whole, asserter⟩
    unfold Log.firstAssertion
    rw [facts]
    exact first
  · intro link inLinks resolved
    obtain ⟨held, heldIn, heldNamed, scope⟩ := faithful.target link inLinks resolved
    exact ⟨held, kept held heldIn, heldNamed, scope⟩
  · intro link inLinks filled set
    obtain ⟨held, heldIn, heldNamed, scope⟩ := faithful.source link inLinks filled set
    exact ⟨held, kept held heldIn, heldNamed, scope⟩
  · intro link inLinks empty held heldIn heldNamed
    rcases inserted.mem_iff.mp heldIn with old | rfl
    · have pending := faithful.absent link inLinks empty held old heldNamed
      cases pending
    · rw [rowId]

/-- A stored stub that is the source of no link. -/
theorem LinksFaithful.settle {log : Log} {projections : Projections} {eventId : String}
    (faithful : LinksFaithful log projections (some eventId))
    (unsourced : ∀ link ∈ projections.eventLinks, link.sourceRef ≠ eventId) :
    LinksFaithful log projections none where
  recorded := faithful.recorded
  asserted := faithful.asserted
  target := faithful.target
  source := faithful.source
  absent link inLinks empty held heldIn heldNamed := by
    have pending := faithful.absent link inLinks empty held heldIn heldNamed
    rw [Option.some.injEq] at pending
    exact absurd (heldNamed.symm.trans pending.symm) (unsourced link inLinks)

theorem LinksFaithful.upgrade {log next : Log} {projections : Projections} {row : EventRow}
    {scopeRef : Option String} (faithful : LinksFaithful log projections none)
    (inLog : row ∈ log.events) (upgraded : upgradeRow log row scopeRef = .ok next)
    (same : ∀ link ∈ projections.eventLinks,
      (link.resolved = true ∧ link.targetRef = row.eventId ∨
        link.source ≠ none ∧ link.sourceRef = row.eventId) →
      scopeRef.getD publicScope = publicScope) :
    LinksFaithful next projections none := by
  obtain ⟨stub, unscoped, shape⟩ := upgradeRow_ok upgraded
  have facts : next.eventLink = log.eventLink := by rw [shape]
  have now : ∀ old ∈ log.events, old.eventId = row.eventId → old = row := fun old inOld named =>
    Table.eq_of_key inOld inLog named
  -- a held row is still there, with its scope where a link has copied it
  have follow : ∀ held ∈ log.events,
      (held.eventId = row.eventId → scopeRef.getD publicScope = publicScope) →
      ∃ later ∈ next.events, later.eventId = held.eventId ∧
        endpointScope later = endpointScope held := by
    intro held heldIn unchanged
    by_cases mine : held.eventId = row.eventId
    · refine ⟨held.upgraded scopeRef, (upgradeRow_mem upgraded).mpr (.inl ⟨held, heldIn, mine, rfl⟩),
        rfl, ?_⟩
      rw [now held heldIn mine]
      unfold endpointScope
      rw [unscoped]
      exact unchanged mine
    · exact ⟨held, (upgradeRow_mem upgraded).mpr (.inr ⟨heldIn, mine⟩), rfl, rfl⟩
  refine ⟨?_, ?_, ?_, ?_, ?_⟩
  · rw [facts]
    exact faithful.recorded
  · intro link inLinks
    obtain ⟨fact, first, held, heldIn, heldNamed, whole, asserter⟩ := faithful.asserted link inLinks
    refine ⟨fact, ?_, held, (upgradeRow_mem upgraded).mpr (.inr ⟨heldIn, fun mine => ?_⟩), heldNamed,
      whole, asserter⟩
    · unfold Log.firstAssertion
      rw [facts]
      exact first
    · rw [now held heldIn mine, stub] at whole
      cases whole
  · intro link inLinks resolved
    obtain ⟨held, heldIn, heldNamed, scope⟩ := faithful.target link inLinks resolved
    obtain ⟨later, laterIn, laterNamed, laterScope⟩ := follow held heldIn fun mine =>
      same link inLinks (.inl ⟨resolved, heldNamed.symm.trans mine⟩)
    exact ⟨later, laterIn, laterNamed.trans heldNamed, scope.trans laterScope.symm⟩
  · intro link inLinks filled set
    obtain ⟨held, heldIn, heldNamed, scope⟩ := faithful.source link inLinks filled set
    obtain ⟨later, laterIn, laterNamed, laterScope⟩ := follow held heldIn fun mine =>
      same link inLinks (.inr ⟨by rw [Option.mem_def.mp set]; simp, heldNamed.symm.trans mine⟩)
    exact ⟨later, laterIn, laterNamed.trans heldNamed, scope.trans laterScope.symm⟩
  · intro link inLinks empty held heldIn heldNamed
    rcases (upgradeRow_mem upgraded).mp heldIn with ⟨old, oldIn, _, rfl⟩ | ⟨oldIn, _⟩
    · have pending := faithful.absent link inLinks empty old oldIn heldNamed
      cases pending
    · have pending := faithful.absent link inLinks empty held oldIn heldNamed
      cases pending

/-! ## Admission -/

/-- The event leaves no link row with columns that its endpoint's row contradicts: it does not
stay a stub while a held link names it as source, and does not upgrade with a scope a stub
whose columns a link has copied. -/
structure KeepsColumns (receiver : Receiver) (store : Store) (event : Event) : Prop where
  source : event.isStub = true ∨ receiver.unrequested event = true →
    (∀ row ∈ store.log.events, row.eventId ≠ event.eventId) →
    ∀ link ∈ store.projections.eventLinks, link.sourceRef ≠ event.eventId
  upgrade : event.isStub = false → receiver.unrequested event = false →
    ∀ row ∈ store.log.events, row.eventId = event.eventId → row.materialized = false →
    ∀ link ∈ store.projections.eventLinks,
      (link.resolved = true ∧ link.targetRef = event.eventId ∨
        link.source ≠ none ∧ link.sourceRef = event.eventId) →
      event.scopeRef.getD publicScope = publicScope

theorem storedAs_eventId {receiver : Receiver} {event stored : Event}
    (form : StoredAs receiver event stored) : stored.eventId = event.eventId := by
  cases form with
  | whole _ => rfl
  | stub whole _ =>
      unfold withhold
      rw [whole]
      rfl

theorem admitStep_links {receiver : Receiver} {state next : AdmitState} {event : Event}
    (faithful : LinksFaithful state.store.log state.store.projections none)
    (keeps : KeepsColumns receiver state.store event)
    (step : AdmitStep platform receiver state event next) :
    LinksFaithful next.store.log next.store.projections none := by
  cases step with
  | kept log projections _ _ =>
      rw [log, projections]
      exact faithful
  | upgraded row upgrade _ _ =>
      obtain ⟨payload, middle, carried, upgraded, written, reduced⟩ := upgrade.written
      have inLog := rowAt_mem upgrade.found
      have whole : event.isStub = false := by simp [Event.isStub, carried]
      have entered := faithful.upgrade inLog upgraded fun link inLinks copied =>
        keeps.upgrade whole upgrade.requested row inLog upgrade.sameId upgrade.stub link inLinks
          (upgrade.sameId ▸ copied)
      have now : row.upgraded event.scopeRef ∈ middle.events :=
        (upgradeRow_mem upgraded).mpr (.inl ⟨row, inLog, rfl, rfl⟩)
      exact entered.reduce (fun eventId set => absurd set.symm (Option.some_ne_none eventId)) now upgrade.sameId rfl rfl carried
        written reduced
  | inserted stored passed form write _ _ =>
      obtain ⟨log, row, inserted, wrote⟩ := write.written
      have entered := faithful.insert inserted
      obtain ⟨_, _, shape⟩ := inserted.envelope
      rcases wrote with ⟨bare, sameLog, sameProjections⟩ | ⟨payload, carried, written, reduced⟩
      · rw [sameLog, sameProjections]
        refine entered.settle fun link inLinks => ?_
        rw [storedAs_eventId form]
        refine keeps.source ?_ ?_ link inLinks
        · cases form with
          | whole _ => exact .inl (by simp [Event.isStub, bare])
          | stub _ unrequested => exact .inr unrequested
        · intro held heldIn same
          refine inserted.fresh heldIn (same.trans ?_)
          rw [shape]
          exact (storedAs_eventId form).symm
      · refine entered.reduce (fun eventId set => (Option.some.inj set).symm)
          (inserted.mem_iff.mpr (.inr rfl)) ?_ ?_ ?_ carried written reduced
        · rw [shape]
        · rw [shape]
          simp [Event.isStub, carried]
        · rw [shape]

/-! ## Runs -/

section Runs

variable (platform readPayload)

/-- Every event of the call keeps the columns in the state that the events before it leave. -/
def Call.KeepsColumns (store : Store) (call : Call) : Prop :=
  ¬ call.unreduced ∧ ∀ receiver batch, call.offers platform readPayload store receiver batch →
    ∀ clock before event after state, batch = before ++ event :: after →
      before.foldlM (admitOne platform receiver) (AdmitState.start store clock) = .ok state →
      Kawa.KeepsColumns receiver state.store event

end Runs

theorem called_links {store next : Store} {call : Call}
    (faithful : LinksFaithful store.log store.projections none)
    (keeps : call.KeepsColumns platform readPayload store)
    (called : Called platform readPayload store call next) :
    LinksFaithful next.log next.projections none := by
  cases called_cases called with
  | emitted emitter now recordedAt request event row middle requested emitted projections =>
      have entered := faithful.insert emitted.inserted
      rcases projections with ⟨unreduced, _⟩ | ⟨scan, reduced⟩
      · exact absurd unreduced keeps.1
      · obtain ⟨_, _, shape⟩ := emitted.inserted.envelope
        refine entered.reduce (fun eventId set => (Option.some.inj set).symm)
          (emitted.inserted.mem_iff.mpr (.inr rfl)) ?_ ?_ ?_ emitted.minted.payload emitted.payload
          reduced
        · rw [shape]
        · rw [shape]
        · rw [shape]
  | delivered receiver clock batch final offered admitted log projections =>
      rw [log, projections]
      have stepped : ∀ before event after state next, batch = before ++ event :: after →
          before.foldlM (admitOne platform receiver) (AdmitState.start store clock) = .ok state →
          LinksFaithful state.store.log state.store.projections none →
          admitOne platform receiver state event = .ok next →
          LinksFaithful next.store.log next.store.projections none :=
        fun before event after state next split reached kept step =>
          admitStep_links kept (keeps.2 receiver batch offered clock before event after state split
            reached) (admitOne_ok step)
      exact foldlM_history
        (fun state => LinksFaithful state.store.log state.store.projections none) stepped faithful
        admitted

theorem empty_links : LinksFaithful ({} : Store).log ({} : Store).projections none := by
  refine ⟨?_, ?_, ?_, ?_, ?_⟩
  · intro fact held
    cases held
  all_goals
    intro link held
    cases held

/-- In every store that is reached without contradicting the copied columns, a resolved link
is reached by the leaves of an endpoint as the held assertions say, exactly when, for a
viewer of the far endpoint, the assertion that arrived first is consulted if and only if
some held assertion is in scope. -/
theorem link_visible_iff {calls : List Call} {store : Store}
    (run : Run (Run.when (Call.KeepsColumns platform readPayload) (Called platform readPayload)) {}
      calls store)
    (viewer : Finset String) {link : LinkRow} (inLinks : link ∈ store.projections.eventLinks)
    (resolved : link.resolved = true) (direction : Direction) :
    (link.reached viewer direction ↔ store.log.assertedInScope viewer link.triple ∧
      store.log.inScope viewer (link.other direction)) ↔
    (store.log.inScope viewer (link.other direction) →
      (store.log.assertedInScope viewer link.triple ↔
        store.log.firstConsulted viewer link.triple (link.other direction))) := by
  have faithful : LinksFaithful store.log store.projections none :=
    run.invariant (fun store => LinksFaithful store.log store.projections none)
      (fun _ _ _ kept step => called_links kept step.1 step.2) empty_links
  have far : store.log.firstConsulted viewer link.triple (link.other direction) →
      store.log.inScope viewer (link.other direction) := by
    rintro ⟨_, row, inLog, named, consulted⟩
    exact ⟨row, inLog, named, consulted_held consulted⟩
  rw [faithful.reached_iff inLinks resolved]
  constructor
  · intro same seen
    constructor
    · exact fun asserted => same.mpr ⟨asserted, seen⟩
    · exact fun first => (same.mp first).1
  · intro same
    constructor
    · exact fun first => ⟨(same (far first)).mpr first, far first⟩
    · exact fun both => (same both.2).mp both.1

/-! ## Two asserters of one triple -/

namespace Overshadowed

/-- A store that holds the first event of each of some nodes, all of them whole. -/
structure Holds (store : Store) (nodes : List String) : Prop where
  ready : store.log.Ready plainPlatform nodes.length
  unforked : store.security.forkEvidence = ∅
  stamped : store.log.Stamped
  unplanned : ∀ fact, fact ∉ store.log.eventPlan
  origins : ∀ row ∈ store.log.events, row.originNode ∈ nodes
  whole : ∀ row ∈ store.log.events, row.materialized = true

theorem holds_empty : Holds {} [] where
  ready := empty_ready
  unforked := rfl
  stamped row held := by cases held
  unplanned fact held := by cases held
  origins row held := by cases held
  whole row held := by cases held

def delivery (node : String) (event : Event) : Call :=
  .deliver (plainReceiver node none 0) none [event]

theorem delivery_keeps {store : Store} {nodes : List String} (holds : Holds store nodes)
    {node : String} {event : Event} (whole : event.isStub = false) :
    (delivery node event).KeepsColumns plainPlatform (fun _ => none) store := by
  refine ⟨id, ?_⟩
  rintro receiver batch ⟨rfl, rfl⟩ clock before arriving after state split reached
  have alone : before = [] ∧ arriving = event := by
    cases before with
    | nil => exact ⟨rfl, (List.head_eq_of_cons_eq split).symm⟩
    | cons first before =>
        have lengths := congrArg List.length split
        simp at lengths
  obtain ⟨rfl, rfl⟩ := alone
  simp only [List.foldlM_nil, pure_ok] at reached
  subst reached
  constructor
  · rintro (stub | unrequested)
    · rw [whole] at stub
      cases stub
    · cases unrequested
  · intro _ _ row held _ stub
    rw [holds.whole row held] at stub
    cases stub

/-- The first event of a node that has not been heard is stored whole and reduced. -/
theorem Holds.arrival {store : Store} {nodes : List String} (holds : Holds store nodes)
    {node : String} (fresh : node ∉ nodes) {payload : Payload} {scope : Option String} {event : Event}
    (sent : Sent node payload scope event) (unwatched : payload.unwatched = true)
    (unplanned : payload.plan? = none) (writable : payload.Writable plainPlatform) :
    ∃ next middle, Called plainPlatform (fun _ => none) store (delivery node event) next ∧
      Holds next (node :: nodes) ∧
      EventInserted plainPlatform store.log event true 0 (storedRow event 0 true) middle ∧
      insertPayload plainPlatform middle event.eventId payload = .ok next.log ∧
      reduce next.log .stored event store.projections = .ok next.projections := by
  have arrives := sent.arrives
  have headMark : store.log.headMark event.originNode = (0, none) := by
    unfold Log.headMark
    cases found : store.log.head event.originNode with
    | none => rfl
    | some row =>
        obtain ⟨held, same⟩ := head_mem found
        exact absurd (sent.originNode ▸ same ▸ holds.origins row held) fresh
  have parses : (parseHlc event.hlc).isSome = true := by
    rw [arrives.hlc]
    rfl
  have stamped : ∀ {middle : Log}, EventInserted plainPlatform store.log event true 0
      (storedRow event 0 true) middle → middle.Stamped := by
    intro middle inserted row held
    rcases inserted.mem_iff.mp held with old | rfl
    · exact holds.stamped row old
    · exact parses
  have plans : ∀ {middle log : Log}, EventInserted plainPlatform store.log event true 0
      (storedRow event 0 true) middle →
      insertPayload plainPlatform middle event.eventId payload = .ok log →
      ∀ fact, fact ∉ log.eventPlan := by
    intro middle log inserted written fact held
    obtain ⟨_, same⟩ := inserted.appended
    rcases insertPayload_eventPlan written fact held with old | ⟨_, planned, _⟩
    · rw [same] at old
      exact holds.unplanned fact old
    · rw [unplanned] at planned
      cases planned
  obtain ⟨next, middle, called, inserted, written, reduced, security, ready⟩ :=
    arrive_whole holds.ready holds.unforked arrives none 0 (by rw [headMark, sent.originSeq]; rfl)
      (by rw [headMark, sent.prevHash]) rfl unwatched writable
      fun middle log inserted written => by
        have stampedLog : log.Stamped := by
          unfold Log.Stamped
          rw [insertPayload_events written]
          exact stamped inserted
        have set : log.LifecyclesSet := by
          intro row held
          exact absurd held (plans inserted written row)
        refine (reduce_succeeds_iff stampedLog set _ parses arrives.carried _).mpr ?_
        intro planRef planned
        rw [unplanned] at planned
        cases planned
  have events := insertPayload_events written
  refine ⟨next, middle, called,
    ⟨ready, security ▸ holds.unforked, ?_, plans inserted written, ?_, ?_⟩,
    inserted, written, reduced⟩
  · unfold Log.Stamped
    rw [events]
    exact stamped inserted
  · intro row held
    rw [events] at held
    rcases inserted.mem_iff.mp held with old | rfl
    · exact List.mem_cons_of_mem _ (holds.origins row old)
    · exact List.mem_cons.mpr (.inl sent.originNode)
  · intro row held
    rw [events] at held
    rcases inserted.mem_iff.mp held with old | rfl
    · exact holds.whole row old
    · rfl

theorem Holds.first {store : Store} {nodes : List String} (holds : Holds store nodes)
    {node : String} (fresh : node ∉ nodes) {payload : Payload} {scope : Option String} {event : Event}
    (sent : Sent node payload scope event) (unwatched : payload.unwatched = true)
    (unplanned : payload.plan? = none) (writable : payload.Writable plainPlatform) :
    ∃ next, Called plainPlatform (fun _ => none) store (delivery node event) next ∧
      Holds next (node :: nodes) ∧ (∀ row ∈ store.log.events, row ∈ next.log.events) ∧
      storedRow event 0 true ∈ next.log.events ∧
      next.log.eventLink.rows = store.log.eventLink.rows ++ payload.linkFacts event.eventId ∧
      next.log.claimIds = store.log.claimIds ++ payload.claims event.eventId := by
  obtain ⟨next, middle, called, holdsNext, inserted, written, _⟩ :=
    holds.arrival fresh sent unwatched unplanned writable
  have events := insertPayload_events written
  refine ⟨next, called, holdsNext, ?_, ?_, ?_, ?_⟩
  · intro row held
    rw [events]
    exact inserted.mem_iff.mpr (.inl held)
  · rw [events]
    exact inserted.mem_iff.mpr (.inr rfl)
  · rw [insertPayload_linkFacts written]
    obtain ⟨_, same⟩ := inserted.appended
    rw [same]
  · rw [(insertPayload_facts written).1]
    obtain ⟨_, same⟩ := inserted.appended
    rw [same]
    rfl

def link (target : String) : LinkAsserted where
  sourceRef := "source of " ++ target
  relation := .supports
  targetRef := target
  noSelfLink same := by
    have lengths := congrArg String.length same
    rw [String.length_append] at lengths
    have longer : 0 < "source of ".length := by decide
    omega

def triple (target : String) : String × Relation × String :=
  ("source of " ++ target, .supports, target)

theorem link_writable {target : String} (stored : storableText target = true) :
    (Payload.linkAsserted (link target)).Writable plainPlatform := by
  intro log eventId unused
  refine (insertPayload_succeeds_iff unused).mpr ⟨?_, rfl, trivial⟩
  have source : storableText ("source of " ++ target) = true := by
    rw [storableText_append, stored]
    decide
  simp [storableTexts, Payload.texts, link, stored, source]

def fact (target eventId : String) : EventLinkRow where
  eventId := eventId
  sourceRef := "source of " ++ target
  relation := .supports
  targetRef := target

/-- The hidden assertion of a triple arrives before the fleet's, and a claim is its target. -/
theorem reachable : ∃ calls store target, Run (Run.when
      (Call.KeepsColumns plainPlatform fun _ => none) (Called plainPlatform fun _ => none)) {}
      calls store ∧
    (∃ fact, store.log.firstAssertion (triple target) = some fact ∧
      ∃ row ∈ store.log.events, row.eventId = fact.eventId ∧ row.scopeRef = some "hidden") ∧
    store.log.assertedInScope {"fleet"} (triple target) ∧ store.log.inScope {"fleet"} target ∧
    target ∈ store.log.claimIds := by
  obtain ⟨claim, claimSent⟩ : ∃ event, Sent "claims" (.claimRecorded plainClaim) none event :=
    plain_sent (by decide) (by decide) plainClaim_writable none fun scope set => by cases set
  have targetText : storableText claim.eventId = true :=
    (List.all_eq_true.mp claimSent.fits.storable) claim.eventId (by simp [Envelope.texts])
  have writable := link_writable targetText
  obtain ⟨hidden, hiddenSent⟩ : ∃ event,
      Sent "hides" (.linkAsserted (link claim.eventId)) (some "hidden") event :=
    plain_sent (by decide) (by decide) writable _ fun scope set => by
      cases set
      exact ⟨by decide, by decide⟩
  obtain ⟨shown, shownSent⟩ : ∃ event,
      Sent "shows" (.linkAsserted (link claim.eventId)) (some "fleet") event :=
    plain_sent (by decide) (by decide) writable _ fun scope set => by
      cases set
      exact ⟨by decide, by decide⟩
  obtain ⟨one, firstCall, oneHolds, _, claimStored, oneLinks, oneClaims⟩ :=
    holds_empty.first (by decide) claimSent rfl rfl plainClaim_writable
  obtain ⟨two, secondCall, twoHolds, twoKept, hiddenStored, twoLinks, twoClaims⟩ :=
    oneHolds.first (by decide) hiddenSent rfl rfl writable
  obtain ⟨three, thirdCall, _, threeKept, shownStored, threeLinks, threeClaims⟩ :=
    twoHolds.first (by decide) shownSent rfl rfl writable
  have stub : ∀ {node payload scope event}, Sent node payload scope event →
      event.isStub = false := by
    intro node payload scope event sent
    simp [Event.isStub, sent.carried]
  refine ⟨_, three, claim.eventId,
    .cons ⟨delivery_keeps holds_empty (stub claimSent), firstCall⟩ (.cons
      ⟨delivery_keeps oneHolds (stub hiddenSent), secondCall⟩ (.cons
        ⟨delivery_keeps twoHolds (stub shownSent), thirdCall⟩ (.nil _))), ?_, ?_, ?_, ?_⟩
  · refine ⟨fact claim.eventId hidden.eventId, ?_, storedRow hidden 0 true, threeKept _ hiddenStored, rfl,
      hiddenSent.scopeRef⟩
    unfold Log.firstAssertion
    rw [threeLinks, twoLinks, oneLinks]
    exact List.find?_cons_of_pos (decide_eq_true rfl)
  · refine ⟨fact claim.eventId shown.eventId, ?_, rfl, storedRow shown 0 true, shownStored, rfl, ?_⟩
    · rw [← Table.mem_rows, threeLinks]
      exact List.mem_append_right _ (List.mem_singleton_self _)
    · unfold endpointScope
      rw [show (storedRow shown 0 true).scopeRef = some "fleet" from shownSent.scopeRef]
      exact Finset.mem_insert_of_mem (Finset.mem_singleton_self _)
  · refine ⟨storedRow claim 0 true, threeKept _ (twoKept _ claimStored), rfl, ?_⟩
    unfold endpointScope
    rw [show (storedRow claim 0 true).scopeRef = none from claimSent.scopeRef]
    exact Finset.mem_insert_self _ _
  · rw [threeClaims, twoClaims, oneClaims]
    exact List.mem_append_left _ (List.mem_append_left _
      (List.mem_append_right _ (List.mem_singleton_self _)))

/-- The row of the triple that is asserted first, resolved. -/
theorem resolved_row {calls : List Call} {store : Store} {target : String}
    (run : Run (Run.when (Call.KeepsColumns plainPlatform fun _ => none)
      (Called plainPlatform fun _ => none)) {} calls store)
    (asserted : store.log.assertedInScope {"fleet"} (triple target))
    (isClaim : target ∈ store.log.claimIds) :
    LinksFaithful store.log store.projections none ∧
      ∃ row ∈ store.projections.eventLinks, row.triple = triple target ∧ row.resolved = true := by
  have faithful : LinksFaithful store.log store.projections none :=
    run.invariant (fun store => LinksFaithful store.log store.projections none)
      (fun _ _ _ kept step => called_links kept step.1 step.2) empty_links
  obtain ⟨_, sound⟩ : StandingHeld store.log store.projections :=
    run.invariant (fun store => StandingHeld store.log store.projections)
      (fun _ _ _ held step => called_standing held step.1.1 step.2) empty_standing
  obtain ⟨fact, held, named, _⟩ := asserted
  obtain ⟨row, inLinks, same⟩ := faithful.recorded fact held
  have rowTriple : row.triple = triple target := same.trans named
  refine ⟨faithful, row, inLinks, rowTriple, sound.resolved row inLinks ?_⟩
  rw [show row.targetRef = target from congrArg (·.2.2) rowTriple]
  exact isClaim

theorem unconsulted {store : Store} {target : String}
    (first : ∃ fact, store.log.firstAssertion (triple target) = some fact ∧
      ∃ row ∈ store.log.events, row.eventId = fact.eventId ∧ row.scopeRef = some "hidden")
    (far : String) : ¬ store.log.firstConsulted {"fleet"} (triple target) far := by
  rintro ⟨⟨other, found, row, inLog, named, consulted⟩, _⟩
  obtain ⟨fact, first, held, heldIn, heldNamed, scope⟩ := first
  rw [first, Option.some.injEq] at found
  subst found
  rw [Table.eq_of_key inLog heldIn (named.trans heldNamed.symm), scope] at consulted
  have member := consulted_held consulted
  simp [heldScopes, asserterScope, publicScope] at member

/-- The fleet's assertion and the claim are in the viewer's scopes, and no leaf reaches the link. -/
theorem never_reached : ∃ calls store, ∃ link : LinkRow,
    Run (Run.when Call.Reduces (Called plainPlatform fun _ => none)) {} calls store ∧
    link ∈ store.projections.eventLinks ∧ link.resolved = true ∧
    (heldScopes {"fleet"}).card ≤ maxViewerScopes ∧
    ¬ (link.reached {"fleet"} .out ↔ store.log.assertedInScope {"fleet"} link.triple ∧
      store.log.inScope {"fleet"} (link.other .out)) := by
  obtain ⟨calls, store, target, run, first, asserted, seen, isClaim⟩ := reachable
  obtain ⟨faithful, row, inLinks, named, resolved⟩ := resolved_row run asserted isClaim
  have far : row.other .out = target := congrArg (·.2.2) named
  refine ⟨calls, store, row, run.mono fun _ _ _ step => ⟨step.1.1, step.2⟩, inLinks, resolved,
    Finset.card_le_two.trans (by decide), ?_⟩
  rw [faithful.reached_iff inLinks resolved, named, far]
  exact fun same => unconsulted first target (same.mpr ⟨asserted, seen⟩)

/-- The same link, judged by the condition. -/
theorem visible_unless_overshadowed : ∃ calls store, ∃ link : LinkRow,
    Run (Run.when (Call.KeepsColumns plainPlatform fun _ => none)
      (Called plainPlatform fun _ => none)) {} calls store ∧
    ((link.reached {"fleet"} .out ↔ store.log.assertedInScope {"fleet"} link.triple ∧
      store.log.inScope {"fleet"} (link.other .out)) ↔
    (store.log.inScope {"fleet"} (link.other .out) →
      (store.log.assertedInScope {"fleet"} link.triple ↔
        store.log.firstConsulted {"fleet"} link.triple (link.other .out)))) := by
  obtain ⟨calls, store, target, run, _, asserted, _, isClaim⟩ := reachable
  obtain ⟨_, row, inLinks, _, resolved⟩ := resolved_row run asserted isClaim
  exact ⟨calls, store, row, run, link_visible_iff run {"fleet"} inLinks resolved .out⟩

end Overshadowed

end Kawa
