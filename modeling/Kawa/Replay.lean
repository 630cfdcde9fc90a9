import Kawa.ForkDetection
import Kawa.ReplicaAgreement

/-!
A rebuild against the incremental rows.  It reduces every whole event over the log as it is at
the end, from empty tables, so each plan and the standings are folded from facts whose own events
are still to be replayed.
-/

namespace Kawa

open Result Latest

variable {platform : Platform} {readPayload : String → Option Payload}

/-! ## One pass over a list -/

/-- What holds of the items passed so far and the state they leave. -/
theorem foldlM_passed {α β ε : Type} (Inv : List α → β → Prop) {step : β → α → Except ε β}
    {items : List α}
    (preserved : ∀ passed item state next, item ∈ items → Inv passed state →
      step state item = .ok next → Inv (passed ++ [item]) next)
    {start final : β} (holds : Inv [] start) (folded : items.foldlM step start = .ok final) :
    Inv items final := by
  have walk : ∀ rest passed state, (∀ item ∈ rest, item ∈ items) → Inv passed state →
      rest.foldlM step state = .ok final → Inv (passed ++ rest) final := by
    intro rest
    induction rest with
    | nil =>
        intro passed state _ kept done
        simp only [List.foldlM_nil, pure_ok] at done
        rw [List.append_nil]
        exact done ▸ kept
    | cons item rest ih =>
        intro passed state listed kept done
        simp only [List.foldlM_cons, bind_ok] at done
        obtain ⟨middle, first, later⟩ := done
        have next := ih (passed ++ [item]) middle
          (fun other member => listed other (List.mem_cons_of_mem _ member))
          (preserved passed item state middle (listed item List.mem_cons_self) kept first) later
        rwa [List.append_assoc, List.singleton_append] at next
  exact walk items [] start (fun _ member => member) holds folded

/-! ## What is replayed -/

/-- An event that a replay reduces: it is stored, and its payload writes facts of the log. -/
structure Log.Replays (platform : Platform) (log : Log) (event : Event) : Prop where
  stored : ∃ row ∈ log.events, row.eventId = event.eventId
  written : ∀ payload, event.payload = some payload → ∃ solo,
    insertPayload platform {} event.eventId payload = .ok solo ∧
    ∀ fact, solo.States fact → log.States fact

/-- The event of a whole row, put together and verified, carries what was written. -/
theorem rebuilt_payload (collisionFree : CollisionFree platform)
    (doubles : Json.ReadsDoubles platform.readFloat) {log : Log} {row : EventRow}
    {rebuilt : Event} (built : rebuildEvent platform log row = .ok rebuilt)
    (verified : rebuilt.withoutProvenance.verify platform = true) {payload written : Payload}
    (carried : rebuilt.payload = some payload)
    (digested : digest platform written.modelDump = row.payloadDigest) : payload = written := by
  have envelope := rebuildEvent_envelope built
  have own : digest platform payload.modelDump = rebuilt.withoutProvenance.payloadDigest :=
    digested_of_verified verified carried
  have same : rebuilt.payloadDigest = row.payloadDigest :=
    congrArg (fun envelope : Envelope => envelope.payloadDigest) envelope
  exact payload_of_digest collisionFree doubles (own.trans (same.trans digested.symm))

theorem rebuilt_whole {log : Log} {row : EventRow} {rebuilt : Event}
    (built : rebuildEvent platform log row = .ok rebuilt) :
    rebuilt.payload.isSome = row.materialized := by
  unfold rebuildEvent at built
  by_cases whole : row.materialized = true
  · rw [if_pos whole] at built
    simp only [bind_ok, pure_ok] at built
    obtain ⟨payload, _, rfl⟩ := built
    exact whole.symm
  · rw [if_neg whole] at built
    cases built
    exact (Bool.eq_false_iff.mpr whole).symm

section Load

variable {log : Log} {events : List Event} (collisionFree : CollisionFree platform)
  (doubles : Json.ReadsDoubles platform.readFloat) (factual : log.Factual platform)
  (loaded : loadEvents platform log = .ok events)

include collisionFree doubles factual loaded

theorem replays_of_loaded {event : Event} (member : event ∈ events)
    (verified : event.verify platform = true) : log.Replays platform event := by
  obtain ⟨row, held, rebuilt, built, rfl⟩ := mem_loadEvents loaded member
  have named : row.eventId = rebuilt.eventId :=
    congrArg (fun envelope : Envelope => envelope.eventId) (rebuildEvent_envelope built).symm
  refine ⟨⟨row, held, named⟩, fun payload carried => ?_⟩
  have carries : rebuilt.payload = some payload := carried
  have whole : row.materialized = true := by
    rw [← rebuilt_whole built, carries]
    rfl
  obtain ⟨solo, ⟨_, _, written, digested, alone⟩, states⟩ := factual.written row held whole
  have same := rebuilt_payload collisionFree doubles built verified carries digested
  refine ⟨solo, ?_, states⟩
  change insertPayload platform {} rebuilt.eventId payload = .ok solo
  rw [same, ← named]
  exact alone

/-- Every fact is replayed. -/
theorem replayed_of_stated (verified : ∀ event ∈ events, event.verify platform = true)
    {fact : PayloadFact} (stated : log.States fact) :
    ∃ event ∈ events, ∃ payload solo, event.payload = some payload ∧
      insertPayload platform {} event.eventId payload = .ok solo ∧ solo.States fact := by
  obtain ⟨row, solo, ⟨held, whole, written, digested, alone⟩, inSolo⟩ :=
    factual.sourced fact stated
  obtain ⟨event, member, made⟩ := mapM_mem loaded ((List.mem_insertionSort _).mpr held)
  obtain ⟨rebuilt, built, rfl⟩ := map_ok.mp made
  have named : row.eventId = rebuilt.eventId :=
    congrArg (fun envelope : Envelope => envelope.eventId) (rebuildEvent_envelope built).symm
  obtain ⟨payload, carries⟩ := Option.isSome_iff_exists.mp
    ((rebuilt_whole built).trans whole)
  have same := rebuilt_payload collisionFree doubles built (verified _ member) carries digested
  refine ⟨_, member, payload, solo, carries, ?_, inSolo⟩
  change insertPayload platform {} rebuilt.eventId payload = .ok solo
  rw [same, ← named]
  exact alone

end Load

/-! ## Plans -/

/-- The rows are as the whole log says, and every plan that was passed has its row. -/
structure PlansReplayed (log : Log) (passed : List Event) (projections : Projections) : Prop where
  right : ∀ row ∈ projections.currentPlans, ∃ created moved,
    createdOf log row.planRef = some created ∧ movedOf log row.planRef = some moved ∧
      ShowsPlan created moved row
  shown : ∀ event ∈ passed, ∀ payload, event.payload = some payload → ∀ planRef,
    payload.plan? = some planRef → createdOf log planRef ≠ none →
      ∃ row ∈ projections.currentPlans, row.planRef = planRef

theorem PlansReplayed.reduce {log : Log} {passed : List Event} {scan : Scan} {event : Event}
    {payload : Payload} {before after : Projections} (replayed : PlansReplayed log passed before)
    (carried : event.payload = some payload)
    (reduced : Kawa.reduce log scan event before = .ok after) :
    PlansReplayed log (passed ++ [event]) after := by
  obtain ⟨linked, middle, touched, around, own, rest⟩ := reduce_plans carried reduced
  cases planned : payload.plan? with
  | none =>
      have same : after.currentPlans = before.currentPlans :=
        rest.trans ((reducePayload_plans planned own).trans around)
      refine ⟨fun row held => replayed.right row (same ▸ held),
        fun other member theirs carries planRef asks created => ?_⟩
      rw [same]
      rcases List.mem_append.mp member with old | new
      · exact replayed.shown other old theirs carries planRef asks created
      · rw [List.mem_singleton.mp new, carried] at carries
        cases carries
        rw [planned] at asks
        cases asks
  | some moving =>
      have recomputed : recomputePlanState log linked moving = .ok middle := by
        cases payload <;> cases planned
        · obtain ⟨_, done, made⟩ := map_ok.mp own
          cases made
          exact done
        · obtain ⟨_, done, made⟩ := map_ok.mp own
          cases made
          exact done
      rcases recomputePlanState_row recomputed with ⟨uncreated, unmoved⟩ |
        ⟨created, moved, fresh, current, latest, freshNamed, shows, rows⟩
      · have same : after.currentPlans = before.currentPlans := by
          rw [rest, unmoved, around]
        refine ⟨fun row held => replayed.right row (same ▸ held),
          fun other member theirs carries planRef asks created => ?_⟩
        rw [same]
        rcases List.mem_append.mp member with old | new
        · exact replayed.shown other old theirs carries planRef asks created
        · rw [List.mem_singleton.mp new, carried] at carries
          cases carries
          rw [planned] at asks
          cases asks
          exact absurd uncreated created
      · rw [around] at rows
        have held : ∀ row, row ∈ after.currentPlans ↔
            row = fresh ∨ row.planRef ≠ moving ∧ row ∈ before.currentPlans := fun row => by
          rw [rest, rows]
        refine ⟨fun row member => ?_, fun other member theirs carries planRef asks created => ?_⟩
        · rcases (held row).mp member with rfl | ⟨_, old⟩
          · rw [freshNamed]
            exact ⟨created, moved, current, latest, shows⟩
          · exact replayed.right row old
        · by_cases same : planRef = moving
          · exact ⟨fresh, (held fresh).mpr (.inl rfl), freshNamed.trans same.symm⟩
          · rcases List.mem_append.mp member with old | new
            · obtain ⟨row, inBefore, named⟩ :=
                replayed.shown other old theirs carries planRef asks created
              exact ⟨row, (held row).mpr (.inr ⟨fun own => same (named.symm.trans own), inBefore⟩),
                named⟩
            · rw [List.mem_singleton.mp new, carried] at carries
              cases carries
              rw [planned] at asks
              exact absurd (Option.some.inj asks).symm same

/-- When every fact has been replayed the rows are the fold of the log. -/
theorem PlansReplayed.folded {log : Log} {events : List Event} {projections : Projections}
    (replayed : PlansReplayed log events projections)
    (held : ∀ fact ∈ log.eventPlan, ∃ row ∈ log.events, row.eventId = fact.eventId)
    (complete : ∀ fact, log.States fact → ∃ event ∈ events, ∃ payload solo,
      event.payload = some payload ∧
      insertPayload platform {} event.eventId payload = .ok solo ∧ solo.States fact) :
    PlanFolded log projections := by
  refine ⟨held, fun planRef => ?_⟩
  unfold PlanRight
  cases found : createdOf log planRef with
  | none =>
      rintro row member rfl
      obtain ⟨created, _, current, _⟩ := replayed.right row member
      rw [found] at current
      cases current
  | some created =>
      have inRows : created ∈ log.createdRows planRef := (latestOf_isLatest
        (fun fact member => held fact (List.mem_filter.mp member).1) found).1
      obtain ⟨inLog, asked⟩ := List.mem_filter.mp inRows
      obtain ⟨event, member, payload, solo, carries, alone, inSolo⟩ :=
        complete (.planned created) inLog
      have planned : payload.plan? = some planRef := by
        rcases insertPayload_eventPlan alone created inSolo with none | ⟨_, planned, _⟩
        · cases none
        · rw [planned, (of_decide_eq_true asked).1]
      obtain ⟨row, inPlans, rfl⟩ := replayed.shown event member payload carries planRef planned
        (by rw [found]; simp)
      obtain ⟨current, moved, isCurrent, latest, shows⟩ := replayed.right row inPlans
      rw [found] at isCurrent
      cases isCurrent
      exact ⟨moved, latest, row, inPlans, rfl, shows⟩

/-! ## Standings -/

/-- The links are among those of the log and resolved, those that were passed are there, and the
standings of all claims are computed as soon as a claim was passed. -/
structure StandingReplayed (log : Log) (passed : List Event) (projections : Projections) :
    Prop where
  triples : ∀ link ∈ projections.eventLinks, link.triple ∈ log.linkTriples
  resolved : ∀ link ∈ projections.eventLinks, link.targetRef ∈ log.claimIds → link.resolved = true
  placed : ∀ event ∈ passed, ∀ payload, event.payload = some payload →
    ∀ triple ∈ payload.links, ∃ link ∈ projections.eventLinks, link.triple = triple
  standing : (∃ event ∈ passed, ∃ payload, event.payload = some payload ∧
      payload.claims event.eventId ≠ []) →
    ∀ claim ∈ log.claimIds, ∃ row ∈ projections.currentClaimStanding,
      row.claimEventId = claim ∧ row.standing =
        claimStanding log.claimIds log.observationIds (resolvedLinks projections) claim

theorem linkTriples_of_stated {log solo : Log} (states : ∀ fact, solo.States fact → log.States fact)
    {triple : String × Relation × String} (listed : triple ∈ solo.linkTriples) :
    triple ∈ log.linkTriples := by
  obtain ⟨fact, inRows, rfl⟩ := List.mem_map.mp listed
  exact List.mem_map_of_mem (states (.linked fact) inRows)

theorem StandingReplayed.reduce {log : Log} {passed : List Event} {scan : Scan} {event : Event}
    {payload : Payload} {before after : Projections}
    (replayed : StandingReplayed log passed before) (replays : log.Replays platform event)
    (claimed : ∀ claim ∈ log.claimIds, ∃ row ∈ log.events, row.eventId = claim)
    (carried : event.payload = some payload)
    (reduced : Kawa.reduce log scan event before = .ok after) :
    StandingReplayed log (passed ++ [event]) after := by
  simp only [Kawa.reduce, bind_ok] at reduced
  obtain ⟨⟨linked, resolvedAny⟩, held, ⟨middle, touched⟩, own, finished⟩ := reduced
  obtain ⟨parts, row, _, named, resolving⟩ := resolveHeld_ok held replays.stored
  obtain ⟨rows, unresolved, sameStandings⟩ := resolveEndpoints_links resolving
  rw [carried] at own
  have outcome := reducePayload_links own
  obtain ⟨solo, alone, states⟩ := replays.written payload carried
  have ownTriples : ∀ triple ∈ payload.links, triple ∈ log.linkTriples := fun triple listed =>
    linkTriples_of_stated states (by
      rw [(insertPayload_facts alone).2.2]
      exact List.mem_append_right _ listed)
  have inLinked : ∀ link, link ∈ linked.eventLinks ↔
      ∃ old ∈ before.eventLinks, old.resolvedBy parts row = link := fun link => by
    rw [← Table.mem_rows, rows, List.mem_map]
    exact exists_congr fun old => and_congr_left fun _ => Table.mem_rows
  -- a link is one that was there, or the payload's own
  have member : ∀ link ∈ middle.eventLinks, link ∈ linked.eventLinks ∨
      link.triple ∈ payload.links ∧
        ((∃ held ∈ log.events, held.eventId = link.targetRef) → link.resolved = true) := by
    intro link inMiddle
    rcases outcome with ⟨_, _, same⟩ | ⟨_, fresh, only, same, records⟩ | ⟨_, _, _, same, _⟩
    · exact .inl (same ▸ inMiddle)
    · rw [same] at inMiddle
      rcases Table.mem_insertNew.mp inMiddle with old | ⟨rfl, _⟩
      · exact .inl old
      · refine .inr ⟨by rw [only]; exact List.mem_singleton_self _, ?_⟩
        rintro ⟨held, inLog, named⟩
        exact (records.target held inLog named).1
    · exact .inl (same ▸ inMiddle)
  have kept : ∀ link ∈ linked.eventLinks, link ∈ middle.eventLinks := by
    intro link inOld
    rcases outcome with ⟨_, _, same⟩ | ⟨_, _, _, same, _⟩ | ⟨_, _, _, same, _⟩
    · exact same ▸ inOld
    · rw [same]
      exact Table.mem_insertNew.mpr (.inl inOld)
    · exact same ▸ inOld
  have triples : ∀ link ∈ middle.eventLinks, link.triple ∈ log.linkTriples := by
    intro link inMiddle
    rcases member link inMiddle with old | ⟨mine, _⟩
    · obtain ⟨source, inBefore, rfl⟩ := (inLinked link).mp old
      rw [(resolvedBy_became parts row source).1.1]
      exact replayed.triples source inBefore
    · exact ownTriples _ mine
  have resolvedTargets : ∀ link ∈ middle.eventLinks, link.targetRef ∈ log.claimIds →
      link.resolved = true := by
    intro link inMiddle isClaim
    rcases member link inMiddle with old | ⟨_, resolved⟩
    · obtain ⟨source, inBefore, rfl⟩ := (inLinked link).mp old
      obtain ⟨⟨triple, later⟩, _⟩ := resolvedBy_became parts row source
      have target : (source.resolvedBy parts row).targetRef = source.targetRef :=
        congrArg (·.2.2) triple
      exact later (replayed.resolved source inBefore (target ▸ isClaim))
    · exact resolved (claimed _ isClaim)
  have placed : ∀ other ∈ passed ++ [event], ∀ theirs, other.payload = some theirs →
      ∀ triple ∈ theirs.links, ∃ link ∈ middle.eventLinks, link.triple = triple := by
    intro other inPassed theirs carries triple listed
    rcases List.mem_append.mp inPassed with old | new
    · obtain ⟨link, inBefore, same⟩ := replayed.placed other old theirs carries triple listed
      exact ⟨_, kept _ ((inLinked _).mpr ⟨link, inBefore, rfl⟩),
        (resolvedBy_became parts row link).1.1.trans same⟩
    · rw [List.mem_singleton.mp new, carried] at carries
      cases carries
      rcases outcome with ⟨_, none, _⟩ | ⟨_, fresh, only, same, _⟩ | ⟨none, _⟩
      · rw [none] at listed
        cases listed
      · rw [only, List.mem_singleton] at listed
        subst listed
        rw [same]
        by_cases taken : linked.eventLinks.holds fresh.triple = false
        · exact ⟨fresh, Table.mem_insertNew.mpr (.inr ⟨rfl, taken⟩), rfl⟩
        · obtain ⟨link, inOld, sameTriple⟩ :=
            Table.holds_iff.mp (Bool.not_eq_false _ ▸ taken)
          exact ⟨link, Table.mem_insertNew.mpr (.inl inOld), sameTriple⟩
      · rw [none] at listed
        cases listed
  by_cases again : (resolvedAny || touched) = true
  · rw [if_pos again, pure_ok] at finished
    subst finished
    exact ⟨triples, resolvedTargets, placed, fun _ => recomputeStanding_standing log middle⟩
  · rw [if_neg again, pure_ok] at finished
    subst finished
    simp only [Bool.or_eq_true, not_or, Bool.not_eq_true] at again
    refine ⟨triples, resolvedTargets, placed, ?_⟩
    rcases outcome with ⟨isTouched, _⟩ | ⟨isTouched, _⟩ | ⟨_, noClaim, _, same⟩
    · rw [again.2] at isTouched
      cases isTouched
    · rw [again.2] at isTouched
      cases isTouched
    · rintro ⟨other, inPassed, theirs, carries, claims⟩
      have resolvedSame : resolvedLinks middle = resolvedLinks before := by
        rw [← unresolved again.1]
        unfold resolvedLinks
        rw [same.1]
      rw [resolvedSame, same.2, sameStandings]
      refine replayed.standing ?_
      rcases List.mem_append.mp inPassed with old | new
      · exact ⟨other, old, theirs, carries, claims⟩
      · rw [List.mem_singleton.mp new, carried] at carries
        rw [List.mem_singleton.mp new] at claims
        cases carries
        exact absurd noClaim claims

/-- When every fact has been replayed the standings are those of the log. -/
theorem StandingReplayed.sound {log : Log} {events : List Event} {projections : Projections}
    (replayed : StandingReplayed log events projections)
    (complete : ∀ fact, log.States fact → ∃ event ∈ events, ∃ payload solo,
      event.payload = some payload ∧
      insertPayload platform {} event.eventId payload = .ok solo ∧ solo.States fact) :
    StandingSound log projections where
  triples triple := by
    constructor
    · rintro ⟨link, held, rfl⟩
      exact replayed.triples link held
    · intro listed
      obtain ⟨fact, inLog, rfl⟩ := List.mem_map.mp listed
      obtain ⟨event, member, payload, solo, carries, alone, inSolo⟩ :=
        complete (.linked fact) inLog
      refine replayed.placed event member payload carries _ ?_
      have own : fact.triple ∈ solo.linkTriples := List.mem_map_of_mem inSolo
      rw [(insertPayload_facts alone).2.2] at own
      exact (List.mem_append.mp own).resolve_left fun none => by cases none
  resolved := replayed.resolved
  standing claim held := by
    obtain ⟨fact, inLog, _⟩ := List.mem_map.mp held
    obtain ⟨event, member, payload, solo, carries, alone, inSolo⟩ :=
      complete (.claimed fact) inLog
    refine replayed.standing ⟨event, member, payload, carries, fun none => ?_⟩ claim held
    have own : fact.eventId ∈ solo.claimIds := List.mem_map_of_mem inSolo
    rw [(insertPayload_facts alone).1, none] at own
    cases own

/-! ## The rebuild -/

/-- A rebuild passes verified events, and leaves plans and standings folded from all of them. -/
theorem rebuild_replayed (collisionFree : CollisionFree platform)
    (doubles : Json.ReadsDoubles platform.readFloat) {log : Log} {scan : Scan}
    {projections : Projections} (factual : log.Factual platform)
    (claimed : ∀ claim ∈ log.claimIds, ∃ row ∈ log.events, row.eventId = claim)
    (rebuilt : rebuild platform scan log = .ok projections) :
    ∃ events, loadEvents platform log = .ok events ∧
      (∀ event ∈ events, event.verify platform = true) ∧ PlansReplayed log events projections ∧
      StandingReplayed log events projections := by
  simp only [rebuild, bind_ok] at rebuilt
  obtain ⟨events, loaded, folded⟩ := rebuilt
  refine ⟨events, loaded, foldlM_passed (fun passed state =>
    (∀ event ∈ passed, event.verify platform = true) ∧ PlansReplayed log passed state ∧
      StandingReplayed log passed state) ?_ ?_ folded⟩
  · rintro passed event state next member ⟨verified, plans, standings⟩ step
    simp only [bind_ok, require_ok] at step
    obtain ⟨_, own, step⟩ := step
    have all : ∀ other ∈ passed ++ [event], other.verify platform = true := by
      intro other inPassed
      rcases List.mem_append.mp inPassed with old | new
      · exact verified other old
      · rw [List.mem_singleton.mp new]
        exact own
    cases carried : event.payload with
    | none =>
        have stub : event.isStub = true := by simp [Event.isStub, carried]
        rw [if_pos stub, pure_ok] at step
        subst step
        refine ⟨all, ⟨plans.right, fun other inPassed payload carries => ?_⟩, standings.triples,
          standings.resolved, fun other inPassed payload carries => ?_, ?_⟩
        · rcases List.mem_append.mp inPassed with old | new
          · exact plans.shown other old payload carries
          · rw [List.mem_singleton.mp new, carried] at carries
            cases carries
        · rcases List.mem_append.mp inPassed with old | new
          · exact standings.placed other old payload carries
          · rw [List.mem_singleton.mp new, carried] at carries
            cases carries
        · rintro ⟨other, inPassed, payload, carries, claims⟩
          rcases List.mem_append.mp inPassed with old | new
          · exact standings.standing ⟨other, old, payload, carries, claims⟩
          · rw [List.mem_singleton.mp new, carried] at carries
            cases carries
    | some payload =>
        have whole : ¬ event.isStub = true := by simp [Event.isStub, carried]
        rw [if_neg whole] at step
        exact ⟨all, plans.reduce carried step, standings.reduce
          (replays_of_loaded collisionFree doubles factual loaded member own) claimed carried step⟩
  · refine ⟨fun _ none => (by cases none), ⟨fun _ none => (by cases none),
      fun _ none => (by cases none)⟩, ⟨fun _ none => (by cases none),
      fun _ none => (by cases none), fun _ none => (by cases none), ?_⟩⟩
    rintro ⟨_, none, _⟩
    cases none

namespace OneClaim

open Overshadowed

theorem verifies {event : Event} {node : String}
    (sent : Sent node (.claimRecorded plainClaim) none event) :
    Event.verify plainPlatform
      { event.toEnvelope with payload := some (.claimRecorded plainClaim) } = true := by
  obtain ⟨version, scopeless, opens, payloadDigest, selfHash, eventId⟩ :=
    (Event.verify_iff _ _).mp sent.verified
  refine (Event.verify_iff _ _).mpr ⟨version, scopeless, opens, ?_, selfHash, eventId⟩
  unfold Event.derivedDigest at payloadDigest
  rw [sent.carried] at payloadDigest
  exact payloadDigest

end OneClaim

end Kawa
