import Kawa.BalancedEvidence
import Kawa.EdgeAccount
import Kawa.ScopeSafe
import Kawa.StubUpgrade

/-!
When a retrieval returns.  The anchor lookup, the evidence, the neighborhood and the vector scan
read the payload row of every event that they show, by the kind of the event; an event that is
held without it can be the anchor of an intent.
-/

namespace Kawa

open Result

/-- Every held event has the payload row that its summary reads. -/
def Log.Summarised (log : Log) : Prop :=
  ∀ event ∈ log.events, log.holdsSummary event.eventId = true

theorem Log.Summarised.summary {log : Log} (summarised : log.Summarised)
    (numberText : Json.Double → String) (eventId : String) :
    ∃ summary, summaryOf numberText log eventId = .ok summary := by
  rw [summaryOf_succeeds_iff]
  cases found : log.events.find? eventId with
  | none =>
      unfold Log.holdsSummary
      rw [found]
  | some event =>
      obtain ⟨held, named⟩ := Table.find?_eq_some.mp found
      rw [← named]
      exact summarised event held

section Total

variable {engine : TextEngine} {store : Store} {viewer : Finset String} {index : VectorIndex}
  {embedder : Option Embedder} {repository : Repository}

/-! ## Executors that read summaries -/

/-- A projection anchor has the row that its lookup reads. -/
def BoundIntent.Projected (store : Store) (bound : BoundIntent) : Prop :=
  (∀ ref, bound.anchor = some (.plan, ref) →
      (store.projections.currentPlans.find? ref).isSome = true) ∧
    ∀ ref, bound.anchor = some (.work, ref) →
      (store.projections.currentWork.find? ref).isSome = true

theorem resolveBindings_projected (intent : Intent) :
    (resolveBindings store viewer intent).Projected store := by
  unfold resolveBindings BoundIntent.Projected
  dsimp only
  cases intent.about with
  | none => simp
  | some about =>
      dsimp only
      split_ifs with empty claim event plan work
      · simp
      · simp
      · simp
      · refine ⟨fun ref named => ?_, by simp⟩
        cases named
        exact (Bool.and_eq_true_iff.mp plan).1
      · refine ⟨by simp, fun ref named => ?_⟩
        cases named
        exact (Bool.and_eq_true_iff.mp work).1
      · simp

theorem execAnchor_total (summarised : store.log.Summarised) {bound : BoundIntent}
    (projected : bound.Projected store) (queryClass : QueryClass) :
    ∃ executed, execAnchor engine store viewer bound queryClass = .ok executed := by
  have hydrates : ∀ ref, ∃ record, hydrate engine store queryClass ref ref = .ok record :=
    fun ref => hydrate_succeeds_iff.mpr
      ((summaryOf_succeeds_iff engine.numberText _ _).mp (summarised.summary _ ref))
  unfold execAnchor
  cases anchor : bound.anchor with
  | none => exact ⟨_, rfl⟩
  | some anchored =>
      obtain ⟨kind, ref⟩ := anchored
      cases kind with
      | claimEvent =>
          obtain ⟨record, made⟩ := hydrates ref
          exact ⟨_, bind_ok.mpr ⟨record, made, rfl⟩⟩
      | event =>
          obtain ⟨record, made⟩ := hydrates ref
          exact ⟨_, bind_ok.mpr ⟨record, made, rfl⟩⟩
      | plan =>
          obtain ⟨row, found⟩ := Option.isSome_iff_exists.mp (projected.1 ref anchor)
          exact ⟨_, bind_ok.mpr ⟨row, by rw [found]; rfl, rfl⟩⟩
      | work =>
          obtain ⟨row, found⟩ := Option.isSome_iff_exists.mp (projected.2 ref anchor)
          exact ⟨_, bind_ok.mpr ⟨row, by rw [found]; rfl, rfl⟩⟩

theorem execEvidence_total (summarised : store.log.Summarised) (bound : BoundIntent)
    (queryClass : QueryClass) :
    ∃ executed, execEvidence engine store viewer bound queryClass = .ok executed := by
  unfold execEvidence
  dsimp only
  refine bind_succeeds (mapM_succeeds fun edge _ => hydrate_succeeds_iff.mpr ?_) fun _ => ⟨_, rfl⟩
  exact (summaryOf_succeeds_iff engine.numberText _ _).mp (summarised.summary _ _)

theorem execBoundNeighborhood_total (summarised : store.log.Summarised) (bound : BoundIntent)
    (queryClass : QueryClass) :
    ∃ executed, execBoundNeighborhood engine store viewer bound queryClass = .ok executed := by
  unfold execBoundNeighborhood
  obtain ⟨found, walked⟩ := @execNeighborhood_succeeds engine.numberText engine.order store
    { root := bound.anchorRef
      relationDepth := bound.intent.relationDepth
      backend := queryClass.backend
      classId := queryClass.classId
      budget := queryClass.budget
      viewerScopes := viewer } fun _ edge _ => summarised.summary _ edge.other
  rw [walked]
  exact ⟨_, rfl⟩

theorem scanRow_total (summarised : store.log.Summarised) (queryClass : QueryClass)
    (model origin : String) (scan : VectorScan) (row : EventRow × String) :
    ∃ next, scanRow engine store queryClass model origin scan row = .ok next := by
  obtain ⟨event, similarity⟩ := row
  obtain ⟨summary, read⟩ := summarised.summary engine.numberText event.eventId
  unfold scanRow
  dsimp only
  split_ifs
  · exact ⟨_, rfl⟩
  · exact ⟨_, rfl⟩
  · exact ⟨_, rfl⟩
  · rw [read]
    exact ⟨_, rfl⟩

theorem scanChunks_total (summarised : store.log.Summarised) (queryClass : QueryClass)
    (model origin : String) (chunk fuel : Nat) (rows : List (EventRow × String))
    (scan : VectorScan) :
    ∃ ended, scanChunks engine store queryClass model origin chunk fuel rows scan = .ok ended := by
  induction fuel generalizing rows scan with
  | zero => exact ⟨scan, rfl⟩
  | succ fuel ih =>
      unfold scanChunks
      split
      · cases rows.take chunk with
        | nil => exact ⟨scan, rfl⟩
        | cons first rest =>
            dsimp only
            exact bind_succeeds (foldlM_succeeds (fun state row _ =>
              scanRow_total summarised queryClass model origin state row) scan) (ih _)
      · exact ⟨scan, rfl⟩

theorem execVector_total (summarised : store.log.Summarised) (bound : BoundIntent)
    (queryClass : QueryClass) :
    ∃ executed, execVector engine store viewer index embedder bound queryClass = .ok executed := by
  unfold execVector
  dsimp only
  cases index.indexedModel with
  | none => exact ⟨_, rfl⟩
  | some model =>
      dsimp only
      cases queryVector engine store viewer index embedder bound model with
      | error reason => exact ⟨_, rfl⟩
      | ok found =>
          obtain ⟨vector, anchorEvent⟩ := found
          dsimp only
          generalize (index.ranked vector model (anchorEvent.getD "")).filterMap _ = rows
          obtain ⟨ended, scanned⟩ := @scanChunks_total engine store summarised queryClass model
            (anchorEvent.getD "text") (max (queryClass.budget * 3) 16) (rows.length + 1) rows
            { records := [], seen := (bound.anchor.map (·.2)).toList, capped := false
              cut := [] }
          rw [scanned]
          exact ⟨_, rfl⟩

theorem execute_total (summarised : store.log.Summarised) {bound : BoundIntent}
    (projected : bound.Projected store) (queryClass : QueryClass) :
    ∃ executed, execute engine store viewer index embedder repository bound queryClass =
      .ok executed := by
  unfold execute
  cases queryClass.purpose with
  | anchorLookup => exact execAnchor_total summarised projected queryClass
  | standing => exact ⟨_, rfl⟩
  | repositoryNormative => exact ⟨_, rfl⟩
  | evidence => exact execEvidence_total summarised bound queryClass
  | neighborhood => exact execBoundNeighborhood_total summarised bound queryClass
  | precedent => exact ⟨_, rfl⟩
  | lexical => exact ⟨_, rfl⟩
  | vector => exact execVector_total summarised bound queryClass

theorem retrieveClass_total (summarised : store.log.Summarised) {bound : BoundIntent}
    (projected : bound.Projected store) (state : Bundle × Nat) (queryClass : QueryClass) :
    ∃ next, retrieveClass engine store viewer index embedder repository bound state queryClass =
      .ok next := by
  obtain ⟨bundle, total⟩ := state
  unfold retrieveClass
  dsimp only
  split
  · exact ⟨_, rfl⟩
  · refine bind_succeeds (execute_total summarised projected queryClass) fun executed => ?_
    by_cases empty : executed.records = []
    · rw [if_pos empty]
      exact ⟨_, rfl⟩
    · rw [if_neg empty]
      exact ⟨_, rfl⟩

/-- Where every held event has its payload row, every intent is answered. -/
theorem retrieve_total (summarised : store.log.Summarised) (intent : Intent) :
    ∃ bundle, retrieve engine store viewer index embedder repository intent = .ok bundle := by
  obtain ⟨plan, compiled⟩ := compilePlan_succeeds (resolveBindings store viewer intent)
  have bound : plan.bound = resolveBindings store viewer intent := (compilePlan_total compiled).2
  have projected : plan.bound.Projected store := by
    rw [bound]
    exact resolveBindings_projected intent
  obtain ⟨⟨bundle, total⟩, folded⟩ := foldlM_succeeds (fun state queryClass _ =>
    @retrieveClass_total engine store viewer index embedder repository summarised plan.bound
      projected state queryClass)
    (({ plan := plan, skippedClasses := plan.skippedAtCompile } : Bundle), 0)
  refine ⟨bundle, ?_⟩
  unfold retrieve
  rw [compiled]
  dsimp only [Except.mapError, bind, Except.bind]
  rw [folded]
  rfl

end Total

/-! ## An anchor without its payload row -/

section Anchored

variable {engine : TextEngine} {store : Store} {viewer : Finset String} {index : VectorIndex}
  {embedder : Option Embedder} {repository : Repository}

/-- What is asked about one event, bound to it. -/
def boundToEvent (kind : AnchorKind) (eventId : String) : BoundIntent where
  intent := Leaked.intent eventId
  anchor := some (kind, eventId)
  unboundText := none

/-- The classes of an event's anchor, in the order in which they run. -/
def anchorTiers : AnchorKind → List Purpose
  | .claimEvent => [.anchorLookup, .standing, .repositoryNormative, .evidence, .neighborhood,
      .precedent, .vector]
  | _ => [.anchorLookup, .repositoryNormative, .neighborhood, .precedent, .vector]

/-- A limit of one is spent on the anchor. -/
theorem planned_anchor {kind : AnchorKind} (named : kind = .claimEvent ∨ kind = .event)
    (eventId : String) : ∃ plan queryClass, compilePlan (boundToEvent kind eventId) = .ok plan ∧
      plan.queryClasses = [queryClass] ∧ queryClass.purpose = .anchorLookup ∧
      queryClass.ftsReason = none ∧ plan.bound = boundToEvent kind eventId := by
  have some_purpose : purposesOf (boundToEvent kind eventId) ≠ [] := by
    rw [show purposesOf (boundToEvent kind eventId) = purposesOf (boundToEvent kind "") from rfl]
    rcases named with rfl | rfl <;> decide
  have tiers : tierOrder (purposesOf (boundToEvent kind eventId)) =
      (anchorTiers kind).map fun purpose => (purpose, none) := by
    rw [show purposesOf (boundToEvent kind eventId) = purposesOf (boundToEvent kind "") from rfl]
    rcases named with rfl | rfl <;> decide
  have apportioned : apportion (wantsOf (boundToEvent kind eventId))
      (((anchorTiers kind).map fun purpose => (purpose, (none : Option FtsReason))).map (·.1)) 1 =
        [(.anchorLookup, 1)] := by
    rw [show wantsOf (boundToEvent kind eventId) = wantsOf (boundToEvent kind "") from rfl]
    rcases named with rfl | rfl <;> decide
  unfold compilePlan
  dsimp only
  rw [tiers, show (boundToEvent kind eventId).intent.limit.toNat = 1 from rfl, apportioned,
    if_neg some_purpose]
  rcases named with rfl | rfl <;> exact ⟨_, _, rfl, rfl, rfl, rfl, rfl⟩

/-- An event whose payload row is missing cannot be asked about. -/
theorem retrieve_raises {event : EventRow} (held : event ∈ store.log.events)
    (named : event.eventId ≠ "") (visible : event.visible viewer = true)
    (bare : store.log.holdsSummary event.eventId = false) :
    ¬∃ bundle, retrieve engine store viewer index embedder repository
      (Leaked.intent event.eventId) = .ok bundle := by
  rintro ⟨bundle, returned⟩
  have seen : visibleEvent store viewer event.eventId = true :=
    visibleEvent_of (Table.find?_of_mem held) visible
  obtain ⟨kind, kinds, bound⟩ : ∃ kind : AnchorKind, (kind = .claimEvent ∨ kind = .event) ∧
      resolveBindings store viewer (Leaked.intent event.eventId) =
        boundToEvent kind event.eventId := by
    cases claim : (store.log.eventClaim.find? event.eventId).isSome with
    | true =>
        refine ⟨.claimEvent, .inl rfl, ?_⟩
        simp [resolveBindings, Leaked.intent, boundToEvent, named, claim, seen]
    | false =>
        refine ⟨.event, .inr rfl, ?_⟩
        simp [resolveBindings, Leaked.intent, boundToEvent, named, claim, seen]
  obtain ⟨plan, queryClass, compiled, classes, purpose, unlexical, same⟩ :=
    planned_anchor kinds event.eventId
  have raises : ¬∃ record, hydrate engine store queryClass event.eventId event.eventId =
      .ok record := by
    rw [hydrate_succeeds_iff, bare]
    exact Bool.false_ne_true
  have ran : ∃ executed, execute engine store viewer index embedder repository plan.bound
      queryClass = .ok executed := by
    unfold retrieve at returned
    rw [bound, compiled] at returned
    obtain ⟨own, planned, returned⟩ := bind_ok.mp returned
    cases planned
    obtain ⟨⟨_, _⟩, folded, _⟩ := bind_ok.mp returned
    rw [mapError_ok, classes, List.foldlM_cons] at folded
    obtain ⟨next, first, _⟩ := bind_ok.mp folded
    unfold retrieveClass at first
    dsimp only at first
    rw [if_neg (by rw [unlexical]; simp)] at first
    obtain ⟨executed, ran, _⟩ := bind_ok.mp first
    exact ⟨executed, ran⟩
  obtain ⟨executed, ran⟩ := ran
  unfold execute execAnchor at ran
  rw [purpose, same] at ran
  rcases kinds with rfl | rfl
  · obtain ⟨record, hydrated, _⟩ := bind_ok.mp ran
    exact raises ⟨record, hydrated⟩
  · obtain ⟨record, hydrated, _⟩ := bind_ok.mp ran
    exact raises ⟨record, hydrated⟩

end Anchored

/-! ## Reached stores -/

/-- An event id is a digest, and never empty. -/
theorem run_named {platform : Platform} {readPayload : String → Option Payload}
    {calls : List Call} {store : Store} (run : Run (Called platform readPayload) {} calls store) :
    ∀ row ∈ store.log.events, row.eventId ≠ "" := by
  have step : ∀ {log next : Log} {event : Event} {materialized : Bool} {recordedAt : Int}
      {row : EventRow}, (∀ held ∈ log.events, held.eventId ≠ "") →
      EventInserted platform log event materialized recordedAt row next →
      event.verify platform = true → ∀ held ∈ next.events, held.eventId ≠ "" := by
    intro log next event materialized recordedAt row named inserted verified held member
    rcases inserted.mem_iff.mp member with old | rfl
    · exact named held old
    · obtain ⟨_, _, shape⟩ := inserted.envelope
      rw [shape]
      exact Leaked.named verified
  refine run.invariant (fun store => ∀ row ∈ store.log.events, row.eventId ≠ "") ?_
    fun row held => by cases held
  intro state call next named called
  cases called_cases called with
  | emitted emitter now recordedAt request event row middle requested emitted projections =>
      intro held member
      rw [insertPayload_events emitted.payload] at member
      exact step named emitted.inserted emitted.minted.verified held member
  | delivered receiver clock batch final offered admitted log projections =>
      rw [log]
      refine admitBatch_invariant (fun state => ∀ row ∈ state.store.log.events, row.eventId ≠ "")
        (fun state event next _ kept admits => ?_) named admitted
      cases admits with
      | kept log projections _ _ =>
          rw [log]
          exact kept
      | upgraded row upgrade _ _ =>
          obtain ⟨payload, middle, carried, upgraded, written, reduced⟩ := upgrade.written
          intro held member
          rw [insertPayload_events written] at member
          rcases (upgradeRow_mem upgraded).mp member with ⟨old, inLog, _, rfl⟩ | ⟨inLog, _⟩
          · exact kept old inLog
          · exact kept held inLog
      | inserted stored passed form write _ _ =>
          obtain ⟨log, row, inserted, wrote⟩ := write.written
          have verified : stored.verify platform = true := by
            cases form with
            | whole _ => exact passed.verified
            | stub _ _ => exact withhold_verify passed.verified
          have after := step kept inserted verified
          rcases wrote with ⟨_, sameLog, _⟩ | ⟨payload, carried, written, reduced⟩
          · rw [sameLog]
            exact after
          · intro held member
            rw [insertPayload_events written] at member
            exact after held member

/-- In a store that is reached, every intent of every viewer is answered exactly where no held
event lacks the payload row that its summary reads. -/
theorem retrieval_total_iff {platform : Platform} {readPayload : String → Option Payload}
    {calls : List Call} {store : Store} (run : Run (Called platform readPayload) {} calls store)
    (engine : TextEngine) (index : VectorIndex) (embedder : Option Embedder)
    (repository : Repository) :
    (∀ viewer intent, ∃ bundle,
      retrieve engine store viewer index embedder repository intent = .ok bundle) ↔
    store.log.Summarised := by
  constructor
  · intro total event held
    by_contra bare
    rw [Bool.not_eq_true] at bare
    refine retrieve_raises held (run_named run event held) ?_ bare
      (total event.scopeRef.toFinset (Leaked.intent event.eventId))
    unfold EventRow.visible
    cases event.scopeRef <;> simp
  · exact fun summarised viewer intent => retrieve_total summarised intent

namespace BareAnchor

/-- A claim's stub has no payload row where payload rows belong to materialized events. -/
theorem unsummarised {log : Log} {row : EventRow} (rows : log.events.rows = [row])
    (stub : row.materialized = false) (kind : row.kind = .claimRecorded)
    (payloads : ∀ eventId ∈ log.payloadIds,
      ∃ held ∈ log.events, held.eventId = eventId ∧ held.materialized = true) :
    log.holdsSummary row.eventId = false := by
  have held := ScopedStub.mem_of_rows rows
  unfold Log.holdsSummary
  rw [Table.find?_of_mem held]
  dsimp only
  rw [kind]
  dsimp only
  rw [Option.isSome_eq_false_iff, Option.isNone_iff_eq_none, Table.find?_eq_none]
  intro fact inLog named
  have listed : row.eventId ∈ log.eventClaim.rows.map (·.eventId) :=
    List.mem_map.mpr ⟨fact, inLog, named⟩
  obtain ⟨other, inEvents, _, whole⟩ := payloads row.eventId (by
    simp only [Log.payloadIds, List.mem_append]
    tauto)
  rw [← Table.mem_rows, rows, List.mem_singleton] at inEvents
  rw [inEvents, stub] at whole
  cases whole

/-- A claim that is delivered without its payload, then asked about. -/
theorem stub_raises : ∃ (event : Event) (store : Store),
    Called plainPlatform (fun _ => none) {} (ScopedStub.delivery event) store ∧
    ¬∃ bundle, retrieve Bounded.engine store ∅ Bounded.index none Bounded.repository
      (Leaked.intent event.eventId) = .ok bundle := by
  obtain ⟨event, sent⟩ := plain_sent (by decide : "node" ≠ "") (by decide) plainClaim_writable none
    fun scope set => by cases set
  obtain ⟨store, called, rows, _⟩ := ScopedStub.stored_stub sent.arrives sent.originSeq
    sent.prevHash
  have run : Run (Run.when Call.Delivers (Called plainPlatform fun _ => none)) {}
      [ScopedStub.delivery event] store := .cons ⟨rfl, called⟩ (.nil _)
  have bare : store.log.holdsSummary event.eventId = false :=
    unsummarised rows rfl sent.kind (run_admitted plainPlatform_collisionFree run).payloads
  have visible : (storedRow event 0 false).visible ∅ = true := by
    have unscoped : (storedRow event 0 false).scopeRef = none := sent.scopeRef
    unfold EventRow.visible
    rw [unscoped]
    rfl
  have raises : ¬∃ bundle, retrieve Bounded.engine store ∅ Bounded.index none Bounded.repository
      (Leaked.intent (storedRow event 0 false).eventId) = .ok bundle :=
    retrieve_raises (ScopedStub.mem_of_rows rows) (Leaked.named sent.verified) visible bare
  exact ⟨event, store, called, raises⟩

/-- A claim that is delivered whole leaves nothing to miss. -/
theorem whole_answered : ∃ (event : Event) (store : Store),
    Called plainPlatform (fun _ => none) {} (Overshadowed.delivery "node" event) store ∧
    ∀ viewer intent, ∃ bundle, retrieve Bounded.engine store viewer Bounded.index none
      Bounded.repository intent = .ok bundle := by
  obtain ⟨event, sent⟩ := plain_sent (by decide : "node" ≠ "") (by decide) plainClaim_writable none
    fun scope set => by cases set
  obtain ⟨store, middle, called, _, inserted, written, _⟩ :=
    Overshadowed.holds_empty.arrival (by decide) sent rfl rfl plainClaim_writable
  refine ⟨event, store, called, (retrieval_total_iff (.cons called (.nil _)) Bounded.engine
    Bounded.index none Bounded.repository).mpr fun row held => ?_⟩
  have stored := held
  rw [insertPayload_events written] at held
  rcases inserted.mem_iff.mp held with old | rfl
  · cases old
  · have kind : (storedRow event 0 true).kind = .claimRecorded := sent.kind
    unfold Log.holdsSummary
    rw [Table.find?_of_mem stored]
    dsimp only
    rw [kind]
    simp only [insertPayload, insertClaimRecorded, bind_ok, pure_ok] at written
    obtain ⟨claims, added, same⟩ := written
    have inClaims := insertRow_mem added
    rw [← same]
    exact Option.isSome_iff_exists.mpr ⟨_, Table.find?_of_mem inClaims⟩

end BareAnchor

end Kawa
