import Kawa.AdmittedLog
import Kawa.ScopeCommitment

/-!
A held stub and the full event that comes for it.  The upgrade goes through unless the stub
came with a cleartext scope, a column refuses the payload, or the event files a lifecycle
change as the latest creation of its plan.
-/

namespace Kawa

open Result

variable {platform : Platform} {readPayload : String → Option Payload} {receiver : Receiver}

/-- The event alone, delivered, is held materialized afterwards. -/
def Materializes (platform : Platform) (receiver : Receiver) (store : Store) (clock : Option HLC)
    (event : Event) : Prop :=
  ∃ final, admitBatch platform receiver store clock [event] = .ok final ∧
    ∃ row ∈ final.store.log.events, row.eventId = event.eventId ∧ row.materialized = true

/-- A lifecycle change that its envelope calls the creation of a plan is not the latest
creation of that plan. -/
def Log.Outdates (log : Log) (event : Event) : Prop :=
  ∀ p, event.payload = some (.planLifecycleChanged p) → event.kind = .planCreated →
    ∃ other ∈ log.creations p.planRef, event.causalKey < other.1.causalKey

/-- What the columns and the reduction ask of a stub and of the event that upgrades it. -/
structure Log.Accommodates (platform : Platform) (log : Log) (held : EventRow) (event : Event)
    (payload : Payload) : Prop where
  unscoped : held.scopeRef = none
  scope : storableTexts (textsOf event.scopeRef) = true
  payload : payload.Storable platform
  outdated : log.Outdates event

theorem upgradeRow_succeeds_iff {log : Log} {held : EventRow} {scopeRef : Option String}
    (stub : held.materialized = false) :
    (∃ next, upgradeRow log held scopeRef = .ok next) ↔
      storableTexts (textsOf scopeRef) = true ∧ held.scopeRef = none := by
  have permitted : (!held.materialized && held.scopeRef.isNone) = true ↔ held.scopeRef = none := by
    simp [stub]
  rw [← permitted]
  exact require_bind_succeeds.trans (and_congr_right fun _ =>
    require_bind_succeeds.trans ⟨fun done => done.1, fun condition => ⟨condition, _, rfl⟩⟩)

/-- Where the plans were whole before, what one more event adds is whole exactly when the
event does not pose as the latest creation. -/
theorem plans_written_iff {log next : Log} (admitted : log.Admitted platform) {row : EventRow}
    (held : row ∈ log.events) {event : Event} {payload : Payload}
    (sameId : row.eventId = event.eventId) (key : row.causalKey = event.causalKey)
    (kind : row.kind = event.kind) (carried : event.payload = some payload)
    (written : insertPayload platform log event.eventId payload = .ok next) :
    (∀ planRef, payload.plan? = some planRef → next.PlanWhole planRef) ↔ log.Outdates event := by
  have events := insertPayload_events written
  have alone : ∀ other ∈ next.events, other.eventId = event.eventId → other = row := by
    intro other member same
    rw [events] at member
    exact Table.eq_of_key member held (same.trans sameId.symm)
  constructor
  · intro whole p isChange misfiled
    rw [carried, Option.some.injEq] at isChange
    subst isChange
    obtain ⟨fact, stored, named, id, bare⟩ : ∃ fact ∈ next.eventPlan, fact.planRef = p.planRef ∧
        fact.eventId = event.eventId ∧ fact.objective = none := by
      simp only [insertPayload, insertPlanLifecycleChanged, bind_ok, pure_ok] at written
      obtain ⟨table, inserted, rfl⟩ := written
      exact ⟨_, insertRow_mem inserted, rfl, rfl, rfl⟩
    have inNext : (row, fact) ∈ next.creations p.planRef :=
      mem_creations.mpr ⟨stored, named, events ▸ held, sameId.trans id.symm, kind.trans misfiled⟩
    obtain ⟨other, covers, later⟩ := planWhole_iff.mp (whole _ rfl) _ inNext bare
    obtain ⟨otherFact, _, otherNext, otherId, _⟩ := mem_creations.mp covers
    rcases insertPayload_eventPlan written _ otherFact with old | ⟨new, _⟩
    · rw [events] at otherNext
      exact ⟨_, creations_before covers old otherNext (.refl _), key ▸ later⟩
    · rw [alone _ otherNext (otherId.trans new)] at later
      exact absurd later (lt_irrefl _)
  · intro outdated planRef mine
    rw [planWhole_iff]
    intro pair member bare
    obtain ⟨fact, named, inNext, id, isCreated⟩ := mem_creations.mp member
    obtain ⟨other, covers, later⟩ :
        ∃ other ∈ log.creations planRef, pair.1.causalKey < other.1.causalKey := by
      rcases insertPayload_eventPlan written _ fact with old | ⟨new, _, _, change⟩
      · rw [events] at inNext
        exact planWhole_iff.mp (admitted.plans planRef) _
          (creations_before member old inNext (.refl _)) bare
      · obtain ⟨p, rfl⟩ := change bare
        have own := alone _ inNext (id.trans new)
        rw [own] at isCreated
        cases mine
        rw [own, key]
        exact outdated p carried (kind.symm.trans isCreated)
    obtain ⟨now, inCreations, same⟩ := creations_kept
      (fun old inLog => ⟨old, events ▸ inLog, .refl old⟩) (insertPayload_keeps written).eventPlan
      covers
    exact ⟨now, inCreations, by rw [same]; exact later⟩

theorem outdates_upgraded {log next : Log} {held : EventRow} {event : Event}
    (upgraded : upgradeRow log held event.scopeRef = .ok next) :
    next.Outdates event ↔ log.Outdates event := by
  have grows := grows_upgraded (fun _ => False) upgraded
  have tables : next.eventPlan = log.eventPlan := by
    obtain ⟨_, _, rfl⟩ := upgradeRow_ok upgraded
    rfl
  constructor
  · intro outdated p carried kind
    obtain ⟨other, covers, later⟩ := outdated p carried kind
    obtain ⟨fact, _, inNext, _⟩ := mem_creations.mp covers
    obtain ⟨row, inLog, became⟩ := (grows.fresh _ inNext).resolve_right id
    exact ⟨_, creations_before covers (tables ▸ fact) inLog became, became.causalKey ▸ later⟩
  · intro outdated p carried kind
    obtain ⟨other, covers, later⟩ := outdated p carried kind
    obtain ⟨now, inNext, same⟩ := creations_kept grows.kept
      (fun fact held => tables ▸ held) covers
    exact ⟨now, inNext, by rw [same]; exact later⟩

/-! ## The delivery -/

/-- A held stub and the full event that comes for it. -/
structure Awaits (platform : Platform) (receiver : Receiver) (store : Store) (held : EventRow)
    (event : Event) (payload : Payload) : Prop where
  inLog : held ∈ store.log.events
  stub : held.materialized = false
  thawed : ∀ row ∈ store.security.forkEvidence.rows, row.frozen = true →
    row.originNode ≠ held.originNode
  sameId : held.eventId = event.eventId
  carried : event.payload = some payload
  verified : event.verify platform = true
  requested : receiver.unrequested event = false

variable {store : Store} {held : EventRow} {event : Event} {payload : Payload}

theorem Awaits.agree (collisionFree : CollisionFree platform)
    (awaits : Awaits platform receiver store held event payload)
    (stemmed : store.log.Stemmed platform) :
    held.hlc = event.hlc ∧ held.kind = event.kind ∧ held.originNode = event.originNode ∧
      held.originSeq = event.originSeq := by
  obtain ⟨source, sourceVerified, stems⟩ := stemmed held awaits.inLog
  exact (stemmed_same collisionFree stems sourceVerified awaits.verified awaits.sameId).2.2

theorem Awaits.below (collisionFree : CollisionFree platform)
    (awaits : Awaits platform receiver store held event payload)
    (stemmed : store.log.Stemmed platform) :
    event.originSeq ≤ (store.log.headMark event.originNode).1 := by
  obtain ⟨_, _, node, seq⟩ := awaits.agree collisionFree stemmed
  rw [← node, ← seq]
  exact headMark_ge awaits.inLog

/-- A row is what is found at its position. -/
theorem Log.Admitted.rowAt {log : Log} (admitted : log.Admitted platform) {row : EventRow}
    (held : row ∈ log.events) : log.rowAt row.originNode row.originSeq = some row := by
  cases found : log.rowAt row.originNode row.originSeq with
  | none =>
      have absent := List.find?_eq_none.mp found row held
      simp at absent
  | some other =>
      have named := List.find?_some found
      simp only [Bool.decide_and, Bool.and_eq_true, decide_eq_true_eq] at named
      rw [admitted.positions other (rowAt_mem found) row held named.1 named.2]

/-- The delivery materializes the stub exactly when its three writes go through. -/
theorem materializes_iff (collisionFree : CollisionFree platform)
    (admitted : store.log.Admitted platform) (clock : Option HLC)
    (awaits : Awaits platform receiver store held event payload) :
    Materializes platform receiver store clock event ↔
      ∃ middle log projections, upgradeRow store.log held event.scopeRef = .ok middle ∧
        insertPayload platform middle event.eventId payload = .ok log ∧
        reduce log receiver.ambient.scan event store.projections = .ok projections := by
  obtain ⟨_, _, node, seq⟩ := awaits.agree collisionFree admitted.stemmed
  have below := awaits.below collisionFree admitted.stemmed
  constructor
  · rintro ⟨final, done, row, inFinal, sameId, whole⟩
    simp only [admitBatch, List.foldlM_cons, List.foldlM_nil, bind_ok, pure_ok] at done
    obtain ⟨_, step, rfl⟩ := done
    cases admitOne_ok step with
    | kept log _ _ _ =>
        rw [log] at inFinal
        rw [Table.eq_of_key inFinal awaits.inLog (sameId.trans awaits.sameId.symm),
          awaits.stub] at whole
        cases whole
    | upgraded old upgrade _ _ =>
        obtain ⟨other, middle, carried, rowDone, written, reduced⟩ := upgrade.written
        have same : old = held := Table.eq_of_key (rowAt_mem upgrade.found) awaits.inLog
          (upgrade.sameId.trans awaits.sameId.symm)
        rw [awaits.carried, Option.some.injEq] at carried
        subst carried
        subst same
        exact ⟨middle, _, _, rowDone, written, reduced⟩
    | inserted stored passed _ _ _ _ =>
        have next := passed.next
        rw [headsAgree_start] at next
        exact absurd below (not_le.mpr (next ▸ Int.lt_succ _))
  · rintro ⟨middle, log, projections, upgraded, written, reduced⟩
    have found : store.log.rowAt event.originNode event.originSeq = some held := by
      rw [← node, ← seq]
      exact admitted.rowAt awaits.inLog
    have storedNode : storableText event.originNode = true := by
      rw [← node]
      exact admitted.origins held awaits.inLog
    obtain ⟨final, done, same⟩ := deliver_upgrade clock (node ▸ awaits.thawed) below storedNode
      found awaits.sameId awaits.requested awaits.verified awaits.carried upgraded written reduced
    refine ⟨final, done, held.upgraded event.scopeRef, ?_, awaits.sameId, rfl⟩
    rw [same]
    dsimp only
    rw [insertPayload_events written]
    exact (upgradeRow_mem upgraded).mpr (.inl ⟨held, awaits.inLog, rfl, rfl⟩)

/-- The three writes of an upgrade go through exactly when columns, guard and plan fold
accommodate it. -/
theorem upgrade_writes_iff (collisionFree : CollisionFree platform)
    (admitted : store.log.Admitted platform) (inLog : held ∈ store.log.events)
    (stub : held.materialized = false) (sameId : held.eventId = event.eventId)
    (carried : event.payload = some payload) (verified : event.verify platform = true)
    (scan : Scan) (before : Projections) :
    (∃ middle log projections, upgradeRow store.log held event.scopeRef = .ok middle ∧
      insertPayload platform middle event.eventId payload = .ok log ∧
      reduce log scan event before = .ok projections) ↔
      store.log.Accommodates platform held event payload := by
  obtain ⟨source, sourceVerified, stems⟩ := admitted.stemmed held inLog
  obtain ⟨_, _, stamp, kind, node, _⟩ :=
    stemmed_same collisionFree stems sourceVerified verified sameId
  have key : held.causalKey = event.causalKey := by
    unfold Envelope.causalKey
    rw [stamp, node, sameId]
  have parses : (parseHlc event.hlc).isSome = true := stamp ▸ admitted.stamped held inLog
  have unused : event.eventId ∉ store.log.payloadIds := by
    intro named
    obtain ⟨row, rowHeld, same, whole⟩ := admitted.payloads _ named
    rw [Table.eq_of_key rowHeld inLog (same.trans sameId.symm), stub] at whole
    cases whole
  have reduces : ∀ {middle log : Log}, upgradeRow store.log held event.scopeRef = .ok middle →
      insertPayload platform middle event.eventId payload = .ok log →
      ((∃ projections, reduce log scan event before = .ok projections) ↔
        store.log.Outdates event) := by
    intro middle log upgraded written
    have entered := admitted.upgrade collisionFree sameId verified upgraded
    have now : held.upgraded event.scopeRef ∈ middle.events :=
      (upgradeRow_mem upgraded).mpr (.inl ⟨held, inLog, rfl, rfl⟩)
    have stamped : log.Stamped := by
      unfold Log.Stamped
      rw [insertPayload_events written]
      exact entered.stamped
    have lifecycles : log.LifecyclesSet := by
      intro fact member
      rcases insertPayload_eventPlan written fact member with old | ⟨_, _, set, _⟩
      · exact entered.lifecycles fact old
      · exact set
    rw [reduce_succeeds_iff stamped lifecycles _ parses carried, ← outdates_upgraded upgraded]
    exact plans_written_iff entered now sameId key kind carried written
  have untouched : ∀ {middle : Log}, upgradeRow store.log held event.scopeRef = .ok middle →
      event.eventId ∉ middle.payloadIds := by
    intro middle upgraded
    obtain ⟨_, _, rfl⟩ := upgradeRow_ok upgraded
    exact unused
  constructor
  · rintro ⟨middle, log, projections, upgraded, written, reduced⟩
    obtain ⟨scope, unscoped⟩ := (upgradeRow_succeeds_iff stub).mp ⟨middle, upgraded⟩
    exact {
      unscoped := unscoped
      scope := scope
      payload := (insertPayload_succeeds_iff (untouched upgraded)).mp ⟨log, written⟩
      outdated := (reduces upgraded written).mp ⟨projections, reduced⟩ }
  · intro accommodates
    obtain ⟨middle, upgraded⟩ := (upgradeRow_succeeds_iff stub).mpr
      ⟨accommodates.scope, accommodates.unscoped⟩
    obtain ⟨log, written⟩ := (insertPayload_succeeds_iff (untouched upgraded)).mpr
      accommodates.payload
    obtain ⟨projections, reduced⟩ := (reduces upgraded written).mpr accommodates.outdated
    exact ⟨middle, log, projections, upgraded, written, reduced⟩

/-- In every store that admissions have written, the full event of a held stub materializes it
exactly when the stub was stored without a cleartext scope, the columns accept scope and
payload, and the event does not pass a lifecycle change off as its plan's latest creation. -/
theorem stub_upgradable_iff (collisionFree : CollisionFree platform) {calls : List Call}
    (run : Run (Run.when Call.Delivers (Called platform readPayload)) {} calls store)
    (clock : Option HLC) (awaits : Awaits platform receiver store held event payload) :
    Materializes platform receiver store clock event ↔
      store.log.Accommodates platform held event payload := by
  have admitted := run_admitted collisionFree run
  rw [materializes_iff collisionFree admitted clock awaits]
  exact upgrade_writes_iff collisionFree admitted awaits.inLog awaits.stub awaits.sameId
    awaits.carried awaits.verified _ _

/-! ## A stub that came with its scope -/

namespace ScopedStub

theorem verify_withoutPayload {event : Event} (verified : event.verify platform = true) :
    ({ event with payload := none } : Event).verify platform = true := by
  have checked := (Event.verify_iff _ _).mp verified
  rw [Event.verify_iff]
  exact {
    version := checked.version
    scopeless := checked.scopeless
    scopeOpens := checked.scopeOpens
    payloadDigest := rfl
    selfHash := checked.selfHash
    eventId := checked.eventId }

/-- The delivery of an event without its payload. -/
def delivery (event : Event) : Call :=
  .deliver (plainReceiver "node" none 0) none [{ event with payload := none }]

/-- Whatever scopes are requested, a stub is stored as it comes. -/
theorem admitted_stub {event : Event} (arrives : Arrives "node" (.claimRecorded plainClaim) event)
    (seq : event.originSeq = 1) (prev : event.prevHash = none)
    (requestedScopes : Option (List String)) :
    ∃ final, admitBatch plainPlatform (plainReceiver "node" requestedScopes 0) {} none
        [{ event with payload := none }] = .ok final ∧
      final.store.log.events.rows = [storedRow event 0 false] ∧ final.store.security = {} := by
  have ready : ({} : Store).log.Ready plainPlatform 0 := empty_ready
  let stub : Event := { event with payload := none }
  have verified : stub.verify plainPlatform = true := verify_withoutPayload arrives.verified
  obtain ⟨subjectRef, insertable⟩ : ∃ subjectRef, Insertable plainPlatform _ stub subjectRef :=
    insertable_next plainPlatform_collisionFree ready.invariant arrives.fits verified seq
  have inserted := insertEvent_succeeds insertable false 0
  obtain ⟨row, entered⟩ := insertEvent_ok inserted
  obtain ⟨stored, cast, shape⟩ := entered.envelope
  have printed : stored = none := by
    change castSubject plainPlatform event.subjectRef = .ok stored at cast
    rw [arrives.subjectRef] at cast
    cases cast
    rfl
  have same : row = storedRow event 0 false := by
    rw [shape, printed, storedRow, ← arrives.subjectRef]
  have passed : (plainReceiver "node" requestedScopes 0).refusal plainPlatform stub = none := by
    refine refusal_none ?_ verified ⟨arrives.attested.accepted⟩
    simp [TemporalPolicy.admissible, stub, arrives.hlc, plainReceiver]
  have begins : Extends {} stub :=
    { thawed := by
        intro row held
        cases held
      seq := seq
      prev := prev }
  have bare : stub.payload = none := rfl
  obtain ⟨final, done, written⟩ : ∃ final, insertAdmitted plainPlatform
      (plainReceiver "node" requestedScopes 0) (AdmitState.start {} none) stub = .ok final ∧ _ :=
    insertAdmitted_stub _ bare inserted
  refine ⟨final, admitBatch_one ?_, ?_, ?_⟩
  · rw [admitOne_next (begins.continues none) passed]
    exact done
  · rw [written, ← same]
    exact entered.rows
  · rw [written]
    rfl

theorem stored_stub {event : Event} (arrives : Arrives "node" (.claimRecorded plainClaim) event)
    (seq : event.originSeq = 1) (prev : event.prevHash = none) :
    ∃ next, Called plainPlatform (fun _ => none) {} (delivery event) next ∧
      next.log.events.rows = [storedRow event 0 false] ∧ next.security = {} := by
  obtain ⟨final, admitted, rows, security⟩ := admitted_stub arrives seq prev none
  exact ⟨final.store, called_admit admitted, rows, security⟩

theorem mem_of_rows {log : Log} {row : EventRow} (rows : log.events.rows = [row]) :
    row ∈ log.events := by
  rw [← Table.mem_rows, rows]
  exact List.mem_singleton_self row

theorem awaits {event : Event} (arrives : Arrives "node" (.claimRecorded plainClaim) event)
    {store : Store} {held : EventRow} (inLog : held ∈ store.log.events)
    (stub : held.materialized = false) (security : store.security = {})
    (sameId : held.eventId = event.eventId) :
    Awaits plainPlatform (plainReceiver "node" none 0) store held event
      (.claimRecorded plainClaim) where
  inLog := inLog
  stub := stub
  thawed := by
    rw [security]
    intro row held
    cases held
  sameId := sameId
  carried := arrives.carried
  verified := arrives.verified
  requested := rfl

/-- The stub is stored with the scope it came with, and its upgrade is refused. -/
theorem never_upgraded : ∃ calls store held event payload,
    Run (Run.when Call.Delivers (Called plainPlatform fun _ => none)) {} calls store ∧
    Awaits plainPlatform (plainReceiver "node" none 0) store held event payload ∧
    ¬ Materializes plainPlatform (plainReceiver "node" none 0) store none event := by
  obtain ⟨event, sent⟩ := StrippedScope.sent
  obtain ⟨store, called, rows, security⟩ := stored_stub sent.arrives sent.originSeq sent.prevHash
  have inLog := mem_of_rows rows
  have waiting := awaits sent.arrives inLog rfl security rfl
  have run : Run (Run.when Call.Delivers (Called plainPlatform fun _ => none)) {}
      [delivery event] store := .cons ⟨rfl, called⟩ (.nil _)
  refine ⟨_, store, _, event, _, run, waiting, fun materializes => ?_⟩
  obtain ⟨middle, _, _, upgraded, _⟩ := (materializes_iff plainPlatform_collisionFree
    (run_admitted plainPlatform_collisionFree run) none waiting).mp materializes
  have unscoped : event.scopeRef = none := ((upgradeRow_succeeds_iff rfl).mp ⟨middle, upgraded⟩).2
  rw [sent.scopeRef] at unscoped
  cases unscoped

/-- The same stub without its scope. -/
theorem upgraded : ∃ calls store event,
    Run (Run.when Call.Delivers (Called plainPlatform fun _ => none)) {} calls store ∧
    (∃ row ∈ store.log.events, row.eventId = event.eventId ∧ row.materialized = false) ∧
    Materializes plainPlatform (plainReceiver "node" none 0) store none event := by
  obtain ⟨event, sent⟩ := StrippedScope.sent
  obtain ⟨store, called, rows, security⟩ := stored_stub sent.arrives.withoutScope sent.originSeq
    sent.prevHash
  have inLog := mem_of_rows rows
  have run : Run (Run.when Call.Delivers (Called plainPlatform fun _ => none)) {}
      [delivery { event with scopeRef := none }] store := .cons ⟨rfl, called⟩ (.nil _)
  refine ⟨_, store, event, run, ⟨_, inLog, rfl, rfl⟩, ?_⟩
  refine (stub_upgradable_iff plainPlatform_collisionFree run none
    (awaits sent.arrives inLog rfl security rfl)).mpr ⟨rfl, ?_, ⟨by decide, rfl, trivial⟩, ?_⟩
  · rw [sent.scopeRef]
    decide
  · intro p carried
    rw [sent.carried] at carried
    cases carried

end ScopedStub

end Kawa
