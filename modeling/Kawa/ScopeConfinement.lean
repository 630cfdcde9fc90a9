import Kawa.Network
import Kawa.StubUpgrade

/-!
A scope over the network: where nodes that are cleared for it grant it only to each other, what
it covers reaches no other node, in whatever order events are relayed.
-/

namespace Kawa

open Result

variable {platform : Platform} {readPayload : String → Option Payload} {scope : String}
  {cleared : String → Prop}

/-- The envelope commits to the scope. -/
def HashedEnvelope.CommitsTo (platform : Platform) (scope : String) (envelope : HashedEnvelope) :
    Prop :=
  envelope.scopeDigest = some (scopeDigestOf platform scope)

/-- The row shows what the scope covers: a payload, or the scope's name. -/
def EventRow.Shows (platform : Platform) (scope : String) (row : EventRow) : Prop :=
  row.CommitsTo platform scope ∧ (row.materialized = true ∨ row.scopeRef.isSome)

def Event.Shows (platform : Platform) (scope : String) (event : Event) : Prop :=
  event.CommitsTo platform scope ∧ (event.payload.isSome ∨ event.scopeRef.isSome)

def WireEvent.Shows (platform : Platform) (scope : String) (wire : WireEvent) : Prop :=
  wire.envelope.CommitsTo platform scope ∧
    (wire.payloadCanonical.isSome ∨ wire.envelope.scopeRef.isSome)

/-- Only cleared nodes write under the scope, they grant it to cleared nodes, and what it covers
reaches the others over the network alone. -/
def NodeAct.Discreet (platform : Platform) (scope : String) (cleared : String → Prop)
    (net : Network) : NodeAct → Prop
  | .write node call => ∀ request, call.emits = some request → request.scopeRef = some scope →
      cleared node
  | .answer source trust request => cleared source → scope ∈ trust.scopeGrants request.node →
      cleared request.node
  | .receive dest _ _ _ wires => ¬ cleared dest → ∀ wire ∈ wires, wire.Shows platform scope →
      (dest, wire) ∈ net.answers

/-! ## What an event discloses -/

/-- A row that shows the scope opens it: its cleartext scope can be no other. -/
theorem stemmed_opens (collisionFree : CollisionFree platform) {row : EventRow} {source : Event}
    (verified : source.verify platform = true) (stems : row.StemsFrom source)
    (commits : row.CommitsTo platform scope) :
    2 ≤ row.envelopeVersion ∧ ∀ named, row.scopeRef = some named → named = scope := by
  have checked := (Event.verify_iff _ _).mp verified
  unfold EventRow.StemsFrom at stems
  unfold HashedEnvelope.CommitsTo at commits
  rw [stems] at commits ⊢
  dsimp only at commits ⊢
  constructor
  · rcases checked.version with one | two
    · rw [(checked.scopeless one).2] at commits
      cases commits
    · exact two.ge
  · intro named cleartext
    have opens := checked.scopeOpens
    simp only [Envelope.scopeOpens, cleartext, commits, Bool.and_eq_true, beq_iff_eq,
      Option.some.injEq] at opens
    exact (scopeDigestOf_injective collisionFree opens.2).symm

/-- One event of a pass discloses nothing that it does not bring. -/
theorem admitStep_shows (collisionFree : CollisionFree platform) {receiver : Receiver}
    {state next : AdmitState} {event : Event} (stemmed : state.store.log.Stemmed platform)
    (step : AdmitStep platform receiver state event next) :
    ∀ now ∈ next.store.log.events, now.Shows platform scope →
      now ∈ state.store.log.events ∨ event.Shows platform scope := by
  intro now held shows
  cases step with
  | kept log _ _ _ =>
      rw [log] at held
      exact .inl held
  | upgraded old upgrade _ _ =>
      obtain ⟨payload, middle, carried, row, written, _⟩ := upgrade.written
      rw [insertPayload_events written] at held
      rcases (upgradeRow_mem row).mp held with ⟨stub, inLog, same, rfl⟩ | ⟨inLog, _⟩
      · obtain ⟨source, verified, stems⟩ := stemmed stub inLog
        have digest := (stemmed_same collisionFree stems verified upgrade.verified
          (same.trans upgrade.sameId)).2.1
        refine .inr ⟨?_, .inl (by rw [carried]; rfl)⟩
        unfold HashedEnvelope.CommitsTo
        rw [← digest]
        exact shows.1
      · exact .inl inLog
  | inserted stored passed form write _ _ =>
      obtain ⟨middle, row, inserted, same⟩ := write.log
      rw [same] at held
      rcases inserted.mem_iff.mp held with old | rfl
      · exact .inl old
      · obtain ⟨_, _, shape⟩ := inserted.envelope
        obtain ⟨commits, visible⟩ := shows
        unfold HashedEnvelope.CommitsTo at commits
        rw [shape] at commits visible
        refine .inr ⟨?_, ?_⟩
        · unfold HashedEnvelope.CommitsTo
          rw [← form.same.1]
          exact commits
        · cases form with
          | whole _ =>
              refine visible.imp (fun whole => ?_) id
              simpa [Event.isStub] using whole
          | stub full _ =>
              -- a withheld event has neither
              have cut : (withhold event).payload = none ∧ (withhold event).scopeRef = none := by
                simp [withhold, full]
              simp [Event.isStub, cut] at visible

theorem admitBatch_shows (collisionFree : CollisionFree platform) {receiver : Receiver}
    {dest : Store} {clock : Option HLC} {batch : List Event} {final : AdmitState}
    (stemmed : dest.log.Stemmed platform)
    (secret : ∀ row ∈ dest.log.events, ¬ row.Shows platform scope)
    (covered : ∀ event ∈ batch, ¬ event.Shows platform scope)
    (admitted : admitBatch platform receiver dest clock batch = .ok final) :
    ∀ row ∈ final.store.log.events, ¬ row.Shows platform scope := by
  have both := admitBatch_invariant (fun state => state.store.log.Stemmed platform ∧
      ∀ row ∈ state.store.log.events, ¬ row.Shows platform scope)
    (fun state event next member held step => ⟨admitStep_stemmed collisionFree held.1 step,
      fun now inNext shows => ?_⟩) ⟨stemmed, secret⟩ admitted
  · exact both.2
  · rcases admitStep_shows collisionFree held.1 step now inNext shows with old | brought
    · exact held.2 now old shows
    · exact covered event member brought

/-! ## Confinement -/

namespace Network

/-- What the scope covers is shown to cleared nodes only. -/
structure Confined (platform : Platform) (scope : String) (cleared : String → Prop)
    (net : Network) : Prop where
  stemmed : ∀ node, (net.stores node).log.Stemmed platform
  rows : ∀ node, ¬ cleared node → ∀ row ∈ (net.stores node).log.events,
    ¬ row.Shows platform scope
  answers : ∀ entry ∈ net.answers, entry.2.Shows platform scope → cleared entry.1

variable {net next : Network}

theorem empty_confined : empty.Confined platform scope cleared where
  stemmed _ := empty_stemmed
  rows _ _ row held := by cases held
  answers entry listed := by cases listed

/-- A wire that shows the scope comes from a row that does, and is granted it. -/
theorem answered_shows (collisionFree : CollisionFree platform) {source : Log}
    {trust : TrustRegistry} {request : PullRequest} {wires : List WireEvent}
    (stemmed : source.Stemmed platform)
    (served : servePost platform source trust request = .ok wires) {wire : WireEvent}
    (member : wire ∈ wires) (shows : wire.Shows platform scope) :
    scope ∈ trust.scopeGrants request.node ∧ ∃ row ∈ source.events, row.Shows platform scope := by
  obtain ⟨row, held, original, event, rebuilt, offering, rfl⟩ := answered_offered served member
  obtain ⟨source, verified, stems⟩ := stemmed row held
  -- a stub goes out without the scope's name
  obtain ⟨payload, carried⟩ : ∃ payload, event.payload = some payload := by
    cases carried : event.payload with
    | some payload => exact ⟨payload, rfl⟩
    | none =>
        have visible := shows.2
        simp [toWire, carried] at visible
  have envelope := rebuildEvent_envelope rebuilt
  have same : event = original := by
    by_contra other
    have stub := offering.stub other
    simp [Event.isStub, carried] at stub
  have commits : row.CommitsTo platform scope := by
    have commits := shows.1
    simp only [toWire, carried] at commits
    rw [same, envelope] at commits
    exact commits
  obtain ⟨version, named⟩ := stemmed_opens collisionFree verified stems commits
  obtain ⟨opened, granted, cleartext⟩ := offering.payload (by rw [carried]; rfl) (by
    rw [same, envelope]
    exact version)
  rw [same, envelope] at cleartext
  rw [← named opened cleartext]
  exact ⟨(List.mem_filter.mp granted).1, row, held, by rw [named opened cleartext]; exact commits,
    .inr (by rw [cleartext]; rfl)⟩

/-- The log of one node is replaced by one that keeps the scope. -/
theorem Confined.grow (confined : net.Confined platform scope cleared) {node : String}
    {store : Store} (stemmed : store.log.Stemmed platform)
    (rows : ¬ cleared node → ∀ row ∈ store.log.events, ¬ row.Shows platform scope) :
    (net.setStore node store).Confined platform scope cleared := by
  refine ⟨?_, ?_, confined.answers⟩
  · exact (net.forall_setStore fun _ after => after.log.Stemmed platform).mpr
      ⟨stemmed, fun other _ => confined.stemmed other⟩
  · exact (net.forall_setStore fun node after => ¬ cleared node →
      ∀ row ∈ after.log.events, ¬ row.Shows platform scope).mpr
        ⟨rows, fun other _ => confined.rows other⟩

theorem Confined.write (collisionFree : CollisionFree platform)
    (confined : net.Confined platform scope cleared) {node : String} {call : Call} {store : Store}
    (discreet : NodeAct.Discreet platform scope cleared net (.write node call))
    (own : call.author = some node)
    (called : Called platform readPayload (net.stores node) call store) :
    (net.setStore node store).Confined platform scope cleared := by
  refine confined.grow (called_stemmed collisionFree (confined.stemmed node) called)
    fun uncleared now held shows => ?_
  obtain ⟨request, event, row, middle, _, emits, digest, _, inserted, events, _⟩ :=
    authored own called
  rw [events] at held
  rcases inserted.mem_iff.mp held with old | rfl
  · exact confined.rows node uncleared now old shows
  · obtain ⟨_, _, shape⟩ := inserted.envelope
    have commits := shows.1
    unfold HashedEnvelope.CommitsTo at commits
    rw [shape] at commits
    dsimp only at commits
    rw [digest, Option.map_eq_some_iff] at commits
    obtain ⟨named, requested, same⟩ := commits
    rw [scopeDigestOf_injective collisionFree same] at requested
    exact uncleared (discreet request emits requested)

theorem Confined.receive (collisionFree : CollisionFree platform)
    (confined : net.Confined platform scope cleared) {dest : String} {receiver : Receiver}
    {clock : Option HLC} {scopes : List String} {wires : List WireEvent} {final : AdmitState}
    (discreet : NodeAct.Discreet platform scope cleared net
      (.receive dest receiver clock scopes wires))
    (pulled : pullHttp platform readPayload receiver (net.stores dest) clock scopes wires =
      .ok final) : (net.setStore dest final.store).Confined platform scope cleared := by
  obtain ⟨admitted, done, same⟩ := pullHttp_ok pulled
  rw [same]
  have stemmed := admitBatch_invariant (fun state => state.store.log.Stemmed platform)
    (fun _ _ _ _ held step => admitStep_stemmed collisionFree held step) (confined.stemmed dest)
    done
  refine confined.grow stemmed fun uncleared =>
    admitBatch_shows collisionFree (confined.stemmed dest) (confined.rows dest uncleared) ?_ done
  intro event member shows
  obtain ⟨wire, arrived, decoded⟩ := mem_decodeWires member
  obtain ⟨envelope, payload⟩ := fromWire_envelope decoded
  have shown : wire.Shows platform scope := by
    obtain ⟨commits, visible⟩ := shows
    rw [envelope] at commits visible
    exact ⟨commits, visible.imp payload id⟩
  exact uncleared (confined.answers _ (discreet uncleared wire arrived shown) shown)

theorem acts_confined (collisionFree : CollisionFree platform) {act : NodeAct}
    (confined : net.Confined platform scope cleared)
    (discreet : act.Discreet platform scope cleared net)
    (acts : Acts platform readPayload net act next) :
    next.Confined platform scope cleared := by
  cases acts with
  | write own called => exact confined.write collisionFree discreet own called
  | receive pulled => exact confined.receive collisionFree discreet pulled
  | @answer source trust request wires served =>
      refine ⟨confined.stemmed, confined.rows, fun entry listed shows => ?_⟩
      rcases List.mem_append.mp listed with old | new
      · exact confined.answers entry old shows
      · obtain ⟨wire, member, rfl⟩ := List.mem_map.mp new
        obtain ⟨granted, row, held, shown⟩ :=
          answered_shows collisionFree (confined.stemmed source) served member shows
        by_cases trusted : cleared source
        · exact discreet trusted granted
        · exact absurd shown (confined.rows source trusted row held)

/-- While cleared nodes grant a scope to each other only, then whatever is sent, relayed,
delayed or repeated: no other node holds a payload under the scope or the scope's name with
it, and none is answered to it. -/
theorem scope_confined (collisionFree : CollisionFree platform) {acts : List NodeAct}
    (run : Run (Run.when (fun net act => act.Discreet platform scope cleared net)
      (Acts platform readPayload)) empty acts net) :
    (∀ node, ¬ cleared node → ∀ row ∈ (net.stores node).log.events,
      row.scopeDigest = some (scopeDigestOf platform scope) →
        row.materialized = false ∧ row.scopeRef = none) ∧
    ∀ entry ∈ net.answers, ¬ cleared entry.1 →
      entry.2.envelope.scopeDigest = some (scopeDigestOf platform scope) →
        entry.2.payloadCanonical = none ∧ entry.2.envelope.scopeRef = none := by
  have confined : net.Confined platform scope cleared :=
    run.invariant (fun net => net.Confined platform scope cleared)
      (fun _ _ _ confined step => acts_confined collisionFree confined step.1 step.2)
      empty_confined
  constructor
  · intro node uncleared row held commits
    have hidden := confined.rows node uncleared row held
    simpa [EventRow.Shows, HashedEnvelope.CommitsTo, commits] using hidden
  · intro entry listed uncleared commits
    have hidden := fun shows => uncleared (confined.answers entry listed shows)
    simpa [WireEvent.Shows, HashedEnvelope.CommitsTo, commits] using hidden

end Network

/-! ## A node outside the scope -/

namespace HeldBack

/-- A cleared node writes under the scope, and another node takes in the stub. -/
theorem relayed : ∃ acts net, Run (Run.when
      (fun net act => act.Discreet plainPlatform "team" (fun node => node = "node") net)
      (Network.Acts plainPlatform Heard.hears)) Network.empty acts net ∧
    (∃ row ∈ (net.stores "node").log.events, row.materialized = true ∧
      row.CommitsTo plainPlatform "team") ∧
    ∃ row ∈ (net.stores "peer").log.events, row.CommitsTo plainPlatform "team" := by
  obtain ⟨log, event, row, middle, done, emitted, _⟩ :=
    plain_emit empty_ready (by decide) (by decide : "node" ≠ "") (by decide) 1 0
      plainClaim_writable (some "team") (by
        rintro scope ⟨⟩
        exact ⟨by decide, by decide⟩)
  have sent := emitted_sent (by decide : "node" ≠ "") done emitted
  obtain ⟨_, _, shape⟩ := emitted.inserted.envelope
  have own : row ∈ log.events := by
    rw [insertPayload_events emitted.payload]
    exact emitted.inserted.mem_iff.mpr (.inr rfl)
  let stub : Event := { event with scopeRef := none, payload := none }
  have stubbed : toWire event true =
      { envelope := stub.toEnvelope
        payloadCanonical := stub.payload.map fun payload =>
          Json.canonicalJson payload.modelDump } := by
    simp [toWire, sent.carried, stub]
  have arrives := sent.arrives.withoutScope
  have decoded : fromWire plainPlatform Heard.hears (toWire event true) = .ok stub := by
    rw [stubbed]
    refine fromWire_event (ScopedStub.verify_withoutPayload arrives.verified) ?_
    rintro payload ⟨⟩
  obtain ⟨final, admitted, rows, _⟩ :=
    ScopedStub.admitted_stub arrives sent.originSeq sent.prevHash (some [])
  have pulled : pullHttp plainPlatform Heard.hears (plainReceiver "node" none 0) {} none []
      [toWire event true] = .ok final := by
    have same : { plainReceiver "node" none 0 with requestedScopes := some [] } =
        plainReceiver "node" (some []) 0 := rfl
    simp only [pullHttp, decodeWires, decoded, same, stub, admitted, bind, Except.bind, pure,
      Except.pure, List.nil_append]
  have written : Network.Acts plainPlatform Heard.hears Network.empty
      (.write "node" (.emit (Emitter.start (plainIdentity "node" (by decide))) true 1 0
        (plainRequest (.claimRecorded plainClaim) (some "team"))))
      (Network.empty.setStore "node" { log := log }) :=
    .write rfl (called_emit done)
  have received : Network.Acts plainPlatform Heard.hears
      (Network.empty.setStore "node" { log := log })
      (.receive "peer" (plainReceiver "node" none 0) none [] [toWire event true])
      ((Network.empty.setStore "node" { log := log }).setStore "peer" final.store) :=
    .receive pulled
  refine ⟨_, _, .cons ⟨?_, written⟩ (.cons ⟨?_, received⟩ (.nil _)), ⟨row, ?_, ?_⟩,
    storedRow { event with scopeRef := none } 0 false, ?_, ?_⟩
  · exact fun _ _ _ => rfl
  · intro _ wire arrived shows
    rw [List.mem_singleton.mp arrived, stubbed] at shows
    simp [WireEvent.Shows, stub] at shows
  · change row ∈ log.events
    exact own
  · rw [shape]
    exact ⟨rfl, sent.scopeDigest⟩
  · rw [Network.setStore_same]
    exact ScopedStub.mem_of_rows rows
  · exact sent.scopeDigest

/-- The other node holds the event that it is not cleared for, without its payload. -/
theorem outsider_confined : ∃ acts net, Run (Run.when
      (fun net act => act.Discreet plainPlatform "team" (fun node => node = "node") net)
      (Network.Acts plainPlatform Heard.hears)) Network.empty acts net ∧
    (∃ row ∈ (net.stores "node").log.events, row.materialized = true ∧
      row.CommitsTo plainPlatform "team") ∧
    ∃ row ∈ (net.stores "peer").log.events, row.CommitsTo plainPlatform "team" ∧
      row.materialized = false ∧ row.scopeRef = none := by
  obtain ⟨acts, net, run, own, row, held, commits⟩ := relayed
  have hidden := (Network.scope_confined plainPlatform_collisionFree run).1 "peer" (by decide) row
    held commits
  exact ⟨acts, net, run, own, row, held, commits, hidden⟩

end HeldBack

end Kawa
