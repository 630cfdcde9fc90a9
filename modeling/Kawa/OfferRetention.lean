import Kawa.Http
import Kawa.AdmitProgress
import Kawa.ScopeCommitment

/-!
The two halves of the grant algebra.  A source ships a scoped payload only for a scope that
it grants and that was asked for; a receiver materializes only what it asked for.
-/

namespace Kawa

open Result

variable {platform : Platform} {readPayload : String → Option Payload}

/-! ## The offer -/

/-- What a source makes of one event for a viewer: the same event in scope, else a stub. -/
structure OfferedAs (offer : List String) (original served : Event) : Prop where
  eventId : served.eventId = original.eventId
  envelope : served.toHashedEnvelope = original.toHashedEnvelope
  payload : served.payload.isSome → 2 ≤ served.envelopeVersion →
    ∃ scope ∈ offer, served.scopeRef = some scope
  whole : original.envelopeVersion < 2 ∨ original.scopeRef.any (· ∈ offer) → served = original
  stub : served ≠ original → served.isStub = true

theorem withhold_payload (event : Event) : (withhold event).payload = none := by
  unfold withhold
  split
  · rename_i stub
    simpa [Event.isStub] using stub
  · rfl

theorem withhold_envelope (event : Event) :
    (withhold event).toHashedEnvelope = event.toHashedEnvelope ∧
      (withhold event).eventId = event.eventId := by
  unfold withhold
  split <;> exact ⟨rfl, rfl⟩

theorem serveBatch_offered (events : List Event) (offer : List String) :
    List.Forall₂ (OfferedAs offer) events (serveBatch events offer) := by
  refine List.forall₂_map_right_iff.mpr (List.forall₂_same.mpr fun original _ => ?_)
  by_cases shipped : original.envelopeVersion < 2 ∨ original.scopeRef.any (· ∈ offer)
  · rw [if_pos shipped]
    refine ⟨rfl, rfl, fun _ versioned => ?_, fun _ => rfl, fun changed => absurd rfl changed⟩
    rcases shipped with legacy | granted
    · omega
    · cases cleartext : original.scopeRef with
      | none => simp [cleartext] at granted
      | some scope => exact ⟨scope, by simpa [cleartext] using granted, rfl⟩
  · rw [if_neg shipped]
    refine ⟨(withhold_envelope original).2, (withhold_envelope original).1, fun carried => ?_,
      fun whole => absurd whole shipped, fun _ => ?_⟩
    · rw [withhold_payload] at carried
      cases carried
    · rw [Event.isStub, withhold_payload]
      rfl

/-- Both the grants of the source and the request name this scope. -/
def InBoth (granted requested : List String) (scopeRef : Option String) : Prop :=
  ∃ scope, scopeRef = some scope ∧ scope ∈ granted ∧ scope ∈ requested

theorem inBoth_of_offer {granted requested : List String} {scopeRef : Option String}
    (offered : ∃ scope ∈ granted.filter (· ∈ requested), scopeRef = some scope) :
    InBoth granted requested scopeRef := by
  obtain ⟨scope, member, cleartext⟩ := offered
  obtain ⟨inGrants, inRequest⟩ := List.mem_filter.mp member
  exact ⟨scope, cleartext, inGrants, of_decide_eq_true inRequest⟩

/-- A batch as a source serves it: every event that was read, its payload only in scope. -/
def ServedFrom (platform : Platform) (source : Log) (granted requested : List String)
    (batch : List Event) : Prop :=
  ∃ read : List Event,
    (∀ original ∈ read, ∃ row ∈ source.events, rebuildEvent platform source row = .ok original) ∧
    List.Forall₂ (OfferedAs (granted.filter (· ∈ requested))) read batch

theorem servedFrom_serveBatch {source : Log} {stream backfill : List Event}
    {granted requested : List String}
    (streamed : ∀ event ∈ stream, ∃ row ∈ source.events,
      rebuildEvent platform source row = .ok event)
    (backfilled : ∀ event ∈ backfill, ∃ row ∈ source.events,
      rebuildEvent platform source row = .ok event) :
    ServedFrom platform source granted requested
      (serveBatch (stream ++ backfill) (granted.filter (· ∈ requested))) := by
  refine ⟨stream ++ backfill, fun original held => ?_, serveBatch_offered _ _⟩
  rcases List.mem_append.mp held with inStream | inBackfill
  · exact streamed original inStream
  · exact backfilled original inBackfill

theorem ServedFrom.payload {source : Log} {granted requested : List String} {batch : List Event}
    {served : Event} (offering : ServedFrom platform source granted requested batch)
    (member : served ∈ batch) (carried : served.payload.isSome)
    (versioned : 2 ≤ served.envelopeVersion) : InBoth granted requested served.scopeRef := by
  obtain ⟨read, _, offered⟩ := offering
  obtain ⟨same, pairs⟩ := List.forall₂_iff_get.mp offered
  obtain ⟨place, rfl⟩ := List.mem_iff_get.mp member
  have made := pairs place.val (by rw [same]; exact place.isLt) place.isLt
  exact inBoth_of_offer (made.payload carried versioned)

theorem servePull_served {dest source : Log} {trust : TrustRegistry} {node : String}
    {requested : List String} {batch : List Event}
    (done : servePull platform dest source (some trust) (some node) (some requested) = .ok batch) :
    ServedFrom platform source (trust.scopeGrants node) requested batch := by
  cases requested with
  | nil =>
      simp only [servePull, bind_ok, pure_ok] at done
      obtain ⟨stream, read, backfill, rfl, rfl⟩ := done
      exact servedFrom_serveBatch (fun event held => mem_readStream read held)
        fun event held => absurd held List.not_mem_nil
  | cons scope rest =>
      simp only [servePull, bind_ok, pure_ok] at done
      obtain ⟨stream, read, backfill, filled, rfl⟩ := done
      exact servedFrom_serveBatch (fun event held => mem_readStream read held)
        fun event held => mem_readPositions filled held

theorem mem_readBackfill {source : Log} {backfill : Dict String (List Int)} {events : List Event}
    {event : Event} (read : readBackfill platform source backfill = .ok events)
    (member : event ∈ events) : ∃ row ∈ source.events, rebuildEvent platform source row = .ok event := by
  unfold readBackfill at read
  split at read
  · cases read
    cases member
  · exact mem_readPositions read member

theorem servePost_served {source : Log} {trust : TrustRegistry} {request : PullRequest}
    {wires : List WireEvent} (done : servePost platform source trust request = .ok wires) :
    ∃ batch, ServedFrom platform source (trust.scopeGrants request.node) request.scopes batch ∧
      wires = batch.map (toWire · false) := by
  simp only [servePost, bind_ok, pure_ok] at done
  obtain ⟨stream, read, backfill, filled, rfl⟩ := done
  exact ⟨_, servedFrom_serveBatch (fun event inStream => mem_readStream read inStream)
    (fun event inBackfill => mem_readBackfill filled inBackfill), rfl⟩

/-! ## The retention -/

/-- A materialized row: materialized before, or just now from a delivered event. -/
def MaterializedFrom (receiver : Receiver) (before : Log) (batch : List Event) (row : EventRow) :
    Prop :=
  row ∈ before.events ∨ ∃ event ∈ batch, event.payload.isSome ∧
    receiver.unrequested event = false ∧ event.eventId = row.eventId ∧
    event.scopeRef = row.scopeRef ∧ event.envelopeVersion = row.envelopeVersion

theorem admitStep_materialized (collisionFree : CollisionFree platform) {receiver : Receiver}
    {before : Log} {batch : List Event} {state next : AdmitState} {event : Event}
    (member : event ∈ batch) (stemmed : state.store.log.Stemmed platform)
    (holds : ∀ row ∈ state.store.log.events, row.materialized = true →
      MaterializedFrom receiver before batch row)
    (step : AdmitStep platform receiver state event next) :
    ∀ row ∈ next.store.log.events, row.materialized = true →
      MaterializedFrom receiver before batch row := by
  intro now held whole
  cases step with
  | kept log _ _ _ =>
      rw [log] at held
      exact holds now held whole
  | upgraded old upgrade _ _ =>
      obtain ⟨payload, middle, carried, row, written, _⟩ := upgrade.written
      rw [insertPayload_events written] at held
      rcases (upgradeRow_mem row).mp held with ⟨stub, inLog, same, rfl⟩ | ⟨inLog, _⟩
      · obtain ⟨source, sourceVerified, stems⟩ := stemmed stub inLog
        have sameId := same.trans upgrade.sameId
        have version := (stemmed_same collisionFree stems sourceVerified upgrade.verified
          sameId).1.version
        unfold EventRow.StemsFrom at stems
        refine .inr ⟨event, member, by rw [carried]; rfl, upgrade.requested, sameId.symm, rfl, ?_⟩
        change event.envelopeVersion = stub.envelopeVersion
        rw [stems]
        exact version.symm
      · exact holds now inLog whole
  | inserted stored passed form write _ _ =>
      obtain ⟨middle, row, inserted, same⟩ := write.log
      rw [same] at held
      rcases inserted.mem_iff.mp held with old | rfl
      · exact holds now old whole
      · obtain ⟨_, _, shape⟩ := inserted.envelope
        rw [shape] at whole
        cases form with
        | stub full _ => simp [Event.isStub, withhold_payload] at whole
        | whole requested =>
            have carried : event.payload.isSome := by simpa [Event.isStub] using whole
            have full : event.isStub ≠ true := by
              rw [Event.isStub, Option.isNone_eq_false_iff.mpr carried]
              exact Bool.false_ne_true
            refine .inr ⟨event, member, carried, requested.resolve_left full, ?_, ?_, ?_⟩ <;>
              rw [shape]

theorem admitBatch_materialized (collisionFree : CollisionFree platform) {receiver : Receiver}
    {store : Store} {clock : Option HLC} {batch : List Event} {final : AdmitState}
    (stemmed : store.log.Stemmed platform)
    (admitted : admitBatch platform receiver store clock batch = .ok final) :
    ∀ row ∈ final.store.log.events, row.materialized = true →
      MaterializedFrom receiver store.log batch row :=
  (admitBatch_invariant (fun state => state.store.log.Stemmed platform ∧
      ∀ row ∈ state.store.log.events, row.materialized = true →
        MaterializedFrom receiver store.log batch row)
    (fun _ _ _ member held step => ⟨admitStep_stemmed collisionFree held.1 step,
      admitStep_materialized collisionFree member held.1 held.2 step⟩)
    ⟨stemmed, fun _ held _ => .inl held⟩ admitted).2

theorem scope_of_requested {receiver : Receiver} {event : Event} {scopes : List String}
    (asked : receiver.requestedScopes = some scopes) (requested : receiver.unrequested event = false)
    (versioned : 2 ≤ event.envelopeVersion) : ∃ scope ∈ scopes, event.scopeRef = some scope := by
  cases cleartext : event.scopeRef with
  | none => simp [Receiver.unrequested, asked, versioned, cleartext] at requested
  | some scope =>
      simp only [Receiver.unrequested, asked, versioned, cleartext, Option.any_some, decide_true,
        Bool.true_and, Bool.not_eq_false', decide_eq_true_eq] at requested
      exact ⟨scope, requested, rfl⟩

/-- What was materialized and was not before: only scopes of this list. -/
def NewlyScoped (before after : Log) (allowed : Option String → Prop) : Prop :=
  ∀ row ∈ after.events, row.materialized = true → 2 ≤ row.envelopeVersion →
    row ∈ before.events ∨ allowed row.scopeRef

theorem admitBatch_newlyScoped (collisionFree : CollisionFree platform) {receiver : Receiver}
    {store : Store} {clock : Option HLC} {batch : List Event} {final : AdmitState}
    {scopes : List String} (stemmed : store.log.Stemmed platform)
    (asked : receiver.requestedScopes = some scopes)
    (admitted : admitBatch platform receiver store clock batch = .ok final) :
    NewlyScoped store.log final.store.log fun scopeRef => ∃ scope ∈ scopes, scopeRef = some scope := by
  intro row held whole versioned
  rcases admitBatch_materialized collisionFree stemmed admitted row held whole with
    old | ⟨event, _, _, requested, _, sameScope, version⟩
  · exact .inl old
  · rw [← version] at versioned
    rw [← sameScope]
    exact .inr (scope_of_requested asked requested versioned)

theorem pull_newlyScoped (collisionFree : CollisionFree platform) {receiver : Receiver}
    {dest : Store} {source : Log} {clock : Option HLC} {trust : TrustRegistry} {node : String}
    {final : AdmitState} {requested : List String} (stemmed : dest.log.Stemmed platform)
    (asked : receiver.requestedScopes = some requested)
    (pulled : pull platform receiver dest source clock (some trust) (some node) = .ok final) :
    NewlyScoped dest.log final.store.log (InBoth (trust.scopeGrants node) requested) := by
  simp only [pull, bind_ok, asked] at pulled
  obtain ⟨batch, served, admitted⟩ := pulled
  intro row held whole versioned
  rcases admitBatch_materialized collisionFree stemmed admitted row held whole with
    old | ⟨event, member, carried, _, _, sameScope, version⟩
  · exact .inl old
  · rw [← version] at versioned
    rw [← sameScope]
    exact .inr ((servePull_served served).payload member carried versioned)

/-! ## The wire between them -/

theorem fromWire_envelope {wire : WireEvent} {event : Event}
    (decoded : fromWire platform readPayload wire = .ok event) :
    event.toEnvelope = wire.envelope ∧ (event.payload.isSome → wire.payloadCanonical.isSome) := by
  unfold fromWire at decoded
  dsimp only at decoded
  split at decoded
  · cases decoded
  split at decoded
  · cases decoded
  cases hashed : eventHash platform wire.envelope.toHashedEnvelope with
  | none => simp [hashed, throw, throwThe, MonadExceptOf.throw] at decoded
  | some hash =>
      simp only [hashed] at decoded
      split at decoded
      · cases decoded
      cases text : wire.payloadCanonical with
      | none =>
          simp only [text, pure_bind] at decoded
          split at decoded <;> cases decoded
          exact ⟨rfl, fun carried => carried⟩
      | some canonical =>
          cases parsed : readPayload canonical with
          | none => simp [text, parsed, bind_ok, throw, throwThe, MonadExceptOf.throw] at decoded
          | some payload =>
              simp only [text, parsed, pure_bind] at decoded
              split at decoded <;> cases decoded
              exact ⟨rfl, fun _ => rfl⟩

theorem mem_decodeWires {wires : List WireEvent} {event : Event}
    (member : event ∈ (decodeWires platform readPayload wires).1) :
    ∃ wire ∈ wires, fromWire platform readPayload wire = .ok event := by
  induction wires with
  | nil => cases member
  | cons wire wires ih =>
      simp only [decodeWires] at member
      cases decoded : fromWire platform readPayload wire with
      | error _ =>
          rw [decoded] at member
          obtain ⟨other, held, same⟩ := ih member
          exact ⟨other, List.mem_cons_of_mem _ held, same⟩
      | ok first =>
          rw [decoded] at member
          rcases List.mem_cons.mp member with rfl | later
          · exact ⟨wire, List.mem_cons_self, decoded⟩
          · obtain ⟨other, held, same⟩ := ih later
            exact ⟨other, List.mem_cons_of_mem _ held, same⟩

/-- What arrives from an honest source with a payload was served with it. -/
theorem decoded_of_served {source : Log} {trust : TrustRegistry} {request : PullRequest}
    {wires : List WireEvent} {event : Event}
    (answered : servePost platform source trust request = .ok wires)
    (member : event ∈ (decodeWires platform readPayload wires).1) (carried : event.payload.isSome)
    (versioned : 2 ≤ event.envelopeVersion) :
    InBoth (trust.scopeGrants request.node) request.scopes event.scopeRef := by
  obtain ⟨wire, held, decoded⟩ := mem_decodeWires member
  obtain ⟨batch, offered, rfl⟩ := servePost_served answered
  obtain ⟨served, inBatch, rfl⟩ := List.mem_map.mp held
  obtain ⟨envelope, payload⟩ := fromWire_envelope decoded
  have shipped := payload carried
  cases whole : served.payload with
  | none => simp [toWire, whole] at shipped
  | some body =>
      simp only [toWire, whole] at envelope
      rw [envelope] at versioned ⊢
      exact offered.payload inBatch (by rw [whole]; rfl) versioned

theorem pullHttp_ok {receiver : Receiver} {dest : Store} {clock : Option HLC}
    {scopes : List String} {wires : List WireEvent} {final : AdmitState}
    (pulled : pullHttp platform readPayload receiver dest clock scopes wires = .ok final) :
    ∃ admitted, admitBatch platform { receiver with requestedScopes := some scopes } dest clock
      (decodeWires platform readPayload wires).1 = .ok admitted ∧
      final.store = admitted.store := by
  simp only [pullHttp, bind_ok, pure_ok] at pulled
  obtain ⟨admitted, done, rfl⟩ := pulled
  exact ⟨admitted, done, rfl⟩

theorem pullHttp_newlyScoped (collisionFree : CollisionFree platform) {receiver : Receiver}
    {dest : Store} {source : Log} {clock : Option HLC} {trust : TrustRegistry} {node : String}
    {scopes : List String} {wires : List WireEvent} {final : AdmitState}
    (stemmed : dest.log.Stemmed platform)
    (answered : servePost platform source trust (pullRequest platform dest.log node scopes) = .ok wires)
    (pulled : pullHttp platform readPayload receiver dest clock scopes wires = .ok final) :
    NewlyScoped dest.log final.store.log (InBoth (trust.scopeGrants node) scopes) := by
  obtain ⟨admitted, done, same⟩ := pullHttp_ok pulled
  rw [same]
  intro row held whole versioned
  rcases admitBatch_materialized collisionFree stemmed done row held whole with
    old | ⟨event, member, carried, _, _, sameScope, version⟩
  · exact .inl old
  · rw [← version] at versioned
    rw [← sameScope]
    obtain ⟨scope, cleartext, granted, asked⟩ := decoded_of_served answered member carried versioned
    exact .inr ⟨scope, cleartext, granted, (List.mem_insertionSort _).mp asked⟩

end Kawa
