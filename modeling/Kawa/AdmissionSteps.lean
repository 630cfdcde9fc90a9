import Kawa.Admission
import Kawa.CodecRoundTrip

/-!
What one delivered event can do to a store.  Every invariant of admission is proved
from these cases, without opening the admission loop again.
-/

namespace Kawa

open Result

variable {platform : Platform} {receiver : Receiver}

/-- The attestation of an event, accepted at the event's own position. -/
structure Attested (platform : Platform) (keys : PublicKeyRegistry) (trust : TrustRegistry)
    (envelope : Envelope) : Prop where
  accepted : ∃ signature keyRef scheme, envelope.signature = some signature ∧
    envelope.signingKeyRef = some keyRef ∧ envelope.signatureScheme = some scheme ∧
    resolveAndVerifyProvenance platform envelope.selfHash signature keyRef scheme keys = true ∧
    trust.standing keyRef (some envelope.originSeq) = .active ∧
    trust.nodeRef keyRef = some envelope.originNode

/-- What the gates have established of an event that extends its chain. -/
structure Passed (platform : Platform) (receiver : Receiver) (state : AdmitState)
    (event : Event) : Prop where
  next : event.originSeq = (state.head event.originNode).1 + 1
  chained : event.prevHash = (state.head event.originNode).2
  admissible : receiver.temporal.admissible event.hlc receiver.nowMs = none
  verified : event.verify platform = true
  attested : Attested platform receiver.keys receiver.trust event.toEnvelope

/-- The form in which an event that passed is stored. -/
inductive StoredAs (receiver : Receiver) (event : Event) : Event → Prop
  | whole : event.isStub = true ∨ receiver.unrequested event = false → StoredAs receiver event event
  | stub : event.isStub = false → receiver.unrequested event = true →
      StoredAs receiver event (withhold event)

/-- The write of a stored event: its row, then payload row and reduction unless a stub. -/
structure Stored (platform : Platform) (receiver : Receiver) (store : Store) (event : Event)
    (next : Store) : Prop where
  written : ∃ log row, EventInserted platform store.log event (!event.isStub)
      (receiver.ambient.recordedAt event.eventId) row log ∧
    (event.payload = none ∧ next.log = log ∧ next.projections = store.projections ∨
      ∃ payload, event.payload = some payload ∧
        insertPayload platform log event.eventId payload = .ok next.log ∧
        reduce next.log receiver.ambient.scan event store.projections = .ok next.projections)

/-- The upgrade of a held stub: its row, its payload row, its reduction. -/
structure Upgraded (platform : Platform) (receiver : Receiver) (store : Store) (event : Event)
    (held : EventRow) (next : Store) : Prop where
  found : store.log.rowAt event.originNode event.originSeq = some held
  sameId : held.eventId = event.eventId
  stub : held.materialized = false
  unscoped : held.scopeRef = none
  requested : receiver.unrequested event = false
  verified : event.verify platform = true
  written : ∃ payload log, event.payload = some payload ∧
    upgradeRow store.log held event.scopeRef = .ok log ∧
    insertPayload platform log event.eventId payload = .ok next.log ∧
    reduce next.log receiver.ambient.scan event store.projections = .ok next.projections

/-- What one delivered event can do. -/
inductive AdmitStep (platform : Platform) (receiver : Receiver) (state : AdmitState)
    (event : Event) (next : AdmitState) : Prop
  | kept (log : next.store.log = state.store.log)
      (projections : next.store.projections = state.store.projections)
      (heads : next.heads = state.heads) (clock : next.clock = state.clock)
  | upgraded (held : EventRow)
      (upgrade : Upgraded platform receiver state.store event held next.store)
      (heads : next.heads = state.heads) (clock : next.clock = state.clock)
  | inserted (stored : Event) (passed : Passed platform receiver state event)
      (form : StoredAs receiver event stored)
      (write : Stored platform receiver state.store stored next.store)
      (heads : next.heads = state.heads.set stored.originNode (stored.originSeq, stored.selfHash))
      (clock : next.clock = state.clock.map fun clock =>
        updateClock clock stored.hlc (receiver.ambient.wallClock stored.eventId))

theorem attestation_eq_some {event : Event} {signature keyRef scheme : String} :
    event.attestation = some (signature, keyRef, scheme) ↔ event.signature = some signature ∧
      event.signingKeyRef = some keyRef ∧ event.signatureScheme = some scheme := by
  unfold Event.attestation
  cases event.signature <;> cases event.signingKeyRef <;> cases event.signatureScheme <;> simp

theorem refusal_eq_none {event : Event} (admitted : receiver.refusal platform event = none) :
    receiver.temporal.admissible event.hlc receiver.nowMs = none ∧
      event.verify platform = true ∧
      Attested platform receiver.keys receiver.trust event.toEnvelope := by
  unfold Receiver.refusal at admitted
  split at admitted
  · cases admitted
  · rename_i admissible
    split at admitted
    · cases admitted
    · split at admitted
      · cases admitted
      · rename_i verified
        split at admitted
        · cases admitted
        · rename_i signature keyRef scheme attestation
          obtain ⟨signed, named, schemed⟩ := attestation_eq_some.mp attestation
          dsimp only at admitted
          split at admitted
          · cases admitted
          · rename_i accepted
            split at admitted
            · cases admitted
            · rename_i bound
              obtain ⟨provenance, active⟩ := (admits_iff _).mp (by simpa using accepted)
              refine ⟨admissible, by simpa using verified, ⟨signature, keyRef, scheme, signed, named,
                schemed, provenance, active, ?_⟩⟩
              exact not_not.mp bound

theorem upgradeRow_ok {log next : Log} {held : EventRow} {scopeRef : Option String}
    (upgraded : upgradeRow log held scopeRef = .ok next) :
    held.materialized = false ∧ held.scopeRef = none ∧
      next = { log with
        events := log.events.update (·.eventId = held.eventId) (·.upgraded scopeRef)
          fun _ => rfl } := by
  simp only [upgradeRow, bind_ok, require_ok, pure_ok] at upgraded
  obtain ⟨_, _, _, permitted, rfl⟩ := upgraded
  simp only [Bool.and_eq_true, Bool.not_eq_true', Option.isNone_iff_eq_none] at permitted
  exact ⟨permitted.1, permitted.2, rfl⟩

theorem upgradeRow_rows {log next : Log} {held : EventRow} {scopeRef : Option String}
    (upgraded : upgradeRow log held scopeRef = .ok next) :
    next.events.rows = log.events.rows.map fun row =>
      if row.eventId = held.eventId then row.upgraded scopeRef else row := by
  obtain ⟨_, _, rfl⟩ := upgradeRow_ok upgraded
  simp [Table.update]

theorem upgradeRow_mem {log next : Log} {held row : EventRow} {scopeRef : Option String}
    (upgraded : upgradeRow log held scopeRef = .ok next) : row ∈ next.events ↔
      (∃ old ∈ log.events, old.eventId = held.eventId ∧ row = old.upgraded scopeRef) ∨
        (row ∈ log.events ∧ row.eventId ≠ held.eventId) := by
  rw [← Table.mem_rows, upgradeRow_rows upgraded, List.mem_map]
  constructor
  · rintro ⟨old, held, rfl⟩
    split
    · rename_i same
      exact .inl ⟨old, held, same, rfl⟩
    · rename_i other
      exact .inr ⟨held, other⟩
  · rintro (⟨old, held, same, rfl⟩ | ⟨held, other⟩)
    · exact ⟨old, held, if_pos same⟩
    · exact ⟨row, held, if_neg other⟩

theorem rowAt_mem {log : Log} {originNode : String} {originSeq : Int} {row : EventRow}
    (found : log.rowAt originNode originSeq = some row) : row ∈ log.events :=
  List.mem_of_find?_eq_some found

theorem upgradeRow_keeps {log next : Log} {held : EventRow} {scopeRef : Option String}
    (inLog : held ∈ log.events) (upgraded : upgradeRow log held scopeRef = .ok next) :
    log.Keeps next := by
  constructor
  · intro row member whole
    refine (upgradeRow_mem upgraded).mpr (.inr ⟨member, fun same => ?_⟩)
    rw [Table.eq_of_key member inLog same, (upgradeRow_ok upgraded).1] at whole
    cases whole
  all_goals
    obtain ⟨_, _, rfl⟩ := upgradeRow_ok upgraded
    exact fun _ held => held

theorem materialize_ok {scan : Scan} {store next : Store} {event : Event} {payload : Payload}
    (done : materialize platform scan store event payload = .ok next) :
    insertPayload platform store.log event.eventId payload = .ok next.log ∧
      reduce next.log scan event store.projections = .ok next.projections ∧
      next.security = store.security := by
  simp only [materialize, bind_ok, pure_ok] at done
  obtain ⟨log, written, projections, reduced, rfl⟩ := done
  exact ⟨written, reduced, rfl⟩

theorem admitHeld_ok {state next : AdmitState} {event : Event}
    (done : admitHeld platform receiver state event = .ok next) :
    AdmitStep platform receiver state event next := by
  simp only [admitHeld, bind_ok] at done
  obtain ⟨_, _, done⟩ := done
  split at done
  · cases done
    exact .kept rfl rfl rfl rfl
  · rename_i held found
    split at done
    · rename_i sameId
      split at done
      · cases done
        exact .kept rfl rfl rfl rfl
      · rename_i payload carried
        split_ifs at done with materialized unrequested unverified
        · cases done
          exact .kept rfl rfl rfl rfl
        · cases done
          exact .kept rfl rfl rfl rfl
        · cases done
          exact .kept rfl rfl rfl rfl
        · simp only [bind_ok, pure_ok] at done
          obtain ⟨log, row, store, wrote, rfl⟩ := done
          obtain ⟨stub, unscoped, _⟩ := upgradeRow_ok row
          obtain ⟨written, reduced, _⟩ := materialize_ok wrote
          exact .upgraded held
            { found := found
              sameId := sameId
              stub := stub
              unscoped := unscoped
              requested := by simpa using unrequested
              verified := by simpa using unverified
              written := ⟨payload, log, carried, row, written, reduced⟩ } rfl rfl
    · split at done
      · cases done
        exact .kept rfl rfl rfl rfl
      · simp only [bind_ok, pure_ok] at done
        obtain ⟨_, _, rfl⟩ := done
        exact .kept rfl rfl rfl rfl

/-- The genesis watch writes security state and the report only. -/
theorem authorityGenesisWatch_keeps (state : AdmitState) (event : Event) (payload : Payload) :
    let watched := authorityGenesisWatch platform receiver state event payload
    watched.store.log = state.store.log ∧ watched.store.projections = state.store.projections ∧
      watched.heads = state.heads ∧ watched.clock = state.clock ∧
      watched.admitted = state.admitted := by
  have folded : ∀ (authorityKey : String) (configurationDigest : String) (others : List String)
      (state : AdmitState),
      let watched := others.foldl (fun state other =>
        let conflicts := state.store.security.authorityConflict.insertNew
          { authorityKey := authorityKey
            digestA := min other configurationDigest
            digestB := max other configurationDigest }
        let security := { state.store.security with authorityConflict := conflicts }
        AdmitState.report { state with store := { state.store with security := security } }
          event "authority_genesis_conflict") state
      watched.store.log = state.store.log ∧ watched.store.projections = state.store.projections ∧
        watched.heads = state.heads ∧ watched.clock = state.clock ∧
        watched.admitted = state.admitted := by
    intro authorityKey configurationDigest others
    induction others with
    | nil => intro state; exact ⟨rfl, rfl, rfl, rfl, rfl⟩
    | cons other others ih =>
        intro state
        obtain ⟨log, projections, heads, clock, admitted⟩ := ih (AdmitState.report
          { state with store := { state.store with
            security := { state.store.security with
              authorityConflict := state.store.security.authorityConflict.insertNew
                { authorityKey := authorityKey
                  digestA := min other configurationDigest
                  digestB := max other configurationDigest } } } }
          event "authority_genesis_conflict")
        exact ⟨log, projections, heads, clock, admitted⟩
  unfold authorityGenesisWatch
  cases payload with
  | authorityConfiguration p =>
      dsimp only
      split_ifs
      · exact ⟨rfl, rfl, rfl, rfl, rfl⟩
      · exact ⟨rfl, rfl, rfl, rfl, rfl⟩
      · exact folded _ _ _ _
  | _ => exact ⟨rfl, rfl, rfl, rfl, rfl⟩

theorem insertAdmitted_ok {state next : AdmitState} {event : Event}
    (done : insertAdmitted platform receiver state event = .ok next) :
    Stored platform receiver state.store event next.store ∧
      next.heads = state.heads.set event.originNode (event.originSeq, event.selfHash) ∧
      next.clock = state.clock.map (fun clock =>
        updateClock clock event.hlc (receiver.ambient.wallClock event.eventId)) ∧
      next.admitted = state.admitted ++ [event.eventId] := by
  simp only [insertAdmitted, bind_ok, pure_ok] at done
  obtain ⟨log, inserted, reduced, written, rfl⟩ := done
  obtain ⟨row, inserted⟩ := insertEvent_ok inserted
  unfold reduceAdmitted at written
  split at written
  · rename_i stub
    cases written
    exact ⟨⟨log, row, inserted, .inl ⟨stub, rfl, rfl⟩⟩, rfl, rfl, rfl⟩
  · rename_i payload carried
    simp only [bind_ok, pure_ok] at written
    obtain ⟨store, wrote, rfl⟩ := written
    obtain ⟨payloadRow, folded, _⟩ := materialize_ok wrote
    obtain ⟨keptLog, keptProjections, heads, clock, admitted⟩ := @authorityGenesisWatch_keeps
      platform receiver { state with store := store } event payload
    refine ⟨⟨log, row, inserted, .inr ⟨payload, carried, ?_, ?_⟩⟩, ?_, ?_, ?_⟩
    · dsimp only; rw [keptLog]; exact payloadRow
    · dsimp only; rw [keptLog, keptProjections]; exact folded
    · dsimp only; rw [heads]
    · dsimp only; rw [clock]
    · dsimp only; rw [admitted]

/-- One pass of the loop. -/
theorem admitOne_ok {state next : AdmitState} {event : Event}
    (done : admitOne platform receiver state event = .ok next) :
    AdmitStep platform receiver state event next := by
  simp only [admitOne] at done
  split_ifs at done with frozen poisoned held gap unchained
  · cases done
    exact .kept rfl rfl rfl rfl
  · cases done
    exact .kept rfl rfl rfl rfl
  · exact admitHeld_ok done
  · cases done
    exact .kept rfl rfl rfl rfl
  · cases done
    exact .kept rfl rfl rfl rfl
  · split at done
    · cases done
      exact .kept rfl rfl rfl rfl
    · rename_i admitted
      obtain ⟨admissible, verified, attested⟩ := refusal_eq_none admitted
      have passed : Passed platform receiver state event :=
        { next := not_not.mp gap
          chained := not_not.mp unchained
          admissible := admissible
          verified := verified
          attested := attested }
      unfold admitNext at done
      split_ifs at done with unrequested
      · obtain ⟨write, heads, clock, _⟩ := insertAdmitted_ok done
        simp only [Bool.and_eq_true, Bool.not_eq_true'] at unrequested
        exact .inserted _ passed (.stub unrequested.1 unrequested.2) write heads clock
      · obtain ⟨write, heads, clock, _⟩ := insertAdmitted_ok done
        refine .inserted _ passed (.whole ?_) write heads clock
        by_cases stub : event.isStub = true
        · exact .inl stub
        · exact .inr (by simpa [stub] using unrequested)

/-- One delivered event takes nothing readable away. -/
theorem admitStep_keeps {state next : AdmitState} {event : Event}
    (step : AdmitStep platform receiver state event next) :
    state.store.log.Keeps next.store.log := by
  cases step with
  | kept log _ _ _ => rw [log]; exact .refl _
  | upgraded held upgrade _ _ =>
      obtain ⟨payload, middle, _, row, written, _⟩ := upgrade.written
      exact (upgradeRow_keeps (rowAt_mem upgrade.found) row).trans (insertPayload_keeps written)
  | inserted stored passed form write _ _ =>
      obtain ⟨middle, row, inserted, ⟨_, log, _⟩ | ⟨_, _, written, _⟩⟩ := write.written
      · rw [log]; exact inserted.keeps
      · exact inserted.keeps.trans (insertPayload_keeps written)

end Kawa
