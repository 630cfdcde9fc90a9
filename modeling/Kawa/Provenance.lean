import Kawa.LogSound

/-!
Every row of a reachable log stems from an event that verified, however its subject was
spelled: an event delivered later under the same id has the same hashed envelope.
-/

namespace Kawa

open Result

variable {platform : Platform} {readPayload : String → Option Payload}

/-- The row is the event's envelope, the spelling of the subject apart. -/
def EventRow.StemsFrom (row : EventRow) (event : Event) : Prop :=
  row.toEnvelope = { event.toEnvelope with subjectRef := row.subjectRef }

def Log.Stemmed (platform : Platform) (log : Log) : Prop :=
  ∀ row ∈ log.events, ∃ event : Event, event.verify platform = true ∧ row.StemsFrom event

theorem Log.Stemmed.congr {left right : Log} (same : right.events = left.events)
    (stemmed : left.Stemmed platform) : right.Stemmed platform := by
  unfold Log.Stemmed
  rw [same]
  exact stemmed

theorem verified_sameEnvelope (collisionFree : CollisionFree platform) {left right : Event}
    (leftVerified : left.verify platform = true) (rightVerified : right.verify platform = true)
    (sameId : left.eventId = right.eventId) :
    SameEnvelope left.toHashedEnvelope right.toHashedEnvelope ∧
      left.scopeDigest = right.scopeDigest := by
  have leftChecked := (Event.verify_iff _ _).mp leftVerified
  have rightChecked := (Event.verify_iff _ _).mp rightVerified
  have hash := leftChecked.selfHash
  rw [leftChecked.eventId, sameId, ← rightChecked.eventId] at hash
  have same := eventHash_injective collisionFree hash rightChecked.selfHash
  refine ⟨same, ?_⟩
  by_cases one : left.envelopeVersion = 1
  · rw [(leftChecked.scopeless one).2, (rightChecked.scopeless (same.version.symm.trans one)).2]
  · exact same.scopeDigest one

/-- A delivered event and the held row of its id agree on everything hashed. -/
theorem stemmed_same (collisionFree : CollisionFree platform) {row : EventRow} {source event : Event}
    (stems : row.StemsFrom source) (sourceVerified : source.verify platform = true)
    (verified : event.verify platform = true) (sameId : row.eventId = event.eventId) :
    SameEnvelope source.toHashedEnvelope event.toHashedEnvelope ∧
      row.scopeDigest = event.scopeDigest ∧ row.hlc = event.hlc ∧ row.kind = event.kind ∧
      row.originNode = event.originNode ∧ row.originSeq = event.originSeq := by
  unfold EventRow.StemsFrom at stems
  have named : source.eventId = event.eventId := by
    rw [← sameId, stems]
  obtain ⟨same, scope⟩ := verified_sameEnvelope collisionFree sourceVerified verified named
  refine ⟨same, ?_, ?_, ?_, ?_, ?_⟩ <;> rw [stems]
  · exact scope
  · exact same.hlc
  · exact same.kind
  · exact same.originNode
  · exact same.originSeq

theorem Log.Stemmed.append {log next : Log} {event : Event} {materialized : Bool} {recordedAt : Int}
    {row : EventRow} (stemmed : log.Stemmed platform)
    (inserted : EventInserted platform log event materialized recordedAt row next)
    (verified : event.verify platform = true) : next.Stemmed platform := by
  intro held member
  rcases inserted.mem_iff.mp member with old | rfl
  · exact stemmed held old
  · obtain ⟨_, _, rfl⟩ := inserted.envelope
    exact ⟨event, verified, rfl⟩

/-- An upgrade opens the commitment that the stub was verified with. -/
theorem Log.Stemmed.upgrade (collisionFree : CollisionFree platform) {log next : Log}
    {held : EventRow} {event : Event} (stemmed : log.Stemmed platform)
    (sameId : held.eventId = event.eventId) (verified : event.verify platform = true)
    (upgraded : upgradeRow log held event.scopeRef = .ok next) : next.Stemmed platform := by
  intro now member
  rcases (upgradeRow_mem upgraded).mp member with ⟨old, inLog, same, rfl⟩ | ⟨inLog, _⟩
  · obtain ⟨source, sourceVerified, stems⟩ := stemmed old inLog
    have scope := (stemmed_same collisionFree stems sourceVerified verified
      (same.trans sameId)).2.1
    have sourceScope : source.scopeDigest = event.scopeDigest := by
      rw [← scope]
      unfold EventRow.StemsFrom at stems
      rw [stems]
    have sourceChecked := (Event.verify_iff _ _).mp sourceVerified
    have checked := (Event.verify_iff _ _).mp verified
    have version : source.envelopeVersion = event.envelopeVersion := by
      have named : source.eventId = event.eventId := by
        rw [← same.trans sameId]
        unfold EventRow.StemsFrom at stems
        rw [stems]
      exact (verified_sameEnvelope collisionFree sourceVerified verified named).1.version
    refine ⟨{ source with scopeRef := event.scopeRef }, (Event.verify_iff _ _).mpr ?_, ?_⟩
    · exact {
        version := sourceChecked.version
        scopeless := fun one => ⟨(checked.scopeless (version.symm.trans one)).1,
          (sourceChecked.scopeless one).2⟩
        scopeOpens := by
          have opens := checked.scopeOpens
          unfold Envelope.scopeOpens at opens ⊢
          dsimp only
          rw [sourceScope]
          exact opens
        payloadDigest := sourceChecked.payloadDigest
        selfHash := sourceChecked.selfHash
        eventId := sourceChecked.eventId }
    · unfold EventRow.StemsFrom at stems ⊢
      simp only [EventRow.upgraded]
      rw [stems]
  · exact stemmed now inLog

theorem admitStep_stemmed (collisionFree : CollisionFree platform) {receiver : Receiver}
    {state next : AdmitState} {event : Event} (stemmed : state.store.log.Stemmed platform)
    (step : AdmitStep platform receiver state event next) : next.store.log.Stemmed platform := by
  cases step with
  | kept log _ _ _ => rw [log]; exact stemmed
  | upgraded held upgrade _ _ =>
      obtain ⟨payload, middle, _, row, written, _⟩ := upgrade.written
      exact (stemmed.upgrade collisionFree upgrade.sameId upgrade.verified row).congr
        (insertPayload_events written)
  | inserted stored passed form write _ _ =>
      obtain ⟨middle, row, inserted, same⟩ := write.log
      exact (stemmed.append inserted (form.verify passed.verified)).congr same

theorem called_stemmed (collisionFree : CollisionFree platform) {store next : Store} {call : Call}
    (stemmed : store.log.Stemmed platform)
    (called : Called platform readPayload store call next) : next.log.Stemmed platform := by
  cases called_cases called with
  | emitted emitter now recordedAt request event row middle requested emitted _ =>
      exact (stemmed.append emitted.inserted emitted.minted.verified).congr
        (insertPayload_events emitted.payload)
  | delivered receiver clock batch final offered admitted log _ =>
      rw [log]
      exact admitBatch_invariant (fun state => state.store.log.Stemmed platform)
        (fun _ _ _ _ held step => admitStep_stemmed collisionFree held step) stemmed admitted

theorem empty_stemmed : ({} : Store).log.Stemmed platform := by
  intro row held
  cases held

end Kawa
