import Kawa.AdmitProgress
import Kawa.Provenance

/-!
A payload is written to the table of its own type and read from the table that the
envelope's kind names.  Nothing on the way in compares the two.
-/

namespace Kawa

open Result

variable {platform : Platform} {readPayload : String → Option Payload}

/-- The envelope names the kind of the payload it carries. -/
def Event.KindAgrees (event : Event) : Prop :=
  ∀ payload, event.payload = some payload → event.kind = payload.kind

/-- The payload of each materialized event is in the table that its kind names. -/
def Log.Loadable (platform : Platform) (log : Log) : Prop :=
  ∀ row ∈ log.events, row.materialized = true → ∃ payload,
    loadPayload platform log row.eventId row.kind = .ok payload ∧ payload.kind = row.kind

theorem loadWorkDerived_inserted {log next : Log} {eventId : String} {p : WorkDerived}
    (inserted : insertWorkDerived platform log eventId p = .ok next) :
    ∃ loaded, loadWorkDerived next eventId = .ok loaded := by
  simp only [insertWorkDerived, bind_ok, pure_ok] at inserted
  obtain ⟨subjectRef, cast, table, appended, rfl⟩ := inserted
  obtain ⟨fresh, rfl⟩ := insertRow_ok appended
  simp only [loadWorkDerived]
  rw [fetchRow_append fresh]
  exact ⟨_, rfl⟩

/-- What was written can be read under the payload's own kind. -/
theorem insertPayload_loads (doubles : Json.ReadsDoubles platform.readFloat) {log next : Log}
    {eventId : String} {payload : Payload}
    (inserted : insertPayload platform log eventId payload = .ok next) :
    ∃ loaded, loadPayload platform next eventId payload.kind = .ok loaded ∧
      loaded.kind = payload.kind := by
  cases payload with
  | workDerived p =>
      obtain ⟨loaded, read⟩ := loadWorkDerived_inserted inserted
      exact ⟨.workDerived loaded, map_ok.mpr ⟨loaded, read, rfl⟩, rfl⟩
  | _ =>
      refine ⟨_, loadPayload_insertPayload doubles ?_ inserted, rfl⟩
      intro text set
      cases set

theorem loadable_kept {before after : Log} (kept : before.Keeps after) {row : EventRow}
    (read : ∃ payload, loadPayload platform before row.eventId row.kind = .ok payload ∧
      payload.kind = row.kind) :
    ∃ payload, loadPayload platform after row.eventId row.kind = .ok payload ∧
      payload.kind = row.kind := by
  obtain ⟨payload, read, agrees⟩ := read
  exact ⟨payload, loadPayload_keeps kept read, agrees⟩

theorem loadable_written (doubles : Json.ReadsDoubles platform.readFloat) {log next : Log}
    {row : EventRow} {payload : Payload} (agrees : row.kind = payload.kind)
    (written : insertPayload platform log row.eventId payload = .ok next) :
    ∃ loaded, loadPayload platform next row.eventId row.kind = .ok loaded ∧
      loaded.kind = row.kind := by
  rw [agrees]
  exact insertPayload_loads doubles written

/-- A new row, materialized together with its payload. -/
theorem Log.Loadable.append (doubles : Json.ReadsDoubles platform.readFloat)
    {log middle next : Log} {event : Event} {recordedAt : Int} {row : EventRow} {payload : Payload}
    (loadable : log.Loadable platform)
    (inserted : EventInserted platform log event true recordedAt row middle)
    (agrees : event.kind = payload.kind)
    (written : insertPayload platform middle event.eventId payload = .ok next) :
    next.Loadable platform := by
  have kept := inserted.keeps.trans (insertPayload_keeps written)
  intro held member whole
  rw [insertPayload_events written] at member
  rcases inserted.mem_iff.mp member with old | rfl
  · exact loadable_kept kept (loadable held old whole)
  · obtain ⟨_, _, rfl⟩ := inserted.envelope
    exact loadable_written doubles agrees written

theorem admitStep_loadable (collisionFree : CollisionFree platform)
    (doubles : Json.ReadsDoubles platform.readFloat) {receiver : Receiver}
    {state next : AdmitState} {event : Event} (stemmed : state.store.log.Stemmed platform)
    (loadable : state.store.log.Loadable platform) (agrees : event.KindAgrees)
    (step : AdmitStep platform receiver state event next) :
    next.store.log.Loadable platform := by
  cases step with
  | kept log _ _ _ => rw [log]; exact loadable
  | upgraded held upgrade _ _ =>
      obtain ⟨payload, middle, carried, row, written, _⟩ := upgrade.written
      have inLog := rowAt_mem upgrade.found
      have kept := (upgradeRow_keeps inLog row).trans (insertPayload_keeps written)
      intro now member whole
      rw [insertPayload_events written] at member
      rcases (upgradeRow_mem row).mp member with ⟨old, oldHeld, same, rfl⟩ | ⟨unchanged, _⟩
      · obtain ⟨source, sourceVerified, stems⟩ := stemmed old oldHeld
        have sameId := same.trans upgrade.sameId
        have kind := (stemmed_same collisionFree stems sourceVerified upgrade.verified
          sameId).2.2.2.1
        rw [← sameId] at written
        exact @loadable_written _ doubles middle _ (old.upgraded event.scopeRef) payload
          (kind.trans (agrees payload carried)) written
      · exact loadable_kept kept (loadable now unchanged whole)
  | inserted stored passed form write _ _ =>
      obtain ⟨middle, row, inserted, ⟨stub, same, _⟩ | ⟨payload, carried, written, _⟩⟩ := write.written
      · rw [same]
        intro held member whole
        rcases inserted.mem_iff.mp member with old | rfl
        · exact loadable_kept inserted.keeps (loadable held old whole)
        · obtain ⟨_, _, rfl⟩ := inserted.envelope
          simp [Event.isStub, stub] at whole
      · have whole : stored.isStub = false := by simp [Event.isStub, carried]
        rw [whole] at inserted
        refine loadable.append doubles inserted ?_ written
        cases form with
        | whole _ => exact agrees payload carried
        | stub full _ => simp [withhold, full] at carried

/-! ## Reading a loadable log -/

theorem rebuildEvent_succeeds {log : Log} (loadable : log.Loadable platform) {row : EventRow}
    (held : row ∈ log.events) : ∃ event, rebuildEvent platform log row = .ok event := by
  unfold rebuildEvent
  by_cases whole : row.materialized = true
  · obtain ⟨payload, read, _⟩ := loadable row held whole
    rw [if_pos whole]
    exact ⟨_, bind_ok.mpr ⟨payload, read, rfl⟩⟩
  · rw [if_neg whole]
    exact ⟨_, rfl⟩

theorem loadEvents_succeeds {log : Log} (loadable : log.Loadable platform) :
    ∃ events, loadEvents platform log = .ok events := by
  refine mapM_succeeds fun row held => ?_
  obtain ⟨event, built⟩ := rebuildEvent_succeeds loadable ((List.mem_insertionSort _).mp held)
  exact ⟨_, map_ok.mpr ⟨event, built, rfl⟩⟩

theorem readStream_succeeds {log : Log} (loadable : log.Loadable platform)
    (after : Dict String Int) : ∃ events, readStream platform log after = .ok events := by
  unfold readStream
  refine bind_succeeds (mapM_succeeds fun pair _ => ?_) fun streams => ⟨_, rfl⟩
  dsimp only
  split
  · exact ⟨[], rfl⟩
  · refine mapM_succeeds fun row held => rebuildEvent_succeeds loadable ?_
    exact (List.mem_filter.mp ((List.mem_insertionSort _).mp held)).1

/-! ## Runs -/

/-- Every event that a call offers to admission names the kind of its payload. -/
def Call.OffersAgreeing (platform : Platform) (readPayload : String → Option Payload)
    (store : Store) (call : Call) : Prop :=
  ∀ receiver batch, call.offers platform readPayload store receiver batch →
    ∀ event ∈ batch, event.KindAgrees

theorem called_loadable (collisionFree : CollisionFree platform)
    (doubles : Json.ReadsDoubles platform.readFloat) {store next : Store} {call : Call}
    (stemmed : store.log.Stemmed platform) (loadable : store.log.Loadable platform)
    (offered : call.OffersAgreeing platform readPayload store)
    (called : Called platform readPayload store call next) : next.log.Loadable platform := by
  cases called_cases called with
  | emitted emitter now recordedAt request event row middle requested emitted _ =>
      exact loadable.append doubles emitted.inserted (emitted_kind emitted) emitted.payload
  | delivered receiver clock batch final offers admitted log _ =>
      rw [log]
      exact (admitBatch_invariant
        (fun state => state.store.log.Stemmed platform ∧ state.store.log.Loadable platform)
        (fun state event next member held step =>
          ⟨admitStep_stemmed collisionFree held.1 step, admitStep_loadable collisionFree doubles
            held.1 held.2 (offered receiver batch offers event member) step⟩)
        ⟨stemmed, loadable⟩ admitted).2

/-! ## A claim under another kind -/

namespace Misnamed

end Misnamed

end Kawa
