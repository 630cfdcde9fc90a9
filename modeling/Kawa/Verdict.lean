import Kawa.StubUpgrade

/-!
Admission as a verdict on each event.  The verdict reads the part of the state that belongs
to the event's origin; what it asks to be written can still be refused by a column, by
the append-only guard or by the plan fold.
-/

namespace Kawa

open Result

variable {platform : Platform} {readPayload : String → Option Payload} {receiver : Receiver}

/-! ## Verdicts -/

/-- What a pass over a batch knows of one origin. -/
structure OriginView where
  frozen : Bool
  poisoned : Bool
  head : Int × Option String
  rowAt : Int → Option EventRow

def AdmitState.view (state : AdmitState) (originNode : String) : OriginView where
  frozen := decide (originNode ∈ state.frozen)
  poisoned := decide (originNode ∈ state.poisoned)
  head := state.head originNode
  rowAt := state.store.log.rowAt originNode

inductive Verdict
  | raise | keep | insert
  | reject (reason : String)
  | report (reason : String)
  | upgrade (held : EventRow) (payload : Payload)
  | freeze (held : EventRow) (rivalKey : String)

section Verdict

variable (platform receiver)

/-- The verdict at or below the held head. -/
def Receiver.heldVerdict (row : Option EventRow) (event : Event) : Verdict :=
  if storableText event.originNode = false then .raise
  else
    match row with
    | none => .reject "collision"
    | some held =>
        if held.eventId = event.eventId then
          match event.payload with
          | none => .keep
          | some payload =>
              if held.materialized then .keep
              else if receiver.unrequested event then .report "scope_unrequested"
              else if !event.verify platform then .report "upgrade_digest_mismatch"
              else .upgrade held payload
        else
          match receiver.rivalKey platform event with
          | none => .reject "collision"
          | some rivalKey => .freeze held rivalKey

def Receiver.verdict (view : OriginView) (event : Event) : Verdict :=
  if view.frozen then .reject "origin_frozen"
  else if view.poisoned then .reject "predecessor_rejected"
  else if event.originSeq ≤ view.head.1 then
    receiver.heldVerdict platform (view.rowAt event.originSeq) event
  else if event.originSeq ≠ view.head.1 + 1 then .reject "chain_gap"
  else if event.prevHash ≠ view.head.2 then .reject "chain_break"
  else
    match receiver.refusal platform event with
    | some reason => .reject reason
    | none => .insert

/-- The form in which an event that passed is stored, and what is reported of it. -/
def Receiver.storedForm (event : Event) : Event :=
  if !event.isStub && receiver.unrequested event then withhold event else event

/-- Carry out a verdict. -/
def act (state : AdmitState) (event : Event) : Verdict → Except StoreError AdmitState
  | .raise => .error .unstorableText
  | .keep => .ok state
  | .insert => admitNext platform receiver state event
  | .reject reason => .ok (state.reject event reason)
  | .report reason => .ok (state.report event reason)
  | .upgrade held payload => do
      let log ← upgradeRow state.store.log held event.scopeRef
      let store ← materialize platform receiver.ambient.scan { state.store with log := log } event
        payload
      return { state with store := store, admitted := state.admitted ++ [event.eventId] }
  | .freeze held rivalKey => do
      let evidence := forkEvidence receiver.trust held event rivalKey
      require (storableTexts [event.eventId, rivalKey]) .unstorableText
      let security := { state.store.security with
        forkEvidence := state.store.security.forkEvidence.insertNew evidence }
      return AdmitState.reject
        { state with
          store := { state.store with security := security }
          frozen := event.originNode :: state.frozen }
        event evidence.classification.value

end Verdict

theorem admitHeld_eq (state : AdmitState) (event : Event) :
    admitHeld platform receiver state event =
      act platform receiver state event (receiver.heldVerdict platform
        (state.store.log.rowAt event.originNode event.originSeq) event) := by
  unfold admitHeld Receiver.heldVerdict
  by_cases stored : storableText event.originNode = true
  · simp only [stored, require, ↓reduceIte, Bool.true_eq_false, bind, Except.bind]
    cases state.store.log.rowAt event.originNode event.originSeq with
    | none => rfl
    | some held =>
        by_cases sameId : held.eventId = event.eventId
        · simp only [if_pos sameId]
          cases event.payload with
          | none => rfl
          | some payload =>
              dsimp only
              split_ifs <;> rfl
        · simp only [if_neg sameId]
          cases receiver.rivalKey platform event with
          | none => rfl
          | some rivalKey => rfl
  · simp only [Bool.not_eq_true] at stored
    simp only [stored, require, ↓reduceIte, Bool.false_eq_true, bind, Except.bind]
    rfl

/-- Admission carries out its verdict. -/
theorem admitOne_eq (state : AdmitState) (event : Event) :
    admitOne platform receiver state event =
      act platform receiver state event
        (receiver.verdict platform (state.view event.originNode) event) := by
  unfold admitOne Receiver.verdict AdmitState.view
  simp only [decide_eq_true_eq]
  split_ifs
  · rfl
  · rfl
  · exact admitHeld_eq state event
  · rfl
  · rfl
  · cases receiver.refusal platform event with
    | none => rfl
    | some reason => rfl

/-- What is said of an event at or below the held head, and why. -/
inductive HeldCase (platform : Platform) (receiver : Receiver) (row : Option EventRow)
    (event : Event) : Verdict → Prop
  | unstorable (unstored : storableText event.originNode = false) :
      HeldCase platform receiver row event .raise
  | missing (stored : storableText event.originNode = true) (empty : row = none) :
      HeldCase platform receiver row event (.reject "collision")
  | kept (held : EventRow) (stored : storableText event.originNode = true)
      (found : row = some held) (sameId : held.eventId = event.eventId)
      (settled : event.payload = none ∨ held.materialized = true) :
      HeldCase platform receiver row event .keep
  | reported (held : EventRow) (reason : String) (stored : storableText event.originNode = true)
      (found : row = some held) (sameId : held.eventId = event.eventId)
      (settled : receiver.unrequested event = true ∨ event.verify platform = false) :
      HeldCase platform receiver row event (.report reason)
  | upgraded (held : EventRow) (payload : Payload) (stored : storableText event.originNode = true)
      (found : row = some held) (sameId : held.eventId = event.eventId)
      (carried : event.payload = some payload) (stub : held.materialized = false)
      (requested : receiver.unrequested event = false) (verified : event.verify platform = true) :
      HeldCase platform receiver row event (.upgrade held payload)
  | stranger (held : EventRow) (stored : storableText event.originNode = true)
      (found : row = some held) (other : held.eventId ≠ event.eventId)
      (unproven : receiver.rivalKey platform event = none) :
      HeldCase platform receiver row event (.reject "collision")
  | rival (held : EventRow) (key : String) (stored : storableText event.originNode = true)
      (found : row = some held) (other : held.eventId ≠ event.eventId)
      (proven : receiver.rivalKey platform event = some key) :
      HeldCase platform receiver row event (.freeze held key)

theorem heldVerdict_case (platform : Platform) (receiver : Receiver) (row : Option EventRow)
    (event : Event) :
    HeldCase platform receiver row event (receiver.heldVerdict platform row event) := by
  unfold Receiver.heldVerdict
  by_cases unstored : storableText event.originNode = false
  · rw [if_pos unstored]
    exact .unstorable unstored
  rw [if_neg unstored]
  have stored : storableText event.originNode = true := by simpa using unstored
  cases row with
  | none => exact .missing stored rfl
  | some held =>
      dsimp only
      by_cases sameId : held.eventId = event.eventId
      · rw [if_pos sameId]
        cases carried : event.payload with
        | none => exact .kept held stored rfl sameId (.inl carried)
        | some payload =>
            dsimp only
            split_ifs with whole unrequested unverified
            · exact .kept held stored rfl sameId (.inr whole)
            · exact .reported held _ stored rfl sameId (.inl unrequested)
            · exact .reported held _ stored rfl sameId (.inr (by simpa using unverified))
            · exact .upgraded held payload stored rfl sameId carried (by simpa using whole)
                (by simpa using unrequested) (by simpa using unverified)
      · rw [if_neg sameId]
        cases key : receiver.rivalKey platform event with
        | none => exact .stranger held stored rfl sameId key
        | some key' => exact .rival held key' stored rfl sameId key

/-! ## When a verdict can be carried out -/

/-- What the columns and the plan fold ask of an event that is to be inserted. -/
structure Log.Receives (platform : Platform) (log : Log) (event : Event) : Prop where
  fits : event.toEnvelope.FitsColumns platform
  payload : ∀ payload, event.payload = some payload → payload.Storable platform
  outdated : log.Outdates event

/-- Nothing refuses what the verdict on the event asks to be written. -/
def AdmitState.Accommodates (platform : Platform) (receiver : Receiver) (state : AdmitState)
    (event : Event) : Prop :=
  match receiver.verdict platform (state.view event.originNode) event with
  | .raise => False
  | .keep => True
  | .insert => state.store.log.Receives platform (receiver.storedForm event)
  | .reject _ => True
  | .report _ => True
  | .upgrade held payload => state.store.log.Accommodates platform held event payload
  | .freeze _ rivalKey => storableTexts [event.eventId, rivalKey] = true

theorem heldVerdict_upgrade {row : Option EventRow} {event : Event} {held : EventRow}
    {payload : Payload} (verdict : receiver.heldVerdict platform row event = .upgrade held payload) :
    row = some held ∧ held.eventId = event.eventId ∧ event.payload = some payload ∧
      held.materialized = false ∧ receiver.unrequested event = false ∧
      event.verify platform = true := by
  have judged := heldVerdict_case platform receiver row event
  rw [verdict] at judged
  cases judged with
  | upgraded _ _ _ found sameId carried stub requested verified =>
      exact ⟨found, sameId, carried, stub, requested, verified⟩

theorem heldVerdict_insert {row : Option EventRow} {event : Event} :
    receiver.heldVerdict platform row event ≠ .insert := by
  intro verdict
  have judged := heldVerdict_case platform receiver row event
  rw [verdict] at judged
  cases judged

theorem verdict_upgrade {view : OriginView} {event : Event} {held : EventRow} {payload : Payload}
    (verdict : receiver.verdict platform view event = .upgrade held payload) :
    view.rowAt event.originSeq = some held ∧ held.eventId = event.eventId ∧
      event.payload = some payload ∧ held.materialized = false ∧
      receiver.unrequested event = false ∧ event.verify platform = true := by
  unfold Receiver.verdict at verdict
  split_ifs at verdict
  · exact heldVerdict_upgrade verdict
  · cases refused : receiver.refusal platform event with
    | none =>
        rw [refused] at verdict
        cases verdict
    | some reason =>
        rw [refused] at verdict
        cases verdict

theorem verdict_insert {view : OriginView} {event : Event}
    (verdict : receiver.verdict platform view event = .insert) :
    event.originSeq = view.head.1 + 1 ∧ receiver.refusal platform event = none := by
  unfold Receiver.verdict at verdict
  split_ifs at verdict with _ _ _ gap
  · exact absurd verdict heldVerdict_insert
  · cases refused : receiver.refusal platform event with
    | none => exact ⟨not_not.mp gap, rfl⟩
    | some reason =>
        rw [refused] at verdict
        cases verdict

/-- No row is beyond the head that admission carries for its origin. -/
def HeadsBound (state : AdmitState) : Prop :=
  ∀ row ∈ state.store.log.events, row.originSeq ≤ (state.head row.originNode).1

theorem headsBound_start (store : Store) (clock : Option HLC) :
    HeadsBound (AdmitState.start store clock) := by
  intro row held
  rw [headsAgree_start store clock row.originNode]
  exact headMark_ge held

theorem admitStep_headsBound {state next : AdmitState} {event : Event} (bound : HeadsBound state)
    (step : AdmitStep platform receiver state event next) : HeadsBound next := by
  cases step with
  | kept log _ heads _ =>
      unfold HeadsBound AdmitState.head
      rw [log, heads]
      exact bound
  | upgraded held upgrade heads _ =>
      obtain ⟨payload, middle, _, row, written, _⟩ := upgrade.written
      unfold HeadsBound AdmitState.head
      rw [heads, insertPayload_events written]
      intro now member
      rcases (upgradeRow_mem row).mp member with ⟨old, inLog, _, rfl⟩ | ⟨inLog, _⟩
      · exact bound old inLog
      · exact bound now inLog
  | inserted stored passed form write heads _ =>
      obtain ⟨middle, row, inserted, same⟩ := write.log
      obtain ⟨node, seq, _⟩ := inserted.links
      obtain ⟨storedNode, storedSeq⟩ := form.position
      intro held member
      rw [same] at member
      unfold AdmitState.head
      rw [heads]
      by_cases moved : held.originNode = stored.originNode
      · rw [moved, Dict.get?_set_self]
        rcases inserted.mem_iff.mp member with old | rfl
        · have below := bound held old
          rw [moved, storedNode] at below
          have next := passed.next
          dsimp only
          omega
        · exact le_of_eq seq
      · rw [Dict.get?_set_ne _ _ moved]
        rcases inserted.mem_iff.mp member with old | rfl
        · exact bound held old
        · exact absurd node moved

theorem outdates_inserted {log next : Log} (admitted : log.Admitted platform) {event other : Event}
    {materialized : Bool} {recordedAt : Int} {row : EventRow}
    (inserted : EventInserted platform log event materialized recordedAt row next) :
    next.Outdates other ↔ log.Outdates other := by
  obtain ⟨_, plan⟩ := payloadIds_append inserted
  have same : ∀ planRef pair, pair ∈ next.creations planRef ↔ pair ∈ log.creations planRef := by
    intro planRef pair
    rw [mem_creations, mem_creations, plan]
    constructor
    · rintro ⟨fact, named, inNext, id, kind⟩
      refine ⟨fact, named, ?_, id, kind⟩
      rcases inserted.mem_iff.mp inNext with old | new
      · exact old
      · -- a new row has no payload row yet
        have referenced : pair.2.eventId ∈ log.eventPlan.rows.map (·.eventId) :=
          List.mem_map_of_mem fact
        obtain ⟨owner, inLog, owned, _⟩ := admitted.payloads pair.2.eventId (by
          simp only [Log.payloadIds, List.mem_append]
          tauto)
        rw [new] at id
        exact absurd (owned.trans id.symm) (inserted.fresh inLog)
    · rintro ⟨fact, named, inLog, id, kind⟩
      exact ⟨fact, named, inserted.mem_iff.mpr (.inl inLog), id, kind⟩
  unfold Log.Outdates
  simp only [same]

/-- The writes behind the row of an event: its payload, and what is reduced from it. -/
theorem materialize_succeeds_iff {state : AdmitState} {event : Event} {payload : Payload}
    {log : Log} {row : EventRow} (admitted : state.store.log.Admitted platform)
    (verified : event.verify platform = true) (parses : (parseHlc event.hlc).isSome = true)
    (unused : event.eventId ∉ state.store.log.payloadIds) (carried : event.payload = some payload)
    (storedNode : storableText event.originNode = true)
    (inserted : EventInserted platform state.store.log event (!event.isStub)
      (receiver.ambient.recordedAt event.eventId) row log) :
    (∃ store, materialize platform receiver.ambient.scan
        { state.store with log := log } event payload = .ok store) ↔
      payload.Storable platform ∧ state.store.log.Outdates event := by
  obtain ⟨ids, _⟩ := payloadIds_append inserted
  have entered := admitted.insert inserted verified parses storedNode
  obtain ⟨_, _, shape⟩ := inserted.envelope
  have inLog : row ∈ log.events := inserted.mem_iff.mpr (.inr rfl)
  have sameId : row.eventId = event.eventId := by rw [shape]
  have key : row.causalKey = event.causalKey := by rw [shape]; rfl
  have kind : row.kind = event.kind := by rw [shape]
  have reduces : ∀ {next : Log}, insertPayload platform log event.eventId payload = .ok next →
      ((∃ projections, reduce next receiver.ambient.scan event state.store.projections =
        .ok projections) ↔ state.store.log.Outdates event) := by
    intro next written
    have stamped : next.Stamped := by
      unfold Log.Stamped
      rw [insertPayload_events written]
      exact entered.stamped
    have lifecycles : next.LifecyclesSet := by
      intro fact member
      rcases insertPayload_eventPlan written fact member with old | ⟨_, _, set, _⟩
      · exact entered.lifecycles fact old
      · exact set
    rw [reduce_succeeds_iff stamped lifecycles _ parses carried,
      plans_written_iff entered inLog sameId key kind carried written,
      outdates_inserted admitted inserted]
  unfold materialize
  constructor
  · rintro ⟨store, done⟩
    simp only [bind_ok, pure_ok] at done
    obtain ⟨next, written, projections, reduced, _⟩ := done
    exact ⟨(insertPayload_succeeds_iff (ids ▸ unused)).mp ⟨next, written⟩,
      (reduces written).mp ⟨projections, reduced⟩⟩
  · rintro ⟨storable, outdated⟩
    obtain ⟨next, written⟩ := (insertPayload_succeeds_iff (ids ▸ unused)).mpr storable
    obtain ⟨projections, reduced⟩ := (reduces written).mpr outdated
    exact ⟨{ state.store with log := next, projections := projections },
      by simp only [written, reduced, bind, Except.bind, pure, Except.pure]⟩

/-- The insertion of an event at a free position goes through exactly when columns and plan
fold receive it. -/
theorem insertAdmitted_succeeds_iff (collisionFree : CollisionFree platform) {state : AdmitState}
    {event : Event} (admitted : state.store.log.Admitted platform)
    (verified : event.verify platform = true) (parses : (parseHlc event.hlc).isSome = true)
    (free : ∀ row ∈ state.store.log.events,
      ¬ (row.originNode = event.originNode ∧ row.originSeq = event.originSeq)) :
    (∃ next, insertAdmitted platform receiver state event = .ok next) ↔
      state.store.log.Receives platform event := by
  have fresh : state.store.log.events.holds event.eventId = false := by
    rw [Table.holds_eq_false]
    intro row held same
    obtain ⟨source, sourceVerified, stems⟩ := admitted.stemmed row held
    obtain ⟨_, _, _, _, node, seq⟩ :=
      stemmed_same collisionFree stems sourceVerified verified same
    exact free row held ⟨node, seq⟩
  have unused : event.eventId ∉ state.store.log.payloadIds := by
    intro named
    obtain ⟨row, held, same, _⟩ := admitted.payloads _ named
    exact Table.holds_eq_false.mp fresh row held same
  have nodeText : event.toEnvelope.FitsColumns platform → storableText event.originNode = true :=
    fun fits => List.all_eq_true.mp fits.storable _ (by simp [Envelope.texts])
  unfold insertAdmitted
  constructor
  · rintro ⟨next, done⟩
    simp only [bind_ok, pure_ok] at done
    obtain ⟨log, inserted, reduced, followed, _⟩ := done
    obtain ⟨row, entered⟩ := insertEvent_ok inserted
    have fits := insertEvent_fits inserted
    cases carried : event.payload with
    | none =>
        refine ⟨fits, fun payload set => ?_, fun p set => ?_⟩
        · rw [carried] at set
          cases set
        · rw [carried] at set
          cases set
    | some payload =>
        simp only [reduceAdmitted, carried, bind_ok] at followed
        obtain ⟨store, materialized, _⟩ := followed
        obtain ⟨storable, outdated⟩ := (materialize_succeeds_iff admitted verified parses unused
          carried (nodeText fits) entered).mp ⟨store, materialized⟩
        refine ⟨fits, fun own set => ?_, outdated⟩
        rw [carried] at set
        cases set
        exact storable
  · intro receives
    obtain ⟨subjectRef, cast⟩ := receives.fits.subject
    have insertable : Insertable platform state.store.log event subjectRef :=
      ⟨cast, receives.fits.originSeq, receives.fits.version, free, fresh, receives.fits.storable⟩
    have inserted := insertEvent_succeeds insertable (!event.isStub)
      (receiver.ambient.recordedAt event.eventId)
    obtain ⟨row, entered⟩ := insertEvent_ok inserted
    simp only [inserted, bind, Except.bind, reduceAdmitted]
    cases carried : event.payload with
    | none => exact ⟨_, rfl⟩
    | some payload =>
        obtain ⟨store, materialized⟩ := (materialize_succeeds_iff admitted verified parses unused
          carried (nodeText receives.fits) entered).mpr
            ⟨receives.payload payload carried, receives.outdated⟩
        dsimp only
        rw [materialized]
        exact ⟨_, rfl⟩

theorem storedForm_storedAs (receiver : Receiver) (event : Event) :
    StoredAs receiver event (receiver.storedForm event) := by
  unfold Receiver.storedForm
  by_cases withheld : (!event.isStub && receiver.unrequested event) = true
  · rw [if_pos withheld]
    simp only [Bool.and_eq_true, Bool.not_eq_true'] at withheld
    exact .stub withheld.1 withheld.2
  · rw [if_neg withheld]
    refine .whole ?_
    cases stub : event.isStub with
    | true => exact .inl rfl
    | false => exact .inr (by simpa [stub] using withheld)

/-- One event is dealt with exactly when the state accommodates it. -/
theorem admitOne_succeeds_iff (collisionFree : CollisionFree platform) {state : AdmitState}
    {event : Event} (admitted : state.store.log.Admitted platform) (bound : HeadsBound state) :
    (∃ next, admitOne platform receiver state event = .ok next) ↔
      state.Accommodates platform receiver event := by
  rw [admitOne_eq]
  unfold AdmitState.Accommodates
  cases verdict : receiver.verdict platform (state.view event.originNode) event with
  | raise => exact iff_of_false (by rintro ⟨next, done⟩; cases done) id
  | keep => exact iff_of_true ⟨_, rfl⟩ trivial
  | reject reason => exact iff_of_true ⟨_, rfl⟩ trivial
  | report reason => exact iff_of_true ⟨_, rfl⟩ trivial
  | freeze held rivalKey =>
      exact require_bind_succeeds.trans ⟨fun done => done.1, fun stored => ⟨stored, _, rfl⟩⟩
  | upgrade held payload =>
      obtain ⟨found, sameId, carried, stub, _, verified⟩ := verdict_upgrade verdict
      refine Iff.trans ?_ (upgrade_writes_iff collisionFree admitted (rowAt_mem found) stub sameId
        carried verified receiver.ambient.scan state.store.projections)
      unfold act materialize
      constructor
      · rintro ⟨next, done⟩
        simp only [bind_ok, pure_ok] at done
        obtain ⟨middle, upgraded, store, ⟨log, written, projections, reduced, _⟩, _⟩ := done
        exact ⟨middle, log, projections, upgraded, written, reduced⟩
      · rintro ⟨middle, log, projections, upgraded, written, reduced⟩
        simp only [upgraded, written, reduced, bind, Except.bind, pure, Except.pure]
        exact ⟨_, rfl⟩
  | insert =>
      obtain ⟨next, passed⟩ := verdict_insert verdict
      obtain ⟨admissible, verified, _⟩ := refusal_eq_none passed
      have form := storedForm_storedAs receiver event
      obtain ⟨envelope, _⟩ := form.same
      have node : (receiver.storedForm event).originNode = event.originNode := by rw [envelope]
      have seq : (receiver.storedForm event).originSeq = event.originSeq := by rw [envelope]
      have hlc : (receiver.storedForm event).hlc = event.hlc := by rw [envelope]
      have free : ∀ row ∈ state.store.log.events,
          ¬ (row.originNode = (receiver.storedForm event).originNode ∧
            row.originSeq = (receiver.storedForm event).originSeq) := by
        rintro row held ⟨sameNode, sameSeq⟩
        have below := bound row held
        rw [sameNode, sameSeq, node, seq, next] at below
        exact absurd below (not_le.mpr (Int.lt_succ _))
      have parses : (parseHlc (receiver.storedForm event).hlc).isSome = true := by
        rw [hlc]
        exact stamped_of_admissible admissible
      unfold act admitNext Receiver.storedForm
      unfold Receiver.storedForm at free parses
      by_cases withheld : (!event.isStub && receiver.unrequested event) = true
      · simp only [withheld, ↓reduceIte] at free parses ⊢
        exact insertAdmitted_succeeds_iff collisionFree admitted (withhold_verify verified) parses
          free
      · simp only [withheld] at free parses ⊢
        exact insertAdmitted_succeeds_iff collisionFree admitted verified parses free

end Kawa
