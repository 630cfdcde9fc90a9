import Kawa.Stream

/-!
The storage codec round trip.  Every column that `insertPayload` writes is read back
but one: the `domain` token of a plan or of a work, which the digest covers.
-/

namespace Kawa

open Result

variable {platform : Platform}

/-- A subject reference that the database prints as it was written. -/
def CanonicalRef (platform : Platform) (subjectRef : Option String) : Prop :=
  ∀ text, subjectRef = some text → platform.castUuid text = some text

/-- The subject reference inside a payload, where its kind has one. -/
def Payload.subjectRef : Payload → Option String
  | workDerived p => p.subjectRef
  | _ => none

/-- The managed domain token, where the payload's kind has one. -/
def Payload.domain : Payload → Option String
  | planCreated p => p.domain
  | workDerived p => p.domain
  | _ => none

/-- The payload as it is read back. -/
def Payload.withoutDomain : Payload → Payload
  | planCreated p => planCreated { p with domain := none }
  | workDerived p => workDerived { p with domain := none }
  | payload => payload

theorem castSubject_canonical {subjectRef stored : Option String}
    (canonical : CanonicalRef platform subjectRef)
    (cast : castSubject platform subjectRef = .ok stored) : stored = subjectRef := by
  rcases castSubject_ok cast with ⟨rfl, rfl⟩ | ⟨text, printed, rfl, found, rfl⟩
  · rfl
  · rw [canonical text rfl] at found
    exact found.symm

theorem fetchRow_append {ρ : Type} {key : ρ → String} {table : Table ρ key} {row : ρ}
    (fresh : table.holds (key row) = false) :
    fetchRow (table.append row fresh) (key row) = .ok row :=
  fetchRow_ok.mpr ⟨Table.mem_append.mpr (.inr rfl), rfl⟩

theorem observedValue_row (p : ObservationRecorded) (row : EventObservationRow)
    (text : row.valueText = p.valueText) (number : row.valueNumber = p.valueNumber)
    (bool : row.valueBool = p.valueBool) (time : row.valueTime = p.valueTime) :
    observedValue row = some p.value := by
  unfold observedValue
  rw [text, number, bool, time]
  unfold ObservationRecorded.valueText ObservationRecorded.valueNumber
    ObservationRecorded.valueBool ObservationRecorded.valueTime
  cases p.value <;> rfl

theorem sourceBinding_row (p : ObservationRecorded) (row : EventObservationRow)
    (ref : row.sourceRef = p.sourceRef) (revision : row.sourceRevision = p.sourceRevision)
    (content : row.contentDigest = p.contentDigest) (fetched : row.fetchedAt = p.fetchedAt) :
    sourceBinding row = some p.source := by
  unfold sourceBinding
  rw [ref, revision, content, fetched]
  unfold ObservationRecorded.sourceRef ObservationRecorded.sourceRevision
    ObservationRecorded.contentDigest ObservationRecorded.fetchedAt
  cases p.source <;> rfl

theorem readMembersText_canonical (doubles : Json.ReadsDoubles platform.readFloat)
    (members : List String) :
    readMembersText platform (Json.canonicalJson (textList members)) = some members := by
  unfold readMembersText
  rw [Json.loads_canonicalJson doubles (textList_wellKeyed members), textList_sortKeys]
  simp only [textList]
  induction members with
  | nil => rfl
  | cons member members ih => simp [textOf?, ih]

/-- What `insertPayload` writes, `loadPayload` reads back, but for the domain token. -/
theorem loadPayload_insertPayload (doubles : Json.ReadsDoubles platform.readFloat)
    {log next : Log} {eventId : String} {payload : Payload}
    (canonical : CanonicalRef platform payload.subjectRef)
    (inserted : insertPayload platform log eventId payload = .ok next) :
    loadPayload platform next eventId payload.kind = .ok payload.withoutDomain := by
  cases payload with
  | planCreated p =>
      simp only [insertPayload, insertPlanCreated, bind_ok, pure_ok] at inserted
      obtain ⟨table, appended, rfl⟩ := inserted
      obtain ⟨fresh, rfl⟩ := insertRow_ok appended
      simp only [loadPayload, Payload.kind, loadPlanCreated]
      rw [fetchRow_append fresh]
      rfl
  | planLifecycleChanged p =>
      simp only [insertPayload, insertPlanLifecycleChanged, bind_ok, pure_ok] at inserted
      obtain ⟨table, appended, rfl⟩ := inserted
      obtain ⟨fresh, rfl⟩ := insertRow_ok appended
      simp only [loadPayload, Payload.kind, loadPlanLifecycleChanged]
      rw [fetchRow_append fresh]
      rfl
  | workDerived p =>
      simp only [insertPayload, insertWorkDerived, bind_ok, pure_ok] at inserted
      obtain ⟨subjectRef, cast, table, appended, rfl⟩ := inserted
      obtain ⟨fresh, rfl⟩ := insertRow_ok appended
      obtain rfl := castSubject_canonical canonical cast
      simp only [loadPayload, Payload.kind, loadWorkDerived]
      rw [fetchRow_append fresh]
      rfl
  | workDependencyDeclared p =>
      simp only [insertPayload, insertWorkDependencyDeclared, bind_ok, pure_ok] at inserted
      obtain ⟨table, appended, rfl⟩ := inserted
      obtain ⟨fresh, rfl⟩ := insertRow_ok appended
      simp only [loadPayload, Payload.kind, loadWorkDependencyDeclared]
      rw [fetchRow_append fresh]
      rfl
  | resultRecorded p =>
      simp only [insertPayload, insertResultRecorded, bind_ok, pure_ok] at inserted
      obtain ⟨table, appended, rfl⟩ := inserted
      obtain ⟨fresh, rfl⟩ := insertRow_ok appended
      simp only [loadPayload, Payload.kind, loadResultRecorded]
      rw [fetchRow_append fresh]
      rfl
  | linkAsserted p =>
      simp only [insertPayload, insertLinkAsserted, bind_ok, pure_ok] at inserted
      obtain ⟨table, appended, rfl⟩ := inserted
      obtain ⟨fresh, rfl⟩ := insertRow_ok appended
      simp only [loadPayload, Payload.kind, loadLinkAsserted]
      rw [fetchRow_append fresh]
      simp only [bind, Except.bind, p.noSelfLink, ne_eq, not_false_eq_true, ↓reduceDIte]
      rfl
  | observationRecorded p =>
      simp only [insertPayload, insertObservationRecorded, bind_ok, pure_ok] at inserted
      obtain ⟨table, appended, rfl⟩ := inserted
      obtain ⟨fresh, rfl⟩ := insertRow_ok appended
      simp only [loadPayload, Payload.kind, loadObservationRecorded]
      rw [fetchRow_append fresh]
      simp only [bind, Except.bind]
      rw [observedValue_row p _ rfl rfl rfl rfl, sourceBinding_row p _ rfl rfl rfl rfl]
      rfl
  | claimRecorded p =>
      simp only [insertPayload, insertClaimRecorded, bind_ok, pure_ok] at inserted
      obtain ⟨table, appended, rfl⟩ := inserted
      obtain ⟨fresh, rfl⟩ := insertRow_ok appended
      simp only [loadPayload, Payload.kind, loadClaimRecorded]
      rw [fetchRow_append fresh]
      rfl
  | workRetired p =>
      simp only [insertPayload, insertWorkRetired, bind_ok, pure_ok] at inserted
      obtain ⟨table, appended, rfl⟩ := inserted
      obtain ⟨fresh, rfl⟩ := insertRow_ok appended
      simp only [loadPayload, Payload.kind, loadWorkRetired]
      rw [fetchRow_append fresh]
      rfl
  | authorityConfiguration p =>
      simp only [insertPayload, insertAuthorityConfiguration, bind_ok, pure_ok] at inserted
      obtain ⟨_, _, table, appended, rfl⟩ := inserted
      obtain ⟨fresh, rfl⟩ := insertRow_ok appended
      simp only [loadPayload, Payload.kind, loadAuthorityConfiguration]
      rw [fetchRow_append fresh]
      simp only [bind, Except.bind, readMembersText_canonical doubles, validated, p.uniqueMembers,
        ↓reduceDIte]
      rfl
  | authorityReceipt p =>
      simp only [insertPayload, insertAuthorityReceipt, bind_ok, pure_ok] at inserted
      obtain ⟨_, _, table, appended, rfl⟩ := inserted
      obtain ⟨fresh, rfl⟩ := insertRow_ok appended
      simp only [loadPayload, Payload.kind, loadAuthorityReceipt]
      rw [fetchRow_append fresh]
      rfl

/-! ## Later logs -/

/-- `after` still holds every payload row and every materialized envelope of `before`. -/
structure Log.Keeps (before after : Log) : Prop where
  events : ∀ row ∈ before.events, row.materialized = true → row ∈ after.events
  eventPlan : ∀ row ∈ before.eventPlan, row ∈ after.eventPlan
  eventWork : ∀ row ∈ before.eventWork, row ∈ after.eventWork
  eventWorkDependency : ∀ row ∈ before.eventWorkDependency, row ∈ after.eventWorkDependency
  eventResult : ∀ row ∈ before.eventResult, row ∈ after.eventResult
  eventWorkRetired : ∀ row ∈ before.eventWorkRetired, row ∈ after.eventWorkRetired
  eventLink : ∀ row ∈ before.eventLink, row ∈ after.eventLink
  eventObservation : ∀ row ∈ before.eventObservation, row ∈ after.eventObservation
  eventClaim : ∀ row ∈ before.eventClaim, row ∈ after.eventClaim
  eventAuthorityConfiguration :
    ∀ row ∈ before.eventAuthorityConfiguration, row ∈ after.eventAuthorityConfiguration
  eventAuthorityReceipt : ∀ row ∈ before.eventAuthorityReceipt, row ∈ after.eventAuthorityReceipt

theorem Log.Keeps.refl (log : Log) : log.Keeps log := by
  constructor <;> intros <;> assumption

theorem Log.Keeps.trans {first second third : Log} (left : first.Keeps second)
    (right : second.Keeps third) : first.Keeps third := by
  constructor
  · exact fun row held whole => right.events row (left.events row held whole) whole
  · exact fun row held => right.eventPlan row (left.eventPlan row held)
  · exact fun row held => right.eventWork row (left.eventWork row held)
  · exact fun row held => right.eventWorkDependency row (left.eventWorkDependency row held)
  · exact fun row held => right.eventResult row (left.eventResult row held)
  · exact fun row held => right.eventWorkRetired row (left.eventWorkRetired row held)
  · exact fun row held => right.eventLink row (left.eventLink row held)
  · exact fun row held => right.eventObservation row (left.eventObservation row held)
  · exact fun row held => right.eventClaim row (left.eventClaim row held)
  · exact fun row held => right.eventAuthorityConfiguration row
      (left.eventAuthorityConfiguration row held)
  · exact fun row held => right.eventAuthorityReceipt row (left.eventAuthorityReceipt row held)

theorem insertRow_keeps {ρ : Type} {key : ρ → String} {table next : Table ρ key} {row : ρ}
    {texts : List String} (inserted : insertRow table row texts = .ok next) :
    ∀ held ∈ table, held ∈ next := by
  obtain ⟨_, rfl⟩ := insertRow_ok inserted
  exact fun held member => Table.mem_append.mpr (.inl member)

theorem insertPayload_keeps {log next : Log} {eventId : String} {payload : Payload}
    (inserted : insertPayload platform log eventId payload = .ok next) : log.Keeps next := by
  cases payload <;>
    simp only [insertPayload, insertPlanCreated, insertPlanLifecycleChanged, insertWorkDerived,
      insertWorkRetired, insertWorkDependencyDeclared, insertResultRecorded, insertLinkAsserted,
      insertObservationRecorded, insertClaimRecorded, insertAuthorityConfiguration,
      insertAuthorityReceipt, bind_ok, pure_ok] at inserted <;>
    first
      | obtain ⟨table, inserted, rfl⟩ := inserted
      | obtain ⟨_, _, table, inserted, rfl⟩ := inserted
  all_goals
    have kept := insertRow_keeps inserted
    constructor <;> first | exact kept | exact fun _ held => held | exact fun _ held _ => held

theorem EventInserted.keeps {log next : Log} {event : Event} {materialized : Bool}
    {recordedAt : Int} {row : EventRow}
    (inserted : EventInserted platform log event materialized recordedAt row next) :
    log.Keeps next := by
  have kept := fun held member => inserted.mem_iff.mpr (.inl member : held ∈ log.events ∨ held = row)
  obtain ⟨_, rfl⟩ := inserted.appended
  constructor
  · exact fun held member _ => kept held member
  all_goals exact fun _ held => held

theorem fetch_keeps {ρ α : Type} {key : ρ → String} {before after : Table ρ key}
    (kept : ∀ row ∈ before, row ∈ after) {eventId : String} {rest : ρ → Except StoreError α}
    {result : α} (read : (fetchRow before eventId >>= rest) = .ok result) :
    (fetchRow after eventId >>= rest) = .ok result := by
  obtain ⟨row, fetched, made⟩ := bind_ok.mp read
  obtain ⟨held, named⟩ := fetchRow_ok.mp fetched
  exact bind_ok.mpr ⟨row, fetchRow_ok.mpr ⟨kept row held, named⟩, made⟩

/-- A payload that a log can read stays readable, unchanged. -/
theorem loadPayload_keeps {before after : Log} (kept : before.Keeps after) {eventId : String}
    {kind : EventKind} {payload : Payload}
    (read : loadPayload platform before eventId kind = .ok payload) :
    loadPayload platform after eventId kind = .ok payload := by
  cases kind <;> simp only [loadPayload, map_ok] at read ⊢ <;>
    obtain ⟨loaded, read, rfl⟩ := read <;> refine ⟨loaded, ?_, rfl⟩
  · exact fetch_keeps kept.eventPlan read
  · exact fetch_keeps kept.eventPlan read
  · exact fetch_keeps kept.eventWork read
  · exact fetch_keeps kept.eventWorkDependency read
  · exact fetch_keeps kept.eventResult read
  · exact fetch_keeps kept.eventLink read
  · exact fetch_keeps kept.eventObservation read
  · exact fetch_keeps kept.eventClaim read
  · exact fetch_keeps kept.eventWorkRetired read
  · exact fetch_keeps kept.eventAuthorityConfiguration read
  · exact fetch_keeps kept.eventAuthorityReceipt read

/-! ## The digested fields -/

theorem setOnly_keys (key : String) (value : Option Json) :
    ((setOnly key value).map (·.1)).Sublist [key] := by
  cases value <;> simp [setOnly]

theorem domain_key_planCreated (p : PlanCreated) :
    "domain" ∈ p.dump.map (·.1) ↔ p.domain.isSome := by
  unfold PlanCreated.dump setOnly
  cases p.scope <;> cases p.constraints <;> cases p.expectedObservations <;>
    cases p.domain <;> simp

theorem domain_key_workDerived (p : WorkDerived) :
    "domain" ∈ p.dump.map (·.1) ↔ p.domain.isSome := by
  unfold WorkDerived.dump setOnly
  cases p.objective <;> cases p.constraints <;> cases p.expectedObservations <;>
    cases p.domain <;> simp

theorem withoutDomain_of_none {payload : Payload} (unset : payload.domain = none) :
    payload.withoutDomain = payload := by
  cases payload with
  | planCreated p => cases p; cases unset; rfl
  | workDerived p => cases p; cases unset; rfl
  | _ => rfl

/-- The members of a dump. -/
def Payload.dump : Payload → List (String × Json)
  | planCreated p => p.dump
  | planLifecycleChanged p => p.dump
  | workDerived p => p.dump
  | workDependencyDeclared p => p.dump
  | resultRecorded p => p.dump
  | linkAsserted p => p.dump
  | observationRecorded p => p.dump
  | claimRecorded p => p.dump
  | workRetired p => p.dump
  | authorityConfiguration p => p.dump
  | authorityReceipt p => p.dump

theorem modelDump_eq (payload : Payload) : payload.modelDump = .obj payload.dump := by
  cases payload <;> rfl

theorem domain_key {payload : Payload} (set : payload.domain ≠ none) :
    "domain" ∈ payload.dump.map (·.1) ∧ "domain" ∉ payload.withoutDomain.dump.map (·.1) := by
  cases payload with
  | planCreated p =>
      refine ⟨(domain_key_planCreated p).mpr (Option.isSome_iff_ne_none.mpr set), ?_⟩
      exact fun held => absurd ((domain_key_planCreated _).mp held) (by simp)
  | workDerived p =>
      refine ⟨(domain_key_workDerived p).mpr (Option.isSome_iff_ne_none.mpr set), ?_⟩
      exact fun held => absurd ((domain_key_workDerived _).mp held) (by simp)
  | _ => exact absurd rfl set

theorem setOnly_wellKeyed {α : Type} (key : String) (value : Option α) {print : α → Json}
    (printed : ∀ item, (print item).WellKeyed) :
    ∀ member ∈ setOnly key (value.map print), member.2.WellKeyed := by
  cases value <;> simp [setOnly, printed]

theorem modelDump_wellKeyed (payload : Payload) : payload.modelDump.WellKeyed := by
  rw [modelDump_eq]
  refine ⟨?_, (Json.wellKeyedMembers_iff _).mpr ?_⟩
  · cases payload with
    | planCreated p =>
        have keys : (p.dump.map (·.1)).Sublist ["kind", "plan_ref", "project_ref", "objective",
            "rationale", "lifecycle", "scope", "constraints", "expected_observations",
            "domain"] := by
          simp only [PlanCreated.dump, List.map_append, List.map_cons, List.map_nil]
          exact ((((List.Sublist.refl _).append (setOnly_keys _ _)).append
            (setOnly_keys _ _)).append (setOnly_keys _ _)).append (setOnly_keys _ _)
        exact keys.nodup (by decide)
    | workDerived p =>
        have keys : (p.dump.map (·.1)).Sublist ["kind", "work_ref", "plan_ref", "work_kind",
            "role_requirement", "subject_ref", "objective", "constraints",
            "expected_observations", "domain"] := by
          simp only [WorkDerived.dump, List.map_append, List.map_cons, List.map_nil]
          exact ((((List.Sublist.refl _).append (setOnly_keys _ _)).append
            (setOnly_keys _ _)).append (setOnly_keys _ _)).append (setOnly_keys _ _)
        exact keys.nodup (by decide)
    | resultRecorded p =>
        have keys : (p.dump.map (·.1)).Sublist ["kind", "work_ref", "outcome", "result_ref",
            "summary", "occurrence_key"] := by
          simp only [ResultRecorded.dump, List.map_append, List.map_cons, List.map_nil]
          exact (List.Sublist.refl _).append (setOnly_keys _ _)
        exact keys.nodup (by decide)
    | _ => simp [Payload.dump, PlanLifecycleChanged.dump, WorkRetired.dump,
        WorkDependencyDeclared.dump, LinkAsserted.dump, ObservationRecorded.dump,
        ClaimRecorded.dump, AuthorityConfiguration.dump, AuthorityReceipt.dump]
  · have atoms : (∀ text, (Json.str text).WellKeyed) ∧ (∀ n, (Json.int n).WellKeyed) :=
      ⟨fun _ => trivial, fun _ => trivial⟩
    have numbers : ∀ number : Option Json.Double, (number.elim .null Json.float).WellKeyed := by
      intro number
      cases number <;> trivial
    have flags : ∀ flag : Option Bool, (flag.elim .null Json.bool).WellKeyed := by
      intro flag
      cases flag <;> trivial
    have texts := fun key (value : Option String) => setOnly_wellKeyed key value atoms.1
    have lists := fun key (value : Option (List String)) =>
      setOnly_wellKeyed key value textList_wellKeyed
    cases payload <;>
      simp only [Payload.dump, PlanCreated.dump, PlanLifecycleChanged.dump, WorkDerived.dump,
        WorkRetired.dump, WorkDependencyDeclared.dump, ResultRecorded.dump, LinkAsserted.dump,
        ObservationRecorded.dump, ClaimRecorded.dump, AuthorityConfiguration.dump,
        AuthorityReceipt.dump, List.forall_mem_append, List.forall_mem_cons, List.not_mem_nil,
        false_implies, implies_true, optionalText_wellKeyed, textList_wellKeyed,
        atoms, numbers, flags, and_self]
    · exact ⟨⟨⟨⟨trivial, texts _ _⟩, lists _ _⟩, lists _ _⟩, texts _ _⟩
    · exact ⟨⟨⟨⟨trivial, texts _ _⟩, lists _ _⟩, lists _ _⟩, texts _ _⟩
    · exact ⟨trivial, texts _ _⟩

/-! ## Emitted events -/

/-- The stored event reads back with its digested fields, and nothing that a reader makes
of it fails verification. -/
structure RoundTrips (platform : Platform) (log : Log) (event : Event) : Prop where
  payload : ∃ loaded, loadPayload platform log event.eventId event.kind = .ok loaded ∧
    event.payload.map Payload.modelDump = some loaded.modelDump ∧
    digest platform loaded.modelDump = event.payloadDigest
  rebuild : ∀ events, loadEvents platform log = .ok events → ∀ read ∈ events,
    read.eventId = event.eventId → read.verify platform = true
  stream : ∀ after events, readStream platform log after = .ok events → ∀ read ∈ events,
    read.eventId = event.eventId → read.verify platform = true
  positions : ∀ positions events, readPositions platform log positions = .ok events →
    ∀ read ∈ events, read.eventId = event.eventId → read.verify platform = true

theorem insertPayload_events {log next : Log} {eventId : String} {payload : Payload}
    (inserted : insertPayload platform log eventId payload = .ok next) :
    next.events = log.events := by
  cases payload <;>
    simp only [insertPayload, insertPlanCreated, insertPlanLifecycleChanged, insertWorkDerived,
      insertWorkRetired, insertWorkDependencyDeclared, insertResultRecorded, insertLinkAsserted,
      insertObservationRecorded, insertClaimRecorded, insertAuthorityConfiguration,
      insertAuthorityReceipt, bind_ok, pure_ok] at inserted <;>
    grind

section Emitted

variable {emitter : Emitter} {now recordedAt : Int} {log next middle : Log}
  {request : EmitRequest} {event : Event} {row : EventRow}

theorem emitted_envelope
    (emitted : Emitted platform emitter now recordedAt log request next event row middle)
    (subject : CanonicalRef platform request.subjectRef) :
    row.toEnvelope = event.toEnvelope ∧ row.materialized = true := by
  obtain ⟨subjectRef, cast, rfl⟩ := emitted.inserted.envelope
  have named : event.subjectRef = request.subjectRef := by
    rw [emitted.minted.envelope]
    rfl
  rw [← named] at subject
  rw [castSubject_canonical subject cast]
  exact ⟨rfl, rfl⟩

theorem emitted_held
    (emitted : Emitted platform emitter now recordedAt log request next event row middle) :
    row ∈ next.events := by
  obtain ⟨fresh, appended⟩ := emitted.inserted.appended
  have events : middle.events = log.events.append row fresh := by rw [appended]
  rw [insertPayload_events emitted.payload, events, Table.mem_append]
  exact .inr rfl

theorem emitted_keeps
    (emitted : Emitted platform emitter now recordedAt log request next event row middle) :
    log.Keeps next :=
  emitted.inserted.keeps.trans (insertPayload_keeps emitted.payload)

theorem emitted_kind
    (emitted : Emitted platform emitter now recordedAt log request next event row middle) :
    event.kind = request.payload.kind := by
  rw [emitted.minted.envelope]
  rfl

theorem emitted_loads (doubles : Json.ReadsDoubles platform.readFloat)
    (emitted : Emitted platform emitter now recordedAt log request next event row middle)
    (payloadSubject : CanonicalRef platform request.payload.subjectRef) {later : Log}
    (kept : next.Keeps later) :
    loadPayload platform later event.eventId event.kind =
      .ok request.payload.withoutDomain := by
  rw [emitted_kind emitted]
  exact loadPayload_keeps kept (loadPayload_insertPayload doubles payloadSubject emitted.payload)

/-- The one event that a reader can make of the emitted row. -/
theorem emitted_rebuilt (doubles : Json.ReadsDoubles platform.readFloat)
    (emitted : Emitted platform emitter now recordedAt log request next event row middle)
    (subject : CanonicalRef platform request.subjectRef)
    (payloadSubject : CanonicalRef platform request.payload.subjectRef) {later : Log}
    (kept : next.Keeps later) {held : EventRow} (member : held ∈ later.events)
    {rebuilt : Event} (built : rebuildEvent platform later held = .ok rebuilt)
    (named : rebuilt.eventId = event.eventId) :
    rebuilt = { event with payload := some request.payload.withoutDomain } := by
  obtain ⟨envelope, materialized⟩ := emitted_envelope emitted subject
  have sameId : held.eventId = row.eventId := by
    have rowId : row.eventId = event.eventId := by rw [envelope]
    unfold rebuildEvent at built
    split at built
    · obtain ⟨_, _, made⟩ := bind_ok.mp built
      cases made
      exact named.trans rowId.symm
    · cases built
      exact named.trans rowId.symm
  have same : held = row :=
    Table.eq_of_key member (kept.events row (emitted_held emitted) materialized) sameId
  subst same
  have loads := emitted_loads doubles emitted payloadSubject kept
  simp only [rebuildEvent, materialized, ↓reduceIte, envelope, loads] at built
  cases built
  rfl

end Emitted

/-- An emitted event round trips, now and in every later log, exactly when its payload
carries no domain token. -/
theorem emit_roundTrips_iff (doubles : Json.ReadsDoubles platform.readFloat) {live : Bool}
    {emitter : Emitter} {now recordedAt : Int} {log next : Log} {request : EmitRequest}
    {event : Event}
    (emitted : (emitter.emit platform live now recordedAt log request).2 = .ok (next, event))
    (subject : CanonicalRef platform request.subjectRef)
    (payloadSubject : CanonicalRef platform request.payload.subjectRef) {later : Log}
    (kept : next.Keeps later) :
    RoundTrips platform later event ↔ request.payload.domain = none := by
  obtain ⟨row, middle, emitted⟩ := emit_ok emitted
  have loads := emitted_loads doubles emitted payloadSubject kept
  constructor
  · intro trips
    obtain ⟨loaded, read, dumped, _⟩ := trips.payload
    rw [loads] at read
    cases read
    rw [emitted.minted.payload] at dumped
    simp only [Option.map_some, modelDump_eq, Option.some.injEq, Json.obj.injEq] at dumped
    by_contra set
    have keys := domain_key set
    rw [← dumped] at keys
    exact keys.2 keys.1
  · intro unset
    have same := withoutDomain_of_none unset
    have original : { event with payload := some request.payload.withoutDomain } = event := by
      rw [same, ← emitted.minted.payload]
    have verified := emitted.minted.verified
    have rebuilt : ∀ {held : EventRow}, held ∈ later.events → ∀ {rebuilt : Event},
        rebuildEvent platform later held = .ok rebuilt → rebuilt.eventId = event.eventId →
          rebuilt = event := fun member _ built named =>
      (emitted_rebuilt doubles emitted subject payloadSubject kept member built named).trans original
    refine ⟨⟨_, loads, ?_, ?_⟩, ?_, ?_, ?_⟩
    · rw [emitted.minted.payload, same]
      rfl
    · rw [same, emitted.minted.envelope]
      rfl
    · intro events loaded read member named
      obtain ⟨held, inLog, built, made, rfl⟩ := mem_loadEvents loaded member
      rw [rebuilt inLog made named]
      exact verified
    · intro after events streamed read member named
      obtain ⟨held, inLog, made⟩ := mem_readStream streamed member
      rw [rebuilt inLog made named]
      exact verified
    · intro positions events served read member named
      obtain ⟨held, inLog, made⟩ := mem_readPositions served member
      rw [rebuilt inLog made named]
      exact verified

theorem digest_withoutDomain_ne (collisionFree : CollisionFree platform) {payload : Payload}
    (set : payload.domain ≠ none) :
    digest platform payload.withoutDomain.modelDump ≠ digest platform payload.modelDump := by
  intro same
  have sorted := digest_injective collisionFree (modelDump_wellKeyed _) (modelDump_wellKeyed _) same
  rw [modelDump_eq, modelDump_eq] at sorted
  have keys := domain_key set
  exact keys.2 ((Json.keys_perm_of_sortKeys sorted).mem_iff.mpr keys.1)

/-- Nothing that a reader makes of an event emitted with a domain token verifies. -/
theorem rebuilt_unverified (collisionFree : CollisionFree platform)
    (doubles : Json.ReadsDoubles platform.readFloat) {live : Bool} {emitter : Emitter}
    {now recordedAt : Int} {log next : Log} {request : EmitRequest} {event : Event}
    (emitted : (emitter.emit platform live now recordedAt log request).2 = .ok (next, event))
    (subject : CanonicalRef platform request.subjectRef)
    (payloadSubject : CanonicalRef platform request.payload.subjectRef)
    (set : request.payload.domain ≠ none) {row : EventRow} (held : row ∈ next.events)
    {rebuilt : Event} (built : rebuildEvent platform next row = .ok rebuilt)
    (named : rebuilt.eventId = event.eventId) : rebuilt.verify platform = false := by
  obtain ⟨stored, middle, emitted⟩ := emit_ok emitted
  rw [emitted_rebuilt doubles emitted subject payloadSubject (.refl next) held built named]
  by_contra accepted
  have verified := (Event.verify_iff platform _).mp (by simpa using accepted)
  have digested : digest platform request.payload.withoutDomain.modelDump =
      event.payloadDigest := verified.payloadDigest
  rw [emitted.minted.envelope] at digested
  exact digest_withoutDomain_ne collisionFree set digested

/-! ## A plan that cannot be replayed -/

theorem storableText_ofList {chars : List Char} (solid : ∀ c ∈ chars, 32 ≤ c.toNat) :
    storableText (String.ofList chars) = true := by
  simp only [storableText, String.toList_ofList, Bool.not_eq_true', List.contains_eq_mem,
    decide_eq_false_iff_not]
  intro nul
  exact absurd (solid _ nul) (by decide)

theorem storableText_append (left right : String) :
    storableText (left ++ right) = (storableText left && storableText right) := by
  simp [storableText]

theorem storableText_plainDigest (value : Json) :
    storableText (digest plainPlatform value) = true := by
  rw [digest, storableText_append]
  simp only [plainPlatform, id, Json.canonicalJson, Bool.and_eq_true]
  exact ⟨by decide, storableText_ofList (Json.print_solid _)⟩

theorem storableText_plainHash {envelope : HashedEnvelope} {selfHash : String}
    (hashed : eventHash plainPlatform envelope = some selfHash) :
    storableText selfHash = true := by
  unfold eventHash at hashed
  split_ifs at hashed <;> cases hashed <;> exact storableText_plainDigest _

namespace LostDomain

def identity : IdentityContext where
  nodeRef := "node"
  actorRef := "actor"
  credential := none
  named := by decide

def request (domain : Option String) : EmitRequest where
  payload := .planCreated {
    planRef := "plan"
    projectRef := "project"
    objective := "objective"
    rationale := none
    lifecycle := .draft
    scope := none
    constraints := none
    expectedObservations := none
    domain := domain }
  subjectRef := none
  policyDigest := none
  scopeRef := none
  envelopeVersion := none

theorem request_emitted {domain : Option String}
    (texts : storableTexts (["plan", "project", "objective"] ++ textsOf domain) = true) :
    ∃ next event, ((Emitter.start identity).emit plainPlatform false 1 0 {} (request domain)).2 =
      .ok (next, event) := by
  obtain ⟨event, mint⟩ : ∃ event, mintEvent plainPlatform false identity
      ((Emitter.start identity).hlc.tick 1).stamp (Log.head {} identity.nodeRef)
      (request domain) = .ok event :=
    mintEvent_succeeds ⟨.inl ⟨rfl, rfl⟩, by simp [request]⟩ (.inl rfl)
  have minted := mintEvent_ok mint
  have hashed := storableText_plainHash ((Event.verify_iff _ _).mp minted.verified).selfHash
  have insertable : Insertable plainPlatform {} event none := by
    have envelope := minted.envelope
    obtain ⟨⟨hashedEnvelope, eventId, selfHash, scopeRef, signature, keyRef, scheme⟩, payload⟩ :=
      event
    obtain rfl : hashedEnvelope = _ := envelope
    obtain rfl : eventId = selfHash := minted.eventId
    obtain rfl : scopeRef = none := minted.scopeRef
    obtain rfl : signature = none := minted.signature
    obtain rfl : keyRef = none := minted.signingKeyRef
    obtain rfl : scheme = none := minted.signatureScheme
    refine ⟨rfl, show bigintRange 1 = true by decide, .inr ⟨rfl, rfl⟩, by simp, rfl, ?_⟩
    have stamp : storableText ((Emitter.start identity).hlc.tick 1).stamp = true := by decide
    have digest := storableText_plainDigest (request domain).payload.modelDump
    have node : storableText identity.nodeRef = true := by decide
    have actor : storableText identity.actorRef = true := by decide
    have head : Log.head {} identity.nodeRef = none := rfl
    have policy : (request domain).policyDigest = none := rfl
    have scope : (request domain).scopeRef = none := rfl
    simp only [storableTexts, Envelope.texts, textsOf, nextEnvelope, head, policy, scope,
      Option.map_none, Option.toList_none, List.append_nil, List.all_cons, List.all_nil, stamp,
      digest, node, actor, Bool.and_true, Bool.true_and, Bool.and_self]
    exact hashed
  have insertion := insertEvent_succeeds insertable true 0
  have payload : ∀ log : Log, log.eventPlan = ∅ →
      ∃ next, insertPayload plainPlatform log event.eventId (request domain).payload =
        .ok next := by
    intro log empty
    cases written : insertPayload plainPlatform log event.eventId (request domain).payload with
    | ok next => exact ⟨next, rfl⟩
    | error _ =>
        simp only [insertPayload, request, insertPlanCreated, empty, textsOf, itemsOf,
          Option.toList_none, Option.getD_none, List.append_nil] at written
        rw [show domain.toList = textsOf domain from rfl, insertRow_succeeds texts rfl] at written
        cases written
  obtain ⟨next, written⟩ := payload { events := _ } rfl
  exact ⟨next, event, emit_succeeds mint insertion written⟩

/-- An emitted plan with a domain token is read back without it, and what the readers
make of it fails verification. -/
theorem domain_lost :
    ∃ next event, ((Emitter.start identity).emit plainPlatform false 1 0 {}
        (request (some "operations"))).2 = .ok (next, event) ∧
      CanonicalRef plainPlatform (request (some "operations")).subjectRef ∧
      CanonicalRef plainPlatform (request (some "operations")).payload.subjectRef ∧
      ¬ RoundTrips plainPlatform next event ∧
      ∀ row ∈ next.events, ∀ rebuilt, rebuildEvent plainPlatform next row = .ok rebuilt →
        rebuilt.eventId = event.eventId → rebuilt.verify plainPlatform = false := by
  obtain ⟨next, event, emitted⟩ := request_emitted
    (by decide : storableTexts (_ ++ textsOf (some "operations")) = true)
  have subject : CanonicalRef plainPlatform (request (some "operations")).subjectRef := by
    simp [CanonicalRef, request]
  have payloadSubject :
      CanonicalRef plainPlatform (request (some "operations")).payload.subjectRef := by
    simp [CanonicalRef, request, Payload.subjectRef]
  refine ⟨next, event, emitted, subject, payloadSubject, ?_, fun row held rebuilt =>
    rebuilt_unverified plainPlatform_collisionFree plainPlatform_readsDoubles emitted subject
      payloadSubject (by simp [request, Payload.domain]) held⟩
  intro trips
  obtain ⟨_, middle, stored⟩ := emit_ok emitted
  obtain ⟨loaded, read, _, digested⟩ := trips.payload
  rw [emitted_loads plainPlatform_readsDoubles stored payloadSubject (.refl next)] at read
  cases read
  rw [stored.minted.envelope] at digested
  exact digest_withoutDomain_ne plainPlatform_collisionFree
    (by simp [request, Payload.domain]) digested

theorem undomained_roundTrips :
    ∃ next event, ((Emitter.start identity).emit plainPlatform false 1 0 {} (request none)).2 =
        .ok (next, event) ∧ RoundTrips plainPlatform next event := by
  obtain ⟨next, event, emitted⟩ := request_emitted
    (by decide : storableTexts (_ ++ textsOf none) = true)
  refine ⟨next, event, emitted, (emit_roundTrips_iff plainPlatform_readsDoubles emitted ?_ ?_
    (.refl next)).mpr rfl⟩
  · simp [CanonicalRef, request]
  · simp [CanonicalRef, request, Payload.subjectRef]

end LostDomain

end Kawa
