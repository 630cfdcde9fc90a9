import Kawa.ReduceProgress
import Kawa.AdmitProgress
import Kawa.Provenance

/-!
What admission alone leaves of a log, whatever it is offered: each position held once, each
stamp readable, payload rows of materialized events only, and every created plan whole.
-/

namespace Kawa

open Result Latest

variable {platform : Platform} {readPayload : String → Option Payload}

/-! ## What the columns of a payload accept -/

/-- The text parameters of a payload's INSERT. -/
def Payload.texts : Payload → List String
  | .planCreated p => [p.planRef, p.projectRef, p.objective] ++ textsOf p.rationale ++
      textsOf p.scope ++ itemsOf p.constraints ++ itemsOf p.expectedObservations ++ textsOf p.domain
  | .planLifecycleChanged p => [p.planRef]
  | .workDerived p => [p.workRef, p.planRef, p.workKind] ++ textsOf p.roleRequirement ++
      textsOf p.objective ++ itemsOf p.constraints ++ itemsOf p.expectedObservations ++
      textsOf p.domain
  | .workDependencyDeclared p => [p.workRef, p.dependencyWorkRef]
  | .resultRecorded p => [p.workRef, p.resultRef] ++ textsOf p.summary ++ textsOf p.occurrenceKey
  | .linkAsserted p => [p.sourceRef, p.targetRef]
  | .observationRecorded p => p.predicate :: textsOf p.valueText ++ textsOf p.valueTime ++
      textsOf p.occurredAt ++ textsOf p.sourceRef ++ textsOf p.sourceRevision ++
      textsOf p.contentDigest ++ textsOf p.fetchedAt
  | .claimRecorded p => p.proposition :: textsOf p.basisNote
  | .workRetired p => p.workRef :: textsOf p.note
  | .authorityConfiguration p => [p.authorityKey, p.configurationDigest] ++
      textsOf p.priorConfigurationDigest ++ textsOf p.successionProof
  | .authorityReceipt p => [p.authorityKey, p.operationDigest, p.configurationDigest,
      p.quorumProof] ++ textsOf p.priorAuthorityReceiptDigest ++ textsOf p.policyDigest

/-- Its integers fit their columns. -/
def Payload.inRange : Payload → Bool
  | .authorityConfiguration p => bigintRange p.authorityEpoch && intRange p.quorum
  | .authorityReceipt p => bigintRange p.authorityEpoch
  | _ => true

/-- Its subject, where it has one, is a uuid. -/
def Payload.SubjectCasts (platform : Platform) : Payload → Prop
  | .workDerived p => ∃ subjectRef, castSubject platform p.subjectRef = .ok subjectRef
  | _ => True

structure Payload.Storable (platform : Platform) (payload : Payload) : Prop where
  texts : storableTexts payload.texts = true
  inRange : payload.inRange = true
  subject : payload.SubjectCasts platform

theorem insertRow_succeeds_iff {ρ : Type} {key : ρ → String} {table : Table ρ key} {row : ρ}
    {texts : List String} (fresh : table.holds (key row) = false) :
    (∃ next, insertRow table row texts = .ok next) ↔ storableTexts texts = true := by
  constructor
  · rintro ⟨next, inserted⟩
    by_contra unstorable
    rw [insertRow, if_pos (by simpa using unstorable)] at inserted
    cases inserted
  · exact fun storable => ⟨_, insertRow_succeeds storable fresh⟩

theorem insertRow_mem {ρ : Type} {key : ρ → String} {table next : Table ρ key} {row : ρ}
    {texts : List String} (inserted : insertRow table row texts = .ok next) : row ∈ next := by
  obtain ⟨_, rfl⟩ := insertRow_ok inserted
  exact Table.mem_append.mpr (.inr rfl)

theorem bind_pure_succeeds {ε α β : Type} {first : Except ε α} {f : α → β} :
    (∃ made, (first >>= fun value => pure (f value)) = .ok made) ↔
      ∃ value, first = .ok value := by
  simp only [bind_ok, pure_ok]
  constructor
  · rintro ⟨_, value, done, _⟩
    exact ⟨value, done⟩
  · rintro ⟨value, done⟩
    exact ⟨_, value, done, rfl⟩

theorem require_bind_succeeds {ε' : Type} {condition : Bool} {error : StoreError}
    {rest : Except StoreError ε'} :
    (∃ made, (require condition error >>= fun _ => rest) = .ok made) ↔
      condition = true ∧ ∃ made, rest = .ok made := by
  cases condition <;> simp [require, bind, Except.bind]

theorem insertPayload_succeeds_iff {log : Log} {eventId : String} {payload : Payload}
    (unused : eventId ∉ log.payloadIds) :
    (∃ next, insertPayload platform log eventId payload = .ok next) ↔
      payload.Storable platform := by
  simp only [Log.payloadIds, List.mem_append, not_or] at unused
  obtain ⟨⟨⟨⟨⟨⟨⟨⟨⟨plan, work⟩, dependency⟩, result⟩, retired⟩, link⟩, observation⟩, claim⟩,
    configuration⟩, receipt⟩ := unused
  have textsOnly : ∀ payload : Payload, payload.inRange = true → payload.SubjectCasts platform →
      (storableTexts payload.texts = true ↔ payload.Storable platform) := fun _ range subject =>
    ⟨fun texts => ⟨texts, range, subject⟩, fun storable => storable.texts⟩
  cases payload with
  | planCreated p =>
      exact (bind_pure_succeeds.trans (insertRow_succeeds_iff (fresh_of_notMem plan))).trans
        (textsOnly (.planCreated p) rfl trivial)
  | planLifecycleChanged p =>
      exact (bind_pure_succeeds.trans (insertRow_succeeds_iff (fresh_of_notMem plan))).trans
        (textsOnly (.planLifecycleChanged p) rfl trivial)
  | workDerived p =>
      constructor
      · rintro ⟨next, inserted⟩
        simp only [insertPayload, insertWorkDerived, bind_ok, pure_ok] at inserted
        obtain ⟨subjectRef, cast, table, written, _⟩ := inserted
        exact ⟨(insertRow_succeeds_iff (fresh_of_notMem work)).mp ⟨table, written⟩, rfl,
          subjectRef, cast⟩
      · rintro ⟨texts, _, subjectRef, cast⟩
        simp only [insertPayload, insertWorkDerived, cast]
        exact bind_pure_succeeds.mpr
          ((insertRow_succeeds_iff (fresh_of_notMem work)).mpr texts)
  | workDependencyDeclared p =>
      exact (bind_pure_succeeds.trans (insertRow_succeeds_iff (fresh_of_notMem dependency))).trans
        (textsOnly (.workDependencyDeclared p) rfl trivial)
  | resultRecorded p =>
      exact (bind_pure_succeeds.trans (insertRow_succeeds_iff (fresh_of_notMem result))).trans
        (textsOnly (.resultRecorded p) rfl trivial)
  | linkAsserted p =>
      exact (bind_pure_succeeds.trans (insertRow_succeeds_iff (fresh_of_notMem link))).trans
        (textsOnly (.linkAsserted p) rfl trivial)
  | observationRecorded p =>
      exact (bind_pure_succeeds.trans (insertRow_succeeds_iff (fresh_of_notMem observation))).trans
        (textsOnly (.observationRecorded p) rfl trivial)
  | claimRecorded p =>
      exact (bind_pure_succeeds.trans (insertRow_succeeds_iff (fresh_of_notMem claim))).trans
        (textsOnly (.claimRecorded p) rfl trivial)
  | workRetired p =>
      exact (bind_pure_succeeds.trans (insertRow_succeeds_iff (fresh_of_notMem retired))).trans
        (textsOnly (.workRetired p) rfl trivial)
  | authorityConfiguration p =>
      refine (require_bind_succeeds.trans (and_congr_right fun _ => bind_pure_succeeds.trans
        (insertRow_succeeds_iff (fresh_of_notMem configuration)))).trans ?_
      exact ⟨fun both => ⟨both.2, both.1, trivial⟩,
        fun storable => ⟨storable.inRange, storable.texts⟩⟩
  | authorityReceipt p =>
      refine (require_bind_succeeds.trans (and_congr_right fun _ => bind_pure_succeeds.trans
        (insertRow_succeeds_iff (fresh_of_notMem receipt)))).trans ?_
      exact ⟨fun both => ⟨both.2, both.1, trivial⟩,
        fun storable => ⟨storable.inRange, storable.texts⟩⟩

/-! ## Plans stay whole -/

theorem EventRow.Became.causalKey {old now : EventRow} (became : old.Became now) :
    now.causalKey = old.causalKey := by
  unfold EventRow.Became at became
  rw [became]
  rfl

/-- A creation without an objective is never the latest one of its plan. -/
theorem planWhole_iff {log : Log} {planRef : String} : log.PlanWhole planRef ↔
    ∀ pair ∈ log.creations planRef, pair.2.objective = none →
      ∃ other ∈ log.creations planRef, pair.1.causalKey < other.1.causalKey := by
  unfold Log.PlanWhole
  constructor
  · intro whole pair held bare
    cases found : latest (fun fact : EventRow × EventPlanRow => fact.1.causalKey)
        (log.creations planRef) with
    | none =>
        rw [latest_eq_none.mp found] at held
        cases held
    | some best =>
        have objective := whole best found
        have inCreations := latest_mem found
        refine ⟨best, inCreations, lt_of_le_of_ne (le_latest found pair held) fun same => ?_⟩
        -- equal keys name one event, and an event has one plan row
        have sameEvent : pair.1.eventId = best.1.eventId := congrArg (fun key : CausalKey =>
          (ofLex (ofLex (ofLex key).2).2).2) same
        obtain ⟨stored, _, _, named, _⟩ := mem_creations.mp held
        obtain ⟨bestStored, _, _, bestNamed, _⟩ := mem_creations.mp inCreations
        have sameFact : pair.2 = best.2 := Table.eq_of_key stored bestStored
          (named.symm.trans (sameEvent.trans bestNamed))
        rw [sameFact] at bare
        rw [bare] at objective
        cases objective
  · intro covered created found
    cases bare : created.2.objective with
    | some objective => rfl
    | none =>
        obtain ⟨other, held, later⟩ := covered created (latest_mem found) bare
        exact absurd (le_latest found other held) (not_le.mpr later)

theorem creations_kept {log next : Log} {planRef : String}
    (rows : ∀ row ∈ log.events, ∃ now ∈ next.events, row.Became now)
    (facts : ∀ fact ∈ log.eventPlan, fact ∈ next.eventPlan)
    {pair : EventRow × EventPlanRow} (held : pair ∈ log.creations planRef) :
    ∃ now ∈ next.creations planRef, now.1.causalKey = pair.1.causalKey := by
  obtain ⟨stored, named, inLog, same, kind⟩ := mem_creations.mp held
  obtain ⟨now, inNext, became⟩ := rows pair.1 inLog
  refine ⟨(now, pair.2), mem_creations.mpr ⟨facts _ stored, named, inNext, ?_, ?_⟩,
    became.causalKey⟩ <;> unfold EventRow.Became at became <;> rw [became]
  · exact same
  · exact kind

theorem creations_before {log next : Log} {planRef : String} {pair : EventRow × EventPlanRow}
    (held : pair ∈ next.creations planRef) (stored : pair.2 ∈ log.eventPlan) {row : EventRow}
    (inLog : row ∈ log.events) (became : row.Became pair.1) :
    (row, pair.2) ∈ log.creations planRef := by
  obtain ⟨_, named, _, same, kind⟩ := mem_creations.mp held
  refine mem_creations.mpr ⟨stored, named, inLog, ?_, ?_⟩ <;> unfold EventRow.Became at became
  · rw [← same, became]
  · rw [← kind, became]

/-- Creations that were there before keep a plan whole. -/
theorem Log.PlanWhole.grow {log next : Log} {planRef : String} (whole : log.PlanWhole planRef)
    (rows : ∀ row ∈ log.events, ∃ now ∈ next.events, row.Became now)
    (facts : ∀ fact ∈ log.eventPlan, fact ∈ next.eventPlan)
    (old : ∀ pair ∈ next.creations planRef,
      pair.2 ∈ log.eventPlan ∧ ∃ row ∈ log.events, row.Became pair.1) :
    next.PlanWhole planRef := by
  rw [planWhole_iff] at whole ⊢
  intro pair held bare
  obtain ⟨stored, row, inLog, became⟩ := old pair held
  have before := creations_before held stored inLog became
  obtain ⟨other, covers, later⟩ := whole _ before bare
  obtain ⟨now, inNext, key⟩ := creations_kept rows facts covers
  exact ⟨now, inNext, by rw [became.causalKey, key]; exact later⟩

theorem insertPayload_eventPlan {log next : Log} {eventId : String} {payload : Payload}
    (inserted : insertPayload platform log eventId payload = .ok next) :
    ∀ fact ∈ next.eventPlan, fact ∈ log.eventPlan ∨
      fact.eventId = eventId ∧ payload.plan? = some fact.planRef ∧ fact.lifecycle.isSome = true ∧
        (fact.objective = none → ∃ p, payload = .planLifecycleChanged p) := by
  intro fact held
  cases payload with
  | planCreated p =>
      simp only [insertPayload, insertPlanCreated, bind_ok, pure_ok] at inserted
      obtain ⟨table, written, rfl⟩ := inserted
      have inTable : fact ∈ table.rows := held
      rw [insertRow_rows written, List.mem_append, List.mem_singleton] at inTable
      rcases inTable with old | rfl
      · exact .inl old
      · exact .inr ⟨rfl, rfl, rfl, fun bare => by cases bare⟩
  | planLifecycleChanged p =>
      simp only [insertPayload, insertPlanLifecycleChanged, bind_ok, pure_ok] at inserted
      obtain ⟨table, written, rfl⟩ := inserted
      have inTable : fact ∈ table.rows := held
      rw [insertRow_rows written, List.mem_append, List.mem_singleton] at inTable
      rcases inTable with old | rfl
      · exact .inl old
      · exact .inr ⟨rfl, rfl, rfl, fun _ => ⟨p, rfl⟩⟩
  | _ =>
      simp only [insertPayload, insertWorkDerived, insertWorkRetired, insertWorkDependencyDeclared,
        insertResultRecorded, insertLinkAsserted, insertObservationRecorded, insertClaimRecorded,
        insertAuthorityConfiguration, insertAuthorityReceipt, bind_ok, pure_ok] at inserted
      first
        | obtain ⟨table, written, rfl⟩ := inserted
        | obtain ⟨_, _, table, written, rfl⟩ := inserted
      exact .inl held

/-! ## The invariant -/

structure Log.Admitted (platform : Platform) (log : Log) : Prop where
  stemmed : log.Stemmed platform
  stamped : log.Stamped
  positions : ∀ left ∈ log.events, ∀ right ∈ log.events, left.originNode = right.originNode →
    left.originSeq = right.originSeq → left = right
  origins : ∀ row ∈ log.events, storableText row.originNode = true
  payloads : ∀ eventId ∈ log.payloadIds,
    ∃ row ∈ log.events, row.eventId = eventId ∧ row.materialized = true
  lifecycles : log.LifecyclesSet
  plans : ∀ planRef, log.PlanWhole planRef

theorem empty_admitted : ({} : Store).log.Admitted platform where
  stemmed := empty_stemmed
  stamped row held := nomatch held
  positions left held := nomatch held
  origins row held := nomatch held
  payloads eventId named := nomatch named
  lifecycles row held := nomatch held
  plans planRef := by
    rw [planWhole_iff]
    intro pair held
    cases held

theorem stamped_of_admissible {receiver : Receiver} {event : Event}
    (admissible : receiver.temporal.admissible event.hlc receiver.nowMs = none) :
    (parseHlc event.hlc).isSome = true := by
  unfold TemporalPolicy.admissible at admissible
  cases parsed : parseHlc event.hlc with
  | none => simp [parsed] at admissible
  | some parts => rfl

theorem payloadIds_append {log next : Log} {event : Event} {materialized : Bool}
    {recordedAt : Int} {row : EventRow}
    (inserted : EventInserted platform log event materialized recordedAt row next) :
    next.payloadIds = log.payloadIds ∧ next.eventPlan = log.eventPlan := by
  obtain ⟨_, rfl⟩ := inserted.appended
  exact ⟨rfl, rfl⟩

/-- The row of an event that passed. -/
theorem Log.Admitted.insert {log next : Log} (admitted : log.Admitted platform) {event : Event}
    {materialized : Bool} {recordedAt : Int} {row : EventRow}
    (inserted : EventInserted platform log event materialized recordedAt row next)
    (verified : event.verify platform = true) (parses : (parseHlc event.hlc).isSome = true)
    (stored : storableText event.originNode = true) : next.Admitted platform := by
  obtain ⟨ids, plan⟩ := payloadIds_append inserted
  have named : row.originNode = event.originNode ∧ row.originSeq = event.originSeq :=
    ⟨inserted.links.1, inserted.links.2.1⟩
  have stamp : row.hlc = event.hlc := by
    obtain ⟨_, _, shape⟩ := inserted.envelope
    rw [shape]
  exact {
    stemmed := admitted.stemmed.append inserted verified
    stamped := by
      intro held member
      rcases inserted.mem_iff.mp member with old | rfl
      · exact admitted.stamped held old
      · rw [stamp]
        exact parses
    positions := by
      intro left leftHeld right rightHeld node seq
      rcases inserted.mem_iff.mp leftHeld with leftOld | rfl <;>
        rcases inserted.mem_iff.mp rightHeld with rightOld | rfl
      · exact admitted.positions left leftOld right rightOld node seq
      · exact absurd ⟨node.trans named.1, seq.trans named.2⟩ (inserted.position left leftOld)
      · exact absurd ⟨node.symm.trans named.1, seq.symm.trans named.2⟩
          (inserted.position right rightOld)
      · rfl
    origins := by
      intro held member
      rcases inserted.mem_iff.mp member with old | rfl
      · exact admitted.origins held old
      · rw [named.1]
        exact stored
    payloads := by
      intro eventId held
      obtain ⟨old, inLog, found⟩ := admitted.payloads eventId (ids ▸ held)
      exact ⟨old, inserted.mem_iff.mpr (.inl inLog), found⟩
    lifecycles := by
      unfold Log.LifecyclesSet
      rw [plan]
      exact admitted.lifecycles
    plans := by
      intro planRef
      refine (admitted.plans planRef).grow
        (fun old held => ⟨old, inserted.mem_iff.mpr (.inl held), .refl old⟩)
        (fun fact held => plan ▸ held) fun pair held => ?_
      obtain ⟨fact, _, inNext, same, _⟩ := mem_creations.mp held
      rw [plan] at fact
      refine ⟨fact, ?_⟩
      rcases inserted.mem_iff.mp inNext with old | new
      · exact ⟨_, old, .refl _⟩
      · -- a new row has no payload row yet
        have referenced : pair.2.eventId ∈ log.eventPlan.rows.map (·.eventId) :=
          List.mem_map_of_mem fact
        obtain ⟨other, inLog, id, _⟩ := admitted.payloads pair.2.eventId (by
          simp only [Log.payloadIds, List.mem_append]
          tauto)
        rw [new] at same
        exact absurd (id.trans same.symm) (inserted.fresh inLog) }

/-- The row of an upgraded stub. -/
theorem Log.Admitted.upgrade (collisionFree : CollisionFree platform) {log next : Log}
    (admitted : log.Admitted platform) {held : EventRow} {event : Event}
    (sameId : held.eventId = event.eventId) (verified : event.verify platform = true)
    (upgraded : upgradeRow log held event.scopeRef = .ok next) : next.Admitted platform := by
  have grows := grows_upgraded (fun _ => False) upgraded
  have origin : ∀ now ∈ next.events, ∃ row ∈ log.events, row.Became now := fun now member =>
    (grows.fresh now member).resolve_right id
  have tables : next.payloadIds = log.payloadIds ∧ next.eventPlan = log.eventPlan := by
    obtain ⟨_, _, rfl⟩ := upgradeRow_ok upgraded
    exact ⟨rfl, rfl⟩
  exact {
    stemmed := admitted.stemmed.upgrade collisionFree sameId verified upgraded
    stamped := by
      intro now member
      obtain ⟨row, inLog, became⟩ := origin now member
      unfold EventRow.Became at became
      rw [became]
      exact admitted.stamped row inLog
    positions := by
      intro left leftHeld right rightHeld node seq
      obtain ⟨leftRow, leftLog, leftBecame⟩ := origin left leftHeld
      obtain ⟨rightRow, rightLog, rightBecame⟩ := origin right rightHeld
      unfold EventRow.Became at leftBecame rightBecame
      have same : leftRow = rightRow := by
        refine admitted.positions leftRow leftLog rightRow rightLog ?_ ?_
        · rw [leftBecame, rightBecame] at node
          exact node
        · rw [leftBecame, rightBecame] at seq
          exact seq
      refine Table.eq_of_key leftHeld rightHeld ?_
      rw [leftBecame, rightBecame, same]
    origins := by
      intro now member
      obtain ⟨row, inLog, became⟩ := origin now member
      unfold EventRow.Became at became
      rw [became]
      exact admitted.origins row inLog
    payloads := by
      intro eventId named
      obtain ⟨row, inLog, same, whole⟩ := admitted.payloads eventId (tables.1 ▸ named)
      by_cases mine : row.eventId = held.eventId
      · exact ⟨_, (upgradeRow_mem upgraded).mpr (.inl ⟨row, inLog, mine, rfl⟩), same, rfl⟩
      · exact ⟨row, (upgradeRow_mem upgraded).mpr (.inr ⟨inLog, mine⟩), same, whole⟩
    lifecycles := by
      unfold Log.LifecyclesSet
      rw [tables.2]
      exact admitted.lifecycles
    plans := by
      intro planRef
      refine (admitted.plans planRef).grow grows.kept (fun fact held => tables.2 ▸ held)
        fun pair member => ?_
      obtain ⟨fact, _, inNext, _⟩ := mem_creations.mp member
      exact ⟨tables.2 ▸ fact, origin pair.1 inNext⟩ }

/-- The payload row of a materialized event whose reduction went through. -/
theorem Log.Admitted.write {log next : Log} (admitted : log.Admitted platform) {row : EventRow}
    (held : row ∈ log.events) (whole : row.materialized = true) {event : Event} {payload : Payload}
    (same : row.eventId = event.eventId) (carried : event.payload = some payload)
    (parses : (parseHlc event.hlc).isSome = true)
    (written : insertPayload platform log event.eventId payload = .ok next) {scan : Scan}
    {before after : Projections} (reduced : reduce next scan event before = .ok after) :
    next.Admitted platform := by
  have events := insertPayload_events written
  have stamped : next.Stamped := by
    unfold Log.Stamped
    rw [events]
    exact admitted.stamped
  have lifecycles : next.LifecyclesSet := by
    intro fact member
    rcases insertPayload_eventPlan written fact member with old | ⟨_, _, set, _⟩
    · exact admitted.lifecycles fact old
    · exact set
  have reduces := (reduce_succeeds_iff stamped lifecycles scan parses carried before).mp
    ⟨after, reduced⟩
  exact {
    stemmed := admitted.stemmed.congr events
    stamped := stamped
    positions := by
      rw [events]
      exact admitted.positions
    origins := by
      rw [events]
      exact admitted.origins
    payloads := by
      intro eventId named
      rw [events]
      rcases insertPayload_payloadIds written eventId named with rfl | old
      · exact ⟨row, held, same, whole⟩
      · exact admitted.payloads eventId old
    lifecycles := lifecycles
    plans := by
      intro planRef
      by_cases mine : payload.plan? = some planRef
      · exact reduces planRef mine
      · refine (admitted.plans planRef).grow
          (fun old inLog => ⟨old, by rw [events]; exact inLog, .refl old⟩)
          (insertPayload_keeps written).eventPlan fun pair member => ?_
        obtain ⟨fact, named, inNext, _⟩ := mem_creations.mp member
        rw [events] at inNext
        refine ⟨(insertPayload_eventPlan written _ fact).resolve_right ?_, _, inNext, .refl _⟩
        rintro ⟨_, other, _⟩
        exact mine (named ▸ other) }

/-! ## Over any run of admissions -/

theorem admitNext_fits {receiver : Receiver} {state next : AdmitState} {event : Event}
    (done : admitNext platform receiver state event = .ok next) :
    storableText event.originNode = true := by
  have stored : ∀ (state : AdmitState) (event : Event),
      insertAdmitted platform receiver state event = .ok next →
      storableText event.originNode = true := by
    intro state event done
    simp only [insertAdmitted, bind_ok] at done
    obtain ⟨log, inserted, _⟩ := done
    have texts := (insertEvent_fits inserted).storable
    exact List.all_eq_true.mp texts _ (by simp [Envelope.texts])
  unfold admitNext at done
  split at done
  · have named : (withhold event).originNode = event.originNode := by
      unfold withhold
      split <;> rfl
    rw [← named]
    exact stored _ _ done
  · exact stored _ _ done

theorem admitOne_stores {receiver : Receiver} {state next : AdmitState} {event : Event}
    (done : admitOne platform receiver state event = .ok next)
    (extends_ : event.originSeq = (state.head event.originNode).1 + 1) :
    next.store.log = state.store.log ∨ storableText event.originNode = true := by
  simp only [admitOne] at done
  split_ifs at done with frozen poisoned held gap unchained
  · cases done
    exact .inl rfl
  · cases done
    exact .inl rfl
  · omega
  · cases done
    exact .inl rfl
  · cases done
    exact .inl rfl
  · split at done
    · cases done
      exact .inl rfl
    · exact .inr (admitNext_fits done)

theorem admitOne_admitted (collisionFree : CollisionFree platform) {receiver : Receiver}
    {state next : AdmitState} {event : Event} (admitted : state.store.log.Admitted platform)
    (done : admitOne platform receiver state event = .ok next) :
    next.store.log.Admitted platform := by
  cases admitOne_ok done with
  | kept log _ _ _ =>
      rw [log]
      exact admitted
  | upgraded held upgrade _ _ =>
      obtain ⟨payload, middle, carried, row, written, reduced⟩ := upgrade.written
      have inLog := rowAt_mem upgrade.found
      obtain ⟨source, sourceVerified, stems⟩ := admitted.stemmed held inLog
      have stamp : held.hlc = event.hlc :=
        (stemmed_same collisionFree stems sourceVerified upgrade.verified upgrade.sameId).2.2.1
      have now : held.upgraded event.scopeRef ∈ middle.events :=
        (upgradeRow_mem row).mpr (.inl ⟨held, inLog, rfl, rfl⟩)
      refine (admitted.upgrade collisionFree upgrade.sameId upgrade.verified row).write now rfl
        upgrade.sameId carried ?_ written reduced
      rw [← stamp]
      exact admitted.stamped held inLog
  | inserted stored passed form write _ _ =>
      rcases admitOne_stores done passed.next with same | storable
      · rw [same]
        exact admitted
      · obtain ⟨log, row, inserted, wrote⟩ := write.written
        obtain ⟨envelope, _⟩ := form.same
        have parses : (parseHlc stored.hlc).isSome = true := by
          rw [envelope]
          exact stamped_of_admissible passed.admissible
        have entered : log.Admitted platform :=
          admitted.insert inserted (form.verify passed.verified) parses (by rw [envelope]; exact storable)
        rcases wrote with ⟨_, same, _⟩ | ⟨payload, carried, written, reduced⟩
        · rw [same]
          exact entered
        · obtain ⟨_, _, shape⟩ := inserted.envelope
          refine entered.write (inserted.mem_iff.mpr (.inr rfl)) ?_ ?_ carried parses written reduced
          · rw [shape]
            simp [Event.isStub, carried]
          · rw [shape]

/-- Nothing that a node emitted itself. -/
def Call.Delivers (_store : Store) (call : Call) : Prop := call.emits = none

theorem called_admitted (collisionFree : CollisionFree platform) {store next : Store} {call : Call}
    (admitted : store.log.Admitted platform) (delivers : call.Delivers store)
    (called : Called platform readPayload store call next) : next.log.Admitted platform := by
  cases called_cases called with
  | emitted _ _ _ _ _ _ _ requested _ _ =>
      rw [Call.Delivers, requested] at delivers
      cases delivers
  | delivered receiver clock batch final _ done log _ =>
      rw [log]
      have held : (fun state : AdmitState => state.store.log.Admitted platform) final :=
        foldlM_invariant (fun _ _ _ _ held step => admitOne_admitted collisionFree held step)
          admitted done
      exact held

theorem run_admitted (collisionFree : CollisionFree platform) {calls : List Call} {store : Store}
    (run : Run (Run.when Call.Delivers (Called platform readPayload)) {} calls store) :
    store.log.Admitted platform :=
  run.invariant (fun store => store.log.Admitted platform)
    (fun _ _ _ held step => called_admitted collisionFree held step.1 step.2) empty_admitted

end Kawa
