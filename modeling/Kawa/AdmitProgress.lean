import Kawa.LogSound

/-!
When an admission succeeds: what one store could insert passes every gate of another one
that extends its chain, and is stored there whole, as a stub, or as the upgrade of one.
-/

namespace Kawa

open Result

variable {platform : Platform} {receiver : Receiver} {readPayload : String → Option Payload}

/-! ## Every gate passed -/

theorem refusal_none {event : Event}
    (admissible : receiver.temporal.admissible event.hlc receiver.nowMs = none)
    (verified : event.verify platform = true)
    (attested : Attested platform receiver.keys receiver.trust event.toEnvelope) :
    receiver.refusal platform event = none := by
  have opens := ((Event.verify_iff _ _).mp verified).scopeOpens
  have matching : (event.scopeRef.any fun scope =>
      decide (event.scopeDigest ≠ some (scopeDigestOf platform scope))) = false := by
    unfold Envelope.scopeOpens at opens
    cases scope : event.scopeRef with
    | none => rfl
    | some scopeRef =>
        rw [scope] at opens
        simp only [Bool.and_eq_true, beq_iff_eq] at opens
        simp [opens.2]
  obtain ⟨signature, keyRef, scheme, signed, key, profile, valid, active, node⟩ := attested.accepted
  have attestation : event.attestation = some (signature, keyRef, scheme) :=
    attestation_eq_some.mpr ⟨signed, key, profile⟩
  have accepted : admits (evaluate platform event.selfHash signature keyRef scheme receiver.keys
      receiver.trust (some event.originSeq)) = true :=
    (admits_iff _).mpr ⟨valid, active⟩
  simp only [Receiver.refusal, admissible, matching, verified, attestation, accepted, node,
    Bool.false_eq_true, Bool.not_true, ne_eq, not_true_eq_false, ↓reduceIte]

/-- A delivery that the held chain of its origin continues with. -/
structure Continues (state : AdmitState) (event : Event) : Prop where
  thawed : event.originNode ∉ state.frozen
  clean : event.originNode ∉ state.poisoned
  seq : event.originSeq = (state.head event.originNode).1 + 1
  prev : event.prevHash = (state.head event.originNode).2

theorem admitOne_next {state : AdmitState} {event : Event} (continues : Continues state event)
    (passed : receiver.refusal platform event = none) :
    admitOne platform receiver state event = admitNext platform receiver state event := by
  obtain ⟨thawed, clean, seq, prev⟩ := continues
  simp only [admitOne, thawed, clean, seq, prev, passed, ne_eq, not_true_eq_false, ↓reduceIte]
  rw [if_neg (by omega)]

/-- A payload other than a configuration, which the genesis watch passes over. -/
def Payload.unwatched : Payload → Bool
  | .authorityConfiguration _ => false
  | _ => true

theorem insertAdmitted_whole (state : AdmitState) {event : Event} {payload : Payload}
    {middle log : Log} {projections : Projections} (carried : event.payload = some payload)
    (unwatched : payload.unwatched = true)
    (inserted : insertEvent platform state.store.log event true
      (receiver.ambient.recordedAt event.eventId) = .ok middle)
    (written : insertPayload platform middle event.eventId payload = .ok log)
    (reduced : reduce log receiver.ambient.scan event state.store.projections = .ok projections) :
    ∃ next, insertAdmitted platform receiver state event = .ok next ∧
      next.store = { state.store with log := log, projections := projections } ∧
      next.clock = state.clock.map fun clock =>
        updateClock clock event.hlc (receiver.ambient.wallClock event.eventId) := by
  have watch : ∀ state, authorityGenesisWatch platform receiver state event payload = state := by
    intro state
    cases payload with
    | authorityConfiguration p => cases unwatched
    | _ => rfl
  have whole : (!event.isStub) = true := by simp [Event.isStub, carried]
  simp only [insertAdmitted, whole, inserted, reduceAdmitted, carried, materialize, written, reduced,
    bind, Except.bind, watch, pure, Except.pure]
  exact ⟨_, rfl, rfl, rfl⟩

theorem insertAdmitted_stub (state : AdmitState) {event : Event} {log : Log}
    (stub : event.payload = none)
    (inserted : insertEvent platform state.store.log event false
      (receiver.ambient.recordedAt event.eventId) = .ok log) :
    ∃ next, insertAdmitted platform receiver state event = .ok next ∧
      next.store = { state.store with log := log } := by
  have whole : (!event.isStub) = false := by simp [Event.isStub, stub]
  simp only [insertAdmitted, whole, inserted, reduceAdmitted, stub, bind, Except.bind, pure,
    Except.pure]
  exact ⟨_, rfl, rfl⟩

/-! ## What one store could insert, another can -/

/-- What the columns of `events` ask of an envelope, wherever it is inserted. -/
structure Envelope.FitsColumns (platform : Platform) (envelope : Envelope) : Prop where
  subject : ∃ subjectRef, castSubject platform envelope.subjectRef = .ok subjectRef
  originSeq : bigintRange envelope.originSeq = true
  version : envelope.envelopeVersion > 1 ∨
    (envelope.scopeDigest = none ∧ envelope.scopeRef = none)
  storable : storableTexts envelope.texts = true

theorem insertEvent_fits {log next : Log} {event : Event} {materialized : Bool} {recordedAt : Int}
    (inserted : insertEvent platform log event materialized recordedAt = .ok next) :
    event.toEnvelope.FitsColumns platform := by
  simp only [insertEvent, bind_ok, require_ok] at inserted
  obtain ⟨subjectRef, cast, _, range, _, version, _, _, events, appended, _⟩ := inserted
  refine ⟨⟨subjectRef, cast⟩, range, ?_, ?_⟩
  · simpa using version
  · unfold insertRow at appended
    by_cases stored : storableTexts event.texts = true
    · exact stored
    · simp [stored] at appended

/-- Without its cleartext scope an envelope still fits. -/
theorem Envelope.FitsColumns.withoutScope {envelope : Envelope}
    (fits : envelope.FitsColumns platform) :
    ({ envelope with scopeRef := none } : Envelope).FitsColumns platform where
  subject := fits.subject
  originSeq := fits.originSeq
  version := fits.version.imp id fun scopeless => ⟨scopeless.1, rfl⟩
  storable := by
    have stored := fits.storable
    simp only [storableTexts, Envelope.texts, List.all_append, Bool.and_eq_true] at stored ⊢
    simp_all [textsOf]

theorem insertable_next (collisionFree : CollisionFree platform) {log : Log}
    (invariant : log.Invariant platform) {event : Event} (fits : event.toEnvelope.FitsColumns platform)
    (verified : event.verify platform = true)
    (seq : event.originSeq = (log.headMark event.originNode).1 + 1) :
    ∃ subjectRef, Insertable platform log event subjectRef := by
  obtain ⟨subjectRef, cast⟩ := fits.subject
  have checked := (Event.verify_iff _ _).mp verified
  have free : ∀ row ∈ log.events,
      ¬ (row.originNode = event.originNode ∧ row.originSeq = event.originSeq) := by
    rintro row held ⟨node, same⟩
    have := headMark_ge held
    rw [node] at this
    omega
  refine ⟨subjectRef, cast, fits.originSeq, fits.version, free, ?_, fits.storable⟩
  rw [Table.holds_eq_false]
  intro row held same
  have hashed := (invariant.hashed row held).1
  rw [same, ← checked.eventId] at hashed
  have spot := eventHash_injective collisionFree hashed checked.selfHash
  exact free row held ⟨spot.originNode, spot.originSeq⟩

/-! ## One delivery to a store -/

/-- What a store must be for an event to be the next of its origin. -/
structure Extends (store : Store) (event : Event) : Prop where
  thawed : ∀ row ∈ store.security.forkEvidence.rows, row.frozen = true →
    row.originNode ≠ event.originNode
  seq : event.originSeq = (store.log.headMark event.originNode).1 + 1
  prev : event.prevHash = (store.log.headMark event.originNode).2

theorem start_thawed {store : Store} {node : String} (clock : Option HLC)
    (thawed : ∀ row ∈ store.security.forkEvidence.rows, row.frozen = true →
      row.originNode ≠ node) : node ∉ (AdmitState.start store clock).frozen := by
  intro frozen
  obtain ⟨row, member, same⟩ := List.mem_map.mp frozen
  obtain ⟨held, flagged⟩ := List.mem_filter.mp member
  exact thawed row held flagged same

theorem Extends.continues {store : Store} {event : Event} (extends_ : Extends store event)
    (clock : Option HLC) : Continues (AdmitState.start store clock) event where
  thawed := start_thawed clock extends_.thawed
  clean := List.not_mem_nil
  seq := by rw [headsAgree_start]; exact extends_.seq
  prev := by rw [headsAgree_start]; exact extends_.prev

theorem called_admit {store : Store} {clock : Option HLC} {batch : List Event} {final : AdmitState}
    (admitted : admitBatch platform receiver store clock batch = .ok final) :
    Called platform readPayload store (.deliver receiver clock batch) final.store :=
  toOption_map_eq_some.mpr ⟨final, admitted, rfl⟩

theorem admitBatch_one {store : Store} {clock : Option HLC} {event : Event} {final : AdmitState}
    (admitted : admitOne platform receiver (AdmitState.start store clock) event = .ok final) :
    admitBatch platform receiver store clock [event] = .ok final := by
  simp only [admitBatch, List.foldlM_cons, List.foldlM_nil, admitted, bind, Except.bind, pure,
    Except.pure]

theorem deliver_whole {store : Store} {event : Event} {payload : Payload} {middle log : Log}
    {projections : Projections} (clock : Option HLC) (extends_ : Extends store event)
    (passed : receiver.refusal platform event = none) (requested : receiver.unrequested event = false)
    (carried : event.payload = some payload) (unwatched : payload.unwatched = true)
    (inserted : insertEvent platform store.log event true
      (receiver.ambient.recordedAt event.eventId) = .ok middle)
    (written : insertPayload platform middle event.eventId payload = .ok log)
    (reduced : reduce log receiver.ambient.scan event store.projections = .ok projections) :
    ∃ final, admitBatch platform receiver store clock [event] = .ok final ∧
      final.store = { store with log := log, projections := projections } ∧
      final.clock = clock.map fun clock =>
        updateClock clock event.hlc (receiver.ambient.wallClock event.eventId) := by
  obtain ⟨final, done, same, moved⟩ := insertAdmitted_whole (AdmitState.start store clock)
    carried unwatched inserted written reduced
  refine ⟨final, admitBatch_one ?_, same, moved⟩
  rw [admitOne_next (extends_.continues clock) passed, admitNext, requested, Bool.and_false]
  exact done

theorem deliver_upgrade {store : Store} {event : Event} {payload : Payload} {held : EventRow}
    {middle log : Log} {projections : Projections} (clock : Option HLC)
    (thawed : ∀ row ∈ store.security.forkEvidence.rows, row.frozen = true →
      row.originNode ≠ event.originNode)
    (below : event.originSeq ≤ (store.log.headMark event.originNode).1)
    (stored : storableText event.originNode = true)
    (found : store.log.rowAt event.originNode event.originSeq = some held)
    (sameId : held.eventId = event.eventId) (requested : receiver.unrequested event = false)
    (verified : event.verify platform = true) (carried : event.payload = some payload)
    (upgraded : upgradeRow store.log held event.scopeRef = .ok middle)
    (written : insertPayload platform middle event.eventId payload = .ok log)
    (reduced : reduce log receiver.ambient.scan event store.projections = .ok projections) :
    ∃ final, admitBatch platform receiver store clock [event] = .ok final ∧
      final.store = { store with log := log, projections := projections } := by
  have stub := (upgradeRow_ok upgraded).1
  have frozen := start_thawed clock thawed
  have clean : event.originNode ∉ (AdmitState.start store clock).poisoned := List.not_mem_nil
  have reached : event.originSeq ≤ ((AdmitState.start store clock).head event.originNode).1 := by
    rw [headsAgree_start]
    exact below
  have begun : (AdmitState.start store clock).store = store := rfl
  obtain ⟨final, done, same⟩ : ∃ final,
      admitHeld platform receiver (AdmitState.start store clock) event = .ok final ∧
        final.store = { store with log := log, projections := projections } := by
    simp only [admitHeld, stored, require, begun, found, sameId, carried, stub, requested, verified,
      upgraded, materialize, written, reduced, bind, Except.bind, ↓reduceIte, Bool.not_true,
      Bool.false_eq_true, pure, Except.pure]
    exact ⟨_, rfl, rfl⟩
  refine ⟨final, admitBatch_one ?_, same⟩
  simp only [admitOne, frozen, clean, reached, ↓reduceIte]
  exact done

/-! ## Events to deliver -/

/-- The first event of a node, as the node has emitted it. -/
structure Sent (node : String) (payload : Payload) (scope : Option String) (event : Event) :
    Prop where
  carried : event.payload = some payload
  kind : event.kind = payload.kind
  scopeRef : event.scopeRef = scope
  scopeDigest : event.scopeDigest = scope.map (scopeDigestOf plainPlatform)
  subjectRef : event.subjectRef = none
  version : event.envelopeVersion = if scope.isSome then 2 else 1
  originNode : event.originNode = node
  originSeq : event.originSeq = 1
  prevHash : event.prevHash = none
  hlc : parseHlc event.hlc = some (1, 0, node)
  verified : event.verify plainPlatform = true
  attested : Attested plainPlatform (plainKeys [node]) (plainTrust [node]) event.toEnvelope
  fits : event.toEnvelope.FitsColumns plainPlatform

/-- What a node has emitted first is ready to be sent. -/
theorem emitted_sent {node : String} (named : node ≠ "") {recordedAt : Int} {payload : Payload} {scopeRef : Option String} {next : Log} {event : Event} {row : EventRow}
    {middle : Log}
    (done : ((Emitter.start (plainIdentity node named)).emit plainPlatform true 1 recordedAt {}
      (plainRequest payload scopeRef)).2 = .ok (next, event))
    (emitted : Emitted plainPlatform (Emitter.start (plainIdentity node named)) 1 recordedAt {}
      (plainRequest payload scopeRef) next event row middle) :
    Sent node payload scopeRef event := by
  have minted := emitted.minted
  have envelope := minted.envelope
  have hlc : event.hlc = ((Emitter.start (plainIdentity node named)).hlc.tick 1).stamp := by
    rw [envelope]; rfl
  have origin : event.originNode = node := by rw [envelope]; rfl
  refine ⟨minted.payload, by rw [envelope]; rfl, minted.scopeRef, by rw [envelope]; rfl,
    by rw [envelope]; rfl, by rw [envelope]; rfl, origin, by rw [envelope]; rfl,
    by rw [envelope]; rfl, ?_, minted.verified, ?_, ?_⟩
  · rw [hlc]
    exact parseHlc_stamp { node := node, physicalMs := 1, logical := 0 } named
      (show 1 < 2 ^ 63 by decide) (show 0 < 2 ^ 63 by decide)
  · refine ⟨"pem" ++ event.selfHash, node, "ed25519", minted.signature, minted.signingKeyRef,
      minted.signatureScheme, ?_, ?_, ?_⟩
    · simp [resolveAndVerifyProvenance, verifyProvenance, plainKeys, plainPlatform, Dict.get?_cons]
    · simp [TrustRegistry.standing, plainTrust, Dict.get?_cons]
    · simp [TrustRegistry.nodeRef, plainTrust, Dict.get?_cons, origin]
  · simp only [Emitter.emit, bind_ok] at done
    obtain ⟨_, mint, _, inserted, _, _, result⟩ := done
    cases result
    exact insertEvent_fits inserted

theorem plain_sent {node : String} (named : node ≠ "") (stored : storableText node = true)
    {payload : Payload} (writable : payload.Writable plainPlatform) (scopeRef : Option String)
    (free : ∀ scope, scopeRef = some scope →
      reservedScope scope = false ∧ storableText scope = true) :
    ∃ event, Sent node payload scopeRef event := by
  obtain ⟨next, event, row, middle, done, emitted, _⟩ :=
    plain_emit empty_ready (by decide) named stored 1 0 writable scopeRef free
  exact ⟨event, emitted_sent named done emitted⟩

theorem verify_withoutScope {event : Event} (verified : event.verify platform = true) :
    ({ event with scopeRef := none } : Event).verify platform = true := by
  have checked := (Event.verify_iff _ _).mp verified
  rw [Event.verify_iff]
  exact {
    version := checked.version
    scopeless := fun one => ⟨rfl, (checked.scopeless one).2⟩
    scopeOpens := rfl
    payloadDigest := checked.payloadDigest
    selfHash := checked.selfHash
    eventId := checked.eventId }

/-- A receiver that trusts one node. -/
def plainReceiver (node : String) (requestedScopes : Option (List String)) (recordedAt : Int) :
    Receiver where
  keys := plainKeys [node]
  trust := plainTrust [node]
  requestedScopes := requestedScopes
  temporal := {}
  nowMs := 0
  ambient := { recordedAt := fun _ => recordedAt, wallClock := fun _ => 0, scan := .stored }

def plainClaim : ClaimRecorded := { proposition := "proposition", basisNote := none }

theorem plainClaim_writable : (Payload.claimRecorded plainClaim).Writable plainPlatform := by
  intro log eventId unused
  have fresh : log.eventClaim.holds eventId = false := fresh_of_notMem fun named => unused (by
    simp only [Log.payloadIds, List.mem_append]
    exact .inl (.inl (.inr named)))
  simp only [insertPayload, insertClaimRecorded]
  rw [insertRow_succeeds (by decide) fresh]
  exact ⟨_, rfl⟩

theorem reduce_claim {log : Log} {scan : Scan} {event : Event} {p : ClaimRecorded}
    (projections : Projections) (stamped : (parseHlc event.hlc).isSome = true)
    (carried : event.payload = some (.claimRecorded p)) :
    ∃ next, reduce log scan event projections = .ok next := by
  obtain ⟨⟨phys, logical, node⟩, parsed⟩ := Option.isSome_iff_exists.mp stamped
  obtain ⟨linked, held⟩ : ∃ linked, resolveHeld log projections event.toEnvelope = .ok linked := by
    simp only [resolveHeld, hlcParts, parsed, bind, Except.bind]
    split <;> exact ⟨_, rfl⟩
  simp only [reduce, held, carried, reducePayload, bind, Except.bind, Bool.or_true, ↓reduceIte]
  exact ⟨_, rfl⟩

/-- An event of a trusted node, ready to be admitted wherever it continues the chain. -/
structure Arrives (node : String) (payload : Payload) (event : Event) : Prop where
  carried : event.payload = some payload
  subjectRef : event.subjectRef = none
  originNode : event.originNode = node
  hlc : parseHlc event.hlc = some (1, 0, node)
  verified : event.verify plainPlatform = true
  attested : Attested plainPlatform (plainKeys [node]) (plainTrust [node]) event.toEnvelope
  fits : event.toEnvelope.FitsColumns plainPlatform

theorem Sent.arrives {node : String} {payload : Payload} {scope : Option String} {event : Event}
    (sent : Sent node payload scope event) : Arrives node payload event :=
  ⟨sent.carried, sent.subjectRef, sent.originNode, sent.hlc, sent.verified, sent.attested,
    sent.fits⟩

/-- The first event of a node, unscoped, under any kind. -/
def firstEnvelope (node : String) (kind : EventKind) (payload : Payload) : HashedEnvelope where
  originNode := node
  originSeq := 1
  hlc := ({ node := node, physicalMs := 1, logical := 0 } : HLC).stamp
  kind := kind
  subjectRef := none
  actorRef := "actor"
  policyDigest := none
  payloadDigest := digest plainPlatform payload.modelDump
  prevHash := none
  envelopeVersion := 1
  scopeDigest := none

/-- A node can sign any payload under any kind. -/
theorem plain_signed {node : String} (named : node ≠ "") (stored : storableText node = true)
    (kind : EventKind) (payload : Payload) :
    ∃ event, Arrives node payload event ∧ event.kind = kind ∧ event.originSeq = 1 ∧
      event.prevHash = none ∧ event.scopeRef = none ∧ event.envelopeVersion = 1 := by
  obtain ⟨hash, hashed⟩ : ∃ hash,
      eventHash plainPlatform (firstEnvelope node kind payload) = some hash := ⟨_, if_pos rfl⟩
  have hashText := storableText_plainHash hashed
  have stampText : storableText (firstEnvelope node kind payload).hlc = true :=
    storableText_stamp _ stored
  have digestText := storableText_plainDigest payload.modelDump
  let event : Event :=
    { firstEnvelope node kind payload with
      eventId := hash
      selfHash := hash
      scopeRef := none
      signature := some ("pem" ++ hash)
      signingKeyRef := some node
      signatureScheme := some "ed25519"
      payload := some payload }
  refine ⟨event, ⟨rfl, rfl, rfl, ?_, ?_, ?_, ?_⟩, rfl, rfl, rfl, rfl, rfl⟩
  · exact parseHlc_stamp { node := node, physicalMs := 1, logical := 0 } named
      (show 1 < 2 ^ 63 by decide) (show 0 < 2 ^ 63 by decide)
  · rw [Event.verify_iff]
    exact {
      version := .inl rfl
      scopeless := fun _ => ⟨rfl, rfl⟩
      scopeOpens := rfl
      payloadDigest := rfl
      selfHash := hashed
      eventId := rfl }
  · refine ⟨"pem" ++ hash, node, "ed25519", rfl, rfl, rfl, ?_, ?_, ?_⟩
    · simp [event, resolveAndVerifyProvenance, verifyProvenance, plainKeys, plainPlatform,
        Dict.get?_cons]
    · simp [TrustRegistry.standing, plainTrust, Dict.get?_cons]
    · simp [event, firstEnvelope, TrustRegistry.nodeRef, plainTrust, Dict.get?_cons]
  · refine ⟨⟨none, rfl⟩, (by decide : bigintRange 1 = true), .inr ⟨rfl, rfl⟩, ?_⟩
    have signed : storableText ("pem" ++ hash) = true := by
      rw [storableText_append, hashText]
      decide
    have actor : storableText "actor" = true := by decide
    have scheme : storableText "ed25519" = true := by decide
    have texts : event.texts = [hash, node, (firstEnvelope node kind payload).hlc, "actor",
        digest plainPlatform payload.modelDump, hash, "pem" ++ hash, node, "ed25519"] := rfl
    simp only [storableTexts, texts, List.all_cons, List.all_nil, hashText, stored, stampText, actor,
      digestText, signed, scheme, Bool.and_self]

/-- The cleartext scope can be taken off on the way. -/
theorem Arrives.withoutScope {node : String} {payload : Payload} {event : Event}
    (arrives : Arrives node payload event) : Arrives node payload { event with scopeRef := none } :=
  ⟨arrives.carried, arrives.subjectRef, arrives.originNode, arrives.hlc,
    verify_withoutScope arrives.verified, ⟨arrives.attested.accepted⟩, arrives.fits.withoutScope⟩

theorem Arrives.refusal {node : String} {payload : Payload} {event : Event}
    (arrives : Arrives node payload event) (requestedScopes : Option (List String))
    (recordedAt : Int) :
    (plainReceiver node requestedScopes recordedAt).refusal plainPlatform event = none := by
  refine refusal_none ?_ arrives.verified arrives.attested
  simp [TemporalPolicy.admissible, arrives.hlc, plainReceiver]

/-- The row of an event without a subject. -/
def storedRow (event : Event) (recordedAt : Int) (materialized : Bool) : EventRow :=
  { event.toEnvelope with recordedAt := recordedAt, materialized := materialized }

theorem Arrives.inserted {node : String} {payload : Payload} {event : Event}
    (arrives : Arrives node payload event) {log : Log} {n : Nat} (ready : log.Ready plainPlatform n)
    (seq : event.originSeq = (log.headMark event.originNode).1 + 1) (recordedAt : Int) :
    ∃ middle, insertEvent plainPlatform log event true recordedAt = .ok middle ∧
      EventInserted plainPlatform log event true recordedAt (storedRow event recordedAt true)
        middle := by
  obtain ⟨subjectRef, insertable⟩ := insertable_next plainPlatform_collisionFree ready.invariant
    arrives.fits arrives.verified seq
  have inserted := insertEvent_succeeds insertable true recordedAt
  obtain ⟨row, entered⟩ := insertEvent_ok inserted
  obtain ⟨stored, cast, shape⟩ := entered.envelope
  have printed : stored = none := by
    rw [arrives.subjectRef] at cast
    cases cast
    rfl
  have same : row = storedRow event recordedAt true := by
    rw [shape, printed, storedRow, ← arrives.subjectRef]
  exact ⟨_, inserted, same ▸ entered⟩

theorem Log.Ready.inserted {log next : Log} {n : Nat} (ready : log.Ready platform n) {event : Event}
    {materialized : Bool} {recordedAt : Int} {row : EventRow}
    (inserted : EventInserted platform log event materialized recordedAt row next)
    (verified : event.verify platform = true) (subject : event.subjectRef = none)
    (seq : event.originSeq = (log.headMark event.originNode).1 + 1)
    (prev : event.prevHash = (log.headMark event.originNode).2) : next.Ready platform (n + 1) where
  invariant := by
    obtain ⟨node, rowSeq, rowPrev, _⟩ := inserted.links
    refine ready.invariant.append inserted (inserted_hashed inserted ?_ verified) ?_
    · rw [subject]
      intro text set
      cases set
    · rw [follows_iff, node, rowSeq, rowPrev]
      exact ⟨seq, prev⟩
  referenced := by
    intro id named
    obtain ⟨_, same⟩ := inserted.appended
    have ids : next.payloadIds = log.payloadIds := by rw [same]; rfl
    obtain ⟨row, held, named⟩ := ready.referenced id (ids ▸ named)
    exact ⟨row, inserted.mem_iff.mpr (.inl held), named⟩
  short := by
    intro held member
    rcases inserted.mem_iff.mp member with old | rfl
    · have := ready.short held old
      push_cast
      omega
    · rw [inserted.links.2.1, seq]
      unfold Log.headMark
      cases found : log.head event.originNode with
      | none => simp
      | some last =>
          have := ready.short last (head_mem found).1
          simp only
          push_cast
          omega

theorem Log.Ready.written {log next : Log} {n : Nat} (ready : log.Ready platform n)
    {row : EventRow} (held : row ∈ log.events) {payload : Payload}
    (written : insertPayload platform log row.eventId payload = .ok next) :
    next.Ready platform n where
  invariant := ready.invariant.congr (insertPayload_events written)
  referenced := by
    intro id named
    rw [insertPayload_events written]
    rcases insertPayload_payloadIds written id named with rfl | old
    · exact ⟨row, held, rfl⟩
    · exact ready.referenced id old
  short := by
    rw [insertPayload_events written]
    exact ready.short

/-- An arriving event that is wanted is stored whole and reduced. -/
theorem arrive_whole {store : Store} {n : Nat} (ready : store.log.Ready plainPlatform n)
    (unforked : store.security.forkEvidence = ∅) {node : String} {payload : Payload} {event : Event}
    (arrives : Arrives node payload event) (requestedScopes : Option (List String))
    (recordedAt : Int)
    (seq : event.originSeq = (store.log.headMark event.originNode).1 + 1)
    (prev : event.prevHash = (store.log.headMark event.originNode).2)
    (requested : (plainReceiver node requestedScopes recordedAt).unrequested event = false)
    (unwatched : payload.unwatched = true) (writable : payload.Writable plainPlatform)
    (reduces : ∀ middle log : Log,
      EventInserted plainPlatform store.log event true recordedAt (storedRow event recordedAt true)
        middle →
      insertPayload plainPlatform middle event.eventId payload = .ok log →
      ∃ projections, reduce log .stored event store.projections = .ok projections) :
    ∃ next middle, Called plainPlatform (fun _ => none) store
        (.deliver (plainReceiver node requestedScopes recordedAt) none [event]) next ∧
      EventInserted plainPlatform store.log event true recordedAt (storedRow event recordedAt true)
        middle ∧
      insertPayload plainPlatform middle event.eventId payload = .ok next.log ∧
      reduce next.log .stored event store.projections = .ok next.projections ∧
      next.security = store.security ∧ next.log.Ready plainPlatform (n + 1) := by
  obtain ⟨middle, done, inserted⟩ := arrives.inserted ready seq recordedAt
  have begun := ready.inserted inserted arrives.verified arrives.subjectRef seq prev
  have unused : event.eventId ∉ middle.payloadIds := by
    intro named
    obtain ⟨fresh, same⟩ := inserted.appended
    have ids : middle.payloadIds = store.log.payloadIds := by rw [same]; rfl
    obtain ⟨row, held, named⟩ := ready.referenced _ (ids ▸ named)
    exact inserted.fresh held named
  obtain ⟨log, written⟩ := writable middle event.eventId unused
  obtain ⟨projections, reduced⟩ := reduces middle log inserted written
  have begins : Extends store event :=
    { thawed := by
        rw [unforked]
        exact fun row held => nomatch held
      seq := seq
      prev := prev }
  obtain ⟨final, admitted, same, _⟩ := deliver_whole none begins
    (arrives.refusal requestedScopes recordedAt) requested arrives.carried unwatched done written
    reduced
  have stored : storedRow event recordedAt true ∈ middle.events := inserted.mem_iff.mpr (.inr rfl)
  refine ⟨final.store, middle, called_admit admitted, inserted, ?_, ?_, ?_, ?_⟩ <;> rw [same]
  · exact written
  · exact reduced
  · exact begun.written stored written

end Kawa
