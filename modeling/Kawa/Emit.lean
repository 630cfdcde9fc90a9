import Kawa.Codec
import Kawa.Trust
import Kawa.Lib.Latest

/-!
The local write path: `emit` stamps, chains, hashes, signs, verifies and appends one
event.  The clock of the emitter ticks whether or not the append succeeds.
-/

namespace Kawa

open Result Latest

/-- Trusted write-path identity, established at the runtime boundary. -/
structure IdentityContext where
  nodeRef : String
  actorRef : String
  credential : Option NodeCredential
  named : nodeRef ≠ "" ∧ actorRef ≠ ""

structure Emitter where
  identity : IdentityContext
  hlc : HLC

/-- A new emitter starts its clock at zero. -/
def Emitter.start (identity : IdentityContext) : Emitter :=
  { identity := identity, hlc := HLC.start identity.nodeRef }

/-- The last row of an origin's chain. -/
def Log.head (log : Log) (originNode : String) : Option EventRow :=
  latest (·.originSeq) (log.events.rows.filter (·.originNode = originNode))

/-- The text parameters of an envelope. -/
def Envelope.texts (envelope : Envelope) : List String :=
  [envelope.eventId, envelope.originNode, envelope.hlc, envelope.actorRef, envelope.payloadDigest,
    envelope.selfHash] ++ textsOf envelope.policyDigest ++ textsOf envelope.prevHash ++
    textsOf envelope.scopeRef ++ textsOf envelope.scopeDigest ++ textsOf envelope.signature ++
    textsOf envelope.signingKeyRef ++ textsOf envelope.signatureScheme

/-- `INSERT INTO events`, with the constraints of the table. -/
def insertEvent (platform : Platform) (log : Log) (event : Event) (materialized : Bool)
    (recordedAt : Int) : Except StoreError Log := do
  let subjectRef ← castSubject platform event.subjectRef
  require (bigintRange event.originSeq) .outOfRange
  require (decide (event.envelopeVersion > 1) ||
    (event.scopeDigest.isNone && event.scopeRef.isNone)) .checkViolation
  require (log.events.rows.all fun row =>
    decide ¬ (row.originNode = event.originNode ∧ row.originSeq = event.originSeq)) .uniqueViolation
  let events ← insertRow log.events
    { event.toEnvelope with
      subjectRef := subjectRef
      recordedAt := recordedAt
      materialized := materialized }
    event.texts
  return { log with events := events }

/-- The caller's choices for one emit. -/
structure EmitRequest where
  payload : Payload
  subjectRef : Option String
  policyDigest : Option String
  scopeRef : Option String
  envelopeVersion : Option Int

/-- The version an emit stamps: as asked, else 2 with a scope and 1 without. -/
def EmitRequest.version (request : EmitRequest) : Int :=
  request.envelopeVersion.getD (if request.scopeRef.isSome then 2 else 1)

section Emit

variable (platform : Platform)

/-- The hashed fields of the next event of this emitter. -/
def nextEnvelope (identity : IdentityContext) (hlc : String) (head : Option EventRow)
    (request : EmitRequest) : HashedEnvelope where
  originNode := identity.nodeRef
  originSeq := head.elim 1 (·.originSeq + 1)
  hlc := hlc
  kind := request.payload.kind
  subjectRef := request.subjectRef
  actorRef := identity.actorRef
  policyDigest := request.policyDigest
  payloadDigest := digest platform request.payload.modelDump
  prevHash := head.map (·.selfHash)
  envelopeVersion := request.version
  scopeDigest := request.scopeRef.map (scopeDigestOf platform)

/-- The event of one emit, before it is appended. -/
def mintEvent (live : Bool) (identity : IdentityContext) (hlc : String) (head : Option EventRow)
    (request : EmitRequest) : Except StoreError Event := do
  require (!(decide (request.version = 1) && request.scopeRef.isSome)) .scopedVersion1
  let envelope := nextEnvelope platform identity hlc head request
  match eventHash platform envelope with
  | none => .error .unknownVersion
  | some selfHash =>
      require (!(identity.credential.isNone && live)) .unattested
      let event : Event :=
        { envelope with
          eventId := selfHash
          selfHash := selfHash
          scopeRef := request.scopeRef
          signature := identity.credential.map (·.sign selfHash)
          signingKeyRef := identity.credential.map (·.signingKeyRef)
          signatureScheme := identity.credential.map (·.signatureScheme)
          payload := some request.payload }
      require (event.verify platform) .unverified
      return event

/-- Append one event at the head of the emitter's own chain. -/
def Emitter.emit (live : Bool) (emitter : Emitter) (now recordedAt : Int) (log : Log)
    (request : EmitRequest) : Emitter × Except StoreError (Log × Event) :=
  let clock := emitter.hlc.tick now
  ({ emitter with hlc := clock }, do
    let event ← mintEvent platform live emitter.identity clock.stamp
      (log.head emitter.identity.nodeRef) request
    let log ← insertEvent platform log event true recordedAt
    let log ← insertPayload platform log event.eventId request.payload
    return (log, event))

end Emit

/-! ## What a successful emit has done -/

variable {platform : Platform}

/-- What `insertEvent` has checked and the row it has appended. -/
structure EventInserted (platform : Platform) (log : Log) (event : Event) (materialized : Bool)
    (recordedAt : Int) (row : EventRow) (next : Log) : Prop where
  envelope : ∃ subjectRef, castSubject platform event.subjectRef = .ok subjectRef ∧
    row = { event.toEnvelope with
      subjectRef := subjectRef
      recordedAt := recordedAt
      materialized := materialized }
  position : ∀ held ∈ log.events,
    ¬ (held.originNode = event.originNode ∧ held.originSeq = event.originSeq)
  appended : ∃ fresh : log.events.holds row.eventId = false,
    next = { log with events := log.events.append row fresh }

theorem insertEvent_ok {log next : Log} {event : Event} {materialized : Bool} {recordedAt : Int}
    (inserted : insertEvent platform log event materialized recordedAt = .ok next) :
    ∃ row, EventInserted platform log event materialized recordedAt row next := by
  simp only [insertEvent, bind_ok, require_ok] at inserted
  obtain ⟨subjectRef, cast, _, _, _, _, _, position, events, appended, result⟩ := inserted
  obtain ⟨fresh, rfl⟩ := insertRow_ok appended
  cases result
  refine ⟨_, ⟨subjectRef, cast, rfl⟩, ?_, fresh, rfl⟩
  intro held member
  exact of_decide_eq_true (List.all_eq_true.mp position held member)

namespace EventInserted

variable {log next : Log} {event : Event} {materialized : Bool} {recordedAt : Int} {row : EventRow}

theorem rows (inserted : EventInserted platform log event materialized recordedAt row next) :
    next.events.rows = log.events.rows ++ [row] := by
  obtain ⟨fresh, rfl⟩ := inserted.appended
  rfl

theorem mem_iff (inserted : EventInserted platform log event materialized recordedAt row next)
    {held : EventRow} : held ∈ next.events ↔ held ∈ log.events ∨ held = row := by
  rw [← Table.mem_rows, inserted.rows]
  simp

theorem fresh (inserted : EventInserted platform log event materialized recordedAt row next)
    {held : EventRow} (member : held ∈ log.events) : held.eventId ≠ row.eventId := by
  obtain ⟨fresh, rfl⟩ := inserted.appended
  exact Table.holds_eq_false.mp fresh held member

end EventInserted

/-- What `mintEvent` returns: a verified event with the emitter's envelope. -/
structure EventMinted (platform : Platform) (identity : IdentityContext) (hlc : String)
    (head : Option EventRow) (request : EmitRequest) (event : Event) : Prop where
  envelope : event.toHashedEnvelope = nextEnvelope platform identity hlc head request
  payload : event.payload = some request.payload
  scopeRef : event.scopeRef = request.scopeRef
  eventId : event.eventId = event.selfHash
  signature : event.signature = identity.credential.map (·.sign event.selfHash)
  signingKeyRef : event.signingKeyRef = identity.credential.map (·.signingKeyRef)
  signatureScheme : event.signatureScheme = identity.credential.map (·.signatureScheme)
  verified : event.verify platform = true

theorem mintEvent_ok {live : Bool} {identity : IdentityContext} {hlc : String}
    {head : Option EventRow} {request : EmitRequest} {event : Event}
    (minted : mintEvent platform live identity hlc head request = .ok event) :
    EventMinted platform identity hlc head request event := by
  simp only [mintEvent, bind_ok] at minted
  obtain ⟨_, _, minted⟩ := minted
  split at minted
  · cases minted
  · simp only [bind_ok, require_ok] at minted
    obtain ⟨_, _, _, verified, result⟩ := minted
    cases result
    exact ⟨rfl, rfl, rfl, rfl, rfl, rfl, rfl, verified⟩

/-- A successful emit: the event minted on the ticked clock, its row, its payload row. -/
structure Emitted (platform : Platform) (emitter : Emitter) (now recordedAt : Int) (log : Log)
    (request : EmitRequest) (next : Log) (event : Event) (row : EventRow) (middle : Log) :
    Prop where
  minted : EventMinted platform emitter.identity (emitter.hlc.tick now).stamp
    (log.head emitter.identity.nodeRef) request event
  inserted : EventInserted platform log event true recordedAt row middle
  payload : insertPayload platform middle event.eventId request.payload = .ok next

theorem emit_ok {live : Bool} {emitter : Emitter} {now recordedAt : Int} {log next : Log}
    {request : EmitRequest} {event : Event}
    (emitted : (emitter.emit platform live now recordedAt log request).2 = .ok (next, event)) :
    ∃ row middle, Emitted platform emitter now recordedAt log request next event row middle := by
  simp only [Emitter.emit, bind_ok] at emitted
  obtain ⟨minted, mint, middle, inserted, final, payload, result⟩ := emitted
  cases result
  obtain ⟨row, insertion⟩ := insertEvent_ok inserted
  exact ⟨row, middle, mintEvent_ok mint, insertion, payload⟩

/-! ## When an emit succeeds -/

theorem insertRow_succeeds {ρ : Type} {key : ρ → String} {table : Table ρ key} {row : ρ}
    {texts : List String} (storable : storableTexts texts = true)
    (fresh : table.holds (key row) = false) :
    insertRow table row texts = .ok (table.append row fresh) := by
  simp [insertRow, storable, Table.insert?, fresh]

/-- What the constraints of `events` ask of an event. -/
structure Insertable (platform : Platform) (log : Log) (event : Event)
    (subjectRef : Option String) : Prop where
  subject : castSubject platform event.subjectRef = .ok subjectRef
  originSeq : bigintRange event.originSeq = true
  version : event.envelopeVersion > 1 ∨ (event.scopeDigest = none ∧ event.scopeRef = none)
  position : ∀ row ∈ log.events,
    ¬ (row.originNode = event.originNode ∧ row.originSeq = event.originSeq)
  fresh : log.events.holds event.eventId = false
  storable : storableTexts event.texts = true

theorem insertEvent_succeeds {log : Log} {event : Event} {subjectRef : Option String}
    (insertable : Insertable platform log event subjectRef) (materialized : Bool)
    (recordedAt : Int) :
    insertEvent platform log event materialized recordedAt = .ok { log with
      events := log.events.append
        { event.toEnvelope with
          subjectRef := subjectRef
          recordedAt := recordedAt
          materialized := materialized } insertable.fresh } := by
  have version : (decide (event.envelopeVersion > 1) ||
      (event.scopeDigest.isNone && event.scopeRef.isNone)) = true := by
    rcases insertable.version with two | ⟨noDigest, noScope⟩
    · simp [two]
    · simp [noDigest, noScope]
  have position : (log.events.rows.all fun row =>
      decide ¬ (row.originNode = event.originNode ∧ row.originSeq = event.originSeq)) = true :=
    List.all_eq_true.mpr fun row held => decide_eq_true (insertable.position row held)
  simp only [insertEvent, insertable.subject, insertable.originSeq, version, position, require,
    ↓reduceIte, bind, Except.bind]
  rw [insertRow_succeeds insertable.storable insertable.fresh]
  rfl

/-- The settings under which the minted event verifies. -/
structure EmitRequest.Sound (request : EmitRequest) : Prop where
  version : (request.version = 1 ∧ request.scopeRef = none) ∨ request.version = 2
  unreserved : ∀ scopeRef, request.scopeRef = some scopeRef → reservedScope scopeRef = false

theorem mintEvent_succeeds {live : Bool} {identity : IdentityContext} {hlc : String}
    {head : Option EventRow} {request : EmitRequest} (sound : request.Sound)
    (attested : live = false ∨ identity.credential.isSome) :
    ∃ event, mintEvent platform live identity hlc head request = .ok event := by
  have versioned : (!(decide (request.version = 1) && request.scopeRef.isSome)) = true := by
    rcases sound.version with ⟨_, unscoped⟩ | two
    · simp [unscoped]
    · simp [two]
  have signed : (!(identity.credential.isNone && live)) = true := by
    rcases attested with rfl | credentialed
    · simp
    · simp [credentialed]
  obtain ⟨selfHash, hashed⟩ : ∃ selfHash,
      eventHash platform (nextEnvelope platform identity hlc head request) = some selfHash := by
    unfold eventHash
    rcases sound.version with ⟨one, _⟩ | two
    · exact ⟨_, if_pos one⟩
    · have version : (nextEnvelope platform identity hlc head request).envelopeVersion = 2 := two
      exact ⟨_, by rw [if_neg (by omega), if_pos version]⟩
  simp only [mintEvent, hashed, versioned, signed, require, ↓reduceIte, bind, Except.bind]
  rw [if_pos]
  · exact ⟨_, rfl⟩
  · rw [Event.verify_iff]
    refine ⟨?_, ?_, ?_, rfl, hashed, rfl⟩
    · rcases sound.version with ⟨one, _⟩ | two
      · exact .inl one
      · exact .inr two
    · intro one
      have one : request.version = 1 := one
      rcases sound.version with ⟨_, unscoped⟩ | two
      · exact ⟨unscoped, by simp [nextEnvelope, unscoped]⟩
      · omega
    · cases scope : request.scopeRef with
      | none => simp [Envelope.scopeOpens]
      | some scopeRef =>
          simp [Envelope.scopeOpens, nextEnvelope, scope, sound.unreserved scopeRef scope]

theorem emit_succeeds {live : Bool} {emitter : Emitter} {now recordedAt : Int}
    {log middle next : Log} {request : EmitRequest} {event : Event}
    (minted : mintEvent platform live emitter.identity (emitter.hlc.tick now).stamp
      (log.head emitter.identity.nodeRef) request = .ok event)
    (inserted : insertEvent platform log event true recordedAt = .ok middle)
    (written : insertPayload platform middle event.eventId request.payload = .ok next) :
    (emitter.emit platform live now recordedAt log request).2 = .ok (next, event) := by
  simp only [Emitter.emit, minted, bind, Except.bind, inserted, written]
  rfl

end Kawa
