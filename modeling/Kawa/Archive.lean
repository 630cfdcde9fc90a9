import Kawa.Admission

/-!
The wire form of an event, verified over its received bytes, and the archive of one
origin range that is built from it.
-/

namespace Kawa

open Result

/-! ## The wire form -/

/-- A flat envelope and the payload as origin-canonical text. -/
structure WireEvent where
  envelope : Envelope
  payloadCanonical : Option String

inductive WireError
  | scopedVersion1 | payloadDigest | unknownVersion | selfHash | unreadablePayload | scopeRef
deriving DecidableEq, Repr

section Wire

variable (platform : Platform)

/-- `to_wire`; `asStub` withholds the payload bytes and the cleartext scope. -/
def toWire (event : Event) (asStub : Bool) : WireEvent :=
  match event.payload with
  | some payload =>
      if asStub then
        { envelope := { event.toEnvelope with scopeRef := none }, payloadCanonical := none }
      else
        { envelope := event.toEnvelope
          payloadCanonical := some (Json.canonicalJson payload.modelDump) }
  | none => { envelope := { event.toEnvelope with scopeRef := none }, payloadCanonical := none }

/-- Verify the received bytes, then parse; `readPayload` is the typed parse of the text. -/
def fromWire (readPayload : String → Option Payload) (wire : WireEvent) :
    Except WireError Event := do
  let env := wire.envelope
  if env.envelopeVersion = 1 ∧ (env.scopeDigest.isSome ∨ env.scopeRef.isSome) then
    throw .scopedVersion1
  if wire.payloadCanonical.any fun text => "sha256:" ++ platform.sha256 text ≠ env.payloadDigest then
    throw .payloadDigest
  match eventHash platform env.toHashedEnvelope with
  | none => throw .unknownVersion
  | some hash =>
      if hash ≠ env.selfHash ∨ hash ≠ env.eventId then
        throw .selfHash
      let payload ← match wire.payloadCanonical with
        | none => pure none
        | some text =>
            match readPayload text with
            | some payload => pure (some payload)
            | none => throw .unreadablePayload
      let event : Event := { env with payload := payload }
      if env.scopeRef.isSome ∧ !event.verify platform then
        throw .scopeRef
      return event

end Wire

/-! ## Archives -/

structure Commitment where
  originNode : String
  fromSeq : Int
  fromHash : Option String
  toSeq : Int
  toHash : String
  eventSetDigest : String
  policy : String
  attestedAt : String

def Commitment.json (commitment : Commitment) : Json :=
  .obj [("origin_node", .str commitment.originNode),
    ("from_seq", .int commitment.fromSeq),
    ("from_hash", optionalText commitment.fromHash),
    ("to_seq", .int commitment.toSeq),
    ("to_hash", .str commitment.toHash),
    ("event_set_digest", .str commitment.eventSetDigest),
    ("policy", .str commitment.policy),
    ("attested_at", .str commitment.attestedAt)]

structure ArchiveDoc where
  commitment : Commitment
  commitmentDigest : String
  signature : String
  signingKeyRef : String
  signatureScheme : String
  events : List WireEvent

inductive ArchiveError
  | commitmentDigest | archiverSignature | eventBytes (error : WireError) | stubs | eventSet
  | empty | boundary | store (error : StoreError)
deriving DecidableEq, Repr

section Archive

variable (platform : Platform) (readPayload : String → Option Payload)

/-- Each event follows the one before it on the same chain. -/
def contiguous : List Event → Bool
  | first :: second :: rest =>
      decide (second.originSeq = first.originSeq + 1 ∧ second.prevHash = some first.selfHash ∧
        second.originNode = first.originNode) && contiguous (second :: rest)
  | _ => true

def archiveBoundary (commitment : Commitment) (first last : Event) (events : List Event) : Bool :=
  contiguous events &&
    decide (first.originNode = commitment.originNode ∧ first.originSeq = commitment.fromSeq ∧
      first.prevHash = commitment.fromHash ∧ last.originSeq = commitment.toSeq ∧
      last.selfHash = commitment.toHash)

/-- The four layers of verification. -/
def verifyArchiveDoc (keys : PublicKeyRegistry) (doc : ArchiveDoc) :
    Except ArchiveError (List Event) := do
  if digest platform doc.commitment.json ≠ doc.commitmentDigest then
    throw .commitmentDigest
  if !resolveAndVerifyProvenance platform doc.commitmentDigest doc.signature doc.signingKeyRef
      doc.signatureScheme keys then
    throw .archiverSignature
  let events ← (doc.events.mapM (fromWire platform readPayload)).mapError .eventBytes
  if events.any (·.isStub) then
    throw .stubs
  if digest platform (textList (events.map (·.eventId))) ≠ doc.commitment.eventSetDigest then
    throw .eventSet
  match events.head?, events.getLast? with
  | some first, some last =>
      if !archiveBoundary doc.commitment first last events then
        throw .boundary
      return events
  | _, _ => throw .empty

/-- Verify the custody evidence, offer the events to admission, record the segment. -/
def archiveImport (receiver : Receiver) (store : Store) (clock : Option HLC) (doc : ArchiveDoc) :
    Except ArchiveError AdmitState := do
  let events ← verifyArchiveDoc platform readPayload receiver.keys doc
  let admitted ← (admitBatch platform { receiver with requestedScopes := none } store clock
    events).mapError .store
  let c := doc.commitment
  let detached := !admitted.store.log.events.rows.any fun row =>
    row.originNode = c.originNode ∧ row.originSeq = c.toSeq ∧ row.selfHash = c.toHash
  let segment : ArchiveSegment :=
    { commitmentDigest := doc.commitmentDigest
      originNode := c.originNode
      fromSeq := c.fromSeq
      toSeq := c.toSeq
      fromHash := c.fromHash
      toHash := c.toHash
      eventSetDigest := c.eventSetDigest
      archiverKeyRef := doc.signingKeyRef
      detached := detached }
  let security := { admitted.store.security with
    archiveSegment := admitted.store.security.archiveSegment.upsert segment
      (fun old => { old with detached := detached }) fun _ => rfl }
  return { admitted with store := { admitted.store with security := security } }

end Archive

end Kawa
