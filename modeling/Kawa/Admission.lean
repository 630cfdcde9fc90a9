import Kawa.Authority
import Kawa.Reduce

/-!
Trust-gated admission of a delivered batch, the pull built on it, and the local write
that emits and reduces in one transaction.
-/

namespace Kawa

/-- What the clocks of one call read and how its scans return rows, by event id. -/
structure Ambient where
  recordedAt : String → Int
  wallClock : String → Int
  scan : Scan

/-! ## Verdicts -/

structure TemporalPolicy where
  maxForwardSkewMs : Int := 60000

/-- `none` when admissible, otherwise the typed refusal. -/
def TemporalPolicy.admissible (temporal : TemporalPolicy) (hlc : String) (nowMs : Int) :
    Option String :=
  match parseHlc hlc with
  | none => some "hlc_malformed"
  | some (phys, _, _) =>
      if nowMs + temporal.maxForwardSkewMs < phys then some "hlc_forward_skew" else none

structure Rejection where
  eventId : String
  originNode : String
  originSeq : Int
  reason : String
deriving DecidableEq, Repr

def Event.rejection (event : Event) (reason : String) : Rejection :=
  { eventId := event.eventId
    originNode := event.originNode
    originSeq := event.originSeq
    reason := reason }

structure PullReport where
  admitted : List String
  rejected : List Rejection
deriving DecidableEq, Repr

/-- The receiver's side of one call. -/
structure Receiver where
  keys : PublicKeyRegistry
  trust : TrustRegistry
  requestedScopes : Option (List String)
  temporal : TemporalPolicy
  nowMs : Int
  ambient : Ambient

/-- A version 2 payload for a scope that this pull did not request. -/
def Receiver.unrequested (receiver : Receiver) (event : Event) : Bool :=
  receiver.requestedScopes.any fun scopes =>
    decide (2 ≤ event.envelopeVersion) && !event.scopeRef.any (· ∈ scopes)

section Admission

variable (platform : Platform)

/-- The key that attests an event, where all three provenance columns are set. -/
def Event.attestation (event : Event) : Option (String × String × String) := do
  let signature ← event.signature
  let signingKeyRef ← event.signingKeyRef
  let scheme ← event.signatureScheme
  return (signature, signingKeyRef, scheme)

/-- The gates behind the chain check, in order; `none` admits. -/
def Receiver.refusal (receiver : Receiver) (event : Event) : Option String :=
  match receiver.temporal.admissible event.hlc receiver.nowMs with
  | some reason => some reason
  | none =>
      if event.scopeRef.any fun scope => event.scopeDigest ≠ some (scopeDigestOf platform scope) then
        some "scope_digest_mismatch"
      else if !event.verify platform then some "envelope_invalid"
      else
        match event.attestation with
        | none => some "unsigned"
        | some (signature, keyRef, scheme) =>
            let evaluation := evaluate platform event.selfHash signature keyRef scheme
              receiver.keys receiver.trust (some event.originSeq)
            if !admits evaluation then
              some (if !evaluation.provenanceValid then "provenance_invalid"
                else "trust_" ++ evaluation.trustStanding.value)
            else if receiver.trust.nodeRef keyRef ≠ some event.originNode then some "forged_origin"
            else none

/-- A rival that would pass the trust gate at its current standing; its key. -/
def Receiver.rivalKey (receiver : Receiver) (event : Event) : Option String :=
  if !event.verify platform then none
  else
    match event.attestation with
    | none => none
    | some (signature, keyRef, scheme) =>
        if admits (evaluate platform event.selfHash signature keyRef scheme receiver.keys
            receiver.trust none) ∧ receiver.trust.nodeRef keyRef = some event.originNode then
          some keyRef
        else none

/-- The state of one pass over a batch. -/
structure AdmitState where
  store : Store
  clock : Option HLC
  heads : Dict String (Int × String)
  frozen : List String
  poisoned : List String
  admitted : List String
  rejected : List Rejection

namespace AdmitState

/-- Refuse an event and the rest of its origin's stream. -/
def reject (state : AdmitState) (event : Event) (reason : String) : AdmitState :=
  { state with
    rejected := state.rejected ++ [event.rejection reason]
    poisoned := event.originNode :: state.poisoned }

/-- Report without poisoning the origin. -/
def report (state : AdmitState) (event : Event) (reason : String) : AdmitState :=
  { state with rejected := state.rejected ++ [event.rejection reason] }

/-- The held head of an origin; zero and no hash before its first event. -/
def head (state : AdmitState) (originNode : String) : Int × Option String :=
  match state.heads.get? originNode with
  | some (seq, selfHash) => (seq, some selfHash)
  | none => (0, none)

end AdmitState

def EventRow.upgraded (row : EventRow) (scopeRef : Option String) : EventRow :=
  { row with materialized := true, scopeRef := scopeRef }

/-- `UPDATE events SET materialized=true, scope_ref=%s`: the one permitted transition. -/
def upgradeRow (log : Log) (held : EventRow) (scopeRef : Option String) : Except StoreError Log := do
  require (storableTexts (textsOf scopeRef)) .unstorableText
  require (!held.materialized && held.scopeRef.isNone) .appendOnly
  return { log with
    events := log.events.update (·.eventId = held.eventId) (·.upgraded scopeRef) fun _ => rfl }

/-- The payload row of an event, then its reduction. -/
def materialize (scan : Scan) (store : Store) (event : Event) (payload : Payload) :
    Except StoreError Store := do
  let log ← insertPayload platform store.log event.eventId payload
  let projections ← reduce log scan event store.projections
  return { store with log := log, projections := projections }

/-- Fork evidence for an authenticated rival; an unknown attribution is the severe one. -/
def forkEvidence (trust : TrustRegistry) (held : EventRow) (rival : Event) (rivalKey : String) :
    ForkEvidence :=
  let heldIncarnation := held.signingKeyRef.bind fun key =>
    if key = "" then none else trust.incarnationRef key
  let rivalIncarnation := trust.incarnationRef rivalKey
  { originNode := rival.originNode
    originSeq := rival.originSeq
    heldEventId := held.eventId
    heldHash := held.selfHash
    rivalEventId := rival.eventId
    rivalHash := rival.selfHash
    heldKeyRef := held.signingKeyRef
    rivalKeyRef := some rivalKey
    heldIncarnation := heldIncarnation
    rivalIncarnation := rivalIncarnation
    classification :=
      if heldIncarnation.isSome ∧ rivalIncarnation.isSome ∧ heldIncarnation ≠ rivalIncarnation then
        .restoreFork
      else .equivocation
    frozen := true
    resolvedBy := none
    chosenHead := none
    reason := none }

def ForkClassification.value : ForkClassification → String
  | equivocation => "equivocation"
  | restoreFork => "restore_fork"

/-- A delivery at or below the held head: a re-delivery, an upgrade, a fork or a collision. -/
def admitHeld (receiver : Receiver) (state : AdmitState) (event : Event) :
    Except StoreError AdmitState := do
  require (storableText event.originNode) .unstorableText
  match state.store.log.rowAt event.originNode event.originSeq with
  | none => return state.reject event "collision"
  | some held =>
      if held.eventId = event.eventId then
        match event.payload with
        | none => return state
        | some payload =>
            if held.materialized then return state
            else if receiver.unrequested event then return state.report event "scope_unrequested"
            else if !event.verify platform then
              return state.report event "upgrade_digest_mismatch"
            else do
              let log ← upgradeRow state.store.log held event.scopeRef
              let store ← materialize platform receiver.ambient.scan
                { state.store with log := log } event payload
              return { state with store := store, admitted := state.admitted ++ [event.eventId] }
      else
        match receiver.rivalKey platform event with
        | none => return state.reject event "collision"
        | some rivalKey =>
            let evidence := forkEvidence receiver.trust held event rivalKey
            require (storableTexts [event.eventId, rivalKey]) .unstorableText
            let security := { state.store.security with
              forkEvidence := state.store.security.forkEvidence.insertNew evidence }
            return AdmitState.reject
              { state with
                store := { state.store with security := security }
                frozen := event.originNode :: state.frozen }
              event evidence.classification.value

/-- A new facially valid genesis for a key that has another one is a recorded conflict;
an unproven genesis is only reported. -/
def authorityGenesisWatch (receiver : Receiver) (state : AdmitState) (event : Event)
    (payload : Payload) : AdmitState :=
  match payload with
  | .authorityConfiguration p =>
      if p.priorConfigurationDigest.isSome then state
      else if !faciallyValidGenesis platform receiver.keys p then
        state.report event "authority_genesis_unproven"
      else
        let others := (state.store.log.eventAuthorityConfiguration.rows.filter fun row =>
          row.authorityKey = p.authorityKey ∧ row.priorConfigurationDigest = none ∧
            row.configurationDigest ≠ p.configurationDigest).map (·.configurationDigest)
        others.foldl (fun state other =>
          let conflicts := state.store.security.authorityConflict.insertNew
            { authorityKey := p.authorityKey
              digestA := min other p.configurationDigest
              digestB := max other p.configurationDigest }
          let security := { state.store.security with authorityConflict := conflicts }
          AdmitState.report { state with store := { state.store with security := security } }
            event "authority_genesis_conflict") state
  | _ => state

/-- `clock.update(hlc)`. -/
def updateClock (clock : HLC) (hlc : String) (now : Int) : HLC :=
  match parseHlc hlc with
  | some (phys, logical, _) => clock.update phys logical now
  | none => clock

/-- What follows the row of an admitted event: nothing for a stub, else its payload row,
its reduction and the genesis watch. -/
def reduceAdmitted (receiver : Receiver) (state : AdmitState) (event : Event) :
    Except StoreError AdmitState :=
  match event.payload with
  | none => .ok state
  | some payload => do
      let store ← materialize platform receiver.ambient.scan state.store event payload
      return authorityGenesisWatch platform receiver { state with store := store } event payload

/-- Insert an admitted event and move the head of its origin. -/
def insertAdmitted (receiver : Receiver) (state : AdmitState) (event : Event) :
    Except StoreError AdmitState := do
  let recordedAt := receiver.ambient.recordedAt event.eventId
  let log ← insertEvent platform state.store.log event (!event.isStub) recordedAt
  let reduced ← reduceAdmitted platform receiver { state with store := { state.store with log := log } } event
  return { reduced with
    heads := reduced.heads.set event.originNode (event.originSeq, event.selfHash)
    clock := reduced.clock.map fun clock =>
      updateClock clock event.hlc (receiver.ambient.wallClock event.eventId)
    admitted := reduced.admitted ++ [event.eventId] }

/-- A delivery that extends the held chain and has passed every gate. -/
def admitNext (receiver : Receiver) (state : AdmitState) (event : Event) :
    Except StoreError AdmitState :=
  if !event.isStub && receiver.unrequested event then
    insertAdmitted platform receiver (state.report event "scope_unrequested") (withhold event)
  else insertAdmitted platform receiver state event

/-- One delivered event. -/
def admitOne (receiver : Receiver) (state : AdmitState) (event : Event) :
    Except StoreError AdmitState :=
  if event.originNode ∈ state.frozen then .ok (state.reject event "origin_frozen")
  else if event.originNode ∈ state.poisoned then .ok (state.reject event "predecessor_rejected")
  else
    let (headSeq, headHash) := state.head event.originNode
    if event.originSeq ≤ headSeq then admitHeld platform receiver state event
    else if event.originSeq ≠ headSeq + 1 then .ok (state.reject event "chain_gap")
    else if event.prevHash ≠ headHash then .ok (state.reject event "chain_break")
    else
      match receiver.refusal platform event with
      | some reason => .ok (state.reject event reason)
      | none => admitNext platform receiver state event

/-- The held head of each origin. -/
def Log.heads (log : Log) : Dict String (Int × String) :=
  log.origins.filterMap fun node => (log.head node).map fun row =>
    (node, (row.originSeq, row.selfHash))

/-- Where a pass over a batch begins. -/
def AdmitState.start (store : Store) (clock : Option HLC) : AdmitState :=
  { store := store
    clock := clock
    heads := store.log.heads
    frozen := (store.security.forkEvidence.rows.filter (·.frozen)).map (·.originNode)
    poisoned := []
    admitted := []
    rejected := [] }

/-- Admit a batch in one transaction; a raise leaves the store as it was. -/
def admitBatch (receiver : Receiver) (store : Store) (clock : Option HLC) (batch : List Event) :
    Except StoreError AdmitState :=
  batch.foldlM (admitOne platform receiver) (AdmitState.start store clock)

/-- What a source serves to a puller: its stream beyond the puller's frontier, and the
positions of held stubs in the requested scopes, redacted to the offer. -/
def servePull (dest source : Log) (sourceTrust : Option TrustRegistry) (pullerNode : Option String)
    (scopes : Option (List String)) : Except StoreError (List Event) := do
  let granted := match sourceTrust, pullerNode with
    | some trust, some node => trust.scopeGrants node
    | _, _ => []
  let offer := match scopes with
    | none => granted
    | some requested => granted.filter (· ∈ requested)
  let stream ← readStream platform source (frontier dest)
  let backfill ← match scopes with
    | some (scope :: rest) =>
        readPositions platform source (heldStubPositions platform dest (scope :: rest))
    | _ => pure []
  return serveBatch (stream ++ backfill) offer

/-- One anti-entropy pull. -/
def pull (receiver : Receiver) (dest : Store) (source : Log) (clock : Option HLC)
    (sourceTrust : Option TrustRegistry) (pullerNode : Option String) :
    Except StoreError AdmitState := do
  let batch ← servePull platform dest.log source sourceTrust pullerNode receiver.requestedScopes
  admitBatch platform receiver dest clock batch

/-- Emit and reduce in one transaction. -/
def emitReduce (live : Bool) (scan : Scan) (emitter : Emitter) (now recordedAt : Int)
    (store : Store) (request : EmitRequest) : Emitter × Except StoreError (Store × Event) :=
  let (emitter, appended) := emitter.emit platform live now recordedAt store.log request
  (emitter, do
    let (log, event) ← appended
    let projections ← reduce log scan event store.projections
    return ({ store with log := log, projections := projections }, event))

end Admission

end Kawa
