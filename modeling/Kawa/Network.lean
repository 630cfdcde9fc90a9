import Kawa.CatchUp
import Kawa.Http

/-!
A network of nodes that write under their own names, answer each other's pulls and take in
whatever arrives, in any order, late, twice or never.  While no signature is forged, all of
them hold one history of each origin.
-/

namespace Kawa

open Result

variable {platform : Platform} {readPayload : String → Option Payload}

/-- The store of every node, and what has been answered to whom. -/
structure Network where
  stores : String → Store
  answers : List (String × WireEvent)

/-- The node under whose name a call writes. -/
def Call.author : Call → Option String
  | .emit emitter _ _ _ _ => some emitter.identity.nodeRef
  | .emitReduce _ emitter _ _ _ _ => some emitter.identity.nodeRef
  | _ => none

/-- What one node does. -/
inductive NodeAct
  | write (node : String) (call : Call)
  | answer (source : String) (trust : TrustRegistry) (request : PullRequest)
  | receive (dest : String) (receiver : Receiver) (clock : Option HLC) (scopes : List String)
      (wires : List WireEvent)

namespace Network

def empty : Network := ⟨fun _ => {}, []⟩

def setStore (net : Network) (node : String) (store : Store) : Network :=
  { net with stores := Function.update net.stores node store }

@[simp] theorem setStore_answers (net : Network) (node : String) (store : Store) :
    (net.setStore node store).answers = net.answers := rfl

@[simp] theorem setStore_same (net : Network) (node : String) (store : Store) :
    (net.setStore node store).stores node = store := Function.update_self ..

theorem forall_setStore (net : Network) {node : String} {store : Store}
    (holds : String → Store → Prop) :
    (∀ other, holds other ((net.setStore node store).stores other)) ↔
      holds node store ∧ ∀ other, other ≠ node → holds other (net.stores other) :=
  Function.forall_update_iff _ holds

/-- One act of one node.  The wires that arrive are any wires at all: the network may drop,
delay, repeat, reorder and invent them. -/
inductive Acts (platform : Platform) (readPayload : String → Option Payload) (net : Network) :
    NodeAct → Network → Prop
  | write {node : String} {call : Call} {store : Store} (own : call.author = some node)
      (called : Called platform readPayload (net.stores node) call store) :
      Acts platform readPayload net (.write node call) (net.setStore node store)
  | answer {source : String} {trust : TrustRegistry} {request : PullRequest}
      {wires : List WireEvent}
      (served : servePost platform (net.stores source).log trust request = .ok wires) :
      Acts platform readPayload net (.answer source trust request)
        { net with answers := net.answers ++ wires.map (request.node, ·) }
  | receive {dest : String} {receiver : Receiver} {clock : Option HLC} {scopes : List String}
      {wires : List WireEvent} {final : AdmitState}
      (pulled : pullHttp platform readPayload receiver (net.stores dest) clock scopes wires =
        .ok final) :
      Acts platform readPayload net (.receive dest receiver clock scopes wires)
        (net.setStore dest final.store)

/-- The origin holds the event with this id in its own log. -/
def Wrote (net : Network) (origin eventId : String) : Prop :=
  ∃ own ∈ (net.stores origin).log.events, own.originNode = origin ∧ own.eventId = eventId

end Network

/-- The event bears a signature under a key that the receiver has bound to its origin. -/
def Receiver.Recognises (platform : Platform) (receiver : Receiver) (event : Event) : Prop :=
  ∃ signature keyRef scheme, event.signature = some signature ∧
    event.signingKeyRef = some keyRef ∧ event.signatureScheme = some scheme ∧
    resolveAndVerifyProvenance platform event.selfHash signature keyRef scheme receiver.keys =
      true ∧
    receiver.trust.nodeRef keyRef = some event.originNode

/-- No signature is forged: what arrives has been answered to this node, or a signature that
the receiver recognises on it is over the hash of an event that its origin holds. -/
def NodeAct.Unforged (platform : Platform) (readPayload : String → Option Payload)
    (net : Network) : NodeAct → Prop
  | .receive dest receiver _ _ wires => ∀ wire ∈ wires, (dest, wire) ∈ net.answers ∨
      ∀ event, fromWire platform readPayload wire = .ok event →
        receiver.Recognises platform event → net.Wrote event.originNode event.selfHash
  | _ => True

/-! ## What a pass takes in -/

theorem recognises_of_attested {receiver : Receiver} {event : Event}
    (attested : Attested platform receiver.keys receiver.trust event.toEnvelope) :
    receiver.Recognises platform event := by
  obtain ⟨signature, keyRef, scheme, signed, named, schemed, valid, _, bound⟩ := attested.accepted
  exact ⟨signature, keyRef, scheme, signed, named, schemed, valid, bound⟩

theorem rivalKey_recognised {receiver : Receiver} {event : Event} {key : String}
    (rival : receiver.rivalKey platform event = some key) :
    event.verify platform = true ∧ receiver.Recognises platform event := by
  unfold Receiver.rivalKey at rival
  split at rival
  · cases rival
  · rename_i verified
    refine ⟨by simpa using verified, ?_⟩
    cases attestation : event.attestation with
    | none => rw [attestation] at rival; cases rival
    | some provenance =>
        obtain ⟨signature, keyRef, scheme⟩ := provenance
        rw [attestation] at rival
        dsimp only at rival
        split at rival
        · rename_i accepted
          obtain ⟨signed, named, schemed⟩ := attestation_eq_some.mp attestation
          exact ⟨signature, keyRef, scheme, signed, named, schemed,
            ((admits_iff _).mp accepted.1).1, accepted.2⟩
        · cases rival

/-- One event of a pass appends only a row of its own hash, once its signature is recognised. -/
theorem admitStep_rows {receiver : Receiver} {state next : AdmitState} {event : Event}
    (step : AdmitStep platform receiver state event next) :
    ∀ now ∈ next.store.log.events,
      (∃ row ∈ state.store.log.events, row.Became now) ∨
        (event.verify platform = true ∧ receiver.Recognises platform event ∧
          now.originNode = event.originNode ∧ now.eventId = event.selfHash) := by
  intro now held
  cases step with
  | kept log _ _ _ =>
      rw [log] at held
      exact .inl ⟨now, held, .refl now⟩
  | upgraded old upgrade _ _ =>
      obtain ⟨payload, middle, _, row, written, _⟩ := upgrade.written
      rw [insertPayload_events written] at held
      exact .inl (((grows_upgraded (fun _ => False) row).fresh now held).resolve_right id)
  | inserted stored passed form write _ _ =>
      obtain ⟨middle, row, inserted, same⟩ := write.log
      rw [same] at held
      rcases inserted.mem_iff.mp held with old | rfl
      · exact .inl ⟨now, old, .refl now⟩
      · refine .inr ⟨passed.verified, recognises_of_attested passed.attested, ?_, ?_⟩
        · rw [inserted.links.1, form.position.1]
        · obtain ⟨_, _, shape⟩ := inserted.envelope
          have named : now.eventId = stored.eventId := by rw [shape]
          rw [named, form.same.2.1]
          exact ((Event.verify_iff _ _).mp passed.verified).eventId.symm

/-! ## One history of each origin -/

namespace Network

/-- What a run without forgeries keeps. -/
structure Sound (platform : Platform) (net : Network) : Prop where
  threaded : ∀ node, (net.stores node).log.Threaded platform
  rows : ∀ node, ∀ row ∈ (net.stores node).log.events, net.Wrote row.originNode row.eventId
  answers : ∀ entry ∈ net.answers, net.Wrote entry.2.envelope.originNode entry.2.envelope.eventId
  peaceful : ∀ node, (net.stores node).security.forkEvidence.rows = []

theorem empty_sound : empty.Sound platform where
  threaded _ := ⟨Links.chained_nil, empty_stemmed⟩
  rows _ row held := by cases held
  answers entry listed := by cases listed
  peaceful _ := rfl

variable {net next : Network}

/-- Logs only grow, so what an origin wrote stays written. -/
theorem Wrote.later {origin eventId : String} (wrote : net.Wrote origin eventId)
    (kept : ∀ node, ∀ row ∈ (net.stores node).log.events,
      ∃ now ∈ (next.stores node).log.events, row.Became now) : next.Wrote origin eventId := by
  obtain ⟨own, held, named, same⟩ := wrote
  obtain ⟨now, inNext, became⟩ := kept origin own held
  unfold EventRow.Became at became
  refine ⟨now, inNext, ?_, ?_⟩ <;> rw [became]
  · exact named
  · exact same

/-- What an origin has written takes one position, in its own log and in every other. -/
theorem Sound.unique (collisionFree : CollisionFree platform) (sound : net.Sound platform)
    {log : Log} (threaded : log.Threaded platform) {row : EventRow} (held : row ∈ log.events)
    (written : net.Wrote row.originNode row.eventId) {event : Event}
    (verified : event.verify platform = true)
    (signed : net.Wrote event.originNode event.selfHash)
    (origin : row.originNode = event.originNode)
    (seq : row.originSeq = event.originSeq) : row.eventId = event.eventId := by
  obtain ⟨first, firstHeld, firstNode, firstId⟩ := written
  obtain ⟨second, secondHeld, secondNode, secondId⟩ := signed
  have named := ((Event.verify_iff _ _).mp verified).eventId
  have home := sound.threaded row.originNode
  obtain ⟨source, sourceVerified, stems⟩ := threaded.stemmed row held
  obtain ⟨firstSource, firstVerified, firstStems⟩ := home.stemmed first firstHeld
  rw [← origin] at secondHeld
  obtain ⟨secondSource, secondVerified, secondStems⟩ := home.stemmed second secondHeld
  have firstSeq : first.originSeq = row.originSeq :=
    (threaded_binding collisionFree home threaded first firstHeld row held (by
      rw [(stems_selfHash firstStems firstVerified).1, (stems_selfHash stems sourceVerified).1,
        firstId])).1
  have secondSeq : second.originSeq = event.originSeq :=
    (stemmed_same collisionFree secondStems secondVerified verified
      (secondId.trans named)).2.2.2.2.2
  have same : first = second := home.chained.placed first firstHeld second secondHeld
    (firstNode.trans (origin.trans secondNode.symm))
    (firstSeq.trans (seq.trans secondSeq.symm))
  rw [← firstId, same, secondId, named]

/-- What holds between two events of a pass. -/
structure Passing (platform : Platform) (net : Network) (state : AdmitState) : Prop where
  chained : chainLinks.Chained state.store.log.events.rows ∧ HeadsAgree state
  stemmed : state.store.log.Stemmed platform
  rows : ∀ row ∈ state.store.log.events, net.Wrote row.originNode row.eventId
  peaceful : state.store.security.forkEvidence.rows = []

/-- A pass over what is not forged takes in what its origins wrote, and meets no rival. -/
theorem Sound.pass (collisionFree : CollisionFree platform) (sound : net.Sound platform)
    {dest : String} {receiver : Receiver} {clock : Option HLC} {batch : List Event}
    {final : AdmitState}
    (unforged : ∀ event ∈ batch, event.verify platform = true →
      receiver.Recognises platform event → net.Wrote event.originNode event.selfHash)
    (admitted : admitBatch platform receiver (net.stores dest) clock batch = .ok final) :
    Passing platform net final := by
  refine foldlM_invariant ?_ ⟨⟨(sound.threaded dest).chained,
    headsAgree_start _ _⟩, (sound.threaded dest).stemmed, sound.rows dest, sound.peaceful dest⟩
    admitted
  intro state event after member passing done
  have step := admitOne_ok done
  refine ⟨admitStep_chained passing.chained step,
    admitStep_stemmed collisionFree passing.stemmed step, ?_, ?_⟩
  · intro now held
    rcases admitStep_rows step now held with ⟨row, inState, became⟩ | ⟨verified, known, node, named⟩
    · unfold EventRow.Became at became
      rw [became]
      exact passing.rows row inState
    · rw [node, named]
      exact unforged event member verified known
  · rw [admitOne_eq] at done
    rcases act_evidence done with ⟨held, key, verdict, _⟩ | ⟨_, same⟩
    · -- a rival would be a second event of its origin at this position
      obtain ⟨_, found, other, rival, _⟩ := verdict_freeze verdict
      obtain ⟨verified, known⟩ := rivalKey_recognised rival
      obtain ⟨node, seq⟩ := rowAt_named found
      have inLog := rowAt_mem found
      exact absurd (sound.unique collisionFree ⟨passing.chained.1, passing.stemmed⟩ inLog
        (passing.rows held inLog) verified (unforged event member verified known) node seq) other
    · rw [same]
      exact passing.peaceful

/-- Every wire that is answered comes from a row of its source, as the grants offer it. -/
theorem answered_offered {source : Log} {trust : TrustRegistry} {request : PullRequest}
    {wires : List WireEvent} (served : servePost platform source trust request = .ok wires)
    {wire : WireEvent} (member : wire ∈ wires) :
    ∃ row ∈ source.events, ∃ original event, rebuildEvent platform source row = .ok original ∧
      OfferedAs ((trust.scopeGrants request.node).filter (· ∈ request.scopes)) original event ∧
      wire = toWire event false := by
  obtain ⟨batch, ⟨read, rows, offered⟩, rfl⟩ := servePost_served served
  obtain ⟨event, inBatch, rfl⟩ := List.mem_map.mp member
  obtain ⟨same, pairs⟩ := List.forall₂_iff_get.mp offered
  obtain ⟨place, rfl⟩ := List.mem_iff_get.mp inBatch
  have inRead : place.val < read.length := by
    rw [same]
    exact place.isLt
  obtain ⟨row, held, rebuilt⟩ := rows _ (List.get_mem read ⟨place.val, inRead⟩)
  exact ⟨row, held, _, _, rebuilt, pairs place.val inRead place.isLt, rfl⟩

theorem answered_row {source : Log} {trust : TrustRegistry} {request : PullRequest}
    {wires : List WireEvent} (served : servePost platform source trust request = .ok wires)
    {wire : WireEvent} (member : wire ∈ wires) :
    ∃ row ∈ source.events, wire.envelope.originNode = row.originNode ∧
      wire.envelope.eventId = row.eventId := by
  obtain ⟨row, held, original, event, rebuilt, offering, rfl⟩ := answered_offered served member
  have envelope := rebuildEvent_envelope rebuilt
  have sent : (toWire event false).envelope.toHashedEnvelope = event.toHashedEnvelope ∧
      (toWire event false).envelope.eventId = event.eventId := by
    cases carried : event.payload <;> simp [toWire, carried]
  refine ⟨row, held, ?_, ?_⟩
  · rw [sent.1, offering.envelope, envelope]
  · rw [sent.2, offering.eventId, envelope]

/-- The log of one node has grown, by what its origin wrote or by events of its own name. -/
theorem Sound.grow (sound : net.Sound platform) {node : String} {store : Store}
    (kept : ∀ row ∈ (net.stores node).log.events, ∃ now ∈ store.log.events, row.Became now)
    (threaded : store.log.Threaded platform)
    (rows : ∀ row ∈ store.log.events,
      net.Wrote row.originNode row.eventId ∨ row.originNode = node)
    (peaceful : store.security.forkEvidence.rows = []) :
    (net.setStore node store).Sound platform := by
  have later : ∀ other, ∀ row ∈ (net.stores other).log.events,
      ∃ now ∈ ((net.setStore node store).stores other).log.events, row.Became now := by
    refine (net.forall_setStore fun other after => ∀ row ∈ (net.stores other).log.events,
      ∃ now ∈ after.log.events, row.Became now).mpr ⟨kept, fun _ _ row held => ?_⟩
    exact ⟨row, held, .refl row⟩
  refine ⟨?_, ?_, fun entry listed => (sound.answers entry listed).later later, ?_⟩
  · exact (net.forall_setStore fun _ after => after.log.Threaded platform).mpr
      ⟨threaded, fun other _ => sound.threaded other⟩
  · refine (net.forall_setStore fun _ after => ∀ row ∈ after.log.events,
      (net.setStore node store).Wrote row.originNode row.eventId).mpr
        ⟨fun row held => ?_, fun other _ row held => (sound.rows other row held).later later⟩
    rcases rows row held with written | mine
    · exact written.later later
    · refine ⟨row, ?_, rfl, rfl⟩
      rw [mine, setStore_same]
      exact held
  · exact (net.forall_setStore fun _ after => after.security.forkEvidence.rows = []).mpr
      ⟨peaceful, fun other _ => sound.peaceful other⟩

/-- What a call of an author appends to its log. -/
theorem authored {node : String} {call : Call} {before after : Store}
    (own : call.author = some node) (called : Called platform readPayload before call after) :
    ∃ request event row middle recordedAt, call.emits = some request ∧
      event.scopeDigest = request.scopeRef.map (scopeDigestOf platform) ∧
      event.originNode = node ∧
      EventInserted platform before.log event true recordedAt row middle ∧
      after.log.events = middle.events ∧ after.security = before.security := by
  cases call with
  | emit emitter live now recordedAt request =>
      obtain ⟨⟨log, event⟩, emitted, rfl⟩ := toOption_map_eq_some.mp called
      obtain ⟨row, middle, done⟩ := emit_ok emitted
      refine ⟨request, event, row, middle, recordedAt, rfl, ?_, ?_, done.inserted,
        insertPayload_events done.payload, rfl⟩ <;> rw [done.minted.envelope]
      · rfl
      · exact Option.some.inj own
  | emitReduce scan emitter live now recordedAt request =>
      obtain ⟨⟨log, event⟩, done, rfl⟩ := toOption_map_eq_some.mp called
      simp only [emitReduce, bind_ok, pure_ok] at done
      obtain ⟨⟨appended, minted⟩, emitted, projections, _, made⟩ := done
      obtain ⟨row, middle, wrote⟩ := emit_ok emitted
      cases made
      refine ⟨request, minted, row, middle, recordedAt, rfl, ?_, ?_, wrote.inserted,
        insertPayload_events wrote.payload, rfl⟩ <;> rw [wrote.minted.envelope]
      · rfl
      · exact Option.some.inj own
  | deliver => cases own
  | pull => cases own
  | archive => cases own

theorem Sound.write (collisionFree : CollisionFree platform) (sound : net.Sound platform)
    {node : String} {call : Call} {store : Store} (own : call.author = some node)
    (called : Called platform readPayload (net.stores node) call store) :
    (net.setStore node store).Sound platform := by
  obtain ⟨_, event, row, middle, _, _, _, named, inserted, events, security⟩ := authored own called
  refine sound.grow (called_grows called).kept
    (called_threaded collisionFree (sound.threaded node) called) (fun now held => ?_) ?_
  · rw [events] at held
    rcases inserted.mem_iff.mp held with old | rfl
    · exact .inl (sound.rows node now old)
    · exact .inr (inserted.links.1.trans named)
  · rw [security]
    exact sound.peaceful node

theorem Sound.receive (collisionFree : CollisionFree platform) (sound : net.Sound platform)
    {dest : String} {receiver : Receiver} {clock : Option HLC} {scopes : List String}
    {wires : List WireEvent} {final : AdmitState}
    (unforged : NodeAct.Unforged platform readPayload net
      (.receive dest receiver clock scopes wires))
    (pulled : pullHttp platform readPayload receiver (net.stores dest) clock scopes wires =
      .ok final) : (net.setStore dest final.store).Sound platform := by
  obtain ⟨admitted, done, same⟩ := pullHttp_ok pulled
  rw [same]
  have genuine : ∀ event ∈ (decodeWires platform readPayload wires).1,
      event.verify platform = true → Receiver.Recognises platform
        { receiver with requestedScopes := some scopes } event →
      net.Wrote event.originNode event.selfHash := by
    intro event member verified known
    obtain ⟨wire, arrived, decoded⟩ := mem_decodeWires member
    rcases unforged wire arrived with answered | genuine
    · have written := sound.answers _ answered
      obtain ⟨envelope, _⟩ := fromWire_envelope decoded
      rw [((Event.verify_iff _ _).mp verified).eventId]
      dsimp only at written
      rw [← envelope] at written
      exact written
    · exact genuine event decoded known
  have passing := sound.pass collisionFree genuine done
  exact sound.grow (admitBatch_grows done).kept ⟨passing.chained.1, passing.stemmed⟩
    (fun row held => .inl (passing.rows row held)) passing.peaceful

theorem acts_sound (collisionFree : CollisionFree platform) {act : NodeAct}
    (sound : net.Sound platform) (unforged : act.Unforged platform readPayload net)
    (acts : Acts platform readPayload net act next) : next.Sound platform := by
  cases acts with
  | write own called => exact sound.write collisionFree own called
  | receive pulled => exact sound.receive collisionFree unforged pulled
  | @answer source trust request wires served =>
      refine ⟨sound.threaded, sound.rows, fun entry listed => ?_, sound.peaceful⟩
      rcases List.mem_append.mp listed with old | new
      · exact sound.answers entry old
      · obtain ⟨wire, member, rfl⟩ := List.mem_map.mp new
        obtain ⟨row, held, node, named⟩ := answered_row served member
        dsimp only
        rw [node, named]
        exact sound.rows source row held

/-- While no signature is forged, whatever the network does to what is sent: any two nodes hold
the same event at a position, each origin holds itself all that is held of it, and no node
ever records a fork. -/
theorem one_history (collisionFree : CollisionFree platform) {acts : List NodeAct}
    (run : Run (Run.when (fun net act => act.Unforged platform readPayload net)
      (Acts platform readPayload)) empty acts net) :
    (∀ left right, ∀ row ∈ (net.stores left).log.events,
      ∀ other ∈ (net.stores right).log.events, row.originNode = other.originNode →
        row.originSeq = other.originSeq → row.eventId = other.eventId) ∧
    (∀ node, ∀ row ∈ (net.stores node).log.events,
      ∃ own ∈ (net.stores row.originNode).log.events, own.originNode = row.originNode ∧
        own.originSeq = row.originSeq ∧ own.eventId = row.eventId) ∧
    ∀ node, (net.stores node).security.forkEvidence.rows = [] := by
  have sound : net.Sound platform := run.invariant (fun net => net.Sound platform)
    (fun _ _ _ sound step => acts_sound collisionFree sound step.1 step.2) empty_sound
  have located : ∀ node, ∀ row ∈ (net.stores node).log.events,
      ∃ own ∈ (net.stores row.originNode).log.events, own.originNode = row.originNode ∧
        own.originSeq = row.originSeq ∧ own.eventId = row.eventId := by
    intro node row held
    obtain ⟨own, ownHeld, named, same⟩ := sound.rows node row held
    obtain ⟨source, verified, stems⟩ := (sound.threaded node).stemmed row held
    obtain ⟨ownSource, ownVerified, ownStems⟩ :=
      (sound.threaded row.originNode).stemmed own ownHeld
    refine ⟨own, ownHeld, named, ?_, same⟩
    refine (threaded_binding collisionFree (sound.threaded _) (sound.threaded node) own ownHeld
      row held ?_).1
    rw [(stems_selfHash ownStems ownVerified).1, (stems_selfHash stems verified).1, same]
  refine ⟨?_, located, sound.peaceful⟩
  intro left right row held other otherHeld origin seq
  obtain ⟨own, ownHeld, named, ownSeq, same⟩ := located left row held
  obtain ⟨theirs, theirsHeld, theirsNamed, theirsSeq, theirsSame⟩ := located right other otherHeld
  rw [← origin] at theirsHeld theirsNamed
  have one : own = theirs := (sound.threaded row.originNode).chained.placed own ownHeld theirs
    theirsHeld (named.trans theirsNamed.symm)
    (ownSeq.trans (seq.trans theirsSeq.symm))
  rw [← same, one, theirsSame]

end Network

/-! ## A node that hears another -/

/-- What a wire says of an event that verifies is read back. -/
theorem fromWire_event {event : Event} (verified : event.verify platform = true)
    (reads : ∀ payload, event.payload = some payload →
      readPayload (Json.canonicalJson payload.modelDump) = some payload) :
    fromWire platform readPayload
      { envelope := event.toEnvelope
        payloadCanonical := event.payload.map fun payload =>
          Json.canonicalJson payload.modelDump } = .ok event := by
  have checked := (Event.verify_iff _ _).mp verified
  have scopeless : ¬ (event.envelopeVersion = 1 ∧ (event.scopeDigest.isSome ∨
      event.scopeRef.isSome)) := by
    rintro ⟨one, named⟩
    obtain ⟨digest, ref⟩ := checked.scopeless one
    simp [digest, ref] at named
  have digested := checked.payloadDigest
  have same : ({ event.toEnvelope with payload := event.payload } : Event) = event := rfl
  cases carried : event.payload with
  | none =>
      rw [carried] at same
      simp [fromWire, scopeless, checked.selfHash, ← checked.eventId, same, verified, bind,
        Except.bind, pure, Except.pure]
  | some payload =>
      rw [carried] at same
      simp only [Event.derivedDigest, carried, Option.elim_some, digest] at digested
      simp [fromWire, scopeless, digested, checked.selfHash, ← checked.eventId,
        reads payload carried, same, verified, bind, Except.bind, pure, Except.pure]

theorem fromWire_toWire {event : Event} {payload : Payload}
    (verified : event.verify platform = true) (carried : event.payload = some payload)
    (reads : readPayload (Json.canonicalJson payload.modelDump) = some payload) :
    fromWire platform readPayload (toWire event false) = .ok event := by
  have sent : toWire event false =
      { envelope := event.toEnvelope
        payloadCanonical := event.payload.map fun payload =>
          Json.canonicalJson payload.modelDump } := by
    simp [toWire, carried]
  rw [sent]
  refine fromWire_event verified fun other same => ?_
  rw [carried] at same
  cases same
  exact reads

namespace Heard

def hears (_ : String) : Option Payload := some (.claimRecorded plainClaim)

theorem hearing : ∃ acts net, Run (Run.when
      (fun net act => act.Unforged plainPlatform hears net)
      (Network.Acts plainPlatform hears)) Network.empty acts net ∧
    ∃ row ∈ (net.stores "peer").log.events, row.originNode = "node" := by
  obtain ⟨log, event, row, middle, done, emitted, _⟩ :=
    plain_emit empty_ready (by decide) (by decide : "node" ≠ "") (by decide) 1 0
      plainClaim_writable none (by rintro scope ⟨⟩)
  have sent := emitted_sent (by decide : "node" ≠ "") done emitted
  have arrives := sent.arrives
  obtain ⟨_, _, shape⟩ := emitted.inserted.envelope
  have own : row ∈ log.events := by
    rw [insertPayload_events emitted.payload]
    exact emitted.inserted.mem_iff.mpr (.inr rfl)
  have wrote : (Network.empty.setStore "node" { log := log }).Wrote event.originNode
      event.selfHash := by
    refine ⟨row, ?_, ?_, ?_⟩
    · rw [sent.originNode, Network.setStore_same]
      exact own
    · rw [shape]
    · rw [shape]
      exact ((Event.verify_iff _ _).mp sent.verified).eventId.symm
  -- the peer takes it in from the wire
  obtain ⟨next, middle, called, inserted, written, _⟩ :=
    arrive_whole empty_ready (rfl : ({} : Store).security.forkEvidence = ∅) sent.arrives (some []) 0
      sent.originSeq sent.prevHash
      (by simp [Receiver.unrequested, plainReceiver, sent.version]) rfl plainClaim_writable
      fun _ log _ _ => reduce_claim {} (by rw [sent.arrives.hlc]; rfl) sent.carried
  obtain ⟨final, admitted, rfl⟩ := toOption_map_eq_some.mp called
  have heard : storedRow event 0 true ∈ final.store.log.events := by
    rw [insertPayload_events written]
    exact inserted.mem_iff.mpr (.inr rfl)
  have decoded : fromWire plainPlatform hears (toWire event false) = .ok event :=
    fromWire_toWire sent.verified sent.carried rfl
  have pulled : pullHttp plainPlatform hears (plainReceiver "node" none 0) {} none []
      [toWire event false] = .ok final := by
    have same : { plainReceiver "node" none 0 with requestedScopes := some [] } =
        plainReceiver "node" (some []) 0 := rfl
    simp only [pullHttp, decodeWires, decoded, same, admitted, bind, Except.bind, pure,
      Except.pure, List.nil_append]
  have written : Network.Acts plainPlatform hears Network.empty
      (.write "node" (.emit (Emitter.start (plainIdentity "node" (by decide))) true 1 0
        (plainRequest (.claimRecorded plainClaim) none)))
      (Network.empty.setStore "node" { log := log }) :=
    .write rfl (called_emit done)
  have received : Network.Acts plainPlatform hears
      (Network.empty.setStore "node" { log := log })
      (.receive "peer" (plainReceiver "node" none 0) none [] [toWire event false])
      ((Network.empty.setStore "node" { log := log }).setStore "peer" final.store) :=
    .receive pulled
  refine ⟨_, _, .cons ⟨?_, written⟩ (.cons ⟨?_, received⟩ (.nil _)), storedRow event 0 true, ?_,
    sent.originNode⟩
  · trivial
  · intro wire arrived
    rw [List.mem_singleton.mp arrived]
    refine .inr fun heardEvent read _ => ?_
    rw [decoded] at read
    cases read
    exact wrote
  · rw [Network.setStore_same]
    exact heard

/-- A node that hears another holds the event that the other holds, and no fork evidence. -/
theorem heard_history : ∃ acts net, Run (Run.when
      (fun net act => act.Unforged plainPlatform hears net)
      (Network.Acts plainPlatform hears)) Network.empty acts net ∧
    (∃ row ∈ (net.stores "peer").log.events, row.originNode = "node" ∧
      ∃ own ∈ (net.stores "node").log.events, own.eventId = row.eventId) ∧
    (net.stores "peer").security.forkEvidence.rows = [] := by
  obtain ⟨acts, net, run, row, held, named⟩ := hearing
  obtain ⟨_, located, peaceful⟩ := Network.one_history plainPlatform_collisionFree run
  obtain ⟨own, ownHeld, _, _, same⟩ := located "peer" row held
  rw [named] at ownHeld
  exact ⟨acts, net, run, ⟨row, held, named, own, ownHeld, same⟩, peaceful "peer"⟩

end Heard

end Kawa
