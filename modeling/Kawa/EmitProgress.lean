import Kawa.LogInvariant

/-!
A local emit succeeds on every log that keeps its invariants, as long as its texts can be
stored: the position and the content address of the next event are always free.
-/

namespace Kawa

open Result

variable {platform : Platform}

/-! ## The hash commits to the envelope -/

theorem preimage_wellKeyed (envelope : HashedEnvelope) : (Json.obj envelope.preimage).WellKeyed := by
  refine ⟨by simp [HashedEnvelope.preimage], (Json.wellKeyedMembers_iff _).mpr ?_⟩
  simp only [HashedEnvelope.preimage, List.forall_mem_cons, optionalText_wellKeyed,
    List.not_mem_nil, false_implies, implies_true, true_and, and_true]
  refine ⟨?_, ?_, ?_, ?_, ?_, ?_⟩ <;> trivial

def HashedEnvelope.scopedPreimage (envelope : HashedEnvelope) : List (String × Json) :=
  envelope.preimage ++
    [("envelope_version", .int 2), ("scope_digest", optionalText envelope.scopeDigest)]

theorem scopedPreimage_wellKeyed (envelope : HashedEnvelope) :
    (Json.obj envelope.scopedPreimage).WellKeyed := by
  refine ⟨by simp [HashedEnvelope.scopedPreimage, HashedEnvelope.preimage],
    (Json.wellKeyedMembers_iff _).mpr ?_⟩
  have base := (Json.wellKeyedMembers_iff _).mp (preimage_wellKeyed envelope).2
  simp only [HashedEnvelope.scopedPreimage, List.forall_mem_append, List.forall_mem_cons,
    optionalText_wellKeyed, List.not_mem_nil, false_implies, implies_true, and_true]
  exact ⟨base, trivial⟩

theorem EventKind.value_injective : Function.Injective EventKind.value := by
  intro left right same
  cases left <;> cases right <;> first | rfl | (exfalso; revert same; decide)

/-- What two envelopes with one hash agree on: all that is hashed. -/
structure SameEnvelope (left right : HashedEnvelope) : Prop where
  originNode : left.originNode = right.originNode
  originSeq : left.originSeq = right.originSeq
  hlc : left.hlc = right.hlc
  kind : left.kind = right.kind
  subjectRef : left.subjectRef = right.subjectRef
  actorRef : left.actorRef = right.actorRef
  policyDigest : left.policyDigest = right.policyDigest
  payloadDigest : left.payloadDigest = right.payloadDigest
  prevHash : left.prevHash = right.prevHash
  version : left.envelopeVersion = right.envelopeVersion
  scopeDigest : left.envelopeVersion ≠ 1 → left.scopeDigest = right.scopeDigest

theorem sameEnvelope_of_preimage {left right : HashedEnvelope}
    (same : (Json.obj left.preimage).sortKeys = (Json.obj right.preimage).sortKeys)
    (one : left.envelopeVersion = 1 ∧ right.envelopeVersion = 1) : SameEnvelope left right := by
  have members := Json.members_eq_of_sortKeys same rfl (by simp [HashedEnvelope.preimage])
  simp only [HashedEnvelope.preimage, Json.sortMembers, Json.sortKeys, List.cons.injEq,
    Prod.mk.injEq, true_and, Json.str.injEq, Json.int.injEq, optionalText_sortKeys,
    and_true] at members
  obtain ⟨node, seq, hlc, kind, subject, actor, policy, payload, prev⟩ := members
  exact ⟨node, seq, hlc, EventKind.value_injective kind, optionalText_injective subject, actor,
    optionalText_injective policy, payload, optionalText_injective prev, one.1.trans one.2.symm,
    fun other => absurd one.1 other⟩

theorem sameEnvelope_of_scopedPreimage {left right : HashedEnvelope}
    (same : (Json.obj left.scopedPreimage).sortKeys = (Json.obj right.scopedPreimage).sortKeys)
    (two : left.envelopeVersion = 2 ∧ right.envelopeVersion = 2) : SameEnvelope left right := by
  have members := Json.members_eq_of_sortKeys same rfl
    (by simp [HashedEnvelope.scopedPreimage, HashedEnvelope.preimage])
  simp only [HashedEnvelope.scopedPreimage, HashedEnvelope.preimage, List.cons_append,
    List.nil_append, Json.sortMembers, Json.sortKeys, List.cons.injEq, Prod.mk.injEq, true_and,
    Json.str.injEq, Json.int.injEq, optionalText_sortKeys, and_true] at members
  obtain ⟨node, seq, hlc, kind, subject, actor, policy, payload, prev, scope⟩ := members
  exact ⟨node, seq, hlc, EventKind.value_injective kind, optionalText_injective subject, actor,
    optionalText_injective policy, payload, optionalText_injective prev, two.1.trans two.2.symm,
    fun _ => optionalText_injective scope⟩

/-- Two envelopes with one hash agree on everything that is hashed. -/
theorem eventHash_injective (collisionFree : CollisionFree platform) {left right : HashedEnvelope}
    {hash : String} (leftHash : eventHash platform left = some hash)
    (rightHash : eventHash platform right = some hash) : SameEnvelope left right := by
  have differ : ∀ first second : HashedEnvelope,
      digest platform (.obj first.preimage) ≠ digest platform (.obj second.scopedPreimage) := by
    intro first second same
    have sorted := digest_injective collisionFree (preimage_wellKeyed first)
      (scopedPreimage_wellKeyed second) same
    have lengths := (Json.keys_perm_of_sortKeys sorted).length_eq
    simp [HashedEnvelope.scopedPreimage, HashedEnvelope.preimage] at lengths
  unfold eventHash at leftHash rightHash
  split_ifs at leftHash rightHash with leftOne rightOne leftTwo rightTwo rightTwo <;>
    simp only [Option.some.injEq] at leftHash rightHash
  · exact sameEnvelope_of_preimage (digest_injective collisionFree (preimage_wellKeyed left)
      (preimage_wellKeyed right) (leftHash.trans rightHash.symm)) ⟨leftOne, rightOne⟩
  · exact absurd (leftHash.trans rightHash.symm) (differ left right)
  · exact absurd (rightHash.trans leftHash.symm) (differ right left)
  · exact sameEnvelope_of_scopedPreimage (digest_injective collisionFree
      (scopedPreimage_wellKeyed left) (scopedPreimage_wellKeyed right)
      (leftHash.trans rightHash.symm)) ⟨by assumption, by assumption⟩

/-! ## The payload rows belong to held events -/

/-- The events that some payload table names. -/
def Log.payloadIds (log : Log) : List String :=
  log.eventPlan.rows.map (·.eventId) ++ log.eventWork.rows.map (·.eventId) ++
    log.eventWorkDependency.rows.map (·.eventId) ++ log.eventResult.rows.map (·.eventId) ++
    log.eventWorkRetired.rows.map (·.eventId) ++ log.eventLink.rows.map (·.eventId) ++
    log.eventObservation.rows.map (·.eventId) ++ log.eventClaim.rows.map (·.eventId) ++
    log.eventAuthorityConfiguration.rows.map (·.eventId) ++
    log.eventAuthorityReceipt.rows.map (·.eventId)

/-- `REFERENCES events(event_id)`. -/
def Log.Referenced (log : Log) : Prop :=
  ∀ eventId ∈ log.payloadIds, ∃ row ∈ log.events, row.eventId = eventId

theorem insertRow_rows {ρ : Type} {key : ρ → String} {table next : Table ρ key} {row : ρ}
    {texts : List String} (inserted : insertRow table row texts = .ok next) :
    next.rows = table.rows ++ [row] := by
  obtain ⟨_, rfl⟩ := insertRow_ok inserted
  rfl

theorem insertPayload_payloadIds {log next : Log} {eventId : String} {payload : Payload}
    (inserted : insertPayload platform log eventId payload = .ok next) :
    ∀ id ∈ next.payloadIds, id = eventId ∨ id ∈ log.payloadIds := by
  cases payload <;>
    simp only [insertPayload, insertPlanCreated, insertPlanLifecycleChanged, insertWorkDerived,
      insertWorkRetired, insertWorkDependencyDeclared, insertResultRecorded, insertLinkAsserted,
      insertObservationRecorded, insertClaimRecorded, insertAuthorityConfiguration,
      insertAuthorityReceipt, bind_ok, pure_ok] at inserted <;>
    first
      | obtain ⟨table, inserted, rfl⟩ := inserted
      | obtain ⟨_, _, table, inserted, rfl⟩ := inserted
  all_goals
    intro id named
    simp only [Log.payloadIds, insertRow_rows inserted, List.map_append, List.map_cons,
      List.map_nil, List.mem_append, List.mem_singleton] at named ⊢
    grind only

theorem Log.Referenced.write {log middle next : Log} {event : Event} {materialized : Bool}
    {recordedAt : Int} {row : EventRow} {payload : Payload} (referenced : log.Referenced)
    (inserted : EventInserted platform log event materialized recordedAt row middle)
    (written : insertPayload platform middle event.eventId payload = .ok next) :
    next.Referenced := by
  intro id named
  obtain ⟨fresh, same⟩ := inserted.appended
  have ids : middle.payloadIds = log.payloadIds := by rw [same]; rfl
  rw [insertPayload_events written]
  rcases insertPayload_payloadIds written id named with rfl | old
  · obtain ⟨_, _, shape⟩ := inserted.envelope
    exact ⟨row, inserted.mem_iff.mpr (.inr rfl), by rw [shape]⟩
  · obtain ⟨held, inLog, same⟩ := referenced id (ids ▸ old)
    exact ⟨held, inserted.mem_iff.mpr (.inl inLog), same⟩

/-- The payload can be written under any event id that has no payload row yet. -/
def Payload.Writable (platform : Platform) (payload : Payload) : Prop :=
  ∀ log eventId, eventId ∉ log.payloadIds →
    ∃ next, insertPayload platform log eventId payload = .ok next

theorem fresh_of_notMem {ρ : Type} {key : ρ → String} {table : Table ρ key} {eventId : String}
    (unused : eventId ∉ table.rows.map key) : table.holds eventId = false := by
  rw [Table.holds_eq_false]
  intro row held same
  exact unused (List.mem_map.mpr ⟨row, held, same⟩)

/-! ## Progress -/

/-- A digest is a text that a column can store. -/
structure StorableDigests (platform : Platform) : Prop where
  digest : ∀ value, storableText (digest platform value) = true
  scope : ∀ scopeRef, storableText scopeRef = true →
    storableText (scopeDigestOf platform scopeRef) = true

theorem plainPlatform_storableDigests : StorableDigests plainPlatform where
  digest := storableText_plainDigest
  scope scopeRef stored := by
    rw [scopeDigestOf, storableText_append, Bool.and_eq_true]
    exact ⟨by decide, stored⟩

/-- The texts of an identity and of its signatures can be stored. -/
structure IdentityContext.Storable (identity : IdentityContext) : Prop where
  node : storableText identity.nodeRef = true
  actor : storableText identity.actorRef = true
  credential : ∀ credential, identity.credential = some credential →
    storableText credential.signingKeyRef = true ∧
      storableText credential.signatureScheme = true ∧
      ∀ text, storableText text = true → storableText (credential.sign text) = true

/-- The caller's choices can be stored. -/
structure EmitRequest.Storable (platform : Platform) (request : EmitRequest) : Prop where
  subject : ∃ stored, castSubject platform request.subjectRef = .ok stored
  policy : ∀ text, request.policyDigest = some text → storableText text = true
  scope : ∀ text, request.scopeRef = some text → storableText text = true
  payload : request.payload.Writable platform

theorem storableText_stamp (clock : HLC) (node : storableText clock.node = true) :
    storableText clock.stamp = true := by
  have digits : ∀ n : Nat, (Nat.toDigits 10 n).contains (Char.ofNat 0) = false := by
    intro n
    rw [List.contains_eq_mem, decide_eq_false_iff_not]
    intro nul
    exact absurd (Json.toDigits_digit nul) (by decide)
  simp only [storableText, List.contains_eq_mem, Bool.not_eq_true', decide_eq_false_iff_not] at *
  simp only [HLC.stamp, String.toList_ofList, List.mem_append, List.mem_cons, digits, node,
    or_false, false_or, not_or]
  decide

theorem storableText_hash (digests : StorableDigests platform) {envelope : HashedEnvelope}
    {hash : String} (hashed : eventHash platform envelope = some hash) :
    storableText hash = true := by
  unfold eventHash at hashed
  split_ifs at hashed <;> cases hashed <;> exact digests.digest _

/-- What is minted at the head of a well kept log can be inserted there. -/
theorem minted_insertable (collisionFree : CollisionFree platform)
    (digests : StorableDigests platform) {log : Log} (invariant : log.Invariant platform)
    {identity : IdentityContext} {clock : HLC} {request : EmitRequest} {event : Event}
    (minted : EventMinted platform identity clock.stamp (log.head identity.nodeRef) request event)
    (storable : identity.Storable) (node : storableText clock.node = true)
    (texts : request.Storable platform) (room : ∀ row ∈ log.events, row.originSeq + 1 < 2 ^ 63) :
    ∃ subjectRef, Insertable platform log event subjectRef := by
  obtain ⟨subjectRef, cast⟩ := texts.subject
  have checked := (Event.verify_iff _ _).mp minted.verified
  have envelope := minted.envelope
  have seq : event.originSeq = (log.head identity.nodeRef).elim 1 (·.originSeq + 1) := by
    rw [envelope]; rfl
  have origin : event.originNode = identity.nodeRef := by rw [envelope]; rfl
  have above : ∀ row ∈ log.events, row.originNode = event.originNode →
      row.originSeq < event.originSeq := by
    intro row held same
    rw [seq]
    cases found : log.head identity.nodeRef with
    | none =>
        exact absurd (same.trans origin) (head_none found row held)
    | some last =>
        have upper := le_head found held (same.trans origin)
        simp only [Option.elim_some]
        omega
  have range : 1 ≤ event.originSeq ∧ event.originSeq < 2 ^ 63 := by
    rw [seq]
    cases found : log.head identity.nodeRef with
    | none => simp
    | some last =>
        have held := (head_mem found).1
        have positive : 1 ≤ last.originSeq := invariant.chained.positive last held
        have := room last held
        simp only [Option.elim_some]
        omega
  refine ⟨subjectRef, ?_, ?_, ?_, ?_, ?_, ?_⟩
  · rw [envelope]; exact cast
  · simp only [bigintRange, decide_eq_true_eq]
    omega
  · rcases checked.version with one | two
    · exact .inr ⟨(checked.scopeless one).2, (checked.scopeless one).1⟩
    · exact .inl (by omega)
  · rintro row held ⟨sameNode, sameSeq⟩
    have := above row held sameNode
    omega
  · rw [Table.holds_eq_false]
    intro row held same
    have hashed := (invariant.hashed row held).1
    rw [same, ← checked.eventId] at hashed
    have spot := eventHash_injective collisionFree hashed checked.selfHash
    have := above row held spot.originNode
    have := spot.originSeq
    omega
  · have stamp := storableText_stamp clock node
    have hash := storableText_hash digests checked.selfHash
    have digest := digests.digest request.payload.modelDump
    have prev : ∀ text ∈ textsOf event.prevHash, storableText text = true := by
      intro text member
      have : event.prevHash = (log.head identity.nodeRef).map (·.selfHash) := by rw [envelope]; rfl
      rw [this] at member
      cases found : log.head identity.nodeRef with
      | none => simp [found, textsOf] at member
      | some last =>
          simp only [found, Option.map_some, textsOf, Option.toList_some, List.mem_singleton] at member
          obtain ⟨hashed, named⟩ := invariant.hashed last (head_mem found).1
          rw [member, named]
          exact storableText_hash digests hashed
    have policy : ∀ text ∈ textsOf event.policyDigest, storableText text = true := by
      intro text member
      rw [envelope] at member
      exact texts.policy text (Option.mem_toList.mp member)
    have scope : ∀ text ∈ textsOf event.scopeRef, storableText text = true := by
      intro text member
      rw [minted.scopeRef] at member
      exact texts.scope text (Option.mem_toList.mp member)
    have scopeDigest : ∀ text ∈ textsOf event.scopeDigest, storableText text = true := by
      intro text member
      rw [envelope] at member
      obtain ⟨scopeRef, set, rfl⟩ := Option.map_eq_some_iff.mp (Option.mem_toList.mp member)
      exact digests.scope scopeRef (texts.scope scopeRef set)
    have credential : ∀ text ∈ textsOf event.signature ++ textsOf event.signingKeyRef ++
        textsOf event.signatureScheme, storableText text = true := by
      intro text member
      rw [minted.signature, minted.signingKeyRef, minted.signatureScheme] at member
      cases held : identity.credential with
      | none => simp [held, textsOf] at member
      | some credential =>
          obtain ⟨key, scheme, signs⟩ := storable.credential credential held
          simp only [held, Option.map_some, textsOf, Option.toList_some, List.cons_append,
            List.nil_append, List.mem_cons, List.not_mem_nil, or_false] at member
          rcases member with rfl | rfl | rfl
          · exact signs _ hash
          · exact key
          · exact scheme
    simp only [storableTexts, Envelope.texts, List.all_append, List.all_cons, List.all_nil,
      Bool.and_true, Bool.and_eq_true, List.all_eq_true] at credential ⊢
    simp only [List.mem_append] at credential
    refine ⟨⟨⟨⟨⟨⟨⟨⟨?_, ?_, ?_, ?_, ?_, hash⟩, policy⟩, prev⟩, scope⟩, scopeDigest⟩, ?_⟩, ?_⟩, ?_⟩
    · rw [← checked.eventId]; exact hash
    · rw [origin]; exact storable.node
    · rw [envelope]; exact stamp
    · rw [envelope]; exact storable.actor
    · rw [envelope]; exact digest
    · exact fun text member => credential text (.inl (.inl member))
    · exact fun text member => credential text (.inl (.inr member))
    · exact fun text member => credential text (.inr member)

theorem emit_progress (collisionFree : CollisionFree platform) (digests : StorableDigests platform)
    {log : Log} (invariant : log.Invariant platform) (referenced : log.Referenced)
    {emitter : Emitter} {request : EmitRequest} {live : Bool} (now recordedAt : Int)
    (sound : request.Sound) (attested : live = false ∨ emitter.identity.credential.isSome)
    (identity : emitter.identity.Storable) (clock : storableText emitter.hlc.node = true)
    (storable : request.Storable platform)
    (room : ∀ row ∈ log.events, row.originSeq + 1 < 2 ^ 63) :
    ∃ next event, (emitter.emit platform live now recordedAt log request).2 = .ok (next, event) := by
  obtain ⟨event, mint⟩ : ∃ event, mintEvent platform live emitter.identity
      (emitter.hlc.tick now).stamp (log.head emitter.identity.nodeRef) request = .ok event :=
    mintEvent_succeeds sound attested
  obtain ⟨subjectRef, insertable⟩ := minted_insertable collisionFree digests invariant
    (mintEvent_ok mint) identity (by simpa using clock) storable room
  obtain ⟨middle, insertion⟩ : ∃ middle,
      insertEvent platform log event true recordedAt = .ok middle :=
    ⟨_, insertEvent_succeeds insertable true recordedAt⟩
  obtain ⟨row, inserted⟩ := insertEvent_ok insertion
  have unused : event.eventId ∉ middle.payloadIds := by
    intro named
    obtain ⟨_, same⟩ := inserted.appended
    have ids : middle.payloadIds = log.payloadIds := by rw [same]; rfl
    obtain ⟨held, inLog, same⟩ := referenced event.eventId (ids ▸ named)
    exact Table.holds_eq_false.mp insertable.fresh held inLog same
  obtain ⟨next, written⟩ := storable.payload middle event.eventId unused
  exact ⟨next, event, emit_succeeds mint insertion written⟩

/-- A well kept log whose chains are at most `n` long. -/
structure Log.Ready (platform : Platform) (log : Log) (n : Nat) : Prop where
  invariant : log.Invariant platform
  referenced : log.Referenced
  short : ∀ row ∈ log.events, row.originSeq ≤ n

theorem empty_ready : ({} : Log).Ready platform 0 where
  invariant := ⟨Links.chained_nil, by intro row held; cases held⟩
  referenced := by intro id named; cases named
  short := by intro row held; cases held

theorem Log.Ready.emitted {log next : Log} {n : Nat} (ready : log.Ready platform n)
    {emitter : Emitter} {now recordedAt : Int} {request : EmitRequest} {event : Event}
    {row : EventRow} {middle : Log}
    (emitted : Emitted platform emitter now recordedAt log request next event row middle)
    (subject : CanonicalRef platform request.subjectRef) : next.Ready platform (n + 1) where
  invariant := by
    have named : CanonicalRef platform event.subjectRef := by
      rw [emitted.minted.envelope]
      exact subject
    exact (ready.invariant.append emitted.inserted
      (inserted_hashed emitted.inserted named emitted.minted.verified)
      (emitted_follows emitted)).congr (insertPayload_events emitted.payload)
  referenced := ready.referenced.write emitted.inserted emitted.payload
  short := by
    intro held member
    rw [insertPayload_events emitted.payload] at member
    rcases emitted.inserted.mem_iff.mp member with old | rfl
    · have := ready.short held old
      push_cast
      omega
    · obtain ⟨_, _, shape⟩ := emitted.inserted.envelope
      have seq : held.originSeq = (log.head emitter.identity.nodeRef).elim 1 (·.originSeq + 1) := by
        rw [shape]
        exact congrArg HashedEnvelope.originSeq emitted.minted.envelope
      rw [seq]
      cases found : log.head emitter.identity.nodeRef with
      | none => simp
      | some last =>
          have := ready.short last (head_mem found).1
          simp only [Option.elim_some]
          push_cast
          omega

/-! ## Nodes to run the model on -/

/-- A node whose signatures are accepted under the key `"pem"`. -/
def plainCredential (node : String) : NodeCredential where
  nodeRef := node
  signingKeyRef := node
  signatureScheme := "ed25519"
  sign text := "pem" ++ text

def plainIdentity (node : String) (named : node ≠ "") : IdentityContext where
  nodeRef := node
  actorRef := "actor"
  credential := some (plainCredential node)
  named := ⟨named, by decide⟩

theorem plainIdentity_storable {node : String} (named : node ≠ "")
    (stored : storableText node = true) : (plainIdentity node named).Storable where
  node := stored
  actor := (by decide : storableText "actor" = true)
  credential := by
    rintro credential ⟨⟩
    refine ⟨stored, (by decide : storableText "ed25519" = true), fun text texts => ?_⟩
    simp only [plainCredential, storableText_append, Bool.and_eq_true]
    exact ⟨by decide, texts⟩

/-- The keys of some nodes, each under the node's own name. -/
def plainKeys (nodes : List String) : PublicKeyRegistry := nodes.map fun node => (node, "pem")

/-- Trust in the keys of these nodes, and no grants. -/
def plainTrust (nodes : List String) : TrustRegistry where
  keys := nodes.map fun node => (node, {
    nodeRef := node
    standing := .active
    incarnationRef := "incarnation"
    revokedFromSeq := none
    priorStanding := none })
  grants := []

/-- A request with nothing set but its payload and its scope. -/
def plainRequest (payload : Payload) (scopeRef : Option String) : EmitRequest where
  payload := payload
  subjectRef := none
  policyDigest := none
  scopeRef := scopeRef
  envelopeVersion := none

theorem plainRequest_sound {payload : Payload} {scopeRef : Option String}
    (unreserved : ∀ scope, scopeRef = some scope → reservedScope scope = false) :
    (plainRequest payload scopeRef).Sound where
  version := by
    cases scopeRef with
    | none => exact .inl ⟨rfl, rfl⟩
    | some scope => exact .inr rfl
  unreserved := unreserved

/-- A signed emit on a short log. -/
theorem plain_emit {log : Log} {n : Nat} (ready : log.Ready plainPlatform n) (room : n < 2 ^ 62)
    {node : String} (named : node ≠ "") (stored : storableText node = true) (now recordedAt : Int)
    {payload : Payload} (writable : payload.Writable plainPlatform) (scopeRef : Option String)
    (free : ∀ scope, scopeRef = some scope →
      reservedScope scope = false ∧ storableText scope = true) :
    ∃ next event row middle,
      ((Emitter.start (plainIdentity node named)).emit plainPlatform true now recordedAt log
        (plainRequest payload scopeRef)).2 = .ok (next, event) ∧
      Emitted plainPlatform (Emitter.start (plainIdentity node named)) now recordedAt log
        (plainRequest payload scopeRef) next event row middle ∧
      next.Ready plainPlatform (n + 1) := by
  have storable : (plainRequest payload scopeRef).Storable plainPlatform :=
    { subject := ⟨none, rfl⟩
      policy := by intro text set; cases set
      scope := fun text set => (free text set).2
      payload := writable }
  obtain ⟨next, event, done⟩ : ∃ next event,
      ((Emitter.start (plainIdentity node named)).emit plainPlatform true now recordedAt log
        (plainRequest payload scopeRef)).2 = .ok (next, event) :=
    emit_progress plainPlatform_collisionFree plainPlatform_storableDigests ready.invariant
      ready.referenced now recordedAt (plainRequest_sound fun scope set => (free scope set).1)
      (.inr rfl) (plainIdentity_storable named stored) stored storable
      (fun row held => by have := ready.short row held; omega)
  obtain ⟨row, middle, emitted⟩ := emit_ok done
  exact ⟨next, event, row, middle, done, emitted, ready.emitted emitted (by intro text set; cases set)⟩
def plainPlan : PlanCreated where
  planRef := "plan"
  projectRef := "project"
  objective := "objective"
  rationale := none
  lifecycle := .draft
  scope := none
  constraints := none
  expectedObservations := none
  domain := none

theorem plainPlan_writable : (Payload.planCreated plainPlan).Writable plainPlatform := by
  intro log eventId unused
  have fresh : log.eventPlan.holds eventId = false := fresh_of_notMem fun named => unused (by
    simp only [Log.payloadIds, List.mem_append]
    exact .inl (.inl (.inl (.inl (.inl (.inl (.inl (.inl (.inl named)))))))))
  simp only [insertPayload, insertPlanCreated]
  rw [insertRow_succeeds (by decide) fresh]
  exact ⟨_, rfl⟩

end Kawa
