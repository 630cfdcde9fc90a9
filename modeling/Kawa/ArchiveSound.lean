import Kawa.Archive
import Kawa.PullDecoding

/-!
The verification of an archive file, on whatever JSON the file holds.  The commitment pins the
segment down: its ends, and the identity of every event between them.
-/

namespace Kawa

namespace ReceivedArchive

open Result PullDecoding

/-! ## Verification -/

/-- The layer that refuses a document; `malformed` is what the source raises otherwise. -/
inductive Refusal
  | malformed | commitmentDigest | archiverSignature | event (error : PullDecoding.WireError) | stubs | eventSet
  | empty | boundary
deriving DecidableEq

/-- What a `for` goes through: of a dictionary the keys, of a text the characters. -/
def iterate : Json → Option (List Json)
  | .arr items => some items
  | .obj members => some (members.map fun member => .str member.1)
  | .str text => some (text.toList.map fun c => .str (String.singleton c))
  | _ => none

def present (value : Option Json) : Except Refusal Json := value.elim (.error .malformed) .ok

def check (holds : Bool) (refusal : Refusal) : Except Refusal Unit :=
  if holds then .ok () else .error refusal

/-- `value == text` -/
def equalsText (text : String) : Json → Bool
  | .str value => value = text
  | _ => false

def equalsOptionalText : Option String → Json → Bool
  | none => isNull
  | some text => equalsText text

section Verify

variable (platform : Platform) (coercions : Coercions)

/-- `resolve_and_verify_provenance`; only texts are a reference, a scheme and a signature. -/
def signed (keys : PublicKeyRegistry) (contentHash : String) : Json → Json → Json → Bool
  | .str signature, .str signingKeyRef, .str scheme =>
      resolveAndVerifyProvenance platform contentHash signature signingKeyRef scheme keys
  | _, _, _ => false

/-- The ends of the segment are those that are committed. -/
def boundary (commitment : Json) (first last : Event) : Bool :=
  (held commitment "origin_node").any (equalsText first.originNode) &&
    (held commitment "from_seq").any (equalsInt coercions first.originSeq) &&
    (held commitment "from_hash").any (equalsOptionalText first.prevHash) &&
    (held commitment "to_seq").any (equalsInt coercions last.originSeq) &&
    (held commitment "to_hash").any (equalsText last.selfHash)

/-- `_verify_archive_doc` on the loaded document. -/
def verifyArchiveDoc (keys : PublicKeyRegistry) (doc : Json) : Except Refusal (List Event) := do
  let commitment ← present (held doc "commitment")
  let cd := digest platform commitment
  check ((held doc "commitment_digest").any (equalsText cd)) .commitmentDigest
  let signature ← present (held doc "signature")
  let signingKeyRef ← present (held doc "signing_key_ref")
  let scheme ← present (held doc "signature_scheme")
  check (signed platform keys cd signature signingKeyRef scheme) .archiverSignature
  let objs ← ((held doc "events").bind iterate).elim (.error .malformed) .ok
  let events ← (objs.mapM (PullDecoding.fromWire platform coercions)).mapError .event
  check (!events.any (·.isStub)) .stubs
  let eventSet ← present (held commitment "event_set_digest")
  check (equalsText (digest platform (textList (events.map (·.eventId)))) eventSet) .eventSet
  match events.head?, events.getLast? with
  | some first, some last =>
      check (contiguous events && boundary coercions commitment first last) .boundary
      return events
  | _, _ => throw .empty

end Verify

/-! ## What an accepted document is -/

/-- What the document commits to under a key. -/
def committed (doc : Json) (key : String) : Option Json :=
  (held doc "commitment").bind (held · key)

/-- The bytes of an element hash to the identity of the event that is read from them. -/
def Consistent (platform : Platform) (coercions : Coercions) (obj : Json) (event : Event) : Prop :=
  ∃ envelope text, (held obj "envelope").bind asDict = some envelope ∧
    held obj "payload_canonical" = some (.str text) ∧
    WireDoc.Accepted platform coercions
      { envelope := envelope, payloadCanonical := some text } event ∧
    event.selfHash = event.eventId

/-- A chain of one origin that runs from one committed end to the other. -/
structure Segment (platform : Platform) (coercions : Coercions) (doc : Json)
    (events : List Event) : Prop where
  nonempty : events ≠ []
  elements : ∃ objs, (held doc "events").bind iterate = some objs ∧
    List.Forall₂ (Consistent platform coercions) objs events
  whole : ∀ event ∈ events, event.isStub = false
  chained : events.IsChain fun before after => after.originSeq = before.originSeq + 1 ∧
    after.prevHash = some before.selfHash
  origin : ∀ event ∈ events, committed doc "origin_node" = some (.str event.originNode)
  starts : ∀ first ∈ events.head?,
    (committed doc "from_seq").any (equalsInt coercions first.originSeq) = true ∧
      committed doc "from_hash" = some (optionalText first.prevHash)
  ends : ∀ last ∈ events.getLast?,
    (committed doc "to_seq").any (equalsInt coercions last.originSeq) = true ∧
      committed doc "to_hash" = some (.str last.selfHash)

/-- One event, apart from its cleartext scope and its signature. -/
def SameHashed (left right : Event) : Prop :=
  left.toHashedEnvelope = right.toHashedEnvelope ∧ left.eventId = right.eventId ∧
    left.selfHash = right.selfHash ∧ left.payload = right.payload

section Accepted

variable {platform : Platform} {coercions : Coercions}

theorem present_ok {value : Option Json} {json : Json} :
    present value = .ok json ↔ value = some json := by
  cases value <;> simp [present]

theorem check_ok {holds : Bool} {refusal : Refusal} {done : Unit} :
    check holds refusal = .ok done ↔ holds = true := by
  cases holds <;> simp [check]

theorem equalsText_iff {text : String} {value : Json} :
    equalsText text value = true ↔ value = .str text := by
  cases value <;> simp [equalsText]

theorem equalsOptionalText_iff {text : Option String} {value : Json} :
    equalsOptionalText text value = true ↔ value = optionalText text := by
  cases text with
  | some text => exact equalsText_iff
  | none => cases value <;> simp [equalsOptionalText, isNull, optionalText]

theorem any_equalsText {text : String} {value : Option Json} :
    value.any (equalsText text) = true ↔ value = some (.str text) := by
  cases value <;> simp [equalsText_iff]

theorem any_equalsOptionalText {text : Option String} {value : Option Json} :
    value.any (equalsOptionalText text) = true ↔ value = some (optionalText text) := by
  cases value <;> simp [equalsOptionalText_iff]

/-- What the source has established of a document that it accepts. -/
structure Verified (platform : Platform) (coercions : Coercions) (doc : Json)
    (events : List Event) : Prop where
  elements : ∃ objs, (held doc "events").bind iterate = some objs ∧
    objs.mapM (PullDecoding.fromWire platform coercions) = .ok events
  whole : events.any (·.isStub) = false
  eventSet : committed doc "event_set_digest" =
    some (.str (digest platform (textList (events.map (·.eventId)))))
  contiguous : contiguous events = true
  ends : ∃ commitment first last, held doc "commitment" = some commitment ∧
    events.head? = some first ∧ events.getLast? = some last ∧
    boundary coercions commitment first last = true

theorem verified {keys : PublicKeyRegistry} {doc : Json} {events : List Event}
    (accepted : verifyArchiveDoc platform coercions keys doc = .ok events) :
    Verified platform coercions doc events := by
  unfold verifyArchiveDoc at accepted
  simp only [bind_ok, present_ok, check_ok, mapError_ok] at accepted
  obtain ⟨commitment, named, _, _, _, _, _, _, _, _, _, _, objs, listed, found, read, _, whole,
    eventSet, committedSet, _, same, rest⟩ := accepted
  have objsListed : (held doc "events").bind iterate = some objs := by
    cases items : (held doc "events").bind iterate with
    | none => simp [items] at listed
    | some other => simpa [items] using listed
  have set : committed doc "event_set_digest" = some eventSet := by
    rw [committed, named, Option.bind_some, committedSet]
  rw [equalsText_iff] at same
  subst same
  split at rest
  · rename_i first last head final
    simp only [bind_ok, check_ok, pure_ok, Bool.and_eq_true] at rest
    obtain ⟨_, ⟨chained, ends⟩, rfl⟩ := rest
    exact ⟨⟨objs, objsListed, read⟩, by simpa using whole, set, chained,
      ⟨commitment, first, last, named, head, final, ends⟩⟩
  · cases rest

/-! ## The events of an accepted document -/

theorem identity_of_read {doc : WireDoc} {envelope : Envelope}
    (read : doc.readEnvelope coercions = some envelope) :
    required (Dict.get? doc.envelope "event_id") textOf? = some envelope.eventId ∧
      required (Dict.get? doc.envelope "self_hash") textOf? = some envelope.selfHash := by
  unfold WireDoc.readEnvelope at read
  obtain ⟨eventId, eventIdRead, read⟩ := Option.bind_eq_some_iff.mp read
  obtain ⟨_, _, read⟩ := Option.bind_eq_some_iff.mp read
  obtain ⟨_, _, read⟩ := Option.bind_eq_some_iff.mp read
  obtain ⟨_, _, read⟩ := Option.bind_eq_some_iff.mp read
  obtain ⟨_, _, read⟩ := Option.bind_eq_some_iff.mp read
  obtain ⟨_, _, read⟩ := Option.bind_eq_some_iff.mp read
  obtain ⟨_, _, read⟩ := Option.bind_eq_some_iff.mp read
  obtain ⟨_, _, read⟩ := Option.bind_eq_some_iff.mp read
  obtain ⟨_, _, read⟩ := Option.bind_eq_some_iff.mp read
  obtain ⟨_, _, read⟩ := Option.bind_eq_some_iff.mp read
  obtain ⟨selfHash, selfHashRead, read⟩ := Option.bind_eq_some_iff.mp read
  obtain ⟨_, _, read⟩ := Option.bind_eq_some_iff.mp read
  obtain ⟨_, _, read⟩ := Option.bind_eq_some_iff.mp read
  obtain ⟨_, _, read⟩ := Option.bind_eq_some_iff.mp read
  obtain ⟨_, _, read⟩ := Option.bind_eq_some_iff.mp read
  obtain ⟨_, _, read⟩ := Option.bind_eq_some_iff.mp read
  obtain ⟨_, _, read⟩ := Option.bind_eq_some_iff.mp read
  cases read
  exact ⟨eventIdRead, selfHashRead⟩

theorem selfHash_of_received {doc : WireDoc} {event : Event}
    (received : doc.receive platform coercions = some event) : event.selfHash = event.eventId := by
  unfold WireDoc.receive at received
  simp only [Option.bind_eq_bind, Option.bind_eq_some_iff] at received
  obtain ⟨_, _, _, _, selfHash, _, _, named, payload, _, envelope, read, _, _, result⟩ := received
  simp only [Option.pure_def, Option.some.injEq] at result
  subst result
  rw [Option.guard_eq_some'] at named
  obtain ⟨eventId, own⟩ := identity_of_read read
  exact (Option.some.inj (own.symm.trans named.1)).trans
    (Option.some.inj (eventId.symm.trans named.2)).symm

/-- The wire verification of an element that carries its payload. -/
theorem consistent_of_taken {obj : Json} {event : Event}
    (taken : PullDecoding.fromWire platform coercions obj = .ok event)
    (whole : event.isStub = false) : Consistent platform coercions obj event := by
  simp only [PullDecoding.fromWire, bind_ok] at taken
  obtain ⟨members, dict, value, found, canonical, carried, envelope, inner, taken⟩ := taken
  have raised : ∀ {α : Type} {error : PullDecoding.WireError} {held : Option α} {value : α},
      orRaise error held = .ok value → held = some value := by
    intro α error held value read
    cases held with
    | none => cases read
    | some other =>
        cases read
        rfl
  have dict := raised dict
  have found := raised found
  have carried := raised carried
  have inner := raised inner
  have heldAs : ∀ key, held obj key = Dict.get? members key := by
    intro key
    rw [held, dict, Option.bind_some]
  split at taken
  · cases taken
  cases canonical with
  | null =>
      have received := raised taken
      have accepted := WireDoc.receive_some received
      have stub := accepted.payload
      simp only [WireDoc.payload, Option.some.injEq] at stub
      rw [Event.isStub, ← stub] at whole
      cases whole
  | str text =>
      have received := raised taken
      refine ⟨envelope, text, ?_, ?_, WireDoc.receive_some received,
        selfHash_of_received received⟩
      · rw [heldAs, found, Option.bind_some, inner]
      · rw [heldAs, carried]
  | _ => cases taken

/-- An element that carries the envelope and the text of an accepted document. -/
theorem taken_of_received {envelope : Dict String Json} {text : String} {event : Event}
    (received : WireDoc.receive platform coercions
      { envelope := envelope, payloadCanonical := some text } = some event) :
    PullDecoding.fromWire platform coercions
      (.obj [("envelope", .obj envelope), ("payload_canonical", .str text)]) = .ok event := by
  have unscoped : PullDecoding.scopedV1 coercions envelope = false := by
    have guarded := received
    unfold WireDoc.receive at guarded
    simp only [Option.bind_eq_bind, Option.bind_eq_some_iff] at guarded
    obtain ⟨_, first, _⟩ := guarded
    rw [Option.guard_eq_some'] at first
    unfold PullDecoding.scopedV1
    by_cases one : equalsInt coercions 1
        (WireDoc.version { envelope := envelope, payloadCanonical := some text }) = true
    · obtain ⟨digest, ref⟩ := first one
      change (_ && !(isNull (WireDoc.scopeDigest
        { envelope := envelope, payloadCanonical := some text }) && isNull (WireDoc.scopeRef
          { envelope := envelope, payloadCanonical := some text }))) = false
      rw [digest, ref]
      simp
    · rw [Bool.not_eq_true] at one
      exact Bool.and_eq_false_imp.mpr fun other => absurd (one.symm.trans other) (by decide)
  simp only [PullDecoding.fromWire, PullDecoding.asDict, PullDecoding.orRaise, Option.elim_some,
    bind, Except.bind, Dict.get?_cons, ↓reduceIte, unscoped, received, Bool.false_eq_true,
    String.reduceEq]

/-- A signed archive of events that follow each other. -/
theorem accepted_of_elements {keys : PublicKeyRegistry} {commitment : Json} {elements : List Json}
    {signature signingKeyRef scheme : String} {events : List Event} {first last : Event}
    (mapped : elements.mapM (PullDecoding.fromWire platform coercions) = .ok events)
    (whole : events.any (·.isStub) = false)
    (signs : resolveAndVerifyProvenance platform (digest platform commitment) signature
      signingKeyRef scheme keys = true)
    (eventSet : held commitment "event_set_digest" =
      some (.str (digest platform (textList (events.map (·.eventId))))))
    (head : events.head? = some first) (final : events.getLast? = some last)
    (follows : contiguous events = true) (ends : boundary coercions commitment first last = true) :
    verifyArchiveDoc platform coercions keys
      (.obj [("commitment", commitment), ("commitment_digest", .str (digest platform commitment)),
        ("signature", .str signature), ("signing_key_ref", .str signingKeyRef),
        ("signature_scheme", .str scheme), ("events", .arr elements)]) = .ok events := by
  have members : ∀ fields key, held (.obj fields) key = Dict.get? fields key := fun _ _ => rfl
  unfold verifyArchiveDoc
  simp only [members, Dict.get?_cons, present, Option.elim_some, ↓reduceIte, String.reduceEq, bind,
    Except.bind, check, Option.any_some, equalsText, decide_true, signed, signs, Option.bind_some,
    iterate, mapped, Except.mapError, whole, Bool.not_false, eventSet, head, final, follows, ends,
    Bool.and_self, pure, Except.pure]

/-- The commitment to a segment of one event. -/
def soleCommitment (platform : Platform) (event : Event) : Json :=
  .obj [("origin_node", .str event.originNode), ("from_seq", .int event.originSeq),
    ("from_hash", optionalText event.prevHash), ("to_seq", .int event.originSeq),
    ("to_hash", .str event.selfHash),
    ("event_set_digest", .str (digest platform (textList [event.eventId])))]

/-- A signed archive of one event. -/
theorem accepted_alone {keys : PublicKeyRegistry} {element : Json}
    {signature signingKeyRef scheme : String} {event : Event}
    (taken : PullDecoding.fromWire platform coercions element = .ok event)
    (whole : event.isStub = false)
    (signs : signed platform keys (digest platform (soleCommitment platform event))
      (.str signature) (.str signingKeyRef) (.str scheme) = true) :
    verifyArchiveDoc platform coercions keys
      (.obj [("commitment", soleCommitment platform event),
        ("commitment_digest", .str (digest platform (soleCommitment platform event))),
        ("signature", .str signature), ("signing_key_ref", .str signingKeyRef),
        ("signature_scheme", .str scheme), ("events", .arr [element])]) = .ok [event] := by
  have members : ∀ fields key, held (.obj fields) key = Dict.get? fields key := fun _ _ => rfl
  have mapped : [element].mapM (PullDecoding.fromWire platform coercions) = .ok [event] := by
    simp only [List.mapM_cons, taken, List.mapM_nil, bind, Except.bind, pure, Except.pure]
  have eventSet : held (soleCommitment platform event) "event_set_digest" =
      some (.str (digest platform (textList [event.eventId]))) := by
    simp [soleCommitment, members, Dict.get?_cons]
  have ends : boundary coercions (soleCommitment platform event) event event = true := by
    simp [boundary, soleCommitment, members, Dict.get?_cons, equalsText_iff,
      equalsOptionalText_iff, equalsInt]
  have whole : [event].any (·.isStub) = false := by simp [whole]
  exact accepted_of_elements mapped whole signs eventSet rfl rfl rfl ends

theorem contiguous_chain {events : List Event} (followed : contiguous events = true) :
    events.IsChain fun before after => after.originSeq = before.originSeq + 1 ∧
      after.prevHash = some before.selfHash ∧ after.originNode = before.originNode := by
  induction events with
  | nil => exact .nil
  | cons first rest ih =>
      cases rest with
      | nil => exact .singleton _
      | cons second rest =>
          unfold contiguous at followed
          obtain ⟨next, later⟩ := (Bool.and_eq_true _ _).mp followed
          exact .cons_cons (of_decide_eq_true next) (ih later)

theorem contiguous_of_chain {events : List Event}
    (chain : events.IsChain fun before after => after.originSeq = before.originSeq + 1 ∧
      after.prevHash = some before.selfHash ∧ after.originNode = before.originNode) :
    contiguous events = true := by
  induction events with
  | nil => rfl
  | cons first rest ih =>
      cases rest with
      | nil => rfl
      | cons second rest =>
          obtain ⟨next, later⟩ := List.isChain_cons_cons.mp chain
          unfold contiguous
          rw [decide_eq_true next, ih later]
          rfl

/-- A chain stays on the origin it starts from. -/
theorem chain_origin {first : Event} {rest : List Event}
    (chain : (first :: rest).IsChain fun before after => after.originSeq = before.originSeq + 1 ∧
      after.prevHash = some before.selfHash ∧ after.originNode = before.originNode) :
    ∀ event ∈ first :: rest, event.originNode = first.originNode := by
  induction rest generalizing first with
  | nil =>
      intro event member
      rw [List.mem_singleton.mp member]
  | cons second rest ih =>
      intro event member
      obtain ⟨next, later⟩ := List.isChain_cons_cons.mp chain
      rcases List.mem_cons.mp member with rfl | behind
      · rfl
      · exact (ih later event behind).trans next.2.2

theorem segment_of_verified {doc : Json} {events : List Event}
    (verified : Verified platform coercions doc events) :
    Segment platform coercions doc events := by
  obtain ⟨objs, listed, read⟩ := verified.elements
  obtain ⟨commitment, first, last, named, head, final, ends⟩ := verified.ends
  have chain := contiguous_chain verified.contiguous
  have whole : ∀ event ∈ events, event.isStub = false := by
    intro event member
    have none := List.any_eq_false.mp verified.whole event member
    simpa using none
  have commits : ∀ key, committed doc key = held commitment key := by
    intro key
    rw [committed, named, Option.bind_some]
  unfold boundary at ends
  simp only [Bool.and_eq_true, any_equalsText, any_equalsOptionalText, ← commits] at ends
  obtain ⟨⟨⟨⟨origin, fromSeq⟩, fromHash⟩, toSeq⟩, toHash⟩ := ends
  refine {
    nonempty := fun empty => by rw [empty] at head; cases head
    elements := ⟨objs, listed, ?_⟩
    whole := whole
    chained := chain.imp fun _ _ next => ⟨next.1, next.2.1⟩
    origin := ?_
    starts := ?_
    ends := ?_ }
  · refine (List.forall₂_iff_zip.mpr ?_)
    obtain ⟨length, pairs⟩ := List.forall₂_iff_zip.mp (forall₂_of_mapM read)
    refine ⟨length, fun paired => ?_⟩
    exact consistent_of_taken (pairs paired) (whole _ (List.of_mem_zip paired).2)
  · cases events with
    | nil => cases head
    | cons start rest =>
        cases head
        intro event member
        rw [chain_origin chain event member]
        exact origin
  · intro other started
    rw [Option.mem_def, head] at started
    cases started
    exact ⟨fromSeq, fromHash⟩
  · intro other ended
    rw [Option.mem_def, final] at ended
    cases ended
    exact ⟨toSeq, toHash⟩

/-- Elements that hash to one identity are one event, up to what is not hashed. -/
theorem sameHashed_of_id (collisionFree : CollisionFree platform) (lawful : coercions.Lawful)
    {leftObj rightObj : Json} {left right : Event}
    (leftRead : Consistent platform coercions leftObj left)
    (rightRead : Consistent platform coercions rightObj right)
    (same : left.eventId = right.eventId) : SameHashed left right := by
  obtain ⟨_, _, _, _, leftAccepted, leftHash⟩ := leftRead
  obtain ⟨_, _, _, _, rightAccepted, rightHash⟩ := rightRead
  obtain ⟨_, hashed⟩ := leftAccepted.agree collisionFree lawful rightAccepted same
  have payload := leftAccepted.samePayload collisionFree rightAccepted
    (congrArg HashedEnvelope.payloadDigest hashed) rfl rfl
  exact ⟨hashed, same, leftHash.trans (same.trans rightHash.symm), payload.2⟩

theorem eventIds_of_committed (collisionFree : CollisionFree platform) {left right : Json}
    {leftEvents rightEvents : List Event} (leftVerified : Verified platform coercions left leftEvents)
    (rightVerified : Verified platform coercions right rightEvents)
    (same : committed left "event_set_digest" = committed right "event_set_digest") :
    leftEvents.map (·.eventId) = rightEvents.map (·.eventId) := by
  have digests := leftVerified.eventSet.symm.trans (same.trans rightVerified.eventSet)
  simp only [Option.some.injEq, Json.str.injEq] at digests
  have sorted := digest_injective collisionFree (textList_wellKeyed _) (textList_wellKeyed _) digests
  rw [textList_sortKeys, textList_sortKeys] at sorted
  exact textList_injective sorted

theorem sameHashed_of_ids (collisionFree : CollisionFree platform) (lawful : coercions.Lawful)
    {leftObjs rightObjs : List Json} {left right : List Event}
    (leftRead : List.Forall₂ (Consistent platform coercions) leftObjs left)
    (rightRead : List.Forall₂ (Consistent platform coercions) rightObjs right)
    (same : left.map (·.eventId) = right.map (·.eventId)) : List.Forall₂ SameHashed left right := by
  induction leftRead generalizing rightObjs right with
  | nil =>
      rw [List.map_nil, eq_comm, List.map_eq_nil_iff] at same
      rw [same]
      exact .nil
  | cons leftFirst _ ih =>
      cases rightRead with
      | nil => cases same
      | cons rightFirst rightRest =>
          rw [List.map_cons, List.map_cons, List.cons.injEq] at same
          exact .cons (sameHashed_of_id collisionFree lawful leftFirst rightFirst same.1)
            (ih rightRest same.2)

end Accepted

end ReceivedArchive

/-- An accepted document holds a chain of one origin between the committed ends, and a commitment
is accepted with one list of events only. -/
theorem archive_sound (platform : Platform) (coercions : Coercions)
    (collisionFree : CollisionFree platform) (lawful : coercions.Lawful) :
    (∀ (keys : PublicKeyRegistry) (doc : Json) (events : List Event),
      ReceivedArchive.verifyArchiveDoc platform coercions keys doc = .ok events →
        ReceivedArchive.Segment platform coercions doc events) ∧
    ∀ (leftKeys rightKeys : PublicKeyRegistry) (left right : Json)
      (leftEvents rightEvents : List Event),
      ReceivedArchive.verifyArchiveDoc platform coercions leftKeys left = .ok leftEvents →
      ReceivedArchive.verifyArchiveDoc platform coercions rightKeys right = .ok rightEvents →
      (∀ key, ReceivedArchive.committed left key = ReceivedArchive.committed right key) →
        List.Forall₂ ReceivedArchive.SameHashed leftEvents rightEvents := by
  constructor
  · intro keys doc events accepted
    exact ReceivedArchive.segment_of_verified (ReceivedArchive.verified accepted)
  · intro leftKeys rightKeys left right leftEvents rightEvents leftAccepted rightAccepted same
    have leftVerified := ReceivedArchive.verified leftAccepted
    have rightVerified := ReceivedArchive.verified rightAccepted
    obtain ⟨_, _, leftRead⟩ := (ReceivedArchive.segment_of_verified leftVerified).elements
    obtain ⟨_, _, rightRead⟩ := (ReceivedArchive.segment_of_verified rightVerified).elements
    exact ReceivedArchive.sameHashed_of_ids collisionFree lawful leftRead rightRead
      (ReceivedArchive.eventIds_of_committed collisionFree leftVerified rightVerified
        (same "event_set_digest"))

namespace Shipped

def text : String := Json.canonicalJson payload.modelDump

def element : Json :=
  .obj [("envelope", .obj (toWire observation false).doc.envelope), ("payload_canonical", .str text)]

def commitment : Json := ReceivedArchive.soleCommitment plainPlatform observation

def archive : Json :=
  .obj [("commitment", commitment),
    ("commitment_digest", .str (digest plainPlatform commitment)),
    ("signature", .str ("pem" ++ digest plainPlatform commitment)),
    ("signing_key_ref", .str "archiver"), ("signature_scheme", .str "ed25519"),
    ("events", .arr [element])]

def archiverKeys : PublicKeyRegistry := [("archiver", "pem")]

theorem element_taken :
    PullDecoding.fromWire plainPlatform Coercions.strict element = .ok observation := by
  have received := receive_toWire plainPlatform_readsDoubles Coercions.strict_lawful
    observation_verified false
  have whole : observation.shipped false = observation := by
    simp [Event.shipped, Event.isStub, observation]
  rw [whole] at received
  exact ReceivedArchive.taken_of_received received

theorem archive_signed {contentHash : String} :
    ReceivedArchive.signed plainPlatform archiverKeys contentHash (.str ("pem" ++ contentHash))
      (.str "archiver") (.str "ed25519") = true := by
  simp [ReceivedArchive.signed, resolveAndVerifyProvenance, verifyProvenance, archiverKeys,
    plainPlatform, Dict.get?_cons]

theorem archive_accepted :
    ReceivedArchive.verifyArchiveDoc plainPlatform Coercions.strict archiverKeys archive =
      .ok [observation] :=
  ReceivedArchive.accepted_alone element_taken rfl archive_signed

/-- The archive of one observation. -/
theorem observation_archived :
    ReceivedArchive.Segment plainPlatform Coercions.strict archive [observation] ∧
      List.Forall₂ ReceivedArchive.SameHashed [observation] [observation] := by
  have sound := archive_sound plainPlatform Coercions.strict plainPlatform_collisionFree
    Coercions.strict_lawful
  exact ⟨sound.1 archiverKeys archive [observation] archive_accepted,
    sound.2 archiverKeys archiverKeys archive archive [observation] [observation] archive_accepted
      archive_accepted fun _ => rfl⟩

end Shipped

end Kawa
