import Kawa.ForkRelease
import Kawa.Redelivery

/-!
Releasing a frozen fork in a reachable store.  Evidence accumulates, so resolved and frozen rows
can stand at one position, and the receipt that resolved the earlier ones is the only one that
passes them.
-/

namespace Kawa

open Result

namespace ForkRecovery

/-! ## Runs -/

/-- A step of a node: a call, a resolution, or a policy that is established. -/
inductive Step
  | call (call : Call)
  | resolve (resolution : Resolution)
  | establish (keys : PublicKeyRegistry) (trust : TrustRegistry)
      (canonicalBundle receiptEventId : String)

/-- A step that commits takes one store to the next. -/
def Performed (platform : Platform) (readPayload : String → Option Payload) (store : Store)
    (step : Step) (next : Store) : Prop :=
  match step with
  | .call call => Called platform readPayload store call next
  | .resolve resolution => (resolveFork platform store resolution).2 = .ok next
  | .establish keys trust canonicalBundle receiptEventId => ∃ policyDigest,
      establishPolicy platform keys trust store canonicalBundle receiptEventId =
        .ok (next, policyDigest)

/-- Evidence names the row that is held at its position, which is the head that any resolution
has chosen. -/
structure EvidenceSound (store : Store) : Prop where
  named : ∀ evidence ∈ store.security.forkEvidence,
    ∃ row, store.log.rowAt evidence.originNode evidence.originSeq = some row ∧
      row.eventId = evidence.heldEventId
  settled : ∀ evidence ∈ store.security.forkEvidence, evidence.frozen = false →
    evidence.chosenHead = some evidence.heldEventId

/-- A held receipt, valid now, that binds the fork point, the head and the current policy. -/
structure Entitled (platform : Platform) (store : Store) (resolution : Resolution)
    (receipt : AuthorityReceipt) : Prop where
  loads : loadReceipt store.log resolution.receiptEventId = .ok (some receipt)
  key : receipt.authorityKey = forkResolutionKey
  current : currentPolicyDigest store.security = .ok receipt.policyDigest
  binds : receipt.operationDigest = forkResolutionOperationDigest platform resolution.originNode
    resolution.originSeq resolution.chosenHead receipt.configurationDigest receipt.policyDigest
  valid : ∃ proofStore, loadProofStore platform store.log = .ok proofStore ∧
    verifyReceipt platform resolution.keys proofStore receipt (some resolution.trust) = .valid

/-- Evidence at the position is frozen, and the head chosen is the event held there. -/
structure Stuck (store : Store) (resolution : Resolution) : Prop where
  frozen : ∃ evidence ∈ store.security.forkEvidence,
    resolution.concerns evidence = true ∧ evidence.frozen = true
  head : ∃ row, store.log.rowAt resolution.originNode resolution.originSeq = some row ∧
    row.eventId = resolution.chosenHead

/-- The resolution succeeds and leaves nothing frozen at the position. -/
def Recovers (platform : Platform) (store : Store) (resolution : Resolution) : Prop :=
  ∃ next, (resolveFork platform store resolution).2 = .ok next ∧
    ∀ evidence ∈ next.security.forkEvidence, resolution.concerns evidence = true →
      evidence.frozen = false

/-- The texts of the call can be stored, and what was resolved at the position before was
resolved by this receipt. -/
structure Unconsumed (store : Store) (resolution : Resolution) : Prop where
  texts : storableTexts [resolution.originNode, resolution.receiptEventId, resolution.chosenHead,
    resolution.reason] = true
  same : ∀ evidence ∈ store.security.forkEvidence, resolution.concerns evidence = true →
    evidence.frozen = false → evidence.resolvedBy = some resolution.receiptEventId

section Steps

variable {platform : Platform} {readPayload : String → Option Payload} {store next : Store}

/-! ## What a step keeps of the evidence -/

/-- The evidence stays sound where each row is an old one or is freshly frozen over the held
row, and the held rows keep their positions. -/
theorem EvidenceSound.later (sound : EvidenceSound store)
    (rows : ∀ node seq row, store.log.rowAt node seq = some row →
      ∃ now, next.log.rowAt node seq = some now ∧ now.eventId = row.eventId)
    (evidence : ∀ evidence ∈ next.security.forkEvidence,
      evidence ∈ store.security.forkEvidence ∨ evidence.frozen = true ∧
        ∃ row, store.log.rowAt evidence.originNode evidence.originSeq = some row ∧
          row.eventId = evidence.heldEventId) : EvidenceSound next where
  named row held := by
    have before : ∃ old, store.log.rowAt row.originNode row.originSeq = some old ∧
        old.eventId = row.heldEventId := by
      rcases evidence row held with old | ⟨_, fresh⟩
      · exact sound.named row old
      · exact fresh
    obtain ⟨old, found, same⟩ := before
    obtain ⟨now, later, kept⟩ := rows _ _ _ found
    exact ⟨now, later, kept.trans same⟩
  settled row held thawed := by
    rcases evidence row held with old | ⟨frozen, _⟩
    · exact sound.settled row old thawed
    · rw [frozen] at thawed
      cases thawed

theorem verdict_freeze_held {receiver : Receiver} {view : OriginView} {event : Event}
    {held : EventRow} {key : String}
    (verdict : receiver.verdict platform view event = .freeze held key) :
    view.rowAt event.originSeq = some held := by
  unfold Receiver.verdict at verdict
  split_ifs at verdict
  · have judged := heldVerdict_case platform receiver (view.rowAt event.originSeq) event
    rw [verdict] at judged
    cases judged with
    | rival _ _ _ found _ _ => exact found
  · cases refused : receiver.refusal platform event with
    | none => rw [refused] at verdict; cases verdict
    | some reason => rw [refused] at verdict; cases verdict

theorem admitOne_evidenceSound {receiver : Receiver} {state after : AdmitState} {event : Event}
    (sound : EvidenceSound state.store)
    (done : admitOne platform receiver state event = .ok after) : EvidenceSound after.store := by
  rw [admitOne_eq] at done
  refine sound.later ?_ ?_
  · intro node seq row found
    obtain ⟨⟨subjectRef, _, rows⟩, _⟩ := act_rows done
    rw [rowAt_rows rfl] at found
    rw [rowAt_rows rows]
    have persists : row.Persists (List.find? (atPosition node seq) (rowsAfter receiver event
        subjectRef state.store.log.events.rows
          (receiver.verdict platform (state.view event.originNode) event))) :=
      find_rowsAfter_persists found
    obtain ⟨now, later, same, _⟩ := persists.found
    exact ⟨now, later, same⟩
  · intro evidence held
    rcases act_evidence done with ⟨row, key, verdict, same⟩ | ⟨_, same⟩
    · rw [same, Table.mem_insertNew] at held
      rcases held with old | ⟨rfl, _⟩
      · exact .inl old
      · exact .inr ⟨rfl, row, verdict_freeze_held verdict, rfl⟩
    · rw [same] at held
      exact .inl held

theorem admitBatch_evidenceSound {receiver : Receiver} {clock : Option HLC} {batch : List Event}
    {final : AdmitState} (sound : EvidenceSound store)
    (admitted : admitBatch platform receiver store clock batch = .ok final) :
    EvidenceSound final.store := by
  have steps : ∀ (state : AdmitState) (event : Event) (next : AdmitState), event ∈ batch →
      EvidenceSound state.store → admitOne platform receiver state event = .ok next →
      EvidenceSound next.store := fun _ _ _ _ kept step => admitOne_evidenceSound kept step
  exact foldlM_invariant steps sound admitted

/-- An emit appends one row and touches no evidence. -/
theorem emitted_evidenceSound {emitter : Emitter} {now recordedAt : Int} {request : EmitRequest}
    {event : Event} {row : EventRow} {middle : Log} (sound : EvidenceSound store)
    (emitted : Emitted platform emitter now recordedAt store.log request next.log event row middle)
    (security : next.security = store.security) : EvidenceSound next := by
  refine sound.later ?_ ?_
  · intro node seq held found
    refine ⟨held, ?_, rfl⟩
    have rows : next.log.events.rows = store.log.events.rows ++ [row] := by
      rw [insertPayload_events emitted.payload, emitted.inserted.rows]
    rw [rowAt_rows rows, List.find?_append, ← rowAt_rows rfl, found]
    rfl
  · intro evidence held
    rw [security] at held
    exact .inl held

theorem called_evidenceSound {call : Call} (sound : EvidenceSound store)
    (called : Called platform readPayload store call next) : EvidenceSound next := by
  unfold Called at called
  cases call with
  | emit emitter live now recordedAt request =>
      obtain ⟨⟨log, event⟩, done, rfl⟩ := toOption_map_eq_some.mp called
      obtain ⟨row, middle, emitted⟩ := emit_ok done
      exact emitted_evidenceSound sound emitted rfl
  | emitReduce scan emitter live now recordedAt request =>
      obtain ⟨⟨after, event⟩, done, rfl⟩ := toOption_map_eq_some.mp called
      simp only [emitReduce, bind_ok, pure_ok] at done
      obtain ⟨⟨log, minted⟩, appended, projections, _, made⟩ := done
      obtain ⟨row, middle, emitted⟩ := emit_ok appended
      cases made
      exact emitted_evidenceSound sound emitted rfl
  | deliver receiver clock batch =>
      obtain ⟨final, admitted, rfl⟩ := toOption_map_eq_some.mp called
      exact admitBatch_evidenceSound sound admitted
  | pull receiver clock source sourceTrust pullerNode =>
      obtain ⟨final, pulled, rfl⟩ := toOption_map_eq_some.mp called
      simp only [pull, bind_ok] at pulled
      obtain ⟨batch, _, admitted⟩ := pulled
      exact admitBatch_evidenceSound sound admitted
  | archive receiver clock doc =>
      obtain ⟨final, imported, rfl⟩ := toOption_map_eq_some.mp called
      simp only [archiveImport, bind_ok, pure_ok] at imported
      obtain ⟨batch, _, done, mapped, rfl⟩ := imported
      cases admitted : admitBatch platform { receiver with requestedScopes := none } store clock
          batch with
      | error e => rw [admitted] at mapped; cases mapped
      | ok value =>
          rw [admitted] at mapped
          cases mapped
          have kept := admitBatch_evidenceSound sound admitted
          exact ⟨kept.named, kept.settled⟩

theorem supersedeHead_evidence {security after : SecurityPlane} {prior : Option String}
    {policyDigest : String} (done : supersedeHead security prior policyDigest = .ok after) :
    after.forkEvidence = security.forkEvidence := by
  cases prior with
  | none => cases done; rfl
  | some prior =>
      simp only [supersedeHead, supersede] at done
      split at done
      · cases done
      · cases done
        rfl

theorem insertLineage_evidence {security after : SecurityPlane} {row : PolicyLineageRow}
    (done : insertLineage security row = .ok after) :
    after.forkEvidence = security.forkEvidence := by
  unfold insertLineage at done
  split_ifs at done <;> cases done <;> rfl

/-- A policy is established beside the log and the evidence. -/
theorem establishPolicy_keeps {keys : PublicKeyRegistry} {trust : TrustRegistry}
    {canonicalBundle receiptEventId policyDigest : String}
    (done : establishPolicy platform keys trust store canonicalBundle receiptEventId =
      .ok (next, policyDigest)) :
    next.log = store.log ∧ next.security.forkEvidence = store.security.forkEvidence := by
  simp only [establishPolicy, bind_ok] at done
  obtain ⟨prior, _, done⟩ := done
  split at done
  · cases done
    exact ⟨rfl, rfl⟩
  · simp only [bind_ok, pure_ok] at done
    obtain ⟨_, _, superseded, moved, _, _, security, inserted, made⟩ := done
    cases made
    exact ⟨rfl, (insertLineage_evidence inserted).trans (supersedeHead_evidence moved)⟩

theorem establishPolicy_evidenceSound {keys : PublicKeyRegistry} {trust : TrustRegistry}
    {canonicalBundle receiptEventId policyDigest : String} (sound : EvidenceSound store)
    (done : establishPolicy platform keys trust store canonicalBundle receiptEventId =
      .ok (next, policyDigest)) : EvidenceSound next := by
  obtain ⟨log, evidence⟩ := establishPolicy_keeps done
  refine sound.later (fun node seq row found => ⟨row, ?_, rfl⟩) fun row held => .inl ?_
  · rw [log]
    exact found
  · rw [← evidence]
    exact held

theorem mem_rows {resolution : Resolution} {evidence : ForkEvidence} :
    evidence ∈ resolution.rows store ↔
      evidence ∈ store.security.forkEvidence ∧ resolution.concerns evidence = true := by
  rw [Resolution.rows, (resolution.scan.perm _).mem_iff, List.mem_filter]
  rfl

/-- A resolution succeeds exactly where it is judged, no row refuses and its texts are stored. -/
theorem resolveFork_succeeds {resolution : Resolution}
    (done : (resolveFork platform store resolution).2 = .ok next) :
    Judged platform store resolution ∧
      (∀ evidence ∈ resolution.rows store, resolution.refuses evidence = false) ∧
      releaseFork store resolution = .ok next := by
  by_cases judged : Judged platform store resolution
  swap
  · obtain ⟨_, error, raised⟩ := resolveFork_unjudged judged
    rw [raised] at done
    cases done
  rw [resolveFork_judged judged] at done
  rcases first_refusal resolution (resolution.rows store) with
    passes | ⟨before, row, after, split, passes, refuses⟩
  · rw [resolveRows_passes passes] at done
    refine ⟨judged, passes, ?_⟩
    cases released : releaseFork store resolution with
    | error error => rw [released] at done; cases done
    | ok value => rw [released] at done; cases done; rfl
  · obtain ⟨reason, raised⟩ : ∃ reason, resolveRows resolution resolution.trust
        (resolution.rows store) = (resolution.revoked resolution.trust before,
          some (.refused reason)) := by
      rw [split]
      exact resolveRows_refuses passes refuses
    rw [raised] at done
    cases done

theorem resolveFork_releases {resolution : Resolution}
    (judged : Judged platform store resolution)
    (passes : ∀ evidence ∈ resolution.rows store, resolution.refuses evidence = false)
    (texts : storableTexts [resolution.receiptEventId, resolution.chosenHead,
      resolution.reason] = true) :
    ∃ next, releaseFork store resolution = .ok next ∧
      (resolveFork platform store resolution).2 = .ok next := by
  obtain ⟨next, released⟩ : ∃ next, releaseFork store resolution = .ok next := by
    simp only [releaseFork, texts, require, ↓reduceIte, bind, Except.bind]
    exact ⟨_, rfl⟩
  refine ⟨next, released, ?_⟩
  rw [resolveFork_judged judged, resolveRows_passes passes, released]
  rfl

theorem resolveFork_log {resolution : Resolution}
    (done : (resolveFork platform store resolution).2 = .ok next) : next.log = store.log := by
  obtain ⟨_, _, released⟩ := resolveFork_succeeds done
  simp only [releaseFork, bind_ok, pure_ok] at released
  obtain ⟨_, _, rfl⟩ := released
  rfl

theorem resolveFork_evidenceSound {resolution : Resolution} (sound : EvidenceSound store)
    (done : (resolveFork platform store resolution).2 = .ok next) : EvidenceSound next := by
  obtain ⟨_, passes, released⟩ := resolveFork_succeeds done
  simp only [releaseFork, bind_ok, pure_ok] at released
  obtain ⟨_, _, rfl⟩ := released
  constructor
  · intro row held
    rw [Table.mem_update] at held
    rcases held with ⟨old, inTable, _, rfl⟩ | ⟨inTable, _⟩
    · exact sound.named old inTable
    · exact sound.named row inTable
  · intro row held thawed
    rw [Table.mem_update] at held
    rcases held with ⟨old, inTable, met, rfl⟩ | ⟨inTable, _⟩
    · -- a frozen row passes only under the head that it names
      rw [Bool.and_eq_true] at met
      have passed := passes old (mem_rows.mpr ⟨inTable, met.1⟩)
      rw [Resolution.refuses, if_pos met.2] at passed
      simpa using passed
    · exact sound.settled row inTable thawed

theorem performed_evidenceSound {step : Step} (sound : EvidenceSound store)
    (performed : Performed platform readPayload store step next) : EvidenceSound next := by
  cases step with
  | call call => exact called_evidenceSound sound performed
  | resolve resolution => exact resolveFork_evidenceSound sound performed
  | establish keys trust canonicalBundle receiptEventId =>
      obtain ⟨policyDigest, done⟩ := performed
      exact establishPolicy_evidenceSound sound done

theorem run_evidenceSound {steps : List Step}
    (run : Run (Performed platform readPayload) {} steps store) : EvidenceSound store := by
  refine run.invariant EvidenceSound (fun _ _ _ kept step => performed_evidenceSound kept step) ?_
  constructor
  · intro evidence held
    cases held
  · intro evidence held
    cases held

/-! ## When a fork is released -/

theorem Entitled.authorized {resolution : Resolution} {receipt : AuthorityReceipt}
    (entitled : Entitled platform store resolution receipt) :
    authorizeFork platform store resolution = .ok receipt := by
  obtain ⟨proofStore, proves, valid⟩ := entitled.valid
  unfold authorizeFork
  simp only [entitled.loads, entitled.current, liftStore, Except.mapError, bind, Except.bind]
  exact exercise_succeeds entitled.key entitled.current entitled.binds proves valid

/-- A resolution succeeds only over rows that the same receipt has resolved. -/
theorem Recovers.same {resolution : Resolution} (recovers : Recovers platform store resolution) :
    ∀ evidence ∈ store.security.forkEvidence, resolution.concerns evidence = true →
      evidence.frozen = false → evidence.resolvedBy = some resolution.receiptEventId := by
  obtain ⟨next, done, _⟩ := recovers
  obtain ⟨_, passes, _⟩ := resolveFork_succeeds done
  intro evidence held concerned thawed
  have passed := passes evidence (mem_rows.mpr ⟨held, concerned⟩)
  rw [Resolution.refuses, if_neg (by rw [thawed]; decide)] at passed
  have resolved : evidence.chosenHead = some resolution.chosenHead ∧
      evidence.resolvedBy = some resolution.receiptEventId := by simpa using passed
  exact resolved.2

/-- In every reachable store with frozen evidence at a position, a resolution under a valid
receipt for the held head releases it exactly where the position was not consumed by another
receipt. -/
theorem recovers_iff {steps : List Step}
    (run : Run (Performed platform readPayload) {} steps store) {resolution : Resolution}
    {receipt : AuthorityReceipt} (entitled : Entitled platform store resolution receipt)
    (stuck : Stuck store resolution) :
    Recovers platform store resolution ↔ Unconsumed store resolution := by
  have sound := run_evidenceSound run
  obtain ⟨row, found, chosen⟩ := stuck.head
  -- every row at the position names the event that is held there
  have head : ∀ evidence ∈ store.security.forkEvidence, resolution.concerns evidence = true →
      evidence.heldEventId = resolution.chosenHead := by
    intro evidence held concerned
    obtain ⟨node, seq⟩ := of_decide_eq_true concerned
    obtain ⟨other, named, same⟩ := sound.named evidence held
    rw [node, seq, found] at named
    rw [← same, ← Option.some.inj named, chosen]
  constructor
  · intro recovers
    refine ⟨?_, recovers.same⟩
    obtain ⟨next, done, _⟩ := recovers
    obtain ⟨judged, _, released⟩ := resolveFork_succeeds done
    simp only [releaseFork, bind_ok, require_ok] at released
    obtain ⟨_, texts, _⟩ := released
    simp only [storableTexts, List.all_cons, List.all_nil, Bool.and_eq_true] at texts ⊢
    exact ⟨judged.named, texts⟩
  · intro unconsumed
    have texts := unconsumed.texts
    simp only [storableTexts, List.all_cons, Bool.and_eq_true] at texts
    have judged : Judged platform store resolution := by
      refine ⟨texts.1, ?_, receipt, entitled.authorized⟩
      obtain ⟨evidence, held, concerned, _⟩ := stuck.frozen
      exact List.ne_nil_of_mem (mem_rows.mpr ⟨held, concerned⟩)
    have passes : ∀ evidence ∈ resolution.rows store, resolution.refuses evidence = false := by
      intro evidence listed
      obtain ⟨held, concerned⟩ := mem_rows.mp listed
      unfold Resolution.refuses
      cases frozen : evidence.frozen with
      | true => simp [head evidence held concerned]
      | false =>
          have same := sound.settled evidence held frozen
          rw [head evidence held concerned] at same
          simp [same, unconsumed.same evidence held concerned frozen]
    have stored : storableTexts [resolution.receiptEventId, resolution.chosenHead,
        resolution.reason] = true := by
      simp only [storableTexts, List.all_cons, Bool.and_eq_true]
      exact texts.2
    obtain ⟨next, released, done⟩ := resolveFork_releases judged passes stored
    exact ⟨next, done, fun evidence held concerned => releaseFork_thaws released held concerned⟩

end Steps

/-! ## A second rival at a resolved position -/

namespace SecondRival

/-- The stores differ in their evidence only. -/
structure SameButEvidence (store next : Store) : Prop where
  log : next.log = store.log
  lineage : next.security.lineageHeads = store.security.lineageHeads

/-- A delivered rival of a held event is recorded, and nothing else. -/
theorem rival_delivered {receiver : Receiver} {store : Store} {held : EventRow} {event : Event}
    {key : String} (thawed : ∀ row ∈ store.security.forkEvidence.rows, row.frozen = true →
      row.originNode ≠ event.originNode)
    (found : store.log.rowAt event.originNode event.originSeq = some held)
    (stored : storableText event.originNode = true) (other : held.eventId ≠ event.eventId)
    (proven : receiver.rivalKey plainPlatform event = some key)
    (texts : storableTexts [event.eventId, key] = true) :
    ∃ next, Called plainPlatform (fun _ => none) store (.deliver receiver none [event]) next ∧
      SameButEvidence store next ∧ next.security.forkEvidence =
        store.security.forkEvidence.insertNew (forkEvidence receiver.trust held event key) := by
  have below : event.originSeq ≤ ((AdmitState.start store none).head event.originNode).1 := by
    obtain ⟨node, seq⟩ : held.originNode = event.originNode ∧ held.originSeq = event.originSeq := by
      simpa using List.find?_some found
    rw [headsAgree_start, ← node, ← seq]
    exact headMark_ge (rowAt_mem found)
  have frozen := start_thawed none thawed
  have verdict : receiver.verdict plainPlatform ((AdmitState.start store none).view
      event.originNode) event = .freeze held key := by
    have clean : event.originNode ∉ (AdmitState.start store none).poisoned := List.not_mem_nil
    have sameRow : (AdmitState.start store none).store.log.rowAt event.originNode
        event.originSeq = some held := found
    simp only [Receiver.verdict, AdmitState.view, frozen, clean, below, decide_false,
      Bool.false_eq_true, ↓reduceIte, Receiver.heldVerdict, stored, sameRow, other, proven,
      Bool.true_eq_false]
  let security := { store.security with
    forkEvidence := store.security.forkEvidence.insertNew
      (forkEvidence receiver.trust held event key) }
  have admitted : admitOne plainPlatform receiver (AdmitState.start store none) event =
      .ok (AdmitState.reject
        { AdmitState.start store none with
          store := { store with security := security }
          frozen := event.originNode :: (AdmitState.start store none).frozen } event
        (forkEvidence receiver.trust held event key).classification.value) := by
    rw [admitOne_eq, verdict]
    simp only [act, texts, require, ↓reduceIte, bind, Except.bind]
    rfl
  exact ⟨_, called_admit (admitBatch_one admitted), ⟨rfl, rfl⟩, rfl⟩

/-- The attestation of an event that a node has signed. -/
theorem arrives_signed {node : String} {payload : Payload} {event : Event}
    (arrives : Arrives node payload event) :
    event.attestation = some ("pem" ++ event.selfHash, node, "ed25519") := by
  obtain ⟨signature, keyRef, scheme, signed, named, schemed, verified, _, _⟩ :=
    arrives.attested.accepted
  have bound : keyRef = node ∧ scheme = "ed25519" ∧ signature = "pem" ++ event.selfHash := by
    unfold resolveAndVerifyProvenance at verified
    by_cases same : node = keyRef
    · subst same
      refine ⟨rfl, ?_⟩
      simpa [plainKeys, Dict.get?_cons, verifyProvenance, plainPlatform] using verified
    · simp [plainKeys, Dict.get?_cons, same] at verified
  obtain ⟨rfl, rfl, rfl⟩ := bound
  exact attestation_eq_some.mpr ⟨signed, named, schemed⟩

/-- The receiver of the second rival: the key of the first is revoked, and the node has another. -/
def rekeyed : Receiver :=
  { plainReceiver "peer" none 0 with
    keys := plainKeys ["next"]
    trust := {
      keys := [
        ("peer", {
          nodeRef := "peer"
          standing := .revoked
          incarnationRef := "incarnation"
          revokedFromSeq := some 1
          priorStanding := some .active }),
        ("next", {
          nodeRef := "peer"
          standing := .active
          incarnationRef := "incarnation"
          revokedFromSeq := none
          priorStanding := none })]
      grants := [] } }

theorem first_rivalKey {payload : Payload} {event : Event}
    (arrives : Arrives "peer" payload event) :
    (plainReceiver "peer" none 0).rivalKey plainPlatform event = some "peer" := by
  unfold Receiver.rivalKey
  rw [arrives.verified, arrives_signed arrives]
  simp [evaluate, admits, resolveAndVerifyProvenance, verifyProvenance, plainReceiver, plainKeys,
    plainTrust, plainPlatform, TrustRegistry.standing, TrustRegistry.nodeRef, Dict.get?_cons,
    arrives.originNode]

theorem second_rivalKey {payload : Payload} {event : Event}
    (arrives : Arrives "peer" payload event) :
    rekeyed.rivalKey plainPlatform { event with signingKeyRef := some "next" } =
      some "next" := by
  have verified : ({ event with signingKeyRef := some "next" } : Event).verify plainPlatform =
      true := arrives.verified
  have attested : ({ event with signingKeyRef := some "next" } : Event).attestation =
      some ("pem" ++ event.selfHash, "next", "ed25519") := by
    obtain ⟨signed, _, schemed⟩ := attestation_eq_some.mp (arrives_signed arrives)
    exact attestation_eq_some.mpr ⟨signed, rfl, schemed⟩
  unfold Receiver.rivalKey
  rw [verified, attested]
  simp [evaluate, admits, resolveAndVerifyProvenance, verifyProvenance, rekeyed, plainKeys,
    plainPlatform, TrustRegistry.standing, TrustRegistry.nodeRef, Dict.get?_cons,
    arrives.originNode]

/-- Two first events of a node under two kinds are two events. -/
theorem ids_differ {payload : Payload} {left right : Event} (leftSigned : Arrives "peer" payload left)
    (rightSigned : Arrives "peer" payload right) (kinds : left.kind ≠ right.kind) :
    left.eventId ≠ right.eventId := by
  intro same
  obtain ⟨envelope, _⟩ := verified_sameEnvelope plainPlatform_collisionFree leftSigned.verified
    rightSigned.verified same
  exact kinds envelope.kind

theorem eventId_stored {payload : Payload} {event : Event}
    (arrives : Arrives "peer" payload event) : storableText event.eventId = true := by
  have checked := (Event.verify_iff _ _).mp arrives.verified
  rw [← checked.eventId]
  exact storableText_hash plainPlatform_storableDigests checked.selfHash

/-- The resolution for one head under one receipt. -/
def resolution (chosenHead receiptEventId : String) : Resolution where
  scan := ⟨fun rows => rows, fun _ => List.Perm.refl _⟩
  keys := plainKeys ["node"]
  trust := plainTrust ["node", "peer"]
  originNode := "peer"
  originSeq := 1
  chosenHead := chosenHead
  receiptEventId := receiptEventId
  reason := ""

def receipt (chosenHead : String) : AuthorityReceipt :=
  SoleAuthority.receipt forkResolutionKey (SoleAuthority.forkOperation "peer" 1 chosenHead) none

/-- The store holds the head at the fork point, and two receipts for it. -/
structure Disputed (store : Store) (head first second : String) : Prop where
  held : ∃ row, store.log.rowAt "peer" 1 = some row ∧ row.eventId = head
  current : currentPolicyDigest store.security = .ok none
  proves : loadProofStore plainPlatform store.log = .ok
    (AuthorityProofStore.empty.addAll [SoleAuthority.founding forkResolutionKey])
  loadsFirst : loadReceipt store.log first = .ok (some (receipt head))
  loadsSecond : loadReceipt store.log second = .ok (some (receipt head))

theorem Disputed.keep {store next : Store} {head first second : String}
    (disputed : Disputed store head first second) (same : SameButEvidence store next) :
    Disputed next head first second where
  held := by rw [same.log]; exact disputed.held
  current := by
    have current := disputed.current
    unfold currentPolicyDigest at current ⊢
    rw [same.lineage]
    exact current
  proves := by rw [same.log]; exact disputed.proves
  loadsFirst := by rw [same.log]; exact disputed.loadsFirst
  loadsSecond := by rw [same.log]; exact disputed.loadsSecond

theorem entitled {store : Store} {head eventId : String}
    (current : currentPolicyDigest store.security = .ok none)
    (proves : loadProofStore plainPlatform store.log = .ok
      (AuthorityProofStore.empty.addAll [SoleAuthority.founding forkResolutionKey]))
    (loads : loadReceipt store.log eventId = .ok (some (receipt head))) :
    Entitled plainPlatform store (resolution head eventId) (receipt head) where
  loads := loads
  key := rfl
  current := current
  binds := rfl
  valid := ⟨_, proves, SoleAuthority.receipt_valid SoleAuthority.plain_verifies
    (by decide : trustedSigners (some (plainTrust ["node", "peer"])) _ = _)⟩

/-- The founding configuration and two receipts, and then the event that they keep. -/
theorem disputed_start {event : Event} (arrives : Arrives "peer" (.claimRecorded plainClaim) event)
    (kind : event.kind = .claimRecorded) (seq : event.originSeq = 1)
    (prev : event.prevHash = none) :
    ∃ steps store first second,
      Run (Performed plainPlatform fun _ => none) {} steps store ∧
      Disputed store event.eventId first second ∧ first ≠ second ∧ storableText first = true ∧
      store.security.forkEvidence = ∅ := by
  have stored : storableText forkResolutionKey = true := by decide
  have operation : storableText (SoleAuthority.forkOperation "peer" 1 event.eventId) = true :=
    storableText_plainDigest _
  have policy : ∀ text, (none : Option String) = some text → storableText text = true := by
    intro text set
    cases set
  have apart : "peer" ≠ "node" := by decide
  obtain ⟨start, log, began, founded, quiet⟩ := SoleAuthority.founded_start stored
  obtain ⟨emitFirst, logFirst, received, founded, _, first, firstText, _, heldFirst, quietFirst⟩ :=
    SoleAuthority.receipt_emitted founded (by decide) stored operation policy
  obtain ⟨emitSecond, logSecond, again, founded, kept, second, _, fresh, heldSecond,
    quietSecond⟩ := SoleAuthority.receipt_emitted founded (by decide) stored operation policy
  have different : first ≠ second := by
    rintro rfl
    rw [holds_of_loadReceipt heldFirst] at fresh
    cases fresh
  -- the node has emitted nothing yet
  have mark : logSecond.headMark event.originNode = (0, none) := by
    rw [arrives.originNode, quietSecond "peer" apart, quietFirst "peer" apart, quiet "peer" apart]
  obtain ⟨store, middle, called, inserted, written, _, security, _⟩ :=
    arrive_whole (show ({ log := logSecond } : Store).log.Ready plainPlatform _ from founded.ready)
      rfl arrives none 0 (by rw [mark, seq]; rfl) (by rw [mark, prev]) rfl rfl plainClaim_writable
      fun _ _ _ _ => reduce_claim _ (by rw [arrives.hlc]; rfl) arrives.carried
  have later : logSecond.Keeps store.log := inserted.keeps.trans (insertPayload_keeps written)
  have rows : store.log.events.rows = logSecond.events.rows ++ [storedRow event 0 true] := by
    rw [insertPayload_events written]
    exact inserted.rows
  refine ⟨_, store, first, second,
    .cons (show Performed plainPlatform (fun _ => none) _ (.call start) _ from began)
      (.cons (show Performed plainPlatform (fun _ => none) _ (.call emitFirst) _ from received)
        (.cons (show Performed plainPlatform (fun _ => none) _ (.call emitSecond) _ from again)
          (.cons (show Performed plainPlatform (fun _ => none) _ (.call _) _ from called)
            (.nil _)))), ?_, different, firstText, by rw [security]⟩
  constructor
  · refine ⟨storedRow event 0 true, ?_, rfl⟩
    have vacant : logSecond.events.rows.find? (atPosition "peer" 1) = none := by
      refine List.find?_eq_none.mpr fun row held => ?_
      have position := inserted.position row held
      rw [arrives.originNode, seq] at position
      simpa [atPosition] using position
    rw [rowAt_rows rows, List.find?_append, vacant]
    simp [atPosition, storedRow, arrives.originNode, seq]
  · rw [security]
    rfl
  · refine loadProofStore_keeps later ?_ founded.proves
    rw [rows, List.filter_append]
    simp [storedRow, kind]
  · exact loadReceipt_keeps later (loadReceipt_keeps kept heldFirst)
  · exact loadReceipt_keeps later heldSecond

/-- A row as a resolution leaves it. -/
def thaw (chosenHead receiptEventId : String) (row : ForkEvidence) : ForkEvidence :=
  { row with
    frozen := false
    resolvedBy := some receiptEventId
    chosenHead := some chosenHead
    reason := some "" }

/-- The one frozen row is released. -/
theorem released_once {store : Store} {head eventId : String} {row : ForkEvidence}
    (only : ∀ evidence, evidence ∈ store.security.forkEvidence ↔ evidence = row)
    (frozen : row.frozen = true) (concerned : (resolution head eventId).concerns row = true)
    (named : row.heldEventId = head)
    (entitled : Entitled plainPlatform store (resolution head eventId) (receipt head))
    (texts : storableTexts [eventId, head] = true) :
    ∃ next, (resolveFork plainPlatform store (resolution head eventId)).2 = .ok next ∧
      SameButEvidence store next ∧
      ∀ evidence, evidence ∈ next.security.forkEvidence ↔ evidence = thaw head eventId row := by
  have judged : Judged plainPlatform store (resolution head eventId) :=
    ⟨(by decide : storableText "peer" = true),
      List.ne_nil_of_mem (mem_rows.mpr ⟨(only row).mpr rfl, concerned⟩), _, entitled.authorized⟩
  have passes : ∀ evidence ∈ (resolution head eventId).rows store,
      (resolution head eventId).refuses evidence = false := by
    intro evidence listed
    rw [(only evidence).mp (mem_rows.mp listed).1]
    simp [Resolution.refuses, frozen, named, resolution]
  have reasoned : storableTexts [eventId, head, ""] = true := by
    simp only [storableTexts, List.all_cons, List.all_nil, Bool.and_eq_true] at texts ⊢
    exact ⟨texts.1, texts.2.1, by decide, trivial⟩
  obtain ⟨next, released, done⟩ := resolveFork_releases judged passes reasoned
  refine ⟨next, done, ?_⟩
  simp only [releaseFork, bind_ok, pure_ok] at released
  obtain ⟨_, _, rfl⟩ := released
  refine ⟨⟨rfl, rfl⟩, fun evidence => ?_⟩
  rw [Table.mem_update]
  constructor
  · rintro (⟨old, held, _, rfl⟩ | ⟨held, unmet⟩)
    · rw [(only old).mp held]
      rfl
    · rw [(only evidence).mp held, concerned, frozen] at unmet
      cases unmet
  · intro same
    exact .inl ⟨row, (only row).mpr rfl, by rw [concerned, frozen]; rfl, same⟩

/-- A store in which the first receipt has released the position from one rival. -/
structure Resolved (store : Store) (head first second : String) (rivalRow : ForkEvidence) :
    Prop where
  reached : ∃ steps, Run (Performed plainPlatform fun _ => none) {} steps store
  disputed : Disputed store head first second
  differ : first ≠ second
  concerned : rivalRow.originNode = "peer" ∧ rivalRow.originSeq = 1
  settled : ∀ evidence, evidence ∈ store.security.forkEvidence ↔
    evidence = thaw head first rivalRow

/-- A rival freezes the origin, and the first receipt releases it. -/
theorem resolved_once {head rival : Event}
    (headSigned : Arrives "peer" (.claimRecorded plainClaim) head)
    (headKind : head.kind = .claimRecorded) (headSeq : head.originSeq = 1)
    (headPrev : head.prevHash = none)
    (rivalSigned : Arrives "peer" (.claimRecorded plainClaim) rival)
    (rivalSeq : rival.originSeq = 1) (differs : head.eventId ≠ rival.eventId) :
    ∃ store first second rivalRow, Resolved store head.eventId first second rivalRow ∧
      rivalRow.rivalHash = rival.selfHash := by
  have peer : storableText "peer" = true := by decide
  obtain ⟨steps, store, first, second, run, disputed, different, firstText, unforked⟩ :=
    disputed_start headSigned headKind headSeq headPrev
  obtain ⟨row, found, headId⟩ := disputed.held
  obtain ⟨frozen, delivered, kept, recorded⟩ : ∃ next, Called plainPlatform (fun _ => none) store
      (.deliver (plainReceiver "peer" none 0) none [rival]) next ∧ _ :=
    rival_delivered (by rw [unforked]; intro row held; cases held)
      (by rw [rivalSigned.originNode, rivalSeq]; exact found)
      (by rw [rivalSigned.originNode]; exact peer) (by rw [headId]; exact differs)
      (first_rivalKey rivalSigned) (by simp [storableTexts, eventId_stored rivalSigned, peer])
  let rivalRow := forkEvidence (plainReceiver "peer" none 0).trust row rival "peer"
  have only : ∀ evidence, evidence ∈ frozen.security.forkEvidence ↔ evidence = rivalRow := by
    intro evidence
    rw [recorded, Table.mem_insertNew, unforked]
    constructor
    · rintro (held | ⟨same, _⟩)
      · cases held
      · exact same
    · exact fun same => .inr ⟨same, rfl⟩
  have disputedFrozen := disputed.keep kept
  have concerned : rivalRow.originNode = "peer" ∧ rivalRow.originSeq = 1 :=
    ⟨rivalSigned.originNode, rivalSeq⟩
  obtain ⟨thawed, resolved, keptAgain, settled⟩ := released_once only rfl
    (decide_eq_true concerned) headId
    (entitled disputedFrozen.current disputedFrozen.proves disputedFrozen.loadsFirst)
    (by simp [storableTexts, firstText, eventId_stored headSigned])
  exact ⟨thawed, first, second, rivalRow, {
    reached := ⟨_, run.append
      (.cons (show Performed plainPlatform (fun _ => none) _ (.call _) _ from delivered)
        (.cons (show Performed plainPlatform (fun _ => none) _ (.resolve _) _ from resolved)
          (.nil _)))⟩
    disputed := disputedFrozen.keep keptAgain
    differ := different
    concerned := concerned
    settled := settled }, rfl⟩

/-- A store in which the position is frozen again after another receipt has released it. -/
theorem frozen_again : ∃ steps store resolution receipt,
    Run (Performed plainPlatform fun _ => none) {} steps store ∧
    Entitled plainPlatform store resolution receipt ∧ Stuck store resolution ∧
    ∃ evidence ∈ store.security.forkEvidence, resolution.concerns evidence = true ∧
      evidence.frozen = false ∧ evidence.resolvedBy ≠ some resolution.receiptEventId := by
  have peer : storableText "peer" = true := by decide
  have named : "peer" ≠ "" := by decide
  obtain ⟨head, headSigned, headKind, headSeq, headPrev, _⟩ :=
    plain_signed named peer .claimRecorded (.claimRecorded plainClaim)
  obtain ⟨rival, rivalSigned, rivalKind, rivalSeq, _⟩ :=
    plain_signed named peer .workRetired (.claimRecorded plainClaim)
  obtain ⟨other, otherSigned, otherKind, otherSeq, _⟩ :=
    plain_signed named peer .linkAsserted (.claimRecorded plainClaim)
  have rivalDiffers : head.eventId ≠ rival.eventId :=
    ids_differ headSigned rivalSigned (by rw [headKind, rivalKind]; decide)
  have otherDiffers : head.eventId ≠ other.eventId :=
    ids_differ headSigned otherSigned (by rw [headKind, otherKind]; decide)
  have rivalsDiffer : rival.eventId ≠ other.eventId :=
    ids_differ rivalSigned otherSigned (by rw [rivalKind, otherKind]; decide)
  obtain ⟨thawed, first, second, rivalRow, resolved, rivalHash⟩ :=
    resolved_once headSigned headKind headSeq headPrev rivalSigned rivalSeq rivalDiffers
  obtain ⟨steps, run⟩ := resolved.reached
  obtain ⟨row, found, headId⟩ := resolved.disputed.held
  -- the second rival, under the next key of the node
  let otherEvent : Event := { other with signingKeyRef := some "next" }
  have otherNode : otherEvent.originNode = "peer" := otherSigned.originNode
  have otherAt : otherEvent.originSeq = 1 := otherSeq
  obtain ⟨final, again, kept, recorded⟩ : ∃ next,
      Called plainPlatform (fun _ => none) thawed (.deliver rekeyed none [otherEvent]) next ∧ _ :=
    rival_delivered
      (by
        intro evidence held flagged
        rw [(resolved.settled evidence).mp held] at flagged
        cases flagged)
      (by rw [otherNode, otherAt]; exact found) (by rw [otherNode]; exact peer)
      (by rw [headId]; exact otherDiffers) (second_rivalKey otherSigned)
      (by
        have text : storableText other.eventId = true := eventId_stored otherSigned
        have next : storableText "next" = true := by decide
        simp [storableTexts, otherEvent, text, next])
  have disputed := resolved.disputed.keep kept
  refine ⟨_, final, resolution head.eventId second, receipt head.eventId,
    run.append (.cons (show Performed plainPlatform (fun _ => none) _ (.call _) _ from again)
      (.nil _)),
    entitled disputed.current disputed.proves disputed.loadsSecond, ⟨?_, disputed.held⟩,
    thaw head.eventId first rivalRow, ?_, decide_eq_true resolved.concerned, rfl, ?_⟩
  · refine ⟨forkEvidence rekeyed.trust row otherEvent "next", ?_,
      decide_eq_true ⟨otherNode, otherAt⟩, rfl⟩
    rw [recorded, Table.mem_insertNew]
    refine .inr ⟨rfl, Table.holds_eq_false.mpr fun evidence held same => ?_⟩
    rw [(resolved.settled evidence).mp held] at same
    have hashes : rival.selfHash = other.selfHash := by
      simp only [Prod.mk.injEq] at same
      exact rivalHash.symm.trans same.2.2
    have rivalChecked := (Event.verify_iff _ _).mp rivalSigned.verified
    have otherChecked := (Event.verify_iff _ _).mp otherSigned.verified
    exact rivalsDiffer (by rw [← rivalChecked.eventId, ← otherChecked.eventId, hashes])
  · rw [recorded, Table.mem_insertNew]
    exact .inl ((resolved.settled _).mpr rfl)
  · intro same
    exact resolved.differ (Option.some.inj same)

/-- The receipt is valid and names the held head, and the position stays frozen. -/
theorem not_released : ∃ steps store resolution receipt,
    Run (Performed plainPlatform fun _ => none) {} steps store ∧
    Entitled plainPlatform store resolution receipt ∧ Stuck store resolution ∧
    ¬ Recovers plainPlatform store resolution := by
  obtain ⟨steps, store, resolution, receipt, run, entitled, stuck, evidence, held, concerned,
    thawed, other⟩ := frozen_again
  exact ⟨steps, store, resolution, receipt, run, entitled, stuck, fun recovers =>
    other (recovers.same evidence held concerned thawed)⟩

/-- The condition decides the outcome in that store. -/
theorem released_iff_unconsumed : ∃ steps store resolution,
    Run (Performed plainPlatform fun _ => none) {} steps store ∧ Stuck store resolution ∧
    (Recovers plainPlatform store resolution ↔ Unconsumed store resolution) := by
  obtain ⟨steps, store, resolution, receipt, run, entitled, stuck, _⟩ := frozen_again
  exact ⟨steps, store, resolution, run, stuck, recovers_iff run entitled stuck⟩

end SecondRival

end ForkRecovery

end Kawa
