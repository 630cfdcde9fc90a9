import Kawa.AuthorityGate
import Kawa.AuthorityCurrency
import Kawa.LogSound

/-!
An authority of one member: its founding configuration and the receipts it signs, as a log
comes to hold them, and the gate that exercises them.
-/

namespace Kawa

open Result

variable {platform : Platform} {keys : PublicKeyRegistry} {trust : TrustRegistry}

/-! ## Receipts that a log holds -/

theorem loadProofStore_keeps {log next : Log} (kept : log.Keeps next)
    (same : next.events.rows.filter (fun row =>
        decide (row.kind = .authorityConfiguration ∧ row.materialized)) =
      log.events.rows.filter fun row =>
        decide (row.kind = .authorityConfiguration ∧ row.materialized))
    {proofStore : AuthorityProofStore} (held : loadProofStore platform log = .ok proofStore) :
    loadProofStore platform next = .ok proofStore := by
  simp only [loadProofStore, bind_ok, pure_ok] at held ⊢
  obtain ⟨cfgs, mapped, rfl⟩ := held
  refine ⟨cfgs, ?_, rfl⟩
  rw [same]
  exact mapM_mono (fun row _ cfg read => fetch_keeps kept.eventAuthorityConfiguration read) mapped

theorem loadReceipt_keeps {log next : Log} (kept : log.Keeps next) {eventId : String}
    {receipt : AuthorityReceipt} (held : loadReceipt log eventId = .ok (some receipt)) :
    loadReceipt next eventId = .ok (some receipt) := by
  unfold loadReceipt at held ⊢
  split at held
  · rename_i listed
    obtain ⟨row, member, named⟩ := List.any_eq_true.mp listed
    have whole : row.materialized = true := (of_decide_eq_true named).2.2
    rw [if_pos (List.any_eq_true.mpr ⟨row, kept.events row member whole, named⟩)]
    simp only [map_ok, Option.some.injEq, exists_eq_right] at held ⊢
    exact fetch_keeps kept.eventAuthorityReceipt held
  · cases held

/-- A receipt that loads is the event of a held row. -/
theorem holds_of_loadReceipt {log : Log} {eventId : String} {receipt : AuthorityReceipt}
    (held : loadReceipt log eventId = .ok (some receipt)) : log.events.holds eventId = true := by
  unfold loadReceipt at held
  split at held
  · rename_i listed
    obtain ⟨row, member, named⟩ := List.any_eq_true.mp listed
    exact Table.holds_iff.mpr ⟨row, member, (of_decide_eq_true named).1⟩
  · cases held

/-! ## The gate -/

theorem exercise_succeeds {store : Store} {receipt : AuthorityReceipt} {authorityKey operationDigest : String}
    {proofStore : AuthorityProofStore} (key : receipt.authorityKey = authorityKey)
    (current : currentPolicyDigest store.security = .ok receipt.policyDigest)
    (operation : receipt.operationDigest = operationDigest)
    (proves : loadProofStore platform store.log = .ok proofStore)
    (valid : verifyReceipt platform keys proofStore receipt (some trust) = .valid) :
    exercise platform keys trust store receipt authorityKey operationDigest = .ok receipt := by
  unfold exercise
  simp only [key, current, operation, proves, valid, liftStore, Except.mapError, bind, Except.bind,
    ne_eq, not_true_eq_false, ↓reduceIte]
  rfl

/-! ## One member -/

theorem storableText_makeProof (statement : String) (credentials : List NodeCredential) :
    storableText (makeProof statement credentials) = true :=
  storableText_ofList (Json.print_solid _)

/-- With only the founding configuration in the store, it is current. -/
theorem currentConfiguration_sole {founding : AuthorityConfiguration}
    (genesis : faciallyValidGenesis platform keys founding = true)
    (prior : founding.priorConfigurationDigest = none) :
    currentConfiguration platform keys (AuthorityProofStore.empty.addAll [founding])
      founding.authorityKey = (.valid, some founding) := by
  simp [currentConfiguration, rivalGenesis, AuthorityProofStore.genesisOf, Dict.values,
    AuthorityProofStore.addAll, AuthorityProofStore.add, AuthorityProofStore.empty, Dict.set,
    prior, genesis, walkSuccessors, rivalSuccessors, AuthorityProofStore.successorsOf]

namespace SoleAuthority

def member : NodeCredential := plainCredential "node"

def founding (authorityKey : String) : AuthorityConfiguration :=
  soleConfiguration plainPlatform authorityKey 0 none member

/-- The receipt for one operation, signed by the one member. -/
def receipt (authorityKey operationDigest : String) (policyDigest : Option String) :
    AuthorityReceipt where
  authorityKey := authorityKey
  operationDigest := operationDigest
  configurationDigest := (founding authorityKey).configurationDigest
  authorityEpoch := 0
  priorAuthorityReceiptDigest := none
  policyDigest := policyDigest
  quorumProof := makeProof operationDigest [member]

/-- The registry verifies what the member signs. -/
def Verifies (keys : PublicKeyRegistry) : Prop :=
  ∀ statement, signs plainPlatform keys statement [member.signingKeyRef] member = true

theorem plain_verifies : Verifies (plainKeys ["node"]) := by
  intro statement
  simp [signs, resolveAndVerifyProvenance, verifyProvenance, plainKeys, member, plainCredential,
    plainPlatform, Dict.get?_cons]

variable {authorityKey operationDigest : String} {policyDigest : Option String}

theorem founding_genesis (verifies : Verifies keys) (authorityKey : String) :
    faciallyValidGenesis plainPlatform keys (founding authorityKey) = true :=
  soleGenesis_facial authorityKey plainPlatform_readsDoubles verifies

theorem receipt_valid (verifies : Verifies keys)
    (active : trustedSigners (some trust) {member.signingKeyRef} = {"node"}) :
    verifyReceipt plainPlatform keys (AuthorityProofStore.empty.addAll [founding authorityKey])
      (receipt authorityKey operationDigest policyDigest) (some trust) = .valid := by
  have held : (AuthorityProofStore.empty.addAll [founding authorityKey]).get?
      (receipt authorityKey operationDigest policyDigest).configurationDigest =
        some (founding authorityKey) := by
    simp [AuthorityProofStore.addAll, AuthorityProofStore.add, receipt]
  refine verifyReceipt_current held rfl rfl
    (currentConfiguration_sole (founding_genesis verifies authorityKey) rfl) rfl
    (validSigners_sole plainPlatform_readsDoubles (verifies _)) ?_
  rw [active]
  exact le_refl 1

/-- A log whose proof store holds the founding configuration alone. -/
structure Founded (authorityKey : String) (log : Log) (n : Nat) : Prop where
  ready : log.Ready plainPlatform n
  proves : loadProofStore plainPlatform log =
    .ok (AuthorityProofStore.empty.addAll [founding authorityKey])

theorem configuration_writable {p : AuthorityConfiguration}
    (range : (bigintRange p.authorityEpoch && intRange p.quorum) = true)
    (texts : storableTexts ([p.authorityKey, p.configurationDigest] ++
      textsOf p.priorConfigurationDigest ++ textsOf p.successionProof) = true) :
    (Payload.authorityConfiguration p).Writable plainPlatform := by
  intro log eventId unused
  have fresh : log.eventAuthorityConfiguration.holds eventId = false :=
    fresh_of_notMem fun named => unused (by
      simp only [Log.payloadIds, List.mem_append]
      exact .inl (.inr named))
  simp only [insertPayload, insertAuthorityConfiguration, range, require, ↓reduceIte, bind,
    Except.bind]
  rw [insertRow_succeeds texts fresh]
  exact ⟨_, rfl⟩

theorem founding_writable (stored : storableText authorityKey = true) :
    (Payload.authorityConfiguration (founding authorityKey)).Writable plainPlatform := by
  have coordinate : storableText (founding authorityKey).configurationDigest = true :=
    storableText_plainDigest _
  have proof : textsOf (founding authorityKey).successionProof =
      [makeProof (founding authorityKey).configurationDigest [member]] := rfl
  have prior : textsOf (founding authorityKey).priorConfigurationDigest = [] := rfl
  have key : (founding authorityKey).authorityKey = authorityKey := rfl
  refine configuration_writable ?_ ?_
  · change (bigintRange 0 && intRange 1) = true
    decide
  · rw [proof, prior, key]
    simp [storableTexts, stored, coordinate, storableText_makeProof]

theorem receipt_writable (stored : storableText authorityKey = true)
    (operation : storableText operationDigest = true)
    (policy : ∀ text, policyDigest = some text → storableText text = true) :
    (Payload.authorityReceipt (receipt authorityKey operationDigest policyDigest)).Writable
      plainPlatform := by
  intro log eventId unused
  have fresh : log.eventAuthorityReceipt.holds eventId = false :=
    fresh_of_notMem fun named => unused (by
      simp only [Log.payloadIds, List.mem_append]
      exact .inr named)
  have coordinate : storableText (founding authorityKey).configurationDigest = true :=
    storableText_plainDigest _
  have texts : storableTexts ([(receipt authorityKey operationDigest policyDigest).authorityKey,
      (receipt authorityKey operationDigest policyDigest).operationDigest,
      (receipt authorityKey operationDigest policyDigest).configurationDigest,
      (receipt authorityKey operationDigest policyDigest).quorumProof] ++
      textsOf (receipt authorityKey operationDigest policyDigest).priorAuthorityReceiptDigest ++
      textsOf (receipt authorityKey operationDigest policyDigest).policyDigest) = true := by
    change storableTexts ([authorityKey, operationDigest,
      (founding authorityKey).configurationDigest, makeProof operationDigest [member]] ++
      textsOf none ++ textsOf policyDigest) = true
    cases policyDigest <;>
      simp_all [storableTexts, textsOf, storableText_makeProof]
  have range : bigintRange (receipt authorityKey operationDigest policyDigest).authorityEpoch =
      true := by
    change bigintRange 0 = true
    decide
  simp only [insertPayload, insertAuthorityReceipt, range, require, ↓reduceIte, bind, Except.bind]
  rw [insertRow_succeeds texts fresh]
  exact ⟨_, rfl⟩

/-- An emit moves the head of its own node only. -/
theorem emitted_headMark {before log middle : Log} {now recordedAt : Int} {request : EmitRequest}
    {event : Event} {row : EventRow} {node other : String} {named : node ≠ ""}
    (emitted : Emitted plainPlatform (Emitter.start (plainIdentity node named)) now recordedAt before
      request log event row middle) (apart : other ≠ node) :
    log.headMark other = before.headMark other := by
  have origin : row.originNode = node := by
    rw [emitted.inserted.links.1, emitted.minted.envelope]
    rfl
  have next := (follows_iff.mp (emitted_follows emitted)).1
  rw [headMark_congr (insertPayload_events emitted.payload),
    headMark_inserted emitted.inserted (by omega) other, if_neg]
  exact fun same => apart (same.symm.trans origin)

/-- The log after the founding configuration was emitted. -/
theorem founded_start (stored : storableText authorityKey = true) :
    ∃ call log, Called plainPlatform (fun _ => none) {} call { log := log } ∧
      Founded authorityKey log 1 ∧ ∀ other ≠ "node", log.headMark other = (0, none) := by
  obtain ⟨log, event, row, middle, done, emitted, ready⟩ := plain_emit empty_ready (by decide)
    (by decide : "node" ≠ "") (by decide) 1 0 (founding_writable stored) none (by intro scope set; cases set)
  have store : ({} : Store).log = {} := rfl
  refine ⟨_, log, called_emit (store ▸ done), ⟨ready, ?_⟩, fun other apart =>
    emitted_headMark emitted apart⟩
  have rows : log.events.rows = [row] := by
    rw [insertPayload_events emitted.payload, emitted.inserted.rows]
    rfl
  obtain ⟨_, _, shape⟩ := emitted.inserted.envelope
  have kind : row.kind = .authorityConfiguration := by
    rw [shape]
    exact emitted_kind emitted
  have whole : row.materialized = true := by rw [shape]
  have named : row.eventId = event.eventId := by rw [shape]
  have read : loadAuthorityConfiguration plainPlatform log row.eventId = .ok (founding authorityKey) := by
    have loaded := loadPayload_insertPayload plainPlatform_readsDoubles
      (by intro text set; cases set) emitted.payload
    obtain ⟨cfg, read, same⟩ := map_ok.mp loaded
    cases same
    rw [named]
    exact read
  simp [loadProofStore, rows, kind, whole, read, bind, Except.bind, pure, Except.pure]

/-- One more receipt in the log. -/
theorem receipt_emitted {before : Log} {n : Nat} (founded : Founded authorityKey before n)
    (room : n < 2 ^ 62) (stored : storableText authorityKey = true)
    (operation : storableText operationDigest = true)
    (policy : ∀ text, policyDigest = some text → storableText text = true) :
    ∃ call log, Called plainPlatform (fun _ => none) { log := before } call { log := log } ∧
      Founded authorityKey log (n + 1) ∧ before.Keeps log ∧
      ∃ eventId, storableText eventId = true ∧ before.events.holds eventId = false ∧
        loadReceipt log eventId =
          .ok (some (receipt authorityKey operationDigest policyDigest)) ∧
        ∀ other ≠ "node", log.headMark other = before.headMark other := by
  obtain ⟨log, event, row, middle, done, emitted, ready⟩ := plain_emit founded.ready room
    (by decide : "node" ≠ "") (by decide) 1 0 (receipt_writable stored operation policy) none
    (by intro scope set; cases set)
  have kept := emitted_keeps emitted
  obtain ⟨_, _, shape⟩ := emitted.inserted.envelope
  have kind : row.kind = .authorityReceipt := by
    rw [shape]
    exact emitted_kind emitted
  have whole : row.materialized = true := by rw [shape]
  have named : row.eventId = event.eventId := by rw [shape]
  have store : ({ log := before } : Store).log = before := rfl
  refine ⟨_, log, called_emit (store ▸ done), ⟨ready, ?_⟩, kept, event.eventId, ?_, ?_, ?_,
    fun other apart => emitted_headMark emitted apart⟩
  · refine loadProofStore_keeps kept ?_ founded.proves
    rw [insertPayload_events emitted.payload, emitted.inserted.rows, List.filter_append]
    simp [kind]
  · have checked := (Event.verify_iff _ _).mp emitted.minted.verified
    rw [← checked.eventId]
    exact storableText_hash plainPlatform_storableDigests checked.selfHash
  · obtain ⟨fresh, _⟩ := emitted.inserted.appended
    rw [← named]
    exact fresh
  · obtain ⟨read, loaded, same⟩ := map_ok.mp (loadPayload_insertPayload plainPlatform_readsDoubles
      (by intro text set; cases set) emitted.payload)
    cases same
    have listed : log.events.rows.any (fun row => decide (row.eventId = event.eventId ∧
        row.kind = .authorityReceipt ∧ row.materialized)) = true :=
      List.any_eq_true.mpr ⟨row, emitted_held emitted, decide_eq_true ⟨named, kind, whole⟩⟩
    unfold loadReceipt
    rw [if_pos listed]
    exact map_ok.mpr ⟨_, loaded, rfl⟩

end SoleAuthority

end Kawa
