import Kawa.AuthorityGate
import Kawa.AdmitProgress

/-!
A frozen origin admits nothing until its fork is resolved: across calls, and inside the
batch that recorded the evidence.  A release is tied to one fork point and one head.
-/

namespace Kawa

open Result

variable {platform : Platform} {receiver : Receiver} {readPayload : String → Option Payload}

/-! ## What one delivery does to the evidence -/

/-- Evidence is only added, and what is added freezes its origin at once. -/
structure Freezes (state next : AdmitState) : Prop where
  frozen : ∀ node ∈ state.frozen, node ∈ next.frozen
  kept : ∀ row ∈ state.store.security.forkEvidence, row ∈ next.store.security.forkEvidence
  fresh : ∀ row ∈ next.store.security.forkEvidence,
    row ∈ state.store.security.forkEvidence ∨ row.originNode ∈ next.frozen

theorem freezes_of_same {state next : AdmitState} (frozen : next.frozen = state.frozen)
    (evidence : next.store.security.forkEvidence = state.store.security.forkEvidence) :
    Freezes state next where
  frozen node held := by rw [frozen]; exact held
  kept row held := by rw [evidence]; exact held
  fresh row held := by rw [evidence] at held; exact .inl held

theorem authorityGenesisWatch_freezes (state : AdmitState) (event : Event) (payload : Payload) :
    let watched := authorityGenesisWatch platform receiver state event payload
    watched.frozen = state.frozen ∧
      watched.store.security.forkEvidence = state.store.security.forkEvidence := by
  have folded : ∀ (authorityKey configurationDigest : String) (others : List String)
      (state : AdmitState),
      let watched := others.foldl (fun state other =>
        let conflicts := state.store.security.authorityConflict.insertNew
          { authorityKey := authorityKey
            digestA := min other configurationDigest
            digestB := max other configurationDigest }
        let security := { state.store.security with authorityConflict := conflicts }
        AdmitState.report { state with store := { state.store with security := security } }
          event "authority_genesis_conflict") state
      watched.frozen = state.frozen ∧
        watched.store.security.forkEvidence = state.store.security.forkEvidence := by
    intro authorityKey configurationDigest others
    induction others with
    | nil =>
        intro state
        exact ⟨rfl, rfl⟩
    | cons other others ih =>
        intro state
        exact ih _
  unfold authorityGenesisWatch
  cases payload with
  | authorityConfiguration p =>
      dsimp only
      split_ifs
      · exact ⟨rfl, rfl⟩
      · exact ⟨rfl, rfl⟩
      · exact folded _ _ _ _
  | _ => exact ⟨rfl, rfl⟩

theorem insertAdmitted_evidence {state next : AdmitState} {event : Event}
    (done : insertAdmitted platform receiver state event = .ok next) :
    next.frozen = state.frozen ∧
      next.store.security.forkEvidence = state.store.security.forkEvidence := by
  simp only [insertAdmitted, bind_ok, pure_ok] at done
  obtain ⟨log, _, reduced, written, rfl⟩ := done
  unfold reduceAdmitted at written
  split at written
  · cases written
    exact ⟨rfl, rfl⟩
  · rename_i payload carried
    simp only [bind_ok, pure_ok] at written
    obtain ⟨store, wrote, rfl⟩ := written
    obtain ⟨_, _, security⟩ := materialize_ok wrote
    obtain ⟨frozen, evidence⟩ := @authorityGenesisWatch_freezes platform receiver
      { state with store := store } event payload
    refine ⟨frozen, ?_⟩
    dsimp only at evidence ⊢
    rw [evidence, security]

theorem insertAdmitted_freezes {state next : AdmitState} {event : Event}
    (done : insertAdmitted platform receiver state event = .ok next) : Freezes state next := by
  obtain ⟨frozen, evidence⟩ := insertAdmitted_evidence done
  exact freezes_of_same frozen evidence

theorem admitHeld_freezes {state next : AdmitState} {event : Event}
    (done : admitHeld platform receiver state event = .ok next) : Freezes state next := by
  simp only [admitHeld, bind_ok] at done
  obtain ⟨_, _, done⟩ := done
  split at done
  · cases done
    exact freezes_of_same rfl rfl
  · rename_i held found
    split at done
    · split at done
      · cases done
        exact freezes_of_same rfl rfl
      · split_ifs at done
        · cases done
          exact freezes_of_same rfl rfl
        · cases done
          exact freezes_of_same rfl rfl
        · cases done
          exact freezes_of_same rfl rfl
        · simp only [bind_ok, pure_ok] at done
          obtain ⟨log, _, store, wrote, rfl⟩ := done
          obtain ⟨_, _, security⟩ := materialize_ok wrote
          refine freezes_of_same rfl ?_
          dsimp only
          rw [security]
    · split at done
      · cases done
        exact freezes_of_same rfl rfl
      · simp only [bind_ok, pure_ok] at done
        obtain ⟨_, _, rfl⟩ := done
        constructor
        · intro node frozen
          exact List.mem_cons_of_mem _ frozen
        · intro row evidence
          exact Table.mem_insertNew.mpr (.inl evidence)
        · intro row evidence
          rcases Table.mem_insertNew.mp evidence with old | ⟨rfl, _⟩
          · exact .inl old
          · exact .inr List.mem_cons_self

theorem admitOne_freezes {state next : AdmitState} {event : Event}
    (done : admitOne platform receiver state event = .ok next) : Freezes state next := by
  simp only [admitOne] at done
  split_ifs at done
  · cases done
    exact freezes_of_same rfl rfl
  · cases done
    exact freezes_of_same rfl rfl
  · exact admitHeld_freezes done
  · cases done
    exact freezes_of_same rfl rfl
  · cases done
    exact freezes_of_same rfl rfl
  · split at done
    · cases done
      exact freezes_of_same rfl rfl
    · unfold admitNext at done
      split_ifs at done
      · have freezes := insertAdmitted_freezes done
        exact ⟨freezes.frozen, freezes.kept, freezes.fresh⟩
      · exact insertAdmitted_freezes done

/-! ## A frozen origin is left alone -/

/-- The rows of one origin are the same in both logs. -/
def SameOriginRows (node : String) (before after : Log) : Prop :=
  ∀ row : EventRow, row.originNode = node → (row ∈ after.events ↔ row ∈ before.events)

theorem SameOriginRows.refl (node : String) (log : Log) : SameOriginRows node log log :=
  fun _ _ => Iff.rfl

theorem SameOriginRows.trans {node : String} {first second third : Log}
    (left : SameOriginRows node first second) (right : SameOriginRows node second third) :
    SameOriginRows node first third :=
  fun row named => (right row named).trans (left row named)

theorem sameOriginRows_of_events {node : String} {before after : Log}
    (same : after.events = before.events) : SameOriginRows node before after := by
  intro row _
  rw [same]

/-- A delivery of another origin, or of a frozen one, leaves the rows of `node` alone. -/
theorem admitOne_sameRows {state next : AdmitState} {event : Event} {node : String}
    (frozen : node ∈ state.frozen)
    (done : admitOne platform receiver state event = .ok next) :
    SameOriginRows node state.store.log next.store.log := by
  by_cases named : event.originNode = node
  · subst named
    simp only [admitOne, frozen, ↓reduceIte, Except.ok.injEq] at done
    subst done
    exact .refl _ _
  · cases admitOne_ok done with
    | kept log _ _ _ => rw [log]; exact .refl _ _
    | upgraded held upgrade _ _ =>
        obtain ⟨payload, middle, _, row, written, _⟩ := upgrade.written
        have other : held.originNode ≠ node := by
          intro same
          have found := List.find?_some upgrade.found
          simp only [decide_eq_true_eq] at found
          exact named (found.1.symm.trans same)
        refine SameOriginRows.trans ?_ (sameOriginRows_of_events (insertPayload_events written))
        intro now origin
        rw [upgradeRow_mem row]
        constructor
        · rintro (⟨old, inLog, same, rfl⟩ | ⟨inLog, _⟩)
          · obtain rfl := Table.eq_of_key inLog (rowAt_mem upgrade.found) same
            exact absurd origin other
          · exact inLog
        · intro inLog
          refine .inr ⟨inLog, fun same => other ?_⟩
          rw [← Table.eq_of_key inLog (rowAt_mem upgrade.found) same]
          exact origin
    | inserted stored passed form write _ _ =>
        obtain ⟨middle, row, inserted, same⟩ := write.log
        refine SameOriginRows.trans ?_ (sameOriginRows_of_events same)
        intro now origin
        rw [inserted.mem_iff]
        constructor
        · rintro (old | rfl)
          · exact old
          · rw [inserted.links.1, form.same.1] at origin
            exact absurd origin named
        · exact .inl

/-- Evidence that is frozen names an origin that the pass holds frozen. -/
def EvidenceFrozen (state : AdmitState) : Prop :=
  ∀ row ∈ state.store.security.forkEvidence, row.frozen = true → row.originNode ∈ state.frozen

theorem evidenceFrozen_start (store : Store) (clock : Option HLC) :
    EvidenceFrozen (AdmitState.start store clock) := by
  intro row held frozen
  exact List.mem_map_of_mem (List.mem_filter.mpr ⟨held, frozen⟩)

theorem admitOne_evidenceFrozen {state next : AdmitState} {event : Event}
    (holds : EvidenceFrozen state) (done : admitOne platform receiver state event = .ok next) :
    EvidenceFrozen next := by
  have freezes := admitOne_freezes done
  intro row held frozen
  rcases freezes.fresh row held with old | new
  · exact freezes.frozen _ (holds row old frozen)
  · exact new

theorem foldlM_evidenceFrozen {state final : AdmitState} {batch : List Event}
    (holds : EvidenceFrozen state)
    (done : batch.foldlM (admitOne platform receiver) state = .ok final) : EvidenceFrozen final :=
  foldlM_invariant (fun _ _ _ _ held one => admitOne_evidenceFrozen held one) holds done

/-- The evidence is held, its origin is frozen, and that origin's rows are as they were. -/
structure StaysFrozen (evidence : ForkEvidence) (before : Log) (now : AdmitState) : Prop where
  frozen : evidence.originNode ∈ now.frozen
  held : evidence ∈ now.store.security.forkEvidence
  rows : SameOriginRows evidence.originNode before now.store.log

theorem admitOne_staysFrozen {evidence : ForkEvidence} {before : Log} {state next : AdmitState}
    {event : Event} (stays : StaysFrozen evidence before state)
    (done : admitOne platform receiver state event = .ok next) :
    StaysFrozen evidence before next := by
  have freezes := admitOne_freezes done
  constructor
  · exact freezes.frozen _ stays.frozen
  · exact freezes.kept _ stays.held
  · exact stays.rows.trans (admitOne_sameRows stays.frozen done)

theorem foldlM_staysFrozen {evidence : ForkEvidence} {before : Log} {state final : AdmitState}
    {batch : List Event} (stays : StaysFrozen evidence before state)
    (done : batch.foldlM (admitOne platform receiver) state = .ok final) :
    StaysFrozen evidence before final :=
  foldlM_invariant (fun _ _ _ _ holds one => admitOne_staysFrozen holds one) stays done

theorem admitBatch_staysFrozen {store : Store} {clock : Option HLC} {batch : List Event}
    {final : AdmitState} {evidence : ForkEvidence}
    (held : evidence ∈ store.security.forkEvidence) (frozen : evidence.frozen = true)
    (admitted : admitBatch platform receiver store clock batch = .ok final) :
    StaysFrozen evidence store.log final := by
  refine foldlM_staysFrozen ⟨?_, held, .refl _ _⟩ admitted
  exact evidenceFrozen_start store clock evidence held frozen

/-! ## Operations of the security plane -/

inductive Operation
  | call (call : Call)
  | resolve (resolution : Resolution)

/-- An operation that commits takes one store to the next. -/
def Operated (platform : Platform) (readPayload : String → Option Payload) (store : Store)
    (operation : Operation) (next : Store) : Prop :=
  match operation with
  | .call call => call.emits = none ∧ Called platform readPayload store call next
  | .resolve resolution => (resolveFork platform store resolution).2 = .ok next

/-- A release under a receipt that is valid now and binds this fork point and this head. -/
structure Releases (platform : Platform) (store : Store) (resolution : Resolution)
    (evidence : ForkEvidence) : Prop where
  originNode : resolution.originNode = evidence.originNode
  originSeq : resolution.originSeq = evidence.originSeq
  authorized : ∃ receipt proofStore policy,
    loadReceipt store.log resolution.receiptEventId = .ok (some receipt) ∧
      receipt.authorityKey = forkResolutionKey ∧
      loadProofStore platform store.log = .ok proofStore ∧
      verifyReceipt platform resolution.keys proofStore receipt (some resolution.trust) = .valid ∧
      receipt.operationDigest = forkResolutionOperationDigest platform evidence.originNode
        evidence.originSeq resolution.chosenHead receipt.configurationDigest policy ∧
      ∀ node seq head cfg policy, receipt.operationDigest =
          forkResolutionOperationDigest platform node seq head cfg policy →
        node = evidence.originNode ∧ seq = evidence.originSeq ∧ head = resolution.chosenHead

/-- The operation digest names one origin, one position and one head. -/
theorem forkResolutionOperationDigest_injective (collisionFree : CollisionFree platform)
    {leftNode rightNode leftHead rightHead leftCfg rightCfg : String} {leftSeq rightSeq : Int}
    {leftPolicy rightPolicy : Option String}
    (same : forkResolutionOperationDigest platform leftNode leftSeq leftHead leftCfg leftPolicy =
      forkResolutionOperationDigest platform rightNode rightSeq rightHead rightCfg rightPolicy) :
    leftNode = rightNode ∧ leftSeq = rightSeq ∧ leftHead = rightHead := by
  have keyed : ∀ node seq head cfg policy, Json.WellKeyed (.obj [("op", .str "fork.resolve"),
      ("origin_node", .str node), ("origin_seq", .int seq), ("chosen_head", .str head),
      ("configuration_digest", .str cfg), ("policy_digest", optionalText policy)]) := by
    intro node seq head cfg policy
    exact ⟨by simp, trivial, trivial, trivial, trivial, trivial, optionalText_wellKeyed _, trivial⟩
  have members := Json.members_eq_of_sortKeys (digest_injective collisionFree (keyed _ _ _ _ _)
    (keyed _ _ _ _ _) same) rfl (by simp)
  simp only [Json.sortMembers, Json.sortKeys, List.cons.injEq, Prod.mk.injEq, true_and,
    Json.str.injEq, Json.int.injEq] at members
  exact ⟨members.1, members.2.1, members.2.2.1⟩

theorem exercise_ok {keys : PublicKeyRegistry} {trust : TrustRegistry} {store : Store}
    {receipt exercised : AuthorityReceipt} {authorityKey operationDigest : String}
    (done : exercise platform keys trust store receipt authorityKey operationDigest =
      .ok exercised) :
    receipt.authorityKey = authorityKey ∧ receipt.operationDigest = operationDigest ∧
      ∃ proofStore, loadProofStore platform store.log = .ok proofStore ∧
        verifyReceipt platform keys proofStore receipt (some trust) = .valid := by
  by_cases key : receipt.authorityKey = authorityKey
  · by_cases operation : receipt.operationDigest = operationDigest
    · refine ⟨key, operation, ?_⟩
      unfold exercise at done
      cases current : currentPolicyDigest store.security with
      | error e =>
          simp [key, current, bind, Except.bind] at done
      | ok policy =>
          by_cases fenced : receipt.policyDigest = policy
          · cases proves : loadProofStore platform store.log with
            | error e =>
                simp [key, operation, current, fenced, proves, bind, Except.bind, liftStore,
                  Except.mapError] at done
            | ok proofStore =>
                refine ⟨proofStore, rfl, ?_⟩
                by_contra refused
                simp [key, operation, current, fenced, proves, bind, Except.bind, liftStore,
                  Except.mapError, refused, throw, throwThe, MonadExceptOf.throw] at done
          · simp [key, current, fenced, bind, Except.bind, throw, throwThe,
              MonadExceptOf.throw] at done
    · exfalso
      unfold exercise at done
      cases current : currentPolicyDigest store.security with
      | error e =>
          simp [key, current, bind, Except.bind] at done
      | ok policy =>
          by_cases fenced : receipt.policyDigest = policy <;>
            simp [key, operation, current, fenced, bind, Except.bind, throw, throwThe,
              MonadExceptOf.throw] at done
  · unfold exercise at done
    simp [key, bind, Except.bind, throw, throwThe, MonadExceptOf.throw] at done

theorem authorizeFork_ok (collisionFree : CollisionFree platform) {store : Store} {resolution : Resolution} {exercised : AuthorityReceipt}
    (done : authorizeFork platform store resolution = .ok exercised) {evidence : ForkEvidence}
    (concerned : resolution.concerns evidence = true) :
    Releases platform store resolution evidence := by
  obtain ⟨node, seq⟩ := of_decide_eq_true concerned
  refine ⟨node.symm, seq.symm, ?_⟩
  simp only [authorizeFork, bind_ok] at done
  obtain ⟨loaded, read, done⟩ := done
  cases loaded with
  | none => cases done
  | some receipt =>
      simp only [bind_ok] at done
      obtain ⟨policy, _, done⟩ := done
      obtain ⟨key, operation, proofStore, proves, valid⟩ := exercise_ok done
      have binds : receipt.operationDigest = forkResolutionOperationDigest platform
          evidence.originNode evidence.originSeq resolution.chosenHead receipt.configurationDigest
          policy := by rw [operation, node, seq]
      refine ⟨receipt, proofStore, policy, ?_, key, proves, valid, binds, ?_⟩
      swap
      · intro otherNode otherSeq otherHead cfg otherPolicy same
        exact forkResolutionOperationDigest_injective collisionFree (same.symm.trans binds)
      unfold liftStore at read
      cases held : loadReceipt store.log resolution.receiptEventId with
      | error e => rw [held] at read; cases read
      | ok value => rw [held] at read; cases read; rfl

theorem resolveFork_ok {store next : Store} {resolution : Resolution}
    (done : (resolveFork platform store resolution).2 = .ok next) :
    (∃ receipt, authorizeFork platform store resolution = .ok receipt) ∧
      next.log = store.log ∧ ∀ row ∈ store.security.forkEvidence,
        resolution.concerns row = false → row ∈ next.security.forkEvidence := by
  unfold resolveFork at done
  dsimp only at done
  split_ifs at done
  split at done
  · cases done
  · rename_i receipt authorized
    refine ⟨⟨receipt, authorized⟩, ?_⟩
    split at done
    · cases done
    · dsimp only at done
      unfold liftStore at done
      cases released : releaseFork store resolution with
      | error e => rw [released] at done; cases done
      | ok value =>
          rw [released] at done
          cases done
          simp only [releaseFork, bind_ok, pure_ok] at released
          obtain ⟨_, _, rfl⟩ := released
          refine ⟨rfl, fun row held other => ?_⟩
          simp only [Table.mem_update]
          exact .inr ⟨held, by simp [other]⟩

theorem call_staysFrozen {store next : Store} {call : Call} {evidence : ForkEvidence}
    (held : evidence ∈ store.security.forkEvidence) (frozen : evidence.frozen = true)
    (delivery : call.emits = none) (called : Called platform readPayload store call next) :
    evidence ∈ next.security.forkEvidence ∧
      SameOriginRows evidence.originNode store.log next.log := by
  unfold Called at called
  cases call with
  | emit emitter live now recordedAt request => cases delivery
  | emitReduce scan emitter live now recordedAt request => cases delivery
  | deliver receiver clock batch =>
      obtain ⟨final, admitted, rfl⟩ := toOption_map_eq_some.mp called
      have stays := admitBatch_staysFrozen held frozen admitted
      exact ⟨stays.held, stays.rows⟩
  | pull receiver clock source sourceTrust pullerNode =>
      obtain ⟨final, pulled, rfl⟩ := toOption_map_eq_some.mp called
      simp only [pull, bind_ok] at pulled
      obtain ⟨batch, _, admitted⟩ := pulled
      have stays := admitBatch_staysFrozen held frozen admitted
      exact ⟨stays.held, stays.rows⟩
  | archive receiver clock doc =>
      obtain ⟨final, imported, rfl⟩ := toOption_map_eq_some.mp called
      simp only [archiveImport, bind_ok, pure_ok] at imported
      obtain ⟨batch, _, done, mapped, rfl⟩ := imported
      cases admitted : admitBatch platform { receiver with requestedScopes := none } store clock
          batch with
      | error e => rw [admitted] at mapped; cases mapped
      | ok value =>
          rw [admitted] at mapped
          cases mapped
          have stays := admitBatch_staysFrozen held frozen admitted
          exact ⟨stays.held, stays.rows⟩

/-- One operation leaves frozen evidence and its origin alone, or it releases it. -/
theorem operated_frozen (collisionFree : CollisionFree platform) {store next : Store} {operation : Operation} {evidence : ForkEvidence}
    (held : evidence ∈ store.security.forkEvidence) (frozen : evidence.frozen = true)
    (operated : Operated platform readPayload store operation next) :
    (evidence ∈ next.security.forkEvidence ∧
        SameOriginRows evidence.originNode store.log next.log) ∨
      ∃ resolution, operation = .resolve resolution ∧
        Releases platform store resolution evidence := by
  cases operation with
  | call call => exact .inl (call_staysFrozen held frozen operated.1 operated.2)
  | resolve resolution =>
      obtain ⟨⟨receipt, authorized⟩, log, others⟩ := resolveFork_ok operated
      by_cases concerned : resolution.concerns evidence = true
      · exact .inr ⟨resolution, rfl, authorizeFork_ok collisionFree authorized concerned⟩
      · refine .inl ⟨others evidence held (by simpa using concerned), ?_⟩
        exact sameOriginRows_of_events (by rw [log])

/-- Within a batch and over any run of deliveries and resolutions, an origin whose fork
evidence is frozen keeps its evidence and its rows until a resolution whose receipt is
valid and binds exactly its origin, its position and the chosen head. -/
theorem frozen_until_resolved (collisionFree : CollisionFree platform)
    (readPayload : String → Option Payload) :
    (∀ receiver store clock before after final,
      admitBatch platform receiver store clock (before ++ after) = .ok final →
        ∃ middle, admitBatch platform receiver store clock before = .ok middle ∧
          ∀ evidence ∈ middle.store.security.forkEvidence, evidence.frozen = true →
            evidence ∈ final.store.security.forkEvidence ∧
              SameOriginRows evidence.originNode middle.store.log final.store.log) ∧
      ∀ start operations final, Run (Operated platform readPayload) start operations final →
        ∀ evidence ∈ start.security.forkEvidence, evidence.frozen = true →
          (evidence ∈ final.security.forkEvidence ∧
              SameOriginRows evidence.originNode start.log final.log) ∨
            ∃ before resolution after store next,
              operations = before ++ .resolve resolution :: after ∧
              Run (Operated platform readPayload) start before store ∧
              Operated platform readPayload store (.resolve resolution) next ∧
              Releases platform store resolution evidence := by
  constructor
  · intro receiver store clock before after final admitted
    unfold admitBatch at admitted
    rw [List.foldlM_append, bind_ok] at admitted
    obtain ⟨middle, first, rest⟩ := admitted
    refine ⟨middle, first, fun evidence held frozen => ?_⟩
    have consistent := foldlM_evidenceFrozen (evidenceFrozen_start store clock) first
    have stays := foldlM_staysFrozen ⟨consistent evidence held frozen, held, .refl _ _⟩ rest
    exact ⟨stays.held, stays.rows⟩
  · intro start operations final run
    induction run with
    | nil state =>
        intro evidence held _
        exact .inl ⟨held, .refl _ _⟩
    | cons first rest ih =>
        intro evidence held frozen
        rcases operated_frozen collisionFree held frozen first with ⟨kept, rows⟩ | ⟨resolution, rfl, releases⟩
        · rcases ih evidence kept frozen with ⟨still, later⟩ |
            ⟨before, resolution, after, store, next, rfl, reached, operated, releases⟩
          · exact .inl ⟨still, rows.trans later⟩
          · exact .inr ⟨_ :: before, resolution, after, store, next, rfl, .cons first reached,
              operated, releases⟩
        · exact .inr ⟨[], resolution, _, _, _, rfl, .nil _, first, releases⟩

namespace FrozenNode

def evidence : ForkEvidence where
  originNode := "node"
  originSeq := 1
  heldEventId := "held"
  heldHash := "held"
  rivalEventId := "rival"
  rivalHash := "rival"
  heldKeyRef := some "node"
  rivalKeyRef := some "node"
  heldIncarnation := none
  rivalIncarnation := none
  classification := .equivocation
  frozen := true
  resolvedBy := none
  chosenHead := none
  reason := none

def store : Store where
  security := { forkEvidence := ⟨[evidence], List.nodup_singleton _⟩ }

/-- A signed event of the frozen origin is delivered, and nothing of the origin is stored. -/
theorem nothing_stored : ∃ event next, Arrives "node" (.claimRecorded plainClaim) event ∧
    Operated plainPlatform (fun _ => none) store
      (.call (.deliver (plainReceiver "node" none 0) none [event])) next ∧
    evidence ∈ next.security.forkEvidence ∧ SameOriginRows "node" store.log next.log := by
  obtain ⟨event, arrives, _⟩ := plain_signed (by decide : "node" ≠ "") (by decide)
    .claimRecorded (.claimRecorded plainClaim)
  have held : evidence ∈ store.security.forkEvidence := List.mem_singleton_self evidence
  have frozen : event.originNode ∈ (AdmitState.start store none).frozen := by
    rw [arrives.originNode]
    exact List.mem_singleton_self "node"
  have refused : admitOne plainPlatform (plainReceiver "node" none 0)
      (AdmitState.start store none) event =
        .ok ((AdmitState.start store none).reject event "origin_frozen") := by
    simp only [admitOne, frozen, ↓reduceIte]
  have operated : Operated plainPlatform (fun _ => none) store
      (.call (.deliver (plainReceiver "node" none 0) none [event])) _ :=
    ⟨rfl, called_admit (admitBatch_one refused)⟩
  refine ⟨event, _, arrives, operated, ?_⟩
  rcases (frozen_until_resolved plainPlatform_collisionFree (fun _ => none)).2 _ _ _
    (.cons operated (.nil _)) evidence held rfl with kept | ⟨before, _, _, _, _, same, _⟩
  · exact kept
  · rcases before with _ | ⟨_, _ | _⟩ <;> simp at same

end FrozenNode

end Kawa
