import Kawa.BatchTotality
import Kawa.FrozenOrigin
import Kawa.SoleAuthority

/-!
The record of genesis conflicts against the geneses that are held: what each verdict adds to
both, and which runs keep them together.
-/

namespace Kawa

open Result

namespace GenesisConflict

/-! ## Held geneses and recorded conflicts -/

/-- The row of a configuration. -/
def configurationRow (eventId : String) (p : AuthorityConfiguration) :
    EventAuthorityConfigurationRow where
  eventId := eventId
  authorityKey := p.authorityKey
  configurationDigest := p.configurationDigest
  authorityEpoch := p.authorityEpoch
  members := Json.canonicalJson (textList p.members)
  quorum := p.quorum
  priorConfigurationDigest := p.priorConfigurationDigest
  successionProof := p.successionProof

/-- A configuration whose payload the log holds. -/
def Held (log : Log) (p : AuthorityConfiguration) : Prop :=
  ∃ eventId, configurationRow eventId p ∈ log.eventAuthorityConfiguration.rows

/-- What the watch records of a genesis and another digest of its key. -/
def conflictWith (p : AuthorityConfiguration) (other : String) : AuthorityConflict where
  authorityKey := p.authorityKey
  digestA := min other p.configurationDigest
  digestB := max other p.configurationDigest

section Conflicts

variable (platform : Platform) (keys : PublicKeyRegistry)

structure ValidGenesis (authorityKey : String) (p : AuthorityConfiguration) : Prop where
  key : p.authorityKey = authorityKey
  first : p.priorConfigurationDigest = none
  facial : faciallyValidGenesis platform keys p = true

/-- The digest of a facially valid genesis that is held for the key. -/
def HeldGenesis (log : Log) (authorityKey digest : String) : Prop :=
  ∃ p, Held log p ∧ ValidGenesis platform keys authorityKey p ∧ p.configurationDigest = digest

/-- Two distinct facially valid geneses of one key, in order. -/
structure Genuine (log : Log) (conflict : AuthorityConflict) : Prop where
  distinct : conflict.digestA < conflict.digestB
  left : HeldGenesis platform keys log conflict.authorityKey conflict.digestA
  right : HeldGenesis platform keys log conflict.authorityKey conflict.digestB

def ConflictsExact (store : Store) : Prop :=
  ∀ conflict, conflict ∈ store.security.authorityConflict.rows ↔
    Genuine platform keys store.log conflict

/-- A facially valid genesis is inserted beside other facially valid ones only, and none is
materialised by an upgrade beside another. -/
def Undisturbed (receiver : Receiver) (state : AdmitState) (event : Event) : Prop :=
  ∀ p, receiver.writes event (receiver.verdict platform (state.view event.originNode) event) =
      some (.authorityConfiguration p) → ValidGenesis platform receiver.keys p.authorityKey p →
    if (receiver.verdict platform (state.view event.originNode) event).inserts then
      ∀ digest ∈ rivalGeneses state.store.log p,
        HeldGenesis platform receiver.keys state.store.log p.authorityKey digest
    else HeldGenesis platform receiver.keys state.store.log p.authorityKey p.configurationDigest ∨
      ∀ digest, HeldGenesis platform receiver.keys state.store.log p.authorityKey digest →
        digest = p.configurationDigest

/-- One call of `admit_batch`. -/
structure Delivery where
  receiver : Receiver
  clock : Option HLC
  batch : List Event

/-- A delivery that commits, judged by one registry of keys. -/
def Delivers (store : Store) (delivery : Delivery) (next : Store) : Prop :=
  delivery.receiver.keys = keys ∧
    ∃ final, admitBatch platform delivery.receiver store delivery.clock delivery.batch = .ok final ∧
      final.store = next

/-- Each event of a delivery is undisturbed in the state that the events before it leave. -/
def Delivery.Undisturbed (store : Store) (delivery : Delivery) : Prop :=
  ∀ before event after state, delivery.batch = before ++ event :: after →
    before.foldlM (admitOne platform delivery.receiver) (AdmitState.start store delivery.clock) =
      .ok state →
    GenesisConflict.Undisturbed platform delivery.receiver state event

end Conflicts

section Steps

variable {platform : Platform} {keys : PublicKeyRegistry} {receiver : Receiver}

/-! ## What a verdict adds -/

theorem configurationRow_injective {leftId rightId : String} {left right : AuthorityConfiguration}
    (same : configurationRow leftId left = configurationRow rightId right) : left = right := by
  have keys := congrArg EventAuthorityConfigurationRow.authorityKey same
  have digests := congrArg EventAuthorityConfigurationRow.configurationDigest same
  have epochs := congrArg EventAuthorityConfigurationRow.authorityEpoch same
  have texts := congrArg EventAuthorityConfigurationRow.members same
  have quorums := congrArg EventAuthorityConfigurationRow.quorum same
  have priors := congrArg EventAuthorityConfigurationRow.priorConfigurationDigest same
  have proofs := congrArg EventAuthorityConfigurationRow.successionProof same
  have members : left.members = right.members := by
    have sorted := Json.canonicalJson_injective (textList_wellKeyed _) (textList_wellKeyed _) texts
    rw [textList_sortKeys, textList_sortKeys] at sorted
    exact textList_injective sorted
  cases left
  cases right
  simp only [configurationRow] at keys digests epochs members quorums priors proofs
  subst keys digests epochs members quorums priors proofs
  rfl

def Payload.configurationRows (eventId : String) : Payload → List EventAuthorityConfigurationRow
  | .authorityConfiguration p => [configurationRow eventId p]
  | _ => []

theorem insertPayload_configurations {log next : Log} {eventId : String} {payload : Payload}
    (inserted : insertPayload platform log eventId payload = .ok next) :
    next.eventAuthorityConfiguration.rows =
      log.eventAuthorityConfiguration.rows ++ Payload.configurationRows eventId payload := by
  cases payload <;>
    simp only [insertPayload, insertPlanCreated, insertPlanLifecycleChanged, insertWorkDerived,
      insertWorkRetired, insertWorkDependencyDeclared, insertResultRecorded, insertLinkAsserted,
      insertObservationRecorded, insertClaimRecorded, insertAuthorityConfiguration,
      insertAuthorityReceipt, bind_ok, pure_ok] at inserted <;>
    first
      | obtain ⟨table, inserted, rfl⟩ := inserted
      | obtain ⟨_, _, table, inserted, rfl⟩ := inserted
  case authorityConfiguration q => exact insertRow_rows inserted
  all_goals exact (List.append_nil _).symm

theorem held_written {log next : Log} {eventId : String} {payload : Payload}
    (inserted : insertPayload platform log eventId payload = .ok next)
    (p : AuthorityConfiguration) :
    Held next p ↔ Held log p ∨ payload = .authorityConfiguration p := by
  unfold Held
  rw [insertPayload_configurations inserted]
  constructor
  · rintro ⟨id, listed⟩
    rcases List.mem_append.mp listed with old | new
    · exact .inl ⟨id, old⟩
    · cases payload with
      | authorityConfiguration q =>
          have same : configurationRow id p = configurationRow eventId q := by
            simpa [Payload.configurationRows] using new
          exact .inr (by rw [configurationRow_injective same])
      | _ => cases new
  · rintro (⟨id, old⟩ | rfl)
    · exact ⟨id, List.mem_append_left _ old⟩
    · exact ⟨eventId, List.mem_append_right _ List.mem_cons_self⟩

/-- The watch records every other genesis of the key beside a facially valid one. -/
theorem watch_conflicts (state : AdmitState) (event : Event) (payload : Payload)
    (conflict : AuthorityConflict) :
    conflict ∈ (authorityGenesisWatch platform receiver state event
        payload).store.security.authorityConflict.rows ↔
      conflict ∈ state.store.security.authorityConflict.rows ∨
        ∃ p, payload = .authorityConfiguration p ∧
          ValidGenesis platform receiver.keys p.authorityKey p ∧
          ∃ other ∈ rivalGeneses state.store.log p, conflict = conflictWith p other := by
  have folded : ∀ (p : AuthorityConfiguration) (others : List String) (state : AdmitState),
      conflict ∈ (others.foldl (fun state other =>
        let conflicts := state.store.security.authorityConflict.insertNew
          { authorityKey := p.authorityKey
            digestA := min other p.configurationDigest
            digestB := max other p.configurationDigest }
        let security := { state.store.security with authorityConflict := conflicts }
        AdmitState.report { state with store := { state.store with security := security } }
          event "authority_genesis_conflict") state).store.security.authorityConflict.rows ↔
      conflict ∈ state.store.security.authorityConflict.rows ∨
        ∃ other ∈ others, conflict = conflictWith p other := by
    intro p others
    induction others with
    | nil => simp
    | cons other others ih =>
        intro state
        rw [List.foldl_cons, ih]
        have first : conflict ∈ (state.store.security.authorityConflict.insertNew
            (conflictWith p other)).rows ↔
              conflict ∈ state.store.security.authorityConflict.rows ∨
                conflict = conflictWith p other := by
          rw [Table.mem_rows, Table.mem_insertNew]
          constructor
          · rintro (old | ⟨new, _⟩)
            · exact .inl old
            · exact .inr new
          · rintro (old | new)
            · exact .inl old
            · by_cases known : state.store.security.authorityConflict.holds
                  ((conflictWith p other).authorityKey, (conflictWith p other).digestA,
                    (conflictWith p other).digestB) = true
              · obtain ⟨row, listed, same⟩ := Table.holds_iff.mp known
                obtain ⟨key, digestA, digestB⟩ := row
                cases same
                exact .inl (new ▸ listed)
              · exact .inr ⟨new, by simpa using known⟩
        change (conflict ∈ (state.store.security.authorityConflict.insertNew
          (conflictWith p other)).rows ∨ _) ↔ _
        rw [first, List.exists_mem_cons_iff, or_assoc]
  unfold authorityGenesisWatch
  cases payload with
  | authorityConfiguration p =>
      dsimp only
      split_ifs with successor unproven
      · constructor
        · exact .inl
        · rintro (old | ⟨q, same, valid, _⟩)
          · exact old
          · cases same
            simp [valid.first] at successor
      · constructor
        · exact .inl
        · rintro (old | ⟨q, same, valid, _⟩)
          · exact old
          · cases same
            simp [valid.facial] at unproven
      · refine (folded p _ state).trans (or_congr Iff.rfl ?_)
        constructor
        · intro recorded
          exact ⟨p, rfl, ⟨rfl, by simpa using successor, by simpa using unproven⟩, recorded⟩
        · rintro ⟨q, same, _, recorded⟩
          cases same
          exact recorded
  | _ => simp

/-- What a verdict adds to the held configurations and to the conflicts. -/
theorem act_conflicts {state next : AdmitState} {event : Event} {verdict : Verdict}
    (done : act platform receiver state event verdict = .ok next) :
    (∀ p, Held next.store.log p ↔ Held state.store.log p ∨
      receiver.writes event verdict = some (.authorityConfiguration p)) ∧
    ∀ conflict, conflict ∈ next.store.security.authorityConflict.rows ↔
      conflict ∈ state.store.security.authorityConflict.rows ∨
        verdict.inserts = true ∧ ∃ p,
          receiver.writes event verdict = some (.authorityConfiguration p) ∧
          ValidGenesis platform receiver.keys p.authorityKey p ∧
          ∃ other ∈ rivalGeneses state.store.log p, conflict = conflictWith p other := by
  cases verdict with
  | raise => cases done
  | keep => cases done; simp [Receiver.writes, Verdict.inserts]
  | reject reason => cases done; simp [Receiver.writes, Verdict.inserts, AdmitState.reject]
  | report reason => cases done; simp [Receiver.writes, Verdict.inserts, AdmitState.report]
  | freeze held rivalKey =>
      simp only [act, bind_ok, pure_ok] at done
      obtain ⟨_, _, rfl⟩ := done
      simp [Receiver.writes, Verdict.inserts, AdmitState.reject]
  | upgrade held payload =>
      simp only [act, materialize, bind_ok, pure_ok] at done
      obtain ⟨middle, upgraded, store, ⟨log, written, projections, _, rfl⟩, rfl⟩ := done
      obtain ⟨_, _, shape⟩ := upgradeRow_ok upgraded
      refine ⟨fun p => ?_, fun conflict => by simp [Verdict.inserts]⟩
      have added := held_written written p
      rw [shape] at added
      simpa [Receiver.writes, Held] using added
  | insert =>
      have inserts : ∀ (start : AdmitState) (stored : Event), start.store = state.store →
          receiver.storedForm event = stored →
          insertAdmitted platform receiver start stored = .ok next →
          (∀ p, Held next.store.log p ↔ Held state.store.log p ∨
            stored.payload = some (.authorityConfiguration p)) ∧
          ∀ conflict, conflict ∈ next.store.security.authorityConflict.rows ↔
            conflict ∈ state.store.security.authorityConflict.rows ∨ ∃ p,
              stored.payload = some (.authorityConfiguration p) ∧
              ValidGenesis platform receiver.keys p.authorityKey p ∧
              ∃ other ∈ rivalGeneses state.store.log p, conflict = conflictWith p other := by
        intro start stored sameStore form inserted
        simp only [insertAdmitted, bind_ok, pure_ok] at inserted
        obtain ⟨log, entered, reduced, followed, rfl⟩ := inserted
        obtain ⟨row, shape⟩ := insertEvent_ok entered
        obtain ⟨_, appended⟩ := shape.appended
        have rows : log.eventAuthorityConfiguration =
            state.store.log.eventAuthorityConfiguration := by
          rw [appended]
          exact congrArg (·.log.eventAuthorityConfiguration) sameStore
        cases carried : stored.payload with
        | none =>
            simp only [reduceAdmitted, carried] at followed
            cases followed
            refine ⟨fun p => ?_, fun conflict => ?_⟩
            · simp [Held, rows]
            · simp [sameStore]
        | some payload =>
            simp only [reduceAdmitted, carried, bind_ok, pure_ok] at followed
            obtain ⟨store, materialized, rfl⟩ := followed
            simp only [materialize, bind_ok, pure_ok] at materialized
            obtain ⟨after, written, projections, _, rfl⟩ := materialized
            obtain ⟨sameLog, _⟩ := @authorityGenesisWatch_keeps platform receiver
              { start with store := { start.store with log := after, projections := projections } }
              stored payload
            have watched := @watch_conflicts platform receiver
              { start with store := { start.store with log := after, projections := projections } }
              stored payload
            refine ⟨fun p => ?_, fun conflict => ?_⟩
            · dsimp only
              rw [sameLog]
              dsimp only
              rw [held_written written p, Option.some.injEq, Held, Held, rows]
            · refine (watched conflict).trans ?_
              dsimp only
              rw [sameStore]
              refine or_congr Iff.rfl (exists_congr fun p => ?_)
              rw [Option.some.injEq]
              refine and_congr_right fun same => ?_
              have rivals : rivalGeneses after p = rivalGeneses state.store.log p := by
                rw [insertPayload_rivals p written, same]
                simp [rivalGeneses, rows, Kawa.Payload.rivals]
              rw [rivals]
      unfold act admitNext at done
      simp only [Verdict.inserts, true_and]
      by_cases withheld : (!event.isStub && receiver.unrequested event) = true
      · rw [if_pos withheld] at done
        have form : receiver.storedForm event = withhold event := if_pos withheld
        rw [Receiver.writes, form]
        exact inserts (state.report event "scope_unrequested") _ rfl form done
      · rw [if_neg withheld] at done
        have form : receiver.storedForm event = event := if_neg withheld
        rw [Receiver.writes, form]
        exact inserts state _ rfl form done

theorem mem_rivalGeneses {log : Log} {p : AuthorityConfiguration} {digest : String} :
    digest ∈ rivalGeneses log p ↔ ∃ row ∈ log.eventAuthorityConfiguration.rows,
      row.authorityKey = p.authorityKey ∧ row.priorConfigurationDigest = none ∧
        row.configurationDigest ≠ p.configurationDigest ∧ row.configurationDigest = digest := by
  simp only [rivalGeneses, List.mem_map, List.mem_filter, decide_eq_true_eq]
  constructor
  · rintro ⟨row, ⟨listed, key, first, other⟩, same⟩
    exact ⟨row, listed, key, first, other, same⟩
  · rintro ⟨row, listed, key, first, other, same⟩
    exact ⟨row, ⟨listed, key, first, other⟩, same⟩

/-- A held genesis of the key with another digest is among the rivals. -/
theorem rival_of_held {log : Log} {p : AuthorityConfiguration} {digest : String}
    (held : HeldGenesis platform keys log p.authorityKey digest)
    (other : digest ≠ p.configurationDigest) : digest ∈ rivalGeneses log p := by
  obtain ⟨q, ⟨eventId, listed⟩, valid, rfl⟩ := held
  exact mem_rivalGeneses.mpr ⟨_, listed, valid.key, valid.first, other, rfl⟩

theorem conflictWith_genuine {log : Log} {p : AuthorityConfiguration} {other : String}
    (apart : other ≠ p.configurationDigest)
    (own : HeldGenesis platform keys log p.authorityKey p.configurationDigest)
    (held : HeldGenesis platform keys log p.authorityKey other) :
    Genuine platform keys log (conflictWith p other) := by
  rcases lt_or_gt_of_ne apart with below | above
  · have ordered : conflictWith p other = ⟨p.authorityKey, other, p.configurationDigest⟩ := by
      rw [conflictWith, min_eq_left below.le, max_eq_right below.le]
    rw [ordered]
    exact ⟨below, held, own⟩
  · have ordered : conflictWith p other = ⟨p.authorityKey, p.configurationDigest, other⟩ := by
      rw [conflictWith, min_eq_right (le_of_lt above), max_eq_left (le_of_lt above)]
    rw [ordered]
    exact ⟨above, own, held⟩

/-- An undisturbed step keeps the record exact. -/
theorem admitOne_exact {state next : AdmitState} {event : Event}
    (exact_ : ConflictsExact platform receiver.keys state.store)
    (undisturbed : Undisturbed platform receiver state event)
    (done : admitOne platform receiver state event = .ok next) :
    ConflictsExact platform receiver.keys next.store := by
  rw [admitOne_eq] at done
  obtain ⟨held, conflicts⟩ := act_conflicts done
  unfold Undisturbed at undisturbed
  generalize receiver.verdict platform (state.view event.originNode) event = verdict
    at undisturbed held conflicts
  by_cases written : ∃ p, receiver.writes event verdict = some (.authorityConfiguration p) ∧
      ValidGenesis platform receiver.keys p.authorityKey p
  swap
  · -- nothing is added to either
    have geneses : ∀ key digest, HeldGenesis platform receiver.keys next.store.log key digest ↔
        HeldGenesis platform receiver.keys state.store.log key digest := by
      intro key digest
      refine exists_congr fun p => and_congr_left fun ⟨valid, _⟩ => (held p).trans ?_
      exact or_iff_left fun added => written ⟨p, added, rfl, valid.first, valid.facial⟩
    intro conflict
    rw [conflicts, or_iff_left fun ⟨_, p, added, valid, _⟩ => written ⟨p, added, valid⟩, exact_]
    constructor
    · rintro ⟨distinct, left, right⟩
      exact ⟨distinct, (geneses _ _).mpr left, (geneses _ _).mpr right⟩
    · rintro ⟨distinct, left, right⟩
      exact ⟨distinct, (geneses _ _).mp left, (geneses _ _).mp right⟩
  · obtain ⟨p, added, valid⟩ := written
    have kept : ∀ key digest, HeldGenesis platform receiver.keys state.store.log key digest →
        HeldGenesis platform receiver.keys next.store.log key digest := by
      rintro key digest ⟨q, old, first⟩
      exact ⟨q, (held q).mpr (.inl old), first⟩
    have own : HeldGenesis platform receiver.keys next.store.log p.authorityKey
        p.configurationDigest := ⟨p, (held p).mpr (.inr added), valid, rfl⟩
    have geneses : ∀ key digest, HeldGenesis platform receiver.keys next.store.log key digest →
        HeldGenesis platform receiver.keys state.store.log key digest ∨
          key = p.authorityKey ∧ digest = p.configurationDigest := by
      rintro key digest ⟨q, now, first, same⟩
      rcases (held q).mp now with old | new
      · exact .inl ⟨q, old, first, same⟩
      · obtain rfl : p = q := by simpa [added] using new
        exact .inr ⟨first.key.symm, same.symm⟩
    have condition := undisturbed p added valid
    intro conflict
    rw [conflicts]
    constructor
    · rintro (old | ⟨inserts, q, again, _, other, rival, rfl⟩)
      · obtain ⟨distinct, left, right⟩ := (exact_ conflict).mp old
        exact ⟨distinct, kept _ _ left, kept _ _ right⟩
      · obtain rfl : p = q := by simpa [added] using again
        rw [if_pos inserts] at condition
        obtain ⟨_, _, _, _, apart, same⟩ := mem_rivalGeneses.mp rival
        exact conflictWith_genuine (same ▸ apart) own (kept _ _ (condition other rival))
    · rintro ⟨distinct, left, right⟩
      by_cases inserts : verdict.inserts = true
      · -- a pair with the new genesis is recorded by the watch
        have recorded : ∀ other, other ≠ p.configurationDigest →
            HeldGenesis platform receiver.keys state.store.log p.authorityKey other →
            conflict = conflictWith p other → conflict ∈ state.store.security.authorityConflict.rows ∨
              verdict.inserts = true ∧ ∃ p,
                receiver.writes event verdict = some (.authorityConfiguration p) ∧
                ValidGenesis platform receiver.keys p.authorityKey p ∧
                ∃ other ∈ rivalGeneses state.store.log p, conflict = conflictWith p other :=
          fun other apart genesis same =>
            .inr ⟨inserts, p, added, valid, other, rival_of_held genesis apart, same⟩
        obtain ⟨key, digestA, digestB⟩ := conflict
        rcases geneses _ _ left with oldLeft | ⟨rfl, rfl⟩
        · rcases geneses _ _ right with oldRight | ⟨rfl, rfl⟩
          · exact .inl ((exact_ _).mpr ⟨distinct, oldLeft, oldRight⟩)
          · refine recorded digestA (ne_of_lt distinct) oldLeft ?_
            rw [conflictWith, min_eq_left (le_of_lt distinct), max_eq_right (le_of_lt distinct)]
        · rcases geneses _ _ right with oldRight | ⟨_, same⟩
          · refine recorded digestB (ne_of_gt distinct) oldRight ?_
            rw [conflictWith, min_eq_right (le_of_lt distinct), max_eq_left (le_of_lt distinct)]
          · exact absurd (same ▸ distinct) (lt_irrefl _)
      · rw [if_neg inserts] at condition
        refine .inl ((exact_ conflict).mpr ?_)
        rcases condition with known | alone
        · -- the digest was held already
          have before : ∀ key digest,
              HeldGenesis platform receiver.keys next.store.log key digest →
              HeldGenesis platform receiver.keys state.store.log key digest := by
            intro key digest genesis
            rcases geneses key digest genesis with old | ⟨rfl, rfl⟩
            · exact old
            · exact known
          exact ⟨distinct, before _ _ left, before _ _ right⟩
        · rcases geneses _ _ left with oldLeft | ⟨sameKey, newLeft⟩
          · rcases geneses _ _ right with oldRight | ⟨sameKey, newRight⟩
            · exact ⟨distinct, oldLeft, oldRight⟩
            · rw [sameKey] at oldLeft
              rw [alone _ oldLeft, newRight] at distinct
              exact absurd distinct (lt_irrefl _)
          · rcases geneses _ _ right with oldRight | ⟨_, newRight⟩
            · rw [sameKey] at oldRight
              rw [newLeft, alone _ oldRight] at distinct
              exact absurd distinct (lt_irrefl _)
            · rw [newLeft, newRight] at distinct
              exact absurd distinct (lt_irrefl _)

/-! ## Runs -/

theorem empty_exact (platform : Platform) (keys : PublicKeyRegistry) :
    ConflictsExact platform keys {} := by
  intro conflict
  constructor
  · intro listed
    cases listed
  · rintro ⟨_, ⟨p, ⟨_, listed⟩, _⟩, _⟩
    cases listed

theorem delivers_exact {store next : Store} {delivery : Delivery}
    (exact_ : ConflictsExact platform keys store)
    (undisturbed : delivery.Undisturbed platform store)
    (delivers : Delivers platform keys store delivery next) :
    ConflictsExact platform keys next := by
  obtain ⟨rfl, final, admitted, rfl⟩ := delivers
  refine foldlM_history (fun state => ConflictsExact platform delivery.receiver.keys state.store)
    ?_ exact_ admitted
  intro before event after state next split folded kept step
  exact admitOne_exact kept (undisturbed before event after state split folded) step

end Steps

/-! ## Noise that arrives first -/

namespace Noise

def receiver : Receiver :=
  { plainReceiver "node" none 0 with
    keys := plainKeys ["node", "peer"]
    trust := plainTrust ["node", "peer"] }

/-- An unsigned genesis that its digest does not bind. -/
def noise (authorityKey : String) : AuthorityConfiguration where
  authorityKey := authorityKey
  configurationDigest := "noise"
  authorityEpoch := 0
  members := []
  quorum := 1
  priorConfigurationDigest := none
  successionProof := none
  uniqueMembers := List.nodup_nil

def genesis : AuthorityConfiguration := SoleAuthority.founding "key"

theorem verifies : SoleAuthority.Verifies receiver.keys := by
  intro statement
  simp [signs, resolveAndVerifyProvenance, verifyProvenance, receiver, plainKeys,
    SoleAuthority.member, plainCredential, plainPlatform, Dict.get?_cons]

theorem refusal {node : String} (trusted : node = "node" ∨ node = "peer") {payload : Payload}
    {event : Event} (arrives : Arrives node payload event) :
    receiver.refusal plainPlatform event = none := by
  obtain ⟨signature, keyRef, scheme, signed, named, schemed, provenance, _, bound⟩ :=
    arrives.attested.accepted
  have key : keyRef = node := by
    by_contra other
    simp [TrustRegistry.nodeRef, plainTrust, Dict.get?_cons, Ne.symm other] at bound
  refine refusal_none ?_ arrives.verified
    ⟨signature, keyRef, scheme, signed, named, schemed, ?_, ?_, ?_⟩
  · simp [TemporalPolicy.admissible, arrives.hlc, receiver, plainReceiver]
  · rw [key] at provenance ⊢
    rcases trusted with rfl | rfl <;>
      simpa [resolveAndVerifyProvenance, receiver, plainKeys, Dict.get?_cons] using provenance
  · rcases trusted with rfl | rfl <;>
      simp [key, TrustRegistry.standing, receiver, plainTrust, Dict.get?_cons]
  · rw [arrives.originNode]
    rcases trusted with rfl | rfl <;>
      simp [key, TrustRegistry.nodeRef, receiver, plainTrust, Dict.get?_cons]

/-- What a node's first event, which carries a configuration, makes of a store. -/
structure Arrived (store : Store) (p : AuthorityConfiguration) (event : Event)
    (final : AdmitState) : Prop where
  admitted : admitOne plainPlatform receiver (AdmitState.start store none) event = .ok final
  verdict : receiver.verdict plainPlatform
    ((AdmitState.start store none).view event.originNode) event = .insert
  writes : receiver.writes event .insert = some (.authorityConfiguration p)
  unforked : final.store.security.forkEvidence = ∅
  others : ∀ node, node ≠ event.originNode →
    final.store.log.headMark node = store.log.headMark node

theorem Arrived.delivers {store : Store} {p : AuthorityConfiguration} {event : Event}
    {final : AdmitState} (arrived : Arrived store p event final) :
    Delivers plainPlatform receiver.keys store ⟨receiver, none, [event]⟩ final.store :=
  ⟨rfl, final, admitBatch_one arrived.admitted, rfl⟩

theorem Arrived.held {store : Store} {p : AuthorityConfiguration} {event : Event}
    {final : AdmitState} (arrived : Arrived store p event final) (q : AuthorityConfiguration) :
    Held final.store.log q ↔ Held store.log q ∨ p = q := by
  have done := arrived.admitted
  rw [admitOne_eq, arrived.verdict] at done
  rw [(act_conflicts done).1 q, arrived.writes]
  simp [AdmitState.start]

end Noise

end GenesisConflict

end Kawa
