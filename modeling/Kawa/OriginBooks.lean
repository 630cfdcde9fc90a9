import Kawa.Verdict

/-!
The books that a pass over a batch keeps of one origin: what is frozen, poisoned, stored,
admitted and refused of it.  An event of another origin leaves them alone.
-/

namespace Kawa

open Result

variable {platform : Platform} {readPayload : String → Option Payload} {receiver : Receiver}

/-! ## What a verdict leaves behind -/

/-- The digests of the other geneses of a configuration's key. -/
def rivalGeneses (log : Log) (p : AuthorityConfiguration) : List String :=
  (log.eventAuthorityConfiguration.rows.filter fun row =>
    row.authorityKey = p.authorityKey ∧ row.priorConfigurationDigest = none ∧
      row.configurationDigest ≠ p.configurationDigest).map (·.configurationDigest)

section Reports

variable (platform receiver)

/-- What the genesis watch reports. -/
def genesisReports (log : Log) (event : Event) : Payload → List Rejection
  | .authorityConfiguration p =>
      if p.priorConfigurationDigest.isSome then []
      else if !faciallyValidGenesis platform receiver.keys p then
        [event.rejection "authority_genesis_unproven"]
      else (rivalGeneses log p).map fun _ => event.rejection "authority_genesis_conflict"
  | _ => []

/-- What is reported of an event; `log` is the log after its writes. -/
def Receiver.reports (log : Log) (event : Event) : Verdict → List Rejection
  | .raise => []
  | .keep => []
  | .reject reason => [event.rejection reason]
  | .report reason => [event.rejection reason]
  | .upgrade _ _ => []
  | .freeze held rivalKey =>
      [event.rejection (forkEvidence receiver.trust held event rivalKey).classification.value]
  | .insert =>
      (if !event.isStub && receiver.unrequested event then [event.rejection "scope_unrequested"]
        else []) ++
      ((receiver.storedForm event).payload.elim [] (genesisReports platform receiver log event))

end Reports

def Verdict.admits : Verdict → Bool
  | .insert => true
  | .upgrade _ _ => true
  | _ => false

def Verdict.inserts : Verdict → Bool
  | .insert => true
  | _ => false

def Verdict.poisons : Verdict → Bool
  | .reject _ => true
  | .freeze _ _ => true
  | _ => false

def Verdict.freezes : Verdict → Bool
  | .freeze _ _ => true
  | _ => false

theorem authorityGenesisWatch_reports (state : AdmitState) (event : Event) (payload : Payload) :
    let watched := authorityGenesisWatch platform receiver state event payload
    watched.rejected =
        state.rejected ++ genesisReports platform receiver state.store.log event payload ∧
      watched.frozen = state.frozen ∧ watched.poisoned = state.poisoned := by
  have folded : ∀ (authorityKey : String) (configurationDigest : String) (others : List String)
      (state : AdmitState),
      let watched := others.foldl (fun state other =>
        let conflicts := state.store.security.authorityConflict.insertNew
          { authorityKey := authorityKey
            digestA := min other configurationDigest
            digestB := max other configurationDigest }
        let security := { state.store.security with authorityConflict := conflicts }
        AdmitState.report { state with store := { state.store with security := security } }
          event "authority_genesis_conflict") state
      watched.rejected =
          state.rejected ++ others.map (fun _ => event.rejection "authority_genesis_conflict") ∧
        watched.frozen = state.frozen ∧ watched.poisoned = state.poisoned := by
    intro authorityKey configurationDigest others
    induction others with
    | nil => intro state; exact ⟨(List.append_nil _).symm, rfl, rfl⟩
    | cons other others ih =>
        intro state
        obtain ⟨rejected, frozen, poisoned⟩ := ih (AdmitState.report
          { state with store := { state.store with
            security := { state.store.security with
              authorityConflict := state.store.security.authorityConflict.insertNew
                { authorityKey := authorityKey
                  digestA := min other configurationDigest
                  digestB := max other configurationDigest } } } }
          event "authority_genesis_conflict")
        refine ⟨rejected.trans ?_, frozen, poisoned⟩
        simp only [AdmitState.report, List.append_assoc, List.map_cons, List.singleton_append]
  unfold authorityGenesisWatch genesisReports
  cases payload with
  | authorityConfiguration p =>
      dsimp only
      split_ifs
      · exact ⟨(List.append_nil _).symm, rfl, rfl⟩
      · exact ⟨rfl, rfl, rfl⟩
      · exact folded _ _ _ _
  | _ => exact ⟨(List.append_nil _).symm, rfl, rfl⟩

/-- The books of a pass after one event, by the verdict on it. -/
structure Acted (platform : Platform) (receiver : Receiver) (state : AdmitState) (event : Event)
    (verdict : Verdict) (next : AdmitState) : Prop where
  frozen : next.frozen =
    if verdict.freezes then event.originNode :: state.frozen else state.frozen
  poisoned : next.poisoned =
    if verdict.poisons then event.originNode :: state.poisoned else state.poisoned
  rejected : next.rejected = state.rejected ++ receiver.reports platform next.store.log event verdict
  admitted : next.admitted = state.admitted ++ if verdict.admits then [event.eventId] else []

theorem act_acted {state next : AdmitState} {event : Event} {verdict : Verdict}
    (done : act platform receiver state event verdict = .ok next) :
    Acted platform receiver state event verdict next := by
  cases verdict with
  | raise => cases done
  | keep =>
      cases done
      exact ⟨rfl, rfl, (List.append_nil _).symm, (List.append_nil _).symm⟩
  | reject reason =>
      cases done
      exact ⟨rfl, rfl, rfl, (List.append_nil _).symm⟩
  | report reason =>
      cases done
      exact ⟨rfl, rfl, rfl, (List.append_nil _).symm⟩
  | freeze held rivalKey =>
      simp only [act, bind_ok, pure_ok] at done
      obtain ⟨_, _, rfl⟩ := done
      exact ⟨rfl, rfl, rfl, (List.append_nil _).symm⟩
  | upgrade held payload =>
      simp only [act, bind_ok, pure_ok] at done
      obtain ⟨_, _, _, _, rfl⟩ := done
      exact ⟨rfl, rfl, (List.append_nil _).symm, rfl⟩
  | insert =>
      have inserts : ∀ (state : AdmitState) (stored : Event), stored.eventId = event.eventId →
          stored.originNode = event.originNode → stored.originSeq = event.originSeq →
          insertAdmitted platform receiver state stored = .ok next →
          next.frozen = state.frozen ∧ next.poisoned = state.poisoned ∧
            next.admitted = state.admitted ++ [event.eventId] ∧
            next.rejected = state.rejected ++ stored.payload.elim []
              (genesisReports platform receiver next.store.log event) := by
        intro state stored sameId sameNode sameSeq inserted
        have renamed : ∀ log payload, genesisReports platform receiver log stored payload =
            genesisReports platform receiver log event payload := by
          intro log payload
          simp only [genesisReports, Event.rejection, sameId, sameNode, sameSeq]
        have watchReports := @authorityGenesisWatch_reports platform receiver
        have watchKeeps := @authorityGenesisWatch_keeps platform receiver
        simp only [insertAdmitted, bind_ok, pure_ok] at inserted
        obtain ⟨log, _, reduced, followed, rfl⟩ := inserted
        cases carried : stored.payload with
        | none =>
            simp only [reduceAdmitted, carried] at followed
            cases followed
            exact ⟨rfl, rfl, by rw [sameId], (List.append_nil _).symm⟩
        | some payload =>
            simp only [reduceAdmitted, carried, bind_ok, pure_ok] at followed
            obtain ⟨store, _, rfl⟩ := followed
            obtain ⟨rejected, frozen, poisoned⟩ :=
              watchReports { state with store := store } stored payload
            obtain ⟨sameLog, _, _, _, admitted⟩ :=
              watchKeeps { state with store := store } stored payload
            refine ⟨frozen, poisoned, ?_, ?_⟩
            · dsimp only
              rw [admitted, sameId]
            · dsimp only [Option.elim]
              rw [rejected, sameLog, renamed]
      unfold act admitNext at done
      by_cases withheld : (!event.isStub && receiver.unrequested event) = true
      · rw [if_pos withheld] at done
        obtain ⟨envelope, sameId, _⟩ := (storedForm_storedAs receiver event).same
        have form : receiver.storedForm event = withhold event := if_pos withheld
        rw [form] at envelope sameId
        obtain ⟨frozen, poisoned, admitted, rejected⟩ := inserts _ (withhold event) sameId
          (by rw [envelope]) (by rw [envelope]) done
        refine ⟨frozen, poisoned, ?_, admitted⟩
        rw [rejected, Receiver.reports, if_pos withheld, form, ← List.append_assoc]
        rfl
      · rw [if_neg withheld] at done
        have form : receiver.storedForm event = event := if_neg withheld
        obtain ⟨frozen, poisoned, admitted, rejected⟩ := inserts state event rfl rfl rfl done
        refine ⟨frozen, poisoned, ?_, admitted⟩
        rw [rejected, Receiver.reports, if_neg withheld, form, List.nil_append]

/-! ## What a verdict writes -/

/-- The digest that a payload adds to the rivals of a genesis. -/
def Payload.rivals (p : AuthorityConfiguration) : Payload → List String
  | .authorityConfiguration q =>
      if q.authorityKey = p.authorityKey ∧ q.priorConfigurationDigest = none ∧
          q.configurationDigest ≠ p.configurationDigest then
        [q.configurationDigest]
      else []
  | _ => []

theorem insertPayload_rivals {log next : Log} {eventId : String} {payload : Payload}
    (p : AuthorityConfiguration) (inserted : insertPayload platform log eventId payload = .ok next) :
    rivalGeneses next p = rivalGeneses log p ++ payload.rivals p := by
  cases payload <;>
    simp only [insertPayload, insertPlanCreated, insertPlanLifecycleChanged, insertWorkDerived,
      insertWorkRetired, insertWorkDependencyDeclared, insertResultRecorded, insertLinkAsserted,
      insertObservationRecorded, insertClaimRecorded, insertAuthorityConfiguration,
      insertAuthorityReceipt, bind_ok, pure_ok] at inserted <;>
    first
      | obtain ⟨table, inserted, rfl⟩ := inserted
      | obtain ⟨_, _, table, inserted, rfl⟩ := inserted
  case authorityConfiguration q =>
    simp only [rivalGeneses, insertRow_rows inserted, List.filter_append, List.map_append,
      Payload.rivals, List.filter_cons, List.filter_nil]
    split_ifs <;> simp_all
  all_goals exact (List.append_nil _).symm

/-- The payload that a verdict writes. -/
def Receiver.writes (receiver : Receiver) (event : Event) : Verdict → Option Payload
  | .insert => (receiver.storedForm event).payload
  | .upgrade _ payload => some payload
  | _ => none

theorem storedForm_payload {event : Event} {payload : Payload}
    (carried : (receiver.storedForm event).payload = some payload) :
    event.payload = some payload := by
  unfold Receiver.storedForm withhold at carried
  split_ifs at carried
  · exact carried
  · exact carried

/-- The rows of `events` after a verdict on an event. -/
def rowsAfter (receiver : Receiver) (event : Event) (subjectRef : Option String)
    (rows : List EventRow) : Verdict → List EventRow
  | .insert => rows ++
      [{ (receiver.storedForm event).toEnvelope with
        subjectRef := subjectRef
        recordedAt := receiver.ambient.recordedAt event.eventId
        materialized := !(receiver.storedForm event).isStub }]
  | .upgrade held _ => rows.map fun row =>
      if row.eventId = held.eventId then row.upgraded event.scopeRef else row
  | _ => rows

theorem act_rows {state next : AdmitState} {event : Event} {verdict : Verdict}
    (done : act platform receiver state event verdict = .ok next) :
    (∃ subjectRef,
      (verdict.inserts = true → castSubject platform event.subjectRef = .ok subjectRef) ∧
      next.store.log.events.rows =
        rowsAfter receiver event subjectRef state.store.log.events.rows verdict) ∧
    (∀ p, rivalGeneses next.store.log p = rivalGeneses state.store.log p ++
      (receiver.writes event verdict).elim [] (Payload.rivals p)) ∧
    (∀ node, next.head node =
      if verdict.inserts = true ∧ event.originNode = node then
        (event.originSeq, some event.selfHash)
      else state.head node) := by
  cases verdict with
  | raise => cases done
  | keep =>
      cases done
      exact ⟨⟨none, fun set => (by cases set), rfl⟩, fun p => (List.append_nil _).symm,
        fun node => by simp [Verdict.inserts]⟩
  | reject reason =>
      cases done
      exact ⟨⟨none, fun set => (by cases set), rfl⟩, fun p => (List.append_nil _).symm,
        fun node => by simp [Verdict.inserts, AdmitState.head, AdmitState.reject]⟩
  | report reason =>
      cases done
      exact ⟨⟨none, fun set => (by cases set), rfl⟩, fun p => (List.append_nil _).symm,
        fun node => by simp [Verdict.inserts, AdmitState.head, AdmitState.report]⟩
  | freeze held rivalKey =>
      simp only [act, bind_ok, pure_ok] at done
      obtain ⟨_, _, rfl⟩ := done
      exact ⟨⟨none, fun set => (by cases set), rfl⟩, fun p => (List.append_nil _).symm,
        fun node => by simp [Verdict.inserts, AdmitState.head, AdmitState.reject]⟩
  | upgrade held payload =>
      simp only [act, materialize, bind_ok, pure_ok] at done
      obtain ⟨middle, upgraded, store, ⟨log, written, projections, _, rfl⟩, rfl⟩ := done
      refine ⟨⟨none, fun set => (by cases set), ?_⟩, fun p => ?_, fun node => by
        simp [Verdict.inserts, AdmitState.head]⟩
      · dsimp only
        rw [insertPayload_events written, upgradeRow_rows upgraded]
        rfl
      · obtain ⟨_, _, shape⟩ := upgradeRow_ok upgraded
        dsimp only
        rw [insertPayload_rivals p written, shape]
        rfl
  | insert =>
      have inserts : ∀ (state : AdmitState) (stored : Event), receiver.storedForm event = stored →
          insertAdmitted platform receiver state stored = .ok next →
          (∃ subjectRef, castSubject platform event.subjectRef = .ok subjectRef ∧
            next.store.log.events.rows =
              rowsAfter receiver event subjectRef state.store.log.events.rows .insert) ∧
          (∀ p, rivalGeneses next.store.log p = rivalGeneses state.store.log p ++
            (receiver.writes event .insert).elim [] (Payload.rivals p)) ∧
          next.heads = state.heads.set event.originNode (event.originSeq, event.selfHash) := by
        intro state stored form inserted
        obtain ⟨envelope, sameId, sameHash, _⟩ := (storedForm_storedAs receiver event).same
        rw [form] at envelope sameId sameHash
        obtain ⟨write, heads, _⟩ := insertAdmitted_ok inserted
        obtain ⟨log, row, entered, wrote⟩ := write.written
        obtain ⟨subjectRef, cast, shape⟩ := entered.envelope
        have rows := entered.rows
        have sameRivals : ∀ p, rivalGeneses log p = rivalGeneses state.store.log p := by
          obtain ⟨_, same⟩ := entered.appended
          intro p
          rw [same]
          rfl
        have subjects : stored.subjectRef = event.subjectRef := by rw [envelope]
        have names : stored.originNode = event.originNode ∧ stored.originSeq = event.originSeq := by
          rw [envelope]
          exact ⟨rfl, rfl⟩
        rw [names.1, names.2, sameHash] at heads
        refine ⟨⟨subjectRef, subjects ▸ cast, ?_⟩, fun p => ?_, heads⟩
        · have events : next.store.log.events.rows = log.events.rows := by
            rcases wrote with ⟨_, same, _⟩ | ⟨payload, _, written, _⟩
            · rw [same]
            · rw [insertPayload_events written]
          rw [events, rows, shape, sameId, rowsAfter, form]
        · rw [Receiver.writes, form]
          rcases wrote with ⟨bare, same, _⟩ | ⟨payload, carried, written, _⟩
          · rw [bare, same, sameRivals]
            exact (List.append_nil _).symm
          · rw [carried, insertPayload_rivals p written, sameRivals]
            rfl
      unfold act admitNext at done
      by_cases withheld : (!event.isStub && receiver.unrequested event) = true
      · rw [if_pos withheld] at done
        obtain ⟨⟨subjectRef, cast, rows⟩, rivals, heads⟩ := inserts _ _ (if_pos withheld) done
        refine ⟨⟨subjectRef, fun _ => cast, rows⟩, rivals, fun node => ?_⟩
        unfold AdmitState.head
        rw [heads]
        by_cases mine : event.originNode = node
        · rw [mine, Dict.get?_set_self]
          simp [Verdict.inserts]
        · rw [Dict.get?_set_ne _ _ (Ne.symm mine)]
          simp [mine, AdmitState.report]
      · rw [if_neg withheld] at done
        obtain ⟨⟨subjectRef, cast, rows⟩, rivals, heads⟩ := inserts _ _ (if_neg withheld) done
        refine ⟨⟨subjectRef, fun _ => cast, rows⟩, rivals, fun node => ?_⟩
        unfold AdmitState.head
        rw [heads]
        by_cases mine : event.originNode = node
        · rw [mine, Dict.get?_set_self]
          simp [Verdict.inserts]
        · rw [Dict.get?_set_ne _ _ (Ne.symm mine)]
          simp [mine]

/-! ## Accounts -/

/-- The event is admitted, already held, or refused with a reason. -/
def AdmitState.Accounts (state : AdmitState) (event : Event) : Prop :=
  event.eventId ∈ state.admitted ∨ (∃ row ∈ state.store.log.events, row.eventId = event.eventId) ∨
    ∃ reason, event.rejection reason ∈ state.rejected

theorem mem_rowsAfter {event : Event} {subjectRef : Option String} {rows : List EventRow}
    {verdict : Verdict} {row : EventRow} (held : row ∈ rows) :
    ∃ now ∈ rowsAfter receiver event subjectRef rows verdict, now.eventId = row.eventId := by
  cases verdict with
  | insert => exact ⟨row, List.mem_append_left _ held, rfl⟩
  | upgrade stub payload =>
      refine ⟨_, List.mem_map_of_mem held, ?_⟩
      split_ifs <;> rfl
  | _ => exact ⟨row, held, rfl⟩

theorem Accounts.later {state next : AdmitState} {event other : Event} {verdict : Verdict}
    (accounts : state.Accounts event)
    (done : act platform receiver state other verdict = .ok next) : next.Accounts event := by
  have acted := act_acted done
  obtain ⟨⟨subjectRef, _, rows⟩, _⟩ := act_rows done
  rcases accounts with admitted | ⟨row, held, named⟩ | ⟨reason, rejected⟩
  · rw [AdmitState.Accounts, acted.admitted]
    exact .inl (List.mem_append_left _ admitted)
  · obtain ⟨now, member, same⟩ := mem_rowsAfter (Table.mem_rows.mpr held)
    exact .inr (.inl ⟨now, by rw [← Table.mem_rows, rows]; exact member, same.trans named⟩)
  · rw [AdmitState.Accounts, acted.rejected]
    exact .inr (.inr ⟨reason, List.mem_append_left _ rejected⟩)

theorem heldVerdict_keep {row : Option EventRow} {event : Event}
    (verdict : receiver.heldVerdict platform row event = .keep) :
    ∃ held, row = some held ∧ held.eventId = event.eventId := by
  have judged := heldVerdict_case platform receiver row event
  rw [verdict] at judged
  cases judged with
  | kept held _ found sameId _ => exact ⟨held, found, sameId⟩

theorem verdict_keep {view : OriginView} {event : Event}
    (verdict : receiver.verdict platform view event = .keep) :
    ∃ held, view.rowAt event.originSeq = some held ∧ held.eventId = event.eventId := by
  unfold Receiver.verdict at verdict
  split_ifs at verdict
  · exact heldVerdict_keep verdict
  · cases refused : receiver.refusal platform event with
    | none =>
        rw [refused] at verdict
        cases verdict
    | some reason =>
        rw [refused] at verdict
        cases verdict

theorem admitOne_accounts {state next : AdmitState} {event : Event}
    (done : admitOne platform receiver state event = .ok next) : next.Accounts event := by
  rw [admitOne_eq] at done
  have acted := act_acted done
  cases verdict : receiver.verdict platform (state.view event.originNode) event with
  | raise =>
      rw [verdict] at done
      cases done
  | keep =>
      rw [verdict] at done
      cases done
      obtain ⟨held, found, named⟩ := verdict_keep verdict
      exact .inr (.inl ⟨held, rowAt_mem found, named⟩)
  | insert =>
      rw [verdict] at acted
      rw [AdmitState.Accounts, acted.admitted]
      exact .inl (List.mem_append_right _ (List.mem_singleton_self _))
  | upgrade held payload =>
      rw [verdict] at acted
      rw [AdmitState.Accounts, acted.admitted]
      exact .inl (List.mem_append_right _ (List.mem_singleton_self _))
  | reject reason =>
      rw [verdict] at acted
      rw [AdmitState.Accounts, acted.rejected]
      exact .inr (.inr ⟨reason, List.mem_append_right _ (List.mem_singleton_self _)⟩)
  | report reason =>
      rw [verdict] at acted
      rw [AdmitState.Accounts, acted.rejected]
      exact .inr (.inr ⟨reason, List.mem_append_right _ (List.mem_singleton_self _)⟩)
  | freeze held rivalKey =>
      rw [verdict] at acted
      rw [AdmitState.Accounts, acted.rejected]
      exact .inr (.inr ⟨_, List.mem_append_right _ (List.mem_singleton_self _)⟩)

theorem admitBatch_accounts {batch : List Event} {state final : AdmitState}
    (folded : batch.foldlM (admitOne platform receiver) state = .ok final) :
    ∀ event ∈ batch, final.Accounts event := by
  induction batch generalizing state with
  | nil =>
      intro event listed
      cases listed
  | cons first batch ih =>
      simp only [List.foldlM_cons, bind_ok] at folded
      obtain ⟨next, done, rest⟩ := folded
      intro event listed
      rcases List.mem_cons.mp listed with rfl | later
      · have kept : ∀ state other after, other ∈ batch → state.Accounts event →
            admitOne platform receiver state other = .ok after → after.Accounts event := by
          intro state other after _ accounts step
          rw [admitOne_eq] at step
          exact Accounts.later accounts step
        exact foldlM_invariant kept (admitOne_accounts done) rest
      · exact ih rest event later

/-! ## One origin -/

/-- Two passes that agree on everything of one origin; the geneses are the configurations of
the origin whose rivals are watched. -/
structure SameFor (origin : String) (geneses : AuthorityConfiguration → Prop)
    (left right : AdmitState) : Prop where
  view : left.view origin = right.view origin
  geneses : ∀ p, geneses p → rivalGeneses left.store.log p = rivalGeneses right.store.log p
  rejected : left.rejected.filter (·.originNode = origin) =
    right.rejected.filter (·.originNode = origin)
  admitted : ∀ seq row, left.store.log.rowAt origin seq = some row →
    (row.eventId ∈ left.admitted ↔ row.eventId ∈ right.admitted)

theorem SameFor.rowAt {origin : String} {geneses : AuthorityConfiguration → Prop}
    {left right : AdmitState} (same : SameFor origin geneses left right) (seq : Int) :
    left.store.log.rowAt origin seq = right.store.log.rowAt origin seq :=
  congrFun (congrArg OriginView.rowAt same.view) seq

theorem SameFor.symm {origin : String} {geneses : AuthorityConfiguration → Prop}
    {left right : AdmitState} (same : SameFor origin geneses left right) :
    SameFor origin geneses right left where
  view := same.view.symm
  geneses p watched := (same.geneses p watched).symm
  rejected := same.rejected.symm
  admitted seq row found := (same.admitted seq row ((same.rowAt seq).trans found)).symm

theorem reports_origin (log : Log) (event : Event) (verdict : Verdict) :
    ∀ rejection ∈ receiver.reports platform log event verdict,
      rejection.originNode = event.originNode := by
  have watched : ∀ payload, ∀ rejection ∈ genesisReports platform receiver log event payload,
      rejection.originNode = event.originNode := by
    intro payload rejection listed
    unfold genesisReports at listed
    cases payload with
    | authorityConfiguration p =>
        dsimp only at listed
        split_ifs at listed
        · cases listed
        · rw [List.mem_singleton.mp listed]
          rfl
        · obtain ⟨_, _, rfl⟩ := List.mem_map.mp listed
          rfl
    | _ => cases listed
  intro rejection listed
  cases verdict with
  | raise => cases listed
  | keep => cases listed
  | upgrade held payload => cases listed
  | reject reason =>
      rw [List.mem_singleton.mp listed]
      rfl
  | report reason =>
      rw [List.mem_singleton.mp listed]
      rfl
  | freeze held rivalKey =>
      rw [List.mem_singleton.mp listed]
      rfl
  | insert =>
      rcases List.mem_append.mp listed with withheld | genesis
      · split_ifs at withheld
        · rw [List.mem_singleton.mp withheld]
          rfl
        · cases withheld
      · cases carried : (receiver.storedForm event).payload with
        | none =>
            rw [carried] at genesis
            cases genesis
        | some payload =>
            rw [carried] at genesis
            exact watched payload rejection genesis

theorem filter_reports {origin : String} {log : Log} {event : Event} {verdict : Verdict} :
    (receiver.reports platform log event verdict).filter (·.originNode = origin) =
      if event.originNode = origin then receiver.reports platform log event verdict else [] := by
  by_cases mine : event.originNode = origin
  · rw [if_pos mine]
    refine List.filter_eq_self.mpr fun rejection listed => ?_
    exact decide_eq_true ((reports_origin log event verdict rejection listed).trans mine)
  · rw [if_neg mine]
    refine List.filter_eq_nil_iff.mpr fun rejection listed same => mine ?_
    exact (reports_origin log event verdict rejection listed).symm.trans (of_decide_eq_true same)

/-- The position of a row of the origin. -/
def atPosition (originNode : String) (originSeq : Int) (row : EventRow) : Bool :=
  decide (row.originNode = originNode ∧ row.originSeq = originSeq)

theorem find_rowsAfter_upgrade {event : Event} {subjectRef : Option String} {held : EventRow}
    {payload : Payload} (rows : List EventRow) (origin : String) (seq : Int) :
    (rowsAfter receiver event subjectRef rows (.upgrade held payload)).find?
        (atPosition origin seq) =
      (rows.find? (atPosition origin seq)).map fun row =>
        if row.eventId = held.eventId then row.upgraded event.scopeRef else row := by
  have same : (atPosition origin seq ∘ fun row =>
      if row.eventId = held.eventId then row.upgraded event.scopeRef else row) =
      atPosition origin seq := by
    funext row
    unfold atPosition
    simp only [Function.comp]
    split_ifs <;> rfl
  rw [rowsAfter, List.find?_map, same]

/-- An event of another origin leaves the books of this one alone. -/
theorem SameFor.other {origin : String} {geneses : AuthorityConfiguration → Prop}
    {left right next : AdmitState} {event : Event} (same : SameFor origin geneses left right)
    (foreign : event.originNode ≠ origin)
    (harmless : ∀ p, geneses p → ∀ payload, event.payload = some payload → payload.rivals p = [])
    (done : admitOne platform receiver left event = .ok next) :
    SameFor origin geneses next right := by
  rw [admitOne_eq] at done
  generalize verdictOf : receiver.verdict platform (left.view event.originNode) event = verdict at done
  have acted := act_acted done
  obtain ⟨⟨subjectRef, _, rows⟩, rivals, heads⟩ := act_rows done
  have rowAt : ∀ seq, next.store.log.rowAt origin seq = left.store.log.rowAt origin seq := by
    intro seq
    change next.store.log.events.rows.find? (atPosition origin seq) =
      left.store.log.events.rows.find? (atPosition origin seq)
    rw [rows]
    cases verdict with
    | insert =>
        obtain ⟨envelope, _⟩ := (storedForm_storedAs receiver event).same
        have elsewhere : (receiver.storedForm event).originNode ≠ origin := by
          rw [envelope]
          exact foreign
        rw [rowsAfter, List.find?_append]
        simp [atPosition, elsewhere]
    | upgrade held payload =>
        rw [find_rowsAfter_upgrade]
        cases found : left.store.log.events.rows.find? (atPosition origin seq) with
        | none => rfl
        | some row =>
            obtain ⟨heldFound, _⟩ := verdict_upgrade verdictOf
            have heldHere := List.find?_some heldFound
            have rowHere := List.find?_some found
            simp only [atPosition, decide_eq_true_eq] at heldHere rowHere
            have apart : row.eventId ≠ held.eventId := by
              intro sameId
              rw [Table.eq_of_key (Table.mem_rows.mp (List.mem_of_find?_eq_some found))
                (rowAt_mem heldFound) sameId, heldHere.1] at rowHere
              exact foreign rowHere.1
            simp [apart]
    | _ => rfl
  refine ⟨?_, ?_, ?_, ?_⟩
  · rw [← same.view]
    unfold AdmitState.view
    rw [acted.frozen, acted.poisoned, heads origin]
    congr 1
    · cases verdict.freezes <;> simp [Ne.symm foreign]
    · cases verdict.poisons <;> simp [Ne.symm foreign]
    · rw [if_neg fun mine => foreign mine.2]
    · exact funext rowAt
  · intro p watched
    rw [rivals p, ← same.geneses p watched]
    have quiet : (receiver.writes event verdict).elim [] (Payload.rivals p) = [] := by
      cases verdict with
      | insert =>
          cases carried : (receiver.storedForm event).payload with
          | none => simp [Receiver.writes, carried]
          | some payload =>
              simp only [Receiver.writes, carried, Option.elim]
              exact harmless p watched payload (storedForm_payload carried)
      | upgrade held payload =>
          obtain ⟨_, _, carried, _⟩ := verdict_upgrade verdictOf
          exact harmless p watched payload carried
      | _ => rfl
    rw [quiet, List.append_nil]
  · rw [acted.rejected, List.filter_append, filter_reports, if_neg foreign, List.append_nil]
    exact same.rejected
  · intro seq row found
    rw [rowAt seq] at found
    rw [acted.admitted, List.mem_append, ← same.admitted seq row found]
    have here := List.find?_some found
    simp only [decide_eq_true_eq] at here
    have apart : row.eventId ∉ (if verdict.admits then [event.eventId] else []) := by
      intro listed
      cases verdict with
      | insert =>
          obtain ⟨envelope, sameId, _⟩ := (storedForm_storedAs receiver event).same
          have rowHeld : row ∈ next.store.log.events := by
            rw [← Table.mem_rows, rows]
            exact List.mem_append_left _ (Table.mem_rows.mpr (rowAt_mem found))
          have newHeld : { (receiver.storedForm event).toEnvelope with
              subjectRef := subjectRef
              recordedAt := receiver.ambient.recordedAt event.eventId
              materialized := !(receiver.storedForm event).isStub } ∈ next.store.log.events := by
            rw [← Table.mem_rows, rows]
            exact List.mem_append_right _ (List.mem_singleton_self _)
          have named : row.eventId = event.eventId := List.mem_singleton.mp listed
          rw [Table.eq_of_key rowHeld newHeld (named.trans sameId.symm)] at here
          have node : (receiver.storedForm event).originNode = event.originNode := by rw [envelope]
          exact foreign (node.symm.trans here.1)
      | upgrade held payload =>
          obtain ⟨heldFound, sameId, _⟩ := verdict_upgrade verdictOf
          have heldHere := List.find?_some heldFound
          simp only [decide_eq_true_eq] at heldHere
          have named : row.eventId = event.eventId := List.mem_singleton.mp listed
          rw [Table.eq_of_key (rowAt_mem found) (rowAt_mem heldFound) (named.trans sameId.symm),
            heldHere.1] at here
          exact foreign here.1
      | _ => cases listed
    constructor
    · exact fun admitted => admitted.resolve_right apart
    · exact .inl

theorem find_rowsAfter_congr {event : Event} {subjectRef : Option String} {verdict : Verdict}
    {left right : List EventRow} {origin : String} {seq : Int}
    (same : left.find? (atPosition origin seq) = right.find? (atPosition origin seq)) :
    (rowsAfter receiver event subjectRef left verdict).find? (atPosition origin seq) =
      (rowsAfter receiver event subjectRef right verdict).find? (atPosition origin seq) := by
  cases verdict with
  | insert => rw [rowsAfter, rowsAfter, List.find?_append, List.find?_append, same]
  | upgrade held payload => rw [find_rowsAfter_upgrade, find_rowsAfter_upgrade, same]
  | _ => exact same

theorem find_rowsAfter {event : Event} {subjectRef : Option String} {verdict : Verdict}
    {rows : List EventRow} {origin : String} {seq : Int} {row : EventRow}
    (found : (rowsAfter receiver event subjectRef rows verdict).find? (atPosition origin seq) =
      some row) :
    (verdict.admits = true ∧ row.eventId = event.eventId) ∨
      ∃ old, rows.find? (atPosition origin seq) = some old ∧ old.eventId = row.eventId := by
  cases verdict with
  | insert =>
      rw [rowsAfter, List.find?_append] at found
      rcases Option.or_eq_some_iff.mp found with old | ⟨_, new⟩
      · exact .inr ⟨row, old, rfl⟩
      · obtain ⟨_, sameId, _⟩ := (storedForm_storedAs receiver event).same
        rw [List.mem_singleton.mp (List.mem_of_find?_eq_some new)]
        exact .inl ⟨rfl, sameId⟩
  | upgrade held payload =>
      rw [find_rowsAfter_upgrade] at found
      obtain ⟨old, oldFound, rfl⟩ := Option.map_eq_some_iff.mp found
      refine .inr ⟨old, oldFound, ?_⟩
      split_ifs <;> rfl
  | _ => exact .inr ⟨row, found, rfl⟩

/-- An event of the origin itself is treated alike in both. -/
theorem SameFor.own {origin : String} {geneses : AuthorityConfiguration → Prop}
    {left right nextLeft nextRight : AdmitState} {event : Event}
    (same : SameFor origin geneses left right) (mine : event.originNode = origin)
    (watched : ∀ p, event.payload = some (.authorityConfiguration p) →
      p.priorConfigurationDigest = none → faciallyValidGenesis platform receiver.keys p = true →
      geneses p)
    (doneLeft : admitOne platform receiver left event = .ok nextLeft)
    (doneRight : admitOne platform receiver right event = .ok nextRight) :
    SameFor origin geneses nextLeft nextRight := by
  have views : right.view event.originNode = left.view event.originNode := by
    rw [mine]
    exact same.view.symm
  rw [admitOne_eq] at doneLeft doneRight
  rw [views] at doneRight
  generalize receiver.verdict platform (left.view event.originNode) event = verdict
    at doneLeft doneRight
  have leftActed := act_acted doneLeft
  have rightActed := act_acted doneRight
  obtain ⟨⟨leftSubject, leftCast, leftRows⟩, leftRivals, leftHeads⟩ := act_rows doneLeft
  obtain ⟨⟨rightSubject, rightCast, rightRows⟩, rightRivals, rightHeads⟩ := act_rows doneRight
  have geneses_same : ∀ p, geneses p →
      rivalGeneses nextLeft.store.log p = rivalGeneses nextRight.store.log p := by
    intro p isWatched
    rw [leftRivals, rightRivals, same.geneses p isWatched]
  have reports : receiver.reports platform nextLeft.store.log event verdict =
      receiver.reports platform nextRight.store.log event verdict := by
    cases verdict with
    | insert =>
        unfold Receiver.reports
        cases carried : (receiver.storedForm event).payload with
        | none => rfl
        | some payload =>
            cases payload with
            | authorityConfiguration p =>
                simp only [Option.elim, genesisReports]
                by_cases later : p.priorConfigurationDigest.isSome = true
                · rw [if_pos later, if_pos later]
                · rw [if_neg later, if_neg later]
                  by_cases unproven : (!faciallyValidGenesis platform receiver.keys p) = true
                  · rw [if_pos unproven, if_pos unproven]
                  · rw [if_neg unproven, if_neg unproven, geneses_same p ?_]
                    exact watched p (storedForm_payload carried) (by simpa using later)
                      (by simpa using unproven)
            | _ => rfl
    | _ => rfl
  have rowAt : ∀ seq, nextLeft.store.log.rowAt origin seq = nextRight.store.log.rowAt origin seq := by
    intro seq
    change nextLeft.store.log.events.rows.find? (atPosition origin seq) =
      nextRight.store.log.events.rows.find? (atPosition origin seq)
    have before := same.rowAt seq
    rw [leftRows, rightRows]
    cases verdict with
    | insert =>
        have subjects := (leftCast rfl).symm.trans (rightCast rfl)
        rw [Except.ok.inj subjects]
        exact find_rowsAfter_congr before
    | upgrade held payload => exact find_rowsAfter_congr before
    | _ => exact before
  refine ⟨?_, geneses_same, ?_, ?_⟩
  · have frozen := congrArg OriginView.frozen same.view
    have poisoned := congrArg OriginView.poisoned same.view
    have head := congrArg OriginView.head same.view
    simp only [AdmitState.view] at frozen poisoned head
    unfold AdmitState.view
    rw [leftActed.frozen, leftActed.poisoned, leftHeads origin, rightActed.frozen,
      rightActed.poisoned, rightHeads origin, head]
    congr 1
    · cases verdict.freezes
      · exact frozen
      · simp [mine]
    · cases verdict.poisons
      · exact poisoned
      · simp [mine]
    · exact funext rowAt
  · rw [leftActed.rejected, rightActed.rejected, List.filter_append, List.filter_append,
      same.rejected, reports]
  · intro seq row found
    change nextLeft.store.log.events.rows.find? (atPosition origin seq) = some row at found
    rw [leftRows] at found
    rw [leftActed.admitted, rightActed.admitted, List.mem_append, List.mem_append]
    rcases find_rowsAfter found with ⟨admits, named⟩ | ⟨old, oldFound, sameId⟩
    · rw [if_pos admits, named]
      exact iff_of_true (.inr (List.mem_singleton_self _)) (.inr (List.mem_singleton_self _))
    · rw [← sameId, same.admitted seq old oldFound]

/-- Two batches that hold the same events of an origin leave the same books of it. -/
theorem SameFor.batches {origin : String} {geneses : AuthorityConfiguration → Prop}
    (batch : List Event) : ∀ (other : List Event) {left right finalLeft finalRight : AdmitState},
    SameFor origin geneses left right →
    batch.filter (·.originNode = origin) = other.filter (·.originNode = origin) →
    (∀ event ∈ batch, event.originNode = origin → ∀ p,
      event.payload = some (.authorityConfiguration p) → p.priorConfigurationDigest = none →
      faciallyValidGenesis platform receiver.keys p = true → geneses p) →
    (∀ event, event ∈ batch ∨ event ∈ other → event.originNode ≠ origin → ∀ p, geneses p →
      ∀ payload, event.payload = some payload → payload.rivals p = []) →
    batch.foldlM (admitOne platform receiver) left = .ok finalLeft →
    other.foldlM (admitOne platform receiver) right = .ok finalRight →
    SameFor origin geneses finalLeft finalRight := by
  induction batch with
  | nil =>
      intro other
      induction other with
      | nil =>
          intro left right finalLeft finalRight same _ _ _ doneLeft doneRight
          simp only [List.foldlM_nil, pure_ok] at doneLeft doneRight
          exact doneLeft ▸ doneRight ▸ same
      | cons event other ih =>
          intro left right finalLeft finalRight same filtered watched harmless doneLeft doneRight
          have foreign : event.originNode ≠ origin := by
            intro mine
            simp [mine] at filtered
          simp only [List.foldlM_cons, bind_ok] at doneRight
          obtain ⟨next, step, rest⟩ := doneRight
          refine ih (same.symm.other foreign
            (harmless event (.inr List.mem_cons_self) foreign) step).symm ?_ watched ?_ doneLeft rest
          · rw [List.filter_cons_of_neg (by simpa using foreign)] at filtered
            exact filtered
          · intro later listed
            exact harmless later (listed.imp id (List.mem_cons_of_mem _))
  | cons first batch ih =>
      intro other
      induction other with
      | nil =>
          intro left right finalLeft finalRight same filtered watched harmless doneLeft doneRight
          have foreign : first.originNode ≠ origin := by
            intro mine
            simp [mine] at filtered
          simp only [List.foldlM_cons, bind_ok] at doneLeft
          obtain ⟨next, step, rest⟩ := doneLeft
          refine ih [] (same.other foreign (harmless first (.inl List.mem_cons_self) foreign) step) ?_
            (fun event listed => watched event (List.mem_cons_of_mem _ listed)) ?_ rest doneRight
          · rw [List.filter_cons_of_neg (by simpa using foreign)] at filtered
            exact filtered
          · intro later listed
            exact harmless later (listed.imp (List.mem_cons_of_mem _) id)
      | cons event other otherIh =>
          intro left right finalLeft finalRight same filtered watched harmless doneLeft doneRight
          by_cases firstMine : first.originNode = origin
          · by_cases eventMine : event.originNode = origin
            · rw [List.filter_cons_of_pos (by simpa using firstMine),
                List.filter_cons_of_pos (by simpa using eventMine)] at filtered
              obtain ⟨heads, tails⟩ := List.cons.inj filtered
              subst heads
              simp only [List.foldlM_cons, bind_ok] at doneLeft doneRight
              obtain ⟨nextLeft, stepLeft, restLeft⟩ := doneLeft
              obtain ⟨nextRight, stepRight, restRight⟩ := doneRight
              refine ih other (same.own firstMine (watched first List.mem_cons_self firstMine)
                stepLeft stepRight) tails
                (fun event listed => watched event (List.mem_cons_of_mem _ listed)) ?_ restLeft
                restRight
              intro later listed
              exact harmless later
                (listed.imp (List.mem_cons_of_mem _) (List.mem_cons_of_mem _))
            · simp only [List.foldlM_cons, bind_ok] at doneRight
              obtain ⟨next, step, rest⟩ := doneRight
              refine otherIh (same.symm.other eventMine
                (harmless event (.inr List.mem_cons_self) eventMine) step).symm ?_ watched ?_
                doneLeft rest
              · rw [filtered, List.filter_cons_of_neg (by simpa using eventMine)]
              · intro later listed
                exact harmless later (listed.imp id (List.mem_cons_of_mem _))
          · simp only [List.foldlM_cons, bind_ok] at doneLeft
            obtain ⟨next, step, rest⟩ := doneLeft
            refine ih (event :: other) (same.other firstMine
              (harmless first (.inl List.mem_cons_self) firstMine) step) ?_
              (fun event listed => watched event (List.mem_cons_of_mem _ listed)) ?_ rest doneRight
            · rw [← filtered, List.filter_cons_of_neg (by simpa using firstMine)]
            · intro later listed
              exact harmless later (listed.imp (List.mem_cons_of_mem _) id)

end Kawa
