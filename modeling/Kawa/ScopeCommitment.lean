import Kawa.AdmitProgress
import Kawa.Provenance

/-!
The cleartext scope of a materialized event opens its hashed commitment.  An emit and a
scoped pull keep this; without requested scopes a payload is kept with whatever opening
the sender left on it, or with none.
-/

namespace Kawa

open Result

variable {platform : Platform} {readPayload : String → Option Payload}

/-- A committed scope is there in cleartext, and its digest is the commitment. -/
def Envelope.Opened (platform : Platform) (envelope : Envelope) : Prop :=
  ∀ committed, envelope.scopeDigest = some committed →
    ∃ scope, envelope.scopeRef = some scope ∧ scopeDigestOf platform scope = committed

/-- Every materialized event is opened. -/
def Log.Opened (platform : Platform) (log : Log) : Prop :=
  ∀ row ∈ log.events, row.materialized = true → row.toEnvelope.Opened platform

/-- A payload that commits to a scope comes with the scope in cleartext. -/
def Event.CarriesScope (event : Event) : Prop :=
  event.payload.isSome → event.scopeDigest.isSome → event.scopeRef.isSome

theorem opened_of_scopeOpens {envelope : Envelope} (opens : envelope.scopeOpens platform = true)
    (carried : envelope.scopeDigest.isSome → envelope.scopeRef.isSome) :
    envelope.Opened platform := by
  intro committed commits
  obtain ⟨scope, cleartext⟩ := Option.isSome_iff_exists.mp (carried (by rw [commits]; rfl))
  refine ⟨scope, cleartext, ?_⟩
  simp only [Envelope.scopeOpens, cleartext, Bool.and_eq_true, beq_iff_eq, commits] at opens
  exact (Option.some.inj opens.2).symm

/-- Where scopes are requested, what is kept whole carries one of them. -/
theorem carries_of_requested {receiver : Receiver} {event : Event}
    (verified : event.verify platform = true) (asked : receiver.requestedScopes ≠ none)
    (requested : receiver.unrequested event = false) :
    event.scopeDigest.isSome → event.scopeRef.isSome := by
  intro commits
  have checked := (Event.verify_iff _ _).mp verified
  obtain ⟨scopes, asked⟩ := Option.ne_none_iff_exists'.mp asked
  have two : 2 ≤ event.envelopeVersion := by
    rcases checked.version with one | two
    · rw [(checked.scopeless one).2] at commits
      cases commits
    · omega
  cases cleartext : event.scopeRef with
  | some _ => rfl
  | none => simp [Receiver.unrequested, asked, two, cleartext] at requested

theorem Log.Opened.append {log next : Log} {event : Event} {materialized : Bool} {recordedAt : Int}
    {row : EventRow} (opened : log.Opened platform)
    (inserted : EventInserted platform log event materialized recordedAt row next)
    (new : materialized = true → event.toEnvelope.Opened platform) : next.Opened platform := by
  intro held member whole
  rcases inserted.mem_iff.mp member with old | rfl
  · exact opened held old whole
  · obtain ⟨_, _, shape⟩ := inserted.envelope
    rw [shape] at whole ⊢
    exact new whole

theorem Log.Opened.congr {left right : Log} (same : right.events = left.events)
    (opened : left.Opened platform) : right.Opened platform := by
  unfold Log.Opened
  rw [same]
  exact opened

/-- What a call may deliver: it asks for scopes, or every payload carries its own. -/
def Receiver.OffersOpened (receiver : Receiver) (batch : List Event) : Prop :=
  receiver.requestedScopes ≠ none ∨ ∀ event ∈ batch, event.CarriesScope

theorem admitStep_opened (collisionFree : CollisionFree platform) {receiver : Receiver}
    {state next : AdmitState} {event : Event} (stemmed : state.store.log.Stemmed platform)
    (offered : receiver.requestedScopes ≠ none ∨ event.CarriesScope)
    (opened : state.store.log.Opened platform)
    (step : AdmitStep platform receiver state event next) : next.store.log.Opened platform := by
  have kept : ∀ {payload : Payload}, event.payload = some payload →
      event.verify platform = true → receiver.unrequested event = false →
        event.toEnvelope.Opened platform := by
    intro payload carried verified requested
    refine opened_of_scopeOpens ((Event.verify_iff _ _).mp verified).scopeOpens ?_
    rcases offered with asked | carries
    · exact carries_of_requested verified asked requested
    · exact carries (by rw [carried]; rfl)
  cases step with
  | kept log _ _ _ => rw [log]; exact opened
  | upgraded held upgrade _ _ =>
      obtain ⟨payload, middle, carried, row, written, _⟩ := upgrade.written
      refine Log.Opened.congr (insertPayload_events written) fun now member whole => ?_
      have opens := kept carried upgrade.verified upgrade.requested
      rcases (upgradeRow_mem row).mp member with ⟨old, inLog, same, rfl⟩ | ⟨inLog, _⟩
      · obtain rfl := Table.eq_of_key inLog (rowAt_mem upgrade.found) same
        obtain ⟨source, sourceVerified, stems⟩ := stemmed old inLog
        have scope := (stemmed_same collisionFree stems sourceVerified upgrade.verified
          upgrade.sameId).2.1
        unfold Envelope.Opened EventRow.upgraded
        rw [scope]
        exact opens
      · exact opened now inLog whole
  | inserted stored passed form write _ _ =>
      obtain ⟨middle, row, inserted, same⟩ := write.log
      refine Log.Opened.congr same (opened.append inserted fun whole => ?_)
      cases form with
      | whole requested =>
          obtain ⟨payload, carried⟩ : ∃ payload, event.payload = some payload := by
            refine Option.isSome_iff_exists.mp ?_
            simpa [Event.isStub] using whole
          refine kept carried passed.verified (requested.resolve_left ?_)
          simp [Event.isStub, carried]
      | stub full _ =>
          have cut : (withhold event).payload = none := by simp [withhold, full]
          simp [Event.isStub, cut] at whole

/-! ## Runs -/

/-- Every batch that a call offers to admission comes with its scopes opened. -/
def Call.OffersOpened (platform : Platform) (readPayload : String → Option Payload) (store : Store)
    (call : Call) : Prop :=
  ∀ receiver batch, call.offers platform readPayload store receiver batch →
    receiver.OffersOpened batch

theorem called_opened (collisionFree : CollisionFree platform) {store next : Store} {call : Call}
    (stemmed : store.log.Stemmed platform) (opened : store.log.Opened platform)
    (offered : call.OffersOpened platform readPayload store)
    (called : Called platform readPayload store call next) : next.log.Opened platform := by
  cases called_cases called with
  | emitted emitter now recordedAt request event row middle requested emitted _ =>
      refine Log.Opened.congr (insertPayload_events emitted.payload)
        (opened.append emitted.inserted fun _ => ?_)
      have minted := emitted.minted
      refine opened_of_scopeOpens ((Event.verify_iff _ _).mp minted.verified).scopeOpens ?_
      rw [minted.scopeRef, minted.envelope]
      simp [nextEnvelope]
  | delivered receiver clock batch final offers admitted log _ =>
      rw [log]
      have carried := offered receiver batch offers
      exact (admitBatch_invariant
        (fun state => state.store.log.Stemmed platform ∧ state.store.log.Opened platform)
        (fun state event next member held step =>
          ⟨admitStep_stemmed collisionFree held.1 step,
            admitStep_opened collisionFree held.1 (carried.imp id fun all => all event member)
              held.2 step⟩)
        ⟨stemmed, opened⟩ admitted).2

/-- In every run whose deliveries come opened, each materialized event that commits to a
scope is stored with the cleartext scope that it commits to. -/
theorem scopes_opened (collisionFree : CollisionFree platform) {calls : List Call} {store : Store}
    (run : Run (Run.when (Call.OffersOpened platform readPayload) (Called platform readPayload))
      {} calls store) :
    ∀ row ∈ store.log.events, row.materialized = true →
      ∀ committed, row.scopeDigest = some committed →
        ∃ scope, row.scopeRef = some scope ∧ scopeDigestOf platform scope = committed := by
  have both := run.invariant
    (fun store => store.log.Stemmed platform ∧ store.log.Opened platform) (by
      intro state call next held step
      exact ⟨called_stemmed collisionFree held.1 step.2,
        called_opened collisionFree held.1 held.2 step.1 step.2⟩)
    ⟨empty_stemmed, by intro row held; cases held⟩
  exact both.2

/-! ## A scope stripped in transit -/

namespace StrippedScope

theorem sent : ∃ event, Sent "node" (.claimRecorded plainClaim) (some "team") event :=
  plain_sent (by decide) (by decide) plainClaim_writable (some "team") (by
    rintro scope ⟨⟩
    exact ⟨by decide, by decide⟩)

theorem stored_whole {event : Event} (arrives : Arrives "node" (.claimRecorded plainClaim) event)
    (first : event.originSeq = 1 ∧ event.prevHash = none)
    {requestedScopes : Option (List String)}
    (requested : (plainReceiver "node" requestedScopes 0).unrequested event = false) :
    ∃ next, Called plainPlatform (fun _ => none) {}
        (.deliver (plainReceiver "node" requestedScopes 0) none [event]) next ∧
      storedRow event 0 true ∈ next.log.events := by
  have ready : ({} : Store).log.Ready plainPlatform 0 := empty_ready
  obtain ⟨next, middle, called, inserted, written, _⟩ := arrive_whole ready rfl arrives
    requestedScopes 0 first.1 first.2 requested rfl plainClaim_writable
    fun _ log _ _ => reduce_claim {} (by rw [arrives.hlc]; rfl) arrives.carried
  refine ⟨next, called, ?_⟩
  rw [insertPayload_events written]
  exact inserted.mem_iff.mpr (.inr rfl)

/-- Without requested scopes, an event whose scope was stripped is stored as if public. -/
theorem stored_without_scope : ∃ receiver event store, event.verify plainPlatform = true ∧
    Run (Called plainPlatform fun _ => none) {} [.deliver receiver none [event]] store ∧
    ∃ row ∈ store.log.events, row.materialized = true ∧
      row.scopeDigest = some (scopeDigestOf plainPlatform "team") ∧ row.scopeRef = none := by
  obtain ⟨event, sent⟩ := sent
  have arrives := sent.arrives.withoutScope
  obtain ⟨next, called, held⟩ := stored_whole arrives
    ⟨sent.originSeq, sent.prevHash⟩ (rfl : (plainReceiver "node" none 0).unrequested _ = false)
  exact ⟨_, _, next, arrives.verified, .cons called (.nil _), _, held, rfl, sent.scopeDigest, rfl⟩

/-- The same event as it was sent. -/
theorem stored_with_scope : ∃ receiver event store,
    Run (Called plainPlatform fun _ => none) {} [.deliver receiver none [event]] store ∧
    ∃ row ∈ store.log.events, row.materialized = true ∧
      ∃ scope, row.scopeRef = some scope ∧
        row.scopeDigest = some (scopeDigestOf plainPlatform scope) := by
  obtain ⟨event, sent⟩ := sent
  obtain ⟨next, called, held⟩ := stored_whole sent.arrives
    ⟨sent.originSeq, sent.prevHash⟩ (rfl : (plainReceiver "node" none 0).unrequested _ = false)
  have offered : (Call.deliver (plainReceiver "node" none 0) none [event]).OffersOpened plainPlatform
      (fun _ => none) {} := by
    rintro receiver batch ⟨rfl, rfl⟩
    refine .inr fun delivered member _ _ => ?_
    rw [List.mem_singleton.mp member, sent.scopeRef]
    rfl
  have digest : (storedRow event 0 true).scopeDigest =
      some (scopeDigestOf plainPlatform "team") := sent.scopeDigest
  obtain ⟨scope, cleartext, opens⟩ := scopes_opened plainPlatform_collisionFree
    (.cons ⟨offered, called⟩ (.nil _)) _ held rfl _ digest
  exact ⟨_, event, next, .cons called (.nil _), _, held, rfl, scope, cleartext, by rw [opens]; exact digest⟩

end StrippedScope

end Kawa
