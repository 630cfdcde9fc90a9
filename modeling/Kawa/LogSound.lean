import Kawa.EmitProgress

/-!
What every store keeps of its log over any run of calls.  The uuid column prints a subject
in its own spelling, so an event's id is the hash of the stored envelope only where the
subject was spelled that way.
-/

namespace Kawa

open Result

variable {platform : Platform} {readPayload : String → Option Payload}

/-! ## How a log grows -/

/-- The same event later: an upgrade sets only what is local to this node. -/
def EventRow.Became (old now : EventRow) : Prop :=
  now = { old with materialized := now.materialized, scopeRef := now.scopeRef }

theorem EventRow.Became.refl (row : EventRow) : row.Became row := rfl

theorem EventRow.Became.trans {first second third : EventRow} (left : first.Became second)
    (right : second.Became third) : first.Became third := by
  unfold EventRow.Became at left right ⊢
  rw [right, left]

/-- Every row is still held, and a new row is one that the gate has accepted. -/
structure Log.Grows (accepted : EventRow → Prop) (before after : Log) : Prop where
  kept : ∀ row ∈ before.events, ∃ now ∈ after.events, row.Became now
  fresh : ∀ now ∈ after.events, (∃ row ∈ before.events, row.Became now) ∨ accepted now

theorem Log.Grows.refl (accepted : EventRow → Prop) (log : Log) : log.Grows accepted log where
  kept row held := ⟨row, held, .refl row⟩
  fresh row held := .inl ⟨row, held, .refl row⟩

theorem Log.Grows.trans {accepted : EventRow → Prop} {first second third : Log}
    (stable : ∀ old now, old.Became now → accepted old → accepted now)
    (left : first.Grows accepted second) (right : second.Grows accepted third) :
    first.Grows accepted third := by
  constructor
  · intro row held
    obtain ⟨middle, inSecond, became⟩ := left.kept row held
    obtain ⟨now, inThird, later⟩ := right.kept middle inSecond
    exact ⟨now, inThird, became.trans later⟩
  · intro now held
    rcases right.fresh now held with ⟨middle, inSecond, later⟩ | new
    · rcases left.fresh middle inSecond with ⟨row, inFirst, became⟩ | new
      · exact .inl ⟨row, inFirst, became.trans later⟩
      · exact .inr (stable middle now later new)
    · exact .inr new

theorem grows_inserted {accepted : EventRow → Prop} {log next : Log} {event : Event}
    {materialized : Bool} {recordedAt : Int} {row : EventRow}
    (inserted : EventInserted platform log event materialized recordedAt row next)
    (new : accepted row) : log.Grows accepted next where
  kept held member := ⟨held, inserted.mem_iff.mpr (.inl member), .refl held⟩
  fresh held member := by
    rcases inserted.mem_iff.mp member with old | rfl
    · exact .inl ⟨held, old, .refl held⟩
    · exact .inr new

theorem grows_upgraded (accepted : EventRow → Prop) {log next : Log} {held : EventRow}
    {scopeRef : Option String} (upgraded : upgradeRow log held scopeRef = .ok next) :
    log.Grows accepted next := by
  constructor
  · intro row member
    by_cases same : row.eventId = held.eventId
    · exact ⟨_, (upgradeRow_mem upgraded).mpr (.inl ⟨row, member, same, rfl⟩), rfl⟩
    · exact ⟨row, (upgradeRow_mem upgraded).mpr (.inr ⟨member, same⟩), .refl row⟩
  · intro now member
    rcases (upgradeRow_mem upgraded).mp member with ⟨old, inLog, _, rfl⟩ | ⟨inLog, _⟩
    · exact .inl ⟨old, inLog, rfl⟩
    · exact .inl ⟨now, inLog, .refl now⟩

theorem Log.Grows.congr {accepted : EventRow → Prop} {log left right : Log}
    (same : right.events = left.events) (grows : log.Grows accepted left) :
    log.Grows accepted right where
  kept row held := by rw [same]; exact grows.kept row held
  fresh now held := by rw [same] at held; exact grows.fresh now held

/-- What the gate of one call accepts of a stored row. -/
def Receiver.Accepts (platform : Platform) (receiver : Receiver) (row : EventRow) : Prop :=
  Attested platform receiver.keys receiver.trust row.toEnvelope

theorem accepts_became {receiver : Receiver} {old now : EventRow} (became : old.Became now)
    (accepted : receiver.Accepts platform old) : receiver.Accepts platform now := by
  unfold EventRow.Became at became
  rw [became]
  exact ⟨accepted.accepted⟩

theorem admitStep_grows {receiver : Receiver} {state next : AdmitState} {event : Event}
    (step : AdmitStep platform receiver state event next) :
    state.store.log.Grows (receiver.Accepts platform) next.store.log := by
  cases step with
  | kept log _ _ _ => rw [log]; exact .refl _ _
  | upgraded held upgrade _ _ =>
      obtain ⟨payload, middle, _, row, written, _⟩ := upgrade.written
      exact (grows_upgraded _ row).congr (insertPayload_events written)
  | inserted stored passed form write _ _ =>
      obtain ⟨middle, row, inserted, same⟩ := write.log
      refine (grows_inserted inserted ?_).congr same
      obtain ⟨envelope, _, selfHash, signature, keyRef, scheme⟩ := form.same
      obtain ⟨_, _, rfl⟩ := inserted.envelope
      obtain ⟨signed, key, profile, hasSignature, hasKey, hasScheme, valid, active, bound⟩ :=
        passed.attested.accepted
      refine ⟨signed, key, profile, signature.trans hasSignature, keyRef.trans hasKey,
        scheme.trans hasScheme, ?_, ?_, ?_⟩
      · dsimp only; rw [selfHash]; exact valid
      · dsimp only; rw [envelope]; exact active
      · dsimp only; rw [envelope]; exact bound

theorem admitBatch_grows {receiver : Receiver} {store : Store} {clock : Option HLC}
    {batch : List Event} {final : AdmitState}
    (admitted : admitBatch platform receiver store clock batch = .ok final) :
    store.log.Grows (receiver.Accepts platform) final.store.log :=
  admitBatch_invariant (fun state => store.log.Grows (receiver.Accepts platform) state.store.log)
    (fun _ _ _ _ grows step =>
      grows.trans (fun _ _ became => accepts_became became) (admitStep_grows step))
    (.refl _ _) admitted

/-! ## Runs of calls -/

/-- The subject of every event that a call writes is spelled as the uuid column prints it. -/
def Call.CanonicalSubjects (platform : Platform) (readPayload : String → Option Payload)
    (store : Store) (call : Call) : Prop :=
  (∀ request, call.emits = some request → CanonicalRef platform request.subjectRef) ∧
    ∀ receiver batch, call.offers platform readPayload store receiver batch →
      ∀ event ∈ batch, CanonicalRef platform event.subjectRef

theorem called_invariant {store next : Store} {call : Call}
    (invariant : store.log.Invariant platform)
    (subjects : call.CanonicalSubjects platform readPayload store)
    (called : Called platform readPayload store call next) : next.log.Invariant platform := by
  cases called_cases called with
  | emitted emitter now recordedAt request event row middle requested emitted _ =>
      have subject : CanonicalRef platform event.subjectRef := by
        rw [emitted.minted.envelope]
        exact subjects.1 request requested
      exact (invariant.append emitted.inserted
        (inserted_hashed emitted.inserted subject emitted.minted.verified)
        (emitted_follows emitted)).congr (insertPayload_events emitted.payload)
  | delivered receiver clock batch final offered admitted log _ =>
      rw [log]
      exact admitBatch_invariant_log invariant (subjects.2 receiver batch offered) admitted

/-- A row that a call may add: its own emit, or a row that its trust gate accepts. -/
def Call.Accepts (platform : Platform) (readPayload : String → Option Payload) (store : Store)
    (call : Call) (row : EventRow) : Prop :=
  call.emits.isSome ∨ ∃ receiver batch, call.offers platform readPayload store receiver batch ∧
    receiver.Accepts platform row

theorem called_grows {store next : Store} {call : Call}
    (called : Called platform readPayload store call next) :
    store.log.Grows (call.Accepts platform readPayload store) next.log := by
  cases called_cases called with
  | emitted emitter now recordedAt request event row middle requested emitted _ =>
      exact (grows_inserted emitted.inserted (.inl (by rw [requested]; rfl))).congr
        (insertPayload_events emitted.payload)
  | delivered receiver clock batch final offered admitted log _ =>
      rw [log]
      have grows := admitBatch_grows admitted
      refine ⟨grows.kept, fun now held => ?_⟩
      rcases grows.fresh now held with old | new
      · exact .inl old
      · exact .inr (.inr ⟨receiver, batch, offered, new⟩)

/-- What every store keeps of its log. -/
structure Log.Sound (platform : Platform) (log : Log) : Prop where
  positions : ∀ node, ∃ n : Nat, ∀ k : Int,
    (∃ row ∈ log.events, row.originNode = node ∧ row.originSeq = k) ↔ 1 ≤ k ∧ k ≤ n
  placed : ∀ left ∈ log.events, ∀ right ∈ log.events, left.originNode = right.originNode →
    left.originSeq = right.originSeq → left = right
  first : ∀ row ∈ log.events, row.originSeq = 1 → row.prevHash = none
  linked : ∀ before ∈ log.events, ∀ row ∈ log.events, before.originNode = row.originNode →
    row.originSeq = before.originSeq + 1 → row.prevHash = some before.selfHash
  hashed : ∀ row ∈ log.events, eventHash platform row.toHashedEnvelope = some row.eventId

theorem chained_succ {log : Log} (chained : chainLinks.Chained log.events.rows)
    {before row : EventRow} (beforeHeld : before ∈ log.events) (held : row ∈ log.events)
    (same : before.originNode = row.originNode) (next : row.originSeq = before.originSeq + 1) :
    row.prevHash = some before.selfHash := by
  have positive : 1 ≤ before.originSeq := chained.positive before beforeHeld
  rcases chained.linked row held with ⟨first, _⟩ | ⟨other, inRows, precedes⟩
  · have one : row.originSeq = 1 := first
    omega
  · have seq : row.originSeq = other.originSeq + 1 := precedes.seq
    have named : other.originNode = row.originNode := precedes.origin
    obtain rfl := chained.placed other inRows before beforeHeld (named.trans same.symm)
      (by change other.originSeq = before.originSeq; omega)
    exact precedes.prev

theorem Log.Invariant.sound {log : Log} (invariant : log.Invariant platform) :
    log.Sound platform := by
  have chained := invariant.chained
  refine ⟨chained.positions, chained.placed, ?_, ?_, fun row held => (invariant.hashed row held).1⟩
  · intro row held one
    rcases chained.linked row held with ⟨_, none⟩ | ⟨before, inRows, precedes⟩
    · exact none
    · have := chained.positive before inRows
      have : row.originSeq = before.originSeq + 1 := precedes.seq
      have : 1 ≤ before.originSeq := chained.positive before inRows
      omega
  · intro before beforeHeld row held same next
    exact chained_succ chained beforeHeld held same next

/-- In every store that is reached by calls whose subjects are spelled as the uuid column
prints them, each origin is one gap-free chain of hashed envelopes; and whatever call comes
next keeps every envelope and adds only its own emit or what its trust gate accepts. -/
theorem log_sound {calls : List Call} {store : Store}
    (run : Run (Run.when (Call.CanonicalSubjects platform readPayload)
      (Called platform readPayload)) {} calls store) :
    store.log.Sound platform ∧ ∀ call next, Called platform readPayload store call next →
      store.log.Grows (call.Accepts platform readPayload store) next.log := by
  refine ⟨Log.Invariant.sound ?_, fun call next called => called_grows called⟩
  refine run.invariant (fun store => store.log.Invariant platform) ?_ ⟨?_, ?_⟩
  · intro state call next invariant step
    exact called_invariant invariant step.1 step.2
  · exact Links.chained_nil
  · intro row held
    cases held

/-! ## A subject in another spelling -/

namespace ForeignSpelling

/-- A uuid with a capital digit, which the uuid column prints in lower case. -/
def subject : String := "A0000000-0000-7000-8000-000000000000"

def stored : String := "a0000000-0000-7000-8000-000000000000"

def request (subjectRef : String) : EmitRequest :=
  { plainRequest (.planCreated plainPlan) none with subjectRef := some subjectRef }

def call (subjectRef : String) : Call :=
  .emit (Emitter.start (plainIdentity "node" (by decide))) true 1 0 (request subjectRef)

theorem castUuid_subject : plainPlatform.castUuid subject = some stored := by decide

theorem castUuid_stored : plainPlatform.castUuid stored = some stored := by decide

theorem emitted {subjectRef : String} (cast : plainPlatform.castUuid subjectRef = some stored) :
    ∃ next event, ((Emitter.start (plainIdentity "node" (by decide))).emit plainPlatform true 1 0 {}
      (request subjectRef)).2 = .ok (next, event) := by
  have ready : ({} : Log).Ready plainPlatform 0 := empty_ready
  refine emit_progress plainPlatform_collisionFree plainPlatform_storableDigests ready.invariant
    ready.referenced 1 0 ⟨.inl ⟨rfl, rfl⟩, fun scope set => by cases set⟩ (.inr rfl)
    (plainIdentity_storable (by decide) (by decide)) (by decide) ?_ (by intro row held; cases held)
  refine ⟨⟨some stored, ?_⟩, ?_, ?_, plainPlan_writable⟩
  · simp [request, castSubject, cast]
  · intro text set
    cases set
  · intro text set
    cases set

theorem called {subjectRef : String} (cast : plainPlatform.castUuid subjectRef = some stored) :
    ∃ next event, ((Emitter.start (plainIdentity "node" (by decide))).emit plainPlatform true 1 0 {}
        (request subjectRef)).2 = .ok (next, event) ∧
      Called plainPlatform (fun _ => none) {} (call subjectRef) { log := next } := by
  obtain ⟨next, event, done⟩ := emitted cast
  have store : ({} : Store).log = {} := rfl
  exact ⟨next, event, done, called_emit (store ▸ done)⟩

/-- One emit with a capital uuid digit stores an envelope that its event id is not the hash of. -/
theorem hash_of_another_envelope :
    ∃ store, Run (Called plainPlatform fun _ => none) {} [call subject] store ∧
      ∃ row ∈ store.log.events, eventHash plainPlatform row.toHashedEnvelope ≠ some row.eventId := by
  obtain ⟨next, event, done, step⟩ := called castUuid_subject
  refine ⟨{ log := next }, .cons step (.nil _), ?_⟩
  obtain ⟨row, middle, wrote⟩ := emit_ok done
  refine ⟨row, emitted_held wrote, fun hashed => ?_⟩
  have checked := (Event.verify_iff _ _).mp wrote.minted.verified
  obtain ⟨subjectRef, cast, shape⟩ := wrote.inserted.envelope
  have asked : event.subjectRef = some subject := by
    rw [wrote.minted.envelope]
    rfl
  have printed : row.subjectRef = some stored := by
    rw [asked] at cast
    simp only [castSubject, castUuid_subject, Except.ok.injEq] at cast
    rw [shape, ← cast]
  have named : row.eventId = event.selfHash := by
    rw [shape]
    exact checked.eventId.symm
  rw [named] at hashed
  have spot := eventHash_injective plainPlatform_collisionFree hashed checked.selfHash
  have same := printed.symm.trans (spot.subjectRef.trans asked)
  exact absurd (Option.some.inj same) (by decide)

/-- The same emit with the uuid as the column prints it. -/
theorem hash_of_the_stored_envelope :
    ∃ store, Run (Called plainPlatform fun _ => none) {} [call stored] store ∧
      store.log.Sound plainPlatform := by
  obtain ⟨next, event, _, step⟩ := called castUuid_stored
  have canonical : CanonicalRef plainPlatform (request stored).subjectRef := by
    intro text spelled
    rw [← Option.some.inj spelled]
    exact castUuid_stored
  have subjects : (call stored).CanonicalSubjects plainPlatform (fun _ => none) {} := by
    refine ⟨fun asked set => ?_, fun receiver batch offered => offered.elim⟩
    rw [← Option.some.inj set]
    exact canonical
  exact ⟨{ log := next }, .cons step (.nil _), (log_sound (.cons ⟨subjects, step⟩ (.nil _))).1⟩

end ForeignSpelling

end Kawa
