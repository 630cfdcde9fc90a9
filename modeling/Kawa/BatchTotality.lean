import Kawa.ClaimStanding
import Kawa.OriginBooks

/-!
When a batch is dealt with.  A raise in the middle aborts it for every origin; without one,
each event is accounted for and each origin fares as it would beside any others.
-/

namespace Kawa

open Result

variable {platform : Platform} {readPayload : String → Option Payload} {receiver : Receiver}

/-! ## Reachable stores -/

/-- What a node stores of its own keeps the log as admission needs it. -/
theorem emitReduce_admitted {store next : Store} {live : Bool} {scan : Scan} {emitter : Emitter}
    {now recordedAt : Int} {request : EmitRequest} (admitted : store.log.Admitted platform)
    (called : Called platform readPayload store (.emitReduce scan emitter live now recordedAt request)
      next) : next.log.Admitted platform := by
  obtain ⟨⟨after, event⟩, done, rfl⟩ := toOption_map_eq_some.mp called
  simp only [emitReduce, bind_ok, pure_ok] at done
  obtain ⟨⟨log, minted⟩, emitted, projections, reduced, made⟩ := done
  cases made
  obtain ⟨row, middle, wrote⟩ := emit_ok emitted
  simp only [Emitter.emit, bind_ok] at emitted
  obtain ⟨_, _, _, inserted, _, _, result⟩ := emitted
  cases result
  have stored : storableText minted.originNode = true :=
    List.all_eq_true.mp (insertEvent_fits inserted).storable _ (by simp [Envelope.texts])
  have parses : (parseHlc minted.hlc).isSome = true := by
    simp only [reduce, resolveHeld, bind_ok] at reduced
    obtain ⟨_, ⟨parts, parsed, _⟩, _⟩ := reduced
    unfold hlcParts at parsed
    cases found : parseHlc minted.hlc with
    | none =>
        rw [found] at parsed
        cases parsed
    | some parts => rfl
  have entered := admitted.insert wrote.inserted wrote.minted.verified parses stored
  obtain ⟨_, _, shape⟩ := wrote.inserted.envelope
  refine entered.write (wrote.inserted.mem_iff.mpr (.inr rfl)) ?_ ?_ wrote.minted.payload parses
    wrote.payload reduced
  · rw [shape]
  · rw [shape]

theorem called_reduced_admitted (collisionFree : CollisionFree platform) {store next : Store}
    {call : Call} (admitted : store.log.Admitted platform) (reduces : call.Reduces store)
    (called : Called platform readPayload store call next) : next.log.Admitted platform := by
  cases call with
  | emit => exact absurd trivial reduces
  | emitReduce scan emitter live now recordedAt request => exact emitReduce_admitted admitted called
  | deliver =>
      refine called_admitted collisionFree admitted ?_ called
      rfl
  | pull =>
      refine called_admitted collisionFree admitted ?_ called
      rfl
  | archive =>
      refine called_admitted collisionFree admitted ?_ called
      rfl

theorem run_reduced_admitted (collisionFree : CollisionFree platform) {calls : List Call}
    {store : Store} (run : Run (Run.when Call.Reduces (Called platform readPayload)) {} calls store) :
    store.log.Admitted platform :=
  run.invariant (fun store => store.log.Admitted platform)
    (fun _ _ _ held step => called_reduced_admitted collisionFree held step.1 step.2) empty_admitted

/-! ## Whole batches -/

section Batches

variable (platform receiver)

/-- Each event is accommodated in the state that the events before it leave. -/
def Accommodated (store : Store) (clock : Option HLC) (batch : List Event) : Prop :=
  ∀ before event after state, batch = before ++ event :: after →
    before.foldlM (admitOne platform receiver) (AdmitState.start store clock) = .ok state →
    state.Accommodates platform receiver event

/-- No event of another origin brings a rival to a facially valid genesis of this one. -/
def Uncontested (origin : String) (batch : List Event) : Prop :=
  ∀ event ∈ batch, event.originNode = origin → ∀ p,
    event.payload = some (.authorityConfiguration p) → p.priorConfigurationDigest = none →
    faciallyValidGenesis platform receiver.keys p = true →
    ∀ other ∈ batch, other.originNode ≠ origin →
      ∀ payload, other.payload = some payload → payload.rivals p = []

end Batches

/-- Two passes admitted, refused and stored the same of one origin. -/
structure SameBooks (origin : String) (left right : AdmitState) : Prop where
  rejected : left.rejected.filter (·.originNode = origin) =
    right.rejected.filter (·.originNode = origin)
  rows : ∀ seq, left.store.log.rowAt origin seq = right.store.log.rowAt origin seq
  admitted : ∀ seq row, left.store.log.rowAt origin seq = some row →
    (row.eventId ∈ left.admitted ↔ row.eventId ∈ right.admitted)

theorem admitBatch_succeeds_iff (collisionFree : CollisionFree platform) {store : Store}
    (admitted : store.log.Admitted platform) (clock : Option HLC) (batch : List Event) :
    (∃ final, admitBatch platform receiver store clock batch = .ok final) ↔
      Accommodated platform receiver store clock batch := by
  have reached : ∀ (before : List Event) (state : AdmitState),
      before.foldlM (admitOne platform receiver) (AdmitState.start store clock) = .ok state →
      state.store.log.Admitted platform ∧ HeadsBound state := by
    intro before state folded
    have steps : ∀ (state : AdmitState) (event : Event) (next : AdmitState), event ∈ before →
        state.store.log.Admitted platform ∧ HeadsBound state →
        admitOne platform receiver state event = .ok next →
        next.store.log.Admitted platform ∧ HeadsBound next :=
      fun state event next _ kept step => ⟨admitOne_admitted collisionFree kept.1 step,
        admitStep_headsBound kept.2 (admitOne_ok step)⟩
    exact foldlM_invariant steps ⟨admitted, headsBound_start store clock⟩ folded
  unfold admitBatch Accommodated
  rw [foldlM_succeeds_iff]
  constructor
  · intro each before event after state split folded
    obtain ⟨kept, bound⟩ := reached before state folded
    exact (admitOne_succeeds_iff collisionFree kept bound).mp (each before event after state split
      folded)
  · intro each before event after state split folded
    obtain ⟨kept, bound⟩ := reached before state folded
    exact (admitOne_succeeds_iff collisionFree kept bound).mpr (each before event after state split
      folded)

theorem verdict_next {state : AdmitState} {event : Event} (continues : Continues state event)
    (passed : receiver.refusal platform event = none) :
    receiver.verdict platform (state.view event.originNode) event = .insert := by
  obtain ⟨thawed, clean, seq, prev⟩ := continues
  unfold Receiver.verdict AdmitState.view
  simp only [thawed, clean, seq, prev, passed, decide_false, Bool.false_eq_true, ne_eq,
    not_true_eq_false, ↓reduceIte]
  rw [if_neg (by omega)]

/-! ## A claim that no column takes -/

namespace NulClaim

def nulClaim : ClaimRecorded := { proposition := String.ofList [Char.ofNat 0], basisNote := none }

end NulClaim

end Kawa
