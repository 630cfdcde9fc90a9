import Kawa.Archive
import Kawa.AdmissionSteps
import Kawa.Lib.Runs

/-!
The calls that write a store: local emits, batches, pulls and archive imports, in any
order and any number.
-/

namespace Kawa

open Result

/-- One call, with everything it is given. -/
inductive Call
  | emit (emitter : Emitter) (live : Bool) (now recordedAt : Int) (request : EmitRequest)
  | emitReduce (scan : Scan) (emitter : Emitter) (live : Bool) (now recordedAt : Int)
      (request : EmitRequest)
  | deliver (receiver : Receiver) (clock : Option HLC) (batch : List Event)
  | pull (receiver : Receiver) (clock : Option HLC) (source : Log)
      (sourceTrust : Option TrustRegistry) (pullerNode : Option String)
  | archive (receiver : Receiver) (clock : Option HLC) (doc : ArchiveDoc)

section Calls

variable (platform : Platform) (readPayload : String → Option Payload)

/-- The store that a call commits; `none` where it raised and nothing is committed. -/
def Call.perform (store : Store) : Call → Option Store
  | .emit emitter live now recordedAt request =>
      (emitter.emit platform live now recordedAt store.log request).2.toOption.map
        fun (log, _) => { store with log := log }
  | .emitReduce scan emitter live now recordedAt request =>
      (Kawa.emitReduce platform live scan emitter now recordedAt store request).2.toOption.map (·.1)
  | .deliver receiver clock batch =>
      (admitBatch platform receiver store clock batch).toOption.map (·.store)
  | .pull receiver clock source sourceTrust pullerNode =>
      (Kawa.pull platform receiver store source clock sourceTrust pullerNode).toOption.map (·.store)
  | .archive receiver clock doc =>
      (archiveImport platform readPayload receiver store clock doc).toOption.map (·.store)

/-- A call that commits takes one store to the next. -/
def Called (store : Store) (call : Call) (next : Store) : Prop :=
  call.perform platform readPayload store = some next

/-- The batch that a call offers to admission; none of them from a local emit. -/
def Call.offers (store : Store) (call : Call) (receiver : Receiver) (batch : List Event) : Prop :=
  match call with
  | .emit .. => False
  | .emitReduce .. => False
  | .deliver own _ delivered => receiver = own ∧ batch = delivered
  | .pull own _ source sourceTrust pullerNode => receiver = own ∧
      servePull platform store.log source sourceTrust pullerNode own.requestedScopes = .ok batch
  | .archive own _ doc => receiver = { own with requestedScopes := none } ∧
      verifyArchiveDoc platform readPayload own.keys doc = .ok batch

/-- An emit whose event is not reduced in the same transaction. -/
def Call.unreduced : Call → Prop
  | .emit .. => True
  | _ => False

/-- The request that a call emits. -/
def Call.emits : Call → Option EmitRequest
  | .emit _ _ _ _ request => some request
  | .emitReduce _ _ _ _ _ request => some request
  | _ => none

end Calls

variable {platform : Platform} {readPayload : String → Option Payload}

theorem toOption_map_eq_some {ε α β : Type} {result : Except ε α} {f : α → β} {value : β} :
    result.toOption.map f = some value ↔ ∃ made, result = .ok made ∧ f made = value := by
  cases result <;> simp [Except.toOption]

theorem called_emit {emitter : Emitter} {live : Bool} {now recordedAt : Int} {store : Store}
    {request : EmitRequest} {log : Log} {event : Event}
    (emitted : (emitter.emit platform live now recordedAt store.log request).2 = .ok (log, event)) :
    Called platform readPayload store (.emit emitter live now recordedAt request)
      { store with log := log } :=
  toOption_map_eq_some.mpr ⟨(log, event), emitted, rfl⟩

/-- An emit that is reduced in its transaction. -/
theorem called_emitReduce {live : Bool} {scan : Scan} {emitter : Emitter} {now recordedAt : Int}
    {store : Store} {request : EmitRequest} {log : Log} {event : Event} {projections : Projections}
    (done : (emitter.emit platform live now recordedAt store.log request).2 = .ok (log, event))
    (reduced : reduce log scan event store.projections = .ok projections) :
    Called platform readPayload store (.emitReduce scan emitter live now recordedAt request)
      { store with log := log, projections := projections } := by
  have performed : (emitReduce platform live scan emitter now recordedAt store request).2 =
      .ok ({ store with log := log, projections := projections }, event) := by
    unfold emitReduce
    simp only [done, reduced, bind, Except.bind]
    rfl
  exact toOption_map_eq_some.mpr ⟨_, performed, rfl⟩

/-- What a call has written: one emitted event, or what admission made of one batch. -/
inductive Wrote (platform : Platform) (readPayload : String → Option Payload) (store : Store)
    (call : Call) (next : Store) : Prop
  | emitted (emitter : Emitter) (now recordedAt : Int) (request : EmitRequest) (event : Event)
      (row : EventRow) (middle : Log) (requested : call.emits = some request)
      (emitted : Emitted platform emitter now recordedAt store.log request next.log event row middle)
      (projections : call.unreduced ∧ next.projections = store.projections ∨
        ∃ scan, reduce next.log scan event store.projections = .ok next.projections)
  | delivered (receiver : Receiver) (clock : Option HLC) (batch : List Event) (final : AdmitState)
      (offered : call.offers platform readPayload store receiver batch)
      (admitted : admitBatch platform receiver store clock batch = .ok final)
      (log : next.log = final.store.log) (projections : next.projections = final.store.projections)

theorem called_cases {store next : Store} {call : Call}
    (called : Called platform readPayload store call next) :
    Wrote platform readPayload store call next := by
  unfold Called at called
  cases call with
  | emit emitter live now recordedAt request =>
      obtain ⟨⟨log, event⟩, emitted, rfl⟩ := toOption_map_eq_some.mp called
      obtain ⟨row, middle, wrote⟩ := emit_ok emitted
      exact .emitted emitter now recordedAt request event row middle rfl wrote (.inl ⟨trivial, rfl⟩)
  | emitReduce scan emitter live now recordedAt request =>
      obtain ⟨⟨after, event⟩, done, rfl⟩ := toOption_map_eq_some.mp called
      simp only [emitReduce, bind_ok, pure_ok] at done
      obtain ⟨⟨log, minted⟩, emitted, projections, reduced, made⟩ := done
      obtain ⟨row, middle, wrote⟩ := emit_ok emitted
      cases made
      exact .emitted emitter now recordedAt request minted row middle rfl wrote
        (.inr ⟨scan, reduced⟩)
  | deliver receiver clock batch =>
      obtain ⟨final, admitted, rfl⟩ := toOption_map_eq_some.mp called
      exact .delivered receiver clock batch final ⟨rfl, rfl⟩ admitted rfl rfl
  | pull receiver clock source sourceTrust pullerNode =>
      obtain ⟨final, pulled, rfl⟩ := toOption_map_eq_some.mp called
      simp only [pull, bind_ok] at pulled
      obtain ⟨batch, served, admitted⟩ := pulled
      exact .delivered receiver clock batch final ⟨rfl, served⟩ admitted rfl rfl
  | archive receiver clock doc =>
      obtain ⟨final, imported, rfl⟩ := toOption_map_eq_some.mp called
      simp only [archiveImport, bind_ok, pure_ok] at imported
      obtain ⟨batch, verified, admitted, mapped, rfl⟩ := imported
      refine .delivered { receiver with requestedScopes := none } clock batch admitted
        ⟨rfl, verified⟩ ?_ rfl rfl
      cases result : admitBatch platform { receiver with requestedScopes := none } store clock
          batch with
      | error _ => rw [result] at mapped; cases mapped
      | ok value => rw [result] at mapped; cases mapped; rfl

/-- What every step of admission preserves holds at the end of a batch. -/
theorem admitBatch_invariant {receiver : Receiver} (Inv : AdmitState → Prop) {batch : List Event}
    (preserved : ∀ state event next, event ∈ batch → Inv state →
      AdmitStep platform receiver state event next → Inv next)
    {store : Store} {clock : Option HLC} {final : AdmitState}
    (holds : Inv (AdmitState.start store clock))
    (admitted : admitBatch platform receiver store clock batch = .ok final) : Inv final :=
  foldlM_invariant (fun state event next member held done =>
    preserved state event next member held (admitOne_ok done)) holds admitted

/-- Whatever a call does, what could be read before it can be read after it. -/
theorem called_keeps {store next : Store} {call : Call}
    (called : Called platform readPayload store call next) : store.log.Keeps next.log := by
  cases called_cases called with
  | emitted emitter now recordedAt request event row middle requested emitted _ =>
      exact emitted_keeps emitted
  | delivered receiver clock batch final offered admitted log _ =>
      rw [log]
      exact admitBatch_invariant (fun state => store.log.Keeps state.store.log)
        (fun _ _ _ _ kept step => kept.trans (admitStep_keeps step)) (.refl _) admitted

end Kawa
