import Kawa.Calls
import Kawa.Lib.Chain

/-!
The invariant that the writes carry: one gap-free hash chain for each origin, and each
event under the hash of its stored envelope.  An emit, an admission and an upgrade keep it.
-/

namespace Kawa

open Result

variable {platform : Platform} {readPayload : String → Option Payload}

def chainLinks : Links EventRow String String where
  origin := (·.originNode)
  seq := (·.originSeq)
  prev := (·.prevHash)
  hash := (·.selfHash)

/-- The row's id and self hash are the hash of the envelope it stores. -/
def EventRow.Hashed (platform : Platform) (row : EventRow) : Prop :=
  eventHash platform row.toHashedEnvelope = some row.eventId ∧ row.selfHash = row.eventId

/-- The invariant that the writes carry. -/
structure Log.Invariant (platform : Platform) (log : Log) : Prop where
  chained : chainLinks.Chained log.events.rows
  hashed : ∀ row ∈ log.events, row.Hashed platform

/-! ## The head of an origin -/

theorem head_mem {log : Log} {node : String} {last : EventRow} (found : log.head node = some last) :
    last ∈ log.events ∧ last.originNode = node :=
  chainLinks.head_mem found

theorem le_head {log : Log} {node : String} {last row : EventRow}
    (found : log.head node = some last) (member : row ∈ log.events)
    (same : row.originNode = node) : row.originSeq ≤ last.originSeq :=
  chainLinks.le_head found member same

theorem head_none {log : Log} {node : String} (found : log.head node = none) :
    ∀ row ∈ log.events, row.originNode ≠ node :=
  chainLinks.head_eq_none.mp found

/-- The head of an origin as admission reads it. -/
def Log.headMark (log : Log) (originNode : String) : Int × Option String :=
  match log.head originNode with
  | some row => (row.originSeq, some row.selfHash)
  | none => (0, none)

theorem headMark_ge {log : Log} {row : EventRow} (held : row ∈ log.events) :
    row.originSeq ≤ (log.headMark row.originNode).1 := by
  unfold Log.headMark
  cases found : log.head row.originNode with
  | none => exact absurd rfl (head_none found row held)
  | some last => exact le_head found held rfl

theorem follows_iff {log : Log} {row : EventRow} :
    chainLinks.Follows log.events.rows row ↔
      row.originSeq = (log.headMark row.originNode).1 + 1 ∧
        row.prevHash = (log.headMark row.originNode).2 := by
  have head : chainLinks.head log.events.rows (chainLinks.origin row) = log.head row.originNode := rfl
  unfold Links.Follows Log.headMark
  rw [head]
  cases log.head row.originNode <;> simp [chainLinks]

/-! ## Appending a row -/

/-- The row of a verified event whose subject is spelled as the column prints it. -/
theorem inserted_hashed {log next : Log} {event : Event} {materialized : Bool}
    {recordedAt : Int} {row : EventRow}
    (inserted : EventInserted platform log event materialized recordedAt row next)
    (subject : CanonicalRef platform event.subjectRef)
    (verified : event.verify platform = true) : row.Hashed platform := by
  obtain ⟨subjectRef, cast, rfl⟩ := inserted.envelope
  have checked := (Event.verify_iff _ _).mp verified
  obtain rfl := castSubject_canonical subject cast
  exact ⟨checked.eventId ▸ checked.selfHash, checked.eventId⟩

theorem Log.Invariant.append {log next : Log} {event : Event} {materialized : Bool}
    {recordedAt : Int} {row : EventRow} (invariant : log.Invariant platform)
    (inserted : EventInserted platform log event materialized recordedAt row next)
    (hashed : row.Hashed platform)
    (follows : chainLinks.Follows log.events.rows row) : next.Invariant platform := by
  refine ⟨?_, ?_⟩
  · rw [inserted.rows]
    exact invariant.chained.append follows
  · intro held member
    rcases inserted.mem_iff.mp member with old | rfl
    · exact invariant.hashed held old
    · exact hashed

theorem head_inserted {log next : Log} {event : Event} {materialized : Bool}
    {recordedAt : Int} {row : EventRow} (chained : chainLinks.Chained log.events.rows)
    (inserted : EventInserted platform log event materialized recordedAt row next)
    (follows : chainLinks.Follows log.events.rows row) (node : String) :
    next.head node = if row.originNode = node then some row else log.head node := by
  unfold Log.head
  rw [inserted.rows]
  exact chained.head_append follows node

/-- A local emit extends its own chain. -/
theorem emitted_follows {emitter : Emitter} {now recordedAt : Int} {log next middle : Log}
    {request : EmitRequest} {event : Event} {row : EventRow}
    (emitted : Emitted platform emitter now recordedAt log request next event row middle) :
    chainLinks.Follows log.events.rows row := by
  obtain ⟨subjectRef, _, rfl⟩ := emitted.inserted.envelope
  rw [follows_iff]
  dsimp only
  rw [emitted.minted.envelope]
  unfold Log.headMark nextEnvelope
  cases log.head emitter.identity.nodeRef <;> simp

/-! ## Upgrading a row -/

theorem upgradeRow_chained {log next : Log} {held : EventRow} {scopeRef : Option String}
    (chained : chainLinks.Chained log.events.rows)
    (upgraded : upgradeRow log held scopeRef = .ok next) :
    chainLinks.Chained next.events.rows := by
  rw [upgradeRow_rows upgraded]
  refine chained.map fun row => ?_
  split <;> exact ⟨rfl, rfl, rfl, rfl⟩

theorem upgradeRow_invariant {log next : Log} {held : EventRow} {scopeRef : Option String}
    (invariant : log.Invariant platform)
    (upgraded : upgradeRow log held scopeRef = .ok next) : next.Invariant platform := by
  refine ⟨upgradeRow_chained invariant.chained upgraded, ?_⟩
  intro row member
  rcases (upgradeRow_mem upgraded).mp member with ⟨old, inTable, _, rfl⟩ | ⟨inTable, _⟩
  · exact invariant.hashed old inTable
  · exact invariant.hashed row inTable

theorem upgradeRow_headMark {log next : Log} {held : EventRow} {scopeRef : Option String}
    (upgraded : upgradeRow log held scopeRef = .ok next) (node : String) :
    next.headMark node = log.headMark node := by
  have mapped : chainLinks.head (log.events.rows.map fun row =>
      if row.eventId = held.eventId then row.upgraded scopeRef else row) node =
        (chainLinks.head log.events.rows node).map fun row =>
          if row.eventId = held.eventId then row.upgraded scopeRef else row :=
    Links.head_map (fun row => by split <;> rfl) (fun row => by split <;> rfl) node
  rw [← upgradeRow_rows upgraded] at mapped
  have moved : next.head node = (log.head node).map _ := mapped
  unfold Log.headMark
  rw [moved]
  cases log.head node with
  | none => rfl
  | some row =>
      simp only [Option.map_some]
      split <;> rfl

/-! ## One batch -/

/-- The heads that admission carries are those of the log. -/
def HeadsAgree (state : AdmitState) : Prop :=
  ∀ node, state.head node = state.store.log.headMark node

theorem headsAgree_start (store : Store) (clock : Option HLC) :
    HeadsAgree (AdmitState.start store clock) := by
  intro node
  have found : store.log.heads.get? node =
      if node ∈ store.log.origins then (store.log.head node).map fun row =>
        (row.originSeq, row.selfHash) else none := by
    rw [← Dict.get?_filterMap (fun other => (store.log.head other).map fun row =>
      (row.originSeq, row.selfHash)) store.log.origins node]
    unfold Log.heads
    congr 2
    funext other
    cases store.log.head other <;> rfl
  unfold AdmitState.head Log.headMark AdmitState.start
  rw [found]
  by_cases listed : node ∈ store.log.origins
  · rw [if_pos listed]
    cases store.log.head node <;> rfl
  · have empty : chainLinks.head store.log.events.rows node = none := by
      refine Links.head_eq_none.mpr fun row member same => listed ?_
      exact (List.mem_insertionSort _).mpr (List.mem_dedup.mpr (List.mem_map.mpr ⟨row, member, same⟩))
    rw [if_neg listed, show store.log.head node = none from empty]

/-- Everything that admission may store of an event keeps its hashed envelope. -/
theorem StoredAs.same {receiver : Receiver} {event stored : Event}
    (form : StoredAs receiver event stored) :
    stored.toHashedEnvelope = event.toHashedEnvelope ∧ stored.eventId = event.eventId ∧
      stored.selfHash = event.selfHash ∧ stored.signature = event.signature ∧
      stored.signingKeyRef = event.signingKeyRef ∧
      stored.signatureScheme = event.signatureScheme := by
  cases form with
  | whole _ => exact ⟨rfl, rfl, rfl, rfl, rfl, rfl⟩
  | stub full _ =>
      unfold withhold
      rw [full]
      exact ⟨rfl, rfl, rfl, rfl, rfl, rfl⟩

theorem StoredAs.position {receiver : Receiver} {event stored : Event}
    (form : StoredAs receiver event stored) :
    stored.originNode = event.originNode ∧ stored.originSeq = event.originSeq := by
  obtain ⟨envelope, _⟩ := form.same
  rw [envelope]
  exact ⟨rfl, rfl⟩

theorem withhold_verify {event : Event} (verified : event.verify platform = true) :
    (withhold event).verify platform = true := by
  have checked := (Event.verify_iff _ _).mp verified
  unfold withhold
  split
  · exact verified
  · rw [Event.verify_iff]
    exact {
      version := checked.version
      scopeless := fun one => ⟨rfl, (checked.scopeless one).2⟩
      scopeOpens := rfl
      payloadDigest := rfl
      selfHash := checked.selfHash
      eventId := checked.eventId }

theorem StoredAs.verify {receiver : Receiver} {event stored : Event}
    (form : StoredAs receiver event stored) (verified : event.verify platform = true) :
    stored.verify platform = true := by
  cases form with
  | whole _ => exact verified
  | stub _ _ => exact withhold_verify verified

/-- The row of an insertion carries the envelope of its event, subject apart. -/
theorem EventInserted.links {log next : Log} {event : Event} {materialized : Bool}
    {recordedAt : Int} {row : EventRow}
    (inserted : EventInserted platform log event materialized recordedAt row next) :
    row.originNode = event.originNode ∧ row.originSeq = event.originSeq ∧
      row.prevHash = event.prevHash ∧ row.selfHash = event.selfHash := by
  obtain ⟨_, _, rfl⟩ := inserted.envelope
  exact ⟨rfl, rfl, rfl, rfl⟩

theorem Stored.log {receiver : Receiver} {store next : Store} {event : Event}
    (write : Stored platform receiver store event next) :
    ∃ middle row, EventInserted platform store.log event (!event.isStub)
      (receiver.ambient.recordedAt event.eventId) row middle ∧
        next.log.events = middle.events := by
  obtain ⟨middle, row, inserted, ⟨_, same, _⟩ | ⟨payload, _, written, _⟩⟩ := write.written
  · exact ⟨middle, row, inserted, by rw [same]⟩
  · exact ⟨middle, row, inserted, insertPayload_events written⟩

theorem Log.Invariant.congr {left right : Log} (same : right.events = left.events)
    (invariant : left.Invariant platform) : right.Invariant platform := by
  constructor
  · rw [same]; exact invariant.chained
  · rw [same]; exact invariant.hashed

theorem headMark_congr {left right : Log} (same : right.events = left.events) (node : String) :
    right.headMark node = left.headMark node := by
  unfold Log.headMark Log.head
  rw [same]

theorem headMark_inserted {log next : Log} {event : Event} {materialized : Bool} {recordedAt : Int}
    {row : EventRow}
    (inserted : EventInserted platform log event materialized recordedAt row next)
    (beyond : (log.headMark row.originNode).1 < row.originSeq) (node : String) :
    next.headMark node =
      if row.originNode = node then (row.originSeq, some row.selfHash) else log.headMark node := by
  have member : row ∈ next.events := inserted.mem_iff.mpr (.inr rfl)
  by_cases same : row.originNode = node
  · subst same
    rw [if_pos rfl]
    unfold Log.headMark
    cases found : next.head row.originNode with
    | none => exact absurd rfl (head_none found row member)
    | some last =>
        obtain ⟨held, named⟩ := head_mem found
        have top := le_head found member rfl
        rcases inserted.mem_iff.mp held with old | rfl
        · have below := headMark_ge old
          rw [named] at below
          omega
        · rfl
  · rw [if_neg same]
    have kept : next.head node = log.head node := by
      unfold Log.head
      rw [inserted.rows, List.filter_append]
      simp [same]
    unfold Log.headMark
    rw [kept]

/-- The heads a pass carries stay those of its log. -/
theorem admitStep_headsAgree {receiver : Receiver} {state next : AdmitState} {event : Event} (agree : HeadsAgree state)
    (step : AdmitStep platform receiver state event next) : HeadsAgree next := by
  cases step with
  | kept log _ heads _ =>
      intro node
      rw [log, ← agree node]
      simp only [AdmitState.head, heads]
  | upgraded held upgrade heads _ =>
      obtain ⟨payload, middle, _, row, written, _⟩ := upgrade.written
      intro node
      rw [headMark_congr (insertPayload_events written), upgradeRow_headMark row, ← agree node]
      simp only [AdmitState.head, heads]
  | inserted stored passed form write heads _ =>
      obtain ⟨middle, row, inserted, same⟩ := write.log
      obtain ⟨storedNode, storedSeq⟩ := form.position
      obtain ⟨node, seq, _, selfHash⟩ := inserted.links
      have beyond : (state.store.log.headMark row.originNode).1 < row.originSeq := by
        rw [node, seq, storedNode, storedSeq, ← agree, passed.next]
        exact Int.lt_succ _
      intro other
      rw [headMark_congr same, headMark_inserted inserted beyond, node, seq, selfHash]
      unfold AdmitState.head
      rw [heads]
      by_cases moved : stored.originNode = other
      · rw [if_pos moved, ← moved, Dict.get?_set_self]
      · rw [if_neg moved, Dict.get?_set_ne _ _ (Ne.symm moved)]
        exact agree other

/-- One delivered event keeps the chains and the heads. -/
theorem admitStep_chained {receiver : Receiver} {state next : AdmitState} {event : Event}
    (holds : chainLinks.Chained state.store.log.events.rows ∧ HeadsAgree state)
    (step : AdmitStep platform receiver state event next) :
    chainLinks.Chained next.store.log.events.rows ∧ HeadsAgree next := by
  obtain ⟨chained, agree⟩ := holds
  refine ⟨?_, admitStep_headsAgree agree step⟩
  cases step with
  | kept log _ _ _ =>
      rw [log]
      exact chained
  | upgraded held upgrade _ _ =>
      obtain ⟨payload, middle, _, row, written, _⟩ := upgrade.written
      rw [insertPayload_events written]
      exact upgradeRow_chained chained row
  | inserted stored passed form write _ _ =>
      obtain ⟨middle, row, inserted, same⟩ := write.log
      obtain ⟨envelope, _, _, _⟩ := form.same
      obtain ⟨node, seq, prev, _⟩ := inserted.links
      have follows : chainLinks.Follows state.store.log.events.rows row := by
        rw [follows_iff, node, seq, prev, envelope, ← agree]
        exact ⟨passed.next, passed.chained⟩
      rw [same, inserted.rows]
      exact chained.append follows

/-- One delivered event keeps the invariant and the heads. -/
theorem admitStep_invariant {receiver : Receiver} {state next : AdmitState} {event : Event}
    (subject : CanonicalRef platform event.subjectRef)
    (holds : state.store.log.Invariant platform ∧ HeadsAgree state)
    (step : AdmitStep platform receiver state event next) :
    next.store.log.Invariant platform ∧ HeadsAgree next := by
  obtain ⟨invariant, agree⟩ := holds
  obtain ⟨chained, agreeNext⟩ := admitStep_chained ⟨invariant.chained, agree⟩ step
  refine ⟨⟨chained, ?_⟩, agreeNext⟩
  cases step with
  | kept log _ _ _ =>
      rw [log]
      exact invariant.hashed
  | upgraded held upgrade _ _ =>
      obtain ⟨payload, middle, _, row, written, _⟩ := upgrade.written
      rw [insertPayload_events written]
      exact (upgradeRow_invariant invariant row).hashed
  | inserted stored passed form write _ _ =>
      obtain ⟨middle, row, inserted, same⟩ := write.log
      obtain ⟨envelope, _, _, _⟩ := form.same
      have hashed : row.Hashed platform :=
        inserted_hashed inserted (by rw [envelope]; exact subject) (form.verify passed.verified)
      rw [same]
      intro held member
      rcases inserted.mem_iff.mp member with old | rfl
      · exact invariant.hashed held old
      · exact hashed

theorem admitBatch_invariant_log {receiver : Receiver} {store : Store} {clock : Option HLC}
    {batch : List Event} {final : AdmitState} (invariant : store.log.Invariant platform)
    (subjects : ∀ event ∈ batch, CanonicalRef platform event.subjectRef)
    (admitted : admitBatch platform receiver store clock batch = .ok final) :
    final.store.log.Invariant platform :=
  (admitBatch_invariant (fun state => state.store.log.Invariant platform ∧ HeadsAgree state)
    (fun _ event _ member holds step => admitStep_invariant (subjects event member) holds step)
    ⟨invariant, headsAgree_start store clock⟩ admitted).1

end Kawa
