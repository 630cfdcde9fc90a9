import Kawa.FrozenOrigin
import Kawa.OfferRetention
import Kawa.OriginBooks

/-!
Two stores that hold different events at one position of an origin, and what pulls between
them can learn of it: the stream of a pull never reaches a held position, so that only a
payload backfill can show a rival.
-/

namespace Kawa

open Result

variable {platform : Platform} {readPayload : String → Option Payload} {receiver : Receiver}

/-! ## Chains of one origin in two logs -/

/-- What every write keeps, however the subjects are spelled. -/
structure Log.Threaded (platform : Platform) (log : Log) : Prop where
  chained : chainLinks.Chained log.events.rows
  stemmed : log.Stemmed platform

theorem called_chained {store next : Store} {call : Call}
    (chained : chainLinks.Chained store.log.events.rows)
    (called : Called platform readPayload store call next) :
    chainLinks.Chained next.log.events.rows := by
  cases called_cases called with
  | emitted emitter now recordedAt request event row middle requested emitted _ =>
      rw [insertPayload_events emitted.payload, emitted.inserted.rows]
      exact chained.append (emitted_follows emitted)
  | delivered receiver clock batch final offered admitted log _ =>
      rw [log]
      exact (admitBatch_invariant
        (fun state => chainLinks.Chained state.store.log.events.rows ∧ HeadsAgree state)
        (fun _ _ _ _ holds step => admitStep_chained holds step)
        ⟨chained, headsAgree_start store clock⟩ admitted).1

theorem called_threaded (collisionFree : CollisionFree platform) {store next : Store} {call : Call}
    (threaded : store.log.Threaded platform)
    (called : Called platform readPayload store call next) : next.log.Threaded platform :=
  ⟨called_chained threaded.chained called, called_stemmed collisionFree threaded.stemmed called⟩

theorem run_threaded (collisionFree : CollisionFree platform) {calls : List Call} {store : Store}
    (run : Run (Called platform readPayload) {} calls store) : store.log.Threaded platform :=
  run.invariant (fun store => store.log.Threaded platform)
    (fun _ _ _ held called => called_threaded collisionFree held called)
    ⟨Links.chained_nil, empty_stemmed⟩

theorem stems_selfHash {row : EventRow} {source : Event} (stems : row.StemsFrom source)
    (verified : source.verify platform = true) :
    row.selfHash = row.eventId ∧ row.eventId = source.eventId ∧ row.prevHash = source.prevHash ∧
      row.originSeq = source.originSeq := by
  have checked := (Event.verify_iff _ _).mp verified
  unfold EventRow.StemsFrom at stems
  rw [stems]
  exact ⟨checked.eventId, rfl, rfl, rfl⟩

/-- A self hash binds the position and the predecessor. -/
theorem threaded_binding (collisionFree : CollisionFree platform) {left right : Log}
    (leftThreaded : left.Threaded platform) (rightThreaded : right.Threaded platform) :
    ∀ leftRow ∈ left.events.rows, ∀ rightRow ∈ right.events.rows,
      leftRow.selfHash = rightRow.selfHash →
        leftRow.originSeq = rightRow.originSeq ∧ leftRow.prevHash = rightRow.prevHash := by
  intro leftRow leftHeld rightRow rightHeld hash
  obtain ⟨leftSource, leftVerified, leftStems⟩ := leftThreaded.stemmed leftRow leftHeld
  obtain ⟨rightSource, rightVerified, rightStems⟩ := rightThreaded.stemmed rightRow rightHeld
  obtain ⟨leftHash, leftId, leftPrev, leftSeq⟩ := stems_selfHash leftStems leftVerified
  obtain ⟨rightHash, rightId, rightPrev, rightSeq⟩ := stems_selfHash rightStems rightVerified
  have sameId : leftSource.eventId = rightSource.eventId := by
    rw [← leftId, ← rightId, ← leftHash, ← rightHash]
    exact hash
  obtain ⟨same, _⟩ := verified_sameEnvelope collisionFree leftVerified rightVerified sameId
  exact ⟨leftSeq.trans (same.originSeq.trans rightSeq.symm),
    leftPrev.trans (same.prevHash.trans rightPrev.symm)⟩

/-- The logs hold different events at one position of the origin. -/
def Forked (origin : String) (left right : Log) : Prop :=
  ∃ leftRow ∈ left.events, ∃ rightRow ∈ right.events,
    leftRow.originNode = origin ∧ rightRow.originNode = origin ∧
      leftRow.originSeq = rightRow.originSeq ∧ leftRow.eventId ≠ rightRow.eventId

theorem Forked.symm {origin : String} {left right : Log} (forked : Forked origin left right) :
    Forked origin right left := by
  obtain ⟨leftRow, leftHeld, rightRow, rightHeld, leftNode, rightNode, seq, ids⟩ := forked
  exact ⟨rightRow, rightHeld, leftRow, leftHeld, rightNode, leftNode, seq.symm, ids.symm⟩

/-- Above a fork the branches share no event. -/
theorem Forked.apart (collisionFree : CollisionFree platform) {origin : String} {left right : Log}
    (leftThreaded : left.Threaded platform) (rightThreaded : right.Threaded platform)
    (forked : Forked origin left right) {leftHead : EventRow}
    (found : left.head origin = some leftHead) {rightRow : EventRow}
    (rightHeld : rightRow ∈ right.events) (rightNode : rightRow.originNode = origin) :
    rightRow.selfHash ≠ leftHead.selfHash := by
  intro hash
  obtain ⟨lower, lowerHeld, other, otherHeld, lowerNode, otherNode, seq, ids⟩ := forked
  obtain ⟨headHeld, headNode⟩ := head_mem found
  have binding := threaded_binding collisionFree leftThreaded rightThreaded
  have same : lower.selfHash = other.selfHash :=
    leftThreaded.chained.agree_below rightThreaded.chained binding headHeld rightHeld
      (headNode.trans rightNode.symm) hash.symm lowerHeld otherHeld (lowerNode.trans headNode.symm)
      (otherNode.trans headNode.symm) seq (le_head found lowerHeld lowerNode)
  obtain ⟨source, verified, stems⟩ := leftThreaded.stemmed lower lowerHeld
  obtain ⟨otherSource, otherVerified, otherStems⟩ := rightThreaded.stemmed other otherHeld
  refine ids ?_
  rw [← (stems_selfHash stems verified).1, ← (stems_selfHash otherStems otherVerified).1]
  exact same

/-! ## What a pull serves of one origin -/

theorem rebuildEvent_envelope {log : Log} {row : EventRow} {event : Event}
    (rebuilt : rebuildEvent platform log row = .ok event) : event.toEnvelope = row.toEnvelope := by
  unfold rebuildEvent at rebuilt
  split_ifs at rebuilt
  · simp only [bind_ok, pure_ok] at rebuilt
    obtain ⟨payload, _, rfl⟩ := rebuilt
    rfl
  · cases rebuilt
    rfl

theorem frontier_get? {log : Log} {origin : String} :
    (frontier log).get? origin =
      if origin ∈ log.origins then some (log.headSeq origin) else none := by
  unfold frontier
  rw [← List.filterMap_eq_map, ← Dict.get?_filterMap (fun node => some (log.headSeq node))]
  rfl

theorem headSeq_eq {log : Log} (origin : String) :
    log.headSeq origin = (log.headMark origin).1 := by
  unfold Log.headSeq Log.headMark
  cases log.head origin <;> rfl

theorem frontier_getD {log : Log} (origin : String) :
    ((frontier log).get? origin).getD 0 = log.headSeq origin := by
  rw [frontier_get?]
  by_cases listed : origin ∈ log.origins
  · rw [if_pos listed]
    rfl
  · rw [if_neg listed]
    have empty : chainLinks.head log.events.rows origin = none := by
      refine Links.head_eq_none.mpr fun row member same => listed ?_
      exact (List.mem_insertionSort _).mpr (List.mem_dedup.mpr (List.mem_map.mpr ⟨row, member, same⟩))
    unfold Log.headSeq
    rw [show log.head origin = none from empty]
    rfl

/-- A stream holds events of its source beyond the frontier it was asked for. -/
theorem mem_readStream_beyond {log : Log} {after : Dict String Int} {events : List Event}
    {event : Event} (read : readStream platform log after = .ok events) (member : event ∈ events) :
    ∃ row ∈ log.events, event.toEnvelope = row.toEnvelope ∧
      (after.get? event.originNode).getD 0 < event.originSeq := by
  simp only [readStream, bind_ok, pure_ok] at read
  obtain ⟨streams, mapped, rfl⟩ := read
  obtain ⟨stream, inStreams, inStream⟩ := List.mem_flatten.mp member
  obtain ⟨⟨node, top⟩, _, made⟩ := mem_mapM mapped inStreams
  dsimp only at made
  split at made
  · cases made
    cases inStream
  · obtain ⟨row, held, rebuilt⟩ := mem_mapM made inStream
    obtain ⟨inLog, range⟩ := List.mem_filter.mp ((List.mem_insertionSort _).mp held)
    obtain ⟨named, beyond⟩ := of_decide_eq_true range
    have envelope := rebuildEvent_envelope rebuilt
    refine ⟨row, inLog, envelope, ?_⟩
    rw [envelope, named]
    exact beyond

/-- A stream has events of an origin where its source has a longer branch. -/
theorem readStream_origin {log : Log} {after : Dict String Int} {events : List Event}
    {origin : String} (read : readStream platform log after = .ok events)
    (longer : (after.get? origin).getD 0 < log.headSeq origin)
    (held : ∃ row ∈ log.events, row.originNode = origin) :
    ∃ event ∈ events, event.originNode = origin := by
  simp only [readStream, bind_ok, pure_ok] at read
  obtain ⟨streams, mapped, rfl⟩ := read
  obtain ⟨row, inLog, named⟩ := held
  have listed : (origin, log.headSeq origin) ∈ frontier log :=
    List.mem_map_of_mem ((List.mem_insertionSort _).mpr
      (List.mem_dedup.mpr (List.mem_map.mpr ⟨row, inLog, named⟩)))
  obtain ⟨stream, inStreams, made⟩ := mapM_mem mapped listed
  dsimp only at made
  rw [if_neg (not_le.mpr longer)] at made
  obtain ⟨last, found⟩ : ∃ last, log.head origin = some last := by
    cases found : log.head origin with
    | none => exact absurd named (head_none found row inLog)
    | some last => exact ⟨last, rfl⟩
  obtain ⟨lastHeld, lastNamed⟩ := head_mem found
  have top : log.headSeq origin = last.originSeq := by
    unfold Log.headSeq
    rw [found]
    rfl
  have ranged : last ∈ log.originRows origin ((after.get? origin).getD 0) := by
    refine (List.mem_insertionSort _).mpr (List.mem_filter.mpr ⟨lastHeld, decide_eq_true ?_⟩)
    exact ⟨lastNamed, top ▸ longer⟩
  obtain ⟨event, inStream, rebuilt⟩ := mapM_mem made ranged
  refine ⟨event, List.mem_flatten.mpr ⟨stream, inStreams, inStream⟩, ?_⟩
  rw [rebuildEvent_envelope rebuilt]
  exact lastNamed

/-! ## What a pass learns of one origin -/

/-- Evidence that freezes the origin is recorded. -/
def Store.Convicts (store : Store) (origin : String) : Prop :=
  ∃ evidence ∈ store.security.forkEvidence, evidence.originNode = origin ∧ evidence.frozen = true

/-- The delivered event is the one held at its position. -/
def Log.Holds (log : Log) (event : Event) : Prop :=
  ∃ row, log.rowAt event.originNode event.originSeq = some row ∧ row.eventId = event.eventId

/-- A rival of a held event whose key is active, and that no evidence names already. -/
structure Receiver.Contests (platform : Platform) (receiver : Receiver) (dest : Store)
    (event : Event) : Prop where
  other : ∃ row, dest.log.rowAt event.originNode event.originSeq = some row ∧
    row.eventId ≠ event.eventId
  authentic : (receiver.rivalKey platform event).isSome = true
  fresh : dest.security.forkEvidence.holds
    (event.originNode, event.originSeq, event.selfHash) = false

/-- The first event of the origin that the store does not hold is a rival. -/
def Receiver.Meets (platform : Platform) (receiver : Receiver) (dest : Store) (origin : String)
    (batch : List Event) : Prop :=
  ∃ before rival after, batch = before ++ rival :: after ∧ rival.originNode = origin ∧
    receiver.Contests platform dest rival ∧
    ∀ event ∈ before, event.originNode = origin → dest.log.Holds event

theorem meets_cons {dest : Store} {origin : String} {event : Event} {batch : List Event} :
    receiver.Meets platform dest origin (event :: batch) ↔
      (event.originNode = origin ∧ receiver.Contests platform dest event) ∨
        ((event.originNode = origin → dest.log.Holds event) ∧
          receiver.Meets platform dest origin batch) := by
  constructor
  · rintro ⟨before, rival, after, split, named, contests, held⟩
    cases before with
    | nil =>
        cases split
        exact .inl ⟨named, contests⟩
    | cons first before =>
        cases split
        exact .inr ⟨held event List.mem_cons_self, before, rival, after, rfl, named, contests,
          fun other listed => held other (List.mem_cons_of_mem _ listed)⟩
  · rintro (⟨named, contests⟩ | ⟨first, before, rival, after, rfl, named, contests, held⟩)
    · exact ⟨[], event, batch, rfl, named, contests, fun other listed => (by cases listed)⟩
    · refine ⟨event :: before, rival, after, rfl, named, contests, fun other listed => ?_⟩
      rcases List.mem_cons.mp listed with rfl | later
      · exact first
      · exact held other later

/-- The evidence after a verdict. -/
theorem act_evidence {state next : AdmitState} {event : Event} {verdict : Verdict}
    (done : act platform receiver state event verdict = .ok next) :
    (∃ held rivalKey, verdict = .freeze held rivalKey ∧
      next.store.security.forkEvidence = state.store.security.forkEvidence.insertNew
        (forkEvidence receiver.trust held event rivalKey)) ∨
    (verdict.freezes = false ∧
      next.store.security.forkEvidence = state.store.security.forkEvidence) := by
  cases verdict with
  | raise => cases done
  | keep =>
      cases done
      exact .inr ⟨rfl, rfl⟩
  | reject reason =>
      cases done
      exact .inr ⟨rfl, rfl⟩
  | report reason =>
      cases done
      exact .inr ⟨rfl, rfl⟩
  | freeze held rivalKey =>
      simp only [act, bind_ok, pure_ok] at done
      obtain ⟨_, _, rfl⟩ := done
      exact .inl ⟨held, rivalKey, rfl, rfl⟩
  | upgrade held payload =>
      simp only [act, bind_ok, pure_ok] at done
      obtain ⟨_, _, store, wrote, rfl⟩ := done
      obtain ⟨_, _, security⟩ := materialize_ok wrote
      refine .inr ⟨rfl, ?_⟩
      dsimp only
      rw [security]
  | insert =>
      refine .inr ⟨rfl, ?_⟩
      unfold act admitNext at done
      split_ifs at done
      · exact (insertAdmitted_evidence done).2
      · exact (insertAdmitted_evidence done).2

/-- An event of another origin leaves the evidence of this one alone. -/
theorem act_evidence_other {state next : AdmitState} {event : Event} {verdict : Verdict}
    {origin : String} (quiet : event.originNode ≠ origin ∨ verdict.freezes = false)
    (done : act platform receiver state event verdict = .ok next) {evidence : ForkEvidence}
    (named : evidence.originNode = origin) :
    evidence ∈ next.store.security.forkEvidence ↔
      evidence ∈ state.store.security.forkEvidence := by
  rcases act_evidence done with ⟨held, rivalKey, rfl, same⟩ | ⟨_, same⟩
  · have foreign := quiet.resolve_right (by simp [Verdict.freezes])
    rw [same, Table.mem_insertNew]
    constructor
    · rintro (old | ⟨rfl, _⟩)
      · exact old
      · exact absurd named foreign
    · exact .inl
  · rw [same]

theorem find_rowsAfter_id {event : Event} {subjectRef : Option String} {verdict : Verdict}
    {origin : String} (quiet : event.originNode ≠ origin ∨ verdict.inserts = false)
    (rows : List EventRow) (seq : Int) :
    ((rowsAfter receiver event subjectRef rows verdict).find? (atPosition origin seq)).map
        (·.eventId) = (rows.find? (atPosition origin seq)).map (·.eventId) := by
  cases verdict with
  | insert =>
      obtain ⟨envelope, _⟩ := (storedForm_storedAs receiver event).same
      have elsewhere : (receiver.storedForm event).originNode ≠ origin := by
        rw [envelope]
        exact quiet.resolve_right (by simp [Verdict.inserts])
      rw [rowsAfter, List.find?_append]
      simp [atPosition, elsewhere]
  | upgrade held payload =>
      rw [find_rowsAfter_upgrade, Option.map_map]
      congr 1
      funext row
      simp only [Function.comp]
      split_ifs <;> rfl
  | _ => rfl

/-- So far the pass knows of the origin what the store knew before it. -/
structure Calm (dest : Store) (origin : String) (state : AdmitState) : Prop where
  thawed : origin ∉ state.frozen
  clean : origin ∉ state.poisoned
  head : state.head origin = dest.log.headMark origin
  held : ∀ seq, (state.store.log.rowAt origin seq).map (·.eventId) =
    (dest.log.rowAt origin seq).map (·.eventId)
  evidence : ∀ evidence : ForkEvidence, evidence.originNode = origin →
    (evidence ∈ state.store.security.forkEvidence ↔ evidence ∈ dest.security.forkEvidence)

theorem calm_start {store : Store} {origin : String} (innocent : ¬ store.Convicts origin)
    (clock : Option HLC) : Calm store origin (AdmitState.start store clock) where
  thawed := by
    refine start_thawed clock fun row held frozen named => innocent ?_
    exact ⟨row, held, named, frozen⟩
  clean := List.not_mem_nil
  head := headsAgree_start store clock origin
  held seq := rfl
  evidence evidence _ := Iff.rfl

theorem Calm.quiet {dest : Store} {origin : String} {state next : AdmitState} {event : Event}
    {verdict : Verdict} (calm : Calm dest origin state)
    (quiet : event.originNode ≠ origin ∨
      (verdict.freezes = false ∧ verdict.poisons = false ∧ verdict.inserts = false))
    (done : act platform receiver state event verdict = .ok next) : Calm dest origin next := by
  have acted := act_acted done
  obtain ⟨⟨subjectRef, _, rows⟩, _, heads⟩ := act_rows done
  constructor
  · rw [acted.frozen]
    rcases quiet with foreign | ⟨freezes, _⟩
    · split_ifs
      · simp [calm.thawed, Ne.symm foreign]
      · exact calm.thawed
    · rw [freezes]
      exact calm.thawed
  · rw [acted.poisoned]
    rcases quiet with foreign | ⟨_, poisons, _⟩
    · split_ifs
      · simp [calm.clean, Ne.symm foreign]
      · exact calm.clean
    · rw [poisons]
      exact calm.clean
  · rw [heads origin, if_neg ?_]
    · exact calm.head
    · rintro ⟨inserts, mine⟩
      rcases quiet with foreign | ⟨_, _, never⟩
      · exact foreign mine
      · rw [never] at inserts
        cases inserts
  · intro seq
    rw [← calm.held seq]
    change (next.store.log.events.rows.find? (atPosition origin seq)).map (·.eventId) =
      (state.store.log.events.rows.find? (atPosition origin seq)).map (·.eventId)
    rw [rows]
    exact find_rowsAfter_id (quiet.imp_right fun silent => silent.2.2) _ seq
  · intro evidence named
    rw [act_evidence_other (quiet.imp_right fun silent => silent.1) done named]
    exact calm.evidence evidence named

theorem rowAt_named {log : Log} {origin : String} {seq : Int} {row : EventRow}
    (found : log.rowAt origin seq = some row) :
    row.originNode = origin ∧ row.originSeq = seq := by
  have here := List.find?_some found
  simpa only [decide_eq_true_eq] using here

/-- What an event of the origin does to a pass that knows no more of it than the store. -/
inductive Told (platform : Platform) (receiver : Receiver) (dest : Store) (origin : String)
    (event : Event) (next : AdmitState) : Prop
  | redelivered (holds : dest.log.Holds event) (calm : Calm dest origin next)
  | convicted (contests : receiver.Contests platform dest event)
      (convicts : next.store.Convicts origin)
  | halted (unheld : ¬ dest.log.Holds event) (idle : ¬ receiver.Contests platform dest event)
      (halted : origin ∈ next.frozen ∨ origin ∈ next.poisoned)
      (evidence : ∀ evidence : ForkEvidence, evidence.originNode = origin →
        (evidence ∈ next.store.security.forkEvidence ↔
          evidence ∈ dest.security.forkEvidence))

theorem Calm.rejected {dest : Store} {origin : String} {state next : AdmitState} {event : Event}
    {reason : String} (calm : Calm dest origin state) (mine : event.originNode = origin)
    (unheld : ¬ dest.log.Holds event) (idle : ¬ receiver.Contests platform dest event)
    (done : act platform receiver state event (.reject reason) = .ok next) :
    Told platform receiver dest origin event next := by
  cases done
  refine .halted unheld idle (.inr ?_) calm.evidence
  rw [← mine]
  exact List.mem_cons_self

/-- At a held position. -/
theorem Calm.below {dest : Store} {origin : String} {state next : AdmitState} {event : Event}
    (calm : Calm dest origin state) (mine : event.originNode = origin)
    (done : act platform receiver state event (receiver.heldVerdict platform
      (state.store.log.rowAt event.originNode event.originSeq) event) = .ok next) :
    Told platform receiver dest origin event next := by
  have same := calm.held event.originSeq
  rw [← mine] at same
  by_cases stored : storableText event.originNode = false
  · unfold Receiver.heldVerdict at done
    rw [if_pos stored] at done
    cases done
  cases found : state.store.log.rowAt event.originNode event.originSeq with
  | none =>
      rw [found] at same done
      have empty : dest.log.rowAt event.originNode event.originSeq = none :=
        Option.map_eq_none_iff.mp same.symm
      unfold Receiver.heldVerdict at done
      rw [if_neg stored] at done
      refine calm.rejected mine ?_ ?_ done
      · rintro ⟨row, held, _⟩
        rw [empty] at held
        cases held
      · rintro ⟨⟨row, held, _⟩, _, _⟩
        rw [empty] at held
        cases held
  | some held =>
      rw [found, Option.map_some] at same
      obtain ⟨row, destFound, ids⟩ := Option.map_eq_some_iff.mp same.symm
      rw [found] at done
      by_cases sameId : held.eventId = event.eventId
      · refine .redelivered ⟨row, destFound, ids.trans sameId⟩ (calm.quiet (.inr ?_) done)
        unfold Receiver.heldVerdict
        simp only [if_neg stored, if_pos sameId]
        cases event.payload with
        | none => exact ⟨rfl, rfl, rfl⟩
        | some payload =>
            dsimp only
            split_ifs <;> exact ⟨rfl, rfl, rfl⟩
      · have differs : row.eventId ≠ event.eventId := fun named => sameId (ids.symm.trans named)
        have unheld : ¬ dest.log.Holds event := by
          rintro ⟨other, otherFound, named⟩
          rw [destFound] at otherFound
          cases otherFound
          exact differs named
        unfold Receiver.heldVerdict at done
        simp only [if_neg stored, if_neg sameId] at done
        cases rival : receiver.rivalKey platform event with
        | none =>
            rw [rival] at done
            refine calm.rejected mine unheld ?_ done
            intro contests
            have authentic := contests.authentic
            rw [rival] at authentic
            cases authentic
        | some rivalKey =>
            rw [rival] at done
            simp only [act, bind_ok, pure_ok] at done
            obtain ⟨_, _, rfl⟩ := done
            let evidence := forkEvidence receiver.trust held event rivalKey
            have sameFresh : state.store.security.forkEvidence.holds
                (event.originNode, event.originSeq, event.selfHash) = false ↔
                dest.security.forkEvidence.holds
                  (event.originNode, event.originSeq, event.selfHash) = false := by
              rw [Table.holds_eq_false, Table.holds_eq_false]
              constructor
              · intro fresh old listed key
                have named : old.originNode = origin := (congrArg Prod.fst key).trans mine
                exact fresh old ((calm.evidence old named).mpr listed) key
              · intro fresh old listed key
                have named : old.originNode = origin := (congrArg Prod.fst key).trans mine
                exact fresh old ((calm.evidence old named).mp listed) key
            by_cases fresh : dest.security.forkEvidence.holds
                (event.originNode, event.originSeq, event.selfHash) = false
            · refine .convicted ⟨⟨row, destFound, differs⟩, by rw [rival]; rfl, fresh⟩ ?_
              exact ⟨evidence, Table.mem_insertNew.mpr (.inr ⟨rfl, sameFresh.mpr fresh⟩), mine, rfl⟩
            · refine .halted unheld (fun contests => fresh contests.fresh) (.inl ?_) ?_
              · rw [← mine]
                exact List.mem_cons_self
              · intro old named
                rw [← calm.evidence old named]
                refine Table.mem_insertNew.trans ⟨?_, .inl⟩
                rintro (listed | ⟨_, new⟩)
                · exact listed
                · exact absurd (sameFresh.mp new) fresh

theorem rowAt_beyond {log : Log} {origin : String} {event : Event}
    (mine : event.originNode = origin) (beyond : (log.headMark origin).1 < event.originSeq)
    (row : EventRow) : log.rowAt event.originNode event.originSeq ≠ some row := by
  intro found
  obtain ⟨node, seq⟩ := rowAt_named found
  have bound := headMark_ge (rowAt_mem found)
  rw [node, mine, seq] at bound
  exact absurd bound (not_le.mpr beyond)

/-- An event beyond the held branch is neither held nor a rival. -/
theorem beyond_unheld {dest : Store} {origin : String} {event : Event}
    (mine : event.originNode = origin)
    (beyond : (dest.log.headMark origin).1 < event.originSeq) :
    ¬ dest.log.Holds event ∧ ¬ receiver.Contests platform dest event := by
  constructor
  · rintro ⟨row, found, _⟩
    exact rowAt_beyond mine beyond row found
  · intro contests
    obtain ⟨row, found, _⟩ := contests.other
    exact rowAt_beyond mine beyond row found

/-- Where the event does not continue the held chain. -/
theorem Calm.own {dest : Store} {origin : String} {state next : AdmitState} {event : Event}
    (calm : Calm dest origin state) (mine : event.originNode = origin)
    (apart : ¬ (event.originSeq = (dest.log.headMark origin).1 + 1 ∧
      event.prevHash = (dest.log.headMark origin).2))
    (done : admitOne platform receiver state event = .ok next) :
    Told platform receiver dest origin event next := by
  rw [admitOne_eq, Receiver.verdict] at done
  have thawed := calm.thawed
  have clean := calm.clean
  rw [← mine] at thawed clean
  simp only [AdmitState.view, thawed, clean, decide_false, Bool.false_eq_true, ↓reduceIte] at done
  by_cases below : event.originSeq ≤ (state.head event.originNode).1
  · rw [if_pos below] at done
    exact calm.below mine done
  · rw [if_neg below] at done
    have beyond : (dest.log.headMark origin).1 < event.originSeq := by
      rw [← calm.head, ← mine]
      exact not_le.mp below
    obtain ⟨unheld, idle⟩ : ¬ dest.log.Holds event ∧ ¬ receiver.Contests platform dest event :=
      beyond_unheld mine beyond
    rw [← calm.head, ← mine] at apart
    by_cases gap : event.originSeq ≠ (state.head event.originNode).1 + 1
    · rw [if_pos gap] at done
      exact calm.rejected mine unheld idle done
    · rw [if_neg gap, if_pos fun chained => apart ⟨not_not.mp gap, chained⟩] at done
      exact calm.rejected mine unheld idle done

/-- A pass that has stopped reading the origin records no evidence against it. -/
theorem halted_evidence {origin : String} {state final : AdmitState} {batch : List Event}
    (halted : origin ∈ state.frozen ∨ origin ∈ state.poisoned)
    (folded : batch.foldlM (admitOne platform receiver) state = .ok final)
    {evidence : ForkEvidence} (named : evidence.originNode = origin) :
    evidence ∈ final.store.security.forkEvidence ↔
      evidence ∈ state.store.security.forkEvidence := by
  have kept : ∀ (now : AdmitState) (event : Event) (next : AdmitState), event ∈ batch →
      ((origin ∈ now.frozen ∨ origin ∈ now.poisoned) ∧
        (evidence ∈ now.store.security.forkEvidence ↔
          evidence ∈ state.store.security.forkEvidence)) →
      admitOne platform receiver now event = .ok next →
      ((origin ∈ next.frozen ∨ origin ∈ next.poisoned) ∧
        (evidence ∈ next.store.security.forkEvidence ↔
          evidence ∈ state.store.security.forkEvidence)) := by
    rintro now event next _ ⟨stopped, same⟩ done
    rw [admitOne_eq] at done
    have acted := act_acted done
    refine ⟨?_, ?_⟩
    · rw [acted.frozen, acted.poisoned]
      refine stopped.imp (fun frozen => ?_) (fun poisoned => ?_)
      · split_ifs
        · exact List.mem_cons_of_mem _ frozen
        · exact frozen
      · split_ifs
        · exact List.mem_cons_of_mem _ poisoned
        · exact poisoned
    · rw [← same]
      refine act_evidence_other ?_ done named
      by_cases mine : event.originNode = origin
      · refine .inr ?_
        rw [Receiver.verdict, AdmitState.view, mine]
        dsimp only
        rcases stopped with frozen | poisoned
        · rw [if_pos (decide_eq_true frozen)]
          rfl
        · by_cases frozen : origin ∈ now.frozen
          · rw [if_pos (decide_eq_true frozen)]
            rfl
          · rw [if_neg (by simpa using frozen), if_pos (decide_eq_true poisoned)]
            rfl
      · exact .inl mine
  exact (foldlM_invariant kept ⟨halted, Iff.rfl⟩ folded).2

theorem Store.Convicts.later {origin : String} {state final : AdmitState} {batch : List Event}
    (convicts : state.store.Convicts origin)
    (folded : batch.foldlM (admitOne platform receiver) state = .ok final) :
    final.store.Convicts origin := by
  obtain ⟨evidence, held, named, frozen⟩ := convicts
  have kept : ∀ (now : AdmitState) (event : Event) (next : AdmitState), event ∈ batch →
      evidence ∈ now.store.security.forkEvidence →
      admitOne platform receiver now event = .ok next →
      evidence ∈ next.store.security.forkEvidence :=
    fun _ _ _ _ listed done => (admitOne_freezes done).kept _ listed
  exact ⟨evidence, foldlM_invariant kept held folded, named, frozen⟩

/-- A pass whose events do not continue the held branch convicts the origin exactly when
the first of them that is not held is a rival. -/
theorem fold_convicts {dest : Store} {origin : String} {batch : List Event}
    (innocent : ¬ dest.Convicts origin)
    (apart : ∀ event ∈ batch, event.originNode = origin →
      ¬ (event.originSeq = (dest.log.headMark origin).1 + 1 ∧
        event.prevHash = (dest.log.headMark origin).2))
    {state final : AdmitState} (calm : Calm dest origin state)
    (folded : batch.foldlM (admitOne platform receiver) state = .ok final) :
    final.store.Convicts origin ↔ receiver.Meets platform dest origin batch := by
  induction batch generalizing state with
  | nil =>
      simp only [List.foldlM_nil, pure_ok] at folded
      subst folded
      refine iff_of_false ?_ ?_
      · rintro ⟨evidence, held, named, frozen⟩
        exact innocent ⟨evidence, (calm.evidence evidence named).mp held, named, frozen⟩
      · rintro ⟨before, rival, after, split, _⟩
        cases before <;> cases split
  | cons event batch ih =>
      simp only [List.foldlM_cons, bind_ok] at folded
      obtain ⟨next, done, rest⟩ := folded
      have later : ∀ {now : AdmitState}, Calm dest origin now →
          batch.foldlM (admitOne platform receiver) now = .ok final →
          (final.store.Convicts origin ↔ receiver.Meets platform dest origin batch) :=
        fun calm rest => ih (fun other listed => apart other (List.mem_cons_of_mem _ listed)) calm
          rest
      rw [meets_cons]
      by_cases mine : event.originNode = origin
      · cases calm.own mine (apart event List.mem_cons_self mine) done with
        | redelivered holds calm =>
            rw [later calm rest]
            have idle : ¬ receiver.Contests platform dest event := by
              intro contests
              obtain ⟨row, found, differs⟩ := contests.other
              obtain ⟨held, heldFound, named⟩ := holds
              rw [found] at heldFound
              cases heldFound
              exact differs named
            constructor
            · exact fun meets => .inr ⟨fun _ => holds, meets⟩
            · exact fun met => (met.resolve_left fun own => idle own.2).2
        | convicted contests convicts =>
            exact iff_of_true (convicts.later rest) (.inl ⟨mine, contests⟩)
        | halted unheld idle halted evidence =>
            refine iff_of_false ?_ ?_
            · rintro ⟨found, held, named, frozen⟩
              rw [halted_evidence halted rest named, evidence found named] at held
              exact innocent ⟨found, held, named, frozen⟩
            · rintro (⟨_, contests⟩ | ⟨holds, _⟩)
              · exact idle contests
              · exact unheld (holds mine)
      · rw [admitOne_eq] at done
        rw [later (calm.quiet (.inl mine) done) rest]
        constructor
        · exact fun meets => .inr ⟨fun own => absurd own mine, meets⟩
        · exact fun met => (met.resolve_left fun own => mine own.1).2

/-! ## One pull -/

theorem mem_serveBatch {events : List Event} {offer : List String} {event : Event}
    (served : event ∈ serveBatch events offer) :
    ∃ original ∈ events, event.originNode = original.originNode ∧
      event.originSeq = original.originSeq ∧ event.prevHash = original.prevHash := by
  obtain ⟨original, listed, rfl⟩ := List.mem_map.mp served
  refine ⟨original, listed, ?_⟩
  unfold withhold
  split_ifs <;> exact ⟨rfl, rfl, rfl⟩

theorem serveBatch_origin {events : List Event} {offer : List String} {original : Event}
    (listed : original ∈ events) :
    ∃ event ∈ serveBatch events offer, event.originNode = original.originNode := by
  refine ⟨_, List.mem_map_of_mem listed, ?_⟩
  unfold withhold
  split_ifs <;> rfl

theorem meets_append {dest : Store} {origin : String} {first second : List Event}
    (foreign : ∀ event ∈ first, event.originNode ≠ origin) :
    receiver.Meets platform dest origin (first ++ second) ↔
      receiver.Meets platform dest origin second := by
  induction first with
  | nil => rfl
  | cons event first ih =>
      have apart := foreign event List.mem_cons_self
      rw [List.cons_append, meets_cons, ih fun other listed =>
        foreign other (List.mem_cons_of_mem _ listed)]
      constructor
      · exact fun met => (met.resolve_left fun own => apart own.1).2
      · exact fun meets => .inr ⟨fun own => absurd own apart, meets⟩

theorem not_meets_append {dest : Store} {origin : String} {first second : List Event}
    (new : ∀ event ∈ first, event.originNode = origin →
      ¬ dest.log.Holds event ∧ ¬ receiver.Contests platform dest event)
    (present : ∃ event ∈ first, event.originNode = origin) :
    ¬ receiver.Meets platform dest origin (first ++ second) := by
  induction first with
  | nil =>
      obtain ⟨event, listed, _⟩ := present
      cases listed
  | cons event first ih =>
      rw [List.cons_append, meets_cons]
      by_cases mine : event.originNode = origin
      · obtain ⟨unheld, idle⟩ := new event List.mem_cons_self mine
        rintro (⟨_, contests⟩ | ⟨holds, _⟩)
        · exact idle contests
        · exact unheld (holds mine)
      · have rest : ∃ event ∈ first, event.originNode = origin := by
          obtain ⟨other, listed, named⟩ := present
          rcases List.mem_cons.mp listed with rfl | later
          · exact absurd named mine
          · exact ⟨other, later, named⟩
        rintro (⟨own, _⟩ | ⟨_, meets⟩)
        · exact mine own
        · exact ih (fun other listed => new other (List.mem_cons_of_mem _ listed)) rest meets

/-- The arguments of one pull, from the second store into the first or the other way. -/
structure Pulling where
  intoFirst : Bool
  receiver : Receiver
  clock : Option HLC
  sourceTrust : Option TrustRegistry
  pullerNode : Option String

namespace Pulling

def dest (pulling : Pulling) (stores : Store × Store) : Store :=
  if pulling.intoFirst then stores.1 else stores.2

def source (pulling : Pulling) (stores : Store × Store) : Store :=
  if pulling.intoFirst then stores.2 else stores.1

/-- The scopes in which the source ships payloads. -/
def offer (pulling : Pulling) : List String :=
  let granted := match pulling.sourceTrust, pulling.pullerNode with
    | some trust, some node => trust.scopeGrants node
    | _, _ => []
  match pulling.receiver.requestedScopes with
  | none => granted
  | some requested => granted.filter (· ∈ requested)

def call (pulling : Pulling) (source : Log) : Call :=
  .pull pulling.receiver pulling.clock source pulling.sourceTrust pulling.pullerNode

/-- The source's branch is no longer than the one held, and among the events that it returns
for the held stubs of the requested scopes the first that is not held is a rival. -/
structure Exposes (platform : Platform) (pulling : Pulling) (dest source : Store)
    (origin : String) : Prop where
  level : source.log.headSeq origin ≤ dest.log.headSeq origin
  backfilled : ∃ scopes backfill, pulling.receiver.requestedScopes = some scopes ∧
    readPositions platform source.log (heldStubPositions platform dest.log scopes) =
      .ok backfill ∧
    pulling.receiver.Meets platform dest origin (serveBatch backfill pulling.offer)

end Pulling

/-- A pull that commits, the other store left as it is. -/
def Exchanged (platform : Platform) (readPayload : String → Option Payload)
    (stores : Store × Store) (pulling : Pulling) (next : Store × Store) : Prop :=
  Called platform readPayload (pulling.dest stores) (pulling.call (pulling.source stores).log)
      (pulling.dest next) ∧
    pulling.source next = pulling.source stores

theorem exchanged_unique {stores next other : Store × Store} {pulling : Pulling}
    (step : Exchanged platform readPayload stores pulling next)
    (again : Exchanged platform readPayload stores pulling other) : next = other := by
  obtain ⟨called, same⟩ := step
  obtain ⟨calledAgain, sameAgain⟩ := again
  have dest : pulling.dest next = pulling.dest other :=
    Option.some.inj (called.symm.trans calledAgain)
  have source : pulling.source next = pulling.source other := same.trans sameAgain.symm
  unfold Pulling.dest at dest
  unfold Pulling.source at source
  cases direction : pulling.intoFirst with
  | true =>
      simp only [direction, ↓reduceIte] at dest source
      exact Prod.ext dest source
  | false =>
      simp only [direction, Bool.false_eq_true, ↓reduceIte] at dest source
      exact Prod.ext source dest

theorem heldStubPositions_nil (log : Log) : heldStubPositions platform log [] = [] := by
  have none : (log.events.rows.filter fun row =>
      !row.materialized && row.scopeDigest.any (· ∈ ([] : List String))) = [] := by
    refine List.filter_eq_nil_iff.mpr fun row _ => ?_
    cases row.scopeDigest <;> simp
  unfold heldStubPositions
  simp only [List.map_nil]
  rw [none]
  rfl

/-- What a pull serves: the stream beyond the frontier, then the backfill. -/
theorem servePull_parts {pulling : Pulling} {dest source : Log} {batch : List Event}
    (served : servePull platform dest source pulling.sourceTrust pulling.pullerNode
      pulling.receiver.requestedScopes = .ok batch) :
    ∃ stream backfill, readStream platform source (frontier dest) = .ok stream ∧
      batch = serveBatch stream pulling.offer ++ serveBatch backfill pulling.offer ∧
      (match pulling.receiver.requestedScopes with
        | some scopes =>
            readPositions platform source (heldStubPositions platform dest scopes) = .ok backfill
        | none => backfill = []) := by
  unfold servePull at served
  unfold Pulling.offer
  cases requested : pulling.receiver.requestedScopes with
  | none =>
      rw [requested] at served
      simp only [bind_ok, pure_ok] at served
      obtain ⟨stream, read, backfill, rfl, rfl⟩ := served
      exact ⟨stream, [], read, List.map_append, rfl⟩
  | some scopes =>
      rw [requested] at served
      cases scopes with
      | nil =>
          simp only [bind_ok, pure_ok] at served
          obtain ⟨stream, read, backfill, rfl, rfl⟩ := served
          refine ⟨stream, [], read, List.map_append, ?_⟩
          dsimp only
          rw [heldStubPositions_nil]
          rfl
      | cons scope rest =>
          simp only [bind_ok, pure_ok] at served
          obtain ⟨stream, read, backfill, filled, rfl⟩ := served
          exact ⟨stream, backfill, read, List.map_append, filled⟩

/-- Between forked stores no row of the source continues the held branch. -/
theorem Forked.broken (collisionFree : CollisionFree platform) {origin : String}
    {dest source : Log} (destThreaded : dest.Threaded platform)
    (sourceThreaded : source.Threaded platform) (forked : Forked origin dest source)
    {row : EventRow} (held : row ∈ source.events) (named : row.originNode = origin) :
    ¬ (row.originSeq = (dest.headMark origin).1 + 1 ∧
      row.prevHash = (dest.headMark origin).2) := by
  rintro ⟨seq, prev⟩
  obtain ⟨last, found⟩ : ∃ last, dest.head origin = some last := by
    obtain ⟨own, ownHeld, _, _, ownNode, _⟩ := forked
    cases found : dest.head origin with
    | none => exact absurd ownNode (head_none found own ownHeld)
    | some last => exact ⟨last, rfl⟩
  simp only [Log.headMark, found] at seq prev
  have bottom := destThreaded.chained.positive last (head_mem found).1
  change 1 ≤ last.originSeq at bottom
  rcases sourceThreaded.chained.linked row held with ⟨first, _⟩ | ⟨before, beforeHeld, precedes⟩
  · change row.originSeq = 1 at first
    omega
  · refine forked.apart collisionFree destThreaded sourceThreaded found beforeHeld
      (precedes.origin.trans named) ?_
    exact Option.some.inj (precedes.prev.symm.trans prev)

/-- A pull between forked stores convicts the origin exactly when its backfill shows a rival. -/
theorem pulled_convicts (collisionFree : CollisionFree platform) {pulling : Pulling}
    {origin : String} {dest source next : Store} (destThreaded : dest.log.Threaded platform)
    (sourceThreaded : source.log.Threaded platform) (forked : Forked origin dest.log source.log)
    (innocent : ¬ dest.Convicts origin)
    (called : Called platform readPayload dest (pulling.call source.log) next) :
    next.Convicts origin ↔ pulling.Exposes platform dest source origin := by
  obtain ⟨final, pulled, rfl⟩ := toOption_map_eq_some.mp called
  simp only [pull, bind_ok] at pulled
  obtain ⟨batch, served, admitted⟩ := pulled
  obtain ⟨stream, backfill, read, rfl, filled⟩ := servePull_parts served
  have fromSource : ∀ event ∈ serveBatch stream pulling.offer ++
      serveBatch backfill pulling.offer, ∃ row ∈ source.log.events,
        event.originNode = row.originNode ∧ event.originSeq = row.originSeq ∧
          event.prevHash = row.prevHash := by
    intro event listed
    have rebuilt : ∃ original, (event.originNode = original.originNode ∧
        event.originSeq = original.originSeq ∧ event.prevHash = original.prevHash) ∧
        ∃ row ∈ source.log.events, rebuildEvent platform source.log row = .ok original := by
      rcases List.mem_append.mp listed with streamed | filledIn
      · obtain ⟨original, inStream, same⟩ := mem_serveBatch streamed
        exact ⟨original, same, mem_readStream read inStream⟩
      · obtain ⟨original, inBackfill, same⟩ := mem_serveBatch filledIn
        cases requested : pulling.receiver.requestedScopes with
        | none =>
            rw [requested] at filled
            dsimp only at filled
            rw [filled] at inBackfill
            cases inBackfill
        | some scopes =>
            rw [requested] at filled
            exact ⟨original, same, mem_readPositions filled inBackfill⟩
    obtain ⟨original, ⟨node, seq, prev⟩, row, held, made⟩ := rebuilt
    refine ⟨row, held, ?_⟩
    rw [node, seq, prev, rebuildEvent_envelope made]
    exact ⟨rfl, rfl, rfl⟩
  have broken : ∀ event ∈ serveBatch stream pulling.offer ++ serveBatch backfill pulling.offer,
      event.originNode = origin →
        ¬ (event.originSeq = (dest.log.headMark origin).1 + 1 ∧
          event.prevHash = (dest.log.headMark origin).2) := by
    intro event listed mine
    obtain ⟨row, held, node, seq, prev⟩ := fromSource event listed
    rw [seq, prev]
    exact forked.broken collisionFree destThreaded sourceThreaded held (node.symm.trans mine)
  have convicts := fold_convicts innocent broken (calm_start innocent pulling.clock) admitted
  have beyond : ∀ event ∈ serveBatch stream pulling.offer, event.originNode = origin →
      (dest.log.headMark origin).1 < event.originSeq := by
    intro event listed mine
    obtain ⟨original, inStream, node, seq, _⟩ := mem_serveBatch listed
    obtain ⟨_, _, _, after⟩ := mem_readStream_beyond read inStream
    rw [frontier_getD, ← node, mine, headSeq_eq] at after
    rw [seq]
    exact after
  rw [convicts]
  have sourceHeld : ∃ row ∈ source.log.events, row.originNode = origin := by
    obtain ⟨_, _, row, held, _, node, _⟩ := forked
    exact ⟨row, held, node⟩
  by_cases level : source.log.headSeq origin ≤ dest.log.headSeq origin
  · have foreign : ∀ event ∈ serveBatch stream pulling.offer, event.originNode ≠ origin := by
      intro event listed mine
      obtain ⟨original, inStream, node, seq, _⟩ := mem_serveBatch listed
      obtain ⟨row, held, envelope, _⟩ := mem_readStream_beyond read inStream
      have top := headMark_ge held
      have above := beyond event listed mine
      have rowNode : row.originNode = origin := by
        rw [← mine, node, envelope]
      have rowSeq : event.originSeq = row.originSeq := by rw [seq, envelope]
      rw [rowNode, ← headSeq_eq] at top
      rw [← headSeq_eq, rowSeq] at above
      omega
    rw [meets_append foreign]
    constructor
    · intro meets
      refine ⟨level, ?_⟩
      cases requested : pulling.receiver.requestedScopes with
      | none =>
          rw [requested] at filled
          dsimp only at filled
          subst filled
          obtain ⟨before, rival, after, split, _⟩ := meets
          cases before <;> cases split
      | some scopes =>
          rw [requested] at filled
          exact ⟨scopes, backfill, rfl, filled, meets⟩
    · rintro ⟨_, scopes, own, requested, ownFilled, meets⟩
      rw [requested] at filled
      dsimp only at filled
      rw [filled] at ownFilled
      cases ownFilled
      exact meets
  · have longer : ((frontier dest.log).get? origin).getD 0 < source.log.headSeq origin := by
      rw [frontier_getD]
      exact not_le.mp level
    obtain ⟨original, inStream, named⟩ := readStream_origin read longer sourceHeld
    obtain ⟨event, listed, node⟩ : ∃ event ∈ serveBatch stream pulling.offer,
        event.originNode = original.originNode := serveBatch_origin inStream
    refine iff_of_false ?_ (fun exposes => level exposes.level)
    exact not_meets_append (fun other served mine => beyond_unheld mine (beyond other served mine))
      ⟨event, listed, node.trans named⟩

/-! ## Runs of pulls -/

/-- The two stores hold sound chains that fork. -/
structure Apart (platform : Platform) (origin : String) (stores : Store × Store) : Prop where
  first : stores.1.log.Threaded platform
  second : stores.2.log.Threaded platform
  forked : Forked origin stores.1.log stores.2.log

theorem Forked.kept {origin : String} {dest source next : Log} (forked : Forked origin dest source)
    (kept : ∀ row ∈ dest.events, ∃ now ∈ next.events, row.Became now) :
    Forked origin next source := by
  obtain ⟨row, held, other, otherHeld, node, otherNode, seq, ids⟩ := forked
  obtain ⟨now, nowHeld, became⟩ := kept row held
  unfold EventRow.Became at became
  refine ⟨now, nowHeld, other, otherHeld, ?_, otherNode, ?_, ?_⟩ <;> rw [became]
  · exact node
  · exact seq
  · exact ids

/-- One pull keeps the fork, and convicts exactly when it exposes a rival. -/
theorem exchanged_step (collisionFree : CollisionFree platform) {origin : String}
    {stores next : Store × Store} {pulling : Pulling} (apart : Apart platform origin stores)
    (step : Exchanged platform readPayload stores pulling next) :
    Apart platform origin next ∧
      ((next.1.Convicts origin ∨ next.2.Convicts origin) ↔
        (stores.1.Convicts origin ∨ stores.2.Convicts origin) ∨
          pulling.Exposes platform (pulling.dest stores) (pulling.source stores) origin) := by
  obtain ⟨called, same⟩ := step
  have kept := (called_grows called).kept
  have later : (pulling.dest stores).Convicts origin → (pulling.dest next).Convicts origin := by
    intro convicts
    obtain ⟨final, pulled, made⟩ := toOption_map_eq_some.mp called
    simp only [pull, bind_ok] at pulled
    obtain ⟨batch, _, admitted⟩ := pulled
    have begun : (AdmitState.start (pulling.dest stores) pulling.clock).store.Convicts origin :=
      convicts
    rw [← made]
    exact begun.later admitted
  unfold Pulling.dest Pulling.source at *
  cases direction : pulling.intoFirst with
  | true =>
      simp only [direction, ↓reduceIte] at called same kept later ⊢
      rw [same]
      refine ⟨⟨called_threaded collisionFree apart.first called, same ▸ apart.second,
        same ▸ apart.forked.kept kept⟩, ?_⟩
      by_cases guilty : stores.1.Convicts origin ∨ stores.2.Convicts origin
      · exact iff_of_true (guilty.imp later id) (.inl guilty)
      · obtain ⟨first, second⟩ := not_or.mp guilty
        have convicts := pulled_convicts collisionFree apart.first apart.second apart.forked first
          called
        rw [or_iff_left second, convicts, or_iff_right guilty]
  | false =>
      simp only [direction, Bool.false_eq_true, ↓reduceIte] at called same kept later ⊢
      rw [same]
      refine ⟨⟨same ▸ apart.first, called_threaded collisionFree apart.second called,
        same ▸ (apart.forked.symm.kept kept).symm⟩, ?_⟩
      by_cases guilty : stores.1.Convicts origin ∨ stores.2.Convicts origin
      · exact iff_of_true (guilty.imp id later) (.inl guilty)
      · obtain ⟨first, second⟩ := not_or.mp guilty
        have convicts := pulled_convicts collisionFree apart.second apart.first apart.forked.symm
          second called
        rw [or_iff_right first, convicts, or_iff_right guilty]

/-- Between two stores that fork on an origin, whatever was called before and however they
pull from each other afterwards, evidence against the origin is recorded in the end exactly
when it was there or when one of the pulls exposes a rival. -/
theorem exchange_convicts_iff (collisionFree : CollisionFree platform)
    {firstCalls secondCalls : List Call} {first second : Store}
    (reachedFirst : Run (Called platform readPayload) {} firstCalls first)
    (reachedSecond : Run (Called platform readPayload) {} secondCalls second)
    {origin : String} (forked : Forked origin first.log second.log)
    {pulls : List Pulling} {final : Store × Store}
    (run : Run (Exchanged platform readPayload) (first, second) pulls final) :
    (final.1.Convicts origin ∨ final.2.Convicts origin) ↔
      (first.Convicts origin ∨ second.Convicts origin) ∨
        ∃ before pulling after stores, pulls = before ++ pulling :: after ∧
          Run (Exchanged platform readPayload) (first, second) before stores ∧
          pulling.Exposes platform (pulling.dest stores) (pulling.source stores) origin := by
  have exchanged : ∀ {start final : Store × Store} {pulls : List Pulling},
      Run (Exchanged platform readPayload) start pulls final → Apart platform origin start →
      ((final.1.Convicts origin ∨ final.2.Convicts origin) ↔
        (start.1.Convicts origin ∨ start.2.Convicts origin) ∨
          ∃ before pulling after stores, pulls = before ++ pulling :: after ∧
            Run (Exchanged platform readPayload) start before stores ∧
            pulling.Exposes platform (pulling.dest stores) (pulling.source stores) origin) := by
    intro start final pulls run
    induction run with
    | nil stores =>
        intro _
        refine ⟨.inl, fun found => found.resolve_right ?_⟩
        rintro ⟨before, _, _, _, split, _⟩
        cases before <;> cases split
    | cons step rest ih =>
        intro apart
        obtain ⟨next, convicts⟩ := exchanged_step collisionFree apart step
        rw [ih next, convicts]
        constructor
        · rintro ((guilty | exposes) | ⟨before, pulling, after, stores, rfl, reached, exposes⟩)
          · exact .inl guilty
          · exact .inr ⟨[], _, _, _, rfl, .nil _, exposes⟩
          · exact .inr ⟨_ :: before, pulling, after, stores, rfl, .cons step reached, exposes⟩
        · rintro (guilty | ⟨before, pulling, after, stores, split, reached, exposes⟩)
          · exact .inl (.inl guilty)
          · cases reached with
            | nil =>
                cases split
                exact .inl (.inr exposes)
            | cons own tail =>
                cases split
                cases exchanged_unique own step
                exact .inr ⟨_, pulling, after, stores, rfl, tail, exposes⟩
  exact exchanged run ⟨run_threaded collisionFree reachedFirst,
    run_threaded collisionFree reachedSecond, forked⟩

/-- A source that is nowhere ahead serves nothing. -/
theorem readStream_level {log : Log} {after : Dict String Int}
    (level : ∀ node ∈ log.origins, log.headSeq node ≤ (after.get? node).getD 0) :
    readStream platform log after = .ok [] := by
  obtain ⟨events, read⟩ : ∃ events, readStream platform log after = .ok events := by
    unfold readStream
    refine bind_succeeds (mapM_succeeds fun item listed => ?_) fun streams => ⟨_, rfl⟩
    obtain ⟨node, named, rfl⟩ := List.mem_map.mp listed
    exact ⟨[], if_pos (level node named)⟩
  have empty : events = [] := by
    refine List.eq_nil_iff_forall_not_mem.mpr fun event listed => ?_
    obtain ⟨row, held, envelope, beyond⟩ := mem_readStream_beyond read listed
    have top := headMark_ge held
    rw [envelope] at beyond
    rw [← headSeq_eq] at top
    have bound := level row.originNode ((List.mem_insertionSort _).mpr
      (List.mem_dedup.mpr (List.mem_map_of_mem (Table.mem_rows.mpr held))))
    omega
  rw [read, empty]

namespace SilentFork

theorem headSeq_single {log : Log} {row : EventRow} (rows : log.events.rows = [row])
    (node : String) : log.headSeq node = if row.originNode = node then row.originSeq else 0 := by
  unfold Log.headSeq Log.head
  rw [rows]
  by_cases mine : row.originNode = node
  · simp [mine, Latest.latest]
  · simp [mine]

def pulling (intoFirst : Bool) : Pulling where
  intoFirst := intoFirst
  receiver := plainReceiver "node" none 0
  clock := none
  sourceTrust := none
  pullerNode := none

/-- Between stores of one event each, at one position, a pull transfers nothing. -/
theorem pull_level {dest source : Store} {destRow sourceRow : EventRow} (intoFirst : Bool)
    (destRows : dest.log.events.rows = [destRow])
    (sourceRows : source.log.events.rows = [sourceRow])
    (node : sourceRow.originNode = destRow.originNode)
    (seq : sourceRow.originSeq = destRow.originSeq) :
    servePull plainPlatform dest.log source.log none none none = .ok [] ∧
      Called plainPlatform (fun _ => none) dest ((pulling intoFirst).call source.log) dest := by
  have stream : readStream plainPlatform source.log (frontier dest.log) = .ok [] := by
    refine readStream_level fun other _ => ?_
    rw [frontier_getD, headSeq_single destRows, headSeq_single sourceRows, node, seq]
  have served : servePull plainPlatform dest.log source.log none none none = .ok [] := by
    unfold servePull
    rw [stream]
    rfl
  refine ⟨served, toOption_map_eq_some.mpr ⟨AdmitState.start dest none, ?_, rfl⟩⟩
  unfold pull pulling
  dsimp only [plainReceiver]
  rw [served]
  rfl

/-- A store that holds one first event of the node. -/
structure HoldsFirst (event : Event) (store : Store) : Prop where
  reached : Run (Called plainPlatform fun _ => none) {}
    [.deliver (plainReceiver "node" none 0) none [event]] store
  rows : store.log.events.rows = [storedRow event 0 true]
  unforked : store.security.forkEvidence = ∅

theorem stored {scope : Option String} {event : Event}
    (sent : Sent "node" (.claimRecorded plainClaim) scope event) :
    ∃ store, HoldsFirst event store := by
  have arrives := sent.arrives
  have ready : ({} : Store).log.Ready plainPlatform 0 := empty_ready
  obtain ⟨store, middle, called, inserted, written, _, security, _⟩ :=
    arrive_whole ready rfl arrives none 0 sent.originSeq sent.prevHash rfl rfl plainClaim_writable
      fun _ log _ _ => reduce_claim {} (by rw [arrives.hlc]; rfl) arrives.carried
  refine ⟨store, .cons called (.nil _), ?_, by rw [security]⟩
  rw [insertPayload_events written, inserted.rows]
  rfl

/-- Two stores of different first events, and what pulls between them do. -/
structure Silent (left right : Event) (first second : Store) : Prop where
  leftHolds : HoldsFirst left first
  rightHolds : HoldsFirst right second
  node : left.originNode = "node" ∧ right.originNode = "node"
  seq : left.originSeq = right.originSeq
  differs : left.eventId ≠ right.eventId
  leftAttested : Attested plainPlatform (plainKeys ["node"]) (plainTrust ["node"]) left.toEnvelope
  rightAttested : Attested plainPlatform (plainKeys ["node"]) (plainTrust ["node"]) right.toEnvelope
  servedFirst : servePull plainPlatform first.log second.log none none none = .ok []
  servedSecond : servePull plainPlatform second.log first.log none none none = .ok []
  run : Run (Exchanged plainPlatform fun _ => none) (first, second) [pulling true, pulling false]
    (first, second)

theorem silent : ∃ left right first second, Silent left right first second := by
  obtain ⟨left, leftSent⟩ := plain_sent (by decide : "node" ≠ "") (by decide) plainClaim_writable
    none fun scope set => by cases set
  obtain ⟨right, rightSent⟩ := plain_sent (by decide : "node" ≠ "") (by decide) plainClaim_writable
    (some "team") (by
      rintro scope ⟨⟩
      exact ⟨by decide, by decide⟩)
  obtain ⟨first, leftHolds⟩ := stored leftSent
  obtain ⟨second, rightHolds⟩ := stored rightSent
  have differs : left.eventId ≠ right.eventId := by
    intro same
    obtain ⟨envelope, _⟩ := verified_sameEnvelope plainPlatform_collisionFree leftSent.verified
      rightSent.verified same
    have version : left.envelopeVersion = right.envelopeVersion := envelope.version
    rw [leftSent.version, rightSent.version] at version
    exact absurd version (by decide)
  have node : right.originNode = left.originNode :=
    rightSent.originNode.trans leftSent.originNode.symm
  have seq : right.originSeq = left.originSeq := rightSent.originSeq.trans leftSent.originSeq.symm
  obtain ⟨servedFirst, calledFirst⟩ := pull_level true leftHolds.rows rightHolds.rows node seq
  obtain ⟨servedSecond, calledSecond⟩ := pull_level false rightHolds.rows leftHolds.rows node.symm
    seq.symm
  have intoFirst : Exchanged plainPlatform (fun _ => none) (first, second) (pulling true)
      (first, second) := ⟨calledFirst, rfl⟩
  have intoSecond : Exchanged plainPlatform (fun _ => none) (first, second) (pulling false)
      (first, second) := ⟨calledSecond, rfl⟩
  exact ⟨left, right, first, second, leftHolds, rightHolds,
    ⟨leftSent.originNode, rightSent.originNode⟩, seq.symm, differs, leftSent.attested,
    rightSent.attested, servedFirst, servedSecond, .cons intoFirst (.cons intoSecond (.nil _))⟩

theorem HoldsFirst.held {event : Event} {store : Store} (holds : HoldsFirst event store) :
    storedRow event 0 true ∈ store.log.events := by
  rw [← Table.mem_rows, holds.rows]
  exact List.mem_singleton_self _

theorem HoldsFirst.innocent {event : Event} {store : Store} (holds : HoldsFirst event store)
    (origin : String) : ¬ store.Convicts origin := by
  rintro ⟨evidence, held, _⟩
  rw [holds.unforked] at held
  cases held

/-- Two stores hold different first events of one node, each under its active key.  Pulls in
both directions transfer nothing, and no store has evidence. -/
theorem never_told : ∃ first second firstCalls secondCalls leftRow rightRow,
    Run (Called plainPlatform fun _ => none) {} firstCalls first ∧
    Run (Called plainPlatform fun _ => none) {} secondCalls second ∧
    leftRow ∈ first.log.events ∧ rightRow ∈ second.log.events ∧
    leftRow.originNode = rightRow.originNode ∧ leftRow.originSeq = rightRow.originSeq ∧
    leftRow.eventId ≠ rightRow.eventId ∧
    Attested plainPlatform (plainKeys ["node"]) (plainTrust ["node"]) leftRow.toEnvelope ∧
    Attested plainPlatform (plainKeys ["node"]) (plainTrust ["node"]) rightRow.toEnvelope ∧
    servePull plainPlatform first.log second.log none none none = .ok [] ∧
    servePull plainPlatform second.log first.log none none none = .ok [] ∧
    Run (Exchanged plainPlatform fun _ => none) (first, second) [pulling true, pulling false]
      (first, second) ∧
    ¬ (first.Convicts leftRow.originNode ∨ second.Convicts leftRow.originNode) := by
  obtain ⟨left, right, first, second, silent⟩ := silent
  refine ⟨first, second, _, _, storedRow left 0 true, storedRow right 0 true,
    silent.leftHolds.reached, silent.rightHolds.reached, silent.leftHolds.held,
    silent.rightHolds.held, silent.node.1.trans silent.node.2.symm, silent.seq, silent.differs,
    silent.leftAttested, silent.rightAttested, silent.servedFirst, silent.servedSecond,
    silent.run, ?_⟩
  rintro (first | second)
  · exact silent.leftHolds.innocent _ first
  · exact silent.rightHolds.innocent _ second

/-- None of those pulls exposes a rival. -/
theorem never_exposed : ∃ first second : Store, Forked "node" first.log second.log ∧
    Run (Exchanged plainPlatform fun _ => none) (first, second) [pulling true, pulling false]
      (first, second) ∧
    ¬ ∃ before own after stores, [pulling true, pulling false] = before ++ own :: after ∧
      Run (Exchanged plainPlatform fun _ => none) (first, second) before stores ∧
      own.Exposes plainPlatform (own.dest stores) (own.source stores) "node" := by
  obtain ⟨left, right, first, second, silent⟩ := silent
  have forked : Forked "node" first.log second.log :=
    ⟨_, silent.leftHolds.held, _, silent.rightHolds.held, silent.node.1, silent.node.2, silent.seq,
      silent.differs⟩
  have convicts := exchange_convicts_iff plainPlatform_collisionFree silent.leftHolds.reached
    silent.rightHolds.reached forked silent.run
  refine ⟨first, second, forked, silent.run, fun exposed => ?_⟩
  rcases convicts.mpr (.inr exposed) with first | second
  · exact silent.leftHolds.innocent _ first
  · exact silent.rightHolds.innocent _ second

end SilentFork

end Kawa
