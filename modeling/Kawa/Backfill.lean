import Kawa.BatchTotality
import Kawa.CatchUp
import Kawa.ForkRecovery
import Kawa.OfferRetention

/-!
The backfill of held stubs.  It travels behind the new events of the same batch, and a refusal
of one of them halts the origin before its stubs are reached.
-/

namespace Kawa

open Result

variable {platform : Platform} {readPayload : String → Option Payload} {receiver : Receiver}

namespace Backfill

/-! ## What halts an origin -/

/-- The events of one origin, in the order of the batch: each is the event held at its position,
or it continues the chain and passes the gates. -/
def Undisturbed (platform : Platform) (receiver : Receiver) :
    Int × Option String → (Int → Option String) → List Event → Prop
  | _, _, [] => True
  | head, heldId, event :: rest =>
      if event.originSeq ≤ head.1 then
        heldId event.originSeq = some event.eventId ∧
          Undisturbed platform receiver head heldId rest
      else
        event.originSeq = head.1 + 1 ∧ event.prevHash = head.2 ∧
          receiver.refusal platform event = none ∧
          Undisturbed platform receiver (event.originSeq, some event.selfHash)
            (Function.update heldId event.originSeq (some event.eventId)) rest

/-- The ids that a log holds of one origin, by position. -/
def heldIds (log : Log) (node : String) (seq : Int) : Option String :=
  (log.rowAt node seq).map (·.eventId)

theorem storedForm_names (receiver : Receiver) (event : Event) :
    (receiver.storedForm event).originNode = event.originNode ∧
      (receiver.storedForm event).originSeq = event.originSeq ∧
      (receiver.storedForm event).eventId = event.eventId := by
  unfold Receiver.storedForm withhold
  split_ifs <;> exact ⟨rfl, rfl, rfl⟩

/-- An admitted event adds its id at its position, and nothing else moves an id. -/
theorem heldIds_admitOne {state next : AdmitState} {event : Event} (bound : HeadsBound state)
    (done : admitOne platform receiver state event = .ok next) (node : String) :
    heldIds next.store.log node =
      if (receiver.verdict platform (state.view event.originNode) event).inserts = true ∧
          event.originNode = node then
        Function.update (heldIds state.store.log node) event.originSeq (some event.eventId)
      else heldIds state.store.log node := by
  obtain ⟨⟨subjectRef, _, rows⟩, _⟩ := act_rows (admitOne_act done)
  funext seq
  unfold heldIds
  rw [rowAt_rows rows]
  cases judged : receiver.verdict platform (state.view event.originNode) event with
  | insert =>
      obtain ⟨storedNode, storedSeq, storedId⟩ := storedForm_names receiver event
      have next := (verdict_insert judged).1
      rw [rowsAfter, List.find?_append]
      by_cases mine : event.originNode = node
      · rw [if_pos ⟨rfl, mine⟩, Function.update_apply]
        by_cases here : seq = event.originSeq
        · have vacant : state.store.log.events.rows.find? (atPosition node seq) = none := by
            refine List.find?_eq_none.mpr fun row held at_ => ?_
            obtain ⟨rowNode, rowSeq⟩ := of_decide_eq_true at_
            have below := bound row held
            rw [rowNode, ← mine, rowSeq, here] at below
            change event.originSeq = (state.head event.originNode).1 + 1 at next
            omega
          rw [vacant, if_pos here]
          simp [atPosition, storedNode, storedSeq, storedId, mine, here]
        · have elsewhere : event.originSeq ≠ seq := fun same => here same.symm
          rw [if_neg here, rowAt_rows rfl]
          simp [atPosition, storedSeq, elsewhere]
      · rw [if_neg fun both => mine both.2, rowAt_rows rfl]
        simp [atPosition, storedNode, mine]
  | upgrade held payload =>
      rw [find_rowsAfter_upgrade, if_neg (by simp [Verdict.inserts]), rowAt_rows rfl,
        Option.map_map]
      refine congrArg (Option.map · _) (funext fun row => ?_)
      simp only [Function.comp]
      split_ifs <;> rfl
  | _ => rfl

/-- What one event does to its origin where that is not halted. -/
theorem admitOne_running {state next : AdmitState} {event : Event} (bound : HeadsBound state)
    (running : ¬ state.Halted event.originNode)
    (done : admitOne platform receiver state event = .ok next) (rest : List Event) :
    (¬ next.Halted event.originNode ∧
      Undisturbed platform receiver (next.head event.originNode)
        (heldIds next.store.log event.originNode) rest) ↔
      Undisturbed platform receiver (state.head event.originNode)
        (heldIds state.store.log event.originNode) (event :: rest) := by
  have acted := act_acted (admitOne_act done)
  obtain ⟨_, _, heads⟩ := act_rows (admitOne_act done)
  rw [heads, heldIds_admitOne bound done, mem_halted acted]
  have acts := admitOne_act done
  have judged := @open_verdict platform receiver state event running
  conv_rhs => unfold Undisturbed
  by_cases below : event.originSeq ≤ (state.head event.originNode).1
  · rw [if_pos below] at judged
    have said := heldVerdict_case platform receiver
      (state.store.log.rowAt event.originNode event.originSeq) event
    rw [← judged] at said
    rw [if_pos below]
    have position : heldIds state.store.log event.originNode event.originSeq =
        (state.store.log.rowAt event.originNode event.originSeq).map (·.eventId) := rfl
    generalize receiver.verdict platform (state.view event.originNode) event = verdict at said acts
    cases said with
    | unstorable => cases acts
    | missing _ found => simp [Verdict.freezes, Verdict.poisons, position, found]
    | kept held _ found sameId _ =>
        simp [Verdict.freezes, Verdict.poisons, Verdict.inserts, running, position, found, sameId]
    | reported held reason _ found sameId _ =>
        simp [Verdict.freezes, Verdict.poisons, Verdict.inserts, running, position, found, sameId]
    | upgraded held payload _ found sameId _ _ _ _ =>
        simp [Verdict.freezes, Verdict.poisons, Verdict.inserts, running, position, found, sameId]
    | stranger held _ found other _ =>
        simp [Verdict.freezes, Verdict.poisons, position, found, other]
    | rival held key _ found other _ =>
        simp [Verdict.freezes, Verdict.poisons, position, found, other]
  · rw [if_neg below] at judged
    rw [if_neg below, judged]
    by_cases gap : event.originSeq = (state.head event.originNode).1 + 1
    swap
    · simp [gap, Verdict.freezes, Verdict.poisons]
    by_cases chained : event.prevHash = (state.head event.originNode).2
    swap
    · simp [gap, chained, Verdict.freezes, Verdict.poisons]
    cases refused : receiver.refusal platform event with
    | some reason => simp [gap, chained, Verdict.freezes, Verdict.poisons]
    | none =>
        simp [gap, chained, running, Verdict.freezes, Verdict.poisons, Verdict.inserts]

/-- A pass keeps an origin open exactly where its events, in their order, disturb nothing. -/
theorem foldlM_running {batch : List Event} {state last : AdmitState} (bound : HeadsBound state)
    (done : batch.foldlM (admitOne platform receiver) state = .ok last) (node : String) :
    ¬ last.Halted node ↔ ¬ state.Halted node ∧ Undisturbed platform receiver (state.head node)
      (heldIds state.store.log node) (batch.filter (·.originNode = node)) := by
  induction batch generalizing state with
  | nil =>
      simp only [List.foldlM_nil, pure_ok] at done
      subst done
      simp [Undisturbed]
  | cons event batch ih =>
      simp only [List.foldlM_cons, bind_ok] at done
      obtain ⟨next, one, rest⟩ := done
      rw [ih (admitStep_headsBound bound (admitOne_ok one)) rest]
      by_cases mine : event.originNode = node
      · subst mine
        rw [List.filter_cons_of_pos (by simp)]
        by_cases halted : state.Halted event.originNode
        · have still := ((admitOne_leaves one).halted _ halted).1
          simp [halted, still]
        · rw [admitOne_running bound halted one]
          simp [halted]
      · rw [List.filter_cons_of_neg (by simpa using mine)]
        obtain ⟨_, _, heads⟩ := act_rows (admitOne_act one)
        rw [heads, if_neg fun both => mine both.2, heldIds_admitOne bound one,
          if_neg fun both => mine both.2, mem_halted (act_acted (admitOne_act one))]
        simp [mine]

/-! ## Where a stub is upgraded -/

/-- A row outlives an event that does not upgrade its stub. -/
theorem mem_admitOne {state next : AdmitState} {event : Event} {held : EventRow}
    (inLog : held ∈ state.store.log.events)
    (spared : ∀ old payload, receiver.verdict platform (state.view event.originNode) event =
      .upgrade old payload → held.eventId ≠ old.eventId)
    (done : admitOne platform receiver state event = .ok next) :
    held ∈ next.store.log.events := by
  obtain ⟨⟨subjectRef, _, rows⟩, _⟩ := act_rows (admitOne_act done)
  rw [← Table.mem_rows] at inLog ⊢
  rw [rows]
  cases judged : receiver.verdict platform (state.view event.originNode) event with
  | insert => exact List.mem_append_left _ inLog
  | upgrade old payload =>
      exact List.mem_map.mpr ⟨held, inLog, if_neg (spared old payload judged)⟩
  | _ => exact inLog

/-- A stub that is held whole after a pass was upgraded by an event of it, at a time when the
origin was not halted. -/
theorem foldlM_upgrades {batch : List Event} {state last : AdmitState} {held row : EventRow}
    (inLog : held ∈ state.store.log.events) (stub : held.materialized = false)
    (done : batch.foldlM (admitOne platform receiver) state = .ok last)
    (rowHeld : row ∈ last.store.log.events) (sameId : row.eventId = held.eventId)
    (whole : row.materialized = true) :
    ∃ before event after middle, batch = before ++ event :: after ∧
      before.foldlM (admitOne platform receiver) state = .ok middle ∧
      ¬ middle.Halted event.originNode ∧ event.eventId = held.eventId ∧
      event.verify platform = true := by
  induction batch generalizing state with
  | nil =>
      simp only [List.foldlM_nil, pure_ok] at done
      subst done
      rw [Table.eq_of_key rowHeld inLog sameId, stub] at whole
      cases whole
  | cons event batch ih =>
      simp only [List.foldlM_cons, bind_ok] at done
      obtain ⟨next, one, rest⟩ := done
      by_cases upgrades : ∃ old payload, receiver.verdict platform (state.view event.originNode)
          event = .upgrade old payload ∧ held.eventId = old.eventId
      · obtain ⟨old, payload, judged, own⟩ := upgrades
        obtain ⟨_, oldId, _, _, _, verified⟩ := verdict_upgrade judged
        refine ⟨[], event, batch, state, rfl, rfl, fun halted => ?_, (own.trans oldId).symm,
          verified⟩
        obtain ⟨reason, refused⟩ := halted_verdict platform receiver halted
        rw [refused] at judged
        cases judged
      · have kept := mem_admitOne inLog
          (fun old payload judged own => upgrades ⟨old, payload, judged, own⟩) one
        obtain ⟨before, other, after, middle, split, reached, open_⟩ := ih kept rest
        refine ⟨event :: before, other, after, middle, by rw [split]; rfl, ?_, open_⟩
        simp only [List.foldlM_cons, bind_ok]
        exact ⟨next, one, reached⟩

/-- An event that brings a stub its payload upgrades it where the origin is not halted. -/
theorem admitOne_upgrades {state next : AdmitState} {event : Event} {payload : Payload}
    {held : EventRow} (bound : HeadsBound state) (running : ¬ state.Halted event.originNode)
    (found : state.store.log.rowAt event.originNode event.originSeq = some held)
    (sameId : held.eventId = event.eventId) (carried : event.payload = some payload)
    (stored : storableText event.originNode = true)
    (requested : receiver.unrequested event = false) (verified : event.verify platform = true)
    (done : admitOne platform receiver state event = .ok next) :
    ∃ now, next.store.log.rowAt event.originNode event.originSeq = some now ∧
      now.eventId = event.eventId ∧ now.materialized = true := by
  have below : event.originSeq ≤ (state.head event.originNode).1 := by
    obtain ⟨node, seq⟩ := rowAt_named found
    have top := bound held (rowAt_mem found)
    rw [node, seq] at top
    exact top
  by_cases whole : held.materialized = true
  · obtain ⟨now, later, same, kept⟩ := ((admitOne_leaves done).rows _ _ _ found).found
    exact ⟨now, later, same.trans sameId, kept whole⟩
  · have judged : receiver.verdict platform (state.view event.originNode) event =
        .upgrade held payload := by
      rw [open_verdict running, if_pos below, found]
      simp [Receiver.heldVerdict, stored, sameId, carried, whole, requested, verified]
    obtain ⟨⟨subjectRef, _, rows⟩, _⟩ := act_rows (admitOne_act done)
    refine ⟨held.upgraded event.scopeRef, ?_, sameId, rfl⟩
    rw [rowAt_rows rows, judged, find_rowsAfter_upgrade, ← rowAt_rows rfl, found]
    simp

/-! ## Runs -/

/-- Each emit of the run is reduced in its transaction. -/
def Reduces (store : Store) (step : ForkRecovery.Step) : Prop :=
  match step with
  | .call call => call.Reduces store
  | _ => True

theorem performed_admitted (collisionFree : CollisionFree platform) {store next : Store}
    {step : ForkRecovery.Step} (admitted : store.log.Admitted platform)
    (reduces : Reduces store step)
    (performed : ForkRecovery.Performed platform readPayload store step next) :
    next.log.Admitted platform := by
  cases step with
  | call call => exact called_reduced_admitted collisionFree admitted reduces performed
  | resolve resolution =>
      rw [ForkRecovery.resolveFork_log performed]
      exact admitted
  | establish keys trust canonicalBundle receiptEventId =>
      obtain ⟨policyDigest, done⟩ := performed
      rw [(ForkRecovery.establishPolicy_keeps done).1]
      exact admitted

theorem run_performed_admitted (collisionFree : CollisionFree platform)
    {steps : List ForkRecovery.Step} {store : Store}
    (run : Run (Run.when Reduces (ForkRecovery.Performed platform readPayload)) {} steps store) :
    store.log.Admitted platform :=
  run.invariant (fun store => store.log.Admitted platform)
    (fun _ _ _ held step => performed_admitted collisionFree held step.1 step.2) empty_admitted

/-! ## The pull -/

/-- A held stub of a scope that the pull requests, that the source grants, and whose event the
source holds in full. -/
structure Wanted (platform : Platform) (receiver : Receiver) (dest source : Store)
    (trust : TrustRegistry) (pullerNode scope : String) (held : EventRow) : Prop where
  inLog : held ∈ dest.log.events
  stub : held.materialized = false
  digest : held.scopeDigest = some (scopeDigestOf platform scope)
  thawed : ∀ row ∈ dest.security.forkEvidence.rows, row.frozen = true →
    row.originNode ≠ held.originNode
  requested : ∃ scopes, receiver.requestedScopes = some scopes ∧ scope ∈ scopes
  granted : scope ∈ trust.scopeGrants pullerNode
  full : ∃ row ∈ source.log.events, row.eventId = held.eventId ∧ row.materialized = true ∧
    row.scopeRef = some scope

/-- The pull returns, and the event of the stub is held whole afterwards. -/
def Upgrades (platform : Platform) (receiver : Receiver) (dest source : Store) (clock : Option HLC)
    (trust : TrustRegistry) (pullerNode : String) (held : EventRow) : Prop :=
  ∃ final, pull platform receiver dest source.log clock (some trust) (some pullerNode) =
      .ok final ∧
    ∃ row ∈ final.store.log.events, row.eventId = held.eventId ∧ row.materialized = true

/-- Nothing in the batch raises, the stub's event verifies, and no event of its origin that
comes before it is refused. -/
structure Unhindered (platform : Platform) (receiver : Receiver) (dest : Store)
    (clock : Option HLC) (batch : List Event) (held : EventRow) : Prop where
  accommodated : Accommodated platform receiver dest clock batch
  verified : ∀ event ∈ batch, event.eventId = held.eventId → event.verify platform = true
  undisturbed : Undisturbed platform receiver (dest.log.headMark held.originNode)
    (heldIds dest.log held.originNode)
    ((batch.takeWhile (·.eventId ≠ held.eventId)).filter (·.originNode = held.originNode))

section Pull

variable {dest source : Store} {clock : Option HLC} {trust : TrustRegistry}
variable {pullerNode scope : String} {held : EventRow} {batch : List Event}

/-- The batch carries the event of the stub, in full only. -/
theorem served_full (collisionFree : CollisionFree platform)
    (destAdmitted : dest.log.Admitted platform) (sourceAdmitted : source.log.Admitted platform)
    (wanted : Wanted platform receiver dest source trust pullerNode scope held)
    (served : servePull platform dest.log source.log (some trust) (some pullerNode)
      receiver.requestedScopes = .ok batch) :
    ∃ event ∈ batch, event.eventId = held.eventId ∧ (∃ payload, event.payload = some payload) ∧
      receiver.unrequested event = false ∧
      ∀ other ∈ batch, other.eventId = held.eventId → other = event := by
  obtain ⟨row, rowHeld, named, whole, cleartext⟩ := wanted.full
  obtain ⟨scopes, requested, member⟩ := wanted.requested
  rw [requested] at served
  have carried : ∃ event ∈ batch, event.eventId = held.eventId := by
    -- both logs hold the event at the position that it hashes to
    obtain ⟨first, firstVerified, firstStems⟩ := destAdmitted.stemmed held wanted.inLog
    obtain ⟨second, secondVerified, secondStems⟩ := sourceAdmitted.stemmed row rowHeld
    have heldId : held.eventId = first.eventId := congrArg (·.eventId) firstStems
    obtain ⟨_, _, _, _, heldNode, heldSeq⟩ :=
      stemmed_same collisionFree firstStems firstVerified firstVerified heldId
    obtain ⟨_, _, _, _, rowNode, rowSeq⟩ :=
      stemmed_same collisionFree secondStems secondVerified firstVerified (named.trans heldId)
    have found : source.log.rowAt held.originNode held.originSeq = some row := by
      rw [heldNode, heldSeq, ← rowNode, ← rowSeq]
      exact sourceAdmitted.rowAt rowHeld
    cases scopes with
    | nil => cases member
    | cons head rest =>
        simp only [servePull, bind_ok, pure_ok] at served
        obtain ⟨stream, _, backfill, filled, rfl⟩ := served
        have asks : Asks (heldStubPositions platform dest.log (head :: rest)) held.originNode
            held.originSeq := asks_heldStubPositions.mpr ⟨held, wanted.inLog, wanted.stub, by
          rw [wanted.digest]
          simpa using List.mem_map_of_mem member, rfl, rfl⟩
        obtain ⟨original, inBackfill, rebuilt⟩ := readPositions_serves filled asks found
        have originalId : original.eventId = row.eventId :=
          congrArg (·.eventId) (rebuildEvent_envelope rebuilt)
        refine ⟨_, List.mem_map_of_mem (List.mem_append_right stream inBackfill), ?_⟩
        rw [← named, ← originalId]
        split_ifs
        · rfl
        · exact (withhold_envelope original).2
  have whole_ : ∀ event ∈ batch, event.eventId = held.eventId → event.scopeRef = some scope ∧
      rebuildEvent platform source.log row = .ok event := by
    intro event listed sameId
    obtain ⟨read, fromRows, offered⟩ := servePull_served served
    obtain ⟨long, pairs⟩ := List.forall₂_iff_get.mp offered
    obtain ⟨place, rfl⟩ := List.mem_iff_get.mp listed
    have inside : place.val < read.length := by rw [long]; exact place.isLt
    have made := pairs place.val inside place.isLt
    obtain ⟨other, otherHeld, rebuilt⟩ := fromRows _ (List.get_mem read ⟨place.val, inside⟩)
    have envelope := rebuildEvent_envelope rebuilt
    have otherId : other.eventId = row.eventId := by
      rw [named, ← sameId]
      exact (congrArg (·.eventId) envelope).symm.trans made.eventId.symm
    obtain rfl : other = row := Table.eq_of_key otherHeld rowHeld otherId
    have scopeRef : (read.get ⟨place.val, inside⟩).scopeRef = some scope :=
      (congrArg (·.scopeRef) envelope).trans cleartext
    have offers : (some scope).any (· ∈ (trust.scopeGrants pullerNode).filter (· ∈ scopes)) =
        true := by
      simpa using ⟨wanted.granted, member⟩
    have same := made.whole (.inr (by rw [scopeRef]; exact offers))
    rw [same]
    exact ⟨scopeRef, rebuilt⟩
  obtain ⟨event, listed, sameId⟩ := carried
  obtain ⟨scopeRef, rebuilt⟩ := whole_ event listed sameId
  refine ⟨event, listed, sameId, ?_, ?_, fun other otherListed otherId => ?_⟩
  · unfold rebuildEvent at rebuilt
    rw [if_pos whole] at rebuilt
    simp only [bind_ok, pure_ok] at rebuilt
    obtain ⟨payload, _, shape⟩ := rebuilt
    exact ⟨payload, by rw [← shape]⟩
  · unfold Receiver.unrequested
    rw [requested, Option.any_some, scopeRef, Option.any_some]
    simp [member]
  · have again := (whole_ other otherListed otherId).2
    rw [rebuilt, Except.ok.injEq] at again
    exact again.symm

/-- Ahead of the stub's event the batch is what comes before any of its deliveries. -/
theorem takeWhile_ahead {before after : List Event} {event : Event}
    (sameId : event.eventId = held.eventId) :
    (before ++ event :: after).takeWhile (·.eventId ≠ held.eventId) =
      before.takeWhile (·.eventId ≠ held.eventId) := by
  rw [List.takeWhile_append]
  split_ifs with all
  · rw [(List.takeWhile_prefix _).eq_of_length all, List.takeWhile_cons_of_neg (by simp [sameId]),
      List.append_nil]
  · rfl

/-- The first delivery of the stub's event, behind all that comes ahead of it. -/
theorem first_delivery {event : Event} (listed : event ∈ batch)
    (sameId : event.eventId = held.eventId) :
    ∃ first after, batch = batch.takeWhile (·.eventId ≠ held.eventId) ++ first :: after ∧
      first.eventId = held.eventId := by
  induction batch with
  | nil => cases listed
  | cons other batch ih =>
      by_cases here : other.eventId = held.eventId
      · exact ⟨other, batch, by rw [List.takeWhile_cons_of_neg (by simp [here])]; rfl, here⟩
      · have later : event ∈ batch := by
          rcases List.mem_cons.mp listed with rfl | later
          · exact absurd sameId here
          · exact later
        obtain ⟨first, after, split, firstId⟩ := ih later
        refine ⟨first, after, ?_, firstId⟩
        rw [List.takeWhile_cons_of_pos (by simp [here]), List.cons_append, ← split]

theorem start_running (clock : Option HLC)
    (wanted : Wanted platform receiver dest source trust pullerNode scope held) :
    ¬ (AdmitState.start dest clock).Halted held.originNode := by
  rintro (frozen | poisoned)
  · exact start_thawed clock wanted.thawed frozen
  · cases poisoned

theorem unhindered_of_upgrades (collisionFree : CollisionFree platform)
    (admitted : dest.log.Admitted platform) (sourceAdmitted : source.log.Admitted platform)
    (wanted : Wanted platform receiver dest source trust pullerNode scope held)
    (upgrades : Upgrades platform receiver dest source clock trust pullerNode held) :
    ∃ batch, servePull platform dest.log source.log (some trust) (some pullerNode)
        receiver.requestedScopes = .ok batch ∧
      Unhindered platform receiver dest clock batch held := by
  obtain ⟨final, pulled, row, rowHeld, sameId, whole⟩ := upgrades
  simp only [pull, bind_ok] at pulled
  obtain ⟨batch, served, done⟩ := pulled
  obtain ⟨before, event, after, middle, rfl, reached, running, eventId, verified⟩ :=
    foldlM_upgrades wanted.inLog wanted.stub done rowHeld sameId whole
  obtain ⟨stub, _, _, _, _, only⟩ :=
    served_full collisionFree admitted sourceAdmitted wanted served
  refine ⟨_, served, (admitBatch_succeeds_iff collisionFree admitted clock _).mp ⟨final, done⟩,
    fun other listed otherId => ?_, ?_⟩
  · rw [only other listed otherId,
      ← only event (List.mem_append_right _ List.mem_cons_self) eventId]
    exact verified
  · obtain ⟨origin, originVerified, stems⟩ := admitted.stemmed held wanted.inLog
    obtain ⟨_, _, _, _, node, _⟩ :=
      stemmed_same collisionFree stems originVerified verified eventId.symm
    rw [takeWhile_ahead eventId]
    obtain ⟨rest, split⟩ := List.takeWhile_prefix (l := before) (·.eventId ≠ held.eventId)
    rw [← split, List.foldlM_append, bind_ok] at reached
    obtain ⟨ahead, first, second⟩ := reached
    have open_ : ¬ ahead.Halted held.originNode := by
      intro halted
      have still := ((foldlM_leaves second).halted _ halted).1
      rw [node] at still
      exact running still
    have undisturbed := ((foldlM_running (headsBound_start dest clock) first _).mp open_).2
    rw [headsAgree_start] at undisturbed
    exact undisturbed

theorem upgrades_of_unhindered (collisionFree : CollisionFree platform)
    (admitted : dest.log.Admitted platform) (sourceAdmitted : source.log.Admitted platform)
    (wanted : Wanted platform receiver dest source trust pullerNode scope held)
    (served : servePull platform dest.log source.log (some trust) (some pullerNode)
      receiver.requestedScopes = .ok batch)
    (unhindered : Unhindered platform receiver dest clock batch held) :
    Upgrades platform receiver dest source clock trust pullerNode held := by
  obtain ⟨final, done⟩ := (admitBatch_succeeds_iff collisionFree admitted clock batch).mpr
    unhindered.accommodated
  obtain ⟨event, listed, eventId, ⟨payload, carried⟩, requested, only⟩ :=
    served_full collisionFree admitted sourceAdmitted wanted served
  have verified := unhindered.verified event listed eventId
  obtain ⟨first, after, split, firstId⟩ := first_delivery listed eventId
  have same : first = event :=
    only first (by rw [split]; exact List.mem_append_right _ List.mem_cons_self) firstId
  subst same
  obtain ⟨origin, originVerified, stems⟩ := admitted.stemmed held wanted.inLog
  obtain ⟨_, _, _, _, node, seq⟩ :=
    stemmed_same collisionFree stems originVerified verified eventId.symm
  have found : dest.log.rowAt first.originNode first.originSeq = some held := by
    rw [← node, ← seq]
    exact admitted.rowAt wanted.inLog
  have folded := done
  unfold admitBatch at folded
  rw [split] at folded
  simp only [List.foldlM_append, List.foldlM_cons, bind_ok] at folded
  obtain ⟨ahead, reached, next, one, rest⟩ := folded
  -- the origin is open when the event comes
  have running : ¬ ahead.Halted first.originNode := by
    rw [← node]
    refine (foldlM_running (headsBound_start dest clock) reached _).mpr
      ⟨start_running clock wanted, ?_⟩
    rw [headsAgree_start]
    exact unhindered.undisturbed
  have bound : HeadsBound ahead :=
    foldlM_invariant (fun _ _ _ _ kept one => admitStep_headsBound kept (admitOne_ok one))
      (headsBound_start dest clock) reached
  obtain ⟨now, foundNow, nowId, _⟩ := ((foldlM_leaves reached).rows _ _ _ found).found
  have stored : storableText first.originNode = true := by
    rw [← node]
    exact admitted.origins held wanted.inLog
  obtain ⟨upgraded, foundUpgraded, upgradedId, whole⟩ := admitOne_upgrades bound running foundNow
    (nowId.trans eventId.symm) carried stored requested verified one
  obtain ⟨last, foundLast, lastId, kept⟩ :=
    ((foldlM_leaves rest).rows _ _ _ foundUpgraded).found
  refine ⟨final, ?_, last, rowAt_mem foundLast, lastId.trans (upgradedId.trans eventId),
    kept whole⟩
  simp only [pull, bind_ok]
  exact ⟨batch, served, done⟩

/-- In every pair of reachable stores, a pull that requests the scope of a stub, which the source
grants and holds in full, upgrades the stub exactly where nothing hinders it. -/
theorem backfill_complete_iff (collisionFree : CollisionFree platform)
    {destSteps sourceSteps : List ForkRecovery.Step}
    (destRun : Run (Run.when Reduces (ForkRecovery.Performed platform readPayload)) {} destSteps
      dest)
    (sourceRun : Run (Run.when Reduces (ForkRecovery.Performed platform readPayload)) {}
      sourceSteps source)
    (wanted : Wanted platform receiver dest source trust pullerNode scope held)
    (clock : Option HLC) :
    Upgrades platform receiver dest source clock trust pullerNode held ↔
      ∃ batch, servePull platform dest.log source.log (some trust) (some pullerNode)
          receiver.requestedScopes = .ok batch ∧
        Unhindered platform receiver dest clock batch held := by
  have admitted := run_performed_admitted collisionFree destRun
  have sourceAdmitted := run_performed_admitted collisionFree sourceRun
  constructor
  · exact unhindered_of_upgrades collisionFree admitted sourceAdmitted wanted
  · rintro ⟨batch, served, unhindered⟩
    exact upgrades_of_unhindered collisionFree admitted sourceAdmitted wanted served unhindered

end Pull

/-! ## A refused event ahead of a stub -/

namespace RefusedAhead

/-- Some run reaches the store. -/
def Reached (store : Store) : Prop :=
  ∃ steps, Run (Run.when Reduces (ForkRecovery.Performed plainPlatform fun _ => none)) {} steps store

/-- A source that has its first event back, and has gone on from there. -/
structure Ahead (event : Event) (source : Store) (row : EventRow) : Prop where
  reached : Reached source
  first : event.originNode = "node" ∧ event.originSeq = 1
  rows : source.log.events.rows = [storedRow event 0 true, row]
  node : row.originNode = "node"
  seq : row.originSeq = 2
  key : row.signingKeyRef = some "node"

theorem ahead {event : Event} {scope : Option String}
    (sent : Sent "node" (.claimRecorded plainClaim) scope event) :
    ∃ source row, Ahead event source row := by
  have named : "node" ≠ "" := by decide
  have arrives := sent.arrives
  obtain ⟨first, middle, called, inserted, written, _, _, ready⟩ :=
    arrive_whole (show ({} : Store).log.Ready plainPlatform 0 from empty_ready) rfl arrives none 0
      sent.originSeq sent.prevHash rfl rfl plainClaim_writable
      fun _ _ _ _ => reduce_claim {} (by rw [arrives.hlc]; rfl) arrives.carried
  obtain ⟨log, next, row, entered, done, emitted, _⟩ := plain_emit ready (by decide) named
    (by decide) 1 0 plainClaim_writable none (by intro scope set; cases set)
  have minted := emitted.minted
  have stamp : next.hlc = ((Emitter.start (plainIdentity "node" named)).hlc.tick 1).stamp := by
    rw [minted.envelope]
    rfl
  have parses : (parseHlc next.hlc).isSome = true := by
    rw [stamp]
    have parsed : parseHlc ({ node := "node", physicalMs := 1, logical := 0 } : HLC).stamp =
        some (1, 0, "node") := parseHlc_stamp { node := "node", physicalMs := 1, logical := 0 }
      named (show 1 < 2 ^ 63 by decide) (show 0 < 2 ^ 63 by decide)
    exact Option.isSome_iff_exists.mpr ⟨_, parsed⟩
  obtain ⟨projections, reduced⟩ := @reduce_claim log .stored next _ first.projections parses
    minted.payload
  have firstRows : first.log.events.rows = [storedRow event 0 true] := by
    rw [insertPayload_events written, inserted.rows]
    rfl
  have origin : row.originNode = "node" := by
    rw [emitted.inserted.links.1, minted.envelope]
    rfl
  have emits : Called plainPlatform (fun _ => none) first
      (.emitReduce .stored (Emitter.start (plainIdentity "node" named)) true 1 0
        (plainRequest (.claimRecorded plainClaim) none))
      { first with log := log, projections := projections } := called_emitReduce done reduced
  refine ⟨{ first with log := log, projections := projections }, row,
    ⟨[.call _, .call _], .cons ⟨id, called⟩ (.cons ⟨id, emits⟩ (.nil _))⟩,
    ⟨sent.originNode, sent.originSeq⟩, ?_, origin, ?_, ?_⟩
  · change log.events.rows = _
    rw [insertPayload_events emitted.payload, emitted.inserted.rows, firstRows]
    rfl
  · have follows := (follows_iff.mp (emitted_follows emitted)).1
    rw [follows, origin, ← headSeq_eq, SilentFork.headSeq_single firstRows]
    simp [storedRow, sent.originNode, sent.originSeq]
  · obtain ⟨_, _, shape⟩ := emitted.inserted.envelope
    rw [shape]
    exact minted.signingKeyRef

/-- The receiver asks for the scope, and trusts the key of its origin no more. -/
def puller : Receiver := plainReceiver "peer" (some ["team"]) 0

def trust : TrustRegistry := { plainTrust ["node"] with grants := [("peer", ["team"])] }

theorem refused {event : Event} (key : event.signingKeyRef = some "node") :
    puller.refusal plainPlatform event ≠ none := by
  intro passed
  obtain ⟨_, _, attested⟩ := refusal_eq_none passed
  obtain ⟨_, keyRef, _, _, named, _, verified, _⟩ := attested.accepted
  have same : keyRef = "node" := Option.some.inj (named.symm.trans key)
  subst same
  simp [resolveAndVerifyProvenance, puller, plainReceiver, plainKeys, Dict.get?_cons] at verified

/-- A destination that holds the first event as a stub, and a source that is ahead of it. -/
structure Behind (dest source : Store) (held : EventRow) : Prop where
  destRun : Reached dest
  sourceRun : Reached source
  wanted : Wanted plainPlatform puller dest source trust "peer" "team" held

theorem behind : ∃ event dest source held row, Behind dest source held ∧
    dest.log.events.rows = [held] ∧ held.originNode = "node" ∧ held.originSeq = 1 ∧
    held.eventId = event.eventId ∧ Ahead event source row := by
  obtain ⟨event, sent⟩ := StrippedScope.sent
  obtain ⟨dest, called, rows, security⟩ := ScopedStub.stored_stub sent.arrives.withoutScope
    sent.originSeq sent.prevHash
  obtain ⟨source, row, ahead⟩ := ahead sent
  refine ⟨event, dest, source, _, row,
    ⟨⟨[.call _], .cons ⟨id, called⟩ (.nil _)⟩, ahead.reached, ?_⟩, rows, sent.originNode,
    sent.originSeq, rfl, ahead⟩
  exact {
    inLog := ScopedStub.mem_of_rows rows
    stub := rfl
    digest := sent.scopeDigest
    thawed := by
      rw [security]
      intro evidence held
      cases held
    requested := ⟨["team"], rfl, List.mem_singleton_self _⟩
    granted := by decide
    full := ⟨storedRow event 0 true, by
      rw [← Table.mem_rows, ahead.rows]
      exact List.mem_cons_self, rfl, rfl, sent.scopeRef⟩ }

/-- What a source makes of an event keeps its names. -/
theorem served_names (original : Event) (offer : List String) (others : List Event) :
    ∃ event rest, serveBatch (original :: others) offer = event :: rest ∧
      event.eventId = original.eventId ∧ event.originNode = original.originNode ∧
      event.originSeq = original.originSeq ∧ event.signingKeyRef = original.signingKeyRef := by
  refine ⟨_, _, List.map_cons, ?_⟩
  unfold withhold
  split_ifs <;> exact ⟨rfl, rfl, rfl, rfl⟩

/-- The batch begins with the event that the destination does not hold. -/
theorem begins {event : Event} {dest source : Store} {held row : EventRow} {batch : List Event}
    (rows : dest.log.events.rows = [held]) (node : held.originNode = "node")
    (seq : held.originSeq = 1) (ahead : Ahead event source row)
    (served : servePull plainPlatform dest.log source.log (some trust) (some "peer")
      puller.requestedScopes = .ok batch) :
    ∃ first rest, batch = first :: rest ∧ first.eventId = row.eventId ∧
      first.originNode = "node" ∧ first.originSeq = 2 ∧ first.signingKeyRef = some "node" := by
  obtain ⟨stream, backfill, read, rfl, _⟩ :=
    @servePull_parts plainPlatform ⟨true, puller, none, some trust, some "peer"⟩ _ _ _ served
  have reach : ∀ origin, ((frontier dest.log).get? origin).getD 0 =
      if "node" = origin then 1 else 0 := by
    intro origin
    rw [frontier_getD, SilentFork.headSeq_single rows, node, seq]
  have inSource : ∀ other, other ∈ source.log.events ↔
      other = storedRow event 0 true ∨ other = row := by
    intro other
    rw [← Table.mem_rows, ahead.rows]
    simp
  obtain ⟨any, inStream, _⟩ := readStream_serves read ((inSource row).mpr (.inr rfl)) (by
    rw [reach, ahead.node, ahead.seq]
    decide)
  cases stream with
  | nil => cases inStream
  | cons original others =>
      obtain ⟨other, otherHeld, envelope, beyond⟩ :=
        mem_readStream_beyond read List.mem_cons_self
      have own : other = row := by
        rcases (inSource other).mp otherHeld with rfl | own
        · -- the first event is not beyond what the destination holds
          have at_ : original.originNode = "node" ∧ original.originSeq = 1 := by
            rw [envelope]
            exact ahead.first
          rw [reach, at_.1, at_.2] at beyond
          exact absurd beyond (by decide)
        · exact own
      rw [own] at envelope
      obtain ⟨first, rest, made, eventId, firstNode, firstSeq, firstKey⟩ :=
        served_names original _ others
      refine ⟨first, _, by rw [made]; rfl, ?_, ?_, ?_, ?_⟩
      · rw [eventId, envelope]
      · rw [firstNode, envelope]
        exact ahead.node
      · rw [firstSeq, envelope]
        exact ahead.seq
      · rw [firstKey, envelope]
        exact ahead.key

/-- The new event is refused, and the stub behind it in the batch stays a stub. -/
theorem not_upgraded : ∃ dest source held, Behind dest source held ∧
    ¬ Upgrades plainPlatform puller dest source none trust "peer" held := by
  obtain ⟨event, dest, source, held, row, behind, rows, node, seq, named, ahead⟩ := behind
  obtain ⟨_, destRun⟩ := behind.destRun
  obtain ⟨_, sourceRun⟩ := behind.sourceRun
  refine ⟨dest, source, held, behind, fun upgrades => ?_⟩
  obtain ⟨batch, served, unhindered⟩ := unhindered_of_upgrades plainPlatform_collisionFree
    (run_performed_admitted plainPlatform_collisionFree destRun)
    (run_performed_admitted plainPlatform_collisionFree sourceRun) behind.wanted upgrades
  obtain ⟨first, rest, rfl, firstId, firstNode, firstSeq, firstKey⟩ :=
    begins rows node seq ahead served
  have differs : first.eventId ≠ held.eventId := by
    intro same
    have inSource : storedRow event 0 true ∈ source.log.events ∧ row ∈ source.log.events := by
      rw [← Table.mem_rows, ← Table.mem_rows, ahead.rows]
      simp
    have one := Table.eq_of_key inSource.2 inSource.1 (firstId.symm.trans (same.trans named))
    have two := ahead.seq
    rw [one] at two
    exact absurd (ahead.first.2.symm.trans two) (by decide)
  have undisturbed := unhindered.undisturbed
  rw [List.takeWhile_cons_of_pos (by simpa using differs),
    List.filter_cons_of_pos (by simp [firstNode, node])] at undisturbed
  unfold Undisturbed at undisturbed
  rw [if_neg (by
    rw [← headSeq_eq, SilentFork.headSeq_single rows, node, seq, firstSeq]
    decide)] at undisturbed
  exact refused firstKey undisturbed.2.2.1

/-- The condition decides the upgrade in these stores. -/
theorem upgraded_iff_unhindered : ∃ dest source held, Behind dest source held ∧
    (Upgrades plainPlatform puller dest source none trust "peer" held ↔
      ∃ batch, servePull plainPlatform dest.log source.log (some trust) (some "peer")
          puller.requestedScopes = .ok batch ∧
        Unhindered plainPlatform puller dest none batch held) := by
  obtain ⟨_, dest, source, held, _, behind, _⟩ := behind
  obtain ⟨_, destRun⟩ := behind.destRun
  obtain ⟨_, sourceRun⟩ := behind.sourceRun
  exact ⟨dest, source, held, behind, backfill_complete_iff plainPlatform_collisionFree destRun
    sourceRun behind.wanted none⟩

end RefusedAhead

end Backfill

end Kawa
