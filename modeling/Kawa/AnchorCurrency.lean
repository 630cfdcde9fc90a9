import Kawa.ScopeSafe
import Kawa.WorkRuns

/-!
The current definition of a plan or a work, twice.  The reducer takes the causally latest one;
the retrieval takes the first origin and, of that origin, the greatest sequence number.
-/

namespace Kawa

open Result Latest

/-! ## The plans that the reducer keeps -/

/-- The plan rows are as before. -/
def SamePlans (before after : Projections) : Prop := after.currentPlans = before.currentPlans

section Frame

variable {log : Log} {scan : Scan} {before after : Projections}

theorem recomputeWorkState_plans {workRef : String}
    (done : recomputeWorkState log scan before workRef = .ok after) : SamePlans before after := by
  simp only [recomputeWorkState, bind_ok] at done
  obtain ⟨derive, _, done⟩ := done
  cases derive with
  | none =>
      cases done
      rfl
  | some derive =>
      simp only [bind_ok] at done
      obtain ⟨result, _, done⟩ := done
      split at done <;> cases done <;> rfl

theorem settleEdges_plans {workRef : String} {onlyDependent : Option String}
    (done : settleEdges log before workRef onlyDependent = .ok after) :
    SamePlans before after := by
  unfold settleEdges at done
  split at done
  · cases done
    rfl
  · simp only [applyLatestResultToDependents, bind_ok] at done
    obtain ⟨result, _, done⟩ := done
    split at done <;> cases done <;> rfl

theorem propagateToDependents_plans {workRef : String}
    (done : propagateToDependents log scan before workRef = .ok after) :
    SamePlans before after := by
  simp only [propagateToDependents, bind_ok] at done
  obtain ⟨settled, edges, folded⟩ := done
  have kept : SamePlans settled after :=
    foldlM_invariant (fun state _ next _ (held : SamePlans settled state) step =>
      (recomputeWorkState_plans step).trans held) rfl folded
  exact kept.trans (settleEdges_plans edges)

/-- Only the two branches of a plan touch the plan rows. -/
theorem reducePayload_plans {event : Envelope} {payload : Payload} {touched : Bool}
    (other : payload.plan? = none)
    (done : reducePayload log scan before event (some payload) = .ok (after, touched)) :
    SamePlans before after := by
  cases payload with
  | planCreated p => cases other
  | planLifecycleChanged p => cases other
  | workDerived p =>
      obtain ⟨_, own, made⟩ := map_ok.mp done
      cases made
      exact recomputeWorkState_plans own
  | workDependencyDeclared p =>
      obtain ⟨_, own, made⟩ := map_ok.mp done
      cases made
      simp only [declareDependency, bind_ok] at own
      obtain ⟨settled, edges, work⟩ := own
      have declared := settleEdges_plans edges
      exact (recomputeWorkState_plans work).trans declared
  | resultRecorded p =>
      obtain ⟨_, own, made⟩ := map_ok.mp done
      cases made
      simp only [reduceResult, bind_ok] at own
      obtain ⟨contained, containing, recomputed, work, dependents⟩ := own
      have kept : SamePlans before contained := by
        unfold containOccurrence at containing
        split at containing
        · simp only [requarantineOccurrence, bind_ok] at containing
          obtain ⟨consumers, _, containing⟩ := containing
          split at containing <;> cases containing <;> rfl
        · cases containing
          rfl
      exact (propagateToDependents_plans dependents).trans
        ((recomputeWorkState_plans work).trans kept)
  | workRetired p =>
      obtain ⟨_, own, made⟩ := map_ok.mp done
      cases made
      simp only [reduceRetired, bind_ok] at own
      obtain ⟨recomputed, work, dependents⟩ := own
      exact (propagateToDependents_plans dependents).trans (recomputeWorkState_plans work)
  | linkAsserted p =>
      obtain ⟨_, own, made⟩ := map_ok.mp done
      cases made
      simp only [insertLink, bind_ok, pure_ok] at own
      obtain ⟨_, _, _, _, _, _, rfl⟩ := own
      rfl
  | observationRecorded p =>
      cases done
      rfl
  | claimRecorded p =>
      cases done
      rfl
  | authorityConfiguration p =>
      cases done
      rfl
  | authorityReceipt p =>
      cases done
      rfl

/-- A reduction is its payload's branch, with the plans left alone around it. -/
theorem reduce_plans {event : Event} {payload : Payload} (carried : event.payload = some payload)
    (reduced : reduce log scan event before = .ok after) :
    ∃ linked middle touched, SamePlans before linked ∧
      reducePayload log scan linked event.toEnvelope (some payload) = .ok (middle, touched) ∧
      SamePlans middle after := by
  simp only [reduce, bind_ok] at reduced
  obtain ⟨⟨linked, any⟩, resolved, ⟨middle, touched⟩, own, finished⟩ := reduced
  rw [carried] at own
  refine ⟨linked, middle, touched, ?_, own, ?_⟩
  · simp only [resolveHeld, bind_ok] at resolved
    obtain ⟨parts, _, resolved⟩ := resolved
    split at resolved <;> cases resolved <;> rfl
  · by_cases again : (any || touched) = true
    · rw [if_pos again, pure_ok] at finished
      subst finished
      rfl
    · rw [if_neg again, pure_ok] at finished
      subst finished
      rfl

end Frame

/-! ## The latest creation -/

def Log.kindOf (log : Log) (eventId : String) : Option EventKind :=
  (log.events.find? eventId).map (·.kind)

/-- The facts of a plan that are stored under the kind plan.created. -/
def Log.createdRows (log : Log) (planRef : String) : List EventPlanRow :=
  log.eventPlan.rows.filter fun row =>
    row.planRef = planRef ∧ log.kindOf row.eventId = some .planCreated

def createdOf (log : Log) (planRef : String) : Option EventPlanRow :=
  log.latestOf (·.eventId) (log.createdRows planRef)

theorem latestPlanCreated_ok {log : Log} {planRef : String} {found : Option EventPlanRow}
    (read : latestPlanCreated log planRef = .ok found) : found = createdOf log planRef := by
  have joined : (log.joined (·.eventId) (log.eventPlan.rows.filter (·.planRef = planRef))).filter
      (fun pair => pair.1.kind = .planCreated) =
      log.joined (·.eventId) (log.createdRows planRef) := by
    unfold Log.createdRows Log.joined Log.kindOf
    induction log.eventPlan.rows with
    | nil => rfl
    | cons row rows ih =>
        by_cases named : row.planRef = planRef
        · cases held : log.events.find? row.eventId with
          | none => simpa [named, held] using ih
          | some event =>
              by_cases kind : event.kind = .planCreated
              · simpa [named, held, kind] using ih
              · simpa [named, held, kind] using ih
        · simpa [named] using ih
  unfold latestPlanCreated at read
  rw [joined] at read
  exact latestRow_ok read

/-- Every plan row has the objective of the latest creation. -/
structure PlanSound (log : Log) (projections : Projections) : Prop where
  held : ∀ fact ∈ log.eventPlan, ∃ row ∈ log.events, row.eventId = fact.eventId
  placed : ∀ left ∈ log.events, ∀ right ∈ log.events, left.originNode = right.originNode →
    left.originSeq = right.originSeq → left = right
  plans : ∀ row ∈ projections.currentPlans, ∃ created, createdOf log row.planRef = some created ∧
    created.objective = some row.objective

theorem kindOf_of_mem {log : Log} {row : EventRow} {eventId : String} (stored : row ∈ log.events)
    (named : row.eventId = eventId) : log.kindOf eventId = some row.kind := by
  unfold Log.kindOf
  rw [← named, Table.find?_of_mem stored]
  rfl

/-- Rows that were held keep their keys and kinds, so a plan without new facts keeps its latest
creation. -/
theorem createdOf_kept {log next : Log} {planRef : String}
    (held : ∀ fact ∈ log.eventPlan, ∃ row ∈ log.events, row.eventId = fact.eventId)
    (kept : ∀ row ∈ log.events, ∃ now ∈ next.events, row.Became now)
    (facts : next.eventPlan.rows.filter (·.planRef = planRef) =
      log.eventPlan.rows.filter (·.planRef = planRef)) :
    createdOf next planRef = createdOf log planRef := by
  have split : ∀ log : Log, log.createdRows planRef =
      (log.eventPlan.rows.filter (·.planRef = planRef)).filter
        (fun row => log.kindOf row.eventId = some .planCreated) := by
    intro log
    unfold Log.createdRows
    rw [List.filter_filter]
    congr 1
    funext row
    simp [Bool.and_comm]
  have rows : next.createdRows planRef = log.createdRows planRef := by
    rw [split, split, facts]
    refine List.filter_congr fun fact member => ?_
    obtain ⟨row, stored, named⟩ := held fact (List.mem_filter.mp member).1
    obtain ⟨now, inNext, became⟩ := kept row stored
    have same : now.eventId = fact.eventId ∧ now.kind = row.kind := by
      unfold EventRow.Became at became
      rw [became]
      exact ⟨named, rfl⟩
    rw [kindOf_of_mem stored named, kindOf_of_mem inNext same.1, same.2]
  unfold createdOf
  rw [rows]
  refine keyed_congr fun fact member => keyOf_kept kept ?_
  exact held fact (List.mem_filter.mp member).1

variable {platform : Platform} {readPayload : String → Option Payload}

theorem insertPayload_planRows {log next : Log} {eventId : String} {payload : Payload}
    (inserted : insertPayload platform log eventId payload = .ok next) :
    ∃ added, next.eventPlan.rows = log.eventPlan.rows ++ added := by
  cases payload <;>
    simp only [insertPayload, insertPlanCreated, insertPlanLifecycleChanged, insertWorkDerived,
      insertWorkRetired, insertWorkDependencyDeclared, insertResultRecorded, insertLinkAsserted,
      insertObservationRecorded, insertClaimRecorded, insertAuthorityConfiguration,
      insertAuthorityReceipt, bind_ok, pure_ok] at inserted <;>
    first
      | obtain ⟨table, inserted, rfl⟩ := inserted
      | obtain ⟨_, _, table, inserted, rfl⟩ := inserted
  all_goals
    first
      | exact ⟨_, insertRow_rows inserted⟩
      | exact ⟨[], (List.append_nil _).symm⟩

theorem PlanSound.stable {log next : Log} {before after : Projections}
    (sound : PlanSound log before) (facts : next.eventPlan = log.eventPlan)
    (kept : ∀ row ∈ log.events, ∃ now ∈ next.events, row.Became now)
    (placed : ∀ left ∈ next.events, ∀ right ∈ next.events, left.originNode = right.originNode →
      left.originSeq = right.originSeq → left = right)
    (same : SamePlans before after) : PlanSound next after := by
  refine ⟨fun fact member => ?_, placed, fun row member => ?_⟩
  · rw [facts] at member
    obtain ⟨row, stored, named⟩ := sound.held fact member
    obtain ⟨now, inNext, became⟩ := kept row stored
    refine ⟨now, inNext, ?_⟩
    unfold EventRow.Became at became
    rw [became]
    exact named
  · rw [same] at member
    rw [createdOf_kept sound.held kept (by rw [facts])]
    exact sound.plans row member

/-- The row of a plan, as it is recomputed. -/
theorem recomputePlanState_created {log : Log} {before after : Projections} {planRef : String}
    (done : recomputePlanState log before planRef = .ok after) :
    (after = before ∧ createdOf log planRef = none) ∨
    ∃ created objective, createdOf log planRef = some created ∧
      created.objective = some objective ∧
      ∀ row ∈ after.currentPlans, row.planRef = planRef ∧ row.objective = objective ∨
        row.planRef ≠ planRef ∧ row ∈ before.currentPlans := by
  simp only [recomputePlanState, bind_ok] at done
  obtain ⟨created, read, done⟩ := done
  have current := latestPlanCreated_ok read
  cases created with
  | none =>
      cases done
      exact .inl ⟨rfl, current.symm⟩
  | some created =>
      simp only [bind_ok] at done
      obtain ⟨moved, _, done⟩ := done
      split at done
      · cases done
      · split at done <;> cases done
        rename_i objective _ given _
        refine .inr ⟨created, objective, current.symm, given, fun row member => ?_⟩
        rcases Table.mem_upsert.mp member with ⟨rfl, _⟩ | ⟨old, _, named, rfl⟩ | ⟨held, apart⟩
        · exact .inl ⟨rfl, rfl⟩
        · exact .inl ⟨named, rfl⟩
        · exact .inr ⟨apart, held⟩

theorem PlanSound.reduce {log next : Log} {before after : Projections} {scan : Scan} {event : Event}
    {payload : Payload} (sound : PlanSound log before)
    (stored : ∃ row ∈ log.events, row.eventId = event.eventId)
    (carried : event.payload = some payload)
    (inserted : insertPayload platform log event.eventId payload = .ok next)
    (reduced : Kawa.reduce next scan event before = .ok after) : PlanSound next after := by
  have events := insertPayload_events inserted
  obtain ⟨linked, middle, touched, around, own, rest⟩ := reduce_plans carried reduced
  have kept : ∀ row ∈ log.events, ∃ now ∈ next.events, row.Became now := fun row inLog =>
    ⟨row, by rw [events]; exact inLog, .refl row⟩
  have held : ∀ fact ∈ next.eventPlan, ∃ row ∈ next.events, row.eventId = fact.eventId := by
    intro fact member
    rw [events]
    rcases insertPayload_eventPlan inserted fact member with old | ⟨named, _⟩
    · exact sound.held fact old
    · rw [named]
      exact stored
  have placed : ∀ left ∈ next.events, ∀ right ∈ next.events, left.originNode = right.originNode →
      left.originSeq = right.originSeq → left = right := by
    rw [events]
    exact sound.placed
  have others : ∀ planRef, payload.plan? ≠ some planRef →
      createdOf next planRef = createdOf log planRef := by
    intro planRef apart
    refine createdOf_kept sound.held kept ?_
    obtain ⟨added, rows⟩ := insertPayload_planRows inserted
    refine filter_added rows fun fact fresh => decide_eq_false fun named => apart ?_
    have member : fact ∈ next.eventPlan := by
      rw [← Table.mem_rows, rows]
      exact List.mem_append_right _ fresh
    rcases insertPayload_eventPlan inserted fact member with old | ⟨_, planned, _⟩
    · have nodup := next.eventPlan.rows_nodup
      rw [rows] at nodup
      exact absurd fresh (List.disjoint_of_nodup_append nodup old)
    · rw [planned, named]
  refine ⟨held, placed, fun row member => ?_⟩
  rw [rest] at member
  cases planned : payload.plan? with
  | none =>
      rw [reducePayload_plans planned own, around] at member
      rw [others row.planRef (by rw [planned]; simp)]
      exact sound.plans row member
  | some planRef =>
      have recomputed : recomputePlanState next linked planRef = .ok middle := by
        cases payload <;> cases planned
        · obtain ⟨_, done, made⟩ := map_ok.mp own
          cases made
          exact done
        · obtain ⟨_, done, made⟩ := map_ok.mp own
          cases made
          exact done
      have old : row ∈ linked.currentPlans → row.planRef ≠ planRef → ∃ created,
          createdOf next row.planRef = some created ∧ created.objective = some row.objective := by
        intro member apart
        rw [around] at member
        have unnamed : payload.plan? ≠ some row.planRef := by
          rw [planned]
          exact fun same => apart (Option.some.inj same).symm
        rw [others row.planRef unnamed]
        exact sound.plans row member
      rcases recomputePlanState_created recomputed with ⟨same, uncreated⟩ |
        ⟨created, objective, current, given, rows⟩
      · rw [same] at member
        refine old member fun named => ?_
        -- the creation that the row came from is still held
        rw [around] at member
        obtain ⟨created, was, _⟩ := sound.plans row member
        have inRows : created ∈ log.createdRows row.planRef := (latestOf_isLatest
          (fun fact member => sound.held fact (List.mem_filter.mp member).1) was).1
        obtain ⟨inLog, asked⟩ := List.mem_filter.mp inRows
        obtain ⟨ofPlan, kind⟩ := of_decide_eq_true asked
        unfold createdOf at uncreated
        have empty := (@latestOf_eq_none _ next (·.eventId) (next.createdRows planRef)
          fun fact member => held fact (List.mem_filter.mp member).1).mp uncreated
        have inNext : created ∈ next.createdRows planRef := by
          refine List.mem_filter.mpr ⟨(insertPayload_keeps inserted).eventPlan created inLog,
            decide_eq_true ⟨ofPlan.trans named, ?_⟩⟩
          unfold Log.kindOf at kind ⊢
          rw [events]
          exact kind
        rw [empty] at inNext
        cases inNext
      · rcases rows row member with ⟨named, fresh⟩ | ⟨apart, held⟩
        · rw [named, fresh]
          exact ⟨created, current, given⟩
        · exact old held apart

/-! ## Runs -/

/-- One event at each position of an origin. -/
def Log.Placed (log : Log) : Prop :=
  ∀ left ∈ log.events, ∀ right ∈ log.events, left.originNode = right.originNode →
    left.originSeq = right.originSeq → left = right

theorem Log.Placed.insert {log next : Log} {event : Event} {materialized : Bool}
    {recordedAt : Int} {row : EventRow} (placed : log.Placed)
    (inserted : EventInserted platform log event materialized recordedAt row next) :
    next.Placed := by
  have named : row.originNode = event.originNode ∧ row.originSeq = event.originSeq :=
    ⟨inserted.links.1, inserted.links.2.1⟩
  intro left leftHeld right rightHeld node seq
  rcases inserted.mem_iff.mp leftHeld with leftOld | rfl <;>
    rcases inserted.mem_iff.mp rightHeld with rightOld | rfl
  · exact placed left leftOld right rightOld node seq
  · exact absurd ⟨node.trans named.1, seq.trans named.2⟩ (inserted.position left leftOld)
  · exact absurd ⟨node.symm.trans named.1, seq.symm.trans named.2⟩
      (inserted.position right rightOld)
  · rfl

theorem Log.Placed.upgrade {log next : Log} {row : EventRow} {scopeRef : Option String}
    (placed : log.Placed) (upgraded : upgradeRow log row scopeRef = .ok next) : next.Placed := by
  have grows := grows_upgraded (fun _ => False) upgraded
  intro left leftHeld right rightHeld node seq
  obtain ⟨leftRow, leftLog, leftBecame⟩ := (grows.fresh left leftHeld).resolve_right id
  obtain ⟨rightRow, rightLog, rightBecame⟩ := (grows.fresh right rightHeld).resolve_right id
  unfold EventRow.Became at leftBecame rightBecame
  have one : leftRow = rightRow := by
    refine placed leftRow leftLog rightRow rightLog ?_ ?_
    · rw [leftBecame, rightBecame] at node
      exact node
    · rw [leftBecame, rightBecame] at seq
      exact seq
  refine Table.eq_of_key leftHeld rightHeld ?_
  rw [leftBecame, rightBecame, one]

theorem PlanSound.insert {log next : Log} {projections : Projections} {event : Event}
    {materialized : Bool} {recordedAt : Int} {row : EventRow} (sound : PlanSound log projections)
    (inserted : EventInserted platform log event materialized recordedAt row next) :
    PlanSound next projections := by
  obtain ⟨_, same⟩ := inserted.appended
  exact sound.stable (by rw [same]) (fun old inLog =>
    ⟨old, inserted.mem_iff.mpr (.inl inLog), .refl old⟩)
    (Log.Placed.insert sound.placed inserted) rfl

theorem PlanSound.upgrade {log next : Log} {projections : Projections} {row : EventRow}
    {scopeRef : Option String} (sound : PlanSound log projections)
    (upgraded : upgradeRow log row scopeRef = .ok next) : PlanSound next projections := by
  obtain ⟨_, _, same⟩ := upgradeRow_ok upgraded
  have grows := grows_upgraded (fun _ => False) upgraded
  exact sound.stable (by rw [same]) grows.kept (Log.Placed.upgrade sound.placed upgraded) rfl

theorem admitStep_planSound {receiver : Receiver} {state next : AdmitState} {event : Event}
    (sound : PlanSound state.store.log state.store.projections)
    (step : AdmitStep platform receiver state event next) :
    PlanSound next.store.log next.store.projections := by
  cases step with
  | kept log projections _ _ =>
      rw [log, projections]
      exact sound
  | upgraded row upgrade _ _ =>
      obtain ⟨payload, middle, carried, upgraded, written, reduced⟩ := upgrade.written
      have now : row.upgraded event.scopeRef ∈ middle.events :=
        (upgradeRow_mem upgraded).mpr (.inl ⟨row, rowAt_mem upgrade.found, rfl, rfl⟩)
      exact (sound.upgrade upgraded).reduce ⟨_, now, upgrade.sameId⟩ carried written reduced
  | inserted stored passed form write _ _ =>
      obtain ⟨log, row, inserted, wrote⟩ := write.written
      have entered := sound.insert inserted
      obtain ⟨_, _, shape⟩ := inserted.envelope
      rcases wrote with ⟨_, sameLog, sameProjections⟩ | ⟨payload, carried, written, reduced⟩
      · rw [sameLog, sameProjections]
        exact entered
      · exact entered.reduce ⟨row, inserted.mem_iff.mpr (.inr rfl), by rw [shape]⟩ carried written
          reduced

theorem called_planSound {store next : Store} {call : Call}
    (sound : PlanSound store.log store.projections) (reduces : ¬ call.unreduced)
    (called : Called platform readPayload store call next) :
    PlanSound next.log next.projections := by
  cases called_cases called with
  | emitted emitter now recordedAt request event row middle requested emitted projections =>
      have entered := sound.insert emitted.inserted
      rcases projections with ⟨unreduced, _⟩ | ⟨scan, reduced⟩
      · exact absurd unreduced reduces
      · obtain ⟨_, _, shape⟩ := emitted.inserted.envelope
        exact entered.reduce ⟨row, emitted.inserted.mem_iff.mpr (.inr rfl), by rw [shape]⟩
          emitted.minted.payload emitted.payload reduced
  | delivered receiver clock batch final offered admitted log projections =>
      rw [log, projections]
      exact admitBatch_invariant
        (fun state => PlanSound state.store.log state.store.projections)
        (fun _ _ _ _ kept step => admitStep_planSound kept step) sound admitted

theorem empty_planSound : PlanSound ({} : Store).log ({} : Store).projections := by
  refine ⟨?_, ?_, ?_⟩
  · intro fact held
    cases held
  · intro left held
    cases held
  · intro row held
    cases held

/-! ## The first by origin -/

/-- The order of a deterministic collation. -/
structure Collation (collate : String → String → Bool) : Prop where
  total : ∀ left right, (collate left right || collate right left) = true
  trans : ∀ left middle right, collate left middle = true → collate middle right = true →
    collate left right = true
  antisymm : ∀ left right, collate left right = true → collate right left = true → left = right

/-- An earlier origin, or a greater number of the same origin. -/
def EventRow.precedes (collate : String → String → Bool) (left right : EventRow) : Prop :=
  if left.originNode = right.originNode then right.originSeq < left.originSeq
  else collate left.originNode right.originNode = true

/-- The fact's event precedes those of all others. -/
def Log.FirstByOrigin {ρ : Type} (log : Log) (collate : String → String → Bool)
    (eventId : ρ → String) (among : ρ → Prop) (fact : ρ) : Prop :=
  ∀ other, among other → other ≠ fact → ∀ own ∈ log.events, own.eventId = eventId fact →
    ∀ theirs ∈ log.events, theirs.eventId = eventId other → own.precedes collate theirs

/-- `ORDER BY e.origin_node, e.origin_seq DESC` -/
def byOrigin (collate : String → String → Bool) {ρ : Type} (left right : ρ × EventRow) : Bool :=
  if left.2.originNode = right.2.originNode then decide (right.2.originSeq ≤ left.2.originSeq)
  else collate left.2.originNode right.2.originNode

section ByOrigin

variable {collate : String → String → Bool} {ρ : Type}

theorem byOrigin_total (collation : Collation collate) (left right : ρ × EventRow) :
    (byOrigin collate left right || byOrigin collate right left) = true := by
  unfold byOrigin
  by_cases same : left.2.originNode = right.2.originNode
  · rw [if_pos same, if_pos same.symm, Bool.or_eq_true, decide_eq_true_eq, decide_eq_true_eq]
    exact le_total _ _
  · rw [if_neg same, if_neg (Ne.symm same)]
    exact collation.total _ _

theorem byOrigin_trans (collation : Collation collate) (left middle right : ρ × EventRow)
    (first : byOrigin collate left middle = true) (second : byOrigin collate middle right = true) :
    byOrigin collate left right = true := by
  unfold byOrigin at first second ⊢
  by_cases one : left.2.originNode = middle.2.originNode
  · rw [if_pos one, decide_eq_true_eq] at first
    by_cases two : middle.2.originNode = right.2.originNode
    · rw [if_pos two, decide_eq_true_eq] at second
      rw [if_pos (one.trans two), decide_eq_true_eq]
      exact second.trans first
    · rw [if_neg two] at second
      rw [one, if_neg two]
      exact second
  · rw [if_neg one] at first
    by_cases two : middle.2.originNode = right.2.originNode
    · rw [← two, if_neg one]
      exact first
    · rw [if_neg two] at second
      have apart : left.2.originNode ≠ right.2.originNode := by
        intro same
        rw [same] at first
        exact two (collation.antisymm _ _ second first)
      rw [if_neg apart]
      exact collation.trans _ _ _ first second

/-- The two orders exclude each other. -/
theorem not_byOrigin (collation : Collation collate) {left right : ρ × EventRow}
    (before : left.2.precedes collate right.2) : byOrigin collate right left = false := by
  unfold EventRow.precedes at before
  unfold byOrigin
  by_cases same : left.2.originNode = right.2.originNode
  · rw [if_pos same] at before
    rw [if_pos same.symm, decide_eq_false_iff_not]
    omega
  · rw [if_neg same] at before
    rw [if_neg (Ne.symm same), Bool.eq_false_iff]
    exact fun after => same (collation.antisymm _ _ before after)

theorem precedes_of_byOrigin {left right : ρ × EventRow}
    (apart : left.2.originNode = right.2.originNode → left.2.originSeq ≠ right.2.originSeq)
    (before : byOrigin collate left right = true) : left.2.precedes collate right.2 := by
  unfold byOrigin at before
  unfold EventRow.precedes
  by_cases same : left.2.originNode = right.2.originNode
  · rw [if_pos same, decide_eq_true_eq] at before
    rw [if_pos same]
    have := apart same
    omega
  · rw [if_neg same] at before ⊢
    exact before

end ByOrigin

/-- The retrieval's choice among visible facts is the first by origin. -/
theorem latestFirst_head_iff {ρ : Type} {engine : TextEngine} {store : Store}
    {viewer : Finset String} {eventId : ρ → String} {rows : List ρ} {fact : ρ}
    (collation : Collation engine.collate)
    (placed : ∀ left ∈ store.log.events, ∀ right ∈ store.log.events,
      left.originNode = right.originNode → left.originSeq = right.originSeq → left = right)
    (keyed : ∀ left ∈ rows, ∀ right ∈ rows, eventId left = eventId right → left = right)
    (visible : ∀ fact ∈ rows, visibleEvent store viewer (eventId fact) = true)
    (member : fact ∈ rows) :
    (latestFirst engine store viewer eventId rows).head? = some fact ↔
      store.log.FirstByOrigin engine.collate eventId (· ∈ rows) fact := by
  have joins : ∀ fact ∈ rows, ∃ event ∈ store.log.events, event.eventId = eventId fact ∧
      event.visible viewer = true := by
    intro fact inRows
    have seen := visible fact inRows
    unfold visibleEvent at seen
    cases found : store.log.events.find? (eventId fact) with
    | none =>
        rw [found] at seen
        cases seen
    | some event =>
        rw [found] at seen
        obtain ⟨held, named⟩ := Table.find?_eq_some.mp found
        exact ⟨event, held, named, seen⟩
  let joined := rows.filterMap fun row =>
    (store.log.events.find? (eventId row)).bind fun event =>
      if event.visible viewer then some (row, event) else none
  have inJoined : ∀ pair, pair ∈ joined ↔ pair.1 ∈ rows ∧ pair.2 ∈ store.log.events ∧
      pair.2.eventId = eventId pair.1 := by
    intro pair
    constructor
    · intro held
      obtain ⟨row, inRows, made⟩ := List.mem_filterMap.mp held
      obtain ⟨event, found, made⟩ := Option.bind_eq_some_iff.mp made
      split at made
      · cases made
        obtain ⟨held, named⟩ := Table.find?_eq_some.mp found
        exact ⟨inRows, held, named⟩
      · cases made
    · rintro ⟨inRows, held, named⟩
      obtain ⟨event, stored, same, seen⟩ := joins pair.1 inRows
      have one : event = pair.2 := Table.eq_of_key stored held (same.trans named.symm)
      refine List.mem_filterMap.mpr ⟨pair.1, inRows, ?_⟩
      rw [← named, Table.find?_of_mem held, Option.bind_some, if_pos (one ▸ seen)]
  let sorted := joined.mergeSort (byOrigin engine.collate)
  have shape : latestFirst engine store viewer eventId rows = sorted.map (·.1) := rfl
  have ordered : sorted.Pairwise fun left right => byOrigin engine.collate left right = true :=
    List.pairwise_mergeSort (byOrigin_trans collation) (byOrigin_total collation) joined
  have inSorted : ∀ pair, pair ∈ sorted ↔ pair ∈ joined := fun pair =>
    (List.mergeSort_perm joined _).mem_iff
  obtain ⟨event, stored, named, _⟩ := joins fact member
  have here : (fact, event) ∈ sorted :=
    (inSorted _).mpr ((inJoined _).mpr ⟨member, stored, named⟩)
  rw [shape]
  cases split : sorted with
  | nil =>
      rw [split] at here
      cases here
  | cons head rest =>
      rw [split] at ordered here
      rw [List.map_cons, List.head?_cons, Option.some.injEq]
      have heads := (inJoined head).mp ((inSorted head).mp (by
        rw [split]
        exact List.mem_cons_self))
      constructor
      · rintro rfl other among apart own ownHeld ownNamed theirs held theirsNamed
        have same : own = head.2 :=
          Table.eq_of_key ownHeld heads.2.1 (ownNamed.trans heads.2.2.symm)
        have listed : (other, theirs) ∈ head :: rest := by
          rw [← split]
          exact (inSorted _).mpr ((inJoined _).mpr ⟨among, held, theirsNamed⟩)
        rcases List.mem_cons.mp listed with now | later
        · exact absurd (congrArg Prod.fst now) apart
        · rw [same]
          refine @precedes_of_byOrigin _ ρ head (other, theirs) (fun node seq => apart ?_)
            (List.rel_of_pairwise_cons ordered later)
          have one := placed head.2 heads.2.1 theirs held node seq
          exact keyed _ among _ heads.1 (by rw [← theirsNamed, ← one, heads.2.2])
      · intro first
        by_contra apart
        rcases List.mem_cons.mp here with now | later
        · exact apart (congrArg Prod.fst now).symm
        · have before := first head.1 heads.1 apart event stored named head.2 heads.2.1 heads.2.2
          have after := List.rel_of_pairwise_cons ordered later
          rw [@not_byOrigin _ ρ collation (fact, event) head before] at after
          cases after

section OfTable

variable {engine : TextEngine} {store : Store} {viewer : Finset String} {ρ : Type}
  {eventId : ρ → String} {table : Table ρ eventId} {test : ρ → Prop} [DecidablePred test] {fact : ρ}

/-- The choice among the rows of a table that pass a test. -/
theorem table_head_iff (collation : Collation engine.collate)
    (placed : ∀ left ∈ store.log.events, ∀ right ∈ store.log.events,
      left.originNode = right.originNode → left.originSeq = right.originSeq → left = right)
    (visible : ∀ fact, fact ∈ table ∧ test fact → visibleEvent store viewer (eventId fact) = true)
    (member : fact ∈ table ∧ test fact) :
    (latestFirst engine store viewer eventId (table.rows.filter test)).head? = some fact ↔
      store.log.FirstByOrigin engine.collate eventId (fun fact => fact ∈ table ∧ test fact)
        fact := by
  have among : ∀ fact, fact ∈ table.rows.filter test ↔ fact ∈ table ∧ test fact := by
    intro fact
    rw [List.mem_filter, decide_eq_true_iff, Table.mem_rows]
  have heads := @latestFirst_head_iff _ engine store viewer eventId (table.rows.filter test) fact
    collation placed
    (fun left leftHeld right rightHeld same => Table.eq_of_key ((among left).mp leftHeld).1
      ((among right).mp rightHeld).1 same)
    (fun fact inRows => visible fact ((among fact).mp inRows)) ((among fact).mpr member)
  simp only [among] at heads
  exact heads

/-- The first is known by the id of its event. -/
theorem table_selected (held : fact ∈ table)
    (selected : (latestFirst engine store viewer eventId (table.rows.filter test)).head?.map
      eventId = some (eventId fact)) :
    (latestFirst engine store viewer eventId (table.rows.filter test)).head? = some fact := by
  obtain ⟨first, now, same⟩ := Option.map_eq_some_iff.mp selected
  have inRows := (mem_latestFirst (List.mem_of_mem_head? now)).1
  rw [now, Table.eq_of_key (Table.mem_rows.mp (List.mem_filter.mp inRows).1) held same]

end OfTable

/-! ## The anchors -/

/-- The creation that the reducer treats as current. -/
def Log.CurrentCreation (log : Log) (planRef : String) (created : EventPlanRow) : Prop :=
  log.IsLatest (·.eventId) (· ∈ log.createdRows planRef) created

/-- The derivation that the reducer treats as current. -/
def Log.CurrentDerivation (log : Log) (workRef : String) (derive : EventWorkRow) : Prop :=
  log.IsLatest (·.eventId) (fun fact => fact ∈ log.eventWork ∧ fact.workRef = workRef) derive

/-- The facts that the retrieval looks for the objective of a plan. -/
def Log.Defines (log : Log) (planRef : String) (fact : EventPlanRow) : Prop :=
  fact ∈ log.eventPlan ∧ fact.planRef = planRef ∧ fact.objective.isSome = true

/-- The anchor of a plan shows the objective of the current row, and its content event is the one
that the row came from. -/
structure PlanCurrent (engine : TextEngine) (store : Store) (viewer : Finset String)
    (row : CurrentPlan) : Prop where
  shown : ∀ bound queryClass, bound.anchor = some (.plan, row.planRef) →
    execAnchor engine store viewer bound queryClass = .ok { records := [.record (plainRecord
      queryClass row.planRef "plan" (row.lifecycle.tag ++ row.objective) row.planRef none)] }
  selected : ∃ created, store.log.CurrentCreation row.planRef created ∧
    created.objective = some row.objective ∧
    anchorContentEvent engine store viewer (.plan, row.planRef) = some created.eventId

/-- The same of a work, with its kind and its plan. -/
structure WorkCurrent (engine : TextEngine) (store : Store) (viewer : Finset String)
    (row : CurrentWork) : Prop where
  shown : ∀ bound queryClass, bound.anchor = some (.work, row.workRef) →
    execAnchor engine store viewer bound queryClass = .ok { records := [.record (plainRecord
      queryClass row.workRef "work"
      ("[" ++ row.execution.value ++ "] " ++ row.workKind ++ " of " ++ row.planRef)
      row.workRef none)] }
  selected : ∃ derive, store.log.CurrentDerivation row.workRef derive ∧
    derive.workKind = row.workKind ∧ derive.planRef = row.planRef ∧
    anchorContentEvent engine store viewer (.work, row.workRef) = some derive.eventId

theorem Log.IsLatest.eventId_unique {ρ : Type} {log : Log} {eventId : ρ → String}
    {among : ρ → Prop} {left right : ρ} (one : log.IsLatest eventId among left)
    (two : log.IsLatest eventId among right) : eventId left = eventId right := by
  obtain ⟨inLeft, leftKey, leftAt, leftMost⟩ := one
  obtain ⟨inRight, rightKey, rightAt, rightMost⟩ := two
  obtain ⟨key, keyAt, below⟩ := leftMost right inRight
  obtain ⟨other, otherAt, above⟩ := rightMost left inLeft
  rw [rightAt, Option.some.injEq] at keyAt
  rw [leftAt, Option.some.injEq] at otherAt
  subst keyAt otherAt
  rw [le_antisymm above below] at leftAt
  exact keyOf_injective leftAt rightAt

section Anchors

variable {engine : TextEngine} {store : Store} {viewer : Finset String}

theorem plan_current_iff (collation : Collation engine.collate)
    (sound : PlanSound store.log store.projections) {row : CurrentPlan}
    (held : row ∈ store.projections.currentPlans)
    (visible : ∀ fact, store.log.Defines row.planRef fact →
      visibleEvent store viewer fact.eventId = true) :
    PlanCurrent engine store viewer row ↔ ∀ created, store.log.CurrentCreation row.planRef created →
      store.log.FirstByOrigin engine.collate (·.eventId) (store.log.Defines row.planRef)
        created := by
  obtain ⟨current, found, objective⟩ := sound.plans row held
  have latest : store.log.CurrentCreation row.planRef current :=
    latestOf_isLatest (fun fact member => sound.held fact (List.mem_filter.mp member).1) found
  obtain ⟨inPlans, asked⟩ := List.mem_filter.mp latest.1
  have unique : ∀ created, store.log.CurrentCreation row.planRef created → created = current := by
    intro created other
    exact Table.eq_of_key (List.mem_filter.mp other.1).1 inPlans (other.eventId_unique latest)
  have member : store.log.Defines row.planRef current :=
    ⟨inPlans, (of_decide_eq_true asked).1, by rw [objective]; rfl⟩
  have heads : latestObjective engine store viewer row.planRef = some current ↔ _ :=
    table_head_iff collation sound.placed visible member
  constructor
  · intro shown created other
    obtain ⟨chosen, isCurrent, _, selected⟩ := shown.selected
    rw [unique created other]
    refine heads.mp ?_
    rw [unique chosen isCurrent] at selected
    exact table_selected inPlans selected
  · intro first
    have now : latestObjective engine store viewer row.planRef = some current :=
      heads.mpr (first current latest)
    refine ⟨fun bound queryClass anchored => ?_, current, latest, objective, ?_⟩
    · unfold execAnchor
      rw [anchored]
      dsimp only
      rw [Table.find?_of_mem held, now, Option.bind_some, objective]
      rfl
    · unfold anchorContentEvent
      dsimp only
      rw [now]
      rfl

theorem work_current_iff (collation : Collation engine.collate)
    (placed : ∀ left ∈ store.log.events, ∀ right ∈ store.log.events,
      left.originNode = right.originNode → left.originSeq = right.originSeq → left = right)
    (sound : DagSound store.log store.projections) {row : CurrentWork}
    (held : row ∈ store.projections.currentWork)
    (visible : ∀ fact ∈ store.log.eventWork, fact.workRef = row.workRef →
      visibleEvent store viewer fact.eventId = true) :
    WorkCurrent engine store viewer row ↔ ∀ derive, store.log.CurrentDerivation row.workRef derive →
      store.log.FirstByOrigin engine.collate (·.eventId)
        (fun fact => fact ∈ store.log.eventWork ∧ fact.workRef = row.workRef) derive := by
  obtain ⟨current, found, ⟨plan, kind, _⟩, _⟩ := sound.work_row held
  have latest : store.log.CurrentDerivation row.workRef current := by
    have here := latestOf_isLatest
      (fun fact member => sound.held.derives fact (List.mem_filter.mp member).1) found
    simp only [Log.IsLatest, List.mem_filter, decide_eq_true_eq, Table.mem_rows] at here
    exact here
  have unique : ∀ derive, store.log.CurrentDerivation row.workRef derive → derive = current := by
    intro derive other
    exact Table.eq_of_key other.1.1 latest.1.1 (other.eventId_unique latest)
  have heads : latestWork engine store viewer row.workRef = some current ↔ _ :=
    table_head_iff collation placed (fun fact among => visible fact among.1 among.2) latest.1
  constructor
  · intro shown derive other
    obtain ⟨chosen, isCurrent, _, _, selected⟩ := shown.selected
    rw [unique derive other]
    refine heads.mp ?_
    rw [unique chosen isCurrent] at selected
    exact table_selected latest.1.1 selected
  · intro first
    have now : latestWork engine store viewer row.workRef = some current :=
      heads.mpr (first current latest)
    refine ⟨fun bound queryClass anchored => ?_, current, latest, kind.symm, plan.symm, ?_⟩
    · unfold execAnchor
      rw [anchored]
      dsimp only
      rw [Table.find?_of_mem held, now, kind, plan]
      rfl
    · unfold anchorContentEvent
      dsimp only
      rw [now]
      rfl

end Anchors

/-- The retrieval agrees with the reducer on an anchor whose definitions are all visible exactly
when the causally latest definition is also the first by origin. -/
theorem anchor_current_iff {calls : List Call} {store : Store}
    (run : Run (Run.when (fun _ call => ¬call.unreduced) (Called platform readPayload)) {} calls
      store) {engine : TextEngine} (collation : Collation engine.collate) (viewer : Finset String) :
    (∀ row ∈ store.projections.currentPlans,
      (∀ fact, store.log.Defines row.planRef fact →
        visibleEvent store viewer fact.eventId = true) →
      (PlanCurrent engine store viewer row ↔
        ∀ created, store.log.CurrentCreation row.planRef created →
          store.log.FirstByOrigin engine.collate (·.eventId) (store.log.Defines row.planRef)
            created)) ∧
    ∀ row ∈ store.projections.currentWork,
      (∀ fact ∈ store.log.eventWork, fact.workRef = row.workRef →
        visibleEvent store viewer fact.eventId = true) →
      (WorkCurrent engine store viewer row ↔
        ∀ derive, store.log.CurrentDerivation row.workRef derive →
          store.log.FirstByOrigin engine.collate (·.eventId)
            (fun fact => fact ∈ store.log.eventWork ∧ fact.workRef = row.workRef) derive) := by
  have plans : PlanSound store.log store.projections :=
    run.invariant (fun store => PlanSound store.log store.projections)
      (fun _ _ _ sound step => called_planSound sound step.1 step.2) empty_planSound
  have works : DagSound store.log store.projections :=
    run.invariant (fun store => DagSound store.log store.projections)
      (fun _ _ _ sound step => called_dag sound step.1 step.2) empty_dag
  exact ⟨fun row held visible => plan_current_iff collation plans held visible,
    fun row held visible => work_current_iff collation plans.placed works held visible⟩

/-! ## Two origins of one work -/

namespace Redefined

open Overshadowed

theorem collation : Collation Bounded.engine.collate where
  total left right := by
    change (decide (left ≤ right) || decide (right ≤ left)) = true
    rw [Bool.or_eq_true, decide_eq_true_eq, decide_eq_true_eq]
    exact le_total left right
  trans left middle right first second :=
    decide_eq_true ((of_decide_eq_true first).trans (of_decide_eq_true second))
  antisymm left right first second :=
    le_antisymm (of_decide_eq_true first) (of_decide_eq_true second)

theorem derived_fact {middle next : Log} {eventId : String}
    (written : insertPayload plainPlatform middle eventId (.workDerived FirstWork.work) =
      .ok next) :
    ∃ fact ∈ next.eventWork, fact.workRef = "work" ∧ fact.eventId = eventId := by
  simp only [insertPayload, insertWorkDerived, bind_ok, pure_ok] at written
  obtain ⟨_, _, works, inserted, same⟩ := written
  have held := insertRow_mem inserted
  rw [← same]
  exact ⟨_, held, rfl, rfl⟩

theorem derived_row {log : Log} {projections : Projections} (sound : DagSound log projections)
    {fact : EventWorkRow} (held : fact ∈ log.eventWork) (named : fact.workRef = "work") :
    ∃ row ∈ projections.currentWork, row.workRef = "work" := by
  have right := sound.works "work"
  unfold WorkRight at right
  cases found : deriveOf log "work" with
  | none =>
      unfold deriveOf at found
      rw [latestOf_eq_none fun fact member =>
        sound.held.derives fact (List.mem_filter.mp member).1] at found
      exact absurd (List.mem_filter.mpr ⟨held, decide_eq_true named⟩)
        (List.eq_nil_iff_forall_not_mem.mp found fact)
  | some derive =>
      rw [found] at right
      obtain ⟨row, member, same, _⟩ := right
      exact ⟨row, member, same⟩

theorem all_visible {store : Store} (sound : DagSound store.log store.projections)
    (unscoped : ∀ row ∈ store.log.events, row.scopeRef = none) :
    ∀ fact ∈ store.log.eventWork, visibleEvent store ∅ fact.eventId = true := by
  intro fact held
  obtain ⟨row, stored, named⟩ := sound.held.derives fact held
  unfold visibleEvent EventRow.visible
  rw [← named, Table.find?_of_mem stored, Option.any_some, unscoped row stored]
  rfl

theorem causalKey_stored {node : String} {payload : Payload} {event : Event}
    (sent : Sent node payload none event) : (storedRow event 0 true).causalKey =
      toLex (1, toLex (0, toLex (node, event.eventId))) := by
  change causalKey event.hlc event.originNode event.eventId = _
  unfold causalKey
  rw [sent.hlc, sent.originNode]
  rfl

/-- A work that one origin derives is shown as the reducer has it. -/
theorem single_shown : ∃ (event : Event) (store : Store),
    Called plainPlatform (fun _ => none) {} (delivery "a" event) store ∧
    ∃ row ∈ store.projections.currentWork, WorkCurrent Bounded.engine store ∅ row := by
  obtain ⟨event, sent⟩ := plain_sent (by decide : "a" ≠ "") (by decide)
    FirstWork.work_writable none fun scope set => by cases set
  obtain ⟨store, middle, called, _, inserted, written, _⟩ :=
    holds_empty.arrival (by decide) sent rfl rfl FirstWork.work_writable
  have sound := called_dag empty_dag id called
  obtain ⟨fact, held, named, _⟩ := derived_fact written
  obtain ⟨row, member, same⟩ := derived_row sound held named
  have alone : ∀ own ∈ store.log.events, own = storedRow event 0 true := by
    intro own stored
    rw [insertPayload_events written] at stored
    exact (inserted.mem_iff.mp stored).resolve_left fun old => by cases old
  have visible := all_visible sound fun own stored => by
    rw [alone own stored]
    exact sent.scopeRef
  have run : Run (Run.when (fun _ call => ¬call.unreduced)
      (Called plainPlatform fun _ => none)) {} [delivery "a" event] store :=
    .cons ⟨id, called⟩ (.nil _)
  refine ⟨event, store, called, row, member, ((anchor_current_iff run collation ∅).2 row member
    fun fact inWorks _ => visible fact inWorks).mpr ?_⟩
  intro derive current other among apart
  obtain ⟨left, leftHeld, leftNamed⟩ := sound.held.derives derive current.1.1
  obtain ⟨right, rightHeld, rightNamed⟩ := sound.held.derives other among.1
  refine absurd (Table.eq_of_key among.1 current.1.1 ?_) apart
  rw [← leftNamed, ← rightNamed, alone left leftHeld, alone right rightHeld]

/-- Two origins derive one work at the same time: the reducer keeps the second, the retrieval
shows the first. -/
theorem first_shown : ∃ calls store, Run (Run.when (fun _ call => ¬call.unreduced)
      (Called plainPlatform fun _ => none)) {} calls store ∧
    ∃ row ∈ store.projections.currentWork,
      (∀ fact ∈ store.log.eventWork, fact.workRef = row.workRef →
        visibleEvent store ∅ fact.eventId = true) ∧
      ¬WorkCurrent Bounded.engine store ∅ row := by
  obtain ⟨a, aSent⟩ := plain_sent (by decide : "a" ≠ "") (by decide)
    FirstWork.work_writable none fun scope set => by cases set
  obtain ⟨b, bSent⟩ := plain_sent (by decide : "b" ≠ "") (by decide)
    FirstWork.work_writable none fun scope set => by cases set
  obtain ⟨one, oneLog, firstCall, oneHolds, oneInserted, oneWritten, _⟩ :=
    holds_empty.arrival (by decide) aSent rfl rfl FirstWork.work_writable
  obtain ⟨two, twoLog, secondCall, _, twoInserted, twoWritten, _⟩ :=
    oneHolds.arrival (by decide) bSent rfl rfl FirstWork.work_writable
  have sound := called_dag (called_dag empty_dag id firstCall) id secondCall
  have plans := called_planSound (called_planSound empty_planSound id firstCall) id secondCall
  obtain ⟨_, twoSame⟩ := twoInserted.appended
  obtain ⟨aFact, aOld, aNamed, aOf⟩ := derived_fact oneWritten
  obtain ⟨bFact, bHeld, bNamed, bOf⟩ := derived_fact twoWritten
  have aHeld : aFact ∈ two.log.eventWork := by
    refine (insertPayload_keeps twoWritten).eventWork aFact ?_
    rw [twoSame]
    exact aOld
  have aStored : storedRow a 0 true ∈ two.log.events := by
    rw [insertPayload_events twoWritten]
    refine twoInserted.mem_iff.mpr (.inl ?_)
    rw [insertPayload_events oneWritten]
    exact oneInserted.mem_iff.mpr (.inr rfl)
  have bStored : storedRow b 0 true ∈ two.log.events := by
    rw [insertPayload_events twoWritten]
    exact twoInserted.mem_iff.mpr (.inr rfl)
  have either : ∀ own ∈ two.log.events, own = storedRow a 0 true ∨ own = storedRow b 0 true := by
    intro own stored
    rw [insertPayload_events twoWritten] at stored
    rcases twoInserted.mem_iff.mp stored with old | new
    · rw [insertPayload_events oneWritten] at old
      exact .inl ((oneInserted.mem_iff.mp old).resolve_left fun empty => by cases empty)
    · exact .inr new
  have visible := all_visible sound fun own stored => by
    rcases either own stored with rfl | rfl
    · exact aSent.scopeRef
    · exact bSent.scopeRef
  obtain ⟨row, member, same⟩ := derived_row sound aHeld aNamed
  refine ⟨_, two, .cons ⟨id, firstCall⟩ (.cons ⟨id, secondCall⟩ (.nil _)), row, member,
    fun fact held _ => visible fact held, fun shown => ?_⟩
  obtain ⟨derive, current, _⟩ := shown.selected
  have first := (work_current_iff collation plans.placed sound member
    fun fact held _ => visible fact held).mp shown derive current
  obtain ⟨own, stored, named⟩ := sound.held.derives derive current.1.1
  rcases either own stored with rfl | rfl
  · -- the second is causally later
    obtain ⟨_, key, located, most⟩ := current
    obtain ⟨theirs, theirsAt, below⟩ := most bFact ⟨bHeld, bNamed.trans same.symm⟩
    rw [keyOf_of_mem aStored named, Option.some.injEq, causalKey_stored aSent] at located
    rw [keyOf_of_mem bStored bOf.symm, Option.some.injEq, causalKey_stored bSent] at theirsAt
    subst located theirsAt
    simp only [Prod.Lex.toLex_le_toLex, lt_irrefl, true_and, false_or] at below
    rcases below with less | ⟨nodes, _⟩
    · exact absurd less (by decide)
    · exact absurd nodes (by decide)
  · -- and the first is of an earlier origin
    have apart : aFact ≠ derive := by
      rintro rfl
      have rows : storedRow a 0 true = storedRow b 0 true :=
        Table.eq_of_key aStored bStored (aOf.symm.trans named.symm)
      have nodes : a.originNode = b.originNode := congrArg (fun row => row.originNode) rows
      rw [aSent.originNode, bSent.originNode] at nodes
      exact absurd nodes (by decide)
    have before := first aFact ⟨aHeld, aNamed.trans same.symm⟩ apart _ bStored named _ aStored
      aOf.symm
    unfold EventRow.precedes at before
    have aNode : (storedRow a 0 true).originNode = "a" := aSent.originNode
    have bNode : (storedRow b 0 true).originNode = "b" := bSent.originNode
    rw [aNode, bNode, if_neg (by decide)] at before
    change decide ("b" ≤ "a") = true at before
    exact absurd (of_decide_eq_true before) (by decide)

end Redefined

end Kawa
