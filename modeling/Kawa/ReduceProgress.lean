import Kawa.Reduce

/-!
When a reduction raises.  Over a log whose stamps parse every query answers, so the one
thing left to refuse is a plan whose latest creation has no objective.
-/

namespace Kawa

open Result Latest

variable {log : Log}

/-- Every stored stamp parses, as admission has checked. -/
def Log.Stamped (log : Log) : Prop := ∀ row ∈ log.events, (parseHlc row.hlc).isSome = true

/-- Both plan payloads carry a lifecycle. -/
def Log.LifecyclesSet (log : Log) : Prop := ∀ row ∈ log.eventPlan, row.lifecycle.isSome = true

theorem mem_joined {ρ : Type} {eventId : ρ → String} {rows : List ρ} {pair : EventRow × ρ} :
    pair ∈ log.joined eventId rows ↔
      pair.2 ∈ rows ∧ pair.1 ∈ log.events ∧ pair.1.eventId = eventId pair.2 := by
  obtain ⟨row, fact⟩ := pair
  simp only [Log.joined, List.mem_filterMap, Option.map_eq_some_iff, Prod.mk.injEq]
  constructor
  · rintro ⟨other, held, event, found, rfl, rfl⟩
    exact ⟨held, Table.find?_eq_some.mp found⟩
  · rintro ⟨held, stored⟩
    exact ⟨fact, held, row, Table.find?_eq_some.mpr stored, rfl, rfl⟩

theorem requireStamps_succeeds (stamped : log.Stamped) {ρ : Type} {joined : List (EventRow × ρ)}
    (stored : ∀ pair ∈ joined, pair.1 ∈ log.events) : requireStamps joined = .ok () := by
  have all : (joined.all fun pair => (parseHlc pair.1.hlc).isSome) = true :=
    List.all_eq_true.mpr fun pair held => stamped pair.1 (stored pair held)
  simp only [requireStamps, all, require, ↓reduceIte]

theorem latestRow_succeeds (stamped : log.Stamped) {ρ : Type} {joined : List (EventRow × ρ)}
    (stored : ∀ pair ∈ joined, pair.1 ∈ log.events) :
    latestRow joined = .ok ((latest (·.1.causalKey) joined).map (·.2)) := by
  simp only [latestRow, requireStamps_succeeds stamped stored, bind, Except.bind]
  rfl

theorem latestRow_joined (stamped : log.Stamped) {ρ : Type} (eventId : ρ → String) (rows : List ρ) :
    latestRow (log.joined eventId rows) =
      .ok ((latest (·.1.causalKey) (log.joined eventId rows)).map (·.2)) :=
  latestRow_succeeds stamped fun _ held => (mem_joined.mp held).2.1

/-! ## Work -/

theorem latestResult_succeeds (stamped : log.Stamped) (projections : Projections)
    (workRef : String) : ∃ result, latestResult log projections workRef = .ok result :=
  ⟨_, latestRow_joined stamped _ _⟩

theorem recomputeWorkState_succeeds (stamped : log.Stamped) (scan : Scan)
    (projections : Projections) (workRef : String) :
    ∃ next, recomputeWorkState log scan projections workRef = .ok next := by
  obtain ⟨derived, derive⟩ : ∃ derived, latestDerive log workRef = .ok derived :=
    ⟨_, latestRow_joined stamped _ _⟩
  obtain ⟨result, read⟩ := latestResult_succeeds stamped projections workRef
  unfold recomputeWorkState
  cases derived with
  | none => exact ⟨projections, by rw [derive]; rfl⟩
  | some row =>
      simp only [derive, read, bind, Except.bind]
      split <;> exact ⟨_, rfl⟩

theorem settleEdges_succeeds (stamped : log.Stamped) (projections : Projections) (workRef : String)
    (onlyDependent : Option String) :
    ∃ next, settleEdges log projections workRef onlyDependent = .ok next := by
  unfold settleEdges
  split
  · exact ⟨_, rfl⟩
  · obtain ⟨result, read⟩ := latestResult_succeeds stamped projections workRef
    unfold applyLatestResultToDependents
    cases result with
    | none => exact ⟨projections, by rw [read]; rfl⟩
    | some row => exact ⟨_, by rw [read]; rfl⟩

theorem propagateToDependents_succeeds (stamped : log.Stamped) (scan : Scan)
    (projections : Projections) (workRef : String) :
    ∃ next, propagateToDependents log scan projections workRef = .ok next := by
  obtain ⟨settled, done⟩ := settleEdges_succeeds stamped projections workRef none
  obtain ⟨next, folded⟩ := foldlM_succeeds (fun state _ _ =>
    recomputeWorkState_succeeds stamped scan state _) settled
  exact ⟨next, bind_ok.mpr ⟨settled, done, folded⟩⟩

theorem declareDependency_succeeds (stamped : log.Stamped) (scan : Scan)
    (projections : Projections) (p : WorkDependencyDeclared) :
    ∃ next, declareDependency log scan projections p = .ok next :=
  bind_succeeds (settleEdges_succeeds stamped _ _ _) fun _ =>
    recomputeWorkState_succeeds stamped scan _ _

theorem containOccurrence_succeeds (stamped : log.Stamped) (projections : Projections)
    (p : ResultRecorded) : ∃ next, containOccurrence log projections p = .ok next := by
  unfold containOccurrence
  cases p.occurrenceKey with
  | none => exact ⟨projections, rfl⟩
  | some occurrenceKey =>
      obtain ⟨consumers, read⟩ : ∃ consumers,
          occurrenceConsumers log p.workRef occurrenceKey = .ok consumers := by
        simp only [occurrenceConsumers]
        rw [requireStamps_succeeds stamped fun _ held => (mem_joined.mp held).2.1]
        exact ⟨_, rfl⟩
      simp only [requarantineOccurrence, read, bind, Except.bind]
      cases consumers <;> exact ⟨_, rfl⟩

theorem reduceResult_succeeds (stamped : log.Stamped) (scan : Scan) (projections : Projections)
    (p : ResultRecorded) : ∃ next, reduceResult log scan projections p = .ok next :=
  bind_succeeds (containOccurrence_succeeds stamped _ _) fun _ =>
    bind_succeeds (recomputeWorkState_succeeds stamped _ _ _) fun _ =>
      propagateToDependents_succeeds stamped _ _ _

theorem reduceRetired_succeeds (stamped : log.Stamped) (scan : Scan) (projections : Projections)
    (p : WorkRetired) : ∃ next, reduceRetired log scan projections p = .ok next :=
  bind_succeeds (recomputeWorkState_succeeds stamped _ _ _) fun _ =>
    propagateToDependents_succeeds stamped _ _ _

/-! ## Plans -/

/-- The facts stored under the kind plan.created that name this plan. -/
def Log.creations (log : Log) (planRef : String) : List (EventRow × EventPlanRow) :=
  (log.joined (·.eventId) (log.eventPlan.rows.filter (·.planRef = planRef))).filter
    fun pair => pair.1.kind = .planCreated

/-- The latest of them, if any, has an objective. -/
def Log.PlanWhole (log : Log) (planRef : String) : Prop :=
  ∀ created, latest (·.1.causalKey) (log.creations planRef) = some created →
    created.2.objective.isSome = true

theorem mem_creations {planRef : String} {pair : EventRow × EventPlanRow} :
    pair ∈ log.creations planRef ↔ pair.2 ∈ log.eventPlan ∧ pair.2.planRef = planRef ∧
      pair.1 ∈ log.events ∧ pair.1.eventId = pair.2.eventId ∧ pair.1.kind = .planCreated := by
  simp only [Log.creations, List.mem_filter, mem_joined, decide_eq_true_eq, Table.mem_rows]
  tauto

theorem latestPlanCreated_succeeds (stamped : log.Stamped) (planRef : String) :
    latestPlanCreated log planRef =
      .ok ((latest (·.1.causalKey) (log.creations planRef)).map (·.2)) :=
  latestRow_succeeds stamped fun _ held => (mem_creations.mp held).2.2.1

/-- A plan that was created has a lifecycle fact: the creation itself is one. -/
theorem latestLifecycle_of_creation (stamped : log.Stamped) (set : log.LifecyclesSet)
    {planRef : String} {pair : EventRow × EventPlanRow} (held : pair ∈ log.creations planRef) :
    ∃ moved lifecycle, latestLifecycle log planRef = .ok (some moved) ∧
      moved.lifecycle = some lifecycle := by
  obtain ⟨stored, named, inLog, same, _⟩ := mem_creations.mp held
  unfold latestLifecycle
  rw [latestRow_joined stamped]
  generalize joined : log.joined (·.eventId) (log.eventPlan.rows.filter fun row =>
    row.planRef = planRef ∧ row.lifecycle.isSome) = facts
  have member : pair ∈ facts := by
    rw [← joined, mem_joined]
    refine ⟨List.mem_filter.mpr ⟨stored, ?_⟩, inLog, same⟩
    simp [named, set _ stored]
  cases found : latest (fun fact : EventRow × EventPlanRow => fact.1.causalKey) facts with
  | none =>
      rw [latest_eq_none.mp found] at member
      cases member
  | some best =>
      have inFacts := latest_mem found
      rw [← joined, mem_joined] at inFacts
      obtain ⟨lifecycle, moved⟩ := Option.isSome_iff_exists.mp
        (set _ (List.mem_filter.mp inFacts.1).1)
      exact ⟨_, lifecycle, rfl, moved⟩

theorem recomputePlanState_succeeds_iff (stamped : log.Stamped) (set : log.LifecyclesSet)
    (projections : Projections) (planRef : String) :
    (∃ next, recomputePlanState log projections planRef = .ok next) ↔ log.PlanWhole planRef := by
  unfold recomputePlanState Log.PlanWhole
  rw [latestPlanCreated_succeeds stamped]
  cases found : latest (fun pair : EventRow × EventPlanRow => pair.1.causalKey)
      (log.creations planRef) with
  | none => exact ⟨fun _ created none => (nomatch none), fun _ => ⟨projections, rfl⟩⟩
  | some created =>
      obtain ⟨moved, lifecycle, read, isSet⟩ :=
        latestLifecycle_of_creation stamped set (latest_mem found)
      simp only [Option.map_some, read, bind, Except.bind, isSet, Option.some.injEq, forall_eq']
      cases created.2.objective with
      | none => simp
      | some objective => exact ⟨fun _ => rfl, fun _ => ⟨_, rfl⟩⟩

/-! ## One event -/

/-- The plan that a payload's reduction recomputes. -/
def Payload.plan? : Payload → Option String
  | .planCreated p => some p.planRef
  | .planLifecycleChanged p => some p.planRef
  | _ => none

theorem endpointOf_succeeds (stamped : log.Stamped) (eventId : String) :
    ∃ endpoint, endpointOf log eventId = .ok endpoint := by
  unfold endpointOf
  cases found : log.events.find? eventId with
  | none => exact ⟨none, rfl⟩
  | some row =>
      obtain ⟨⟨phys, logical, node⟩, parsed⟩ := Option.isSome_iff_exists.mp
        (stamped row (Table.find?_eq_some.mp found).1)
      exact ⟨_, by simp only [hlcParts, parsed]; rfl⟩

theorem insertLink_succeeds (stamped : log.Stamped) (projections : Projections)
    (envelope : Envelope) (p : LinkAsserted) :
    ∃ next, insertLink log projections envelope p = .ok next :=
  bind_succeeds (endpointOf_succeeds stamped _) fun _ =>
    bind_succeeds (endpointOf_succeeds stamped _) fun _ => ⟨_, rfl⟩

theorem reducePayload_succeeds_iff (stamped : log.Stamped) (set : log.LifecyclesSet) (scan : Scan)
    (projections : Projections) (envelope : Envelope) (payload : Payload) :
    (∃ next, reducePayload log scan projections envelope (some payload) = .ok next) ↔
      ∀ planRef, payload.plan? = some planRef → log.PlanWhole planRef := by
  cases payload with
  | planCreated p =>
      simp only [reducePayload, map_succeeds, Payload.plan?, Option.some.injEq, forall_eq']
      exact recomputePlanState_succeeds_iff stamped set _ _
  | planLifecycleChanged p =>
      simp only [reducePayload, map_succeeds, Payload.plan?, Option.some.injEq, forall_eq']
      exact recomputePlanState_succeeds_iff stamped set _ _
  | workDerived p =>
      exact iff_of_true (map_succeeds.mpr (recomputeWorkState_succeeds stamped _ _ _)) nofun
  | workDependencyDeclared p =>
      exact iff_of_true (map_succeeds.mpr (declareDependency_succeeds stamped _ _ _)) nofun
  | resultRecorded p =>
      exact iff_of_true (map_succeeds.mpr (reduceResult_succeeds stamped _ _ _)) nofun
  | linkAsserted p =>
      exact iff_of_true (map_succeeds.mpr (insertLink_succeeds stamped _ _ _)) nofun
  | observationRecorded p => exact iff_of_true ⟨_, rfl⟩ nofun
  | claimRecorded p => exact iff_of_true ⟨_, rfl⟩ nofun
  | workRetired p =>
      exact iff_of_true (map_succeeds.mpr (reduceRetired_succeeds stamped _ _ _)) nofun
  | authorityConfiguration p => exact iff_of_true ⟨_, rfl⟩ nofun
  | authorityReceipt p => exact iff_of_true ⟨_, rfl⟩ nofun

/-- Over a log that admission has written, an event with a stamp and a payload reduces
exactly when the plan that it recomputes is whole. -/
theorem reduce_succeeds_iff (stamped : log.Stamped) (set : log.LifecyclesSet) (scan : Scan)
    {event : Event} {payload : Payload} (parses : (parseHlc event.hlc).isSome = true)
    (carried : event.payload = some payload) (projections : Projections) :
    (∃ next, reduce log scan event projections = .ok next) ↔
      ∀ planRef, payload.plan? = some planRef → log.PlanWhole planRef := by
  obtain ⟨⟨phys, logical, node⟩, parsed⟩ := Option.isSome_iff_exists.mp parses
  obtain ⟨⟨linked, resolvedAny⟩, held⟩ :
      ∃ linked, resolveHeld log projections event.toEnvelope = .ok linked := by
    simp only [resolveHeld, hlcParts, parsed, bind, Except.bind]
    split <;> exact ⟨_, rfl⟩
  rw [← reducePayload_succeeds_iff stamped set scan linked event.toEnvelope payload]
  simp only [reduce, held, carried, bind, Except.bind]
  cases reducePayload log scan linked event.toEnvelope (some payload) with
  | error _ => simp
  | ok reduced =>
      refine iff_of_true ?_ ⟨_, rfl⟩
      dsimp only
      split <;> exact ⟨_, rfl⟩

end Kawa
