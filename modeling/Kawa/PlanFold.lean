import Kawa.AnchorCurrency
import Kawa.WorkConvergence

/-!
The rows of the plans as a fold: a plan is shown from its first creation on, with the identity
of the latest one and the state of its latest lifecycle fact, whatever order they came in.
-/

namespace Kawa

open Result Latest

variable {platform : Platform} {readPayload : String → Option Payload}

/-! ## What a reduced write preserves -/

/-- Kept by an event row, by an upgrade and by a payload that is written and reduced. -/
structure Folds (platform : Platform) (Inv : Log → Projections → Prop) : Prop where
  insert : ∀ {log next : Log} {projections : Projections} {event : Event} {materialized : Bool}
    {recordedAt : Int} {row : EventRow}, Inv log projections →
    EventInserted platform log event materialized recordedAt row next → Inv next projections
  upgrade : ∀ {log next : Log} {projections : Projections} {row : EventRow}
    {scopeRef : Option String}, Inv log projections →
    upgradeRow log row scopeRef = .ok next → Inv next projections
  reduce : ∀ {log next : Log} {before after : Projections} {scan : Scan} {event : Event}
    {payload : Payload}, Inv log before → (∃ row ∈ log.events, row.eventId = event.eventId) →
    event.payload = some payload →
    insertPayload platform log event.eventId payload = .ok next →
    Kawa.reduce next scan event before = .ok after → Inv next after

section Folds

variable {Inv : Log → Projections → Prop} (folds : Folds platform Inv)

include folds

theorem Folds.admitStep {receiver : Receiver} {state next : AdmitState} {event : Event}
    (holds : Inv state.store.log state.store.projections)
    (step : AdmitStep platform receiver state event next) :
    Inv next.store.log next.store.projections := by
  cases step with
  | kept log projections _ _ =>
      rw [log, projections]
      exact holds
  | upgraded row upgrade _ _ =>
      obtain ⟨payload, middle, carried, upgraded, written, reduced⟩ := upgrade.written
      have now : row.upgraded event.scopeRef ∈ middle.events :=
        (upgradeRow_mem upgraded).mpr (.inl ⟨row, rowAt_mem upgrade.found, rfl, rfl⟩)
      exact folds.reduce (folds.upgrade holds upgraded) ⟨_, now, upgrade.sameId⟩ carried written
        reduced
  | inserted stored passed form write _ _ =>
      obtain ⟨log, row, inserted, wrote⟩ := write.written
      have entered := folds.insert holds inserted
      obtain ⟨_, _, shape⟩ := inserted.envelope
      rcases wrote with ⟨_, sameLog, sameProjections⟩ | ⟨payload, carried, written, reduced⟩
      · rw [sameLog, sameProjections]
        exact entered
      · exact folds.reduce entered ⟨row, inserted.mem_iff.mpr (.inr rfl), by rw [shape]⟩ carried
          written reduced

theorem Folds.called {store next : Store} {call : Call} (holds : Inv store.log store.projections)
    (reduces : ¬ call.unreduced) (called : Called platform readPayload store call next) :
    Inv next.log next.projections := by
  cases called_cases called with
  | emitted emitter now recordedAt request event row middle requested emitted projections =>
      have entered := folds.insert holds emitted.inserted
      rcases projections with ⟨unreduced, _⟩ | ⟨scan, reduced⟩
      · exact absurd unreduced reduces
      · obtain ⟨_, _, shape⟩ := emitted.inserted.envelope
        exact folds.reduce entered ⟨row, emitted.inserted.mem_iff.mpr (.inr rfl), by rw [shape]⟩
          emitted.minted.payload emitted.payload reduced
  | delivered receiver clock batch final offered admitted log projections =>
      rw [log, projections]
      exact admitBatch_invariant
        (fun state => Inv state.store.log state.store.projections)
        (fun _ _ _ _ kept step => folds.admitStep kept step) holds admitted

theorem Folds.run {calls : List Call} {store : Store} (empty : Inv {} {})
    (run : Run (Run.when (fun _ call => ¬ call.unreduced) (Called platform readPayload)) {} calls
      store) : Inv store.log store.projections :=
  run.invariant (fun store => Inv store.log store.projections)
    (fun _ _ _ holds step => folds.called holds step.1 step.2) empty

end Folds

/-! ## The plan rows -/

/-- The facts that move a plan; its creations are among them. -/
def Log.movedRows (log : Log) (planRef : String) : List EventPlanRow :=
  log.eventPlan.rows.filter fun row => row.planRef = planRef ∧ row.lifecycle.isSome

def movedOf (log : Log) (planRef : String) : Option EventPlanRow :=
  log.latestOf (·.eventId) (log.movedRows planRef)

/-- A row with the identity of a creation and the state of a lifecycle fact. -/
structure ShowsPlan (created moved : EventPlanRow) (row : CurrentPlan) : Prop where
  project : row.projectRef = created.projectRef
  objective : created.objective = some row.objective
  rationale : row.rationale = created.rationale
  lifecycle : moved.lifecycle = some row.lifecycle
  endReason : row.endReason = moved.endReason

/-- A plan is shown exactly where a creation of it is held. -/
def PlanRight (log : Log) (projections : Projections) (planRef : String) : Prop :=
  match createdOf log planRef with
  | none => ∀ row ∈ projections.currentPlans, row.planRef ≠ planRef
  | some created => ∃ moved, movedOf log planRef = some moved ∧
      ∃ row ∈ projections.currentPlans, row.planRef = planRef ∧ ShowsPlan created moved row

theorem PlanRight.congr {log next : Log} {before after : Projections} {planRef : String}
    (right : PlanRight log before planRef) (created : createdOf next planRef = createdOf log planRef)
    (moved : movedOf next planRef = movedOf log planRef)
    (rows : ∀ row : CurrentPlan, row.planRef = planRef →
      (row ∈ after.currentPlans ↔ row ∈ before.currentPlans)) : PlanRight next after planRef := by
  unfold PlanRight at right ⊢
  rw [created, moved]
  cases found : createdOf log planRef with
  | none =>
      rw [found] at right
      intro row held named
      exact right row ((rows row named).mp held) named
  | some creation =>
      rw [found] at right
      obtain ⟨latest, isLatest, row, held, named, shows⟩ := right
      exact ⟨latest, isLatest, row, (rows row named).mpr held, named, shows⟩

theorem movedOf_kept {log next : Log} {planRef : String}
    (held : ∀ fact ∈ log.eventPlan, ∃ row ∈ log.events, row.eventId = fact.eventId)
    (kept : ∀ row ∈ log.events, ∃ now ∈ next.events, row.Became now)
    (facts : next.eventPlan.rows.filter (·.planRef = planRef) =
      log.eventPlan.rows.filter (·.planRef = planRef)) :
    movedOf next planRef = movedOf log planRef := by
  have split : ∀ log : Log, log.movedRows planRef =
      (log.eventPlan.rows.filter (·.planRef = planRef)).filter (·.lifecycle.isSome) := by
    intro log
    unfold Log.movedRows
    rw [List.filter_filter]
    congr 1
    funext row
    simp [Bool.and_comm]
  unfold movedOf
  rw [split, split, facts, ← split]
  exact keyed_congr fun fact member =>
    keyOf_kept kept (held fact (List.mem_filter.mp member).1)

/-- Recomputing a plan leaves it without a creation, or makes its one row. -/
theorem recomputePlanState_row {log : Log} {before after : Projections} {planRef : String}
    (done : recomputePlanState log before planRef = .ok after) :
    (createdOf log planRef = none ∧ after = before) ∨
    ∃ created moved row, createdOf log planRef = some created ∧ movedOf log planRef = some moved ∧
      row.planRef = planRef ∧ ShowsPlan created moved row ∧
      ∀ other, other ∈ after.currentPlans ↔
        other = row ∨ other.planRef ≠ planRef ∧ other ∈ before.currentPlans := by
  simp only [recomputePlanState, bind_ok] at done
  obtain ⟨created, read, done⟩ := done
  have current := latestPlanCreated_ok read
  cases created with
  | none =>
      cases done
      exact .inl ⟨current.symm, rfl⟩
  | some created =>
      simp only [bind_ok] at done
      obtain ⟨moved, latest, done⟩ := done
      have movedNow : moved = movedOf log planRef := latestRow_ok latest
      cases moved with
      | none => cases done
      | some moved =>
          dsimp only at done
          split at done <;> cases done
          rename_i objective lifecycle given reached
          refine .inr ⟨created, moved,
            { planRef := planRef
              projectRef := created.projectRef
              objective := objective
              rationale := created.rationale
              lifecycle := lifecycle
              endReason := moved.endReason },
            current.symm, movedNow.symm, rfl, ⟨rfl, given, rfl, reached, rfl⟩, fun other => ?_⟩
          rw [Table.mem_upsert]
          constructor
          · rintro (⟨rfl, _⟩ | ⟨old, _, named, rfl⟩ | ⟨held, apart⟩)
            · exact .inl rfl
            · left
              rw [named]
            · exact .inr ⟨apart, held⟩
          · rintro (rfl | ⟨apart, held⟩)
            · by_cases fresh : before.currentPlans.holds planRef = false
              · exact .inl ⟨rfl, fresh⟩
              · obtain ⟨old, inBefore, named⟩ := Table.holds_iff.mp (Bool.not_eq_false _ ▸ fresh)
                refine .inr (.inl ⟨old, inBefore, named, ?_⟩)
                rw [named]
            · exact .inr (.inr ⟨held, apart⟩)

/-! ## The fold -/

/-- Every plan is shown as its facts say. -/
structure PlanFolded (log : Log) (projections : Projections) : Prop where
  held : ∀ fact ∈ log.eventPlan, ∃ row ∈ log.events, row.eventId = fact.eventId
  plans : ∀ planRef, PlanRight log projections planRef

theorem PlanFolded.stable {log next : Log} {before after : Projections}
    (folded : PlanFolded log before) (facts : next.eventPlan = log.eventPlan)
    (kept : ∀ row ∈ log.events, ∃ now ∈ next.events, row.Became now)
    (same : SamePlans before after) : PlanFolded next after where
  held fact member := by
    rw [facts] at member
    obtain ⟨row, stored, named⟩ := folded.held fact member
    obtain ⟨now, inNext, became⟩ := kept row stored
    refine ⟨now, inNext, ?_⟩
    unfold EventRow.Became at became
    rw [became]
    exact named
  plans planRef := (folded.plans planRef).congr
    (createdOf_kept folded.held kept (by rw [facts]))
    (movedOf_kept folded.held kept (by rw [facts])) (fun row _ => by rw [same])

/-- A payload leaves the facts of every other plan alone. -/
theorem insertPayload_otherPlans {log next : Log} {eventId : String} {payload : Payload}
    (inserted : insertPayload platform log eventId payload = .ok next) {planRef : String}
    (apart : payload.plan? ≠ some planRef) :
    next.eventPlan.rows.filter (·.planRef = planRef) =
      log.eventPlan.rows.filter (·.planRef = planRef) := by
  obtain ⟨added, rows⟩ := insertPayload_planRows inserted
  refine filter_added rows fun fact fresh => decide_eq_false fun named => apart ?_
  have member : fact ∈ next.eventPlan := by
    rw [← Table.mem_rows, rows]
    exact List.mem_append_right _ fresh
  rcases insertPayload_eventPlan inserted fact member with old | ⟨_, planned, _⟩
  · have nodup := next.eventPlan.rows_nodup
    rw [rows] at nodup
    exact absurd fresh (List.disjoint_of_nodup_append nodup old)
  · rw [planned, named]

/-- A creation that is held stays one. -/
theorem createdOf_persists {log next : Log} {eventId planRef : String} {payload : Payload}
    {created : EventPlanRow}
    (held : ∀ fact ∈ log.eventPlan, ∃ row ∈ log.events, row.eventId = fact.eventId)
    (still : ∀ fact ∈ next.eventPlan, ∃ row ∈ next.events, row.eventId = fact.eventId)
    (inserted : insertPayload platform log eventId payload = .ok next)
    (was : createdOf log planRef = some created) : createdOf next planRef ≠ none := by
  intro gone
  have inRows : created ∈ log.createdRows planRef := (latestOf_isLatest
    (fun fact member => held fact (List.mem_filter.mp member).1) was).1
  obtain ⟨inLog, asked⟩ := List.mem_filter.mp inRows
  obtain ⟨ofPlan, kind⟩ := of_decide_eq_true asked
  unfold createdOf at gone
  have empty := (@latestOf_eq_none _ next (·.eventId) (next.createdRows planRef)
    fun fact member => still fact (List.mem_filter.mp member).1).mp gone
  have inNext : created ∈ next.createdRows planRef := by
    refine List.mem_filter.mpr ⟨(insertPayload_keeps inserted).eventPlan created inLog,
      decide_eq_true ⟨ofPlan, ?_⟩⟩
    unfold Log.kindOf at kind ⊢
    rw [insertPayload_events inserted]
    exact kind
  rw [empty] at inNext
  cases inNext

theorem PlanFolded.reduce {log next : Log} {before after : Projections} {scan : Scan}
    {event : Event} {payload : Payload} (folded : PlanFolded log before)
    (stored : ∃ row ∈ log.events, row.eventId = event.eventId)
    (carried : event.payload = some payload)
    (inserted : insertPayload platform log event.eventId payload = .ok next)
    (reduced : Kawa.reduce next scan event before = .ok after) : PlanFolded next after := by
  have events := insertPayload_events inserted
  obtain ⟨linked, middle, touched, around, own, rest⟩ := reduce_plans carried reduced
  have kept : ∀ row ∈ log.events, ∃ now ∈ next.events, row.Became now := fun row inLog =>
    ⟨row, by rw [events]; exact inLog, .refl row⟩
  have held : ∀ fact ∈ next.eventPlan, ∃ row ∈ next.events, row.eventId = fact.eventId := by
    intro fact member
    rw [events]
    rcases insertPayload_eventPlan inserted fact member with old | ⟨named, _⟩
    · exact folded.held fact old
    · rw [named]
      exact stored
  have elsewhere : ∀ planRef, payload.plan? ≠ some planRef →
      (∀ row : CurrentPlan, row.planRef = planRef →
        (row ∈ after.currentPlans ↔ row ∈ before.currentPlans)) → PlanRight next after planRef :=
    fun planRef apart rows => (folded.plans planRef).congr
      (createdOf_kept folded.held kept (insertPayload_otherPlans inserted apart))
      (movedOf_kept folded.held kept (insertPayload_otherPlans inserted apart)) rows
  refine ⟨held, fun planRef => ?_⟩
  cases planned : payload.plan? with
  | none =>
      refine elsewhere planRef (by rw [planned]; simp) fun row _ => ?_
      rw [rest, reducePayload_plans planned own, around]
  | some moving =>
      have recomputed : recomputePlanState next linked moving = .ok middle := by
        cases payload <;> cases planned
        · obtain ⟨_, done, made⟩ := map_ok.mp own
          cases made
          exact done
        · obtain ⟨_, done, made⟩ := map_ok.mp own
          cases made
          exact done
      by_cases same : planRef = moving
      · subst same
        unfold PlanRight
        rcases recomputePlanState_row recomputed with ⟨uncreated, unmoved⟩ |
          ⟨created, moved, row, current, latest, named, shows, rows⟩
        · rw [uncreated]
          have prior := folded.plans planRef
          unfold PlanRight at prior
          cases was : createdOf log planRef with
          | none =>
              rw [was] at prior
              rw [rest, unmoved, around]
              exact prior
          | some created =>
              exact absurd uncreated (createdOf_persists folded.held held inserted was)
        · rw [current]
          refine ⟨moved, latest, row, ?_, named, shows⟩
          rw [rest]
          exact (rows row).mpr (.inl rfl)
      · refine elsewhere planRef (by rw [planned]; exact fun own => same (Option.some.inj own).symm)
          fun row named => ?_
        rw [rest]
        rcases recomputePlanState_row recomputed with ⟨_, unmoved⟩ |
          ⟨_, _, fresh, _, _, freshNamed, _, rows⟩
        · rw [unmoved, around]
        · rw [rows, around]
          constructor
          · rintro (rfl | ⟨_, inBefore⟩)
            · exact absurd (named.symm.trans freshNamed) same
            · exact inBefore
          · exact fun inBefore => .inr ⟨fun other => same (named.symm.trans other), inBefore⟩

theorem planFolds : Folds platform PlanFolded where
  insert folded inserted := by
    obtain ⟨_, same⟩ := inserted.appended
    exact folded.stable (by rw [same]) (fun old inLog =>
      ⟨old, inserted.mem_iff.mpr (.inl inLog), .refl old⟩) rfl
  upgrade folded upgraded := by
    obtain ⟨_, _, same⟩ := upgradeRow_ok upgraded
    exact folded.stable (by rw [same]) (grows_upgraded (fun _ => False) upgraded).kept rfl
  reduce folded stored carried inserted reduced := folded.reduce stored carried inserted reduced

theorem empty_planFolded : PlanFolded ({} : Log) ({} : Projections) where
  held fact member := by cases member
  plans planRef row held := by cases held

/-- A plan that is shown is shown by the latest of its facts. -/
theorem PlanFolded.shown {log : Log} {projections : Projections}
    (folded : PlanFolded log projections) {row : CurrentPlan}
    (held : row ∈ projections.currentPlans) : ∃ created moved,
      log.IsLatest (·.eventId) (· ∈ log.createdRows row.planRef) created ∧
      log.IsLatest (·.eventId) (· ∈ log.movedRows row.planRef) moved ∧
      ShowsPlan created moved row := by
  have right := folded.plans row.planRef
  unfold PlanRight at right
  cases found : createdOf log row.planRef with
  | none =>
      rw [found] at right
      exact absurd rfl (right row held)
  | some created =>
      rw [found] at right
      obtain ⟨moved, latest, other, inPlans, named, shows⟩ := right
      rw [Table.eq_of_key held inPlans named.symm]
      rw [named]
      exact ⟨created, moved,
        latestOf_isLatest (fun fact member => folded.held fact (List.mem_filter.mp member).1) found,
        latestOf_isLatest (fun fact member => folded.held fact (List.mem_filter.mp member).1) latest,
        shows⟩

/-- A plan with a creation is shown. -/
theorem PlanFolded.shows {log : Log} {projections : Projections}
    (folded : PlanFolded log projections) {planRef : String} {fact : EventPlanRow}
    (created : fact ∈ log.createdRows planRef) :
    ∃ row ∈ projections.currentPlans, row.planRef = planRef := by
  have right := folded.plans planRef
  unfold PlanRight at right
  cases found : createdOf log planRef with
  | none =>
      have located : ∀ fact ∈ log.createdRows planRef,
          ∃ row ∈ log.events, row.eventId = fact.eventId := fun fact member =>
        folded.held fact (List.mem_filter.mp member).1
      rw [(latestOf_eq_none located).mp found] at created
      cases created
  | some _ =>
      rw [found] at right
      obtain ⟨_, _, row, held, named, _⟩ := right
      exact ⟨row, held, named⟩

/-- In every reachable store a plan is shown exactly where a creation of it is held, in one row,
with the identity of its causally latest creation and the state of its causally latest lifecycle
fact. -/
theorem plans_folded {calls : List Call} {store : Store}
    (run : Run (Run.when (fun _ call => ¬ call.unreduced) (Called platform readPayload)) {} calls
      store) :
    (∀ planRef, (∃ row ∈ store.projections.currentPlans, row.planRef = planRef) ↔
      ∃ fact, fact ∈ store.log.createdRows planRef) ∧
    ∀ row ∈ store.projections.currentPlans, ∃ created moved,
      store.log.IsLatest (·.eventId) (· ∈ store.log.createdRows row.planRef) created ∧
      store.log.IsLatest (·.eventId) (· ∈ store.log.movedRows row.planRef) moved ∧
      ShowsPlan created moved row := by
  have folded := planFolds.run empty_planFolded run
  refine ⟨fun planRef => ⟨?_, ?_⟩, fun row held => folded.shown held⟩
  · rintro ⟨row, held, rfl⟩
    obtain ⟨created, _, latest, _⟩ := folded.shown held
    exact ⟨created, latest.1⟩
  · rintro ⟨fact, created⟩
    exact folded.shows created

namespace FirstPlan

/-- The first plan of a node, delivered. -/
theorem plan_delivered {event : Event} (sent : Sent "node" (.planCreated plainPlan) none event) :
    ∃ next middle, Called plainPlatform (fun _ => none) {}
        (.deliver (plainReceiver "node" none 0) none [event]) next ∧
      EventInserted plainPlatform {} event true 0 (storedRow event 0 true) middle ∧
      insertPayload plainPlatform middle event.eventId (.planCreated plainPlan) = .ok next.log := by
  have arrives := sent.arrives
  have ready : ({} : Store).log.Ready plainPlatform 0 := empty_ready
  obtain ⟨next, middle, called, inserted, written, _⟩ := arrive_whole ready rfl arrives none 0
    sent.originSeq sent.prevHash rfl rfl plainPlan_writable fun middle log inserted written => by
    have events := insertPayload_events written
    obtain ⟨_, same⟩ := inserted.appended
    have own : ∀ fact ∈ log.eventPlan, fact.lifecycle.isSome = true ∧
        fact.objective.isSome = true := by
      intro fact held
      rcases insertPayload_eventPlan written fact held with old | ⟨_, _, moves, bare⟩
      · rw [same] at old
        cases old
      · refine ⟨moves, ?_⟩
        cases given : fact.objective with
        | some objective => rfl
        | none =>
            obtain ⟨_, other⟩ := bare given
            cases other
    refine (reduce_succeeds_iff (fun row held => ?_) (fun fact held => (own fact held).1) .stored
      (by rw [sent.hlc]; rfl) sent.carried {}).mpr fun planRef _ => ?_
    · rw [events] at held
      rcases inserted.mem_iff.mp held with old | rfl
      · cases old
      · change (parseHlc event.hlc).isSome = true
        rw [sent.hlc]
        rfl
    · intro created isLatest
      exact (own _ (mem_creations.mp (latest_mem isLatest)).1).2
  exact ⟨next, middle, called, inserted, written⟩

/-- The plan is shown from its creation on. -/
theorem first_shows : ∃ calls store,
    Run (Run.when (fun _ call => ¬ call.unreduced) (Called plainPlatform fun _ => none)) {} calls
      store ∧
    ∃ row ∈ store.projections.currentPlans, row.planRef = "plan" := by
  obtain ⟨event, sent⟩ := plain_sent (by decide : "node" ≠ "") (by decide) plainPlan_writable none
    fun scope set => by cases set
  obtain ⟨next, middle, called, inserted, written⟩ := plan_delivered sent
  refine ⟨_, next, .cons ⟨id, called⟩ (.nil _),
    ((plans_folded (.cons ⟨id, called⟩ (.nil _))).1 "plan").mpr ?_⟩
  have stored : storedRow event 0 true ∈ next.log.events := by
    rw [insertPayload_events written]
    exact inserted.mem_iff.mpr (.inr rfl)
  have kind : next.log.kindOf event.eventId = some .planCreated :=
    (kindOf_of_mem stored rfl).trans (congrArg some sent.kind)
  simp only [insertPayload, insertPlanCreated, bind_ok, pure_ok] at written
  obtain ⟨plans, filed, same⟩ := written
  have held := insertRow_mem filed
  have planned : ∃ fact ∈ next.log.eventPlan, fact.planRef = "plan" ∧
      fact.eventId = event.eventId := by
    rw [← same]
    exact ⟨_, held, rfl, rfl⟩
  obtain ⟨fact, inPlans, named, own⟩ := planned
  exact ⟨fact, List.mem_filter.mpr ⟨inPlans, decide_eq_true ⟨named, by rw [own]; exact kind⟩⟩⟩

end FirstPlan

end Kawa
