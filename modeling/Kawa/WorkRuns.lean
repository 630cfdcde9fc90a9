import Kawa.WorkFold

/-!
The fold of the works over runs: what a payload adds to the facts, what each reducer makes of
it, and what every store that is reached by reducing what is written says of its works.
-/

namespace Kawa

open Result Latest

variable {platform : Platform} {readPayload : String → Option Payload}

/-! ## The work facts of a payload -/

/-- The facts that works are folded from, before and after one payload. -/
structure WorkWritten (log next : Log) (eventId : String) (payload : Payload) : Prop where
  results : ∃ added, next.eventResult.rows = log.eventResult.rows ++ added ∧
    (∀ fact ∈ added, fact.eventId = eventId ∧ ∃ p, payload = .resultRecorded p ∧
      fact.workRef = p.workRef ∧ fact.occurrenceKey = p.occurrenceKey) ∧
    ∀ p, payload = .resultRecorded p → ∃ fact ∈ added, fact.workRef = p.workRef
  derives : ∃ added, next.eventWork.rows = log.eventWork.rows ++ added ∧
    (∀ fact ∈ added, fact.eventId = eventId ∧ ∃ p, payload = .workDerived p ∧
      fact.workRef = p.workRef)
  retirements : ∃ added, next.eventWorkRetired.rows = log.eventWorkRetired.rows ++ added ∧
    (∀ fact ∈ added, ∃ p, payload = .workRetired p ∧ fact.workRef = p.workRef) ∧
    ∀ p, payload = .workRetired p → ∃ fact ∈ added, fact.workRef = p.workRef
  dependencies : ∃ added, next.eventWorkDependency.rows = log.eventWorkDependency.rows ++ added ∧
    ∀ p, payload = .workDependencyDeclared p → ∃ fact ∈ added, fact.workRef = p.workRef ∧
      fact.dependencyWorkRef = p.dependencyWorkRef ∧ fact.satisfactionPolicy = p.satisfactionPolicy

theorem insertPayload_works {log next : Log} {eventId : String} {payload : Payload}
    (inserted : insertPayload platform log eventId payload = .ok next) :
    WorkWritten log next eventId payload := by
  cases payload <;>
    simp only [insertPayload, insertPlanCreated, insertPlanLifecycleChanged, insertWorkDerived,
      insertWorkRetired, insertWorkDependencyDeclared, insertResultRecorded, insertLinkAsserted,
      insertObservationRecorded, insertClaimRecorded, insertAuthorityConfiguration,
      insertAuthorityReceipt, bind_ok, pure_ok] at inserted <;>
    first
      | obtain ⟨table, inserted, rfl⟩ := inserted
      | obtain ⟨_, _, table, inserted, rfl⟩ := inserted
  all_goals
    constructor
  all_goals
    first
      | exact ⟨[], (List.append_nil _).symm, by simp⟩
      | exact ⟨[_], insertRow_rows inserted, by simp⟩

theorem filter_added {ρ : Type} {old new added : List ρ} {condition : ρ → Bool}
    (rows : new = old ++ added) (apart : ∀ row ∈ added, condition row = false) :
    new.filter condition = old.filter condition := by
  have none : added.filter condition = [] := by
    refine List.filter_eq_nil_iff.mpr fun row member met => ?_
    rw [apart row member] at met
    cases met
  rw [rows, List.filter_append, none, List.append_nil]

theorem keyOf_events {log next : Log} (events : next.events = log.events) (eventId : String) :
    next.keyOf eventId = log.keyOf eventId := by
  unfold Log.keyOf
  rw [events]

section Written

variable {log next : Log} {eventId : String} {payload : Payload}

theorem WorkWritten.grown (written : WorkWritten log next eventId payload) :
    ∀ fact ∈ log.eventResult, fact ∈ next.eventResult := by
  obtain ⟨added, rows, _⟩ := written.results
  intro fact held
  rw [← Table.mem_rows, rows]
  exact List.mem_append_left _ held

theorem WorkWritten.declares (written : WorkWritten log next eventId payload) :
    ∀ fact ∈ log.eventWorkDependency, fact ∈ next.eventWorkDependency := by
  obtain ⟨added, rows, _⟩ := written.dependencies
  intro fact held
  rw [← Table.mem_rows, rows]
  exact List.mem_append_left _ held

theorem WorkWritten.new (written : WorkWritten log next eventId payload) {fact : EventResultRow}
    (held : fact ∈ next.eventResult) : fact ∈ log.eventResult ∨ fact.eventId = eventId ∧
      ∃ p, payload = .resultRecorded p ∧ fact.workRef = p.workRef ∧
        fact.occurrenceKey = p.occurrenceKey := by
  obtain ⟨added, rows, new, _⟩ := written.results
  rw [← Table.mem_rows, rows] at held
  exact (List.mem_append.mp held).imp id (new fact)

theorem WorkWritten.held (written : WorkWritten log next eventId payload) (sound : log.WorkHeld)
    (events : next.events = log.events) (stored : ∃ row ∈ log.events, row.eventId = eventId) :
    next.WorkHeld := by
  constructor
  · intro fact held
    rw [events]
    rcases written.new held with old | ⟨rfl, _⟩
    · exact sound.results fact old
    · exact stored
  · intro fact held
    obtain ⟨added, rows, new⟩ := written.derives
    rw [← Table.mem_rows, rows] at held
    rw [events]
    rcases List.mem_append.mp held with old | fresh
    · exact sound.derives fact old
    · rw [(new fact fresh).1]
      exact stored

theorem WorkWritten.resultOf_kept (written : WorkWritten log next eventId payload)
    (events : next.events = log.events) {other : String}
    (apart : ∀ p, payload = .resultRecorded p → p.workRef ≠ other)
    {before after : Table OccurrenceQuarantine (·.eventId)}
    (same : ∀ fact ∈ log.eventResult, fact.workRef = other →
      after.holds fact.eventId = before.holds fact.eventId) :
    resultOf next after other = resultOf log before other := by
  obtain ⟨added, rows, new, _⟩ := written.results
  unfold resultOf
  rw [filter_added rows]
  · rw [keyed_congr fun row _ => keyOf_events events row.eventId]
    congr 1
    refine List.filter_congr fun fact held => ?_
    by_cases named : fact.workRef = other
    · rw [same fact held named]
    · simp [named]
  · intro fact fresh
    obtain ⟨_, p, recorded, named, _⟩ := new fact fresh
    exact decide_eq_false fun both => apart p recorded (named.symm.trans both.1)

theorem WorkWritten.deriveOf_kept (written : WorkWritten log next eventId payload)
    (events : next.events = log.events) {other : String}
    (apart : ∀ p, payload = .workDerived p → p.workRef ≠ other) :
    deriveOf next other = deriveOf log other := by
  obtain ⟨added, rows, new⟩ := written.derives
  unfold deriveOf
  rw [filter_added rows, keyed_congr fun row _ => keyOf_events events row.eventId]
  intro fact fresh
  obtain ⟨_, p, recorded, named⟩ := new fact fresh
  exact decide_eq_false fun own => apart p recorded (named.symm.trans own)

theorem WorkWritten.retiredFact_kept (written : WorkWritten log next eventId payload)
    {other : String} (apart : ∀ p, payload = .workRetired p → p.workRef ≠ other) :
    retiredFact next other = retiredFact log other := by
  obtain ⟨added, rows, new, _⟩ := written.retirements
  unfold retiredFact
  rw [rows, List.any_append, Bool.or_eq_left_iff_imp]
  intro met
  obtain ⟨fact, fresh, own⟩ := List.any_eq_true.mp met
  obtain ⟨p, recorded, named⟩ := new fact fresh
  exact absurd (named.symm.trans (of_decide_eq_true own)) (apart p recorded)

end Written

theorem stateOf_retired {log : Log} {quarantine : Table OccurrenceQuarantine (·.eventId)}
    {workRef : String} (dead : stateOf log quarantine workRef = .retired) :
    retiredFact log workRef = true := by
  by_contra alive
  unfold stateOf at dead
  rw [if_neg alive] at dead
  cases result : resultOf log quarantine workRef with
  | none =>
      rw [result] at dead
      cases dead
  | some fact =>
      rw [result, Option.map_some, Option.getD_some] at dead
      cases outcome : fact.outcome <;> rw [outcome] at dead <;> cases dead

theorem latestOf_eq_none {ρ : Type} {log : Log} {eventId : ρ → String} {rows : List ρ}
    (held : ∀ fact ∈ rows, ∃ row ∈ log.events, row.eventId = eventId fact) :
    log.latestOf eventId rows = none ↔ rows = [] := by
  unfold Log.latestOf
  rw [Option.map_eq_none_iff, latest_eq_none]
  constructor
  · intro empty
    refine List.eq_nil_iff_forall_not_mem.mpr fun fact member => ?_
    obtain ⟨row, stored, named⟩ := held fact member
    have keyed := mem_keyed member stored named
    rw [empty] at keyed
    cases keyed
  · rintro rfl
    rfl

/-- The earliest result of a work is never quarantined. -/
theorem resultOf_some {log : Log} {quarantine : Table OccurrenceQuarantine (·.eventId)}
    {workRef : String} (held : log.WorkHeld) (right : QuarantineRight log quarantine)
    (recorded : ∃ fact ∈ log.eventResult, fact.workRef = workRef) :
    resultOf log quarantine workRef ≠ none := by
  classical
  obtain ⟨some_fact, inLog, mine⟩ := recorded
  let place : EventResultRow → CausalKey := fun fact =>
    (log.keyOf fact.eventId).getD (causalKey "" "" "")
  obtain ⟨first, member, least⟩ := Finset.exists_min_image
    (log.eventResult.rows.filter (·.workRef = workRef)).toFinset place
    ⟨some_fact, List.mem_toFinset.mpr (List.mem_filter.mpr ⟨inLog, decide_eq_true mine⟩)⟩
  obtain ⟨firstHeld, firstMine⟩ := List.mem_filter.mp (List.mem_toFinset.mp member)
  have free : quarantine.holds first.eventId = false := by
    rw [Bool.eq_false_iff]
    intro taken
    obtain ⟨key, own, _, placed, other, otherHeld, work, _, theirs, located, earlier⟩ :=
      (right.exact first firstHeld).mp taken
    have bound := least other (List.mem_toFinset.mpr (List.mem_filter.mpr
      ⟨otherHeld, decide_eq_true (work.trans (of_decide_eq_true firstMine))⟩))
    simp only [place, placed, located, Option.getD_some] at bound
    exact absurd earlier (not_lt.mpr bound)
  intro none
  unfold resultOf at none
  rw [latestOf_eq_none fun fact member => held.results fact (List.mem_filter.mp member).1] at none
  have kept : first ∈ log.eventResult.rows.filter fun row =>
      row.workRef = workRef ∧ quarantine.holds row.eventId = false :=
    List.mem_filter.mpr ⟨firstHeld, decide_eq_true ⟨of_decide_eq_true firstMine, free⟩⟩
  rw [none] at kept
  cases kept

/-! ## What leaves the works alone -/

/-- Neither works nor edges nor the quarantine differ. -/
structure SameWorks (before after : Projections) : Prop where
  works : after.currentWork = before.currentWork
  edges : after.currentWorkDependency = before.currentWorkDependency
  quarantine : after.resultOccurrenceQuarantine = before.resultOccurrenceQuarantine

theorem SameWorks.refl (projections : Projections) : SameWorks projections projections :=
  ⟨rfl, rfl, rfl⟩

/-- The facts of works, and the causal keys of the events that were held. -/
structure SameWorkFacts (log next : Log) : Prop where
  results : next.eventResult = log.eventResult
  derives : next.eventWork = log.eventWork
  retirements : next.eventWorkRetired = log.eventWorkRetired
  dependencies : ∀ fact ∈ log.eventWorkDependency, fact ∈ next.eventWorkDependency
  keys : ∀ eventId, (∃ row ∈ log.events, row.eventId = eventId) →
    next.keyOf eventId = log.keyOf eventId
  kept : ∀ row ∈ log.events, ∃ now ∈ next.events, now.eventId = row.eventId

theorem DagSound.stable {log next : Log} {before after : Projections} (sound : DagSound log before)
    (facts : SameWorkFacts log next) (same : SameWorks before after) : DagSound next after := by
  have follow : ∀ eventId, (∃ row ∈ log.events, row.eventId = eventId) →
      ∃ row ∈ next.events, row.eventId = eventId := by
    rintro eventId ⟨row, stored, rfl⟩
    exact facts.kept row stored
  have resultKeys : ∀ fact ∈ log.eventResult, next.keyOf fact.eventId = log.keyOf fact.eventId :=
    fun fact held => facts.keys _ (sound.held.results fact held)
  have results : ∀ workRef, resultOf next before.resultOccurrenceQuarantine workRef =
      resultOf log before.resultOccurrenceQuarantine workRef := by
    intro workRef
    unfold resultOf
    rw [facts.results]
    exact keyed_congr fun fact member => resultKeys fact (List.mem_filter.mp member).1
  have retired : ∀ workRef, retiredFact next workRef = retiredFact log workRef := by
    intro workRef
    unfold retiredFact
    rw [facts.retirements]
  have derives : ∀ workRef, deriveOf next workRef = deriveOf log workRef := by
    intro workRef
    unfold deriveOf
    rw [facts.derives]
    exact keyed_congr fun fact member =>
      facts.keys _ (sound.held.derives fact (List.mem_filter.mp member).1)
  refine ⟨⟨?_, ?_⟩, ⟨?_, ?_⟩, ?_, ?_, ?_⟩
  · rw [facts.results]
    exact fun fact held => follow _ (sound.held.results fact held)
  · rw [facts.derives]
    exact fun fact held => follow _ (sound.held.derives fact held)
  · rw [same.quarantine, facts.results]
    exact sound.quarantine.sound
  · rw [same.quarantine, facts.results]
    intro fact held
    rw [sound.quarantine.exact fact held]
    exact (Later.same held resultKeys fun _ _ _ _ _ => by rw [facts.results]).symm
  · rw [same.edges]
    intro edge held
    obtain ⟨fact, declared, named⟩ := sound.declared edge held
    exact ⟨fact, facts.dependencies fact declared, named⟩
  · rw [same.edges, same.quarantine]
    intro edge held
    rw [sound.edges edge held]
    unfold stateOf
    rw [retired, results]
  · intro workRef
    refine (sound.works workRef).stable (derives workRef) (retired workRef) ?_ ?_ ?_
    · rw [same.quarantine]
      exact results workRef
    · unfold edgesOf
      rw [same.edges]
    · intro row _
      rw [same.works]

theorem SameWorkFacts.refl (log : Log) : SameWorkFacts log log :=
  ⟨rfl, rfl, rfl, fun _ held => held, fun _ _ => rfl, fun row held => ⟨row, held, rfl⟩⟩

/-! ## The reducers -/

theorem resolveHeld_works {log : Log} {before after : Projections} {event : Envelope} {any : Bool}
    (resolved : resolveHeld log before event = .ok (after, any)) : SameWorks before after := by
  simp only [resolveHeld, bind_ok] at resolved
  obtain ⟨parts, _, resolved⟩ := resolved
  split at resolved
  · cases resolved
    exact .refl _
  · cases resolved
    exact ⟨rfl, rfl, rfl⟩

theorem recomputePlanState_works {log : Log} {before after : Projections} {planRef : String}
    (done : recomputePlanState log before planRef = .ok after) : SameWorks before after := by
  simp only [recomputePlanState, bind_ok] at done
  obtain ⟨created, _, done⟩ := done
  cases created with
  | none =>
      simp only [pure_ok] at done
      subst done
      exact .refl _
  | some created =>
      simp only [bind_ok] at done
      obtain ⟨moved, _, done⟩ := done
      cases moved with
      | none => cases done
      | some moved =>
          dsimp only at done
          split at done
          · cases done
            exact ⟨rfl, rfl, rfl⟩
          · cases done

theorem insertLink_works {log : Log} {before after : Projections} {event : Envelope}
    {p : LinkAsserted} (done : insertLink log before event p = .ok after) :
    SameWorks before after := by
  simp only [insertLink, bind_ok, pure_ok] at done
  obtain ⟨_, _, _, _, _, _, rfl⟩ := done
  exact ⟨rfl, rfl, rfl⟩

/-- A reduction is its payload's branch, with the works left alone around it. -/
theorem reduce_works {log : Log} {scan : Scan} {event : Event} {payload : Payload}
    {before after : Projections} (carried : event.payload = some payload)
    (reduced : reduce log scan event before = .ok after) :
    ∃ linked middle touched, SameWorks before linked ∧
      reducePayload log scan linked event.toEnvelope (some payload) = .ok (middle, touched) ∧
      SameWorks middle after := by
  simp only [reduce, bind_ok] at reduced
  obtain ⟨⟨linked, any⟩, resolved, ⟨middle, touched⟩, own, finished⟩ := reduced
  rw [carried] at own
  refine ⟨linked, middle, touched, resolveHeld_works resolved, own, ?_⟩
  by_cases again : (any || touched) = true
  · rw [if_pos again, pure_ok] at finished
    subst finished
    exact ⟨rfl, rfl, rfl⟩
  · rw [if_neg again, pure_ok] at finished
    subst finished
    exact .refl _

section Branches

variable {log next : Log} {scan : Scan} {eventId : String} {before after : Projections}

/-- A quarantine that is right stays so where no result is new. -/
theorem DagSound.quarantine_kept {payload : Payload} (sound : DagSound log before)
    (written : WorkWritten log next eventId payload) (events : next.events = log.events)
    (other : ∀ p, payload ≠ .resultRecorded p) :
    QuarantineRight next before.resultOccurrenceQuarantine := by
  have old : ∀ fact ∈ next.eventResult, fact ∈ log.eventResult := by
    intro fact held
    refine (written.new held).resolve_right ?_
    rintro ⟨_, p, recorded, _⟩
    exact other p recorded
  refine ⟨fun entry listed => ?_, fun fact held => ?_⟩
  · obtain ⟨fact, inLog, named⟩ := sound.quarantine.sound entry listed
    exact ⟨fact, written.grown fact inLog, named⟩
  · rw [sound.quarantine.exact fact (old fact held)]
    exact (Later.same (old fact held) (fun other _ => keyOf_events events _)
      fun other _ _ _ _ => ⟨old other, written.grown other⟩).symm

theorem DagSound.derived {p : WorkDerived} (sound : DagSound log before)
    (written : WorkWritten log next eventId (.workDerived p)) (events : next.events = log.events)
    (stored : ∃ row ∈ log.events, row.eventId = eventId)
    (done : recomputeWorkState next scan before p.workRef = .ok after) : DagSound next after := by
  have held := written.held sound.held events stored
  have results : ∀ other, resultOf next before.resultOccurrenceQuarantine other =
      resultOf log before.resultOccurrenceQuarantine other := fun other =>
    written.resultOf_kept events (fun _ same => by cases same) fun _ _ _ => rfl
  have retired : ∀ other, retiredFact next other = retiredFact log other := fun other =>
    written.retiredFact_kept fun _ same => by cases same
  have absent : deriveOf next p.workRef = none →
      ∀ row ∈ before.currentWork, row.workRef ≠ p.workRef := by
    intro underived
    refine (sound.works p.workRef).absent ?_
    unfold deriveOf at underived ⊢
    rw [latestOf_eq_none fun fact member => held.derives fact (List.mem_filter.mp member).1]
      at underived
    rw [latestOf_eq_none fun fact member => sound.held.derives fact (List.mem_filter.mp member).1]
    obtain ⟨added, rows, _⟩ := written.derives
    rw [rows, List.filter_append] at underived
    exact (List.append_eq_nil_iff.mp underived).1
  obtain ⟨same, right, others⟩ := recomputeWorkState_right absent done
  refine ⟨held, ?_, ?_, ?_, ?_⟩
  · rw [same.quarantine]
    exact sound.quarantine_kept written events fun _ same => by cases same
  · rw [same.edges]
    intro edge inEdges
    obtain ⟨fact, declared, named⟩ := sound.declared edge inEdges
    exact ⟨fact, written.declares fact declared, named⟩
  · rw [same.edges, same.quarantine]
    intro edge inEdges
    rw [sound.edges edge inEdges]
    unfold stateOf
    rw [retired, results]
  · intro other
    by_cases mine : other = p.workRef
    · exact mine ▸ right
    · refine (sound.works other).stable ?_ (retired other) ?_ ?_ ?_
      · refine written.deriveOf_kept events ?_
        rintro _ ⟨⟩
        exact fun own => mine own.symm
      · rw [same.quarantine]
        exact results other
      · unfold edgesOf
        rw [same.edges]
      · exact fun row named => others row fun own => mine (named.symm.trans own)

/-- A new fact of one work leaves a frontier at it. -/
theorem DagSound.frontier {payload : Payload} {workRef : String} (sound : DagSound log before)
    (written : WorkWritten log next eventId payload) (events : next.events = log.events)
    (stored : ∃ row ∈ log.events, row.eventId = eventId)
    (underived : ∀ p, payload ≠ .workDerived p)
    (recorded : ∀ p, payload = .resultRecorded p → p.workRef = workRef)
    (retires : ∀ p, payload = .workRetired p → p.workRef = workRef)
    (works : after.currentWork = before.currentWork)
    (edges : after.currentWorkDependency = before.currentWorkDependency)
    (quarantine : QuarantineRight next after.resultOccurrenceQuarantine)
    (moved : retiredFact next workRef = false →
      resultOf next after.resultOccurrenceQuarantine workRef ≠ none) :
    Frontier next after workRef := by
  have held := written.held sound.held events stored
  have derives : ∀ other, deriveOf next other = deriveOf log other := fun other =>
    written.deriveOf_kept events fun p same => absurd same (underived p)
  have retired : ∀ other, other ≠ workRef → retiredFact next other = retiredFact log other :=
    fun other apart => written.retiredFact_kept fun p same own =>
      apart (own.symm.trans (retires p same))
  have results : ∀ other, other ≠ workRef →
      resultOf next after.resultOccurrenceQuarantine other =
        resultOf log before.resultOccurrenceQuarantine other := by
    intro other apart
    refine written.resultOf_kept events (fun p same own =>
      apart (own.symm.trans (recorded p same))) fun fact inLog named => ?_
    rw [Bool.eq_iff_iff, quarantine.exact fact (written.grown fact inLog),
      sound.quarantine.exact fact inLog]
    refine Later.same inLog (fun other _ => keyOf_events events _) fun rival sameWork _ _ _ => ?_
    refine ⟨fun inNext => (written.new inNext).resolve_right ?_, written.grown rival⟩
    rintro ⟨_, p, same, ofWork, _⟩
    exact apart (named.symm.trans (sameWork.symm.trans (ofWork.trans (recorded p same))))
  refine ⟨held, quarantine, ?_, ?_, ?_, ?_, ?_⟩
  · rw [edges]
    intro edge inEdges
    obtain ⟨fact, declared, named⟩ := sound.declared edge inEdges
    exact ⟨fact, written.declares fact declared, named⟩
  · rw [edges]
    intro edge inEdges apart
    rw [sound.edges edge inEdges]
    unfold stateOf
    rw [retired _ apart, results _ apart]
  · rw [edges]
    intro edge inEdges into
    refine ⟨fun dead => ?_, fun alive bare => absurd bare (moved alive)⟩
    have was := sound.edges edge inEdges
    rw [dead, into] at was
    have old := stateOf_retired was.symm
    obtain ⟨added, rows, _⟩ := written.retirements
    unfold retiredFact at old ⊢
    rw [rows, List.any_append, old, Bool.true_or]
  · intro other apart
    refine (sound.works other).stable (derives other) (retired other apart) (results other apart)
      ?_ fun row _ => by rw [works]
    unfold edgesOf
    rw [edges]
  · rw [derives, works]
    exact (sound.works workRef).absent

theorem DagSound.retired_frontier {p : WorkRetired} (sound : DagSound log before)
    (written : WorkWritten log next eventId (.workRetired p)) (events : next.events = log.events)
    (stored : ∃ row ∈ log.events, row.eventId = eventId) : Frontier next before p.workRef := by
  have dead : retiredFact next p.workRef = true := by
    obtain ⟨added, rows, _, new⟩ := written.retirements
    obtain ⟨fact, fresh, named⟩ := new p rfl
    refine List.any_eq_true.mpr ⟨fact, ?_, decide_eq_true named⟩
    rw [rows]
    exact List.mem_append_right _ fresh
  refine sound.frontier written events stored (fun _ same => by cases same)
    (fun _ same => by cases same) ?_ rfl rfl
    (sound.quarantine_kept written events fun _ same => by cases same) ?_
  · rintro _ ⟨⟩
    rfl
  · intro alive
    rw [dead] at alive
    cases alive

theorem DagSound.retired {p : WorkRetired} (sound : DagSound log before)
    (written : WorkWritten log next eventId (.workRetired p)) (events : next.events = log.events)
    (stored : ∃ row ∈ log.events, row.eventId = eventId)
    (done : reduceRetired next scan before p = .ok after) : DagSound next after := by
  simp only [reduceRetired, bind_ok] at done
  obtain ⟨own, recomputed, propagated⟩ := done
  exact (sound.retired_frontier written events stored).propagated recomputed propagated

theorem DagSound.contained {p : ResultRecorded} (sound : DagSound log before)
    (written : WorkWritten log next eventId (.resultRecorded p)) (events : next.events = log.events)
    (stored : ∃ row ∈ log.events, row.eventId = eventId)
    (done : containOccurrence next before p = .ok after) :
    after.currentWork = before.currentWork ∧
      after.currentWorkDependency = before.currentWorkDependency ∧
      QuarantineRight next after.resultOccurrenceQuarantine := by
  have new : ∀ fact ∈ next.eventResult, fact ∈ log.eventResult ∨
      (fact.workRef = p.workRef ∧ fact.occurrenceKey = p.occurrenceKey) := by
    intro fact held
    refine (written.new held).imp id ?_
    rintro ⟨_, _, ⟨⟩, named, key⟩
    exact ⟨named, key⟩
  unfold containOccurrence at done
  cases occurrence : p.occurrenceKey with
  | some occurrenceKey =>
      rw [occurrence] at done new
      exact requarantine_right sound.quarantine (written.held sound.held events stored)
        written.grown new (fun fact _ => keyOf_events events _) done
  | none =>
      rw [occurrence] at done new
      cases done
      refine ⟨rfl, rfl, fun entry listed => ?_, fun fact held => ?_⟩
      · obtain ⟨fact, inLog, named⟩ := sound.quarantine.sound entry listed
        exact ⟨fact, written.grown fact inLog, named⟩
      · by_cases inLog : fact ∈ log.eventResult
        · rw [sound.quarantine.exact fact inLog]
          refine (Later.same inLog (fun other _ => keyOf_events events _)
            fun other _ key _ carries => ⟨fun inNext => ?_, written.grown other⟩).symm
          refine (new other inNext).resolve_right fun both => ?_
          rw [both.2] at carries
          cases carries
        · -- a result without a key is neither later nor listed
          have keyless := ((new fact held).resolve_left inLog).2
          constructor
          · intro listed
            obtain ⟨entry, inTable, named⟩ := Table.holds_iff.mp listed
            obtain ⟨source, sourceHeld, sameId, _, key⟩ := sound.quarantine.sound entry inTable
            have one : source = fact := Table.eq_of_key (written.grown source sourceHeld) held
              (sameId.trans named)
            rw [one, keyless] at key
            cases key
          · rintro ⟨key, _, carries, _⟩
            rw [keyless] at carries
            cases carries

theorem DagSound.recorded_frontier {p : ResultRecorded} (sound : DagSound log before)
    (written : WorkWritten log next eventId (.resultRecorded p)) (events : next.events = log.events)
    (stored : ∃ row ∈ log.events, row.eventId = eventId)
    (containing : containOccurrence next before p = .ok after) :
    Frontier next after p.workRef := by
  obtain ⟨works, edges, quarantine⟩ := sound.contained written events stored containing
  refine sound.frontier written events stored (fun _ same => by cases same) ?_
    (fun _ same => by cases same) works edges quarantine fun _ => ?_
  · rintro _ ⟨⟩
    rfl
  · refine resultOf_some (written.held sound.held events stored) quarantine ?_
    obtain ⟨added, rows, _, new⟩ := written.results
    obtain ⟨fact, fresh, named⟩ := new p rfl
    refine ⟨fact, ?_, named⟩
    rw [← Table.mem_rows, rows]
    exact List.mem_append_right _ fresh

theorem DagSound.recorded {p : ResultRecorded} (sound : DagSound log before)
    (written : WorkWritten log next eventId (.resultRecorded p)) (events : next.events = log.events)
    (stored : ∃ row ∈ log.events, row.eventId = eventId)
    (done : reduceResult next scan before p = .ok after) : DagSound next after := by
  simp only [reduceResult, bind_ok] at done
  obtain ⟨contained, containing, own, recomputed, propagated⟩ := done
  exact (sound.recorded_frontier written events stored containing).propagated recomputed propagated

end Branches

section Dependencies

variable {log next : Log} {scan : Scan} {eventId : String} {before after : Projections}

theorem edgesOf_insertNew {edge : CurrentWorkDependency} {other : String}
    (apart : edge.workRef ≠ other) :
    edgesOf { before with
      currentWorkDependency := before.currentWorkDependency.insertNew edge } other =
      edgesOf before other := by
  unfold edgesOf Table.insertNew
  dsimp only
  split
  · exact filter_added rfl fun row member => by
      rw [List.mem_singleton.mp member]
      exact decide_eq_false apart
  · rfl

/-- A new edge is settled from the facts of what it waits for. -/
theorem DagSound.declare {p : WorkDependencyDeclared} (sound : DagSound next before)
    (fact : ∃ fact ∈ next.eventWorkDependency, fact.workRef = p.workRef ∧
      fact.dependencyWorkRef = p.dependencyWorkRef ∧ fact.satisfactionPolicy = p.satisfactionPolicy)
    (done : declareDependency next scan before p = .ok after) : DagSound next after := by
  simp only [declareDependency, bind_ok] at done
  obtain ⟨settled, settling, recomputed⟩ := done
  let edge : CurrentWorkDependency :=
    { workRef := p.workRef
      dependencyWorkRef := p.dependencyWorkRef
      satisfactionPolicy := p.satisfactionPolicy
      dependencyState := .pending
      resultRef := none }
  let declared : Projections := { before with
    currentWorkDependency := before.currentWorkDependency.insertNew edge }
  have member : ∀ row ∈ declared.currentWorkDependency,
      row ∈ before.currentWorkDependency ∨ row = edge := fun row held =>
    (Table.mem_insertNew.mp held).imp id And.left
  have settles : Settled next declared settled p.dependencyWorkRef (some p.workRef) := by
    refine settleEdges_settled (fun row held into _ => ?_) settling
    rcases member row held with old | rfl
    · have state := sound.edges row old
      rw [into] at state
      refine ⟨fun dead => stateOf_retired (state.symm.trans dead), fun alive bare => ?_⟩
      rw [state]
      unfold stateOf
      rw [alive, show resultOf next before.resultOccurrenceQuarantine p.dependencyWorkRef = none
        from bare]
      rfl
    · exact ⟨fun dead => (by cases dead), fun _ _ => rfl⟩
  have works : settled.currentWork = before.currentWork := settles.works
  have quarantined : settled.resultOccurrenceQuarantine = before.resultOccurrenceQuarantine :=
    settles.quarantine
  have absent : deriveOf next p.workRef = none →
      ∀ row ∈ settled.currentWork, row.workRef ≠ p.workRef := by
    rw [works]
    exact (sound.works p.workRef).absent
  obtain ⟨same, right, others⟩ := recomputeWorkState_right absent recomputed
  have quarantine := same.quarantine.trans quarantined
  refine ⟨sound.held, by rw [quarantine]; exact sound.quarantine, ?_, ?_, ?_⟩
  · rw [same.edges]
    intro row held
    obtain ⟨old, inDeclared, work, dependency, policy, _⟩ := settles.edges row held
    rw [work, dependency, policy]
    rcases member old inDeclared with inBefore | rfl
    · exact sound.declared old inBefore
    · exact fact
  · rw [same.edges, quarantine]
    intro row held
    obtain ⟨old, inDeclared, _, dependency, _, mine, kept⟩ := settles.edges row held
    by_cases only : old.dependencyWorkRef = p.dependencyWorkRef ∧
        (some p.workRef).all (· = old.workRef) = true
    · rw [mine only, dependency, only.1]
    · obtain rfl := kept only
      rcases member row inDeclared with inBefore | rfl
      · exact sound.edges row inBefore
      · exact absurd ⟨rfl, decide_eq_true rfl⟩ only
  · intro other
    by_cases mine : other = p.workRef
    · exact mine ▸ right
    · refine (sound.works other).stable rfl rfl (by rw [quarantine]) ?_ ?_
      · have settledEdges := settles.others other fun row _ named both =>
          mine (named.symm.trans (of_decide_eq_true both.2).symm)
        have declaredEdges : edgesOf declared other = edgesOf before other :=
          edgesOf_insertNew fun own => mine own.symm
        rw [← declaredEdges, ← settledEdges]
        unfold edgesOf
        rw [same.edges]
      · intro row named
        rw [others row fun own => mine (named.symm.trans own), works]

theorem table_ext {ρ κ : Type} {key : ρ → κ} {left right : Table ρ key}
    (same : left.rows = right.rows) : left = right := by
  cases left
  cases right
  cases same
  rfl

theorem WorkWritten.same {payload : Payload} (written : WorkWritten log next eventId payload)
    (events : next.events = log.events) (unrecorded : ∀ p, payload ≠ .resultRecorded p)
    (underived : ∀ p, payload ≠ .workDerived p) (alive : ∀ p, payload ≠ .workRetired p) :
    SameWorkFacts log next := by
  obtain ⟨results, resultRows, newResult, _⟩ := written.results
  obtain ⟨derives, deriveRows, newDerive⟩ := written.derives
  obtain ⟨retirements, retirementRows, newRetirement, _⟩ := written.retirements
  have noResult : results = [] := List.eq_nil_iff_forall_not_mem.mpr fun fact fresh => by
    obtain ⟨_, p, same, _⟩ := newResult fact fresh
    exact unrecorded p same
  have noDerive : derives = [] := List.eq_nil_iff_forall_not_mem.mpr fun fact fresh => by
    obtain ⟨_, p, same, _⟩ := newDerive fact fresh
    exact underived p same
  have noRetirement : retirements = [] := List.eq_nil_iff_forall_not_mem.mpr fun fact fresh => by
    obtain ⟨p, same, _⟩ := newRetirement fact fresh
    exact alive p same
  rw [noResult, List.append_nil] at resultRows
  rw [noDerive, List.append_nil] at deriveRows
  rw [noRetirement, List.append_nil] at retirementRows
  exact ⟨table_ext resultRows, table_ext deriveRows, table_ext retirementRows, written.declares,
    fun id _ => keyOf_events events id, fun row held => ⟨row, events ▸ held, rfl⟩⟩

end Dependencies

/-- One reduction keeps the fold. -/
theorem DagSound.reduce {log next : Log} {before after : Projections} {scan : Scan} {event : Event}
    {payload : Payload} (sound : DagSound log before)
    (stored : ∃ row ∈ log.events, row.eventId = event.eventId)
    (carried : event.payload = some payload)
    (inserted : insertPayload platform log event.eventId payload = .ok next)
    (reduced : reduce next scan event before = .ok after) : DagSound next after := by
  have written := insertPayload_works inserted
  have events := insertPayload_events inserted
  obtain ⟨linked, middle, touched, around, own, rest⟩ := reduce_works carried reduced
  have entered := sound.stable (SameWorkFacts.refl log) around
  refine DagSound.stable ?_ (SameWorkFacts.refl next) rest
  have untouched : (∀ p, payload ≠ .resultRecorded p) → (∀ p, payload ≠ .workDerived p) →
      (∀ p, payload ≠ .workRetired p) → SameWorks linked middle → DagSound next middle :=
    fun unrecorded underived alive same =>
      entered.stable (written.same events unrecorded underived alive) same
  cases payload with
  | planCreated p =>
      obtain ⟨_, done, made⟩ := map_ok.mp own
      cases made
      exact untouched (fun _ same => by cases same) (fun _ same => by cases same)
        (fun _ same => by cases same) (recomputePlanState_works done)
  | planLifecycleChanged p =>
      obtain ⟨_, done, made⟩ := map_ok.mp own
      cases made
      exact untouched (fun _ same => by cases same) (fun _ same => by cases same)
        (fun _ same => by cases same) (recomputePlanState_works done)
  | workDerived p =>
      obtain ⟨_, done, made⟩ := map_ok.mp own
      cases made
      exact entered.derived written events stored done
  | workDependencyDeclared p =>
      obtain ⟨_, done, made⟩ := map_ok.mp own
      cases made
      obtain ⟨added, rows, new⟩ := written.dependencies
      obtain ⟨fact, fresh, named⟩ := new p rfl
      refine (entered.stable (written.same events (fun _ same => by cases same) (fun _ same => by cases same)
        (fun _ same => by cases same)) (.refl _)).declare
        ⟨fact, ?_, named⟩ done
      rw [← Table.mem_rows, rows]
      exact List.mem_append_right _ fresh
  | resultRecorded p =>
      obtain ⟨_, done, made⟩ := map_ok.mp own
      cases made
      exact entered.recorded written events stored done
  | workRetired p =>
      obtain ⟨_, done, made⟩ := map_ok.mp own
      cases made
      exact entered.retired written events stored done
  | linkAsserted p =>
      obtain ⟨_, done, made⟩ := map_ok.mp own
      cases made
      exact untouched (fun _ same => by cases same) (fun _ same => by cases same)
        (fun _ same => by cases same) (insertLink_works done)
  | observationRecorded p =>
      cases own
      exact untouched (fun _ same => by cases same) (fun _ same => by cases same)
        (fun _ same => by cases same) (.refl _)
  | claimRecorded p =>
      cases own
      exact untouched (fun _ same => by cases same) (fun _ same => by cases same)
        (fun _ same => by cases same) ⟨rfl, rfl, rfl⟩
  | authorityConfiguration p =>
      cases own
      exact untouched (fun _ same => by cases same) (fun _ same => by cases same)
        (fun _ same => by cases same) (.refl _)
  | authorityReceipt p =>
      cases own
      exact untouched (fun _ same => by cases same) (fun _ same => by cases same)
        (fun _ same => by cases same) (.refl _)

/-! ## Runs -/

/-- The row of an event, before its payload. -/
theorem DagSound.insert {log next : Log} {projections : Projections} {event : Event}
    {materialized : Bool} {recordedAt : Int} {row : EventRow} (sound : DagSound log projections)
    (inserted : EventInserted platform log event materialized recordedAt row next) :
    DagSound next projections := by
  have kept : ∀ old ∈ log.events, old ∈ next.events := fun old inLog =>
    inserted.mem_iff.mpr (.inl inLog)
  obtain ⟨_, same⟩ := inserted.appended
  refine sound.stable ⟨by rw [same], by rw [same], by rw [same], by rw [same]; exact fun _ held => held,
    fun eventId held => ?_, fun old inLog => ⟨old, kept old inLog, rfl⟩⟩ (.refl _)
  exact keyOf_kept (fun old inLog => ⟨old, kept old inLog, .refl old⟩) held

theorem DagSound.upgrade {log next : Log} {projections : Projections} {row : EventRow}
    {scopeRef : Option String} (sound : DagSound log projections)
    (upgraded : upgradeRow log row scopeRef = .ok next) : DagSound next projections := by
  obtain ⟨_, _, same⟩ := upgradeRow_ok upgraded
  have kept : ∀ old ∈ log.events, ∃ now ∈ next.events, old.Became now := by
    intro old inLog
    by_cases mine : old.eventId = row.eventId
    · exact ⟨old.upgraded scopeRef, (upgradeRow_mem upgraded).mpr (.inl ⟨old, inLog, mine, rfl⟩), rfl⟩
    · exact ⟨old, (upgradeRow_mem upgraded).mpr (.inr ⟨inLog, mine⟩), .refl old⟩
  refine sound.stable ⟨by rw [same], by rw [same], by rw [same], by rw [same]; exact fun _ held => held,
    fun eventId held => keyOf_kept kept held, fun old inLog => ?_⟩ (.refl _)
  obtain ⟨now, inNext, became⟩ := kept old inLog
  refine ⟨now, inNext, ?_⟩
  unfold EventRow.Became at became
  rw [became]

theorem admitStep_dag {receiver : Receiver} {state next : AdmitState} {event : Event}
    (sound : DagSound state.store.log state.store.projections)
    (step : AdmitStep platform receiver state event next) :
    DagSound next.store.log next.store.projections := by
  cases step with
  | kept log projections _ _ =>
      rw [log, projections]
      exact sound
  | upgraded row upgrade _ _ =>
      obtain ⟨payload, middle, carried, upgraded, written, reduced⟩ := upgrade.written
      have now : row.upgraded event.scopeRef ∈ middle.events :=
        (upgradeRow_mem upgraded).mpr (.inl ⟨row, rowAt_mem upgrade.found, rfl, rfl⟩)
      exact (sound.upgrade upgraded).reduce ⟨_, now, upgrade.sameId⟩ carried written reduced
  | inserted stored passed form write _ _ =>
      obtain ⟨log, row, inserted, wrote⟩ := write.written
      have entered := sound.insert inserted
      obtain ⟨_, _, shape⟩ := inserted.envelope
      rcases wrote with ⟨_, sameLog, sameProjections⟩ | ⟨payload, carried, written, reduced⟩
      · rw [sameLog, sameProjections]
        exact entered
      · exact entered.reduce ⟨row, inserted.mem_iff.mpr (.inr rfl), by rw [shape]⟩ carried written
          reduced

theorem called_dag {store next : Store} {call : Call}
    (sound : DagSound store.log store.projections) (reduces : ¬ call.unreduced)
    (called : Called platform readPayload store call next) :
    DagSound next.log next.projections := by
  cases called_cases called with
  | emitted emitter now recordedAt request event row middle requested emitted projections =>
      have entered := sound.insert emitted.inserted
      rcases projections with ⟨unreduced, _⟩ | ⟨scan, reduced⟩
      · exact absurd unreduced reduces
      · obtain ⟨_, _, shape⟩ := emitted.inserted.envelope
        exact entered.reduce ⟨row, emitted.inserted.mem_iff.mpr (.inr rfl), by rw [shape]⟩
          emitted.minted.payload emitted.payload reduced
  | delivered receiver clock batch final offered admitted log projections =>
      rw [log, projections]
      exact foldlM_invariant
        (fun state event next _ (kept : DagSound state.store.log state.store.projections) step =>
          admitStep_dag kept (admitOne_ok step)) sound admitted

theorem empty_dag : DagSound ({} : Store).log ({} : Store).projections := by
  refine ⟨⟨fun fact held => (by cases held), fun fact held => (by cases held)⟩,
    ⟨fun entry held => (by cases held), fun fact held => (by cases held)⟩,
    fun edge held => (by cases held), fun edge held => (by cases held), fun workRef row held => ?_⟩
  cases held

/-! ## What the fold says -/

/-- The causally latest of some facts, by the events that they are of. -/
def Log.IsLatest {ρ : Type} (log : Log) (eventId : ρ → String) (among : ρ → Prop) (fact : ρ) :
    Prop :=
  among fact ∧ ∃ own, log.keyOf (eventId fact) = some own ∧
    ∀ other, among other → ∃ theirs, log.keyOf (eventId other) = some theirs ∧ theirs ≤ own

theorem latestOf_isLatest {ρ : Type} {log : Log} {eventId : ρ → String} {rows : List ρ} {fact : ρ}
    (held : ∀ fact ∈ rows, ∃ row ∈ log.events, row.eventId = eventId fact)
    (found : log.latestOf eventId rows = some fact) :
    log.IsLatest eventId (· ∈ rows) fact := by
  obtain ⟨⟨own, best⟩, latestHere, rfl⟩ := Option.map_eq_some_iff.mp found
  obtain ⟨source, member, keyed⟩ := List.mem_filterMap.mp (latest_mem latestHere)
  obtain ⟨key, located, same⟩ := Option.map_eq_some_iff.mp keyed
  cases same
  refine ⟨member, own, located, fun other inRows => ?_⟩
  obtain ⟨row, stored, named⟩ := held other inRows
  exact ⟨_, keyOf_of_mem stored named, le_latest latestHere _ (mem_keyed inRows stored named)⟩

/-- The causally latest result of a work that is not quarantined. -/
def Log.LatestResult (log : Log) (workRef : String) (result : EventResultRow) : Prop :=
  log.IsLatest (·.eventId)
    (fun fact => fact ∈ log.eventResult ∧ fact.workRef = workRef ∧ ¬ Later log fact) result

/-- A retirement of the work decides, else its latest result, else neither. -/
inductive Decided {δ : Type} (log : Log) (workRef : String) (retired : δ) (image : Outcome → δ)
    (otherwise : δ) : δ → Prop
  | retired (dead : ∃ fact ∈ log.eventWorkRetired, fact.workRef = workRef) :
      Decided log workRef retired image otherwise retired
  | result (alive : ¬ ∃ fact ∈ log.eventWorkRetired, fact.workRef = workRef)
      (result : EventResultRow) (latest : log.LatestResult workRef result) :
      Decided log workRef retired image otherwise (image result.outcome)
  | neither (alive : ¬ ∃ fact ∈ log.eventWorkRetired, fact.workRef = workRef)
      (unresulted : ∀ fact ∈ log.eventResult, fact.workRef = workRef → Later log fact) :
      Decided log workRef retired image otherwise otherwise

def CurrentWorkDependency.resolved (edge : CurrentWorkDependency) : Prop :=
  edge.dependencyState = .satisfied ∨ edge.dependencyState = .conflicted

instance (edge : CurrentWorkDependency) : Decidable edge.resolved :=
  inferInstanceAs (Decidable (_ ∨ _))

/-- Ready or blocked, by the policy that the edges share. -/
def allAny (edges : List CurrentWorkDependency) : Execution :=
  if edges = [] then .ready
  else if ∃ edge ∈ edges, edge.satisfactionPolicy = .any then
    if ∃ edge ∈ edges, edge.resolved then .ready else .blocked
  else if ∀ edge ∈ edges, edge.resolved then .ready else .blocked

theorem readiness_allAny {rows edges : List CurrentWorkDependency} (perm : rows.Perm edges)
    (uniform : ∀ left ∈ edges, ∀ right ∈ edges,
      left.satisfactionPolicy = right.satisfactionPolicy) : readiness rows = allAny edges := by
  have mem : ∀ edge, edge ∈ edges ↔ edge ∈ rows := fun edge => perm.mem_iff.symm
  cases rows with
  | nil =>
      rw [List.nil_perm.mp perm]
      rfl
  | cons first rest =>
      have nonempty : edges ≠ [] := by
        rintro rfl
        cases (mem first).mpr List.mem_cons_self
      unfold allAny
      rw [if_neg nonempty]
      simp only [mem] at uniform ⊢
      unfold readiness
      dsimp only
      by_cases any : first.satisfactionPolicy = .any
      · have shared : ∃ edge ∈ first :: rest, edge.satisfactionPolicy = .any :=
          ⟨first, List.mem_cons_self, any⟩
        rw [if_pos any, if_pos shared]
        refine if_congr ?_ rfl rfl
        rw [Nat.one_le_iff_ne_zero, ← Nat.pos_iff_ne_zero, List.countP_pos_iff]
        exact exists_congr fun edge => and_congr_right fun _ => decide_eq_true_iff
      · have all : ¬ ∃ edge ∈ first :: rest, edge.satisfactionPolicy = .any := by
          rintro ⟨edge, held, policy⟩
          exact any ((uniform first List.mem_cons_self edge held).trans policy)
        rw [if_neg any, if_neg all]
        have counted : (first :: rest).countP (fun row =>
            row.dependencyState = .satisfied ∨ row.dependencyState = .conflicted) =
              (first :: rest).length ↔ ∀ edge ∈ first :: rest, edge.resolved := by
          rw [List.countP_eq_length]
          exact forall₂_congr fun edge _ => decide_eq_true_iff
        split
        · rename_i dead
          rw [if_neg]
          intro resolved
          rw [Bool.or_eq_true, List.any_eq_true, List.any_eq_true] at dead
          rcases dead with ⟨edge, held, state⟩ | ⟨edge, held, state⟩
          all_goals
            have now := of_decide_eq_true state
            rcases resolved edge held with same | same <;> rw [now] at same <;> cases same
        · exact if_congr counted rfl rfl

/-- What every work row, dependency row and quarantine entry says is folded from the facts. -/
structure WorkFolded (log : Log) (projections : Projections) (workRef : String) : Prop where
  derived : (∃ row ∈ projections.currentWork, row.workRef = workRef) ↔
    ∃ fact ∈ log.eventWork, fact.workRef = workRef
  identity : ∀ row ∈ projections.currentWork, row.workRef = workRef → ∃ derive,
    log.IsLatest (·.eventId) (fun fact => fact ∈ log.eventWork ∧ fact.workRef = workRef) derive ∧
      Identified derive row
  execution : ∀ row ∈ projections.currentWork, row.workRef = workRef →
    Decided log workRef .retired ownExec (allAny (edgesOf projections workRef)) row.execution
  dependency : ∀ edge ∈ projections.currentWorkDependency, edge.workRef = workRef →
    Decided log edge.dependencyWorkRef .retired depState .pending edge.dependencyState
  quarantined : ∀ fact ∈ log.eventResult, fact.workRef = workRef →
    (projections.resultOccurrenceQuarantine.holds fact.eventId = true ↔ Later log fact)

theorem retiredFact_iff {log : Log} {workRef : String} : retiredFact log workRef = true ↔
    ∃ fact ∈ log.eventWorkRetired, fact.workRef = workRef := by
  unfold retiredFact
  rw [List.any_eq_true]
  exact exists_congr fun fact => and_congr_right fun _ => decide_eq_true_iff

section Sound

variable {log : Log} {projections : Projections}

theorem DagSound.latestResult (sound : DagSound log projections) {workRef : String}
    {result : EventResultRow}
    (found : resultOf log projections.resultOccurrenceQuarantine workRef = some result) :
    log.LatestResult workRef result := by
  have among : ∀ fact, fact ∈ log.eventResult.rows.filter (fun row => row.workRef = workRef ∧
      projections.resultOccurrenceQuarantine.holds row.eventId = false) ↔
      fact ∈ log.eventResult ∧ fact.workRef = workRef ∧ ¬ Later log fact := by
    intro fact
    rw [List.mem_filter, decide_eq_true_iff, Table.mem_rows]
    refine and_congr_right fun held => and_congr_right fun _ => ?_
    rw [← sound.quarantine.exact fact held, Bool.not_eq_true]
  have latest := latestOf_isLatest
    (fun fact member => sound.held.results fact (List.mem_filter.mp member).1) found
  simp only [Log.IsLatest, among] at latest
  exact latest

theorem DagSound.unresulted (sound : DagSound log projections) {workRef : String}
    (none : resultOf log projections.resultOccurrenceQuarantine workRef = none) :
    ∀ fact ∈ log.eventResult, fact.workRef = workRef → Later log fact :=
  fun fact held named =>
    absurd none (resultOf_some sound.held sound.quarantine ⟨fact, held, named⟩)

/-- What follows the retirement, else the latest result, is decided. -/
theorem DagSound.decided (sound : DagSound log projections) {δ : Type} {workRef : String}
    {retired otherwise value : δ} {image : Outcome → δ}
    (dead : retiredFact log workRef = true → value = retired)
    (resulted : retiredFact log workRef = false → ∀ fact,
      resultOf log projections.resultOccurrenceQuarantine workRef = some fact →
      value = image fact.outcome)
    (neither : retiredFact log workRef = false →
      resultOf log projections.resultOccurrenceQuarantine workRef = none → value = otherwise) :
    Decided log workRef retired image otherwise value := by
  by_cases held : retiredFact log workRef = true
  · rw [dead held]
    exact .retired (retiredFact_iff.mp held)
  · have alive := fun facts => held (retiredFact_iff.mpr facts)
    rw [Bool.not_eq_true] at held
    cases result : resultOf log projections.resultOccurrenceQuarantine workRef with
    | some fact =>
        rw [resulted held fact result]
        exact .result alive fact (sound.latestResult result)
    | none =>
        rw [neither held result]
        exact .neither alive (sound.unresulted result)

theorem DagSound.work_row (sound : DagSound log projections) {row : CurrentWork}
    (member : row ∈ projections.currentWork) : ∃ derive, deriveOf log row.workRef = some derive ∧
      Identified derive row ∧ Executes log projections row.workRef row.execution := by
  have right := sound.works row.workRef
  unfold WorkRight at right
  cases derived : deriveOf log row.workRef with
  | none =>
      rw [derived] at right
      exact absurd rfl (right row member)
  | some derive =>
      rw [derived] at right
      obtain ⟨own, held, named, fields⟩ := right
      rw [Table.eq_of_key held member named] at fields
      exact ⟨derive, rfl, fields⟩

theorem DagSound.folded (sound : DagSound log projections)
    (uniform : ∀ left ∈ log.eventWorkDependency, ∀ right ∈ log.eventWorkDependency,
      left.workRef = right.workRef → left.satisfactionPolicy = right.satisfactionPolicy)
    (workRef : String) : WorkFolded log projections workRef := by
  refine ⟨⟨?_, ?_⟩, ?_, ?_, ?_, fun fact held _ => sound.quarantine.exact fact held⟩
  · rintro ⟨row, member, rfl⟩
    obtain ⟨derive, found, _⟩ := sound.work_row member
    obtain ⟨held, _⟩ := latestOf_isLatest
      (fun fact member => sound.held.derives fact (List.mem_filter.mp member).1) found
    exact ⟨derive, (List.mem_filter.mp held).1, of_decide_eq_true (List.mem_filter.mp held).2⟩
  · rintro ⟨fact, held, named⟩
    have right := sound.works workRef
    unfold WorkRight at right
    cases derived : deriveOf log workRef with
    | none =>
        unfold deriveOf at derived
        rw [latestOf_eq_none fun fact member =>
          sound.held.derives fact (List.mem_filter.mp member).1] at derived
        exact absurd (List.mem_filter.mpr ⟨held, decide_eq_true named⟩)
          (List.eq_nil_iff_forall_not_mem.mp derived fact)
    | some derive =>
        rw [derived] at right
        obtain ⟨row, member, named, _⟩ := right
        exact ⟨row, member, named⟩
  · rintro row member rfl
    obtain ⟨derive, found, identified, _⟩ := sound.work_row member
    have latest := latestOf_isLatest
      (fun fact member => sound.held.derives fact (List.mem_filter.mp member).1) found
    simp only [Log.IsLatest, List.mem_filter, decide_eq_true_eq, Table.mem_rows] at latest
    exact ⟨derive, latest, identified⟩
  · rintro row member rfl
    obtain ⟨_, _, _, executes⟩ := sound.work_row member
    unfold Executes at executes
    refine sound.decided (fun dead => ?_) (fun alive fact result => ?_) fun alive result => ?_
    · rwa [if_pos dead] at executes
    · rw [if_neg (by simp [alive]), result] at executes
      exact executes
    · rw [if_neg (by simp [alive]), result] at executes
      obtain ⟨rows, perm, executes⟩ := executes
      refine executes.trans (readiness_allAny perm fun left inLeft right inRight => ?_)
      obtain ⟨leftEdge, leftNamed⟩ := List.mem_filter.mp inLeft
      obtain ⟨rightEdge, rightNamed⟩ := List.mem_filter.mp inRight
      obtain ⟨leftFact, leftHeld, leftWork, _, leftPolicy⟩ := sound.declared left leftEdge
      obtain ⟨rightFact, rightHeld, rightWork, _, rightPolicy⟩ := sound.declared right rightEdge
      rw [← leftPolicy, ← rightPolicy]
      refine uniform leftFact leftHeld rightFact rightHeld ?_
      rw [leftWork, rightWork, of_decide_eq_true leftNamed, of_decide_eq_true rightNamed]
  · rintro edge member rfl
    have state := sound.edges edge member
    unfold stateOf at state
    refine sound.decided (fun dead => ?_) (fun alive fact result => ?_) fun alive result => ?_
    · rwa [if_pos dead] at state
    · rw [if_neg (by simp [alive]), result] at state
      exact state
    · rw [if_neg (by simp [alive]), result] at state
      exact state

end Sound

namespace FirstWork

def work : WorkDerived where
  workRef := "work"
  planRef := "plan"
  workKind := "kind"
  roleRequirement := none
  subjectRef := none
  objective := none
  constraints := none
  expectedObservations := none
  domain := none

theorem work_writable : (Payload.workDerived work).Writable plainPlatform := by
  intro log eventId unused
  have fresh : log.eventWork.holds eventId = false := fresh_of_notMem fun named => unused (by
    simp only [Log.payloadIds, List.mem_append]
    tauto)
  have cast : castSubject plainPlatform work.subjectRef = .ok none := rfl
  simp only [insertPayload, insertWorkDerived, cast, bind, Except.bind]
  rw [insertRow_succeeds (by decide) fresh]
  exact ⟨_, rfl⟩

end FirstWork

end Kawa
