import Kawa.DependencyCounters
import Kawa.WireRoundTrip

/-!
Two stores that hold the same events show the same works.  What decides a work is folded from
its facts, every declaration leaves an edge, and the facts are what the held payloads write.
-/

namespace Kawa

open Result Latest

variable {platform : Platform} {readPayload : String → Option Payload}

/-! ## One fold of the same facts -/

/-- The facts that works are folded from, under the same causal keys; of the results those that
are not contained. -/
structure SameEffects (left right : Log) : Prop where
  derives : ∀ fact, fact ∈ left.eventWork ↔ fact ∈ right.eventWork
  results : ∀ fact, (fact ∈ left.eventResult ∧ ¬ Later left fact) ↔
    (fact ∈ right.eventResult ∧ ¬ Later right fact)
  retirements : ∀ fact, fact ∈ left.eventWorkRetired ↔ fact ∈ right.eventWorkRetired
  dependencies : ∀ fact, fact ∈ left.eventWorkDependency ↔ fact ∈ right.eventWorkDependency
  deriveKeys : ∀ fact ∈ left.eventWork, left.keyOf fact.eventId = right.keyOf fact.eventId
  resultKeys : ∀ fact ∈ left.eventResult, ¬ Later left fact →
    left.keyOf fact.eventId = right.keyOf fact.eventId

theorem SameEffects.symm {left right : Log} (same : SameEffects left right) :
    SameEffects right left where
  derives fact := (same.derives fact).symm
  results fact := (same.results fact).symm
  retirements fact := (same.retirements fact).symm
  dependencies fact := (same.dependencies fact).symm
  deriveKeys fact held := (same.deriveKeys fact ((same.derives fact).mpr held)).symm
  resultKeys fact held first := by
    obtain ⟨inLeft, alsoFirst⟩ := (same.results fact).mpr ⟨held, first⟩
    exact (same.resultKeys fact inLeft alsoFirst).symm

/-- The same facts, with every result. -/
structure SameFacts (left right : Log) : Prop where
  derives : ∀ fact, fact ∈ left.eventWork ↔ fact ∈ right.eventWork
  results : ∀ fact, fact ∈ left.eventResult ↔ fact ∈ right.eventResult
  retirements : ∀ fact, fact ∈ left.eventWorkRetired ↔ fact ∈ right.eventWorkRetired
  dependencies : ∀ fact, fact ∈ left.eventWorkDependency ↔ fact ∈ right.eventWorkDependency
  deriveKeys : ∀ fact ∈ left.eventWork, left.keyOf fact.eventId = right.keyOf fact.eventId
  resultKeys : ∀ fact ∈ left.eventResult, left.keyOf fact.eventId = right.keyOf fact.eventId

theorem SameFacts.later {left right : Log} (same : SameFacts left right) {fact : EventResultRow}
    (held : fact ∈ left.eventResult) : Later left fact ↔ Later right fact :=
  (Later.same held (fun other inLeft => (same.resultKeys other inLeft).symm)
    fun other _ _ _ _ => (same.results other).symm).symm

theorem SameFacts.effects {left right : Log} (same : SameFacts left right) :
    SameEffects left right where
  derives := same.derives
  results fact := by
    rw [← same.results]
    exact and_congr_right fun held => not_congr (same.later held)
  retirements := same.retirements
  dependencies := same.dependencies
  deriveKeys := same.deriveKeys
  resultKeys fact held _ := same.resultKeys fact held

/-- The latest of the same facts under the same keys is one fact. -/
theorem isLatest_unique {left right : Log} {ρ : Type} {eventId : ρ → String}
    {among theirs : ρ → Prop} {fact other : ρ}
    (equal : ∀ fact, among fact ↔ theirs fact)
    (keys : ∀ fact, among fact → left.keyOf (eventId fact) = right.keyOf (eventId fact))
    (placed : ∀ fact other, among fact → among other → eventId fact = eventId other → fact = other)
    (latest : left.IsLatest eventId among fact)
    (rival : right.IsLatest eventId theirs other) : fact = other := by
  obtain ⟨mine, own, ownKey, ownTop⟩ := latest
  obtain ⟨inRight, top, topKey, topTop⟩ := rival
  have also := (equal other).mpr inRight
  obtain ⟨key, located, below⟩ := ownTop other also
  rw [keys other also, topKey] at located
  cases located
  obtain ⟨key, located, above⟩ := topTop fact ((equal fact).mp mine)
  rw [← keys fact mine, ownKey] at located
  cases located
  refine placed fact other mine also (keyOf_injective ownKey ?_)
  rw [keys other also, topKey, le_antisymm below above]

section Facts

variable {left right : Log} (same : SameEffects left right)

include same

theorem SameEffects.latestResult {workRef : String} {fact other : EventResultRow}
    (latest : left.LatestResult workRef fact) (rival : right.LatestResult workRef other) :
    fact = other := by
  refine isLatest_unique (fun fact => ?_) (fun fact held => same.resultKeys fact held.1 held.2.2)
    (fun fact other held also => Table.eq_of_key held.1 also.1) latest rival
  constructor
  · rintro ⟨held, named, first⟩
    obtain ⟨inRight, alsoFirst⟩ := (same.results fact).mp ⟨held, first⟩
    exact ⟨inRight, named, alsoFirst⟩
  · rintro ⟨held, named, first⟩
    obtain ⟨inLeft, alsoFirst⟩ := (same.results fact).mpr ⟨held, first⟩
    exact ⟨inLeft, named, alsoFirst⟩

/-- Two verdicts over the same facts are one. -/
theorem SameEffects.decided {δ : Type} {workRef : String} {retired otherwise value other : δ}
    {image : Outcome → δ} (verdict : Decided left workRef retired image otherwise value)
    (rival : Decided right workRef retired image otherwise other) : value = other := by
  have dead : (∃ fact ∈ left.eventWorkRetired, fact.workRef = workRef) ↔
      ∃ fact ∈ right.eventWorkRetired, fact.workRef = workRef :=
    exists_congr fun fact => and_congr_left fun _ => same.retirements fact
  -- a latest result is one that is not later than another
  have apart : ∀ result, left.LatestResult workRef result →
      (∀ fact ∈ right.eventResult, fact.workRef = workRef → Later right fact) → False := by
    rintro result ⟨⟨held, named, first⟩, _⟩ all
    obtain ⟨inRight, alsoFirst⟩ := (same.results result).mp ⟨held, first⟩
    exact alsoFirst (all result inRight named)
  have apartRight : ∀ result, right.LatestResult workRef result →
      (∀ fact ∈ left.eventResult, fact.workRef = workRef → Later left fact) → False := by
    rintro result ⟨⟨held, named, first⟩, _⟩ all
    obtain ⟨inLeft, alsoFirst⟩ := (same.results result).mpr ⟨held, first⟩
    exact alsoFirst (all result inLeft named)
  cases verdict with
  | retired held =>
      cases rival with
      | retired _ => rfl
      | result alive _ _ => exact absurd (dead.mp held) alive
      | neither alive _ => exact absurd (dead.mp held) alive
  | result alive result latest =>
      cases rival with
      | retired held => exact absurd (dead.mpr held) alive
      | result _ rival theirs => rw [same.latestResult latest theirs]
      | neither _ none => exact (apart result latest none).elim
  | neither alive none =>
      cases rival with
      | retired held => exact absurd (dead.mpr held) alive
      | result _ rival theirs => exact (apartRight rival theirs none).elim
      | neither _ _ => rfl

end Facts

/-! ## What is shown of works -/

/-- What a work row says of its work. -/
structure ShownWork where
  workRef : String
  planRef : String
  workKind : String
  subjectRef : Option String
  roleRequirement : Option String
  execution : Execution
deriving DecidableEq

def CurrentWork.shown (row : CurrentWork) : ShownWork where
  workRef := row.workRef
  planRef := row.planRef
  workKind := row.workKind
  subjectRef := row.subjectRef
  roleRequirement := row.roleRequirement
  execution := row.execution

structure ShownEdge where
  workRef : String
  dependencyWorkRef : String
  satisfactionPolicy : SatisfactionPolicy
  dependencyState : DependencyState
deriving DecidableEq

def CurrentWorkDependency.shown (edge : CurrentWorkDependency) : ShownEdge where
  workRef := edge.workRef
  dependencyWorkRef := edge.dependencyWorkRef
  satisfactionPolicy := edge.satisfactionPolicy
  dependencyState := edge.dependencyState

def Projections.Shows (projections : Projections) (work : ShownWork) : Prop :=
  ∃ row ∈ projections.currentWork, row.shown = work

def Projections.ShowsEdge (projections : Projections) (edge : ShownEdge) : Prop :=
  ∃ row ∈ projections.currentWorkDependency, row.shown = edge

/-- Every declaration has an edge. -/
def EdgesDeclared (log : Log) (projections : Projections) : Prop :=
  ∀ fact ∈ log.eventWorkDependency, ∃ edge ∈ projections.currentWorkDependency,
    edge.workRef = fact.workRef ∧ edge.dependencyWorkRef = fact.dependencyWorkRef

/-- The declarations of one work share a policy. -/
def Log.UniformPolicies (log : Log) : Prop :=
  ∀ left ∈ log.eventWorkDependency, ∀ right ∈ log.eventWorkDependency,
    left.workRef = right.workRef → left.satisfactionPolicy = right.satisfactionPolicy

/-- Readiness is read off what the edges show. -/
theorem allAny_shown {left right : List CurrentWorkDependency}
    (into : ∀ edge ∈ left, ∃ other ∈ right, other.shown = edge.shown)
    (back : ∀ edge ∈ right, ∃ other ∈ left, other.shown = edge.shown) :
    allAny left = allAny right := by
  have policy : ∀ {edge other : CurrentWorkDependency}, other.shown = edge.shown →
      other.satisfactionPolicy = edge.satisfactionPolicy := fun same =>
    congrArg ShownEdge.satisfactionPolicy same
  have state : ∀ {edge other : CurrentWorkDependency}, other.shown = edge.shown →
      (other.resolved ↔ edge.resolved) := by
    intro edge other same
    have states := congrArg ShownEdge.dependencyState same
    simp only [CurrentWorkDependency.shown] at states
    unfold CurrentWorkDependency.resolved
    rw [states]
  have empty : left = [] ↔ right = [] := by
    constructor
    · rintro rfl
      refine List.eq_nil_iff_forall_not_mem.mpr fun edge held => ?_
      obtain ⟨_, none, _⟩ := back edge held
      cases none
    · rintro rfl
      refine List.eq_nil_iff_forall_not_mem.mpr fun edge held => ?_
      obtain ⟨_, none, _⟩ := into edge held
      cases none
  have any : (∃ edge ∈ left, edge.satisfactionPolicy = .any) ↔
      ∃ edge ∈ right, edge.satisfactionPolicy = .any := by
    constructor
    · rintro ⟨edge, held, shared⟩
      obtain ⟨other, inRight, same⟩ := into edge held
      exact ⟨other, inRight, (policy same).trans shared⟩
    · rintro ⟨edge, held, shared⟩
      obtain ⟨other, inLeft, same⟩ := back edge held
      exact ⟨other, inLeft, (policy same).trans shared⟩
  have some : (∃ edge ∈ left, edge.resolved) ↔ ∃ edge ∈ right, edge.resolved := by
    constructor
    · rintro ⟨edge, held, done⟩
      obtain ⟨other, inRight, same⟩ := into edge held
      exact ⟨other, inRight, (state same).mpr done⟩
    · rintro ⟨edge, held, done⟩
      obtain ⟨other, inLeft, same⟩ := back edge held
      exact ⟨other, inLeft, (state same).mpr done⟩
  have all : (∀ edge ∈ left, edge.resolved) ↔ ∀ edge ∈ right, edge.resolved := by
    constructor
    · intro done edge held
      obtain ⟨other, inLeft, same⟩ := back edge held
      exact (state same).mp (done other inLeft)
    · intro done edge held
      obtain ⟨other, inRight, same⟩ := into edge held
      exact (state same).mp (done other inRight)
  unfold allAny
  simp only [empty, any, some, all]

section Agreement

variable {left right : Store}

theorem SameEffects.edges (same : SameEffects left.log right.log)
    (sound : DagSound left.log left.projections) (other : DagSound right.log right.projections)
    (declared : EdgesDeclared right.log right.projections)
    (uniform : left.log.UniformPolicies) {edge : ShownEdge}
    (shown : left.projections.ShowsEdge edge) : right.projections.ShowsEdge edge := by
  obtain ⟨row, held, rfl⟩ := shown
  obtain ⟨fact, inLog, work, dependency, policy⟩ := sound.declared row held
  obtain ⟨theirs, inRight, sameWork, sameDependency⟩ :=
    declared fact ((same.dependencies fact).mp inLog)
  obtain ⟨source, sourceHeld, theirWork, theirDependency, theirPolicy⟩ :=
    other.declared theirs inRight
  have mine := (sound.folded uniform row.workRef).dependency row held rfl
  have decided := (other.folded (fun first inFirst second inSecond =>
    uniform first ((same.dependencies first).mpr inFirst) second
      ((same.dependencies second).mpr inSecond)) theirs.workRef).dependency theirs inRight rfl
  have into : theirs.dependencyWorkRef = row.dependencyWorkRef := sameDependency.trans dependency
  rw [into] at decided
  have state := same.decided mine decided
  have shared := uniform fact inLog source ((same.dependencies source).mpr sourceHeld)
    (sameWork.symm.trans theirWork.symm)
  refine ⟨theirs, inRight, ?_⟩
  simp only [CurrentWorkDependency.shown, ShownEdge.mk.injEq]
  exact ⟨sameWork.trans work, into, by rw [← theirPolicy, ← shared, policy], state.symm⟩

theorem SameEffects.works (same : SameEffects left.log right.log)
    (sound : DagSound left.log left.projections) (other : DagSound right.log right.projections)
    (declared : EdgesDeclared left.log left.projections)
    (otherDeclared : EdgesDeclared right.log right.projections)
    (uniform : left.log.UniformPolicies) {work : ShownWork}
    (shown : left.projections.Shows work) : right.projections.Shows work := by
  have otherUniform : right.log.UniformPolicies := fun first inFirst second inSecond =>
    uniform first ((same.dependencies first).mpr inFirst) second
      ((same.dependencies second).mpr inSecond)
  obtain ⟨row, held, rfl⟩ := shown
  have mine := sound.folded uniform row.workRef
  have folded := other.folded otherUniform row.workRef
  obtain ⟨derive, inLog, named⟩ := mine.derived.mp ⟨row, held, rfl⟩
  obtain ⟨theirs, inRight, sameWork⟩ := folded.derived.mpr
    ⟨derive, (same.derives derive).mp inLog, named⟩
  obtain ⟨first, latest, identified⟩ := mine.identity row held rfl
  obtain ⟨second, rival, theirIdentity⟩ := folded.identity theirs inRight sameWork
  have one : first = second := isLatest_unique
    (fun fact => and_congr_left fun _ => same.derives fact)
    (fun fact held => same.deriveKeys fact held.1)
    (fun fact other held also => Table.eq_of_key held.1 also.1) latest rival
  rw [← one] at theirIdentity
  have ready : allAny (edgesOf left.projections row.workRef) =
      allAny (edgesOf right.projections row.workRef) := by
    have carry : ∀ {before after : Store}, SameEffects before.log after.log →
        DagSound before.log before.projections → DagSound after.log after.projections →
        EdgesDeclared after.log after.projections → before.log.UniformPolicies →
        ∀ edge ∈ edgesOf before.projections row.workRef,
          ∃ other ∈ edgesOf after.projections row.workRef, other.shown = edge.shown := by
      intro before after facts soundBefore soundAfter declares policies edge member
      obtain ⟨inEdges, own⟩ := List.mem_filter.mp member
      obtain ⟨other, inAfter, shown⟩ :=
        facts.edges soundBefore soundAfter declares policies ⟨edge, inEdges, rfl⟩
      refine ⟨other, List.mem_filter.mpr ⟨inAfter, decide_eq_true ?_⟩, shown⟩
      exact (congrArg ShownEdge.workRef shown).trans (of_decide_eq_true own)
    exact allAny_shown (carry same sound other otherDeclared uniform)
      (carry same.symm other sound declared otherUniform)
  have execution := mine.execution row held rfl
  have theirExecution := folded.execution theirs inRight sameWork
  rw [← ready] at theirExecution
  refine ⟨theirs, inRight, ?_⟩
  obtain ⟨plan, kind, subject, role⟩ := identified
  obtain ⟨theirPlan, theirKind, theirSubject, theirRole⟩ := theirIdentity
  simp only [CurrentWork.shown, ShownWork.mk.injEq]
  exact ⟨sameWork, theirPlan.trans plan.symm, theirKind.trans kind.symm,
    theirSubject.trans subject.symm, theirRole.trans role.symm,
    (same.decided execution theirExecution).symm⟩

/-- Stores of the same effects show the same. -/
theorem SameEffects.shown (same : SameEffects left.log right.log)
    (sound : DagSound left.log left.projections) (other : DagSound right.log right.projections)
    (declared : EdgesDeclared left.log left.projections)
    (otherDeclared : EdgesDeclared right.log right.projections)
    (uniform : left.log.UniformPolicies) :
    (∀ work, left.projections.Shows work ↔ right.projections.Shows work) ∧
    ∀ edge, left.projections.ShowsEdge edge ↔ right.projections.ShowsEdge edge := by
  have otherUniform : right.log.UniformPolicies := fun first inFirst second inSecond =>
    uniform first ((same.dependencies first).mpr inFirst) second
      ((same.dependencies second).mpr inSecond)
  refine ⟨fun work => ⟨?_, ?_⟩, fun edge => ⟨?_, ?_⟩⟩
  · exact same.works sound other declared otherDeclared uniform
  · exact same.symm.works other sound otherDeclared declared otherUniform
  · exact same.edges sound other otherDeclared uniform
  · exact same.symm.edges other sound declared otherUniform

theorem SameFacts.quarantine (same : SameFacts left.log right.log)
    (sound : DagSound left.log left.projections) (other : DagSound right.log right.projections)
    {eventId : String}
    (contained : left.projections.resultOccurrenceQuarantine.holds eventId = true) :
    right.projections.resultOccurrenceQuarantine.holds eventId = true := by
  obtain ⟨entry, listed, rfl⟩ := Table.holds_iff.mp contained
  obtain ⟨fact, held, named, _⟩ := sound.quarantine.sound entry listed
  rw [← named] at contained ⊢
  have later := (sound.quarantine.exact fact held).mp contained
  exact (other.quarantine.exact fact ((same.results fact).mp held)).mpr ((same.later held).mp later)

end Agreement

/-! ## Every declaration has an edge -/

/-- No edge is lost. -/
def KeepsEdges (before after : Projections) : Prop :=
  ∀ edge ∈ before.currentWorkDependency, ∃ now ∈ after.currentWorkDependency,
    now.workRef = edge.workRef ∧ now.dependencyWorkRef = edge.dependencyWorkRef

theorem KeepsEdges.of_eq {before after : Projections}
    (same : after.currentWorkDependency = before.currentWorkDependency) :
    KeepsEdges before after := by
  intro edge held
  rw [same]
  exact ⟨edge, held, rfl, rfl⟩

theorem KeepsEdges.trans {before middle after : Projections} (first : KeepsEdges before middle)
    (second : KeepsEdges middle after) : KeepsEdges before after := by
  intro edge held
  obtain ⟨now, inMiddle, work, dependency⟩ := first edge held
  obtain ⟨last, inAfter, lastWork, lastDependency⟩ := second now inMiddle
  exact ⟨last, inAfter, lastWork.trans work, lastDependency.trans dependency⟩

theorem Turned.keeps {before after : Projections} (turned : Turned before after) :
    KeepsEdges before after := by
  obtain ⟨turn, works, dependencies, rows⟩ := turned
  intro edge held
  refine ⟨turn edge, ?_, works edge, dependencies edge⟩
  rw [← Table.mem_rows, rows]
  exact List.mem_map_of_mem held

section Edges

variable {log : Log} {scan : Scan} {before after : Projections}

theorem recomputeWorkState_edges {workRef : String}
    (done : recomputeWorkState log scan before workRef = .ok after) :
    after.currentWorkDependency = before.currentWorkDependency := by
  unfold recomputeWorkState at done
  simp only [bind_ok] at done
  obtain ⟨derived, _, done⟩ := done
  cases derived with
  | none =>
      simp only [pure_ok] at done
      rw [done]
  | some derive =>
      simp only [bind_ok] at done
      obtain ⟨result, _, done⟩ := done
      split at done <;> simp only [pure_ok] at done <;> rw [← done]
      rfl

theorem propagateToDependents_keeps {workRef : String}
    (done : propagateToDependents log scan before workRef = .ok after) :
    KeepsEdges before after := by
  simp only [propagateToDependents, bind_ok] at done
  obtain ⟨settled, settling, folded⟩ := done
  refine (settleEdges_turned settling).1.keeps.trans (.of_eq ?_)
  exact foldlM_invariant
    (fun now workRef next _ same step => (recomputeWorkState_edges step).trans same)
    (rfl : settled.currentWorkDependency = settled.currentWorkDependency) folded

theorem containOccurrence_edges {p : ResultRecorded}
    (done : containOccurrence log before p = .ok after) :
    after.currentWorkDependency = before.currentWorkDependency := by
  unfold containOccurrence at done
  split at done
  · simp only [requarantineOccurrence, bind_ok] at done
    obtain ⟨consumers, _, done⟩ := done
    cases consumers with
    | nil =>
        simp only [pure_ok] at done
        rw [done]
    | cons winner losers =>
        simp only [pure_ok] at done
        rw [← done]
  · cases done
    rfl

theorem declareDependency_keeps {p : WorkDependencyDeclared}
    (done : declareDependency log scan before p = .ok after) :
    KeepsEdges before after ∧ ∃ edge ∈ after.currentWorkDependency,
      edge.workRef = p.workRef ∧ edge.dependencyWorkRef = p.dependencyWorkRef := by
  simp only [declareDependency, bind_ok] at done
  obtain ⟨settled, settling, recomputed⟩ := done
  have later := (settleEdges_turned settling).1.keeps.trans
    (.of_eq (recomputeWorkState_edges recomputed))
  constructor
  · refine KeepsEdges.trans (fun edge held => ?_) later
    exact ⟨edge, Table.mem_insertNew.mpr (.inl held), rfl, rfl⟩
  · obtain ⟨edge, held, key⟩ := Table.exists_insertNew before.currentWorkDependency
      { workRef := p.workRef
        dependencyWorkRef := p.dependencyWorkRef
        satisfactionPolicy := p.satisfactionPolicy
        dependencyState := .pending
        resultRef := none }
    obtain ⟨now, inAfter, work, dependency⟩ := later edge held
    obtain ⟨sameWork, sameDependency⟩ := Prod.mk.inj key
    exact ⟨now, inAfter, work.trans sameWork, dependency.trans sameDependency⟩

/-- A reduction keeps the edges, and a declaration has its own. -/
theorem reduce_keeps {event : Event} {payload : Payload} (carried : event.payload = some payload)
    (reduced : reduce log scan event before = .ok after) :
    KeepsEdges before after ∧ ∀ p, payload = .workDependencyDeclared p →
      ∃ edge ∈ after.currentWorkDependency,
        edge.workRef = p.workRef ∧ edge.dependencyWorkRef = p.dependencyWorkRef := by
  obtain ⟨linked, middle, touched, around, own, rest⟩ := reduce_works carried reduced
  have keeps : KeepsEdges linked middle → KeepsEdges before after := fun kept =>
    (KeepsEdges.of_eq around.edges).trans (kept.trans (.of_eq rest.edges))
  have still : ∀ {edges}, middle.currentWorkDependency = edges →
      edges = linked.currentWorkDependency → KeepsEdges before after := fun same kept =>
    keeps (.of_eq (same.trans kept))
  cases payload with
  | workDependencyDeclared p =>
      obtain ⟨_, done, made⟩ := map_ok.mp own
      cases made
      obtain ⟨kept, edge, held, work, dependency⟩ := declareDependency_keeps done
      refine ⟨keeps kept, ?_⟩
      rintro _ ⟨⟩
      exact ⟨edge, by rw [rest.edges]; exact held, work, dependency⟩
  | planCreated p =>
      obtain ⟨_, done, made⟩ := map_ok.mp own
      cases made
      exact ⟨still (recomputePlanState_works done).edges rfl, fun _ same => by cases same⟩
  | planLifecycleChanged p =>
      obtain ⟨_, done, made⟩ := map_ok.mp own
      cases made
      exact ⟨still (recomputePlanState_works done).edges rfl, fun _ same => by cases same⟩
  | workDerived p =>
      obtain ⟨_, done, made⟩ := map_ok.mp own
      cases made
      exact ⟨still (recomputeWorkState_edges done) rfl, fun _ same => by cases same⟩
  | resultRecorded p =>
      obtain ⟨_, done, made⟩ := map_ok.mp own
      cases made
      simp only [reduceResult, bind_ok] at done
      obtain ⟨contained, containing, own, recomputed, propagated⟩ := done
      have same := (recomputeWorkState_edges recomputed).trans (containOccurrence_edges containing)
      exact ⟨keeps ((KeepsEdges.of_eq same).trans (propagateToDependents_keeps propagated)),
        fun _ same => by cases same⟩
  | workRetired p =>
      obtain ⟨_, done, made⟩ := map_ok.mp own
      cases made
      simp only [reduceRetired, bind_ok] at done
      obtain ⟨own, recomputed, propagated⟩ := done
      exact ⟨keeps ((KeepsEdges.of_eq (recomputeWorkState_edges recomputed)).trans
        (propagateToDependents_keeps propagated)), fun _ same => by cases same⟩
  | linkAsserted p =>
      obtain ⟨_, done, made⟩ := map_ok.mp own
      cases made
      exact ⟨still (insertLink_works done).edges rfl, fun _ same => by cases same⟩
  | observationRecorded p => cases own; exact ⟨still rfl rfl, fun _ same => by cases same⟩
  | claimRecorded p => cases own; exact ⟨still rfl rfl, fun _ same => by cases same⟩
  | authorityConfiguration p => cases own; exact ⟨still rfl rfl, fun _ same => by cases same⟩
  | authorityReceipt p => cases own; exact ⟨still rfl rfl, fun _ same => by cases same⟩

end Edges

/-! ## The facts are what the held payloads write -/

/-- One row of a table that plans, works and standings are folded from. -/
inductive PayloadFact
  | planned (row : EventPlanRow)
  | derived (row : EventWorkRow)
  | recorded (row : EventResultRow)
  | retired (row : EventWorkRetiredRow)
  | declared (row : EventWorkDependencyRow)
  | linked (row : EventLinkRow)
  | observed (row : EventObservationRow)
  | claimed (row : EventClaimRow)

def Log.States (log : Log) : PayloadFact → Prop
  | .planned row => row ∈ log.eventPlan
  | .derived row => row ∈ log.eventWork
  | .recorded row => row ∈ log.eventResult
  | .retired row => row ∈ log.eventWorkRetired
  | .declared row => row ∈ log.eventWorkDependency
  | .linked row => row ∈ log.eventLink
  | .observed row => row ∈ log.eventObservation
  | .claimed row => row ∈ log.eventClaim

theorem insertRow_alone {ρ : Type} {key : ρ → String} {table next : Table ρ key} {row : ρ}
    {texts : List String} (inserted : insertRow table row texts = .ok next) :
    ∃ solo, insertRow (∅ : Table ρ key) row texts = .ok solo ∧
      ∀ fact, fact ∈ next ↔ fact ∈ table ∨ fact ∈ solo := by
  obtain ⟨fresh, rfl⟩ := insertRow_ok inserted
  obtain ⟨solo, done⟩ := (@insertRow_succeeds_iff _ _ (∅ : Table ρ key) _ _ rfl).mpr
    ((insertRow_succeeds_iff fresh).mp ⟨_, inserted⟩)
  refine ⟨solo, done, fun fact => ?_⟩
  obtain ⟨_, rfl⟩ := insertRow_ok done
  rw [Table.mem_append, Table.mem_append]
  exact or_congr_right ⟨.inr, fun either => either.resolve_left (fun none => by cases none)⟩

/-- A payload writes the same facts wherever it is written. -/
theorem insertPayload_alone {log next : Log} {eventId : String} {payload : Payload}
    (inserted : insertPayload platform log eventId payload = .ok next) :
    ∃ solo, insertPayload platform {} eventId payload = .ok solo ∧
      ∀ fact, next.States fact ↔ log.States fact ∨ solo.States fact := by
  have nothing : ∀ {ρ : Type} {key : ρ → String} {fact : ρ} (table : Table ρ key),
      fact ∈ table ↔ fact ∈ table ∨ fact ∈ (∅ : Table ρ key) := fun table =>
    ⟨.inl, fun either => either.resolve_right (fun none => by cases none)⟩
  cases payload <;>
    simp only [insertPayload, insertPlanCreated, insertPlanLifecycleChanged, insertWorkDerived,
      insertWorkRetired, insertWorkDependencyDeclared, insertResultRecorded, insertLinkAsserted,
      insertObservationRecorded, insertClaimRecorded, insertAuthorityConfiguration,
      insertAuthorityReceipt, bind_ok, pure_ok] at inserted ⊢ <;>
    first
      | obtain ⟨table, inserted, rfl⟩ := inserted
        obtain ⟨solo, done, rows⟩ := insertRow_alone inserted
        refine ⟨_, ⟨solo, done, rfl⟩, fun fact => ?_⟩
      | obtain ⟨value, checked, table, inserted, rfl⟩ := inserted
        obtain ⟨solo, done, rows⟩ := insertRow_alone inserted
        refine ⟨_, ⟨value, checked, solo, done, rfl⟩, fun fact => ?_⟩
  all_goals
    cases fact <;> first | exact rows _ | exact nothing _

/-- A row that is held whole, and the facts of its payload. -/
def Log.Writes (platform : Platform) (log : Log) (row : EventRow) (solo : Log) : Prop :=
  row ∈ log.events ∧ row.materialized = true ∧ ∃ payload,
    digest platform payload.modelDump = row.payloadDigest ∧
    insertPayload platform {} row.eventId payload = .ok solo

structure Log.Factual (platform : Platform) (log : Log) : Prop where
  written : ∀ row ∈ log.events, row.materialized = true → ∃ solo,
    log.Writes platform row solo ∧ ∀ fact, solo.States fact → log.States fact
  sourced : ∀ fact, log.States fact → ∃ row solo, log.Writes platform row solo ∧ solo.States fact

theorem empty_factual : ({} : Store).log.Factual platform where
  written row held := by cases held
  sourced fact stated := by cases fact <;> cases stated

section Facts

variable {log next : Log}

/-- Rows that are held whole are as before, and the facts too. -/
theorem Log.Factual.congr (factual : log.Factual platform)
    (rows : ∀ row, row.materialized = true → (row ∈ next.events ↔ row ∈ log.events))
    (facts : ∀ fact, next.States fact ↔ log.States fact) : next.Factual platform where
  written row held whole := by
    obtain ⟨solo, ⟨inLog, _, writes⟩, stated⟩ :=
      factual.written row ((rows row whole).mp held) whole
    exact ⟨solo, ⟨held, whole, writes⟩, fun fact inSolo => (facts fact).mpr (stated fact inSolo)⟩
  sourced fact stated := by
    obtain ⟨row, solo, ⟨inLog, whole, writes⟩, inSolo⟩ :=
      factual.sourced fact ((facts fact).mp stated)
    exact ⟨row, solo, ⟨(rows row whole).mpr inLog, whole, writes⟩, inSolo⟩

/-- One more row is held whole, and its payload is written. -/
theorem Log.Factual.record (factual : log.Factual platform) {middle : Log} {row : EventRow}
    {payload : Payload}
    (rows : ∀ now, now.materialized = true →
      (now ∈ middle.events ↔ now ∈ log.events ∨ now = row))
    (whole : row.materialized = true) (facts : ∀ fact, middle.States fact ↔ log.States fact)
    (digested : digest platform payload.modelDump = row.payloadDigest)
    (written : insertPayload platform middle row.eventId payload = .ok next) :
    next.Factual platform := by
  obtain ⟨solo, alone, states⟩ := insertPayload_alone written
  have held : ∀ now, now.materialized = true → (now ∈ next.events ↔ now ∈ log.events ∨ now = row) :=
    fun now full => by rw [insertPayload_events written, rows now full]
  have own : next.Writes platform row solo :=
    ⟨(held row whole).mpr (.inr rfl), whole, payload, digested, alone⟩
  refine ⟨fun now inNext full => ?_, fun fact stated => ?_⟩
  · rcases (held now full).mp inNext with old | rfl
    · obtain ⟨theirs, ⟨_, _, writes⟩, stated⟩ := factual.written now old full
      exact ⟨theirs, ⟨inNext, full, writes⟩, fun fact inTheirs =>
        (states fact).mpr (.inl ((facts fact).mpr (stated fact inTheirs)))⟩
    · exact ⟨solo, own, fun fact inSolo => (states fact).mpr (.inr inSolo)⟩
  · rcases (states fact).mp stated with old | new
    · obtain ⟨now, theirs, ⟨inLog, full, writes⟩, inTheirs⟩ :=
        factual.sourced fact ((facts fact).mp old)
      exact ⟨now, theirs, ⟨(held now full).mpr (.inl inLog), full, writes⟩, inTheirs⟩
    · exact ⟨row, solo, own, new⟩

theorem digested_of_verified {event : Event} {payload : Payload}
    (verified : event.verify platform = true) (carried : event.payload = some payload) :
    digest platform payload.modelDump = event.payloadDigest := by
  simpa [Event.derivedDigest, carried] using ((Event.verify_iff _ _).mp verified).payloadDigest

/-- An event that is inserted whole. -/
theorem Log.Factual.insert (factual : log.Factual platform) {middle : Log} {event : Event}
    {recordedAt : Int} {row : EventRow} {payload : Payload}
    (inserted : EventInserted platform log event true recordedAt row middle)
    (verified : event.verify platform = true) (carried : event.payload = some payload)
    (written : insertPayload platform middle event.eventId payload = .ok next) :
    next.Factual platform := by
  obtain ⟨_, _, shape⟩ := inserted.envelope
  obtain ⟨_, same⟩ := inserted.appended
  have named : row.eventId = event.eventId := by rw [shape]
  rw [← named] at written
  refine factual.record (fun now _ => inserted.mem_iff) (by rw [shape]) (fun fact => ?_) ?_ written
  · rw [same]
    cases fact <;> rfl
  · rw [shape]
    exact digested_of_verified verified carried

theorem admitStep_factual (collisionFree : CollisionFree platform) {receiver : Receiver}
    {state after : AdmitState} {event : Event} (stemmed : state.store.log.Stemmed platform)
    (factual : state.store.log.Factual platform)
    (step : AdmitStep platform receiver state event after) :
    after.store.log.Factual platform := by
  cases step with
  | kept log _ _ _ =>
      rw [log]
      exact factual
  | upgraded row upgrade _ _ =>
      obtain ⟨payload, middle, carried, upgraded, written, _⟩ := upgrade.written
      obtain ⟨stub, _, same⟩ := upgradeRow_ok upgraded
      have inLog := rowAt_mem upgrade.found
      rw [← upgrade.sameId] at written
      refine factual.record (fun now whole => ?_)
        (rfl : (row.upgraded event.scopeRef).materialized = true)
        (fun fact => ?_) ?_ written
      · rw [upgradeRow_mem upgraded]
        constructor
        · rintro (⟨old, held, named, rfl⟩ | ⟨held, _⟩)
          · exact .inr (by rw [Table.eq_of_key held inLog named])
          · exact .inl held
        · rintro (held | rfl)
          · refine .inr ⟨held, fun named => ?_⟩
            rw [Table.eq_of_key held inLog named, stub] at whole
            cases whole
          · exact .inl ⟨row, inLog, rfl, rfl⟩
      · rw [same]
        cases fact <;> rfl
      · obtain ⟨source, sourceVerified, stems⟩ := stemmed row inLog
        have agree := (stemmed_same collisionFree stems sourceVerified upgrade.verified
          upgrade.sameId).1.payloadDigest
        unfold EventRow.StemsFrom at stems
        change _ = row.payloadDigest
        rw [digested_of_verified upgrade.verified carried, stems]
        exact agree.symm
  | inserted stored passed form write _ _ =>
      obtain ⟨log, row, inserted, wrote⟩ := write.written
      rcases wrote with ⟨bare, sameLog, _⟩ | ⟨payload, carried, written, _⟩
      · -- a stub adds a row that is not whole
        obtain ⟨_, _, shape⟩ := inserted.envelope
        obtain ⟨_, same⟩ := inserted.appended
        rw [sameLog]
        refine factual.congr (fun now whole => ?_) fun fact => ?_
        · rw [inserted.mem_iff]
          refine or_iff_left ?_
          rintro rfl
          rw [shape] at whole
          simp [Event.isStub, bare] at whole
        · rw [same]
          cases fact <;> rfl
      · have full : (!stored.isStub) = true := by simp [Event.isStub, carried]
        rw [full] at inserted
        exact factual.insert inserted (form.verify passed.verified) carried written

theorem called_factual (collisionFree : CollisionFree platform) {store after : Store} {call : Call}
    (stemmed : store.log.Stemmed platform) (factual : store.log.Factual platform)
    (called : Called platform readPayload store call after) : after.log.Factual platform := by
  cases called_cases called with
  | emitted emitter now recordedAt request event row middle requested emitted _ =>
      exact factual.insert emitted.inserted emitted.minted.verified emitted.minted.payload
        emitted.payload
  | delivered receiver clock batch final offered admitted log _ =>
      rw [log]
      exact (admitBatch_invariant
        (fun state => state.store.log.Stemmed platform ∧ state.store.log.Factual platform)
        (fun state event next member held step => ⟨admitStep_stemmed collisionFree held.1 step,
          admitStep_factual collisionFree held.1 held.2 step⟩) ⟨stemmed, factual⟩ admitted).2

end Facts

/-! ## Convergence -/

theorem insertPayload_declares {log next : Log} {eventId : String} {payload : Payload}
    (inserted : insertPayload platform log eventId payload = .ok next) :
    ∀ fact ∈ next.eventWorkDependency, fact ∈ log.eventWorkDependency ∨ ∃ p,
      payload = .workDependencyDeclared p ∧ fact.workRef = p.workRef ∧
        fact.dependencyWorkRef = p.dependencyWorkRef := by
  obtain ⟨solo, alone, states⟩ := insertPayload_alone inserted
  intro fact held
  refine ((states (.declared fact)).mp held).imp id fun own => ?_
  cases payload <;>
    simp only [insertPayload, insertPlanCreated, insertPlanLifecycleChanged, insertWorkDerived,
      insertWorkRetired, insertWorkDependencyDeclared, insertResultRecorded, insertLinkAsserted,
      insertObservationRecorded, insertClaimRecorded, insertAuthorityConfiguration,
      insertAuthorityReceipt, bind_ok, pure_ok] at alone <;>
    first
      | obtain ⟨table, alone, rfl⟩ := alone
      | obtain ⟨_, _, table, alone, rfl⟩ := alone
  case workDependencyDeclared p =>
    obtain ⟨fresh, rfl⟩ := insertRow_ok alone
    have appended : fact ∈ Table.append _ _ fresh := own
    rcases Table.mem_append.mp appended with old | rfl
    · cases old
    · exact ⟨p, rfl, rfl, rfl⟩
  all_goals cases own

/-- What a store keeps while every write is reduced. -/
structure Store.Folded (platform : Platform) (store : Store) : Prop where
  stemmed : store.log.Stemmed platform
  factual : store.log.Factual platform
  dag : DagSound store.log store.projections
  declared : EdgesDeclared store.log store.projections

theorem EdgesDeclared.reduce {log middle next : Log} {before after : Projections} {scan : Scan}
    {event : Event} {payload : Payload} (declared : EdgesDeclared log before)
    (same : middle.eventWorkDependency = log.eventWorkDependency)
    (carried : event.payload = some payload)
    (written : insertPayload platform middle event.eventId payload = .ok next)
    (reduced : reduce next scan event before = .ok after) : EdgesDeclared next after := by
  obtain ⟨keeps, own⟩ := reduce_keeps carried reduced
  intro fact held
  rcases insertPayload_declares written fact held with old | ⟨p, isDeclared, work, dependency⟩
  · rw [same] at old
    obtain ⟨edge, inBefore, sameWork, sameDependency⟩ := declared fact old
    obtain ⟨now, inAfter, nowWork, nowDependency⟩ := keeps edge inBefore
    exact ⟨now, inAfter, nowWork.trans sameWork, nowDependency.trans sameDependency⟩
  · obtain ⟨edge, inAfter, sameWork, sameDependency⟩ := own p isDeclared
    exact ⟨edge, inAfter, sameWork.trans work.symm, sameDependency.trans dependency.symm⟩

theorem admitStep_declared {receiver : Receiver} {state next : AdmitState} {event : Event}
    (declared : EdgesDeclared state.store.log state.store.projections)
    (step : AdmitStep platform receiver state event next) :
    EdgesDeclared next.store.log next.store.projections := by
  cases step with
  | kept log projections _ _ =>
      rw [log, projections]
      exact declared
  | upgraded row upgrade _ _ =>
      obtain ⟨payload, middle, carried, upgraded, written, reduced⟩ := upgrade.written
      obtain ⟨_, _, same⟩ := upgradeRow_ok upgraded
      exact declared.reduce (by rw [same]) carried written reduced
  | inserted stored passed form write _ _ =>
      obtain ⟨log, row, inserted, wrote⟩ := write.written
      obtain ⟨_, same⟩ := inserted.appended
      rcases wrote with ⟨_, sameLog, sameProjections⟩ | ⟨payload, carried, written, reduced⟩
      · rw [sameLog, sameProjections, same]
        exact declared
      · exact declared.reduce (by rw [same]) carried written reduced

theorem called_folded (collisionFree : CollisionFree platform) {store next : Store} {call : Call}
    (folded : store.Folded platform) (reduces : ¬ call.unreduced)
    (called : Called platform readPayload store call next) : next.Folded platform where
  stemmed := called_stemmed collisionFree folded.stemmed called
  factual := called_factual collisionFree folded.stemmed folded.factual called
  dag := called_dag folded.dag reduces called
  declared := by
    cases called_cases called with
    | emitted emitter now recordedAt request event row middle requested emitted projections =>
        rcases projections with ⟨unreduced, _⟩ | ⟨scan, reduced⟩
        · exact absurd unreduced reduces
        · obtain ⟨_, same⟩ := emitted.inserted.appended
          exact folded.declared.reduce (by rw [same]) emitted.minted.payload emitted.payload reduced
    | delivered receiver clock batch final offered admitted log projections =>
        rw [log, projections]
        exact admitBatch_invariant
          (fun state => EdgesDeclared state.store.log state.store.projections)
          (fun _ _ _ _ declared step => admitStep_declared declared step) folded.declared admitted

theorem run_folded (collisionFree : CollisionFree platform) {calls : List Call} {store : Store}
    (run : Run (Run.when (fun _ call => ¬ call.unreduced) (Called platform readPayload)) {} calls
      store) : store.Folded platform :=
  run.invariant (fun store => store.Folded platform)
    (fun _ _ _ folded step => called_folded collisionFree folded step.1 step.2)
    ⟨empty_stemmed, empty_factual, empty_dag, fun fact held => by cases held⟩

def Log.HoldsWhole (log : Log) (eventId : String) : Prop :=
  ∃ row ∈ log.events, row.eventId = eventId ∧ row.materialized = true

section Replicas

variable {left right : Log}

/-- Two rows of one event commit to one payload and are in one place. -/
theorem stemmed_agree (collisionFree : CollisionFree platform) (stemmed : left.Stemmed platform)
    (other : right.Stemmed platform) {row theirs : EventRow} (held : row ∈ left.events)
    (inRight : theirs ∈ right.events) (same : row.eventId = theirs.eventId) :
    row.payloadDigest = theirs.payloadDigest ∧ row.causalKey = theirs.causalKey := by
  obtain ⟨source, verified, stems⟩ := stemmed row held
  obtain ⟨theirSource, theirVerified, theirStems⟩ := other theirs inRight
  unfold EventRow.StemsFrom at theirStems
  obtain ⟨envelope, _, hlc, _, node, _⟩ := stemmed_same collisionFree stems verified theirVerified
    (same.trans (by rw [theirStems]))
  unfold EventRow.StemsFrom at stems
  constructor
  · rw [stems, theirStems]
    exact envelope.payloadDigest
  · change causalKey row.hlc row.originNode row.eventId =
      causalKey theirs.hlc theirs.originNode theirs.eventId
    rw [hlc, node, same, theirStems]

/-- A payload is told from its digest. -/
theorem payload_of_digest (collisionFree : CollisionFree platform)
    (doubles : Json.ReadsDoubles platform.readFloat) {first second : Payload}
    (same : digest platform first.modelDump = digest platform second.modelDump) :
    first = second := by
  have texts := collisionFree (append_left_cancel same)
  have read := @readPayload_canonical platform _ doubles Coercions.strict_lawful first
  rw [texts, readPayload_canonical doubles Coercions.strict_lawful second] at read
  exact (Option.some.inj read).symm

/-- What an event writes here it writes wherever it is held whole. -/
theorem Log.Writes.states (collisionFree : CollisionFree platform)
    (doubles : Json.ReadsDoubles platform.readFloat) (stemmed : left.Stemmed platform)
    (other : right.Stemmed platform) (otherFactual : right.Factual platform) {row : EventRow}
    {solo : Log} (writes : left.Writes platform row solo) (whole : right.HoldsWhole row.eventId)
    {fact : PayloadFact} (inSolo : solo.States fact) : right.States fact := by
  obtain ⟨held, _, payload, digested, alone⟩ := writes
  obtain ⟨theirs, inRight, named, theirsFull⟩ := whole
  obtain ⟨theirSolo, ⟨_, _, theirPayload, theirDigest, theirAlone⟩, states⟩ :=
    otherFactual.written theirs inRight theirsFull
  have commits := (stemmed_agree collisionFree stemmed other held inRight named.symm).1
  have payloads := payload_of_digest collisionFree doubles
    (digested.trans (commits.trans theirDigest.symm))
  rw [named, ← payloads, alone] at theirAlone
  cases theirAlone
  exact states fact inSolo

theorem Log.Factual.states (collisionFree : CollisionFree platform)
    (doubles : Json.ReadsDoubles platform.readFloat) (stemmed : left.Stemmed platform)
    (other : right.Stemmed platform) (factual : left.Factual platform)
    (otherFactual : right.Factual platform)
    (whole : ∀ eventId, left.HoldsWhole eventId → right.HoldsWhole eventId) {fact : PayloadFact}
    (stated : left.States fact) : right.States fact := by
  obtain ⟨row, solo, writes, inSolo⟩ := factual.sourced fact stated
  exact writes.states collisionFree doubles stemmed other otherFactual
    (whole row.eventId ⟨row, writes.1, rfl, writes.2.1⟩) inSolo

theorem Log.Stemmed.keys (collisionFree : CollisionFree platform) (stemmed : left.Stemmed platform)
    (other : right.Stemmed platform) {eventId : String}
    (held : ∃ row ∈ left.events, row.eventId = eventId)
    (inRight : ∃ row ∈ right.events, row.eventId = eventId) :
    left.keyOf eventId = right.keyOf eventId := by
  obtain ⟨row, held, rfl⟩ := held
  obtain ⟨theirs, inRight, named⟩ := inRight
  rw [keyOf_of_mem held rfl, keyOf_of_mem inRight named,
    (stemmed_agree collisionFree stemmed other held inRight named.symm).2]

end Replicas

/-- The same whole events state the same facts. -/
theorem states_of_whole (collisionFree : CollisionFree platform)
    (doubles : Json.ReadsDoubles platform.readFloat) {left right : Store}
    (folded : left.Folded platform) (other : right.Folded platform)
    (same : ∀ eventId, left.log.HoldsWhole eventId ↔ right.log.HoldsWhole eventId)
    (fact : PayloadFact) : left.log.States fact ↔ right.log.States fact :=
  ⟨folded.factual.states collisionFree doubles folded.stemmed other.stemmed other.factual
    fun id => (same id).mp,
  other.factual.states collisionFree doubles other.stemmed folded.stemmed folded.factual
    fun id => (same id).mpr⟩

theorem sameFacts_of_whole (collisionFree : CollisionFree platform)
    (doubles : Json.ReadsDoubles platform.readFloat) {left right : Store}
    (folded : left.Folded platform) (other : right.Folded platform)
    (same : ∀ eventId, left.log.HoldsWhole eventId ↔ right.log.HoldsWhole eventId) :
    SameFacts left.log right.log := by
  have states := states_of_whole collisionFree doubles folded other same
  refine ⟨fun fact => states (.derived fact), fun fact => states (.recorded fact),
    fun fact => states (.retired fact), fun fact => states (.declared fact),
    fun fact held => ?_, fun fact held => ?_⟩
  · exact folded.stemmed.keys collisionFree other.stemmed (folded.dag.held.derives fact held)
      (other.dag.held.derives fact ((states (.derived fact)).mp held))
  · exact folded.stemmed.keys collisionFree other.stemmed (folded.dag.held.results fact held)
      (other.dag.held.results fact ((states (.recorded fact)).mp held))

/-- Two stores that hold the same events whole, in whatever order and by whatever way they came,
show the same works, the same dependencies and the same quarantined results, as long as the
declarations of one work share a policy. -/
theorem works_converge (collisionFree : CollisionFree platform)
    (doubles : Json.ReadsDoubles platform.readFloat) {leftCalls rightCalls : List Call}
    {left right : Store}
    (leftRun : Run (Run.when (fun _ call => ¬ call.unreduced) (Called platform readPayload)) {}
      leftCalls left)
    (rightRun : Run (Run.when (fun _ call => ¬ call.unreduced) (Called platform readPayload)) {}
      rightCalls right)
    (same : ∀ eventId, left.log.HoldsWhole eventId ↔ right.log.HoldsWhole eventId)
    (uniform : left.log.UniformPolicies) :
    (∀ work, left.projections.Shows work ↔ right.projections.Shows work) ∧
    (∀ edge, left.projections.ShowsEdge edge ↔ right.projections.ShowsEdge edge) ∧
    ∀ eventId, left.projections.resultOccurrenceQuarantine.holds eventId =
      right.projections.resultOccurrenceQuarantine.holds eventId := by
  have folded := run_folded collisionFree leftRun
  have other := run_folded collisionFree rightRun
  have facts := sameFacts_of_whole collisionFree doubles folded other same
  have back := sameFacts_of_whole collisionFree doubles other folded fun id => (same id).symm
  obtain ⟨works, edges⟩ :=
    facts.effects.shown folded.dag other.dag folded.declared other.declared uniform
  refine ⟨works, edges, fun eventId => ?_⟩
  rw [Bool.eq_iff_iff]
  exact ⟨facts.quarantine folded.dag other.dag, back.quarantine other.dag folded.dag⟩

namespace Crossed

open Overshadowed

/-- Two deliveries of one payload from two origins. -/
theorem delivered {payload : Payload} (unwatched : payload.unwatched = true)
    (unplanned : payload.plan? = none) (writable : payload.Writable plainPlatform)
    {first second : String} (apart : second ≠ first) {a b : Event}
    (aSent : Sent first payload none a) (bSent : Sent second payload none b) :
    ∃ store, Run (Run.when (fun _ call => ¬ call.unreduced) (Called plainPlatform fun _ => none)) {}
        [delivery first a, delivery second b] store ∧
      (∀ row, row ∈ store.log.events ↔ row = storedRow a 0 true ∨ row = storedRow b 0 true) ∧
      ∀ fact ∈ store.log.eventWorkDependency, ∃ p, payload = .workDependencyDeclared p := by
  obtain ⟨one, oneLog, firstCall, oneHolds, oneInserted, oneWritten, _⟩ :=
    holds_empty.arrival List.not_mem_nil aSent unwatched unplanned writable
  obtain ⟨two, twoLog, secondCall, _, twoInserted, twoWritten, _⟩ :=
    oneHolds.arrival (by simpa using apart) bSent unwatched unplanned writable
  have run : Run (Run.when (fun _ call => ¬ call.unreduced)
      (Called plainPlatform fun _ => none)) {} [delivery first a, delivery second b] two :=
    .cons ⟨id, firstCall⟩ (.cons ⟨id, secondCall⟩ (.nil _))
  refine ⟨two, run, fun row => ?_, fun fact held => ?_⟩
  · rw [insertPayload_events twoWritten, twoInserted.mem_iff, insertPayload_events oneWritten,
      oneInserted.mem_iff, or_assoc]
    exact or_iff_right fun none => by cases none
  · rcases insertPayload_declares twoWritten fact held with old | ⟨p, declares, _⟩
    · obtain ⟨_, twoSame⟩ := twoInserted.appended
      rw [twoSame] at old
      rcases insertPayload_declares oneWritten fact old with older | ⟨p, declares, _⟩
      · obtain ⟨_, oneSame⟩ := oneInserted.appended
        rw [oneSame] at older
        cases older
      · exact ⟨p, declares⟩
    · exact ⟨p, declares⟩

/-- The rows of either order are the same, so the same events are held whole. -/
theorem whole_of_rows {left right : Log} {first second : EventRow}
    (leftRows : ∀ row, row ∈ left.events ↔ row = first ∨ row = second)
    (rightRows : ∀ row, row ∈ right.events ↔ row = second ∨ row = first) (eventId : String) :
    left.HoldsWhole eventId ↔ right.HoldsWhole eventId := by
  unfold Log.HoldsWhole
  simp only [leftRows, rightRows]
  exact exists_congr fun row => and_congr_left fun _ => Or.comm

/-- Two origins of one work, heard in either order. -/
theorem crossed_converge : ∃ left right calls others,
    Run (Run.when (fun _ call => ¬ call.unreduced) (Called plainPlatform fun _ => none)) {} calls
      left ∧
    Run (Run.when (fun _ call => ¬ call.unreduced) (Called plainPlatform fun _ => none)) {} others
      right ∧
    (∃ row other, row ∈ left.log.events ∧ other ∈ left.log.events ∧ row ≠ other) ∧
    ∀ work, left.projections.Shows work ↔ right.projections.Shows work := by
  obtain ⟨a, aSent⟩ := plain_sent (by decide : "a" ≠ "") (by decide)
    FirstWork.work_writable none fun scope set => by cases set
  obtain ⟨b, bSent⟩ := plain_sent (by decide : "b" ≠ "") (by decide)
    FirstWork.work_writable none fun scope set => by cases set
  obtain ⟨left, leftRun, leftRows, undeclared⟩ :=
    delivered rfl rfl FirstWork.work_writable (by decide) aSent bSent
  obtain ⟨right, rightRun, rightRows, _⟩ :=
    delivered rfl rfl FirstWork.work_writable (by decide) bSent aSent
  have uniform : left.log.UniformPolicies := fun fact held => by
    obtain ⟨_, other⟩ := undeclared fact held
    cases other
  refine ⟨left, right, _, _, leftRun, rightRun, ⟨storedRow a 0 true, storedRow b 0 true,
    (leftRows _).mpr (.inl rfl), (leftRows _).mpr (.inr rfl), fun rows => ?_⟩,
    (works_converge plainPlatform_collisionFree plainPlatform_readsDoubles leftRun rightRun
      (whole_of_rows leftRows rightRows) uniform).1⟩
  have nodes : a.originNode = b.originNode := congrArg (fun row => row.originNode) rows
  rw [aSent.originNode, bSent.originNode] at nodes
  exact absurd nodes (by decide)

end Crossed

end Kawa
