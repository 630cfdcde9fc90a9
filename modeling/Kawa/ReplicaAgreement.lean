import Kawa.PlanFold
import Kawa.ClaimStanding

/-!
Two stores that hold the same events whole agree on their plans and on the standing of every
claim, although a standing is only computed from the links that are resolved where it is held.
-/

namespace Kawa

open Result Latest

variable {platform : Platform} {readPayload : String → Option Payload}

/-! ## Standings over the same facts -/

/-- The facts that standings are defined over. -/
structure SameStandingFacts (left right : Log) : Prop where
  claims : ∀ claim, claim ∈ left.claimIds ↔ claim ∈ right.claimIds
  observations : ∀ observation, observation ∈ left.observationIds ↔
    observation ∈ right.observationIds
  links : ∀ triple, triple ∈ left.linkTriples ↔ triple ∈ right.linkTriples

section Standings

variable {left right : Log}

theorem SameStandingFacts.symm (same : SameStandingFacts left right) :
    SameStandingFacts right left where
  claims claim := (same.claims claim).symm
  observations observation := (same.observations observation).symm
  links triple := (same.links triple).symm

theorem SameStandingFacts.superseded (same : SameStandingFacts left right) {claim : String} :
    SupersededBy left.linkTriples claim ↔ SupersededBy right.linkTriples claim :=
  exists_congr fun _ => same.links _

theorem SameStandingFacts.grounded (same : SameStandingFacts left right) {claim : String}
    (grounded : GroundedBy left.claimIds left.observationIds left.linkTriples claim) :
    GroundedBy right.claimIds right.observationIds right.linkTriples claim := by
  induction grounded with
  | observed held linked =>
      exact .observed ((same.observations _).mp held) ((same.links _).mp linked)
  | supported held alive _ linked ih =>
      exact .supported ((same.claims _).mp held) (fun beaten => alive (same.superseded.mpr beaten))
        ih ((same.links _).mp linked)

theorem SameStandingFacts.contradicted (same : SameStandingFacts left right) {claim : String} :
    ContradictedBy left.claimIds left.observationIds left.linkTriples claim ↔
      ContradictedBy right.claimIds right.observationIds right.linkTriples claim :=
  exists_congr fun _ => and_congr (same.links _) (or_congr (same.observations _)
    (and_congr (same.claims _) (not_congr same.superseded)))

theorem SameStandingFacts.standing (same : SameStandingFacts left right) (claim : String) :
    definedStanding left.claimIds left.observationIds left.linkTriples claim =
      definedStanding right.claimIds right.observationIds right.linkTriples claim := by
  have grounded : GroundedBy left.claimIds left.observationIds left.linkTriples claim ↔
      GroundedBy right.claimIds right.observationIds right.linkTriples claim :=
    ⟨same.grounded, same.symm.grounded⟩
  have superseded : SupersededBy left.linkTriples claim ↔ SupersededBy right.linkTriples claim :=
    same.superseded
  have contradicted : ContradictedBy left.claimIds left.observationIds left.linkTriples claim ↔
      ContradictedBy right.claimIds right.observationIds right.linkTriples claim :=
    same.contradicted
  unfold definedStanding
  rw [propext superseded, propext grounded, propext contradicted]

end Standings

/-- A held claim has the standing that the held facts define. -/
theorem StandingHeld.defined {log : Log} {projections : Projections}
    (held : StandingHeld log projections) {claim : String} (inLog : claim ∈ log.claimIds) :
    (projections.currentClaimStanding.find? claim).map (·.standing) =
      some (definedStanding log.claimIds log.observationIds log.linkTriples claim) := by
  obtain ⟨facts, sound⟩ := held
  obtain ⟨row, recorded, rfl, standing⟩ := sound.standing claim inLog
  rw [Table.find?_of_mem recorded, Option.map_some, standing,
    claimStanding_eq inLog facts.apart, sound.sameInto.standing inLog]

/-! ## Facts of the same events -/

section Replicas

variable {left right : Log}

/-- Two rows of one event are of one kind. -/
theorem Log.Stemmed.kinds (collisionFree : CollisionFree platform)
    (stemmed : left.Stemmed platform) (other : right.Stemmed platform) {eventId : String}
    (held : ∃ row ∈ left.events, row.eventId = eventId)
    (inRight : ∃ row ∈ right.events, row.eventId = eventId) :
    left.kindOf eventId = right.kindOf eventId := by
  obtain ⟨row, held, rfl⟩ := held
  obtain ⟨theirs, inRight, named⟩ := inRight
  rw [kindOf_of_mem held rfl, kindOf_of_mem inRight named]
  obtain ⟨source, verified, stems⟩ := stemmed row held
  obtain ⟨theirSource, theirVerified, theirStems⟩ := other theirs inRight
  unfold EventRow.StemsFrom at theirStems
  have kind := (stemmed_same collisionFree stems verified theirVerified
    (named.symm.trans (by rw [theirStems]))).2.2.2.1
  rw [kind, theirStems]

/-- What two logs share when they hold the same events whole. -/
structure SameWhole (left right : Log) : Prop where
  states : ∀ fact, left.States fact ↔ right.States fact
  planKeys : ∀ fact ∈ left.eventPlan, left.keyOf fact.eventId = right.keyOf fact.eventId
  planKinds : ∀ fact ∈ left.eventPlan, left.kindOf fact.eventId = right.kindOf fact.eventId

theorem SameWhole.created (same : SameWhole left right) {planRef : String} (fact : EventPlanRow) :
    fact ∈ left.createdRows planRef ↔ fact ∈ right.createdRows planRef := by
  unfold Log.createdRows
  simp only [List.mem_filter, decide_eq_true_eq, Table.mem_rows]
  constructor
  · rintro ⟨held, named, kind⟩
    exact ⟨(same.states (.planned fact)).mp held, named, same.planKinds fact held ▸ kind⟩
  · rintro ⟨held, named, kind⟩
    have inLeft := (same.states (.planned fact)).mpr held
    exact ⟨inLeft, named, (same.planKinds fact inLeft).trans kind⟩

theorem SameWhole.moved (same : SameWhole left right) {planRef : String} (fact : EventPlanRow) :
    fact ∈ left.movedRows planRef ↔ fact ∈ right.movedRows planRef := by
  unfold Log.movedRows
  simp only [List.mem_filter, Table.mem_rows]
  exact and_congr_left fun _ => same.states (.planned fact)

/-- A plan that one of them shows, the other shows the same. -/
theorem SameWhole.plans (same : SameWhole left right) {here there : Projections}
    (folded : PlanFolded left here) (other : PlanFolded right there) {row : CurrentPlan}
    (held : row ∈ here.currentPlans) : row ∈ there.currentPlans := by
  obtain ⟨created, moved, latest, latestMoved, shows⟩ := folded.shown held
  obtain ⟨theirs, inThere, named⟩ := other.shows ((same.created created).mp latest.1)
  obtain ⟨theirCreated, theirMoved, theirLatest, theirLatestMoved, theirShows⟩ :=
    other.shown inThere
  rw [named] at theirLatest theirLatestMoved
  have oneCreated : created = theirCreated := isLatest_unique same.created
    (fun fact inRows => same.planKeys fact (List.mem_filter.mp inRows).1)
    (fun fact rival inRows rivalIn => Table.eq_of_key (List.mem_filter.mp inRows).1
      (List.mem_filter.mp rivalIn).1) latest theirLatest
  have oneMoved : moved = theirMoved := isLatest_unique same.moved
    (fun fact inRows => same.planKeys fact (List.mem_filter.mp inRows).1)
    (fun fact rival inRows rivalIn => Table.eq_of_key (List.mem_filter.mp inRows).1
      (List.mem_filter.mp rivalIn).1) latestMoved theirLatestMoved
  subst oneCreated oneMoved
  obtain ⟨ref, project, objective, rationale, lifecycle, endReason⟩ := row
  obtain ⟨theirRef, theirProject, theirObjective, theirRationale, theirLifecycle, theirReason⟩ :=
    theirs
  have sameObjective := Option.some.inj (shows.objective.symm.trans theirShows.objective)
  have sameLifecycle := Option.some.inj (shows.lifecycle.symm.trans theirShows.lifecycle)
  have sameProject := shows.project.trans theirShows.project.symm
  have sameRationale := shows.rationale.trans theirShows.rationale.symm
  have sameReason := shows.endReason.trans theirShows.endReason.symm
  dsimp only at named sameObjective sameLifecycle sameProject sameRationale sameReason
  subst named sameObjective sameLifecycle sameProject sameRationale sameReason
  exact inThere

theorem SameWhole.standings (same : SameWhole left right) : SameStandingFacts left right where
  claims claim := by
    unfold Log.claimIds
    simp only [List.mem_map, Table.mem_rows]
    exact exists_congr fun fact => and_congr_left fun _ => same.states (.claimed fact)
  observations observation := by
    unfold Log.observationIds
    simp only [List.mem_map, Table.mem_rows]
    exact exists_congr fun fact => and_congr_left fun _ => same.states (.observed fact)
  links triple := by
    unfold Log.linkTriples
    simp only [List.mem_map, Table.mem_rows]
    exact exists_congr fun fact => and_congr_left fun _ => same.states (.linked fact)

end Replicas

theorem sameWhole_of_whole (collisionFree : CollisionFree platform)
    (doubles : Json.ReadsDoubles platform.readFloat) {left right : Store}
    (folded : left.Folded platform) (other : right.Folded platform)
    (plans : PlanFolded left.log left.projections)
    (otherPlans : PlanFolded right.log right.projections)
    (same : ∀ eventId, left.log.HoldsWhole eventId ↔ right.log.HoldsWhole eventId) :
    SameWhole left.log right.log := by
  have states := states_of_whole collisionFree doubles folded other same
  refine ⟨states, fun fact held => ?_, fun fact held => ?_⟩
  · exact folded.stemmed.keys collisionFree other.stemmed (plans.held fact held)
      (otherPlans.held fact ((states (.planned fact)).mp held))
  · exact folded.stemmed.kinds collisionFree other.stemmed (plans.held fact held)
      (otherPlans.held fact ((states (.planned fact)).mp held))

namespace Crossed

open Overshadowed

end Crossed

end Kawa
