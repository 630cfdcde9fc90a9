import Kawa.ReduceProgress
import Kawa.AdmitProgress

/-!
The standing of a claim, as a property of the facts that are held, and the support walk that
computes it.  Grounding is the least relation that observations start and supports links
carry through held claims that are not superseded, so a cycle alone grounds nothing.
-/

namespace Kawa

open Result

/-! ## Standing over held facts -/

def EventLinkRow.triple (row : EventLinkRow) : String × Relation × String :=
  (row.sourceRef, row.relation, row.targetRef)

def LinkRow.triple (row : LinkRow) : String × Relation × String :=
  (row.sourceRef, row.relation, row.targetRef)

def Log.claimIds (log : Log) : List String := log.eventClaim.rows.map (·.eventId)

def Log.observationIds (log : Log) : List String := log.eventObservation.rows.map (·.eventId)

def Log.linkTriples (log : Log) : List (String × Relation × String) :=
  log.eventLink.rows.map EventLinkRow.triple

section Specification

variable (claims observations : List String) (links : List (String × Relation × String))

def SupersededBy (claim : String) : Prop := ∃ source, (source, .supersedes, claim) ∈ links

/-- A chain of supports links leads here from a held observation. -/
inductive GroundedBy : String → Prop
  | observed {observation claim : String} : observation ∈ observations →
      (observation, .supports, claim) ∈ links → GroundedBy claim
  | supported {source claim : String} : source ∈ claims → ¬ SupersededBy links source →
      GroundedBy source → (source, .supports, claim) ∈ links → GroundedBy claim

def ContradictedBy (claim : String) : Prop :=
  ∃ source, (source, .contradicts, claim) ∈ links ∧
    (source ∈ observations ∨ source ∈ claims ∧ ¬ SupersededBy links source)

open Classical in
/-- The standing that a claim has by definition. -/
noncomputable def definedStanding (claim : String) : ClaimStanding :=
  if SupersededBy links claim then .superseded
  else if GroundedBy claims observations links claim then
    if ContradictedBy claims observations links claim then .contested else .groundedSupported
  else if ContradictedBy claims observations links claim then .contradicted
  else .unevaluated

end Specification

/-! ## The support walk -/

section Walk

variable {claims observations : List String} {links : List (String × Relation × String)}

theorem mem_supersededClaims {claim : String} :
    claim ∈ supersededClaims claims links ↔ claim ∈ claims ∧ SupersededBy links claim := by
  simp only [supersededClaims, List.mem_filter, List.any_eq_true, decide_eq_true_eq, SupersededBy]
  constructor
  · rintro ⟨held, ⟨source, relation, target⟩, inLinks, rfl, rfl⟩
    exact ⟨held, source, inLinks⟩
  · rintro ⟨held, source, inLinks⟩
    exact ⟨held, _, inLinks, rfl, rfl⟩

theorem mem_supportsInto {source target : String} :
    source ∈ supportsInto links target ↔ (source, .supports, target) ∈ links := by
  simp only [supportsInto, List.mem_map, List.mem_filter, decide_eq_true_eq]
  constructor
  · rintro ⟨⟨_, _, _⟩, ⟨inLinks, rfl, rfl⟩, rfl⟩
    exact inLinks
  · exact fun inLinks => ⟨_, ⟨inLinks, rfl, rfl⟩, rfl⟩

/-- A source that the walk goes on from. -/
def Passable (claims : List String) (superseded : List String) (source : String) : Prop :=
  source ∈ claims ∧ source ∉ superseded

variable {superseded : List String}

theorem visitSources_none {sources stack seen : List String} :
    visitSources claims observations superseded sources stack seen = none ↔
      ∃ source ∈ sources, source ∈ observations := by
  induction sources generalizing stack seen with
  | nil => simp [visitSources]
  | cons source sources ih =>
      unfold visitSources
      by_cases observed : source ∈ observations
      · simp [observed]
      · rw [if_neg observed]
        split_ifs with fresh <;> rw [ih] <;> simp [observed]

/-- What one round pushes: new passable claims, each once, and all that the round met. -/
theorem visitSources_some {sources stack seen nextStack nextSeen : List String}
    (visited : visitSources claims observations superseded sources stack seen =
      some (nextStack, nextSeen)) :
    ∃ pushed, nextStack = pushed ++ stack ∧ nextSeen = pushed ++ seen ∧
      (seen.Nodup → nextSeen.Nodup) ∧
      (∀ source ∈ pushed, source ∈ sources ∧ Passable claims superseded source) ∧
      ∀ source ∈ sources, Passable claims superseded source → source ∈ nextSeen := by
  induction sources generalizing stack seen with
  | nil =>
      simp only [visitSources, Option.some.injEq, Prod.mk.injEq] at visited
      obtain ⟨rfl, rfl⟩ := visited
      exact ⟨[], rfl, rfl, id, by simp, by simp⟩
  | cons source sources ih =>
      unfold visitSources at visited
      split_ifs at visited with observed fresh
      · obtain ⟨held, live, unseen⟩ := fresh
        obtain ⟨pushed, rfl, rfl, distinct, passable, met⟩ := ih visited
        refine ⟨pushed ++ [source], by simp, by simp, fun nodup => ?_, ?_, ?_⟩
        · exact distinct (List.nodup_cons.mpr ⟨unseen, nodup⟩)
        · intro other member
          rcases List.mem_append.mp member with new | mine
          · exact ⟨List.mem_cons_of_mem _ (passable other new).1, (passable other new).2⟩
          · rw [List.mem_singleton.mp mine]
            exact ⟨List.mem_cons_self, held, live⟩
        · intro other member ok
          rcases List.mem_cons.mp member with rfl | later
          · exact List.mem_append_right _ List.mem_cons_self
          · exact met other later ok
      · obtain ⟨pushed, rfl, rfl, distinct, passable, met⟩ := ih visited
        refine ⟨pushed, rfl, rfl, distinct, fun other member =>
          ⟨List.mem_cons_of_mem _ (passable other member).1, (passable other member).2⟩, ?_⟩
        intro other member ok
        rcases List.mem_cons.mp member with rfl | later
        · by_cases unseen : other ∈ seen
          · exact List.mem_append_right _ unseen
          · exact absurd ⟨ok.1, ok.2, unseen⟩ fresh
        · exact met other later ok

/-- Where the walk meets an observation, the claim it started from is grounded. -/
theorem walkSupports_sound {goal : String} {fuel : Nat} {stack seen : List String}
    (leads : ∀ claim ∈ stack, GroundedBy claims observations links claim →
      GroundedBy claims observations links goal)
    (walked : walkSupports claims observations links (supersededClaims claims links) fuel stack
      seen = true) : GroundedBy claims observations links goal := by
  induction fuel generalizing stack seen with
  | zero => cases walked
  | succ fuel ih =>
      cases stack with
      | nil => cases walked
      | cons claim stack =>
          unfold walkSupports at walked
          cases visited : visitSources claims observations (supersededClaims claims links)
              (supportsInto links claim) stack seen with
          | none =>
              obtain ⟨source, supports, observed⟩ := visitSources_none.mp visited
              exact leads claim List.mem_cons_self
                (.observed observed (mem_supportsInto.mp supports))
          | some next =>
              obtain ⟨nextStack, nextSeen⟩ := next
              simp only [visited] at walked
              obtain ⟨pushed, rfl, _, _, passable, _⟩ := visitSources_some visited
              refine ih (fun source member grounded => ?_) walked
              rcases List.mem_append.mp member with new | old
              · obtain ⟨supports, held, live⟩ := passable source new
                refine leads claim List.mem_cons_self (.supported held (fun superseded => ?_)
                  grounded (mem_supportsInto.mp supports))
                exact live (mem_supersededClaims.mpr ⟨held, superseded⟩)
              · exact leads source (List.mem_cons_of_mem _ old) grounded

/-- Nothing that has been seen has an observation behind it, once the stack is empty: seen
claims off the stack have no observed source, and their passable sources are seen. -/
theorem walkSupports_complete {fuel : Nat} {stack seen : List String}
    (distinct : seen.Nodup) (bound : ∀ claim ∈ seen, claim ∈ claims)
    (enough : stack.length + claims.length < fuel + seen.length)
    (closed : ∀ claim ∈ seen, claim ∉ stack → ∀ source ∈ supportsInto links claim,
      source ∉ observations ∧ (Passable claims (supersededClaims claims links) source →
        source ∈ seen))
    (walked : walkSupports claims observations links (supersededClaims claims links) fuel stack
      seen = false) :
    ∀ claim ∈ seen, ¬ GroundedBy claims observations links claim := by
  induction fuel generalizing stack seen with
  | zero =>
      have short : seen.length ≤ claims.length :=
        (List.subperm_of_subset distinct bound).length_le
      omega
  | succ fuel ih =>
      cases stack with
      | nil =>
          intro claim member grounded
          induction grounded with
          | observed observation supports =>
              exact (closed _ member List.not_mem_nil _ (mem_supportsInto.mpr supports)).1
                observation
          | supported held live _ supports again =>
              refine again ((closed _ member List.not_mem_nil _
                (mem_supportsInto.mpr supports)).2 ⟨held, fun superseded => ?_⟩)
              exact live (mem_supersededClaims.mp superseded).2
      | cons claim stack =>
          unfold walkSupports at walked
          cases visited : visitSources claims observations (supersededClaims claims links)
              (supportsInto links claim) stack seen with
          | none => simp [visited] at walked
          | some next =>
              obtain ⟨nextStack, nextSeen⟩ := next
              simp only [visited] at walked
              have unobserved : ∀ source ∈ supportsInto links claim, source ∉ observations := by
                intro source supports observed
                rw [visitSources_none.mpr ⟨source, supports, observed⟩] at visited
                cases visited
              obtain ⟨pushed, rfl, rfl, nodup, passable, met⟩ := visitSources_some visited
              have rest := ih (nodup distinct) ?_ ?_ ?_ walked
              · exact fun other member => rest other (List.mem_append_right _ member)
              · intro other member
                rcases List.mem_append.mp member with new | old
                · exact (passable other new).2.1
                · exact bound other old
              · simp only [List.length_append, List.length_cons] at enough ⊢
                omega
              · intro other member off source supports
                have unpushed : other ∉ pushed := fun new => off (List.mem_append_left _ new)
                have old : other ∈ seen := (List.mem_append.mp member).resolve_left unpushed
                by_cases mine : other = claim
                · subst mine
                  exact ⟨unobserved source supports, met source supports⟩
                · obtain ⟨clear, kept⟩ := closed other old (fun inStack => by
                    rcases List.mem_cons.mp inStack with same | later
                    · exact mine same
                    · exact off (List.mem_append_right _ later)) source supports
                  exact ⟨clear, fun ok => List.mem_append_right _ (kept ok)⟩

theorem grounded_iff {claim : String} (held : claim ∈ claims) :
    grounded claims observations links claim = true ↔
      GroundedBy claims observations links claim := by
  constructor
  · refine walkSupports_sound fun other member grounded => ?_
    rw [List.mem_singleton.mp member] at grounded
    exact grounded
  · intro grounded
    by_contra walked
    refine walkSupports_complete (List.nodup_singleton claim) ?_ ?_ ?_
      (Bool.eq_false_iff.mpr walked) claim (List.mem_singleton_self _) grounded
    · intro other member
      rw [List.mem_singleton.mp member]
      exact held
    · simp
      omega
    · intro other member off
      exact absurd member off

theorem contradictedClaim_iff {claim : String}
    (apart : ∀ source ∈ observations, source ∉ claims) :
    contradictedClaim claims observations links claim = true ↔
      ContradictedBy claims observations links claim := by
  simp only [contradictedClaim, List.any_eq_true, decide_eq_true_eq, ContradictedBy]
  constructor
  · rintro ⟨⟨source, relation, target⟩, inLinks, rfl, rfl, known, live⟩
    refine ⟨source, inLinks, ?_⟩
    rcases known with held | observed
    · exact .inr ⟨held, fun superseded =>
        live ⟨held, mem_supersededClaims.mpr ⟨held, superseded⟩⟩⟩
    · exact .inl observed
  · rintro ⟨source, inLinks, observed | ⟨held, live⟩⟩
    · exact ⟨_, inLinks, rfl, rfl, .inr observed, fun both => apart source observed both.1⟩
    · exact ⟨_, inLinks, rfl, rfl, .inl held, fun both =>
        live (mem_supersededClaims.mp both.2).2⟩

/-- The computed standing is the defined one. -/
theorem claimStanding_eq {claim : String} (held : claim ∈ claims)
    (apart : ∀ source ∈ observations, source ∉ claims) :
    claimStanding claims observations links claim =
      definedStanding claims observations links claim := by
  have superseded : claim ∈ supersededClaims claims links ↔ SupersededBy links claim := by
    rw [mem_supersededClaims, and_iff_right held]
  have support : grounded claims observations links claim = true ↔ _ := grounded_iff held
  have contra : contradictedClaim claims observations links claim = true ↔ _ :=
    contradictedClaim_iff apart
  unfold claimStanding definedStanding
  by_cases isSuperseded : SupersededBy links claim
  · rw [if_pos (superseded.mpr isSuperseded), if_pos isSuperseded]
  · rw [if_neg (mt superseded.mp isSuperseded), if_neg isSuperseded]
    simp only [← support, ← contra]
    cases grounded claims observations links claim <;>
      cases contradictedClaim claims observations links claim <;> rfl

end Walk

/-! ## What a reduction leaves alone -/

/-- The links and the standings are as before. -/
def SameStanding (before after : Projections) : Prop :=
  after.eventLinks = before.eventLinks ∧
    after.currentClaimStanding = before.currentClaimStanding

theorem SameStanding.trans {first second third : Projections} (left : SameStanding first second)
    (right : SameStanding second third) : SameStanding first third :=
  ⟨right.1.trans left.1, right.2.trans left.2⟩

section Frame

variable {log : Log} {scan : Scan} {before after : Projections}

theorem recomputePlanState_standing {planRef : String}
    (done : recomputePlanState log before planRef = .ok after) : SameStanding before after := by
  simp only [recomputePlanState, bind_ok] at done
  obtain ⟨created, _, done⟩ := done
  cases created with
  | none =>
      cases done
      exact ⟨rfl, rfl⟩
  | some created =>
      simp only [bind_ok] at done
      obtain ⟨moved, _, done⟩ := done
      split at done
      · cases done
      · split at done <;> cases done
        exact ⟨rfl, rfl⟩

theorem recomputeWorkState_standing {workRef : String}
    (done : recomputeWorkState log scan before workRef = .ok after) :
    SameStanding before after := by
  simp only [recomputeWorkState, bind_ok] at done
  obtain ⟨derive, _, done⟩ := done
  cases derive with
  | none =>
      cases done
      exact ⟨rfl, rfl⟩
  | some derive =>
      simp only [bind_ok] at done
      obtain ⟨result, _, done⟩ := done
      split at done <;> cases done <;> exact ⟨rfl, rfl⟩

theorem settleEdges_standing {workRef : String} {onlyDependent : Option String}
    (done : settleEdges log before workRef onlyDependent = .ok after) :
    SameStanding before after := by
  unfold settleEdges at done
  split at done
  · cases done
    exact ⟨rfl, rfl⟩
  · simp only [applyLatestResultToDependents, bind_ok] at done
    obtain ⟨result, _, done⟩ := done
    split at done <;> cases done <;> exact ⟨rfl, rfl⟩

theorem propagateToDependents_standing {workRef : String}
    (done : propagateToDependents log scan before workRef = .ok after) :
    SameStanding before after := by
  simp only [propagateToDependents, bind_ok] at done
  obtain ⟨settled, edges, folded⟩ := done
  have kept : SameStanding settled after :=
    foldlM_invariant (fun state _ next _ held step => held.trans (recomputeWorkState_standing step))
      ⟨rfl, rfl⟩ folded
  exact (settleEdges_standing edges).trans kept

theorem declareDependency_standing {p : WorkDependencyDeclared}
    (done : declareDependency log scan before p = .ok after) : SameStanding before after := by
  simp only [declareDependency, bind_ok] at done
  obtain ⟨settled, edges, work⟩ := done
  have declared := (settleEdges_standing edges).trans (recomputeWorkState_standing work)
  exact ⟨declared.1, declared.2⟩

theorem containOccurrence_standing {p : ResultRecorded}
    (done : containOccurrence log before p = .ok after) : SameStanding before after := by
  unfold containOccurrence at done
  split at done
  · simp only [requarantineOccurrence, bind_ok] at done
    obtain ⟨consumers, _, done⟩ := done
    split at done <;> cases done <;> exact ⟨rfl, rfl⟩
  · cases done
    exact ⟨rfl, rfl⟩

theorem reduceResult_standing {p : ResultRecorded}
    (done : reduceResult log scan before p = .ok after) : SameStanding before after := by
  simp only [reduceResult, bind_ok] at done
  obtain ⟨contained, first, own, second, third⟩ := done
  exact (containOccurrence_standing first).trans
    ((recomputeWorkState_standing second).trans (propagateToDependents_standing third))

theorem reduceRetired_standing {p : WorkRetired}
    (done : reduceRetired log scan before p = .ok after) : SameStanding before after := by
  simp only [reduceRetired, bind_ok] at done
  obtain ⟨own, first, second⟩ := done
  exact (recomputeWorkState_standing first).trans (propagateToDependents_standing second)

end Frame

/-! ## The facts that one payload adds -/

def Payload.claims (eventId : String) : Payload → List String
  | .claimRecorded _ => [eventId]
  | _ => []

def Payload.observations (eventId : String) : Payload → List String
  | .observationRecorded _ => [eventId]
  | _ => []

def Payload.links : Payload → List (String × Relation × String)
  | .linkAsserted p => [(p.sourceRef, p.relation, p.targetRef)]
  | _ => []

variable {platform : Platform} {readPayload : String → Option Payload}

theorem insertPayload_facts {log next : Log} {eventId : String} {payload : Payload}
    (inserted : insertPayload platform log eventId payload = .ok next) :
    next.claimIds = log.claimIds ++ payload.claims eventId ∧
      next.observationIds = log.observationIds ++ payload.observations eventId ∧
      next.linkTriples = log.linkTriples ++ payload.links := by
  cases payload <;>
    simp only [insertPayload, insertPlanCreated, insertPlanLifecycleChanged, insertWorkDerived,
      insertWorkRetired, insertWorkDependencyDeclared, insertResultRecorded, insertLinkAsserted,
      insertObservationRecorded, insertClaimRecorded, insertAuthorityConfiguration,
      insertAuthorityReceipt, bind_ok, pure_ok] at inserted <;>
    first
      | obtain ⟨table, inserted, rfl⟩ := inserted
      | obtain ⟨_, _, table, inserted, rfl⟩ := inserted
  all_goals
    simp [Log.claimIds, Log.observationIds, Log.linkTriples, Payload.claims, Payload.observations,
      Payload.links, insertRow_rows inserted, EventLinkRow.triple]

/-! ## The invariant -/

/-- The link rows are the held link facts, every link to a held claim is resolved, and each
held claim has the standing computed from the resolved links. -/
structure StandingSound (log : Log) (projections : Projections) : Prop where
  triples : ∀ triple, (∃ link ∈ projections.eventLinks, link.triple = triple) ↔
    triple ∈ log.linkTriples
  resolved : ∀ link ∈ projections.eventLinks, link.targetRef ∈ log.claimIds → link.resolved = true
  standing : ∀ claim ∈ log.claimIds, ∃ row ∈ projections.currentClaimStanding,
    row.claimEventId = claim ∧ row.standing =
      claimStanding log.claimIds log.observationIds (resolvedLinks projections) claim

/-! ## Resolving the endpoints -/

theorem rows_update_of_none {ρ κ : Type} {key : ρ → κ} {table : Table ρ key} {condition : ρ → Bool}
    {set : ρ → ρ} {keeps : ∀ row, key (set row) = key row}
    (none : table.rows.any condition = false) :
    (table.update condition set keeps).rows = table.rows := by
  have unmet : ∀ row ∈ table.rows, (if condition row then set row else row) = row := by
    intro row held
    have cold := List.any_eq_false.mp none row held
    rw [if_neg cold]
  exact (List.map_congr_left unmet).trans (List.map_id _)

/-- A link row later: the same triple, resolved if it was. -/
def LinkRow.Became (old now : LinkRow) : Prop :=
  now.triple = old.triple ∧ (old.resolved = true → now.resolved = true)

/-- What resolving an event makes of one link row. -/
def LinkRow.resolvedBy (parts : Nat × Nat) (row : EventRow) (link : LinkRow) : LinkRow :=
  let targeted :=
    if link.targetRef = row.eventId ∧ link.resolved = false then
      { link with
        resolved := true
        targetScopeRef := endpointScope row
        targetStamp := some (endpointStamp parts row) }
    else link
  if targeted.sourceRef = row.eventId ∧ targeted.source = none then
    { targeted with source := some (endpointScope row, endpointStamp parts row) }
  else targeted

theorem resolvedBy_became (parts : Nat × Nat) (row : EventRow) (link : LinkRow) :
    link.Became (link.resolvedBy parts row) ∧
      (link.targetRef = row.eventId → (link.resolvedBy parts row).resolved = true) := by
  unfold LinkRow.resolvedBy LinkRow.Became
  by_cases awaits : link.targetRef = row.eventId ∧ link.resolved = false
  · rw [if_pos awaits]
    refine ⟨⟨?_, fun _ => ?_⟩, fun _ => ?_⟩ <;> dsimp only <;> split_ifs <;> rfl
  · rw [if_neg awaits]
    refine ⟨⟨?_, fun resolved => ?_⟩, fun named => ?_⟩
    · dsimp only
      split_ifs <;> rfl
    · dsimp only
      split_ifs <;> exact resolved
    · have resolved : link.resolved = true := by
        by_contra unresolved
        exact awaits ⟨named, by simpa using unresolved⟩
      dsimp only
      split_ifs <;> exact resolved

theorem resolveEndpoints_rows (before : Projections) (parts : Nat × Nat) (row : EventRow) :
    (resolveEndpoints before parts row).1.eventLinks.rows =
      before.eventLinks.rows.map (LinkRow.resolvedBy parts row) := by
  simp only [resolveEndpoints, Table.update, List.map_map]
  refine List.map_congr_left fun link _ => ?_
  simp only [Function.comp, LinkRow.resolvedBy, decide_eq_true_eq]

theorem resolveEndpoints_links {before linked : Projections} {parts : Nat × Nat} {row : EventRow}
    {resolvedAny : Bool} (done : resolveEndpoints before parts row = (linked, resolvedAny)) :
    linked.eventLinks.rows = before.eventLinks.rows.map (LinkRow.resolvedBy parts row) ∧
      (resolvedAny = false → resolvedLinks linked = resolvedLinks before) ∧
      linked.currentClaimStanding = before.currentClaimStanding := by
  have rows := resolveEndpoints_rows before parts row
  rw [done] at rows
  simp only [resolveEndpoints, Prod.mk.injEq] at done
  obtain ⟨rfl, rfl⟩ := done
  refine ⟨rows, ?_, rfl⟩
  · intro none
    rw [Bool.or_eq_false_iff] at none
    unfold resolvedLinks
    rw [rows_update_of_none none.2, rows_update_of_none none.1]

theorem resolveHeld_ok {log : Log} {before linked : Projections} {envelope : Envelope}
    {resolvedAny : Bool}
    (done : resolveHeld log before envelope = .ok (linked, resolvedAny))
    (held : ∃ row ∈ log.events, row.eventId = envelope.eventId) :
    ∃ parts, ∃ row ∈ log.events, row.eventId = envelope.eventId ∧
      resolveEndpoints before parts row = (linked, resolvedAny) := by
  obtain ⟨row, inLog, named⟩ := held
  simp only [resolveHeld, bind_ok] at done
  obtain ⟨parts, _, done⟩ := done
  have found : log.events.find? envelope.eventId = some row :=
    Table.find?_eq_some.mpr ⟨inLog, named⟩
  rw [found] at done
  exact ⟨parts, row, inLog, named, pure_ok.mp done⟩

/-! ## Recording the standings -/

/-- One upsert of a computed standing. -/
def recordStanding (f : String → ClaimStanding)
    (table : Table CurrentClaimStanding (·.claimEventId)) (claim : String) :
    Table CurrentClaimStanding (·.claimEventId) :=
  table.upsert { claimEventId := claim, standing := f claim }
    (fun row => { row with standing := f claim }) fun _ => rfl

theorem recordStanding_self (f : String → ClaimStanding)
    (table : Table CurrentClaimStanding (·.claimEventId)) (claim : String) :
    { claimEventId := claim, standing := f claim } ∈ recordStanding f table claim := by
  refine Table.mem_upsert.mpr ?_
  by_cases fresh : table.holds claim = false
  · exact .inl ⟨rfl, fresh⟩
  · obtain ⟨old, held, rfl⟩ := Table.holds_iff.mp (Bool.not_eq_false _ ▸ fresh)
    exact .inr (.inl ⟨old, held, rfl, rfl⟩)

theorem recordStanding_other {f : String → ClaimStanding}
    {table : Table CurrentClaimStanding (·.claimEventId)} {claim other : String}
    (held : { claimEventId := other, standing := f other } ∈ table) :
    { claimEventId := other, standing := f other } ∈ recordStanding f table claim := by
  by_cases same : other = claim
  · subst same
    exact recordStanding_self f table other
  · exact Table.mem_upsert.mpr (.inr (.inr ⟨held, same⟩))

theorem recordStandings_mem (f : String → ClaimStanding) {claims : List String} {claim : String}
    (table : Table CurrentClaimStanding (·.claimEventId)) :
    (claim ∈ claims ∨ { claimEventId := claim, standing := f claim } ∈ table) →
      { claimEventId := claim, standing := f claim } ∈
        claims.foldl (recordStanding f) table := by
  induction claims generalizing table with
  | nil => exact fun held => held.resolve_left List.not_mem_nil
  | cons first claims ih =>
      intro held
      refine ih _ ?_
      rcases held with member | old
      · rcases List.mem_cons.mp member with rfl | later
        · exact .inr (recordStanding_self f table claim)
        · exact .inl later
      · exact .inr (recordStanding_other old)

theorem recomputeStanding_standing (log : Log) (projections : Projections) :
    ∀ claim ∈ log.claimIds, ∃ row ∈ (recomputeStanding log projections).currentClaimStanding,
      row.claimEventId = claim ∧ row.standing =
        claimStanding log.claimIds log.observationIds (resolvedLinks projections) claim := by
  intro claim held
  have sorted : claim ∈ log.claimIds.insertionSort (· ≤ ·) := (List.mem_insertionSort _).mpr held
  exact ⟨_, recordStandings_mem
    (claimStanding log.claimIds log.observationIds (resolvedLinks projections))
    projections.currentClaimStanding (.inl sorted), rfl, rfl⟩

/-! ## One reduction -/

/-- A link row as its assertion writes it. -/
structure LinkRow.Records (log : Log) (event : Envelope) (row : LinkRow) : Prop where
  assertedBy : row.assertedByEventId = event.eventId
  asserter : row.asserterScopeRef = asserterScope event.scopeRef
  target : ∀ held ∈ log.events, held.eventId = row.targetRef →
    row.resolved = true ∧ row.targetScopeRef = endpointScope held
  resolved : row.resolved = true → ∃ held ∈ log.events, held.eventId = row.targetRef
  source : ∀ held ∈ log.events, held.eventId = row.sourceRef →
    row.source.map (·.1) = some (endpointScope held)
  sourced : row.source ≠ none → ∃ held ∈ log.events, held.eventId = row.sourceRef

theorem endpointOf_ok {log : Log} {eventId : String} {found : Option (EventRow × EndpointStamp)}
    (read : endpointOf log eventId = .ok found) :
    found.map (·.1) = log.events.find? eventId := by
  unfold endpointOf at read
  cases held : log.events.find? eventId with
  | none =>
      rw [held] at read
      cases read
      rfl
  | some row =>
      rw [held] at read
      obtain ⟨parts, _, rfl⟩ := map_ok.mp read
      rfl

theorem insertLink_ok {log : Log} {before after : Projections} {envelope : Envelope}
    {p : LinkAsserted} (done : insertLink log before envelope p = .ok after) :
    ∃ row : LinkRow, row.triple = (p.sourceRef, p.relation, p.targetRef) ∧
      after = { before with eventLinks := before.eventLinks.insertNew row } ∧
      row.Records log envelope := by
  simp only [insertLink, bind_ok, pure_ok] at done
  obtain ⟨target, targetFound, source, sourceFound, rfl⟩ := done
  have targetHeld := endpointOf_ok targetFound
  have sourceHeld := endpointOf_ok sourceFound
  refine ⟨_, rfl, rfl, ⟨rfl, rfl, ?_, ?_, ?_, ?_⟩⟩
  · intro held inLog named
    rw [Table.find?_eq_some.mpr ⟨inLog, named⟩] at targetHeld
    obtain ⟨endpoint, rfl, rfl⟩ := Option.map_eq_some_iff.mp targetHeld
    exact ⟨rfl, rfl⟩
  · intro resolved
    obtain ⟨endpoint, rfl⟩ := Option.isSome_iff_exists.mp resolved
    exact ⟨endpoint.1, Table.find?_eq_some.mp targetHeld.symm⟩
  · intro held inLog named
    rw [Table.find?_eq_some.mpr ⟨inLog, named⟩] at sourceHeld
    obtain ⟨endpoint, rfl, rfl⟩ := Option.map_eq_some_iff.mp sourceHeld
    rfl
  · intro set
    cases source with
    | none => exact absurd rfl set
    | some endpoint => exact ⟨endpoint.1, Table.find?_eq_some.mp sourceHeld.symm⟩

/-- What one payload's own branch does to the links, and whether standing is recomputed. -/
theorem reducePayload_links {log : Log} {scan : Scan} {before after : Projections}
    {envelope : Envelope} {payload : Payload} {touched : Bool}
    (done : reducePayload log scan before envelope (some payload) = .ok (after, touched)) :
    (touched = true ∧ payload.links = [] ∧ after.eventLinks = before.eventLinks) ∨
      (touched = true ∧ ∃ row : LinkRow, payload.links = [row.triple] ∧
        after.eventLinks = before.eventLinks.insertNew row ∧ row.Records log envelope) ∨
      (payload.links = [] ∧ payload.claims envelope.eventId = [] ∧
        payload.observations envelope.eventId = [] ∧ SameStanding before after) := by
  cases payload with
  | planCreated p =>
      obtain ⟨_, plan, same⟩ := map_ok.mp done
      cases same
      exact .inr (.inr ⟨rfl, rfl, rfl, recomputePlanState_standing plan⟩)
  | planLifecycleChanged p =>
      obtain ⟨_, plan, same⟩ := map_ok.mp done
      cases same
      exact .inr (.inr ⟨rfl, rfl, rfl, recomputePlanState_standing plan⟩)
  | workDerived p =>
      obtain ⟨_, work, same⟩ := map_ok.mp done
      cases same
      exact .inr (.inr ⟨rfl, rfl, rfl, recomputeWorkState_standing work⟩)
  | workDependencyDeclared p =>
      obtain ⟨_, work, same⟩ := map_ok.mp done
      cases same
      exact .inr (.inr ⟨rfl, rfl, rfl, declareDependency_standing work⟩)
  | resultRecorded p =>
      obtain ⟨_, work, same⟩ := map_ok.mp done
      cases same
      exact .inr (.inr ⟨rfl, rfl, rfl, reduceResult_standing work⟩)
  | workRetired p =>
      obtain ⟨_, work, same⟩ := map_ok.mp done
      cases same
      exact .inr (.inr ⟨rfl, rfl, rfl, reduceRetired_standing work⟩)
  | linkAsserted p =>
      obtain ⟨_, link, same⟩ := map_ok.mp done
      cases same
      obtain ⟨row, triple, rfl, records⟩ := insertLink_ok link
      exact .inr (.inl ⟨rfl, row, by rw [triple]; rfl, rfl, records⟩)
  | observationRecorded p =>
      cases done
      exact .inl ⟨rfl, rfl, rfl⟩
  | claimRecorded p =>
      cases done
      exact .inl ⟨rfl, rfl, rfl⟩
  | authorityConfiguration p =>
      cases done
      exact .inr (.inr ⟨rfl, rfl, rfl, rfl, rfl⟩)
  | authorityReceipt p =>
      cases done
      exact .inr (.inr ⟨rfl, rfl, rfl, rfl, rfl⟩)

/-- The payload row of a held event, then its reduction. -/
theorem StandingSound.reduce {log next : Log} {before after : Projections} {scan : Scan}
    {event : Event} {payload : Payload} (sound : StandingSound log before)
    (carried : event.payload = some payload)
    (written : insertPayload platform log event.eventId payload = .ok next)
    (reduced : reduce next scan event before = .ok after)
    (stored : ∃ row ∈ next.events, row.eventId = event.eventId)
    (claimed : ∀ claim ∈ next.claimIds, ∃ row ∈ next.events, row.eventId = claim) :
    StandingSound next after := by
  obtain ⟨claims, observations, triples⟩ := insertPayload_facts written
  simp only [Kawa.reduce, bind_ok] at reduced
  obtain ⟨⟨linked, resolvedAny⟩, held, ⟨middle, touched⟩, own, finished⟩ := reduced
  obtain ⟨parts, row, _, named, resolving⟩ := resolveHeld_ok held stored
  obtain ⟨rows, unresolved, sameStandings⟩ := resolveEndpoints_links resolving
  rw [carried] at own
  have outcome := reducePayload_links own
  -- the links after the payload's own branch
  have member : ∀ link, link ∈ middle.eventLinks →
      (∃ old ∈ before.eventLinks, link = old.resolvedBy parts row) ∨
        ∃ fresh : LinkRow, link = fresh ∧ payload.links = [fresh.triple] ∧
          ((∃ held ∈ next.events, held.eventId = fresh.targetRef) → fresh.resolved = true) := by
    have fromBefore : ∀ link ∈ linked.eventLinks,
        ∃ old ∈ before.eventLinks, link = old.resolvedBy parts row := by
      intro link inLinked
      rw [← Table.mem_rows, rows] at inLinked
      obtain ⟨old, inBefore, rfl⟩ := List.mem_map.mp inLinked
      exact ⟨old, inBefore, rfl⟩
    intro link inMiddle
    rcases outcome with ⟨_, _, same⟩ | ⟨_, fresh, triple, same, records⟩ | ⟨_, _, _, same, _⟩
    · exact .inl (fromBefore link (same ▸ inMiddle))
    · rw [same] at inMiddle
      rcases Table.mem_insertNew.mp inMiddle with old | ⟨rfl, _⟩
      · exact .inl (fromBefore link old)
      · refine .inr ⟨link, rfl, triple, ?_⟩
        rintro ⟨held, inLog, named⟩
        exact (records.target held inLog named).1
    · exact .inl (fromBefore link (same ▸ inMiddle))
  have kept : ∀ old ∈ before.eventLinks, old.resolvedBy parts row ∈ middle.eventLinks := by
    intro old inBefore
    have inLinked : old.resolvedBy parts row ∈ linked.eventLinks := by
      rw [← Table.mem_rows, rows]
      exact List.mem_map_of_mem inBefore
    rcases outcome with ⟨_, _, same⟩ | ⟨_, _, _, same, _⟩ | ⟨_, _, _, same, _⟩
    · exact same ▸ inLinked
    · rw [same]
      exact Table.mem_insertNew.mpr (.inl inLinked)
    · exact same ▸ inLinked
  have sameTriples : ∀ triple, (∃ link ∈ middle.eventLinks, link.triple = triple) ↔
      triple ∈ next.linkTriples := by
    intro triple
    rw [triples, List.mem_append, ← sound.triples]
    constructor
    · rintro ⟨link, inMiddle, rfl⟩
      rcases member link inMiddle with ⟨old, inBefore, rfl⟩ | ⟨fresh, rfl, mine, _⟩
      · exact .inl ⟨old, inBefore, (resolvedBy_became parts row old).1.1.symm⟩
      · exact .inr (by rw [mine]; exact List.mem_singleton_self _)
    · rintro (⟨old, inBefore, rfl⟩ | mine)
      · exact ⟨_, kept old inBefore, (resolvedBy_became parts row old).1.1⟩
      · rcases outcome with ⟨_, none, _⟩ | ⟨_, fresh, only, same, _⟩ | ⟨none, _⟩
        · rw [none] at mine
          cases mine
        · rw [only, List.mem_singleton] at mine
          subst mine
          rw [same]
          by_cases taken : linked.eventLinks.holds fresh.triple = false
          · exact ⟨fresh, Table.mem_insertNew.mpr (.inr ⟨rfl, taken⟩), rfl⟩
          · obtain ⟨other, inLinked, sameTriple⟩ :=
              Table.holds_iff.mp (Bool.not_eq_false _ ▸ taken)
            exact ⟨other, Table.mem_insertNew.mpr (.inl inLinked), sameTriple⟩
        · rw [none] at mine
          cases mine
  have resolvedTargets : ∀ link ∈ middle.eventLinks, link.targetRef ∈ next.claimIds →
      link.resolved = true := by
    intro link inMiddle isClaim
    rcases member link inMiddle with ⟨old, inBefore, rfl⟩ | ⟨fresh, rfl, _, resolved⟩
    · obtain ⟨⟨triple, later⟩, targeted⟩ := resolvedBy_became parts row old
      have target : (old.resolvedBy parts row).targetRef = old.targetRef :=
        congrArg (·.2.2) triple
      rw [target, claims, List.mem_append] at isClaim
      rcases isClaim with already | mine
      · exact later (sound.resolved old inBefore already)
      · refine targeted ?_
        have own : old.targetRef = event.eventId := by
          cases payload <;> simp_all [Payload.claims]
        exact own.trans named.symm
    · exact resolved (claimed _ isClaim)
  by_cases again : (resolvedAny || touched) = true
  · rw [if_pos again, pure_ok] at finished
    subst finished
    exact ⟨sameTriples, resolvedTargets, recomputeStanding_standing next middle⟩
  · rw [if_neg again, pure_ok] at finished
    subst finished
    simp only [Bool.or_eq_true, not_or, Bool.not_eq_true] at again
    refine ⟨sameTriples, resolvedTargets, ?_⟩
    rcases outcome with ⟨isTouched, _⟩ | ⟨isTouched, _⟩ | ⟨_, noClaim, noObservation, same⟩
    · rw [again.2] at isTouched
      cases isTouched
    · rw [again.2] at isTouched
      cases isTouched
    · have resolvedSame : resolvedLinks middle = resolvedLinks before := by
        rw [← unresolved again.1]
        unfold resolvedLinks
        rw [same.1]
      rw [claims, observations, noClaim, noObservation, List.append_nil, List.append_nil,
        resolvedSame, same.2, sameStandings]
      exact sound.standing

/-! ## Links that agree on held claims -/

section Agreement

variable {claims observations : List String} {left right : List (String × Relation × String)}

/-- The same links lead to every held claim. -/
def SameInto (claims : List String) (left right : List (String × Relation × String)) : Prop :=
  ∀ source relation claim, claim ∈ claims →
    ((source, relation, claim) ∈ left ↔ (source, relation, claim) ∈ right)

theorem SameInto.symm (same : SameInto claims left right) : SameInto claims right left :=
  fun source relation claim held => (same source relation claim held).symm

theorem SameInto.superseded (same : SameInto claims left right) {claim : String}
    (held : claim ∈ claims) : SupersededBy left claim ↔ SupersededBy right claim :=
  exists_congr fun source => same source .supersedes claim held

theorem SameInto.grounded (same : SameInto claims left right) {claim : String}
    (held : claim ∈ claims) (grounded : GroundedBy claims observations left claim) :
    GroundedBy claims observations right claim := by
  induction grounded with
  | observed observed supports => exact .observed observed ((same _ _ _ held).mp supports)
  | supported inClaims live _ supports ih =>
      exact .supported inClaims (fun superseded => live ((same.superseded inClaims).mpr superseded))
        (ih inClaims) ((same _ _ _ held).mp supports)

theorem SameInto.contradicted (same : SameInto claims left right) {claim : String}
    (held : claim ∈ claims) (contradicted : ContradictedBy claims observations left claim) :
    ContradictedBy claims observations right claim := by
  obtain ⟨source, contradicts, origin⟩ := contradicted
  refine ⟨source, (same _ _ _ held).mp contradicts, origin.imp id fun own => ⟨own.1, ?_⟩⟩
  exact fun superseded => own.2 ((same.superseded own.1).mpr superseded)

theorem SameInto.standing (same : SameInto claims left right) {claim : String}
    (held : claim ∈ claims) :
    definedStanding claims observations left claim =
      definedStanding claims observations right claim := by
  have superseded := same.superseded held
  have grounded : GroundedBy claims observations left claim ↔
      GroundedBy claims observations right claim :=
    ⟨same.grounded held, same.symm.grounded held⟩
  have contradicted : ContradictedBy claims observations left claim ↔
      ContradictedBy claims observations right claim :=
    ⟨same.contradicted held, same.symm.contradicted held⟩
  unfold definedStanding
  rw [propext superseded, propext grounded, propext contradicted]

/-- A circle of claims with no observation behind it supports nothing. -/
theorem ungrounded_of_circle {circle : List String}
    (closed : ∀ claim ∈ circle, ∀ source, (source, Relation.supports, claim) ∈ left →
      source ∉ observations ∧ (source ∈ claims → ¬ SupersededBy left source → source ∈ circle)) :
    ∀ claim ∈ circle, ¬ GroundedBy claims observations left claim := by
  intro claim member grounded
  induction grounded with
  | observed observed supports => exact (closed _ member _ supports).1 observed
  | supported held live _ supports ih => exact ih ((closed _ member _ supports).2 held live)

end Agreement

theorem mem_resolvedLinks {projections : Projections} {triple : String × Relation × String} :
    triple ∈ resolvedLinks projections ↔
      ∃ link ∈ projections.eventLinks, link.resolved = true ∧ link.triple = triple := by
  simp only [resolvedLinks, List.mem_map, List.mem_filter, Table.mem_rows]
  constructor
  · rintro ⟨link, ⟨held, resolved⟩, rfl⟩
    exact ⟨link, held, resolved, rfl⟩
  · rintro ⟨link, held, resolved, rfl⟩
    exact ⟨link, ⟨held, resolved⟩, rfl⟩

theorem StandingSound.sameInto {log : Log} {projections : Projections}
    (sound : StandingSound log projections) :
    SameInto log.claimIds (resolvedLinks projections) log.linkTriples := by
  intro source relation claim held
  rw [mem_resolvedLinks, ← sound.triples]
  constructor
  · rintro ⟨link, inLinks, _, same⟩
    exact ⟨link, inLinks, same⟩
  · rintro ⟨link, inLinks, same⟩
    have target : link.targetRef = claim := congrArg (·.2.2) same
    exact ⟨link, inLinks, sound.resolved link inLinks (target ▸ held), same⟩

/-! ## Over any run -/

/-- Payload rows belong to materialized events, and none is both claim and observation. -/
structure Log.FactsHeld (log : Log) : Prop where
  payloads : ∀ eventId ∈ log.payloadIds,
    ∃ row ∈ log.events, row.eventId = eventId ∧ row.materialized = true
  apart : ∀ eventId ∈ log.observationIds, eventId ∉ log.claimIds

theorem claimIds_subset (log : Log) : log.claimIds ⊆ log.payloadIds := by
  intro eventId named
  simp only [Log.payloadIds, List.mem_append]
  exact .inl (.inl (.inr named))

theorem observationIds_subset (log : Log) : log.observationIds ⊆ log.payloadIds := by
  intro eventId named
  simp only [Log.payloadIds, List.mem_append]
  exact .inl (.inl (.inl (.inr named)))

/-- Facts and standings together. -/
def StandingHeld (log : Log) (projections : Projections) : Prop :=
  log.FactsHeld ∧ StandingSound log projections

/-- A change of the events alone. -/
theorem StandingHeld.events {log next : Log} {projections : Projections}
    (held : StandingHeld log projections) (ids : next.payloadIds = log.payloadIds)
    (claims : next.claimIds = log.claimIds) (observations : next.observationIds = log.observationIds)
    (links : next.linkTriples = log.linkTriples)
    (kept : ∀ row ∈ log.events, row.materialized = true →
      ∃ now ∈ next.events, now.eventId = row.eventId ∧ now.materialized = true) :
    StandingHeld next projections := by
  obtain ⟨facts, sound⟩ := held
  refine ⟨⟨fun eventId named => ?_, ?_⟩, ?_, ?_, ?_⟩
  · obtain ⟨row, inLog, same, whole⟩ := facts.payloads eventId (ids ▸ named)
    obtain ⟨now, inNext, id, nowWhole⟩ := kept row inLog whole
    exact ⟨now, inNext, id.trans same, nowWhole⟩
  · rw [claims, observations]
    exact facts.apart
  · rw [links]
    exact sound.triples
  · rw [claims]
    exact sound.resolved
  · rw [claims, observations]
    exact sound.standing

/-- The payload of a materialized event that had none, and its reduction. -/
theorem StandingHeld.write {log next : Log} {before after : Projections} {scan : Scan}
    {event : Event} {payload : Payload} {row : EventRow} (held : StandingHeld log before)
    (inLog : row ∈ log.events) (whole : row.materialized = true)
    (named : row.eventId = event.eventId) (unused : event.eventId ∉ log.payloadIds)
    (carried : event.payload = some payload)
    (written : insertPayload platform log event.eventId payload = .ok next)
    (reduced : reduce next scan event before = .ok after) : StandingHeld next after := by
  obtain ⟨facts, sound⟩ := held
  obtain ⟨claims, observations, _⟩ := insertPayload_facts written
  have events := insertPayload_events written
  have payloads : ∀ eventId ∈ next.payloadIds,
      ∃ row ∈ next.events, row.eventId = eventId ∧ row.materialized = true := by
    intro eventId member
    rw [events]
    rcases insertPayload_payloadIds written eventId member with rfl | old
    · exact ⟨row, inLog, named, whole⟩
    · exact facts.payloads eventId old
  refine ⟨⟨payloads, ?_⟩, sound.reduce carried written reduced
    ⟨row, by rw [events]; exact inLog, named⟩ fun claim member => ?_⟩
  · intro eventId observed claimed
    rw [observations, List.mem_append] at observed
    rw [claims, List.mem_append] at claimed
    rcases observed with oldObserved | newObserved <;> rcases claimed with oldClaimed | newClaimed
    · exact facts.apart eventId oldObserved oldClaimed
    · have mine : eventId = event.eventId := by
        cases payload <;> simp_all [Payload.claims]
      exact unused (mine ▸ observationIds_subset log oldObserved)
    · have mine : eventId = event.eventId := by
        cases payload <;> simp_all [Payload.observations]
      exact unused (mine ▸ claimIds_subset log oldClaimed)
    · cases payload <;> simp_all [Payload.claims, Payload.observations]
  · obtain ⟨other, inNext, same, _⟩ := payloads claim (claimIds_subset next member)
    exact ⟨other, inNext, same⟩

theorem StandingHeld.insert {log next : Log} {projections : Projections} {event : Event}
    {materialized : Bool} {recordedAt : Int} {row : EventRow}
    (held : StandingHeld log projections)
    (inserted : EventInserted platform log event materialized recordedAt row next) :
    StandingHeld next projections ∧ event.eventId ∉ next.payloadIds := by
  have kept : ∀ old ∈ log.events, old ∈ next.events := fun old inLog =>
    inserted.mem_iff.mpr (.inl inLog)
  have id : row.eventId = event.eventId := by
    obtain ⟨_, _, shape⟩ := inserted.envelope
    rw [shape]
  have fresh := fun old (inLog : old ∈ log.events) => inserted.fresh inLog
  obtain ⟨_, rfl⟩ := inserted.appended
  refine ⟨held.events rfl rfl rfl rfl fun old inLog whole => ⟨old, kept old inLog, rfl, whole⟩, ?_⟩
  intro named
  obtain ⟨old, inLog, same, _⟩ := held.1.payloads _ named
  exact fresh old inLog (same.trans id.symm)

theorem StandingHeld.upgrade {log next : Log} {projections : Projections} {row : EventRow}
    {scopeRef : Option String} (held : StandingHeld log projections) (inLog : row ∈ log.events)
    (stub : row.materialized = false) (upgraded : upgradeRow log row scopeRef = .ok next) :
    StandingHeld next projections ∧ row.eventId ∉ next.payloadIds := by
  have kept : ∀ old ∈ log.events, old.materialized = true →
      ∃ now ∈ next.events, now.eventId = old.eventId ∧ now.materialized = true := by
    intro old inOld whole
    by_cases mine : old.eventId = row.eventId
    · exact ⟨_, (upgradeRow_mem upgraded).mpr (.inl ⟨old, inOld, mine, rfl⟩), rfl, rfl⟩
    · exact ⟨old, (upgradeRow_mem upgraded).mpr (.inr ⟨inOld, mine⟩), rfl, whole⟩
  obtain ⟨_, _, rfl⟩ := upgradeRow_ok upgraded
  refine ⟨held.events rfl rfl rfl rfl kept, fun named => ?_⟩
  obtain ⟨old, inOld, same, whole⟩ := held.1.payloads _ named
  rw [Table.eq_of_key inOld inLog same, stub] at whole
  cases whole

theorem admitStep_standing {receiver : Receiver} {state next : AdmitState} {event : Event}
    (held : StandingHeld state.store.log state.store.projections)
    (step : AdmitStep platform receiver state event next) :
    StandingHeld next.store.log next.store.projections := by
  cases step with
  | kept log projections _ _ =>
      rw [log, projections]
      exact held
  | upgraded row upgrade _ _ =>
      obtain ⟨payload, middle, carried, upgraded, written, reduced⟩ := upgrade.written
      have inLog := rowAt_mem upgrade.found
      obtain ⟨entered, unused⟩ := held.upgrade inLog upgrade.stub upgraded
      have now : row.upgraded event.scopeRef ∈ middle.events :=
        (upgradeRow_mem upgraded).mpr (.inl ⟨row, inLog, rfl, rfl⟩)
      exact entered.write now rfl upgrade.sameId (upgrade.sameId ▸ unused) carried written reduced
  | inserted stored passed form write _ _ =>
      obtain ⟨log, row, inserted, wrote⟩ := write.written
      obtain ⟨entered, unused⟩ := held.insert inserted
      rcases wrote with ⟨_, sameLog, sameProjections⟩ | ⟨payload, carried, written, reduced⟩
      · rw [sameLog, sameProjections]
        exact entered
      · obtain ⟨_, _, shape⟩ := inserted.envelope
        refine entered.write (inserted.mem_iff.mpr (.inr rfl)) ?_ ?_ unused carried written reduced
        · rw [shape]
          simp [Event.isStub, carried]
        · rw [shape]

/-- Every call but an emit that leaves its event unreduced. -/
def Call.Reduces (_store : Store) (call : Call) : Prop := ¬ call.unreduced

theorem called_standing {store next : Store} {call : Call}
    (held : StandingHeld store.log store.projections) (reduces : call.Reduces store)
    (called : Called platform readPayload store call next) :
    StandingHeld next.log next.projections := by
  cases called_cases called with
  | emitted emitter now recordedAt request event row middle requested emitted projections =>
      obtain ⟨entered, unused⟩ := held.insert emitted.inserted
      rcases projections with ⟨unreduced, _⟩ | ⟨scan, reduced⟩
      · exact absurd unreduced reduces
      · obtain ⟨_, _, shape⟩ := emitted.inserted.envelope
        refine entered.write (emitted.inserted.mem_iff.mpr (.inr rfl)) ?_ ?_ unused
          emitted.minted.payload emitted.payload reduced
        · rw [shape]
        · rw [shape]
  | delivered receiver clock batch final offered admitted log projections =>
      rw [log, projections]
      exact admitBatch_invariant
        (fun state => StandingHeld state.store.log state.store.projections)
        (fun _ _ _ _ kept step => admitStep_standing kept step) held admitted

theorem empty_standing : StandingHeld ({} : Store).log ({} : Store).projections := by
  refine ⟨⟨fun eventId named => ?_, fun eventId named => ?_⟩, fun triple => ?_, fun link inLinks => ?_,
    fun claim named => ?_⟩
  · cases named
  · cases named
  · refine iff_of_false ?_ List.not_mem_nil
    rintro ⟨link, inLinks, _⟩
    cases inLinks
  · cases inLinks
  · cases named

end Kawa
