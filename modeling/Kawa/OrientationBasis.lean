import Kawa.Bundle
import Kawa.Lib.Ranking

/-!
What steers the orientation of a bundle.  The domains of a claim or an event are those of the
works and plans that it is based on; the viewer must see these, but nobody asks who has related
them to it.
-/

namespace Kawa

open Ranking

/-- A `based_on` link that an event outside the viewer's scopes asserts. -/
def HiddenBasis (store : Store) (viewer : Finset String) (link : LinkRow) : Prop :=
  link.relation = .basedOn ∧ visibleEvent store viewer link.assertedByEventId = false

/-- Two stores that differ in hidden `based_on` links at most, and in events out of scope. -/
structure SameButHiddenBasis (viewer : Finset String) (left right : Store) : Prop where
  events : ∀ (eventId : String) (row : EventRow), row.visible viewer = true →
    (left.log.events.find? eventId = some row ↔ right.log.events.find? eventId = some row)
  plans : left.log.eventPlan = right.log.eventPlan
  works : left.log.eventWork = right.log.eventWork
  links : ∀ link : LinkRow, ¬HiddenBasis left viewer link →
    (link ∈ left.projections.eventLinks ↔ link ∈ right.projections.eventLinks)

/-- The domain of a work or a plan event. -/
def Log.domainOf (log : Log) (eventId domain : String) : Prop :=
  (∃ row, log.eventWork.find? eventId = some row ∧ row.domain = some domain) ∨
    ∃ row, log.eventPlan.find? eventId = some row ∧ row.domain = some domain

/-- The anchor is based on an event of the domain that the viewer may see, by a link of the
kind. -/
def BasisLineage (store : Store) (viewer : Finset String) (ref domain : String)
    (kind : LinkRow → Prop) : Prop :=
  ∃ link ∈ store.projections.eventLinks, link.resolved = true ∧ link.relation = .basedOn ∧
    link.sourceRef = ref ∧ visibleEvent store viewer link.targetRef = true ∧
    store.log.domainOf link.targetRef domain ∧ kind link

/-- Beyond what the visible links of the anchor give, the hidden ones give the same domains. -/
def SameHiddenLineage (left right : Store) (viewer : Finset String)
    (anchor : Option (AnchorKind × String)) : Prop :=
  ∀ ref, anchor = some (.claimEvent, ref) ∨ anchor = some (.event, ref) → ∀ domain,
    ¬BasisLineage left viewer ref domain (¬HiddenBasis left viewer ·) →
    (BasisLineage left viewer ref domain (HiddenBasis left viewer) ↔
      BasisLineage right viewer ref domain (HiddenBasis right viewer))

section Domains

variable {engine : TextEngine} {left right store : Store} {viewer : Finset String}

theorem SameButHiddenBasis.visible (same : SameButHiddenBasis viewer left right) (eventId : String) :
    visibleEvent left viewer eventId = visibleEvent right viewer eventId := by
  refine Bool.eq_iff_iff.mpr ?_
  unfold visibleEvent
  rw [Option.any_eq_true, Option.any_eq_true]
  constructor
  · rintro ⟨row, found, visible⟩
    exact ⟨row, (same.events eventId row visible).mp found, visible⟩
  · rintro ⟨row, found, visible⟩
    exact ⟨row, (same.events eventId row visible).mpr found, visible⟩

theorem SameButHiddenBasis.hidden (same : SameButHiddenBasis viewer left right) (link : LinkRow) :
    HiddenBasis left viewer link ↔ HiddenBasis right viewer link := by
  unfold HiddenBasis
  rw [same.visible]

theorem latestFirst_same (same : SameButHiddenBasis viewer left right) {ρ : Type}
    (eventId : ρ → String) (rows : List ρ) :
    latestFirst engine left viewer eventId rows = latestFirst engine right viewer eventId rows := by
  unfold latestFirst
  have joined : (fun row => (left.log.events.find? (eventId row)).bind fun event =>
        if event.visible viewer then some (row, event) else none) =
      fun row => (right.log.events.find? (eventId row)).bind fun event =>
        if event.visible viewer then some (row, event) else none := by
    funext row
    refine Option.ext fun pair => ?_
    rw [Option.bind_eq_some_iff, Option.bind_eq_some_iff]
    refine exists_congr fun event => ?_
    by_cases visible : event.visible viewer = true
    · rw [same.events (eventId row) event visible]
    · simp [visible]
  rw [joined]

theorem mem_sortedSet {texts : List String} {text : String} :
    text ∈ sortedSet texts ↔ text ∈ texts := by
  unfold sortedSet
  rw [(List.mergeSort_perm _ _).mem_iff, List.mem_dedup]

theorem sortedSet_eq_iff {texts others : List String} :
    sortedSet texts = sortedSet others ↔ ∀ text, text ∈ texts ↔ text ∈ others := by
  constructor
  · intro same text
    rw [← mem_sortedSet, same, mem_sortedSet]
  · intro same
    change sortBy id texts.dedup = sortBy id others.dedup
    refine sortBy_of_perm ?_ fun _ _ _ _ same => same
    refine perm_of_mem_iff (List.nodup_dedup _) (List.nodup_dedup _) fun text => ?_
    rw [List.mem_dedup, List.mem_dedup]
    exact same text

/-- The domains that the lineage of a claim or an event gives, before they are sorted. -/
def lineageDomains (store : Store) (viewer : Finset String) (ref : String) : List String :=
  let targets := (store.projections.eventLinks.rows.filter fun link =>
    link.resolved && link.relation = .basedOn && link.sourceRef = ref).map (·.targetRef)
  let held := targets.filter (visibleEvent store viewer)
  (held.filterMap fun target =>
      (store.log.eventWork.find? target).bind fun row => row.domain) ++
    held.filterMap fun target => (store.log.eventPlan.find? target).bind fun row => row.domain

theorem mem_lineageDomains {ref domain : String} :
    domain ∈ lineageDomains store viewer ref ↔ BasisLineage store viewer ref domain fun _ => True := by
  unfold lineageDomains BasisLineage Log.domainOf
  simp only [List.mem_append, List.mem_filterMap, List.mem_filter, List.mem_map,
    Option.bind_eq_some_iff, Bool.and_eq_true, decide_eq_true_eq, and_true]
  constructor
  · rintro (⟨_, ⟨⟨link, ⟨inLinks, ⟨resolved, based⟩, source⟩, rfl⟩, visible⟩, row, found, set⟩ |
      ⟨_, ⟨⟨link, ⟨inLinks, ⟨resolved, based⟩, source⟩, rfl⟩, visible⟩, row, found, set⟩)
    · exact ⟨link, inLinks, resolved, based, source, visible, .inl ⟨row, found, set⟩⟩
    · exact ⟨link, inLinks, resolved, based, source, visible, .inr ⟨row, found, set⟩⟩
  · rintro ⟨link, inLinks, resolved, based, source, visible, ⟨row, found, set⟩ | ⟨row, found, set⟩⟩
    · exact .inl ⟨_, ⟨⟨link, ⟨inLinks, ⟨resolved, based⟩, source⟩, rfl⟩, visible⟩, row, found, set⟩
    · exact .inr ⟨_, ⟨⟨link, ⟨inLinks, ⟨resolved, based⟩, source⟩, rfl⟩, visible⟩, row, found, set⟩

theorem deriveDomains_lineage {anchor : Option (AnchorKind × String)} {ref : String}
    (based : anchor = some (.claimEvent, ref) ∨ anchor = some (.event, ref)) :
    deriveDomains engine store viewer anchor =
      if sortedSet (lineageDomains store viewer ref) = [] then ([], "UNMAPPED")
      else (sortedSet (lineageDomains store viewer ref), "based_on lineage") := by
  have shown : deriveDomains engine store viewer (some (.event, ref)) =
      if sortedSet (lineageDomains store viewer ref) = [] then ([], "UNMAPPED")
      else (sortedSet (lineageDomains store viewer ref), "based_on lineage") := by
    unfold deriveDomains lineageDomains
    dsimp only
    split
    · rename_i none
      rw [if_pos none]
    · rename_i some
      rw [if_neg some]
  rcases based with rfl | rfl
  · exact shown
  · exact shown

theorem deriveDomains_same (same : SameButHiddenBasis viewer left right)
    {anchor : Option (AnchorKind × String)}
    (unbased : ∀ ref, anchor ≠ some (.claimEvent, ref) ∧ anchor ≠ some (.event, ref)) :
    deriveDomains engine left viewer anchor = deriveDomains engine right viewer anchor := by
  have planDomains : planDomain engine left viewer = planDomain engine right viewer := by
    funext planRef
    unfold planDomain
    rw [latestFirst_same same, same.plans]
  have works : latestWork engine left viewer = latestWork engine right viewer := by
    funext workRef
    unfold latestWork
    rw [latestFirst_same same, same.works]
  cases anchor with
  | none => rfl
  | some named =>
      obtain ⟨kind, ref⟩ := named
      cases kind with
      | claimEvent => exact absurd rfl (unbased ref).1
      | event => exact absurd rfl (unbased ref).2
      | work =>
          simp only [deriveDomains, works, planDomains]
      | plan =>
          simp only [deriveDomains, planDomains, same.works, same.visible]

theorem lineage_split {ref domain : String} :
    (BasisLineage store viewer ref domain fun _ => True) ↔
      BasisLineage store viewer ref domain (¬HiddenBasis store viewer ·) ∨
        BasisLineage store viewer ref domain (HiddenBasis store viewer) := by
  constructor
  · rintro ⟨link, inLinks, resolved, based, source, visible, typed, _⟩
    by_cases hidden : HiddenBasis store viewer link
    · exact .inr ⟨link, inLinks, resolved, based, source, visible, typed, hidden⟩
    · exact .inl ⟨link, inLinks, resolved, based, source, visible, typed, hidden⟩
  · rintro (⟨link, inLinks, resolved, based, source, visible, typed, _⟩ |
      ⟨link, inLinks, resolved, based, source, visible, typed, _⟩)
    · exact ⟨link, inLinks, resolved, based, source, visible, typed, trivial⟩
    · exact ⟨link, inLinks, resolved, based, source, visible, typed, trivial⟩

theorem BasisLineage.transfer {ref domain : String} (same : SameButHiddenBasis viewer left right)
    (lineage : BasisLineage left viewer ref domain (¬HiddenBasis left viewer ·)) :
    BasisLineage right viewer ref domain (¬HiddenBasis right viewer ·) := by
  obtain ⟨link, inLinks, resolved, based, source, visible, typed, shown⟩ := lineage
  refine ⟨link, (same.links link shown).mp inLinks, resolved, based, source,
    same.visible _ ▸ visible, ?_, fun hidden => shown ((same.hidden link).mpr hidden)⟩
  unfold Log.domainOf at typed ⊢
  rw [same.works, same.plans] at typed
  exact typed

theorem SameButHiddenBasis.symm (same : SameButHiddenBasis viewer left right) :
    SameButHiddenBasis viewer right left where
  events eventId row visible := (same.events eventId row visible).symm
  plans := same.plans.symm
  works := same.works.symm
  links link shown := (same.links link fun hidden => shown ((same.hidden link).mp hidden)).symm

/-- The domains that are derived are the same when the hidden lineage is. -/
theorem deriveDomains_same_iff (same : SameButHiddenBasis viewer left right)
    (anchor : Option (AnchorKind × String)) :
    deriveDomains engine left viewer anchor = deriveDomains engine right viewer anchor ↔
      SameHiddenLineage left right viewer anchor := by
  by_cases unbased : ∀ ref, anchor ≠ some (.claimEvent, ref) ∧ anchor ≠ some (.event, ref)
  · refine iff_of_true (deriveDomains_same same unbased) fun ref based => ?_
    exact absurd based (not_or.mpr (unbased ref))
  simp only [not_forall, not_and_or, not_not] at unbased
  obtain ⟨ref, based⟩ := unbased
  rw [deriveDomains_lineage based, deriveDomains_lineage based]
  have sets : ((if sortedSet (lineageDomains left viewer ref) = [] then ([], "UNMAPPED")
        else (sortedSet (lineageDomains left viewer ref), "based_on lineage")) =
      (if sortedSet (lineageDomains right viewer ref) = [] then ([], "UNMAPPED")
        else (sortedSet (lineageDomains right viewer ref), "based_on lineage"))) ↔
      sortedSet (lineageDomains left viewer ref) = sortedSet (lineageDomains right viewer ref) := by
    constructor
    · intro pairs
      have firsts := congrArg Prod.fst pairs
      split_ifs at firsts with leftEmpty rightEmpty rightEmpty
      · rw [leftEmpty, rightEmpty]
      · exact leftEmpty.trans firsts
      · exact firsts.trans rightEmpty.symm
      · exact firsts
    · intro equal
      rw [equal]
  rw [sets, sortedSet_eq_iff]
  simp only [mem_lineageDomains, lineage_split]
  have visible : ∀ domain, BasisLineage left viewer ref domain (¬HiddenBasis left viewer ·) ↔
      BasisLineage right viewer ref domain (¬HiddenBasis right viewer ·) :=
    fun domain => ⟨fun lineage => lineage.transfer same, fun lineage => lineage.transfer same.symm⟩
  constructor
  · intro agree other otherBased domain unseen
    have named : other = ref := by
      rcases based with rfl | rfl <;> rcases otherBased with given | given <;> cases given <;> rfl
    subst named
    have whole := agree domain
    rw [← visible domain] at whole
    simpa [unseen] using whole
  · intro agree domain
    rw [← visible domain]
    by_cases seen : BasisLineage left viewer ref domain (¬HiddenBasis left viewer ·)
    · simp [seen]
    · simpa [seen] using agree ref based domain seen

end Domains

/-- The domains of an anchor, the normative section and its orientation lines do not tell two
stores apart that differ in hidden `based_on` links, exactly when these add the same domains in
both. -/
theorem orientation_untold_iff (engine : TextEngine) (viewer : Finset String) (left right : Store)
    (same : SameButHiddenBasis viewer left right) (anchor : Option (AnchorKind × String)) :
    (deriveDomains engine left viewer anchor = deriveDomains engine right viewer anchor ∧
      ∀ (repository : Repository) (bound : BoundIntent) (queryClass : QueryClass),
        bound.anchor = anchor →
        execRepositoryNormative engine left viewer repository bound queryClass =
          execRepositoryNormative engine right viewer repository bound queryClass) ↔
    SameHiddenLineage left right viewer anchor := by
  rw [← deriveDomains_same_iff same anchor]
  refine ⟨And.left, fun domains => ⟨domains, fun repository bound queryClass bound_anchor => ?_⟩⟩
  unfold execRepositoryNormative
  rw [bound_anchor, domains]

namespace SteeredClaim

def row (eventId : String) (originSeq : Int) (kind : EventKind) (scopeRef : Option String) :
    EventRow where
  originNode := "origin"
  originSeq := originSeq
  hlc := "5.0.origin"
  kind := kind
  subjectRef := none
  actorRef := "actor"
  policyDigest := none
  payloadDigest := "digest"
  prevHash := none
  envelopeVersion := 2
  scopeDigest := scopeRef
  eventId := eventId
  selfHash := eventId
  scopeRef := scopeRef
  signature := none
  signingKeyRef := none
  signatureScheme := none
  recordedAt := 0
  materialized := true

def work : EventWorkRow where
  eventId := "work"
  workRef := "w"
  planRef := "p"
  workKind := "repair"
  roleRequirement := none
  subjectRef := none
  objective := none
  constraints := none
  expectedObservations := none
  domain := some "storage"

/-- A claim and a work that the viewer sees, and an event of a scope of which they know nothing. -/
def log : Log where
  events := ⟨[row "claim" 1 .claimRecorded none, row "work" 2 .workDerived none,
    row "link" 3 .linkAsserted (some "secret")], by decide⟩
  eventWork := ⟨[work], by decide⟩

/-- What the hidden event asserts: that the claim is based on the work. -/
def basis : LinkRow where
  sourceRef := "claim"
  relation := .basedOn
  targetRef := "work"
  resolved := true
  assertedByEventId := "link"
  asserterScopeRef := "secret"
  targetScopeRef := publicScope
  targetStamp := some ⟨5, 0, "origin"⟩
  source := some (publicScope, ⟨5, 0, "origin"⟩)

def unrelated : Store := { log := log }

def related : Store :=
  { log := log, projections := { eventLinks := (∅ : Table LinkRow _).insertNew basis } }

theorem basis_hidden : HiddenBasis related {"fleet"} basis := ⟨rfl, by decide⟩

theorem sameButBasis : SameButHiddenBasis {"fleet"} unrelated related where
  events _ _ _ := Iff.rfl
  plans := rfl
  works := rfl
  links link shown := by
    change link ∈ (∅ : Table LinkRow _) ↔ link ∈ (∅ : Table LinkRow _).insertNew basis
    rw [Table.mem_insertNew]
    constructor
    · exact .inl
    · rintro (held | ⟨rfl, _⟩)
      · exact held
      · exact absurd basis_hidden shown

theorem hidden_lineage : BasisLineage related {"fleet"} "claim" "storage" (HiddenBasis related {"fleet"}) :=
  ⟨basis, Table.mem_insertNew.mpr (.inr ⟨rfl, rfl⟩), rfl, rfl, rfl, by decide,
    .inl ⟨work, rfl, rfl⟩, basis_hidden⟩

/-- The hidden link gives the claim a domain. -/
theorem claim_steered :
    deriveDomains Bounded.engine unrelated {"fleet"} (some (.claimEvent, "claim")) ≠
      deriveDomains Bounded.engine related {"fleet"} (some (.claimEvent, "claim")) := by
  intro equal
  have lineage := (deriveDomains_same_iff sameButBasis _).mp equal "claim" (.inl rfl) "storage"
  have none : ∀ kind, ¬BasisLineage unrelated {"fleet"} "claim" "storage" kind := by
    rintro kind ⟨link, held, _⟩
    cases held
  exact none _ ((lineage (none _)).mpr hidden_lineage)

/-- The anchor's own domain is not steered by a link. -/
theorem work_untold :
    deriveDomains Bounded.engine unrelated {"fleet"} (some (.work, "w")) =
      deriveDomains Bounded.engine related {"fleet"} (some (.work, "w")) :=
  ((orientation_untold_iff Bounded.engine {"fleet"} unrelated related sameButBasis (some (.work, "w"))).mpr
    fun ref based => by rcases based with based | based <;> cases based).1

end SteeredClaim

end Kawa
