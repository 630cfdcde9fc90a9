import Kawa.Bundle

/-!
Both sides of the evidence share one budget.  The cut falls evenly across them, and what it
keeps is returned exactly where every kept source can be summarised.
-/

namespace Kawa

open Result

/-! ## The cut -/

/-- What an even cut keeps of the left, or of a right that is read first to last after it. -/
def leftQuota (budget right : Nat) : Nat := max ((budget + 1) / 2) (budget - right)

def rightQuota (budget left : Nat) : Nat := max (budget / 2) (budget - left)

/-- Cutting the alternation keeps the quota of each side. -/
theorem take_alternate {α : Type} (left right : List α) (budget : Nat) :
    ((alternate left right).take budget).Perm
      (left.take (leftQuota budget right.length) ++
        right.take (rightQuota budget left.length)) := by
  unfold leftQuota rightQuota
  induction left, right using alternate.induct generalizing budget with
  | case1 right =>
      have whole : max (budget / 2) (budget - ([] : List α).length) = budget := by
        simp only [List.length_nil]
        omega
      rw [whole, alternate, List.take_nil, List.nil_append]
  | case2 left empty =>
      have whole : max ((budget + 1) / 2) (budget - ([] : List α).length) = budget := by
        simp only [List.length_nil]
        omega
      cases left with
      | nil => exact absurd rfl empty
      | cons first left =>
          rw [whole, alternate, List.take_nil, List.append_nil]
          exact empty
  | case3 first left second right ih =>
      cases budget with
      | zero => simp
      | succ budget =>
          cases budget with
          | zero => simp [alternate]
          | succ budget =>
              have fewer : max ((budget + 1 + 1 + 1) / 2) (budget + 1 + 1 - (second :: right).length)
                  = max ((budget + 1) / 2) (budget - right.length) + 1 := by
                rw [List.length_cons]
                omega
              have others : max ((budget + 1 + 1) / 2) (budget + 1 + 1 - (first :: left).length)
                  = max (budget / 2) (budget - left.length) + 1 := by
                rw [List.length_cons]
                omega
              rw [fewer, others, alternate, List.take_succ_cons, List.take_succ_cons,
                List.take_succ_cons, List.take_succ_cons, List.cons_append]
              refine List.Perm.cons first (List.Perm.trans ?_ List.perm_middle.symm)
              exact List.Perm.cons second (ih budget)

section Evidence

variable (engine : TextEngine) (store : Store) (viewer : Finset String)

/-! ## Both sides -/

/-- The sources of the visible resolved links of one relation into the anchor. -/
def visibleSources (relation : Relation) (anchor : String) : List String :=
  ((evidenceLinks store relation anchor).filter (disclosed store viewer)).map (·.sourceRef)

def rankedSources (relation : Relation) (anchor : String) : List String :=
  (visibleSources store viewer relation anchor).mergeSort engine.collate

/-- What the cut keeps of the two sides. -/
def keptEvidence (anchor : String) (budget : Nat) : List (Relation × String) :=
  ((rankedSources engine store viewer .supports anchor).take
      (leftQuota budget (visibleSources store viewer .contradicts anchor).length)).map
      (fun ref => (Relation.supports, ref)) ++
    ((rankedSources engine store viewer .contradicts anchor).take
      (rightQuota budget (visibleSources store viewer .supports anchor).length)).map
      fun ref => (Relation.contradicts, ref)

/-- The payload row that the summary of an event reads is held. -/
def Log.holdsSummary (log : Log) (eventId : String) : Bool :=
  match log.events.find? eventId with
  | none => true
  | some event =>
      match event.kind with
      | .claimRecorded => (log.eventClaim.find? eventId).isSome
      | .observationRecorded => (log.eventObservation.find? eventId).isSome
      | .linkAsserted => (log.eventLink.find? eventId).isSome
      | .planCreated | .planLifecycleChanged => (log.eventPlan.find? eventId).isSome
      | .workDerived => (log.eventWork.find? eventId).isSome
      | .resultRecorded => (log.eventResult.find? eventId).isSome
      | _ => true

def evidencePath (anchor : String) (edge : Relation × String) : String :=
  anchor ++ " <-" ++ edge.1.value ++ "- " ++ edge.2

/-- What a record says it is, and by which edge it was reached. -/
def BundleRecord.reached : BundleRecord → String × String
  | .record held => (held.ref, held.path)
  | .section held => (held.ref, held.path)

/-- The records of edges into the anchor. -/
def Records (anchor : String) (edges : List (Relation × String)) (records : List BundleRecord) :
    Prop :=
  records.map BundleRecord.reached = edges.map fun edge => (edge.2, evidencePath anchor edge)

/-- Both sides share the budget evenly. -/
structure Balanced (anchor : String) (budget : Nat) (edges : List (Relation × String)) : Prop where
  visible : ∀ edge ∈ edges, (edge.1 = .supports ∨ edge.1 = .contradicts) ∧
    edge.2 ∈ visibleSources store viewer edge.1 anchor
  distinct : edges.Nodup
  count : edges.length = min budget ((visibleSources store viewer .supports anchor).length +
    (visibleSources store viewer .contradicts anchor).length)
  /-- where both sides have edges, both are represented -/
  represented : visibleSources store viewer .supports anchor ≠ [] →
    visibleSources store viewer .contradicts anchor ≠ [] →
    (∃ ref, (Relation.supports, ref) ∈ edges) ∧ ∃ ref, (Relation.contradicts, ref) ∈ edges
  /-- a side falls short by more than one only when all of it is returned -/
  even : ∀ side other, (side = Relation.supports ∧ other = Relation.contradicts ∨
      side = .contradicts ∧ other = .supports) →
    edges.countP (·.1 = side) ≤ edges.countP (·.1 = other) + 1 ∨
      ∀ ref ∈ visibleSources store viewer other anchor, (other, ref) ∈ edges

end Evidence

theorem fetchOne_map_succeeds {ρ α : Type} {row : Option ρ} {f : ρ → α} :
    (∃ made, (fetchOne row).map f = .ok made) ↔ row.isSome = true := by
  cases row with
  | none => simp [fetchOne, Except.map]
  | some row => simp [fetchOne, Except.map]

theorem summaryOf_succeeds_iff (numberText : Json.Double → String) (log : Log) (eventId : String) :
    (∃ summary, summaryOf numberText log eventId = .ok summary) ↔
      log.holdsSummary eventId = true := by
  have mapped : ∀ {α β : Type} {result : Except StoreError α} {f : α → β},
      (∃ made, result.map f = .ok made) ↔ ∃ value, result = .ok value := by
    intro α β result f
    cases result <;> simp [Except.map]
  unfold summaryOf Log.holdsSummary
  cases log.events.find? eventId with
  | none => simp
  | some event =>
      dsimp only
      rw [mapped]
      cases event.kind <;> first | exact fetchOne_map_succeeds | simp

section Evidence

variable {engine : TextEngine} {store : Store} {viewer : Finset String} {anchor : String}
  {budget : Nat}

/-! ## What the cut keeps -/

theorem visibleSources_nodup (relation : Relation) (anchor : String) :
    (visibleSources store viewer relation anchor).Nodup := by
  have links : ((evidenceLinks store relation anchor).filter (disclosed store viewer)).Nodup :=
    (store.projections.eventLinks.rows_nodup.filter _).filter _
  refine links.map_on fun left leftHeld right rightHeld same => ?_
  obtain ⟨leftIn, leftAsked⟩ := List.mem_filter.mp (List.mem_of_mem_filter leftHeld)
  obtain ⟨rightIn, rightAsked⟩ := List.mem_filter.mp (List.mem_of_mem_filter rightHeld)
  simp only [Bool.and_eq_true, decide_eq_true_eq] at leftAsked rightAsked
  refine Table.eq_of_key leftIn rightIn ?_
  rw [same, leftAsked.1.1.1.2, rightAsked.1.1.1.2, leftAsked.1.1.2, rightAsked.1.1.2]

theorem rankedSources_perm (relation : Relation) (anchor : String) :
    (rankedSources engine store viewer relation anchor).Perm
      (visibleSources store viewer relation anchor) :=
  List.mergeSort_perm _ _

theorem rankedSources_length (relation : Relation) (anchor : String) :
    (rankedSources engine store viewer relation anchor).length =
      (visibleSources store viewer relation anchor).length :=
  (rankedSources_perm relation anchor).length_eq

/-- How many edges of each side are kept. -/
theorem keptEvidence_supports :
    (keptEvidence engine store viewer anchor budget).countP (·.1 = Relation.supports) =
      min (leftQuota budget (visibleSources store viewer .contradicts anchor).length)
        (visibleSources store viewer .supports anchor).length := by
  unfold keptEvidence
  rw [List.countP_append, List.countP_map, List.countP_map]
  simp [Function.comp_def, rankedSources_length]

theorem keptEvidence_contradicts :
    (keptEvidence engine store viewer anchor budget).countP (·.1 = Relation.contradicts) =
      min (rightQuota budget (visibleSources store viewer .supports anchor).length)
        (visibleSources store viewer .contradicts anchor).length := by
  unfold keptEvidence
  rw [List.countP_append, List.countP_map, List.countP_map]
  simp [Function.comp_def, rankedSources_length]

/-- A side whose quota covers it is kept whole. -/
theorem kept_supports_of_covered {ref : String}
    (covered : (visibleSources store viewer .supports anchor).length ≤
      leftQuota budget (visibleSources store viewer .contradicts anchor).length)
    (member : ref ∈ visibleSources store viewer .supports anchor) :
    (Relation.supports, ref) ∈ keptEvidence engine store viewer anchor budget := by
  refine List.mem_append_left _ (List.mem_map_of_mem ?_)
  rw [List.take_of_length_le (by rw [rankedSources_length]; exact covered)]
  exact (rankedSources_perm _ _).mem_iff.mpr member

theorem kept_contradicts_of_covered {ref : String}
    (covered : (visibleSources store viewer .contradicts anchor).length ≤
      rightQuota budget (visibleSources store viewer .supports anchor).length)
    (member : ref ∈ visibleSources store viewer .contradicts anchor) :
    (Relation.contradicts, ref) ∈ keptEvidence engine store viewer anchor budget := by
  refine List.mem_append_right _ (List.mem_map_of_mem ?_)
  rw [List.take_of_length_le (by rw [rankedSources_length]; exact covered)]
  exact (rankedSources_perm _ _).mem_iff.mpr member

theorem exists_of_countP {edges : List (Relation × String)} {side : Relation}
    (some : 0 < edges.countP (·.1 = side)) : ∃ ref, (side, ref) ∈ edges := by
  obtain ⟨edge, member, same⟩ := List.countP_pos_iff.mp some
  obtain rfl : edge.1 = side := of_decide_eq_true same
  exact ⟨edge.2, member⟩

/-- What is kept is balanced, from the budget on that evidence is planned with. -/
theorem keptEvidence_balanced (two : 2 ≤ budget) :
    Balanced store viewer anchor budget (keptEvidence engine store viewer anchor budget) := by
  have fewLeft : leftQuota budget (visibleSources store viewer .contradicts anchor).length =
    max ((budget + 1) / 2) (budget - (visibleSources store viewer .contradicts anchor).length) := rfl
  have fewRight : rightQuota budget (visibleSources store viewer .supports anchor).length =
    max (budget / 2) (budget - (visibleSources store viewer .supports anchor).length) := rfl
  constructor
  case visible =>
    intro edge member
    rcases List.mem_append.mp member with side | side
    · obtain ⟨ref, taken, rfl⟩ := List.mem_map.mp side
      exact ⟨.inl rfl, (rankedSources_perm _ _).mem_iff.mp (List.mem_of_mem_take taken)⟩
    · obtain ⟨ref, taken, rfl⟩ := List.mem_map.mp side
      exact ⟨.inr rfl, (rankedSources_perm _ _).mem_iff.mp (List.mem_of_mem_take taken)⟩
  case distinct =>
    have side : ∀ relation quota, (((rankedSources engine store viewer relation anchor).take
        quota).map fun ref => (relation, ref)).Nodup := by
      intro relation quota
      refine List.Nodup.map (fun left right same => (Prod.mk.inj same).2) ?_
      exact ((rankedSources_perm relation anchor).nodup_iff.mpr
        (visibleSources_nodup relation anchor)).sublist (List.take_sublist _ _)
    refine List.Nodup.append (side _ _) (side _ _) fun edge inLeft inRight => ?_
    obtain ⟨_, _, rfl⟩ := List.mem_map.mp inLeft
    obtain ⟨_, _, same⟩ := List.mem_map.mp inRight
    cases same
  case count =>
    unfold keptEvidence
    rw [List.length_append, List.length_map, List.length_map, List.length_take, List.length_take,
      rankedSources_length, rankedSources_length]
    omega
  case represented =>
    intro supporting contradicting
    have some := List.length_pos_iff.mpr supporting
    have others := List.length_pos_iff.mpr contradicting
    constructor
    · refine exists_of_countP ?_
      rw [keptEvidence_supports]
      omega
    · refine exists_of_countP ?_
      rw [keptEvidence_contradicts]
      omega
  case even =>
    rintro side other (⟨rfl, rfl⟩ | ⟨rfl, rfl⟩)
    · by_cases covered : (visibleSources store viewer .contradicts anchor).length ≤
          rightQuota budget (visibleSources store viewer .supports anchor).length
      · exact .inr fun ref member => kept_contradicts_of_covered covered member
      · refine .inl ?_
        rw [keptEvidence_supports, keptEvidence_contradicts]
        omega
    · by_cases covered : (visibleSources store viewer .supports anchor).length ≤
          leftQuota budget (visibleSources store viewer .contradicts anchor).length
      · exact .inr fun ref member => kept_supports_of_covered covered member
      · refine .inl ?_
        rw [keptEvidence_supports, keptEvidence_contradicts]
        omega

theorem Balanced.perm {left right : List (Relation × String)} (same : left.Perm right)
    (balanced : Balanced store viewer anchor budget left) :
    Balanced store viewer anchor budget right := by
  constructor
  case visible => exact fun edge member => balanced.visible edge (same.mem_iff.mpr member)
  case distinct => exact same.nodup_iff.mp balanced.distinct
  case count => rw [← same.length_eq, balanced.count]
  case represented =>
    intro supporting contradicting
    obtain ⟨⟨first, support⟩, second, contradict⟩ :=
      balanced.represented supporting contradicting
    exact ⟨⟨first, same.mem_iff.mp support⟩, second, same.mem_iff.mp contradict⟩
  case even =>
    intro side other sides
    rw [← same.countP_eq, ← same.countP_eq]
    exact (balanced.even side other sides).imp id fun all ref member =>
      same.mem_iff.mp (all ref member)

/-! ## What is returned -/

/-- The edges in the order they are returned. -/
def selectedEvidence (engine : TextEngine) (store : Store) (viewer : Finset String)
    (anchor : String) (budget : Nat) : List (Relation × String) :=
  (alternate
    (((rankedSources engine store viewer .supports anchor).take budget).map fun ref =>
      (Relation.supports, ref))
    (((rankedSources engine store viewer .contradicts anchor).take budget).map fun ref =>
      (Relation.contradicts, ref))).take budget

/-- Neither window is shorter than the quota of its side. -/
theorem selectedEvidence_perm (positive : 0 < budget) :
    (selectedEvidence engine store viewer anchor budget).Perm
      (keptEvidence engine store viewer anchor budget) := by
  refine (take_alternate _ _ budget).trans (List.Perm.of_eq ?_)
  unfold keptEvidence leftQuota rightQuota
  rw [List.length_map, List.length_map, List.length_take, List.length_take, rankedSources_length,
    rankedSources_length, ← List.map_take, ← List.map_take, List.take_take, List.take_take]
  congr 3
  · omega
  · omega

theorem mapM_reached {edges : List (Relation × String)} {anchor : String}
    {queryClass : QueryClass} {records : List Record}
    (mapped : edges.mapM (fun edge => hydrate engine store queryClass edge.2
      (evidencePath anchor edge)) = .ok records) :
    Records anchor edges (records.map .record) := by
  unfold Records
  induction edges generalizing records with
  | nil =>
      cases mapped
      rfl
  | cons edge edges ih =>
      simp only [List.mapM_cons, bind_ok, pure_ok] at mapped
      obtain ⟨record, hydrated, rest, later, rfl⟩ := mapped
      rw [List.map_cons, List.map_cons, List.map_cons, ih later]
      unfold hydrate at hydrated
      obtain ⟨summary, _, made⟩ := bind_ok.mp hydrated
      cases made
      rfl

theorem hydrate_succeeds_iff {queryClass : QueryClass} {ref path : String} :
    (∃ record, hydrate engine store queryClass ref path = .ok record) ↔
      store.log.holdsSummary ref = true := by
  rw [← summaryOf_succeeds_iff engine.numberText]
  unfold hydrate
  constructor
  · rintro ⟨record, hydrated⟩
    obtain ⟨summary, read, _⟩ := bind_ok.mp hydrated
    exact ⟨summary, read⟩
  · rintro ⟨summary, read⟩
    rw [read]
    exact ⟨_, rfl⟩

theorem execEvidence_ok {bound : BoundIntent} {queryClass : QueryClass} {executed : Executed}
    (ran : execEvidence engine store viewer bound queryClass = .ok executed) :
    ∃ records, (selectedEvidence engine store viewer bound.anchorRef queryClass.budget).mapM
        (fun edge => hydrate engine store queryClass edge.2
          (evidencePath bound.anchorRef edge)) = .ok records ∧
      executed.records = records.map .record := by
  obtain ⟨records, mapped, made⟩ := bind_ok.mp ran
  cases made
  exact ⟨records, mapped, rfl⟩

/-- The evidence is returned exactly where every kept source has the row its summary reads. -/
theorem execEvidence_succeeds_iff {bound : BoundIntent} {queryClass : QueryClass}
    (positive : 0 < queryClass.budget) :
    (∃ executed, execEvidence engine store viewer bound queryClass = .ok executed) ↔
      ∀ edge ∈ keptEvidence engine store viewer bound.anchorRef queryClass.budget,
        store.log.holdsSummary edge.2 = true := by
  have selected : (selectedEvidence engine store viewer bound.anchorRef queryClass.budget).Perm
      (keptEvidence engine store viewer bound.anchorRef queryClass.budget) :=
    selectedEvidence_perm positive
  constructor
  · rintro ⟨executed, ran⟩ edge member
    obtain ⟨records, mapped, _⟩ := execEvidence_ok ran
    obtain ⟨record, hydrated⟩ := mapM_reads mapped (selected.mem_iff.mpr member)
    exact hydrate_succeeds_iff.mp ⟨record, hydrated⟩
  · intro held
    have each : ∀ edge ∈ selectedEvidence engine store viewer bound.anchorRef queryClass.budget,
        ∃ record, hydrate engine store queryClass edge.2 (evidencePath bound.anchorRef edge) =
          .ok record := fun edge member =>
      hydrate_succeeds_iff.mpr (held edge (selected.mem_iff.mp member))
    obtain ⟨records, mapped⟩ := mapM_succeeds each
    exact ⟨_, bind_ok.mpr ⟨records, mapped, rfl⟩⟩

/-- What is returned are the records of the selected edges. -/
theorem execEvidence_records {bound : BoundIntent} {queryClass : QueryClass} {executed : Executed}
    (ran : execEvidence engine store viewer bound queryClass = .ok executed) :
    Records bound.anchorRef
      (selectedEvidence engine store viewer bound.anchorRef queryClass.budget) executed.records := by
  obtain ⟨records, mapped, same⟩ := execEvidence_ok ran
  rw [same]
  exact mapM_reached mapped

/-- The budget is filled and balanced exactly where no kept source lacks the payload row that
its summary reads. -/
theorem execEvidence_balanced_iff {bound : BoundIntent} {queryClass : QueryClass}
    (two : 2 ≤ queryClass.budget) :
    (∃ executed edges, execEvidence engine store viewer bound queryClass = .ok executed ∧
      Records bound.anchorRef edges executed.records ∧
      Balanced store viewer bound.anchorRef queryClass.budget edges) ↔
    ∀ edge ∈ keptEvidence engine store viewer bound.anchorRef queryClass.budget,
      store.log.holdsSummary edge.2 = true := by
  have positive : 0 < queryClass.budget := by omega
  constructor
  · rintro ⟨executed, _, ran, _⟩
    exact (execEvidence_succeeds_iff positive).mp ⟨executed, ran⟩
  · intro held
    obtain ⟨executed, ran⟩ := (execEvidence_succeeds_iff positive).mpr held
    exact ⟨executed, _, ran, execEvidence_records ran,
      (keptEvidence_balanced two).perm (selectedEvidence_perm positive).symm⟩

end Evidence

namespace StubEvidence

def row (eventId : String) (kind : EventKind) (seq : Int) (materialized : Bool) : EventRow where
  originNode := "node"
  originSeq := seq
  hlc := ({ node := "node", physicalMs := seq.toNat, logical := 0 } : HLC).stamp
  kind := kind
  subjectRef := none
  actorRef := "node"
  policyDigest := none
  payloadDigest := "payload"
  prevHash := none
  envelopeVersion := 2
  scopeDigest := some "scope"
  eventId := eventId
  selfHash := eventId
  scopeRef := none
  signature := none
  signingKeyRef := none
  signatureScheme := none
  recordedAt := 0
  materialized := materialized

def link : LinkRow where
  sourceRef := "stub"
  relation := .supports
  targetRef := "anchor"
  resolved := true
  assertedByEventId := "link"
  asserterScopeRef := publicScope
  targetScopeRef := publicScope
  targetStamp := some { hlcPhys := 1, hlcLogical := 0, originNode := "node" }
  source := some (publicScope, { hlcPhys := 2, hlcLogical := 0, originNode := "node" })

/-- A claim, a second claim that is held as a stub, and a link from the stub to the first. -/
def store : Store where
  log := {
    events := ⟨[row "anchor" .claimRecorded 1 true, row "stub" .claimRecorded 2 false,
      row "link" .linkAsserted 3 true], by decide⟩
    eventClaim := ⟨[{ eventId := "anchor", proposition := "proposition", basisNote := none }],
      by decide⟩
    eventLink := ⟨[{ eventId := "link", sourceRef := "stub", relation := .supports
                     targetRef := "anchor" }], by decide⟩ }
  projections := { eventLinks := ⟨[link], by decide⟩ }

def bound : BoundIntent where
  intent := { about := some "anchor", textTerms := none, relationDepth := 1, limit := 10
              fallbackPolicy := none }
  anchor := some (.claimEvent, "anchor")
  unboundText := none

def evidence : QueryClass where
  classId := "q3-evidence"
  purpose := .evidence
  budget := 2
  ftsReason := none

/-- The one visible edge comes from a stub, and the summary of the stub raises. -/
theorem nothing_returned : ∃ engine store bound queryClass, 2 ≤ queryClass.budget ∧
    visibleSources store ∅ .supports bound.anchorRef = ["stub"] ∧
    ¬ ∃ executed edges, execEvidence engine store ∅ bound queryClass = .ok executed ∧
      Records bound.anchorRef edges executed.records ∧
      Balanced store ∅ bound.anchorRef queryClass.budget edges := by
  refine ⟨Bounded.engine, store, bound, evidence, by decide, by decide, ?_⟩
  rintro ⟨executed, _, ran, _⟩
  have held := (execEvidence_succeeds_iff (by decide)).mp ⟨executed, ran⟩
  have kept : (Relation.supports, "stub") ∈
      keptEvidence Bounded.engine store ∅ bound.anchorRef evidence.budget :=
    kept_supports_of_covered (by decide) (by decide)
  exact absurd (held _ kept) (by decide)

/-- The same link the other way round: the source is whole. -/
def reversed : Store where
  log := store.log
  projections := {
    eventLinks := ⟨[{ link with sourceRef := "anchor", targetRef := "stub" }], by decide⟩ }

def aboutStub : BoundIntent where
  intent := bound.intent
  anchor := some (.event, "stub")
  unboundText := none

theorem reversed_returned : ∃ executed edges,
    execEvidence Bounded.engine reversed ∅ aboutStub evidence = .ok executed ∧
      Records aboutStub.anchorRef edges executed.records ∧
      Balanced reversed ∅ aboutStub.anchorRef evidence.budget edges := by
  refine (execEvidence_balanced_iff (by decide)).mpr fun edge member => ?_
  obtain ⟨side, source⟩ := (keptEvidence_balanced (by decide)).visible edge member
  obtain ⟨relation, ref⟩ := edge
  rcases side with rfl | rfl
  · rw [show visibleSources reversed ∅ .supports aboutStub.anchorRef = ["anchor"] by decide]
      at source
    obtain rfl := List.mem_singleton.mp source
    decide
  · rw [show visibleSources reversed ∅ .contradicts aboutStub.anchorRef = [] by decide] at source
    cases source

end StubEvidence

end Kawa
