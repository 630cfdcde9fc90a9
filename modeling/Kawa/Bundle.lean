import Kawa.BundlePlan

/-!
`retrieve`: binding, the plan, and the executors of the query classes, each of which keeps to
the budget its class was planned with.
-/

namespace Kawa

/-! ## What the executors read from outside -/

/-- The text functions that the queries and the executors call. -/
structure TextEngine where
  /-- `to_tsvector('english', text) @@ websearch_to_tsquery('english', terms)` -/
  fits : String → String → Bool
  /-- `websearch_to_tsquery('english', terms)::text` -/
  tsquery : String → String
  /-- The order of the database's collation. -/
  collate : String → String → Bool
  numberText : Json.Double → String
  order : RowOrder
  /-- `text.split()`, each word stripped of punctuation and in lower case. -/
  words : String → List String
  lower : String → String
  /-- `needle in text` -/
  holds : String → String → Bool
  /-- `repr(text)` -/
  quote : String → String

/-- The embeddings that are stored. -/
structure VectorIndex where
  indexedModel : Option String
  /-- How many in-scope events are covered under a model. -/
  covered : String → Finset String → Nat
  /-- The stored vector of an event under a model. -/
  embedding : String → String → Option String
  /-- All embedded events but the excluded one, nearest to a vector first, with the similarity
  as it is printed. -/
  ranked : String → String → String → List (String × String)

structure Embedder where
  modelIdentity : String
  embed : String → String

structure DocSection where
  docPath : String
  heading : String
  headingPath : String
  sectionAnchor : String
  contentDigest : String
  excerpt : String

structure SectionIndex where
  commit : String
  source : String
  sections : List DocSection
  dirtyDocs : List String

/-- The one section of a document under a heading. -/
def SectionIndex.resolve (index : SectionIndex) (anchorRef : String) : Option DocSection :=
  if anchorRef.toList.contains '#' then
    let docPath := String.ofList (anchorRef.toList.takeWhile (· ≠ '#'))
    let heading := String.ofList ((anchorRef.toList.dropWhile (· ≠ '#')).drop 1)
    match index.sections.filter fun row => row.docPath = docPath ∧ row.heading = heading with
    | [only] => some only
    | _ => none
  else none

/-- The checkout: its section index, and the documents of each domain. -/
structure Repository where
  index : Option SectionIndex
  domains : Dict String (List String)

/-- A document section among the records. -/
structure DocSectionRecord extends Record where
  docPath : String
  headingPath : String
  contentDigest : String
  commit : String
  basis : String

inductive BundleRecord
  | record (record : Record)
  | section (record : DocSectionRecord)

/-! ## Bundles -/

/-- What one executor returns and states. -/
structure Executed where
  records : List BundleRecord
  traversalFrontier : List FrontierEntry := []
  unresolvedFrontier : List FrontierEntry := []
  /-- Where a vector scan stopped: from where, and at which ref. -/
  similarFrontier : List (String × String) := []
  skipped : List SkippedClass := []
  ftsQueries : List String := []
  vectorFrontier : List String := []
  withheld : Nat := 0
  candidateTruncation : Option CandidateTruncation := none
  orientation : List String := []

/-- What the classes have returned and stated, in the order they ran. -/
structure Bundle where
  plan : RetrievalPlan
  sections : Dict String (List BundleRecord) := []
  executed : List (String × Executed) := []
  emptyClasses : List String := []
  skippedClasses : List SkippedClass := []

section Retrieval

variable (engine : TextEngine) (store : Store) (viewer : Finset String)

/-! ## Queries -/

/-- `_IN_SCOPE` -/
def EventRow.visible (row : EventRow) : Bool := row.scopeRef.all (· ∈ viewer)

def visibleEvent (eventId : String) : Bool :=
  (store.log.events.find? eventId).any (EventRow.visible viewer)

/-- Rows of a payload table with their events in scope, by
`ORDER BY e.origin_node, e.origin_seq DESC`. -/
def latestFirst {ρ : Type} (eventId : ρ → String) (rows : List ρ) : List ρ :=
  let joined := rows.filterMap fun row =>
    (store.log.events.find? (eventId row)).bind fun event =>
      if event.visible viewer then some (row, event) else none
  (joined.mergeSort fun left right =>
    if left.2.originNode = right.2.originNode then
      decide (right.2.originSeq ≤ left.2.originSeq)
    else engine.collate left.2.originNode right.2.originNode).map (·.1)

def latestObjective (planRef : String) : Option EventPlanRow :=
  (latestFirst engine store viewer (·.eventId) (store.log.eventPlan.rows.filter fun row =>
    row.planRef = planRef ∧ row.objective.isSome)).head?

def latestWork (workRef : String) : Option EventWorkRow :=
  (latestFirst engine store viewer (·.eventId) (store.log.eventWork.rows.filter fun row =>
    row.workRef = workRef)).head?

/-- A record of an event, with its summary and standing. -/
def hydrate (queryClass : QueryClass) (ref path : String) : Except StoreError Record := do
  let (kind, summary) ← summaryOf engine.numberText store.log ref
  return {
    ref := ref
    kind := kind
    summary := summary
    backend := queryClass.backend
    classId := queryClass.classId
    path := path
    pathTruncated := false
    standing := standingOf store.projections ref }

def plainRecord (queryClass : QueryClass) (ref kind summary path : String)
    (standing : Option ClaimStanding) : Record where
  ref := ref
  kind := kind
  summary := summary
  backend := queryClass.backend
  classId := queryClass.classId
  path := path
  pathTruncated := false
  standing := standing

/-! ## Binding -/

/-- `resolve_bindings`: an anchor out of scope binds to nothing. -/
def resolveBindings (intent : Intent) : BoundIntent :=
  let anchor := match intent.about with
    | none => none
    | some ref =>
        if ref = "" then none
        else if (store.log.eventClaim.find? ref).isSome && visibleEvent store viewer ref then
          some (AnchorKind.claimEvent, ref)
        else if visibleEvent store viewer ref then some (.event, ref)
        else if (store.projections.currentPlans.find? ref).isSome &&
            store.log.eventPlan.rows.any fun row =>
              row.planRef = ref && visibleEvent store viewer row.eventId then
          some (.plan, ref)
        else if (store.projections.currentWork.find? ref).isSome &&
            store.log.eventWork.rows.any fun row =>
              row.workRef = ref && visibleEvent store viewer row.eventId then
          some (.work, ref)
        else none
  { intent := intent
    anchor := anchor
    unboundText := intent.textTerms.filter (· ≠ "") }

/-! ## Executors -/

def BoundIntent.anchorRef (bound : BoundIntent) : String :=
  match bound.anchor with
  | some (_, ref) => ref
  | none => ""

def Lifecycle.tag (lifecycle : Lifecycle) : String := "[" ++ lifecycle.value ++ "] "

def Execution.value : Execution → String
  | .ready => "ready"
  | .blocked => "blocked"
  | .finished => "finished"
  | .retryable => "retryable"
  | .resultRecorded => "result_recorded"
  | .executionUnknown => "execution_unknown"
  | .retired => "retired"

def ClaimStanding.value : ClaimStanding → String
  | .unevaluated => "unevaluated"
  | .groundedSupported => "grounded_supported"
  | .contradicted => "contradicted"
  | .contested => "contested"
  | .superseded => "superseded"

def execAnchor (bound : BoundIntent) (queryClass : QueryClass) : Except StoreError Executed :=
  match bound.anchor with
  | none => .ok { records := [] }
  | some (.claimEvent, ref) | some (.event, ref) => do
      let record ← hydrate engine store queryClass ref ref
      return { records := [.record record] }
  | some (.plan, ref) => do
      let row ← fetchOne (store.projections.currentPlans.find? ref)
      let objective := (latestObjective engine store viewer ref).bind (·.objective)
      return { records := [.record (plainRecord queryClass ref "plan"
        (row.lifecycle.tag ++ objective.getD "") ref none)] }
  | some (.work, ref) => do
      let row ← fetchOne (store.projections.currentWork.find? ref)
      let (planRef, workKind) := ((latestWork engine store viewer ref).map fun work =>
        (work.planRef, work.workKind)).getD ("", "")
      return { records := [.record (plainRecord queryClass ref "work"
        ("[" ++ row.execution.value ++ "] " ++ workKind ++ " of " ++ planRef) ref none)] }

def execStanding (bound : BoundIntent) (queryClass : QueryClass) : Executed :=
  let anchor := bound.anchorRef
  match standingOf store.projections anchor with
  | none => { records := [] }
  | some standing => { records := [.record (plainRecord queryClass anchor "claim_standing"
      standing.value anchor (some standing))] }

/-- Resolved links of one relation into the anchor whose source is held. -/
def evidenceLinks (relation : Relation) (anchor : String) : List LinkRow :=
  store.projections.eventLinks.rows.filter fun link =>
    link.resolved && link.relation = relation && link.targetRef = anchor &&
      (store.log.events.find? link.sourceRef).isSome &&
      (store.log.events.find? link.assertedByEventId).isSome

/-- Both the endpoint and the asserting event are in scope. -/
def disclosed (link : LinkRow) : Bool :=
  visibleEvent store viewer link.sourceRef && visibleEvent store viewer link.assertedByEventId

/-- One from each side in turn, the left first. -/
def alternate {α : Type} : List α → List α → List α
  | [], right => right
  | left, [] => left
  | first :: left, second :: right => first :: second :: alternate left right

def execEvidence (bound : BoundIntent) (queryClass : QueryClass) : Except StoreError Executed := do
  let anchor := bound.anchorRef
  let window := fun relation =>
    ((((evidenceLinks store relation anchor).filter (disclosed store viewer)).map
      (·.sourceRef)).mergeSort engine.collate).take queryClass.budget
  let hidden := fun relation =>
    (evidenceLinks store relation anchor).countP fun link => !disclosed store viewer link
  let interleaved := alternate ((window .supports).map fun ref => (Relation.supports, ref))
    ((window .contradicts).map fun ref => (Relation.contradicts, ref))
  let records ← (interleaved.take queryClass.budget).mapM fun (relation, ref) =>
    hydrate engine store queryClass ref (anchor ++ " <-" ++ relation.value ++ "- " ++ ref)
  return {
    records := records.map .record
    withheld := hidden .supports + hidden .contradicts }

def execBoundNeighborhood (bound : BoundIntent) (queryClass : QueryClass) :
    Except StoreError Executed :=
  (execNeighborhood engine.numberText engine.order store
    { root := bound.anchorRef
      relationDepth := bound.intent.relationDepth
      backend := queryClass.backend
      classId := queryClass.classId
      budget := queryClass.budget
      viewerScopes := viewer }).map fun found =>
    { records := found.records.map .record
      traversalFrontier := found.traversalFrontier
      unresolvedFrontier := found.unresolvedFrontier
      withheld := found.withheld
      candidateTruncation := found.candidateTruncation }

/-- The latest visible objective of every current plan. -/
def visibleObjectives : List (String × String) :=
  (store.projections.currentPlans.rows.map (·.planRef)).filterMap fun planRef =>
    (latestObjective engine store viewer planRef).bind fun row =>
      row.objective.map fun objective => (planRef, objective)

def execLexical (bound : BoundIntent) (queryClass : QueryClass) : Executed :=
  let terms := (bound.unboundText.orElse fun _ => bound.intent.textTerms).getD ""
  let path := "fts:" ++ engine.quote terms
  let claims := ((store.log.eventClaim.rows.filter fun row =>
      engine.fits row.proposition terms && visibleEvent store viewer row.eventId).mergeSort
    fun left right => engine.collate left.eventId right.eventId).take queryClass.budget
  let plans := (((visibleObjectives engine store viewer).filter fun (_, objective) =>
      engine.fits objective terms).mergeSort
    fun left right => engine.collate left.1 right.1).take (queryClass.budget - claims.length)
  { records := (claims.map fun row => .record (plainRecord queryClass row.eventId
        "claim.recorded" row.proposition path (standingOf store.projections row.eventId))) ++
      plans.map fun (planRef, objective) => .record (plainRecord queryClass planRef "plan"
        objective path none)
    ftsQueries := [(queryClass.ftsReason.map FtsReason.value).getD "None" ++ ": " ++
      engine.tsquery terms] }

/-! ### Vectors -/

/-- `_anchor_content_event` -/
def anchorContentEvent : AnchorKind × String → Option String
  | (.claimEvent, ref) | (.event, ref) => some ref
  | (.plan, ref) => (latestObjective engine store viewer ref).map (·.eventId)
  | (.work, ref) => (latestWork engine store viewer ref).map (·.eventId)

/-- `_domain_ref` -/
def domainRef (eventId : String) (kind : EventKind) : String :=
  match kind with
  | .planCreated | .planLifecycleChanged =>
      ((store.log.eventPlan.find? eventId).map (·.planRef)).getD eventId
  | .workDerived => ((store.log.eventWork.find? eventId).map (·.workRef)).getD eventId
  | _ => eventId

/-- The scan between two rows. -/
structure VectorScan where
  records : List Record
  seen : List String
  capped : Bool
  cut : List (String × String)

/-- One row of a chunk; after the cap the chunk is left. -/
def scanRow (queryClass : QueryClass) (model origin : String) (scan : VectorScan)
    (row : EventRow × String) : Except StoreError VectorScan :=
  let (event, similarity) := row
  let ref := domainRef store event.eventId event.kind
  if scan.capped then .ok scan
  else if ref ∈ scan.seen then .ok scan
  else if scan.records.length ≥ queryClass.budget then
    .ok { scan with capped := true, cut := scan.cut ++ [(origin, ref)] }
  else do
    let (kind, summary) ← summaryOf engine.numberText store.log event.eventId
    return { scan with
      seen := ref :: scan.seen
      records := scan.records ++ [plainRecord queryClass ref kind summary
        ("vec:" ++ model ++ " sim=" ++ similarity)
        (standingOf store.projections event.eventId)] }

/-- The nearest rows, chunk by chunk; every chunk but the last has a row. -/
def scanChunks (queryClass : QueryClass) (model origin : String) (chunk : Nat) :
    Nat → List (EventRow × String) → VectorScan → Except StoreError VectorScan
  | 0, _, scan => .ok scan
  | fuel + 1, rows, scan =>
      if scan.records.length < queryClass.budget && !scan.capped then
        match rows.take chunk with
        | [] => .ok scan
        | first :: rest =>
            ((first :: rest).foldlM (scanRow engine store queryClass model origin) scan).bind
              (scanChunks queryClass model origin chunk fuel (rows.drop (first :: rest).length))
      else .ok scan

/-- The vector that a bound intent is answered by, and the event it is of; or why there is
none. -/
def queryVector (index : VectorIndex) (embedder : Option Embedder) (bound : BoundIntent)
    (model : String) : Except (Option String) (String × Option String) :=
  match bound.anchor with
  | some anchor =>
      match (anchorContentEvent engine store viewer anchor).bind fun event =>
        if (store.log.events.find? event).any (·.materialized) then
          (index.embedding event model).map fun vector => (vector, event)
        else none with
      | some (vector, event) => .ok (vector, some event)
      | none => .error (some ("anchor has no embedding under " ++ model))
  | none =>
      match bound.unboundText with
      | none => .error none
      | some text =>
          match embedder with
          | none => .error (some "textual vector needs a live embedder")
          | some live =>
              if live.modelIdentity ≠ model then
                .error (some ("live embedder " ++ live.modelIdentity ++ " != indexed model " ++
                  model))
              else .ok (live.embed text, none)

def execVector (index : VectorIndex) (embedder : Option Embedder) (bound : BoundIntent)
    (queryClass : QueryClass) : Except StoreError Executed :=
  let skip := fun detail => ({
    classId := queryClass.classId
    purpose := queryClass.purpose
    reason := .noModel
    detail := detail } : SkippedClass)
  match index.indexedModel with
  | none => .ok { records := [], skipped := [skip "vector index empty"] }
  | some model =>
      let materialized := store.log.events.rows.countP fun row =>
        row.materialized && row.visible viewer
      let coverage := "model=" ++ model ++ " coverage=" ++ toString (index.covered model viewer) ++
        "/" ++ toString materialized ++ " materialized events"
      match queryVector engine store viewer index embedder bound model with
      | .error reason =>
          .ok { records := [], vectorFrontier := [coverage], skipped := reason.toList.map skip }
      | .ok (vector, anchorEvent) =>
          let rows := (index.ranked vector model (anchorEvent.getD "")).filterMap
            fun (eventId, similarity) =>
              (store.log.events.find? eventId).bind fun event =>
                if event.materialized && event.visible viewer then some (event, similarity)
                else none
          (scanChunks engine store queryClass model (anchorEvent.getD "text")
            (max (queryClass.budget * 3) 16) (rows.length + 1) rows
            { records := [], seen := (bound.anchor.map (·.2)).toList, capped := false
              cut := [] }).map fun scan =>
            { records := scan.records.map .record
              similarFrontier := scan.cut
              vectorFrontier := [coverage] }

/-! ### Orientation -/

def planDomain (planRef : String) : Option String :=
  ((latestFirst engine store viewer (·.eventId) (store.log.eventPlan.rows.filter fun row =>
    row.planRef = planRef ∧ row.domain.isSome)).head?).bind (·.domain)

/-- The distinct texts, in code point order. -/
def sortedSet (texts : List String) : List String := texts.dedup.mergeSort fun a b => decide (a ≤ b)

/-- `_derive_domains`: the typed domains of an anchor, and on what basis. -/
def deriveDomains : Option (AnchorKind × String) → List String × String
  | none => ([], "UNMAPPED")
  | some (.work, ref) =>
      match latestWork engine store viewer ref with
      | none => ([], "UNMAPPED")
      | some work =>
          match work.domain.filter (· ≠ "") with
          | some own => ([own], "work.domain")
          | none =>
              match (planDomain engine store viewer work.planRef).filter (· ≠ "") with
              | some domain => ([domain], "plan.domain (lineage)")
              | none => ([], "UNMAPPED")
  | some (.plan, ref) =>
      match (planDomain engine store viewer ref).filter (· ≠ "") with
      | some domain => ([domain], "plan.domain")
      | none =>
          match sortedSet ((store.log.eventWork.rows.filter fun row =>
              row.planRef = ref && visibleEvent store viewer row.eventId).filterMap
                (·.domain)) with
          | [] => ([], "UNMAPPED")
          | domains => (domains, "works.domain (lineage)")
  | some (.claimEvent, ref) | some (.event, ref) =>
      let targets := (store.projections.eventLinks.rows.filter fun link =>
        link.resolved && link.relation = .basedOn && link.sourceRef = ref).map (·.targetRef)
      let held := targets.filter (visibleEvent store viewer)
      match sortedSet ((held.filterMap fun target =>
          (store.log.eventWork.find? target).bind fun row => row.domain) ++
        held.filterMap fun target => (store.log.eventPlan.find? target).bind fun row =>
          row.domain) with
      | [] => ([], "UNMAPPED")
      | domains => (domains, "based_on lineage")

/-- The sections that are collected so far. -/
structure SectionScan where
  records : List BundleRecord
  seen : List String
  notes : List String

def sectionRecord (queryClass : QueryClass) (commit basis : String) (row : DocSection) :
    BundleRecord :=
  .section {
    plainRecord queryClass (row.docPath ++ "#" ++ clip row.sectionAnchor 8) "normative_section"
      row.excerpt (row.docPath ++ " / " ++ row.headingPath) none with
    docPath := row.docPath
    headingPath := row.headingPath
    contentDigest := row.contentDigest
    commit := commit
    basis := basis }

/-- A section that a domain maps to, while there is budget. -/
def scanMapped (queryClass : QueryClass) (index : SectionIndex) (scan : SectionScan)
    (anchorRef : String) : SectionScan :=
  if scan.records.length ≥ queryClass.budget then scan
  else
    match index.resolve anchorRef with
    | none => { scan with
        notes := scan.notes ++ ["section_moved: " ++ anchorRef ++
          " (stale mapping — lint should fail)"] }
    | some row =>
        if row.sectionAnchor ∈ scan.seen then scan
        else { scan with
          seen := row.sectionAnchor :: scan.seen
          records := scan.records ++ [sectionRecord queryClass index.commit "domain" row] }

/-- A section whose heading holds one of the terms, while there is budget. -/
def scanHeading (queryClass : QueryClass) (index : SectionIndex) (terms : List String)
    (scan : SectionScan) (row : DocSection) : SectionScan :=
  if scan.records.length ≥ queryClass.budget then scan
  else if row.sectionAnchor ∈ scan.seen then scan
  else if terms.any fun term => engine.holds term (engine.lower row.heading) then
    { scan with
      seen := row.sectionAnchor :: scan.seen
      records := scan.records ++ [sectionRecord queryClass index.commit "lexical" row] }
  else scan

def stopwords : List String :=
  ["this", "that", "with", "from", "have", "must", "should", "when", "which", "where", "into",
    "only", "over", "such", "then", "than"]

def execRepositoryNormative (repository : Repository) (bound : BoundIntent)
    (queryClass : QueryClass) : Executed :=
  match repository.index with
  | none => {
      records := []
      skipped := [{
        classId := queryClass.classId
        purpose := queryClass.purpose
        reason := .noModel
        detail := "repository index unavailable" }] }
  | some index =>
      let (domains, basis) := deriveDomains engine store viewer bound.anchor
      let mapped := domains.flatMap fun domain => (Dict.get? repository.domains domain).getD []
      let primary := mapped.foldl (scanMapped queryClass index)
        { records := [], seen := [], notes := [] }
      let text := (bound.unboundText.orElse fun _ => bound.intent.textTerms).getD ""
      let terms := (engine.words text).filter fun word =>
        4 ≤ word.toList.length ∧ word ∉ stopwords
      let both := if terms = [] then primary
        else index.sections.foldl (scanHeading engine queryClass index terms) primary
      { records := both.records
        orientation := ["index source: " ++ index.source ++ " @ " ++ clip index.commit 12] ++
          index.dirtyDocs.map (fun doc => "repository_dirty: " ++ doc ++ " (sections withheld)") ++
          [(if domains = [] then "domain: UNMAPPED (" else
            "domain: " ++ ", ".intercalate domains ++ " (") ++ basis ++ ")"] ++ both.notes }

/-- The results of one work that still fit. -/
def scanPrecedents (queryClass : QueryClass) (anchor : String) (records : List BundleRecord)
    (workRef : String) : List BundleRecord :=
  if records.length ≥ queryClass.budget then records
  else
    records ++ ((latestFirst engine store viewer (·.eventId) (store.log.eventResult.rows.filter
      fun row => row.workRef = workRef)).take (queryClass.budget - records.length)).map fun row =>
        .record (plainRecord queryClass row.eventId "precedent"
          (workRef ++ ": " ++ row.outcome.value) (anchor ++ " ~precedent~ " ++ workRef) none)

/-- The works of a plan. -/
def worksOf (planRef : String) : List String :=
  ((store.log.eventWork.rows.filter fun row => row.planRef = planRef).map fun row =>
    row.workRef).dedup.mergeSort engine.collate

/-- The works whose results are precedents of an anchor. -/
def precedentWorks : Option (AnchorKind × String) → List String
  | some (.work, ref) => [ref]
  | some (.plan, ref) => worksOf engine store ref
  | _ => []

def execPrecedent (bound : BoundIntent) (queryClass : QueryClass) : Executed :=
  { records := (precedentWorks engine store bound.anchor).foldl
      (scanPrecedents engine store viewer queryClass bound.anchorRef) []
    orientation :=
      ["precedent source: event log (internal); external discussion threads not consulted"] }

/-! ## Retrieving -/

variable (index : VectorIndex) (embedder : Option Embedder) (repository : Repository)

/-- The executor of a query class. -/
def execute (bound : BoundIntent) (queryClass : QueryClass) : Except StoreError Executed :=
  match queryClass.purpose with
  | .anchorLookup => execAnchor engine store viewer bound queryClass
  | .standing => .ok (execStanding store bound queryClass)
  | .repositoryNormative =>
      .ok (execRepositoryNormative engine store viewer repository bound queryClass)
  | .evidence => execEvidence engine store viewer bound queryClass
  | .neighborhood => execBoundNeighborhood engine store viewer bound queryClass
  | .precedent => .ok (execPrecedent engine store viewer bound queryClass)
  | .lexical => .ok (execLexical engine store viewer bound queryClass)
  | .vector => execVector engine store viewer index embedder bound queryClass

/-- Structural records count towards the fallback; reach and the sideband do not. -/
def Purpose.structural : Purpose → Bool
  | .anchorLookup | .standing | .evidence | .neighborhood => true
  | _ => false

/-- One query class of the plan; `total` is the structural records so far. -/
def retrieveClass (bound : BoundIntent) (state : Bundle × Nat) (queryClass : QueryClass) :
    Except StoreError (Bundle × Nat) :=
  let (bundle, total) := state
  if queryClass.ftsReason = some .structuredUnderflow ∧
      (bound.intent.fallbackPolicy.getD 0) ≤ total then
    .ok ({ bundle with
      skippedClasses := bundle.skippedClasses ++ [{
        classId := queryClass.classId
        purpose := queryClass.purpose
        reason := .structuredUnderflowMet
        detail := toString total ++ " structural records met the threshold" }] }, total)
  else do
    let executed ← execute engine store viewer index embedder repository bound queryClass
    let stated := { bundle with
      executed := bundle.executed ++ [(queryClass.classId, executed)]
      skippedClasses := bundle.skippedClasses ++ executed.skipped }
    let counted := if queryClass.purpose.structural then total + executed.records.length else total
    if executed.records = [] then
      return ({ stated with emptyClasses := stated.emptyClasses ++ [queryClass.classId] }, counted)
    else
      return ({ stated with
        sections := Dict.set stated.sections queryClass.classId executed.records }, counted)

inductive RetrieveError
  | plan (error : PlanError)
  | store (error : StoreError)

def retrieve (intent : Intent) : Except RetrieveError Bundle := do
  let plan ← (compilePlan (resolveBindings store viewer intent)).mapError .plan
  let (bundle, _) ← (plan.queryClasses.foldlM
    (retrieveClass engine store viewer index embedder repository plan.bound)
    ({ plan := plan, skippedClasses := plan.skippedAtCompile }, 0)).mapError .store
  return bundle

end Retrieval

/-! ## Every executor keeps to its budget -/

section Ceiling

open Result

variable {engine : TextEngine} {store : Store} {viewer : Finset String} {index : VectorIndex}
  {embedder : Option Embedder} {repository : Repository} {bound : BoundIntent}
  {queryClass : QueryClass}

theorem execAnchor_within {executed : Executed} (budgeted : 1 ≤ queryClass.budget)
    (ran : execAnchor engine store viewer bound queryClass = .ok executed) :
    executed.records.length ≤ queryClass.budget := by
  unfold execAnchor at ran
  split at ran
  · cases ran
    exact Nat.zero_le _
  · obtain ⟨record, _, made⟩ := bind_ok.mp ran
    cases made
    exact budgeted
  · obtain ⟨record, _, made⟩ := bind_ok.mp ran
    cases made
    exact budgeted
  · obtain ⟨row, _, made⟩ := bind_ok.mp ran
    cases made
    exact budgeted
  · obtain ⟨row, _, made⟩ := bind_ok.mp ran
    cases made
    exact budgeted

theorem execStanding_within (budgeted : 1 ≤ queryClass.budget) :
    (execStanding store bound queryClass).records.length ≤ queryClass.budget := by
  unfold execStanding
  dsimp only
  split
  · exact Nat.zero_le _
  · exact budgeted

theorem execEvidence_within {executed : Executed}
    (ran : execEvidence engine store viewer bound queryClass = .ok executed) :
    executed.records.length ≤ queryClass.budget := by
  unfold execEvidence at ran
  obtain ⟨records, mapped, made⟩ := bind_ok.mp ran
  cases made
  rw [List.length_map, mapM_length mapped]
  exact List.length_take_le _ _

/-- A walk never holds more records than its budget. -/
theorem visitEdge_within {request : Request} {node : String} {depth : Nat} {path : String}
    {walk next : Walk} {edge : Edge} (below : walk.records.length ≤ request.budget.toNat)
    (visited : visitEdge engine.numberText store request node depth path walk edge = .ok next) :
    next.records.length ≤ request.budget.toNat := by
  unfold visitEdge at visited
  dsimp only at visited
  split at visited
  · cases visited
    exact below
  split at visited
  · cases visited
    exact below
  split at visited
  · cases visited
    exact below
  · rename_i room
    obtain ⟨record, _, rfl⟩ := map_ok.mp visited
    rw [List.length_append, List.length_singleton]
    omega

theorem expandNode_within {request : Request} {walk next : Walk} {node : String} {depth : Nat}
    {path : String} (below : walk.records.length ≤ request.budget.toNat)
    (expanded : expandNode engine.numberText engine.order store request walk node depth path =
      .ok next) : next.records.length ≤ request.budget.toNat := by
  unfold expandNode at expanded
  generalize candidateEdges engine.order store.projections.eventLinks.rows node _ _ = found
    at expanded
  obtain ⟨rows, saturated⟩ := found
  have stepped : ∀ state edge later, edge ∈ expansionOrder rows →
      state.records.length ≤ request.budget.toNat →
      visitEdge engine.numberText store request node depth path state edge = .ok later →
      later.records.length ≤ request.budget.toNat :=
    fun _ _ _ _ held step => visitEdge_within held step
  refine foldlM_invariant stepped ?_ expanded
  exact below

theorem walkQueue_within {request : Request} (fuel : Nat) {walk ended : Walk}
    (below : walk.records.length ≤ request.budget.toNat)
    (walked : walkQueue engine.numberText engine.order store request fuel walk = .ok ended) :
    ended.records.length ≤ request.budget.toNat := by
  induction fuel generalizing walk with
  | zero =>
      cases walked
      exact below
  | succ fuel ih =>
      unfold walkQueue at walked
      split at walked
      · cases walked
        exact below
      · obtain ⟨next, expanded, rest⟩ := bind_ok.mp walked
        refine ih (expandNode_within ?_ expanded) rest
        exact below

theorem execBoundNeighborhood_within {executed : Executed}
    (ran : execBoundNeighborhood engine store viewer bound queryClass = .ok executed) :
    executed.records.length ≤ queryClass.budget := by
  unfold execBoundNeighborhood at ran
  obtain ⟨found, neighborhood, rfl⟩ := map_ok.mp ran
  unfold execNeighborhood at neighborhood
  obtain ⟨walk, walked, rfl⟩ := map_ok.mp neighborhood
  rw [List.length_map]
  exact walkQueue_within _ (Nat.zero_le _) walked

theorem execLexical_within :
    (execLexical engine store viewer bound queryClass).records.length ≤ queryClass.budget := by
  unfold execLexical
  simp only [List.length_append, List.length_map, List.length_take]
  omega

/-- A vector scan never holds more records than its budget. -/
theorem scanRow_within {model origin : String} {scan next : VectorScan} {row : EventRow × String}
    (below : scan.records.length ≤ queryClass.budget)
    (scanned : scanRow engine store queryClass model origin scan row = .ok next) :
    next.records.length ≤ queryClass.budget := by
  unfold scanRow at scanned
  dsimp only at scanned
  split at scanned
  · cases scanned
    exact below
  split at scanned
  · cases scanned
    exact below
  split at scanned
  · cases scanned
    exact below
  · rename_i room
    obtain ⟨summary, _, made⟩ := bind_ok.mp scanned
    cases made
    rw [List.length_append, List.length_singleton]
    omega

theorem scanChunks_within {model origin : String} {chunk : Nat} (fuel : Nat)
    {rows : List (EventRow × String)} {scan ended : VectorScan}
    (below : scan.records.length ≤ queryClass.budget)
    (scanned : scanChunks engine store queryClass model origin chunk fuel rows scan = .ok ended) :
    ended.records.length ≤ queryClass.budget := by
  induction fuel generalizing rows scan with
  | zero =>
      cases scanned
      exact below
  | succ fuel ih =>
      unfold scanChunks at scanned
      split at scanned
      · split at scanned
        · cases scanned
          exact below
        · obtain ⟨next, chunked, rest⟩ := bind_ok.mp scanned
          refine ih ?_ rest
          exact foldlM_invariant (fun _ _ _ _ held step => scanRow_within held step) below chunked
      · cases scanned
        exact below

theorem execVector_within {executed : Executed}
    (ran : execVector engine store viewer index embedder bound queryClass = .ok executed) :
    executed.records.length ≤ queryClass.budget := by
  unfold execVector at ran
  dsimp only at ran
  split at ran
  · cases ran
    exact Nat.zero_le _
  · split at ran
    · cases ran
      exact Nat.zero_le _
    · obtain ⟨scan, scanned, rfl⟩ := map_ok.mp ran
      rw [List.length_map]
      exact scanChunks_within _ (Nat.zero_le _) scanned

theorem scanMapped_within {sections : SectionIndex} {scan : SectionScan} {anchorRef : String}
    (below : scan.records.length ≤ queryClass.budget) :
    (scanMapped queryClass sections scan anchorRef).records.length ≤ queryClass.budget := by
  unfold scanMapped
  split
  · exact below
  · rename_i room
    split
    · exact below
    · split
      · exact below
      · rw [List.length_append, List.length_singleton]
        omega

theorem scanHeading_within {sections : SectionIndex} {terms : List String} {scan : SectionScan}
    {row : DocSection} (below : scan.records.length ≤ queryClass.budget) :
    (scanHeading engine queryClass sections terms scan row).records.length ≤
      queryClass.budget := by
  unfold scanHeading
  split
  · exact below
  · rename_i room
    split
    · exact below
    · split
      · rw [List.length_append, List.length_singleton]
        omega
      · exact below

/-- A fold of steps that keep a bound keeps it. -/
theorem foldl_within {α β : Type} (size : β → Nat) {bound : Nat} {step : β → α → β}
    (keeps : ∀ state item, size state ≤ bound → size (step state item) ≤ bound)
    (items : List α) {start : β} (below : size start ≤ bound) :
    size (items.foldl step start) ≤ bound := by
  induction items generalizing start with
  | nil => exact below
  | cons item items ih => exact ih (keeps start item below)

theorem execRepositoryNormative_within :
    (execRepositoryNormative engine store viewer repository bound queryClass).records.length ≤
      queryClass.budget := by
  unfold execRepositoryNormative
  split
  · exact Nat.zero_le _
  · rename_i sections _
    have mapped : ∀ anchors : List String, (anchors.foldl (scanMapped queryClass sections)
        { records := [], seen := [], notes := [] }).records.length ≤ queryClass.budget :=
      fun anchors => foldl_within (fun scan : SectionScan => scan.records.length)
        (fun _ _ held => scanMapped_within held) anchors (Nat.zero_le _)
    dsimp only
    split
    · exact mapped _
    · exact foldl_within (fun scan : SectionScan => scan.records.length)
        (fun _ _ held => scanHeading_within held) _ (mapped _)

theorem scanPrecedents_within {anchor workRef : String} {records : List BundleRecord}
    (below : records.length ≤ queryClass.budget) :
    (scanPrecedents engine store viewer queryClass anchor records workRef).length ≤
      queryClass.budget := by
  unfold scanPrecedents
  split
  · exact below
  · simp only [List.length_append, List.length_map, List.length_take]
    omega

theorem execPrecedent_within :
    (execPrecedent engine store viewer bound queryClass).records.length ≤ queryClass.budget := by
  unfold execPrecedent
  exact foldl_within List.length (fun _ _ held => scanPrecedents_within held) _ (Nat.zero_le _)

/-- Every executor keeps to the budget of its class. -/
theorem execute_within {executed : Executed} (budgeted : 1 ≤ queryClass.budget)
    (ran : execute engine store viewer index embedder repository bound queryClass =
      .ok executed) : executed.records.length ≤ queryClass.budget := by
  unfold execute at ran
  split at ran
  · exact execAnchor_within budgeted ran
  · cases ran
    exact execStanding_within budgeted
  · cases ran
    exact execRepositoryNormative_within
  · exact execEvidence_within ran
  · exact execBoundNeighborhood_within ran
  · cases ran
    exact execPrecedent_within
  · cases ran
    exact execLexical_within
  · exact execVector_within ran

/-! ## The bundle keeps to the limit -/

/-- The records of all sections. -/
def Bundle.size (bundle : Bundle) : Nat := (bundle.sections.map (·.2.length)).sum

/-- Between two classes: every section is of a class that has run, within its budget, and no
class has two sections. -/
structure Bundle.Within (bundle : Bundle) (done : List QueryClass) : Prop where
  sections : ∀ classId records, (classId, records) ∈ bundle.sections →
    ∃ queryClass ∈ done, queryClass.classId = classId ∧ records.length ≤ queryClass.budget
  total : bundle.size ≤ (done.map (·.budget)).sum

theorem set_size (sections : Dict String (List BundleRecord)) (classId : String)
    (records : List BundleRecord) :
    ((Dict.set sections classId records).map (·.2.length)).sum ≤
      (sections.map (·.2.length)).sum + records.length := by
  induction sections with
  | nil => simp [Dict.set]
  | cons entry rest ih =>
      obtain ⟨other, held⟩ := entry
      unfold Dict.set
      split
      · simp only [List.map_cons, List.sum_cons]
        omega
      · simp only [List.map_cons, List.sum_cons]
        omega

theorem mem_set {sections : Dict String (List BundleRecord)} {classId other : String}
    {records held : List BundleRecord} (member : (other, held) ∈ Dict.set sections classId records) :
    (other, held) ∈ sections ∨ other = classId ∧ held = records := by
  induction sections with
  | nil =>
      unfold Dict.set at member
      rw [List.mem_singleton, Prod.mk.injEq] at member
      exact .inr member
  | cons entry rest ih =>
      obtain ⟨first, old⟩ := entry
      unfold Dict.set at member
      split at member
      · rcases List.mem_cons.mp member with same | later
        · exact .inr (Prod.mk.inj same)
        · exact .inl (List.mem_cons_of_mem _ later)
      · rcases List.mem_cons.mp member with same | later
        · exact .inl (same ▸ List.mem_cons_self)
        · exact (ih later).imp_left (List.mem_cons_of_mem _)

theorem Bundle.Within.more {bundle : Bundle} {done : List QueryClass}
    (within : bundle.Within done) (queryClass : QueryClass) :
    bundle.Within (done ++ [queryClass]) := by
  constructor
  · intro classId records held
    obtain ⟨other, member, named, fits⟩ := within.sections classId records held
    exact ⟨other, List.mem_append_left _ member, named, fits⟩
  · rw [List.map_append, List.sum_append]
    exact within.total.trans (Nat.le_add_right _ _)

theorem retrieveClass_within {state next : Bundle × Nat} {done : List QueryClass}
    (budgeted : 1 ≤ queryClass.budget) (within : state.1.Within done)
    (ran : retrieveClass engine store viewer index embedder repository bound state queryClass =
      .ok next) : next.1.Within (done ++ [queryClass]) ∧ next.1.plan = state.1.plan := by
  obtain ⟨bundle, total⟩ := state
  unfold retrieveClass at ran
  dsimp only at ran
  split at ran
  · cases ran
    exact ⟨⟨(within.more queryClass).sections, (within.more queryClass).total⟩, rfl⟩
  · obtain ⟨executed, execution, rest⟩ := bind_ok.mp ran
    have fits := execute_within budgeted execution
    split at rest
    · cases rest
      exact ⟨⟨(within.more queryClass).sections, (within.more queryClass).total⟩, rfl⟩
    · cases rest
      refine ⟨⟨?_, ?_⟩, rfl⟩
      · intro classId records held
        rcases mem_set held with old | ⟨rfl, rfl⟩
        · exact (within.more queryClass).sections classId records old
        · exact ⟨queryClass, List.mem_append_right _ List.mem_cons_self, rfl, fits⟩
      · refine (set_size _ _ _).trans ?_
        rw [List.map_append, List.sum_append]
        exact Nat.add_le_add within.total (fits.trans (by simp))

theorem retrieveClasses_within {classes : List QueryClass}
    (budgeted : ∀ queryClass ∈ classes, 1 ≤ queryClass.budget) {state final : Bundle × Nat}
    {done : List QueryClass} (within : state.1.Within done)
    (ran : classes.foldlM (retrieveClass engine store viewer index embedder repository bound)
      state = .ok final) : final.1.Within (done ++ classes) ∧ final.1.plan = state.1.plan := by
  induction classes generalizing state done with
  | nil =>
      cases ran
      rw [List.append_nil]
      exact ⟨within, rfl⟩
  | cons first rest ih =>
      rw [List.foldlM_cons] at ran
      obtain ⟨next, step, later⟩ := bind_ok.mp ran
      obtain ⟨kept, same⟩ := retrieveClass_within (budgeted first List.mem_cons_self) within step
      obtain ⟨whole, plan⟩ := ih (fun other member => budgeted other (List.mem_cons_of_mem _ member))
        kept later
      rw [List.append_assoc] at whole
      exact ⟨whole, plan.trans same⟩

end Ceiling

namespace Bounded

/-- An intent of free text, with a limit below nothing. -/
def intent : Intent where
  about := none
  textTerms := some "mesh"
  relationDepth := 2
  limit := -1
  fallbackPolicy := none

def engine : TextEngine where
  fits _ _ := true
  tsquery terms := terms
  collate left right := decide (left ≤ right)
  numberText number := number.text
  order := RowOrder.asWritten
  words text := [text]
  lower text := text
  holds _ _ := false
  quote text := text

def index : VectorIndex where
  indexedModel := none
  covered _ _ := 0
  embedding _ _ := none
  ranked _ _ _ := []

def repository : Repository where
  index := none
  domains := []

end Bounded

end Kawa
