import Kawa.EdgeAccount

/-!
The count of what a neighborhood withholds.  It asks for the viewer's own scopes, where the
leaves also consult the scope that stands for none, and only the first scopes of a viewer who
holds many.
-/

namespace Kawa

open Result

/-- A resolved link at the node. -/
def LinkRow.at (node : String) (link : LinkRow) : Bool :=
  link.resolved && (link.sourceRef = node || link.targetRef = node)

/-- The side of the link that the count takes a node for. -/
def LinkRow.sideAt (node : String) (link : LinkRow) : Direction :=
  if link.sourceRef = node then .out else .into

section Count

variable (store : Store) (request : Request) (node : String)

/-- The far endpoint of the link is held. -/
def heldAcross (link : LinkRow) : Bool :=
  (store.log.events.find? (link.other (link.sideAt node))).isSome

/-- Some leaf of the node matches the link. -/
def traversable (link : LinkRow) : Bool :=
  [Direction.out, Direction.into].any fun direction =>
    (scopePairs request.viewerScopes).1.any fun pair => matchesLeaf node direction pair none link

/-- The rows that the count takes in. -/
def withholds (link : LinkRow) : Bool :=
  link.at node &&
    (link.asserterScopeRef ∉ request.viewerScopes ||
      (link.otherScope (link.sideAt node)).any (· ∉ request.viewerScopes))

/-- The rows that it is meant to take in: what is held across no leaf of the node. -/
def conceals (link : LinkRow) : Bool :=
  link.at node && heldAcross store node link && !traversable request node link

/-- A link of no leaf whose far endpoint is not held, that the viewer's scopes leave out. -/
def overcounts (link : LinkRow) : Bool :=
  withholds request node link && !heldAcross store node link && !traversable request node link

/-- A link of no leaf, held across, whose scopes are all the viewer's: they are not consulted. -/
def undercounts (link : LinkRow) : Bool :=
  conceals store request node link && link.asserterScopeRef ∈ request.viewerScopes &&
    (link.otherScope (link.sideAt node)).all (· ∈ request.viewerScopes)

def countAt (counted : LinkRow → Bool) : Nat := store.projections.eventLinks.rows.countP counted

end Count

/-- The number that is withheld is the number of concealed edges, and no edge of a leaf is
counted. -/
structure ExactlyWithheld (store : Store) (request : Request) (neighborhood : Neighborhood) :
    Prop where
  count : neighborhood.withheld =
    (neighborhood.expanded.map fun node => countAt store (conceals store request node)).sum
  spared : ∀ node ∈ neighborhood.expanded, ∀ link ∈ store.projections.eventLinks,
    traversable request node link = true → withholds request node link = false

/-- What the count relies on: at expanded nodes no leaf has crossed into a scope that the viewer
was not granted, and what is absent makes up for what is not consulted. -/
structure WithheldInScope (store : Store) (request : Request) (nodes : List String) : Prop where
  granted : ∀ node ∈ nodes, ∀ link ∈ store.projections.eventLinks,
    traversable request node link = true → link.asserterScopeRef ∈ request.viewerScopes ∧
      ∀ scope ∈ link.otherScope (link.sideAt node), scope ∈ request.viewerScopes
  balanced : (nodes.map fun node => countAt store (overcounts store request node)).sum =
    (nodes.map fun node => countAt store (undercounts store request node)).sum

section Exact

variable {store : Store} {request : Request} {node : String} {link : LinkRow}

theorem traversable_at (crossed : traversable request node link = true) : link.at node = true := by
  obtain ⟨direction, _, consulted⟩ := List.any_eq_true.mp crossed
  obtain ⟨pair, _, matched⟩ := List.any_eq_true.mp consulted
  obtain ⟨near, resolved, _⟩ := matchesLeaf_iff.mp matched
  unfold LinkRow.at
  cases direction with
  | out =>
      change link.sourceRef = node at near
      simp [resolved, near]
  | into =>
      change link.targetRef = node at near
      simp [resolved, near]

/-- A link of a leaf is spared exactly when its scopes are the viewer's own. -/
theorem withholds_traversable (crossed : traversable request node link = true) :
    withholds request node link = false ↔ link.asserterScopeRef ∈ request.viewerScopes ∧
      ∀ scope ∈ link.otherScope (link.sideAt node), scope ∈ request.viewerScopes := by
  unfold withholds
  rw [traversable_at crossed]
  simp [Option.any_eq_false]

theorem spared_iff {nodes : List String} :
    (∀ node ∈ nodes, ∀ link ∈ store.projections.eventLinks,
      traversable request node link = true → withholds request node link = false) ↔
    ∀ node ∈ nodes, ∀ link ∈ store.projections.eventLinks,
      traversable request node link = true → link.asserterScopeRef ∈ request.viewerScopes ∧
        ∀ scope ∈ link.otherScope (link.sideAt node), scope ∈ request.viewerScopes :=
  forall₂_congr fun _ _ => forall₂_congr fun _ _ =>
    forall_congr' fun crossed => withholds_traversable crossed

theorem undercounts_eq : undercounts store request node link =
    (conceals store request node link && !withholds request node link) := by
  unfold undercounts conceals withholds
  cases link.at node with
  | false => rfl
  | true =>
      cases link.otherScope (link.sideAt node) with
      | none => simp [Bool.and_assoc]
      | some scope => simp [Bool.and_assoc]

theorem at_of_withholds (counted : withholds request node link = true) : link.at node = true :=
  ((Bool.and_eq_true _ _).mp counted).1

/-- Where no link of a leaf is counted, the count and the concealed links differ by what is
overcounted and what is undercounted. -/
theorem counts_balance {rows : List LinkRow}
    (spared : ∀ link ∈ rows, traversable request node link = true →
      withholds request node link = false) :
    rows.countP (withholds request node) + rows.countP (undercounts store request node) =
      rows.countP (conceals store request node) + rows.countP (overcounts store request node) := by
  induction rows with
  | nil => rfl
  | cons link rows ih =>
      have rest := ih fun other member => spared other (List.mem_cons_of_mem _ member)
      have own := spared link List.mem_cons_self
      have here := @at_of_withholds request node link
      have counted : (if withholds request node link = true then 1 else 0) +
          (if undercounts store request node link = true then 1 else 0) =
          (if conceals store request node link = true then 1 else 0) +
            (if overcounts store request node link = true then 1 else 0) := by
        rw [undercounts_eq]
        unfold overcounts conceals
        generalize withholds request node link = counted at own here ⊢
        revert own here
        cases link.at node <;> cases heldAcross store node link <;>
          cases traversable request node link <;> cases counted <;> simp
      simp only [List.countP_cons]
      omega

/-- The count over some nodes is exact where the scopes at these nodes are in order. -/
theorem exact_iff (nodes : List String) :
    ((nodes.map (withheldAt store request)).sum =
        (nodes.map fun node => countAt store (conceals store request node)).sum ∧
      ∀ node ∈ nodes, ∀ link ∈ store.projections.eventLinks,
        traversable request node link = true → withholds request node link = false) ↔
    WithheldInScope store request nodes := by
  have sums : (∀ node ∈ nodes, ∀ link ∈ store.projections.eventLinks,
        traversable request node link = true → withholds request node link = false) →
      (nodes.map (withheldAt store request)).sum +
          (nodes.map fun node => countAt store (undercounts store request node)).sum =
        (nodes.map fun node => countAt store (conceals store request node)).sum +
          (nodes.map fun node => countAt store (overcounts store request node)).sum := by
    intro spared
    rw [← List.sum_map_add, ← List.sum_map_add]
    refine congrArg List.sum (List.map_congr_left fun node member => ?_)
    exact counts_balance (spared node member)
  constructor
  · rintro ⟨count, spared⟩
    have total := sums spared
    exact ⟨spared_iff.mp spared, by omega⟩
  · rintro ⟨granted, balanced⟩
    have spared := spared_iff.mpr granted
    have total := sums spared
    exact ⟨by omega, spared⟩

end Exact

namespace PublicEdge

/-- A claim that carries no scope. -/
def claim (eventId : String) (originSeq : Int) : EventRow where
  originNode := "origin"
  originSeq := originSeq
  hlc := "5.0.origin"
  kind := .claimRecorded
  subjectRef := none
  actorRef := "actor"
  policyDigest := none
  payloadDigest := "digest"
  prevHash := none
  envelopeVersion := 1
  scopeDigest := none
  eventId := eventId
  selfHash := eventId
  scopeRef := none
  signature := none
  signingKeyRef := none
  signatureScheme := none
  recordedAt := 0
  materialized := true

def fact (eventId : String) : EventClaimRow where
  eventId := eventId
  proposition := "proposition"
  basisNote := none

/-- Two public claims and the public link from one to the other. -/
def store : Store where
  log := { events := ⟨[claim "root" 1, claim "near" 2], by decide⟩
           eventClaim := ⟨[fact "root", fact "near"], by decide⟩ }
  projections := { eventLinks := (∅ : Table LinkRow _).insertNew Shadow.publicLink }

theorem summarised (ref : String) :
    ∃ summary, summaryOf Json.Double.text store.log ref = .ok summary := by
  by_cases root : ref = "root"
  · subst root
    exact ⟨_, rfl⟩
  by_cases near : ref = "near"
  · subst near
    exact ⟨_, rfl⟩
  have absent : store.log.events.find? ref = none := by
    simp [Table.find?, store, claim, Ne.symm root, Ne.symm near]
  unfold summaryOf
  rw [absent]
  exact ⟨_, rfl⟩

theorem consulted : publicScope ∈ consultedScopes Shadow.request.viewerScopes := by
  have few : ((heldScopes Shadow.request.viewerScopes).sort (· ≤ ·)).length ≤ maxViewerScopes := by
    rw [Finset.length_sort]
    exact (Finset.card_insert_le _ _).trans (by decide)
  unfold consultedScopes
  rw [List.take_of_length_le few, Finset.mem_sort]
  exact Finset.mem_insert_self _ _

end PublicEdge

end Kawa
