import Kawa.WorkFold
import Kawa.Lib.Ranking
import Kawa.Lib.Dict

/-!
Work discovery: what a reachable participant is offered, with and without a registry of claims,
and when the offer is the first Work that it may take.
-/

namespace Kawa

open Ranking

/-! ## Claims -/

structure WorkClaim (τ : Type) where
  workRef : String
  sessionId : String
  claimedAt : τ
  expiresAt : τ

abbrev ClaimRegistry (τ : Type) := Dict String (WorkClaim τ)

section Claims

variable {τ : Type} [LinearOrder τ]

/-- The live holder of a Work; an expired claim is absent, and pruned. -/
def ClaimRegistry.holder (claims : ClaimRegistry τ) (workRef : String) (now : τ) :
    Option String × ClaimRegistry τ :=
  match Dict.get? claims workRef with
  | none => (none, claims)
  | some claim =>
      if claim.expiresAt ≤ now then (none, claims.filter fun entry => entry.1 ≠ workRef)
      else (some claim.sessionId, claims)

omit [LinearOrder τ] in
theorem get?_erased (claims : ClaimRegistry τ) (workRef other : String) :
    Dict.get? (claims.filter fun entry => entry.1 ≠ workRef) other =
      if other = workRef then none else Dict.get? claims other := by
  induction claims with
  | nil => split <;> rfl
  | cons entry claims ih =>
      obtain ⟨key, claim⟩ := entry
      by_cases gone : key = workRef
      · rw [List.filter_cons_of_neg (by simp [gone]), ih, Dict.get?_cons]
        by_cases same : other = workRef
        · rw [if_pos same, if_pos same]
        · rw [if_neg same, if_neg same, if_neg fun own => same (own.symm.trans gone)]
      · rw [List.filter_cons_of_pos (by simp [gone]), Dict.get?_cons, Dict.get?_cons, ih]
        by_cases mine : key = other
        · rw [if_pos mine, if_pos mine, if_neg fun same => gone (mine.trans same)]
        · rw [if_neg mine, if_neg mine]

/-- Pruning moves no live holder. -/
theorem holder_pruned (claims : ClaimRegistry τ) (workRef other : String) (now : τ) :
    ((claims.holder workRef now).2.holder other now).1 = (claims.holder other now).1 := by
  cases found : Dict.get? claims workRef with
  | none =>
      have kept : (claims.holder workRef now).2 = claims := by
        unfold ClaimRegistry.holder
        rw [found]
      rw [kept]
  | some claim =>
      by_cases expired : claim.expiresAt ≤ now
      · have kept : (claims.holder workRef now).2 =
            claims.filter fun entry => entry.1 ≠ workRef := by
          unfold ClaimRegistry.holder
          rw [found]
          dsimp only
          rw [if_pos expired]
        rw [kept]
        by_cases same : other = workRef
        · unfold ClaimRegistry.holder
          rw [get?_erased, if_pos same, same, found]
          dsimp only
          rw [if_pos expired]
        · unfold ClaimRegistry.holder
          rw [get?_erased, if_neg same]
          cases Dict.get? claims other with
          | none => rfl
          | some held =>
              dsimp only
              split <;> rfl
      · have kept : (claims.holder workRef now).2 = claims := by
          unfold ClaimRegistry.holder
          rw [found]
          dsimp only
          rw [if_neg expired]
        rw [kept]

end Claims

/-! ## Contracts -/

/-- What the instruction of a Work is rendered from. -/
structure RenderInput where
  workRef : String
  planRef : String
  workKind : String
  roleRequirement : Option String
  objective : Option String
  constraints : Option (List String)
  expectedObservations : Option (List String)
  planObjective : String

structure WorkContract where
  work : RenderInput
  instruction : String

structure ParticipantSession where
  sessionId : String
  authorized : Finset String

inductive DiscoveryReason
  | unreachable | unauthorized | noReadyWork | ok
deriving DecidableEq

structure Discovery where
  work : Option WorkContract
  reason : DiscoveryReason

section Discovery

variable {τ : Type} [LinearOrder τ] (store : Store) (readyAt : String → WithTop τ)
  (render : RenderInput → String)

/-- `ORDER BY w.ready_at NULLS LAST, w.work_ref` -/
def fifo (work : CurrentWork) : WithTop τ ×ₗ String := toLex (readyAt work.workRef, work.workRef)

def readyFor (role : Option String) : List CurrentWork :=
  store.projections.currentWork.rows.filter fun work =>
    work.execution = .ready ∧ role.all fun role => decide (work.roleRequirement = some role)

/-- The contract of a row that is joined with its plan; an empty list is no list. -/
def contractOf (work : CurrentWork) (plan : CurrentPlan) : WorkContract :=
  let derive := deriveOf store.log work.workRef
  let input : RenderInput :=
    { workRef := work.workRef
      planRef := work.planRef
      workKind := work.workKind
      roleRequirement := work.roleRequirement
      objective := derive.bind (·.objective)
      constraints := (derive.bind (·.constraints)).filter (· ≠ [])
      expectedObservations := (derive.bind (·.expectedObservations)).filter (· ≠ [])
      planObjective := plan.objective }
  { work := input, instruction := render input }

def planOf (work : CurrentWork) : Option CurrentPlan :=
  store.projections.currentPlans.find? work.planRef

def workNext (role : Option String) : Option WorkContract :=
  (sortBy (fun joined => fifo readyAt joined.1) ((readyFor store role).filterMap fun work =>
    (planOf store work).map fun plan => (work, plan))).head?.map fun joined =>
      contractOf store render joined.1 joined.2

/-- `_work_contract` -/
def workContract (workRef : String) : Option WorkContract :=
  ((store.projections.currentWork.find? workRef).filter (·.execution = .ready)).bind fun work =>
    (planOf store work).map (contractOf store render work)

/-- The first candidate that no other session holds. -/
def firstFree (sessionId : String) (now : τ) :
    ClaimRegistry τ → List CurrentWork → Option CurrentWork × ClaimRegistry τ
  | claims, [] => (none, claims)
  | claims, work :: rest =>
      let held := claims.holder work.workRef now
      if held.1.all (· = sessionId) then (some work, held.2)
      else firstFree sessionId now held.2 rest

/-- `_work_next_unclaimed` -/
def workNextUnclaimed (sessionId : String) (now : τ) (claims : Option (ClaimRegistry τ))
    (role : String) : Option WorkContract × Option (ClaimRegistry τ) :=
  match claims with
  | none => (workNext store readyAt render (some role), none)
  | some registry =>
      let found := firstFree sessionId now registry
        (sortBy (fifo readyAt) (readyFor store (some role)))
      (found.1.bind fun work => workContract store render work.workRef, some found.2)

/-- `sorted` -/
def sorted {κ : Type} [LinearOrder κ] (items : Finset κ) : List κ := items.sort (· ≤ ·)

omit [LinearOrder τ] in
theorem mem_sorted {κ : Type} [LinearOrder κ] {items : Finset κ} {item : κ} :
    item ∈ sorted items ↔ item ∈ items := Finset.mem_sort _

/-- The roles in order, until one of them has an offer. -/
def discoverRoles (sessionId : String) (now : τ) :
    Option (ClaimRegistry τ) → List String → Option WorkContract × Option (ClaimRegistry τ)
  | claims, [] => (none, claims)
  | claims, role :: roles =>
      let offered := workNextUnclaimed store readyAt render sessionId now claims role
      match offered.1 with
      | some contract => (some contract, offered.2)
      | none => discoverRoles sessionId now offered.2 roles

/-- The roles that a session is authorised for. -/
def ParticipantSession.roles (session : ParticipantSession) : Finset String :=
  (session.authorized.filter fun capability =>
    "role:".toList.isPrefixOf capability.toList = true).image fun capability =>
      String.ofList (capability.toList.drop "role:".length)

def workNextForParticipant [Zero τ] (registry : Dict String ParticipantSession)
    (sessionId : String) (claims : Option (ClaimRegistry τ)) (now : Option τ) :
    Discovery × Option (ClaimRegistry τ) :=
  match Dict.get? registry sessionId with
  | none => (⟨none, .unreachable⟩, claims)
  | some session =>
      let roles := session.roles
      if roles = ∅ then (⟨none, .unauthorized⟩, claims)
      else
        let readyRoles := (readyFor store none).map (·.roleRequirement)
        if readyRoles = [] then (⟨none, .noReadyWork⟩, claims)
        else if ∀ role ∈ roles, some role ∉ readyRoles then (⟨none, .unauthorized⟩, claims)
        else
          let offered := discoverRoles store readyAt render sessionId (now.getD 0) claims
            (sorted roles)
          match offered.1 with
          | some contract => (⟨some contract, .ok⟩, offered.2)
          | none => (⟨none, .noReadyWork⟩, offered.2)

end Discovery

/-! ## The first row that meets a test -/

/-- The row of the least key among those that meet the test. -/
def FirstOf {α κ : Type} [LinearOrder κ] (key : α → κ) (test : α → Prop) (row : α) : Prop :=
  test row ∧ ∀ other, test other → key row ≤ key other

theorem find?_sortBy {α κ : Type} [LinearOrder κ] {key : α → κ} {rows : List α} {test : α → Bool}
    {row : α} (found : (sortBy key rows).find? test = some row) :
    FirstOf key (fun other => other ∈ rows ∧ test other = true) row := by
  obtain ⟨met, front, back, split, unmet⟩ := List.find?_eq_some_iff_append.mp found
  have inRows : ∀ other, other ∈ rows ↔ other ∈ front ++ row :: back := fun other => by
    rw [← split, mem_sortBy]
  refine ⟨⟨(inRows row).mpr (by simp), met⟩, fun other ⟨held, otherMet⟩ => ?_⟩
  have sorted := sortBy_sorted key rows
  rw [split, List.pairwise_append, List.pairwise_cons] at sorted
  rcases List.mem_append.mp ((inRows other).mp held) with before | after
  · have fails := unmet other before
    rw [otherMet] at fails
    cases fails
  · rcases List.mem_cons.mp after with rfl | later
    · exact le_refl _
    · exact sorted.2.1.1 other later

theorem find?_sortBy_none {α κ : Type} [LinearOrder κ] {key : α → κ} {rows : List α}
    {test : α → Bool} :
    (sortBy key rows).find? test = none ↔ ∀ row ∈ rows, test row = false := by
  rw [List.find?_eq_none]
  simp only [mem_sortBy, Bool.not_eq_true]

section Offers

variable {τ : Type} [LinearOrder τ] {store : Store} {readyAt : String → WithTop τ}
  {render : RenderInput → String} {sessionId : String} {now : τ}

/-- No other session holds the Work; without a registry nobody does. -/
def Free (claims : Option (ClaimRegistry τ)) (sessionId : String) (now : τ) (work : CurrentWork) :
    Bool :=
  claims.all fun registry => (registry.holder work.workRef now).1.all (· = sessionId)

/-- A ready Work of a role that nobody else holds. -/
structure Offerable (store : Store) (claims : Option (ClaimRegistry τ)) (sessionId : String)
    (now : τ) (role : String) (work : CurrentWork) : Prop where
  held : work ∈ store.projections.currentWork
  ready : work.execution = .ready
  asks : work.roleRequirement = some role
  free : Free claims sessionId now work = true

/-- One that also has its plan. -/
def Eligible (store : Store) (claims : Option (ClaimRegistry τ)) (sessionId : String) (now : τ)
    (role : String) (work : CurrentWork) : Prop :=
  Offerable store claims sessionId now role work ∧
    ∃ plan ∈ store.projections.currentPlans, plan.planRef = work.planRef

/-- With a registry, the first free Work of the role has no plan. -/
def Hidden (store : Store) (readyAt : String → WithTop τ) (claims : Option (ClaimRegistry τ))
    (sessionId : String) (now : τ) (role : String) : Prop :=
  claims.isSome = true ∧ ∃ work,
    FirstOf (fifo readyAt) (Offerable store claims sessionId now role) work ∧
      ∀ plan ∈ store.projections.currentPlans, plan.planRef ≠ work.planRef

theorem mem_readyFor {role : String} {work : CurrentWork} :
    work ∈ readyFor store (some role) ↔ work ∈ store.projections.currentWork ∧
      work.execution = .ready ∧ work.roleRequirement = some role := by
  unfold readyFor
  rw [List.mem_filter, Table.mem_rows, decide_eq_true_iff]
  simp

theorem planOf_isSome {work : CurrentWork} : (planOf store work).isSome = true ↔
    ∃ plan ∈ store.projections.currentPlans, plan.planRef = work.planRef := by
  unfold planOf
  constructor
  · intro some
    obtain ⟨plan, found⟩ := Option.isSome_iff_exists.mp some
    obtain ⟨held, named⟩ := Table.find?_eq_some.mp found
    exact ⟨plan, held, named⟩
  · rintro ⟨plan, held, named⟩
    rw [← named, Table.find?_of_mem held]
    rfl

omit [LinearOrder τ] in
/-- Queue positions tell works apart. -/
theorem fifo_injective {left right : CurrentWork} (leftHeld : left ∈ store.projections.currentWork)
    (rightHeld : right ∈ store.projections.currentWork)
    (same : fifo readyAt left = fifo readyAt right) : left = right :=
  Table.eq_of_key leftHeld rightHeld (congrArg (fun key => (ofLex key).2) same)

theorem workContract_of_held {work : CurrentWork} (held : work ∈ store.projections.currentWork)
    (ready : work.execution = .ready) :
    workContract store render work.workRef =
      (planOf store work).map (contractOf store render work) := by
  unfold workContract
  rw [Table.find?_of_mem held, Option.filter_some, decide_eq_true ready]
  rfl

/-- Registries that name the same live holders. -/
def SameHolders (now : τ) (left right : ClaimRegistry τ) : Prop :=
  ∀ workRef, (right.holder workRef now).1 = (left.holder workRef now).1

theorem firstFree_eq {claims registry : ClaimRegistry τ} (same : SameHolders now claims registry)
    (works : List CurrentWork) :
    (firstFree sessionId now registry works).1 =
      works.find? (Free (some claims) sessionId now) ∧
    SameHolders now claims (firstFree sessionId now registry works).2 := by
  induction works generalizing registry with
  | nil => exact ⟨rfl, same⟩
  | cons work works ih =>
      have pruned : SameHolders now claims (registry.holder work.workRef now).2 := fun other =>
        (holder_pruned registry work.workRef other now).trans (same other)
      have holder : Free (some claims) sessionId now work =
          (registry.holder work.workRef now).1.all (· = sessionId) := by
        rw [same work.workRef]
        rfl
      unfold firstFree
      dsimp only
      by_cases free : (registry.holder work.workRef now).1.all (· = sessionId) = true
      · rw [if_pos free, List.find?_cons_of_pos (holder.trans free)]
        exact ⟨rfl, pruned⟩
      · rw [if_neg free, List.find?_cons_of_neg (by rw [holder]; exact free)]
        exact ih pruned

/-- The offer of a role is the contract of its first eligible Work. -/
theorem workNextUnclaimed_first {claims : Option (ClaimRegistry τ)} {role : String}
    {contract : WorkContract}
    (offered : (workNextUnclaimed store readyAt render sessionId now claims role).1 =
      some contract) :
    ∃ work plan, FirstOf (fifo readyAt) (Eligible store claims sessionId now role) work ∧
      planOf store work = some plan ∧ contract = contractOf store render work plan := by
  cases claims with
  | none =>
      unfold workNextUnclaimed workNext at offered
      dsimp only at offered
      obtain ⟨⟨work, plan⟩, head, made⟩ := Option.map_eq_some_iff.mp offered
      have found : (sortBy (fun joined : CurrentWork × CurrentPlan => fifo readyAt joined.1)
          ((readyFor store (some role)).filterMap fun work =>
            (planOf store work).map fun plan => (work, plan))).find? (fun _ => true) =
          some (work, plan) := by
        rw [← head]
        generalize sortBy (fun joined : CurrentWork × CurrentPlan => fifo readyAt joined.1)
          ((readyFor store (some role)).filterMap fun work =>
            (planOf store work).map fun plan => (work, plan)) = joined
        cases joined <;> rfl
      obtain ⟨⟨inJoin, _⟩, least⟩ := find?_sortBy found
      obtain ⟨source, inReady, joined⟩ := List.mem_filterMap.mp inJoin
      obtain ⟨own, ownPlan, same⟩ := Option.map_eq_some_iff.mp joined
      cases same
      obtain ⟨held, ready, asks⟩ := mem_readyFor.mp inReady
      refine ⟨work, plan, ⟨⟨⟨held, ready, asks, rfl⟩, planOf_isSome.mp (by rw [ownPlan]; rfl)⟩,
        fun other ⟨offerable, planned⟩ => ?_⟩, ownPlan, made.symm⟩
      obtain ⟨otherPlan, found⟩ := Option.isSome_iff_exists.mp (planOf_isSome.mpr planned)
      exact least (other, otherPlan) ⟨List.mem_filterMap.mpr ⟨other,
        mem_readyFor.mpr ⟨offerable.held, offerable.ready, offerable.asks⟩,
        by rw [found]; rfl⟩, rfl⟩
  | some registry =>
      unfold workNextUnclaimed at offered
      dsimp only at offered
      obtain ⟨work, found, contracted⟩ := Option.bind_eq_some_iff.mp offered
      rw [(firstFree_eq (fun _ => rfl) _).1] at found
      obtain ⟨⟨inReady, free⟩, least⟩ := find?_sortBy found
      obtain ⟨held, ready, asks⟩ := mem_readyFor.mp inReady
      rw [workContract_of_held held ready] at contracted
      obtain ⟨plan, planned, made⟩ := Option.map_eq_some_iff.mp contracted
      refine ⟨work, plan, ⟨⟨⟨held, ready, asks, free⟩, planOf_isSome.mp (by rw [planned]; rfl)⟩,
        fun other ⟨offerable, _⟩ => ?_⟩, planned, made.symm⟩
      exact least other ⟨mem_readyFor.mpr ⟨offerable.held, offerable.ready, offerable.asks⟩,
        offerable.free⟩

/-- A role offers something exactly where something is eligible and nothing hides it. -/
theorem workNextUnclaimed_isSome {claims : Option (ClaimRegistry τ)} {role : String} :
    (workNextUnclaimed store readyAt render sessionId now claims role).1.isSome = true ↔
      (∃ work, Eligible store claims sessionId now role work) ∧
        ¬Hidden store readyAt claims sessionId now role := by
  constructor
  · intro some
    obtain ⟨contract, offered⟩ := Option.isSome_iff_exists.mp some
    obtain ⟨work, plan, first, planned, _⟩ := workNextUnclaimed_first offered
    refine ⟨⟨work, first.1⟩, ?_⟩
    rintro ⟨registered, barrier, least, unplanned⟩
    cases claims with
    | none => cases registered
    | some registry =>
        unfold workNextUnclaimed at offered
        dsimp only at offered
        obtain ⟨taken, found, contracted⟩ := Option.bind_eq_some_iff.mp offered
        rw [(firstFree_eq (fun _ => rfl) _).1] at found
        obtain ⟨⟨inReady, free⟩, first⟩ := find?_sortBy found
        obtain ⟨held, ready, asks⟩ := mem_readyFor.mp inReady
        have position : fifo readyAt barrier = fifo readyAt taken :=
          le_antisymm (least.2 taken ⟨held, ready, asks, free⟩) (first barrier
            ⟨mem_readyFor.mpr ⟨least.1.held, least.1.ready, least.1.asks⟩, least.1.free⟩)
        have same : barrier = taken := fifo_injective least.1.held held position
        subst same
        rw [workContract_of_held held ready] at contracted
        obtain ⟨plan, planned, _⟩ := Option.map_eq_some_iff.mp contracted
        obtain ⟨held, named⟩ := Table.find?_eq_some.mp planned
        exact unplanned plan held named
  · rintro ⟨⟨work, offerable, planned⟩, unhidden⟩
    have listed := mem_readyFor.mpr ⟨offerable.held, offerable.ready, offerable.asks⟩
    cases claims with
    | none =>
        obtain ⟨plan, found⟩ := Option.isSome_iff_exists.mp (planOf_isSome.mpr planned)
        unfold workNextUnclaimed workNext
        dsimp only
        rw [Option.isSome_map, List.isSome_head?]
        have member : (work, plan) ∈ sortBy (fun joined : CurrentWork × CurrentPlan =>
            fifo readyAt joined.1) ((readyFor store (some role)).filterMap fun work =>
              (planOf store work).map fun plan => (work, plan)) :=
          mem_sortBy.mpr (List.mem_filterMap.mpr ⟨work, listed, by rw [found]; rfl⟩)
        exact List.ne_nil_of_mem member
    | some registry =>
        unfold workNextUnclaimed
        dsimp only
        rw [(firstFree_eq (fun _ => rfl) _).1]
        cases found : (sortBy (fifo readyAt) (readyFor store (some role))).find?
            (Free (some registry) sessionId now) with
        | none =>
            have taken := find?_sortBy_none.mp found work listed
            rw [offerable.free] at taken
            cases taken
        | some first =>
            obtain ⟨⟨inReady, free⟩, least⟩ := find?_sortBy found
            obtain ⟨held, ready, asks⟩ := mem_readyFor.mp inReady
            rw [Option.bind_some, workContract_of_held held ready, Option.isSome_map, planOf_isSome]
            by_contra unplanned
            refine unhidden ⟨rfl, first, ⟨⟨held, ready, asks, free⟩, fun other offerable =>
              least other ⟨mem_readyFor.mpr ⟨offerable.held, offerable.ready, offerable.asks⟩,
                offerable.free⟩⟩, fun plan inPlans named => unplanned ⟨plan, inPlans, named⟩⟩

theorem workNextUnclaimed_same {claims registry : ClaimRegistry τ}
    (same : SameHolders now claims registry) (role : String) :
    (workNextUnclaimed store readyAt render sessionId now (some registry) role).1 =
        (workNextUnclaimed store readyAt render sessionId now (some claims) role).1 ∧
      ∃ left, (workNextUnclaimed store readyAt render sessionId now (some registry) role).2 =
        some left ∧ SameHolders now claims left := by
  unfold workNextUnclaimed
  dsimp only
  obtain ⟨found, kept⟩ := @firstFree_eq _ _ sessionId now _ _ same
    (sortBy (fifo readyAt) (readyFor store (some role)))
  refine ⟨?_, _, rfl, kept⟩
  rw [found, (firstFree_eq (fun _ => rfl) _).1]

/-- What is offered is the first offer of the roles, whatever is pruned on the way. -/
theorem discoverRoles_eq (claims : Option (ClaimRegistry τ)) (roles : List String) :
    (discoverRoles store readyAt render sessionId now claims roles).1 =
      roles.findSome? fun role =>
        (workNextUnclaimed store readyAt render sessionId now claims role).1 := by
  cases claims with
  | none =>
      induction roles with
      | nil => rfl
      | cons role roles ih =>
          unfold discoverRoles
          dsimp only
          rw [List.findSome?_cons]
          cases offered : (workNextUnclaimed store readyAt render sessionId now none role).1 with
          | some contract => rfl
          | none => exact ih
  | some claims =>
      suffices general : ∀ registry, SameHolders now claims registry →
          (discoverRoles store readyAt render sessionId now (some registry) roles).1 =
            roles.findSome? fun role =>
              (workNextUnclaimed store readyAt render sessionId now (some claims) role).1 from
        general claims fun _ => rfl
      induction roles with
      | nil => exact fun _ _ => rfl
      | cons role roles ih =>
          intro registry same
          obtain ⟨offer, left, kept, sameLeft⟩ := @workNextUnclaimed_same _ _ store readyAt render
            sessionId now _ _ same role
          unfold discoverRoles
          dsimp only
          rw [List.findSome?_cons, ← offer, kept]
          cases offered : (workNextUnclaimed store readyAt render sessionId now (some registry)
              role).1 with
          | some contract => rfl
          | none => exact ih left sameLeft

end Offers

/-! ## What a participant is offered -/

section Participants

variable {τ : Type} [LinearOrder τ] [Zero τ] {store : Store} {readyAt : String → WithTop τ}
  {render : RenderInput → String} {registry : Dict String ParticipantSession}
  {session : ParticipantSession} {sessionId : String} {claims : Option (ClaimRegistry τ)}
  {now : Option τ}

/-- The first offer of the roles in order. -/
def offerOf (store : Store) (readyAt : String → WithTop τ) (render : RenderInput → String)
    (session : ParticipantSession) (sessionId : String) (claims : Option (ClaimRegistry τ))
    (now : Option τ) : Option WorkContract :=
  (sorted session.roles).findSome? fun role =>
    (workNextUnclaimed store readyAt render sessionId (now.getD 0) claims role).1

theorem offerOf_unready (unready : ∀ role ∈ session.roles,
    some role ∉ (readyFor store none).map (·.roleRequirement)) :
    offerOf store readyAt render session sessionId claims now = none := by
  unfold offerOf
  rw [List.findSome?_eq_none_iff]
  intro role listed
  cases offered : (workNextUnclaimed store readyAt render sessionId (now.getD 0) claims role).1 with
  | none => rfl
  | some contract =>
      obtain ⟨work, _, ⟨⟨offerable, _⟩, _⟩, _⟩ := workNextUnclaimed_first offered
      refine absurd (List.mem_map.mpr ⟨work, ?_, offerable.asks⟩)
        (unready role (mem_sorted.mp listed))
      unfold readyFor
      rw [List.mem_filter, decide_eq_true_iff]
      exact ⟨offerable.held, offerable.ready, rfl⟩

theorem workNextForParticipant_offer (reachable : Dict.get? registry sessionId = some session) :
    (workNextForParticipant store readyAt render registry sessionId claims now).1.work =
        offerOf store readyAt render session sessionId claims now ∧
      ((workNextForParticipant store readyAt render registry sessionId claims now).1.reason = .ok ↔
        (offerOf store readyAt render session sessionId claims now).isSome = true) := by
  unfold workNextForParticipant
  rw [reachable]
  dsimp only
  split_ifs with roleless unready apart
  · have none : offerOf store readyAt render session sessionId claims now = none :=
      offerOf_unready fun role listed => by rw [roleless] at listed; cases listed
    rw [none]
    simp
  · have none : offerOf store readyAt render session sessionId claims now = none :=
      offerOf_unready fun role _ => by rw [unready]; exact List.not_mem_nil
    rw [none]
    simp
  · rw [offerOf_unready apart]
    simp
  · rw [discoverRoles_eq]
    unfold offerOf
    cases (sorted session.roles).findSome? fun role =>
        (workNextUnclaimed store readyAt render sessionId (now.getD 0) claims role).1 with
    | none => simp
    | some contract => simp

/-- Equal offers make equal answers. -/
theorem workNextForParticipant_congr {others : Option (ClaimRegistry τ)}
    (same : offerOf store readyAt render session sessionId claims now =
      offerOf store readyAt render session sessionId others now)
    (reachable : Dict.get? registry sessionId = some session) :
    (workNextForParticipant store readyAt render registry sessionId claims now).1 =
      (workNextForParticipant store readyAt render registry sessionId others now).1 := by
  unfold offerOf at same
  unfold workNextForParticipant
  rw [reachable]
  dsimp only
  split_ifs with roleless unready apart
  · rfl
  · rfl
  · rfl
  · rw [discoverRoles_eq, discoverRoles_eq, same]
    cases (sorted session.roles).findSome? fun role =>
        (workNextUnclaimed store readyAt render sessionId (now.getD 0) others role).1 with
    | none => rfl
    | some contract => rfl

/-- The answer is `ok` exactly where something is eligible, and then it is the contract of the
first eligible Work, by role and by place in the queue. -/
structure ExactDiscovery (store : Store) (readyAt : String → WithTop τ)
    (render : RenderInput → String) (session : ParticipantSession) (sessionId : String)
    (claims : Option (ClaimRegistry τ)) (now : τ) (answer : Discovery) : Prop where
  complete : answer.reason = .ok ↔
    ∃ role ∈ session.roles, ∃ work, Eligible store claims sessionId now role work
  given : answer.reason = .ok ↔ answer.work.isSome = true
  returned : ∀ contract, answer.work = some contract → ∃ role ∈ session.roles, ∃ work plan,
    FirstOf (fifo readyAt) (Eligible store claims sessionId now role) work ∧
      planOf store work = some plan ∧ contract = contractOf store render work plan ∧
      ∀ earlier ∈ session.roles, earlier < role →
        ∀ other, ¬Eligible store claims sessionId now earlier other

/-- In the first role that has an eligible Work, the first free Work has its plan. -/
def NothingHidden (store : Store) (readyAt : String → WithTop τ) (session : ParticipantSession)
    (sessionId : String) (claims : Option (ClaimRegistry τ)) (now : τ) : Prop :=
  ∀ role ∈ session.roles, (∃ work, Eligible store claims sessionId now role work) →
    (∀ earlier ∈ session.roles, earlier < role →
      ∀ other, ¬Eligible store claims sessionId now earlier other) →
    ¬Hidden store readyAt claims sessionId now role

theorem offerOf_first {contract : WorkContract}
    (offered : offerOf store readyAt render session sessionId claims now = some contract) :
    ∃ role ∈ session.roles,
      (workNextUnclaimed store readyAt render sessionId (now.getD 0) claims role).1 =
        some contract ∧
      ∀ earlier ∈ session.roles, earlier < role →
        (workNextUnclaimed store readyAt render sessionId (now.getD 0) claims earlier).1 = none := by
  obtain ⟨front, role, back, split, own, before⟩ := List.findSome?_eq_some_iff.mp offered
  have listed : ∀ other, other ∈ session.roles ↔ other ∈ front ++ role :: back := fun other => by
    rw [← split, mem_sorted]
  have sorted : (sorted session.roles).Pairwise (· ≤ ·) := Finset.pairwise_sort _ _
  rw [split, List.pairwise_append, List.pairwise_cons] at sorted
  refine ⟨role, (listed role).mpr (by simp), own, fun earlier held below => ?_⟩
  rcases List.mem_append.mp ((listed earlier).mp held) with inFront | later
  · exact before earlier inFront
  · rcases List.mem_cons.mp later with rfl | inBack
    · exact absurd below (lt_irrefl _)
    · exact absurd (sorted.2.1.1 earlier inBack) (not_le.mpr below)

/-- Some role is the first with an eligible Work. -/
theorem first_role {roles : Finset String} {holds : String → Prop}
    (some : ∃ role ∈ roles, holds role) :
    ∃ role ∈ roles, holds role ∧ ∀ earlier ∈ roles, earlier < role → ¬holds earlier := by
  classical
  obtain ⟨role, listed, held⟩ := some
  obtain ⟨first, member, least⟩ := Finset.exists_min_image (roles.filter holds) id
    ⟨role, Finset.mem_filter.mpr ⟨listed, held⟩⟩
  obtain ⟨inRoles, own⟩ := Finset.mem_filter.mp member
  refine ⟨first, inRoles, own, fun earlier inSet below meets => ?_⟩
  exact absurd (least earlier (Finset.mem_filter.mpr ⟨inSet, meets⟩)) (not_le.mpr below)

theorem exactDiscovery_iff (reachable : Dict.get? registry sessionId = some session) :
    ExactDiscovery store readyAt render session sessionId claims (now.getD 0)
        (workNextForParticipant store readyAt render registry sessionId claims now).1 ↔
      NothingHidden store readyAt session sessionId claims (now.getD 0) := by
  obtain ⟨work, reason⟩ := @workNextForParticipant_offer _ _ _ store readyAt render registry
    session sessionId claims now reachable
  constructor
  · intro exact_ role listed eligible unearlier
    have ok := exact_.complete.mpr ⟨role, listed, eligible⟩
    obtain ⟨contract, given⟩ := Option.isSome_iff_exists.mp (exact_.given.mp ok)
    obtain ⟨first, firstListed, own, plan, ⟨eligibleFirst, _⟩, _, made, before⟩ :=
      exact_.returned contract given
    rw [work] at given
    obtain ⟨offering, offeringListed, offered, _⟩ := offerOf_first given
    obtain ⟨taken, takenPlan, ⟨eligibleTaken, _⟩, _, madeTaken⟩ := workNextUnclaimed_first offered
    -- the contract says of which role it is
    have sameRole : some first = some offering := by
      rw [← eligibleFirst.1.asks, ← eligibleTaken.1.asks]
      exact congrArg (fun contract => contract.work.roleRequirement) (made.symm.trans madeTaken)
    cases sameRole
    have here : first = role := by
      obtain ⟨some, eligible⟩ := eligible
      refine le_antisymm (not_lt.mp fun below => ?_) (not_lt.mp fun below => ?_)
      · exact before role listed below some eligible
      · exact unearlier first firstListed below own eligibleFirst
    subst here
    exact (workNextUnclaimed_isSome.mp (Option.isSome_iff_exists.mpr ⟨contract, offered⟩)).2
  · intro unhidden
    have offers : (∃ role ∈ session.roles,
        ∃ work, Eligible store claims sessionId (now.getD 0) role work) →
        (offerOf store readyAt render session sessionId claims now).isSome = true := by
      intro some
      obtain ⟨role, listed, eligible, before⟩ := first_role some
      have offered : (workNextUnclaimed store readyAt render sessionId (now.getD 0) claims
          role).1.isSome = true := workNextUnclaimed_isSome.mpr
        ⟨eligible, unhidden role listed eligible fun earlier held below other own =>
          before earlier held below ⟨other, own⟩⟩
      unfold offerOf
      rw [List.findSome?_isSome_iff]
      exact ⟨role, mem_sorted.mpr listed, offered⟩
    refine ⟨reason.trans ⟨fun some => ?_, offers⟩, reason.trans (by rw [work]), ?_⟩
    · obtain ⟨contract, offered⟩ := Option.isSome_iff_exists.mp some
      obtain ⟨role, listed, own, _⟩ := offerOf_first offered
      obtain ⟨first, _, ⟨eligible, _⟩, _⟩ := workNextUnclaimed_first own
      exact ⟨role, listed, first, eligible⟩
    · intro contract given
      rw [work] at given
      obtain ⟨role, listed, own, before⟩ := offerOf_first given
      obtain ⟨first, plan, least, planned, made⟩ := workNextUnclaimed_first own
      refine ⟨role, listed, first, plan, least, planned, made, fun earlier held below other => ?_⟩
      intro eligible
      -- the first role with an eligible Work would have offered it
      obtain ⟨least, leastListed, leastOwn, leastBefore⟩ := @first_role session.roles
        (fun role => ∃ work, Eligible store claims sessionId (now.getD 0) role work)
        ⟨earlier, held, other, eligible⟩
      have offered : (workNextUnclaimed store readyAt render sessionId (now.getD 0) claims
          least).1.isSome = true := workNextUnclaimed_isSome.mpr
        ⟨leastOwn, unhidden least leastListed leastOwn fun other held below work own =>
          leastBefore other held below ⟨work, own⟩⟩
      have beforeRole : least < role := by
        refine lt_of_le_of_lt (not_lt.mp fun under => ?_) below
        exact leastBefore earlier held under ⟨other, eligible⟩
      rw [before least leastListed beforeRole] at offered
      cases offered

omit [Zero τ] in
theorem eligible_unclaimed {role : String} {now : τ} {work : CurrentWork} :
    Eligible store (some ([] : ClaimRegistry τ)) sessionId now role work ↔
      Eligible store none sessionId now role work :=
  and_congr_left' ⟨fun own => ⟨own.held, own.ready, own.asks, rfl⟩,
    fun own => ⟨own.held, own.ready, own.asks, rfl⟩⟩

/-- Exact answers under an empty registry and under none are one answer. -/
theorem offerOf_unclaimed {now : Option τ} (reachable : Dict.get? registry sessionId = some session)
    (unhidden : NothingHidden store readyAt session sessionId (some ([] : ClaimRegistry τ))
      (now.getD 0)) :
    offerOf store readyAt render session sessionId (some ([] : ClaimRegistry τ)) now =
      offerOf store readyAt render session sessionId none now := by
  have emptied := (@exactDiscovery_iff _ _ _ store readyAt render registry session sessionId
    (some []) now reachable).mpr unhidden
  have without := (@exactDiscovery_iff _ _ _ store readyAt render registry session sessionId none
    now reachable).mpr fun _ _ _ _ hidden => by cases hidden.1
  obtain ⟨emptyWork, emptyReason⟩ := @workNextForParticipant_offer _ _ _ store readyAt render
    registry session sessionId (some []) now reachable
  obtain ⟨work, reason⟩ := @workNextForParticipant_offer _ _ _ store readyAt render registry
    session sessionId none now reachable
  have both := emptied.complete
  simp only [eligible_unclaimed] at both
  rw [← without.complete, emptyReason, reason] at both
  cases emptyOffer : offerOf store readyAt render session sessionId (some []) now with
  | none =>
      rw [emptyOffer] at both
      cases offer : offerOf store readyAt render session sessionId none now with
      | none => rfl
      | some contract =>
          rw [offer] at both
          exact absurd (both.mpr rfl) Bool.false_ne_true
  | some left =>
      rw [emptyOffer] at both emptyWork
      obtain ⟨right, offer⟩ := Option.isSome_iff_exists.mp (both.mp rfl)
      rw [offer] at work ⊢
      obtain ⟨leftRole, leftListed, leftFirst, leftPlan, leftLeast, leftPlanned, leftMade,
        leftBefore⟩ := emptied.returned left emptyWork
      obtain ⟨rightRole, rightListed, rightFirst, rightPlan, rightLeast, rightPlanned, rightMade,
        rightBefore⟩ := without.returned right work
      have sameRole : leftRole = rightRole := by
        refine le_antisymm (not_lt.mp fun below => ?_) (not_lt.mp fun below => ?_)
        · exact leftBefore rightRole rightListed below rightFirst
            (eligible_unclaimed.mpr rightLeast.1)
        · exact rightBefore leftRole leftListed below leftFirst
            (eligible_unclaimed.mp leftLeast.1)
      subst sameRole
      have position : fifo readyAt leftFirst = fifo readyAt rightFirst :=
        le_antisymm (leftLeast.2 rightFirst (eligible_unclaimed.mpr rightLeast.1))
          (rightLeast.2 leftFirst (eligible_unclaimed.mp leftLeast.1))
      have sameWork : leftFirst = rightFirst :=
        fifo_injective leftLeast.1.1.held rightLeast.1.1.held position
      subst sameWork
      rw [leftPlanned] at rightPlanned
      cases rightPlanned
      rw [leftMade, rightMade]

end Participants

/-- Discovery is exact, and an empty registry changes nothing, exactly where the first role with
an eligible Work is not led by a free Work without its plan. -/
theorem discovery_exact_iff {τ : Type} [LinearOrder τ] [Zero τ] (store : Store)
    (readyAt : String → WithTop τ) (render : RenderInput → String)
    (registry : Dict String ParticipantSession) (session : ParticipantSession) (sessionId : String)
    (claims : Option (ClaimRegistry τ)) (now : Option τ)
    (reachable : Dict.get? registry sessionId = some session) :
    (ExactDiscovery store readyAt render session sessionId claims (now.getD 0)
        (workNextForParticipant store readyAt render registry sessionId claims now).1 ∧
      (claims = some [] →
        (workNextForParticipant store readyAt render registry sessionId claims now).1 =
          (workNextForParticipant store readyAt render registry sessionId none now).1)) ↔
    NothingHidden store readyAt session sessionId claims (now.getD 0) := by
  rw [exactDiscovery_iff reachable]
  refine ⟨And.left, fun unhidden => ⟨unhidden, fun unclaimed => ?_⟩⟩
  subst unclaimed
  exact workNextForParticipant_congr (offerOf_unclaimed reachable unhidden) reachable

namespace Unplanned

def work (workRef planRef : String) : CurrentWork where
  workRef := workRef
  planRef := planRef
  workKind := "repair"
  subjectRef := none
  roleRequirement := some "builder"
  execution := .ready
  dependencyTotal := 0
  dependencySatisfied := 0
  dependencyConflicted := 0

def plan : CurrentPlan where
  planRef := "held"
  projectRef := "project"
  objective := "objective"
  rationale := none
  lifecycle := .running
  endReason := none

/-- The plan of the first Work has not replicated. -/
def store : Store where
  projections := {
    currentWork := ⟨[work "a" "awaited", work "b" "held"], by decide⟩
    currentPlans := ⟨[plan], by decide⟩ }

def session : ParticipantSession where
  sessionId := "session"
  authorized := {"role:builder"}

def registry : Dict String ParticipantSession := [("session", session)]

def readyAt : String → WithTop Nat := fun _ => ⊤

def answer (claims : Option (ClaimRegistry Nat)) : Discovery :=
  (workNextForParticipant store readyAt (·.workRef) registry "session" claims none).1

theorem roles_eq : session.roles = {"builder"} := by decide

theorem reachable : Dict.get? registry "session" = some session := rfl

theorem second_eligible (claims : Option (ClaimRegistry Nat)) (unclaimed : claims = some []) :
    Eligible store claims "session" 0 "builder" (work "b" "held") := by
  subst unclaimed
  exact ⟨⟨Table.mem_rows.mp (List.mem_cons_of_mem _ List.mem_cons_self), rfl, rfl, rfl⟩, plan,
    Table.mem_rows.mp List.mem_cons_self, rfl⟩

/-- The first Work has no plan, and the second is not offered. -/
theorem first_hides : ¬(ExactDiscovery store readyAt (·.workRef) session "session" (some []) 0
      (answer (some [])) ∧
    ((some [] : Option (ClaimRegistry Nat)) = some [] → answer (some []) = answer none)) := by
  rintro ⟨exact_, _⟩
  have unhidden := (@exactDiscovery_iff Nat _ _ store readyAt (·.workRef) registry session "session"
    (some []) none reachable).mp exact_
  refine unhidden "builder" (by rw [roles_eq]; exact Finset.mem_singleton_self _)
    ⟨_, second_eligible _ rfl⟩ ?_ ⟨rfl, work "a" "awaited",
      ⟨⟨Table.mem_rows.mp List.mem_cons_self, rfl, rfl, rfl⟩, ?_⟩, ?_⟩
  · intro earlier listed below
    rw [roles_eq, Finset.mem_singleton] at listed
    exact absurd below (by rw [listed]; exact lt_irrefl _)
  · intro other offerable
    have listed : other ∈ [work "a" "awaited", work "b" "held"] := offerable.held
    unfold fifo
    rw [Prod.Lex.toLex_le_toLex]
    refine .inr ⟨rfl, ?_⟩
    rcases List.mem_pair.mp listed with rfl | rfl <;> decide
  · intro held inPlans
    have listed : held ∈ [plan] := inPlans
    rw [List.mem_singleton.mp listed]
    decide

/-- Without a registry of claims the second Work is discovered. -/
theorem unclaimed_exact : ExactDiscovery store readyAt (·.workRef) session "session" none 0
    (answer none) :=
  ((discovery_exact_iff store readyAt (·.workRef) registry session "session" none none
    reachable).mpr fun _ _ _ _ hidden => by cases hidden.1).1

end Unplanned

end Kawa
