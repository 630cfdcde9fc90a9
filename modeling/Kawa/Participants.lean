import Kawa.Leases
import Kawa.ValidityWindow

/-!
How a participant joins.  A session is established from a credential that verifies, and what it
may do is what it asks for, a mediator has verified and the policy allows.  What a participant is
then offered never goes beyond that.
-/

namespace Kawa

open Result

/-! ## Reconciliation -/

inductive Decision
  | granted | notAdvertised | notMediated | notAuthorized
deriving DecidableEq

abbrev Mediator := Finset String → Finset String

def verifiableSetMediator (verifiable : Finset String) : Mediator :=
  fun advertised => advertised.filter (· ∈ verifiable)

structure CapabilityPolicy where
  authorized : Finset String

structure Reconciliation where
  authorized : Finset String := ∅
  decisions : Dict String Decision := []

def Reconciliation.decide (mediated : Finset String) (policy : CapabilityPolicy)
    (reconciled : Reconciliation) (capability : String) : Reconciliation :=
  if capability ∉ mediated then
    { reconciled with decisions := Dict.set reconciled.decisions capability .notMediated }
  else if capability ∉ policy.authorized then
    { reconciled with decisions := Dict.set reconciled.decisions capability .notAuthorized }
  else
    { authorized := insert capability reconciled.authorized
      decisions := Dict.set reconciled.decisions capability .granted }

/-- The advertised set is listed in the order that it is gone through. -/
def reconcile (advertised : List String) (mediator : Mediator) (policy : CapabilityPolicy) :
    Reconciliation :=
  advertised.foldl (Reconciliation.decide (mediator advertised.toFinset) policy) {}

/-! ## Establishment -/

structure ProcessIncarnation where
  incarnationId : String
  node : String
  runtime : String
  workload : String

structure Introduction where
  kind : Option String := none
  skills : List String := []
  specialization : Option String := none
  operatingConstraints : List String := []

/-- What a session is established from; `sessionId` is the fresh uuid. -/
structure Handshake where
  credential : WorkloadCredential
  incarnation : ProcessIncarnation
  issuerPubPem : String
  expectedIssuer : String
  expectedAudience : String
  now : String
  advertised : List String
  mediator : Mediator
  policy : CapabilityPolicy
  logicalAgentRef : Option String
  introduction : Option Introduction
  revoked : List String
  sessionId : String

inductive HandshakeError
  | payload (error : PayloadError)
  | keyError
deriving DecidableEq

/-- A session with what it keeps beside the part that discovery reads. -/
structure Participant where
  session : ParticipantSession
  workloadRef : Json
  runtimeRef : String
  processIncarnationRef : String
  node : String
  logicalAgentRef : Option String
  advertised : Finset String
  decisions : Dict String Decision
  introduction : Introduction

section Establishment

variable (platform : Platform) (handshake : Handshake)

def Handshake.verified : Except PayloadError Bool :=
  verifyCredential platform handshake.issuerPubPem handshake.expectedIssuer handshake.now
    handshake.revoked handshake.credential handshake.expectedAudience

def establishParticipant : Except HandshakeError (Option Participant) := do
  if !(← (handshake.verified platform).mapError .payload) then return none
  let reconciled := reconcile handshake.advertised handshake.mediator handshake.policy
  match Dict.get? handshake.credential.payload "sub" with
  | none => throw .keyError
  | some sub =>
      return some
        { session :=
            { sessionId := handshake.sessionId, authorized := reconciled.authorized }
          workloadRef := sub
          runtimeRef := handshake.incarnation.runtime
          processIncarnationRef := handshake.incarnation.incarnationId
          node := handshake.incarnation.node
          logicalAgentRef := handshake.logicalAgentRef
          advertised := handshake.advertised.toFinset
          decisions := reconciled.decisions
          introduction := handshake.introduction.getD {} }

end Establishment

/-! ## The three gates -/

section Gates

variable {mediated : Finset String} {policy : CapabilityPolicy}

/-- The first gate that stops a capability. -/
def decisionOf (mediated : Finset String) (policy : CapabilityPolicy) (capability : String) :
    Decision :=
  if capability ∉ mediated then .notMediated
  else if capability ∉ policy.authorized then .notAuthorized
  else .granted

theorem decide_decisions (reconciled : Reconciliation) (capability : String) :
    (reconciled.decide mediated policy capability).decisions =
      Dict.set reconciled.decisions capability (decisionOf mediated policy capability) := by
  unfold Reconciliation.decide decisionOf
  split_ifs <;> rfl

theorem mem_decide {reconciled : Reconciliation} {capability other : String} :
    other ∈ (reconciled.decide mediated policy capability).authorized ↔
      other ∈ reconciled.authorized ∨
        other = capability ∧ decisionOf mediated policy capability = .granted := by
  unfold Reconciliation.decide decisionOf
  split_ifs with seen allowed
  · simp only [Finset.mem_insert, and_true]
    exact Or.comm
  · simp
  · simp

theorem mem_decided {capabilities : List String} {reconciled : Reconciliation} {other : String} :
    other ∈ (capabilities.foldl (Reconciliation.decide mediated policy) reconciled).authorized ↔
      other ∈ reconciled.authorized ∨
        other ∈ capabilities ∧ decisionOf mediated policy other = .granted := by
  induction capabilities generalizing reconciled with
  | nil => simp
  | cons capability capabilities ih =>
      rw [List.foldl_cons, ih, mem_decide, List.mem_cons]
      constructor
      · rintro ((old | ⟨rfl, granted⟩) | ⟨later, granted⟩)
        · exact .inl old
        · exact .inr ⟨.inl rfl, granted⟩
        · exact .inr ⟨.inr later, granted⟩
      · rintro (old | ⟨rfl | later, granted⟩)
        · exact .inl (.inl old)
        · exact .inl (.inr ⟨rfl, granted⟩)
        · exact .inr ⟨later, granted⟩

theorem decided_get? (capabilities : List String) (reconciled : Reconciliation) (other : String) :
    Dict.get? (capabilities.foldl (Reconciliation.decide mediated policy) reconciled).decisions
        other =
      if other ∈ capabilities then some (decisionOf mediated policy other)
      else Dict.get? reconciled.decisions other := by
  induction capabilities generalizing reconciled with
  | nil => simp
  | cons capability capabilities ih =>
      rw [List.foldl_cons, ih, decide_decisions]
      by_cases later : other ∈ capabilities
      · simp [later]
      · by_cases same : other = capability
        · subst same
          simp [later]
        · simp [later, same, Dict.get?_set_ne _ _ same]

variable {advertised : List String} {mediator : Mediator}

theorem decisionOf_granted {capability : String} :
    decisionOf mediated policy capability = .granted ↔
      capability ∈ mediated ∧ capability ∈ policy.authorized := by
  unfold decisionOf
  split_ifs with seen allowed
  · simp [seen, allowed]
  · simp [allowed]
  · simp [seen]

/-- Authority is what is advertised, mediated and authorised. -/
theorem mem_reconcile {capability : String} :
    capability ∈ (reconcile advertised mediator policy).authorized ↔
      capability ∈ advertised ∧ capability ∈ mediator advertised.toFinset ∧
        capability ∈ policy.authorized := by
  unfold reconcile
  rw [mem_decided, decisionOf_granted]
  simp

/-- What is advertised has one decision, which names the first gate that stops it. -/
theorem reconcile_decision (capability : String) :
    Dict.get? (reconcile advertised mediator policy).decisions capability =
      if capability ∈ advertised then
        some (decisionOf (mediator advertised.toFinset) policy capability)
      else none := by
  unfold reconcile
  rw [decided_get?]
  rfl

end Gates

/-! ## Sessions of a run -/

/-- The participant of a handshake, and that its credential was accepted. -/
structure Introduced (platform : Platform) (handshake : Handshake) (participant : Participant) :
    Prop where
  verified : handshake.verified platform = .ok true
  session : participant.session =
    { sessionId := handshake.sessionId
      authorized := (reconcile handshake.advertised handshake.mediator
        handshake.policy).authorized }
  decisions : participant.decisions =
    (reconcile handshake.advertised handshake.mediator handshake.policy).decisions

theorem establish_introduced {platform : Platform} {handshake : Handshake}
    {participant : Participant}
    (established : establishParticipant platform handshake = .ok (some participant)) :
    Introduced platform handshake participant := by
  unfold establishParticipant at established
  obtain ⟨verified, accepted, rest⟩ := bind_ok.mp established
  rw [mapError_ok] at accepted
  cases verified with
  | false => cases rest
  | true =>
      simp only [Bool.not_true, Bool.false_eq_true, ↓reduceIte] at rest
      cases found : Dict.get? handshake.credential.payload "sub" with
      | none =>
          rw [found] at rest
          cases rest
      | some sub =>
          rw [found] at rest
          cases rest
          exact ⟨accepted, rfl, rfl⟩

section Sessions

variable {τ : Type} [LinearOrder τ] [Add τ] [Zero τ] {render : RenderInput → String}
  {start plane : Coordination τ} {past : Dealings τ}

omit [LinearOrder τ] [Add τ] [Zero τ] in
/-- The session that was registered last under an id and has not been dropped since. -/
def sessionOf : Dealings τ → String → Option ParticipantSession
  | [], _ => none
  | (.register session, _) :: past, sessionId =>
      if session.sessionId = sessionId then some session else sessionOf past sessionId
  | (.drop dropped, _) :: past, sessionId =>
      if dropped = sessionId then none else sessionOf past sessionId
  | _ :: past, sessionId => sessionOf past sessionId

theorem get?_dropped (sessions : Dict String ParticipantSession) (dropped other : String) :
    Dict.get? (sessions.filter fun entry => entry.1 ≠ dropped) other =
      if dropped = other then none else Dict.get? sessions other := by
  induction sessions with
  | nil => split <;> rfl
  | cons entry sessions ih =>
      obtain ⟨key, session⟩ := entry
      by_cases gone : key = dropped
      · rw [List.filter_cons_of_neg (by simp [gone]), ih, Dict.get?_cons, gone]
        by_cases same : dropped = other
        · rw [if_pos same, if_pos same]
        · rw [if_neg same, if_neg same, if_neg same]
      · rw [List.filter_cons_of_pos (by simp [gone]), Dict.get?_cons, Dict.get?_cons, ih]
        by_cases mine : key = other
        · rw [if_pos mine, if_pos mine, if_neg fun same => gone (mine.trans same.symm)]
        · rw [if_neg mine, if_neg mine]

/-- The registry holds the sessions that were registered and not dropped. -/
theorem Served.sessions (served : Served render start past plane) (fresh : start.sessions = [])
    (sessionId : String) : Dict.get? plane.sessions sessionId = sessionOf past sessionId := by
  induction served with
  | start =>
      rw [fresh]
      rfl
  | request served request timely ih =>
      cases request with
      | register session =>
          unfold sessionOf
          by_cases same : session.sessionId = sessionId
          · rw [if_pos same, ← same]
            exact Dict.get?_set_self _ _ _
          · rw [if_neg same, ← ih]
            exact Dict.get?_set_ne _ _ (Ne.symm same)
      | drop dropped =>
          unfold sessionOf
          rw [← ih]
          exact get?_dropped _ _ _
      | holder | claim | release | releaseSession | discover | subscribe | emit | drain
      | advance => exact ih

omit [LinearOrder τ] [Add τ] [Zero τ] in
theorem sessionOf_registered {sessionId : String} {session : ParticipantSession}
    (found : sessionOf past sessionId = some session) :
    session.sessionId = sessionId ∧ ∃ reply, (PlaneRequest.register session, reply) ∈ past := by
  induction past with
  | nil => cases found
  | cons entry past ih =>
      have earlier : sessionOf past sessionId = some session →
          session.sessionId = sessionId ∧
            ∃ reply, (PlaneRequest.register session, reply) ∈ entry :: past := fun held =>
        ⟨(ih held).1, (ih held).2.imp fun _ member => List.mem_cons_of_mem _ member⟩
      obtain ⟨request, reply⟩ := entry
      cases request with
      | register registered =>
          unfold sessionOf at found
          split_ifs at found with same
          · cases found
            exact ⟨same, reply, List.mem_cons_self⟩
          · exact earlier found
      | drop dropped =>
          unfold sessionOf at found
          split_ifs at found with gone
          exact earlier found
      | holder | claim | release | releaseSession | discover | subscribe | emit | drain
      | advance => exact earlier found

end Sessions

/-! ## Offers -/

theorem mem_roles {session : ParticipantSession} {role : String} :
    role ∈ session.roles ↔ "role:" ++ role ∈ session.authorized := by
  unfold ParticipantSession.roles
  simp only [Finset.mem_image, Finset.mem_filter]
  constructor
  · rintro ⟨capability, ⟨authorized, prefixed⟩, rfl⟩
    obtain ⟨rest, split⟩ := List.isPrefixOf_iff_prefix.mp prefixed
    have dropped : capability.toList.drop "role:".length = rest := by
      rw [← split]
      exact List.drop_left' rfl
    have whole : "role:" ++ String.ofList rest = capability := by
      rw [← String.toList_inj, String.toList_append, ← split]
      simp
    rwa [dropped, whole]
  · intro authorized
    refine ⟨"role:" ++ role, ⟨authorized, ?_⟩, ?_⟩
    · rw [List.isPrefixOf_iff_prefix, String.toList_append]
      exact List.prefix_append _ _
    · rw [← String.toList_inj, String.toList_ofList, String.toList_append]
      rfl

section Offers

variable {τ : Type} [LinearOrder τ] [Add τ] [Zero τ] {render : RenderInput → String}
  {start plane : Coordination τ} {past : Dealings τ} {platform : Platform}

/-- The Work of an offer is ready, and its role is one that the live session asked for, that the
mediator verified and that the policy allows. -/
def WithinAuthority (platform : Platform) (past : Dealings τ) (store : Store) (sessionId : String)
    (contract : WorkContract) : Prop :=
  ∃ handshake participant role,
    sessionOf past sessionId = some participant.session ∧
    establishParticipant platform handshake = .ok (some participant) ∧
    handshake.verified platform = .ok true ∧
    (∃ work ∈ store.projections.currentWork, work.workRef = contract.work.workRef ∧
      work.execution = .ready ∧ work.roleRequirement = some role) ∧
    "role:" ++ role ∈ handshake.advertised ∧
    "role:" ++ role ∈ handshake.mediator handshake.advertised.toFinset ∧
    "role:" ++ role ∈ handshake.policy.authorized ∧
    Dict.get? participant.decisions ("role:" ++ role) = some .granted

end Offers

namespace Joined

def payload : Dict String Json :=
  [("iss", .str "wl-iss:1"), ("aud", .str "kawa"), ("sub", .str "workload"),
    ("iat", .str "2026-01-01T00:00:00Z"), ("exp", .str "2026-01-01T00:05:00Z")]

/-- The participant asks for more than the mediator can verify. -/
def handshake : Handshake where
  credential := { payload := payload, signature := "pem" ++ Json.canonicalJson (.obj payload) }
  incarnation :=
    { incarnationId := "incarnation", node := "node", runtime := "runtime", workload := "workload" }
  issuerPubPem := "pem"
  expectedIssuer := "wl-iss:1"
  expectedAudience := "kawa"
  now := "2026-01-01T00:01:00Z"
  advertised := ["role:builder", "role:reviewer"]
  mediator := verifiableSetMediator {"role:builder"}
  policy := { authorized := {"role:builder", "role:reviewer"} }
  logicalAgentRef := none
  introduction := none
  revoked := []
  sessionId := "session"

theorem checks :
    CredentialChecks plainPlatform "pem" "wl-iss:1" [] handshake.credential "kawa" where
  issuer := by simp [isText, handshake, payload, Dict.get?_cons]
  audience := by simp [isText, handshake, payload, Dict.get?_cons]
  standing := rfl
  namespaced := by decide
  signed := beq_self_eq_true _

theorem window : withinWindow handshake.credential.payload handshake.now = .ok true := by
  have begun : "2026-01-01T00:00:00Z" ≤ "2026-01-01T00:01:00Z" := by decide
  have running : "2026-01-01T00:01:00Z" < "2026-01-01T00:05:00Z" := by decide
  simp [withinWindow, comparedText, handshake, payload, Dict.get?_cons, begun, running, bind,
    Except.bind, pure, Except.pure]

theorem verified : handshake.verified plainPlatform = .ok true :=
  verifyCredential_checked checks window

def participant : Participant where
  session :=
    { sessionId := "session"
      authorized := (reconcile handshake.advertised handshake.mediator
        handshake.policy).authorized }
  workloadRef := .str "workload"
  runtimeRef := "runtime"
  processIncarnationRef := "incarnation"
  node := "node"
  logicalAgentRef := none
  advertised := handshake.advertised.toFinset
  decisions := (reconcile handshake.advertised handshake.mediator handshake.policy).decisions
  introduction := {}

theorem established : establishParticipant plainPlatform handshake = .ok (some participant) := by
  unfold establishParticipant
  rw [verified]
  rfl

def start : Coordination Nat where
  store := { projections :=
    { currentWork := ⟨[Unplanned.work "b" "held"], List.nodup_singleton _⟩
      currentPlans := ⟨[Unplanned.plan], List.nodup_singleton _⟩ } }
  readyAt := fun _ => ⊤

def past : Dealings Nat := [(.register participant.session, .done)]

def plane : Coordination Nat := { start with sessions := [("session", participant.session)] }

theorem past_served : Served (·.workRef) start past plane :=
  .request .start (.register participant.session) fun _ dealt => by cases dealt

theorem roles_eq : participant.session.roles = {"builder"} := by decide

theorem offered : (offerOf plane.store plane.readyAt (·.workRef) participant.session "session"
    (some []) (some 0)).isSome = true := by
  have own : (workNextUnclaimed plane.store plane.readyAt (·.workRef) "session" 0
      (some ([] : ClaimRegistry Nat)) "builder").1.isSome = true := by
    refine workNextUnclaimed_isSome.mpr ⟨⟨Unplanned.work "b" "held",
      ⟨Table.mem_rows.mp List.mem_cons_self, rfl, rfl, rfl⟩, Unplanned.plan,
      Table.mem_rows.mp List.mem_cons_self, rfl⟩, ?_⟩
    rintro ⟨_, barrier, least, unplanned⟩
    have listed : barrier ∈ [Unplanned.work "b" "held"] := least.1.held
    rw [List.mem_singleton.mp listed] at unplanned
    exact unplanned Unplanned.plan (Table.mem_rows.mp List.mem_cons_self) rfl
  obtain ⟨contract, found⟩ := Option.isSome_iff_exists.mp own
  unfold offerOf
  rw [roles_eq, sorted, Finset.sort_singleton, List.findSome?_cons, Option.getD_some, found]
  rfl

end Joined

end Kawa
