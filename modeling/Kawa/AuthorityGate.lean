import Kawa.Authority
import Kawa.Stream

/-!
The gates that exercise authority through valid receipts: the policy fence, and the
lineage of established policies.
-/

namespace Kawa

inductive GateError
  | refused (reason : String)
  | store (error : StoreError)
deriving DecidableEq

def liftStore {α : Type} (result : Except StoreError α) : Except GateError α :=
  result.mapError .store

section Gate

variable (platform : Platform)

/-- The verifier's chain source: every materialized configuration event of the log. -/
def loadProofStore (log : Log) : Except StoreError AuthorityProofStore := do
  let held := log.events.rows.filter fun row =>
    row.kind = .authorityConfiguration ∧ row.materialized
  let cfgs ← held.mapM fun row => loadAuthorityConfiguration platform log row.eventId
  return AuthorityProofStore.empty.addAll cfgs

/-- A receipt is usable only as a held, materialized event. -/
def loadReceipt (log : Log) (receiptEventId : String) :
    Except StoreError (Option AuthorityReceipt) :=
  if log.events.rows.any fun row =>
      row.eventId = receiptEventId ∧ row.kind = .authorityReceipt ∧ row.materialized then
    some <$> loadAuthorityReceipt log receiptEventId
  else .ok none

/-- `SELECT … FROM policy_lineage WHERE superseded_by IS NULL`. -/
def SecurityPlane.lineageHeads (security : SecurityPlane) : List PolicyLineageRow :=
  security.policyLineage.rows.filter (·.supersededBy = none)

def currentPolicyDigest (security : SecurityPlane) : Except GateError (Option String) :=
  match security.lineageHeads with
  | [] => .ok none
  | [row] => .ok (some row.policyDigest)
  | _ => .error (.refused "policy_lineage_conflict")

def Standing.lower : Standing → String
  | valid => "valid"
  | invalid => "invalid"
  | incomplete => "incomplete"

/-- The shared gate over a loaded receipt: the policy fence, the statement, the verdict. -/
def exercise (keys : PublicKeyRegistry) (trust : TrustRegistry) (store : Store)
    (receipt : AuthorityReceipt) (authorityKey expectedOperationDigest : String) :
    Except GateError AuthorityReceipt := do
  if receipt.authorityKey ≠ authorityKey then
    throw (.refused "receipt_wrong_key")
  if receipt.policyDigest ≠ (← currentPolicyDigest store.security) then
    throw (.refused "policy_superseded")
  if receipt.operationDigest ≠ expectedOperationDigest then
    throw (.refused "receipt_operation_mismatch")
  let proofStore ← liftStore (loadProofStore platform store.log)
  let standing := verifyReceipt platform keys proofStore receipt (some trust)
  if standing ≠ .valid then
    throw (.refused ("receipt_" ++ standing.lower))
  return receipt

/-- `UPDATE policy_lineage SET superseded_by`, raising unless it met exactly one row. -/
def supersede (security : SecurityPlane) (prior policyDigest : String) :
    Except GateError SecurityPlane :=
  let current : PolicyLineageRow → Bool := fun row =>
    row.policyDigest = prior ∧ row.supersededBy = none
  if (security.policyLineage.rows.filter current).length ≠ 1 then
    .error (.refused "policy_lineage_races")
  else .ok { security with
    policyLineage := security.policyLineage.update current
      (fun row => { row with supersededBy := some policyDigest }) fun _ => rfl }

/-- Supersede the prior head, where there is one. -/
def supersedeHead (security : SecurityPlane) (prior : Option String) (policyDigest : String) :
    Except GateError SecurityPlane :=
  match prior with
  | none => .ok security
  | some prior => supersede security prior policyDigest

/-- `INSERT … ON CONFLICT (policy_digest) DO NOTHING`, under the single-head index. -/
def insertLineage (security : SecurityPlane) (row : PolicyLineageRow) :
    Except GateError SecurityPlane :=
  if security.policyLineage.holds row.policyDigest then .ok security
  else if !security.lineageHeads.isEmpty then .error (.store .uniqueViolation)
  else .ok { security with policyLineage := security.policyLineage.insertNew row }

/-- The receipt that authorizes one establishment, exercised. -/
def exercisePolicy (keys : PublicKeyRegistry) (trust : TrustRegistry) (store : Store)
    (policyDigest : String) (prior : Option String) (receiptEventId : String) :
    Except GateError AuthorityReceipt := do
  let op := if prior = none then "policy.establish" else "policy.supersede"
  match ← liftStore (loadReceipt store.log receiptEventId) with
  | none => .error (.refused "receipt_incomplete")
  | some receipt =>
      exercise platform keys trust store receipt policyKey
        (policyOperationDigest platform op policyDigest prior receipt.configurationDigest)

/-- Establish a bundle under a receipt, superseding the current head. -/
def establishPolicy (keys : PublicKeyRegistry) (trust : TrustRegistry) (store : Store)
    (canonicalBundle receiptEventId : String) : Except GateError (Store × String) := do
  let policyDigest := digest platform (.str canonicalBundle)
  let prior ← currentPolicyDigest store.security
  if prior = some policyDigest then return (store, policyDigest)
  else
    let _ ← exercisePolicy platform keys trust store policyDigest prior receiptEventId
    let superseded ← supersedeHead store.security prior policyDigest
    liftStore (require (storableTexts [canonicalBundle, receiptEventId]) .unstorableText)
    let security ← insertLineage superseded {
      policyDigest := policyDigest
      canonicalBundle := canonicalBundle
      establishedReceiptDigest := receiptEventId
      priorPolicyDigest := prior
      supersededBy := none }
    return ({ store with security := security }, policyDigest)

/-- The order in which an unordered SELECT over the evidence rows returns them. -/
structure EvidenceScan where
  order : List ForkEvidence → List ForkEvidence
  perm : ∀ rows, (order rows).Perm rows

/-- The arguments of one `resolve_fork`. -/
structure Resolution where
  scan : EvidenceScan
  keys : PublicKeyRegistry
  trust : TrustRegistry
  originNode : String
  originSeq : Int
  chosenHead : String
  receiptEventId : String
  reason : String

/-- Is this the evidence of the fork point that is resolved? -/
def Resolution.concerns (resolution : Resolution) (row : ForkEvidence) : Bool :=
  decide (row.originNode = resolution.originNode ∧ row.originSeq = resolution.originSeq)

/-- The receipt, exercised for exactly this fork point and this head. -/
def authorizeFork (store : Store) (resolution : Resolution) :
    Except GateError AuthorityReceipt := do
  match ← liftStore (loadReceipt store.log resolution.receiptEventId) with
  | none => .error (.refused "receipt_incomplete")
  | some receipt =>
      let policy ← currentPolicyDigest store.security
      exercise platform resolution.keys resolution.trust store receipt forkResolutionKey
        (forkResolutionOperationDigest platform resolution.originNode resolution.originSeq
          resolution.chosenHead receipt.configurationDigest policy)

/-- The evidence rows one by one; a revocation already made stays when a later row refuses. -/
def resolveRows (resolution : Resolution) :
    TrustRegistry → List ForkEvidence → TrustRegistry × Option GateError
  | trust, [] => (trust, none)
  | trust, row :: rows =>
      if !row.frozen then
        if row.chosenHead = some resolution.chosenHead ∧
            row.resolvedBy = some resolution.receiptEventId then
          resolveRows resolution trust rows
        else (trust, some (.refused "fork_already_resolved"))
      else if resolution.chosenHead ≠ row.heldEventId then
        (trust, some (.refused "rival_adoption_deferred"))
      else
        match row.rivalKeyRef with
        | some key => resolveRows resolution (trust.revoke key (some resolution.originSeq)) rows
        | none => resolveRows resolution trust rows

/-- `UPDATE security_fork_evidence SET frozen=false … WHERE … AND frozen`. -/
def releaseFork (store : Store) (resolution : Resolution) : Except StoreError Store := do
  require (storableTexts [resolution.receiptEventId, resolution.chosenHead, resolution.reason])
    .unstorableText
  return { store with
    security := { store.security with
      forkEvidence := store.security.forkEvidence.update
        (fun row => resolution.concerns row && row.frozen)
        (fun row => { row with
          frozen := false
          resolvedBy := some resolution.receiptEventId
          chosenHead := some resolution.chosenHead
          reason := some resolution.reason })
        fun _ => rfl } }

/-- Release a frozen fork under a receipt; the registry is the caller's object. -/
def resolveFork (store : Store) (resolution : Resolution) :
    TrustRegistry × Except GateError Store :=
  let rows := resolution.scan.order (store.security.forkEvidence.rows.filter resolution.concerns)
  if !storableText resolution.originNode then (resolution.trust, .error (.store .unstorableText))
  else if rows = [] then (resolution.trust, .error (.refused "no_fork_evidence"))
  else
    match authorizeFork platform store resolution with
    | .error error => (resolution.trust, .error error)
    | .ok _ =>
        match resolveRows resolution resolution.trust rows with
        | (trust, some error) => (trust, .error error)
        | (trust, none) => (trust, liftStore (releaseFork store resolution))

end Gate

end Kawa
