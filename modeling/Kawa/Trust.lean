import Kawa.Events

/-!
Provenance and trust, the two axes of admission: whether a signature belongs to a
key, and whether that key is trusted at an event's position.
-/

namespace Kawa

/-- A replaceable signing profile. -/
structure NodeCredential where
  nodeRef : String
  signingKeyRef : String
  signatureScheme : String
  sign : String → String

/-- `signing_key_ref → public_pem`. -/
abbrev PublicKeyRegistry := Dict String String

/-- True iff the signature over `contentHash` verifies under the key. -/
def verifyProvenance (platform : Platform) (contentHash signature publicPem scheme : String) :
    Bool :=
  if scheme ≠ "ed25519" then false else platform.verifyPem publicPem signature contentHash

/-- Resolve the key by its reference, then verify; an unknown reference fails. -/
def resolveAndVerifyProvenance (platform : Platform)
    (contentHash signature signingKeyRef scheme : String) (registry : PublicKeyRegistry) : Bool :=
  match registry.get? signingKeyRef with
  | none => false
  | some pem => verifyProvenance platform contentHash signature pem scheme

inductive TrustStanding
  | active | rotated | revoked | unknown
deriving DecidableEq, Repr

def TrustStanding.value : TrustStanding → String
  | active => "active"
  | rotated => "rotated"
  | revoked => "revoked"
  | unknown => "unknown"

structure TrustEntry where
  nodeRef : String
  standing : TrustStanding
  incarnationRef : String
  revokedFromSeq : Option Int
  priorStanding : Option TrustStanding
deriving DecidableEq

/-- An incarnation belongs to one node; a succeeded one records its parent. -/
structure Incarnation where
  nodeRef : String
  parent : Option String
deriving DecidableEq

/-- The keys a node trusts, the scopes it grants to each node, and the incarnations. -/
structure TrustRegistry where
  keys : Dict String TrustEntry
  grants : Dict String (List String)
  incarnations : Dict String Incarnation := []
deriving DecidableEq

namespace TrustRegistry

variable (trust : TrustRegistry)

/-- The standing of a key, judged at `atSeq` where one is given. -/
def standing (keyRef : String) (atSeq : Option Int) : TrustStanding :=
  match trust.keys.get? keyRef with
  | none => .unknown
  | some entry =>
      match atSeq, entry.revokedFromSeq with
      | some seq, some fromSeq =>
          if entry.standing = .revoked ∧ seq < fromSeq then entry.priorStanding.getD .revoked
          else entry.standing
      | _, _ => entry.standing

def incarnationRef (keyRef : String) : Option String :=
  (trust.keys.get? keyRef).map (·.incarnationRef)

def nodeRef (keyRef : String) : Option String := (trust.keys.get? keyRef).map (·.nodeRef)

def scopeGrants (nodeRef : String) : List String := (trust.grants.get? nodeRef).getD []

/-- Withdraw trust from a key; `fromSeq` scopes the revocation to a fork point. -/
def revoke (keyRef : String) (fromSeq : Option Int) : TrustRegistry :=
  match trust.keys.get? keyRef with
  | none => trust
  | some entry =>
      let revised :=
        if entry.standing ≠ .revoked then
          match fromSeq with
          | some seq =>
              { entry with
                revokedFromSeq := some seq
                priorStanding := some entry.standing
                standing := .revoked }
          | none => { entry with standing := .revoked }
        else
          match fromSeq with
          | some _ => entry
          | none => { entry with revokedFromSeq := none, priorStanding := none }
      { trust with keys := trust.keys.set keyRef revised }

/-! ## Membership -/

/-- `setdefault` on the incarnations. -/
def mintIncarnation (incarnationRef : String) (incarnation : Incarnation) : TrustRegistry :=
  match trust.incarnations.get? incarnationRef with
  | some _ => trust
  | none =>
      { trust with incarnations := trust.incarnations.set incarnationRef incarnation }

def bindKey (keyRef nodeRef incarnationRef : String) : TrustRegistry :=
  let entry : TrustEntry :=
    { nodeRef := nodeRef
      standing := .active
      incarnationRef := incarnationRef
      revokedFromSeq := none
      priorStanding := none }
  { trust with keys := trust.keys.set keyRef entry }

def grantScope (nodeRef scopeRef : String) : TrustRegistry :=
  let granted := trust.scopeGrants nodeRef
  let widened := if scopeRef ∈ granted then granted else granted ++ [scopeRef]
  { trust with grants := trust.grants.set nodeRef widened }

/-- Stops future payload flow; a payload once materialized stays. -/
def revokeScope (nodeRef scopeRef : String) : TrustRegistry :=
  let granted := trust.scopeGrants nodeRef
  if scopeRef ∈ granted then
    { trust with grants := trust.grants.set nodeRef (granted.erase scopeRef) }
  else trust

end TrustRegistry

/-- The incarnation of a node that never declared one. -/
def genesisIncarnation (nodeRef : String) : String := "inc:" ++ nodeRef ++ ":genesis"

/-- `incarnation_ref or genesis_incarnation(node_ref)`. -/
def declaredIncarnation (nodeRef : String) (incarnationRef : Option String) : String :=
  match incarnationRef with
  | some "" => genesisIncarnation nodeRef
  | some incarnationRef => incarnationRef
  | none => genesisIncarnation nodeRef

/-- An entry of the flat file format, which names no incarnation. -/
structure LegacyEntry where
  nodeRef : String
  standing : TrustStanding

namespace TrustRegistry

/-- `__init__` on a flat file: every key is attributed to the genesis of its node. -/
def ofLegacy (flat : Dict String LegacyEntry) : TrustRegistry :=
  let attributed : TrustRegistry :=
    { keys := flat.map fun pair => (pair.1,
        { nodeRef := pair.2.nodeRef
          standing := pair.2.standing
          incarnationRef := genesisIncarnation pair.2.nodeRef
          revokedFromSeq := none
          priorStanding := none })
      grants := [] }
  flat.foldl (fun trust pair => trust.mintIncarnation (genesisIncarnation pair.2.nodeRef)
    { nodeRef := pair.2.nodeRef, parent := none }) attributed

end TrustRegistry

/-- What an operation on the registry raises. -/
inductive TrustError
  | enrollRevoked
  | boundElsewhere (nodeRef : String)
  | incarnationElsewhere (incarnationRef nodeRef : String)
  | keyNotFresh
  | succeedRevoked
  | unknownParent (incarnationRef : String)
  | parentElsewhere (nodeRef : String)
  | incarnationExists (incarnationRef : String)
  | rotateToRevoked
  | rotateFromRevoked
deriving DecidableEq

/-- Operations keep what they have written when they raise. -/
abbrev TrustM := EStateM TrustError TrustRegistry Unit

namespace TrustRegistry

/-- A key binds to exactly one node. -/
def requireUnboundOrSame (nodeRef keyRef : String) : TrustM := do
  match (← get).keys.get? keyRef with
  | none => pure ()
  | some existing =>
      if existing.nodeRef ≠ nodeRef then throw (.boundElsewhere existing.nodeRef)

def enroll (nodeRef keyRef : String) (incarnationRef : Option String) (scopes : List String) :
    TrustM := do
  if (← get).standing keyRef none = .revoked then throw .enrollRevoked
  requireUnboundOrSame nodeRef keyRef
  let inc := declaredIncarnation nodeRef incarnationRef
  match (← get).incarnations.get? inc with
  | none => pure ()
  | some existing =>
      if existing.nodeRef ≠ nodeRef then throw (.incarnationElsewhere inc existing.nodeRef)
  modify fun trust => trust.mintIncarnation inc { nodeRef := nodeRef, parent := none }
  modify fun trust => trust.bindKey keyRef nodeRef inc
  modify fun trust => scopes.foldl (fun trust scope => trust.grantScope nodeRef scope) trust

/-- Start a new incarnation of a node, on a fresh key and with its parent recorded. -/
def succeedIncarnation (nodeRef parentIncarnation newIncarnation newKeyRef : String) :
    TrustM := do
  if ((← get).keys.get? newKeyRef).isSome then throw .keyNotFresh
  if (← get).standing newKeyRef none = .revoked then throw .succeedRevoked
  match (← get).incarnations.get? parentIncarnation with
  | none => throw (.unknownParent parentIncarnation)
  | some parent =>
      if parent.nodeRef ≠ nodeRef then throw (.parentElsewhere parent.nodeRef)
  if ((← get).incarnations.get? newIncarnation).isSome then
    throw (.incarnationExists newIncarnation)
  let incarnation : Incarnation := { nodeRef := nodeRef, parent := some parentIncarnation }
  modify fun trust =>
    { trust with incarnations := trust.incarnations.set newIncarnation incarnation }
  modify fun trust => trust.bindKey newKeyRef nodeRef newIncarnation

/-- The superseded key is `rotated`, unless it was no longer active. -/
def retire (trust : TrustRegistry) (keyRef : String) : TrustRegistry :=
  match trust.keys.get? keyRef with
  | none => trust
  | some old =>
      if old.standing = .active then
        { trust with keys := trust.keys.set keyRef { old with standing := .rotated } }
      else trust

/-- The incarnation that a rotation continues. -/
def continuedIncarnation (trust : TrustRegistry) (nodeRef oldKeyRef : String) : String :=
  (trust.incarnationRef oldKeyRef).getD (genesisIncarnation nodeRef)

def rotate (nodeRef oldKeyRef newKeyRef : String) : TrustM := do
  if (← get).standing newKeyRef none = .revoked then throw .rotateToRevoked
  if (← get).standing oldKeyRef none = .revoked then throw .rotateFromRevoked
  requireUnboundOrSame nodeRef oldKeyRef
  requireUnboundOrSame nodeRef newKeyRef
  modify fun trust => trust.retire oldKeyRef
  let inc := (← get).continuedIncarnation nodeRef oldKeyRef
  modify fun trust => trust.mintIncarnation inc { nodeRef := nodeRef, parent := none }
  modify fun trust => trust.bindKey newKeyRef nodeRef inc

end TrustRegistry

structure Evaluation where
  provenanceValid : Bool
  trustStanding : TrustStanding

/-- Provenance and trust of one signature, kept apart. -/
def evaluate (platform : Platform) (contentHash signature signingKeyRef scheme : String)
    (keys : PublicKeyRegistry) (trust : TrustRegistry) (atSeq : Option Int) : Evaluation :=
  { provenanceValid :=
      resolveAndVerifyProvenance platform contentHash signature signingKeyRef scheme keys
    trustStanding := trust.standing signingKeyRef atSeq }

/-- Accept only a valid signature under an active key. -/
def admits (evaluation : Evaluation) : Bool :=
  evaluation.provenanceValid && evaluation.trustStanding == .active

theorem admits_iff (evaluation : Evaluation) :
    admits evaluation = true ↔
      evaluation.provenanceValid = true ∧ evaluation.trustStanding = .active := by
  simp [admits]

end Kawa
