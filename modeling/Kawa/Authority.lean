import Kawa.Trust

/-!
The authority core: configurations, proven succession and the three-state receipt
verifier.  Everything is judged over an explicit proof store and key registry.
-/

namespace Kawa

inductive Standing
  | valid | invalid | incomplete
deriving DecidableEq, Repr

def forkResolutionKey : String := "authority:fork-resolution"

def policyKey : String := "authority:policy"

/-! ## Canonical coordinates -/

/-- The body of a configuration, its members in sorted order. -/
def configurationCoordinate (cfg : AuthorityConfiguration) : Json :=
  .obj [("authority_key", .str cfg.authorityKey),
    ("authority_epoch", .int cfg.authorityEpoch),
    ("members", textList (cfg.members.insertionSort (· ≤ ·))),
    ("quorum", .int cfg.quorum),
    ("prior_configuration_digest", optionalText cfg.priorConfigurationDigest)]

section Digests

variable (platform : Platform)

/-- The content address of one configuration. -/
def configurationCoordinateDigest (cfg : AuthorityConfiguration) : String :=
  digest platform (configurationCoordinate cfg)

def forkResolutionOperationDigest (originNode : String) (originSeq : Int)
    (chosenHead configurationDigest : String) (policyDigest : Option String) : String :=
  digest platform (.obj [("op", .str "fork.resolve"),
    ("origin_node", .str originNode),
    ("origin_seq", .int originSeq),
    ("chosen_head", .str chosenHead),
    ("configuration_digest", .str configurationDigest),
    ("policy_digest", optionalText policyDigest)])

def policyOperationDigest (op policyDigest : String) (priorPolicyDigest : Option String)
    (configurationDigest : String) : String :=
  digest platform (.obj [("op", .str op),
    ("policy_digest", .str policyDigest),
    ("prior_policy_digest", optionalText priorPolicyDigest),
    ("configuration_digest", .str configurationDigest)])

end Digests

/-! ## Proofs: an accountable signer set with its signatures -/

def proofDocument (statement : String) (credentials : List NodeCredential) : Json :=
  .obj [("signer_set", .arr (credentials.map fun c => .str c.signingKeyRef)),
    ("signatures", .arr (credentials.map fun c => .str (c.sign statement)))]

def makeProof (statement : String) (credentials : List NodeCredential) : String :=
  Json.canonicalJson (proofDocument statement credentials)

/-- `proof[key]`, where it is a list. -/
def proofList (proof : Json) (key : String) : Option (List Json) :=
  match proof with
  | .obj members =>
      match Dict.get? members key with
      | some (.arr items) => some items
      | _ => none
  | _ => none

/-- The key of one `(key_ref, signature)` pair that counts. -/
def countedSigner (platform : Platform) (statement : String) (allowed : List String)
    (keys : PublicKeyRegistry) : Json × Json → Option String
  | (.str keyRef, .str signature) =>
      if keyRef ∈ allowed ∧
          resolveAndVerifyProvenance platform statement signature keyRef "ed25519" keys then
        some keyRef
      else none
  | _ => none

/-- The distinct allowed signers whose signature verifies; `none` for a proof that is
not conforming. -/
def validSigners (platform : Platform) (proofJson : Option String) (statement : String)
    (allowed : List String) (keys : PublicKeyRegistry) : Option (Finset String) := do
  let text ← proofJson
  if text = "" then none
  let proof ← Json.loads platform.readFloat text
  let signerSet ← proofList proof "signer_set"
  let signatures ← proofList proof "signatures"
  if signerSet.length ≠ signatures.length then none
  return ((signerSet.zip signatures).filterMap
    (countedSigner platform statement allowed keys)).toFinset

/-! ## The proof store -/

/-- The configurations a node holds, keyed by `configuration_digest`. -/
abbrev AuthorityProofStore := Dict String AuthorityConfiguration

namespace AuthorityProofStore

def empty : AuthorityProofStore := []

def add (store : AuthorityProofStore) (cfg : AuthorityConfiguration) : AuthorityProofStore :=
  store.set cfg.configurationDigest cfg

def addAll (store : AuthorityProofStore) (cfgs : List AuthorityConfiguration) :
    AuthorityProofStore :=
  cfgs.foldl add store

def genesisOf (store : AuthorityProofStore) (authorityKey : String) :
    List AuthorityConfiguration :=
  store.values.filter fun c =>
    c.authorityKey = authorityKey ∧ c.priorConfigurationDigest = none

def successorsOf (store : AuthorityProofStore) (configurationDigest : String) :
    List AuthorityConfiguration :=
  store.values.filter fun c => c.priorConfigurationDigest = some configurationDigest

end AuthorityProofStore

/-! ## Configuration standing -/

section Standing

variable (platform : Platform) (keys : PublicKeyRegistry)

/-- The digest is the canonical coordinate of the body, and the quorum is sane. -/
def bound (cfg : AuthorityConfiguration) (configurationDigest : String) : Bool :=
  if ¬ cfg.members.Nodup then false
  else
    configurationCoordinateDigest platform cfg == configurationDigest &&
      decide (1 ≤ cfg.quorum ∧ cfg.quorum ≤ cfg.members.length)

/-- Bound, member-preserving, epoch-consecutive, with a genuine parent-quorum proof. -/
def faciallyValidSuccessor (cfg parent : AuthorityConfiguration) : Bool :=
  if !bound platform cfg cfg.configurationDigest then false
  else if cfg.members.insertionSort (· ≤ ·) ≠ parent.members.insertionSort (· ≤ ·) then false
  else if cfg.authorityEpoch ≠ parent.authorityEpoch + 1 then false
  else
    match validSigners platform cfg.successionProof cfg.configurationDigest parent.members keys with
    | none => false
    | some signers => decide (parent.quorum ≤ signers.card)

/-- Bound, epoch 0, signed by all its members. -/
def faciallyValidGenesis (cfg : AuthorityConfiguration) : Bool :=
  if !bound platform cfg cfg.configurationDigest ∨ cfg.authorityEpoch ≠ 0 then false
  else
    match validSigners platform cfg.successionProof cfg.configurationDigest cfg.members keys with
    | none => false
    | some signers => decide (signers = cfg.members.toFinset)

/-- The facially valid successors that the store holds of one configuration. -/
def rivalSuccessors (store : AuthorityProofStore) (head : AuthorityConfiguration) :
    List AuthorityConfiguration :=
  (store.successorsOf head.configurationDigest).filter (faciallyValidSuccessor platform keys · head)

def rivalGenesis (store : AuthorityProofStore) (authorityKey : String) :
    List AuthorityConfiguration :=
  (store.genesisOf authorityKey).filter (faciallyValidGenesis platform keys)

/-- The path from a configuration up to its genesis, root first; `none` is out of fuel. -/
def ancestry (store : AuthorityProofStore) :
    Nat → String → List String → Option (Except Standing (List String))
  | 0, _, _ => none
  | fuel + 1, cursor, onPath =>
      if cursor ∈ onPath then some (.error .invalid)
      else
        match store.get? cursor with
        | none => some (.error .incomplete)
        | some cfg =>
            match cfg.priorConfigurationDigest with
            | none => some (.ok (cursor :: onPath))
            | some prior => ancestry store fuel prior (cursor :: onPath)

/-- One link of a lineage: facially valid, and without a facially valid rival. -/
def soundLink (store : AuthorityProofStore) (cfg : AuthorityConfiguration) : Bool :=
  match cfg.priorConfigurationDigest with
  | none => faciallyValidGenesis platform keys cfg &&
      decide ((rivalGenesis platform keys store cfg.authorityKey).length ≤ 1)
  | some prior =>
      match store.get? prior with
      | none => false
      | some parent => faciallyValidSuccessor platform keys cfg parent &&
          decide ((rivalSuccessors platform keys store parent).length ≤ 1)

/-- Lineage standing of one configuration: its own binding and proof and its whole ancestry. -/
def verifyConfiguration (store : AuthorityProofStore) (configurationDigest : String) : Standing :=
  match ancestry store (store.length + 1) configurationDigest [] with
  | none => .invalid
  | some (.error standing) => standing
  | some (.ok path) =>
      if path.all fun configurationDigest =>
          (store.get? configurationDigest).any (soundLink platform keys store) then .valid
      else .invalid

/-- Follow the unique facially valid successors from `head`; `none` is out of fuel. -/
def walkSuccessors (store : AuthorityProofStore) :
    Nat → AuthorityConfiguration → List String → Option (Standing × Option AuthorityConfiguration)
  | 0, _, _ => none
  | fuel + 1, head, seen =>
      match rivalSuccessors platform keys store head with
      | [] => some (.valid, some head)
      | next :: rest =>
          if next.configurationDigest ∈ seen then some (.invalid, none)
          else if rest ≠ [] then some (.invalid, none)
          else walkSuccessors store fuel next (next.configurationDigest :: seen)

/-- The unique valid head of the unique valid chain of a key. -/
def currentConfiguration (store : AuthorityProofStore) (authorityKey : String) :
    Standing × Option AuthorityConfiguration :=
  match rivalGenesis platform keys store authorityKey with
  | [] =>
      if store.values.any (·.authorityKey = authorityKey) then (.incomplete, none)
      else (.invalid, none)
  | [head] =>
      (walkSuccessors platform keys store (store.length + 1) head
        [head.configurationDigest]).getD (.invalid, none)
  | _ => (.invalid, none)

/-- The signers that count towards a new exercise, at current trust where it is given. -/
def trustedSigners (trust : Option TrustRegistry) (signers : Finset String) : Finset String :=
  match trust with
  | none => signers
  | some trust => signers.filter fun key => trust.standing key none = .active

/-- May this receipt exercise authority now? -/
def verifyReceipt (store : AuthorityProofStore) (receipt : AuthorityReceipt)
    (trust : Option TrustRegistry) : Standing :=
  match store.get? receipt.configurationDigest with
  | none => .incomplete
  | some cfg =>
      if cfg.authorityKey ≠ receipt.authorityKey then .invalid
      else if cfg.authorityEpoch ≠ receipt.authorityEpoch then .invalid
      else
        match currentConfiguration platform keys store receipt.authorityKey with
        | (.incomplete, _) => .incomplete
        | (.invalid, _) => .invalid
        | (.valid, none) => .invalid
        | (.valid, some current) =>
            if current.configurationDigest ≠ receipt.configurationDigest then .invalid
            else
              match validSigners platform (some receipt.quorumProof) receipt.operationDigest
                  cfg.members keys with
              | none => .invalid
              | some signers =>
                  if ((trustedSigners trust signers).card : Int) < cfg.quorum then .invalid
                  else .valid

end Standing

end Kawa
