import Kawa.Authority
import Kawa.Lib.Runs

/-!
A superseded configuration stays superseded for as long as the store still files a
facially valid successor of it; `AuthorityProofStore.add` replaces an entry without
looking at it, so a later configuration can displace the successor.
-/

namespace Kawa

variable {platform : Platform} {keys : PublicKeyRegistry}

/-! ## Configurations that share a digest -/

theorem bound_iff (cfg : AuthorityConfiguration) (configurationDigest : String) :
    bound platform cfg configurationDigest = true ↔
      configurationCoordinateDigest platform cfg = configurationDigest ∧
        1 ≤ cfg.quorum ∧ cfg.quorum ≤ cfg.members.length := by
  simp [bound, cfg.uniqueMembers]

theorem configurationCoordinate_wellKeyed (cfg : AuthorityConfiguration) :
    (configurationCoordinate cfg).WellKeyed := by
  refine ⟨?_, trivial, trivial, textList_wellKeyed _, trivial, optionalText_wellKeyed _, trivial⟩
  simp

/-- The body of a configuration that its digest commits to. -/
structure SameBody (left right : AuthorityConfiguration) : Prop where
  authorityKey : left.authorityKey = right.authorityKey
  authorityEpoch : left.authorityEpoch = right.authorityEpoch
  members : left.members.insertionSort (· ≤ ·) = right.members.insertionSort (· ≤ ·)
  quorum : left.quorum = right.quorum
  prior : left.priorConfigurationDigest = right.priorConfigurationDigest

theorem SameBody.symm {left right : AuthorityConfiguration} (same : SameBody left right) :
    SameBody right left :=
  ⟨same.authorityKey.symm, same.authorityEpoch.symm, same.members.symm, same.quorum.symm,
    same.prior.symm⟩

theorem SameBody.mem_iff {left right : AuthorityConfiguration} (same : SameBody left right)
    (key : String) : key ∈ left.members ↔ key ∈ right.members := by
  rw [← List.mem_insertionSort (r := (· ≤ ·)), same.members, List.mem_insertionSort]

theorem sameBody_of_bound (collisionFree : CollisionFree platform)
    {left right : AuthorityConfiguration} {configurationDigest : String}
    (leftBound : bound platform left configurationDigest = true)
    (rightBound : bound platform right configurationDigest = true) : SameBody left right := by
  have digests : configurationCoordinateDigest platform left =
      configurationCoordinateDigest platform right := by
    rw [((bound_iff _ _).mp leftBound).1, ((bound_iff _ _).mp rightBound).1]
  have sorted := digest_injective collisionFree (configurationCoordinate_wellKeyed left)
    (configurationCoordinate_wellKeyed right) digests
  have members := Json.members_eq_of_sortKeys sorted rfl (by simp)
  simp only [Json.sortMembers, Json.sortKeys, textList_sortKeys, optionalText_sortKeys,
    List.cons.injEq, Prod.mk.injEq, true_and, Json.str.injEq, Json.int.injEq, and_true] at members
  obtain ⟨key, epoch, sortedMembers, quorum, prior⟩ := members
  exact ⟨key, epoch, textList_injective sortedMembers, quorum, optionalText_injective prior⟩

/-! ## Facial validity depends on the parent's body only -/

theorem validSigners_congr {left right : List String} (same : ∀ key, key ∈ left ↔ key ∈ right)
    (proof : Option String) (statement : String) :
    validSigners platform proof statement left keys =
      validSigners platform proof statement right keys := by
  have counted : countedSigner platform statement left keys =
      countedSigner platform statement right keys := by
    funext pair
    unfold countedSigner
    split <;> simp only [same]
  simp only [validSigners, counted]

theorem faciallyValidSuccessor_bound {cfg parent : AuthorityConfiguration}
    (facial : faciallyValidSuccessor platform keys cfg parent = true) :
    bound platform cfg cfg.configurationDigest = true := by
  unfold faciallyValidSuccessor at facial
  split at facial
  · exact absurd facial (by simp)
  · rename_i isBound
    simpa using isBound

theorem faciallyValidGenesis_bound {cfg : AuthorityConfiguration}
    (facial : faciallyValidGenesis platform keys cfg = true) :
    bound platform cfg cfg.configurationDigest = true := by
  unfold faciallyValidGenesis at facial
  split at facial
  · exact absurd facial (by simp)
  · rename_i checked
    simp only [Bool.not_eq_true', not_or, Bool.not_eq_false] at checked
    exact checked.1

theorem faciallyValidSuccessor_congr {left right : AuthorityConfiguration}
    (same : SameBody left right) (cfg : AuthorityConfiguration) :
    faciallyValidSuccessor platform keys cfg left =
      faciallyValidSuccessor platform keys cfg right := by
  unfold faciallyValidSuccessor
  rw [same.members, same.authorityEpoch, same.quorum, validSigners_congr same.mem_iff]

/-! ## Proofs that credentials have made -/

/-- Does this credential's own signature over the statement count? -/
def signs (platform : Platform) (keys : PublicKeyRegistry) (statement : String)
    (allowed : List String) (credential : NodeCredential) : Bool :=
  decide (credential.signingKeyRef ∈ allowed) &&
    resolveAndVerifyProvenance platform statement (credential.sign statement)
      credential.signingKeyRef "ed25519" keys

theorem makeProof_ne_empty (statement : String) (credentials : List NodeCredential) :
    makeProof statement credentials ≠ "" := by
  intro empty
  obtain ⟨c, tail, printed, _⟩ := Json.print_head (proofDocument statement credentials).sortKeys
  have chars := congrArg String.toList empty
  rw [makeProof, Json.canonicalJson, String.toList_ofList, printed] at chars
  simp at chars

theorem proofDocument_wellKeyed (statement : String) (credentials : List NodeCredential) :
    (proofDocument statement credentials).WellKeyed := by
  have refs := textList_wellKeyed (credentials.map (·.signingKeyRef))
  have signatures := textList_wellKeyed (credentials.map (·.sign statement))
  simp only [textList, List.map_map] at refs signatures
  exact ⟨by simp, refs, signatures, trivial⟩

theorem proofDocument_sortKeys (statement : String) (credentials : List NodeCredential) :
    (proofDocument statement credentials).sortKeys =
      .obj [("signatures", textList (credentials.map (·.sign statement))),
        ("signer_set", textList (credentials.map (·.signingKeyRef)))] := by
  have lists : ∀ texts : List String, Json.sortItems (texts.map .str) = texts.map .str := by
    intro texts
    exact Json.arr.inj (textList_sortKeys texts)
  have order : ¬ "signer_set" ≤ "signatures" := by decide
  have refs := lists (credentials.map (·.signingKeyRef))
  have signatures := lists (credentials.map (·.sign statement))
  simp only [List.map_map] at refs signatures
  simp only [proofDocument, Json.sortKeys, Json.sortMembers, textList, List.map_map,
    List.insertionSort_cons, List.insertionSort_nil, List.orderedInsert, order, ↓reduceIte]
  rw [← refs, ← signatures]
  rfl

theorem countedSigners_makeProof (statement : String) (credentials : List NodeCredential)
    (allowed : List String) :
    ((credentials.map fun c => Json.str c.signingKeyRef).zip
      (credentials.map fun c => Json.str (c.sign statement))).filterMap
        (countedSigner platform statement allowed keys) =
      (credentials.filter (signs platform keys statement allowed)).map (·.signingKeyRef) := by
  induction credentials with
  | nil => rfl
  | cons credential credentials ih =>
      simp only [List.map_cons, List.zip_cons_cons, List.filterMap_cons, List.filter_cons, ih,
        countedSigner]
      by_cases counts : signs platform keys statement allowed credential = true
      · have both := counts
        simp only [signs, Bool.and_eq_true, decide_eq_true_eq] at both
        simp [counts, both]
      · have neither := counts
        simp only [signs, Bool.and_eq_true, decide_eq_true_eq] at neither
        simp [counts, neither]

/-- The signers of a made proof are those whose signature counts. -/
theorem validSigners_makeProof (doubles : Json.ReadsDoubles platform.readFloat)
    (statement : String) (credentials : List NodeCredential) (allowed : List String) :
    validSigners platform (some (makeProof statement credentials)) statement allowed keys =
      some (((credentials.filter (signs platform keys statement allowed)).map
        (·.signingKeyRef)).toFinset) := by
  have read : Json.loads platform.readFloat (makeProof statement credentials) =
      some (proofDocument statement credentials).sortKeys :=
    Json.loads_canonicalJson doubles (proofDocument_wellKeyed statement credentials)
  simp only [validSigners, Option.bind_eq_bind, Option.bind_some, makeProof_ne_empty, ↓reduceIte,
    read, proofDocument_sortKeys, proofList, textList, Dict.get?_cons]
  simp [← countedSigners_makeProof, Function.comp_def]

/-! ## Where the walk over successors ends -/

theorem mem_rivalSuccessors {store : AuthorityProofStore} {head cfg : AuthorityConfiguration} :
    cfg ∈ rivalSuccessors platform keys store head ↔
      cfg ∈ store.values ∧ cfg.priorConfigurationDigest = some head.configurationDigest ∧
        faciallyValidSuccessor platform keys cfg head = true := by
  simp only [rivalSuccessors, AuthorityProofStore.successorsOf, List.mem_filter, decide_eq_true_eq,
    and_assoc]

/-- A walk that ends with a head ends at a bound configuration without a successor. -/
theorem walkSuccessors_head {store : AuthorityProofStore} {fuel : Nat}
    {head current : AuthorityConfiguration} {seen : List String}
    (headBound : bound platform head head.configurationDigest = true)
    (walked : walkSuccessors platform keys store fuel head seen = some (.valid, some current)) :
    bound platform current current.configurationDigest = true ∧
      rivalSuccessors platform keys store current = [] := by
  induction fuel generalizing head seen with
  | zero => simp [walkSuccessors] at walked
  | succ fuel ih =>
      unfold walkSuccessors at walked
      cases rivals : rivalSuccessors platform keys store head with
      | nil =>
          simp only [rivals, Option.some.injEq, Prod.mk.injEq, true_and] at walked
          exact walked ▸ ⟨headBound, rivals⟩
      | cons next rest =>
          have member : next ∈ rivalSuccessors platform keys store head := by simp [rivals]
          simp only [rivals] at walked
          by_cases repeated : next.configurationDigest ∈ seen
          · simp [repeated] at walked
          by_cases several : rest = []
          · simp only [repeated, several, ne_eq, not_true_eq_false, ↓reduceIte] at walked
            exact ih (faciallyValidSuccessor_bound (mem_rivalSuccessors.mp member).2.2) walked
          · simp [repeated, several] at walked

theorem currentConfiguration_head {store : AuthorityProofStore} {authorityKey : String}
    {current : AuthorityConfiguration}
    (found : currentConfiguration platform keys store authorityKey = (.valid, some current)) :
    bound platform current current.configurationDigest = true ∧
      rivalSuccessors platform keys store current = [] := by
  unfold currentConfiguration at found
  split at found
  · split at found <;> simp at found
  · rename_i head genesis
    have facial : faciallyValidGenesis platform keys head = true := by
      have member : head ∈ rivalGenesis platform keys store authorityKey := by simp [genesis]
      exact (List.mem_filter.mp member).2
    cases walked : walkSuccessors platform keys store (store.length + 1) head
        [head.configurationDigest] with
    | none => simp [walked] at found
    | some result =>
        simp only [walked, Option.getD_some] at found
        exact walkSuccessors_head (faciallyValidGenesis_bound facial) (found ▸ walked)
  · simp at found

theorem verifyReceipt_valid {store : AuthorityProofStore} {receipt : AuthorityReceipt}
    {trust : Option TrustRegistry}
    (accepted : verifyReceipt platform keys store receipt trust = .valid) :
    ∃ current, currentConfiguration platform keys store receipt.authorityKey =
        (.valid, some current) ∧
      current.configurationDigest = receipt.configurationDigest := by
  unfold verifyReceipt at accepted
  split at accepted
  · simp at accepted
  · split_ifs at accepted
    split at accepted
    · simp at accepted
    · simp at accepted
    · simp at accepted
    · rename_i current found
      split_ifs at accepted with different
      exact ⟨current, found, not_not.mp different⟩

/-! ## The walk always ends within its fuel -/

/-- Every entry is filed under its own digest. -/
structure Filed (store : AuthorityProofStore) : Prop where
  distinct : store.Distinct
  underDigest : ∀ entry ∈ store, entry.1 = entry.2.configurationDigest

theorem filed_add {store : AuthorityProofStore} (filed : Filed store)
    (cfg : AuthorityConfiguration) : Filed (store.add cfg) := by
  refine ⟨Dict.distinct_set filed.distinct _ _, ?_⟩
  rintro ⟨key, held⟩ member
  rcases (Dict.mem_set_iff filed.distinct).mp member with ⟨rfl, rfl⟩ | ⟨_, old⟩
  · rfl
  · exact filed.underDigest _ old

theorem filed_addAll {store : AuthorityProofStore} (filed : Filed store)
    (cfgs : List AuthorityConfiguration) : Filed (store.addAll cfgs) := by
  induction cfgs generalizing store with
  | nil => exact filed
  | cons cfg cfgs ih => exact ih (filed_add filed cfg)

theorem filed_empty : Filed AuthorityProofStore.empty :=
  ⟨List.nodup_nil, by simp [AuthorityProofStore.empty]⟩

/-- A walk ends that sees no digest twice and has a step for every configuration held. -/
theorem walkSuccessors_ends {store : AuthorityProofStore} {fuel : Nat}
    {head : AuthorityConfiguration} {seen : List String}
    (fresh : seen.Nodup) (held : seen ⊆ store.values.map (·.configurationDigest))
    (enough : store.length < fuel + seen.length) :
    (walkSuccessors platform keys store fuel head seen).isSome := by
  induction fuel generalizing head seen with
  | zero =>
      have short : seen.length ≤ store.length := by
        simpa [Dict.values] using (List.subperm_of_subset fresh held).length_le
      omega
  | succ fuel ih =>
      unfold walkSuccessors
      cases rivals : rivalSuccessors platform keys store head with
      | nil => rfl
      | cons next rest =>
          dsimp only
          split_ifs with repeated several
          · rfl
          · rfl
          · have member : next ∈ rivalSuccessors platform keys store head := by simp [rivals]
            refine ih (List.nodup_cons.mpr ⟨repeated, fresh⟩) ?_ (by simp; omega)
            rw [List.cons_subset]
            exact ⟨List.mem_map_of_mem (mem_rivalSuccessors.mp member).1, held⟩

/-! ## No resurrection -/

/-- `next` is a facially valid successor of `parent`, which is bound to its own digest. -/
structure Supersedes (platform : Platform) (keys : PublicKeyRegistry)
    (next parent : AuthorityConfiguration) : Prop where
  parentBound : bound platform parent parent.configurationDigest = true
  prior : next.priorConfigurationDigest = some parent.configurationDigest
  facial : faciallyValidSuccessor platform keys next parent = true

/-- Some successor of `parent` is filed under `filedUnder`. -/
def HoldsSuccessor (platform : Platform) (keys : PublicKeyRegistry) (store : AuthorityProofStore)
    (filedUnder : String) (parent : AuthorityConfiguration) : Prop :=
  ∃ next, store.get? filedUnder = some next ∧ Supersedes platform keys next parent

theorem holdsSuccessor_add {store : AuthorityProofStore} {filedUnder : String}
    {parent added : AuthorityConfiguration}
    (holds : HoldsSuccessor platform keys store filedUnder parent)
    (keeps : added.configurationDigest = filedUnder → Supersedes platform keys added parent) :
    HoldsSuccessor platform keys (store.add added) filedUnder parent := by
  obtain ⟨next, held, supersedes⟩ := holds
  by_cases same : added.configurationDigest = filedUnder
  · exact ⟨added, by rw [AuthorityProofStore.add, same, Dict.get?_set_self], keeps same⟩
  · refine ⟨next, ?_, supersedes⟩
    rw [AuthorityProofStore.add, Dict.get?_set_ne _ _ (Ne.symm same), held]

theorem holdsSuccessor_addAll {store : AuthorityProofStore} {filedUnder : String}
    {parent : AuthorityConfiguration} {later : List AuthorityConfiguration}
    (holds : HoldsSuccessor platform keys store filedUnder parent)
    (keeps : ∀ added ∈ later,
      added.configurationDigest = filedUnder → Supersedes platform keys added parent) :
    HoldsSuccessor platform keys (store.addAll later) filedUnder parent := by
  induction later generalizing store with
  | nil => exact holds
  | cons added later ih =>
      exact ih (holdsSuccessor_add holds (keeps added List.mem_cons_self))
        fun cfg member => keeps cfg (List.mem_cons_of_mem _ member)

/-- While a successor is held, no receipt under its parent exercises. -/
theorem verifyReceipt_of_holdsSuccessor (collisionFree : CollisionFree platform)
    {store : AuthorityProofStore} {filedUnder : String} {parent : AuthorityConfiguration}
    (holds : HoldsSuccessor platform keys store filedUnder parent) {receipt : AuthorityReceipt}
    (issued : receipt.configurationDigest = parent.configurationDigest)
    (trust : Option TrustRegistry) :
    verifyReceipt platform keys store receipt trust ≠ .valid := by
  intro accepted
  obtain ⟨current, found, named⟩ := verifyReceipt_valid accepted
  obtain ⟨currentBound, ended⟩ := currentConfiguration_head found
  obtain ⟨next, held, supersedes⟩ := holds
  have digests : current.configurationDigest = parent.configurationDigest := named.trans issued
  have sameBody : SameBody current parent :=
    sameBody_of_bound collisionFree currentBound (digests ▸ supersedes.parentBound)
  have rival : next ∈ rivalSuccessors platform keys store current := by
    refine mem_rivalSuccessors.mpr ⟨List.mem_map_of_mem (Dict.mem_of_get? held), ?_, ?_⟩
    · rw [supersedes.prior, digests]
    · rw [faciallyValidSuccessor_congr sameBody]
      exact supersedes.facial
  simp [ended] at rival

/-- Once `next` has been added, a receipt under the configuration it supersedes stays
refused, as long as every later configuration filed under the same digest supersedes it too. -/
theorem superseded_never_exercises (collisionFree : CollisionFree platform)
    {parent next : AuthorityConfiguration} (supersedes : Supersedes platform keys next parent)
    (before later : List AuthorityConfiguration)
    (keeps : ∀ added ∈ later, added.configurationDigest = next.configurationDigest →
      Supersedes platform keys added parent)
    (receipt : AuthorityReceipt)
    (issued : receipt.configurationDigest = parent.configurationDigest)
    (trust : Option TrustRegistry) :
    verifyReceipt platform keys
      (AuthorityProofStore.empty.addAll (before ++ next :: later)) receipt trust ≠ .valid := by
  have holds : HoldsSuccessor platform keys
      (AuthorityProofStore.empty.addAll (before ++ next :: later))
      next.configurationDigest parent := by
    rw [AuthorityProofStore.addAll, List.foldl_append, List.foldl_cons]
    exact holdsSuccessor_addAll ⟨next, Dict.get?_set_self _ _ _, supersedes⟩ keeps
  exact verifyReceipt_of_holdsSuccessor collisionFree holds issued trust

/-! ## A successor displaced -/

/-- A configuration with one member and quorum 1, signed by that member. -/
def soleConfiguration (platform : Platform) (authorityKey : String) (epoch : Int)
    (prior : Option String) (member : NodeCredential) : AuthorityConfiguration :=
  let body : AuthorityConfiguration :=
    { authorityKey := authorityKey
      configurationDigest := ""
      authorityEpoch := epoch
      members := [member.signingKeyRef]
      quorum := 1
      priorConfigurationDigest := prior
      successionProof := none
      uniqueMembers := List.nodup_singleton _ }
  let configurationDigest := configurationCoordinateDigest platform body
  { body with
    configurationDigest := configurationDigest
    successionProof := some (makeProof configurationDigest [member]) }

section Sole

variable (authorityKey : String) (epoch : Int) (prior : Option String) (member : NodeCredential)

theorem soleConfiguration_bound :
    bound platform (soleConfiguration platform authorityKey epoch prior member)
      (soleConfiguration platform authorityKey epoch prior member).configurationDigest = true := by
  rw [bound_iff]
  refine ⟨rfl, ?_, ?_⟩ <;> simp [soleConfiguration]

variable {member}

theorem validSigners_sole (doubles : Json.ReadsDoubles platform.readFloat) {statement : String}
    (accepted : signs platform keys statement [member.signingKeyRef] member = true) :
    validSigners platform (some (makeProof statement [member])) statement
      [member.signingKeyRef] keys = some {member.signingKeyRef} := by
  rw [validSigners_makeProof doubles]
  simp [accepted]

theorem soleGenesis_facial (doubles : Json.ReadsDoubles platform.readFloat)
    (accepted : ∀ statement, signs platform keys statement [member.signingKeyRef] member = true) :
    faciallyValidGenesis platform keys
      (soleConfiguration platform authorityKey 0 none member) = true := by
  have signers := validSigners_sole doubles
    (accepted (soleConfiguration platform authorityKey 0 none member).configurationDigest)
  unfold faciallyValidGenesis
  rw [soleConfiguration_bound]
  simp only [soleConfiguration] at signers ⊢
  simp [signers]

theorem soleSuccessor_facial (doubles : Json.ReadsDoubles platform.readFloat)
    (accepted : ∀ statement, signs platform keys statement [member.signingKeyRef] member = true) :
    Supersedes platform keys
      (soleConfiguration platform authorityKey (epoch + 1) (some
        (soleConfiguration platform authorityKey epoch prior member).configurationDigest) member)
      (soleConfiguration platform authorityKey epoch prior member) := by
  refine ⟨soleConfiguration_bound _ _ _ _, rfl, ?_⟩
  have signers := validSigners_sole doubles (accepted (soleConfiguration platform authorityKey
    (epoch + 1) (some (soleConfiguration platform authorityKey epoch prior
      member).configurationDigest) member).configurationDigest)
  unfold faciallyValidSuccessor
  rw [soleConfiguration_bound]
  simp only [soleConfiguration] at signers ⊢
  simp [signers]

end Sole

/-- The same body without its proof: anyone can assert it. -/
def unproven (cfg : AuthorityConfiguration) : AuthorityConfiguration :=
  { cfg with successionProof := none }

theorem unproven_not_facial (cfg parent : AuthorityConfiguration) :
    faciallyValidSuccessor platform keys (unproven cfg) parent = false := by
  unfold faciallyValidSuccessor
  split_ifs <;> simp [unproven, validSigners]

/-- A later configuration takes the place of the one filed under the same digest. -/
theorem addAll_displaced {first second third : AuthorityConfiguration}
    (differ : first.configurationDigest ≠ second.configurationDigest)
    (same : third.configurationDigest = second.configurationDigest) :
    AuthorityProofStore.empty.addAll [first, second, third] =
      [(first.configurationDigest, first), (second.configurationDigest, third)] := by
  simp [AuthorityProofStore.addAll, AuthorityProofStore.add, AuthorityProofStore.empty, Dict.set,
    same, differ]

/-- With an unproven successor in the store, the founding configuration is current. -/
theorem currentConfiguration_unproven {founding next : AuthorityConfiguration}
    {filedUnder : String} (genesis : faciallyValidGenesis platform keys founding = true)
    (foundingPrior : founding.priorConfigurationDigest = none)
    (nextPrior : next.priorConfigurationDigest = some founding.configurationDigest) :
    currentConfiguration platform keys [(founding.configurationDigest, founding),
      (filedUnder, unproven next)] founding.authorityKey = (.valid, some founding) := by
  have unprovenPrior : (unproven next).priorConfigurationDigest =
      some founding.configurationDigest := nextPrior
  simp [currentConfiguration, rivalGenesis, AuthorityProofStore.genesisOf, Dict.values,
    foundingPrior, unprovenPrior, genesis, walkSuccessors, rivalSuccessors,
    AuthorityProofStore.successorsOf, unproven_not_facial]

/-- A receipt under the current configuration, signed by a quorum of it, exercises. -/
theorem verifyReceipt_current {store : AuthorityProofStore} {cfg : AuthorityConfiguration}
    {receipt : AuthorityReceipt} {signers : Finset String} {trust : Option TrustRegistry}
    (held : store.get? receipt.configurationDigest = some cfg)
    (authorityKey : cfg.authorityKey = receipt.authorityKey)
    (authorityEpoch : cfg.authorityEpoch = receipt.authorityEpoch)
    (current : currentConfiguration platform keys store receipt.authorityKey = (.valid, some cfg))
    (issued : cfg.configurationDigest = receipt.configurationDigest)
    (signed : validSigners platform (some receipt.quorumProof) receipt.operationDigest
      cfg.members keys = some signers)
    (quorum : cfg.quorum ≤ (trustedSigners trust signers).card) :
    verifyReceipt platform keys store receipt trust = .valid := by
  unfold verifyReceipt
  simp only [held, authorityKey, authorityEpoch, current, issued, signed, ne_eq,
    not_true_eq_false, ↓reduceIte, not_lt.mpr quorum]

namespace Displaced

def member : NodeCredential where
  nodeRef := "node"
  signingKeyRef := "key"
  signatureScheme := "ed25519"
  sign statement := "pem" ++ statement

def memberKeys : PublicKeyRegistry := [("key", "pem")]

def founding : AuthorityConfiguration :=
  soleConfiguration plainPlatform policyKey 0 none member

def successor : AuthorityConfiguration :=
  soleConfiguration plainPlatform policyKey 1 (some founding.configurationDigest) member

def receipt : AuthorityReceipt where
  authorityKey := policyKey
  operationDigest := "operation"
  configurationDigest := founding.configurationDigest
  authorityEpoch := 0
  priorAuthorityReceiptDigest := none
  policyDigest := none
  quorumProof := makeProof "operation" [member]

theorem receipt_issued : receipt.configurationDigest = founding.configurationDigest := rfl

theorem member_signs (statement : String) :
    signs plainPlatform memberKeys statement [member.signingKeyRef] member = true := by
  simp [signs, resolveAndVerifyProvenance, verifyProvenance, memberKeys, member, plainPlatform,
    Dict.get?_cons]

theorem successor_supersedes : Supersedes plainPlatform memberKeys successor founding :=
  soleSuccessor_facial policyKey 0 none plainPlatform_readsDoubles member_signs

theorem founding_genesis : faciallyValidGenesis plainPlatform memberKeys founding = true :=
  soleGenesis_facial policyKey plainPlatform_readsDoubles member_signs

theorem digests_differ : founding.configurationDigest ≠ successor.configurationDigest := by
  intro same
  have moved : bound plainPlatform successor founding.configurationDigest = true := by
    rw [same]
    exact faciallyValidSuccessor_bound successor_supersedes.facial
  have body := sameBody_of_bound plainPlatform_collisionFree successor_supersedes.parentBound moved
  exact absurd (show (0 : Int) = 1 from body.authorityEpoch) (by decide)

theorem store_displaced :
    AuthorityProofStore.empty.addAll [founding, successor, unproven successor] =
      [(founding.configurationDigest, founding),
        (successor.configurationDigest, unproven successor)] :=
  addAll_displaced digests_differ rfl

/-- The successor is held, then a copy of it without a proof replaces it, and a receipt
under the superseded configuration exercises again. -/
theorem receipt_exercises_again :
    Supersedes plainPlatform memberKeys successor founding ∧
      (AuthorityProofStore.empty.addAll [founding, successor]).get?
        successor.configurationDigest = some successor ∧
      receipt.configurationDigest = founding.configurationDigest ∧
      verifyReceipt plainPlatform memberKeys
        (AuthorityProofStore.empty.addAll [founding, successor]) receipt none ≠ .valid ∧
      verifyReceipt plainPlatform memberKeys
        (AuthorityProofStore.empty.addAll [founding, successor, unproven successor])
        receipt none = .valid := by
  have held : (AuthorityProofStore.empty.addAll [founding, successor]).get?
      successor.configurationDigest = some successor := by
    simp [AuthorityProofStore.addAll, AuthorityProofStore.add]
  refine ⟨successor_supersedes, held, receipt_issued, ?_, ?_⟩
  · exact verifyReceipt_of_holdsSuccessor plainPlatform_collisionFree
      ⟨successor, held, successor_supersedes⟩ receipt_issued none
  · rw [store_displaced]
    have lookup : Dict.get? [(founding.configurationDigest, founding),
        (successor.configurationDigest, unproven successor)] receipt.configurationDigest =
          some founding := by
      rw [receipt_issued, Dict.get?_cons, if_pos rfl]
    exact verifyReceipt_current lookup rfl rfl
      (currentConfiguration_unproven founding_genesis rfl rfl) receipt_issued.symm
      (validSigners_sole plainPlatform_readsDoubles (member_signs "operation")) (le_refl 1)

theorem receipt_refused_after_founding_again :
    verifyReceipt plainPlatform memberKeys
      (AuthorityProofStore.empty.addAll ([founding] ++ successor :: [founding])) receipt none ≠
        .valid := by
  refine superseded_never_exercises plainPlatform_collisionFree successor_supersedes [founding]
    [founding] ?_ receipt receipt_issued none
  intro added member same
  rw [List.mem_singleton.mp member] at same
  exact absurd same digests_differ

end Displaced

end Kawa
