import Kawa.AuthorityNoise

/-!
The line of a key: from its only facially valid genesis, through only facially valid
successors.  The walk down and the walk up both compute it, and a receipt is judged at its end.
-/

namespace Kawa

/-! ## The line of a key -/

section Line

variable (platform : Platform) (keys : PublicKeyRegistry) (store : AuthorityProofStore)

/-- Nothing but `cfg` has the property. -/
def Sole {α : Type} (property : α → Prop) (cfg : α) : Prop :=
  property cfg ∧ ∀ other, property other → other = cfg

/-- A held, facially valid genesis of a key. -/
structure Founds (authorityKey : String) (cfg : AuthorityConfiguration) : Prop where
  held : cfg ∈ store.values
  authorityKey : cfg.authorityKey = authorityKey
  prior : cfg.priorConfigurationDigest = none
  facial : faciallyValidGenesis platform keys cfg = true

/-- A held, facially valid successor. -/
structure Succeeds (parent cfg : AuthorityConfiguration) : Prop where
  held : cfg ∈ store.values
  prior : cfg.priorConfigurationDigest = some parent.configurationDigest
  facial : faciallyValidSuccessor platform keys cfg parent = true

def SoleSuccessor (parent cfg : AuthorityConfiguration) : Prop :=
  Sole (Succeeds platform keys store parent) cfg

/-- The configurations reached from the only genesis of a key through only successors. -/
def Line (authorityKey : String) (cfg : AuthorityConfiguration) : Prop :=
  ∃ root, Sole (Founds platform keys store authorityKey) root ∧
    Relation.ReflTransGen (SoleSuccessor platform keys store) root cfg

/-- The end of the line: nothing succeeds it. -/
def Heads (authorityKey : String) (cfg : AuthorityConfiguration) : Prop :=
  Line platform keys store authorityKey cfg ∧ ∀ next, ¬ Succeeds platform keys store cfg next

/-- `parent` is held under the prior digest of `child`. -/
def Prior (child parent : AuthorityConfiguration) : Prop :=
  ∃ digest, child.priorConfigurationDigest = some digest ∧ store.get? digest = some parent

end Line

variable {platform : Platform} {keys : PublicKeyRegistry} {store : AuthorityProofStore}

theorem eq_singleton_iff_sole {α : Type} {items : List α} {property : α → Prop}
    (distinct : items.Nodup) (listed : ∀ item, item ∈ items ↔ property item) (best : α) :
    items = [best] ↔ Sole property best := by
  constructor
  · intro single
    constructor
    · exact (listed best).mp (single ▸ List.mem_singleton_self best)
    · intro other holds
      have member := (listed other).mpr holds
      rw [single] at member
      exact List.mem_singleton.mp member
  · rintro ⟨holds, only⟩
    match items, distinct, (listed best).mpr holds with
    | [item], _, member => rw [List.mem_singleton.mp member]
    | first :: second :: rest, distinct, _ =>
        have same : first = second :=
          (only first ((listed first).mp List.mem_cons_self)).trans
            (only second ((listed second).mp
              (List.mem_cons_of_mem _ List.mem_cons_self))).symm
        subst same
        simp at distinct

theorem length_le_one_of_sole {α : Type} {items : List α} {property : α → Prop}
    (distinct : items.Nodup) (listed : ∀ item, item ∈ items ↔ property item) {best : α}
    (sole : Sole property best) : items.length ≤ 1 := by
  rw [(eq_singleton_iff_sole distinct listed best).mpr sole]
  exact le_refl 1

theorem sole_of_length_le_one {α : Type} {items : List α} {property : α → Prop}
    (listed : ∀ item, item ∈ items ↔ property item) {best : α} (holds : property best)
    (few : items.length ≤ 1) : Sole property best := by
  refine ⟨holds, fun other otherHolds => ?_⟩
  have member := (listed best).mpr holds
  have otherMember := (listed other).mpr otherHolds
  match items, few, member, otherMember with
  | [item], _, member, otherMember =>
      rw [List.mem_singleton.mp member, List.mem_singleton.mp otherMember]

theorem mem_rivalGenesis_iff {authorityKey : String} (cfg : AuthorityConfiguration) :
    cfg ∈ rivalGenesis platform keys store authorityKey ↔
      Founds platform keys store authorityKey cfg := by
  simp only [rivalGenesis, AuthorityProofStore.genesisOf, List.mem_filter, decide_eq_true_eq]
  constructor
  · rintro ⟨⟨held, key, prior⟩, facial⟩
    exact ⟨held, key, prior, facial⟩
  · rintro ⟨held, key, prior, facial⟩
    exact ⟨⟨held, key, prior⟩, facial⟩

theorem mem_rivalSuccessors_iff {parent : AuthorityConfiguration} (cfg : AuthorityConfiguration) :
    cfg ∈ rivalSuccessors platform keys store parent ↔
      Succeeds platform keys store parent cfg := by
  rw [mem_rivalSuccessors]
  constructor
  · rintro ⟨held, prior, facial⟩
    exact ⟨held, prior, facial⟩
  · rintro ⟨held, prior, facial⟩
    exact ⟨held, prior, facial⟩

theorem succeeds_epoch {parent cfg : AuthorityConfiguration}
    (facial : faciallyValidSuccessor platform keys cfg parent = true) :
    cfg.authorityEpoch = parent.authorityEpoch + 1 := by
  unfold faciallyValidSuccessor at facial
  by_contra different
  simp only [different, ne_eq, not_false_eq_true, ↓reduceIte, ite_self, Bool.false_eq_true] at facial

/-! ## Both walks end on every store -/

theorem genesis_walk_ends {authorityKey : String} {head : AuthorityConfiguration}
    (genesis : head ∈ rivalGenesis platform keys store authorityKey) :
    (walkSuccessors platform keys store (store.length + 1) head
      [head.configurationDigest]).isSome := by
  refine walkSuccessors_ends (List.nodup_singleton _) ?_ (by simp)
  rw [List.cons_subset]
  exact ⟨List.mem_map_of_mem ((mem_rivalGenesis_iff head).mp genesis).held, List.nil_subset _⟩

theorem ancestry_ends (store : AuthorityProofStore) (digest : String) :
    (ancestry store (store.length + 1) digest []).isSome :=
  ancestry_isSome List.nodup_nil (List.nil_subset _) (by simp)

theorem line_held {authorityKey : String} {cfg : AuthorityConfiguration}
    (line : Line platform keys store authorityKey cfg) : cfg ∈ store.values := by
  obtain ⟨root, sole, steps⟩ := line
  induction steps with
  | refl => exact sole.1.held
  | tail _ step _ => exact step.1.held

/-! ## The walk down computes the line -/

section Filed

variable (filed : Filed store)
include filed

theorem rivalGenesis_eq_singleton {authorityKey : String} {head : AuthorityConfiguration} :
    rivalGenesis platform keys store authorityKey = [head] ↔
      Sole (Founds platform keys store authorityKey) head :=
  eq_singleton_iff_sole (((values_nodup filed).filter _).filter _) mem_rivalGenesis_iff head

theorem rivalSuccessors_eq_singleton {parent next : AuthorityConfiguration} :
    rivalSuccessors platform keys store parent = [next] ↔
      SoleSuccessor platform keys store parent next :=
  eq_singleton_iff_sole (((values_nodup filed).filter _).filter _) mem_rivalSuccessors_iff next

/-- From the start of a line that ends at `last`, the walk returns `last`. -/
theorem walkSuccessors_line {head last : AuthorityConfiguration}
    (steps : Relation.ReflTransGen (SoleSuccessor platform keys store) head last)
    (ended : ∀ next, ¬ Succeeds platform keys store last next) {fuel : Nat} {seen : List String}
    (past : ∀ digest ∈ seen, ∃ cfg ∈ store.values, cfg.configurationDigest = digest ∧
      cfg.authorityEpoch ≤ head.authorityEpoch)
    (some_ : (walkSuccessors platform keys store fuel head seen).isSome) :
    walkSuccessors platform keys store fuel head seen = some (.valid, some last) := by
  induction steps using Relation.ReflTransGen.head_induction_on generalizing fuel seen with
  | refl =>
      cases fuel with
      | zero => cases some_
      | succ fuel =>
          have none : rivalSuccessors platform keys store last = [] :=
            List.eq_nil_iff_forall_not_mem.mpr fun next member =>
              ended next ((mem_rivalSuccessors_iff next).mp member)
          simp [walkSuccessors, none]
  | head step below ih =>
      rename_i head next
      cases fuel with
      | zero => cases some_
      | succ fuel =>
          have single := (rivalSuccessors_eq_singleton filed).mpr step
          have later := succeeds_epoch step.1.facial
          -- a digest met before is filed for an earlier epoch
          have unseen : next.configurationDigest ∉ seen := by
            intro repeated
            obtain ⟨cfg, held, same, earlier⟩ := past _ repeated
            have found := get?_of_mem_values filed held
            rw [same, get?_of_mem_values filed step.1.held, Option.some.injEq] at found
            subst found
            omega
          unfold walkSuccessors at some_ ⊢
          simp only [single, unseen, ↓reduceIte, ne_eq, not_true_eq_false] at some_ ⊢
          refine ih ?_ some_
          intro digest member
          rcases List.mem_cons.mp member with rfl | old
          · exact ⟨next, step.1.held, rfl, le_refl _⟩
          · obtain ⟨cfg, held, same, earlier⟩ := past digest old
            exact ⟨cfg, held, same, by omega⟩

theorem walkSuccessors_valid {authorityKey : String} {fuel : Nat}
    {head current : AuthorityConfiguration} {seen : List String}
    (line : Line platform keys store authorityKey head)
    (walked : walkSuccessors platform keys store fuel head seen = some (.valid, some current)) :
    Heads platform keys store authorityKey current := by
  induction fuel generalizing head seen with
  | zero => cases walked
  | succ fuel ih =>
      unfold walkSuccessors at walked
      cases rivals : rivalSuccessors platform keys store head with
      | nil =>
          simp only [rivals, Option.some.injEq, Prod.mk.injEq, true_and] at walked
          subst walked
          refine ⟨line, fun next succeeds => ?_⟩
          have member := (mem_rivalSuccessors_iff next).mpr succeeds
          rw [rivals] at member
          cases member
      | cons next rest =>
          simp only [rivals] at walked
          split_ifs at walked with repeated several
          · cases walked
          · cases walked
          obtain rfl := not_not.mp several
          obtain ⟨root, sole, steps⟩ := line
          exact ih ⟨root, sole, steps.tail ((rivalSuccessors_eq_singleton filed).mp rivals)⟩ walked

/-- The current configuration of a key is the end of its line. -/
theorem currentConfiguration_iff {authorityKey : String} {current : AuthorityConfiguration} :
    currentConfiguration platform keys store authorityKey = (.valid, some current) ↔
      Heads platform keys store authorityKey current := by
  constructor
  · intro found
    unfold currentConfiguration at found
    split at found
    · split at found <;> simp at found
    · rename_i head genesis
      have sole := (rivalGenesis_eq_singleton filed).mp genesis
      have ends := genesis_walk_ends (genesis ▸ List.mem_singleton_self head)
      obtain ⟨result, walked⟩ := Option.isSome_iff_exists.mp ends
      rw [walked, Option.getD_some] at found
      exact walkSuccessors_valid filed ⟨head, sole, .refl⟩ (found ▸ walked)
    · simp at found
  · rintro ⟨⟨root, sole, steps⟩, ended⟩
    have genesis := (rivalGenesis_eq_singleton filed).mpr sole
    unfold currentConfiguration
    simp only [genesis]
    rw [walkSuccessors_line filed steps ended ?_
      (genesis_walk_ends (genesis ▸ List.mem_singleton_self root))]
    · rfl
    · intro digest member
      rw [List.mem_singleton.mp member]
      exact ⟨root, sole.1.held, rfl, le_refl _⟩

/-! ## The walk up verifies the line -/

theorem soundLink_line {authorityKey : String} {cfg : AuthorityConfiguration}
    (line : Line platform keys store authorityKey cfg) :
    soundLink platform keys store cfg = true := by
  obtain ⟨root, sole, steps⟩ := line
  unfold soundLink
  cases steps with
  | refl =>
      have few := length_le_one_of_sole (((values_nodup filed).filter _).filter _)
        mem_rivalGenesis_iff sole
      simp only [sole.1.prior, sole.1.facial, Bool.true_and, decide_eq_true_eq]
      rw [sole.1.authorityKey]
      exact few
  | tail up step =>
      rename_i parent
      have parentHeld := line_held ⟨root, sole, up⟩
      have few := length_le_one_of_sole (((values_nodup filed).filter _).filter _)
        mem_rivalSuccessors_iff step
      simp only [step.1.prior, get?_of_mem_values filed parentHeld, step.1.facial, Bool.true_and,
        decide_eq_true_eq]
      exact few

/-- Above a configuration on the line, the ancestry is the line. -/
theorem ancestry_line {authorityKey : String} {cfg : AuthorityConfiguration}
    (line : Line platform keys store authorityKey cfg) {fuel : Nat} {onPath : List String}
    {result : Except Standing (List String)}
    (later : ∀ digest ∈ onPath, ∃ other ∈ store.values, other.configurationDigest = digest ∧
      cfg.authorityEpoch < other.authorityEpoch)
    (walked : ancestry store fuel cfg.configurationDigest onPath = some result) :
    ∃ path, result = .ok path ∧ ∀ digest ∈ path, digest ∈ onPath ∨
      ∃ other, store.get? digest = some other ∧ soundLink platform keys store other = true := by
  obtain ⟨root, sole, steps⟩ := line
  induction steps generalizing fuel onPath with
  | refl =>
      have found := get?_of_mem_values filed sole.1.held
      have sound := soundLink_line filed ⟨root, sole, .refl⟩
      cases fuel with
      | zero => cases walked
      | succ fuel =>
          unfold ancestry at walked
          split_ifs at walked with cyclic
          · obtain ⟨other, held, same, above⟩ := later _ cyclic
            have again := get?_of_mem_values filed held
            rw [same, found, Option.some.injEq] at again
            subst again
            omega
          · simp only [found, sole.1.prior, Option.some.injEq] at walked
            subst walked
            refine ⟨_, rfl, fun digest member => ?_⟩
            rcases List.mem_cons.mp member with rfl | old
            · exact .inr ⟨root, found, sound⟩
            · exact .inl old
  | tail up step ih =>
      rename_i parent cfg
      have found := get?_of_mem_values filed step.1.held
      have sound := soundLink_line filed ⟨root, sole, up.tail step⟩
      have epoch := succeeds_epoch step.1.facial
      cases fuel with
      | zero => cases walked
      | succ fuel =>
          unfold ancestry at walked
          split_ifs at walked with cyclic
          · obtain ⟨other, held, same, above⟩ := later _ cyclic
            have again := get?_of_mem_values filed held
            rw [same, found, Option.some.injEq] at again
            subst again
            omega
          · simp only [found, step.1.prior] at walked
            have above : ∀ digest ∈ cfg.configurationDigest :: onPath,
                ∃ other ∈ store.values, other.configurationDigest = digest ∧
                  parent.authorityEpoch < other.authorityEpoch := by
              intro digest member
              rcases List.mem_cons.mp member with rfl | old
              · exact ⟨cfg, step.1.held, rfl, by omega⟩
              · obtain ⟨other, held, same, above⟩ := later digest old
                exact ⟨other, held, same, by omega⟩
            obtain ⟨path, same, sounds⟩ := ih above walked
            refine ⟨path, same, fun digest member => ?_⟩
            rcases sounds digest member with old | other
            · rcases List.mem_cons.mp old with rfl | older
              · exact .inr ⟨cfg, found, sound⟩
              · exact .inl older
            · exact .inr other

/-- A sound ancestry is a line. -/
theorem line_of_ancestry {fuel : Nat} {cursor : String} {onPath path : List String}
    (walked : ancestry store fuel cursor onPath = some (.ok path))
    (sounds : ∀ digest ∈ path, ∃ cfg, store.get? digest = some cfg ∧
      soundLink platform keys store cfg = true) :
    ∃ authorityKey cfg, store.get? cursor = some cfg ∧
      Line platform keys store authorityKey cfg := by
  induction fuel generalizing cursor onPath with
  | zero => cases walked
  | succ fuel ih =>
      obtain ⟨cfg, found, sound⟩ := sounds cursor (ancestry_path walked).1
      have held : cfg ∈ store.values := List.mem_map_of_mem (Dict.mem_of_get? found)
      unfold ancestry at walked
      split_ifs at walked with cyclic
      · cases walked
      · simp only [found] at walked
        unfold soundLink at sound
        cases above : cfg.priorConfigurationDigest with
        | none =>
            simp only [above, Bool.and_eq_true, decide_eq_true_eq] at sound
            have founds : Founds platform keys store cfg.authorityKey cfg :=
              ⟨held, rfl, above, sound.1⟩
            exact ⟨cfg.authorityKey, cfg, found, cfg,
              sole_of_length_le_one mem_rivalGenesis_iff founds sound.2, .refl⟩
        | some prior =>
            simp only [above] at walked sound
            obtain ⟨authorityKey, parent, parentFound, root, sole, steps⟩ := ih walked
            simp only [parentFound, Bool.and_eq_true, decide_eq_true_eq] at sound
            have named := filed_digest filed parentFound
            have succeeds : Succeeds platform keys store parent cfg :=
              ⟨held, by rw [above, named], sound.1⟩
            exact ⟨authorityKey, cfg, found, root, sole, steps.tail
              (sole_of_length_le_one mem_rivalSuccessors_iff succeeds sound.2)⟩

/-- A configuration is verified exactly when it is on the line of some key. -/
theorem verifyConfiguration_iff {digest : String} :
    verifyConfiguration platform keys store digest = .valid ↔
      ∃ authorityKey cfg, store.get? digest = some cfg ∧
        Line platform keys store authorityKey cfg := by
  rw [verifyConfiguration_valid]
  constructor
  · rintro ⟨path, walked, sounds⟩
    exact line_of_ancestry filed walked sounds
  · rintro ⟨authorityKey, cfg, found, line⟩
    obtain ⟨result, walked⟩ := Option.isSome_iff_exists.mp
      (ancestry_ends store digest)
    have named := filed_digest filed found
    subst named
    obtain ⟨path, rfl, sounds⟩ := ancestry_line filed line
      (fun _ member => by cases member) walked
    refine ⟨path, walked, fun member inPath => ?_⟩
    exact (sounds member inPath).resolve_left (List.not_mem_nil)

theorem line_prior {authorityKey : String} {cfg parent : AuthorityConfiguration}
    (line : Line platform keys store authorityKey cfg) (prior : Prior store cfg parent) :
    Line platform keys store authorityKey parent := by
  obtain ⟨root, sole, steps⟩ := line
  obtain ⟨digest, above, found⟩ := prior
  cases steps with
  | refl =>
      rw [sole.1.prior] at above
      cases above
  | tail up step =>
      rename_i other
      rw [step.1.prior, Option.some.injEq] at above
      have held := line_held ⟨root, sole, up⟩
      rw [← above, get?_of_mem_values filed held, Option.some.injEq] at found
      exact found ▸ ⟨root, sole, up⟩

end Filed

/-! ## Receipts -/

section Receipts

/-- The two lists of a proof that conforms. -/
structure WellFormedProof (platform : Platform) (proof : String)
    (signerSet signatures : List Json) : Prop where
  present : proof ≠ ""
  read : ∃ document, Json.loads platform.readFloat proof = some document ∧
    proofList document "signer_set" = some signerSet ∧
    proofList document "signatures" = some signatures
  paired : signerSet.length = signatures.length

/-- The proof lists a signature of the key over the statement that verifies. -/
def SignedBy (platform : Platform) (keys : PublicKeyRegistry) (statement : String)
    (signerSet signatures : List Json) (key : String) : Prop :=
  ∃ signature, (Json.str key, Json.str signature) ∈ signerSet.zip signatures ∧
    resolveAndVerifyProvenance platform statement signature key "ed25519" keys = true

/-- A quorum of members, active ones where a registry is given, has signed the operation. -/
def QuorumSigned (platform : Platform) (keys : PublicKeyRegistry) (cfg : AuthorityConfiguration)
    (receipt : AuthorityReceipt) (trust : Option TrustRegistry) : Prop :=
  ∃ signerSet signatures, WellFormedProof platform receipt.quorumProof signerSet signatures ∧
    ∃ signers : Finset String, cfg.quorum ≤ signers.card ∧ ∀ key ∈ signers, key ∈ cfg.members ∧
      SignedBy platform keys receipt.operationDigest signerSet signatures key ∧
      ∀ registry ∈ trust, registry.standing key none = .active

theorem countedSigner_eq_some {statement : String} {allowed : List String} {pair : Json × Json}
    {key : String} :
    countedSigner platform statement allowed keys pair = some key ↔
      key ∈ allowed ∧ ∃ signature, pair = (.str key, .str signature) ∧
        resolveAndVerifyProvenance platform statement signature key "ed25519" keys = true := by
  unfold countedSigner
  split
  · rename_i named signature
    constructor
    · intro counted
      split_ifs at counted with counts
      obtain rfl := Option.some.inj counted
      exact ⟨counts.1, signature, rfl, counts.2⟩
    · rintro ⟨allows, other, same, verified⟩
      cases same
      exact if_pos ⟨allows, verified⟩
  · rename_i unpaired
    refine iff_of_false (fun counted => by cases counted) ?_
    rintro ⟨_, signature, same, _⟩
    exact unpaired key signature same

theorem validSigners_some_iff {proof statement : String} {allowed : List String}
    {signers : Finset String} :
    validSigners platform (some proof) statement allowed keys = some signers ↔
      ∃ signerSet signatures, WellFormedProof platform proof signerSet signatures ∧
        signers = ((signerSet.zip signatures).filterMap
          (countedSigner platform statement allowed keys)).toFinset := by
  unfold validSigners
  simp only [Option.bind_eq_bind, Option.bind_some]
  by_cases empty : proof = ""
  · simp only [empty, ↓reduceIte, Option.bind_none, reduceCtorEq, false_iff]
    rintro ⟨signerSet, signatures, formed, _⟩
    exact formed.present rfl
  · simp only [empty, ↓reduceIte]
    cases read : Json.loads platform.readFloat proof with
    | none =>
        refine iff_of_false (fun found => by cases found) ?_
        rintro ⟨signerSet, signatures, ⟨_, ⟨document, loaded, _⟩, _⟩, _⟩
        rw [read] at loaded
        cases loaded
    | some document =>
        cases set : proofList document "signer_set" with
        | none =>
            refine iff_of_false (fun found => by simp [set] at found) ?_
            rintro ⟨signerSet, signatures, ⟨_, ⟨other, loaded, listed, _⟩, _⟩, _⟩
            rw [read, Option.some.injEq] at loaded
            rw [← loaded, set] at listed
            cases listed
        | some signerSet =>
            cases lists : proofList document "signatures" with
            | none =>
                refine iff_of_false (fun found => by simp [set, lists] at found) ?_
                rintro ⟨_, signatures, ⟨_, ⟨other, loaded, _, listed⟩, _⟩, _⟩
                rw [read, Option.some.injEq] at loaded
                rw [← loaded, lists] at listed
                cases listed
            | some signatures =>
                by_cases paired : signerSet.length = signatures.length
                · simp only [Option.bind_some, set, lists, paired, ne_eq, not_true_eq_false,
                    ↓reduceIte, pure, Option.some.injEq]
                  constructor
                  · rintro rfl
                    exact ⟨signerSet, signatures, ⟨empty, ⟨document, read, set, lists⟩, paired⟩, rfl⟩
                  · rintro ⟨others, more, ⟨_, ⟨other, loaded, first, second⟩, _⟩, rfl⟩
                    rw [read, Option.some.injEq] at loaded
                    rw [← loaded] at first second
                    rw [set, Option.some.injEq] at first
                    rw [lists, Option.some.injEq] at second
                    rw [first, second]
                · refine iff_of_false (fun found => by simp [set, lists, paired] at found) ?_
                  rintro ⟨others, more, ⟨_, ⟨other, loaded, first, second⟩, equal⟩, _⟩
                  rw [read, Option.some.injEq] at loaded
                  rw [← loaded] at first second
                  rw [set, Option.some.injEq] at first
                  rw [lists, Option.some.injEq] at second
                  rw [← first, ← second] at equal
                  exact paired equal

theorem mem_trustedSigners {trust : Option TrustRegistry} {signers : Finset String}
    {key : String} :
    key ∈ trustedSigners trust signers ↔
      key ∈ signers ∧ ∀ registry ∈ trust, registry.standing key none = .active := by
  cases trust with
  | none => simp [trustedSigners]
  | some registry => simp [trustedSigners]

/-- The count over the proof reaches the quorum exactly when a quorum has signed. -/
theorem quorumSigned_iff {cfg : AuthorityConfiguration} {receipt : AuthorityReceipt}
    {trust : Option TrustRegistry} :
    QuorumSigned platform keys cfg receipt trust ↔
      ∃ signers, validSigners platform (some receipt.quorumProof) receipt.operationDigest
        cfg.members keys = some signers ∧ cfg.quorum ≤ (trustedSigners trust signers).card := by
  constructor
  · rintro ⟨signerSet, signatures, formed, signers, enough, signed⟩
    refine ⟨_, validSigners_some_iff.mpr ⟨signerSet, signatures, formed, rfl⟩, enough.trans ?_⟩
    refine Int.ofNat_le.mpr (Finset.card_le_card fun key member => ?_)
    obtain ⟨allowed, ⟨signature, listed, verified⟩, active⟩ := signed key member
    refine mem_trustedSigners.mpr ⟨?_, active⟩
    rw [List.mem_toFinset, List.mem_filterMap]
    exact ⟨_, listed, countedSigner_eq_some.mpr ⟨allowed, signature, rfl, verified⟩⟩
  · rintro ⟨signers, counted, enough⟩
    obtain ⟨signerSet, signatures, formed, rfl⟩ := validSigners_some_iff.mp counted
    refine ⟨signerSet, signatures, formed, _, enough, fun key member => ?_⟩
    obtain ⟨inProof, active⟩ := mem_trustedSigners.mp member
    rw [List.mem_toFinset, List.mem_filterMap] at inProof
    obtain ⟨pair, listed, counts⟩ := inProof
    obtain ⟨allowed, signature, rfl, verified⟩ := countedSigner_eq_some.mp counts
    exact ⟨allowed, ⟨signature, listed, verified⟩, active⟩

/-- Two facially valid rivals on the line of a key: two founders, or two successors. -/
def Contested (platform : Platform) (keys : PublicKeyRegistry) (store : AuthorityProofStore)
    (authorityKey : String) : Prop :=
  (∃ left right, left ≠ right ∧ Founds platform keys store authorityKey left ∧
    Founds platform keys store authorityKey right) ∨
  ∃ parent, Line platform keys store authorityKey parent ∧ ∃ left right, left ≠ right ∧
    Succeeds platform keys store parent left ∧ Succeeds platform keys store parent right

/-- A line with rivals on it has no end. -/
theorem Contested.no_head {authorityKey : String}
    (contested : Contested platform keys store authorityKey) (cfg : AuthorityConfiguration) :
    ¬ Heads platform keys store authorityKey cfg := by
  rintro ⟨⟨root, sole, steps⟩, ended⟩
  rcases contested with ⟨left, right, differ, founds, other⟩ |
    ⟨parent, ⟨start, soleStart, up⟩, left, right, differ, succeeds, other⟩
  · exact differ ((sole.2 left founds).trans (sole.2 right other).symm)
  · have sameRoot := sole.2 start soleStart.1
    subst sameRoot
    have unique : Relator.RightUnique (SoleSuccessor platform keys store) :=
      fun a b c first second => second.2 b first.1
    rcases Relation.ReflTransGen.total_of_right_unique unique steps up with below | above
    · rcases below.cases_head with rfl | ⟨next, step, _⟩
      · exact ended left succeeds
      · exact ended next step.1
    · rcases above.cases_head with rfl | ⟨next, step, _⟩
      · exact ended left succeeds
      · exact differ ((step.2 left succeeds).trans (step.2 right other).symm)

end Receipts

/-- A founding configuration held alone is current. -/
theorem currentConfiguration_alone {founding : AuthorityConfiguration} (filedUnder : String)
    (genesis : faciallyValidGenesis platform keys founding = true)
    (prior : founding.priorConfigurationDigest = none) :
    currentConfiguration platform keys [(filedUnder, founding)] founding.authorityKey =
      (.valid, some founding) := by
  simp [currentConfiguration, rivalGenesis, AuthorityProofStore.genesisOf, Dict.values, prior,
    genesis, walkSuccessors, rivalSuccessors, AuthorityProofStore.successorsOf]

/-- Beside an impostor that is no genesis, the founding configuration stays current. -/
theorem currentConfiguration_beside {founding impostor : AuthorityConfiguration}
    {filedUnder otherwise : String} (genesis : faciallyValidGenesis platform keys founding = true)
    (prior : founding.priorConfigurationDigest = none)
    (noise : faciallyValidGenesis platform keys impostor = false)
    (impostorPrior : impostor.priorConfigurationDigest = none) :
    currentConfiguration platform keys [(filedUnder, impostor), (otherwise, founding)]
      founding.authorityKey = (.valid, some founding) := by
  simp [currentConfiguration, rivalGenesis, AuthorityProofStore.genesisOf, Dict.values, prior,
    impostorPrior, noise, genesis, walkSuccessors, rivalSuccessors,
    AuthorityProofStore.successorsOf]

/-- The members and the quorum come from what is filed, the currency from what heads the line. -/
theorem verifyReceipt_filed {cfg current : AuthorityConfiguration} {receipt : AuthorityReceipt}
    {signers : Finset String} (held : store.get? receipt.configurationDigest = some cfg)
    (authorityKey : cfg.authorityKey = receipt.authorityKey)
    (authorityEpoch : cfg.authorityEpoch = receipt.authorityEpoch)
    (found : currentConfiguration platform keys store receipt.authorityKey =
      (.valid, some current))
    (issued : current.configurationDigest = receipt.configurationDigest)
    (signed : validSigners platform (some receipt.quorumProof) receipt.operationDigest
      cfg.members keys = some signers)
    (quorum : cfg.quorum ≤ signers.card) :
    verifyReceipt platform keys store receipt none = .valid := by
  unfold verifyReceipt
  simp only [held, authorityKey, authorityEpoch, found, issued, signed, trustedSigners, ne_eq,
    not_true_eq_false, ↓reduceIte, not_lt.mpr quorum]

theorem not_heads_of_noise {cfg : AuthorityConfiguration} {authorityKey : String}
    (noise : faciallyValidGenesis platform keys cfg = false)
    (prior : cfg.priorConfigurationDigest = none) :
    ¬ Heads platform keys store authorityKey cfg := by
  rintro ⟨⟨root, sole, steps⟩, _⟩
  cases steps with
  | refl =>
      have facial := sole.1.facial
      rw [noise] at facial
      cases facial
  | tail _ step =>
      have above := step.1.prior
      rw [prior] at above
      cases above

/-- A founding configuration and its successor, held alone: the successor ends the line. -/
theorem heads_of_pair {founding next : AuthorityConfiguration}
    (values : store.values = [founding, next])
    (genesis : faciallyValidGenesis platform keys founding = true)
    (prior : founding.priorConfigurationDigest = none)
    (nextPrior : next.priorConfigurationDigest = some founding.configurationDigest)
    (facial : faciallyValidSuccessor platform keys next founding = true)
    (differ : founding.configurationDigest ≠ next.configurationDigest) :
    Heads platform keys store founding.authorityKey next := by
  have held : ∀ cfg ∈ store.values, cfg = founding ∨ cfg = next := by
    intro cfg member
    simpa [values] using member
  have founds : Founds platform keys store founding.authorityKey founding :=
    ⟨by simp [values], rfl, prior, genesis⟩
  have step : SoleSuccessor platform keys store founding next := by
    refine ⟨⟨by simp [values], nextPrior, facial⟩, fun other succeeds => ?_⟩
    refine (held other succeeds.held).resolve_left fun same => ?_
    have above := succeeds.prior
    rw [same, prior] at above
    cases above
  refine ⟨⟨founding, ⟨founds, fun other otherFounds => ?_⟩, .single step⟩,
    fun other succeeds => ?_⟩
  · refine (held other otherFounds.held).resolve_right fun same => ?_
    have above := otherFounds.prior
    rw [same, nextPrior] at above
    cases above
  · have above := succeeds.prior
    rcases held other succeeds.held with same | same
    · rw [same, prior] at above
      cases above
    · rw [same, nextPrior, Option.some.injEq] at above
      exact differ above

namespace Displaced

theorem founding_alone : AuthorityProofStore.empty.addAll [founding] =
    [(founding.configurationDigest, founding)] := rfl

theorem founding_current :
    currentConfiguration plainPlatform memberKeys (AuthorityProofStore.empty.addAll [founding])
      policyKey = (.valid, some founding) := by
  rw [founding_alone]
  exact currentConfiguration_alone founding.configurationDigest founding_genesis rfl

end Displaced

namespace Misfiled

open Displaced

/-- The founding configuration's body without its proof, and with a quorum of nobody. -/
def impostor : AuthorityConfiguration := { unproven founding with quorum := 0 }

/-- The impostor is filed under the founding digest, the founding configuration elsewhere. -/
def misfiled : AuthorityProofStore :=
  [(founding.configurationDigest, impostor), (successor.configurationDigest, founding)]

def unsignedReceipt : AuthorityReceipt :=
  { receipt with quorumProof := makeProof "operation" [] }

end Misfiled

/-! ## Currency and ancestry -/

/-- Both walks end on every store; on a filed one, what is current for a key is verified and
nothing held succeeds it. -/
theorem currency_agrees (store : AuthorityProofStore) :
    (∀ digest, (ancestry store (store.length + 1) digest []).isSome) ∧
    (∀ authorityKey head, rivalGenesis platform keys store authorityKey = [head] →
      (walkSuccessors platform keys store (store.length + 1) head
        [head.configurationDigest]).isSome) ∧
    (Filed store → ∀ authorityKey current,
      currentConfiguration platform keys store authorityKey = (.valid, some current) →
        verifyConfiguration platform keys store current.configurationDigest = .valid ∧
        ∀ next, ¬ Succeeds platform keys store current next) := by
  refine ⟨ancestry_ends store, fun authorityKey head genesis =>
    genesis_walk_ends (genesis ▸ List.mem_singleton_self head), ?_⟩
  intro filed authorityKey current found
  obtain ⟨line, ended⟩ := (currentConfiguration_iff filed).mp found
  have held := get?_of_mem_values filed (line_held line)
  exact ⟨(verifyConfiguration_iff filed).mpr ⟨authorityKey, current, held, line⟩, ended⟩

namespace Misfiled

/-- What is current in a store that misfiles it is not verified under its own digest. -/
theorem current_unverified :
    ¬ (∀ authorityKey current, currentConfiguration plainPlatform Displaced.memberKeys
        [(Displaced.successor.configurationDigest, Displaced.founding)] authorityKey =
          (.valid, some current) →
      verifyConfiguration plainPlatform Displaced.memberKeys
        [(Displaced.successor.configurationDigest, Displaced.founding)]
        current.configurationDigest = .valid) := by
  intro agrees
  have found := agrees policyKey Displaced.founding
    (currentConfiguration_alone _ Displaced.founding_genesis rfl)
  have missing : Dict.get? [(Displaced.successor.configurationDigest, Displaced.founding)]
      Displaced.founding.configurationDigest = none := by
    rw [Dict.get?_cons, if_neg (Ne.symm Displaced.digests_differ)]
    rfl
  simp [verifyConfiguration, ancestry, missing] at found

end Misfiled

/-- Held alone, a founding configuration is current and verified. -/
theorem Displaced.founding_current_verified :
    Filed (AuthorityProofStore.empty.addAll [Displaced.founding]) ∧
      verifyConfiguration plainPlatform Displaced.memberKeys
        (AuthorityProofStore.empty.addAll [Displaced.founding])
        Displaced.founding.configurationDigest = .valid := by
  have filed := filed_addAll filed_empty [Displaced.founding]
  exact ⟨filed, ((currency_agrees _).2.2 filed policyKey Displaced.founding
    Displaced.founding_current).1⟩

/-! ## One key along a lineage -/

/-- A verified configuration and all above it name one key, and what is current for a key
names that key. -/
structure KeysKept (platform : Platform) (keys : PublicKeyRegistry)
    (store : AuthorityProofStore) : Prop where
  verified : ∀ digest cfg, verifyConfiguration platform keys store digest = .valid →
    store.get? digest = some cfg → ∀ above, Relation.ReflTransGen (Prior store) cfg above →
      above.authorityKey = cfg.authorityKey
  current : ∀ authorityKey cfg,
    currentConfiguration platform keys store authorityKey = (.valid, some cfg) →
      cfg.authorityKey = authorityKey

theorem line_key {authorityKey : String}
    (kept : ∀ parent next, Line platform keys store authorityKey parent →
      SoleSuccessor platform keys store parent next → next.authorityKey = parent.authorityKey)
    {cfg : AuthorityConfiguration} (line : Line platform keys store authorityKey cfg) :
    cfg.authorityKey = authorityKey := by
  obtain ⟨root, sole, steps⟩ := line
  induction steps with
  | refl => exact sole.1.authorityKey
  | tail up step ih => exact (kept _ _ ⟨root, sole, up⟩ step).trans ih

/-- The check of a successor does not look at the key it names. -/
theorem soleSuccessor_crosses (authorityKey otherKey : String) (epoch : Int)
    (prior : Option String) {member : NodeCredential}
    (doubles : Json.ReadsDoubles platform.readFloat)
    (accepted : ∀ statement, signs platform keys statement [member.signingKeyRef] member = true) :
    faciallyValidSuccessor platform keys
      (soleConfiguration platform otherKey (epoch + 1) (some
        (soleConfiguration platform authorityKey epoch prior member).configurationDigest) member)
      (soleConfiguration platform authorityKey epoch prior member) = true := by
  have signers := validSigners_sole doubles (accepted (soleConfiguration platform otherKey
    (epoch + 1) (some (soleConfiguration platform authorityKey epoch prior
      member).configurationDigest) member).configurationDigest)
  unfold faciallyValidSuccessor
  rw [soleConfiguration_bound]
  simp only [soleConfiguration] at signers ⊢
  simp [signers]

namespace Crossed

open Displaced

/-- A successor of the founding configuration that names another key. -/
def crossing : AuthorityConfiguration :=
  soleConfiguration plainPlatform forkResolutionKey 1 (some founding.configurationDigest) member

def crossed : AuthorityProofStore := AuthorityProofStore.empty.addAll [founding, crossing]

theorem differ : founding.configurationDigest ≠ crossing.configurationDigest := by
  intro same
  have moved : bound plainPlatform crossing founding.configurationDigest = true := by
    rw [same]
    exact soleConfiguration_bound _ _ _ _
  have body := sameBody_of_bound plainPlatform_collisionFree
    (soleConfiguration_bound policyKey 0 none member) moved
  exact absurd (show (0 : Int) = 1 from body.authorityEpoch) (by decide)

end Crossed

end Kawa
