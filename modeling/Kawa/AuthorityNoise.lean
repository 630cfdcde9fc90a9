import Kawa.AuthorityCurrency

/-!
What an unproven configuration can do to a proof store.  Under a digest of its own it is
noise to every verdict; under the digest of a proven configuration it takes that one's place.
-/

namespace Kawa

open AuthorityProofStore

variable {platform : Platform} {keys : PublicKeyRegistry}

/-! ## Two stores that differ in noise only -/

/-- A unanimously signed genesis, or a successor that its stored parent's quorum accepted. -/
def faciallyValid (platform : Platform) (keys : PublicKeyRegistry) (store : AuthorityProofStore)
    (cfg : AuthorityConfiguration) : Bool :=
  match cfg.priorConfigurationDigest with
  | none => faciallyValidGenesis platform keys cfg
  | some prior => (store.get? prior).any (faciallyValidSuccessor platform keys cfg)

/-- The stores file the same under every digest but the noisy ones, and only noise there. -/
structure SameButNoise (platform : Platform) (keys : PublicKeyRegistry) (noise : String → Prop)
    (left right : AuthorityProofStore) : Prop where
  leftFiled : Filed left
  rightFiled : Filed right
  agree : ∀ digest, ¬ noise digest → left.get? digest = right.get? digest
  leftNoise : ∀ digest cfg, noise digest → left.get? digest = some cfg →
    faciallyValid platform keys left cfg = false
  rightNoise : ∀ digest cfg, noise digest → right.get? digest = some cfg →
    faciallyValid platform keys right cfg = false

namespace SameButNoise

variable {noise : String → Prop} {left right : AuthorityProofStore}

theorem symm (same : SameButNoise platform keys noise left right) :
    SameButNoise platform keys noise right left where
  leftFiled := same.rightFiled
  rightFiled := same.leftFiled
  agree digest other := (same.agree digest other).symm
  leftNoise := same.rightNoise
  rightNoise := same.leftNoise

end SameButNoise

theorem get?_of_mem_values {store : AuthorityProofStore} (filed : Filed store)
    {cfg : AuthorityConfiguration} (held : cfg ∈ store.values) :
    store.get? cfg.configurationDigest = some cfg := by
  obtain ⟨entry, member, rfl⟩ := List.mem_map.mp held
  rw [← filed.underDigest entry member]
  exact Dict.get?_of_mem filed.distinct member

theorem mem_values_iff {store : AuthorityProofStore} (filed : Filed store)
    {cfg : AuthorityConfiguration} :
    cfg ∈ store.values ↔ store.get? cfg.configurationDigest = some cfg :=
  ⟨get?_of_mem_values filed, fun found => List.mem_map_of_mem (Dict.mem_of_get? found)⟩

theorem filed_digest {store : AuthorityProofStore} (filed : Filed store) {digest : String}
    {cfg : AuthorityConfiguration} (found : store.get? digest = some cfg) :
    cfg.configurationDigest = digest :=
  (filed.underDigest _ (Dict.mem_of_get? found)).symm

theorem values_nodup {store : AuthorityProofStore} (filed : Filed store) : store.values.Nodup := by
  have keyed : store.values.map (·.configurationDigest) = store.map (·.1) := by
    rw [Dict.values, List.map_map]
    exact List.map_congr_left fun entry held => (filed.underDigest entry held).symm
  exact List.Nodup.of_map (·.configurationDigest) (keyed ▸ filed.distinct)

namespace SameButNoise

variable {noise : String → Prop} {left right : AuthorityProofStore}

theorem get?_of_proven (same : SameButNoise platform keys noise left right) {digest : String}
    {cfg : AuthorityConfiguration} (found : left.get? digest = some cfg)
    (proven : faciallyValid platform keys left cfg = true) :
    ¬ noise digest ∧ right.get? digest = some cfg := by
  have other : ¬ noise digest := by
    intro noisy
    rw [same.leftNoise digest cfg noisy found] at proven
    cases proven
  exact ⟨other, same.agree digest other ▸ found⟩

theorem mem_rivalGenesis (same : SameButNoise platform keys noise left right) {authorityKey : String}
    {cfg : AuthorityConfiguration} (rival : cfg ∈ rivalGenesis platform keys left authorityKey) :
    cfg ∈ rivalGenesis platform keys right authorityKey := by
  obtain ⟨listed, genesis⟩ := List.mem_filter.mp rival
  obtain ⟨held, named⟩ := List.mem_filter.mp listed
  have prior : cfg.priorConfigurationDigest = none := (of_decide_eq_true named).2
  have proven : faciallyValid platform keys left cfg = true := by
    unfold faciallyValid
    rw [prior]
    exact genesis
  have found := (same.get?_of_proven (get?_of_mem_values same.leftFiled held) proven).2
  exact List.mem_filter.mpr ⟨List.mem_filter.mpr
    ⟨(mem_values_iff same.rightFiled).mpr found, named⟩, genesis⟩

theorem rivalGenesis_perm (same : SameButNoise platform keys noise left right)
    (authorityKey : String) :
    (rivalGenesis platform keys left authorityKey).Perm
      (rivalGenesis platform keys right authorityKey) := by
  refine (List.perm_ext_iff_of_nodup ?_ ?_).mpr fun cfg =>
    ⟨same.mem_rivalGenesis, same.symm.mem_rivalGenesis⟩
  · exact ((values_nodup same.leftFiled).filter _).filter _
  · exact ((values_nodup same.rightFiled).filter _).filter _

theorem mem_rivalSuccessors (same : SameButNoise platform keys noise left right)
    {head cfg : AuthorityConfiguration} (held : left.get? head.configurationDigest = some head)
    (rival : cfg ∈ rivalSuccessors platform keys left head) :
    faciallyValid platform keys left cfg = true ∧
      cfg ∈ rivalSuccessors platform keys right head := by
  obtain ⟨inLeft, prior, facial⟩ := Kawa.mem_rivalSuccessors.mp rival
  have proven : faciallyValid platform keys left cfg = true := by
    unfold faciallyValid
    rw [prior]
    simp only [held, Option.any_some, facial]
  have found := (same.get?_of_proven (get?_of_mem_values same.leftFiled inLeft) proven).2
  exact ⟨proven, Kawa.mem_rivalSuccessors.mpr
    ⟨(mem_values_iff same.rightFiled).mpr found, prior, facial⟩⟩

theorem rivalSuccessors_perm (same : SameButNoise platform keys noise left right)
    {head : AuthorityConfiguration} (held : left.get? head.configurationDigest = some head)
    (other : ¬ noise head.configurationDigest) :
    (rivalSuccessors platform keys left head).Perm (rivalSuccessors platform keys right head) := by
  have inRight : right.get? head.configurationDigest = some head := same.agree _ other ▸ held
  refine (List.perm_ext_iff_of_nodup ?_ ?_).mpr fun cfg =>
    ⟨fun rival => (same.mem_rivalSuccessors held rival).2,
      fun rival => (same.symm.mem_rivalSuccessors inRight rival).2⟩
  · exact ((values_nodup same.leftFiled).filter _).filter _
  · exact ((values_nodup same.rightFiled).filter _).filter _

/-! ## The walk down -/

theorem walkSuccessors_eq (same : SameButNoise platform keys noise left right) (fuel : Nat)
    {head : AuthorityConfiguration} (held : left.get? head.configurationDigest = some head)
    (other : ¬ noise head.configurationDigest) (seen : List String) :
    walkSuccessors platform keys left fuel head seen =
      walkSuccessors platform keys right fuel head seen := by
  induction fuel generalizing head seen with
  | zero => rfl
  | succ fuel ih =>
      have perm := same.rivalSuccessors_perm held other
      unfold walkSuccessors
      cases leftRivals : rivalSuccessors platform keys left head with
      | nil =>
          rw [leftRivals] at perm
          rw [perm.nil_eq.symm]
      | cons next rest =>
          rw [leftRivals] at perm
          cases rest with
          | nil =>
              rw [List.singleton_perm.mp perm |>.symm]
              have rival : next ∈ rivalSuccessors platform keys left head := by simp [leftRivals]
              obtain ⟨proven, _⟩ := same.mem_rivalSuccessors held rival
              have found := get?_of_mem_values same.leftFiled (Kawa.mem_rivalSuccessors.mp rival).1
              dsimp only
              rw [ih found (same.get?_of_proven found proven).1]
          | cons second rest =>
              -- two rivals block the key in either order
              cases rightRivals : rivalSuccessors platform keys right head with
              | nil => simp [rightRivals] at perm
              | cons first others =>
                  rw [rightRivals] at perm
                  cases others with
                  | nil => simp at perm
                  | cons _ _ => simp

/-- The head that a walk ends with is proven. -/
theorem walkSuccessors_held (same : SameButNoise platform keys noise left right) {fuel : Nat}
    {head current : AuthorityConfiguration} {seen : List String}
    (held : left.get? head.configurationDigest = some head)
    (other : ¬ noise head.configurationDigest)
    (walked : walkSuccessors platform keys left fuel head seen = some (.valid, some current)) :
    left.get? current.configurationDigest = some current ∧
      ¬ noise current.configurationDigest := by
  induction fuel generalizing head seen with
  | zero => cases walked
  | succ fuel ih =>
      unfold walkSuccessors at walked
      cases rivals : rivalSuccessors platform keys left head with
      | nil =>
          simp only [rivals, Option.some.injEq, Prod.mk.injEq, true_and] at walked
          exact walked ▸ ⟨held, other⟩
      | cons next rest =>
          simp only [rivals] at walked
          have rival : next ∈ rivalSuccessors platform keys left head := by simp [rivals]
          obtain ⟨proven, _⟩ := same.mem_rivalSuccessors held rival
          have found := get?_of_mem_values same.leftFiled (Kawa.mem_rivalSuccessors.mp rival).1
          split_ifs at walked
          · cases walked
          · cases walked
          · exact ih found (same.get?_of_proven found proven).1 walked

end SameButNoise

theorem walkSuccessors_fuel {store : AuthorityProofStore} {fuel more : Nat}
    (enough : fuel ≤ more) {head : AuthorityConfiguration} {seen : List String}
    {result : Standing × Option AuthorityConfiguration}
    (walked : walkSuccessors platform keys store fuel head seen = some result) :
    walkSuccessors platform keys store more head seen = some result := by
  induction fuel generalizing more head seen with
  | zero => cases walked
  | succ fuel ih =>
      obtain ⟨more, rfl⟩ : ∃ rest, more = rest + 1 := ⟨more - 1, by omega⟩
      unfold walkSuccessors at walked ⊢
      cases rivals : rivalSuccessors platform keys store head with
      | nil =>
          rw [rivals] at walked
          exact walked
      | cons next rest =>
          simp only [rivals] at walked ⊢
          split_ifs at walked ⊢
          · exact walked
          · exact walked
          · exact ih (by omega) walked

namespace SameButNoise

variable {noise : String → Prop} {left right : AuthorityProofStore}

/-- The genesis of a key, walked down in both stores. -/
theorem walk_from_genesis (same : SameButNoise platform keys noise left right)
    {head : AuthorityConfiguration} (held : left.get? head.configurationDigest = some head)
    (other : ¬ noise head.configurationDigest) :
    walkSuccessors platform keys left (left.length + 1) head [head.configurationDigest] =
      walkSuccessors platform keys right (right.length + 1) head [head.configurationDigest] := by
  have inRight : right.get? head.configurationDigest = some head := same.agree _ other ▸ held
  have ends : ∀ {store : AuthorityProofStore},
      store.get? head.configurationDigest = some head →
      ∃ result, walkSuccessors platform keys store (store.length + 1) head
        [head.configurationDigest] = some result := by
    intro store found
    refine Option.isSome_iff_exists.mp (walkSuccessors_ends (List.nodup_singleton _) ?_ ?_)
    · have inValues : head ∈ store.values := List.mem_map_of_mem (Dict.mem_of_get? found)
      rw [List.cons_subset]
      exact ⟨List.mem_map_of_mem inValues, List.nil_subset _⟩
    · simp
  obtain ⟨leftResult, leftWalked⟩ := ends held
  obtain ⟨rightResult, rightWalked⟩ := ends inRight
  have leftLong := walkSuccessors_fuel
    (Nat.le_max_left (left.length + 1) (right.length + 1)) leftWalked
  have rightLong := walkSuccessors_fuel
    (Nat.le_max_right (left.length + 1) (right.length + 1)) rightWalked
  rw [same.walkSuccessors_eq _ held other, rightLong] at leftLong
  rw [leftWalked, rightWalked, leftLong]

theorem genesis_held (same : SameButNoise platform keys noise left right) {authorityKey : String}
    {head : AuthorityConfiguration} (rival : head ∈ rivalGenesis platform keys left authorityKey) :
    left.get? head.configurationDigest = some head ∧ ¬ noise head.configurationDigest := by
  obtain ⟨listed, genesis⟩ := List.mem_filter.mp rival
  obtain ⟨inLeft, named⟩ := List.mem_filter.mp listed
  have proven : faciallyValid platform keys left head = true := by
    unfold faciallyValid
    rw [(of_decide_eq_true named).2]
    exact genesis
  have found := get?_of_mem_values same.leftFiled inLeft
  exact ⟨found, (same.get?_of_proven found proven).1⟩

/-- What is current of a key is the same, and a verdict that is not valid has no current. -/
theorem currentConfiguration_eq (same : SameButNoise platform keys noise left right)
    (authorityKey : String) :
    currentConfiguration platform keys left authorityKey =
        currentConfiguration platform keys right authorityKey ∨
      ((currentConfiguration platform keys left authorityKey).2 = none ∧
        (currentConfiguration platform keys right authorityKey).2 = none ∧
        (currentConfiguration platform keys left authorityKey).1 ≠ .valid ∧
        (currentConfiguration platform keys right authorityKey).1 ≠ .valid) := by
  have perm := same.rivalGenesis_perm authorityKey
  unfold currentConfiguration
  cases leftRivals : rivalGenesis platform keys left authorityKey with
  | nil =>
      rw [leftRivals] at perm
      rw [perm.nil_eq.symm]
      refine .inr ?_
      dsimp only
      split <;> split <;> simp
  | cons head rest =>
      rw [leftRivals] at perm
      cases rest with
      | nil =>
          rw [(List.singleton_perm.mp perm).symm]
          have rival : head ∈ rivalGenesis platform keys left authorityKey := by simp [leftRivals]
          obtain ⟨held, other⟩ := same.genesis_held rival
          refine .inl ?_
          dsimp only
          rw [same.walk_from_genesis held other]
      | cons second rest =>
          cases rightRivals : rivalGenesis platform keys right authorityKey with
          | nil => simp [rightRivals] at perm
          | cons first others =>
              rw [rightRivals] at perm
              cases others with
              | nil => simp at perm
              | cons _ _ => exact .inl rfl

theorem current_held (same : SameButNoise platform keys noise left right) {authorityKey : String}
    {current : AuthorityConfiguration}
    (found : currentConfiguration platform keys left authorityKey = (.valid, some current)) :
    left.get? current.configurationDigest = some current ∧
      ¬ noise current.configurationDigest := by
  unfold currentConfiguration at found
  split at found
  · split at found <;> simp at found
  · rename_i head genesis
    have rival : head ∈ rivalGenesis platform keys left authorityKey := by simp [genesis]
    obtain ⟨held, other⟩ := same.genesis_held rival
    cases walked : walkSuccessors platform keys left (left.length + 1) head
        [head.configurationDigest] with
    | none => simp [walked] at found
    | some result =>
        simp only [walked, Option.getD_some] at found
        exact same.walkSuccessors_held held other (found ▸ walked)
  · simp at found

/-- A receipt that exercises over one of the stores exercises over the other. -/
theorem verifyReceipt_kept (same : SameButNoise platform keys noise left right)
    {receipt : AuthorityReceipt} {trust : Option TrustRegistry}
    (accepted : verifyReceipt platform keys left receipt trust = .valid) :
    verifyReceipt platform keys right receipt trust = .valid := by
  obtain ⟨current, found, named⟩ := verifyReceipt_valid accepted
  obtain ⟨_, other⟩ := same.current_held found
  have lookup := same.agree receipt.configurationDigest (named ▸ other)
  have currents : currentConfiguration platform keys left receipt.authorityKey =
      currentConfiguration platform keys right receipt.authorityKey := by
    rcases same.currentConfiguration_eq receipt.authorityKey with equal | ⟨_, _, invalid, _⟩
    · exact equal
    · rw [found] at invalid
      exact absurd rfl invalid
  unfold verifyReceipt at accepted ⊢
  rw [← lookup, ← currents]
  exact accepted

end SameButNoise

/-! ## The walk up -/

theorem ancestry_fuel {store : AuthorityProofStore} {fuel more : Nat} (enough : fuel ≤ more)
    {cursor : String} {onPath : List String} {result : Except Standing (List String)}
    (walked : ancestry store fuel cursor onPath = some result) :
    ancestry store more cursor onPath = some result := by
  induction fuel generalizing more cursor onPath with
  | zero => cases walked
  | succ fuel ih =>
      obtain ⟨more, rfl⟩ : ∃ rest, more = rest + 1 := ⟨more - 1, by omega⟩
      unfold ancestry at walked ⊢
      split_ifs at walked ⊢ with cyclic
      · exact walked
      · cases found : store.get? cursor with
        | none =>
            rw [found] at walked
            exact walked
        | some cfg =>
            simp only [found] at walked ⊢
            cases above : cfg.priorConfigurationDigest with
            | none =>
                rw [above] at walked
                exact walked
            | some prior =>
                simp only [above] at walked ⊢
                exact ih (by omega) walked

/-- A path never repeats a digest of the store, so the fuel suffices. -/
theorem ancestry_isSome {store : AuthorityProofStore} {fuel : Nat} {cursor : String}
    {onPath : List String} (fresh : onPath.Nodup) (held : onPath ⊆ store.map (·.1))
    (enough : store.length < fuel + onPath.length) :
    (ancestry store fuel cursor onPath).isSome := by
  induction fuel generalizing cursor onPath with
  | zero =>
      have short : onPath.length ≤ store.length := by
        simpa using (List.subperm_of_subset fresh held).length_le
      omega
  | succ fuel ih =>
      unfold ancestry
      split_ifs with cyclic
      · rfl
      · cases found : store.get? cursor with
        | none => rfl
        | some cfg =>
            dsimp only
            cases above : cfg.priorConfigurationDigest with
            | none => rfl
            | some prior =>
                dsimp only
                refine ih (List.nodup_cons.mpr ⟨cyclic, fresh⟩) ?_ (by simp; omega)
                rw [List.cons_subset]
                exact ⟨List.mem_map_of_mem (Dict.mem_of_get? found), held⟩

/-- A finished path holds its start, and above each of its configurations the next one. -/
theorem ancestry_path {store : AuthorityProofStore} {fuel : Nat} {cursor : String}
    {onPath path : List String} (walked : ancestry store fuel cursor onPath = some (.ok path)) :
    cursor ∈ path ∧ onPath ⊆ path ∧ ∀ digest ∈ path, digest ∉ onPath →
      ∃ cfg, store.get? digest = some cfg ∧
        ∀ prior, cfg.priorConfigurationDigest = some prior → prior ∈ path := by
  induction fuel generalizing cursor onPath with
  | zero => cases walked
  | succ fuel ih =>
      unfold ancestry at walked
      split_ifs at walked with cyclic
      · cases walked
      · cases found : store.get? cursor with
        | none => simp [found] at walked
        | some cfg =>
            simp only [found] at walked
            cases above : cfg.priorConfigurationDigest with
            | none =>
                simp only [above, Option.some.injEq, Except.ok.injEq] at walked
                subst walked
                refine ⟨List.mem_cons_self, List.subset_cons_self _ _, fun digest member new => ?_⟩
                rcases List.mem_cons.mp member with rfl | old
                · exact ⟨cfg, found, fun prior named => by rw [above] at named; cases named⟩
                · exact absurd old new
            | some prior =>
                simp only [above] at walked
                obtain ⟨next, visited, linked⟩ := ih walked
                obtain ⟨self, kept⟩ := List.cons_subset.mp visited
                refine ⟨self, kept, fun digest member new => ?_⟩
                by_cases mine : digest = cursor
                · subst mine
                  refine ⟨cfg, found, fun up named => ?_⟩
                  rw [above, Option.some.injEq] at named
                  exact named ▸ next
                · refine linked digest member fun inPath => ?_
                  rcases List.mem_cons.mp inPath with same | old
                  · exact mine same
                  · exact new old

namespace SameButNoise

variable {noise : String → Prop} {left right : AuthorityProofStore}

theorem ancestry_eq (same : SameButNoise platform keys noise left right) {fuel : Nat}
    {cursor : String} {onPath path : List String}
    (walked : ancestry left fuel cursor onPath = some (.ok path))
    (clear : ∀ digest ∈ path, ¬ noise digest) :
    ancestry right fuel cursor onPath = some (.ok path) := by
  induction fuel generalizing cursor onPath with
  | zero => cases walked
  | succ fuel ih =>
      have lookup := same.agree cursor (clear cursor (ancestry_path walked).1)
      unfold ancestry at walked ⊢
      rw [← lookup]
      split_ifs at walked ⊢ with cyclic
      · exact walked
      · cases found : left.get? cursor with
        | none =>
            rw [found] at walked
            exact walked
        | some cfg =>
            simp only [found] at walked ⊢
            cases above : cfg.priorConfigurationDigest with
            | none =>
                rw [above] at walked
                exact walked
            | some prior =>
                simp only [above] at walked ⊢
                exact ih walked

end SameButNoise

theorem faciallyValid_of_soundLink {store : AuthorityProofStore} {cfg : AuthorityConfiguration}
    (sound : soundLink platform keys store cfg = true) :
    faciallyValid platform keys store cfg = true := by
  unfold soundLink at sound
  unfold faciallyValid
  cases prior : cfg.priorConfigurationDigest with
  | none =>
      simp only [prior, Bool.and_eq_true] at sound
      exact sound.1
  | some above =>
      simp only [prior] at sound
      cases found : store.get? above with
      | none => simp [found] at sound
      | some parent =>
          simp only [found, Bool.and_eq_true] at sound
          simp only [found, Option.any_some]
          exact sound.1

/-- The walk up alone never finds a lineage valid. -/
theorem ancestry_error {store : AuthorityProofStore} {fuel : Nat} {cursor : String}
    {onPath : List String} {standing : Standing}
    (walked : ancestry store fuel cursor onPath = some (.error standing)) : standing ≠ .valid := by
  induction fuel generalizing cursor onPath with
  | zero => cases walked
  | succ fuel ih =>
      unfold ancestry at walked
      split_ifs at walked
      · cases walked
        exact Standing.noConfusion
      · cases found : store.get? cursor with
        | none =>
            rw [found] at walked
            cases walked
            exact Standing.noConfusion
        | some cfg =>
            simp only [found] at walked
            cases above : cfg.priorConfigurationDigest with
            | none => simp [above] at walked
            | some prior =>
                simp only [above] at walked
                exact ih walked

theorem verifyConfiguration_valid {store : AuthorityProofStore} {digest : String} :
    verifyConfiguration platform keys store digest = .valid ↔
      ∃ path, ancestry store (store.length + 1) digest [] = some (.ok path) ∧
        ∀ member ∈ path, ∃ cfg, store.get? member = some cfg ∧
          soundLink platform keys store cfg = true := by
  unfold verifyConfiguration
  cases walked : ancestry store (store.length + 1) digest [] with
  | none => simp
  | some result =>
      cases result with
      | error standing =>
          refine iff_of_false (ancestry_error walked) ?_
          rintro ⟨path, same, _⟩
          cases same
      | ok path =>
          simp only [Option.some.injEq, Except.ok.injEq, exists_eq_left']
          rw [ite_eq_left_iff, List.all_eq_true]
          simp only [Option.any_eq_true, reduceCtorEq, imp_false, not_not]

/-- What heads a valid lineage is itself proven. -/
theorem faciallyValid_of_valid {store : AuthorityProofStore} {digest : String}
    (valid : verifyConfiguration platform keys store digest = .valid) :
    ∃ cfg, store.get? digest = some cfg ∧ faciallyValid platform keys store cfg = true := by
  obtain ⟨path, walked, sound⟩ := verifyConfiguration_valid.mp valid
  obtain ⟨cfg, found, link⟩ := sound digest (ancestry_path walked).1
  exact ⟨cfg, found, faciallyValid_of_soundLink link⟩

theorem SameButNoise.verifyConfiguration_kept {noise : String → Prop} {left right : AuthorityProofStore}
    (same : SameButNoise platform keys noise left right) {digest : String}
    (valid : verifyConfiguration platform keys left digest = .valid) :
    verifyConfiguration platform keys right digest = .valid := by
  obtain ⟨path, walked, sound⟩ := verifyConfiguration_valid.mp valid
  have clear : ∀ member ∈ path, ¬ noise member := by
    intro member inPath
    obtain ⟨cfg, found, link⟩ := sound member inPath
    exact (same.get?_of_proven found (faciallyValid_of_soundLink link)).1
  have moved := same.ancestry_eq walked clear
  have rightWalked : ancestry right (right.length + 1) digest [] = some (.ok path) := by
    have ends : (ancestry right (right.length + 1) digest []).isSome :=
      ancestry_isSome List.nodup_nil (List.nil_subset _) (by simp)
    obtain ⟨result, ended⟩ := Option.isSome_iff_exists.mp ends
    have long := ancestry_fuel (Nat.le_max_left (left.length + 1) (right.length + 1)) moved
    rw [ancestry_fuel (Nat.le_max_right (left.length + 1) (right.length + 1)) ended] at long
    rw [ended, long]
  refine verifyConfiguration_valid.mpr ⟨path, rightWalked, fun member inPath => ?_⟩
  obtain ⟨cfg, found, link⟩ := sound member inPath
  refine ⟨cfg, same.agree member (clear member inPath) ▸ found, ?_⟩
  unfold soundLink at link ⊢
  cases prior : cfg.priorConfigurationDigest with
  | none =>
      simp only [prior] at link
      dsimp only
      rw [← (same.rivalGenesis_perm cfg.authorityKey).length_eq]
      exact link
  | some above =>
      obtain ⟨own, ownFound, up⟩ := (ancestry_path walked).2.2 member inPath List.not_mem_nil
      rw [found, Option.some.injEq] at ownFound
      subst ownFound
      have aboveClear := clear above (up above prior)
      simp only [prior] at link
      dsimp only
      rw [← same.agree above aboveClear]
      cases parentFound : left.get? above with
      | none => simp [parentFound] at link
      | some parent =>
          have named := filed_digest same.leftFiled parentFound
          simp only [parentFound] at link ⊢
          rw [← (same.rivalSuccessors_perm (named.symm ▸ parentFound) (named ▸ aboveClear)).length_eq]
          exact link

/-! ## Adding one unproven configuration -/

/-- No valid verdict of the first store is lost over the second, and what is current is the same. -/
structure Unharmed (platform : Platform) (keys : PublicKeyRegistry)
    (before after : AuthorityProofStore) : Prop where
  configuration : ∀ digest, verifyConfiguration platform keys before digest = .valid →
    verifyConfiguration platform keys after digest = .valid
  receipt : ∀ receipt trust, verifyReceipt platform keys before receipt trust = .valid →
    verifyReceipt platform keys after receipt trust = .valid
  standing : ∀ authorityKey, (currentConfiguration platform keys before authorityKey).1 = .valid →
    (currentConfiguration platform keys after authorityKey).1 = .valid
  current : ∀ authorityKey, (currentConfiguration platform keys before authorityKey).2 =
    (currentConfiguration platform keys after authorityKey).2

theorem SameButNoise.unharmed {noise : String → Prop} {left right : AuthorityProofStore}
    (same : SameButNoise platform keys noise left right) : Unharmed platform keys left right where
  configuration _ valid := same.verifyConfiguration_kept valid
  receipt _ _ valid := same.verifyReceipt_kept valid
  standing authorityKey valid := by
    rcases same.currentConfiguration_eq authorityKey with equal | ⟨_, _, invalid, _⟩
    · exact equal ▸ valid
    · exact absurd valid invalid
  current authorityKey := by
    rcases same.currentConfiguration_eq authorityKey with equal | ⟨left, right, _⟩
    · rw [equal]
    · rw [left, right]

theorem addAll_agree {left right : AuthorityProofStore} {digest : String}
    (same : left.get? digest = right.get? digest) (later : List AuthorityConfiguration) :
    (left.addAll later).get? digest = (right.addAll later).get? digest := by
  induction later generalizing left right with
  | nil => exact same
  | cons cfg later ih =>
      have added : (left.add cfg).get? digest = (right.add cfg).get? digest := ?_
      · exact ih added
      unfold AuthorityProofStore.add
      by_cases mine : digest = cfg.configurationDigest
      · rw [mine, Dict.get?_set_self, Dict.get?_set_self]
      · rw [Dict.get?_set_ne _ _ mine, Dict.get?_set_ne _ _ mine, same]

theorem addAll_absent {store : AuthorityProofStore} {digest : String}
    {later : List AuthorityConfiguration}
    (absent : digest ∉ later.map (·.configurationDigest)) :
    (store.addAll later).get? digest = store.get? digest := by
  induction later generalizing store with
  | nil => rfl
  | cons cfg later ih =>
      rw [List.map_cons, List.mem_cons, not_or] at absent
      exact (ih absent.2).trans (Dict.get?_set_ne _ _ absent.1)

theorem addAll_overwritten {left right : AuthorityProofStore} {digest : String}
    {later : List AuthorityConfiguration}
    (present : digest ∈ later.map (·.configurationDigest)) :
    (left.addAll later).get? digest = (right.addAll later).get? digest := by
  induction later generalizing left right with
  | nil => cases present
  | cons cfg later ih =>
      by_cases again : digest ∈ later.map (·.configurationDigest)
      · exact ih again
      · have mine : digest = cfg.configurationDigest :=
          (List.mem_cons.mp present).resolve_right again
        refine addAll_agree ?_ later
        rw [AuthorityProofStore.add, AuthorityProofStore.add, mine, Dict.get?_set_self,
          Dict.get?_set_self]

/-- Added between these, `added` takes the place of a facially valid configuration. -/
def Displaces (platform : Platform) (keys : PublicKeyRegistry)
    (before : List AuthorityConfiguration) (added : AuthorityConfiguration)
    (later : List AuthorityConfiguration) : Prop :=
  added.configurationDigest ∉ later.map (·.configurationDigest) ∧
    ∃ cfg, (empty.addAll (before ++ later)).get? added.configurationDigest = some cfg ∧
      faciallyValid platform keys (empty.addAll (before ++ later)) cfg = true

theorem addAll_append (store : AuthorityProofStore) (first second : List AuthorityConfiguration) :
    store.addAll (first ++ second) = (store.addAll first).addAll second :=
  List.foldl_append

/-- Under another digest the two stores file the same; under its own, `added` or what
comes later. -/
theorem addAll_inserted (before : List AuthorityConfiguration) (added : AuthorityConfiguration)
    (later : List AuthorityConfiguration) :
    (∀ digest, digest ≠ added.configurationDigest ∨
        added.configurationDigest ∈ later.map (·.configurationDigest) →
      (empty.addAll (before ++ later)).get? digest =
        (empty.addAll (before ++ added :: later)).get? digest) ∧
    (added.configurationDigest ∉ later.map (·.configurationDigest) →
      (empty.addAll (before ++ added :: later)).get? added.configurationDigest = some added) := by
  have split : empty.addAll (before ++ added :: later) =
      ((empty.addAll before).add added).addAll later := addAll_append _ _ _
  rw [split, addAll_append]
  constructor
  · intro digest apart
    by_cases mine : digest = added.configurationDigest
    · subst mine
      exact addAll_overwritten (apart.resolve_left (not_not.mpr rfl))
    · exact addAll_agree (Dict.get?_set_ne _ _ mine).symm later
  · intro absent
    rw [addAll_absent absent]
    exact Dict.get?_set_self _ _ _

/-- Adding a configuration gives it no parent that it did not have. -/
theorem added_unproven {before later : List AuthorityConfiguration}
    {added : AuthorityConfiguration}
    (unproven : faciallyValid platform keys (empty.addAll (before ++ later)) added = false)
    (absent : added.configurationDigest ∉ later.map (·.configurationDigest)) :
    faciallyValid platform keys (empty.addAll (before ++ added :: later)) added = false := by
  obtain ⟨elsewhere, here⟩ := addAll_inserted before added later
  unfold faciallyValid at unproven ⊢
  cases prior : added.priorConfigurationDigest with
  | none =>
      rw [prior] at unproven
      exact unproven
  | some above =>
      rw [prior] at unproven
      dsimp only at unproven ⊢
      by_cases own : above = added.configurationDigest
      · -- its own parent would be one epoch before itself
        rw [own, here absent, Option.any_some, Bool.eq_false_iff]
        intro facial
        unfold faciallyValidSuccessor at facial
        split_ifs at facial with _ _ epoch
        omega
      · rw [← elsewhere above (.inl own)]
        exact unproven

theorem sameButNoise_added {before later : List AuthorityConfiguration}
    {added : AuthorityConfiguration}
    (unproven : faciallyValid platform keys (empty.addAll (before ++ later)) added = false)
    (spared : ¬ Displaces platform keys before added later) :
    SameButNoise platform keys
      (fun digest => digest = added.configurationDigest ∧
        added.configurationDigest ∉ later.map (·.configurationDigest))
      (empty.addAll (before ++ later)) (empty.addAll (before ++ added :: later)) := by
  obtain ⟨elsewhere, here⟩ := addAll_inserted before added later
  have agree : ∀ digest, ¬ (digest = added.configurationDigest ∧
      added.configurationDigest ∉ later.map (·.configurationDigest)) →
      (empty.addAll (before ++ later)).get? digest =
        (empty.addAll (before ++ added :: later)).get? digest := by
    intro digest clear
    refine elsewhere digest ?_
    by_cases mine : digest = added.configurationDigest
    · exact .inr (not_not.mp fun absent => clear ⟨mine, absent⟩)
    · exact .inl mine
  refine ⟨filed_addAll filed_empty _, filed_addAll filed_empty _, agree, ?_, ?_⟩
  · rintro digest cfg ⟨rfl, absent⟩ found
    by_contra proven
    exact spared ⟨absent, cfg, found, by simpa using proven⟩
  · rintro digest cfg ⟨rfl, absent⟩ found
    rw [here absent, Option.some.injEq] at found
    subst found
    exact added_unproven unproven absent

/-- Where the head of a valid lineage is displaced, its verdict is lost. -/
theorem harmed_of_displaced {before later : List AuthorityConfiguration}
    {added : AuthorityConfiguration}
    (unproven : faciallyValid platform keys (empty.addAll (before ++ later)) added = false)
    (absent : added.configurationDigest ∉ later.map (·.configurationDigest))
    (valid : verifyConfiguration platform keys (empty.addAll (before ++ later))
      added.configurationDigest = .valid) :
    ¬ Unharmed platform keys (empty.addAll (before ++ later))
      (empty.addAll (before ++ added :: later)) := by
  intro unharmed
  obtain ⟨cfg, found, proven⟩ := faciallyValid_of_valid (unharmed.configuration _ valid)
  rw [(addAll_inserted before added later).2 absent, Option.some.injEq] at found
  subst found
  rw [added_unproven unproven absent] at proven
  cases proven

namespace Displaced

end Displaced

end Kawa
