import Kawa.Trust

/-!
Histories of a trust registry: what any later operation leaves of a key's binding and of
a revocation.
-/

namespace Kawa

/-! ## Operations and the state they leave -/

inductive TrustOperation
  | enroll (nodeRef keyRef : String) (incarnationRef : Option String) (scopes : List String)
  | grantScope (nodeRef scopeRef : String)
  | revokeScope (nodeRef scopeRef : String)
  | succeedIncarnation (nodeRef parentIncarnation newIncarnation newKeyRef : String)
  | revoke (keyRef : String) (fromSeq : Option Int)
  | rotate (nodeRef oldKeyRef newKeyRef : String)
deriving DecidableEq

def TrustOperation.perform : TrustOperation → TrustM
  | .enroll nodeRef keyRef incarnationRef scopes =>
      TrustRegistry.enroll nodeRef keyRef incarnationRef scopes
  | .grantScope nodeRef scopeRef => modify fun trust => trust.grantScope nodeRef scopeRef
  | .revokeScope nodeRef scopeRef => modify fun trust => trust.revokeScope nodeRef scopeRef
  | .succeedIncarnation nodeRef parent incarnation keyRef =>
      TrustRegistry.succeedIncarnation nodeRef parent incarnation keyRef
  | .revoke keyRef fromSeq => modify fun trust => trust.revoke keyRef fromSeq
  | .rotate nodeRef old new => TrustRegistry.rotate nodeRef old new

/-- The registry after an operation that may have raised. -/
def operate (trust : TrustRegistry) (operation : TrustOperation) : TrustRegistry :=
  match operation.perform trust with
  | .ok _ next => next
  | .error _ next => next

def refuses (trust : TrustRegistry) (operation : TrustOperation) : Bool :=
  match operation.perform trust with
  | .ok _ _ => false
  | .error _ _ => true

namespace TrustRegistry

def after (trust : TrustRegistry) (operations : List TrustOperation) : TrustRegistry :=
  operations.foldl operate trust

@[simp] theorem after_append (trust : TrustRegistry) (before later : List TrustOperation) :
    trust.after (before ++ later) = (trust.after before).after later :=
  List.foldl_append

/-- What every operation keeps, every history keeps. -/
theorem after_invariant (Inv : TrustRegistry → Prop)
    (preserved : ∀ trust operation, Inv trust → Inv (operate trust operation))
    {trust : TrustRegistry} (holds : Inv trust) (operations : List TrustOperation) :
    Inv (trust.after operations) := by
  induction operations generalizing trust with
  | nil => exact holds
  | cons operation operations ih => exact ih (preserved trust operation holds)

variable {trust : TrustRegistry}

/-! ## What each operation does -/

@[simp] theorem mintIncarnation_keys (incarnationRef : String) (incarnation : Incarnation) :
    (trust.mintIncarnation incarnationRef incarnation).keys = trust.keys := by
  unfold mintIncarnation
  split <;> rfl

@[simp] theorem grantScope_keys (nodeRef scopeRef : String) :
    (trust.grantScope nodeRef scopeRef).keys = trust.keys := rfl

@[simp] theorem revokeScope_keys (trust : TrustRegistry) (nodeRef scopeRef : String) :
    (trust.revokeScope nodeRef scopeRef).keys = trust.keys := by
  unfold revokeScope
  dsimp only
  split <;> rfl

theorem grantScopes_keys (nodeRef : String) (scopes : List String) (trust : TrustRegistry) :
    (scopes.foldl (fun trust scope => trust.grantScope nodeRef scope) trust).keys =
      trust.keys := by
  induction scopes generalizing trust with
  | nil => rfl
  | cons scope scopes ih => exact ih (trust.grantScope nodeRef scope)

theorem requireUnboundOrSame_cases (trust : TrustRegistry) (nodeRef keyRef : String) :
    ((∀ bound ∈ trust.nodeRef keyRef, bound = nodeRef) ∧
        requireUnboundOrSame nodeRef keyRef trust = .ok () trust) ∨
      (¬ (∀ bound ∈ trust.nodeRef keyRef, bound = nodeRef) ∧
        ∃ error, requireUnboundOrSame nodeRef keyRef trust = .error error trust) := by
  unfold requireUnboundOrSame TrustRegistry.nodeRef
  simp only [bind, EStateM.bind, get, getThe, MonadStateOf.get, EStateM.get]
  cases trust.keys.get? keyRef with
  | none => simp [pure, EStateM.pure]
  | some existing =>
      by_cases same : existing.nodeRef = nodeRef
      · simp [same, pure, EStateM.pure]
      · simp [same, throw, throwThe, MonadExceptOf.throw, EStateM.throw]

/-- When `enroll` returns. -/
structure EnrollAccepted (trust : TrustRegistry) (nodeRef keyRef : String)
    (incarnationRef : Option String) : Prop where
  live : trust.standing keyRef none ≠ .revoked
  own : ∀ bound ∈ trust.nodeRef keyRef, bound = nodeRef
  incarnation : ∀ existing ∈ trust.incarnations.get? (declaredIncarnation nodeRef incarnationRef),
    existing.nodeRef = nodeRef

def enrolled (trust : TrustRegistry) (nodeRef keyRef : String) (incarnationRef : Option String)
    (scopes : List String) : TrustRegistry :=
  let inc := declaredIncarnation nodeRef incarnationRef
  scopes.foldl (fun trust scope => trust.grantScope nodeRef scope)
    ((trust.mintIncarnation inc { nodeRef := nodeRef, parent := none }).bindKey keyRef nodeRef inc)

theorem enroll_cases (trust : TrustRegistry) (nodeRef keyRef : String) (incarnationRef : Option String)
    (scopes : List String) :
    (trust.EnrollAccepted nodeRef keyRef incarnationRef ∧
        enroll nodeRef keyRef incarnationRef scopes trust =
          .ok () (trust.enrolled nodeRef keyRef incarnationRef scopes)) ∨
      (¬ trust.EnrollAccepted nodeRef keyRef incarnationRef ∧
        ∃ error, enroll nodeRef keyRef incarnationRef scopes trust = .error error trust) := by
  unfold enroll
  simp only [bind, EStateM.bind, get, getThe, MonadStateOf.get, EStateM.get]
  by_cases revoked : trust.standing keyRef none = .revoked
  · refine .inr ⟨fun accepted => accepted.live revoked, .enrollRevoked, ?_⟩
    simp [EStateM.bind, revoked, throw, throwThe, MonadExceptOf.throw, EStateM.throw]
  · rcases requireUnboundOrSame_cases trust nodeRef keyRef with
      ⟨own, passed⟩ | ⟨foreign, error, raised⟩
    · cases minted : trust.incarnations.get? (declaredIncarnation nodeRef incarnationRef) with
      | none =>
          refine .inl ⟨⟨revoked, own, by simp [minted]⟩, ?_⟩
          simp [EStateM.bind, EStateM.get, revoked, passed, minted, modify, modifyGet,
            MonadStateOf.modifyGet, EStateM.modifyGet, enrolled]
      | some existing =>
          by_cases same : existing.nodeRef = nodeRef
          · refine .inl ⟨⟨revoked, own, by simp [minted, same]⟩, ?_⟩
            simp [EStateM.bind, EStateM.get, revoked, passed, minted, same, modify, modifyGet,
              MonadStateOf.modifyGet, EStateM.modifyGet, enrolled]
          · refine .inr ⟨fun accepted => same (accepted.incarnation existing minted),
              
                .incarnationElsewhere (declaredIncarnation nodeRef incarnationRef) existing.nodeRef, ?_⟩
            simp [EStateM.bind, EStateM.get, revoked, passed, minted, same, throw, throwThe,
              MonadExceptOf.throw, EStateM.throw]
    · refine .inr ⟨fun accepted => foreign accepted.own, error, ?_⟩
      simp [EStateM.bind, revoked, raised]

theorem enrolled_keys (nodeRef keyRef : String) (incarnationRef : Option String)
    (scopes : List String) :
    (trust.enrolled nodeRef keyRef incarnationRef scopes).keys =
      (trust.bindKey keyRef nodeRef (declaredIncarnation nodeRef incarnationRef)).keys := by
  unfold enrolled
  rw [grantScopes_keys]
  simp only [bindKey, mintIncarnation_keys]

/-- A succession writes one fresh key, or nothing. -/
theorem succeedIncarnation_cases (trust : TrustRegistry) (nodeRef parent incarnation keyRef : String) :
    (trust.keys.get? keyRef = none ∧ ∃ next,
        succeedIncarnation nodeRef parent incarnation keyRef trust = .ok () next ∧
        next.keys = (trust.bindKey keyRef nodeRef incarnation).keys) ∨
      ∃ error, succeedIncarnation nodeRef parent incarnation keyRef trust = .error error trust := by
  unfold succeedIncarnation
  simp only [bind, EStateM.bind, get, getThe, MonadStateOf.get, throw, throwThe,
    MonadExceptOf.throw, modify, modifyGet, MonadStateOf.modifyGet]
  cases held : trust.keys.get? keyRef with
  | some entry =>
      exact .inr ⟨.keyNotFresh, by simp [EStateM.bind, EStateM.get, EStateM.throw, held]⟩
  | none =>
      have live : trust.standing keyRef none = .unknown := by simp [standing, held]
      cases parentHeld : trust.incarnations.get? parent with
      | none =>
          refine .inr ⟨.unknownParent parent, ?_⟩
          simp [EStateM.bind, EStateM.get, EStateM.throw, held, live, parentHeld]
      | some existing =>
          by_cases same : existing.nodeRef = nodeRef
          · cases minted : trust.incarnations.get? incarnation with
            | none =>
                let minting : TrustRegistry :=
                  { trust with incarnations := trust.incarnations.set incarnation
                                { nodeRef := nodeRef, parent := some parent } }
                refine .inl ⟨rfl, minting.bindKey keyRef nodeRef incarnation, ?_, ?_⟩
                · simp only [EStateM.bind, EStateM.get, EStateM.modifyGet, held, live,
                    parentHeld, same, minted, Option.isSome_none, Bool.false_eq_true, ↓reduceIte,
                    ne_eq, not_true_eq_false, reduceCtorEq]
                  rfl
                · rfl
            | some other =>
                refine .inr ⟨.incarnationExists incarnation, ?_⟩
                simp [EStateM.bind, EStateM.get, EStateM.throw, held, live,
                  parentHeld, same, minted]
          · refine .inr ⟨.parentElsewhere existing.nodeRef, ?_⟩
            simp [EStateM.bind, EStateM.get, EStateM.throw, held, live, parentHeld,
              same]

/-- When `rotate` returns. -/
structure RotateAccepted (trust : TrustRegistry) (nodeRef oldKeyRef newKeyRef : String) :
    Prop where
  liveNew : trust.standing newKeyRef none ≠ .revoked
  liveOld : trust.standing oldKeyRef none ≠ .revoked
  ownOld : ∀ bound ∈ trust.nodeRef oldKeyRef, bound = nodeRef
  ownNew : ∀ bound ∈ trust.nodeRef newKeyRef, bound = nodeRef

theorem retire_get? (oldKeyRef keyRef : String) :
    (trust.retire oldKeyRef).keys.get? keyRef = (trust.keys.get? keyRef).map fun entry =>
      if keyRef = oldKeyRef ∧ entry.standing = .active then { entry with standing := .rotated }
      else entry := by
  unfold retire
  cases held : trust.keys.get? oldKeyRef with
  | none =>
      by_cases same : keyRef = oldKeyRef
      · rw [same, held]
        rfl
      · simp [same]
  | some old =>
      by_cases active : old.standing = .active
      · simp only [active, ↓reduceIte]
        by_cases same : keyRef = oldKeyRef
        · rw [same, held, Dict.get?_set_self]
          simp [active]
        · rw [Dict.get?_set_ne _ _ same]
          simp [same]
      · simp only [active, ↓reduceIte]
        by_cases same : keyRef = oldKeyRef
        · rw [same, held]
          simp [active]
        · simp [same]

theorem retire_incarnationRef (oldKeyRef keyRef : String) :
    (trust.retire oldKeyRef).incarnationRef keyRef = trust.incarnationRef keyRef := by
  unfold incarnationRef
  rw [retire_get?, Option.map_map]
  congr 1
  funext entry
  simp only [Function.comp]
  split <;> rfl

def rotated (trust : TrustRegistry) (nodeRef oldKeyRef newKeyRef : String) : TrustRegistry :=
  let retired := trust.retire oldKeyRef
  let inc := retired.continuedIncarnation nodeRef oldKeyRef
  (retired.mintIncarnation inc { nodeRef := nodeRef, parent := none }).bindKey newKeyRef nodeRef inc

theorem rotate_cases (trust : TrustRegistry) (nodeRef oldKeyRef newKeyRef : String) :
    (trust.RotateAccepted nodeRef oldKeyRef newKeyRef ∧ ∃ next,
        rotate nodeRef oldKeyRef newKeyRef trust = .ok () next ∧
        next.keys = ((trust.retire oldKeyRef).bindKey newKeyRef nodeRef
          (trust.continuedIncarnation nodeRef oldKeyRef)).keys) ∨
      (¬ trust.RotateAccepted nodeRef oldKeyRef newKeyRef ∧
        ∃ error, rotate nodeRef oldKeyRef newKeyRef trust = .error error trust) := by
  unfold rotate
  simp only [bind, EStateM.bind, get, getThe, MonadStateOf.get, EStateM.get]
  by_cases revokedNew : trust.standing newKeyRef none = .revoked
  · refine .inr ⟨fun accepted => accepted.liveNew revokedNew, .rotateToRevoked, ?_⟩
    simp [EStateM.bind, revokedNew, throw, throwThe, MonadExceptOf.throw, EStateM.throw]
  by_cases revokedOld : trust.standing oldKeyRef none = .revoked
  · refine .inr ⟨fun accepted => accepted.liveOld revokedOld, .rotateFromRevoked, ?_⟩
    simp [EStateM.bind, EStateM.get, revokedNew, revokedOld, throw, throwThe, MonadExceptOf.throw, EStateM.throw]
  rcases requireUnboundOrSame_cases trust nodeRef oldKeyRef with
    ⟨ownOld, passedOld⟩ | ⟨foreign, error, raised⟩
  · rcases requireUnboundOrSame_cases trust nodeRef newKeyRef with
      ⟨ownNew, passedNew⟩ | ⟨foreign, error, raised⟩
    · refine .inl ⟨⟨revokedNew, revokedOld, ownOld, ownNew⟩,
        trust.rotated nodeRef oldKeyRef newKeyRef, ?_, ?_⟩
      · simp only [EStateM.bind, EStateM.get, revokedNew, revokedOld, passedOld, passedNew, ↓reduceIte,
          modify, modifyGet, MonadStateOf.modifyGet, EStateM.modifyGet]
        rfl
      · simp only [rotated, bindKey, mintIncarnation_keys, continuedIncarnation, retire_incarnationRef]
    · refine .inr ⟨fun accepted => foreign accepted.ownNew, error, ?_⟩
      simp [EStateM.bind, EStateM.get, revokedNew, revokedOld, passedOld, raised]
  · refine .inr ⟨fun accepted => foreign accepted.ownOld, error, ?_⟩
    simp [EStateM.bind, EStateM.get, revokedNew, revokedOld, raised]

end TrustRegistry

/-! ## The keys after an operation -/

section Operate

variable {trust : TrustRegistry}

theorem operate_enroll (trust : TrustRegistry) (nodeRef keyRef : String) (incarnationRef : Option String)
    (scopes : List String) :
    (trust.EnrollAccepted nodeRef keyRef incarnationRef ∧
        (operate trust (.enroll nodeRef keyRef incarnationRef scopes)).keys =
          (trust.bindKey keyRef nodeRef (declaredIncarnation nodeRef incarnationRef)).keys) ∨
      (¬ trust.EnrollAccepted nodeRef keyRef incarnationRef ∧
        operate trust (.enroll nodeRef keyRef incarnationRef scopes) = trust) := by
  unfold operate TrustOperation.perform
  rcases TrustRegistry.enroll_cases trust nodeRef keyRef incarnationRef scopes with
    ⟨accepted, done⟩ | ⟨refused, error, raised⟩
  · left
    simp only [done]
    exact ⟨accepted, TrustRegistry.enrolled_keys nodeRef keyRef incarnationRef scopes⟩
  · right
    simp only [raised]
    exact ⟨refused, trivial⟩

theorem operate_succeedIncarnation (trust : TrustRegistry) (nodeRef parent incarnation keyRef : String) :
    (trust.keys.get? keyRef = none ∧
        (operate trust (.succeedIncarnation nodeRef parent incarnation keyRef)).keys =
          (trust.bindKey keyRef nodeRef incarnation).keys) ∨
      operate trust (.succeedIncarnation nodeRef parent incarnation keyRef) = trust := by
  unfold operate TrustOperation.perform
  rcases TrustRegistry.succeedIncarnation_cases trust nodeRef parent incarnation keyRef
    with ⟨fresh, next, done, keys⟩ | ⟨error, raised⟩
  · left
    simp only [done]
    exact ⟨fresh, keys⟩
  · right
    simp only [raised]

theorem operate_rotate (trust : TrustRegistry) (nodeRef old new : String) :
    (trust.RotateAccepted nodeRef old new ∧
        (operate trust (.rotate nodeRef old new)).keys = ((trust.retire old).bindKey new nodeRef
          (trust.continuedIncarnation nodeRef old)).keys) ∨
      (¬ trust.RotateAccepted nodeRef old new ∧ operate trust (.rotate nodeRef old new) = trust) := by
  unfold operate TrustOperation.perform
  rcases TrustRegistry.rotate_cases trust nodeRef old new with
    ⟨accepted, next, done, keys⟩ | ⟨refused, error, raised⟩
  · left
    simp only [done]
    exact ⟨accepted, keys⟩
  · right
    simp only [raised]
    exact ⟨refused, trivial⟩

/-- An operation that raises has written nothing. -/
theorem refused_unchanged (operation : TrustOperation)
    (refused : refuses trust operation = true) : operate trust operation = trust := by
  unfold refuses TrustOperation.perform at refused
  unfold operate TrustOperation.perform
  cases operation with
  | enroll nodeRef keyRef incarnationRef scopes =>
      rcases TrustRegistry.enroll_cases trust nodeRef keyRef incarnationRef scopes with
        ⟨_, done⟩ | ⟨_, error, raised⟩
      · simp [done] at refused
      · simp only [raised]
  | grantScope nodeRef scopeRef => cases refused
  | revokeScope nodeRef scopeRef => cases refused
  | succeedIncarnation nodeRef parent incarnation keyRef =>
      rcases TrustRegistry.succeedIncarnation_cases trust nodeRef parent incarnation
        keyRef with ⟨_, next, done, _⟩ | ⟨error, raised⟩
      · simp [done] at refused
      · simp only [raised]
  | revoke keyRef fromSeq => cases refused
  | rotate nodeRef old new =>
      rcases TrustRegistry.rotate_cases trust nodeRef old new with
        ⟨_, next, done, _⟩ | ⟨_, error, raised⟩
      · simp [done] at refused
      · simp only [raised]

theorem bindKey_get? (keyRef nodeRef incarnationRef other : String) :
    (trust.bindKey keyRef nodeRef incarnationRef).keys.get? other =
      if other = keyRef then
        some { nodeRef := nodeRef, standing := .active, incarnationRef := incarnationRef,
               revokedFromSeq := none, priorStanding := none }
      else trust.keys.get? other := by
  unfold TrustRegistry.bindKey
  by_cases same : other = keyRef
  · rw [if_pos same, same]
    exact Dict.get?_set_self _ _ _
  · rw [if_neg same]
    exact Dict.get?_set_ne _ _ same

/-- What a revocation makes of a held entry. -/
def TrustEntry.revised (entry : TrustEntry) (fromSeq : Option Int) : TrustEntry :=
  if entry.standing ≠ .revoked then
    match fromSeq with
    | some seq =>
        { entry with
          revokedFromSeq := some seq
          priorStanding := some entry.standing
          standing := .revoked }
    | none => { entry with standing := .revoked }
  else
    match fromSeq with
    | some _ => entry
    | none => { entry with revokedFromSeq := none, priorStanding := none }

theorem revoke_get? (keyRef : String) (fromSeq : Option Int) (other : String) :
    (trust.revoke keyRef fromSeq).keys.get? other = (trust.keys.get? other).map fun entry =>
      if other = keyRef then entry.revised fromSeq else entry := by
  unfold TrustRegistry.revoke
  cases held : trust.keys.get? keyRef with
  | none =>
      by_cases same : other = keyRef
      · rw [same, held]
        rfl
      · simp [same]
  | some entry =>
      by_cases same : other = keyRef
      · rw [same, held]
        simp only [Dict.get?_set_self, Option.map_some, ↓reduceIte]
        rfl
      · simp only [same, ↓reduceIte, Option.map_id']
        exact Dict.get?_set_ne _ _ same

end Operate

/-! ## Bindings -/

namespace TrustRegistry

/-- The node and the incarnation of a key. -/
def binding (trust : TrustRegistry) (keyRef : String) : Option (String × String) :=
  (trust.keys.get? keyRef).map fun entry => (entry.nodeRef, entry.incarnationRef)

end TrustRegistry

/-- The operation is accepted for a key that is bound, under another incarnation than its own. -/
def TrustOperation.Rebinds (trust : TrustRegistry) : TrustOperation → Prop
  | .enroll nodeRef keyRef incarnationRef _ =>
      trust.EnrollAccepted nodeRef keyRef incarnationRef ∧
        ∃ own, trust.incarnationRef keyRef = some own ∧
          own ≠ declaredIncarnation nodeRef incarnationRef
  | .rotate nodeRef old new =>
      trust.RotateAccepted nodeRef old new ∧
        ∃ own, trust.incarnationRef new = some own ∧
          own ≠ trust.continuedIncarnation nodeRef old
  | _ => False

section Bindings

variable {trust : TrustRegistry}

theorem binding_eq_some {keyRef nodeRef incarnationRef : String} :
    trust.binding keyRef = some (nodeRef, incarnationRef) ↔
      trust.nodeRef keyRef = some nodeRef ∧ trust.incarnationRef keyRef = some incarnationRef := by
  unfold TrustRegistry.binding TrustRegistry.nodeRef TrustRegistry.incarnationRef
  cases trust.keys.get? keyRef <;> simp

theorem binding_congr {next : TrustRegistry} {keyRef : String}
    (same : next.keys.get? keyRef = trust.keys.get? keyRef) :
    next.binding keyRef = trust.binding keyRef := by
  unfold TrustRegistry.binding
  rw [same]

/-- Writing a bound key under its own node leaves the pair only if the incarnation is its own. -/
theorem binding_bindKey (trust : TrustRegistry) {next : TrustRegistry} {keyRef nodeRef incarnationRef : String}
    (keys : next.keys = (trust.bindKey keyRef nodeRef incarnationRef).keys) (other : String) :
    next.binding other = if other = keyRef then some (nodeRef, incarnationRef)
      else trust.binding other := by
  unfold TrustRegistry.binding
  rw [keys, bindKey_get?]
  split <;> rfl

theorem binding_retire (old keyRef : String) :
    (trust.retire old).binding keyRef = trust.binding keyRef := by
  unfold TrustRegistry.binding
  rw [TrustRegistry.retire_get?, Option.map_map]
  congr 1
  funext entry
  simp only [Function.comp]
  split <;> rfl

theorem binding_revoke (keyRef : String) (fromSeq : Option Int) (other : String) :
    (trust.revoke keyRef fromSeq).binding other = trust.binding other := by
  unfold TrustRegistry.binding
  rw [revoke_get?, Option.map_map]
  congr 1
  funext entry
  simp only [Function.comp]
  split
  · unfold TrustEntry.revised
    split <;> split <;> rfl
  · rfl

/-- An operation that does not rebind keeps every pair. -/
theorem binding_operate {operation : TrustOperation} (calm : ¬ operation.Rebinds trust)
    {keyRef nodeRef incarnationRef : String}
    (bound : trust.binding keyRef = some (nodeRef, incarnationRef)) :
    (operate trust operation).binding keyRef = some (nodeRef, incarnationRef) := by
  obtain ⟨node, incarnation⟩ := binding_eq_some.mp bound
  cases operation with
  | enroll claimed named declared scopes =>
      rcases operate_enroll trust claimed named declared scopes with
        ⟨accepted, keys⟩ | ⟨_, same⟩
      · rw [binding_bindKey _ keys]
        by_cases mine : keyRef = named
        · subst mine
          have ownNode := accepted.own nodeRef node
          have ownIncarnation : incarnationRef = declaredIncarnation claimed declared :=
            by_contra fun differ => calm ⟨accepted, incarnationRef, incarnation, differ⟩
          rw [if_pos rfl, ownNode, ← ownIncarnation]
        · rw [if_neg mine, bound]
      · rw [same, bound]
  | grantScope claimed scope => exact bound
  | revokeScope claimed scope =>
      rw [← bound]
      exact binding_congr (by simp [operate, TrustOperation.perform, modify, modifyGet,
        MonadStateOf.modifyGet, EStateM.modifyGet])
  | succeedIncarnation claimed parent fresh named =>
      rcases operate_succeedIncarnation trust claimed parent fresh named with
        ⟨unbound, keys⟩ | same
      · rw [binding_bindKey _ keys]
        have other : keyRef ≠ named := by
          rintro rfl
          simp [TrustRegistry.nodeRef, unbound] at node
        rw [if_neg other, bound]
      · rw [same, bound]
  | revoke named fromSeq =>
      rw [← bound]
      exact binding_revoke named fromSeq keyRef
  | rotate claimed old new =>
      rcases operate_rotate trust claimed old new with ⟨accepted, keys⟩ | ⟨_, same⟩
      · rw [binding_bindKey _ keys]
        by_cases mine : keyRef = new
        · subst mine
          have ownNode := accepted.ownNew nodeRef node
          have ownIncarnation : incarnationRef = trust.continuedIncarnation claimed old :=
            by_contra fun differ => calm ⟨accepted, incarnationRef, incarnation, differ⟩
          rw [if_pos rfl, ownNode, ← ownIncarnation]
        · rw [if_neg mine, binding_retire, bound]
      · rw [same, bound]

/-- An operation that rebinds gives a bound key another incarnation. -/
theorem binding_rebound {operation : TrustOperation} (rebinds : operation.Rebinds trust) :
    ∃ keyRef nodeRef incarnationRef, trust.nodeRef keyRef = some nodeRef ∧
      trust.incarnationRef keyRef = some incarnationRef ∧
      (operate trust operation).incarnationRef keyRef ≠ some incarnationRef := by
  have paired : ∀ {keyRef own : String}, trust.incarnationRef keyRef = some own →
      ∃ nodeRef, trust.nodeRef keyRef = some nodeRef := by
    intro keyRef own held
    obtain ⟨entry, found, _⟩ := Option.map_eq_some_iff.mp held
    exact ⟨entry.nodeRef, by simp [TrustRegistry.nodeRef, found]⟩
  cases operation with
  | enroll claimed named declared scopes =>
      obtain ⟨accepted, own, held, differ⟩ := rebinds
      obtain ⟨nodeRef, node⟩ := paired held
      rcases operate_enroll trust claimed named declared scopes with
        ⟨_, keys⟩ | ⟨refused, _⟩
      · refine ⟨named, nodeRef, own, node, held, fun kept => differ ?_⟩
        have rebound := binding_bindKey trust keys named
        rw [if_pos rfl, binding_eq_some, kept, Option.some.injEq] at rebound
        exact rebound.2
      · exact absurd accepted refused
  | rotate claimed old new =>
      obtain ⟨accepted, own, held, differ⟩ := rebinds
      obtain ⟨nodeRef, node⟩ := paired held
      rcases operate_rotate trust claimed old new with ⟨_, keys⟩ | ⟨refused, _⟩
      · refine ⟨new, nodeRef, own, node, held, fun kept => differ ?_⟩
        have rebound := binding_bindKey (trust.retire old) keys new
        rw [if_pos rfl, binding_eq_some, kept, Option.some.injEq] at rebound
        exact rebound.2
      · exact absurd accepted refused
  | grantScope claimed scope => cases rebinds
  | revokeScope claimed scope => cases rebinds
  | succeedIncarnation claimed parent fresh named => cases rebinds
  | revoke named fromSeq => cases rebinds

end Bindings

/-- Once bound, a key keeps its node and its incarnation in every later state of the history. -/
def BindingPermanent (trust : TrustRegistry) (operations : List TrustOperation) : Prop :=
  ∀ before later rest, operations = before ++ later ++ rest →
    ∀ keyRef nodeRef incarnationRef,
      (trust.after before).nodeRef keyRef = some nodeRef →
      (trust.after before).incarnationRef keyRef = some incarnationRef →
        (trust.after (before ++ later)).nodeRef keyRef = some nodeRef ∧
          (trust.after (before ++ later)).incarnationRef keyRef = some incarnationRef

/-- The call at any point of the history that raises leaves the registry as it was. -/
def RefusalsUnchanged (trust : TrustRegistry) (operations : List TrustOperation) : Prop :=
  ∀ before operation rest, operations = before ++ operation :: rest →
    refuses (trust.after before) operation = true →
      trust.after (before ++ [operation]) = trust.after before

/-- A history keeps every binding exactly when none of its operations is accepted for a bound
key under another incarnation. -/
theorem binding_permanent_iff (trust : TrustRegistry) (operations : List TrustOperation) :
    (BindingPermanent trust operations ∧ RefusalsUnchanged trust operations) ↔
      ∀ before operation rest, operations = before ++ operation :: rest →
        ¬ operation.Rebinds (trust.after before) := by
  constructor
  · rintro ⟨permanent, _⟩ before operation rest split rebinds
    obtain ⟨keyRef, nodeRef, incarnationRef, node, incarnation, moved⟩ := binding_rebound rebinds
    have kept := permanent before [operation] rest (by simp [split]) keyRef nodeRef incarnationRef
      node incarnation
    rw [TrustRegistry.after_append] at kept
    exact moved kept.2
  · intro calm
    constructor
    · intro before later rest split keyRef nodeRef incarnationRef node incarnation
      rw [← binding_eq_some]
      have bound := binding_eq_some.mpr ⟨node, incarnation⟩
      clear node incarnation
      -- one operation of `later` after the other; `before` takes up those already done
      induction later generalizing before with
      | nil => simpa using bound
      | cons operation later ih =>
          have step := binding_operate
            (calm before operation (later ++ rest) (by simp [split])) bound
          have moved := ih (before ++ [operation]) (by simp [split])
            (by rw [TrustRegistry.after_append]; exact step)
          simpa using moved
    · intro before operation rest _ refused
      rw [TrustRegistry.after_append]
      exact refused_unchanged operation refused

/-- A key enrolled again, by the same node under another incarnation, changes incarnation. -/
theorem enrolled_twice : ¬ (∀ operations : List TrustOperation,
    BindingPermanent (TrustRegistry.ofLegacy []) operations ∧
      RefusalsUnchanged (TrustRegistry.ofLegacy []) operations) := by
  intro always
  obtain ⟨permanent, _⟩ := always
    [.enroll "node" "key" none [], .enroll "node" "key" (some "restored") []]
  have kept := permanent [.enroll "node" "key" none []]
    [.enroll "node" "key" (some "restored") []] [] rfl "key" "node" "inc:node:genesis"
    (by decide) (by decide)
  exact absurd kept.2 (by decide)

/-! ## Revocations -/

/-- Only a revoked key carries a bound, and its standing before the revocation is kept. -/
def TrustEntry.Scoped (entry : TrustEntry) : Prop :=
  ∀ bound, entry.revokedFromSeq = some bound →
    entry.standing = .revoked ∧ ∃ prior, entry.priorStanding = some prior ∧ prior ≠ .revoked

def TrustRegistry.Scoped (trust : TrustRegistry) : Prop :=
  ∀ keyRef entry, trust.keys.get? keyRef = some entry → entry.Scoped

theorem TrustEntry.Scoped.revised {entry : TrustEntry} (bounds : entry.Scoped)
    (fromSeq : Option Int) : (entry.revised fromSeq).Scoped := by
  intro bound set
  unfold TrustEntry.revised at set ⊢
  by_cases live : entry.standing ≠ .revoked
  · rw [if_pos live] at set ⊢
    cases fromSeq with
    | none => exact absurd (bounds bound set).1 live
    | some seq => exact ⟨rfl, entry.standing, rfl, live⟩
  · rw [if_neg live] at set ⊢
    cases fromSeq with
    | none => cases set
    | some seq => exact bounds bound set

section Revocations

variable {trust : TrustRegistry}

theorem Scoped.bindKey (bounds : trust.Scoped) {next : TrustRegistry}
    {keyRef nodeRef incarnationRef : String}
    (keys : next.keys = (trust.bindKey keyRef nodeRef incarnationRef).keys) : next.Scoped := by
  intro other entry held
  rw [keys, bindKey_get?] at held
  split at held
  · obtain rfl := Option.some.inj held
    intro bound set
    cases set
  · exact bounds other entry held

theorem Scoped.retire (bounds : trust.Scoped) (old : String) : (trust.retire old).Scoped := by
  intro keyRef entry held
  rw [TrustRegistry.retire_get?] at held
  obtain ⟨before, found, rfl⟩ := Option.map_eq_some_iff.mp held
  intro bound set
  split at set
  · rename_i active
    rw [(bounds keyRef before found bound set).1] at active
    cases active.2
  · rename_i other
    rw [if_neg other]
    exact bounds keyRef before found bound set

theorem Scoped.operate (bounds : trust.Scoped) (operation : TrustOperation) :
    (operate trust operation).Scoped := by
  cases operation with
  | enroll nodeRef keyRef incarnationRef scopes =>
      rcases operate_enroll trust nodeRef keyRef incarnationRef scopes with
        ⟨_, keys⟩ | ⟨_, same⟩
      · exact Scoped.bindKey bounds keys
      · rw [same]
        exact bounds
  | grantScope nodeRef scopeRef => exact bounds
  | revokeScope nodeRef scopeRef =>
      intro keyRef entry held
      exact bounds keyRef entry
        (TrustRegistry.revokeScope_keys trust nodeRef scopeRef ▸ held)
  | succeedIncarnation nodeRef parent incarnation keyRef =>
      rcases operate_succeedIncarnation trust nodeRef parent incarnation keyRef with
        ⟨_, keys⟩ | same
      · exact Scoped.bindKey bounds keys
      · rw [same]
        exact bounds
  | revoke keyRef fromSeq =>
      intro other entry held
      have found : (trust.revoke keyRef fromSeq).keys.get? other = some entry := held
      rw [revoke_get?] at found
      obtain ⟨before, inTrust, rfl⟩ := Option.map_eq_some_iff.mp found
      split
      · exact (bounds other before inTrust).revised fromSeq
      · exact bounds other before inTrust
  | rotate nodeRef old new =>
      rcases operate_rotate trust nodeRef old new with ⟨_, keys⟩ | ⟨_, same⟩
      · exact Scoped.bindKey (Scoped.retire bounds old) keys
      · rw [same]
        exact bounds

theorem Scoped.ofLegacy (flat : Dict String LegacyEntry) :
    (TrustRegistry.ofLegacy flat).Scoped := by
  have keys : ∀ (entries : Dict String LegacyEntry) (trust : TrustRegistry),
      (entries.foldl (fun trust (_, entry) => trust.mintIncarnation
        (genesisIncarnation entry.nodeRef) { nodeRef := entry.nodeRef, parent := none })
          trust).keys = trust.keys := by
    intro entries
    induction entries with
    | nil => exact fun _ => rfl
    | cons entry entries ih =>
        exact fun trust => (ih _).trans (TrustRegistry.mintIncarnation_keys _ _)
  intro keyRef entry held bound set
  unfold TrustRegistry.ofLegacy at held
  simp only [keys] at held
  obtain ⟨⟨named, legacy⟩, _, same⟩ := List.mem_map.mp (Dict.mem_of_get? held)
  cases same
  cases set

/-- The entry is revoked at every position from the bound on. -/
structure TrustEntry.Withdrawn (entry : TrustEntry) (fromSeq : Option Int) : Prop where
  revoked : entry.standing = .revoked
  within : ∀ bound, entry.revokedFromSeq = some bound → ∃ seq, fromSeq = some seq ∧ bound ≤ seq

theorem standing_of_get? {keyRef : String} {entry : TrustEntry}
    (held : trust.keys.get? keyRef = some entry) : trust.standing keyRef none = entry.standing := by
  simp [TrustRegistry.standing, held]

/-- No operation takes a revocation back. -/
theorem withdrawn_operate {keyRef : String} {entry : TrustEntry} {fromSeq : Option Int}
    (held : trust.keys.get? keyRef = some entry) (withdrawn : entry.Withdrawn fromSeq)
    (operation : TrustOperation) :
    ∃ now, (operate trust operation).keys.get? keyRef = some now ∧ now.Withdrawn fromSeq := by
  have dead : trust.standing keyRef none = .revoked :=
    (standing_of_get? held).trans withdrawn.revoked
  cases operation with
  | enroll nodeRef named incarnationRef scopes =>
      rcases operate_enroll trust nodeRef named incarnationRef scopes with
        ⟨accepted, keys⟩ | ⟨_, same⟩
      · have other : keyRef ≠ named := fun mine => accepted.live (mine ▸ dead)
        exact ⟨entry, by rw [keys, bindKey_get?, if_neg other, held], withdrawn⟩
      · exact ⟨entry, by rw [same, held], withdrawn⟩
  | grantScope nodeRef scopeRef => exact ⟨entry, held, withdrawn⟩
  | revokeScope nodeRef scopeRef =>
      refine ⟨entry, ?_, withdrawn⟩
      rw [← held]
      exact congrArg (Dict.get? · keyRef)
        (TrustRegistry.revokeScope_keys trust nodeRef scopeRef)
  | succeedIncarnation nodeRef parent incarnation named =>
      rcases operate_succeedIncarnation trust nodeRef parent incarnation named with
        ⟨fresh, keys⟩ | same
      · have other : keyRef ≠ named := by
          rintro rfl
          rw [held] at fresh
          cases fresh
        exact ⟨entry, by rw [keys, bindKey_get?, if_neg other, held], withdrawn⟩
      · exact ⟨entry, by rw [same, held], withdrawn⟩
  | revoke named later =>
      have found : (operate trust (.revoke named later)).keys.get? keyRef =
          some (if keyRef = named then entry.revised later else entry) := by
        rw [show operate trust (.revoke named later) = trust.revoke named later from rfl,
          revoke_get?, held]
        rfl
      refine ⟨_, found, ?_⟩
      split
      · unfold TrustEntry.revised
        rw [if_neg (not_not.mpr withdrawn.revoked)]
        cases later with
        | none => exact ⟨withdrawn.revoked, fun bound set => by cases set⟩
        | some seq => exact withdrawn
      · exact withdrawn
  | rotate nodeRef old new =>
      rcases operate_rotate trust nodeRef old new with ⟨accepted, keys⟩ | ⟨_, same⟩
      · have otherNew : keyRef ≠ new := fun mine => accepted.liveNew (mine ▸ dead)
        have otherOld : keyRef ≠ old := fun mine => accepted.liveOld (mine ▸ dead)
        refine ⟨entry, ?_, withdrawn⟩
        rw [keys, bindKey_get?, if_neg otherNew, TrustRegistry.retire_get?, held]
        simp [otherOld]
      · exact ⟨entry, by rw [same, held], withdrawn⟩

theorem withdrawn_after {keyRef : String} {entry : TrustEntry} {fromSeq : Option Int}
    (held : trust.keys.get? keyRef = some entry) (withdrawn : entry.Withdrawn fromSeq)
    (later : List TrustOperation) :
    ∃ now, (trust.after later).keys.get? keyRef = some now ∧ now.Withdrawn fromSeq := by
  induction later generalizing trust entry with
  | nil => exact ⟨entry, held, withdrawn⟩
  | cons operation later ih =>
      obtain ⟨now, found, still⟩ := withdrawn_operate held withdrawn operation
      exact ih found still

/-- A revocation reaches this position. -/
def Reaches (fromSeq : Option Int) (seq : Int) : Prop := ∀ bound ∈ fromSeq, bound ≤ seq

theorem standing_withdrawn {keyRef : String} {entry : TrustEntry} {fromSeq : Option Int}
    (held : trust.keys.get? keyRef = some entry) (withdrawn : entry.Withdrawn fromSeq) {seq : Int}
    (reached : Reaches fromSeq seq) : trust.standing keyRef (some seq) = .revoked := by
  unfold TrustRegistry.standing
  rw [held]
  cases set : entry.revokedFromSeq with
  | none => simp [set, withdrawn.revoked]
  | some bound =>
      obtain ⟨limit, rfl, below⟩ := withdrawn.within bound set
      have past : ¬ seq < bound := not_lt.mpr (below.trans (reached limit rfl))
      simp [set, withdrawn.revoked, past]

theorem admits_revoked (platform : Platform) (keys : PublicKeyRegistry)
    {keyRef : String} {seq : Option Int} (revoked : trust.standing keyRef seq = .revoked)
    (contentHash signature scheme : String) :
    admits (evaluate platform contentHash signature keyRef scheme keys trust seq) = false := by
  rw [← Bool.not_eq_true, admits_iff]
  rintro ⟨_, active⟩
  simp [evaluate, revoked] at active

end Revocations

/-- In whatever the registry becomes, the key is revoked where the revocation reaches, and no
event of it there is admitted. -/
def RevocationStands (trust : TrustRegistry) (keyRef : String) (fromSeq : Option Int) : Prop :=
  ∀ later seq, Reaches fromSeq seq →
    ((trust.revoke keyRef fromSeq).after later).standing keyRef (some seq) = .revoked ∧
      ∀ platform keys contentHash signature scheme,
        admits (evaluate platform contentHash signature keyRef scheme keys
          ((trust.revoke keyRef fromSeq).after later) (some seq)) = false

/-- A revocation stands from then on exactly when it is total, or the key was not yet revoked
from a later position on. -/
theorem revocation_stands_iff (flat : Dict String LegacyEntry) (operations : List TrustOperation)
    {keyRef : String} {entry : TrustEntry}
    (held : ((TrustRegistry.ofLegacy flat).after operations).keys.get? keyRef = some entry)
    (fromSeq : Option Int) :
    RevocationStands ((TrustRegistry.ofLegacy flat).after operations) keyRef fromSeq ↔
      ∀ seq bound, fromSeq = some seq → entry.revokedFromSeq = some bound → bound ≤ seq := by
  have bounds : entry.Scoped := TrustRegistry.after_invariant TrustRegistry.Scoped
    (fun _ operation kept => Scoped.operate kept operation) (Scoped.ofLegacy flat) operations
      keyRef entry held
  generalize (TrustRegistry.ofLegacy flat).after operations = trust at held
  have revised : (trust.revoke keyRef fromSeq).keys.get? keyRef =
      some (entry.revised fromSeq) := by
    rw [revoke_get?, held]
    simp
  constructor
  · intro stands seq bound total set
    subst total
    by_contra later
    obtain ⟨revoked, prior, kept, live⟩ := bounds bound set
    have unchanged : entry.revised (some seq) = entry := by
      unfold TrustEntry.revised
      rw [if_neg (not_not.mpr revoked)]
    have judged := (stands [] seq fun limit same => le_of_eq (Option.some.inj same).symm).1
    unfold TrustRegistry.standing at judged
    rw [show (trust.revoke keyRef (some seq)).after [] = trust.revoke keyRef (some seq) from rfl,
      revised, unchanged] at judged
    simp only [set, revoked, not_le.mp later, kept, and_self, ↓reduceIte, Option.getD_some]
      at judged
    exact live judged
  · intro bounded later seq reached
    have withdrawn : (entry.revised fromSeq).Withdrawn fromSeq := by
      unfold TrustEntry.revised
      by_cases live : entry.standing ≠ .revoked
      · rw [if_pos live]
        cases fromSeq with
        | none => exact ⟨rfl, fun bound set => absurd (bounds bound set).1 live⟩
        | some from_ => exact ⟨rfl, fun bound set => ⟨from_, rfl, le_of_eq (Option.some.inj set).symm⟩⟩
      · rw [if_neg live]
        cases fromSeq with
        | none => exact ⟨not_not.mp live, fun bound set => by cases set⟩
        | some from_ => exact ⟨not_not.mp live, fun bound set => ⟨from_, rfl, bounded from_ bound rfl set⟩⟩
    obtain ⟨now, found, still⟩ := withdrawn_after revised withdrawn later
    have revoked := standing_withdrawn found still reached
    exact ⟨revoked, fun platform keys contentHash signature scheme =>
      admits_revoked platform keys revoked contentHash signature scheme⟩

/-- A key revoked totally stays revoked at every position. -/
theorem total_revocation_stands :
    RevocationStands ((TrustRegistry.ofLegacy []).after [.enroll "node" "key" none []]) "key" none :=
  (revocation_stands_iff [] [.enroll "node" "key" none []]
    (show _ = some ⟨"node", .active, "inc:node:genesis", none, none⟩ by decide) none).mpr
    fun seq bound total => by cases total

/-- Revoked from 10 on, and then from 3 on: between the two the key is still active. -/
theorem narrower_revocation_ignored :
    ((((TrustRegistry.ofLegacy []).after [.enroll "node" "key" none [],
      .revoke "key" (some 10)]).revoke "key" (some 3)).after []).standing "key" (some 5) =
        .active ∧
    ¬ RevocationStands ((TrustRegistry.ofLegacy []).after [.enroll "node" "key" none [],
      .revoke "key" (some 10)]) "key" (some 3) := by
  have active : ((((TrustRegistry.ofLegacy []).after [.enroll "node" "key" none [],
      .revoke "key" (some 10)]).revoke "key" (some 3)).after []).standing "key" (some 5) =
        .active := by decide
  refine ⟨active, fun stands => ?_⟩
  have revoked := (stands [] 5 fun bound same => by
    rw [Option.mem_def, Option.some.injEq] at same
    omega).1
  rw [active] at revoked
  cases revoked

end Kawa
