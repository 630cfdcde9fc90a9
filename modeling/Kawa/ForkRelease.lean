import Kawa.FrozenOrigin
import Kawa.SoleAuthority
import Kawa.TrustHistory

/-!
Releasing a fork is not atomic.  The evidence rows are judged one by one and a rival's key is
revoked as its row passes, so a row that refuses later leaves the registry changed.
-/

namespace Kawa

open Result

/-! ## Revoking as the rows pass -/

/-- The row makes `resolveFork` raise. -/
def Resolution.refuses (resolution : Resolution) (row : ForkEvidence) : Bool :=
  if row.frozen then decide (resolution.chosenHead ≠ row.heldEventId)
  else !decide (row.chosenHead = some resolution.chosenHead ∧
    row.resolvedBy = some resolution.receiptEventId)

/-- The row's rival key is bound, and not revoked yet. -/
def Resolution.revokes (resolution : Resolution) (row : ForkEvidence) : Bool :=
  row.frozen && row.rivalKeyRef.any fun key =>
    (resolution.trust.keys.get? key).any (·.standing ≠ .revoked)

/-- The registry after the rows have passed. -/
def Resolution.revoked (resolution : Resolution) (trust : TrustRegistry)
    (rows : List ForkEvidence) : TrustRegistry :=
  rows.foldl (fun trust row => if row.frozen then row.rivalKeyRef.elim trust fun key =>
    trust.revoke key (some resolution.originSeq) else trust) trust

section Rows

variable {resolution : Resolution} {trust : TrustRegistry}

theorem resolveRows_append {before : List ForkEvidence}
    (passes : ∀ row ∈ before, resolution.refuses row = false) (rest : List ForkEvidence) :
    resolveRows resolution trust (before ++ rest) =
      resolveRows resolution (resolution.revoked trust before) rest := by
  induction before generalizing trust with
  | nil => rfl
  | cons row before ih =>
      obtain ⟨first, later⟩ := List.forall_mem_cons.mp passes
      rw [List.cons_append, Resolution.revoked, List.foldl_cons]
      change _ = resolveRows resolution (resolution.revoked _ before) rest
      rw [← ih later]
      unfold Resolution.refuses at first
      conv_lhs => unfold resolveRows
      cases frozen : row.frozen with
      | false =>
          simp only [frozen, Bool.false_eq_true, ↓reduceIte, Bool.not_eq_false',
            decide_eq_true_eq] at first ⊢
          simp [first]
      | true =>
          simp only [frozen, ↓reduceIte, decide_eq_false_iff_not, ne_eq, not_not] at first
          simp only [first, Bool.not_true, Bool.false_eq_true, ↓reduceIte, ne_eq, not_true_eq_false]
          cases row.rivalKeyRef <;> rfl

theorem resolveRows_passes {rows : List ForkEvidence}
    (passes : ∀ row ∈ rows, resolution.refuses row = false) :
    resolveRows resolution trust rows = (resolution.revoked trust rows, none) := by
  rw [← List.append_nil rows, resolveRows_append passes, List.append_nil]
  rfl

theorem resolveRows_refuses {before after : List ForkEvidence} {row : ForkEvidence}
    (passes : ∀ earlier ∈ before, resolution.refuses earlier = false)
    (refuses : resolution.refuses row = true) :
    ∃ reason, resolveRows resolution trust (before ++ row :: after) =
      (resolution.revoked trust before, some (.refused reason)) := by
  rw [resolveRows_append passes]
  unfold Resolution.refuses at refuses
  unfold resolveRows
  cases frozen : row.frozen with
  | false =>
      simp only [frozen, Bool.false_eq_true, ↓reduceIte, Bool.not_eq_true',
        decide_eq_false_iff_not] at refuses
      exact ⟨"fork_already_resolved", by simp [refuses]⟩
  | true =>
      simp only [frozen, ↓reduceIte, decide_eq_true_eq] at refuses
      exact ⟨"rival_adoption_deferred", by simp [refuses]⟩

theorem TrustEntry.revised_revised (entry : TrustEntry) (seq : Int) :
    (entry.revised (some seq)).revised (some seq) = entry.revised (some seq) := by
  unfold TrustEntry.revised
  by_cases live : entry.standing = .revoked <;> simp [live]

/-- A passing row revises the entry of its rival's key. -/
theorem revoked_get? (trust : TrustRegistry) (rows : List ForkEvidence) (other : String) :
    (resolution.revoked trust rows).keys.get? other = (trust.keys.get? other).map fun entry =>
      if rows.any fun row => row.frozen && row.rivalKeyRef = some other then
        entry.revised (some resolution.originSeq)
      else entry := by
  induction rows generalizing trust with
  | nil => simp [Resolution.revoked]
  | cons row rows ih =>
      rw [Resolution.revoked, List.foldl_cons]
      change (resolution.revoked _ rows).keys.get? other = _
      rw [ih]
      cases frozen : row.frozen with
      | false => simp [frozen]
      | true =>
          cases rival : row.rivalKeyRef with
          | none => simp [frozen, rival]
          | some key =>
              simp only [frozen, rival, ↓reduceIte, Option.elim, revoke_get?, Option.map_map,
                List.any_cons, Bool.true_and]
              refine congrArg (Option.map · _) (funext fun entry => ?_)
              by_cases same : other = key
              · subst same
                simp only [Function.comp, ↓reduceIte, decide_true, Bool.true_or]
                split
                · exact TrustEntry.revised_revised entry _
                · rfl
              · have different : key ≠ other := fun eq => same eq.symm
                simp [Function.comp, same, different]

theorem Dict.set_held {κ α : Type} [DecidableEq κ] {dict : Dict κ α} {key : κ} {value : α}
    (held : dict.get? key = some value) : dict.set key value = dict := by
  induction dict with
  | nil => cases held
  | cons entry dict ih =>
      obtain ⟨other, old⟩ := entry
      rw [Dict.get?_cons] at held
      unfold Dict.set
      split at held
      · rename_i same
        rw [if_pos same, ← Option.some.inj held, same]
      · rename_i different
        rw [if_neg different, ih held]

/-- Revoking a key that is unbound, or revoked already, changes nothing. -/
theorem revoke_unchanged {key : String} {seq : Int}
    (settled : (trust.keys.get? key).any (·.standing ≠ .revoked) = false) :
    trust.revoke key (some seq) = trust := by
  unfold TrustRegistry.revoke
  cases held : trust.keys.get? key with
  | none => rfl
  | some entry =>
      have gone : entry.standing = .revoked := by simpa [held] using settled
      simp only [gone, ne_eq, not_true_eq_false, ↓reduceIte]
      rw [Dict.set_held held]

/-- The registry is as before exactly where no row revokes. -/
theorem revoked_eq_iff {rows : List ForkEvidence} :
    resolution.revoked resolution.trust rows = resolution.trust ↔
      ∀ row ∈ rows, resolution.revokes row = false := by
  constructor
  · intro same row member
    by_contra live
    rw [Bool.not_eq_false, Resolution.revokes, Bool.and_eq_true] at live
    obtain ⟨frozen, named⟩ := live
    obtain ⟨key, rival, bound⟩ := (Option.any_eq_true _ _).mp named
    obtain ⟨entry, held, standing⟩ := (Option.any_eq_true _ _).mp bound
    have after : (resolution.revoked resolution.trust rows).keys.get? key = _ :=
      revoked_get? resolution.trust rows key
    have listed : (rows.any fun row => row.frozen && row.rivalKeyRef = some key) = true :=
      List.any_eq_true.mpr ⟨row, member, by simp [frozen, rival]⟩
    rw [same, held, Option.map_some, if_pos listed] at after
    have standings := congrArg TrustEntry.standing (Option.some.inj after)
    have moved : entry.standing ≠ .revoked := of_decide_eq_true standing
    rw [TrustEntry.revised, if_pos moved] at standings
    exact moved standings
  · intro settled
    unfold Resolution.revoked
    induction rows with
    | nil => rfl
    | cons row rows ih =>
        obtain ⟨first, later⟩ := List.forall_mem_cons.mp settled
        rw [List.foldl_cons]
        have unchanged : (if row.frozen then row.rivalKeyRef.elim resolution.trust fun key =>
            resolution.trust.revoke key (some resolution.originSeq) else resolution.trust) =
              resolution.trust := by
          unfold Resolution.revokes at first
          cases frozen : row.frozen with
          | false => rfl
          | true =>
              cases rival : row.rivalKeyRef with
              | none => rfl
              | some key =>
                  simp only [frozen, rival, Option.any_some, Bool.true_and] at first
                  exact revoke_unchanged first
        rw [unchanged]
        exact ih later

end Rows

/-! ## One resolution -/

/-- The evidence of the fork point, as the query returns it. -/
def Resolution.rows (resolution : Resolution) (store : Store) : List ForkEvidence :=
  resolution.scan.order (store.security.forkEvidence.rows.filter resolution.concerns)

/-- What is committed: an error rolls nothing forward. -/
def committed (store : Store) (result : Except GateError Store) : Store :=
  result.toOption.getD store

section Resolve

variable {platform : Platform} {store : Store} {resolution : Resolution}

/-- A refusal leaves the registry and the evidence as they were, and a release leaves nothing at
the fork point frozen. -/
structure AtomicResolve (platform : Platform) (store : Store) (resolution : Resolution) :
    Prop where
  refused : ∀ reason, (resolveFork platform store resolution).2 = .error (.refused reason) →
    (resolveFork platform store resolution).1 = resolution.trust ∧
      (committed store (resolveFork platform store resolution).2).security.forkEvidence =
        store.security.forkEvidence
  released : ∀ next, (resolveFork platform store resolution).2 = .ok next →
    ∀ row ∈ next.security.forkEvidence, resolution.concerns row = true → row.frozen = false

/-- The receipt exercises, and a row that revokes comes before the first row that refuses. -/
def RevokesThenRefuses (platform : Platform) (store : Store) (resolution : Resolution) : Prop :=
  storableText resolution.originNode = true ∧
  (∃ receipt, authorizeFork platform store resolution = .ok receipt) ∧
  ∃ before row after, resolution.rows store = before ++ row :: after ∧
    (∀ earlier ∈ before, resolution.refuses earlier = false) ∧ resolution.refuses row = true ∧
    ∃ earlier ∈ before, resolution.revokes earlier = true

theorem releaseFork_thaws {next : Store} (released : releaseFork store resolution = .ok next)
    {row : ForkEvidence} (held : row ∈ next.security.forkEvidence)
    (concerned : resolution.concerns row = true) : row.frozen = false := by
  simp only [releaseFork, bind_ok, pure_ok] at released
  obtain ⟨_, _, rfl⟩ := released
  rw [Table.mem_update] at held
  obtain ⟨old, _, _, rfl⟩ | ⟨_, unmet⟩ := held
  · rfl
  · simpa [concerned] using unmet

/-- The evidence is judged at all. -/
structure Judged (platform : Platform) (store : Store) (resolution : Resolution) : Prop where
  named : storableText resolution.originNode = true
  evidence : resolution.rows store ≠ []
  authorized : ∃ receipt, authorizeFork platform store resolution = .ok receipt

theorem resolveFork_unjudged (unjudged : ¬ Judged platform store resolution) :
    (resolveFork platform store resolution).1 = resolution.trust ∧
      ∃ error, (resolveFork platform store resolution).2 = .error error := by
  unfold resolveFork
  dsimp only
  by_cases named : storableText resolution.originNode = true
  · rw [if_neg (by simpa using named)]
    by_cases evidence :
        resolution.scan.order (store.security.forkEvidence.rows.filter resolution.concerns) = []
    · rw [if_pos evidence]
      exact ⟨rfl, _, rfl⟩
    · rw [if_neg evidence]
      cases authorized : authorizeFork platform store resolution with
      | error error => exact ⟨rfl, _, rfl⟩
      | ok receipt => exact absurd ⟨named, evidence, receipt, authorized⟩ unjudged
  · rw [if_pos (by simpa using named)]
    exact ⟨rfl, _, rfl⟩

theorem resolveFork_judged (judged : Judged platform store resolution) :
    resolveFork platform store resolution =
      ((resolveRows resolution resolution.trust (resolution.rows store)).1,
        (resolveRows resolution resolution.trust (resolution.rows store)).2.elim
          (liftStore (releaseFork store resolution)) .error) := by
  obtain ⟨receipt, authorized⟩ := judged.authorized
  have evidence :
      ¬ resolution.scan.order (store.security.forkEvidence.rows.filter resolution.concerns) = [] :=
    judged.evidence
  unfold resolveFork
  dsimp only
  have rows : resolution.scan.order (store.security.forkEvidence.rows.filter
      resolution.concerns) = resolution.rows store := rfl
  rw [if_neg (by simpa using judged.named), if_neg evidence, authorized, rows]
  rcases resolveRows resolution resolution.trust (resolution.rows store) with ⟨trust, _ | error⟩
  · rfl
  · rfl

/-- The rows up to the first that refuses, where one does. -/
theorem first_refusal (resolution : Resolution) (rows : List ForkEvidence) :
    (∀ row ∈ rows, resolution.refuses row = false) ∨
      ∃ before row after, rows = before ++ row :: after ∧
        (∀ earlier ∈ before, resolution.refuses earlier = false) ∧
        resolution.refuses row = true := by
  cases found : rows.find? resolution.refuses with
  | none => exact .inl fun row member => by simpa using List.find?_eq_none.mp found row member
  | some row =>
      obtain ⟨refuses, before, after, split, passes⟩ := List.find?_eq_some_iff_append.mp found
      exact .inr ⟨before, row, after, split, fun earlier member => by
        simpa using passes earlier member, refuses⟩

theorem not_atomic_of_revokes (broken : RevokesThenRefuses platform store resolution) :
    ¬ AtomicResolve platform store resolution := by
  intro atomic
  obtain ⟨named, authorized, before, row, after, split, passes, refuses, earlier, member,
    revokes⟩ := broken
  have judged : Judged platform store resolution :=
    ⟨named, by rw [split]; simp, authorized⟩
  obtain ⟨reason, raised⟩ : ∃ reason, resolveRows resolution resolution.trust
      (resolution.rows store) = (resolution.revoked resolution.trust before,
        some (.refused reason)) := by
    rw [split]
    exact resolveRows_refuses passes refuses
  have outcome := resolveFork_judged judged
  rw [raised] at outcome
  have kept := (atomic.refused reason (by rw [outcome]; rfl)).1
  rw [outcome] at kept
  have settled := revoked_eq_iff.mp kept earlier member
  rw [revokes] at settled
  cases settled

theorem atomic_of_calm (calm : ¬ RevokesThenRefuses platform store resolution) :
    AtomicResolve platform store resolution := by
  by_cases judged : Judged platform store resolution
  swap
  · obtain ⟨same, error, raised⟩ := resolveFork_unjudged judged
    refine ⟨fun reason _ => ⟨same, by rw [raised]; rfl⟩, fun next done => ?_⟩
    rw [raised] at done
    cases done
  have outcome := resolveFork_judged judged
  rcases first_refusal resolution (resolution.rows store) with
    passes | ⟨before, row, after, split, passes, refuses⟩
  · -- every row passes, and the statement releases what is frozen
    rw [resolveRows_passes passes] at outcome
    cases released : releaseFork store resolution with
    | error error =>
        rw [released] at outcome
        refine ⟨fun reason raised => ?_, fun next done => ?_⟩
        · rw [outcome] at raised
          cases raised
        · rw [outcome] at done
          cases done
    | ok next =>
        rw [released] at outcome
        refine ⟨fun reason raised => ?_, fun other done row held concerned => ?_⟩
        · rw [outcome] at raised
          cases raised
        · rw [outcome] at done
          cases done
          exact releaseFork_thaws released held concerned
  · -- no row before the one that refuses has revoked
    have settled : ∀ earlier ∈ before, resolution.revokes earlier = false := by
      intro earlier member
      by_contra revokes
      rw [Bool.not_eq_false] at revokes
      exact calm ⟨judged.named, judged.authorized, before, row, after, split, passes, refuses,
        earlier, member, revokes⟩
    obtain ⟨reason, raised⟩ : ∃ reason, resolveRows resolution resolution.trust
        (resolution.rows store) = (resolution.revoked resolution.trust before,
          some (.refused reason)) := by
      rw [split]
      exact resolveRows_refuses passes refuses
    rw [raised, revoked_eq_iff.mpr settled] at outcome
    refine ⟨fun reason _ => ?_, fun next done => ?_⟩
    · rw [outcome]
      exact ⟨rfl, rfl⟩
    · rw [outcome] at done
      cases done

/-- `resolve_fork` is atomic exactly where no row that revokes comes before the first row that
refuses. -/
theorem resolveFork_atomic_iff (platform : Platform) (store : Store) (resolution : Resolution) :
    AtomicResolve platform store resolution ↔ ¬ RevokesThenRefuses platform store resolution :=
  ⟨fun atomic broken => not_atomic_of_revokes broken atomic, atomic_of_calm⟩

end Resolve

/-! ## A rival revoked by a refused resolution -/

namespace SoleAuthority

/-- The operation that one fork receipt is bound to, with no policy established. -/
def forkOperation (originNode : String) (originSeq : Int) (chosenHead : String) : String :=
  forkResolutionOperationDigest plainPlatform originNode originSeq chosenHead
    (founding forkResolutionKey).configurationDigest none

/-- A held receipt for the fork point and the head exercises. -/
theorem fork_authorized {store : Store} {n : Nat} {resolution : Resolution}
    (founded : Founded forkResolutionKey store.log n)
    (current : currentPolicyDigest store.security = .ok none)
    (held : loadReceipt store.log resolution.receiptEventId =
      .ok (some (receipt forkResolutionKey (forkOperation resolution.originNode
        resolution.originSeq resolution.chosenHead) none)))
    (verifies : Verifies resolution.keys)
    (active : trustedSigners (some resolution.trust) {member.signingKeyRef} = {"node"}) :
    ∃ exercised, authorizeFork plainPlatform store resolution = .ok exercised := by
  unfold authorizeFork
  simp only [held, current, liftStore, Except.mapError, bind, Except.bind]
  exact ⟨_, exercise_succeeds rfl current rfl founded.proves (receipt_valid verifies active)⟩

end SoleAuthority

namespace RevokedRival

/-- A second rival at a fork point that another receipt has resolved. -/
def frozenRow : ForkEvidence where
  originNode := "peer"
  originSeq := 1
  heldEventId := "held"
  heldHash := "held"
  rivalEventId := "second"
  rivalHash := "second"
  heldKeyRef := some "peer"
  rivalKeyRef := some "rival"
  heldIncarnation := none
  rivalIncarnation := none
  classification := .restoreFork
  frozen := true
  resolvedBy := none
  chosenHead := none
  reason := none

def resolvedRow (receiptEventId : String) : ForkEvidence :=
  { frozenRow with
    rivalEventId := "first"
    rivalHash := "first"
    rivalKeyRef := none
    frozen := false
    resolvedBy := some receiptEventId
    chosenHead := some "held"
    reason := some "" }

def store (log : Log) (receiptEventId : String) : Store where
  log := log
  security := { forkEvidence := ⟨[frozenRow, resolvedRow receiptEventId], by
    simp [frozenRow, resolvedRow]⟩ }

def resolution (receiptEventId : String) : Resolution where
  scan := ⟨fun rows => rows, fun _ => List.Perm.refl _⟩
  keys := plainKeys ["node"]
  trust := plainTrust ["node", "rival"]
  originNode := "peer"
  originSeq := 1
  chosenHead := "held"
  receiptEventId := receiptEventId
  reason := ""

/-- The rival's key is revoked, and then the row that the first receipt resolved refuses the
second. -/
theorem not_atomic : ∃ calls log resolvedBy receiptEventId,
    Run (Called plainPlatform fun _ => none) {} calls { log := log } ∧
    ¬ AtomicResolve plainPlatform (store log resolvedBy) (resolution receiptEventId) := by
  have stored : storableText forkResolutionKey = true := by decide
  have operation : storableText (SoleAuthority.forkOperation "peer" 1 "held") = true :=
    storableText_plainDigest _
  have policy : ∀ text, (none : Option String) = some text → storableText text = true := by
    intro text set
    cases set
  obtain ⟨_, _, began, founded, _⟩ := SoleAuthority.founded_start stored
  obtain ⟨_, _, received, founded, _, first, _, _, held, _⟩ :=
    SoleAuthority.receipt_emitted founded (by decide) stored operation policy
  obtain ⟨_, log, again, founded, _, second, _, fresh, heldSecond, _⟩ :=
    SoleAuthority.receipt_emitted founded (by decide) stored operation policy
  have different : first ≠ second := by
    rintro rfl
    rw [holds_of_loadReceipt held] at fresh
    cases fresh
  refine ⟨_, log, first, second, .cons began (.cons received (.cons again (.nil _))),
    not_atomic_of_revokes ⟨(by decide : storableText "peer" = true), ?_, [frozenRow],
      resolvedRow first, [], rfl, ?_, ?_, frozenRow, List.mem_singleton_self _, rfl⟩⟩
  · exact SoleAuthority.fork_authorized founded rfl heldSecond SoleAuthority.plain_verifies
      (by decide : trustedSigners (some (plainTrust ["node", "rival"])) _ = _)
  · intro earlier member
    rw [List.mem_singleton.mp member]
    rfl
  · simp [Resolution.refuses, resolvedRow, resolution, different]

end RevokedRival

end Kawa
