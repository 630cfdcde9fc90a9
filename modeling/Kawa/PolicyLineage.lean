import Kawa.SoleAuthority

/-!
The head of the policy lineage.  Establishing a policy supersedes the head before it
inserts, and the insert passes over a policy that already has a row: a policy that comes
back leaves the lineage without a head, and the fence then asks for no policy at all.
-/

namespace Kawa

open Result

/-! ## The lineage as a list of policies -/

/-- The current policy after these were established, newest first. -/
def lineageHead : List String → Option String
  | [] => none
  | policy :: older =>
      if lineageHead older = some policy then some policy
      else if policy ∈ older then none
      else some policy

theorem lineageHead_cons (policy : String) (older : List String) :
    lineageHead (policy :: older) = none ∨ lineageHead (policy :: older) = some policy := by
  unfold lineageHead
  split_ifs <;> simp

/-- The newest policy is current exactly when it was not established before, apart from
its own repetitions. -/
theorem lineageHead_cons_iff (policy : String) (older : List String) :
    lineageHead (policy :: older) = some policy ↔ policy ∉ older.dropWhile (· = policy) := by
  induction older with
  | nil => simp [lineageHead]
  | cons other older ih =>
      by_cases same : other = policy
      · subst same
        rw [List.dropWhile_cons_of_pos (by simp), ← ih]
        rcases lineageHead_cons other older with none | head
        · rw [lineageHead, none]
          simp
        · rw [lineageHead, head]
          simp
      · rw [List.dropWhile_cons_of_neg (by simpa using same)]
        have moved : lineageHead (other :: older) ≠ some policy := by
          rcases lineageHead_cons other older with none | head
          · simp [none]
          · simp [head, same]
        rw [lineageHead, if_neg moved]
        split_ifs with repeated <;> simp [repeated]

/-! ## The table keeps to the list -/

/-- The rows are the policies established so far, and the head is theirs. -/
structure Lineage (past : List String) (security : SecurityPlane) : Prop where
  held : ∀ policy, security.policyLineage.holds policy = true ↔ policy ∈ past
  heads : security.lineageHeads.map (·.policyDigest) = (lineageHead past).toList

variable {platform : Platform} {keys : PublicKeyRegistry} {trust : TrustRegistry}

theorem currentPolicyDigest_of_heads {security : SecurityPlane} {head : Option String}
    (heads : security.lineageHeads.map (·.policyDigest) = head.toList) :
    currentPolicyDigest security = .ok head := by
  unfold currentPolicyDigest
  cases rows : security.lineageHeads with
  | nil =>
      rw [rows] at heads
      cases head with
      | none => rfl
      | some _ => cases heads
  | cons row rest =>
      rw [rows] at heads
      cases head with
      | none => cases heads
      | some policy =>
          simp only [List.map_cons, Option.toList_some, List.cons.injEq, List.map_eq_nil_iff] at heads
          obtain ⟨rfl, rfl⟩ := heads
          rfl

theorem mem_lineageHeads {security : SecurityPlane} {row : PolicyLineageRow} :
    row ∈ security.lineageHeads ↔ row ∈ security.policyLineage ∧ row.supersededBy = none := by
  simp [SecurityPlane.lineageHeads]

/-- Superseding the one head leaves the rows and takes the head away. -/
theorem supersede_ok {security next : SecurityPlane} {prior policyDigest : String}
    (heads : security.lineageHeads.map (·.policyDigest) = [prior])
    (superseded : supersede security prior policyDigest = .ok next) :
    (∀ policy, next.policyLineage.holds policy = security.policyLineage.holds policy) ∧
      next.lineageHeads = [] := by
  unfold supersede at superseded
  dsimp only at superseded
  split at superseded
  · cases superseded
  · cases superseded
    constructor
    · intro policy
      rw [Bool.eq_iff_iff]
      simp only [Table.holds_iff, Table.mem_update]
      constructor
      · rintro ⟨row, ⟨old, held, _, rfl⟩ | ⟨held, _⟩, same⟩
        · exact ⟨old, held, same⟩
        · exact ⟨row, held, same⟩
      · rintro ⟨row, held, same⟩
        by_cases current : row.policyDigest = prior ∧ row.supersededBy = none
        · exact ⟨_, .inl ⟨row, held, decide_eq_true current, rfl⟩, same⟩
        · exact ⟨row, .inr ⟨held, decide_eq_false current⟩, same⟩
    · rw [List.eq_nil_iff_forall_not_mem]
      intro row member
      rw [mem_lineageHeads] at member
      simp only [Table.mem_update, decide_eq_true_eq, decide_eq_false_iff_not] at member
      obtain ⟨⟨old, _, _, rfl⟩ | ⟨held, other⟩, current⟩ := member
      · cases current
      · have listed : row.policyDigest ∈ security.lineageHeads.map (·.policyDigest) :=
          List.mem_map_of_mem (mem_lineageHeads.mpr ⟨held, current⟩)
        rw [heads, List.mem_singleton] at listed
        exact other ⟨listed, current⟩

theorem supersedeHead_ok {security next : SecurityPlane} {prior : Option String}
    {policyDigest : String} (heads : security.lineageHeads.map (·.policyDigest) = prior.toList)
    (superseded : supersedeHead security prior policyDigest = .ok next) :
    (∀ policy, next.policyLineage.holds policy = security.policyLineage.holds policy) ∧
      next.lineageHeads = [] := by
  cases prior with
  | none =>
      cases superseded
      exact ⟨fun _ => rfl, List.map_eq_nil_iff.mp heads⟩
  | some prior => exact supersede_ok heads superseded

theorem insertLineage_ok {security next : SecurityPlane} {row : PolicyLineageRow}
    (headless : security.lineageHeads = []) (current : row.supersededBy = none)
    (inserted : insertLineage security row = .ok next) :
    (∀ policy, next.policyLineage.holds policy = true ↔
      policy = row.policyDigest ∨ security.policyLineage.holds policy = true) ∧
      next.lineageHeads.map (·.policyDigest) =
        if security.policyLineage.holds row.policyDigest then [] else [row.policyDigest] := by
  unfold insertLineage at inserted
  split at inserted
  · rename_i taken
    cases inserted
    refine ⟨fun policy => ⟨.inr, ?_⟩, by rw [headless, if_pos taken]; rfl⟩
    rintro (rfl | held)
    · exact taken
    · exact held
  · rename_i fresh
    rw [headless] at inserted
    cases inserted
    have unheld : security.policyLineage.holds row.policyDigest = false := by simpa using fresh
    constructor
    · intro policy
      simp only [Table.holds_iff, Table.mem_insertNew, unheld, and_true]
      constructor
      · rintro ⟨other, held | rfl, same⟩
        · exact .inr ⟨other, held, same⟩
        · exact .inl same.symm
      · rintro (rfl | ⟨other, held, same⟩)
        · exact ⟨row, .inr rfl, rfl⟩
        · exact ⟨other, .inl held, same⟩
    · rw [if_neg fresh]
      have rows : (security.policyLineage.insertNew row).rows =
          security.policyLineage.rows ++ [row] := by
        unfold Table.insertNew
        rw [dif_pos unheld]
        rfl
      unfold SecurityPlane.lineageHeads at headless ⊢
      dsimp only
      rw [rows, List.filter_append, headless]
      simp [current]

/-- What a successful establishment does to the lineage. -/
theorem establishPolicy_lineage {store next : Store} {bundle receiptEventId established : String}
    {past : List String} (lineage : Lineage past store.security)
    (done : establishPolicy platform keys trust store bundle receiptEventId =
      .ok (next, established)) :
    established = digest platform (.str bundle) ∧
      Lineage (established :: past) next.security := by
  simp only [establishPolicy, bind_ok] at done
  obtain ⟨prior, read, done⟩ := done
  rw [currentPolicyDigest_of_heads lineage.heads] at read
  cases read
  split at done
  · rename_i head
    cases done
    refine ⟨rfl, ?_, ?_⟩
    · intro policy
      rw [lineage.held, List.mem_cons]
      constructor
      · exact .inr
      · rintro (rfl | older)
        · cases past with
          | nil => simp [lineageHead] at head
          | cons newest older =>
              rcases lineageHead_cons newest older with none | same
              · rw [none] at head
                cases head
              · rw [same] at head
                cases head
                exact List.mem_cons_self
        · exact older
    · rw [lineage.heads, lineageHead, if_pos head, head]
  · rename_i other
    simp only [bind_ok, pure_ok, Prod.mk.injEq] at done
    obtain ⟨_, _, superseded, retired, _, _, security, inserted, rfl, rfl⟩ := done
    obtain ⟨sameRows, headless⟩ := supersedeHead_ok lineage.heads retired
    obtain ⟨rows, heads⟩ := insertLineage_ok headless rfl inserted
    refine ⟨rfl, ?_, ?_⟩
    · intro policy
      rw [rows, sameRows, lineage.held, List.mem_cons]
    · rw [heads, sameRows, lineageHead, if_neg other]
      by_cases repeated : digest platform (.str bundle) ∈ past
      · rw [if_pos ((lineage.held _).mpr repeated), if_pos repeated]
        rfl
      · rw [if_neg (fun held => repeated ((lineage.held _).mp held)), if_neg repeated]
        rfl

/-! ## When an establishment succeeds -/

theorem supersede_succeeds {security : SecurityPlane} {prior : String} (policyDigest : String)
    (heads : security.lineageHeads.map (·.policyDigest) = [prior]) :
    ∃ next, supersede security prior policyDigest = .ok next := by
  obtain ⟨row, rows, named⟩ := List.map_eq_singleton_iff.mp heads
  have found : (security.policyLineage.rows.filter fun row =>
      decide (row.policyDigest = prior ∧ row.supersededBy = none)) = [row] := by
    have narrowed := congrArg (List.filter fun row : PolicyLineageRow => row.policyDigest = prior) rows
    rw [SecurityPlane.lineageHeads, List.filter_filter] at narrowed
    simpa [named] using narrowed
  unfold supersede
  dsimp only
  rw [found, if_neg (by simp)]
  exact ⟨_, rfl⟩

theorem supersedeHead_succeeds {security : SecurityPlane} {prior : Option String}
    (policyDigest : String) (heads : security.lineageHeads.map (·.policyDigest) = prior.toList) :
    ∃ next, supersedeHead security prior policyDigest = .ok next := by
  cases prior with
  | none => exact ⟨security, rfl⟩
  | some prior => exact supersede_succeeds policyDigest heads

/-- An establishment whose receipt exercises goes through, whatever the policy. -/
theorem establishPolicy_progress {store : Store} {bundle receiptEventId : String}
    {past : List String} {receipt : AuthorityReceipt} (lineage : Lineage past store.security)
    (moves : lineageHead past ≠ some (digest platform (.str bundle)))
    (exercised : exercisePolicy platform keys trust store (digest platform (.str bundle))
      (lineageHead past) receiptEventId = .ok receipt)
    (storable : storableTexts [bundle, receiptEventId] = true) :
    ∃ next, establishPolicy platform keys trust store bundle receiptEventId =
      .ok (next, digest platform (.str bundle)) ∧ next.log = store.log := by
  obtain ⟨superseded, retired⟩ :=
    supersedeHead_succeeds (digest platform (.str bundle)) lineage.heads
  have headless := (supersedeHead_ok lineage.heads retired).2
  obtain ⟨security, inserted⟩ : ∃ security, insertLineage superseded
      { policyDigest := digest platform (.str bundle)
        canonicalBundle := bundle
        establishedReceiptDigest := receiptEventId
        priorPolicyDigest := lineageHead past
        supersededBy := none } = .ok security := by
    unfold insertLineage
    rw [headless]
    split
    · exact ⟨_, rfl⟩
    · exact ⟨_, rfl⟩
  refine ⟨{ store with security := security }, ?_, rfl⟩
  simp only [establishPolicy, currentPolicyDigest_of_heads lineage.heads, bind, Except.bind,
    if_neg moves, exercised, retired, storable, require, ↓reduceIte, liftStore, Except.mapError,
    inserted]
  rfl

/-! ## Runs -/

/-- An establishment of a bundle, or any change of the store that leaves the lineage alone. -/
def Establishes (platform : Platform) (before : Store) (bundle : Option String) (after : Store) :
    Prop :=
  match bundle with
  | some bundle => ∃ keys trust receiptEventId established,
      establishPolicy platform keys trust before bundle receiptEventId = .ok (after, established)
  | none => after.security.policyLineage = before.security.policyLineage

/-- The digests of the bundles of a run, in order. -/
def policyDigests (platform : Platform) (bundles : List (Option String)) : List String :=
  (bundles.filterMap id).map fun bundle => digest platform (.str bundle)

theorem lineage_run {bundles : List (Option String)} {final : Store}
    (run : Run (Establishes platform) {} bundles final) :
    Lineage (policyDigests platform bundles.reverse) final.security := by
  have start : Lineage (policyDigests platform []) ({} : Store).security :=
    ⟨fun policy => by simp [policyDigests, Table.holds_iff], rfl⟩
  have step : ∀ past state bundle next,
      Lineage (policyDigests platform past) state.security →
        Establishes platform state bundle next →
          Lineage (policyDigests platform (bundle :: past)) next.security := by
    intro past state bundle next lineage established
    cases bundle with
    | some bundle =>
        obtain ⟨keys, trust, receiptEventId, policy, done⟩ := established
        obtain ⟨rfl, after⟩ := establishPolicy_lineage lineage done
        exact after
    | none =>
        have same : next.security.policyLineage = state.security.policyLineage := established
        constructor
        · rw [same]; exact lineage.held
        · unfold SecurityPlane.lineageHeads
          rw [same]
          exact lineage.heads
  simpa using run.history (fun past state => Lineage (policyDigests platform past) state.security)
    step start

/-- A receipt that is bound to another policy, or to none, does not exercise. -/
def Fenced (platform : Platform) (store : Store) (policy : String) : Prop :=
  ∀ keys trust receipt authorityKey operationDigest, receipt.policyDigest ≠ some policy →
    ∃ reason, exercise platform keys trust store receipt authorityKey operationDigest =
      .error (.refused reason)

theorem fenced_of_current {store : Store} {policy : String}
    (current : currentPolicyDigest store.security = .ok (some policy)) :
    Fenced platform store policy := by
  intro keys trust receipt authorityKey operationDigest other
  unfold exercise
  by_cases wrongKey : receipt.authorityKey = authorityKey
  · refine ⟨"policy_superseded", ?_⟩
    simp [wrongKey, current, other, bind, Except.bind, throw, throwThe, MonadExceptOf.throw]
  · refine ⟨"receipt_wrong_key", ?_⟩
    simp [wrongKey, bind, Except.bind, throw, throwThe, MonadExceptOf.throw]

/-- The one head of the lineage is the policy last established, and the fence holds to it. -/
structure HeadIsLast (platform : Platform) (store : Store) (policy : String) : Prop where
  head : ∃ row, store.security.lineageHeads = [row] ∧ row.policyDigest = policy
  current : currentPolicyDigest store.security = .ok (some policy)
  fenced : Fenced platform store policy

/-- After any run of establishments that ends in `policy`, the head is `policy` exactly when
it was not established before, its latest repetitions apart. -/
theorem head_isLast_iff {bundles : List (Option String)} {final : Store}
    (run : Run (Establishes platform) {} bundles final) {policy : String} {older : List String}
    (established : policyDigests platform bundles.reverse = policy :: older) :
    HeadIsLast platform final policy ↔ policy ∉ older.dropWhile (· = policy) := by
  have lineage := lineage_run run
  rw [established] at lineage
  rw [← lineageHead_cons_iff]
  have current := currentPolicyDigest_of_heads lineage.heads
  constructor
  · intro last
    rw [last.current] at current
    exact (Except.ok.inj current).symm
  · intro head
    have heads := lineage.heads
    rw [head] at heads current
    refine ⟨?_, current, fenced_of_current current⟩
    rw [Option.toList_some, List.map_eq_singleton_iff] at heads
    exact heads

/-! ## A policy that comes back -/

namespace Returned

def member : NodeCredential := plainCredential "node"

def founding : AuthorityConfiguration :=
  soleConfiguration plainPlatform policyKey 0 none member

/-- The receipt for one establishment, signed by the one member. -/
def receipt (policy : String) (prior : Option String) : AuthorityReceipt :=
  let op := if prior = none then "policy.establish" else "policy.supersede"
  let operationDigest :=
    policyOperationDigest plainPlatform op policy prior founding.configurationDigest
  { authorityKey := policyKey
    operationDigest := operationDigest
    configurationDigest := founding.configurationDigest
    authorityEpoch := 0
    priorAuthorityReceiptDigest := none
    policyDigest := prior
    quorumProof := makeProof operationDigest [member] }

/-- The operation that one establishment's receipt is bound to. -/
theorem receipt_sole (policy : String) (prior : Option String) :
    receipt policy prior = SoleAuthority.receipt policyKey (receipt policy prior).operationDigest
      prior := rfl

theorem receipt_valid (policy : String) (prior : Option String) :
    verifyReceipt plainPlatform (plainKeys ["node"]) (AuthorityProofStore.empty.addAll [founding])
      (receipt policy prior) (some (plainTrust ["node"])) = .valid :=
  SoleAuthority.receipt_valid SoleAuthority.plain_verifies (by decide)

/-- A log whose proof store holds the founding configuration alone. -/
structure Founded (log : Log) (n : Nat) : Prop where
  ready : log.Ready plainPlatform n
  proves : loadProofStore plainPlatform log = .ok (AuthorityProofStore.empty.addAll [founding])

theorem founded_iff {log : Log} {n : Nat} :
    Founded log n ↔ SoleAuthority.Founded policyKey log n :=
  ⟨fun founded => ⟨founded.ready, founded.proves⟩, fun founded => ⟨founded.ready, founded.proves⟩⟩

theorem exercised {store : Store} {n : Nat} (founded : Founded store.log n) {policy : String}
    {prior : Option String} (current : currentPolicyDigest store.security = .ok prior)
    {receiptEventId : String}
    (held : loadReceipt store.log receiptEventId = .ok (some (receipt policy prior))) :
    exercisePolicy plainPlatform (plainKeys ["node"]) (plainTrust ["node"]) store policy prior receiptEventId =
      .ok (receipt policy prior) := by
  unfold exercisePolicy
  simp only [held, liftStore, Except.mapError, bind, Except.bind]
  exact exercise_succeeds rfl current rfl founded.proves (receipt_valid policy prior)

/-- The log after the founding configuration was emitted. -/
theorem founded_start : ∃ call log, Called plainPlatform (fun _ => none) {} call { log := log } ∧
    Founded log 1 := by
  obtain ⟨call, log, called, founded, _⟩ :=
    SoleAuthority.founded_start (by decide : storableText policyKey = true)
  exact ⟨call, log, called, founded_iff.mpr founded⟩

/-- One more receipt in the log. -/
theorem receipt_emitted {before : Log} {n : Nat} (founded : Founded before n) (room : n < 2 ^ 62)
    (policy : String) (prior : Option String)
    (stored : ∀ text, prior = some text → storableText text = true) :
    ∃ call log, Called plainPlatform (fun _ => none) { log := before } call { log := log } ∧
      Founded log (n + 1) ∧ before.Keeps log ∧
      ∃ eventId, storableText eventId = true ∧
        loadReceipt log eventId = .ok (some (receipt policy prior)) := by
  have operation : storableText (receipt policy prior).operationDigest = true :=
    storableText_plainDigest _
  obtain ⟨call, log, called, later, kept, eventId, storable, _, held, _⟩ :=
    SoleAuthority.receipt_emitted (founded_iff.mp founded) room
      (by decide : storableText policyKey = true) operation stored
  rw [← receipt_sole] at held
  exact ⟨call, log, called, founded_iff.mpr later, kept, eventId, storable, held⟩

theorem establishes {store : Store} {n : Nat} {past : List String} {bundle eventId : String}
    (founded : Founded store.log n) (lineage : Lineage past store.security)
    (moves : lineageHead past ≠ some (digest plainPlatform (.str bundle)))
    (storable : storableText bundle = true ∧ storableText eventId = true)
    (held : loadReceipt store.log eventId =
      .ok (some (receipt (digest plainPlatform (.str bundle)) (lineageHead past)))) :
    ∃ next, Establishes plainPlatform store (some bundle) next ∧ next.log = store.log ∧
      Lineage (digest plainPlatform (.str bundle) :: past) next.security := by
  have current := currentPolicyDigest_of_heads lineage.heads
  obtain ⟨next, done, log⟩ := establishPolicy_progress lineage moves
    (exercised founded current held) (by simp [storableTexts, storable])
  exact ⟨next, ⟨plainKeys ["node"], plainTrust ["node"], eventId, _, done⟩, log, (establishPolicy_lineage lineage done).2⟩

def first : String := digest plainPlatform (.str "first")

def second : String := digest plainPlatform (.str "second")

theorem first_ne_second : first ≠ second := by
  intro same
  have sorted := digest_injective plainPlatform_collisionFree (by trivial) (by trivial) same
  simp [Json.sortKeys] at sorted

theorem stored_policy {policy text : String} (set : some (digest plainPlatform (.str policy)) = some text) :
    storableText text = true := by
  cases set
  exact storableText_plainDigest _

/-- A log that holds the receipts for `first`, for `second` after it, and for returning. -/
theorem receipts_held : ∃ calls log, Run (Called plainPlatform fun _ => none) {} calls
      { log := log } ∧ Founded log 4 ∧
    ∃ once twice again, storableText once = true ∧ storableText twice = true ∧
      storableText again = true ∧
      loadReceipt log once = .ok (some (receipt first none)) ∧
      loadReceipt log twice = .ok (some (receipt second (some first))) ∧
      loadReceipt log again = .ok (some (receipt first (some second))) := by
  obtain ⟨call₁, log₁, step₁, founded₁⟩ := founded_start
  obtain ⟨call₂, log₂, step₂, founded₂, kept₂, once, stored₂, held₂⟩ :=
    receipt_emitted founded₁ (by decide) first none (by intro text set; cases set)
  obtain ⟨call₃, log₃, step₃, founded₃, kept₃, twice, stored₃, held₃⟩ :=
    receipt_emitted founded₂ (by decide) second (some first) fun _ => stored_policy
  obtain ⟨call₄, log₄, step₄, founded₄, kept₄, again, stored₄, held₄⟩ :=
    receipt_emitted founded₃ (by decide) first (some second) fun _ => stored_policy
  exact ⟨_, log₄, .cons step₁ (.cons step₂ (.cons step₃ (.cons step₄ (.nil _)))), founded₄, once,
    twice, again, stored₂, stored₃, stored₄,
    loadReceipt_keeps kept₄ (loadReceipt_keeps kept₃ held₂), loadReceipt_keeps kept₄ held₃, held₄⟩

theorem head_first : lineageHead [first] = some first := by simp [lineageHead]

theorem head_second : lineageHead [second, first] = some second := by
  simp [lineageHead, first_ne_second, first_ne_second.symm]

/-- `first`, then `second`, then a receipt at hand for returning to `first`. -/
theorem moved_on : ∃ calls emitted after again, Run (Called plainPlatform fun _ => none) {} calls
      emitted ∧ emitted.security.policyLineage = ∅ ∧
    Run (Establishes plainPlatform) emitted [some "first", some "second"] after ∧
    Founded after.log 4 ∧ Lineage [second, first] after.security ∧ storableText again = true ∧
    loadReceipt after.log again = .ok (some (receipt first (some second))) := by
  obtain ⟨calls, log, run, founded, once, twice, again, stored₁, stored₂, stored₃, held₁, held₂,
    held₃⟩ := receipts_held
  have empty : Lineage [] ({ log := log } : Store).security :=
    ⟨fun policy => by simp [Table.holds_iff], rfl⟩
  obtain ⟨store₁, step₁, log₁, lineage₁⟩ := establishes founded empty (by simp [lineageHead])
    ⟨(by decide : storableText "first" = true), stored₁⟩ held₁
  dsimp only at log₁
  rw [← log₁] at founded held₂ held₃
  obtain ⟨store₂, step₂, log₂, lineage₂⟩ := establishes founded lineage₁
    (by rw [← first, head_first]; exact fun same => first_ne_second (Option.some.inj same))
    ⟨(by decide : storableText "second" = true), stored₂⟩ (by rw [← first, head_first]; exact held₂)
  rw [← log₂] at founded held₃
  exact ⟨calls, { log := log }, store₂, again, run, rfl, .cons step₁ (.cons step₂ (.nil _)), founded,
    lineage₂, stored₃, held₃⟩

/-- The policy that comes back leaves the lineage without a head. -/
theorem headless_after_return : ∃ calls emitted final,
    Run (Called plainPlatform fun _ => none) {} calls emitted ∧
    Run (Establishes plainPlatform) emitted [some "first", some "second", some "first"] final ∧
    final.security.lineageHeads = [] ∧ currentPolicyDigest final.security = .ok none ∧
    ¬ HeadIsLast plainPlatform final first := by
  obtain ⟨calls, emitted, after, again, called, _, run, founded, lineage, stored, held⟩ := moved_on
  obtain ⟨final, step, _, returned⟩ := establishes founded lineage
    (by rw [← first, head_second]; exact fun same => first_ne_second (Option.some.inj same).symm)
    ⟨(by decide : storableText "first" = true), stored⟩ (by rw [← first, head_second]; exact held)
  have heads := returned.heads
  have headless : lineageHead [first, second, first] = none := by
    simp [lineageHead, first_ne_second, first_ne_second.symm]
  rw [← first, headless] at heads
  have current := currentPolicyDigest_of_heads heads
  refine ⟨calls, emitted, final, called, run.append (.cons step (.nil _)),
    List.map_eq_nil_iff.mp heads, current, fun last => ?_⟩
  rw [last.current] at current
  cases current

/-- Without the return, the head is the policy established last. -/
theorem head_after_second : ∃ final, HeadIsLast plainPlatform final second := by
  obtain ⟨calls, emitted, after, again, called, untouched, run, _⟩ := moved_on
  have start : Establishes plainPlatform {} none emitted := untouched
  have established : policyDigests plainPlatform [none, some "first", some "second"].reverse =
      second :: [first] := rfl
  refine ⟨after, (head_isLast_iff (.cons start run) established).mpr ?_⟩
  rw [List.dropWhile_cons_of_neg (by simpa using first_ne_second)]
  simpa using first_ne_second.symm

end Returned
end Kawa
