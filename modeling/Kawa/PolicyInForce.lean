import Kawa.Participants
import Kawa.PolicyLineage

/-!
The capabilities that the lineage allows.  They are read from the one head, and a lineage without
a head allows none: what is in force is the bundle that was established last, or nothing.
-/

namespace Kawa

open Result

/-! ## Reading a bundle -/

inductive BundleError
  | decode
  | payload (error : PayloadError)
deriving DecidableEq

/-- A list or a dictionary has no hash. -/
def hashable : Json → Bool
  | .arr _ | .obj _ => false
  | _ => true

/-- `frozenset(value)`; of its items only a text can be a capability. -/
def frozenTexts : Json → Except PayloadError (Finset String)
  | .str text => .ok (text.toList.map String.singleton).toFinset
  | .obj members => .ok (members.map (·.1)).toFinset
  | .arr items =>
      if items.all hashable then .ok (items.filterMap textOf?).toFinset else .error .typeError
  | _ => .error .typeError

/-- `CapabilityPolicy(authorized=frozenset(json.loads(text).get("authorized", [])))` -/
def capabilitiesOf (platform : Platform) (text : String) : Except BundleError CapabilityPolicy :=
  match Json.loads platform.readFloat text with
  | none => .error .decode
  | some (.obj bundle) => do
      let authorized ← (frozenTexts ((Dict.get? bundle "authorized").getD (.arr []))).mapError
        .payload
      return { authorized := authorized }
  | some _ => .error (.payload .attributeError)

def capabilityPolicyFromLineage (platform : Platform) (security : SecurityPlane) :
    Except BundleError (Option CapabilityPolicy) :=
  match security.lineageHeads with
  | [row] => (capabilitiesOf platform row.canonicalBundle).map some
  | _ => .ok none

theorem frozenTexts_textList (texts : List String) :
    frozenTexts (textList texts) = .ok texts.toFinset := by
  have flat : (texts.map Json.str).all hashable = true := by
    simp [hashable]
  have read : (texts.map Json.str).filterMap textOf? = texts := by
    rw [List.filterMap_map]
    exact List.filterMap_some
  unfold frozenTexts textList
  dsimp only
  rw [if_pos flat, read]

/-- A bundle that lists its capabilities is read back. -/
theorem capabilitiesOf_bundle {platform : Platform}
    (doubles : Json.ReadsDoubles platform.readFloat) (capabilities : List String) :
    capabilitiesOf platform
        (Json.canonicalJson (.obj [("authorized", textList capabilities)])) =
      .ok { authorized := capabilities.toFinset } := by
  have keyed : (Json.obj [("authorized", textList capabilities)]).WellKeyed :=
    ⟨List.nodup_singleton _, textList_wellKeyed capabilities, trivial⟩
  have sorted : (Json.obj [("authorized", textList capabilities)]).sortKeys =
      .obj [("authorized", textList capabilities)] := by
    simp [Json.sortKeys, Json.sortMembers]
  unfold capabilitiesOf
  rw [Json.loads_canonicalJson doubles keyed, sorted]
  simp [Dict.get?_cons, frozenTexts_textList, Except.mapError, bind, Except.bind, pure, Except.pure]

/-! ## Rows under the digests of their bundles -/

/-- Every row of the lineage is filed under the digest of its bundle. -/
def FiledByDigest (platform : Platform) (security : SecurityPlane) : Prop :=
  ∀ row ∈ security.policyLineage, row.policyDigest = digest platform (.str row.canonicalBundle)

section Filing

variable {platform : Platform} {keys : PublicKeyRegistry} {trust : TrustRegistry}
  {security next : SecurityPlane}

theorem FiledByDigest.supersedeHead (filed : FiledByDigest platform security)
    {prior : Option String} {policyDigest : String}
    (superseded : supersedeHead security prior policyDigest = .ok next) :
    FiledByDigest platform next := by
  cases prior with
  | none =>
      cases superseded
      exact filed
  | some prior =>
      unfold Kawa.supersedeHead supersede at superseded
      dsimp only at superseded
      split at superseded
      · cases superseded
      · cases superseded
        intro row member
        simp only [Table.mem_update] at member
        rcases member with ⟨old, held, _, rfl⟩ | ⟨held, _⟩
        · exact filed old held
        · exact filed row held

theorem FiledByDigest.insertLineage (filed : FiledByDigest platform security)
    {row : PolicyLineageRow} (own : row.policyDigest = digest platform (.str row.canonicalBundle))
    (inserted : insertLineage security row = .ok next) : FiledByDigest platform next := by
  unfold Kawa.insertLineage at inserted
  split_ifs at inserted with taken headed
  · cases inserted
    exact filed
  · cases inserted
    intro held member
    rcases Table.mem_insertNew.mp member with old | ⟨rfl, _⟩
    · exact filed held old
    · exact own

theorem FiledByDigest.establish {store after : Store}
    (filed : FiledByDigest platform store.security) {bundle receiptEventId established : String}
    (done : establishPolicy platform keys trust store bundle receiptEventId =
      .ok (after, established)) : FiledByDigest platform after.security := by
  simp only [establishPolicy, bind_ok] at done
  obtain ⟨prior, _, done⟩ := done
  split at done
  · cases done
    exact filed
  · simp only [bind_ok, pure_ok, Prod.mk.injEq] at done
    obtain ⟨_, _, superseded, retired, _, _, security, inserted, rfl, _⟩ := done
    exact (filed.supersedeHead retired).insertLineage rfl inserted

theorem filed_run {bundles : List (Option String)} {final : Store}
    (run : Run (Establishes platform) {} bundles final) :
    FiledByDigest platform final.security := by
  refine run.invariant (fun store => FiledByDigest platform store.security) ?_ ?_
  · intro store bundle after filed established
    cases bundle with
    | none =>
        have same : after.security.policyLineage = store.security.policyLineage := established
        intro row member
        rw [same] at member
        exact filed row member
    | some bundle =>
        obtain ⟨keys, trust, receiptEventId, policy, done⟩ := established
        exact filed.establish done
  · intro row member
    cases member

end Filing

/-! ## What is in force -/

section InForce

variable {platform : Platform}

theorem bundleDigest_injective (collisionFree : CollisionFree platform) :
    Function.Injective fun bundle : String => digest platform (.str bundle) := by
  intro left right same
  have sorted := digest_injective collisionFree (by trivial) (by trivial) same
  simpa [Json.sortKeys] using sorted

theorem mem_dropWhile_digest (collisionFree : CollisionFree platform) (bundle : String)
    (older : List String) :
    digest platform (.str bundle) ∈ (older.map fun other => digest platform (.str other)).dropWhile
        (· = digest platform (.str bundle)) ↔
      bundle ∈ older.dropWhile (· = bundle) := by
  have injective := bundleDigest_injective collisionFree
  have same : ((fun other => decide (other = digest platform (.str bundle))) ∘
      fun other : String => digest platform (.str other)) = fun other => decide (other = bundle) :=
    funext fun other => by simp [injective.eq_iff]
  rw [List.dropWhile_map, same]
  exact List.mem_map_of_injective injective

/-- After any run of establishments the capabilities in force are those of the bundle established
last, unless it had been established before (its latest repetitions apart): then, and before the
first establishment, there are none. -/
theorem capabilities_in_force (collisionFree : CollisionFree platform)
    {bundles : List (Option String)} {final : Store}
    (run : Run (Establishes platform) {} bundles final) :
    (bundles.reverse.filterMap id = [] →
      capabilityPolicyFromLineage platform final.security = .ok none) ∧
    ∀ bundle older, bundles.reverse.filterMap id = bundle :: older →
      capabilityPolicyFromLineage platform final.security =
        if bundle ∈ older.dropWhile (· = bundle) then .ok none
        else (capabilitiesOf platform bundle).map some := by
  have heads := (lineage_run run).heads
  have filed := filed_run run
  unfold policyDigests at heads
  constructor
  · intro none
    rw [none] at heads
    unfold capabilityPolicyFromLineage
    rw [List.map_eq_nil_iff.mp heads]
  · intro bundle older established
    rw [established, List.map_cons] at heads
    have repeated := lineageHead_cons_iff (digest platform (.str bundle))
      (older.map fun other => digest platform (.str other))
    rw [mem_dropWhile_digest collisionFree] at repeated
    unfold capabilityPolicyFromLineage
    split_ifs with returned
    · have headless := (lineageHead_cons (digest platform (.str bundle))
        (older.map fun other => digest platform (.str other))).resolve_right
          fun head => repeated.mp head returned
      rw [headless] at heads
      rw [List.map_eq_nil_iff.mp heads]
    · rw [repeated.mpr returned, Option.toList_some, List.map_eq_singleton_iff] at heads
      obtain ⟨row, one, named⟩ := heads
      have held : row ∈ final.security.policyLineage :=
        (mem_lineageHeads.mp (one ▸ List.mem_singleton_self row)).1
      have own : row.canonicalBundle = bundle :=
        bundleDigest_injective collisionFree ((filed row held).symm.trans named)
      rw [one]
      dsimp only
      rw [own]

end InForce

namespace FirstBundle

def bundle : String := Json.canonicalJson (.obj [("authorized", textList ["deploy", "review"])])

theorem storable : storableText bundle = true := by decide

/-- The first establishment puts its capabilities in force. -/
theorem established_in_force : ∃ final,
    Run (Establishes plainPlatform) {} [none, some bundle] final ∧
    capabilityPolicyFromLineage plainPlatform final.security =
      .ok (some { authorized := {"deploy", "review"} }) := by
  obtain ⟨_, log₁, _, founded₁⟩ := Returned.founded_start
  obtain ⟨_, log₂, _, founded₂, _, eventId, stored, held⟩ := Returned.receipt_emitted founded₁
    (by decide) (digest plainPlatform (.str bundle)) none (by intro text set; cases set)
  have empty : Lineage [] ({ log := log₂ } : Store).security :=
    ⟨fun policy => by simp [Table.holds_iff], rfl⟩
  obtain ⟨final, step, log, _⟩ := Returned.establishes founded₂ empty (by simp [lineageHead])
    ⟨storable, stored⟩ held
  have start : Establishes plainPlatform {} none { log := log₂ } := rfl
  have run := Run.cons start (.cons step (.nil _))
  have inForce := (capabilities_in_force plainPlatform_collisionFree run).2 bundle [] rfl
  rw [List.dropWhile_nil, if_neg List.not_mem_nil, bundle,
    capabilitiesOf_bundle plainPlatform_readsDoubles] at inForce
  exact ⟨final, run, inForce⟩

end FirstBundle

end Kawa
