import Kawa.Calls
import Kawa.ValidityWindow

/-!
Attestations checked against the store.  What an attestation signs is one event of a Work, and
that event's row is what its digest is computed from: a Work derived again afterwards changes
nothing of the verdict, and an observation that is held once is held from then on.
-/

namespace Kawa

open Result

variable {platform : Platform} {readPayload : String → Option Payload}

/-! ## The check -/

/-- `derived_event_id` as a query parameter: a text, or none; anything else has no operator. -/
inductive StoreVerifyError
  | payload (error : PayloadError)
  | parameter
deriving DecidableEq

def optionalTexts (value : Option (List String)) : Json := value.elim .null textList

def workSemanticsDigest (platform : Platform) (workRef planRef workKind : String)
    (roleRequirement objective : Option String)
    (constraints expectedObservations : Option (List String)) : String :=
  digest platform (.obj
    [("work_ref", .str workRef), ("plan_ref", .str planRef), ("work_kind", .str workKind),
      ("role_requirement", optionalText roleRequirement), ("objective", optionalText objective),
      ("constraints", optionalTexts constraints),
      ("expected_observations", optionalTexts expectedObservations)])

/-- The digest of one derivation. -/
def EventWorkRow.semantics (platform : Platform) (row : EventWorkRow) : String :=
  workSemanticsDigest platform row.workRef row.planRef row.workKind row.roleRequirement
    row.objective row.constraints row.expectedObservations

def resolvableDigests (log : Log) : List String :=
  log.eventObservation.rows.filterMap (·.contentDigest)

def derivedEventId (payload : Dict String Json) : Except StoreVerifyError (Option String) :=
  match Dict.get? payload "derived_event_id" with
  | none | some .null => .ok none
  | some (.str eventId) => if storableText eventId then .ok (some eventId) else .error .parameter
  | some _ => .error .parameter

def verifyAttestationAgainstStore (platform : Platform) (issuerPubPem expectedIssuer now : String)
    (revoked : List String) (log : Log) (att : WorkAttestation) : Except StoreVerifyError Bool := do
  match (← derivedEventId att.payload).bind log.eventWork.find? with
  | none => return false
  | some row =>
      (verifyAttestation platform issuerPubPem expectedIssuer now revoked att
        (row.semantics platform) (some (resolvableDigests log))).mapError .payload

/-! ## What an accepted attestation has passed -/

section Passed

variable {issuerPubPem expectedIssuer now : String} {revoked : List String}
  {att : WorkAttestation} {semantics : String} {digests : List String}

theorem checks_of_verified
    (accepted : verifyAttestation platform issuerPubPem expectedIssuer now revoked att semantics
      (some digests) = .ok true) :
    AttestationChecks platform issuerPubPem expectedIssuer revoked att semantics (some digests) ∧
      withinWindow att.payload now = .ok true := by
  unfold verifyAttestation at accepted
  cases issuer : isText att.payload "iss" expectedIssuer with
  | false =>
      rw [issuer] at accepted
      cases accepted
  | true =>
      rw [issuer] at accepted
      obtain ⟨within, window, accepted⟩ := bind_ok.mp accepted
      cases within with
      | false => cases accepted
      | true =>
          obtain ⟨gone, standing, accepted⟩ := bind_ok.mp accepted
          cases gone with
          | true => cases accepted
          | false =>
              cases same : isText att.payload "work_semantics_digest" semantics with
              | false =>
                  rw [same] at accepted
                  cases accepted
              | true =>
                  rw [same] at accepted
                  obtain ⟨resolves, basis, accepted⟩ := bind_ok.mp accepted
                  cases resolves with
                  | false => cases accepted
                  | true =>
                      refine ⟨⟨issuer, standing, same, ?_, Except.ok.inj accepted⟩, window⟩
                      rintro given ⟨⟩
                      exact bind_ok.mp basis

theorem namedIn_mono {payload : Dict String Json} {key : String} {more : List String}
    (included : ∀ text ∈ digests, text ∈ more) (named : namedIn payload key digests = .ok true) :
    namedIn payload key more = .ok true := by
  unfold namedIn at named ⊢
  split at named
  · rename_i value found
    have listed : value ∈ digests := by simpa using named
    rw [decide_eq_true (included value listed)]
  · cases named
  · cases named
  · cases named

/-- A basis that resolves among some digests resolves among more. -/
theorem basisResolves_mono {more : List String} (included : ∀ text ∈ digests, text ∈ more)
    {items : List Json} (resolves : basisResolves digests items = .ok true) :
    basisResolves more items = .ok true := by
  induction items with
  | nil => rfl
  | cons item items ih =>
      cases item with
      | obj basis =>
          unfold basisResolves at resolves ⊢
          obtain ⟨named, read, rest⟩ := bind_ok.mp resolves
          cases named with
          | false => cases rest
          | true =>
              rw [namedIn_mono included read]
              exact ih rest
      | null | bool | int | float | str | arr => cases resolves

end Passed

/-! ## Later stores -/

theorem run_logKeeps {store later : Store} {calls : List Call}
    (run : Run (Called platform readPayload) store calls later) : store.log.Keeps later.log :=
  run.invariant (fun state => store.log.Keeps state.log)
    (fun _ _ _ kept called => kept.trans (called_keeps called)) (.refl _)

theorem resolvable_kept {before after : Log} (kept : before.Keeps after) :
    ∀ text ∈ resolvableDigests before, text ∈ resolvableDigests after := by
  intro text listed
  obtain ⟨row, held, own⟩ := List.mem_filterMap.mp listed
  exact List.mem_filterMap.mpr ⟨row, kept.eventObservation row held, own⟩

section Pinned

variable {issuerPubPem expectedIssuer : String} {att : WorkAttestation} {row : EventWorkRow}

theorem against_held {log : Log} (held : row ∈ log.eventWork)
    (attested : Dict.get? att.payload "derived_event_id" = some (.str row.eventId))
    (storable : storableText row.eventId = true) (now : String) (revoked : List String) :
    verifyAttestationAgainstStore platform issuerPubPem expectedIssuer now revoked log att =
      (verifyAttestation platform issuerPubPem expectedIssuer now revoked att
        (row.semantics platform) (some (resolvableDigests log))).mapError .payload := by
  have found : log.eventWork.find? row.eventId = some row := Table.find?_eq_some.mpr ⟨held, rfl⟩
  unfold verifyAttestationAgainstStore derivedEventId
  rw [attested]
  dsimp only
  rw [if_pos storable]
  simp only [bind, Except.bind, Option.bind_some, found]

/-- Once the attested derivation is held, an attestation is accepted in every later store, however
often its Work was derived again, exactly when it is signed, in its window and not revoked, its
digest is that of the derivation, and every source it names is held there; and once accepted it
is accepted in every later store, until its window ends or it is revoked. -/
theorem attestation_pinned {store later : Store} {calls : List Call}
    (run : Run (Called platform readPayload) store calls later) (held : row ∈ store.log.eventWork)
    (attested : Dict.get? att.payload "derived_event_id" = some (.str row.eventId))
    (storable : storableText row.eventId = true) :
    (∀ now revoked,
      verifyAttestationAgainstStore platform issuerPubPem expectedIssuer now revoked later.log att =
          .ok true ↔
        AttestationChecks platform issuerPubPem expectedIssuer revoked att
            (row.semantics platform) (some (resolvableDigests later.log)) ∧
          withinWindow att.payload now = .ok true) ∧
    ∀ now revoked afterwards revokedSince,
      verifyAttestationAgainstStore platform issuerPubPem expectedIssuer now revoked store.log att =
          .ok true →
      withinWindow att.payload afterwards = .ok true →
      isRevoked att.payload revokedSince = .ok false →
        verifyAttestationAgainstStore platform issuerPubPem expectedIssuer afterwards revokedSince
          later.log att = .ok true := by
  have kept := run_logKeeps run
  have heldLater := kept.eventWork row held
  constructor
  · intro now revoked
    rw [against_held heldLater attested storable, mapError_ok]
    exact ⟨checks_of_verified, fun passed => verifyAttestation_checked passed.1 passed.2⟩
  · intro now revoked afterwards revokedSince accepted window standing
    rw [against_held held attested storable, mapError_ok] at accepted
    rw [against_held heldLater attested storable, mapError_ok]
    have checks := (checks_of_verified accepted).1
    refine verifyAttestation_checked
      { checks with standing := standing, basis := ?_ } window
    rintro digests ⟨⟩
    obtain ⟨items, read, resolves⟩ := checks.basis _ rfl
    exact ⟨items, read, basisResolves_mono (resolvable_kept kept) resolves⟩

end Pinned

namespace Rederived

def derivation (eventId objective : String) : EventWorkRow where
  eventId := eventId
  workRef := "work"
  planRef := "plan"
  workKind := "repair"
  roleRequirement := none
  subjectRef := none
  objective := some objective
  constraints := none
  expectedObservations := none
  domain := none

def source : EventObservationRow where
  eventId := "source"
  predicate := "read"
  valueText := some "text"
  valueNumber := none
  valueBool := none
  valueTime := none
  observationMethodClass := .metricRead
  occurredAt := none
  sourceRef := some "file://source"
  sourceRevision := none
  contentDigest := some "sha256:source"
  fetchedAt := some "2026-01-01T00:00:00Z"

def store : Store where
  log :=
    { eventWork := ⟨[derivation "first" "mend", derivation "second" "rebuild"], by decide⟩
      eventObservation := ⟨[source], List.nodup_singleton _⟩ }

def payload : Dict String Json :=
  [("iss", .str "wl-iss:1"), ("derived_event_id", .str "first"),
    ("work_semantics_digest", .str ((derivation "first" "mend").semantics plainPlatform)),
    ("source_basis", .arr [.obj [("content_digest", .str "sha256:source")]]),
    ("iat", .str "2026-01-01T00:00:00Z"), ("exp", .str "2026-01-01T00:05:00Z")]

def att : WorkAttestation where
  payload := payload
  signature := "pem" ++ Json.canonicalJson (.obj payload)

theorem checks : AttestationChecks plainPlatform "pem" "wl-iss:1" [] att
    ((derivation "first" "mend").semantics plainPlatform)
    (some (resolvableDigests store.log)) where
  issuer := by simp [isText, att, payload, Dict.get?_cons]
  standing := rfl
  semantics := by simp [isText, att, payload, Dict.get?_cons]
  basis := by
    rintro digests ⟨⟩
    refine ⟨[.obj [("content_digest", .str "sha256:source")]], ?_, ?_⟩
    · simp [sourceBasis, att, payload, Dict.get?_cons]
    · simp [basisResolves, namedIn, Dict.get?_cons, resolvableDigests, store, source, bind,
        Except.bind]
  signed := beq_self_eq_true _

theorem window : withinWindow att.payload "2026-01-01T00:01:00Z" = .ok true := by
  have begun : "2026-01-01T00:00:00Z" ≤ "2026-01-01T00:01:00Z" := by decide
  have running : "2026-01-01T00:01:00Z" < "2026-01-01T00:05:00Z" := by decide
  simp [withinWindow, comparedText, att, payload, Dict.get?_cons, begun, running, bind,
    Except.bind, pure, Except.pure]

/-- The Work has been derived again with another objective, and the attestation stands. -/
theorem first_accepted : verifyAttestationAgainstStore plainPlatform "pem" "wl-iss:1"
    "2026-01-01T00:01:00Z" [] store.log att = .ok true :=
  ((@attestation_pinned plainPlatform (fun _ => none) "pem" "wl-iss:1" att
    (derivation "first" "mend") store store [] (.nil _) (Table.mem_rows.mp List.mem_cons_self)
    (by simp [att, payload, Dict.get?_cons, derivation]) (by decide)).1 _ []).mpr ⟨checks, window⟩

end Rederived

end Kawa
