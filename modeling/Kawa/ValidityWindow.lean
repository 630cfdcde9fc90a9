import Kawa.Ids
import Kawa.Lib.Dict
import Kawa.Lib.Numerals

/-!
Workload credentials and work attestations, and the window in which they are valid.  The window
is decided on the texts of three timestamps, which sort as the instants do only where they are
spelled alike.
-/

namespace Kawa

open Numerals

/-! ## Verification -/

/-- What a verification raises on a payload of other types. -/
inductive PayloadError
  | typeError | attributeError
deriving DecidableEq

def issuerKeyNs : String := "wl-iss:"

structure WorkloadCredential where
  payload : Dict String Json
  signature : String

structure WorkAttestation where
  payload : Dict String Json
  signature : String

/-- `p.get(key, "")` where a text is compared; anything else has no order with one. -/
def comparedText (payload : Dict String Json) (key : String) : Except PayloadError String :=
  match Dict.get? payload key with
  | none => .ok ""
  | some (.str text) => .ok text
  | some _ => .error .typeError

/-- `p.get("iat", "") <= now < p.get("exp", "")` -/
def withinWindow (payload : Dict String Json) (now : String) : Except PayloadError Bool := do
  let iat ← comparedText payload "iat"
  if iat ≤ now then
    let exp ← comparedText payload "exp"
    return decide (now < exp)
  else return false

/-- `p.get(key) == text` -/
def isText (payload : Dict String Json) (key text : String) : Bool :=
  match Dict.get? payload key with
  | some (.str value) => value = text
  | _ => false

/-- `p.get(key) in texts`; a list or a dictionary has no hash. -/
def namedIn (payload : Dict String Json) (key : String) (texts : List String) :
    Except PayloadError Bool :=
  match Dict.get? payload key with
  | some (.str value) => .ok (value ∈ texts)
  | some (.arr _) | some (.obj _) => .error .typeError
  | _ => .ok false

/-- `revoked and p.get("jti") in revoked` -/
def isRevoked (payload : Dict String Json) (revoked : List String) : Except PayloadError Bool :=
  if revoked = [] then .ok false else namedIn payload "jti" revoked

section Verify

variable (platform : Platform) (issuerPubPem expectedIssuer : String) (now : String)
  (revoked : List String)

def signedBy (payload : Dict String Json) (signature : String) : Bool :=
  platform.verifyPem issuerPubPem signature (Json.canonicalJson (.obj payload))

/-- No set of revocations is an empty one. -/
def verifyCredential (cred : WorkloadCredential) (expectedAudience : String) :
    Except PayloadError Bool := do
  if !(isText cred.payload "iss" expectedIssuer && isText cred.payload "aud" expectedAudience) then
    return false
  if !(← withinWindow cred.payload now) then return false
  if ← isRevoked cred.payload revoked then return false
  if !(issuerKeyNs.toList.isPrefixOf expectedIssuer.toList) then return false
  return signedBy platform issuerPubPem cred.payload cred.signature

/-- Every bound source still resolves. -/
def basisResolves (resolvableDigests : List String) : List Json → Except PayloadError Bool
  | [] => .ok true
  | .obj basis :: rest => do
      if ← namedIn basis "content_digest" resolvableDigests then
        basisResolves resolvableDigests rest
      else return false
  | _ :: _ => .error .attributeError

/-- `p.get("source_basis", [])`, gone through. -/
def sourceBasis (payload : Dict String Json) : Except PayloadError (List Json) :=
  match Dict.get? payload "source_basis" with
  | none => .ok []
  | some (.arr items) => .ok items
  | some (.obj members) => .ok (members.map fun member => .str member.1)
  | some (.str text) => .ok (text.toList.map fun c => .str (String.singleton c))
  | some _ => .error .typeError

def verifyAttestation (att : WorkAttestation) (recomputedSemanticsDigest : String)
    (resolvableDigests : Option (List String)) : Except PayloadError Bool := do
  if !isText att.payload "iss" expectedIssuer then return false
  if !(← withinWindow att.payload now) then return false
  if ← isRevoked att.payload revoked then return false
  if !isText att.payload "work_semantics_digest" recomputedSemanticsDigest then return false
  let resolves ← resolvableDigests.elim (.ok true) fun digests => do
    basisResolves digests (← sourceBasis att.payload)
  if !resolves then return false
  return signedBy platform issuerPubPem att.payload att.signature

end Verify

/-! ## Timestamps -/

/-- A UTC timestamp; no digits of a fraction are no point either. -/
structure Timestamp where
  year : Fin 10000
  month : Fin 13
  day : Fin 32
  hour : Fin 24
  minute : Fin 60
  second : Fin 60
  fraction : List (Fin 10)
  zulu : Bool
deriving DecidableEq

namespace Timestamp

def suffix (zulu : Bool) : List Char := if zulu then ['Z'] else ['+', '0', '0', ':', '0', '0']

/-- What follows the seconds. -/
def ending (fraction : List (Fin 10)) (zulu : Bool) : List Char :=
  match fraction with
  | [] => suffix zulu
  | d :: ds => '.' :: ((d :: ds).map digit ++ suffix zulu)

variable (stamp : Timestamp)

def text : String :=
  String.ofList (padded 4 stamp.year ++ '-' :: (padded 2 stamp.month ++ '-' ::
    (padded 2 stamp.day ++ 'T' :: (padded 2 stamp.hour ++ ':' ::
      (padded 2 stamp.minute ++ ':' :: (padded 2 stamp.second ++
        ending stamp.fraction stamp.zulu))))))

/-- The second that the timestamp falls in. -/
def seconds : ℕ ×ₗ ℕ ×ₗ ℕ ×ₗ ℕ ×ₗ ℕ ×ₗ ℕ :=
  toLex (stamp.year.val, toLex (stamp.month.val, toLex (stamp.day.val, toLex (stamp.hour.val,
    toLex (stamp.minute.val, stamp.second.val)))))

/-- The point in time, to be compared with others of UTC. -/
def instant : (ℕ ×ₗ ℕ ×ₗ ℕ ×ₗ ℕ ×ₗ ℕ ×ₗ ℕ) ×ₗ ℚ := toLex (stamp.seconds, decimal stamp.fraction)

/-- Within one second, the text sorts behind one that is not earlier: it ends in `Z` where the
other goes on, or goes on with zeros where the other ends in `+00:00`. -/
def SeemsLater (stamp other : Timestamp) : Prop :=
  stamp.seconds = other.seconds ∧
    ((stamp.zulu = true ∧ stamp.fraction <+: other.fraction ∧
        ¬(other.zulu = true ∧ stamp.fraction = other.fraction)) ∨
      (other.zulu = false ∧ other.fraction <+: stamp.fraction ∧
        stamp.fraction ≠ other.fraction ∧
        ∀ d ∈ stamp.fraction.drop other.fraction.length, d = 0))

/-- Within one second, the text does not sort behind one that is earlier: the other ends in `Z`
where the digits go on. -/
def SeemsEarlier (stamp other : Timestamp) : Prop :=
  stamp.seconds = other.seconds ∧ other.zulu = true ∧ other.fraction <+: stamp.fraction ∧
    ∃ d ∈ stamp.fraction.drop other.fraction.length, d ≠ 0

end Timestamp

/-- The window is read as it is meant: no misread comparison decides it. -/
structure ReadableWindow (iat now exp : Timestamp) : Prop where
  begun : iat.SeemsLater now → ¬now.instant < exp.instant
  running : exp.SeemsEarlier now → ¬iat.instant ≤ now.instant
  early : iat.SeemsEarlier now →
    ¬exp.SeemsLater now ∧ (now.instant < exp.instant → exp.SeemsEarlier now)
  past : exp.SeemsLater now → iat.instant ≤ now.instant → iat.SeemsLater now

/-! ## Texts and instants -/

section Order

variable {left right : List (Fin 10)} {leftZulu rightZulu : Bool}

/-- The endings behind a common point, with what their order says of the values. -/
def LaterEnding (left right : List (Fin 10)) (leftZulu rightZulu : Bool) : Prop :=
  (leftZulu = true ∧ left <+: right ∧ ¬(rightZulu = true ∧ left = right)) ∨
    (rightZulu = false ∧ right <+: left ∧ left ≠ right ∧ ∀ d ∈ left.drop right.length, d = 0)

def EarlierEnding (left right : List (Fin 10)) (rightZulu : Bool) : Prop :=
  rightZulu = true ∧ right <+: left ∧ ∃ d ∈ left.drop right.length, d ≠ 0

theorem digit_between (d : Fin 10) : '.' < digit d ∧ '+' < digit d ∧ digit d < 'Z' := by
  revert d
  decide

theorem suffix_lt : Timestamp.suffix rightZulu < Timestamp.suffix leftZulu ↔
    rightZulu = false ∧ leftZulu = true := by
  revert leftZulu rightZulu
  decide

theorem cons_lt_suffix {c : Char} {rest : List Char} (between : '+' < c ∧ c < 'Z') :
    c :: rest < Timestamp.suffix leftZulu ↔ leftZulu = true := by
  cases leftZulu with
  | true => simp [Timestamp.suffix, List.cons_lt_cons_iff, between.2]
  | false => simp [Timestamp.suffix, List.cons_lt_cons_iff, between.1.not_gt, between.1.ne']

theorem suffix_lt_cons {c : Char} {rest : List Char} (between : '+' < c ∧ c < 'Z') :
    Timestamp.suffix rightZulu < c :: rest ↔ rightZulu = false := by
  cases rightZulu with
  | true => simp [Timestamp.suffix, List.cons_lt_cons_iff, between.2.not_gt, between.2.ne']
  | false => simp [Timestamp.suffix, List.cons_lt_cons_iff, between.1]

/-- Where the left goes on behind the end of the right. -/
theorem longer_iff (longer : left ≠ []) : rightZulu = false ↔
    (decimal [] < decimal left ∧ ¬EarlierEnding left [] rightZulu) ∨
      LaterEnding left [] leftZulu rightZulu := by
  have same : decimal [] = 0 := rfl
  unfold EarlierEnding LaterEnding
  rw [same, decimal_pos_iff]
  by_cases zeros : ∀ d ∈ left, d = 0
  · have none : ¬∃ d ∈ left, d ≠ 0 := by
      rintro ⟨d, member, nonzero⟩
      exact nonzero (zeros d member)
    cases rightZulu with
    | false => exact iff_of_true rfl (.inr (.inr ⟨rfl, List.nil_prefix, longer, zeros⟩))
    | true => simp [longer, none]
  · have some : ∃ d ∈ left, d ≠ 0 := by
      by_contra none
      exact zeros fun d member => by_contra fun nonzero => none ⟨d, member, nonzero⟩
    cases rightZulu <;> simp [longer, some]

/-- Where the right goes on behind the end of the left. -/
theorem shorter_iff {e : Fin 10} {es : List (Fin 10)} : leftZulu = true ↔
    (decimal (e :: es) < decimal [] ∧ ¬EarlierEnding [] (e :: es) rightZulu) ∨
      LaterEnding [] (e :: es) leftZulu rightZulu := by
  have low : ¬decimal (e :: es) < decimal [] := (decimal_nonneg _).not_gt
  unfold LaterEnding
  simp [low]

theorem digits_lt : right.map digit ++ Timestamp.suffix rightZulu <
      left.map digit ++ Timestamp.suffix leftZulu ↔
    (decimal right < decimal left ∧ ¬EarlierEnding left right rightZulu) ∨
      LaterEnding left right leftZulu rightZulu := by
  induction left generalizing right with
  | nil =>
      cases right with
      | nil =>
          rw [List.map_nil, List.nil_append, List.nil_append, suffix_lt]
          unfold LaterEnding
          cases leftZulu <;> cases rightZulu <;> simp
      | cons e es =>
          rw [List.map_cons, List.cons_append, List.map_nil, List.nil_append,
            cons_lt_suffix (digit_between e).2, ← shorter_iff]
  | cons d ds ih =>
      cases right with
      | nil =>
          rw [List.map_cons, List.cons_append, List.map_nil, List.nil_append,
            suffix_lt_cons (digit_between d).2, ← longer_iff (List.cons_ne_nil d ds)]
      | cons e es =>
          simp only [List.map_cons, List.cons_append, List.cons_lt_cons_iff, digit_lt,
            digit_injective.eq_iff, ih, decimal_cons_lt, EarlierEnding, LaterEnding,
            List.cons_prefix_cons, List.length_cons, List.drop_succ_cons, List.cons.injEq, ne_eq]
          rcases lt_trichotomy e d with before | same | after
          · simp [before, before.ne, before.ne']
          · simp [same]
          · simp [after.not_gt, after.ne, after.ne']

/-- The endings of two timestamps of one second. -/
theorem ending_lt : Timestamp.ending right rightZulu < Timestamp.ending left leftZulu ↔
    (decimal right < decimal left ∧ ¬EarlierEnding left right rightZulu) ∨
      LaterEnding left right leftZulu rightZulu := by
  have point : '+' < '.' ∧ '.' < 'Z' := by decide
  cases left with
  | nil =>
      cases right with
      | nil => exact @digits_lt [] [] leftZulu rightZulu
      | cons e es => exact (cons_lt_suffix point).trans shorter_iff
  | cons d ds =>
      cases right with
      | nil => exact (suffix_lt_cons point).trans (longer_iff (List.cons_ne_nil d ds))
      | cons e es =>
          rw [← digits_lt, Timestamp.ending, Timestamp.ending, List.cons_lt_cons_iff]
          simp

theorem LaterEnding.le (later : LaterEnding left right leftZulu rightZulu) :
    decimal left ≤ decimal right := by
  rcases later with ⟨_, ⟨rest, rfl⟩, _⟩ | ⟨_, ⟨rest, rfl⟩, _, zeros⟩
  · exact decimal_le_append left rest
  · rw [List.drop_left] at zeros
    refine not_lt.mp fun more => ?_
    obtain ⟨d, member, nonzero⟩ := decimal_lt_append.mp more
    exact nonzero (zeros d member)

theorem EarlierEnding.lt (earlier : EarlierEnding left right rightZulu) :
    decimal right < decimal left := by
  obtain ⟨_, ⟨rest, rfl⟩, some⟩ := earlier
  rw [List.drop_left] at some
  exact decimal_lt_append.mpr some

end Order

namespace Timestamp

variable {stamp other : Timestamp}

/-- The texts of two timestamps sort by their seconds, then by their endings. -/
theorem text_lt : stamp.text < other.text ↔ stamp.seconds < other.seconds ∨
    stamp.seconds = other.seconds ∧
      ending stamp.fraction stamp.zulu < ending other.fraction other.zulu := by
  have fits : ∀ {n bound : Nat} (value : Fin n), n ≤ bound → value.val < bound :=
    fun value below => value.isLt.trans_le below
  have apart : ∀ (width n m : Nat) (c : Char) (left right : List Char), n < 10 ^ width →
      m < 10 ^ width → (padded width n ++ c :: left < padded width m ++ c :: right ↔
        n < m ∨ n = m ∧ left < right) := by
    intro width n m c left right nFits mFits
    rw [append_lt_append (by simp), padded_lt nFits mFits, padded_inj nFits mFits,
      List.cons_lt_cons_iff]
    simp
  unfold text seconds
  rw [String.lt_iff_toList_lt, String.toList_ofList, String.toList_ofList,
    apart 4 _ _ _ _ _ (fits _ (by decide)) (fits _ (by decide)),
    apart 2 _ _ _ _ _ (fits _ (by decide)) (fits _ (by decide)),
    apart 2 _ _ _ _ _ (fits _ (by decide)) (fits _ (by decide)),
    apart 2 _ _ _ _ _ (fits _ (by decide)) (fits _ (by decide)),
    apart 2 _ _ _ _ _ (fits _ (by decide)) (fits _ (by decide)),
    append_lt_append (by simp), padded_lt (fits _ (by decide)) (fits _ (by decide)),
    padded_inj (fits _ (by decide)) (fits _ (by decide))]
  simp only [Prod.Lex.toLex_lt_toLex, toLex_inj, Prod.mk.injEq]
  tauto

/-- A text sorts behind another where it is later, but for what the endings misread. -/
theorem text_gt : other.text < stamp.text ↔
    (other.instant < stamp.instant ∧ ¬stamp.SeemsEarlier other) ∨ stamp.SeemsLater other := by
  rw [text_lt, ending_lt]
  unfold instant
  rw [Prod.Lex.toLex_lt_toLex]
  change _ ↔ (_ ∧ ¬(stamp.seconds = other.seconds ∧
    EarlierEnding stamp.fraction other.fraction other.zulu)) ∨ (stamp.seconds = other.seconds ∧
      LaterEnding stamp.fraction other.fraction stamp.zulu other.zulu)
  rcases lt_trichotomy stamp.seconds other.seconds with before | same | after
  · simp [before.ne, before.ne', before.not_gt]
  · simp [same]
  · simp [after.ne', after]

theorem SeemsLater.le (later : stamp.SeemsLater other) : stamp.instant ≤ other.instant := by
  unfold instant
  rw [Prod.Lex.toLex_le_toLex]
  exact .inr ⟨later.1, LaterEnding.le later.2⟩

theorem SeemsEarlier.lt (earlier : stamp.SeemsEarlier other) : other.instant < stamp.instant := by
  unfold instant
  rw [Prod.Lex.toLex_lt_toLex]
  exact .inr ⟨earlier.1.symm, EarlierEnding.lt earlier.2⟩

/-- Two comparisons that may each be misread say together what they are meant to say. -/
theorem misread_iff {begun running later early expired runsOn : Prop} (laterHolds : later → begun)
    (earlyFails : early → ¬begun) (expiredFails : expired → ¬running)
    (onHolds : runsOn → running) :
    ((¬((¬begun ∧ ¬early) ∨ later) ∧ ((running ∧ ¬runsOn) ∨ expired)) ↔ (begun ∧ running)) ↔
      (later → ¬running) ∧ (runsOn → ¬begun) ∧
        (early → ¬expired ∧ (running → runsOn)) ∧ (expired → begun → later) := by
  by_cases begins : begun <;> by_cases runs : running
  · simp only [begins, runs, not_true_eq_false, imp_false] at earlyFails expiredFails
    simp [begins, runs, earlyFails, expiredFails]
  · simp only [begins, runs, not_true_eq_false, imp_false] at earlyFails onHolds
    simp [begins, runs, earlyFails, onHolds]
    tauto
  · simp only [begins, runs, not_true_eq_false, imp_false] at laterHolds expiredFails
    simp [begins, runs, laterHolds, expiredFails]
  · simp only [begins, runs, imp_false] at laterHolds onHolds
    simp [begins, runs, laterHolds, onHolds]

/-- When the texts of a window say what its instants say. -/
theorem window_texts (iat now exp : Timestamp) :
    ((iat.text ≤ now.text ∧ now.text < exp.text) ↔
      (iat.instant ≤ now.instant ∧ now.instant < exp.instant)) ↔ ReadableWindow iat now exp := by
  have read := misread_iff (@SeemsLater.le iat now)
    (fun early => not_le.mpr (@SeemsEarlier.lt iat now early))
    (fun late => not_lt.mpr (@SeemsLater.le exp now late)) (@SeemsEarlier.lt exp now)
  rw [← not_lt, text_gt, text_gt, ← @not_le _ _ iat.instant now.instant,
    read]
  exact ⟨fun readable => ⟨readable.1, readable.2.1, readable.2.2.1, readable.2.2.2⟩,
    fun readable => ⟨readable.begun, readable.running, readable.early, readable.past⟩⟩

end Timestamp

/-! ## Verdicts -/

section Verdicts

variable {platform : Platform} {issuerPubPem expectedIssuer : String} {revoked : List String}

/-- The payload has the window of these timestamps. -/
structure SpelledWindow (payload : Dict String Json) (iat exp : Timestamp) : Prop where
  iat : Dict.get? payload "iat" = some (.str iat.text)
  exp : Dict.get? payload "exp" = some (.str exp.text)

/-- What a credential is checked for apart from its window. -/
structure CredentialChecks (platform : Platform) (issuerPubPem expectedIssuer : String)
    (revoked : List String) (cred : WorkloadCredential) (expectedAudience : String) : Prop where
  issuer : isText cred.payload "iss" expectedIssuer = true
  audience : isText cred.payload "aud" expectedAudience = true
  standing : isRevoked cred.payload revoked = .ok false
  namespaced : issuerKeyNs.toList.isPrefixOf expectedIssuer.toList = true
  signed : signedBy platform issuerPubPem cred.payload cred.signature = true

/-- What an attestation is checked for apart from its window. -/
structure AttestationChecks (platform : Platform) (issuerPubPem expectedIssuer : String)
    (revoked : List String) (att : WorkAttestation) (recomputedSemanticsDigest : String)
    (resolvableDigests : Option (List String)) : Prop where
  issuer : isText att.payload "iss" expectedIssuer = true
  standing : isRevoked att.payload revoked = .ok false
  semantics : isText att.payload "work_semantics_digest" recomputedSemanticsDigest = true
  basis : ∀ digests ∈ resolvableDigests, ∃ items, sourceBasis att.payload = .ok items ∧
    basisResolves digests items = .ok true
  signed : signedBy platform issuerPubPem att.payload att.signature = true

theorem withinWindow_spelled {payload : Dict String Json} {iat exp : Timestamp}
    (spelled : SpelledWindow payload iat exp) (now : String) :
    withinWindow payload now = .ok (decide (iat.text ≤ now ∧ now < exp.text)) := by
  unfold withinWindow comparedText
  rw [spelled.iat, spelled.exp]
  by_cases begun : iat.text ≤ now
  · simp [bind, Except.bind, begun, pure, Except.pure]
  · simp [bind, Except.bind, begun, pure, Except.pure]

theorem verifyCredential_checked {cred : WorkloadCredential} {expectedAudience now : String}
    (checks : CredentialChecks platform issuerPubPem expectedIssuer revoked cred expectedAudience)
    {within : Bool} (window : withinWindow cred.payload now = .ok within) :
    verifyCredential platform issuerPubPem expectedIssuer now revoked cred expectedAudience =
      .ok within := by
  unfold verifyCredential
  rw [checks.issuer, checks.audience, window, checks.standing, checks.namespaced, checks.signed]
  cases within <;> rfl

theorem verifyAttestation_checked {att : WorkAttestation} {semantics now : String}
    {resolvable : Option (List String)}
    (checks : AttestationChecks platform issuerPubPem expectedIssuer revoked att semantics resolvable)
    {within : Bool} (window : withinWindow att.payload now = .ok within) :
    verifyAttestation platform issuerPubPem expectedIssuer now revoked att semantics resolvable =
      .ok within := by
  have basis : (resolvable.elim (.ok true) fun digests => do
      basisResolves digests (← sourceBasis att.payload)) = .ok true := by
    cases given : resolvable with
    | none => rfl
    | some digests =>
        obtain ⟨items, read, resolves⟩ := checks.basis digests given
        rw [Option.elim_some, read]
        exact resolves
  unfold verifyAttestation
  rw [checks.issuer, window, checks.standing, checks.semantics, basis, checks.signed]
  cases within <;> rfl

/-- A credential, or an attestation, that is sound otherwise is accepted exactly in its window,
for the timestamps that are readable as text and for no others. -/
theorem window_verdict (platform : Platform) (issuerPubPem expectedIssuer : String)
    (revoked : List String) (iat now exp : Timestamp) :
    (∀ (cred : WorkloadCredential) (expectedAudience : String),
      SpelledWindow cred.payload iat exp →
      CredentialChecks platform issuerPubPem expectedIssuer revoked cred expectedAudience →
      ((verifyCredential platform issuerPubPem expectedIssuer now.text revoked cred
          expectedAudience = .ok true ↔
        iat.instant ≤ now.instant ∧ now.instant < exp.instant) ↔ ReadableWindow iat now exp)) ∧
    ∀ (att : WorkAttestation) (semantics : String) (resolvable : Option (List String)),
      SpelledWindow att.payload iat exp →
      AttestationChecks platform issuerPubPem expectedIssuer revoked att semantics resolvable →
      ((verifyAttestation platform issuerPubPem expectedIssuer now.text revoked att semantics
          resolvable = .ok true ↔
        iat.instant ≤ now.instant ∧ now.instant < exp.instant) ↔ ReadableWindow iat now exp) := by
  constructor
  · intro cred expectedAudience spelled checks
    rw [verifyCredential_checked checks (withinWindow_spelled spelled now.text), Except.ok.injEq,
      decide_eq_true_eq]
    exact Timestamp.window_texts iat now exp
  · intro att semantics resolvable spelled checks
    rw [verifyAttestation_checked checks (withinWindow_spelled spelled now.text), Except.ok.injEq,
      decide_eq_true_eq]
    exact Timestamp.window_texts iat now exp

end Verdicts

namespace MixedPrecision

def midnight : Timestamp := ⟨2026, 1, 1, 0, 0, 0, [], true⟩
def halfSecond : Timestamp := ⟨2026, 1, 1, 0, 0, 0, [5], true⟩
def fiveMinutes : Timestamp := ⟨2026, 1, 1, 0, 5, 0, [], true⟩

def payload : Dict String Json :=
  [("iss", .str "wl-iss:1"), ("aud", .str "kawa"), ("iat", .str midnight.text),
    ("exp", .str fiveMinutes.text)]

def cred : WorkloadCredential where
  payload := payload
  signature := "pem" ++ Json.canonicalJson (.obj payload)

theorem spelled : SpelledWindow cred.payload midnight fiveMinutes := by
  constructor <;> simp [cred, payload, Dict.get?_cons]

theorem checks : CredentialChecks plainPlatform "pem" "wl-iss:1" [] cred "kawa" where
  issuer := by simp [isText, cred, payload, Dict.get?_cons]
  audience := by simp [isText, cred, payload, Dict.get?_cons]
  standing := rfl
  namespaced := by decide
  signed := beq_self_eq_true _

/-- A credential of midnight is refused half a second later. -/
theorem early_refused :
    CredentialChecks plainPlatform "pem" "wl-iss:1" [] cred "kawa" ∧
      (midnight.instant ≤ halfSecond.instant ∧ halfSecond.instant < fiveMinutes.instant) ∧
      verifyCredential plainPlatform "pem" "wl-iss:1" halfSecond.text [] cred "kawa" =
        .ok false := by
  have window := withinWindow_spelled spelled halfSecond.text
  have sorted : halfSecond.text < midnight.text := by decide
  refine ⟨checks, ⟨Prod.Lex.toLex_le_toLex.mpr (.inr ⟨rfl, decimal_nonneg _⟩),
    Prod.Lex.toLex_lt_toLex.mpr (.inl (by decide))⟩, ?_⟩
  rw [verifyCredential_checked checks window, decide_eq_false (not_and_of_not_left _ sorted.not_ge)]

/-- Four minutes later it is accepted. -/
theorem later_accepted :
    verifyCredential plainPlatform "pem" "wl-iss:1"
        (⟨2026, 1, 1, 0, 4, 0, [5], false⟩ : Timestamp).text [] cred "kawa" = .ok true ↔
      midnight.instant ≤ (⟨2026, 1, 1, 0, 4, 0, [5], false⟩ : Timestamp).instant ∧
        (⟨2026, 1, 1, 0, 4, 0, [5], false⟩ : Timestamp).instant < fiveMinutes.instant :=
  ((window_verdict plainPlatform "pem" "wl-iss:1" [] midnight ⟨2026, 1, 1, 0, 4, 0, [5], false⟩
    fiveMinutes).1 cred "kawa" spelled checks).mpr {
      begun := fun later => absurd later.1 (by decide)
      running := fun earlier => absurd earlier.1 (by decide)
      early := fun earlier => absurd earlier.1 (by decide)
      past := fun later => absurd later.1 (by decide) }

end MixedPrecision

end Kawa
