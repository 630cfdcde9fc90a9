import Kawa.Lib.Json

/-!
Identity, ordering and content addressing.  What the program takes from outside
(the hash function, the signature check, float parsing, the database's uuid cast)
is the `Platform`.
-/

namespace Kawa

/-- The functions of hashlib, cryptography, json and PostgreSQL that the program calls. -/
structure Platform where
  /-- The hex digest of the UTF-8 bytes of a text. -/
  sha256 : String → String
  /-- Ed25519 verification of a hex signature over a text, under a PEM public key. -/
  verifyPem : String → String → String → Bool
  /-- The double that a float literal reads as. -/
  readFloat : String → Option Json.Double
  /-- `(text)::uuid::text`; `none` where the cast raises. -/
  castUuid : String → Option String

/-- No two texts share a digest. -/
def CollisionFree (platform : Platform) : Prop := Function.Injective platform.sha256

/-- A uuid the database has printed casts to itself. -/
def CastsOnce (platform : Platform) : Prop :=
  ∀ text stored, platform.castUuid text = some stored → platform.castUuid stored = some stored

/-- A platform to run the model on: texts are their own digests, a signature is the key
followed by the text, and a uuid of 36 characters is printed in lower case. -/
def plainPlatform : Platform where
  sha256 := id
  verifyPem pem signature text := signature == pem ++ text
  readFloat := Json.Double.ofText
  castUuid text :=
    if text.toList.length = 36 then some (String.ofList (text.toList.map Char.toLower)) else none

theorem plainPlatform_collisionFree : CollisionFree plainPlatform := Function.injective_id

theorem plainPlatform_readsDoubles : Json.ReadsDoubles plainPlatform.readFloat :=
  Json.readsDoubles_ofText

section Digests

variable (platform : Platform)

/-- Content digest of a value: `sha256:<hex>`. -/
def digest (value : Json) : String := "sha256:" ++ platform.sha256 (Json.canonicalJson value)

/-- The per-scope marker that the version 2 preimage commits to. -/
def scopeDigestOf (scopeRef : String) : String := "sha256:" ++ platform.sha256 scopeRef

end Digests

theorem append_left_cancel {front left right : String} (same : front ++ left = front ++ right) :
    left = right := by
  have lists := congrArg String.toList same
  simp only [String.toList_append, List.append_cancel_left_eq] at lists
  exact String.toList_inj.mp lists

theorem digest_injective {platform : Platform} (collisionFree : CollisionFree platform)
    {left right : Json} (leftKeyed : left.WellKeyed) (rightKeyed : right.WellKeyed)
    (same : digest platform left = digest platform right) :
    left.sortKeys = right.sortKeys :=
  Json.canonicalJson_injective leftKeyed rightKeyed (collisionFree (append_left_cancel same))

theorem scopeDigestOf_injective {platform : Platform} (collisionFree : CollisionFree platform) :
    Function.Injective (scopeDigestOf platform) :=
  fun _ _ same => collisionFree (append_left_cancel same)

/-! ## Scope names -/

/-- A scope name that begins with this is reserved. -/
def reservedScopePrefix : Char := '$'

def reservedScope (scopeRef : String) : Bool := scopeRef.toList.head? = some reservedScopePrefix

/-- What a projection stores where an event carries no scope. -/
def publicScope : String := "$public"

/-! ## The hybrid logical clock -/

/-- `text.split(".", 1)`, when there is a dot. -/
def splitDot (text : List Char) : Option (List Char × List Char) :=
  match text.dropWhile (· ≠ '.') with
  | [] => none
  | _ :: rest => some (text.takeWhile (· ≠ '.'), rest)

/-- `(physical_ms, logical, node)`, or `none` if the stamp is not well formed. -/
def parseHlc (hlc : String) : Option (Nat × Nat × String) := do
  let (physical, rest) ← splitDot hlc.toList
  let (logical, node) ← splitDot rest
  if node.isEmpty then none
  else if !(Json.digitRun physical && Json.digitRun logical) then none
  else
    let phys := Json.natOfDigits physical
    let log := Json.natOfDigits logical
    if phys > 2 ^ 63 - 1 ∨ log > 2 ^ 63 - 1 then none
    else some (phys, log, String.ofList node)

/-- A hybrid logical clock. -/
structure HLC where
  node : String
  physicalMs : Nat
  logical : Nat
deriving DecidableEq, Repr

namespace HLC

def start (node : String) : HLC := { node := node, physicalMs := 0, logical := 0 }

def stamp (clock : HLC) : String :=
  String.ofList (Nat.toDigits 10 clock.physicalMs ++ '.' ::
    (Nat.toDigits 10 clock.logical ++ '.' :: clock.node.toList))

/-- The clock after a local event; `now` is the wall clock. -/
def tick (clock : HLC) (now : Int) : HLC :=
  if (clock.physicalMs : Int) < now then { clock with physicalMs := now.toNat, logical := 0 }
  else { clock with logical := clock.logical + 1 }

/-- The clock after it has seen a stamp with these components. -/
def update (clock : HLC) (otherPhys otherLog : Nat) (now : Int) : HLC :=
  let peak := max now.toNat (max clock.physicalMs otherPhys)
  if peak = clock.physicalMs ∧ peak = otherPhys then
    { clock with physicalMs := peak, logical := max clock.logical otherLog + 1 }
  else if peak = clock.physicalMs then
    { clock with physicalMs := peak, logical := clock.logical + 1 }
  else if peak = otherPhys then
    { clock with physicalMs := peak, logical := otherLog + 1 }
  else { clock with physicalMs := peak, logical := 0 }

end HLC

/-- `(physical, logical)` pairs in clock order. -/
abbrev Stamp := Nat ×ₗ Nat

def HLC.reading (clock : HLC) : Stamp := toLex (clock.physicalMs, clock.logical)

/-- The components the SQL order reads with `split_part(hlc, '.', n)::bigint`. -/
def stampOf (hlc : String) : Option Stamp :=
  (parseHlc hlc).map fun (phys, logical, _) => toLex (phys, logical)

@[simp] theorem HLC.tick_node (clock : HLC) (now : Int) : (clock.tick now).node = clock.node := by
  unfold HLC.tick; split <;> rfl

@[simp] theorem HLC.update_node (clock : HLC) (phys logical : Nat) (now : Int) :
    (clock.update phys logical now).node = clock.node := by
  unfold HLC.update; dsimp only; split_ifs <;> rfl

theorem stamp_lt_iff (left right : Stamp) :
    left < right ↔ (ofLex left).1 < (ofLex right).1 ∨
      (ofLex left).1 = (ofLex right).1 ∧ (ofLex left).2 < (ofLex right).2 :=
  Prod.Lex.lt_iff

theorem stamp_le_iff (left right : Stamp) :
    left ≤ right ↔ (ofLex left).1 < (ofLex right).1 ∨
      (ofLex left).1 = (ofLex right).1 ∧ (ofLex left).2 ≤ (ofLex right).2 :=
  Prod.Lex.le_iff

/-- A tick moves the clock strictly forward. -/
theorem HLC.reading_lt_tick (clock : HLC) (now : Int) :
    clock.reading < (clock.tick now).reading := by
  rw [stamp_lt_iff]
  unfold HLC.tick
  split
  · left; simp only [HLC.reading, ofLex_toLex]; omega
  · right; simp [HLC.reading]

/-- After an update the clock is past the stamp it has seen. -/
theorem HLC.lt_update (clock : HLC) (phys logical : Nat) (now : Int) :
    toLex (phys, logical) < (clock.update phys logical now).reading := by
  rw [stamp_lt_iff]
  unfold HLC.update
  dsimp only
  split_ifs <;> simp only [HLC.reading, ofLex_toLex] <;> omega

/-- An update never moves the clock back. -/
theorem HLC.reading_le_update (clock : HLC) (phys logical : Nat) (now : Int) :
    clock.reading ≤ (clock.update phys logical now).reading := by
  rw [stamp_le_iff]
  unfold HLC.update
  dsimp only
  split_ifs <;> simp only [HLC.reading, ofLex_toLex] <;> omega

theorem splitDot_append {front rest : List Char} (clear : ∀ c ∈ front, c ≠ '.') :
    splitDot (front ++ '.' :: rest) = some (front, rest) := by
  have split : (front ++ '.' :: rest).takeWhile (· ≠ '.') = front ∧
      (front ++ '.' :: rest).dropWhile (· ≠ '.') = '.' :: rest :=
    Json.takeWhile_append_of_all (by simpa using clear) (by simp)
  simp only [splitDot, split.1, split.2]

theorem toDigits_clear (n : Nat) : ∀ c ∈ Nat.toDigits 10 n, c ≠ '.' := by
  intro c member dot
  have digit := Json.toDigits_digit member
  rw [dot] at digit
  exact absurd digit (by decide)

theorem digitRun_toDigits (n : Nat) : Json.digitRun (Nat.toDigits 10 n) = true := by
  simp only [Json.digitRun, Bool.and_eq_true, Bool.not_eq_true', List.all_eq_true]
  refine ⟨?_, fun c member => Json.toDigits_digit member⟩
  cases digits : Nat.toDigits 10 n with
  | nil => exact absurd digits (Nat.toDigits_ne_nil)
  | cons _ _ => rfl

/-- A stamp within the bigint range reads back as the clock it came from. -/
theorem parseHlc_stamp (clock : HLC) (named : clock.node ≠ "")
    (physBound : clock.physicalMs < 2 ^ 63) (logBound : clock.logical < 2 ^ 63) :
    parseHlc clock.stamp = some (clock.physicalMs, clock.logical, clock.node) := by
  have nonempty : clock.node.toList.isEmpty = false := by
    cases chars : clock.node.toList with
    | nil => exact absurd (String.toList_inj.mp (chars.trans rfl)) named
    | cons _ _ => rfl
  have phys : Json.natOfDigits (Nat.toDigits 10 clock.physicalMs) = clock.physicalMs :=
    Nat.ofDigitChars_ten_toDigits
  have log : Json.natOfDigits (Nat.toDigits 10 clock.logical) = clock.logical :=
    Nat.ofDigitChars_ten_toDigits
  have bounded : ¬ (clock.physicalMs > 2 ^ 63 - 1 ∨ clock.logical > 2 ^ 63 - 1) := by omega
  simp only [parseHlc, HLC.stamp, String.toList_ofList,
    splitDot_append (toDigits_clear clock.physicalMs),
    splitDot_append (toDigits_clear clock.logical), Option.bind_eq_bind, Option.bind_some,
    nonempty, digitRun_toDigits, phys, log, bounded, Bool.and_self, Bool.not_true,
    Bool.false_eq_true, ↓reduceIte, String.ofList_toList]

end Kawa
