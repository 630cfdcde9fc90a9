import Kawa.Lib.Dict

/-!
JSON values, their compact printed form and a reader for it.  The printer writes
no whitespace and escapes only what JSON requires; `canonicalJson` sorts every
object's keys first.  `loads_print` is the round trip, and the injectivity of
the canonical text follows from it.
-/

namespace Json

/-! ## Number literals -/

def digitRun (text : List Char) : Bool := !text.isEmpty && text.all Char.isDigit

def natLiteral : List Char → Bool
  | ['0'] => true
  | first :: rest => first.isDigit && first != '0' && rest.all Char.isDigit
  | [] => false

def intLiteral : List Char → Bool
  | '-' :: rest => natLiteral rest
  | text => natLiteral text

def signedRun : List Char → Bool
  | '+' :: rest => digitRun rest
  | '-' :: rest => digitRun rest
  | text => digitRun text

def isExponentMark (c : Char) : Bool := c == 'e' || c == 'E'

/-- An integer part, then a fraction, an exponent or both. -/
def floatLiteral (text : List Char) : Bool :=
  let mantissa := text.takeWhile (!isExponentMark ·)
  let exponent := text.dropWhile (!isExponentMark ·)
  let whole := mantissa.takeWhile (· != '.')
  let fraction := mantissa.dropWhile (· != '.')
  intLiteral whole &&
    (fraction.isEmpty || digitRun fraction.tail) &&
    (exponent.isEmpty || signedRun exponent.tail) &&
    (!fraction.isEmpty || !exponent.isEmpty)

def isNumberChar (c : Char) : Bool :=
  c.isDigit || c == '-' || c == '+' || c == '.' || c == 'e' || c == 'E'

/-- A finite double, held as the text that prints it. -/
structure Double where
  text : String
  literal : floatLiteral text.toList = true
  chars : text.toList.all isNumberChar = true
deriving DecidableEq

end Json

/-- A JSON value; an object keeps its members in order. -/
inductive Json where
  | null
  | bool (value : Bool)
  | int (value : Int)
  | float (value : Json.Double)
  | str (text : String)
  | arr (items : List Json)
  | obj (members : List (String × Json))

namespace Json

/-! ## Printing -/

def hexDigit (n : Nat) : Char := Nat.digitChar n

def escapeChar (c : Char) : List Char :=
  if c = '"' then ['\\', '"']
  else if c = '\\' then ['\\', '\\']
  else if c = '\n' then ['\\', 'n']
  else if c = '\r' then ['\\', 'r']
  else if c = '\t' then ['\\', 't']
  else if c.toNat = 8 then ['\\', 'b']
  else if c.toNat = 12 then ['\\', 'f']
  else if c.toNat < 32 then ['\\', 'u', '0', '0', hexDigit (c.toNat / 16), hexDigit (c.toNat % 16)]
  else [c]

def printString (text : String) : List Char :=
  '"' :: text.toList.flatMap escapeChar ++ ['"']

def printInt (n : Int) : List Char :=
  if n < 0 then '-' :: Nat.toDigits 10 n.natAbs else Nat.toDigits 10 n.natAbs

mutual

def print : Json → List Char
  | null => "null".toList
  | bool true => "true".toList
  | bool false => "false".toList
  | int value => printInt value
  | float value => value.text.toList
  | str text => printString text
  | arr [] => ['[', ']']
  | arr (item :: items) => '[' :: print item ++ printItems items
  | obj [] => ['{', '}']
  | obj ((key, value) :: members) =>
      '{' :: printString key ++ ':' :: print value ++ printMembers members

def printItems : List Json → List Char
  | [] => [']']
  | item :: items => ',' :: print item ++ printItems items

def printMembers : List (String × Json) → List Char
  | [] => ['}']
  | (key, value) :: members =>
      ',' :: printString key ++ ':' :: print value ++ printMembers members

end

mutual

/-- Sort the keys of every object, at every depth. -/
def sortKeys : Json → Json
  | arr items => arr (sortItems items)
  | obj members => obj ((sortMembers members).insertionSort (fun a b => a.1 ≤ b.1))
  | value => value

def sortItems : List Json → List Json
  | [] => []
  | item :: items => sortKeys item :: sortItems items

def sortMembers : List (String × Json) → List (String × Json)
  | [] => []
  | (key, value) :: members => (key, sortKeys value) :: sortMembers members

end

/-- `json.dumps(obj, sort_keys=True, separators=(",", ":"), ensure_ascii=False)`. -/
def canonicalJson (value : Json) : String := String.ofList (print (sortKeys value))

/-! ## Reading -/

def isSpace (c : Char) : Bool := c == ' ' || c == '\t' || c == '\n' || c == '\r'

def skipSpace (text : List Char) : List Char := text.dropWhile isSpace

def hexValue (c : Char) : Option Nat :=
  if c.isDigit then some (c.toNat - '0'.toNat)
  else if 'a' ≤ c ∧ c ≤ 'f' then some (c.toNat - 'a'.toNat + 10)
  else if 'A' ≤ c ∧ c ≤ 'F' then some (c.toNat - 'A'.toNat + 10)
  else none

def hex4 (a b c d : Char) : Option Nat := do
  return (((← hexValue a) * 16 + (← hexValue b)) * 16 + (← hexValue c)) * 16 + (← hexValue d)

/-- The character a `\u` escape names; a lone surrogate names none. -/
def scalar (code : Nat) : Option Char :=
  if h : code.isValidChar then some (Char.ofNatAux code h) else none

def simpleEscape (c : Char) : Option Char :=
  if c = '"' then some '"'
  else if c = '\\' then some '\\'
  else if c = '/' then some '/'
  else if c = 'n' then some '\n'
  else if c = 'r' then some '\r'
  else if c = 't' then some '\t'
  else if c = 'b' then some (Char.ofNat 8)
  else if c = 'f' then some (Char.ofNat 12)
  else none

/-- The rest of a string literal after its opening quote, and what follows it. -/
def readString : List Char → Option (List Char × List Char)
  | [] => none
  | '"' :: rest => some ([], rest)
  | '\\' :: 'u' :: a :: b :: c :: d :: rest => do
      let code ← hex4 a b c d
      if 0xD800 ≤ code ∧ code < 0xDC00 then
        match rest with
        | '\\' :: 'u' :: e :: f :: g :: h :: rest =>
            let low ← hex4 e f g h
            if 0xDC00 ≤ low ∧ low < 0xE000 then
              let char ← scalar (0x10000 + (code - 0xD800) * 0x400 + (low - 0xDC00))
              let (text, rest) ← readString rest
              return (char :: text, rest)
            else none
        | _ => none
      else
        let char ← scalar code
        let (text, rest) ← readString rest
        return (char :: text, rest)
  | '\\' :: c :: rest => do
      let char ← simpleEscape c
      let (text, rest) ← readString rest
      return (char :: text, rest)
  | c :: rest =>
      if c.toNat < 32 ∨ c = '\\' then none
      else do
        let (text, rest) ← readString rest
        return (c :: text, rest)

def natOfDigits (text : List Char) : Nat := Nat.ofDigitChars 10 text 0

def intOfLiteral : List Char → Int
  | '-' :: rest => - (natOfDigits rest : Int)
  | text => natOfDigits text

/-- The number a literal names; `readFloat` rounds a float literal to its double. -/
def readNumber (readFloat : String → Option Double) (literal : List Char) : Option Json :=
  if intLiteral literal then some (int (intOfLiteral literal))
  else if floatLiteral literal then (readFloat (String.ofList literal)).map float
  else none

mutual

/-- One value and the text after it.  `fuel` bounds the number of calls. -/
def readValue (readFloat : String → Option Double) : Nat → List Char → Option (Json × List Char)
  | 0, _ => none
  | fuel + 1, text =>
      match text with
      | 'n' :: 'u' :: 'l' :: 'l' :: rest => some (null, rest)
      | 't' :: 'r' :: 'u' :: 'e' :: rest => some (bool true, rest)
      | 'f' :: 'a' :: 'l' :: 's' :: 'e' :: rest => some (bool false, rest)
      | '"' :: rest => do
          let (chars, rest) ← readString rest
          return (str (String.ofList chars), rest)
      | '[' :: rest =>
          match skipSpace rest with
          | ']' :: rest => some (arr [], rest)
          | rest => do
              let (items, rest) ← readItems readFloat fuel rest
              return (arr items, rest)
      | '{' :: rest =>
          match skipSpace rest with
          | '}' :: rest => some (obj [], rest)
          | rest => do
              let (members, rest) ← readMembers readFloat fuel rest []
              return (obj members, rest)
      | text => do
          let value ← readNumber readFloat (text.takeWhile isNumberChar)
          return (value, text.dropWhile isNumberChar)

/-- The items of a non-empty array up to its closing bracket. -/
def readItems (readFloat : String → Option Double) :
    Nat → List Char → Option (List Json × List Char)
  | 0, _ => none
  | fuel + 1, text => do
      let (item, rest) ← readValue readFloat fuel text
      match skipSpace rest with
      | ',' :: rest =>
          let (items, rest) ← readItems readFloat fuel (skipSpace rest)
          return (item :: items, rest)
      | ']' :: rest => return ([item], rest)
      | _ => none

/-- The members of a non-empty object up to its closing brace. -/
def readMembers (readFloat : String → Option Double) :
    Nat → List Char → List (String × Json) → Option (List (String × Json) × List Char)
  | 0, _, _ => none
  | fuel + 1, text, seen =>
      match text with
      | '"' :: rest => do
          let (key, rest) ← readString rest
          match skipSpace rest with
          | ':' :: rest =>
              let (value, rest) ← readValue readFloat fuel (skipSpace rest)
              let seen := Dict.set seen (String.ofList key) value
              match skipSpace rest with
              | ',' :: rest => readMembers readFloat fuel (skipSpace rest) seen
              | '}' :: rest => return (seen, rest)
              | _ => none
          | _ => none
      | _ => none

end

/-- `json.loads`, for the texts whose strings hold no lone surrogate. -/
def loads (readFloat : String → Option Double) (text : String) : Option Json := do
  let chars := text.toList
  let (value, rest) ← readValue readFloat (2 * chars.length + 2) (skipSpace chars)
  if (skipSpace rest).isEmpty then some value else none

/-! ## The reader undoes the printer -/

/-- Every printed double reads back as itself. -/
def ReadsDoubles (readFloat : String → Option Double) : Prop :=
  ∀ value : Double, readFloat value.text = some value

mutual

/-- No object has two members of one key. -/
def WellKeyed : Json → Prop
  | arr items => WellKeyedItems items
  | obj members => (members.map (·.1)).Nodup ∧ WellKeyedMembers members
  | _ => True

def WellKeyedItems : List Json → Prop
  | [] => True
  | item :: items => WellKeyed item ∧ WellKeyedItems items

def WellKeyedMembers : List (String × Json) → Prop
  | [] => True
  | (_, value) :: members => WellKeyed value ∧ WellKeyedMembers members

end

mutual

/-- Fuel that is enough to read a printed value back. -/
def cost : Json → Nat
  | arr items => 1 + costItems items
  | obj members => 1 + costMembers members
  | _ => 1

def costItems : List Json → Nat
  | [] => 0
  | item :: items => 1 + cost item + costItems items

def costMembers : List (String × Json) → Nat
  | [] => 0
  | (_, value) :: members => 1 + cost value + costMembers members

end

theorem hex4_control : ∀ n < 32,
    hex4 '0' '0' (hexDigit (n / 16)) (hexDigit (n % 16)) = some n := by
  decide

theorem scalar_toNat (c : Char) : scalar c.toNat = some c := by
  have valid : c.toNat.isValidChar := c.valid
  simp only [scalar, valid, ↓reduceDIte, Option.some.injEq]
  exact Char.ext (UInt32.toNat_inj.mp rfl)

theorem eq_of_toNat_eq {c d : Char} (same : c.toNat = d.toNat) : c = d :=
  Char.ext (UInt32.toNat_inj.mp same)

theorem readString_escapeChar (c : Char) (rest : List Char) :
    readString (escapeChar c ++ rest) =
      (readString rest).map fun (text, rest) => (c :: text, rest) := by
  unfold escapeChar
  by_cases quote : c = '"'
  · subst quote; simp [readString, simpleEscape]; cases readString rest <;> rfl
  by_cases slash : c = '\\'
  · subst slash; simp [readString, simpleEscape]; cases readString rest <;> rfl
  by_cases newline : c = '\n'
  · subst newline; simp [readString, simpleEscape]; cases readString rest <;> rfl
  by_cases carriage : c = '\r'
  · subst carriage; simp [readString, simpleEscape]; cases readString rest <;> rfl
  by_cases tab : c = '\t'
  · subst tab; simp [readString, simpleEscape]; cases readString rest <;> rfl
  by_cases backspace : c.toNat = 8
  · have same : c = Char.ofNat 8 := eq_of_toNat_eq backspace
    subst same; simp [readString, simpleEscape]; cases readString rest <;> rfl
  by_cases feed : c.toNat = 12
  · have same : c = Char.ofNat 12 := eq_of_toNat_eq feed
    subst same; simp [readString, simpleEscape]; cases readString rest <;> rfl
  by_cases control : c.toNat < 32
  · simp only [quote, slash, newline, carriage, tab, backspace, feed, control, ↓reduceIte,
      List.cons_append, List.nil_append, readString, hex4_control _ control]
    have small : ¬ (0xD800 ≤ c.toNat ∧ c.toNat < 0xDC00) := by omega
    simp only [Option.bind_eq_bind, Option.bind_some, small, ↓reduceIte, scalar_toNat]
    cases readString rest <;> rfl
  · simp only [quote, slash, newline, carriage, tab, backspace, feed, control, ↓reduceIte,
      List.cons_append, List.nil_append]
    rw [readString]
    · simp only [control, slash, or_self, ↓reduceIte]
      cases readString rest <;> rfl
    · exact quote
    · intro a b c d rest equal _; exact slash equal
    · intro a b equal _; exact slash equal

theorem readString_flatMap (text rest : List Char) :
    readString (text.flatMap escapeChar ++ '"' :: rest) = some (text, rest) := by
  induction text with
  | nil => simp [readString]
  | cons c text ih =>
      rw [List.flatMap_cons, List.append_assoc, readString_escapeChar, ih]
      rfl

/-- The text after a value does not extend a number. -/
def EndsNumber (rest : List Char) : Prop :=
  ∀ c tail, rest = c :: tail → isNumberChar c = false

theorem takeWhile_append_of_all {p : Char → Bool} {text rest : List Char}
    (all : ∀ c ∈ text, p c = true) (stop : ∀ c tail, rest = c :: tail → p c = false) :
    (text ++ rest).takeWhile p = text ∧ (text ++ rest).dropWhile p = rest := by
  have fixed : rest.takeWhile p = [] ∧ rest.dropWhile p = rest := by
    cases rest with
    | nil => simp
    | cons c tail => simp [stop c tail rfl]
  rw [List.takeWhile_append_of_pos all, List.dropWhile_append_of_pos all, fixed.1, fixed.2]
  simp

theorem toDigits_digit {n : Nat} {c : Char} (member : c ∈ Nat.toDigits 10 n) :
    c.isDigit = true :=
  Nat.isDigit_of_mem_toDigits (by omega) (by omega) member

theorem digitChar_literal : ∀ n < 10, natLiteral [Nat.digitChar n] = true := by
  decide

theorem digitChar_isDigit : ∀ n < 10, (Nat.digitChar n).isDigit = true := by
  decide

theorem natLiteral_toDigits (n : Nat) : natLiteral (Nat.toDigits 10 n) = true := by
  induction n using Nat.strongRecOn with
  | ind n ih =>
      by_cases small : n < 10
      · rw [Nat.toDigits_of_lt_base small]
        exact digitChar_literal n small
      · rw [Nat.toDigits_of_base_le (by omega) (by omega)]
        have head := ih (n / 10) (by omega)
        have last : (Nat.digitChar (n % 10)).isDigit = true :=
          digitChar_isDigit _ (Nat.mod_lt _ (by omega))
        have nonzero : Nat.toDigits 10 (n / 10) ≠ ['0'] := by
          intro zero
          have value := Nat.ofDigitChars_ten_toDigits (n := n / 10)
          rw [zero] at value
          have : n / 10 = 0 := by rw [← value]; decide
          omega
        generalize Nat.toDigits 10 (n / 10) = digits at head nonzero
        match digits, head, nonzero with
        | first :: rest, head, nonzero =>
            have parts : first.isDigit = true ∧ (first != '0') = true ∧ rest.all Char.isDigit = true := by
              unfold natLiteral at head
              split at head
              · rename_i equal
                exact absurd equal nonzero
              · rename_i equal
                simp only [List.cons.injEq] at equal
                obtain ⟨rfl, rfl⟩ := equal
                simpa [and_assoc] using head
              · simp at head
            unfold natLiteral
            split
            · rfl
            · rename_i equal
              simp only [List.cons_append, List.cons.injEq] at equal
              obtain ⟨rfl, rfl⟩ := equal
              simp [parts.1, parts.2.1, List.all_append, parts.2.2, last]
            · rename_i equal; simp at equal

theorem toDigits_not_minus (n : Nat) : ∀ rest, Nat.toDigits 10 n ≠ '-' :: rest := by
  intro rest equal
  have digit := toDigits_digit (n := n) (c := '-') (by rw [equal]; simp)
  exact absurd digit (by decide)

theorem intLiteral_printInt (n : Int) : intLiteral (printInt n) = true := by
  unfold printInt
  split
  · exact natLiteral_toDigits _
  · unfold intLiteral
    split
    · rename_i rest equal; exact absurd equal (toDigits_not_minus _ rest)
    · exact natLiteral_toDigits _

theorem intOfLiteral_printInt (n : Int) : intOfLiteral (printInt n) = n := by
  unfold printInt
  split
  · simp only [intOfLiteral, natOfDigits, Nat.ofDigitChars_ten_toDigits]
    omega
  · unfold intOfLiteral
    split
    · rename_i rest equal; exact absurd equal (toDigits_not_minus _ rest)
    · simp only [natOfDigits, Nat.ofDigitChars_ten_toDigits]
      omega

theorem printInt_chars (n : Int) : ∀ c ∈ printInt n, isNumberChar c = true := by
  intro c member
  have number : c = '-' ∨ c.isDigit = true := by
    unfold printInt at member
    split at member
    · rcases List.mem_cons.mp member with same | digit
      · exact Or.inl same
      · exact Or.inr (toDigits_digit digit)
    · exact Or.inr (toDigits_digit member)
  rcases number with rfl | digit
  · decide
  · simp [isNumberChar, digit]

theorem printInt_ne_nil (n : Int) : printInt n ≠ [] := by
  unfold printInt
  split
  · simp
  · exact Nat.toDigits_ne_nil

theorem double_ne_nil (value : Double) : value.text.toList ≠ [] := by
  intro empty
  have literal := value.literal
  rw [empty] at literal
  exact absurd literal (by decide)

/-- An integer literal is not a float literal: it has neither mark. -/
theorem floatLiteral_not_int {text : List Char} (float : floatLiteral text = true) :
    intLiteral text = false := by
  by_contra isInt
  simp only [Bool.not_eq_false] at isInt
  have plain : ∀ c ∈ text, c.isDigit = true ∨ c = '-' := by
    have digits : ∀ {text : List Char}, natLiteral text = true → ∀ c ∈ text, c.isDigit = true := by
      intro text literal c member
      unfold natLiteral at literal
      split at literal
      · simp at member; subst member; decide
      · simp only [Bool.and_eq_true, List.all_eq_true] at literal
        rcases List.mem_cons.mp member with rfl | tail
        · exact literal.1.1
        · exact literal.2 c tail
      · simp at member
    intro c member
    unfold intLiteral at isInt
    split at isInt
    · rcases List.mem_cons.mp member with same | tail
      · exact Or.inr same
      · exact Or.inl (digits isInt c tail)
    · exact Or.inl (digits isInt c member)
  have noMark : ∀ c ∈ text, (!isExponentMark c) = true := by
    intro c member
    rcases plain c member with digit | rfl
    · have : c ≠ 'e' ∧ c ≠ 'E' := by
        constructor <;> (rintro rfl; exact absurd digit (by decide))
      simp [isExponentMark, this]
    · decide
  have noPoint : ∀ c ∈ text, (c != '.') = true := by
    intro c member
    rcases plain c member with digit | rfl
    · have : c ≠ '.' := by rintro rfl; exact absurd digit (by decide)
      simp [this]
    · decide
  have mantissa := takeWhile_append_of_all noMark (by simp : ∀ c tail, [] = c :: tail → _)
  have whole := takeWhile_append_of_all noPoint (by simp : ∀ c tail, [] = c :: tail → _)
  simp only [List.append_nil] at mantissa whole
  simp [floatLiteral, mantissa.1, mantissa.2, whole.2] at float

theorem readValue_number (readFloat : String → Option Double) (fuel : Nat) {text : List Char}
    (nonempty : text ≠ []) (chars : ∀ c ∈ text, isNumberChar c = true) {rest : List Char}
    (stop : EndsNumber rest) :
    readValue readFloat (fuel + 1) (text ++ rest) =
      (readNumber readFloat text).map fun value => (value, rest) := by
  obtain ⟨first, tail, rfl⟩ := List.exists_cons_of_ne_nil nonempty
  have firstChar : isNumberChar first = true := chars first (by simp)
  have split := takeWhile_append_of_all chars stop
  rw [readValue, split.1, split.2]
  · cases readNumber readFloat (first :: tail) <;> rfl
  all_goals
    intro after equal
    simp only [List.cons_append, List.cons.injEq] at equal
    rw [equal.1] at firstChar
    exact absurd firstChar (by decide)


theorem skipSpace_cons {c : Char} {rest : List Char} (solid : isSpace c = false) :
    skipSpace (c :: rest) = c :: rest := by
  simp [skipSpace, solid]

theorem numberChar_solid {c : Char} (number : isNumberChar c = true) :
    isSpace c = false ∧ c ≠ ']' := by
  constructor
  · by_contra space
    simp only [Bool.not_eq_false, isSpace, Bool.or_eq_true, beq_iff_eq] at space
    rcases space with ((rfl | rfl) | rfl) | rfl <;> exact absurd number (by decide)
  · rintro rfl
    exact absurd number (by decide)

theorem chars_head {text : List Char} (nonempty : text ≠ [])
    (chars : ∀ c ∈ text, isNumberChar c = true) :
    ∃ c tail, text = c :: tail ∧ isSpace c = false ∧ c ≠ ']' := by
  obtain ⟨c, tail, rfl⟩ := List.exists_cons_of_ne_nil nonempty
  exact ⟨c, tail, rfl, numberChar_solid (chars c (by simp))⟩

theorem double_chars (value : Double) : ∀ c ∈ value.text.toList, isNumberChar c = true :=
  List.all_eq_true.mp value.chars

/-! ### Any style of printing -/

/-- The blanks after a comma and a colon, and the escapes of a string. -/
structure Style where
  blank : List Char
  escape : Char → List Char
  spaces : ∀ c ∈ blank, isSpace c = true
  reads : ∀ text rest, readString (text.flatMap escape ++ '"' :: rest) = some (text, rest)

section Style

variable (style : Style)

def spellString (text : String) : List Char :=
  '"' :: text.toList.flatMap style.escape ++ ['"']

mutual

def spell : Json → List Char
  | null => "null".toList
  | bool true => "true".toList
  | bool false => "false".toList
  | int value => printInt value
  | float value => value.text.toList
  | str text => spellString style text
  | arr [] => ['[', ']']
  | arr (item :: items) => '[' :: spell item ++ spellItems items
  | obj [] => ['{', '}']
  | obj ((key, value) :: members) =>
      '{' :: spellString style key ++ ':' :: style.blank ++ spell value ++ spellMembers members

def spellItems : List Json → List Char
  | [] => [']']
  | item :: items => ',' :: style.blank ++ spell item ++ spellItems items

def spellMembers : List (String × Json) → List Char
  | [] => ['}']
  | (key, value) :: members =>
      ',' :: style.blank ++ spellString style key ++ ':' :: style.blank ++ spell value ++
        spellMembers members

end

theorem skipSpace_blank (rest : List Char) :
    skipSpace (style.blank ++ rest) = skipSpace rest := by
  have spaces := style.spaces
  generalize style.blank = blank at spaces ⊢
  unfold skipSpace
  induction blank with
  | nil => rfl
  | cons c blank ih =>
      rw [List.cons_append, List.dropWhile_cons_of_pos (spaces c List.mem_cons_self)]
      exact ih fun d member => spaces d (List.mem_cons_of_mem _ member)

theorem spell_head (value : Json) :
    ∃ c tail, spell style value = c :: tail ∧ isSpace c = false ∧ c ≠ ']' := by
  cases value with
  | null => exact ⟨'n', _, rfl, by decide, by decide⟩
  | bool value => cases value <;> exact ⟨_, _, rfl, by decide, by decide⟩
  | int value =>
      simpa only [spell] using chars_head (printInt_ne_nil value) (printInt_chars value)
  | float value => simpa only [spell] using chars_head (double_ne_nil value) (double_chars value)
  | str text =>
      exact ⟨'"', _, by simp only [spell, spellString, List.cons_append]; rfl, by decide,
        by decide⟩
  | arr items =>
      cases items <;>
        exact ⟨'[', _, by simp only [spell, List.cons_append]; rfl, by decide, by decide⟩
  | obj members =>
      cases members with
      | nil => exact ⟨'{', _, by simp only [spell]; rfl, by decide, by decide⟩
      | cons member members =>
          exact ⟨'{', _, by simp only [spell, List.cons_append]; rfl, by decide, by decide⟩

theorem skipSpace_spell (value : Json) (rest : List Char) :
    skipSpace (spell style value ++ rest) = spell style value ++ rest := by
  obtain ⟨c, tail, equal, solid, _⟩ := spell_head style value
  rw [equal, List.cons_append, skipSpace_cons solid]

theorem endsNumber_cons {c : Char} {rest : List Char} (stop : isNumberChar c = false) :
    EndsNumber (c :: rest) := by
  intro d tail equal
  simp only [List.cons.injEq] at equal
  rw [← equal.1]
  exact stop

theorem endsNumber_items (items : List Json) (rest : List Char) :
    EndsNumber (spellItems style items ++ rest) := by
  cases items <;> simp only [spellItems, List.cons_append] <;> exact endsNumber_cons (by decide)

theorem endsNumber_members (members : List (String × Json)) (rest : List Char) :
    EndsNumber (spellMembers style members ++ rest) := by
  cases members <;> simp only [spellMembers, List.cons_append] <;>
    exact endsNumber_cons (by decide)

mutual

theorem readValue_spell {readFloat : String → Option Double} (doubles : ReadsDoubles readFloat)
    (value : Json) (keyed : WellKeyed value) (fuel : Nat) (enough : cost value ≤ fuel)
    (rest : List Char) (stop : EndsNumber rest) :
    readValue readFloat fuel (spell style value ++ rest) = some (value, rest) := by
  cases fuel with
  | zero => cases value <;> simp [cost] at enough
  | succ fuel =>
      match value, keyed, enough with
      | null, _, _ => rfl
      | bool true, _, _ => rfl
      | bool false, _, _ => rfl
      | int value, _, _ =>
          rw [spell, readValue_number _ _ (printInt_ne_nil value) (printInt_chars value) stop]
          simp [readNumber, intLiteral_printInt, intOfLiteral_printInt]
      | float value, _, _ =>
          rw [spell, readValue_number _ _ (double_ne_nil value) (double_chars value) stop]
          simp [readNumber, floatLiteral_not_int value.literal, value.literal, doubles value]
      | str text, _, _ =>
          simp only [spell, spellString, List.cons_append, List.append_assoc, List.nil_append,
            readValue, style.reads]
          simp
      | arr [], _, _ => rfl
      | arr (item :: items), keyed, enough =>
          obtain ⟨c, tail, equal, solid, notEnd⟩ := spell_head style item
          have body := readItems_spell doubles item items keyed fuel
            (by simp only [cost, costItems] at enough ⊢; omega) rest
          simp only [spell, List.cons_append, List.append_assoc, readValue]
          rw [equal, List.cons_append] at body ⊢
          rw [skipSpace_cons solid]
          split
          · rename_i after same
            simp only [List.cons.injEq] at same
            exact absurd same.1 notEnd
          · rw [body]
            rfl
      | obj [], _, _ => rfl
      | obj ((key, value) :: members), keyed, enough =>
          have body := readMembers_spell doubles key value members [] keyed.2
            (by simpa using keyed.1) fuel
            (by simp only [cost, costMembers] at enough ⊢; omega) rest
          simp only [spell, List.cons_append, List.append_assoc, readValue]
          rw [spellString, List.cons_append, List.cons_append, List.append_assoc] at *
          rw [skipSpace_cons (by decide)]
          split
          · rename_i after same
            simp only [List.cons.injEq] at same
            exact absurd same.1 (by decide)
          · rw [body]
            rfl
termination_by fuel

theorem readItems_spell {readFloat : String → Option Double} (doubles : ReadsDoubles readFloat)
    (item : Json) (items : List Json) (keyed : WellKeyedItems (item :: items)) (fuel : Nat)
    (enough : costItems (item :: items) ≤ fuel) (rest : List Char) :
    readItems readFloat fuel (spell style item ++ (spellItems style items ++ rest)) =
      some (item :: items, rest) := by
  cases fuel with
  | zero => simp [costItems] at enough
  | succ fuel =>
      have head := readValue_spell doubles item keyed.1 fuel
        (by simp only [costItems] at enough; omega) (spellItems style items ++ rest)
        (endsNumber_items style items rest)
      rw [readItems, head]
      match items, keyed, enough with
      | [], _, _ =>
          simp only [spellItems, List.cons_append, List.nil_append, Option.bind_eq_bind,
            Option.bind_some]
          rw [skipSpace_cons (by decide)]
          rfl
      | next :: items, keyed, enough =>
          have tail := readItems_spell doubles next items keyed.2 fuel
            (by simp only [costItems] at enough ⊢; omega) rest
          simp only [spellItems, List.cons_append, List.append_assoc, Option.bind_eq_bind,
            Option.bind_some]
          rw [skipSpace_cons (by decide)]
          simp only [skipSpace_blank, skipSpace_spell, tail, Option.bind_some]
          rfl
termination_by fuel

theorem readMembers_spell {readFloat : String → Option Double} (doubles : ReadsDoubles readFloat)
    (key : String) (value : Json) (members seen : List (String × Json))
    (keyed : WellKeyedMembers ((key, value) :: members))
    (distinct : (seen.map (·.1) ++ key :: members.map (·.1)).Nodup) (fuel : Nat)
    (enough : costMembers ((key, value) :: members) ≤ fuel) (rest : List Char) :
    readMembers readFloat fuel (spellString style key ++ ':' :: (style.blank ++
        (spell style value ++ (spellMembers style members ++ rest)))) seen =
      some (seen ++ (key, value) :: members, rest) := by
  cases fuel with
  | zero => simp [costMembers] at enough
  | succ fuel =>
      have head := readValue_spell doubles value keyed.1 fuel
        (by simp only [costMembers] at enough; omega) (spellMembers style members ++ rest)
        (endsNumber_members style members rest)
      have fresh : key ∉ seen.map (·.1) := by
        intro member
        exact (List.nodup_append.mp distinct).2.2 key member key (by simp) rfl
      rw [spellString, List.cons_append, List.cons_append, List.append_assoc, readMembers]
      simp only [List.cons_append, List.nil_append, style.reads, Option.bind_eq_bind,
        Option.bind_some]
      rw [skipSpace_cons (by decide)]
      simp only [skipSpace_blank, skipSpace_spell, head, Option.bind_some, String.ofList_toList,
        Dict.set_fresh value fresh]
      match members, keyed, enough, distinct with
      | [], _, _, _ =>
          simp only [spellMembers, List.cons_append, List.nil_append]
          rw [skipSpace_cons (by decide)]
          rfl
      | (next, nextValue) :: members, keyed, enough, distinct =>
          have tail := readMembers_spell doubles next nextValue members (seen ++ [(key, value)])
            keyed.2 (by simpa using distinct) fuel
            (by simp only [costMembers] at enough ⊢; omega) rest
          simp only [spellMembers, List.cons_append, List.append_assoc]
          rw [skipSpace_cons (by decide)]
          simp only [skipSpace_blank]
          rw [show skipSpace (spellString style next ++ _) = spellString style next ++ _ from
            skipSpace_cons (by decide)]
          simpa using tail
termination_by fuel

end

mutual

theorem cost_le_length (value : Json) : cost value ≤ 2 * (spell style value).length := by
  match value with
  | null => simp [cost, spell]
  | bool true => simp [cost, spell]
  | bool false => simp [cost, spell]
  | int value =>
      have := List.length_pos_of_ne_nil (printInt_ne_nil value)
      simp only [cost, spell]
      omega
  | float value =>
      have := List.length_pos_of_ne_nil (double_ne_nil value)
      simp only [cost, spell]
      omega
  | str text => simp only [cost, spell, spellString, List.cons_append, List.length_cons]; omega
  | arr [] => simp [cost, costItems, spell]
  | arr (item :: items) =>
      have head := cost_le_length item
      have tail := costItems_le_length items
      simp only [cost, costItems, spell, List.cons_append, List.length_cons, List.length_append]
      omega
  | obj [] => simp [cost, costMembers, spell]
  | obj ((key, value) :: members) =>
      have head := cost_le_length value
      have tail := costMembers_le_length members
      simp only [cost, costMembers, spell, List.cons_append, List.length_cons, List.length_append]
      omega

theorem costItems_le_length (items : List Json) :
    costItems items ≤ 2 * (spellItems style items).length := by
  match items with
  | [] => simp [costItems]
  | item :: items =>
      have head := cost_le_length item
      have tail := costItems_le_length items
      simp only [costItems, spellItems, List.cons_append, List.length_cons, List.length_append]
      omega

theorem costMembers_le_length (members : List (String × Json)) :
    costMembers members ≤ 2 * (spellMembers style members).length := by
  match members with
  | [] => simp [costMembers]
  | (key, value) :: members =>
      have head := cost_le_length value
      have tail := costMembers_le_length members
      simp only [costMembers, spellMembers, List.cons_append, List.length_cons,
        List.length_append]
      omega

end

/-- Reading a printed value gives the value back. -/
theorem loads_spell {readFloat : String → Option Double} (doubles : ReadsDoubles readFloat)
    {value : Json} (keyed : WellKeyed value) :
    loads readFloat (String.ofList (spell style value)) = some value := by
  have bound := cost_le_length style value
  have read := readValue_spell style doubles value keyed (2 * (spell style value).length + 2)
    (by omega) [] (by intro c tail equal; simp at equal)
  have start := skipSpace_spell style value []
  simp only [List.append_nil] at read start
  simp only [loads, String.toList_ofList, start, read, Option.bind_eq_bind, Option.bind_some]
  rfl

end Style

/-! ### The compact style -/

def compact : Style where
  blank := []
  escape := escapeChar
  spaces c member := by cases member
  reads := readString_flatMap

theorem compact_blank : compact.blank = [] := rfl

theorem compact_string (text : String) : spellString compact text = printString text := rfl

mutual

theorem print_eq_spell (value : Json) : print value = spell compact value := by
  match value with
  | null => rfl
  | bool true => rfl
  | bool false => rfl
  | int value => simp only [print, spell]
  | float value => simp only [print, spell]
  | str text => simp only [print, spell, compact_string]
  | arr [] => simp only [print, spell]
  | arr (item :: items) =>
      simp only [print, spell, print_eq_spell item, printItems_eq_spell items]
  | obj [] => simp only [print, spell]
  | obj ((key, value) :: members) =>
      simp only [print, spell, print_eq_spell value, printMembers_eq_spell members, compact_blank,
        compact_string, List.append_assoc, List.cons_append, List.nil_append]

theorem printItems_eq_spell (items : List Json) : printItems items = spellItems compact items := by
  match items with
  | [] => simp only [printItems, spellItems]
  | item :: items =>
      simp only [printItems, spellItems, print_eq_spell item, printItems_eq_spell items,
        compact_blank, List.cons_append, List.nil_append]

theorem printMembers_eq_spell (members : List (String × Json)) :
    printMembers members = spellMembers compact members := by
  match members with
  | [] => simp only [printMembers, spellMembers]
  | (key, value) :: members =>
      simp only [printMembers, spellMembers, print_eq_spell value, printMembers_eq_spell members,
        compact_blank, compact_string, List.append_assoc, List.cons_append, List.nil_append]

end

theorem print_head (value : Json) :
    ∃ c tail, print value = c :: tail ∧ isSpace c = false ∧ c ≠ ']' := by
  rw [print_eq_spell]
  exact spell_head compact value

theorem loads_print {readFloat : String → Option Double} (doubles : ReadsDoubles readFloat)
    {value : Json} (keyed : WellKeyed value) :
    loads readFloat (String.ofList (print value)) = some value := by
  rw [print_eq_spell]
  exact loads_spell compact doubles keyed

/-- Reads exactly the literals that print a double. -/
def Double.ofText (text : String) : Option Double :=
  if valid : floatLiteral text.toList = true ∧ text.toList.all isNumberChar = true then
    some ⟨text, valid.1, valid.2⟩
  else none

theorem readsDoubles_ofText : ReadsDoubles Double.ofText := by
  intro value
  simp [Double.ofText, value.literal, value.chars]

theorem print_injective {left right : Json} (leftKeyed : WellKeyed left)
    (rightKeyed : WellKeyed right) (same : print left = print right) : left = right := by
  have leftRead := loads_print readsDoubles_ofText leftKeyed
  rw [same, loads_print readsDoubles_ofText rightKeyed] at leftRead
  simpa using leftRead.symm

/-! ## Sorted keys -/

theorem sortMembers_keys (members : List (String × Json)) :
    (sortMembers members).map (·.1) = members.map (·.1) := by
  induction members with
  | nil => rfl
  | cons member members ih => simp [sortMembers, ih]

theorem wellKeyedMembers_iff (members : List (String × Json)) :
    WellKeyedMembers members ↔ ∀ member ∈ members, WellKeyed member.2 := by
  induction members with
  | nil => simp [WellKeyedMembers]
  | cons member members ih => simp [WellKeyedMembers, ih]

mutual

theorem wellKeyed_sortKeys (value : Json) (keyed : WellKeyed value) :
    WellKeyed (sortKeys value) := by
  match value, keyed with
  | null, _ => trivial
  | bool _, _ => trivial
  | int _, _ => trivial
  | float _, _ => trivial
  | str _, _ => trivial
  | arr items, keyed => exact wellKeyedItems_sortItems items keyed
  | obj members, keyed =>
      have sorted := List.perm_insertionSort (fun a b : String × Json => a.1 ≤ b.1)
        (sortMembers members)
      refine ⟨?_, ?_⟩
      · rw [(sorted.map (·.1)).nodup_iff, sortMembers_keys]
        exact keyed.1
      · rw [wellKeyedMembers_iff]
        intro member belongs
        exact (wellKeyedMembers_iff _).mp (wellKeyedMembers_sortMembers members keyed.2) member
          (sorted.mem_iff.mp belongs)

theorem wellKeyedItems_sortItems (items : List Json) (keyed : WellKeyedItems items) :
    WellKeyedItems (sortItems items) := by
  match items, keyed with
  | [], _ => trivial
  | item :: items, keyed =>
      exact ⟨wellKeyed_sortKeys item keyed.1, wellKeyedItems_sortItems items keyed.2⟩

theorem wellKeyedMembers_sortMembers (members : List (String × Json))
    (keyed : WellKeyedMembers members) : WellKeyedMembers (sortMembers members) := by
  match members, keyed with
  | [], _ => trivial
  | (_, value) :: members, keyed =>
      exact ⟨wellKeyed_sortKeys value keyed.1, wellKeyedMembers_sortMembers members keyed.2⟩

end

/-- Reading a canonical text gives the value with its keys sorted. -/
theorem loads_canonicalJson {readFloat : String → Option Double} (doubles : ReadsDoubles readFloat)
    {value : Json} (keyed : WellKeyed value) :
    loads readFloat (canonicalJson value) = some (sortKeys value) :=
  loads_print doubles (wellKeyed_sortKeys value keyed)

/-- Canonical texts are equal only for values equal up to the order of keys. -/
theorem canonicalJson_injective {left right : Json} (leftKeyed : WellKeyed left)
    (rightKeyed : WellKeyed right) (same : canonicalJson left = canonicalJson right) :
    sortKeys left = sortKeys right :=
  print_injective (wellKeyed_sortKeys left leftKeyed) (wellKeyed_sortKeys right rightKeyed)
    (String.ofList_injective same)

theorem eq_of_perm_of_keys {left right : List (String × Json)} (perm : left.Perm right)
    (keys : left.map (·.1) = right.map (·.1)) (distinct : (left.map (·.1)).Nodup) :
    left = right := by
  induction left generalizing right with
  | nil => exact perm.nil_eq
  | cons member left ih =>
      match right, perm, keys with
      | other :: right, perm, keys =>
          simp only [List.map_cons, List.cons.injEq] at keys
          simp only [List.map_cons, List.nodup_cons] at distinct
          have same : member = other := by
            rcases List.mem_cons.mp (perm.mem_iff.mp (List.mem_cons_self)) with same | later
            · exact same
            · exact absurd (keys.2 ▸ List.mem_map_of_mem later) distinct.1
          subst same
          rw [ih ((List.perm_cons _).mp perm) keys.2 distinct.2]
      | [], perm, keys => simp at keys

theorem keys_perm_of_sortKeys {left right : List (String × Json)}
    (same : sortKeys (obj left) = sortKeys (obj right)) :
    (left.map (·.1)).Perm (right.map (·.1)) := by
  simp only [sortKeys, obj.injEq] at same
  have leftPerm := List.perm_insertionSort (fun a b : String × Json => a.1 ≤ b.1) (sortMembers left)
  have rightPerm := List.perm_insertionSort (fun a b : String × Json => a.1 ≤ b.1) (sortMembers right)
  rw [same] at leftPerm
  have keys := (leftPerm.symm.trans rightPerm).map (·.1)
  rwa [sortMembers_keys, sortMembers_keys] at keys

/-- Objects written with the same keys in the same order agree member by member. -/
theorem members_eq_of_sortKeys {left right : List (String × Json)}
    (same : sortKeys (obj left) = sortKeys (obj right))
    (keys : left.map (·.1) = right.map (·.1)) (distinct : (left.map (·.1)).Nodup) :
    sortMembers left = sortMembers right := by
  simp only [sortKeys, obj.injEq] at same
  have leftPerm := List.perm_insertionSort (fun a b : String × Json => a.1 ≤ b.1) (sortMembers left)
  have rightPerm := List.perm_insertionSort (fun a b : String × Json => a.1 ≤ b.1) (sortMembers right)
  rw [same] at leftPerm
  apply eq_of_perm_of_keys (leftPerm.symm.trans rightPerm)
  · rw [sortMembers_keys, sortMembers_keys, keys]
  · rwa [sortMembers_keys]

/-! ## Printed text has no control character -/

theorem hexDigit_solid : ∀ n < 16, 32 ≤ (hexDigit n).toNat := by
  decide

theorem escapeChar_solid (c : Char) : ∀ d ∈ escapeChar c, 32 ≤ d.toNat := by
  intro d member
  unfold escapeChar at member
  split_ifs at member with quote slash newline carriage tab backspace feed control
  all_goals try
    simp only [List.mem_cons, List.not_mem_nil, or_false] at member
    rcases member with rfl | rfl <;> decide
  · have high := hexDigit_solid (c.toNat / 16) (by omega)
    have low := hexDigit_solid (c.toNat % 16) (by omega)
    simp only [List.mem_cons, List.not_mem_nil, or_false] at member
    rcases member with rfl | rfl | rfl | rfl | rfl | rfl <;> first | decide | assumption
  · simp only [List.mem_cons, List.not_mem_nil, or_false] at member
    subst member
    omega

theorem printString_solid (text : String) : ∀ c ∈ printString text, 32 ≤ c.toNat := by
  intro c member
  simp only [printString, List.cons_append, List.mem_cons, List.mem_append, List.mem_flatMap,
    List.not_mem_nil, or_false] at member
  rcases member with rfl | ⟨source, _, escaped⟩ | rfl
  · decide
  · exact escapeChar_solid source c escaped
  · decide

theorem numberChar_ge {c : Char} (number : isNumberChar c = true) : 32 ≤ c.toNat := by
  simp only [isNumberChar, Bool.or_eq_true, beq_iff_eq] at number
  rcases number with ((((digit | rfl) | rfl) | rfl) | rfl) | rfl
  · simp only [Char.isDigit, Bool.and_eq_true, decide_eq_true_eq] at digit
    have low : '0'.val.toNat ≤ c.val.toNat := digit.1
    exact le_trans (by decide) low
  all_goals decide

theorem solid_of_all {text : List Char} (all : text.all (32 ≤ ·.toNat) = true) {c : Char}
    (member : c ∈ text) : 32 ≤ c.toNat := by
  simpa using List.all_eq_true.mp all c member

mutual

theorem print_solid (value : Json) : ∀ c ∈ print value, 32 ≤ c.toNat := by
  intro c member
  match value with
  | null => simp only [print] at member; exact solid_of_all (by decide) member
  | bool true => simp only [print] at member; exact solid_of_all (by decide) member
  | bool false => simp only [print] at member; exact solid_of_all (by decide) member
  | int value =>
      simp only [print] at member
      exact numberChar_ge (printInt_chars value c member)
  | float value =>
      simp only [print] at member
      exact numberChar_ge (double_chars value c member)
  | str text =>
      simp only [print] at member
      exact printString_solid text c member
  | arr [] => simp only [print] at member; exact solid_of_all (by decide) member
  | arr (item :: items) =>
      simp only [print, List.cons_append, List.mem_cons, List.mem_append] at member
      rcases member with rfl | first | rest
      · decide
      · exact print_solid item c first
      · exact printItems_solid items c rest
  | obj [] => simp only [print] at member; exact solid_of_all (by decide) member
  | obj ((key, value) :: members) =>
      simp only [print, List.cons_append, List.mem_cons, List.mem_append] at member
      rcases member with rfl | (first | rfl | second) | rest
      · decide
      · exact printString_solid key c first
      · decide
      · exact print_solid value c second
      · exact printMembers_solid members c rest

theorem printItems_solid (items : List Json) : ∀ c ∈ printItems items, 32 ≤ c.toNat := by
  intro c member
  match items with
  | [] => simp only [printItems] at member; exact solid_of_all (by decide) member
  | item :: items =>
      simp only [printItems, List.cons_append, List.mem_cons, List.mem_append] at member
      rcases member with rfl | first | rest
      · decide
      · exact print_solid item c first
      · exact printItems_solid items c rest

theorem printMembers_solid (members : List (String × Json)) :
    ∀ c ∈ printMembers members, 32 ≤ c.toNat := by
  intro c member
  match members with
  | [] => simp only [printMembers] at member; exact solid_of_all (by decide) member
  | (key, value) :: members =>
      simp only [printMembers, List.cons_append, List.mem_cons, List.mem_append] at member
      rcases member with rfl | (first | rfl | second) | rest
      · decide
      · exact printString_solid key c first
      · decide
      · exact print_solid value c second
      · exact printMembers_solid members c rest

end

end Json
