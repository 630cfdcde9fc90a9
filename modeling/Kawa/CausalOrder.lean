import Kawa.Ids
import Kawa.Lib.Collation

/-!
The one causal order, as two engines read it: the tuples that are sorted, and the `ORDER BY` list
over the stored text.
-/

namespace Kawa

namespace CausalOrder

open Collation

/-- A row as both engines order it; `unique` holds the columns that tell rows apart. -/
structure OrderRow where
  hlc : String
  tiebreak : String
  unique : List String

/-! ## The sorted tuples -/

abbrev SortKey := Nat ×ₗ Nat ×ₗ Nat ×ₗ String ×ₗ List String

/-- `hlc_parts_sort_key`: absent parts are below all present ones. -/
def hlcPartsSortKey (parts : Option (Nat × Nat)) (tiebreak : String) (unique : List String) :
    SortKey :=
  match parts with
  | none => toLex (0, toLex (0, toLex (0, toLex ("", unique))))
  | some (phys, logical) => toLex (1, toLex (phys, toLex (logical, toLex (tiebreak, unique))))

/-- `hlc_sort_key`; `none` where it raises. Without a `unique` the list is empty, which decides
nothing, as the tuple cut to four does. -/
def hlcSortKey (row : OrderRow) : Option SortKey :=
  (parseHlc row.hlc).map fun parsed =>
    hlcPartsSortKey (some (parsed.1, parsed.2.1)) row.tiebreak row.unique

/-- What `sorted(..., reverse=desc)` puts first. -/
def KeyBefore (desc : Bool) (left right : SortKey) : Prop :=
  if desc then right < left else left < right

/-! ## The `ORDER BY` list -/

/-- `split_part(text, '.', n)` -/
def splitPart (text : List Char) (n : Nat) : List Char := (text.splitOn '.').getD (n - 1) []

/-- What the input of a number skips at both ends. -/
def blank (c : Char) : Bool :=
  c == ' ' || c == '\t' || c == '\n' || c == '\r' || c.toNat == 11 || c.toNat == 12

/-- `text::bigint` of a decimal text; `none` where the cast raises. -/
def bigintIn (text : List Char) : Option Int :=
  let trimmed := ((text.dropWhile blank).reverse.dropWhile blank).reverse
  let negative := trimmed.head? = some '-'
  let digits := if negative ∨ trimmed.head? = some '+' then trimmed.drop 1 else trimmed
  if Json.digitRun digits then
    let magnitude : Int := Json.natOfDigits digits
    let n := if negative then -magnitude else magnitude
    if -2 ^ 63 ≤ n ∧ n ≤ 2 ^ 63 - 1 then some n else none
  else none

inductive SqlValue
  | bigint (n : Int)
  | text (bytes : List Nat)
deriving DecidableEq

/-- Text columns compare bytewise under `COLLATE "C"`. -/
def SqlValue.Below : SqlValue → SqlValue → Prop
  | bigint left, bigint right => left < right
  | text left, text right => left < right
  | _, _ => False

/-- `hlc_order_sql`: the values of its expressions; `none` where a cast raises. -/
def hlcOrderSql (row : OrderRow) : Option (List SqlValue) := do
  let phys ← bigintIn (splitPart row.hlc.toList 1)
  let logical ← bigintIn (splitPart row.hlc.toList 2)
  return [.bigint phys, .bigint logical, .text (utf8 row.tiebreak)] ++
    row.unique.map fun column => .text (utf8 column)

/-- What `ORDER BY` puts first, every expression in the same direction. -/
def ValuesBefore (desc : Bool) : List SqlValue → List SqlValue → Prop
  | left :: lefts, right :: rights =>
      (if desc then right.Below left else left.Below right) ∨
        left = right ∧ ValuesBefore desc lefts rights
  | _, _ => False

/-! ## Well-formed rows -/

def pyBefore (desc : Bool) (left right : OrderRow) : Prop :=
  ∃ leftKey rightKey, hlcSortKey left = some leftKey ∧ hlcSortKey right = some rightKey ∧
    KeyBefore desc leftKey rightKey

def sqlBefore (desc : Bool) (left right : OrderRow) : Prop :=
  ∃ leftValues rightValues, hlcOrderSql left = some leftValues ∧
    hlcOrderSql right = some rightValues ∧ ValuesBefore desc leftValues rightValues

/-- A stamp that parses, and as many unique columns as the order lists. -/
def WellFormed (columns : Nat) (row : OrderRow) : Prop :=
  (parseHlc row.hlc).isSome = true ∧ row.unique.length = columns

theorem splitDot_eq {text front rest : List Char} (divided : splitDot text = some (front, rest)) :
    text = front ++ '.' :: rest ∧ ∀ c ∈ front, c ≠ '.' := by
  unfold splitDot at divided
  split at divided
  · cases divided
  · rename_i dot tail dropped
    obtain ⟨rfl, rfl⟩ := Prod.mk.inj (Option.some.inj divided)
    have whole := List.takeWhile_append_dropWhile (p := (· ≠ '.')) (l := text)
    have first := List.head?_dropWhile_not (· ≠ '.') text
    rw [dropped] at whole first
    have isDot : dot = '.' := by simpa using first
    rw [isDot] at whole
    exact ⟨whole.symm, fun c member => by simpa using List.mem_takeWhile_imp member⟩

theorem splitOn_dot {front rest : List Char} (clear : ∀ c ∈ front, c ≠ '.') :
    (front ++ '.' :: rest).splitOn '.' = front :: rest.splitOn '.' := by
  have fields : (front ++ '.' :: rest).splitOnP (· == '.') = front :: rest.splitOnP (· == '.') :=
    List.splitOnP_append_cons_of_forall_mem (by simpa using clear) '.' (by simp) rest
  exact fields

theorem bigintIn_digits {digits : List Char} (run : Json.digitRun digits = true)
    (small : Json.natOfDigits digits ≤ 2 ^ 63 - 1) :
    bigintIn digits = some (Json.natOfDigits digits : Int) := by
  have each : ∀ c ∈ digits, c.isDigit = true := by
    simp only [Json.digitRun, Bool.and_eq_true, List.all_eq_true] at run
    exact run.2
  -- a digit is neither blank nor a sign
  have solid : ∀ c ∈ digits, blank c = false := by
    intro c member
    have digit := each c member
    simp only [Char.isDigit, Bool.and_eq_true, decide_eq_true_eq] at digit
    have low : 48 ≤ c.toNat := UInt32.le_iff_toNat_le.mp digit.1
    have apart : ∀ other : Char, other.toNat < 48 → c ≠ other := by
      rintro other less rfl
      omega
    simp only [blank, Bool.or_eq_false_iff, beq_eq_false_iff_ne, ne_eq]
    refine ⟨⟨⟨⟨⟨apart ' ' (by decide), apart '\t' (by decide)⟩, apart '\n' (by decide)⟩,
      apart '\r' (by decide)⟩, by omega⟩, by omega⟩
  have kept : ∀ text : List Char, (∀ c ∈ text, blank c = false) → text.dropWhile blank = text := by
    intro text clear
    cases text with
    | nil => rfl
    | cons first rest =>
        rw [List.dropWhile_cons_of_neg]
        simpa using clear first List.mem_cons_self
  have trimmed : ((digits.dropWhile blank).reverse.dropWhile blank).reverse = digits := by
    rw [kept digits solid, kept digits.reverse fun c member =>
      solid c (List.mem_reverse.mp member), List.reverse_reverse]
  have unsigned : ∀ sign : Char, sign.isDigit = false → digits.head? ≠ some sign := by
    intro sign other found
    have digit := each sign (List.mem_of_head? found)
    rw [other] at digit
    cases digit
  have plain : ¬ (digits.head? = some '-' ∨ digits.head? = some '+') := by
    rintro (minus | plus)
    · exact unsigned '-' (by decide) minus
    · exact unsigned '+' (by decide) plus
  unfold bigintIn
  rw [trimmed]
  dsimp only
  rw [if_neg plain, if_pos run, if_neg fun minus => plain (.inl minus),
    if_pos ⟨by omega, by omega⟩]

/-- Both engines split a stamp that parses at its first two dots. -/
theorem parts_of_parse {hlc node : String} {phys logical : Nat}
    (parsed : parseHlc hlc = some (phys, logical, node)) :
    bigintIn (splitPart hlc.toList 1) = some (phys : Int) ∧
      bigintIn (splitPart hlc.toList 2) = some (logical : Int) := by
  simp only [parseHlc, Option.bind_eq_bind, Option.bind_eq_some_iff] at parsed
  obtain ⟨⟨physical, rest⟩, first, ⟨log, name⟩, second, checked⟩ := parsed
  dsimp only at second checked
  split_ifs at checked with unnamed run wide
  obtain ⟨rfl, rfl, rfl⟩ : Json.natOfDigits physical = phys ∧ Json.natOfDigits log = logical ∧
      String.ofList name = node := by simpa using checked
  simp only [Bool.not_eq_true', Bool.not_eq_false, Bool.and_eq_true] at run
  obtain ⟨whole, clear⟩ := splitDot_eq first
  obtain ⟨tail, dotless⟩ := splitDot_eq second
  have fields : hlc.toList.splitOn '.' = physical :: log :: name.splitOn '.' := by
    rw [whole, splitOn_dot clear, tail, splitOn_dot dotless]
  constructor
  · rw [splitPart, fields]
    change bigintIn physical = _
    exact bigintIn_digits run.1 (by omega)
  · rw [splitPart, fields]
    change bigintIn log = _
    exact bigintIn_digits run.2 (by omega)

/-! ## One order -/

/-- The unique columns compare bytewise as the tuples of texts do. -/
theorem uniques_before {desc : Bool} {left right : List String}
    (same : left.length = right.length) :
    ValuesBefore desc (left.map fun column => .text (utf8 column))
        (right.map fun column => .text (utf8 column)) ↔
      if desc then right < left else left < right := by
  induction left generalizing right with
  | nil =>
      obtain rfl := List.length_eq_zero_iff.mp same.symm
      cases desc <;> simp [ValuesBefore]
  | cons first left ih =>
      cases right with
      | nil => cases same
      | cons second right =>
          have step := ih (Nat.succ.inj same)
          cases desc with
          | true =>
              simp only [↓reduceIte] at step ⊢
              simp only [List.map_cons, ValuesBefore, ↓reduceIte, SqlValue.Below, utf8_lt_iff,
                SqlValue.text.injEq, utf8_injective.eq_iff, step, List.cons_lt_cons_iff]
              exact or_congr Iff.rfl (and_congr eq_comm Iff.rfl)
          | false =>
              simp only [Bool.false_eq_true, ↓reduceIte] at step ⊢
              simp only [List.map_cons, ValuesBefore, Bool.false_eq_true, ↓reduceIte,
                SqlValue.Below, utf8_lt_iff, SqlValue.text.injEq, utf8_injective.eq_iff, step,
                List.cons_lt_cons_iff]

/-- The values of one row against those of another compare as the tuples do. -/
theorem values_before {desc : Bool} {leftPhys leftLog rightPhys rightLog : Nat}
    {leftTie rightTie : String} {left right : List String} (same : left.length = right.length) :
    ValuesBefore desc
        ([.bigint leftPhys, .bigint leftLog, .text (utf8 leftTie)] ++
          left.map fun column => .text (utf8 column))
        ([.bigint rightPhys, .bigint rightLog, .text (utf8 rightTie)] ++
          right.map fun column => .text (utf8 column)) ↔
      KeyBefore desc (hlcPartsSortKey (some (leftPhys, leftLog)) leftTie left)
        (hlcPartsSortKey (some (rightPhys, rightLog)) rightTie right) := by
  have uniques : ValuesBefore desc (left.map fun column => .text (utf8 column))
      (right.map fun column => .text (utf8 column)) ↔
        if desc then right < left else left < right := uniques_before same
  cases desc with
  | true =>
      simp only [↓reduceIte] at uniques
      simp only [KeyBefore, hlcPartsSortKey, List.cons_append, List.nil_append, ValuesBefore,
        ↓reduceIte, SqlValue.Below, SqlValue.bigint.injEq, SqlValue.text.injEq, utf8_lt_iff,
        utf8_injective.eq_iff, Nat.cast_lt, Nat.cast_inj, uniques, Prod.Lex.toLex_lt_toLex,
        lt_irrefl, false_or, true_and]
      -- the two engines write the shared prefix in opposite orders
      refine or_congr Iff.rfl (and_congr eq_comm (or_congr Iff.rfl (and_congr eq_comm
        (or_congr Iff.rfl (and_congr eq_comm Iff.rfl)))))
  | false =>
      simp only [Bool.false_eq_true, ↓reduceIte] at uniques
      simp only [KeyBefore, hlcPartsSortKey, List.cons_append, List.nil_append, ValuesBefore,
        Bool.false_eq_true, ↓reduceIte, SqlValue.Below, SqlValue.bigint.injEq,
        SqlValue.text.injEq, utf8_lt_iff, utf8_injective.eq_iff, Nat.cast_lt, Nat.cast_inj,
        uniques, Prod.Lex.toLex_lt_toLex, lt_irrefl, false_or, true_and]

theorem digitRun_clear {digits : List Char} (run : Json.digitRun digits = true) :
    ∀ c ∈ digits, c ≠ '.' := by
  rintro c member rfl
  simp only [Json.digitRun, Bool.and_eq_true, List.all_eq_true] at run
  exact absurd (run.2 '.' member) (by decide)

theorem digitRun_padded {digits : List Char} (zeros : Nat) (run : Json.digitRun digits = true) :
    Json.digitRun (List.replicate zeros '0' ++ digits) = true := by
  simp only [Json.digitRun, Bool.and_eq_true, Bool.not_eq_true', List.isEmpty_eq_false_iff,
    List.all_eq_true] at run ⊢
  refine ⟨List.append_ne_nil_of_right_ne_nil _ run.1, fun c member => ?_⟩
  rcases List.mem_append.mp member with zero | digit
  · rw [List.eq_of_mem_replicate zero]
    decide
  · exact run.2 c digit

theorem natOfDigits_padded (zeros : Nat) (digits : List Char) :
    Json.natOfDigits (List.replicate zeros '0' ++ digits) = Json.natOfDigits digits := by
  rw [Json.natOfDigits, Nat.ofDigitChars_append, Nat.ofDigitChars_replicate_zero, Nat.mul_zero]
  rfl

/-- Leading zeros of the two numbers do not change what a stamp parses to. -/
theorem parseHlc_padded {physical logical : List Char} (node : List Char) (m n : Nat)
    (physicalRun : Json.digitRun physical = true) (logicalRun : Json.digitRun logical = true) :
    parseHlc (String.ofList (List.replicate m '0' ++ physical ++ '.' ::
        (List.replicate n '0' ++ logical ++ '.' :: node))) =
      parseHlc (String.ofList (physical ++ '.' :: (logical ++ '.' :: node))) := by
  have physicalPadded := digitRun_padded m physicalRun
  have logicalPadded := digitRun_padded n logicalRun
  simp only [parseHlc, String.toList_ofList, splitDot_append (digitRun_clear physicalPadded),
    splitDot_append (digitRun_clear logicalPadded), splitDot_append (digitRun_clear physicalRun),
    splitDot_append (digitRun_clear logicalRun), Option.bind_eq_bind, Option.bind_some,
    physicalPadded, logicalPadded, physicalRun, logicalRun, natOfDigits_padded]

/-- The keys of a row whose stamp parses. -/
theorem keys_of_parse {row : OrderRow} {phys logical : Nat} {node : String}
    (parsed : parseHlc row.hlc = some (phys, logical, node)) :
    hlcSortKey row = some (hlcPartsSortKey (some (phys, logical)) row.tiebreak row.unique) ∧
      hlcOrderSql row = some ([.bigint phys, .bigint logical, .text (utf8 row.tiebreak)] ++
        row.unique.map fun column => .text (utf8 column)) := by
  obtain ⟨first, second⟩ := parts_of_parse parsed
  constructor
  · simp only [hlcSortKey, parsed, Option.map_some]
  · simp only [hlcOrderSql, first, second, Option.bind_eq_bind, Option.bind_some]
    rfl

theorem WellFormed.parses {columns : Nat} {row : OrderRow} (wellFormed : WellFormed columns row) :
    ∃ phys logical node, parseHlc row.hlc = some (phys, logical, node) := by
  obtain ⟨⟨phys, logical, node⟩, parsed⟩ := Option.isSome_iff_exists.mp wellFormed.1
  exact ⟨phys, logical, node, parsed⟩

theorem sqlBefore_iff {columns : Nat} {desc : Bool} {left right : OrderRow}
    (leftForm : WellFormed columns left) (rightForm : WellFormed columns right) :
    sqlBefore desc left right ↔ pyBefore desc left right := by
  obtain ⟨leftPhys, leftLog, leftNode, leftParsed⟩ := leftForm.parses
  obtain ⟨rightPhys, rightLog, rightNode, rightParsed⟩ := rightForm.parses
  obtain ⟨leftKey, leftValues⟩ := keys_of_parse leftParsed
  obtain ⟨rightKey, rightValues⟩ := keys_of_parse rightParsed
  have columnwise := leftForm.2.trans rightForm.2.symm
  constructor
  · rintro ⟨_, _, found, again, before⟩
    rw [leftValues, Option.some.injEq] at found
    rw [rightValues, Option.some.injEq] at again
    rw [← found, ← again] at before
    exact ⟨_, _, leftKey, rightKey, (values_before columnwise).mp before⟩
  · rintro ⟨_, _, found, again, before⟩
    rw [leftKey, Option.some.injEq] at found
    rw [rightKey, Option.some.injEq] at again
    rw [← found, ← again] at before
    exact ⟨_, _, leftValues, rightValues, (values_before columnwise).mpr before⟩

/-- What the two encodings of the causal order owe each other and their callers. -/
structure OneOrder (columns : Nat) : Prop where
  agree : ∀ desc left right, WellFormed columns left → WellFormed columns right →
    (sqlBefore desc left right ↔ pyBefore desc left right)
  parts : ∀ row phys logical node, parseHlc row.hlc = some (phys, logical, node) →
    hlcSortKey row = some (hlcPartsSortKey (some (phys, logical)) row.tiebreak row.unique)
  irreflexive : ∀ desc row, ¬ pyBefore desc row row
  transitive : ∀ desc first second third, pyBefore desc first second →
    pyBefore desc second third → pyBefore desc first third
  total : ∀ desc left right, WellFormed columns left → WellFormed columns right →
    left.unique ≠ right.unique → pyBefore desc left right ∨ pyBefore desc right left
  -- rows that differ in how their numbers are written only
  numeric : ∀ left right, WellFormed columns left → WellFormed columns right →
    ((parseHlc left.hlc).map fun parts => (parts.1, parts.2.1)) =
      ((parseHlc right.hlc).map fun parts => (parts.1, parts.2.1)) →
    left.tiebreak = right.tiebreak → left.unique = right.unique →
    hlcSortKey left = hlcSortKey right ∧ hlcOrderSql left = hlcOrderSql right
  padded : ∀ (m n : Nat) (physical logical node : List Char),
    Json.digitRun physical = true → Json.digitRun logical = true →
    parseHlc (String.ofList (List.replicate m '0' ++ physical ++ '.' ::
        (List.replicate n '0' ++ logical ++ '.' :: node))) =
      parseHlc (String.ofList (physical ++ '.' :: (logical ++ '.' :: node)))

theorem keyBefore_trans {desc : Bool} {first second third : SortKey}
    (left : KeyBefore desc first second) (right : KeyBefore desc second third) :
    KeyBefore desc first third := by
  cases desc with
  | true => exact lt_trans (show third < second from right) (show second < first from left)
  | false => exact lt_trans (show first < second from left) (show second < third from right)

theorem keyBefore_total {desc : Bool} {left right : SortKey} (apart : left ≠ right) :
    KeyBefore desc left right ∨ KeyBefore desc right left := by
  cases desc with
  | true => exact (lt_or_gt_of_ne apart).symm
  | false => exact lt_or_gt_of_ne apart

end CausalOrder

end Kawa
