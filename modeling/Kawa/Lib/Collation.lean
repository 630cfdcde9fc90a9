import Mathlib

/-!
Encodings that keep an order.  Where every codeword compares before anything that may follow it,
sequences compare as their encodings do; UTF-8 is such an encoding of the code points.
-/

namespace Collation

variable {α β : Type} [LinearOrder α] [LinearOrder β]

/-- The codewords of different letters are told apart within themselves. -/
structure Ordered (encode : α → List β) : Prop where
  nonempty : ∀ a, encode a ≠ []
  before : ∀ a b, a < b → ∀ left right, encode a ++ left < encode b ++ right

theorem append_lt_append_iff (front : List β) {left right : List β} :
    front ++ left < front ++ right ↔ left < right := by
  induction front with
  | nil => rfl
  | cons first front ih => simp [ih]

/-- The encodings of two texts compare as the texts do. -/
theorem Ordered.strictMono {encode : α → List β} (ordered : Ordered encode) :
    StrictMono fun text : List α => text.flatMap encode := by
  intro left right below
  induction below with
  | nil =>
      rename_i first rest
      change [] < (first :: rest).flatMap encode
      rw [List.flatMap_cons]
      cases code : encode first with
      | nil => exact absurd code (ordered.nonempty first)
      | cons byte bytes => exact List.nil_lt_cons _ _
  | rel lower =>
      simp only [List.flatMap_cons]
      exact ordered.before _ _ lower _ _
  | cons _ ih =>
      simp only [List.flatMap_cons]
      exact (append_lt_append_iff _).mpr ih

/-! ## UTF-8 -/

/-- The bytes of a code point, as numbers. -/
def utf8Char (c : Char) : List Nat := (String.utf8EncodeChar c).map UInt8.toNat

/-- The bytes of a text. -/
def utf8 (text : String) : List Nat := text.toList.flatMap utf8Char

/-- The four lengths of a codeword, by the number it encodes. -/
def codeword (n : Nat) : List Nat :=
  if n ≤ 0x7f then [n]
  else if n ≤ 0x7ff then [n / 64 + 0xc0, n % 64 + 0x80]
  else if n ≤ 0xffff then [n / 4096 + 0xe0, n / 64 % 64 + 0x80, n % 64 + 0x80]
  else [n / 262144 + 0xf0, n / 4096 % 64 + 0x80, n / 64 % 64 + 0x80, n % 64 + 0x80]

theorem utf8Char_eq (c : Char) : utf8Char c = codeword c.val.toNat := by
  have bound : c.val.toNat < 0x110000 := by
    rcases c.valid with low | high
    · exact low.trans (by decide)
    · exact high.2
  unfold utf8Char String.utf8EncodeChar codeword
  generalize c.val.toNat = n at bound ⊢
  dsimp only
  split_ifs <;> simp only [List.map_cons, List.map_nil, UInt8.toNat_ofNat', List.cons.injEq,
    and_true] <;> omega

/-- A greater leading byte decides. -/
theorem cons_lt_of_lead {m n : Nat} {left right : List Nat} (below : m < n) :
    m :: left < n :: right :=
  List.cons_lt_cons_iff.mpr (.inl below)

/-- An equal leading byte leaves it to what follows. -/
theorem cons_lt_of_rest {m n : Nat} {left right : List Nat} (same : m = n)
    (below : left < right) : m :: left < n :: right :=
  List.cons_lt_cons_iff.mpr (.inr ⟨same, below⟩)

/-- Codewords of one length compare at the first byte that differs. -/
theorem codeword_before {m n : Nat} (below : m < n) (bound : n < 0x110000)
    (left right : List Nat) : codeword m ++ left < codeword n ++ right := by
  unfold codeword
  by_cases one : n ≤ 0x7f
  · rw [if_pos one, if_pos (by omega)]
    exact cons_lt_of_lead below
  rw [if_neg one]
  by_cases two : n ≤ 0x7ff
  · rw [if_pos two]
    by_cases first : m ≤ 0x7f
    · rw [if_pos first]
      exact cons_lt_of_lead (by omega)
    · rw [if_neg first, if_pos (by omega)]
      rcases Nat.lt_or_ge (m / 64) (n / 64) with lead | same
      · exact cons_lt_of_lead (by omega)
      · exact cons_lt_of_rest (by omega) (cons_lt_of_lead (by omega))
  rw [if_neg two]
  by_cases three : n ≤ 0xffff
  · rw [if_pos three]
    by_cases first : m ≤ 0x7f
    · rw [if_pos first]
      exact cons_lt_of_lead (by omega)
    rw [if_neg first]
    by_cases second : m ≤ 0x7ff
    · rw [if_pos second]
      exact cons_lt_of_lead (by omega)
    · rw [if_neg second, if_pos (by omega)]
      rcases Nat.lt_or_ge (m / 4096) (n / 4096) with lead | same
      · exact cons_lt_of_lead (by omega)
      · refine cons_lt_of_rest (by omega) ?_
        rcases Nat.lt_or_ge (m / 64) (n / 64) with next | tie
        · exact cons_lt_of_lead (by omega)
        · exact cons_lt_of_rest (by omega) (cons_lt_of_lead (by omega))
  rw [if_neg three]
  split_ifs with first second third
  · exact cons_lt_of_lead (by omega)
  · exact cons_lt_of_lead (by omega)
  · exact cons_lt_of_lead (by omega)
  · rcases Nat.lt_or_ge (m / 262144) (n / 262144) with lead | same
    · exact cons_lt_of_lead (by omega)
    · refine cons_lt_of_rest (by omega) ?_
      rcases Nat.lt_or_ge (m / 4096) (n / 4096) with next | tie
      · exact cons_lt_of_lead (by omega)
      · refine cons_lt_of_rest (by omega) ?_
        rcases Nat.lt_or_ge (m / 64) (n / 64) with later | last
        · exact cons_lt_of_lead (by omega)
        · exact cons_lt_of_rest (by omega) (cons_lt_of_lead (by omega))

theorem utf8_ordered : Ordered utf8Char where
  nonempty c empty := String.utf8EncodeChar_ne_nil (List.map_eq_nil_iff.mp empty)
  before a b lower left right := by
    have less : a.val.toNat < b.val.toNat := UInt32.lt_iff_toNat_lt.mp lower
    have bound : b.val.toNat < 0x110000 := by
      rcases b.valid with low | high
      · exact low.trans (by decide)
      · exact high.2
    rw [utf8Char_eq, utf8Char_eq]
    exact codeword_before less bound left right

/-- Bytes compare as code points do. -/
theorem utf8_lt_iff (left right : String) : utf8 left < utf8 right ↔ left < right := by
  rw [String.lt_iff_toList_lt]
  exact utf8_ordered.strictMono.lt_iff_lt

theorem utf8_injective : Function.Injective utf8 := fun _ _ same =>
  String.toList_inj.mp (utf8_ordered.strictMono.injective same)

end Collation
