import Mathlib

/-!
Numerals as text.  Texts of one width sort as the numbers that they write; fractions sort as
their values only up to the place where one of them ends.
-/

namespace Numerals

/-! ## Sorting texts -/

/-- Behind fronts of one length, texts sort by their fronts first. -/
theorem append_lt_append {α : Type} [LinearOrder α] {front other back rest : List α}
    (same : front.length = other.length) :
    front ++ back < other ++ rest ↔ front < other ∨ front = other ∧ back < rest := by
  induction front generalizing other with
  | nil =>
      rw [List.length_nil, eq_comm, List.length_eq_zero_iff] at same
      subst same
      simp
  | cons first front ih =>
      cases other with
      | nil => cases same
      | cons second other =>
          rw [List.cons_append, List.cons_append, List.cons_lt_cons_iff, List.cons_lt_cons_iff,
            ih (Nat.succ.inj same), List.cons.injEq]
          tauto

/-! ## Numbers of one width -/

def digit (n : Fin 10) : Char := Nat.digitChar n.val

theorem digit_lt {left right : Fin 10} : digit left < digit right ↔ left < right := by
  revert left right
  decide

theorem digit_injective : Function.Injective digit := by
  intro left right
  revert left right
  decide

/-- A number in decimal digits, filled up with zeros in front. -/
def padded : Nat → Nat → List Char
  | 0, _ => []
  | width + 1, n => padded width (n / 10) ++ [digit ⟨n % 10, Nat.mod_lt n (by decide)⟩]

theorem padded_succ (width n : Nat) : padded (width + 1) n =
    padded width (n / 10) ++ [digit ⟨n % 10, Nat.mod_lt n (by decide)⟩] := rfl

@[simp] theorem padded_length (width n : Nat) : (padded width n).length = width := by
  induction width generalizing n with
  | zero => rfl
  | succ width ih => simp [padded, ih]

theorem padded_inj {width left right : Nat} (leftFits : left < 10 ^ width)
    (rightFits : right < 10 ^ width) : padded width left = padded width right ↔ left = right := by
  induction width generalizing left right with
  | zero =>
      rw [Nat.pow_zero] at leftFits rightFits
      simp only [padded, true_iff]
      omega
  | succ width ih =>
      rw [Nat.pow_succ] at leftFits rightFits
      have front := @ih (left / 10) (right / 10) (by omega) (by omega)
      have split : padded (width + 1) left = padded (width + 1) right ↔
          padded width (left / 10) = padded width (right / 10) ∧ left % 10 = right % 10 := by
        rw [padded_succ, padded_succ]
        constructor
        · intro same
          obtain ⟨fronts, lasts⟩ := List.append_inj same (by simp)
          exact ⟨fronts, Fin.mk.inj (digit_injective (List.cons.inj lasts).1)⟩
        · rintro ⟨fronts, lasts⟩
          simp only [fronts, lasts]
      rw [split, front]
      omega

theorem padded_lt {width left right : Nat} (leftFits : left < 10 ^ width)
    (rightFits : right < 10 ^ width) : padded width left < padded width right ↔ left < right := by
  induction width generalizing left right with
  | zero =>
      rw [Nat.pow_zero] at leftFits rightFits
      simp only [padded, lt_irrefl, false_iff]
      omega
  | succ width ih =>
      rw [Nat.pow_succ] at leftFits rightFits
      have front := @ih (left / 10) (right / 10) (by omega) (by omega)
      have same := @padded_inj width (left / 10) (right / 10) (by omega)
        (by omega)
      rw [padded_succ, padded_succ, append_lt_append (by simp), front, same,
        List.cons_lt_cons_iff, digit_lt, Fin.mk_lt_mk]
      simp only [lt_irrefl, and_false, or_false]
      omega

/-! ## Fractions -/

/-- What the digits behind a point are worth. -/
def decimal : List (Fin 10) → ℚ
  | [] => 0
  | d :: ds => (d.val + decimal ds) / 10

theorem decimal_cons (d : Fin 10) (ds : List (Fin 10)) :
    decimal (d :: ds) = (d.val + decimal ds) / 10 := rfl

theorem decimal_nonneg (ds : List (Fin 10)) : 0 ≤ decimal ds := by
  induction ds with
  | nil => exact le_refl _
  | cons d ds ih =>
      rw [decimal_cons]
      positivity

theorem decimal_lt_one (ds : List (Fin 10)) : decimal ds < 1 := by
  induction ds with
  | nil => exact one_pos
  | cons d ds ih =>
      have below : (d.val : ℚ) ≤ 9 := by exact_mod_cast Nat.lt_succ_iff.mp d.isLt
      rw [decimal_cons]
      linarith

theorem decimal_pos_iff {ds : List (Fin 10)} : 0 < decimal ds ↔ ∃ d ∈ ds, d ≠ 0 := by
  induction ds with
  | nil => simp [decimal]
  | cons d ds ih =>
      have rest := decimal_nonneg ds
      rw [List.exists_mem_cons_iff, ← ih]
      rw [decimal_cons]
      by_cases zero : d = 0
      · subst zero
        simp
      · have positive : (0 : ℚ) < d.val := by
          exact_mod_cast Nat.pos_of_ne_zero fun same => zero (Fin.ext same)
        simp only [ne_eq, zero, not_false_eq_true, true_or, iff_true]
        positivity

/-- The first digits that differ decide. -/
theorem decimal_cons_lt {d e : Fin 10} {ds es : List (Fin 10)} :
    decimal (d :: ds) < decimal (e :: es) ↔ d < e ∨ d = e ∧ decimal ds < decimal es := by
  have dsLow := decimal_nonneg ds
  have dsHigh := decimal_lt_one ds
  have esLow := decimal_nonneg es
  have esHigh := decimal_lt_one es
  rw [decimal_cons, decimal_cons]
  rcases lt_trichotomy d e with before | same | after
  · have step : (d.val : ℚ) + 1 ≤ e.val := by exact_mod_cast Fin.lt_def.mp before
    simp only [before, true_or, iff_true]
    linarith
  · subst same
    simp only [lt_irrefl, true_and, false_or]
    constructor <;> intro less <;> linarith
  · have step : (e.val : ℚ) + 1 ≤ d.val := by exact_mod_cast Fin.lt_def.mp after
    simp only [after.not_gt, after.ne', false_and, or_false, iff_false, not_lt]
    linarith

/-- More digits are worth more unless they are zeros. -/
theorem decimal_lt_append {ds es : List (Fin 10)} :
    decimal ds < decimal (ds ++ es) ↔ ∃ e ∈ es, e ≠ 0 := by
  induction ds with
  | nil => exact decimal_pos_iff
  | cons d ds ih => rw [List.cons_append, decimal_cons_lt, ih]; simp

theorem decimal_le_append (ds es : List (Fin 10)) : decimal ds ≤ decimal (ds ++ es) := by
  induction ds with
  | nil => exact decimal_nonneg es
  | cons d ds ih =>
      rw [← not_lt, List.cons_append, decimal_cons_lt]
      simpa using ih

end Numerals
