import Mathlib

/-!
Sorting rows by a key.  A list sorted by a key that tells its rows apart is determined
by which rows are in it, so neither the order they arrive in nor rows that are filtered
out first can be read off the result.
-/

namespace Ranking

variable {α κ : Type} [LinearOrder κ]

/-- The rows by ascending key; rows of one key keep their order. -/
def sortBy (key : α → κ) (rows : List α) : List α :=
  rows.mergeSort fun left right => decide (key left ≤ key right)

theorem sortBy_perm (key : α → κ) (rows : List α) : (sortBy key rows).Perm rows :=
  List.mergeSort_perm rows _

@[simp] theorem mem_sortBy {key : α → κ} {rows : List α} {row : α} :
    row ∈ sortBy key rows ↔ row ∈ rows :=
  (sortBy_perm key rows).mem_iff

theorem sortBy_sorted (key : α → κ) (rows : List α) :
    (sortBy key rows).Pairwise fun left right => key left ≤ key right := by
  let below : α → α → Bool := fun left right => decide (key left ≤ key right)
  have transitive : ∀ a b c, below a b = true → below b c = true → below a c = true := by
    intro a b c first second
    simp only [below, decide_eq_true_eq] at first second ⊢
    exact le_trans first second
  have total : ∀ a b, (below a b || below b a) = true := by
    intro a b
    rcases le_total (key a) (key b) with low | high
    · simp [below, low]
    · simp [below, high]
  have sorted : (rows.mergeSort below).Pairwise fun left right => below left right = true :=
    List.pairwise_mergeSort transitive total rows
  simp only [below, decide_eq_true_eq] at sorted
  exact sorted

/-- Rows that their keys tell apart come out in one order. -/
theorem sortBy_of_perm {key : α → κ} {left right : List α} (same : left.Perm right)
    (distinct : ∀ a ∈ left, ∀ b ∈ left, key a = key b → a = b) :
    sortBy key left = sortBy key right := by
  have perm : (sortBy key left).Perm (sortBy key right) :=
    (sortBy_perm key left).trans (same.trans (sortBy_perm key right).symm)
  refine perm.eq_of_pairwise ?_ (sortBy_sorted key left) (sortBy_sorted key right)
  intro a b heldLeft heldRight low high
  have inLeft : b ∈ left := same.mem_iff.mpr (mem_sortBy.mp heldRight)
  exact distinct a (mem_sortBy.mp heldLeft) b inLeft (le_antisymm low high)

theorem perm_of_mem_iff {left right : List α} (leftNodup : left.Nodup) (rightNodup : right.Nodup)
    (same : ∀ row, row ∈ left ↔ row ∈ right) : left.Perm right :=
  (List.perm_ext_iff_of_nodup leftNodup rightNodup).mpr same

/-! ## The first rows -/

/-- Fewer than `n` rows come strictly before one of the first `n`. -/
theorem few_before {key : α → κ} {rows : List α}
    (sorted : rows.Pairwise fun left right => key left ≤ key right) {row : α} {n : Nat}
    (first : row ∈ rows.take n) : (rows.filter (key · < key row)).length < n := by
  obtain ⟨front, back, split⟩ := List.append_of_mem first
  have short : front.length < n := by
    have length := congrArg List.length split
    rw [List.length_take, List.length_append, List.length_cons] at length
    omega
  have whole : rows = front ++ row :: (back ++ rows.drop n) := by
    rw [← List.cons_append, ← List.append_assoc, ← split, List.take_append_drop]
  -- what comes after the row is not before it
  have later : (row :: (back ++ rows.drop n)).filter (key · < key row) = [] := by
    rw [List.filter_eq_nil_iff]
    intro other member
    rw [whole] at sorted
    have above := List.pairwise_cons.mp (List.pairwise_append.mp sorted).2.1
    rcases List.mem_cons.mp member with rfl | behind
    · simp
    · simpa using above.1 other behind
  rw [whole, List.filter_append, later, List.append_nil]
  exact (List.length_filter_le _ _).trans_lt short

/-- A row that fewer than `n` rows come before is one of the first `n`. -/
theorem mem_take_sortBy {key : α → κ} {rows : List α} (nodup : rows.Nodup)
    (distinct : ∀ a ∈ rows, ∀ b ∈ rows, key a = key b → a = b) {row : α} (held : row ∈ rows)
    {n : Nat} (few : (rows.filter (key · < key row)).length < n) :
    row ∈ (sortBy key rows).take n := by
  by_contra cut
  have sortedNodup : (sortBy key rows).Nodup := (sortBy_perm key rows).nodup_iff.mpr nodup
  have sorted := sortBy_sorted key rows
  have inSorted : row ∈ sortBy key rows := mem_sortBy.mpr held
  rw [← List.take_append_drop n (sortBy key rows)] at inSorted sorted sortedNodup
  have dropped : row ∈ (sortBy key rows).drop n :=
    (List.mem_append.mp inSorted).resolve_left cut
  -- all that is kept comes strictly before what is dropped
  have before : (sortBy key rows).take n ⊆ rows.filter (key · < key row) := by
    intro other kept
    have inRows : other ∈ rows := mem_sortBy.mp (List.mem_of_mem_take kept)
    have below := (List.pairwise_append.mp sorted).2.2 other kept row dropped
    refine List.mem_filter.mpr ⟨inRows, decide_eq_true (lt_of_le_of_ne below fun same => ?_)⟩
    rw [distinct other inRows row held same] at kept
    exact cut kept
  have fits := (List.Nodup.subperm (List.nodup_append.mp sortedNodup).1 before).length_le
  have some := List.length_pos_of_mem dropped
  rw [List.length_take] at fits
  rw [List.length_drop] at some
  omega

/-- How many rows of one rank are among the first `n` of a list sorted by rank. -/
theorem length_filter_take {key : α → κ} {rows : List α}
    (sorted : rows.Pairwise fun left right => key left ≤ key right) (rank : κ) (n : Nat) :
    ((rows.take n).filter (key · = rank)).length =
      min (rows.filter (key · = rank)).length (n - (rows.filter (key · < rank)).length) := by
  induction sorted generalizing n with
  | nil => simp
  | @cons row rows least _ ih =>
      cases n with
      | zero => simp
      | succ n =>
          have rest := ih n
          rcases lt_trichotomy (key row) rank with before | same | after
          · simp only [List.take_succ_cons, List.filter_cons, before.ne, before, decide_false,
              decide_true, Bool.false_eq_true, ↓reduceIte, List.length_cons]
            omega
          · -- no row of a lower rank follows
            have none : rows.filter (key · < rank) = [] := by
              rw [List.filter_eq_nil_iff]
              intro other member
              simpa [← same] using least other member
            rw [none] at rest
            simp only [List.take_succ_cons, List.filter_cons, same, lt_irrefl, decide_false,
              decide_true, Bool.false_eq_true, ↓reduceIte, List.length_cons, none,
              List.length_nil] at rest ⊢
            omega
          · have none : ∀ kept : List α, kept ⊆ rows → kept.filter (key · = rank) = [] := by
              intro kept inside
              rw [List.filter_eq_nil_iff]
              intro other member
              simpa using (after.trans_le (least other (inside member))).ne'
            simp [after.ne', none rows (List.Subset.refl rows),
              none (rows.take n) (List.take_subset n rows)]

end Ranking
