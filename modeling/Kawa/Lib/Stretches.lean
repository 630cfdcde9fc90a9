import Mathlib

/-!
Labelled points collapsed into stretches: a point that continues the newest stretch under its
label extends it, any other opens one.  The stretches are the maximal runs of the labels, and no
label comes back exactly when each holds all between two of its points.
-/

structure Stretch (Label : Type) where
  label : Label
  lo : Int
  hi : Int
deriving DecidableEq

namespace Stretch

variable {Label : Type}

def Holds (stretch : Stretch Label) (label : Label) (position : Int) : Prop :=
  stretch.label = label ∧ stretch.lo ≤ position ∧ position ≤ stretch.hi

section Collapse

variable [DecidableEq Label]

/-- One point, in order; the newest stretch comes first. -/
def extend (newest : List (Stretch Label)) (point : Label × Int) : List (Stretch Label) :=
  match newest with
  | last :: earlier =>
      if last.label = point.1 ∧ last.hi = point.2 - 1 then { last with hi := point.2 } :: earlier
      else { label := point.1, lo := point.2, hi := point.2 } :: last :: earlier
  | [] => [{ label := point.1, lo := point.2, hi := point.2 }]

def collapse (points : List (Label × Int)) : List (Stretch Label) :=
  (points.foldl extend []).reverse

/-- The stretches whose label has been seen before them. -/
def reappearing : List Label → List (Stretch Label) → List (Stretch Label)
  | _, [] => []
  | seen, stretch :: rest =>
      if stretch.label ∈ seen then stretch :: reappearing (stretch.label :: seen) rest
      else reappearing (stretch.label :: seen) rest

end Collapse

/-! ## What the stretches say of the points -/

/-- The stretches of some points, newest first: they hold these points and no others, they do not
overlap, and none could be longer. -/
structure Collapsed (points : List (Label × Int)) (newest : List (Stretch Label)) : Prop where
  holds : ∀ label position,
    (label, position) ∈ points ↔ ∃ stretch ∈ newest, stretch.Holds label position
  proper : ∀ stretch ∈ newest, stretch.lo ≤ stretch.hi
  ordered : newest.Pairwise fun later earlier => earlier.hi < later.lo
  maximal : ∀ stretch ∈ newest, (stretch.label, stretch.hi + 1) ∉ points

theorem Collapsed.empty : Collapsed ([] : List (Label × Int)) [] := by
  refine ⟨?_, ?_, .nil, ?_⟩ <;> simp

/-- All of a label's points in an stretch are below its end. -/
theorem Collapsed.le_newest {points : List (Label × Int)} {last : Stretch Label}
    {earlier : List (Stretch Label)} (collapsed : Collapsed points (last :: earlier)) :
    ∀ stretch ∈ earlier, stretch.hi < last.lo :=
  (List.pairwise_cons.mp collapsed.ordered).1

/-- A later point of the newest label that follows at once makes the newest stretch longer. -/
theorem Collapsed.lengthen {points : List (Label × Int)} {last : Stretch Label}
    {earlier : List (Stretch Label)} (collapsed : Collapsed points (last :: earlier))
    (above : ∀ held ∈ points, held.2 < last.hi + 1) :
    Collapsed (points ++ [(last.label, last.hi + 1)])
      ({ last with hi := last.hi + 1 } :: earlier) := by
  have proper := collapsed.proper last List.mem_cons_self
  have below := collapsed.le_newest
  refine ⟨fun label position => ?_, ?_, ?_, ?_⟩
  · rw [List.mem_append, List.mem_singleton, collapsed.holds]
    simp only [Prod.mk.injEq, List.mem_cons, exists_eq_or_imp, Holds]
    constructor
    · rintro ((⟨named, lower, upper⟩ | old) | ⟨rfl, rfl⟩)
      · exact .inl ⟨named, lower, by omega⟩
      · exact .inr old
      · exact .inl ⟨rfl, by omega, le_refl _⟩
    · rintro (⟨named, lower, upper⟩ | old)
      · by_cases added : position = last.hi + 1
        · exact .inr ⟨named.symm, added⟩
        · exact .inl (.inl ⟨named, lower, by omega⟩)
      · exact .inl (.inr old)
  · intro stretch member
    rcases List.mem_cons.mp member with rfl | old
    · dsimp only
      omega
    · exact collapsed.proper stretch (List.mem_cons_of_mem _ old)
  · exact List.pairwise_cons.mpr ⟨below, (List.pairwise_cons.mp collapsed.ordered).2⟩
  · intro stretch member held
    rcases List.mem_append.mp held with old | new
    · rcases List.mem_cons.mp member with rfl | former
      · have := above _ old
        dsimp only at this
        omega
      · exact collapsed.maximal stretch (List.mem_cons_of_mem _ former) old
    · have position : stretch.hi + 1 = last.hi + 1 := (Prod.mk.inj (List.mem_singleton.mp new)).2
      rcases List.mem_cons.mp member with rfl | former
      · dsimp only at position
        omega
      · have := below stretch former
        omega

/-- A later point that does not continue the newest stretch opens one. -/
theorem Collapsed.opened {points : List (Label × Int)} {newest : List (Stretch Label)}
    {label : Label} {position : Int} (collapsed : Collapsed points newest)
    (above : ∀ held ∈ points, held.2 < position)
    (apart : ∀ stretch ∈ newest, ¬ (stretch.label = label ∧ stretch.hi = position - 1)) :
    Collapsed (points ++ [(label, position)])
      ({ label := label, lo := position, hi := position } :: newest) := by
  have ends : ∀ stretch ∈ newest, stretch.hi < position := fun stretch member =>
    above (stretch.label, stretch.hi) ((collapsed.holds _ _).mpr
      ⟨stretch, member, rfl, collapsed.proper stretch member, le_refl _⟩)
  refine ⟨fun other place => ?_, ?_, List.pairwise_cons.mpr ⟨ends, collapsed.ordered⟩, ?_⟩
  · rw [List.mem_append, List.mem_singleton, collapsed.holds]
    simp only [Prod.mk.injEq, List.mem_cons, exists_eq_or_imp, Holds]
    constructor
    · rintro (old | ⟨rfl, rfl⟩)
      · exact .inr old
      · exact .inl ⟨rfl, le_refl _, le_refl _⟩
    · rintro (⟨named, lower, upper⟩ | old)
      · exact .inr ⟨named.symm, le_antisymm upper lower⟩
      · exact .inl old
  · intro stretch member
    rcases List.mem_cons.mp member with rfl | old
    · exact le_refl _
    · exact collapsed.proper stretch old
  · intro stretch member held
    rcases List.mem_append.mp held with old | new
    · rcases List.mem_cons.mp member with rfl | former
      · have := above _ old
        dsimp only at this
        omega
      · exact collapsed.maximal stretch former old
    · obtain ⟨named, follows⟩ := Prod.mk.inj (List.mem_singleton.mp new)
      rcases List.mem_cons.mp member with rfl | former
      · dsimp only at follows
        omega
      · exact apart stretch former ⟨named, by omega⟩

/-- Two of the stretches never overlap. -/
theorem Collapsed.apart {points : List (Label × Int)} {newest : List (Stretch Label)}
    (collapsed : Collapsed points newest) {left right : Stretch Label} (inLeft : left ∈ newest)
    (inRight : right ∈ newest) (differ : left ≠ right) :
    left.hi < right.lo ∨ right.hi < left.lo := by
  have symmetric : Std.Symm fun first second : Stretch Label =>
      first.hi < second.lo ∨ second.hi < first.lo := ⟨fun _ _ => Or.symm⟩
  have either : newest.Pairwise fun first second => first.hi < second.lo ∨ second.hi < first.lo :=
    collapsed.ordered.imp Or.inr
  exact either.forall inLeft inRight differ

/-- Every label holds all that lies between two of its points. -/
def Contiguous (points : List (Label × Int)) : Prop :=
  ∀ label first last between, (label, first) ∈ points → (label, last) ∈ points →
    first ≤ between → between ≤ last → (label, between) ∈ points

theorem Collapsed.nodup_iff {points : List (Label × Int)} {newest : List (Stretch Label)}
    (collapsed : Collapsed points newest) :
    (newest.map (·.label)).Nodup ↔ Contiguous points := by
  constructor
  · intro distinct label first last between heldFirst heldLast lower upper
    obtain ⟨left, inLeft, named, begun, _⟩ := (collapsed.holds _ _).mp heldFirst
    obtain ⟨right, inRight, other, _, ended⟩ := (collapsed.holds _ _).mp heldLast
    have one : left = right :=
      List.inj_on_of_nodup_map distinct inLeft inRight (named.trans other.symm)
    subst one
    exact (collapsed.holds _ _).mpr ⟨left, inLeft, named, by omega, by omega⟩
  · intro contiguous
    rw [List.nodup_iff_pairwise_ne, List.pairwise_map]
    refine collapsed.ordered.imp_of_mem ?_
    intro later earlier inLater inEarlier before same
    -- the earlier stretch would not end where it does
    refine collapsed.maximal earlier inEarlier (contiguous earlier.label earlier.hi later.lo
      (earlier.hi + 1) ?_ ?_ (by omega) (by omega))
    · exact (collapsed.holds _ _).mpr
        ⟨earlier, inEarlier, rfl, collapsed.proper earlier inEarlier, le_refl _⟩
    · exact (collapsed.holds _ _).mpr
        ⟨later, inLater, same, le_refl _, collapsed.proper later inLater⟩

variable [DecidableEq Label]

theorem Collapsed.extend {points : List (Label × Int)} {newest : List (Stretch Label)}
    {point : Label × Int} (collapsed : Collapsed points newest)
    (above : ∀ held ∈ points, held.2 < point.2) :
    Collapsed (points ++ [point]) (extend newest point) := by
  cases newest with
  | nil => exact collapsed.opened above (by simp)
  | cons last earlier =>
      unfold Stretch.extend
      dsimp only
      split
      · rename_i continues
        obtain ⟨named, follows⟩ := continues
        have position : point.2 = last.hi + 1 := by omega
        have same : point = (last.label, last.hi + 1) := Prod.ext named.symm position
        rw [same]
        exact collapsed.lengthen (position ▸ above)
      · rename_i breaks
        refine collapsed.opened above ?_
        intro stretch member ⟨named, follows⟩
        rcases List.mem_cons.mp member with rfl | former
        · exact breaks ⟨named, follows⟩
        · -- the newest stretch lies between an earlier one and the point
          have lower := collapsed.le_newest stretch former
          have proper := collapsed.proper last List.mem_cons_self
          have upper := above (last.label, last.hi) ((collapsed.holds _ _).mpr
            ⟨last, List.mem_cons_self, rfl, proper, le_refl _⟩)
          dsimp only at upper
          omega

/-- The stretches of points in increasing order. -/
theorem collapsed_foldl {points : List (Label × Int)} {past : List (Label × Int)}
    {newest : List (Stretch Label)} (collapsed : Collapsed past newest)
    (increasing : points.Pairwise fun left right => left.2 < right.2)
    (above : ∀ held ∈ past, ∀ point ∈ points, held.2 < point.2) :
    Collapsed (past ++ points) (points.foldl Stretch.extend newest) := by
  induction points generalizing past newest with
  | nil => simpa using collapsed
  | cons point rest ih =>
      obtain ⟨first, others⟩ := List.pairwise_cons.mp increasing
      have step := collapsed.extend fun held member => above held member point List.mem_cons_self
      have run := ih step others (by
        intro held member later inRest
        rcases List.mem_append.mp member with old | new
        · exact above held old later (List.mem_cons_of_mem _ inRest)
        · rw [List.mem_singleton.mp new]
          exact first later inRest)
      rwa [List.append_assoc] at run

theorem collapsed_of_increasing {points : List (Label × Int)}
    (increasing : points.Pairwise fun left right => left.2 < right.2) :
    Collapsed points (points.foldl Stretch.extend []) := by
  simpa using collapsed_foldl Collapsed.empty increasing (by simp)

/-! ## Labels that come back -/

theorem reappearing_eq_nil {seen : List Label} {stretches : List (Stretch Label)} :
    reappearing seen stretches = [] ↔
      (stretches.map (·.label)).Nodup ∧ ∀ stretch ∈ stretches, stretch.label ∉ seen := by
  induction stretches generalizing seen with
  | nil => simp [reappearing]
  | cons stretch rest ih =>
      unfold reappearing
      split
      · rename_i known
        simp [known]
      · rename_i fresh
        rw [ih]
        simp only [List.map_cons, List.nodup_cons, List.mem_map, not_exists, not_and,
          List.mem_cons, not_or, forall_eq_or_imp]
        constructor
        · rintro ⟨distinct, unseen⟩
          exact ⟨⟨fun other member same => (unseen other member).1 same, distinct⟩, fresh,
            fun other member => (unseen other member).2⟩
        · rintro ⟨⟨others, distinct⟩, _, unseen⟩
          exact ⟨distinct, fun other member => ⟨others other member, unseen other member⟩⟩

/-- No label comes back exactly when every label holds all between two of its points. -/
theorem reappearing_collapse {points : List (Label × Int)}
    (increasing : points.Pairwise fun left right => left.2 < right.2) :
    reappearing [] (collapse points) = [] ↔ Contiguous points := by
  have collapsed := collapsed_of_increasing increasing
  rw [reappearing_eq_nil, collapse, List.map_reverse, List.nodup_reverse, collapsed.nodup_iff]
  simp

/-- A point lies in exactly one stretch of its label, and a stretch holds nothing else. -/
theorem collapse_holds {points : List (Label × Int)}
    (increasing : points.Pairwise fun left right => left.2 < right.2) (label : Label)
    (position : Int) :
    (label, position) ∈ points ↔
      ∃! stretch, stretch ∈ collapse points ∧ stretch.Holds label position := by
  have collapsed := collapsed_of_increasing increasing
  unfold collapse
  simp only [List.mem_reverse]
  rw [collapsed.holds]
  constructor
  · rintro ⟨stretch, member, named, lower, upper⟩
    refine ⟨stretch, ⟨member, named, lower, upper⟩, ?_⟩
    rintro other ⟨inNewest, _, begun, ended⟩
    by_contra differ
    rcases collapsed.apart inNewest member differ with before | after <;> omega
  · rintro ⟨stretch, ⟨member, holds⟩, _⟩
    exact ⟨stretch, member, holds⟩

end Stretch
