import Mathlib

/-!
Items with a level, nested by it: an item lasts until the next one of its level or a lower one,
and a stack holds the items that have not ended.  The stack is exactly the items that an item lies
within, and two items lie one in the other or apart.
-/

structure Nested (α : Type) where
  item : α
  ancestors : List α
  ends : Nat

namespace Nesting

variable {α : Type} (level place : α → Nat)

/-- Where the first later item stands that is not below this one. -/
def endOf (total : Nat) (item : α) (later : List α) : Nat :=
  ((later.find? fun other => level other ≤ level item).map place).getD total

/-- The stack has the innermost item first. -/
def nest (total : Nat) : List α → List α → List (Nested α)
  | _, [] => []
  | stack, item :: later =>
      let ancestors := stack.dropWhile fun other => level item ≤ level other
      { item := item, ancestors := ancestors, ends := endOf level place total item later } ::
        nest total (item :: ancestors) later

/-- The items that have not ended after these, newest first. -/
def opened : List α → List α
  | [] => []
  | item :: older => item :: (opened older).filter fun other => level other < level item

variable {level place}

theorem opened_sublist (newest : List α) : (opened level newest).Sublist newest := by
  induction newest with
  | nil => exact List.Sublist.refl _
  | cons item older ih => exact (List.filter_sublist.trans ih).cons_cons item

theorem opened_levels (newest : List α) :
    (opened level newest).Pairwise fun inner outer => level outer < level inner := by
  induction newest with
  | nil => exact .nil
  | cons item older ih =>
      refine List.pairwise_cons.mpr ⟨fun other member => ?_, ih.sublist List.filter_sublist⟩
      simpa using (List.mem_filter.mp member).2

/-- On a stack whose levels fall, popping is filtering. -/
theorem dropWhile_levels {stack : List α}
    (falls : stack.Pairwise fun inner outer => level outer < level inner) (bound : Nat) :
    stack.dropWhile (fun other => bound ≤ level other) =
      stack.filter fun other => level other < bound := by
  induction stack with
  | nil => rfl
  | cons top rest ih =>
      obtain ⟨above, others⟩ := List.pairwise_cons.mp falls
      by_cases popped : bound ≤ level top
      · rw [List.dropWhile_cons_of_pos (by simpa using popped),
          List.filter_cons_of_neg (by simpa using popped), ih others]
      · have all : ∀ other ∈ top :: rest, level other < bound := by
          intro other member
          rcases List.mem_cons.mp member with rfl | later
          · omega
          · have := above other later
            omega
        rw [List.dropWhile_cons_of_neg (by simpa using popped)]
        exact (List.filter_eq_self.mpr fun other member => by simpa using all other member).symm

/-- What one entry of a nesting says. -/
theorem mem_nest {total : Nat} {past items : List α} {nested : Nested α}
    (member : nested ∈ nest level place total (opened level past) items) :
    ∃ before after, items = before ++ nested.item :: after ∧
      nested.ancestors = (opened level (before.reverse ++ past)).filter
        (fun other => level other < level nested.item) ∧
      nested.ends = endOf level place total nested.item after := by
  induction items generalizing past with
  | nil => cases member
  | cons item later ih =>
      unfold nest at member
      rw [dropWhile_levels (opened_levels past)] at member
      rcases List.mem_cons.mp member with rfl | rest
      · exact ⟨[], later, rfl, rfl, rfl⟩
      · obtain ⟨before, after, split, ancestors, ends⟩ := @ih (item :: past) rest
        refine ⟨item :: before, after, by rw [split]; rfl, ?_, ends⟩
        rw [ancestors, List.reverse_cons, List.append_assoc]
        rfl

theorem nest_items (total : Nat) (stack items : List α) :
    (nest level place total stack items).map (·.item) = items := by
  induction items generalizing stack with
  | nil => rfl
  | cons item later ih =>
      unfold nest
      rw [List.map_cons, ih]

/-! ## Items in increasing places -/

theorem mem_opened {newest : List α}
    (falls : newest.Pairwise fun newer older => place older < place newer) {item : α} :
    item ∈ opened level newest ↔
      item ∈ newest ∧ ∀ other ∈ newest, place item < place other → level item < level other := by
  induction newest with
  | nil => simp [opened]
  | cons top older ih =>
      obtain ⟨below, others⟩ := List.pairwise_cons.mp falls
      unfold opened
      simp only [List.mem_cons, List.mem_filter, ih others, decide_eq_true_eq, forall_eq_or_imp]
      constructor
      · rintro (rfl | ⟨⟨member, open_⟩, lower⟩)
        · refine ⟨.inl rfl, fun later => absurd later (lt_irrefl _), fun other member later => ?_⟩
          have := below other member
          omega
        · exact ⟨.inr member, fun _ => lower, open_⟩
      · rintro ⟨rfl | member, under, open_⟩
        · exact .inl rfl
        · exact .inr ⟨⟨member, open_⟩, under (below item member)⟩

/-- A place before the end of an item is one that no item ending it has reached. -/
theorem lt_endOf {total : Nat} {item : α} {later : List α}
    (rises : later.Pairwise fun left right => place left < place right)
    (inside : ∀ other ∈ later, place other < total) {position : Nat} :
    position < endOf level place total item later ↔ position < total ∧
      ∀ other ∈ later, level other ≤ level item → position < place other := by
  induction later with
  | nil => simp [endOf]
  | cons first rest ih =>
      obtain ⟨above, others⟩ := List.pairwise_cons.mp rises
      have known := ih others fun other member => inside other (List.mem_cons_of_mem _ member)
      unfold endOf at known ⊢
      by_cases stops : level first ≤ level item
      · rw [List.find?_cons_of_pos (by simpa using stops)]
        have last := inside first List.mem_cons_self
        simp only [Option.map_some, Option.getD_some, List.mem_cons, forall_eq_or_imp]
        constructor
        · intro before
          exact ⟨by omega, fun _ => before, fun other member _ => by
            have := above other member
            omega⟩
        · rintro ⟨_, own, _⟩
          exact own stops
      · rw [List.find?_cons_of_neg (by simpa using stops), known]
        simp only [List.mem_cons, forall_eq_or_imp]
        constructor
        · rintro ⟨whole, rest⟩
          exact ⟨whole, fun low => absurd low stops, rest⟩
        · rintro ⟨whole, _, rest⟩
          exact ⟨whole, rest⟩

theorem endOf_cases (total : Nat) (item : α) (later : List α) :
    endOf level place total item later = total ∨ ∃ other ∈ later, level other ≤ level item ∧
      endOf level place total item later = place other := by
  unfold endOf
  cases found : later.find? fun other => level other ≤ level item with
  | none => exact .inl rfl
  | some other =>
      exact .inr ⟨other, List.mem_of_find?_eq_some found, by simpa using List.find?_some found, rfl⟩

/-! ## The nesting of a list -/

section Whole

variable {total : Nat} {items : List α}

/-- An entry by the places of its list. -/
structure Placed (level place : α → Nat) (total : Nat) (items : List α) (nested : Nested α) :
    Prop where
  member : nested.item ∈ items
  ancestor : ∀ item, item ∈ nested.ancestors ↔ item ∈ items ∧ place item < place nested.item ∧
    ∀ other ∈ items, place item < place other → place other ≤ place nested.item →
      level item < level other
  before_end : ∀ position, position < nested.ends ↔ position < total ∧
    ∀ other ∈ items, place nested.item < place other → level other ≤ level nested.item →
      position < place other
  ends : nested.ends = total ∨ ∃ other ∈ items, place nested.item < place other ∧
    level other ≤ level nested.item ∧ nested.ends = place other
  ordered : nested.ancestors.Pairwise fun inner outer =>
    place outer < place inner ∧ level outer < level inner

theorem placed_of_mem (rises : items.Pairwise fun left right => place left < place right)
    (inside : ∀ item ∈ items, place item < total) {nested : Nested α}
    (listed : nested ∈ nest level place total [] items) :
    Placed level place total items nested := by
  obtain ⟨before, after, rfl, ancestors, ends⟩ :=
    @mem_nest _ level place total [] items nested listed
  rw [List.append_nil] at ancestors
  obtain ⟨risesBefore, risesAfter, apart⟩ := List.pairwise_append.mp rises
  obtain ⟨above, risesRest⟩ := List.pairwise_cons.mp risesAfter
  have falls : before.reverse.Pairwise fun newer older => place older < place newer :=
    List.pairwise_reverse.mpr risesBefore
  have inBefore : ∀ other, other ∈ before ↔ other ∈ before ++ nested.item :: after ∧
      place other < place nested.item := by
    intro other
    refine ⟨fun member => ⟨List.mem_append_left _ member,
      apart other member _ List.mem_cons_self⟩, ?_⟩
    rintro ⟨member, lower⟩
    rcases List.mem_append.mp member with own | rest
    · exact own
    · rcases List.mem_cons.mp rest with rfl | later
      · omega
      · have := above other later
        omega
  have inAfter : ∀ other, other ∈ after ↔ other ∈ before ++ nested.item :: after ∧
      place nested.item < place other := by
    intro other
    refine ⟨fun member => ⟨List.mem_append_right _ (List.mem_cons_of_mem _ member),
      above other member⟩, ?_⟩
    rintro ⟨member, higher⟩
    rcases List.mem_append.mp member with own | rest
    · have := apart other own _ List.mem_cons_self
      omega
    · rcases List.mem_cons.mp rest with rfl | later
      · omega
      · exact later
  have insideAfter : ∀ other ∈ after, place other < total := fun other member =>
    inside other ((inAfter other).mp member).1
  refine ⟨List.mem_append_right _ List.mem_cons_self, fun item => ?_, fun position => ?_, ?_, ?_⟩
  · rw [ancestors, List.mem_filter, mem_opened falls, List.mem_reverse, decide_eq_true_eq, inBefore]
    constructor
    · rintro ⟨⟨⟨member, lower⟩, open_⟩, under⟩
      refine ⟨member, lower, fun other held later upTo => ?_⟩
      rcases List.mem_append.mp held with own | rest
      · exact open_ other (List.mem_reverse.mpr own) later
      · rcases List.mem_cons.mp rest with rfl | beyond
        · exact under
        · have := above other beyond
          omega
    · rintro ⟨member, lower, open_⟩
      refine ⟨⟨⟨member, lower⟩, fun other held later => ?_⟩,
        open_ _ (List.mem_append_right _ List.mem_cons_self) lower le_rfl⟩
      have own := (inBefore other).mp (List.mem_reverse.mp held)
      exact open_ other own.1 later own.2.le
  · rw [ends, lt_endOf risesRest insideAfter]
    refine and_congr_right fun _ => ⟨fun all other held later => ?_, fun all other member => ?_⟩
    · exact all other ((inAfter other).mpr ⟨held, later⟩)
    · exact all other ((inAfter other).mp member).1 ((inAfter other).mp member).2
  · rw [ends]
    refine (endOf_cases total nested.item after).imp id ?_
    rintro ⟨other, member, low, same⟩
    exact ⟨other, ((inAfter other).mp member).1, ((inAfter other).mp member).2, low, same⟩
  · rw [ancestors]
    have places : (opened level before.reverse).Pairwise fun inner outer =>
        place outer < place inner := falls.sublist (opened_sublist _)
    exact (places.and (opened_levels _)).sublist List.filter_sublist

theorem Placed.within {inner outer : Nested α} (innerPlaced : Placed level place total items inner)
    (outerPlaced : Placed level place total items outer)
    (inside : ∀ item ∈ items, place item < total) :
    outer.item ∈ inner.ancestors ↔
      place outer.item < place inner.item ∧ place inner.item < outer.ends := by
  rw [innerPlaced.ancestor, outerPlaced.before_end]
  constructor
  · rintro ⟨_, lower, open_⟩
    refine ⟨lower, inside _ innerPlaced.member, fun other held later low => ?_⟩
    by_contra reached
    have := open_ other held later (by omega)
    omega
  · rintro ⟨lower, _, open_⟩
    refine ⟨outerPlaced.member, lower, fun other held later upTo => ?_⟩
    by_contra low
    have := open_ other held later (by omega)
    omega

/-- An item that begins inside another ends inside it. -/
theorem Placed.ends_le {inner outer : Nested α} (innerPlaced : Placed level place total items inner)
    (outerPlaced : Placed level place total items outer)
    (begins : place outer.item < place inner.item) (inside : place inner.item < outer.ends) :
    inner.ends ≤ outer.ends := by
  by_contra beyond
  obtain ⟨whole, all⟩ := (innerPlaced.before_end outer.ends).mp (by omega)
  rcases outerPlaced.ends with last | ⟨stop, held, later, low, same⟩
  · omega
  · have under : level outer.item < level inner.item := by
      by_contra higher
      have := ((outerPlaced.before_end _).mp inside).2 inner.item innerPlaced.member begins
        (by omega)
      omega
    have := all stop held (by omega) (by omega)
    omega

end Whole

end Nesting
