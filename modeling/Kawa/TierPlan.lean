import Kawa.BundlePlan

/-!
The plan splits the whole limit: what is planned is a prefix of the tier order, and nothing of
the limit is lost or invented.
-/

namespace Kawa

/-! ## What is floored -/

/-- Each floored class holds exactly its floor. -/
def floors (purposes : List Purpose) : Budgets := purposes.map fun purpose => (purpose, purpose.floor)

theorem floors_append (front back : List Purpose) :
    floors (front ++ back) = floors front ++ floors back :=
  List.map_append

/-- A prefix of the tier is floored, and not the empty one where the first class fits. -/
theorem floorTier_floors (left : Nat) (purposes : List Purpose) :
    ∃ taken, taken <+: purposes ∧ (floorTier left purposes).1 = floors taken ∧
      ∀ first, purposes.head? = some first → first.floor ≤ left → first ∈ taken := by
  induction purposes generalizing left with
  | nil => exact ⟨[], List.prefix_refl [], rfl, fun _ found => by cases found⟩
  | cons purpose rest ih =>
      unfold floorTier
      split
      · rename_i short
        refine ⟨[], List.nil_prefix, rfl, fun first found fits => ?_⟩
        obtain rfl : purpose = first := Option.some.inj found
        omega
      · obtain ⟨taken, before, same, _⟩ := ih (left - purpose.floor)
        refine ⟨purpose :: taken, (List.prefix_cons_inj purpose).mpr before, ?_, ?_⟩
        · change (purpose, purpose.floor) :: (floorTier (left - purpose.floor) rest).1 = _
          rw [same]
          rfl
        · intro first found _
          obtain rfl : purpose = first := Option.some.inj found
          exact List.mem_cons_self

/-- The floored classes are a prefix of the tiers laid out one after the other. -/
theorem floorTiers_floors (ordered : List Purpose) (tiers : List Nat) (before : List Purpose)
    (remaining : Nat) :
    ∃ taken, taken <+: tiers.flatMap (fun tier => ordered.filter (·.tier = tier)) ∧
      (floorTiers ordered tiers (floors before) remaining).1 = floors (before ++ taken) ∧
      ∀ first, (tiers.flatMap fun tier => ordered.filter (·.tier = tier)).head? = some first →
        first.floor ≤ remaining → first ∈ taken := by
  induction tiers generalizing before remaining with
  | nil =>
      exact ⟨[], List.prefix_refl [], by simp [floorTiers], fun _ found => by cases found⟩
  | cons tier tiers ih =>
      obtain ⟨taken, short, floored, leads⟩ :=
        floorTier_floors remaining (ordered.filter (·.tier = tier))
      unfold floorTiers
      dsimp only
      rw [floored, ← floors_append, List.flatMap_cons]
      split
      · -- the tier is incomplete, which ends the admission
        rename_i incomplete
        refine ⟨taken, short.trans (List.prefix_append _ _), rfl, fun first found fits => ?_⟩
        cases inTier : ordered.filter (·.tier = tier) with
        | nil => simp [inTier] at incomplete
        | cons purpose rest =>
            rw [inTier] at found leads
            exact leads first found fits
      · rename_i complete
        have all : taken = ordered.filter (·.tier = tier) := by
          refine short.eq_of_length_le ?_
          simpa [floors] using complete
        subst all
        obtain ⟨more, later, same, follows⟩ := ih (before ++ ordered.filter (·.tier = tier))
          (floorTier remaining (ordered.filter (·.tier = tier))).2
        refine ⟨ordered.filter (·.tier = tier) ++ more,
          (List.prefix_append_right_inj _).mpr later, ?_, fun first found fits => ?_⟩
        · rw [same, List.append_assoc]
        · cases inTier : ordered.filter (·.tier = tier) with
          | nil =>
              -- the first class is of a later tier, and nothing has been spent
              rw [inTier] at found follows
              exact follows first found fits
          | cons purpose rest =>
              rw [inTier] at found leads
              exact List.mem_append_left more (leads first found fits)

/-- A tier that does not occur contributes nothing. -/
theorem occurring_tiers (ordered : List Purpose) (tiers : List Nat) :
    (tiers.filter fun tier => ordered.any (·.tier = tier)).flatMap
      (fun tier => ordered.filter (·.tier = tier)) =
    tiers.flatMap fun tier => ordered.filter (·.tier = tier) := by
  induction tiers with
  | nil => rfl
  | cons tier tiers ih =>
      rw [List.filter_cons, List.flatMap_cons, ← ih]
      split
      · exact List.flatMap_cons
      · rename_i absent
        have none : ordered.filter (·.tier = tier) = [] := by
          simpa [List.filter_eq_nil_iff] using absent
        rw [none, List.nil_append]

/-- The tiers laid out one after the other are the tier order. -/
theorem tiers_laid_out {ordered : List Purpose}
    (sorted : ordered.Pairwise fun left right => left.tier ≤ right.tier) :
    [1, 2, 3].flatMap (fun tier => ordered.filter (·.tier = tier)) = ordered := by
  induction ordered with
  | nil => rfl
  | cons first rest ih =>
      obtain ⟨least, later⟩ := List.pairwise_cons.mp sorted
      have none : ∀ tier < first.tier, rest.filter (·.tier = tier) = [] := by
        intro tier below
        refine List.filter_eq_nil_iff.mpr fun purpose member same => ?_
        have above := least purpose member
        rw [of_decide_eq_true same] at above
        omega
      have apart := ih later
      simp only [List.flatMap_cons, List.flatMap_nil, List.append_nil, List.filter_cons] at apart ⊢
      have tiered : first.tier = 1 ∨ first.tier = 2 ∨ first.tier = 3 := by
        cases first <;> decide
      rcases tiered with one | two | three
      · simp [one, apart]
      · rw [none 1 (by omega), List.nil_append] at apart
        simp [two, none 1 (by omega), apart]
      · rw [none 1 (by omega), none 2 (by omega), List.nil_append, List.nil_append] at apart
        simp [three, none 1 (by omega), none 2 (by omega), apart]

/-! ## Nothing is lost -/

/-- The classes stay, and no budget shrinks. -/
def Budgets.Grown (before after : Budgets) : Prop :=
  List.Forall₂ (fun old new => old.1 = new.1 ∧ old.2 ≤ new.2) before after

theorem Budgets.Grown.refl (budgets : Budgets) : Budgets.Grown budgets budgets :=
  List.forall₂_same.mpr fun _ _ => ⟨rfl, le_refl _⟩

theorem Budgets.Grown.trans {first second third : Budgets} (left : Budgets.Grown first second)
    (right : Budgets.Grown second third) : Budgets.Grown first third := by
  induction left generalizing third with
  | nil => exact right
  | cons entry _ ih =>
      obtain ⟨next, rest, later, others, rfl⟩ := List.forall₂_cons_left_iff.mp right
      exact List.Forall₂.cons ⟨entry.1.trans later.1, entry.2.trans later.2⟩ (ih others)

theorem Budgets.Grown.keys {before after : Budgets} (grown : Budgets.Grown before after) :
    after.map (·.1) = before.map (·.1) := by
  induction grown with
  | nil => rfl
  | cons entry _ ih => rw [List.map_cons, List.map_cons, entry.1, ih]

theorem Budgets.Grown.of_mem {before after : Budgets} (grown : Budgets.Grown before after)
    {entry : Purpose × Nat} (member : entry ∈ after) :
    ∃ old ∈ before, old.1 = entry.1 ∧ old.2 ≤ entry.2 := by
  induction grown with
  | nil => cases member
  | @cons old _ _ _ first _ ih =>
      rcases List.mem_cons.mp member with rfl | later
      · exact ⟨old, List.mem_cons_self, first⟩
      · obtain ⟨held, inside, more⟩ := ih later
        exact ⟨held, List.mem_cons_of_mem _ inside, more⟩

theorem topUp_grown (wants : Purpose → Option Nat) (budgets : Budgets) (remaining : Nat) :
    Budgets.Grown budgets (topUp wants budgets remaining).1 := by
  induction budgets generalizing remaining with
  | nil => exact List.Forall₂.nil
  | cons entry rest ih =>
      obtain ⟨purpose, budget⟩ := entry
      unfold topUp
      cases wants purpose with
      | none => exact List.Forall₂.cons ⟨rfl, le_refl _⟩ (ih remaining)
      | some want => exact List.Forall₂.cons ⟨rfl, Nat.le_add_right _ _⟩ (ih _)

theorem shareOut_grown (wants : Purpose → Option Nat) (base : Nat) (budgets : Budgets)
    (extra : Nat) : Budgets.Grown budgets (shareOut wants base budgets extra) := by
  induction budgets generalizing extra with
  | nil => exact List.Forall₂.nil
  | cons entry rest ih =>
      obtain ⟨purpose, budget⟩ := entry
      unfold shareOut
      cases wants purpose with
      | some want => exact List.Forall₂.cons ⟨rfl, le_refl _⟩ (ih extra)
      | none => exact List.Forall₂.cons ⟨rfl, Nat.le_add_right _ _⟩ (ih (extra - 1))

/-- The classes that are not capped. -/
def sharing (wants : Purpose → Option Nat) (budgets : Budgets) : Nat :=
  budgets.countP fun entry => (wants entry.1).isNone

/-- A remainder smaller than the number of shares is handed out whole. -/
theorem shareOut_exact (wants : Purpose → Option Nat) (base : Nat) (budgets : Budgets)
    {extra : Nat} (few : extra ≤ sharing wants budgets) :
    (shareOut wants base budgets extra).total =
      budgets.total + (base * sharing wants budgets + extra) := by
  induction budgets generalizing extra with
  | nil =>
      have none : extra = 0 := by simpa [sharing] using few
      simp [shareOut, sharing, Budgets.total, none]
  | cons entry rest ih =>
      obtain ⟨purpose, budget⟩ := entry
      unfold shareOut
      cases wanted : wants purpose with
      | some want =>
          have same : sharing wants ((purpose, budget) :: rest) = sharing wants rest := by
            simp [sharing, wanted]
          have later := ih (same ▸ few)
          simp only [Budgets.total, List.map_cons, List.sum_cons, same] at later ⊢
          omega
      | none =>
          have more : sharing wants ((purpose, budget) :: rest) = sharing wants rest + 1 := by
            simp [sharing, wanted]
          have later := ih (show extra - 1 ≤ sharing wants rest by omega)
          simp only [Budgets.total, List.map_cons, List.sum_cons, more, Nat.mul_add,
            Nat.mul_one] at later ⊢
          split <;> omega

theorem splitRemainder_grown (wants : Purpose → Option Nat) (budgets : Budgets)
    (remaining : Nat) : Budgets.Grown budgets (splitRemainder wants budgets remaining) := by
  unfold splitRemainder
  dsimp only
  split
  · exact Budgets.Grown.refl budgets
  · exact shareOut_grown wants _ budgets _

theorem splitRemainder_exact (wants : Purpose → Option Nat) (budgets : Budgets)
    (remaining : Nat) (some : sharing wants budgets ≠ 0) :
    (splitRemainder wants budgets remaining).total = budgets.total + remaining := by
  change Budgets.total (if sharing wants budgets = 0 then budgets else
    shareOut wants (remaining / sharing wants budgets) budgets
      (remaining % sharing wants budgets)) = _
  rw [if_neg some]
  have shared := shareOut_exact wants (remaining / sharing wants budgets) budgets
    (Nat.mod_lt remaining (Nat.pos_of_ne_zero some)).le
  rwa [Nat.div_add_mod'] at shared

/-- What is planned is a prefix of the tier order, and holds at least its floors. -/
theorem apportion_planned (wants : Purpose → Option Nat) {ordered : List Purpose}
    (sorted : ordered.Pairwise fun left right => left.tier ≤ right.tier) (limit : Nat) :
    ∃ taken, taken <+: ordered ∧ Budgets.Grown (floors taken) (apportion wants ordered limit) ∧
      ∀ first, ordered.head? = some first → first.floor ≤ limit → first ∈ taken := by
  obtain ⟨taken, before, same, leads⟩ := floorTiers_floors ordered
    ([1, 2, 3].filter fun tier => ordered.any (·.tier = tier)) [] limit
  rw [occurring_tiers, tiers_laid_out sorted] at before leads
  refine ⟨taken, before, ?_, leads⟩
  unfold apportion
  dsimp only
  rw [show ([] : Budgets) = floors [] from rfl, same]
  exact (topUp_grown wants _ _).trans (splitRemainder_grown wants _ _)

/-- The whole limit is apportioned where the first class of the tier order is not capped. -/
theorem apportion_exact (wants : Purpose → Option Nat) {ordered : List Purpose}
    (sorted : ordered.Pairwise fun left right => left.tier ≤ right.tier) {first : Purpose}
    (leading : ordered.head? = some first) (uncapped : wants first = none)
    (single : first.floor = 1) (limit : Nat) :
    (apportion wants ordered limit).total = limit := by
  rcases Nat.eq_zero_or_pos limit with rfl | positive
  · exact Nat.le_zero.mp (apportion_total wants ordered 0)
  · obtain ⟨taken, _, same, leads⟩ := floorTiers_floors ordered
      ([1, 2, 3].filter fun tier => ordered.any (·.tier = tier)) [] limit
    rw [occurring_tiers, tiers_laid_out sorted] at leads
    have planned := leads first leading (by omega)
    have spent := floorTiers_total ordered
      ([1, 2, 3].filter fun tier => ordered.any (·.tier = tier)) [] limit
    rw [show ([] : Budgets) = floors [] from rfl] at spent
    unfold apportion
    dsimp only
    rw [show ([] : Budgets) = floors [] from rfl]
    generalize floorTiers ordered ([1, 2, 3].filter fun tier => ordered.any (·.tier = tier))
      (floors []) limit = floored at same spent ⊢
    rw [splitRemainder_exact, topUp_total, spent]
    · exact Nat.zero_add limit
    · -- the first class takes a share
      have held : first ∈ (topUp wants floored.1 floored.2).1.map (·.1) := by
        rw [(topUp_grown wants floored.1 floored.2).keys, same]
        simpa [floors] using planned
      obtain ⟨entry, inside, rfl⟩ := List.mem_map.mp held
      refine Nat.ne_of_gt (List.countP_pos_iff.mpr ⟨entry, inside, ?_⟩)
      simp [uncapped]

/-! ## The plan of an intent -/

theorem tierOrder_sorted (purposes : List (Purpose × Option FtsReason)) :
    ((tierOrder purposes).map (·.1)).Pairwise fun left right => left.tier ≤ right.tier := by
  have total : Std.Total fun left right : Purpose × Option FtsReason =>
      left.1.tier < right.1.tier ∨ left.1.tier = right.1.tier ∧ left.1.within ≤ right.1.within :=
    ⟨fun left right => by omega⟩
  have transitive : IsTrans (Purpose × Option FtsReason) fun left right =>
      left.1.tier < right.1.tier ∨ left.1.tier = right.1.tier ∧ left.1.within ≤ right.1.within :=
    ⟨fun first second third => by omega⟩
  refine List.pairwise_map.mpr ((List.pairwise_insertionSort _ purposes).imp fun ordered => ?_)
  omega

/-- The anchor comes before every other class. -/
theorem tierOrder_anchor (reason : Option FtsReason) (rest : List (Purpose × Option FtsReason)) :
    ((tierOrder ((.anchorLookup, reason) :: rest)).map (·.1)).head? = some .anchorLookup := by
  have least : ∀ purpose : Purpose, Purpose.anchorLookup.tier < purpose.tier ∨
      Purpose.anchorLookup.tier = purpose.tier ∧
        Purpose.anchorLookup.within ≤ purpose.within := by
    intro purpose
    cases purpose <;> decide
  rw [tierOrder, List.insertionSort_cons_of_forall_rel _ fun other _ => least other.1]
  rfl

/-- The tier order leads with the anchor, or with the text. -/
theorem tierOrder_leads {bound : BoundIntent} (plannable : purposesOf bound ≠ []) :
    ∃ first, ((tierOrder (purposesOf bound)).map (·.1)).head? = some first ∧
      wantsOf bound first = none ∧ first.floor = 1 := by
  obtain ⟨intent, anchor, unboundText⟩ := bound
  cases anchor with
  | some anchored =>
      obtain ⟨kind, ref⟩ := anchored
      obtain ⟨rest, dispatch⟩ : ∃ rest, kind.dispatch = .anchorLookup :: rest := by
        cases kind <;> exact ⟨_, rfl⟩
      refine ⟨.anchorLookup, ?_, rfl, rfl⟩
      simp only [purposesOf, Option.elim, dispatch, List.map_cons, List.cons_append]
      exact tierOrder_anchor none _
  | none =>
      unfold purposesOf at plannable ⊢
      cases text : unboundText.any (· ≠ "") with
      | false =>
          simp only [text] at plannable
          exact absurd rfl plannable
      | true => exact ⟨.lexical, rfl, rfl, rfl⟩

/-- Distinct purposes that cover the budgets are given all that the budgets hold. -/
theorem granted_eq {purposes : List Purpose} (distinct : purposes.Nodup) {budgets : Budgets}
    (keys : Dict.Distinct budgets) (covered : ∀ entry ∈ budgets, entry.1 ∈ purposes) :
    (purposes.filterMap (Dict.get? budgets)).sum = budgets.total := by
  induction budgets generalizing purposes with
  | nil =>
      have none : purposes.filterMap (Dict.get? ([] : Budgets)) = [] := by
        simp [List.filterMap_eq_nil_iff]
      rw [none]
      rfl
  | cons entry rest ih =>
      obtain ⟨first, budget⟩ := entry
      obtain ⟨fresh, later⟩ := List.nodup_cons.mp keys
      have held : first ∈ purposes := covered (first, budget) List.mem_cons_self
      have taken := (List.perm_cons_erase held).filterMap (Dict.get? ((first, budget) :: rest))
      have others : (purposes.erase first).filterMap (Dict.get? ((first, budget) :: rest)) =
          (purposes.erase first).filterMap (Dict.get? rest) := by
        refine List.filterMap_congr fun purpose member => ?_
        rw [Dict.get?_cons, if_neg]
        rintro rfl
        exact distinct.not_mem_erase member
      have whole : Budgets.total ((first, budget) :: rest) = budget + Budgets.total rest := by
        simp [Budgets.total]
      rw [taken.sum_eq, List.filterMap_cons, Dict.get?_cons, if_pos rfl, List.sum_cons, others,
        whole, ih (distinct.erase first) later]
      intro entry member
      refine (List.mem_erase_of_ne ?_).mpr (covered entry (List.mem_cons_of_mem _ member))
      rintro same
      exact fresh (List.mem_map.mpr ⟨entry, member, same⟩)

/-- The tier order of an intent's classes. -/
def tiersOf (bound : BoundIntent) : List Purpose := (tierOrder (purposesOf bound)).map (·.1)

def budgetsOf (bound : BoundIntent) : Budgets :=
  apportion (wantsOf bound) (tiersOf bound) bound.intent.limit.toNat

theorem filterMap_held {α β : Type} (f : α → Option β) (list : List α) :
    list.filterMap (fun a => (f a).map fun _ => a) = list.filter fun a => (f a).isSome := by
  induction list with
  | nil => rfl
  | cons first rest ih =>
      rw [List.filterMap_cons, List.filter_cons, ih]
      cases f first <;> rfl

/-- A class is planned exactly where it holds a budget, and skipped exactly where it does not. -/
theorem compilePlan_classes {bound : BoundIntent} {plan : RetrievalPlan}
    (plannable : purposesOf bound ≠ []) (compiled : compilePlan bound = .ok plan) :
    plan.queryClasses.map (·.purpose) =
        (tiersOf bound).filter (fun purpose => (Dict.get? (budgetsOf bound) purpose).isSome) ∧
      plan.queryClasses.map (·.budget) = (tiersOf bound).filterMap (Dict.get? (budgetsOf bound)) ∧
      plan.skippedAtCompile.map (·.purpose) =
        (tiersOf bound).filter (fun purpose => (Dict.get? (budgetsOf bound) purpose).isNone) ∧
      (∀ queryClass ∈ plan.queryClasses,
        (queryClass.purpose, queryClass.budget) ∈ budgetsOf bound) ∧
      ∀ skipped ∈ plan.skippedAtCompile, skipped.reason = .tierBudgetExhausted := by
  unfold compilePlan at compiled
  dsimp only at compiled
  rw [if_neg plannable] at compiled
  split at compiled
  · cases compiled
  · cases compiled
    dsimp only
    unfold budgetsOf tiersOf
    -- nothing below depends on how the budgets were apportioned
    generalize apportion (wantsOf bound) ((tierOrder (purposesOf bound)).map (·.1))
      bound.intent.limit.toNat = budgets
    refine ⟨?_, ?_, ?_, ?_, ?_⟩
    · rw [List.map_filterMap, ← filterMap_held, List.filterMap_map]
      refine List.filterMap_congr fun entry _ => ?_
      exact Option.map_map _ _ _
    · rw [List.map_filterMap, List.filterMap_map]
      refine List.filterMap_congr fun entry _ => ?_
      rw [Option.map_map]
      exact Option.map_id'
    · rw [List.map_map, List.filter_map]
      rfl
    · intro queryClass member
      obtain ⟨⟨purpose, reason⟩, _, made⟩ := List.mem_filterMap.mp member
      obtain ⟨budget, held, rfl⟩ := Option.map_eq_some_iff.mp made
      exact Dict.mem_of_get? held
    · intro skipped member
      obtain ⟨entry, _, rfl⟩ := List.mem_map.mp member
      rfl

/-- The plan splits the limit by tiers. -/
structure TieredPlan (bound : BoundIntent) (plan : RetrievalPlan) : Prop where
  budgeted : ∀ queryClass ∈ plan.queryClasses, 1 ≤ queryClass.budget
  whole : (((plan.queryClasses.map (·.budget)).sum : Nat) : Int) = max 0 bound.intent.limit
  /-- no class of a later tier while one of an earlier tier is unplanned -/
  hard : ∀ planned ∈ plan.queryClasses, ∀ purpose ∈ (purposesOf bound).map (·.1),
    purpose.tier < planned.purpose.tier → purpose ∈ plan.queryClasses.map (·.purpose)
  balanced : ∀ queryClass ∈ plan.queryClasses, queryClass.purpose = .evidence →
    2 ≤ queryClass.budget
  /-- every purpose is planned or skipped, and none is both -/
  accounted : (plan.queryClasses.map (·.purpose) ++ plan.skippedAtCompile.map (·.purpose)).Perm
    ((purposesOf bound).map (·.1))
  apart : ∀ purpose ∈ plan.queryClasses.map (·.purpose),
    purpose ∉ plan.skippedAtCompile.map (·.purpose)
  exhausted : ∀ skipped ∈ plan.skippedAtCompile, skipped.reason = .tierBudgetExhausted


theorem tiersOf_perm (bound : BoundIntent) :
    (tiersOf bound).Perm ((purposesOf bound).map (·.1)) :=
  (List.perm_insertionSort _ _).map Prod.fst

theorem compilePlan_tiered (bound : BoundIntent) (plannable : purposesOf bound ≠ []) :
    ∃ plan, compilePlan bound = .ok plan ∧ TieredPlan bound plan := by
  obtain ⟨plan, compiled⟩ := compilePlan_succeeds bound
  obtain ⟨planned, budgets, skipped, held, reasons⟩ := compilePlan_classes plannable compiled
  have distinct : (tiersOf bound).Nodup :=
    (tiersOf_perm bound).nodup_iff.mpr (purposesOf_distinct bound)
  have sorted := tierOrder_sorted (purposesOf bound)
  obtain ⟨taken, before, grown, _⟩ :=
    apportion_planned (wantsOf bound) sorted bound.intent.limit.toNat
  have keys : (budgetsOf bound).map (·.1) = taken := by
    rw [budgetsOf, tiersOf, grown.keys, floors, List.map_map]
    exact List.map_id taken
  have budgetKeys : Dict.Distinct (budgetsOf bound) := by
    rw [Dict.Distinct, keys]
    exact distinct.sublist before.sublist
  have covered : ∀ entry ∈ budgetsOf bound, entry.1 ∈ tiersOf bound := fun entry member =>
    before.subset (keys ▸ List.mem_map_of_mem member)
  -- a purpose is planned exactly where the floors reached it
  have mem_planned : ∀ purpose, purpose ∈ plan.queryClasses.map (·.purpose) ↔ purpose ∈ taken := by
    intro purpose
    rw [planned, List.mem_filter, Option.isSome_iff_exists]
    constructor
    · rintro ⟨_, budget, found⟩
      exact keys ▸ List.mem_map_of_mem (Dict.mem_of_get? found)
    · intro member
      obtain ⟨entry, inside, rfl⟩ := List.mem_map.mp (keys ▸ member)
      exact ⟨before.subset member, entry.2, Dict.get?_of_mem budgetKeys inside⟩
  refine ⟨plan, compiled, ?_⟩
  constructor
  case budgeted => exact compilePlan_budgeted compiled
  case whole =>
    obtain ⟨first, leading, uncapped, single⟩ := tierOrder_leads plannable
    rw [budgets, granted_eq distinct budgetKeys covered, budgetsOf, tiersOf,
      apportion_exact (wantsOf bound) sorted leading uncapped single]
    omega
  case hard =>
    intro queryClass member purpose wanted lower
    rw [mem_planned]
    have reached := (mem_planned queryClass.purpose).mp (List.mem_map_of_mem member)
    have listed := (tiersOf_perm bound).mem_iff.mpr wanted
    -- what stands outside the prefix comes after all of it
    obtain ⟨rest, whole⟩ := before
    rw [tiersOf] at listed
    rw [← whole] at listed sorted
    rcases List.mem_append.mp listed with inside | outside
    · exact inside
    · have above := (List.pairwise_append.mp sorted).2.2 _ reached _ outside
      omega
  case balanced =>
    rintro queryClass member evidence
    obtain ⟨old, floored, same, less⟩ := grown.of_mem (held queryClass member)
    obtain ⟨purpose, _, rfl⟩ := List.mem_map.mp floored
    rw [show purpose = Purpose.evidence from same.trans evidence] at less
    exact less
  case accounted =>
    rw [planned, skipped]
    refine List.Perm.trans ?_ (tiersOf_perm bound)
    have split := List.filter_append_perm
      (fun purpose => (Dict.get? (budgetsOf bound) purpose).isSome) (tiersOf bound)
    simpa using split
  case apart =>
    rw [planned, skipped]
    intro purpose member absent
    have held := (List.mem_filter.mp member).2
    have missing := (List.mem_filter.mp absent).2
    rw [Option.isSome_iff_ne_none] at held
    exact held (Option.isNone_iff_eq_none.mp missing)
  case exhausted => exact reasons

/-- Four rows about a claim: the evidence is left out, and what it leaves goes to the others. -/
def smallCeiling : BoundIntent where
  intent := { about := some "sha256:claim", textTerms := none, relationDepth := 1, limit := 4
              fallbackPolicy := none }
  anchor := some (.claimEvent, "sha256:claim")
  unboundText := none

theorem compilePlan_tiered_small :
    ∃ plan, compilePlan smallCeiling = .ok plan ∧ TieredPlan smallCeiling plan :=
  compilePlan_tiered smallCeiling (by decide)

end Kawa
