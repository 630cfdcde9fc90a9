import Kawa.Retrieval

/-!
The plan of a retrieval: the query classes of an intent, and how its limit is split among
them.
-/

namespace Kawa

/-! ## Query classes -/

inductive Purpose
  | anchorLookup | standing | repositoryNormative | evidence | neighborhood | precedent | lexical
  | vector
deriving DecidableEq, Repr

namespace Purpose

def value : Purpose → String
  | anchorLookup => "anchor_lookup"
  | standing => "standing"
  | repositoryNormative => "repository_normative"
  | evidence => "evidence"
  | neighborhood => "neighborhood"
  | precedent => "precedent"
  | lexical => "lexical"
  | vector => "vector"

/-- `_BACKEND` -/
def backend : Purpose → String
  | anchorLookup | standing | evidence | precedent => "typed_sql"
  | neighborhood => "traversal"
  | lexical => "fts"
  | vector => "vector"
  | repositoryNormative => "repository"

/-- `_TIER` -/
def tier : Purpose → Nat
  | anchorLookup | standing | repositoryNormative => 1
  | evidence => 2
  | neighborhood | precedent | vector | lexical => 3

/-- `_WITHIN_TIER.index` -/
def within : Purpose → Nat
  | anchorLookup => 0
  | standing => 1
  | repositoryNormative => 2
  | evidence => 3
  | neighborhood => 4
  | precedent => 5
  | lexical => 6
  | vector => 7

/-- `_FLOOR`: balanced evidence needs two rows. -/
def floor : Purpose → Nat
  | evidence => 2
  | _ => 1

end Purpose

inductive AnchorKind
  | claimEvent | event | plan | work
deriving DecidableEq, Repr

/-- `_DISPATCH` -/
def AnchorKind.dispatch : AnchorKind → List Purpose
  | claimEvent => [.anchorLookup, .standing, .evidence, .neighborhood]
  | event | plan | work => [.anchorLookup, .neighborhood]

/-- `_SIDEBAND[_PROFILE_OF[kind]]`: the normative and the precedent rows. -/
def AnchorKind.sideband : AnchorKind → Nat × Nat
  | claimEvent => (6, 3)
  | event | plan | work => (4, 2)

structure Intent where
  about : Option String
  textTerms : Option String
  relationDepth : Int
  limit : Int
  fallbackPolicy : Option Int

structure BoundIntent where
  intent : Intent
  anchor : Option (AnchorKind × String)
  unboundText : Option String

inductive FtsReason
  | textual | structuredUnderflow
deriving DecidableEq, Repr

def FtsReason.value : FtsReason → String
  | textual => "textual"
  | structuredUnderflow => "structured_underflow"

structure QueryClass where
  classId : String
  purpose : Purpose
  budget : Nat
  ftsReason : Option FtsReason

def QueryClass.backend (queryClass : QueryClass) : String := queryClass.purpose.backend

inductive SkipReason
  | tierBudgetExhausted | structuredUnderflowMet | noModel
deriving DecidableEq, Repr

structure SkippedClass where
  classId : String
  purpose : Purpose
  reason : SkipReason
  detail : String

structure RetrievalPlan where
  bound : BoundIntent
  queryClasses : List QueryClass
  resultLimit : Int
  skippedAtCompile : List SkippedClass

/-! ## The split of the limit -/

/-- The classes of an intent, before they are ordered. -/
def purposesOf (bound : BoundIntent) : List (Purpose × Option FtsReason) :=
  let structural := (bound.anchor.elim [] fun (kind, _) => kind.dispatch).map fun purpose =>
    (purpose, (none : Option FtsReason))
  -- an empty text is no text
  let lexical := if bound.unboundText.any (· ≠ "") then
      [(Purpose.lexical, some (if bound.intent.fallbackPolicy.isNone then FtsReason.textual
        else .structuredUnderflow))]
    else []
  let reach := if structural ++ lexical = [] then [] else [(Purpose.vector, none)]
  let side := if bound.anchor.isSome then [(Purpose.repositoryNormative, none),
      (Purpose.precedent, none)]
    else []
  structural ++ lexical ++ reach ++ side

/-- Tier order, which is the order of execution. -/
def tierOrder (purposes : List (Purpose × Option FtsReason)) : List (Purpose × Option FtsReason) :=
  purposes.insertionSort fun left right =>
    left.1.tier < right.1.tier ∨ left.1.tier = right.1.tier ∧ left.1.within ≤ right.1.within

abbrev Budgets := List (Purpose × Nat)

def Budgets.total (budgets : Budgets) : Nat := (budgets.map (·.2)).sum

/-- The floors of one tier, for as far as the ceiling reaches, and what is left. -/
def floorTier (left : Nat) : List Purpose → Budgets × Nat
  | [] => ([], left)
  | purpose :: rest =>
      if left < purpose.floor then ([], left)
      else
        let floored := floorTier (left - purpose.floor) rest
        ((purpose, purpose.floor) :: floored.1, floored.2)

/-- A tier that cannot be floored ends the admission.  The purposes of a plan are distinct, so
`budgets.update` appends. -/
def floorTiers (ordered : List Purpose) : List Nat → Budgets → Nat → Budgets × Nat
  | [], budgets, remaining => (budgets, remaining)
  | tier :: tiers, budgets, remaining =>
      let inTier := ordered.filter (·.tier = tier)
      let floored := floorTier remaining inTier
      if floored.1.length < inTier.length then (budgets ++ floored.1, floored.2)
      else floorTiers ordered tiers (budgets ++ floored.1) floored.2

/-- The sideband classes are topped up to what they want. -/
def topUp (wants : Purpose → Option Nat) : Budgets → Nat → Budgets × Nat
  | [], remaining => ([], remaining)
  | (purpose, budget) :: rest, remaining =>
      match wants purpose with
      | none =>
          let topped := topUp wants rest remaining
          ((purpose, budget) :: topped.1, topped.2)
      | some want =>
          let added := min (want - budget) remaining
          let topped := topUp wants rest (remaining - added)
          ((purpose, budget + added) :: topped.1, topped.2)

/-- The other classes split the rest evenly, the first ones taking the remainder. -/
def shareOut (wants : Purpose → Option Nat) (base : Nat) : Budgets → Nat → Budgets
  | [], _ => []
  | (purpose, budget) :: rest, extra =>
      match wants purpose with
      | some _ => (purpose, budget) :: shareOut wants base rest extra
      | none =>
          (purpose, budget + (base + if 0 < extra then 1 else 0)) ::
            shareOut wants base rest (extra - 1)

def splitRemainder (wants : Purpose → Option Nat) (budgets : Budgets) (remaining : Nat) : Budgets :=
  let shares := budgets.countP fun (purpose, _) => (wants purpose).isNone
  if shares = 0 then budgets
  else shareOut wants (remaining / shares) budgets (remaining % shares)

/-- `wants`: the sideband classes and their rows. -/
def wantsOf (bound : BoundIntent) : Purpose → Option Nat
  | .repositoryNormative => some (bound.anchor.elim 0 fun (kind, _) => kind.sideband.1)
  | .precedent => some (bound.anchor.elim 0 fun (kind, _) => kind.sideband.2)
  | _ => none

def apportion (wants : Purpose → Option Nat) (ordered : List Purpose) (limit : Nat) : Budgets :=
  -- the tiers that occur, in order
  let tiers := [1, 2, 3].filter fun tier => ordered.any (·.tier = tier)
  let floored := floorTiers ordered tiers [] limit
  let topped := topUp wants floored.1 floored.2
  splitRemainder wants topped.1 topped.2

/-- The position in the tier-ordered dispatch, and the purpose. -/
def classIdOf (ordered : List (Purpose × Option FtsReason)) (purpose : Purpose) : String :=
  "q" ++ toString ((ordered.map (·.1)).idxOf purpose) ++ "-" ++ purpose.value

inductive PlanError
  | apportionmentExceeded (total limit : Nat)

/-- `compile_plan` -/
def compilePlan (bound : BoundIntent) : Except PlanError RetrievalPlan :=
  let purposes := purposesOf bound
  if purposes = [] then
    .ok { bound := bound, queryClasses := [], resultLimit := bound.intent.limit
          skippedAtCompile := [] }
  else
    let limit := bound.intent.limit.toNat
    let ordered := tierOrder purposes
    let budgets := apportion (wantsOf bound) (ordered.map (·.1)) limit
    let skipped := (ordered.filter fun (purpose, _) => (Dict.get? budgets purpose).isNone).map
      fun (purpose, _) =>
        { classId := classIdOf ordered purpose
          purpose := purpose
          reason := SkipReason.tierBudgetExhausted
          detail := "limit " ++ toString limit ++ " was exhausted before tier " ++
            toString purpose.tier }
    let classes := ordered.filterMap fun (purpose, reason) =>
      (Dict.get? budgets purpose).map fun budget =>
        { classId := classIdOf ordered purpose
          purpose := purpose
          budget := budget
          ftsReason := reason }
    let total := (classes.map (·.budget)).sum
    if total > limit then .error (.apportionmentExceeded total limit)
    else
      .ok { bound := bound, queryClasses := classes, resultLimit := limit
            skippedAtCompile := skipped }

/-! ## The plan keeps within the limit -/

theorem total_append (front back : Budgets) :
    Budgets.total (front ++ back) = front.total + back.total := by
  simp [Budgets.total]

theorem floorTier_total (left : Nat) (purposes : List Purpose) :
    (floorTier left purposes).1.total + (floorTier left purposes).2 = left := by
  induction purposes generalizing left with
  | nil => simp [floorTier, Budgets.total]
  | cons purpose rest ih =>
      unfold floorTier
      split
      · simp [Budgets.total]
      · rename_i reached
        have later := ih (left - purpose.floor)
        simp only [Budgets.total, List.map_cons, List.sum_cons] at later ⊢
        omega

theorem floorTiers_total (ordered : List Purpose) (tiers : List Nat) (budgets : Budgets)
    (remaining : Nat) :
    (floorTiers ordered tiers budgets remaining).1.total +
      (floorTiers ordered tiers budgets remaining).2 = budgets.total + remaining := by
  induction tiers generalizing budgets remaining with
  | nil => rfl
  | cons tier tiers ih =>
      have floored := floorTier_total remaining (ordered.filter (·.tier = tier))
      unfold floorTiers
      dsimp only
      split
      · rw [total_append]
        omega
      · rw [ih, total_append]
        omega

theorem topUp_total (wants : Purpose → Option Nat) (budgets : Budgets) (remaining : Nat) :
    (topUp wants budgets remaining).1.total + (topUp wants budgets remaining).2 =
      budgets.total + remaining := by
  induction budgets generalizing remaining with
  | nil => rfl
  | cons entry rest ih =>
      obtain ⟨purpose, budget⟩ := entry
      unfold topUp
      cases wants purpose with
      | none =>
          have later := ih remaining
          simp only [Budgets.total, List.map_cons, List.sum_cons] at later ⊢
          omega
      | some want =>
          have later := ih (remaining - min (want - budget) remaining)
          simp only [Budgets.total, List.map_cons, List.sum_cons] at later ⊢
          omega

theorem shareOut_total (wants : Purpose → Option Nat) (base : Nat) (budgets : Budgets)
    (extra : Nat) :
    (shareOut wants base budgets extra).total ≤ budgets.total +
      (base * budgets.countP (fun (purpose, _) => (wants purpose).isNone) + extra) := by
  induction budgets generalizing extra with
  | nil => simp [shareOut, Budgets.total]
  | cons entry rest ih =>
      obtain ⟨purpose, budget⟩ := entry
      unfold shareOut
      cases wanted : wants purpose with
      | some want =>
          have later := ih extra
          simp only [Budgets.total, List.map_cons, List.sum_cons, List.countP_cons, wanted,
            Option.isNone_some, Bool.false_eq_true, ↓reduceIte, Nat.add_zero] at later ⊢
          omega
      | none =>
          have later := ih (extra - 1)
          simp only [Budgets.total, List.map_cons, List.sum_cons, List.countP_cons, wanted,
            Option.isNone_none, ↓reduceIte, Nat.mul_add, Nat.mul_one] at later ⊢
          split <;> omega

theorem splitRemainder_total (wants : Purpose → Option Nat) (budgets : Budgets)
    (remaining : Nat) :
    (splitRemainder wants budgets remaining).total ≤ budgets.total + remaining := by
  unfold splitRemainder
  dsimp only
  split
  · exact Nat.le_add_right _ _
  · have shared := shareOut_total wants (remaining / budgets.countP fun (purpose, _) =>
      (wants purpose).isNone) budgets (remaining % budgets.countP fun (purpose, _) =>
      (wants purpose).isNone)
    rwa [Nat.div_add_mod'] at shared

/-- What is apportioned never exceeds the limit. -/
theorem apportion_total (wants : Purpose → Option Nat) (ordered : List Purpose) (limit : Nat) :
    (apportion wants ordered limit).total ≤ limit := by
  have floored := floorTiers_total ordered ([1, 2, 3].filter fun tier =>
    ordered.any (·.tier = tier)) [] limit
  have topped := topUp_total wants (floorTiers ordered ([1, 2, 3].filter fun tier =>
    ordered.any (·.tier = tier)) [] limit).1 (floorTiers ordered ([1, 2, 3].filter fun tier =>
    ordered.any (·.tier = tier)) [] limit).2
  have split := splitRemainder_total wants _ _ |>.trans (le_of_eq topped)
  refine split.trans (le_of_eq ?_)
  rw [floored]
  exact Nat.zero_add limit

/-- Distinct purposes are given no more than the budgets hold. -/
theorem granted_le {purposes : List Purpose} (distinct : purposes.Nodup) (budgets : Budgets) :
    (purposes.filterMap (Dict.get? budgets)).sum ≤ budgets.total := by
  induction budgets generalizing purposes with
  | nil =>
      have none : purposes.filterMap (Dict.get? ([] : Budgets)) = [] := by
        simp [List.filterMap_eq_nil_iff]
      rw [none]
      exact Nat.zero_le _
  | cons entry rest ih =>
      obtain ⟨first, budget⟩ := entry
      -- the purpose of the first entry is taken out, the others are looked up in the rest
      have others : ∀ list : List Purpose, first ∉ list →
          list.filterMap (Dict.get? ((first, budget) :: rest)) =
            list.filterMap (Dict.get? rest) := by
        intro list absent
        refine List.filterMap_congr fun purpose member => ?_
        rw [Dict.get?_cons, if_neg]
        rintro rfl
        exact absent member
      have whole : Budgets.total ((first, budget) :: rest) = budget + Budgets.total rest := by
        simp [Budgets.total]
      rw [whole]
      by_cases held : first ∈ purposes
      · have taken := (List.perm_cons_erase held).filterMap (Dict.get? ((first, budget) :: rest))
        rw [taken.sum_eq, List.filterMap_cons, Dict.get?_cons, if_pos rfl, List.sum_cons,
          others _ (distinct.not_mem_erase)]
        exact Nat.add_le_add_left (ih (distinct.erase first)) budget
      · rw [others purposes held]
        exact (ih distinct).trans (Nat.le_add_left _ _)

theorem purposesOf_distinct (bound : BoundIntent) : ((purposesOf bound).map (·.1)).Nodup := by
  obtain ⟨intent, anchor, unboundText⟩ := bound
  unfold purposesOf
  cases anchor with
  | none => cases unboundText.any (· ≠ "") <;> simp
  | some anchored =>
      obtain ⟨kind, ref⟩ := anchored
      cases kind <;> cases unboundText.any (· ≠ "") <;> simp [AnchorKind.dispatch]

/-- The check at the end of `compile_plan` never fires. -/
theorem compilePlan_succeeds (bound : BoundIntent) :
    ∃ plan, compilePlan bound = .ok plan := by
  unfold compilePlan
  dsimp only
  split
  · exact ⟨_, rfl⟩
  · have ordered : ((tierOrder (purposesOf bound)).map (·.1)).Nodup :=
      ((List.perm_insertionSort _ _).map Prod.fst).nodup_iff.mpr (purposesOf_distinct bound)
    have within := (granted_le ordered (apportion (wantsOf bound)
      ((tierOrder (purposesOf bound)).map (·.1)) bound.intent.limit.toNat)).trans
      (apportion_total _ _ _)
    rw [if_neg]
    · exact ⟨_, rfl⟩
    · rw [not_lt]
      refine le_trans (le_of_eq ?_) within
      rw [List.map_filterMap, List.filterMap_map]
      simp [Function.comp_def]

theorem compilePlan_total {bound : BoundIntent} {plan : RetrievalPlan}
    (compiled : compilePlan bound = .ok plan) :
    (plan.queryClasses.map (·.budget)).sum ≤ bound.intent.limit.toNat ∧ plan.bound = bound := by
  unfold compilePlan at compiled
  dsimp only at compiled
  split at compiled
  · cases compiled
    exact ⟨Nat.zero_le _, rfl⟩
  · split at compiled
    · cases compiled
    · rename_i kept
      cases compiled
      exact ⟨not_lt.mp kept, rfl⟩

/-! ## Every planned class has a row -/

/-- No class is budgeted nothing. -/
def Budgets.Funded (budgets : Budgets) : Prop := ∀ entry ∈ budgets, 1 ≤ entry.2

theorem floorTier_funded (left : Nat) (purposes : List Purpose) :
    Budgets.Funded (floorTier left purposes).1 := by
  induction purposes generalizing left with
  | nil => exact fun _ member => by cases member
  | cons purpose rest ih =>
      unfold floorTier
      split
      · exact fun _ member => by cases member
      · intro entry member
        rcases List.mem_cons.mp member with rfl | later
        · cases purpose <;> decide
        · exact ih _ entry later

theorem floorTiers_funded (ordered : List Purpose) (tiers : List Nat) {budgets : Budgets}
    (remaining : Nat) (funded : budgets.Funded) :
    Budgets.Funded (floorTiers ordered tiers budgets remaining).1 := by
  have more : ∀ left purposes, Budgets.Funded (budgets ++ (floorTier left purposes).1) := by
    intro left purposes entry member
    rcases List.mem_append.mp member with old | new
    · exact funded entry old
    · exact floorTier_funded left purposes entry new
  induction tiers generalizing budgets remaining with
  | nil => exact funded
  | cons tier tiers ih =>
      unfold floorTiers
      dsimp only
      split
      · exact more _ _
      · refine ih _ (more _ _) fun left purposes entry member => ?_
        rcases List.mem_append.mp member with old | new
        · exact more _ _ entry old
        · exact floorTier_funded left purposes entry new

theorem topUp_funded (wants : Purpose → Option Nat) {budgets : Budgets} (remaining : Nat)
    (funded : budgets.Funded) : Budgets.Funded (topUp wants budgets remaining).1 := by
  induction budgets generalizing remaining with
  | nil => exact funded
  | cons entry rest ih =>
      obtain ⟨purpose, budget⟩ := entry
      obtain ⟨first, others⟩ := List.forall_mem_cons.mp funded
      unfold topUp
      cases wants purpose with
      | none => exact List.forall_mem_cons.mpr ⟨first, ih _ others⟩
      | some want =>
          exact List.forall_mem_cons.mpr ⟨Nat.le_add_right_of_le first, ih _ others⟩

theorem shareOut_funded (wants : Purpose → Option Nat) (base : Nat) {budgets : Budgets}
    (extra : Nat) (funded : budgets.Funded) :
    Budgets.Funded (shareOut wants base budgets extra) := by
  induction budgets generalizing extra with
  | nil => exact funded
  | cons entry rest ih =>
      obtain ⟨purpose, budget⟩ := entry
      obtain ⟨first, others⟩ := List.forall_mem_cons.mp funded
      unfold shareOut
      cases wants purpose with
      | some want => exact List.forall_mem_cons.mpr ⟨first, ih _ others⟩
      | none => exact List.forall_mem_cons.mpr ⟨Nat.le_add_right_of_le first, ih _ others⟩

theorem apportion_funded (wants : Purpose → Option Nat) (ordered : List Purpose) (limit : Nat) :
    Budgets.Funded (apportion wants ordered limit) := by
  unfold apportion splitRemainder
  dsimp only
  have none : Budgets.Funded [] := fun _ member => by cases member
  split
  · exact topUp_funded wants _ (floorTiers_funded ordered _ limit none)
  · exact shareOut_funded wants _ _ (topUp_funded wants _ (floorTiers_funded ordered _ limit none))

/-- No class is planned with an empty budget. -/
theorem compilePlan_budgeted {bound : BoundIntent} {plan : RetrievalPlan}
    (compiled : compilePlan bound = .ok plan) :
    ∀ queryClass ∈ plan.queryClasses, 1 ≤ queryClass.budget := by
  unfold compilePlan at compiled
  dsimp only at compiled
  split at compiled
  · cases compiled
    exact fun _ member => by cases member
  · split at compiled
    · cases compiled
    · cases compiled
      intro queryClass member
      obtain ⟨⟨purpose, reason⟩, _, made⟩ := List.mem_filterMap.mp member
      obtain ⟨budget, held, rfl⟩ := Option.map_eq_some_iff.mp made
      exact apportion_funded _ _ _ _ (Dict.mem_of_get? held)

/-! ## A class is known by its id -/

theorem classId_purpose {left right : Nat} {first second : Purpose}
    (same : "q" ++ toString left ++ "-" ++ first.value =
      "q" ++ toString right ++ "-" ++ second.value) : first = second := by
  -- what follows the first dash is the purpose
  have cut : ∀ (n : Nat) (rest : List Char),
      ("q".toList ++ (toString n).toList ++ "-".toList ++ rest).dropWhile (· ≠ '-') =
        '-' :: rest := by
    intro n rest
    have clear : ∀ c ∈ "q".toList ++ (toString n).toList, (c ≠ '-' : Bool) = true := by
      intro c member
      rcases List.mem_append.mp member with letter | digit
      · rw [List.mem_singleton.mp letter]
        decide
      · have isDigit := Json.toDigits_digit (n := n) (c := c) (by simpa using digit)
        refine decide_eq_true fun dash => ?_
        rw [dash] at isDigit
        exact absurd isDigit (by decide)
    have split : (("q".toList ++ (toString n).toList) ++ '-' :: rest).takeWhile (· ≠ '-') =
          "q".toList ++ (toString n).toList ∧
        (("q".toList ++ (toString n).toList) ++ '-' :: rest).dropWhile (· ≠ '-') = '-' :: rest :=
      Json.takeWhile_append_of_all clear (by simp)
    simpa using split.2
  have lists := congrArg (List.dropWhile (· ≠ '-')) (congrArg String.toList same)
  simp only [String.toList_append, cut] at lists
  have values : first.value = second.value := String.toList_inj.mp (List.cons.inj lists).2
  revert values
  cases first <;> cases second <;> decide

/-- The classes of a plan are told apart by their ids. -/
theorem compilePlan_ids {bound : BoundIntent} {plan : RetrievalPlan}
    (compiled : compilePlan bound = .ok plan) :
    ∀ first ∈ plan.queryClasses, ∀ second ∈ plan.queryClasses,
      first.classId = second.classId → first = second := by
  unfold compilePlan at compiled
  dsimp only at compiled
  split at compiled
  · cases compiled
    exact fun _ member => by cases member
  · split at compiled
    · cases compiled
    · cases compiled
      have distinct : ((tierOrder (purposesOf bound)).map (·.1)).Nodup :=
        ((List.perm_insertionSort _ _).map Prod.fst).nodup_iff.mpr (purposesOf_distinct bound)
      intro first firstHeld second secondHeld same
      obtain ⟨⟨purpose, reason⟩, ordered, made⟩ := List.mem_filterMap.mp firstHeld
      obtain ⟨budget, held, rfl⟩ := Option.map_eq_some_iff.mp made
      obtain ⟨⟨other, otherReason⟩, otherOrdered, otherMade⟩ := List.mem_filterMap.mp secondHeld
      obtain ⟨otherBudget, otherHeld, rfl⟩ := Option.map_eq_some_iff.mp otherMade
      have purposes : purpose = other := classId_purpose same
      subst purposes
      have reasons : (purpose, reason) = (purpose, otherReason) :=
        List.inj_on_of_nodup_map distinct ordered otherOrdered rfl
      cases reasons
      rw [held] at otherHeld
      cases otherHeld
      rfl

end Kawa
