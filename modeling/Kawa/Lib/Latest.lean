import Mathlib

/-!
The latest item of a list under a key.  When the key tells the items apart, the
latest one depends on which items the list holds and not on their order.
-/

namespace Latest

variable {α κ : Type}

def latest [LT κ] [DecidableLT κ] (key : α → κ) : List α → Option α
  | [] => none
  | item :: items =>
      match latest key items with
      | none => some item
      | some best => if key best < key item then some item else some best

section Membership

variable [LinearOrder κ] {key : α → κ}

@[simp] theorem latest_nil : latest key [] = none := rfl

theorem latest_eq_none {items : List α} : latest key items = none ↔ items = [] := by
  cases items with
  | nil => simp
  | cons item items =>
      simp only [latest, reduceCtorEq, iff_false]
      split
      · simp
      · split <;> simp

/-- Rewriting items without touching the key commutes with taking the latest. -/
theorem latest_map {f : α → α} (keeps : ∀ item, key (f item) = key item) (items : List α) :
    latest key (items.map f) = (latest key items).map f := by
  induction items with
  | nil => rfl
  | cons item items ih =>
      simp only [List.map_cons, latest, ih]
      cases latest key items with
      | none => rfl
      | some best =>
          simp only [Option.map_some, keeps]
          split <;> rfl

theorem latest_mem {items : List α} {best : α} (found : latest key items = some best) :
    best ∈ items := by
  induction items generalizing best with
  | nil => simp at found
  | cons item items ih =>
      simp only [latest] at found
      split at found
      · cases found
        exact List.mem_cons_self
      · rename_i held rest
        split at found
        · cases found
          exact List.mem_cons_self
        · cases found
          exact List.mem_cons_of_mem _ (ih rest)

theorem le_latest {items : List α} {best : α} (found : latest key items = some best) :
    ∀ item ∈ items, key item ≤ key best := by
  induction items generalizing best with
  | nil => simp at found
  | cons item items ih =>
      intro other member
      simp only [latest] at found
      split at found
      · rename_i none
        cases found
        rw [latest_eq_none] at none
        subst none
        rw [List.mem_singleton.mp member]
      · rename_i held rest
        split at found
        · rename_i later
          cases found
          rcases List.mem_cons.mp member with rfl | tail
          · exact le_refl _
          · exact le_trans (ih rest other tail) (le_of_lt later)
        · rename_i earlier
          cases found
          rcases List.mem_cons.mp member with rfl | tail
          · exact not_lt.mp earlier
          · exact ih rest other tail

/-- The key tells any two items of the list apart. -/
def Separates (key : α → κ) (items : List α) : Prop :=
  ∀ left ∈ items, ∀ right ∈ items, key left = key right → left = right

theorem latest_eq_some {items : List α} (separates : Separates key items) {best : α} :
    latest key items = some best ↔ best ∈ items ∧ ∀ item ∈ items, key item ≤ key best := by
  constructor
  · intro found
    exact ⟨latest_mem found, le_latest found⟩
  · rintro ⟨member, upper⟩
    cases found : latest key items with
    | none =>
        rw [latest_eq_none] at found
        simp [found] at member
    | some other =>
        have held := latest_mem found
        have same := le_antisymm (upper other held) (le_latest found best member)
        rw [separates other held best member same]

end Membership

end Latest
