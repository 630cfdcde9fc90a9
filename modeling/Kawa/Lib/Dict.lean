import Mathlib

/-!
Insertion-ordered dictionaries: `set` overwrites an entry in its place or appends
a new one, so the keys stay distinct.
-/

abbrev Dict (κ α : Type) := List (κ × α)

namespace Dict

variable {κ α : Type} [DecidableEq κ]

def get? (dict : Dict κ α) (key : κ) : Option α := (dict.find? (·.1 = key)).map (·.2)

def set : Dict κ α → κ → α → Dict κ α
  | [], key, value => [(key, value)]
  | (other, old) :: rest, key, value =>
      if other = key then (key, value) :: rest else (other, old) :: set rest key value

def values (dict : Dict κ α) : List α := dict.map (·.2)

/-- No key occurs twice. -/
def Distinct (dict : Dict κ α) : Prop := (dict.map (·.1)).Nodup

theorem set_fresh {dict : Dict κ α} {key : κ} (value : α) (fresh : key ∉ dict.map (·.1)) :
    set dict key value = dict ++ [(key, value)] := by
  induction dict with
  | nil => rfl
  | cons entry dict ih =>
      obtain ⟨other, old⟩ := entry
      simp only [List.map_cons, List.mem_cons, not_or] at fresh
      simp only [set, Ne.symm fresh.1, ↓reduceIte, List.cons_append, ih fresh.2]

@[simp] theorem get?_nil (key : κ) : get? ([] : Dict κ α) key = none := rfl

theorem get?_cons (other : κ) (old : α) (dict : Dict κ α) (key : κ) :
    get? ((other, old) :: dict) key = if other = key then some old else get? dict key := by
  unfold get?
  by_cases same : other = key <;> simp [same]

@[simp] theorem get?_set_self (dict : Dict κ α) (key : κ) (value : α) :
    get? (set dict key value) key = some value := by
  induction dict with
  | nil => simp [set, get?_cons]
  | cons entry dict ih =>
      obtain ⟨other, old⟩ := entry
      unfold set
      split
      · simp [get?_cons]
      · rename_i different
        simp [get?_cons, different, ih]

theorem get?_set_ne {key other : κ} (dict : Dict κ α) (value : α) (different : other ≠ key) :
    get? (set dict key value) other = get? dict other := by
  induction dict with
  | nil => simp [set, get?_cons, Ne.symm different]
  | cons entry dict ih =>
      obtain ⟨held, old⟩ := entry
      unfold set
      split
      · rename_i same
        subst same
        simp [get?_cons, Ne.symm different]
      · simp only [get?_cons, ih]

/-- The dictionary of a partial function on some keys. -/
theorem get?_filterMap (f : κ → Option α) (keys : List κ) (key : κ) :
    get? (keys.filterMap fun k => (f k).map fun value => (k, value)) key =
      if key ∈ keys then f key else none := by
  induction keys with
  | nil => simp
  | cons other keys ih =>
      cases found : f other with
      | none =>
          simp only [List.filterMap_cons, found, Option.map_none, ih, List.mem_cons]
          by_cases same : key = other
          · simp [same, found]
          · simp [same]
      | some value =>
          simp only [List.filterMap_cons, found, Option.map_some, get?_cons, ih, List.mem_cons]
          by_cases same : other = key
          · simp [same, ← found]
          · simp [same, Ne.symm same]

theorem mem_of_get? {dict : Dict κ α} {key : κ} {value : α} (found : get? dict key = some value) :
    (key, value) ∈ dict := by
  induction dict with
  | nil => simp at found
  | cons entry dict ih =>
      obtain ⟨other, old⟩ := entry
      rw [get?_cons] at found
      split at found
      · rename_i same
        subst same
        cases found
        exact List.mem_cons_self
      · exact List.mem_cons_of_mem _ (ih found)

theorem get?_of_mem {dict : Dict κ α} (distinct : Distinct dict) {key : κ} {value : α}
    (member : (key, value) ∈ dict) : get? dict key = some value := by
  induction dict with
  | nil => simp at member
  | cons entry dict ih =>
      obtain ⟨other, old⟩ := entry
      simp only [Distinct, List.map_cons, List.nodup_cons] at distinct
      rw [get?_cons]
      cases member with
      | head => simp
      | tail _ member =>
          have different : other ≠ key := by
            rintro rfl
            exact distinct.1 (List.mem_map_of_mem member)
          rw [if_neg different]
          exact ih distinct.2 member

theorem mem_iff_get? {dict : Dict κ α} (distinct : Distinct dict) {key : κ} {value : α} :
    (key, value) ∈ dict ↔ get? dict key = some value :=
  ⟨get?_of_mem distinct, mem_of_get?⟩

theorem keys_set (dict : Dict κ α) (key : κ) (value : α) :
    (set dict key value).map (·.1) =
      if key ∈ dict.map (·.1) then dict.map (·.1) else dict.map (·.1) ++ [key] := by
  induction dict with
  | nil => simp [set]
  | cons entry dict ih =>
      obtain ⟨other, old⟩ := entry
      unfold set
      split
      · rename_i same
        simp [same]
      · rename_i different
        simp only [List.map_cons, ih, List.mem_cons, Ne.symm different, false_or]
        split <;> simp

theorem distinct_set {dict : Dict κ α} (distinct : Distinct dict) (key : κ) (value : α) :
    Distinct (set dict key value) := by
  unfold Distinct at distinct ⊢
  rw [keys_set]
  split
  · exact distinct
  · rename_i fresh
    simpa using List.Nodup.append distinct (List.nodup_singleton key) (by simpa using fresh)

/-- What a `set` leaves in the dictionary. -/
theorem mem_set_iff {dict : Dict κ α} (distinct : Distinct dict) {key other : κ} {value held : α} :
    (other, held) ∈ set dict key value ↔
      (other = key ∧ held = value) ∨ (other ≠ key ∧ (other, held) ∈ dict) := by
  rw [mem_iff_get? (distinct_set distinct key value), mem_iff_get? distinct]
  by_cases same : other = key
  · subst same
    simp [eq_comm]
  · simp [get?_set_ne dict value same, same]

end Dict
