import Mathlib

/-!
Keyed tables: rows with a primary key.  Each statement that writes a table keeps its
keys distinct, and one membership lemma says which rows it leaves.
-/

structure Table (ρ : Type) {κ : Type} (key : ρ → κ) where
  rows : List ρ
  unique : (rows.map key).Nodup

namespace Table

variable {ρ κ : Type} {key : ρ → κ}

instance : Membership ρ (Table ρ key) := ⟨fun table row => row ∈ table.rows⟩

instance : EmptyCollection (Table ρ key) := ⟨⟨[], List.nodup_nil⟩⟩

instance : Inhabited (Table ρ key) := ⟨∅⟩

instance [DecidableEq ρ] : DecidableEq (Table ρ key) := fun left right =>
  decidable_of_iff (left.rows = right.rows) (by cases left; cases right; simp)

@[simp] theorem mem_rows {table : Table ρ key} {row : ρ} : row ∈ table.rows ↔ row ∈ table :=
  Iff.rfl

@[simp] theorem not_mem_empty (row : ρ) : row ∉ (∅ : Table ρ key) :=
  List.not_mem_nil

theorem eq_of_key {table : Table ρ key} {left right : ρ} (leftHeld : left ∈ table)
    (rightHeld : right ∈ table) (same : key left = key right) : left = right :=
  List.inj_on_of_nodup_map table.unique leftHeld rightHeld same

theorem rows_nodup (table : Table ρ key) : table.rows.Nodup := List.Nodup.of_map key table.unique

/-- `UPDATE … SET … WHERE`, for an assignment that leaves the key alone. -/
def update (table : Table ρ key) (condition : ρ → Bool) (set : ρ → ρ)
    (keeps : ∀ row, key (set row) = key row) : Table ρ key where
  rows := table.rows.map fun row => if condition row then set row else row
  unique := by
    rw [List.map_map]
    have keys : key ∘ (fun row => if condition row then set row else row) = key := by
      funext row
      simp only [Function.comp]
      split
      · exact keeps row
      · rfl
    rw [keys]
    exact table.unique

/-- `DELETE … WHERE`. -/
def delete (table : Table ρ key) (condition : ρ → Bool) : Table ρ key where
  rows := table.rows.filter (!condition ·)
  unique := List.Nodup.sublist (List.Sublist.map key List.filter_sublist) table.unique

theorem mem_update {table : Table ρ key} {condition : ρ → Bool} {set : ρ → ρ}
    {keeps : ∀ row, key (set row) = key row} {row : ρ} :
    row ∈ table.update condition set keeps ↔
      (∃ old ∈ table, condition old = true ∧ row = set old) ∨
        (row ∈ table ∧ condition row = false) := by
  change row ∈ table.rows.map _ ↔ _
  rw [List.mem_map]
  constructor
  · rintro ⟨old, held, rfl⟩
    by_cases met : condition old = true
    · exact .inl ⟨old, held, met, by rw [if_pos met]⟩
    · rw [if_neg met]
      exact .inr ⟨held, by simpa using met⟩
  · rintro (⟨old, held, met, rfl⟩ | ⟨held, unmet⟩)
    · exact ⟨old, held, by rw [if_pos met]⟩
    · exact ⟨row, held, by simp [unmet]⟩

theorem mem_delete {table : Table ρ key} {condition : ρ → Bool} {row : ρ} :
    row ∈ table.delete condition ↔ row ∈ table ∧ condition row = false := by
  change row ∈ table.rows.filter _ ↔ _
  simp

variable [DecidableEq κ]

def find? (table : Table ρ key) (k : κ) : Option ρ := table.rows.find? (key · = k)

def holds (table : Table ρ key) (k : κ) : Bool := table.rows.any (key · = k)

theorem find?_eq_some {table : Table ρ key} {k : κ} {row : ρ} :
    table.find? k = some row ↔ row ∈ table ∧ key row = k := by
  constructor
  · intro found
    exact ⟨List.mem_of_find?_eq_some found, by simpa using List.find?_some found⟩
  · rintro ⟨member, rfl⟩
    cases found : table.find? (key row) with
    | none => exact absurd (List.find?_eq_none.mp found row member) (by simp)
    | some other =>
        have named : key other = key row := by simpa using List.find?_some found
        rw [eq_of_key (List.mem_of_find?_eq_some found) member named]

theorem find?_eq_none {table : Table ρ key} {k : κ} :
    table.find? k = none ↔ ∀ row ∈ table, key row ≠ k := by
  simp [find?]

theorem find?_of_mem {table : Table ρ key} {row : ρ} (member : row ∈ table) :
    table.find? (key row) = some row := find?_eq_some.mpr ⟨member, rfl⟩

theorem holds_iff {table : Table ρ key} {k : κ} :
    table.holds k = true ↔ ∃ row ∈ table, key row = k := by
  simp [holds]

theorem holds_eq_false {table : Table ρ key} {k : κ} :
    table.holds k = false ↔ ∀ row ∈ table, key row ≠ k := by
  simp [holds]

/-! ## Inserting -/

/-- Append a row whose key is new. -/
def append (table : Table ρ key) (row : ρ) (fresh : table.holds (key row) = false) :
    Table ρ key where
  rows := table.rows ++ [row]
  unique := by
    rw [List.map_append]
    refine List.Nodup.append table.unique (List.nodup_singleton _) ?_
    intro k member last
    obtain ⟨other, held, rfl⟩ := List.mem_map.mp member
    exact holds_eq_false.mp fresh other held (List.mem_singleton.mp last)

/-- `INSERT`: `none` where the key is taken. -/
def insert? (table : Table ρ key) (row : ρ) : Option (Table ρ key) :=
  if fresh : table.holds (key row) = false then some (table.append row fresh) else none

/-- `INSERT … ON CONFLICT DO NOTHING`. -/
def insertNew (table : Table ρ key) (row : ρ) : Table ρ key :=
  if fresh : table.holds (key row) = false then table.append row fresh else table

/-- `INSERT … ON CONFLICT (key) DO UPDATE SET`. -/
def upsert (table : Table ρ key) (row : ρ) (set : ρ → ρ)
    (keeps : ∀ old, key (set old) = key old) : Table ρ key :=
  if fresh : table.holds (key row) = false then table.append row fresh
  else table.update (key · = key row) set keeps

theorem mem_append {table : Table ρ key} {row other : ρ} {fresh : table.holds (key row) = false} :
    other ∈ table.append row fresh ↔ other ∈ table ∨ other = row := by
  change other ∈ table.rows ++ [row] ↔ _
  simp

theorem insert?_eq_some {table next : Table ρ key} {row : ρ} :
    table.insert? row = some next ↔
      ∃ fresh : table.holds (key row) = false, table.append row fresh = next := by
  unfold insert?
  split <;> simp_all

theorem mem_insertNew {table : Table ρ key} {row other : ρ} :
    other ∈ table.insertNew row ↔
      other ∈ table ∨ (other = row ∧ table.holds (key row) = false) := by
  unfold insertNew
  split
  · rename_i fresh
    simp [mem_append, fresh]
  · rename_i taken
    simp [taken]

/-- After an insertion that gives way to a conflict, the table holds a row of that key. -/
theorem exists_insertNew (table : Table ρ key) (row : ρ) :
    ∃ held ∈ table.insertNew row, key held = key row := by
  cases taken : table.holds (key row) with
  | true =>
      obtain ⟨held, member, same⟩ := holds_iff.mp taken
      exact ⟨held, mem_insertNew.mpr (.inl member), same⟩
  | false => exact ⟨row, mem_insertNew.mpr (.inr ⟨rfl, taken⟩), rfl⟩

theorem mem_upsert {table : Table ρ key} {row other : ρ} {set : ρ → ρ}
    {keeps : ∀ old, key (set old) = key old} :
    other ∈ table.upsert row set keeps ↔
      (other = row ∧ table.holds (key row) = false) ∨
        (∃ old ∈ table, key old = key row ∧ other = set old) ∨
        (other ∈ table ∧ key other ≠ key row) := by
  unfold upsert
  split
  · rename_i fresh
    have none := holds_eq_false.mp fresh
    rw [mem_append]
    constructor
    · rintro (held | rfl)
      · exact .inr (.inr ⟨held, none other held⟩)
      · exact .inl ⟨rfl, fresh⟩
    · rintro (⟨rfl, _⟩ | ⟨old, held, same, _⟩ | ⟨held, _⟩)
      · exact .inr rfl
      · exact absurd same (none old held)
      · exact .inl held
  · rename_i taken
    simp [mem_update, taken]

theorem find?_append {table : Table ρ key} {row : ρ} {fresh : table.holds (key row) = false}
    {k : κ} : (table.append row fresh).find? k = if key row = k then some row else table.find? k := by
  split
  · rename_i same
    exact find?_eq_some.mpr ⟨mem_append.mpr (.inr rfl), same⟩
  · rename_i other
    cases found : table.find? k with
    | none =>
        refine find?_eq_none.mpr fun held member => ?_
        rcases mem_append.mp member with old | rfl
        · exact find?_eq_none.mp found held old
        · exact other
    | some held =>
        obtain ⟨member, same⟩ := find?_eq_some.mp found
        exact find?_eq_some.mpr ⟨mem_append.mpr (.inl member), same⟩

end Table
