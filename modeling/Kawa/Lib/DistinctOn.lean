import Kawa.Lib.Latest

/-! One row of each group, the latest under a key. -/

namespace DistinctOn

open Latest

variable {α γ κ : Type} [DecidableEq γ] [LinearOrder κ] {group : α → γ} {key : α → κ}

/-- `SELECT DISTINCT ON (group) … ORDER BY group, key DESC`. -/
def distinctOn (group : α → γ) (key : α → κ) (items : List α) : List α :=
  (items.map group).dedup.filterMap fun value => latest key (items.filter (group · = value))

theorem group_latest {items : List α} {value : γ} {item : α}
    (found : latest key (items.filter (group · = value)) = some item) :
    item ∈ items ∧ group item = value := by
  obtain ⟨held, same⟩ := List.mem_filter.mp (latest_mem found)
  exact ⟨held, of_decide_eq_true same⟩

theorem mem_distinctOn {items : List α} {item : α} : item ∈ distinctOn group key items ↔
    latest key (items.filter (group · = group item)) = some item := by
  unfold distinctOn
  rw [List.mem_filterMap]
  constructor
  · rintro ⟨value, _, found⟩
    rw [(group_latest found).2]
    exact found
  · intro found
    exact ⟨group item, List.mem_dedup.mpr (List.mem_map.mpr ⟨item, (group_latest found).1, rfl⟩),
      found⟩

theorem distinctOn_unique {items : List α} {left right : α}
    (leftHeld : left ∈ distinctOn group key items) (rightHeld : right ∈ distinctOn group key items)
    (same : group left = group right) : left = right := by
  have leftLatest := mem_distinctOn.mp leftHeld
  rw [same, mem_distinctOn.mp rightHeld] at leftLatest
  exact (Option.some.inj leftLatest).symm

/-- Every group has its row. -/
theorem groups_distinctOn (items : List α) :
    (distinctOn group key items).map group = (items.map group).dedup := by
  unfold distinctOn
  have all : ∀ value ∈ (items.map group).dedup, ∃ item,
      latest key (items.filter (group · = value)) = some item ∧ group item = value := by
    intro value listed
    obtain ⟨source, held, named⟩ := List.mem_map.mp (List.mem_dedup.mp listed)
    cases found : latest key (items.filter (group · = value)) with
    | none =>
        rw [latest_eq_none] at found
        exact absurd (List.mem_filter.mpr ⟨held, decide_eq_true named⟩)
          (List.eq_nil_iff_forall_not_mem.mp found source)
    | some item => exact ⟨item, rfl, (group_latest found).2⟩
  generalize (items.map group).dedup = values at all
  induction values with
  | nil => rfl
  | cons value values ih =>
      obtain ⟨item, found, named⟩ := all value List.mem_cons_self
      rw [List.filterMap_cons, found]
      change group item :: _ = _
      rw [named, ih fun other later => all other (List.mem_cons_of_mem _ later)]

theorem nodup_groups (items : List α) : ((distinctOn group key items).map group).Nodup := by
  rw [groups_distinctOn]
  exact List.nodup_dedup _

/-- Where the key tells the items of a group apart, a group's row is its greatest. -/
theorem mem_distinctOn_iff {items : List α} {item : α}
    (separates : ∀ left ∈ items, ∀ right ∈ items, group left = group right →
      key left = key right → left = right) : item ∈ distinctOn group key items ↔
    item ∈ items ∧ ∀ other ∈ items, group other = group item → key other ≤ key item := by
  rw [mem_distinctOn, latest_eq_some fun left leftHeld right rightHeld same => ?_]
  · simp only [List.mem_filter, decide_eq_true_eq, and_true, and_imp]
  · obtain ⟨inLeft, leftGroup⟩ := List.mem_filter.mp leftHeld
    obtain ⟨inRight, rightGroup⟩ := List.mem_filter.mp rightHeld
    exact separates left inLeft right inRight
      ((of_decide_eq_true leftGroup).trans (of_decide_eq_true rightGroup).symm) same

end DistinctOn
