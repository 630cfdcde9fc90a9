import Mathlib

/-! Inversion rules for computations that may raise, and the induction rule for a fold of one. -/

namespace Result

variable {ε α β : Type}

theorem bind_ok {first : Except ε α} {rest : α → Except ε β} {result : β} :
    (first >>= rest) = .ok result ↔ ∃ value, first = .ok value ∧ rest value = .ok result := by
  cases first <;> simp [bind, Except.bind]

theorem bind_succeeds {first : Except ε α} {rest : α → Except ε β}
    (begun : ∃ value, first = .ok value) (continued : ∀ value, ∃ result, rest value = .ok result) :
    ∃ result, (first >>= rest) = .ok result := by
  obtain ⟨value, done⟩ := begun
  obtain ⟨result, made⟩ := continued value
  exact ⟨result, bind_ok.mpr ⟨value, done, made⟩⟩

theorem map_ok {first : Except ε α} {f : α → β} {result : β} :
    f <$> first = .ok result ↔ ∃ value, first = .ok value ∧ f value = result := by
  cases first <;> simp [Functor.map, Except.map]

theorem map_succeeds {result : Except ε α} {f : α → β} :
    (∃ made, f <$> result = .ok made) ↔ ∃ value, result = .ok value := by
  simp only [map_ok]
  constructor
  · rintro ⟨_, value, done, _⟩
    exact ⟨value, done⟩
  · rintro ⟨value, done⟩
    exact ⟨_, value, done, rfl⟩

theorem pure_ok {value result : α} :
    (pure value : Except ε α) = .ok result ↔ value = result := by
  simp [pure, Except.pure]

theorem mapError_ok {δ : Type} {result : Except ε α} {f : ε → δ} {value : α} :
    result.mapError f = .ok value ↔ result = .ok value := by
  cases result <;> simp [Except.mapError]

/-- Everything a mapped list holds comes from an item of it. -/
theorem mem_mapM {items : List α} {f : α → Except ε β} {results : List β} {result : β}
    (mapped : items.mapM f = .ok results) (member : result ∈ results) :
    ∃ item ∈ items, f item = .ok result := by
  induction items generalizing results with
  | nil =>
      simp only [List.mapM_nil, pure_ok] at mapped
      subst mapped
      cases member
  | cons item items ih =>
      simp only [List.mapM_cons, bind_ok, pure_ok] at mapped
      obtain ⟨first, read, rest, tail, rfl⟩ := mapped
      rcases List.mem_cons.mp member with rfl | later
      · exact ⟨item, List.mem_cons_self, read⟩
      · obtain ⟨source, held, made⟩ := ih tail later
        exact ⟨source, List.mem_cons_of_mem _ held, made⟩

/-- A reader that agrees wherever the first one reads maps a list to the same results. -/
theorem mapM_mono {items : List α} {f g : α → Except ε β} {results : List β}
    (agree : ∀ item ∈ items, ∀ result, f item = .ok result → g item = .ok result)
    (mapped : items.mapM f = .ok results) : items.mapM g = .ok results := by
  induction items generalizing results with
  | nil => exact mapped
  | cons item items ih =>
      simp only [List.mapM_cons, bind_ok, pure_ok] at mapped ⊢
      obtain ⟨first, read, rest, tail, rfl⟩ := mapped
      exact ⟨first, agree item List.mem_cons_self first read, rest,
        ih (fun other held => agree other (List.mem_cons_of_mem _ held)) tail, rfl⟩

/-- The results stand in the order of their items. -/
theorem forall₂_of_mapM {f : α → Except ε β} {items : List α} {results : List β}
    (mapped : items.mapM f = .ok results) :
    List.Forall₂ (fun item result => f item = .ok result) items results := by
  induction items generalizing results with
  | nil =>
      simp only [List.mapM_nil, pure_ok] at mapped
      subst mapped
      exact .nil
  | cons item items ih =>
      simp only [List.mapM_cons, bind_ok, pure_ok] at mapped
      obtain ⟨first, read, rest, tail, rfl⟩ := mapped
      exact .cons read (ih tail)

/-- The result of every item is in the mapped list. -/
theorem mapM_mem {items : List α} {f : α → Except ε β} {results : List β} {item : α}
    (mapped : items.mapM f = .ok results) (member : item ∈ items) :
    ∃ result ∈ results, f item = .ok result := by
  induction items generalizing results with
  | nil => cases member
  | cons first items ih =>
      simp only [List.mapM_cons, bind_ok, pure_ok] at mapped
      obtain ⟨result, read, rest, tail, rfl⟩ := mapped
      rcases List.mem_cons.mp member with rfl | later
      · exact ⟨result, List.mem_cons_self, read⟩
      · obtain ⟨made, held, done⟩ := ih tail later
        exact ⟨made, List.mem_cons_of_mem _ held, done⟩

/-- Every item of a mapped list has been read. -/
theorem mapM_reads {items : List α} {f : α → Except ε β} {results : List β} {item : α}
    (mapped : items.mapM f = .ok results) (member : item ∈ items) :
    ∃ result, f item = .ok result := by
  obtain ⟨result, _, read⟩ := mapM_mem mapped member
  exact ⟨result, read⟩

theorem mapM_length {items : List α} {f : α → Except ε β} {results : List β}
    (mapped : items.mapM f = .ok results) : results.length = items.length := by
  induction items generalizing results with
  | nil =>
      cases mapped
      rfl
  | cons item items ih =>
      rw [List.mapM_cons] at mapped
      obtain ⟨first, _, rest⟩ := bind_ok.mp mapped
      obtain ⟨later, tail, made⟩ := bind_ok.mp rest
      cases made
      rw [List.length_cons, List.length_cons, ih tail]

/-- A list maps where each of its items does. -/
theorem mapM_succeeds {items : List α} {f : α → Except ε β}
    (each : ∀ item ∈ items, ∃ result, f item = .ok result) :
    ∃ results, items.mapM f = .ok results := by
  induction items with
  | nil => exact ⟨[], rfl⟩
  | cons item items ih =>
      obtain ⟨first, read⟩ := each item List.mem_cons_self
      obtain ⟨rest, tail⟩ := ih fun other held => each other (List.mem_cons_of_mem _ held)
      exact ⟨first :: rest, by simp [List.mapM_cons, read, tail, bind, Except.bind, pure, Except.pure]⟩

/-- A fold succeeds where each of its steps does. -/
theorem foldlM_succeeds {step : β → α → Except ε β} {items : List α}
    (each : ∀ state, ∀ item ∈ items, ∃ next, step state item = .ok next) (start : β) :
    ∃ final, items.foldlM step start = .ok final := by
  induction items generalizing start with
  | nil => exact ⟨start, rfl⟩
  | cons item items ih =>
      obtain ⟨middle, first⟩ := each start item List.mem_cons_self
      obtain ⟨final, rest⟩ := ih (fun state other held =>
        each state other (List.mem_cons_of_mem _ held)) middle
      exact ⟨final, by simp only [List.foldlM_cons, bind_ok]; exact ⟨middle, first, rest⟩⟩

/-- What every step of a fold preserves holds at its end. -/
theorem foldlM_invariant {Inv : β → Prop} {step : β → α → Except ε β} {items : List α}
    (preserved : ∀ state item next, item ∈ items → Inv state → step state item = .ok next →
      Inv next)
    {start final : β} (holds : Inv start) (folded : items.foldlM step start = .ok final) :
    Inv final := by
  induction items generalizing start with
  | nil =>
      simp only [List.foldlM_nil, pure_ok] at folded
      exact folded ▸ holds
  | cons item items ih =>
      simp only [List.foldlM_cons, bind_ok] at folded
      obtain ⟨middle, first, rest⟩ := folded
      exact ih (fun state item next member => preserved state item next
        (List.mem_cons_of_mem _ member)) (preserved _ _ _ List.mem_cons_self holds first) rest

/-- As `foldlM_invariant`, where a step may be judged in the state the items before it
have left. -/
theorem foldlM_history (Inv : β → Prop) {step : β → α → Except ε β} {items : List α}
    {start final : β}
    (preserved : ∀ before item after state next, items = before ++ item :: after →
      before.foldlM step start = .ok state → Inv state → step state item = .ok next → Inv next)
    (holds : Inv start) (folded : items.foldlM step start = .ok final) : Inv final := by
  have walk : ∀ rest before state, items = before ++ rest →
      before.foldlM step start = .ok state → Inv state → rest.foldlM step state = .ok final →
      Inv final := by
    intro rest
    induction rest with
    | nil =>
        intro before state _ _ kept done
        simp only [List.foldlM_nil, pure_ok] at done
        exact done ▸ kept
    | cons item rest ih =>
        intro before state split reached kept done
        simp only [List.foldlM_cons, bind_ok] at done
        obtain ⟨next, first, later⟩ := done
        refine ih (before ++ [item]) next (by rw [split, List.append_assoc]; rfl) ?_
          (preserved before item rest state next split reached kept first) later
        simp only [List.foldlM_append, bind_ok]
        exact ⟨state, reached, by simp only [List.foldlM_cons, List.foldlM_nil, bind_ok, pure_ok]
                                  exact ⟨next, first, rfl⟩⟩
  exact walk items [] start rfl rfl holds folded

/-- A fold succeeds exactly when each step does in the state the items before it have left. -/
theorem foldlM_succeeds_iff {step : β → α → Except ε β} {items : List α} {start : β} :
    (∃ final, items.foldlM step start = .ok final) ↔
      ∀ before item after state, items = before ++ item :: after →
        before.foldlM step start = .ok state → ∃ next, step state item = .ok next := by
  constructor
  · rintro ⟨final, folded⟩ before item after state rfl reached
    simp only [List.foldlM_append, List.foldlM_cons, bind_ok] at folded
    obtain ⟨middle, first, next, done, _⟩ := folded
    rw [reached] at first
    cases first
    exact ⟨next, done⟩
  · intro each
    have walk : ∀ rest before state, items = before ++ rest →
        before.foldlM step start = .ok state → ∃ final, rest.foldlM step state = .ok final := by
      intro rest
      induction rest with
      | nil => exact fun _ state _ _ => ⟨state, rfl⟩
      | cons item rest ih =>
          intro before state split reached
          obtain ⟨next, done⟩ := each before item rest state split reached
          have extended : (before ++ [item]).foldlM step start = .ok next := by
            simp only [List.foldlM_append, List.foldlM_cons, List.foldlM_nil, bind_ok, pure_ok]
            exact ⟨state, reached, next, done, rfl⟩
          obtain ⟨final, folded⟩ := ih (before ++ [item]) next
            (by rw [split, List.append_assoc]; rfl) extended
          exact ⟨final, by simp only [List.foldlM_cons, bind_ok]; exact ⟨next, done, folded⟩⟩
    exact walk items [] start rfl rfl

/-- What every step from a reached state preserves holds at the end. -/
theorem foldlM_reached {Inv : β → Prop} {step : β → α → Except ε β}
    {items : List α} {start final : β}
    (preserved : ∀ front item rest state next, items = front ++ item :: rest →
      front.foldlM step start = .ok state → Inv state → step state item = .ok next → Inv next)
    (holds : Inv start) (folded : items.foldlM step start = .ok final) : Inv final := by
  induction items using List.reverseRecOn generalizing final with
  | nil =>
      simp only [List.foldlM_nil, pure_ok] at folded
      exact folded ▸ holds
  | append_singleton items item ih =>
      rw [List.foldlM_append, bind_ok] at folded
      obtain ⟨middle, first, last⟩ := folded
      simp only [List.foldlM_cons, List.foldlM_nil, bind_pure] at last
      refine preserved items item [] middle final rfl first (ih ?_ first) last
      intro front other rest state next split
      refine preserved front other (rest ++ [item]) state next ?_
      rw [split, List.append_assoc, List.cons_append]

end Result
