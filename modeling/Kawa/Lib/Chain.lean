import Kawa.Lib.Latest

/-!
Numbered hash chains, one for each origin, kept side by side in one list of rows.
A row either begins its chain or names the hash of the row one position before it.
-/

/-- How a row sits in its chain. -/
structure Links (ρ ο η : Type) where
  origin : ρ → ο
  seq : ρ → Int
  prev : ρ → Option η
  hash : ρ → η

namespace Links

variable {ρ ο η : Type} (links : Links ρ ο η)

/-- `before` holds the position under `row`, and `row` names its hash. -/
structure Precedes (before row : ρ) : Prop where
  origin : links.origin before = links.origin row
  seq : links.seq row = links.seq before + 1
  prev : links.prev row = some (links.hash before)

structure Chained (rows : List ρ) : Prop where
  placed : ∀ left ∈ rows, ∀ right ∈ rows, links.origin left = links.origin right →
    links.seq left = links.seq right → left = right
  positive : ∀ row ∈ rows, 1 ≤ links.seq row
  linked : ∀ row ∈ rows, (links.seq row = 1 ∧ links.prev row = none) ∨
    ∃ before ∈ rows, links.Precedes before row

section Rewriting

variable {links} {rows : List ρ}

theorem chained_nil : links.Chained [] where
  placed := by simp
  positive := by simp
  linked := by simp

/-- Rewriting what is not part of the links keeps every chain. -/
theorem Chained.map (chained : links.Chained rows) {f : ρ → ρ}
    (keeps : ∀ row, links.origin (f row) = links.origin row ∧ links.seq (f row) = links.seq row ∧
      links.prev (f row) = links.prev row ∧ links.hash (f row) = links.hash row) :
    links.Chained (rows.map f) := by
  refine ⟨?_, ?_, ?_⟩
  · intro left leftHeld right rightHeld origin seq
    obtain ⟨oldLeft, leftOld, rfl⟩ := List.mem_map.mp leftHeld
    obtain ⟨oldRight, rightOld, rfl⟩ := List.mem_map.mp rightHeld
    rw [(keeps _).1, (keeps _).1] at origin
    rw [(keeps _).2.1, (keeps _).2.1] at seq
    rw [chained.placed oldLeft leftOld oldRight rightOld origin seq]
  · intro row member
    obtain ⟨old, held, rfl⟩ := List.mem_map.mp member
    rw [(keeps _).2.1]
    exact chained.positive old held
  · intro row member
    obtain ⟨old, held, rfl⟩ := List.mem_map.mp member
    rw [(keeps _).2.1, (keeps _).2.2.1]
    rcases chained.linked old held with first | ⟨before, inRows, precedes⟩
    · exact .inl first
    · refine .inr ⟨f before, List.mem_map_of_mem inRows, ?_⟩
      exact {
        origin := by rw [(keeps _).1, (keeps _).1]; exact precedes.origin
        seq := by rw [(keeps _).2.1, (keeps _).2.1]; exact precedes.seq
        prev := by rw [(keeps _).2.2.1, (keeps _).2.2.2]; exact precedes.prev }

end Rewriting

section Agreement

variable {links} {rows : List ρ}

/-- Where two chains share a hash they share everything below it, if a hash binds the
position and the predecessor of its row. -/
theorem Chained.agree_below {others : List ρ} (chained : links.Chained rows)
    (chainedOthers : links.Chained others)
    (binding : ∀ left ∈ rows, ∀ right ∈ others, links.hash left = links.hash right →
      links.seq left = links.seq right ∧ links.prev left = links.prev right)
    {left right : ρ} (leftHeld : left ∈ rows) (rightHeld : right ∈ others)
    (origin : links.origin left = links.origin right) (hash : links.hash left = links.hash right)
    {lower lowerOther : ρ} (lowerHeld : lower ∈ rows) (lowerOtherHeld : lowerOther ∈ others)
    (lowerOrigin : links.origin lower = links.origin left)
    (lowerOtherOrigin : links.origin lowerOther = links.origin left)
    (sameSeq : links.seq lower = links.seq lowerOther) (below : links.seq lower ≤ links.seq left) :
    links.hash lower = links.hash lowerOther := by
  obtain ⟨gap, distance⟩ : ∃ gap : Nat, links.seq left - links.seq lower ≤ gap :=
    ⟨(links.seq left - links.seq lower).toNat, by omega⟩
  induction gap generalizing left right with
  | zero =>
      obtain ⟨seq, _⟩ := binding left leftHeld right rightHeld hash
      rw [chained.placed lower lowerHeld left leftHeld lowerOrigin (by omega),
        chainedOthers.placed lowerOther lowerOtherHeld right rightHeld
          (lowerOtherOrigin.trans origin) (by omega)]
      exact hash
  | succ gap ih =>
      obtain ⟨seq, prev⟩ := binding left leftHeld right rightHeld hash
      by_cases here : links.seq lower = links.seq left
      · rw [chained.placed lower lowerHeld left leftHeld lowerOrigin here,
          chainedOthers.placed lowerOther lowerOtherHeld right rightHeld
            (lowerOtherOrigin.trans origin) (by omega)]
        exact hash
      · have bottom := chained.positive lower lowerHeld
        rcases chained.linked left leftHeld with ⟨first, _⟩ | ⟨before, held, precedes⟩
        · omega
        · rcases chainedOthers.linked right rightHeld with ⟨first, _⟩ | ⟨beforeOther, heldOther,
            precedesOther⟩
          · omega
          · have step := precedes.seq
            have sameHash : links.hash before = links.hash beforeOther := by
              have := precedes.prev.symm.trans (prev.trans precedesOther.prev)
              exact Option.some.inj this
            refine ih held heldOther ?_ sameHash ?_ ?_ (by omega) (by omega)
            · rw [precedes.origin, precedesOther.origin]
              exact origin
            · rw [precedes.origin]
              exact lowerOrigin
            · rw [precedes.origin]
              exact lowerOtherOrigin

end Agreement

variable [DecidableEq ο]

/-- The last row of one chain. -/
def head (rows : List ρ) (origin : ο) : Option ρ :=
  Latest.latest links.seq (rows.filter (links.origin · = origin))

/-- `row` extends its chain by one position. -/
def Follows (rows : List ρ) (row : ρ) : Prop :=
  match links.head rows (links.origin row) with
  | none => links.seq row = 1 ∧ links.prev row = none
  | some last => links.seq row = links.seq last + 1 ∧ links.prev row = some (links.hash last)

variable {links} {rows : List ρ}

theorem head_mem {origin : ο} {last : ρ} (found : links.head rows origin = some last) :
    last ∈ rows ∧ links.origin last = origin := by
  have member := List.mem_filter.mp (Latest.latest_mem found)
  exact ⟨member.1, of_decide_eq_true member.2⟩

theorem le_head {origin : ο} {last row : ρ} (found : links.head rows origin = some last)
    (member : row ∈ rows) (same : links.origin row = origin) : links.seq row ≤ links.seq last :=
  Latest.le_latest found row (List.mem_filter.mpr ⟨member, decide_eq_true same⟩)

theorem head_eq_none {origin : ο} :
    links.head rows origin = none ↔ ∀ row ∈ rows, links.origin row ≠ origin := by
  simp [head, Latest.latest_eq_none]

theorem head_map {f : ρ → ρ} (origin : ∀ row, links.origin (f row) = links.origin row)
    (seq : ∀ row, links.seq (f row) = links.seq row) (named : ο) :
    links.head (rows.map f) named = (links.head rows named).map f := by
  unfold head
  rw [List.filter_map, ← Latest.latest_map seq]
  congr 2
  apply List.filter_congr
  intro row _
  simp [origin]

theorem Chained.head_eq (chained : links.Chained rows) {origin : ο} {last : ρ} :
    links.head rows origin = some last ↔ last ∈ rows ∧ links.origin last = origin ∧
      ∀ row ∈ rows, links.origin row = origin → links.seq row ≤ links.seq last := by
  constructor
  · intro found
    obtain ⟨member, named⟩ := head_mem found
    exact ⟨member, named, fun row held same => le_head found held same⟩
  · rintro ⟨member, named, upper⟩
    cases found : links.head rows origin with
    | none => exact absurd named (head_eq_none.mp found last member)
    | some other =>
        obtain ⟨held, otherNamed⟩ := head_mem found
        have same := le_antisymm (upper other held otherNamed) (le_head found member named)
        rw [chained.placed other held last member (otherNamed.trans named.symm) same]

theorem Follows.above {row held : ρ} (follows : links.Follows rows row) (member : held ∈ rows)
    (same : links.origin held = links.origin row) : links.seq held < links.seq row := by
  unfold Follows at follows
  split at follows
  · rename_i empty
    exact absurd same (head_eq_none.mp empty held member)
  · rename_i last found
    have upper := le_head found member same
    omega

/-- Extending a chain at its head keeps every chain. -/
theorem Chained.append (chained : links.Chained rows) {row : ρ} (follows : links.Follows rows row) :
    links.Chained (rows ++ [row]) := by
  refine ⟨?_, ?_, ?_⟩
  · intro left leftHeld right rightHeld origin seq
    rcases List.mem_append.mp leftHeld with leftOld | leftNew <;>
      rcases List.mem_append.mp rightHeld with rightOld | rightNew
    · exact chained.placed left leftOld right rightOld origin seq
    · obtain rfl := List.mem_singleton.mp rightNew
      have := follows.above leftOld origin
      omega
    · obtain rfl := List.mem_singleton.mp leftNew
      have := follows.above rightOld origin.symm
      omega
    · rw [List.mem_singleton.mp leftNew, List.mem_singleton.mp rightNew]
  · intro held member
    rcases List.mem_append.mp member with old | new
    · exact chained.positive held old
    · obtain rfl := List.mem_singleton.mp new
      unfold Follows at follows
      split at follows
      · omega
      · rename_i last found
        have := chained.positive last (head_mem found).1
        omega
  · intro held member
    rcases List.mem_append.mp member with old | new
    · rcases chained.linked held old with first | ⟨before, inRows, precedes⟩
      · exact .inl first
      · exact .inr ⟨before, List.mem_append_left _ inRows, precedes⟩
    · obtain rfl := List.mem_singleton.mp new
      unfold Follows at follows
      split at follows
      · exact .inl follows
      · rename_i last found
        obtain ⟨inRows, named⟩ := head_mem found
        exact .inr ⟨last, List.mem_append_left _ inRows, named, follows.1, follows.2⟩

/-- After the extension its row is the head of its chain, and no other head has moved. -/
theorem Chained.head_append (chained : links.Chained rows) {row : ρ}
    (follows : links.Follows rows row) (origin : ο) :
    links.head (rows ++ [row]) origin =
      if links.origin row = origin then some row else links.head rows origin := by
  split
  · rename_i same
    rw [(chained.append follows).head_eq]
    refine ⟨List.mem_append_right _ List.mem_cons_self, same, ?_⟩
    intro held member named
    rcases List.mem_append.mp member with old | new
    · exact le_of_lt (follows.above old (named.trans same.symm))
    · rw [List.mem_singleton.mp new]
  · rename_i other
    unfold head
    rw [List.filter_append]
    simp [other]

/-- Below a held position every position is held. -/
theorem Chained.below (chained : links.Chained rows) {row : ρ} (member : row ∈ rows) :
    ∀ k, 1 ≤ k → k ≤ links.seq row →
      ∃ held ∈ rows, links.origin held = links.origin row ∧ links.seq held = k := by
  intro k positive
  obtain ⟨gap, distance⟩ : ∃ gap : Nat, links.seq row - k ≤ gap :=
    ⟨(links.seq row - k).toNat, by omega⟩
  induction gap generalizing row with
  | zero =>
      intro upper
      exact ⟨row, member, rfl, by omega⟩
  | succ gap ih =>
      intro upper
      by_cases here : links.seq row = k
      · exact ⟨row, member, rfl, here⟩
      · rcases chained.linked row member with ⟨first, _⟩ | ⟨before, held, precedes⟩
        · omega
        · have step := precedes.seq
          obtain ⟨found, inRows, named, at_k⟩ := ih held (by omega) (by omega)
          exact ⟨found, inRows, named.trans precedes.origin, at_k⟩

/-- One chain holds exactly the positions `1..n`. -/
theorem Chained.positions (chained : links.Chained rows) (origin : ο) :
    ∃ n : Nat, ∀ k : Int,
      (∃ row ∈ rows, links.origin row = origin ∧ links.seq row = k) ↔ 1 ≤ k ∧ k ≤ n := by
  cases found : links.head rows origin with
  | none =>
      refine ⟨0, fun k => ?_⟩
      constructor
      · rintro ⟨row, member, named, _⟩
        exact absurd named (head_eq_none.mp found row member)
      · omega
  | some last =>
      obtain ⟨member, named⟩ := head_mem found
      have bottom := chained.positive last member
      refine ⟨(links.seq last).toNat, fun k => ?_⟩
      constructor
      · rintro ⟨row, held, same, rfl⟩
        have upper := le_head found held same
        have lower := chained.positive row held
        omega
      · rintro ⟨lower, upper⟩
        obtain ⟨row, held, same, at_k⟩ := chained.below member k lower (by omega)
        exact ⟨row, held, same.trans named, at_k⟩

end Links
