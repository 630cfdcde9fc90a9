import Kawa.Relations

/-!
When the bounded walk over relations may be believed.  Unless a cap is hit it returns what lies
within its depth; a total cap that is reached with the last row of a level ends the walk
without a word.
-/

namespace Kawa

namespace Relations

open Result Discovery

/-! ## What lies within a depth -/

/-- A path from the start over rows of the table; none of its nodes is of an unknown kind. -/
inductive Reaches (relations : RelationTable) (start : Subject) : Nat → Subject → Prop
  | start (known : start.1 ≠ "unknown") : Reaches relations start 0 start
  | step {n : Nat} {node next : Subject} {row : Relation} (path : Reaches relations start n node)
      (held : row ∈ relations) (near : node ∈ row.endpoints) (far : next ∈ row.endpoints)
      (known : next.1 ≠ "unknown") : Reaches relations start (n + 1) next

/-- A row that the walk is asked for. -/
def InReach (relations : RelationTable) (start : Subject) (depth : Nat) (row : Relation) : Prop :=
  row ∈ relations ∧ ∃ node ∈ row.endpoints, ∃ n < depth, Reaches relations start n node

/-- The truth about a traversal. -/
structure Honest (relations : RelationTable) (start : Subject) (depth : Nat)
    (result : Traversal) : Prop where
  complete : result.isTruncated = false → result.edges.Nodup ∧
    ∀ row, row ∈ result.edges ↔ InReach relations start depth row
  reported : ∀ row, InReach relations start depth row → row ∉ result.edges →
    result.isTruncated = true

/-- The subjects next to one that is expanded. -/
def neighbours (relations : RelationTable) (subject : Subject) : List Subject :=
  if subject.1 = "unknown" then [] else (edgesAt relations subject).flatMap Relation.endpoints

/-- The rows at some subjects, as far as these are expanded. -/
def brought (relations : RelationTable) (subjects : List Subject) : List Relation :=
  relations.rows.filter fun row =>
    subjects.any fun subject => subject.1 != "unknown" && row.endpoints.contains subject

/-- The subjects within so many steps, in the order in which an uncapped walk meets them. -/
def met (relations : RelationTable) (start : Subject) (steps : Nat) : List Subject :=
  discovered (neighbours relations) start steps

/-- The total cap is reached with the rows of the last subject of a level, and no sooner; rows
of a deeper level are missing. -/
structure SilentCut (relations : RelationTable) (start : Subject) (depth level : Nat) : Prop where
  fans : ∀ subject ∈ met relations start level, subject.1 ≠ "unknown" →
    (matching relations subject).length ≤ maxFanOut
  before : (brought relations (met relations start level).dropLast).length < maxTotal
  full : (brought relations (met relations start level)).length = maxTotal
  missed : ∃ row, InReach relations start depth row ∧
    row ∉ brought relations (met relations start level)

section Reach

variable {relations : RelationTable} {start subject : Subject} {row : Relation}

theorem mem_matching : row ∈ matching relations subject ↔
    row ∈ relations ∧ subject ∈ row.endpoints := by
  unfold matching
  rw [List.mem_filter, decide_eq_true_iff, Table.mem_rows]

theorem edgesAt_perm : (edgesAt relations subject).Perm (matching relations subject) :=
  List.mergeSort_perm _ _

theorem mem_edgesAt : row ∈ edgesAt relations subject ↔
    row ∈ relations ∧ subject ∈ row.endpoints := by
  rw [edgesAt_perm.mem_iff, mem_matching]

theorem mem_neighbours {next : Subject} : next ∈ neighbours relations subject ↔
    subject.1 ≠ "unknown" ∧
      ∃ row ∈ relations, subject ∈ row.endpoints ∧ next ∈ row.endpoints := by
  unfold neighbours
  by_cases unknown : subject.1 = "unknown"
  · rw [if_pos unknown]
    simp [unknown]
  · rw [if_neg unknown, List.mem_flatMap]
    constructor
    · rintro ⟨row, listed, far⟩
      obtain ⟨held, near⟩ := mem_edgesAt.mp listed
      exact ⟨unknown, row, held, near, far⟩
    · rintro ⟨_, row, held, near, far⟩
      exact ⟨row, mem_edgesAt.mpr ⟨held, near⟩, far⟩

theorem mem_brought {subjects : List Subject} : row ∈ brought relations subjects ↔
    row ∈ relations ∧
      ∃ subject ∈ subjects, subject.1 ≠ "unknown" ∧ subject ∈ row.endpoints := by
  simp only [brought, List.mem_filter, List.any_eq_true, Bool.and_eq_true, bne_iff_ne,
    List.contains_iff_mem, Table.mem_rows]

theorem brought_nodup (subjects : List Subject) : (brought relations subjects).Nodup :=
  relations.rows_nodup.filter _

theorem brought_subset {fewer more : List Subject} (among : fewer ⊆ more) :
    brought relations fewer ⊆ brought relations more := by
  intro row listed
  obtain ⟨held, subject, asked, rest⟩ := mem_brought.mp listed
  exact mem_brought.mpr ⟨held, subject, among asked, rest⟩

theorem brought_length_le {fewer more : List Subject} (among : fewer ⊆ more) :
    (brought relations fewer).length ≤ (brought relations more).length :=
  ((brought_nodup fewer).subperm (brought_subset among)).length_le

theorem reaches_iff {n : Nat} : Reaches relations start n subject ↔
    Path (neighbours relations) start n subject ∧ subject.1 ≠ "unknown" := by
  constructor
  · intro reach
    induction reach with
    | start known => exact ⟨.start, known⟩
    | step _ held near far known ih =>
        exact ⟨.step ih.1 (mem_neighbours.mpr ⟨ih.2, _, held, near, far⟩), known⟩
  · rintro ⟨path, known⟩
    induction path with
    | start => exact .start known
    | step path adjacent ih =>
        obtain ⟨nearKnown, row, held, near, far⟩ := mem_neighbours.mp adjacent
        exact .step (ih nearKnown) held near far known

/-- What lies within a depth is what the subjects within one step less bring. -/
theorem inReach_iff {steps : Nat} : InReach relations start (steps + 1) row ↔
    row ∈ brought relations (met relations start steps) := by
  unfold InReach met
  rw [mem_brought]
  refine and_congr_right fun held => ?_
  constructor
  · rintro ⟨node, near, n, below, reach⟩
    obtain ⟨path, known⟩ := reaches_iff.mp reach
    exact ⟨node, mem_discovered.mpr ⟨n, by omega, path⟩, known, near⟩
  · rintro ⟨node, listed, known, near⟩
    obtain ⟨n, bound, path⟩ := mem_discovered.mp listed
    exact ⟨node, near, n, by omega, reaches_iff.mpr ⟨path, known⟩⟩

end Reach

/-! ## Rows of one subject -/

section Walks

variable {relations : RelationTable} {base : List Subject} {walk next : Walk} {depth : Nat}

@[simp] theorem meet_edges (subject : Subject) : (walk.meet subject).edges = walk.edges := by
  unfold Walk.meet
  split <;> rfl

@[simp] theorem meet_seenEdges (subject : Subject) :
    (walk.meet subject).seenEdges = walk.seenEdges := by
  unfold Walk.meet
  split <;> rfl

@[simp] theorem meet_isTruncated (subject : Subject) :
    (walk.meet subject).isTruncated = walk.isTruncated := by
  unfold Walk.meet
  split <;> rfl

theorem meet_seenNodes (subject : Subject) :
    (walk.meet subject).seenNodes = extend walk.seenNodes [subject] := by
  unfold Walk.meet
  rw [extend_cons, extend_nil]
  split <;> rfl

theorem meet_split (subject : Subject) (split : walk.seenNodes = base ++ walk.nextFrontier) :
    (walk.meet subject).seenNodes = base ++ (walk.meet subject).nextFrontier := by
  unfold Walk.meet
  split
  · exact split
  · rw [split, List.append_assoc]

@[simp] theorem add_edges (row : Relation) : (walk.add row).edges = walk.edges ++ [row] := by
  simp [Walk.add]

@[simp] theorem add_seenEdges (row : Relation) :
    (walk.add row).seenEdges = walk.seenEdges ++ [row.key] := by
  simp [Walk.add]

@[simp] theorem add_isTruncated (row : Relation) :
    (walk.add row).isTruncated = walk.isTruncated := by
  simp [Walk.add]

theorem add_seenNodes (row : Relation) :
    (walk.add row).seenNodes = extend walk.seenNodes row.endpoints := by
  unfold Walk.add Relation.endpoints
  rw [meet_seenNodes, meet_seenNodes, ← extend_append]
  rfl

/-- What the books of a walk have in common, whatever it has read. -/
structure Tidy (relations : RelationTable) (base : List Subject) (walk : Walk) : Prop where
  keys : walk.seenEdges = walk.edges.map Relation.key
  held : ∀ row ∈ walk.edges, row ∈ relations
  distinct : walk.edges.Nodup
  nodes : ∀ row ∈ walk.edges, row.endpoints ⊆ walk.seenNodes
  split : walk.seenNodes = base ++ walk.nextFrontier

theorem Tidy.mem_seenEdges (tidy : Tidy relations base walk) {row : Relation}
    (held : row ∈ relations) : row.key ∈ walk.seenEdges ↔ row ∈ walk.edges := by
  rw [tidy.keys, List.mem_map]
  constructor
  · rintro ⟨other, listed, same⟩
    rwa [← Table.eq_of_key (tidy.held other listed) held same]
  · exact fun listed => ⟨row, listed, rfl⟩

theorem Tidy.add (tidy : Tidy relations base walk) {row : Relation} (held : row ∈ relations)
    (fresh : row ∉ walk.edges) : Tidy relations base (walk.add row) where
  keys := by simp [tidy.keys]
  held other listed := by
    rw [add_edges, List.mem_append, List.mem_singleton] at listed
    rcases listed with old | rfl
    · exact tidy.held other old
    · exact held
  distinct := by
    rw [add_edges]
    exact List.nodup_append.mpr ⟨tidy.distinct, List.nodup_singleton row, by
      rintro left listed right only rfl
      exact fresh (List.mem_singleton.mp only ▸ listed)⟩
  nodes other listed := by
    rw [add_edges, List.mem_append, List.mem_singleton] at listed
    rw [add_seenNodes]
    intro node end_
    rcases listed with old | rfl
    · exact mem_extend.mpr (.inl (tidy.nodes other old end_))
    · exact mem_extend.mpr (.inr end_)
  split := by
    unfold Walk.add
    exact meet_split _ (meet_split _ tidy.split)

/-- The scan without the total cap. -/
def Walk.absorb (walk : Walk) (rows : List Relation) : Walk :=
  rows.foldl (fun walk row => if walk.seenEdges.contains row.key then walk else walk.add row) walk

theorem absorb_cons (row : Relation) (rows : List Relation) : walk.absorb (row :: rows) =
    (if row.key ∈ walk.seenEdges then walk else walk.add row).absorb rows := by
  simp only [Walk.absorb, List.foldl_cons, List.contains_iff_mem]

theorem absorb_length_le (rows : List Relation) :
    walk.edges.length ≤ (walk.absorb rows).edges.length := by
  induction rows generalizing walk with
  | nil => exact le_refl _
  | cons row rows ih =>
      rw [absorb_cons]
      refine le_trans ?_ ih
      split
      · exact le_refl _
      · simp

@[simp] theorem absorb_isTruncated (rows : List Relation) :
    (walk.absorb rows).isTruncated = walk.isTruncated := by
  induction rows generalizing walk with
  | nil => rfl
  | cons row rows ih =>
      rw [absorb_cons, ih]
      split <;> simp

theorem scanRows_fits {rows : List Relation}
    (fits : (walk.absorb rows).edges.length ≤ maxTotal) :
    scanRows depth walk rows = walk.absorb rows := by
  induction rows generalizing walk with
  | nil => rfl
  | cons row rows ih =>
      rw [absorb_cons] at fits ⊢
      unfold scanRows
      by_cases seen : row.key ∈ walk.seenEdges
      · rw [if_pos seen] at fits ⊢
        rw [if_pos seen]
        exact ih fits
      · rw [if_neg seen] at fits ⊢
        rw [if_neg seen]
        have longer := @absorb_length_le (walk.add row) rows
        rw [add_edges, List.length_append, List.length_singleton] at longer
        rw [if_neg (by omega)]
        exact ih fits

/-- A scan that would read past the total cap says so. -/
theorem scanRows_cut {rows : List Relation} (room : walk.edges.length ≤ maxTotal)
    (over_ : maxTotal < (walk.absorb rows).edges.length) :
    (scanRows depth walk rows).isTruncated = true := by
  induction rows generalizing walk with
  | nil => exact absurd over_ (not_lt.mpr room)
  | cons row rows ih =>
      rw [absorb_cons] at over_
      unfold scanRows
      by_cases seen : row.key ∈ walk.seenEdges
      · rw [if_pos seen] at over_ ⊢
        exact ih room over_
      · rw [if_neg seen] at over_ ⊢
        by_cases cap : maxTotal ≤ walk.edges.length
        · rw [if_pos cap]
          rfl
        · rw [if_neg cap]
          refine ih ?_ over_
          rw [add_edges, List.length_append, List.length_singleton]
          omega

theorem scanRows_truncated {rows : List Relation} (cut : walk.isTruncated = true) :
    (scanRows depth walk rows).isTruncated = true := by
  induction rows generalizing walk with
  | nil => exact cut
  | cons row rows ih =>
      unfold scanRows
      split
      · exact ih cut
      · split
        · rfl
        · exact ih (by rw [add_isTruncated]; exact cut)

/-- What a scan of rows of the table leaves. -/
structure Absorbed (relations : RelationTable) (base : List Subject) (walk : Walk)
    (rows : List Relation) (next : Walk) : Prop where
  tidy : Tidy relations base next
  edges : ∀ row, row ∈ next.edges ↔ row ∈ walk.edges ∨ row ∈ rows
  seenNodes : next.seenNodes = extend walk.seenNodes (rows.flatMap Relation.endpoints)

theorem Tidy.absorb (tidy : Tidy relations base walk) {rows : List Relation}
    (held : ∀ row ∈ rows, row ∈ relations) :
    Absorbed relations base walk rows (walk.absorb rows) := by
  induction rows generalizing walk with
  | nil => exact ⟨tidy, fun row => by simp [Walk.absorb], rfl⟩
  | cons row rows ih =>
      have rest : ∀ other ∈ rows, other ∈ relations := fun other later =>
        held other (List.mem_cons_of_mem _ later)
      have own := held row List.mem_cons_self
      rw [absorb_cons]
      by_cases seen : row.key ∈ walk.seenEdges
      · rw [if_pos seen]
        have listed := (tidy.mem_seenEdges own).mp seen
        obtain ⟨tidyNext, edges, seenNodes⟩ := ih tidy rest
        refine ⟨tidyNext, fun other => ?_, ?_⟩
        · rw [edges, List.mem_cons]
          constructor
          · tauto
          · rintro (old | rfl | later)
            · exact .inl old
            · exact .inl listed
            · exact .inr later
        · rw [seenNodes, List.flatMap_cons, extend_append,
            extend_of_subset (tidy.nodes row listed)]
      · rw [if_neg seen]
        have fresh : row ∉ walk.edges := fun listed => seen ((tidy.mem_seenEdges own).mpr listed)
        obtain ⟨tidyNext, edges, seenNodes⟩ := ih (tidy.add own fresh) rest
        refine ⟨tidyNext, fun other => ?_, ?_⟩
        · rw [edges, add_edges, List.mem_append, List.mem_singleton, List.mem_cons]
          tauto
        · rw [seenNodes, add_seenNodes, List.flatMap_cons, extend_append]

/-! ## Subjects of one level -/

/-- A subject is expanded without a cap. -/
def Walk.expand (relations : RelationTable) (walk : Walk) (subject : Subject) : Walk :=
  if subject.1 = "unknown" then walk else walk.absorb (edgesAt relations subject)

/-- The books after some subjects have been expanded. -/
structure Walked (relations : RelationTable) (base asked : List Subject) (walk : Walk) : Prop
    extends Tidy relations base walk where
  edges : ∀ row, row ∈ walk.edges ↔ row ∈ brought relations asked

theorem Walked.length_eq {asked : List Subject} (walked : Walked relations base asked walk) :
    walk.edges.length = (brought relations asked).length :=
  ((List.perm_ext_iff_of_nodup walked.distinct (brought_nodup asked)).mpr
    walked.edges).length_eq

theorem expand_isTruncated (subject : Subject) :
    (walk.expand relations subject).isTruncated = walk.isTruncated := by
  unfold Walk.expand
  split
  · rfl
  · exact absorb_isTruncated _

theorem Walked.expand {asked : List Subject} (walked : Walked relations base asked walk)
    (subject : Subject) :
    Walked relations base (asked ++ [subject]) (walk.expand relations subject) ∧
      (walk.expand relations subject).seenNodes =
        extend walk.seenNodes (neighbours relations subject) := by
  unfold Walk.expand neighbours
  have more : ∀ row, row ∈ brought relations (asked ++ [subject]) ↔
      row ∈ brought relations asked ∨
        row ∈ relations ∧ subject.1 ≠ "unknown" ∧ subject ∈ row.endpoints := by
    intro row
    simp only [mem_brought, List.mem_append, List.mem_singleton, or_and_right, exists_or,
      exists_eq_left, and_or_left]
  by_cases unknown : subject.1 = "unknown"
  · rw [if_pos unknown, if_pos unknown]
    refine ⟨⟨walked.toTidy, fun row => ?_⟩, rfl⟩
    rw [more, walked.edges]
    simp [unknown]
  · rw [if_neg unknown, if_neg unknown]
    obtain ⟨tidy, edges, seenNodes⟩ := walked.toTidy.absorb fun row listed =>
      (@mem_edgesAt relations subject row).mp listed |>.1
    refine ⟨⟨tidy, fun row => ?_⟩, seenNodes⟩
    rw [more, edges, walked.edges, mem_edgesAt]
    simp [unknown]

theorem Walked.expandAll {asked : List Subject} (walked : Walked relations base asked walk)
    (frontier : List Subject) :
    Walked relations base (asked ++ frontier) (frontier.foldl (Walk.expand relations) walk) ∧
      (frontier.foldl (Walk.expand relations) walk).seenNodes =
        extend walk.seenNodes (frontier.flatMap (neighbours relations)) := by
  induction frontier generalizing walk asked with
  | nil =>
      rw [List.append_nil]
      exact ⟨walked, rfl⟩
  | cons subject frontier ih =>
      obtain ⟨first, seen⟩ := walked.expand subject
      obtain ⟨rest, seenNodes⟩ := ih first
      rw [List.append_assoc, List.singleton_append] at rest
      refine ⟨rest, ?_⟩
      rw [List.foldl_cons, seenNodes, seen, List.flatMap_cons, extend_append]

/-- No cap is hit while the subjects are expanded. -/
def Clean (relations : RelationTable) : Walk → List Subject → Prop
  | _, [] => True
  | walk, subject :: frontier =>
      walk.edges.length < maxTotal ∧
        (subject.1 ≠ "unknown" → (matching relations subject).length ≤ maxFanOut) ∧
        (walk.expand relations subject).edges.length ≤ maxTotal ∧
        Clean relations (walk.expand relations subject) frontier

theorem fetchEdges_ok {subject : Subject} {rows : List Relation}
    (fetched : fetchEdges relations subject = .ok rows) : rows = edgesAt relations subject := by
  simp only [fetchEdges, bind_ok, pure_ok] at fetched
  obtain ⟨_, _, rfl⟩ := fetched
  rfl

theorem visitFrontier_truncated {frontier : List Subject} (cut : walk.isTruncated = true)
    (done : visitFrontier relations depth walk frontier = .ok next) : next.isTruncated = true := by
  induction frontier generalizing walk with
  | nil =>
      cases done
      exact cut
  | cons subject frontier ih =>
      unfold visitFrontier at done
      split at done
      · cases done
        rfl
      · split at done
        · exact ih cut done
        · simp only [bind_ok] at done
          obtain ⟨rows, _, done⟩ := done
          refine ih ?_ done
          split
          · exact scanRows_truncated rfl
          · exact scanRows_truncated cut

/-- A level goes untruncated exactly when no cap is hit in it. -/
theorem visitFrontier_clean_iff {frontier : List Subject} (whole : walk.isTruncated = false)
    (room : walk.edges.length ≤ maxTotal)
    (done : visitFrontier relations depth walk frontier = .ok next) :
    (next.isTruncated = false ↔ Clean relations walk frontier) ∧
      (next.isTruncated = false → next = frontier.foldl (Walk.expand relations) walk) := by
  induction frontier generalizing walk with
  | nil =>
      cases done
      exact ⟨⟨fun _ => trivial, fun _ => whole⟩, fun _ => rfl⟩
  | cons subject frontier ih =>
      unfold visitFrontier at done
      unfold Clean
      rw [List.foldl_cons]
      by_cases cap : maxTotal ≤ walk.edges.length
      · rw [if_pos cap] at done
        cases done
        constructor
        · constructor
          · intro none
            cases none
          · rintro ⟨below, _⟩
            exact absurd cap (not_le.mpr below)
        · intro none
          cases none
      · rw [if_neg cap] at done
        have below := not_le.mp cap
        by_cases unknown : subject.1 = "unknown"
        · have same : walk.expand relations subject = walk := if_pos unknown
          rw [if_pos unknown] at done
          rw [same]
          obtain ⟨clean, fold⟩ := ih whole room done
          refine ⟨clean.trans ?_, fold⟩
          exact ⟨fun rest => ⟨below, fun known => absurd unknown known, room, rest⟩,
            fun all => all.2.2.2⟩
        · have expanded : walk.expand relations subject =
              walk.absorb (edgesAt relations subject) := if_neg unknown
          rw [if_neg unknown] at done
          simp only [bind_ok] at done
          obtain ⟨rows, fetched, done⟩ := done
          have rowsAre := fetchEdges_ok fetched
          subst rowsAre
          have count : (edgesAt relations subject).length = (matching relations subject).length :=
            edgesAt_perm.length_eq
          by_cases fans : maxFanOut < (edgesAt relations subject).length
          · rw [if_pos fans] at done
            have cut := visitFrontier_truncated (scanRows_truncated rfl) done
            rw [cut]
            refine ⟨⟨fun none => (by cases none), fun all => ?_⟩, fun none => (by cases none)⟩
            have few := all.2.1 unknown
            omega
          · rw [if_neg fans] at done
            by_cases fits : (walk.expand relations subject).edges.length ≤ maxTotal
            · rw [expanded] at fits
              rw [scanRows_fits fits, ← expanded] at done
              rw [← expanded] at fits
              obtain ⟨clean, fold⟩ := ih ((expand_isTruncated subject).trans whole) fits done
              refine ⟨clean.trans ?_, fold⟩
              exact ⟨fun rest => ⟨below, fun _ => by omega, fits, rest⟩, fun all => all.2.2.2⟩
            · have cut := visitFrontier_truncated
                (scanRows_cut room (by rw [← expanded]; exact not_le.mp fits)) done
              rw [cut]
              exact ⟨⟨fun none => (by cases none), fun all => absurd all.2.2.1 fits⟩,
                fun none => (by cases none)⟩

/-- The caps of a level, in terms of the rows that its subjects bring. -/
theorem clean_iff {asked frontier : List Subject} (walked : Walked relations base asked walk)
    (room : walk.edges.length ≤ maxTotal) : Clean relations walk frontier ↔
      (∀ subject ∈ frontier, subject.1 ≠ "unknown" →
        (matching relations subject).length ≤ maxFanOut) ∧
      (∀ before subject after, frontier = before ++ subject :: after →
        (brought relations (asked ++ before)).length < maxTotal) ∧
      (brought relations (asked ++ frontier)).length ≤ maxTotal := by
  induction frontier generalizing walk asked with
  | nil =>
      rw [walked.length_eq] at room
      simpa [Clean] using room
  | cons subject frontier ih =>
      have first := (walked.expand subject).1
      have own := walked.length_eq
      have grown := first.length_eq
      have shift : ∀ rest : List Subject, asked ++ [subject] ++ rest = asked ++ subject :: rest :=
        fun rest => by rw [List.append_assoc, List.singleton_append]
      unfold Clean
      constructor
      · rintro ⟨below, few, fits, rest⟩
        obtain ⟨fans, prefixes, total⟩ := (ih first fits).mp rest
        refine ⟨fun other listed known => ?_, ?_, ?_⟩
        · rcases List.mem_cons.mp listed with rfl | later
          · exact few known
          · exact fans other later known
        · intro before other after split
          cases before with
          | nil =>
              rw [List.append_nil, ← own]
              exact below
          | cons head before =>
              obtain ⟨rfl, tail⟩ := List.cons.inj split
              rw [← shift]
              exact prefixes before other after tail
        · rw [← shift]
          exact total
      · rintro ⟨fans, prefixes, total⟩
        have below := prefixes [] subject frontier rfl
        rw [List.append_nil, ← own] at below
        rw [← shift] at total
        have fits : (walk.expand relations subject).edges.length ≤ maxTotal := by
          rw [grown]
          exact (brought_length_le (List.subset_append_left _ _)).trans total
        refine ⟨below, fans subject List.mem_cons_self, fits, (ih first fits).mpr ⟨?_, ?_, total⟩⟩
        · exact fun other later => fans other (List.mem_cons_of_mem _ later)
        · intro before other after split
          rw [shift]
          exact prefixes (subject :: before) other after (by rw [split, List.cons_append])

/-! ## Levels -/

variable {start : Subject}

/-- A level that hits no cap. -/
structure CleanLevel (relations : RelationTable) (start : Subject) (level : Nat) : Prop where
  fans : ∀ subject ∈ met relations start level, subject.1 ≠ "unknown" →
    (matching relations subject).length ≤ maxFanOut
  before : (brought relations (met relations start level).dropLast).length < maxTotal
  total : (brought relations (met relations start level)).length ≤ maxTotal

/-- The books between two levels: the subjects that have been met are those that were asked and
those that are asked next. -/
structure BetweenLevels (relations : RelationTable) (start : Subject) (level : Nat) (walk : Walk)
    (asked frontier : List Subject) : Prop where
  whole : walk.isTruncated = false
  walked : Walked relations (met relations start level) asked { walk with nextFrontier := [] }
  seenNodes : walk.seenNodes = met relations start level
  split : met relations start level = asked ++ frontier
  fans : ∀ subject ∈ asked, subject.1 ≠ "unknown" →
    (matching relations subject).length ≤ maxFanOut
  room : walk.edges.length < maxTotal
  nonempty : frontier ≠ []

/-- What is next to a subject that was asked has been met. -/
theorem Walked.neighbours_subset {asked : List Subject}
    (walked : Walked relations base asked walk) {subject : Subject} (listed : subject ∈ asked) :
    neighbours relations subject ⊆ walk.seenNodes := by
  intro node adjacent
  obtain ⟨known, row, held, near, far⟩ := mem_neighbours.mp adjacent
  have inEdges := (walked.edges row).mpr (mem_brought.mpr ⟨held, subject, listed, known, near⟩)
  exact walked.nodes row inEdges far

theorem met_succ {level : Nat} {asked frontier : List Subject}
    (split : met relations start level = asked ++ frontier)
    (known : ∀ subject ∈ asked, neighbours relations subject ⊆ met relations start level) :
    met relations start (level + 1) =
      extend (met relations start level) (frontier.flatMap (neighbours relations)) :=
  discovered_frontier split known

theorem BetweenLevels.clean_iff {level : Nat} {asked frontier : List Subject}
    (between : BetweenLevels relations start level walk asked frontier) :
    Clean relations { walk with nextFrontier := [] } frontier ↔
      CleanLevel relations start level := by
  rw [Relations.clean_iff between.walked between.room.le, ← between.split]
  obtain ⟨front, last, ends⟩ := List.eq_nil_or_concat frontier |>.resolve_left between.nonempty
  have dropped : (met relations start level).dropLast = asked ++ front := by
    rw [between.split, ends, List.concat_eq_append, ← List.append_assoc, List.dropLast_concat]
  constructor
  · rintro ⟨fans, prefixes, total⟩
    refine ⟨fun subject listed known => ?_, ?_, total⟩
    · rw [between.split] at listed
      rcases List.mem_append.mp listed with old | fresh
      · exact between.fans subject old known
      · exact fans subject fresh known
    · rw [dropped]
      exact prefixes front last [] (by rw [ends, List.concat_eq_append])
  · rintro ⟨fans, before, total⟩
    refine ⟨fun subject listed => fans subject ?_, ?_, total⟩
    · rw [between.split]
      exact List.mem_append_right _ listed
    · intro head subject tail cut
      rw [dropped] at before
      -- a proper part of the frontier ends no later than its last subject
      have part : head <+: front := by
        rw [ends, List.concat_eq_append] at cut
        have within : head <+: front ++ [last] := ⟨subject :: tail, cut.symm⟩
        refine List.prefix_of_prefix_length_le within (List.prefix_append front [last]) ?_
        have lengths := congrArg List.length cut
        simp only [List.length_append, List.length_cons, List.length_nil] at lengths
        omega
      refine lt_of_le_of_lt (brought_length_le ?_) before
      exact List.append_subset.mpr ⟨List.subset_append_left asked front,
        fun node listed => List.mem_append_right asked (part.subset listed)⟩

/-- One level: either a cap is reported, or the books are those of the next level. -/
theorem BetweenLevels.visit {level : Nat} {asked frontier : List Subject}
    (between : BetweenLevels relations start level walk asked frontier)
    (done : visitFrontier relations depth { walk with nextFrontier := [] } frontier = .ok next) :
    (¬CleanLevel relations start level ∧ next.isTruncated = true) ∨
      (CleanLevel relations start level ∧ next.isTruncated = false ∧
        Walked relations (met relations start level) (met relations start level) next ∧
        next.seenNodes = met relations start (level + 1)) := by
  have whole : ({ walk with nextFrontier := [] } : Walk).isTruncated = false := between.whole
  obtain ⟨clean, fold⟩ := visitFrontier_clean_iff whole between.room.le done
  rw [between.clean_iff] at clean
  cases truncated : next.isTruncated with
  | true =>
      rw [truncated] at clean
      exact .inl ⟨fun hit => (by cases clean.mpr hit), rfl⟩
  | false =>
      obtain ⟨walked, seenNodes⟩ := between.walked.expandAll frontier
      rw [← fold truncated] at walked seenNodes
      rw [← between.split] at walked
      refine .inr ⟨clean.mp truncated, rfl, walked, ?_⟩
      have known : ∀ subject ∈ asked,
          neighbours relations subject ⊆ met relations start level := by
        intro subject listed
        rw [← between.seenNodes]
        exact between.walked.neighbours_subset listed
      rw [met_succ between.split known, seenNodes]
      change extend walk.seenNodes _ = _
      rw [between.seenNodes]

theorem walkLevels_truncated {levels : Nat} {frontier : List Subject} {final : Walk}
    (cut : walk.isTruncated = true)
    (done : walkLevels relations levels depth walk frontier = .ok final) :
    final.isTruncated = true := by
  induction levels generalizing depth walk frontier with
  | zero =>
      cases done
      exact cut
  | succ levels ih =>
      simp only [walkLevels, bind_ok] at done
      obtain ⟨visited, level, done⟩ := done
      have still := visitFrontier_truncated (by exact cut) level
      split at done
      · rw [pure_ok] at done
        rw [← done]
        exact still
      · exact ih still done

/-- The level at which a walk has ended, and how. -/
structure EndedAt (relations : RelationTable) (start : Subject) (last ended : Nat)
    (final : Walk) : Prop where
  bound : ended < last
  outcome : (¬CleanLevel relations start ended ∧ final.isTruncated = true) ∨
    (CleanLevel relations start ended ∧ final.isTruncated = false ∧ final.edges.Nodup ∧
      (∀ row, row ∈ final.edges ↔ row ∈ brought relations (met relations start ended)) ∧
      (ended + 1 = last ∨ met relations start (ended + 1) = met relations start ended ∨
        maxTotal ≤ (brought relations (met relations start ended)).length))

/-- A level after which the walk goes on. -/
structure GoesOn (relations : RelationTable) (start : Subject) (level : Nat) : Prop where
  clean : CleanLevel relations start level
  grows : met relations start (level + 1) ≠ met relations start level
  room : (brought relations (met relations start level)).length < maxTotal

theorem BetweenLevels.run {levels level : Nat} {asked frontier : List Subject} {final : Walk}
    (between : BetweenLevels relations start level walk asked frontier)
    (done : walkLevels relations (levels + 1) depth walk frontier = .ok final) :
    ∃ ended, level ≤ ended ∧ (∀ earlier, level ≤ earlier → earlier < ended →
      GoesOn relations start earlier) ∧
      EndedAt relations start (level + (levels + 1)) ended final := by
  induction levels generalizing level depth walk asked frontier with
  | zero =>
      simp only [walkLevels, bind_ok] at done
      obtain ⟨visited, first, done⟩ := done
      have last : visited = final := by
        split at done
        · exact pure_ok.mp done
        · cases done
          rfl
      subst last
      refine ⟨level, le_refl level, fun earlier low high => absurd low (not_le.mpr high), ?_, ?_⟩
      · omega
      · rcases between.visit first with cut | ⟨clean, whole, walked, _⟩
        · exact .inl cut
        · exact .inr ⟨clean, whole, walked.distinct, walked.edges, .inl rfl⟩
  | succ levels ih =>
      rw [walkLevels] at done
      simp only [bind_ok] at done
      obtain ⟨visited, first, done⟩ := done
      rcases between.visit first with ⟨unclean, cut⟩ | ⟨clean, whole, walked, seenNodes⟩
      · refine ⟨level, le_refl level, fun earlier low high => absurd low (not_le.mpr high), ?_,
          .inl ⟨unclean, ?_⟩⟩
        · omega
        · split at done
          · rw [pure_ok] at done
            rw [← done]
            exact cut
          · exact walkLevels_truncated cut done
      · have growth : met relations start (level + 1) =
            met relations start level ++ visited.nextFrontier := by
          rw [← seenNodes]
          exact walked.split
        by_cases stops : visited.nextFrontier = [] ∨ maxTotal ≤ visited.edges.length
        · rw [if_pos stops, pure_ok] at done
          subst done
          refine ⟨level, le_refl level, fun earlier low high => absurd low (not_le.mpr high), ?_,
            .inr ⟨clean, whole, walked.distinct, walked.edges, .inr ?_⟩⟩
          · omega
          · rcases stops with none | full
            · rw [growth, none, List.append_nil]
              exact .inl rfl
            · rw [walked.length_eq] at full
              exact .inr full
        · rw [if_neg stops] at done
          obtain ⟨some, room⟩ := not_or.mp stops
          rw [not_le] at room
          have later : BetweenLevels relations start (level + 1) visited
              (met relations start level) visited.nextFrontier := by
            refine ⟨whole, ⟨⟨walked.keys, walked.held, walked.distinct, walked.nodes, ?_⟩,
              walked.edges⟩, seenNodes, growth, clean.fans, room, some⟩
            change visited.seenNodes = _ ++ []
            rw [List.append_nil, seenNodes]
          obtain ⟨ended, low, before, over_, outcome⟩ := ih later done
          refine ⟨ended, by omega, fun earlier from_ to_ => ?_, by omega, ?_⟩
          · rcases Nat.eq_or_lt_of_le from_ with rfl | after
            · refine ⟨clean, fun same => some ?_, by rw [← walked.length_eq]; exact room⟩
              rw [growth] at same
              exact List.append_right_eq_self.mp same
            · exact before earlier after to_
          · have total : level + 1 + (levels + 1) = level + (levels + 1 + 1) := by omega
            rw [← total]
            exact outcome

/-- The books of a walk that has not begun. -/
theorem between_start : BetweenLevels relations start 0 { seenNodes := [start] } [] [start] where
  whole := rfl
  walked :=
    { keys := rfl
      held := fun row listed => by cases listed
      distinct := List.nodup_nil
      nodes := fun row listed => by cases listed
      split := rfl
      edges := fun row => by simp [mem_brought] }
  seenNodes := rfl
  split := rfl
  fans subject listed := by cases listed
  room := Nat.zero_lt_succ _
  nonempty := List.cons_ne_nil _ _

/-! ## Honesty -/

theorem met_grows {earlier later : Nat} (bound : earlier ≤ later) :
    met relations start earlier <+: met relations start later :=
  discovered_prefix bound

/-- While rows are missing, every level finds a new subject. -/
theorem SilentCut.grows {last level earlier : Nat}
    (cut : SilentCut relations start (last + 1) level) (bound : earlier ≤ level) :
    met relations start (earlier + 1) ≠ met relations start earlier := by
  intro stable
  obtain ⟨row, asked, missing⟩ := cut.missed
  rw [inReach_iff] at asked
  refine missing (brought_subset ?_ asked)
  by_cases deeper : earlier ≤ last
  · have same : met relations start last = met relations start earlier :=
      discovered_stable deeper stable
    rw [same]
    exact (met_grows bound).subset
  · exact (met_grows (by omega)).subset

/-- What a silent cut says of the levels above it. -/
theorem SilentCut.goesOn {last level earlier : Nat}
    (cut : SilentCut relations start (last + 1) level) (above : earlier < level) :
    GoesOn relations start earlier := by
  have grows := cut.grows above.le
  have next := (met_grows (show earlier + 1 ≤ level by omega) :
    met relations start (earlier + 1) <+: met relations start level)
  have longer : (met relations start earlier).length < (met relations start level).length := by
    have step := (met_grows (Nat.le_succ earlier) :
      met relations start earlier <+: met relations start (earlier + 1))
    have strict : (met relations start earlier).length <
        (met relations start (earlier + 1)).length :=
      lt_of_le_of_ne step.length_le fun same => grows (step.eq_of_length same).symm
    exact lt_of_lt_of_le strict next.length_le
  have within : met relations start earlier ⊆ (met relations start level).dropLast := by
    have part : met relations start earlier <+: (met relations start level).dropLast := by
      refine List.prefix_of_prefix_length_le (met_grows above.le) (List.dropLast_prefix _) ?_
      rw [List.length_dropLast]
      omega
    exact part.subset
  have room := lt_of_le_of_lt (brought_length_le within) cut.before
  have shorter : (met relations start earlier).dropLast ⊆ met relations start earlier :=
    List.dropLast_subset _
  refine ⟨⟨fun subject listed => cut.fans subject ((met_grows above.le).subset listed), ?_,
    room.le⟩, grows, room⟩
  exact lt_of_le_of_lt (brought_length_le shorter) room

end Walks

theorem clampDepth_pos (depth : Int) : 0 < clampDepth depth := by
  unfold clampDepth maxDepth
  omega

theorem honest_iff {relations : RelationTable} {projections : Projections}
    {subjectKind subjectId : String} {depth : Int} {result : Traversal}
    (done : traverse relations projections subjectKind subjectId depth = .ok result) :
    Honest relations (subjectKind, subjectId) (clampDepth depth) result ↔
      ¬∃ level, level + 1 < clampDepth depth ∧
        SilentCut relations (subjectKind, subjectId) (clampDepth depth) level := by
  obtain ⟨last, clamped⟩ := Nat.exists_eq_add_one.mpr (clampDepth_pos depth)
  simp only [traverse, bind_ok, pure_ok, clamped] at done
  obtain ⟨final, walked, rfl⟩ := done
  rw [clamped]
  obtain ⟨ended, _, before, bound, outcome⟩ := between_start.run walked
  rw [Nat.zero_add] at bound outcome
  constructor
  · rintro honest ⟨level, above, cut⟩
    have here : ended = level := by
      rcases lt_trichotomy ended level with early | same | late
      · have goes := cut.goesOn early
        rcases outcome with ⟨unclean, _⟩ | ⟨_, _, _, _, ends | stable | full⟩
        · exact absurd goes.clean unclean
        · omega
        · exact absurd stable goes.grows
        · exact absurd goes.room (not_lt.mpr full)
      · exact same
      · have goes := before level (Nat.zero_le level) late
        have full := cut.full
        have room := goes.room
        omega
    subst here
    rcases outcome with ⟨unclean, _⟩ | ⟨_, whole, _, edges, _⟩
    · exact unclean ⟨cut.fans, cut.before, cut.full.le⟩
    · obtain ⟨row, asked, missing⟩ := cut.missed
      exact missing ((edges row).mp (((honest.complete whole).2 row).mpr asked))
  · intro uncut
    have exact_ : final.isTruncated = false → final.edges.Nodup ∧
        ∀ row, row ∈ final.edges ↔
          InReach relations (subjectKind, subjectId) (last + 1) row := by
      intro whole
      rcases outcome with ⟨_, cut⟩ | ⟨clean, _, distinct, edges, why⟩
      · rw [whole] at cut
        cases cut
      · refine ⟨distinct, fun row => ?_⟩
        rw [edges]
        constructor
        · intro listed
          rw [inReach_iff]
          exact brought_subset (met_grows (by omega)).subset listed
        · intro asked
          by_contra missing
          rcases why with ends | stable | full
          · have same : ended = last := by omega
            rw [inReach_iff, ← same] at asked
            exact missing asked
          · have same : met relations (subjectKind, subjectId) last =
                met relations (subjectKind, subjectId) ended :=
              discovered_stable (by omega) stable
            rw [inReach_iff, same] at asked
            exact missing asked
          · by_cases deepest : ended + 1 = last + 1
            · have same : ended = last := by omega
              rw [inReach_iff, ← same] at asked
              exact missing asked
            · exact uncut ⟨ended, by omega, clean.fans, clean.before, le_antisymm clean.total full,
                row, asked, missing⟩
    refine ⟨exact_, fun row asked missing => ?_⟩
    cases whole : final.isTruncated with
    | true => rfl
    | false => exact absurd (((exact_ whole).2 row).mpr asked) missing

/-! ## Success -/

section Succeeds

variable {relations : RelationTable}

theorem fetchEdges_succeeds (stamped : ∀ row ∈ relations, (parseHlc row.effectiveHlc).isSome = true)
    (subject : Subject) : fetchEdges relations subject = .ok (edgesAt relations subject) := by
  unfold fetchEdges
  have passes : ((matching relations subject).all fun row =>
      (parseHlc row.effectiveHlc).isSome) = true :=
    List.all_eq_true.mpr fun row listed => stamped row (mem_matching.mp listed).1
  rw [(require_ok (u := ())).mpr passes]
  rfl

theorem visitFrontier_succeeds
    (stamped : ∀ row ∈ relations, (parseHlc row.effectiveHlc).isSome = true) (depth : Nat)
    (walk : Walk) (frontier : List Subject) :
    ∃ next, visitFrontier relations depth walk frontier = .ok next := by
  induction frontier generalizing walk with
  | nil => exact ⟨walk, rfl⟩
  | cons subject frontier ih =>
      unfold visitFrontier
      split
      · exact ⟨_, rfl⟩
      · split
        · exact ih walk
        · rw [fetchEdges_succeeds stamped]
          exact ih _

theorem walkLevels_succeeds
    (stamped : ∀ row ∈ relations, (parseHlc row.effectiveHlc).isSome = true) (levels depth : Nat)
    (walk : Walk) (frontier : List Subject) :
    ∃ final, walkLevels relations levels depth walk frontier = .ok final := by
  induction levels generalizing depth walk frontier with
  | zero => exact ⟨walk, rfl⟩
  | succ levels ih =>
      rw [walkLevels]
      refine bind_succeeds (visitFrontier_succeeds stamped _ _ _) fun visited => ?_
      split
      · exact ⟨visited, rfl⟩
      · exact ih _ _ _

theorem traverse_succeeds
    (stamped : ∀ row ∈ relations, (parseHlc row.effectiveHlc).isSome = true)
    (projections : Projections) (subjectKind subjectId : String) (depth : Int) :
    ∃ result, traverse relations projections subjectKind subjectId depth = .ok result := by
  unfold traverse
  exact bind_succeeds (walkLevels_succeeds stamped _ _ _ _) fun walk => ⟨_, rfl⟩

end Succeeds

/-- A traversal of stamped rows returns, and may be believed exactly when it is not cut in
silence. -/
theorem traverse_honest_iff (relations : RelationTable) (projections : Projections)
    (subjectKind subjectId : String) (depth : Int) :
    ((∀ row ∈ relations, (parseHlc row.effectiveHlc).isSome = true) →
      ∃ result, traverse relations projections subjectKind subjectId depth = .ok result) ∧
    ∀ result, traverse relations projections subjectKind subjectId depth = .ok result →
      (Honest relations (subjectKind, subjectId) (clampDepth depth) result ↔
        ¬∃ level, level + 1 < clampDepth depth ∧
          SilentCut relations (subjectKind, subjectId) (clampDepth depth) level) :=
  ⟨fun stamped => traverse_succeeds stamped projections subjectKind subjectId depth,
    fun _ done => honest_iff done⟩

/-! ## A cap that is reached with the last row of a level -/

namespace FullLevel

def text (length : Nat) : String := String.ofList (List.replicate length 'x')

def plan : Subject := ("plan", "plan")

def branch (work kind : Nat) : Relation where
  sourceKind := "plan"
  sourceId := "plan"
  relationKind := text kind
  targetKind := "work"
  targetId := text work
  basisEvent := "event"
  effectiveHlc := "1.0.node"

def leaf (result : Nat) : Relation where
  sourceKind := "result"
  sourceId := text result
  relationKind := "evidences"
  targetKind := "work"
  targetId := text (result / 16)
  basisEvent := "event"
  effectiveHlc := "1.0.node"

/-- The row of a third level. -/
def deep : Relation where
  sourceKind := "claim"
  sourceId := "claim"
  relationKind := "based_on"
  targetKind := "result"
  targetId := text 0
  basisEvent := "event"
  effectiveHlc := "1.0.node"

/-- A plan with twenty rows to five works, and sixteen results of each of these. -/
def relations : RelationTable :=
  ⟨(List.range 20).map (fun number => branch (number / 4) (number % 4)) ++
    (List.range 80).map leaf ++ [deep], by decide +kernel⟩

def works : List Subject := (List.range 5).map fun number => ("work", text number)

theorem mem_met {node : Subject} : node ∈ met relations plan 1 ↔ node ∈ plan :: works := by
  have adjacent : ∀ row ∈ relations.rows, plan ∈ row.endpoints →
      ∀ node ∈ row.endpoints, node ∈ plan :: works := by decide +kernel
  have reached : ∀ work ∈ works, ∃ row ∈ relations.rows,
      plan ∈ row.endpoints ∧ work ∈ row.endpoints := by decide +kernel
  have known : plan.1 ≠ "unknown" := by decide
  unfold met
  rw [mem_discovered_succ]
  constructor
  · rintro (own | ⟨last, only, next⟩)
    · rw [List.mem_singleton.mp own]
      exact List.mem_cons_self
    · rw [List.mem_singleton.mp only] at next
      obtain ⟨_, row, held, near, far⟩ := mem_neighbours.mp next
      exact adjacent row held near node far
  · intro listed
    rcases List.mem_cons.mp listed with rfl | work
    · exact .inl (List.mem_singleton_self _)
    · obtain ⟨row, held, near, far⟩ := reached node work
      exact .inr ⟨plan, List.mem_singleton_self _, mem_neighbours.mpr ⟨known, row, held, near, far⟩⟩

theorem last_work : ∃ last ∈ works, ∀ node ∈ (met relations plan 1).dropLast,
    node ∈ (plan :: works).erase last := by
  have nonempty : met relations plan 1 ≠ [] := fun none => by
    have held := mem_met.mpr (List.mem_cons_self : plan ∈ plan :: works)
    rw [none] at held
    cases held
  have distinct : (met relations plan 1).Nodup := discovered_nodup 1
  let last := (met relations plan 1).getLast nonempty
  have ends : (met relations plan 1).dropLast ++ [last] = met relations plan 1 :=
    List.dropLast_append_getLast nonempty
  have apart : last ∉ (met relations plan 1).dropLast := by
    rw [← ends, List.nodup_append] at distinct
    exact fun held => distinct.2.2 last held last (List.mem_singleton_self _) rfl
  refine ⟨last, ?_, fun node held => ?_⟩
  · have listed := mem_met.mp (List.getLast_mem nonempty)
    rcases List.mem_cons.mp listed with own | work
    · -- the plan is the first to be met
      have start : [plan] <+: met relations plan 1 := met_grows (Nat.zero_le 1)
      have first : ("work", text 0) ∈ met relations plan 1 := mem_met.mpr (by decide)
      exfalso
      cases dropped : (met relations plan 1).dropLast with
      | nil =>
          rw [dropped, List.nil_append] at ends
          rw [← ends, List.mem_singleton] at first
          have same : plan = ("work", text 0) := by rw [first, ← own]
          exact absurd same (by decide)
      | cons head rest =>
          rw [← ends, dropped, List.cons_append] at start
          have same := (List.cons_prefix_cons.mp start).1
          refine apart ?_
          rw [dropped, show last = plan from own, same]
          exact List.mem_cons_self
    · exact work
  · have listed := mem_met.mp (List.dropLast_subset _ held)
    have other : node ≠ last := by
      rintro rfl
      exact apart held
    exact (List.mem_erase_of_ne other).mpr listed

theorem cut : SilentCut relations plan 3 1 where
  fans subject listed := by
    have few : ∀ subject ∈ plan :: works, (matching relations subject).length ≤ maxFanOut := by
      decide +kernel
    exact fun _ => few subject (mem_met.mp listed)
  before := by
    have fewer : ∀ last ∈ works,
        (brought relations ((plan :: works).erase last)).length < maxTotal := by
      decide +kernel
    obtain ⟨last, work, among⟩ := last_work
    exact lt_of_le_of_lt (brought_length_le among) (fewer last work)
  full := by
    have count : (brought relations (plan :: works)).length = maxTotal := by decide +kernel
    refine le_antisymm ?_ ?_
    · rw [← count]
      exact brought_length_le fun node => mem_met.mp
    · rw [← count]
      exact brought_length_le fun node => mem_met.mpr
  missed := by
    have held : deep ∈ relations := List.mem_append_right _ (List.mem_singleton_self _)
    refine ⟨deep, ⟨held, ("result", text 0), by decide, 2, by decide, ?_⟩, fun listed => ?_⟩
    · have first : branch 0 0 ∈ relations := by
        have listed : branch 0 0 ∈ relations.rows := by decide +kernel
        exact listed
      have second : leaf 0 ∈ relations := by
        have listed : leaf 0 ∈ relations.rows := by decide +kernel
        exact listed
      have one : Reaches relations plan 1 ("work", text 0) :=
        .step (.start (by decide)) first (by decide) (by decide) (by decide)
      exact .step one second (by decide) (by decide) (by decide)
    · have apart : ∀ node ∈ plan :: works, node ∉ deep.endpoints := by decide
      obtain ⟨_, node, asked, _, near⟩ := mem_brought.mp listed
      exact apart node (mem_met.mp asked) near

theorem stamped : ∀ row ∈ relations, (parseHlc row.effectiveHlc).isSome = true := by
  have all : ∀ row ∈ relations.rows, (parseHlc row.effectiveHlc).isSome = true := by
    decide +kernel
  exact all

/-- The walk returns the hundred rows of two levels and reports nothing. -/
theorem dishonest : ∃ result, traverse relations {} "plan" "plan" 3 = .ok result ∧
    ¬Honest relations plan (clampDepth 3) result := by
  obtain ⟨result, done⟩ := traverse_succeeds stamped {} "plan" "plan" 3
  refine ⟨result, done, fun honest => ?_⟩
  exact (honest_iff done).mp honest ⟨1, by decide, cut⟩

/-- Two levels of the same rows are returned as they are. -/
theorem honest_shallow : ∃ result, traverse relations {} "plan" "plan" 2 = .ok result ∧
    Honest relations plan (clampDepth 2) result := by
  obtain ⟨returns, honest⟩ := traverse_honest_iff relations {} "plan" "plan" 2
  obtain ⟨result, done⟩ := returns stamped
  refine ⟨result, done, (honest result done).mpr ?_⟩
  rintro ⟨level, above, cut⟩
  have first : level = 0 := by
    have clamped : clampDepth 2 = 2 := by decide
    omega
  subst first
  have count : (brought relations [plan]).length = 20 := by decide +kernel
  have full : (brought relations [plan]).length = maxTotal := cut.full
  rw [count] at full
  exact absurd full (by decide)

end FullLevel

end Relations

end Kawa
