import Mathlib

/-!
The nodes of a graph in the order in which a breadth-first walk meets them: every round asks
the neighbours of all nodes that are known, and new ones are written at the end.
-/

namespace Discovery

variable {α : Type} [DecidableEq α]

/-- The nodes that are not there yet, behind those that are. -/
def extend (seen found : List α) : List α :=
  found.foldl (fun seen node => if node ∈ seen then seen else seen ++ [node]) seen

@[simp] theorem extend_nil (seen : List α) : extend seen [] = seen := rfl

theorem extend_cons (seen : List α) (node : α) (found : List α) :
    extend seen (node :: found) = extend (if node ∈ seen then seen else seen ++ [node]) found := rfl

theorem extend_append (seen first second : List α) :
    extend seen (first ++ second) = extend (extend seen first) second :=
  List.foldl_append

@[simp] theorem mem_extend {seen found : List α} {node : α} :
    node ∈ extend seen found ↔ node ∈ seen ∨ node ∈ found := by
  induction found generalizing seen with
  | nil => simp
  | cons first found ih =>
      rw [extend_cons, ih, List.mem_cons]
      by_cases known : first ∈ seen
      · rw [if_pos known]
        constructor
        · tauto
        · rintro (old | rfl | later)
          · exact .inl old
          · exact .inl known
          · exact .inr later
      · rw [if_neg known, List.mem_append, List.mem_singleton]
        tauto

theorem prefix_extend (seen found : List α) : seen <+: extend seen found := by
  induction found generalizing seen with
  | nil => exact List.prefix_refl seen
  | cons first found ih =>
      rw [extend_cons]
      refine List.IsPrefix.trans ?_ (ih _)
      split
      · exact List.prefix_refl seen
      · exact List.prefix_append seen [first]

theorem extend_of_subset {seen found : List α} (known : found ⊆ seen) : extend seen found = seen := by
  induction found with
  | nil => rfl
  | cons first found ih =>
      rw [extend_cons, if_pos (known List.mem_cons_self)]
      exact ih fun node later => known (List.mem_cons_of_mem _ later)

theorem nodup_extend {seen found : List α} (distinct : seen.Nodup) : (extend seen found).Nodup := by
  induction found generalizing seen with
  | nil => exact distinct
  | cons first found ih =>
      rw [extend_cons]
      refine ih ?_
      split
      · exact distinct
      · rename_i fresh
        exact List.nodup_append.mpr ⟨distinct, List.nodup_singleton first, by
          rintro left held right only rfl
          exact fresh (List.mem_singleton.mp only ▸ held)⟩

variable (neighbours : α → List α) (start : α)

/-- The nodes within a number of steps, in the order of their discovery. -/
def discovered : Nat → List α
  | 0 => [start]
  | n + 1 => extend (discovered n) ((discovered n).flatMap neighbours)

/-- A path of so many steps. -/
inductive Path : Nat → α → Prop
  | start : Path 0 start
  | step {n : Nat} {node next : α} (path : Path n node) (adjacent : next ∈ neighbours node) :
      Path (n + 1) next

variable {neighbours : α → List α} {start : α}

theorem mem_discovered_succ {n : Nat} {node : α} : node ∈ discovered neighbours start (n + 1) ↔
    node ∈ discovered neighbours start n ∨
      ∃ last ∈ discovered neighbours start n, node ∈ neighbours last := by
  rw [discovered, mem_extend, List.mem_flatMap]

theorem mem_discovered {n : Nat} {node : α} :
    node ∈ discovered neighbours start n ↔ ∃ m ≤ n, Path neighbours start m node := by
  induction n generalizing node with
  | zero =>
      constructor
      · intro only
        rw [List.mem_singleton.mp only]
        exact ⟨0, le_refl 0, .start⟩
      · rintro ⟨m, bound, path⟩
        cases path with
        | start => exact List.mem_singleton_self start
        | step path adjacent => exact absurd bound (by omega)
  | succ n ih =>
      rw [mem_discovered_succ]
      constructor
      · rintro (old | ⟨last, held, adjacent⟩)
        · obtain ⟨m, bound, path⟩ := ih.mp old
          exact ⟨m, by omega, path⟩
        · obtain ⟨m, bound, path⟩ := ih.mp held
          exact ⟨m + 1, by omega, .step path adjacent⟩
      · rintro ⟨m, bound, path⟩
        cases path with
        | start => exact .inl (ih.mpr ⟨0, by omega, .start⟩)
        | @step k last _ path adjacent =>
            exact .inr ⟨last, ih.mpr ⟨k, by omega, path⟩, adjacent⟩

theorem discovered_nodup (n : Nat) : (discovered neighbours start n).Nodup := by
  induction n with
  | zero => exact List.nodup_singleton start
  | succ n ih => exact nodup_extend ih

theorem discovered_prefix {m n : Nat} (bound : m ≤ n) :
    discovered neighbours start m <+: discovered neighbours start n := by
  induction n, bound using Nat.le_induction with
  | base => exact List.prefix_refl _
  | succ n _ ih => exact ih.trans (prefix_extend _ _)

/-- Once a round finds nothing, no later round does. -/
theorem discovered_stable {m n : Nat} (bound : m ≤ n)
    (stable : discovered neighbours start (m + 1) = discovered neighbours start m) :
    discovered neighbours start n = discovered neighbours start m := by
  induction n, bound using Nat.le_induction with
  | base => rfl
  | succ n _ ih =>
      rw [discovered, ih]
      exact stable

/-- A round need only ask the nodes that the last one has found. -/
theorem discovered_frontier {n : Nat} {asked frontier : List α}
    (split : discovered neighbours start n = asked ++ frontier)
    (known : ∀ node ∈ asked, neighbours node ⊆ discovered neighbours start n) :
    discovered neighbours start (n + 1) =
      extend (discovered neighbours start n) (frontier.flatMap neighbours) := by
  have old : extend (discovered neighbours start n) (asked.flatMap neighbours) =
      discovered neighbours start n := by
    refine extend_of_subset fun node found => ?_
    obtain ⟨last, held, adjacent⟩ := List.mem_flatMap.mp found
    exact known last held adjacent
  calc discovered neighbours start (n + 1)
      = extend (discovered neighbours start n) ((asked ++ frontier).flatMap neighbours) := by
        rw [← split]
        rfl
    _ = extend (extend (discovered neighbours start n) (asked.flatMap neighbours))
          (frontier.flatMap neighbours) := by
        rw [List.flatMap_append, extend_append]
    _ = extend (discovered neighbours start n) (frontier.flatMap neighbours) := by rw [old]

end Discovery
