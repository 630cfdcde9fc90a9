import Kawa.AdmittedLog
import Kawa.ClaimStanding

/-!
The fold of works, results, retirements and dependencies: what the work rows, the dependency
rows and the quarantine say as a function of the held facts, and the recomputation of one work,
of its dependents and of the results that share an occurrence key.
-/

namespace Kawa

open Result Latest

/-! ## Facts under their causal keys -/

theorem latest_rekey {α β κ : Type} [LinearOrder κ] {key : α → κ} {other : β → κ} {f : α → β}
    (keeps : ∀ item, other (f item) = key item) (items : List α) :
    latest other (items.map f) = (latest key items).map f := by
  induction items with
  | nil => rfl
  | cons item items ih =>
      simp only [List.map_cons, latest, ih]
      cases latest key items with
      | none => rfl
      | some best =>
          simp only [Option.map_some, keeps]
          split <;> rfl

def Log.keyOf (log : Log) (eventId : String) : Option CausalKey :=
  (log.events.find? eventId).map (·.causalKey)

def Log.keyed {ρ : Type} (log : Log) (eventId : ρ → String) (rows : List ρ) :
    List (CausalKey × ρ) :=
  rows.filterMap fun row => (log.keyOf (eventId row)).map (·, row)

/-- The row of the causally latest event. -/
def Log.latestOf {ρ : Type} (log : Log) (eventId : ρ → String) (rows : List ρ) : Option ρ :=
  (latest (·.1) (log.keyed eventId rows)).map (·.2)

theorem latestRow_ok {ρ : Type} {log : Log} {eventId : ρ → String} {rows : List ρ}
    {found : Option ρ} (read : latestRow (log.joined eventId rows) = .ok found) :
    found = log.latestOf eventId rows := by
  simp only [latestRow, bind_ok, pure_ok] at read
  obtain ⟨_, _, rfl⟩ := read
  have keyed : log.keyed eventId rows =
      (log.joined eventId rows).map fun pair => (pair.1.causalKey, pair.2) := by
    unfold Log.keyed Log.joined Log.keyOf
    rw [List.map_filterMap]
    congr 1
    funext row
    simp only [Option.map_map]
    rfl
  unfold Log.latestOf
  rw [keyed, latest_rekey (fun _ => rfl), Option.map_map]
  rfl

theorem keyOf_of_mem {log : Log} {row : EventRow} {eventId : String} (stored : row ∈ log.events)
    (named : row.eventId = eventId) : log.keyOf eventId = some row.causalKey := by
  unfold Log.keyOf
  rw [← named, Table.find?_of_mem stored]
  rfl

theorem mem_keyed {ρ : Type} {log : Log} {eventId : ρ → String} {rows : List ρ} {fact : ρ}
    {row : EventRow} (member : fact ∈ rows) (stored : row ∈ log.events)
    (named : row.eventId = eventId fact) : (row.causalKey, fact) ∈ log.keyed eventId rows :=
  List.mem_filterMap.mpr ⟨fact, member, by rw [keyOf_of_mem stored named]; rfl⟩

theorem keyed_congr {ρ : Type} {log next : Log} {eventId : ρ → String} {rows : List ρ}
    (same : ∀ row ∈ rows, next.keyOf (eventId row) = log.keyOf (eventId row)) :
    next.latestOf eventId rows = log.latestOf eventId rows := by
  unfold Log.latestOf Log.keyed
  rw [List.filterMap_congr fun row member => by rw [same row member]]

theorem keyOf_kept {log next : Log}
    (kept : ∀ row ∈ log.events, ∃ now ∈ next.events, row.Became now) {eventId : String}
    (held : ∃ row ∈ log.events, row.eventId = eventId) :
    next.keyOf eventId = log.keyOf eventId := by
  obtain ⟨row, member, rfl⟩ := held
  obtain ⟨now, inNext, became⟩ := kept row member
  have sameId : now.eventId = row.eventId := by
    unfold EventRow.Became at became
    rw [became]
  rw [keyOf_of_mem member rfl, keyOf_of_mem inNext sameId, became.causalKey]

/-! ## What the facts say -/

def resultOf (log : Log) (quarantine : Table OccurrenceQuarantine (·.eventId)) (workRef : String) :
    Option EventResultRow :=
  log.latestOf (·.eventId) (log.eventResult.rows.filter fun row =>
    row.workRef = workRef ∧ quarantine.holds row.eventId = false)

def deriveOf (log : Log) (workRef : String) : Option EventWorkRow :=
  log.latestOf (·.eventId) (log.eventWork.rows.filter (·.workRef = workRef))

/-- The state of an edge into a work. -/
def stateOf (log : Log) (quarantine : Table OccurrenceQuarantine (·.eventId)) (workRef : String) :
    DependencyState :=
  if retiredFact log workRef then .retired
  else ((resultOf log quarantine workRef).map fun result => depState result.outcome).getD .pending

def edgesOf (projections : Projections) (workRef : String) : List CurrentWorkDependency :=
  projections.currentWorkDependency.rows.filter (·.workRef = workRef)

/-- The execution of a work; readiness was read in some order of its edges. -/
def Executes (log : Log) (projections : Projections) (workRef : String) (execution : Execution) :
    Prop :=
  if retiredFact log workRef then execution = .retired
  else
    match resultOf log projections.resultOccurrenceQuarantine workRef with
    | some result => execution = ownExec result.outcome
    | none => ∃ rows, rows.Perm (edgesOf projections workRef) ∧ execution = readiness rows

/-- The identity fields of a work row. -/
def Identified (derive : EventWorkRow) (row : CurrentWork) : Prop :=
  row.planRef = derive.planRef ∧ row.workKind = derive.workKind ∧
    row.subjectRef = derive.subjectRef ∧ row.roleRequirement = derive.roleRequirement

def WorkRight (log : Log) (projections : Projections) (workRef : String) : Prop :=
  match deriveOf log workRef with
  | none => ∀ row ∈ projections.currentWork, row.workRef ≠ workRef
  | some derive => ∃ row ∈ projections.currentWork, row.workRef = workRef ∧
      Identified derive row ∧ Executes log projections workRef row.execution

/-- A causally earlier result of the same work carries the same occurrence key. -/
def Later (log : Log) (fact : EventResultRow) : Prop :=
  ∃ key own, fact.occurrenceKey = some key ∧ log.keyOf fact.eventId = some own ∧
    ∃ other ∈ log.eventResult, other.workRef = fact.workRef ∧ other.occurrenceKey = some key ∧
      ∃ theirs, log.keyOf other.eventId = some theirs ∧ theirs < own

structure QuarantineRight (log : Log) (quarantine : Table OccurrenceQuarantine (·.eventId)) :
    Prop where
  sound : ∀ entry ∈ quarantine, ∃ fact ∈ log.eventResult, fact.eventId = entry.eventId ∧
    fact.workRef = entry.workRef ∧ fact.occurrenceKey = some entry.occurrenceKey
  exact : ∀ fact ∈ log.eventResult, quarantine.holds fact.eventId = true ↔ Later log fact

/-- Every work fact names a held event. -/
structure Log.WorkHeld (log : Log) : Prop where
  results : ∀ fact ∈ log.eventResult, ∃ row ∈ log.events, row.eventId = fact.eventId
  derives : ∀ fact ∈ log.eventWork, ∃ row ∈ log.events, row.eventId = fact.eventId

structure DagSound (log : Log) (projections : Projections) : Prop where
  held : log.WorkHeld
  quarantine : QuarantineRight log projections.resultOccurrenceQuarantine
  declared : ∀ edge ∈ projections.currentWorkDependency, ∃ fact ∈ log.eventWorkDependency,
    fact.workRef = edge.workRef ∧ fact.dependencyWorkRef = edge.dependencyWorkRef ∧
      fact.satisfactionPolicy = edge.satisfactionPolicy
  edges : ∀ edge ∈ projections.currentWorkDependency,
    edge.dependencyState = stateOf log projections.resultOccurrenceQuarantine
      edge.dependencyWorkRef
  works : ∀ workRef, WorkRight log projections workRef

/-! ## Recomputing one work -/

/-- Only work rows differ. -/
structure SameEdges (before after : Projections) : Prop where
  edges : after.currentWorkDependency = before.currentWorkDependency
  quarantine : after.resultOccurrenceQuarantine = before.resultOccurrenceQuarantine

theorem WorkRight.congr {log : Log} {before after : Projections} (same : SameEdges before after)
    {workRef : String}
    (rows : ∀ row : CurrentWork, row.workRef = workRef →
      (row ∈ after.currentWork ↔ row ∈ before.currentWork))
    (right : WorkRight log before workRef) : WorkRight log after workRef := by
  unfold WorkRight Executes edgesOf at right ⊢
  rw [same.edges, same.quarantine]
  cases derived : deriveOf log workRef with
  | none =>
      rw [derived] at right
      intro row member named
      exact right row ((rows row named).mp member) named
  | some derive =>
      rw [derived] at right
      obtain ⟨row, member, named, identified⟩ := right
      exact ⟨row, (rows row named).mpr member, named, identified⟩

theorem recomputeReadiness_mem (scan : Scan) (projections : Projections) {workRef : String}
    {row : CurrentWork} (member : row ∈ projections.currentWork) (named : row.workRef = workRef)
    (active : row.execution ≠ .retired) :
    ∃ now ∈ (recomputeReadiness scan projections workRef).currentWork, now.workRef = workRef ∧
      (∀ {derive}, Identified derive row → Identified derive now) ∧
      ∃ rows, rows.Perm (edgesOf projections workRef) ∧ now.execution = readiness rows := by
  unfold recomputeReadiness
  dsimp only
  exact ⟨_, Table.mem_update.mpr (.inl ⟨row, member, decide_eq_true ⟨named, active⟩, rfl⟩), named,
    fun same => same, _, scan.perm _, rfl⟩

theorem recomputeReadiness_others (scan : Scan) (projections : Projections) {workRef : String}
    {row : CurrentWork} (apart : row.workRef ≠ workRef) :
    row ∈ (recomputeReadiness scan projections workRef).currentWork ↔
      row ∈ projections.currentWork := by
  unfold recomputeReadiness
  dsimp only
  rw [Table.mem_update]
  constructor
  · rintro (⟨old, held, condition, rfl⟩ | ⟨held, _⟩)
    · exact absurd (of_decide_eq_true condition).1 apart
    · exact held
  · exact fun held => .inr ⟨held, decide_eq_false fun both => apart both.1⟩

/-- The row that an upsert writes has what the new row and the updated one have. -/
theorem upsert_writes {table : Table CurrentWork (·.workRef)} {fresh : CurrentWork}
    {set : CurrentWork → CurrentWork} {keeps : ∀ old, (set old).workRef = old.workRef}
    {written : CurrentWork → Prop} (first : written fresh) (again : ∀ old, written (set old)) :
    ∃ row ∈ table.upsert fresh set keeps, row.workRef = fresh.workRef ∧ written row := by
  cases holds : table.holds fresh.workRef with
  | false => exact ⟨fresh, Table.mem_upsert.mpr (.inl ⟨rfl, holds⟩), rfl, first⟩
  | true =>
      obtain ⟨old, member, named⟩ := Table.holds_iff.mp holds
      exact ⟨set old, Table.mem_upsert.mpr (.inr (.inl ⟨old, member, named, rfl⟩)),
        (keeps old).trans named, again old⟩

theorem mem_upsert_other {table : Table CurrentWork (·.workRef)} {fresh row : CurrentWork}
    {set : CurrentWork → CurrentWork} {keeps : ∀ old, (set old).workRef = old.workRef}
    (other : row.workRef ≠ fresh.workRef) : row ∈ table.upsert fresh set keeps ↔ row ∈ table := by
  rw [Table.mem_upsert]
  constructor
  · rintro (⟨rfl, _⟩ | ⟨old, _, named, rfl⟩ | ⟨member, _⟩)
    · exact absurd rfl other
    · exact absurd ((keeps old).trans named) other
    · exact member
  · exact fun member => .inr (.inr ⟨member, other⟩)

/-- The one writer of a work row leaves it right, and all others alone. -/
theorem recomputeWorkState_right {log : Log} {scan : Scan} {before after : Projections}
    {workRef : String}
    (absent : deriveOf log workRef = none → ∀ row ∈ before.currentWork, row.workRef ≠ workRef)
    (done : recomputeWorkState log scan before workRef = .ok after) :
    SameEdges before after ∧ WorkRight log after workRef ∧
      ∀ row : CurrentWork, row.workRef ≠ workRef →
        (row ∈ after.currentWork ↔ row ∈ before.currentWork) := by
  unfold recomputeWorkState at done
  simp only [bind_ok] at done
  obtain ⟨derived, queried, done⟩ := done
  have derivedEq : derived = deriveOf log workRef := latestRow_ok queried
  cases derived with
  | none =>
      simp only [pure_ok] at done
      subst done
      refine ⟨⟨rfl, rfl⟩, ?_, fun _ _ => Iff.rfl⟩
      unfold WorkRight
      rw [← derivedEq]
      exact absent derivedEq.symm
  | some derive =>
      simp only [bind_ok] at done
      obtain ⟨result, read, done⟩ := done
      have resultEq : result = resultOf log before.resultOccurrenceQuarantine workRef :=
        latestRow_ok read
      let execution := if retiredFact log workRef then Execution.retired
        else (result.map fun row => ownExec row.outcome).getD .ready
      let fresh : CurrentWork :=
        { workRef := workRef
          planRef := derive.planRef
          workKind := derive.workKind
          subjectRef := derive.subjectRef
          roleRequirement := derive.roleRequirement
          execution := execution
          dependencyTotal := 0
          dependencySatisfied := 0
          dependencyConflicted := 0 }
      let set : CurrentWork → CurrentWork := fun row => { row with
        planRef := derive.planRef
        workKind := derive.workKind
        subjectRef := derive.subjectRef
        roleRequirement := derive.roleRequirement
        execution := execution }
      have upserted : ∀ keeps, (∃ row ∈ before.currentWork.upsert fresh set keeps,
          row.workRef = workRef ∧ Identified derive row ∧ row.execution = execution) ∧
          ∀ row : CurrentWork, row.workRef ≠ workRef →
            (row ∈ before.currentWork.upsert fresh set keeps ↔ row ∈ before.currentWork) :=
        fun _ => ⟨upsert_writes ⟨⟨rfl, rfl, rfl, rfl⟩, rfl⟩ fun _ => ⟨⟨rfl, rfl, rfl, rfl⟩, rfl⟩,
          fun row other => mem_upsert_other (show row.workRef ≠ fresh.workRef from other)⟩
      by_cases idle : (!retiredFact log workRef && result.isNone) = true
      · rw [if_pos idle] at done
        simp only [pure_ok] at done
        subst done
        obtain ⟨⟨row, member, named, fields, exec⟩, others⟩ := upserted fun _ => rfl
        simp only [Bool.and_eq_true, Bool.not_eq_true', Option.isNone_iff_eq_none] at idle
        obtain ⟨unretired, bare⟩ := idle
        have active : row.execution ≠ .retired := by
          rw [exec]
          simp [execution, unretired, bare]
        refine ⟨⟨rfl, rfl⟩, ?_, fun other apart => ?_⟩
        · unfold WorkRight
          rw [← derivedEq]
          obtain ⟨now, inNow, nowNamed, same, reads⟩ := recomputeReadiness_mem scan
            { before with currentWork := before.currentWork.upsert fresh set fun _ => rfl }
            member named active
          refine ⟨now, inNow, nowNamed, same fields, ?_⟩
          unfold Executes
          rw [if_neg (by simp [unretired])]
          dsimp only [recomputeReadiness]
          rw [← resultEq, bare]
          exact reads
        · rw [← others other apart]
          exact recomputeReadiness_others scan _ apart
      · rw [if_neg idle] at done
        simp only [pure_ok] at done
        subst done
        obtain ⟨⟨row, member, named, fields, exec⟩, others⟩ := upserted fun _ => rfl
        refine ⟨⟨rfl, rfl⟩, ?_, others⟩
        unfold WorkRight
        rw [← derivedEq]
        refine ⟨row, member, named, fields, ?_⟩
        unfold Executes
        dsimp only
        rw [← resultEq, exec]
        by_cases retired : retiredFact log workRef = true
        · rw [if_pos retired]
          exact if_pos retired
        · rw [if_neg retired]
          cases result with
          | none => simp [retired] at idle
          | some result => exact if_neg retired

/-! ## The quarantine -/

theorem keyOf_injective {log : Log} {left right : String} {key : CausalKey}
    (leftKey : log.keyOf left = some key) (rightKey : log.keyOf right = some key) :
    left = right := by
  unfold Log.keyOf at leftKey rightKey
  obtain ⟨leftRow, leftFound, leftSame⟩ := Option.map_eq_some_iff.mp leftKey
  obtain ⟨rightRow, rightFound, rightSame⟩ := Option.map_eq_some_iff.mp rightKey
  have same : leftRow.eventId = rightRow.eventId := congrArg (fun key : CausalKey =>
    (ofLex (ofLex (ofLex key).2).2).2) (leftSame.trans rightSame.symm)
  rw [← (Table.find?_eq_some.mp leftFound).2, ← (Table.find?_eq_some.mp rightFound).2, same]

theorem Later.same {log next : Log} {fact : EventResultRow} (held : fact ∈ log.eventResult)
    (keys : ∀ other ∈ log.eventResult, next.keyOf other.eventId = log.keyOf other.eventId)
    (same : ∀ other : EventResultRow, other.workRef = fact.workRef →
      ∀ key, fact.occurrenceKey = some key → other.occurrenceKey = some key →
      (other ∈ next.eventResult ↔ other ∈ log.eventResult)) :
    Later next fact ↔ Later log fact := by
  unfold Later
  rw [keys fact held]
  constructor
  · rintro ⟨key, own, carries, placed, other, inNext, work, sameKey, theirs, located, earlier⟩
    have old := (same other work key carries sameKey).mp inNext
    rw [keys other old] at located
    exact ⟨key, own, carries, placed, other, old, work, sameKey, theirs, located, earlier⟩
  · rintro ⟨key, own, carries, placed, other, old, work, sameKey, theirs, located, earlier⟩
    rw [← keys other old] at located
    exact ⟨key, own, carries, placed, other, (same other work key carries sameKey).mpr old, work,
      sameKey, theirs, located, earlier⟩

/-- New results that all carry one key leave the others' order alone. -/
theorem Later.congr {log next : Log} {workRef occurrenceKey : String}
    (grown : ∀ fact ∈ log.eventResult, fact ∈ next.eventResult)
    (new : ∀ fact ∈ next.eventResult, fact ∈ log.eventResult ∨
      (fact.workRef = workRef ∧ fact.occurrenceKey = some occurrenceKey))
    (keys : ∀ fact ∈ log.eventResult, next.keyOf fact.eventId = log.keyOf fact.eventId)
    {fact : EventResultRow} (held : fact ∈ log.eventResult)
    (apart : ¬ (fact.workRef = workRef ∧ fact.occurrenceKey = some occurrenceKey)) :
    Later next fact ↔ Later log fact := by
  refine Later.same held keys fun other sameWork key carries sameKey => ⟨fun inNext => ?_, grown other⟩
  refine (new other inNext).resolve_right fun mine => apart ?_
  rw [← sameWork, carries, ← sameKey]
  exact mine

theorem foldl_insertNew (mk : String → OccurrenceQuarantine)
    (named : ∀ eventId, (mk eventId).eventId = eventId) (losers : List String)
    (table : Table OccurrenceQuarantine (·.eventId)) :
    (∀ entry ∈ losers.foldl (fun table loser => table.insertNew (mk loser)) table,
      entry ∈ table ∨ ∃ loser ∈ losers, entry = mk loser) ∧
    ∀ eventId, (losers.foldl (fun table loser => table.insertNew (mk loser)) table).holds eventId =
      true ↔ table.holds eventId = true ∨ eventId ∈ losers := by
  induction losers generalizing table with
  | nil => exact ⟨fun entry held => .inl held, fun eventId => by simp⟩
  | cons loser losers ih =>
      obtain ⟨sound, exact_⟩ := ih (table.insertNew (mk loser))
      constructor
      · intro entry held
        rcases sound entry held with old | ⟨later, listed, same⟩
        · rcases Table.mem_insertNew.mp old with older | ⟨new, _⟩
          · exact .inl older
          · exact .inr ⟨loser, List.mem_cons_self, new⟩
        · exact .inr ⟨later, List.mem_cons_of_mem _ listed, same⟩
      · intro eventId
        rw [List.foldl_cons, exact_, List.mem_cons]
        have first : (table.insertNew (mk loser)).holds eventId = true ↔
            table.holds eventId = true ∨ eventId = loser := by
          rw [Table.holds_iff, Table.holds_iff]
          constructor
          · rintro ⟨entry, held, rfl⟩
            rcases Table.mem_insertNew.mp held with old | ⟨rfl, _⟩
            · exact .inl ⟨entry, old, rfl⟩
            · exact .inr (named loser)
          · rintro (⟨entry, held, same⟩ | rfl)
            · exact ⟨entry, Table.mem_insertNew.mpr (.inl held), same⟩
            · cases taken : table.holds (mk eventId).eventId with
              | false =>
                  exact ⟨mk eventId, Table.mem_insertNew.mpr (.inr ⟨rfl, taken⟩), named eventId⟩
              | true =>
                  obtain ⟨entry, held, same⟩ := Table.holds_iff.mp taken
                  exact ⟨entry, Table.mem_insertNew.mpr (.inl held), same.trans (named eventId)⟩
        rw [first]
        tauto

theorem joined_nodup {ρ : Type} {log : Log} {eventId : ρ → String} {rows : List ρ}
    (distinct : rows.Nodup) : (log.joined eventId rows).Nodup := by
  refine List.Nodup.filterMap ?_ distinct
  intro left right pair inLeft inRight
  obtain ⟨_, _, rfl⟩ := Option.map_eq_some_iff.mp (Option.mem_def.mp inLeft)
  obtain ⟨_, _, same⟩ := Option.map_eq_some_iff.mp (Option.mem_def.mp inRight)
  exact (congrArg Prod.snd same).symm

/-- In a list sorted by a key that tells its items apart, those after the first are the ones
with an earlier item. -/
theorem mem_tail_iff {α κ : Type} [LinearOrder κ] {key : α → κ} {first item : α} {rest : List α}
    (ordered : (first :: rest).Pairwise fun left right => key left ≤ key right)
    (distinct : (first :: rest).Nodup)
    (injective : ∀ left ∈ first :: rest, ∀ right ∈ first :: rest, key left = key right →
      left = right)
    (listed : item ∈ first :: rest) : item ∈ rest ↔ ∃ other ∈ first :: rest, key other < key item := by
  have least := (List.pairwise_cons.mp ordered).1
  constructor
  · intro inRest
    refine ⟨first, List.mem_cons_self, lt_of_le_of_ne (least item inRest) fun same => ?_⟩
    have one := injective first List.mem_cons_self item listed same
    exact (List.nodup_cons.mp distinct).1 (one ▸ inRest)
  · rintro ⟨other, inList, earlier⟩
    rcases List.mem_cons.mp listed with rfl | inRest
    · rcases List.mem_cons.mp inList with rfl | later
      · exact absurd earlier (lt_irrefl _)
      · exact absurd earlier (not_lt.mpr (least other later))
    · exact inRest

/-- The results that carry one key, each with its event, in causal order. -/
structure Carriers (log : Log) (workRef occurrenceKey : String)
    (sorted : List (EventRow × EventResultRow)) : Prop where
  mem : ∀ pair, pair ∈ sorted ↔ (pair.2 ∈ log.eventResult ∧ pair.2.workRef = workRef ∧
    pair.2.occurrenceKey = some occurrenceKey) ∧
      pair.1 ∈ log.events ∧ pair.1.eventId = pair.2.eventId
  distinct : sorted.Nodup
  ordered : sorted.Pairwise fun left right => left.1.causalKey ≤ right.1.causalKey

namespace Carriers

variable {log : Log} {workRef occurrenceKey : String} {sorted : List (EventRow × EventResultRow)}

theorem located (carriers : Carriers log workRef occurrenceKey sorted)
    {pair : EventRow × EventResultRow} (listed : pair ∈ sorted) :
    log.keyOf pair.2.eventId = some pair.1.causalKey := by
  obtain ⟨_, stored, same⟩ := (carriers.mem pair).mp listed
  exact keyOf_of_mem stored same

theorem lists (carriers : Carriers log workRef occurrenceKey sorted) (held : log.WorkHeld)
    {fact : EventResultRow} (inLog : fact ∈ log.eventResult)
    (mine : fact.workRef = workRef ∧ fact.occurrenceKey = some occurrenceKey) :
    ∃ event, (event, fact) ∈ sorted := by
  obtain ⟨event, stored, same⟩ := held.results fact inLog
  exact ⟨event, (carriers.mem _).mpr ⟨⟨inLog, mine⟩, stored, same⟩⟩

theorem injective (carriers : Carriers log workRef occurrenceKey sorted) :
    ∀ left ∈ sorted, ∀ right ∈ sorted, left.1.causalKey = right.1.causalKey → left = right := by
  intro left inLeft right inRight same
  have sameId := keyOf_injective (carriers.located inLeft) (same ▸ carriers.located inRight)
  obtain ⟨⟨leftFact, _⟩, leftStored, leftId⟩ := (carriers.mem left).mp inLeft
  obtain ⟨⟨rightFact, _⟩, rightStored, rightId⟩ := (carriers.mem right).mp inRight
  exact Prod.ext (Table.eq_of_key leftStored rightStored
    (leftId.trans (sameId.trans rightId.symm))) (Table.eq_of_key leftFact rightFact sameId)

/-- The results behind the first are those that a result precedes. -/
theorem mem_losers {first : EventRow × EventResultRow} {rest : List (EventRow × EventResultRow)}
    (carriers : Carriers log workRef occurrenceKey (first :: rest)) (held : log.WorkHeld)
    {fact : EventResultRow} (inLog : fact ∈ log.eventResult) :
    fact.eventId ∈ rest.map (·.2.eventId) ↔
      (fact.workRef = workRef ∧ fact.occurrenceKey = some occurrenceKey) ∧ Later log fact := by
  have behind : fact.eventId ∈ rest.map (·.2.eventId) ↔ ∃ event, (event, fact) ∈ rest := by
    rw [List.mem_map]
    constructor
    · rintro ⟨⟨event, other⟩, inRest, same⟩
      obtain ⟨⟨otherHeld, _⟩, _⟩ := (carriers.mem _).mp (List.mem_cons_of_mem _ inRest)
      have sameFact : other = fact := Table.eq_of_key otherHeld inLog same
      exact ⟨event, sameFact ▸ inRest⟩
    · rintro ⟨event, inRest⟩
      exact ⟨_, inRest, rfl⟩
  rw [behind]
  constructor
  · rintro ⟨event, inRest⟩
    have listed := List.mem_cons_of_mem first inRest
    have mine := ((carriers.mem _).mp listed).1.2
    obtain ⟨other, inList, earlier⟩ :=
      (mem_tail_iff carriers.ordered carriers.distinct carriers.injective listed).mp inRest
    obtain ⟨⟨otherHeld, sameWork, sameKey⟩, _⟩ := (carriers.mem other).mp inList
    exact ⟨mine, occurrenceKey, _, mine.2, carriers.located listed, other.2, otherHeld,
      sameWork.trans mine.1.symm, sameKey, _, carriers.located inList, earlier⟩
  · rintro ⟨mine, key, own, carries, placed, other, otherHeld, sameWork, sameKey, theirs,
      otherPlaced, earlier⟩
    obtain ⟨event, listed⟩ := carriers.lists held inLog mine
    obtain ⟨otherEvent, otherListed⟩ := carriers.lists held otherHeld
      ⟨sameWork.trans mine.1, sameKey.trans (carries.symm.trans mine.2)⟩
    refine ⟨event, (mem_tail_iff carriers.ordered carriers.distinct carriers.injective
      listed).mpr ⟨_, otherListed, ?_⟩⟩
    rw [Option.some.inj ((carriers.located otherListed).symm.trans otherPlaced),
      Option.some.inj ((carriers.located listed).symm.trans placed)]
    exact earlier

end Carriers

/-- Clearing a key leaves the entries of the results that do not carry it. -/
theorem holds_cleared {log : Log} {quarantine : Table OccurrenceQuarantine (·.eventId)}
    {workRef occurrenceKey : String} {condition : OccurrenceQuarantine → Bool}
    (clears : ∀ entry, condition entry = true ↔
      entry.workRef = workRef ∧ entry.occurrenceKey = occurrenceKey)
    (sound : ∀ entry ∈ quarantine, ∃ fact ∈ log.eventResult, fact.eventId = entry.eventId ∧
      fact.workRef = entry.workRef ∧ fact.occurrenceKey = some entry.occurrenceKey)
    {fact : EventResultRow} (inLog : fact ∈ log.eventResult) :
    (quarantine.delete condition).holds fact.eventId = true ↔
      quarantine.holds fact.eventId = true ∧
        ¬ (fact.workRef = workRef ∧ fact.occurrenceKey = some occurrenceKey) := by
  have fields : ∀ entry ∈ quarantine, entry.eventId = fact.eventId →
      fact.workRef = entry.workRef ∧ fact.occurrenceKey = some entry.occurrenceKey := by
    intro entry listed same
    obtain ⟨source, sourceHeld, sameId, carried⟩ := sound entry listed
    have sameFact : source = fact := Table.eq_of_key sourceHeld inLog (sameId.trans same)
    rwa [sameFact] at carried
  rw [Table.holds_iff, Table.holds_iff]
  constructor
  · rintro ⟨entry, kept, same⟩
    obtain ⟨listed, unlike⟩ := Table.mem_delete.mp kept
    obtain ⟨work, key⟩ := fields entry listed same
    refine ⟨⟨entry, listed, same⟩, fun mine => ?_⟩
    rw [key, Option.some_inj] at mine
    exact absurd ((clears entry).mpr ⟨work.symm.trans mine.1, mine.2⟩) (by simp [unlike])
  · rintro ⟨⟨entry, listed, same⟩, apart⟩
    obtain ⟨work, key⟩ := fields entry listed same
    refine ⟨entry, Table.mem_delete.mpr ⟨listed, ?_⟩, same⟩
    rw [← Bool.not_eq_true, clears]
    rintro ⟨sameWork, sameKey⟩
    exact apart ⟨work.trans sameWork, sameKey ▸ key⟩

/-- The first of the results that carry a key keeps it, the others are quarantined. -/
theorem requarantine_right {log next : Log} {before after : Projections}
    {workRef occurrenceKey : String}
    (right : QuarantineRight log before.resultOccurrenceQuarantine)
    (held : next.WorkHeld) (grown : ∀ fact ∈ log.eventResult, fact ∈ next.eventResult)
    (new : ∀ fact ∈ next.eventResult, fact ∈ log.eventResult ∨
      (fact.workRef = workRef ∧ fact.occurrenceKey = some occurrenceKey))
    (keys : ∀ fact ∈ log.eventResult, next.keyOf fact.eventId = log.keyOf fact.eventId)
    (done : requarantineOccurrence next before workRef occurrenceKey = .ok after) :
    after.currentWork = before.currentWork ∧
      after.currentWorkDependency = before.currentWorkDependency ∧
      QuarantineRight next after.resultOccurrenceQuarantine := by
  unfold requarantineOccurrence occurrenceConsumers at done
  simp only [bind_ok, pure_ok] at done
  obtain ⟨consumers, ⟨_, _, rfl⟩, done⟩ := done
  generalize sortedOf : (next.joined (·.eventId) (next.eventResult.rows.filter fun row =>
    row.workRef = workRef ∧ row.occurrenceKey = some occurrenceKey)).insertionSort
      (fun left right => left.1.causalKey ≤ right.1.causalKey) = sorted at done
  have carriers : Carriers next workRef occurrenceKey sorted := by
    rw [← sortedOf]
    refine ⟨fun pair => ?_, ?_, List.pairwise_insertionSort _ _⟩
    · rw [List.mem_insertionSort, mem_joined, List.mem_filter, decide_eq_true_eq, Table.mem_rows]
    · exact (List.perm_insertionSort _ _).nodup_iff.mpr
        (joined_nodup (next.eventResult.rows_nodup.filter _))
  have old : ∀ entry ∈ before.resultOccurrenceQuarantine, ∃ fact ∈ next.eventResult,
      fact.eventId = entry.eventId ∧ fact.workRef = entry.workRef ∧
        fact.occurrenceKey = some entry.occurrenceKey := by
    intro entry listed
    obtain ⟨fact, inLog, same⟩ := right.sound entry listed
    exact ⟨fact, grown fact inLog, same⟩
  -- a result without the key is an old one, and its order is what it was
  have others : ∀ fact ∈ next.eventResult,
      ¬ (fact.workRef = workRef ∧ fact.occurrenceKey = some occurrenceKey) →
      (before.resultOccurrenceQuarantine.holds fact.eventId = true ↔ Later next fact) := by
    intro fact inNext apart
    have inLog := (new fact inNext).resolve_right apart
    rw [right.exact fact inLog, Later.congr grown new keys inLog apart]
  cases sorted with
  | nil =>
      simp only [List.map_nil, pure_ok] at done
      subst done
      refine ⟨rfl, rfl, old, fun fact inNext => others fact inNext fun mine => ?_⟩
      obtain ⟨event, listed⟩ := carriers.lists held inNext mine
      exact absurd listed List.not_mem_nil
  | cons first rest =>
      simp only [List.map_cons, pure_ok] at done
      subst done
      obtain ⟨made, holds⟩ := foldl_insertNew
        (fun loser => ⟨loser, workRef, occurrenceKey, first.2.eventId⟩) (fun _ => rfl)
        (rest.map (·.2.eventId))
        (before.resultOccurrenceQuarantine.delete fun row =>
          row.workRef = workRef ∧ row.occurrenceKey = occurrenceKey)
      refine ⟨rfl, rfl, fun entry listed => ?_, fun fact inNext => ?_⟩
      · rcases made entry listed with kept | ⟨loser, lost, rfl⟩
        · exact old entry (Table.mem_delete.mp kept).1
        · obtain ⟨pair, inRest, rfl⟩ := List.mem_map.mp lost
          obtain ⟨⟨inNext, mine⟩, _⟩ := (carriers.mem _).mp (List.mem_cons_of_mem _ inRest)
          exact ⟨pair.2, inNext, rfl, mine⟩
      · dsimp only
        rw [holds, holds_cleared (fun _ => decide_eq_true_iff) old inNext,
          carriers.mem_losers held inNext]
        by_cases mine : fact.workRef = workRef ∧ fact.occurrenceKey = some occurrenceKey
        · rw [or_iff_right fun kept => kept.2 mine, and_iff_right mine]
        · rw [or_iff_left fun lost => mine lost.1, and_iff_left mine, others fact inNext mine]

/-! ## A work that nothing touches -/

theorem Executes.stable {log next : Log} {before after : Projections} {workRef : String}
    {execution : Execution}
    (retired : retiredFact next workRef = retiredFact log workRef)
    (result : resultOf next after.resultOccurrenceQuarantine workRef =
      resultOf log before.resultOccurrenceQuarantine workRef)
    (edges : edgesOf after workRef = edgesOf before workRef)
    (executes : Executes log before workRef execution) : Executes next after workRef execution := by
  unfold Executes at executes ⊢
  rw [retired, result, edges]
  exact executes

theorem WorkRight.stable {log next : Log} {before after : Projections} {workRef : String}
    (derive : deriveOf next workRef = deriveOf log workRef)
    (retired : retiredFact next workRef = retiredFact log workRef)
    (result : resultOf next after.resultOccurrenceQuarantine workRef =
      resultOf log before.resultOccurrenceQuarantine workRef)
    (edges : edgesOf after workRef = edgesOf before workRef)
    (rows : ∀ row : CurrentWork, row.workRef = workRef →
      (row ∈ after.currentWork ↔ row ∈ before.currentWork))
    (right : WorkRight log before workRef) : WorkRight next after workRef := by
  unfold WorkRight at right ⊢
  rw [derive]
  cases derived : deriveOf log workRef with
  | none =>
      rw [derived] at right
      intro row member named
      exact right row ((rows row named).mp member) named
  | some fields =>
      rw [derived] at right
      obtain ⟨row, member, named, identified, executes⟩ := right
      exact ⟨row, (rows row named).mpr member, named, identified,
        executes.stable retired result edges⟩

/-- A fold over works leaves each of them right, and all others alone. -/
theorem recomputeWorks_right {log : Log} {scan : Scan} {works : List String}
    {before after : Projections}
    (absent : ∀ workRef, deriveOf log workRef = none →
      ∀ row ∈ before.currentWork, row.workRef ≠ workRef)
    (done : works.foldlM (recomputeWorkState log scan) before = .ok after) :
    SameEdges before after ∧ (∀ workRef ∈ works, WorkRight log after workRef) ∧
      ∀ row : CurrentWork, row.workRef ∉ works →
        (row ∈ after.currentWork ↔ row ∈ before.currentWork) := by
  induction works generalizing before with
  | nil =>
      simp only [List.foldlM_nil, pure_ok] at done
      subst done
      exact ⟨⟨rfl, rfl⟩, fun workRef listed => (by cases listed), fun _ _ => Iff.rfl⟩
  | cons workRef works ih =>
      simp only [List.foldlM_cons, bind_ok] at done
      obtain ⟨middle, first, rest⟩ := done
      obtain ⟨same, right, others⟩ := recomputeWorkState_right (absent workRef) first
      have absentMiddle : ∀ other, deriveOf log other = none →
          ∀ row ∈ middle.currentWork, row.workRef ≠ other := by
        intro other none row member named
        by_cases mine : other = workRef
        · subst mine
          unfold WorkRight at right
          rw [none] at right
          exact right row member named
        · have apart : row.workRef ≠ workRef := fun own => mine (named.symm.trans own)
          exact absent other none row ((others row apart).mp member) named
      obtain ⟨sameRest, rightRest, othersRest⟩ := ih absentMiddle rest
      refine ⟨⟨sameRest.edges.trans same.edges, sameRest.quarantine.trans same.quarantine⟩, ?_, ?_⟩
      · intro other listed
        by_cases later : other ∈ works
        · exact rightRest other later
        · obtain rfl := (List.mem_cons.mp listed).resolve_right later
          exact right.congr sameRest fun row named => othersRest row (named ▸ later)
      · intro row unlisted
        rw [othersRest row fun listed => unlisted (List.mem_cons_of_mem _ listed)]
        exact others row fun own => unlisted (own ▸ List.mem_cons_self)

/-! ## Settling the edges into a work -/

theorem edgesOf_update {before : Projections} {condition : CurrentWorkDependency → Bool}
    {set : CurrentWorkDependency → CurrentWorkDependency}
    (keeps : ∀ row : CurrentWorkDependency, (set row).workRef = row.workRef) {workRef : String}
    (unmet : ∀ edge ∈ before.currentWorkDependency, edge.workRef = workRef →
      condition edge = false) :
    (before.currentWorkDependency.rows.map fun row => if condition row then set row else row).filter
      (·.workRef = workRef) = edgesOf before workRef := by
  unfold edgesOf
  rw [List.filter_map]
  have same : ∀ row : CurrentWorkDependency,
      ((fun row : CurrentWorkDependency => decide (row.workRef = workRef)) ∘
        fun row => if condition row then set row else row) row = decide (row.workRef = workRef) := by
    intro row
    simp only [Function.comp]
    split
    · rw [keeps]
    · rfl
  rw [funext same]
  refine (List.map_congr_left fun row member => ?_).trans (List.map_id _)
  obtain ⟨held, named⟩ := List.mem_filter.mp member
  rw [unmet row held (of_decide_eq_true named)]
  rfl

/-- What a settlement leaves of the edges into a work, or of the one from a dependent. -/
structure Settled (log : Log) (before after : Projections) (workRef : String)
    (onlyDependent : Option String) : Prop where
  works : after.currentWork = before.currentWork
  quarantine : after.resultOccurrenceQuarantine = before.resultOccurrenceQuarantine
  edges : ∀ edge ∈ after.currentWorkDependency, ∃ old ∈ before.currentWorkDependency,
    edge.workRef = old.workRef ∧ edge.dependencyWorkRef = old.dependencyWorkRef ∧
      edge.satisfactionPolicy = old.satisfactionPolicy ∧
      (old.dependencyWorkRef = workRef ∧ onlyDependent.all (· = old.workRef) = true →
        edge.dependencyState = stateOf log before.resultOccurrenceQuarantine workRef) ∧
      (¬ (old.dependencyWorkRef = workRef ∧ onlyDependent.all (· = old.workRef) = true) →
        edge = old)
  others : ∀ other, (∀ edge ∈ before.currentWorkDependency, edge.workRef = other →
      ¬ (edge.dependencyWorkRef = workRef ∧ onlyDependent.all (· = edge.workRef) = true)) →
    edgesOf after other = edgesOf before other
  dependents : ∀ edge ∈ before.currentWorkDependency, ∃ now ∈ after.currentWorkDependency,
    now.workRef = edge.workRef ∧ now.dependencyWorkRef = edge.dependencyWorkRef

/-- An edge that no retirement and no result has moved is still pending. -/
structure Stale (log : Log) (projections : Projections) (workRef : String)
    (edge : CurrentWorkDependency) : Prop where
  retired : edge.dependencyState = .retired → retiredFact log workRef = true
  pending : retiredFact log workRef = false →
    resultOf log projections.resultOccurrenceQuarantine workRef = none →
    edge.dependencyState = .pending

theorem settleEdges_settled {log : Log} {before after : Projections} {workRef : String}
    {onlyDependent : Option String}
    (stale : ∀ edge ∈ before.currentWorkDependency, edge.dependencyWorkRef = workRef →
      onlyDependent.all (· = edge.workRef) = true → Stale log before workRef edge)
    (done : settleEdges log before workRef onlyDependent = .ok after) :
    Settled log before after workRef onlyDependent := by
  -- one update of the edges, whose condition and state are known
  have updated : ∀ (condition : CurrentWorkDependency → Bool)
      (set : CurrentWorkDependency → CurrentWorkDependency) keeps,
      (∀ edge, (set edge).satisfactionPolicy = edge.satisfactionPolicy) →
      (∀ edge, (set edge).dependencyState = stateOf log before.resultOccurrenceQuarantine workRef) →
      (∀ edge ∈ before.currentWorkDependency, condition edge = true ↔
        edge.dependencyWorkRef = workRef ∧ onlyDependent.all (· = edge.workRef) = true) →
      Settled log before { before with
        currentWorkDependency := before.currentWorkDependency.update condition set keeps }
        workRef onlyDependent := by
    intro condition set keeps policy state exact
    have sameWork : ∀ edge : CurrentWorkDependency, (set edge).workRef = edge.workRef :=
      fun edge => congrArg Prod.fst (keeps edge)
    have sameDependency : ∀ edge : CurrentWorkDependency,
        (set edge).dependencyWorkRef = edge.dependencyWorkRef :=
      fun edge => congrArg Prod.snd (keeps edge)
    refine ⟨rfl, rfl, ?_, ?_, ?_⟩
    · intro edge member
      rw [Table.mem_update] at member
      rcases member with ⟨old, held, condition, rfl⟩ | ⟨held, unmet⟩
      · exact ⟨old, held, sameWork old, sameDependency old, policy old, fun _ => state old,
          fun apart => absurd ((exact old held).mp condition) apart⟩
      · refine ⟨edge, held, rfl, rfl, rfl, fun mine => ?_, fun _ => rfl⟩
        rw [(exact edge held).mpr mine] at unmet
        cases unmet
    · intro other apart
      refine edgesOf_update sameWork fun edge held named => ?_
      rw [Bool.eq_false_iff]
      exact fun met => apart edge held named ((exact edge held).mp met)
    · intro edge held
      by_cases met : condition edge = true
      · refine ⟨set edge, ?_, sameWork edge, sameDependency edge⟩
        rw [Table.mem_update]
        exact .inl ⟨edge, held, met, rfl⟩
      · refine ⟨edge, ?_, rfl, rfl⟩
        rw [Table.mem_update]
        exact .inr ⟨held, by simpa using met⟩
  unfold settleEdges at done
  by_cases retired : retiredFact log workRef = true
  · rw [if_pos retired] at done
    cases done
    refine updated _ _ _ (fun _ => rfl) (fun _ => ?_) fun edge _ => decide_eq_true_iff
    unfold stateOf
    rw [if_pos retired]
  · rw [if_neg retired] at done
    unfold applyLatestResultToDependents at done
    obtain ⟨result, read, done⟩ := bind_ok.mp done
    have resultEq : result = resultOf log before.resultOccurrenceQuarantine workRef :=
      latestRow_ok read
    cases result with
    | none =>
        simp only [pure_ok] at done
        subst done
        refine ⟨rfl, rfl, ?_, fun _ _ => rfl, fun edge held => ⟨edge, held, rfl, rfl⟩⟩
        intro edge held
        refine ⟨edge, held, rfl, rfl, rfl, fun mine => ?_, fun _ => rfl⟩
        rw [(stale edge held mine.1 mine.2).pending (by simpa using retired) resultEq.symm]
        unfold stateOf
        rw [if_neg retired, ← resultEq]
        rfl
    | some result =>
        simp only [pure_ok] at done
        subst done
        refine updated _ _ _ (fun _ => rfl) (fun _ => ?_) fun edge held => ?_
        · unfold stateOf
          rw [if_neg retired, ← resultEq]
          rfl
        · rw [decide_eq_true_iff]
          constructor
          · exact fun met => ⟨met.1, met.2.2⟩
          · exact fun mine => ⟨mine.1, fun dead =>
              retired ((stale edge held mine.1 mine.2).retired dead), mine.2⟩

/-! ## One reduction -/

/-- All is right but one work and the edges into it. -/
structure Frontier (log : Log) (projections : Projections) (workRef : String) : Prop where
  held : log.WorkHeld
  quarantine : QuarantineRight log projections.resultOccurrenceQuarantine
  declared : ∀ edge ∈ projections.currentWorkDependency, ∃ fact ∈ log.eventWorkDependency,
    fact.workRef = edge.workRef ∧ fact.dependencyWorkRef = edge.dependencyWorkRef ∧
      fact.satisfactionPolicy = edge.satisfactionPolicy
  edges : ∀ edge ∈ projections.currentWorkDependency, edge.dependencyWorkRef ≠ workRef →
    edge.dependencyState = stateOf log projections.resultOccurrenceQuarantine
      edge.dependencyWorkRef
  stale : ∀ edge ∈ projections.currentWorkDependency, edge.dependencyWorkRef = workRef →
    Stale log projections workRef edge
  works : ∀ other, other ≠ workRef → WorkRight log projections other
  absent : deriveOf log workRef = none → ∀ row ∈ projections.currentWork, row.workRef ≠ workRef

theorem WorkRight.absent {log : Log} {projections : Projections} {workRef : String}
    (right : WorkRight log projections workRef) (underived : deriveOf log workRef = none) :
    ∀ row ∈ projections.currentWork, row.workRef ≠ workRef := by
  unfold WorkRight at right
  rwa [underived] at right

/-- The work's own row, then the edges into it and their dependents. -/
theorem Frontier.propagated {log : Log} {scan : Scan} {before own after : Projections}
    {workRef : String} (frontier : Frontier log before workRef)
    (recomputed : recomputeWorkState log scan before workRef = .ok own)
    (done : propagateToDependents log scan own workRef = .ok after) : DagSound log after := by
  obtain ⟨sameOwn, rightOwn, othersOwn⟩ := recomputeWorkState_right frontier.absent recomputed
  simp only [propagateToDependents, bind_ok] at done
  obtain ⟨settled, settling, folded⟩ := done
  have ownWorks : ∀ other, WorkRight log own other := by
    intro other
    by_cases mine : other = workRef
    · exact mine ▸ rightOwn
    · exact (frontier.works other mine).congr sameOwn fun row named =>
        othersOwn row fun own => mine (named.symm.trans own)
  have settles : Settled log own settled workRef none := by
    refine settleEdges_settled (fun edge held into _ => ?_) settling
    rw [sameOwn.edges] at held
    have stale := frontier.stale edge held into
    refine ⟨stale.retired, fun alive bare => stale.pending alive ?_⟩
    rwa [sameOwn.quarantine] at bare
  have absent : ∀ other, deriveOf log other = none →
      ∀ row ∈ settled.currentWork, row.workRef ≠ other := by
    intro other underived
    rw [settles.works]
    exact (ownWorks other).absent underived
  obtain ⟨sameRest, rightRest, othersRest⟩ := recomputeWorks_right absent folded
  have quarantine : after.resultOccurrenceQuarantine = before.resultOccurrenceQuarantine :=
    sameRest.quarantine.trans (settles.quarantine.trans sameOwn.quarantine)
  refine ⟨frontier.held, by rw [quarantine]; exact frontier.quarantine, ?_, ?_, ?_⟩
  · intro edge member
    rw [sameRest.edges] at member
    obtain ⟨old, held, work, dependency, policy, _⟩ := settles.edges edge member
    rw [sameOwn.edges] at held
    rw [work, dependency, policy]
    exact frontier.declared old held
  · intro edge member
    rw [sameRest.edges] at member
    obtain ⟨old, held, _, dependency, _, mine, kept⟩ := settles.edges edge member
    rw [sameOwn.edges] at held
    rw [quarantine]
    by_cases into : old.dependencyWorkRef = workRef
    · rw [mine ⟨into, rfl⟩, dependency, into, sameOwn.quarantine]
    · obtain rfl := kept fun both => into both.1
      exact frontier.edges edge held into
  · intro other
    by_cases listed : other ∈ ((settled.currentWorkDependency.rows.filter
        (·.dependencyWorkRef = workRef)).map (·.workRef)).dedup
    · exact rightRest other listed
    · have edges : edgesOf settled other = edgesOf own other := by
        refine settles.others other fun edge held named mine => listed ?_
        obtain ⟨now, inNow, work, dependency⟩ := settles.dependents edge held
        rw [List.mem_dedup, List.mem_map]
        exact ⟨now, List.mem_filter.mpr ⟨inNow, decide_eq_true (dependency.trans mine.1)⟩,
          work.trans named⟩
      refine (ownWorks other).stable rfl rfl ?_ ?_ ?_
      · rw [quarantine, sameOwn.quarantine]
      · unfold edgesOf at edges ⊢
        rw [sameRest.edges, edges]
      · intro row named
        rw [othersRest row (named ▸ listed), settles.works]

end Kawa
