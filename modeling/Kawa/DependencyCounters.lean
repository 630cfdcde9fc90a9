import Kawa.WorkRuns
import Kawa.LinkVisibility

/-!
The counters of a work row.  They copy what its dependency rows say, and one branch of the fold
writes them: that of a work which is neither retired nor has a result.  A run keeps them right
as long as no step adds or turns an edge of a work that this branch has left for good.
-/

namespace Kawa

open Result Latest

/-- How an edge counts: among the satisfied ones, and among the conflicted. -/
def DependencyState.counted (state : DependencyState) : Bool × Bool :=
  (decide (state = .satisfied ∨ state = .conflicted), decide (state = .conflicted))

/-- Total, satisfied and conflicted, as the row has them. -/
def CurrentWork.counters (row : CurrentWork) : Nat × Nat × Nat :=
  (row.dependencyTotal, row.dependencySatisfied, row.dependencyConflicted)

/-- Total, satisfied and conflicted, counted over edges. -/
def countEdges (edges : List CurrentWorkDependency) : Nat × Nat × Nat :=
  (edges.length, edges.countP (·.dependencyState.counted.1),
    edges.countP (·.dependencyState.counted.2))

/-- Every work row, whatever its execution, counts its dependency rows. -/
def CountersRight (projections : Projections) : Prop :=
  ∀ row ∈ projections.currentWork, row.counters = countEdges (edgesOf projections row.workRef)

/-! ## Steps that leave a work alone -/

def Log.Derives (log : Log) (workRef : String) : Prop :=
  ∃ fact ∈ log.eventWork, fact.workRef = workRef

/-- Retired, or with a result: no recomputation of the work counts again. -/
def Log.Closes (log : Log) (workRef : String) : Prop :=
  (∃ fact ∈ log.eventWorkRetired, fact.workRef = workRef) ∨
    ∃ fact ∈ log.eventResult, fact.workRef = workRef

/-- The facts that a step adds leave the counts of every closed work as they are. -/
structure Undisturbed (log : Log) (projections : Projections) (next : Log) : Prop where
  /-- A work that is derived after it was closed has no edge yet. -/
  late : ∀ workRef, ¬log.Derives workRef → next.Derives workRef → next.Closes workRef →
    edgesOf projections workRef = []
  /-- What is newly declared of a closed work was declared before. -/
  declared : ∀ fact ∈ next.eventWorkDependency, fact ∉ log.eventWorkDependency →
    next.Derives fact.workRef → next.Closes fact.workRef →
    ∃ edge ∈ projections.currentWorkDependency,
      edge.workRef = fact.workRef ∧ edge.dependencyWorkRef = fact.dependencyWorkRef
  /-- An edge of a closed work counts as before. -/
  turned : ∀ edge ∈ projections.currentWorkDependency,
    next.Derives edge.workRef → next.Closes edge.workRef →
    ∀ state, Decided next edge.dependencyWorkRef .retired depState .pending state →
      state.counted = edge.dependencyState.counted

/-! ## Counting -/

theorem countEdges_perm {left right : List CurrentWorkDependency} (perm : left.Perm right) :
    countEdges left = countEdges right := by
  unfold countEdges
  rw [perm.length_eq, perm.countP_eq, perm.countP_eq]

theorem countEdges_map {edges : List CurrentWorkDependency}
    {turn : CurrentWorkDependency → CurrentWorkDependency}
    (same : ∀ edge ∈ edges,
      (turn edge).dependencyState.counted = edge.dependencyState.counted) :
    countEdges (edges.map turn) = countEdges edges := by
  unfold countEdges
  rw [List.length_map, List.countP_map, List.countP_map]
  congr 2
  · refine List.countP_congr fun edge member => ?_
    simp only [Function.comp, same edge member]
  · refine List.countP_congr fun edge member => ?_
    simp only [Function.comp, same edge member]

/-- The rows after are the rows before, some of them in another state. -/
def Turned (before after : Projections) : Prop :=
  ∃ turn : CurrentWorkDependency → CurrentWorkDependency,
    (∀ edge, (turn edge).workRef = edge.workRef) ∧
    (∀ edge, (turn edge).dependencyWorkRef = edge.dependencyWorkRef) ∧
    after.currentWorkDependency.rows = before.currentWorkDependency.rows.map turn

theorem Turned.counts {before after : Projections} (turned : Turned before after)
    {workRef : String}
    (same : ∀ edge ∈ before.currentWorkDependency, edge.workRef = workRef →
      ∀ now ∈ after.currentWorkDependency, now.dependencyWorkRef = edge.dependencyWorkRef →
        now.workRef = workRef → now.dependencyState.counted = edge.dependencyState.counted) :
    countEdges (edgesOf after workRef) = countEdges (edgesOf before workRef) := by
  obtain ⟨turn, works, dependencies, rows⟩ := turned
  have edges : edgesOf after workRef = (edgesOf before workRef).map turn := by
    unfold edgesOf
    rw [rows, List.filter_map]
    congr 2
    funext edge
    simp only [Function.comp, works]
  rw [edges]
  refine countEdges_map fun edge member => ?_
  obtain ⟨held, named⟩ := List.mem_filter.mp member
  have own := of_decide_eq_true named
  refine same edge held own (turn edge) ?_ (dependencies edge) ((works edge).trans own)
  rw [← Table.mem_rows, rows]
  exact List.mem_map_of_mem held

theorem update_turned {before : Projections} {condition : CurrentWorkDependency → Bool}
    {set : CurrentWorkDependency → CurrentWorkDependency} {keeps}
    (works : ∀ edge, (set edge).workRef = edge.workRef)
    (dependencies : ∀ edge, (set edge).dependencyWorkRef = edge.dependencyWorkRef) :
    Turned before { before with
      currentWorkDependency := before.currentWorkDependency.update condition set keeps } := by
  refine ⟨fun edge => if condition edge then set edge else edge, fun edge => ?_, fun edge => ?_,
    rfl⟩
  · dsimp only
    split
    · exact works edge
    · rfl
  · dsimp only
    split
    · exact dependencies edge
    · rfl

theorem settleEdges_turned {log : Log} {before after : Projections} {workRef : String}
    {onlyDependent : Option String}
    (done : settleEdges log before workRef onlyDependent = .ok after) :
    Turned before after ∧ after.currentWork = before.currentWork ∧
      after.resultOccurrenceQuarantine = before.resultOccurrenceQuarantine := by
  unfold settleEdges at done
  by_cases dead : retiredFact log workRef = true
  · rw [if_pos dead] at done
    cases done
    exact ⟨update_turned (fun _ => rfl) fun _ => rfl, rfl, rfl⟩
  · rw [if_neg dead] at done
    unfold applyLatestResultToDependents at done
    obtain ⟨result, _, done⟩ := bind_ok.mp done
    cases result with
    | none =>
        simp only [pure_ok] at done
        subst done
        exact ⟨⟨id, fun _ => rfl, fun _ => rfl, (List.map_id _).symm⟩, rfl, rfl⟩
    | some result =>
        simp only [pure_ok] at done
        subst done
        exact ⟨update_turned (fun _ => rfl) fun _ => rfl, rfl, rfl⟩

/-! ## Recomputing works -/

/-- What the recomputation of a work finds: it is retired, or has a result that counts. -/
def Settles (log : Log) (projections : Projections) (workRef : String) : Prop :=
  retiredFact log workRef = true ∨
    resultOf log projections.resultOccurrenceQuarantine workRef ≠ none

theorem Settles.closes {log : Log} {projections : Projections} {workRef : String}
    (held : log.WorkHeld) (settles : Settles log projections workRef) : log.Closes workRef := by
  rcases settles with dead | resulted
  · exact .inl (retiredFact_iff.mp dead)
  · obtain ⟨fact, found⟩ := Option.ne_none_iff_exists'.mp resulted
    obtain ⟨member, _⟩ := latestOf_isLatest
      (fun fact member => held.results fact (List.mem_filter.mp member).1) found
    obtain ⟨inLog, named⟩ := List.mem_filter.mp member
    exact .inr ⟨fact, inLog, (of_decide_eq_true named).1⟩

/-- A recomputed row counts its edges; or its work is closed, and it counts as it did, or
nothing where it is new. -/
theorem recomputeWorkState_counters {log : Log} {scan : Scan} {before after : Projections}
    {workRef : String}
    (absent : deriveOf log workRef = none → ∀ row ∈ before.currentWork, row.workRef ≠ workRef)
    (done : recomputeWorkState log scan before workRef = .ok after) :
    ∀ row ∈ after.currentWork, row.workRef = workRef →
      ¬Settles log before workRef ∧ row.counters = countEdges (edgesOf before workRef) ∨
      Settles log before workRef ∧
        ((∃ old ∈ before.currentWork, old.workRef = workRef ∧ row.counters = old.counters) ∨
          (∀ old ∈ before.currentWork, old.workRef ≠ workRef) ∧ row.counters = (0, 0, 0)) := by
  unfold recomputeWorkState at done
  simp only [bind_ok] at done
  obtain ⟨derived, queried, done⟩ := done
  have derivedEq : derived = deriveOf log workRef := latestRow_ok queried
  intro row member named
  cases derived with
  | none =>
      simp only [pure_ok] at done
      subst done
      exact absurd named (absent derivedEq.symm row member)
  | some derive =>
      simp only [bind_ok] at done
      obtain ⟨result, read, done⟩ := done
      have resultEq : result = resultOf log before.resultOccurrenceQuarantine workRef :=
        latestRow_ok read
      by_cases idle : (!retiredFact log workRef && result.isNone) = true
      · -- the one branch that counts
        rw [if_pos idle] at done
        simp only [pure_ok] at done
        subst done
        simp only [Bool.and_eq_true, Bool.not_eq_true', Option.isNone_iff_eq_none] at idle
        obtain ⟨alive, rfl⟩ := idle
        refine .inl ⟨?_, ?_⟩
        · rintro (dead | resulted)
          · rw [alive] at dead
            cases dead
          · exact resulted resultEq.symm
        unfold recomputeReadiness at member
        dsimp only at member
        rw [Table.mem_update] at member
        rcases member with ⟨old, _, _, rfl⟩ | ⟨written, unmet⟩
        · exact countEdges_perm (scan.perm _)
        · have active : row.execution ≠ .retired := by
            rcases Table.mem_upsert.mp written with ⟨rfl, _⟩ | ⟨old, _, _, rfl⟩ | ⟨_, apart⟩
            · simp [alive]
            · simp [alive]
            · exact absurd named apart
          rw [decide_eq_true ⟨named, active⟩] at unmet
          cases unmet
      · rw [if_neg idle] at done
        simp only [pure_ok] at done
        subst done
        right
        refine ⟨?_, ?_⟩
        · unfold Settles
          rw [← resultEq]
          by_cases dead : retiredFact log workRef = true
          · exact .inl dead
          · right
            rintro rfl
            simp [dead] at idle
        · rcases Table.mem_upsert.mp member with ⟨rfl, fresh⟩ | ⟨old, held, own, rfl⟩ | ⟨_, apart⟩
          · exact .inr ⟨Table.holds_eq_false.mp fresh, rfl⟩
          · exact .inl ⟨old, held, own, rfl⟩
          · exact absurd named apart

/-- Works have rows as they are derived. -/
def Rowed (log : Log) (projections : Projections) : Prop :=
  ∀ workRef, (∃ row ∈ projections.currentWork, row.workRef = workRef) ↔
    deriveOf log workRef ≠ none

theorem WorkRight.rowed {log : Log} {projections : Projections} {workRef : String}
    (right : WorkRight log projections workRef) :
    (∃ row ∈ projections.currentWork, row.workRef = workRef) ↔ deriveOf log workRef ≠ none := by
  unfold WorkRight at right
  cases derived : deriveOf log workRef with
  | none =>
      rw [derived] at right
      exact iff_of_false (fun ⟨row, held, named⟩ => right row held named) (fun some => some rfl)
  | some derive =>
      rw [derived] at right
      obtain ⟨row, held, named, _⟩ := right
      exact iff_of_true ⟨row, held, named⟩ (by simp)

theorem Rowed.absent {log : Log} {projections : Projections} (rowed : Rowed log projections)
    {workRef : String} (underived : deriveOf log workRef = none) :
    ∀ row ∈ projections.currentWork, row.workRef ≠ workRef :=
  fun row held named => (rowed workRef).mp ⟨row, held, named⟩ underived

theorem Rowed.recomputed {log : Log} {scan : Scan} {before after : Projections}
    {workRef : String} (rowed : Rowed log before)
    (done : recomputeWorkState log scan before workRef = .ok after) : Rowed log after := by
  obtain ⟨_, right, others⟩ := recomputeWorkState_right rowed.absent done
  intro other
  by_cases mine : other = workRef
  · exact mine ▸ right.rowed
  · rw [← rowed other]
    constructor
    · rintro ⟨row, held, named⟩
      exact ⟨row, (others row fun own => mine (named.symm.trans own)).mp held, named⟩
    · rintro ⟨row, held, named⟩
      exact ⟨row, (others row fun own => mine (named.symm.trans own)).mpr held, named⟩

/-- Where every derived work has a row: each row counts its edges, or as it did, and the latter
only of a closed work where it was recomputed. -/
theorem recomputeWorks_counters {log : Log} {scan : Scan} {works : List String}
    {before after : Projections} (rowed : Rowed log before)
    (done : works.foldlM (recomputeWorkState log scan) before = .ok after) :
    SameEdges before after ∧ ∀ row ∈ after.currentWork,
      row.counters = countEdges (edgesOf before row.workRef) ∨
      (row.workRef ∈ works → Settles log before row.workRef) ∧
        ∃ old ∈ before.currentWork, old.workRef = row.workRef ∧ row.counters = old.counters := by
  induction works generalizing before with
  | nil =>
      simp only [List.foldlM_nil, pure_ok] at done
      subst done
      exact ⟨⟨rfl, rfl⟩, fun row held => .inr ⟨fun listed => (by cases listed), row, held, rfl, rfl⟩⟩
  | cons workRef works ih =>
      simp only [List.foldlM_cons, bind_ok] at done
      obtain ⟨middle, first, rest⟩ := done
      obtain ⟨same, _, others⟩ := recomputeWorkState_right rowed.absent first
      obtain ⟨sameRest, counted⟩ := ih (rowed.recomputed first) rest
      have edges : ∀ other, edgesOf middle other = edgesOf before other := fun other => by
        unfold edgesOf
        rw [same.edges]
      have settles : ∀ other, Settles log middle other → Settles log before other := by
        intro other
        unfold Settles
        rw [same.quarantine]
        exact id
      refine ⟨⟨sameRest.edges.trans same.edges, sameRest.quarantine.trans same.quarantine⟩,
        fun row held => ?_⟩
      rcases counted row held with right | ⟨closed, old, inMiddle, named, kept⟩
      · rw [edges] at right
        exact .inl right
      · by_cases mine : row.workRef = workRef
        · rcases recomputeWorkState_counters rowed.absent first old inMiddle (named.trans mine)
            with ⟨_, right⟩ | ⟨shut, ⟨older, inBefore, own, same⟩ | ⟨unheld, _⟩⟩
          · rw [kept, right, mine]
            exact .inl rfl
          · refine .inr ⟨fun _ => mine ▸ shut, older, inBefore, own.trans mine.symm, ?_⟩
            rw [kept, same]
          · -- a derived work has a row already
            obtain ⟨older, inBefore, own⟩ := (rowed workRef).mpr
              ((rowed.recomputed first workRef).mp ⟨old, inMiddle, named.trans mine⟩)
            exact absurd own (unheld older inBefore)
        · refine .inr ⟨fun listed => ?_, old, ?_, named, kept⟩
          · exact settles _ (closed ((List.mem_cons.mp listed).resolve_left mine))
          · exact (others old fun own => mine (named.symm.trans own)).mp inMiddle

/-! ## One reduction -/

theorem CountersRight.stable {before after : Projections} (same : SameWorks before after)
    (right : CountersRight before) : CountersRight after := by
  intro row held
  unfold edgesOf
  rw [same.works] at held
  rw [same.edges]
  exact right row held

theorem Log.Derives.of_deriveOf {log : Log} {workRef : String} (held : log.WorkHeld)
    (derived : deriveOf log workRef ≠ none) : log.Derives workRef := by
  obtain ⟨fact, found⟩ := Option.ne_none_iff_exists'.mp derived
  obtain ⟨member, _⟩ := latestOf_isLatest
    (fun fact member => held.derives fact (List.mem_filter.mp member).1) found
  obtain ⟨inLog, named⟩ := List.mem_filter.mp member
  exact ⟨fact, inLog, of_decide_eq_true named⟩

theorem Log.Derives.deriveOf {log : Log} {workRef : String} (held : log.WorkHeld)
    (derives : log.Derives workRef) : Kawa.deriveOf log workRef ≠ none := by
  obtain ⟨fact, inLog, named⟩ := derives
  unfold Kawa.deriveOf
  rw [ne_eq, latestOf_eq_none fun fact member => held.derives fact (List.mem_filter.mp member).1]
  exact List.ne_nil_of_mem (List.mem_filter.mpr ⟨inLog, decide_eq_true named⟩)

/-- The state of an edge is decided by the facts of what it waits for. -/
theorem DagSound.edge_decided {log : Log} {projections : Projections}
    (sound : DagSound log projections) {edge : CurrentWorkDependency}
    (held : edge ∈ projections.currentWorkDependency) :
    Decided log edge.dependencyWorkRef .retired depState .pending edge.dependencyState := by
  have state := sound.edges edge held
  unfold stateOf at state
  refine sound.decided (fun dead => ?_) (fun alive fact result => ?_) fun alive result => ?_
  · rwa [if_pos dead] at state
  · rw [if_neg (by simp [alive]), result] at state
    exact state
  · rw [if_neg (by simp [alive]), result] at state
    exact state

section Reductions

variable {log next : Log} {scan : Scan} {before own after : Projections}

/-- What a retirement or a result makes of the counters: it turns edges into its own work only,
and every dependent that is still open counts again. -/
theorem Frontier.counted {workRef : String} (frontier : Frontier log before workRef)
    (rowed : Rowed log before)
    (recomputed : recomputeWorkState log scan before workRef = .ok own)
    (done : propagateToDependents log scan own workRef = .ok after)
    (turned : ∀ edge ∈ before.currentWorkDependency,
      log.Derives edge.workRef → log.Closes edge.workRef →
      ∀ state, Decided log edge.dependencyWorkRef .retired depState .pending state →
        state.counted = edge.dependencyState.counted)
    (right : CountersRight before) : CountersRight after := by
  have sound := frontier.propagated recomputed done
  obtain ⟨sameOwn, _, others⟩ := recomputeWorkState_right rowed.absent recomputed
  simp only [propagateToDependents, bind_ok] at done
  obtain ⟨settled, settling, folded⟩ := done
  obtain ⟨moved, works, unquarantined⟩ := settleEdges_turned settling
  have rowedSettled : Rowed log settled := fun other => by
    rw [works]
    exact rowed.recomputed recomputed other
  obtain ⟨same, counted⟩ := recomputeWorks_counters rowedSettled folded
  have edgesAfter : ∀ other, edgesOf after other = edgesOf settled other := fun other => by
    unfold edgesOf
    rw [same.edges]
  have edgesOwn : ∀ other, edgesOf own other = edgesOf before other := fun other => by
    unfold edgesOf
    rw [sameOwn.edges]
  intro row held
  rw [edgesAfter]
  rcases counted row held with now | ⟨closed, old, inSettled, named, kept⟩
  · exact now
  have derived : deriveOf log row.workRef ≠ none := sound.works row.workRef |>.rowed.mp
    ⟨row, held, rfl⟩
  -- before the edges were turned, the row counted them
  have was : old.counters = countEdges (edgesOf own row.workRef) := by
    rw [works] at inSettled
    rw [edgesOwn]
    by_cases mine : row.workRef = workRef
    · rcases recomputeWorkState_counters rowed.absent recomputed old inSettled (named.trans mine)
        with ⟨_, now⟩ | ⟨_, ⟨older, inBefore, itself, same⟩ | ⟨unheld, _⟩⟩
      · rw [now, mine]
      · rw [same, right older inBefore, itself, mine]
      · obtain ⟨older, inBefore, itself⟩ := (rowed row.workRef).mpr derived
        exact absurd (itself.trans mine) (unheld older inBefore)
    · have inBefore := (others old fun itself => mine (named.symm.trans itself)).mp inSettled
      rw [right old inBefore, named]
  rw [kept, was]
  refine (moved.counts fun edge inOwn ofRow now inNow into ofSame => ?_).symm
  rw [sameOwn.edges] at inOwn
  have decided : Decided log edge.dependencyWorkRef .retired depState .pending
      now.dependencyState := by
    rw [← into]
    exact sound.edge_decided (same.edges ▸ inNow)
  by_cases mine : edge.dependencyWorkRef = workRef
  · have listed : row.workRef ∈ ((settled.currentWorkDependency.rows.filter
        (·.dependencyWorkRef = workRef)).map (·.workRef)).dedup := by
      rw [List.mem_dedup, List.mem_map]
      exact ⟨now, List.mem_filter.mpr ⟨inNow, decide_eq_true (into.trans mine)⟩, ofSame⟩
    exact turned edge inOwn (ofRow ▸ .of_deriveOf frontier.held derived)
      (ofRow ▸ (closed listed).closes frontier.held) _ decided
  · have quarantine : after.resultOccurrenceQuarantine = before.resultOccurrenceQuarantine :=
      same.quarantine.trans (unquarantined.trans sameOwn.quarantine)
    rw [sound.edges now (same.edges ▸ inNow), frontier.edges edge inOwn mine, into, quarantine]

/-- A declaration adds an edge of its own work only, and turns no edge that was there. -/
theorem DagSound.declare_counted {p : WorkDependencyDeclared} (sound : DagSound log before)
    (fact : ∃ fact ∈ log.eventWorkDependency, fact.workRef = p.workRef ∧
      fact.dependencyWorkRef = p.dependencyWorkRef ∧ fact.satisfactionPolicy = p.satisfactionPolicy)
    (done : declareDependency log scan before p = .ok after)
    (declared : log.Derives p.workRef → log.Closes p.workRef →
      ∃ edge ∈ before.currentWorkDependency,
        edge.workRef = p.workRef ∧ edge.dependencyWorkRef = p.dependencyWorkRef)
    (right : CountersRight before) : CountersRight after := by
  have soundAfter := sound.declare fact done
  simp only [declareDependency, bind_ok] at done
  obtain ⟨settled, settling, recomputed⟩ := done
  obtain ⟨moved, works, unquarantined⟩ := settleEdges_turned settling
  have rowed : Rowed log settled := fun other => by
    rw [works]
    exact (sound.works other).rowed
  obtain ⟨same, _, others⟩ := recomputeWorkState_right rowed.absent recomputed
  have edgesAfter : ∀ other, edgesOf after other = edgesOf settled other := fun other => by
    unfold edgesOf
    rw [same.edges]
  -- an edge that was there has the state that its facts decide, before and after
  have unturned : ∀ {workRef : String}, (∀ edge, edge ∈ before.currentWorkDependency.insertNew
        { workRef := p.workRef
          dependencyWorkRef := p.dependencyWorkRef
          satisfactionPolicy := p.satisfactionPolicy
          dependencyState := .pending
          resultRef := none } → edge.workRef = workRef → edge ∈ before.currentWorkDependency) →
      countEdges (edgesOf settled workRef) = countEdges (edgesOf { before with
        currentWorkDependency := before.currentWorkDependency.insertNew
          { workRef := p.workRef
            dependencyWorkRef := p.dependencyWorkRef
            satisfactionPolicy := p.satisfactionPolicy
            dependencyState := .pending
            resultRef := none } } workRef) := by
    intro workRef old
    refine moved.counts fun edge held ofWork now inNow into _ => ?_
    have quarantine : after.resultOccurrenceQuarantine = before.resultOccurrenceQuarantine :=
      same.quarantine.trans unquarantined
    rw [soundAfter.edges now (same.edges ▸ inNow), sound.edges edge (old edge held ofWork), into,
      quarantine]
  intro row held
  rw [edgesAfter]
  by_cases mine : row.workRef = p.workRef
  · rcases recomputeWorkState_counters rowed.absent recomputed row held mine
      with ⟨_, now⟩ | ⟨settles, ⟨old, inSettled, itself, kept⟩ | ⟨unheld, _⟩⟩
    · rw [now, mine]
    · have derives : log.Derives p.workRef :=
        .of_deriveOf sound.held ((rowed p.workRef).mp ⟨old, inSettled, itself⟩)
      obtain ⟨edge, inBefore, ofWork, into⟩ := declared derives (settles.closes sound.held)
      have taken : before.currentWorkDependency.holds (p.workRef, p.dependencyWorkRef) = true :=
        Table.holds_iff.mpr ⟨edge, inBefore, Prod.ext ofWork into⟩
      rw [mine, unturned fun edge held _ => (Table.mem_insertNew.mp held).resolve_right
        fun fresh => by rw [taken] at fresh; cases fresh.2]
      rw [works] at inSettled
      rw [kept, right old inSettled, itself]
      unfold edgesOf Table.insertNew
      rw [dif_neg (by rw [taken]; simp)]
    · obtain ⟨old, inSettled, itself⟩ := (rowed p.workRef).mpr
        ((soundAfter.works p.workRef).rowed.mp ⟨row, held, mine⟩)
      exact absurd itself (unheld old inSettled)
  · have inBefore := (others row mine).mp held
    rw [works] at inBefore
    rw [right row inBefore, unturned fun edge held ofRow =>
      (Table.mem_insertNew.mp held).resolve_right fun fresh => mine
        (ofRow.symm.trans (congrArg CurrentWorkDependency.workRef fresh.1)),
      edgesOf_insertNew fun ofRow => mine ofRow.symm]

/-- A derivation of a closed work that is new counts nothing, so it may have no edge. -/
theorem DagSound.derived_counted {workRef : String}
    (absent : deriveOf log workRef = none → ∀ row ∈ before.currentWork, row.workRef ≠ workRef)
    (held : log.WorkHeld)
    (done : recomputeWorkState log scan before workRef = .ok after)
    (late : (∀ row ∈ before.currentWork, row.workRef ≠ workRef) → log.Derives workRef →
      log.Closes workRef → edgesOf before workRef = [])
    (right : CountersRight before) : CountersRight after := by
  obtain ⟨same, now, others⟩ := recomputeWorkState_right absent done
  intro row inAfter
  have edges : edgesOf after row.workRef = edgesOf before row.workRef := by
    unfold edgesOf
    rw [same.edges]
  rw [edges]
  by_cases mine : row.workRef = workRef
  · rcases recomputeWorkState_counters absent done row inAfter mine
      with ⟨_, counted⟩ | ⟨settles, ⟨old, inBefore, itself, kept⟩ | ⟨unheld, zero⟩⟩
    · rw [counted, mine]
    · rw [kept, right old inBefore, itself, mine]
    · have derives := Log.Derives.of_deriveOf held (now.rowed.mp ⟨row, inAfter, mine⟩)
      rw [zero, mine, late unheld derives (settles.closes held)]
      rfl
  · exact right row ((others row mine).mp inAfter)

end Reductions

variable {platform : Platform} {readPayload : String → Option Payload}

/-- One reduction that disturbs no closed work keeps the counters. -/
theorem CountersRight.reduce {log next : Log} {before after : Projections} {scan : Scan}
    {event : Event} {payload : Payload} (right : CountersRight before) (sound : DagSound log before)
    (stored : ∃ row ∈ log.events, row.eventId = event.eventId)
    (carried : event.payload = some payload)
    (inserted : insertPayload platform log event.eventId payload = .ok next)
    (reduced : Kawa.reduce next scan event before = .ok after)
    (undisturbed : Undisturbed log before next) : CountersRight after := by
  have written := insertPayload_works inserted
  have events := insertPayload_events inserted
  obtain ⟨linked, middle, touched, around, own, rest⟩ := reduce_works carried reduced
  have entered := sound.stable (SameWorkFacts.refl log) around
  have heldNext := written.held sound.held events stored
  replace right := right.stable around
  refine CountersRight.stable rest ?_
  have turned : ∀ edge ∈ linked.currentWorkDependency,
      next.Derives edge.workRef → next.Closes edge.workRef →
      ∀ state, Decided next edge.dependencyWorkRef .retired depState .pending state →
        state.counted = edge.dependencyState.counted := by
    rw [around.edges]
    exact undisturbed.turned
  have rowed : (∀ p, payload ≠ .workDerived p) → Rowed next linked := by
    intro underived other
    rw [written.deriveOf_kept events fun p same => absurd same (underived p)]
    exact (entered.works other).rowed
  cases payload with
  | planCreated p =>
      obtain ⟨_, done, made⟩ := map_ok.mp own
      cases made
      exact right.stable (recomputePlanState_works done)
  | planLifecycleChanged p =>
      obtain ⟨_, done, made⟩ := map_ok.mp own
      cases made
      exact right.stable (recomputePlanState_works done)
  | workDerived p =>
      obtain ⟨_, done, made⟩ := map_ok.mp own
      cases made
      have gained : deriveOf next p.workRef = none → deriveOf log p.workRef = none := by
        intro underived
        by_contra derived
        obtain ⟨fact, inLog, named⟩ := Log.Derives.of_deriveOf sound.held derived
        obtain ⟨added, rows, _⟩ := written.derives
        refine Log.Derives.deriveOf heldNext ⟨fact, ?_, named⟩ underived
        rw [← Table.mem_rows, rows]
        exact List.mem_append_left _ inLog
      refine DagSound.derived_counted (fun underived =>
        (entered.works p.workRef).absent (gained underived)) heldNext done
        (fun unheld derives closes => ?_) right
      have edges : edgesOf linked p.workRef = edgesOf before p.workRef := by
        unfold edgesOf
        rw [around.edges]
      rw [edges]
      refine undisturbed.late p.workRef (fun old => ?_) derives closes
      obtain ⟨row, inLinked, named⟩ := (entered.works p.workRef).rowed.mpr (old.deriveOf sound.held)
      exact unheld row inLinked named
  | workDependencyDeclared p =>
      obtain ⟨_, done, made⟩ := map_ok.mp own
      cases made
      obtain ⟨added, rows, new⟩ := written.dependencies
      obtain ⟨fact, fresh, named⟩ := new p rfl
      have inNext : fact ∈ next.eventWorkDependency := by
        rw [← Table.mem_rows, rows]
        exact List.mem_append_right _ fresh
      have unheld : fact ∉ log.eventWorkDependency := by
        have apart := next.eventWorkDependency.rows_nodup
        rw [rows] at apart
        exact fun old => List.disjoint_of_nodup_append apart old fresh
      refine (entered.stable (written.same events (fun _ same => by cases same)
        (fun _ same => by cases same) (fun _ same => by cases same)) (.refl _)).declare_counted
        ⟨fact, inNext, named⟩ done (fun derives closes => ?_) right
      rw [around.edges, ← named.1, ← named.2.1]
      rw [← named.1] at derives closes
      exact undisturbed.declared fact inNext unheld derives closes
  | resultRecorded p =>
      obtain ⟨_, done, made⟩ := map_ok.mp own
      cases made
      simp only [reduceResult, bind_ok] at done
      obtain ⟨contained, containing, _, recomputed, propagated⟩ := done
      obtain ⟨works, edges, _⟩ := entered.contained written events stored containing
      refine (entered.recorded_frontier written events stored containing).counted (fun other => ?_)
        recomputed propagated ?_ ?_
      · rw [works]
        exact rowed (fun _ same => by cases same) other
      · rw [edges]
        exact turned
      · intro row held
        unfold edgesOf
        rw [works] at held
        rw [edges]
        exact right row held
  | workRetired p =>
      obtain ⟨_, done, made⟩ := map_ok.mp own
      cases made
      simp only [reduceRetired, bind_ok] at done
      obtain ⟨_, recomputed, propagated⟩ := done
      exact (entered.retired_frontier written events stored).counted
        (rowed fun _ same => by cases same) recomputed propagated turned right
  | linkAsserted p =>
      obtain ⟨_, done, made⟩ := map_ok.mp own
      cases made
      exact right.stable (insertLink_works done)
  | observationRecorded p =>
      cases own
      exact right
  | claimRecorded p =>
      cases own
      exact right.stable ⟨rfl, rfl, rfl⟩
  | authorityConfiguration p =>
      cases own
      exact right
  | authorityReceipt p =>
      cases own
      exact right

/-! ## Runs -/

section Runs

variable (platform readPayload)

/-- Each event of a batch leaves the closed works alone where it arrives. -/
def BatchUndisturbed (receiver : Receiver) (store : Store) (clock : Option HLC)
    (batch : List Event) : Prop :=
  ∀ front event rest state next, batch = front ++ event :: rest →
    admitBatch platform receiver store clock front = .ok state →
    admitOne platform receiver state event = .ok next →
    Undisturbed state.store.log state.store.projections next.store.log

/-- Each event that a call reduces leaves the closed works alone. -/
def Call.undisturbed (store : Store) : Call → Prop
  | .emit .. => True
  | .emitReduce _ emitter live now recordedAt request =>
      ∀ next event, (emitter.emit platform live now recordedAt store.log request).2 =
        .ok (next, event) → Undisturbed store.log store.projections next
  | .deliver receiver clock batch => BatchUndisturbed platform receiver store clock batch
  | .pull receiver clock source sourceTrust pullerNode =>
      ∀ batch, servePull platform store.log source sourceTrust pullerNode
        receiver.requestedScopes = .ok batch → BatchUndisturbed platform receiver store clock batch
  | .archive receiver clock doc =>
      ∀ batch, verifyArchiveDoc platform readPayload receiver.keys doc = .ok batch →
        BatchUndisturbed platform { receiver with requestedScopes := none } store clock batch

end Runs

/-- Only the facts of works matter. -/
theorem Undisturbed.same {log other next : Log} {projections : Projections}
    (undisturbed : Undisturbed log projections next) (works : other.eventWork = log.eventWork)
    (dependencies : other.eventWorkDependency = log.eventWorkDependency) :
    Undisturbed other projections next := by
  refine ⟨fun workRef underived => ?_, fun fact held unheld => ?_, undisturbed.turned⟩
  · refine undisturbed.late workRef fun derives => underived ?_
    unfold Log.Derives
    rwa [works]
  · rw [dependencies] at unheld
    exact undisturbed.declared fact held unheld

theorem admitStep_counters {receiver : Receiver} {state next : AdmitState} {event : Event}
    (sound : DagSound state.store.log state.store.projections)
    (right : CountersRight state.store.projections)
    (step : AdmitStep platform receiver state event next)
    (undisturbed : Undisturbed state.store.log state.store.projections next.store.log) :
    CountersRight next.store.projections := by
  cases step with
  | kept log projections _ _ =>
      rw [projections]
      exact right
  | upgraded row upgrade _ _ =>
      obtain ⟨payload, middle, carried, upgraded, written, reduced⟩ := upgrade.written
      have now : row.upgraded event.scopeRef ∈ middle.events :=
        (upgradeRow_mem upgraded).mpr (.inl ⟨row, rowAt_mem upgrade.found, rfl, rfl⟩)
      obtain ⟨_, _, same⟩ := upgradeRow_ok upgraded
      exact right.reduce (sound.upgrade upgraded) ⟨_, now, upgrade.sameId⟩ carried written reduced
        (undisturbed.same (by rw [same]) (by rw [same]))
  | inserted stored passed form write _ _ =>
      obtain ⟨log, row, inserted, wrote⟩ := write.written
      obtain ⟨_, _, shape⟩ := inserted.envelope
      obtain ⟨_, same⟩ := inserted.appended
      rcases wrote with ⟨_, _, sameProjections⟩ | ⟨payload, carried, written, reduced⟩
      · rw [sameProjections]
        exact right
      · exact right.reduce (sound.insert inserted)
          ⟨row, inserted.mem_iff.mpr (.inr rfl), by rw [shape]⟩ carried written reduced
          (undisturbed.same (by rw [same]) (by rw [same]))

theorem admitBatch_counters {receiver : Receiver} {store : Store} {clock : Option HLC}
    {batch : List Event} {final : AdmitState} (sound : DagSound store.log store.projections)
    (right : CountersRight store.projections)
    (undisturbed : BatchUndisturbed platform receiver store clock batch)
    (admitted : admitBatch platform receiver store clock batch = .ok final) :
    CountersRight final.store.projections := by
  have both : DagSound final.store.log final.store.projections ∧
      CountersRight final.store.projections :=
    @foldlM_reached _ _ _ (fun state : AdmitState =>
        DagSound state.store.log state.store.projections ∧ CountersRight state.store.projections)
      _ _ _ _
      (fun front event rest state next split reached kept step =>
        ⟨admitStep_dag kept.1 (admitOne_ok step), admitStep_counters kept.1 kept.2
          (admitOne_ok step) (undisturbed front event rest state next split reached step)⟩)
      ⟨sound, right⟩ admitted
  exact both.2

theorem called_counters {store next : Store} {call : Call}
    (sound : DagSound store.log store.projections) (right : CountersRight store.projections)
    (reduces : ¬ call.unreduced) (undisturbed : call.undisturbed platform readPayload store)
    (called : Called platform readPayload store call next) : CountersRight next.projections := by
  cases call with
  | emit _ _ _ _ _ => exact absurd trivial reduces
  | emitReduce scan emitter live now recordedAt request =>
      obtain ⟨⟨after, event⟩, done, rfl⟩ := toOption_map_eq_some.mp called
      simp only [emitReduce, bind_ok, pure_ok] at done
      obtain ⟨⟨log, minted⟩, emitted, projections, reduced, made⟩ := done
      obtain ⟨row, middle, wrote⟩ := emit_ok emitted
      cases made
      obtain ⟨_, _, shape⟩ := wrote.inserted.envelope
      obtain ⟨_, same⟩ := wrote.inserted.appended
      exact right.reduce (sound.insert wrote.inserted)
        ⟨row, wrote.inserted.mem_iff.mpr (.inr rfl), by rw [shape]⟩ wrote.minted.payload
        wrote.payload reduced
        ((undisturbed log minted emitted).same (by rw [same]) (by rw [same]))
  | deliver receiver clock batch =>
      obtain ⟨final, admitted, rfl⟩ := toOption_map_eq_some.mp called
      exact admitBatch_counters sound right undisturbed admitted
  | pull receiver clock source sourceTrust pullerNode =>
      obtain ⟨final, pulled, rfl⟩ := toOption_map_eq_some.mp called
      simp only [pull, bind_ok] at pulled
      obtain ⟨batch, served, admitted⟩ := pulled
      exact admitBatch_counters sound right (undisturbed batch served) admitted
  | archive receiver clock doc =>
      obtain ⟨final, imported, rfl⟩ := toOption_map_eq_some.mp called
      simp only [archiveImport, bind_ok, pure_ok] at imported
      obtain ⟨batch, verified, admitted, mapped, rfl⟩ := imported
      change CountersRight admitted.store.projections
      suffices done : admitBatch platform { receiver with requestedScopes := none } store clock
          batch = .ok admitted from admitBatch_counters sound right (undisturbed batch verified) done
      cases result : admitBatch platform { receiver with requestedScopes := none } store clock
          batch with
      | error _ => rw [result] at mapped; cases mapped
      | ok value => rw [result] at mapped; cases mapped; rfl

/-! ## A late derivation -/

/-- A declaration leaves an edge of its work. -/
theorem DagSound.declare_edge {log : Log} {scan : Scan} {before after : Projections}
    {p : WorkDependencyDeclared} (sound : DagSound log before)
    (done : declareDependency log scan before p = .ok after) :
    edgesOf after p.workRef ≠ [] := by
  simp only [declareDependency, bind_ok] at done
  obtain ⟨settled, settling, recomputed⟩ := done
  obtain ⟨⟨turn, works, _, rows⟩, sameWorks, _⟩ := settleEdges_turned settling
  obtain ⟨edge, held, key⟩ := Table.exists_insertNew before.currentWorkDependency
    { workRef := p.workRef
      dependencyWorkRef := p.dependencyWorkRef
      satisfactionPolicy := p.satisfactionPolicy
      dependencyState := .pending
      resultRef := none }
  have absent : deriveOf log p.workRef = none → ∀ row ∈ settled.currentWork,
      row.workRef ≠ p.workRef := by
    rw [sameWorks]
    exact (sound.works p.workRef).absent
  obtain ⟨same, _, _⟩ := recomputeWorkState_right absent recomputed
  have inAfter : turn edge ∈ after.currentWorkDependency := by
    rw [same.edges, ← Table.mem_rows, rows]
    exact List.mem_map_of_mem held
  exact List.ne_nil_of_mem (List.mem_filter.mpr
    ⟨inAfter, decide_eq_true ((works edge).trans (congrArg Prod.fst key))⟩)

/-- Derived after it was closed, a work with an edge counts nothing. -/
theorem late_uncounted {log : Log} {scan : Scan} {before after : Projections} {workRef : String}
    (fresh : ∀ row ∈ before.currentWork, row.workRef ≠ workRef)
    (settles : Settles log before workRef) (edges : edgesOf before workRef ≠ [])
    (derived : deriveOf log workRef ≠ none)
    (done : recomputeWorkState log scan before workRef = .ok after) : ¬CountersRight after := by
  intro right
  obtain ⟨same, now, _⟩ := recomputeWorkState_right (fun _ => fresh) done
  obtain ⟨row, held, named⟩ := now.rowed.mpr derived
  have counts := right row held
  rw [named] at counts
  have kept : edgesOf after workRef = edgesOf before workRef := by
    unfold edgesOf
    rw [same.edges]
  rcases recomputeWorkState_counters (fun _ => fresh) done row held named
    with ⟨open_, _⟩ | ⟨_, ⟨old, inBefore, itself, _⟩ | ⟨_, zero⟩⟩
  · exact open_ settles
  · exact fresh old inBefore itself
  · rw [zero, kept] at counts
    have total : 0 = (edgesOf before workRef).length := congrArg Prod.fst counts
    exact edges (List.length_eq_zero_iff.mp total.symm)

namespace LateWork

open Overshadowed

def retirement : WorkRetired where
  workRef := "work"
  reason := .cancelled
  note := none

def dependency : WorkDependencyDeclared where
  workRef := "work"
  dependencyWorkRef := "other"
  satisfactionPolicy := .all

end LateWork

end Kawa
