import Kawa.ForkDetection

/-!
Delivering a batch again.  Each event of it has left a mark that the second pass meets: its
row, its upgraded row, the evidence of its fork, or a refusal after which nothing of its
origin has moved.  A pull that refuses nothing leaves nothing more to pull.
-/

namespace Kawa

open Result

variable {platform : Platform} {receiver : Receiver}

/-! ## What a pass leaves behind -/

/-- The origin's stream is refused for the rest of the pass. -/
def AdmitState.Halted (state : AdmitState) (originNode : String) : Prop :=
  originNode ∈ state.frozen ∨ originNode ∈ state.poisoned

/-- The row found later at a position is the row found there before, or its upgrade. -/
structure EventRow.Persists (row : EventRow) (now : Option EventRow) : Prop where
  found : ∃ held, now = some held ∧ held.eventId = row.eventId ∧
    (row.materialized = true → held.materialized = true)

/-- What one state of a pass promises of every later one. -/
structure Leaves (state final : AdmitState) : Prop where
  rows : ∀ node seq row, state.store.log.rowAt node seq = some row →
    row.Persists (final.store.log.rowAt node seq)
  head : ∀ node, (state.head node).1 ≤ (final.head node).1
  halted : ∀ node, state.Halted node → final.Halted node ∧ final.head node = state.head node ∧
    ∀ seq, final.store.log.rowAt node seq = state.store.log.rowAt node seq
  evidence : ∀ row ∈ state.store.security.forkEvidence, row ∈ final.store.security.forkEvidence

theorem Leaves.refl (state : AdmitState) : Leaves state state where
  rows _ _ row found := ⟨row, found, rfl, id⟩
  head _ := le_refl _
  halted _ held := ⟨held, rfl, fun _ => rfl⟩
  evidence _ held := held

theorem Leaves.trans {first second third : AdmitState} (left : Leaves first second)
    (right : Leaves second third) : Leaves first third where
  rows node seq row found := by
    obtain ⟨middle, found, sameId, whole⟩ := (left.rows node seq row found).found
    obtain ⟨held, found, heldId, heldWhole⟩ := (right.rows node seq middle found).found
    exact ⟨held, found, heldId.trans sameId, fun set => heldWhole (whole set)⟩
  head node := (left.head node).trans (right.head node)
  halted node held := by
    obtain ⟨halted, head, rows⟩ := left.halted node held
    obtain ⟨still, headLater, rowsLater⟩ := right.halted node halted
    exact ⟨still, headLater.trans head, fun seq => (rowsLater seq).trans (rows seq)⟩
  evidence row held := right.evidence row (left.evidence row held)

theorem halted_verdict (platform : Platform) (receiver : Receiver) {state : AdmitState}
    {event : Event} (halted : state.Halted event.originNode) :
    ∃ reason, receiver.verdict platform (state.view event.originNode) event = .reject reason := by
  unfold Receiver.verdict AdmitState.view
  by_cases frozen : event.originNode ∈ state.frozen
  · exact ⟨"origin_frozen", by simp [frozen]⟩
  · exact ⟨"predecessor_rejected", by simp [frozen, halted.resolve_left frozen]⟩

theorem admitOne_act {state next : AdmitState} {event : Event}
    (done : admitOne platform receiver state event = .ok next) :
    act platform receiver state event
      (receiver.verdict platform (state.view event.originNode) event) = .ok next := by
  rw [← admitOne_eq]
  exact done

/-- The verdict on an event of an origin that is not halted. -/
theorem open_verdict {state : AdmitState} {event : Event}
    (running : ¬ state.Halted event.originNode) :
    receiver.verdict platform (state.view event.originNode) event =
      if event.originSeq ≤ (state.head event.originNode).1 then
        receiver.heldVerdict platform
          (state.store.log.rowAt event.originNode event.originSeq) event
      else if event.originSeq ≠ (state.head event.originNode).1 + 1 then .reject "chain_gap"
      else if event.prevHash ≠ (state.head event.originNode).2 then .reject "chain_break"
      else (receiver.refusal platform event).elim .insert .reject := by
  obtain ⟨thawed, clean⟩ := not_or.mp running
  simp only [Receiver.verdict, AdmitState.view, thawed, clean, decide_false, Bool.false_eq_true,
    ↓reduceIte]
  cases receiver.refusal platform event <;> rfl

theorem mem_halted {state next : AdmitState} {event : Event} {verdict : Verdict}
    (acted : Acted platform receiver state event verdict next) (node : String) :
    next.Halted node ↔ state.Halted node ∨
      (event.originNode = node ∧ (verdict.freezes = true ∨ verdict.poisons = true)) := by
  unfold AdmitState.Halted
  rw [acted.frozen, acted.poisoned]
  cases verdict <;> simp [Verdict.freezes, Verdict.poisons, eq_comm] <;> tauto

theorem find_rowsAfter_persists {event : Event} {subjectRef : Option String} {verdict : Verdict}
    {rows : List EventRow} {origin : String} {seq : Int} {row : EventRow}
    (found : rows.find? (atPosition origin seq) = some row) :
    row.Persists
      ((rowsAfter receiver event subjectRef rows verdict).find? (atPosition origin seq)) := by
  cases verdict with
  | insert =>
      refine ⟨row, ?_, rfl, id⟩
      rw [rowsAfter, List.find?_append, found]
      rfl
  | upgrade held payload =>
      rw [find_rowsAfter_upgrade, found]
      refine ⟨_, rfl, ?_, ?_⟩ <;> dsimp only
      · split_ifs <;> rfl
      · split_ifs
        · exact fun _ => rfl
        · exact id
  | _ => exact ⟨row, found, rfl, id⟩

theorem rowAt_rows {log : Log} {rows : List EventRow} (same : log.events.rows = rows)
    (node : String) (seq : Int) : log.rowAt node seq = rows.find? (atPosition node seq) := by
  rw [← same]
  rfl

/-- An event of another origin, or one that inserts and upgrades nothing, leaves the rows of
an origin alone. -/
theorem act_rowAt {state next : AdmitState} {event : Event} {node : String}
    (quiet : event.originNode ≠ node ∨ (receiver.verdict platform
      (state.view event.originNode) event).admits = false)
    (done : admitOne platform receiver state event = .ok next) (seq : Int) :
    next.store.log.rowAt node seq = state.store.log.rowAt node seq := by
  rcases quiet with foreign | silent
  · have same : SameFor node (fun _ => False) state state :=
      ⟨rfl, fun _ never => never.elim, rfl, fun _ _ _ => Iff.rfl⟩
    exact (same.other foreign (fun _ never => never.elim) done).rowAt seq
  · rw [admitOne_eq] at done
    obtain ⟨⟨subjectRef, _, rows⟩, _⟩ := act_rows done
    rw [rowAt_rows rows, rowAt_rows rfl]
    generalize receiver.verdict platform (state.view event.originNode) event = verdict at silent
    cases verdict with
    | insert => cases silent
    | upgrade held payload => cases silent
    | _ => rfl

theorem admitOne_leaves {state next : AdmitState} {event : Event}
    (done : admitOne platform receiver state event = .ok next) : Leaves state next := by
  have acted := act_acted (admitOne_act done)
  have wrote := act_rows (admitOne_act done)
  obtain ⟨⟨subjectRef, _, rows⟩, _, heads⟩ := wrote
  constructor
  · intro node seq row found
    rw [rowAt_rows rows]
    exact find_rowsAfter_persists found
  · intro node
    rw [heads node]
    split_ifs with moved
    · have verdictOf : receiver.verdict platform (state.view event.originNode) event = .insert := by
        revert moved
        cases receiver.verdict platform (state.view event.originNode) event <;>
          simp [Verdict.inserts]
      have next := (verdict_insert verdictOf).1
      rw [← moved.2]
      change event.originSeq = (state.head event.originNode).1 + 1 at next
      exact next ▸ le_of_lt (Int.lt_succ _)
    · exact le_refl _
  · intro node halted
    have quiet : event.originNode ≠ node ∨ ∃ reason,
        receiver.verdict platform (state.view event.originNode) event = .reject reason := by
      by_cases mine : event.originNode = node
      · exact .inr (halted_verdict platform receiver (mine ▸ halted))
      · exact .inl mine
    refine ⟨(mem_halted acted node).mpr (.inl halted), ?_, ?_⟩
    · rw [heads node, if_neg ?_]
      rintro ⟨inserts, mine⟩
      obtain foreign | ⟨reason, rejected⟩ := quiet
      · exact foreign mine
      · rw [rejected] at inserts
        cases inserts
    · refine act_rowAt (quiet.imp_right ?_) done
      rintro ⟨reason, rejected⟩
      rw [rejected]
      rfl
  · exact (admitOne_freezes done).kept

theorem foldlM_headsAgree {state final : AdmitState} {batch : List Event}
    (agree : HeadsAgree state)
    (done : batch.foldlM (admitOne platform receiver) state = .ok final) : HeadsAgree final :=
  foldlM_invariant (fun _ _ _ _ held one => admitStep_headsAgree held (admitOne_ok one)) agree done

theorem foldlM_leaves {state final : AdmitState} {batch : List Event}
    (done : batch.foldlM (admitOne platform receiver) state = .ok final) : Leaves state final :=
  foldlM_invariant (fun _ _ _ _ held one => held.trans (admitOne_leaves one)) (.refl _) done

/-! ## The second pass -/

/-- A call at another moment: `now_ms`, or else the wall clock, is what the time gate reads. -/
def Receiver.calledAt (receiver : Receiver) (nowMs : Option Int) (wallMs : Int)
    (ambient : Ambient) : Receiver :=
  { receiver with
    nowMs := nowMs.getD wallMs
    ambient := ambient }

/-- The later call judges by the same registries and scopes, and admits no event of the batch
for which it was too early before. -/
structure Receiver.Repeats (platform : Platform) (receiver later : Receiver) (batch : List Event) :
    Prop where
  keys : later.keys = receiver.keys
  trust : later.trust = receiver.trust
  scopes : later.requestedScopes = receiver.requestedScopes
  refuses : ∀ event ∈ batch, later.refusal platform event = none →
    receiver.refusal platform event = none

/-- A second pass that has changed nothing so far, and refuses what the first one refused. -/
structure Redelivered (final : Store) (clock : Option HLC) (first second : AdmitState) :
    Prop where
  store : second.store = final
  admitted : second.admitted = []
  clock : second.clock = clock
  heads : ∀ node, second.head node = final.log.headMark node
  halted : ∀ node, first.Halted node → second.Halted node

theorem unrequested_congr {later : Receiver}
    (scopes : later.requestedScopes = receiver.requestedScopes) (event : Event) :
    later.unrequested event = receiver.unrequested event := by
  unfold Receiver.unrequested
  rw [scopes]

theorem Receiver.Repeats.rivalKey {later : Receiver} {batch : List Event}
    (repeats : receiver.Repeats platform later batch) (event : Event) :
    later.rivalKey platform event = receiver.rivalKey platform event := by
  unfold Receiver.rivalKey
  rw [repeats.keys, repeats.trust]

/-- A verdict that writes nothing and refuses nothing. -/
def Verdict.quiet : Verdict → Bool
  | .keep => true
  | .report _ => true
  | _ => false

theorem act_quiet (platform : Platform) (receiver : Receiver) (state : AdmitState) (event : Event)
    {verdict : Verdict} (quiet : verdict.quiet = true) :
    ∃ next, act platform receiver state event verdict = .ok next ∧
      next.store = state.store ∧ next.admitted = state.admitted ∧ next.clock = state.clock ∧
      next.heads = state.heads ∧ ∀ node, state.Halted node → next.Halted node := by
  cases verdict with
  | keep => exact ⟨_, rfl, rfl, rfl, rfl, rfl, fun _ held => held⟩
  | report reason => exact ⟨_, rfl, rfl, rfl, rfl, rfl, fun _ held => held⟩
  | _ => cases quiet

/-- A redelivered event whose row is held, and whose payload is not asked for any more. -/
theorem heldVerdict_quiet {held : EventRow} {event : Event}
    (stored : storableText event.originNode = true) (sameId : held.eventId = event.eventId)
    (settled : event.payload = none ∨ held.materialized = true ∨
      receiver.unrequested event = true ∨ event.verify platform = false) :
    (receiver.heldVerdict platform (some held) event).quiet = true := by
  simp only [Receiver.heldVerdict, stored, sameId, Bool.true_eq_false, ↓reduceIte]
  cases carried : event.payload with
  | none => rfl
  | some payload =>
      rw [carried] at settled
      dsimp only
      split_ifs with whole unrequested unverified
      · rfl
      · rfl
      · rfl
      · simp_all

/-- The log holds the event, and nothing of it is left to store. -/
structure Receiver.Settled (platform : Platform) (receiver : Receiver) (log : Log) (event : Event) :
    Prop where
  stored : storableText event.originNode = true
  below : event.originSeq ≤ (log.headMark event.originNode).1
  held : ∃ held, log.rowAt event.originNode event.originSeq = some held ∧
    held.eventId = event.eventId ∧ (event.payload = none ∨ held.materialized = true ∨
      receiver.unrequested event = true ∨ event.verify platform = false)

theorem Receiver.Settled.quiet {state : AdmitState} {event : Event}
    (settled : receiver.Settled platform state.store.log event)
    (heads : state.head event.originNode = state.store.log.headMark event.originNode)
    (running : ¬ state.Halted event.originNode) :
    (receiver.verdict platform (state.view event.originNode) event).quiet = true := by
  obtain ⟨held, found, sameId, done⟩ := settled.held
  rw [open_verdict running, if_pos (heads ▸ settled.below), found]
  exact heldVerdict_quiet settled.stored sameId done

theorem Receiver.Settled.congr {later : Receiver} {log : Log} {event : Event}
    (settled : receiver.Settled platform log event)
    (scopes : later.requestedScopes = receiver.requestedScopes) :
    later.Settled platform log event := by
  refine ⟨settled.stored, settled.below, ?_⟩
  rw [unrequested_congr scopes]
  exact settled.held

/-! ### What the first pass settles -/

theorem heldVerdict_freeze {row : Option EventRow} {event : Event} {held : EventRow} {key : String}
    (verdict : receiver.heldVerdict platform row event = .freeze held key) :
    row = some held ∧ held.eventId ≠ event.eventId ∧ receiver.rivalKey platform event = some key ∧
      storableText event.originNode = true := by
  have judged := heldVerdict_case platform receiver row event
  rw [verdict] at judged
  cases judged with
  | rival _ _ stored found other proven => exact ⟨found, other, proven, stored⟩

theorem verdict_freeze {state : AdmitState} {event : Event} {held : EventRow} {key : String}
    (verdict : receiver.verdict platform (state.view event.originNode) event = .freeze held key) :
    event.originSeq ≤ (state.head event.originNode).1 ∧
      state.store.log.rowAt event.originNode event.originSeq = some held ∧
      held.eventId ≠ event.eventId ∧ receiver.rivalKey platform event = some key ∧
      storableText event.originNode = true := by
  by_cases halted : state.Halted event.originNode
  · obtain ⟨reason, rejected⟩ := halted_verdict platform receiver halted
    rw [rejected] at verdict
    cases verdict
  rw [open_verdict halted] at verdict
  split_ifs at verdict with below
  · exact ⟨below, heldVerdict_freeze verdict⟩
  · cases gate : receiver.refusal platform event <;> rw [gate] at verdict <;> cases verdict

/-- What was refused on sight of an origin is refused again on the same sight. -/
theorem Receiver.Repeats.rejects {later : Receiver} {batch : List Event} {view : OriginView}
    {event : Event} {reason : String} (repeats : receiver.Repeats platform later batch)
    (listed : event ∈ batch) (rejected : receiver.verdict platform view event = .reject reason) :
    ∃ other, later.verdict platform view event = .reject other := by
  have held : later.heldVerdict platform (view.rowAt event.originSeq) event =
      receiver.heldVerdict platform (view.rowAt event.originSeq) event := by
    simp only [Receiver.heldVerdict, unrequested_congr repeats.scopes, repeats.rivalKey]
  unfold Receiver.verdict at rejected ⊢
  rw [held]
  split_ifs at rejected ⊢
  · exact ⟨_, rfl⟩
  · exact ⟨_, rfl⟩
  · exact ⟨_, rejected⟩
  · exact ⟨_, rfl⟩
  · exact ⟨_, rfl⟩
  · cases laterGate : later.refusal platform event with
    | none =>
        rw [repeats.refuses event listed laterGate] at rejected
        cases rejected
    | some other => exact ⟨other, rfl⟩

/-- What a pass neither refuses nor takes for a rival it leaves settled. -/
theorem admitOne_settles {state next last : AdmitState} {event : Event} (agree : HeadsAgree state)
    (agreeLast : HeadsAgree last) (done : admitOne platform receiver state event = .ok next)
    (leaves : Leaves next last)
    (passes : (receiver.verdict platform (state.view event.originNode) event).freezes = false ∧
      (receiver.verdict platform (state.view event.originNode) event).poisons = false) :
    receiver.Settled platform last.store.log event := by
  have acts := admitOne_act done
  have running : ¬ state.Halted event.originNode := by
    intro halted
    obtain ⟨reason, rejected⟩ := halted_verdict platform receiver halted
    rw [rejected] at passes
    cases passes.2
  obtain ⟨⟨subjectRef, _, wrote⟩, _, heads⟩ := act_rows acts
  have top := leaves.head event.originNode
  rw [agreeLast] at top
  rw [open_verdict running] at passes acts wrote heads
  by_cases below : event.originSeq ≤ (state.head event.originNode).1
  · have kept := (admitOne_leaves done).trans leaves
    have reached := (below.trans ((admitOne_leaves done).head _)).trans top
    rw [if_pos below] at passes acts wrote
    generalize verdictOf : receiver.heldVerdict platform
      (state.store.log.rowAt event.originNode event.originSeq) event = verdict at passes acts wrote
    have judged := heldVerdict_case platform receiver
      (state.store.log.rowAt event.originNode event.originSeq) event
    rw [verdictOf] at judged
    cases judged with
    | unstorable _ => cases acts
    | missing _ _ => cases passes.2
    | stranger _ _ _ _ _ => cases passes.2
    | rival _ _ _ _ _ _ => cases passes.1
    | kept held stored found sameId settled =>
        obtain ⟨now, foundNow, nowId, whole⟩ := (kept.rows _ _ _ found).found
        exact ⟨stored, reached, now, foundNow, nowId.trans sameId,
          settled.imp_right fun set => .inl (whole set)⟩
    | reported held reason stored found sameId settled =>
        obtain ⟨now, foundNow, nowId, _⟩ := (kept.rows _ _ _ found).found
        exact ⟨stored, reached, now, foundNow, nowId.trans sameId, .inr (.inr settled)⟩
    | upgraded held payload stored found sameId carried _ _ _ =>
        -- the upgraded row is whole from here on
        have upgraded := rowAt_rows wrote event.originNode event.originSeq
        rw [find_rowsAfter_upgrade] at upgraded
        change _ = Option.map _
          (state.store.log.rowAt event.originNode event.originSeq) at upgraded
        rw [found] at upgraded
        simp only [Option.map_some, ↓reduceIte] at upgraded
        obtain ⟨now, foundNow, nowId, whole⟩ := (leaves.rows _ _ _ upgraded).found
        exact ⟨stored, reached, now, foundNow, nowId.trans sameId, .inr (.inl (whole rfl))⟩
  · rw [if_neg below] at passes acts wrote heads
    by_cases gap : event.originSeq ≠ (state.head event.originNode).1 + 1
    · rw [if_pos gap] at passes
      cases passes.2
    by_cases broken : event.prevHash ≠ (state.head event.originNode).2
    · rw [if_neg gap, if_pos broken] at passes
      cases passes.2
    rw [if_neg gap, if_neg broken] at passes acts wrote heads
    cases gate : receiver.refusal platform event with
    | some reason =>
        rw [gate] at passes
        cases passes.2
    | none =>
        rw [gate, Option.elim_none] at acts wrote heads
        have head : next.head event.originNode = (event.originSeq, some event.selfHash) := by
          rw [heads]
          simp [Verdict.inserts]
        obtain ⟨_, sameId, _⟩ := (storedForm_storedAs receiver event).same
        obtain ⟨node, seq⟩ := (storedForm_storedAs receiver event).position
        -- the new row is the first one at its position
        have free : state.store.log.events.rows.find?
            (atPosition event.originNode event.originSeq) = none := by
          refine List.find?_eq_none.mpr fun row held here => ?_
          obtain ⟨named, at_⟩ := of_decide_eq_true here
          have upper := headMark_ge (Table.mem_rows.mp held)
          rw [named, at_, ← agree] at upper
          exact below upper
        have found := rowAt_rows wrote event.originNode event.originSeq
        rw [rowsAfter, List.find?_append, free] at found
        simp only [Option.none_or, List.find?_cons, atPosition, node, seq, and_self, decide_true]
          at found
        obtain ⟨now, foundNow, nowId, whole⟩ := (leaves.rows _ _ _ found).found
        rw [head] at top
        refine ⟨admitNext_fits acts, top, now, foundNow, nowId.trans sameId, ?_⟩
        cases unrequested : receiver.unrequested event with
        | true => exact .inr (.inr (.inl rfl))
        | false =>
            cases carried : event.payload with
            | none => exact .inl rfl
            | some payload =>
                refine .inr (.inl (whole ?_))
                simp [Receiver.storedForm, unrequested, Event.isStub, carried]

/-! ### The second pass follows the first -/

section Follow

variable {later : Receiver} {final : Store} {clock : Option HLC} {first next second : AdmitState}
variable {event : Event} {verdict : Verdict}

/-- Where the second pass refuses the event, it refuses the rest of the origin. -/
theorem Redelivered.reject (again : Redelivered final clock first second)
    (acted : Acted platform receiver first event verdict next) {reason : String}
    (verdictOf : later.verdict platform (second.view event.originNode) event = .reject reason) :
    ∃ after, admitOne platform later second event = .ok after ∧
      Redelivered final clock next after := by
  refine ⟨second.reject event reason, by rw [admitOne_eq, verdictOf]; rfl, ?_⟩
  constructor
  · exact again.store
  · exact again.admitted
  · exact again.clock
  · exact again.heads
  · intro node halted
    rcases (mem_halted acted node).mp halted with old | ⟨rfl, _⟩
    · exact (again.halted node old).imp_right (List.mem_cons_of_mem _)
    · exact .inr List.mem_cons_self

/-- Where neither pass refuses the event. -/
theorem Redelivered.keep (again : Redelivered final clock first second)
    (acted : Acted platform receiver first event verdict next)
    (passes : verdict.freezes = false ∧ verdict.poisons = false)
    (quiet : (later.verdict platform (second.view event.originNode) event).quiet = true) :
    ∃ after, admitOne platform later second event = .ok after ∧
      Redelivered final clock next after := by
  obtain ⟨after, done, store, admitted, clock, heads, halted⟩ := act_quiet platform later second
    event quiet
  refine ⟨after, by rw [admitOne_eq]; exact done, ?_⟩
  constructor
  · rw [store, again.store]
  · rw [admitted, again.admitted]
  · rw [clock, again.clock]
  · intro node
    rw [← again.heads node]
    simp only [AdmitState.head, heads]
  · intro node stopped
    rcases (mem_halted acted node).mp stopped with old | ⟨_, freezes | poisons⟩
    · exact halted node (again.halted node old)
    · rw [passes.1] at freezes
      cases freezes
    · rw [passes.2] at poisons
      cases poisons

/-- Where the evidence of the fork is recorded, recording it again changes nothing. -/
theorem Redelivered.freeze (again : Redelivered final clock first second)
    (acted : Acted platform receiver first event verdict next) {held : EventRow} {key : String}
    (verdictOf : later.verdict platform (second.view event.originNode) event = .freeze held key)
    (stored : storableTexts [event.eventId, key] = true)
    (recorded : ∃ row ∈ final.security.forkEvidence, row.originNode = event.originNode ∧
      row.originSeq = event.originSeq ∧ row.rivalHash = event.selfHash) :
    ∃ after, admitOne platform later second event = .ok after ∧
      Redelivered final clock next after := by
  have same : second.store.security.forkEvidence.insertNew
      (forkEvidence later.trust held event key) = second.store.security.forkEvidence := by
    obtain ⟨row, inTable, node, seq, hash⟩ := recorded
    unfold Table.insertNew
    refine dif_neg fun fresh => ?_
    refine Table.holds_eq_false.mp fresh row (again.store ▸ inTable) ?_
    dsimp only [forkEvidence]
    rw [node, seq, hash]
  refine ⟨_, by
    rw [admitOne_eq, verdictOf]
    simp only [act, require, stored, ↓reduceIte, same, bind, Except.bind, pure, Except.pure]
    rfl, ?_⟩
  constructor
  · exact again.store
  · exact again.admitted
  · exact again.clock
  · exact again.heads
  · intro node halted
    rcases (mem_halted acted node).mp halted with old | ⟨rfl, _⟩
    · exact (again.halted node old).imp (List.mem_cons_of_mem _) (List.mem_cons_of_mem _)
    · exact .inr List.mem_cons_self

/-- The second pass follows the first, event by event. -/
theorem Redelivered.step {batch : List Event} {last : AdmitState}
    (again : Redelivered last.store clock first second)
    (repeats : receiver.Repeats platform later batch) (listed : event ∈ batch)
    (agree : HeadsAgree first) (agreeLast : HeadsAgree last)
    (done : admitOne platform receiver first event = .ok next) (leaves : Leaves next last) :
    ∃ after, admitOne platform later second event = .ok after ∧
      Redelivered last.store clock next after := by
  have acts := admitOne_act done
  have acted := act_acted acts
  by_cases stopped : second.Halted event.originNode
  · obtain ⟨reason, refused⟩ := halted_verdict platform later stopped
    exact again.reject acted refused
  have running : ¬ first.Halted event.originNode := fun held => stopped (again.halted _ held)
  have kept := (admitOne_leaves done).trans leaves
  cases verdictOf : receiver.verdict platform (first.view event.originNode) event with
  | reject reason =>
      -- nothing of the origin has moved since, so the second pass sees what the first one saw
      have halted : next.Halted event.originNode := by
        rw [verdictOf] at acted
        exact (mem_halted acted _).mpr (.inr ⟨rfl, .inr rfl⟩)
      obtain ⟨_, _, heads⟩ := act_rows acts
      obtain ⟨_, head, rows⟩ := leaves.halted _ halted
      have same : second.view event.originNode = first.view event.originNode := by
        obtain ⟨thawed, clean⟩ := not_or.mp running
        obtain ⟨thawedLater, cleanLater⟩ := not_or.mp stopped
        simp only [AdmitState.view, thawed, clean, thawedLater, cleanLater, again.heads,
          again.store, OriginView.mk.injEq, true_and]
        constructor
        · rw [← agreeLast event.originNode, head, heads, verdictOf]
          refine if_neg fun inserts => ?_
          cases inserts.1
        · funext seq
          rw [rows]
          exact act_rowAt (.inr (by rw [verdictOf]; rfl)) done seq
      obtain ⟨other, refused⟩ := repeats.rejects listed verdictOf
      exact again.reject acted (same ▸ refused)
  | freeze held key =>
      obtain ⟨below, found, other, rival, stored⟩ := verdict_freeze verdictOf
      obtain ⟨now, foundNow, nowId, _⟩ := (kept.rows _ _ _ found).found
      have laterVerdict : later.verdict platform (second.view event.originNode) event =
          .freeze now key := by
        have reached : event.originSeq ≤ (second.head event.originNode).1 := by
          rw [again.heads, ← agreeLast]
          exact below.trans (kept.head _)
        rw [open_verdict stopped, if_pos reached, again.store, foundNow]
        simp only [Receiver.heldVerdict, stored, nowId, other, repeats.rivalKey, rival,
          Bool.true_eq_false, ↓reduceIte]
      rw [verdictOf] at acts
      obtain ⟨_, _, frozen, recorded⟩ | ⟨silent, _⟩ := act_evidence acts
      · cases frozen
        simp only [act, bind_ok, require_ok] at acts
        obtain ⟨_, texts, _⟩ := acts
        obtain ⟨row, inTable, sameKey⟩ := Table.exists_insertNew first.store.security.forkEvidence
          (forkEvidence receiver.trust held event key)
        refine again.freeze acted laterVerdict texts ⟨row, leaves.evidence row ?_, ?_⟩
        · rw [recorded]
          exact inTable
        · simpa [forkEvidence] using sameKey
      · cases silent
  | _ =>
      have passes : (receiver.verdict platform (first.view event.originNode) event).freezes = false ∧
          (receiver.verdict platform (first.view event.originNode) event).poisons = false := by
        rw [verdictOf]
        exact ⟨rfl, rfl⟩
      have settled := admitOne_settles agree agreeLast done leaves passes
      refine again.keep acted passes (Receiver.Settled.quiet ?_ ?_ stopped)
      · rw [again.store]
        exact settled.congr repeats.scopes
      · rw [again.store]
        exact again.heads _

end Follow

/-- A whole second pass. -/
theorem foldlM_redelivered {later : Receiver} {clock : Option HLC} {batch rest : List Event}
    {first second last : AdmitState} (again : Redelivered last.store clock first second)
    (repeats : receiver.Repeats platform later batch) (within : ∀ event ∈ rest, event ∈ batch)
    (agree : HeadsAgree first) (agreeLast : HeadsAgree last)
    (done : rest.foldlM (admitOne platform receiver) first = .ok last) :
    ∃ after, rest.foldlM (admitOne platform later) second = .ok after ∧
      Redelivered last.store clock last after := by
  induction rest generalizing first second with
  | nil =>
      simp only [List.foldlM_nil, pure_ok] at done
      subst done
      exact ⟨second, rfl, again⟩
  | cons event rest ih =>
      simp only [List.foldlM_cons, bind_ok] at done
      obtain ⟨next, one, others⟩ := done
      obtain ⟨middle, stepped, follows⟩ := again.step repeats (within event List.mem_cons_self) agree
        agreeLast one (foldlM_leaves others)
      obtain ⟨after, folded, same⟩ := ih follows
        (fun other listed => within other (List.mem_cons_of_mem _ listed))
        (admitStep_headsAgree agree (admitOne_ok one)) others
      exact ⟨after, by simp only [List.foldlM_cons, bind_ok]; exact ⟨middle, stepped, folded⟩, same⟩

/-- What a pass halts at its start, a pass over its result halts at its start. -/
theorem redelivered_start {store : Store} {clock later : Option HLC} {last : AdmitState}
    (leaves : Leaves (AdmitState.start store clock) last) :
    Redelivered last.store later (AdmitState.start store clock)
      (AdmitState.start last.store later) where
  store := rfl
  admitted := rfl
  clock := rfl
  heads := headsAgree_start last.store later
  halted node held := by
    rcases held with frozen | poisoned
    · obtain ⟨row, member, named⟩ := List.mem_map.mp frozen
      obtain ⟨inTable, flagged⟩ := List.mem_filter.mp member
      exact .inl (List.mem_map.mpr ⟨row, List.mem_filter.mpr
        ⟨leaves.evidence row inTable, flagged⟩, named⟩)
    · cases poisoned

theorem admitBatch_again {later : Receiver} {store : Store} {clock : Option HLC}
    {batch : List Event} {first : AdmitState} (laterClock : Option HLC)
    (repeats : receiver.Repeats platform later batch)
    (done : admitBatch platform receiver store clock batch = .ok first) :
    ∃ second, admitBatch platform later first.store laterClock batch = .ok second ∧
      second.store = first.store ∧ second.admitted = [] ∧ second.clock = laterClock := by
  have agree := headsAgree_start store clock
  obtain ⟨second, folded, same⟩ := foldlM_redelivered
    (redelivered_start (foldlM_leaves done)) repeats (fun _ listed => listed) agree
    (foldlM_headsAgree agree done) done
  exact ⟨second, folded, same.store, same.admitted, same.clock⟩

end Kawa
