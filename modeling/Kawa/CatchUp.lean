import Kawa.Redelivery

/-!
A pull that refuses nothing brings the destination level with its source, and leaves an
identical pull nothing to change: what the second pull is served it was served before.
-/

namespace Kawa

open Result

variable {platform : Platform} {receiver : Receiver}

/-! ## A batch that is settled -/

theorem unreported_passes {log : Log} {event : Event} {verdict : Verdict}
    (silent : receiver.reports platform log event verdict = []) :
    verdict.freezes = false ∧ verdict.poisons = false := by
  cases verdict with
  | reject reason => cases silent
  | freeze held key => cases silent
  | _ => exact ⟨rfl, rfl⟩

/-- A pass that refuses nothing settles its whole batch. -/
theorem foldlM_settles {batch : List Event} {state last : AdmitState} (agree : HeadsAgree state)
    (done : batch.foldlM (admitOne platform receiver) state = .ok last)
    (silent : last.rejected = []) :
    state.rejected = [] ∧ ∀ event ∈ batch, receiver.Settled platform last.store.log event := by
  induction batch generalizing state with
  | nil =>
      simp only [List.foldlM_nil, pure_ok] at done
      subst done
      exact ⟨silent, fun event listed => (by cases listed)⟩
  | cons event batch ih =>
      simp only [List.foldlM_cons, bind_ok] at done
      obtain ⟨next, one, rest⟩ := done
      obtain ⟨still, settled⟩ := ih (admitStep_headsAgree agree (admitOne_ok one)) rest
      have acted := act_acted (admitOne_act one)
      rw [acted.rejected, List.append_eq_nil_iff] at still
      refine ⟨still.1, fun other listed => ?_⟩
      rcases List.mem_cons.mp listed with rfl | later
      · have agreeLast := foldlM_headsAgree (admitStep_headsAgree agree (admitOne_ok one)) rest
        exact admitOne_settles agree agreeLast one (foldlM_leaves rest) (unreported_passes still.2)
      · exact settled other later

/-- A pass over settled events changes nothing. -/
theorem admitBatch_settled {store : Store} {batch : List Event} (clock : Option HLC)
    (settled : ∀ event ∈ batch, receiver.Settled platform store.log event) :
    ∃ final, admitBatch platform receiver store clock batch = .ok final ∧ final.store = store ∧
      final.admitted = [] := by
  have walk : ∀ (rest : List Event) (state : AdmitState), (∀ event ∈ rest, event ∈ batch) → state.store = store →
      state.admitted = [] → HeadsAgree state →
      ∃ final, rest.foldlM (admitOne platform receiver) state = .ok final ∧ final.store = store ∧
        final.admitted = [] := by
    intro rest
    induction rest with
    | nil => exact fun state _ same admitted _ => ⟨state, rfl, same, admitted⟩
    | cons event rest ih =>
        intro state within same admitted agree
        obtain ⟨next, one, sameNext, admittedNext⟩ : ∃ next,
            admitOne platform receiver state event = .ok next ∧ next.store = store ∧
              next.admitted = [] := by
          rw [admitOne_eq]
          by_cases halted : state.Halted event.originNode
          · obtain ⟨reason, refused⟩ := halted_verdict platform receiver halted
            rw [refused]
            exact ⟨_, rfl, same, admitted⟩
          · have held := settled event (within event List.mem_cons_self)
            rw [← same] at held
            obtain ⟨next, one, kept, still, _⟩ := act_quiet platform receiver state event (held.quiet (agree _) halted)
            exact ⟨next, one, kept.trans same, still.trans admitted⟩
        obtain ⟨final, others, result⟩ := ih next
          (fun other listed => within other (List.mem_cons_of_mem _ listed)) sameNext admittedNext
          (admitStep_headsAgree agree (admitOne_ok one))
        exact ⟨final, by simp only [List.foldlM_cons, bind_ok]; exact ⟨next, one, others⟩, result⟩
  exact walk batch _ (fun _ listed => listed) rfl rfl (headsAgree_start store clock)

/-! ## What a source is asked for -/

/-- Every row beyond the frontier is served. -/
theorem readStream_serves {log : Log} {after : Dict String Int} {events : List Event}
    {row : EventRow} (read : readStream platform log after = .ok events)
    (held : row ∈ log.events) (beyond : (after.get? row.originNode).getD 0 < row.originSeq) :
    ∃ event ∈ events, rebuildEvent platform log row = .ok event := by
  simp only [readStream, bind_ok, pure_ok] at read
  obtain ⟨streams, mapped, rfl⟩ := read
  have listed : (row.originNode, log.headSeq row.originNode) ∈ frontier log :=
    List.mem_map_of_mem ((List.mem_insertionSort _).mpr
      (List.mem_dedup.mpr (List.mem_map_of_mem (Table.mem_rows.mpr held))))
  obtain ⟨stream, inStreams, made⟩ := mapM_mem mapped listed
  have longer := lt_of_lt_of_le beyond (headMark_ge held)
  rw [← headSeq_eq] at longer
  dsimp only at made
  rw [if_neg (not_le.mpr longer)] at made
  have ranged : row ∈ log.originRows row.originNode ((after.get? row.originNode).getD 0) :=
    (List.mem_insertionSort _).mpr (List.mem_filter.mpr ⟨held, decide_eq_true ⟨rfl, beyond⟩⟩)
  obtain ⟨event, inStream, rebuilt⟩ := mapM_mem made ranged
  exact ⟨event, List.mem_flatten.mpr ⟨stream, inStreams, inStream⟩, rebuilt⟩

/-- The position is among those asked for. -/
def Asks (positions : Dict String (List Int)) (node : String) (seq : Int) : Prop :=
  ∃ seqs, (node, seqs) ∈ positions ∧ seq ∈ seqs

theorem asks_heldStubPositions {log : Log} {scopes : List String} {node : String} {seq : Int} :
    Asks (heldStubPositions platform log scopes) node seq ↔
      ∃ row ∈ log.events, row.materialized = false ∧
        row.scopeDigest.any (· ∈ scopes.map (scopeDigestOf platform)) = true ∧
        row.originNode = node ∧ row.originSeq = seq := by
  unfold Asks heldStubPositions
  constructor
  · rintro ⟨seqs, listed, member⟩
    obtain ⟨other, _, same⟩ := List.mem_map.mp listed
    cases same
    obtain ⟨row, mine, rfl⟩ := List.mem_map.mp ((List.mem_insertionSort _).mp member)
    obtain ⟨wanted, named⟩ := List.mem_filter.mp mine
    obtain ⟨held, asked⟩ := List.mem_filter.mp wanted
    simp only [Bool.and_eq_true, Bool.not_eq_true'] at asked
    exact ⟨row, Table.mem_rows.mp held, asked.1, asked.2, of_decide_eq_true named, rfl⟩
  · rintro ⟨row, held, stub, asked, rfl, rfl⟩
    have wanted : row ∈ log.events.rows.filter fun row =>
        !row.materialized && row.scopeDigest.any (· ∈ scopes.map (scopeDigestOf platform)) :=
      List.mem_filter.mpr ⟨Table.mem_rows.mpr held, by rw [stub, asked]; rfl⟩
    refine ⟨_, List.mem_map_of_mem ((List.mem_insertionSort _).mpr
      (List.mem_dedup.mpr (List.mem_map_of_mem wanted))), ?_⟩
    exact (List.mem_insertionSort _).mpr (List.mem_map_of_mem
      (List.mem_filter.mpr ⟨wanted, decide_eq_true rfl⟩))

/-- What is returned was asked for and is held there. -/
theorem mem_readPositions_asked {log : Log} {positions : Dict String (List Int)}
    {events : List Event} {event : Event}
    (read : readPositions platform log positions = .ok events) (member : event ∈ events) :
    ∃ node seq row, Asks positions node seq ∧ log.rowAt node seq = some row ∧
      rebuildEvent platform log row = .ok event := by
  simp only [readPositions, bind_ok, pure_ok] at read
  obtain ⟨streams, mapped, rfl⟩ := read
  obtain ⟨stream, inStreams, inStream⟩ := List.mem_flatten.mp member
  obtain ⟨⟨node, seqs⟩, listed, made⟩ := mem_mapM mapped inStreams
  obtain ⟨row, held, rebuilt⟩ := mem_mapM made inStream
  obtain ⟨seq, asked, found⟩ := List.mem_filterMap.mp held
  exact ⟨node, seq, row, ⟨seqs, (List.mem_insertionSort _).mp listed,
    (List.mem_insertionSort _).mp asked⟩, found, rebuilt⟩

/-- Every row at a position asked for is served. -/
theorem readPositions_serves {log : Log} {positions : Dict String (List Int)} {events : List Event}
    {node : String} {seq : Int} {row : EventRow}
    (read : readPositions platform log positions = .ok events) (asks : Asks positions node seq)
    (found : log.rowAt node seq = some row) :
    ∃ event ∈ events, rebuildEvent platform log row = .ok event := by
  simp only [readPositions, bind_ok, pure_ok] at read
  obtain ⟨streams, mapped, rfl⟩ := read
  obtain ⟨seqs, listed, asked⟩ := asks
  obtain ⟨stream, inStreams, made⟩ := mapM_mem mapped ((List.mem_insertionSort _).mpr listed)
  obtain ⟨event, inStream, rebuilt⟩ := mapM_mem made
    (List.mem_filterMap.mpr ⟨seq, (List.mem_insertionSort _).mpr asked, found⟩)
  exact ⟨event, List.mem_flatten.mpr ⟨stream, inStreams, inStream⟩, rebuilt⟩

theorem readPositions_succeeds {log : Log} {positions : Dict String (List Int)}
    (each : ∀ node seq row, Asks positions node seq → log.rowAt node seq = some row →
      ∃ event, rebuildEvent platform log row = .ok event) :
    ∃ events, readPositions platform log positions = .ok events := by
  unfold readPositions
  refine bind_succeeds (mapM_succeeds fun item listed => mapM_succeeds fun row held => ?_)
    fun streams => ⟨_, rfl⟩
  obtain ⟨seq, asked, found⟩ := List.mem_filterMap.mp held
  exact each item.1 seq row ⟨item.2, (List.mem_insertionSort _).mp listed,
    (List.mem_insertionSort _).mp asked⟩ found

theorem serveBatch_serves {events : List Event} {offer : List String} {original : Event}
    (listed : original ∈ events) : ∃ event ∈ serveBatch events offer,
      event.originNode = original.originNode ∧ event.originSeq = original.originSeq := by
  refine ⟨_, List.mem_map_of_mem listed, ?_⟩
  unfold withhold
  split_ifs <;> exact ⟨rfl, rfl⟩

/-! ## Stubs and heads -/

/-- The stubs of a pass at or below the heads it began with were held before it. -/
structure OldStubs (store : Store) (clock : Option HLC) (now : AdmitState) : Prop where
  leaves : Leaves (AdmitState.start store clock) now
  stubs : ∀ row ∈ now.store.log.events, row.materialized = false →
    row ∈ store.log.events ∨ (store.log.headMark row.originNode).1 < row.originSeq

theorem admitOne_oldStubs {store : Store} {clock : Option HLC} {state next : AdmitState}
    {event : Event} (holds : OldStubs store clock state)
    (one : admitOne platform receiver state event = .ok next) : OldStubs store clock next := by
  refine ⟨holds.leaves.trans (admitOne_leaves one), ?_⟩
  cases admitOne_ok one with
  | kept log _ _ _ =>
      rw [log]
      exact holds.stubs
  | upgraded held upgrade _ _ =>
      obtain ⟨payload, middle, _, changed, written, _⟩ := upgrade.written
      rw [insertPayload_events written]
      intro row member stub
      rcases (upgradeRow_mem changed).mp member with ⟨old, _, _, rfl⟩ | ⟨old, _⟩
      · cases stub
      · exact holds.stubs row old stub
  | inserted stored passed form write _ _ =>
      obtain ⟨middle, row, inserted, same⟩ := write.log
      obtain ⟨node, seq, _⟩ := inserted.links
      obtain ⟨storedNode, storedSeq⟩ := form.position
      rw [same]
      intro other member stub
      rcases inserted.mem_iff.mp member with old | rfl
      · exact holds.stubs other old stub
      · have lower := holds.leaves.head event.originNode
        rw [headsAgree_start] at lower
        have next := passed.next
        rw [node, seq, storedNode, storedSeq, next]
        exact .inr (Int.lt_add_one_of_le lower)

theorem foldlM_oldStubs {store : Store} {clock : Option HLC} {batch : List Event}
    {last : AdmitState}
    (done : batch.foldlM (admitOne platform receiver) (AdmitState.start store clock) = .ok last) :
    OldStubs store clock last :=
  foldlM_invariant (fun _ _ _ _ holds one => admitOne_oldStubs holds one)
    ⟨.refl _, fun _ held _ => .inl held⟩ done

/-! ## Two pulls -/

section Pulls

variable {dest : Store} {source : Log} {clock : Option HLC} {final : AdmitState}
variable {sourceTrust : Option TrustRegistry} {pullerNode : Option String}

/-- After a pull that refuses nothing the destination is level with its source. -/
theorem pull_catches_up
    (pulled : pull platform receiver dest source clock sourceTrust pullerNode = .ok final)
    (silent : final.rejected = []) :
    ∀ node ∈ source.origins, source.headSeq node ≤ final.store.log.headSeq node := by
  simp only [pull, bind_ok] at pulled
  obtain ⟨batch, served, admitted⟩ := pulled
  have agree := headsAgree_start dest clock
  have settled := (foldlM_settles agree admitted silent).2
  obtain ⟨stream, backfill, read, shape, _⟩ := @servePull_parts platform
    ⟨true, receiver, clock, sourceTrust, pullerNode⟩ _ _ _ served
  intro node listed
  cases found : source.head node with
  | none =>
      obtain ⟨row, held, named⟩ :=
        List.mem_map.mp (List.mem_dedup.mp ((List.mem_insertionSort _).mp listed))
      exact absurd named (head_none found row (Table.mem_rows.mp held))
  | some last =>
      obtain ⟨held, named⟩ := head_mem found
      have top : source.headSeq node = last.originSeq := by
        unfold Log.headSeq
        rw [found]
        rfl
      rw [top]
      by_cases ahead : dest.log.headSeq node < last.originSeq
      · obtain ⟨original, inStream, rebuilt⟩ := readStream_serves read held (by
          rw [frontier_getD, named]
          exact ahead)
        have envelope := rebuildEvent_envelope rebuilt
        obtain ⟨event, listed, sameNode, sameSeq⟩ := serveBatch_serves inStream
        have below := (settled event (shape ▸ List.mem_append_left _ listed)).below
        rw [sameNode, sameSeq, envelope, named] at below
        rw [headSeq_eq]
        exact below
      · have kept := (foldlM_leaves admitted).head node
        rw [agree, foldlM_headsAgree agree admitted, ← headSeq_eq, ← headSeq_eq] at kept
        exact (not_lt.mp ahead).trans kept

/-- What a second pull is served it was served before. -/
theorem pull_again {later : Receiver} {laterClock : Option HLC}
    (pulled : pull platform receiver dest source clock sourceTrust pullerNode = .ok final)
    (silent : final.rejected = [])
    (scopes : later.requestedScopes = receiver.requestedScopes) :
    ∃ again, pull platform later final.store source laterClock sourceTrust pullerNode =
      .ok again ∧ again.store = final.store ∧ again.admitted = [] := by
  have level := pull_catches_up pulled silent
  simp only [pull, bind_ok] at pulled
  obtain ⟨batch, served, admitted⟩ := pulled
  have settled := (foldlM_settles (headsAgree_start dest clock) admitted silent).2
  obtain ⟨stream, backfill, read, shape, filled⟩ := @servePull_parts platform
    ⟨true, receiver, clock, sourceTrust, pullerNode⟩ _ _ _ served
  have nothing : readStream platform source (frontier final.store.log) = .ok [] := by
    refine readStream_level fun node listed => ?_
    rw [frontier_getD]
    exact level node listed
  -- the source's row at a position that is asked for now was served before
  have covered : ∀ requested node seq row, receiver.requestedScopes = some requested →
      Asks (heldStubPositions platform final.store.log requested) node seq →
      source.rowAt node seq = some row →
      ∃ original ∈ stream ++ backfill, rebuildEvent platform source row = .ok original := by
    intro requested node seq row given asks found
    dsimp only at filled
    rw [given] at filled
    obtain ⟨stub, held, bare, wanted, stubNode, stubSeq⟩ := asks_heldStubPositions.mp asks
    obtain ⟨rowNode, rowSeq⟩ := rowAt_named found
    rcases (foldlM_oldStubs admitted).stubs stub held bare with old | new
    · have before := asks_heldStubPositions.mpr ⟨stub, old, bare, wanted, stubNode, stubSeq⟩
      obtain ⟨original, member, rebuilt⟩ := readPositions_serves filled before found
      exact ⟨original, List.mem_append_right _ member, rebuilt⟩
    · obtain ⟨original, member, rebuilt⟩ := readStream_serves read (rowAt_mem found) (by
        rw [frontier_getD, headSeq_eq, rowNode, rowSeq, ← stubNode, ← stubSeq]
        exact new)
      exact ⟨original, List.mem_append_left _ member, rebuilt⟩
  obtain ⟨batchAgain, servedAgain⟩ : ∃ batchAgain, servePull platform final.store.log source
      sourceTrust pullerNode later.requestedScopes = .ok batchAgain := by
    unfold servePull
    rw [scopes]
    refine bind_succeeds ⟨[], nothing⟩ fun fresh => ?_
    cases given : receiver.requestedScopes with
    | none => exact ⟨_, rfl⟩
    | some requested =>
        cases requested with
        | nil => exact ⟨_, rfl⟩
        | cons scope rest =>
            refine bind_succeeds (readPositions_succeeds fun node seq row asks found => ?_)
              fun _ => ⟨_, rfl⟩
            obtain ⟨original, _, rebuilt⟩ := covered _ node seq row given asks found
            exact ⟨original, rebuilt⟩
  obtain ⟨streamAgain, backfillAgain, readAgain, shapeAgain, filledAgain⟩ := @servePull_parts platform
    ⟨true, later, laterClock, sourceTrust, pullerNode⟩ _ _ _ servedAgain
  have offer : Pulling.offer ⟨true, later, laterClock, sourceTrust, pullerNode⟩ =
      Pulling.offer ⟨true, receiver, clock, sourceTrust, pullerNode⟩ := by
    unfold Pulling.offer
    dsimp only
    rw [scopes]
  rw [offer] at shapeAgain
  generalize Pulling.offer ⟨true, receiver, clock, sourceTrust, pullerNode⟩ = offer at shape shapeAgain
  have within : ∀ event ∈ batchAgain, later.Settled platform final.store.log event := by
    intro event listed
    rw [nothing] at readAgain
    cases readAgain
    rw [shapeAgain] at listed
    have inBackfill : event ∈ serveBatch backfillAgain offer := listed
    obtain ⟨original, member, formed⟩ := List.mem_map.mp inBackfill
    dsimp only at filledAgain
    rw [scopes] at filledAgain
    cases given : receiver.requestedScopes with
    | none =>
        rw [given] at filledAgain
        dsimp only at filledAgain
        rw [filledAgain] at member
        cases member
    | some requested =>
        rw [given] at filledAgain
        obtain ⟨node, seq, row, asks, found, rebuilt⟩ :=
          mem_readPositions_asked filledAgain member
        obtain ⟨before, servedBefore, same⟩ := covered requested node seq row given asks found
        rw [rebuilt] at same
        cases same
        refine (settled event ?_).congr scopes
        have inBatch : event ∈ serveBatch (stream ++ backfill) offer :=
          List.mem_map.mpr ⟨original, servedBefore, formed⟩
        rw [shape]
        exact List.map_append ▸ inBatch
  obtain ⟨again, done, same, admittedAgain⟩ := admitBatch_settled laterClock within
  exact ⟨again, by simp only [pull, bind_ok]; exact ⟨batchAgain, servedAgain, done⟩, same,
    admittedAgain⟩

end Pulls

/-! ## Anti-entropy -/

/-- No event of the batch has become admissible in time from the one reading to the other. -/
def Receiver.NoneDue (receiver : Receiver) (batch : List Event) (early late : Int) : Prop :=
  ∀ event ∈ batch, receiver.temporal.admissible event.hlc late = none →
    receiver.temporal.admissible event.hlc early = none

theorem Receiver.NoneDue.repeats {batch : List Event} {nowMs : Option Int} {wallMs laterMs : Int}
    (due : receiver.NoneDue batch (nowMs.getD wallMs) (nowMs.getD laterMs))
    (ambient laterAmbient : Ambient) :
    (receiver.calledAt nowMs wallMs ambient).Repeats platform
      (receiver.calledAt nowMs laterMs laterAmbient) batch where
  keys := rfl
  trust := rfl
  scopes := rfl
  refuses event listed passed := by
    obtain ⟨admissible, verified, attested⟩ := refusal_eq_none passed
    exact refusal_none (due event listed admissible) verified attested

/-- Delivering a batch again changes nothing, where the passing of time has made none of its
events admissible; a pull without a refusal is level with its source, and pulling again changes
nothing at any time. -/
theorem anti_entropy :
    (∀ (receiver : Receiver) (nowMs : Option Int) (wallMs laterMs : Int)
        (ambient laterAmbient : Ambient) (store : Store) (clock laterClock : Option HLC)
        (batch : List Event) (first : AdmitState),
      admitBatch platform (receiver.calledAt nowMs wallMs ambient) store clock batch =
          .ok first →
      receiver.NoneDue batch (nowMs.getD wallMs) (nowMs.getD laterMs) →
      ∃ second, admitBatch platform (receiver.calledAt nowMs laterMs laterAmbient) first.store
          laterClock batch = .ok second ∧ second.store = first.store ∧ second.admitted = []) ∧
    (∀ (receiver : Receiver) (wallMs laterMs : Int) (ambient laterAmbient : Ambient)
        (dest : Store) (source : Log) (clock laterClock : Option HLC)
        (sourceTrust : Option TrustRegistry) (pullerNode : Option String) (first : AdmitState),
      pull platform (receiver.calledAt none wallMs ambient) dest source clock sourceTrust
          pullerNode = .ok first → first.rejected = [] →
      (∀ node top, (frontier source).get? node = some top →
        top ≤ ((frontier first.store.log).get? node).getD 0) ∧
      ∃ second, pull platform (receiver.calledAt none laterMs laterAmbient) first.store source
          laterClock sourceTrust pullerNode = .ok second ∧ second.store = first.store ∧
        second.admitted = []) := by
  constructor
  · intro receiver nowMs wallMs laterMs ambient laterAmbient store clock laterClock batch first
      done due
    obtain ⟨second, again, same, admitted, _⟩ :=
      admitBatch_again laterClock (due.repeats ambient laterAmbient) done
    exact ⟨second, again, same, admitted⟩
  · intro receiver wallMs laterMs ambient laterAmbient dest source clock laterClock sourceTrust
      pullerNode first pulled silent
    refine ⟨fun node top found => ?_, pull_again pulled silent rfl⟩
    rw [frontier_get?] at found
    split_ifs at found with listed
    cases found
    rw [frontier_getD]
    exact pull_catches_up pulled silent node listed

namespace Deferred

/-- A receiver that takes no event ahead of its clock. -/
def strict : Receiver :=
  { plainReceiver "node" none 0 with temporal := { maxForwardSkewMs := 0 } }

/-- One arriving event a millisecond ahead of the receiver, and two deliveries of it. -/
structure Delivered (event : Event) (first second : AdmitState) : Prop where
  stamp : parseHlc event.hlc = some (1, 0, "node")
  deferred : admitBatch plainPlatform (strict.calledAt none 0 strict.ambient) {} none [event] =
    .ok first
  refused : first.store = {} ∧ first.rejected = [event.rejection "hlc_forward_skew"]
  healed : admitBatch plainPlatform (strict.calledAt none 1 strict.ambient) first.store none
    [event] = .ok second
  inserted : ∃ row ∈ second.store.log.events, row.eventId = event.eventId

theorem delivered : ∃ event first second, Delivered event first second := by
  obtain ⟨event, sent⟩ := plain_sent (by decide : "node" ≠ "") (by decide) plainClaim_writable
    none fun scope set => by cases set
  have arrives := sent.arrives
  have ready : ({} : Store).log.Ready plainPlatform 0 := empty_ready
  -- too early: the time gate refuses it
  have early : (strict.calledAt none 0 strict.ambient).refusal plainPlatform event =
      some "hlc_forward_skew" := by
    simp [Receiver.refusal, Receiver.calledAt, TemporalPolicy.admissible, arrives.hlc, strict]
  have running : ¬ (AdmitState.start {} none).Halted event.originNode := by
    rintro (frozen | poisoned)
    · cases frozen
    · cases poisoned
  have verdict : (strict.calledAt none 0 strict.ambient).verdict plainPlatform
      ((AdmitState.start {} none).view event.originNode) event = .reject "hlc_forward_skew" := by
    have start : (AdmitState.start {} none).head event.originNode = (0, none) := rfl
    rw [open_verdict running, start, early, sent.originSeq, sent.prevHash]
    rfl
  have deferred : admitBatch plainPlatform (strict.calledAt none 0 strict.ambient) {} none
      [event] = .ok ((AdmitState.start {} none).reject event "hlc_forward_skew") :=
    admitBatch_one (by rw [admitOne_eq, verdict]; rfl)
  -- a millisecond later it is stored whole
  have passed : (strict.calledAt none 1 strict.ambient).refusal plainPlatform event = none := by
    refine refusal_none ?_ arrives.verified arrives.attested
    simp [Receiver.calledAt, TemporalPolicy.admissible, arrives.hlc, strict]
  obtain ⟨middle, written, entered⟩ := arrives.inserted ready sent.originSeq 0
  obtain ⟨log, stored⟩ := plainClaim_writable middle event.eventId (by
    obtain ⟨_, same⟩ := entered.appended
    have ids : middle.payloadIds = ({} : Store).log.payloadIds := by rw [same]; rfl
    rw [ids]
    exact List.not_mem_nil)
  obtain ⟨projections, reduced⟩ : ∃ projections,
      reduce log .stored event ({} : Store).projections = .ok projections :=
    reduce_claim {} (by rw [arrives.hlc]; rfl) arrives.carried
  have begins : Extends {} event :=
    { thawed := fun row held => (by cases held)
      seq := sent.originSeq
      prev := sent.prevHash }
  obtain ⟨second, healed, same, _⟩ := deliver_whole none begins passed rfl arrives.carried rfl
    written stored reduced
  refine ⟨event, _, second, arrives.hlc, deferred, ⟨rfl, rfl⟩, healed, storedRow event 0 true, ?_, rfl⟩
  rw [same]
  dsimp only
  rw [← Table.mem_rows, insertPayload_events stored, Table.mem_rows]
  exact entered.mem_iff.mpr (.inr rfl)

/-- The same call a millisecond later inserts what the first one deferred. -/
theorem redelivery_inserts : ¬ ∀ (receiver : Receiver) (nowMs : Option Int) (wallMs laterMs : Int)
      (ambient : Ambient) (store : Store) (clock : Option HLC) (batch : List Event)
      (first second : AdmitState),
    admitBatch plainPlatform (receiver.calledAt nowMs wallMs ambient) store clock batch =
        .ok first →
    admitBatch plainPlatform (receiver.calledAt nowMs laterMs ambient) first.store clock batch =
        .ok second →
    second.store.log = first.store.log := by
  intro claimed
  obtain ⟨event, first, second, delivered⟩ := delivered
  have same := claimed strict none 0 1 strict.ambient {} none [event] first second
    delivered.deferred delivered.healed
  obtain ⟨row, held, _⟩ := delivered.inserted
  rw [same, delivered.refused.1] at held
  cases held

/-- Delivered again once it is held, the event changes nothing; nor does a pull between stores
that are level. -/
theorem settles : ∃ event first second third,
    Delivered event first second ∧
      admitBatch plainPlatform (strict.calledAt none 60000 strict.ambient) second.store none
        [event] = .ok third ∧ third.store = second.store ∧ third.admitted = [] ∧
      ∃ left right leftStore rightStore after, SilentFork.Silent left right leftStore rightStore ∧
        pull plainPlatform ((plainReceiver "node" none 0).calledAt none 1 strict.ambient)
          leftStore rightStore.log none none none = .ok after ∧ after.store = leftStore := by
  obtain ⟨event, first, second, delivered⟩ := delivered
  obtain ⟨left, right, leftStore, rightStore, silent⟩ := SilentFork.silent
  have due : strict.NoneDue [event] 1 60000 := by
    intro other listed _
    rw [List.mem_singleton.mp listed]
    simp [TemporalPolicy.admissible, delivered.stamp, strict]
  obtain ⟨third, again, same, admitted⟩ := anti_entropy.1 strict none 1 60000 strict.ambient
    strict.ambient first.store none none [event] second delivered.healed due
  have pulled : pull plainPlatform ((plainReceiver "node" none 0).calledAt none 0 strict.ambient)
      leftStore rightStore.log none none none = .ok (AdmitState.start leftStore none) := by
    simp only [pull, bind_ok]
    exact ⟨[], silent.servedFirst, rfl⟩
  obtain ⟨_, after, pulledAgain, sameStore, _⟩ := anti_entropy.2 (plainReceiver "node" none 0) 0 1
    strict.ambient strict.ambient leftStore rightStore.log none none none none _ pulled rfl
  exact ⟨event, first, second, third, delivered, again, same, admitted, left, right, leftStore,
    rightStore, after, silent, pulledAgain, sameStore⟩

end Deferred

end Kawa
