import Kawa.Calls
import Kawa.AdmitProgress

/-!
Emitters with clocks of their own over one store: when a stamp is past what the store
already holds.  A clock lives only as long as its emitter, the log outlives them all.
-/

namespace Kawa

open Result

variable {platform : Platform} {receiver : Receiver}

/-! ## Readings -/

/-- The physical and logical numbers that an hlc text begins with. -/
def readingOf (hlc : String) : Option Stamp := do
  let (physical, rest) ← splitDot hlc.toList
  let (logical, _) ← splitDot rest
  return toLex (Json.natOfDigits physical, Json.natOfDigits logical)

theorem readingOf_stamp (clock : HLC) : readingOf clock.stamp = some clock.reading := by
  have phys : Json.natOfDigits (Nat.toDigits 10 clock.physicalMs) = clock.physicalMs :=
    Nat.ofDigitChars_ten_toDigits
  have log : Json.natOfDigits (Nat.toDigits 10 clock.logical) = clock.logical :=
    Nat.ofDigitChars_ten_toDigits
  simp only [readingOf, HLC.stamp, String.toList_ofList,
    splitDot_append (toDigits_clear clock.physicalMs),
    splitDot_append (toDigits_clear clock.logical), Option.bind_eq_bind, Option.bind_some,
    phys, log]
  rfl

theorem readingOf_parse {hlc node : String} {phys logical : Nat}
    (parsed : parseHlc hlc = some (phys, logical, node)) :
    readingOf hlc = some (toLex (phys, logical)) := by
  unfold parseHlc at parsed
  unfold readingOf
  cases first : splitDot hlc.toList with
  | none => simp [first] at parsed
  | some parts =>
      obtain ⟨physical, rest⟩ := parts
      simp only [first, Option.bind_eq_bind, Option.bind_some] at parsed ⊢
      cases second : splitDot rest with
      | none => simp [second] at parsed
      | some tail =>
          obtain ⟨log, name⟩ := tail
          simp only [second, Option.bind_some] at parsed ⊢
          split_ifs at parsed
          cases parsed
          rfl

/-- The next reading is past `held` exactly when the clock has reached it or the wall clock
is past its physical part. -/
theorem lt_tick_iff (clock : HLC) (now : Int) (held : Stamp) :
    held < (clock.tick now).reading ↔ held ≤ clock.reading ∨ ((ofLex held).1 : Int) < now := by
  rw [stamp_lt_iff, stamp_le_iff]
  unfold HLC.tick
  split
  · simp only [HLC.reading, ofLex_toLex]
    omega
  · simp only [HLC.reading, ofLex_toLex]
    omega

/-! ## Emitters over one store -/

/-- The emitters that are open on a store, and the ids that its admissions have reported. -/
structure Process where
  store : Store
  emitters : List Emitter
  admitted : List String

def Process.start : Process := { store := {}, emitters := [], admitted := [] }

/-- One call; `index` names the emitter whose clock it ticks or updates. -/
inductive ProcessCall
  | openEmitter (identity : IdentityContext)
  | emit (index : Nat) (reduced : Option Scan) (live : Bool) (now recordedAt : Int)
      (request : EmitRequest)
  | deliver (index : Option Nat) (receiver : Receiver) (batch : List Event)
  | pull (index : Option Nat) (receiver : Receiver) (source : Log)
      (sourceTrust : Option TrustRegistry) (pullerNode : Option String)

section Process

variable (platform)

/-- An emit, reduced in the same transaction or not. -/
def Emitter.write (reduced : Option Scan) (live : Bool) (emitter : Emitter) (now recordedAt : Int)
    (store : Store) (request : EmitRequest) : Emitter × Except StoreError (Store × Event) :=
  match reduced with
  | some scan => emitReduce platform live scan emitter now recordedAt store request
  | none =>
      let (ticked, appended) := emitter.emit platform live now recordedAt store.log request
      (ticked, appended.map fun (log, event) => ({ store with log := log }, event))

/-- The clock after a pass: the one in memory, also where the pass raises. -/
def clockAfter (receiver : Receiver) : AdmitState → List Event → Option HLC
  | state, [] => state.clock
  | state, event :: batch =>
      match admitOne platform receiver state event with
      | .ok next => clockAfter receiver next batch
      | .error _ => state.clock

/-- Replace the clock of one emitter. -/
def Process.setClock (process : Process) (index : Option Nat) (clock : Option HLC) : Process :=
  match index, clock with
  | some index, some clock =>
      { process with emitters := process.emitters.modify index fun emitter =>
          { emitter with hlc := clock } }
  | _, _ => process

/-- Admit a batch under the clock of an emitter; what raises leaves the store as it was. -/
def Process.admitting (process : Process) (index : Option Nat) (receiver : Receiver)
    (batch : List Event) : Process :=
  let clock := index.bind fun index => process.emitters[index]?.map (·.hlc)
  let ticked := process.setClock index
    (clockAfter platform receiver (AdmitState.start process.store clock) batch)
  match admitBatch platform receiver process.store clock batch with
  | .ok final => { ticked with store := final.store, admitted := ticked.admitted ++ final.admitted }
  | .error _ => ticked

def Process.perform (process : Process) : ProcessCall → Process
  | .openEmitter identity =>
      { process with emitters := process.emitters ++ [Emitter.start identity] }
  | .emit index reduced live now recordedAt request =>
      match process.emitters[index]? with
      | none => process
      | some emitter =>
          let (ticked, written) :=
            emitter.write platform reduced live now recordedAt process.store request
          let opened := { process with emitters := process.emitters.set index ticked }
          match written with
          | .ok (store, _) => { opened with store := store }
          | .error _ => opened
  | .deliver index receiver batch => process.admitting platform index receiver batch
  | .pull index receiver source sourceTrust pullerNode =>
      match servePull platform process.store.log source sourceTrust pullerNode
          receiver.requestedScopes with
      | .ok batch => process.admitting platform index receiver batch
      | .error _ => process

def Process.run (calls : List ProcessCall) : Process :=
  calls.foldl (fun process call => process.perform platform call) Process.start

/-- The event that a call emits, the emitter before it and the wall clock it reads. -/
def Process.Emits (process : Process) (call : ProcessCall) (emitter : Emitter) (now : Int)
    (event : Event) : Prop :=
  ∃ index reduced live recordedAt request next,
    call = .emit index reduced live now recordedAt request ∧
      process.emitters[index]? = some emitter ∧
      (emitter.write platform reduced live now recordedAt process.store request).2 =
        .ok (next, event)

end Process

/-- The rows that an emitted event has to follow: the one before it in its own stream, and
everything that was admitted. -/
def Process.Causes (process : Process) (row : EventRow) (event : Event) : Prop :=
  row ∈ process.store.log.events ∧
    ((row.originNode = event.originNode ∧ row.originSeq + 1 = event.originSeq) ∨
      row.eventId ∈ process.admitted)

theorem write_clock {reduced : Option Scan} {live : Bool} {emitter : Emitter}
    {now recordedAt : Int} {store : Store} {request : EmitRequest} :
    (emitter.write platform reduced live now recordedAt store request).1 =
      { emitter with hlc := emitter.hlc.tick now } := by
  cases reduced <;> rfl

theorem write_ok {reduced : Option Scan} {live : Bool} {emitter : Emitter}
    {now recordedAt : Int} {store next : Store} {request : EmitRequest} {event : Event}
    (written : (emitter.write platform reduced live now recordedAt store request).2 =
      .ok (next, event)) :
    ∃ row middle, Emitted platform emitter now recordedAt store.log request next.log event row
      middle := by
  cases reduced with
  | none =>
      unfold Emitter.write at written
      dsimp only at written
      cases emitted : (emitter.emit platform live now recordedAt store.log request).2 with
      | error _ =>
          rw [emitted] at written
          cases written
      | ok made =>
          rw [emitted] at written
          cases written
          exact emit_ok emitted
  | some scan =>
      simp only [Emitter.write, emitReduce, bind_ok, pure_ok] at written
      obtain ⟨⟨log, minted⟩, emitted, projections, _, made⟩ := written
      cases made
      exact emit_ok emitted

theorem emitted_reading {emitter : Emitter} {now recordedAt : Int} {log next middle : Log}
    {request : EmitRequest} {event : Event} {row : EventRow}
    (emitted : Emitted platform emitter now recordedAt log request next event row middle) :
    readingOf event.hlc = some (emitter.hlc.tick now).reading := by
  rw [emitted.minted.envelope]
  exact readingOf_stamp _

/-! ## What every run keeps -/

def Log.Readable (log : Log) : Prop :=
  ∀ row ∈ log.events, ∃ held, readingOf row.hlc = some held

theorem inserted_hlc {log next : Log} {event : Event} {materialized : Bool} {recordedAt : Int}
    {row : EventRow} (inserted : EventInserted platform log event materialized recordedAt row next) :
    row.hlc = event.hlc := by
  obtain ⟨_, _, rfl⟩ := inserted.envelope
  rfl

theorem admissible_parse {event : Event}
    (admissible : receiver.temporal.admissible event.hlc receiver.nowMs = none) :
    ∃ phys logical node, parseHlc event.hlc = some (phys, logical, node) := by
  unfold TemporalPolicy.admissible at admissible
  cases parsed : parseHlc event.hlc with
  | none => simp [parsed] at admissible
  | some parts => exact ⟨parts.1, parts.2.1, parts.2.2, rfl⟩

/-- The readings that a log holds are all at or below that of a clock. -/
def HLC.Covers (clock : HLC) (log : Log) : Prop :=
  ∀ row ∈ log.events, ∃ held, readingOf row.hlc = some held ∧ held ≤ clock.reading

theorem upgradeRow_hlc {log next : Log} {held row : EventRow} {scopeRef : Option String}
    (upgraded : upgradeRow log held scopeRef = .ok next) (member : row ∈ next.events) :
    ∃ old ∈ log.events, old.hlc = row.hlc := by
  rcases (upgradeRow_mem upgraded).mp member with ⟨old, inLog, _, rfl⟩ | ⟨inLog, _⟩
  · exact ⟨old, inLog, rfl⟩
  · exact ⟨row, inLog, rfl⟩

/-- Each row after a delivery has the stamp of an old row, or of an event the clock has seen. -/
theorem admitStep_hlc {state next : AdmitState} {event : Event}
    (step : AdmitStep platform receiver state event next) {row : EventRow}
    (member : row ∈ next.store.log.events) :
    (∃ old ∈ state.store.log.events, old.hlc = row.hlc) ∨
      ∃ phys logical node now, parseHlc row.hlc = some (phys, logical, node) ∧
        next.clock = state.clock.map fun clock => clock.update phys logical now := by
  cases step with
  | kept log _ _ _ =>
      rw [log] at member
      exact .inl ⟨row, member, rfl⟩
  | upgraded held upgrade _ _ =>
      obtain ⟨payload, middle, _, upgraded, written, _⟩ := upgrade.written
      rw [insertPayload_events written] at member
      exact .inl (upgradeRow_hlc upgraded member)
  | inserted stored passed form write _ clock =>
      obtain ⟨middle, new, inserted, same⟩ := write.log
      rw [same] at member
      rcases inserted.mem_iff.mp member with old | rfl
      · exact .inl ⟨row, old, rfl⟩
      · obtain ⟨envelope, _⟩ := form.same
        obtain ⟨phys, logical, node, parsed⟩ := admissible_parse passed.admissible
        have hlc : row.hlc = event.hlc := by
          rw [inserted_hlc inserted, envelope]
        have storedHlc : stored.hlc = event.hlc := by rw [envelope]
        have rowParsed : parseHlc row.hlc = some (phys, logical, node) := by
          rw [hlc]
          exact parsed
        refine .inr ⟨phys, logical, node, receiver.ambient.wallClock stored.eventId, rowParsed, ?_⟩
        rw [clock, storedHlc]
        simp only [updateClock, parsed]

/-- A delivery never moves the clock back. -/
theorem admitStep_clock {state next : AdmitState} {event : Event} {clock : HLC}
    (step : AdmitStep platform receiver state event next) (set : state.clock = some clock) :
    ∃ later, next.clock = some later ∧ clock.reading ≤ later.reading := by
  cases step with
  | kept _ _ _ same => exact ⟨clock, same.trans set, le_refl _⟩
  | upgraded _ _ _ same => exact ⟨clock, same.trans set, le_refl _⟩
  | inserted stored _ _ _ _ moved =>
      rw [set, Option.map_some] at moved
      refine ⟨_, moved, ?_⟩
      unfold updateClock
      split
      · exact HLC.reading_le_update _ _ _ _
      · exact le_refl _

theorem admitStep_covers {state next : AdmitState} {event : Event} {clock : HLC}
    (step : AdmitStep platform receiver state event next) (set : state.clock = some clock)
    (covers : clock.Covers state.store.log) :
    ∃ later, next.clock = some later ∧ clock.reading ≤ later.reading ∧
      later.Covers next.store.log := by
  obtain ⟨later, moved, forward⟩ := admitStep_clock step set
  refine ⟨later, moved, forward, fun row member => ?_⟩
  rcases admitStep_hlc step member with ⟨old, inLog, same⟩ | ⟨phys, logical, node, now, parsed, seen⟩
  · obtain ⟨held, reads, below⟩ := covers old inLog
    exact ⟨held, same ▸ reads, below.trans forward⟩
  · refine ⟨toLex (phys, logical), readingOf_parse parsed, ?_⟩
    rw [moved, set, Option.map_some, Option.some.injEq] at seen
    rw [seen]
    exact le_of_lt (HLC.lt_update _ _ _ _)

/-- The clock handed to a pass ends past everything that the pass has stored. -/
theorem clockAfter_covers {batch : List Event} {state : AdmitState} {clock : HLC}
    (set : state.clock = some clock) (covers : clock.Covers state.store.log) :
    ∃ later, clockAfter platform receiver state batch = some later ∧
      clock.reading ≤ later.reading ∧
      ∀ final, batch.foldlM (admitOne platform receiver) state = .ok final →
        later.Covers final.store.log := by
  induction batch generalizing state clock with
  | nil =>
      refine ⟨clock, set, le_refl _, fun final folded => ?_⟩
      simp only [List.foldlM_nil, pure_ok] at folded
      exact folded ▸ covers
  | cons event batch ih =>
      unfold clockAfter
      cases done : admitOne platform receiver state event with
      | error e =>
          refine ⟨clock, set, le_refl _, fun final folded => ?_⟩
          simp only [List.foldlM_cons, bind_ok] at folded
          obtain ⟨next, made, _⟩ := folded
          rw [done] at made
          cases made
      | ok next =>
          obtain ⟨middle, moved, forward, coversNext⟩ :=
            admitStep_covers (admitOne_ok done) set covers
          obtain ⟨later, after, onward, coversFinal⟩ := ih moved coversNext
          refine ⟨later, after, forward.trans onward, fun final folded => ?_⟩
          simp only [List.foldlM_cons, bind_ok] at folded
          obtain ⟨own, made, rest⟩ := folded
          rw [done] at made
          cases made
          exact coversFinal final rest

/-- What a process keeps of its log, whatever its clocks read. -/
structure Process.Sound (process : Process) : Prop where
  chained : chainLinks.Chained process.store.log.events.rows
  readable : process.store.log.Readable

theorem setClock_store (process : Process) (index : Option Nat) (clock : Option HLC) :
    (process.setClock index clock).store = process.store := by
  unfold Process.setClock
  split <;> rfl

theorem admitting_sound {process : Process} (sound : process.Sound) (index : Option Nat)
    (batch : List Event) : (process.admitting platform index receiver batch).Sound := by
  unfold Process.admitting
  dsimp only
  split
  · rename_i final admitted
    have kept := admitBatch_invariant (fun state => (chainLinks.Chained state.store.log.events.rows ∧
        HeadsAgree state) ∧ state.store.log.Readable)
      (fun state event next _ held step => by
        refine ⟨admitStep_chained held.1 step, fun row member => ?_⟩
        rcases admitStep_hlc step member with ⟨old, inLog, same⟩ | ⟨phys, logical, node, _, parsed, _⟩
        · rw [← same]
          exact held.2 old inLog
        · exact ⟨_, readingOf_parse parsed⟩)
      ⟨⟨sound.chained, headsAgree_start process.store _⟩, sound.readable⟩ admitted
    exact ⟨kept.1.1, kept.2⟩
  · constructor
    · rw [setClock_store]
      exact sound.chained
    · rw [setClock_store]
      exact sound.readable

theorem perform_sound {process : Process} (sound : process.Sound) (call : ProcessCall) :
    (process.perform platform call).Sound := by
  cases call with
  | openEmitter identity => exact ⟨sound.chained, sound.readable⟩
  | emit index reduced live now recordedAt request =>
      unfold Process.perform
      dsimp only
      split
      · exact sound
      · rename_i emitter _
        split
        · rename_i store event written
          obtain ⟨row, middle, emitted⟩ := write_ok written
          have events := insertPayload_events emitted.payload
          refine ⟨?_, fun held member => ?_⟩
          · dsimp only
            rw [events, emitted.inserted.rows]
            exact sound.chained.append (emitted_follows emitted)
          · dsimp only at member
            rw [events] at member
            rcases emitted.inserted.mem_iff.mp member with old | rfl
            · exact sound.readable held old
            · rw [inserted_hlc emitted.inserted]
              exact ⟨_, emitted_reading emitted⟩
        · exact ⟨sound.chained, sound.readable⟩
  | deliver index receiver batch => exact admitting_sound sound index batch
  | pull index receiver source sourceTrust pullerNode =>
      unfold Process.perform
      dsimp only
      split
      · exact admitting_sound sound index _
      · exact sound

theorem run_sound (calls : List ProcessCall) : (Process.run platform calls).Sound := by
  unfold Process.run
  refine List.foldlRecOn calls _ ?_ fun process sound call _ => perform_sound sound call
  exact ⟨Links.chained_nil, fun row held => (by cases held)⟩

theorem run_snoc (calls : List ProcessCall) (call : ProcessCall) :
    Process.run platform (calls ++ [call]) = (Process.run platform calls).perform platform call := by
  unfold Process.run
  rw [List.foldl_append]
  rfl

theorem perform_open_store (process : Process) (identity : IdentityContext) :
    (process.perform platform (.openEmitter identity)).store = process.store := rfl

/-! ## The order of stamps -/

/-- Whatever the call emits is stamped past its causes. -/
def Process.Ordered (platform : Platform) (process : Process) (call : ProcessCall) : Prop :=
  ∀ emitter now event, process.Emits platform call emitter now event →
    ∀ row, process.Causes row event → ∃ held new, readingOf row.hlc = some held ∧
      readingOf event.hlc = some new ∧ held < new

/-- Before the call its emitter's clock has reached the head of its own stream and everything
admitted, or the wall clock is past them. -/
def Process.Ahead (platform : Platform) (process : Process) (call : ProcessCall) : Prop :=
  ∀ emitter now event, process.Emits platform call emitter now event →
    ∀ row ∈ process.store.log.events,
      process.store.log.head emitter.identity.nodeRef = some row ∨ row.eventId ∈ process.admitted →
        ∀ held, readingOf row.hlc = some held →
          held ≤ emitter.hlc.reading ∨ ((ofLex held).1 : Int) < now

theorem causes_iff {process : Process} (sound : process.Sound) {emitter : Emitter}
    {now recordedAt : Int} {request : EmitRequest} {next middle : Log} {event : Event}
    {new : EventRow} (emitted : Emitted platform emitter now recordedAt process.store.log request
      next event new middle) (row : EventRow) :
    process.Causes row event ↔ row ∈ process.store.log.events ∧
      (process.store.log.head emitter.identity.nodeRef = some row ∨
        row.eventId ∈ process.admitted) := by
  unfold Process.Causes
  refine and_congr_right fun held => or_congr_left ?_
  rw [emitted.minted.envelope]
  simp only [nextEnvelope]
  cases found : process.store.log.head emitter.identity.nodeRef with
  | none =>
      refine iff_of_false ?_ (by simp)
      exact fun placed => head_none found row held placed.1
  | some last =>
      obtain ⟨lastHeld, lastNamed⟩ := head_mem found
      constructor
      · rintro ⟨named, seq⟩
        have sameSeq : last.originSeq = row.originSeq := by
          simp only [Option.elim] at seq
          omega
        rw [sound.chained.placed last lastHeld row held (lastNamed.trans named.symm) sameSeq]
      · intro same
        cases same
        exact ⟨lastNamed, rfl⟩

theorem ordered_iff_ahead {process : Process} (sound : process.Sound) (call : ProcessCall) :
    process.Ordered platform call ↔ process.Ahead platform call := by
  have written : ∀ {emitter : Emitter} {now : Int} {event : Event},
      process.Emits platform call emitter now event →
      ∃ recordedAt request next row middle,
        Emitted platform emitter now recordedAt process.store.log request next event row middle := by
    rintro emitter now event ⟨index, reduced, live, recordedAt, request, next, _, _, made⟩
    obtain ⟨row, middle, emitted⟩ := write_ok made
    exact ⟨recordedAt, request, next.log, row, middle, emitted⟩
  constructor
  · intro ordered emitter now event emits row held caused reading reads
    obtain ⟨_, _, _, _, _, emitted⟩ := written emits
    obtain ⟨own, new, ownReads, newReads, past⟩ :=
      ordered emitter now event emits row ((causes_iff sound emitted row).mpr ⟨held, caused⟩)
    rw [reads] at ownReads
    rw [emitted_reading emitted] at newReads
    cases ownReads
    cases newReads
    exact (lt_tick_iff _ _ _).mp past
  · intro ahead emitter now event emits row causes
    obtain ⟨_, _, _, _, _, emitted⟩ := written emits
    obtain ⟨held, caused⟩ := (causes_iff sound emitted row).mp causes
    obtain ⟨reading, reads⟩ := sound.readable row held
    exact ⟨reading, _, reads, emitted_reading emitted,
      (lt_tick_iff _ _ _).mpr (ahead emitter now event emits row held caused reading reads)⟩

/-! ## One emitter throughout -/

/-- The call opens no emitter, and an admission is handed the clock of the first one. -/
def ProcessCall.Threads : ProcessCall → Prop
  | .openEmitter _ => False
  | .emit .. => True
  | .deliver index _ _ => index = some 0
  | .pull index _ _ _ _ => index = some 0

/-- There is one emitter, and its clock is past the whole log. -/
def Process.Threaded (process : Process) : Prop :=
  ∃ emitter, process.emitters = [emitter] ∧ emitter.hlc.Covers process.store.log

theorem admitting_threaded {process : Process} (threaded : process.Threaded) (batch : List Event) :
    (process.admitting platform (some 0) receiver batch).Threaded := by
  obtain ⟨emitter, sole, covers⟩ := threaded
  have handed : (some 0).bind (fun index => process.emitters[index]?.map (·.hlc)) =
      some emitter.hlc := by
    rw [sole]
    rfl
  have set : (AdmitState.start process.store (some emitter.hlc)).clock = some emitter.hlc := rfl
  obtain ⟨later, after, forward, coversFinal⟩ : ∃ later,
      clockAfter platform receiver (AdmitState.start process.store (some emitter.hlc)) batch =
        some later ∧ emitter.hlc.reading ≤ later.reading ∧
      ∀ final, admitBatch platform receiver process.store (some emitter.hlc) batch = .ok final →
        later.Covers final.store.log := clockAfter_covers set covers
  unfold Process.admitting
  dsimp only
  rw [handed, after]
  have moved : (process.setClock (some 0) (some later)).emitters = [{ emitter with hlc := later }] := by
    unfold Process.setClock
    dsimp only
    rw [sole]
    rfl
  split
  · rename_i final admitted
    exact ⟨_, moved, coversFinal final admitted⟩
  · refine ⟨_, moved, ?_⟩
    rw [setClock_store]
    intro row held
    obtain ⟨reading, reads, below⟩ := covers row held
    exact ⟨reading, reads, below.trans forward⟩

theorem perform_threaded {process : Process} (threaded : process.Threaded) {call : ProcessCall}
    (threads : call.Threads) : (process.perform platform call).Threaded := by
  cases call with
  | openEmitter identity => exact threads.elim
  | emit index reduced live now recordedAt request =>
      obtain ⟨emitter, sole, covers⟩ := threaded
      unfold Process.perform
      dsimp only
      split
      · exact ⟨emitter, sole, covers⟩
      · rename_i own found
        have named : index = 0 ∧ own = emitter := by
          rw [sole] at found
          cases index with
          | zero =>
              cases found
              exact ⟨rfl, rfl⟩
          | succ index => simp at found
        obtain ⟨rfl, rfl⟩ := named
        have past := le_of_lt (own.hlc.reading_lt_tick now)
        have ticked : process.emitters.set 0
            (own.write platform reduced live now recordedAt process.store request).1 =
              [{ own with hlc := own.hlc.tick now }] := by
          rw [sole, write_clock]
          rfl
        split
        · rename_i store event written
          obtain ⟨row, middle, emitted⟩ := write_ok written
          refine ⟨_, ticked, fun held member => ?_⟩
          dsimp only at member
          rw [insertPayload_events emitted.payload] at member
          rcases emitted.inserted.mem_iff.mp member with old | rfl
          · obtain ⟨reading, reads, below⟩ := covers held old
            exact ⟨reading, reads, below.trans past⟩
          · rw [inserted_hlc emitted.inserted]
            exact ⟨_, emitted_reading emitted, le_refl _⟩
        · refine ⟨_, ticked, fun held member => ?_⟩
          obtain ⟨reading, reads, below⟩ := covers held member
          exact ⟨reading, reads, below.trans past⟩
  | deliver index receiver batch =>
      cases threads
      exact admitting_threaded threaded batch
  | pull index receiver source sourceTrust pullerNode =>
      cases threads
      unfold Process.perform
      dsimp only
      split
      · exact admitting_threaded threaded _
      · exact threaded

theorem threaded_ahead {process : Process} (threaded : process.Threaded) (call : ProcessCall) :
    process.Ahead platform call := by
  obtain ⟨emitter, sole, covers⟩ := threaded
  rintro own now event ⟨index, _, _, _, _, _, _, found, _⟩ row held _ reading reads
  have same : own = emitter := by
    rw [sole] at found
    cases index with
    | zero =>
        cases found
        rfl
    | succ index => simp at found
  obtain ⟨covered, coveredReads, below⟩ := covers row held
  rw [reads] at coveredReads
  cases coveredReads
  exact .inl (same ▸ below)

namespace Restarted

theorem named : "node" ≠ "" := by decide

def identity : IdentityContext := plainIdentity "node" named

def request : EmitRequest := plainRequest (.claimRecorded plainClaim) none

def emitAt (index : Nat) (now : Int) : ProcessCall := .emit index none true now 0 request

theorem emits {log : Log} {n : Nat} (ready : log.Ready plainPlatform n) (room : n < 2 ^ 62)
    (now : Int) : ∃ next event row middle,
      ((Emitter.start identity).emit plainPlatform true now 0 log request).2 = .ok (next, event) ∧
      Emitted plainPlatform (Emitter.start identity) now 0 log request next event row middle ∧
      next.Ready plainPlatform (n + 1) :=
  plain_emit ready room named (by decide) now 0 plainClaim_writable none
    fun scope set => (by cases set)

end Restarted

end Kawa
