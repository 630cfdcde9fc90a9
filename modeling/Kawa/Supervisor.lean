import Kawa.AdmitProgress
import Kawa.AdmittedLog
import Kawa.Calls
import Kawa.Lib.JsonDump
import Kawa.WorkDiscovery

/-!
The supervisor.  Each tick reads the ready works, records an observation of every one that it has
not surfaced yet, and saves last what it has surfaced.  It may be killed anywhere, its state file
may be lost, and a tick that raises ends the process.
-/

namespace Kawa

open Ranking Result

namespace Supervisor

variable {platform : Platform} {readPayload : String → Option Payload}

/-! ## A tick -/

/-- What a tick reads of a ready work. -/
structure ReadyWork where
  planRef : String
  workRef : String
  workKind : String
  role : Option String
  eligibleAt : Option Int

section Tick

/-- The clock columns of the query, and how instants are written: `eligibleAt` is
`events.recorded_at`, else `ready_at`. -/
structure Instants where
  readyAt : String → WithTop Int
  eligibleAt : String → Option Int
  iso : Int → String
  seconds : Int → Json.Double

variable (platform : Platform) (instants : Instants)

/-- `read_ready` -/
def readReady (store : Store) : List ReadyWork :=
  (sortBy (fifo instants.readyAt) (readyFor store none)).map fun work =>
    { planRef := work.planRef
      workRef := work.workRef
      workKind := work.workKind
      role := work.roleRequirement
      eligibleAt := instants.eligibleAt work.workRef }

/-- The works of a tick that are not surfaced yet. -/
def unsurfaced (surfaced : Dict String String) (ready : List ReadyWork) : List ReadyWork :=
  ready.filter fun work => (Dict.get? surfaced work.workRef).isNone

def workSource (workRef : String) : String := "kawa://current_work/" ++ workRef

/-- What is hashed of a surfacing. -/
def surfacedTuple (work : ReadyWork) (eligibleAt surfacedAt : Int) : Json :=
  .obj [("work_ref", .str work.workRef), ("plan_ref", .str work.planRef),
    ("eligible_at", .str (instants.iso eligibleAt)),
    ("surfaced_at", .str (instants.iso surfacedAt))]

/-- The observation of a surfacing; one without a value is refused. -/
def surfacing (tickNo : Nat) (policyDigest : String) (surfacedAt : Int) (work : ReadyWork) :
    Option EmitRequest :=
  work.eligibleAt.map fun eligibleAt =>
    { payload := .observationRecorded
        { predicate := "work_surfaced"
          value := .number (instants.seconds (surfacedAt - eligibleAt))
          observationMethodClass := .metricRead
          occurredAt := none
          source := some
            { sourceRef := workSource work.workRef
              sourceRevision := some ("tick=" ++ toString tickNo ++ " t_eligible=" ++
                instants.iso eligibleAt ++ " t_surfaced=" ++ instants.iso surfacedAt ++
                " policy_digest=" ++ policyDigest)
              contentDigest := "sha256:" ++ platform.sha256
                (Json.dump (surfacedTuple instants work eligibleAt surfacedAt).sortKeys)
              fetchedAt := instants.iso surfacedAt } }
      subjectRef := none
      policyDigest := some policyDigest
      scopeRef := some "fleet"
      envelopeVersion := none }

/-- The state after a tick: what has left the ready set is pruned, what is new is stamped. -/
def nextSurfaced (surfaced : Dict String String) (ready : List ReadyWork) (ts : String) :
    Dict String String :=
  (unsurfaced surfaced ready).foldl (fun kept work => Dict.set kept work.workRef ts)
    (surfaced.filter fun entry => (ready.map (·.workRef)).contains entry.1)

/-- `load_state`: a file that is absent or unreadable holds nothing. -/
def loadState (file : Option (Dict String String)) : Dict String String := file.getD []

end Tick

/-! ## The process and its surroundings -/

structure World where
  store : Store := {}
  surfaced : Dict String String := []
  file : Option (Dict String String) := none
  tickNo : Nat := 0

inductive Label
  | call (call : Call)
  | restart
  | lost
  | tick (ready surfaced : List String) (saved : Bool)

section Step

variable (platform : Platform) (readPayload : String → Option Payload) (instants : Instants)

/-- The observations of some works, one after the other, between the calls of others. -/
inductive Records (tickNo : Nat) (policyDigest : String) (surfacedAt : Int) :
    Store → List ReadyWork → Store → Prop
  | nil (store : Store) : Records tickNo policyDigest surfacedAt store [] store
  | other {store middle next : Store} {works : List ReadyWork} {call : Call} :
      Called platform readPayload store call middle →
      Records tickNo policyDigest surfacedAt middle works next →
      Records tickNo policyDigest surfacedAt store works next
  | record {store middle next : Store} {work : ReadyWork} {works : List ReadyWork}
      {request : EmitRequest} {scan : Scan} {emitter : Emitter} {live : Bool}
      {now recordedAt : Int} :
      surfacing platform instants tickNo policyDigest surfacedAt work = some request →
      Called platform readPayload store (.emitReduce scan emitter live now recordedAt request)
        middle →
      Records tickNo policyDigest surfacedAt middle works next →
      Records tickNo policyDigest surfacedAt store (work :: works) next

inductive Step : World → Label → World → Prop
  | called {world : World} {call : Call} {next : Store} :
      Called platform readPayload world.store call next →
      Step world (.call call) { world with store := next }
  | restarted {world : World} :
      Step world .restart { world with surfaced := loadState world.file, tickNo := 0 }
  /-- The state file disappears, or cannot be read any more. -/
  | lost {world : World} : Step world .lost { world with file := none }
  /-- Whatever becomes of the bridge. -/
  | ticked {world : World} {next : Store} {policyDigest : String} {surfacedAt : Int} :
      Records platform readPayload instants (world.tickNo + 1) policyDigest surfacedAt world.store
        (unsurfaced world.surfaced (readReady instants world.store)) next →
      Step world
        (.tick ((readReady instants world.store).map (·.workRef))
          ((unsurfaced world.surfaced (readReady instants world.store)).map (·.workRef)) true)
        { store := next
          surfaced := nextSurfaced world.surfaced (readReady instants world.store)
            (instants.iso surfacedAt)
          file := some (nextSurfaced world.surfaced (readReady instants world.store)
            (instants.iso surfacedAt))
          tickNo := world.tickNo + 1 }
  /-- Killed, or raising, before the state is saved: the next process starts from the file. -/
  | cut {world : World} {next : Store} {policyDigest : String} {surfacedAt : Int}
      {done : List ReadyWork} :
      done <+: unsurfaced world.surfaced (readReady instants world.store) →
      Records platform readPayload instants (world.tickNo + 1) policyDigest surfacedAt world.store
        done next →
      Step world
        (.tick ((readReady instants world.store).map (·.workRef)) (done.map (·.workRef)) false)
        { world with store := next, surfaced := loadState world.file, tickNo := 0 }

end Step

/-! ## What the labels say, newest first -/

/-- What the file lists: the ready works of the last tick that was saved, unless it was lost. -/
def Saved : List Label → String → Prop
  | [], _ => False
  | .tick ready _ true :: _, ref => ref ∈ ready
  | .tick _ _ false :: past, ref => Saved past ref
  | .lost :: _, _ => False
  | .call _ :: past, ref => Saved past ref
  | .restart :: past, ref => Saved past ref

/-- What the process holds. -/
def Held : List Label → String → Prop
  | [], _ => False
  | .tick ready _ true :: _, ref => ref ∈ ready
  | .tick _ _ false :: past, ref => Saved past ref
  | .restart :: past, ref => Saved past ref
  | .lost :: past, ref => Held past ref
  | .call _ :: past, ref => Held past ref

/-- The work has been surfaced since the last saved tick at which it was not ready. -/
def Told : List Label → String → Prop
  | [], _ => False
  | .tick ready surfaced saved :: past, ref =>
      ref ∈ surfaced ∨ (saved = true → ref ∈ ready) ∧ Told past ref
  | _ :: past, ref => Told past ref

/-- How often, since then. -/
def tellings : List Label → String → Nat
  | [], _ => 0
  | .tick ready surfaced saved :: past, ref =>
      if saved = true ∧ ref ∉ ready then 0 else surfaced.count ref + tellings past ref
  | _ :: past, ref => tellings past ref

/-- The ticks that were cut and the losses of the file, since then. -/
def breaks : List Label → String → Nat
  | [], _ => 0
  | .tick ready _ saved :: past, ref =>
      if saved = true ∧ ref ∉ ready then 0 else (if saved = true then 0 else 1) + breaks past ref
  | .lost :: past, ref => breaks past ref + 1
  | _ :: past, ref => breaks past ref

/-- A log that holds the observation of a surfacing. -/
def Observed (log : Log) (ref : String) : Prop :=
  ∃ fact ∈ log.eventObservation, fact.predicate = "work_surfaced" ∧
    fact.sourceRef = some (workSource ref)

/-! ## The dictionary of a tick -/

section State

variable {surfaced : Dict String String} {ready : List ReadyWork} {ref : String}

theorem isSome_set_all (works : List ReadyWork) (ts : String) (kept : Dict String String) :
    (Dict.get? (works.foldl (fun kept work => Dict.set kept work.workRef ts) kept) ref).isSome ↔
      ref ∈ works.map (·.workRef) ∨ (Dict.get? kept ref).isSome := by
  induction works generalizing kept with
  | nil => simp
  | cons work works ih =>
      rw [List.foldl_cons, ih, List.map_cons, List.mem_cons]
      by_cases own : ref = work.workRef
      · simp [own]
      · simp [own, Dict.get?_set_ne kept ts own]

theorem isSome_filter (keys : List String) (held : Dict String String) :
    (Dict.get? (held.filter fun entry => keys.contains entry.1) ref).isSome ↔
      ref ∈ keys ∧ (Dict.get? held ref).isSome := by
  induction held with
  | nil => simp
  | cons entry held ih =>
      obtain ⟨key, value⟩ := entry
      by_cases listed : key ∈ keys
      · rw [List.filter_cons_of_pos (by simpa using listed), Dict.get?_cons, Dict.get?_cons]
        by_cases own : key = ref
        · simp [own, own ▸ listed]
        · rw [if_neg own, if_neg own]
          exact ih
      · rw [List.filter_cons_of_neg (by simpa using listed), ih, Dict.get?_cons]
        by_cases own : key = ref
        · simp [own ▸ listed]
        · rw [if_neg own]

theorem mem_unsurfaced : ref ∈ (unsurfaced surfaced ready).map (·.workRef) ↔
    ref ∈ ready.map (·.workRef) ∧ ¬ (Dict.get? surfaced ref).isSome := by
  simp only [unsurfaced, List.mem_map, List.mem_filter, Bool.not_eq_true,
    Option.isSome_eq_false_iff]
  constructor
  · rintro ⟨work, ⟨held, fresh⟩, rfl⟩
    exact ⟨⟨work, held, rfl⟩, fresh⟩
  · rintro ⟨⟨work, held, rfl⟩, fresh⟩
    exact ⟨work, ⟨held, fresh⟩, rfl⟩

/-- After a tick the state lists the ready works, no others. -/
theorem isSome_nextSurfaced {ts : String} :
    (Dict.get? (nextSurfaced surfaced ready ts) ref).isSome ↔ ref ∈ ready.map (·.workRef) := by
  rw [nextSurfaced, isSome_set_all, isSome_filter, mem_unsurfaced]
  tauto

theorem readReady_nodup {instants : Instants} {store : Store} :
    ((readReady instants store).map (·.workRef)).Nodup := by
  have keys : (readReady instants store).map (·.workRef) =
      (sortBy (fifo instants.readyAt) (readyFor store none)).map (·.workRef) := by
    rw [readReady, List.map_map]
    rfl
  rw [keys, ((sortBy_perm _ _).map _).nodup_iff]
  exact store.projections.currentWork.unique.sublist (List.filter_sublist.map _)

theorem mem_readReady {instants : Instants} {store : Store} :
    ref ∈ (readReady instants store).map (·.workRef) ↔
      ∃ row ∈ store.projections.currentWork, row.workRef = ref ∧ row.execution = .ready := by
  simp only [readReady, List.map_map, List.mem_map, mem_sortBy, readyFor, List.mem_filter,
    Option.all_none, and_true, decide_eq_true_eq, Function.comp, Table.mem_rows]
  refine exists_congr fun row => ?_
  constructor
  · rintro ⟨⟨held, ready⟩, named⟩
    exact ⟨held, named, ready⟩
  · rintro ⟨held, named, ready⟩
    exact ⟨⟨held, ready⟩, named⟩

end State

/-! ## What a tick records -/

theorem Observed.later {log next : Log} {ref : String} (observed : Observed log ref)
    (kept : log.Keeps next) : Observed next ref := by
  obtain ⟨fact, held, named⟩ := observed
  exact ⟨fact, kept.eventObservation fact held, named⟩

/-- A surfacing leaves its observation in the log. -/
theorem surfacing_observed {instants : Instants} {store next : Store} {work : ReadyWork}
    {request : EmitRequest} {scan : Scan} {emitter : Emitter} {live : Bool}
    {now recordedAt surfacedAt : Int} {tickNo : Nat} {policyDigest : String}
    (made : surfacing platform instants tickNo policyDigest surfacedAt work = some request)
    (called : Called platform readPayload store
      (.emitReduce scan emitter live now recordedAt request) next) :
    Observed next.log work.workRef := by
  obtain ⟨eligibleAt, _, rfl⟩ := Option.map_eq_some_iff.mp made
  cases called_cases called with
  | emitted _ _ _ request event row middle requested emitted _ =>
      cases requested
      have written := emitted.payload
      simp only [insertPayload, insertObservationRecorded, bind_ok, pure_ok] at written
      obtain ⟨table, inserted, same⟩ := written
      rw [← same]
      exact ⟨_, insertRow_mem inserted, rfl, rfl⟩
  | delivered receiver clock batch final offers admitted log _ => exact offers.elim

theorem Records.keeps {instants : Instants} {tickNo : Nat} {policyDigest : String}
    {surfacedAt : Int} {store next : Store} {works : List ReadyWork}
    (records : Records platform readPayload instants tickNo policyDigest surfacedAt store works
      next) : store.log.Keeps next.log := by
  induction records with
  | nil store => exact .refl _
  | other called _ ih => exact (called_keeps called).trans ih
  | record _ called _ ih => exact (called_keeps called).trans ih

theorem Records.observed {instants : Instants} {tickNo : Nat} {policyDigest : String}
    {surfacedAt : Int} {store next : Store} {works : List ReadyWork}
    (records : Records platform readPayload instants tickNo policyDigest surfacedAt store works
      next) : ∀ ref ∈ works.map (·.workRef), Observed next.log ref := by
  induction records with
  | nil store =>
      intro ref none
      cases none
  | other _ _ ih => exact ih
  | record made called rest ih =>
      intro ref listed
      rcases List.mem_cons.mp listed with rfl | later
      · exact (surfacing_observed made called).later rest.keeps
      · exact ih ref later

/-! ## Over whole runs -/

/-- What the labels so far say of the world. -/
structure Tracked (past : List Label) (world : World) : Prop where
  held : ∀ ref, (Dict.get? world.surfaced ref).isSome ↔ Held past ref
  saved : ∀ ref, (Dict.get? (loadState world.file) ref).isSome ↔ Saved past ref
  told : ∀ ref, Held past ref ∨ Saved past ref → Told past ref
  bounded : ∀ ref, tellings past ref ≤ breaks past ref + 1 ∧
    (¬ Held past ref ∨ ¬ Saved past ref → tellings past ref ≤ breaks past ref)
  observed : ∀ ready surfaced saved, Label.tick ready surfaced saved ∈ past →
    ∀ ref ∈ surfaced, Observed world.store.log ref

theorem tracked_start (store : Store) : Tracked [] { store := store } where
  held ref := by simp [Held]
  saved ref := by simp [loadState, Saved]
  told ref known := by rcases known with known | known <;> cases known
  bounded ref := ⟨Nat.zero_le _, fun _ => Nat.zero_le _⟩
  observed _ _ _ listed := by cases listed

/-- A tick counts a work that the process does not hold, at most once. -/
theorem surfaced_fresh {instants : Instants} {world : World} {done : List ReadyWork} {ref : String}
    (first : done <+: unsurfaced world.surfaced (readReady instants world.store)) :
    (done.map (·.workRef)).count ref ≤ 1 ∧
      (ref ∈ done.map (·.workRef) → ref ∈ (readReady instants world.store).map (·.workRef) ∧
        ¬ (Dict.get? world.surfaced ref).isSome) := by
  have sub : (done.map (·.workRef)).Sublist ((readReady instants world.store).map (·.workRef)) :=
    (first.sublist.trans List.filter_sublist).map _
  exact ⟨List.nodup_iff_count_le_one.mp (readReady_nodup.sublist sub) ref,
    fun listed => mem_unsurfaced.mp ((first.sublist.map _).subset listed)⟩

section Tracking

variable {instants : Instants} {past : List Label} {world : World} (tracked : Tracked past world)

include tracked

/-- A tick that is cut costs one break, whether it told of the work or not. -/
theorem Tracked.cut {next : Store} {policyDigest : String} {surfacedAt : Int}
    {done : List ReadyWork}
    (first : done <+: unsurfaced world.surfaced (readReady instants world.store))
    (records : Records platform readPayload instants (world.tickNo + 1) policyDigest surfacedAt
      world.store done next) :
    Tracked
      (.tick ((readReady instants world.store).map (·.workRef)) (done.map (·.workRef)) false ::
        past)
      { world with store := next, surfaced := loadState world.file, tickNo := 0 } where
  held := tracked.saved
  saved := tracked.saved
  told ref known := .inr ⟨fun saved => (by cases saved), tracked.told ref (known.elim .inr .inr)⟩
  bounded ref := by
    obtain ⟨atMost, absent⟩ := tracked.bounded ref
    obtain ⟨once, fresh⟩ := @surfaced_fresh _ _ _ ref first
    have counted : tellings past ref + (done.map (·.workRef)).count ref ≤ breaks past ref + 1 := by
      by_cases told : ref ∈ done.map (·.workRef)
      · have before := absent (.inl fun held => (fresh told).2 ((tracked.held ref).mpr held))
        omega
      · rw [List.count_eq_zero_of_not_mem told]
        exact atMost
    simp only [tellings, breaks, Bool.false_eq_true, false_and, ↓reduceIte]
    constructor
    · omega
    · intro _
      omega
  observed ready surfaced saved listed ref told := by
    rcases List.mem_cons.mp listed with now | before
    · cases now
      exact records.observed ref told
    · exact (tracked.observed ready surfaced saved before ref told).later records.keeps

theorem Tracked.ticked {next : Store} {policyDigest : String} {surfacedAt : Int}
    (records : Records platform readPayload instants (world.tickNo + 1) policyDigest surfacedAt
      world.store (unsurfaced world.surfaced (readReady instants world.store)) next) {ts : String} :
    Tracked
      (.tick ((readReady instants world.store).map (·.workRef))
        ((unsurfaced world.surfaced (readReady instants world.store)).map (·.workRef)) true :: past)
      { store := next
        surfaced := nextSurfaced world.surfaced (readReady instants world.store) ts
        file := some (nextSurfaced world.surfaced (readReady instants world.store) ts)
        tickNo := world.tickNo + 1 } where
  held ref := isSome_nextSurfaced
  saved ref := isSome_nextSurfaced
  told ref known := by
    have ready : ref ∈ (readReady instants world.store).map (·.workRef) := known.elim id id
    by_cases held : (Dict.get? world.surfaced ref).isSome
    · exact .inr ⟨fun _ => ready, tracked.told ref (.inl ((tracked.held ref).mp held))⟩
    · exact .inl (mem_unsurfaced.mpr ⟨ready, held⟩)
  bounded ref := by
    obtain ⟨atMost, absent⟩ := tracked.bounded ref
    obtain ⟨once, fresh⟩ := @surfaced_fresh _ _ _ ref
      (List.prefix_refl (unsurfaced world.surfaced (readReady instants world.store)))
    by_cases ready : ref ∈ (readReady instants world.store).map (·.workRef)
    · simp only [tellings, breaks, ready, not_true_eq_false, and_false, ↓reduceIte, Nat.zero_add]
      refine ⟨?_, fun either => ?_⟩
      · by_cases told : ref ∈ (unsurfaced world.surfaced (readReady instants world.store)).map
            (·.workRef)
        · have before := absent (.inl fun held => (fresh told).2 ((tracked.held ref).mpr held))
          omega
        · rw [List.count_eq_zero_of_not_mem told]
          omega
      · exact absurd ready (either.elim id id)
    · simp [tellings, breaks, ready]
  observed ready surfaced saved listed ref told := by
    rcases List.mem_cons.mp listed with now | before
    · cases now
      exact records.observed ref told
    · exact (tracked.observed ready surfaced saved before ref told).later records.keeps

theorem Tracked.step {label : Label} {next : World}
    (step : Step platform readPayload instants world label next) :
    Tracked (label :: past) next := by
  have unticked : ∀ {other}, (∀ ready surfaced saved, label ≠ .tick ready surfaced saved) →
      world.store.log.Keeps other → ∀ ready surfaced saved,
      Label.tick ready surfaced saved ∈ label :: past → ∀ ref ∈ surfaced, Observed other ref := by
    intro other apart kept ready surfaced saved listed ref told
    have before := (List.mem_cons.mp listed).resolve_left fun same => apart _ _ _ same.symm
    exact (tracked.observed ready surfaced saved before ref told).later kept
  cases step with
  | called called =>
      exact ⟨tracked.held, tracked.saved, tracked.told, tracked.bounded,
        unticked (fun _ _ _ same => by cases same) (called_keeps called)⟩
  | restarted =>
      refine ⟨tracked.saved, tracked.saved,
        fun ref known => tracked.told ref (known.elim .inr .inr),
        fun ref => ⟨(tracked.bounded ref).1, fun absent => (tracked.bounded ref).2
          (.inr (absent.elim id id))⟩, unticked (fun _ _ _ same => by cases same) (.refl _)⟩
  | lost =>
      refine ⟨tracked.held, fun ref => by simp [loadState, Saved], fun ref known =>
        tracked.told ref (.inl (known.resolve_right id)), fun ref => ?_,
        unticked (fun _ _ _ same => by cases same) (.refl _)⟩
      have atMost := (tracked.bounded ref).1
      simp only [tellings, breaks]
      exact ⟨by omega, fun _ => by omega⟩
  | ticked records => exact tracked.ticked records
  | cut first records => exact tracked.cut first records

end Tracking

/-! ## A work that waits -/

namespace Waiting

def row : CurrentWork where
  workRef := "work"
  planRef := "plan"
  workKind := "kind"
  subjectRef := none
  roleRequirement := none
  execution := .ready
  dependencyTotal := 0
  dependencySatisfied := 0
  dependencyConflicted := 0

def store : Store where
  projections := { currentWork := (∅ : Table CurrentWork (·.workRef)).append row rfl }

def instants : Instants where
  readyAt _ := ⊤
  eligibleAt _ := some 0
  iso _ := "1970-01-01T00:00:00Z"
  seconds _ := { text := "0.0", literal := by decide, chars := by decide }

def work : ReadyWork where
  planRef := "plan"
  workRef := "work"
  workKind := "kind"
  role := none
  eligibleAt := some 0

theorem ready : readReady instants store = [work] := by
  have rows : readyFor store none = [row] := rfl
  rw [readReady, rows, sortBy, List.mergeSort_singleton]
  rfl

theorem reduce_observation {log : Log} {scan : Scan} {event : Event} {p : ObservationRecorded}
    (projections : Projections) (stamped : (parseHlc event.hlc).isSome = true)
    (carried : event.payload = some (.observationRecorded p)) :
    ∃ next, reduce log scan event projections = .ok next := by
  obtain ⟨⟨phys, logical, node⟩, parsed⟩ := Option.isSome_iff_exists.mp stamped
  obtain ⟨linked, held⟩ : ∃ linked, resolveHeld log projections event.toEnvelope = .ok linked := by
    simp only [resolveHeld, hlcParts, parsed, bind, Except.bind]
    split <;> exact ⟨_, rfl⟩
  simp only [reduce, held, carried, reducePayload, bind, Except.bind, Bool.or_true, ↓reduceIte]
  exact ⟨_, rfl⟩

def request : EmitRequest := (surfacing plainPlatform instants 1 "policy" 0 work).get rfl

theorem request_made : surfacing plainPlatform instants 1 "policy" 0 work = some request :=
  (Option.some_get _).symm

theorem request_storable : request.Storable plainPlatform where
  subject := ⟨none, rfl⟩
  policy := by
    rintro text ⟨⟩
    decide
  scope := by
    rintro text ⟨⟩
    decide
  payload := by
    intro log eventId unused
    exact (insertPayload_succeeds_iff unused).mpr ⟨by decide +kernel, rfl, trivial⟩

/-- The surfacing of the work can be recorded. -/
theorem recorded : ∃ next, Records plainPlatform (fun _ => none) instants 1 "policy" 0 store [work]
    next := by
  have empty : ({} : Log).Ready plainPlatform 0 := empty_ready
  have sound : request.Sound := {
    version := .inr rfl
    unreserved := by
      rintro text ⟨⟩
      decide }
  let emitter := Emitter.start (plainIdentity "node" (by decide))
  obtain ⟨log, event, done⟩ : ∃ log event,
      (emitter.emit plainPlatform true 1 0 store.log request).2 = .ok (log, event) :=
    emit_progress plainPlatform_collisionFree plainPlatform_storableDigests empty.invariant
      empty.referenced 1 0 sound (.inr rfl)
      (plainIdentity_storable (by decide : "node" ≠ "") (by decide))
      (by decide : storableText "node" = true) request_storable
      (fun row held => by cases held)
  obtain ⟨row, middle, emitted⟩ := emit_ok done
  have stamped : (parseHlc event.hlc).isSome = true := by
    have hlc : event.hlc = (emitter.hlc.tick 1).stamp := by
      rw [emitted.minted.envelope]
      rfl
    have parsed : parseHlc (emitter.hlc.tick 1).stamp = some (1, 0, "node") :=
      parseHlc_stamp { node := "node", physicalMs := 1, logical := 0 }
        (by decide : ("node" : String) ≠ "")
        (show 1 < 2 ^ 63 by decide) (show 0 < 2 ^ 63 by decide)
    rw [hlc, parsed]
    rfl
  obtain ⟨projections, reduced⟩ := @reduce_observation log .stored _ _
    store.projections stamped emitted.minted.payload
  exact ⟨_, .record request_made (called_emitReduce done reduced) (.nil _)⟩

end Waiting

end Supervisor

end Kawa
