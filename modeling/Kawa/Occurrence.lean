import Kawa.AnchorCurrency
import Kawa.WorkConvergence

/-!
The occurrence of an attempt, and what a result that is recorded twice does: nothing.  Of each
attempt the causally first result counts, and a store shows the same works with and without the
others.
-/

namespace Kawa

open Result Latest

variable {platform : Platform} {readPayload : String → Option Payload}

/-! ## Keys of attempts -/

/-- `h_ok` -/
def hOk (platform : Platform) (minterTag : String) (coordinate : List Json) : String :=
  digest platform (.obj [("minter", .str minterTag), ("coordinate", .arr coordinate)])

/-- One execution of a Work, after the result that it retries. -/
structure Attempt where
  planRef : String
  workRef : String
  causalPriorResultRef : Option String

def workOccurrenceKey (platform : Platform) (attempt : Attempt) : String :=
  hOk platform "plan"
    [.str attempt.planRef, .str attempt.workRef, optionalText attempt.causalPriorResultRef]

theorem workOccurrenceKey_injective (collisionFree : CollisionFree platform) :
    Function.Injective (workOccurrenceKey platform) := by
  intro left right same
  have keyed : ∀ attempt : Attempt, Json.WellKeyed (.obj [("minter", .str "plan"),
      ("coordinate", .arr [.str attempt.planRef, .str attempt.workRef,
        optionalText attempt.causalPriorResultRef])]) := by
    intro attempt
    simp [Json.WellKeyed, Json.WellKeyedMembers, Json.WellKeyedItems]
  have sorted := Json.canonicalJson_injective (keyed left) (keyed right)
    (collisionFree (append_left_cancel same))
  obtain ⟨plan, work, prior⟩ := left
  obtain ⟨otherPlan, otherWork, otherPrior⟩ := right
  simp [Json.sortKeys, Json.sortMembers, Json.sortItems] at sorted
  obtain ⟨rfl, rfl, priors⟩ := sorted
  rw [optionalText_injective priors]

/-! ## The first of those that carry a key -/

/-- Among the results of a work that carry a key, one is not later than another. -/
theorem exists_first {log : Log} (placed : log.WorkHeld) {fact : EventResultRow}
    (held : fact ∈ log.eventResult) {key : String} (carries : fact.occurrenceKey = some key) :
    ∃ first ∈ log.eventResult, first.workRef = fact.workRef ∧ first.occurrenceKey = some key ∧
      ¬ Later log first ∧ ∃ own theirs, log.keyOf fact.eventId = some own ∧
        log.keyOf first.eventId = some theirs ∧ theirs ≤ own := by
  classical
  have located : ∀ other ∈ log.eventResult, ∃ own, log.keyOf other.eventId = some own := by
    intro other inLog
    obtain ⟨row, stored, named⟩ := placed.results other inLog
    exact ⟨_, keyOf_of_mem stored named⟩
  obtain ⟨own, ownKey⟩ := located fact held
  let among := (log.eventResult.rows.filter fun row =>
    row.workRef = fact.workRef ∧ row.occurrenceKey = some key).toFinset
  have member : ∀ row, row ∈ among ↔ row ∈ log.eventResult ∧ row.workRef = fact.workRef ∧
      row.occurrenceKey = some key := by
    intro row
    simp [among]
  obtain ⟨first, inAmong, least⟩ := among.exists_min_image
    (fun row => (log.keyOf row.eventId).getD own) ⟨fact, (member fact).mpr ⟨held, rfl, carries⟩⟩
  obtain ⟨inLog, work, firstCarries⟩ := (member first).mp inAmong
  obtain ⟨theirs, theirKey⟩ := located first inLog
  refine ⟨first, inLog, work, firstCarries, ?_, own, theirs, ownKey, theirKey, ?_⟩
  · rintro ⟨shared, mine, same, mineKey, other, otherHeld, otherWork, otherCarries, earlier,
      earlierKey, before⟩
    rw [firstCarries] at same
    cases same
    have below := least other ((member other).mpr ⟨otherHeld, otherWork.trans work, otherCarries⟩)
    simp only [mineKey, earlierKey, Option.getD_some] at below
    exact absurd before (not_lt.mpr below)
  · have below := least fact ((member fact).mpr ⟨held, rfl, carries⟩)
    simpa only [ownKey, theirKey, Option.getD_some] using below

/-! ## A store with and without duplicates -/

theorem insertPayload_results {eventId : String} {payload : Payload} {solo : Log}
    {fact : EventResultRow} (alone : insertPayload platform {} eventId payload = .ok solo)
    (stated : fact ∈ solo.eventResult) :
    fact.eventId = eventId ∧ ∃ p, payload = .resultRecorded p := by
  cases payload <;>
    simp only [insertPayload, insertPlanCreated, insertPlanLifecycleChanged, insertWorkDerived,
      insertWorkRetired, insertWorkDependencyDeclared, insertResultRecorded, insertLinkAsserted,
      insertObservationRecorded, insertClaimRecorded, insertAuthorityConfiguration,
      insertAuthorityReceipt, bind_ok, pure_ok] at alone <;>
    first
      | obtain ⟨table, alone, rfl⟩ := alone
      | obtain ⟨_, _, table, alone, rfl⟩ := alone
  case resultRecorded p =>
    obtain ⟨fresh, rfl⟩ := insertRow_ok alone
    have appended : fact ∈ Table.append _ _ fresh := stated
    rcases Table.mem_append.mp appended with old | rfl
    · cases old
    · exact ⟨rfl, p, rfl⟩
  all_goals cases stated

/-- A result states nothing but itself. -/
theorem insertPayload_result {eventId : String} {p : ResultRecorded} {solo : Log}
    {fact : PayloadFact}
    (alone : insertPayload platform {} eventId (.resultRecorded p) = .ok solo)
    (stated : solo.States fact) : ∃ row, fact = .recorded row := by
  simp only [insertPayload, insertResultRecorded, bind_ok, pure_ok] at alone
  obtain ⟨table, _, rfl⟩ := alone
  cases fact
  case recorded row => exact ⟨row, rfl⟩
  all_goals cases stated

/-- The left store holds whole what the right one holds, and results of keys that an earlier
result carries. -/
structure Duplicates (left right : Log) : Prop where
  held : ∀ eventId, right.HoldsWhole eventId → left.HoldsWhole eventId
  spare : ∀ eventId, left.HoldsWhole eventId → ¬ right.HoldsWhole eventId →
    ∃ fact ∈ left.eventResult, fact.eventId = eventId ∧ Later left fact

section Duplicates

variable {left right : Store} (collisionFree : CollisionFree platform)
  (doubles : Json.ReadsDoubles platform.readFloat) (folded : left.Folded platform)
  (other : right.Folded platform) (duplicates : Duplicates left.log right.log)

include collisionFree doubles folded other duplicates

theorem Duplicates.back (fact : PayloadFact) (stated : right.log.States fact) :
    left.log.States fact :=
  other.factual.states collisionFree doubles other.stemmed folded.stemmed folded.factual
    duplicates.held stated

theorem Duplicates.resultKey (fact : EventResultRow) (held : fact ∈ right.log.eventResult) :
    left.log.keyOf fact.eventId = right.log.keyOf fact.eventId :=
  folded.stemmed.keys collisionFree other.stemmed
    (folded.dag.held.results fact
      (duplicates.back collisionFree doubles folded other (.recorded fact) held))
    (other.dag.held.results fact held)

/-- What is missing on the right is a duplicate result. -/
theorem Duplicates.states (fact : PayloadFact) (stated : left.log.States fact) :
    right.log.States fact ∨ ∃ row, fact = .recorded row ∧ Later left.log row := by
  obtain ⟨row, solo, writes, inSolo⟩ := folded.factual.sourced fact stated
  by_cases held : right.log.HoldsWhole row.eventId
  · exact .inl (writes.states collisionFree doubles folded.stemmed other.stemmed other.factual held
      inSolo)
  · obtain ⟨inLog, whole, payload, digested, alone⟩ := writes
    obtain ⟨result, resultHeld, named, later⟩ :=
      duplicates.spare row.eventId ⟨row, inLog, rfl, whole⟩ held
    obtain ⟨source, theirSolo, ⟨sourceHeld, _, theirs, theirDigest, theirAlone⟩, inTheirs⟩ :=
      folded.factual.sourced (.recorded result) resultHeld
    obtain ⟨ownId, p, isResult⟩ := insertPayload_results theirAlone inTheirs
    -- the event of the result is the event of the fact
    have same : source = row := Table.eq_of_key sourceHeld inLog (ownId.symm.trans named)
    subst same
    have payloads := payload_of_digest collisionFree doubles (digested.trans theirDigest.symm)
    rw [payloads] at alone
    rw [isResult] at alone theirAlone
    obtain ⟨own, rfl⟩ := insertPayload_result alone inSolo
    rw [theirAlone] at alone
    cases alone
    have one : own = result := Table.eq_of_key (show own ∈ left.log.eventResult from stated)
      resultHeld ((insertPayload_results theirAlone inSolo).1.trans ownId.symm)
    exact .inr ⟨own, rfl, one ▸ later⟩

/-- Later on the right is later on the left, where there is more. -/
theorem Duplicates.later {fact : EventResultRow} (held : fact ∈ right.log.eventResult)
    (later : Later right.log fact) : Later left.log fact := by
  have key := duplicates.resultKey collisionFree doubles folded other
  obtain ⟨shared, own, carries, ownKey, rival, rivalHeld, work, rivalCarries, theirs, theirKey,
    earlier⟩ := later
  exact ⟨shared, own, carries, (key fact held).trans ownKey, rival,
    duplicates.back collisionFree doubles folded other (.recorded rival) rivalHeld, work,
    rivalCarries, theirs, (key rival rivalHeld).trans theirKey, earlier⟩

/-- Later on the left is later on the right, where the first of the key is held. -/
theorem Duplicates.laterRight {fact : EventResultRow} (held : fact ∈ right.log.eventResult)
    (later : Later left.log fact) : Later right.log fact := by
  have key := duplicates.resultKey collisionFree doubles folded other
  have inLeft : fact ∈ left.log.eventResult :=
    duplicates.back collisionFree doubles folded other (.recorded fact) held
  obtain ⟨shared, _, carries, _⟩ := id later
  obtain ⟨first, firstHeld, work, firstCarries, isFirst, own, theirs, ownKey, theirKey, below⟩ :=
    exists_first folded.dag.held inLeft carries
  have inRight : first ∈ right.log.eventResult := by
    rcases duplicates.states collisionFree doubles folded other (.recorded first) firstHeld with
      stated | ⟨row, same, late⟩
    · exact stated
    · cases same
      exact absurd late isFirst
  have before : theirs < own := by
    refine lt_of_le_of_ne below fun same => isFirst ?_
    rw [same] at theirKey
    rw [Table.eq_of_key firstHeld inLeft (keyOf_injective theirKey ownKey)]
    exact later
  exact ⟨shared, own, carries, (key fact held).symm.trans ownKey, first, inRight, work,
    firstCarries, theirs, (key first inRight).symm.trans theirKey, before⟩

/-- What is not contained is on both sides. -/
theorem Duplicates.effects : SameEffects left.log right.log := by
  have back := duplicates.back collisionFree doubles folded other
  have into : ∀ fact, (∀ row, fact ≠ .recorded row) → left.log.States fact →
      right.log.States fact := by
    intro fact apart stated
    rcases duplicates.states collisionFree doubles folded other fact stated with
      inRight | ⟨row, same, _⟩
    · exact inRight
    · exact absurd same (apart row)
  have effective : ∀ fact ∈ left.log.eventResult, ¬ Later left.log fact →
      fact ∈ right.log.eventResult := by
    intro fact held first
    rcases duplicates.states collisionFree doubles folded other (.recorded fact) held with
      inRight | ⟨row, same, late⟩
    · exact inRight
    · cases same
      exact absurd late first
  refine ⟨fun fact => ⟨into (.derived fact) (by simp), back (.derived fact)⟩, fun fact => ⟨?_, ?_⟩,
    fun fact => ⟨into (.retired fact) (by simp), back (.retired fact)⟩,
    fun fact => ⟨into (.declared fact) (by simp), back (.declared fact)⟩, fun fact held => ?_,
    fun fact held first => ?_⟩
  · rintro ⟨held, first⟩
    have inRight := effective fact held first
    exact ⟨inRight, fun late =>
      first (duplicates.later collisionFree doubles folded other inRight late)⟩
  · rintro ⟨held, first⟩
    exact ⟨back (.recorded fact) held, fun late =>
      first (duplicates.laterRight collisionFree doubles folded other held late)⟩
  · exact folded.stemmed.keys collisionFree other.stemmed (folded.dag.held.derives fact held)
      (other.dag.held.derives fact (into (.derived fact) (by simp) held))
  · exact duplicates.resultKey collisionFree doubles folded other fact
      (effective fact held first)

end Duplicates

/-! ## One result of each attempt -/

/-- A result that is recorded for an attempt. -/
structure Log.Records (platform : Platform) (log : Log) (attempt : Attempt)
    (fact : EventResultRow) : Prop where
  held : fact ∈ log.eventResult
  work : fact.workRef = attempt.workRef
  carries : fact.occurrenceKey = some (workOccurrenceKey platform attempt)

/-- Of two results of one attempt the causally later one is contained. -/
theorem Log.Records.later {log : Log} (placed : log.WorkHeld) {attempt : Attempt}
    {first other : EventResultRow} (records : log.Records platform attempt first)
    (isFirst : ¬ Later log first) (rival : log.Records platform attempt other) :
    other = first ∨ Later log other := by
  obtain ⟨row, stored, named⟩ := placed.results first records.held
  obtain ⟨theirs, inLog, theirName⟩ := placed.results other rival.held
  have key := keyOf_of_mem stored named
  have theirKey := keyOf_of_mem inLog theirName
  rcases lt_trichotomy row.causalKey theirs.causalKey with before | same | after
  · exact .inr ⟨_, _, rival.carries, theirKey, first, records.held,
      records.work.trans rival.work.symm, records.carries, _, key, before⟩
  · rw [← same] at theirKey
    exact .inl (Table.eq_of_key rival.held records.held (keyOf_injective theirKey key))
  · exact absurd ⟨_, _, records.carries, key, other, rival.held,
      rival.work.trans records.work.symm, rival.carries, _, theirKey, after⟩ isFirst

/-- In every reachable store one result of each attempt counts, the causally first; every other
result of the attempt is contained, and no result is contained by another attempt or without a
key. -/
theorem attempts_once (collisionFree : CollisionFree platform) {calls : List Call} {store : Store}
    (run : Run (Run.when (fun _ call => ¬ call.unreduced) (Called platform readPayload)) {} calls
      store) :
    (∀ attempt fact, store.log.Records platform attempt fact →
      ∃ first, store.log.Records platform attempt first ∧
        store.projections.resultOccurrenceQuarantine.holds first.eventId = false ∧
        (∃ own theirs, store.log.keyOf fact.eventId = some own ∧
          store.log.keyOf first.eventId = some theirs ∧ theirs ≤ own) ∧
        ∀ other, store.log.Records platform attempt other → other ≠ first →
          store.projections.resultOccurrenceQuarantine.holds other.eventId = true) ∧
    (∀ attempt rival fact, store.log.Records platform attempt fact →
      store.log.Records platform rival fact → attempt = rival) ∧
    ∀ fact ∈ store.log.eventResult, fact.occurrenceKey = none →
      store.projections.resultOccurrenceQuarantine.holds fact.eventId = false := by
  have sound := (run_folded collisionFree run).dag
  refine ⟨fun attempt fact records => ?_, fun attempt rival fact records others => ?_,
    fun fact held keyless => ?_⟩
  · obtain ⟨first, held, work, carries, isFirst, below⟩ :=
      exists_first sound.held records.held records.carries
    have counted : store.log.Records platform attempt first :=
      ⟨held, work.trans records.work, carries⟩
    refine ⟨first, counted, ?_, below, fun other rival apart => ?_⟩
    · exact Bool.eq_false_iff.mpr fun contained =>
        isFirst ((sound.quarantine.exact first held).mp contained)
    · exact (sound.quarantine.exact other rival.held).mpr
        ((counted.later sound.held isFirst rival).resolve_left apart)
  · exact workOccurrenceKey_injective collisionFree
      (Option.some.inj (records.carries.symm.trans others.carries))
  · refine Bool.eq_false_iff.mpr fun contained => ?_
    obtain ⟨key, _, carries, _⟩ := (sound.quarantine.exact fact held).mp contained
    rw [keyless] at carries
    cases carries

namespace Repeated

open Overshadowed Redefined

/-- The first attempt at a work. -/
def attempt : Attempt where
  planRef := "plan"
  workRef := "work"
  causalPriorResultRef := none

def result : ResultRecorded where
  workRef := "work"
  outcome := .success
  resultRef := "result"
  summary := none
  occurrenceKey := some (workOccurrenceKey plainPlatform attempt)

theorem result_writable : (Payload.resultRecorded result).Writable plainPlatform := by
  intro log eventId unused
  exact (insertPayload_succeeds_iff unused).mpr ⟨by decide, rfl, trivial⟩

/-- The result of an event that is held whole. -/
theorem result_held {store : Store} {node : String} {event : Event}
    (folded : store.Folded plainPlatform)
    (sent : Sent node (.resultRecorded result) none event)
    (stored : storedRow event 0 true ∈ store.log.events) :
    ∃ fact, store.log.Records plainPlatform attempt fact ∧ fact.eventId = event.eventId := by
  obtain ⟨solo, ⟨_, _, payload, digested, alone⟩, states⟩ :=
    folded.factual.written (storedRow event 0 true) stored rfl
  have own : payload = .resultRecorded result :=
    payload_of_digest plainPlatform_collisionFree plainPlatform_readsDoubles
      (digested.trans (digested_of_verified sent.verified sent.carried).symm)
  subst own
  simp only [insertPayload, insertResultRecorded, bind_ok, pure_ok] at alone
  obtain ⟨table, inserted, rfl⟩ := alone
  exact ⟨_, ⟨states (.recorded _) (insertRow_mem inserted), rfl, rfl⟩, rfl⟩

/-- Of two results of the first attempt one counts. -/
theorem repeated_once : ∃ calls store first other,
    Run (Run.when (fun _ call => ¬ call.unreduced) (Called plainPlatform fun _ => none)) {} calls
      store ∧
    store.log.Records plainPlatform attempt first ∧
    store.log.Records plainPlatform attempt other ∧
    store.projections.resultOccurrenceQuarantine.holds first.eventId = false ∧
    store.projections.resultOccurrenceQuarantine.holds other.eventId = true := by
  obtain ⟨a, aSent⟩ := plain_sent (by decide : "a" ≠ "") (by decide) result_writable none
    fun scope set => by cases set
  obtain ⟨b, bSent⟩ := plain_sent (by decide : "b" ≠ "") (by decide) result_writable none
    fun scope set => by cases set
  obtain ⟨store, run, rows, _⟩ :=
    Crossed.delivered rfl rfl result_writable (by decide) aSent bSent
  have folded := run_folded plainPlatform_collisionFree run
  obtain ⟨aFact, aRecords, aNamed⟩ := result_held folded aSent ((rows _).mpr (.inl rfl))
  obtain ⟨bFact, bRecords, bNamed⟩ := result_held folded bSent ((rows _).mpr (.inr rfl))
  have apart : aFact ≠ bFact := by
    rintro rfl
    have same : storedRow a 0 true = storedRow b 0 true :=
      Table.eq_of_key ((rows _).mpr (.inl rfl)) ((rows _).mpr (.inr rfl))
        (aNamed.symm.trans bNamed)
    have nodes : a.originNode = b.originNode := congrArg (fun row => row.originNode) same
    rw [aSent.originNode, bSent.originNode] at nodes
    exact absurd nodes (by decide)
  obtain ⟨first, records, counts, _, others⟩ :=
    (attempts_once plainPlatform_collisionFree run).1 attempt aFact aRecords
  by_cases same : aFact = first
  · exact ⟨_, store, first, bFact, run, records, bRecords, counts,
      others bFact bRecords fun own => apart (same.trans own.symm)⟩
  · exact ⟨_, store, first, aFact, run, records, aRecords, counts, others aFact aRecords same⟩

end Repeated

end Kawa
