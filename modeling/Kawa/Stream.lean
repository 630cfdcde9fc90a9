import Kawa.Emit

/-!
Reading the log back: the replay order of a rebuild, the per-origin streams that
replication serves, and the redaction of what a peer may not see.
-/

namespace Kawa

section Readers

variable (platform : Platform) (log : Log)

/-- `ORDER BY recorded_at, origin_node, origin_seq`. -/
def EventRow.replayKey (row : EventRow) : Int ×ₗ String ×ₗ Int :=
  toLex (row.recordedAt, toLex (row.originNode, row.originSeq))

def Log.replayOrder : List EventRow :=
  log.events.rows.insertionSort fun left right => left.replayKey ≤ right.replayKey

/-- The replay leaves the provenance columns out. -/
def Event.withoutProvenance (event : Event) : Event :=
  { event with signature := none, signingKeyRef := none, signatureScheme := none }

/-- Every stored event in replay order. -/
def loadEvents : Except StoreError (List Event) :=
  log.replayOrder.mapM fun row => Event.withoutProvenance <$> rebuildEvent platform log row

def Log.origins : List String :=
  (log.events.rows.map (·.originNode)).dedup.insertionSort (· ≤ ·)

def Log.headSeq (originNode : String) : Int := (log.head originNode).elim 0 (·.originSeq)

/-- `{origin_node → highest origin_seq held}`, in order of the nodes. -/
def frontier : Dict String Int := log.origins.map fun node => (node, log.headSeq node)

/-- The rows of one origin beyond `lo`, in sequence. -/
def Log.originRows (originNode : String) (lo : Int) : List EventRow :=
  (log.events.rows.filter fun row => row.originNode = originNode ∧ lo < row.originSeq).insertionSort
    fun left right => left.originSeq ≤ right.originSeq

/-- The events beyond a peer's frontier, origin by origin. -/
def readStream (after : Dict String Int) : Except StoreError (List Event) := do
  let streams ← (frontier log).mapM fun (node, top) =>
    let lo := (after.get? node).getD 0
    if top ≤ lo then .ok []
    else (log.originRows node lo).mapM (rebuildEvent platform log)
  return streams.flatten

/-- The row held at one position. -/
def Log.rowAt (originNode : String) (originSeq : Int) : Option EventRow :=
  log.events.rows.find? fun row => row.originNode = originNode ∧ row.originSeq = originSeq

/-- The held events at the given positions. -/
def readPositions (positions : Dict String (List Int)) : Except StoreError (List Event) := do
  let sorted := positions.insertionSort fun left right => left.1 ≤ right.1
  let streams ← sorted.mapM fun (node, seqs) =>
    ((seqs.insertionSort (· ≤ ·)).filterMap (log.rowAt node)).mapM (rebuildEvent platform log)
  return streams.flatten

/-- The held stubs whose scope is now requested, by origin. -/
def heldStubPositions (scopes : List String) : Dict String (List Int) :=
  let digests := scopes.map (scopeDigestOf platform)
  let wanted := log.events.rows.filter fun row =>
    !row.materialized && row.scopeDigest.any (· ∈ digests)
  (wanted.map (·.originNode)).dedup.insertionSort (· ≤ ·) |>.map fun node =>
    (node, ((wanted.filter (·.originNode = node)).map (·.originSeq)).insertionSort (· ≤ ·))

end Readers

/-- The envelope without the payload bytes and without the cleartext scope. -/
def withhold (event : Event) : Event :=
  if event.isStub then event else { event with payload := none, scopeRef := none }

/-- Version 1 ships full; version 2 ships full only inside the viewer's grants. -/
def serveBatch (events : List Event) (grants : List String) : List Event :=
  events.map fun event =>
    if event.envelopeVersion < 2 ∨ event.scopeRef.any (· ∈ grants) then event else withhold event

/-! ## Everything read comes from a row -/

open Result

variable {platform : Platform} {log : Log}

theorem mem_loadEvents {events : List Event} {event : Event}
    (loaded : loadEvents platform log = .ok events) (member : event ∈ events) :
    ∃ row ∈ log.events, ∃ rebuilt, rebuildEvent platform log row = .ok rebuilt ∧
      rebuilt.withoutProvenance = event := by
  obtain ⟨row, held, made⟩ := mem_mapM loaded member
  obtain ⟨rebuilt, built, rfl⟩ := map_ok.mp made
  exact ⟨row, (List.mem_insertionSort _).mp held, rebuilt, built, rfl⟩

theorem mem_readStream {after : Dict String Int} {events : List Event} {event : Event}
    (read : readStream platform log after = .ok events) (member : event ∈ events) :
    ∃ row ∈ log.events, rebuildEvent platform log row = .ok event := by
  simp only [readStream, bind_ok, pure_ok] at read
  obtain ⟨streams, mapped, rfl⟩ := read
  obtain ⟨stream, inStreams, inStream⟩ := List.mem_flatten.mp member
  obtain ⟨⟨node, top⟩, _, made⟩ := mem_mapM mapped inStreams
  dsimp only at made
  split at made
  · cases made
    cases inStream
  · obtain ⟨row, held, rebuilt⟩ := mem_mapM made inStream
    have filtered := (List.mem_insertionSort _).mp held
    exact ⟨row, (List.mem_filter.mp filtered).1, rebuilt⟩

theorem mem_readPositions {positions : Dict String (List Int)} {events : List Event}
    {event : Event} (read : readPositions platform log positions = .ok events)
    (member : event ∈ events) :
    ∃ row ∈ log.events, rebuildEvent platform log row = .ok event := by
  simp only [readPositions, bind_ok, pure_ok] at read
  obtain ⟨streams, mapped, rfl⟩ := read
  obtain ⟨stream, inStreams, inStream⟩ := List.mem_flatten.mp member
  obtain ⟨⟨node, seqs⟩, _, made⟩ := mem_mapM mapped inStreams
  obtain ⟨row, held, rebuilt⟩ := mem_mapM made inStream
  obtain ⟨seq, _, found⟩ := List.mem_filterMap.mp held
  exact ⟨row, List.mem_of_find?_eq_some found, rebuilt⟩

end Kawa
