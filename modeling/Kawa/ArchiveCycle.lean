import Kawa.Lib.JsonDump
import Kawa.ArchiveSound

/-!
The archive cycle: every full segment of every origin that is not on disk yet is exported, and
every file on disk is verified.  A cycle may be killed between two writes or inside one.
-/

namespace Kawa

namespace ArchiveCycle

/-! ## One segment -/

/-- One origin range. -/
structure Segment where
  origin : String
  fromSeq : Nat
  toSeq : Nat
deriving DecidableEq

/-- `:08d` -/
def pad8 (n : Nat) : List Char :=
  List.replicate (8 - (Nat.toDigits 10 n).length) '0' ++ Nat.toDigits 10 n

/-- The name of the file, in the directory of the archive. -/
def Segment.name (segment : Segment) : String :=
  String.ofList (segment.origin.toList ++ '-' :: (pad8 segment.fromSeq ++ '-' ::
    (pad8 segment.toSeq ++ ".json".toList)))

/-- `range(from_seq, to_seq + 1)` -/
def Segment.seqs (segment : Segment) : List Int :=
  (List.range (segment.toSeq + 1 - segment.fromSeq)).map fun i : Nat =>
    (segment.fromSeq : Int) + (i : Int)

inductive ExportError
  | notMaterialized | empty | unwritable | store (error : StoreError)
deriving DecidableEq

def archivePolicy : String := "chain+envelope+bytes-v1"

/-- `_commitment` -/
def commitmentOf (platform : Platform) (events : List Event) (first last : Event)
    (attestedAt : String) : Commitment where
  originNode := first.originNode
  fromSeq := first.originSeq
  fromHash := first.prevHash
  toSeq := last.originSeq
  toHash := last.selfHash
  eventSetDigest := digest platform (textList (events.map (·.eventId)))
  policy := archivePolicy
  attestedAt := attestedAt

def wireJson (event : Event) : Json :=
  .obj [("envelope", .obj (toWire event false).doc.envelope),
    ("payload_canonical", optionalText (toWire event false).doc.payloadCanonical)]

/-- What the file of a segment holds. -/
def archiveDoc (platform : Platform) (credential : NodeCredential) (commitment : Json)
    (events : List Event) : List (String × Json) :=
  [("commitment", commitment),
    ("commitment_digest", .str (digest platform commitment)),
    ("signature", .str (credential.sign (digest platform commitment))),
    ("signing_key_ref", .str credential.signingKeyRef),
    ("signature_scheme", .str credential.signatureScheme),
    ("events", .arr (events.map wireJson))]

/-- `archive_export`, up to the write. -/
def archiveExport (platform : Platform) (log : Log) (credential : NodeCredential)
    (attestedAt : String) (segment : Segment) : Except ExportError (List (String × Json)) := do
  let events ← (readPositions platform log [(segment.origin, segment.seqs)]).mapError .store
  if events.length ≠ segment.seqs.length ∨ events.any (·.isStub) then
    throw .notMaterialized
  match events.head?, events.getLast? with
  | some first, some last =>
      return archiveDoc platform credential
        (commitmentOf platform events first last attestedAt).json events
  | _, _ => throw .empty

/-! ## The export of all segments -/

/-- The files of the archive. -/
abbrev Disk := Dict String String

structure Export where
  disk : Disk
  exported : Nat

/-- The row of an origin in `GROUP BY origin_node`. -/
structure OriginHead where
  origin : String
  lo : Int
  head : Int
  count : Int

def heads (log : Log) : List OriginHead :=
  log.origins.map fun origin =>
    let seqs := (log.events.rows.filter (·.originNode = origin)).map (·.originSeq)
    { origin := origin
      lo := seqs.min?.getD 0
      head := seqs.max?.getD 0
      count := seqs.length }

/-- A sparsely held origin is skipped. -/
def OriginHead.sparse (row : OriginHead) : Bool := row.lo ≠ 1 ∨ row.count ≠ row.head

def OriginHead.segments (size : Nat) (row : OriginHead) : List Segment :=
  if row.sparse then []
  else (List.range (row.head / size).toNat).map fun k =>
    { origin := row.origin, fromSeq := k * size + 1, toSeq := (k + 1) * size }

/-- All that a cycle goes through, in its order. -/
def segments (log : Log) (size : Nat) : List Segment :=
  (heads log).flatMap (OriginHead.segments size)

def lag (log : Log) (size : Nat) : Dict String Int :=
  (heads log).map fun row =>
    (row.origin, if row.sparse then -1 else row.head - row.head / size * size)

section Cycle

variable (platform : Platform) (credential : NodeCredential) (opens : String → Bool)

/-- `opens` is whether the file system lets a name be written. -/
def exportSegment (log : Log) (now : Segment → String) (state : Export) (segment : Segment) :
    Except ExportError Export := do
  if (Dict.get? state.disk segment.name).isSome then return state
  let doc ← archiveExport platform log credential (now segment) segment
  if opens segment.name then
    return {
      disk := Dict.set state.disk segment.name (Json.dump (.obj doc))
      exported := state.exported + 1 }
  else throw .unwritable

/-- An error ends the loop; what has been written stays. -/
def exportAll (log : Log) (now : Segment → String) :
    List Segment → Export → Export × Option ExportError
  | [], state => (state, none)
  | segment :: rest, state =>
      match exportSegment platform credential opens log now state segment with
      | .ok next => exportAll log now rest next
      | .error error => (state, some error)

def exportFullSegments (log : Log) (now : Segment → String) (size : Nat) (disk : Disk) :
    Export × Option ExportError :=
  exportAll platform credential opens log now (segments log size) { disk := disk, exported := 0 }

/-! ## The proof of all files -/

inductive FileError
  | unreadable | refused (refusal : ReceivedArchive.Refusal)
deriving DecidableEq

variable (coercions : Coercions) (keys : PublicKeyRegistry)

def verifyArchiveFile (text : String) : Except FileError (List Event) :=
  match Json.loads platform.readFloat text with
  | none => .error .unreadable
  | some doc =>
      (ReceivedArchive.verifyArchiveDoc platform coercions keys doc).mapError .refused

/-- The number of files, those that fail and the digest over the digests. -/
def proveAll (disk : Disk) : Nat × List String × String :=
  let files := (disk.filter (·.1.endsWith ".json")).insertionSort fun left right =>
    left.1 ≤ right.1
  let failures := files.filter fun file =>
    (verifyArchiveFile platform coercions keys file.2).toOption.isNone
  (files.length, failures.map (·.1),
    "sha256:" ++ platform.sha256 ("\n".intercalate (files.map fun file => platform.sha256 file.2)))

structure CycleStatus where
  ok : Bool
  segments : Nat
  exportedThisRun : Nat
  failed : Nat
  lag : Dict String Int

/-- The files after a cycle that is not killed, and the status unless it raises.  The observation
that it then records is an emit. -/
def runCycle (log : Log) (now : Segment → String) (size : Nat) (disk : Disk) :
    Disk × Except ExportError CycleStatus :=
  let (state, raised) := exportFullSegments platform credential opens log now size disk
  match raised with
  | some error => (state.disk, .error error)
  | none =>
      let (n, failures, _) := proveAll platform coercions keys state.disk
      (state.disk, .ok {
        ok := failures.isEmpty
        segments := n
        exportedThisRun := state.exported
        failed := failures.length
        lag := lag log size })

end Cycle

/-! ## Calls and killed cycles -/

structure World where
  store : Store := {}
  disk : Disk := []

inductive Label
  | call (call : Call)
  | killed (done : Nat)
  | torn (segment : Segment)

section Step

variable (platform : Platform) (readPayload : String → Option Payload)
  (credential : NodeCredential) (opens : String → Bool)

/-- What may happen to a store and to its archive. -/
inductive Step : World → Label → World → Prop
  | called {world : World} {call : Call} {next : Store} :
      Called platform readPayload world.store call next →
      Step world (.call call) { world with store := next }
  /-- A cycle ends between two writes, or for an error, or at its end. -/
  | killed {world : World} (now : Segment → String) (size done : Nat) :
      Step world (.killed done) { world with
        disk := (exportAll platform credential opens world.store.log now
          ((segments world.store.log size).take done)
          { disk := world.disk, exported := 0 }).1.disk }
  /-- A cycle ends inside a write: the file has been opened, and holds less than the document. -/
  | torn {world : World} {now : Segment → String} {size : Nat} {before after : List Segment}
      {segment : Segment} {state : Export} {doc : List (String × Json)} {part : List Char} :
      segments world.store.log size = before ++ segment :: after →
      exportAll platform credential opens world.store.log now before
        { disk := world.disk, exported := 0 } = (state, none) →
      Dict.get? state.disk segment.name = none →
      archiveExport platform world.store.log credential (now segment) segment = .ok doc →
      opens segment.name = true →
      part <+: Json.spell Json.dumped (.obj doc) → part ≠ Json.spell Json.dumped (.obj doc) →
      Step world (.torn segment)
        { world with disk := Dict.set state.disk segment.name (String.ofList part) }

end Step

end ArchiveCycle

end Kawa
