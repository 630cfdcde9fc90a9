import Kawa.ForkDetection
import Kawa.Lib.Stretches
import Kawa.TrustHistory

/-!
The incarnations of an origin as the log attributes them: the events of one signing lineage
follow each other, and a lineage that comes back after another is reported.
-/

namespace Kawa

variable {platform : Platform} {readPayload : String → Option Payload}

/-- `trust.incarnation_ref(key_ref) if key_ref else None` -/
def TrustRegistry.attributed (trust : TrustRegistry) (row : EventRow) : Option String :=
  row.signingKeyRef.bind fun keyRef => if keyRef = "" then none else trust.incarnationRef keyRef

def Log.stream (log : Log) (originNode : String) : List EventRow :=
  (log.events.rows.filter (·.originNode = originNode)).insertionSort
    fun left right => left.originSeq ≤ right.originSeq

def incarnationIntervals (log : Log) (trust : TrustRegistry) (originNode : String) :
    List (Stretch (Option String)) :=
  Stretch.collapse ((log.stream originNode).map fun row => (trust.attributed row, row.originSeq))

/-- `quoted` is how `repr` writes an incarnation. -/
def checkIncarnationContiguity (quoted : Option String → String)
    (intervals : List (Stretch (Option String))) : List String :=
  (Stretch.reappearing [] intervals).map fun interval =>
    "incarnation " ++ quoted interval.label ++ " re-appears at seq " ++ toString interval.lo ++
      ".." ++ toString interval.hi ++ " — non-contiguous attribution (succession evidence)"

/-! ## What the intervals say of a log -/

/-- An event of another lineage lies between two of one. -/
structure Interleaving (log : Log) (trust : TrustRegistry) (originNode : String)
    (first between last : EventRow) : Prop where
  held : ∀ row ∈ [first, between, last], row ∈ log.events ∧ row.originNode = originNode
  ordered : first.originSeq < between.originSeq ∧ between.originSeq < last.originSeq
  same : trust.attributed first = trust.attributed last
  other : trust.attributed between ≠ trust.attributed first

section Attribution

variable {log : Log} {trust : TrustRegistry} {originNode : String}

theorem mem_stream {row : EventRow} :
    row ∈ log.stream originNode ↔ row ∈ log.events ∧ row.originNode = originNode := by
  simp [Log.stream, List.mem_insertionSort]

/-- The positions of a stream increase. -/
theorem stream_increasing (chained : chainLinks.Chained log.events.rows) :
    (log.stream originNode).Pairwise fun left right => left.originSeq < right.originSeq := by
  have sorted : (log.stream originNode).Pairwise fun left right =>
      left.originSeq ≤ right.originSeq := List.pairwise_insertionSort _ _
  have distinct : (log.stream originNode).Nodup :=
    (List.perm_insertionSort _ _).nodup_iff.mpr (log.events.rows_nodup.filter _)
  refine (sorted.and distinct).imp_of_mem ?_
  rintro left right inLeft inRight ⟨lower, differ⟩
  obtain ⟨leftHeld, leftNamed⟩ := mem_stream.mp inLeft
  obtain ⟨rightHeld, rightNamed⟩ := mem_stream.mp inRight
  refine lt_of_le_of_ne lower fun same => differ ?_
  exact chained.placed left leftHeld right rightHeld (leftNamed.trans rightNamed.symm) same

theorem points_increasing (chained : chainLinks.Chained log.events.rows) :
    ((log.stream originNode).map fun row =>
      (trust.attributed row, row.originSeq)).Pairwise fun left right => left.2 < right.2 :=
  List.pairwise_map.mpr (stream_increasing chained)

theorem mem_points {label : Option String} {position : Int} :
    (label, position) ∈ ((log.stream originNode).map fun row =>
        (trust.attributed row, row.originSeq)) ↔
      ∃ row ∈ log.events, row.originNode = originNode ∧ trust.attributed row = label ∧
        row.originSeq = position := by
  simp only [List.mem_map, mem_stream, Prod.mk.injEq, and_assoc]

/-- The attributed events lie in the intervals of their incarnations, each in one. -/
theorem mem_incarnationIntervals (chained : chainLinks.Chained log.events.rows)
    (label : Option String) (position : Int) :
    (∃ row ∈ log.events, row.originNode = originNode ∧ trust.attributed row = label ∧
        row.originSeq = position) ↔
      ∃! interval, interval ∈ incarnationIntervals log trust originNode ∧
        interval.Holds label position := by
  rw [← mem_points, Stretch.collapse_holds (points_increasing chained)]
  rfl

/-- A gap-free log: what fails is never a missing position, always another lineage. -/
theorem contiguous_iff (chained : chainLinks.Chained log.events.rows) :
    Stretch.Contiguous ((log.stream originNode).map fun row =>
        (trust.attributed row, row.originSeq)) ↔
      ¬ ∃ first between last, Interleaving log trust originNode first between last := by
  constructor
  · rintro contiguous ⟨first, between, last, held, ordered, same, other⟩
    obtain ⟨firstHeld, betweenHeld, lastHeld⟩ :
        (first ∈ log.events ∧ first.originNode = originNode) ∧
        (between ∈ log.events ∧ between.originNode = originNode) ∧
        (last ∈ log.events ∧ last.originNode = originNode) := by simpa using held
    have reached := contiguous (trust.attributed first) first.originSeq last.originSeq
      between.originSeq (mem_points.mpr ⟨first, firstHeld.1, firstHeld.2, rfl, rfl⟩)
      (mem_points.mpr ⟨last, lastHeld.1, lastHeld.2, same.symm, rfl⟩) ordered.1.le ordered.2.le
    obtain ⟨row, rowHeld, named, attributed, placed⟩ := mem_points.mp reached
    have one := chained.placed row rowHeld between betweenHeld.1
      (named.trans betweenHeld.2.symm) placed
    exact other (one ▸ attributed)
  · intro none label lower upper position heldLower heldUpper above below
    obtain ⟨first, firstHeld, firstNamed, firstLabel, rfl⟩ := mem_points.mp heldLower
    obtain ⟨last, lastHeld, lastNamed, lastLabel, rfl⟩ := mem_points.mp heldUpper
    have positive : 1 ≤ first.originSeq := chained.positive first firstHeld
    obtain ⟨between, betweenHeld, named, placed⟩ :=
      chained.below lastHeld position (by omega) below
    have betweenNamed : between.originNode = originNode := named.trans lastNamed
    have placed : between.originSeq = position := placed
    refine mem_points.mpr ⟨between, betweenHeld, betweenNamed, ?_, placed⟩
    by_contra other
    rcases above.eq_or_lt with here | lower
    · have one := chained.placed first firstHeld between betweenHeld
        (firstNamed.trans betweenNamed.symm) (here.trans placed.symm)
      exact other (one ▸ firstLabel)
    rcases below.eq_or_lt with here | upper
    · have one := chained.placed last lastHeld between betweenHeld
        (lastNamed.trans betweenNamed.symm) (here.symm.trans placed.symm)
      exact other (one ▸ lastLabel)
    refine none ⟨first, between, last, ?_, ?_, firstLabel.trans lastLabel.symm, ?_⟩
    · simp only [List.forall_mem_cons, List.not_mem_nil, false_imp_iff, implies_true, and_true]
      exact ⟨⟨firstHeld, firstNamed⟩, ⟨betweenHeld, betweenNamed⟩, ⟨lastHeld, lastNamed⟩⟩
    · rw [placed]
      exact ⟨lower, upper⟩
    · rw [firstLabel]
      exact other

theorem check_eq_nil (chained : chainLinks.Chained log.events.rows)
    (quoted : Option String → String) :
    checkIncarnationContiguity quoted (incarnationIntervals log trust originNode) = [] ↔
      ¬ ∃ first between last, Interleaving log trust originNode first between last := by
  rw [checkIncarnationContiguity, List.map_eq_nil_iff, incarnationIntervals,
    Stretch.reappearing_collapse (points_increasing chained), contiguous_iff chained]

end Attribution

/-! ## Evidence stands -/

/-- Histories in which no bound key is given another incarnation. -/
def TrustRegistry.KeepsBindings (trust : TrustRegistry) (operations : List TrustOperation) : Prop :=
  ∀ before operation rest, operations = before ++ operation :: rest →
    ¬ operation.Rebinds (trust.after before)

theorem incarnationRef_after {trust : TrustRegistry} {operations : List TrustOperation}
    (keeps : trust.KeepsBindings operations) {keyRef incarnationRef : String}
    (bound : trust.incarnationRef keyRef = some incarnationRef) :
    (trust.after operations).incarnationRef keyRef = some incarnationRef := by
  obtain ⟨entry, found, _⟩ := Option.map_eq_some_iff.mp bound
  have node : trust.nodeRef keyRef = some entry.nodeRef := by
    simp [TrustRegistry.nodeRef, found]
  have pair := binding_eq_some.mpr ⟨node, bound⟩
  clear bound node found
  induction operations generalizing trust with
  | nil => exact (binding_eq_some.mp pair).2
  | cons operation rest ih =>
      have calm : ¬ operation.Rebinds trust := keeps [] operation rest rfl
      refine @ih (operate trust operation) ?_ (binding_operate calm pair)
      intro before next others split
      exact keeps (operation :: before) next others (by rw [split]; rfl)

theorem attributed_after {trust : TrustRegistry} {operations : List TrustOperation}
    (keeps : trust.KeepsBindings operations) {old now : EventRow} (became : old.Became now)
    {incarnation : String} (known : trust.attributed old = some incarnation) :
    (trust.after operations).attributed now = some incarnation := by
  have key : now.signingKeyRef = old.signingKeyRef := by rw [became]
  unfold TrustRegistry.attributed at known ⊢
  rw [key]
  obtain ⟨keyRef, signed, found⟩ := Option.bind_eq_some_iff.mp known
  refine Option.bind_eq_some_iff.mpr ⟨keyRef, signed, ?_⟩
  split at found
  · cases found
  · rename_i nonempty
    rw [if_neg nonempty]
    exact incarnationRef_after keeps found

theorem run_keeps {store later : Store} {calls : List Call}
    (run : Run (Called platform readPayload) store calls later) :
    ∀ row ∈ store.log.events, ∃ now ∈ later.log.events, row.Became now :=
  run.invariant
    (fun state => ∀ row ∈ store.log.events, ∃ now ∈ state.log.events, row.Became now)
    (fun _ _ _ kept called row held => by
      obtain ⟨middle, inMiddle, first⟩ := kept row held
      obtain ⟨now, inNext, second⟩ := (called_grows called).kept middle inMiddle
      exact ⟨now, inNext, first.trans second⟩)
    (fun row held => ⟨row, held, .refl row⟩)

theorem run_chained {start final : Store} {calls : List Call}
    (chained : chainLinks.Chained start.log.events.rows)
    (run : Run (Called platform readPayload) start calls final) :
    chainLinks.Chained final.log.events.rows :=
  run.invariant (fun store => chainLinks.Chained store.log.events.rows)
    (fun _ _ _ chained called => called_chained chained called) chained

/-- Every incarnation among the three events is known. -/
def Interleaving.Known (trust : TrustRegistry) (first between : EventRow) : Prop :=
  (trust.attributed first).isSome ∧ (trust.attributed between).isSome

theorem Interleaving.later {store next : Store} {calls : List Call}
    (run : Run (Called platform readPayload) store calls next) {trust : TrustRegistry}
    {operations : List TrustOperation} (keeps : trust.KeepsBindings operations)
    {originNode : String} {first between last : EventRow}
    (evidence : Interleaving store.log trust originNode first between last)
    (known : Interleaving.Known trust first between) :
    ∃ first between last,
      Interleaving next.log (trust.after operations) originNode first between last := by
  obtain ⟨held, ordered, same, other⟩ := evidence
  obtain ⟨one, ofFirst⟩ := Option.isSome_iff_exists.mp known.1
  obtain ⟨two, ofBetween⟩ := Option.isSome_iff_exists.mp known.2
  have moved : ∀ row ∈ [first, between, last], ∃ now ∈ next.log.events,
      row.Became now ∧ now.originNode = originNode ∧ now.originSeq = row.originSeq := by
    intro row member
    obtain ⟨inLog, named⟩ := held row member
    obtain ⟨now, inNext, became⟩ := run_keeps run row inLog
    refine ⟨now, inNext, became, ?_, ?_⟩
    · rw [became]
      exact named
    · rw [became]
  obtain ⟨first', firstHeld, firstBecame, firstNamed, firstPlaced⟩ := moved first (by simp)
  obtain ⟨between', betweenHeld, betweenBecame, betweenNamed, betweenPlaced⟩ :=
    moved between (by simp)
  obtain ⟨last', lastHeld, lastBecame, lastNamed, lastPlaced⟩ := moved last (by simp)
  have nowFirst := attributed_after keeps firstBecame ofFirst
  have nowBetween := attributed_after keeps betweenBecame ofBetween
  have nowLast := attributed_after keeps lastBecame (same.symm.trans ofFirst)
  refine ⟨first', between', last', ?_, ?_, nowFirst.trans nowLast.symm, ?_⟩
  · simp only [List.forall_mem_cons, List.not_mem_nil, false_imp_iff, implies_true, and_true]
    exact ⟨⟨firstHeld, firstNamed⟩, ⟨betweenHeld, betweenNamed⟩, ⟨lastHeld, lastNamed⟩⟩
  · rw [firstPlaced, betweenPlaced, lastPlaced]
    exact ordered
  · rw [nowBetween, nowFirst, ← ofBetween, ← ofFirst]
    exact other

/-- In every log that calls reach, each event lies in exactly one interval, that of its
incarnation, and an interval holds nothing else; something is reported exactly when an event of
another incarnation lies between two of one; and where both are known it is reported ever after,
whatever calls follow and whatever becomes of the registry, as long as no key is bound again. -/
theorem successions_reported {start store later : Store} {calls more : List Call}
    (chained : chainLinks.Chained start.log.events.rows)
    (run : Run (Called platform readPayload) start calls store)
    (longer : Run (Called platform readPayload) store more later)
    {trust : TrustRegistry} {operations : List TrustOperation}
    (keeps : trust.KeepsBindings operations) (quoted : Option String → String)
    (originNode : String) :
    (∀ incarnation position,
      (∃ row ∈ store.log.events, row.originNode = originNode ∧
        trust.attributed row = incarnation ∧ row.originSeq = position) ↔
      ∃! interval, interval ∈ incarnationIntervals store.log trust originNode ∧
        interval.Holds incarnation position) ∧
    (checkIncarnationContiguity quoted (incarnationIntervals store.log trust originNode) = [] ↔
      ¬ ∃ first between last, Interleaving store.log trust originNode first between last) ∧
    ∀ first between last, Interleaving store.log trust originNode first between last →
      Interleaving.Known trust first between →
        checkIncarnationContiguity quoted
          (incarnationIntervals later.log (trust.after operations) originNode) ≠ [] := by
  have stored := run_chained chained run
  refine ⟨mem_incarnationIntervals stored, check_eq_nil stored quoted, ?_⟩
  intro first between last evidence known none
  exact (check_eq_nil (run_chained stored longer) quoted).mp none
    (evidence.later longer keeps known)

/-! ## A succession that went backward -/

namespace BackwardSuccession

def row (originSeq : Int) (prevHash : Option String) (hash keyRef : String) : EventRow where
  originNode := "node"
  originSeq := originSeq
  hlc := "1.0.node"
  kind := .planCreated
  subjectRef := none
  actorRef := "actor"
  policyDigest := none
  payloadDigest := "payload"
  prevHash := prevHash
  envelopeVersion := 1
  scopeDigest := none
  eventId := hash
  selfHash := hash
  scopeRef := none
  signature := some "signature"
  signingKeyRef := some keyRef
  signatureScheme := some "ed25519"
  recordedAt := 0
  materialized := true

def rows : List EventRow :=
  [row 1 none "first" "old", row 2 (some "first") "second" "new",
    row 3 (some "second") "third" "old"]

def store : Store where
  log := { events := ⟨rows, by decide⟩ }

/-- A restored node takes a fresh key, and then signs with the old one again. -/
def trust : TrustRegistry :=
  (TrustRegistry.ofLegacy []).after [.enroll "node" "old" none [],
    .succeedIncarnation "node" "inc:node:genesis" "inc:node:2" "new"]

theorem chained : chainLinks.Chained store.log.events.rows where
  placed := by decide
  positive := by decide
  linked := by
    intro held member
    simp only [store, rows, List.mem_cons, List.not_mem_nil, or_false] at member
    rcases member with rfl | rfl | rfl
    · exact .inl ⟨rfl, rfl⟩
    · exact .inr ⟨row 1 none "first" "old", by decide, rfl, rfl, rfl⟩
    · exact .inr ⟨row 2 (some "first") "second" "new", by decide, rfl, rfl, rfl⟩

theorem interleaving : Interleaving store.log trust "node" (row 1 none "first" "old")
    (row 2 (some "first") "second" "new") (row 3 (some "second") "third" "old") where
  held := by
    have named : ∀ held ∈ rows, held.originNode = "node" := by decide
    exact fun held member => ⟨member, named held member⟩
  ordered := by decide
  same := by decide
  other := by decide

def quoted (incarnation : Option String) : String :=
  incarnation.elim "None" fun text => "'" ++ text ++ "'"

/-- Revoking the old key does not take the evidence back. -/
theorem still_reported : checkIncarnationContiguity quoted (incarnationIntervals store.log
    (trust.after [.revoke "old" none]) "node") ≠ [] := by
  have keeps : trust.KeepsBindings [.revoke "old" none] := by
    intro before operation rest split
    rcases before with _ | ⟨_, _ | _⟩
    · obtain ⟨rfl, _⟩ := List.cons.inj split
      exact id
    · simp at split
    · simp at split
  exact (@successions_reported plainPlatform (fun _ => none) store store store [] [] chained
    (.nil _) (.nil _) trust _ keeps quoted "node").2.2 _ _ _ interleaving
      ⟨by decide, by decide⟩

end BackwardSuccession

end Kawa
