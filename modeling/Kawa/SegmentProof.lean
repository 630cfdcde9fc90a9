import Kawa.ArchiveCycle
import Kawa.ForkDetection

/-!
What the file of a segment is.  In a chained log the segments of a cycle are the full ranges of each
origin; a range without stubs is exported, and its file loads and verifies as that range.
-/

namespace Kawa

namespace ArchiveCycle

open Result ReceivedArchive

/-! ## The names of the files -/

theorem pad8_digits (n : Nat) : '-' ∉ pad8 n := by
  intro member
  rcases List.mem_append.mp member with zero | digit
  · exact absurd (List.eq_of_mem_replicate zero) (by decide)
  · exact absurd (Json.toDigits_digit digit) (by decide)

theorem pad8_injective {left right : Nat} (same : pad8 left = pad8 right) : left = right := by
  have value : ∀ n, Json.natOfDigits (pad8 n) = n := by
    intro n
    have zeros : ∀ (k : Nat) (text : List Char),
        Json.natOfDigits (List.replicate k '0' ++ text) = Json.natOfDigits text := by
      intro k text
      induction k with
      | zero => rfl
      | succ k ih =>
          rw [List.replicate_succ, List.cons_append]
          exact ih
    rw [pad8, zeros]
    exact Nat.ofDigitChars_ten_toDigits
  rw [← value left, same, value]

/-- A text without the mark ends where the mark last stands. -/
theorem split_last {mark : Char} {front other back rest : List Char}
    (same : front ++ mark :: back = other ++ mark :: rest) (unmarked : mark ∉ back)
    (unmarkedRest : mark ∉ rest) : front = other ∧ back = rest := by
  rcases List.append_eq_append_iff.mp same with ⟨more, rfl, ends⟩ | ⟨more, rfl, ends⟩
  · cases more with
    | nil =>
        cases ends
        exact ⟨(List.append_nil _).symm, rfl⟩
    | cons c more =>
        rw [List.cons_append, List.cons.injEq] at ends
        rw [ends.2] at unmarked
        exact absurd (List.mem_append_right _ List.mem_cons_self) unmarked
  · cases more with
    | nil =>
        cases ends
        exact ⟨List.append_nil _, rfl⟩
    | cons c more =>
        rw [List.cons_append, List.cons.injEq] at ends
        rw [ends.2] at unmarkedRest
        exact absurd (List.mem_append_right _ List.mem_cons_self) unmarkedRest

/-- Two segments never share a file. -/
theorem name_injective {left right : Segment} (same : left.name = right.name) : left = right := by
  have shape : ∀ segment : Segment, segment.name.toList =
      ((segment.origin.toList ++ '-' :: pad8 segment.fromSeq) ++ '-' :: pad8 segment.toSeq) ++
        ".json".toList := by
    intro segment
    simp only [Segment.name, String.toList_ofList, List.append_assoc, List.cons_append]
  have chars := congrArg String.toList same
  rw [shape, shape, List.append_cancel_right_eq] at chars
  obtain ⟨fronts, ends⟩ := split_last chars (pad8_digits _) (pad8_digits _)
  obtain ⟨origins, starts⟩ := split_last fronts (pad8_digits _) (pad8_digits _)
  cases left
  cases right
  cases String.toList_injective origins
  cases pad8_injective starts
  cases pad8_injective ends
  rfl

/-! ## The segments of a log -/

/-- A range of the size that starts after a number of such ranges, with all its rows. -/
def Full (log : Log) (size : Nat) (segment : Segment) : Prop :=
  ∃ k, 0 < size ∧ segment.fromSeq = k * size + 1 ∧ segment.toSeq = (k + 1) * size ∧
    ∀ seq : Int, segment.fromSeq ≤ seq → seq ≤ segment.toSeq →
      ∃ row ∈ log.events, row.originNode = segment.origin ∧ row.originSeq = seq

section Chained

variable {log : Log} (chained : chainLinks.Chained log.events.rows)

include chained

theorem origin_seqs {origin : String} {n : Nat}
    (positions : ∀ k : Int, (∃ row ∈ log.events.rows, row.originNode = origin ∧
      row.originSeq = k) ↔ 1 ≤ k ∧ k ≤ n) :
    ((log.events.rows.filter (·.originNode = origin)).map (·.originSeq)).Perm
      ((List.range n).map fun i : Nat => (i : Int) + 1) := by
  rw [List.perm_ext_iff_of_nodup]
  · intro k
    rw [List.mem_map, List.mem_map]
    constructor
    · rintro ⟨row, member, rfl⟩
      obtain ⟨held, named⟩ := List.mem_filter.mp member
      obtain ⟨lower, upper⟩ :=
        (positions row.originSeq).mp ⟨row, held, of_decide_eq_true named, rfl⟩
      exact ⟨(row.originSeq - 1).toNat, List.mem_range.mpr (by omega), by omega⟩
    · rintro ⟨i, below, rfl⟩
      obtain ⟨row, held, named, at_k⟩ :=
        (positions (i + 1)).mpr (by have := List.mem_range.mp below; omega)
      exact ⟨row, List.mem_filter.mpr ⟨held, decide_eq_true named⟩, at_k⟩
  · refine List.Nodup.map_on (fun left leftHeld right rightHeld same => ?_)
      (log.events.rows_nodup.filter _)
    obtain ⟨inLeft, leftNamed⟩ := List.mem_filter.mp leftHeld
    obtain ⟨inRight, rightNamed⟩ := List.mem_filter.mp rightHeld
    exact chained.placed left inLeft right inRight
      ((of_decide_eq_true leftNamed).trans (of_decide_eq_true rightNamed).symm) same
  · exact List.nodup_range.map fun left right same => by
      have : (left : Int) + 1 = right + 1 := same
      omega

/-- No origin of a chained log is sparse. -/
theorem heads_full {row : OriginHead} (listed : row ∈ heads log) :
    ∃ n : Nat, 0 < n ∧ row.lo = 1 ∧ row.head = n ∧ row.count = n ∧
      ∀ k : Int, (∃ held ∈ log.events.rows, held.originNode = row.origin ∧
        held.originSeq = k) ↔ 1 ≤ k ∧ k ≤ n := by
  obtain ⟨origin, inOrigins, rfl⟩ := List.mem_map.mp listed
  obtain ⟨n, positions⟩ := chained.positions origin
  have perm := origin_seqs chained positions
  obtain ⟨held, inRows, named⟩ : ∃ held ∈ log.events.rows, held.originNode = origin := by
    have member := List.mem_dedup.mp ((List.mem_insertionSort _).mp inOrigins)
    obtain ⟨held, inRows, named⟩ := List.mem_map.mp member
    exact ⟨held, inRows, named⟩
  have some := (positions held.originSeq).mp ⟨held, inRows, named, rfl⟩
  have members : ∀ k : Int, k ∈ (log.events.rows.filter (·.originNode = origin)).map
      (·.originSeq) ↔ 1 ≤ k ∧ k ≤ n := by
    intro k
    rw [← positions k, List.mem_map]
    constructor
    · rintro ⟨row, member, same⟩
      obtain ⟨inLog, node⟩ := List.mem_filter.mp member
      exact ⟨row, inLog, of_decide_eq_true node, same⟩
    · rintro ⟨row, inLog, node, same⟩
      exact ⟨row, List.mem_filter.mpr ⟨inLog, decide_eq_true node⟩, same⟩
  refine ⟨n, by omega, ?_, ?_, ?_, positions⟩
  · have least := List.min?_eq_some_iff.mpr ⟨(members 1).mpr (by omega), fun k member =>
      ((members k).mp member).1⟩
    exact congrArg (Option.getD · 0) least
  · have most := List.max?_eq_some_iff.mpr ⟨(members n).mpr (by omega), fun k member =>
      ((members k).mp member).2⟩
    exact congrArg (Option.getD · 0) most
  · have length := perm.length_eq
    rw [List.length_map (f := fun i : Nat => (i : Int) + 1), List.length_range] at length
    exact congrArg Int.ofNat length

/-- What a cycle goes through are the full segments. -/
theorem mem_segments {size : Nat} {segment : Segment} :
    segment ∈ segments log size ↔ Full log size segment := by
  have listed : segment ∈ segments log size ↔ ∃ row ∈ heads log, ∃ k, k < (row.head / size).toNat ∧
      segment = { origin := row.origin, fromSeq := k * size + 1, toSeq := (k + 1) * size } := by
    unfold segments
    rw [List.mem_flatMap]
    refine exists_congr fun row => and_congr_right fun inHeads => ?_
    obtain ⟨n, _, lo, head, count, _⟩ := heads_full chained inHeads
    have dense : row.sparse = false := by
      unfold OriginHead.sparse
      rw [lo, count, head]
      simp
    unfold OriginHead.segments
    rw [dense, if_neg Bool.false_ne_true, List.mem_map]
    simp only [List.mem_range, eq_comm]
  rw [listed]
  constructor
  · rintro ⟨row, inHeads, k, below, rfl⟩
    obtain ⟨n, _, lo, head, count, positions⟩ := heads_full chained inHeads
    rw [head, ← Int.natCast_div, Int.toNat_natCast] at below
    have set : 0 < size := by
      by_contra zero
      rw [Nat.eq_zero_of_not_pos zero, Nat.div_zero] at below
      cases below
    have top : (k + 1) * size ≤ n := (Nat.le_div_iff_mul_le set).mp below
    refine ⟨k, set, rfl, rfl, fun seq lower upper => (positions seq).mpr ⟨?_, ?_⟩⟩
    · dsimp only at lower
      omega
    · dsimp only at upper
      omega
  · rintro ⟨k, set, starts, ends, rows⟩
    have last : (segment.fromSeq : Int) ≤ segment.toSeq := by
      rw [starts, ends, Nat.add_mul]
      omega
    obtain ⟨top, inLog, named, at_top⟩ := rows segment.toSeq last le_rfl
    have inOrigins : segment.origin ∈ log.origins :=
      (List.mem_insertionSort _).mpr (List.mem_dedup.mpr
        (List.mem_map.mpr ⟨top, inLog, named⟩))
    have inHeads := List.mem_map_of_mem (f := fun origin =>
      ({ origin := origin
         lo := ((log.events.rows.filter (·.originNode = origin)).map (·.originSeq)).min?.getD 0
         head := ((log.events.rows.filter (·.originNode = origin)).map (·.originSeq)).max?.getD 0
         count := ((log.events.rows.filter (·.originNode = origin)).map
          (·.originSeq)).length } : OriginHead)) inOrigins
    refine ⟨_, inHeads, k, ?_, ?_⟩
    · obtain ⟨n, _, lo, head, count, positions⟩ := heads_full chained inHeads
      rw [head, ← Int.natCast_div, Int.toNat_natCast]
      have upper := ((positions segment.toSeq).mp ⟨top, inLog, named, at_top⟩).2
      have bound : segment.toSeq ≤ n := by omega
      rw [ends] at bound
      exact (Nat.le_div_iff_mul_le set).mpr bound
    · cases segment
      cases starts
      cases ends
      rfl

end Chained

/-! ## Reading a segment -/

theorem mem_seqs {segment : Segment} {seq : Int} :
    seq ∈ segment.seqs ↔ segment.fromSeq ≤ seq ∧ seq ≤ segment.toSeq := by
  unfold Segment.seqs
  rw [List.mem_map]
  constructor
  · rintro ⟨i, below, rfl⟩
    have := List.mem_range.mp below
    omega
  · rintro ⟨lower, upper⟩
    exact ⟨(seq - segment.fromSeq).toNat, List.mem_range.mpr (by omega), by omega⟩

/-- Each number is the one before it and one. -/
theorem seqs_chain (segment : Segment) :
    segment.seqs.IsChain fun before after => after = before + 1 := by
  rw [Segment.seqs, List.isChain_map, List.isChain_iff_getElem]
  intro i below
  simp only [List.getElem_range, Nat.cast_add, Nat.cast_one]
  omega

theorem seqs_sorted (segment : Segment) : segment.seqs.insertionSort (· ≤ ·) = segment.seqs := by
  refine List.Pairwise.insertionSort_eq ?_
  rw [Segment.seqs, List.pairwise_map]
  refine List.pairwise_lt_range.imp fun less => ?_
  omega

section Reading

variable {platform : Platform} {log : Log} {segment : Segment} {size : Nat}

/-- The rows at the positions of the segment. -/
def rowsOf (log : Log) (segment : Segment) : List EventRow :=
  segment.seqs.filterMap (log.rowAt segment.origin)

theorem readPositions_segment {events : List Event} :
    readPositions platform log [(segment.origin, segment.seqs)] = .ok events ↔
      (rowsOf log segment).mapM (rebuildEvent platform log) = .ok events := by
  simp only [readPositions, List.insertionSort_cons, List.insertionSort_nil,
    List.orderedInsert_nil, List.mapM_cons, List.mapM_nil, bind_ok, pure_ok, seqs_sorted]
  constructor
  · rintro ⟨_, ⟨read, done, _, rfl, rfl⟩, rfl⟩
    rw [List.flatten_singleton]
    exact done
  · intro done
    exact ⟨_, ⟨events, done, _, rfl, rfl⟩, List.flatten_singleton⟩

theorem rowAt_of_mem (chained : chainLinks.Chained log.events.rows) {row : EventRow}
    (held : row ∈ log.events) : log.rowAt row.originNode row.originSeq = some row := by
  unfold Log.rowAt
  cases found : log.events.rows.find? fun other =>
      other.originNode = row.originNode ∧ other.originSeq = row.originSeq with
  | none => exact absurd (List.find?_eq_none.mp found row held) (by simp)
  | some other =>
      have same : other.originNode = row.originNode ∧ other.originSeq = row.originSeq := by
        simpa using List.find?_some found
      rw [chained.placed other (List.mem_of_find?_eq_some found) row held same.1 same.2]

theorem mem_rowsOf (chained : chainLinks.Chained log.events.rows) {row : EventRow} :
    row ∈ rowsOf log segment ↔ row ∈ log.events ∧ row.originNode = segment.origin ∧
      segment.fromSeq ≤ row.originSeq ∧ row.originSeq ≤ segment.toSeq := by
  unfold rowsOf
  rw [List.mem_filterMap]
  constructor
  · rintro ⟨seq, inSeqs, found⟩
    have same : row.originNode = segment.origin ∧ row.originSeq = seq := by
      simpa using List.find?_some found
    rw [same.2]
    exact ⟨rowAt_mem found, same.1, mem_seqs.mp inSeqs⟩
  · rintro ⟨held, named, range⟩
    refine ⟨row.originSeq, mem_seqs.mpr range, ?_⟩
    rw [← named]
    exact rowAt_of_mem chained held

/-- A full segment has one row at each of its positions, in their order. -/
theorem rowsOf_seqs (chained : chainLinks.Chained log.events.rows)
    (full : Full log size segment) : (rowsOf log segment).map (·.originSeq) = segment.seqs := by
  obtain ⟨_, _, _, _, rows⟩ := full
  have each : ∀ seq ∈ segment.seqs, ∃ row, log.rowAt segment.origin seq = some row ∧
      row.originSeq = seq := by
    intro seq inSeqs
    obtain ⟨lower, upper⟩ := mem_seqs.mp inSeqs
    obtain ⟨row, held, named, rfl⟩ := rows seq lower upper
    refine ⟨row, ?_, rfl⟩
    rw [← named]
    exact rowAt_of_mem chained held
  unfold rowsOf
  generalize segment.seqs = seqs at each
  induction seqs with
  | nil => rfl
  | cons seq seqs ih =>
      obtain ⟨row, found, same⟩ := each seq List.mem_cons_self
      rw [List.filterMap_cons_some found, List.map_cons, same,
        ih fun other later => each other (List.mem_cons_of_mem _ later)]

theorem isStub_rebuilt {row : EventRow} {event : Event}
    (rebuilt : rebuildEvent platform log row = .ok event) : event.isStub = !row.materialized := by
  unfold rebuildEvent at rebuilt
  split at rebuilt
  · rename_i whole
    simp only [bind_ok, pure_ok] at rebuilt
    obtain ⟨payload, _, rfl⟩ := rebuilt
    rw [whole]
    rfl
  · rename_i stub
    cases rebuilt
    rw [Bool.not_eq_true] at stub
    rw [stub]
    rfl

theorem seqs_rebuilt {rows : List EventRow} {events : List Event}
    (read : rows.mapM (rebuildEvent platform log) = .ok events) :
    events.map (·.originSeq) = rows.map (·.originSeq) := by
  rw [eq_comm, ← List.forall₂_eq_eq_eq, List.forall₂_map_left_iff, List.forall₂_map_right_iff]
  refine (forall₂_of_mapM read).imp fun row event rebuilt => ?_
  rw [rebuildEvent_envelope rebuilt]

/-- Events that are read from a full segment follow each other. -/
theorem contiguous_rebuilt (chained : chainLinks.Chained log.events.rows)
    (full : Full log size segment) {events : List Event}
    (read : (rowsOf log segment).mapM (rebuildEvent platform log) = .ok events) :
    contiguous events = true := by
  have rows : (rowsOf log segment).IsChain fun before after =>
      after.originSeq = before.originSeq + 1 := by
    have seqs := seqs_chain segment
    rw [← rowsOf_seqs chained full, List.isChain_map] at seqs
    exact seqs
  have held : ∀ row ∈ rowsOf log segment, row ∈ log.events ∧ row.originNode = segment.origin :=
    fun row member => ⟨((mem_rowsOf chained).mp member).1, ((mem_rowsOf chained).mp member).2.1⟩
  refine contiguous_of_chain ?_
  have rebuilt := forall₂_of_mapM read
  clear read
  generalize rowsOf log segment = list at rows held rebuilt
  induction rebuilt with
  | nil => exact .nil
  | @cons row event list events head tail ih =>
      cases tail with
      | nil => exact .singleton _
      | @cons second next list events headNext tail =>
          obtain ⟨step, later⟩ := List.isChain_cons_cons.mp rows
          refine .cons_cons ?_ (ih later fun row member =>
            held row (List.mem_cons_of_mem _ member))
          obtain ⟨inLog, named⟩ := held row List.mem_cons_self
          obtain ⟨inNext, namedNext⟩ := held second (List.mem_cons_of_mem _ List.mem_cons_self)
          have own := rebuildEvent_envelope head
          have theirs := rebuildEvent_envelope headNext
          have prev := chained_succ chained inLog inNext (named.trans namedNext.symm) step
          rw [theirs, own]
          exact ⟨step, prev, namedNext.trans named.symm⟩

end Reading

/-! ## The file of a segment -/

/-- The file verifies, and its events are those of the segment. -/
def Proves (platform : Platform) (coercions : Coercions) (keys : PublicKeyRegistry)
    (segment : Segment) (text : String) : Prop :=
  ∃ events, verifyArchiveFile platform coercions keys text = .ok events ∧
    events.map (·.originSeq) = segment.seqs ∧ ∀ event ∈ events, event.originNode = segment.origin

/-- Every whole row reads back as an event that verifies. -/
def Intact (platform : Platform) (log : Log) : Prop :=
  ∀ row ∈ log.events, row.materialized = true →
    ∃ event, rebuildEvent platform log row = .ok event ∧ event.verify platform = true

/-- What the credential signs resolves under the registered key. -/
def Attests (platform : Platform) (credential : NodeCredential) (keys : PublicKeyRegistry) : Prop :=
  ∀ text, resolveAndVerifyProvenance platform text (credential.sign text)
    credential.signingKeyRef credential.signatureScheme keys = true

section Exported

variable {platform : Platform} {coercions : Coercions} {keys : PublicKeyRegistry}
  {credential : NodeCredential} {log : Log} {segment : Segment} {size : Nat}

theorem taken_wireJson (doubles : Json.ReadsDoubles platform.readFloat) (lawful : coercions.Lawful)
    {event : Event} (verified : event.verify platform = true) (whole : event.isStub = false) :
    PullDecoding.fromWire platform coercions (wireJson event) = .ok event := by
  have received := receive_toWire doubles lawful verified false
  rw [Event.shipped, whole, Bool.or_self, if_neg Bool.false_ne_true] at received
  obtain ⟨payload, carried⟩ : ∃ payload, event.payload = some payload := by
    unfold Event.isStub at whole
    cases held : event.payload with
    | none =>
        rw [held] at whole
        cases whole
    | some payload => exact ⟨payload, rfl⟩
  have text : (toWire event false).doc.payloadCanonical =
      some (Json.canonicalJson payload.modelDump) := by
    unfold toWire
    rw [carried]
    rfl
  have taken : PullDecoding.fromWire platform coercions
      (.obj [("envelope", .obj (toWire event false).doc.envelope),
        ("payload_canonical", .str (Json.canonicalJson payload.modelDump))]) = .ok event :=
    taken_of_received (by rw [← text]; exact received)
  unfold wireJson
  rw [text]
  exact taken

theorem wireJson_keyed (event : Event) : (wireJson event).WellKeyed := by
  have optional : ∀ value, (optionalText value).WellKeyed := fun value => by
    cases value <;> trivial
  have keys : ((toWire event false).doc.envelope.map (·.1)).Nodup := by
    change ((toWire event false).envelope.wire.map (·.1)).Nodup
    simp only [Envelope.wire, List.map_cons, List.map_nil]
    decide
  have members : Json.WellKeyedMembers (toWire event false).doc.envelope := by
    change Json.WellKeyedMembers (toWire event false).envelope.wire
    simp only [Envelope.wire, Json.WellKeyedMembers, Json.WellKeyed, optional, and_self]
  simp only [wireJson, Json.WellKeyed, Json.WellKeyedMembers, keys, members, optional, and_self,
    List.map_cons, List.map_nil]
  decide

theorem archiveDoc_keyed {commitment : Commitment} {events : List Event} :
    (Json.obj (archiveDoc platform credential commitment.json events)).WellKeyed := by
  have optional : ∀ value, (optionalText value).WellKeyed := fun value => by
    cases value <;> trivial
  have items : Json.WellKeyedItems (events.map wireJson) := by
    induction events with
    | nil => trivial
    | cons event events ih => exact ⟨wireJson_keyed event, ih⟩
  simp only [archiveDoc, Commitment.json, Json.WellKeyed, Json.WellKeyedMembers, items, optional,
    and_self, List.map_cons, List.map_nil]
  decide

/-- A document of an archiver over events that follow each other is accepted. -/
theorem archiveDoc_accepted (doubles : Json.ReadsDoubles platform.readFloat)
    (lawful : coercions.Lawful) (attests : Attests platform credential keys) {events : List Event}
    (verified : ∀ event ∈ events, event.verify platform = true)
    (whole : ∀ event ∈ events, event.isStub = false) (follows : contiguous events = true)
    {first last : Event} (head : events.head? = some first) (final : events.getLast? = some last)
    (attestedAt : String) :
    ReceivedArchive.verifyArchiveDoc platform coercions keys
      (.obj (archiveDoc platform credential
        (commitmentOf platform events first last attestedAt).json events)) = .ok events := by
  have mapped : (events.map wireJson).mapM (PullDecoding.fromWire platform coercions) =
      .ok events := by
    clear head final follows
    induction events with
    | nil => rfl
    | cons event events ih =>
        have taken := taken_wireJson doubles lawful (verified event List.mem_cons_self)
          (whole event List.mem_cons_self)
        have rest := ih (fun other later => verified other (List.mem_cons_of_mem _ later))
          fun other later => whole other (List.mem_cons_of_mem _ later)
        simp only [List.map_cons, List.mapM_cons, taken, rest, bind, Except.bind, pure, Except.pure]
  have noStub : events.any (·.isStub) = false := by
    rw [List.any_eq_false]
    intro event member
    rw [whole event member]
    exact Bool.false_ne_true
  have members : ∀ fields key, PullDecoding.held (.obj fields) key = Dict.get? fields key :=
    fun _ _ => rfl
  have eventSet : PullDecoding.held (commitmentOf platform events first last attestedAt).json
      "event_set_digest" = some (.str (digest platform (textList (events.map (·.eventId))))) := by
    simp [Commitment.json, commitmentOf, members, Dict.get?_cons]
  have ends : boundary coercions (commitmentOf platform events first last attestedAt).json
      first last = true := by
    simp [boundary, Commitment.json, commitmentOf, members, Dict.get?_cons, equalsText_iff,
      equalsOptionalText_iff, equalsInt]
  exact accepted_of_elements mapped noStub (attests _) eventSet head final follows ends

/-- No row of the segment is a stub. -/
def Whole (log : Log) (segment : Segment) : Prop :=
  ∀ row ∈ log.events, row.originNode = segment.origin → segment.fromSeq ≤ row.originSeq →
    row.originSeq ≤ segment.toSeq → row.materialized = true

theorem archiveExport_ok {attestedAt : String} {doc : List (String × Json)} :
    archiveExport platform log credential attestedAt segment = .ok doc ↔
      ∃ events first last, (rowsOf log segment).mapM (rebuildEvent platform log) = .ok events ∧
        events.length = segment.seqs.length ∧ events.any (·.isStub) = false ∧
        events.head? = some first ∧ events.getLast? = some last ∧
        doc = archiveDoc platform credential
          (commitmentOf platform events first last attestedAt).json events := by
  simp only [archiveExport, bind_ok, mapError_ok, readPositions_segment]
  constructor
  · rintro ⟨events, read, done⟩
    split at done
    · cases done
    · rename_i passed
      rw [not_or, not_not, Bool.not_eq_true] at passed
      split at done
      · rename_i first last head final
        cases done
        exact ⟨events, first, last, read, passed.1, passed.2, head, final, rfl⟩
      · cases done
  · rintro ⟨events, first, last, read, length, noStub, head, final, rfl⟩
    refine ⟨events, read, ?_⟩
    rw [if_neg (by rw [not_or, not_not, Bool.not_eq_true]; exact ⟨length, noStub⟩)]
    simp only [head, final]
    rfl

theorem seqs_nonempty (full : Full log size segment) : segment.seqs ≠ [] := by
  obtain ⟨k, set, starts, ends, _⟩ := full
  have some : (segment.fromSeq : Int) ∈ segment.seqs := by
    rw [mem_seqs, starts, ends, Nat.add_mul]
    omega
  exact List.ne_nil_of_mem some

variable (chained : chainLinks.Chained log.events.rows) (full : Full log size segment)

include chained full

/-- A segment is exported where none of its rows is a stub. -/
theorem export_succeeds_iff (intact : Intact platform log) {attestedAt : String} :
    (∃ doc, archiveExport platform log credential attestedAt segment = .ok doc) ↔
      Whole log segment := by
  simp only [archiveExport_ok]
  constructor
  · rintro ⟨_, events, _, _, read, _, noStub, _⟩ row held named lower upper
    obtain ⟨event, member, rebuilt⟩ :=
      mapM_mem read ((mem_rowsOf chained).mpr ⟨held, named, lower, upper⟩)
    have bytes := List.any_eq_false.mp noStub event member
    rw [isStub_rebuilt rebuilt, Bool.not_eq_true, Bool.not_eq_false'] at bytes
    exact bytes
  · intro whole
    obtain ⟨events, read⟩ : ∃ events,
        (rowsOf log segment).mapM (rebuildEvent platform log) = .ok events := by
      refine mapM_succeeds fun row member => ?_
      obtain ⟨held, named, lower, upper⟩ := (mem_rowsOf chained).mp member
      obtain ⟨event, rebuilt, _⟩ := intact row held (whole row held named lower upper)
      exact ⟨event, rebuilt⟩
    have length : events.length = segment.seqs.length := by
      rw [mapM_length read, ← rowsOf_seqs chained full, List.length_map]
    have some : events ≠ [] := by
      rintro rfl
      exact seqs_nonempty full (List.length_eq_zero_iff.mp length.symm)
    refine ⟨_, events, events.head some, events.getLast some, read, length, ?_,
      List.head?_eq_some_head some, List.getLast?_eq_some_getLast some, rfl⟩
    rw [List.any_eq_false]
    intro event member
    obtain ⟨row, inRows, rebuilt⟩ := mem_mapM read member
    obtain ⟨held, named, lower, upper⟩ := (mem_rowsOf chained).mp inRows
    rw [isStub_rebuilt rebuilt, whole row held named lower upper]
    decide

/-- What is exported loads, verifies and holds the segment. -/
theorem export_proves (doubles : Json.ReadsDoubles platform.readFloat) (lawful : coercions.Lawful)
    (attests : Attests platform credential keys) (intact : Intact platform log)
    {attestedAt : String} {doc : List (String × Json)}
    (exported : archiveExport platform log credential attestedAt segment = .ok doc) :
    (Json.obj doc).WellKeyed ∧
      Proves platform coercions keys segment (Json.dump (.obj doc)) := by
  have whole := (export_succeeds_iff chained full intact).mp ⟨doc, exported⟩
  obtain ⟨events, first, last, read, _, noStub, head, final, rfl⟩ := archiveExport_ok.mp exported
  have sources : ∀ event ∈ events, ∃ row ∈ rowsOf log segment,
      rebuildEvent platform log row = .ok event := fun event member => mem_mapM read member
  have verified : ∀ event ∈ events, event.verify platform = true := by
    intro event member
    obtain ⟨row, inRows, rebuilt⟩ := sources event member
    obtain ⟨held, named, lower, upper⟩ := (mem_rowsOf chained).mp inRows
    obtain ⟨other, again, passes⟩ := intact row held (whole row held named lower upper)
    rw [rebuilt] at again
    cases again
    exact passes
  have carried : ∀ event ∈ events, event.isStub = false := by
    intro event member
    rw [← Bool.not_eq_true]
    exact List.any_eq_false.mp noStub event member
  have accepted := archiveDoc_accepted doubles lawful attests verified carried
    (contiguous_rebuilt chained full read) head final attestedAt
  refine ⟨archiveDoc_keyed, events, ?_,
    (seqs_rebuilt read).trans (rowsOf_seqs chained full), ?_⟩
  · unfold verifyArchiveFile
    rw [Json.dump, Json.loads_spell Json.dumped doubles archiveDoc_keyed]
    exact mapError_ok.mpr accepted
  · intro event member
    obtain ⟨row, inRows, rebuilt⟩ := sources event member
    rw [rebuildEvent_envelope rebuilt]
    exact ((mem_rowsOf chained).mp inRows).2.1

end Exported

end ArchiveCycle

end Kawa
