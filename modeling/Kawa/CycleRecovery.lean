import Kawa.SegmentProof
import Kawa.LinkVisibility

/-!
What a cycle finds and leaves on disk.  A file that is there is never written again: a whole one
verifies in every later cycle, and one that is cut short in none.
-/

namespace Kawa

namespace ArchiveCycle

open Result ReceivedArchive

/-! ## The loop -/

section Loop

variable {platform : Platform} {credential : NodeCredential} {opens : String → Bool} {log : Log}
  {now : Segment → String}

/-- The segment can be read and its file can be written. -/
def Exportable (platform : Platform) (credential : NodeCredential) (opens : String → Bool)
    (log : Log) (now : Segment → String) (segment : Segment) : Prop :=
  (∃ doc, archiveExport platform log credential (now segment) segment = .ok doc) ∧
    opens segment.name = true

theorem exportSegment_ok {state next : Export} {segment : Segment}
    (done : exportSegment platform credential opens log now state segment = .ok next) :
    ((Dict.get? state.disk segment.name).isSome = true ∧ next = state) ∨
      (Dict.get? state.disk segment.name = none ∧ opens segment.name = true ∧
        ∃ doc, archiveExport platform log credential (now segment) segment = .ok doc ∧
          next.disk = Dict.set state.disk segment.name (Json.dump (.obj doc))) := by
  unfold exportSegment at done
  split at done
  · rename_i there
    cases done
    exact .inl ⟨there, rfl⟩
  · rename_i absent
    rw [Option.not_isSome_iff_eq_none] at absent
    simp only [bind_ok] at done
    obtain ⟨doc, exported, done⟩ := done
    split at done
    · rename_i opened
      cases done
      exact .inr ⟨absent, opened, doc, exported, rfl⟩
    · cases done

theorem exportSegment_succeeds {state : Export} {segment : Segment}
    (ready : Dict.get? state.disk segment.name = none →
      Exportable platform credential opens log now segment) :
    ∃ next, exportSegment platform credential opens log now state segment = .ok next ∧
      ∃ text, Dict.get? next.disk segment.name = some text := by
  unfold exportSegment
  cases there : Dict.get? state.disk segment.name with
  | some text => exact ⟨state, rfl, text, there⟩
  | none =>
      obtain ⟨⟨doc, exported⟩, opened⟩ := ready there
      refine ⟨{ disk := Dict.set state.disk segment.name (Json.dump (.obj doc))
                exported := state.exported + 1 }, ?_, _, Dict.get?_set_self _ _ _⟩
      simp only [Option.isSome_none, Bool.false_eq_true, if_false, exported, opened,
        if_true]
      rfl

/-- A file that is there is never written again. -/
theorem exportSegment_keeps {state next : Export} {segment : Segment} {name text : String}
    (done : exportSegment platform credential opens log now state segment = .ok next)
    (there : Dict.get? state.disk name = some text) : Dict.get? next.disk name = some text := by
  rcases exportSegment_ok done with ⟨_, rfl⟩ | ⟨absent, _, doc, _, set⟩
  · exact there
  · rw [set, Dict.get?_set_ne]
    · exact there
    · rintro rfl
      rw [there] at absent
      cases absent

theorem exportAll_keeps {list : List Segment} {state : Export} {name text : String}
    (there : Dict.get? state.disk name = some text) :
    Dict.get? (exportAll platform credential opens log now list state).1.disk name =
      some text := by
  induction list generalizing state with
  | nil => exact there
  | cons segment rest ih =>
      unfold exportAll
      split
      · rename_i next done
        exact ih (exportSegment_keeps done there)
      · exact there

/-- A file was there before, or holds the whole document of its segment. -/
theorem exportAll_written {list : List Segment} {state : Export} {name text : String}
    (found : Dict.get? (exportAll platform credential opens log now list state).1.disk name =
      some text) :
    Dict.get? state.disk name = some text ∨ ∃ segment ∈ list, segment.name = name ∧ ∃ doc,
      archiveExport platform log credential (now segment) segment = .ok doc ∧
        text = Json.dump (.obj doc) := by
  induction list generalizing state with
  | nil => exact .inl found
  | cons segment rest ih =>
      unfold exportAll at found
      split at found
      · rename_i next done
        rcases ih found with there | ⟨other, later, same⟩
        · rcases exportSegment_ok done with ⟨_, rfl⟩ | ⟨_, _, doc, exported, set⟩
          · exact .inl there
          · by_cases own : segment.name = name
            · rw [set, own, Dict.get?_set_self] at there
              cases there
              exact .inr ⟨segment, List.mem_cons_self, own, doc, exported, rfl⟩
            · rw [set, Dict.get?_set_ne _ _ (Ne.symm own)] at there
              exact .inl there
        · exact .inr ⟨other, List.mem_cons_of_mem _ later, same⟩
      · exact .inl found

/-- A segment gets its file where all that is missing up to it can be exported. -/
theorem exportAll_reaches {before after : List Segment} {segment : Segment} {state : Export}
    (ready : ∀ other ∈ before ++ [segment], Dict.get? state.disk other.name = none →
      Exportable platform credential opens log now other) :
    ∃ text, Dict.get? (exportAll platform credential opens log now (before ++ segment :: after)
      state).1.disk segment.name = some text := by
  induction before generalizing state with
  | nil =>
      obtain ⟨next, done, text, there⟩ := exportSegment_succeeds (ready segment List.mem_cons_self)
      rw [List.nil_append, exportAll, done]
      exact ⟨text, exportAll_keeps there⟩
  | cons first before ih =>
      obtain ⟨next, done, _⟩ := exportSegment_succeeds (ready first List.mem_cons_self)
      rw [List.cons_append, exportAll, done]
      refine ih fun other member absent => ready other (List.mem_cons_of_mem _ member) ?_
      cases there : Dict.get? state.disk other.name with
      | none => rfl
      | some text =>
          rw [exportSegment_keeps done there] at absent
          cases absent

/-- Where a segment gets its file, all that was missing up to it has been exported. -/
theorem exportable_of_reached {before after : List Segment} {segment : Segment} {state : Export}
    {text : String} (fresh : segment ∉ before)
    (absent : Dict.get? state.disk segment.name = none)
    (found : Dict.get? (exportAll platform credential opens log now (before ++ segment :: after)
      state).1.disk segment.name = some text) :
    ∀ other ∈ before ++ [segment], Dict.get? state.disk other.name = none →
      Exportable platform credential opens log now other := by
  induction before generalizing state with
  | nil =>
      intro other member missing
      obtain rfl := List.mem_singleton.mp member
      rw [List.nil_append, exportAll] at found
      split at found
      · rename_i next done
        rcases exportSegment_ok done with ⟨there, _⟩ | ⟨_, opened, doc, exported, _⟩
        · rw [absent] at there
          cases there
        · exact ⟨⟨doc, exported⟩, opened⟩
      · rw [absent] at found
        cases found
  | cons first before ih =>
      obtain ⟨apart, fresh⟩ := not_or.mp (mt List.mem_cons.mpr fresh)
      rw [List.cons_append, exportAll] at found
      split at found
      · rename_i next done
        intro other member missing
        rcases exportSegment_ok done with ⟨there, rfl⟩ | ⟨_, opened, doc, exported, set⟩
        · rcases List.mem_cons.mp member with rfl | later
          · rw [missing] at there
            cases there
          · exact ih fresh absent found other later missing
        · by_cases same : other = first
          · rw [same]
            exact ⟨⟨doc, exported⟩, opened⟩
          · have later := (List.mem_cons.mp member).resolve_left same
            have unset : ∀ segment : Segment, segment ≠ first →
                Dict.get? state.disk segment.name = none →
                Dict.get? next.disk segment.name = none := by
              intro segment apart none
              rw [set, Dict.get?_set_ne _ _ fun named => apart (name_injective named)]
              exact none
            exact ih fresh (unset segment apart absent) found other later (unset other same missing)
      · rw [absent] at found
        cases found

end Loop

/-! ## Over calls and killed cycles -/

section Runs

variable {platform : Platform} {readPayload : String → Option Payload} {coercions : Coercions}
  {keys : PublicKeyRegistry} {credential : NodeCredential} {opens : String → Bool}

/-- What is on disk after some steps. -/
structure Filed (platform : Platform) (coercions : Coercions) (keys : PublicKeyRegistry)
    (past : List Label) (disk : Disk) : Prop where
  files : ∀ name text, Dict.get? disk name = some text → ∃ segment : Segment,
    segment.name = name ∧ (.torn segment ∈ past ∨ Proves platform coercions keys segment text)
  unreadable : ∀ segment : Segment, .torn segment ∈ past → ∃ text,
    Dict.get? disk segment.name = some text ∧ Json.loads platform.readFloat text = none

/-- Where a cycle reads the store, its whole rows read back. -/
def ReadsIntact (platform : Platform) (world : World) (label : Label) : Prop :=
  (∀ call, label ≠ .call call) → Intact platform world.store.log

/-- A part of a loop over a store leaves files that verify, next to those that were there. -/
theorem Filed.exportAll (doubles : Json.ReadsDoubles platform.readFloat)
    (lawful : coercions.Lawful) (attests : Attests platform credential keys) {log : Log}
    (chained : chainLinks.Chained log.events.rows) (intact : Intact platform log)
    {past : List Label} {disk : Disk} (filed : Filed platform coercions keys past disk)
    {now : Segment → String} {size exported : Nat} {list : List Segment}
    (listed : ∀ segment ∈ list, segment ∈ segments log size) :
    Filed platform coercions keys past (ArchiveCycle.exportAll platform credential opens log now
      list { disk := disk, exported := exported }).1.disk := by
  constructor
  · intro name text found
    rcases exportAll_written found with there | ⟨segment, member, named, doc, done, rfl⟩
    · exact filed.files name text there
    · have full := (mem_segments chained).mp (listed segment member)
      exact ⟨segment, named, .inr
        (export_proves chained full doubles lawful attests intact done).2⟩
  · intro segment cut
    obtain ⟨text, there, unread⟩ := filed.unreadable segment cut
    exact ⟨text, exportAll_keeps there, unread⟩

theorem Filed.untorn {past : List Label} {disk : Disk} {label : Label}
    (filed : Filed platform coercions keys past disk)
    (whole : ∀ segment : Segment, label ≠ .torn segment) :
    Filed platform coercions keys (label :: past) disk := by
  constructor
  · intro name text found
    obtain ⟨segment, named, cut | proves⟩ := filed.files name text found
    · exact ⟨segment, named, .inl (List.mem_cons_of_mem _ cut)⟩
    · exact ⟨segment, named, .inr proves⟩
  · intro segment cut
    exact filed.unreadable segment
      ((List.mem_cons.mp cut).resolve_left fun same => whole segment same.symm)

/-- A new file that holds no document. -/
theorem Filed.torn {past : List Label} {disk : Disk} {segment : Segment} {text : String}
    (filed : Filed platform coercions keys past disk)
    (absent : Dict.get? disk segment.name = none)
    (unread : Json.loads platform.readFloat text = none) :
    Filed platform coercions keys (.torn segment :: past) (Dict.set disk segment.name text) := by
  constructor
  · intro name other found
    by_cases same : name = segment.name
    · exact ⟨segment, same.symm, .inl List.mem_cons_self⟩
    · rw [Dict.get?_set_ne _ _ same] at found
      obtain ⟨source, named, cut | proves⟩ := filed.files name other found
      · exact ⟨source, named, .inl (List.mem_cons_of_mem _ cut)⟩
      · exact ⟨source, named, .inr proves⟩
  · intro other cut
    rcases List.mem_cons.mp cut with same | earlier
    · cases same
      exact ⟨_, Dict.get?_set_self _ _ _, unread⟩
    · obtain ⟨kept, there, cannot⟩ := filed.unreadable other earlier
      refine ⟨kept, ?_, cannot⟩
      rw [Dict.get?_set_ne]
      · exact there
      · intro same
        rw [same, absent] at there
        cases there

theorem step_filed (doubles : Json.ReadsDoubles platform.readFloat) (lawful : coercions.Lawful)
    (attests : Attests platform credential keys) {past : List Label} {world next : World}
    {label : Label} (chained : chainLinks.Chained world.store.log.events.rows)
    (filed : Filed platform coercions keys past world.disk)
    (reads : ReadsIntact platform world label)
    (step : Step platform readPayload credential opens world label next) :
    chainLinks.Chained next.store.log.events.rows ∧
      Filed platform coercions keys (label :: past) next.disk := by
  cases step with
  | called called =>
      exact ⟨called_chained chained called, filed.untorn fun segment same => by cases same⟩
  | killed now size done =>
      have intact := reads fun call same => by cases same
      refine ⟨chained, Filed.untorn ?_ fun segment same => by cases same⟩
      exact filed.exportAll doubles lawful attests chained intact fun segment member =>
        List.mem_of_mem_take member
  | @torn now size before after segment state doc part split reached absent exported opened cut
      short =>
      have intact := reads fun call same => by cases same
      have listed : ∀ other ∈ before, other ∈ segments world.store.log size := by
        intro other member
        rw [split]
        exact List.mem_append_left _ member
      have kept : Filed platform coercions keys past
          (ArchiveCycle.exportAll platform credential opens world.store.log now before
            { disk := world.disk, exported := 0 }).1.disk :=
        filed.exportAll doubles lawful attests chained intact listed
      rw [reached] at kept
      have full : Full world.store.log size segment := by
        refine (mem_segments chained).mp ?_
        rw [split]
        exact List.mem_append_right _ List.mem_cons_self
      have keyed := (export_proves chained full doubles lawful attests intact exported).1
      exact ⟨chained, kept.torn absent (Json.loads_cut Json.dumped doubles keyed cut short)⟩

theorem run_filed (doubles : Json.ReadsDoubles platform.readFloat) (lawful : coercions.Lawful)
    (attests : Attests platform credential keys) {labels : List Label} {world : World}
    (run : Run (Run.when (ReadsIntact platform) (Step platform readPayload credential opens)) {}
      labels world) :
    chainLinks.Chained world.store.log.events.rows ∧
      Filed platform coercions keys labels world.disk := by
  have start : chainLinks.Chained ({} : World).store.log.events.rows ∧
      Filed platform coercions keys [] ({} : World).disk := by
    refine ⟨Links.chained_nil, fun name text found => ?_, fun segment cut => ?_⟩
    · cases found
    · cases cut
  have held := run.history
    (fun past world => chainLinks.Chained world.store.log.events.rows ∧
      Filed platform coercions keys past world.disk)
    (fun past state label next held step =>
      step_filed doubles lawful attests held.1 held.2 step.1 step.2) start
  rw [List.append_nil] at held
  refine ⟨held.1, fun name text found => ?_, fun segment cut => ?_⟩
  · obtain ⟨segment, named, cut | proves⟩ := held.2.files name text found
    · exact ⟨segment, named, .inl (List.mem_reverse.mp cut)⟩
    · exact ⟨segment, named, .inr proves⟩
  · exact held.2.unreadable segment (List.mem_reverse.mpr cut)

/-- A full segment with no stub in it or before it. -/
def Due (log : Log) (size : Nat) (segment : Segment) : Prop :=
  Full log size segment ∧ ∀ row ∈ log.events, row.originNode = segment.origin →
    row.originSeq ≤ segment.toSeq → row.materialized = true

/-- The files that prove the segments of the size. -/
structure Recovered (platform : Platform) (coercions : Coercions) (keys : PublicKeyRegistry)
    (log : Log) (size : Nat) (disk : Disk) : Prop where
  archived : ∀ origin, (∀ row ∈ log.events, row.originNode = origin → row.materialized = true) →
    ∀ segment, segment.origin = origin → Full log size segment → ∃ text,
      Dict.get? disk segment.name = some text ∧ Proves platform coercions keys segment text
  /-- Whatever the other origins hold. -/
  isolated : ∀ segment, Due log size segment → ∃ text,
    Dict.get? disk segment.name = some text ∧ Proves platform coercions keys segment text

/-- Of what is not on disk, nothing that the loop meets up to a segment that is due holds a stub or
has a name that cannot be opened. -/
def Unblocked (opens : String → Bool) (log : Log) (size : Nat) (disk : Disk) : Prop :=
  ∀ before segment after, segments log size = before ++ segment :: after → segment ∉ before →
    Due log size segment → Dict.get? disk segment.name = none →
      ∀ other ∈ before ++ [segment], Dict.get? disk other.name = none →
        Whole log other ∧ opens other.name = true

theorem Due.of_origin {log : Log} {size : Nat} {segment : Segment}
    (whole : ∀ row ∈ log.events, row.originNode = segment.origin → row.materialized = true)
    (full : Full log size segment) : Due log size segment :=
  ⟨full, fun row held named _ => whole row held named⟩

theorem runCycle_disk {log : Log} {now : Segment → String} {size : Nat} {disk : Disk} :
    (runCycle platform credential opens coercions keys log now size disk).1 =
      (exportAll platform credential opens log now (segments log size)
        { disk := disk, exported := 0 }).1.disk := by
  unfold runCycle exportFullSegments
  dsimp only
  split <;> rfl

theorem recovered_iff (doubles : Json.ReadsDoubles platform.readFloat) (lawful : coercions.Lawful)
    (attests : Attests platform credential keys) {labels : List Label} {log : Log} {disk : Disk}
    (chained : chainLinks.Chained log.events.rows) (intact : Intact platform log)
    (filed : Filed platform coercions keys labels disk) {now : Segment → String} {size : Nat} :
    Recovered platform coercions keys log size
        (exportAll platform credential opens log now (segments log size)
          { disk := disk, exported := 0 }).1.disk ↔
      (∀ segment, Due log size segment → .torn segment ∉ labels) ∧
        Unblocked opens log size disk := by
  have ready : ∀ segment ∈ segments log size,
      Exportable platform credential opens log now segment ↔
        Whole log segment ∧ opens segment.name = true := fun segment listed =>
    and_congr_left' (export_succeeds_iff chained ((mem_segments chained).mp listed) intact)
  constructor
  · intro recovered
    refine ⟨fun segment due cut => ?_, fun before segment after split fresh due absent => ?_⟩
    · obtain ⟨text, there, unread⟩ := filed.unreadable segment cut
      obtain ⟨other, found, events, verified, _⟩ := recovered.isolated segment due
      rw [exportAll_keeps there] at found
      cases found
      unfold verifyArchiveFile at verified
      rw [unread] at verified
      cases verified
    · obtain ⟨text, found, _⟩ := recovered.isolated segment due
      rw [split] at found
      intro other member missing
      have listed : other ∈ segments log size := by
        rw [split]
        rcases List.mem_append.mp member with front | last
        · exact List.mem_append_left _ front
        · exact List.mem_append_right _ (List.mem_singleton.mp last ▸ List.mem_cons_self)
      exact (ready other listed).mp (exportable_of_reached fresh absent found other member missing)
  · rintro ⟨untorn, unblocked⟩
    have isolated : ∀ segment, Due log size segment → ∃ text,
        Dict.get? (exportAll platform credential opens log now (segments log size)
          { disk := disk, exported := 0 }).1.disk segment.name = some text ∧
          Proves platform coercions keys segment text := by
      intro segment due
      have listed := (mem_segments chained).mpr due.1
      obtain ⟨text, found⟩ : ∃ text, Dict.get? (exportAll platform credential opens log now
          (segments log size) { disk := disk, exported := 0 }).1.disk segment.name =
            some text := by
        cases there : Dict.get? disk segment.name with
        | some text => exact ⟨text, exportAll_keeps there⟩
        | none =>
            obtain ⟨before, after, split, fresh⟩ := List.eq_append_cons_of_mem listed
            have clear := unblocked before segment after split fresh due there
            rw [split]
            refine exportAll_reaches fun other member missing => ?_
            refine (ready other ?_).mpr (clear other member missing)
            rw [split]
            rcases List.mem_append.mp member with front | last
            · exact List.mem_append_left _ front
            · exact List.mem_append_right _ (List.mem_singleton.mp last ▸ List.mem_cons_self)
      refine ⟨text, found, ?_⟩
      have each : ∀ other ∈ segments log size, other ∈ segments log size := fun _ listed => listed
      obtain ⟨source, named, cut | proves⟩ :=
        (filed.exportAll doubles lawful attests chained intact each).files segment.name text found
      · rw [name_injective named] at cut
        exact absurd cut (untorn segment due)
      · rw [name_injective named] at proves
        exact proves
    exact ⟨fun origin whole segment named full =>
      isolated segment (.of_origin (named ▸ whole) full), isolated⟩

/-- After calls and cycles that are killed anywhere, a cycle that runs to its end leaves every
segment that is due in a file that verifies exactly where no kill has cut a file of one short and
no stub or name stops the loop ahead of one. -/
theorem cycle_recovers_iff (doubles : Json.ReadsDoubles platform.readFloat)
    (lawful : coercions.Lawful) (attests : Attests platform credential keys) {labels : List Label}
    {world : World}
    (run : Run (Run.when (ReadsIntact platform) (Step platform readPayload credential opens)) {}
      labels world)
    (intact : Intact platform world.store.log) (now : Segment → String) (size : Nat) :
    Recovered platform coercions keys world.store.log size
        (runCycle platform credential opens coercions keys world.store.log now size
          world.disk).1 ↔
      (∀ segment, Due world.store.log size segment → .torn segment ∉ labels) ∧
        Unblocked opens world.store.log size world.disk := by
  obtain ⟨chained, filed⟩ := run_filed doubles lawful attests run
  rw [runCycle_disk]
  exact recovered_iff doubles lawful attests chained intact filed

end Runs

/-! ## An archive of one event -/

namespace Killed

open Overshadowed

def credential : NodeCredential where
  nodeRef := "node"
  signingKeyRef := "key"
  signatureScheme := "ed25519"
  sign text := "pem" ++ text

def keys : PublicKeyRegistry := [("key", "pem")]

theorem attests : Attests plainPlatform credential keys := by
  intro text
  simp [resolveAndVerifyProvenance, verifyProvenance, credential, keys, plainPlatform,
    Dict.get?_cons]

/-- The steps on a disk that takes every name. -/
abbrev steps : World → Label → World → Prop :=
  Step plainPlatform (fun _ => none) credential fun _ => true

def clock (_ : Segment) : String := "noon"

def only : Segment where
  origin := "node"
  fromSeq := 1
  toSeq := 1

/-- A store with one whole event of one origin. -/
theorem delivered : ∃ (event : Event) (store : Store),
    Called plainPlatform (fun _ => none) {} (delivery "node" event) store ∧
    Intact plainPlatform store.log ∧ (∀ row ∈ store.log.events, row.materialized = true) ∧
    Full store.log 1 only ∧ ∃ after, segments store.log 1 = only :: after := by
  obtain ⟨event, sent⟩ := plain_sent (by decide : "node" ≠ "") (by decide) plainClaim_writable none
    fun scope set => by cases set
  obtain ⟨store, middle, called, holds, inserted, written, _⟩ :=
    holds_empty.arrival (by decide) sent rfl rfl plainClaim_writable
  have alone : ∀ row, row ∈ store.log.events ↔ row = storedRow event 0 true := by
    intro row
    rw [insertPayload_events written, inserted.mem_iff]
    constructor
    · intro member
      exact member.resolve_left fun old => by cases old
    · exact .inr
  have whole : ∀ row ∈ store.log.events, row.materialized = true := by
    intro row held
    rw [(alone row).mp held]
    rfl
  have full : Full store.log 1 only := by
    refine ⟨0, by decide, rfl, rfl, fun seq lower upper => ?_⟩
    refine ⟨storedRow event 0 true, (alone _).mpr rfl, sent.originNode, sent.originSeq.trans ?_⟩
    change (1 : Int) ≤ seq at lower
    change seq ≤ (1 : Int) at upper
    omega
  have chained := called_chained Links.chained_nil called
  refine ⟨event, store, called, ?_, whole, full, ?_⟩
  · intro row held stored
    obtain rfl := (alone row).mp held
    have loaded : loadPayload plainPlatform store.log event.eventId event.kind =
        .ok (.claimRecorded plainClaim) := by
      rw [sent.kind]
      exact loadPayload_insertPayload plainPlatform_readsDoubles
        (fun text set => by cases set) written
    refine ⟨event, ?_, sent.verified⟩
    unfold rebuildEvent
    rw [if_pos stored]
    refine bind_ok.mpr ⟨_, loaded, ?_⟩
    have carried := sent.carried
    cases event
    cases carried
    rfl
  · obtain ⟨before, after, split, fresh⟩ :=
      List.eq_append_cons_of_mem ((mem_segments chained).mpr full)
    have same : ∀ segment ∈ segments store.log 1, segment = only := by
      intro segment listed
      obtain ⟨k, _, starts, ends, rows⟩ := (mem_segments chained).mp listed
      obtain ⟨row, held, named, at_k⟩ := rows segment.toSeq (by omega) le_rfl
      obtain rfl := (alone row).mp held
      have seq : (segment.toSeq : Int) = 1 := at_k.symm.trans sent.originSeq
      have origin : segment.origin = "node" := named.symm.trans sent.originNode
      have top : segment.toSeq = 1 := by omega
      have bottom : segment.fromSeq = 1 := by omega
      cases segment
      cases origin
      cases top
      cases bottom
      rfl
    cases before with
    | nil => exact ⟨after, split⟩
    | cons first before =>
        have listed : first ∈ segments store.log 1 := by
          rw [split]
          exact List.mem_cons_self
        rw [same first listed] at fresh
        exact absurd List.mem_cons_self fresh

/-- A cycle that is killed as its first file is opened leaves a file that no later cycle
repairs. -/
theorem torn_for_good : ∃ (event : Event) (world : World),
    Run steps {} [.call (delivery "node" event), .torn only] world ∧
    (∀ row ∈ world.store.log.events, row.materialized = true) ∧
    ¬Recovered plainPlatform Coercions.strict keys world.store.log 1
      (runCycle plainPlatform credential (fun _ => true) Coercions.strict keys world.store.log clock
        1 world.disk).1 := by
  obtain ⟨event, store, called, intact, whole, full, after, split⟩ := delivered
  have chained := called_chained Links.chained_nil called
  have due : Due store.log 1 only := .of_origin (fun row held _ => whole row held) full
  obtain ⟨doc, exported⟩ : ∃ doc,
      archiveExport plainPlatform store.log credential (clock only) only = .ok doc :=
    (export_succeeds_iff chained full intact).mpr fun row held _ _ _ => whole row held
  have start : segments store.log 1 = [] ++ only :: after := split
  have reached : exportAll plainPlatform credential (fun _ => true) store.log clock []
      { disk := [], exported := 0 } = ({ disk := [], exported := 0 }, none) := rfl
  have short : [] ≠ Json.spell Json.dumped (.obj doc) := by
    intro empty
    have head := Json.spell_object Json.dumped doc
    rw [← empty] at head
    cases head
  have cut : steps { store := store, disk := [] } (.torn only) _ :=
    .torn start reached (Dict.get?_nil _) exported rfl List.nil_prefix short
  refine ⟨event, _, .cons (.called called) (.cons cut (.nil _)), whole, ?_⟩
  rw [runCycle_disk]
  intro recovered
  obtain ⟨text, found, events, verified, _⟩ := recovered.isolated only due
  rw [exportAll_keeps (Dict.get?_set_self _ _ _)] at found
  cases found
  cases verified

/-- A cycle that is killed before its first file is opened is made good by the next. -/
theorem killed_recovered : ∃ (event : Event) (world : World),
    Run steps {} [.call (delivery "node" event), .killed 0] world ∧
    Recovered plainPlatform Coercions.strict keys world.store.log 1
      (runCycle plainPlatform credential (fun _ => true) Coercions.strict keys world.store.log clock
        1 world.disk).1 := by
  obtain ⟨event, store, called, intact, whole, full, after, split⟩ := delivered
  have killed : steps { store := store, disk := [] } (.killed 0) { store := store, disk := [] } :=
    .killed clock 1 0
  refine ⟨event, _, .cons (.called called) (.cons killed (.nil _)), ?_⟩
  refine (cycle_recovers_iff plainPlatform_readsDoubles Coercions.strict_lawful attests
    (.cons ⟨fun other => absurd rfl (other _), .called called⟩
      (.cons ⟨fun _ => intact, killed⟩ (.nil _))) intact clock 1).mpr ⟨?_, ?_⟩
  · intro segment _ cut
    simp at cut
  · intro before segment after split _ _ _ other member _
    exact ⟨fun row held _ _ _ => whole row held, rfl⟩

end Killed

end ArchiveCycle

end Kawa
