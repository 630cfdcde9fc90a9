import Kawa.CausalClock

/-!
A clock over any sequence of ticks and updates.  Every tick is past all that the clock has
produced or seen, but what it stamps is read back only while both numbers stay within 63 bits,
and a peer's admissible stamp may have used them up.
-/

namespace Kawa

/-! ## Runs of one clock -/

inductive ClockCall
  | tick (now : Int)
  | update (other : String) (now : Int)

/-- A reading of 64 bits, and for an update a stamp that some temporal policy admits. -/
def ClockCall.Sound : ClockCall → Prop
  | tick now => -2 ^ 63 ≤ now ∧ now < 2 ^ 64
  | update other now => (-2 ^ 63 ≤ now ∧ now < 2 ^ 64) ∧
      ∃ temporal nowMs, TemporalPolicy.admissible temporal other nowMs = none

namespace HLC

/-- `update` with the text it splits. -/
def observe (clock : HLC) (other : String) (now : Int) : HLC :=
  match parseHlc other with
  | some (phys, logical, _) => clock.update phys logical now
  | none => clock

def call (clock : HLC) : ClockCall → HLC
  | .tick now => clock.tick now
  | .update other now => clock.observe other now

def after (clock : HLC) (calls : List ClockCall) : HLC := calls.foldl call clock

/-- What one call observes and returns. -/
def texts (clock : HLC) : ClockCall → List String
  | .tick now => [(clock.tick now).stamp]
  | .update other now => [other, (clock.observe other now).stamp]

/-- Every stamp the clock has produced or observed. -/
def history (clock : HLC) : List ClockCall → List String
  | [] => []
  | first :: calls => clock.texts first ++ (clock.call first).history calls

/-- The next tick stays within the bigint range of the parser. -/
def Room (clock : HLC) (now : Int) : Prop :=
  clock.node ≠ "" ∧ now < 2 ^ 63 ∧
    (now ≤ clock.physicalMs → clock.physicalMs < 2 ^ 63 ∧ clock.logical + 1 < 2 ^ 63)

end HLC

/-- What a tick produces is parsed, and is past everything before it. -/
structure TickCloses (clock : HLC) (seen : List String) (now : Int) : Prop where
  parsed : (parseHlc (clock.tick now).stamp).isSome = true
  past : ∀ text ∈ seen, ∃ reading, readingOf text = some reading ∧
    reading < (clock.tick now).reading

def Closes (clock : HLC) (calls : List ClockCall) : Prop :=
  ∀ before now after, calls = before ++ .tick now :: after →
    TickCloses (clock.after before) (clock.history before) now

/-! ## Stamps that are read back -/

theorem parseHlc_stamp_iff (clock : HLC) :
    (parseHlc clock.stamp).isSome = true ↔
      clock.node ≠ "" ∧ clock.physicalMs < 2 ^ 63 ∧ clock.logical < 2 ^ 63 := by
  constructor
  · intro parsed
    have phys : Json.natOfDigits (Nat.toDigits 10 clock.physicalMs) = clock.physicalMs :=
      Nat.ofDigitChars_ten_toDigits
    have log : Json.natOfDigits (Nat.toDigits 10 clock.logical) = clock.logical :=
      Nat.ofDigitChars_ten_toDigits
    simp only [parseHlc, HLC.stamp, String.toList_ofList,
      splitDot_append (toDigits_clear clock.physicalMs),
      splitDot_append (toDigits_clear clock.logical), Option.bind_eq_bind, Option.bind_some,
      digitRun_toDigits, phys, log, Bool.and_self, Bool.not_true, Bool.false_eq_true,
      ↓reduceIte] at parsed
    split_ifs at parsed with unnamed wide
    · cases parsed
    · cases parsed
    · refine ⟨?_, by omega, by omega⟩
      intro empty
      rw [empty] at unnamed
      exact unnamed rfl
  · rintro ⟨named, physBound, logBound⟩
    rw [parseHlc_stamp clock named physBound logBound]
    rfl

theorem tick_parsed_iff (clock : HLC) (now : Int) :
    (parseHlc (clock.tick now).stamp).isSome = true ↔ clock.Room now := by
  rw [parseHlc_stamp_iff, HLC.tick_node]
  unfold HLC.Room HLC.tick
  refine and_congr Iff.rfl ?_
  split
  · rename_i fresh
    dsimp only
    constructor
    · rintro ⟨phys, _⟩
      exact ⟨by omega, fun late => absurd fresh (not_lt.mpr late)⟩
    · rintro ⟨bound, _⟩
      exact ⟨by omega, by omega⟩
  · rename_i stale
    dsimp only
    constructor
    · rintro ⟨phys, logical⟩
      exact ⟨by omega, fun _ => ⟨phys, logical⟩⟩
    · rintro ⟨_, fits⟩
      exact fits (not_lt.mp stale)

/-! ## Strict progress -/

/-- Everything produced or observed so far is at most the clock's reading. -/
def Reached (clock : HLC) (seen : List String) : Prop :=
  ∀ text ∈ seen, ∃ reading, readingOf text = some reading ∧ reading ≤ clock.reading

theorem Reached.mono {clock next : HLC} {seen : List String} (reached : Reached clock seen)
    (forward : clock.reading ≤ next.reading) : Reached next seen := by
  intro text member
  obtain ⟨reading, read, below⟩ := reached text member
  exact ⟨reading, read, below.trans forward⟩

theorem parsed_of_admissible {temporal : TemporalPolicy} {hlc : String} {nowMs : Int}
    (admissible : temporal.admissible hlc nowMs = none) : ∃ parts, parseHlc hlc = some parts := by
  unfold TemporalPolicy.admissible at admissible
  cases parsed : parseHlc hlc with
  | none => simp [parsed] at admissible
  | some parts => exact ⟨parts, rfl⟩

/-- One call moves the clock forward, past what it observes and returns. -/
theorem call_reached {clock : HLC} {first : ClockCall} (sound : first.Sound) :
    clock.reading ≤ (clock.call first).reading ∧
      Reached (clock.call first) (clock.texts first) := by
  cases first with
  | tick now =>
      refine ⟨(clock.reading_lt_tick now).le, fun text member => ?_⟩
      rw [List.mem_singleton.mp member]
      exact ⟨_, readingOf_stamp _, le_refl _⟩
  | update other now =>
      obtain ⟨_, temporal, nowMs, admissible⟩ := sound
      obtain ⟨⟨phys, logical, node⟩, parsed⟩ := parsed_of_admissible admissible
      have moved : clock.observe other now = clock.update phys logical now := by
        simp [HLC.observe, parsed]
      simp only [HLC.call, HLC.texts, moved]
      refine ⟨clock.reading_le_update phys logical now, fun text member => ?_⟩
      rcases List.mem_cons.mp member with rfl | returned
      · exact ⟨_, readingOf_parse parsed, (clock.lt_update phys logical now).le⟩
      · rw [List.mem_singleton.mp returned]
        exact ⟨_, readingOf_stamp _, le_refl _⟩

theorem after_forward {clock : HLC} {calls : List ClockCall}
    (sound : ∀ call ∈ calls, call.Sound) : clock.reading ≤ (clock.after calls).reading := by
  induction calls generalizing clock with
  | nil => exact le_refl _
  | cons first calls ih =>
      obtain ⟨one, later⟩ := List.forall_mem_cons.mp sound
      exact (call_reached one).1.trans (ih later)

theorem after_reached {clock : HLC} {calls : List ClockCall}
    (sound : ∀ call ∈ calls, call.Sound) : Reached (clock.after calls) (clock.history calls) := by
  induction calls generalizing clock with
  | nil => exact fun _ member => by cases member
  | cons first calls ih =>
      obtain ⟨one, later⟩ := List.forall_mem_cons.mp sound
      intro text member
      rcases List.mem_append.mp member with now | afterwards
      · exact (call_reached one).2.mono (after_forward later) text now
      · exact ih later text afterwards

/-- A tick is always past what the clock has produced and observed; it is read back exactly
where there is room for it. -/
theorem tickCloses_iff {clock : HLC} {calls : List ClockCall}
    (sound : ∀ call ∈ calls, call.Sound) (now : Int) :
    TickCloses (clock.after calls) (clock.history calls) now ↔ (clock.after calls).Room now := by
  constructor
  · exact fun closes => (tick_parsed_iff _ now).mp closes.parsed
  · intro room
    refine ⟨(tick_parsed_iff _ now).mpr room, fun text member => ?_⟩
    obtain ⟨reading, read, below⟩ := after_reached sound text member
    exact ⟨reading, read, below.trans_lt (HLC.reading_lt_tick _ now)⟩

/-- A run keeps every promise exactly where each of its ticks has room. -/
theorem closes_iff (clock : HLC) (calls : List ClockCall) (sound : ∀ call ∈ calls, call.Sound) :
    Closes clock calls ↔ ∀ before now after, calls = before ++ .tick now :: after →
      (clock.after before).Room now := by
  have sofar : ∀ before now after, calls = before ++ .tick now :: after →
      ∀ call ∈ before, call.Sound := by
    rintro before now after rfl call member
    exact sound call (List.mem_append_left _ member)
  constructor
  · exact fun closes before now after split =>
      (tickCloses_iff (sofar before now after split) now).mp (closes before now after split)
  · exact fun room before now after split =>
      (tickCloses_iff (sofar before now after split) now).mpr (room before now after split)

namespace Exhausted

/-- A peer's clock whose logical part is the greatest that parses. -/
def peer : HLC := { node := "peer", physicalMs := 1, logical := 2 ^ 63 - 1 }

def calls : List ClockCall := [.update peer.stamp 1, .tick 1]

theorem calls_sound : ∀ call ∈ calls, call.Sound := by
  have parsed : parseHlc peer.stamp = some (1, 2 ^ 63 - 1, "peer") :=
    parseHlc_stamp peer (by decide) (by decide) (by decide)
  intro call member
  rcases List.mem_cons.mp member with rfl | tick
  · exact ⟨by decide, {}, 1, by simp [TemporalPolicy.admissible, parsed]⟩
  · rw [List.mem_singleton.mp tick]
    exact ⟨by decide, by decide⟩

/-- After the peer's stamp the clock's own stamp is not read back. -/
theorem not_closed : (∀ call ∈ calls, call.Sound) ∧ ¬ Closes (HLC.start "node") calls := by
  refine ⟨calls_sound, fun closes => ?_⟩
  have parsed : parseHlc peer.stamp = some (1, 2 ^ 63 - 1, "peer") :=
    parseHlc_stamp peer (by decide) (by decide) (by decide)
  have room := (tick_parsed_iff _ 1).mp (closes [.update peer.stamp 1] 1 [] rfl).parsed
  have seen : (HLC.start "node").after [.update peer.stamp 1] =
      { node := "node", physicalMs := 1, logical := 2 ^ 63 } := by
    simp [HLC.after, HLC.call, HLC.observe, parsed, HLC.update, HLC.start]
  rw [seen] at room
  have fits := (room.2.2 (by decide)).2
  exact absurd fits (by decide)

/-- One tick of a fresh clock has room. -/
theorem first_tick_closes : Closes (HLC.start "node") [.tick 1] := by
  refine (closes_iff (HLC.start "node") [.tick 1] ?_).mpr ?_
  · intro call member
    rw [List.mem_singleton.mp member]
    exact ⟨by decide, by decide⟩
  · intro before now after split
    cases before with
    | nil =>
        cases split
        exact ⟨by decide, by decide, fun late => absurd late (by decide)⟩
    | cons first before => simp at split

end Exhausted

end Kawa
