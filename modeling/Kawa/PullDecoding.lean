import Kawa.WireRoundTrip
import Kawa.Http

/-!
The decode loop of a pull on arbitrary JSON: which elements become an event or a rejection, and
which raise past the loop.
-/

namespace Kawa

namespace PullDecoding

open Result

/-! ## The loop -/

/-- What an element raises. -/
inductive WireError
  /-- `WireVerificationError`, `KeyError` or another `ValueError`: what the loop catches. -/
  | invalid
  | typeError
  | attributeError
  | overflowError
deriving DecidableEq

/-- The conversions of the language, on what `json.loads` gives. -/
structure Builtins where
  str : Json → String
  /-- `int(text)`; `none` where it raises. -/
  intOfText : String → Option Int
  /-- `int(number)`; `none` where the number is infinite. -/
  intOfFloat : Json.Double → Option Int
  truth : Json.Double → Bool

def orRaise {α : Type} (error : WireError) (held : Option α) : Except WireError α :=
  held.elim (.error error) .ok

def asDict : Json → Option (Dict String Json)
  | .obj members => some members
  | _ => none

/-- `int(value or 0)` -/
def Builtins.intOr0 (builtins : Builtins) : Json → Except WireError Int
  | .null => .ok 0
  | .bool value => .ok (if value then 1 else 0)
  | .int value => .ok value
  | .float value =>
      if builtins.truth value then orRaise .overflowError (builtins.intOfFloat value) else .ok 0
  | .str text => if text = "" then .ok 0 else orRaise .invalid (builtins.intOfText text)
  | .arr items => if items.isEmpty then .ok 0 else .error .typeError
  | .obj members => if members.isEmpty then .ok 0 else .error .typeError

section Decoding

variable (platform : Platform) (coercions : Coercions) (builtins : Builtins)

/-- The downgrade guard: a version 1 envelope with a scope. -/
def scopedV1 (envelope : Dict String Json) : Bool :=
  let doc : WireDoc := { envelope := envelope, payloadCanonical := none }
  equalsInt coercions 1 doc.version && !(isNull doc.scopeDigest && isNull doc.scopeRef)

/-- `from_wire` on an element as it came. -/
def fromWire (obj : Json) : Except WireError Event := do
  let members ← orRaise .typeError (asDict obj)
  let envelope ← orRaise .invalid (Dict.get? members "envelope")
  let text ← orRaise .invalid (Dict.get? members "payload_canonical")
  let envelope ← orRaise .attributeError (asDict envelope)
  if scopedV1 coercions envelope then .error .invalid
  else
    let received (text : Option String) : Except WireError Event :=
      let doc : WireDoc := { envelope := envelope, payloadCanonical := text }
      orRaise .invalid (doc.receive platform coercions)
    match text with
    | .null => received none
    | .str text => received (some text)
    | _ => .error .attributeError -- no `encode`

/-- `obj.get("envelope", {})` of a dictionary, which the handler reads next. -/
def handledEnvelope (obj : Json) : Except WireError (Dict String Json) :=
  ((asDict obj).bind (Dict.get? · "envelope")).elim (.ok []) fun envelope =>
    orRaise .attributeError (asDict envelope)

/-- The body of the handler. -/
def wireRejection (obj : Json) : Except WireError Rejection := do
  let envelope ← handledEnvelope obj
  let text (key : String) := builtins.str ((Dict.get? envelope key).getD (.str "?"))
  let originSeq ← builtins.intOr0 ((Dict.get? envelope "origin_seq").getD (.int 0))
  return {
    eventId := text "event_id"
    originNode := text "origin_node"
    originSeq := originSeq
    reason := "wire_invalid" }

/-- `batch` and `wire_rejected` at the end of the loop. -/
def decodeLoop : List Json → Except WireError (List Event × List Rejection)
  | [] => .ok ([], [])
  | obj :: objs =>
      match fromWire platform coercions obj with
      | .ok event => (decodeLoop objs).map fun done => (event :: done.1, done.2)
      | .error .invalid => do
          let rejection ← wireRejection builtins obj
          let done ← decodeLoop objs
          return (done.1, rejection :: done.2)
      | .error error => .error error

inductive PullError
  | wire (error : WireError)
  | store (error : StoreError)

/-- `pull_http` from the decoded answer on. -/
def pullEvents (receiver : Receiver) (dest : Store) (clock : Option HLC) (scopes : List String)
    (objs : List Json) : Except PullError AdmitState := do
  let decoded ← (decodeLoop platform coercions builtins objs).mapError .wire
  let state ← (admitBatch platform { receiver with requestedScopes := some scopes } dest clock
    decoded.1).mapError .store
  return { state with rejected := decoded.2 ++ state.rejected }

/-! ## Total decoding -/

def accepted (obj : Json) : Option Event := (fromWire platform coercions obj).toOption

/-- An element becomes the event that it is, or one rejection. -/
inductive Decoded (obj : Json) : Event ⊕ Rejection → Prop
  | event (event : Event) : accepted platform coercions obj = some event →
      Decoded obj (.inl event)
  | rejection (rejection : Rejection) : accepted platform coercions obj = none →
      rejection.reason = "wire_invalid" → Decoded obj (.inr rejection)

/-- The loop never raises, decides every element, and hands each accepted one on. -/
structure TotalDecoding (objs : List Json) : Prop where
  decides : ∃ outcomes, List.Forall₂ (Decoded platform coercions) objs outcomes ∧
    decodeLoop platform coercions builtins objs =
      .ok (outcomes.filterMap Sum.getLeft?, outcomes.filterMap Sum.getRight?)
  reaches : ∀ (receiver : Receiver) (dest : Store) (clock : Option HLC) (scopes : List String),
    ∃ wireRejected, pullEvents platform coercions builtins receiver dest clock scopes objs =
      ((admitBatch platform { receiver with requestedScopes := some scopes } dest clock
        (objs.filterMap (accepted platform coercions))).mapError .store).map fun state =>
          { state with rejected := wireRejected ++ state.rejected }

/-- `obj.get(key)` of a dictionary. -/
def held (obj : Json) (key : String) : Option Json := (asDict obj).bind (Dict.get? · key)

def envelopeOf (obj : Json) : Dict String Json := ((held obj "envelope").bind asDict).getD []

/-- Null or a text. -/
def textual : Json → Bool
  | .null => true
  | .str _ => true
  | _ => false

/-- What neither `from_wire` nor the handler stumbles over. -/
structure Sound (obj : Json) : Prop where
  dict : (asDict obj).isSome = true
  envelope : (held obj "envelope").all (fun envelope => (asDict envelope).isSome) = true
  -- the text is not looked at without an envelope, or behind the downgrade guard
  text : held obj "envelope" = none ∨ (held obj "payload_canonical").all textual = true ∨
    scopedV1 coercions (envelopeOf obj) = true
  number : (accepted platform coercions obj).isSome = true ∨
    ∃ originSeq, builtins.intOr0 ((Dict.get? (envelopeOf obj) "origin_seq").getD (.int 0)) =
      .ok originSeq

/-- What the loop gets past. -/
def Handled (obj : Json) : Prop :=
  (∃ event, fromWire platform coercions obj = .ok event) ∨
    fromWire platform coercions obj = .error .invalid ∧
      ∃ rejection, wireRejection builtins obj = .ok rejection

end Decoding

section Elements

variable {platform : Platform} {coercions : Coercions} {builtins : Builtins}

theorem accepted_eq_some {obj : Json} {event : Event} :
    accepted platform coercions obj = some event ↔
      fromWire platform coercions obj = .ok event := by
  unfold accepted
  cases fromWire platform coercions obj with
  | error error => simp [Except.toOption]
  | ok other => simp [Except.toOption]

theorem wireRejection_reason {obj : Json} {rejection : Rejection}
    (made : wireRejection builtins obj = .ok rejection) : rejection.reason = "wire_invalid" := by
  simp only [wireRejection, bind_ok, pure_ok] at made
  obtain ⟨_, _, _, _, rfl⟩ := made
  rfl

theorem handledEnvelope_eq {obj : Json} (envelope : (held obj "envelope").all
    (fun envelope => (asDict envelope).isSome) = true) :
    handledEnvelope obj = .ok (envelopeOf obj) := by
  unfold handledEnvelope envelopeOf
  unfold held at envelope ⊢
  cases found : (asDict obj).bind (Dict.get? · "envelope") with
  | none => rfl
  | some value =>
      rw [found, Option.all_some] at envelope
      obtain ⟨entries, inner⟩ := Option.isSome_iff_exists.mp envelope
      simp [inner, orRaise]

/-- The handler succeeds exactly where the number converts. -/
theorem wireRejection_ok_iff {obj : Json} (envelope : (held obj "envelope").all
    (fun envelope => (asDict envelope).isSome) = true) :
    (∃ rejection, wireRejection builtins obj = .ok rejection) ↔
      ∃ originSeq, builtins.intOr0 ((Dict.get? (envelopeOf obj) "origin_seq").getD (.int 0)) =
        .ok originSeq := by
  simp only [wireRejection, handledEnvelope_eq envelope, bind_ok, pure_ok, Except.ok.injEq,
    exists_eq_left']
  constructor
  · rintro ⟨_, originSeq, converted, _⟩
    exact ⟨originSeq, converted⟩
  · rintro ⟨originSeq, converted⟩
    exact ⟨_, originSeq, converted, rfl⟩

theorem dict_of_wireRejection {obj : Json} {rejection : Rejection}
    (made : wireRejection builtins obj = .ok rejection) :
    (held obj "envelope").all (fun envelope => (asDict envelope).isSome) = true := by
  simp only [wireRejection, bind_ok] at made
  obtain ⟨entries, read, _⟩ := made
  unfold handledEnvelope at read
  unfold held
  cases found : (asDict obj).bind (Dict.get? · "envelope") with
  | none => rfl
  | some value =>
      rw [found] at read
      cases inner : asDict value with
      | none => simp [inner, orRaise] at read
      | some entries => simp [inner]

/-- Past the guards an element is taken or refused by what `from_wire` checks. -/
theorem orRaise_cases {α : Type} (value : Option α) :
    (∃ result, orRaise .invalid value = .ok result) ∨ orRaise .invalid value = .error .invalid := by
  cases value with
  | none => exact .inr rfl
  | some result => exact .inl ⟨result, rfl⟩

theorem fromWire_of_sound {obj : Json} (sound : Sound platform coercions builtins obj) :
    (∃ event, fromWire platform coercions obj = .ok event) ∨
      fromWire platform coercions obj = .error .invalid := by
  obtain ⟨dict, envelope, text, _⟩ := sound
  obtain ⟨members, same⟩ := Option.isSome_iff_exists.mp dict
  simp only [held, envelopeOf, same, Option.bind_some] at envelope text
  unfold fromWire
  rw [same]
  cases found : Dict.get? members "envelope" with
  | none =>
      simp only [orRaise, Option.elim_some, bind, Except.bind, found]
      exact .inr rfl
  | some value =>
      cases carried : Dict.get? members "payload_canonical" with
      | none =>
          simp only [orRaise, Option.elim_some, bind, Except.bind, found, carried]
          exact .inr rfl
      | some canonical =>
          rw [found] at envelope text
          obtain ⟨entries, inner⟩ := Option.isSome_iff_exists.mp envelope
          simp only [orRaise, Option.elim_some, bind, Except.bind, found, carried, inner]
          by_cases downgraded : scopedV1 coercions entries = true
          · simp only [if_pos downgraded]
            exact .inr trivial
          · rw [if_neg downgraded]
            simp only [carried, Option.bind_some, inner, Option.getD_some, downgraded, reduceCtorEq,
              false_or, or_false, Option.all_some] at text
            cases canonical with
            | null => exact orRaise_cases _
            | str text => exact orRaise_cases _
            | _ => cases text

theorem dict_of_read {obj : Json} (untyped : fromWire platform coercions obj ≠ .error .typeError) :
    (asDict obj).isSome = true := by
  cases dict : asDict obj with
  | none =>
      refine absurd ?_ untyped
      simp [fromWire, dict, orRaise, bind, Except.bind]
  | some members => rfl

/-- What `from_wire` accepts has a dictionary for its envelope. -/
theorem envelope_of_taken {obj : Json} {event : Event}
    (taken : fromWire platform coercions obj = .ok event) :
    (held obj "envelope").all (fun envelope => (asDict envelope).isSome) = true := by
  simp only [fromWire, bind_ok] at taken
  obtain ⟨members, dict, value, found, _, _, entries, inner, _⟩ := taken
  have same : asDict obj = some members := by
    cases read : asDict obj <;> simp_all [orRaise]
  have envelope : Dict.get? members "envelope" = some value := by
    cases read : Dict.get? members "envelope" <;> simp_all [orRaise]
  rw [held, same, Option.bind_some, envelope, Option.all_some]
  cases read : asDict value with
  | none => simp [read, orRaise] at inner
  | some _ => rfl

/-- The text has no `encode` unless it is one. -/
theorem text_of_read {obj : Json} (dict : (asDict obj).isSome = true)
    (envelope : (held obj "envelope").all (fun envelope => (asDict envelope).isSome) = true)
    (read : fromWire platform coercions obj ≠ .error .attributeError) :
    held obj "envelope" = none ∨ (held obj "payload_canonical").all textual = true ∨
      scopedV1 coercions (envelopeOf obj) = true := by
  obtain ⟨members, same⟩ := Option.isSome_iff_exists.mp dict
  simp only [held, envelopeOf, same, Option.bind_some] at envelope ⊢
  cases found : Dict.get? members "envelope" with
  | none => exact .inl rfl
  | some value =>
      rw [found] at envelope
      obtain ⟨entries, inner⟩ := Option.isSome_iff_exists.mp envelope
      simp only [Option.bind_some, inner, Option.getD_some, reduceCtorEq, false_or]
      cases carried : Dict.get? members "payload_canonical" with
      | none => exact .inl rfl
      | some canonical =>
          by_cases downgraded : scopedV1 coercions entries = true
          · exact .inr downgraded
          · have stuck : textual canonical = false →
                fromWire platform coercions obj = .error .attributeError := by
              intro other
              simp only [fromWire, same, orRaise, Option.elim_some, bind, Except.bind, found,
                carried, inner, if_neg downgraded]
              cases canonical with
              | null => cases other
              | str text => cases other
              | _ => rfl
            cases other : textual canonical with
            | false => exact absurd (stuck other) read
            | true => exact .inl other

theorem sound_iff (obj : Json) :
    Sound platform coercions builtins obj ↔ Handled platform coercions builtins obj := by
  constructor
  · intro sound
    rcases fromWire_of_sound sound with taken | refused
    · exact .inl taken
    · refine .inr ⟨refused, (wireRejection_ok_iff sound.envelope).mpr ?_⟩
      refine sound.number.resolve_left fun isSome => ?_
      obtain ⟨event, taken⟩ := Option.isSome_iff_exists.mp isSome
      rw [accepted_eq_some, refused] at taken
      cases taken
  · rintro (⟨event, taken⟩ | ⟨refused, rejection, made⟩)
    · have dict := dict_of_read (by rw [taken]; exact fun other => by cases other)
      have envelope := envelope_of_taken taken
      exact {
        dict := dict
        envelope := envelope
        text := text_of_read dict envelope (by rw [taken]; exact fun other => by cases other)
        number := .inl (Option.isSome_iff_exists.mpr ⟨event, accepted_eq_some.mpr taken⟩) }
    · have dict := dict_of_read (by rw [refused]; exact fun other => by cases other)
      have envelope := dict_of_wireRejection made
      exact {
        dict := dict
        envelope := envelope
        text := text_of_read dict envelope (by rw [refused]; exact fun other => by cases other)
        number := .inr ((wireRejection_ok_iff envelope).mp ⟨rejection, made⟩) }

/-! ## The whole array -/

/-- A loop that ends has got past every element. -/
theorem decodeLoop_handled {objs : List Json} {done : List Event × List Rejection}
    (ended : decodeLoop platform coercions builtins objs = .ok done) :
    ∀ obj ∈ objs, Handled platform coercions builtins obj := by
  induction objs generalizing done with
  | nil => simp
  | cons obj objs ih =>
      unfold decodeLoop at ended
      refine List.forall_mem_cons.mpr ?_
      cases read : fromWire platform coercions obj with
      | ok event =>
          rw [read] at ended
          obtain ⟨rest, later, _⟩ := map_ok.mp ended
          exact ⟨.inl ⟨event, read⟩, ih later⟩
      | error error =>
          rw [read] at ended
          cases error with
          | invalid =>
              simp only [bind_ok] at ended
              obtain ⟨rejection, made, rest, later, _⟩ := ended
              exact ⟨.inr ⟨read, rejection, made⟩, ih later⟩
          | _ => cases ended

/-- Elements that are got past one by one are decided in their order. -/
theorem decodeLoop_decides {objs : List Json}
    (handled : ∀ obj ∈ objs, Handled platform coercions builtins obj) :
    ∃ outcomes, List.Forall₂ (Decoded platform coercions) objs outcomes ∧
      decodeLoop platform coercions builtins objs =
        .ok (outcomes.filterMap Sum.getLeft?, outcomes.filterMap Sum.getRight?) := by
  induction objs with
  | nil => exact ⟨[], List.Forall₂.nil, rfl⟩
  | cons obj objs ih =>
      obtain ⟨first, later⟩ := List.forall_mem_cons.mp handled
      obtain ⟨outcomes, decided, ended⟩ := ih later
      rcases first with ⟨event, taken⟩ | ⟨refused, rejection, made⟩
      · refine ⟨.inl event :: outcomes,
          .cons (.event event (accepted_eq_some.mpr taken)) decided, ?_⟩
        unfold decodeLoop
        rw [taken, ended]
        rfl
      · have unaccepted : accepted platform coercions obj = none := by
          rw [accepted, refused]
          rfl
        refine ⟨.inr rejection :: outcomes,
          .cons (.rejection rejection unaccepted (wireRejection_reason made)) decided, ?_⟩
        unfold decodeLoop
        rw [refused, made, ended]
        rfl

/-- The batch is what was accepted, in order. -/
theorem accepted_of_decoded {objs : List Json} {outcomes : List (Event ⊕ Rejection)}
    (decided : List.Forall₂ (Decoded platform coercions) objs outcomes) :
    outcomes.filterMap Sum.getLeft? = objs.filterMap (accepted platform coercions) := by
  induction decided with
  | nil => rfl
  | cons first _ ih =>
      cases first with
      | event event taken => rw [List.filterMap_cons, List.filterMap_cons, taken, ih]; rfl
      | rejection rejection refused =>
          rw [List.filterMap_cons, List.filterMap_cons, refused, ih]
          rfl

end Elements

/-- Conversions to run the loop on. -/
def plainBuiltins : Builtins where
  str value := (textOf? value).getD ""
  intOfText text :=
    if Json.digitRun text.toList then some (Json.natOfDigits text.toList) else none
  intOfFloat _ := none
  truth _ := true

end PullDecoding

end Kawa
