import Kawa.Http

/-!
The server's gate for a pull: single-use nonces with a freshness window and a cap, and the
checks of a signed request.  In every interleaving of challenges and requests a nonce
authorizes at most one request.
-/

namespace Kawa

/-! ## Requests -/

/-- The members of a request body, as it was read from JSON. -/
structure PullBody where
  members : Dict String Json
  keyed : (Json.obj members).WellKeyed

def PullBody.get? (body : PullBody) (field : String) : Option Json := Dict.get? body.members field

/-- What `float()` gives, where it does not raise. -/
inductive FloatValue
  | nan
  | infinite
  | finite (seconds : Rat)
deriving DecidableEq

/-- `float()` and `sorted()` on JSON values; `none` is a raise. -/
structure PullRuntime where
  float : Json → Option FloatValue
  sorted : List Json → Option (List Json)
  sorted_perm : ∀ items inOrder, sorted items = some inOrder → inOrder.Perm items

/-- The items that iterating over a value gives. -/
def iterated : Json → Option (List Json)
  | .arr items => some items
  | .str text => some (text.toList.map fun char => .str (String.singleton char))
  | .obj members => some (members.map fun member => .str member.1)
  | _ => none

/-- The request comes under this node's name. -/
def PullBody.names (body : PullBody) (nodeRef : Option String) : Bool :=
  match body.get? "node" with
  | some (.str node) => nodeRef == some node
  | _ => false

/-- The part of a request that its signature covers. -/
structure Ask where
  nonce : Json
  frontier : Json
  sentAt : Json
  scopes : Json
  backfill : Json

def PullBody.ask (body : PullBody) : Ask where
  nonce := (body.get? "nonce").getD .null
  frontier := (body.get? "frontier").getD .null
  sentAt := (body.get? "sent_at").getD .null
  scopes := (body.get? "scopes").getD .null
  backfill := (body.get? "backfill").getD (.obj [])

/-- `_request_digest`: the signed coordinate of one pull request. -/
def requestDigest (platform : Platform) (runtime : PullRuntime) (ask : Ask) : Option String := do
  let scopes ← iterated ask.scopes
  let inOrder ← runtime.sorted scopes
  return digest platform (.obj [("nonce", ask.nonce), ("frontier", ask.frontier),
    ("sent_at", ask.sentAt), ("scopes", .arr inOrder), ("backfill", ask.backfill)])

/-! ## The authorizer -/

def freshnessWindowSeconds : Rat := 60

def maxPendingNonces : Nat := 4096

structure PullAuthorizer where
  window : Rat
  nonces : Dict String Rat

/-- Drop the expired nonces, then the oldest over the cap. -/
def PullAuthorizer.prune (authorizer : PullAuthorizer) (now : Rat) : PullAuthorizer :=
  let live := authorizer.nonces.filter fun entry => ¬ authorizer.window < now - entry.2
  { authorizer with nonces := live.drop (live.length - maxPendingNonces) }

def PullAuthorizer.challenge (authorizer : PullAuthorizer) (now : Rat) (nonce : String) :
    PullAuthorizer :=
  { authorizer with nonces := authorizer.nonces.set nonce now }.prune now

def PullAuthorizer.consume (authorizer : PullAuthorizer) (nonce : String) : PullAuthorizer :=
  { authorizer with nonces := authorizer.nonces.filter fun entry => entry.1 ≠ nonce }

inductive Refusal
  | malformed
  | nonceUnknownOrReplayed
  | stale
  | provenanceInvalid
  | trust (standing : TrustStanding)
  | forgedOrigin
deriving DecidableEq

def Refusal.reason : Refusal → String
  | malformed => "malformed"
  | nonceUnknownOrReplayed => "nonce_unknown_or_replayed"
  | stale => "stale"
  | provenanceInvalid => "provenance_invalid"
  | trust standing => "trust_" ++ standing.value
  | forgedOrigin => "forged_origin"

/-- How an `authorize` call ends: it returns nothing, a reason, or raises. -/
inductive PullOutcome
  | authorized
  | refused (refusal : Refusal)
  | raised
deriving DecidableEq

def requestFields : List String :=
  ["node", "key_ref", "scheme", "nonce", "sent_at", "frontier", "scopes", "signature"]

def PullBody.complete (body : PullBody) : Bool :=
  requestFields.all fun field => (body.get? field).isSome

/-- The registries that a request is judged against. -/
structure Judges where
  keys : PublicKeyRegistry
  trust : TrustRegistry

section Authorize

variable (platform : Platform) (runtime : PullRuntime)

/-- A send time outside the window around `now`; no comparison holds of a NaN. -/
def outside (window now : Rat) : FloatValue → Bool
  | .nan => false
  | .infinite => true
  | .finite seconds => decide (window < |now - seconds|)

/-- The signature check; `none` is the raise on a key reference that cannot be looked up. -/
def signatureVerifies (keys : PublicKeyRegistry) (statement : String) (body : PullBody) :
    Option Bool :=
  match body.get? "key_ref", body.get? "signature", body.get? "scheme" with
  | some (.str keyRef), some (.str signature), some (.str scheme) =>
      some (resolveAndVerifyProvenance platform statement signature keyRef scheme keys)
  | some (.arr _), _, _ => none
  | some (.obj _), _, _ => none
  | _, _, _ => some false

/-- The checks that follow once the nonce has been taken. -/
def judge (judges : Judges) (window now : Rat) (body : PullBody) : PullOutcome :=
  match runtime.float body.ask.sentAt with
  | none => .raised
  | some sentAt =>
      if outside window now sentAt then .refused .stale
      else
        match requestDigest platform runtime body.ask with
        | none => .raised
        | some statement =>
            match signatureVerifies platform judges.keys statement body, body.get? "key_ref" with
            | none, _ => .raised
            | some true, some (.str keyRef) =>
                if judges.trust.standing keyRef none ≠ .active then
                  .refused (.trust (judges.trust.standing keyRef none))
                else if !body.names (judges.trust.nodeRef keyRef) then
                  .refused .forgedOrigin
                else .authorized
            | some _, _ => .refused .provenanceInvalid

def PullAuthorizer.authorize (authorizer : PullAuthorizer) (judges : Judges) (now : Rat)
    (body : PullBody) : PullAuthorizer × PullOutcome :=
  if !body.complete then (authorizer, .refused .malformed)
  else
    let pruned := authorizer.prune now
    match body.get? "nonce" with
    | some (.str nonce) =>
        if (pruned.nonces.get? nonce).isSome then
          (pruned.consume nonce, judge platform runtime judges authorizer.window now body)
        else (pruned, .refused .nonceUnknownOrReplayed)
    | some (.arr _) => (pruned, .raised)
    | some (.obj _) => (pruned, .raised)
    | _ => (pruned, .refused .nonceUnknownOrReplayed)

/-! ## Interleavings -/

/-- A call of any peer, with its clock reading and what it met: a challenge with the nonce
drawn, or a request with the registries as they then stand. -/
inductive PullCall
  | challenge (now : Rat) (nonce : String)
  | authorize (judges : Judges) (now : Rat) (body : PullBody)

def PullCall.now : PullCall → Rat
  | challenge now _ => now
  | authorize _ now _ => now

def PullCall.issued : PullCall → Option String
  | challenge _ nonce => some nonce
  | authorize _ _ _ => none

/-- The call is a complete request with this nonce. -/
def PullCall.Presents (nonce : String) : PullCall → Prop
  | challenge _ _ => False
  | authorize _ _ body => body.complete = true ∧ body.get? "nonce" = some (.str nonce)

def PullAuthorizer.serveCall (authorizer : PullAuthorizer) : PullCall → PullAuthorizer
  | .challenge now nonce => authorizer.challenge now nonce
  | .authorize judges now body => (authorizer.authorize platform runtime judges now body).1

def PullAuthorizer.afterCalls (authorizer : PullAuthorizer) (calls : List PullCall) :
    PullAuthorizer :=
  calls.foldl (PullAuthorizer.serveCall platform runtime) authorizer

/-- The server starts with no outstanding nonce. -/
def PullAuthorizer.started (window : Rat) : PullAuthorizer := { window := window, nonces := [] }

end Authorize

/-! ## What the signature covers -/

section Coverage

variable {platform : Platform} {runtime : PullRuntime}

/-- Two asks agree in everything that is signed; scopes up to their order. -/
structure Ask.Same (left right : Ask) : Prop where
  nonce : left.nonce.sortKeys = right.nonce.sortKeys
  frontier : left.frontier.sortKeys = right.frontier.sortKeys
  sentAt : left.sentAt.sortKeys = right.sentAt.sortKeys
  backfill : left.backfill.sortKeys = right.backfill.sortKeys
  scopes : ∃ leftScopes rightScopes, iterated left.scopes = some leftScopes ∧
    iterated right.scopes = some rightScopes ∧
    (leftScopes.map Json.sortKeys).Perm (rightScopes.map Json.sortKeys)

theorem wellKeyedItems_iff (items : List Json) :
    Json.WellKeyedItems items ↔ ∀ item ∈ items, item.WellKeyed := by
  induction items with
  | nil => simp [Json.WellKeyedItems]
  | cons item items ih => simp [Json.WellKeyedItems, ih]

theorem sortItems_eq_map (items : List Json) : Json.sortItems items = items.map Json.sortKeys := by
  induction items with
  | nil => rfl
  | cons item items ih => rw [Json.sortItems, ih, List.map_cons]

theorem iterated_wellKeyed {value : Json} {items : List Json} (keyed : value.WellKeyed)
    (iterates : iterated value = some items) : ∀ item ∈ items, item.WellKeyed := by
  cases value with
  | arr elements =>
      cases iterates
      exact (wellKeyedItems_iff items).mp keyed
  | str text =>
      cases iterates
      intro item member
      obtain ⟨_, _, rfl⟩ := List.mem_map.mp member
      trivial
  | obj members =>
      cases iterates
      intro item member
      obtain ⟨_, _, rfl⟩ := List.mem_map.mp member
      trivial
  | null => cases iterates
  | bool value => cases iterates
  | int value => cases iterates
  | float value => cases iterates

theorem PullBody.get?_wellKeyed (body : PullBody) (field : String) (fallback : Json)
    (keyed : fallback.WellKeyed) : ((body.get? field).getD fallback).WellKeyed := by
  cases found : body.get? field with
  | none => exact keyed
  | some value =>
      exact (Json.wellKeyedMembers_iff body.members).mp body.keyed.2 (field, value)
        (Dict.mem_of_get? found)

/-- A request digest determines what was asked for. -/
theorem requestDigest_injective (collisionFree : CollisionFree platform) {left right : PullBody}
    {statement : String} (leftDigest : requestDigest platform runtime left.ask = some statement)
    (rightDigest : requestDigest platform runtime right.ask = some statement) :
    left.ask.Same right.ask := by
  have keyedOf : ∀ (body : PullBody) (scopes inOrder : List Json),
      iterated body.ask.scopes = some scopes → runtime.sorted scopes = some inOrder →
      (Json.obj [("nonce", body.ask.nonce), ("frontier", body.ask.frontier),
        ("sent_at", body.ask.sentAt), ("scopes", .arr inOrder),
        ("backfill", body.ask.backfill)]).WellKeyed := by
    intro body scopes inOrder iterates sorts
    have items : ∀ item ∈ inOrder, item.WellKeyed := fun item member =>
      iterated_wellKeyed (body.get?_wellKeyed "scopes" .null trivial) iterates item
        ((runtime.sorted_perm _ _ sorts).mem_iff.mp member)
    refine ⟨by simp, body.get?_wellKeyed "nonce" .null trivial, body.get?_wellKeyed "frontier" .null trivial,
      body.get?_wellKeyed "sent_at" .null trivial, (wellKeyedItems_iff inOrder).mpr items,
      body.get?_wellKeyed "backfill" (.obj []) ⟨List.nodup_nil, trivial⟩, trivial⟩
  simp only [requestDigest, Option.bind_eq_bind, Option.bind_eq_some_iff, Option.pure_def,
    Option.some.injEq] at leftDigest rightDigest
  obtain ⟨leftScopes, leftIterates, leftOrder, leftSorts, rfl⟩ := leftDigest
  obtain ⟨rightScopes, rightIterates, rightOrder, rightSorts, same⟩ := rightDigest
  have sorted := digest_injective collisionFree
    (keyedOf left leftScopes leftOrder leftIterates leftSorts)
    (keyedOf right rightScopes rightOrder rightIterates rightSorts) same.symm
  have members := Json.members_eq_of_sortKeys sorted rfl (by simp)
  simp only [Json.sortMembers, Json.sortKeys, sortItems_eq_map, List.cons.injEq, Prod.mk.injEq,
    true_and, and_true, Json.arr.injEq] at members
  obtain ⟨nonce, frontier, sentAt, scopes, backfill⟩ := members
  refine ⟨nonce, frontier, sentAt, backfill, leftScopes, rightScopes, leftIterates, rightIterates,
    ?_⟩
  have leftPerm := (runtime.sorted_perm _ _ leftSorts).map Json.sortKeys
  have rightPerm := (runtime.sorted_perm _ _ rightSorts).map Json.sortKeys
  exact leftPerm.symm.trans (scopes ▸ rightPerm)

end Coverage

/-! ## Single use -/

section SingleUse

variable {platform : Platform} {runtime : PullRuntime}

theorem prune_mem {authorizer : PullAuthorizer} {now : Rat} {entry : String × Rat}
    (member : entry ∈ (authorizer.prune now).nonces) :
    entry ∈ authorizer.nonces ∧ now - entry.2 ≤ authorizer.window := by
  simp only [PullAuthorizer.prune] at member
  have live := List.mem_of_mem_drop member
  rw [List.mem_filter, decide_eq_true_eq, not_lt] at live
  exact live

theorem mem_set_of {nonces : Dict String Rat} {nonce : String} {now : Rat}
    {entry : String × Rat} (member : entry ∈ nonces.set nonce now) :
    entry = (nonce, now) ∨ entry ∈ nonces := by
  induction nonces with
  | nil => exact .inl (List.mem_singleton.mp member)
  | cons first rest ih =>
      obtain ⟨other, old⟩ := first
      unfold Dict.set at member
      split at member
      · rcases List.mem_cons.mp member with same | tail
        · exact .inl same
        · exact .inr (List.mem_cons_of_mem _ tail)
      · rcases List.mem_cons.mp member with same | tail
        · exact .inr (same ▸ List.mem_cons_self)
        · exact (ih tail).imp id (List.mem_cons_of_mem _)

/-- What a request leaves outstanding was outstanding, and the request did not present it. -/
theorem authorize_mem {authorizer : PullAuthorizer} {judges : Judges} {now : Rat}
    {body : PullBody} {entry : String × Rat}
    (member : entry ∈ (authorizer.authorize platform runtime judges now body).1.nonces) :
    entry ∈ authorizer.nonces ∧
      ¬ (PullCall.authorize judges now body).Presents entry.1 := by
  unfold PullAuthorizer.authorize at member
  by_cases complete : body.complete = true
  · simp only [complete, Bool.not_true, Bool.false_eq_true, ↓reduceIte] at member
    cases presented : body.get? "nonce" with
    | none =>
        simp only [presented] at member
        refine ⟨(prune_mem member).1, fun presents => ?_⟩
        rw [presents.2] at presented
        cases presented
    | some value =>
        cases value with
        | str nonce =>
            simp only [presented] at member
            by_cases known : ((authorizer.prune now).nonces.get? nonce).isSome = true
            · simp only [known, ↓reduceIte, PullAuthorizer.consume, List.mem_filter,
                decide_eq_true_eq] at member
              refine ⟨(prune_mem member.1).1, fun presents => member.2 ?_⟩
              have same := presented.symm.trans presents.2
              simp only [Option.some.injEq, Json.str.injEq] at same
              exact same.symm
            · simp only [known, ↓reduceIte, Bool.false_eq_true] at member
              refine ⟨(prune_mem member).1, fun presents => known ?_⟩
              have same := presented.symm.trans presents.2
              simp only [Option.some.injEq, Json.str.injEq] at same
              -- a nonce that is not outstanding is not among those left
              cases found : (authorizer.prune now).nonces.get? nonce with
              | some issued => rfl
              | none =>
                  have absent := List.find?_eq_none.mp (Option.map_eq_none_iff.mp found) entry
                    member
                  simp [same] at absent
        | _ => exact ⟨(prune_mem (by simpa only [presented] using member)).1,
            fun presents => by rw [presents.2] at presented; cases presented⟩
  · simp only [complete, Bool.not_false, ↓reduceIte] at member
    exact ⟨member, fun presents => complete presents.1⟩

/-- The nonce was issued at that time by a call of the history, and no complete request has
presented it since. -/
def Outstanding (calls : List PullCall) (nonce : String) (issued : Rat) : Prop :=
  ∃ earlier middle, calls = earlier ++ .challenge issued nonce :: middle ∧
    ∀ call ∈ middle, ¬ call.Presents nonce

theorem Outstanding.extend {calls : List PullCall} {nonce : String} {issued : Rat}
    (outstanding : Outstanding calls nonce issued) {call : PullCall}
    (quiet : ¬ call.Presents nonce) : Outstanding (calls ++ [call]) nonce issued := by
  obtain ⟨earlier, middle, rfl, unpresented⟩ := outstanding
  refine ⟨earlier, middle ++ [call], by simp, fun other member => ?_⟩
  rcases List.mem_append.mp member with old | new
  · exact unpresented other old
  · rw [List.mem_singleton.mp new]
    exact quiet

/-- Every nonce that the authorizer holds is outstanding. -/
theorem afterCalls_outstanding (window : Rat) (calls : List PullCall) :
    ∀ entry ∈ ((PullAuthorizer.started window).afterCalls platform runtime calls).nonces,
      Outstanding calls entry.1 entry.2 := by
  induction calls using List.reverseRecOn with
  | nil =>
      intro entry member
      cases member
  | append_singleton calls call ih =>
      intro entry member
      rw [PullAuthorizer.afterCalls, List.foldl_append] at member
      change entry ∈ (PullAuthorizer.serveCall platform runtime
        ((PullAuthorizer.started window).afterCalls platform runtime calls) call).nonces at member
      cases call with
      | challenge now nonce =>
          rcases mem_set_of (prune_mem member).1 with rfl | old
          · exact ⟨calls, [], rfl, fun _ none => by cases none⟩
          · exact (ih entry old).extend fun presents => presents
      | authorize judges now body =>
          obtain ⟨old, quiet⟩ := authorize_mem member
          exact (ih entry old).extend quiet

/-- The key of the request has signed all that the request asks for, is active, and is bound to
the node that the request names. -/
structure Vouched (platform : Platform) (runtime : PullRuntime) (judges : Judges)
    (body : PullBody) (keyRef statement : String) : Prop where
  key : body.get? "key_ref" = some (.str keyRef)
  asked : requestDigest platform runtime body.ask = some statement
  signed : ∃ signature scheme, body.get? "signature" = some (.str signature) ∧
    body.get? "scheme" = some (.str scheme) ∧
    resolveAndVerifyProvenance platform statement signature keyRef scheme judges.keys = true
  active : judges.trust.standing keyRef none = .active
  node : ∃ node, judges.trust.nodeRef keyRef = some node ∧ body.get? "node" = some (.str node)

theorem signatureVerifies_true {keys : PublicKeyRegistry} {statement keyRef : String}
    {body : PullBody} (key : body.get? "key_ref" = some (.str keyRef))
    (verified : signatureVerifies platform keys statement body = some true) :
    ∃ signature scheme, body.get? "signature" = some (.str signature) ∧
      body.get? "scheme" = some (.str scheme) ∧
      resolveAndVerifyProvenance platform statement signature keyRef scheme keys = true := by
  unfold signatureVerifies at verified
  split at verified
  · rename_i named signature scheme keyHeld signatureHeld schemeHeld
    rw [key, Option.some.injEq, Json.str.injEq] at keyHeld
    subst keyHeld
    exact ⟨signature, scheme, signatureHeld, schemeHeld, Option.some.inj verified⟩
  · cases verified
  · cases verified
  · cases verified

theorem judge_authorized {judges : Judges} {window now : Rat} {body : PullBody}
    (passed : judge platform runtime judges window now body = .authorized) :
    ∃ keyRef statement, Vouched platform runtime judges body keyRef statement := by
  unfold judge at passed
  cases sent : runtime.float body.ask.sentAt with
  | none => simp [sent] at passed
  | some sentAt =>
      simp only [sent] at passed
      by_cases late : outside window now sentAt = true
      · simp [late] at passed
      · simp only [late, Bool.false_eq_true, ↓reduceIte] at passed
        cases asked : requestDigest platform runtime body.ask with
        | none => simp [asked] at passed
        | some statement =>
            simp only [asked] at passed
            split at passed
            · cases passed
            · rename_i keyRef verified key
              by_cases active : judges.trust.standing keyRef none = .active
              · by_cases own : body.names (judges.trust.nodeRef keyRef) = true
                · refine ⟨keyRef, statement, key, asked,
                    signatureVerifies_true key verified, active, ?_⟩
                  unfold PullBody.names at own
                  split at own
                  · rename_i node named
                    exact ⟨node, eq_of_beq own, named⟩
                  · cases own
                · simp [active, own] at passed
              · simp [active] at passed
            · cases passed

theorem authorize_authorized {authorizer : PullAuthorizer} {judges : Judges} {now : Rat}
    {body : PullBody}
    (passed : (authorizer.authorize platform runtime judges now body).2 = .authorized) :
    body.complete = true ∧ ∃ nonce issued, body.get? "nonce" = some (.str nonce) ∧
      (nonce, issued) ∈ authorizer.nonces ∧ now - issued ≤ authorizer.window ∧
      ∃ keyRef statement, Vouched platform runtime judges body keyRef statement := by
  unfold PullAuthorizer.authorize at passed
  by_cases complete : body.complete = true
  · simp only [complete, Bool.not_true, Bool.false_eq_true, ↓reduceIte] at passed
    split at passed
    · rename_i nonce presented
      by_cases known : ((authorizer.prune now).nonces.get? nonce).isSome = true
      · simp only [known, ↓reduceIte] at passed
        obtain ⟨issued, found⟩ := Option.isSome_iff_exists.mp known
        obtain ⟨held, fresh⟩ := prune_mem (Dict.mem_of_get? found)
        exact ⟨complete, nonce, issued, presented, held, fresh, judge_authorized passed⟩
      · simp [known] at passed
    · cases passed
    · cases passed
    · cases passed
  · simp [complete] at passed

@[simp] theorem prune_window (authorizer : PullAuthorizer) (now : Rat) :
    (authorizer.prune now).window = authorizer.window := by
  unfold PullAuthorizer.prune
  rfl

theorem serveCall_window (authorizer : PullAuthorizer) (call : PullCall) :
    (authorizer.serveCall platform runtime call).window = authorizer.window := by
  cases call with
  | challenge now nonce => simp only [PullAuthorizer.serveCall, PullAuthorizer.challenge, prune_window]
  | authorize judges now body =>
      simp only [PullAuthorizer.serveCall, PullAuthorizer.authorize]
      split
      · rfl
      · split
        · split
          · simp only [PullAuthorizer.consume, prune_window]
          · exact prune_window authorizer now
        · exact prune_window authorizer now
        · exact prune_window authorizer now
        · exact prune_window authorizer now

theorem afterCalls_window (window : Rat) (calls : List PullCall) :
    ((PullAuthorizer.started window).afterCalls platform runtime calls).window = window := by
  induction calls using List.reverseRecOn with
  | nil => rfl
  | append_singleton calls call ih =>
      rw [PullAuthorizer.afterCalls, List.foldl_append]
      exact (serveCall_window _ call).trans ih

/-- A nonce is issued once, so the call that issued it is the same in any two splits. -/
theorem challenge_unique {calls earlier middle otherEarlier otherMiddle : List PullCall}
    {nonce : String} {issued otherIssued : Rat}
    (distinct : (calls.filterMap PullCall.issued).Nodup)
    (split : calls = earlier ++ .challenge issued nonce :: middle)
    (otherSplit : calls = otherEarlier ++ .challenge otherIssued nonce :: otherMiddle) :
    earlier = otherEarlier ∧ issued = otherIssued ∧ middle = otherMiddle := by
  subst split
  induction earlier generalizing otherEarlier with
  | nil =>
      cases otherEarlier with
      | nil =>
          simp only [List.nil_append, List.cons.injEq, PullCall.challenge.injEq, and_true]
            at otherSplit
          exact ⟨rfl, otherSplit.1, otherSplit.2⟩
      | cons first rest =>
          simp only [List.nil_append, List.cons_append, List.cons.injEq] at otherSplit
          obtain ⟨rfl, rfl⟩ := otherSplit
          simp [PullCall.issued] at distinct
  | cons call earlier ih =>
      cases otherEarlier with
      | nil =>
          simp only [List.nil_append, List.cons_append, List.cons.injEq] at otherSplit
          obtain ⟨rfl, rfl⟩ := otherSplit
          simp [PullCall.issued] at distinct
      | cons first rest =>
          simp only [List.cons_append, List.cons.injEq] at otherSplit
          obtain ⟨rfl, tail⟩ := otherSplit
          have tailDistinct : ((earlier ++ PullCall.challenge issued nonce :: middle).filterMap
              PullCall.issued).Nodup := by
            rw [List.cons_append, List.filterMap_cons] at distinct
            cases given : call.issued with
            | none => simpa only [given] using distinct
            | some other =>
                simp only [given] at distinct
                exact (List.nodup_cons.mp distinct).2
          obtain ⟨same, time, after⟩ := ih tailDistinct tail
          exact ⟨by rw [same], time, after⟩

end SingleUse

/-- The call at this point of the history is authorized with this nonce. -/
def AuthorizedAt (platform : Platform) (runtime : PullRuntime) (window : Rat)
    (before : List PullCall) (judges : Judges) (now : Rat) (body : PullBody) (nonce : String) :
    Prop :=
  body.get? "nonce" = some (.str nonce) ∧
    (((PullAuthorizer.started window).afterCalls platform runtime before).authorize platform
      runtime judges now body).2 = .authorized

/-- In every interleaving with distinct nonces, a request is authorized only with a nonce issued
at most a window before, which no complete request has presented since, and only when an
active key of the named node has signed exactly what it asks for; no nonce authorizes twice. -/
theorem pull_authorized {platform : Platform} (runtime : PullRuntime)
    (collisionFree : CollisionFree platform) (window : Rat) (calls : List PullCall)
    (distinct : (calls.filterMap PullCall.issued).Nodup) :
    (∀ before judges now body rest nonce, calls = before ++ .authorize judges now body :: rest →
      AuthorizedAt platform runtime window before judges now body nonce →
        (∃ issued, Outstanding before nonce issued ∧ now - issued ≤ window) ∧
        ∃ keyRef statement, Vouched platform runtime judges body keyRef statement ∧
          ∀ other : PullBody, requestDigest platform runtime other.ask = some statement →
            body.ask.Same other.ask) ∧
    ∀ before judges now body between laterJudges later laterBody rest nonce,
      calls = before ++ .authorize judges now body :: between ++
        .authorize laterJudges later laterBody :: rest →
      AuthorizedAt platform runtime window before judges now body nonce →
        ¬ AuthorizedAt platform runtime window
          (before ++ .authorize judges now body :: between) laterJudges later laterBody nonce := by
  have issuedBefore : ∀ {before judges now body nonce},
      AuthorizedAt platform runtime window before judges now body nonce →
      (∃ issued, Outstanding before nonce issued ∧ now - issued ≤ window) ∧
        (PullCall.authorize judges now body).Presents nonce ∧
        ∃ keyRef statement, Vouched platform runtime judges body keyRef statement := by
    rintro before judges now body nonce ⟨presented, passed⟩
    obtain ⟨complete, other, issued, held, outstanding, fresh, vouched⟩ :=
      authorize_authorized passed
    rw [presented, Option.some.injEq, Json.str.injEq] at held
    subst held
    rw [afterCalls_window] at fresh
    exact ⟨⟨issued, afterCalls_outstanding window before _ outstanding, fresh⟩,
      ⟨complete, presented⟩, vouched⟩
  constructor
  · intro before judges now body rest nonce _ authorized
    obtain ⟨outstanding, _, keyRef, statement, vouched⟩ := issuedBefore authorized
    exact ⟨outstanding, keyRef, statement, vouched, fun other same =>
      requestDigest_injective collisionFree vouched.asked same⟩
  · intro before judges now body between laterJudges later laterBody rest nonce split first second
    obtain ⟨⟨issued, ⟨earlier, middle, beforeSplit, _⟩, _⟩, presents, _⟩ := issuedBefore first
    obtain ⟨⟨again, ⟨otherEarlier, otherMiddle, laterSplit, unpresented⟩, _⟩, _⟩ :=
      issuedBefore second
    have prefixDistinct : ((before ++ PullCall.authorize judges now body :: between).filterMap
        PullCall.issued).Nodup := by
      rw [split, List.filterMap_append] at distinct
      exact distinct.of_append_left
    -- both were issued by the one challenge, and the first request came after it
    have whole : before ++ PullCall.authorize judges now body :: between = earlier ++
        PullCall.challenge issued nonce :: (middle ++ .authorize judges now body :: between) := by
      rw [beforeSplit]
      simp
    obtain ⟨_, _, same⟩ := challenge_unique prefixDistinct whole laterSplit
    exact unpresented (.authorize judges now body) (same ▸ by simp) presents

namespace OnePull

/-- Integers are times, and lists count as sorted. -/
def runtime : PullRuntime where
  float
    | .int seconds => some (.finite seconds)
    | _ => none
  sorted items := some items
  sorted_perm items inOrder same := by
    cases same
    exact .refl _

def statement : String :=
  digest plainPlatform (.obj [("nonce", .str "nonce"), ("frontier", .obj []), ("sent_at", .int 0),
    ("scopes", .arr []), ("backfill", .obj [])])

def members : Dict String Json :=
  [("node", .str "node"), ("key_ref", .str "key"), ("scheme", .str "ed25519"),
    ("nonce", .str "nonce"), ("sent_at", .int 0), ("frontier", .obj []), ("scopes", .arr []),
    ("signature", .str ("pem" ++ statement))]

theorem members_keyed : (Json.obj members).WellKeyed := by
  refine ⟨by simp [members], ?_⟩
  rw [Json.wellKeyedMembers_iff]
  intro member inBody
  simp only [members, List.mem_cons, List.not_mem_nil, or_false] at inBody
  rcases inBody with rfl | rfl | rfl | rfl | rfl | rfl | rfl | rfl
  all_goals trivial

def body : PullBody := ⟨members, members_keyed⟩

def judges : Judges where
  keys := [("key", "pem")]
  trust := { keys := [("key", ⟨"node", .active, "inc:node:genesis", none, none⟩)], grants := [] }

theorem authorized : AuthorizedAt plainPlatform runtime freshnessWindowSeconds
    [.challenge 0 "nonce"] judges 0 body "nonce" := by
  have field : ∀ name, body.get? name = Dict.get? members name := fun _ => rfl
  have complete : body.complete = true := by
    simp [PullBody.complete, requestFields, field, members, Dict.get?_cons]
  have presented : body.get? "nonce" = some (.str "nonce") := by
    simp [field, members, Dict.get?_cons]
  have asked : requestDigest plainPlatform runtime body.ask = some statement := by
    simp [requestDigest, PullBody.ask, field, members, Dict.get?_cons, iterated, runtime, statement]
  have verified : signatureVerifies plainPlatform judges.keys statement body = some true := by
    simp [signatureVerifies, field, members, Dict.get?_cons, resolveAndVerifyProvenance,
      verifyProvenance, judges, plainPlatform]
  have passed : judge plainPlatform runtime judges freshnessWindowSeconds 0 body =
      .authorized := by
    have sent : runtime.float body.ask.sentAt = some (.finite 0) := by
      simp [PullBody.ask, field, members, Dict.get?_cons, runtime]
    have key : body.get? "key_ref" = some (.str "key") := by
      simp [field, members, Dict.get?_cons]
    have own : body.names (judges.trust.nodeRef "key") = true := by
      simp [PullBody.names, field, members, Dict.get?_cons, judges, TrustRegistry.nodeRef]
    have active : judges.trust.standing "key" none = .active := by
      simp [judges, TrustRegistry.standing, Dict.get?_cons]
    have inside : outside freshnessWindowSeconds 0 (.finite 0) = false := by
      simp [outside, freshnessWindowSeconds]
    unfold judge
    simp only [sent, inside, asked, verified, key, active, own, Bool.false_eq_true, ↓reduceIte,
      ne_eq, not_true_eq_false, Bool.not_true]
  refine ⟨presented, ?_⟩
  have window : ∀ calls, ((PullAuthorizer.started freshnessWindowSeconds).afterCalls plainPlatform
      runtime calls).window = freshnessWindowSeconds := afterCalls_window _
  have known : ((((PullAuthorizer.started freshnessWindowSeconds).afterCalls plainPlatform runtime
      [.challenge 0 "nonce"]).prune 0).nonces.get? "nonce").isSome = true := by
    simp [PullAuthorizer.afterCalls, PullAuthorizer.serveCall, PullAuthorizer.challenge,
      PullAuthorizer.started, PullAuthorizer.prune, Dict.set, maxPendingNonces,
      freshnessWindowSeconds, Dict.get?_cons]
  unfold PullAuthorizer.authorize
  simp only [complete, presented, known, window, passed, Bool.not_true, Bool.false_eq_true,
    ↓reduceIte]

/-- A challenge and its signed request: the request is authorized within the window. -/
theorem issued_in_window : ∃ issued, Outstanding [.challenge 0 "nonce"] "nonce" issued ∧
    0 - issued ≤ freshnessWindowSeconds :=
  ((pull_authorized runtime plainPlatform_collisionFree freshnessWindowSeconds
    [.challenge 0 "nonce", .authorize judges 0 body] (List.nodup_singleton "nonce")).1
      [.challenge 0 "nonce"] judges 0 body [] "nonce" rfl authorized).1

end OnePull

end Kawa
