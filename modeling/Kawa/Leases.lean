import Kawa.WorkDiscovery

/-!
Wake and pull coordination: sessions, leases on Works and wake hints in memory, and what every
answer of a run is in terms of the leases that were granted and given back.
-/

namespace Kawa

open Ranking

/-! ## Wakes -/

inductive WakeReason
  | workEligible | dependencySatisfied | rescan

structure WakeHint where
  workRef : String
  reason : WakeReason

abbrev WakeBus := Dict String (List WakeHint)

def WakeBus.subscribe (bus : WakeBus) (sessionId : String) : WakeBus :=
  if (Dict.get? bus sessionId).isSome then bus else Dict.set bus sessionId []

/-- A wake for a session that is not subscribed is dropped. -/
def WakeBus.emit (bus : WakeBus) (sessionId : String) (hint : WakeHint) : WakeBus :=
  match Dict.get? bus sessionId with
  | none => bus
  | some box => Dict.set bus sessionId (box ++ [hint])

def WakeBus.drain (bus : WakeBus) (sessionId : String) : List WakeHint × WakeBus :=
  ((Dict.get? bus sessionId).getD [], Dict.set bus sessionId [])

/-! ## Leases -/

section Leases

variable {τ : Type} [LinearOrder τ] [Add τ]

/-- A session that holds the Work already extends its lease. -/
def ClaimRegistry.claim (claims : ClaimRegistry τ) (workRef sessionId : String) (now ttl : τ) :
    Bool × ClaimRegistry τ :=
  let held := claims.holder workRef now
  if held.1.all (· = sessionId) then
    (true, Dict.set held.2 workRef
      { workRef := workRef, sessionId := sessionId, claimedAt := now, expiresAt := now + ttl })
  else (false, held.2)

omit [LinearOrder τ] [Add τ] in
def ClaimRegistry.release (claims : ClaimRegistry τ) (workRef sessionId : String) :
    Bool × ClaimRegistry τ :=
  match Dict.get? claims workRef with
  | none => (false, claims)
  | some claim =>
      if claim.sessionId = sessionId then
        (true, claims.filter fun entry => entry.1 ≠ workRef)
      else (false, claims)

omit [LinearOrder τ] [Add τ] in
/-- Every claim of a dropped session is freed at once. -/
def ClaimRegistry.releaseSession (claims : ClaimRegistry τ) (sessionId : String) :
    List String × ClaimRegistry τ :=
  let freed := (claims.filter fun entry => entry.2.sessionId = sessionId).map (·.1)
  (freed, claims.filter fun entry => !freed.contains entry.1)

end Leases

/-! ## The plane and its requests -/

/-- The sessions, claims and wakes in memory, beside a store that the services move on. -/
structure Coordination (τ : Type) where
  sessions : Dict String ParticipantSession := []
  claims : ClaimRegistry τ := []
  wakes : WakeBus := []
  store : Store := {}
  readyAt : String → WithTop τ

inductive PlaneRequest (τ : Type)
  | register (session : ParticipantSession)
  | drop (sessionId : String)
  | holder (workRef : String) (now : τ)
  | claim (workRef sessionId : String) (now ttl : τ)
  | release (workRef sessionId : String)
  | releaseSession (sessionId : String)
  | discover (sessionId : String) (now : Option τ)
  | subscribe (sessionId : String)
  | emit (sessionId : String) (hint : WakeHint)
  | drain (sessionId : String)
  | advance (store : Store) (readyAt : String → WithTop τ)

inductive PlaneReply
  | done
  | held (holder : Option String)
  | granted (granted : Bool)
  | released (removed : Bool)
  | freed (works : List String)
  | offered (discovery : Discovery)
  | drained (hints : List WakeHint)

section Plane

variable {τ : Type} [LinearOrder τ] [Add τ] [Zero τ]

def Coordination.serve (render : RenderInput → String) (plane : Coordination τ) :
    PlaneRequest τ → PlaneReply × Coordination τ
  | .register session =>
      (.done, { plane with sessions := Dict.set plane.sessions session.sessionId session })
  | .drop sessionId =>
      (.done, { plane with sessions := plane.sessions.filter fun entry => entry.1 ≠ sessionId })
  | .holder workRef now =>
      let held := plane.claims.holder workRef now
      (.held held.1, { plane with claims := held.2 })
  | .claim workRef sessionId now ttl =>
      let claimed := plane.claims.claim workRef sessionId now ttl
      (.granted claimed.1, { plane with claims := claimed.2 })
  | .release workRef sessionId =>
      let released := plane.claims.release workRef sessionId
      (.released released.1, { plane with claims := released.2 })
  | .releaseSession sessionId =>
      let freed := plane.claims.releaseSession sessionId
      (.freed freed.1, { plane with claims := freed.2 })
  | .discover sessionId now =>
      let found := workNextForParticipant plane.store plane.readyAt render plane.sessions
        sessionId (some plane.claims) now
      (.offered found.1, { plane with claims := found.2.getD plane.claims })
  | .subscribe sessionId => (.done, { plane with wakes := plane.wakes.subscribe sessionId })
  | .emit sessionId hint => (.done, { plane with wakes := plane.wakes.emit sessionId hint })
  | .drain sessionId =>
      let drained := plane.wakes.drain sessionId
      (.drained drained.1, { plane with wakes := drained.2 })
  | .advance store readyAt => (.done, { plane with store := store, readyAt := readyAt })

/-- The time a request is made at, where it is told one. -/
def PlaneRequest.time? : PlaneRequest τ → Option τ
  | .holder _ now => some now
  | .claim _ _ now _ => some now
  | .discover _ now => some (now.getD 0)
  | _ => none

/-- What was asked and answered, the latest first. -/
abbrev Dealings (τ : Type) := List (PlaneRequest τ × PlaneReply)

/-- No earlier request was made at a later time. -/
def Timely (past : Dealings τ) (now : τ) : Prop :=
  ∀ entry ∈ past, ∀ earlier ∈ entry.1.time?, earlier ≤ now

/-- A run of requests at times that do not go back. -/
inductive Served (render : RenderInput → String) (start : Coordination τ) :
    Dealings τ → Coordination τ → Prop
  | start : Served render start [] start
  | request {past : Dealings τ} {plane : Coordination τ} (served : Served render start past plane)
      (request : PlaneRequest τ) (timely : ∀ now ∈ request.time?, Timely past now) :
      Served render start ((request, (plane.serve render request).1) :: past)
        (plane.serve render request).2

end Plane

/-! ## What was leased -/

structure Lease (τ : Type) where
  sessionId : String
  expiresAt : τ

section Dealt

variable {τ : Type} [LinearOrder τ] [Add τ]

/-- How a dealing changes the lease of a Work. -/
def releasedBy (workRef : String) (lease : Option (Lease τ)) :
    PlaneRequest τ × PlaneReply → Option (Lease τ)
  | (.claim work sessionId now ttl, .granted true) =>
      if work = workRef then some ⟨sessionId, now + ttl⟩ else lease
  | (.release work sessionId, _) =>
      if work = workRef then lease.filter (·.sessionId ≠ sessionId) else lease
  | (.releaseSession sessionId, _) => lease.filter (·.sessionId ≠ sessionId)
  | _ => lease

/-- The last granted claim of a Work that its session has not given back since. -/
def leaseOf : Dealings τ → String → Option (Lease τ)
  | [], _ => none
  | entry :: past, workRef => releasedBy workRef (leaseOf past workRef) entry

/-- The session whose lease on the Work has not run out. -/
def liveHolder (past : Dealings τ) (workRef : String) (now : τ) : Option String :=
  ((leaseOf past workRef).filter fun lease => now < lease.expiresAt).map (·.sessionId)

end Dealt


/-! ## Pruning -/

section Pruning

variable {τ : Type} [LinearOrder τ] {now : τ} {before middle after claims : ClaimRegistry τ}

/-- Only rows that have expired are gone. -/
structure Pruned (now : τ) (before after : ClaimRegistry τ) : Prop where
  sublist : after.Sublist before
  expired : ∀ workRef row, Dict.get? before workRef = some row →
    Dict.get? after workRef = some row ∨ row.expiresAt ≤ now

theorem Pruned.refl (claims : ClaimRegistry τ) : Pruned now claims claims :=
  ⟨List.Sublist.refl _, fun _ _ found => .inl found⟩

theorem Pruned.trans (first : Pruned now before middle) (second : Pruned now middle after) :
    Pruned now before after where
  sublist := second.sublist.trans first.sublist
  expired workRef row found := by
    rcases first.expired workRef row found with kept | expired
    · exact second.expired workRef row kept
    · exact .inr expired

theorem Pruned.distinct (pruned : Pruned now before after) (distinct : Dict.Distinct before) :
    Dict.Distinct after := List.Nodup.sublist (pruned.sublist.map _) distinct

theorem Pruned.get? (pruned : Pruned now before after) (distinct : Dict.Distinct before)
    {workRef : String} {row : WorkClaim τ} (found : Dict.get? after workRef = some row) :
    Dict.get? before workRef = some row :=
  Dict.get?_of_mem distinct (pruned.sublist.subset (Dict.mem_of_get? found))

theorem pruned_holder (claims : ClaimRegistry τ) (workRef : String) :
    Pruned now claims (claims.holder workRef now).2 := by
  unfold ClaimRegistry.holder
  cases found : Dict.get? claims workRef with
  | none => exact .refl _
  | some claim =>
      dsimp only
      split_ifs with expired
      · refine ⟨List.filter_sublist, fun other row held => ?_⟩
        rw [get?_erased]
        by_cases same : other = workRef
        · subst same
          rw [found] at held
          cases held
          exact .inr expired
        · rw [if_neg same]
          exact .inl held
      · exact .refl _

theorem pruned_firstFree (sessionId : String) (claims : ClaimRegistry τ)
    (works : List CurrentWork) :
    Pruned now claims (firstFree sessionId now claims works).2 := by
  induction works generalizing claims with
  | nil => exact .refl _
  | cons work works ih =>
      unfold firstFree
      dsimp only
      split_ifs with free
      · exact pruned_holder _ _
      · exact (pruned_holder _ _).trans (ih _)

variable {store : Store} {readyAt : String → WithTop τ} {render : RenderInput → String}

theorem pruned_discoverRoles (sessionId : String) (claims : ClaimRegistry τ)
    (roles : List String) :
    ∃ after, (discoverRoles store readyAt render sessionId now (some claims) roles).2 =
      some after ∧ Pruned now claims after := by
  induction roles generalizing claims with
  | nil => exact ⟨claims, rfl, .refl _⟩
  | cons role roles ih =>
      have first := @pruned_firstFree _ _ now sessionId claims
        (sortBy (fifo readyAt) (readyFor store (some role)))
      unfold discoverRoles
      cases offered : (workNextUnclaimed store readyAt render sessionId now (some claims)
          role).1 with
      | some contract =>
          dsimp only
          rw [offered]
          exact ⟨_, rfl, first⟩
      | none =>
          obtain ⟨after, kept, rest⟩ := ih (firstFree sessionId now claims
            (sortBy (fifo readyAt) (readyFor store (some role)))).2
          dsimp only
          rw [offered]
          exact ⟨after, kept, first.trans rest⟩

/-- Discovery takes nothing from the registry but expired rows. -/
theorem pruned_workNextForParticipant [Zero τ] (registry : Dict String ParticipantSession)
    (sessionId : String) (claims : ClaimRegistry τ) (asked : Option τ) :
    ∃ after, (workNextForParticipant store readyAt render registry sessionId (some claims) asked).2 =
      some after ∧ Pruned (asked.getD 0) claims after := by
  unfold workNextForParticipant
  cases Dict.get? registry sessionId with
  | none => exact ⟨claims, rfl, .refl _⟩
  | some session =>
      dsimp only
      split_ifs with roleless unready apart
      · exact ⟨claims, rfl, .refl _⟩
      · exact ⟨claims, rfl, .refl _⟩
      · exact ⟨claims, rfl, .refl _⟩
      · obtain ⟨after, kept, pruned⟩ := @pruned_discoverRoles _ _ (asked.getD 0) store readyAt render
          sessionId claims (sorted session.roles)
        cases (discoverRoles store readyAt render sessionId (asked.getD 0) (some claims)
            (sorted session.roles)).1 with
        | some contract => exact ⟨after, kept, pruned⟩
        | none => exact ⟨after, kept, pruned⟩

end Pruning

/-! ## The registry against what was leased -/

section Kept

variable {τ : Type} [LinearOrder τ] [Add τ] [Zero τ] {past : Dealings τ} {now : τ}
  {claims after : ClaimRegistry τ} {workRef sessionId : String}

/-- The rows are leases of the past; a lease without its row had run out at a request. -/
structure Booked (past : Dealings τ) (claims : ClaimRegistry τ) : Prop where
  distinct : Dict.Distinct claims
  leased : ∀ workRef row, Dict.get? claims workRef = some row →
    leaseOf past workRef = some ⟨row.sessionId, row.expiresAt⟩
  lapsed : ∀ workRef lease, leaseOf past workRef = some lease → Dict.get? claims workRef = none →
    ∃ entry ∈ past, ∃ time ∈ entry.1.time?, lease.expiresAt ≤ time

/-- The holder is the session whose lease has not run out. -/
theorem Booked.holder (booked : Booked past claims) (timely : Timely past now)
    (workRef : String) : (claims.holder workRef now).1 = liveHolder past workRef now := by
  unfold ClaimRegistry.holder liveHolder
  cases found : Dict.get? claims workRef with
  | some row =>
      rw [booked.leased workRef row found, Option.filter_some]
      by_cases expired : row.expiresAt ≤ now
      · simp [expired, not_lt.mpr expired]
      · simp [expired, not_le.mp expired]
  | none =>
      cases leased : leaseOf past workRef with
      | none => rfl
      | some lease =>
          obtain ⟨entry, dealt, time, asked, out⟩ := booked.lapsed workRef lease leased found
          have ended : lease.expiresAt ≤ now := out.trans (timely entry dealt time asked)
          rw [Option.filter_some, decide_eq_false (not_lt.mpr ended)]
          rfl

/-- A request that takes only expired rows and leases nothing. -/
theorem Booked.prune (booked : Booked past claims) {entry : PlaneRequest τ × PlaneReply}
    (asked : entry.1.time? = some now)
    (unleased : ∀ workRef, leaseOf (entry :: past) workRef = leaseOf past workRef)
    (pruned : Pruned now claims after) : Booked (entry :: past) after where
  distinct := pruned.distinct booked.distinct
  leased workRef row found := by
    rw [unleased]
    exact booked.leased workRef row (pruned.get? booked.distinct found)
  lapsed workRef lease leased gone := by
    rw [unleased] at leased
    cases found : Dict.get? claims workRef with
    | none =>
        obtain ⟨old, dealt, out⟩ := booked.lapsed workRef lease leased found
        exact ⟨old, List.mem_cons_of_mem _ dealt, out⟩
    | some row =>
        have same := booked.leased workRef row found
        rw [leased] at same
        cases same
        rcases pruned.expired workRef row found with kept | expired
        · rw [gone] at kept
          cases kept
        · exact ⟨entry, List.mem_cons_self, now, asked, expired⟩

/-- A request that touches no claim. -/
theorem Booked.pass (booked : Booked past claims) {entry : PlaneRequest τ × PlaneReply}
    (unleased : ∀ workRef, leaseOf (entry :: past) workRef = leaseOf past workRef) :
    Booked (entry :: past) claims where
  distinct := booked.distinct
  leased workRef row found := (unleased workRef).trans (booked.leased workRef row found)
  lapsed workRef lease leased gone := by
    obtain ⟨old, dealt, out⟩ := booked.lapsed workRef lease (unleased workRef ▸ leased) gone
    exact ⟨old, List.mem_cons_of_mem _ dealt, out⟩

theorem Booked.claim (booked : Booked past claims) (ttl : τ) :
    Booked ((.claim workRef sessionId now ttl,
      .granted (claims.claim workRef sessionId now ttl).1) :: past)
      (claims.claim workRef sessionId now ttl).2 := by
  have pruned := @pruned_holder _ _ now claims workRef
  unfold ClaimRegistry.claim
  dsimp only
  by_cases free : (claims.holder workRef now).1.all (· = sessionId) = true
  · rw [if_pos free]
    have middle : Booked ((.holder workRef now, .done) :: past) (claims.holder workRef now).2 :=
      booked.prune rfl (fun _ => rfl) pruned
    have leases : ∀ other, leaseOf ((.claim workRef sessionId now ttl, .granted true) :: past)
        other = if workRef = other then some ⟨sessionId, now + ttl⟩ else leaseOf past other :=
      fun _ => rfl
    refine ⟨Dict.distinct_set middle.distinct _ _, fun other row found => ?_,
      fun other lease leased gone => ?_⟩
    · rw [leases]
      by_cases same : other = workRef
      · subst same
        rw [Dict.get?_set_self] at found
        cases found
        rw [if_pos rfl]
      · rw [Dict.get?_set_ne _ _ same] at found
        rw [if_neg (Ne.symm same)]
        exact middle.leased other row found
    · have different : other ≠ workRef := by
        rintro rfl
        rw [Dict.get?_set_self] at gone
        cases gone
      rw [leases, if_neg (Ne.symm different)] at leased
      rw [Dict.get?_set_ne _ _ different] at gone
      obtain ⟨entry, dealt, time, asked, out⟩ := middle.lapsed other lease leased gone
      rcases List.mem_cons.mp dealt with rfl | earlier
      · exact ⟨_, List.mem_cons_self, time, asked, out⟩
      · exact ⟨entry, List.mem_cons_of_mem _ earlier, time, asked, out⟩
  · rw [if_neg free]
    exact booked.prune rfl (fun _ => rfl) pruned

theorem Booked.release (booked : Booked past claims) :
    Booked ((.release workRef sessionId, .released (claims.release workRef sessionId).1) :: past)
      (claims.release workRef sessionId).2 := by
  have leases : ∀ reply other,
      leaseOf (((.release workRef sessionId : PlaneRequest τ), reply) :: past) other =
        if workRef = other then (leaseOf past other).filter (·.sessionId ≠ sessionId)
        else leaseOf past other := fun _ _ => rfl
  -- a lease that is left was one before, and its row is where it was
  have stays : (∀ row, Dict.get? claims workRef = some row → row.sessionId ≠ sessionId) →
      ∀ reply, Booked (((.release workRef sessionId : PlaneRequest τ), reply) :: past) claims := by
    intro others reply
    refine ⟨booked.distinct, fun other row found => ?_, fun other lease leased gone => ?_⟩
    · have own := booked.leased other row found
      rw [leases]
      split_ifs with same
      · subst same
        rw [own, Option.filter_some, decide_eq_true (others row found)]
        rfl
      · exact own
    · have before : leaseOf past other = some lease := by
        rw [leases] at leased
        split_ifs at leased
        · exact (Option.filter_eq_some_iff.mp leased).1
        · exact leased
      obtain ⟨entry, dealt, out⟩ := booked.lapsed other lease before gone
      exact ⟨entry, List.mem_cons_of_mem _ dealt, out⟩
  unfold ClaimRegistry.release
  cases found : Dict.get? claims workRef with
  | none => exact stays (fun row held => by rw [found] at held; cases held) _
  | some claim =>
      dsimp only
      by_cases own : claim.sessionId = sessionId
      · rw [if_pos own]
        refine ⟨List.Nodup.sublist (List.filter_sublist.map _) booked.distinct,
          fun other row held => ?_, fun other lease leased gone => ?_⟩
        · rw [get?_erased] at held
          split_ifs at held with same
          rw [leases, if_neg (Ne.symm same)]
          exact booked.leased other row held
        · rw [get?_erased] at gone
          rw [leases] at leased
          by_cases same : workRef = other
          · subst same
            rw [if_pos rfl, booked.leased workRef claim found, Option.filter_some,
              decide_eq_false (not_not.mpr own)] at leased
            cases leased
          · rw [if_neg same] at leased
            rw [if_neg (Ne.symm same)] at gone
            obtain ⟨entry, dealt, out⟩ := booked.lapsed other lease leased gone
            exact ⟨entry, List.mem_cons_of_mem _ dealt, out⟩
      · rw [if_neg own]
        exact stays (fun row held => by rw [found] at held; cases held; exact own) _

omit [LinearOrder τ] [Add τ] [Zero τ] in
theorem mem_freed (distinct : Dict.Distinct claims) :
    workRef ∈ (claims.releaseSession sessionId).1 ↔
      ∃ row, Dict.get? claims workRef = some row ∧ row.sessionId = sessionId := by
  unfold ClaimRegistry.releaseSession
  simp only [List.mem_map, List.mem_filter, decide_eq_true_eq]
  constructor
  · rintro ⟨⟨_, row⟩, ⟨held, own⟩, rfl⟩
    exact ⟨row, Dict.get?_of_mem distinct held, own⟩
  · rintro ⟨row, found, own⟩
    exact ⟨(workRef, row), ⟨Dict.mem_of_get? found, own⟩, rfl⟩

omit [LinearOrder τ] [Add τ] [Zero τ] in
theorem get?_releaseSession (distinct : Dict.Distinct claims) (workRef : String) :
    Dict.get? (claims.releaseSession sessionId).2 workRef =
      (Dict.get? claims workRef).filter (·.sessionId ≠ sessionId) := by
  have kept : ∀ row, (workRef, row) ∈ (claims.releaseSession sessionId).2 ↔
      (workRef, row) ∈ claims ∧ workRef ∉ (claims.releaseSession sessionId).1 := by
    intro row
    unfold ClaimRegistry.releaseSession
    simp only [List.mem_filter, Bool.not_eq_true', List.contains_eq_mem, decide_eq_false_iff_not]
  have still : Dict.Distinct (claims.releaseSession sessionId).2 :=
    List.Nodup.sublist (List.filter_sublist.map _) distinct
  refine Option.ext fun row => ?_
  rw [← Dict.mem_iff_get? still, kept, Dict.mem_iff_get? distinct, mem_freed distinct,
    Option.filter_eq_some_iff, decide_eq_true_iff]
  refine and_congr_right fun found => ?_
  simp [found]

theorem Booked.releaseSession (booked : Booked past claims) :
    Booked ((.releaseSession sessionId, .freed (claims.releaseSession sessionId).1) :: past)
      (claims.releaseSession sessionId).2 := by
  have leases : ∀ other, leaseOf ((.releaseSession sessionId,
      .freed (claims.releaseSession sessionId).1) :: past) other =
        (leaseOf past other).filter (·.sessionId ≠ sessionId) := fun _ => rfl
  refine ⟨List.Nodup.sublist (List.filter_sublist.map _) booked.distinct,
    fun other row held => ?_, fun other lease leased gone => ?_⟩
  · rw [get?_releaseSession booked.distinct, Option.filter_eq_some_iff] at held
    rw [leases, booked.leased other row held.1, Option.filter_some, held.2]
    rfl
  · rw [leases, Option.filter_eq_some_iff] at leased
    rw [get?_releaseSession booked.distinct] at gone
    cases found : Dict.get? claims other with
    | none =>
        obtain ⟨entry, dealt, out⟩ := booked.lapsed other lease leased.1 found
        exact ⟨entry, List.mem_cons_of_mem _ dealt, out⟩
    | some row =>
        have same := booked.leased other row found
        rw [leased.1] at same
        cases same
        rw [found, Option.filter_some, leased.2] at gone
        cases gone

/-- Whoever holds a live lease has its row. -/
theorem Booked.row_of_live (booked : Booked past claims) (timely : Timely past now)
    (live : liveHolder past workRef now = some sessionId) :
    ∃ row, Dict.get? claims workRef = some row ∧ row.sessionId = sessionId := by
  rw [← booked.holder timely] at live
  unfold ClaimRegistry.holder at live
  cases found : Dict.get? claims workRef with
  | none =>
      rw [found] at live
      cases live
  | some row =>
      rw [found] at live
      dsimp only at live
      split_ifs at live
      exact ⟨row, rfl, Option.some.inj live⟩

end Kept

/-! ## What a request is answered -/

section Answers

variable {τ : Type} [LinearOrder τ] [Add τ] [Zero τ] {render : RenderInput → String}
  {start plane : Coordination τ} {past : Dealings τ}

/-- Every step keeps the registry in line with what was leased. -/
theorem Booked.serve (booked : Booked past plane.claims) (request : PlaneRequest τ) :
    Booked ((request, (plane.serve render request).1) :: past)
      (plane.serve render request).2.claims := by
  cases request with
  | holder workRef now => exact booked.prune rfl (fun _ => rfl) (pruned_holder _ _)
  | claim workRef sessionId now ttl => exact booked.claim ttl
  | release workRef sessionId => exact booked.release
  | releaseSession sessionId => exact booked.releaseSession
  | discover sessionId now =>
      obtain ⟨after, kept, pruned⟩ := @pruned_workNextForParticipant _ _ plane.store plane.readyAt
        render _ plane.sessions sessionId plane.claims now
      have became : (plane.serve render (.discover sessionId now)).2.claims = after := by
        unfold Coordination.serve
        dsimp only
        rw [kept]
        rfl
      rw [became]
      exact booked.prune rfl (fun _ => rfl) pruned
  | register _ | drop _ | subscribe _ | emit _ _ | drain _ | advance _ _ =>
      exact booked.pass fun _ => rfl

theorem Served.booked (served : Served render start past plane) (unclaimed : start.claims = []) :
    Booked past plane.claims := by
  induction served with
  | start =>
      rw [unclaimed]
      exact ⟨List.nodup_nil, fun _ _ found => (by cases found), fun _ _ leased => (by cases leased)⟩
  | request _ request _ ih => exact ih.serve request

/-- The session has the last lease on the Work that was not given back, live or not. -/
def LeasedBy (past : Dealings τ) (workRef sessionId : String) : Prop :=
  ∃ lease, leaseOf past workRef = some lease ∧ lease.sessionId = sessionId

/-- At no time from here on does the session hold the Work unless `freed`. -/
def FreesLive (past : Dealings τ) (workRef sessionId : String) (freed : Prop) : Prop :=
  ∀ now, Timely past now → liveHolder past workRef now = some sessionId → freed

/-- What each request is answered, from the leases alone: an expired row that is still there, or
is not, makes no difference to a claim, to a holder or to a discovery. -/
def AnsweredBy (render : RenderInput → String) (past : Dealings τ) (plane : Coordination τ) :
    PlaneRequest τ → PlaneReply → Prop
  | .holder workRef now, reply => reply = .held (liveHolder past workRef now)
  | .claim workRef sessionId now _, reply =>
      reply = .granted ((liveHolder past workRef now).all (· = sessionId))
  | .release workRef sessionId, reply => ∃ removed, reply = .released removed ∧
      (removed = true → LeasedBy past workRef sessionId) ∧
      FreesLive past workRef sessionId (removed = true)
  | .releaseSession sessionId, reply => ∃ works, reply = .freed works ∧ works.Nodup ∧
      ∀ workRef, (workRef ∈ works → LeasedBy past workRef sessionId) ∧
        FreesLive past workRef sessionId (workRef ∈ works)
  | .discover sessionId now, reply => ∃ discovery, reply = .offered discovery ∧
      (∀ contract, discovery.work = some contract →
        (liveHolder past contract.work.workRef (now.getD 0)).all (· = sessionId) = true) ∧
      ∀ rows : ClaimRegistry τ,
        (∀ workRef, (rows.holder workRef (now.getD 0)).1 =
          liveHolder past workRef (now.getD 0)) →
        discovery = (workNextForParticipant plane.store plane.readyAt render plane.sessions
          sessionId (some rows) now).1
  | _, _ => True

theorem Booked.discover (booked : Booked past plane.claims) {sessionId : String}
    {now : Option τ} (timely : Timely past (now.getD 0)) :
    AnsweredBy render past plane (.discover sessionId now)
      (plane.serve render (.discover sessionId now)).1 := by
  refine ⟨_, rfl, fun contract offered => ?_, fun rows agree => ?_⟩
  · cases reachable : Dict.get? plane.sessions sessionId with
    | none =>
        unfold workNextForParticipant at offered
        rw [reachable] at offered
        cases offered
    | some session =>
        rw [(workNextForParticipant_offer reachable).1] at offered
        obtain ⟨role, _, own, _⟩ := offerOf_first offered
        obtain ⟨work, plan, least, _, made⟩ := workNextUnclaimed_first own
        have free := least.1.1.free
        rw [made, ← booked.holder timely]
        exact free
  · have same : SameHolders (now.getD 0) rows plane.claims := fun workRef =>
      (booked.holder timely workRef).trans (agree workRef).symm
    cases reachable : Dict.get? plane.sessions sessionId with
    | none =>
        unfold workNextForParticipant
        rw [reachable]
    | some session =>
        refine workNextForParticipant_congr ?_ reachable
        unfold offerOf
        refine congrArg (fun offer : String → Option WorkContract =>
          (sorted session.roles).findSome? offer) (funext fun role => ?_)
        exact (workNextUnclaimed_same same role).1

/-- In a run at times that do not go back, claims, holders and discoveries are answered by the
leases that were granted and not given back: a live lease keeps every other session away, and an
expired one keeps nobody away. -/
theorem answered_from_leases (served : Served render start past plane)
    (unclaimed : start.claims = []) (request : PlaneRequest τ)
    (timely : ∀ now ∈ request.time?, Timely past now) :
    AnsweredBy render past plane request (plane.serve render request).1 := by
  have booked := served.booked unclaimed
  cases request with
  | holder workRef now => exact congrArg PlaneReply.held (booked.holder (timely now rfl) workRef)
  | claim workRef sessionId now ttl =>
      have granted : (plane.claims.claim workRef sessionId now ttl).1 =
          (liveHolder past workRef now).all (· = sessionId) := by
        rw [← booked.holder (timely now rfl)]
        unfold ClaimRegistry.claim
        dsimp only
        split_ifs with free
        · exact free.symm
        · exact (Bool.eq_false_iff.mpr free).symm
      exact congrArg PlaneReply.granted granted
  | release workRef sessionId =>
      refine ⟨_, rfl, fun removed => ?_, fun now later live => ?_⟩
      · unfold ClaimRegistry.release at removed
        cases found : Dict.get? plane.claims workRef with
        | none =>
            rw [found] at removed
            cases removed
        | some row =>
            rw [found] at removed
            dsimp only at removed
            split_ifs at removed with own
            exact ⟨_, booked.leased workRef row found, own⟩
      · obtain ⟨row, found, own⟩ := booked.row_of_live later live
        unfold ClaimRegistry.release
        rw [found]
        dsimp only
        rw [if_pos own]
  | releaseSession sessionId =>
      refine ⟨_, rfl, List.Nodup.sublist (List.filter_sublist.map _) booked.distinct,
        fun workRef => ⟨fun listed => ?_, fun now later live => ?_⟩⟩
      · obtain ⟨row, found, own⟩ := (mem_freed booked.distinct).mp listed
        exact ⟨_, booked.leased workRef row found, own⟩
      · exact (mem_freed booked.distinct).mpr (booked.row_of_live later live)
  | discover sessionId now => exact booked.discover (timely _ rfl)
  | register _ | drop _ | subscribe _ | emit _ _ | drain _ | advance _ _ => exact trivial

end Answers

namespace FellSilent

def start : Coordination Nat where
  readyAt := fun _ => ⊤

def render : RenderInput → String := (·.workRef)

/-- The holder of a lease falls silent, and another session is refused before the lease ends. -/
def past : Dealings Nat :=
  [(.claim "work" "other" 110 30, .granted false), (.claim "work" "silent" 100 30, .granted true)]

def held : Coordination Nat :=
  { start with claims := [("work",
    { workRef := "work", sessionId := "silent", claimedAt := 100, expiresAt := 130 })] }

theorem past_served : Served render start past held := by
  have first : Served render start [(.claim "work" "silent" 100 30, .granted true)] held :=
    .request .start (.claim "work" "silent" 100 30) fun _ _ _ dealt => by cases dealt
  refine .request first (.claim "work" "other" 110 30) ?_
  rintro now asked entry dealt earlier before
  cases asked
  rw [List.mem_singleton.mp dealt] at before
  cases before
  decide

/-- Once the lease has ended the other session has the work. -/
theorem silent_expires : AnsweredBy render past held (.claim "work" "other" 130 30) (.granted true) :=
  answered_from_leases past_served rfl (.claim "work" "other" 130 30) (by
    rintro now asked entry dealt earlier before
    cases asked
    rcases List.mem_pair.mp dealt with rfl | rfl <;> cases before <;> decide)

end FellSilent

end Kawa
