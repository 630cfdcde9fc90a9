import Kawa.Leases

/-!
Wakes as a mailbox.  From the time a session joins, by subscribing or by a first drain, its drains
together with what is still pending are the hints that were emitted for it, in their order and
once each, whatever else the plane serves in between.
-/

namespace Kawa

section Mailbox

variable {τ : Type}

/-- The session has subscribed or drained, which opens its box too. -/
def joined : Dealings τ → String → Bool
  | [], _ => false
  | (.subscribe opened, _) :: past, sessionId => opened = sessionId || joined past sessionId
  | (.drain opened, _) :: past, sessionId => opened = sessionId || joined past sessionId
  | _ :: past, sessionId => joined past sessionId

/-- The hints for a session since it joined, the first one first. -/
def wakesOf : Dealings τ → String → List WakeHint
  | [], _ => []
  | (.emit woken hint, _) :: past, sessionId =>
      if woken = sessionId ∧ joined past sessionId = true then wakesOf past sessionId ++ [hint]
      else wakesOf past sessionId
  | _ :: past, sessionId => wakesOf past sessionId

/-- What the session has drained so far, in order. -/
def drainedOf : Dealings τ → String → List WakeHint
  | [], _ => []
  | (.drain opened, .drained hints) :: past, sessionId =>
      if opened = sessionId then drainedOf past sessionId ++ hints else drainedOf past sessionId
  | _ :: past, sessionId => drainedOf past sessionId

/-- A session that has not joined has been sent nothing. -/
theorem wakesOf_unjoined {past : Dealings τ} {sessionId : String}
    (unjoined : joined past sessionId = false) : wakesOf past sessionId = [] := by
  induction past with
  | nil => rfl
  | cons entry past ih =>
      obtain ⟨request, reply⟩ := entry
      cases request with
      | subscribe opened =>
          unfold joined at unjoined
          exact ih (Bool.or_eq_false_iff.mp unjoined).2
      | drain opened =>
          unfold joined at unjoined
          exact ih (Bool.or_eq_false_iff.mp unjoined).2
      | emit woken hint =>
          have before : joined past sessionId = false := unjoined
          unfold wakesOf
          rw [if_neg fun both => absurd both.2 (by rw [before]; exact Bool.false_ne_true)]
          exact ih before
      | register | drop | holder | claim | release | releaseSession | discover | advance =>
          exact ih unjoined

/-- The box of every session is what was sent to it and not drained yet. -/
structure Mailed (past : Dealings τ) (bus : WakeBus) : Prop where
  opened : ∀ sessionId, (Dict.get? bus sessionId).isSome = joined past sessionId
  pending : ∀ sessionId,
    drainedOf past sessionId ++ (Dict.get? bus sessionId).getD [] = wakesOf past sessionId

/-! ## One request -/

section Requests

variable {past : Dealings τ} {bus : WakeBus} {reply : PlaneReply}

theorem Mailed.subscribe (mailed : Mailed past bus) (opened : String) :
    Mailed ((.subscribe opened, reply) :: past) (bus.subscribe opened) := by
  have same : ∀ sessionId, (Dict.get? (bus.subscribe opened) sessionId).getD [] =
      (Dict.get? bus sessionId).getD [] := by
    intro sessionId
    unfold WakeBus.subscribe
    split_ifs with known
    · rfl
    · by_cases own : sessionId = opened
      · subst own
        rw [Dict.get?_set_self, Option.not_isSome_iff_eq_none.mp known]
        rfl
      · rw [Dict.get?_set_ne _ _ own]
  refine ⟨fun sessionId => ?_, fun sessionId => ?_⟩
  · unfold joined
    rw [← mailed.opened]
    unfold WakeBus.subscribe
    by_cases own : opened = sessionId
    · subst own
      split_ifs with known
      · simp [known]
      · simp
    · split_ifs with known
      · simp [own]
      · rw [Dict.get?_set_ne _ _ (Ne.symm own)]
        simp [own]
  · rw [same]
    exact mailed.pending sessionId

theorem Mailed.emit (mailed : Mailed past bus) (woken : String) (hint : WakeHint) :
    Mailed ((.emit woken hint, reply) :: past) (bus.emit woken hint) := by
  unfold WakeBus.emit
  cases found : Dict.get? bus woken with
  | none =>
      -- nobody has joined under the id, and the hint is dropped
      have apart : joined past woken = false := by rw [← mailed.opened, found]; rfl
      refine ⟨mailed.opened, fun sessionId => ?_⟩
      unfold wakesOf
      by_cases own : woken = sessionId
      · subst own
        rw [if_neg fun both => absurd both.2 (by rw [apart]; exact Bool.false_ne_true)]
        exact mailed.pending woken
      · rw [if_neg fun both => own both.1]
        exact mailed.pending sessionId
  | some box =>
      have known : joined past woken = true := by rw [← mailed.opened, found]; rfl
      refine ⟨fun sessionId => ?_, fun sessionId => ?_⟩
      · by_cases own : woken = sessionId
        · subst own
          dsimp only
          rw [Dict.get?_set_self]
          exact known.symm
        · dsimp only
          rw [Dict.get?_set_ne _ _ (Ne.symm own)]
          exact mailed.opened sessionId
      · unfold wakesOf
        dsimp only
        by_cases own : woken = sessionId
        · subst own
          rw [if_pos ⟨rfl, known⟩, Dict.get?_set_self, ← mailed.pending woken, found,
            List.append_assoc]
          rfl
        · rw [if_neg fun both => own both.1, Dict.get?_set_ne _ _ (Ne.symm own)]
          exact mailed.pending sessionId

theorem Mailed.drain (mailed : Mailed past bus) (opened : String) :
    Mailed ((.drain opened, .drained (bus.drain opened).1) :: past) (bus.drain opened).2 := by
  unfold WakeBus.drain
  refine ⟨fun sessionId => ?_, fun sessionId => ?_⟩
  · unfold joined
    dsimp only
    by_cases own : opened = sessionId
    · subst own
      simp
    · rw [Dict.get?_set_ne _ _ (Ne.symm own), mailed.opened]
      simp [own]
  · unfold drainedOf wakesOf
    dsimp only
    by_cases own : opened = sessionId
    · subst own
      rw [if_pos rfl, Dict.get?_set_self, ← mailed.pending opened]
      exact List.append_nil _
    · rw [if_neg own, Dict.get?_set_ne _ _ (Ne.symm own)]
      exact mailed.pending sessionId

end Requests

end Mailbox

/-! ## Runs -/

section Runs

variable {τ : Type} [LinearOrder τ] [Add τ] [Zero τ] {render : RenderInput → String}
  {start plane : Coordination τ} {past : Dealings τ}

theorem Served.mailed (served : Served render start past plane) (silent : start.wakes = []) :
    Mailed past plane.wakes := by
  induction served with
  | start =>
      rw [silent]
      exact ⟨fun _ => rfl, fun _ => rfl⟩
  | request served request timely ih =>
      cases request with
      | subscribe opened => exact ih.subscribe opened
      | emit woken hint => exact ih.emit woken hint
      | drain opened => exact ih.drain opened
      | register | drop | holder | claim | release | releaseSession | discover | advance =>
          exact ⟨ih.opened, ih.pending⟩

end Runs

namespace WokenOnce

def start : Coordination Nat where
  readyAt := fun _ => ⊤

def hint : WakeHint := { workRef := "work", reason := .workEligible }

/-- A hint before the session joins, and one after it. -/
def past : Dealings Nat :=
  [(.emit "session" hint, .done), (.subscribe "session", .done), (.emit "session" hint, .done)]

theorem past_served : Served (·.workRef) start past
    { start with wakes := [("session", [hint])] } :=
  .request (.request (.request .start (.emit "session" hint) fun _ asked => by cases asked)
    (.subscribe "session") fun _ asked => by cases asked) (.emit "session" hint)
    fun _ asked => by cases asked

end WokenOnce

end Kawa
