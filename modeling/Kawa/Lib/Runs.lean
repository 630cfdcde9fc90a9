import Mathlib

/-! Runs of a labelled step relation and the induction rule for what they preserve. -/

section Runs

variable {State Label : Type}

/-- `Run step start labels final`: the labels take `start` to `final`, one step each. -/
inductive Run (step : State → Label → State → Prop) : State → List Label → State → Prop
  | nil (state : State) : Run step state [] state
  | cons {state middle final : State} {label : Label} {labels : List Label} :
      step state label middle → Run step middle labels final → Run step state (label :: labels) final

namespace Run

variable {step : State → Label → State → Prop}

/-- The steps whose condition on the state before them holds. -/
def when (condition : State → Label → Prop) (step : State → Label → State → Prop) :
    State → Label → State → Prop :=
  fun state label next => condition state label ∧ step state label next

theorem append {start middle final : State} {first second : List Label}
    (left : Run step start first middle) (right : Run step middle second final) :
    Run step start (first ++ second) final := by
  induction left with
  | nil _ => exact right
  | cons head _ ih => exact .cons head (ih right)

/-- What every step preserves holds at the end of a run. -/
theorem invariant (Inv : State → Prop)
    (preserved : ∀ state label next, Inv state → step state label next → Inv next)
    {start final : State} {labels : List Label} (holds : Inv start)
    (run : Run step start labels final) : Inv final := by
  induction run with
  | nil _ => exact holds
  | cons first _ ih => exact ih (preserved _ _ _ holds first)

/-- What every step preserves about the labels so far, newest first. -/
theorem history (Inv : List Label → State → Prop)
    (preserved : ∀ past state label next, Inv past state → step state label next →
      Inv (label :: past) next)
    {past : List Label} {start final : State} {labels : List Label} (holds : Inv past start)
    (run : Run step start labels final) : Inv (labels.reverse ++ past) final := by
  induction run generalizing past with
  | nil _ => exact holds
  | cons first _ ih =>
      rw [List.reverse_cons, List.append_assoc]
      exact ih (preserved _ _ _ _ holds first)

theorem mono {wider : State → Label → State → Prop}
    (included : ∀ state label next, step state label next → wider state label next)
    {start final : State} {labels : List Label} (run : Run step start labels final) :
    Run wider start labels final := by
  induction run with
  | nil state => exact .nil state
  | cons first _ ih => exact .cons (included _ _ _ first) ih

end Run

end Runs
