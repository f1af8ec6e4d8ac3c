import Mathlib.Tactic.Common

/-!
# Runs of a deterministic system driven by actions

`step` gives the state after an action, or `none` when the action is not possible.
`Run step admits start` are the states reached from `start` by steps that all meet
`admits`; `path` and `admittedPath` follow a given list of actions.
-/

namespace CassiOS.Support.TransitionSystem

set_option autoImplicit false

variable {State Action : Type*}

inductive Run (step : State → Action → Option State) (admits : State → Action → Prop)
    (start : State) : State → Prop
  | start : Run step admits start start
  | step {s : State} {action : Action} {s' : State} : Run step admits start s →
      admits s action → step s action = some s' → Run step admits start s'

def anyAction (_ : State) (_ : Action) : Prop := True

section Rules

variable {step : State → Action → Option State} {admits admits' : State → Action → Prop}
  {start s t : State}

/-- What holds at the start and is kept by every admitted step holds in every state. -/
theorem Run.invariant (Inv : State → Prop) (run : Run step admits start s) (first : Inv start)
    (kept : ∀ s action s', Inv s → admits s action → step s action = some s' → Inv s') :
    Inv s := by
  induction run with
  | start => exact first
  | step _ admitted next ih => exact kept _ _ _ ih admitted next

theorem Run.weaken (run : Run step admits start s)
    (wider : ∀ s action, admits s action → admits' s action) : Run step admits' start s := by
  induction run with
  | start => exact .start
  | step _ admitted next ih => exact .step ih (wider _ _ admitted) next

theorem Run.trans (first : Run step admits start s) (second : Run step admits s t) :
    Run step admits start t := by
  induction second with
  | start => exact first
  | step _ admitted next ih => exact .step ih admitted next

def path (step : State → Action → Option State) : State → List Action → Option State
  | s, [] => some s
  | s, action :: rest => (step s action).bind fun s' => path step s' rest

theorem run_of_path {actions : List Action}
    (allowed : ∀ s, ∀ action ∈ actions, admits s action)
    (reached : path step s actions = some t) : Run step admits s t := by
  induction actions generalizing s with
  | nil =>
      obtain rfl : s = t := Option.some.inj reached
      exact .start
  | cons action rest ih =>
      obtain ⟨s', next, onward⟩ := Option.bind_eq_some_iff.mp reached
      have head : admits s action := allowed s action List.mem_cons_self
      exact Run.trans (.step .start head next)
        (ih (fun s other member => allowed s other (List.mem_cons_of_mem _ member)) onward)

def admittedPath (step : State → Action → Option State) (admits : State → Action → Prop)
    [∀ s action, Decidable (admits s action)] : State → List Action → Option State
  | s, [] => some s
  | s, action :: rest =>
      if admits s action then
        (step s action).bind fun s' => admittedPath step admits s' rest
      else none

theorem run_of_admitted_path [∀ s action, Decidable (admits s action)]
    {actions : List Action} (reached : admittedPath step admits s actions = some t) :
    Run step admits s t := by
  induction actions generalizing s with
  | nil =>
      obtain rfl : s = t := Option.some.inj reached
      exact .start
  | cons action rest ih =>
      by_cases admitted : admits s action
      · rw [admittedPath, if_pos admitted] at reached
        obtain ⟨s', next, onward⟩ := Option.bind_eq_some_iff.mp reached
        exact Run.trans (.step .start admitted next) (ih onward)
      · rw [admittedPath, if_neg admitted] at reached
        cases reached

end Rules

end CassiOS.Support.TransitionSystem
