import Mathlib.Logic.Basic

/-! Machines whose steps are chosen by a schedule, and invariants over their runs. -/

set_option autoImplicit false

namespace Foundation

variable {σ α : Type} (step : σ → α → Option σ)

/-- The state after a schedule, if each of its actions can be taken. -/
def runs : List α → σ → Option σ
  | [], state => some state
  | action :: rest, state => (step state action).bind (runs rest)

/-- Every action of a schedule is taken in a state that meets a condition. -/
def Meets (condition : σ → α → Prop) : List α → σ → Prop
  | [], _ => True
  | action :: rest, state =>
    condition state action ∧ ∀ next, step state action = some next → Meets condition rest next

variable {step}

theorem runs_cons {action : α} {rest : List α} {state final : σ}
    (done : runs step (action :: rest) state = some final) :
    ∃ next, step state action = some next ∧ runs step rest next = some final := by
  rw [runs, Option.bind_eq_some_iff] at done
  exact done

theorem runs_append (first second : List α) (state : σ) :
    runs step (first ++ second) state = (runs step first state).bind (runs step second) := by
  induction first generalizing state with
  | nil => rfl
  | cons action rest ih =>
    rw [List.cons_append, runs, runs, Option.bind_assoc]
    exact congrArg _ (funext ih)

theorem meets_cons_none {condition : σ → α → Prop} {action : α} {rest : List α} {state : σ}
    (stuck : step state action = none) : Meets step condition (action :: rest) state ↔
      condition state action := by
  simp [Meets, stuck]

theorem meets_cons_some {condition : σ → α → Prop} {action : α} {rest : List α} {state next : σ}
    (stepped : step state action = some next) :
    Meets step condition (action :: rest) state ↔
      condition state action ∧ Meets step condition rest next := by
  simp [Meets, stepped]

instance decidableMeets {condition : σ → α → Prop}
    [∀ state action, Decidable (condition state action)] :
    ∀ (actions : List α) (state : σ), Decidable (Meets step condition actions state)
  | [], _ => isTrue trivial
  | action :: rest, state =>
    match stepped : step state action with
    | none => decidable_of_iff _ (meets_cons_none stepped).symm
    | some next =>
      have := @decidableMeets condition _ rest next
      decidable_of_iff _ (meets_cons_some stepped).symm

theorem runs_meets {condition : σ → α → Prop} {invariant : σ → Prop}
    (kept : ∀ {state action next}, invariant state → condition state action →
      step state action = some next →
      invariant next)
    {actions : List α} {state final : σ} (start : invariant state)
    (meets : Meets step condition actions state)
    (done : runs step actions state = some final) : invariant final := by
  induction actions generalizing state with
  | nil =>
    cases done
    exact start
  | cons action rest ih =>
    obtain ⟨next, stepped, rest'⟩ := runs_cons done
    exact ih (kept start meets.1 stepped) (meets.2 next stepped) rest'

theorem meets_of_forall {condition : σ → α → Prop} (always : ∀ state action, condition state action)
    (actions : List α)
    (state : σ) : Meets step condition actions state := by
  induction actions generalizing state with
  | nil => trivial
  | cons action rest ih => exact ⟨always state action, fun next _ => ih next⟩

theorem runs_invariant {invariant : σ → Prop}
    (kept : ∀ {state action next}, invariant state → step state action = some next → invariant next)
    {actions : List α} {state final : σ} (start : invariant state)
    (done : runs step actions state = some final) :
    invariant final :=
  runs_meets (fun held _ stepped => kept held stepped) start
    (@meets_of_forall _ _ _ (fun _ _ => True) (fun _ _ => trivial) actions state) done

theorem runs_level_iff {condition : σ → α → Prop} {invariant : σ → Prop} {level : σ → Nat}
    (kept : ∀ {state action next}, invariant state → step state action = some next → invariant next)
    (rises : ∀ {state action next}, invariant state → step state action = some next →
      level state ≤ level next ∧ (level next = level state ↔ condition state action))
    {actions : List α} {state final : σ} (start : invariant state)
    (done : runs step actions state = some final) :
    level state ≤ level final ∧
      (level final = level state ↔ Meets step condition actions state) := by
  induction actions generalizing state with
  | nil =>
    cases done
    exact ⟨Nat.le_refl _, iff_of_true rfl trivial⟩
  | cons action rest ih =>
    obtain ⟨next, stepped, rest'⟩ := runs_cons done
    obtain ⟨first, level_first⟩ := rises start stepped
    obtain ⟨others, level_others⟩ := ih (kept start stepped) rest'
    refine ⟨Nat.le_trans first others, ?_⟩
    rw [meets_cons_some stepped, ← level_first, ← level_others]
    omega

end Foundation
