import Mathlib.Tactic

/-! Loops that advance by a fixed stride, and unrolled loops with a tail of single steps. -/

set_option autoImplicit false

namespace Foundation

variable {S S' : Type}

/-- `for (; i + width <= count; i += width)`, of at most `fuel` passes;
the last `i` and the state. -/
def stride (width count : Nat) (pass : Nat → S → S) : Nat → Nat → S → Nat × S
  | 0, i, state => (i, state)
  | fuel + 1, i, state =>
    if i + width ≤ count then stride width count pass fuel (i + width)
      (pass i state) else (i, state)

theorem stride_invariant {width count : Nat} {pass : Nat → S → S} {inv : Nat → S → Prop}
    (keeps : ∀ i state, i + width ≤ count → inv i state → inv (i + width) (pass i state))
    (fuel : Nat) {i : Nat}
    {state : S} (start : inv i state) (inside : i ≤ count) :
    inv (stride width count pass fuel i state).1 (stride width count pass fuel i state).2 ∧
      (stride width count pass fuel i state).1 ≤ count := by
  induction fuel generalizing i state with
  | zero => exact ⟨start, inside⟩
  | succ fuel ih =>
    rw [stride]
    split
    · next room => exact ih (keeps i state room start) room
    · exact ⟨start, inside⟩

theorem stride_one_end {count : Nat} {step : Nat → S → S} {fuel i : Nat}
    (state : S) (inside : i ≤ count)
    (enough : count ≤ i + fuel) : (stride 1 count step fuel i state).1 = count := by
  induction fuel generalizing i state with
  | zero => exact Nat.le_antisymm inside enough
  | succ fuel ih =>
    rw [stride]
    split
    · exact ih _ (by omega) (by omega)
    · change i = count
      omega

/-- A loop of whole passes, a conversion of its state, and the rest in single steps. -/
def unrolled (width count : Nat) (pass : Nat → S → S) (turn : S → S')
    (step : Nat → S' → S') (start : S) : S' :=
  let blocks := stride width count pass count 0 start
  (stride 1 count step count blocks.1 (turn blocks.2)).2

theorem unrolled_invariant {width count : Nat} {pass : Nat → S → S} {turn : S → S'}
    {step : Nat → S' → S'} {start : S}
    {inv : Nat → S → Prop} {inv' : Nat → S' → Prop} (starts : inv 0 start)
    (keeps : ∀ i state, i + width ≤ count → inv i state → inv (i + width) (pass i state))
    (turns : ∀ i state, inv i state → inv' i (turn state))
    (steps : ∀ i state, i < count → inv' i state → inv' (i + 1) (step i state)) :
    inv' count (unrolled width count pass turn step start) := by
  obtain ⟨blocks, inside⟩ := stride_invariant keeps count starts (Nat.zero_le count)
  obtain ⟨ended, -⟩ :=
    stride_invariant (fun i state room => steps i state room) count (turns _ _ blocks) inside
  rwa [stride_one_end _ inside (Nat.le_add_left _ _)] at ended

end Foundation
