import Mathlib.Algebra.BigOperators.Fin

/-! Stores that take whole offers.

Each operation of a run offers something, and the store takes all of it or none. What it holds after
any part of the run is then the sum of the offers taken so far, by one choice for the whole run.
-/

set_option autoImplicit false

namespace Foundation

section Ledger

variable {σ α M : Type} [AddCommMonoid M] (step : σ → α → σ)

def Allowed (allows : σ → α → Prop) : List α → σ → Prop
  | [], _ => True
  | op :: rest, state => allows state op ∧ Allowed allows rest (step state op)

/-- The offers that were taken among the first `count` operations. -/
def takenTotal (offered : σ → α → M) (ops : List α) (state : σ)
    (taken : Fin ops.length → Bool) (count : Nat) : M :=
  ∑ i, if i.val < count ∧ taken i then offered ((ops.take i.val).foldl step state) ops[i] else 0

/-- A relation between states and what they hold, under which every allowed step takes all or
nothing. Some operations must be taken; `bound` limits the length of runs. -/
structure Ledger (allows must : σ → α → Prop) (offered : σ → α → M) (bound : Nat) where
  Holds : Nat → σ → M → Prop
  takes : ∀ {count : Nat} {state : σ} {op : α} {contents : M}, Holds count state contents →
    allows state op →
    count < bound → ∃ taken : Bool, (must state op → taken = true) ∧
      Holds (count + 1) (step state op) (contents + if taken then offered state op else 0)

variable {step}

@[simp] theorem takenTotal_zero (offered : σ → α → M) (ops : List α) (state : σ)
    (taken : Fin ops.length → Bool) :
    takenTotal step offered ops state taken 0 = 0 := by
  simp [takenTotal]

theorem takenTotal_quiet (offered : σ → α → M) (ops : List α) (state : σ)
    (taken : Fin ops.length → Bool)
    {first second : Nat} (order : first ≤ second)
    (quiet : ∀ i : Fin ops.length, first ≤ i.val → i.val < second →
      offered ((ops.take i.val).foldl step state) ops[i] = 0) :
    takenTotal step offered ops state taken first =
      takenTotal step offered ops state taken second := by
  unfold takenTotal
  apply Finset.sum_congr rfl
  intro i _
  by_cases before : i.val < first
  · simp [before, Nat.lt_of_lt_of_le before order]
  · by_cases between : i.val < second
    · rw [if_neg (fun both => before both.1), quiet i (by omega) between, ite_self]
    · simp [before, between]

theorem takenTotal_cons (offered : σ → α → M) (op : α) (rest : List α) (state : σ) (first : Bool)
    (taken : Fin rest.length → Bool) (count : Nat) :
    takenTotal step offered (op :: rest) state (Fin.cons first taken) (count + 1) =
      (if first then offered state op else 0) + takenTotal step offered rest
        (step state op) taken count := by
  unfold takenTotal
  refine (Fin.sum_univ_succ (n := rest.length) _).trans ?_
  simp

theorem Ledger.run {allows must : σ → α → Prop} {offered : σ → α → M} {bound : Nat}
    (ledger : Ledger step allows must offered bound) {ops : List α} {state : σ}
    {contents : M} {start : Nat}
    (holds : ledger.Holds start state contents) (allowed : Allowed step allows ops state)
    (few : start + ops.length ≤ bound) :
    ∃ taken : Fin ops.length → Bool,
      (∀ i : Fin ops.length, must ((ops.take i.val).foldl step state) ops[i] → taken i = true) ∧
      ∀ count ≤ ops.length, ledger.Holds (start + count) ((ops.take count).foldl step state)
        (contents + takenTotal step offered ops state taken count) := by
  induction ops generalizing state contents start with
  | nil =>
    refine ⟨Fin.elim0, fun i => i.elim0, fun count none => ?_⟩
    obtain rfl : count = 0 := Nat.le_zero.mp none
    simpa using holds
  | cons op rest ih =>
    simp only [List.length_cons] at few
    obtain ⟨first, accepted, after⟩ := ledger.takes holds allowed.1 (by omega)
    obtain ⟨taken, later, held⟩ := ih after allowed.2 (by omega)
    refine ⟨Fin.cons first taken, ?_, ?_⟩
    · intro i
      cases i using Fin.cases with
      | zero => exact accepted
      | succ i => exact later i
    · intro count inside
      cases count with
      | zero => simpa using holds
      | succ count =>
        have one := held count (by simpa using inside)
        have places : start + (count + 1) = start + 1 + count := by omega
        rw [takenTotal_cons, ← add_assoc contents, places]
        exact one

end Ledger

end Foundation
