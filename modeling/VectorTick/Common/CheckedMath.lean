import VectorTick.Foundation.MachineIntegers

/-! Checked and saturating arithmetic, generic over the integer type.

Every expression of the source is computed in the promoted type, so an overflow inside a guard
would show as an error. `none` is `std::nullopt`.
-/

set_option autoImplicit false

namespace VectorTick.CheckedMath

open Foundation

variable {T : IntType}

/-- The last line of an operation: the result, converted back to the type. -/
def finish (result : Except Undefined Int) : Except Undefined (Option T.Value) := do
  return some (T.cast (← result))

def checkedAdd (a b : T.Value) : Except Undefined (Option T.Value) :=
  if T.signed then
    if b.val > 0 then do
      let limit ← T.promoted.compute (T.maximum - b.val)
      if a.val > limit then return none
      finish (T.promoted.compute (a.val + b.val))
    else if b.val < 0 then do
      let limit ← T.promoted.compute (T.minimum - b.val)
      if a.val < limit then return none
      finish (T.promoted.compute (a.val + b.val))
    else finish (T.promoted.compute (a.val + b.val))
  else do
    let limit ← T.promoted.compute (T.maximum - b.val)
    if a.val > limit then return none
    finish (T.promoted.compute (a.val + b.val))

def checkedSub (a b : T.Value) : Except Undefined (Option T.Value) :=
  if T.signed then
    if b.val > 0 then do
      let limit ← T.promoted.compute (T.minimum + b.val)
      if a.val < limit then return none
      finish (T.promoted.compute (a.val - b.val))
    else if b.val < 0 then do
      let limit ← T.promoted.compute (T.maximum + b.val)
      if a.val > limit then return none
      finish (T.promoted.compute (a.val - b.val))
    else finish (T.promoted.compute (a.val - b.val))
  else if a.val < b.val then .ok none
  else finish (T.promoted.compute (a.val - b.val))

def checkedMul (a b : T.Value) : Except Undefined (Option T.Value) :=
  if a.val = 0 ∨ b.val = 0 then .ok (some T.zero)
  else if T.signed then
    if a.val > 0 then
      if b.val > 0 then do
        let limit ← T.promoted.divide T.maximum b.val
        if a.val > limit then return none
        finish (T.promoted.compute (a.val * b.val))
      else do
        let limit ← T.promoted.divide T.minimum a.val
        if b.val < limit then return none
        finish (T.promoted.compute (a.val * b.val))
    else if b.val > 0 then do
      let limit ← T.promoted.divide T.minimum b.val
      if a.val < limit then return none
      finish (T.promoted.compute (a.val * b.val))
    else do
      let limit ← T.promoted.divide T.maximum a.val
      if b.val < limit then return none
      finish (T.promoted.compute (a.val * b.val))
  else do
    let limit ← T.promoted.divide T.maximum b.val
    if a.val > limit then return none
    finish (T.promoted.compute (a.val * b.val))

def checkedDiv (a b : T.Value) : Except Undefined (Option T.Value) :=
  if b.val = 0 then .ok none
  else if T.signed ∧ a.val = T.minimum ∧ b.val = -1 then .ok none
  else finish (T.promoted.divide a.val b.val)

def saturatingAdd (a b : T.Value) : Except Undefined T.Value := do
  let result ← checkedAdd a b
  return result.getD (if T.signed ∧ b.val < 0 then T.least else T.greatest)

def saturatingSub (a b : T.Value) : Except Undefined T.Value := do
  let result ← checkedSub a b
  return result.getD (if T.signed ∧ b.val > 0 then T.least else T.greatest)

def saturatingMul (a b : T.Value) : Except Undefined T.Value := do
  match ← checkedMul a b with
  | some result => return result
  | none => return if xor (decide (a.val < 0)) (decide (b.val < 0)) then T.least else T.greatest

theorem ok_bind {α β : Type} (value : α) (next : α → Except Undefined β) :
    ((.ok value : Except Undefined α) >>= next) = next value := rfl

theorem finish_eq {result : Int} (holds : T.Holds result) :
    finish (T.promoted.compute result) = .ok (T.exactly result) := by
  rw [finish, IntType.compute_promoted holds, ok_bind, IntType.some_cast holds]
  rfl

/-- A guard that compares with a limit the type holds, and stops exactly
where the result is outside. -/
theorem guarded_eq {limit result : Int} (computed : Except Undefined Int)
    (fits : computed = .ok limit) {stops : Int → Prop}
    [DecidablePred stops] (sharp : stops limit ↔ ¬ T.Holds result) :
    (do
      let limit ← computed
      if stops limit then return none
      finish (T.promoted.compute result) :
      Except Undefined (Option T.Value)) = .ok (T.exactly result) := by
  rw [fits, ok_bind]
  by_cases stopped : stops limit
  · rw [if_pos stopped, IntType.exactly_none (sharp.mp stopped)]
    rfl
  · rw [if_neg stopped]
    exact finish_eq (Decidable.of_not_not fun outside => stopped (sharp.mpr outside))

theorem checkedAdd_eq (a b : T.Value) : checkedAdd a b = .ok (T.exactly (a.val + b.val)) := by
  obtain ⟨low, high⟩ := a.holds
  obtain ⟨least, greatest⟩ := b.holds
  have negative := T.minimum_le_zero
  have positive := T.zero_le_maximum
  rw [checkedAdd]
  split
  · split
    · apply guarded_eq _ (IntType.compute_promoted ⟨by omega, by omega⟩)
      rw [IntType.Holds]
      omega
    · split
      · apply guarded_eq _ (IntType.compute_promoted ⟨by omega, by omega⟩)
        rw [IntType.Holds]
        omega
      · exact finish_eq ⟨by omega, by omega⟩
  · next unsigned =>
    have zero := IntType.minimum_unsigned unsigned
    apply guarded_eq _ (IntType.compute_promoted ⟨by omega, by omega⟩)
    rw [IntType.Holds]
    omega

theorem checkedSub_eq (a b : T.Value) : checkedSub a b = .ok (T.exactly (a.val - b.val)) := by
  obtain ⟨low, high⟩ := a.holds
  obtain ⟨least, greatest⟩ := b.holds
  rw [checkedSub]
  split
  · next signed =>
    have ends := IntType.minimum_eq_neg signed
    split
    · apply guarded_eq _ (IntType.compute_promoted ⟨by omega, by omega⟩)
      rw [IntType.Holds]
      omega
    · split
      · apply guarded_eq _ (IntType.compute_promoted ⟨by omega, by omega⟩)
        rw [IntType.Holds]
        omega
      · exact finish_eq ⟨by omega, by omega⟩
  · next unsigned =>
    have zero := IntType.minimum_unsigned unsigned
    split
    · rw [IntType.exactly_none (by rw [IntType.Holds]; omega)]
    · exact finish_eq ⟨by omega, by omega⟩

-- A bound on a product is a bound on one factor by the truncated quotient, whatever the signs.

theorem mul_le_iff {bound a b : Int} (nonneg : 0 ≤ bound) (positive : 0 < b) :
    a * b ≤ bound ↔ a ≤ bound.tdiv b := by
  rw [Int.tdiv_eq_ediv_of_nonneg nonneg, Int.le_ediv_iff_mul_le positive]

theorem le_mul_iff {bound a b : Int} (nonpos : bound ≤ 0) (positive : 0 < b) :
    bound ≤ a * b ↔ bound.tdiv b ≤ a := by
  have upper := @mul_le_iff (-bound) (-a) b (by omega) positive
  rw [Int.neg_tdiv, Int.neg_mul] at upper
  omega

theorem mul_le_iff_of_neg {bound a b : Int} (nonneg : 0 ≤ bound) (negative : a < 0) :
    a * b ≤ bound ↔ bound.tdiv a ≤ b := by
  have upper := @mul_le_iff bound (-b) (-a) nonneg (by omega)
  rw [Int.tdiv_neg, Int.neg_mul_neg, Int.mul_comm] at upper
  omega

theorem holds_tdiv {a b : Int} (dividend : T.Holds a) (divisor : T.Holds b)
    (fits : ¬ (T.signed = true ∧ a = T.minimum ∧ b = -1)) : T.Holds (a.tdiv b) := by
  obtain ⟨low, high⟩ := dividend
  obtain ⟨least, greatest⟩ := divisor
  by_cases signed : T.signed = true
  · have ends := IntType.minimum_eq_neg signed
    have size := Int.natAbs_tdiv a b
    by_cases unit : b.natAbs = 1
    · have units : b = 1 ∨ b = -1 := by omega
      rcases units with rfl | rfl
      · rw [Int.tdiv_one]
        exact ⟨low, high⟩
      · have inner : a ≠ T.minimum := fun same => fits ⟨signed, same, rfl⟩
        rw [Int.tdiv_neg, Int.tdiv_one]
        exact ⟨by omega, by omega⟩
    · by_cases zero : b = 0
      · rw [zero, Int.tdiv_zero]
        exact T.holds_zero
      · have half : a.natAbs / b.natAbs ≤ a.natAbs / 2 := Nat.div_le_div_left (by omega) (by decide)
        change _ = a.natAbs / b.natAbs at size
        exact ⟨by omega, by omega⟩
  · have zero := IntType.minimum_unsigned signed
    have nonneg := Int.tdiv_nonneg (by omega : 0 ≤ a) (by omega : 0 ≤ b)
    have smaller := Int.tdiv_le_self b (by omega : 0 ≤ a)
    exact ⟨by omega, by omega⟩

theorem checkedMul_eq (a b : T.Value) : checkedMul a b = .ok (T.exactly (a.val * b.val)) := by
  have negative := T.minimum_le_zero
  have positive := T.zero_le_maximum
  rw [checkedMul]
  split
  · next zero =>
    have product : a.val * b.val = 0 := Int.mul_eq_zero.mpr zero
    rw [product, IntType.exactly, dif_pos T.holds_zero]
    rfl
  · next nonzero =>
    rw [not_or] at nonzero
    split
    · next signed =>
      have ends := IntType.minimum_eq_neg signed
      split
      · next above =>
        split
        · next right =>
          have product := Int.mul_pos above right
          apply guarded_eq _
            (IntType.divide_promoted nonzero.2 (holds_tdiv T.holds_maximum b.holds (by omega)))
          have upper := @mul_le_iff T.maximum a.val b.val positive right
          rw [IntType.Holds]
          omega
        · next right =>
          have product := Int.mul_neg_of_pos_of_neg above (by omega : b.val < 0)
          apply guarded_eq _
            (IntType.divide_promoted nonzero.1 (holds_tdiv T.holds_minimum a.holds (by omega)))
          have lower := @le_mul_iff T.minimum b.val a.val negative above
          rw [Int.mul_comm] at lower
          rw [IntType.Holds]
          omega
      · next left =>
        split
        · next right =>
          have product := Int.mul_neg_of_neg_of_pos (by omega : a.val < 0) right
          apply guarded_eq _
            (IntType.divide_promoted nonzero.2 (holds_tdiv T.holds_minimum b.holds (by omega)))
          have lower := @le_mul_iff T.minimum a.val b.val negative right
          rw [IntType.Holds]
          omega
        · next right =>
          have product := Int.mul_pos_of_neg_of_neg (by omega : a.val < 0) (by omega : b.val < 0)
          apply guarded_eq _
            (IntType.divide_promoted nonzero.1 (holds_tdiv T.holds_maximum a.holds (by omega)))
          have upper := @mul_le_iff_of_neg T.maximum a.val b.val positive (by omega)
          rw [IntType.Holds]
          omega
    · next unsigned =>
      have zero := IntType.minimum_unsigned unsigned
      have left := a.holds.1
      have right := b.holds.1
      have product := Int.mul_nonneg (by omega : 0 ≤ a.val) (by omega : 0 ≤ b.val)
      apply guarded_eq _ (IntType.divide_promoted nonzero.2
        (holds_tdiv T.holds_maximum b.holds fun both => unsigned both.1))
      have upper := @mul_le_iff T.maximum a.val b.val positive (by omega)
      rw [IntType.Holds]
      omega

theorem checkedDiv_eq (a b : T.Value) :
    checkedDiv a b = .ok (if b.val = 0 then none else T.exactly (a.val.tdiv b.val)) := by
  rw [checkedDiv]
  split
  · rfl
  · next nonzero =>
    split
    · next extreme =>
      obtain ⟨signed, least, minus⟩ := extreme
      have ends := IntType.minimum_eq_neg signed
      have outside : ¬ T.Holds (a.val.tdiv b.val) := by
        rw [least, minus, Int.tdiv_neg, Int.tdiv_one, IntType.Holds]
        omega
      rw [IntType.exactly_none outside]
    · next fits =>
      have holds := holds_tdiv a.holds b.holds fits
      rw [finish, IntType.divide_promoted nonzero holds, ok_bind, IntType.some_cast holds]
      rfl

/-- The checked operations return the mathematical result where the type holds it, and none of their
expressions overflows. -/
theorem checked_exact (T : IntType) (a b : T.Value) :
    checkedAdd a b = .ok (T.exactly (a.val + b.val)) ∧
      checkedSub a b = .ok (T.exactly (a.val - b.val)) ∧
      checkedMul a b = .ok (T.exactly (a.val * b.val)) ∧
      checkedDiv a b = .ok (if b.val = 0 then none else T.exactly (a.val.tdiv b.val)) :=
  ⟨checkedAdd_eq a b, checkedSub_eq a b, checkedMul_eq a b, checkedDiv_eq a b⟩

theorem saturatingAdd_eq (a b : T.Value) : saturatingAdd a b = .ok (T.clamp (a.val + b.val)) := by
  obtain ⟨low, high⟩ := a.holds
  obtain ⟨least, greatest⟩ := b.holds
  rw [saturatingAdd, checkedAdd_eq, ok_bind]
  by_cases holds : T.Holds (a.val + b.val)
  · rw [IntType.exactly, dif_pos holds, IntType.clamp_of_holds holds]
    rfl
  · rw [IntType.exactly_none holds, Option.getD_none]
    rw [IntType.Holds] at holds
    by_cases below : T.signed = true ∧ b.val < 0
    · rw [if_pos below, IntType.clamp_below (by omega)]
      rfl
    · have upper : T.maximum < a.val + b.val := by
        by_cases signed : T.signed = true
        · have nonneg : ¬ b.val < 0 := fun negative => below ⟨signed, negative⟩
          omega
        · have zero := IntType.minimum_unsigned signed
          omega
      rw [if_neg below, IntType.clamp_above upper]
      rfl

theorem saturatingMul_eq (a b : T.Value) : saturatingMul a b = .ok (T.clamp (a.val * b.val)) := by
  have negative := T.minimum_le_zero
  have positive := T.zero_le_maximum
  rw [saturatingMul, checkedMul_eq, ok_bind]
  by_cases holds : T.Holds (a.val * b.val)
  · rw [IntType.exactly, dif_pos holds, IntType.clamp_of_holds holds]
    rfl
  · rw [IntType.exactly_none holds]
    rw [IntType.Holds] at holds
    dsimp only
    by_cases left : a.val < 0
    · by_cases right : b.val < 0
      · have product := Int.mul_pos_of_neg_of_neg left right
        rw [IntType.clamp_above (by omega)]
        simp only [left, right, decide_true, Bool.xor_self, Bool.false_eq_true, if_false]
        rfl
      · have product :=
          Int.mul_nonpos_of_nonpos_of_nonneg (by omega : a.val ≤ 0) (by omega : 0 ≤ b.val)
        rw [IntType.clamp_below (by omega)]
        simp only [left, right, decide_true, decide_false, Bool.xor_false, if_true]
        rfl
    · by_cases right : b.val < 0
      · have product :=
          Int.mul_nonpos_of_nonneg_of_nonpos (by omega : 0 ≤ a.val) (by omega : b.val ≤ 0)
        rw [IntType.clamp_below (by omega)]
        simp only [left, right, decide_true, decide_false, Bool.false_xor, if_true]
        rfl
      · have product := Int.mul_nonneg (by omega : 0 ≤ a.val) (by omega : 0 ≤ b.val)
        rw [IntType.clamp_above (by omega)]
        simp only [left, right, decide_false, Bool.xor_self, Bool.false_eq_true, if_false]
        rfl

/-- The direction is taken from the sign of `b`, and for an unsigned type always upwards. -/
theorem saturatingSub_eq (a b : T.Value) : saturatingSub a b =
    .ok (if T.signed = true ∨ b.val ≤ a.val then T.clamp (a.val - b.val) else T.greatest) := by
  obtain ⟨low, high⟩ := a.holds
  obtain ⟨least, greatest⟩ := b.holds
  rw [saturatingSub, checkedSub_eq, ok_bind]
  by_cases holds : T.Holds (a.val - b.val)
  · have right : T.signed = true ∨ b.val ≤ a.val := by
      by_cases signed : T.signed = true
      · exact .inl signed
      · have zero := IntType.minimum_unsigned signed
        exact .inr (by have := holds.1; omega)
    rw [IntType.exactly, dif_pos holds, if_pos right, IntType.clamp_of_holds holds]
    rfl
  · rw [IntType.exactly_none holds, Option.getD_none]
    rw [IntType.Holds] at holds
    by_cases signed : T.signed = true
    · rw [if_pos (.inl signed : T.signed = true ∨ b.val ≤ a.val)]
      by_cases above : b.val > 0
      · have down : T.signed = true ∧ b.val > 0 := ⟨signed, above⟩
        rw [if_pos down, IntType.clamp_below (by omega)]
        rfl
      · have up : ¬ (T.signed = true ∧ b.val > 0) := fun both => above both.2
        rw [if_neg up, IntType.clamp_above (by omega)]
        rfl
    · have zero := IntType.minimum_unsigned signed
      have up : ¬ (T.signed = true ∧ b.val > 0) := fun both => signed both.1
      have below : ¬ (T.signed = true ∨ b.val ≤ a.val) := not_or.mpr ⟨signed, by omega⟩
      rw [if_neg up, if_neg below]
      rfl

/-- Saturating sums and products clamp; differences do so for signed types, and for unsigned ones
where they are not negative. -/
theorem saturating_clamps_iff (T : IntType) (a b : T.Value) :
    saturatingAdd a b = .ok (T.clamp (a.val + b.val)) ∧
      saturatingMul a b = .ok (T.clamp (a.val * b.val)) ∧
      (saturatingSub a b = .ok (T.clamp (a.val - b.val)) ↔ T.signed = true ∨ b.val ≤ a.val) := by
  refine ⟨saturatingAdd_eq a b, saturatingMul_eq a b, ?_⟩
  rw [saturatingSub_eq]
  by_cases right : T.signed = true ∨ b.val ≤ a.val
  · rw [if_pos right]
    exact iff_of_true rfl right
  · rw [if_neg right]
    refine iff_of_false (fun same => ?_) right
    rw [not_or] at right
    have zero := IntType.minimum_unsigned right.1
    have some := IntType.maximum_pos_of_unsigned right.1
    have ends : T.maximum = T.minimum := by
      rw [IntType.clamp_below (by omega)] at same
      exact congrArg IntType.Value.val (Except.ok.inj same)
    omega

/-- In eight unsigned bits, three less five is 255. -/
theorem saturatingSub_upwards : ¬ ∀ (T : IntType), 8 ≤ T.width → T.width ≤ 64 → ∀ a b : T.Value,
    saturatingAdd a b = .ok (T.clamp (a.val + b.val)) ∧
      saturatingSub a b = .ok (T.clamp (a.val - b.val)) ∧
      saturatingMul a b = .ok (T.clamp (a.val * b.val)) := by
  intro claimed
  have clamps :=
    (claimed ⟨8, false, by decide⟩ (by decide) (by decide) ⟨3, by decide⟩ ⟨5, by decide⟩).2.1
  revert clamps
  decide

end VectorTick.CheckedMath
