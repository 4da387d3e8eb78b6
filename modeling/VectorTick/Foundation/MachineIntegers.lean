import Mathlib.Tactic

/-! Fixed-width integer types and the arithmetic of a language with integer promotion.

A value is the integer it stands for, with the proof that its type holds it. Operands of a type
narrower than `int` are promoted to `int` before an operation; a result that the type of the
operation does not hold is an error, for unsigned types too, where it would wrap.
-/

set_option autoImplicit false

namespace Foundation

structure IntType where
  width : Nat
  signed : Bool
  positive : 0 < width
  deriving DecidableEq

inductive Undefined where
  | overflow
  | divisionByZero
  deriving DecidableEq, Repr

namespace IntType

def minimum (T : IntType) : Int := if T.signed then -2 ^ (T.width - 1) else 0

def maximum (T : IntType) : Int := if T.signed then 2 ^ (T.width - 1) - 1 else 2 ^ T.width - 1

def Holds (T : IntType) (value : Int) : Prop := T.minimum ≤ value ∧ value ≤ T.maximum

instance (T : IntType) (value : Int) : Decidable (T.Holds value) :=
  inferInstanceAs (Decidable (_ ∧ _))

@[ext]
structure Value (T : IntType) where
  val : Int
  holds : T.Holds val
  deriving DecidableEq

def int : IntType := ⟨32, true, by decide⟩

def u64 : IntType := ⟨64, false, by decide⟩

def i64 : IntType := ⟨64, true, by decide⟩

/-- The type in which operands of the type are computed with. -/
def promoted (T : IntType) : IntType := if T.width < 32 then int else T

def compute (T : IntType) (result : Int) : Except Undefined Int :=
  if T.Holds result then .ok result else .error .overflow

/-- Division truncates toward zero. -/
def divide (T : IntType) (dividend divisor : Int) : Except Undefined Int :=
  if divisor = 0 then .error .divisionByZero else T.compute (dividend.tdiv divisor)

/-- The value as long as the type holds it. -/
def exactly (T : IntType) (result : Int) : Option T.Value :=
  if holds : T.Holds result then some ⟨result, holds⟩ else none

variable {T : IntType}

theorem minimum_signed (signed : T.signed = true) :
    T.minimum = -2 ^ (T.width - 1) := by rw [minimum, if_pos signed]

theorem maximum_signed (signed : T.signed = true) :
    T.maximum = 2 ^ (T.width - 1) - 1 := by rw [maximum, if_pos signed]

theorem minimum_unsigned (unsigned : T.signed ≠ true) :
    T.minimum = 0 := by rw [minimum, if_neg unsigned]

theorem maximum_unsigned (unsigned : T.signed ≠ true) :
    T.maximum = 2 ^ T.width - 1 := by rw [maximum, if_neg unsigned]

/-- The range of a signed type has one more negative value than positive ones. -/
theorem minimum_eq_neg (signed : T.signed = true) : T.minimum = -T.maximum - 1 := by
  rw [minimum_signed signed, maximum_signed signed]
  ring

theorem minimum_le_zero (T : IntType) : T.minimum ≤ 0 := by
  rw [minimum]
  split
  · exact Int.neg_nonpos_of_nonneg (by positivity)
  · exact Int.le_refl 0

theorem zero_le_maximum (T : IntType) : 0 ≤ T.maximum := by
  have half : (0 : Int) < 2 ^ (T.width - 1) := by positivity
  have whole : (0 : Int) < 2 ^ T.width := by positivity
  rw [maximum]
  split <;> omega

theorem maximum_pos_of_unsigned (unsigned : T.signed ≠ true) : 0 < T.maximum := by
  have two : (2 : Int) ^ 1 ≤ 2 ^ T.width := pow_le_pow_right₀ (by decide) T.positive
  rw [maximum_unsigned unsigned]
  omega

theorem holds_zero (T : IntType) : T.Holds 0 := ⟨T.minimum_le_zero, T.zero_le_maximum⟩

theorem holds_minimum (T : IntType) : T.Holds T.minimum :=
  ⟨Int.le_refl _, Int.le_trans T.minimum_le_zero T.zero_le_maximum⟩

theorem holds_maximum (T : IntType) : T.Holds T.maximum :=
  ⟨Int.le_trans T.minimum_le_zero T.zero_le_maximum, Int.le_refl _⟩

def zero (T : IntType) : T.Value := ⟨0, T.holds_zero⟩

def least (T : IntType) : T.Value := ⟨T.minimum, T.holds_minimum⟩

def greatest (T : IntType) : T.Value := ⟨T.maximum, T.holds_maximum⟩

/-- The nearest value of the type. -/
def clamp (T : IntType) (result : Int) : T.Value where
  val := max T.minimum (min result T.maximum)
  holds := ⟨Int.le_max_left _ _, Int.max_le.mpr ⟨T.holds_minimum.2, Int.min_le_right _ _⟩⟩

theorem clamp_of_holds {result : Int} (holds : T.Holds result) :
    T.clamp result = ⟨result, holds⟩ := by
  apply Value.ext
  change max T.minimum (min result T.maximum) = result
  rw [Int.min_eq_left holds.2, Int.max_eq_right holds.1]

theorem clamp_below {result : Int} (below : result < T.minimum) : T.clamp result = T.least := by
  have ends := T.holds_minimum.2
  apply Value.ext
  change max T.minimum (min result T.maximum) = T.minimum
  omega

theorem clamp_above {result : Int} (above : T.maximum < result) : T.clamp result = T.greatest := by
  have ends := T.holds_minimum.2
  apply Value.ext
  change max T.minimum (min result T.maximum) = T.maximum
  omega

/-- Promotion widens the range. -/
theorem Holds.promoted {value : Int} (holds : T.Holds value) : T.promoted.Holds value := by
  rw [IntType.promoted]
  split
  · next narrow =>
    have half : (2 : Int) ^ (T.width - 1) ≤ 2 ^ 31 := pow_le_pow_right₀ (by decide) (by omega)
    have whole : (2 : Int) ^ T.width ≤ 2 ^ 31 := pow_le_pow_right₀ (by decide) (by omega)
    have low : int.minimum = -2 ^ 31 := rfl
    have high : int.maximum = 2 ^ 31 - 1 := rfl
    obtain ⟨above, below⟩ := holds
    rw [Holds, low, high]
    rw [minimum] at above
    rw [maximum] at below
    split at above
    · next signed =>
      rw [if_pos signed] at below
      omega
    · next unsigned =>
      rw [if_neg unsigned] at below
      omega
  · exact holds

/-- An expression whose result the type itself holds is computed. -/
theorem compute_promoted {result : Int} (holds : T.Holds result) :
    T.promoted.compute result = .ok result :=
  if_pos holds.promoted

theorem divide_promoted {dividend divisor : Int} (nonzero : divisor ≠ 0)
    (holds : T.Holds (dividend.tdiv divisor)) :
    T.promoted.divide dividend divisor = .ok (dividend.tdiv divisor) := by
  rw [divide, if_neg nonzero, compute_promoted holds]

theorem compute_of_holds {result : Int} (holds : T.Holds result) :
    T.compute result = .ok result := if_pos holds

theorem divide_of_holds {dividend divisor quotient : Int} (nonzero : divisor ≠ 0)
    (same : dividend.tdiv divisor = quotient)
    (holds : T.Holds quotient) : T.divide dividend divisor = .ok quotient := by
  rw [divide, if_neg nonzero, same, compute_of_holds holds]

theorem holds_i64 {result : Int} : i64.Holds result ↔ -2 ^ 63 ≤ result ∧ result < 2 ^ 63 := by
  have least : i64.minimum = -2 ^ 63 := rfl
  have most : i64.maximum = 2 ^ 63 - 1 := rfl
  rw [Holds, least, most]
  omega

theorem compute_int {result : Int} (low : -2 ^ 31 ≤ result) (high : result < 2 ^ 31) :
    int.compute result = .ok result := by
  have most : int.maximum = 2 ^ 31 - 1 := rfl
  exact if_pos ⟨low, by omega⟩

theorem compute_u64 {result : Nat} (fits : result < 2 ^ 64) :
    u64.compute (result : Int) = .ok (result : Int) := by
  have most : u64.maximum = 2 ^ 64 - 1 := rfl
  exact if_pos ⟨Int.natCast_nonneg result, by omega⟩

theorem divide_u64 {dividend divisor : Nat} (nonzero : divisor ≠ 0) (fits : dividend < 2 ^ 64) :
    u64.divide (dividend : Int) (divisor : Int) = .ok ((dividend / divisor : Nat) : Int) := by
  rw [divide, if_neg (by omega)]
  exact compute_u64 (Nat.lt_of_le_of_lt (Nat.div_le_self dividend divisor) fits)

/-- `static_cast` to the type: the value modulo `2 ^ width`. -/
def wrap (T : IntType) (value : Int) : Int :=
  if T.signed then value.bmod (2 ^ T.width) else value % 2 ^ T.width

theorem half_add_half (T : IntType) : 2 ^ T.width = 2 ^ (T.width - 1) + 2 ^ (T.width - 1) := by
  rw [← Nat.two_mul, Nat.mul_comm, Nat.two_pow_pred_mul_two T.positive]

theorem holds_wrap (T : IntType) (value : Int) : T.Holds (T.wrap value) := by
  have halves := T.half_add_half
  rw [wrap, Holds, minimum, maximum]
  split
  · have positive : 0 < 2 ^ T.width := Nat.two_pow_pos _
    have above := @Int.le_bmod value (2 ^ T.width) positive
    have below := @Int.bmod_lt value (2 ^ T.width) positive
    have cast : ((2 ^ (T.width - 1) : Nat) : Int) = 2 ^ (T.width - 1) := by push_cast; rfl
    omega
  · have positive : (0 : Int) < 2 ^ T.width := by positivity
    have above := Int.emod_nonneg value (Int.ne_of_gt positive)
    have below := Int.emod_lt_of_pos value positive
    omega

def cast (T : IntType) (value : Int) : T.Value := ⟨T.wrap value, T.holds_wrap value⟩

theorem wrap_of_holds {value : Int} (holds : T.Holds value) : T.wrap value = value := by
  have halves := T.half_add_half
  obtain ⟨above, below⟩ := holds
  rw [minimum] at above
  rw [maximum] at below
  rw [wrap]
  split
  · next signed =>
    rw [if_pos signed] at above below
    have half : ((2 ^ (T.width - 1) : Nat) : Int) = 2 ^ (T.width - 1) := by push_cast; rfl
    exact Int.bmod_eq_of_le (by omega) (by omega)
  · next unsigned =>
    rw [if_neg unsigned] at above below
    exact Int.emod_eq_of_lt above (by omega)

/-- The end of a checked operation: compute, convert, wrap up. -/
theorem some_cast {result : Int} (holds : T.Holds result) :
    some (T.cast result) = T.exactly result := by
  rw [exactly, dif_pos holds, cast]
  simp only [wrap_of_holds holds]

theorem exactly_none {result : Int} (outside : ¬ T.Holds result) : T.exactly result = none :=
  dif_neg outside

end IntType

/-- The word of a natural number, and of a signed word read as an integer. -/
theorem ofInt_natCast (value : Nat) : UInt64.ofInt value = UInt64.ofNat value := by
  rw [← UInt64.toNat_inj]
  unfold UInt64.ofInt
  rw [UInt64.toNat_ofNat', UInt64.toNat_ofNat']
  omega

theorem ofInt_toInt (value : Int64) : UInt64.ofInt value.toInt = value.toUInt64 := by
  have low := value.le_toInt
  have high := value.toInt_lt
  have whole := BitVec.toInt_eq_toNat_cond value.toBitVec
  change value.toInt = if 2 * value.toUInt64.toNat < 2 ^ 64 then (value.toUInt64.toNat : Int)
    else value.toUInt64.toNat - (2 ^ 64 : Nat) at whole
  have below := value.toUInt64.toNat_lt
  rw [← UInt64.toNat_inj]
  unfold UInt64.ofInt
  rw [UInt64.toNat_ofNat']
  split at whole <;> omega

end Foundation
