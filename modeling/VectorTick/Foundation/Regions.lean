import Mathlib.Data.List.Basic
import Mathlib.Data.Nat.Bitwise

/-! Ranges of addresses, and rounding up to a power of two. -/

set_option autoImplicit false

namespace Foundation

/-- The addresses from `start` on, `size` of them. -/
structure Region where
  start : Nat
  size : Nat
  deriving DecidableEq, Repr

namespace Region

variable {first second third outer : Region}

def stop (region : Region) : Nat := region.start + region.size

def Within (inner outer : Region) : Prop := outer.start ≤ inner.start ∧ inner.stop ≤ outer.stop

def Apart (first second : Region) : Prop := first.stop ≤ second.start ∨ second.stop ≤ first.start

theorem Within.trans (inner : first.Within second) (outer : second.Within third) :
    first.Within third :=
  ⟨Nat.le_trans outer.1 inner.1, Nat.le_trans inner.2 outer.2⟩

theorem Apart.within (apart : first.Apart second) (inner : third.Within first)
    (other : outer.Within second) :
    third.Apart outer := by
  rcases apart with before | behind
  · exact .inl (Nat.le_trans inner.2 (Nat.le_trans before other.1))
  · exact .inr (Nat.le_trans other.2 (Nat.le_trans behind inner.1))

end Region

/-- Clearing the low bits of a word rounds it down. -/
theorem and_high_mask {width k x : Nat} (small : k ≤ width) (fits : x < 2 ^ width) :
    x &&& (2 ^ width - 2 ^ k) = 2 ^ k * (x / 2 ^ k) := by
  have below : 2 ^ k - 1 < 2 ^ width :=
    Nat.lt_of_lt_of_le (Nat.sub_one_lt (Nat.two_pow_pos k).ne')
      (Nat.pow_le_pow_right (by decide) small)
  have mask : 2 ^ width - 2 ^ k = 2 ^ width - (2 ^ k - 1 + 1) := by
    rw [Nat.sub_add_cancel (Nat.two_pow_pos k)]
  apply Nat.eq_of_testBit_eq
  intro i
  rw [Nat.testBit_and, mask, Nat.testBit_two_pow_sub_succ below, Nat.testBit_two_pow_sub_one,
    Nat.mul_comm, Nat.testBit_mul_two_pow, Nat.testBit_div_two_pow]
  by_cases low : i < k
  · simp [low]
  · by_cases high : i < width
    · simp [low, high, Nat.le_of_not_lt low, Nat.sub_add_cancel (Nat.le_of_not_lt low)]
    · have none : x.testBit i = false :=
        Nat.testBit_lt_two_pow
          (Nat.lt_of_lt_of_le fits (Nat.pow_le_pow_right (by decide) (Nat.le_of_not_lt high)))
      simp [low, Nat.sub_add_cancel (Nat.le_of_not_lt low), none]

end Foundation
