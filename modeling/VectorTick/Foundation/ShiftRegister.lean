import Mathlib.Data.List.Basic
import Mathlib.Logic.Function.Iterate

/-! Linear feedback shift registers that are fed a message bit by bit,
lowest bit of the register first.

Up to as many bits as the register is wide may as well be added to it at once and be shifted out
together. A difference between two messages that is no longer than that is never lost. -/

set_option autoImplicit false

namespace Foundation

/-- A shift that is linear, only moves the bits while a zero falls out, and loses nothing. -/
structure ShiftRegister (w : Nat) where
  shift : BitVec w → BitVec w
  shift_xor : ∀ first second, shift (first ^^^ second) = shift first ^^^ shift second
  shift_even : ∀ register, register.getLsbD 0 = false → shift register = register >>> 1
  eq_zero : ∀ register, shift register = 0#w → register = 0#w

/-- The word of a list of bits, the first of them at the low end. -/
def wordOf (w : Nat) : List Bool → BitVec w
  | [] => 0#w
  | bit :: rest => (if bit then 1#w else 0#w) ^^^ (wordOf w rest <<< 1)

theorem getLsbD_one_ite {w : Nat} (bit : Bool) {i : Nat} (inside : i < w) :
    (if bit then 1#w else 0#w).getLsbD i = (decide (i = 0) && bit) := by
  cases bit with
  | false => simp
  | true =>
    rw [if_pos rfl, BitVec.getLsbD_one, Bool.and_true]
    have wide : 0 < w := by omega
    simp only [wide, decide_true, Bool.true_and]

theorem getLsbD_wordOf {w : Nat} (bits : List Bool) {i : Nat} (inside : i < w) :
    (wordOf w bits).getLsbD i = bits.getD i false := by
  induction bits generalizing i with
  | nil => simp [wordOf]
  | cons bit rest ih =>
    rw [wordOf, BitVec.getLsbD_xor, getLsbD_one_ite bit inside, BitVec.getLsbD_shiftLeft]
    cases i with
    | zero => simp
    | succ i => simpa [inside] using ih (Nat.lt_of_succ_lt inside)

namespace ShiftRegister

variable {w : Nat} (register : ShiftRegister w)

/-- One bit of the message: it is added to the lowest bit, and the register is shifted. -/
def feed (content : BitVec w) (bit : Bool) : BitVec w :=
  register.shift (content ^^^ if bit then 1#w else 0#w)

theorem iterate_xor (count : Nat) (first second : BitVec w) :
    register.shift^[count] (first ^^^ second) =
      register.shift^[count] first ^^^ register.shift^[count] second := by
  induction count generalizing first second with
  | zero => rfl
  | succ count ih => rw [Function.iterate_succ_apply, register.shift_xor, ih]; rfl

theorem iterate_zero (count : Nat) : register.shift^[count] 0#w = 0#w := by
  have twice := register.iterate_xor count 0#w 0#w
  rwa [BitVec.xor_self, BitVec.xor_self] at twice

theorem iterate_eq_zero {count : Nat} {content : BitVec w}
    (zero : register.shift^[count] content = 0#w) :
    content = 0#w := by
  induction count generalizing content with
  | zero => exact zero
  | succ count ih => exact register.eq_zero _ (ih zero)

theorem shift_shiftLeft {content : BitVec w} (room : ∀ i, w ≤ i + 1 → content.getLsbD i = false) :
    register.shift (content <<< 1) = content := by
  rw [register.shift_even _ (by simp)]
  apply BitVec.eq_of_getLsbD_eq
  intro i inside
  rw [BitVec.getLsbD_ushiftRight, BitVec.getLsbD_shiftLeft]
  by_cases last : w ≤ i + 1
  · rw [room i last, decide_eq_false (by omega), Bool.false_and, Bool.false_and]
  · simp only [show 1 + i < w by omega, decide_true, Bool.true_and, show ¬ 1 + i < 1 by omega,
      decide_false, Bool.not_false, Nat.add_sub_cancel_left]

theorem foldl_feed (bits : List Bool) (fits : bits.length ≤ w) (content : BitVec w) :
    bits.foldl register.feed content = register.shift^[bits.length]
    (content ^^^ wordOf w bits) := by
  induction bits generalizing content with
  | nil => simp [wordOf]
  | cons bit rest ih =>
    rw [List.length_cons] at fits
    have above : ∀ i, w ≤ i + 1 → (wordOf w rest).getLsbD i = false := by
      intro i last
      by_cases inside : i < w
      · rw [getLsbD_wordOf rest inside, List.getD_eq_getElem?_getD,
          List.getElem?_eq_none (by omega), Option.getD_none]
      · exact BitVec.getLsbD_of_ge _ _ (by omega)
    rw [List.foldl_cons, ih (by omega), List.length_cons, Function.iterate_succ_apply, wordOf,
      ← BitVec.xor_assoc, register.shift_xor, register.shift_shiftLeft above]
    rfl

theorem foldl_feed_xor {first second : List Bool}
    (same : first.length = second.length) (one two : BitVec w) :
    (List.zipWith xor first second).foldl register.feed (one ^^^ two) =
      first.foldl register.feed one ^^^ second.foldl register.feed two := by
  induction first generalizing second one two with
  | nil =>
    cases second with
    | nil => rfl
    | cons _ _ => cases same
  | cons bit first ih =>
    cases second with
    | nil => cases same
    | cons other second =>
      have step : register.feed (one ^^^ two) (xor bit other) =
          register.feed one bit ^^^ register.feed two other := by
        have added : (if xor bit other then 1#w else 0#w) =
            (if bit then 1#w else 0#w) ^^^ (if other then 1#w else 0#w) := by
          cases bit <;> cases other <;> simp
        unfold feed
        rw [← register.shift_xor, added]
        congr 1
        ac_rfl
      rw [List.zipWith_cons_cons, List.foldl_cons, step]
      exact ih (Nat.succ.inj same) _ _

theorem foldl_feed_added (bits : List Bool) (content added : BitVec w) :
    bits.foldl register.feed (content ^^^ added) =
      bits.foldl register.feed content ^^^ register.shift^[bits.length] added := by
  induction bits generalizing content added with
  | nil => rfl
  | cons bit rest ih =>
    have step : register.feed (content ^^^ added) bit =
        register.feed content bit ^^^ register.shift added := by
      unfold feed
      rw [← register.shift_xor]
      congr 1
      ac_rfl
    rw [List.foldl_cons, step, ih, List.foldl_cons, List.length_cons, Function.iterate_succ_apply]

theorem foldl_feed_zeros (count : Nat) (content : BitVec w) :
    (List.replicate count false).foldl register.feed content = register.shift^[count] content := by
  induction count generalizing content with
  | zero => rfl
  | succ count ih =>
    rw [List.replicate_succ, List.foldl_cons, ih, feed, if_neg Bool.false_ne_true, BitVec.xor_zero]
    rfl

theorem foldl_feed_burst {bits : List Bool} {start : Nat} (some : true ∈ bits)
    (burst : ∀ k, bits[k]? = Option.some true → start ≤ k ∧ k < start + w) :
    bits.foldl register.feed 0#w ≠ 0#w := by
  have zeros : ∀ {piece : List Bool}, true ∉ piece → piece = List.replicate piece.length false := by
    intro piece none
    refine List.eq_replicate_iff.mpr ⟨rfl, fun bit listed => ?_⟩
    cases bit with
    | false => rfl
    | true => exact absurd listed none
  have front : true ∉ bits.take start := by
    intro listed
    obtain ⟨k, found⟩ := List.mem_iff_getElem?.mp listed
    rw [List.getElem?_take] at found
    split at found
    · have := burst k found
      omega
    · cases found
  have back : true ∉ (bits.drop start).drop w := by
    intro listed
    obtain ⟨k, found⟩ := List.mem_iff_getElem?.mp listed
    rw [List.getElem?_drop, List.getElem?_drop] at found
    have := burst _ found
    omega
  have split : bits =
      bits.take start ++ ((bits.drop start).take w ++ (bits.drop start).drop w) := by
    rw [List.take_append_drop, List.take_append_drop]
  have middle : true ∈ (bits.drop start).take w := by
    rw [split, List.mem_append, List.mem_append] at some
    exact (some.resolve_left front).resolve_right back
  have untouched : (bits.take start).foldl register.feed 0#w = 0#w := by
    rw [zeros front, foldl_feed_zeros, iterate_zero]
  intro lost
  rw [split, List.foldl_append, List.foldl_append, untouched, zeros back, foldl_feed_zeros] at lost
  have word := register.iterate_eq_zero lost
  rw [register.foldl_feed _ (List.length_take_le _ _), BitVec.zero_xor] at word
  have none := register.iterate_eq_zero word
  obtain ⟨k, found⟩ := List.mem_iff_getElem?.mp middle
  have inside : k < w := by
    have bound := (List.getElem?_eq_some_iff.mp found).1
    rw [List.length_take] at bound
    omega
  have bit := getLsbD_wordOf ((bits.drop start).take w) inside
  rw [none, List.getD_eq_getElem?_getD, found] at bit
  simp at bit

end ShiftRegister

end Foundation
