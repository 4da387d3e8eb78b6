import Mathlib.Data.List.Basic

/-! Buffers of a fixed size that are filled from their front and used again. -/

set_option autoImplicit false

namespace Foundation

variable {T : Type}

/-- The loop that assigns the values one after the other, from position `start` on. -/
def fill : Nat → List T → List T → List T
  | _, [], buffer => buffer
  | start, value :: rest, buffer => fill (start + 1) rest (buffer.set start value)

@[simp] theorem length_fill (start : Nat) (values buffer : List T) :
    (fill start values buffer).length = buffer.length := by
  induction values generalizing start buffer with
  | nil => rfl
  | cons value rest ih => rw [fill, ih, List.length_set]

theorem getElem?_fill_before {start i : Nat} (values buffer : List T) (before : i < start) :
    (fill start values buffer)[i]? = buffer[i]? := by
  induction values generalizing start buffer with
  | nil => rfl
  | cons value rest ih => rw [fill, ih _ (by omega), List.getElem?_set_ne (by omega)]

/-- Where the buffer is long enough it begins with the values afterwards. -/
theorem getElem?_fill {start i : Nat} {values buffer : List T}
    (room : start + values.length ≤ buffer.length)
    (inside : i < values.length) : (fill start values buffer)[start + i]? = values[i]? := by
  induction values generalizing start i buffer with
  | nil => exact absurd inside (Nat.not_lt_zero i)
  | cons value rest ih =>
    rw [List.length_cons] at room inside
    rw [fill]
    cases i with
    | zero =>
      have kept := getElem?_fill_before rest (buffer.set start value) (by omega : start < start + 1)
      rw [List.getElem?_set_self (by omega)] at kept
      exact kept
    | succ i =>
      have next :=
        @ih (start + 1) i (buffer.set start value) (by rw [List.length_set]; omega) (by omega)
      rw [show start + (i + 1) = start + 1 + i from by omega, next, List.getElem?_cons_succ]

theorem getD_fill {i : Nat} {values buffer : List T} (zero : T)
    (room : values.length ≤ buffer.length)
    (inside : i < values.length) : (fill 0 values buffer).getD i zero = values.getD i zero := by
  have same := @getElem?_fill T 0 i values buffer (by omega) inside
  rw [Nat.zero_add] at same
  rw [List.getD_eq_getElem?_getD, List.getD_eq_getElem?_getD, same]

theorem take_set_succ {buffer : List T} {count : Nat} (room : count < buffer.length) (value : T) :
    (buffer.set count value).take (count + 1) = buffer.take count ++ [value] := by
  rw [List.take_add_one, List.take_set_of_le (Nat.le_refl count),
    List.getElem?_set_self room, Option.toList_some]

theorem take_fill {values buffer : List T} (room : values.length ≤ buffer.length) :
    (fill 0 values buffer).take values.length = values := by
  apply List.ext_getElem?
  intro i
  by_cases inside : i < values.length
  · rw [List.getElem?_take_of_lt inside]
    have same := @getElem?_fill T 0 i values buffer (by omega) inside
    rwa [Nat.zero_add] at same
  · rw [List.getElem?_eq_none (by rw [List.length_take]; omega), List.getElem?_eq_none (by omega)]

end Foundation
