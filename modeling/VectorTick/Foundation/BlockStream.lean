import Mathlib.Data.List.Basic

/-! Data cut into blocks of one size, with what is left over at its end. -/

set_option autoImplicit false

namespace Foundation

variable {α σ : Type}

/-- The whole blocks of the data. -/
def wholeBlocks (size : Nat) (data : List α) : List (List α) :=
  if 0 < size ∧ size ≤ data.length then data.take size :: wholeBlocks size (data.drop size) else []
termination_by data.length
decreasing_by rw [List.length_drop]; omega

/-- What follows the last whole block. -/
def leftover (size : Nat) (data : List α) : List α :=
  if 0 < size ∧ size ≤ data.length then leftover size (data.drop size) else data
termination_by data.length
decreasing_by rw [List.length_drop]; omega

theorem wholeBlocks_short {size : Nat} {data : List α} (short : data.length < size) :
    wholeBlocks size data = [] := by
  rw [wholeBlocks, if_neg (by omega)]

theorem leftover_short {size : Nat} {data : List α} (short : data.length < size) :
    leftover size data = data := by
  rw [leftover, if_neg (by omega)]

theorem wholeBlocks_cons {size : Nat} (positive : 0 < size) {block : List α}
    (whole : block.length = size) (data : List α) :
    wholeBlocks size (block ++ data) = block :: wholeBlocks size data := by
  rw [wholeBlocks, if_pos ⟨positive, by rw [List.length_append]; omega⟩, ← whole,
    List.take_left, List.drop_left]

theorem leftover_cons {size : Nat} (positive : 0 < size) {block : List α}
    (whole : block.length = size) (data : List α) :
    leftover size (block ++ data) = leftover size data := by
  rw [leftover, if_pos ⟨positive, by rw [List.length_append]; omega⟩, ← whole, List.drop_left]

theorem wholeBlocks_singleton {size : Nat} (positive : 0 < size) {block : List α}
    (whole : block.length = size) :
    wholeBlocks size block = [block] := by
  have one := wholeBlocks_cons positive whole []
  rwa [List.append_nil, @wholeBlocks_short α size [] positive] at one

theorem length_leftover_lt {size : Nat} (positive : 0 < size) (data : List α) :
    (leftover size data).length < size := by
  induction data using leftover.induct size with
  | case1 data whole ih =>
    rw [leftover, if_pos whole]
    exact ih
  | case2 data none =>
    rw [leftover, if_neg none]
    omega

theorem length_leftover {size : Nat} (positive : 0 < size) (data : List α) :
    (leftover size data).length = data.length % size := by
  induction data using leftover.induct size with
  | case1 data whole ih =>
    rw [leftover, if_pos whole, ih, List.length_drop, Nat.mod_eq_sub_mod whole.2]
  | case2 data none =>
    rw [leftover, if_neg none, Nat.mod_eq_of_lt]
    omega

theorem length_of_mem_wholeBlocks {size : Nat} {data block : List α}
    (listed : block ∈ wholeBlocks size data) :
    block.length = size := by
  induction data using wholeBlocks.induct size with
  | case1 data whole ih =>
    rw [wholeBlocks, if_pos whole, List.mem_cons] at listed
    rcases listed with rfl | listed
    · exact List.length_take_of_le whole.2
    · exact ih listed
  | case2 data none =>
    rw [wholeBlocks, if_neg none] at listed
    cases listed

/-- More data is cut from what was left over on. -/
theorem wholeBlocks_append {size : Nat} (positive : 0 < size) (first second : List α) :
    wholeBlocks size (first ++ second) =
      wholeBlocks size first ++ wholeBlocks size (leftover size first ++ second) := by
  induction first using leftover.induct size with
  | case1 first whole ih =>
    have parts : first ++ second = first.take size ++ (first.drop size ++ second) := by
      rw [← List.append_assoc, List.take_append_drop]
    rw [parts, wholeBlocks_cons positive (List.length_take_of_le whole.2), ih,
      wholeBlocks.eq_1 size first, if_pos whole, leftover.eq_1 size first, if_pos whole]
    rfl
  | case2 first none =>
    rw [wholeBlocks.eq_1 size first, if_neg none, leftover.eq_1 size first,
    if_neg none, List.nil_append]

theorem leftover_append {size : Nat} (positive : 0 < size) (first second : List α) :
    leftover size (first ++ second) = leftover size (leftover size first ++ second) := by
  induction first using leftover.induct size with
  | case1 first whole ih =>
    have parts : first ++ second = first.take size ++ (first.drop size ++ second) := by
      rw [← List.append_assoc, List.take_append_drop]
    rw [parts, leftover_cons positive (List.length_take_of_le whole.2), ih,
      leftover.eq_1 size first, if_pos whole]
  | case2 first none => rw [leftover.eq_1 size first, if_neg none]

end Foundation
