import Mathlib.Tactic
import VectorTick.Foundation.Bytes

/-! A flat memory: one byte for every 64-bit address, and addresses wrap around. -/

set_option autoImplicit false

namespace Foundation

abbrev AddressSpace := UInt64 → UInt8

namespace AddressSpace

def peek (memory : AddressSpace) (address : UInt64) (count : Nat) : Bytes :=
  (List.range count).map fun i => memory (address + UInt64.ofNat i)

/-- A block of bytes is written at an address. -/
def write (memory : AddressSpace) (address : UInt64) (bytes : Bytes) : AddressSpace :=
  fun asked => bytes.getD (asked - address).toNat (memory asked)

/-- None of the bytes from one address on is among those from another on. -/
def Apart (first : UInt64) (count : Nat) (second : UInt64) (others : Nat) : Prop :=
  ∀ i < count, others ≤ (first + UInt64.ofNat i - second).toNat

variable {memory : AddressSpace} {address other : UInt64} {bytes : Bytes} {count : Nat}

@[simp] theorem length_peek : (peek memory address count).length = count := by
  simp [peek]

theorem add_ofNat_sub (address : UInt64) (i : Nat) :
    address + UInt64.ofNat i - address = UInt64.ofNat i := by
  rw [UInt64.add_comm, UInt64.add_sub_cancel]

theorem peek_write (small : bytes.length ≤ 2 ^ 64) :
    peek (write memory address bytes) address bytes.length = bytes := by
  apply List.ext_getElem
  · simp
  · intro i low high
    have wrapped : i % 2 ^ 64 = i := Nat.mod_eq_of_lt (Nat.lt_of_lt_of_le high small)
    have here : (address + UInt64.ofNat i - address).toNat = i := by
      rw [add_ofNat_sub, UInt64.toNat_ofNat', wrapped]
    simp only [peek, List.getElem_map, List.getElem_range, write, here]
    rw [List.getD_eq_getElem?_getD, List.getElem?_eq_getElem high, Option.getD_some]

theorem write_apart (apart : bytes.length ≤ (other - address).toNat) :
    write memory address bytes other = memory other := by
  unfold write
  rw [List.getD_eq_getElem?_getD, List.getElem?_eq_none apart, Option.getD_none]

theorem write_append (first second : Bytes) : write memory address (first ++ second) =
    write (write memory (address + UInt64.ofNat first.length) second) address first := by
  funext asked
  have bound := (asked - address).toNat_lt
  unfold write
  simp only [List.getD_eq_getElem?_getD]
  rcases Nat.lt_or_ge (asked - address).toNat first.length with inside | behind
  · rw [List.getElem?_append_left inside, List.getElem?_eq_getElem inside]
    rfl
  · have part : (UInt64.ofNat first.length).toNat = first.length := by
      rw [UInt64.toNat_ofNat', Nat.mod_eq_of_lt (by omega)]
    have offset : (asked - (address + UInt64.ofNat first.length)).toNat =
        (asked - address).toNat - first.length := by
      have split : asked - (address + UInt64.ofNat first.length) =
          asked - address - UInt64.ofNat first.length := by grind
      rw [split,
        UInt64.toNat_sub_of_le _ _ (by rw [UInt64.le_iff_toNat_le, part]; exact behind), part]
    rw [List.getElem?_append_right behind, List.getElem?_eq_none behind, offset]
    rfl

theorem peek_write_apart (apart : Apart other count address bytes.length) :
    peek (write memory address bytes) other count = peek memory other count := by
  apply List.map_congr_left
  intro i listed
  exact write_apart (apart i (List.mem_range.mp listed))

theorem slice_peek {offset part : Nat} (inside : offset + part ≤ count) :
    slice (peek memory address count) offset part =
      peek memory (address + UInt64.ofNat offset) part := by
  apply List.ext_getElem
  · rw [length_slice (by simpa using inside), length_peek]
  · intro i low high
    simp only [slice, peek, List.getElem_take, List.getElem_drop,
      List.getElem_map, List.getElem_range]
    rw [UInt64.ofNat_add, UInt64.add_assoc]

end AddressSpace

end Foundation
