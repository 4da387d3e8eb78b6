import VectorTick.Foundation.AddressSpace

/-! A stack of 64-bit words that grows towards lower addresses. -/

set_option autoImplicit false

namespace Foundation

/-- One of the bytes right below the base; addresses wrap around. -/
def Below (base : UInt64) (count : Nat) (address : UInt64) : Prop :=
  ∃ distance, 0 < distance ∧ distance ≤ count ∧ address = base - UInt64.ofNat distance

theorem Below.lt {base address : UInt64} {count : Nat} (below : Below base count address)
    (room : count ≤ base.toNat) :
    address < base := by
  obtain ⟨distance, positive, near, rfl⟩ := below
  have bound := base.toNat_lt
  have small : (UInt64.ofNat distance).toNat = distance := by
    rw [UInt64.toNat_ofNat', Nat.mod_eq_of_lt (by omega)]
  rw [UInt64.lt_iff_toNat_lt,
    UInt64.toNat_sub_of_le _ _ (by rw [UInt64.le_iff_toNat_le, small]; omega), small]
  omega

theorem Below.mono {base address : UInt64} {count more : Nat}
    (below : Below base count address) (le : count ≤ more) :
    Below base more address := by
  obtain ⟨distance, positive, near, same⟩ := below
  exact ⟨distance, positive, near.trans le, same⟩

/-- The words lie below the base, the first of them highest, and the rest
of the memory is as it was. -/
structure Stacked (base : UInt64) (words : List UInt64) (initial memory : AddressSpace) : Prop where
  held : ∀ (i : Nat) (word : UInt64), words[i]? = some word →
    memory.peek (base - UInt64.ofNat (8 * (i + 1))) 8 = u64 word
  rest : ∀ address, ¬Below base (8 * words.length) address → memory address = initial address

theorem sub_add_ofNat (base : UInt64) {depth i : Nat} (inside : i ≤ depth) :
    base - UInt64.ofNat depth + UInt64.ofNat i = base - UInt64.ofNat (depth - i) := by
  have split : UInt64.ofNat depth = UInt64.ofNat (depth - i) + UInt64.ofNat i := by
    rw [← UInt64.ofNat_add, Nat.sub_add_cancel inside]
  rw [split]
  grind

theorem below_word (base : UInt64) {depth i : Nat} (inside : i < 8) (deep : 8 ≤ depth) :
    Below base depth (base - UInt64.ofNat depth + UInt64.ofNat i) :=
  ⟨depth - i, by omega, by omega, sub_add_ofNat base (by omega)⟩

namespace Stacked

variable {base : UInt64} {words : List UInt64} {initial memory : AddressSpace}

theorem nil (base : UInt64) (memory : AddressSpace) : Stacked base [] memory memory :=
  ⟨fun _ _ none => (nomatch none), fun _ _ => rfl⟩

theorem push (stacked : Stacked base words initial memory)
    (small : 8 * (words.length + 1) ≤ 2 ^ 32) (word : UInt64) :
    Stacked base (words ++ [word]) initial
      (memory.write (base - UInt64.ofNat (8 * (words.length + 1))) (u64 word)) := by
  constructor
  · intro i other found
    rcases Nat.lt_or_ge i words.length with earlier | last
    · rw [List.getElem?_append_left earlier] at found
      rw [AddressSpace.peek_write_apart, stacked.held i other found]
      intro k near
      have distance : base - UInt64.ofNat (8 * (i + 1)) +
          UInt64.ofNat k - (base - UInt64.ofNat (8 * (words.length + 1))) =
          UInt64.ofNat (8 * (words.length - i) + k) := by
        have split : UInt64.ofNat (8 * (words.length + 1)) =
            UInt64.ofNat (8 * (words.length - i)) + UInt64.ofNat (8 * (i + 1)) := by
          rw [← UInt64.ofNat_add]
          congr 1
          omega
        rw [split, UInt64.ofNat_add]
        grind
      rw [distance, UInt64.toNat_ofNat', Nat.mod_eq_of_lt (by omega), length_u64]
      omega
    · have here : i = words.length := by
        have inside := (List.getElem?_eq_some_iff.mp found).1
        rw [List.length_append, List.length_singleton] at inside
        omega
      subst here
      rw [List.getElem?_concat_length] at found
      cases found
      have read :=
        @AddressSpace.peek_write memory (base - UInt64.ofNat (8 * (words.length + 1))) (u64 word)
        (by rw [length_u64]; decide)
      rwa [length_u64] at read
  · intro address outside
    rw [List.length_append, List.length_singleton] at outside
    rw [AddressSpace.write_apart, stacked.rest address fun below => outside (below.mono (by omega))]
    by_contra near
    rw [length_u64, Nat.not_le] at near
    refine outside ?_
    have there : address = base - UInt64.ofNat (8 * (words.length + 1)) +
        UInt64.ofNat (address - (base - UInt64.ofNat (8 * (words.length + 1)))).toNat := by
      rw [UInt64.ofNat_toNat]
      grind
    rw [there]
    exact below_word base near (by omega)

theorem push_pair (stacked : Stacked base words initial memory)
    (small : 8 * (words.length + 2) ≤ 2 ^ 32)
    (low high : UInt64) : Stacked base (words ++ [high, low]) initial
      (memory.write (base - UInt64.ofNat (8 * (words.length + 2))) (u64 low ++ u64 high)) := by
  have upper : base - UInt64.ofNat (8 * (words.length + 2)) + UInt64.ofNat 8 =
      base - UInt64.ofNat (8 * (words.length + 1)) := by
    rw [sub_add_ofNat base (by omega), show 8 * (words.length + 2) - 8 =
      8 * (words.length + 1) by omega]
  have both :=
    (stacked.push (by omega) high).push
    (by rw [List.length_append, List.length_singleton]; omega) low
  rw [List.append_assoc, List.length_append, List.length_singleton] at both
  rw [AddressSpace.write_append, length_u64, upper]
  exact both

theorem peek_base (stacked : Stacked base words initial memory)
    (small : 8 * words.length ≤ 2 ^ 32) :
    memory.peek base 8 = initial.peek base 8 := by
  apply List.map_congr_left
  intro i listed
  have near := List.mem_range.mp listed
  refine stacked.rest _ ?_
  rintro ⟨distance, positive, deep, same⟩
  have sum : UInt64.ofNat (i + distance) = 0 := by
    rw [UInt64.ofNat_add]
    grind
  have zero := congrArg UInt64.toNat sum
  rw [UInt64.toNat_ofNat', Nat.mod_eq_of_lt (by omega), UInt64.toNat_zero] at zero
  omega

end Stacked

end Foundation
