import VectorTick.Foundation.Bytes

/-! Bounded memory: loads and stores that stop with a fault outside their block, and a
cursor that consumes a byte string from the front.

The fault is a value of the caller's error type, so a range violation and an ordinary
error travel through one exception monad and stay distinguishable.
-/

set_option autoImplicit false

namespace Foundation

variable {ε : Type}

/-- Overwrite a block of bytes at an offset. -/
def poke (memory : Bytes) (offset : Nat) (bytes : Bytes) : Bytes :=
  memory.take offset ++ (bytes ++ memory.drop (offset + bytes.length))

/-- Read a range; an empty range touches nothing. -/
def load (fault : ε) (memory : Bytes) (offset count : Nat) : Except ε Bytes :=
  if count = 0 ∨ offset + count ≤ memory.length then
    .ok (slice memory offset count) else .error fault

/-- Write a range; an empty range touches nothing. -/
def store (fault : ε) (memory : Bytes) (offset : Nat) (bytes : Bytes) : Except ε Bytes :=
  if bytes = [] then .ok memory
  else if offset + bytes.length ≤ memory.length then
    .ok (poke memory offset bytes) else .error fault

theorem length_poke {memory bytes : Bytes} {offset : Nat}
    (inside : offset + bytes.length ≤ memory.length) :
    (poke memory offset bytes).length = memory.length := by
  simp only [poke, List.length_append, List.length_take, List.length_drop]
  omega

theorem load_inside (fault : ε) {memory : Bytes} {offset count : Nat}
    (inside : offset + count ≤ memory.length) :
    load fault memory offset count = .ok (slice memory offset count) := by
  simp [load, inside]

/-- The memory after a writer that appends: same length, and the part before
`offset` extended by a block. -/
structure Extends (memory after : Bytes) (offset : Nat) (block : Bytes) : Prop where
  length : after.length = memory.length
  front : after.take (offset + block.length) = memory.take offset ++ block

namespace Extends

theorem refl (memory : Bytes) (offset : Nat) : Extends memory memory offset [] := ⟨rfl, by simp⟩

theorem trans {memory middle after first second : Bytes} {offset : Nat}
    (one : Extends memory middle offset first)
    (two : Extends middle after (offset + first.length) second) :
    Extends memory after offset (first ++ second) := by
  refine ⟨two.length.trans one.length, ?_⟩
  rw [List.length_append, ← Nat.add_assoc, two.front, one.front, List.append_assoc]

/-- A block that fills the memory is the memory. -/
theorem eq_of_length {memory after block : Bytes} (whole : Extends memory after 0 block)
    (size : block.length = memory.length) : after = block := by
  have front := whole.front
  rwa [Nat.zero_add, size, ← whole.length, List.take_length, List.take_zero,
    List.nil_append] at front

theorem slice_block {memory after block : Bytes} {offset : Nat}
    (wrote : Extends memory after offset block)
    (start : offset ≤ memory.length) : slice after offset block.length = block := by
  have front : (memory.take offset).length = offset := by
    simp only [List.length_take]
    omega
  rw [← slice_take after (Nat.le_refl _), wrote.front]
  have placed := slice_append (memory.take offset) block [] front.symm rfl
  rwa [List.append_nil] at placed

theorem slice_before {memory after block : Bytes} {offset : Nat}
    (wrote : Extends memory after offset block)
    (start : offset ≤ memory.length) {first count : Nat} (before : first + count ≤ offset) :
    slice after first count = slice memory first count := by
  have front : (memory.take offset).length = offset := by
    simp only [List.length_take]
    omega
  have shared : after.take offset = memory.take offset := by
    have cut := congrArg (List.take offset) wrote.front
    rwa [List.take_take, Nat.min_eq_left (by omega), List.take_append_of_le_length (by omega),
      List.take_of_length_le (by omega : (memory.take offset).length ≤ offset)] at cut
  rw [← slice_take after before, ← slice_take memory before, shared]

end Extends

theorem poke_extends {memory bytes : Bytes} {offset : Nat}
    (inside : offset + bytes.length ≤ memory.length) :
    Extends memory (poke memory offset bytes) offset bytes := by
  have front : (memory.take offset).length = offset := by
    simp only [List.length_take]
    omega
  refine ⟨length_poke inside, ?_⟩
  rw [poke, ← List.append_assoc, List.take_append_of_le_length (by simp [front]),
    List.take_of_length_le (by simp [front])]

theorem store_inside (fault : ε) (memory : Bytes) (offset : Nat) (bytes : Bytes)
    (inside : offset + bytes.length ≤ memory.length) :
    ∃ after, store fault memory offset bytes = .ok after ∧ Extends memory after offset bytes := by
  by_cases empty : bytes = []
  · subst empty
    exact ⟨memory, by simp [store], Extends.refl memory offset⟩
  · exact ⟨poke memory offset bytes, by simp [store, empty, inside], poke_extends inside⟩

theorem store_outside (fault : ε) (memory : Bytes) (offset : Nat)
    (bytes : Bytes) (some : bytes ≠ [])
    (outside : memory.length < offset + bytes.length) :
    store fault memory offset bytes = .error fault := by
  rw [store, if_neg some, if_neg (by omega)]

theorem store_cases (fault : ε) (memory bytes : Bytes) (offset : Nat) :
    (bytes ≠ [] ∧ memory.length < offset + bytes.length ∧
      store fault memory offset bytes = .error fault) ∨
    (∃ after, store fault memory offset bytes = .ok after ∧ after.length = memory.length) := by
  by_cases inside : offset + bytes.length ≤ memory.length
  · obtain ⟨after, stored, wrote⟩ := store_inside fault _ _ _ inside
    exact .inr ⟨after, stored, wrote.length⟩
  · by_cases empty : bytes = []
    · exact .inr ⟨memory, by simp [store, empty], rfl⟩
    · exact .inl ⟨empty, by omega, store_outside fault _ _ _ empty (by omega)⟩

/-- What a store leaves outside its own range is untouched. -/
theorem store_slice_other (fault : ε) {memory after bytes : Bytes} {offset : Nat}
    (inside : offset + bytes.length ≤ memory.length)
    (stored : store fault memory offset bytes = .ok after)
    {start count : Nat} (apart : start + count ≤ offset ∨ offset + bytes.length ≤ start) :
    slice after start count = slice memory start count := by
  unfold store at stored
  split at stored
  · cases stored
    rfl
  · rw [Except.ok.injEq] at stored
    subst stored
    have front : (memory.take offset).length = offset := by
      simp only [List.length_take]
      omega
    rcases apart with before | behind
    · rw [← slice_take _ before, ← slice_take memory before]
      congr 1
      rw [poke, List.take_append_of_le_length (by omega), List.take_of_length_le (by omega)]
    · rw [slice, slice, poke, List.drop_append, List.drop_eq_nil_of_le (by omega), List.nil_append,
        front, List.drop_append, List.drop_eq_nil_of_le (by omega), List.nil_append, List.drop_drop]
      congr 2
      omega

/-- A reader of the bytes still ahead. -/
abbrev Cursor (ε : Type) := StateT Bytes (Except ε)

namespace Cursor

def bytes (fault : ε) (count : Nat) : Cursor ε Bytes := fun ahead =>
  if count ≤ ahead.length then .ok (ahead.take count, ahead.drop count) else .error fault

def byte (fault : ε) : Cursor ε UInt8 := fun ahead =>
  match ahead with
  | [] => .error fault
  | first :: rest => .ok (first, rest)

def u32 (fault : ε) : Cursor ε UInt32 := do
  let raw ← bytes fault 4
  return u32Of raw

def u64 (fault : ε) : Cursor ε UInt64 := do
  let raw ← bytes fault 8
  return u64Of raw

/-- Peel one step off a cursor program whose outcome is known. -/
theorem bind_ok {α β : Type} {first : Cursor ε α} {next : α → Cursor ε β}
    {ahead rest : Bytes} {value : α}
    (done : first ahead = .ok (value, rest)) : (first >>= next) ahead = next value rest := by
  change (first ahead >>= fun out => next out.1 out.2) = _
  rw [done]
  rfl

@[simp] theorem bytes_append (fault : ε) (piece rest : Bytes) :
    bytes fault piece.length (piece ++ rest) = .ok (piece, rest) := by
  simp [bytes]

theorem bytes_append_of_length (fault : ε) {piece : Bytes} (rest : Bytes) {count : Nat}
    (size : count = piece.length) : bytes fault count (piece ++ rest) = .ok (piece, rest) := by
  subst size
  exact bytes_append fault piece rest

@[simp] theorem byte_cons (fault : ε) (first : UInt8) (rest : Bytes) :
    byte fault (first :: rest) = .ok (first, rest) := rfl

@[simp] theorem u32_append (fault : ε) (value : UInt32) (rest : Bytes) :
    u32 fault (Foundation.u32 value ++ rest) = .ok (value, rest) := by
  rw [u32, bind_ok (bytes_append_of_length fault rest (length_u32 value).symm), u32Of_u32]
  rfl

@[simp] theorem u64_append (fault : ε) (value : UInt64) (rest : Bytes) :
    u64 fault (Foundation.u64 value ++ rest) = .ok (value, rest) := by
  rw [u64, bind_ok (bytes_append_of_length fault rest (length_u64 value).symm), u64Of_u64]
  rfl

-- A cursor at a place of a memory.

section Drop

variable {memory : Bytes} {offset : Nat}

theorem bytes_drop (fault : ε) {count : Nat} (inside : offset + count ≤ memory.length) :
    bytes fault count (memory.drop offset) =
      .ok (slice memory offset count, memory.drop (offset + count)) := by
  rw [bytes, if_pos (by rw [List.length_drop]; omega), List.drop_drop]
  rfl

theorem u32_drop (fault : ε) (inside : offset + 4 ≤ memory.length) :
    u32 fault (memory.drop offset) =
      .ok (u32Of (slice memory offset 4), memory.drop (offset + 4)) := by
  rw [u32, bind_ok (bytes_drop fault inside)]
  rfl

theorem u64_drop (fault : ε) (inside : offset + 8 ≤ memory.length) :
    u64 fault (memory.drop offset) =
      .ok (u64Of (slice memory offset 8), memory.drop (offset + 8)) := by
  rw [u64, bind_ok (bytes_drop fault inside)]
  rfl

theorem byte_drop (fault : ε) (inside : offset + 1 ≤ memory.length) :
    byte fault (memory.drop offset) =
      .ok (memory.get ⟨offset, inside⟩, memory.drop (offset + 1)) := by
  rw [List.drop_eq_getElem_cons inside]
  rfl

end Drop

end Cursor

end Foundation
