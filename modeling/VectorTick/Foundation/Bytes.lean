import Mathlib.Tactic

/-! Byte strings, fixed-width integers inside them, and slices.

Integers are stored least significant byte first unless a name says otherwise. The
value of a byte string is a natural number, so every width shares one set of laws.
-/

set_option autoImplicit false

namespace Foundation

abbrev Bytes := List UInt8

/-- The low `width` bytes of a number, least significant byte first. -/
def le : Nat → Nat → Bytes
  | 0, _ => []
  | width + 1, value => UInt8.ofNat value :: le width (value / 256)

def leValue : Bytes → Nat
  | [] => 0
  | byte :: rest => byte.toNat + 256 * leValue rest

def be (width value : Nat) : Bytes := (le width value).reverse

def beValue (bytes : Bytes) : Nat := leValue bytes.reverse

@[simp] theorem length_le (width value : Nat) : (le width value).length = width := by
  induction width generalizing value with
  | zero => rfl
  | succ width ih => simp [le, ih]

@[simp] theorem length_be (width value : Nat) : (be width value).length = width := by
  simp [be]

theorem leValue_le (width value : Nat) (fits : value < 256 ^ width) :
    leValue (le width value) = value := by
  induction width generalizing value with
  | zero =>
    have zero : value = 0 := by simpa using fits
    simp [le, leValue, zero]
  | succ width ih =>
    have quotient : value / 256 < 256 ^ width := by
      apply Nat.div_lt_of_lt_mul
      rwa [Nat.pow_succ, Nat.mul_comm] at fits
    simp only [le, leValue, ih _ quotient, UInt8.toNat_ofNat']
    omega

theorem leValue_lt (bytes : Bytes) : leValue bytes < 256 ^ bytes.length := by
  induction bytes with
  | nil => simp [leValue]
  | cons byte rest ih =>
    have low := byte.toNat_lt
    simp only [leValue, List.length_cons, Nat.pow_succ]
    omega

theorem le_leValue (bytes : Bytes) : le bytes.length (leValue bytes) = bytes := by
  induction bytes with
  | nil => rfl
  | cons byte rest ih =>
    have low := byte.toNat_lt
    have remainder : UInt8.ofNat (byte.toNat + 256 * leValue rest) = byte := by
      apply UInt8.toNat_inj.mp
      rw [UInt8.toNat_ofNat']
      omega
    have quotient : (byte.toNat + 256 * leValue rest) / 256 = leValue rest := by omega
    simp only [List.length_cons, leValue, le, remainder, quotient, ih]

theorem beValue_be (width value : Nat) (fits : value < 256 ^ width) :
    beValue (be width value) = value := by
  simpa [beValue, be] using leValue_le width value fits

def u16 (value : UInt16) : Bytes := le 2 value.toNat
def u32 (value : UInt32) : Bytes := le 4 value.toNat
def u64 (value : UInt64) : Bytes := le 8 value.toNat

def u16Of (bytes : Bytes) : UInt16 := UInt16.ofNat (leValue bytes)
def u32Of (bytes : Bytes) : UInt32 := UInt32.ofNat (leValue bytes)
def u64Of (bytes : Bytes) : UInt64 := UInt64.ofNat (leValue bytes)

@[simp] theorem length_u16 (value : UInt16) : (u16 value).length = 2 := length_le _ _
@[simp] theorem length_u32 (value : UInt32) : (u32 value).length = 4 := length_le _ _
@[simp] theorem length_u64 (value : UInt64) : (u64 value).length = 8 := length_le _ _

@[simp] theorem u16Of_u16 (value : UInt16) : u16Of (u16 value) = value := by
  rw [u16Of, u16, leValue_le _ _ value.toNat_lt, UInt16.ofNat_toNat]

@[simp] theorem u32Of_u32 (value : UInt32) : u32Of (u32 value) = value := by
  rw [u32Of, u32, leValue_le _ _ value.toNat_lt, UInt32.ofNat_toNat]

@[simp] theorem u64Of_u64 (value : UInt64) : u64Of (u64 value) = value := by
  rw [u64Of, u64, leValue_le _ _ value.toNat_lt, UInt64.ofNat_toNat]

theorem u16_u16Of {bytes : Bytes} (size : bytes.length = 2) : u16 (u16Of bytes) = bytes := by
  have below := leValue_lt bytes
  rw [size] at below
  rw [u16, u16Of, UInt16.toNat_ofNat', Nat.mod_eq_of_lt (by omega), ← size, le_leValue]

theorem u32_u32Of {bytes : Bytes} (size : bytes.length = 4) : u32 (u32Of bytes) = bytes := by
  have below := leValue_lt bytes
  rw [size] at below
  rw [u32, u32Of, UInt32.toNat_ofNat', Nat.mod_eq_of_lt (by omega), ← size, le_leValue]

theorem u64_u64Of {bytes : Bytes} (size : bytes.length = 8) : u64 (u64Of bytes) = bytes := by
  have below := leValue_lt bytes
  rw [size] at below
  rw [u64, u64Of, UInt64.toNat_ofNat', Nat.mod_eq_of_lt (by omega), ← size, le_leValue]

/-- The bytes at offsets `offset` up to `offset + count`, as many of them as there are. -/
def slice (bytes : Bytes) (offset count : Nat) : Bytes := (bytes.drop offset).take count

theorem length_slice {bytes : Bytes} {offset count : Nat} (inside : offset + count ≤ bytes.length) :
    (slice bytes offset count).length = count := by
  simp only [slice, List.length_take, List.length_drop]
  omega

/-- A piece sits at the offset given by the length of what stands before it. -/
theorem slice_append (before piece after : Bytes) {offset count : Nat}
    (start : offset = before.length) (size : count = piece.length) :
    slice (before ++ (piece ++ after)) offset count = piece := by
  subst start size
  simp [slice]

/-- Two adjacent slices make one. -/
theorem slice_add (bytes : Bytes) (offset first second : Nat) :
    slice bytes offset (first + second) =
      slice bytes offset first ++ slice bytes (offset + first) second := by
  rw [slice, slice, slice, List.take_add, List.drop_drop]

theorem slice_take (bytes : Bytes) {offset count limit : Nat} (inside : offset + count ≤ limit) :
    slice (bytes.take limit) offset count = slice bytes offset count := by
  rw [slice, slice, List.drop_take, List.take_take]
  congr 1
  omega

theorem slice_append_left {bytes : Bytes} (rest : Bytes) {offset count : Nat}
    (inside : offset + count ≤ bytes.length) :
    slice (bytes ++ rest) offset count = slice bytes offset count := by
  rw [← slice_take (bytes ++ rest) inside, List.take_left]

theorem slice_byte {bytes : Bytes} {offset : Nat} (inside : offset < bytes.length) :
    [bytes.getD offset 0] = slice bytes offset 1 := by
  rw [slice, List.getD_eq_getElem?_getD, List.getElem?_eq_getElem inside, Option.getD_some,
    List.drop_eq_getElem_cons inside, List.take_succ_cons, List.take_zero]

-- A record lies in memory as its fields in order. Reading one takes a field off the front at a
-- time; bytes past the end count as zero, and callers check the length before they read.

def pop8 (ahead : Bytes) : UInt8 × Bytes := (ahead.headD 0, ahead.drop 1)
def pop32 (ahead : Bytes) : UInt32 × Bytes := (u32Of (ahead.take 4), ahead.drop 4)
def pop64 (ahead : Bytes) : UInt64 × Bytes := (u64Of (ahead.take 8), ahead.drop 8)

/-- A block of bytes of fixed length. -/
def popBlock (count : Nat) (ahead : Bytes) : Vector UInt8 count × Bytes :=
  (Vector.ofFn fun i => ahead.getD i.val 0, ahead.drop count)

@[simp] theorem pop8_cons (value : UInt8) (rest : Bytes) :
    pop8 (value :: rest) = (value, rest) := rfl

@[simp] theorem pop32_append (value : UInt32) (rest : Bytes) :
    pop32 (u32 value ++ rest) = (value, rest) := by
  rw [pop32, List.take_left' (length_u32 value), List.drop_left' (length_u32 value), u32Of_u32]

@[simp] theorem pop64_append (value : UInt64) (rest : Bytes) :
    pop64 (u64 value ++ rest) = (value, rest) := by
  rw [pop64, List.take_left' (length_u64 value), List.drop_left' (length_u64 value), u64Of_u64]

@[simp] theorem popBlock_append {count : Nat} (block : Vector UInt8 count) (rest : Bytes) :
    popBlock count (block.toList ++ rest) = (block, rest) := by
  rw [popBlock, List.drop_left' (Vector.length_toList)]
  congr 1
  apply Vector.ext
  intro i inside
  simp [List.getElem?_append_left]

/-- How values of a type lie in memory, one after the other. -/
structure Element (T : Type) where
  size : Nat
  put : T → Bytes
  get : Bytes → T
  length_put : ∀ value, (put value).length = size
  get_put : ∀ value, get (put value) = value

namespace Element

variable {T : Type} (element : Element T)

def putMany (values : List T) : Bytes := values.flatMap element.put

def getMany : Nat → Bytes → List T
  | 0, _ => []
  | count + 1, bytes =>
    element.get (bytes.take element.size) :: getMany count (bytes.drop element.size)

@[simp] theorem length_putMany (values : List T) :
    (element.putMany values).length = values.length * element.size := by
  simp [putMany, element.length_put, List.length_flatMap]

@[simp] theorem getMany_putMany (values : List T) (rest : Bytes) :
    element.getMany values.length (element.putMany values ++ rest) = values := by
  induction values with
  | nil => rfl
  | cons value values ih =>
    have front : (element.putMany (value :: values) ++ rest) =
        element.put value ++ (element.putMany values ++ rest) := by
      simp [putMany]
    rw [List.length_cons, getMany, front, List.take_left' (element.length_put value),
      element.get_put, List.drop_left' (element.length_put value), ih]

@[simp] theorem length_getMany (count : Nat) (bytes : Bytes) :
    (element.getMany count bytes).length = count := by
  induction count generalizing bytes with
  | zero => rfl
  | succ count ih => simp [getMany, ih]

theorem getElem?_getMany {count i : Nat} (inside : i < count) (bytes : Bytes) :
    (element.getMany count bytes)[i]? =
      some (element.get (slice bytes (i * element.size) element.size)) := by
  induction count generalizing i bytes with
  | zero => omega
  | succ count ih =>
    rw [getMany]
    cases i with
    | zero =>
      rw [List.getElem?_cons_zero, slice, Nat.zero_mul, List.drop_zero]
    | succ i =>
      rw [List.getElem?_cons_succ, ih (by omega), slice, slice, List.drop_drop, Nat.succ_mul,
        Nat.add_comm element.size]

def byte : Element UInt8 where
  size := 1
  put := fun value => [value]
  get := fun bytes => bytes.headD 0
  length_put := fun _ => rfl
  get_put := fun _ => rfl

def word16 : Element UInt16 := ⟨2, u16, u16Of, length_u16, u16Of_u16⟩

def word32 : Element UInt32 := ⟨4, u32, u32Of, length_u32, u32Of_u32⟩

def word64 : Element UInt64 := ⟨8, u64, u64Of, length_u64, u64Of_u64⟩

/-- A signed word lies in memory as the unsigned word of the same bits. -/
def signed64 : Element Int64 where
  size := 8
  put := fun value => u64 value.toUInt64
  get := fun bytes => (u64Of bytes).toInt64
  length_put := fun value => length_u64 value.toUInt64
  get_put := fun value => by rw [u64Of_u64]; rfl

end Element

theorem slice_set_outside {memory : Bytes} {pos offset count : Nat} (byte : UInt8)
    (outside : pos < offset ∨ offset + count ≤ pos) :
    slice (memory.set pos byte) offset count = slice memory offset count := by
  unfold slice
  rcases outside with before | behind
  · rw [List.drop_set_of_lt before]
  · rw [List.drop_set, if_neg (by omega), List.take_set_of_le (by omega)]

theorem slice_set_inside {memory : Bytes} {pos offset count : Nat} (byte : UInt8)
    (begins : offset ≤ pos) :
    slice (memory.set pos byte) offset count =
      (slice memory offset count).set (pos - offset) byte := by
  unfold slice
  rw [List.drop_set, if_neg (by omega), List.take_set]

theorem getElem?_slice {memory : Bytes} {pos offset count : Nat} (begins : offset ≤ pos)
    (ends : pos < offset + count) :
    (slice memory offset count)[pos - offset]? = memory[pos]? := by
  unfold slice
  rw [List.getElem?_take_of_lt (by omega), List.getElem?_drop, Nat.add_sub_cancel' begins]

end Foundation
