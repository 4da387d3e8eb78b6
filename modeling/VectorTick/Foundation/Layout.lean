import VectorTick.Foundation.Memory

/-! Records written field by field, each field at an offset of its own.

Nothing in a list of offsets says that the fields do not overlap or leave gaps. `Tiles` does, and
then the single writes come to one write of all fields, and every field is found at its offset.
-/

set_option autoImplicit false

namespace Foundation

def be16 (value : UInt16) : Bytes := be 2 value.toNat
def be32 (value : UInt32) : Bytes := be 4 value.toNat
def be64 (value : UInt64) : Bytes := be 8 value.toNat

def be16Of (bytes : Bytes) : UInt16 := UInt16.ofNat (beValue bytes)
def be32Of (bytes : Bytes) : UInt32 := UInt32.ofNat (beValue bytes)
def be64Of (bytes : Bytes) : UInt64 := UInt64.ofNat (beValue bytes)

@[simp] theorem length_be16 (value : UInt16) : (be16 value).length = 2 := length_be _ _
@[simp] theorem length_be32 (value : UInt32) : (be32 value).length = 4 := length_be _ _
@[simp] theorem length_be64 (value : UInt64) : (be64 value).length = 8 := length_be _ _

@[simp] theorem be16Of_be16 (value : UInt16) : be16Of (be16 value) = value := by
  unfold be16Of be16
  rw [beValue_be _ _ value.toNat_lt, UInt16.ofNat_toNat]

@[simp] theorem be32Of_be32 (value : UInt32) : be32Of (be32 value) = value := by
  unfold be32Of be32
  rw [beValue_be _ _ value.toNat_lt, UInt32.ofNat_toNat]

@[simp] theorem be64Of_be64 (value : UInt64) : be64Of (be64 value) = value := by
  unfold be64Of be64
  rw [beValue_be _ _ value.toNat_lt, UInt64.ofNat_toNat]

theorem be_beValue (bytes : Bytes) : be bytes.length (beValue bytes) = bytes := by
  have back := le_leValue bytes.reverse
  rw [List.length_reverse] at back
  rw [be, beValue, back, List.reverse_reverse]

theorem beValue_lt (bytes : Bytes) : beValue bytes < 256 ^ bytes.length := by
  have bound := leValue_lt bytes.reverse
  rwa [List.length_reverse] at bound

theorem be16_be16Of {bytes : Bytes} (size : bytes.length = 2) : be16 (be16Of bytes) = bytes := by
  have bound := beValue_lt bytes
  have back := be_beValue bytes
  rw [size] at bound back
  rw [be16, be16Of, UInt16.toNat_ofNat', Nat.mod_eq_of_lt (by omega), back]

theorem be32_be32Of {bytes : Bytes} (size : bytes.length = 4) : be32 (be32Of bytes) = bytes := by
  have bound := beValue_lt bytes
  have back := be_beValue bytes
  rw [size] at bound back
  rw [be32, be32Of, UInt32.toNat_ofNat', Nat.mod_eq_of_lt (by omega), back]

theorem be64_be64Of {bytes : Bytes} (size : bytes.length = 8) : be64 (be64Of bytes) = bytes := by
  have bound := beValue_lt bytes
  have back := be_beValue bytes
  rw [size] at bound back
  rw [be64, be64Of, UInt64.toNat_ofNat', Nat.mod_eq_of_lt (by omega), back]

/-- Fields with their offsets, in the order in which they are written. -/
abbrev Layout : Type := List (Nat × Bytes)

namespace Layout

variable {ε : Type}

/-- The fields one after the other. -/
def bytes (layout : Layout) : Bytes := layout.flatMap Prod.snd

def writeTo (fault : ε) (base : Nat) : Layout → Bytes → Except ε Bytes
  | [], memory => .ok memory
  | field :: rest, memory => do
    let memory ← store fault memory (base + field.1) field.2
    writeTo fault base rest memory

/-- Every field begins where the one before it ends, the first one at `start`. -/
def Tiles : Nat → Layout → Prop
  | _, [] => True
  | start, field :: rest => field.1 = start ∧ Tiles (start + field.2.length) rest

theorem writeTo_tiles (fault : ε) (base : Nat) {start : Nat} {layout : Layout}
    (tiles : Tiles start layout)
    {memory : Bytes} (inside : base + start + layout.bytes.length ≤ memory.length) :
    ∃ after, writeTo fault base layout memory = .ok after ∧
      Extends memory after (base + start) layout.bytes := by
  induction layout generalizing start memory with
  | nil => exact ⟨memory, rfl, .refl memory _⟩
  | cons field rest ih =>
    obtain ⟨offset, piece⟩ := field
    obtain ⟨rfl, others⟩ := tiles
    have split : bytes ((offset, piece) :: rest) = piece ++ bytes rest := rfl
    rw [split, List.length_append] at inside
    obtain ⟨middle, stored, first⟩ := store_inside fault memory (base + offset) piece (by omega)
    have room : base + (offset + piece.length) + (bytes rest).length ≤ middle.length := by
      rw [first.length]
      omega
    obtain ⟨after, wrote, second⟩ := ih others room
    refine ⟨after, ?_, ?_⟩
    · unfold writeTo
      rw [stored]
      exact wrote
    · rw [split]
      exact first.trans (by rwa [Nat.add_assoc])

/-- Writes that went through had room. -/
theorem writeTo_room {fault : ε} {base : Nat} {layout : Layout} {memory after : Bytes}
    (wrote : writeTo fault base layout memory = .ok after) :
    after.length = memory.length ∧ ∀ field ∈ layout, field.2 ≠ [] →
      base + field.1 + field.2.length ≤ memory.length := by
  induction layout generalizing memory with
  | nil =>
    cases wrote
    exact ⟨rfl, by simp⟩
  | cons field rest ih =>
    unfold writeTo at wrote
    rcases store_cases fault memory field.2 (base + field.1) with ⟨_, _, failed⟩ |
      ⟨middle, stored, length⟩
    · rw [failed] at wrote
      cases wrote
    · rw [stored] at wrote
      obtain ⟨same, others⟩ := ih wrote
      rw [length] at same others
      refine ⟨same, fun other listed some => ?_⟩
      rcases List.mem_cons.mp listed with rfl | later
      · by_contra outside
        rw [store_outside fault memory _ _ some (by omega)] at stored
        cases stored
      · exact others other later some

/-- In a layout without gaps, a field is where its offset says. -/
theorem slice_field {start : Nat} {layout : Layout} (tiles : Tiles start layout)
    {offset : Nat} {piece : Bytes}
    (listed : (offset, piece) ∈ layout) {front : Bytes}
    (begins : front.length = start) (rest : Bytes) :
    slice (front ++ (layout.bytes ++ rest)) offset piece.length = piece := by
  induction layout generalizing start front with
  | nil => cases listed
  | cons field others ih =>
    obtain ⟨here, later⟩ := tiles
    have split : bytes (field :: others) = field.2 ++ bytes others := rfl
    rw [split, List.append_assoc]
    rcases List.mem_cons.mp listed with rfl | among
    · exact slice_append front piece _ (here.trans begins.symm) rfl
    · rw [← List.append_assoc]
      exact ih later among (by rw [List.length_append, begins])

/-- All fields of a record that lies at the front. -/
theorem slices {layout : Layout} (tiles : Tiles 0 layout) (rest : Bytes) :
    ∀ field ∈ layout, slice (layout.bytes ++ rest) field.1 field.2.length = field.2 := by
  intro field listed
  have found := slice_field tiles listed List.length_nil rest
  rwa [List.nil_append] at found

end Layout

theorem getD_of_slice {memory : Bytes} {offset : Nat} {value : UInt8}
    (found : slice memory offset 1 = [value]) :
    memory.getD offset 0 = value := by
  have here : memory[offset]? = some value := by
    have first := congrArg (·[0]?) found
    simpa [slice] using first
  rw [List.getD_eq_getElem?_getD, here, Option.getD_some]

end Foundation
