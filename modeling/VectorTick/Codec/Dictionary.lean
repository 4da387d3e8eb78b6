import VectorTick.Codec.VarInt

/-! Dictionary coding of repeated values.

The encoder keeps a map from values to indices, the distinct values in a second table, and the
indices of the values. The hash map is modelled by its entries; only its lookups and its size count.
-/

set_option autoImplicit false

namespace VectorTick.Codec

open Foundation

def networkU32 : Element UInt32 where
  size := 4
  put := fun value => be 4 value.toNat
  get := fun bytes => UInt32.ofNat (beValue bytes)
  length_put := fun _ => length_be _ _
  get_put := fun value => by rw [beValue_be _ _ value.toNat_lt, UInt32.ofNat_toNat]

structure DictionaryEncoder (T : Type) where
  dict : List (T × UInt32)
  indices : List UInt32
  reverseMap : List T
  deriving DecidableEq, Repr

structure DictionaryDecoder (T : Type) where
  dict : List T
  indices : List UInt32
  deriving DecidableEq, Repr

variable {T : Type}

namespace DictionaryEncoder

section Build

variable [DecidableEq T]

def add (encoder : DictionaryEncoder T) (value : T) : DictionaryEncoder T :=
  let encoder :=
    match encoder.dict.lookup value with
    | none =>
      { encoder with
        dict := encoder.dict ++ [(value, UInt32.ofNat encoder.dict.length)]
        reverseMap := encoder.reverseMap ++ [value] }
    | some _ => encoder
  { encoder with indices := encoder.indices ++ [(encoder.dict.lookup value).getD 0] }

def build (values : List T) : DictionaryEncoder T := values.foldl add ⟨[], [], []⟩

end Build

/-- What `encode` stores, in order; it checks its room before each of them. -/
def fields (element : Element T) (encoder : DictionaryEncoder T) : List Bytes :=
  networkU32.put (UInt32.ofNat encoder.reverseMap.length) :: (encoder.reverseMap.map element.put ++
    (networkU32.put (UInt32.ofNat encoder.indices.length) :: encoder.indices.map networkU32.put))

/-- `room` is `output_size - offset`. -/
def storeFields : List Bytes → Nat → Bytes × Bool
  | [], _ => ([], true)
  | field :: rest, room =>
    if room < field.length then ([], false)
    else
      let tail := storeFields rest (room - field.length)
      (field ++ tail.1, tail.2)

def encode (element : Element T) (encoder : DictionaryEncoder T) (outputSize : Nat) : Stored :=
  let out := storeFields (encoder.fields element) outputSize
  ⟨out.1, if out.2 then out.1.length else 0⟩

end DictionaryEncoder

namespace DictionaryDecoder

/-- `std::vector::resize`: entries that stay keep their value. -/
def resize {V : Type} [Inhabited V] (entries : List V) (count : Nat) : List V :=
  entries.take count ++ List.replicate (count - entries.length) default

/-- A loop that stores elements of the input at the indices from `i` on;
`none` where the input ends. -/
def readMany {V : Type} (element : Element V) (input : Bytes) : Nat → Nat → Nat →
    List V → Option Nat × List V
  | 0, _, offset, entries => (some offset, entries)
  | left + 1, i, offset, entries =>
    if offset + element.size > input.length then (none, entries)
    else readMany element input left (i + 1) (offset + element.size)
      (entries.set i (element.get (slice input offset element.size)))

/-- The returned size, the out parameter and the decoder as they are left. -/
structure Decoded (T : Type) where
  size : Nat
  numValues : Nat
  decoder : DictionaryDecoder T
  deriving DecidableEq, Repr

/-- `input_size` is the number of bytes of the input. -/
def decode [Inhabited T] (element : Element T) (decoder : DictionaryDecoder T)
    (input : Bytes) (numValues : Nat) :
    Decoded T :=
  if 0 + networkU32.size > input.length then ⟨0, numValues, decoder⟩
  else
    let dictSize := (networkU32.get (slice input 0 networkU32.size)).toNat
    match readMany element input dictSize 0 (0 + networkU32.size)
      (resize decoder.dict dictSize) with
    | (none, dict) => ⟨0, numValues, { decoder with dict }⟩
    | (some offset, dict) =>
      if offset + networkU32.size > input.length then ⟨0, numValues, { decoder with dict }⟩
      else
        let numValues := (networkU32.get (slice input offset networkU32.size)).toNat
        match readMany networkU32 input numValues 0 (offset + networkU32.size)
          (resize decoder.indices numValues) with
        | (none, indices) => ⟨0, numValues, ⟨dict, indices⟩⟩
        | (some offset, indices) => ⟨offset, numValues, ⟨dict, indices⟩⟩

/-- `dict_[index]`, unchecked in the source. -/
def valueAt (decoder : DictionaryDecoder T) (index : UInt32) : Except Stop T :=
  match decoder.dict[index.toNat]? with
  | none => .error .fault
  | some value => .ok value

def getValues (decoder : DictionaryDecoder T) : Except Stop (List T) :=
  decoder.indices.mapM decoder.valueAt

end DictionaryDecoder

namespace DictionaryEncoder

variable [DecidableEq T]

/-- The tables after some values: the distinct ones in order of their first occurrence, and every
index where its value stands among them. -/
structure Tables (seen : List T) (encoder : DictionaryEncoder T) : Prop where
  ordered : (encoder.reverseMap.map fun value => seen.idxOf value).Pairwise (· < ·)
  covers : ∀ value, value ∈ encoder.reverseMap ↔ value ∈ seen
  size : encoder.dict.length = encoder.reverseMap.length
  lookup : ∀ value, encoder.dict.lookup value =
    if value ∈ encoder.reverseMap then
      some (UInt32.ofNat (encoder.reverseMap.idxOf value)) else none
  indices : encoder.indices = seen.map fun value => UInt32.ofNat (encoder.reverseMap.idxOf value)

theorem Tables.empty : Tables ([] : List T) ⟨[], [], []⟩ where
  ordered := .nil
  covers := fun _ => Iff.rfl
  size := rfl
  lookup := fun _ => rfl
  indices := rfl

theorem Tables.add_known {seen : List T} {encoder : DictionaryEncoder T}
    (tables : Tables seen encoder) {value : T}
    (known : value ∈ encoder.reverseMap) : Tables (seen ++ [value]) (encoder.add value) := by
  have found := tables.lookup value
  rw [if_pos known] at found
  have same : encoder.add value =
      { encoder with indices := encoder.indices ++
        [UInt32.ofNat (encoder.reverseMap.idxOf value)] } := by
    simp only [add, found, Option.getD_some]
  rw [same]
  refine ⟨?_, fun other => ?_, tables.size, tables.lookup, ?_⟩
  · have places : (encoder.reverseMap.map fun other => (seen ++ [value]).idxOf other) =
        encoder.reverseMap.map fun other => seen.idxOf other :=
      List.map_congr_left fun other member =>
        List.idxOf_append_of_mem ((tables.covers other).mp member)
    dsimp only
    rw [places]
    exact tables.ordered
  · rw [List.mem_append, List.mem_singleton]
    constructor
    · exact fun member => .inl ((tables.covers other).mp member)
    · rintro (member | rfl)
      · exact (tables.covers other).mpr member
      · exact known
  · rw [List.map_append, List.map_singleton, tables.indices]

theorem Tables.add_new {seen : List T} {encoder : DictionaryEncoder T}
    (tables : Tables seen encoder) {value : T}
    (unknown : value ∉ encoder.reverseMap) : Tables (seen ++ [value]) (encoder.add value) := by
  have missing := tables.lookup value
  rw [if_neg unknown] at missing
  have fresh : value ∉ seen := fun member => unknown ((tables.covers value).mpr member)
  have grown
      (other : T) : (encoder.dict ++ [(value, UInt32.ofNat encoder.dict.length)]).lookup other =
      if other ∈ encoder.reverseMap ++ [value] then
        some (UInt32.ofNat ((encoder.reverseMap ++ [value]).idxOf other)) else none := by
    rw [List.lookup_append, tables.lookup, tables.size]
    by_cases known : other ∈ encoder.reverseMap
    · rw [if_pos known, if_pos (List.mem_append_left _ known),
        List.idxOf_append_of_mem known, Option.some_or]
    · rw [if_neg known, Option.none_or]
      by_cases own : other = value
      · subst own
        rw [if_pos (by simp), List.idxOf_append_of_notMem known]
        simp
      · rw [if_neg (by simp [known, own])]
        simp [List.lookup_cons, beq_eq_false_iff_ne.mpr own]
  have place : (encoder.reverseMap ++ [value]).idxOf value = encoder.reverseMap.length := by
    rw [List.idxOf_append_of_notMem unknown]
    simp
  have index : (encoder.dict ++ [(value, UInt32.ofNat encoder.dict.length)]).lookup value =
      some (UInt32.ofNat encoder.reverseMap.length) := by
    rw [grown, if_pos (by simp), place]
  have same : encoder.add value =
      { dict := encoder.dict ++ [(value, UInt32.ofNat encoder.dict.length)]
        indices := encoder.indices ++ [UInt32.ofNat encoder.reverseMap.length]
        reverseMap := encoder.reverseMap ++ [value] } := by
    simp only [add, missing, index, Option.getD_some]
  rw [same]
  refine ⟨?_, fun other => ?_, ?_, grown, ?_⟩
  · have places : (encoder.reverseMap.map fun other => (seen ++ [value]).idxOf other) =
        encoder.reverseMap.map fun other => seen.idxOf other :=
      List.map_congr_left fun other member =>
        List.idxOf_append_of_mem ((tables.covers other).mp member)
    dsimp only
    rw [List.map_append, places, List.map_singleton, List.pairwise_append]
    refine ⟨tables.ordered, List.pairwise_singleton _ _, ?_⟩
    intro first member last single
    obtain ⟨other, inTable, rfl⟩ := List.mem_map.mp member
    rw [List.mem_singleton.mp single, List.idxOf_append_of_notMem fresh]
    exact Nat.lt_of_lt_of_le (List.idxOf_lt_length_of_mem ((tables.covers other).mp inTable))
      (Nat.le_add_right _ _)
  · simp only [List.mem_append, List.mem_singleton, tables.covers other]
  · simp only [List.length_append, tables.size, List.length_singleton]
  · dsimp only
    rw [List.map_append, List.map_singleton, place, tables.indices]
    congr 1
    exact List.map_congr_left fun other member => by
      rw [List.idxOf_append_of_mem ((tables.covers other).mpr member)]

theorem Tables.add {seen : List T} {encoder : DictionaryEncoder T}
    (tables : Tables seen encoder) (value : T) :
    Tables (seen ++ [value]) (encoder.add value) := by
  by_cases known : value ∈ encoder.reverseMap
  · exact tables.add_known known
  · exact tables.add_new known

theorem Tables.foldl {seen : List T} {encoder : DictionaryEncoder T}
    (tables : Tables seen encoder) (values : List T) :
    Tables (seen ++ values) (values.foldl DictionaryEncoder.add encoder) := by
  induction values generalizing seen encoder with
  | nil => simpa using tables
  | cons value rest ih => simpa using ih (tables.add value)

theorem tables_build (values : List T) : Tables values (build values) := by
  simpa [build] using Tables.empty.foldl values

theorem Tables.nodup {seen : List T} {encoder : DictionaryEncoder T}
    (tables : Tables seen encoder) :
    encoder.reverseMap.Nodup :=
  List.Pairwise.of_map (fun value => seen.idxOf value)
    (fun _ _ before same => Nat.ne_of_lt before (congrArg (seen.idxOf ·) same)) tables.ordered

theorem Tables.length_le {seen : List T} {encoder : DictionaryEncoder T}
    (tables : Tables seen encoder) :
    encoder.reverseMap.length ≤ seen.length :=
  (List.subperm_of_subset tables.nodup fun value member =>
    (tables.covers value).mp member).length_le

end DictionaryEncoder

namespace DictionaryEncoder

theorem storeFields_fits {fields : List Bytes} {room : Nat} (fits : fields.flatten.length ≤ room) :
    storeFields fields room = (fields.flatten, true) := by
  induction fields generalizing room with
  | nil => rfl
  | cons field rest ih =>
    rw [List.flatten_cons, List.length_append] at fits
    rw [storeFields, if_neg (by omega), ih (by omega), List.flatten_cons]

def bytes (element : Element T) (encoder : DictionaryEncoder T) : Bytes :=
  networkU32.put (UInt32.ofNat encoder.reverseMap.length) ++ (element.putMany encoder.reverseMap ++
    (networkU32.put (UInt32.ofNat encoder.indices.length) ++ networkU32.putMany encoder.indices))

theorem flatten_fields (element : Element T) (encoder : DictionaryEncoder T) :
    (encoder.fields element).flatten = encoder.bytes element := by
  simp only [fields, bytes, List.flatten_cons, List.flatten_append,
    Element.putMany, List.flatMap_def]

theorem length_bytes (element : Element T) (encoder : DictionaryEncoder T) :
    (encoder.bytes element).length =
    8 + encoder.reverseMap.length * element.size + 4 * encoder.indices.length := by
  simp only [bytes, List.length_append, networkU32.length_put, Element.length_putMany]
  simp only [networkU32]
  omega

theorem encode_fits {element : Element T} {encoder : DictionaryEncoder T} {outputSize : Nat}
    (fits : (encoder.bytes element).length ≤ outputSize) :
    encoder.encode element outputSize =
      ⟨encoder.bytes element, (encoder.bytes element).length⟩ := by
  rw [encode, storeFields_fits (by rwa [flatten_fields]), flatten_fields]
  rfl

end DictionaryEncoder

namespace DictionaryDecoder

theorem length_resize {V : Type} [Inhabited V] (entries : List V) (count : Nat) :
    (resize entries count).length = count := by
  rw [resize, List.length_append, List.length_take, List.length_replicate]
  omega

theorem readMany_inside {V : Type} (element : Element V) {input : Bytes}
    {left i offset : Nat} {entries : List V}
    (room : offset + left * element.size ≤ input.length) (whole : i + left = entries.length) :
    readMany element input left i offset entries =
      (some (offset + left * element.size),
        entries.take i ++ element.getMany left (input.drop offset)) := by
  induction left generalizing i offset entries with
  | zero =>
    rw [readMany, Element.getMany, List.append_nil, List.take_of_length_le (by omega),
      Nat.zero_mul, Nat.add_zero]
  | succ left ih =>
    rw [Nat.succ_mul] at room
    have grown : (entries.set i (element.get (slice input offset element.size))).take (i + 1) =
        entries.take i ++ [element.get (slice input offset element.size)] := by
      rw [List.take_add_one, List.getElem?_set_self (by omega), List.take_set_of_le (Nat.le_refl i)]
      rfl
    rw [readMany, if_neg (by omega), ih (by omega) (by rw [List.length_set]; omega), grown,
      Element.getMany, slice, List.drop_drop, List.append_assoc, List.singleton_append,
      Nat.succ_mul]
    congr 2
    omega

theorem readMany_short {V : Type} (element : Element V) {input : Bytes}
    {left i offset : Nat} {entries : List V}
    (begins : offset ≤ input.length) (short : input.length < offset + left * element.size) :
    (readMany element input left i offset entries).1 = none := by
  induction left generalizing i offset entries with
  | zero => omega
  | succ left ih =>
    rw [readMany]
    split
    · rfl
    · rw [Nat.succ_mul] at short
      exact ih (by omega) (by omega)

-- The fields of an encoding, where the format has them.

def storedDictSize (input : Bytes) : Nat := (networkU32.get (slice input 0 4)).toNat

def storedCount (element : Element T) (input : Bytes) : Nat :=
  (networkU32.get (slice input (4 + storedDictSize input * element.size) 4)).toNat

def storedIndex (element : Element T) (input : Bytes) (i : Nat) : Nat :=
  (networkU32.get (slice input (8 + storedDictSize input * element.size + 4 * i) 4)).toNat

def storedSize (element : Element T) (input : Bytes) : Nat :=
  8 + storedDictSize input * element.size + 4 * storedCount element input

/-- Both sections lie in the input. -/
def Complete (element : Element T) (input : Bytes) : Prop :=
  8 + storedDictSize input * element.size ≤ input.length ∧ storedSize element input ≤ input.length

variable [Inhabited T]

theorem readMany_dict {element : Element T} {input : Bytes} (decoder : DictionaryDecoder T)
    (room : 4 + storedDictSize input * element.size ≤ input.length) :
    readMany element input (storedDictSize input) 0 (0 + networkU32.size)
        (resize decoder.dict (storedDictSize input)) =
      (some (4 + storedDictSize input * element.size), element.getMany (storedDictSize input)
        (input.drop 4)) := by
  have four : 0 + networkU32.size = 4 := rfl
  rw [four, readMany_inside element room (by rw [length_resize, Nat.zero_add]),
    List.take_zero, List.nil_append]

theorem decode_complete {element : Element T} {input : Bytes}
    (decoder : DictionaryDecoder T) (numValues : Nat)
    (complete : Complete element input) : decode element decoder input numValues =
      ⟨storedSize element input, storedCount element input,
        ⟨element.getMany (storedDictSize input) (input.drop 4),
        networkU32.getMany (storedCount element input)
          (input.drop (8 + storedDictSize input * element.size))⟩⟩ := by
  obtain ⟨dictionary, indices⟩ := complete
  have four : networkU32.size = 4 := rfl
  have behind : 4 + storedDictSize input * element.size + networkU32.size =
      8 + storedDictSize input * element.size := by
    omega
  have size : (networkU32.get (slice input 0 networkU32.size)).toNat = storedDictSize input := rfl
  have count : (networkU32.get
      (slice input (4 + storedDictSize input * element.size) networkU32.size)).toNat =
      storedCount element input := rfl
  have room : 8 + storedDictSize input * element.size + storedCount element input *
      networkU32.size ≤ input.length := by
    rw [storedSize] at indices
    rw [four]
    omega
  rw [decode, if_neg (by omega)]
  dsimp only
  rw [size, readMany_dict decoder (by omega)]
  dsimp only
  rw [if_neg (by omega), count, behind,
    readMany_inside networkU32 room (by rw [length_resize, Nat.zero_add]), List.take_zero,
    List.nil_append, four, storedSize, Nat.mul_comm (storedCount element input)]

theorem decode_incomplete {element : Element T} {input : Bytes}
    (decoder : DictionaryDecoder T) (numValues : Nat)
    (incomplete : ¬ Complete element input) :
    (decode element decoder input numValues).size = 0 := by
  have four : networkU32.size = 4 := rfl
  have behind : 4 + storedDictSize input * element.size + networkU32.size =
      8 + storedDictSize input * element.size := by
    omega
  have size : (networkU32.get (slice input 0 networkU32.size)).toNat = storedDictSize input := rfl
  have count : (networkU32.get
      (slice input (4 + storedDictSize input * element.size) networkU32.size)).toNat =
      storedCount element input := rfl
  rw [decode]
  split
  · rfl
  · dsimp only
    rw [size]
    by_cases dictionary : 4 + storedDictSize input * element.size ≤ input.length
    · rw [readMany_dict decoder dictionary]
      dsimp only
      split
      · rfl
      · rw [count, behind]
        have short : input.length < 8 + storedDictSize input * element.size +
            storedCount element input * networkU32.size := by
          rw [four, Nat.mul_comm (storedCount element input)]
          exact Nat.not_le.mp fun room => incomplete ⟨by omega, room⟩
        have cut := @readMany_short _ networkU32 input (storedCount element input) 0 _
          (resize decoder.indices (storedCount element input)) (by omega) short
        cases read : readMany networkU32 input (storedCount element input) 0
          (8 + storedDictSize input * element.size)
            (resize decoder.indices (storedCount element input)) with
        | mk found entries =>
          rw [read] at cut
          cases cut
          rfl
    · have cut := @readMany_short _ element input (storedDictSize input) 0 (0 + networkU32.size)
        (resize decoder.dict (storedDictSize input)) (by omega) (by omega)
      cases read : readMany element input (storedDictSize input) 0 (0 + networkU32.size)
        (resize decoder.dict (storedDictSize input)) with
      | mk found entries =>
        rw [read] at cut
        cases cut
        rfl

theorem complete_of_decode {element : Element T} {decoder : DictionaryDecoder T}
    {input : Bytes} {numValues : Nat}
    (accepted : (decode element decoder input numValues).size ≠ 0) : Complete element input := by
  by_contra incomplete
  exact accepted (decode_incomplete decoder numValues incomplete)

end DictionaryDecoder

namespace DictionaryDecoder

theorem getValues_eq {decoder : DictionaryDecoder T} {values : List T}
    (shown : decoder.indices.map (fun index => decoder.dict[index.toNat]?) = values.map some) :
    decoder.getValues = .ok values := by
  rw [getValues]
  generalize decoder.indices = indices at shown ⊢
  induction indices generalizing values with
  | nil =>
    rw [List.map_nil, eq_comm, List.map_eq_nil_iff] at shown
    rw [shown]
    rfl
  | cons index rest ih =>
    cases values with
    | nil => cases shown
    | cons value more =>
      rw [List.map_cons, List.map_cons, List.cons.injEq] at shown
      have found : decoder.valueAt index = .ok value := by rw [valueAt, shown.1]
      rw [List.mapM_cons, found, ok_bind, ih shown.2, ok_bind]
      rfl

variable [Inhabited T]

theorem decode_bytes (element : Element T) (encoder : DictionaryEncoder T)
    (decoder : DictionaryDecoder T)
    (numValues : Nat) (rest : Bytes) (few : encoder.reverseMap.length < 2 ^ 32)
    (counted : encoder.indices.length < 2 ^ 32) :
    decode element decoder (encoder.bytes element ++ rest) numValues =
      ⟨(encoder.bytes element).length, encoder.indices.length,
        ⟨encoder.reverseMap, encoder.indices⟩⟩ := by
  have whole : encoder.bytes element ++ rest =
      networkU32.put (UInt32.ofNat encoder.reverseMap.length) ++
      (element.putMany encoder.reverseMap ++
        (networkU32.put (UInt32.ofNat encoder.indices.length) ++
        (networkU32.putMany encoder.indices ++ rest))) := by
    simp only [DictionaryEncoder.bytes, List.append_assoc]
  have length := DictionaryEncoder.length_bytes element encoder
  have four (value : UInt32) : (networkU32.put value).length = 4 := networkU32.length_put value
  have dictSize : storedDictSize (encoder.bytes element ++ rest) = encoder.reverseMap.length := by
    rw [storedDictSize, whole, slice, List.drop_zero, List.take_left' (four _), networkU32.get_put,
      UInt32.toNat_ofNat', Nat.mod_eq_of_lt few]
  have count : storedCount element (encoder.bytes element ++ rest) = encoder.indices.length := by
    rw [storedCount, dictSize, whole, ← List.append_assoc,
      slice_append _ (networkU32.put _) _ (by rw [List.length_append, four, Element.length_putMany])
        (four _).symm,
      networkU32.get_put, UInt32.toNat_ofNat', Nat.mod_eq_of_lt counted]
  have dict : element.getMany encoder.reverseMap.length ((encoder.bytes element ++ rest).drop 4) =
      encoder.reverseMap := by
    rw [whole, List.drop_left' (four _), Element.getMany_putMany]
  have indices : networkU32.getMany encoder.indices.length
      ((encoder.bytes element ++ rest).drop (8 + encoder.reverseMap.length * element.size)) =
        encoder.indices := by
    rw [whole, ← List.append_assoc, ← List.append_assoc, List.drop_left' (by
      rw [List.length_append, List.length_append, four, four, Element.length_putMany]
      omega), Element.getMany_putMany]
  have complete : Complete element (encoder.bytes element ++ rest) := by
    rw [Complete, storedSize, dictSize, count, List.length_append]
    omega
  rw [decode_complete decoder numValues complete, storedSize, dictSize,
    count, dict, indices, length]

end DictionaryDecoder

/-- The distinct values in order of first occurrence, and the way through bytes back to the list. -/
theorem dictionary_roundTrip [DecidableEq T] [Inhabited T] (element : Element T) (values : List T)
    (short : values.length < 2 ^ 32) :
    let encoder := DictionaryEncoder.build values
    (encoder.reverseMap.Nodup ∧ (∀ value, value ∈ encoder.reverseMap ↔ value ∈ values) ∧
      (encoder.reverseMap.map fun value => values.idxOf value).Pairwise (· < ·)) ∧
    ∀ outputSize, 8 + encoder.reverseMap.length * element.size + 4 * values.length ≤ outputSize →
      let stored := encoder.encode element outputSize
      stored.size ≠ 0 ∧ stored.bytes.length = stored.size ∧ ∀ decoder numValues rest,
        let decoded := DictionaryDecoder.decode element decoder (stored.bytes ++ rest) numValues
        decoded.size = stored.size ∧ decoded.numValues = values.length ∧
          decoded.decoder.getValues = .ok values := by
  have tables := DictionaryEncoder.tables_build values
  have distinct := tables.length_le
  have indices := tables.indices
  generalize DictionaryEncoder.build values = encoder at tables distinct indices ⊢
  refine ⟨⟨tables.nodup, tables.covers, tables.ordered⟩, ?_⟩
  intro outputSize room
  have count : encoder.indices.length = values.length := by rw [indices, List.length_map]
  have length := DictionaryEncoder.length_bytes element encoder
  rw [count] at length
  rw [DictionaryEncoder.encode_fits (by omega)]
  refine ⟨by dsimp only; omega, rfl, fun decoder numValues rest => ?_⟩
  dsimp only
  rw [DictionaryDecoder.decode_bytes element encoder decoder numValues rest (by omega) (by omega)]
  refine ⟨rfl, count, DictionaryDecoder.getValues_eq ?_⟩
  dsimp only
  rw [indices, List.map_map]
  refine List.map_congr_left fun value member => ?_
  have inTable := (tables.covers value).mpr member
  have place := List.idxOf_lt_length_of_mem inTable
  rw [Function.comp_apply, UInt32.toNat_ofNat', Nat.mod_eq_of_lt (by omega),
    List.getElem?_eq_getElem place, List.getElem_idxOf]

theorem dictionary_roundTrip_repeats :
    let encoder := DictionaryEncoder.build [(9 : UInt8), 4, 9, 4]
    (encoder.reverseMap.Nodup ∧ (∀ value, value ∈ encoder.reverseMap ↔ value ∈ [9, 4, 9, 4]) ∧
      (encoder.reverseMap.map fun value => [9, 4, 9, 4].idxOf value).Pairwise (· < ·)) ∧
    ∀ outputSize, 8 + encoder.reverseMap.length * Element.byte.size + 4 *
      [(9 : UInt8), 4, 9, 4].length ≤ outputSize →
      let stored := encoder.encode Element.byte outputSize
      stored.size ≠ 0 ∧ stored.bytes.length = stored.size ∧ ∀ decoder numValues rest,
        let decoded :=
          DictionaryDecoder.decode Element.byte decoder (stored.bytes ++ rest) numValues
        decoded.size = stored.size ∧ decoded.numValues = [(9 : UInt8), 4, 9, 4].length ∧
          decoded.decoder.getValues = .ok [9, 4, 9, 4] :=
  dictionary_roundTrip Element.byte [9, 4, 9, 4] (by decide)

namespace DictionaryDecoder

variable [Inhabited T]

/-- Every index that is read lies in the dictionary exactly if the stored
ones do; nothing checks them. -/
theorem indices_inside_iff {element : Element T} {decoder : DictionaryDecoder T}
    {input : Bytes} {numValues : Nat}
    (accepted : (decode element decoder input numValues).size ≠ 0) :
    (∀ index ∈ (decode element decoder input numValues).decoder.indices,
        index.toNat < (decode element decoder input numValues).decoder.dict.length) ↔
      ∀ i < storedCount element input, storedIndex element input i < storedDictSize input := by
  have complete := complete_of_decode accepted
  have selected (i : Nat) (inside : i < storedCount element input) :
      (networkU32.getMany (storedCount element input)
        (input.drop (8 + storedDictSize input * element.size)))[i]? =
        some (networkU32.get
          (slice input (8 + storedDictSize input * element.size + 4 * i) 4)) := by
    have four : networkU32.size = 4 := rfl
    rw [networkU32.getElem?_getMany inside, four, Nat.mul_comm i 4, slice, slice, List.drop_drop]
  rw [decode_complete decoder numValues complete]
  dsimp only
  rw [Element.length_getMany]
  constructor
  · exact fun every i inside => every _ (List.mem_of_getElem? (selected i inside))
  · intro every index member
    obtain ⟨i, found⟩ := List.mem_iff_getElem?.mp member
    obtain ⟨inside, -⟩ := List.getElem?_eq_some_iff.mp found
    rw [Element.length_getMany] at inside
    rw [selected i inside] at found
    cases found
    exact every i inside

theorem indices_inside_iff_one :
    (∀ index ∈ (decode Element.byte ⟨[], []⟩ [0, 0, 0, 1, 7, 0, 0, 0, 1, 0, 0,
      0, 0] 0).decoder.indices,
        index.toNat < (decode Element.byte ⟨[], []⟩ [0, 0, 0, 1, 7, 0, 0, 0, 1, 0, 0, 0,
          0] 0).decoder.dict.length) ↔
      ∀ i < storedCount Element.byte [0, 0, 0, 1, 7, 0, 0, 0, 1, 0, 0, 0, 0],
        storedIndex Element.byte [0, 0, 0, 1, 7, 0, 0, 0, 1, 0, 0, 0, 0] i <
          storedDictSize [0, 0, 0, 1, 7, 0, 0, 0, 1, 0, 0, 0, 0] :=
  indices_inside_iff (by decide)

/-- An index behind a dictionary of one entry is accepted. -/
theorem indices_outside : ¬ ∀ (decoder : DictionaryDecoder UInt8) (input : Bytes) (numValues : Nat),
    (decode Element.byte decoder input numValues).size ≠ 0 →
      ∀ index ∈ (decode Element.byte decoder input numValues).decoder.indices,
        index.toNat < (decode Element.byte decoder input numValues).decoder.dict.length := by
  intro claimed
  have inside :=
    claimed ⟨[], []⟩ [0, 0, 0, 1, 7, 0, 0, 0, 1, 0, 0, 0, 5] 0 (by decide) 5 (by decide)
  revert inside
  decide

end DictionaryDecoder

end VectorTick.Codec
