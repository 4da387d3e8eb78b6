import VectorTick.Codec.VarInt

/-! Run-length encoding.

The encoder cuts its input into tokens: a run of at least four equal values, or a stretch of
literals that ends where such a run starts. The round trip factors through the tokens.
-/

set_option autoImplicit false

namespace VectorTick.Codec.RLE

open Foundation

def maxRunLength : Nat := 32767

def literalMarker : Nat := 0

/-- What callers are told to make room for, in `usize` arithmetic. -/
def maxEncodedSize {T : Type} (element : Element T) (numValues : Nat) : Nat :=
  numValues * (2 + element.size) % 2 ^ 64

variable {T : Type} [DecidableEq T]

/-- How many values after the first continue its run. -/
def repeats (value : T) : Nat → List T → Nat
  | 0, _ => 0
  | _ + 1, [] => 0
  | limit + 1, next :: rest => if next = value then 1 + repeats value limit rest else 0

def runLength (value : T) (rest : List T) : Nat := 1 + repeats value (maxRunLength - 1) rest

/-- At least four values are left and the first four are equal. -/
def startsRun : List T → Bool
  | first :: second :: third :: fourth :: _ => first = second ∧ first = third ∧ first = fourth
  | _ => false

def countLiterals : Nat → List T → Nat
  | 0, _ => 0
  | _ + 1, [] => 0
  | limit + 1, value :: rest =>
    if startsRun (value :: rest) then 0 else 1 + countLiterals limit rest

/-- `if (literal_count == 0) literal_count = 1`. -/
def literalCount (values : List T) : Nat := max 1 (countLiterals maxRunLength values)

/-- What one pass of the loop emits. -/
inductive Token (T : Type) where
  | run (count : Nat) (value : T)
  | literals (values : List T)

namespace Token

def values : Token T → List T
  | run count value => List.replicate count value
  | literals values => values

def bytes (element : Element T) : Token T → Bytes
  | run count value => be 2 count ++ element.put value
  | literals values => be 2 literalMarker ++ (be 2 values.length ++ element.putMany values)

/-- The counts fit the two bytes they are stored in, and a run is not mistaken for the marker. -/
def Fits : Token T → Prop
  | run count _ => 4 ≤ count ∧ count < 2 ^ 16
  | literals values => 1 ≤ values.length ∧ values.length < 2 ^ 16

end Token

def nextToken (value : T) (rest : List T) : Token T :=
  if runLength value rest ≥ 4 then .run (runLength value rest) value
  else .literals ((value :: rest).take (literalCount (value :: rest)))

/-- The outer loop; `room` is `output_size - offset`. -/
def encodeFrom (element : Element T) : Nat → List T → Nat → Bytes × Bool
  | _, [], _ => ([], true)
  | 0, _ :: _, _ => ([], false)
  | fuel + 1, value :: rest, room =>
    let token := nextToken value rest
    if room < (token.bytes element).length then ([], false)
    else
      let tail := encodeFrom element fuel ((value :: rest).drop token.values.length)
        (room - (token.bytes element).length)
      (token.bytes element ++ tail.1, tail.2)

def encode (element : Element T) (values : List T) (outputSize : Nat) : Stored :=
  let out := encodeFrom element values.length values outputSize
  ⟨out.1, if out.2 then out.1.length else 0⟩

/-- The decoder's loop: `size` is what is left of the declared input, `wanted` the values still
missing. The result is the size to return and the values stored. -/
def decodeFrom (element : Element T) : Nat → Bytes → Nat → Nat → Nat → Except Stop (Nat × List T)
  | 0, _, _, _, _ => .ok (0, [])
  | fuel + 1, input, size, wanted, consumed =>
    if wanted = 0 then .ok (consumed, [])
    else if size < 2 then .ok (0, [])
    else do
      let count := beValue (← loadFrom input 0 2)
      if count = literalMarker then
        if size < 4 then .ok (0, [])
        else
          let literalCount := beValue (← loadFrom input 2 2)
          if wanted < literalCount then .ok (0, [])
          else if size < 4 + literalCount * element.size then .ok (0, [])
          else
            let raw ← loadFrom input 4 (literalCount * element.size)
            let used := 4 + literalCount * element.size
            let (total, more) ← decodeFrom element fuel (input.drop used)
              (size - used) (wanted - literalCount)
              (consumed + used)
            return (total, element.getMany literalCount raw ++ more)
      else if size < 2 + element.size then .ok (0, [])
      else if wanted < count then .ok (0, [])
      else
        let raw ← loadFrom input 2 element.size
        let used := 2 + element.size
        let (total, more) ← decodeFrom element fuel (input.drop used) (size - used)
          (wanted - count) (consumed + used)
        return (total, List.replicate count (element.get raw) ++ more)

def decode (element : Element T) (input : Bytes) (inputSize numValues : Nat) :
    Except Stop (Nat × List T) :=
  decodeFrom element (inputSize + 1) input inputSize numValues 0

theorem repeats_le (value : T) (limit : Nat) (rest : List T) :
    repeats value limit rest ≤ limit := by
  induction limit generalizing rest with
  | zero => simp [repeats]
  | succ limit ih =>
    cases rest with
    | nil => simp [repeats]
    | cons next rest =>
      have tail := ih rest
      rw [repeats]
      split <;> omega

theorem replicate_repeats (value : T) (limit : Nat) (rest : List T) :
    List.replicate (repeats value limit rest) value ++ rest.drop
      (repeats value limit rest) = rest := by
  induction limit generalizing rest with
  | zero => simp [repeats]
  | succ limit ih =>
    cases rest with
    | nil => simp [repeats]
    | cons next rest =>
      rw [repeats]
      split
      · rename_i same
        subst same
        rw [Nat.add_comm, List.replicate_succ, List.drop_succ_cons, List.cons_append, ih]
      · simp

theorem countLiterals_le (limit : Nat) (values : List T) :
    countLiterals limit values ≤ limit ∧ countLiterals limit values ≤ values.length := by
  induction limit generalizing values with
  | zero => simp [countLiterals]
  | succ limit ih =>
    cases values with
    | nil => simp [countLiterals]
    | cons value rest =>
      have tail := ih rest
      rw [countLiterals, List.length_cons]
      split <;> omega

theorem nextToken_values (value : T) (rest : List T) :
    (nextToken value rest).values ++ (value :: rest).drop (nextToken value rest).values.length =
      value :: rest := by
  rw [nextToken]
  split
  · rw [Token.values, List.length_replicate, runLength, Nat.add_comm, List.replicate_succ,
      List.drop_succ_cons, List.cons_append, replicate_repeats]
  · have counted := countLiterals_le maxRunLength (value :: rest)
    have bounded : literalCount (value :: rest) ≤ (value :: rest).length := by
      rw [literalCount]
      have some : 1 ≤ (value :: rest).length := by simp
      omega
    rw [Token.values, List.length_take, Nat.min_eq_left bounded, List.take_append_drop]

theorem nextToken_fits (value : T) (rest : List T) : (nextToken value rest).Fits := by
  rw [nextToken]
  split
  · rename_i long
    have bound := repeats_le value (maxRunLength - 1) rest
    refine ⟨long, ?_⟩
    rw [runLength]
    simp only [maxRunLength] at bound ⊢
    omega
  · have counted := countLiterals_le maxRunLength (value :: rest)
    have length : ((value :: rest).take (literalCount (value :: rest))).length =
        literalCount (value :: rest) := by
      rw [List.length_take, literalCount]
      simp only [List.length_cons] at counted ⊢
      omega
    rw [Token.Fits, length, literalCount]
    simp only [maxRunLength] at counted ⊢
    omega

theorem nextToken_length_pos (value : T) (rest : List T) :
    0 < (nextToken value rest).values.length := by
  have fits := nextToken_fits value rest
  cases token : nextToken value rest with
  | run count value =>
    rw [token] at fits
    have four := fits.1
    rw [Token.values, List.length_replicate]
    omega
  | literals values =>
    rw [token] at fits
    exact fits.1

def tokens : Nat → List T → List (Token T)
  | _, [] => []
  | 0, _ :: _ => []
  | fuel + 1, value :: rest =>
    nextToken value rest :: tokens fuel ((value :: rest).drop (nextToken value rest).values.length)

theorem drop_token_le {value : T} {rest : List T} {fuel : Nat}
    (enough : (value :: rest).length ≤ fuel + 1) :
    ((value :: rest).drop (nextToken value rest).values.length).length ≤ fuel := by
  have some := nextToken_length_pos value rest
  rw [List.length_drop]
  omega

theorem tokens_values (fuel : Nat) (values : List T) (enough : values.length ≤ fuel) :
    (tokens fuel values).flatMap Token.values = values := by
  induction fuel generalizing values with
  | zero =>
    have empty : values = [] := List.length_eq_zero_iff.mp (by omega)
    simp [empty, tokens]
  | succ fuel ih =>
    cases values with
    | nil => simp [tokens]
    | cons value rest =>
      rw [tokens, List.flatMap_cons, ih _ (drop_token_le enough), nextToken_values]

theorem tokens_fit (fuel : Nat) (values : List T) : ∀ token ∈ tokens fuel values, token.Fits := by
  induction fuel generalizing values with
  | zero => cases values <;> simp [tokens]
  | succ fuel ih =>
    cases values with
    | nil => simp [tokens]
    | cons value rest =>
      intro token member
      rw [tokens, List.mem_cons] at member
      rcases member with first | later
      · exact first ▸ nextToken_fits value rest
      · exact ih _ token later

def stream (element : Element T) (list : List (Token T)) : Bytes :=
  list.flatMap (Token.bytes element)

/-- The loop stores the whole stream when there is room for it, and fails when there is not. -/
theorem encodeFrom_eq (element : Element T) (fuel : Nat) (values : List T) (room : Nat)
    (enough : values.length ≤ fuel) :
    if (stream element (tokens fuel values)).length ≤ room then
      encodeFrom element fuel values room = (stream element (tokens fuel values), true)
    else (encodeFrom element fuel values room).2 = false ∧
      (encodeFrom element fuel values room).1.length ≤ room := by
  induction fuel generalizing values room with
  | zero =>
    have empty : values = [] := List.length_eq_zero_iff.mp (by omega)
    simp [empty, tokens, stream, encodeFrom]
  | succ fuel ih =>
    cases values with
    | nil => simp [tokens, stream, encodeFrom]
    | cons value rest =>
      have tail :=
        ih _ (room - ((nextToken value rest).bytes element).length) (drop_token_le enough)
      have whole : stream element (tokens (fuel + 1) (value :: rest)) =
          (nextToken value rest).bytes element ++
          stream element
            (tokens fuel ((value :: rest).drop (nextToken value rest).values.length)) := by
        simp [stream, tokens]
      rw [whole, List.length_append, encodeFrom]
      simp only
      split at tail
      · rename_i tailFits
        by_cases first : room < ((nextToken value rest).bytes element).length
        · rw [if_neg (by omega), if_pos first]
          simp
        · rw [if_pos (by omega), if_neg first, tail]
      · rename_i tailLong
        rw [if_neg (by omega)]
        split
        · simp
        · refine ⟨tail.1, ?_⟩
          rw [List.length_append]
          omega

theorem loadFrom_append (piece rest : Bytes) {count : Nat} (size : count = piece.length) :
    loadFrom (piece ++ rest) 0 count = .ok piece := by
  subst size
  rw [loadFrom, load_inside _ (by simp)]
  simp [slice]

theorem loadFrom_middle (before piece rest : Bytes) {offset count : Nat}
    (start : offset = before.length)
    (size : count = piece.length) :
    loadFrom (before ++ (piece ++ rest)) offset count = .ok piece := by
  rw [loadFrom, load_inside _ (by simp [start, size]), slice_append before piece rest start size]

omit [DecidableEq T] in
theorem decodeFrom_token (element : Element T) (fuel : Nat) (token : Token T) (rest : Bytes)
    (size wanted consumed : Nat)
    (fits : token.Fits) (told : (token.bytes element).length ≤ size)
    (room : token.values.length ≤ wanted) :
    decodeFrom element (fuel + 1) (token.bytes element ++ rest) size wanted consumed = (do
      let (total, more) ← decodeFrom element fuel rest (size - (token.bytes element).length)
        (wanted - token.values.length) (consumed + (token.bytes element).length)
      return (total, token.values ++ more)) := by
  cases token with
  | run count value =>
    obtain ⟨four, short⟩ := fits
    simp only [Token.bytes, Token.values, List.length_append, length_be, element.length_put,
      List.length_replicate] at told room ⊢
    have head : loadFrom (be 2 count ++ element.put value ++ rest) 0 2 = .ok (be 2 count) := by
      rw [List.append_assoc]
      exact loadFrom_append _ _ (length_be 2 count).symm
    have body : loadFrom (be 2 count ++ element.put value ++ rest) 2 element.size =
        .ok (element.put value) := by
      rw [List.append_assoc]
      exact loadFrom_middle _ _ _ (length_be 2 count).symm (element.length_put value).symm
    have after : (be 2 count ++ element.put value ++ rest).drop (2 + element.size) = rest :=
      List.drop_left' (by simp [element.length_put])
    rw [decodeFrom, if_neg (by omega), if_neg (by omega), head]
    simp only [bind, Except.bind, beValue_be 2 count (by omega), literalMarker]
    rw [if_neg (by omega), if_neg (by omega), if_neg (by omega), body]
    simp only [after, element.get_put]
  | literals values =>
    obtain ⟨some, short⟩ := fits
    simp only [Token.bytes, Token.values, List.length_append, length_be,
      element.length_putMany] at told room ⊢
    have shape : be 2 literalMarker ++ (be 2 values.length ++ element.putMany values) ++ rest =
        be 2 literalMarker ++ (be 2 values.length ++ (element.putMany values ++ rest)) := by
      simp
    have head :=
      loadFrom_append (be 2 literalMarker) (be 2 values.length ++ (element.putMany values ++ rest))
      (length_be 2 literalMarker).symm
    have counted :=
      loadFrom_middle (be 2 literalMarker) (be 2 values.length) (element.putMany values ++ rest)
      (length_be 2 literalMarker).symm (length_be 2 values.length).symm
    have body : loadFrom
        (be 2 literalMarker ++ (be 2 values.length ++ (element.putMany values ++ rest))) 4
        (values.length * element.size) = .ok (element.putMany values) := by
      rw [← List.append_assoc]
      exact loadFrom_middle _ _ _ (by simp) (by simp)
    have after : (be 2 literalMarker ++
        (be 2 values.length ++ (element.putMany values ++ rest))).drop
        (4 + values.length * element.size) = rest := by
      rw [← List.append_assoc, ← List.append_assoc]
      exact List.drop_left' (by simp; omega)
    have restored : element.getMany values.length (element.putMany values) = values := by
      simpa using element.getMany_putMany values []
    rw [shape, decodeFrom, if_neg (by omega), if_neg (by omega), head]
    simp only [bind, Except.bind, beValue_be 2 literalMarker (by decide), if_true]
    rw [if_neg (by omega), counted]
    simp only [beValue_be 2 values.length (by omega)]
    rw [if_neg (by omega), if_neg (by omega), body]
    simp only [after, restored, Nat.reduceAdd, ← Nat.add_assoc 2 2]

omit [DecidableEq T] in
theorem decodeFrom_stream (element : Element T) (list : List (Token T))
    (fits : ∀ token ∈ list, token.Fits)
    (fuel : Nat) (rest : Bytes) (size consumed : Nat) (enough : list.length < fuel)
    (told : (stream element list).length ≤ size) :
    decodeFrom element fuel (stream element list ++ rest) size
      (list.flatMap Token.values).length consumed =
      .ok (consumed + (stream element list).length, list.flatMap Token.values) := by
  induction list generalizing fuel size consumed with
  | nil =>
    obtain ⟨left, rfl⟩ := Nat.exists_eq_add_of_lt enough
    simp [stream, decodeFrom]
  | cons token list ih =>
    obtain ⟨left, rfl⟩ : ∃ left, fuel = left + 1 :=
      ⟨fuel - 1, by simp only [List.length_cons] at enough; omega⟩
    have split : stream element (token :: list) = token.bytes element ++ stream element list := by
      simp [stream]
    simp only [List.length_cons] at enough
    rw [split, List.length_append] at told
    rw [split, List.append_assoc, List.flatMap_cons, List.length_append,
      decodeFrom_token element left token _ size _ consumed (fits token (by simp))
        (by omega) (by omega),
      Nat.add_sub_cancel_left,
        ih (fun token member => fits token (by simp [member])) left _ _ (by omega) (by omega)]
    simp only [bind, Except.bind, pure, Except.pure, List.length_append, Nat.add_assoc]

/-- The encoding of a list, whatever the room. -/
def bytes (element : Element T) (values : List T) : Bytes :=
  stream element (tokens values.length values)

theorem encode_fits (element : Element T) {values : List T} {outputSize : Nat}
    (fits : (bytes element values).length ≤ outputSize) :
    encode element values outputSize = ⟨bytes element values, (bytes element values).length⟩ := by
  have loop := encodeFrom_eq element values.length values outputSize (Nat.le_refl _)
  rw [if_pos (by exact fits)] at loop
  simp [encode, loop, bytes]

theorem length_encode_le (element : Element T) (values : List T) (outputSize : Nat) :
    (encode element values outputSize).bytes.length ≤ outputSize := by
  have loop := encodeFrom_eq element values.length values outputSize (Nat.le_refl _)
  split at loop
  · rename_i fits
    simpa [encode, loop] using fits
  · exact loop.2

omit [DecidableEq T] in
theorem Token.length_bytes_le (element : Element T) {token : Token T} (fits : token.Fits) :
    (token.bytes element).length ≤ (4 + element.size) * token.values.length := by
  cases token with
  | run count value =>
    obtain ⟨four, _⟩ := fits
    simp only [Token.bytes, Token.values, List.length_append, length_be,
      element.length_put, List.length_replicate]
    nlinarith
  | literals values =>
    obtain ⟨some, _⟩ := fits
    simp only [Token.bytes, Token.values, List.length_append, length_be, element.length_putMany]
    nlinarith

omit [DecidableEq T] in
theorem length_stream_le (element : Element T) (list : List (Token T))
    (fits : ∀ token ∈ list, token.Fits) :
    (stream element list).length ≤ (4 + element.size) * (list.flatMap Token.values).length := by
  induction list with
  | nil => simp [stream]
  | cons token list ih =>
    have first := Token.length_bytes_le element (fits token (by simp))
    have others := ih (fun token member => fits token (by simp [member]))
    have split : stream element (token :: list) = token.bytes element ++ stream element list := by
      simp [stream]
    rw [split, List.length_append, List.flatMap_cons, List.length_append, Nat.mul_add]
    omega

theorem length_bytes_le (element : Element T) (values : List T) :
    (bytes element values).length ≤ (4 + element.size) * values.length := by
  have bound := length_stream_le element _ (tokens_fit values.length values)
  rwa [tokens_values _ _ (Nat.le_refl _)] at bound

theorem length_bytes_pos (element : Element T) {values : List T} (some : values ≠ []) :
    0 < (bytes element values).length := by
  cases values with
  | nil => exact absurd rfl some
  | cons value rest =>
    rw [bytes, List.length_cons, tokens, stream, List.flatMap_cons, List.length_append]
    have first : 2 ≤ ((nextToken value rest).bytes element).length := by
      cases nextToken value rest with
      | run count value => simp [Token.bytes]
      | literals values => simp [Token.bytes]
    omega

omit [DecidableEq T] in
theorem length_list_le_stream (element : Element T) (list : List (Token T)) :
    list.length ≤ (stream element list).length := by
  induction list with
  | nil => simp
  | cons token list ih =>
    have first : 2 ≤ (token.bytes element).length := by
      cases token with
      | run count value => simp [Token.bytes]
      | literals values => simp [Token.bytes]
    have split : stream element (token :: list) = token.bytes element ++ stream element list := by
      simp [stream]
    rw [split, List.length_cons, List.length_append]
    omega

theorem decode_bytes (element : Element T) (values : List T) (rest : Bytes) {inputSize : Nat}
    (told : (bytes element values).length ≤ inputSize) :
    decode element (bytes element values ++ rest) inputSize values.length =
      .ok ((bytes element values).length, values) := by
  have counted := length_list_le_stream element (tokens values.length values)
  have loop := decodeFrom_stream element (tokens values.length values) (tokens_fit _ _)
    (inputSize + 1) rest inputSize 0
    (by rw [bytes] at told; omega) told
  rw [tokens_values _ _ (Nat.le_refl _), Nat.zero_add] at loop
  exact loop

end VectorTick.Codec.RLE
