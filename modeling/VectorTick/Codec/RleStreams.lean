import VectorTick.Codec.Rle
import VectorTick.Foundation.Layout

/-! What may be relied on around run-length encoding: the round trip through any buffer, the
reading of any bytes, and how much room an encoding takes. -/

set_option autoImplicit false

namespace VectorTick.Codec.RLE

open Foundation

variable {T : Type}

section Buffer

variable [DecidableEq T] (element : Element T)

theorem encode_nonzero {values : List T} {outputSize : Nat}
    (encoded : (encode element values outputSize).size ≠ 0) :
    encode element values outputSize = ⟨bytes element values, (bytes element values).length⟩ := by
  have loop := encodeFrom_eq element values.length values outputSize (Nat.le_refl _)
  by_cases fits : (stream element (tokens values.length values)).length ≤ outputSize
  · exact encode_fits element fits
  · rw [if_neg fits] at loop
    refine absurd ?_ encoded
    rw [encode, loop.1]
    rfl

theorem decode_encode {values : List T} {outputSize : Nat}
    (encoded : (encode element values outputSize).size ≠ 0)
    (rest : Bytes) :
    decode element ((encode element values outputSize).bytes ++ rest)
        ((encode element values outputSize).bytes ++ rest).length values.length =
      .ok ((encode element values outputSize).size, values) := by
  rw [encode_nonzero element encoded]
  exact decode_bytes element values rest (List.length_append ▸ Nat.le_add_right _ _)

theorem decode_encode_run :
    decode Element.byte ((encode Element.byte [7, 7, 7, 7, 7, 1] 16).bytes ++ [9])
        ((encode Element.byte [7, 7, 7, 7, 7, 1] 16).bytes ++ [9]).length 6 =
          .ok (8, [7, 7, 7, 7, 7, 1]) :=
  @decode_encode _ _ Element.byte [7, 7, 7, 7, 7, 1] 16 (by decide) [9]

end Buffer

/-- Bytes that are nothing but records, and the values that the records stand for. -/
inductive Reads (element : Element T) : Bytes → List T → Prop where
  | done : Reads element [] []
  | run {count : Nat} {raw rest : Bytes} {values : List T} : count ≠ literalMarker →
      count < 2 ^ 16 →
      raw.length = element.size → Reads element rest values →
      Reads element (be 2 count ++ (raw ++ rest)) (List.replicate count (element.get raw) ++ values)
  | literals {count : Nat} {raw rest : Bytes} {values : List T} : count < 2 ^ 16 →
      raw.length = count * element.size → Reads element rest values →
      Reads element (be 2 literalMarker ++ (be 2 count ++ (raw ++ rest)))
        (element.getMany count raw ++ values)

/-- A record at the front of the input that is read, with the values to be stored. -/
structure Record (element : Element T) (input : Bytes) (size wanted : Nat) where
  used : Nat
  piece : List T
  some : 2 ≤ used
  inside : used ≤ size
  fits : piece.length ≤ wanted
  reads : ∀ {rest values}, Reads element rest values →
    Reads element (input.take used ++ rest) (piece ++ values)
  decodes : ∀ fuel consumed, decodeFrom element (fuel + 1) input size wanted consumed = (do
    let (total, more) ← decodeFrom element fuel (input.drop used) (size - used)
      (wanted - piece.length) (consumed + used)
    return (total, piece ++ more))

theorem be_beValue_slice {input : Bytes} {offset : Nat} (inside : offset + 2 ≤ input.length) :
    be 2 (beValue (slice input offset 2)) = slice input offset 2 ∧
      beValue (slice input offset 2) < 2 ^ 16 := by
  have size := length_slice inside
  have back := be_beValue (slice input offset 2)
  have below := beValue_lt (slice input offset 2)
  rw [size] at back below
  exact ⟨back, below⟩

theorem decodeFrom_pass (element : Element T) {input : Bytes} {size : Nat}
    (present : size ≤ input.length) (wanted : Nat) :
    (wanted = 0 ∧ ∀ fuel consumed, decodeFrom element (fuel + 1) input size wanted consumed =
      .ok (consumed, [])) ∨
    (∀ fuel consumed, decodeFrom element (fuel + 1) input size wanted consumed = .ok (0, [])) ∨
    Nonempty (Record element input size wanted) := by
  by_cases enough : wanted = 0
  · refine .inl ⟨enough, fun fuel consumed => ?_⟩
    rw [decodeFrom, if_pos enough]
  by_cases short : size < 2
  · refine .inr (.inl fun fuel consumed => ?_)
    rw [decodeFrom, if_neg enough, if_pos short]
  have head : loadFrom input 0 2 = .ok (slice input 0 2) := load_inside _ (by omega)
  obtain ⟨stored, bound⟩ := @be_beValue_slice input 0 (by omega)
  by_cases marker : beValue (slice input 0 2) = literalMarker
  · by_cases four : size < 4
    · refine .inr (.inl fun fuel consumed => ?_)
      rw [decodeFrom, if_neg enough, if_neg short, head, ok_bind]
      simp only [marker, if_true, if_pos four]
    have second : loadFrom input 2 2 = .ok (slice input 2 2) := load_inside _ (by omega)
    obtain ⟨storedCount, countBound⟩ := @be_beValue_slice input 2 (by omega)
    by_cases many : wanted < beValue (slice input 2 2)
    · refine .inr (.inl fun fuel consumed => ?_)
      rw [decodeFrom, if_neg enough, if_neg short, head, ok_bind]
      simp only [marker, if_true, if_neg four]
      rw [second, ok_bind, if_pos many]
    by_cases cut : size < 4 + beValue (slice input 2 2) * element.size
    · refine .inr (.inl fun fuel consumed => ?_)
      rw [decodeFrom, if_neg enough, if_neg short, head, ok_bind]
      simp only [marker, if_true, if_neg four]
      rw [second, ok_bind, if_neg many, if_pos cut]
    have body : loadFrom input 4 (beValue (slice input 2 2) * element.size) =
        .ok (slice input 4 (beValue (slice input 2 2) * element.size)) := load_inside _ (by omega)
    refine .inr (.inr ⟨{
      used := 4 + beValue (slice input 2 2) * element.size
      piece := element.getMany (beValue (slice input 2 2))
        (slice input 4 (beValue (slice input 2 2) * element.size))
      some := by omega
      inside := Nat.le_of_not_lt cut
      fits := by rw [element.length_getMany]; exact Nat.le_of_not_lt many
      reads := fun {rest values} more => ?_
      decodes := fun fuel consumed => ?_ }⟩)
    · have front : input.take (4 + beValue (slice input 2 2) * element.size) =
          be 2 literalMarker ++ (be 2 (beValue (slice input 2 2)) ++
            slice input 4 (beValue (slice input 2 2) * element.size)) := by
        rw [storedCount, ← marker, stored]
        change slice input 0 _ = _
        rw [show 4 = 2 + 2 from rfl, Nat.add_assoc, slice_add, slice_add]
      rw [front, List.append_assoc, List.append_assoc]
      exact .literals countBound (length_slice (by omega)) more
    · rw [decodeFrom, if_neg enough, if_neg short, head, ok_bind]
      simp only [marker, if_true, if_neg four]
      rw [second, ok_bind, if_neg many, if_neg cut, body, ok_bind, element.length_getMany]
  · by_cases cut : size < 2 + element.size
    · refine .inr (.inl fun fuel consumed => ?_)
      rw [decodeFrom, if_neg enough, if_neg short, head, ok_bind]
      simp only [marker, if_false, if_pos cut]
    by_cases many : wanted < beValue (slice input 0 2)
    · refine .inr (.inl fun fuel consumed => ?_)
      rw [decodeFrom, if_neg enough, if_neg short, head, ok_bind]
      simp only [marker, if_false, if_neg cut, if_pos many]
    have body : loadFrom input 2 element.size = .ok (slice input 2 element.size) :=
      load_inside _ (by omega)
    refine .inr (.inr ⟨{
      used := 2 + element.size
      piece := List.replicate (beValue (slice input 0 2)) (element.get (slice input 2 element.size))
      some := by omega
      inside := Nat.le_of_not_lt cut
      fits := by rw [List.length_replicate]; exact Nat.le_of_not_lt many
      reads := fun {rest values} more => ?_
      decodes := fun fuel consumed => ?_ }⟩)
    · have front : input.take (2 + element.size) =
          be 2 (beValue (slice input 0 2)) ++ slice input 2 element.size := by
        rw [stored]
        change slice input 0 _ = _
        rw [slice_add]
      rw [front, List.append_assoc]
      exact .run marker bound (length_slice (by omega)) more
    · rw [decodeFrom, if_neg enough, if_neg short, head, ok_bind]
      simp only [marker, if_false, if_neg cut, if_neg many]
      rw [body, ok_bind, List.length_replicate]

/-- A decoder whose declared input is there reads only that, and stores at most what was asked
for. If it does not return zero, it has stored all of that, and read the bytes it counts. -/
theorem decodeFrom_safe (element : Element T) (fuel : Nat) (input : Bytes)
    (size wanted consumed : Nat)
    (present : size ≤ input.length) :
    ∃ total values, decodeFrom element fuel input size wanted consumed = .ok (total, values) ∧
      values.length ≤ wanted ∧
      (total ≠ 0 → ∃ used ≤ size, total = consumed + used ∧ values.length = wanted ∧
        Reads element (input.take used) values) := by
  induction fuel generalizing input size wanted consumed with
  | zero => exact ⟨0, [], rfl, Nat.zero_le _, fun nonzero => absurd rfl nonzero⟩
  | succ fuel ih =>
    rcases decodeFrom_pass element present wanted with ⟨enough, ends⟩ | ends |
      ⟨⟨used, piece, some, inside, fits, reads, decodes⟩⟩
    · refine ⟨consumed, [], ends fuel consumed, Nat.zero_le _,
        fun _ => ⟨0, Nat.zero_le _, rfl, enough.symm, ?_⟩⟩
      rw [List.take_zero]
      exact .done
    · exact ⟨0, [], ends fuel consumed, Nat.zero_le _, fun nonzero => absurd rfl nonzero⟩
    · obtain ⟨total, values, decoded, few, whole⟩ :=
        ih (input.drop used) (size - used) (wanted - piece.length)
        (consumed + used) (by rw [List.length_drop]; omega)
      refine ⟨total, piece ++ values, ?_, ?_, fun nonzero => ?_⟩
      · rw [decodes, decoded, ok_bind]
        rfl
      · rw [List.length_append]
        exact Nat.le_trans (Nat.add_le_add_left few _) (Nat.le_of_eq (Nat.add_sub_of_le fits))
      · obtain ⟨later, laterInside, sum, all, laterReads⟩ := whole nonzero
        refine ⟨used + later, by omega, by omega, ?_, ?_⟩
        · rw [List.length_append, all, Nat.add_sub_of_le fits]
        · rw [List.take_add]
          exact reads laterReads

theorem decodeFrom_fuel (element : Element T) (fuel other : Nat) {input : Bytes}
    {size wanted consumed : Nat}
    (present : size ≤ input.length) (enough : size < fuel) (alsoEnough : size < other) :
    decodeFrom element fuel input size wanted consumed =
      decodeFrom element other input size wanted consumed := by
  induction fuel generalizing other input size wanted consumed with
  | zero => omega
  | succ fuel ih =>
    obtain ⟨less, rfl⟩ : ∃ less, other = less + 1 := ⟨other - 1, by omega⟩
    rcases decodeFrom_pass element present wanted with ⟨_, ends⟩ | ends |
      ⟨⟨used, piece, some, inside, fits, reads, decodes⟩⟩
    · rw [ends, ends]
    · rw [ends, ends]
    · rw [decodes, decodes, ih less (by rw [List.length_drop]; omega) (by omega) (by omega)]

/-- On any bytes the decoder ends, within the input and the output; what it returns is
what it has read, if not zero. -/
theorem decode_any (element : Element T) (input : Bytes) (numValues : Nat) :
    ∃ total values, decode element input input.length numValues = .ok (total, values) ∧
      values.length ≤ numValues ∧
      (total ≠ 0 → values.length = numValues ∧ total ≤ input.length ∧
        Reads element (input.take total) values) ∧
      ∀ more, decodeFrom element (input.length + 1 + more) input input.length numValues 0 =
        .ok (total, values) := by
  obtain ⟨total, values, decoded, few, whole⟩ :=
    decodeFrom_safe element (input.length + 1) input input.length numValues 0 (Nat.le_refl _)
  refine ⟨total, values, decoded, few, fun nonzero => ?_, fun more => ?_⟩
  · obtain ⟨used, inside, sum, all, reads⟩ := whole nonzero
    rw [Nat.zero_add] at sum
    exact ⟨all, sum ▸ inside, sum ▸ reads⟩
  · rw [← decoded]
    exact decodeFrom_fuel element _ _ (Nat.le_refl _) (by omega) (by omega)

section Room

variable [DecidableEq T] (element : Element T)

theorem startsRun_iff (value : T) (rest : List T) : startsRun (value :: rest) = true ↔
    4 ≤ runLength value rest := by
  have count : runLength value rest = 1 + repeats value 32766 rest := rfl
  rw [count]
  rcases rest with _ | ⟨second, _ | ⟨third, _ | ⟨fourth, rest⟩⟩⟩
  · simp [startsRun, repeats]
  · simp only [startsRun, repeats, Bool.false_eq_true, false_iff]
    split <;> omega
  · simp only [startsRun, repeats, Bool.false_eq_true, false_iff]
    split
    · split <;> omega
    · omega
  · simp only [startsRun, repeats, decide_eq_true_eq]
    by_cases one : second = value
    · by_cases two : third = value
      · by_cases three : fourth = value
        · simp only [one, two, three, if_true, and_self, true_iff]
          omega
        · simp only [one, two, three, if_true, if_false, Ne.symm three, and_false, false_iff]
          omega
      · simp only [one, two, if_true, if_false, Ne.symm two, false_and, and_false, false_iff]
        omega
    · simp only [one, if_false, Ne.symm one, false_and, false_iff]
      omega

theorem countLiterals_stop (limit : Nat) (values : List T) :
    countLiterals limit values = limit ∨ values.drop (countLiterals limit values) = [] ∨
      startsRun (values.drop (countLiterals limit values)) = true := by
  induction limit generalizing values with
  | zero => exact .inl (by cases values <;> rfl)
  | succ limit ih =>
    cases values with
    | nil => exact .inr (.inl List.drop_nil)
    | cons value rest =>
      rw [countLiterals]
      by_cases run : startsRun (value :: rest) = true
      · rw [if_pos run]
        exact .inr (.inr run)
      · rw [if_neg run, Nat.add_comm, List.drop_succ_cons]
        exact (ih rest).imp_left (congrArg (· + 1))

theorem nextToken_literals {value : T} {rest : List T} (short : startsRun (value :: rest) = false) :
    nextToken value rest = .literals ((value :: rest).take (1 + countLiterals 32766 rest)) := by
  have few : ¬ runLength value rest ≥ 4 := fun long => by
    rw [(startsRun_iff value rest).mpr long] at short
    cases short
  have count : literalCount (value :: rest) = 1 + countLiterals 32766 rest := by
    rw [literalCount, show maxRunLength = 32766 + 1 from rfl, countLiterals,
      if_neg (Bool.eq_false_iff.mp short)]
    omega
  rw [nextToken, if_neg few, count]

theorem nextToken_run {value : T} {rest : List T} (long : startsRun (value :: rest) = true) :
    nextToken value rest = .run (runLength value rest) value := by
  rw [nextToken, if_pos ((startsRun_iff value rest).mp long)]

omit [DecidableEq T] in
theorem length_stream_cons (token : Token T) (list : List (Token T)) :
    (stream element (token :: list)).length =
      (token.bytes element).length + (stream element list).length := by
  rw [stream, List.flatMap_cons, List.length_append, stream]

theorem length_stream_tokens (fuel : Nat) (values : List T) (enough : values.length ≤ fuel) :
    (stream element (tokens fuel values)).length ≤
        values.length * (2 + element.size) + (if values.length = 1 then 2 else 0) ∧
      (startsRun values = true →
        (stream element (tokens fuel values)).length + 4 ≤ values.length * (2 + element.size)) := by
  induction fuel generalizing values with
  | zero =>
    rw [List.length_eq_zero_iff.mp (Nat.le_zero.mp enough)]
    exact ⟨Nat.zero_le _, fun run => absurd run Bool.false_ne_true⟩
  | succ fuel ih =>
    cases values with
    | nil => exact ⟨Nat.zero_le _, fun run => absurd run Bool.false_ne_true⟩
    | cons value rest =>
      have others := ih _ (drop_token_le enough)
      have parts := congrArg List.length (nextToken_values value rest)
      rw [List.length_append] at parts
      rw [tokens, length_stream_cons, ← parts, Nat.add_mul]
      generalize left : (value :: rest).drop (nextToken value rest).values.length =
        later at others ⊢
      generalize later.length * (2 + element.size) = share at others ⊢
      cases run : startsRun (value :: rest) with
      | true =>
        have long := (startsRun_iff value rest).mp run
        have most : 4 * (2 + element.size) ≤ runLength value rest * (2 + element.size) :=
          Nat.mul_le_mul_right _ long
        have surplus : (if later.length = 1 then 2 else 0) ≤ 2 := by split <;> decide
        rw [nextToken_run run] at parts ⊢
        simp only [Token.bytes, Token.values, List.length_append, length_be,
          element.length_put, List.length_replicate]
        generalize runLength value rest * (2 + element.size) = mine at most ⊢
        refine ⟨?_, fun _ => ?_⟩ <;> omega
      | false =>
        refine ⟨?_, fun run => absurd run Bool.false_ne_true⟩
        have counted := countLiterals_le 32766 rest
        have stops := countLiterals_stop 32766 rest
        have size : ((value :: rest).take (1 + countLiterals 32766 rest)).length =
            1 + countLiterals 32766 rest := by
          rw [List.length_take, List.length_cons]
          omega
        rw [nextToken_literals run] at left parts ⊢
        rw [Token.values, size, Nat.add_comm, List.drop_succ_cons] at left
        rw [left] at stops
        simp only [Token.bytes, Token.values, List.length_append, length_be,
          element.length_putMany, size]
        generalize countLiterals 32766 rest = more at counted stops ⊢
        have mine : (1 + more) * (2 + element.size) =
            2 * (1 + more) + (1 + more) * element.size := by
          rw [Nat.mul_add, Nat.mul_comm _ 2]
        rw [mine]
        rcases stops with limit | done | run
        · -- So many literals make up for a single one behind them.
          have surplus : (if later.length = 1 then 2 else 0) ≤ 2 := by split <;> decide
          omega
        · rw [done, List.length_nil] at others ⊢
          have nothing := others.1
          rw [if_neg (by decide)] at nothing
          by_cases single : more = 0
          · rw [if_pos (by omega)]
            omega
          · omega
        · have next := others.2 run
          omega

theorem encode_size_ne_zero_iff {values : List T} (some : values ≠ []) (outputSize : Nat) :
    (encode element values outputSize).size ≠ 0 ↔ (bytes element values).length ≤ outputSize := by
  refine ⟨fun encoded => ?_, fun fits => ?_⟩
  · have stored := length_encode_le element values outputSize
    rwa [encode_nonzero element encoded] at stored
  · rw [encode_fits element fits]
    exact (length_bytes_pos element some).ne'

/-- The bound is too small for a single value, and only for it: that takes a marker and a count.
It may also wrap, and then it depends on how well the values compress. -/
theorem encode_maxEncodedSize_iff {values : List T} (some : values ≠ []) :
    (encode element values (maxEncodedSize element values.length)).size ≠ 0 ↔
      values.length ≠ 1 ∧
        (values.length * (2 + element.size) < 2 ^ 64 ∨
          (bytes element values).length ≤ values.length * (2 + element.size) % 2 ^ 64) := by
  rw [encode_size_ne_zero_iff element some, maxEncodedSize]
  have bound := (length_stream_tokens element values.length values (Nat.le_refl _)).1
  change (bytes element values).length ≤ _ at bound
  by_cases single : values.length = 1
  · refine iff_of_false (fun fits => ?_) (fun both => both.1 single)
    obtain ⟨value, rfl⟩ := List.length_eq_one_iff.mp single
    have length : (bytes element [value]).length = 4 + element.size := by
      simp [bytes, tokens, stream, nextToken, runLength, repeats, literalCount, countLiterals,
        maxRunLength, startsRun, Token.bytes, Token.values, element.length_put, Element.putMany,
        maxRunLength]
      omega
    have wraps := Nat.mod_le ([value].length * (2 + element.size)) (2 ^ 64)
    rw [List.length_singleton, Nat.one_mul] at fits wraps
    omega
  · rw [if_neg single] at bound
    refine ⟨fun fits => ⟨single, .inr fits⟩, fun both => both.2.elim (fun small => ?_) id⟩
    rw [Nat.mod_eq_of_lt small]
    exact bound

theorem encode_maxEncodedSize_of_two : (encode Element.byte [1, 2]
    (maxEncodedSize Element.byte 2)).size ≠ 0 :=
  (encode_maxEncodedSize_iff Element.byte (List.cons_ne_nil 1 [2])).mpr
    ⟨by decide, .inl (by decide)⟩

theorem encode_maxEncodedSize_single : (encode Element.byte [7]
    (maxEncodedSize Element.byte 1)).size = 0 := by decide

end Room

end VectorTick.Codec.RLE
