import Mathlib.Data.Nat.Digits.Lemmas
import VectorTick.Common.CheckedMath
import VectorTick.Query.TokenStream

/-! Integer literals are exact: digits are read as the number they denote, or
as an error if it is too large.

The limit in the loop is divided with truncation before the value is compared with it. It stops
neither too early nor too late, and no result on the way leaves its type. -/

set_option autoImplicit false

namespace VectorTick.Query

open Foundation Vts1

def digitValue (c : UInt8) : Nat := c.toNat - (code '0').toNat

/-- The number that digits denote; the first one counts most. -/
def number (digits : Bytes) : Nat := Nat.ofDigits 10 (digits.map digitValue).reverse

theorem number_append (first second : Bytes) :
    number (first ++ second) = number first * 10 ^ second.length + number second := by
  simp only [number, List.map_append, List.reverse_append, Nat.ofDigits_append,
    List.length_reverse, List.length_map]
  ring

theorem number_singleton (c : UInt8) : number [c] = digitValue c := Nat.ofDigits_singleton

theorem number_cons (c : UInt8) (rest : Bytes) :
    number (c :: rest) = digitValue c * 10 ^ rest.length + number rest := by
  rw [← List.singleton_append, number_append, number_singleton]

/-- The digits of a number without leading zeros; zero has none. -/
def spelled (value : Nat) : Bytes :=
  ((Nat.digits 10 value).map fun digit => UInt8.ofNat (digit + 48)).reverse

theorem toNat_spelledDigit {digit : Nat} (small : digit < 10) :
    (UInt8.ofNat (digit + 48)).toNat = digit + 48 := by
  rw [UInt8.toNat_ofNat']
  omega

theorem spelled_digits (value : Nat) : ∀ c ∈ spelled value, isDigit c = true := by
  intro c listed
  obtain ⟨digit, found, rfl⟩ := List.mem_map.mp (List.mem_reverse.mp listed)
  have small := Nat.digits_lt_base (by decide) found
  rw [Lexer.isDigit_iff, toNat_spelledDigit small]
  omega

theorem number_spelled (value : Nat) : number (spelled value) = value := by
  have back : (Nat.digits 10 value).map (digitValue ∘ fun digit => UInt8.ofNat (digit + 48)) =
      Nat.digits 10 value := by
    refine (List.map_congr_left fun digit found => ?_).trans (List.map_id _)
    have zero : (code '0').toNat = 48 := rfl
    rw [Function.comp_apply, digitValue,
      toNat_spelledDigit (Nat.digits_lt_base (by decide) found), zero]
    rfl
  rw [number, spelled, List.map_reverse, List.reverse_reverse, List.map_map,
    back, Nat.ofDigits_digits]

theorem le_div_iff {value digit limit base : Nat} (positive : 0 < base) (small : digit ≤ limit) :
    value ≤ (limit - digit) / base ↔ value * base + digit ≤ limit := by
  rw [Nat.le_div_iff_mul_le positive]
  omega

/-- `c - '0'` is computed as `int` and converted; a digit below zero would be
converted to another number. -/
def digitExactly (c : UInt8) : Except Undefined Int := do
  IntType.u64.compute (← IntType.int.compute (c.toInt8.toInt - (code '0').toNat))

/-- The loop of `parseInteger` with the types of the source, which stops at a result
that its type does not hold. -/
def parseExactly : Bytes → Int → Except Undefined (Option Int)
  | [], value => .ok (some value)
  | c :: rest, value => do
    let limit ← IntType.u64.divide
      (← IntType.u64.compute (IntType.u64.maximum - (← digitExactly c))) 10
    if value > limit then return none
    let next ← IntType.u64.compute ((← IntType.u64.compute (value * 10)) + (← digitExactly c))
    parseExactly rest next

theorem digitValue_lt {c : UInt8} (digit : isDigit c = true) : digitValue c < 10 := by
  have zero : (code '0').toNat = 48 := rfl
  have high := ((Lexer.isDigit_iff c).mp digit).2
  rw [digitValue, zero]
  omega

theorem digitExactly_eq {c : UInt8} (digit : isDigit c = true) :
    digitExactly c = .ok (digitValue c : Int) := by
  obtain ⟨low, high⟩ := (Lexer.isDigit_iff c).mp digit
  have zero : (code '0').toNat = 48 := rfl
  have small := digitValue_lt digit
  have plain : c.toInt8.toInt = c.toNat := by
    change c.toBitVec.toInt = c.toBitVec.toNat
    exact BitVec.toInt_eq_toNat_of_lt (show 2 * c.toNat < 2 ^ 8 by omega)
  have value : c.toInt8.toInt - (code '0').toNat = (digitValue c : Int) := by
    rw [plain, digitValue, zero]
    omega
  rw [digitExactly, value, IntType.compute_int (by omega) (by omega), CheckedMath.ok_bind,
    IntType.compute_u64 (by omega)]

theorem parseExactly_eq {text : Bytes} (digits : ∀ c ∈ text, isDigit c = true) {value : Nat}
    (fits : value < 2 ^ 64) :
    parseExactly text value =
      .ok (if value * 10 ^ text.length + number text < 2 ^ 64 then
        some (value * 10 ^ text.length + number text : Nat) else none) := by
  induction text generalizing value with
  | nil =>
    have whole : value * 10 ^ ([] : Bytes).length + number [] = value := Nat.mul_one value
    rw [parseExactly, whole, if_pos fits]
  | cons c rest ih =>
    have digit := digits c List.mem_cons_self
    have small := digitValue_lt digit
    have limit : IntType.u64.maximum - (digitValue c : Int) =
        (2 ^ 64 - 1 - digitValue c : Nat) := by
      have most : IntType.u64.maximum = 2 ^ 64 - 1 := rfl
      omega
    have divided : IntType.u64.divide (2 ^ 64 - 1 - digitValue c : Nat) 10 =
        .ok (((2 ^ 64 - 1 - digitValue c) / 10 : Nat) : Int) :=
          IntType.divide_u64 (by decide) (by omega)
    have sharp := @le_div_iff value (digitValue c) (2 ^ 64 - 1) 10 (by decide) (by omega)
    have whole : value * 10 ^ (c :: rest).length + number (c :: rest) =
        (value * 10 + digitValue c) * 10 ^ rest.length + number rest := by
      rw [number_cons, List.length_cons]
      ring
    rw [parseExactly, digitExactly_eq digit, CheckedMath.ok_bind, limit,
      IntType.compute_u64 (by omega), CheckedMath.ok_bind, divided, CheckedMath.ok_bind, whole]
    by_cases below : value ≤ (2 ^ 64 - 1 - digitValue c) / 10
    · have next := sharp.mp below
      have tens : (value : Int) * 10 = (value * 10 : Nat) := by omega
      have sum : ((value * 10 : Nat) : Int) + (digitValue c : Int) =
          (value * 10 + digitValue c : Nat) := by omega
      rw [if_neg (by omega), tens, IntType.compute_u64 (by omega), CheckedMath.ok_bind,
        CheckedMath.ok_bind, sum, IntType.compute_u64 (by omega), CheckedMath.ok_bind]
      exact ih (fun other listed => digits other (List.mem_cons_of_mem _ listed)) (by omega)
    · have large : ¬ (value * 10 + digitValue c) * 10 ^ rest.length + number rest < 2 ^ 64 := by
        have beyond : 2 ^ 64 ≤ value * 10 + digitValue c := by omega
        have power : 1 ≤ 10 ^ rest.length := Nat.one_le_pow _ _ (by decide)
        have more := Nat.mul_le_mul beyond power
        omega
      rw [if_pos (by omega), if_neg large]
      rfl

namespace Lexer

theorem decimalFrom_eq (start : Nat) (text : Bytes) :
    decimalFrom start text = start * 10 ^ text.length + number text := by
  induction text generalizing start with
  | nil => exact (Nat.mul_one start).symm
  | cons c rest ih =>
    have step : decimalFrom start (c :: rest) = decimalFrom (start * 10 + digitValue c) rest := rfl
    rw [step, ih, number_cons, List.length_cons]
    ring

theorem parseInteger_exactly {text : Bytes}
    (digits : ∀ c ∈ text, isDigit c = true) (value : UInt64) :
    parseExactly text value.toNat =
      .ok ((parseInteger text value).map fun result => (result.toNat : Int)) := by
  rw [parseExactly_eq digits value.toNat_lt, parseInteger_eq digits, decimalFrom_eq]
  by_cases fits : value.toNat * 10 ^ text.length + number text < 2 ^ 64
  · rw [if_pos fits, if_pos fits, Option.map_some, UInt64.toNat_ofNat', Nat.mod_eq_of_lt fits]
  · rw [if_neg fits, if_neg fits, Option.map_none]

theorem parseInteger_number {digits : Bytes} (all : ∀ c ∈ digits, isDigit c = true) :
    parseInteger digits 0 = if number digits < 2 ^ 64 then
      some (UInt64.ofNat (number digits)) else none := by
  have whole : decimalFrom (0 : UInt64).toNat digits = number digits := by
    rw [decimalFrom_eq]
    exact (congrArg (· + number digits) (Nat.zero_mul _)).trans (Nat.zero_add _)
  rw [parseInteger_eq all, whole]

/-- The lexer stands before digits, and behind them is no further one. -/
structure Before (lexer : Lexer) (digits : Bytes) : Prop where
  inside : lexer.pos ≤ lexer.input.length
  ahead : ∃ rest, lexer.ahead = digits ++ rest ∧ ∀ c ∈ rest.head?, isDigit c = false
  all : ∀ c ∈ digits, isDigit c = true

theorem Before.takeWhile {lexer : Lexer} {digits : Bytes} (stands : Before lexer digits) :
    lexer.ahead.takeWhile isDigit = digits := by
  obtain ⟨rest, ahead, last⟩ := stands.ahead
  have nothing : rest.takeWhile isDigit = [] := by
    cases rest with
    | nil => rfl
    | cons c rest => exact List.takeWhile_cons_of_neg (Bool.not_eq_true _ ▸ last c rfl)
  rw [ahead, List.takeWhile_append_of_pos stands.all, nothing, List.append_nil]

theorem readNumber_digits {lexer : Lexer} {digits : Bytes} (stands : Before lexer digits) :
    ∃ after, after.input = lexer.input ∧
      after.pos = lexer.pos + digits.length ∧ lexer.readNumber = .ok
      (if number digits < 2 ^ 64 then
        (⟨.integerLiteral, digits, UInt64.ofNat (number digits), lexer.line, lexer.column⟩, after)
        else after.errorToken (nameBytes "Integer literal too large")) := by
  have enough : (lexer.ahead.takeWhile isDigit).length ≤ lexer.remaining :=
    length_ahead lexer ▸ (List.takeWhile_prefix isDigit).length_le
  obtain ⟨input, pos⟩ := advanceWhile_run isDigit enough
  have text := advanceWhile_text isDigit lexer
  rw [stands.takeWhile] at pos text
  refine ⟨lexer.advanceWhile isDigit lexer.remaining, input, pos, ?_⟩
  rw [readNumber_eq, numberToken, input, if_neg (Nat.not_lt.mpr stands.inside), ← input]
  dsimp only
  rw [text, parseInteger_number stands.all]
  by_cases fits : number digits < 2 ^ 64
  · rw [if_pos fits, if_pos fits]
  · rw [if_neg fits, if_neg fits]

/-- A digit string of any length is read as the number it denotes if 64 bits hold it, and as an
error otherwise; the loop over it computes without bounds what it computes with them. -/
theorem integer_literals_exact {lexer : Lexer} {digits : Bytes} (stands : Before lexer digits) :
    ∃ token after, lexer.readNumber = .ok (token, after) ∧ after.pos = lexer.pos + digits.length ∧
      (number digits ≤ 2 ^ 64 - 1 →
        token.type = .integerLiteral ∧ token.text = digits ∧ token.intValue.toNat = number digits) ∧
      (2 ^ 64 - 1 < number digits → token.type = .error ∧ after.hasError = true) ∧
      parseExactly digits 0 =
        .ok ((parseInteger digits 0).map fun value => (value.toNat : Int)) := by
  obtain ⟨after, -, pos, read⟩ := readNumber_digits stands
  have exactly := parseInteger_exactly stands.all 0
  by_cases fits : number digits < 2 ^ 64
  · rw [if_pos fits] at read
    refine ⟨_, _, read, pos, fun _ => ⟨rfl, rfl, ?_⟩, fun large => absurd large (by omega), exactly⟩
    exact UInt64.toNat_ofNat_of_lt fits
  · rw [if_neg fits] at read
    exact ⟨_, _, read, pos, fun small => absurd small (by omega), fun _ => ⟨rfl, rfl⟩, exactly⟩

theorem before_ofInput {digits : Bytes} (all : ∀ c ∈ digits, isDigit c = true) :
    Before { input := digits } digits where
  inside := Nat.zero_le _
  ahead := ⟨[], (List.append_nil digits).symm, fun _ none => by cases none⟩
  all := all

theorem integer_literals_exact_limit :
    (∃ token after, readNumber { input := nameBytes "0018446744073709551615" } =
      .ok (token, after) ∧
      token.type = .integerLiteral ∧ token.intValue = 0xFFFFFFFFFFFFFFFF) ∧
    ∃ token after, readNumber { input := nameBytes "18446744073709551616" } = .ok (token, after) ∧
      token.type = .error := by
  have largest : number (nameBytes "0018446744073709551615") = 2 ^ 64 - 1 := by decide
  have next : number (nameBytes "18446744073709551616") = 2 ^ 64 := by decide
  obtain ⟨token, after, read, -, literal, -⟩ :=
    integer_literals_exact (before_ofInput
      (List.all_eq_true.mp (show (nameBytes "0018446744073709551615").all isDigit by decide)))
  obtain ⟨token', after', read', -, -, error, -⟩ :=
    integer_literals_exact (before_ofInput
      (List.all_eq_true.mp (show (nameBytes "18446744073709551616").all isDigit by decide)))
  obtain ⟨type, -, value⟩ := literal largest.le
  refine ⟨⟨token, after, read, type, ?_⟩, token', after', read', (error (next ▸ by decide)).1⟩
  rw [← UInt64.toNat_inj, value, largest]
  rfl

end Lexer

end VectorTick.Query
