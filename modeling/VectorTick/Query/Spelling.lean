import VectorTick.Query.LexerRange
import VectorTick.Query.Literals
import VectorTick.Query.Parser

/-! Texts written word by word, with a space before each word, and the tokens found in them. -/

set_option autoImplicit false

namespace VectorTick.Query

open Foundation Vts1

/-- A token as it is written, with its value if it is a number. -/
structure Word where
  type : TokenType
  text : Bytes
  value : UInt64 := 0
  deriving DecidableEq, Repr

namespace Word

/-- What is found behind the last word. -/
def eof : Word := ⟨.eof, [], 0⟩

def numeral (value : UInt64) : Bytes := if value = 0 then [code '0'] else spelled value.toNat

def number (value : UInt64) : Word := ⟨.integerLiteral, numeral value, value⟩

def name (text : Bytes) : Word := { type := Lexer.lookupKeyword text, text }

/-- An operator or a mark, written under its own name. -/
def symbol (type : TokenType) : Word := { type, text := nameBytes (tokenTypeName type) }

end Word

/-- The operators and marks of expressions. -/
def symbols : List TokenType :=
  [.plus, .minus, .star, .slash, .percent, .lParen, .rParen, .comma, .caret, .equal, .notEqual,
    .bang, .less, .lessEqual,
    .greater, .greaterEqual, .amp, .pipe]

/-- Letters, digits and underscores, with no digit in front. -/
structure NameText (text : Bytes) : Prop where
  front : ∃ first rest, text = first :: rest ∧ (isAlpha first || first = code '_') = true
  rest : ∀ c ∈ text, Lexer.isNameRest c = true

inductive Spelled : Word → Prop where
  | number (value : UInt64) : Spelled (.number value)
  | name {text : Bytes} (letters : NameText text) : Spelled (.name text)
  | symbol {type : TokenType} (listed : type ∈ symbols) : Spelled (.symbol type)

/-- The kinds of token that the parser takes for a name: the aggregates are keywords. -/
def nameTypes : List TokenType := [.count, .sum, .min, .max, .avg, .identifier]

/-- The token is that of the word; its text counts for names only. -/
structure Token.Shows (token : Token) (word : Word) : Prop where
  type : token.type = word.type
  text : word.type ∈ nameTypes → token.text = word.text
  value : word.type = .integerLiteral → token.intValue = word.value

def spaced (words : List Word) : Bytes := words.flatMap fun word => code ' ' :: word.text

/-- What may stand behind a word. -/
def Closed (text : Bytes) : Prop := text = [] ∨ ∃ rest, text = code ' ' :: rest

theorem spaced_closed (words : List Word) : Closed (spaced words) := by
  cases words with
  | nil => exact .inl rfl
  | cons word rest => exact .inr ⟨_, rfl⟩

theorem Closed.head {text : Bytes} (closed : Closed text) {keep : UInt8 → Bool}
    (space : keep (code ' ') = false) :
    ∀ c ∈ text.head?, keep c = false := by
  rcases closed with rfl | ⟨rest, rfl⟩
  · exact fun c none => by cases none
  · intro c first
    rw [← Option.some.inj first, space]

theorem numeral_digits (value : UInt64) : ∀ c ∈ Word.numeral value, isDigit c = true := by
  unfold Word.numeral
  by_cases zero : value = 0
  · rw [if_pos zero]
    decide +kernel
  · rw [if_neg zero]
    exact spelled_digits value.toNat

theorem number_numeral (value : UInt64) : number (Word.numeral value) = value.toNat := by
  unfold Word.numeral
  by_cases zero : value = 0
  · rw [if_pos zero, zero]
    rfl
  · rw [if_neg zero, number_spelled]

theorem numeral_ne_nil (value : UInt64) : Word.numeral value ≠ [] := by
  unfold Word.numeral
  by_cases zero : value = 0
  · rw [if_pos zero]
    exact List.cons_ne_nil _ _
  · rw [if_neg zero, spelled, ne_eq, List.reverse_eq_nil_iff, List.map_eq_nil_iff]
    exact fun none => zero (UInt64.toNat.inj (Nat.digits_eq_nil_iff_eq_zero.mp none))

namespace Lexer

section Ahead

variable {lexer : Lexer}

theorem drop_headD (text : Bytes) (i : Nat) : text.getD i 0 = (text.drop i).headD 0 := by
  rw [List.getD_eq_getElem?_getD, List.headD_eq_head?_getD, List.head?_drop]

theorem current_eq (lexer : Lexer) : lexer.current = lexer.ahead.headD 0 := drop_headD _ _

theorem peek_eq (lexer : Lexer) : lexer.peek = lexer.ahead.tail.headD 0 := by
  rw [peek, drop_headD, ahead, List.tail_drop]

theorem advance_ahead (lexer : Lexer) : lexer.advance.ahead = lexer.ahead.tail := by
  rw [ahead, advance_input, advance_pos, ahead, List.tail_drop]

theorem pos_lt_of_ahead (more : lexer.ahead ≠ []) : lexer.pos < lexer.input.length := by
  by_contra behind
  exact more (List.drop_eq_nil_of_le (Nat.le_of_not_lt behind))

theorem skipWhitespaceLoop_stop (fuel : Nat) (some : isSpace lexer.current = false)
    (plain : lexer.atComment = false) :
    skipWhitespaceLoop fuel lexer = lexer := by
  cases fuel with
  | zero => rfl
  | succ fuel =>
    unfold skipWhitespaceLoop
    by_cases done : lexer.atEnd = true
    · rw [if_pos done]
    · rw [if_neg done, some, plain]
      rfl

theorem skipWhitespaceLoop_space {fuel : Nat} {rest : Bytes}
    (space : lexer.ahead = code ' ' :: rest) :
    skipWhitespaceLoop (fuel + 1) lexer = skipWhitespaceLoop fuel lexer.advance := by
  have here : lexer.current = code ' ' := by rw [current_eq, space, List.headD_cons]
  have more : lexer.atEnd ≠ true := by
    rw [ne_eq, atEnd_iff, space]
    exact List.cons_ne_nil _ _
  rw [skipWhitespaceLoop, if_neg more, here, if_pos (by decide)]

end Ahead

/-- Where the scanner is behind a word. -/
structure Behind (lexer after : Lexer) (tail : Bytes) : Prop where
  input : after.input = lexer.input
  ahead : after.ahead = tail
  pos : after.pos ≤ after.input.length
  peeked : after.hasPeeked = lexer.hasPeeked

section Words

variable {lexer : Lexer} {tail : Bytes}

theorem behind_of_pos {after : Lexer} {text : Bytes} (ahead : lexer.ahead = text ++ tail)
    (input : after.input = lexer.input) (pos : after.pos = lexer.pos + text.length)
    (inside : lexer.pos ≤ lexer.input.length) (peeked : after.hasPeeked = lexer.hasPeeked) :
    Behind lexer after tail where
  input := input
  ahead := by
    rw [Lexer.ahead, input, pos, ← List.drop_drop]
    change lexer.ahead.drop text.length = tail
    rw [ahead, List.drop_left]
  pos := by
    have long := congrArg List.length ahead
    rw [length_ahead, remaining, List.length_append] at long
    rw [input, pos]
    omega
  peeked := peeked

theorem makeToken_behind {after : Lexer} {text : Bytes} (some : text ≠ []) (type : TokenType)
    (ahead : lexer.ahead = text ++ tail) (input : after.input = lexer.input)
    (pos : after.pos = lexer.pos + text.length)
    (peeked : after.hasPeeked = lexer.hasPeeked)
    (symbol : type ∉ nameTypes ∧ type ≠ .integerLiteral) :
    ∃ token, after.makeToken type = .ok (token, after) ∧ token.Shows ⟨type, text, 0⟩ ∧
      Behind lexer after tail := by
  have inside : lexer.pos < lexer.input.length := pos_lt_of_ahead (by
    rw [ahead]
    exact List.append_ne_nil_of_left_ne_nil some _)
  have behind := behind_of_pos ahead input pos inside.le peeked
  have long := List.length_pos_iff.mpr some
  have last := behind.pos
  refine ⟨⟨type, slice after.input (after.pos - 1) 1, 0, after.line, after.column - 1⟩, ?_,
    ⟨rfl, fun listed => absurd listed symbol.1, fun number => absurd number symbol.2⟩, behind⟩
  rw [makeToken_eq, if_neg (by omega)]

theorem advance_peeked : lexer.advance.hasPeeked = lexer.hasPeeked := advance_hasPeeked lexer

/-- How the characters of an operator are told apart. -/
inductive SymbolForm (type : TokenType) : Bytes → Prop where
  | one {c : UInt8} (found : oneToken c = some type) : SymbolForm type [c]
  | two {c second : UInt8} {alone : TokenType} (other : oneToken c = none)
      (found : twoTokens c = some (second, type, alone)) : SymbolForm type [c, second]
  | alone {c second : UInt8} {both : TokenType} (other : oneToken c = none)
      (found : twoTokens c = some (second, both, type))
        (apart : second ≠ 0 ∧ second ≠ code ' ') : SymbolForm type [c]

theorem symbolForm {type : TokenType} (listed : type ∈ symbols) :
    SymbolForm type (Word.symbol type).text := by
  simp only [symbols, List.mem_cons, List.not_mem_nil, or_false] at listed
  rcases listed with rfl | rfl | rfl | rfl | rfl | rfl | rfl | rfl | rfl | rfl | rfl | rfl |
    rfl | rfl | rfl | rfl | rfl |
    rfl
  all_goals first
    | exact .one rfl
    | exact .two rfl rfl
    | exact .alone rfl rfl (by decide)

theorem readOperator_symbol {type : TokenType} (listed : type ∈ symbols)
    (ahead : lexer.ahead = (Word.symbol type).text ++ tail) (closed : Closed tail) :
    ∃ token after, lexer.readOperator = .ok (token, after) ∧ token.Shows (.symbol type) ∧
      Behind lexer after tail := by
  have form := symbolForm listed
  have plain : ∀ type ∈ symbols, type ∉ nameTypes ∧ type ≠ .integerLiteral := by decide
  have kind := plain type listed
  change ∃ token after, lexer.readOperator = .ok (token, after) ∧
    Token.Shows token ⟨type, (Word.symbol type).text, 0⟩ ∧ Behind lexer after tail
  generalize (Word.symbol type).text = text at ahead form
  unfold readOperator
  cases form with
  | @one c found =>
    have here : lexer.current = c := by rw [current_eq, ahead]; rfl
    obtain ⟨token, made, shows, behind⟩ :=
      makeToken_behind (List.cons_ne_nil c []) type ahead (advance_input lexer)
      (advance_pos lexer) advance_peeked kind
    rw [here, found]
    exact ⟨token, _, made, shows, behind⟩
  | @two c second alone other found =>
    have here : lexer.current = c := by rw [current_eq, ahead]; rfl
    have next : lexer.advance.current = second := by rw [current_eq, advance_ahead, ahead]; rfl
    obtain ⟨token, made, shows, behind⟩ := makeToken_behind (List.cons_ne_nil c [second]) type ahead
      ((advance_input _).trans (advance_input lexer))
        ((advance_pos _).trans (congrArg (· + 1) (advance_pos lexer)))
      ((advance_hasPeeked _).trans advance_peeked) kind
    rw [here, other, found]
    dsimp only
    rw [if_pos next]
    exact ⟨token, _, made, shows, behind⟩
  | @alone c second both other found apart =>
    have here : lexer.current = c := by rw [current_eq, ahead]; rfl
    have next : lexer.advance.current ≠ second := by
      rw [current_eq, advance_ahead, ahead]
      change tail.headD 0 ≠ second
      rcases closed with rfl | ⟨rest, rfl⟩
      · exact apart.1.symm
      · exact apart.2.symm
    obtain ⟨token, made, shows, behind⟩ :=
      makeToken_behind (List.cons_ne_nil c []) type ahead (advance_input lexer)
      (advance_pos lexer) advance_peeked kind
    rw [here, other, found]
    dsimp only
    rw [if_neg next]
    exact ⟨token, _, made, shows, behind⟩

theorem takeWhile_text {keep : UInt8 → Bool} {text : Bytes} (all : ∀ c ∈ text, keep c = true)
    (space : keep (code ' ') = false) (closed : Closed tail) (ahead : lexer.ahead = text ++ tail) :
    lexer.ahead.takeWhile keep = text := by
  have nothing : tail.takeWhile keep = [] := by
    cases tail with
    | nil => rfl
    | cons c rest => exact List.takeWhile_cons_of_neg (Bool.not_eq_true _ ▸ closed.head space c rfl)
  rw [ahead, List.takeWhile_append_of_pos all, nothing, List.append_nil]

theorem advanceWhile_peeked (keep : UInt8 → Bool) (fuel : Nat) (lexer : Lexer) :
    (lexer.advanceWhile keep fuel).hasPeeked = lexer.hasPeeked := by
  induction fuel generalizing lexer with
  | zero => rfl
  | succ fuel ih =>
    unfold advanceWhile
    by_cases goesOn : (!lexer.atEnd && keep lexer.current) = true
    · rw [if_pos goesOn, ih, advance_hasPeeked]
    · rw [if_neg goesOn]

theorem advanceWhile_behind {keep : UInt8 → Bool} {text : Bytes}
    (all : ∀ c ∈ text, keep c = true) (some : text ≠ [])
    (space : keep (code ' ') = false) (closed : Closed tail) (ahead : lexer.ahead = text ++ tail) :
    Behind lexer (lexer.advanceWhile keep lexer.remaining) tail ∧
      slice (lexer.advanceWhile keep lexer.remaining).input lexer.pos
        ((lexer.advanceWhile keep lexer.remaining).pos - lexer.pos) = text := by
  have run := takeWhile_text all space closed ahead
  have enough : (lexer.ahead.takeWhile keep).length ≤ lexer.remaining :=
    length_ahead lexer ▸ (List.takeWhile_prefix keep).length_le
  obtain ⟨input, pos⟩ := advanceWhile_run keep enough
  have inside := @pos_lt_of_ahead lexer (by
    rw [ahead]
    exact List.append_ne_nil_of_left_ne_nil some _)
  have whole := advanceWhile_text keep lexer
  rw [run] at pos whole
  exact ⟨behind_of_pos ahead input pos inside.le (advanceWhile_peeked _ _ _), whole⟩

theorem readNumber_word (value : UInt64) (ahead : lexer.ahead = Word.numeral value ++ tail)
    (closed : Closed tail) :
    ∃ token after, lexer.readNumber = .ok (token, after) ∧ token.Shows (.number value) ∧
      Behind lexer after tail := by
  have digits := numeral_digits value
  obtain ⟨behind, text⟩ :=
    advanceWhile_behind digits (numeral_ne_nil value) (by decide) closed ahead
  have inside := @pos_lt_of_ahead lexer (by
    rw [ahead]
    exact List.append_ne_nil_of_left_ne_nil (numeral_ne_nil value) _)
  refine ⟨⟨.integerLiteral, Word.numeral value, value, lexer.line, lexer.column⟩, _, ?_,
    ⟨rfl, fun listed => absurd (show TokenType.integerLiteral ∈ nameTypes from listed)
      (by decide), fun _ => rfl⟩, behind⟩
  rw [readNumber_eq, numberToken, text, behind.input, if_neg (Nat.not_lt.mpr inside.le)]
  dsimp only
  rw [parseInteger_number digits, number_numeral, if_pos value.toNat_lt, UInt64.ofNat_toNat]

theorem readIdentifier_word {text : Bytes} (letters : NameText text)
    (ahead : lexer.ahead = text ++ tail)
    (closed : Closed tail) :
    ∃ token after, lexer.readIdentifier = .ok (token, after) ∧ token.Shows (.name text) ∧
      Behind lexer after tail := by
  have some : text ≠ [] := by
    obtain ⟨first, rest, rfl, -⟩ := letters.front
    exact List.cons_ne_nil first rest
  obtain ⟨behind, whole⟩ := advanceWhile_behind letters.rest some (by decide) closed ahead
  have inside := @pos_lt_of_ahead lexer (by
    rw [ahead]
    exact List.append_ne_nil_of_left_ne_nil some _)
  refine ⟨⟨lookupKeyword text, text, if lookupKeyword text = .true_ then
    1 else 0, lexer.line, lexer.column⟩, _, ?_,
    ⟨rfl, fun _ => rfl, fun number => absurd number (lookupKeyword_ne text)⟩, behind⟩
  rw [readIdentifier_eq, nameToken, whole, behind.input, if_neg (Nat.not_lt.mpr inside.le)]

theorem scan_here {word : Word} (spelled : Spelled word) (ahead : lexer.ahead = word.text ++ tail)
    (closed : Closed tail) :
    ∃ token after, (if isDigit lexer.current then lexer.readNumber
      else if isAlpha lexer.current || lexer.current = code '_' then lexer.readIdentifier
        else lexer.readOperator) =
        .ok (token, after) ∧ token.Shows word ∧ Behind lexer after tail := by
  cases spelled with
  | number value =>
    have digit : isDigit lexer.current = true := by
      obtain ⟨first, rest, front⟩ := List.exists_cons_of_ne_nil (numeral_ne_nil value)
      have here : lexer.current = first := by
        rw [current_eq, ahead]
        change (Word.numeral value ++ tail).headD 0 = first
        rw [front]
        rfl
      rw [here]
      exact numeral_digits value first (front ▸ List.mem_cons_self)
    rw [if_pos digit]
    exact readNumber_word value ahead closed
  | @name text letters =>
    obtain ⟨first, rest, front, letter⟩ := letters.front
    have here : lexer.current = first := by
      rw [current_eq, ahead]
      change (text ++ tail).headD 0 = first
      rw [front]
      rfl
    have other : ¬ isDigit first = true := by
      intro digit
      rw [isDigit_iff] at digit
      rw [Bool.or_eq_true, decide_eq_true_iff] at letter
      rcases letter with alpha | underscore
      · unfold isAlpha at alpha
        rw [decide_eq_true_iff] at alpha
        simp only [UInt8.le_iff_toNat_le] at alpha
        change 65 ≤ first.toNat ∧ _ ∨ 97 ≤ first.toNat ∧ _ at alpha
        omega
      · rw [underscore] at digit
        exact absurd digit (by decide)
    rw [here, if_neg other, if_pos letter]
    exact readIdentifier_word letters ahead closed
  | @symbol type listed =>
    have first : ∀ type ∈ symbols, ∃ c rest, (Word.symbol type).text =
        c :: rest ∧ isDigit c = false ∧
        (isAlpha c || decide (c = code '_')) = false := by
      intro type listed
      simp only [symbols, List.mem_cons, List.not_mem_nil, or_false] at listed
      rcases listed with rfl | rfl | rfl | rfl | rfl | rfl | rfl | rfl | rfl | rfl | rfl |
        rfl | rfl | rfl | rfl | rfl |
        rfl | rfl <;> exact ⟨_, _, rfl, rfl, rfl⟩
    obtain ⟨c, rest, front, digit, letter⟩ := first type listed
    have here : lexer.current = c := by
      rw [current_eq, ahead, front]
      rfl
    rw [here, digit, letter]
    exact readOperator_symbol listed ahead closed

theorem plain_word {word : Word} (spelled : Spelled word) (ahead : lexer.ahead = word.text ++ tail)
    (closed : Closed tail) :
    lexer.atEnd = false ∧ isSpace lexer.current = false ∧ lexer.atComment = false := by
  have plain : ∃ c rest, word.text = c :: rest ∧ isSpace c = false ∧
      (c = code '/' → rest = []) := by
    cases spelled with
    | number value =>
      obtain ⟨first, rest, front⟩ := List.exists_cons_of_ne_nil (numeral_ne_nil value)
      have digit := (isDigit_iff first).mp (numeral_digits value first (front ▸ List.mem_cons_self))
      refine ⟨first, rest, front, ?_, ?_⟩
      · unfold isSpace
        rw [decide_eq_false_iff_not, ← UInt8.toNat_inj,
          UInt8.le_iff_toNat_le, UInt8.le_iff_toNat_le]
        change ¬ (first.toNat = 32 ∨ 9 ≤ first.toNat ∧ first.toNat ≤ 13)
        omega
      · rintro rfl
        exact absurd digit (by decide)
    | @name text letters =>
      obtain ⟨first, rest, front, letter⟩ := letters.front
      refine ⟨first, rest, front, ?_, ?_⟩
      · rw [Bool.or_eq_true, decide_eq_true_iff] at letter
        unfold isSpace
        rw [decide_eq_false_iff_not, ← UInt8.toNat_inj,
          UInt8.le_iff_toNat_le, UInt8.le_iff_toNat_le]
        change ¬ (first.toNat = 32 ∨ 9 ≤ first.toNat ∧ first.toNat ≤ 13)
        rcases letter with alpha | rfl
        · unfold isAlpha at alpha
          rw [decide_eq_true_iff] at alpha
          simp only [UInt8.le_iff_toNat_le] at alpha
          change 65 ≤ first.toNat ∧ _ ∨ 97 ≤ first.toNat ∧ _ at alpha
          omega
        · decide
      · rintro rfl
        exact absurd letter (by decide)
    | @symbol type listed =>
      simp only [symbols, List.mem_cons, List.not_mem_nil, or_false] at listed
      rcases listed with rfl | rfl | rfl | rfl | rfl | rfl | rfl | rfl | rfl | rfl | rfl |
        rfl | rfl | rfl | rfl | rfl |
        rfl | rfl <;> exact ⟨_, _, rfl, rfl, by decide⟩
  obtain ⟨c, rest, front, space, comment⟩ := plain
  rw [front] at ahead
  have here : lexer.current = c := by
    rw [current_eq, ahead]
    rfl
  refine ⟨?_, here ▸ space, ?_⟩
  · rw [← Bool.not_eq_true, atEnd_iff, ahead]
    exact List.cons_ne_nil _ _
  · rw [atComment, here, peek_eq, ahead]
    by_cases slash : c = code '/'
    · rw [comment slash]
      rcases closed with rfl | ⟨more, rfl⟩
      · rw [slash]
        rfl
      · rw [slash]
        rfl
    · rw [decide_eq_false slash, Bool.false_and]

theorem scanToken_word {word : Word} (spelled : Spelled word) {space : Bytes}
    (blank : space = [] ∨ space = [code ' '])
    (ahead : lexer.ahead = space ++ (word.text ++ tail)) (closed : Closed tail) (fuel : Nat) :
    ∃ token after, scanToken (fuel + 1) lexer = .ok (token, after) ∧ token.Shows word ∧
      Behind lexer after tail := by
  obtain ⟨start, skipped, begins, input, peeked⟩ : ∃ start : Lexer, lexer.skipWhitespace = start ∧
      start.ahead = word.text ++ tail ∧ start.input = lexer.input ∧
        start.hasPeeked = lexer.hasPeeked := by
    rcases blank with rfl | rfl
    · obtain ⟨-, some, plain⟩ := plain_word spelled ahead closed
      exact ⟨lexer, skipWhitespaceLoop_stop _ some plain, ahead, rfl, rfl⟩
    · have behind : lexer.advance.ahead = word.text ++ tail := by
        rw [advance_ahead, ahead]
        rfl
      obtain ⟨-, some, plain⟩ := plain_word spelled behind closed
      have long : ∃ more, lexer.remaining = more + 1 := by
        refine ⟨(word.text ++ tail).length, ?_⟩
        rw [← length_ahead, ahead, List.length_append, List.length_singleton, Nat.add_comm]
      obtain ⟨more, remaining⟩ := long
      refine ⟨lexer.advance, ?_, behind, advance_input lexer, advance_hasPeeked lexer⟩
      rw [skipWhitespace, remaining, skipWhitespaceLoop_space ahead,
        skipWhitespaceLoop_stop more some plain]
  obtain ⟨more, -, plain⟩ := plain_word spelled begins closed
  obtain ⟨token, after, found, shows, behind⟩ := scan_here spelled begins closed
  refine ⟨token, after, ?_, shows, behind.input.trans input, behind.ahead, behind.pos,
    behind.peeked.trans peeked⟩
  unfold scanToken
  rw [skipped]
  dsimp only
  rw [more, plain]
  exact found

theorem scanToken_eof (none : lexer.ahead = []) (inside : lexer.pos ≤ lexer.input.length)
    (some : lexer.input ≠ [])
    (fuel : Nat) :
    ∃ token, scanToken (fuel + 1) lexer = .ok (token, lexer) ∧ token.Shows .eof := by
  have done : lexer.atEnd = true := (atEnd_iff lexer).mpr none
  have skipped : lexer.skipWhitespace = lexer := by
    unfold skipWhitespace
    cases lexer.remaining with
    | zero => rfl
    | succ more => rw [skipWhitespaceLoop, if_pos done]
  have last : lexer.input.length ≤ lexer.pos := by
    rw [atEnd, decide_eq_true_iff] at done
    exact done
  have long := List.length_pos_iff.mpr some
  refine ⟨⟨.eof, slice lexer.input (lexer.pos - 1) 1, 0, lexer.line, lexer.column - 1⟩, ?_,
    ⟨rfl, fun listed => absurd listed (by decide), fun number => by cases number⟩⟩
  unfold scanToken
  rw [skipped]
  dsimp only
  rw [if_pos done, makeToken_eq, if_neg (by omega)]

end Words

/-- The words are what the lexer will find; a token looked at ahead is the first of them. -/
structure Reads (lexer : Lexer) (words : List Word) : Prop where
  spelled : ∀ word ∈ words, Spelled word
  inside : lexer.pos ≤ lexer.input.length
  some : lexer.input ≠ []
  plain : lexer.hasPeeked = false → ∃ space, (space = [] ∨ space = [code ' ']) ∧
    space ++ lexer.ahead = spaced words
  peeked : lexer.hasPeeked = true → lexer.peekedToken.Shows (words.headD .eof) ∧
    lexer.ahead = spaced words.tail

section Reading

variable {lexer : Lexer} {words : List Word}

theorem Reads.scan (reads : lexer.Reads words) (fresh : lexer.hasPeeked = false) :
    ∃ token after, scanToken (lexer.remaining + 1) lexer = .ok (token, after) ∧
      token.Shows (words.headD .eof) ∧
      after.hasPeeked = false ∧ after.ahead = spaced words.tail ∧ after.input = lexer.input ∧
      after.pos ≤ after.input.length := by
  obtain ⟨space, blank, ahead⟩ := reads.plain fresh
  cases words with
  | nil =>
    have none := (List.append_eq_nil_iff.mp ahead).2
    obtain ⟨token, found, shows⟩ := scanToken_eof none reads.inside reads.some lexer.remaining
    exact ⟨token, lexer, found, shows, fresh, none, rfl, reads.inside⟩
  | cons word rest =>
    have text : ∃ space', (space' = [] ∨ space' = [code ' ']) ∧
        lexer.ahead = space' ++ (word.text ++ spaced rest) := by
      change space ++ lexer.ahead = code ' ' :: word.text ++ spaced rest at ahead
      rcases blank with rfl | rfl
      · exact ⟨[code ' '], .inr rfl, ahead⟩
      · exact ⟨[], .inl rfl, (List.cons.inj ahead).2⟩
    obtain ⟨space', blank', ahead'⟩ := text
    obtain ⟨token, after, found, shows, behind⟩ :=
      scanToken_word (reads.spelled word List.mem_cons_self) blank' ahead'
      (spaced_closed rest) lexer.remaining
    exact ⟨token, after, found, shows, behind.peeked.trans fresh, behind.ahead,
      behind.input, behind.pos⟩

theorem Reads.next (reads : lexer.Reads words) :
    ∃ token after, lexer.nextToken = .ok (token, after) ∧ token.Shows (words.headD .eof) ∧
      after.Reads words.tail := by
  have spelled : ∀ word ∈ words.tail, Spelled word :=
    fun word listed => reads.spelled word (List.mem_of_mem_tail listed)
  cases kept : lexer.hasPeeked with
  | true =>
    obtain ⟨shows, ahead⟩ := reads.peeked kept
    refine ⟨lexer.peekedToken,
      { lexer with hasPeeked := false }, by rw [nextToken, if_pos kept], shows, spelled,
      reads.inside, reads.some, fun _ => ⟨[], .inl rfl, ahead⟩, fun other => by cases other⟩
  | false =>
    obtain ⟨token, after, found, shows, fresh, ahead, input, inside⟩ := reads.scan kept
    refine ⟨token, after, ?_, shows, spelled, inside, input ▸ reads.some,
      fun _ => ⟨[], .inl rfl, ahead⟩, fun other => ?_⟩
    · rw [nextToken, kept]
      exact found
    · rw [fresh] at other
      cases other

theorem Reads.peek (reads : lexer.Reads words) :
    ∃ token after, lexer.peekToken = .ok (token, after) ∧
      token.Shows (words.headD .eof) ∧ after.Reads words := by
  cases kept : lexer.hasPeeked with
  | true =>
    refine ⟨lexer.peekedToken, lexer, by rw [peekToken, if_pos kept], (reads.peeked kept).1, reads⟩
  | false =>
    obtain ⟨token, after, found, shows, -, ahead, input, inside⟩ := reads.scan kept
    refine ⟨token, { after with peekedToken := token, hasPeeked := true }, ?_,
      shows, reads.spelled, inside,
      input ▸ reads.some, fun other => (by cases other), fun _ => ⟨shows, ahead⟩⟩
    rw [peekToken, kept]
    change (lexer.nextToken >>= _) = _
    rw [nextToken, kept]
    change (scanToken (lexer.remaining + 1) lexer >>= _) = _
    rw [found]
    rfl

end Reading

/-- The text of the words, without a space in front. -/
def written (words : List Word) : Bytes := (spaced words).tail

theorem reads_written {words : List Word} (spelled : ∀ word ∈ words, Spelled word)
    (some : written words ≠ []) :
    Reads { input := written words } words where
  spelled := spelled
  inside := Nat.zero_le _
  some := some
  plain := fun _ => by
    cases words with
    | nil => exact absurd rfl some
    | cons word rest => exact ⟨[code ' '], .inr rfl, rfl⟩
  peeked := fun other => by cases other

end Lexer

end VectorTick.Query
