import VectorTick.Execution.Evaluation
import VectorTick.Query.Spelling

/-! Expressions written with no more parentheses than the grammar needs, and read back. -/

set_option autoImplicit false

namespace VectorTick.Query

open Foundation Vts1 Evaluation

/-- The level of the grammar at which an operator is read, from the loosest to the tightest. -/
def precedence : TokenType → Nat
  | .or => 0
  | .and => 1
  | .pipe => 2
  | .caret => 3
  | .amp => 4
  | .equal | .notEqual => 5
  | .less | .lessEqual | .greater | .greaterEqual => 6
  | .plus | .minus => 7
  | _ => 8

/-- The word of an operator: a keyword or a symbol. -/
def operatorWord (op : TokenType) : Word :=
  match op with
  | .or => .name (nameBytes "OR")
  | .and => .name (nameBytes "AND")
  | op => .symbol op

def parenthesized (words : List Word) : List Word := .symbol .lParen :: words ++ [.symbol .rParen]

mutual

/-- The words of an expression where the level asks for one: parentheses stand around an operator
that is looser. The operand on the right of an operator is asked for one level up. -/
def printAt (level : Nat) : Expression → List Word
  | .literal value _ _ => [.number value]
  | .columnRef name _ _ => [.name name]
  | .binaryOp op left right _ _ =>
    let words :=
      printAt (precedence op) left ++ operatorWord op :: printAt (precedence op + 1) right
    if precedence op < level then parenthesized words else words
  | .unaryOp op operand _ _ => .symbol op :: printAt 9 operand
  | .functionCall name args _ _ =>
    .name name :: .symbol .lParen :: (printArguments args ++ [.symbol .rParen])

def printArguments : List Expression → List Word
  | [] => []
  | arg :: rest => printAt 0 arg ++ printFurther rest

def printFurther : List Expression → List Word
  | [] => []
  | arg :: rest => .symbol .comma :: (printAt 0 arg ++ printFurther rest)

end

/-- A name that is no keyword, or the name of an aggregate. -/
def IsName (text : Bytes) : Prop := NameText text ∧ Lexer.lookupKeyword text ∈ nameTypes

theorem nameText_word {text : String}
    (listed : text ∈ ["FROM", "WHERE", "OR", "AND", "events", "near"]) :
    NameText (nameBytes text) := by
  have letters : ∀ text ∈ ["FROM", "WHERE", "OR", "AND", "events", "near"],
      ∀ c ∈ nameBytes text, Lexer.isNameRest c = true := by decide +kernel
  refine ⟨?_, letters text listed⟩
  simp only [List.mem_cons, List.not_mem_nil, or_false] at listed
  rcases listed with rfl | rfl | rfl | rfl | rfl | rfl <;> exact ⟨_, _, rfl, rfl⟩

theorem lookupKeyword_table : Lexer.lookupKeyword (nameBytes "events") =
    .identifier := by decide +kernel

theorem isName_column (column : ColumnID) : IsName (nameBytes (getColumnName column)) := by
  cases column <;> exact ⟨⟨⟨_, _, rfl, rfl⟩, by decide +kernel⟩, by decide +kernel⟩

mutual

/-- What can be written: the names are names, the operators those of the parser. -/
def Printable : Expression → Prop
  | .literal _ _ _ => True
  | .columnRef name _ _ => IsName name
  | .binaryOp op left right _ _ => isBinaryOperator op = true ∧ Printable left ∧ Printable right
  | .unaryOp op operand _ _ => isUnaryOperator op = true ∧ Printable operand
  | .functionCall name args _ _ => IsName name ∧ AllPrintable args

def AllPrintable : List Expression → Prop
  | [] => True
  | arg :: rest => Printable arg ∧ AllPrintable rest

end

mutual

/-- The expression without its positions. -/
def shape : Expression → Expression
  | .literal value _ _ => .literal value 0 0
  | .columnRef name _ _ => .columnRef name 0 0
  | .binaryOp op left right _ _ => .binaryOp op (shape left) (shape right) 0 0
  | .unaryOp op operand _ _ => .unaryOp op (shape operand) 0 0
  | .functionCall name args _ _ => .functionCall name (shapes args) 0 0

def shapes : List Expression → List Expression
  | [] => []
  | arg :: rest => shape arg :: shapes rest

end

namespace Parser

/-- There was no error, and the words are ahead. -/
structure Stands (parser : Parser) (words : List Word) : Prop where
  clean : parser.hasError = false
  reads : parser.lexer.Reads words

/-- From the words, the step ends without an error; its value and the
words left are as described. -/
def Goes {α : Type} (words : List Word) (parse : Parse α) (post : α → List Word → Prop) : Prop :=
  ∀ parser, Stands parser words →
    ∃ value after rest, parse parser = some (.ok (value, after)) ∧ Stands after rest ∧
    post value rest

section Steps

variable {α β : Type} {words : List Word} {post : β → List Word → Prop}

theorem Goes.pure {value : β} (holds : post value words) :
    Goes words (Pure.pure value : Parse β) post :=
  fun parser stands => ⟨value, parser, words, rfl, stands, holds⟩

theorem Goes.bind {first : Parse α} {next : α → Parse β} {m : α → List Word → Prop}
    (one : Goes words first m)
    (two : ∀ value rest, m value rest → Goes rest (next value) post) :
    Goes words (first >>= next) post := by
  intro parser stands
  obtain ⟨value, reached, rest, start, stands', holds⟩ := one parser stands
  obtain ⟨value', after, rest', run, final, holds'⟩ := two value rest holds reached stands'
  refine ⟨value', after, rest', ?_, final, holds'⟩
  change Parse.bind first next parser = _
  unfold Parse.bind
  rw [start]
  exact run

theorem Goes.mono {parse : Parse β} {weaker : β → List Word → Prop} (one : Goes words parse post)
    (implies : ∀ value rest, post value rest → weaker value rest) : Goes words parse weaker := by
  intro parser stands
  obtain ⟨value, after, rest, run, final, holds⟩ := one parser stands
  exact ⟨value, after, rest, run, final, implies value rest holds⟩

theorem goes_lexing {step : Lexer → Except Stop (Token × Lexer)}
    {next : Token → Parse β} {rest : List Word}
    (steps : ∀ lexer : Lexer, lexer.Reads words →
      ∃ token after, step lexer = .ok (token, after) ∧
        token.Shows (words.headD .eof) ∧ after.Reads rest)
    (two : ∀ token : Token, token.Shows (words.headD .eof) → Goes rest (next token) post) :
    Goes words (Parse.lexing step >>= next) post := by
  refine Goes.bind (m := fun token left => token.Shows (words.headD .eof) ∧ left = rest) ?_ ?_
  · intro parser stands
    obtain ⟨token, after, found, shows, reads⟩ := steps parser.lexer stands.reads
    refine ⟨token, { parser with lexer := after }, rest, ?_, ⟨stands.clean, reads⟩, shows, rfl⟩
    unfold Parse.lexing
    rw [found]
  · rintro token left ⟨shows, rfl⟩
    exact two token shows

theorem goes_current {next : Token → Parse β}
    (two : ∀ token : Token, token.Shows (words.headD .eof) → Goes words (next token) post) :
    Goes words (currentToken >>= next) post := goes_lexing (fun _ reads => reads.peek) two

theorem goes_advance {next : Token → Parse β}
    (two : ∀ token : Token, token.Shows (words.headD .eof) → Goes words.tail (next token) post) :
    Goes words (advance >>= next) post := goes_lexing (fun _ reads => reads.next) two

theorem goes_failed {next : Bool → Parse β} (two : Goes words (next false) post) :
    Goes words (failed >>= next) post := by
  refine Goes.bind (m := fun error rest => error = false ∧ rest = words) ?_ ?_
  · exact fun parser stands => ⟨_, parser, words, rfl, stands, stands.clean, rfl⟩
  · rintro error rest ⟨rfl, rfl⟩
    exact two

theorem goes_check {type : TokenType} {next : Bool → Parse β}
    (two : Goes words (next (decide ((words.headD .eof).type = type))) post) :
    Goes words (check type >>= next) post := by
  refine Goes.bind (m := fun found rest => found = decide ((words.headD .eof).type = type) ∧
    rest = words) ?_ ?_
  · refine goes_current fun token shows => Goes.pure ⟨?_, rfl⟩
    rw [shows.type]
  · rintro found rest ⟨rfl, rfl⟩
    exact two

theorem goes_accept {type : TokenType} {next : Bool → Parse β}
    (ahead : (words.headD .eof).type = type)
    (two : Goes words.tail (next true) post) : Goes words (accept type >>= next) post := by
  refine Goes.bind (m := fun found rest => found = true ∧ rest = words.tail) ?_ ?_
  · refine goes_check ?_
    rw [decide_eq_true ahead]
    exact goes_advance fun token _ => Goes.pure ⟨rfl, rfl⟩
  · rintro found rest ⟨rfl, rfl⟩
    exact two

theorem goes_refuse {type : TokenType} {next : Bool → Parse β}
    (ahead : (words.headD .eof).type ≠ type)
    (two : Goes words (next false) post) : Goes words (accept type >>= next) post := by
  refine Goes.bind (m := fun found rest => found = false ∧ rest = words) ?_ ?_
  · refine goes_check ?_
    rw [decide_eq_false ahead]
    exact Goes.pure ⟨rfl, rfl⟩
  · rintro found rest ⟨rfl, rfl⟩
    exact two

theorem goes_expect {type : TokenType} {msg : String} {next : Token → Parse β}
    (ahead : (words.headD .eof).type = type)
    (two : ∀ token : Token, token.Shows (words.headD .eof) → Goes words.tail (next token) post) :
    Goes words (expect type msg >>= next) post := by
  refine Goes.bind (m := fun token rest => token.Shows (words.headD .eof) ∧ rest = words.tail) ?_ ?_
  · refine goes_check ?_
    rw [decide_eq_true ahead]
    have taken : Goes words (advance >>= Pure.pure) fun token rest =>
        token.Shows (words.headD .eof) ∧ rest = words.tail :=
      goes_advance fun token shows => Goes.pure ⟨shows, rfl⟩
    intro parser stands
    obtain ⟨token, after, rest, run, final, holds⟩ := taken parser stands
    refine ⟨token, after, rest, ?_, final, holds⟩
    rw [← run]
    change advance parser = Parse.bind advance Pure.pure parser
    unfold Parse.bind
    cases advance parser with
    | none => rfl
    | some outcome => cases outcome <;> rfl
  · rintro token rest ⟨shows, rfl⟩
    exact two token shows

end Steps

def operatorsAt : Nat → List TokenType
  | 0 => [.or]
  | 1 => [.and]
  | 2 => [.pipe]
  | 3 => [.caret]
  | 4 => [.amp]
  | 5 => [.equal, .notEqual]
  | 6 => [.less, .lessEqual, .greater, .greaterEqual]
  | 7 => [.plus, .minus]
  | 8 => [.star, .slash, .percent]
  | _ => []

/-- How the parser looks for them. -/
def operatorAt : Nat → Operator
  | 0 => matched .or
  | 1 => matched .and
  | 2 => matched .pipe
  | 3 => matched .caret
  | 4 => matched .amp
  | 5 => checked [.equal, .notEqual]
  | 6 => checked [.less, .lessEqual, .greater, .greaterEqual]
  | 7 => checked [.plus, .minus]
  | _ => checked [.star, .slash, .percent]

def levelAt (expression : Parse (Option Expression)) (fuel : Nat) : Nat → Parse (Option Expression)
  | 0 => parseOrExpr expression fuel
  | 1 => parseAndExpr expression fuel
  | 2 => parseBitwiseOrExpr expression fuel
  | 3 => parseBitwiseXorExpr expression fuel
  | 4 => parseBitwiseAndExpr expression fuel
  | 5 => parseEqualityExpr expression fuel
  | 6 => parseComparisonExpr expression fuel
  | 7 => parseAdditiveExpr expression fuel
  | 8 => parseMultiplicativeExpr expression fuel
  | _ => parseUnaryExpr expression fuel

theorem levelAt_eq (expression : Parse (Option Expression)) (fuel : Nat)
    {level : Nat} (binary : level < 9) :
    levelAt expression fuel level = parseLevel (operatorAt level)
    (levelAt expression fuel (level + 1)) fuel := by
  interval_cases level <;> rfl

theorem mem_operatorsAt {op : TokenType} (known : isBinaryOperator op = true) (level : Nat) :
    op ∈ operatorsAt level ↔ level = precedence op := by
  obtain binary | unary := Nat.lt_or_ge level 9
  · revert known
    cases op <;> intro known <;> first
      | exact absurd known Bool.false_ne_true
      | (interval_cases level <;> decide)
  · have none : operatorsAt level = [] := by
      obtain ⟨more, rfl⟩ := Nat.exists_eq_add_of_le' unary
      rfl
    have low : precedence op < 9 := by cases op <;> decide
    rw [none]
    exact ⟨fun listed => absurd listed List.not_mem_nil, fun same => by omega⟩

theorem precedence_lt {op : TokenType} : precedence op < 9 := by cases op <;> decide

section Operators

variable {β : Type} {words : List Word} {post : β → List Word → Prop}
  {next : Option (TokenType × Nat × Nat) → Parse β}

theorem goes_matched {type : TokenType} (ahead : (words.headD .eof).type = type)
    (two : ∀ line column, Goes words.tail (next (some (type, line, column))) post) :
    Goes words (matched type >>= next) post := by
  refine Goes.bind (m := fun found rest => (∃ line column, found = some (type, line, column)) ∧
    rest = words.tail) ?_ ?_
  · refine goes_accept ahead ?_
    exact goes_current fun token _ => Goes.pure ⟨⟨token.line, token.column, rfl⟩, rfl⟩
  · rintro found rest ⟨⟨line, column, rfl⟩, rfl⟩
    exact two line column

theorem goes_unmatched {type : TokenType} (ahead : (words.headD .eof).type ≠ type)
    (two : Goes words (next none) post) :
    Goes words (matched type >>= next) post := by
  refine Goes.bind (m := fun found rest => found = none ∧ rest = words) ?_ ?_
  · exact goes_refuse ahead (Goes.pure ⟨rfl, rfl⟩)
  · rintro found rest ⟨rfl, rfl⟩
    exact two

theorem goes_checked {types : List TokenType} (ahead : (words.headD .eof).type ∈ types)
    (two : ∀ line column,
      Goes words.tail (next (some ((words.headD .eof).type, line, column))) post) :
    Goes words (checked types >>= next) post := by
  refine Goes.bind (m := fun found rest =>
    (∃ line column, found = some ((words.headD .eof).type, line, column)) ∧ rest = words.tail) ?_ ?_
  · refine goes_current fun token shows => ?_
    rw [shows.type, if_pos ahead]
    refine goes_advance fun op shown => Goes.pure ⟨⟨op.line, op.column, ?_⟩, rfl⟩
    rw [shown.type]
  · rintro found rest ⟨⟨line, column, rfl⟩, rfl⟩
    exact two line column

theorem goes_unchecked {types : List TokenType} (ahead : (words.headD .eof).type ∉ types)
    (two : Goes words (next none) post) : Goes words (checked types >>= next) post := by
  refine Goes.bind (m := fun found rest => found = none ∧ rest = words) ?_ ?_
  · refine goes_current fun token shows => ?_
    rw [shows.type, if_neg ahead]
    exact Goes.pure ⟨rfl, rfl⟩
  · rintro found rest ⟨rfl, rfl⟩
    exact two

theorem goes_operator {level : Nat} (binary : level < 9)
    (ahead : (words.headD .eof).type ∈ operatorsAt level)
    (two : ∀ line column,
      Goes words.tail (next (some ((words.headD .eof).type, line, column))) post) :
    Goes words (operatorAt level >>= next) post := by
  obtain word | list := Nat.lt_or_ge level 5
  · have same : ∃ type, operatorAt level = matched type ∧ operatorsAt level = [type] := by
      interval_cases level <;> exact ⟨_, rfl, rfl⟩
    obtain ⟨type, looks, alone⟩ := same
    have is : (words.headD .eof).type = type := List.mem_singleton.mp (alone ▸ ahead)
    rw [looks]
    exact goes_matched is fun line column => is ▸ two line column
  · have same : operatorAt level = checked (operatorsAt level) := by
      interval_cases level <;> rfl
    rw [same]
    exact goes_checked ahead two

theorem goes_noOperator {level : Nat} (binary : level < 9)
    (ahead : (words.headD .eof).type ∉ operatorsAt level)
    (two : Goes words (next none) post) : Goes words (operatorAt level >>= next) post := by
  obtain word | list := Nat.lt_or_ge level 5
  · have same : ∃ type, operatorAt level = matched type ∧ operatorsAt level = [type] := by
      interval_cases level <;> exact ⟨_, rfl, rfl⟩
    obtain ⟨type, looks, alone⟩ := same
    rw [looks]
    exact goes_unmatched (fun is => ahead (alone ▸ List.mem_singleton.mpr is)) two
  · have same : operatorAt level = checked (operatorsAt level) := by
      interval_cases level <;> rfl
    rw [same]
    exact goes_unchecked ahead two

end Operators

/-- What stands behind an expression of the level: no operator that would belong to it, and no
parenthesis, which would make a call of a name. -/
def Stops (level : Nat) (words : List Word) : Prop :=
  (words.headD .eof).type ≠ .lParen ∧ ∀ tighter, level ≤ tighter →
    (words.headD .eof).type ∉ operatorsAt tighter

theorem Stops.mono {level higher : Nat} {words : List Word} (stops : Stops level words)
    (more : level ≤ higher) :
    Stops higher words :=
  ⟨stops.1, fun tighter reach => stops.2 tighter (more.trans reach)⟩

theorem stops_of_mark {words : List Word} (mark : (words.headD .eof).type ∈ [.eof, .rParen, .comma])
    (level : Nat) :
    Stops level words := by
  unfold Stops
  generalize (words.headD .eof).type = type at mark ⊢
  have no : ∀ tighter, type ∉ operatorsAt tighter := by
    intro tighter listed
    simp only [List.mem_cons, List.not_mem_nil, or_false] at mark
    obtain binary | unary := Nat.lt_or_ge tighter 9
    · rcases mark with rfl | rfl | rfl <;> interval_cases tighter <;> simp [operatorsAt] at listed
    · obtain ⟨more, rfl⟩ := Nat.exists_eq_add_of_le' unary
      exact absurd listed List.not_mem_nil
  refine ⟨?_, fun tighter _ => no tighter⟩
  rintro rfl
  simp at mark

/-- The expression is read back, up to its positions. -/
def Back (e : Expression) (rest : List Word) (found : Option Expression)
    (left : List Word) : Prop :=
  ∃ e', found = some e' ∧ shape e' = shape e ∧ left = rest

/-- The operators of the level on the left spine. -/
def spine (level : Nat) : Expression → Nat
  | .binaryOp op left _ _ _ => if precedence op = level then spine level left + 1 else 0
  | _ => 0

/-- The function of the level reads the expression back. -/
def ReadBack (e : Expression) (level fuel : Nat) : Prop :=
  ∀ rest, Stops level rest →
    Goes (printAt level e ++ rest) (levelAt (parseExpression fuel) (fuel + 1) level) (Back e rest)

/-- The function of the level reads the expression, and goes on to the operators behind it. -/
def Continues (e : Expression) (level fuel : Nat) : Prop :=
  ∀ rest, Stops (level + 1) rest → ∀ post : Option Expression → List Word → Prop,
    (∀ e', shape e' = shape e → Goes rest (joinLeft (operatorAt level)
      (levelAt (parseExpression fuel) (fuel + 1) (level + 1)) (fuel + 1 - spine level e) e') post) →
    Goes (printAt level e ++ rest) (levelAt (parseExpression fuel) (fuel + 1) level) post

/-- The unary level, with any fuel of its own. -/
def Tight (e : Expression) (fuel : Nat) : Prop :=
  ∀ unary, (printAt 9 e).length < unary → ∀ rest, Stops 9 rest →
    Goes (printAt 9 e ++ rest) (parseUnaryExpr (parseExpression fuel) unary) (Back e rest)

structure Levels (e : Expression) : Prop where
  tight : ∀ fuel, (printAt 9 e).length ≤ fuel → Tight e fuel
  back : ∀ level ≤ 9, ∀ fuel, (printAt level e).length ≤ fuel → ReadBack e level fuel
  continues : ∀ level < 9, ∀ fuel, (printAt level e).length ≤ fuel → Continues e level fuel

section Chains

variable {e left right : Expression} {level fuel : Nat} {op : TokenType} {line column : Nat}

theorem spine_le (level : Nat) (e : Expression) : spine level e ≤ (printAt level e).length := by
  induction e using Expression.induction (Q := fun _ => True) with
  | binaryOp op left right line column ih _ =>
    rw [spine]
    split
    · next same =>
      subst same
      simp only [printAt, lt_irrefl, if_false, List.length_append, List.length_cons]
      omega
    · exact Nat.zero_le _
  | literal | columnRef | unaryOp | functionCall => exact Nat.zero_le _
  | nil => trivial
  | cons => trivial

theorem readBack_of_continues (binary : level < 9) (continues : Continues e level fuel)
    (enough : (printAt level e).length ≤ fuel) : ReadBack e level fuel := by
  intro rest stops
  refine continues rest (stops.mono (Nat.le_succ level)) _ fun e' same => ?_
  obtain ⟨more, left⟩ : ∃ more, fuel + 1 - spine level e = more + 1 :=
    ⟨fuel - spine level e, by have few := spine_le level e; omega⟩
  rw [left, joinLeft]
  exact goes_noOperator binary (stops.2 level le_rfl) (Goes.pure ⟨e', rfl, same, rfl⟩)

theorem continues_of_readBack (binary : level < 9) (same : printAt level e = printAt (level + 1) e)
    (none : spine level e = 0) (back : ReadBack e (level + 1) fuel) : Continues e level fuel := by
  intro rest stops post goesOn
  rw [levelAt_eq _ _ binary, same, parseLevel]
  refine (back rest stops).bind ?_
  rintro found left ⟨e', rfl, shaped, rfl⟩
  refine goes_failed ?_
  have joined := goesOn e' shaped
  rwa [none] at joined

theorem operatorWord_type (op : TokenType) : (operatorWord op).type = op := by
  cases op <;> rfl

theorem continues_binary (known : isBinaryOperator op = true) (binary : precedence op < 9)
    (chain : Continues left (precedence op) fuel) (back : ReadBack right (precedence op + 1) fuel)
    (enough : (printAt (precedence op) left).length < fuel) :
    Continues (.binaryOp op left right line column) (precedence op) fuel := by
  intro rest stops post goesOn
  have words : printAt (precedence op) (.binaryOp op left right line column) ++ rest =
      printAt (precedence op) left ++
        (operatorWord op :: (printAt (precedence op + 1) right ++ rest)) := by
    simp [printAt]
  have long : spine (precedence op) (.binaryOp op left right line column) =
      spine (precedence op) left + 1 := if_pos rfl
  have here : (operatorWord op).type ∈ operatorsAt (precedence op) := by
    rw [operatorWord_type, mem_operatorsAt known]
  rw [words]
  refine chain _ ⟨?_, fun tighter reach => ?_⟩ post fun left' shaped => ?_
  · rw [List.headD_cons, operatorWord_type]
    rintro rfl
    cases known
  · rw [List.headD_cons, operatorWord_type, mem_operatorsAt known]
    omega
  obtain ⟨more, fuels⟩ : ∃ more, fuel + 1 - spine (precedence op) left = more + 1 :=
    ⟨fuel - spine (precedence op) left, by have few := spine_le (precedence op) left; omega⟩
  rw [fuels, joinLeft]
  refine goes_operator binary here fun line' column' => ?_
  rw [List.headD_cons, operatorWord_type]
  refine (back rest stops).bind ?_
  rintro found left'' ⟨right', rfl, shaped', rfl⟩
  refine goes_failed ?_
  have joined := goesOn (.binaryOp op left' right' line' column') (by simp [shape, shaped, shaped'])
  rw [long, show fuel + 1 - (spine (precedence op) left + 1) = more by omega] at joined
  exact joined

theorem readBack_descend {high : Nat} (binary : high ≤ 9) (back : ReadBack e high fuel) (low : Nat)
    (plain : ∀ level, low ≤ level → level < high →
      printAt level e = printAt (level + 1) e ∧ spine level e = 0)
    (enough : ∀ level, low ≤ level → level ≤ high → (printAt level e).length ≤ fuel) :
    ∀ level, low ≤ level → level ≤ high → ReadBack e level fuel ∧
      (level < high → Continues e level fuel) := by
  intro level above below
  induction below using Nat.decreasingInduction with
  | self => exact ⟨back, fun impossible => absurd impossible (lt_irrefl _)⟩
  | of_succ level less ih =>
    obtain ⟨same, none⟩ := plain level above less
    have continues := continues_of_readBack (by omega) same none (ih (by omega)).1
    exact ⟨readBack_of_continues (by omega) continues (enough level above less.le),
      fun _ => continues⟩

end Chains

section Tight

variable {words : List Word} {post : Option Expression → List Word → Prop}
  {expression : Parse (Option Expression)}

theorem goes_primary {unary : Nat} (plain : (words.headD .eof).type ∉ [.minus, .bang])
    (two : Goes words (parsePrimaryExpr expression (unary + 1)) post) :
    Goes words (parseUnaryExpr expression (unary + 1)) post := by
  rw [parseUnaryExpr]
  refine goes_current fun token shows => ?_
  rw [shows.type, if_neg plain]
  exact two

theorem goes_literal {rest : List Word} (value : UInt64) (fuel : Nat)
    (two : ∀ line column, post (some (.literal value line column)) rest) :
    Goes (.number value :: rest) (parsePrimaryExpr expression fuel) post := by
  rw [parsePrimaryExpr]
  refine goes_current fun token shows => goes_accept rfl ?_
  rw [if_pos rfl, show token.intValue = value from shows.value rfl]
  exact Goes.pure (two token.line token.column)

theorem goes_name {rest : List Word} {name : Bytes} (named : IsName name) (fuel : Nat)
    (two : Goes (.name name :: rest) (parseName expression fuel) post) :
    Goes (.name name :: rest) (parsePrimaryExpr expression fuel) post := by
  have other : ∀ type, type ∉ nameTypes → (List.headD (.name name :: rest) .eof).type ≠ type := by
    rintro type unlisted rfl
    exact unlisted named.2
  rw [parsePrimaryExpr]
  refine goes_current fun token shows => goes_refuse (other _ (by decide)) ?_
  refine goes_refuse (other _ (by decide))
    (goes_refuse (other _ (by decide)) (goes_refuse (other _ (by decide)) ?_))
  refine goes_current fun token shows => ?_
  rw [shows.type, if_pos (by exact named.2)]
  exact two

theorem goes_column {rest : List Word} {name : Bytes} (named : IsName name) (fuel : Nat)
    (behind : (rest.headD .eof).type ≠ .lParen)
    (two : ∀ line column, post (some (.columnRef name line column)) rest) :
    Goes (.name name :: rest) (parsePrimaryExpr expression fuel) post := by
  refine goes_name named fuel (goes_advance fun token shows => goes_check ?_)
  rw [show token.text = name from shows.text named.2]
  rw [List.tail_cons, decide_eq_false behind]
  exact Goes.pure (two token.line token.column)

theorem goes_parenthesized {inner rest : List Word} {e : Expression} (fuel : Nat)
    (reads : Goes (inner ++ .symbol .rParen :: rest) expression (Back e (.symbol .rParen :: rest)))
    (two : ∀ e', shape e' = shape e → post (some e') rest) :
    Goes (parenthesized inner ++ rest) (parsePrimaryExpr expression fuel) post := by
  have words : parenthesized inner ++ rest =
      .symbol .lParen :: (inner ++ .symbol .rParen :: rest) := by
    simp [parenthesized]
  rw [words, parsePrimaryExpr]
  have other : ∀ type, type ≠ .lParen →
      (List.headD (.symbol .lParen :: (inner ++ .symbol .rParen :: rest)) .eof).type ≠ type :=
        fun _ ne => ne.symm
  refine goes_current fun token _ => goes_refuse (other _ (by decide)) ?_
  refine goes_refuse (other _ (by decide)) (goes_refuse (other _ (by decide)) ?_)
  refine goes_accept rfl (reads.bind ?_)
  rintro found left ⟨e', rfl, same, rfl⟩
  refine goes_failed (goes_accept rfl ?_)
  exact Goes.pure (two e' same)

theorem goes_sign {rest : List Word} {op : TokenType} {e : Expression}
    (known : isUnaryOperator op = true) {unary : Nat}
    (reads : Goes rest (parseUnaryExpr expression unary) (Back e words))
    (two : ∀ e' line column, shape e' = shape e → post (some (.unaryOp op e' line column)) words) :
    Goes (.symbol op :: rest) (parseUnaryExpr expression (unary + 1)) post := by
  have sign : op ∈ [TokenType.minus, .bang] := by
    cases op <;> first | decide | cases known
  rw [parseUnaryExpr]
  refine goes_current fun token shows => ?_
  rw [shows.type, if_pos (by exact sign)]
  refine goes_advance fun token shows => reads.bind ?_
  rintro found left ⟨e', rfl, same, rfl⟩
  refine goes_failed ?_
  rw [show token.type = op from shows.type]
  exact Goes.pure (two e' token.line token.column same)

end Tight

/-- What an expression can begin with. -/
def startTypes : List TokenType := [.integerLiteral, .lParen, .minus, .bang] ++ nameTypes

theorem head_printAt {e : Expression} (printable : Printable e) (level : Nat) (rest : List Word) :
    ((printAt level e ++ rest).headD .eof).type ∈ startTypes := by
  induction e using Expression.induction (Q := fun _ => True) generalizing level rest with
  | literal value line column => simp [printAt, Word.number, startTypes]
  | columnRef name line column =>
    have named := printable.2
    simp [printAt, Word.name, startTypes, named]
  | binaryOp op left right line column ih _ =>
    unfold printAt
    dsimp only
    split
    · simp [parenthesized, Word.symbol, startTypes]
    · rw [List.append_assoc]
      exact ih printable.2.1 _ _
  | unaryOp op operand line column _ =>
    have known := printable.1
    cases op <;> first | (simp [printAt, Word.symbol, startTypes]; done) | cases known
  | functionCall name args line column _ =>
    have named := printable.1.2
    simp [printAt, Word.name, startTypes, named]
  | nil => trivial
  | cons => trivial

/-- The arguments read back, and the words behind them. -/
def BackAll (args : List Expression) (front : List Expression) (rest : List Word)
    (found : Option (List Expression))
    (left : List Word) : Prop :=
  ∃ args', found = some (front ++ args') ∧ shapes args' = shapes args ∧ left = rest

section Arguments

variable {expression : Parse (Option Expression)} {args : List Expression} {rest : List Word}

/-- The function reads the argument, wherever a mark follows. -/
def ReadsArgument (expression : Parse (Option Expression)) (arg : Expression) : Prop :=
  ∀ rest : List Word, (rest.headD .eof).type ∈ [.eof, .rParen, .comma] →
    Goes (printAt 0 arg ++ rest) expression (Back arg rest)

theorem goes_arguments {arg : Expression} {further : List Expression}
    (reads : ∀ item ∈ arg :: further, ReadsArgument expression item) {fuel : Nat}
    (enough : further.length < fuel)
    (front : List Expression) :
    Goes (printAt 0 arg ++ (printFurther further ++ .symbol .rParen :: rest))
    (parseArguments expression fuel front)
      (BackAll (arg :: further) front (.symbol .rParen :: rest)) := by
  induction further generalizing arg fuel front with
  | nil =>
    obtain ⟨fuel, rfl⟩ := Nat.exists_eq_add_of_lt enough
    rw [parseArguments]
    refine (reads arg List.mem_cons_self (.symbol .rParen :: rest) (by simp [Word.symbol])).bind ?_
    rintro found left ⟨arg', rfl, same, rfl⟩
    refine goes_failed ?_
    have last : Goes (.symbol .rParen :: rest) another fun goesOn left => goesOn = false ∧
        left = .symbol .rParen :: rest :=
      goes_refuse (by simp [Word.symbol]) (Goes.pure ⟨rfl, rfl⟩)
    refine last.bind ?_
    rintro goesOn left ⟨rfl, rfl⟩
    exact Goes.pure ⟨[arg'], rfl, by rw [shapes, shapes, shapes, shapes, same], rfl⟩
  | cons next further ih =>
    rw [List.length_cons] at enough
    obtain ⟨more, rfl⟩ : ∃ more, fuel = more + 1 := ⟨fuel - 1, by omega⟩
    have words : printFurther (next :: further) ++ .symbol .rParen :: rest =
        .symbol .comma ::
          (printAt 0 next ++ (printFurther further ++ .symbol .rParen :: rest)) := by
      simp [printFurther]
    rw [parseArguments, words]
    refine (reads arg List.mem_cons_self _ (by simp [Word.symbol])).bind ?_
    rintro found left ⟨arg', rfl, same, rfl⟩
    refine goes_failed ?_
    have comma : Goes (.symbol .comma ::
        (printAt 0 next ++ (printFurther further ++ .symbol .rParen :: rest))) another
        fun goesOn left => goesOn = true ∧
          left = printAt 0 next ++ (printFurther further ++ .symbol .rParen :: rest) :=
      goes_accept rfl (goes_failed (Goes.pure ⟨rfl, rfl⟩))
    refine comma.bind ?_
    rintro goesOn left ⟨rfl, rfl⟩
    refine (ih (fun item listed => reads item (List.mem_cons_of_mem _ listed)) (by omega)
      (front ++ [arg'])).mono ?_
    rintro found left ⟨args', rfl, sames, rfl⟩
    refine ⟨arg' :: args', by simp, ?_, rfl⟩
    rw [shapes, shapes, same, sames]

theorem goes_callArguments (printable : AllPrintable args)
    (reads : ∀ item ∈ args, ReadsArgument expression item)
    {fuel : Nat} (enough : args.length ≤ fuel) :
    Goes (printArguments args ++ .symbol .rParen :: rest) (parseCallArguments expression fuel)
      (BackAll args [] (.symbol .rParen :: rest)) := by
  rw [parseCallArguments]
  cases args with
  | nil =>
    refine goes_refuse (by simp [printArguments, Word.symbol]) (goes_check ?_)
    exact Goes.pure ⟨[], rfl, rfl, rfl⟩
  | cons arg further =>
    have words : printArguments (arg :: further) ++ .symbol .rParen :: rest =
        printAt 0 arg ++ (printFurther further ++ .symbol .rParen :: rest) := by
      simp [printArguments]
    have start := head_printAt printable.1 0 (printFurther further ++ .symbol .rParen :: rest)
    rw [words]
    generalize type : (((printAt 0 arg ++ (printFurther further ++ .symbol .rParen :: rest)).headD
      .eof).type) = first at start
    have other : first ≠ .star ∧ first ≠ .rParen := by
      constructor <;> rintro rfl <;> exact absurd start (by decide)
    refine goes_refuse (by rw [type]; exact other.1) (goes_check ?_)
    rw [type, decide_eq_false other.2]
    exact goes_arguments reads enough []

theorem goes_call {name : Bytes} (named : IsName name) (printable : AllPrintable args)
    (reads : ∀ item ∈ args, ReadsArgument expression item) {fuel : Nat}
    (enough : args.length ≤ fuel)
    {post : Option Expression → List Word → Prop}
    (two : ∀ args' line column, shapes args' = shapes args →
      post (some (.functionCall name args' line column)) rest) :
    Goes (.name name :: .symbol .lParen :: (printArguments args ++ .symbol .rParen :: rest))
      (parsePrimaryExpr expression fuel) post := by
  refine goes_name named fuel (goes_advance fun token shows => goes_check ?_)
  rw [show token.text = name from shows.text named.2]
  refine goes_advance fun _ _ => (goes_callArguments printable reads enough).bind ?_
  rintro found left ⟨args', rfl, same, rfl⟩
  refine goes_accept rfl ?_
  exact Goes.pure (two args' token.line token.column same)

theorem length_printFurther {item : Expression} (listed : item ∈ args) :
    (printAt 0 item).length < (printFurther args).length := by
  induction args with
  | nil => cases listed
  | cons arg further ih =>
    simp only [printFurther, List.length_cons, List.length_append]
    rcases List.mem_cons.mp listed with rfl | later
    · omega
    · have more := ih later
      omega

theorem length_printArguments {item : Expression} (listed : item ∈ args) :
    (printAt 0 item).length ≤ (printArguments args).length := by
  cases args with
  | nil => cases listed
  | cons arg further =>
    simp only [printArguments, List.length_append]
    rcases List.mem_cons.mp listed with rfl | later
    · omega
    · have more := length_printFurther later
      omega

theorem length_le_printFurther (args : List Expression) :
    args.length ≤ (printFurther args).length := by
  induction args with
  | nil => exact Nat.le_refl 0
  | cons arg further ih =>
    simp only [printFurther, List.length_cons, List.length_append]
    omega

theorem length_le_printArguments (args : List Expression) :
    args.length ≤ (printArguments args).length + 1 := by
  cases args with
  | nil => exact Nat.zero_le _
  | cons arg further =>
    have more := length_le_printFurther further
    simp only [printArguments, List.length_cons, List.length_append]
    omega

end Arguments

section Expressions

variable {e left right : Expression} {op : TokenType} {line column : Nat}

theorem back_of_tight {fuel : Nat} (tight : Tight e fuel) (enough : (printAt 9 e).length ≤ fuel) :
    ReadBack e 9 fuel :=
  fun rest stops => tight (fuel + 1) (by omega) rest stops

theorem levels_of_tight (alike : ∀ level, printAt level e = printAt 9 e)
    (none : ∀ level, spine level e = 0)
    (tight : ∀ fuel, (printAt 9 e).length ≤ fuel → Tight e fuel) : Levels e := by
  have all : ∀ level ≤ 9, ∀ fuel, (printAt level e).length ≤ fuel →
      ReadBack e level fuel ∧ (level < 9 → Continues e level fuel) := by
    intro level below fuel enough
    rw [alike] at enough
    refine readBack_descend le_rfl (back_of_tight (tight fuel enough) enough) 0
      (fun other _ _ => ⟨by rw [alike, alike (other + 1)], none other⟩)
        (fun other _ _ => ?_) level (Nat.zero_le _) below
    rw [alike]
    exact enough
  exact ⟨tight, fun level below fuel enough => (all level below fuel enough).1,
    fun level below fuel enough => (all level below.le fuel enough).2 below⟩

theorem levels_binary (known : isBinaryOperator op = true)
    (one : Levels left) (two : Levels right) :
    Levels (.binaryOp op left right line column) := by
  generalize chain : Expression.binaryOp op left right line column = e
  have bound := @precedence_lt op
  obtain ⟨words, wordsEq⟩ : ∃ words, words =
      printAt (precedence op) left ++ operatorWord op :: printAt (precedence op + 1) right :=
        ⟨_, rfl⟩
  have loose : ∀ level ≤ precedence op, printAt level e = words := by
    intro level below
    rw [← chain, printAt, if_neg (by omega), wordsEq]
  have tighter : ∀ level, precedence op < level → printAt level e = parenthesized words := by
    intro level above
    rw [← chain, printAt, if_pos above, wordsEq]
  have spineNone : ∀ level, level ≠ precedence op → spine level e = 0 := by
    intro level other
    rw [← chain, spine, if_neg other.symm]
  have long : (parenthesized words).length = words.length + 2 := by simp [parenthesized]
  -- At its own level the expression is a chain, and at the looser ones it is what that chain is.
  have middle : ∀ fuel, words.length ≤ fuel → Continues e (precedence op) fuel := by
    intro fuel enough
    rw [wordsEq, List.length_append, List.length_cons] at enough
    rw [← chain]
    exact continues_binary known bound (one.continues _ bound fuel (by omega))
      (two.back _ (by omega) fuel (by omega))
      (by omega)
  have low : ∀ level ≤ precedence op, ∀ fuel, words.length ≤ fuel → ReadBack e level fuel ∧
      (level < precedence op → Continues e level fuel) := by
    intro level below fuel enough
    have here :=
      readBack_of_continues bound (middle fuel enough) (by rw [loose _ le_rfl]; exact enough)
    refine readBack_descend bound.le here 0 (fun other _ less => ⟨?_, spineNone other (by omega)⟩)
      (fun other _ less => ?_) level (Nat.zero_le _) below
    · rw [loose other less.le, loose (other + 1) less]
    · rw [loose other less]
      exact enough
  -- In parentheses it is read from the loosest level on.
  have tight : ∀ fuel, words.length + 2 ≤ fuel → Tight e fuel := by
    intro fuel enough unary more rest _
    obtain ⟨inner, rfl⟩ : ∃ inner, fuel = inner + 1 := ⟨fuel - 1, by omega⟩
    obtain ⟨unary, rfl⟩ : ∃ less, unary = less + 1 := ⟨unary - 1, by omega⟩
    rw [tighter 9 bound]
    have reads := (low 0 (Nat.zero_le _) inner (by omega)).1 (.symbol .rParen :: rest)
      (stops_of_mark (by simp [Word.symbol]) 0)
    rw [loose 0 (Nat.zero_le _)] at reads
    refine goes_primary (by simp [parenthesized, Word.symbol])
      (goes_parenthesized (unary + 1) reads ?_)
    exact fun e' same => ⟨e', rfl, same, rfl⟩
  have high : ∀ level, precedence op < level → level ≤ 9 →
      ∀ fuel, words.length + 2 ≤ fuel → ReadBack e level fuel ∧
      (level < 9 → Continues e level fuel) := by
    intro level above below fuel enough
    have nine : (printAt 9 e).length ≤ fuel := by rw [tighter 9 bound, long]; exact enough
    refine readBack_descend le_rfl (back_of_tight (tight fuel enough) nine) (precedence op + 1)
      (fun other reach _ => ⟨?_, spineNone other (by omega)⟩)
        (fun other reach _ => ?_) level above below
    · rw [tighter other reach, tighter (other + 1) (by omega)]
    · rw [tighter other reach, long]
      exact enough
  refine ⟨fun fuel enough => ?_, fun level below fuel enough => ?_,
    fun level below fuel enough => ?_⟩
  · rw [tighter 9 bound, long] at enough
    exact tight fuel enough
  · obtain ⟨under⟩ | above := em (level ≤ precedence op)
    · rw [loose level ‹_›] at enough
      exact (low level ‹_› fuel enough).1
    · rw [tighter level (by omega), long] at enough
      exact (high level (by omega) below fuel enough).1
  · rcases lt_trichotomy level (precedence op) with under | same | above
    · rw [loose level under.le] at enough
      exact (low level under.le fuel enough).2 under
    · rw [loose level same.le] at enough
      exact same ▸ middle fuel enough
    · rw [tighter level above, long] at enough
      exact (high level above below.le fuel enough).2 below

theorem levels_of_printable (e : Expression) (printable : Printable e) : Levels e := by
  induction e using Expression.induction (Q := fun args => AllPrintable args →
    ∀ arg ∈ args, Levels arg) with
  | literal value line column =>
    refine levels_of_tight (fun _ => rfl) (fun _ => rfl) fun fuel _ unary more rest _ => ?_
    obtain ⟨unary, rfl⟩ : ∃ less, unary = less + 1 := ⟨unary - 1, by omega⟩
    refine goes_primary (by simp [printAt, Word.number]) (goes_literal value (unary + 1) ?_)
    exact fun line column => ⟨_, rfl, rfl, rfl⟩
  | columnRef name line column =>
    refine levels_of_tight (fun _ => rfl) (fun _ => rfl) fun fuel _ unary more rest stops => ?_
    obtain ⟨unary, rfl⟩ : ∃ less, unary = less + 1 := ⟨unary - 1, by omega⟩
    have named := printable.2
    refine goes_primary ?_ (goes_column printable (unary + 1) stops.1 ?_)
    · intro sign
      change Lexer.lookupKeyword name ∈ _ at sign
      generalize Lexer.lookupKeyword name = type at named sign
      revert type
      decide
    · exact fun line column => ⟨_, rfl, rfl, rfl⟩
  | binaryOp op left right line column one two =>
    exact levels_binary printable.1 (one printable.2.1) (two printable.2.2)
  | unaryOp op operand line column ih =>
    refine levels_of_tight (fun _ => rfl) (fun _ => rfl) fun fuel enough unary more rest stops => ?_
    have whole : (printAt 9 (.unaryOp op operand line column)).length =
        (printAt 9 operand).length + 1 := rfl
    rw [whole] at enough more
    obtain ⟨unary, rfl⟩ : ∃ less, unary = less + 1 := ⟨unary - 1, by omega⟩
    have reads := (ih printable.2).tight fuel (by omega) unary (by omega) rest stops
    exact goes_sign printable.1 reads fun e' line column same =>
      ⟨_, rfl, by rw [shape, shape, same], rfl⟩
  | functionCall name args line column ih =>
    refine levels_of_tight (fun _ => rfl) (fun _ => rfl) fun fuel enough unary more rest stops => ?_
    have words : printAt 9 (.functionCall name args line column) ++ rest =
        .name name :: .symbol .lParen :: (printArguments args ++ .symbol .rParen :: rest) := by
      simp [printAt]
    have whole : (printAt 9 (.functionCall name args line column)).length =
        (printArguments args).length + 3 := by
      simp [printAt]
    rw [whole] at enough more
    obtain ⟨inner, rfl⟩ : ∃ inner, fuel = inner + 1 := ⟨fuel - 1, by omega⟩
    obtain ⟨unary, rfl⟩ : ∃ less, unary = less + 1 := ⟨unary - 1, by omega⟩
    have reads : ∀ item ∈ args, ReadsArgument (parseExpression (inner + 1)) item := by
      intro item listed following mark
      have size := length_printArguments listed
      exact (ih printable.2 item listed).back 0 (Nat.zero_le _) inner
        (by omega) following (stops_of_mark mark 0)
    have count := length_le_printArguments args
    have named := printable.1.2
    rw [words]
    refine goes_primary ?_ (goes_call printable.1 printable.2 reads (by omega) ?_)
    · intro sign
      change Lexer.lookupKeyword name ∈ _ at sign
      generalize Lexer.lookupKeyword name = type at named sign
      revert type
      decide
    · exact fun args' line column same => ⟨_, rfl, by rw [shape, shape, same], rfl⟩
  | nil =>
    rename_i arg listed
    exact absurd listed List.not_mem_nil
  | cons arg rest one two =>
    rename_i all item listed
    rcases List.mem_cons.mp listed with rfl | later
    · exact one all.1
    · exact two all.2 item later

theorem spelled_printAt (printable : Printable e) (level : Nat) :
    ∀ word ∈ printAt level e, Spelled word := by
  have further : ∀ args : List Expression, (∀ arg ∈ args, ∀ word ∈ printAt 0 arg, Spelled word) →
      ∀ word ∈ printFurther args, Spelled word := by
    intro args each
    induction args with
    | nil => simp [printFurther]
    | cons arg rest ih =>
      have behind := ih fun other listed => each other (List.mem_cons_of_mem _ listed)
      simp only [printFurther, List.mem_cons, List.mem_append]
      rintro word (rfl | front | later)
      · exact .symbol (by decide)
      · exact each arg List.mem_cons_self word front
      · exact behind word later
  induction e using Expression.induction
    (Q := fun args => AllPrintable args →
      ∀ arg ∈ args, ∀ word ∈ printAt 0 arg, Spelled word) generalizing level with
  | literal value line column =>
    intro word listed
    rw [List.mem_singleton.mp listed]
    exact .number value
  | columnRef name line column =>
    intro word listed
    rw [List.mem_singleton.mp listed]
    exact .name printable.1
  | binaryOp op left right line column one two =>
    have operator : Spelled (operatorWord op) := by
      have known := printable.1
      cases op <;> first
        | exact .symbol (by decide)
        | exact .name (nameText_word (by decide))
        | cases known
    have whole : ∀ word ∈
        printAt (precedence op) left ++ operatorWord op :: printAt (precedence op + 1) right,
        Spelled word := by
      simp only [List.mem_append, List.mem_cons]
      rintro word (front | rfl | behind)
      · exact one printable.2.1 _ word front
      · exact operator
      · exact two printable.2.2 _ word behind
    intro word listed
    rw [printAt] at listed
    split at listed
    · simp only [parenthesized, List.cons_append, List.mem_cons, List.mem_append,
        List.not_mem_nil, or_false] at listed
      rcases listed with rfl | (front | rfl | behind) | rfl
      · exact .symbol (by decide)
      · exact whole word (by simp [front])
      · exact operator
      · exact whole word (by simp [behind])
      · exact .symbol (by decide)
    · exact whole word listed
  | unaryOp op operand line column ih =>
    have known := printable.1
    intro word listed
    rcases List.mem_cons.mp listed with rfl | behind
    · cases op <;> first | exact .symbol (by decide) | cases known
    · exact ih printable.2 9 word behind
  | functionCall name args line column ih =>
    have each := ih printable.2
    have all : ∀ word ∈ printArguments args, Spelled word := by
      cases args with
      | nil => simp [printArguments]
      | cons arg rest =>
        simp only [printArguments, List.mem_append]
        rintro word (front | later)
        · exact each arg List.mem_cons_self word front
        · exact further rest
            (fun other listed => each other (List.mem_cons_of_mem _ listed)) word later
    intro word listed
    simp only [printAt, List.mem_cons, List.mem_append, List.not_mem_nil, or_false] at listed
    rcases listed with rfl | rfl | inside | rfl
    · exact .name printable.1.1
    · exact .symbol (by decide)
    · exact all word inside
    · exact .symbol (by decide)
  | nil =>
    rename_i arg listed word found
    exact absurd listed List.not_mem_nil
  | cons arg rest one two =>
    rename_i all item listed word found
    rcases List.mem_cons.mp listed with rfl | later
    · exact one all.1 0 word found
    · exact two all.2 item later word found

end Expressions

/-- A query for the rows of a table that the expression selects. -/
def filterWords (table : Bytes) (e : Expression) : List Word :=
  .name (nameBytes "FROM") :: .name table :: .name (nameBytes "WHERE") :: printAt 0 e

/-- The query as the parser makes it, with the expression it read and the
position of the first token. -/
def filterQuery (table : Bytes) (e : Expression) (line column : Nat) : QueryStmt :=
  ⟨[], table, some e, [], [], none, [], [], 0, line, column⟩

theorem goes_filter {table : Bytes} (named : Lexer.lookupKeyword table = .identifier)
    {e : Expression}
    (printable : Printable e) {fuel : Nat} (enough : (printAt 0 e).length + 3 ≤ fuel) :
    Goes (filterWords table e) (parseQuery fuel) fun outcome _ =>
      ∃ e' line column, shape e' = shape e ∧ outcome = .ok (filterQuery table e' line column) := by
  obtain ⟨fuel, rfl⟩ : ∃ less, fuel = less + 3 := ⟨fuel - 3, by omega⟩
  have reads := (levels_of_printable e printable).back 0 (Nat.zero_le _) (fuel + 1) (by omega) []
    (stops_of_mark (by decide) 0)
  rw [List.append_nil] at reads
  unfold parseQuery filterWords
  have other : Lexer.lookupKeyword (nameBytes "FROM") ≠ .select := by decide
  have isName : (Word.name table).type ∈ nameTypes := by
    change Lexer.lookupKeyword table ∈ nameTypes
    rw [named]
    decide
  refine goes_current fun first _ => goes_refuse other (goes_accept rfl ?_)
  refine goes_expect named fun name shows => goes_failed ?_
  rw [show name.text = table from shows.text isName]
  refine Goes.bind (m := fun query left =>
    ∃ e', shape e' = shape e ∧ query = filterQuery table e' first.line first.column ∧
      left = []) ?_ ?_
  · rw [parseClauses]
    refine goes_current fun token shows => goes_failed ?_
    rw [show token.type = .where_ from shows.type, if_neg (by decide)]
    refine Goes.bind (m := fun query left =>
      ∃ e', shape e' = shape e ∧ query = filterQuery table e' first.line first.column ∧
        left = []) ?_ ?_
    · refine goes_advance fun _ _ => Goes.bind reads ?_
      rintro found left ⟨e', rfl, same, rfl⟩
      exact Goes.pure ⟨e', same, rfl, rfl⟩
    · rintro query left ⟨e', same, rfl, rfl⟩
      rw [parseClauses]
      refine goes_current fun token shows => goes_failed ?_
      rw [show token.type = .eof from shows.type, if_pos (.inl rfl)]
      exact Goes.pure ⟨e', same, rfl, rfl⟩
  · rintro query left ⟨e', same, rfl, rfl⟩
    intro parser stands
    refine ⟨.ok (filterQuery table e' first.line first.column), parser, [], ?_,
      stands, e', _, _, same, rfl⟩
    unfold finish
    rw [stands.clean]
    rfl

theorem spelled_filterWords {table : Bytes} (letters : NameText table) {e : Expression}
    (printable : Printable e) :
    ∀ word ∈ filterWords table e, Spelled word := by
  simp only [filterWords, List.mem_cons]
  rintro word (rfl | rfl | rfl | inside)
  · exact .name (nameText_word (by decide))
  · exact .name letters
  · exact .name (nameText_word (by decide))
  · exact spelled_printAt printable 0 word inside

theorem stands_filterWords {table : Bytes} (letters : NameText table) {e : Expression}
    (printable : Printable e) :
    Stands (ofText (Lexer.written (filterWords table e))) (filterWords table e) := by
  have some : Lexer.written (filterWords table e) ≠ [] := by
    simp [Lexer.written, spaced, filterWords, Word.name, nameBytes]
  exact ⟨rfl, Lexer.reads_written (spelled_filterWords letters printable) some⟩

theorem parse_of_goes {words : List Word} {text : Bytes} {fuel : Nat}
    {post : Except Stop QueryStmt → List Word → Prop}
    (goes : Goes words (parseQuery fuel) post) (stands : Stands (ofText text) words) :
    ∃ outcome rest, parse fuel text = some outcome ∧ post outcome rest := by
  obtain ⟨outcome, after, rest, run, -, holds⟩ := goes _ stands
  refine ⟨outcome, rest, ?_, holds⟩
  unfold parse
  rw [run]

/-- Parsing inverts printing. An expression that is written behind WHERE with spaces between its
words, and with parentheses only where an operator is looser than its place, is read back as it was,
up to positions. -/
theorem parse_where {table : Bytes} (letters : NameText table)
    (named : Lexer.lookupKeyword table = .identifier)
    {e : Expression} (printable : Printable e) {fuel : Nat}
    (enough : (printAt 0 e).length + 3 ≤ fuel) :
    ∃ query filter, parse fuel (Lexer.written (filterWords table e)) = some (.ok query) ∧
      query.whereExpr = some filter ∧ shape filter = shape e := by
  obtain ⟨outcome, rest, parsed, e', line, column, same, rfl⟩ :=
    parse_of_goes (goes_filter named printable enough) (stands_filterWords letters printable)
  exact ⟨_, e', parsed, rfl, same⟩

/-- The operand on the right has the parentheses of which the one on the left has no need. -/
def differences : Expression :=
  .binaryOp .minus (.binaryOp .minus (.columnRef (nameBytes "sequence") 0 0) (.literal 1 0 0) 0 0)
    (.binaryOp .minus (.literal 4 0 0) (.unaryOp .bang (.literal 2 0 0) 0 0) 0 0) 0 0

theorem differences_written : Lexer.written (filterWords (nameBytes "events") differences) =
    nameBytes "FROM events WHERE sequence - 1 - ( 4 - ! 2 )" := by
  simp [Lexer.written, filterWords, differences, printAt, spaced, precedence, Word.name,
    Word.symbol, Word.number, Word.numeral, operatorWord, spelled, nameBytes, tokenTypeName,
    parenthesized, code]

theorem differences_printable : Printable differences := by
  have isName : IsName (nameBytes "sequence") := isName_column .sequence
  simp [differences, Printable, isBinaryOperator, isUnaryOperator, isName]

theorem parse_where_differences : ∃ query filter,
    parse 40 (nameBytes "FROM events WHERE sequence - 1 - ( 4 - ! 2 )") = some (.ok query) ∧
      query.whereExpr = some filter ∧ shape filter = shape differences := by
  rw [← differences_written]
  exact @parse_where (nameBytes "events")
    (nameText_word (by decide)) lookupKeyword_table differences
    differences_printable 40 (by decide)

/-- The query is that filter on that table, and nothing else. -/
theorem parse_filterWords {table : Bytes} (letters : NameText table)
    (named : Lexer.lookupKeyword table = .identifier)
    {e : Expression} (printable : Printable e) {fuel : Nat}
    (enough : (printAt 0 e).length + 3 ≤ fuel) :
    ∃ e' line column, shape e' = shape e ∧
      parse fuel (Lexer.written (filterWords table e)) =
        some (.ok (filterQuery table e' line column)) := by
  obtain ⟨outcome, rest, parsed, e', line, column, same, rfl⟩ :=
    parse_of_goes (goes_filter named printable enough) (stands_filterWords letters printable)
  exact ⟨e', line, column, same, parsed⟩

def marginFilter : Expression :=
  .binaryOp .or
    (.binaryOp .greater (.binaryOp .star
      (.binaryOp .minus (.columnRef (nameBytes "price_ticks") 0 0) (.literal 5 0 0) 0 0)
      (.unaryOp .minus (.literal 2 0 0) 0 0) 0 0) (.literal 90 0 0) 0 0)
    (.functionCall (nameBytes "near") [.columnRef (nameBytes "side") 0 0, .literal 0 0 0] 0 0) 0 0

theorem marginFilter_written : Lexer.written (filterWords (nameBytes "events") marginFilter) =
    nameBytes "FROM events WHERE ( price_ticks - 5 ) * - 2 > 90 OR near ( side , 0 )" := by
  simp [Lexer.written, filterWords, marginFilter, printAt, spaced, precedence, Word.name,
    Word.symbol, Word.number, Word.numeral, operatorWord, spelled, nameBytes, tokenTypeName,
    printArguments, printFurther, parenthesized, code]

theorem marginFilter_printable : Printable marginFilter := by
  have price : IsName (nameBytes "price_ticks") := isName_column .priceTicks
  have side : IsName (nameBytes "side") := isName_column .side
  have call : IsName (nameBytes "near") := ⟨nameText_word (by decide), by decide⟩
  simp [marginFilter, Printable, AllPrintable, isBinaryOperator, isUnaryOperator, price, side, call]

theorem parse_filterWords_margin : ∃ e' line column, shape e' = shape marginFilter ∧
    parse 40 (nameBytes "FROM events WHERE ( price_ticks - 5 ) * - 2 > 90 OR near ( side , 0 )") =
      some (.ok (filterQuery (nameBytes "events") e' line column)) := by
  rw [← marginFilter_written]
  exact @parse_filterWords (nameBytes "events")
    (nameText_word (by decide)) lookupKeyword_table marginFilter
    marginFilter_printable 40 (by decide)

end Parser

end VectorTick.Query
