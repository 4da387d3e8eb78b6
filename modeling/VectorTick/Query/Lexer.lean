import VectorTick.Query.Ast

/-! The lexer: a position in the text, with its line and column, and one token looked at ahead.

The classes of characters are those of the C locale; a byte from 128 on is in none of them.
-/

set_option autoImplicit false

namespace VectorTick.Query

open Foundation Vts1

def code (c : Char) : UInt8 := UInt8.ofNat c.toNat

def isDigit (c : UInt8) : Bool := code '0' ≤ c ∧ c ≤ code '9'

def isAlpha (c : UInt8) : Bool := code 'A' ≤ c ∧ c ≤ code 'Z' ∨ code 'a' ≤ c ∧ c ≤ code 'z'

def isAlnum (c : UInt8) : Bool := isAlpha c || isDigit c

def isSpace (c : UInt8) : Bool := c = 32 ∨ 9 ≤ c ∧ c ≤ 13

structure Token where
  type : TokenType
  text : Bytes
  intValue : UInt64
  line : Nat
  column : Nat
  deriving DecidableEq, Repr

/-- A token that was not read yet. -/
def Token.default : Token := ⟨.eof, [], 0, 0, 0⟩

structure Lexer where
  input : Bytes
  pos : Nat := 0
  line : Nat := 1
  column : Nat := 1
  hasError : Bool := false
  errorMsg : Bytes := []
  peekedToken : Token := Token.default
  hasPeeked : Bool := false
  deriving DecidableEq, Repr

namespace Lexer

def atEnd (lexer : Lexer) : Bool := lexer.input.length ≤ lexer.pos

def current (lexer : Lexer) : UInt8 := lexer.input.getD lexer.pos 0

def peek (lexer : Lexer) : UInt8 := lexer.input.getD (lexer.pos + 1) 0

/-- The number of characters ahead. -/
def remaining (lexer : Lexer) : Nat := lexer.input.length - lexer.pos

def advance (lexer : Lexer) : Lexer :=
  if lexer.current = code '\n' then
    { lexer with pos := lexer.pos + 1, line := lexer.line + 1, column := 1 }
  else { lexer with pos := lexer.pos + 1, column := lexer.column + 1 }

/-- The loops that take characters of one class. With as much fuel as characters are ahead they end
where the text ends or the class does. -/
def advanceWhile (keep : UInt8 → Bool) : Nat → Lexer → Lexer
  | 0, lexer => lexer
  | fuel + 1, lexer =>
    if !lexer.atEnd && keep lexer.current then advanceWhile keep fuel lexer.advance else lexer

def skipLineComment (lexer : Lexer) : Lexer := lexer.advanceWhile (· ≠ code '\n') lexer.remaining

def atComment (lexer : Lexer) : Bool := lexer.current = code '/' && lexer.peek = code '/'

def skipWhitespaceLoop : Nat → Lexer → Lexer
  | 0, lexer => lexer
  | fuel + 1, lexer =>
    if lexer.atEnd then lexer
    else if isSpace lexer.current then skipWhitespaceLoop fuel lexer.advance
    else if lexer.atComment then skipWhitespaceLoop fuel lexer.skipLineComment
    else lexer

def skipWhitespace (lexer : Lexer) : Lexer := skipWhitespaceLoop lexer.remaining lexer

/-- `substr`, which throws when it starts behind the end. Nothing here may throw. -/
def substr (text : Bytes) (start count : Nat) : Except Stop Bytes :=
  if text.length < start then .error .terminate else .ok (slice text start count)

/-- The text is the last character taken. Before the first one the start wraps
around to the largest number. -/
def makeToken (lexer : Lexer) (type : TokenType) : Except Stop (Token × Lexer) := do
  let text ← if lexer.pos = 0 then .error .terminate else substr lexer.input (lexer.pos - 1) 1
  return (⟨type, text, 0, lexer.line, lexer.column - 1⟩, lexer)

def errorToken (lexer : Lexer) (msg : Bytes) : Token × Lexer :=
  (⟨.error, msg, 0, lexer.line, lexer.column⟩, { lexer with hasError := true, errorMsg := msg })

/-- The value of the digits behind those that gave `value`. -/
def parseInteger : Bytes → UInt64 → Option UInt64
  | [], value => some value
  | c :: rest, value =>
    let digit := (c - code '0').toUInt64
    if value > (0xFFFFFFFFFFFFFFFF - digit) / 10 then
      none else parseInteger rest (value * 10 + digit)

def readNumber (lexer : Lexer) : Except Stop (Token × Lexer) := do
  let after := lexer.advanceWhile isDigit lexer.remaining
  let text ← substr after.input lexer.pos (after.pos - lexer.pos)
  match parseInteger text 0 with
  | none => return after.errorToken (nameBytes "Integer literal too large")
  | some value => return (⟨.integerLiteral, text, value, lexer.line, lexer.column⟩, after)

def keywords : List (String × TokenType) :=
  [ ("SELECT", .select), ("FROM", .from_), ("WHERE", .where_), ("LET", .let_),
    ("GROUP", .group), ("BY", .by_),
    ("AGG", .agg), ("ORDER", .order), ("LIMIT", .limit), ("AND", .and), ("OR", .or),
      ("NOT", .not), ("TRUE", .true_),
    ("FALSE", .false_), ("TUMBLE", .tumble), ("AS", .as_), ("ASC", .asc),
      ("DESC", .desc), ("COUNT", .count),
    ("SUM", .sum), ("MIN", .min), ("MAX", .max), ("AVG", .avg) ]

def lookupKeyword (ident : Bytes) : TokenType :=
  match keywords.find? fun keyword => iequals ident (nameBytes keyword.1) with
  | none => .identifier
  | some (_, type) => type

def readIdentifier (lexer : Lexer) : Except Stop (Token × Lexer) := do
  let after := lexer.advanceWhile (fun c => isAlnum c || c = code '_') lexer.remaining
  let text ← substr after.input lexer.pos (after.pos - lexer.pos)
  let type := lookupKeyword text
  return (⟨type, text, if type = .true_ then 1 else 0, lexer.line, lexer.column⟩, after)

def oneToken (c : UInt8) : Option TokenType :=
  if c = code '+' then some .plus
  else if c = code '-' then some .minus
  else if c = code '*' then some .star
  else if c = code '/' then some .slash
  else if c = code '%' then some .percent
  else if c = code '(' then some .lParen
  else if c = code ')' then some .rParen
  else if c = code ',' then some .comma
  else if c = code ';' then some .semicolon
  else if c = code '^' then some .caret
  else none

/-- The character that may follow, the token of the two and the token of the first alone. -/
def twoTokens (c : UInt8) : Option (UInt8 × TokenType × TokenType) :=
  if c = code '=' then some (code '=', .equal, .equal)
  else if c = code '!' then some (code '=', .notEqual, .bang)
  else if c = code '<' then some (code '=', .lessEqual, .less)
  else if c = code '>' then some (code '=', .greaterEqual, .greater)
  else if c = code '&' then some (code '&', .ampAmp, .amp)
  else if c = code '|' then some (code '|', .pipePipe, .pipe)
  else none

def readOperator (lexer : Lexer) : Except Stop (Token × Lexer) :=
  let after := lexer.advance
  match oneToken lexer.current with
  | some type => after.makeToken type
  | none =>
    match twoTokens lexer.current with
    | some (second, both, alone) =>
      if after.current = second then after.advance.makeToken both else after.makeToken alone
    | none => .ok (after.errorToken (nameBytes "Unexpected character"))

/-- The next token of the text. A comment here would be skipped and the token behind it taken; it
was skipped with the white space before. -/
def scanToken : Nat → Lexer → Except Stop (Token × Lexer)
  | 0, lexer => lexer.makeToken .eof
  | fuel + 1, lexer =>
    let lexer := lexer.skipWhitespace
    if lexer.atEnd then lexer.makeToken .eof
    else if lexer.atComment then scanToken fuel lexer.skipLineComment
    else if isDigit lexer.current then lexer.readNumber
    else if isAlpha lexer.current || lexer.current = code '_' then lexer.readIdentifier
    else lexer.readOperator

def nextToken (lexer : Lexer) : Except Stop (Token × Lexer) :=
  if lexer.hasPeeked then .ok (lexer.peekedToken, { lexer with hasPeeked := false })
  else scanToken (lexer.remaining + 1) lexer

def peekToken (lexer : Lexer) : Except Stop (Token × Lexer) :=
  if lexer.hasPeeked then .ok (lexer.peekedToken, lexer)
  else do
    let (token, lexer) ← lexer.nextToken
    return (token, { lexer with peekedToken := token, hasPeeked := true })

end Lexer

end VectorTick.Query
