import VectorTick.Query.Lexer
import Mathlib.Data.List.TakeWhile

/-! The tokens of a text, one after the other, whether or not they are
looked at before they are taken.

A token looked at ahead is kept beside the position, and nothing the lexer does
depends on it. So the tokens taken and the one kept are those the lexer finds when it
is never asked to look ahead. -/

set_option autoImplicit false

namespace VectorTick.Query

open Foundation Vts1

namespace Lexer

/-- The same position, with another token kept or none. -/
def withPeek (lexer : Lexer) (token : Token) (kept : Bool) : Lexer :=
  { lexer with peekedToken := token, hasPeeked := kept }

/-- The position alone. -/
def forget (lexer : Lexer) : Lexer := lexer.withPeek Token.default false

/-- A step of the lexer that neither reads nor writes the token kept. -/
def Blind (step : Lexer → Except Stop (Token × Lexer)) : Prop :=
  ∀ lexer token kept, step (lexer.withPeek token kept) =
    (step lexer).map fun found => (found.1, found.2.withPeek token kept)

section Blind

variable (lexer : Lexer) (token : Token) (kept : Bool)

theorem advance_withPeek : (lexer.withPeek token kept).advance =
    lexer.advance.withPeek token kept := by
  unfold advance
  by_cases newline : lexer.current = code '\n'
  · rw [if_pos newline, if_pos (by exact newline)]
    rfl
  · rw [if_neg newline, if_neg (by exact newline)]
    rfl

theorem advanceWhile_withPeek (keep : UInt8 → Bool) (fuel : Nat) :
    (lexer.withPeek token kept).advanceWhile keep fuel =
      (lexer.advanceWhile keep fuel).withPeek token kept := by
  induction fuel generalizing lexer with
  | zero => rfl
  | succ fuel ih =>
    unfold advanceWhile
    rw [advance_withPeek, ih]
    by_cases goesOn : (!lexer.atEnd && keep lexer.current) = true
    · rw [if_pos goesOn, if_pos (by exact goesOn)]
    · rw [if_neg goesOn, if_neg (by exact goesOn)]

theorem skipLineComment_withPeek :
    (lexer.withPeek token kept).skipLineComment = lexer.skipLineComment.withPeek token kept :=
  advanceWhile_withPeek lexer token kept _ _

theorem skipWhitespaceLoop_withPeek (fuel : Nat) :
    skipWhitespaceLoop fuel (lexer.withPeek token kept) =
      (skipWhitespaceLoop fuel lexer).withPeek token kept := by
  induction fuel generalizing lexer with
  | zero => rfl
  | succ fuel ih =>
    unfold skipWhitespaceLoop
    rw [advance_withPeek, skipLineComment_withPeek, ih, ih]
    by_cases done : lexer.atEnd = true
    · rw [if_pos done, if_pos (by exact done)]
    rw [if_neg done, if_neg (by exact done)]
    by_cases space : isSpace lexer.current = true
    · rw [if_pos space, if_pos (by exact space)]
    rw [if_neg space, if_neg (by exact space)]
    by_cases comment : lexer.atComment = true
    · rw [if_pos comment, if_pos (by exact comment)]
    · rw [if_neg comment, if_neg (by exact comment)]

end Blind

theorem makeToken_eq (lexer : Lexer) (type : TokenType) : lexer.makeToken type =
    if lexer.pos = 0 ∨ lexer.input.length < lexer.pos - 1 then .error .terminate
    else .ok (⟨type, slice lexer.input (lexer.pos - 1) 1, 0, lexer.line,
      lexer.column - 1⟩, lexer) := by
  unfold makeToken substr
  by_cases start : lexer.pos = 0
  · rw [if_pos start, if_pos (.inl start)]
    rfl
  by_cases behind : lexer.input.length < lexer.pos - 1
  · rw [if_neg start, if_pos behind, if_pos (.inr behind)]
    rfl
  · rw [if_neg start, if_neg behind, if_neg (not_or.mpr ⟨start, behind⟩)]
    rfl

theorem makeToken_blind (type : TokenType) : Blind (makeToken · type) := by
  intro lexer token kept
  dsimp only
  rw [makeToken_eq, makeToken_eq]
  by_cases throws : lexer.pos = 0 ∨ lexer.input.length < lexer.pos - 1
  · rw [if_pos throws, if_pos (by exact throws)]
    rfl
  · rw [if_neg throws, if_neg (by exact throws)]
    rfl

/-- What a number comes to, once its end is found. -/
def numberToken (lexer after : Lexer) : Except Stop (Token × Lexer) :=
  if after.input.length < lexer.pos then .error .terminate
  else
    let text := slice after.input lexer.pos (after.pos - lexer.pos)
    match parseInteger text 0 with
    | none => .ok (after.errorToken (nameBytes "Integer literal too large"))
    | some value => .ok (⟨.integerLiteral, text, value, lexer.line, lexer.column⟩, after)

theorem readNumber_eq (lexer : Lexer) :
    lexer.readNumber = numberToken lexer (lexer.advanceWhile isDigit lexer.remaining) := by
  unfold readNumber numberToken substr
  dsimp only
  generalize lexer.advanceWhile isDigit lexer.remaining = after
  by_cases throws : after.input.length < lexer.pos
  · rw [if_pos throws, if_pos throws]
    rfl
  · rw [if_neg throws, if_neg throws]
    change (match parseInteger _ 0 with
      | none => _
      | some value => _) = _
    cases parseInteger (slice after.input lexer.pos (after.pos - lexer.pos)) 0 <;> rfl

theorem numberToken_withPeek (lexer after : Lexer) (token : Token) (kept : Bool) :
    numberToken (lexer.withPeek token kept) (after.withPeek token kept) =
      (numberToken lexer after).map fun found => (found.1, found.2.withPeek token kept) := by
  have text : slice (after.withPeek token kept).input (lexer.withPeek token kept).pos
      ((after.withPeek token kept).pos - (lexer.withPeek token kept).pos) =
      slice after.input lexer.pos (after.pos - lexer.pos) := rfl
  unfold numberToken
  by_cases throws : after.input.length < lexer.pos
  · rw [if_pos throws, if_pos (by exact throws)]
    rfl
  · rw [if_neg throws, if_neg (by exact throws)]
    dsimp only
    rw [text]
    cases parseInteger (slice after.input lexer.pos (after.pos - lexer.pos)) 0 <;> rfl

theorem readNumber_blind : Blind readNumber := by
  intro lexer token kept
  have ahead : (lexer.withPeek token kept).remaining = lexer.remaining := rfl
  rw [readNumber_eq, readNumber_eq, ahead, advanceWhile_withPeek, numberToken_withPeek]

/-- What a name comes to, once its end is found. -/
def nameToken (lexer after : Lexer) : Except Stop (Token × Lexer) :=
  if after.input.length < lexer.pos then .error .terminate
  else
    let text := slice after.input lexer.pos (after.pos - lexer.pos)
    let type := lookupKeyword text
    .ok (⟨type, text, if type = .true_ then 1 else 0, lexer.line, lexer.column⟩, after)

def isNameRest (c : UInt8) : Bool := isAlnum c || c = code '_'

theorem readIdentifier_eq (lexer : Lexer) :
    lexer.readIdentifier = nameToken lexer (lexer.advanceWhile isNameRest lexer.remaining) := by
  unfold readIdentifier nameToken substr
  change (if (lexer.advanceWhile isNameRest lexer.remaining).input.length <
    lexer.pos then _ else _) >>= _ = _
  by_cases throws : (lexer.advanceWhile isNameRest lexer.remaining).input.length < lexer.pos
  · rw [if_pos throws, if_pos throws]
    rfl
  · rw [if_neg throws, if_neg throws]
    rfl

theorem readIdentifier_blind : Blind readIdentifier := by
  intro lexer token kept
  have ahead : (lexer.withPeek token kept).remaining = lexer.remaining := rfl
  rw [readIdentifier_eq, readIdentifier_eq, ahead, advanceWhile_withPeek]
  generalize lexer.advanceWhile isNameRest lexer.remaining = after
  unfold nameToken
  by_cases throws : after.input.length < lexer.pos
  · rw [if_pos throws, if_pos (by exact throws)]
    rfl
  · rw [if_neg throws, if_neg (by exact throws)]
    rfl

theorem readOperator_blind : Blind readOperator := by
  intro lexer token kept
  have here : (lexer.withPeek token kept).current = lexer.current := rfl
  unfold readOperator
  rw [advance_withPeek, here]
  cases oneToken lexer.current with
  | some type => exact makeToken_blind type lexer.advance token kept
  | none =>
    dsimp only
    cases twoTokens lexer.current with
    | none => rfl
    | some found =>
      obtain ⟨second, both, alone⟩ := found
      dsimp only
      rw [advance_withPeek]
      by_cases follows : lexer.advance.current = second
      · rw [if_pos follows, if_pos (by exact follows)]
        exact makeToken_blind both lexer.advance.advance token kept
      · rw [if_neg follows, if_neg (by exact follows)]
        exact makeToken_blind alone lexer.advance token kept

theorem scanToken_blind (fuel : Nat) : Blind (scanToken fuel) := by
  induction fuel with
  | zero => exact makeToken_blind .eof
  | succ fuel ih =>
    intro lexer token kept
    have skipped : (lexer.withPeek token kept).skipWhitespace =
        lexer.skipWhitespace.withPeek token kept :=
      skipWhitespaceLoop_withPeek lexer token kept _
    unfold scanToken
    rw [skipped]
    dsimp only
    generalize lexer.skipWhitespace = start
    rw [skipLineComment_withPeek]
    by_cases done : start.atEnd = true
    · rw [if_pos done, if_pos (by exact done)]
      exact makeToken_blind .eof start token kept
    rw [if_neg done, if_neg (by exact done)]
    by_cases comment : start.atComment = true
    · rw [if_pos comment, if_pos (by exact comment)]
      exact ih start.skipLineComment token kept
    rw [if_neg comment, if_neg (by exact comment)]
    by_cases digit : isDigit start.current = true
    · rw [if_pos digit, if_pos (by exact digit)]
      exact readNumber_blind start token kept
    rw [if_neg digit, if_neg (by exact digit)]
    by_cases letter : (isAlpha start.current || decide (start.current = code '_')) = true
    · rw [if_pos letter, if_pos (by exact letter)]
      exact readIdentifier_blind start token kept
    · rw [if_neg letter, if_neg (by exact letter)]
      exact readOperator_blind start token kept

/-- The token kept, as the list of what comes before the position. -/
def pending (lexer : Lexer) : List Token := if lexer.hasPeeked then [lexer.peekedToken] else []

/-- The lexer finds the tokens, one after the other, from one position to the other. -/
inductive Scans : Lexer → List Token → Lexer → Prop where
  | nil (lexer : Lexer) : Scans lexer [] lexer
  | cons {lexer middle after : Lexer} {token : Token} {tokens : List Token}
      (first : lexer.nextToken = .ok (token, middle))
      (rest : Scans middle tokens after) : Scans lexer (token :: tokens) after

theorem Scans.append {lexer middle after : Lexer} {first second : List Token}
    (one : Scans lexer first middle)
    (two : Scans middle second after) : Scans lexer (first ++ second) after := by
  induction one with
  | nil => exact two
  | cons found _ ih => exact .cons found (ih two)

/-- The tokens are taken on the way from one state to the other, whatever is looked at besides. -/
def Takes (lexer : Lexer) (tokens : List Token) (after : Lexer) : Prop :=
  ∃ scanned, Scans lexer.forget scanned after.forget ∧
    lexer.pending ++ scanned = tokens ++ after.pending

theorem Takes.refl (lexer : Lexer) : Takes lexer [] lexer := ⟨[], .nil _, by simp⟩

theorem Takes.trans {lexer middle after : Lexer} {first second : List Token}
    (one : Takes lexer first middle)
    (two : Takes middle second after) : Takes lexer (first ++ second) after := by
  obtain ⟨scanned, path, tokens⟩ := one
  obtain ⟨scanned', path', tokens'⟩ := two
  exact ⟨scanned ++ scanned', path.append path', by
    rw [← List.append_assoc, tokens, List.append_assoc, tokens', List.append_assoc]⟩

theorem nextToken_forget (lexer : Lexer) : lexer.forget.nextToken =
    (scanToken (lexer.remaining + 1) lexer).map fun found => (found.1, found.2.forget) :=
  scanToken_blind (lexer.remaining + 1) lexer Token.default false

theorem scans_one {lexer after : Lexer} {token : Token}
    (found : scanToken (lexer.remaining + 1) lexer = .ok (token, after)) :
    Scans lexer.forget [token] after.forget := by
  refine .cons ?_ (.nil _)
  rw [nextToken_forget, found]
  rfl

theorem peekToken_takes {lexer after : Lexer} {token : Token}
    (found : lexer.peekToken = .ok (token, after)) :
    Takes lexer [] after ∧ after.pending = [token] := by
  unfold peekToken nextToken at found
  by_cases kept : lexer.hasPeeked = true
  · rw [if_pos kept] at found
    cases found
    exact ⟨.refl _, if_pos kept⟩
  · rw [if_neg kept, if_neg kept] at found
    cases scanned : scanToken (lexer.remaining + 1) lexer with
    | error stop =>
      rw [scanned] at found
      cases found
    | ok reached =>
      rw [scanned] at found
      cases found
      have path := scans_one scanned
      exact ⟨⟨[reached.1], path, by rw [pending, if_neg kept]; rfl⟩, rfl⟩

theorem nextToken_takes {lexer after : Lexer} {token : Token}
    (found : lexer.nextToken = .ok (token, after)) :
    Takes lexer [token] after ∧ (lexer.pending ≠ [] → lexer.pending = [token]) := by
  unfold nextToken at found
  by_cases kept : lexer.hasPeeked = true
  · rw [if_pos kept] at found
    cases found
    exact ⟨⟨[], .nil _, by rw [pending, if_pos kept]; rfl⟩, fun _ => if_pos kept⟩
  · rw [if_neg kept] at found
    have none : lexer.pending = [] := if_neg kept
    refine ⟨⟨[token], scans_one found, ?_⟩, fun some => absurd none some⟩
    have still : after.pending = [] := by
      have same := scanToken_blind (lexer.remaining + 1) lexer lexer.peekedToken lexer.hasPeeked
      change scanToken (lexer.remaining + 1) lexer = _ at same
      rw [found] at same
      injection same with same
      have flag := congrArg (fun found : Token × Lexer => found.2.hasPeeked) same
      exact if_neg (fun kept' => kept (flag ▸ kept'))
    rw [none, still]
    rfl

/-- The value of a text of digits, to go on from `start`. -/
def decimalFrom (start : Nat) (text : Bytes) : Nat :=
  text.foldl (fun value c => value * 10 + (c.toNat - 48)) start

def decimal (text : Bytes) : Nat := decimalFrom 0 text

theorem le_decimalFrom (start : Nat) (text : Bytes) : start ≤ decimalFrom start text := by
  induction text generalizing start with
  | nil => exact Nat.le_refl start
  | cons c rest ih =>
    have more := ih (start * 10 + (c.toNat - 48))
    change start ≤ decimalFrom (start * 10 + (c.toNat - 48)) rest
    omega

theorem isDigit_iff (c : UInt8) : isDigit c = true ↔ 48 ≤ c.toNat ∧ c.toNat ≤ 57 := by
  unfold isDigit
  rw [decide_eq_true_iff, UInt8.le_iff_toNat_le, UInt8.le_iff_toNat_le]
  rfl

theorem toNat_digit {c : UInt8} (digit : isDigit c = true) :
    (c - code '0').toUInt64.toNat = c.toNat - 48 := by
  have lower := ((isDigit_iff c).mp digit).1
  rw [UInt8.toNat_toUInt64, UInt8.toNat_sub_of_le]
  · rfl
  · rw [UInt8.le_iff_toNat_le]
    exact lower

/-- Digits are read as the number they are, or not at all if it does not fit. -/
theorem parseInteger_eq {text : Bytes} (digits : ∀ c ∈ text, isDigit c = true) (value : UInt64) :
    parseInteger text value =
      if decimalFrom value.toNat text < 2 ^ 64 then
        some (UInt64.ofNat (decimalFrom value.toNat text)) else none := by
  induction text generalizing value with
  | nil =>
    rw [parseInteger, decimalFrom, List.foldl_nil, if_pos value.toNat_lt, UInt64.ofNat_toNat]
  | cons c rest ih =>
    have digit := toNat_digit (digits c List.mem_cons_self)
    have high := ((isDigit_iff c).mp (digits c List.mem_cons_self)).2
    have step : decimalFrom value.toNat (c :: rest) =
        decimalFrom (value.toNat * 10 + (c.toNat - 48)) rest := rfl
    have limit : ((0xFFFFFFFFFFFFFFFF - (c - code '0').toUInt64) / 10 : UInt64).toNat =
        (2 ^ 64 - 1 - (c.toNat - 48)) / 10 := by
      rw [UInt64.toNat_div, UInt64.toNat_sub_of_le _ _
        (by rw [UInt64.le_iff_toNat_le, digit]; change _ ≤ 2 ^ 64 - 1; omega),
        digit]
      rfl
    rw [parseInteger]
    by_cases over_ : value > (0xFFFFFFFFFFFFFFFF - (c - code '0').toUInt64) / 10
    · have large : ¬ decimalFrom value.toNat (c :: rest) < 2 ^ 64 := by
        have more := le_decimalFrom (value.toNat * 10 + (c.toNat - 48)) rest
        rw [gt_iff_lt, UInt64.lt_iff_toNat_lt, limit] at over_
        rw [step]
        omega
      rw [if_pos over_, if_neg large]
    · rw [gt_iff_lt, UInt64.not_lt, UInt64.le_iff_toNat_le, limit] at over_
      have next : (value * 10 + (c - code '0').toUInt64).toNat =
          value.toNat * 10 + (c.toNat - 48) := by
        have ten : (10 : UInt64).toNat = 10 := rfl
        rw [UInt64.toNat_add, UInt64.toNat_mul, digit, ten,
          Nat.mod_eq_of_lt (a := value.toNat * 10) (by omega), Nat.mod_eq_of_lt (by omega)]
      rw [if_neg (by rw [gt_iff_lt, UInt64.not_lt, UInt64.le_iff_toNat_le, limit]; exact over_),
        ih (fun other listed => digits other (List.mem_cons_of_mem _ listed)), next, step]

/-- The text from the position on. -/
def ahead (lexer : Lexer) : Bytes := lexer.input.drop lexer.pos

theorem length_ahead (lexer : Lexer) : lexer.ahead.length = lexer.remaining := List.length_drop

theorem ahead_eq (lexer : Lexer) (more : lexer.atEnd = false) :
    lexer.ahead = lexer.current :: lexer.advance.ahead := by
  have inside : lexer.pos < lexer.input.length := by
    simpa [atEnd] using more
  have next : lexer.advance.ahead = lexer.input.drop (lexer.pos + 1) := by
    unfold advance
    by_cases newline : lexer.current = code '\n'
    · rw [if_pos newline]
      rfl
    · rw [if_neg newline]
      rfl
  rw [next, current, ahead, List.getD_eq_getElem?_getD, List.getElem?_eq_getElem inside,
    Option.getD_some, List.drop_eq_getElem_cons inside]

theorem advance_input (lexer : Lexer) : lexer.advance.input = lexer.input := by
  unfold advance
  by_cases newline : lexer.current = code '\n'
  · rw [if_pos newline]
  · rw [if_neg newline]

theorem advance_pos (lexer : Lexer) : lexer.advance.pos = lexer.pos + 1 := by
  unfold advance
  by_cases newline : lexer.current = code '\n'
  · rw [if_pos newline]
  · rw [if_neg newline]

theorem atEnd_iff (lexer : Lexer) : lexer.atEnd = true ↔ lexer.ahead = [] := by
  rw [atEnd, decide_eq_true_iff, ahead, List.drop_eq_nil_iff]

theorem advanceWhile_run (keep : UInt8 → Bool) {fuel : Nat} {lexer : Lexer}
    (enough : (lexer.ahead.takeWhile keep).length ≤ fuel) :
    (lexer.advanceWhile keep fuel).input = lexer.input ∧
      (lexer.advanceWhile keep fuel).pos = lexer.pos + (lexer.ahead.takeWhile keep).length := by
  induction fuel generalizing lexer with
  | zero =>
    rw [Nat.le_zero.mp enough]
    exact ⟨rfl, rfl⟩
  | succ fuel ih =>
    unfold advanceWhile
    cases done : lexer.atEnd with
    | true =>
      rw [(atEnd_iff lexer).mp done]
      exact ⟨rfl, rfl⟩
    | false =>
      rw [ahead_eq lexer done] at enough ⊢
      cases kept : keep lexer.current with
      | false =>
        rw [List.takeWhile_cons_of_neg (by rw [kept]; exact Bool.false_ne_true)]
        exact ⟨rfl, rfl⟩
      | true =>
        rw [List.takeWhile_cons_of_pos kept, List.length_cons] at enough ⊢
        obtain ⟨input, pos⟩ := @ih lexer.advance (by omega)
        rw [advance_input] at input
        rw [advance_pos] at pos
        exact ⟨input, pos.trans (by omega)⟩

theorem advanceWhile_text (keep : UInt8 → Bool) (lexer : Lexer) :
    slice (lexer.advanceWhile keep lexer.remaining).input lexer.pos
      ((lexer.advanceWhile keep lexer.remaining).pos - lexer.pos) = lexer.ahead.takeWhile keep := by
  have enough : (lexer.ahead.takeWhile keep).length ≤ lexer.remaining :=
    length_ahead lexer ▸ (List.takeWhile_prefix keep).length_le
  obtain ⟨input, pos⟩ := advanceWhile_run keep enough
  rw [input, pos, Nat.add_sub_cancel_left, slice]
  exact (List.prefix_iff_eq_take.mp (List.takeWhile_prefix keep)).symm

end Lexer

/-- The value a token stands for in an expression. -/
def Token.Denotes (token : Token) (value : UInt64) : Prop :=
  match token.type with
  | .integerLiteral => (∀ c ∈ token.text, isDigit c = true) ∧ value.toNat = Lexer.decimal token.text
  | .true_ => value = 1
  | .false_ => value = 0
  | _ => False

/-- An integer token holds the number its digits spell. -/
def Token.Exact (token : Token) : Prop :=
  token.type = .integerLiteral → token.Denotes token.intValue

namespace Lexer

theorem makeToken_type {lexer after : Lexer} {type : TokenType} {token : Token}
    (found : lexer.makeToken type = .ok (token, after)) : token.type = type := by
  rw [makeToken_eq] at found
  by_cases throws : lexer.pos = 0 ∨ lexer.input.length < lexer.pos - 1
  · rw [if_pos throws] at found
    cases found
  · rw [if_neg throws] at found
    cases found
    rfl

theorem readNumber_exact {lexer after : Lexer} {token : Token}
    (found : lexer.readNumber = .ok (token, after)) :
    token.Exact := by
  have text := advanceWhile_text isDigit lexer
  rw [readNumber_eq] at found
  generalize lexer.advanceWhile isDigit lexer.remaining = end_ at found text
  unfold numberToken at found
  rw [text] at found
  have digits : ∀ c ∈ lexer.ahead.takeWhile isDigit, isDigit c = true :=
    fun c listed => List.mem_takeWhile_imp listed
  by_cases throws : end_.input.length < lexer.pos
  · rw [if_pos throws] at found
    cases found
  · rw [if_neg throws] at found
    dsimp only at found
    rw [parseInteger_eq digits] at found
    by_cases fits : decimalFrom (0 : UInt64).toNat (lexer.ahead.takeWhile isDigit) < 2 ^ 64
    · rw [if_pos fits] at found
      cases found
      intro _
      refine ⟨digits, ?_⟩
      dsimp only
      rw [UInt64.toNat_ofNat', Nat.mod_eq_of_lt fits]
      rfl
    · rw [if_neg fits] at found
      cases found
      intro other
      cases other

theorem lookupKeyword_ne (ident : Bytes) : lookupKeyword ident ≠ .integerLiteral := by
  unfold lookupKeyword
  cases found : keywords.find? fun keyword => iequals ident (nameBytes keyword.1) with
  | none => decide
  | some keyword =>
    have listed := List.mem_of_find?_eq_some found
    have words : ∀ keyword ∈ keywords, keyword.2 ≠ .integerLiteral := by decide
    exact words keyword listed

theorem readIdentifier_exact {lexer after : Lexer} {token : Token}
    (found : lexer.readIdentifier = .ok (token, after)) : token.Exact := by
  rw [readIdentifier_eq] at found
  unfold nameToken at found
  split at found
  · cases found
  · cases found
    exact fun other => absurd other (lookupKeyword_ne _)

theorem readOperator_exact {lexer after : Lexer} {token : Token}
    (found : lexer.readOperator = .ok (token, after)) :
    token.Exact := by
  have one : ∀ c type, oneToken c = some type → type ≠ .integerLiteral := by
    intro c type is
    unfold oneToken at is
    rintro rfl
    repeat' split at is
    all_goals cases is
  have two : ∀ c second both alone, twoTokens c = some (second, both, alone) →
      both ≠ .integerLiteral ∧ alone ≠ .integerLiteral := by
    intro c second both alone is
    unfold twoTokens at is
    repeat' split at is
    all_goals first | (cases is; done) | (cases is; decide)
  unfold readOperator at found
  cases single : oneToken lexer.current with
  | some type =>
    rw [single] at found
    exact fun other => absurd other (makeToken_type found ▸ one _ _ single)
  | none =>
    rw [single] at found
    cases double : twoTokens lexer.current with
    | none =>
      rw [double] at found
      cases found
      intro other
      cases other
    | some triple =>
      obtain ⟨second, both, alone⟩ := triple
      rw [double] at found
      dsimp only at found
      have others := two _ _ _ _ double
      split at found
      · exact fun other => absurd other (makeToken_type found ▸ others.1)
      · exact fun other => absurd other (makeToken_type found ▸ others.2)

theorem scanToken_exact {fuel : Nat} {lexer after : Lexer} {token : Token}
    (found : scanToken fuel lexer = .ok (token, after)) : token.Exact := by
  have eof {lexer : Lexer} (found : lexer.makeToken .eof = .ok (token, after)) : token.Exact := by
    intro other
    rw [makeToken_type found] at other
    cases other
  induction fuel generalizing lexer with
  | zero => exact eof found
  | succ fuel ih =>
    unfold scanToken at found
    dsimp only at found
    split at found
    · exact eof found
    split at found
    · exact ih found
    split at found
    · exact readNumber_exact found
    split at found
    · exact readIdentifier_exact found
    · exact readOperator_exact found

theorem Scans.exact_ {lexer after : Lexer} {tokens : List Token} (scans : Scans lexer tokens after)
    (fresh : lexer.forget = lexer) : ∀ token ∈ tokens, token.Exact := by
  induction scans with
  | nil => exact fun _ listed => absurd listed List.not_mem_nil
  | @cons lexer middle after token tokens first rest ih =>
    rw [← fresh, nextToken_forget] at first
    cases scanned : scanToken (lexer.remaining + 1) lexer with
    | error stop =>
      rw [scanned] at first
      cases first
    | ok found =>
      rw [scanned] at first
      cases first
      intro other listed
      rcases List.mem_cons.mp listed with rfl | later
      · exact scanToken_exact scanned
      · exact ih rfl other later

end Lexer

end VectorTick.Query
