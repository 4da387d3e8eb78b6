import VectorTick.Ir.Builder
import VectorTick.Query.Grammar
import VectorTick.Query.StickyErrors
import VectorTick.Query.TokenStream

/-! What the parser has read when it returns a query.

A step that ends without an error has taken tokens of kinds it knows, and what it makes comes from
them: no expression is missing, and every literal is one of the tokens.
-/

set_option autoImplicit false
set_option synthInstance.maxSize 1024

namespace VectorTick.Query

open Foundation Vts1

/-- Where the step ends without an error it has taken tokens of the kinds allowed, and they, its
value and the state behind it are as described. -/
def Ends {α : Type} (allowed : TokenType → Bool) (parser : Parser) (parse : Parse α)
    (post : List Token → α → Parser → Prop) : Prop :=
  ∀ value after, parse parser = some (.ok (value, after)) → after.hasError = false →
    ∃ tokens, parser.lexer.Takes tokens after.lexer ∧
      (∀ token ∈ tokens, allowed token.type = true) ∧
      post tokens value after

/-- The token that is ahead, once it has been looked at. -/
def Sees (parser : Parser) (token : Token) : Prop := parser.lexer.pending = [token]

section Rules

variable {α β : Type} {allowed : TokenType → Bool} {parser : Parser}
  {post : List Token → β → Parser → Prop}

theorem Ends.pure {value : β} (holds : post [] value parser) :
    Ends allowed parser (Pure.pure value : Parse β) post := by
  intro returned after run _
  cases run
  exact ⟨[], .refl _, fun _ listed => absurd listed List.not_mem_nil, holds⟩

theorem Ends.outOfFuel : Ends allowed parser (Parse.outOfFuel : Parse β) post := by
  intro returned after run
  cases run

theorem Ends.bind {first : Parse α} {next : α → Parse β} {mid : List Token → α → Parser → Prop}
    [∀ value, Sticky (next value)] (one : Ends allowed parser first mid)
    (two : ∀ tokens value reached, mid tokens value reached →
      Ends allowed reached (next value) fun more => post (tokens ++ more)) :
    Ends allowed parser (first >>= next) post := by
  intro returned after run clean
  obtain ⟨value, reached, start, rest⟩ := Sticky.bind_run run
  obtain ⟨tokens, takes, kinds, holds⟩ := one value reached start (Sticky.clean rest clean)
  obtain ⟨more, takes', kinds', holds'⟩ := two tokens value reached holds returned after rest clean
  refine ⟨tokens ++ more, takes.trans takes', fun token listed => ?_, holds'⟩
  rcases List.mem_append.mp listed with before | behind
  · exact kinds token before
  · exact kinds' token behind

theorem Ends.mono {parse : Parse β} {weaker : List Token → β → Parser → Prop}
    {more : TokenType → Bool}
    (one : Ends allowed parser parse post) (kinds : ∀ type, allowed type = true → more type = true)
    (implies : ∀ tokens value after, (∀ token ∈ tokens, allowed token.type = true) →
      post tokens value after →
      weaker tokens value after) : Ends more parser parse weaker := by
  intro value after run clean
  obtain ⟨tokens, takes, known, holds⟩ := one value after run clean
  exact ⟨tokens, takes, fun token listed => kinds _ (known token listed),
    implies tokens value after known holds⟩

end Rules

namespace Parser

section Steps

variable {β : Type} {allowed : TokenType → Bool} {parser : Parser}
  {post : List Token → β → Parser → Prop}

/-- Looking ahead: the token is there for what follows, and it is the one seen before. -/
theorem ends_current {next : Token → Parse β} [∀ token, Sticky (next token)]
    (rest : ∀ token reached, Sees reached token → (∀ seen, Sees parser seen → token = seen) →
      Ends allowed reached (next token) post) :
      Ends allowed parser (currentToken >>= next) post := by
  have looked : Ends allowed parser currentToken fun tokens token after =>
      tokens = [] ∧ Sees after token ∧ ∀ seen, Sees parser seen → token = seen := by
    intro token after run _
    unfold currentToken Parse.lexing at run
    cases found : parser.lexer.peekToken with
    | error stop =>
      rw [found] at run
      cases run
    | ok reached =>
      rw [found] at run
      cases run
      obtain ⟨takes, kept⟩ := Lexer.peekToken_takes found
      refine ⟨[], takes, fun _ listed => absurd listed List.not_mem_nil, rfl,
        kept, fun seen before => ?_⟩
      obtain ⟨scanned, _, same⟩ := takes
      rw [before, kept, List.nil_append, List.singleton_append] at same
      exact (List.cons.inj same).1.symm
  refine looked.bind fun tokens token reached mid => ?_
  obtain ⟨rfl, sees, same⟩ := mid
  exact rest token reached sees same

theorem ends_advance {token : Token} (sees : Sees parser token) (known : allowed token.type = true)
    {next : Token → Parse β} [∀ token, Sticky (next token)]
    (rest : ∀ reached, Ends allowed reached (next token) fun more => post (token :: more)) :
    Ends allowed parser (advance >>= next) post := by
  have taken : Ends allowed parser advance fun tokens value _ => tokens =
      [token] ∧ value = token := by
    intro value after run _
    unfold advance Parse.lexing at run
    cases found : parser.lexer.nextToken with
    | error stop =>
      rw [found] at run
      cases run
    | ok reached =>
      rw [found] at run
      cases run
      obtain ⟨takes, kept⟩ := Lexer.nextToken_takes found
      have same := kept (by rw [sees]; exact List.cons_ne_nil _ _)
      rw [sees] at same
      have equal := (List.cons.inj same).1
      subst equal
      exact ⟨[reached.1], takes,
        fun other listed => by rw [List.mem_singleton.mp listed]; exact known, rfl, rfl⟩
  refine taken.bind fun tokens value reached mid => ?_
  obtain ⟨rfl, rfl⟩ := mid
  exact rest reached

theorem ends_failed {next : Bool → Parse β} [∀ error, Sticky (next error)]
    (rest : Ends allowed parser (next false) post) :
    Ends allowed parser (failed >>= next) post := by
  intro value after run clean
  obtain ⟨error, reached, start, behind⟩ := Sticky.bind_run run
  have none := Sticky.clean behind clean
  cases start
  rw [none] at behind
  exact rest value after behind clean

theorem ends_setError {msg : String} {line column : Nat} {next : Unit → Parse β}
    [∀ done, Sticky (next done)] :
    Ends allowed parser (setError msg line column >>= next) post := by
  intro value after run clean
  obtain ⟨done, reached, start, behind⟩ := Sticky.bind_run run
  have none := Sticky.clean behind clean
  cases start
  by_cases error : parser.hasError = true
  · rw [if_pos error, error] at none
    cases none
  · rw [if_neg error] at none
    cases none

theorem ends_errorHere {msg : String} {next : Unit → Parse β} [∀ done, Sticky (next done)] :
    Ends allowed parser (errorHere msg >>= next) post := by
  have never : Ends allowed parser (errorHere msg) fun _ _ _ => False := by
    unfold errorHere
    refine ends_current fun token reached _ _ => ?_
    intro value after run clean
    cases run
    by_cases error : reached.hasError = true
    · rw [if_pos error, error] at clean
      cases clean
    · rw [if_neg error] at clean
      cases clean
  exact never.bind fun _ _ _ impossible => impossible.elim

theorem ends_check {type : TokenType} {one two : Parse β} [Sticky one] [Sticky two]
    (yes : ∀ token reached, Sees reached token →
      (∀ seen, Sees parser seen → token = seen) → token.type = type →
      Ends allowed reached one post)
    (no : ∀ token reached, Sees reached token →
      (∀ seen, Sees parser seen → token = seen) → token.type ≠ type →
      Ends allowed reached two post) :
    Ends allowed parser (check type >>= fun found => if found = true then one else two) post := by
  have looked : Ends allowed parser (check type) fun tokens found after => tokens = [] ∧
      ∃ token, found = decide (token.type = type) ∧ Sees after token ∧
        ∀ seen, Sees parser seen → token = seen := by
    unfold check
    exact ends_current fun token reached sees same => .pure ⟨rfl, token, rfl, sees, same⟩
  refine looked.bind fun tokens found reached mid => ?_
  obtain ⟨rfl, token, rfl, sees, same⟩ := mid
  by_cases is : token.type = type
  · rw [if_pos (decide_eq_true is)]
    exact yes token reached sees same is
  · rw [if_neg (by rw [decide_eq_true_iff]; exact is)]
    exact no token reached sees same is

/-- `match`: the token is taken if it is of the type, and stays if it is not. -/
theorem ends_accept {type : TokenType} (known : allowed type = true) {one two : Parse β}
    [Sticky one] [Sticky two]
    (yes : ∀ token reached, (∀ seen, Sees parser seen → token = seen) → token.type = type →
      Ends allowed reached one fun more => post (token :: more))
    (no : ∀ token reached, Sees reached token →
      (∀ seen, Sees parser seen → token = seen) → token.type ≠ type →
      Ends allowed reached two post) :
    Ends allowed parser (accept type >>= fun found => if found = true then one else two) post := by
  have decided : Ends allowed parser (accept type) fun tokens found after =>
      ∃ token, (∀ seen, Sees parser seen → token = seen) ∧
        ((found = true ∧ tokens = [token] ∧ token.type = type) ∨
          (found = false ∧ tokens = [] ∧ Sees after token ∧ token.type ≠ type)) := by
    unfold accept
    refine ends_check (fun token reached sees same is => ?_) fun token reached sees same is => ?_
    · exact ends_advance sees (is ▸ known) fun behind => .pure ⟨token, same, .inl ⟨rfl, rfl, is⟩⟩
    · exact .pure ⟨token, same, .inr ⟨rfl, rfl, sees, is⟩⟩
  refine decided.bind fun tokens found reached mid => ?_
  obtain ⟨token, same, ⟨rfl, rfl, is⟩ | ⟨rfl, rfl, sees, is⟩⟩ := mid
  · exact yes token reached same is
  · exact no token reached sees same is

theorem ends_expect {type : TokenType} {msg : String} (known : allowed type = true)
    {next : Token → Parse β}
    [∀ token, Sticky (next token)]
    (rest : ∀ token reached, token.type = type →
      Ends allowed reached (next token) fun more => post (token :: more)) :
    Ends allowed parser (expect type msg >>= next) post := by
  have expected : Ends allowed parser (expect type msg) fun tokens token _ => tokens =
      [token] ∧ token.type = type := by
    unfold expect
    refine ends_check (fun token reached sees same is => ?_) fun token reached sees same is => ?_
    · have taken : Ends allowed reached (advance >>= fun token => (Pure.pure token : Parse Token))
          fun tokens token _ => tokens = [token] ∧ token.type = type :=
        ends_advance sees (is ▸ known) fun behind => .pure ⟨rfl, is⟩
      intro value after run
      exact taken value after (by
        change Parse.bind advance _ reached = _
        unfold Parse.bind
        rw [run]
        rfl)
    · exact ends_current fun _ _ _ _ => ends_setError
  refine expected.bind fun tokens token reached mid => ?_
  obtain ⟨rfl, is⟩ := mid
  exact rest token reached is

theorem ends_another (known : allowed .comma = true) {one two : Parse β} [Sticky one] [Sticky two]
    (yes : ∀ token reached, Ends allowed reached one fun more => post (token :: more))
    (no : ∀ reached, Ends allowed reached two post) :
    Ends allowed parser (another >>= fun found => if found = true then one else two) post := by
  have decided : Ends allowed parser another fun tokens found _ =>
      (found = true ∧ ∃ token, tokens = [token]) ∨ (found = false ∧ tokens = []) := by
    unfold another
    refine ends_accept known
      (fun token reached same is => ends_failed (.pure (.inl ⟨rfl, token, rfl⟩))) ?_
    exact fun token reached sees same is => .pure (.inr ⟨rfl, rfl⟩)
  refine decided.bind fun tokens found reached mid => ?_
  rcases mid with ⟨rfl, token, rfl⟩ | ⟨rfl, rfl⟩
  · exact yes token reached
  · exact no reached

end Steps

end Parser

mutual

/-- What holds of every literal of an expression, with its place. -/
def EveryLiteral (holds : UInt64 → Nat → Nat → Prop) : Expression → Prop
  | .literal value line column => holds value line column
  | .columnRef _ _ _ => True
  | .binaryOp _ left right _ _ => EveryLiteral holds left ∧ EveryLiteral holds right
  | .unaryOp _ operand _ _ => EveryLiteral holds operand
  | .functionCall _ args _ _ => AllLiterals holds args

def AllLiterals (holds : UInt64 → Nat → Nat → Prop) : List Expression → Prop
  | [] => True
  | arg :: rest => EveryLiteral holds arg ∧ AllLiterals holds rest

end

section Mono

variable {holds weaker : UInt64 → Nat → Nat → Prop}

mutual

theorem EveryLiteral.mono (implies : ∀ value line column, holds value line column →
    weaker value line column) :
    ∀ {e : Expression}, EveryLiteral holds e → EveryLiteral weaker e
  | .literal _ _ _, every => implies _ _ _ every
  | .columnRef _ _ _, _ => trivial
  | .binaryOp _ left right _ _, every =>
    ⟨EveryLiteral.mono implies (e := left) every.1, EveryLiteral.mono implies (e := right) every.2⟩
  | .unaryOp _ operand _ _, every => EveryLiteral.mono implies (e := operand) every
  | .functionCall _ args _ _, every => allLiterals_mono implies args every

theorem allLiterals_mono (implies : ∀ value line column, holds value line column →
    weaker value line column) :
    ∀ args : List Expression, AllLiterals holds args → AllLiterals weaker args
  | [], _ => trivial
  | arg :: rest, every =>
    ⟨EveryLiteral.mono implies (e := arg) every.1, allLiterals_mono implies rest every.2⟩

end

end Mono

theorem AllLiterals.snoc {holds : UInt64 → Nat → Nat → Prop}
    {args : List Expression} {arg : Expression}
    (front : AllLiterals holds args) (last : EveryLiteral holds arg) :
    AllLiterals holds (args ++ [arg]) := by
  induction args with
  | nil => exact ⟨last, trivial⟩
  | cons first args ih => exact ⟨front.1, ih front.2⟩

/-- The literal that a token is parsed as. -/
def Token.Gives (token : Token) (value : UInt64) : Prop :=
  (token.type = .integerLiteral ∧ value = token.intValue) ∨ (token.type = .true_ ∧ value = 1) ∨
    (token.type = .false_ ∧ value = 0)

/-- One of the tokens, at the place of the literal, gives its value. -/
def FromToken (tokens : List Token) (value : UInt64) (line column : Nat) : Prop :=
  ∃ token ∈ tokens, token.line = line ∧ token.column = column ∧ token.Gives value

/-- The expression is there, and its literals are as described. -/
def Present (holds : UInt64 → Nat → Nat → Prop) (found : Option Expression) : Prop :=
  ∃ e, found = some e ∧ EveryLiteral holds e

theorem Present.mono {holds weaker : UInt64 → Nat → Nat → Prop} {found : Option Expression}
    (present : Present holds found)
    (implies : ∀ value line column, holds value line column → weaker value line column) :
    Present weaker found := by
  obtain ⟨e, same, every⟩ := present
  exact ⟨e, same, every.mono implies⟩

/-- The expression is there, and its literals come from the tokens. -/
abbrev Backed (tokens : List Token) : Option Expression → Prop := Present (FromToken tokens)

theorem FromToken.sub {tokens more : List Token}
    (sub : ∀ token ∈ tokens, token ∈ more) (value : UInt64)
    (line column : Nat) (from_ : FromToken tokens value line column) :
    FromToken more value line column := by
  obtain ⟨token, listed, place⟩ := from_
  exact ⟨token, sub token listed, place⟩

theorem EveryLiteral.behind {first : List Token} (second : List Token) {e : Expression}
    (every : EveryLiteral (FromToken first) e) : EveryLiteral (FromToken (first ++ second)) e :=
  every.mono (FromToken.sub fun _ listed => List.mem_append_left _ listed)

theorem EveryLiteral.before {second : List Token} (first : List Token) {e : Expression}
    (every : EveryLiteral (FromToken second) e) : EveryLiteral (FromToken (first ++ second)) e :=
  every.mono (FromToken.sub fun _ listed => List.mem_append_right _ listed)

theorem AllLiterals.behind {first : List Token} (second : List Token) {args : List Expression}
    (every : AllLiterals (FromToken first) args) : AllLiterals (FromToken (first ++ second)) args :=
  allLiterals_mono (FromToken.sub fun _ listed => List.mem_append_left _ listed) args every

theorem AllLiterals.before {second : List Token} (first : List Token) {args : List Expression}
    (every : AllLiterals (FromToken second) args) :
    AllLiterals (FromToken (first ++ second)) args :=
  allLiterals_mono (FromToken.sub fun _ listed => List.mem_append_right _ listed) args every

theorem Backed.before {second : List Token} (first : List Token) {found : Option Expression}
    (backed : Backed second found) :
    Backed (first ++ second) found :=
  Present.mono backed (FromToken.sub fun _ listed => List.mem_append_right _ listed)

theorem Backed.behind {first : List Token} (second : List Token) {found : Option Expression}
    (backed : Backed first found) :
    Backed (first ++ second) found :=
  Present.mono backed (FromToken.sub fun _ listed => List.mem_append_left _ listed)

namespace Parser

/-- The kinds of tokens an expression is made of. -/
def expressionToken (type : TokenType) : Bool :=
  type ∈ [.integerLiteral, .identifier, .and, .or, .true_, .false_, .count, .sum, .min, .max,
    .avg, .plus, .minus, .star,
    .slash, .percent, .equal, .notEqual, .less, .lessEqual, .greater, .greaterEqual, .bang,
      .amp, .pipe, .caret, .lParen,
    .rParen, .comma]

/-- The step reads an expression. -/
def Reads (parse : Parse (Option Expression)) : Prop :=
  ∀ parser, Ends expressionToken parser parse fun tokens found _ => Backed tokens found

/-- The step reads an operator, or nothing. -/
def ReadsOperator (operator : Operator) : Prop :=
  ∀ parser, Ends expressionToken parser operator fun _ _ _ => True

theorem matched_reads {type : TokenType} (known : expressionToken type = true) :
    ReadsOperator (matched type) := by
  intro parser
  refine ends_accept known (fun token reached _ _ => ?_) fun _ _ _ _ _ => .pure trivial
  exact ends_current fun _ _ _ _ => .pure trivial

theorem checked_reads {types : List TokenType}
    (known : ∀ type ∈ types, expressionToken type = true) :
    ReadsOperator (checked types) := by
  intro parser
  refine ends_current fun token reached sees _ => ?_
  by_cases listed : token.type ∈ types
  · rw [if_pos listed]
    exact ends_advance sees (known _ listed) fun _ => .pure trivial
  · rw [if_neg listed]
    exact .pure trivial

section Levels

variable {operator : Operator} {operand expression : Parse (Option Expression)}
  [Sticky operator] [Sticky operand]
  [Sticky expression]

theorem joinLeft_reads (knows : ReadsOperator operator) (below : Reads operand)
    (fuel : Nat) {left : Expression}
    {tokens : List Token} (every : EveryLiteral (FromToken tokens) left) (parser : Parser) :
    Ends expressionToken parser (joinLeft operator operand fuel left) fun more found _ =>
      Backed (tokens ++ more) found := by
  induction fuel generalizing left tokens parser with
  | zero => exact .outOfFuel
  | succ fuel ih =>
    refine @Ends.bind _ _ _ _ _ _ _ _ (fun found => ?_)
      (knows parser) fun taken found reached _ => ?_
    · cases found with
      | none => exact Sticky.pure _
      | some node =>
        exact @Sticky.bind _ _ _ _ _ (Sticky.behind (fun _ => Sticky.pure _) fun _ _ => Sticky.ite)
    cases found with
    | none => exact .pure ⟨left, rfl, every.behind (taken ++ [])⟩
    | some node =>
      refine @Ends.bind _ _ _ _ _ _ _ _
        (Sticky.behind (fun _ => Sticky.pure _) fun _ _ => Sticky.ite)
        (below reached) fun read right behind backed => ?_
      obtain ⟨right, rfl, more⟩ := backed
      refine ends_failed ?_
      dsimp only
      rw [if_neg Bool.false_ne_true]
      have joined : EveryLiteral (FromToken (tokens ++ taken ++ read))
          (.binaryOp node.1 left right node.2.1 node.2.2) :=
        ⟨(every.behind taken).behind read, more.before _⟩
      exact (ih joined behind).mono (fun _ known => known) fun last found after _ backed => by
        rwa [List.append_assoc, List.append_assoc] at backed

theorem parseLevel_reads (knows : ReadsOperator operator) (below : Reads operand) (fuel : Nat) :
    Reads (parseLevel operator operand fuel) := by
  intro parser
  refine @Ends.bind _ _ _ _ _ _ _ _ (Sticky.behind (fun _ => Sticky.pure _) fun _ _ => Sticky.ite)
    (below parser) fun read left reached backed => ?_
  obtain ⟨left, rfl, every⟩ := backed
  refine ends_failed ?_
  dsimp only
  rw [if_neg Bool.false_ne_true]
  exact joinLeft_reads knows below fuel every reached

theorem parseArguments_reads (inner : Reads expression) (fuel : Nat)
    {args : List Expression} {tokens : List Token}
    (every : AllLiterals (FromToken tokens) args) (parser : Parser) :
    Ends expressionToken parser (parseArguments expression fuel args) fun more found _ =>
      ∃ all, found = some all ∧ AllLiterals (FromToken (tokens ++ more)) all := by
  induction fuel generalizing args tokens parser with
  | zero => exact .outOfFuel
  | succ fuel ih =>
    refine @Ends.bind _ _ _ _ _ _ _ _ (Sticky.behind (fun _ => Sticky.pure _) fun _ _ => Sticky.ite)
      (inner parser) fun read arg reached backed => ?_
    obtain ⟨arg, rfl, more⟩ := backed
    have longer : AllLiterals (FromToken (tokens ++ read)) (args ++ [arg]) :=
      (every.behind read).snoc (more.before tokens)
    refine ends_failed ?_
    dsimp only
    rw [if_neg Bool.false_ne_true]
    refine ends_another rfl (fun comma behind => ?_) fun behind =>
      .pure ⟨_, rfl, by rwa [List.append_nil]⟩
    exact (ih (longer.behind [comma]) behind).mono (fun _ known => known)
      fun last found after _ backed => by
      rwa [List.append_assoc, List.append_assoc] at backed

theorem parseCallArguments_reads (inner : Reads expression) (fuel : Nat) (parser : Parser) :
    Ends expressionToken parser (parseCallArguments expression fuel) fun more found _ =>
      ∃ all, found = some all ∧ AllLiterals (FromToken more) all := by
  refine ends_accept rfl (fun star reached _ _ => .pure ⟨[], rfl, trivial⟩)
    fun token reached _ _ _ => ?_
  refine ends_check (fun _ _ _ _ _ => .pure ⟨[], rfl, trivial⟩) fun _ behind _ _ _ => ?_
  exact @parseArguments_reads _ _ inner fuel [] [] trivial behind

theorem parseFunctionCall_reads (inner : Reads expression) (fuel : Nat)
    (name : Bytes) (line column : Nat)
    {parser : Parser} {token : Token} (sees : Sees parser token) (opens : token.type = .lParen) :
    Ends expressionToken parser (parseFunctionCall expression fuel name line column)
      fun tokens found _ =>
      Backed tokens found := by
  refine @ends_advance _ _ _ _ _ sees (opens ▸ rfl) _ (fun _ => ?_) fun reached => ?_
  · refine @Sticky.bind _ _ _ _ _ fun args => ?_
    cases args with
    | none => exact Sticky.pure _
    | some args => exact Sticky.bind
  refine @Ends.bind _ _ _ _ _ _ _ _ (fun args => ?_) (parseCallArguments_reads inner fuel reached)
    fun read args behind all => ?_
  · cases args with
    | none => exact Sticky.pure _
    | some args => exact Sticky.bind
  obtain ⟨args, rfl, every⟩ := all
  refine ends_accept rfl (fun closes after _ _ => .pure ⟨_, rfl, ?_⟩) fun _ _ _ _ _ =>
    ends_errorHere
  have inside : AllLiterals (FromToken (token :: (read ++ [closes]))) args :=
    (every.behind [closes]).before [token]
  exact inside

theorem parseName_reads (inner : Reads expression) (fuel : Nat) {parser : Parser} {token : Token}
    (sees : Sees parser token) (known : expressionToken token.type = true) :
    Ends expressionToken parser (parseName expression fuel) fun tokens found _ =>
      Backed tokens found := by
  refine ends_advance sees known fun reached =>
    ends_check (fun opens behind seen _ is => ?_) fun _ _ _ _ _ => ?_
  · exact (parseFunctionCall_reads inner fuel _ _ _ seen is).mono (fun _ known => known)
      fun tokens found after _ backed => backed.before [token]
  · exact .pure ⟨_, rfl, trivial⟩

theorem parsePrimaryExpr_reads (inner : Reads expression) (fuel : Nat) :
    Reads (parsePrimaryExpr expression fuel) := by
  intro parser
  refine ends_current fun token reached sees _ => ?_
  -- Each kind of literal is the token that was seen.
  refine ends_accept rfl (fun number behind same is => ?_) fun number behind seen same _ => ?_
  · have one := same token sees
    subst one
    exact .pure ⟨_, rfl, number, List.mem_cons_self, rfl, rfl, .inl ⟨is, rfl⟩⟩
  have one := same token sees
  subst one
  refine ends_accept rfl (fun word behind' same is => ?_) fun word behind' seen' same _ => ?_
  · have two := same number seen
    subst two
    exact .pure ⟨_, rfl, word, List.mem_cons_self, rfl, rfl, .inr (.inl ⟨is, rfl⟩)⟩
  have two := same number seen
  subst two
  refine ends_accept rfl (fun last after same is => ?_) fun last after seen'' same _ => ?_
  · have three := same word seen'
    subst three
    exact .pure ⟨_, rfl, last, List.mem_cons_self, rfl, rfl, .inr (.inr ⟨is, rfl⟩)⟩
  refine ends_accept rfl (fun opens inside _ _ => ?_) fun _ _ _ _ _ => ?_
  · refine @Ends.bind _ _ _ _ _ _ _ _ (Sticky.behind (fun _ => Sticky.pure _) fun _ _ => Sticky.ite)
      (inner inside) fun read expr behind backed => ?_
    obtain ⟨expr, rfl, every⟩ := backed
    refine ends_failed ?_
    dsimp only
    rw [if_neg Bool.false_ne_true]
    refine ends_accept rfl (fun closes _ _ _ => .pure ⟨expr, rfl, ?_⟩) fun _ _ _ _ _ =>
      ends_errorHere
    have within : EveryLiteral (FromToken (opens :: (read ++ [closes]))) expr :=
      (every.behind [closes]).before [opens]
    exact within
  · refine ends_current fun ahead there seen _ => ?_
    by_cases named : ahead.type ∈ [.count, .sum, .min, .max, .avg, .identifier]
    · rw [if_pos named]
      have names : ∀ type ∈ [TokenType.count, .sum, .min, .max, .avg, .identifier],
          expressionToken type = true := by
        decide
      exact parseName_reads inner fuel seen (names _ named)
    · rw [if_neg named]
      exact ends_setError

theorem parseUnaryExpr_reads (inner : Reads expression) (fuel : Nat) :
    Reads (parseUnaryExpr expression fuel) := by
  induction fuel with
  | zero => exact fun _ => .outOfFuel
  | succ fuel ih =>
    intro parser
    refine @ends_current _ _ _ _ _ (fun token => ?_) fun token reached sees _ => ?_
    · exact @Sticky.ite _ _ _ _ _ (@Sticky.bind _ _ _ _ _ fun op => @Sticky.bind _ _ _ _ _ 
        (Sticky.behind (fun _ => Sticky.pure _) fun _ _ => Sticky.ite)) inferInstance
    by_cases prefixed : token.type ∈ [.minus, .bang]
    · have names : ∀ type ∈ [TokenType.minus, .bang], expressionToken type = true := by decide
      rw [if_pos prefixed]
      refine @ends_advance _ _ _ _ _ sees (names _ prefixed) _ (fun op => ?_) fun behind => ?_
      · exact @Sticky.bind _ _ _ _ _ (Sticky.behind (fun _ => Sticky.pure _) fun _ _ => Sticky.ite)
      refine @Ends.bind _ _ _ _ _ _ _ _
        (Sticky.behind (fun _ => Sticky.pure _) fun _ _ => Sticky.ite)
        (ih behind) fun read operand after backed => ?_
      obtain ⟨operand, rfl, every⟩ := backed
      refine ends_failed ?_
      dsimp only
      rw [if_neg Bool.false_ne_true]
      have within : EveryLiteral (FromToken (token :: (read ++ []))) operand :=
        (every.behind []).before [token]
      exact .pure ⟨_, rfl, within⟩
    · rw [if_neg prefixed]
      exact parsePrimaryExpr_reads inner (fuel + 1) reached

end Levels

/-- Where an expression is read without an error it is there, with its literals from the tokens. -/
theorem parseExpression_reads (fuel : Nat) : Reads (parseExpression fuel) := by
  induction fuel with
  | zero => exact fun _ => .outOfFuel
  | succ fuel ih =>
    have multiplicative := parseLevel_reads (@checked_reads [.star, .slash, .percent] (by decide))
      (parseUnaryExpr_reads ih (fuel + 1)) (fuel + 1)
    have additive :=
      parseLevel_reads (@checked_reads [.plus, .minus] (by decide)) multiplicative (fuel + 1)
    have comparison := parseLevel_reads
      (@checked_reads [.less, .lessEqual, .greater, .greaterEqual] (by decide)) additive (fuel + 1)
    have equality :=
      parseLevel_reads (@checked_reads [.equal, .notEqual] (by decide)) comparison (fuel + 1)
    have bitwiseAnd := parseLevel_reads (@matched_reads .amp rfl) equality (fuel + 1)
    have bitwiseXor := parseLevel_reads (@matched_reads .caret rfl) bitwiseAnd (fuel + 1)
    have bitwiseOr := parseLevel_reads (@matched_reads .pipe rfl) bitwiseXor (fuel + 1)
    have conjunction := parseLevel_reads (@matched_reads .and rfl) bitwiseOr (fuel + 1)
    exact parseLevel_reads (@matched_reads .or rfl) conjunction (fuel + 1)

end Parser

/-- The expression of a clause that begins with a keyword: there if the
keyword was read, else not. -/
def OfClause (holds : UInt64 → Nat → Nat → Prop) (keyword : TokenType) (tokens : List Token)
    (found : Option Expression) : Prop :=
  ((∃ token ∈ tokens, token.type = keyword) ∧ Present holds found) ∨
    ((∀ token ∈ tokens, token.type ≠ keyword) ∧ found = none)

/-- A projection is the wildcard or has its expression. -/
def SoundItem (holds : UInt64 → Nat → Nat → Prop) (item : SelectItem) : Prop :=
  (item.isWildcard = true ∧ item.expr = none) ∨ (item.isWildcard = false ∧ Present holds item.expr)

/-- No expression of the statement is missing, and all literals are as described. -/
structure SoundStmt (holds : UInt64 → Nat → Nat → Prop) (tokens : List Token)
    (query : QueryStmt) : Prop where
  projections : ∀ item ∈ query.projections, SoundItem holds item
  whereExpr : OfClause holds .where_ tokens query.whereExpr
  letBindings : ∀ binding ∈ query.letBindings, Present holds binding.2
  tumbleWindow : OfClause holds .tumble tokens query.tumbleWindow
  aggregations : ∀ aggregation ∈ query.aggregations, EveryLiteral holds aggregation.2

theorem SoundItem.mono {holds weaker : UInt64 → Nat → Nat → Prop} {item : SelectItem}
    (sound : SoundItem holds item)
    (implies : ∀ value line column, holds value line column → weaker value line column) :
    SoundItem weaker item :=
  sound.imp id fun found => ⟨found.1, found.2.mono implies⟩

theorem OfClause.mono {holds weaker : UInt64 → Nat → Nat → Prop}
    {keyword : TokenType} {tokens : List Token}
    {found : Option Expression} (clause : OfClause holds keyword tokens found)
    (implies : ∀ value line column, holds value line column → weaker value line column) :
    OfClause weaker keyword tokens found :=
  clause.imp (fun read => ⟨read.1, read.2.mono implies⟩) id

theorem SoundStmt.mono {holds weaker : UInt64 → Nat → Nat → Prop}
    {tokens : List Token} {query : QueryStmt}
    (sound : SoundStmt holds tokens query)
    (implies : ∀ value line column, holds value line column → weaker value line column) :
    SoundStmt weaker tokens query where
  projections item listed := (sound.projections item listed).mono implies
  whereExpr := sound.whereExpr.mono implies
  letBindings binding listed := (sound.letBindings binding listed).mono implies
  tumbleWindow := sound.tumbleWindow.mono implies
  aggregations aggregation listed := (sound.aggregations aggregation listed).mono implies

theorem OfClause.more {holds : UInt64 → Nat → Nat → Prop} {keyword : TokenType}
    {tokens more : List Token}
    {found : Option Expression} (clause : OfClause holds keyword tokens found)
    (others : ∀ token ∈ more, token.type ≠ keyword) :
    OfClause holds keyword (tokens ++ more) found := by
  rcases clause with ⟨⟨token, listed, is⟩, present⟩ | ⟨none, missing⟩
  · exact .inl ⟨⟨token, List.mem_append_left _ listed, is⟩, present⟩
  · refine .inr ⟨fun token listed => ?_, missing⟩
    rcases List.mem_append.mp listed with before | behind
    · exact none token before
    · exact others token behind

namespace Parser

/-- The kinds of tokens a clause is made of, beside the keywords of a filter and of a window. -/
def plainToken (type : TokenType) : Bool := type ∉ [.eof, .error, .where_, .tumble]

def knownToken (type : TokenType) : Bool := type ∉ [.eof, .error]

theorem plain_of_expression (type : TokenType) (known : expressionToken type = true) :
    plainToken type = true := by
  cases type <;> first | rfl | cases known

theorem known_of_plain (type : TokenType) (plain : plainToken type = true) :
    knownToken type = true := by
  cases type <;> first | rfl | cases plain

/-- A statement is sound behind the tokens that were read. -/
abbrev SoundBehind (tokens : List Token) : QueryStmt → Prop := SoundStmt (FromToken tokens) tokens

theorem soundBehind_more {tokens more : List Token} {query : QueryStmt}
    (sound : SoundBehind tokens query)
    (plain : ∀ token ∈ more, plainToken token.type = true) :
    SoundBehind (tokens ++ more) query := by
  have wider := sound.mono (FromToken.sub fun token listed => List.mem_append_left more listed)
  have other (keyword : TokenType) (is : plainToken keyword = false) (token : Token)
      (listed : token ∈ more) :
      token.type ≠ keyword := by
    intro same
    have known := plain token listed
    rw [same, is] at known
    cases known
  exact { wider with
    whereExpr := wider.whereExpr.more (other .where_ rfl)
    tumbleWindow := wider.tumbleWindow.more (other .tumble rfl) }

/-- A part of a statement that is read without the two keywords. -/
def ReadsPlain {α : Type} (parse : Parse α) (post : List Token → α → Prop) : Prop :=
  ∀ parser, Ends plainToken parser parse fun tokens value _ => post tokens value

theorem expression_plain (fuel : Nat) : ReadsPlain (parseExpression fuel) Backed :=
  fun parser => (parseExpression_reads fuel parser).mono plain_of_expression
    fun _ _ _ _ backed => backed

theorem parseAlias_plain (bare : Bool) : ReadsPlain (parseAlias bare) fun _ _ => True := by
  intro parser
  refine ends_accept rfl (fun _ reached _ _ => ends_expect rfl fun _ _ _ => .pure trivial)
    fun _ reached _ _ _ => ?_
  cases bare with
  | false => exact .pure trivial
  | true =>
    rw [if_pos rfl]
    refine ends_check (fun token behind sees _ is => ?_) fun _ _ _ _ _ => .pure trivial
    exact ends_advance sees (is ▸ rfl) fun _ => .pure trivial

theorem parseProjections_plain (bare : Bool) (fuel : Nat)
    {items : List SelectItem} {tokens : List Token}
    (sound : ∀ item ∈ items, SoundItem (FromToken tokens) item) :
    ReadsPlain (parseProjections bare fuel items) fun more all =>
      ∀ item ∈ all, SoundItem (FromToken (tokens ++ more)) item := by
  induction fuel generalizing items tokens with
  | zero => exact fun _ => .outOfFuel
  | succ fuel ih =>
    intro parser
    -- What was sound stays sound behind more tokens, and so does a list with a sound item added.
    have kept (more : List Token) : ∀ item ∈ items, SoundItem (FromToken (tokens ++ more)) item :=
      fun item listed =>
      (sound item listed).mono (FromToken.sub fun _ listed => List.mem_append_left _ listed)
    have added (more : List Token) {item : SelectItem}
        (new : SoundItem (FromToken (tokens ++ more)) item) :
        ∀ other ∈ items ++ [item], SoundItem (FromToken (tokens ++ more)) other := by
      intro other listed
      rcases List.mem_append.mp listed with old | last
      · exact kept more other old
      · exact List.mem_singleton.mp last ▸ new
    have goesOn (read : List Token) {item : SelectItem}
        (new : SoundItem (FromToken (tokens ++ read)) item)
        (reached : Parser) :
        Ends plainToken reached (do if ← another then
          parseProjections bare fuel (items ++ [item]) else return items ++ [item])
          fun more all _ => ∀ other ∈ all,
            SoundItem (FromToken (tokens ++ (read ++ more))) other := by
      refine ends_another rfl (fun comma behind => ?_) fun behind => .pure ?_
      · have longer := fun other listed => (added read new other listed).mono
          (FromToken.sub fun _ listed => List.mem_append_left [comma] listed)
        exact (ih longer behind).mono (fun _ known => known) fun last all after _ every => by
          rwa [List.append_assoc, List.append_assoc, List.append_assoc] at every
      · rw [List.append_nil]
        exact added read new
    refine ends_accept rfl (fun star reached _ _ => ?_) fun _ reached _ _ _ => ?_
    · exact goesOn [star] (.inl ⟨rfl, rfl⟩) reached
    · refine (expression_plain fuel reached).bind fun read expr behind backed => ?_
      obtain ⟨e, rfl, every⟩ := backed
      refine ends_failed ?_
      rw [if_neg (by exact Bool.false_ne_true)]
      refine (parseAlias_plain bare behind).bind fun name alias_ after _ => ?_
      refine ends_failed ?_
      rw [if_neg Bool.false_ne_true]
      have new : SoundItem (FromToken (tokens ++ (read ++ name))) ⟨some e, alias_, false⟩ :=
        .inr ⟨rfl, Backed.before tokens (Backed.behind name ⟨e, rfl, every⟩)⟩
      exact (goesOn (read ++ name) new after).mono (fun _ known => known)
        fun last all behind _ every => by
        rwa [List.append_assoc] at every

theorem parseGroupColumns_plain (fuel : Nat) (columns : List Bytes) :
    ReadsPlain (parseGroupColumns fuel columns) fun _ _ => True := by
  induction fuel generalizing columns with
  | zero => exact fun _ => .outOfFuel
  | succ fuel ih =>
    intro parser
    refine ends_expect rfl fun column reached _ => ends_failed ?_
    rw [if_neg Bool.false_ne_true]
    exact ends_another rfl (fun comma behind => ih _ behind) fun _ => .pure trivial

theorem parseAscending_plain : ReadsPlain parseAscending fun _ _ => True := by
  intro parser
  refine ends_accept rfl (fun _ _ _ _ => .pure trivial) fun _ reached _ _ _ => ?_
  refine ends_accept rfl (fun _ _ _ _ => .pure trivial) fun _ behind _ _ _ => ?_
  refine ends_check (fun token after sees _ is => ?_) fun _ _ _ _ _ => .pure trivial
  refine ends_current fun dir later seen same => ?_
  have again := same token sees
  subst again
  have known : plainToken dir.type = true := is ▸ rfl
  by_cases up : dir.text = nameBytes "ASC" ∨ dir.text = nameBytes "asc"
  · rw [if_pos up]
    exact ends_advance seen known fun _ => .pure trivial
  rw [if_neg up]
  by_cases down : dir.text = nameBytes "DESC" ∨ dir.text = nameBytes "desc"
  · rw [if_pos down]
    exact ends_advance seen known fun _ => .pure trivial
  · rw [if_neg down]
    exact .pure trivial

theorem parseOrderColumns_plain (fuel : Nat) (columns : List (Bytes × Bool)) :
    ReadsPlain (parseOrderColumns fuel columns) fun _ _ => True := by
  induction fuel generalizing columns with
  | zero => exact fun _ => .outOfFuel
  | succ fuel ih =>
    intro parser
    refine ends_expect rfl fun column reached _ => ends_failed ?_
    rw [if_neg Bool.false_ne_true]
    refine (parseAscending_plain reached).bind fun _ ascending behind _ => ?_
    exact ends_another rfl (fun comma after => ih _ after) fun _ => .pure trivial

theorem parseAggregation_plain (fuel : Nat) : ReadsPlain (parseAggregation fuel) fun tokens found =>
    ∃ aggregation, found = some aggregation ∧ EveryLiteral (FromToken tokens) aggregation.2 := by
  intro parser
  have argument (parser : Parser) : Ends plainToken parser
      (parseAggregationArgument fuel) fun tokens arg _ =>
      AllLiterals (FromToken tokens) arg.toList := by
    refine ends_accept rfl (fun _ _ _ _ => .pure trivial) fun _ reached _ _ _ => ?_
    refine ends_check (fun _ _ _ _ _ => .pure trivial) fun _ behind _ _ _ => ?_
    exact (expression_plain fuel behind).mono (fun _ known => known)
      fun tokens found _ _ backed => by
      obtain ⟨e, rfl, every⟩ := backed
      exact ⟨every, trivial⟩
  refine ends_current fun ahead reached sees _ => ?_
  by_cases named : ahead.type ∈ [.identifier, .count, .sum, .min, .max, .avg]
  · have names : ∀ type ∈ [TokenType.identifier, .count, .sum, .min, .max, .avg],
        plainToken type = true := by decide
    rw [if_pos named]
    refine ends_advance sees (names _ named) fun behind => ?_
    refine ends_accept rfl (fun opens inside _ _ => ?_) fun _ _ _ _ _ => ends_errorHere
    refine (argument inside).bind fun read arg after every => ends_failed ?_
    rw [if_neg Bool.false_ne_true]
    refine ends_accept rfl (fun closes _ _ _ => .pure ⟨_, rfl, ?_⟩) fun _ _ _ _ _ => ends_errorHere
    have within : AllLiterals (FromToken ([ahead, opens] ++ (read ++ [closes]))) arg.toList :=
      (every.behind [closes]).before _
    exact within
  · rw [if_neg named]
    exact ends_errorHere

theorem parseAggregations_plain (fuel : Nat)
    {aggregations : List (Bytes × Expression)} {tokens : List Token}
    (sound : ∀ aggregation ∈ aggregations, EveryLiteral (FromToken tokens) aggregation.2) :
    ReadsPlain (parseAggregations fuel aggregations) fun more all =>
      ∀ aggregation ∈ all, EveryLiteral (FromToken (tokens ++ more)) aggregation.2 := by
  induction fuel generalizing aggregations tokens with
  | zero => exact fun _ => .outOfFuel
  | succ fuel ih =>
    intro parser
    refine @Ends.bind _ _ _ _ _ _ _ _ (fun found => ?_) (parseAggregation_plain fuel parser)
      fun read found reached there => ?_
    · cases found with
      | none => exact Sticky.pure _
      | some aggregation => exact Sticky.bind
    obtain ⟨aggregation, rfl, new⟩ := there
    have longer : ∀ other ∈ aggregations ++ [aggregation],
        EveryLiteral (FromToken (tokens ++ read)) other.2 := by
      intro other listed
      rcases List.mem_append.mp listed with old | last
      · exact (sound other old).behind read
      · exact List.mem_singleton.mp last ▸ new.before tokens
    refine ends_another rfl (fun comma behind => ?_) fun behind =>
      .pure (by rw [List.append_nil]; exact longer)
    have next : ∀ other ∈ aggregations ++ [aggregation],
        EveryLiteral (FromToken (tokens ++ read ++ [comma])) other.2 :=
      fun other listed => (longer other listed).behind [comma]
    exact (ih next behind).mono (fun _ known => known) fun last all after _ every => by
      rwa [List.append_assoc, List.append_assoc, List.append_assoc] at every

theorem other_keyword {keyword : TokenType} (is : plainToken keyword = false) {word : Token}
    (other : word.type ≠ keyword)
    {read : List Token} (plain : ∀ token ∈ read, plainToken token.type = true) :
    ∀ token ∈ word :: read, token.type ≠ keyword := by
  intro token listed same
  rcases List.mem_cons.mp listed with rfl | behind
  · exact other same
  · have known := plain token behind
    rw [same, is] at known
    cases known

section Keywords

variable {tokens read : List Token} {query : QueryStmt}
  (sound : SoundBehind tokens query) {word : Token}
  (plain : ∀ token ∈ read, plainToken token.type = true) {found : Option Expression}
  (backed : Backed read found)

include sound plain backed

theorem soundBehind_where (is : word.type = .where_) :
    SoundBehind (tokens ++ word :: read) { query with whereExpr := found } := by
  have wider :=
    sound.mono (FromToken.sub fun token listed => List.mem_append_left (word :: read) listed)
  have inside := (backed.before [word]).before tokens
  exact { wider with
    whereExpr := .inl ⟨⟨word, List.mem_append_right _ List.mem_cons_self, is⟩, inside⟩
    tumbleWindow := wider.tumbleWindow.more (other_keyword rfl (by rw [is]; decide) plain) }

theorem soundBehind_tumble (is : word.type = .tumble) :
    SoundBehind (tokens ++ word :: read) { query with tumbleWindow := found } := by
  have wider :=
    sound.mono (FromToken.sub fun token listed => List.mem_append_left (word :: read) listed)
  have inside := (backed.before [word]).before tokens
  exact { wider with
    whereExpr := wider.whereExpr.more (other_keyword rfl (by rw [is]; decide) plain)
    tumbleWindow := .inl ⟨⟨word, List.mem_append_right _ List.mem_cons_self, is⟩, inside⟩ }

end Keywords

section Clauses

variable {tokens : List Token} {parser : Parser} {query : QueryStmt}

theorem ends_sound_of_plain {parse : Parse QueryStmt} (sound : SoundBehind tokens query)
    (ends : Ends plainToken parser parse fun more next _ =>
      SoundBehind (tokens ++ more) query → SoundBehind (tokens ++ more) next) :
    Ends knownToken parser parse fun more next _ => SoundBehind (tokens ++ more) next :=
  ends.mono known_of_plain fun _ _ _ plain adds => adds (soundBehind_more sound plain)

theorem expression_known (fuel : Nat) (parser : Parser) :
    Ends knownToken parser (parseExpression fuel)
    fun read found _ => Backed read found ∧ ∀ token ∈ read, plainToken token.type = true :=
  (expression_plain fuel parser).mono known_of_plain fun _ _ _ plain backed => ⟨backed, plain⟩

theorem parseTumble_sound (sound : SoundBehind tokens query) {word : Token}
    (is : word.type = .tumble) (fuel : Nat) :
    Ends knownToken parser (parseTumble fuel query) fun more next _ =>
      SoundBehind (tokens ++ word :: more) next := by
  refine ends_accept rfl (fun opens inside _ isOpen => ?_) fun _ _ _ _ _ => ends_errorHere
  refine (expression_known fuel inside).bind fun read found behind ⟨backed, plain⟩ => ends_failed ?_
  rw [if_neg Bool.false_ne_true]
  refine ends_accept rfl (fun closes _ _ isClose => .pure ?_) fun _ _ _ _ _ => ends_errorHere
  have all : ∀ token ∈ opens :: (read ++ [closes]), plainToken token.type = true := by
    intro token listed
    rcases List.mem_cons.mp listed with rfl | listed
    · rw [isOpen]
      rfl
    rcases List.mem_append.mp listed with inner | last
    · exact plain token inner
    · rw [List.mem_singleton.mp last, isClose]
      rfl
  exact soundBehind_tumble sound all ((backed.behind [closes]).before [opens]) is

variable {token : Token} (sees : Sees parser token) (sound : SoundBehind tokens query) (fuel : Nat)

include sees sound

theorem parseSelect_sound (is : token.type = .select) :
    Ends knownToken parser (parseSelect fuel query) fun more next _ =>
      SoundBehind (tokens ++ more) next := by
  have items : ∀ item ∈ query.projections, SoundItem (FromToken (tokens ++ [token])) item :=
    fun item listed =>
    (sound.projections item listed).mono
      (FromToken.sub fun _ listed => List.mem_append_left _ listed)
  refine ends_sound_of_plain sound (ends_advance sees (is ▸ rfl) fun reached => ?_)
  refine (parseProjections_plain false fuel items reached).bind fun read all behind every =>
    .pure fun still => ?_
  exact { still with projections := by simpa using every }

theorem parseWhere_sound (is : token.type = .where_) :
    Ends knownToken parser (parseWhere fuel query) fun more next _ =>
      SoundBehind (tokens ++ more) next := by
  refine ends_advance sees (is ▸ rfl) fun reached => ?_
  refine (expression_known fuel reached).bind fun read found behind ⟨backed, plain⟩ => .pure ?_
  rw [List.append_nil]
  exact soundBehind_where sound plain backed is

theorem parseLet_sound (is : token.type = .let_) :
    Ends knownToken parser (parseLet fuel query) fun more next _ =>
      SoundBehind (tokens ++ more) next := by
  refine ends_sound_of_plain sound (ends_advance sees (is ▸ rfl) fun reached => ?_)
  refine ends_expect rfl fun name behind _ => ends_failed ?_
  rw [if_neg Bool.false_ne_true]
  refine ends_accept rfl (fun equal after _ _ => ?_) fun _ _ _ _ _ => ends_errorHere
  refine (expression_plain fuel after).bind fun read expr last backed => ends_failed ?_
  rw [if_neg Bool.false_ne_true]
  refine .pure fun still => { still with letBindings := fun binding listed => ?_ }
  rcases List.mem_append.mp listed with old | new
  · exact still.letBindings binding old
  · rw [List.mem_singleton.mp new]
    have inside := (backed.before [token, name, equal]).before tokens
    simpa using inside

theorem parseGroup_sound (is : token.type = .group) :
    Ends knownToken parser (parseGroup fuel query) fun more next _ =>
      SoundBehind (tokens ++ more) next := by
  refine ends_advance sees (is ▸ rfl) fun reached => ?_
  refine ends_accept rfl (fun by_ behind _ isBy => ?_) fun _ _ _ _ _ => ends_errorHere
  have columns : Ends knownToken behind (parseGroupColumns fuel query.groupByColumns)
      fun read _ _ =>
      ∀ token ∈ read, plainToken token.type = true :=
    (parseGroupColumns_plain fuel _ behind).mono known_of_plain fun _ _ _ plain _ => plain
  refine columns.bind fun read columns after plain => ?_
  have all : ∀ other ∈ token :: by_ :: read, plainToken other.type = true := by
    intro other listed
    rcases List.mem_cons.mp listed with rfl | listed
    · rw [is]
      rfl
    rcases List.mem_cons.mp listed with rfl | listed
    · rw [isBy]
      rfl
    · exact plain other listed
  have named : SoundBehind (tokens ++ token :: by_ :: read)
      { query with groupByColumns := columns } :=
    { soundBehind_more sound all with }
  refine ends_accept rfl (fun word inside _ isTumble => ?_) fun _ _ _ _ _ =>
    .pure (by rw [List.append_nil]; exact named)
  exact (parseTumble_sound named isTumble fuel).mono (fun _ known => known)
    fun more next _ _ last => by
    simpa using last

theorem parseAgg_sound (is : token.type = .agg) :
    Ends knownToken parser (parseAgg fuel query) fun more next _ =>
      SoundBehind (tokens ++ more) next := by
  have old : ∀ aggregation ∈ query.aggregations,
      EveryLiteral (FromToken (tokens ++ [token])) aggregation.2 :=
    fun aggregation listed => (sound.aggregations aggregation listed).behind [token]
  refine ends_sound_of_plain sound (ends_advance sees (is ▸ rfl) fun reached => ?_)
  refine (parseAggregations_plain fuel old reached).bind fun read all behind every =>
    .pure fun still => ?_
  exact { still with aggregations := by simpa using every }

theorem parseOrder_sound (is : token.type = .order) :
    Ends knownToken parser (parseOrder fuel query) fun more next _ =>
      SoundBehind (tokens ++ more) next := by
  refine ends_sound_of_plain sound (ends_advance sees (is ▸ rfl) fun reached => ?_)
  refine ends_accept rfl (fun by_ behind _ _ => ?_) fun _ _ _ _ _ => ends_errorHere
  exact (parseOrderColumns_plain fuel _ behind).bind fun read columns after _ =>
    .pure fun still => { still with }

theorem parseLimit_sound (is : token.type = .limit) :
    Ends knownToken parser (parseLimit query) fun more next _ =>
      SoundBehind (tokens ++ more) next := by
  refine ends_sound_of_plain sound (ends_advance sees (is ▸ rfl) fun reached => ?_)
  refine ends_expect rfl fun limit behind _ => ends_failed ?_
  rw [if_neg Bool.false_ne_true]
  exact .pure fun still => { still with }

theorem parseClause_sound :
    Ends knownToken parser (parseClause fuel token.type query) fun more next _ =>
      SoundBehind (tokens ++ more) next := by
  unfold parseClause
  cases is : token.type
  case select => exact parseSelect_sound sees sound fuel is
  case where_ => exact parseWhere_sound sees sound fuel is
  case let_ => exact parseLet_sound sees sound fuel is
  case group => exact parseGroup_sound sees sound fuel is
  case agg => exact parseAgg_sound sees sound fuel is
  case order => exact parseOrder_sound sees sound fuel is
  case limit => exact parseLimit_sound sees sound is
  all_goals exact ends_errorHere

end Clauses

/-- The end of the text is ahead. -/
def AtEof (parser : Parser) : Prop := ∃ eof, Sees parser eof ∧ eof.type = .eof

/-- A statement comes out, with the end of the text ahead. -/
def Finishes (tokens more : List Token) (outcome : Except Stop QueryStmt) (after : Parser) : Prop :=
  ∃ stmt, outcome = .ok stmt ∧ SoundBehind (tokens ++ more) stmt ∧ AtEof after

section Queries

variable {tokens : List Token} {parser : Parser} {query : QueryStmt}

theorem parseClauses_sound (sound : SoundBehind tokens query) (fuel : Nat) :
    Ends knownToken parser (parseClauses fuel query) fun more next after =>
      SoundBehind (tokens ++ more) next ∧ AtEof after := by
  induction fuel generalizing tokens parser query with
  | zero => exact .outOfFuel
  | succ fuel ih =>
    refine ends_current fun token reached sees _ => ends_failed ?_
    by_cases eof : token.type = .eof
    · rw [if_pos (.inl eof)]
      exact .pure ⟨by rw [List.append_nil]; exact sound, token, sees, eof⟩
    · rw [if_neg (not_or.mpr ⟨eof, Bool.false_ne_true⟩)]
      refine (parseClause_sound sees sound fuel).bind fun more next behind still => ?_
      exact (ih still).mono (fun _ known => known) fun last final after _ ⟨whole, ended⟩ =>
        ⟨by rwa [List.append_assoc] at whole, ended⟩

theorem finish_finishes (sound : SoundBehind tokens query) (ended : AtEof parser) :
    Ends knownToken parser (finish query) (Finishes tokens) := by
  intro outcome after run clean
  cases run
  refine ⟨[], .refl _, fun _ listed => absurd listed List.not_mem_nil, query,
    ?_, by rwa [List.append_nil], ended⟩
  rw [if_neg (by rw [clean]; exact Bool.false_ne_true)]

theorem parseFrom_finishes (sound : SoundBehind tokens query) (fuel : Nat) :
    Ends knownToken parser (parseFrom fuel query) (Finishes tokens) := by
  refine ends_expect rfl fun table reached is => ends_failed ?_
  rw [if_neg Bool.false_ne_true]
  have plain : ∀ token ∈ [table], plainToken token.type = true := by
    intro token listed
    rw [List.mem_singleton.mp listed, is]
    rfl
  have named : SoundBehind (tokens ++ [table]) { query with tableName := table.text } :=
    { soundBehind_more sound plain with }
  refine (parseClauses_sound named fuel).bind fun more next behind ⟨still, ended⟩ => ?_
  exact (finish_finishes still ended).mono (fun _ known => known)
    fun last outcome after _ done => by
    obtain ⟨stmt, same, whole, ended⟩ := done
    exact ⟨stmt, same, by simpa using whole, ended⟩

theorem soundBehind_empty (line column : Nat) :
    SoundBehind [] ⟨[], [], none, [], [], none, [], [], 0, line, column⟩ where
  projections _ listed := absurd listed List.not_mem_nil
  whereExpr := .inr ⟨fun _ listed => absurd listed List.not_mem_nil, rfl⟩
  letBindings _ listed := absurd listed List.not_mem_nil
  tumbleWindow := .inr ⟨fun _ listed => absurd listed List.not_mem_nil, rfl⟩
  aggregations _ listed := absurd listed List.not_mem_nil

theorem parseQuery_finishes (fuel : Nat) :
    Ends knownToken parser (parseQuery fuel) (Finishes []) := by
  refine ends_current fun token reached _ _ => ?_
  have empty := soundBehind_empty token.line token.column
  have single {kind : TokenType} (plainKind : plainToken kind = true) {word : Token}
      (is : word.type = kind) :
      ∀ token ∈ [word], plainToken token.type = true := by
    intro token listed
    rw [List.mem_singleton.mp listed, is]
    exact plainKind
  refine ends_accept rfl (fun select behind _ isSelect => ?_) fun _ behind _ _ _ => ?_
  · have start := soundBehind_more empty (single rfl isSelect)
    have projections : Ends knownToken behind (parseProjections true fuel []) fun read items _ =>
        (∀ item ∈ items, SoundItem (FromToken ([select] ++ read)) item) ∧
          ∀ token ∈ read, plainToken token.type = true :=
      (@parseProjections_plain true fuel [] [select]
        (fun _ listed => absurd listed List.not_mem_nil)
        behind).mono known_of_plain fun _ _ _ plain every => ⟨every, plain⟩
    refine projections.bind fun read items after ⟨every, plain⟩ => ends_failed ?_
    rw [if_neg Bool.false_ne_true]
    have selected : SoundBehind ([select] ++ read) ⟨items, [], none, [], [], none, [], [], 0,
        token.line, token.column⟩ :=
      { soundBehind_more start plain with projections := every }
    refine ends_accept rfl (fun from_ inside _ isFrom => ?_) fun _ inside _ _ _ => ?_
    · have more := soundBehind_more selected (single rfl isFrom)
      exact (parseFrom_finishes more fuel).mono (fun _ known => known)
        fun last outcome after _ done => by
        obtain ⟨stmt, same, whole, ended⟩ := done
        exact ⟨stmt, same, by simpa using whole, ended⟩
    · have named : SoundBehind ([select] ++ read)
          ⟨items, nameBytes "events", none, [], [], none, [], [], 0, token.line, token.column⟩ :=
            { selected with }
      refine (parseClauses_sound named fuel).bind fun more next behind ⟨still, ended⟩ => ?_
      exact (finish_finishes still ended).mono (fun _ known => known)
        fun last outcome after _ done => by
        obtain ⟨stmt, same, whole, ended⟩ := done
        exact ⟨stmt, same, by simpa using whole, ended⟩
  · refine ends_accept rfl (fun from_ inside _ isFrom => ?_) fun _ _ _ _ _ => ends_setError
    have more := soundBehind_more empty (single rfl isFrom)
    exact (parseFrom_finishes more fuel).mono (fun _ known => known)
      fun last outcome after _ done => by
      obtain ⟨stmt, same, whole, ended⟩ := done
      exact ⟨stmt, same, by simpa using whole, ended⟩

end Queries

/-- Where a statement comes out there is no error behind it. -/
def Closes (parse : Parse (Except Stop QueryStmt)) : Prop :=
  ∀ parser stmt after, parse parser = some (.ok (.ok stmt, after)) → after.hasError = false

theorem finish_closes (query : QueryStmt) : Closes (finish query) := by
  intro parser stmt after run
  unfold finish at run
  by_cases error : parser.hasError = true
  · rw [if_pos error] at run
    cases run
  · rw [if_neg error] at run
    cases run
    exact Bool.not_eq_true _ ▸ error

theorem Closes.after {α : Type} {first : Parse α} {next : α → Parse (Except Stop QueryStmt)}
    (last : ∀ value, Closes (next value)) : Closes (first >>= next) := by
  intro parser stmt after run
  obtain ⟨value, reached, _, rest⟩ := Sticky.bind_run run
  exact last value reached stmt after rest

theorem Closes.ite {condition : Prop} [Decidable condition]
    {one two : Parse (Except Stop QueryStmt)}
    (first : Closes one) (second : Closes two) : Closes (if condition then one else two) := by
  by_cases holds : condition
  · rw [if_pos holds]
    exact first
  · rw [if_neg holds]
    exact second

theorem parseFrom_closes (fuel : Nat) (query : QueryStmt) : Closes (parseFrom fuel query) :=
  .after fun _ => .after fun _ => .ite (finish_closes _) (.after fun _ => finish_closes _)

theorem parseQuery_closes (fuel : Nat) : Closes (parseQuery fuel) := by
  refine .after fun token => .after fun select =>
    .ite (.after fun items => .after fun broken => .ite (finish_closes _) ?_) ?_
  · exact .after fun from_ => .ite (parseFrom_closes _ _) (.after fun _ => finish_closes _)
  · exact .after fun from_ => .ite (parseFrom_closes _ _) (.after fun _ => finish_closes _)

/-- One of the tokens, at the place of the literal, spells its value. -/
def Spelled (tokens : List Token) (value : UInt64) (line column : Nat) : Prop :=
  ∃ token ∈ tokens, token.line = line ∧ token.column = column ∧ token.Denotes value

theorem spelled_of_fromToken {tokens : List Token}
    (exact_ : ∀ token ∈ tokens, token.Exact) (value : UInt64)
    (line column : Nat) (from_ : FromToken tokens value line column) :
    Spelled tokens value line column := by
  obtain ⟨token, listed, atLine, atColumn, ⟨is, rfl⟩ | ⟨is, rfl⟩ | ⟨is, rfl⟩⟩ := from_
  · exact ⟨token, listed, atLine, atColumn, exact_ token listed is⟩
  · exact ⟨token, listed, atLine, atColumn, by rw [Token.Denotes, is]⟩
  · exact ⟨token, listed, atLine, atColumn, by rw [Token.Denotes, is]⟩

open Ir in
mutual

/-- The builder has a case for every operator in the expression. -/
def Lowerable : Expression → Prop
  | .literal _ _ _ | .columnRef _ _ _ => True
  | .binaryOp op left right _ _ =>
    (∀ lhs rhs type, ∃ instruction, Builder.lowerBinary op lhs rhs type =
      Builder.define instruction) ∧
      Lowerable left ∧ Lowerable right
  | .unaryOp op operand _ _ =>
    (∀ value, ∃ instruction, Builder.lowerUnary op value = Builder.define instruction) ∧
      Lowerable operand
  | .functionCall _ args _ _ => AllLowerable args

def AllLowerable : List Expression → Prop
  | [] => True
  | arg :: rest => Lowerable arg ∧ AllLowerable rest

end

mutual

theorem lowerable_of_parsed : ∀ {e : Expression}, Parsed e → Lowerable e
  | .literal _ _ _, _ | .columnRef _ _ _, _ => trivial
  | .binaryOp op left right _ _, ⟨known, first, second⟩ => by
    refine ⟨fun lhs rhs type => ?_, lowerable_of_parsed first, lowerable_of_parsed second⟩
    cases op <;> first | exact ⟨_, rfl⟩ | cases known
  | .unaryOp op operand _ _, ⟨known, inner⟩ => by
    refine ⟨fun value => ?_, lowerable_of_parsed inner⟩
    cases op <;> first | exact ⟨_, rfl⟩ | cases known
  | .functionCall _ args _ _, parsed => allLowerable_of_parsed args parsed

theorem allLowerable_of_parsed : ∀ args : List Expression, AllParsed args → AllLowerable args
  | [], _ => trivial
  | _ :: rest, ⟨first, others⟩ => ⟨lowerable_of_parsed first, allLowerable_of_parsed rest others⟩

end

/-- All expressions of a statement. -/
def expressions (stmt : QueryStmt) : List Expression :=
  stmt.projections.filterMap SelectItem.expr ++ stmt.whereExpr.toList ++
    stmt.letBindings.filterMap Prod.snd ++
    stmt.tumbleWindow.toList ++ stmt.aggregations.map Prod.snd

theorem ParsedStmt.all {stmt : QueryStmt} (parsed : ParsedStmt stmt) :
    ∀ e ∈ expressions stmt, Parsed e := by
  intro e listed
  unfold expressions at listed
  rw [List.mem_append, List.mem_append, List.mem_append, List.mem_append] at listed
  rcases listed with (((inItems | inWhere) | inLet) | inTumble) | inAgg
  · obtain ⟨item, member, same⟩ := List.mem_filterMap.mp inItems
    exact parsed.projections item member e same
  · exact parsed.whereExpr e (Option.mem_toList.mp inWhere)
  · obtain ⟨binding, member, same⟩ := List.mem_filterMap.mp inLet
    exact parsed.letBindings binding member e same
  · exact parsed.tumbleWindow e (Option.mem_toList.mp inTumble)
  · obtain ⟨aggregation, member, rfl⟩ := List.mem_map.mp inAgg
    exact parsed.aggregations aggregation member

/-- An accepted text was read to its end: the lexer finds the tokens taken and then the end, and
none of them is an error. No expression of the query is missing, every literal is the value its
token spells, and the builder has a case for every operator. -/
theorem parse_sound {fuel : Nat} {text : Bytes} {stmt : QueryStmt}
    (accepted : parse fuel text = some (.ok stmt)) :
    ∃ tokens eof after, parseQuery fuel (ofText text) = some (.ok (.ok stmt, after)) ∧
      (ofText text).lexer.Takes tokens after.lexer ∧
      Lexer.Scans (ofText text).lexer (tokens ++ [eof]) after.lexer.forget ∧
      (∀ token ∈ tokens, token.type ≠ .eof ∧ token.type ≠ .error) ∧ eof.type = .eof ∧
      SoundStmt (Spelled tokens) tokens stmt ∧ ∀ e ∈ expressions stmt, Lowerable e := by
  have parsed := (parse_parsed accepted).all
  unfold parse at accepted
  cases run : parseQuery fuel (ofText text) with
  | none =>
    rw [run] at accepted
    cases accepted
  | some outcome =>
    rw [run] at accepted
    cases outcome with
    | error stop => cases accepted
    | ok reached =>
      obtain ⟨outcome, after⟩ := reached
      cases Option.some.inj accepted
      obtain ⟨tokens, takes, kinds, _, same, sound, eof, sees, isEof⟩ :=
        parseQuery_finishes fuel _ after run (parseQuery_closes fuel _ _ after run)
      cases same
      obtain ⟨scanned, path, order⟩ := id takes
      rw [sees] at order
      have whole : scanned = tokens ++ [eof] := order
      subst whole
      have exact_ := path.exact_ rfl
      refine ⟨tokens, eof, after, rfl, takes, path, fun token listed => ?_,
        isEof, ?_, fun e listed =>
        lowerable_of_parsed (parsed e listed)⟩
      · have known := kinds token listed
        constructor
        · intro same
          rw [same] at known
          cases known
        · intro same
          rw [same] at known
          cases known
      · exact sound.mono
          (spelled_of_fromToken fun token listed => exact_ token (List.mem_append_left _ listed))

/-- `SELECT price WHERE quantity > 5` -/
theorem parse_sound_filter : ∃ stmt tokens eof after,
    parse 60 (nameBytes "SELECT price WHERE quantity > 5") = some (.ok stmt) ∧
      Lexer.Scans (ofText (nameBytes "SELECT price WHERE quantity > 5")).lexer
        (tokens ++ [eof]) after ∧
      eof.type = .eof ∧ SoundStmt (Spelled tokens) tokens stmt := by
  obtain ⟨stmt, accepted, _⟩ :=
    @accepted_of_test 60 (nameBytes "SELECT price WHERE quantity > 5") (fun _ => true)
    (by decide +kernel)
  obtain ⟨tokens, eof, after, _, _, path, _, isEof, sound, _⟩ := parse_sound accepted
  exact ⟨stmt, tokens, eof, _, accepted, path, isEof, sound⟩

end Parser

end VectorTick.Query
