import VectorTick.Query.LexerRange
import VectorTick.Query.Parser

/-! The parser comes to an end.

Each turn of a loop and each level of an expression within another takes a token, or the error is
set and the loop left. So with more fuel than there are tokens left a step ends, and more fuel
changes nothing: the rules below are about two runs of one step whose fuel may differ. -/

set_option autoImplicit false

namespace VectorTick.Query

open Foundation Vts1

/-- Both runs end, with the same value in the same state, as described. -/
def Halts {α : Type} (parser : Parser) (one two : Parse α) (post : α → Parser → Prop) : Prop :=
  ∃ value after, one parser = some (.ok (value, after)) ∧
    two parser = some (.ok (value, after)) ∧ post value after

/-- The lexer is within its text and has at most so many tokens left. -/
structure Ready (n : Nat) (parser : Parser) : Prop where
  range : parser.lexer.InRange
  few : parser.lexer.left ≤ n

theorem Ready.mono {m n : Nat} {parser : Parser} (ready : Ready m parser) (le : m ≤ n) :
    Ready n parser :=
  ⟨ready.range, ready.few.trans le⟩

/-- The token was looked at and is kept. -/
structure Keeps (parser : Parser) (token : Token) : Prop where
  peeked : parser.lexer.hasPeeked = true
  kept : parser.lexer.peekedToken = token

/-- From any state with at most so many tokens left both runs end, with no more left. -/
def Total {α : Type} (n : Nat) (one two : Parse α) : Prop :=
  ∀ parser, Ready n parser → Halts parser one two fun _ after => Ready n after

section Rules

variable {α β : Type} {parser : Parser} {post : β → Parser → Prop}

theorem run_bind {first : Parse α} {value : α} {reached : Parser}
    (run : first parser = some (.ok (value, reached)))
    (next : α → Parse β) : (first >>= next) parser = next value reached := by
  change Parse.bind first next parser = _
  rw [Parse.bind, run]

theorem Halts.pure {value : β} (holds : post value parser) :
    Halts parser (Pure.pure value : Parse β) (Pure.pure value) post :=
  ⟨value, parser, rfl, rfl, holds⟩

theorem Halts.bind {one two : Parse α} {next next' : α → Parse β} {mid : α → Parser → Prop}
    (first : Halts parser one two mid)
    (rest : ∀ value reached, mid value reached → Halts reached (next value) (next' value) post) :
    Halts parser (one >>= next) (two >>= next') post := by
  obtain ⟨value, reached, run, run', holds⟩ := first
  obtain ⟨result, after, behind, behind', ends⟩ := rest value reached holds
  exact ⟨result, after, (run_bind run next).trans behind, (run_bind run' next').trans behind', ends⟩

theorem Halts.mono {one two : Parse β} {weaker : β → Parser → Prop}
    (halts : Halts parser one two post)
    (implies : ∀ value after, post value after → weaker value after) :
    Halts parser one two weaker := by
  obtain ⟨value, after, run, run', holds⟩ := halts
  exact ⟨value, after, run, run', implies value after holds⟩

theorem Total.bind {n : Nat} {one two : Parse α} {next next' : α → Parse β}
    (total : Total n one two)
    (ready : Ready n parser)
    (rest : ∀ value reached, Ready n reached → Halts reached (next value) (next' value) post) :
    Halts parser (one >>= next) (two >>= next') post := (total parser ready).bind rest

end Rules

namespace Parser

section Steps

variable {β : Type} {n : Nat} {parser : Parser} {post : β → Parser → Prop}

theorem halts_current {next next' : Token → Parse β} (ready : Ready n parser)
    (rest : ∀ token reached, Ready n reached → Keeps reached token →
      Halts reached (next token) (next' token) post) :
    Halts parser (currentToken >>= next) (currentToken >>= next') post := by
  obtain ⟨token, after, found, range, -, fewer, peeked, kept, -⟩ := Lexer.peekToken_spec ready.range
  have run : currentToken parser = some (.ok (token, { parser with lexer := after })) := by
    unfold currentToken Parse.lexing
    rw [found]
  have looked : Halts parser currentToken currentToken fun value reached => Ready n reached ∧
      Keeps reached value :=
    ⟨token, _, run, run, ⟨range, fewer.trans ready.few⟩, peeked, kept⟩
  exact looked.bind fun value reached holds => rest value reached holds.1 holds.2

theorem halts_again {token : Token} {next next' : Token → Parse β} (keeps : Keeps parser token)
    (rest : Halts parser (next token) (next' token) post) :
    Halts parser (currentToken >>= next) (currentToken >>= next') post := by
  have run : currentToken parser = some (.ok (token, parser)) := by
    unfold currentToken Parse.lexing
    rw [Lexer.peekToken, if_pos keeps.peeked, keeps.kept]
  obtain ⟨value, after, behind, behind', holds⟩ := rest
  exact ⟨value, after, (run_bind run next).trans behind, (run_bind run next').trans behind', holds⟩

/-- Taking the token that was looked at, which does not end the text, leaves fewer. -/
theorem halts_advance {token : Token} {next next' : Token → Parse β} (ready : Ready n parser)
    (sees : Keeps parser token)
    (other : token.type ≠ .eof)
    (rest : ∀ reached m, m < n → Ready m reached → Halts reached (next token) (next' token) post) :
    Halts parser (advance >>= next) (advance >>= next') post := by
  obtain ⟨taken, after, found, range, -, -, fewer⟩ := Lexer.nextToken_spec ready.range
  have same : taken = token := by
    rw [Lexer.nextToken, if_pos sees.peeked, Except.ok.injEq, Prod.mk.injEq] at found
    exact found.1.symm.trans sees.kept
  subst same
  have run : advance parser = some (.ok (taken, { parser with lexer := after })) := by
    unfold advance Parse.lexing
    rw [found]
  have less := fewer other
  have taking : Halts parser advance advance fun value reached => value = taken ∧
      Ready after.left reached :=
    ⟨taken, _, run, run, rfl, range, Nat.le_refl _⟩
  refine taking.bind ?_
  rintro value reached ⟨rfl, at_⟩
  exact rest reached after.left (Nat.lt_of_lt_of_le less ready.few) at_

theorem halts_failed {next next' : Bool → Parse β}
    (rest : Halts parser (next parser.hasError) (next' parser.hasError) post) :
    Halts parser (failed >>= next) (failed >>= next') post := by
  have asked : Halts parser failed failed fun value reached => value = parser.hasError ∧
      reached = parser :=
    ⟨parser.hasError, parser, rfl, rfl, rfl, rfl⟩
  refine asked.bind ?_
  rintro value reached ⟨rfl, rfl⟩
  exact rest

theorem halts_setError (msg : String) (line column : Nat) (ready : Ready n parser) :
    Halts parser (setError msg line column) (setError msg line column) fun _ after =>
      Ready n after ∧ after.hasError = true := by
  refine ⟨(), _, rfl, rfl, ?_⟩
  by_cases error : parser.hasError = true
  · rw [if_pos error]
    exact ⟨ready, error⟩
  · rw [if_neg error]
    exact ⟨⟨ready.range, ready.few⟩, rfl⟩

theorem halts_errorHere (msg : String) (ready : Ready n parser) :
    Halts parser (errorHere msg) (errorHere msg) fun _ after => Ready n after ∧
      after.hasError = true := by
  unfold errorHere
  exact halts_current ready fun token reached at_ _ => halts_setError msg _ _ at_

theorem halts_check {type : TokenType} {one two one' two' : Parse β} (ready : Ready n parser)
    (yes : ∀ token reached, Ready n reached → Keeps reached token → token.type = type →
      Halts reached one one' post)
    (no : ∀ token reached, Ready n reached → Keeps reached token → token.type ≠ type →
      Halts reached two two' post) :
    Halts parser (check type >>= fun found => if found = true then one else two)
      (check type >>= fun found => if found = true then one' else two') post := by
  have looked : Halts parser (check type) (check type) fun found reached =>
      ∃ token, found = decide (token.type = type) ∧ Ready n reached ∧ Keeps reached token := by
    unfold check
    exact halts_current ready fun token reached at_ sees => .pure ⟨token, rfl, at_, sees⟩
  refine looked.bind fun found reached holds => ?_
  obtain ⟨token, rfl, at_, sees⟩ := holds
  by_cases is : token.type = type
  · rw [if_pos (decide_eq_true is), if_pos (decide_eq_true is)]
    exact yes token reached at_ sees is
  · rw [if_neg (by rw [decide_eq_true_iff]; exact is),
      if_neg (by rw [decide_eq_true_iff]; exact is)]
    exact no token reached at_ sees is

/-- `match`: one less is left if the token is of the type. -/
theorem halts_accept {type : TokenType} (other : type ≠ .eof) {one two one' two' : Parse β}
    (ready : Ready n parser)
    (yes : ∀ reached m, m < n → Ready m reached → Halts reached one one' post)
    (no : ∀ reached, Ready n reached → Halts reached two two' post) :
    Halts parser (accept type >>= fun found => if found = true then one else two)
      (accept type >>= fun found => if found = true then one' else two') post := by
  have decided : Halts parser (accept type) (accept type) fun found reached =>
      (found = true ∧ ∃ m, m < n ∧ Ready m reached) ∨ (found = false ∧ Ready n reached) := by
    unfold accept
    refine halts_check ready (fun token reached at_ sees is => ?_) fun token reached at_ _ _ =>
      .pure (.inr ⟨rfl, at_⟩)
    exact halts_advance at_ sees (is ▸ other) fun behind m less at_ =>
      .pure (.inl ⟨rfl, m, less, at_⟩)
  refine decided.bind fun found reached holds => ?_
  rcases holds with ⟨rfl, m, less, at_⟩ | ⟨rfl, at_⟩
  · exact yes reached m less at_
  · exact no reached at_

theorem halts_expect {type : TokenType} (other : type ≠ .eof) {msg : String}
    {next next' : Token → Parse β}
    (ready : Ready n parser) (taken : ∀ token reached m, m < n → Ready m reached →
      Halts reached (next token) (next' token) post)
    (refused : ∀ token reached, Ready n reached → reached.hasError = true →
      Halts reached (next token) (next' token) post) :
    Halts parser (expect type msg >>= next) (expect type msg >>= next') post := by
  have decided : Halts parser (expect type msg) (expect type msg) fun _ reached =>
      (∃ m, m < n ∧ Ready m reached) ∨ (Ready n reached ∧ reached.hasError = true) := by
    unfold expect
    refine halts_check ready (fun token reached at_ sees is => ?_) fun token reached at_ _ _ => ?_
    · have taking : Halts reached (advance >>= fun token => (Pure.pure token : Parse Token))
          (advance >>= fun token => (Pure.pure token : Parse Token)) fun _ reached =>
            (∃ m, m < n ∧ Ready m reached) ∨ (Ready n reached ∧ reached.hasError = true) :=
        halts_advance at_ sees (is ▸ other) fun behind m less at_ => .pure (.inl ⟨m, less, at_⟩)
      obtain ⟨value, after, run, run', holds⟩ := taking
      have plain : (advance >>= fun token => (Pure.pure token : Parse Token)) reached =
          advance reached := by
        change Parse.bind advance Parse.pure reached = _
        unfold Parse.bind
        cases advance reached with
        | none => rfl
        | some outcome => cases outcome <;> rfl
      rw [plain] at run run'
      exact ⟨value, after, run, run', holds⟩
    · refine halts_current at_ fun token reached at_ _ => (halts_setError _ _ _ at_).bind
        fun _ reached holds => ?_
      exact .pure (.inr holds)
  refine decided.bind fun token reached holds => ?_
  rcases holds with ⟨m, less, at_⟩ | ⟨at_, error⟩
  · exact taken token reached m less at_
  · exact refused token reached at_ error

/-- A list goes on behind a comma that was taken. -/
theorem halts_another {one two one' two' : Parse β} (ready : Ready n parser)
    (yes : ∀ reached m, m < n → Ready m reached → Halts reached one one' post)
    (no : ∀ reached, Ready n reached → Halts reached two two' post) :
    Halts parser (another >>= fun found => if found = true then one else two)
      (another >>= fun found => if found = true then one' else two') post := by
  have decided : Halts parser another another fun found reached =>
      (found = true ∧ ∃ m, m < n ∧ Ready m reached) ∨ (found = false ∧ Ready n reached) := by
    unfold another
    refine halts_accept (by decide) ready (fun reached m less at_ => halts_failed ?_)
      fun reached at_ => ?_
    · cases reached.hasError with
      | false => exact .pure (.inl ⟨rfl, m, less, at_⟩)
      | true => exact .pure (.inr ⟨rfl, at_.mono less.le⟩)
    · exact .pure (.inr ⟨rfl, at_⟩)
  refine decided.bind fun found reached holds => ?_
  rcases holds with ⟨rfl, m, less, at_⟩ | ⟨rfl, at_⟩
  · exact yes reached m less at_
  · exact no reached at_

end Steps

/-- Both runs end wherever fewer tokens are left than the limit. -/
def TotalBelow {α : Type} (limit : Nat) (one two : Parse α) : Prop :=
  ∀ n, n < limit → Total n one two

/-- An operator that is found is taken. -/
def Picks (operator : Operator) : Prop :=
  ∀ n parser, Ready n parser → Halts parser operator operator fun found after =>
    Ready n after ∧ (found.isSome = true → ∃ m, m < n ∧ Ready m after)

theorem matched_picks (type : TokenType) (other : type ≠ .eof) : Picks (matched type) := by
  intro n parser ready
  unfold matched
  refine halts_accept other ready (fun reached m less at_ => ?_) fun reached at_ =>
    .pure ⟨at_, fun none => nomatch none⟩
  exact halts_current at_ fun token behind at_ _ =>
    .pure ⟨at_.mono less.le, fun _ => ⟨m, less, at_⟩⟩

theorem checked_picks (types : List TokenType) (others : .eof ∉ types) : Picks (checked types) := by
  intro n parser ready
  unfold checked
  refine halts_current ready fun token reached at_ keeps => ?_
  by_cases listed : token.type ∈ types
  · rw [if_pos listed]
    refine halts_advance at_ keeps (fun is => others (is ▸ listed)) fun behind m less at_ => ?_
    exact .pure ⟨at_.mono less.le, fun _ => ⟨m, less, at_⟩⟩
  · rw [if_neg listed]
    exact .pure ⟨at_, fun none => nomatch none⟩

section Levels

variable {operator : Operator}
  {operand operand' expression expression' : Parse (Option Expression)} {limit : Nat}

/-- Each turn of the loop takes an operator. -/
theorem joinLeft_total (picks : Picks operator)
    (below : TotalBelow limit operand operand') {fuel fuel' n : Nat}
    (inside : n < limit) (enough : n < fuel) (enough' : n < fuel') (left : Expression) :
    Total n (joinLeft operator operand fuel left) (joinLeft operator operand' fuel' left) := by
  induction fuel generalizing fuel' n left with
  | zero => exact absurd enough (Nat.not_lt_zero _)
  | succ fuel ih =>
    cases fuel' with
    | zero => exact absurd enough' (Nat.not_lt_zero _)
    | succ fuel' =>
      intro parser ready
      unfold joinLeft
      refine (picks n parser ready).bind fun found reached holds => ?_
      cases found with
      | none => exact .pure holds.1
      | some node =>
        obtain ⟨m, less, at_⟩ := holds.2 rfl
        refine (below m (by omega)).bind at_ fun right reached at_ => halts_failed ?_
        cases right with
        | none => exact .pure (at_.mono less.le)
        | some right =>
          dsimp only
          cases reached.hasError with
          | true => exact .pure (at_.mono less.le)
          | false =>
            exact (ih (by omega) (by omega) (by omega) _ reached at_).mono fun _ _ after =>
              after.mono less.le

theorem parseLevel_total (picks : Picks operator)
    (below : TotalBelow limit operand operand') {fuel fuel' n : Nat}
    (inside : n < limit) (enough : n < fuel) (enough' : n < fuel') :
    Total n (parseLevel operator operand fuel) (parseLevel operator operand' fuel') := by
  intro parser ready
  unfold parseLevel
  refine (below n inside).bind ready fun left reached at_ => halts_failed ?_
  cases left with
  | none => exact .pure at_
  | some left =>
    dsimp only
    cases reached.hasError with
    | true => exact .pure at_
    | false => exact joinLeft_total picks below inside enough enough' left reached at_

variable (inner : TotalBelow limit expression expression')

include inner

theorem parseArguments_total {fuel fuel' n : Nat} (inside : n < limit)
    (enough : n < fuel) (enough' : n < fuel')
    (args : List Expression) :
    Total n (parseArguments expression fuel args) (parseArguments expression' fuel' args) := by
  induction fuel generalizing fuel' n args with
  | zero => exact absurd enough (Nat.not_lt_zero _)
  | succ fuel ih =>
    cases fuel' with
    | zero => exact absurd enough' (Nat.not_lt_zero _)
    | succ fuel' =>
      intro parser ready
      unfold parseArguments
      refine (inner n inside).bind ready fun arg reached at_ => halts_failed ?_
      cases arg with
      | none => exact .pure at_
      | some arg =>
        dsimp only
        cases reached.hasError with
        | true => exact .pure at_
        | false =>
          refine halts_another at_ (fun behind m less at_ => ?_) fun behind at_ => .pure at_
          exact (ih (by omega) (by omega) (by omega) _ behind at_).mono fun _ _ after =>
            after.mono less.le

theorem parseCallArguments_total {fuel fuel' n : Nat} (inside : n < limit)
    (enough : n < fuel) (enough' : n < fuel') :
    Total n (parseCallArguments expression fuel) (parseCallArguments expression' fuel') := by
  intro parser ready
  unfold parseCallArguments
  refine halts_accept (by decide) ready (fun reached m less at_ => .pure (at_.mono less.le))
    fun reached at_ => ?_
  refine halts_check at_ (fun token behind at_ _ _ => .pure at_) fun token behind at_ _ _ => ?_
  exact parseArguments_total inner inside enough enough' [] behind at_

/-- The name of the call was taken before, and its parenthesis is ahead. -/
theorem parseFunctionCall_total {fuel fuel' n : Nat} (inside : n ≤ limit)
    (enough : n ≤ fuel) (enough' : n ≤ fuel')
    (name : Bytes) (line column : Nat) {parser : Parser} {token : Token} (ready : Ready n parser)
    (keeps : Keeps parser token) (other : token.type ≠ .eof) :
    Halts parser (parseFunctionCall expression fuel name line column)
    (parseFunctionCall expression' fuel' name line column)
      fun _ after => Ready n after := by
  unfold parseFunctionCall
  refine halts_advance ready keeps other fun reached m less at_ => ?_
  refine (parseCallArguments_total inner (by omega) (by omega) (by omega)).bind at_
    fun args reached at_ => ?_
  cases args with
  | none => exact .pure (at_.mono less.le)
  | some args =>
    refine halts_accept (by decide) at_ (fun behind k fewer at_ => .pure (at_.mono (by omega)))
      fun behind at_ => ?_
    exact (halts_errorHere _ at_).bind fun _ after holds => .pure (holds.1.mono less.le)

theorem parseName_total {fuel fuel' n : Nat} (inside : n ≤ limit)
    (enough : n ≤ fuel) (enough' : n ≤ fuel')
    {parser : Parser} {token : Token} (ready : Ready n parser) (keeps : Keeps parser token)
    (other : token.type ≠ .eof) :
    Halts parser (parseName expression fuel)
    (parseName expression' fuel') fun _ after => Ready n after := by
  unfold parseName
  refine halts_advance ready keeps other fun reached m less at_ => ?_
  refine halts_check at_ (fun paren behind at_ keeps is => ?_) fun _ behind at_ _ _ =>
    .pure (at_.mono less.le)
  exact (parseFunctionCall_total inner (by omega) (by omega)
    (by omega) _ _ _ at_ keeps (by rw [is]; decide)).mono
    fun _ _ after => after.mono less.le

theorem parsePrimaryExpr_total {fuel fuel' n : Nat} (inside : n ≤ limit)
    (enough : n ≤ fuel) (enough' : n ≤ fuel') :
    Total n (parsePrimaryExpr expression fuel) (parsePrimaryExpr expression' fuel') := by
  intro parser ready
  unfold parsePrimaryExpr
  refine halts_current ready fun token reached at_ _ => ?_
  refine halts_accept (by decide) at_ (fun _ _ less at_ => .pure (at_.mono less.le))
    fun reached at_ => ?_
  refine halts_accept (by decide) at_ (fun _ _ less at_ => .pure (at_.mono less.le))
    fun reached at_ => ?_
  refine halts_accept (by decide) at_ (fun _ _ less at_ => .pure (at_.mono less.le))
    fun reached at_ => ?_
  refine halts_accept (by decide) at_ (fun reached m less at_ => ?_) fun reached at_ => ?_
  · refine (inner m (by omega)).bind at_ fun expr reached at_ => halts_failed ?_
    cases expr with
    | none => exact .pure (at_.mono less.le)
    | some expr =>
      dsimp only
      cases reached.hasError with
      | true => exact .pure (at_.mono less.le)
      | false =>
        refine halts_accept (by decide) at_ (fun _ _ fewer at_ => .pure (at_.mono (by omega)))
          fun behind at_ => ?_
        exact (halts_errorHere _ at_).bind fun _ after holds => .pure (holds.1.mono less.le)
  · refine halts_current at_ fun ahead reached at_ keeps => ?_
    by_cases named : ahead.type ∈ [.count, .sum, .min, .max, .avg, .identifier]
    · rw [if_pos named, if_pos named]
      refine parseName_total inner inside enough enough' at_ keeps fun is => ?_
      rw [is] at named
      exact absurd named (by decide)
    · rw [if_neg named, if_neg named]
      exact (halts_setError _ _ _ at_).bind fun _ after holds => .pure holds.1

theorem parseUnaryExpr_total {fuel fuel' n : Nat} (inside : n ≤ limit)
    (enough : n < fuel) (enough' : n < fuel') :
    Total n (parseUnaryExpr expression fuel) (parseUnaryExpr expression' fuel') := by
  induction fuel generalizing fuel' n with
  | zero => exact absurd enough (Nat.not_lt_zero _)
  | succ fuel ih =>
    cases fuel' with
    | zero => exact absurd enough' (Nat.not_lt_zero _)
    | succ fuel' =>
      intro parser ready
      unfold parseUnaryExpr
      refine halts_current ready fun token reached at_ keeps => ?_
      by_cases sign : token.type ∈ [.minus, .bang]
      · rw [if_pos sign, if_pos sign]
        refine halts_advance at_ keeps (fun is => absurd (is ▸ sign) (by decide))
          fun reached m less at_ => ?_
        refine (ih (by omega) (by omega) (by omega)).bind at_ fun operand reached at_ =>
          halts_failed ?_
        cases operand with
        | none => exact .pure (at_.mono less.le)
        | some operand =>
          dsimp only
          cases reached.hasError with
          | true => exact .pure (at_.mono less.le)
          | false => exact .pure (at_.mono less.le)
      · rw [if_neg sign, if_neg sign]
        exact parsePrimaryExpr_total inner inside (by omega) (by omega) reached at_

theorem parseOrExpr_total {fuel fuel' bound : Nat}
    (inside : bound ≤ limit + 1) (enough : bound ≤ fuel)
    (enough' : bound ≤ fuel') :
    TotalBelow bound (parseOrExpr expression fuel) (parseOrExpr expression' fuel') := by
  have level {operator : Operator} {operand operand' : Parse (Option Expression)}
      (picks : Picks operator)
      (below : TotalBelow bound operand operand') :
      TotalBelow bound (parseLevel operator operand fuel) (parseLevel operator operand' fuel') :=
        fun n less =>
    parseLevel_total picks below less (by omega) (by omega)
  have unary : TotalBelow bound (parseUnaryExpr expression fuel)
      (parseUnaryExpr expression' fuel') := fun n less =>
    parseUnaryExpr_total inner (by omega) (by omega) (by omega)
  have comparison := level (checked_picks [.less, .lessEqual, .greater, .greaterEqual] (by decide))
    (level (checked_picks [.plus, .minus] (by decide))
      (level (checked_picks [.star, .slash, .percent] (by decide)) unary))
  have bitwise := level (matched_picks .pipe (by decide)) (level (matched_picks .caret (by decide))
    (level (matched_picks .amp (by decide))
      (level (checked_picks [.equal, .notEqual] (by decide)) comparison)))
  exact level (matched_picks .or (by decide)) (level (matched_picks .and (by decide)) bitwise)

end Levels

/-- An expression within another stands behind a parenthesis, so less fuel is enough for it. -/
theorem parseExpression_total {fuel fuel' n : Nat} (enough : n < fuel) (enough' : n < fuel') :
    Total n (parseExpression fuel) (parseExpression fuel') := by
  induction fuel generalizing fuel' n with
  | zero => exact absurd enough (Nat.not_lt_zero _)
  | succ fuel ih =>
    cases fuel' with
    | zero => exact absurd enough' (Nat.not_lt_zero _)
    | succ fuel' =>
      have inner : TotalBelow n (parseExpression fuel) (parseExpression fuel') :=
        fun m less => ih (by omega) (by omega)
      unfold parseExpression
      exact @parseOrExpr_total _ _ _ inner _ _ (n + 1)
        (Nat.le_refl _) enough enough' n (Nat.lt_succ_self n)

theorem parseAlias_total (bare : Bool) (n : Nat) : Total n (parseAlias bare) (parseAlias bare) := by
  intro parser ready
  unfold parseAlias
  refine halts_accept (by decide) ready (fun reached m less at_ => ?_) fun reached at_ => ?_
  · refine halts_expect (by decide) at_ (fun token behind k fewer at_ => ?_)
      fun token behind at_ _ => ?_
    · exact .pure (at_.mono (by omega))
    · exact .pure (at_.mono less.le)
  · cases bare with
    | false => exact .pure at_
    | true =>
      refine halts_check at_ (fun token behind at_ keeps is => ?_) fun _ behind at_ _ _ => .pure at_
      exact halts_advance at_ keeps (by rw [is]; decide) fun _ _ less at_ =>
        .pure (at_.mono less.le)

theorem parseProjections_total (bare : Bool) {fuel fuel' n : Nat} (enough : n + 1 < fuel)
    (enough' : n + 1 < fuel')
    (items : List SelectItem) :
    Total n (parseProjections bare fuel items) (parseProjections bare fuel' items) := by
  induction fuel generalizing fuel' n items with
  | zero => exact absurd enough (Nat.not_lt_zero _)
  | succ fuel ih =>
    cases fuel' with
    | zero => exact absurd enough' (Nat.not_lt_zero _)
    | succ fuel' =>
      have further {k : Nat} (le : k ≤ n) {parser : Parser} (ready : Ready k parser)
          (items : List SelectItem) :
          Halts parser (another >>= fun found => if found = true then
            parseProjections bare fuel items else pure items)
            (another >>= fun found => if found = true then
              parseProjections bare fuel' items else pure items)
            fun _ after => Ready n after := by
        refine halts_another ready (fun reached m less at_ => ?_) fun reached at_ =>
          .pure (at_.mono le)
        exact (ih (by omega) (by omega) items reached at_).mono fun _ _ after =>
          after.mono (by omega)
      intro parser ready
      unfold parseProjections
      refine halts_accept (by decide) ready (fun reached m less at_ => further less.le at_ _)
        fun reached at_ => ?_
      refine (parseExpression_total (by omega) (by omega)).bind at_ fun expr reached at_ =>
        halts_failed ?_
      cases (expr.isNone || reached.hasError) with
      | true => exact .pure at_
      | false =>
        refine (parseAlias_total bare n).bind at_ fun alias_ reached at_ => halts_failed ?_
        cases reached.hasError with
        | true => exact .pure at_
        | false => exact further (Nat.le_refl _) at_ _

theorem parseGroupColumns_total {fuel fuel' n : Nat} (enough : n < fuel) (enough' : n < fuel')
    (columns : List Bytes) :
    Total n (parseGroupColumns fuel columns) (parseGroupColumns fuel' columns) := by
  induction fuel generalizing fuel' n columns with
  | zero => exact absurd enough (Nat.not_lt_zero _)
  | succ fuel ih =>
    cases fuel' with
    | zero => exact absurd enough' (Nat.not_lt_zero _)
    | succ fuel' =>
      intro parser ready
      unfold parseGroupColumns
      refine halts_expect (by decide) ready (fun column reached m less at_ => halts_failed ?_)
        fun column reached at_ error => halts_failed ?_
      · cases reached.hasError with
        | true => exact .pure (at_.mono less.le)
        | false =>
          refine halts_another at_ (fun behind k fewer at_ => ?_) fun behind at_ =>
            .pure (at_.mono less.le)
          exact (ih (by omega) (by omega) _ behind at_).mono fun _ _ after => after.mono (by omega)
      · rw [error]
        exact .pure at_

theorem parseAscending_total (n : Nat) : Total n parseAscending parseAscending := by
  intro parser ready
  unfold parseAscending
  refine halts_accept (by decide) ready (fun _ _ less at_ => .pure (at_.mono less.le))
    fun reached at_ => ?_
  refine halts_accept (by decide) at_ (fun _ _ less at_ => .pure (at_.mono less.le))
    fun reached at_ => ?_
  refine halts_check at_ (fun token reached at_ keeps is => ?_) fun _ _ at_ _ _ => .pure at_
  have taken (ascending : Bool) : Halts reached (advance >>= fun _ => pure ascending)
      (advance >>= fun _ => pure ascending)
      fun _ after => Ready n after :=
    halts_advance at_ keeps (by rw [is]; decide) fun _ _ less at_ => .pure (at_.mono less.le)
  refine halts_again keeps ?_
  by_cases ascending : token.text = nameBytes "ASC" ∨ token.text = nameBytes "asc"
  · rw [if_pos ascending]
    exact taken true
  rw [if_neg ascending]
  by_cases descending : token.text = nameBytes "DESC" ∨ token.text = nameBytes "desc"
  · rw [if_pos descending]
    exact taken false
  · rw [if_neg descending]
    exact .pure at_

theorem parseOrderColumns_total {fuel fuel' n : Nat} (enough : n < fuel) (enough' : n < fuel')
    (columns : List (Bytes × Bool)) :
    Total n (parseOrderColumns fuel columns) (parseOrderColumns fuel' columns) := by
  induction fuel generalizing fuel' n columns with
  | zero => exact absurd enough (Nat.not_lt_zero _)
  | succ fuel ih =>
    cases fuel' with
    | zero => exact absurd enough' (Nat.not_lt_zero _)
    | succ fuel' =>
      intro parser ready
      unfold parseOrderColumns
      refine halts_expect (by decide) ready (fun column reached m less at_ => halts_failed ?_)
        fun column reached at_ error => halts_failed ?_
      · cases reached.hasError with
        | true => exact .pure (at_.mono less.le)
        | false =>
          refine (parseAscending_total m).bind at_ fun ascending reached at_ => ?_
          refine halts_another at_ (fun behind k fewer at_ => ?_) fun behind at_ =>
            .pure (at_.mono less.le)
          exact (ih (by omega) (by omega) _ behind at_).mono fun _ _ after => after.mono (by omega)
      · rw [error]
        exact .pure at_

theorem parseAggregationArgument_total {fuel fuel' n : Nat}
    (enough : n < fuel) (enough' : n < fuel') :
    Total n (parseAggregationArgument fuel) (parseAggregationArgument fuel') := by
  intro parser ready
  unfold parseAggregationArgument
  refine halts_accept (by decide) ready (fun _ _ less at_ => .pure (at_.mono less.le))
    fun reached at_ => ?_
  refine halts_check at_ (fun _ _ at_ _ _ => .pure at_) fun _ reached at_ _ _ => ?_
  exact parseExpression_total enough enough' reached at_

theorem parseAggregation_total {fuel fuel' n : Nat} (enough : n < fuel) (enough' : n < fuel') :
    Total n (parseAggregation fuel) (parseAggregation fuel') := by
  intro parser ready
  unfold parseAggregation
  refine halts_current ready fun ahead reached at_ keeps => ?_
  by_cases named : ahead.type ∈ [.identifier, .count, .sum, .min, .max, .avg]
  · rw [if_pos named, if_pos named]
    refine halts_advance at_ keeps (fun is => absurd (is ▸ named) (by decide))
      fun reached m less at_ => ?_
    refine halts_accept (by decide) at_ (fun reached k fewer at_ => ?_) fun reached at_ => ?_
    · refine (parseAggregationArgument_total (by omega) (by omega)).bind at_ fun arg reached at_ =>
        halts_failed ?_
      cases reached.hasError with
      | true => exact .pure (at_.mono (by omega))
      | false =>
        refine halts_accept (by decide) at_ (fun _ _ _ at_ => .pure (at_.mono (by omega)))
          fun reached at_ => ?_
        exact (halts_errorHere _ at_).bind fun _ after holds => .pure (holds.1.mono (by omega))
    · exact (halts_errorHere _ at_).bind fun _ after holds => .pure (holds.1.mono less.le)
  · rw [if_neg named, if_neg named]
    exact (halts_errorHere _ at_).bind fun _ after holds => .pure holds.1

theorem parseAggregations_total {fuel fuel' n : Nat} (enough : n + 1 < fuel)
    (enough' : n + 1 < fuel')
    (aggregations : List (Bytes × Expression)) :
    Total n (parseAggregations fuel aggregations) (parseAggregations fuel' aggregations) := by
  induction fuel generalizing fuel' n aggregations with
  | zero => exact absurd enough (Nat.not_lt_zero _)
  | succ fuel ih =>
    cases fuel' with
    | zero => exact absurd enough' (Nat.not_lt_zero _)
    | succ fuel' =>
      intro parser ready
      unfold parseAggregations
      refine (parseAggregation_total (by omega) (by omega)).bind ready fun found reached at_ => ?_
      cases found with
      | none => exact .pure at_
      | some aggregation =>
        refine halts_another at_ (fun behind m less at_ => ?_) fun behind at_ => .pure at_
        exact (ih (by omega) (by omega) _ behind at_).mono fun _ _ after => after.mono less.le

theorem parseTumble_total {fuel fuel' n : Nat} (enough : n < fuel)
    (enough' : n < fuel') (query : QueryStmt) :
    Total n (parseTumble fuel query) (parseTumble fuel' query) := by
  intro parser ready
  unfold parseTumble
  refine halts_accept (by decide) ready (fun reached m less at_ => ?_) fun reached at_ => ?_
  · refine (parseExpression_total (by omega) (by omega)).bind at_ fun window reached at_ =>
      halts_failed ?_
    cases reached.hasError with
    | true => exact .pure (at_.mono less.le)
    | false =>
      refine halts_accept (by decide) at_ (fun _ _ _ at_ => .pure (at_.mono (by omega)))
        fun reached at_ => ?_
      exact (halts_errorHere _ at_).bind fun _ after holds => .pure (holds.1.mono less.le)
  · exact (halts_errorHere _ at_).bind fun _ after holds => .pure holds.1

-- The keyword that was looked at is taken first, so each clause leaves fewer tokens.

section Clauses

variable {fuel fuel' n : Nat} (enough : n < fuel) (enough' : n < fuel')
  (query : QueryStmt) {parser : Parser}
  {token : Token} (ready : Ready n parser) (keeps : Keeps parser token) (other : token.type ≠ .eof)

/-- What a clause comes to: fewer tokens are left, or the error is set. -/
def Advances (n : Nat) (after : Parser) : Prop :=
  (∃ m, m < n ∧ Ready m after) ∨ (Ready n after ∧ after.hasError = true)

theorem Advances.of_less {m n : Nat} (less : m < n) {after : Parser} (at_ : Ready m after) :
    Advances n after :=
  .inl ⟨m, less, at_⟩

include ready keeps other

theorem parseLimit_total : Halts parser (parseLimit query)
    (parseLimit query) fun _ after => Advances n after := by
  unfold parseLimit
  refine halts_advance ready keeps other fun reached m less at_ => ?_
  refine halts_expect (by decide) at_ (fun limit behind k fewer at_ => halts_failed ?_)
    fun limit behind at_ error => halts_failed ?_
  · cases behind.hasError with
    | true => exact .pure (.of_less (by omega) at_)
    | false => exact .pure (.of_less (by omega) at_)
  · rw [error]
    exact .pure (.of_less less at_)

include enough enough'

theorem parseSelect_total : Halts parser (parseSelect fuel query)
    (parseSelect fuel' query) fun _ after => Advances n after := by
  unfold parseSelect
  refine halts_advance ready keeps other fun reached m less at_ => ?_
  exact (parseProjections_total false (by omega) (by omega) _).bind at_ fun _ _ at_ =>
    .pure (.of_less less at_)

theorem parseWhere_total : Halts parser (parseWhere fuel query)
    (parseWhere fuel' query) fun _ after => Advances n after := by
  unfold parseWhere
  refine halts_advance ready keeps other fun reached m less at_ => ?_
  exact (parseExpression_total (by omega) (by omega)).bind at_ fun _ _ at_ =>
    .pure (.of_less less at_)

theorem parseLet_total : Halts parser (parseLet fuel query)
    (parseLet fuel' query) fun _ after => Advances n after := by
  unfold parseLet
  refine halts_advance ready keeps other fun reached m less at_ => ?_
  refine halts_expect (by decide) at_ (fun name reached k fewer at_ => halts_failed ?_)
    fun name reached at_ error => halts_failed ?_
  · cases reached.hasError with
    | true => exact .pure (.of_less (by omega) at_)
    | false =>
      refine halts_accept (by decide) at_ (fun reached j still at_ => ?_) fun reached at_ => ?_
      · refine (parseExpression_total (by omega) (by omega)).bind at_ fun _ reached at_ =>
          halts_failed ?_
        cases reached.hasError with
        | true => exact .pure (.of_less (by omega) at_)
        | false => exact .pure (.of_less (by omega) at_)
      · exact (halts_errorHere _ at_).bind fun _ after holds => .pure (.of_less (by omega) holds.1)
  · rw [error]
    exact .pure (.of_less less at_)

theorem parseGroup_total : Halts parser (parseGroup fuel query)
    (parseGroup fuel' query) fun _ after => Advances n after := by
  unfold parseGroup
  refine halts_advance ready keeps other fun reached m less at_ => ?_
  refine halts_accept (by decide) at_ (fun reached k fewer at_ => ?_) fun reached at_ => ?_
  · refine (parseGroupColumns_total (by omega) (by omega) _).bind at_ fun columns reached at_ => ?_
    refine halts_accept (by decide) at_ (fun reached j still at_ => ?_) fun reached at_ =>
      .pure (.of_less (by omega) at_)
    exact (parseTumble_total (by omega) (by omega) _ reached at_).mono
      fun _ _ at_ => .of_less (by omega) at_
  · exact (halts_errorHere _ at_).bind fun _ after holds => .pure (.of_less less holds.1)

theorem parseAgg_total : Halts parser (parseAgg fuel query)
    (parseAgg fuel' query) fun _ after => Advances n after := by
  unfold parseAgg
  refine halts_advance ready keeps other fun reached m less at_ => ?_
  exact (parseAggregations_total (by omega) (by omega) _).bind at_ fun _ _ at_ =>
    .pure (.of_less less at_)

theorem parseOrder_total : Halts parser (parseOrder fuel query)
    (parseOrder fuel' query) fun _ after => Advances n after := by
  unfold parseOrder
  refine halts_advance ready keeps other fun reached m less at_ => ?_
  refine halts_accept (by decide) at_ (fun reached k fewer at_ => ?_) fun reached at_ => ?_
  · exact (parseOrderColumns_total (by omega) (by omega) _).bind at_ fun _ _ at_ =>
      .pure (.of_less (by omega) at_)
  · exact (halts_errorHere _ at_).bind fun _ after holds => .pure (.of_less less holds.1)

theorem parseClause_total : Halts parser (parseClause fuel token.type query)
    (parseClause fuel' token.type query)
    fun _ after => Advances n after := by
  have unexpected : Halts parser (do
        errorHere "Unexpected token in query"
        return query : Parse QueryStmt) (do
        errorHere "Unexpected token in query"
        return query : Parse QueryStmt) fun _ after => Advances n after :=
    (halts_errorHere _ ready).bind fun _ after holds => .pure (.inr holds)
  unfold parseClause
  cases is : token.type with
  | select => exact parseSelect_total enough enough' query ready keeps other
  | where_ => exact parseWhere_total enough enough' query ready keeps other
  | let_ => exact parseLet_total enough enough' query ready keeps other
  | group => exact parseGroup_total enough enough' query ready keeps other
  | agg => exact parseAgg_total enough enough' query ready keeps other
  | order => exact parseOrder_total enough enough' query ready keeps other
  | limit => exact parseLimit_total query ready keeps other
  | _ => exact unexpected

end Clauses

theorem parseClauses_error {fuel fuel' n : Nat} (query : QueryStmt) {parser : Parser}
    (ready : Ready n parser)
    (error : parser.hasError = true) :
    Halts parser (parseClauses (fuel + 1) query)
    (parseClauses (fuel' + 1) query) fun _ after => Ready n after := by
  unfold parseClauses
  obtain ⟨token, after, found, range, -, fewer, -⟩ := Lexer.peekToken_spec ready.range
  have run : currentToken parser = some (.ok (token, { parser with lexer := after })) := by
    unfold currentToken Parse.lexing
    rw [found]
  have looked : Halts parser currentToken currentToken fun _ reached => Ready n reached ∧
      reached.hasError = true :=
    ⟨token, _, run, run, ⟨range, fewer.trans ready.few⟩, error⟩
  refine looked.bind fun token reached holds => halts_failed ?_
  rw [holds.2, if_pos (.inr rfl), if_pos (.inr rfl)]
  exact .pure holds.1

/-- Each turn of the loop over the clauses takes a token, or sets the error
and is the last one but one. -/
theorem parseClauses_total {fuel fuel' n : Nat} (enough : n + 1 < fuel)
    (enough' : n + 1 < fuel') (query : QueryStmt) :
    Total n (parseClauses fuel query) (parseClauses fuel' query) := by
  induction fuel generalizing fuel' n query with
  | zero => exact absurd enough (Nat.not_lt_zero _)
  | succ fuel ih =>
    cases fuel' with
    | zero => exact absurd enough' (Nat.not_lt_zero _)
    | succ fuel' =>
      intro parser ready
      unfold parseClauses
      refine halts_current ready fun token reached at_ keeps => halts_failed ?_
      by_cases done : token.type = .eof ∨ reached.hasError = true
      · rw [if_pos done, if_pos done]
        exact .pure at_
      · rw [if_neg done, if_neg done]
        rw [not_or] at done
        refine (parseClause_total (by omega) (by omega) query at_ keeps done.1).bind
          fun query reached advances => ?_
        rcases advances with ⟨m, less, at_⟩ | ⟨at_, error⟩
        · exact (ih (by omega) (by omega) query reached at_).mono fun _ _ after =>
            after.mono less.le
        · cases fuel with
          | zero => exact absurd enough (by omega)
          | succ fuel =>
            cases fuel' with
            | zero => exact absurd enough' (by omega)
            | succ fuel' => exact parseClauses_error query at_ error

/-- A statement, or the error of the parser. -/
def Answers (outcome : Except Stop QueryStmt) : Prop :=
  (∃ stmt, outcome = .ok stmt) ∨ ∃ message, outcome = failWith .parserError message

theorem finish_total (query : QueryStmt) (parser : Parser) :
    Halts parser (finish query) (finish query) fun outcome _ => Answers outcome := by
  refine ⟨_, parser, rfl, rfl, ?_⟩
  by_cases error : parser.hasError = true
  · rw [if_pos error]
    exact .inr ⟨_, rfl⟩
  · rw [if_neg error]
    exact .inl ⟨_, rfl⟩

theorem parseFrom_total {fuel fuel' n : Nat} (enough : n + 1 < fuel)
    (enough' : n + 1 < fuel') (query : QueryStmt)
    {parser : Parser} (ready : Ready n parser) :
    Halts parser (parseFrom fuel query)
    (parseFrom fuel' query) fun outcome _ => Answers outcome := by
  unfold parseFrom
  refine halts_expect (by decide) ready (fun table reached m less at_ => halts_failed ?_)
    fun table reached at_ error => halts_failed ?_
  · cases reached.hasError with
    | true => exact finish_total query reached
    | false =>
      exact (parseClauses_total (by omega) (by omega) _).bind at_ fun query reached _ =>
        finish_total query reached
  · rw [error]
    exact finish_total query reached

theorem parseQuery_total {fuel fuel' n : Nat} (enough : n + 1 < fuel)
    (enough' : n + 1 < fuel') {parser : Parser}
    (ready : Ready n parser) :
    Halts parser (parseQuery fuel) (parseQuery fuel') fun outcome _ => Answers outcome := by
  unfold parseQuery
  refine halts_current ready fun token reached at_ _ => ?_
  refine halts_accept (by decide) at_ (fun reached m less at_ => ?_) fun reached at_ => ?_
  · refine (parseProjections_total true (by omega) (by omega) []).bind at_ fun items reached at_ =>
      halts_failed ?_
    cases reached.hasError with
    | true => exact finish_total _ reached
    | false =>
      refine halts_accept (by decide) at_ (fun reached k fewer at_ => ?_) fun reached at_ => ?_
      · exact parseFrom_total (by omega) (by omega) _ at_
      · exact (parseClauses_total (by omega) (by omega) _).bind at_ fun query reached _ =>
          finish_total query reached
  · refine halts_accept (by decide) at_ (fun reached k fewer at_ => ?_) fun reached at_ => ?_
    · exact parseFrom_total (by omega) (by omega) _ at_
    · exact (halts_setError _ _ _ at_).bind fun _ reached _ => finish_total _ reached

theorem ofText_ready {text : Bytes} (some : text ≠ []) : Ready text.length (ofText text) :=
  ⟨Lexer.ofInput_inRange some, (Lexer.ofInput_left text).le⟩

/-- Parsing a text that is not empty ends with a statement or an error, after at
most as many turns of each loop and levels of expressions within another as the text
has characters, and two more. -/
theorem parse_terminates {text : Bytes} (present : text ≠ []) :
    ∃ outcome, Answers outcome ∧ ∀ fuel, text.length + 1 < fuel →
      parse fuel text = some outcome := by
  have least : text.length + 1 < text.length + 2 := Nat.lt_succ_self _
  obtain ⟨outcome, after, run, -, answers⟩ := parseQuery_total least least (ofText_ready present)
  refine ⟨outcome, answers, fun fuel enough => ?_⟩
  obtain ⟨outcome', after', run', again, -⟩ := parseQuery_total least enough (ofText_ready present)
  rw [run] at run'
  cases run'
  unfold parse
  rw [again]

theorem parse_terminates_from : ∃ outcome, Answers outcome ∧
    ∀ fuel, (nameBytes "FROM trades").length + 1 < fuel →
      parse fuel (nameBytes "FROM trades") = some outcome :=
  @parse_terminates (nameBytes "FROM trades") (by decide)

end Parser

end VectorTick.Query
