import VectorTick.Query.TokenStream

/-! Where the lexer stands after each call.

The position never leaves the text, every token but the last takes a character, and
behind the end of the text there is nothing but the end of the text. Only an empty
text is cut outside its range. -/

set_option autoImplicit false

namespace VectorTick.Query

open Foundation Vts1

namespace Lexer

/-- The position goes on within the text; the token kept stays. -/
structure Moves (lexer after : Lexer) : Prop where
  input : after.input = lexer.input
  kept : after.hasPeeked = lexer.hasPeeked
  forward : lexer.pos ≤ after.pos
  inside : lexer.pos ≤ lexer.input.length → after.pos ≤ lexer.input.length

theorem Moves.refl (lexer : Lexer) : Moves lexer lexer := ⟨rfl, rfl, Nat.le_refl _, id⟩

theorem Moves.trans {lexer middle after : Lexer} (one : Moves lexer middle)
    (two : Moves middle after) :
    Moves lexer after where
  input := two.input.trans one.input
  kept := two.kept.trans one.kept
  forward := one.forward.trans two.forward
  inside := fun start => one.input ▸ two.inside (one.input.symm ▸ one.inside start)

theorem atEnd_false_iff (lexer : Lexer) : lexer.atEnd = false ↔ lexer.pos < lexer.input.length := by
  rw [atEnd, decide_eq_false_iff_not, Nat.not_le]

theorem advance_hasPeeked (lexer : Lexer) : lexer.advance.hasPeeked = lexer.hasPeeked := by
  unfold advance
  by_cases newline : lexer.current = code '\n'
  · rw [if_pos newline]
  · rw [if_neg newline]

theorem advance_moves {lexer : Lexer} (more : lexer.atEnd = false) : Moves lexer lexer.advance where
  input := advance_input lexer
  kept := advance_hasPeeked lexer
  forward := by
    rw [advance_pos]
    omega
  inside := fun _ => by
    rw [advance_pos]
    exact (atEnd_false_iff lexer).mp more

theorem advanceWhile_moves (keep : UInt8 → Bool) (fuel : Nat) (lexer : Lexer) :
    Moves lexer (lexer.advanceWhile keep fuel) := by
  induction fuel generalizing lexer with
  | zero => exact .refl lexer
  | succ fuel ih =>
    unfold advanceWhile
    by_cases goesOn : (!lexer.atEnd && keep lexer.current) = true
    · rw [if_pos goesOn]
      rw [Bool.and_eq_true, Bool.not_eq_true'] at goesOn
      exact (advance_moves goesOn.1).trans (ih lexer.advance)
    · rw [if_neg goesOn]
      exact .refl lexer

theorem advanceWhile_takes {keep : UInt8 → Bool} {lexer : Lexer} (more : lexer.atEnd = false)
    (first : keep lexer.current = true) :
    lexer.pos < (lexer.advanceWhile keep lexer.remaining).pos := by
  have enough : (lexer.ahead.takeWhile keep).length ≤ lexer.remaining :=
    length_ahead lexer ▸ (List.takeWhile_prefix keep).length_le
  rw [(advanceWhile_run keep enough).2, ahead_eq lexer more,
    List.takeWhile_cons_of_pos first, List.length_cons]
  omega

theorem skipLineComment_moves (lexer : Lexer) : Moves lexer lexer.skipLineComment :=
  advanceWhile_moves _ _ _

theorem skipLineComment_takes {lexer : Lexer} (more : lexer.atEnd = false)
    (comment : lexer.atComment = true) :
    lexer.pos < lexer.skipLineComment.pos := by
  refine advanceWhile_takes more (decide_eq_true fun newline => ?_)
  rw [atComment, Bool.and_eq_true, decide_eq_true_iff, newline] at comment
  exact absurd comment.1 (by decide)

theorem skipWhitespaceLoop_done {fuel : Nat} {lexer : Lexer} (enough : lexer.remaining ≤ fuel) :
    Moves lexer (skipWhitespaceLoop fuel lexer) ∧
      ((skipWhitespaceLoop fuel lexer).atEnd = true ∨
        isSpace (skipWhitespaceLoop fuel lexer).current = false ∧
          (skipWhitespaceLoop fuel lexer).atComment = false) := by
  induction fuel generalizing lexer with
  | zero =>
    exact ⟨.refl lexer, .inl (decide_eq_true (Nat.sub_eq_zero_iff_le.mp (Nat.le_zero.mp enough)))⟩
  | succ fuel ih =>
    unfold skipWhitespaceLoop
    cases done : lexer.atEnd with
    | true =>
      rw [if_pos rfl]
      exact ⟨.refl lexer, .inl done⟩
    | false =>
      have start := (atEnd_false_iff lexer).mp done
      rw [if_neg Bool.false_ne_true]
      cases space : isSpace lexer.current with
      | true =>
        have moves := advance_moves done
        have fewer : lexer.advance.remaining ≤ fuel := by
          unfold remaining at enough ⊢
          rw [moves.input, advance_pos]
          omega
        rw [if_pos rfl]
        exact ⟨moves.trans (ih fewer).1, (ih fewer).2⟩
      | false =>
        rw [if_neg Bool.false_ne_true]
        cases comment : lexer.atComment with
        | true =>
          have moves := skipLineComment_moves lexer
          have further := skipLineComment_takes done comment
          have fewer : lexer.skipLineComment.remaining ≤ fuel := by
            unfold remaining at enough ⊢
            rw [moves.input]
            omega
          rw [if_pos rfl]
          exact ⟨moves.trans (ih fewer).1, (ih fewer).2⟩
        | false =>
          rw [if_neg Bool.false_ne_true]
          exact ⟨.refl lexer, .inr ⟨space, comment⟩⟩

theorem skipWhitespace_moves (lexer : Lexer) : Moves lexer lexer.skipWhitespace :=
  (skipWhitespaceLoop_done (Nat.le_refl _)).1

theorem skipWhitespace_done (lexer : Lexer) : lexer.skipWhitespace.atEnd = true ∨
    isSpace lexer.skipWhitespace.current = false ∧ lexer.skipWhitespace.atComment = false :=
  (skipWhitespaceLoop_done (Nat.le_refl _)).2

/-- The token found takes a character, or there is none left and it says so. -/
structure Finds (lexer : Lexer) (token : Token) (after : Lexer) : Prop where
  moves : Moves lexer after
  takes : token.type ≠ .eof → lexer.pos < after.pos
  ends : token.type = .eof → after.atEnd = true

theorem makeToken_inside {lexer : Lexer} (type : TokenType) (some : lexer.pos ≠ 0)
    (inside : lexer.pos ≤ lexer.input.length) :
    ∃ token, lexer.makeToken type = .ok (token, lexer) ∧ token.type = type := by
  rw [makeToken_eq, if_neg (not_or.mpr ⟨some, by omega⟩)]
  exact ⟨_, rfl, rfl⟩

theorem lookupKeyword_ne_eof (ident : Bytes) : lookupKeyword ident ≠ .eof := by
  unfold lookupKeyword
  cases found : keywords.find? fun keyword => iequals ident (nameBytes keyword.1) with
  | none => decide
  | some keyword =>
    have words : ∀ keyword ∈ keywords, keyword.2 ≠ .eof := by decide
    exact words keyword (List.mem_of_find?_eq_some found)

theorem oneToken_ne_eof {c : UInt8} {type : TokenType} (is : oneToken c = some type) :
    type ≠ .eof := by
  unfold oneToken at is
  rintro rfl
  repeat' split at is
  all_goals cases is

theorem twoTokens_spec {c second : UInt8} {both alone : TokenType}
    (is : twoTokens c = some (second, both, alone)) :
    both ≠ .eof ∧ alone ≠ .eof ∧ second ≠ 0 := by
  unfold twoTokens at is
  repeat' split at is
  all_goals first | (cases is; done) | (cases is; decide)

section Found

variable {lexer : Lexer} (start : lexer.pos ≤ lexer.input.length) (more : lexer.atEnd = false)

include start more

theorem readNumber_finds (digit : isDigit lexer.current = true) :
    ∃ token after, lexer.readNumber = .ok (token, after) ∧ Finds lexer token after := by
  have moves := advanceWhile_moves isDigit lexer.remaining lexer
  have takes := advanceWhile_takes more digit
  rw [readNumber_eq]
  generalize lexer.advanceWhile isDigit lexer.remaining = after at moves takes
  rw [numberToken, moves.input, if_neg (Nat.not_lt.mpr start)]
  dsimp only
  cases parseInteger (slice lexer.input lexer.pos (after.pos - lexer.pos)) 0 with
  | none =>
    exact ⟨_, _, rfl, ⟨moves.input, moves.kept, moves.forward, moves.inside⟩,
    fun _ => takes, fun is => nomatch is⟩
  | some value => exact ⟨_, _, rfl, moves, fun _ => takes, fun is => nomatch is⟩

theorem readIdentifier_finds (letter : isNameRest lexer.current = true) :
    ∃ token after, lexer.readIdentifier = .ok (token, after) ∧ Finds lexer token after := by
  have moves := advanceWhile_moves isNameRest lexer.remaining lexer
  have takes := advanceWhile_takes more letter
  rw [readIdentifier_eq]
  generalize lexer.advanceWhile isNameRest lexer.remaining = after at moves takes
  rw [nameToken, moves.input, if_neg (Nat.not_lt.mpr start)]
  exact ⟨_, _, rfl, moves, fun _ => takes, fun is => absurd is (lookupKeyword_ne_eof _)⟩

theorem readOperator_finds : ∃ token after, lexer.readOperator = .ok (token, after) ∧
    Finds lexer token after := by
  have moves := advance_moves more
  have forward : lexer.pos < lexer.advance.pos := by
    rw [advance_pos]
    omega
  have inside : lexer.advance.pos ≤ lexer.advance.input.length :=
    moves.input.symm ▸ moves.inside start
  unfold readOperator
  cases single : oneToken lexer.current with
  | some type =>
    obtain ⟨token, made, is⟩ := makeToken_inside type (by omega) inside
    exact ⟨token, lexer.advance, made, moves, fun _ => forward, fun eof => absurd (is ▸ eof)
      (oneToken_ne_eof single)⟩
  | none =>
    cases double : twoTokens lexer.current with
    | none =>
      exact ⟨_, _, rfl, ⟨moves.input, moves.kept, moves.forward, moves.inside⟩,
        fun _ => forward, fun is => nomatch is⟩
    | some triple =>
      obtain ⟨second, both, alone⟩ := triple
      obtain ⟨bothNe, aloneNe, secondNe⟩ := twoTokens_spec double
      dsimp only
      by_cases follows : lexer.advance.current = second
      · -- Behind the end there is no character that could be the second one.
        have again : lexer.advance.atEnd = false := by
          rw [atEnd_false_iff]
          by_contra behind
          rw [current, List.getD_eq_getElem?_getD,
            List.getElem?_eq_none (Nat.not_lt.mp behind)] at follows
          exact secondNe follows.symm
        have twice := moves.trans (advance_moves again)
        have further : lexer.advance.pos ≤ lexer.advance.advance.pos :=
          (advance_moves again).forward
        obtain ⟨token, made, is⟩ := @makeToken_inside lexer.advance.advance both (by omega)
          (twice.input.symm ▸ twice.inside start)
        rw [if_pos follows]
        exact ⟨token, _, made, twice, fun _ => by omega, fun eof => absurd (is ▸ eof) bothNe⟩
      · obtain ⟨token, made, is⟩ := makeToken_inside alone (by omega) inside
        rw [if_neg follows]
        exact ⟨token, lexer.advance, made, moves, fun _ => forward,
          fun eof => absurd (is ▸ eof) aloneNe⟩

end Found

theorem scanToken_finds (fuel : Nat) {lexer : Lexer} (some : lexer.input ≠ [])
    (inside : lexer.pos ≤ lexer.input.length) :
    ∃ token after, scanToken (fuel + 1) lexer = .ok (token, after) ∧ Finds lexer token after := by
  have skipped := skipWhitespace_moves lexer
  have start : lexer.skipWhitespace.pos ≤ lexer.skipWhitespace.input.length :=
    skipped.input.symm ▸ skipped.inside inside
  have behind {token : Token} {after : Lexer}
      (finds : Finds lexer.skipWhitespace token after) : Finds lexer token after :=
    ⟨skipped.trans finds.moves,
      fun is => Nat.lt_of_le_of_lt skipped.forward (finds.takes is), finds.ends⟩
  unfold scanToken
  dsimp only
  cases done : lexer.skipWhitespace.atEnd with
  | true =>
    have length : lexer.skipWhitespace.input.length ≤ lexer.skipWhitespace.pos :=
      of_decide_eq_true done
    have positive := List.length_pos_iff.mpr some
    rw [← skipped.input] at positive
    obtain ⟨token, made, is⟩ := makeToken_inside .eof (by omega) start
    rw [if_pos rfl]
    exact ⟨token, _, made, skipped, fun other => absurd is other, fun _ => done⟩
  | false =>
    obtain ended | ⟨-, comment⟩ := skipWhitespace_done lexer
    · rw [done] at ended
      cases ended
    rw [if_neg Bool.false_ne_true, comment, if_neg Bool.false_ne_true]
    by_cases digit : isDigit lexer.skipWhitespace.current = true
    · obtain ⟨token, after, read, finds⟩ := readNumber_finds start done digit
      rw [if_pos digit]
      exact ⟨token, after, read, behind finds⟩
    rw [if_neg digit]
    by_cases letter : (isAlpha lexer.skipWhitespace.current || decide
      (lexer.skipWhitespace.current = code '_')) = true
    · have rest : isNameRest lexer.skipWhitespace.current = true := by
        rw [Bool.or_eq_true] at letter
        rw [isNameRest, isAlnum, Bool.or_eq_true, Bool.or_eq_true]
        exact letter.imp_left .inl
      obtain ⟨token, after, read, finds⟩ := readIdentifier_finds start done rest
      rw [if_pos letter]
      exact ⟨token, after, read, behind finds⟩
    · obtain ⟨token, after, read, finds⟩ := readOperator_finds start done
      rw [if_neg letter]
      exact ⟨token, after, read, behind finds⟩

/-- The position lies within a text that is not empty, and a kept token that ends
the text was found at its end. -/
structure InRange (lexer : Lexer) : Prop where
  some : lexer.input ≠ []
  inside : lexer.pos ≤ lexer.input.length
  kept : lexer.hasPeeked = true → lexer.peekedToken.type = .eof → lexer.atEnd = true

/-- How many tokens can be left before the end: one for each character, and the one kept. -/
def left (lexer : Lexer) : Nat :=
  lexer.remaining + if lexer.hasPeeked = true ∧ lexer.peekedToken.type ≠ .eof then 1 else 0

theorem left_peeked {lexer : Lexer} (peeked : lexer.hasPeeked = true)
    (other : lexer.peekedToken.type ≠ .eof) :
    lexer.left = lexer.remaining + 1 := by rw [left, if_pos ⟨peeked, other⟩]

theorem left_plain {lexer : Lexer} (none : lexer.hasPeeked = true → lexer.peekedToken.type = .eof) :
    lexer.left = lexer.remaining := by
  rw [left, if_neg fun both => both.2 (none both.1), Nat.add_zero]

/-- The end of the text was found, so nothing else is left. -/
def Over (lexer : Lexer) : Prop :=
  lexer.atEnd = true ∧ (lexer.hasPeeked = true → lexer.peekedToken.type = .eof)

theorem Over.left {lexer : Lexer} (ended : Over lexer) : lexer.left = 0 := by
  rw [left_plain ended.2]
  exact Nat.sub_eq_zero_iff_le.mpr (of_decide_eq_true ended.1)

theorem over_of_left {lexer : Lexer} (none : lexer.left = 0) : Over lexer := by
  rw [Lexer.left, Nat.add_eq_zero_iff] at none
  refine ⟨decide_eq_true (Nat.sub_eq_zero_iff_le.mp none.1), fun peeked => ?_⟩
  by_contra other
  rw [if_pos ⟨peeked, other⟩] at none
  exact absurd none.2 (by decide)

theorem Finds.fewer {lexer after : Lexer} {token : Token}
    (finds : Finds lexer token after) (range : InRange lexer)
    (other : token.type ≠ .eof) : after.remaining < lexer.remaining := by
  have forward := finds.takes other
  have inside := finds.moves.inside range.inside
  unfold remaining
  rw [finds.moves.input]
  omega

theorem Finds.over {lexer after : Lexer} {token : Token} (finds : Finds lexer token after)
    (is : token.type = .eof) :
    after.remaining = 0 := Nat.sub_eq_zero_iff_le.mpr (of_decide_eq_true (finds.ends is))

theorem nextToken_spec {lexer : Lexer} (range : InRange lexer) :
    ∃ token after, lexer.nextToken = .ok (token, after) ∧ InRange after ∧
      after.input = lexer.input ∧
      (token.type = .eof → after.left = 0) ∧ (token.type ≠ .eof → after.left < lexer.left) := by
  unfold nextToken
  cases peeked : lexer.hasPeeked with
  | true =>
    have plain : ({ lexer with hasPeeked := false } : Lexer).left = lexer.remaining :=
      left_plain fun other => nomatch other
    refine ⟨_, _, rfl, ⟨range.some, range.inside, fun other => nomatch other⟩, rfl,
      fun is => ?_, fun other => ?_⟩
    · rw [plain]
      exact Nat.sub_eq_zero_iff_le.mpr (of_decide_eq_true (range.kept peeked is))
    · rw [plain, left_peeked peeked other]
      exact Nat.lt_succ_self _
  | false =>
    obtain ⟨token, after, found, finds⟩ := scanToken_finds lexer.remaining range.some range.inside
    have none : after.hasPeeked = false := finds.moves.kept.trans peeked
    have before : lexer.left = lexer.remaining :=
      left_plain fun other => by rw [peeked] at other; cases other
    have behind : after.left = after.remaining :=
      left_plain fun other => by rw [none] at other; cases other
    refine ⟨token, after, found, ⟨?_, ?_, fun other => by rw [none] at other; cases other⟩,
      finds.moves.input, ?_, ?_⟩
    · rw [finds.moves.input]
      exact range.some
    · rw [finds.moves.input]
      exact finds.moves.inside range.inside
    · exact fun is => behind.trans (finds.over is)
    · intro other
      rw [before, behind]
      exact finds.fewer range other

theorem peekToken_spec {lexer : Lexer} (range : InRange lexer) :
    ∃ token after, lexer.peekToken = .ok (token, after) ∧ InRange after ∧
      after.input = lexer.input ∧
      after.left ≤ lexer.left ∧ after.hasPeeked = true ∧ after.peekedToken = token ∧
      (token.type = .eof → after.left = 0) := by
  unfold peekToken
  cases peeked : lexer.hasPeeked with
  | true =>
    refine ⟨_, _, rfl, range, rfl, Nat.le_refl _, peeked, rfl, fun is => ?_⟩
    exact Over.left ⟨range.kept peeked is, fun _ => is⟩
  | false =>
    obtain ⟨token, after, found, next, input, ends, takes⟩ := nextToken_spec range
    rw [found]
    have plain : after.hasPeeked = false := by
      unfold nextToken at found
      rw [peeked, if_neg Bool.false_ne_true] at found
      obtain ⟨token', after', found', finds⟩ :=
        scanToken_finds lexer.remaining range.some range.inside
      rw [found', Except.ok.injEq, Prod.mk.injEq] at found
      rw [← found.2, finds.moves.kept, peeked]
    have before : after.left = after.remaining :=
      left_plain fun other => by rw [plain] at other; cases other
    refine ⟨token, _, rfl, ⟨next.some, next.inside, fun _ is => ?_⟩, input,
      ?_, rfl, rfl, fun is => ?_⟩
    · exact (over_of_left (ends is)).1
    · by_cases is : token.type = .eof
      · rw [@left_plain { after with peekedToken := token, hasPeeked := true } fun _ => is]
        exact (before.symm.trans (ends is)).le.trans (Nat.zero_le _)
      · rw [@left_peeked { after with peekedToken := token, hasPeeked := true } rfl is]
        exact Nat.succ_le_of_lt (before ▸ takes is)
    · rw [@left_plain { after with peekedToken := token, hasPeeked := true } fun _ => is]
      exact before.symm.trans (ends is)

/-- The calls a user makes. -/
inductive Call where
  | peek
  | next
  deriving DecidableEq, Repr

def Call.step : Call → Lexer → Except Stop (Token × Lexer)
  | .peek => peekToken
  | .next => nextToken

/-- The tokens that a run of calls returns. -/
def run : List Call → Lexer → Except Stop (List Token × Lexer)
  | [], lexer => .ok ([], lexer)
  | call :: calls, lexer => do
    let (token, lexer) ← call.step lexer
    let (tokens, lexer) ← run calls lexer
    return (token :: tokens, lexer)

def ofInput (input : Bytes) : Lexer := { input }

/-- Every run of calls goes through, so no text is cut out of range; once the end
was returned nothing else is; and a run that takes more tokens than there are
characters has come to the end. -/
def LexesInRange (input : Bytes) : Prop :=
  ∀ calls, ∃ tokens after, run calls (ofInput input) = .ok (tokens, after) ∧
    (tokens.Pairwise fun earlier later => earlier.type = .eof → later.type = .eof) ∧
    (input.length < calls.count .next → ∃ token ∈ tokens, token.type = .eof)

theorem Call.step_spec (call : Call) {lexer : Lexer} (range : InRange lexer) :
    ∃ token after, call.step lexer = .ok (token, after) ∧ InRange after ∧ after.left ≤ lexer.left ∧
      (token.type = .eof → after.left = 0) ∧
        (call = .next → token.type ≠ .eof → after.left < lexer.left) ∧
      (lexer.left = 0 → token.type = .eof) := by
  cases call with
  | next =>
    obtain ⟨token, after, found, next, -, ends, takes⟩ := nextToken_spec range
    refine ⟨token, after, found, next, ?_, ends, fun _ => takes, fun none => ?_⟩
    · by_cases is : token.type = .eof
      · exact (ends is).le.trans (Nat.zero_le _)
      · exact (takes is).le
    · by_contra other
      have fewer := takes other
      omega
  | peek =>
    obtain ⟨token, after, found, next, -, fewer, peeked, kept, ends⟩ := peekToken_spec range
    refine ⟨token, after, found, next, fewer, ends, fun is => (nomatch is), fun none => ?_⟩
    exact kept ▸ (over_of_left (Nat.le_zero.mp (none ▸ fewer))).2 peeked

/-- A run within range: what is left at the start bounds the tokens taken before the end, and from
the end on there is only the end. -/
theorem run_spec (calls : List Call) {lexer : Lexer} (range : InRange lexer) :
    ∃ tokens after, run calls lexer = .ok (tokens, after) ∧
      (tokens.Pairwise fun earlier later => earlier.type = .eof → later.type = .eof) ∧
      (lexer.left < calls.count .next → ∃ token ∈ tokens, token.type = .eof) ∧
      (lexer.left = 0 → ∀ token ∈ tokens, token.type = .eof) := by
  induction calls generalizing lexer with
  | nil =>
    exact ⟨[], lexer, rfl, .nil, fun few => absurd few (Nat.not_lt_zero _), fun _ _ listed =>
      absurd listed List.not_mem_nil⟩
  | cons call calls ih =>
    obtain ⟨token, middle, found, next, fewer, ends, takes, over_⟩ := call.step_spec range
    obtain ⟨tokens, after, path, sticky, reaches, only⟩ := ih next
    refine ⟨token :: tokens, after, ?_,
      List.pairwise_cons.mpr ⟨fun later listed is => only (ends is) later listed, sticky⟩,
      fun many => ?_, fun none => ?_⟩
    · rw [run, found]
      change (do
        let (tokens, lexer) ← run calls middle
        return (token :: tokens, lexer)) = _
      rw [path]
      rfl
    · by_cases is : token.type = .eof
      · exact ⟨token, List.mem_cons_self, is⟩
      · have rest : middle.left < calls.count .next := by
          rw [List.count_cons] at many
          by_cases taken : call = .next
          · have less := takes taken is
            rw [if_pos (by rw [taken]; rfl)] at many
            omega
          · rw [if_neg (by rw [beq_iff_eq]; exact taken)] at many
            omega
        obtain ⟨other, listed, is'⟩ := reaches rest
        exact ⟨other, List.mem_cons_of_mem _ listed, is'⟩
    · intro other listed
      rcases List.mem_cons.mp listed with rfl | later
      · exact over_ none
      · exact only (Nat.le_zero.mp (none ▸ fewer)) other later

theorem ofInput_inRange {input : Bytes} (some : input ≠ []) : InRange (ofInput input) :=
  ⟨some, Nat.zero_le _, fun other => nomatch other⟩

theorem ofInput_left (input : Bytes) : (ofInput input).left = input.length :=
  left_plain fun other => nomatch other

theorem run_empty : run [.next] (ofInput []) = .error .terminate := by decide

/-- The lexer stays within its text and comes to its end, for every text but the empty one. -/
theorem lexes_in_range_iff (input : Bytes) : LexesInRange input ↔ input ≠ [] := by
  constructor
  · rintro all rfl
    obtain ⟨tokens, after, path, -⟩ := all [.next]
    rw [run_empty] at path
    cases path
  · intro some calls
    obtain ⟨tokens, after, path, sticky, reaches, -⟩ := run_spec calls (ofInput_inRange some)
    rw [ofInput_left] at reaches
    exact ⟨tokens, after, path, sticky, reaches⟩

/-- On an empty text the first token is cut behind the end, and the exception ends the process. -/
theorem empty_text_throws : run [.next] (ofInput []) = .error .terminate ∧ ¬ LexesInRange [] := by
  refine ⟨run_empty, fun all => ?_⟩
  obtain ⟨tokens, after, path, -⟩ := all [.next]
  rw [run_empty] at path
  cases path

end Lexer

end VectorTick.Query
