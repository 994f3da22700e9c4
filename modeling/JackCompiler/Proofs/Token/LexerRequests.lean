import JackCompiler.Proofs.Token.Replacement

/-!
# Requests to a lexer

A lexer may be asked whether a token is left, made to take one, or both at once, in any order: also
at a blank, or behind what a failed request has read. Whatever it is asked, it stands behind whole
characters of its source and counts their lines, the tokens that it takes follow one another, and a
request that fails leaves the current token as it was.

## Main definitions

* `LexerRequest`, `LexerAnswer`, `LexerExchange` — what can be asked, and what comes of it
* `Lexer.serve`, `Lexer.serveAll` — one request, and any sequence of them
* `Cursor.StandsBehind`, `Token.Genuine` — a cursor and a token that fit a source
* `Lexer.InOrder`, `LexerExchange.Lawful` — what holds of a lexer at any time, and of a request

## Main results

* `Cursor.token_cases` — what becomes of a token, wherever it is taken
* `Lexer.InOrder.serve` — one request is lawful
* `Lexer.lawful_serveAll` — all of them are, and the tokens that they take follow one another
-/

namespace JackCompiler

/-! ### Requests and answers -/

/-- What can be asked of a lexer. -/
inductive LexerRequest where
  | hasMore
  | advance
  | next
deriving DecidableEq, Repr, Inhabited

/-- What a lexer answers to a request that does not fail. -/
inductive LexerAnswer where
  | more (left : Bool)
  | token (token : Option Token)
deriving DecidableEq, Repr, Inhabited

/-- A request, what was answered to it, and the lexer in front of it and behind it. -/
structure LexerExchange where
  request : LexerRequest
  answer : Except (Located LexicalFault) LexerAnswer
  before : Lexer
  behind : Lexer

/-- The token that was taken. -/
def LexerExchange.token? (exchange : LexerExchange) : Option Token :=
  match exchange.answer with
  | .ok (.token token) => token
  | _ => none

namespace Lexer

/-- The answer to a request, and the lexer behind it. -/
def serve (lexer : Lexer) : LexerRequest → Except (Located LexicalFault) LexerAnswer × Lexer
  | .hasMore => (lexer.hasMore.1.map .more, lexer.hasMore.2)
  | .advance => (lexer.advance.1.map fun token => .token (some token), lexer.advance.2)
  | .next => (lexer.next.1.map .token, lexer.next.2)

/-- One request and what comes of it. -/
def exchange (lexer : Lexer) (request : LexerRequest) : LexerExchange where
  request
  answer := (lexer.serve request).1
  before := lexer
  behind := (lexer.serve request).2

/-- What comes of requests, one after the other, and the lexer behind them. -/
def serveAll : List LexerRequest → Lexer → List LexerExchange × Lexer
  | [], lexer => ([], lexer)
  | request :: requests, lexer =>
    let (exchanges, final) := serveAll requests (lexer.serve request).2
    (lexer.exchange request :: exchanges, final)

end Lexer

/-! ### What fits a source -/

/-- A cursor stands behind whole characters of a source, the given front of it, and counts their
bytes and lines. -/
structure Cursor.StandsBehind (cursor : Cursor) (source : String) (front : List Char) : Prop where
  text : source.toList = front ++ cursor.rest
  boundary : splitAtByte? cursor.position.offset source.toList = some (front, cursor.rest)
  line : cursor.position.line = front.count '\n' + 1

/-- A token that is made from a piece of a source. It has the kind of its text, and it has the value
of a constant if it is one. -/
structure Token.Genuine (token : Token) (source : String) : Prop where
  nonempty : token.text ≠ ""
  place : ∃ front behind, source.toList = front ++ token.text.toList ++ behind ∧
    token.index = byteLength front ∧ token.line = front.count '\n' + 1
  fragment : token.span.fragment? source = some token.text
  kind : TokenKind.classify? token.text = some token.kind
  integer : token.integerValue?.isSome = true ↔ token.kind = .integer
  string : token.stringValue?.isSome = true ↔ token.kind = .string

/-- What holds of a lexer at any time. -/
structure Lexer.InOrder (lexer : Lexer) (file source : String) : Prop where
  named : lexer.file = file
  reads : lexer.source = source
  cursor : ∃ front, lexer.cursor.StandsBehind source front
  current : ∀ token ∈ lexer.current, token.Genuine source

/-- What holds of a request and its answer. -/
structure LexerExchange.Lawful (exchange : LexerExchange) (file source : String) : Prop where
  before : exchange.before.InOrder file source
  behind : exchange.behind.InOrder file source
  onward : exchange.before.cursor.position.offset ≤ exchange.behind.cursor.position.offset
  /-- The token that is taken becomes the current one. It is behind everything that was read before,
  and the cursor is behind it. -/
  takes : ∀ token, exchange.token? = some token → exchange.behind.current = some token ∧
    exchange.before.cursor.position.offset ≤ token.index ∧
    token.span.finish = exchange.behind.cursor.position.offset
  /-- A fault leaves the current token as it was. It is on the line on which the comment, the string
  or the number begins that is wrong, behind the gap that the request has passed. Only a token that
  is taken without asking whether there is one may be missing at the end of the source. -/
  fails : ∀ fault, exchange.answer = .error fault →
    exchange.behind.current = exchange.before.current ∧
    ∃ front gap rest, source.toList = front ++ gap ++ rest ∧
      exchange.before.cursor.StandsBehind source front ∧ IsGap gap rest ∧
      (exchange.request = .advance → gap = []) ∧
      fault.location = { file, line := (front ++ gap).count '\n' + 1 } ∧
      (Faulty fault.cause rest ∨
        rest = [] ∧ fault.cause = .unexpectedEnd ∧ exchange.request = .advance)

/-! ### Places -/

/-- A text is split behind the bytes of its first part. -/
theorem byteLength_of_splitAtByte? {bytes : Nat} {text before behind : List Char}
    (split : splitAtByte? bytes text = some (before, behind)) : byteLength before = bytes := by
  fun_induction splitAtByte? bytes text generalizing before with
  | case1 => simp_all [byteLength]
  | case2 => cases split
  | case3 bytes c text fits ih =>
    simp only [Option.map_eq_some_iff, Prod.mk.injEq, Prod.exists] at split
    obtain ⟨before, behind, split, rfl, rfl⟩ := split
    rw [byteLength, ih split]
    omega
  | case4 => cases split

namespace Cursor.StandsBehind

variable {cursor behind : Cursor} {source : String} {front piece : List Char}

theorem offset (h : cursor.StandsBehind source front) :
    cursor.position.offset = byteLength front :=
  (byteLength_of_splitAtByte? h.boundary).symm

theorem of_position (text : source.toList = front ++ cursor.rest)
    (position : cursor.position = .behind front) : cursor.StandsBehind source front where
  text
  boundary := by rw [position, Position.offset_behind, text, splitAtByte?_byteLength]
  line := by rw [position, Position.line_behind]

theorem position (h : cursor.StandsBehind source front) : cursor.position = .behind front := by
  have offset := h.offset
  have line := h.line
  rw [← Position.offset_behind] at offset
  rw [← Position.line_behind] at line
  exact congr (congrArg Position.mk offset) line

theorem ofText (source : String) : (Cursor.ofText source).StandsBehind source [] :=
  .of_position rfl rfl

/-- Moving on over a piece of the text. -/
theorem advances (h : cursor.StandsBehind source front) (moves : cursor.Advances piece behind) :
    behind.StandsBehind source (front ++ piece) :=
  .of_position (by rw [h.text, moves.rest, List.append_assoc])
    (by rw [moves.position, h.position, Position.behind_append])

end Cursor.StandsBehind

/-! ### Kinds -/

theorem TokenKind.classify?_keyword (word : Keyword) :
    TokenKind.classify? word.text = some (.keyword word) := by
  cases word <;> decide

/-- The kind of a token is the kind of its text. -/
theorem Lexeme.classify?_eq {kind : TokenKind} {piece behind : List Char}
    (lexeme : Lexeme kind piece behind) :
    TokenKind.classify? (String.ofList piece) = some kind := by
  cases lexeme with
  | keyword => rw [String.ofList_toList, TokenKind.classify?_keyword]
  | @identifier first parts _ starts _ notReserved =>
    have notDigit : first.isDigit = false := by
      cases digit : first.isDigit with
      | false => rfl
      | true => exact absurd starts (by simp [not_isWordStart_of_isDigit digit])
    have word : TokenKind.ofWord (String.ofList (first :: parts)) = .identifier :=
      ofWord_of_notReserved fun word same => notReserved word (by simp [same])
    have notQuote : first ≠ '"' := by
      rintro rfl
      exact absurd starts (by decide)
    -- A word begins with a letter or with an underscore, which begins no keyword.
    by_cases letter : first.isAlpha = true
    · simp only [TokenKind.classify?, String.toList_ofList, List.head?_cons, Option.map_some,
        notDigit, letter, word, if_true, Bool.false_eq_true, if_false]
    · obtain rfl : first = '_' := by simpa [isWordStart, letter] using starts
      simp [TokenKind.classify?]
  | @integer digits _ nonempty run =>
    obtain ⟨first, digits, rfl⟩ := List.exists_cons_of_ne_nil nonempty
    simp [TokenKind.classify?, run.all first (by simp)]
  | string => simp [TokenKind.classify?]
  | symbol _ notWord notQuote =>
    simp only [isWordPart, isWordStart, Bool.or_eq_false_iff, beq_eq_false_iff_ne] at notWord
    simp [TokenKind.classify?, notWord, notQuote]

/-! ### Tokens at any place -/

namespace Cursor

variable {cursor behind : Cursor} {source : String} {front piece : List Char}

/-- Where a token is taken, the cursor moves over a piece of the text, whether or not there is a
token. -/
theorem exists_advances_token (cursor : Cursor) :
    ∃ piece, cursor.Advances piece cursor.token.2 := by
  unfold Cursor.token
  split
  · exact ⟨[], .refl _⟩
  · rename_i first rest begins
    have next := cursor.advances_next begins
    split
    · exact ⟨_, cursor.advances_run isWordPart⟩
    split
    · dsimp only
      split <;> exact ⟨_, cursor.advances_run Char.isDigit⟩
    dsimp only
    split
    · have contents := advances_run { rest, position := cursor.position.after first } isQuotable
      split
      · exact ⟨_, next.trans contents⟩
      · rename_i reached
        split <;> exact ⟨_, next.trans (contents.trans (advances_next reached))⟩
    · exact ⟨_, next⟩

/-- A character that begins nothing longer is a symbol, also one that a gap may begin with. -/
theorem token_of_symbol {c : Char} {rest : List Char} {position : Position}
    (notWord : isWordPart c = false) (notQuote : c ≠ '"') :
    Cursor.token { rest := c :: rest, position } =
      (.ok (Cursor.tokenOf { rest := c :: rest, position } (.symbol c) [c]),
        { rest, position := position.after c }) := by
  simp only [isWordPart, Bool.or_eq_false_iff] at notWord
  simp [token, notWord, notQuote]

/-- **What becomes of a token, wherever it is taken.** There is no text any more, or it is the token
that the lexical grammar has there, or a symbol that a gap begins with, or the text is faulty. -/
theorem token_cases (cursor : Cursor) :
    (cursor.rest = [] ∧ cursor.token = (.error .unexpectedEnd, cursor)) ∨
      (∃ kind piece, TokenKind.classify? (String.ofList piece) = some kind ∧
        cursor.token.1 = .ok (cursor.tokenOf kind piece)) ∨
      ∃ cause, Faulty cause cursor.rest ∧ cursor.token.1 = .error cause := by
  obtain ⟨text, position⟩ := cursor
  cases text with
  | nil => exact .inl ⟨rfl, rfl⟩
  | cons first rest =>
    right
    by_cases ends : EndsGap (first :: rest)
    · obtain ⟨cause, faulty⟩ | ⟨kind, piece, behind, text, -, lexeme⟩ :=
        exists_lexeme ends (by simp)
      · obtain ⟨-, inside, comment, -⟩ | ⟨-, -, noToken⟩ := faulty.token_eq
        · exact absurd (.inr ⟨inside, comment.symm⟩) ends.noComment
        · obtain ⟨reached, taken⟩ := noToken position
          exact .inr ⟨cause, faulty, by rw [taken]⟩
      · refine .inl ⟨kind, piece, lexeme.classify?_eq, ?_⟩
        rw [text, token_of_lexeme lexeme]
    · -- A gap begins with a blank or with the slash of a comment.
      have opens : isBlank first = true ∨ first = '/' := by
        by_contra! neither
        exact ends (endsGap_of_ne_slash (by simpa using neither.1) neither.2)
      have symbol : isWordPart first = false ∧ first ≠ '"' ∧
          TokenKind.classify? (String.ofList [first]) = some (.symbol first) := by
        simp only [isBlank, Bool.or_eq_true, beq_iff_eq] at opens
        obtain (((rfl | rfl) | rfl) | rfl) | rfl := opens <;> decide
      refine .inl ⟨_, [first], symbol.2.2, ?_⟩
      rw [token_of_symbol symbol.1 symbol.2.1]

/-- A token says what it is made from, wherever it is taken. -/
theorem covers_token {token : Token} (stands : cursor.StandsBehind source front)
    (taken : cursor.token.1 = .ok token) :
    token.Covers token.kind front token.text.toList ∧
      TokenKind.classify? token.text = some token.kind := by
  obtain ⟨-, ended⟩ | ⟨kind, piece, classified, made⟩ | ⟨cause, -, failed⟩ := cursor.token_cases
  · simp [ended] at taken
  · obtain rfl : cursor.tokenOf kind piece = token := Except.ok.inj (made.symm.trans taken)
    refine ⟨⟨rfl, by simp [tokenOf], ?_, stands.line⟩, classified⟩
    rw [Token.span, ← byteLength_toList, ← stands.offset]
    rfl
  · simp [failed] at taken

/-- A token that is taken fits the source. -/
theorem StandsBehind.genuine {token : Token} (stands : cursor.StandsBehind source front)
    (taken : cursor.token = (.ok token, behind)) : token.Genuine source := by
  obtain ⟨moves, sound⟩ := advances_token taken
  obtain ⟨covers, classified⟩ := covers_token stands (congrArg Prod.fst taken)
  have text : source.toList = front ++ token.text.toList ++ behind.rest := by
    rw [stands.text, moves.rest, List.append_assoc]
  refine ⟨?_, ⟨front, behind.rest, text, congrArg Span.index covers.span, covers.line⟩, ?_,
    classified, ⟨?_, fun integer => ?_⟩, ?_⟩
  · rintro empty
    exact sound.nonempty (by rw [empty]; rfl)
  · rw [Span.fragment?, covers.span, text, List.append_assoc, splitAtByte?_byteLength]
    simp [splitAtByte?_byteLength]
  · unfold Token.integerValue?
    split <;> simp_all
  · obtain ⟨value, inRange⟩ := sound.inRange integer
    rw [inRange, Option.isSome_some]
  · unfold Token.stringValue?
    split <;> simp_all

/-- The end of a token is where the cursor is behind it. -/
theorem StandsBehind.finish_eq {token : Token} (stands : cursor.StandsBehind source front)
    (taken : cursor.token = (.ok token, behind)) :
    token.index = cursor.position.offset ∧ token.span.finish = behind.position.offset := by
  have moves := (advances_token taken).1
  have span := (covers_token stands (congrArg Prod.fst taken)).1.span
  refine ⟨(congrArg Span.index span).trans stands.offset.symm, ?_⟩
  rw [Span.finish, span, (stands.advances moves).offset, byteLength_append]

end Cursor

/-! ### Single requests -/

namespace Lexer

variable {lexer behind : Lexer} {file source : String} {front piece : List Char}
  {fault : Located LexicalFault}

/-- What moving to the next token leaves behind: all of a gap and, if a comment has no end, the
text. -/
theorem hasMore_cases (lexer : Lexer) :
    ∃ gap rest reached, lexer.cursor.rest = gap ++ rest ∧ IsGap gap rest ∧
      reached.current = lexer.current ∧
      ((lexer.hasMore = (.ok !rest.isEmpty, reached) ∧ EndsGap rest ∧ reached.cursor.rest = rest ∧
          lexer.Advances gap reached) ∨
        (lexer.hasMore = (.error (lexer.fault (lexer.cursor.position.afterAll gap).line
            .unterminatedComment), reached) ∧
          Faulty .unterminatedComment rest ∧ lexer.Advances (gap ++ rest) reached)) := by
  -- The longest gap stops in front of something else or of a comment that has no end.
  obtain ⟨gap, rest, text, isGap, ends | faulty⟩ := exists_isGap lexer.cursor.rest
  · refine ⟨gap, rest, { lexer with
      cursor := { rest, position := lexer.cursor.position.afterAll gap } }, text, isGap, rfl,
      .inl ⟨?_, ends, rfl, ⟨text, rfl⟩, rfl, rfl⟩⟩
    rw [hasMore, Cursor.skipGap, text, Gap.skip_of_isGap isGap, Gap.skip_of_endsGap ends]
  · refine ⟨gap, rest, { lexer with
      cursor := { rest := [], position := lexer.cursor.position.afterAll (gap ++ rest) } }, text,
      isGap, rfl, .inr ⟨?_, faulty, ⟨by simp [text], rfl⟩, rfl, rfl⟩⟩
    rw [hasMore, Cursor.skipGap, text, Gap.skip_of_isGap isGap, Position.afterAll_append]
    cases faulty with
    | unterminatedComment unclosed =>
      rw [Gap.skip, Gap.skip_unclosed unclosed]
      rfl

/-- What taking a token leaves behind: the token, or the text that is none. -/
theorem advance_cases (stands : lexer.cursor.StandsBehind source front) :
    (∃ token behind, lexer.advance = (.ok token, behind) ∧
      lexer.Advances token.text.toList behind ∧ behind.current = some token ∧
      token.Genuine source ∧ token.index = lexer.cursor.position.offset ∧
      token.span.finish = behind.cursor.position.offset) ∨
    ∃ cause piece behind, lexer.advance = (.error (lexer.fault lexer.line cause), behind) ∧
      lexer.Advances piece behind ∧ behind.current = lexer.current ∧
      (Faulty cause lexer.cursor.rest ∨ lexer.cursor.rest = [] ∧ cause = .unexpectedEnd) := by
  cases taken : lexer.cursor.token with
  | mk result cursor =>
    cases result with
    | ok token =>
      obtain ⟨index, finish⟩ := stands.finish_eq taken
      exact .inl ⟨token, { lexer with cursor, current := some token }, by rw [advance, taken],
        ⟨(Cursor.advances_token taken).1, rfl, rfl⟩, rfl, stands.genuine taken, index, finish⟩
    | error cause =>
      obtain ⟨piece, moves⟩ := lexer.cursor.exists_advances_token
      rw [taken] at moves
      refine .inr ⟨cause, piece, { lexer with cursor }, by rw [advance, taken],
        ⟨moves, rfl, rfl⟩, rfl, ?_⟩
      obtain ⟨ended, none⟩ | ⟨_, _, -, made⟩ | ⟨cause', faulty, failed⟩ := lexer.cursor.token_cases
      · rw [taken] at none
        exact .inr ⟨ended, Except.error.inj (congrArg Prod.fst none)⟩
      · simp [taken] at made
      · rw [taken] at failed
        cases failed
        exact .inl faulty

theorem Advances.onward (moves : lexer.Advances piece behind) :
    lexer.cursor.position.offset ≤ behind.cursor.position.offset := by
  rw [moves.cursor.position, Position.offset_afterAll]
  exact Nat.le_add_right _ _

namespace InOrder

/-- A lexer that moves on stays in order. -/
theorem moves (h : lexer.InOrder file source) (moves : lexer.Advances piece behind)
    (current : ∀ token ∈ behind.current, token.Genuine source) : behind.InOrder file source where
  named := moves.file.trans h.named
  reads := moves.source.trans h.reads
  cursor :=
    let ⟨front, stands⟩ := h.cursor
    ⟨front ++ piece, stands.advances moves.cursor⟩
  current

theorem ofSource (file source : String) : (Lexer.ofSource file source).InOrder file source where
  named := rfl
  reads := rfl
  cursor := ⟨[], .ofText source⟩
  current := by simp [Lexer.ofSource]

/-- A request that fails, told by the gap that it has passed and the faulty text behind it. -/
theorem lawful_error (h : lexer.InOrder file source) {request : LexerRequest}
    {cause : LexicalFault} {gap rest : List Char}
    (served : lexer.serve request =
      (.error (lexer.fault (lexer.cursor.position.afterAll gap).line cause), behind))
    (moves : lexer.Advances piece behind) (current : behind.current = lexer.current)
    (text : lexer.cursor.rest = gap ++ rest) (isGap : IsGap gap rest)
    (noGap : request = .advance → gap = [])
    (faulty : Faulty cause rest ∨ rest = [] ∧ cause = .unexpectedEnd ∧ request = .advance) :
    (lexer.exchange request).Lawful file source := by
  obtain ⟨front, stands⟩ := h.cursor
  simp only [exchange, served]
  refine ⟨h, h.moves moves (by simpa [current] using h.current), moves.onward, ?_, ?_⟩
  · simp [LexerExchange.token?]
  · -- The line of the fault is counted from the front that the lexer stood behind.
    rintro fault ⟨⟩
    refine ⟨current, front, gap, rest, ?_, stands, isGap, noGap, ?_, faulty⟩
    · rw [stands.text, text, List.append_assoc]
    · rw [stands.position, ← Position.behind_append, Position.line_behind]
      simp [Lexer.fault, h.named]

/-- A request that takes a token. -/
theorem lawful_token (h : lexer.InOrder file source) {request : LexerRequest} {token : Token}
    (served : lexer.serve request = (.ok (.token (some token)), behind))
    (moves : lexer.Advances piece behind) (current : behind.current = some token)
    (genuine : token.Genuine source) (index : lexer.cursor.position.offset ≤ token.index)
    (finish : token.span.finish = behind.cursor.position.offset) :
    (lexer.exchange request).Lawful file source := by
  simp only [exchange, served]
  refine ⟨h, h.moves moves (by simpa [current] using genuine), moves.onward, ?_, by simp⟩
  rintro taken ⟨⟩
  exact ⟨current, index, finish⟩

/-- A request that takes nothing and does not fail. -/
theorem lawful_idle (h : lexer.InOrder file source) {request : LexerRequest} {answer : LexerAnswer}
    (served : lexer.serve request = (.ok answer, behind))
    (noToken : ∀ token, answer ≠ .token (some token))
    (moves : lexer.Advances piece behind)
    (current : ∀ token ∈ behind.current, token.Genuine source) :
    (lexer.exchange request).Lawful file source := by
  simp only [exchange, served]
  refine ⟨h, h.moves moves current, moves.onward, fun token taken => ?_, by simp⟩
  cases answer with
  | more => cases taken
  | token answer => exact absurd (congrArg _ taken) (noToken token)

theorem serve_advance (h : lexer.InOrder file source) :
    (lexer.exchange .advance).Lawful file source := by
  obtain ⟨front, stands⟩ := h.cursor
  obtain ⟨token, behind, took, moves, current, genuine, index, finish⟩ |
    ⟨cause, piece, behind, failed, moves, current, faulty⟩ := advance_cases stands
  · exact h.lawful_token (by rw [serve, took]; rfl) moves current genuine
      (Nat.le_of_eq index.symm) finish
  · have served : lexer.serve .advance =
        (.error (lexer.fault (lexer.cursor.position.afterAll []).line cause), behind) := by
      rw [serve, failed]
      rfl
    exact h.lawful_error served moves current rfl .nil (fun _ => rfl)
      (faulty.imp_right fun ⟨ended, cause⟩ => ⟨ended, cause, rfl⟩)

theorem serve_hasMore (h : lexer.InOrder file source) :
    (lexer.exchange .hasMore).Lawful file source := by
  obtain ⟨gap, rest, reached, text, isGap, current, ⟨passed, -, -, moves⟩ |
    ⟨failed, unclosed, moves⟩⟩ := lexer.hasMore_cases
  · exact h.lawful_idle (by rw [serve, passed]; rfl) (by simp) moves
      (by simpa [current] using h.current)
  · exact h.lawful_error (by rw [serve, failed]; rfl) moves current text isGap (by simp)
      (.inl unclosed)

/-- Moving to the next token and taking it is one request. -/
theorem serve_next (h : lexer.InOrder file source) :
    (lexer.exchange .next).Lawful file source := by
  obtain ⟨front, stands⟩ := h.cursor
  obtain ⟨gap, rest, reached, text, isGap, same, ⟨passed, -, left, moves⟩ |
    ⟨failed, unclosed, moves⟩⟩ := lexer.hasMore_cases
  · by_cases ended : rest = []
    · subst ended
      have served : lexer.serve .next =
          (.ok (.token none), { reached with current := none }) := by
        rw [serve, next, passed]
        rfl
      exact h.lawful_idle served (by simp) ⟨moves.cursor, moves.source, moves.file⟩ (by simp)
    have more : (!rest.isEmpty) = true := by simpa using ended
    -- The token is taken by the lexer that stands behind the gap.
    obtain ⟨token, behind, took, onward, current, genuine, index, finish⟩ |
      ⟨cause, piece, behind, failed, onward, current, faulty⟩ :=
        advance_cases (stands.advances moves.cursor)
    · refine h.lawful_token ?_ (moves.trans onward) current genuine
        (Nat.le_trans moves.onward (Nat.le_of_eq index.symm)) finish
      rw [serve, next, passed, more]
      simp only [took]
      rfl
    · rw [left] at faulty
      refine h.lawful_error ?_ (moves.trans onward) (current.trans same) text isGap (by simp)
        (.inl (faulty.resolve_right fun none => ended none.1))
      rw [serve, next, passed, more]
      simp only [failed, line, moves.cursor.position, fault, moves.file]
      rfl
  · exact h.lawful_error (by rw [serve, next, failed]; rfl) moves same text isGap (by simp)
      (.inl unclosed)

/-- **One request is lawful**, whatever it is and wherever the lexer stands. -/
theorem serve (h : lexer.InOrder file source) (request : LexerRequest) :
    (lexer.exchange request).Lawful file source := by
  cases request with
  | hasMore => exact h.serve_hasMore
  | advance => exact h.serve_advance
  | next => exact h.serve_next

end InOrder

/-! ### Any requests -/

/-- The tokens that were taken, in their order. -/
def takenBy (exchanges : List LexerExchange) : List Token :=
  exchanges.filterMap LexerExchange.token?

/-- What requests keep, and that they leave a lexer in order. -/
theorem InOrder.serveAll (h : lexer.InOrder file source) (requests : List LexerRequest) :
    (lexer.serveAll requests).2.InOrder file source ∧
      ∀ exchange ∈ (lexer.serveAll requests).1, exchange.Lawful file source := by
  induction requests generalizing lexer with
  | nil => exact ⟨h, by simp [Lexer.serveAll]⟩
  | cons request requests ih =>
    have one := h.serve request
    have ⟨final, all⟩ := ih one.behind
    exact ⟨final, List.forall_mem_cons.mpr ⟨one, all⟩⟩

/-- No token that is taken begins in front of the cursor. -/
theorem InOrder.offset_le_index (h : lexer.InOrder file source) (requests : List LexerRequest) :
    ∀ token ∈ takenBy (lexer.serveAll requests).1,
      lexer.cursor.position.offset ≤ token.index := by
  induction requests generalizing lexer with
  | nil => simp [takenBy, Lexer.serveAll]
  | cons request requests ih =>
    have one := h.serve request
    intro token mem
    obtain ⟨exchange, among, took⟩ := List.mem_filterMap.mp mem
    obtain rfl | among := List.mem_cons.mp among
    · exact (one.takes token took).2.1
    · exact Nat.le_trans one.onward
        (ih one.behind token (List.mem_filterMap.mpr ⟨exchange, among, took⟩))

/-- The tokens that are taken follow one another. -/
theorem InOrder.pairwise_takenBy (h : lexer.InOrder file source) (requests : List LexerRequest) :
    (takenBy (lexer.serveAll requests).1).Pairwise fun earlier later =>
      earlier.span.finish ≤ later.index := by
  induction requests generalizing lexer with
  | nil => simp [takenBy, Lexer.serveAll]
  | cons request requests ih =>
    have one := h.serve request
    rw [takenBy, Lexer.serveAll, List.filterMap_cons]
    cases took : (lexer.exchange request).token? with
    | none => exact ih one.behind
    | some token =>
      -- The cursor is behind this token, and the tokens that follow are not in front of it.
      refine List.pairwise_cons.mpr ⟨fun later mem => ?_, ih one.behind⟩
      rw [(one.takes token took).2.2]
      exact one.behind.offset_le_index requests later mem

/-- **A lexer stays in order under any use.** Whatever it is asked, and in whatever order, the
cursor stands behind whole characters of the source and counts their lines, each token fits the
source and is behind all that were taken before it, and a request that fails leaves the current
token as it was and names the line of what is wrong. -/
theorem lawful_serveAll (file source : String) (requests : List LexerRequest) :
    (serveAll requests (.ofSource file source)).2.InOrder file source ∧
      (∀ exchange ∈ (serveAll requests (.ofSource file source)).1,
        exchange.Lawful file source) ∧
      (takenBy (serveAll requests (.ofSource file source)).1).Pairwise fun earlier later =>
        earlier.span.finish ≤ later.index :=
  have start := InOrder.ofSource file source
  ⟨(start.serveAll requests).1, (start.serveAll requests).2, start.pairwise_takenBy requests⟩

/-- A slash that opens a comment is a symbol to a lexer that has not been asked to pass the gap. The
string behind it has no end, and what is behind that is the end of the source. -/
example : (takenBy (serveAll [.advance, .next, .advance, .next] (.ofSource "A.jack" "/*\"")).1).map
    Token.text = ["/", "*"] := by
  decide +kernel

end Lexer

end JackCompiler
