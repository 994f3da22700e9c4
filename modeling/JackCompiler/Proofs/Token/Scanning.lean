import JackCompiler.Proofs.Token.LexicalGrammar

/-!
# Scanning by the lexical grammar

A lexer passes each gap as a whole, takes each token as a whole, and reports each fault where it
begins. Since every text falls apart into these, and a lexer has only one answer, there is only one
way in which it does.

## Main results

* `Gap.skip_of_isGap`, `Cursor.token_of_lexeme` — gaps and tokens are passed as a whole
* `Lexer.scans_toEnd`, `Lexer.toEnd_iff_scans` — the tokens of a source are those of the lexical
  grammar
-/

namespace JackCompiler

/-! ### Gaps -/

namespace Gap

-- All lemmas on gaps rest on the equations of the scan.
attribute [local simp] skip

/-- A block comment is passed up to its first closing. -/
theorem skip_closed {inside : List Char} (unclosed : Unclosed inside) (behind : List Char)
    (opened : Nat) (p : Position) : skip (.blockComment opened) (inside ++ '*' :: '/' :: behind) p =
      skip .blank behind (p.afterAll (inside ++ ['*', '/'])) := by
  induction inside generalizing p with
  | nil => simp
  | cons c inside ih =>
    rw [unclosed_cons] at unclosed
    have goesOn : ∀ rest, c = '*' → inside ++ '*' :: '/' :: behind = '/' :: rest → False := by
      rintro rest rfl next
      cases inside with
      | nil => simp at next
      | cons d inside =>
        obtain ⟨rfl, -⟩ := List.cons.inj next
        exact unclosed.1 ⟨inside, rfl⟩
    rw [List.cons_append, skip.eq_6 _ _ _ _ goesOn, ih unclosed.2]
    rfl

/-- A block comment without a closing is passed to the end, and its opening is remembered. -/
theorem skip_unclosed {inside : List Char} (unclosed : Unclosed inside) (opened : Nat)
    (p : Position) : skip (.blockComment opened) inside p =
      ({ rest := [], position := p.afterAll inside }, some opened) := by
  induction inside generalizing p with
  | nil => simp
  | cons c inside ih =>
    rw [unclosed_cons] at unclosed
    have goesOn : ∀ rest, c = '*' → inside = '/' :: rest → False := by
      rintro rest rfl rfl
      exact unclosed.1 ⟨rest, rfl⟩
    rw [skip.eq_6 _ _ _ _ goesOn, ih unclosed.2]
    rfl

theorem skip_sameLine {inside : List Char} (sameLine : ∀ c ∈ inside, endsLineComment c = false)
    (behind : List Char) (p : Position) : skip .lineComment (inside ++ behind) p =
      skip .lineComment behind (p.afterAll inside) := by
  induction inside generalizing p with
  | nil => rfl
  | cons c inside ih =>
    rw [List.forall_mem_cons] at sameLine
    rw [List.cons_append, skip, sameLine.1, if_neg Bool.false_ne_true, ih sameLine.2]
    rfl

theorem skip_blank {c : Char} (blank : isBlank c = true) (text : List Char) (p : Position) :
    skip .blank (c :: text) p = skip .blank text (p.after c) := by
  have notSlash : c ≠ '/' := by
    rintro rfl
    exact absurd blank (by decide)
  rw [skip.eq_3 _ _ _ (fun _ slash => absurd slash notSlash)
    (fun _ slash => absurd slash notSlash), if_pos blank]

/-- A gap is passed as a whole. -/
theorem skip_of_isGap {gap behind : List Char} (isGap : IsGap gap behind) (p : Position) :
    skip .blank (gap ++ behind) p = skip .blank behind (p.afterAll gap) := by
  induction isGap generalizing p with
  | nil => rfl
  | blank h _ ih => rw [List.cons_append, skip_blank h, ih, Position.afterAll_cons]
  | @blockComment inside gap behind unclosed _ ih =>
    have parts : '/' :: '*' :: inside ++ '*' :: '/' :: gap ++ behind =
      '/' :: '*' :: (inside ++ '*' :: '/' :: (gap ++ behind)) := by simp
    rw [parts, skip, skip_closed unclosed, ih]
    simp [Position.afterAll_append]
  | @lineComment inside gap behind stop sameLine ends _ ih =>
    have parts : '/' :: '/' :: inside ++ stop :: gap ++ behind =
      '/' :: '/' :: (inside ++ stop :: (gap ++ behind)) := by simp
    rw [parts, skip, skip_sameLine sameLine, skip, if_pos ends, ih]
    simp [Position.afterAll_append]
  | @lastLine inside sameLine =>
    rw [List.append_nil, skip, ← List.append_nil inside, skip_sameLine sameLine]
    simp

/-- Where a gap ends, nothing more is passed. -/
theorem skip_of_endsGap {text : List Char} (ends : EndsGap text) (p : Position) :
    skip .blank text p = ({ rest := text, position := p }, none) := by
  cases text with
  | nil => simp
  | cons c text =>
    have notBlank : isBlank c = false := by simpa using ends.notBlank
    rw [skip.eq_3, notBlank]
    · rfl
    · rintro rest rfl rfl
      exact ends.noComment (.inl ⟨rest, rfl⟩)
    · rintro rest rfl rfl
      exact ends.noComment (.inr ⟨rest, rfl⟩)

end Gap

theorem endsGap_of_ne_slash {c : Char} {text : List Char} (notBlank : isBlank c = false)
    (notSlash : c ≠ '/') : EndsGap (c :: text) :=
  ⟨by simpa using notBlank, by simp [OpensComment, notSlash.symm]⟩

theorem endsGap_of_isWordPart {c : Char} {text : List Char} (part : isWordPart c = true) :
    EndsGap (c :: text) := by
  have noPart {d : Char} (other : isWordPart d = false) : c ≠ d := by
    rintro rfl
    simp [part] at other
  refine endsGap_of_ne_slash ?_ (noPart (by decide))
  simp [isBlank, noPart (d := ' ') (by decide), noPart (d := '\t') (by decide),
    noPart (d := '\n') (by decide), noPart (d := '\r') (by decide)]

theorem endsGap_of_isDigit {digits behind : List Char} (nonempty : digits ≠ [])
    (all : ∀ c ∈ digits, c.isDigit = true) : EndsGap (digits ++ behind) := by
  cases digits with
  | nil => exact absurd rfl nonempty
  | cons first digits => exact endsGap_of_isWordPart (by simp [isWordPart, all first (by simp)])

/-! ### Tokens -/

namespace IsRun

variable {p : Char → Bool} {piece behind : List Char}

theorem takeWhile_eq (run : IsRun p piece behind) : (piece ++ behind).takeWhile p = piece := by
  rw [List.takeWhile_append_of_pos run.all]
  cases behind with
  | nil => simp
  | cons c behind => simp [run.longest c rfl]

theorem dropWhile_eq (run : IsRun p piece behind) : (piece ++ behind).dropWhile p = behind := by
  rw [List.dropWhile_append_of_pos run.all]
  cases behind with
  | nil => rfl
  | cons c behind => simp [run.longest c rfl]

/-- A cursor in front of a run passes it as a whole. -/
theorem run_eq (run : IsRun p piece behind) (position : Position) :
    Cursor.run { rest := piece ++ behind, position } p =
      (piece, { rest := behind, position := position.afterAll piece }) := by
  simp [Cursor.run, run.takeWhile_eq, run.dropWhile_eq]

end IsRun

/-- The value of digits never falls below what is there in front of them. -/
theorem le_ofDigitChars (digits : List Char) (value : Nat) :
    value ≤ Nat.ofDigitChars 10 digits value := by
  induction digits generalizing value with
  | nil => simp
  | cons digit digits ih =>
    rw [Nat.ofDigitChars_cons]
    exact Nat.le_trans (by omega) (ih _)

/-- A number has its decimal value, however many digits it has, if that is within range. -/
theorem decimalValue?_eq (digits : List Char) : decimalValue? digits =
    if Nat.ofDigitChars 10 digits 0 ≤ maxInteger then some (Nat.ofDigitChars 10 digits 0)
    else none := by
  -- The value in front of the remaining digits is within range as long as the fold goes on.
  have from' (value : Nat) (small : value ≤ maxInteger) : digits.foldlM (fun value digit =>
      let next := 10 * value + (digit.toNat - '0'.toNat)
      if next ≤ maxInteger then some next else none) value =
        if Nat.ofDigitChars 10 digits value ≤ maxInteger
        then some (Nat.ofDigitChars 10 digits value) else none := by
    induction digits generalizing value with
    | nil => simp [small]
    | cons digit digits ih =>
      rw [List.foldlM_cons, Nat.ofDigitChars_cons]
      dsimp only
      generalize 10 * value + (digit.toNat - '0'.toNat) = next
      by_cases inRange : next ≤ maxInteger
      · rw [if_pos inRange]
        exact ih next inRange
      · have grows := le_ofDigitChars digits next
        rw [if_neg inRange, if_neg (by omega)]
        rfl
  exact from' 0 (by decide)

theorem ofWord_text (word : Keyword) : TokenKind.ofWord word.text = .keyword word := by
  rw [TokenKind.ofWord, Keyword.ofText?_text]

theorem ofWord_of_notReserved {text : String} (notReserved : ∀ word : Keyword, word.text ≠ text) :
    TokenKind.ofWord text = .identifier := by
  cases found : Keyword.ofText? text with
  | none => rw [TokenKind.ofWord, found]
  | some word => exact absurd (Keyword.text_of_ofText? found) (notReserved word)

theorem isWordStart_of_keyword (word : Keyword) :
    ∃ first parts, word.text.toList = first :: parts ∧ isWordStart first = true := by
  cases word <;> exact ⟨_, _, rfl, by decide⟩

/-- What is behind a gap is no gap if it begins with a token. -/
theorem Lexeme.endsGap {kind : TokenKind} {piece behind : List Char}
    (lexeme : Lexeme kind piece behind) : EndsGap (piece ++ behind) := by
  cases lexeme with
  | @keyword word =>
    obtain ⟨first, parts, spelled, starts⟩ := isWordStart_of_keyword word
    rw [spelled]
    exact endsGap_of_isWordPart (by simp [isWordPart, starts])
  | identifier starts => exact endsGap_of_isWordPart (by simp [isWordPart, starts])
  | integer nonempty run => exact endsGap_of_isDigit nonempty run.all
  | string => exact endsGap_of_ne_slash (by decide) (by decide)
  | symbol ends => exact ends

/-- Digits stand in front of all letters. -/
theorem not_isWordStart_of_isDigit {c : Char} (digit : c.isDigit = true) :
    isWordStart c = false := by
  have small : c.val ≤ '9'.val := of_decide_eq_true (Bool.and_eq_true_iff.mp digit).2
  have notLetter : c.isAlpha = false := by
    change (decide (c.val ≥ 'A'.val ∧ c.val ≤ 'Z'.val) ||
      decide (c.val ≥ 'a'.val) && decide (c.val ≤ 'z'.val)) = false
    grind
  have notUnderscore : c ≠ '_' := by
    rintro rfl
    exact absurd small (by decide)
  simp [isWordStart, notLetter, notUnderscore]

/-- No token is empty. -/
theorem Lexeme.ne_nil {kind : TokenKind} {piece behind : List Char}
    (lexeme : Lexeme kind piece behind) : piece ≠ [] := by
  cases lexeme with
  | @keyword word =>
    obtain ⟨first, parts, spelled, -⟩ := isWordStart_of_keyword word
    simp [spelled]
  | integer nonempty => exact nonempty
  | identifier | string | symbol => simp

namespace Cursor

variable {position : Position}

theorem token_of_word {first : Char} {parts behind : List Char}
    (starts : isWordStart first = true) (run : IsRun isWordPart (first :: parts) behind) :
    Cursor.token { rest := first :: parts ++ behind, position } =
      (.ok (Cursor.tokenOf { rest := first :: parts ++ behind, position }
        (.ofWord (String.ofList (first :: parts))) (first :: parts)),
      { rest := behind, position := position.afterAll (first :: parts) }) := by
  simp only [token, List.cons_append, starts, if_true]
  rw [← List.cons_append, run.run_eq]

theorem token_of_digits {digits behind : List Char} (nonempty : digits ≠ [])
    (run : IsRun Char.isDigit digits behind) :
    Cursor.token { rest := digits ++ behind, position } =
      (match decimalValue? digits with
        | some _ => .ok (Cursor.tokenOf { rest := digits ++ behind, position } .integer digits)
        | none => .error (.integerOverflow (String.ofList digits)),
      { rest := behind, position := position.afterAll digits }) := by
  cases digits with
  | nil => exact absurd rfl nonempty
  | cons first digits =>
    have digit := run.all first (by simp)
    simp only [token, List.cons_append, not_isWordStart_of_isDigit digit, digit, if_true,
      Bool.false_eq_true, if_false]
    rw [← List.cons_append, run.run_eq]
    cases decimalValue? (first :: digits) <;> rfl

/-- A token is taken as a whole, whatever kind it is of. -/
theorem token_of_lexeme {kind : TokenKind} {piece behind : List Char}
    (lexeme : Lexeme kind piece behind) :
    Cursor.token { rest := piece ++ behind, position } =
      (.ok (Cursor.tokenOf { rest := piece ++ behind, position } kind piece),
        { rest := behind, position := position.afterAll piece }) := by
  cases lexeme with
  | @keyword word _ run =>
    obtain ⟨first, parts, spelled, starts⟩ := isWordStart_of_keyword word
    have kind : TokenKind.ofWord (String.ofList (first :: parts)) = .keyword word := by
      rw [← spelled, String.ofList_toList, ofWord_text]
    rw [spelled] at run ⊢
    rw [token_of_word starts run, kind]
  | @identifier first parts _ starts run notReserved =>
    have kind : TokenKind.ofWord (String.ofList (first :: parts)) = .identifier := by
      refine ofWord_of_notReserved fun word same => notReserved word ?_
      rw [same, String.toList_ofList]
    rw [token_of_word starts run, kind]
  | integer nonempty run inRange =>
    rw [token_of_digits nonempty run, decimalValue?_eq, if_pos inRange]
  | @string contents _ quotable =>
    have run : IsRun isQuotable contents ('"' :: behind) :=
      ⟨quotable, by simp [isQuotable]⟩
    have parts : '"' :: contents ++ ['"'] ++ behind = '"' :: (contents ++ '"' :: behind) := by simp
    rw [parts, token]
    simp [run.run_eq, isWordStart, Position.afterAll_append, tokenOf]
  | @symbol c _ ends notWord notQuote =>
    simp only [isWordPart, Bool.or_eq_false_iff] at notWord
    simp [token, notWord, notQuote]

end Cursor

/-! ### Faults -/

/-- A text that begins with a fault other than a comment is behind a gap, and no token is taken
there. -/
theorem Faulty.token_eq {cause : LexicalFault} {text : List Char} (faulty : Faulty cause text) :
    (cause = .unterminatedComment ∧ ∃ inside, text = '/' :: '*' :: inside ∧ Unclosed inside) ∨
      EndsGap text ∧ text ≠ [] ∧ ∀ position, ∃ reached,
        Cursor.token { rest := text, position } = (.error cause, reached) := by
  cases faulty with
  | unterminatedComment unclosed => exact .inl ⟨rfl, _, rfl, unclosed⟩
  | @integerOverflow digits behind run tooLarge =>
    have nonempty : digits ≠ [] := by
      rintro rfl
      simp at tooLarge
    refine .inr ⟨endsGap_of_isDigit nonempty run.all, by simp [nonempty], fun position =>
      ⟨{ rest := behind, position := position.afterAll digits }, ?_⟩⟩
    rw [Cursor.token_of_digits nonempty run, decimalValue?_eq, if_neg (by omega)]
  | @unterminatedString contents quotable =>
    refine .inr ⟨endsGap_of_ne_slash (by decide) (by decide), by simp, fun position => ?_⟩
    have run : IsRun isQuotable contents [] := ⟨quotable, by simp⟩
    refine ⟨{ rest := [], position := (position.after '"').afterAll contents }, ?_⟩
    have passed := run.run_eq (position.after '"')
    rw [List.append_nil] at passed
    simp [Cursor.token, isWordStart, passed]
  | @nonAsciiString contents behind c quotable notAscii =>
    refine .inr ⟨endsGap_of_ne_slash (by decide) (by decide), by simp, fun position => ?_⟩
    have run : IsRun isQuotable contents (c :: behind) :=
      ⟨quotable, by simp [isQuotable, notAscii]⟩
    have notQuote : c ≠ '"' := by
      rintro rfl
      exact absurd notAscii (by decide)
    refine ⟨{ rest := behind, position := ((position.after '"').afterAll contents).after c }, ?_⟩
    simp [Cursor.token, isWordStart, run.run_eq, notQuote]

/-! ### Sources -/

/-- The position behind a front of a source. -/
def Position.behind (front : List Char) : Position :=
  ({} : Position).afterAll front

theorem Position.behind_append (front piece : List Char) :
    Position.behind (front ++ piece) = (Position.behind front).afterAll piece :=
  Position.afterAll_append _ _ _

theorem Position.line_behind (front : List Char) :
    (Position.behind front).line = front.count '\n' + 1 := by
  rw [behind, line_afterAll, Nat.add_comm]

theorem Position.offset_behind (front : List Char) :
    (Position.behind front).offset = byteLength front := by
  rw [behind, offset_afterAll, Nat.zero_add]

/-- The token that a cursor takes is the only one that says what it is made from. -/
theorem Token.Covers.eq_tokenOf {token : Token} {kind : TokenKind} {front piece rest : List Char}
    (covers : token.Covers kind front piece) :
    token = Cursor.tokenOf { rest, position := Position.behind front } kind piece := by
  obtain ⟨kind', text, line, index⟩ := token
  obtain ⟨rfl, rfl, span, rfl⟩ := covers
  obtain rfl : index = byteLength front := congrArg Span.index span
  simp [Cursor.tokenOf, Position.line_behind, Position.offset_behind]

namespace Lexer

variable {lexer : Lexer} {front gap rest : List Char}

theorem hasMore_of_isGap (isGap : IsGap gap rest) (ends : EndsGap rest)
    (atGap : lexer.cursor = { rest := gap ++ rest, position := .behind front }) :
    lexer.hasMore = (.ok !rest.isEmpty,
      { lexer with cursor := { rest, position := .behind (front ++ gap) } }) := by
  rw [hasMore, atGap, Cursor.skipGap, Gap.skip_of_isGap isGap, Gap.skip_of_endsGap ends,
    Position.behind_append]

/-- At the end of a source there is no token. -/
theorem next_of_done (isGap : IsGap gap [])
    (atGap : lexer.cursor = { rest := gap, position := .behind front }) :
    ∃ behind, lexer.next = (.ok none, behind) := by
  have ends : EndsGap [] := ⟨by simp, by simp [OpensComment]⟩
  rw [← List.append_nil gap] at atGap
  exact ⟨_, by rw [next, hasMore_of_isGap isGap ends atGap]; rfl⟩

/-- A fault is reported where it begins. -/
theorem next_of_faulty {cause : LexicalFault} (isGap : IsGap gap rest) (faulty : Faulty cause rest)
    (atGap : lexer.cursor = { rest := gap ++ rest, position := .behind front }) :
    ∃ behind,
      lexer.next = (.error (lexer.fault ((front ++ gap).count '\n' + 1) cause), behind) := by
  obtain ⟨rfl, inside, rfl, unclosed⟩ | ⟨ends, nonempty, noToken⟩ := faulty.token_eq
  · obtain ⟨reached, passed⟩ : ∃ reached, lexer.cursor.skipGap =
        (reached, some (Position.behind (front ++ gap)).line) := by
      rw [atGap, Cursor.skipGap, Gap.skip_of_isGap isGap, Gap.skip, Gap.skip_unclosed unclosed,
        ← Position.behind_append]
      exact ⟨_, rfl⟩
    exact ⟨{ lexer with cursor := reached }, by rw [next, hasMore, passed, Position.line_behind]⟩
  · obtain ⟨reached, stops⟩ := noToken (.behind (front ++ gap))
    have more : (!rest.isEmpty) = true := by simpa using nonempty
    refine ⟨{ lexer with cursor := reached }, ?_⟩
    rw [next, hasMore_of_isGap isGap ends atGap, more]
    simp [advance, stops, Lexer.line, Position.line_behind, Lexer.fault]

/-- A token is taken behind its gap. -/
theorem next_of_lexeme {piece behind : List Char} {kind : TokenKind} {token : Token}
    (isGap : IsGap gap (piece ++ behind)) (lexeme : Lexeme kind piece behind)
    (covers : token.Covers kind (front ++ gap) piece)
    (atGap : lexer.cursor = { rest := gap ++ piece ++ behind, position := .behind front }) :
    lexer.next = (.ok (some token), { lexer with
      cursor := { rest := behind, position := .behind (front ++ gap ++ piece) }
      current := some token }) := by
  have more : (!(piece ++ behind).isEmpty) = true := by simp [lexeme.ne_nil]
  rw [List.append_assoc] at atGap
  rw [next, hasMore_of_isGap isGap lexeme.endsGap atGap, more]
  simp only [advance, Cursor.token_of_lexeme lexeme, ← Position.behind_append]
  rw [← covers.eq_tokenOf]

/-- A lexer that stands behind a front of a source reads what the text behind it scans to. -/
theorem readFrom_of_scans {file : String} {text : List Char} {tokens : List Token}
    {fault : Option (Located LexicalFault)} (scans : Scans file front text tokens fault) :
    ∀ (lexer : Lexer) (read : Array Token) (bound : Nat), lexer.file = file →
      lexer.cursor = { rest := text, position := .behind front } → text.length < bound →
      (readFrom read bound lexer).tokens.toList = read.toList ++ tokens ∧
        (readFrom read bound lexer).fault = fault := by
  induction scans with
  | done isGap =>
    intro lexer read bound _ atGap long
    obtain ⟨bound, rfl⟩ : ∃ n, bound = n + 1 := ⟨bound - 1, by omega⟩
    obtain ⟨behind, next⟩ := next_of_done isGap atGap
    simp [readFrom, next]
  | fault isGap faulty =>
    rintro lexer read bound rfl atGap long
    obtain ⟨bound, rfl⟩ : ∃ n, bound = n + 1 := ⟨bound - 1, by omega⟩
    obtain ⟨behind, next⟩ := next_of_faulty isGap faulty atGap
    simp [readFrom, next, Lexer.fault]
  | @token front gap piece behind kind token tokens fault isGap lexeme covers rest ih =>
    intro lexer read bound ofFile atGap long
    obtain ⟨bound, rfl⟩ : ∃ n, bound = n + 1 := ⟨bound - 1, by omega⟩
    have next := next_of_lexeme isGap lexeme covers atGap
    have shorter : behind.length < bound := by
      have := List.length_pos_iff.mpr lexeme.ne_nil
      simp only [List.length_append] at long
      omega
    rw [readFrom, next]
    simpa using ih { lexer with
      cursor := { rest := behind, position := .behind (front ++ gap ++ piece) }
      current := some token } (read.push token) bound ofFile rfl shorter

/-- No text has more tokens than characters. -/
theorem length_le_of_scans {file : String} {text : List Char} {tokens : List Token}
    {fault : Option (Located LexicalFault)} (scans : Scans file front text tokens fault) :
    tokens.length ≤ text.length := by
  induction scans with
  | done | fault => simp
  | token _ lexeme _ _ ih =>
    have := List.length_pos_iff.mpr lexeme.ne_nil
    simp only [List.length_cons, List.length_append]
    omega

/-- What a source scans to is what is read of it. -/
theorem toEnd_of_scans {file source : String} {tokens : List Token}
    {fault : Option (Located LexicalFault)} (scans : Scans file [] source.toList tokens fault) :
    (ofSource file source).toEnd.tokens.toList = tokens ∧
      (ofSource file source).toEnd.fault = fault := by
  have enough : source.toList.length < (ofSource file source).bytesLeft + 1 := by
    have := length_le_byteLength source.toList
    rw [byteLength_toList] at this
    simp only [bytesLeft, ofSource, Cursor.ofText]
    omega
  simpa [toEnd] using readFrom_of_scans scans (ofSource file source) #[] _ rfl rfl enough

/-- What is read of a source is what it scans to. -/
theorem scans_toEnd (file source : String) : Scans file [] source.toList
    (ofSource file source).toEnd.tokens.toList (ofSource file source).toEnd.fault := by
  obtain ⟨tokens, fault, scans⟩ := exists_scans file [] source.toList
  obtain ⟨rfl, rfl⟩ := toEnd_of_scans scans
  exact scans

/-- **The lexer implements its grammar.** What is read of a source, up to its end or the first
fault, is what the source scans to, and there is only one way in which it scans. -/
theorem toEnd_iff_scans (file source : String) (tokens : List Token)
    (fault : Option (Located LexicalFault)) :
    (ofSource file source).toEnd.tokens.toList = tokens ∧
        (ofSource file source).toEnd.fault = fault ↔
      Scans file [] source.toList tokens fault := by
  constructor
  · rintro ⟨rfl, rfl⟩
    exact scans_toEnd file source
  · exact toEnd_of_scans

end Lexer

end JackCompiler
