import JackCompiler.Proofs.Token.Progress

/-!
# The lexical grammar

A source is a sequence of tokens with gaps between them. Which piece of the text a gap or a token is
depends on the text behind it, so that text is part of every rule: words and numbers are as long as
possible, and a slash that begins a comment is no symbol. The rules do not say how a text is
scanned. They only tell gaps, tokens and faults, and every text falls apart into these in some way.

## Main definitions

* `IsGap`, `Lexeme`, `Faulty` — gaps, tokens by their kinds, and what is neither
* `Token.Covers` — a token that says what it is made from
* `Scans` — the tokens of a text up to its end or its first fault

## Main results

* `exists_scans` — every text falls apart into gaps and tokens, up to its end or its first fault
-/

namespace JackCompiler

/-- A piece of text that is a longest run of a class of characters, in front of the given text. -/
structure IsRun (p : Char → Bool) (piece behind : List Char) : Prop where
  all : ∀ c ∈ piece, p c = true
  longest : ∀ c ∈ behind.head?, p c = false

/-- No block comment is closed inside the text. -/
def Unclosed (inside : List Char) : Prop :=
  ¬ ['*', '/'] <:+: inside

/-- A comment stands at the front of the text. -/
def OpensComment (text : List Char) : Prop :=
  ['/', '/'] <+: text ∨ ['/', '*'] <+: text

/-- Neither a blank nor a comment stands at the front of the text. -/
structure EndsGap (text : List Char) : Prop where
  notBlank : ∀ c ∈ text.head?, isBlank c = false
  noComment : ¬ OpensComment text

/-- A gap, in front of the given text. A block comment ends with the first closing behind its
opening, and a line comment with the first line end or the text. -/
inductive IsGap : List Char → List Char → Prop where
  | nil {behind : List Char} : IsGap [] behind
  | blank {c : Char} {gap behind : List Char} (h : isBlank c = true) (rest : IsGap gap behind) :
    IsGap (c :: gap) behind
  | blockComment {inside gap behind : List Char} (unclosed : Unclosed inside)
    (rest : IsGap gap behind) : IsGap ('/' :: '*' :: inside ++ '*' :: '/' :: gap) behind
  | lineComment {inside gap behind : List Char} {stop : Char}
    (sameLine : ∀ c ∈ inside, endsLineComment c = false) (ends : endsLineComment stop = true)
    (rest : IsGap gap behind) : IsGap ('/' :: '/' :: inside ++ stop :: gap) behind
  | lastLine {inside : List Char} (sameLine : ∀ c ∈ inside, endsLineComment c = false) :
    IsGap ('/' :: '/' :: inside) []

/-- A piece of text that is a token of a kind, in front of the given text. -/
inductive Lexeme : TokenKind → List Char → List Char → Prop where
  | keyword {word : Keyword} {behind : List Char}
    (run : IsRun isWordPart word.text.toList behind) :
    Lexeme (.keyword word) word.text.toList behind
  | identifier {first : Char} {parts behind : List Char} (starts : isWordStart first = true)
    (run : IsRun isWordPart (first :: parts) behind)
    (notReserved : ∀ word : Keyword, word.text.toList ≠ first :: parts) :
    Lexeme .identifier (first :: parts) behind
  | integer {digits behind : List Char} (nonempty : digits ≠ [])
    (run : IsRun Char.isDigit digits behind)
    (inRange : Nat.ofDigitChars 10 digits 0 ≤ maxInteger) : Lexeme .integer digits behind
  | string {contents behind : List Char} (quotable : ∀ c ∈ contents, isQuotable c = true) :
    Lexeme .string ('"' :: contents ++ ['"']) behind
  | symbol {c : Char} {behind : List Char} (ends : EndsGap (c :: behind))
    (notWord : isWordPart c = false) (notQuote : c ≠ '"') : Lexeme (.symbol c) [c] behind

/-- A text that begins with neither a gap nor a token. -/
inductive Faulty : LexicalFault → List Char → Prop where
  | unterminatedComment {inside : List Char} (unclosed : Unclosed inside) :
    Faulty .unterminatedComment ('/' :: '*' :: inside)
  | integerOverflow {digits behind : List Char} (run : IsRun Char.isDigit digits behind)
    (tooLarge : maxInteger < Nat.ofDigitChars 10 digits 0) :
    Faulty (.integerOverflow (String.ofList digits)) (digits ++ behind)
  | unterminatedString {contents : List Char} (quotable : ∀ c ∈ contents, isQuotable c = true) :
    Faulty .unterminatedString ('"' :: contents)
  | nonAsciiString {contents behind : List Char} {c : Char}
    (quotable : ∀ c ∈ contents, isQuotable c = true) (notAscii : isAscii c = false) :
    Faulty (.nonAsciiString c) ('"' :: contents ++ c :: behind)

/-- A token says what it is made from: a piece of a kind, behind the given front of the source. -/
structure Token.Covers (token : Token) (kind : TokenKind) (front piece : List Char) : Prop where
  kind : token.kind = kind
  text : token.text = String.ofList piece
  span : token.span = { index := byteLength front, size := byteLength piece }
  line : token.line = front.count '\n' + 1

/-- The tokens of a text behind the given front of a source, and the fault that they end with, if
they do not end with the text. -/
inductive Scans (file : String) :
    List Char → List Char → List Token → Option (Located LexicalFault) → Prop where
  | done {front gap : List Char} (isGap : IsGap gap []) : Scans file front gap [] none
  | fault {front gap rest : List Char} {cause : LexicalFault} (isGap : IsGap gap rest)
    (faulty : Faulty cause rest) : Scans file front (gap ++ rest) []
      (some { location := { file, line := (front ++ gap).count '\n' + 1 }, cause })
  | token {front gap piece behind : List Char} {kind : TokenKind} {token : Token}
    {tokens : List Token} {fault : Option (Located LexicalFault)}
    (isGap : IsGap gap (piece ++ behind)) (lexeme : Lexeme kind piece behind)
    (covers : token.Covers kind (front ++ gap) piece)
    (rest : Scans file (front ++ gap ++ piece) behind tokens fault) :
    Scans file front (gap ++ piece ++ behind) (token :: tokens) fault

/-! ### Runs and comments -/

theorem isRun_takeWhile (p : Char → Bool) (text : List Char) :
    IsRun p (text.takeWhile p) (text.dropWhile p) where
  all := List.all_eq_true.mp List.all_takeWhile
  longest c mem := by
    have stops := List.head?_dropWhile_not p text
    rw [Option.mem_def.mp mem] at stops
    simpa using stops

/-- Every text is a longest run and what is behind it. -/
theorem exists_isRun (p : Char → Bool) (text : List Char) :
    ∃ piece behind, text = piece ++ behind ∧ IsRun p piece behind :=
  ⟨_, _, List.takeWhile_append_dropWhile.symm, isRun_takeWhile p text⟩

theorem unclosed_nil : Unclosed [] := by
  simp [Unclosed]

theorem unclosed_cons {c : Char} {inside : List Char} :
    Unclosed (c :: inside) ↔ ¬ ['*', '/'] <+: c :: inside ∧ Unclosed inside := by
  rw [Unclosed, List.infix_cons_iff, not_or, Unclosed]

/-- A text in which comments are closed has a first closing. -/
theorem unclosed_or_exists (text : List Char) :
    Unclosed text ∨ ∃ inside behind, text = inside ++ '*' :: '/' :: behind ∧ Unclosed inside := by
  induction text with
  | nil => exact .inl unclosed_nil
  | cons c text ih =>
    by_cases closes : ['*', '/'] <+: c :: text
    · obtain ⟨behind, closed⟩ := closes
      exact .inr ⟨[], behind, closed.symm, unclosed_nil⟩
    · obtain unclosed | ⟨inside, behind, rfl, unclosed⟩ := ih
      · exact .inl (unclosed_cons.mpr ⟨closes, unclosed⟩)
      · refine .inr ⟨c :: inside, behind, rfl, unclosed_cons.mpr ⟨fun early => closes ?_, unclosed⟩⟩
        exact early.trans (List.prefix_append (c :: inside) _)

/-! ### Every text scans -/

/-- A text begins with a gap, and then with no other or with a comment without an end. -/
theorem exists_isGap (text : List Char) : ∃ gap behind, text = gap ++ behind ∧ IsGap gap behind ∧
    (EndsGap behind ∨ Faulty .unterminatedComment behind) := by
  -- A gap may hold any number of blanks and comments, so the induction is on the length.
  induction size : text.length using Nat.strongRecOn generalizing text with
  | ind size ih =>
    subst size
    by_cases comment : OpensComment text
    · obtain ⟨inside, rfl⟩ | ⟨inside, rfl⟩ := comment
      · obtain ⟨line, behind, rfl, run⟩ := exists_isRun (!endsLineComment ·) inside
        have sameLine : ∀ c ∈ line, endsLineComment c = false := by simpa using run.all
        cases behind with
        | nil => exact ⟨_, [], by simp, .lastLine sameLine, .inl ⟨by simp, by simp [OpensComment]⟩⟩
        | cons stop behind =>
          obtain ⟨gap, rest, rfl, isGap, stops⟩ := ih _ (by simp; omega) behind rfl
          exact ⟨'/' :: '/' :: line ++ stop :: gap, rest, by simp,
            .lineComment sameLine (by simpa using run.longest) isGap, stops⟩
      · obtain unclosed | ⟨inside, behind, rfl, unclosed⟩ := unclosed_or_exists inside
        · exact ⟨[], _, rfl, .nil, .inr (.unterminatedComment unclosed)⟩
        · obtain ⟨gap, rest, rfl, isGap, stops⟩ := ih _ (by simp; omega) behind rfl
          exact ⟨_, rest, by simp, .blockComment unclosed isGap, stops⟩
    · cases text with
      | nil => exact ⟨[], [], rfl, .nil, .inl ⟨by simp, comment⟩⟩
      | cons c text =>
        cases blank : isBlank c with
        | true =>
          obtain ⟨gap, rest, rfl, isGap, stops⟩ := ih _ (by simp) text rfl
          exact ⟨_, rest, rfl, .blank blank isGap, stops⟩
        | false => exact ⟨[], _, rfl, .nil, .inl ⟨by simpa using blank, comment⟩⟩

/-- A longest run of a word is a keyword or an identifier. -/
theorem exists_lexeme_of_run {first : Char} {parts behind : List Char}
    (starts : isWordStart first = true) (run : IsRun isWordPart (first :: parts) behind) :
    ∃ kind, Lexeme kind (first :: parts) behind := by
  by_cases reserved : ∃ word : Keyword, word.text.toList = first :: parts
  · obtain ⟨keyword, spelled⟩ := reserved
    rw [← spelled] at run ⊢
    exact ⟨_, .keyword run⟩
  · exact ⟨_, .identifier starts run (not_exists.mp reserved)⟩

theorem exists_lexeme_of_word {first : Char} {text : List Char}
    (starts : isWordStart first = true) : ∃ kind piece behind, first :: text = piece ++ behind ∧
      piece ≠ [] ∧ Lexeme kind piece behind := by
  obtain ⟨parts, behind, rfl, run⟩ := exists_isRun isWordPart text
  have word : IsRun isWordPart (first :: parts) behind :=
    ⟨by simpa [isWordPart, starts] using run.all, run.longest⟩
  obtain ⟨kind, lexeme⟩ := exists_lexeme_of_run starts word
  exact ⟨kind, first :: parts, behind, rfl, by simp, lexeme⟩

/-- What is behind a gap, if it is anything, begins with a token or with a fault. -/
theorem exists_lexeme {text : List Char} (ends : EndsGap text) (nonempty : text ≠ []) :
    (∃ cause, Faulty cause text) ∨
      ∃ kind piece behind, text = piece ++ behind ∧ piece ≠ [] ∧ Lexeme kind piece behind := by
  cases text with
  | nil => exact absurd rfl nonempty
  | cons first text =>
    by_cases starts : isWordStart first = true
    · exact .inr (exists_lexeme_of_word starts)
    by_cases digit : first.isDigit = true
    · obtain ⟨digits, behind, rfl, run⟩ := exists_isRun Char.isDigit text
      have number : IsRun Char.isDigit (first :: digits) behind :=
        ⟨by simpa [digit] using run.all, run.longest⟩
      by_cases inRange : Nat.ofDigitChars 10 (first :: digits) 0 ≤ maxInteger
      · exact .inr ⟨_, first :: digits, behind, rfl, by simp, .integer (by simp) number inRange⟩
      · exact .inl ⟨_, .integerOverflow number (Nat.lt_of_not_le inRange)⟩
    by_cases quote : first = '"'
    · subst quote
      obtain ⟨contents, behind, rfl, run⟩ := exists_isRun isQuotable text
      cases behind with
      | nil => exact .inl ⟨_, by simpa using Faulty.unterminatedString run.all⟩
      | cons c behind =>
        have stops : isQuotable c = false := by simpa using run.longest
        by_cases closing : c = '"'
        · subst closing
          exact .inr ⟨_, '"' :: contents ++ ['"'], behind, by simp, by simp, .string run.all⟩
        · refine .inl ⟨_, .nonAsciiString (c := c) run.all ?_⟩
          simpa [isQuotable, closing] using stops
    · exact .inr ⟨_, [first], text, rfl, by simp,
        .symbol ends (by simpa [isWordPart, starts] using digit) quote⟩

/-- There is a token for each piece of a source. -/
theorem exists_covers (kind : TokenKind) (front piece : List Char) :
    ∃ token : Token, token.Covers kind front piece := by
  refine ⟨⟨kind, String.ofList piece, front.count '\n' + 1, byteLength front⟩, rfl, rfl, ?_, rfl⟩
  simp [Token.span, ← byteLength_toList]

/-- **Every text scans.** It is a sequence of gaps and tokens up to its end or to a fault. -/
theorem exists_scans (file : String) (front text : List Char) :
    ∃ tokens fault, Scans file front text tokens fault := by
  -- No token is empty, so that the text left behind each of them is shorter.
  induction size : text.length using Nat.strongRecOn generalizing front text with
  | ind size ih =>
    subst size
    obtain ⟨gap, rest, rfl, isGap, ends | unclosed⟩ := exists_isGap text
    · by_cases nonempty : rest = []
      · subst nonempty
        exact ⟨[], none, by simpa using Scans.done isGap⟩
      obtain ⟨cause, faulty⟩ | ⟨kind, piece, behind, rfl, nonempty, lexeme⟩ :=
        exists_lexeme ends nonempty
      · exact ⟨[], _, .fault isGap faulty⟩
      · obtain ⟨token, covers⟩ := exists_covers kind (front ++ gap) piece
        have shorter : behind.length < (gap ++ (piece ++ behind)).length := by
          have := List.length_pos_iff.mpr nonempty
          simp only [List.length_append]
          omega
        obtain ⟨tokens, fault, scans⟩ := ih _ shorter (front ++ gap ++ piece) behind rfl
        rw [← List.append_assoc]
        exact ⟨_, fault, .token isGap lexeme covers scans⟩
    · exact ⟨[], _, .fault isGap unclosed⟩

end JackCompiler
