import JackCompiler.Proofs.Token.LexerRequests
import JackCompiler.Proofs.Token.Upcoming

/-!
# Printed tokens

Texts of tokens can be printed one behind the other as long as something stands between them that
begins with a blank. No token goes on behind a blank, and no slash in front of a blank opens a
comment, so it does not matter how much looks like a comment on either side of it: what is printed
is read as the texts that it is made from.

## Main definitions

* `IsTokenText` — the texts that are one token where nothing goes on behind them
* `IsSeparator` — what may stand between two of them
* `Printed` — texts with separators between them
* `respaced` — the tokens of a source with single spaces between them

## Main results

* `IsTokenText.exists_lexeme` — a text is one token at the end and in front of a blank
* `Printed.scans` — what is printed falls apart into its texts
* `printed_reads` — what is printed is read as its texts, and so is a source that is printed anew
-/

namespace JackCompiler

variable {file source : String} {text behind : List Char}

/-- A text that is one token where nothing goes on behind it: a word, whether or not it is reserved,
a number, a string or another character. -/
inductive IsTokenText : List Char → Prop where
  | word {first : Char} {parts : List Char} (starts : isWordStart first = true)
    (all : ∀ c ∈ parts, isWordPart c = true) : IsTokenText (first :: parts)
  | number {digits : List Char} (nonempty : digits ≠ []) (all : ∀ c ∈ digits, c.isDigit = true)
    (inRange : Nat.ofDigitChars 10 digits 0 ≤ maxInteger) : IsTokenText digits
  | string {contents : List Char} (quotable : ∀ c ∈ contents, isQuotable c = true) :
    IsTokenText ('"' :: contents ++ ['"'])
  | symbol {c : Char} (notBlank : isBlank c = false) (notWord : isWordPart c = false)
    (notQuote : c ≠ '"') : IsTokenText [c]

/-- What may stand between two tokens: a blank, and behind it any mix of blanks and comments. What
follows does not matter, so that each comment in it has an end of its own. -/
def IsSeparator (separator : List Char) : Prop :=
  ∃ blank gap, separator = blank :: gap ∧ isBlank blank = true ∧ ∀ behind, IsGap gap behind

/-- Texts of tokens one behind the other, with a separator between any two of them. -/
inductive Printed : List (List Char) → List Char → Prop where
  | empty : Printed [] []
  | last {text : List Char} (isText : IsTokenText text) : Printed [text] text
  | more {text separator next printed : List Char} {texts : List (List Char)}
    (isText : IsTokenText text) (separates : IsSeparator separator)
    (rest : Printed (next :: texts) printed) :
    Printed (text :: next :: texts) (text ++ separator ++ printed)

/-! ### Texts and blanks -/

/-- A blank goes on with no word and no number, and opens no comment. -/
theorem stops_of_isBlank {c : Char} (blank : isBlank c = true) :
    isWordPart c = false ∧ c.isDigit = false ∧ c ≠ '/' ∧ c ≠ '*' := by
  simp only [isBlank, Bool.or_eq_true, beq_iff_eq] at blank
  obtain ((rfl | rfl) | rfl) | rfl := blank <;> decide

/-- A text is one token at the end and in front of a blank. -/
theorem IsTokenText.exists_lexeme (isText : IsTokenText text)
    (stops : ∀ c ∈ behind.head?, isBlank c = true) : ∃ kind, Lexeme kind text behind := by
  cases isText with
  | word starts all =>
    refine exists_lexeme_of_run starts ⟨?_, fun c mem => (stops_of_isBlank (stops c mem)).1⟩
    exact List.forall_mem_cons.mpr ⟨by simp [isWordPart, starts], all⟩
  | number nonempty all inRange =>
    exact ⟨_, .integer nonempty ⟨all, fun c mem => (stops_of_isBlank (stops c mem)).2.1⟩ inRange⟩
  | string quotable => exact ⟨_, .string quotable⟩
  | @symbol c notBlank notWord notQuote =>
    refine ⟨_, .symbol ⟨by simpa using notBlank, fun comment => ?_⟩ notWord notQuote⟩
    -- A comment would need another slash, or a star, where the blank is.
    rw [OpensComment, pair_prefix_iff, pair_prefix_iff] at comment
    obtain ⟨-, slash⟩ | ⟨-, star⟩ := comment
    · exact (stops_of_isBlank (stops _ slash)).2.2.1 rfl
    · exact (stops_of_isBlank (stops _ star)).2.2.2 rfl

/-- A token is a text that is one token. -/
theorem Lexeme.isTokenText {kind : TokenKind} (lexeme : Lexeme kind text behind) :
    IsTokenText text := by
  cases lexeme with
  | @keyword word =>
    obtain ⟨first, parts, spelled, starts⟩ := isWordStart_of_keyword word
    have all := isWordPart_of_keyword word
    rw [spelled] at all ⊢
    exact .word starts fun c mem => all c (List.mem_cons_of_mem first mem)
  | identifier starts run => exact .word starts (List.forall_mem_cons.mp run.all).2
  | integer nonempty run inRange => exact .number nonempty run.all inRange
  | string quotable => exact .string quotable
  | symbol ends notWord notQuote => exact .symbol (ends.notBlank _ rfl) notWord notQuote

theorem isTokenText_of_mem {token : Token} (mem : token ∈ sourceTokens file source) :
    IsTokenText token.text.toList := by
  obtain ⟨kind, before, piece, behind, lexeme, covers⟩ := lexeme_of_mem_toEnd mem
  rw [covers.text, String.toList_ofList]
  exact lexeme.isTokenText

/-- The kind of a token of a source is the kind of its text. -/
theorem classify?_of_mem {token : Token} (mem : token ∈ sourceTokens file source) :
    TokenKind.classify? token.text = some token.kind := by
  obtain ⟨kind, before, piece, behind, lexeme, covers⟩ := lexeme_of_mem_toEnd mem
  rw [covers.text, covers.kind, lexeme.classify?_eq]

/-! ### Reading what is printed -/

theorem IsSeparator.isGap {separator : List Char} (separates : IsSeparator separator)
    (behind : List Char) : IsGap separator behind := by
  obtain ⟨blank, gap, rfl, isBlank, isGap⟩ := separates
  exact .blank isBlank (isGap behind)

theorem IsSeparator.head {separator : List Char} (separates : IsSeparator separator)
    (behind : List Char) : ∀ c ∈ (separator ++ behind).head?, isBlank c = true := by
  obtain ⟨blank, gap, rfl, isBlank, -⟩ := separates
  simpa using isBlank

/-- **What is printed falls apart into its texts**, behind any gap. -/
theorem Printed.scans {texts : List (List Char)} {printed : List Char}
    (isPrinted : Printed texts printed) (file : String) : ∀ (front : List Char) {gap : List Char},
      (∀ behind, IsGap gap behind) → ∃ tokens,
        Scans file front (gap ++ printed) tokens none ∧
          tokens.map Token.text = texts.map String.ofList := by
  induction isPrinted with
  | empty =>
    intro front gap isGap
    exact ⟨[], by simpa using Scans.done (isGap []), rfl⟩
  | @last text isText =>
    intro front gap isGap
    have atEnd : ∀ c ∈ ([] : List Char).head?, isBlank c = true := by simp
    obtain ⟨kind, lexeme⟩ := isText.exists_lexeme atEnd
    obtain ⟨token, covers⟩ := exists_covers kind (front ++ gap) text
    refine ⟨[token], ?_, by simp [covers.text]⟩
    simpa using Scans.token (isGap _) lexeme covers (.done .nil)
  | @more text separator next printed texts isText separates rest ih =>
    intro front gap isGap
    obtain ⟨kind, lexeme⟩ := isText.exists_lexeme (separates.head printed)
    obtain ⟨token, covers⟩ := exists_covers kind (front ++ gap) text
    obtain ⟨tokens, scans, same⟩ := ih (front ++ gap ++ text) separates.isGap
    refine ⟨token :: tokens, ?_, by rw [List.map_cons, covers.text, same]; rfl⟩
    simpa using Scans.token (isGap _) lexeme covers scans

/-- What is printed is read as its texts, without a fault. -/
theorem Printed.reads {texts : List (List Char)} (isPrinted : Printed texts source.toList)
    (file : String) : sourceFault file source = none ∧
      (sourceTokens file source).map Token.text = texts.map String.ofList := by
  obtain ⟨tokens, scans, same⟩ := isPrinted.scans file [] fun _ => .nil
  obtain ⟨read, noFault⟩ := Lexer.toEnd_of_scans scans
  exact ⟨noFault, by rw [sourceTokens, read, same]⟩

/-- The tokens of a source with single spaces between them. -/
def respaced (file source : String) : String :=
  " ".intercalate ((sourceTokens file source).map Token.text)

theorem printed_intercalate {texts : List (List Char)} (all : ∀ text ∈ texts, IsTokenText text) :
    Printed texts ([' '].intercalate texts) := by
  induction texts with
  | nil => exact .empty
  | cons text texts ih =>
    obtain ⟨isText, rest⟩ := List.forall_mem_cons.mp all
    cases texts with
    | nil => simpa [List.intercalate] using Printed.last isText
    | cons next texts =>
      rw [List.intercalate_cons_cons]
      exact .more isText ⟨' ', [], rfl, by decide, fun _ => .nil⟩ (ih rest)

theorem printed_respaced (file source : String) :
    Printed ((sourceTokens file source).map (·.text.toList)) (respaced file source).toList := by
  rw [respaced, String.toList_intercalate, List.map_map]
  exact printed_intercalate (List.forall_mem_map.mpr fun token => isTokenText_of_mem)

/-- What the tokens of a source say is told by their texts. -/
theorem map_wording_eq (file source : String) : (sourceTokens file source).map Token.wording =
    ((sourceTokens file source).map Token.text).map fun text =>
      ((TokenKind.classify? text).getD default, text) := by
  rw [List.map_map]
  refine List.map_congr_left fun token mem => ?_
  rw [Function.comp_apply, classify?_of_mem mem, Option.getD_some, Token.wording]

/-- **What is printed is read as the texts that it is made from**, each with the kind of its text.
The tokens of a source without a fault can be printed anew in that way. -/
theorem printed_reads (file : String) :
    (∀ texts source, Printed texts source.toList → sourceFault file source = none ∧
      (sourceTokens file source).map Token.text = texts.map String.ofList ∧
      ∀ token ∈ sourceTokens file source, TokenKind.classify? token.text = some token.kind) ∧
    ∀ source, sourceFault file source = none →
      sourceFault file (respaced file source) = none ∧
      (sourceTokens file (respaced file source)).map Token.wording =
        (sourceTokens file source).map Token.wording := by
  refine ⟨fun texts source isPrinted => ?_, fun source _ => ?_⟩
  · obtain ⟨noFault, same⟩ := isPrinted.reads file
    exact ⟨noFault, same, fun token => classify?_of_mem⟩
  · obtain ⟨noFault, same⟩ := (printed_respaced file source).reads file
    rw [map_wording_eq, map_wording_eq, same]
    simp [noFault, Function.comp_def]

/-- Between separators that are full of comment signs, a slash, a star and a string with another
comment sign in it are the tokens that they are made from. -/
theorem printed_reads_commented :
    Printed [['/'], ['*'], ['"', '/', '/', '"']] "/ /*/ */*\n//\n\"//\"".toList ∧
      sourceFault "A.jack" "/ /*/ */*\n//\n\"//\"" = none ∧
      (sourceTokens "A.jack" "/ /*/ */*\n//\n\"//\"").map Token.text = ["/", "*", "\"//\""] ∧
      (∀ token ∈ sourceTokens "A.jack" "/ /*/ */*\n//\n\"//\"",
        TokenKind.classify? token.text = some token.kind) ∧
      sourceFault "A.jack" (respaced "A.jack" "/ /*/ */*\n//\n\"//\"") = none ∧
      (sourceTokens "A.jack" (respaced "A.jack" "/ /*/ */*\n//\n\"//\"")).map Token.wording =
        (sourceTokens "A.jack" "/ /*/ */*\n//\n\"//\"").map Token.wording := by
  have unclosed : Unclosed ['/', ' '] := by
    rw [Unclosed]
    decide
  have comment : IsSeparator [' ', '/', '*', '/', ' ', '*', '/'] :=
    ⟨' ', _, rfl, by decide, fun behind => @IsGap.blockComment _ [] behind unclosed .nil⟩
  have line : IsSeparator ['\n', '/', '/', '\n'] :=
    ⟨'\n', _, rfl, by decide,
      fun behind => @IsGap.lineComment [] [] behind '\n' (by simp) (by decide) .nil⟩
  have string : IsTokenText ['"', '/', '/', '"'] :=
    @IsTokenText.string ['/', '/'] (List.all_eq_true.mp rfl)
  have slash : IsTokenText ['/'] := .symbol (by decide) (by decide) (by decide)
  have star : IsTokenText ['*'] := .symbol (by decide) (by decide) (by decide)
  have isPrinted : Printed [['/'], ['*'], ['"', '/', '/', '"']] "/ /*/ */*\n//\n\"//\"".toList :=
    .more slash comment (.more star line (.last string))
  obtain ⟨printed, anew⟩ := printed_reads "A.jack"
  obtain ⟨noFault, texts, kinds⟩ := printed _ _ isPrinted
  exact ⟨isPrinted, noFault, texts, kinds, anew _ noFault⟩

end JackCompiler
