import JackCompiler.Proofs.Token.Reader
import JackCompiler.Proofs.Token.Scanning

/-!
# Terminals written out

A list of terminals is written out as their texts with a blank behind each of them. No two texts
fuse that way, so that the written form is read as the terminals that it is made from.

## Main definitions

* `Terminal.letters`, `Terminal.Spellable` — the text of a terminal, and whether it is one token
* `spelled` — the written form of a list of terminals

## Main results

* `toEnd_spelled` — a written form is read as its terminals
* `lexeme_of_mem_toEnd` — a token of a source is a piece of it by the rules
-/

namespace JackCompiler

namespace Grammar

/-- The kind of the tokens that a terminal stands for. -/
def Terminal.kind : Terminal → TokenKind
  | .keyword word => .keyword word
  | .symbol c => .symbol c
  | .integer _ => .integer
  | .string _ => .string
  | .identifier _ => .identifier

/-- The text of a terminal. -/
def Terminal.letters : Terminal → List Char
  | .keyword word => word.text.toList
  | .symbol c => [c]
  | .integer digits => digits.toList
  | .string contents => '"' :: contents ++ ['"']
  | .identifier name => name.toList

/-- The text of a terminal can be read back as one token. -/
def Terminal.Spellable : Terminal → Prop
  | .keyword _ => True
  | .symbol c => isBlank c = false ∧ isWordPart c = false ∧ c ≠ '"'
  | .integer digits => digits.toList ≠ [] ∧ digits.toList.all Char.isDigit = true ∧
      Nat.ofDigitChars 10 digits.toList 0 ≤ maxInteger
  | .string contents => contents.all isQuotable = true
  | .identifier name => name.toList.head?.any isWordStart = true ∧
      name.toList.all isWordPart = true ∧ ∀ word ∈ Keyword.all, word.text ≠ name

instance : DecidablePred Terminal.Spellable
  | .keyword _ => instDecidableTrue
  | .symbol _ => inferInstanceAs (Decidable (_ ∧ _ ∧ _))
  | .integer _ => inferInstanceAs (Decidable (_ ∧ _ ∧ _))
  | .string _ => inferInstanceAs (Decidable (_ = true))
  | .identifier _ => inferInstanceAs (Decidable (_ ∧ _ ∧ _))

/-- The texts of some terminals, with a blank behind each of them. -/
def spelled (terminals : List Terminal) : List Char :=
  terminals.flatMap fun t => t.letters ++ [' ']

theorem spelled_append (terminals more : List Terminal) :
    spelled (terminals ++ more) = spelled terminals ++ spelled more :=
  List.flatMap_append

end Grammar

open Grammar

theorem isRun_blank {p : Char → Bool} {piece behind : List Char} (all : ∀ c ∈ piece, p c = true)
    (stops : p ' ' = false) : IsRun p piece (' ' :: behind) :=
  ⟨all, by simpa using stops⟩

theorem isWordPart_of_keyword (word : Keyword) : ∀ c ∈ word.text.toList, isWordPart c = true :=
  List.all_eq_true.mp (by cases word <;> decide)

/-- A name is one token in front of a character that does not continue it. -/
theorem Grammar.Terminal.Spellable.lexeme_identifier {name : String}
    (h : (Terminal.identifier name).Spellable) {behind : List Char}
    (stops : ∀ c ∈ behind.head?, isWordPart c = false) :
    Lexeme .identifier name.toList behind := by
  obtain ⟨starts, all, notReserved⟩ := h
  cases letters : name.toList with
  | nil =>
    rw [letters] at starts
    cases starts
  | cons first parts =>
    rw [letters] at starts all
    refine .identifier starts ⟨List.all_eq_true.mp all, stops⟩ fun word same =>
      notReserved word word.mem_all ?_
    rw [← letters] at same
    exact String.toList_inj.mp same

/-- In front of a blank, a text that can be read back is one token. -/
theorem Grammar.Terminal.Spellable.lexeme {t : Terminal} (h : t.Spellable) (behind : List Char) :
    Lexeme t.kind t.letters (' ' :: behind) := by
  cases t with
  | keyword word => exact .keyword (isRun_blank (isWordPart_of_keyword word) (by decide))
  | symbol c =>
    obtain ⟨notBlank, notWord, notQuote⟩ := h
    refine .symbol ⟨by simpa using notBlank, ?_⟩ notWord notQuote
    -- A slash in front of a blank opens no comment.
    simp [OpensComment]
  | integer digits =>
    obtain ⟨nonempty, all, inRange⟩ := h
    exact .integer nonempty (isRun_blank (List.all_eq_true.mp all) (by decide)) inRange
  | string contents => exact .string (List.all_eq_true.mp h)
  | identifier name => exact h.lexeme_identifier (by simp; decide)

theorem Token.Covers.terminal {token : Token} {t : Terminal} {front : List Char}
    (covers : token.Covers t.kind front t.letters) : token.terminal = t := by
  cases t with
  | keyword word => exact Token.terminal_eq_keyword.mpr covers.kind
  | symbol c => exact Token.terminal_eq_symbol.mpr covers.kind
  | integer digits =>
    exact Token.terminal_eq_integer.mpr ⟨covers.kind, covers.text.trans String.ofList_toList⟩
  | string contents =>
    refine Token.terminal_eq_string.mpr ⟨covers.kind, ?_⟩
    rw [covers.text, String.toList_ofList]
    simp [Terminal.letters, unquote]
  | identifier name =>
    exact Token.terminal_eq_identifier.mpr ⟨covers.kind, covers.text.trans String.ofList_toList⟩

/-- A written form falls apart into its terminals. The blank behind one of them is the gap in front
of the next. -/
theorem scans_spelled (file : String) {terminals : List Terminal}
    (spellable : ∀ t ∈ terminals, t.Spellable) : ∀ (front : List Char) {gap : List Char},
      (∀ behind, IsGap gap behind) → ∃ tokens,
        Scans file front (gap ++ spelled terminals) tokens none ∧
          tokens.map Token.terminal = terminals := by
  induction terminals with
  | nil =>
    intro front gap isGap
    exact ⟨[], by simpa [spelled] using Scans.done (isGap []), rfl⟩
  | cons t terminals ih =>
    rw [List.forall_mem_cons] at spellable
    intro front gap isGap
    have blank (behind : List Char) : IsGap [' '] behind := .blank (by decide) .nil
    obtain ⟨token, covers⟩ := exists_covers t.kind (front ++ gap) t.letters
    obtain ⟨tokens, scans, same⟩ := ih spellable.2 (front ++ gap ++ t.letters) blank
    refine ⟨token :: tokens, ?_, by rw [List.map_cons, covers.terminal, same]⟩
    have whole := Scans.token (isGap _) (spellable.1.lexeme (spelled terminals)) covers scans
    simpa [spelled] using whole

/-- A written form is read as its terminals, without a fault. -/
theorem toEnd_spelled (file : String) {terminals : List Terminal}
    (spellable : ∀ t ∈ terminals, t.Spellable) :
    (Lexer.ofSource file (String.ofList (spelled terminals))).toEnd.fault = none ∧
      (Lexer.ofSource file (String.ofList (spelled terminals))).toEnd.tokens.toList.map
        Token.terminal = terminals := by
  obtain ⟨tokens, scans, same⟩ := scans_spelled file spellable [] fun _ => .nil
  rw [List.nil_append, ← String.toList_ofList (l := spelled terminals)] at scans
  obtain ⟨read, fault⟩ := Lexer.toEnd_of_scans scans
  exact ⟨fault, by rw [read, same]⟩

/-! ### Tokens of any source -/

/-- A token by the rules is the text of a terminal. -/
theorem Lexeme.exists_terminal {kind : TokenKind} {piece behind : List Char}
    (lexeme : Lexeme kind piece behind) :
    ∃ t : Terminal, t.Spellable ∧ t.kind = kind ∧ t.letters = piece := by
  cases lexeme with
  | @keyword word => exact ⟨.keyword word, trivial, rfl, rfl⟩
  | @identifier first parts _ starts run notReserved =>
    refine ⟨.identifier (String.ofList (first :: parts)), ⟨?_, ?_, fun word _ same => ?_⟩, rfl, ?_⟩
    · simpa using starts
    · simpa using run.all
    · exact notReserved word (by rw [same, String.toList_ofList])
    · exact String.toList_ofList
  | integer nonempty run inRange =>
    refine ⟨.integer (String.ofList piece), ⟨?_, ?_, ?_⟩, rfl, String.toList_ofList⟩
    · simpa using nonempty
    · simpa using run.all
    · simpa using inRange
  | @string contents _ quotable =>
    exact ⟨.string contents, List.all_eq_true.mpr quotable, rfl, rfl⟩
  | @symbol c _ ends notWord notQuote =>
    exact ⟨.symbol c, ⟨ends.notBlank c rfl, notWord, notQuote⟩, rfl, rfl⟩

theorem Scans.exists_lexeme {file : String} {front text : List Char} {tokens : List Token}
    {fault : Option (Located LexicalFault)} (scans : Scans file front text tokens fault) :
    ∀ token ∈ tokens, ∃ kind before piece behind,
      Lexeme kind piece behind ∧ token.Covers kind before piece := by
  induction scans with
  | done | fault => simp
  | token _ lexeme covers _ ih =>
    exact List.forall_mem_cons.mpr ⟨⟨_, _, _, _, lexeme, covers⟩, ih⟩

/-- A token of a source is a piece of it by the rules. -/
theorem lexeme_of_mem_toEnd {file source : String} {token : Token}
    (mem : token ∈ (Lexer.ofSource file source).toEnd.tokens.toList) :
    ∃ kind before piece behind, Lexeme kind piece behind ∧ token.Covers kind before piece :=
  (Lexer.scans_toEnd file source).exists_lexeme token mem

/-- What the grammar sees of the tokens of a source can be written out again. -/
theorem spellable_of_mem_toEnd {file source : String} {token : Token}
    (mem : token ∈ (Lexer.ofSource file source).toEnd.tokens.toList) :
    token.terminal.Spellable := by
  obtain ⟨kind, before, piece, behind, lexeme, covers⟩ := lexeme_of_mem_toEnd mem
  obtain ⟨t, spellable, rfl, rfl⟩ := lexeme.exists_terminal
  rwa [covers.terminal]

/-- The strings of a source hold ASCII characters only. -/
theorem isAscii_of_string_mem {file source : String} {contents : List Char} {token : Token}
    (mem : token ∈ (Lexer.ofSource file source).toEnd.tokens.toList)
    (isString : token.terminal = .string contents) : ∀ c ∈ contents, isAscii c = true := by
  obtain ⟨kind, before, piece, behind, lexeme, covers⟩ := lexeme_of_mem_toEnd mem
  obtain ⟨ofKind, rfl⟩ := Token.terminal_eq_string.mp isString
  have same := covers.kind.symm.trans ofKind
  cases lexeme with
  | @string contents _ quotable =>
    intro c inside
    have isPart : c ∈ contents := by
      simpa [covers.text, unquote] using inside
    exact (Bool.and_eq_true_iff.mp (quotable c isPart)).2
  | keyword | identifier | integer | symbol => cases same

end JackCompiler
