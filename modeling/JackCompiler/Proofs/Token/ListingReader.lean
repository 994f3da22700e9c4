import JackCompiler.Proofs.Compilation.Truncation
import JackCompiler.Proofs.Token.Spelling
import Mathlib.Data.List.Basic

/-!
# Reading a token listing

A listing can be read back. An element is a tag, a text between two blanks, and the closing tag, and
no escaped text holds the character that the closing tag begins with. Therefore it is clear where
each element ends, whatever stands in the text: markup, blanks, line ends, or what looks like an
entity.

## Main definitions

* `unescapeMarkup` — replaces entities by the characters that they stand for
* `readListing?` — the types and texts that a listing shows
* `Token.listed` — the type and the text of a token as a listing shows them

## Main results

* `unescapeMarkup_escapeText` — what is escaped is recovered
* `readElement?_element` — an element is read as its type and text, whatever follows it
* `listing_decodable` — a listing is read as the types and texts of the tokens of its source
-/

namespace JackCompiler

/-! ### The reader -/

/-- The type that has the given name in a listing. -/
def TokenType.ofText? (text : String) : Option TokenType :=
  [.keyword, .symbol, .integer, .string, .identifier].find? (·.text == text)

/-- A text with every entity replaced by the character that it stands for. -/
def unescapeMarkup : List Char → List Char
  | '&' :: 'l' :: 't' :: ';' :: text => '<' :: unescapeMarkup text
  | '&' :: 'g' :: 't' :: ';' :: text => '>' :: unescapeMarkup text
  | '&' :: 'a' :: 'm' :: 'p' :: ';' :: text => '&' :: unescapeMarkup text
  | '&' :: 'q' :: 'u' :: 'o' :: 't' :: ';' :: text => '"' :: unescapeMarkup text
  | c :: text => c :: unescapeMarkup text
  | [] => []

/-- A text without the one blank at either end of it. -/
def withoutBlanks? (text : List Char) : Option (List Char) := do
  let text ← text.dropPrefix? [' ']
  if text.getLast? = some ' ' then some text.dropLast else none

/-- The type and the text of the element at the front, and what is behind it. -/
def readElement? (listing : List Char) : Option ((TokenType × String) × List Char) := do
  let opened ← listing.dropPrefix? ['<']
  let type ← TokenType.ofText? (String.ofList (opened.takeWhile (· != '>')))
  let inside ← (opened.dropWhile (· != '>')).dropPrefix? ['>']
  let text ← withoutBlanks? (inside.takeWhile (· != '<'))
  let behind ← (inside.dropWhile (· != '<')).dropPrefix? ("</" ++ type.text ++ ">\n").toList
  return ((type, String.ofList (unescapeMarkup text)), behind)

theorem dropPrefix?_eq_some {front text behind : List Char} :
    text.dropPrefix? front = some behind ↔ text = front ++ behind := by
  simp [List.dropPrefix?_eq_some_iff]

/-- What is read of an element, piece by piece. -/
theorem readElement?_eq_some {listing behind : List Char} {type : TokenType} {text : String} :
    readElement? listing = some ((type, text), behind) ↔
      ∃ opened, listing = ['<'] ++ opened ∧
      TokenType.ofText? (String.ofList (opened.takeWhile (· != '>'))) = some type ∧
      ∃ inside, opened.dropWhile (· != '>') = ['>'] ++ inside ∧
      ∃ escaped, withoutBlanks? (inside.takeWhile (· != '<')) = some escaped ∧
      inside.dropWhile (· != '<') = ("</" ++ type.text ++ ">\n").toList ++ behind ∧
      String.ofList (unescapeMarkup escaped) = text := by
  simp only [readElement?, Option.bind_eq_bind, Option.bind_eq_some_iff, dropPrefix?_eq_some,
    Option.pure_def, Option.some.injEq, Prod.mk.injEq]
  constructor
  · rintro ⟨opened, first, _, known, inside, tagged, escaped, trimmed, _, closed, ⟨rfl, same⟩, rfl⟩
    exact ⟨opened, first, known, inside, tagged, escaped, trimmed, closed, same⟩
  · rintro ⟨opened, first, known, inside, tagged, escaped, trimmed, closed, same⟩
    exact ⟨opened, first, type, known, inside, tagged, escaped, trimmed, behind, closed,
      ⟨rfl, same⟩, rfl⟩

/-- An element is never empty. -/
theorem length_of_readElement? {listing behind : List Char} {element : TokenType × String}
    (h : readElement? listing = some (element, behind)) : behind.length < listing.length := by
  obtain ⟨opened, rfl, -, inside, tagged, _, -, closed, -⟩ := readElement?_eq_some.mp h
  have shorter : inside.length ≤ opened.length :=
    ((List.suffix_append _ _).trans (tagged ▸ List.dropWhile_suffix _)).length_le
  have shorter' : behind.length ≤ inside.length :=
    ((List.suffix_append _ _).trans (closed ▸ List.dropWhile_suffix _)).length_le
  simpa using Nat.lt_succ_of_le (Nat.le_trans shorter' shorter)

/-- The types and texts of elements, up to the line that closes a listing. -/
def readElements? (listing : List Char) : Option (List (TokenType × String)) :=
  match _ : readElement? listing with
  | some (element, behind) => (readElements? behind).map (element :: ·)
  | none => if listing = "</tokens>\n".toList then some [] else none
termination_by listing.length
decreasing_by exact length_of_readElement? ‹_›

theorem readElements?_of_element {listing behind : List Char} {element : TokenType × String}
    (h : readElement? listing = some (element, behind)) :
    readElements? listing = (readElements? behind).map (element :: ·) := by
  rw [readElements?]
  split
  · rename_i found
    cases h.symm.trans found
    rfl
  · rename_i none
    cases h.symm.trans none

/-- The types and texts that a listing shows. -/
def readListing? (listing : String) : Option (List (TokenType × String)) :=
  (listing.toList.dropPrefix? "<tokens>\n".toList).bind readElements?

/-! ### Escaped texts -/

theorem unescapeMarkup_cons {c : Char} (noEntity : c ≠ '&') (text : List Char) :
    unescapeMarkup (c :: text) = c :: unescapeMarkup text := by
  rw [unescapeMarkup.eq_def]
  split <;> simp_all

theorem toList_escapeText (text : String) :
    (escapeText text).toList = text.toList.flatMap fun c => (escapeMarkup c).toList := by
  rw [escapeText, String.toList_join, List.flatMap_map]

/-- A character is recovered from its escaped form, whatever follows it. -/
theorem unescapeMarkup_escapeMarkup (c : Char) (text : List Char) :
    unescapeMarkup ((escapeMarkup c).toList ++ text) = c :: unescapeMarkup text := by
  unfold escapeMarkup
  split
  case h_5 =>
    rename_i noEntity _
    rw [Char.toString_eq_singleton, String.toList_singleton]
    exact unescapeMarkup_cons noEntity text
  all_goals rfl

/-- **What is escaped is recovered.** -/
theorem unescapeMarkup_escapeText (text : String) :
    unescapeMarkup (escapeText text).toList = text.toList := by
  rw [toList_escapeText]
  induction text.toList with
  | nil => rfl
  | cons c text ih => rw [List.flatMap_cons, unescapeMarkup_escapeMarkup, ih]

/-- An escaped text does not begin a tag. -/
theorem ne_of_mem_escapeText {text : String} {c : Char} (mem : c ∈ (escapeText text).toList) :
    c ≠ '<' := by
  rw [toList_escapeText, List.mem_flatMap] at mem
  obtain ⟨d, -, mem⟩ := mem
  unfold escapeMarkup at mem
  split at mem
  case h_5 =>
    rename_i noTag _ _ _
    rw [Char.toString_eq_singleton, String.toList_singleton, List.mem_singleton] at mem
    exact mem ▸ noTag
  all_goals
    rintro rfl
    revert mem
    decide

/-! ### Elements -/

@[simp] theorem TokenType.ofText?_text (type : TokenType) : ofText? type.text = some type := by
  cases type <;> decide

/-- The name of a type does not end a tag. -/
theorem TokenType.ne_of_mem_text {type : TokenType} : ∀ c ∈ type.text.toList, c ≠ '>' := by
  cases type <;> simp [text]

theorem withoutBlanks?_of_blanks (text : List Char) :
    withoutBlanks? (' ' :: text ++ [' ']) = some text := by
  have opened : (' ' :: text ++ [' ']).dropPrefix? [' '] = some (text ++ [' ']) :=
    dropPrefix?_eq_some.mpr rfl
  rw [withoutBlanks?, opened]
  simp

/-- The element of a token: a tag, a text between blanks, the closing tag and a line end. -/
def element (type : TokenType) (text : String) : String :=
  "<" ++ type.text ++ "> " ++ escapeText text ++ " </" ++ type.text ++ ">\n"

/-- The elements of some types and texts, one behind the other. -/
def elements (shown : List (TokenType × String)) : String :=
  String.join (shown.map fun (type, text) => element type text)

/-- **An element is read as its type and text, whatever follows it.** -/
theorem readElement?_element (type : TokenType) (text : String) (behind : List Char) :
    readElement? ((element type text).toList ++ behind) = some ((type, text), behind) := by
  let spaced := ' ' :: (escapeText text).toList ++ [' ']
  let closing := ("</" ++ type.text ++ ">\n").toList ++ behind
  have whole : (element type text).toList ++ behind =
      ['<'] ++ (type.text.toList ++ (['>'] ++ (spaced ++ closing))) := by
    simp [element, spaced, closing]
  -- The tag ends at the first character that may end one, and the text where a tag begins.
  have tag : IsRun (· != '>') type.text.toList (['>'] ++ (spaced ++ closing)) :=
    ⟨by simpa using TokenType.ne_of_mem_text, by simp⟩
  have inside : IsRun (· != '<') spaced closing :=
    ⟨by simpa [spaced, or_imp, forall_and] using fun c => @ne_of_mem_escapeText text c,
      by simp [closing]⟩
  refine readElement?_eq_some.mpr ⟨_, whole, ?_, spaced ++ closing, tag.dropWhile_eq,
    (escapeText text).toList, ?_, inside.dropWhile_eq, ?_⟩
  · rw [tag.takeWhile_eq, String.ofList_toList, TokenType.ofText?_text]
  · rw [inside.takeWhile_eq, withoutBlanks?_of_blanks]
  · rw [unescapeMarkup_escapeText, String.ofList_toList]

/-- **Elements in front of the closing line are read one after the other.** -/
theorem readElements?_elements (shown : List (TokenType × String)) :
    readElements? ((elements shown).toList ++ "</tokens>\n".toList) = some shown := by
  induction shown with
  | nil => decide +kernel
  | cons e shown ih =>
    have front : (elements (e :: shown)).toList =
        (element e.1 e.2).toList ++ (elements shown).toList := by
      rw [elements, List.map_cons, String.join_cons, String.toList_append, elements]
    rw [front, List.append_assoc, readElements?_of_element (readElement?_element e.1 e.2 _), ih,
      Option.map_some]

/-! ### The listing of a source -/

/-- The type of a token and its text as a listing shows them: a string has no quotes. -/
def Token.listed (token : Token) : TokenType × String :=
  (token.kind.type, token.stringValue?.getD token.text)

/-- The listing of a source, as a sink without limits stores it. -/
def listingText (file source : String) : String :=
  (writeListing file source {}).2.text ListingLine.text

theorem line_ofToken (token : Token) :
    Sink.line (ListingLine.ofToken token).text = element token.listed.1 token.listed.2 := by
  simp [Sink.line, ListingLine.ofToken, ListingLine.text, element, Token.listed,
    String.append_assoc]

/-- Only the quotes of strings are not shown. -/
theorem text_of_listed {file source : String} {token : Token}
    (mem : token ∈ sourceTokens file source) : token.text =
      if token.kind = .string then "\"" ++ token.listed.2 ++ "\"" else token.listed.2 := by
  obtain ⟨kind, before, piece, behind, lexeme, covers⟩ := lexeme_of_mem_toEnd mem
  have ofKind := covers.kind
  have text := covers.text
  cases lexeme with
  | @string contents _ quotable =>
    have shown : token.listed.2 = String.ofList contents := by
      simp [Token.listed, Token.stringValue?, ofKind, text, unquote]
    rw [if_pos ofKind, shown, text]
    exact String.toList_injective (by simp)
  | keyword | identifier | integer | symbol =>
    simp [Token.listed, Token.stringValue?, ofKind]

theorem lines_ofTokens (tokens : List Token) :
    Sink.lines ListingLine.text (tokens.map .ofToken) = elements (tokens.map Token.listed) := by
  rw [Sink.lines, elements, List.map_map, List.map_map]
  exact congrArg _ (List.map_congr_left fun token _ => line_ofToken token)

/-- What is written for a source without a lexical fault. -/
theorem writeListing_of_noFault {file source : String} (noFault : sourceFault file source = none) :
    (writeListing file source {}).1 = .ok () ∧ listingText file source =
      "<tokens>\n" ++ elements ((sourceTokens file source).map Token.listed) ++ "</tokens>\n" := by
  have written : Sink.writeAll ListingLine.text (listingLines file source) {} =
      (.ok (), Sink.extend ListingLine.text {} (listingLines file source)) :=
    Sink.writeAll_of_unlimited _ rfl
  rw [listingText, writeListing_eq_deliver, Sink.deliver_of_written written, listingResult, noFault,
    Sink.text_extend_eq_lines, listingLines, noFault, Sink.lines_append, Sink.lines_cons,
    Sink.lines_cons, Sink.lines_nil, lines_ofTokens, String.append_empty]
  exact ⟨rfl, String.empty_append⟩

theorem readListing?_elements (shown : List (TokenType × String)) :
    readListing? ("<tokens>\n" ++ elements shown ++ "</tokens>\n") = some shown := by
  rw [readListing?, String.toList_append, String.toList_append, List.append_assoc,
    dropPrefix?_eq_some.mpr rfl, Option.bind_some, readElements?_elements]

/-- What the listing of a source is, and what can be told from it. -/
structure Decodable (file source : String) : Prop where
  written : (writeListing file source {}).1 = .ok ()
  /-- Between the first line and the last one there is an element for each token. -/
  form : listingText file source = "<tokens>\n" ++
    String.join ((sourceTokens file source).map fun token =>
      "<" ++ token.kind.type.text ++ "> " ++ escapeText token.listed.2 ++
        " </" ++ token.kind.type.text ++ ">\n") ++ "</tokens>\n"
  read : readListing? (listingText file source) = some ((sourceTokens file source).map Token.listed)
  /-- Only the quotes of strings are not shown. -/
  texts : ∀ token ∈ sourceTokens file source, token.text =
    if token.kind = .string then "\"" ++ token.listed.2 ++ "\"" else token.listed.2
  /-- Sources with the same listing have the same types and texts. -/
  determines : ∀ file' source', sourceFault file' source' = none →
    (listingText file source = listingText file' source' ↔
      (sourceTokens file source).map Token.listed = (sourceTokens file' source').map Token.listed)

/-- **A listing is read as the types and texts of the tokens of its source.** -/
theorem listing_decodable (file source : String) (noFault : sourceFault file source = none) :
    Decodable file source := by
  obtain ⟨written, form⟩ := writeListing_of_noFault noFault
  refine ⟨written, ?_, ?_, fun token => text_of_listed, fun file' source' noFault' => ?_⟩
  · rw [form, elements, List.map_map]
    rfl
  · rw [form, readListing?_elements]
  · rw [form, (writeListing_of_noFault noFault').2]
    refine ⟨fun same => ?_, fun same => by rw [same]⟩
    have read := congrArg readListing? same
    rw [readListing?_elements, readListing?_elements] at read
    exact Option.some.inj read

/-- A string may hold what looks like an element or like an entity. -/
theorem listing_decodable_markup :
    sourceFault "A.jack" "<&lt;\" </stringConstant>\n&amp; \"" = none ∧
      Decodable "A.jack" "<&lt;\" </stringConstant>\n&amp; \"" := by
  have noFault : sourceFault "A.jack" "<&lt;\" </stringConstant>\n&amp; \"" = none := by
    decide +kernel
  exact ⟨noFault, listing_decodable _ _ noFault⟩

end JackCompiler
