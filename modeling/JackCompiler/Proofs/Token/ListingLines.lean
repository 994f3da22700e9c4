import JackCompiler.Proofs.Token.ListingReader

/-!
# Lines of a token listing

A listing ends a line behind each element. What a string holds is shown as it is, line feeds
included, because only the characters of the markup are escaped. A listing therefore has one line
for each token if and only if no string of its source goes over the end of a line.

## Main definitions

* `IsLines` — a text consists of the given lines
* `Token.elementText` — the element of a token
* `OneLinePerToken` — the listing of a source has one line for each token

## Main results

* `count_listingText` — the number of lines of a listing
* `oneLinePerToken_iff` — when a listing has one line for each token
* `not_oneLinePerToken_broken` — a string that goes over the end of a line
-/

namespace JackCompiler

variable {file source : String}

/-! ### Lines -/

/-- A text consists of the given lines, each of which is ended by a line feed and holds no other. -/
structure IsLines (text : String) (lines : List String) : Prop where
  text : text = String.join (lines.map Sink.line)
  unbroken : ∀ line ∈ lines, '\n' ∉ line.toList

theorem count_join_line (lines : List String) :
    (String.join (lines.map Sink.line)).toList.count '\n' =
      lines.length + (lines.flatMap String.toList).count '\n' := by
  induction lines with
  | nil => rfl
  | cons line lines ih =>
    have ended : (Sink.line line).toList.count '\n' = line.toList.count '\n' + 1 := by
      simp [Sink.line]
    rw [List.map_cons, String.join_cons, String.toList_append, List.count_append, ih, ended,
      List.length_cons, List.flatMap_cons, List.count_append]
    omega

/-- A text has as many lines as line feeds. -/
theorem IsLines.count_eq {text : String} {lines : List String} (h : IsLines text lines) :
    text.toList.count '\n' = lines.length := by
  have none : (lines.flatMap String.toList).count '\n' = 0 := by
    rw [List.count_eq_zero, List.mem_flatMap]
    rintro ⟨line, mem, inside⟩
    exact h.unbroken line mem inside
  rw [h.text, count_join_line, none, Nat.add_zero]

/-- The element of a token, without the end of its line. -/
def Token.elementText (token : Token) : String :=
  "<" ++ token.kind.type.text ++ "> " ++ escapeText token.listed.2 ++
    " </" ++ token.kind.type.text ++ ">"

/-- The listing of a source has one line for each token between its first line and its last one, and
that line is the element of the token. -/
def OneLinePerToken (file source : String) : Prop :=
  ∃ lines, IsLines (listingText file source) lines ∧
    lines.length = (sourceTokens file source).length + 2 ∧
    ∀ (i : Nat) (token : Token), (sourceTokens file source)[i]? = some token →
      lines[i + 1]? = some token.elementText

/-! ### Line feeds -/

theorem count_escapeMarkup (c : Char) : (escapeMarkup c).toList.count '\n' = [c].count '\n' := by
  unfold escapeMarkup
  split <;> simp

/-- Escaping keeps line feeds. -/
theorem count_escapeText (text : String) :
    (escapeText text).toList.count '\n' = text.toList.count '\n' := by
  rw [toList_escapeText]
  induction text.toList with
  | nil => rfl
  | cons c text ih =>
    rw [List.flatMap_cons, List.count_append, count_escapeMarkup, ih, ← List.count_append]
    rfl

/-- An element has the line feeds of its token. -/
theorem count_elementText {token : Token} (mem : token ∈ sourceTokens file source) :
    token.elementText.toList.count '\n' = token.text.toList.count '\n' := by
  have name : token.kind.type.text.toList.count '\n' = 0 := by
    cases token.kind.type <;> decide
  -- The quotes of a string are not shown, and they are no line feeds.
  have shown : token.listed.2.toList.count '\n' = token.text.toList.count '\n' := by
    rw [text_of_listed mem]
    split <;> simp
  simp only [Token.elementText, String.toList_append, List.count_append, name, count_escapeText,
    shown]
  simp

/-- Only strings can hold a line feed. -/
theorem newline_not_mem {token : Token} (mem : token ∈ sourceTokens file source)
    (notString : token.kind ≠ .string) : '\n' ∉ token.text.toList := by
  obtain ⟨kind, before, piece, behind, lexeme, covers⟩ := lexeme_of_mem_toEnd mem
  rw [covers.kind] at notString
  rw [covers.text, String.toList_ofList]
  intro inside
  cases lexeme with
  | keyword run | identifier _ run => exact absurd (run.all _ inside) (by decide)
  | integer _ run => exact absurd (run.all _ inside) (by decide)
  | string => exact notString rfl
  | symbol ends =>
    obtain rfl := List.mem_singleton.mp inside
    exact absurd (ends.notBlank _ rfl) (by decide)

/-! ### The lines of a source -/

/-- The lines that the listing of a source is written as. They are its lines if none of them holds a
line feed. -/
def writtenLines (file source : String) : List String :=
  "<tokens>" :: (sourceTokens file source).map Token.elementText ++ ["</tokens>"]

theorem listingText_eq_join (noFault : sourceFault file source = none) :
    listingText file source = String.join ((writtenLines file source).map Sink.line) := by
  have all : elements ((sourceTokens file source).map Token.listed) =
      String.join (((sourceTokens file source).map Token.elementText).map Sink.line) := by
    rw [elements, List.map_map, List.map_map]
    refine congrArg _ (List.map_congr_left fun token _ => ?_)
    simp [Sink.line, Token.elementText, element, Token.listed, String.append_assoc]
  rw [(writeListing_of_noFault noFault).2, all]
  simp [writtenLines, Sink.line, String.append_assoc]

theorem count_flatMap_elementText {tokens : List Token}
    (all : ∀ token ∈ tokens, token ∈ sourceTokens file source) :
    ((tokens.map Token.elementText).flatMap String.toList).count '\n' =
      (tokens.flatMap (·.text.toList)).count '\n' := by
  induction tokens with
  | nil => rfl
  | cons token tokens ih =>
    obtain ⟨first, rest⟩ := List.forall_mem_cons.mp all
    rw [List.map_cons, List.flatMap_cons, List.flatMap_cons, List.count_append, List.count_append,
      ih rest, count_elementText first]

/-- **A listing has a line for each token and two others, and one more for each line feed in a
token.** -/
theorem count_listingText (noFault : sourceFault file source = none) :
    (listingText file source).toList.count '\n' = (sourceTokens file source).length + 2 +
      ((sourceTokens file source).flatMap (·.text.toList)).count '\n' := by
  have inside := count_flatMap_elementText fun token (mem : token ∈ sourceTokens file source) => mem
  rw [listingText_eq_join noFault, count_join_line, writtenLines, List.flatMap_append,
    List.flatMap_cons, List.count_append, List.count_append, inside]
  simp

/-- A listing with one line for each token comes from a source without line feeds in its tokens. -/
theorem OneLinePerToken.newline_not_mem (h : OneLinePerToken file source)
    (noFault : sourceFault file source = none) :
    ∀ token ∈ sourceTokens file source, '\n' ∉ token.text.toList := by
  -- There are exactly as many line feeds as lines, which leaves none for the tokens.
  obtain ⟨lines, isLines, length, -⟩ := h
  have count := count_listingText noFault
  rw [isLines.count_eq, length] at count
  have none : ((sourceTokens file source).flatMap (·.text.toList)).count '\n' = 0 := by omega
  intro token mem inside
  exact List.count_eq_zero.mp none (List.mem_flatMap.mpr ⟨token, mem, inside⟩)

/-- **A listing has one line for each token if and only if no string goes over the end of a
line.** -/
theorem oneLinePerToken_iff (noFault : sourceFault file source = none) :
    (writeListing file source {}).1 = .ok () ∧
      (listingText file source).toList.count '\n' = (sourceTokens file source).length + 2 +
        ((sourceTokens file source).flatMap (·.text.toList)).count '\n' ∧
      (OneLinePerToken file source ↔ ∀ token ∈ sourceTokens file source,
        token.kind = .string → '\n' ∉ token.text.toList) := by
  refine ⟨(writeListing_of_noFault noFault).1, count_listingText noFault, fun h token mem _ =>
    h.newline_not_mem noFault token mem, fun unbroken => ?_⟩
  refine ⟨writtenLines file source, ⟨listingText_eq_join noFault, ?_⟩, by simp [writtenLines],
    fun i token at_i => ?_⟩
  · intro line mem
    obtain rfl | ⟨token, listed, rfl⟩ | rfl : line = "<tokens>" ∨
        (∃ token ∈ sourceTokens file source, token.elementText = line) ∨ line = "</tokens>" := by
      simpa [writtenLines] using mem
    · decide
    · rw [← List.count_eq_zero, count_elementText listed, List.count_eq_zero]
      by_cases isString : token.kind = .string
      · exact unbroken token listed isString
      · exact newline_not_mem listed isString
    · decide
  · have shown : ((sourceTokens file source).map Token.elementText)[i]? =
        some token.elementText := by
      rw [List.getElem?_map, at_i, Option.map_some]
    rw [writtenLines, List.cons_append, List.getElem?_cons_succ, List.getElem?_append_left
      (List.getElem?_eq_some_iff.mp shown).1, shown]

/-- A string that stays on its line is one line of the listing, also if it holds markup. -/
theorem oneLinePerToken_iff_quoted :
    sourceFault "A.jack" "say(\"</a>\");\n" = none ∧
      OneLinePerToken "A.jack" "say(\"</a>\");\n" := by
  have noFault : sourceFault "A.jack" "say(\"</a>\");\n" = none := by decide +kernel
  have unbroken : ∀ token ∈ sourceTokens "A.jack" "say(\"</a>\");\n",
      token.kind = .string → '\n' ∉ token.text.toList := by decide +kernel
  exact ⟨noFault, (oneLinePerToken_iff noFault).2.2.mpr unbroken⟩

/-- A string that goes over the end of a line breaks the line of its element. -/
theorem not_oneLinePerToken_broken :
    sourceFault "A.jack" "\"\n\"" = none ∧ (sourceTokens "A.jack" "\"\n\"").length = 1 ∧
      ¬ OneLinePerToken "A.jack" "\"\n\"" := by
  have noFault : sourceFault "A.jack" "\"\n\"" = none := by decide +kernel
  refine ⟨noFault, by decide +kernel, fun h => ?_⟩
  have inside : ∃ token ∈ sourceTokens "A.jack" "\"\n\"", '\n' ∈ token.text.toList := by
    decide +kernel
  obtain ⟨token, mem, broken⟩ := inside
  exact h.newline_not_mem noFault token mem broken

end JackCompiler
