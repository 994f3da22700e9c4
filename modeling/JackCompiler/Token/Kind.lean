import JackCompiler.Source.Character
import JackCompiler.Token.Keyword

/-!
# Kinds of tokens

The kind of a token is decided by the first character of its text and, for a word, by whether the
word is reserved.

## Main definitions

* `TokenKind`, `TokenKind.classify?` — the kinds, and the kind of a piece of text
* `TokenKind.description` — the kind as a diagnostic names what it expected
* `TokenType` — the kinds without what they carry
-/

namespace JackCompiler

/-- What a token is to the grammar. -/
inductive TokenKind where
  /-- A reserved word. -/
  | keyword (word : Keyword)
  /-- A single character that is part of nothing longer. -/
  | symbol (c : Char)
  /-- A decimal number. -/
  | integer
  /-- A text in double quotes. -/
  | string
  /-- A word that is not reserved. -/
  | identifier
deriving DecidableEq, Repr, Inhabited

/-- The five kinds of tokens, without keyword or character. -/
inductive TokenType where
  | keyword | symbol | integer | string | identifier
deriving DecidableEq, Repr, Inhabited

/-- The name of a token type in a token listing. -/
def TokenType.text : TokenType → String
  | .keyword => "keyword"
  | .symbol => "symbol"
  | .integer => "integerConstant"
  | .string => "stringConstant"
  | .identifier => "identifier"

namespace TokenKind

/-- The kind of a word: a keyword if it is reserved, else an identifier. -/
def ofWord (text : String) : TokenKind :=
  match Keyword.ofText? text with
  | some word => .keyword word
  | none => .identifier

/-- The kind of a text by its first character. An underscore begins no keyword. -/
def classify? (text : String) : Option TokenKind :=
  text.toList.head?.map fun first =>
    if first.isDigit then .integer
    else if first.isAlpha then ofWord text
    else if first == '"' then .string
    else if first == '_' then .identifier
    else .symbol first

/-- The type that a kind belongs to. -/
def type : TokenKind → TokenType
  | .keyword _ => .keyword
  | .symbol _ => .symbol
  | .integer => .integer
  | .string => .string
  | .identifier => .identifier

/-- A kind as a diagnostic names it: a keyword or symbol in single quotes, else a phrase. -/
def description : TokenKind → String
  | .keyword word => "'" ++ word.text ++ "'"
  | .symbol c => "'" ++ c.toString ++ "'"
  | .integer => "integer constant"
  | .string => "string constant"
  | .identifier => "identifier"

end TokenKind

end JackCompiler
