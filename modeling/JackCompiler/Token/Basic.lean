import JackCompiler.Token.Kind

/-!
# Tokens

A token carries its text, its kind and the place where it starts. The text of a string constant
includes its quotes.

## Main definitions

* `Span` — a stretch of bytes of a text, and the fragment that it covers
* `Token`, `Token.span` — a token and the bytes it covers
* `decimalValue?` — the value of a run of digits, up to the largest integer constant
* `Token.integerValue?`, `Token.stringValue?` — the values of constants
-/

namespace JackCompiler

/-- A stretch of `size` bytes that starts behind the first `index` bytes of a text. -/
structure Span where
  index : Nat
  size : Nat
deriving DecidableEq, Repr, Inhabited

/-- Splits a text behind its first `bytes` bytes. A text has no place inside a character or beyond
its end. -/
def splitAtByte? : Nat → List Char → Option (List Char × List Char)
  | 0, text => some ([], text)
  | _ + 1, [] => none
  | bytes + 1, c :: text =>
    if c.utf8Size ≤ bytes + 1 then
      (splitAtByte? (bytes + 1 - c.utf8Size) text).map fun (before, behind) => (c :: before, behind)
    else none

namespace Span

/-- The end of a span, exclusive. -/
def finish (span : Span) : Nat :=
  span.index + span.size

/-- The part of a text that a span covers, if both its ends are places of the text. -/
def fragment? (span : Span) (text : String) : Option String := do
  let (_, behind) ← splitAtByte? span.index text.toList
  let (inside, _) ← splitAtByte? span.size behind
  return String.ofList inside

end Span

/-- The largest integer constant. -/
def maxInteger : Nat := 32767

/-- The value of a run of decimal digits, if it is at most `maxInteger`. Any number of leading
zeros may precede it. -/
def decimalValue? (digits : List Char) : Option Nat :=
  digits.foldlM (fun value digit =>
    let next := 10 * value + (digit.toNat - '0'.toNat)
    if next ≤ maxInteger then some next else none) 0

/-- The contents of a quoted text, without one quote at either end. -/
def unquote (text : List Char) : List Char :=
  let opened := match text with
    | '"' :: contents => contents
    | _ => text
  if opened.getLast? = some '"' then opened.dropLast else opened

/-- A token of a source text. -/
structure Token where
  kind : TokenKind
  /-- The piece of the source that the token covers. -/
  text : String
  /-- The line the token starts on, counted from 1. -/
  line : Nat
  /-- The number of bytes before the token. -/
  index : Nat
deriving DecidableEq, Repr, Inhabited

namespace Token

/-- The bytes that a token covers. -/
def span (token : Token) : Span where
  index := token.index
  size := token.text.utf8ByteSize

/-- The value of an integer constant. -/
def integerValue? (token : Token) : Option Nat :=
  match token.kind with
  | .integer => decimalValue? token.text.toList
  | _ => none

/-- The contents of a string constant, without its quotes. -/
def stringValue? (token : Token) : Option String :=
  match token.kind with
  | .string => some (String.ofList (unquote token.text.toList))
  | _ => none

/-- The keyword that a token is. -/
def keyword? (token : Token) : Option Keyword :=
  match token.kind with
  | .keyword word => some word
  | _ => none

/-- The character of a symbol. -/
def symbol? (token : Token) : Option Char :=
  match token.kind with
  | .symbol c => some c
  | _ => none

/-- The name that an identifier is. -/
def identifier? (token : Token) : Option String :=
  match token.kind with
  | .identifier => some token.text
  | _ => none

end Token

end JackCompiler
