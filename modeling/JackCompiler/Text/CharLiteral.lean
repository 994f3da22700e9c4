import JackCompiler.Text.DefaultIgnorable
import JackCompiler.Text.GraphemeExtend
import JackCompiler.Text.Unprintable

/-!
# Characters in diagnostics

A diagnostic shows a character between single quotes. A character that would be invisible there, or
that would merge with the quote before it, is shown by the hexadecimal number of its code point.

## Main definitions

* `isCombining`, `isInvisible` — the characters that are shown by their number
* `charLiteral` — the quoted form of a character
-/

namespace JackCompiler

/-- The escape of a code point: its hexadecimal digits, in lower case, between braces. -/
def codePointEscape (c : Char) : String :=
  "\\u\x7b" ++ String.ofList (Nat.toDigits 16 c.toNat) ++ "\x7d"

/-- The voiced and semi-voiced sound marks of halfwidth katakana. They extend the grapheme before
them, but are drawn in a cell of their own. -/
def isHalfwidthSoundMark (c : Char) : Bool :=
  c == '\uff9e' || c == '\uff9f'

/-- A character that is drawn over the one before it. -/
def isCombining (c : Char) : Bool :=
  isGraphemeExtend c && !isHalfwidthSoundMark c

/-- A character that may show nothing at all. -/
def isInvisible (c : Char) : Bool :=
  isUnprintable c || isDefaultIgnorable c

/-- A character between its quotes: a short escape where there is one, the code point of a
combining or invisible character, else the character itself. A double quote needs no escape. -/
def charLiteralBody (c : Char) : String :=
  match c with
  | '\x00' => "\\0"
  | '\t' => "\\t"
  | '\n' => "\\n"
  | '\r' => "\\r"
  | '\'' => "\\'"
  | '\\' => "\\\\"
  | _ => if isCombining c || isInvisible c then codePointEscape c else c.toString

/-- A character in single quotes. -/
def charLiteral (c : Char) : String :=
  "'" ++ charLiteralBody c ++ "'"

end JackCompiler
