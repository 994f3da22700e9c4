/-!
# Character classes of a source text

The classes that decide where a token begins and ends. All of them are classes of ASCII characters:
a character outside ASCII is never part of a word, a number or a gap between tokens.

## Main definitions

* `isBlank` — the four characters that may stand between tokens
* `isWordStart`, `isWordPart` — the characters that begin and continue a word
* `isAscii` — the characters that a quoted string may hold
-/

namespace JackCompiler

/-- Space, tab, line feed and carriage return separate tokens; no other character is a blank. -/
def isBlank (c : Char) : Bool :=
  c == ' ' || c == '\t' || c == '\n' || c == '\r'

/-- Line feed and carriage return end a line comment. -/
def endsLineComment (c : Char) : Bool :=
  c == '\n' || c == '\r'

/-- A word begins with a letter or an underscore. -/
def isWordStart (c : Char) : Bool :=
  c.isAlpha || c == '_'

/-- A word goes on with letters, digits and underscores. -/
def isWordPart (c : Char) : Bool :=
  isWordStart c || c.isDigit

/-- The first 128 code points. -/
def isAscii (c : Char) : Bool :=
  c.val < 0x80

/-- The characters between the quotes of a string: every ASCII character but the quote itself. -/
def isQuotable (c : Char) : Bool :=
  c != '"' && isAscii c

end JackCompiler
