import JackCompiler.Fault
import JackCompiler.Token.Basic
import JackCompiler.Token.Gap

/-!
# Reading tokens

A lexer reads a source token by token, each as long as possible. It can be asked at any time
whether a token is left, made to take one, or both at once. A request that fails leaves the current
token as it was and the lexer usable; only its cursor has moved.

## Main definitions

* `Cursor.token` — the token that starts at a cursor
* `Lexer.hasMore`, `Lexer.advance`, `Lexer.next` — the requests
* `Lexer.toEnd` — all tokens up to the end of the source or the first fault
-/

namespace JackCompiler

/-- The token of the given kind that starts at a cursor. -/
def Cursor.tokenOf (cursor : Cursor) (kind : TokenKind) (text : List Char) : Token where
  kind
  text := String.ofList text
  line := cursor.position.line
  index := cursor.position.offset

/-- Takes the token that starts at a cursor, whatever character stands there: the longest word or
number, a string up to its closing quote, or a single character. -/
def Cursor.token (cursor : Cursor) : Except LexicalFault Token × Cursor :=
  match cursor.rest with
  | [] => (.error .unexpectedEnd, cursor)
  | first :: rest =>
    if isWordStart first then
      let (word, behind) := cursor.run isWordPart
      (.ok (cursor.tokenOf (.ofWord (String.ofList word)) word), behind)
    else if first.isDigit then
      let (digits, behind) := cursor.run Char.isDigit
      match decimalValue? digits with
      | some _ => (.ok (cursor.tokenOf .integer digits), behind)
      | none => (.error (.integerOverflow (String.ofList digits)), behind)
    else
      let opened : Cursor := { rest, position := cursor.position.after first }
      if first == '"' then
        let (contents, reached) := opened.run isQuotable
        match reached.rest with
        | [] => (.error .unterminatedString, reached)
        | c :: rest =>
          let behind : Cursor := { rest, position := reached.position.after c }
          if c == '"' then (.ok (cursor.tokenOf .string ('"' :: contents ++ ['"'])), behind)
          else (.error (.nonAsciiString c), behind)
      else (.ok (cursor.tokenOf (.symbol first) [first]), opened)

/-- A source that is being read. -/
structure Lexer where
  /-- The name of the source in diagnostics. -/
  file : String
  source : String
  cursor : Cursor
  /-- The token that was taken last. -/
  current : Option Token := none
deriving Repr, Inhabited

namespace Lexer

/-- A lexer at the start of a source. -/
def ofSource (file source : String) : Lexer where
  file
  source
  cursor := .ofText source

/-- The line of the cursor. -/
def line (lexer : Lexer) : Nat :=
  lexer.cursor.position.line

/-- The number of bytes behind the cursor. No token is empty, so there are at most as many
tokens. -/
def bytesLeft (lexer : Lexer) : Nat :=
  lexer.source.utf8ByteSize - lexer.cursor.position.offset

/-- A fault on the given line of the source. -/
def fault (lexer : Lexer) (line : Nat) (cause : LexicalFault) : Located LexicalFault where
  location := { file := lexer.file, line }
  cause

/-- Moves to the next token and tells whether there is one. -/
def hasMore (lexer : Lexer) : Except (Located LexicalFault) Bool × Lexer :=
  match lexer.cursor.skipGap with
  | (cursor, none) => (.ok !cursor.rest.isEmpty, { lexer with cursor })
  | (cursor, some opened) =>
    (.error (lexer.fault opened .unterminatedComment), { lexer with cursor })

/-- Takes the token at the cursor and makes it the current one. -/
def advance (lexer : Lexer) : Except (Located LexicalFault) Token × Lexer :=
  match lexer.cursor.token with
  | (.ok token, cursor) => (.ok token, { lexer with cursor, current := some token })
  | (.error cause, cursor) => (.error (lexer.fault lexer.line cause), { lexer with cursor })

/-- Moves to the next token and takes it. At the end of the source there is no current token any
more. -/
def next (lexer : Lexer) : Except (Located LexicalFault) (Option Token) × Lexer :=
  match lexer.hasMore with
  | (.error fault, lexer) => (.error fault, lexer)
  | (.ok false, lexer) => (.ok none, { lexer with current := none })
  | (.ok true, lexer) =>
    match lexer.advance with
    | (.ok token, lexer) => (.ok (some token), lexer)
    | (.error fault, lexer) => (.error fault, lexer)

/-- What is read of a source up to its end or its first fault. -/
structure Reading where
  tokens : Array Token
  fault : Option (Located LexicalFault)
  /-- The lexer where the reading stopped. -/
  final : Lexer
deriving Repr, Inhabited

/-- Reads at most `bound` more tokens behind those already read. -/
def readFrom (read : Array Token) : Nat → Lexer → Reading
  | 0, lexer => { tokens := read, fault := none, final := lexer }
  | bound + 1, lexer =>
    match lexer.next with
    | (.ok (some token), lexer) => readFrom (read.push token) bound lexer
    | (.ok none, lexer) => { tokens := read, fault := none, final := lexer }
    | (.error fault, lexer) => { tokens := read, fault := some fault, final := lexer }

/-- Reads up to the end of the source or the first fault. -/
def toEnd (lexer : Lexer) : Reading :=
  readFrom #[] (lexer.bytesLeft + 1) lexer

end Lexer

end JackCompiler
