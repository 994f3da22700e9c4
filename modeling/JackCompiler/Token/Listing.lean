import JackCompiler.Output.Sink
import JackCompiler.Token.Lexer

/-!
# Token listings

A token listing is an XML document with one line for each token of a source, between an opening and
a closing line. A string constant is listed without its quotes.

## Main definitions

* `ListingLine` — the lines of a listing, and their text
* `writeListing` — writes the listing of a source to a sink
-/

namespace JackCompiler

/-- The text of a character in a listing: the four characters that belong to the markup are written
as entities. -/
def escapeMarkup : Char → String
  | '<' => "&lt;"
  | '>' => "&gt;"
  | '&' => "&amp;"
  | '"' => "&quot;"
  | c => c.toString

/-- A text as it is written in a listing. -/
def escapeText (text : String) : String :=
  String.join (text.toList.map escapeMarkup)

/-- A line of a token listing. -/
inductive ListingLine where
  | opening
  | token (type : TokenType) (text : String)
  | closing
deriving DecidableEq, Repr, Inhabited

namespace ListingLine

/-- The line of a token. -/
def ofToken (token : Token) : ListingLine :=
  .token token.kind.type (token.stringValue?.getD token.text)

/-- The text of a line. -/
def text : ListingLine → String
  | .opening => "<tokens>"
  | .token type text =>
    "<" ++ type.text ++ "> " ++ escapeText text ++ " </" ++ type.text ++ ">"
  | .closing => "</tokens>"

end ListingLine

/-- A step that writes a listing. It keeps what it has written when it fails. -/
abbrev ListingWriter (α : Type) := ExceptT Fault (StateM (Sink ListingLine)) α

namespace ListingWriter

/-- Writes one line. -/
def emit (line : ListingLine) : ListingWriter Unit := fun sink =>
  match sink.write ListingLine.text line with
  | (.ok (), sink) => (.ok (), sink)
  | (.error fault, sink) => (.error (.storage fault), sink)

/-- Writes the lines of at most `bound` tokens. -/
def emitTokens : Nat → Lexer → ListingWriter Unit
  | 0, _ => return
  | bound + 1, lexer => do
    match lexer.next with
    | (.ok none, _) => return
    | (.ok (some token), lexer) =>
      emit (.ofToken token)
      emitTokens bound lexer
    | (.error fault, _) => throw (.lexical fault)

/-- Writes the listing of all tokens that a lexer has still to read. -/
def listing (lexer : Lexer) : ListingWriter Unit := do
  emit .opening
  emitTokens (lexer.bytesLeft + 1) lexer
  emit .closing
  match (← get).flush with
  | .ok () => return
  | .error fault => throw (.storage fault)

end ListingWriter

/-- Writes the token listing of a source. A fault ends the listing at the token before it. -/
def writeListing (file source : String) (sink : Sink ListingLine) :
    Except Fault Unit × Sink ListingLine :=
  (ListingWriter.listing (.ofSource file source)).run.run sink

end JackCompiler
