import JackCompiler.Token.Lexer

/-!
# Streams of tokens with one token of look-ahead

A stream holds the token that comes next, its look-ahead, and reads the one behind it only when the
look-ahead is taken. A lexical fault behind the look-ahead therefore shows when the look-ahead is
taken; from then on the stream has none.

## Main definitions

* `TokenStream` — a lexer, the look-ahead, and the line of the token that was taken last
* `TokenStream.location`, `TokenStream.mismatch` — where the stream stands, and the fault of
  meeting the wrong token there
* `TokenReader` — steps that take tokens from a stream and may fail; a failed step keeps the stream
  that it has left
-/

namespace JackCompiler

/-- The tokens of a source that have not been taken yet. -/
structure TokenStream where
  lexer : Lexer
  /-- The token that comes next, if there is one. -/
  lookahead : Option Token
  /-- The line of the token that was taken last. -/
  lastLine : Nat := 1
deriving Repr, Inhabited

namespace TokenStream

/-- Reads the first token. -/
def ofLexer (lexer : Lexer) : Except (Located LexicalFault) TokenStream :=
  match lexer.next with
  | (.ok lookahead, lexer) => .ok { lexer, lookahead }
  | (.error fault, _) => .error fault

/-- The kind of the look-ahead. -/
def kind? (stream : TokenStream) : Option TokenKind :=
  stream.lookahead.map (·.kind)

/-- The keyword that comes next. -/
def keyword? (stream : TokenStream) : Option Keyword :=
  stream.lookahead.bind (·.keyword?)

/-- The symbol that comes next. -/
def symbol? (stream : TokenStream) : Option Char :=
  stream.lookahead.bind (·.symbol?)

/-- Whether the given symbol comes next. -/
def atSymbol (stream : TokenStream) (c : Char) : Bool :=
  stream.symbol? == some c

/-- The value of the look-ahead if it is an integer constant. -/
def integerValue? (stream : TokenStream) : Option Nat :=
  stream.lookahead.bind (·.integerValue?)

/-- The contents of the look-ahead, without its quotes, if it is a string constant. -/
def stringValue? (stream : TokenStream) : Option String :=
  stream.lookahead.bind (·.stringValue?)

/-- The place of the look-ahead, or of the token that was taken last if none is left. -/
def location (stream : TokenStream) : Location where
  file := stream.lexer.file
  line := (stream.lookahead.map (·.line)).getD stream.lastLine

/-- The fault that something else was expected in place of the look-ahead. -/
def mismatch (stream : TokenStream) (expected : String) : Fault :=
  .syntactic {
    location := stream.location
    cause := .mismatch expected <|
      match stream.lookahead with
      | some token => "'" ++ token.text ++ "'"
      | none => "end of file" }

/-- A number that no run of tokens still to be taken exceeds in length: the look-ahead, and a token
for each byte that has not been read. -/
def tokensLeft (stream : TokenStream) : Nat :=
  match stream.lookahead with
  | some _ => stream.lexer.bytesLeft + 1
  | none => stream.lexer.bytesLeft

end TokenStream

/-- A step that takes tokens from a stream. -/
abbrev TokenReader (α : Type) := ExceptT Fault (StateM TokenStream) α

namespace TokenReader

/-- Takes the look-ahead, whatever it is. -/
def next : TokenReader Token := do
  let stream ← get
  match stream.lookahead with
  | none => throw (stream.mismatch "more tokens")
  | some token =>
    match stream.lexer.next with
    | (.ok lookahead, lexer) =>
      set { lexer, lookahead, lastLine := token.line : TokenStream }
      return token
    | (.error fault, lexer) =>
      set { lexer, lookahead := none, lastLine := token.line : TokenStream }
      throw (.lexical fault)

/-- Takes the look-ahead if it has the given kind, and tells whether it did. -/
def accept (kind : TokenKind) : TokenReader Bool := do
  if (← get).kind? == some kind then
    let _ ← next
    return true
  else return false

/-- Takes a token of the given kind. -/
def expect (kind : TokenKind) : TokenReader Token := do
  let stream ← get
  if stream.kind? == some kind then next
  else throw (stream.mismatch kind.description)

/-- Takes the given symbol. -/
def expectSymbol (c : Char) : TokenReader Token :=
  expect (.symbol c)

/-- Takes the given keyword. -/
def expectKeyword (word : Keyword) : TokenReader Token :=
  expect (.keyword word)

/-- How a diagnostic names a choice of keywords. -/
def choiceOf (words : List Keyword) : String :=
  "one of: " ++ ", ".intercalate (words.map fun word => "'" ++ word.text ++ "'")

/-- Takes one of the given keywords, and tells which. -/
def expectOneOf (words : List Keyword) : TokenReader Keyword := do
  let stream ← get
  match stream.keyword? with
  | some word =>
    if words.contains word then
      let _ ← next
      return word
    else throw (stream.mismatch (choiceOf words))
  | none => throw (stream.mismatch (choiceOf words))

/-- Takes an identifier. -/
def expectName : TokenReader String :=
  return (← expect .identifier).text

end TokenReader

end JackCompiler
