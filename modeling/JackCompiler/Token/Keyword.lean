/-!
# Reserved words

## Main definitions

* `Keyword` — the reserved words of Jack
* `Keyword.text`, `Keyword.ofText?` — spelling, and reading a spelling back
-/

namespace JackCompiler

/-- The reserved words of Jack. -/
inductive Keyword where
  | «class» | constructor | function | method | field | static | var
  | int | char | boolean | void
  | «true» | «false» | null | this
  | «let» | «do» | «if» | «else» | «while» | «return»
deriving DecidableEq, Repr, Inhabited

namespace Keyword

/-- The spelling of a keyword. -/
def text : Keyword → String
  | .«class» => "class"
  | .constructor => "constructor"
  | .function => "function"
  | .method => "method"
  | .field => "field"
  | .static => "static"
  | .var => "var"
  | .int => "int"
  | .char => "char"
  | .boolean => "boolean"
  | .void => "void"
  | .«true» => "true"
  | .«false» => "false"
  | .null => "null"
  | .this => "this"
  | .«let» => "let"
  | .«do» => "do"
  | .«if» => "if"
  | .«else» => "else"
  | .«while» => "while"
  | .«return» => "return"

/-- Every keyword, each once. -/
def all : List Keyword :=
  [.«class», .constructor, .function, .method, .field, .static, .var,
    .int, .char, .boolean, .void, .«true», .«false», .null, .this,
    .«let», .«do», .«if», .«else», .«while», .«return»]

/-- The keyword with the given spelling. Case matters. -/
def ofText? (text : String) : Option Keyword :=
  all.find? (·.text == text)

theorem mem_all (keyword : Keyword) : keyword ∈ all := by
  cases keyword <;> decide

/-- Reading the spelling of a keyword gives the keyword back. -/
theorem ofText?_text (keyword : Keyword) : ofText? keyword.text = some keyword := by
  cases keyword <;> decide

/-- Only a keyword's own spelling is read as that keyword. -/
theorem text_of_ofText? {text : String} {keyword : Keyword} (h : ofText? text = some keyword) :
    keyword.text = text := by
  simpa using List.find?_some h

end Keyword

end JackCompiler
