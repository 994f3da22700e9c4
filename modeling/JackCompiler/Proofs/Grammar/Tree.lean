import JackCompiler.Codegen.Class

/-!
# Syntax trees and the token lists they derive

A tree records which alternative of each production a class is made of. Its terminals, read from
left to right, are the token list that it derives: the grammar is the map from trees to lists, and a
list is derived if it is the list of some tree. Every production is quoted where its tree is
defined.

## Main definitions

* `Grammar.Terminal`, `Token.terminal` — what the grammar sees of a token
* `Grammar.Term`, `Grammar.Expression`, `Grammar.Call`, `Grammar.Statement` — the recursive
  productions
* `Grammar.SubroutineDeclaration`, `Grammar.ClassDeclaration` — declarations
* `Grammar.ClassDeclaration.terminals` — the token list that a class derives
-/

namespace JackCompiler

/-- What the grammar sees of a token: neither its place nor the quotes of a string. -/
inductive Grammar.Terminal where
  | keyword (word : Keyword)
  | symbol (c : Char)
  | integer (digits : String)
  | string (contents : List Char)
  | identifier (name : String)
deriving DecidableEq, Repr, Inhabited

/-- The terminal that a token is. -/
def Token.terminal (token : Token) : Grammar.Terminal :=
  match token.kind with
  | .keyword word => .keyword word
  | .symbol c => .symbol c
  | .integer => .integer token.text
  | .string => .string (unquote token.text.toList)
  | .identifier => .identifier token.text

/-- The character that an operator is written as. -/
def BinaryOperator.symbol : BinaryOperator → Char
  | .add => '+'
  | .sub => '-'
  | .mul => '*'
  | .div => '/'
  | .and => '&'
  | .or => '|'
  | .lt => '<'
  | .gt => '>'
  | .eq => '='

/-- A character stands for the operator that is written as it. -/
theorem BinaryOperator.ofSymbol?_eq_some_iff {c : Char} {operator : BinaryOperator} :
    ofSymbol? c = some operator ↔ c = operator.symbol := by
  constructor
  · intro h
    unfold ofSymbol? at h
    split at h <;> simp_all [symbol]
    all_goals (subst h; rfl)
  · rintro rfl
    cases operator <;> rfl

theorem BinaryOperator.symbol_injective {a b : BinaryOperator} (h : a.symbol = b.symbol) :
    a = b := by
  cases a <;> cases b <;> simp_all [symbol]

namespace Grammar

/-- The keywords that are constants. -/
inductive ConstantWord where
  | «true» | «false» | null | this
deriving DecidableEq, Repr, Inhabited

/-- The keyword that a constant is written as. -/
def ConstantWord.keyword : ConstantWord → Keyword
  | .«true» => .«true»
  | .«false» => .«false»
  | .null => .null
  | .this => .this

theorem ConstantWord.keyword_injective {a b : ConstantWord} (h : a.keyword = b.keyword) :
    a = b := by
  cases a <;> cases b <;> simp_all [keyword]

/-- The signs in front of a term. -/
inductive UnaryOperator where
  | neg | not
deriving DecidableEq, Repr, Inhabited

/-- The character that a sign is written as. -/
def UnaryOperator.symbol : UnaryOperator → Char
  | .neg => '-'
  | .not => '~'

theorem UnaryOperator.symbol_injective {a b : UnaryOperator} (h : a.symbol = b.symbol) :
    a = b := by
  cases a <;> cases b <;> simp_all [symbol]

mutual

/-- Constant, variable, array element, call, `(` expression `)` or unary op term. -/
inductive Term where
  | integer (digits : String)
  | string (contents : List Char)
  | constant (word : ConstantWord)
  | named (name : String)
  | element (array : String) (index : Expression)
  | call (target : Call)
  | parentheses (inner : Expression)
  | unary (operator : UnaryOperator) (operand : Term)
deriving Repr, Inhabited

/-- A term (op expression)?. Operators associate to the right. -/
inductive Expression where
  | single (term : Term)
  | binary (left : Term) (operator : BinaryOperator) (right : Expression)
deriving Repr

/-- A name `(` expressionList `)` or (className | varName) `.` name `(` expressionList `)`. -/
inductive Call where
  | bare (name : String) (arguments : List Expression)
  | qualified (owner name : String) (arguments : List Expression)
deriving Repr

end

/-- One of the five statements. The alternatives of `let` and `if` are told apart. -/
inductive Statement where
  | assign (target : String) (value : Expression)
  | assignElement (array : String) (index value : Expression)
  | ifThen (condition : Expression) (body : List Statement)
  | ifElse (condition : Expression) (body otherwise : List Statement)
  | loop (condition : Expression) (body : List Statement)
  | discard (target : Call)
  | giveBack (value : Option Expression)
deriving Repr

/-- A type: `int` | `char` | `boolean` | className. -/
inductive TypeName where
  | int | char | boolean
  | named (className : String)
deriving DecidableEq, Repr, Inhabited

/-- A type name (`,` name)* `;`. -/
structure VariableList where
  type : TypeName
  first : String
  others : List String
deriving DecidableEq, Repr, Inhabited

/-- (`static` | `field`) and a list of variables. -/
structure ClassVariables where
  isStatic : Bool
  list : VariableList
deriving DecidableEq, Repr, Inhabited

/-- A type and a name. -/
structure Parameter where
  type : TypeName
  name : String
deriving DecidableEq, Repr, Inhabited

/-- (`constructor` | `function` | `method`) (`void` | type) name `(` parameterList `)` `{` varDec*
statements `}`. -/
structure SubroutineDeclaration where
  kind : SubroutineKind
  /-- The type, or nothing for `void`. -/
  returnType : Option TypeName
  name : String
  parameters : List Parameter
  locals : List VariableList
  body : List Statement
deriving Repr

/-- The keyword `class`, a name and `{` classVarDec* subroutineDec* `}`. -/
structure ClassDeclaration where
  name : String
  classVariables : List ClassVariables
  subroutines : List SubroutineDeclaration
deriving Repr

/-! ### The derived token lists -/

/-- The pieces of a list, each behind a comma. -/
def behindCommas (pieces : List (List Terminal)) : List Terminal :=
  pieces.flatMap fun piece => .symbol ',' :: piece

/-- The pieces of a list with commas between them. -/
def commaSeparated : List (List Terminal) → List Terminal
  | [] => []
  | piece :: pieces => piece ++ behindCommas pieces

/-- What stands between braces. -/
def braced (inside : List Terminal) : List Terminal :=
  .symbol openingBrace :: inside ++ [.symbol closingBrace]

/-- What stands between parentheses. -/
def parenthesized (inside : List Terminal) : List Terminal :=
  .symbol '(' :: inside ++ [.symbol ')']

mutual

/-- The token list of a term. -/
def Term.terminals : Term → List Terminal
  | .integer digits => [.integer digits]
  | .string contents => [.string contents]
  | .constant word => [.keyword word.keyword]
  | .named name => [.identifier name]
  | .element array index =>
    .identifier array :: .symbol '[' :: index.terminals ++ [.symbol ']']
  | .call target => target.terminals
  | .parentheses inner => parenthesized inner.terminals
  | .unary operator operand => .symbol operator.symbol :: operand.terminals

/-- The token list of an expression. -/
def Expression.terminals : Expression → List Terminal
  | .single term => term.terminals
  | .binary left operator right => left.terminals ++ .symbol operator.symbol :: right.terminals

/-- The token list of a call. -/
def Call.terminals : Call → List Terminal
  | .bare name arguments =>
    .identifier name :: parenthesized (commaSeparated (Expression.pieces arguments))
  | .qualified owner name arguments =>
    .identifier owner :: .symbol '.' :: .identifier name ::
      parenthesized (commaSeparated (Expression.pieces arguments))

/-- The token lists of several expressions. -/
def Expression.pieces : List Expression → List (List Terminal)
  | [] => []
  | e :: rest => e.terminals :: Expression.pieces rest

end

@[simp] theorem Expression.pieces_eq_map (es : List Expression) :
    Expression.pieces es = es.map Expression.terminals := by
  induction es with
  | nil => rfl
  | cons e es ih => simp [Expression.pieces, ih]

/-- The token list of what a `return` gives back. -/
def returnedTerminals : Option Expression → List Terminal
  | none => []
  | some e => e.terminals

mutual

/-- The token list of a statement. -/
def Statement.terminals : Statement → List Terminal
  | .assign target value =>
    .keyword .«let» :: .identifier target :: .symbol '=' :: value.terminals ++ [.symbol ';']
  | .assignElement array index value =>
    .keyword .«let» :: .identifier array :: .symbol '[' :: index.terminals ++
      .symbol ']' :: .symbol '=' :: value.terminals ++ [.symbol ';']
  | .ifThen condition body =>
    .keyword .«if» :: parenthesized condition.terminals ++ braced (Statement.blockTerminals body)
  | .ifElse condition body otherwise =>
    .keyword .«if» :: parenthesized condition.terminals ++ braced (Statement.blockTerminals body) ++
      .keyword .«else» :: braced (Statement.blockTerminals otherwise)
  | .loop condition body =>
    .keyword .«while» :: parenthesized condition.terminals ++
      braced (Statement.blockTerminals body)
  | .discard target => .keyword .«do» :: target.terminals ++ [.symbol ';']
  | .giveBack value => .keyword .«return» :: returnedTerminals value ++ [.symbol ';']

/-- The token list of several statements. -/
def Statement.blockTerminals : List Statement → List Terminal
  | [] => []
  | statement :: rest => statement.terminals ++ Statement.blockTerminals rest

end

@[simp] theorem Statement.blockTerminals_eq_flatMap (statements : List Statement) :
    Statement.blockTerminals statements = statements.flatMap Statement.terminals := by
  induction statements with
  | nil => rfl
  | cons statement rest ih => simp [Statement.blockTerminals, ih]

/-- The terminal that a type is. -/
def TypeName.terminal : TypeName → Terminal
  | .int => .keyword .int
  | .char => .keyword .char
  | .boolean => .keyword .boolean
  | .named className => .identifier className

/-- The names of a list of variables, in order. -/
def VariableList.names (list : VariableList) : List String :=
  list.first :: list.others

/-- The token list of a list of variables. -/
def VariableList.terminals (list : VariableList) : List Terminal :=
  list.type.terminal :: commaSeparated (list.names.map fun name => [.identifier name]) ++
    [.symbol ';']

/-- The keyword that begins a declaration of class variables. -/
def ClassVariables.keyword (declaration : ClassVariables) : Keyword :=
  if declaration.isStatic then .static else .field

/-- The token list of a declaration of class variables. -/
def ClassVariables.terminals (declaration : ClassVariables) : List Terminal :=
  .keyword declaration.keyword :: declaration.list.terminals

/-- The token list of a declaration of local variables. -/
def localTerminals (list : VariableList) : List Terminal :=
  .keyword .var :: list.terminals

/-- The token list of a parameter. -/
def Parameter.terminals (parameter : Parameter) : List Terminal :=
  [parameter.type.terminal, .identifier parameter.name]

/-- The keyword that begins a subroutine of a kind. -/
def kindKeyword : SubroutineKind → Keyword
  | .constructor => .constructor
  | .function => .function
  | .method => .method

/-- The terminal of a return type. -/
def returnTypeTerminal : Option TypeName → Terminal
  | none => .keyword .void
  | some type => type.terminal

/-- The token list of a subroutine. -/
def SubroutineDeclaration.terminals (s : SubroutineDeclaration) : List Terminal :=
  .keyword (kindKeyword s.kind) :: returnTypeTerminal s.returnType :: .identifier s.name ::
    parenthesized (commaSeparated (s.parameters.map Parameter.terminals)) ++
      braced (s.locals.flatMap localTerminals ++ Statement.blockTerminals s.body)

/-- The token list of a class. -/
def ClassDeclaration.terminals (c : ClassDeclaration) : List Terminal :=
  .keyword .«class» :: .identifier c.name ::
    braced (c.classVariables.flatMap ClassVariables.terminals ++
      c.subroutines.flatMap SubroutineDeclaration.terminals)

end Grammar

end JackCompiler
