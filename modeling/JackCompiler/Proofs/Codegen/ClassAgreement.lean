import JackCompiler.Proofs.Codegen.Agreement

/-!
# Classes are compiled alike by passes that count

Every production of a pass that counts comes to the same as the one of the code generator that it is
made from. Terms and blocks do so at every number of open levels, if the code generator is given the
levels that are left: then both are out of levels at the same place.

## Main results

* `Watch.Mirrors.term`, `Watch.Mirrors.statements` — terms and blocks at any depth
* `Watch.Mirrors.classSource` — whole classes
-/

namespace JackCompiler.Watch

open Codegen (Advances TakesIf Lockstep)

variable {limits : Limits} {W : Watch limits} {L : Lockstep} {d n : Nat}
  {shows : TokenStream → Prop} {x body : Codegen Unit} {x' body' : Counted limits Unit}

/-! ### Steps that both passes have in common -/

namespace Keeps

theorem pushReceiver (receiver : Receiver) : W.Keeps shows n n (Codegen.pushReceiver receiver) := by
  cases receiver <;> exact .emit _

theorem callTarget (className first : String) :
    W.Keeps shows n n (Codegen.callTarget className first) := by
  refine .bind (.acceptSymbol '.') fun qualified => ?_
  split
  · refine .bind .takeName fun name => .bind (.lookup? first) fun found => ?_
    cases found with
    | some v => exact .pure _
    | none => exact .pure _
  · exact .pure _

theorem keywordConstant (word : Keyword)
    (more : ∀ stream, shows stream → stream.lookahead.isSome = true) :
    W.Keeps shows n n (Codegen.keywordConstant word) := by
  unfold Codegen.keywordConstant
  split
  · exact .bind (.weaken (.skip more)) fun _ => .bind (.emit _) fun _ => .emit _
  · exact .bind (.weaken (.skip more)) fun _ => .emit _
  · exact .bind (.weaken (.skip more)) fun _ => .emit _
  · exact .bind (.weaken (.skip more)) fun _ => .emit _
  · exact .failExpecting (by decide)

theorem stringConstant (contents : List Char) :
    W.Keeps shows n n (Codegen.stringConstant contents) :=
  .bind (.emit _) fun _ => .bind (.emit _) fun _ => .forM fun _ => .bind (.emit _) fun _ => .emit _

theorem tooManyArguments : W.Keeps shows n n
    (do Codegen.failAt (← Codegen.location) (.tooMany "arguments") : Codegen Unit) :=
  .location fun _ => .failAt (by simp) (by simp)

theorem jumpUnless (label : String) : W.Keeps shows n n (Codegen.jumpUnless label) :=
  .bind (.emit _) fun _ => .emit _

theorem reportMissingValue (subroutine : Subroutine) :
    W.Keeps shows n n (Codegen.reportMissingValue subroutine) := by
  unfold Codegen.reportMissingValue
  split
  · exact .location fun _ => .report _
  · exact .pure ()

theorem typeName : W.Keeps shows n n Codegen.typeName := by
  refine .look fun kind => ?_
  split
  · split
    · refine .bind (.weaken (.skip fun stream isNext => ?_)) fun _ => .pure _
      exact TokenStream.isSome_lookahead_of_kind? (by rw [isNext]; exact beq_self_eq_true _)
    · exact .failExpecting (by decide)
  · exact .takeName
  · exact .failExpecting (by decide)

theorem declareNext (type : String) (kind : VariableKind) :
    W.Keeps shows n n (Codegen.declareNext type kind) :=
  .location fun _ => .bind .takeName fun name => .declare name type kind _

theorem returnType : W.Keeps shows n n Codegen.returnType := by
  refine .bind (.acceptKeyword .void) fun isVoid => ?_
  split
  · exact .pure _
  · exact .bind .typeName fun type => .pure _

theorem declareReceiver (kind : SubroutineKind) (className : String) (place : Location) :
    W.Keeps shows n n (Codegen.declareReceiver kind className place) := by
  cases kind with
  | method => exact .declare "this" className .argument place
  | constructor | function => exact .pure ()

theorem prologue (kind : SubroutineKind) : W.Keeps shows n n (Codegen.prologue kind) := by
  cases kind with
  | constructor =>
    exact .bind (.declarations .field) fun fields => .bind (.emit _) fun _ => .bind (.emit _)
      fun _ => .emit _
  | method => exact .bind (.emit _) fun _ => .emit _
  | function => exact .pure ()

theorem expectEnd : W.Keeps shows n n Codegen.expectEnd := by
  refine .look fun more => ?_
  split
  · exact .failExpecting (by decide)
  · exact .pure ()

end Keeps

/-! ### Rounds that take tokens -/

theorem takesIf_operatorRound (moves : Advances x) (pending : List BinaryOperator) :
    TakesIf (·.isSome) (Codegen.operatorRound x pending) := by
  refine .second (.look _) (fun operator => ?_) fun operator => ?_
  · cases operator with
    | some operator => exact .bind .skip fun _ => .bind moves fun _ => .pure _
    | none => exact .pure _
  · cases operator with
    | some operator =>
      exact TakesIf.skip.bind .skip (fun _ => .bind moves fun _ => .pure _)
        fun _ idle => absurd trivial idle
    | none => exact .pure (by simp)

theorem advances_accept (kind : TokenKind) :
    Advances (Codegen.read (TokenReader.accept kind)) := by
  rw [Codegen.accept_eq]
  refine .bind (.look _) fun found => ?_
  split
  · exact .bind .skip fun _ => .pure true
  · exact .pure false

/-- One comma and what is repeated behind it. -/
theorem takesIf_behindComma {α : Type} {going : α → Prop} {next : Codegen α} {a : α}
    (moves : Advances next) (stops : ¬ going a) :
    TakesIf going (do if ← Codegen.acceptSymbol ',' then next else return a) := by
  refine (TakesIf.accept (.symbol ',')).bind (advances_accept _) (fun more => ?_)
    fun more none => ?_
  · split
    · exact moves
    · exact .pure _
  · rw [if_neg none]
    exact .pure stops

namespace Mirrors

/-! ### Expressions -/

section Terms

variable (steady : L.Keeps x x) (term : ∀ {shows n}, W.Mirrors d shows n n x' x)

include steady term

theorem expression : W.Mirrors d shows n n (Counted.expression x') (Codegen.expression x) := by
  refine .bind term fun _ => .bind (.iterate (fun pending => ?_)
    (takesIf_operatorRound steady.left) []) fun operators => .lift (.forM fun _ => .emit _)
  refine .look fun operator => ?_
  cases operator with
  | some operator =>
    refine .bind (.lift (.weaken (.skip fun stream isNext => ?_))) fun _ => .bind term fun _ =>
      .pure _
    obtain ⟨c, isNext, -⟩ := Option.bind_eq_some_iff.mp isNext
    exact TokenStream.isSome_lookahead_of_bind isNext
  | none => exact .pure _

theorem elementAddress (array : Variable) :
    W.Mirrors d shows n n (Counted.elementAddress x' array) (Codegen.elementAddress x array) :=
  .bind (.lift (.emit _)) fun _ => .bind (.expression steady term) fun _ =>
    .bind (.lift (.skipSymbol _)) fun _ => .lift (.emit _)

theorem argumentList :
    W.Mirrors d shows n n (Counted.argumentList x') (Codegen.argumentList x) := by
  refine .look fun closes => ?_
  split
  · exact .pure 0
  refine .bind (.expression steady term) fun _ => .iterate (fun count => ?_) (fun count => ?_) 1
  · refine .bind (.lift (.acceptSymbol ',')) fun more => ?_
    split
    · refine .bind (.expression steady term) fun _ => ?_
      split
      · exact .pure _
      · exact .lift (.location fun _ => .failAt (by simp) (by simp))
    · exact .pure none
  · refine takesIf_behindComma (.bind (Lockstep.Keeps.expression steady).left fun _ => ?_) (by simp)
    split
    · exact .pure _
    · exact .bind (.look _) fun _ => .throw _

theorem call (className first : String) :
    W.Mirrors d shows n n (Counted.call className x' first) (Codegen.call className x first) := by
  refine .bind (.lift (.callTarget className first)) fun target => ?_
  have pushed : W.Keeps anything n n (target.receiver?.forM Codegen.pushReceiver) := by
    cases target.receiver? with
    | some receiver => exact .pushReceiver receiver
    | none => exact .pure ()
  refine .bind (.lift (.skipSymbol '(')) fun _ => .bind (.lift pushed) fun _ =>
    .bind (.argumentList steady term) fun explicit => ?_
  cases target.argumentCount? explicit with
  | some count => exact .bind (.lift (.skipSymbol ')')) fun _ => .lift (.emit _)
  | none => exact .lift .tooManyArguments

theorem named (className : String) :
    W.Mirrors d shows n n (Counted.named className x') (Codegen.named className x) := by
  refine .bind (.lift fun s holds _ => .answer holds) fun place => .bind (.lift .takeName)
    fun name => .look fun next => ?_
  -- Both passes choose in the same way, by what comes behind the name.
  by_cases element : next = some '['
  · subst element
    refine .bind (.lift (.weaken (.skip fun stream isNext => ?_))) fun _ =>
      .bind (.lift (.resolve name place)) fun array => .bind (.elementAddress steady term array)
        fun _ => .bind (.lift (.emit _)) fun _ => .lift (.emit _)
    exact TokenStream.isSome_lookahead_of_bind isNext
  by_cases bare : next = some '('
  · subst bare
    exact .call steady term className name
  by_cases qualified : next = some '.'
  · subst qualified
    exact .call steady term className name
  · -- Behind a variable stands none of the three symbols.
    simp only
    exact .lift (.bind (.resolve name place) fun v => .emit _)

theorem operand (className : String) :
    W.Mirrors d shows n n (Counted.operand className x') (Codegen.operand className x) := by
  refine .look fun ahead => ?_
  cases ahead with
  | none => exact .lift (.failExpecting (by decide))
  | some token =>
    have more (stream : TokenStream) (isNext : stream.lookahead = some token) :
        stream.lookahead.isSome = true := by
      rw [isNext, Option.isSome_some]
    obtain ⟨kind, text, line, index⟩ := token
    cases kind with
    | integer =>
      dsimp only
      cases value : Token.integerValue? { kind := .integer, text, line, index } with
      | some value => exact .bind (.lift (.weaken (.skip more))) fun _ => .lift (.emit _)
      | none =>
        -- The lexer has not let through a number that is too large.
        refine .lift (.never fun s holds isNext => ?_)
        obtain ⟨_, inRange⟩ := ((W.consistent holds).sound _ isNext).inRange rfl
        rw [value] at inRange
        cases inRange
    | string =>
      dsimp only
      split
      · rename_i short
        have fits : (unquote text.toList).length < 2 ^ 16 := by
          unfold maxInteger at short
          omega
        exact .bind (.lift (.weaken (.skip more))) fun _ => .narrow fits (.lift (.stringConstant _))
      · exact .lift (.failExpecting (by decide))
    | keyword word => exact .lift (.keywordConstant _ more)
    | identifier => exact .named steady term className
    | symbol c =>
      by_cases parenthesis : c = '('
      · subst parenthesis
        exact .bind (.lift (.weaken (.skip more))) fun _ => .bind (.expression steady term)
          fun _ => .lift (.skipSymbol ')')
      by_cases minus : c = '-'
      · subst minus
        exact .bind (.lift (.weaken (.skip more))) fun _ => .bind term fun _ => .lift (.emit _)
      by_cases tilde : c = '~'
      · subst tilde
        exact .bind (.lift (.weaken (.skip more))) fun _ => .bind term fun _ => .lift (.emit _)
      · -- No other symbol begins a term.
        simp only
        exact .lift (.failExpecting (by decide))

end Terms

/-- **Terms at any depth.** As many levels are left to the code generator as the pass may still
open. -/
theorem term (L : Lockstep) (className : String) {levels : Nat} (enough : maxNesting < levels + d) :
    W.Mirrors d shows n n (Counted.term className levels)
      (Codegen.term className (maxNesting - d)) := by
  induction levels generalizing d shows n with
  | zero => exact fun shallow => absurd enough (by omega)
  | succ levels ih =>
    by_cases room : d < maxNesting
    · obtain ⟨left, isLeft⟩ : ∃ left, maxNesting - d = left + 1 := ⟨maxNesting - d - 1, by omega⟩
      have fewer : maxNesting - (d + 1) = left := by omega
      have inner {shows : TokenStream → Prop} {n : Nat} : W.Mirrors (d + 1) shows n n
          (Counted.term className levels) (Codegen.term className left) := by
        rw [← fewer]
        exact ih (by omega)
      rw [isLeft]
      exact .nested room (.operand (Lockstep.Keeps.term (L := L) className left) inner className)
    · intro shallow
      obtain rfl : d = maxNesting := Nat.le_antisymm shallow (Nat.le_of_not_lt room)
      rw [Nat.sub_self]
      exact tooDeep shallow

/-! ### Statements -/

section Blocks

variable (steady : L.Keeps x x) (term : ∀ {shows n}, W.Mirrors d shows n n x' x)

include steady term

theorem letStatement :
    W.Mirrors d shows n n (Counted.letStatement x') (Codegen.letStatement x) := by
  refine .bind (.lift (.weaken (.skipKeyword _))) fun _ =>
    .bind (.lift fun s holds _ => .answer holds) fun place => .bind (.lift .takeName) fun name =>
      .bind (.lift (.resolve name place)) fun target => .bind (.lift (.acceptSymbol '['))
        fun isElement => ?_
  split
  · exact .bind (.elementAddress steady term target) fun _ => .bind (.lift (.skipSymbol '='))
      fun _ => .bind (.expression steady term) fun _ => .bind (.lift (.skipSymbol ';')) fun _ =>
        .bind (.lift (.emit _)) fun _ => .bind (.lift (.emit _)) fun _ => .bind (.lift (.emit _))
          fun _ => .lift (.emit _)
  · exact .bind (.lift (.skipSymbol '=')) fun _ => .bind (.expression steady term) fun _ =>
      .bind (.lift (.skipSymbol ';')) fun _ => .lift (.emit _)

theorem condition : W.Mirrors d shows n n (Counted.condition x') (Codegen.condition x) :=
  .bind (.lift (.skipSymbol '(')) fun _ => .bind (.expression steady term) fun _ =>
    .lift (.skipSymbol ')')

omit steady term in
theorem block (inside : W.Mirrors d anything n n body' body) :
    W.Mirrors d shows n n (Counted.block body') (Codegen.block body) :=
  .bind (.lift (.skipSymbol _)) fun _ => .bind inside fun _ => .lift (.skipSymbol _)

theorem doStatement (className : String) : W.Mirrors d shows n n
    (Counted.doStatement className x') (Codegen.doStatement className x) :=
  .bind (.lift (.weaken (.skipKeyword _))) fun _ => .bind (.lift .takeName) fun name =>
    .bind (.call steady term className name) fun _ => .bind (.lift (.skipSymbol ';')) fun _ =>
      .lift (.emit _)

theorem returnedValue (subroutine : Subroutine) : W.Mirrors d shows n n
    (Counted.returnedValue subroutine x') (Codegen.returnedValue subroutine x) := by
  refine .look fun none => ?_
  split
  · exact .bind (.lift (.reportMissingValue subroutine)) fun _ => .lift (.emit _)
  · exact .expression steady term

theorem returnStatement (subroutine : Subroutine) : W.Mirrors d shows n n
    (Counted.returnStatement subroutine x') (Codegen.returnStatement subroutine x) :=
  .bind (.lift (.weaken (.skipKeyword _))) fun _ => .bind (.returnedValue steady term subroutine)
    fun _ => .bind (.lift (.skipSymbol ';')) fun _ => .lift (.emit _)

variable (blocks : ∀ {n}, W.Mirrors d anything (n + 1) (n + 1) body' body)

include blocks

/-- The keyword pays for the label. -/
theorem ifStatement : W.Mirrors d shows (n + 1) (n + 1) (Counted.ifStatement x' body')
    (Codegen.ifStatement x body) := by
  refine .bind (.lift (.skipKeyword _)) fun _ => .bind (.condition steady term) fun _ =>
    .bind (.lift .freshLabel) fun _ => .bind (.lift (.jumpUnless _)) fun _ =>
      .bind (.block blocks) fun _ => .bind (.lift (.acceptKeyword _)) fun hasElse => ?_
  split
  · exact .bind (.lift (.emit _)) fun _ => .bind (.lift (.emit _)) fun _ => .bind (.block blocks)
      fun _ => .lift (.emit _)
  · exact .lift (.emit _)

/-- The label is drawn in front of the keyword that pays for it. -/
theorem whileStatement : W.Mirrors d shows (n + 1) (n + 1) (Counted.whileStatement x' body')
    (Codegen.whileStatement x body) :=
  .bind (.lift .freshLabel) fun _ => .bind (.lift (.skipKeyword _)) fun _ =>
    .bind (.lift (.emit _)) fun _ => .bind (.condition steady term) fun _ =>
      .bind (.lift (.jumpUnless _)) fun _ => .bind (.block blocks) fun _ =>
        .bind (.lift (.emit _)) fun _ => .lift (.emit _)

theorem statement (subroutine : Subroutine) : W.Mirrors d shows (n + 1) (n + 1)
    (Counted.statement subroutine x' body') (Codegen.statement subroutine x body) := by
  refine .look fun ahead => ?_
  cases ahead with
  | none => exact .pure false
  | some word =>
    cases word with
    | «let» => exact .bind (.letStatement steady term) fun _ => .pure true
    | «if» => exact .bind (.ifStatement steady term blocks) fun _ => .pure true
    | «while» => exact .bind (.whileStatement steady term blocks) fun _ => .pure true
    | «do» => exact .bind (.doStatement steady term _) fun _ => .pure true
    | «return» => exact .bind (.returnStatement steady term subroutine) fun _ => .pure true
    | _ => exact .pure false

end Blocks

/-- **Blocks at any depth.** -/
theorem statements (L : Lockstep) (subroutine : Subroutine) {levels : Nat}
    (enough : maxNesting < levels + d) :
    W.Mirrors d shows (n + 1) (n + 1) (Counted.statements subroutine levels)
      (Codegen.statements subroutine (maxNesting - d)) := by
  induction levels generalizing d shows n with
  | zero => exact fun shallow => absurd enough (by omega)
  | succ levels ih =>
    by_cases room : d < maxNesting
    · obtain ⟨left, isLeft⟩ : ∃ left, maxNesting - d = left + 1 := ⟨maxNesting - d - 1, by omega⟩
      have fewer : maxNesting - (d + 1) = left := by omega
      have terms {shows : TokenStream → Prop} {n : Nat} : W.Mirrors (d + 1) shows n n
          (Counted.term subroutine.className levels)
          (Codegen.term subroutine.className left) := by
        rw [← fewer]
        exact .term L _ (by omega)
      have blocks {n : Nat} : W.Mirrors (d + 1) anything (n + 1) (n + 1)
          (Counted.statements subroutine levels) (Codegen.statements subroutine left) := by
        rw [← fewer]
        exact ih (by omega)
      have steady := Lockstep.KeepsTaking.statement (L := L) subroutine
        (.term subroutine.className left) (.statements subroutine left)
      rw [isLeft]
      have round : W.Mirrors (d + 1) anything (n + 1) (n + 1) _ _ :=
        .statement (Lockstep.Keeps.term (L := L) _ left) terms blocks subroutine
      exact .nested room (.repeatWhile round steady.left steady.takes)
    · intro shallow
      obtain rfl : d = maxNesting := Nat.le_antisymm shallow (Nat.le_of_not_lt room)
      rw [Nat.sub_self]
      exact tooDeep shallow

/-! ### Declarations -/

/-- A keyword that begins a declaration, which may be followed by another one. -/
theorem declaration {word : Keyword} (kept : W.Mirrors d anything n n x' x) :
    W.Mirrors d (fun stream => stream.keyword? = some word) n n
      (do Counted.lift Codegen.skip; x'; return true) (do Codegen.skip; x; return true) :=
  .bind (.lift (.weaken (.skip fun _ => TokenStream.isSome_lookahead_of_bind))) fun _ =>
    .bind kept fun _ => .pure true

theorem separatedByCommas {item : Codegen Unit} (moves : Advances item)
    (kept : W.Keeps anything n n item) : W.Mirrors d anything n n (Counted.separatedByCommas item)
      (Codegen.separatedByCommas item) := by
  have goesOn : Advances (do item; return true) := .bind moves fun _ => .pure true
  refine .bind (.lift kept) fun _ => .repeatWhile (.bind (.lift (.acceptSymbol ',')) fun more => ?_)
    (.bind (advances_accept _) fun more => ?_) (takesIf_behindComma goesOn (by simp))
  · split
    · exact .bind (.lift kept) fun _ => .pure true
    · exact .pure false
  · split
    · exact goesOn
    · exact .pure false

theorem variableNames (L : Lockstep) (kind : VariableKind) :
    W.Mirrors d anything n n (Counted.variableNames kind) (Codegen.variableNames kind) :=
  .bind (.lift .typeName) fun type => .bind
    (.separatedByCommas (Lockstep.Keeps.declareNext (L := L) type kind).left
      (.declareNext type kind)) fun _ => .lift (.skipSymbol ';')

theorem classVariables (L : Lockstep) :
    W.Mirrors d anything n n Counted.classVariables Codegen.classVariables := by
  refine .look fun ahead => ?_
  cases ahead with
  | none => exact .pure false
  | some word =>
    cases word with
    | static => exact .declaration (.variableNames L .static)
    | field => exact .declaration (.variableNames L .field)
    | _ => exact .pure false

theorem localVariables (L : Lockstep) :
    W.Mirrors d anything n n Counted.localVariables Codegen.localVariables := by
  refine .look fun ahead => ?_
  cases ahead with
  | none => exact .pure false
  | some word =>
    cases word with
    | var => exact .declaration (.variableNames L .«local»)
    | _ => exact .pure false

theorem parameters (L : Lockstep) :
    W.Mirrors d anything n n Counted.parameters Codegen.parameters := by
  refine .look fun closes => ?_
  split
  · exact .pure ()
  · intro shallow s holds _
    exact separatedByCommas (Lockstep.Keeps.bind (L := L) .typeName fun type =>
      .declareNext type .argument).left (.bind .typeName fun type => .declareNext type .argument)
      shallow s holds trivial

/-! ### Classes -/

variable {levels : Nat} (enough : maxNesting < levels)

include enough

theorem subroutineBody (L : Lockstep) (kind : SubroutineKind) (subroutine : Subroutine) :
    W.Mirrors 0 anything (n + 1) (n + 1) (Counted.subroutineBody levels kind subroutine)
      (Codegen.subroutineBody kind subroutine) := by
  have locals := Lockstep.KeepsTaking.localVariables (L := L)
  exact .bind (.repeatWhile (.localVariables L) locals.left locals.takes) fun _ =>
    .bind (.lift (.declarations .«local»)) fun _ => .bind (.lift (.emit _)) fun _ =>
      .bind (.lift (.prologue kind)) fun _ => .statements L subroutine enough

theorem subroutineOf (L : Lockstep) (className : String) (kind : SubroutineKind) :
    W.Mirrors 0 anything (n + 1) (n + 1) (Counted.subroutineOf levels className kind)
      (Codegen.subroutineOf className kind) :=
  .bind (.lift .startSubroutine) fun _ => .bind (.lift .returnType) fun _ =>
    .bind (.lift fun _ holds _ => .answer holds) fun place => .bind (.lift .takeName) fun _ =>
      .bind (.lift (.report _)) fun _ => .bind (.lift (.declareReceiver kind className place))
        fun _ => .bind (.lift (.skipSymbol '(')) fun _ => .bind (.parameters L) fun _ =>
          .bind (.lift (.skipSymbol ')')) fun _ => .block (.subroutineBody enough L kind _)

theorem subroutine (L : Lockstep) (className : String) :
    W.Mirrors 0 anything (n + 1) (n + 1) (Counted.subroutine levels className)
      (Codegen.subroutine className) := by
  refine .look fun ahead => ?_
  cases ahead with
  | none => exact .pure false
  | some word =>
    cases word with
    | constructor => exact .declaration (.subroutineOf enough L className .constructor)
    | function => exact .declaration (.subroutineOf enough L className .function)
    | method => exact .declaration (.subroutineOf enough L className .method)
    | _ => exact .pure false

/-- **Whole classes.** -/
theorem classSource (L : Lockstep) :
    W.Mirrors 0 anything (n + 1) (n + 1) (Counted.classSource levels) Codegen.classSource := by
  have fields := Lockstep.KeepsTaking.classVariables (L := L)
  have routines (className : String) := Lockstep.KeepsTaking.subroutine (L := L) className
  have body : W.Mirrors 0 anything (n + 1) (n + 1) (Counted.classBody levels) Codegen.classBody :=
    .bind (.lift fun s holds _ => .answer holds) fun _ => .bind (.lift (.report _)) fun _ =>
      .bind (.lift (.weaken (.skipKeyword _))) fun _ => .bind (.lift .takeName) fun className =>
        .bind (.lift (.skipSymbol _)) fun _ =>
          .bind (.repeatWhile (.classVariables L) fields.left fields.takes) fun _ =>
            .bind (.repeatWhile (.subroutine enough L className) (routines className).left
              (routines className).takes) fun _ =>
                .bind (.lift (.skipSymbol _)) fun _ => .lift .expectEnd
  exact .bind body fun _ => .lift .flush

end Mirrors

end JackCompiler.Watch
