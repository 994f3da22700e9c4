import JackCompiler.Codegen.Class
import JackCompiler.Proofs.Codegen.Lockstep

/-!
# Classes in lockstep

Every production of the compiler keeps its runs in lockstep: it looks at nothing but the look-ahead
without its place, and it answers nothing that depends on more. Productions that take a step for
what is nested in them keep it if that step does.

## Main results

* `Lockstep.Keeps.term`, `Lockstep.Keeps.statements` — terms and statements of any depth
* `Lockstep.Keeps.classSource` — whole classes
-/

namespace JackCompiler.Codegen.Lockstep

variable {L : Lockstep} {x y body body' : Codegen Unit}

namespace Keeps

/-! ### Expressions -/

theorem expression (term : L.Keeps x y) :
    L.Keeps (Codegen.expression x) (Codegen.expression y) := by
  refine .bind term fun _ => .bind (KeepsTaking.iterate (fun pending => ?_) []) fun operators =>
    .forM fun operator => .emit _
  refine .view (fun same => by rw [TokenStream.symbol?_congr same]) fun operator => ?_
  cases operator with
  | some operator => exact .first .skip fun _ => .bind term fun _ => .pure _
  | none => exact .pure (by simp)

theorem elementAddress (term : L.Keeps x y) (array : Variable) :
    L.Keeps (Codegen.elementAddress x array) (Codegen.elementAddress y array) :=
  .bind (.emit _) fun _ => .bind (.expression term) fun _ => .bind (.skipSymbol _) fun _ => .emit _

theorem argumentList (term : L.Keeps x y) :
    L.Keeps (Codegen.argumentList x) (Codegen.argumentList y) := by
  refine .view (fun same => TokenStream.atSymbol_congr same ')') fun closes => ?_
  split
  · exact .pure 0
  refine .bind (.expression term) fun _ => KeepsTaking.iterate (fun count => ?_) 1
  refine .bind (.acceptSymbol ',') (fun more => ?_) fun more none => ?_
  · split
    · refine .bind (.expression term) fun _ => ?_
      split
      · exact .pure _
      · exact .location fun _ _ related => .failAt related _
    · exact .pure none
  · rw [if_neg none, if_neg none]
    exact .pure (by simp)

theorem callTarget (className first : String) :
    L.Keeps (Codegen.callTarget className first) (Codegen.callTarget className first) := by
  refine .bind (.acceptSymbol '.') fun qualified => ?_
  split
  · refine .bind .takeName fun name => .bind (.lookup? first) fun found => ?_
    cases found with
    | some v => exact .pure _
    | none => exact .pure _
  · exact .pure _

theorem pushReceiver (receiver : Receiver) :
    L.Keeps (Codegen.pushReceiver receiver) (Codegen.pushReceiver receiver) := by
  cases receiver <;> exact .emit _

theorem call (className : String) (term : L.Keeps x y) (first : String) :
    L.Keeps (Codegen.call className x first) (Codegen.call className y first) := by
  refine .bind (.callTarget className first) fun target => .bind (.skipSymbol '(') fun _ =>
    .bind ?_ fun _ => .bind (.argumentList term) fun explicit => ?_
  · cases target.receiver? with
    | some receiver => exact .pushReceiver receiver
    | none => exact .pure ()
  · cases target.argumentCount? explicit with
    | some count => exact .bind (.skipSymbol ')') fun _ => .emit _
    | none => exact .location fun _ _ related => .failAt related _

theorem keywordConstant (word : Keyword) :
    L.Keeps (Codegen.keywordConstant word) (Codegen.keywordConstant word) := by
  unfold Codegen.keywordConstant
  split
  · exact .bind .skip fun _ => .bind (.emit _) fun _ => .emit _
  · exact .bind .skip fun _ => .emit _
  · exact .bind .skip fun _ => .emit _
  · exact .bind .skip fun _ => .emit _
  · exact .failExpecting _

theorem stringConstant (contents : List Char) :
    L.Keeps (Codegen.stringConstant contents) (Codegen.stringConstant contents) :=
  .bind (.emit _) fun _ => .bind (.emit _) fun _ => .forM fun _ => .bind (.emit _) fun _ => .emit _

theorem named (className : String) (term : L.Keeps x y) :
    L.Keeps (Codegen.named className x) (Codegen.named className y) := by
  refine .location fun _ _ related => .bind .takeName fun name =>
    .view TokenStream.symbol?_congr fun next => ?_
  split
  · exact .bind .skip fun _ => .bind (.resolve name related) fun array =>
      .bind (.elementAddress term array) fun _ => .bind (.emit _) fun _ => .emit _
  · exact .call className term name
  · exact .call className term name
  · exact .bind (.resolve name related) fun v => .emit _

theorem operand (className : String) (term : L.Keeps x y) :
    L.Keeps (Codegen.operand className x) (Codegen.operand className y) := by
  refine .look (fun a b => a.map Token.wording = b.map Token.wording) (fun _ => rfl) L.upcoming
    fun ahead ahead' same => ?_
  match ahead, ahead', same with
  | none, none, _ => exact .failExpecting _
  | some ⟨kind, text, _, _⟩, some ⟨kind', text', _, _⟩, same =>
    -- The tokens differ at most in what the step does not look at.
    obtain ⟨rfl, rfl⟩ : kind = kind' ∧ text = text' := by simpa [Token.wording] using same
    dsimp only [Token.integerValue?]
    split
    · split
      · exact .bind .skip fun _ => .emit _
      · exact .failExpecting _
    · split
      · exact .bind .skip fun _ => .stringConstant _
      · exact .failExpecting _
    · exact .keywordConstant _
    · exact .bind .skip fun _ => .bind (.expression term) fun _ => .skipSymbol ')'
    · exact .bind .skip fun _ => .bind term fun _ => .emit _
    · exact .bind .skip fun _ => .bind term fun _ => .emit _
    · exact .named className term
    · exact .failExpecting _

/-- Terms of any depth: each level is given the step for the one below. -/
theorem term (className : String) (levels : Nat) :
    L.Keeps (Codegen.term className levels) (Codegen.term className levels) := by
  induction levels with
  | zero => exact .location fun _ _ related => .failAt related _
  | succ levels ih => exact .operand className ih

/-! ### Statements -/

theorem condition (term : L.Keeps x y) : L.Keeps (Codegen.condition x) (Codegen.condition y) :=
  .bind (.skipSymbol '(') fun _ => .bind (.expression term) fun _ => .skipSymbol ')'

theorem jumpUnless (label : String) :
    L.Keeps (Codegen.jumpUnless label) (Codegen.jumpUnless label) :=
  .bind (.emit _) fun _ => .emit _

theorem block (inside : L.Keeps body body') : L.Keeps (Codegen.block body) (Codegen.block body') :=
  .bind (.skipSymbol _) fun _ => .bind inside fun _ => .skipSymbol _

theorem reportMissingValue (subroutine : Subroutine) :
    L.Keeps (Codegen.reportMissingValue subroutine) (Codegen.reportMissingValue subroutine) := by
  unfold Codegen.reportMissingValue
  split
  · exact .location fun _ _ related => .report (.valueMissing related _ _)
  · exact .pure ()

theorem returnedValue (subroutine : Subroutine) (term : L.Keeps x y) :
    L.Keeps (Codegen.returnedValue subroutine x) (Codegen.returnedValue subroutine y) := by
  refine .view (fun same => TokenStream.atSymbol_congr same ';') fun none => ?_
  split
  · exact .bind (.reportMissingValue subroutine) fun _ => .emit _
  · exact .expression term

end Keeps

namespace KeepsTaking

variable {going : Unit → Prop}

theorem letStatement (term : L.Keeps x y) :
    L.KeepsTaking going (Codegen.letStatement x) (Codegen.letStatement y) := by
  refine .first (.skipKeyword .«let») fun _ => .location fun _ _ related =>
    .bind .takeName fun name => .bind (.resolve name related) fun target =>
      .bind (.acceptSymbol '[') fun isElement => ?_
  split
  · exact .bind (.elementAddress term target) fun _ => .bind (.skipSymbol '=') fun _ =>
      .bind (.expression term) fun _ => .bind (.skipSymbol ';') fun _ => .bind (.emit _) fun _ =>
        .bind (.emit _) fun _ => .bind (.emit _) fun _ => .emit _
  · exact .bind (.skipSymbol '=') fun _ => .bind (.expression term) fun _ =>
      .bind (.skipSymbol ';') fun _ => .emit _

theorem ifStatement (term : L.Keeps x y) (statements : L.Keeps body body') :
    L.KeepsTaking going (Codegen.ifStatement x body) (Codegen.ifStatement y body') := by
  refine .first (.skipKeyword .«if») fun _ => .bind (.condition term) fun _ =>
    .bind .freshLabel fun number => .bind (.jumpUnless _) fun _ =>
      .bind (.block statements) fun _ => .bind (.acceptKeyword .«else») fun hasElse => ?_
  split
  · exact .bind (.emit _) fun _ => .bind (.emit _) fun _ => .bind (.block statements) fun _ =>
      .emit _
  · exact .emit _

theorem whileStatement (term : L.Keeps x y) (statements : L.Keeps body body') :
    L.KeepsTaking going (Codegen.whileStatement x body) (Codegen.whileStatement y body') :=
  .second .freshLabel fun _ => .first (.skipKeyword .«while») fun _ => .bind (.emit _) fun _ =>
    .bind (.condition term) fun _ => .bind (.jumpUnless _) fun _ =>
      .bind (.block statements) fun _ => .bind (.emit _) fun _ => .emit _

theorem doStatement (className : String) (term : L.Keeps x y) :
    L.KeepsTaking going (Codegen.doStatement className x) (Codegen.doStatement className y) :=
  .first (.skipKeyword .«do») fun _ => .bind .takeName fun name =>
    .bind (.call className term name) fun _ => .bind (.skipSymbol ';') fun _ => .emit _

theorem returnStatement (subroutine : Subroutine) (term : L.Keeps x y) :
    L.KeepsTaking going (Codegen.returnStatement subroutine x)
      (Codegen.returnStatement subroutine y) :=
  .first (.skipKeyword .«return») fun _ => .bind (.returnedValue subroutine term) fun _ =>
    .bind (.skipSymbol ';') fun _ => .emit _

theorem statement (subroutine : Subroutine) (term : L.Keeps x y) (statements : L.Keeps body body') :
    L.KeepsTaking (· = true) (Codegen.statement subroutine x body)
      (Codegen.statement subroutine y body') := by
  refine .view TokenStream.keyword?_congr fun word => ?_
  split
  · exact .first (.letStatement term) fun _ => .pure true
  · exact .first (.ifStatement term statements) fun _ => .pure true
  · exact .first (.whileStatement term statements) fun _ => .pure true
  · exact .first (.doStatement _ term) fun _ => .pure true
  · exact .first (.returnStatement subroutine term) fun _ => .pure true
  · exact .pure (by simp)

end KeepsTaking

/-- Statements of any depth: each level is given the steps for the one below. -/
theorem Keeps.statements (subroutine : Subroutine) (levels : Nat) :
    L.Keeps (Codegen.statements subroutine levels) (Codegen.statements subroutine levels) := by
  induction levels with
  | zero => exact .location fun _ _ related => .failAt related _
  | succ levels ih => exact KeepsTaking.repeatWhile (.statement subroutine (.term _ levels) ih)

/-! ### Declarations -/

namespace Keeps

theorem typeName : L.Keeps Codegen.typeName Codegen.typeName := by
  refine .view TokenStream.kind?_congr fun kind => ?_
  split
  · split
    · exact .bind .skip fun _ => .pure _
    · exact .failExpecting _
  · exact .takeName
  · exact .failExpecting _

theorem declareNext (type : String) (kind : VariableKind) :
    L.Keeps (Codegen.declareNext type kind) (Codegen.declareNext type kind) :=
  .location fun _ _ related => .bind .takeName fun name => .declare name type kind related

theorem separatedByCommas (item : L.Keeps x y) :
    L.Keeps (Codegen.separatedByCommas x) (Codegen.separatedByCommas y) := by
  refine .bind item fun _ => KeepsTaking.repeatWhile ?_
  refine .bind (.acceptSymbol ',') (fun more => ?_) fun more none => ?_
  · split
    · exact .bind item fun _ => .pure true
    · exact .pure false
  · rw [if_neg none, if_neg none]
    exact .pure (by simp)

theorem variableNames (kind : VariableKind) :
    L.Keeps (Codegen.variableNames kind) (Codegen.variableNames kind) :=
  .bind .typeName fun type => .bind (.separatedByCommas (.declareNext type kind)) fun _ =>
    .skipSymbol ';'

end Keeps

theorem KeepsTaking.classVariables :
    L.KeepsTaking (· = true) Codegen.classVariables Codegen.classVariables := by
  refine .view TokenStream.keyword?_congr fun word => ?_
  split
  · exact .first .skip fun _ => .bind (.variableNames .static) fun _ => .pure true
  · exact .first .skip fun _ => .bind (.variableNames .field) fun _ => .pure true
  · exact .pure (by simp)

theorem KeepsTaking.localVariables :
    L.KeepsTaking (· = true) Codegen.localVariables Codegen.localVariables := by
  refine .view TokenStream.keyword?_congr fun word => ?_
  split
  · exact .first .skip fun _ => .bind (.variableNames .«local») fun _ => .pure true
  · exact .pure (by simp)

namespace Keeps

theorem parameters : L.Keeps Codegen.parameters Codegen.parameters := by
  refine .view (fun same => TokenStream.atSymbol_congr same ')') fun closes => ?_
  split
  · exact .pure ()
  · exact .separatedByCommas (.bind .typeName fun type => .declareNext type .argument)

theorem declareReceiver (kind : SubroutineKind) (className : String) {place place' : Location}
    (related : L.places place place') : L.Keeps (Codegen.declareReceiver kind className place)
      (Codegen.declareReceiver kind className place') := by
  cases kind with
  | method => exact .declare "this" className .argument related
  | constructor | function => exact .pure ()

theorem prologue (kind : SubroutineKind) :
    L.Keeps (Codegen.prologue kind) (Codegen.prologue kind) := by
  cases kind with
  | constructor =>
    exact .bind (.declarations .field) fun fields => .bind (.emit _) fun _ => .bind (.emit _)
      fun _ => .emit _
  | method => exact .bind (.emit _) fun _ => .emit _
  | function => exact .pure ()

theorem subroutineBody (kind : SubroutineKind) (subroutine : Subroutine) :
    L.Keeps (Codegen.subroutineBody kind subroutine) (Codegen.subroutineBody kind subroutine) :=
  .bind (KeepsTaking.repeatWhile .localVariables) fun _ => .bind (.declarations .«local»)
    fun _ => .bind (.emit _) fun _ => .bind (.prologue kind) fun _ =>
      .statements subroutine maxNesting

theorem returnType : L.Keeps Codegen.returnType Codegen.returnType := by
  refine .bind (.acceptKeyword .void) fun isVoid => ?_
  split
  · exact .pure _
  · exact .bind .typeName fun type => .pure _

theorem subroutineOf (className : String) (kind : SubroutineKind) :
    L.Keeps (Codegen.subroutineOf className kind) (Codegen.subroutineOf className kind) :=
  .bind .startSubroutine fun _ => .bind .returnType fun _ =>
    .location fun _ _ related => .bind .takeName fun _ =>
      .bind (.report (.same _)) fun _ => .bind (.declareReceiver kind className related) fun _ =>
        .bind (.skipSymbol '(') fun _ => .bind .parameters fun _ => .bind (.skipSymbol ')') fun _ =>
          .block (.subroutineBody kind _)

end Keeps

theorem KeepsTaking.subroutine (className : String) :
    L.KeepsTaking (· = true) (Codegen.subroutine className) (Codegen.subroutine className) := by
  refine .view TokenStream.keyword?_congr fun word => ?_
  split
  · exact .first .skip fun _ => .bind (.subroutineOf className .constructor) fun _ => .pure true
  · exact .first .skip fun _ => .bind (.subroutineOf className .function) fun _ => .pure true
  · exact .first .skip fun _ => .bind (.subroutineOf className .method) fun _ => .pure true
  · exact .pure (by simp)

namespace Keeps

theorem expectEnd : L.Keeps Codegen.expectEnd Codegen.expectEnd := by
  refine .view TokenStream.isSome_lookahead_congr fun more => ?_
  split
  · exact .failExpecting _
  · exact .pure ()

theorem classBody : L.Keeps Codegen.classBody Codegen.classBody :=
  .location fun _ _ related => .bind (.report (.sourceBegun related)) fun _ =>
    .bind (.skipKeyword .«class») fun _ => .bind .takeName fun className =>
      .bind (.skipSymbol _) fun _ => .bind (KeepsTaking.repeatWhile .classVariables) fun _ =>
        .bind (KeepsTaking.repeatWhile (.subroutine className)) fun _ =>
          .bind (.skipSymbol _) fun _ => .expectEnd

/-- **Classes are compiled in lockstep.** -/
theorem classSource (flush : ∀ {s t : Session}, L.Sessions s t →
    L.Outcome (Codegen.flush.run.run s) (Codegen.flush.run.run t)) :
    L.Keeps Codegen.classSource Codegen.classSource :=
  .bind .classBody fun _ => .flush flush

end Keeps

end JackCompiler.Codegen.Lockstep
