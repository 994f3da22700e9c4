import JackCompiler.Proofs.Codegen.BlockChecks

/-!
# What is checked in classes

The step for a declaration fails if no index is left for it. With that, and with the steps for
statements, the step for a class meets the violations of the class and nothing else.

## Main definitions

* `Codegen.Records` — tables that hold the declarations of one scope

## Main results

* `Codegen.subroutine_meets` — subroutines
* `Codegen.classBody_meets` — whole classes
* `Codegen.classBody_accepts` — classes that obey the rules
-/

namespace JackCompiler.Codegen

open Grammar

variable {script : Script} {visible : VariableTable} {rest : List Terminal}

/-! ### Declarations -/

/-- Tables that hold declarations of one scope, of which the latest comes first. A further one is
taken while its kind has an index left. -/
def Records (inClass : Bool) (table : List Declaration → VariableTable) : Prop :=
  ∀ (d : Declaration) (earlier : List Declaration), d.kind.inClassScope = inClass →
    (table earlier).declare? d.name d.type d.kind =
      if countOf d.kind earlier < maxOperand then some (d.variable earlier, table (d :: earlier))
      else none

theorem records_class (ofSubroutine : List Declaration) :
    Records true fun ofClass => tableOf ofClass ofSubroutine :=
  fun _ ofClass inClass => declare?_tableOf_class inClass ofClass ofSubroutine

theorem records_subroutine (ofClass : List Declaration) : Records false (tableOf ofClass) :=
  fun _ ofSubroutine inSubroutine => declare?_tableOf_subroutine inSubroutine ofClass ofSubroutine

theorem typeName_meets (type : TypeName) :
    Meets script typeName ⟨visible, type.terminal :: rest⟩ [] type.text ⟨visible, rest⟩ := by
  have keyword {word : Keyword} (isType : word ∈ [Keyword.int, .char, .boolean]) :
      Meets script typeName ⟨visible, .keyword word :: rest⟩ [] word.text ⟨visible, rest⟩ := by
    refine meets_look_bind (a := some (TokenKind.keyword word)) (fun s awaits => ?_) ?_
    · exact TokenStream.kind?_eq_keyword.mpr awaits.next?_eq
    · simp only [isType, if_true]
      exact (meets_skip _).next (meets_pure _ _)
  cases type with
  | int | char | boolean => exact keyword (by decide)
  | named className =>
    refine meets_look_bind (a := some TokenKind.identifier) (fun s awaits => ?_)
      (meets_takeName className)
    exact TokenStream.kind?_eq_identifier.mpr ⟨className, awaits.next?_eq⟩

section Recorded

variable {inClass : Bool} {table : List Declaration → VariableTable}
  {earlier : List Declaration}

theorem declareNext_meets (records : Records inClass table) {d : Declaration}
    (scope : d.kind.inClassScope = inClass) :
    Meets script (declareNext d.type d.kind) ⟨table earlier, .identifier d.name :: rest⟩
      (overflows earlier [(d, .identifier d.name :: rest)]) ()
      ⟨table (recorded earlier [(d, .identifier d.name :: rest)]), rest⟩ := by
  rw [overflows, overflows, List.append_nil]
  refine meets_location_bind (by simp) fun place placed => (meets_takeName d.name).next ?_
  have found := records d earlier scope
  refine meets_checked (fun room => ?_) fun full => ?_
  · rw [if_pos room] at found
    exact meets_declare found
  · rw [if_neg full] at found
    exact meets_declare_full placed found

variable {α : Type} {terminals : α → List Terminal} {placed : α → List Terminal → List Placed}

/-- Repeated declarations, in front of something that begins none. -/
theorem repeatWhile_meets {step : Codegen Bool}
    (each : ∀ a earlier rest, Meets script step ⟨table earlier, terminals a ++ rest⟩
      (overflows earlier (placed a rest)) true ⟨table (recorded earlier (placed a rest)), rest⟩)
    (nonempty : ∀ a, terminals a ≠ [])
    (idle : ∀ visible, Meets script step ⟨visible, rest⟩ [] false ⟨visible, rest⟩)
    (items : List α) :
    Meets script (repeatWhile step) ⟨table earlier, items.flatMap terminals ++ rest⟩
      (overflows earlier (inTurn terminals placed items rest)) ()
      ⟨table (recorded earlier (inTurn terminals placed items rest)), rest⟩ := by
  apply MeetsWhile.repeatWhile
  induction items generalizing earlier with
  | nil => exact meetsWhile_last (idle _)
  | cons a items ih =>
    have taken := each a earlier (items.flatMap terminals ++ rest)
    rw [inTurn, overflows_append, recorded_append, List.flatMap_cons, List.append_assoc]
    refine .cons taken ?_ ih
    have := List.length_pos_iff.mpr (nonempty a)
    simp only [List.length_append]
    omega

/-- Declarations with commas between them, in front of something else. -/
theorem separatedByCommas_meets {item : Codegen Unit}
    (each : ∀ a earlier rest, Meets script item ⟨table earlier, terminals a ++ rest⟩
      (overflows earlier (placed a rest)) () ⟨table (recorded earlier (placed a rest)), rest⟩)
    (last : rest.head? ≠ some (.symbol ',')) (a : α) (items : List α) :
    Meets script (separatedByCommas item)
      ⟨table earlier, commaSeparated ((a :: items).map terminals) ++ rest⟩
      (overflows earlier (inTurn (fun a => .symbol ',' :: terminals a) placed (a :: items) rest)) ()
      ⟨table (recorded earlier
        (inTurn (fun a => .symbol ',' :: terminals a) placed (a :: items) rest)), rest⟩ := by
  rw [List.map_cons, commaSeparated, List.append_assoc, behindCommas, List.flatMap_map, inTurn,
    overflows_append, recorded_append]
  refine (each a earlier _).bind (repeatWhile_meets ?_ (by simp) ?_ items)
  · intro a earlier rest
    exact (meets_acceptSymbol ',').next ((each a earlier rest).last (meets_pure true _))
  · exact fun visible => (meets_acceptSymbol_other last).next (meets_pure false _)

theorem variableNames_meets (kind : VariableKind) (records : Records kind.inClassScope table)
    (list : VariableList) (rest : List Terminal) :
    Meets script (variableNames kind) ⟨table earlier, list.terminals ++ rest⟩
      (overflows earlier (list.placed kind rest)) ()
      ⟨table (recorded earlier (list.placed kind rest)), rest⟩ := by
  have names : Meets script (separatedByCommas (declareNext list.type.text kind))
      ⟨table earlier, commaSeparated (list.names.map fun name => [.identifier name]) ++
        .symbol ';' :: rest⟩
      (overflows earlier (list.placed kind rest)) ()
      ⟨table (recorded earlier (list.placed kind rest)), .symbol ';' :: rest⟩ := by
    refine separatedByCommas_meets (fun name earlier rest => ?_) (by simp) list.first list.others
    exact declareNext_meets records (d := { name, type := list.type.text, kind }) rfl
  simp only [VariableList.terminals, List.cons_append, List.append_assoc, List.nil_append]
  exact (typeName_meets list.type).next (names.last (meets_skipSymbol ';'))

theorem classVariables_meets (records : Records true table) (d : ClassVariables)
    (earlier : List Declaration) (rest : List Terminal) :
    Meets script classVariables ⟨table earlier, d.terminals ++ rest⟩
      (overflows earlier (d.list.placed d.kind rest)) true
      ⟨table (recorded earlier (d.list.placed d.kind rest)), rest⟩ := by
  obtain ⟨isStatic, list⟩ := d
  cases isStatic with
  | true =>
    exact meets_look_bind (a := some Keyword.static)
      (fun _ awaits => awaits.keyword?_eq_some.mpr rfl)
      ((meets_skip _).next ((variableNames_meets .static records list rest).last
        (meets_pure true _)))
  | false =>
    exact meets_look_bind (a := some Keyword.field)
      (fun _ awaits => awaits.keyword?_eq_some.mpr rfl)
      ((meets_skip _).next ((variableNames_meets .field records list rest).last
        (meets_pure true _)))

theorem localVariables_meets (records : Records false table) (list : VariableList)
    (earlier : List Declaration) (rest : List Terminal) :
    Meets script localVariables ⟨table earlier, localTerminals list ++ rest⟩
      (overflows earlier (list.placed .«local» rest)) true
      ⟨table (recorded earlier (list.placed .«local» rest)), rest⟩ :=
  meets_look_bind (a := some Keyword.var) (fun _ awaits => awaits.keyword?_eq_some.mpr rfl)
    ((meets_skip _).next ((variableNames_meets .«local» records list rest).last
      (meets_pure true _)))

theorem parameters_meets (script : Script) (records : Records false table) (ps : List Parameter)
    (earlier : List Declaration) (rest : List Terminal) :
    Meets script parameters
      ⟨table earlier, commaSeparated (ps.map Parameter.terminals) ++ .symbol ')' :: rest⟩
      (overflows earlier (placedParameters ps (.symbol ')' :: rest))) ()
      ⟨table (recorded earlier (placedParameters ps (.symbol ')' :: rest))),
        .symbol ')' :: rest⟩ := by
  cases ps with
  | nil =>
    -- An empty list shows its closing parenthesis at once.
    refine meets_look_bind (a := true) (fun s awaits => ?_) (meets_pure () _)
    exact TokenStream.atSymbol_eq_true.mpr awaits.next?_eq
  | cons p ps =>
    refine meets_look_bind (a := false) (fun s awaits => ?_)
      (separatedByCommas_meets (fun p earlier rest => ?_) (by simp) p ps)
    · -- A parameter starts with its type, which is a keyword or a name.
      rw [Bool.eq_false_iff, Ne, TokenStream.atSymbol_eq_true, awaits.next?_eq]
      cases type : p.type <;> simp [commaSeparated, Parameter.terminals, TypeName.terminal, type]
    · exact (typeName_meets p.type).next (declareNext_meets records (d := p.declaration) rfl)

end Recorded

/-! ### Subroutines -/

theorem declareReceiver_meets (s : SubroutineDeclaration) (className : String) (place : Location)
    (ofClass : List Declaration) :
    Meets script (declareReceiver s.kind className place) ⟨tableOf ofClass [], rest⟩ [] ()
      ⟨tableOf ofClass (s.receivers className), rest⟩ := by
  cases kind : s.kind with
  | method =>
    have found := records_subroutine ofClass (receiver className) [] rfl
    have room : countOf (receiver className).kind [] < maxOperand := by
      rw [countOf_nil]
      decide
    rw [if_pos room] at found
    rw [SubroutineDeclaration.receivers, if_pos kind]
    exact meets_declare found
  | constructor | function =>
    rw [SubroutineDeclaration.receivers, if_neg (by simp [kind])]
    exact meets_pure () _

theorem prologue_meets (kind : SubroutineKind) {o : Outlook} :
    Meets script (prologue kind) o [] () o := by
  cases kind with
  | constructor =>
    exact (meets_declarations .field).next ((meets_emit _).next ((meets_emit _).next
      (meets_emit _)))
  | method => exact (meets_emit _).next (meets_emit _)
  | function => exact meets_pure () o

/-- What a subroutine with a return type promises. -/
def promisedBy : Option TypeName → ReturnType
  | none => .void
  | some type => .value type.text

theorem returnType_meets (type : Option TypeName) :
    Meets script returnType ⟨visible, returnTypeTerminal type :: rest⟩ [] (promisedBy type)
      ⟨visible, rest⟩ := by
  cases type with
  | none => exact (meets_acceptKeyword .void).next (meets_pure _ _)
  | some type =>
    refine (meets_acceptKeyword_other ?_).next ((typeName_meets type).next (meets_pure _ _))
    cases type <;> simp [returnTypeTerminal, TypeName.terminal]

theorem localVariables_idle_of (statements : List Statement) :
    Meets script localVariables
      ⟨visible, Statement.blockTerminals statements ++ .symbol closingBrace :: rest⟩ [] false
      ⟨visible, Statement.blockTerminals statements ++ .symbol closingBrace :: rest⟩ := by
  -- Neither a statement nor the closing brace is the keyword `var`, which is all the step looks
  -- for.
  refine meets_look_bind_of (P := (· ≠ some Keyword.var)) (fun s awaits isNext => ?_) ?_
  · have next := awaits.keyword?_eq_some.mp isNext
    cases statements with
    | nil => simp [Statement.blockTerminals] at next
    | cons statement statements =>
      obtain ⟨x, l, begins, starting⟩ := statement.starts
      simp only [Statement.blockTerminals, begins, List.cons_append, List.head?_cons,
        Option.some.injEq] at next
      simp [next, startsStatement] at starting
  · intro word other
    split
    · simp at other
    · exact meets_pure false _

/-- The local variables of a subroutine are declared behind its arguments. -/
theorem locals_meet (script : Script) (c : ClassDeclaration) (d : SubroutineDeclaration)
    (rest : List Terminal) {earlier : List Declaration}
    (all : recorded earlier (inTurn localTerminals (VariableList.placed .«local») d.locals
      (Statement.blockTerminals d.body ++ .symbol closingBrace :: rest)) =
        (d.declarations c.name).reverse) :
    Meets script (repeatWhile localVariables)
      ⟨tableOf c.declarations.reverse earlier, d.locals.flatMap localTerminals ++
        (Statement.blockTerminals d.body ++ .symbol closingBrace :: rest)⟩
      (overflows earlier (inTurn localTerminals (VariableList.placed .«local») d.locals
        (Statement.blockTerminals d.body ++ .symbol closingBrace :: rest))) ()
      ⟨tableOf c.declarations.reverse (d.declarations c.name).reverse,
        Statement.blockTerminals d.body ++ .symbol closingBrace :: rest⟩ := by
  rw [← all]
  exact repeatWhile_meets (localVariables_meets (records_subroutine c.declarations.reverse))
    (by simp [localTerminals]) (fun _ => localVariables_idle_of d.body) d.locals

theorem subroutineBody_meets (script : Script) (c : ClassDeclaration) (d : SubroutineDeclaration)
    (promised : ReturnType) (rest : List Terminal) {earlier : List Declaration}
    (all : recorded earlier (inTurn localTerminals (VariableList.placed .«local») d.locals
      (Statement.blockTerminals d.body ++ .symbol closingBrace :: rest)) =
        (d.declarations c.name).reverse) :
    Meets script (subroutineBody d.kind ⟨c.name, d.name, promised⟩)
      ⟨tableOf c.declarations.reverse earlier, d.locals.flatMap localTerminals ++
        (Statement.blockTerminals d.body ++ .symbol closingBrace :: rest)⟩
      (overflows earlier (inTurn localTerminals (VariableList.placed .«local») d.locals
          (Statement.blockTerminals d.body ++ .symbol closingBrace :: rest)) ++
        Statement.blockViolations (c.environment d) 1 (.symbol closingBrace :: rest) d.body) ()
      ⟨tableOf c.declarations.reverse (d.declarations c.name).reverse,
        .symbol closingBrace :: rest⟩ := by
  have blocks : MeetsBlocks script (c.environment d)
      (tableOf c.declarations.reverse (d.declarations c.name).reverse) 1
      (statements ⟨c.name, d.name, promised⟩ maxNesting) :=
    statements_meet (lookup?_environment c d) rfl (Nat.add_comm 1 maxNesting)
  exact (locals_meet script c d rest all).bind ((meets_declarations .«local»).next
    ((meets_emit _).next ((prologue_meets d.kind).next (blocks d.body rest))))

/-- A subroutine is checked behind the declarations of its class. -/
theorem subroutineOf_meets (script : Script) (c : ClassDeclaration) (d : SubroutineDeclaration)
    (ofSubroutine : List Declaration) (rest : List Terminal) {tail : List Terminal}
    (begins : d.terminals = .keyword (kindKeyword d.kind) :: tail) :
    Meets script (subroutineOf c.name d.kind)
      ⟨tableOf c.declarations.reverse ofSubroutine, tail ++ rest⟩ (c.violationsOf d rest) ()
      ⟨tableOf c.declarations.reverse (d.declarations c.name).reverse, rest⟩ := by
  have all := d.recorded_placed c.name rest
  rw [SubroutineDeclaration.placed, recorded_append] at all
  have body := subroutineBody_meets script c d (promisedBy d.returnType) rest all
  rw [ClassDeclaration.violationsOf, SubroutineDeclaration.placed, overflows_append,
    List.append_assoc]
  obtain rfl : tail = _ := by
    simpa only [SubroutineDeclaration.terminals, List.cons_append, List.cons.injEq, true_and]
      using begins.symm
  have declared := parameters_meets script (records_subroutine c.declarations.reverse)
    d.parameters (d.receivers c.name)
    (braced (d.locals.flatMap localTerminals ++ Statement.blockTerminals d.body) ++ rest)
  simp only [parenthesized, braced, List.cons_append, List.append_assoc, List.nil_append,
    SubroutineDeclaration.behindParameters] at declared body ⊢
  exact meets_startSubroutine.next ((returnType_meets _).next (meets_location_bind (by simp)
    fun place _ => (meets_takeName d.name).next ((meets_report _).next
      ((declareReceiver_meets d c.name place c.declarations.reverse).next
        ((meets_skipSymbol '(').next (declared.bind ((meets_skipSymbol ')').next
          ((meets_skipSymbol openingBrace).next (body.last
            (meets_skipSymbol closingBrace))))))))))

theorem subroutine_meets (script : Script) (c : ClassDeclaration) (d : SubroutineDeclaration)
    (ofSubroutine : List Declaration) (rest : List Terminal) :
    Meets script (subroutine c.name)
      ⟨tableOf c.declarations.reverse ofSubroutine, d.terminals ++ rest⟩ (c.violationsOf d rest)
      true ⟨tableOf c.declarations.reverse (d.declarations c.name).reverse, rest⟩ := by
  obtain ⟨tail, begins⟩ : ∃ tail, d.terminals = .keyword (kindKeyword d.kind) :: tail :=
    ⟨_, rfl⟩
  have taken := subroutineOf_meets script c d ofSubroutine rest begins
  rw [begins, List.cons_append]
  refine meets_look_bind (a := some (kindKeyword d.kind))
    (fun _ awaits => awaits.keyword?_eq_some.mpr rfl) ?_
  cases kind : d.kind <;> rw [kind] at taken <;>
    exact (meets_skip _).next (taken.last (meets_pure true _))

/-- Subroutines are checked in front of the brace that closes their class. -/
theorem subroutines_meet (c : ClassDeclaration) (ds : List SubroutineDeclaration)
    (rest : List Terminal) : ∀ ofSubroutine, ∃ ofSubroutine', ∀ script,
      MeetsWhile script (subroutine c.name)
        ⟨tableOf c.declarations.reverse ofSubroutine,
          ds.flatMap SubroutineDeclaration.terminals ++ .symbol closingBrace :: rest⟩
        (inTurn SubroutineDeclaration.terminals c.violationsOf ds (.symbol closingBrace :: rest))
        ⟨tableOf c.declarations.reverse ofSubroutine', .symbol closingBrace :: rest⟩ := by
  -- The table of the subroutine before is still there when the next one starts, so it is a variable
  -- of the induction.
  induction ds with
  | nil =>
    intro ofSubroutine
    refine ⟨ofSubroutine, fun script => meetsWhile_last (meets_look_bind (a := none)
      (fun s awaits => ?_) (meets_pure false _))⟩
    rw [Option.eq_none_iff_forall_ne_some]
    intro word isNext
    simpa using awaits.keyword?_eq_some.mp isNext
  | cons d ds ih =>
    intro ofSubroutine
    obtain ⟨ofSubroutine', others⟩ := ih (d.declarations c.name).reverse
    rw [List.flatMap_cons, List.append_assoc, inTurn]
    refine ⟨ofSubroutine', fun script =>
      .cons (subroutine_meets script c d ofSubroutine _) ?_ (others script)⟩
    -- A subroutine has at least one token, so the loop makes progress.
    simp only [SubroutineDeclaration.terminals, List.length_append, List.length_cons]
    omega

/-! ### Classes -/

theorem classVariables_idle_of (subroutines : List SubroutineDeclaration) :
    Meets script classVariables
      ⟨visible, subroutines.flatMap SubroutineDeclaration.terminals ++
        .symbol closingBrace :: rest⟩ [] false
      ⟨visible, subroutines.flatMap SubroutineDeclaration.terminals ++
        .symbol closingBrace :: rest⟩ := by
  refine meets_look_bind_of (P := fun word => word ≠ some Keyword.static ∧
    word ≠ some Keyword.field) (fun s awaits => ?_) ?_
  · simp only [Ne, awaits.keyword?_eq_some]
    cases subroutines with
    | nil => simp
    | cons d subroutines =>
      cases kind : d.kind <;> simp [SubroutineDeclaration.terminals, kind, kindKeyword]
  · rintro word ⟨other, different⟩
    split
    · simp at other
    · simp at different
    · exact meets_pure false _

theorem expectEnd_meets : Meets script expectEnd ⟨visible, []⟩ [] () ⟨visible, []⟩ := by
  refine meets_look_bind (a := false) (fun s awaits => ?_) (meets_pure () _)
  have atEnd := TokenStream.next?_eq_none.mp awaits.next?_eq
  simp [atEnd]

/-- The variables of a class are declared in front of its subroutines. -/
theorem declarations_meet (script : Script) (c : ClassDeclaration) :
    Meets script (repeatWhile classVariables)
      ⟨{}, c.classVariables.flatMap ClassVariables.terminals ++
        (c.subroutines.flatMap SubroutineDeclaration.terminals ++ [.symbol closingBrace])⟩
      (overflows [] c.placed) ()
      ⟨tableOf c.declarations.reverse [],
        c.subroutines.flatMap SubroutineDeclaration.terminals ++ [.symbol closingBrace]⟩ := by
  rw [← tableOf_nil, ← c.recorded_placed]
  exact repeatWhile_meets (classVariables_meets (records_class []))
    (by simp [ClassVariables.terminals]) (fun _ => classVariables_idle_of c.subroutines)
    c.classVariables

/-- The step for a class meets its violations, if nothing stands behind it. -/
theorem classBody_meets (c : ClassDeclaration) : ∃ visible, ∀ script,
    Meets script classBody ⟨{}, c.terminals⟩ c.violations () ⟨visible, []⟩ := by
  obtain ⟨ofSubroutine, compiled⟩ := subroutines_meet c c.subroutines [] []
  refine ⟨tableOf c.declarations.reverse ofSubroutine, fun script => ?_⟩
  refine meets_location_bind (by simp [ClassDeclaration.terminals]) fun place _ =>
    (meets_report _).next ?_
  simp only [ClassDeclaration.terminals, braced, List.cons_append, List.append_assoc]
  exact (meets_skipKeyword .«class»).next ((meets_takeName c.name).next
    ((meets_skipSymbol openingBrace).next ((declarations_meet script c).bind
      ((compiled script).repeatWhile.last ((meets_skipSymbol closingBrace).next
        expectEnd_meets)))))

/-- A class that obeys the rules is accepted, if nothing stands behind it. -/
theorem classBody_accepts {c : ClassDeclaration} (lawful : c.Lawful) :
    ∃ visible, Succeeds classBody ⟨{}, c.terminals⟩ () ⟨visible, []⟩ := by
  obtain ⟨visible, meets⟩ := classBody_meets c
  refine ⟨visible, fun s awaits => ?_⟩
  obtain ⟨script, faces⟩ := awaits.faces
  have outcome := meets script s faces
  rw [ClassDeclaration.violations_eq_nil_iff.mpr lawful] at outcome
  obtain ⟨s', run, faces'⟩ := outcome
  exact ⟨s', run, faces'.toAwaits⟩

end JackCompiler.Codegen
