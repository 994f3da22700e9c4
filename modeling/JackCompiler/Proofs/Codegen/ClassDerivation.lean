import JackCompiler.Proofs.Codegen.BlockDerivation

/-!
# What a run over a class has taken

Declarations write no code; they change what names mean from then on. The code of a subroutine is
therefore the code of its tree in the environment that the declarations in front of its first
statement have left.

## Main definitions

* `Session.Declares` — what has been taken and declared between two sessions

## Main results

* `Codegen.subroutine_derives` — runs of the step for a subroutine
* `Codegen.classBody_derives` — runs of the step for a whole class
-/

namespace JackCompiler

open Grammar

/-- From one session to another, tokens with the given terminals are taken and the given
declarations are made. -/
structure Session.Declares (s : Session) (terminals : List Terminal)
    (declarations : List Declaration) (s' : Session) : Prop where
  tokens : s.tokens.Reads terminals s'.tokens
  output : s'.output = s.output
  nextLabel : s'.nextLabel = s.nextLabel
  visible : declareAll? s.visible declarations = some s'.visible

namespace Session

variable {s middle s' : Session} {terminals more : List Terminal}
  {declarations others : List Declaration}

theorem Declares.trans (h : s.Declares terminals declarations middle)
    (h' : middle.Declares more others s') :
    s.Declares (terminals ++ more) (declarations ++ others) s' where
  tokens := h.tokens.append h'.tokens
  output := h'.output.trans h.output
  nextLabel := h'.nextLabel.trans h.nextLabel
  visible := by rw [declareAll?_append, h.visible, Option.bind_some, h'.visible]

theorem Advances.declares (h : s.Advances terminals [] 0 s') : s.Declares terminals [] s' where
  tokens := h.tokens
  output := by rw [h.output, Sink.extend_nil]
  nextLabel := h.nextLabel
  visible := by rw [h.visible, declareAll?]

end Session

/-- What names mean in a session, to the subroutines of a class. -/
def Session.environment (s : Session) (className : String) : Environment where
  className
  lookup? := s.visible.lookup?

namespace Codegen

variable {s s' : Session} {u : Unit}

theorem typeName_advances {type : String} (h : Runs typeName s type s') :
    ∃ t : TypeName, type = t.text ∧ s.Advances [t.terminal] [] 0 s' := by
  obtain ⟨kind?, _, looked, chosen⟩ := runs_bind.mp h
  obtain ⟨shown, same⟩ := runs_look.mp looked
  rw [same] at chosen
  split at chosen
  · rename_i word
    have next := TokenStream.kind?_eq_keyword.mp shown.symm
    split at chosen
    · -- Of the keywords, three are types.
      rename_i isType
      obtain ⟨_, _, skipped, answered⟩ := runs_bind.mp chosen
      obtain ⟨rfl, rfl⟩ := runs_pure.mp answered
      have taken := skip_advances skipped next
      simp only [List.mem_cons, List.not_mem_nil, or_false] at isType
      obtain rfl | rfl | rfl := isType
      · exact ⟨.int, rfl, taken⟩
      · exact ⟨.char, rfl, taken⟩
      · exact ⟨.boolean, rfl, taken⟩
    · exact absurd chosen runs_failExpecting
  · exact ⟨.named type, rfl, takeName_advances chosen⟩
  · exact absurd chosen runs_failExpecting

theorem declare_declares {name type : String} {kind : VariableKind} {place : Location}
    (h : Runs (declare name type kind place) s u s') :
    s.Declares [] [{ name, type, kind }] s' := by
  obtain ⟨v, visible, declared, rfl⟩ := runs_declare.mp h
  exact ⟨.nil s.tokens, rfl, rfl, by simp [declareAll?, declared]⟩

theorem declareNext_declares {type : String} {kind : VariableKind}
    (h : Runs (declareNext type kind) s u s') :
    ∃ name, s.Declares [.identifier name] [{ name, type, kind }] s' := by
  obtain ⟨place, _, located, taken⟩ := runs_bind.mp h
  rw [(runs_location.mp located).2] at taken
  obtain ⟨name, _, named, declared⟩ := runs_bind.mp taken
  exact ⟨name, (takeName_advances named).declares.trans (declare_declares declared)⟩

section Lists

variable {α : Type} {terminals : α → List Terminal} {declarations : α → List Declaration}

/-- Repeated declarations. -/
theorem repeatWhile_declares {step : Codegen Bool} (idle : ∀ s s', Runs step s false s' → s' = s)
    (each : ∀ {s s'}, Runs step s true s' → ∃ a, s.Declares (terminals a) (declarations a) s')
    (h : Runs (repeatWhile step) s u s') : ∃ items : List α,
      s.Declares (items.flatMap terminals) (items.flatMap declarations) s' := by
  refine repeatWhile_induction (motive := fun s s' => ∃ items : List α,
    s.Declares (items.flatMap terminals) (items.flatMap declarations) s') ?_ idle ?_ h
  · exact fun s => ⟨[], (Session.Advances.refl s).declares⟩
  · rintro s middle s' round ⟨items, rest⟩
    obtain ⟨a, first⟩ := each round
    exact ⟨a :: items, first.trans rest⟩

/-- Declarations with commas between them. -/
theorem separatedByCommas_declares {item : Codegen Unit}
    (each : ∀ {s s'}, Runs item s () s' → ∃ a, s.Declares (terminals a) (declarations a) s')
    (h : Runs (separatedByCommas item) s u s') : ∃ (a : α) (items : List α),
      s.Declares (commaSeparated ((a :: items).map terminals)) ((a :: items).flatMap declarations)
        s' := by
  obtain ⟨_, middle, first, rounds⟩ := runs_bind.mp h
  obtain ⟨a, taken⟩ := each first
  -- Behind the first item, each round takes a comma and an item.
  have others : ∃ items : List α, middle.Declares
      (items.flatMap fun a => .symbol ',' :: terminals a) (items.flatMap declarations) s' := by
    refine repeatWhile_declares ?_ ?_ rounds
    · intro s s' h
      obtain ⟨more, _, comma, h⟩ := runs_bind.mp h
      cases more with
      | true =>
        obtain ⟨_, _, _, answered⟩ := runs_bind.mp h
        cases (runs_pure.mp answered).1
      | false =>
        rw [(runs_pure.mp h).2]
        exact acceptSymbol_idle comma
    · intro s s' h
      obtain ⟨more, _, comma, h⟩ := runs_bind.mp h
      cases more with
      | true =>
        obtain ⟨_, _, next, answered⟩ := runs_bind.mp h
        obtain ⟨-, rfl⟩ := runs_pure.mp answered
        obtain ⟨a, taken⟩ := each next
        exact ⟨a, (acceptSymbol_advances comma).declares.trans taken⟩
      | false => cases (runs_pure.mp h).1
  obtain ⟨items, rest⟩ := others
  refine ⟨a, items, ?_⟩
  simpa [commaSeparated, behindCommas, List.flatMap_map] using taken.trans rest

end Lists

theorem variableNames_declares {kind : VariableKind} (h : Runs (variableNames kind) s u s') :
    ∃ list : VariableList, s.Declares list.terminals (list.declarations kind) s' := by
  obtain ⟨type, _, typed, h⟩ := runs_bind.mp h
  obtain ⟨_, _, listed, closed⟩ := runs_bind.mp h
  obtain ⟨t, rfl, first⟩ := typeName_advances typed
  obtain ⟨name, names, rest⟩ :=
    separatedByCommas_declares (fun h => declareNext_declares h) listed
  have whole := (first.declares.trans rest).trans (skipSymbol_advances closed).declares
  refine ⟨{ type := t, first := name, others := names }, ?_⟩
  simpa [VariableList.terminals, VariableList.declarations, VariableList.names,
    ← List.map_eq_flatMap] using whole

theorem classVariables_declares (h : Runs classVariables s true s') : ∃ d : ClassVariables,
    s.Declares d.terminals (d.list.declarations d.kind) s' := by
  obtain ⟨word?, _, looked, chosen⟩ := runs_bind.mp h
  obtain ⟨shown, same⟩ := runs_look.mp looked
  rw [same] at chosen
  split at chosen
  case h_3 => cases (runs_pure.mp chosen).1
  -- The two keywords differ in the kind that they declare.
  all_goals
    have next := TokenStream.keyword?_eq_some.mp shown.symm
    obtain ⟨_, _, skipped, rest⟩ := runs_bind.mp chosen
    obtain ⟨_, _, listed, answered⟩ := runs_bind.mp rest
    obtain ⟨-, rfl⟩ := runs_pure.mp answered
    obtain ⟨list, taken⟩ := variableNames_declares listed
    have whole := (skip_advances skipped next).declares.trans taken
  · exact ⟨{ isStatic := true, list }, whole⟩
  · exact ⟨{ isStatic := false, list }, whole⟩

theorem classVariables_idle (h : Runs classVariables s false s') : s' = s := by
  obtain ⟨word?, _, looked, chosen⟩ := runs_bind.mp h
  rw [(runs_look.mp looked).2] at chosen
  split at chosen
  case h_3 => exact (runs_pure.mp chosen).2
  all_goals
    obtain ⟨_, _, _, rest⟩ := runs_bind.mp chosen
    obtain ⟨_, _, _, answered⟩ := runs_bind.mp rest
    cases (runs_pure.mp answered).1

theorem localVariables_declares (h : Runs localVariables s true s') : ∃ list : VariableList,
    s.Declares (localTerminals list) (list.declarations .«local») s' := by
  obtain ⟨word?, _, looked, chosen⟩ := runs_bind.mp h
  obtain ⟨shown, same⟩ := runs_look.mp looked
  rw [same] at chosen
  split at chosen
  · have next := TokenStream.keyword?_eq_some.mp shown.symm
    obtain ⟨_, _, skipped, rest⟩ := runs_bind.mp chosen
    obtain ⟨_, _, listed, answered⟩ := runs_bind.mp rest
    obtain ⟨-, rfl⟩ := runs_pure.mp answered
    obtain ⟨list, taken⟩ := variableNames_declares listed
    exact ⟨list, (skip_advances skipped next).declares.trans taken⟩
  · cases (runs_pure.mp chosen).1

theorem localVariables_idle (h : Runs localVariables s false s') : s' = s := by
  obtain ⟨word?, _, looked, chosen⟩ := runs_bind.mp h
  rw [(runs_look.mp looked).2] at chosen
  split at chosen
  · obtain ⟨_, _, _, rest⟩ := runs_bind.mp chosen
    obtain ⟨_, _, _, answered⟩ := runs_bind.mp rest
    cases (runs_pure.mp answered).1
  · exact (runs_pure.mp chosen).2

theorem parameter_declares (h : Runs (do declareNext (← typeName) .argument) s u s') :
    ∃ p : Parameter, s.Declares p.terminals [p.declaration] s' := by
  obtain ⟨type, _, typed, named⟩ := runs_bind.mp h
  obtain ⟨t, rfl, first⟩ := typeName_advances typed
  obtain ⟨name, taken⟩ := declareNext_declares named
  exact ⟨{ type := t, name }, first.declares.trans taken⟩

theorem parameters_declares (h : Runs parameters s u s') : ∃ ps : List Parameter,
    s.Declares (commaSeparated (ps.map Parameter.terminals)) (ps.map Parameter.declaration) s' := by
  obtain ⟨empty, _, looked, chosen⟩ := runs_bind.mp h
  rw [(runs_look.mp looked).2] at chosen
  split at chosen
  · rw [(runs_pure.mp chosen).2]
    exact ⟨[], (Session.Advances.refl s).declares⟩
  · obtain ⟨p, ps, whole⟩ := separatedByCommas_declares (fun h => parameter_declares h) chosen
    exact ⟨p :: ps, by simpa [← List.map_eq_flatMap] using whole⟩

/-! ### Subroutines -/

theorem declareReceiver_declares {kind : SubroutineKind} {className : String} {place : Location}
    (h : Runs (declareReceiver kind className place) s u s') :
    s.Declares [] (if kind = .method then [receiver className] else []) s' := by
  cases kind with
  | method => exact declare_declares h
  | constructor | function =>
    rw [(runs_pure.mp h).2]
    exact (Session.Advances.refl s).declares

theorem prologue_advances {kind : SubroutineKind} (h : Runs (prologue kind) s u s') :
    s.Advances [] (prologueCode kind (s.visible.count .field)) 0 s' := by
  cases kind with
  | constructor =>
    -- The fields are counted as the table of the class has them.
    obtain ⟨fields, _, counted, h⟩ := runs_bind.mp h
    obtain ⟨rfl, same⟩ := runs_declarations.mp counted
    rw [same] at h
    obtain ⟨_, _, pushed, h⟩ := runs_bind.mp h
    obtain ⟨_, _, allocated, kept⟩ := runs_bind.mp h
    exact ((emit_advances pushed).trans (emit_advances allocated)).trans (emit_advances kept)
  | method =>
    obtain ⟨_, _, pushed, kept⟩ := runs_bind.mp h
    exact (emit_advances pushed).trans (emit_advances kept)
  | function =>
    rw [(runs_pure.mp h).2]
    exact .refl s

theorem returnType_advances {type : ReturnType} (h : Runs returnType s type s') :
    ∃ t : Option TypeName, s.Advances [returnTypeTerminal t] [] 0 s' := by
  obtain ⟨isVoid, _, accepted, h⟩ := runs_bind.mp h
  cases isVoid with
  | true =>
    rw [(runs_pure.mp h).2]
    exact ⟨none, acceptKeyword_advances accepted⟩
  | false =>
    obtain ⟨name, _, typed, answered⟩ := runs_bind.mp h
    obtain ⟨t, -, taken⟩ := typeName_advances typed
    rw [(runs_pure.mp answered).2, ← acceptKeyword_idle accepted]
    exact ⟨some t, taken⟩

/-- Behind the local declarations, a body is compiled in the environment that they leave. -/
theorem subroutineBody_derives {kind : SubroutineKind} {subroutine : Subroutine}
    (h : Runs (subroutineBody kind subroutine) s u s') : ∃ (locals : List VariableList)
      (body : List Statement) (middle : Session),
      s.Declares (locals.flatMap localTerminals)
        (locals.flatMap (·.declarations .«local»)) middle ∧
      Statement.blockDepth body ≤ maxNesting ∧
      Statement.BlockLegal (middle.environment subroutine.className) body ∧
      middle.Advances (Statement.blockTerminals body)
        (.function (qualifiedName subroutine.className subroutine.name)
            (middle.visible.count .«local») ::
          prologueCode kind (middle.visible.count .field) ++
          Statement.listCode (middle.environment subroutine.className) middle.nextLabel body)
        (Statement.listLabels body) s' := by
  obtain ⟨_, middle, declared, h⟩ := runs_bind.mp h
  obtain ⟨locals, taken⟩ :=
    repeatWhile_declares (fun _ _ => localVariables_idle) localVariables_declares declared
  obtain ⟨count, _, counted, rest⟩ := runs_bind.mp h
  obtain ⟨rfl, same⟩ := runs_declarations.mp counted
  rw [same] at rest
  obtain ⟨_, _, headed, rest⟩ := runs_bind.mp rest
  obtain ⟨_, atBody, begun, inside⟩ := runs_bind.mp rest
  have header := emit_advances headed
  have front := header.trans (prologue_advances begun)
  -- The declarations are complete here: nothing behind them declares a variable.
  have sees : middle.Sees (middle.environment subroutine.className) := rfl
  obtain ⟨body, deep, legal, code⟩ :=
    statements_derives rfl maxNesting _ _ (front.sees sees) inside
  refine ⟨locals, body, middle, taken, deep, legal, ?_⟩
  have number : atBody.nextLabel = middle.nextLabel := front.nextLabel
  simpa [header.visible, number] using front.trans code

/-- From one session to another, a subroutine of a class is taken that obeys the rules, and its code
is written. Its declarations stay until the next subroutine. -/
structure DerivesSubroutine (c : ClassDeclaration) (s : Session) (d : SubroutineDeclaration)
    (s' : Session) : Prop where
  admitted : c.Admits d
  tokens : s.tokens.Reads d.terminals s'.tokens
  output : s'.output = s.output.extend Instruction.text (c.subroutineCode s.nextLabel d)
  nextLabel : s'.nextLabel = s.nextLabel + Statement.listLabels d.body
  visible : s'.visible = tableOf c.declarations.reverse (d.declarations c.name).reverse

theorem subroutineOf_derives {c : ClassDeclaration} (kind : SubroutineKind)
    {ofSubroutine : List Declaration} {before : Session}
    (visible : before.visible = tableOf c.declarations.reverse ofSubroutine)
    (keyword : before.Advances [.keyword (kindKeyword kind)] [] 0 s)
    (h : Runs (subroutineOf c.name kind) s u s') : ∃ d, DerivesSubroutine c before d s' := by
  obtain ⟨_, start, started, h⟩ := runs_bind.mp h
  obtain ⟨type, _, typed, h⟩ := runs_bind.mp h
  obtain ⟨place, _, located, h⟩ := runs_bind.mp h
  obtain ⟨name, _, named, h⟩ := runs_bind.mp h
  obtain ⟨_, _, reported, h⟩ := runs_bind.mp h
  obtain ⟨_, _, received, h⟩ := runs_bind.mp h
  obtain ⟨_, _, opened, h⟩ := runs_bind.mp h
  obtain ⟨_, _, listed, h⟩ := runs_bind.mp h
  obtain ⟨_, _, closed, h⟩ := runs_bind.mp h
  obtain ⟨_, _, blocked, h⟩ := runs_bind.mp h
  obtain ⟨_, _, inside, ended⟩ := runs_bind.mp h
  rw [(runs_location.mp located).2] at named
  have begun := runs_startSubroutine.mp started
  obtain ⟨t, first⟩ := returnType_advances typed
  obtain ⟨ps, parameters⟩ := parameters_declares listed
  obtain ⟨locals, body, middle, declared, deep, legal, code⟩ := subroutineBody_derives inside
  -- The tree is complete once the body has been taken.
  let d : SubroutineDeclaration :=
    { kind, returnType := t, name, parameters := ps, locals, body }
  have front := ((((first.trans ((takeName_advances named).trans
    (report_advances reported))).declares.trans (declareReceiver_declares received)).trans
    (skipSymbol_advances opened).declares).trans (parameters.trans
    ((skipSymbol_advances closed).trans (skipSymbol_advances blocked)).declares)).trans declared
  -- Of the subroutine before, nothing is left. Of the class, everything is.
  have atStart : start.visible = tableOf c.declarations.reverse [] := by
    rw [begun, ← startSubroutine_tableOf, ← visible, ← keyword.visible]
  have table : declareAll? (tableOf c.declarations.reverse []) (d.declarations c.name) =
      some middle.visible := by
    simpa [atStart, d, SubroutineDeclaration.declarations, SubroutineDeclaration.arguments,
      SubroutineDeclaration.localVariables] using front.visible
  -- That all declarations have found an index bounds their number.
  obtain ⟨few, visible'⟩ := (declareAll?_subroutine
    (fun _ => SubroutineDeclaration.inClassScope_of_mem) (by simp)).mp table
  simp only [List.append_nil] at visible'
  -- The table in front of the body means what the declarations of the tree mean.
  have environment : middle.environment c.name = c.environment d := by
    rw [Session.environment, visible', lookup?_environment]
    rfl
  have whole := code.trans (skipSymbol_advances ended)
  refine ⟨d, ⟨?_, ?_, deep, ?_⟩, ?_, ?_, ?_, ?_⟩
  · simpa [SubroutineDeclaration.countOf_declarations] using few .argument
  · simpa [SubroutineDeclaration.countOf_declarations] using few .«local»
  · rw [← environment]
    exact legal
  · have tokens := keyword.tokens.append
      (show s.tokens.Reads _ _ by simpa [begun] using front.tokens.append whole.tokens)
    simpa [SubroutineDeclaration.terminals, d, braced, parenthesized] using tokens
  · -- Header and prologue use the counts of the table, which are those of the tree.
    have locals : middle.visible.count .«local» = d.localVariables.length := by
      rw [visible', count_tableOf_subroutine rfl, countOf_reverse,
        SubroutineDeclaration.countOf_declarations]
    have fields : middle.visible.count .field = c.fields := by
      rw [visible', count_tableOf_class rfl, countOf_reverse, ClassDeclaration.fields]
    have number : middle.nextLabel = before.nextLabel := by
      rw [front.nextLabel, begun]
      exact keyword.nextLabel
    have output : middle.output = before.output := by
      rw [front.output, begun]
      exact keyword.declares.output
    rw [whole.output, output, locals, fields, number, environment, List.append_nil]
    rfl
  · rw [whole.nextLabel, front.nextLabel, begun]
    exact congrArg (· + Statement.listLabels body) keyword.nextLabel
  · rw [whole.visible, visible']

theorem subroutine_derives {c : ClassDeclaration} {ofSubroutine : List Declaration}
    (visible : s.visible = tableOf c.declarations.reverse ofSubroutine)
    (h : Runs (subroutine c.name) s true s') : ∃ d, DerivesSubroutine c s d s' := by
  obtain ⟨word?, _, looked, chosen⟩ := runs_bind.mp h
  obtain ⟨shown, same⟩ := runs_look.mp looked
  rw [same] at chosen
  split at chosen
  case h_4 => cases (runs_pure.mp chosen).1
  all_goals
    have next := TokenStream.keyword?_eq_some.mp shown.symm
    obtain ⟨_, _, skipped, rest⟩ := runs_bind.mp chosen
    obtain ⟨_, _, taken, answered⟩ := runs_bind.mp rest
    obtain ⟨-, rfl⟩ := runs_pure.mp answered
  · exact subroutineOf_derives .constructor visible (skip_advances skipped next) taken
  · exact subroutineOf_derives .function visible (skip_advances skipped next) taken
  · exact subroutineOf_derives .method visible (skip_advances skipped next) taken

theorem subroutine_idle {className : String} (h : Runs (subroutine className) s false s') :
    s' = s := by
  obtain ⟨word?, _, looked, chosen⟩ := runs_bind.mp h
  rw [(runs_look.mp looked).2] at chosen
  split at chosen
  case h_4 => exact (runs_pure.mp chosen).2
  all_goals
    obtain ⟨_, _, _, rest⟩ := runs_bind.mp chosen
    obtain ⟨_, _, _, answered⟩ := runs_bind.mp rest
    cases (runs_pure.mp answered).1

theorem subroutines_derive {c : ClassDeclaration} {ofSubroutine : List Declaration}
    (visible : s.visible = tableOf c.declarations.reverse ofSubroutine)
    (h : Runs (repeatWhile (subroutine c.name)) s u s') : ∃ ds : List SubroutineDeclaration,
      (∀ d ∈ ds, c.Admits d) ∧
        s.tokens.Reads (ds.flatMap SubroutineDeclaration.terminals) s'.tokens ∧
        s'.output = s.output.extend Instruction.text (c.codeFrom s.nextLabel ds) := by
  -- What the subroutine before has declared differs from round to round.
  refine repeatWhile_induction (motive := fun s s' => ∀ ofSubroutine,
    s.visible = tableOf c.declarations.reverse ofSubroutine → ∃ ds : List SubroutineDeclaration,
      (∀ d ∈ ds, c.Admits d) ∧
        s.tokens.Reads (ds.flatMap SubroutineDeclaration.terminals) s'.tokens ∧
        s'.output = s.output.extend Instruction.text (c.codeFrom s.nextLabel ds))
    ?_ (fun _ _ => subroutine_idle) ?_ h ofSubroutine visible
  · exact fun s _ _ => ⟨[], by simp, .nil s.tokens, by simp [ClassDeclaration.codeFrom]⟩
  · intro s middle s' round rest _ visible
    obtain ⟨d, first⟩ := subroutine_derives visible round
    obtain ⟨ds, admitted, tokens, output⟩ := rest _ first.visible
    refine ⟨d :: ds, by simpa using ⟨first.admitted, admitted⟩, first.tokens.append tokens, ?_⟩
    rw [output, first.output, first.nextLabel, ← Sink.extend_append]
    rfl

/-! ### Classes -/

theorem expectEnd_runs : Runs expectEnd s u s' ↔ s.tokens.next? = none ∧ s' = s := by
  rw [TokenStream.next?_eq_none, expectEnd, runs_bind]
  constructor
  · rintro ⟨more, _, looked, h⟩
    obtain ⟨rfl, same⟩ := runs_look.mp looked
    rw [same] at h
    split at h
    · exact absurd h runs_failExpecting
    · rename_i none
      exact ⟨by simpa using none, (runs_pure.mp h).2⟩
  · rintro ⟨none, rfl⟩
    exact ⟨_, s', runs_look.mpr ⟨rfl, rfl⟩, by simp [none]⟩

/-- A run over a class takes all tokens of one that obeys the rules, and writes its code. -/
theorem classBody_derives (visible : s.visible = {}) (nextLabel : s.nextLabel = 0)
    (h : Runs classBody s u s') : ∃ c : ClassDeclaration, c.Lawful ∧
      s.tokens.Reads c.terminals s'.tokens ∧ s'.tokens.next? = none ∧
      s'.output = s.output.extend Instruction.text c.code := by
  obtain ⟨place, _, located, h⟩ := runs_bind.mp h
  obtain ⟨_, _, reported, h⟩ := runs_bind.mp h
  rw [(runs_location.mp located).2] at reported
  obtain ⟨_, _, opened, h⟩ := runs_bind.mp h
  obtain ⟨name, _, named, h⟩ := runs_bind.mp h
  obtain ⟨_, _, braced, h⟩ := runs_bind.mp h
  obtain ⟨_, inside, declared, h⟩ := runs_bind.mp h
  obtain ⟨_, _, compiled, h⟩ := runs_bind.mp h
  obtain ⟨_, _, closed, ended⟩ := runs_bind.mp h
  obtain ⟨classVariables, taken⟩ :=
    repeatWhile_declares (fun _ _ => classVariables_idle) classVariables_declares declared
  have front := (((report_advances reported).trans (skipKeyword_advances opened)).trans
    ((takeName_advances named).trans (skipSymbol_advances braced))).declares.trans taken
  -- What subroutines see of their class does not depend on the subroutines of the class.
  let outline : ClassDeclaration := { name, classVariables, subroutines := [] }
  obtain ⟨few, table⟩ := (declareAll?_class
    (fun _ => ClassDeclaration.inClassScope_of_mem) (by simp)).mp
    (show declareAll? (tableOf [] []) outline.declarations = some inside.visible by
      simpa [visible, outline, ClassDeclaration.declarations, tableOf_nil] using front.visible)
  obtain ⟨ds, admitted, tokens, output⟩ :=
    subroutines_derive (c := outline) (by simpa using table) compiled
  have closing := skipSymbol_advances closed
  obtain ⟨atEnd, same⟩ := expectEnd_runs.mp ended
  rw [same]
  refine ⟨{ name, classVariables, subroutines := ds }, ⟨few .static, few .field, fun d mem => ?_⟩,
    ?_, atEnd, ?_⟩
  · exact ⟨(admitted d mem).arguments, (admitted d mem).locals, (admitted d mem).nesting,
      (admitted d mem).body⟩
  · simpa [ClassDeclaration.terminals, Grammar.braced] using
      (front.tokens.append tokens).append closing.tokens
  · rw [closing.output, Sink.extend_nil, output, front.output, front.nextLabel, nextLabel]
    exact congrArg _ (outline.codeFrom_outline ds ds 0).symm

end Codegen

end JackCompiler
