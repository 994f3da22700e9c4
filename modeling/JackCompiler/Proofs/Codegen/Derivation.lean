import JackCompiler.Proofs.Codegen.Run
import JackCompiler.Proofs.Grammar.Code
import JackCompiler.Proofs.Grammar.Rules

/-!
# What a run of the code generator has taken

A step for a phrase that succeeds has taken the token list of a tree and has written the code of
that tree. The tree obeys the rules, because a step that meets a breach of them fails.

## Main definitions

* `Session.Advances` — what has been taken, written and numbered between two sessions
* `Codegen.Derives` — a step takes a term, nested at most a number of levels deep

## Main results

* `Codegen.term_derives`, `Codegen.expression_derives` — runs of steps for terms and expressions
-/

namespace JackCompiler

open Grammar

/-- From one session to another, tokens with the given terminals are taken, the given code is
written, and the given number of labels is used up. -/
structure Session.Advances (s : Session) (terminals : List Terminal) (code : List Instruction)
    (labels : Nat) (s' : Session) : Prop where
  tokens : s.tokens.Reads terminals s'.tokens
  output : s'.output = s.output.extend Instruction.text code
  nextLabel : s'.nextLabel = s.nextLabel + labels
  visible : s'.visible = s.visible

/-- Names mean in a session what they mean in an environment. -/
def Session.Sees (s : Session) (environment : Environment) : Prop :=
  s.visible.lookup? = environment.lookup?

namespace Session

variable {s middle s' : Session} {terminals more : List Terminal} {code further : List Instruction}
  {labels others : Nat} {environment : Environment}

theorem Advances.refl (s : Session) : s.Advances [] [] 0 s :=
  ⟨.nil s.tokens, by simp, rfl, rfl⟩

theorem Advances.trans (h : s.Advances terminals code labels middle)
    (h' : middle.Advances more further others s') :
    s.Advances (terminals ++ more) (code ++ further) (labels + others) s' where
  tokens := h.tokens.append h'.tokens
  output := by rw [h'.output, h.output, Sink.extend_append]
  nextLabel := by rw [h'.nextLabel, h.nextLabel, Nat.add_assoc]
  visible := h'.visible.trans h.visible

theorem Advances.sees (h : s.Advances terminals code labels s') (sees : s.Sees environment) :
    s'.Sees environment := by
  rw [Sees, h.visible]
  exact sees

theorem advances_tokens {tokens : TokenStream} (reads : s.tokens.Reads terminals tokens) :
    s.Advances terminals [] 0 { s with tokens } :=
  ⟨reads, by simp, rfl, rfl⟩

end Session

namespace Codegen

variable {s s' : Session} {u : Unit}

/-! ### Single steps -/

theorem skipSymbol_advances {c : Char} (h : Runs (skipSymbol c) s u s') :
    s.Advances [.symbol c] [] 0 s' := by
  obtain ⟨tokens, reads, rfl⟩ := runs_skipSymbol.mp h
  exact Session.advances_tokens reads

theorem skipKeyword_advances {word : Keyword} (h : Runs (skipKeyword word) s u s') :
    s.Advances [.keyword word] [] 0 s' := by
  obtain ⟨tokens, reads, rfl⟩ := runs_skipKeyword.mp h
  exact Session.advances_tokens reads

theorem takeName_advances {name : String} (h : Runs takeName s name s') :
    s.Advances [.identifier name] [] 0 s' := by
  obtain ⟨tokens, reads, rfl⟩ := runs_takeName.mp h
  exact Session.advances_tokens reads

theorem skip_advances {terminal : Terminal} (h : Runs skip s u s')
    (next : s.tokens.next? = some terminal) : s.Advances [terminal] [] 0 s' := by
  obtain ⟨taken, tokens, reads, rfl⟩ := runs_skip.mp h
  obtain rfl : taken = terminal := by simpa [reads.next?_eq] using next
  exact Session.advances_tokens reads

theorem acceptSymbol_advances {c : Char} (h : Runs (acceptSymbol c) s true s') :
    s.Advances [.symbol c] [] 0 s' := by
  obtain ⟨-, tokens, reads, rfl⟩ | ⟨no, -⟩ := runs_acceptSymbol.mp h
  · exact Session.advances_tokens reads
  · cases no

theorem acceptSymbol_idle {c : Char} (h : Runs (acceptSymbol c) s false s') : s' = s := by
  obtain ⟨yes, -⟩ | ⟨-, -, same⟩ := runs_acceptSymbol.mp h
  · cases yes
  · exact same

theorem acceptKeyword_advances {word : Keyword} (h : Runs (acceptKeyword word) s true s') :
    s.Advances [.keyword word] [] 0 s' := by
  obtain ⟨-, tokens, reads, rfl⟩ | ⟨no, -⟩ := runs_acceptKeyword.mp h
  · exact Session.advances_tokens reads
  · cases no

theorem acceptKeyword_idle {word : Keyword} (h : Runs (acceptKeyword word) s false s') :
    s' = s := by
  obtain ⟨yes, -⟩ | ⟨-, -, same⟩ := runs_acceptKeyword.mp h
  · cases yes
  · exact same

theorem emit_advances {instruction : Instruction} (h : Runs (emit instruction) s u s') :
    s.Advances [] [instruction] 0 s' := by
  obtain ⟨output, written, rfl⟩ := runs_emit.mp h
  exact ⟨.nil s.tokens, Sink.extend_of_write written, rfl, rfl⟩

theorem freshLabel_advances {number : Nat} (h : Runs freshLabel s number s') :
    number = s.nextLabel ∧ s.Advances [] [] 1 s' := by
  obtain ⟨rfl, rfl⟩ := runs_freshLabel.mp h
  exact ⟨rfl, .nil s.tokens, by simp, rfl, rfl⟩

theorem report_advances {event : Event} (h : Runs (report event) s u s') :
    s.Advances [] [] 0 s' := by
  obtain rfl := runs_report.mp h
  exact ⟨.nil s.tokens, by simp, rfl, rfl⟩

/-- Code that is written instruction by instruction. -/
theorem emitAll_advances {α : Type} {step : α → Codegen Unit} (code : α → List Instruction)
    (each : ∀ {a s u s'}, Runs (step a) s u s' → s.Advances [] (code a) 0 s') :
    ∀ {items : List α} {s : Session}, Runs (items.forM step) s u s' →
      s.Advances [] (items.flatMap code) 0 s' := by
  intro items
  induction items with
  | nil =>
    intro s h
    obtain ⟨-, rfl⟩ := runs_pure.mp h
    exact .refl s'
  | cons a items ih =>
    intro s h
    obtain ⟨_, middle, first, rest⟩ := runs_bind.mp h
    exact (each first).trans (ih rest)

/-! ### Expressions -/

/-- A step that succeeds takes a term that is nested at most `levels` deep and obeys the rules, and
writes its code. -/
def Derives (environment : Environment) (levels : Nat) (step : Codegen Unit) : Prop :=
  ∀ s s', s.Sees environment → Runs step s () s' → ∃ t : Term,
    t.depth ≤ levels ∧ t.Legal environment ∧ s.Advances t.terminals (t.code environment) 0 s'

variable {environment : Environment} {levels : Nat} {step : Codegen Unit}

theorem pushVariable_advances {name : String} {v : Variable} (h : Runs (pushVariable v) s u s')
    (known : environment.lookup? name = some v) :
    s.Advances [] (environment.push name) 0 s' := by
  rw [Environment.push_of_lookup? known]
  exact emit_advances h

theorem operatorRound_idle {pending : List BinaryOperator}
    (h : Runs (operatorRound step pending) s none s') : s' = s := by
  obtain ⟨operator?, middle, looked, h⟩ := runs_bind.mp h
  obtain ⟨rfl, rfl⟩ := runs_look.mp looked
  split at h
  · obtain ⟨_, _, _, h⟩ := runs_bind.mp h
    obtain ⟨_, _, _, answered⟩ := runs_bind.mp h
    cases (runs_pure.mp answered).1
  · exact (runs_pure.mp h).2

/-- A round takes an operator and a term, and keeps the operator. -/
theorem operatorRound_derives {pending next : List BinaryOperator}
    (terms : Derives environment levels step) (sees : s.Sees environment)
    (h : Runs (operatorRound step pending) s (some next) s') :
    ∃ (operator : BinaryOperator) (t : Term), next = operator :: pending ∧ t.depth ≤ levels ∧
      t.Legal environment ∧
      s.Advances (.symbol operator.symbol :: t.terminals) (t.code environment) 0 s' := by
  obtain ⟨operator?, _, looked, h⟩ := runs_bind.mp h
  obtain ⟨rfl, rfl⟩ := runs_look.mp looked
  split at h
  · rename_i operator ahead
    obtain ⟨c, isNext, isOperator⟩ := Option.bind_eq_some_iff.mp ahead
    obtain rfl := BinaryOperator.ofSymbol?_eq_some_iff.mp isOperator
    obtain ⟨_, _, skipped, h⟩ := runs_bind.mp h
    obtain ⟨_, _, operand, answered⟩ := runs_bind.mp h
    obtain ⟨⟨⟩, rfl⟩ := runs_pure.mp answered
    have symbol := skip_advances skipped (TokenStream.symbol?_eq_some.mp isNext)
    obtain ⟨t, deep, legal, taken⟩ := terms _ _ (symbol.sees sees) operand
    exact ⟨operator, t, rfl, deep, legal, symbol.trans taken⟩
  · cases (runs_pure.mp h).1

/-- The rounds make an expression of any term in front of them, because each round ends with the
term that the next one extends. The operators of all rounds are still to be written, the latest
first. -/
theorem operatorRounds_derive {pending operators : List BinaryOperator}
    (terms : Derives environment levels step)
    (h : Runs (iterate (operatorRound step) pending) s operators s') :
    s.Sees environment → ∀ t : Term, t.depth ≤ levels → t.Legal environment →
      ∃ (e : Expression) (more : List Terminal) (code : List Instruction), e.depth ≤ levels ∧
        e.Legal environment ∧ s.Advances more code 0 s' ∧ e.terminals = t.terminals ++ more ∧
        t.code environment ++ code ++ operators.map BinaryOperator.instruction =
          e.code environment ++ pending.map BinaryOperator.instruction := by
  refine iterate_induction (motive := fun pending s operators s' => s.Sees environment →
    ∀ t : Term, t.depth ≤ levels → t.Legal environment →
      ∃ (e : Expression) (more : List Terminal) (code : List Instruction), e.depth ≤ levels ∧
        e.Legal environment ∧ s.Advances more code 0 s' ∧ e.terminals = t.terminals ++ more ∧
        t.code environment ++ code ++ operators.map BinaryOperator.instruction =
          e.code environment ++ pending.map BinaryOperator.instruction) ?_
    (fun _ _ _ => operatorRound_idle) ?_ h
  · intro pending s _ t deep legal
    exact ⟨.single t, [], [], deep, by simpa using legal, .refl s, by simp [Expression.terminals],
      by simp [Expression.code]⟩
  · intro pending s next middle operators s' round ih sees t deep legal
    obtain ⟨operator, t', rfl, deep', legal', taken⟩ := operatorRound_derives terms sees round
    obtain ⟨e, more, code, deepest, lawful, rest, terminals, same⟩ :=
      ih (taken.sees sees) t' deep' legal'
    refine ⟨.binary t operator e, _, _, ?_, by simpa using ⟨legal, lawful⟩, taken.trans rest, ?_,
      ?_⟩
    · simpa only [Expression.depth, Nat.max_le] using And.intro deep deepest
    · simp [Expression.terminals, terminals]
    · -- The operator of the round stands behind the code of everything to its right.
      simpa [Expression.code] using same

theorem expression_derives (terms : Derives environment levels step) (sees : s.Sees environment)
    (h : Runs (expression step) s u s') : ∃ e : Expression, e.depth ≤ levels ∧
      e.Legal environment ∧ s.Advances e.terminals (e.code environment) 0 s' := by
  obtain ⟨_, _, first, h⟩ := runs_bind.mp h
  obtain ⟨operators, _, rounds, applied⟩ := runs_bind.mp h
  obtain ⟨t, deep, legal, taken⟩ := terms _ _ sees first
  obtain ⟨e, more, code, deep, legal, rest, terminals, same⟩ :=
    operatorRounds_derive terms rounds (taken.sees sees) t deep legal
  have written := emitAll_advances (fun operator : BinaryOperator => [operator.instruction])
    (fun h => emit_advances h) applied
  have whole : e.code environment =
      t.code environment ++ (code ++ operators.map BinaryOperator.instruction) := by
    simpa using same.symm
  refine ⟨e, deep, legal, ?_⟩
  simpa [terminals, whole, ← List.map_eq_flatMap] using (taken.trans rest).trans written

theorem elementAddress_derives {name : String} {v : Variable}
    (terms : Derives environment levels step) (sees : s.Sees environment)
    (known : environment.lookup? name = some v) (h : Runs (elementAddress step v) s u s') :
    ∃ index : Expression, index.depth ≤ levels ∧ index.Legal environment ∧
      s.Advances (index.terminals ++ [.symbol ']'])
        (environment.push name ++ index.code environment ++ [.operate .add]) 0 s' := by
  obtain ⟨_, _, pushed, h⟩ := runs_bind.mp h
  obtain ⟨_, _, inside, h⟩ := runs_bind.mp h
  obtain ⟨_, _, closed, added⟩ := runs_bind.mp h
  have base := pushVariable_advances pushed known
  obtain ⟨index, deep, legal, taken⟩ := expression_derives terms (base.sees sees) inside
  have whole := ((base.trans taken).trans (skipSymbol_advances closed)).trans (emit_advances added)
  exact ⟨index, deep, legal, by simpa using whole⟩

theorem argumentRound_idle {count : Nat} (h : Runs (argumentRound step count) s none s') :
    s' = s := by
  obtain ⟨more, _, comma, answered⟩ := runs_bind.mp h
  cases more with
  | true =>
    -- Behind a comma, a round goes on or fails.
    obtain ⟨_, _, _, answered⟩ := runs_bind.mp answered
    split at answered
    · cases (runs_pure.mp answered).1
    · obtain ⟨_, _, _, failed⟩ := runs_bind.mp answered
      exact absurd failed runs_failAt
  | false =>
    rw [(runs_pure.mp answered).2]
    exact acceptSymbol_idle comma

/-- A round takes a comma and an argument, and counts it. -/
theorem argumentRound_derives {count next : Nat} (terms : Derives environment levels step)
    (sees : s.Sees environment) (h : Runs (argumentRound step count) s (some next) s') :
    ∃ e : Expression, next = count + 1 ∧ e.depth ≤ levels ∧ e.Legal environment ∧
      s.Advances (.symbol ',' :: e.terminals) (e.code environment) 0 s' := by
  obtain ⟨more, _, comma, h⟩ := runs_bind.mp h
  cases more with
  | false => cases (runs_pure.mp h).1
  | true =>
    obtain ⟨_, _, argument, h⟩ := runs_bind.mp h
    have symbol := acceptSymbol_advances comma
    obtain ⟨e, deep, legal, taken⟩ := expression_derives terms (symbol.sees sees) argument
    split at h
    · obtain ⟨⟨⟩, rfl⟩ := runs_pure.mp h
      exact ⟨e, rfl, deep, legal, symbol.trans taken⟩
    · obtain ⟨_, _, _, failed⟩ := runs_bind.mp h
      exact absurd failed runs_failAt

/-- The rounds take arguments behind commas, and count on. -/
theorem argumentRounds_derive {count total : Nat} (terms : Derives environment levels step)
    (h : Runs (iterate (argumentRound step) count) s total s') : s.Sees environment →
      ∃ es : List Expression, count + es.length = total ∧ (∀ e ∈ es, e.depth ≤ levels) ∧
        (∀ e ∈ es, e.Legal environment) ∧
        s.Advances (behindCommas (es.map Expression.terminals))
          (Expression.listCode environment es) 0 s' := by
  refine iterate_induction (motive := fun count s total s' => s.Sees environment →
    ∃ es : List Expression, count + es.length = total ∧ (∀ e ∈ es, e.depth ≤ levels) ∧
      (∀ e ∈ es, e.Legal environment) ∧
      s.Advances (behindCommas (es.map Expression.terminals))
        (Expression.listCode environment es) 0 s') ?_ (fun _ _ _ => argumentRound_idle) ?_ h
  · exact fun count s _ => ⟨[], rfl, by simp, by simp, .refl s⟩
  · intro count s next middle total s' round ih sees
    obtain ⟨e, rfl, deep, legal, taken⟩ := argumentRound_derives terms sees round
    obtain ⟨es, length, deeper, lawful, rest⟩ := ih (taken.sees sees)
    refine ⟨e :: es, ?_, by simpa using ⟨deep, deeper⟩, by simpa using ⟨legal, lawful⟩,
      taken.trans rest⟩
    rw [← length, List.length_cons, Nat.add_assoc, Nat.add_comm 1]

theorem argumentList_derives {count : Nat} (terms : Derives environment levels step)
    (sees : s.Sees environment) (h : Runs (argumentList step) s count s') :
    ∃ es : List Expression, es.length = count ∧ (∀ e ∈ es, e.depth ≤ levels) ∧
      (∀ e ∈ es, e.Legal environment) ∧
      s.Advances (commaSeparated (Expression.pieces es)) (Expression.listCode environment es) 0
        s' := by
  obtain ⟨empty, _, looked, h⟩ := runs_bind.mp h
  obtain ⟨rfl, rfl⟩ := runs_look.mp looked
  split at h
  · obtain ⟨rfl, rfl⟩ := runs_pure.mp h
    exact ⟨[], rfl, by simp, by simp, by
      simpa [commaSeparated, Expression.pieces, Expression.listCode] using .refl s'⟩
  · obtain ⟨_, _, first, rounds⟩ := runs_bind.mp h
    obtain ⟨e, deep, legal, taken⟩ := expression_derives terms sees first
    obtain ⟨es, total, deeper, lawful, rest⟩ :=
      argumentRounds_derive terms rounds (taken.sees sees)
    refine ⟨e :: es, by simp [← total, Nat.add_comm], by simpa using ⟨deep, deeper⟩,
      by simpa using ⟨legal, lawful⟩, ?_⟩
    rw [Expression.pieces_eq_map, List.map_cons, commaSeparated]
    exact taken.trans rest

/-- The instruction that pushes the object that a method is called on. -/
def receiverCode (target : CallTarget) : List Instruction :=
  (target.receiver?.map fun
    | .this => Instruction.push .pointer 0
    | .inVariable v => .push v.segment v.index).toList

theorem pushReceiver_advances {target : CallTarget}
    (h : Runs (target.receiver?.forM pushReceiver) s u s') :
    s.Advances [] (receiverCode target) 0 s' := by
  cases called : target.receiver? with
  | none =>
    rw [called] at h
    obtain ⟨-, rfl⟩ := runs_pure.mp h
    simpa [receiverCode, called] using .refl s'
  | some receiver =>
    rw [called] at h
    cases receiver <;> simpa [receiverCode, called] using emit_advances h

/-- The code of a call is made of what the call refers to. -/
theorem code_eq_target (environment : Environment) (c : Call) :
    c.code environment = receiverCode (c.target environment) ++
      Expression.listCode environment c.arguments ++
      [.call (c.target environment).fullName
        (c.arguments.length + (c.target environment).implicitArguments)] := by
  cases c with
  | bare name es => rfl
  | qualified owner name es =>
    cases known : environment.lookup? owner <;>
      simp [Call.code, Call.target, known, receiverCode, Environment.push, qualifiedCall,
        Call.arguments, CallTarget.receiver?, CallTarget.fullName, CallTarget.implicitArguments]

/-- A target is what a call refers to that goes on behind its first name with some terminals. -/
theorem callTarget_derives {first : String} {target : CallTarget} (sees : s.Sees environment)
    (h : Runs (callTarget environment.className first) s target s') :
    ∃ (make : List Expression → Call) (tail : List Terminal), s.Advances tail [] 0 s' ∧
      ∀ es, (make es).arguments = es ∧ (make es).target environment = target ∧
        (make es).terminals = .identifier first :: tail ++
          parenthesized (commaSeparated (Expression.pieces es)) := by
  obtain ⟨qualified, _, dot, h⟩ := runs_bind.mp h
  cases qualified with
  | true =>
    obtain ⟨name, _, named, h⟩ := runs_bind.mp h
    obtain ⟨found, _, looked, h⟩ := runs_bind.mp h
    have front := (acceptSymbol_advances dot).trans (takeName_advances named)
    obtain ⟨rfl, rfl⟩ := runs_lookup?.mp looked
    -- The second name has been taken, which does not change what the first one means.
    rw [front.sees sees] at h
    refine ⟨.qualified first name, [.symbol '.', .identifier name], ?_, fun es =>
      ⟨rfl, ?_, rfl⟩⟩
    · split at h <;> rw [(runs_pure.mp h).2] <;> exact front
    · split at h <;> rename_i known <;> rw [Call.target, known, (runs_pure.mp h).1]
  | false =>
    obtain ⟨rfl, rfl⟩ := runs_pure.mp h
    obtain rfl := acceptSymbol_idle dot
    exact ⟨.bare first, [], .refl s', fun es => ⟨rfl, rfl, rfl⟩⟩

theorem call_derives {first : String} (terms : Derives environment levels step)
    (sees : s.Sees environment) (h : Runs (call environment.className step first) s u s') :
    ∃ (c : Call) (tail : List Terminal), c.depth ≤ levels ∧ c.Legal environment ∧
      c.terminals = .identifier first :: tail ∧ s.Advances tail (c.code environment) 0 s' := by
  obtain ⟨target, _, referred, h⟩ := runs_bind.mp h
  obtain ⟨_, _, opened, h⟩ := runs_bind.mp h
  obtain ⟨_, _, pushed, h⟩ := runs_bind.mp h
  obtain ⟨listed, _, inside, h⟩ := runs_bind.mp h
  -- What the call refers to is settled in front of the arguments, which complete the tree.
  obtain ⟨make, tail, refers, made⟩ := callTarget_derives sees referred
  have front := (refers.trans (skipSymbol_advances opened)).trans (pushReceiver_advances pushed)
  obtain ⟨es, length, deep, legal, taken⟩ := argumentList_derives terms (front.sees sees) inside
  obtain ⟨arguments, same, terminals⟩ := made es
  split at h
  · rename_i count numbered
    obtain ⟨rfl, few⟩ := CallTarget.argumentCount?_eq_some.mp numbered
    obtain ⟨_, _, closed, called⟩ := runs_bind.mp h
    refine ⟨make es, _, ?_, ?_, terminals, ?_⟩
    · simpa [Call.depth_le_iff, arguments] using deep
    · rw [Call.legal_iff, Call.passed_eq_target, arguments, same, length]
      exact ⟨few, legal⟩
    · rw [code_eq_target, arguments, same, length]
      simpa [parenthesized] using
        ((front.trans taken).trans (skipSymbol_advances closed)).trans (emit_advances called)
  · obtain ⟨_, _, _, failed⟩ := runs_bind.mp h
    exact absurd failed runs_failAt

theorem keywordConstant_derives {word : Keyword} (next : s.tokens.next? = some (.keyword word))
    (h : Runs (keywordConstant word) s u s') : ∃ constant : ConstantWord,
      s.Advances [.keyword constant.keyword] constant.code 0 s' := by
  unfold keywordConstant at h
  split at h
  · obtain ⟨_, _, skipped, h⟩ := runs_bind.mp h
    obtain ⟨_, _, pushed, negated⟩ := runs_bind.mp h
    have front := (skip_advances skipped next).trans (emit_advances pushed)
    exact ⟨.«true», front.trans (emit_advances negated)⟩
  · obtain ⟨_, _, skipped, pushed⟩ := runs_bind.mp h
    exact ⟨.«false», (skip_advances skipped next).trans (emit_advances pushed)⟩
  · obtain ⟨_, _, skipped, pushed⟩ := runs_bind.mp h
    exact ⟨.null, (skip_advances skipped next).trans (emit_advances pushed)⟩
  · obtain ⟨_, _, skipped, pushed⟩ := runs_bind.mp h
    exact ⟨.this, (skip_advances skipped next).trans (emit_advances pushed)⟩
  · exact absurd h runs_failExpecting

theorem stringConstant_advances {contents : List Char}
    (h : Runs (stringConstant contents) s u s') : s.Advances [] (stringCode contents) 0 s' := by
  obtain ⟨_, _, length, h⟩ := runs_bind.mp h
  obtain ⟨_, _, created, h⟩ := runs_bind.mp h
  have characters := emitAll_advances
    (fun c : Char => [.push .constant c.toNat, .appendCharacter]) (fun {c s u s'} h => by
      obtain ⟨_, _, pushed, appended⟩ := runs_bind.mp h
      exact (emit_advances pushed).trans (emit_advances appended)) h
  exact ((emit_advances length).trans (emit_advances created)).trans characters

theorem named_derives (terms : Derives environment levels step) (sees : s.Sees environment)
    (h : Runs (named environment.className step) s u s') : ∃ t : Term, t.depth ≤ levels + 1 ∧
      t.Legal environment ∧ s.Advances t.terminals (t.code environment) 0 s' := by
  obtain ⟨place, _, stands, named⟩ := runs_bind.mp h
  obtain ⟨-, rfl⟩ := runs_location.mp stands
  obtain ⟨name, _, taken, shown⟩ := runs_bind.mp named
  have first := takeName_advances taken
  obtain ⟨symbol?, middle, looked, h⟩ := runs_bind.mp shown
  obtain ⟨shows, rfl⟩ := runs_look.mp looked
  split at h
  · -- An array element: the name has to mean a variable.
    obtain ⟨_, _, skipped, h⟩ := runs_bind.mp h
    obtain ⟨v, _, resolved, h⟩ := runs_bind.mp h
    obtain ⟨_, _, addressed, h⟩ := runs_bind.mp h
    obtain ⟨_, _, moved, loaded⟩ := runs_bind.mp h
    have front := first.trans (skip_advances skipped (TokenStream.symbol?_eq_some.mp shows.symm))
    obtain ⟨known, rfl⟩ := runs_resolve.mp resolved
    rw [front.sees sees] at known
    obtain ⟨index, deep, legal, address⟩ :=
      elementAddress_derives terms (front.sees sees) known addressed
    have whole := ((front.trans address).trans (emit_advances moved)).trans (emit_advances loaded)
    exact ⟨.element name index, by simpa [Term.depth] using deep, by simp [known, legal],
      by simpa [Term.terminals, Term.code] using whole⟩
  · -- A call, whether its name is followed by a parenthesis or by a dot.
    obtain ⟨c, tail, deep, legal, terminals, rest⟩ := call_derives terms (first.sees sees) h
    exact ⟨.call c, by simpa [Term.depth] using deep, by simpa using legal,
      by simpa [Term.terminals, terminals, Term.code] using first.trans rest⟩
  · obtain ⟨c, tail, deep, legal, terminals, rest⟩ := call_derives terms (first.sees sees) h
    exact ⟨.call c, by simpa [Term.depth] using deep, by simpa using legal,
      by simpa [Term.terminals, terminals, Term.code] using first.trans rest⟩
  · -- Anything else stands behind the name, which is a variable of its own.
    obtain ⟨v, _, resolved, pushed⟩ := runs_bind.mp h
    obtain ⟨known, rfl⟩ := runs_resolve.mp resolved
    rw [first.sees sees] at known
    exact ⟨.named name, by simp [Term.depth], by simp [known],
      first.trans (pushVariable_advances pushed known)⟩

theorem unary_derives (operator : UnaryOperator) (terms : Derives environment levels step)
    (sees : s.Sees environment) (next : s.tokens.next? = some (.symbol operator.symbol))
    (h : Runs (do skip; step; emit operator.instruction) s u s') : ∃ t : Term,
      t.depth ≤ levels + 1 ∧ t.Legal environment ∧
        s.Advances t.terminals (t.code environment) 0 s' := by
  obtain ⟨_, _, skipped, h⟩ := runs_bind.mp h
  obtain ⟨_, _, inside, applied⟩ := runs_bind.mp h
  have sign := skip_advances skipped next
  obtain ⟨t, deep, legal, taken⟩ := terms _ _ (sign.sees sees) inside
  have whole := (sign.trans taken).trans (emit_advances applied)
  exact ⟨.unary operator t, by simpa [Term.depth] using deep, by simpa using legal,
    by simpa [Term.terminals, Term.code] using whole⟩

theorem operand_derives (terms : Derives environment levels step) :
    Derives environment (levels + 1) (operand environment.className step) := by
  intro s s' sees h
  obtain ⟨lookahead, _, looked, picked⟩ := runs_bind.mp h
  obtain ⟨shown, same⟩ := runs_look.mp looked
  rw [shown, same] at picked
  split at picked
  · exact absurd picked runs_failExpecting
  · rename_i token ahead
    have next : s.tokens.next? = some token.terminal := by simp [TokenStream.next?, ahead]
    -- Each kind of token begins one alternative.
    split at picked <;> rename_i kind
    · -- A number is within range because the lexer has checked it.
      rw [Token.terminal_eq_integer.mpr ⟨kind, rfl⟩] at next
      have value : token.integerValue? = decimalValue? token.text.toList := by
        simp [Token.integerValue?, kind]
      split at picked
      · rename_i n inRange
        obtain ⟨_, _, skipped, pushed⟩ := runs_bind.mp picked
        have whole := (skip_advances skipped next).trans (emit_advances pushed)
        exact ⟨.integer token.text, by simp [Term.depth], by simp,
          by simpa [Term.terminals, Term.code, ← value, inRange] using whole⟩
      · exact absurd picked runs_failExpecting
    · -- A string that is too long makes the step fail, so that this one obeys its rule.
      rw [Token.terminal_eq_string.mpr ⟨kind, rfl⟩] at next
      dsimp only at picked
      split at picked
      · rename_i short
        obtain ⟨_, _, skipped, written⟩ := runs_bind.mp picked
        have whole := (skip_advances skipped next).trans (stringConstant_advances written)
        exact ⟨.string (unquote token.text.toList), by simp [Term.depth], by simpa using short,
          by simpa [Term.terminals, Term.code] using whole⟩
      · exact absurd picked runs_failExpecting
    · rw [Token.terminal_eq_keyword.mpr kind] at next
      obtain ⟨constant, whole⟩ := keywordConstant_derives next picked
      exact ⟨.constant constant, by simp [Term.depth], by simp, whole⟩
    · rw [Token.terminal_eq_symbol.mpr kind] at next
      obtain ⟨_, _, skipped, inside⟩ := runs_bind.mp picked
      obtain ⟨_, _, taken, closed⟩ := runs_bind.mp inside
      -- The expression inside is nested one level further down.
      have opening := skip_advances skipped next
      obtain ⟨e, deep, legal, inner⟩ := expression_derives terms (opening.sees sees) taken
      have whole := (opening.trans inner).trans (skipSymbol_advances closed)
      exact ⟨.parentheses e, by simpa [Term.depth] using deep, by simpa using legal,
        by simpa [Term.terminals, parenthesized, Term.code] using whole⟩
    · rw [Token.terminal_eq_symbol.mpr kind] at next
      exact unary_derives .neg terms sees next picked
    · rw [Token.terminal_eq_symbol.mpr kind] at next
      exact unary_derives .not terms sees next picked
    · exact named_derives terms sees picked
    · exact absurd picked runs_failExpecting

/-- A step with no levels left fails. -/
theorem term_derives (environment : Environment) (levels : Nat) :
    Derives environment levels (term environment.className levels) := by
  induction levels with
  | zero =>
    intro s s' _ h
    obtain ⟨_, _, _, failed⟩ := runs_bind.mp h
    exact absurd failed runs_failAt
  | succ levels ih => exact operand_derives ih

end Codegen

end JackCompiler
