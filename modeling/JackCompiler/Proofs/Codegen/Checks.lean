import JackCompiler.Proofs.Codegen.Meeting
import JackCompiler.Proofs.Grammar.Unambiguity

/-!
# What is checked in terms

On the token list of a term, in front of anything that does not continue it, the step for terms
meets the violations of the term and nothing else. One terminal of look-ahead picks the right
alternative because no two alternatives of a production begin alike, except those that begin with a
name: what stands behind the name tells them apart.

## Main definitions

* `Codegen.MeetsTerms` — a step meets the violations of terms

## Main results

* `Codegen.term_meets`, `Codegen.expression_meets` — terms and expressions
-/

namespace JackCompiler.Codegen

open Grammar

/-- A step meets the violations of every term at a level of nesting. -/
def MeetsTerms (script : Script) (environment : Environment) (visible : VariableTable)
    (level : Nat) (step : Codegen Unit) : Prop :=
  ∀ (t : Term) (rest : List Terminal), Ends continuesTerm rest.head? →
    Meets script step ⟨visible, t.terminals ++ rest⟩ (t.violations environment level rest) ()
      ⟨visible, rest⟩

variable {script : Script} {environment : Environment} {visible : VariableTable} {level : Nat}
  {step inner : Codegen Unit} {rest : List Terminal} {o : Outlook}

/-! ### Expressions -/

theorem meets_forM_emit {α : Type} (instruction : α → Instruction) (items : List α) :
    Meets script (items.forM fun a => emit (instruction a)) o [] () o := by
  induction items with
  | nil => exact meets_pure () o
  | cons a items ih => exact (meets_emit _).next ih

/-- The first term of an expression, and the rounds behind it. -/
private theorem operatorRounds (terms : MeetsTerms script environment visible level step) :
    ∀ (e : Expression) (rest : List Terminal) (pending : List BinaryOperator),
      Ends continuesExpression rest.head? → ∃ (middle : Outlook) (vs ws : List Violation),
        e.violations environment level rest = vs ++ ws ∧
        middle.rest.length ≤ (e.terminals ++ rest).length ∧
        Meets script step ⟨visible, e.terminals ++ rest⟩ vs () middle ∧
        ∃ operators,
          MeetsRounds script (operatorRound step) middle ws pending operators ⟨visible, rest⟩
  -- Behind the last term, no operator shows, and the rounds end.
  | .single t, rest, pending, ends => by
    refine ⟨⟨visible, rest⟩, t.violations environment level rest, [], ?_, by simp, ?_, pending,
      meetsRounds_last ?_⟩
    · rw [Expression.violations, List.append_nil]
    · exact terms t rest ends.term
    · refine meets_look_bind (a := none) (fun s awaits => ?_) (meets_pure none _)
      rw [Option.bind_eq_none_iff]
      intro c isNext
      have stops := ends _ (awaits.symbol?_eq_some.mp isNext)
      simp only [continuesExpression, Bool.or_eq_false_iff] at stops
      simpa using stops.2
  -- The rounds behind the right operand keep one operator more.
  | .binary left operator right, rest, pending, ends => by
    obtain ⟨middle, vs, ws, split, shorter, first, operators, rounds⟩ :=
      operatorRounds terms right rest (operator :: pending) ends
    refine ⟨⟨visible, .symbol operator.symbol :: (right.terminals ++ rest)⟩,
      left.violations environment level (.symbol operator.symbol :: (right.terminals ++ rest)),
      vs ++ ws, ?_, ?_, ?_, operators, .cons ?_ ?_ rounds⟩
    · rw [Expression.violations, split]
    · simp [Expression.terminals]
    · have := terms left (.symbol operator.symbol :: (right.terminals ++ rest))
        (.cons (continuesTerm_operator operator))
      simpa [Expression.terminals] using this
    · refine meets_look_bind (a := some operator) (fun s awaits => ?_)
        ((meets_skip _).next (first.last (meets_pure _ middle)))
      rw [awaits.symbol?_eq_some.mpr rfl, Option.bind_some,
        BinaryOperator.ofSymbol?_eq_some_iff.mpr rfl]
    · simp only [List.length_cons]
      omega

theorem expression_meets (terms : MeetsTerms script environment visible level step)
    (e : Expression) (ends : Ends continuesExpression rest.head?) :
    Meets script (expression step) ⟨visible, e.terminals ++ rest⟩
      (e.violations environment level rest) () ⟨visible, rest⟩ := by
  obtain ⟨middle, vs, ws, split, -, first, operators, rounds⟩ := operatorRounds terms e rest [] ends
  rw [split]
  exact first.bind (rounds.iterate.last (meets_forM_emit BinaryOperator.instruction operators))

theorem elementAddress_meets (terms : MeetsTerms script environment visible level step)
    (rest : List Terminal) (index : Expression) (v : Variable) :
    Meets script (elementAddress step v) ⟨visible, index.terminals ++ .symbol ']' :: rest⟩
      (index.violations environment level (.symbol ']' :: rest)) () ⟨visible, rest⟩ :=
  (meets_emit _).next ((expression_meets terms index (.cons rfl)).last
    ((meets_skipSymbol ']').next (meets_emit _)))

/-! ### Calls -/

/-- The argument in front of others is ended by a comma or by the closing parenthesis. -/
private theorem ends_argument (es : List Expression) (rest : List Terminal) :
    Ends continuesExpression
      (behindCommas (Expression.pieces es) ++ .symbol ')' :: rest).head? := by
  cases es <;> exact .cons rfl

/-- An argument is counted when the token behind it shows. -/
private theorem counted_meets (count : Nat) {tokens : List Terminal} (nonempty : tokens ≠ []) :
    Meets script (do
      if count < maxOperand then return some (count + 1)
      else failAt (← location) (.tooMany "arguments"))
      ⟨visible, tokens⟩ (checked (count < maxOperand) (.tooMany "arguments") tokens)
      (some (count + 1)) ⟨visible, tokens⟩ := by
  refine meets_checked (fun room => ?_) fun full => ?_
  · rw [if_pos room]
    exact meets_pure _ _
  · rw [if_neg full]
    exact meets_location_bind nonempty fun place placed =>
      meets_failAt placed (fun _ => rfl) nofun

/-- The rounds behind the first argument. -/
private theorem argumentRounds (terms : MeetsTerms script environment visible level step)
    (rest : List Terminal) : ∀ (es : List Expression) (count : Nat),
      MeetsRounds script (argumentRound step)
        ⟨visible, behindCommas (Expression.pieces es) ++ .symbol ')' :: rest⟩
        (Expression.listViolations environment level (.symbol ')' :: rest) count es)
        count (count + es.length) ⟨visible, .symbol ')' :: rest⟩
  | [], count => meetsRounds_last ((meets_acceptSymbol_other (by simp [Expression.pieces,
      behindCommas])).next (meets_pure none _))
  | e :: es, count => by
    have argument := expression_meets terms e (ends_argument es rest)
    have others := argumentRounds terms rest es (count + 1)
    rw [Nat.add_assoc, Nat.add_comm 1] at others
    have tokens : behindCommas (Expression.pieces (e :: es)) ++ .symbol ')' :: rest =
        .symbol ',' :: (e.terminals ++ (behindCommas (Expression.pieces es) ++
          .symbol ')' :: rest)) := by
      simp [Expression.pieces, behindCommas]
    rw [Expression.listViolations, tokens]
    refine .cons ((meets_acceptSymbol ',').next (argument.bind (counted_meets count (by simp)))) ?_
      others
    simp only [List.length_cons, List.length_append]
    omega

theorem argumentList_meets (terms : MeetsTerms script environment visible level step)
    (rest : List Terminal) (es : List Expression) :
    Meets script (argumentList step)
      ⟨visible, commaSeparated (Expression.pieces es) ++ .symbol ')' :: rest⟩
      (Expression.listViolations environment level (.symbol ')' :: rest) 0 es) es.length
      ⟨visible, .symbol ')' :: rest⟩ := by
  cases es with
  | nil =>
    refine meets_look_bind (a := true) (fun s awaits => ?_) (meets_pure 0 _)
    exact TokenStream.atSymbol_eq_true.mpr awaits.next?_eq
  -- An expression never begins with the parenthesis that would close the list.
  | cons e es =>
    obtain ⟨x, l, begins, different⟩ := e.starts_ne (c := ')') (by decide)
    refine meets_look_bind (a := false) (fun s awaits => ?_) ?_
    · rw [Bool.eq_false_iff, Ne, TokenStream.atSymbol_eq_true, awaits.next?_eq]
      simpa [Expression.pieces, commaSeparated, begins] using different
    · have first := expression_meets terms e (ends_argument es rest)
      have others := (argumentRounds terms rest es 1).iterate
      have counted : checked (0 < maxOperand) (.tooMany "arguments")
          (behindCommas (Expression.pieces es) ++ .symbol ')' :: rest) = [] :=
        checked_eq_nil.mpr (by decide)
      rw [Nat.add_comm] at others
      rw [Expression.listViolations, counted, List.append_nil, Expression.pieces, commaSeparated,
        List.append_assoc]
      exact first.bind others

/-- What follows the target of a call. -/
def callBehind (step : Codegen Unit) (target : CallTarget) : Codegen Unit := do
  skipSymbol '('
  target.receiver?.forM pushReceiver
  let explicit ← argumentList step
  match target.argumentCount? explicit with
  | some count =>
    skipSymbol ')'
    emit (.call target.fullName count)
  | none => failAt (← location) (.tooMany "arguments")

theorem meets_pushReceiver (target : CallTarget) :
    Meets script (target.receiver?.forM pushReceiver) o [] () o := by
  cases target.receiver? with
  | none => exact meets_pure () o
  | some receiver => cases receiver <;> exact meets_emit _

private theorem callBehind_meets (terms : MeetsTerms script environment visible level step)
    (rest : List Terminal) (target : CallTarget) (es : List Expression) :
    Meets script (callBehind step target)
      ⟨visible, parenthesized (commaSeparated (Expression.pieces es)) ++ rest⟩
      (Expression.listViolations environment level (.symbol ')' :: rest) 0 es ++
        checked (es.length + target.implicitArguments ≤ maxOperand) (.tooMany "arguments")
          (.symbol ')' :: rest)) () ⟨visible, rest⟩ := by
  have arguments := argumentList_meets terms rest es
  rw [parenthesized, List.cons_append, List.cons_append, List.append_assoc, List.singleton_append]
  refine (meets_skipSymbol '(').next ((meets_pushReceiver target).next (arguments.bind ?_))
  refine meets_checked (fun few => ?_) fun many => ?_
  · rw [CallTarget.argumentCount?_eq_some.mpr ⟨rfl, few⟩]
    exact (meets_skipSymbol ')').next (meets_emit _)
  · have none : target.argumentCount? es.length = none := by
      rw [Option.eq_none_iff_forall_ne_some]
      intro count found
      exact many (CallTarget.argumentCount?_eq_some.mp found).2
    rw [none]
    exact meets_location_bind (by simp) fun place placed =>
      meets_failAt placed (fun _ => rfl) nofun

theorem call_meets (terms : MeetsTerms script environment visible level step)
    (rest : List Terminal) (means : visible.lookup? = environment.lookup?) {c : Call}
    {first : String} {tail : List Terminal} (begins : c.terminals = .identifier first :: tail) :
    Meets script (call environment.className step first) ⟨visible, tail ++ rest⟩
      (c.violations environment level rest) () ⟨visible, rest⟩ := by
  have behind := callBehind_meets terms rest (c.target environment) c.arguments
  -- The target is found first, and what is behind it does not depend on how.
  have run : call environment.className step first =
    callTarget environment.className first >>= callBehind step := rfl
  have passed : c.passed environment =
      c.arguments.length + (c.target environment).implicitArguments := c.passed_eq_target
  rw [run]
  cases c with
  | bare name es =>
    simp only [Call.terminals, List.cons.injEq, Terminal.identifier.injEq] at begins
    obtain ⟨rfl, rfl⟩ := begins
    rw [Call.violations, passed]
    exact Meets.next ((meets_acceptSymbol_other (by simp [parenthesized])).next
      (meets_pure _ _)) behind
  | qualified owner name es =>
    simp only [Call.terminals, List.cons.injEq, Terminal.identifier.injEq] at begins
    obtain ⟨rfl, rfl⟩ := begins
    rw [Call.violations, passed]
    refine Meets.next ((meets_acceptSymbol '.').next ((meets_takeName name).next
      ((meets_lookup? owner).next ?_))) behind
    rw [means, Call.target]
    cases environment.lookup? owner <;> exact meets_pure _ _

/-! ### Terms -/

theorem stringConstant_meets (contents : List Char) :
    Meets script (stringConstant contents) o [] () o := by
  have characters : Meets script (contents.forM fun c => do
      emit (.push .constant c.toNat)
      emit .appendCharacter) o [] () o := by
    induction contents with
    | nil => exact meets_pure () o
    | cons c contents ih => exact ((meets_emit _).next (meets_emit _)).next ih
  exact (meets_emit _).next ((meets_emit _).next characters)

theorem keywordConstant_meets (word : ConstantWord) :
    Meets script (keywordConstant word.keyword) ⟨visible, .keyword word.keyword :: rest⟩ [] ()
      ⟨visible, rest⟩ := by
  cases word with
  | «true» => exact (meets_skip _).next ((meets_emit _).next (meets_emit _))
  | «false» | null | this => exact (meets_skip _).next (meets_emit _)

/-- A name alone is followed by nothing that would make it an element or a call. -/
theorem named_meets (terms : MeetsTerms script environment visible (level + 1) step)
    (shallow : level ≤ maxNesting) (means : visible.lookup? = environment.lookup?) {t : Term}
    {name : String} {tail : List Terminal} (begins : t.terminals = .identifier name :: tail)
    (ends : Ends continuesTerm rest.head?) :
    Meets script (named environment.className step)
      ⟨visible, .identifier name :: (tail ++ rest)⟩ (t.violations environment level rest) ()
      ⟨visible, rest⟩ := by
  refine meets_location_bind (by simp) fun place placed => (meets_takeName name).next ?_
  cases t with
  -- Nothing stands behind the name that would make more of it.
  | named name' =>
    simp only [Term.terminals, List.cons.injEq, Terminal.identifier.injEq] at begins
    obtain ⟨rfl, rfl⟩ := begins
    rw [Term.violations, checked_eq_nil.mpr shallow, List.nil_append]
    have pushed : Meets script (resolve name' place >>= pushVariable) ⟨visible, rest⟩
        (checked (environment.lookup? name').isSome (.undeclared name')
          (.identifier name' :: rest) ++ []) () ⟨visible, rest⟩ :=
      meets_resolve_bind means placed fun v => meets_emit _
    rw [List.append_nil] at pushed
    refine meets_look_bind_of (P := fun c? => ∀ c ∈ c?, c ∉ ['[', '(', '.'])
      (fun s awaits c mem => ?_) fun c? other => ?_
    · simpa [continuesTerm] using ends _ (awaits.symbol?_eq_some.mp mem)
    · split
      · simp at other
      · simp at other
      · simp at other
      · exact pushed
  | element array index =>
    simp only [Term.terminals, List.cons_append, List.cons.injEq, Terminal.identifier.injEq]
      at begins
    obtain ⟨rfl, rfl⟩ := begins
    rw [Term.violations, checked_eq_nil.mpr shallow, List.nil_append]
    simp only [List.cons_append, List.append_assoc] at placed ⊢
    exact meets_look_bind (a := some '[') (fun s awaits => awaits.symbol?_eq_some.mpr rfl)
      ((meets_skip _).next (meets_resolve_bind means placed fun v =>
        (elementAddress_meets terms rest index v).last ((meets_emit _).next (meets_emit _))))
  | call c =>
    rw [Term.terminals] at begins
    rw [Term.violations, checked_eq_nil.mpr shallow, List.nil_append]
    -- A dot or a parenthesis stands behind the name, and both lead to the same step.
    obtain ⟨name', symbol, l, starts, mem⟩ := c.starts
    obtain ⟨rfl, rfl⟩ : name' = name ∧ .symbol symbol :: l = tail := by
      simpa [starts] using begins
    refine meets_look_bind (a := some symbol) (fun s awaits => awaits.symbol?_eq_some.mpr rfl) ?_
    have called := call_meets terms rest means begins
    simp only [List.mem_cons, List.not_mem_nil, or_false] at mem
    obtain rfl | rfl := mem <;> exact called
  | integer | string | constant | parentheses | unary =>
    simp [Term.terminals, parenthesized] at begins

theorem operand_meets (terms : MeetsTerms script environment visible (level + 1) step)
    (shallow : level ≤ maxNesting) (means : visible.lookup? = environment.lookup?) :
    MeetsTerms script environment visible level (operand environment.className step) := by
  intro t rest ends
  -- The kind of the first token picks the alternative.
  cases t with
  | integer digits =>
    rw [Term.violations, checked_eq_nil.mpr shallow, List.nil_append]
    refine meets_lookahead_bind fun token sound same => ?_
    obtain ⟨kind, rfl⟩ := Token.terminal_eq_integer.mp same
    -- The lexer has already rejected numbers that are too large.
    obtain ⟨value, inRange⟩ := sound.inRange kind
    simp only [kind, inRange]
    exact (meets_skip _).next (meets_emit _)
  | string contents =>
    rw [Term.violations, checked_eq_nil.mpr shallow, List.nil_append]
    refine meets_lookahead_bind fun token _ same => ?_
    obtain ⟨kind, rfl⟩ := Token.terminal_eq_string.mp same
    simp only [kind]
    refine meets_checked (fun short => ?_) fun long => ?_
    · rw [if_pos short]
      exact (meets_skip _).next (stringConstant_meets _)
    · rw [if_neg long]
      exact meets_failExpecting_shorter
  | constant word =>
    rw [Term.violations, checked_eq_nil.mpr shallow, List.nil_append]
    refine meets_lookahead_bind fun token _ same => ?_
    simp only [Token.terminal_eq_keyword.mp same]
    exact keywordConstant_meets word
  | parentheses inner =>
    have inside : Meets script (expression step)
        ⟨visible, inner.terminals ++ .symbol ')' :: rest⟩
        (inner.violations environment (level + 1) (.symbol ')' :: rest)) ()
        ⟨visible, .symbol ')' :: rest⟩ := expression_meets terms inner (.cons rfl)
    rw [Term.violations, checked_eq_nil.mpr shallow, List.nil_append]
    simp only [Term.terminals, parenthesized, List.cons_append, List.append_assoc,
      List.nil_append]
    refine meets_lookahead_bind fun token _ same => ?_
    simp only [Token.terminal_eq_symbol.mp same]
    exact (meets_skip _).next (inside.last (meets_skipSymbol ')'))
  | unary operator operand =>
    have inside := terms operand rest ends
    rw [Term.violations, checked_eq_nil.mpr shallow, List.nil_append]
    refine meets_lookahead_bind fun token _ same => ?_
    simp only [Token.terminal_eq_symbol.mp same]
    cases operator <;> exact (meets_skip _).next (inside.last (meets_emit _))
  | named name =>
    refine meets_lookahead_bind fun token _ same => ?_
    simp only [(Token.terminal_eq_identifier.mp same).1]
    exact named_meets terms shallow means rfl ends
  | element array index =>
    refine meets_lookahead_bind fun token _ same => ?_
    simp only [(Token.terminal_eq_identifier.mp same).1]
    exact named_meets terms shallow means rfl ends
  | call c =>
    obtain ⟨name, symbol, l, starts, -⟩ := c.starts
    have begins : (Term.call c).terminals = .identifier name :: (.symbol symbol :: l) := by
      rw [Term.terminals, starts]
    rw [begins, List.cons_append]
    refine meets_lookahead_bind fun token _ same => ?_
    simp only [(Token.terminal_eq_identifier.mp same).1]
    exact named_meets terms shallow means begins ends

theorem term_meets (means : visible.lookup? = environment.lookup?) {level levels : Nat}
    (sum : level + levels = maxNesting + 1) :
    MeetsTerms script environment visible level (term environment.className levels) := by
  induction levels generalizing level with
  | zero =>
    intro t rest _
    have deep : ¬ level ≤ maxNesting := by omega
    rw [Term.violations.eq_def]
    refine meets_checked_append (fun shallow => absurd shallow deep) fun _ => ?_
    obtain ⟨x, l, begins, -⟩ := t.starts
    have nonempty : t.terminals ++ rest ≠ [] := by simp [begins]
    exact meets_location_bind nonempty fun place placed =>
      meets_failAt placed (fun _ => rfl) fun _ => nonempty
  | succ levels ih => exact operand_meets (ih (by omega)) (by omega) means

end JackCompiler.Codegen
