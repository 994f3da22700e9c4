import JackCompiler.Proofs.Grammar.Unambiguity
import JackCompiler.Proofs.Grammar.Violation

/-!
# The order of violations

The violations of a class are listed from left to right. Two of them are at the same token only if
the first one is about the nesting, or if they are the same.

## Main definitions

* `Ordered` — violations inside a phrase, from left to right

## Main results

* `Expression.ordered`, `Statement.ordered` — the violations of a tree
* `ClassDeclaration.ordered_violations` — the violations of a class
-/

namespace JackCompiler.Grammar

/-- Violations from left to right, all of them in a phrase with the given number of tokens from its
start up to the end of the class, and from its end. -/
structure Ordered (violations : List Violation) (low high : Nat) : Prop where
  le : low ≤ high
  pairwise : violations.Pairwise fun v w => v = w ∨ v.Before w
  within : ∀ v ∈ violations, low < v.left ∧ v.left ≤ high

namespace Ordered

variable {vs ws : List Violation} {low middle high low' high' : Nat} {obeyed : Prop}
  [Decidable obeyed] {breach : Breach} {tokens : List Terminal}

theorem nil (le : low ≤ high) : Ordered [] low high :=
  ⟨le, .nil, by simp⟩

theorem mono (h : Ordered vs low high) (left : low' ≤ low) (right : high ≤ high') :
    Ordered vs low' high' := by
  refine ⟨Nat.le_trans left (Nat.le_trans h.le right), h.pairwise, fun v mem => ?_⟩
  have := h.within v mem
  omega

/-- The violations of one phrase and of what stands behind it. -/
theorem append (h : Ordered vs middle high) (h' : Ordered ws low middle) :
    Ordered (vs ++ ws) low high := by
  refine ⟨Nat.le_trans h'.le h.le, List.pairwise_append.mpr ⟨h.pairwise, h'.pairwise, ?_⟩, ?_⟩
  · intro v mem w mem'
    have := h.within v mem
    have := h'.within w mem'
    exact .inr (.inl (by omega))
  · intro v mem
    rcases List.mem_append.mp mem with mem | mem
    · exact ⟨Nat.lt_of_le_of_lt h'.le (h.within v mem).1, (h.within v mem).2⟩
    · exact ⟨(h'.within v mem).1, Nat.le_trans (h'.within v mem).2 h.le⟩

theorem mem_checked {v : Violation} (mem : v ∈ checked obeyed breach tokens) :
    v = { breach, left := tokens.length } := by
  unfold checked at mem
  split at mem
  · cases mem
  · exact List.mem_singleton.mp mem

theorem checked (later : low < tokens.length) (fits : tokens.length ≤ high) :
    Ordered (Grammar.checked obeyed breach tokens) low high := by
  refine ⟨by omega, ?_, fun v mem => ?_⟩
  · unfold Grammar.checked
    split <;> simp
  · rw [mem_checked mem]
    exact ⟨later, fits⟩

/-- A check in front of a phrase. -/
theorem checked_append (h : Ordered vs low middle) (later : middle < tokens.length)
    (fits : tokens.length ≤ high) : Ordered (Grammar.checked obeyed breach tokens ++ vs) low high :=
  append (checked later fits) h

/-- The nesting is checked before everything else that is at the same token. -/
theorem nested_append (h : Ordered vs low tokens.length) (later : low < tokens.length) :
    Ordered (Grammar.checked obeyed .nestingTooDeep tokens ++ vs) low tokens.length := by
  have first : Ordered (Grammar.checked obeyed .nestingTooDeep tokens) low tokens.length :=
    checked later (Nat.le_refl _)
  refine ⟨first.le, List.pairwise_append.mpr ⟨first.pairwise, h.pairwise, ?_⟩, fun v mem => ?_⟩
  · intro v mem w mem'
    rw [mem_checked mem]
    rcases Nat.lt_or_eq_of_le (h.within w mem').2 with before | same
    · exact .inr (.inl before)
    · exact .inr (.inr ⟨same, rfl⟩)
  · rcases List.mem_append.mp mem with mem | mem
    · exact first.within v mem
    · exact h.within v mem

/-- A check behind a phrase, at a token where the same may have been found already. -/
theorem append_checked (h : Ordered vs low high) (last : tokens.length = low + 1)
    (within : high < high') (tied : ∀ v ∈ vs, v.left = low + 1 → v.breach = breach) :
    Ordered (vs ++ Grammar.checked obeyed breach tokens) low high' := by
  have le := h.le
  have final : Ordered (Grammar.checked obeyed breach tokens) low high' :=
    checked (by omega) (by omega)
  refine ⟨final.le, List.pairwise_append.mpr ⟨h.pairwise, final.pairwise, ?_⟩, fun v mem => ?_⟩
  · intro v mem w mem'
    rw [mem_checked mem', last]
    rcases Nat.lt_or_eq_of_le (h.within v mem).1 with before | same
    · exact .inr (.inl before)
    · left
      rw [← tied v mem same.symm, show low + 1 = v.left from same]
  · rcases List.mem_append.mp mem with mem | mem
    · exact (h.mono (Nat.le_refl _) (Nat.le_of_lt within)).within v mem
    · exact final.within v mem

end Ordered

/-! ### Terms and statements -/

section Trees

variable (environment : Environment)

theorem Term.length_lt (t : Term) (rest : List Terminal) :
    rest.length < (t.terminals ++ rest).length := by
  obtain ⟨x, l, begins, -⟩ := t.starts
  rw [begins, List.length_append, List.length_cons]
  omega

/-- The parentheses of a call take more than the comma that a first argument does not have. -/
theorem arguments_le (es : List Expression) (rest : List Terminal) :
    (behindCommas (Expression.pieces es) ++ rest).length ≤
      (parenthesized (commaSeparated (Expression.pieces es)) ++ rest).length := by
  cases es with
  | nil => simp [behindCommas, Expression.pieces]
  | cons e es =>
    simp only [behindCommas, commaSeparated, parenthesized, Expression.pieces, List.flatMap_cons,
      List.length_append, List.length_cons]
    omega

mutual

theorem Term.ordered : ∀ (t : Term) (level : Nat) (rest : List Terminal),
    Ordered (t.violations environment level rest) rest.length (t.terminals ++ rest).length
  | .integer digits, level, rest => by
    rw [Term.violations]
    exact .nested_append (.nil (by simp)) (Term.length_lt _ rest)
  | .string contents, level, rest => by
    rw [Term.violations]
    exact .nested_append (.checked (by simp) (by simp [Term.terminals])) (Term.length_lt _ rest)
  | .constant word, level, rest => by
    rw [Term.violations]
    exact .nested_append (.nil (by simp)) (Term.length_lt _ rest)
  | .named name, level, rest => by
    rw [Term.violations]
    exact .nested_append (.checked (by simp) (by simp [Term.terminals])) (Term.length_lt _ rest)
  | .element array index, level, rest => by
    have inside := (Expression.ordered index (level + 1) (.symbol ']' :: rest)).mono
      (Nat.le_succ rest.length) (Nat.le_refl _)
    rw [Term.violations]
    refine .nested_append (.checked_append inside ?_ ?_) (Term.length_lt _ rest) <;>
      simp only [Term.terminals, List.length_append, List.length_cons, List.length_nil] <;> omega
  | .call target, level, rest => by
    have called := Call.ordered target (level + 1) rest
    rw [Term.violations]
    exact .nested_append (by rwa [Term.terminals]) (Term.length_lt _ rest)
  | .parentheses inner, level, rest => by
    have inside := (Expression.ordered inner (level + 1) (.symbol ')' :: rest)).mono
      (Nat.le_succ rest.length) (Nat.le_refl _)
    rw [Term.violations]
    refine .nested_append (inside.mono (Nat.le_refl _) ?_) (Term.length_lt _ rest)
    simp [Term.terminals, parenthesized]
  | .unary operator operand, level, rest => by
    have inside := Term.ordered operand (level + 1) rest
    rw [Term.violations]
    refine .nested_append (inside.mono (Nat.le_refl _) ?_) (Term.length_lt _ rest)
    simp [Term.terminals]

theorem Expression.ordered : ∀ (e : Expression) (level : Nat) (rest : List Terminal),
    Ordered (e.violations environment level rest) rest.length (e.terminals ++ rest).length
  | .single term, level, rest => by
    rw [Expression.violations, Expression.terminals]
    exact Term.ordered term level rest
  | .binary left operator right, level, rest => by
    have first := Term.ordered left level (.symbol operator.symbol :: (right.terminals ++ rest))
    have second := Expression.ordered right level rest
    rw [Expression.violations, Expression.terminals, List.append_assoc]
    exact first.append (second.mono (Nat.le_refl _) (by simp))

theorem Call.ordered : ∀ (target : Call) (level : Nat) (rest : List Terminal),
    Ordered (target.violations environment level rest) rest.length
      (target.terminals ++ rest).length
  | .bare name arguments, level, rest => by
    obtain ⟨listed, last⟩ := Expression.listOrdered arguments level 0 rest
    rw [Call.violations]
    refine listed.append_checked rfl ?_ last
    rw [Call.terminals, List.cons_append, List.length_cons]
    exact Nat.lt_succ_of_le (arguments_le arguments rest)
  | .qualified owner name arguments, level, rest => by
    obtain ⟨listed, last⟩ := Expression.listOrdered arguments level 0 rest
    rw [Call.violations]
    refine listed.append_checked rfl ?_ last
    have := arguments_le arguments rest
    simp only [Call.terminals, List.cons_append, List.length_cons]
    omega

/-- An argument that is counted at the closing parenthesis of its call is one too many. -/
theorem Expression.listOrdered : ∀ (es : List Expression) (level index : Nat)
    (rest : List Terminal),
    Ordered (Expression.listViolations environment level (.symbol ')' :: rest) index es)
        rest.length (behindCommas (Expression.pieces es) ++ rest).length ∧
      ∀ v ∈ Expression.listViolations environment level (.symbol ')' :: rest) index es,
        v.left = rest.length + 1 → v.breach = .tooMany "arguments"
  | [], level, index, rest => ⟨.nil (by simp), by simp [Expression.listViolations]⟩
  | e :: es, level, index, rest => by
    have first := Expression.ordered e level
      (behindCommas (Expression.pieces es) ++ .symbol ')' :: rest)
    obtain ⟨others, last⟩ := Expression.listOrdered es level (index + 1) rest
    rw [Expression.listViolations, List.append_assoc]
    constructor
    · refine (first.mono (Nat.le_refl _) ?_).append (others.checked_append ?_ (Nat.le_refl _)) <;>
        simp only [behindCommas, Expression.pieces, List.flatMap_cons, List.length_append,
          List.length_cons] <;> omega
    · intro v mem atEnd
      rcases List.mem_append.mp mem with mem | mem
      · have := (first.within v mem).1
        simp only [List.length_append, List.length_cons] at this
        omega
      · rcases List.mem_append.mp mem with mem | mem
        · rw [Ordered.mem_checked mem]
        · exact last v mem atEnd

end

/-- The level of a block is checked before what is in it. -/
theorem Statement.blockOrdered_of {body : List Statement} {level : Nat} {rest : List Terminal}
    (inside : Ordered
      (Statement.listViolations environment (level + 1) (.symbol closingBrace :: rest) body)
      (rest.length + 1) (Statement.blockTerminals body ++ .symbol closingBrace :: rest).length) :
    Ordered (Statement.blockViolations environment level (.symbol closingBrace :: rest) body)
      rest.length (Statement.blockTerminals body ++ .symbol closingBrace :: rest).length :=
  (inside.mono (Nat.le_succ _) (Nat.le_refl _)).nested_append (Nat.lt_of_succ_le inside.le)

mutual

theorem Statement.ordered : ∀ (statement : Statement) (level : Nat) (rest : List Terminal),
    Ordered (statement.violations environment level rest) rest.length
      (statement.terminals ++ rest).length
  | .assign target value, level, rest => by
    have valued := Expression.ordered environment value level (.symbol ';' :: rest)
    rw [Statement.violations]
    refine (valued.mono (Nat.le_succ _) (Nat.le_refl _)).checked_append ?_ ?_ <;>
      simp only [Statement.terminals, List.length_append, List.length_cons, List.length_nil] <;>
      omega
  | .assignElement array index value, level, rest => by
    have valued := Expression.ordered environment value level (.symbol ';' :: rest)
    have indexed := Expression.ordered environment index level
      (.symbol ']' :: .symbol '=' :: (value.terminals ++ .symbol ';' :: rest))
    rw [Statement.violations, List.append_assoc]
    refine (indexed.append (valued.mono (Nat.le_succ _) ?_)).checked_append ?_ ?_ <;>
      simp only [Statement.terminals, List.length_append, List.length_cons, List.length_nil] <;>
      omega
  | .ifThen condition body, level, rest => by
    have tested := Expression.ordered environment condition level
      (.symbol ')' :: (braced (Statement.blockTerminals body) ++ rest))
    have block := blockOrdered_of environment
      (Statement.listOrdered body (level + 1) (.symbol closingBrace :: rest))
    rw [Statement.violations_ifThen]
    refine (tested.append (block.mono (Nat.le_refl _) ?_)).mono (Nat.le_refl _) ?_ <;>
      simp only [Statement.terminals, braced, parenthesized, List.length_append,
        List.length_cons, List.length_nil] <;> omega
  | .ifElse condition body otherwise, level, rest => by
    have tested := Expression.ordered environment condition level
      (.symbol ')' :: (braced (Statement.blockTerminals body) ++
        .keyword .«else» :: (braced (Statement.blockTerminals otherwise) ++ rest)))
    have first := blockOrdered_of environment (Statement.listOrdered body (level + 1)
      (.symbol closingBrace ::
        .keyword .«else» :: (braced (Statement.blockTerminals otherwise) ++ rest)))
    have second := blockOrdered_of environment
      (Statement.listOrdered otherwise (level + 1) (.symbol closingBrace :: rest))
    rw [Statement.violations_ifElse]
    refine (tested.append ((first.append (second.mono (Nat.le_refl _) ?_)).mono
      (Nat.le_refl _) ?_)).mono (Nat.le_refl _) ?_ <;>
      simp only [Statement.terminals, braced, parenthesized, List.length_append,
        List.length_cons, List.length_nil] <;> omega
  | .loop condition body, level, rest => by
    have tested := Expression.ordered environment condition level
      (.symbol ')' :: (braced (Statement.blockTerminals body) ++ rest))
    have block := blockOrdered_of environment
      (Statement.listOrdered body (level + 1) (.symbol closingBrace :: rest))
    rw [Statement.violations_loop]
    refine (tested.append (block.mono (Nat.le_refl _) ?_)).mono (Nat.le_refl _) ?_ <;>
      simp only [Statement.terminals, braced, parenthesized, List.length_append,
        List.length_cons, List.length_nil] <;> omega
  | .discard target, level, rest => by
    have called := Call.ordered environment target level (.symbol ';' :: rest)
    rw [Statement.violations]
    refine called.mono (Nat.le_succ _) ?_
    simp [Statement.terminals]
  | .giveBack none, level, rest => by
    rw [Statement.violations]
    exact .nil (by simp)
  | .giveBack (some value), level, rest => by
    have valued := Expression.ordered environment value level (.symbol ';' :: rest)
    rw [Statement.violations]
    refine valued.mono (Nat.le_succ _) ?_
    simp [Statement.terminals, returnedTerminals]

theorem Statement.listOrdered : ∀ (body : List Statement) (level : Nat) (rest : List Terminal),
    Ordered (Statement.listViolations environment level rest body) rest.length
      (Statement.blockTerminals body ++ rest).length
  | [], level, rest => .nil (by simp)
  | statement :: body, level, rest => by
    have first := Statement.ordered statement level (Statement.blockTerminals body ++ rest)
    have others := Statement.listOrdered body level rest
    rw [Statement.listViolations, Statement.blockTerminals, List.append_assoc]
    exact first.append others

end

end Trees

/-! ### Declarations -/

section Lists

variable {α : Type} {terminals : α → List Terminal}

theorem ordered_inTurn {each : α → List Terminal → List Violation}
    (known : ∀ a rest, Ordered (each a rest) rest.length (terminals a ++ rest).length)
    (items : List α) (rest : List Terminal) :
    Ordered (inTurn terminals each items rest) rest.length
      (items.flatMap terminals ++ rest).length := by
  induction items with
  | nil => exact .nil (by simp)
  | cons a items ih =>
    rw [inTurn, List.flatMap_cons, List.append_assoc]
    exact (known a _).append ih

/-- Declarations are checked from left to right, whatever stands before them. -/
theorem ordered_overflows_inTurn {placed : α → List Terminal → List Placed}
    (known : ∀ a rest earlier,
      Ordered (overflows earlier (placed a rest)) rest.length (terminals a ++ rest).length)
    (items : List α) (rest : List Terminal) (earlier : List Declaration) :
    Ordered (overflows earlier (inTurn terminals placed items rest)) rest.length
      (items.flatMap terminals ++ rest).length := by
  induction items generalizing earlier with
  | nil => exact .nil (by simp)
  | cons a items ih =>
    rw [inTurn, overflows_append, List.flatMap_cons, List.append_assoc]
    exact (known a _ earlier).append (ih _)

/-- A single declaration. -/
theorem ordered_overflows_singleton {d : Declaration} {tokens : List Terminal} {low high : Nat}
    (earlier : List Declaration) (later : low < tokens.length) (fits : tokens.length ≤ high) :
    Ordered (overflows earlier [(d, tokens)]) low high := by
  rw [overflows, overflows, List.append_nil]
  exact .checked later fits

end Lists

theorem VariableList.ordered_placed (kind : VariableKind) (list : VariableList)
    (rest : List Terminal) (earlier : List Declaration) :
    Ordered (overflows earlier (list.placed kind rest)) rest.length
      (list.terminals ++ rest).length := by
  have each (name : String) (rest : List Terminal) (earlier : List Declaration) :
      Ordered (overflows earlier
          [(Declaration.mk name list.type.text kind, .identifier name :: rest)])
        rest.length ([Terminal.symbol ',', .identifier name] ++ rest).length :=
    ordered_overflows_singleton earlier (by simp) (by simp)
  refine (ordered_overflows_inTurn each list.names (.symbol ';' :: rest) earlier).mono
    (Nat.le_succ _) ?_
  -- The type in front of the first name takes the place of a comma.
  simp [VariableList.terminals, VariableList.names, commaSeparated, behindCommas,
    List.flatMap_map]

theorem ordered_placedParameters (parameters : List Parameter) (rest : List Terminal)
    (earlier : List Declaration) :
    Ordered (overflows earlier (placedParameters parameters rest)) rest.length
      (commaSeparated (parameters.map Parameter.terminals) ++ rest).length.succ := by
  have each (parameter : Parameter) (rest : List Terminal) (earlier : List Declaration) :
      Ordered (overflows earlier [(parameter.declaration, .identifier parameter.name :: rest)])
        rest.length ((.symbol ',' :: parameter.terminals) ++ rest).length :=
    ordered_overflows_singleton earlier (by simp) (by simp [Parameter.terminals])
  refine (ordered_overflows_inTurn each parameters rest earlier).mono (Nat.le_refl _) ?_
  cases parameters <;>
    simp [commaSeparated, behindCommas, List.flatMap_map, Parameter.terminals]

theorem SubroutineDeclaration.ordered_placed (s : SubroutineDeclaration) (rest : List Terminal)
    (earlier : List Declaration) :
    Ordered (overflows earlier (s.placed rest))
      (Statement.blockTerminals s.body ++ .symbol closingBrace :: rest).length
      (s.terminals ++ rest).length := by
  have each (list : VariableList) (rest : List Terminal) (earlier : List Declaration) :
      Ordered (overflows earlier (list.placed .«local» rest)) rest.length
        (localTerminals list ++ rest).length :=
    (list.ordered_placed .«local» rest earlier).mono (Nat.le_refl _) (by simp [localTerminals])
  have parameters := ordered_placedParameters s.parameters (s.behindParameters rest) earlier
  have locals := ordered_overflows_inTurn each s.locals
    (Statement.blockTerminals s.body ++ .symbol closingBrace :: rest)
    (recorded earlier (placedParameters s.parameters (s.behindParameters rest)))
  rw [SubroutineDeclaration.placed, overflows_append]
  refine (parameters.append (locals.mono (Nat.le_refl _) ?_)).mono (Nat.le_refl _) ?_ <;>
    simp only [SubroutineDeclaration.behindParameters, SubroutineDeclaration.terminals, braced,
      parenthesized, Nat.succ_eq_add_one, List.length_append, List.length_cons,
      List.length_nil] <;> omega

theorem ClassDeclaration.ordered_violationsOf (c : ClassDeclaration) (s : SubroutineDeclaration)
    (rest : List Terminal) :
    Ordered (c.violationsOf s rest) rest.length (s.terminals ++ rest).length := by
  have body := Statement.blockOrdered_of (c.environment s)
    (Statement.listOrdered (c.environment s) s.body (1 + 1) (.symbol closingBrace :: rest))
  exact (s.ordered_placed rest (s.receivers c.name)).append body

/-- **The violations of a class are listed from left to right.** -/
theorem ClassDeclaration.ordered_violations (c : ClassDeclaration) :
    Ordered c.violations 1 c.terminals.length := by
  have each (d : ClassVariables) (rest : List Terminal) (earlier : List Declaration) :
      Ordered (overflows earlier (d.list.placed d.kind rest)) rest.length
        (d.terminals ++ rest).length :=
    (d.list.ordered_placed d.kind rest earlier).mono (Nat.le_refl _)
      (by simp [ClassVariables.terminals])
  have declarations := ordered_overflows_inTurn each c.classVariables
    (c.subroutines.flatMap SubroutineDeclaration.terminals ++ [.symbol closingBrace]) []
  have subroutines := ordered_inTurn c.ordered_violationsOf c.subroutines [.symbol closingBrace]
  refine (declarations.append subroutines).mono (Nat.le_refl _) ?_
  simp only [ClassDeclaration.terminals, braced, List.length_append, List.length_cons,
    List.length_nil]
  omega

end JackCompiler.Grammar
