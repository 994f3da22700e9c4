import JackCompiler.Proofs.Grammar.Violation

/-!
# Where terms and blocks are nested

The terms and blocks of a phrase that are a given number of levels inside it are listed from left to
right, each by the number of tokens in front of it. If a phrase breaks no rule but the one about
nesting, then the first violation is where the first term or block is one level too deep.

The nesting of things that follow one another is that of the deepest of them.

## Main definitions

* `Term.placesAt`, `Statement.placesAt` — the places of what is some levels further inside
* `FirstAt` — the first violation is about nesting, and at the first of some places
* `Shallow` — no violation is about nesting

## Main results

* `Term.firstAt`, `Statement.firstAt` — where the nesting of a tree is first too deep
* `ClassDeclaration.shallow` — classes whose subroutines are not nested too deep
-/

namespace JackCompiler.Grammar

/-! ### Places -/

mutual

/-- The places of the terms that are some levels inside a term. The number of tokens in front of the
term is given first. -/
def Term.placesAt (before : Nat) : Nat → Term → List Nat
  | 0, _ => [before]
  | level + 1, .element _ index => index.placesAt (before + 2) level
  | level + 1, .call target => target.placesAt (before + 1) level
  | level + 1, .parentheses inner => inner.placesAt (before + 1) level
  | level + 1, .unary _ operand => operand.placesAt (before + 1) level
  | _ + 1, .integer _ => []
  | _ + 1, .string _ => []
  | _ + 1, .constant _ => []
  | _ + 1, .named _ => []

/-- The places of the terms that are some levels inside the terms of an expression. -/
def Expression.placesAt (before level : Nat) : Expression → List Nat
  | .single term => term.placesAt before level
  | .binary left _ right =>
    left.placesAt before level ++ right.placesAt (before + left.terminals.length + 1) level

/-- The places of the terms that are some levels inside the arguments of a call. The number of
tokens in front of what is behind the first name is given. -/
def Call.placesAt (before level : Nat) : Call → List Nat
  | .bare _ arguments => Expression.listPlacesAt (before + 1) level arguments
  | .qualified _ _ arguments => Expression.listPlacesAt (before + 3) level arguments

/-- The places of the terms that are some levels inside expressions with commas between them. -/
def Expression.listPlacesAt (before level : Nat) : List Expression → List Nat
  | [] => []
  | e :: es =>
    e.placesAt before level ++ Expression.listPlacesAt (before + e.terminals.length + 1) level es

end

/-- The place of a block, or the places inside it if these are further inside. -/
def atBlock (before : Nat) (inside : Nat → List Nat) : Nat → List Nat
  | 0 => [before]
  | level + 1 => inside level

mutual

/-- The places of the terms and blocks that are some levels inside those of a statement. The place
of a block is behind its opening brace. -/
def Statement.placesAt (before level : Nat) : Statement → List Nat
  | .assign _ value => value.placesAt (before + 3) level
  | .assignElement _ index value =>
    index.placesAt (before + 3) level ++
      value.placesAt (before + index.terminals.length + 5) level
  | .ifThen condition body =>
    let first := before + condition.terminals.length + 4
    condition.placesAt (before + 2) level ++
      atBlock first (fun level => Statement.listPlacesAt first level body) level
  | .ifElse condition body otherwise =>
    let first := before + condition.terminals.length + 4
    let second := first + (Statement.blockTerminals body).length + 3
    condition.placesAt (before + 2) level ++
      (atBlock first (fun level => Statement.listPlacesAt first level body) level ++
        atBlock second (fun level => Statement.listPlacesAt second level otherwise) level)
  | .loop condition body =>
    let first := before + condition.terminals.length + 4
    condition.placesAt (before + 2) level ++
      atBlock first (fun level => Statement.listPlacesAt first level body) level
  | .discard target => target.placesAt (before + 2) level
  | .giveBack none => []
  | .giveBack (some value) => value.placesAt (before + 1) level

/-- The places of the terms and blocks that are some levels inside those of several statements. -/
def Statement.listPlacesAt (before level : Nat) : List Statement → List Nat
  | [] => []
  | statement :: others =>
    statement.placesAt before level ++
      Statement.listPlacesAt (before + statement.terminals.length) level others

end

/-- The places of the terms and blocks that are some levels inside a block. -/
def Statement.blockPlacesAt (before level : Nat) (body : List Statement) : List Nat :=
  atBlock before (fun level => Statement.listPlacesAt before level body) level

/-! ### The first violation -/

/-- There are no violations if there are no places. Otherwise the first violation is about nesting,
and it is at the first place, counted from the front of as many tokens as given. -/
def FirstAt (total : Nat) (violations : List Violation) (places : List Nat) : Prop :=
  match places with
  | [] => violations = []
  | place :: _ => ∃ left later,
    violations = { breach := .nestingTooDeep, left } :: later ∧ left + place = total

section FirstAt

variable {environment : Environment} {total : Nat} {vs ws : List Violation} {is js : List Nat}
  {rest tokens : List Terminal}

theorem firstAt_nil : FirstAt total [] [] := rfl

theorem FirstAt.append (h : FirstAt total vs is) (h' : FirstAt total ws js) :
    FirstAt total (vs ++ ws) (is ++ js) := by
  cases is with
  | nil =>
    -- There is nothing in front of the violations on the right.
    obtain rfl : vs = [] := h
    exact h'
  | cons i is =>
    obtain ⟨left, later, rfl, sum⟩ := h
    exact ⟨left, later ++ ws, rfl, sum⟩

/-- A rule that is obeyed. -/
theorem FirstAt.obeyed {obeyed : Prop} [Decidable obeyed] {breach : Breach}
    (h : FirstAt total vs is) (holds : obeyed) :
    FirstAt total (checked obeyed breach tokens ++ vs) is := by
  rwa [checked_eq_nil.mpr holds]

theorem FirstAt.obeyed_last {obeyed : Prop} [Decidable obeyed] {breach : Breach}
    (h : FirstAt total vs is) (holds : obeyed) :
    FirstAt total (vs ++ checked obeyed breach tokens) is := by
  rwa [checked_eq_nil.mpr holds, List.append_nil]

/-- A level too many. -/
theorem firstAt_tooDeep {level before : Nat} (deep : maxNesting < level)
    (sum : before + tokens.length = total) :
    FirstAt total (checked (level ≤ maxNesting) .nestingTooDeep tokens ++ vs) [before] := by
  rw [checked, if_neg (Nat.not_le_of_lt deep)]
  exact ⟨_, _, rfl, by omega⟩

mutual

/-- The nesting of a term that breaks no other rule is first too deep where it is the given number
of levels inside. -/
theorem Term.firstAt : ∀ (t : Term) {level levels before : Nat} (rest : List Terminal),
    level + levels = maxNesting + 1 → before + (t.terminals ++ rest).length = total →
      t.Legal environment →
      FirstAt total (t.violations environment level rest) (t.placesAt before levels)
  | t, level, 0, before, rest, sum, count, legal => by
    -- No level is left for the term itself, whatever is inside it.
    rw [Term.violations.eq_def, Term.placesAt]
    exact firstAt_tooDeep (by omega) count
  | .integer digits, level, levels + 1, before, rest, sum, count, legal =>
    firstAt_nil.obeyed (by omega)
  | .string contents, level, levels + 1, before, rest, sum, count, legal => by
    refine FirstAt.obeyed ?_ (by omega)
    rw [checked_eq_nil.mpr (Term.legal_string.mp legal)]
    exact firstAt_nil
  | .constant word, level, levels + 1, before, rest, sum, count, legal =>
    firstAt_nil.obeyed (by omega)
  | .named name, level, levels + 1, before, rest, sum, count, legal => by
    refine FirstAt.obeyed ?_ (by omega)
    rw [checked_eq_nil.mpr (Term.legal_named.mp legal)]
    exact firstAt_nil
  | .element array index, level, levels + 1, before, rest, sum, count, legal => by
    obtain ⟨declared, legal⟩ := Term.legal_element.mp legal
    simp only [Term.terminals, List.length_append, List.length_cons, List.length_nil] at count
    -- The array is declared and the term is not too deep, so that the index decides.
    refine FirstAt.obeyed (FirstAt.obeyed ?_ declared) (by omega)
    refine Expression.firstAt index (.symbol ']' :: rest) (by omega) ?_ legal
    simp only [List.length_append, List.length_cons]
    omega
  | .call target, level, levels + 1, before, rest, sum, count, legal => by
    rw [Term.terminals] at count
    exact (Call.firstAt target rest (by omega) (by omega) (Term.legal_call.mp legal)).obeyed
      (by omega)
  | .parentheses inner, level, levels + 1, before, rest, sum, count, legal => by
    simp only [Term.terminals, parenthesized, List.length_append, List.length_cons,
      List.length_nil] at count
    refine FirstAt.obeyed (Expression.firstAt inner (.symbol ')' :: rest) (by omega) ?_
      (Term.legal_parentheses.mp legal)) (by omega)
    simp only [List.length_append, List.length_cons]
    omega
  | .unary operator operand, level, levels + 1, before, rest, sum, count, legal => by
    simp only [Term.terminals, List.length_append, List.length_cons] at count
    refine FirstAt.obeyed (Term.firstAt operand rest (by omega) ?_
      (Term.legal_unary.mp legal)) (by omega)
    simp only [List.length_append]
    omega

theorem Expression.firstAt : ∀ (e : Expression) {level levels before : Nat}
    (rest : List Terminal), level + levels = maxNesting + 1 →
      before + (e.terminals ++ rest).length = total → e.Legal environment →
      FirstAt total (e.violations environment level rest) (e.placesAt before levels)
  | .single term, level, levels, before, rest, sum, count, legal =>
    Term.firstAt term rest sum count (Expression.legal_single.mp legal)
  | .binary left operator right, level, levels, before, rest, sum, count, legal => by
    obtain ⟨legal, legal'⟩ := Expression.legal_binary.mp legal
    simp only [Expression.terminals, List.length_append, List.length_cons] at count
    refine (Term.firstAt left _ sum ?_ legal).append (Expression.firstAt right rest sum ?_ legal')
    · simp only [List.length_append, List.length_cons]
      omega
    · simp only [List.length_append]
      omega

theorem Call.firstAt : ∀ (target : Call) {level levels before : Nat} (rest : List Terminal),
    level + levels = maxNesting + 1 → before + (target.terminals ++ rest).length = total + 1 →
      target.Legal environment →
      FirstAt total (target.violations environment level rest) (target.placesAt before levels)
  | .bare name es, level, levels, before, rest, sum, count, legal => by
    obtain ⟨few, legal⟩ := Call.legal_iff.mp legal
    simp only [Call.terminals, parenthesized, List.length_append, List.length_cons,
      List.length_nil] at count
    refine FirstAt.obeyed_last (Expression.listFirstAt es 0 (.symbol ')' :: rest) sum
      (fun _ => ?_) ?_ legal) few
    · simp only [List.length_append, List.length_cons]
      omega
    · rw [Nat.zero_add]
      exact Nat.le_trans ((Call.bare name es).length_arguments_le_passed environment) few
  | .qualified owner name es, level, levels, before, rest, sum, count, legal => by
    obtain ⟨few, legal⟩ := Call.legal_iff.mp legal
    simp only [Call.terminals, parenthesized, List.length_append, List.length_cons,
      List.length_nil] at count
    refine FirstAt.obeyed_last (Expression.listFirstAt es 0 (.symbol ')' :: rest) sum
      (fun _ => ?_) ?_ legal) few
    · simp only [List.length_append, List.length_cons]
      omega
    · rw [Nat.zero_add]
      exact Nat.le_trans ((Call.qualified owner name es).length_arguments_le_passed environment) few

/-- Behind the last expression there is no comma, and nothing that could be nested. -/
theorem Expression.listFirstAt : ∀ (es : List Expression) {level levels before : Nat} (index : Nat)
    (rest : List Terminal), level + levels = maxNesting + 1 →
      (es ≠ [] → before + (commaSeparated (Expression.pieces es) ++ rest).length = total) →
      index + es.length ≤ maxOperand → (∀ e ∈ es, e.Legal environment) →
      FirstAt total (Expression.listViolations environment level rest index es)
        (Expression.listPlacesAt before levels es)
  | [], level, levels, before, index, rest, sum, count, few, legal => firstAt_nil
  | e :: es, level, levels, before, index, rest, sum, count, few, legal => by
    obtain ⟨legal, others⟩ := List.forall_mem_cons.mp legal
    rw [List.length_cons] at few
    have count := count (by simp)
    simp only [Expression.pieces, commaSeparated, List.append_assoc] at count
    refine ((Expression.firstAt e _ sum count legal).obeyed_last (by omega)).append
      (Expression.listFirstAt es (index + 1) rest sum (fun nonempty => ?_) (by omega) others)
    -- Only if there is another expression is there a comma to be counted.
    obtain ⟨e', es, rfl⟩ := List.exists_cons_of_ne_nil nonempty
    simp only [Expression.pieces, commaSeparated, behindCommas, List.flatMap_cons,
      List.length_append, List.length_cons] at count ⊢
    omega

end

mutual

/-- The same for statements and the blocks in them. -/
theorem Statement.firstAt : ∀ (statement : Statement) {level levels before : Nat}
    (rest : List Terminal), level + levels = maxNesting + 1 →
      before + (statement.terminals ++ rest).length = total → statement.Legal environment →
      FirstAt total (statement.violations environment level rest)
        (statement.placesAt before levels)
  | .assign target value, level, levels, before, rest, sum, count, legal => by
    obtain ⟨declared, legal⟩ := Statement.legal_assign.mp legal
    simp only [Statement.terminals, List.length_append, List.length_cons, List.length_nil] at count
    refine FirstAt.obeyed (value.firstAt _ sum ?_ legal) declared
    simp only [List.length_append, List.length_cons]
    omega
  | .assignElement array index value, level, levels, before, rest, sum, count, legal => by
    obtain ⟨declared, legal, legal'⟩ := Statement.legal_assignElement.mp legal
    simp only [Statement.terminals, List.length_append, List.length_cons, List.length_nil] at count
    rw [Statement.violations, List.append_assoc]
    refine FirstAt.obeyed ((index.firstAt _ sum ?_ legal).append (value.firstAt _ sum ?_ legal'))
      declared
    · simp only [List.length_append, List.length_cons]
      omega
    · simp only [List.length_append, List.length_cons]
      omega
  | .ifThen condition body, level, levels, before, rest, sum, count, legal => by
    obtain ⟨legal, inside⟩ := Statement.legal_ifThen.mp legal
    simp only [Statement.terminals, parenthesized, braced, List.length_append, List.length_cons,
      List.length_nil] at count
    rw [Statement.violations_ifThen]
    refine (condition.firstAt _ sum ?_ legal).append
      (Statement.blockFirstAt body _ sum ?_ inside)
    · simp only [braced, List.length_append, List.length_cons, List.length_nil]
      omega
    · simp only [List.length_append, List.length_cons]
      omega
  | .ifElse condition body otherwise, level, levels, before, rest, sum, count, legal => by
    obtain ⟨legal, inside, inside'⟩ := Statement.legal_ifElse.mp legal
    simp only [Statement.terminals, parenthesized, braced, List.length_append, List.length_cons,
      List.length_nil] at count
    rw [Statement.violations_ifElse]
    -- Of the two blocks the second is only looked at if the first is not too deep.
    refine (condition.firstAt _ sum ?_ legal).append
      ((Statement.blockFirstAt body _ sum ?_ inside).append
        (Statement.blockFirstAt otherwise _ sum ?_ inside'))
    · simp only [braced, List.length_append, List.length_cons, List.length_nil]
      omega
    · simp only [braced, List.length_append, List.length_cons, List.length_nil]
      omega
    · simp only [List.length_append, List.length_cons]
      omega
  | .loop condition body, level, levels, before, rest, sum, count, legal => by
    obtain ⟨legal, inside⟩ := Statement.legal_loop.mp legal
    simp only [Statement.terminals, parenthesized, braced, List.length_append, List.length_cons,
      List.length_nil] at count
    rw [Statement.violations_loop]
    refine (condition.firstAt _ sum ?_ legal).append
      (Statement.blockFirstAt body _ sum ?_ inside)
    · simp only [braced, List.length_append, List.length_cons, List.length_nil]
      omega
    · simp only [List.length_append, List.length_cons]
      omega
  | .discard target, level, levels, before, rest, sum, count, legal => by
    simp only [Statement.terminals, List.length_append, List.length_cons, List.length_nil] at count
    refine target.firstAt _ sum ?_ (Statement.legal_discard.mp legal)
    simp only [List.length_append, List.length_cons]
    omega
  | .giveBack none, level, levels, before, rest, sum, count, legal => firstAt_nil
  | .giveBack (some value), level, levels, before, rest, sum, count, legal => by
    simp only [Statement.terminals, returnedTerminals, List.length_append, List.length_cons,
      List.length_nil] at count
    refine value.firstAt _ sum ?_ (Statement.legal_giveBack.mp legal value rfl)
    simp only [List.length_append, List.length_cons]
    omega

theorem Statement.blockFirstAt : ∀ (body : List Statement) {level levels before : Nat}
    (rest : List Terminal), level + levels = maxNesting + 1 →
      before + (Statement.blockTerminals body ++ rest).length = total →
      Statement.BlockLegal environment body →
      FirstAt total (Statement.blockViolations environment level rest body)
        (Statement.blockPlacesAt before levels body)
  | body, level, 0, before, rest, sum, count, legal => by
    exact firstAt_tooDeep (by omega) count
  | body, level, levels + 1, before, rest, sum, count, legal =>
    (Statement.listFirstAt body rest (by omega) count legal).obeyed (by omega)

theorem Statement.listFirstAt : ∀ (body : List Statement) {level levels before : Nat}
    (rest : List Terminal), level + levels = maxNesting + 1 →
      before + (Statement.blockTerminals body ++ rest).length = total →
      Statement.BlockLegal environment body →
      FirstAt total (Statement.listViolations environment level rest body)
        (Statement.listPlacesAt before levels body)
  | [], level, levels, before, rest, sum, count, legal => firstAt_nil
  | statement :: others, level, levels, before, rest, sum, count, legal => by
    have all := Statement.blockLegal_iff.mp legal
    rw [List.forall_mem_cons, ← Statement.blockLegal_iff] at all
    simp only [Statement.blockTerminals, List.append_assoc, List.length_append] at count
    refine (statement.firstAt _ sum ?_ all.1).append
      (Statement.listFirstAt others rest sum ?_ all.2)
    · simp only [List.length_append]
      omega
    · simp only [List.length_append]
      omega

end

end FirstAt

/-! ### Sequences -/

/-- The terms that an expression puts operators between. -/
def Expression.operands : Expression → List Term
  | .single term => [term]
  | .binary left _ right => left :: right.operands

/-- An expression is as deep as the deepest of its operands, however many these are. -/
theorem Expression.depth_le_iff {e : Expression} {n : Nat} :
    e.depth ≤ n ↔ ∀ t ∈ e.operands, t.depth ≤ n := by
  fun_induction Expression.operands e with
  | case1 term => simp
  | case2 left operator right ih => rw [Expression.depth, Nat.max_le, ih, List.forall_mem_cons]

/-- A block is a level by itself, and as deep as the deepest of its statements. -/
theorem Statement.blockDepth_le_iff {body : List Statement} {n : Nat} :
    Statement.blockDepth body ≤ n + 1 ↔ ∀ statement ∈ body, statement.depth ≤ n := by
  rw [Statement.blockDepth, Nat.add_le_add_iff_right, Statement.listDepth_le_iff]

/-! ### No violation -/

/-- No violation is about nesting. -/
def Shallow (violations : List Violation) : Prop :=
  ∀ v ∈ violations, v.breach ≠ .nestingTooDeep

section Shallow

variable {environment : Environment} {vs ws : List Violation} {tokens : List Terminal}

theorem shallow_nil : Shallow [] := by simp [Shallow]

theorem Shallow.append (h : Shallow vs) (h' : Shallow ws) : Shallow (vs ++ ws) :=
  List.forall_mem_append.mpr ⟨h, h'⟩

/-- A rule that is not about nesting. -/
theorem shallow_checked {obeyed : Prop} [Decidable obeyed] {breach : Breach}
    (other : breach ≠ .nestingTooDeep) : Shallow (checked obeyed breach tokens) := by
  unfold checked
  split
  · exact shallow_nil
  · simpa [Shallow] using other

/-- A level that is not too many. -/
theorem Shallow.nested {level : Nat} (h : Shallow vs) (room : level ≤ maxNesting) :
    Shallow (checked (level ≤ maxNesting) .nestingTooDeep tokens ++ vs) := by
  rwa [checked_eq_nil.mpr room]

/-- A term is a level by itself. -/
theorem Term.depth_pos (t : Term) : 0 < t.depth := by
  cases t <;> simp

mutual

/-- A term that fits into the levels that are left has no violation about nesting, whatever else is
wrong with it. -/
theorem Term.shallow : ∀ (t : Term) {level levels : Nat} (rest : List Terminal),
    level + levels = maxNesting + 1 → t.depth ≤ levels →
      Shallow (t.violations environment level rest)
  | t, _, 0, _, _, fits => absurd (Nat.lt_of_lt_of_le t.depth_pos fits) (Nat.lt_irrefl 0)
  | .integer _, _, levels + 1, _, sum, _ => shallow_nil.nested (by omega)
  | .string _, _, levels + 1, _, sum, _ => (shallow_checked (by simp)).nested (by omega)
  | .constant _, _, levels + 1, _, sum, _ => shallow_nil.nested (by omega)
  | .named _, _, levels + 1, _, sum, _ => (shallow_checked (by simp)).nested (by omega)
  | .element _ index, level, levels + 1, _, sum, fits =>
    have inside : level + 1 + levels = maxNesting + 1 := by omega
    ((shallow_checked (by simp)).append
      (index.shallow _ inside (Nat.le_of_succ_le_succ fits))).nested (by omega)
  | .call target, level, levels + 1, _, sum, fits =>
    have inside : level + 1 + levels = maxNesting + 1 := by omega
    (target.shallow _ inside (Nat.le_of_succ_le_succ fits)).nested (by omega)
  | .parentheses inner, level, levels + 1, _, sum, fits =>
    have inside : level + 1 + levels = maxNesting + 1 := by omega
    (inner.shallow _ inside (Nat.le_of_succ_le_succ fits)).nested (by omega)
  | .unary _ operand, level, levels + 1, _, sum, fits =>
    have inside : level + 1 + levels = maxNesting + 1 := by omega
    (operand.shallow _ inside (Nat.le_of_succ_le_succ fits)).nested (by omega)

theorem Expression.shallow : ∀ (e : Expression) {level levels : Nat} (rest : List Terminal),
    level + levels = maxNesting + 1 → e.depth ≤ levels →
      Shallow (e.violations environment level rest)
  | .single term, _, _, rest, sum, fits => Term.shallow term rest sum fits
  | .binary left _ right, _, _, rest, sum, fits =>
    have ⟨fits, fits'⟩ := Nat.max_le.mp fits
    (Term.shallow left _ sum fits).append (Expression.shallow right rest sum fits')

theorem Call.shallow : ∀ (target : Call) {level levels : Nat} (rest : List Terminal),
    level + levels = maxNesting + 1 → target.depth ≤ levels →
      Shallow (target.violations environment level rest)
  | .bare _ es, _, _, rest, sum, fits =>
    (Expression.listShallow es 0 _ sum fits).append (shallow_checked (by simp))
  | .qualified _ _ es, _, _, rest, sum, fits =>
    (Expression.listShallow es 0 _ sum fits).append (shallow_checked (by simp))

theorem Expression.listShallow : ∀ (es : List Expression) {level levels : Nat} (index : Nat)
    (rest : List Terminal), level + levels = maxNesting + 1 → Expression.listDepth es ≤ levels →
      Shallow (Expression.listViolations environment level rest index es)
  | [], _, _, _, _, _, _ => shallow_nil
  | e :: es, _, _, index, rest, sum, fits =>
    have ⟨fits, fits'⟩ := Nat.max_le.mp fits
    ((Expression.shallow e _ sum fits).append (shallow_checked (by simp))).append
      (Expression.listShallow es (index + 1) rest sum fits')

end

mutual

theorem Statement.shallow : ∀ (statement : Statement) {level levels : Nat} (rest : List Terminal),
    level + levels = maxNesting + 1 → statement.depth ≤ levels →
      Shallow (statement.violations environment level rest)
  | .assign _ value, _, _, _, sum, fits =>
    (shallow_checked (by simp)).append (value.shallow _ sum fits)
  | .assignElement _ index value, _, _, _, sum, fits =>
    have ⟨fits, fits'⟩ := Nat.max_le.mp fits
    ((shallow_checked (by simp)).append (index.shallow _ sum fits)).append
      (value.shallow _ sum fits')
  | .ifThen condition body, _, _, _, sum, fits => by
    have ⟨fits, fits'⟩ := Nat.max_le.mp fits
    rw [Statement.violations_ifThen]
    exact (condition.shallow _ sum fits).append (Statement.blockShallow body _ sum fits')
  | .ifElse condition body otherwise, _, _, _, sum, fits => by
    have ⟨fits, blocks⟩ := Nat.max_le.mp fits
    have ⟨fits', fits''⟩ := Nat.max_le.mp blocks
    rw [Statement.violations_ifElse]
    exact (condition.shallow _ sum fits).append ((Statement.blockShallow body _ sum fits').append
      (Statement.blockShallow otherwise _ sum fits''))
  | .loop condition body, _, _, _, sum, fits => by
    have ⟨fits, fits'⟩ := Nat.max_le.mp fits
    rw [Statement.violations_loop]
    exact (condition.shallow _ sum fits).append (Statement.blockShallow body _ sum fits')
  | .discard target, _, _, _, sum, fits => target.shallow _ sum fits
  | .giveBack none, _, _, _, _, _ => shallow_nil
  | .giveBack (some value), _, _, _, sum, fits => value.shallow _ sum fits

theorem Statement.blockShallow : ∀ (body : List Statement) {level levels : Nat}
    (rest : List Terminal), level + levels = maxNesting + 1 → Statement.blockDepth body ≤ levels →
      Shallow (Statement.blockViolations environment level rest body)
  | _, _, 0, _, _, fits => absurd fits (Nat.not_succ_le_zero _)
  | body, level, levels + 1, _, sum, fits =>
    have inside : level + 1 + levels = maxNesting + 1 := by omega
    (Statement.listShallow body _ inside (Nat.le_of_succ_le_succ fits)).nested (by omega)

theorem Statement.listShallow : ∀ (body : List Statement) {level levels : Nat}
    (rest : List Terminal), level + levels = maxNesting + 1 → Statement.listDepth body ≤ levels →
      Shallow (Statement.listViolations environment level rest body)
  | [], _, _, _, _, _ => shallow_nil
  | statement :: others, _, _, rest, sum, fits =>
    have ⟨fits, fits'⟩ := Nat.max_le.mp fits
    (Statement.shallow statement _ sum fits).append (Statement.listShallow others rest sum fits')

end

/-- Declarations are not nested. -/
theorem shallow_overflows (placed : List Placed) :
    ∀ earlier, Shallow (overflows earlier placed) := by
  induction placed with
  | nil => exact fun _ => shallow_nil
  | cons p placed ih => exact fun _ => (shallow_checked (by simp)).append (ih _)

/-- A class whose subroutines are not nested too deep has no violation about nesting. -/
theorem ClassDeclaration.shallow {c : ClassDeclaration}
    (fits : ∀ s ∈ c.subroutines, Statement.blockDepth s.body ≤ maxNesting) :
    Shallow c.violations := by
  refine (shallow_overflows _ _).append ?_
  generalize c.subroutines = subroutines at fits
  induction subroutines with
  | nil => exact shallow_nil
  | cons s others ih =>
    obtain ⟨first, later⟩ := List.forall_mem_cons.mp fits
    exact ((shallow_overflows _ _).append
      (Statement.blockShallow s.body _ (Nat.add_comm 1 maxNesting) first)).append (ih later)

end Shallow

end JackCompiler.Grammar
