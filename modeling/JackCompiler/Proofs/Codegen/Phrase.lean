import JackCompiler.Proofs.Codegen.BlockChecks
import JackCompiler.Proofs.Codegen.ClassAgreement
import JackCompiler.Proofs.Codegen.ClassFollowing
import JackCompiler.Proofs.Grammar.Nesting

/-!
# Phrases that contain phrases

Terms and blocks of statements may contain others of their kind, and so may what is made of them:
expressions, calls and addresses of array elements. Each of these productions has a step, and the
step is given the number of levels that are left where it begins.

Whatever has been proved of the steps is collected here in terms of the phrase that they are for.

## Main definitions

* `Phrase` — a tree of one of these productions, and its tokens and nesting
* `Phrase.step`, `Phrase.counted` — what compiles it

## Main results

* `Phrase.meets` — the step meets the violations of the phrase
* `Phrase.violations_eq_nil`, `Phrase.firstAt` — which these are if the phrase breaks no other rule
* `Phrase.mirrors` — a pass that counts comes to the same
-/

namespace JackCompiler.Grammar

open Codegen

/-- A tree of one of the productions that may contain themselves. The first name of a call has been
taken already, and of an array element the name and the opening bracket. -/
inductive Phrase where
  | statements (body : List Statement)
  | expression (e : Expression)
  | term (t : Term)
  | call (target : Call)
  | elementAddress (array : Variable) (index : Expression)

/-- The name that a call begins with. -/
def Call.firstName : Call → String
  | .bare name _ => name
  | .qualified owner _ _ => owner

theorem Call.terminals_eq (target : Call) :
    target.terminals = .identifier target.firstName :: target.terminals.tail := by
  cases target <;> simp [Call.terminals, firstName]

namespace Phrase

/-- The terminals of a phrase. -/
def terminals : Phrase → List Terminal
  | .statements body => Statement.blockTerminals body
  | .expression e => e.terminals
  | .term t => t.terminals
  | .call target => target.terminals.tail
  | .elementAddress _ index => index.terminals ++ [.symbol ']']

/-- What may continue a phrase. -/
def continues : Phrase → Terminal → Bool
  | .statements _ => fun terminal => startsStatement terminal || continuesStatement terminal
  | .expression _ => continuesExpression
  | .term _ => continuesTerm
  | .call _ => continuesNothing
  | .elementAddress _ _ => continuesNothing

/-- The number of terms and blocks that are nested in a phrase. -/
def height : Phrase → Nat
  | .statements body => Statement.blockDepth body
  | .expression e => e.depth
  | .term t => t.depth
  | .call target => target.depth
  | .elementAddress _ index => index.depth

/-- A phrase breaks no rule but the one about nesting. -/
def Legal (environment : Environment) : Phrase → Prop
  | .statements body => Statement.BlockLegal environment body
  | .expression e => e.Legal environment
  | .term t => t.Legal environment
  | .call target => target.Legal environment
  | .elementAddress _ index => index.Legal environment

/-- The violations of a phrase at a level of nesting. -/
def violations (environment : Environment) (level : Nat) (rest : List Terminal) :
    Phrase → List Violation
  | .statements body => Statement.blockViolations environment level rest body
  | .expression e => e.violations environment level rest
  | .term t => t.violations environment level rest
  | .call target => target.violations environment level rest
  | .elementAddress _ index => index.violations environment level (.symbol ']' :: rest)

/-- The places of the terms and blocks that are some levels inside those of a phrase. -/
def placesAt (levels : Nat) : Phrase → List Nat
  | .statements body => Statement.blockPlacesAt 0 levels body
  | .expression e => e.placesAt 0 levels
  | .term t => t.placesAt 0 levels
  | .call target => target.placesAt 0 levels
  | .elementAddress _ index => index.placesAt 0 levels

/-- What compiles a phrase, with the given number of levels left. -/
def step (subroutine : Subroutine) (levels : Nat) : Phrase → Codegen Unit
  | .statements _ => Codegen.statements subroutine levels
  | .expression _ => Codegen.expression (Codegen.term subroutine.className levels)
  | .term _ => Codegen.term subroutine.className levels
  | .call target =>
    Codegen.call subroutine.className (Codegen.term subroutine.className levels) target.firstName
  | .elementAddress array _ =>
    Codegen.elementAddress (Codegen.term subroutine.className levels) array

/-- What compiles a phrase and counts, with at most the given number of steps for terms and
statements inside one another. -/
def counted {limits : Limits} (subroutine : Subroutine) (levels : Nat) :
    Phrase → Counted limits Unit
  | .statements _ => Counted.statements subroutine levels
  | .expression _ => Counted.expression (Counted.term subroutine.className levels)
  | .term _ => Counted.term subroutine.className levels
  | .call target =>
    Counted.call subroutine.className (Counted.term subroutine.className levels) target.firstName
  | .elementAddress array _ =>
    Counted.elementAddress (Counted.term subroutine.className levels) array

variable {environment : Environment} {level levels : Nat} {rest : List Terminal}
  {subroutine : Subroutine}

/-- Only a block can be without any tokens. -/
theorem eq_statements_nil {p : Phrase} (none : p.terminals = []) : p = .statements [] := by
  cases p with
  | statements body =>
    cases body with
    | nil => rfl
    | cons statement body =>
      obtain ⟨x, l, begins, -⟩ := statement.starts
      simp [terminals, Statement.blockTerminals, begins] at none
  | expression e =>
    obtain ⟨x, l, begins, -⟩ := e.starts
    simp [terminals, begins] at none
  | term t =>
    obtain ⟨x, l, begins, -⟩ := t.starts
    simp [terminals, begins] at none
  | call target =>
    obtain ⟨name, c, l, begins, -⟩ := target.starts
    simp [terminals, begins] at none
  | elementAddress array index => simp [terminals] at none

/-! ### Violations -/

theorem violations_eq_nil (p : Phrase) (sum : level + levels = maxNesting + 1) :
    p.violations environment level rest = [] ↔ p.height ≤ levels ∧ p.Legal environment := by
  cases p with
  | statements body => exact Statement.blockViolations_eq_nil sum
  | expression e => exact e.violations_eq_nil rest sum
  | term t => exact t.violations_eq_nil rest sum
  | call target => exact target.violations_eq_nil rest sum
  | elementAddress array index => exact index.violations_eq_nil _ sum

/-- The nesting of a phrase that breaks no other rule is first too deep where it is the number of
levels inside that are left. -/
theorem firstAt (p : Phrase) (rest : List Terminal) (sum : level + levels = maxNesting + 1)
    (legal : p.Legal environment) : FirstAt (p.terminals ++ rest).length
      (p.violations environment level rest) (p.placesAt levels) := by
  cases p with
  | statements body => exact Statement.blockFirstAt body rest sum (Nat.zero_add _) legal
  | expression e => exact e.firstAt rest sum (Nat.zero_add _) legal
  | term t => exact t.firstAt rest sum (Nat.zero_add _) legal
  | call target =>
    refine target.firstAt rest sum ?_ legal
    rw [target.terminals_eq, Nat.zero_add]
    rfl
  | elementAddress array index =>
    refine index.firstAt _ sum ?_ legal
    simp [terminals]

theorem meets {script : Script} {visible : VariableTable} (p : Phrase)
    (sum : level + levels = maxNesting + 1) (means : visible.lookup? = environment.lookup?)
    (className : subroutine.className = environment.className)
    (ends : Ends p.continues rest.head?)
    (nonempty : levels < p.height → p.terminals ++ rest ≠ []) :
    Meets script (p.step subroutine levels) ⟨visible, p.terminals ++ rest⟩
      (p.violations environment level rest) () ⟨visible, rest⟩ := by
  have terms : MeetsTerms script environment visible level
      (Codegen.term subroutine.className levels) := by
    rw [className]
    exact term_meets means sum
  cases p with
  | statements body =>
    refine statements_meet_of_ends means className sum body (fun t isNext => ?_)
      (fun t isNext => ?_) fun none => nonempty ?_
    · exact (Bool.or_eq_false_iff.mp (ends t isNext)).2
    · exact (Bool.or_eq_false_iff.mp (ends t isNext)).1
    · rw [none]
      exact Nat.succ_pos _
  | expression e => exact expression_meets terms e ends
  | term t => exact terms t rest ends
  | call target =>
    rw [className] at terms
    have called := call_meets terms rest means target.terminals_eq
    rwa [← className] at called
  | elementAddress array index =>
    rw [terminals, List.append_assoc]
    exact elementAddress_meets terms rest index array

/-! ### Phrases of the same production -/

/-- The terminals of the phrases that the step of a phrase takes. -/
def siblings : Phrase → Phrases Unit
  | .statements _ => anyOf Statement.blockTerminals
  | .expression _ => anyOf Expression.terminals
  | .term _ => anyOf Term.terminals
  | .call target => fun _ taken =>
    ∃ other : Call, other.terminals = .identifier target.firstName :: taken
  | .elementAddress _ _ => anyOf fun index : Expression => index.terminals ++ [.symbol ']']

theorem follows (p : Phrase) {s : Session} : Follows s (p.step subroutine levels) p.siblings := by
  cases p with
  | statements body => exact .statements subroutine levels
  | expression e => exact .expression (.term _ levels)
  | term t => exact .term _ levels
  | call target => exact .call (.term _ levels) _ _
  | elementAddress array index => exact .elementAddress (.term _ levels) array

/-! ### Two runs -/

theorem keeps (L : Lockstep) (p : Phrase) (subroutine : Subroutine) (levels : Nat) :
    L.Keeps (p.step subroutine levels) (p.step subroutine levels) := by
  cases p with
  | statements body => exact .statements subroutine levels
  | expression e => exact .expression (.term _ levels)
  | term t => exact .term _ levels
  | call target => exact .call _ (.term _ levels) _
  | elementAddress array index => exact .elementAddress (.term _ levels) array

theorem mirrors {limits : Limits} {W : Watch limits} {d n : Nat} {shows : TokenStream → Prop}
    (L : Lockstep) (p : Phrase) (enough : maxNesting < levels + d) :
    W.Mirrors d shows (n + 1) (n + 1) (p.counted subroutine levels)
      (p.step subroutine (maxNesting - d)) := by
  have steady := Lockstep.Keeps.term (L := L) subroutine.className (maxNesting - d)
  have terms {shows : TokenStream → Prop} {n : Nat} : W.Mirrors d shows n n
      (Counted.term subroutine.className levels)
      (Codegen.term subroutine.className (maxNesting - d)) := .term L _ enough
  cases p with
  | statements body => exact .statements L subroutine enough
  | expression e => exact .expression steady terms
  | term t => exact terms
  | call target => exact .call steady terms _ _
  | elementAddress array index => exact .elementAddress steady terms array

end Phrase

end JackCompiler.Grammar
